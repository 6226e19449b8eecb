import Gftp.Decimal
import Gftp.FileTable
import Gftp.LineReader
import Gftp.Protocol

/-!
The directory cache of cache.c. Its index has a line for each cached listing: the
url, the file that holds the listing, the server type and the expiration date. A line
is parsed in place by storing NUL over its tabs and restored by storing them back.
Files of the cache are opened and written without failure.
-/

namespace Gftp.CacheIndex

open ByteStrings ByteStreams LineReader Decimal FileTable Protocol

def bufsiz : ℕ := 8192

/-- The fields of a request that the cache reads. -/
structure CacheRequest where
  urlPrefix : CString
  username : Option CString
  hostname : Option CString
  port : Int32
  directory : Option CString
  serverType : Int32

def orEmpty : Option CString → Bytes
  | none => []
  | some s => s.bytes

def cacheUrl (request : CacheRequest) (ignoreDirectory : Bool) : Bytes :=
  request.urlPrefix.bytes ++ ascii "://" ++ orEmpty request.username ++ ascii "@" ++
    orEmpty request.hostname ++ ascii ":" ++ decimal request.port.toInt ++
      (if ignoreDirectory then [] else orEmpty request.directory)

/-- snprintf to an array of len bytes. -/
def gftpGenerateCacheDescription (request : CacheRequest) (len : ℕ) (ignoreDirectory : Bool) :
    Bytes :=
  (cacheUrl request ignoreDirectory).take (len - 1)

def indexFile (cachedir : Bytes) : Bytes := cachedir ++ ascii "/index.db"

def newIndexFile (cachedir : Bytes) : Bytes := cachedir ++ ascii "/index.db.new"

/-- The file mkstemp makes for a suffix. -/
def cacheFile (cachedir suffix : Bytes) : Bytes := cachedir ++ ascii "/cache." ++ suffix

/-- A cache directory between two operations: a new index has been renamed. -/
structure CacheDir (cachedir : Bytes) where
  files : Files Bytes
  no_new_index : files.names (newIndexFile cachedir) = none

/-- A line of the index, without its newline. -/
def cacheLine (url file : Bytes) (serverType : Int32) (expirationDate : Int64) : Bytes :=
  url ++ 9 :: (file ++ 9 :: (decimal serverType.toInt ++ 9 :: decimal expirationDate.toInt))

theorem path_ne {cachedir a b : Bytes} (h : a ≠ b) : cachedir ++ a ≠ cachedir ++ b := by
  simpa using h

theorem newIndexFile_ne_indexFile (cachedir : Bytes) :
    newIndexFile cachedir ≠ indexFile cachedir := path_ne (by decide)

theorem cacheFile_ne_indexFile (cachedir suffix : Bytes) :
    cacheFile cachedir suffix ≠ indexFile cachedir := by
  unfold cacheFile
  rw [List.append_assoc]
  refine path_ne ?_
  intro h
  have hsecond := congrArg (fun l : Bytes => l[1]?) h
  simp [ascii] at hsecond

theorem cacheFile_ne_newIndexFile (cachedir suffix : Bytes) :
    cacheFile cachedir suffix ≠ newIndexFile cachedir := by
  unfold cacheFile
  rw [List.append_assoc]
  refine path_ne ?_
  intro h
  have hsecond := congrArg (fun l : Bytes => l[1]?) h
  simp [ascii] at hsecond

variable {cachedir : Bytes}

/-- The entry is registered with an empty file before anything is listed. -/
def gftpNewCacheEntry (request : CacheRequest) (now cacheTtl : Int64) (suffix : Bytes)
    (dir : CacheDir cachedir) : CacheDir cachedir × ℕ :=
  let opened := dir.files.create (indexFile cachedir)
  let made := opened.1.create (cacheFile cachedir suffix)
  let line := cacheLine (cacheUrl request false) (cacheFile cachedir suffix) request.serverType
    (now + cacheTtl)
  ({ files := made.1.append opened.2 (line ++ [10])
     no_new_index := by
      show made.1.names _ = none
      rw [Files.names_create_ne (cacheFile_ne_newIndexFile cachedir suffix).symm]
      exact (Files.names_create_ne (newIndexFile_ne_indexFile cachedir)).trans
        dir.no_new_index },
    made.2)

/-- The fields are offsets into the line. -/
structure GftpCacheEntry where
  url : ℕ
  file : ℕ
  serverType : Int32
  expirationDate : Int64
  pos1 : ℕ
  pos2 : ℕ
  pos3 : ℕ

/-- One step of gftp_parse_cache_line: the tab that ends the field at start becomes a
NUL, unless there is none or nothing follows it. -/
def cutField (buf : Bytes) (start : ℕ) : CRun (Option ℕ × Bytes) := do
  match ← strchr buf start 9 with
  | none => return (none, buf)
  | some pos =>
      if buf[pos + 1]? = some 0 then return (none, buf)
      else
        let buf ← overwrite buf pos [0]
        return (some pos, buf)

def gftpParseCacheLine (line : Bytes) : CRun (Option GftpCacheEntry × Bytes) := do
  let (pos1, line) ← cutField line 0
  match pos1 with
  | none => return (none, line)
  | some pos1 =>
      let (pos2, line) ← cutField line (pos1 + 1)
      match pos2 with
      | none => return (none, line)
      | some pos2 =>
          let serverType := Int32.ofInt (strtol (cstr (line.drop (pos2 + 1))))
          let (pos3, line) ← cutField line (pos2 + 1)
          match pos3 with
          | none => return (none, line)
          | some pos3 =>
              let expirationDate := Int64.ofInt (strtol (cstr (line.drop (pos3 + 1))))
              return (some {
                url := 0
                file := pos1 + 1
                serverType := serverType
                expirationDate := expirationDate
                pos1 := pos1
                pos2 := pos2
                pos3 := pos3 }, line)

def gftpRestoreCacheLine (centry : GftpCacheEntry) (line : Bytes) : CRun Bytes := do
  let line ← overwrite line centry.pos1 [9]
  let line ← overwrite line centry.pos2 [9]
  overwrite line centry.pos3 [9]

/-- The array of a caller of gftp_get_line, which is padded with NUL. -/
def lineBuf (line : Bytes) : Bytes := line ++ List.replicate (bufsiz - line.length) 0

/-- What a parsed line says, as the strings its fields show. -/
structure ParsedLine where
  url : Bytes
  file : Bytes
  serverType : Int32
  expirationDate : Int64
  deriving DecidableEq

def GftpCacheEntry.shown (centry : GftpCacheEntry) (line : Bytes) : ParsedLine :=
  { url := cstr (line.drop centry.url)
    file := cstr (line.drop centry.file)
    serverType := centry.serverType
    expirationDate := centry.expirationDate }

/-- The file and the server type of the first valid entry with the description. -/
def findLine (now : Int64) (description line : Bytes) : CRun (Option (Bytes × Int32)) := do
  let (centry, buf) ← gftpParseCacheLine (lineBuf line)
  match centry with
  | none => return none
  | some centry =>
      let shown := centry.shown buf
      if shown.expirationDate < now then return none
      else if description = shown.url then return some (shown.file, shown.serverType)
      else return none

/-- The open file and the server type, none for a result of -1. An empty file is
refused. -/
def gftpFindCacheEntry (request : CacheRequest) (now : Int64) (dir : CacheDir cachedir) :
    CRun (Option (ℕ × Int32)) := do
  let description := gftpGenerateCacheDescription request bufsiz false
  match dir.files.read (indexFile cachedir) with
  | none => return none
  | some index =>
      let found ← forLines bufsiz
        (fun line (found : Option (Bytes × Int32)) => do
          match ← findLine now description line with
          | some entry => return (some entry, false)
          | none => return (found, true))
        (index.length + 1) none (ofFile index : Stream GftpError) none
      match found with
      | none => return none
      | some (file, serverType) =>
          match dir.files.names file with
          | none => return none
          | some fd => if dir.files.data fd = [] then return none else return some (fd, serverType)

/-- What an operation leaves: the directory and the names it has unlinked because
lines of the index gave them. -/
structure Cleared (cachedir : Bytes) where
  dir : CacheDir cachedir
  unlinked : List Bytes

def CacheDir.unlink (dir : CacheDir cachedir) (p : Bytes) : CacheDir cachedir where
  files := dir.files.unlink p
  no_new_index := by
    rw [Files.names_unlink]
    split
    · rfl
    · exact dir.no_new_index

def clearLine (line : Bytes) (st : Cleared cachedir) : CRun (Cleared cachedir × Bool) := do
  let (centry, buf) ← gftpParseCacheLine (lineBuf line)
  match centry with
  | none => return (st, true)
  | some centry =>
      let file := (centry.shown buf).file
      return ({ dir := st.dir.unlink file, unlinked := st.unlinked ++ [file] }, true)

def gftpClearCacheFiles (dir : CacheDir cachedir) : CRun (Cleared cachedir) := do
  match dir.files.read (indexFile cachedir) with
  | none => return { dir := dir, unlinked := [] }
  | some index =>
      let st ← forLines bufsiz clearLine (index.length + 1) none
        (ofFile index : Stream GftpError) { dir := dir, unlinked := [] }
      return { st with dir := st.dir.unlink (indexFile cachedir) }

/-- What becomes of one line: written is what is put into the new index. -/
inductive LineFate
  | invalid
  | remove (file : Bytes)
  | keep (written : Bytes)
  deriving DecidableEq

def delEntry (now : Int64) (description : Bytes) (ignoreDirectory : Bool) (shown : ParsedLine) :
    Bool :=
  shown.expirationDate < now ∨
    if ignoreDirectory then description <+: shown.url else shown.url = description

/-- The newline is stored over the terminator, and len, which the same statement
decrements, is the number of bytes written. -/
def deleteLine (now : Int64) (description : Bytes) (ignoreDirectory : Bool) (line : Bytes) :
    CRun LineFate := do
  let (centry, buf) ← gftpParseCacheLine (lineBuf line)
  match centry with
  | none => return .invalid
  | some centry =>
      if delEntry now description ignoreDirectory (centry.shown buf) then
        return .remove (centry.shown buf).file
      else
        let buf ← gftpRestoreCacheLine centry buf
        let len := (cstr buf).length
        let buf ← overwrite buf len [10]
        return .keep (buf.take (len - 1))

/-- The files during a rewrite, the offset of the new index and the names unlinked. -/
structure Rewrite where
  files : Files Bytes
  offset : ℕ
  unlinked : List Bytes

def Rewrite.apply (st : Rewrite) (newfd : ℕ) : LineFate → Rewrite
  | .invalid => st
  | .remove file => { st with files := st.files.unlink file, unlinked := st.unlinked ++ [file] }
  | .keep written =>
      { st with
        files := st.files.writeAt newfd st.offset written
        offset := st.offset + written.length }

/-- The body of the loop on the old index. -/
def rewriteLine (now : Int64) (description : Bytes) (ignoreDirectory : Bool) (newfd : ℕ)
    (line : Bytes) (st : Rewrite) : CRun (Rewrite × Bool) := do
  let fate ← deleteLine now description ignoreDirectory line
  return (st.apply newfd fate, true)

/-- The description that entries are compared with, none when the call is refused. -/
def deleteDescription (request : Option CacheRequest) (descr : Option CString)
    (ignoreDirectory : Bool) : Option Bytes :=
  match request, descr with
  | some request, _ => some (gftpGenerateCacheDescription request bufsiz ignoreDirectory)
  | none, some descr => some (descr.bytes.take (bufsiz - 1))
  | none, none => none

def gftpDeleteCacheEntry (request : Option CacheRequest) (descr : Option CString)
    (ignoreDirectory : Bool) (now : Int64) (dir : CacheDir cachedir) :
    CRun (Cleared cachedir) := do
  match deleteDescription request descr ignoreDirectory with
  | none => return { dir := dir, unlinked := [] }
  | some description =>
      match dir.files.read (indexFile cachedir) with
      | none => return { dir := dir, unlinked := [] }
      | some index =>
          let opened := dir.files.create (newIndexFile cachedir)
          let st ← forLines (bufsiz - 1)
            (rewriteLine now description ignoreDirectory opened.2)
            (index.length + 1) none (ofFile index : Stream GftpError)
            { files := opened.1, offset := 0, unlinked := [] }
          return {
            dir := {
              files := (st.files.unlink (indexFile cachedir)).rename (newIndexFile cachedir)
                (indexFile cachedir)
              no_new_index := Files.names_rename_self (newIndexFile_ne_indexFile cachedir) }
            unlinked := st.unlinked }

end Gftp.CacheIndex
