import Gftp.ListingParsers
import Gftp.WindowTransfers

/-!
The calls that read one directory for a transfer or a deletion: the change to a directory,
the table of the names on the other side and the list of the entries. What gftp_list_files
and gftp_get_next_file return for a directory is one answer here; both loops over it end at
the first result that is not positive.
-/

namespace Gftp.DirectoryReads

open ByteStrings Protocol

variable {σ τ : Type}

/-- The fields of a gftp_file that a walk over directories uses. -/
structure WalkFile where
  file : Bytes
  destfile : Option Bytes
  size : ℤ
  startsize : ℤ
  stMode : ℕ
  stDev : ℕ
  stIno : ℕ
  existsOtherSide : Bool
  deriving DecidableEq

def sIsdir (mode : ℕ) : Bool := mode &&& ListingParsers.sIfmt = ListingParsers.sIfdir

def sIslnk (mode : ℕ) : Bool := mode &&& ListingParsers.sIfmt = ListingParsers.sIflnk

/-- What gftp_get_next_file returns: a positive number with an entry, or an error. -/
inductive NextFile
  | entry (fle : WalkFile)
  | failed (e : GftpError)
  deriving DecidableEq

/-- What gftp_list_files returns, and the results of gftp_get_next_file in front of the one
that ends every loop. -/
structure ListAnswer where
  ret : ℤ
  files : List NextFile

/-- A gftp_request. vms says that server_type is VMS; state is what the protocol and the other
side keep. -/
structure WalkRequest (σ : Type) extends WindowTransfers.Request where
  directory : Option Bytes
  vms : Bool
  state : σ

structure StatAnswer where
  ret : ℤ
  stMode : ℕ
  filesize : ℤ

/-- The functions of a protocol; those that a protocol may lack are none then. listFiles stands
for a listing up to gftp_end_transfer. -/
structure WalkProtocol (σ : Type) where
  listFiles : WalkRequest σ → ListAnswer × WalkRequest σ
  getFileSize : Option (WalkRequest σ → Bytes → ℤ × WalkRequest σ)
  statFilename : Option (WalkRequest σ → Bytes → StatAnswer × WalkRequest σ)
  chdir : Option (WalkRequest σ → Bytes → ℤ × WalkRequest σ)

/-- gftp_build_path on a path and one more element. -/
def gftpBuildPath (vms : Bool) (ret element : Bytes) : Bytes :=
  if element = [] then ret
  else if ret.getLast? = some 47 ∨ ret ≠ [] ∧ element.head? = some 47 then ret ++ element
  else ret ++ (if vms then [] else [47]) ++ element

def gftpGetFileSize (P : WalkProtocol σ) (r : WalkRequest σ) (file : Bytes) : ℤ × WalkRequest σ :=
  match P.getFileSize with
  | none => (0, r)
  | some getFileSize => getFileSize r file

/-- The mode and the size are 0 when nothing sets them. -/
def gftpStatFilename (P : WalkProtocol σ) (r : WalkRequest σ) (file : Bytes) :
    StatAnswer × WalkRequest σ :=
  match P.statFilename with
  | none => (⟨0, 0, 0⟩, r)
  | some statFilename => statFilename r file

/-- A request without a socket only notes the directory. -/
def gftpSetDirectory (P : WalkProtocol σ) (r : WalkRequest σ) (directory : Option Bytes) :
    ℤ × WalkRequest σ :=
  match directory with
  | none => (GftpError.fatal.code, r)
  | some directory =>
      if r.datafd ≤ 0 ∧ r.alwaysConnected = false then (0, { r with directory := some directory })
      else
        match P.chdir with
        | none => (GftpError.fatal.code, r)
        | some chdir => chdir r directory

/-- The entries that a loop sees which ends at the first result that is not positive. -/
def readEntries : List NextFile → List WalkFile
  | .entry fle :: rest => fle :: readEntries rest
  | _ => []

/-- The table of a gftp_gen_dir_hash: the entries inserted, the last one first. -/
abbrev DirHash := List (Bytes × ℤ)

def DirHash.lookup (h : DirHash) (name : Bytes) : Option ℤ := (h.find? (·.1 = name)).map Prod.snd

/-- NULL when the listing does not return 0. -/
def gftpGenDirHash (P : WalkProtocol σ) (r : WalkRequest σ) : ℤ × Option DirHash × WalkRequest σ :=
  let (a, r) := P.listFiles r
  if a.ret = 0 then (a.ret, some ((readEntries a.files).map fun fle => (fle.file, fle.size)).reverse, r)
  else (a.ret, none, r)

/-- What both loops do with an entry whose name is looked up. -/
def lookUp (dirhash : Option DirHash) (name : Bytes) (fle : WalkFile) : WalkFile :=
  match dirhash.bind (·.lookup name) with
  | some newsize => { fle with existsOtherSide := true, startsize := newsize }
  | none => { fle with existsOtherSide := false }

/-- The path of a file of the directory that a request is in, unless it is one from the root. -/
def filePath (fromreq : WalkRequest σ) (file : Bytes) : Bytes :=
  match fromreq.directory with
  | some (b :: directory) =>
      if file.head? = some 47 then file else gftpBuildPath fromreq.vms (b :: directory) file
  | _ => file

/-- The path on the other side, unless there is one. -/
def destPath (toreq : Option (WalkRequest τ)) (fle : WalkFile) : Option Bytes :=
  match toreq, fle.destfile with
  | some toreq, none => toreq.directory.map (gftpBuildPath toreq.vms · fle.file)
  | _, destfile => destfile

def setPaths (fromreq : WalkRequest σ) (toreq : Option (WalkRequest τ)) (fle : WalkFile) :
    WalkFile :=
  { fle with destfile := destPath toreq fle, file := filePath fromreq fle.file }

def dot : Bytes := [46]

def dotdot : Bytes := [46, 46]

/-- The entry is neither the directory itself nor its parent. -/
def notDots (fle : WalkFile) : Bool := fle.file ≠ dot ∧ fle.file ≠ dotdot

/-- An entry as gftp_get_dir_listing puts it into its list. -/
def listEntry (fromreq : WalkRequest σ) (toreq : Option (WalkRequest τ)) (dirhash : Option DirHash)
    (fle : WalkFile) : WalkFile := setPaths fromreq toreq (lookUp dirhash fle.file fle)

/-- What gftp_get_dir_listing returns, and the requests it leaves. -/
structure Reading (σ τ : Type) where
  ret : ℤ
  files : List WalkFile
  fromreq : WalkRequest σ
  toreq : Option (WalkRequest τ)

/-- The table of the other side: the result of its listing, 0 when there is no other side or it
is not to be listed. -/
def otherSide (T : WalkProtocol τ) (getothdir : Bool) (toreq : Option (WalkRequest τ)) :
    ℤ × Option DirHash × Option (WalkRequest τ) :=
  match getothdir, toreq with
  | true, some toreq =>
      let (ret, dirhash, toreq) := gftpGenDirHash T toreq
      (ret, dirhash, some toreq)
  | _, toreq => (0, none, toreq)

def gftpGetDirListing (F : WalkProtocol σ) (T : WalkProtocol τ) (fromreq : WalkRequest σ)
    (toreq : Option (WalkRequest τ)) (getothdir : Bool) : Reading σ τ :=
  let (ret, dirhash, toreq) := otherSide T getothdir toreq
  if ret = GftpError.fatal.code then ⟨ret, [], fromreq, toreq⟩
  else
    let (a, fromreq) := F.listFiles fromreq
    if a.ret < 0 then ⟨a.ret, [], fromreq, toreq⟩
    else
      ⟨a.ret, ((readEntries a.files).filter notDots).map (listEntry fromreq toreq dirhash), fromreq,
        toreq⟩

end Gftp.DirectoryReads
