import Gftp.BookmarkStore
import Gftp.Comments
import Gftp.Decimal
import Gftp.Passwords

/-!
The bookmarks file. gftp_write_bookmarks_file writes a block of lines for each entry without
children, gftp_read_bookmarks adds an entry for each line in brackets and fills it from the
lines behind it.
-/

namespace Gftp.BookmarksFile

open ByteStrings Fuel LinkedTrees Bookmarks BookmarkStore TextFiles Comments Decimal Passwords

/-- A text of an entry as printf gets it. -/
def orEmpty (text : Option Bytes) : Bytes := text.getD []

/-- The name of the first protocol stands for no protocol. -/
def protocolName (protocol : Option Bytes) : Bytes :=
  if orEmpty protocol = [] then ascii "FTP" else orEmpty protocol

/-- A password stands in the file when it is to be saved. -/
def savedPassword (d : Bookmark) : Bytes :=
  match d.pass with
  | some pass => if d.savePassword then gftpScramblePassword pass else []
  | none => []

def optionLine (o : LocalOption) : Bytes := o.key ++ 61 :: o.written

/-- The lines of the fields of a bookmark. -/
def fieldLines (d : Bookmark) : List Bytes :=
  [ascii "hostname=" ++ orEmpty d.hostname,
    ascii "port=" ++ decimal d.port.toNat,
    ascii "protocol=" ++ protocolName d.protocol,
    ascii "remote directory=" ++ orEmpty d.remoteDir,
    ascii "local directory=" ++ orEmpty d.localDir,
    ascii "username=" ++ orEmpty d.user,
    ascii "password=" ++ savedPassword d,
    ascii "account=" ++ orEmpty d.acct]

/-- What is written for an entry without children. -/
def entryLines (d : Bookmark) : List Bytes :=
  let path := d.path.dropWhile (· = 47)
  if d.isfolder then [ascii "[" ++ path ++ ascii "/]", []]
  else [ascii "[" ++ path ++ ascii "]"] ++ fieldLines d ++ d.localOptions.map optionLine ++ [[]]

/-- gftp_write_bookmarks_file, with the two comments at its head. -/
def gftpWriteBookmarksFile (bmhdr pwhdr : Bytes) (fuel : ℕ) (s : Store) : CRun Bytes := do
  let entries ← writeEntries (fun _ d => joinLines (entryLines d)) s.nodes fuel s.root
  return writeComment bmhdr ++ writeComment pwhdr ++ [10] ++ entries

/-- The variables of gftp_read_bookmarks. -/
structure Reading where
  store : Store
  newentry : Option ℕ

/-- The text from a place in the line on, which is one byte behind a word that was compared. When
the line ends with that word, the place is beyond its end. -/
def behind (word buf : Bytes) : CRun Bytes :=
  match buf.drop word.length with
  | [] => .error .fault
  | _ :: value => return value

/-- The part of a line before its first equals sign and the part behind it. -/
def cutOption (buf : Bytes) : Option (Bytes × Bytes) :=
  if 61 ∈ buf then some (buf.takeWhile (· ≠ 61), (buf.dropWhile (· ≠ 61)).drop 1) else none

/-- A line that is none of a field: an option when gftp_global_options_htable has its key and a
function to read it; readOption gives the record that is added then. -/
def otherLine (readOption : Bytes → Bytes → Option LocalOption) (buf : Bytes) :
    Option LocalOption :=
  if buf.head? = some 35 ∨ buf = [] then none
  else (cutOption buf).bind fun cut => readOption cut.1 cut.2

/-- The words that the lines are compared with, in the order of the tests, and what is done with
the value then. Passwords are always descrambled. -/
def fieldSetters : List (Bytes × (Bytes → Bookmark → Bookmark)) := [
  (ascii "hostname", fun value d => { d with hostname := some value }),
  (ascii "port", fun value d => { d with port := UInt32.ofNat (strtol value % 2 ^ 32).toNat }),
  (ascii "protocol", fun value d => { d with protocol := some value }),
  (ascii "remote directory", fun value d => { d with remoteDir := some value }),
  (ascii "local directory", fun value d => { d with localDir := some value }),
  (ascii "username", fun value d => { d with user := some value }),
  (ascii "password", fun value d =>
    { d with
      pass := some (gftpDescramblePassword value)
      savePassword := decide (gftpDescramblePassword value ≠ []) }),
  (ascii "account", fun value d => { d with acct := some value })]

def addOption (o : LocalOption) (d : Bookmark) : Bookmark :=
  { d with localOptions := d.localOptions ++ [o] }

/-- What a line without a bracket does to the entry that was added last. -/
def lineChange (readOption : Bytes → Bytes → Option LocalOption) (buf : Bytes) :
    CRun (Option (Bookmark → Bookmark)) :=
  match fieldSetters.find? fun field => field.1.isPrefixOf buf with
  | some (word, set) => do return some (set (← behind word buf))
  | none => return (otherLine readOption buf).map addOption

def changeEntry (s : Store) (entry : ℕ) (change : Bookmark → Bookmark) : CRun Store := do
  let n ← look s.nodes entry
  return s.setNode entry { n with data := change n.data }

/-- The path of a line in brackets, without the blanks and brackets at its end. -/
def bracketPath (buf : Bytes) : Bytes :=
  (buf.reverse.dropWhile fun c => c = 32 ∨ c = 93).reverse.drop 1

/-- One round of gftp_read_bookmarks, for a line whose end was taken off. Without an entry an
option that is read is stored through a null pointer. -/
def readLine (readOption : Bytes → Bytes → Option LocalOption) (fuel : ℕ) (buf : Bytes)
    (st : Reading) : CRun Reading :=
  if buf.head? = some 91 then do
    let store ← gftpAddBookmark fuel st.store (Bookmark.fresh (bracketPath buf))
    return { store, newentry := some st.store.brk }
  else
    match st.newentry with
    | some entry => do
        match ← lineChange readOption buf with
        | none => return st
        | some change => return { st with store := ← changeEntry st.store entry change }
    | none =>
        match otherLine readOption buf with
        | none => return st
        | some _ => .error .fault

def readLines (readOption : Bytes → Bytes → Option LocalOption) (fuel : ℕ) :
    List Bytes → Reading → CRun Reading
  | [], st => return st
  | buf :: rest, st => do
      readLines readOption fuel rest (← readLine readOption fuel (chomp (cstr buf)) st)

/-- gftp_read_bookmarks, on the text of the file. -/
def gftpReadBookmarks (readOption : Bytes → Bytes → Option LocalOption) (fuel : ℕ) (file : Bytes) :
    CRun Store := do
  let st ← readLines readOption fuel (getLines 254 file) { store := .empty, newentry := none }
  return st.store

end Gftp.BookmarksFile
