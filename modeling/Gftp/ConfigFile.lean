import Mathlib.Logic.Function.Basic
import Gftp.BookmarksFile
import Gftp.OptionValues

/-!
The configuration file. gftp_write_config_file formats all options through one buffer, in the
order in which they were registered; gftp_read_config_file looks the options up by their keys.
-/

namespace Gftp.ConfigFile

open ByteStrings TextFiles Comments BookmarksFile OptionTables OptionValues

/-- The keys and headers of gftp_config_list. -/
def gftpConfigList : List (Bytes × Option Bytes) := [
  (ascii "dont_use_proxy", some (ascii "This section specifies which hosts are on the local subnet and won't need to go out the proxy server (if available). Syntax: dont_use_proxy=.domain or dont_use_proxy=network number/netmask")),
  (ascii "ext", some (ascii "ext=file extenstion:XPM file:Ascii or Binary (A or B):viewer program. Note: All arguments except the file extension are optional")),
  (ascii "localhistory", none),
  (ascii "remotehistory", none),
  (ascii "hosthistory", none),
  (ascii "porthistory", none),
  (ascii "userhistory", none)]

/-- The options that are written, in the order of the loops. -/
def writtenOptions : List OptionVar :=
  gftpOptionsList.flatten.filter fun cv => cv.otype ≠ .notebook ∧ cv.key ≠ []

def commentText (comment : Option Bytes) : Bytes := (comment.map writeComment).getD []

def optionText (cv : OptionVar) (text : Bytes) : Bytes :=
  10 :: (commentText cv.comment ++ (cv.key ++ 61 :: (text ++ [10])))

/-- The loops over the options, with the buffer as the option before left it. -/
def writeOptions (F : Floats) (values : Bytes → Setting) :
    List OptionVar → Option Bytes → CRun Bytes
  | [], _ => return []
  | cv :: cvs, buf => do
      match ← writeFunction F cv (values cv.key) buf with
      | none => .error .fault
      | some text => do
          return optionText cv text ++ (← writeOptions F values cvs (some text))

/-- The loop over the lists, with the texts that their write functions give. -/
def writeLists (lists : Bytes → List Bytes) : Bytes :=
  gftpConfigList.flatMap fun list =>
    if list.2 = none ∧ lists list.1 = [] then []
    else 10 :: (commentText list.2 ++ joinLines ((lists list.1).map fun item => list.1 ++ 61 :: item))

/-- gftp_write_config_file, with the comment at its head. -/
def gftpWriteConfigFile (F : Floats) (header : Bytes) (lists : Bytes → List Bytes)
    (values : Bytes → Setting) : CRun Bytes := do
  let options ← writeOptions F values writtenOptions none
  return writeComment header ++ options ++ writeLists lists

/-- g_hash_table_insert, for an option with a key. -/
def insertOption (table : Bytes → Option OptionVar) (cv : OptionVar) : Bytes → Option OptionVar :=
  if cv.key = [] then table else Function.update table cv.key (some cv)

/-- gftp_global_options_htable. -/
def globalOptionsHtable : Bytes → Option OptionVar :=
  gftpOptionsList.flatten.foldl insertOption fun _ => none

/-- The read functions of the lists, without what they add to them. -/
def readItem (key str : Bytes) : CRun Unit :=
  if key = ascii "ext" then do
    let _ ← gftpConfigParseArgs 4 str
  else return

/-- One round of gftp_read_config_file, for a line whose end was taken off. -/
def readLine (F : Floats) (buf : Bytes) (st : Bytes → Setting) : CRun (Bytes → Setting) :=
  if buf.head? = some 35 ∨ buf = [] then return st
  else
    match cutOption buf with
    | none => return st
    | some (key, str) =>
        if key ∈ gftpConfigList.map Prod.fst then do
          readItem key str
          return st
        else
          match globalOptionsHtable key with
          | none => return st
          | some cv =>
              if cv.otype = .notebook then return st
              else do return Function.update st key (← readFunction F cv str)

def readLines (F : Floats) : List Bytes → (Bytes → Setting) → CRun (Bytes → Setting)
  | [], st => return st
  | buf :: rest, st => do readLines F rest (← readLine F (chomp (cstr buf)) st)

/-- gftp_read_config_file, on the text of the file; the values of the options are those before. -/
def gftpReadConfigFile (F : Floats) (file : Bytes) (st : Bytes → Setting) :
    CRun (Bytes → Setting) :=
  readLines F (getLines 254 file) st

end Gftp.ConfigFile
