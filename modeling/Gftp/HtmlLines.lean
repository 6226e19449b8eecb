import Gftp.ListingParsers
import Gftp.TextIndices

/-!
parse_html_line: one line of a directory index from a web server. The name is copied out of the line
by putting terminators over its closing quote and a final slash, which are put back when there is a
name. Only the name decides whether an entry is returned, when the tags behind it can be skipped; a
date and a size are taken as they come.
-/

namespace Gftp.HtmlLines

open ByteStrings Decimal ListingParsers Protocol TextIndices TextPointers

/-- The first occurrence of a text or, when there is none, of the other one. -/
def strstrEither (p upper lower : Bytes) : CRun (Option Bytes) := do
  match ← findText upper p with
  | some q => return some q
  | none => findText lower p

def findHref (p : Bytes) : CRun (Option Bytes) :=
  strstrEither p (ascii "<A HREF=") (ascii "<a href=")

def findClosing (p : Bytes) : CRun (Option Bytes) := strstrEither p (ascii "</A>") (ascii "</a>")

def toQuote (p : Bytes) : CRun Bytes := skipWhile (fun b => b ≠ 34 ∧ b ≠ 0) p

/-- stpos behind the opening quote and pos at the closing one. -/
def quotedName (pos : Bytes) : CRun (Option (Bytes × Bytes)) := do
  let pos ← toQuote pos
  if (← deref pos) = 0 then return none
  else
    let stpos := pos.drop 1
    let pos ← toQuote stpos
    if (← deref pos) = 0 then return none else return some (stpos, pos)

/-- Names that are no entries of the directory. -/
def Refused (name : Bytes) : Prop :=
  47 ∈ name ∨ ascii "mailto:" <+: name ∨ name = [] ∨ name.head? = some 63

instance (name : Bytes) : Decidable (Refused name) := inferInstanceAs (Decidable (_ ∨ _))

/-- The attributes and the name, none when it is refused. -/
def copyName (tempstr : Bytes) (stpos pos : ℕ) : CRun (Bytes × GftpFile) := do
  let tempstr ← writeAt tempstr pos 0
  let last ← readAt tempstr (pos - 1)
  let tempstr ← (if last = 47 then writeAt tempstr (pos - 1) 0 else .ok tempstr)
  let fle := { GftpFile.cleared with stMode := if last = 47 then dirMode else fileMode }
  let name ← textFrom tempstr stpos
  if Refused name then return (tempstr, fle)
  else
    let last ← readAt tempstr (pos - 1)
    let tempstr ← (if last = 0 then writeAt tempstr (pos - 1) 47 else .ok tempstr)
    let tempstr ← writeAt tempstr pos 34
    return (tempstr, { fle with file := some name })

/-- A tag that opens another anchor; strncmp ends at the terminator. -/
def StartsAnchor (pos : Bytes) : Prop := ascii "<A " <+: pos ∨ ascii "<a " <+: pos

instance (pos : Bytes) : Decidable (StartsAnchor pos) := inferInstanceAs (Decidable (_ ∨ _))

/-- Blanks, dots and tags behind the name, with the byte behind each of them that pos++ goes over;
none for a return of 0. -/
def skipMarkup : ℕ → Bytes → CRun (Option Bytes)
  | 0, _ => .error .pending
  | fuel + 1, pos => do
      let b ← deref pos
      if b = 60 then
        if StartsAnchor pos then
          match ← findClosing pos with
          | none => return none
          | some pos => skipMarkup fuel (pos.drop 5)
        else
          let pos ← skipWhile (fun b => b ≠ 62 ∧ b ≠ 0) pos
          if (← deref pos) = 0 then return none else skipMarkup fuel (pos.drop 1)
      else if b = 32 ∨ b = 9 ∨ b = 46 then skipMarkup fuel (pos.drop 1)
      else return some pos

def nearer (kpos mpos : Option Bytes) : Option Bytes :=
  match kpos with
  | none => mpos
  | some k =>
      match mpos with
      | none => some k
      | some m => if m.length < k.length then some k else some m

/-- The walk back to a blank. It looks at the byte in front of stpos before it compares stpos with
the start of the line. -/
def walkBack (tempstr : Bytes) (units : ℤ) : ℕ → ℤ → CRun (ℕ × ℤ)
  | 0, _ => .error .fault
  | stpos + 1, size => do
      let b ← readAt tempstr stpos
      if b = 32 ∨ b = 9 then return (stpos + 1, size)
      else if b = 46 then
        let c ← readAt tempstr (stpos + 1)
        if isDigit c then
          let n ← gftpParseFileSize (tempstr.drop (stpos + 1))
          walkBack tempstr units stpos ((offT (units * n)).tdiv 10)
        else walkBack tempstr units stpos size
      else walkBack tempstr units stpos size

def sizeBehind (tempstr pos : Bytes) : CRun ℤ := do
  let kpos ← findByte 107 pos
  let mpos ← findByte 77 pos
  match nearer kpos mpos with
  | none => return 0
  | some letter =>
      let stpos := tempstr.length - letter.length
      let before ← readAt tempstr (stpos - 1)
      if isDigit before then
        let units := if (← deref letter) = 107 then 1024 else 1048576
        let (stpos, size) ← walkBack tempstr units stpos 0
        let n ← gftpParseFileSize (tempstr.drop stpos)
        return offT (size + offT (units * n))
      else return 0

/-- The date, the owner and the size. The time parser always gives a position. -/
def dateAndSize (host : Host) (tempstr : Bytes) (fle : GftpFile) (pos : Bytes) : CRun GftpFile := do
  let b ← deref pos
  let (datetime, pos) ← parseTime host (if b = 91 then pos.drop 1 else pos)
  let pos ← skipWhile (fun b => b = 32 ∨ b = 93) pos
  let size ← sizeBehind tempstr pos
  return { fle with
    user := some host.unknown
    group := some host.unknown
    size := size
    datetime := datetime }

/-- The line afterwards, whether 1 is returned, and the fields of fle. -/
structure HtmlEntry where
  tempstr : Bytes
  ret : Bool
  fle : GftpFile

def behindName (host : Host) (tempstr : Bytes) (fle : GftpFile) (pos : Bytes) : CRun HtmlEntry := do
  match ← findClosing pos with
  | none => return ⟨tempstr, false, fle⟩
  | some pos =>
      match ← skipMarkup tempstr.length (pos.drop 4) with
      | none => return ⟨tempstr, false, fle⟩
      | some pos => return ⟨tempstr, true, ← dateAndSize host tempstr fle pos⟩

/-- The part from the name on, which stands between stpos and pos. -/
def namedEntry (host : Host) (tempstr : Bytes) (stpos pos : ℕ) : CRun HtmlEntry := do
  let (tempstr, fle) ← copyName tempstr stpos pos
  if fle.file = none then return ⟨tempstr, false, fle⟩
  else behindName host tempstr fle (tempstr.drop (pos + 1))

def parseHtmlLine (host : Host) (tempstr : Bytes) : CRun HtmlEntry := do
  match ← findHref tempstr with
  | none => return ⟨tempstr, false, GftpFile.cleared⟩
  | some pos =>
      match ← quotedName pos with
      | none => return ⟨tempstr, false, GftpFile.cleared⟩
      | some (stpos, pos) =>
          namedEntry host tempstr (tempstr.length - stpos.length) (tempstr.length - pos.length)

/-- What rfc2068_get_next_file returns: the entry, last_dir_entry and the length of the line. -/
structure NextFile where
  fle : GftpFile
  lastDirEntry : Option Bytes
  len : ℕ

/-- rfc2068_get_next_file over the lines that gftp_get_line has still to return; none at their
end. -/
def rfc2068GetNextFile (host : Host) (cached : Bool) :
    List CString → CRun (Option NextFile × List CString)
  | [] => return (none, [])
  | line :: lines => do
      let entry ← parseHtmlLine host (line.bytes ++ [0])
      if entry.ret = false ∨ entry.fle.file = none then rfc2068GetNextFile host cached lines
      else
        let tempstr ← textFrom entry.tempstr 0
        return (some ⟨entry.fle, if cached then none else some (tempstr ++ [10]), tempstr.length⟩, lines)

end Gftp.HtmlLines
