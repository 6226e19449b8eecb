import Gftp.Decimal
import Gftp.Protocol
import Gftp.TextPointers

/-!
gftp_parse_ls: one line of a LIST output as a directory entry. The time functions of the
C library and the translated texts are given by the host. A VMS entry whose first line
has no blank continues on a second line, which the parser reads itself.
-/

namespace Gftp.ListingParsers

open ByteStrings TextPointers Decimal Protocol

/-- struct tm. -/
structure Tm where
  sec : ℤ
  min : ℤ
  hour : ℤ
  mday : ℤ
  mon : ℤ
  year : ℤ
  wday : ℤ
  yday : ℤ
  isdst : ℤ

def Tm.zero : Tm := ⟨0, 0, 0, 0, 0, 0, 0, 0, 0⟩

/-- strptime gives the fields it has set and the number of bytes it has read, none when
the text does not match. unknown is the translation of that word. -/
structure Host where
  strptime : Bytes → Bytes → Tm → Tm × Option ℕ
  mktime : Tm → ℤ
  localtime : ℤ → Tm
  time : ℤ
  unknown : Bytes

abbrev Parse (α : Type) := ExceptT GftpError CRun α

/-- A step that reads from the block goes on with what it has read. -/
@[simp] theorem Parse.read_bind {α β : Type} (a : α) (f : α → Parse β) :
    (liftM (Except.ok a : CRun α) : Parse α) >>= f = f a := rfl

def sIfdir : ℕ := 0o040000
def sIflnk : ℕ := 0o120000
def sIfsock : ℕ := 0o140000
def sIfblk : ℕ := 0o060000
def sIfchr : ℕ := 0o020000
def sIfreg : ℕ := 0o100000
def sIfmt : ℕ := 0o170000

def isBlank (b : UInt8) : Bool := b = 32 ∨ b = 9

def isAlpha (b : UInt8) : Bool := 65 ≤ b ∧ b ≤ 90 ∨ 97 ≤ b ∧ b ≤ 122

/-- The token at source and the token after it. A token at the end of the string is
refused. -/
def copyToken (source : Bytes) : Parse (Bytes × Bytes) := do
  let endpos ← skipWhile (fun b => !isBlank b && b ≠ 0) source
  if (← deref endpos) = 0 then throw .fatal
  return (source.take (source.length - endpos.length), ← skipWhile isBlank (endpos.drop 1))

def gotoNextToken (pos : Bytes) : CRun Bytes := do
  skipWhile isBlank (← skipWhile (fun b => !isBlank b && b ≠ 0) pos)

/-- Product and conversion of off_t values. -/
def offT (n : ℤ) : ℤ := (Int64.ofInt n).toInt

def gftpParseFileSize (p : Bytes) : CRun ℤ := do
  return strtol (← textAt p)

def parseVmsTime (host : Host) (str : Bytes) : CRun (ℤ × Bytes) := do
  let s ← textAt str
  let (curtime, first) := host.strptime (ascii "%d-%b-%Y %H:%M:%S") s Tm.zero
  let (curtime, endpos) :=
    match first with
    | some n => (curtime, some n)
    | none => host.strptime (ascii "%d-%b-%Y %H:%M") s curtime
  match endpos with
  | some n => return (host.mktime curtime, ← skipWhile isBlank (str.drop n))
  | none => return (0, ← gotoNextToken (← gotoNextToken str))

/-- Skips a field unless the string is at its end. -/
def skipField (p : Bytes) : CRun Bytes := do
  if (← deref p) = 0 then return p else gotoNextToken p

def parseTime (host : Host) (str : Bytes) : CRun (ℤ × Bytes) := do
  let s ← textAt str
  let char (i : ℕ) : UInt8 := s.getD i 0
  let curtime := { Tm.zero with isdst := -1 }
  let long := 4 < s.length
  let (curtime, tmppos) :=
    if long ∧ isDigit (char 0) ∧ char 2 = 45 ∧ isDigit (char 3) then
      host.strptime (ascii "%m-%d-%y %I:%M%p") s curtime
    else if long ∧ isDigit (char 0) ∧ char 2 = 45 ∧ isAlpha (char 3) then
      host.strptime (ascii "%d-%h-%Y %H:%M") s curtime
    else if long ∧ isDigit (char 0) ∧ char 4 = 47 then
      host.strptime (ascii "%Y/%m/%d") s curtime
    else if 58 ∈ s then
      let (curtime, tmppos) := host.strptime (ascii "%h %d %H:%M") s curtime
      let loctime := host.localtime host.time
      let year := if loctime.mon < curtime.mon then loctime.year - 1 else loctime.year
      ({ curtime with year := year }, tmppos)
    else host.strptime (ascii "%h %d %Y") s curtime
  match tmppos with
  | some n => return (host.mktime curtime, str.drop n)
  | none => return (0, ← skipField (← skipField str))

/-- The mode bits of one of the three groups of attributes. -/
def attribBits (attribs : Bytes) (i : ℕ) (r w x special : ℕ) (lower upper : UInt8) : ℕ :=
  let char (i : ℕ) : UInt8 := attribs.getD i 0
  (if char i = 114 then r else 0) ||| (if char (i + 1) = 119 then w else 0) |||
    (if char (i + 2) = 120 ∨ char (i + 2) = 115 then x else 0) |||
    (if char (i + 2) = lower ∨ char (i + 2) = upper then special else 0)

/-- attribs has at least ten bytes. -/
def gftpConvertAttributesToModeT (attribs : Bytes) : CRun ℕ :=
  if attribs.length < 10 then .error .fault
  else
    let type : ℕ :=
      match attribs.head? with
      | some 100 => sIfdir
      | some 108 => sIflnk
      | some 115 => sIfsock
      | some 98 => sIfblk
      | some 99 => sIfchr
      | _ => sIfreg
    .ok (type ||| attribBits attribs 1 0o400 0o200 0o100 0o4000 115 83 |||
      attribBits attribs 4 0o040 0o020 0o010 0o2000 115 83 |||
      attribBits attribs 7 0o004 0o002 0o001 0o1000 116 84)

/-- The modes of entries that come without attributes. -/
def dirMode : ℕ := sIfdir ||| 0o755

def fileMode : ℕ := 0o644

/-- The classes of the string after the last comma are read from an address that is not a
pointer. -/
def gftpParseVmsAttribs (src : Option Bytes) (mask : ℕ) : CRun (ℕ × Option Bytes) := do
  match src with
  | none => .error .fault
  | some src =>
      let s ← textAt src
      let endpos ← findByte 44 src
      let shown := s.takeWhile (· ≠ 44)
      let ret := (if 82 ∈ shown then 0o444 else 0) ||| (if 87 ∈ shown then 0o222 else 0) |||
        (if 69 ∈ shown then 0o111 else 0)
      return (ret &&& mask, endpos.map (·.drop 1))

/-- The part of gftp_parse_ls_vms behind the name. -/
def vmsFields (host : Host) (fle : GftpFile) (curpos : Bytes) : Parse GftpFile := do
  let size ← gftpParseFileSize curpos
  let curpos ← gotoNextToken curpos
  let (datetime, curpos) ← parseVmsTime host curpos
  let fle := { fle with size := offT (size * 512), datetime := datetime }
  if (← deref curpos) ≠ 91 then throw .fatal
  match ← findByte 93 curpos with
  | none => throw .fatal
  | some endpos =>
      let curpos ← gotoNextToken (endpos.drop 1)
      match ← findByte 44 curpos with
      | none => return fle
      | some curpos =>
          let (user, src) ← gftpParseVmsAttribs (some (curpos.drop 1)) 0o700
          let (group, src) ← gftpParseVmsAttribs src 0o070
          let (other, _) ← gftpParseVmsAttribs src 0o007
          return { fle with
            stMode := user ||| group ||| other
            user := some []
            group := some [] }

section Vms

variable {γ : Type}

/-- The function that reads the next line of a listing, which not every protocol has. -/
abbrev NextLine (γ : Type) := γ → CRun ((Except GftpError ℕ × Bytes) × γ)

/-- Whether a line is the first of a VMS entry that has two. -/
def vmsMultiline (str : Bytes) : CRun Bool := return (← findByte 32 str).isNone

/-- The entry named by the bytes before the semicolon. -/
def vmsName (name : Bytes) : GftpFile :=
  if 4 < name.length ∧ name.drop (name.length - 4) = ascii ".DIR" then
    { GftpFile.cleared with file := some (name.take (name.length - 4)), stMode := sIfdir }
  else { GftpFile.cleared with file := some name }

/-- The formats and entries that have one line. -/
def oneLine (reader : γ) (parse : Parse GftpFile) : CRun (Except GftpError GftpFile × γ) := do
  return (← parse.run, reader)

/-- An entry whose fields are on the next line. When there is none it ends there. -/
def vmsSecondLine (host : Host) (fle : GftpFile) (nextLine : Option (NextLine γ)) (reader : γ) :
    CRun (Except GftpError GftpFile × γ) := do
  match nextLine with
  | none => return (.error .fatal, reader)
  | some next =>
      let ((len, tempstr), reader) ← next reader
      match len with
      | .error e => return (.error e, reader)
      | .ok 0 => return (.ok fle, reader)
      | .ok (_ + 1) =>
          oneLine reader do
            let curpos ← skipWhile isBlank (tempstr ++ [0])
            vmsFields host fle curpos

def gftpParseLsVms (host : Host) (nextLine : Option (NextLine γ)) (reader : γ) (str : Bytes) :
    CRun (Except GftpError GftpFile × γ) := do
  match ← findByte 59 str with
  | none => oneLine reader (throw .fatal)
  | some curpos =>
      let fle := vmsName (str.take (str.length - curpos.length))
      if ← vmsMultiline str then vmsSecondLine host fle nextLine reader
      else
        oneLine reader do
          let curpos ← gotoNextToken (curpos.drop 1)
          vmsFields host fle curpos

end Vms

def gftpParseLsMvs (host : Host) (str : Bytes) : Parse GftpFile := do
  let curpos ← gotoNextToken (str.drop 1)
  let curpos ← gotoNextToken (curpos.drop 1)
  let (datetime, curpos) ← parseTime host curpos
  let curpos ← gotoNextToken curpos
  let curpos ← gotoNextToken (curpos.drop 1)
  let size ← gftpParseFileSize curpos
  let curpos ← gotoNextToken (curpos.drop 1)
  let curpos ← gotoNextToken (curpos.drop 1)
  let curpos ← gotoNextToken (curpos.drop 1)
  let curpos ← gotoNextToken (curpos.drop 1)
  let dsorg ← textAt curpos
  let stMode ←
    if (ascii "PS").isPrefixOf dsorg then pure fileMode
    else if (ascii "PO").isPrefixOf dsorg then pure dirMode
    else throw .fatal
  let curpos ← gotoNextToken (curpos.drop 1)
  return {
    file := some (← textAt curpos)
    user := some host.unknown
    group := some host.unknown
    size := offT (size * 55996)
    datetime := datetime
    stMode := stMode }

/-- The facts of an EPLF line, each after the plus sign or a comma. -/
def eplfFacts : ℕ → Bytes → Bool × ℤ × ℤ → CRun (Bool × ℤ × ℤ)
  | 0, _, _ => .error .pending
  | fuel + 1, startpos, (isdir, size, datetime) => do
      let startpos := startpos.drop 1
      let fact ← deref startpos
      let facts ←
        if fact = 47 then pure (true, size, datetime)
        else if fact = 115 then pure (isdir, ← gftpParseFileSize (startpos.drop 1), datetime)
        else if fact = 109 then pure (isdir, size, strtol (← textAt (startpos.drop 1)))
        else pure (isdir, size, datetime)
      match ← findByte 44 startpos with
      | none => return facts
      | some startpos => eplfFacts fuel startpos facts

def gftpParseLsEplf (host : Host) (str : Bytes) : Parse GftpFile := do
  let (isdir, size, datetime) ← eplfFacts (str.length + 1) str (false, 0, 0)
  match ← findByte 9 str with
  | none => throw .fatal
  | some startpos =>
      return {
        file := some (← textAt (startpos.drop 1))
        user := some host.unknown
        group := some host.unknown
        size := size
        datetime := datetime
        stMode := if isdir then dirMode else fileMode }

/-- The number of columns up to a time of day. -/
def countColumns : ℕ → Bytes → CRun ℕ
  | 0, _ => .error .pending
  | fuel + 1, pos => do
      if (← deref pos) = 0 then return 0
      let pos ← skipWhile (fun b => b ≠ 0 && !isBlank b && b ≠ 58) pos
      if (← deref pos) = 58 then return 2
      return (← countColumns fuel (← skipWhile isBlank pos)) + 1

/-- The size of a device is its major number above its minor number. -/
def deviceSize (major minor : ℤ) : ℤ :=
  ((UInt64.ofInt major <<< 16) ||| (UInt64.ofInt minor &&& 0xFF)).toInt64.toInt

/-- The size field and the position behind it. -/
def unixSize (stMode : ℕ) (startpos : Bytes) : Parse (ℤ × Bytes) := do
  let special := stMode &&& sIfmt = sIfblk ∨ stMode &&& sIfmt = sIfchr
  match ← (if special then findByte 44 startpos else pure none) with
  | some endpos =>
      let major ← gftpParseFileSize startpos
      let startpos ← skipWhile (· = 32) (endpos.drop 1)
      match ← findByte 32 startpos with
      | none => throw .fatal
      | some endpos => return (deviceSize major (← gftpParseFileSize startpos), endpos)
  | none =>
      match ← findByte 32 startpos with
      | none => throw .fatal
      | some endpos => return (← gftpParseFileSize startpos, endpos)

/-- The name of a link ends before its arrow. An arrow at the start of the name is kept,
and the byte before it is overwritten. -/
def unixName (stMode : ℕ) (startpos : Bytes) : CRun Bytes := do
  let name ← textAt startpos
  if stMode &&& sIfmt = sIflnk then
    match ← findText (ascii "->") startpos with
    | none => return name
    | some endpos =>
        let off := startpos.length - endpos.length
        return if off = 0 then name else name.take (off - 1)
  else return name

def gftpParseLsUnix (host : Host) (cray : Bool) (str : Bytes) (slen : ℕ) : Parse GftpFile := do
  let str ← if 10 < slen then overwrite str 10 [32] else pure str
  let cols ← countColumns (str.length + 1) str
  let (attribs, startpos) ← copyToken str
  if attribs.length < 10 then throw .fatal
  let stMode ← gftpConvertAttributesToModeT attribs
  let (user, group, startpos) ←
    if 9 ≤ cols then do
      let startpos ← gotoNextToken startpos
      let (user, startpos) ← copyToken startpos
      let (group, startpos) ← copyToken startpos
      pure (user, group, startpos)
    else do
      let (user, startpos) ←
        if cols = 8 then copyToken startpos else pure (host.unknown, startpos)
      pure (user, host.unknown, ← gotoNextToken startpos)
  let startpos ←
    if cray ∧ cols = 11 then do
      match ← findText (ascii "->") str with
      | none => gotoNextToken (← gotoNextToken startpos)
      | some _ => pure startpos
    else pure startpos
  let (size, endpos) ← unixSize stMode startpos
  let startpos ← skipWhile (· = 32) (endpos.drop 1)
  let (datetime, startpos) ← parseTime host startpos
  let startpos ← gotoNextToken startpos
  return {
    file := some (← unixName stMode startpos)
    user := some user
    group := some group
    size := size
    datetime := datetime
    stMode := stMode }

def gftpParseLsNt (host : Host) (str : Bytes) : Parse GftpFile := do
  let (datetime, startpos) ← parseTime host str
  let startpos ← gotoNextToken startpos
  let isdir := (← deref startpos) = 60
  let size ← if isdir then pure 0 else gftpParseFileSize startpos
  let startpos ← gotoNextToken startpos
  return {
    file := some (← textAt startpos)
    user := some host.unknown
    group := some host.unknown
    size := size
    datetime := datetime
    stMode := if isdir then dirMode else fileMode }

def gftpParseLsNovell (host : Host) (str : Bytes) : Parse GftpFile := do
  if (← deref (str.drop 12)) ≠ 32 then throw .fatal
  let stMode ← gftpConvertAttributesToModeT (str.take 12)
  let startpos ← skipWhile isBlank (str.drop 13)
  let (user, startpos) ← copyToken startpos
  let startpos ← skipWhile (fun b => b ≠ 0 && !isDigit b) startpos
  let size ← gftpParseFileSize startpos
  let startpos ← gotoNextToken startpos
  let (datetime, startpos) ← parseTime host startpos
  let startpos ← gotoNextToken startpos
  return {
    file := some (← textAt startpos)
    user := some user
    group := some host.unknown
    size := size
    datetime := datetime
    stMode := stMode }

def gftpDirtypeUnix : Int32 := 1
def gftpDirtypeEplf : Int32 := 2
def gftpDirtypeCray : Int32 := 3
def gftpDirtypeNovell : Int32 := 4
def gftpDirtypeDos : Int32 := 5
def gftpDirtypeVms : Int32 := 6
def gftpDirtypeOther : Int32 := 7
def gftpDirtypeMvs : Int32 := 8

/-- A newline and then a carriage return at the end of the copy become terminators. The
length that is left, and the block. -/
def stripLineEnd (lsoutput : Bytes) : ℕ × Bytes :=
  let len := lsoutput.length
  let len₁ := if 0 < len ∧ lsoutput[len - 1]? = some 10 then len - 1 else len
  let len₂ := if 0 < len₁ ∧ lsoutput[len₁ - 1]? = some 13 then len₁ - 1 else len₁
  (len₂, lsoutput.take len₂ ++ List.replicate (len + 1 - len₂) 0)

def looksNt (str : Bytes) : CRun Bool := do
  if isDigit (← deref str) then return (← deref (str.drop 2)) = 45 else return false

def looksNovell (str : Bytes) : CRun Bool := do
  if (← deref (str.drop 1)) = 32 then return (← deref (str.drop 2)) = 91 else return false

/-- Whether the first token of a line has a semicolon and is not its last. -/
def looksVms (str : Bytes) : CRun Bool := do
  match ← findByte 32 str with
  | none => return false
  | some _ => return 59 ∈ (← textAt str).takeWhile (· ≠ 32)

/-- The format recognized from the line. -/
def autodetect {γ : Type} (host : Host) (nextLine : Option (NextLine γ)) (reader : γ)
    (lsoutput str : Bytes) (len : ℕ) : CRun (Except GftpError GftpFile × γ) := do
  if lsoutput.head? = some 43 then oneLine reader (gftpParseLsEplf host str)
  else if ← looksNt str then oneLine reader (gftpParseLsNt host str)
  else if ← looksNovell str then oneLine reader (gftpParseLsNovell host str)
  else if ← looksVms str then gftpParseLsVms host nextLine reader str
  else oneLine reader (gftpParseLsUnix host false str len)

def gftpParseLs {γ : Type} (host : Host) (serverType : Int32) (nextLine : Option (NextLine γ))
    (reader : γ) (lsoutput : Bytes) : CRun (Except GftpError GftpFile × γ) :=
  let (len, str) := stripLineEnd lsoutput
  if serverType = gftpDirtypeCray ∨ serverType = gftpDirtypeUnix then
    oneLine reader (gftpParseLsUnix host (serverType = gftpDirtypeCray) str len)
  else if serverType = gftpDirtypeEplf then oneLine reader (gftpParseLsEplf host str)
  else if serverType = gftpDirtypeNovell then oneLine reader (gftpParseLsNovell host str)
  else if serverType = gftpDirtypeDos then oneLine reader (gftpParseLsNt host str)
  else if serverType = gftpDirtypeVms then gftpParseLsVms host nextLine reader str
  else if serverType = gftpDirtypeMvs then oneLine reader (gftpParseLsMvs host str)
  else autodetect host nextLine reader lsoutput str len

end Gftp.ListingParsers
