import Gftp.Hexadecimal
import Gftp.OptionTables
import Gftp.PeerCheck

/-!
The values of options and the functions of gftp_option_types that read, write and compare
them. The write functions get the buffer as it was left by the one before; those of texts
leave it as it is when there is nothing to write.
-/

namespace Gftp.OptionValues

open ByteStrings Decimal Hexadecimal OptionTables PeerCheck

structure Color where
  red : UInt16
  green : UInt16
  blue : UInt16
  deriving DecidableEq

/-- What the value pointer of an option stands for: a text, which can be NULL, a number that is
kept in the pointer itself, or a colour. -/
inductive Setting
  | text (t : Option Bytes)
  | word (n : Int64)
  | color (c : Color)
  deriving DecidableEq

/-- strtod, printf with two decimals and the comparison of the C library, on the bits of a float. -/
structure Floats where
  read : Bytes → Int64
  write : Int64 → Bytes
  same : Int64 → Int64 → Bool

/-- What the types of options have in common. -/
inductive Kind
  | text | word | color | none
  deriving DecidableEq

def kindOf : OptionType → Kind
  | .text | .textcombo | .textcomboedt | .hidetext => .text
  | .int | .checkbox | .intcombo | .float => .word
  | .color => .color
  | .notebook => .none

def Setting.kind : Setting → Kind
  | .text _ => .text
  | .word _ => .word
  | .color _ => .color

/-- strtol with base 16. -/
def strtolHex (l : Bytes) : ℤ :=
  match l.dropWhile isSpace with
  | 45 :: rest => clampLong (-(hexValue (hexDigits rest) : ℤ))
  | 43 :: rest => clampLong (hexValue (hexDigits rest))
  | rest => clampLong (hexValue (hexDigits rest))

def hexDigit (d : ℕ) : UInt8 := if d < 10 then UInt8.ofNat (48 + d) else UInt8.ofNat (87 + d)

/-- A number as printf writes it with %x. -/
def hexNat (n : ℕ) : Bytes :=
  if n = 0 then [48] else ((Nat.digits 16 n).map hexDigit).reverse

/-- The text before the first colon that is not behind a backslash, whether a colon was passed
over, and the text behind it; none when there is no such colon. prev is the byte before. -/
def cutColon (prev : UInt8) : Bytes → Option (Bytes × Bool × Bytes)
  | [] => none
  | c :: rest =>
      if c = 58 ∧ prev ≠ 92 then some ([], false, rest)
      else (cutColon c rest).map fun cut => (c :: cut.1, cut.2.1 || decide (c = 58), cut.2.2)

/-- The loop that takes the backslashes out of a field. -/
def unescape : Bytes → Bytes
  | [] => []
  | c :: rest => if c ≠ 92 ∧ rest.head? ≠ some 58 then c :: unescape rest else unescape rest

/-- gftp_config_parse_args. When every colon is behind a backslash the pointer to the end of the
field is NULL. -/
def gftpConfigParseArgs : ℕ → Bytes → CRun (List Bytes)
  | 0, _ => return []
  | 1, str => return [str]
  | n + 2, str =>
      match cutColon 0 str with
      | some (field, hasColon, rest) => do
          let others ← gftpConfigParseArgs (n + 1) rest
          return (if hasColon then unescape field else field) :: others
      | none => if 58 ∈ str then .error .fault else return str :: List.replicate (n + 1) []

def toUshort (n : ℤ) : UInt16 := UInt16.ofNat (n % 2 ^ 16).toNat

def readColor (str : Bytes) : CRun Setting := do
  match ← gftpConfigParseArgs 3 str with
  | [red, green, blue] =>
      return .color ⟨toUshort (strtolHex red), toUshort (strtolHex green), toUshort (strtolHex blue)⟩
  | _ => .error .fault

def writeColor (c : Color) : Bytes :=
  hexNat c.red.toNat ++ 58 :: hexNat c.green.toNat ++ 58 :: hexNat c.blue.toNat

/-- The first entry of the list that is the text but for the case of letters. -/
def findText (clist : List Bytes) (str : Bytes) : Option Bytes := clist.find? fun entry => caseEq entry str

def findIndex (clist : List Bytes) (str : Bytes) : ℕ :=
  (clist.findIdx? fun entry => caseEq entry str).getD 0

/-- The read functions. -/
def readFunction (F : Floats) (cv : OptionVar) (str : Bytes) : CRun Setting :=
  match cv.otype with
  | .text | .textcomboedt | .hidetext => return .text (some str)
  | .textcombo => return .text (findText cv.listdata str)
  | .int => return .word (Int64.ofInt (strtol str))
  | .checkbox => return .word (if strtol str = 0 then 0 else 1)
  | .intcombo => return .word (Int64.ofNat (findIndex cv.listdata str))
  | .float => return .word (F.read str)
  | .color => readColor str
  | .notebook => .error .fault

/-- g_snprintf into the buffer of 256 bytes. -/
def printed (text : Bytes) : Option Bytes := some (text.take 255)

/-- The write functions, for the configuration file; none stands for a buffer that nothing was
written to yet. -/
def writeFunction (F : Floats) (cv : OptionVar) (value : Setting) (buf : Option Bytes) :
    CRun (Option Bytes) :=
  match cv.otype, value with
  | .text, .text (some t) | .textcombo, .text (some t) | .textcomboedt, .text (some t) =>
      return printed t
  | .hidetext, .text (some t) => return if t = [] then buf else printed t
  | .text, .text none | .textcombo, .text none | .textcomboedt, .text none
  | .hidetext, .text none => return buf
  | .int, .word n | .checkbox, .word n => return printed (decimal n.toInt32.toInt)
  | .intcombo, .word n =>
      if cv.listdata = [] then return printed (ascii "<unknown>")
      else if n.toInt32.toInt < 0 then .error .fault
      else
        match cv.listdata[n.toInt32.toInt.toNat]? with
        | some entry => return printed entry
        | none => .error .fault
  | .float, .word n => return printed (F.write n)
  | .color, .color c => return printed (writeColor c)
  | _, _ => .error .fault

/-- The compare functions, true for equal values. Numbers are compared as int. -/
def compareFunction (F : Floats) (otype : OptionType) : Setting → Setting → Bool
  | .word m, .word n => if otype = .float then F.same m n else m.toInt32 = n.toInt32
  | value, value' => value = value'

end Gftp.OptionValues
