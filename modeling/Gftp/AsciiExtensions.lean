import Gftp.FileExtensions
import Gftp.FtpTransfers

/-!
The choice between ASCII and binary by the extensions of the configuration. The first entry that the
name ends with decides. toupper is called on the result of the comparison, so that only an upper
case letter is recognised.
-/

namespace Gftp.AsciiExtensions

open ByteStrings FileExtensions FtpClient FtpTransfers

/-- The type that rfc959_is_ascii_transfer returns, as an unsigned int. -/
def unsignedInt (asciiTransfers : Int64) : UInt32 := asciiTransfers.toUInt64.toUInt32

def toupper (c : ℕ) : ℕ := if 97 ≤ c ∧ c ≤ 122 then c - 32 else c

/-- *tempext->ascii_binary. -/
def first (tempext : FileExtension) : UInt8 := tempext.asciiBinary.bytes.headD 0

/-- The comparison with the end of the name, by the length that is stored. -/
def Matches (filename : Bytes) (tempext : FileExtension) : Prop :=
  tempext.stlen ≤ filename.length ∧
    filename.drop (filename.length - tempext.stlen) = tempext.ext.bytes

instance (filename : Bytes) : DecidablePred (Matches filename) := fun _ =>
  inferInstanceAs (Decidable (_ ∧ _))

/-- What the entry makes of the option. -/
def typeOf (asciiTransfers : Int64) (tempext : FileExtension) : Int64 :=
  if toupper (first tempext == 65).toNat ≠ 0 then 1
  else if toupper (first tempext == 66).toNat ≠ 0 then 0
  else asciiTransfers

/-- The walk over the list. -/
def scan (filename : Bytes) (asciiTransfers : Int64) : List FileExtension → Int64
  | [] => asciiTransfers
  | tempext :: list =>
      if Matches filename tempext then typeOf asciiTransfers tempext
      else scan filename asciiTransfers list

/-- rfc959_is_ascii_transfer, with the list of the option ext and the option ascii_transfers. -/
def rfc959IsAsciiTransfer (list : List FileExtension) (asciiTransfers : Int64) (filename : CString) :
    UInt32 := unsignedInt (scan filename.bytes asciiTransfers list)

/-- The entry has been read from a line of the configuration. -/
def ReadFromLine (tempext : FileExtension) : Prop :=
  ∃ before buf rest, gftpConfigReadExt before buf = .ok (rest, tempext)

/-- The first entry whose extension the name ends with. -/
def chosen (list : List FileExtension) (filename : CString) : Option FileExtension :=
  list.find? fun tempext => tempext.ext.bytes <:+ filename.bytes

/-- ASCII for the letter A and binary for the letter B, in either case, and otherwise the option. -/
def letterType (asciiTransfers : Int64) (letter : UInt8) : Int64 :=
  if letter = 65 ∨ letter = 97 then 1 else if letter = 66 ∨ letter = 98 then 0 else asciiTransfers

/-- The type by the letter of the entry chosen, or the option. -/
def byLetter (list : List FileExtension) (asciiTransfers : Int64) (filename : CString) : UInt32 :=
  unsignedInt (((chosen list filename).map fun tempext =>
    letterType asciiTransfers (first tempext)).getD asciiTransfers)

/-- The entry chosen has no lower case letter, or the option says the same. -/
def LettersSeen (list : List FileExtension) (asciiTransfers : Int64) (filename : CString) : Prop :=
  ∀ tempext, chosen list filename = some tempext →
    (first tempext = 97 → unsignedInt asciiTransfers = 1) ∧
      (first tempext = 98 → unsignedInt asciiTransfers = 0)

section Scan

variable {list : List FileExtension} {tempext : FileExtension}

/-- The length that is stored is that of the extension. -/
theorem ReadFromLine.stlen (h : ReadFromLine tempext) : tempext.stlen = tempext.ext.bytes.length := by
  obtain ⟨before, buf, rest, hread⟩ := h
  obtain ⟨parsed, -, hfields⟩ := CRun.bind_eq_ok.mp hread
  split at hfields
  · obtain ⟨-, rfl⟩ := Prod.mk.inj (Except.ok.inj hfields)
    rfl
  · cases hfields

theorem matches_iff (h : ReadFromLine tempext) (filename : Bytes) :
    Matches filename tempext ↔ tempext.ext.bytes <:+ filename := by
  rw [Matches, h.stlen, List.suffix_iff_eq_drop]
  constructor
  · exact fun hmatch => hmatch.2.symm
  · intro hdrop
    refine ⟨?_, hdrop.symm⟩
    rw [hdrop]
    exact (List.drop_sublist _ _).length_le

theorem scan_chosen (hread : ∀ tempext ∈ list, ReadFromLine tempext) (asciiTransfers : Int64)
    (filename : CString) : scan filename.bytes asciiTransfers list =
      ((chosen list filename).map (typeOf asciiTransfers)).getD asciiTransfers := by
  induction list with
  | nil => rfl
  | cons tempext list ih =>
    obtain ⟨htempext, hread⟩ := List.forall_mem_cons.mp hread
    have hmatch := matches_iff htempext filename.bytes
    by_cases hsuffix : tempext.ext.bytes <:+ filename.bytes
    · rw [scan, if_pos (hmatch.mpr hsuffix), chosen, List.find?_cons_of_pos (by simpa using hsuffix)]
      rfl
    · have hskip : chosen (tempext :: list) filename = chosen list filename :=
        List.find?_cons_of_neg (by simpa using hsuffix)
      rw [scan, if_neg (mt hmatch.mp hsuffix), ih hread, hskip]

/-- toupper leaves the result of a comparison as it is. -/
theorem typeOf_eq (asciiTransfers : Int64) (tempext : FileExtension) :
    typeOf asciiTransfers tempext =
      if first tempext = 65 then 1 else if first tempext = 66 then 0 else asciiTransfers := by
  have htoupper : ∀ b : Bool, toupper b.toNat ≠ 0 ↔ b = true := by decide
  simp only [typeOf, htoupper, beq_iff_eq]

/-- Both letters agree in upper case; in lower case the option is taken. -/
theorem typeOf_agrees (asciiTransfers : Int64) (tempext : FileExtension) :
    unsignedInt (typeOf asciiTransfers tempext) =
        unsignedInt (letterType asciiTransfers (first tempext)) ↔
      (first tempext = 97 → unsignedInt asciiTransfers = 1) ∧
        (first tempext = 98 → unsignedInt asciiTransfers = 0) := by
  have hone : unsignedInt 1 = 1 := rfl
  have hzero : unsignedInt 0 = 0 := rfl
  rw [typeOf_eq, letterType]
  by_cases ha : first tempext = 97
  · simp [ha, hone]
  by_cases hb : first tempext = 98
  · simp [hb, hzero]
  simp [ha, hb]

/-- The choice of the client, whose options hold the extensions and letters of the list and the box
that is checked for ASCII. -/
theorem isAsciiTransfer_eq {list : List FileExtension}
    (hread : ∀ tempext ∈ list, ReadFromLine tempext) (o : Options) (filename : CString)
    (hexts : o.exts = list.map fun tempext => (tempext.ext.bytes, tempext.asciiBinary.bytes)) :
    rfc959IsAsciiTransfer list (if o.asciiTransfers then 1 else 0) filename =
      UInt32.ofNat (isAsciiTransfer o filename.bytes).toNat := by
  have hfirst : ∀ tempext letter, letter ≠ 0 →
      (first tempext = letter ↔ tempext.asciiBinary.bytes.head? = some letter) := by
    intro tempext letter hletter
    unfold first
    cases tempext.asciiBinary.bytes <;> simp [hletter.symm]
  have hfind : o.exts.find? (fun ext => ext.1 <:+ filename.bytes) =
      (chosen list filename).map fun tempext => (tempext.ext.bytes, tempext.asciiBinary.bytes) := by
    rw [hexts, List.find?_map]
    rfl
  rw [rfc959IsAsciiTransfer, scan_chosen hread, isAsciiTransfer, hfind]
  cases chosen list filename with
  | none => cases o.asciiTransfers <;> rfl
  | some tempext =>
    simp only [Option.map_some, Option.getD_some, typeOf_eq, hfirst tempext 65 (by decide),
      hfirst tempext 66 (by decide)]
    by_cases ha : tempext.asciiBinary.bytes.head? = some 65
    · rw [if_pos ha, if_pos ha]
      rfl
    by_cases hb : tempext.asciiBinary.bytes.head? = some 66
    · rw [if_neg ha, if_neg ha, if_pos hb, if_pos hb]
      rfl
    rw [if_neg ha, if_neg ha, if_neg hb, if_neg hb]
    cases o.asciiTransfers <;> rfl

end Scan

/-- The letters are taken as described unless the entry that decides has a lower case one. -/
theorem is_ascii_iff {list : List FileExtension} (hread : ∀ tempext ∈ list, ReadFromLine tempext)
    (asciiTransfers : Int64) (filename : CString) :
    rfc959IsAsciiTransfer list asciiTransfers filename = byLetter list asciiTransfers filename ↔
      LettersSeen list asciiTransfers filename := by
  rw [rfc959IsAsciiTransfer, scan_chosen hread, byLetter, LettersSeen]
  cases hchosen : chosen list filename with
  | none => exact iff_of_true rfl fun tempext h => by cases h
  | some tempext =>
    have hcases := typeOf_agrees asciiTransfers tempext
    constructor
    · intro heq tempext' h
      obtain rfl := Option.some.inj h
      exact hcases.mp heq
    · exact fun h => hcases.mpr (h tempext rfl)

theorem letter_nul_free : 0 ∉ ascii "a" := by decide

/-- The entry .txt:txt.xpm:a: of a configuration. -/
def lowerCase : FileExtension where
  ext := ⟨ascii ".txt", by decide⟩
  filename := ⟨ascii "txt.xpm", by decide⟩
  asciiBinary := ⟨ascii "a", letter_nul_free⟩
  viewProgram := CString.empty
  stlen := 4

def notes : CString := ⟨ascii "notes.txt", by decide⟩

theorem lowerCase_read : ReadFromLine lowerCase :=
  ⟨some 0, ascii ".txt:txt.xpm:a:" ++ [0], _, rfl⟩

/-- The name ends with the extension, and the transfer is binary. -/
theorem lower_case_ignored : ReadFromLine lowerCase ∧
    rfc959IsAsciiTransfer [lowerCase] 0 notes ≠ byLetter [lowerCase] 0 notes :=
  ⟨lowerCase_read, by decide⟩

/-- With ASCII as the option the transfer is ASCII all the same. -/
theorem lower_case_default : rfc959IsAsciiTransfer [lowerCase] 1 notes = byLetter [lowerCase] 1 notes ↔
    LettersSeen [lowerCase] 1 notes :=
  is_ascii_iff (by simpa using lowerCase_read) 1 notes

/-- The client without a login of its own chooses the same. -/
theorem anonymous_choice : rfc959IsAsciiTransfer [lowerCase] 0 notes =
    UInt32.ofNat (isAsciiTransfer (anonymous [(ascii ".txt", ascii "a")]) notes.bytes).toNat :=
  isAsciiTransfer_eq (by simpa using lowerCase_read) (anonymous _) notes rfl

end Gftp.AsciiExtensions
