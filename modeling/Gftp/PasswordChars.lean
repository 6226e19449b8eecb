import Gftp.Passwords

/-!
The two password functions on characters as C computes with them: a char is signed or not,
is made an int, and the int is cut to a char again. The masks take the bits that the sign
reaches away, so that both kinds of char give the bytes of Passwords.
-/

namespace Gftp.PasswordChars

open ByteStrings Passwords

/-- A char in an expression. -/
def promote (signed : Bool) (c : UInt8) : Int32 :=
  if signed then c.toInt8.toInt32 else c.toUInt32.toInt32

/-- An int that is stored in a char. -/
def store (v : Int32) : UInt8 := v.toInt8.toUInt8

def scrambleChar (signed : Bool) (c : UInt8) : Bytes :=
  [store ((promote signed c >>> 2 &&& 0x3c) ||| 0x41),
    store ((promote signed c <<< 2 &&& 0x3c) ||| 0x41)]

def gftpScrambleChars (signed : Bool) (password : Bytes) : Bytes :=
  if password = emailWord then password else 36 :: password.flatMap (scrambleChar signed)

def descrambleChars (signed : Bool) : Bytes → Option Bytes
  | c :: d :: rest =>
      if promote signed c &&& 0xc3 ≠ 0x41 ∨ promote signed d &&& 0xc3 ≠ 0x41 then none
      else (descrambleChars signed rest).map
        (store (((promote signed c &&& 0x3c) <<< 2) ||| ((promote signed d &&& 0x3c) >>> 2)) :: ·)
  | _ => some []

def gftpDescrambleChars (signed : Bool) : Bytes → Bytes
  | [] => []
  | c :: passwordpos =>
      if c = 36 then
        match descrambleChars signed passwordpos with
        | none => c :: passwordpos
        | some newstr => cstr newstr
      else c :: passwordpos

theorem forall_byte {p : UInt8 → Prop} (h : ∀ i : Fin 256, p (UInt8.ofNat i)) (c : UInt8) :
    p c := by
  have hc := h ⟨c.toNat, c.toNat_lt⟩
  rwa [UInt8.ofNat_toNat] at hc

set_option maxRecDepth 2000 in
theorem scrambleChar_eq (signed : Bool) (c : UInt8) : scrambleChar signed c = scrambleByte c := by
  revert c
  apply forall_byte
  cases signed <;> decide

set_option maxRecDepth 2000 in
theorem promote_marked (signed : Bool) (c : UInt8) :
    promote signed c &&& 0xc3 = 0x41 ↔ IsScrambled c := by
  unfold IsScrambled
  revert c
  apply forall_byte
  cases signed <;> decide

set_option maxRecDepth 2000 in
theorem store_bits (signed : Bool) (c : UInt8) :
    store ((promote signed c &&& 0x3c) <<< 2) = (c &&& 0x3c) <<< 2 ∧
      store ((promote signed c &&& 0x3c) >>> 2) = (c &&& 0x3c) >>> 2 := by
  revert c
  apply forall_byte
  cases signed <;> decide

theorem store_or (a b : Int32) : store (a ||| b) = store a ||| store b := by
  unfold store
  rw [Int32.toInt8_or, Int8.toUInt8_or]

theorem descrambleChars_eq (signed : Bool) (l : Bytes) :
    descrambleChars signed l = descrambleLoop l := by
  induction l using descrambleLoop.induct with
  | case1 c d rest h =>
    rw [descrambleChars, descrambleLoop, if_pos h, if_pos]
    simpa only [ne_eq, promote_marked, IsScrambled] using h
  | case2 c d rest h ih =>
    obtain ⟨hhigh, -⟩ := store_bits signed c
    obtain ⟨-, hlow⟩ := store_bits signed d
    rw [descrambleChars, descrambleLoop, if_neg h, if_neg, ih, store_or, hhigh, hlow]
    simpa only [ne_eq, promote_marked, IsScrambled] using h
  | case3 l h =>
    rw [descrambleLoop.eq_2 l h, descrambleChars.eq_2 signed l h]

/-- A signed char makes no difference. -/
theorem scrambleChars_eq (signed : Bool) (password : Bytes) :
    gftpScrambleChars signed password = gftpScramblePassword password := by
  have hchar : scrambleChar signed = scrambleByte := funext (scrambleChar_eq signed)
  rw [gftpScrambleChars, gftpScramblePassword, hchar]

theorem gftpDescrambleChars_eq (signed : Bool) (s : Bytes) :
    gftpDescrambleChars signed s = gftpDescramblePassword s := by
  cases s with
  | nil => rfl
  | cons c passwordpos =>
    have hsame := descrambleChars_eq signed passwordpos
    cases hloop : descrambleLoop passwordpos with
    | none => simp only [gftpDescrambleChars, gftpDescramblePassword, hsame, hloop]
    | some newstr => simp only [gftpDescrambleChars, gftpDescramblePassword, hsame, hloop]

/-- What was scrambled is found again. -/
theorem password_recovered (signed : Bool) {password : Bytes} (h : 0 ∉ password) :
    gftpDescrambleChars signed (gftpScrambleChars signed password) = password := by
  rw [scrambleChars_eq, gftpDescrambleChars_eq]
  exact descramble_scramble h

/-- A password with bytes of both signs. -/
theorem password_recovered_signed :
    gftpDescrambleChars true (gftpScrambleChars true [0xe9, 0x41, 0xff, 0x24]) =
      [0xe9, 0x41, 0xff, 0x24] :=
  password_recovered true (by decide)

section Unscrambled

/-- Every full pair of bytes is a pair of scrambled letters; a byte behind the last pair may
be any. -/
def Pairs : Bytes → Prop
  | c :: d :: rest => IsScrambled c ∧ IsScrambled d ∧ Pairs rest
  | _ => True

/-- The texts that are descrambled: a dollar sign and pairs of letters. -/
def LooksScrambled (s : Bytes) : Prop := ∃ rest, s = 36 :: rest ∧ Pairs rest

theorem descrambleLoop_pairs (l : Bytes) : descrambleLoop l = none ↔ ¬ Pairs l := by
  induction l using descrambleLoop.induct with
  | case1 c d rest h =>
    rw [descrambleLoop, if_pos h, Pairs]
    unfold IsScrambled
    tauto
  | case2 c d rest h ih =>
    rw [descrambleLoop, if_neg h, Option.map_eq_none_iff, ih, Pairs]
    unfold IsScrambled
    tauto
  | case3 l h => simp [descrambleLoop.eq_2 l h, Pairs.eq_2 l h]

theorem descrambleLoop_length {l newstr : Bytes} (h : descrambleLoop l = some newstr) :
    newstr.length ≤ l.length := by
  induction l using descrambleLoop.induct generalizing newstr with
  | case1 c d rest hmark =>
    rw [descrambleLoop, if_pos hmark] at h
    cases h
  | case2 c d rest hmark ih =>
    rw [descrambleLoop, if_neg hmark, Option.map_eq_some_iff] at h
    obtain ⟨tail, htail, rfl⟩ := h
    have hle := ih htail
    simp only [List.length_cons]
    omega
  | case3 l hshape =>
    rw [descrambleLoop.eq_2 l hshape] at h
    obtain rfl := Option.some.inj h
    exact Nat.zero_le _

/-- The texts that are returned as they are. -/
theorem descramble_same_iff (s : Bytes) : gftpDescramblePassword s = s ↔ ¬ LooksScrambled s := by
  cases s with
  | nil => simp [gftpDescramblePassword, LooksScrambled]
  | cons c passwordpos =>
    by_cases hc : c = 36
    · subst hc
      rw [gftpDescramblePassword, if_pos rfl]
      have hlooks : LooksScrambled (36 :: passwordpos) ↔ Pairs passwordpos := by
        simp [LooksScrambled]
      rw [hlooks, ← descrambleLoop_pairs]
      cases hloop : descrambleLoop passwordpos with
      | none => simp
      | some newstr =>
        have hcut := cstr_length_le newstr
        have hlength := descrambleLoop_length hloop
        have hne : cstr newstr ≠ 36 :: passwordpos := by
          intro heq
          rw [heq, List.length_cons] at hcut
          omega
        simpa using hne
    · rw [gftpDescramblePassword, if_neg hc]
      simp [LooksScrambled, hc]

/-- A text that no password gives is returned as it is, unless it looks like one that some
password gives. -/
theorem unscrambled_kept_iff (signed : Bool) (s : Bytes) :
    ((∀ password, 0 ∉ password → gftpScrambleChars signed password ≠ s) →
        gftpDescrambleChars signed s = s) ↔
      (∃ password, 0 ∉ password ∧ gftpScrambleChars signed password = s) ∨
        ¬ LooksScrambled s := by
  rw [gftpDescrambleChars_eq, descramble_same_iff, imp_iff_not_or, not_forall]
  simp only [Classical.not_imp, not_not]

/-- One letter behind the dollar sign. -/
theorem lone_letter_lost :
    (∀ password, 0 ∉ password → gftpScrambleChars true password ≠ ascii "$A") ∧
      gftpDescrambleChars true (ascii "$A") ≠ ascii "$A" := by
  refine ⟨fun password hnul heq => ?_, by decide⟩
  rw [scrambleChars_eq] at heq
  have hempty : password = [] := by
    rw [← descramble_scramble hnul, heq]
    decide
  rw [hempty] at heq
  exact absurd heq (by decide)

end Unscrambled

end Gftp.PasswordChars
