import Gftp.Decimal

/-!
Hexadecimal numbers in text, as sscanf reads an unsigned long with %lx: white space,
a sign, 0x, then digits of either case up to the first other byte. A value that does
not fit is the largest one, a minus sign negates modulo 2^64.
-/

namespace Gftp.Hexadecimal

open ByteStrings Decimal

def isHexDigit (b : UInt8) : Bool := isDigit b ∨ 65 ≤ b ∧ b ≤ 70 ∨ 97 ≤ b ∧ b ≤ 102

def hexDigitValue (b : UInt8) : ℕ :=
  if isDigit b then b.toNat - 48 else if b ≤ 70 then b.toNat - 55 else b.toNat - 87

def hexValue (l : Bytes) : ℕ := l.foldl (fun v b => 16 * v + hexDigitValue b) 0

/-- The digits after an optional 0x. -/
def hexDigits : Bytes → Bytes
  | 48 :: 120 :: rest => rest.takeWhile isHexDigit
  | 48 :: 88 :: rest => rest.takeWhile isHexDigit
  | l => l.takeWhile isHexDigit

def unsignedLong (negative : Bool) (v : ℕ) : ℕ :=
  if 2 ^ 64 ≤ v then 2 ^ 64 - 1 else if negative then (2 ^ 64 - v) % 2 ^ 64 else v

/-- The number sscanf stores, none when it finds no digit. -/
def scanHex (l : Bytes) : Option ℕ :=
  let (negative, l) := match l.dropWhile isSpace with
    | 45 :: rest => (true, rest)
    | 43 :: rest => (false, rest)
    | rest => (false, rest)
  if hexDigits l = [] then none else some (unsignedLong negative (hexValue (hexDigits l)))

/-- The text after a number does not continue it. -/
def Separates (rest : Bytes) : Prop :=
  ∀ b, rest.head? = some b → isHexDigit b = false ∧ b ≠ 120 ∧ b ≠ 88

theorem isHexDigit_cases {b : UInt8} (h : isHexDigit b = true) :
    isSpace b = false ∧ b ≠ 45 ∧ b ≠ 43 ∧ b ≠ 120 ∧ b ≠ 88 ∧ b ≠ 0 ∧ b ≠ 13 ∧ b ≠ 10 := by
  simp only [isHexDigit, isDigit, isSpace, decide_eq_true_eq, decide_eq_false_iff_not, ne_eq,
    UInt8.le_iff_toNat_le, ← UInt8.toNat_inj, UInt8.reduceToNat] at h ⊢
  omega

theorem takeWhile_hex {digits rest : Bytes} (hall : ∀ b ∈ digits, isHexDigit b = true)
    (hrest : Separates rest) : (digits ++ rest).takeWhile isHexDigit = digits := by
  rw [List.takeWhile_append_of_pos hall]
  cases rest with
  | nil => simp
  | cons b rest =>
    have hb := (hrest b rfl).1
    simp [hb]

/-- No digit after the first makes the text start with 0x. -/
theorem hexDigits_append {digits rest : Bytes} (hne : digits ≠ [])
    (hall : ∀ b ∈ digits, isHexDigit b = true) (hrest : Separates rest) :
    hexDigits (digits ++ rest) = digits := by
  have hsecond : ∀ b tail, digits ++ rest = 48 :: b :: tail → b ≠ 120 ∧ b ≠ 88 := by
    intro b tail heq
    match digits, hne with
    | [d], _ =>
      have htail : rest = b :: tail := (List.cons.inj heq).2
      exact (hrest b (by rw [htail]; rfl)).2
    | d :: e :: digits, _ =>
      simp only [List.cons_append, List.cons.injEq] at heq
      obtain ⟨-, rfl, -⟩ := heq
      have he := isHexDigit_cases (hall e (by simp))
      exact ⟨he.2.2.2.1, he.2.2.2.2.1⟩
  unfold hexDigits
  split
  · rename_i tail heq
    exact absurd rfl (hsecond 120 tail heq).1
  · rename_i tail heq
    exact absurd rfl (hsecond 88 tail heq).2
  · exact takeWhile_hex hall hrest

/-- Digits that fit an unsigned long are read back as their value. -/
theorem scanHex_digits {digits rest : Bytes} (hne : digits ≠ [])
    (hall : ∀ b ∈ digits, isHexDigit b = true) (hrest : Separates rest)
    (hfits : hexValue digits < 2 ^ 64) : scanHex (digits ++ rest) = some (hexValue digits) := by
  have hdigits := hexDigits_append hne hall hrest
  obtain ⟨d, ds, rfl⟩ := List.exists_cons_of_ne_nil hne
  obtain ⟨hspace, hminus, hplus, -⟩ := isHexDigit_cases (hall d (List.mem_cons_self ..))
  have hskip : (d :: ds ++ rest).dropWhile isSpace = d :: ds ++ rest := by
    simp [hspace]
  unfold scanHex
  rw [hskip]
  split
  · rename_i heq
    split at heq
    · rename_i tail hcons
      exact absurd (List.cons.inj hcons).1 hminus
    · rename_i tail hcons
      exact absurd (List.cons.inj hcons).1 hplus
    · obtain ⟨rfl, rfl⟩ := Prod.mk.inj heq
      rw [hdigits, if_neg hne, unsignedLong, if_neg (by omega)]
      rfl

end Gftp.Hexadecimal
