import Gftp.ByteStrings
import Mathlib.Data.Nat.Digits.Defs

/-!
Decimal numbers in text: what printf writes for an integer and what strtol reads
back. The number is read back when it fits a long and no digit follows it.
-/

namespace Gftp.Decimal

open ByteStrings

def isDigit (b : UInt8) : Bool := 48 ≤ b ∧ b ≤ 57

def isSpace (b : UInt8) : Bool := b = 32 ∨ 9 ≤ b ∧ b ≤ 13

def digitByte (d : ℕ) : UInt8 := UInt8.ofNat (48 + d)

/-- The digits of a number, most significant first. -/
def natDigits (n : ℕ) : Bytes :=
  if n = 0 then [48] else ((Nat.digits 10 n).map digitByte).reverse

/-- An integer as printf writes it. -/
def decimal (n : ℤ) : Bytes := if n < 0 then 45 :: natDigits n.natAbs else natDigits n.natAbs

def digitsValue (l : Bytes) : ℕ := l.foldl (fun v b => 10 * v + (b.toNat - 48)) 0

def clampLong (n : ℤ) : ℤ := max (-2 ^ 63) (min (2 ^ 63 - 1) n)

/-- The sign and the digits that strtol finds after white space. -/
def strtol (l : Bytes) : ℤ :=
  match l.dropWhile isSpace with
  | 45 :: rest => clampLong (-(digitsValue (rest.takeWhile isDigit) : ℤ))
  | 43 :: rest => clampLong (digitsValue (rest.takeWhile isDigit))
  | rest => clampLong (digitsValue (rest.takeWhile isDigit))

theorem digitByte_toNat {d : ℕ} (h : d < 10) : (digitByte d).toNat = 48 + d := by
  simp only [digitByte, UInt8.toNat_ofNat']
  omega

theorem isDigit_digitByte {d : ℕ} (h : d < 10) : isDigit (digitByte d) = true := by
  have hval := digitByte_toNat h
  simp only [isDigit, UInt8.le_iff_toNat_le, hval, decide_eq_true_eq]
  exact ⟨Nat.le_add_right 48 d, show 48 + d ≤ 57 by omega⟩

theorem natDigits_all (n : ℕ) : ∀ b ∈ natDigits n, isDigit b = true := by
  unfold natDigits
  split
  · simp [isDigit]
  · intro b hb
    obtain ⟨d, hd, rfl⟩ := List.mem_map.mp (List.mem_reverse.mp hb)
    exact isDigit_digitByte (Nat.digits_lt_base (by decide) hd)

theorem natDigits_ne_nil (n : ℕ) : natDigits n ≠ [] := by
  unfold natDigits
  split
  · simp
  · rename_i h
    simp [Nat.digits_ne_nil_iff_ne_zero.mpr h]

theorem digitsValue_natDigits (n : ℕ) : digitsValue (natDigits n) = n := by
  unfold natDigits
  split
  · rename_i h
    simp [h, digitsValue]
  · have hfold : ∀ l : List ℕ, (∀ d ∈ l, d < 10) →
        digitsValue ((l.map digitByte).reverse) = Nat.ofDigits 10 l := by
      intro l hl
      induction l with
      | nil => rfl
      | cons d l ih =>
        have hd := digitByte_toNat (hl d (List.mem_cons_self ..))
        have hrest := ih fun x hx => hl x (List.mem_cons_of_mem _ hx)
        unfold digitsValue at hrest ⊢
        rw [List.map_cons, List.reverse_cons, List.foldl_append, hrest, List.foldl_cons,
          List.foldl_nil, hd, Nat.ofDigits_cons]
        omega
    rw [hfold _ fun d hd => Nat.digits_lt_base (by decide) hd, Nat.ofDigits_digits]

theorem takeWhile_natDigits (n : ℕ) {rest : Bytes} (h : ∀ b, rest.head? = some b → isDigit b = false) :
    (natDigits n ++ rest).takeWhile isDigit = natDigits n := by
  rw [List.takeWhile_append_of_pos (natDigits_all n)]
  cases rest with
  | nil => simp
  | cons b rest => simp [h b rfl]

theorem clampLong_eq {n : ℤ} (hlow : -2 ^ 63 ≤ n) (hhigh : n < 2 ^ 63) : clampLong n = n := by
  unfold clampLong
  omega

/-- strtol reads the digits up to another byte. -/
theorem strtol_digits {l rest : Bytes} (hne : l ≠ []) (hdigits : ∀ b ∈ l, isDigit b = true)
    (h : ∀ b, rest.head? = some b → isDigit b = false) :
    strtol (l ++ rest) = clampLong (digitsValue l) := by
  have htake : (l ++ rest).takeWhile isDigit = l := by
    rw [List.takeWhile_append_of_pos hdigits]
    cases rest with
    | nil => simp
    | cons b rest => simp [h b rfl]
  obtain ⟨d, ds, rfl⟩ := List.exists_cons_of_ne_nil hne
  have hd : 48 ≤ d.toNat ∧ d.toNat ≤ 57 := by
    have hmem : 48 ≤ d ∧ d ≤ 57 := of_decide_eq_true (hdigits d (List.mem_cons_self ..))
    exact ⟨UInt8.le_iff_toNat_le.mp hmem.1, UInt8.le_iff_toNat_le.mp hmem.2⟩
  have hspace : isSpace d = false := by
    simp only [isSpace, decide_eq_false_iff_not, UInt8.le_iff_toNat_le, ← UInt8.toNat_inj]
    intro h
    have h9 : (9 : UInt8).toNat = 9 := rfl
    have h13 : (13 : UInt8).toNat = 13 := rfl
    have h32 : (32 : UInt8).toNat = 32 := rfl
    omega
  have hdrop : (d :: ds ++ rest).dropWhile isSpace = d :: ds ++ rest := by
    rw [List.cons_append, List.dropWhile_cons_of_neg (by simp [hspace])]
  unfold strtol
  rw [hdrop]
  split
  · rename_i tail heq
    rw [List.cons_append] at heq
    have h45 : d = 45 := (List.cons.inj heq).1
    simp [h45] at hd
  · rename_i tail heq
    rw [List.cons_append] at heq
    have h43 : d = 43 := (List.cons.inj heq).1
    simp [h43] at hd
  · rw [htake]

/-- A number that fits a long is read back from its text. -/
theorem strtol_decimal {n : ℤ} (hlow : -2 ^ 63 ≤ n) (hhigh : n < 2 ^ 63) {rest : Bytes}
    (h : ∀ b, rest.head? = some b → isDigit b = false) : strtol (decimal n ++ rest) = n := by
  have hvalue := digitsValue_natDigits n.natAbs
  by_cases hneg : n < 0
  · have hform : decimal n = 45 :: natDigits n.natAbs := by rw [decimal, if_pos hneg]
    rw [hform]
    show clampLong (-(digitsValue ((natDigits n.natAbs ++ rest).takeWhile isDigit) : ℤ)) = n
    rw [takeWhile_natDigits n.natAbs h, hvalue, clampLong_eq (by omega) (by omega)]
    omega
  · have hform : decimal n = natDigits n.natAbs := by rw [decimal, if_neg hneg]
    rw [hform, strtol_digits (natDigits_ne_nil _) (natDigits_all _) h, hvalue,
      clampLong_eq (by omega) (by omega)]
    omega

/-- The text of a number consists of digits and a minus sign. -/
theorem takeWhile_before {f : UInt8 → Bool} {b : UInt8} (hb : f b = false) (v rest : Bytes) :
    (v ++ b :: rest).takeWhile f = v.takeWhile f := by
  rw [List.takeWhile_append]
  split_ifs with h
  · rw [List.takeWhile_cons_of_neg (by simp [hb]), List.append_nil]
    exact (List.takeWhile_prefix f).eq_of_length h |>.symm
  · rfl

/-- A byte that cannot belong to a number ends it. -/
theorem strtol_append {v : Bytes} {b : UInt8} (hdigit : isDigit b = false)
    (hplus : b ≠ 43) (hminus : b ≠ 45) (hspace : isSpace b = true → ∃ c ∈ v, isSpace c = false)
    (rest : Bytes) : strtol (v ++ b :: rest) = strtol v := by
  have hdrop : (v ++ b :: rest).dropWhile isSpace = v.dropWhile isSpace ++ b :: rest ∨
      v.dropWhile isSpace = [] ∧ isSpace b = true := by
    rw [List.dropWhile_append]
    split_ifs with h
    · rw [List.isEmpty_iff.mp h]
      cases hb : isSpace b with
      | true => exact Or.inr ⟨rfl, rfl⟩
      | false => exact Or.inl (List.dropWhile_cons_of_neg (by simp [hb]))
    · exact Or.inl rfl
  rcases hdrop with hdrop | ⟨hall, hb⟩
  · unfold strtol
    rw [hdrop]
    cases v.dropWhile isSpace with
    | nil => simp [hplus, hminus, hdigit, digitsValue]
    | cons c w =>
      rw [List.cons_append, ← List.cons_append]
      by_cases hm : c = 45
      · subst hm
        simp only [List.cons_append, takeWhile_before hdigit]
      · by_cases hp : c = 43
        · subst hp
          simp only [List.cons_append, takeWhile_before hdigit]
        · rw [List.cons_append]
          have htake := takeWhile_before hdigit (c :: w) rest
          rw [List.cons_append] at htake
          simp [hm, hp, htake]
  · obtain ⟨c, hc, hno⟩ := hspace hb
    rw [List.dropWhile_eq_nil_iff.mp hall c hc] at hno
    cases hno

theorem decimal_all (n : ℤ) : ∀ b ∈ decimal n, b = 45 ∨ isDigit b = true := by
  intro b hb
  unfold decimal at hb
  split at hb
  · rcases List.mem_cons.mp hb with rfl | hb
    · exact Or.inl rfl
    · exact Or.inr (natDigits_all _ b hb)
  · exact Or.inr (natDigits_all _ b hb)

theorem decimal_ne_nil (n : ℤ) : decimal n ≠ [] := by
  unfold decimal
  split
  · simp
  · exact natDigits_ne_nil _

end Gftp.Decimal
