import Mathlib.Data.List.Basic
import Mathlib.Data.Nat.Init
import Gftp.ByteStrings

/-!
The base64 encoding of RFC 2045. Three bytes make a group of 24 bits, which four digits
write, six bits each; the last group may have one or two bytes, and its missing digits are
padding. Nothing here refers to a program.
-/

namespace Gftp.Base64

open ByteStrings

def alphabet : Bytes :=
  ascii "ABCDEFGHIJKLMNOPQRSTUVWXYZabcdefghijklmnopqrstuvwxyz0123456789+/"

def pad : UInt8 := 61

def digit (v : ℕ) : UInt8 := alphabet.getD v 0

def digitValue (c : UInt8) : Option ℕ := alphabet.findIdx? (· = c)

/-- The 24 bits of a group. -/
def group (a b c : UInt8) : ℕ := a.toNat * 2 ^ 16 + b.toNat * 2 ^ 8 + c.toNat

/-- The digits of a group, the highest bits first. -/
def digits (n : ℕ) : Bytes :=
  [digit (n / 2 ^ 18), digit (n / 2 ^ 12 % 64), digit (n / 2 ^ 6 % 64), digit (n % 64)]

def encode : Bytes → Bytes
  | [] => []
  | [a] => (digits (group a 0 0)).take 2 ++ [pad, pad]
  | [a, b] => (digits (group a b 0)).take 3 ++ [pad]
  | a :: b :: c :: rest => digits (group a b c) ++ encode rest

/-- The bytes of a group. -/
def octets (n : ℕ) : Bytes :=
  [UInt8.ofNat (n / 2 ^ 16), UInt8.ofNat (n / 2 ^ 8 % 256), UInt8.ofNat (n % 256)]

/-- The group that four digits write. -/
def joined (p q r s : ℕ) : ℕ := p * 2 ^ 18 + q * 2 ^ 12 + r * 2 ^ 6 + s

/-- Padding stands only in the last four digits, for one byte or for two. -/
def decode : Bytes → Option Bytes
  | [] => some []
  | [p, q, 61, 61] => do
      return (octets (joined (← digitValue p) (← digitValue q) 0 0)).take 1
  | [p, q, r, 61] => do
      return (octets (joined (← digitValue p) (← digitValue q) (← digitValue r) 0)).take 2
  | p :: q :: r :: s :: rest => do
      let n := joined (← digitValue p) (← digitValue q) (← digitValue r) (← digitValue s)
      return octets n ++ (← decode rest)
  | _ => none

theorem group_lt (a b c : UInt8) : group a b c < 2 ^ 24 := by
  have ha := a.toNat_lt
  have hb := b.toNat_lt
  have hc := c.toNat_lt
  unfold group
  omega

set_option maxRecDepth 2000 in
theorem digit_value {v : ℕ} (h : v < 64) : digitValue (digit v) = some v := by
  have hall : ∀ v : Fin 64, digitValue (digit v) = some v.val := by decide
  exact hall ⟨v, h⟩

theorem digit_mem {v : ℕ} (h : v < 64) : digit v ∈ alphabet := by
  have hlength : v < alphabet.length := h
  have hget : digit v = alphabet[v] := by
    rw [digit, List.getD_eq_getElem?_getD, List.getElem?_eq_getElem hlength]
    rfl
  rw [hget]
  exact List.getElem_mem hlength

theorem pad_not_mem : pad ∉ alphabet := by decide

theorem digits_mem {n : ℕ} (h : n < 2 ^ 24) : ∀ d ∈ digits n, d ∈ alphabet := by
  have hhigh : n / 2 ^ 18 < 64 := by omega
  intro d hd
  simp only [digits, List.mem_cons, List.not_mem_nil, or_false] at hd
  rcases hd with rfl | rfl | rfl | rfl
  · exact digit_mem hhigh
  · exact digit_mem (Nat.mod_lt _ (by omega))
  · exact digit_mem (Nat.mod_lt _ (by omega))
  · exact digit_mem (Nat.mod_lt _ (by omega))

theorem octets_group (a b c : UInt8) : octets (group a b c) = [a, b, c] := by
  have hb := b.toNat_lt
  have hc := c.toNat_lt
  have hhigh : group a b c / 2 ^ 16 = a.toNat := by unfold group; omega
  have hmiddle : group a b c / 2 ^ 8 % 256 = b.toNat := by unfold group; omega
  have hlow : group a b c % 256 = c.toNat := by unfold group; omega
  rw [octets, hhigh, hmiddle, hlow, UInt8.ofNat_toNat, UInt8.ofNat_toNat, UInt8.ofNat_toNat]

theorem digits_length (n : ℕ) : (digits n).length = 4 := rfl

theorem encode_length (str : Bytes) : (encode str).length = 4 * ((str.length + 2) / 3) := by
  induction str using encode.induct with
  | case1 => rfl
  | case2 a => simp [encode, digits_length]
  | case3 a b => simp [encode, digits_length]
  | case4 a b c rest ih =>
    rw [encode, List.length_append, ih, digits_length]
    simp only [List.length_cons]
    omega

/-- The padding stands at the right end. -/
theorem encode_padding (str : Bytes) :
    ∃ front count, encode str = front ++ List.replicate count pad ∧
      (∀ d ∈ front, d ∈ alphabet) ∧ count < 3 ∧ (str.length + count) % 3 = 0 := by
  induction str using encode.induct with
  | case1 => exact ⟨[], 0, rfl, by simp, by omega, by simp⟩
  | case2 a =>
    refine ⟨_, 2, rfl, fun d hd => ?_, by omega, by simp⟩
    exact digits_mem (group_lt a 0 0) d (List.mem_of_mem_take hd)
  | case3 a b =>
    refine ⟨_, 1, rfl, fun d hd => ?_, by omega, by simp⟩
    exact digits_mem (group_lt a b 0) d (List.mem_of_mem_take hd)
  | case4 a b c rest ih =>
    obtain ⟨front, count, hrest, hfront, hcount, hlength⟩ := ih
    refine ⟨digits (group a b c) ++ front, count, ?_, fun d hd => ?_, hcount, ?_⟩
    · rw [encode, hrest, List.append_assoc]
    · rcases List.mem_append.mp hd with hd | hd
      · exact digits_mem (group_lt a b c) d hd
      · exact hfront d hd
    · simp only [List.length_cons]
      omega

theorem digit_ne_pad {v : ℕ} (h : v < 64) : digit v ≠ 61 := by
  intro heq
  have hmem := digit_mem h
  rw [heq] at hmem
  exact pad_not_mem hmem

theorem joined_digits {n : ℕ} :
    joined (n / 2 ^ 18) (n / 2 ^ 12 % 64) (n / 2 ^ 6 % 64) (n % 64) = n := by
  unfold joined
  omega

theorem decode_digits {n : ℕ} (h : n < 2 ^ 24) (rest : Bytes) :
    decode (digits n ++ rest) = (decode rest).map (octets n ++ ·) := by
  have hhigh : n / 2 ^ 18 < 64 := by omega
  have hlast : digit (n % 64) ≠ 61 := digit_ne_pad (Nat.mod_lt n (by omega))
  have hdecode : decode (digits n ++ rest) = do
      let n := joined (← digitValue (digit (n / 2 ^ 18))) (← digitValue (digit (n / 2 ^ 12 % 64)))
        (← digitValue (digit (n / 2 ^ 6 % 64))) (← digitValue (digit (n % 64)))
      return octets n ++ (← decode rest) := by
    rw [digits]
    apply decode.eq_4
    · exact fun _ hs _ => hlast hs
    · exact fun hs _ => hlast hs
  rw [hdecode, digit_value hhigh, digit_value (Nat.mod_lt _ (by omega)),
    digit_value (Nat.mod_lt _ (by omega)), digit_value (Nat.mod_lt _ (by omega))]
  simp only [Option.bind_eq_bind, Option.bind_some, joined_digits]
  cases decode rest <;> rfl

theorem decode_one (a : UInt8) : decode (encode [a]) = some [a] := by
  have hhigh : group a 0 0 / 2 ^ 18 < 64 := by
    have hlt := group_lt a 0 0
    omega
  have hjoined : joined (group a 0 0 / 2 ^ 18) (group a 0 0 / 2 ^ 12 % 64) 0 0 = group a 0 0 := by
    unfold joined group
    rw [UInt8.toNat_zero]
    omega
  have hdecode : decode (encode [a]) = do
      return (octets (joined (← digitValue (digit (group a 0 0 / 2 ^ 18)))
        (← digitValue (digit (group a 0 0 / 2 ^ 12 % 64))) 0 0)).take 1 := rfl
  rw [hdecode, digit_value hhigh, digit_value (Nat.mod_lt _ (by omega))]
  show some ((octets (joined _ _ 0 0)).take 1) = some [a]
  rw [hjoined, octets_group]
  rfl

theorem decode_two (a b : UInt8) : decode (encode [a, b]) = some [a, b] := by
  have hhigh : group a b 0 / 2 ^ 18 < 64 := by
    have hlt := group_lt a b 0
    omega
  have hjoined : joined (group a b 0 / 2 ^ 18) (group a b 0 / 2 ^ 12 % 64)
      (group a b 0 / 2 ^ 6 % 64) 0 = group a b 0 := by
    unfold joined group
    rw [UInt8.toNat_zero]
    omega
  have hthird : digit (group a b 0 / 2 ^ 6 % 64) ≠ 61 := digit_ne_pad (Nat.mod_lt _ (by omega))
  have hdecode : decode (encode [a, b]) = do
      return (octets (joined (← digitValue (digit (group a b 0 / 2 ^ 18)))
        (← digitValue (digit (group a b 0 / 2 ^ 12 % 64)))
        (← digitValue (digit (group a b 0 / 2 ^ 6 % 64))) 0)).take 2 :=
    decode.eq_3 _ _ _ hthird
  rw [hdecode, digit_value hhigh, digit_value (Nat.mod_lt _ (by omega)),
    digit_value (Nat.mod_lt _ (by omega))]
  show some ((octets (joined _ _ _ 0)).take 2) = some [a, b]
  rw [hjoined, octets_group]
  rfl

theorem decode_encode (str : Bytes) : decode (encode str) = some str := by
  induction str using encode.induct with
  | case1 => rfl
  | case2 a => exact decode_one a
  | case3 a b => exact decode_two a b
  | case4 a b c rest ih =>
    rw [encode, decode_digits (group_lt a b c), ih, octets_group]
    rfl

end Gftp.Base64
