import Gftp.ByteStrings
import Mathlib.Algebra.GroupWithZero.Nat

/-!
Checksums of one byte. The bytes of a block are added up and what does not fit one byte is added
once more. A byte that is altered alters the checksum, unless one of the two is 0 and the other
255. Nothing here refers to a program.
-/

namespace Gftp.FoldedSums

open ByteStrings

def weigh (block : Bytes) : ℕ := (block.map UInt8.toNat).sum

/-- The low byte of a sum with the bytes above it added in. -/
def fold (sum : ℕ) : UInt8 := UInt8.ofNat (sum + sum / 2 ^ 8)

@[simp] theorem weigh_cons (b : UInt8) (block : Bytes) :
    weigh (b :: block) = b.toNat + weigh block := rfl

theorem weigh_set {block : Bytes} {i : ℕ} (hi : i < block.length) (b : UInt8) :
    weigh (block.set i b) + block[i].toNat = weigh block + b.toNat := by
  induction block generalizing i with
  | nil => exact absurd hi (Nat.not_lt_zero i)
  | cons c block ih =>
    cases i with
    | zero =>
      simp only [List.set_cons_zero, List.getElem_cons_zero, weigh_cons]
      omega
    | succ i =>
      have hblock := ih (Nat.lt_of_succ_lt_succ hi)
      simp only [List.set_cons_succ, List.getElem_cons_succ, weigh_cons]
      omega

theorem fold_eq_iff (m n : ℕ) :
    fold m = fold n ↔ (m + m / 2 ^ 8) % 2 ^ 8 = (n + n / 2 ^ 8) % 2 ^ 8 := by
  rw [← UInt8.toNat_inj, fold, fold, UInt8.toNat_ofNat', UInt8.toNat_ofNat']

/-- Sums that differ by less than 255 fold to different bytes. -/
theorem fold_add_ne {d : ℕ} (hd : 0 < d) (hlt : d < 255) (n : ℕ) : fold (n + d) ≠ fold n := by
  rw [Ne, fold_eq_iff]
  omega

theorem fold_ne {m n : ℕ} (hne : m ≠ n) (hm : m < n + 255) (hn : n < m + 255) :
    fold m ≠ fold n := by
  rcases Nat.lt_or_gt_of_ne hne with hlt | hlt
  · obtain ⟨d, rfl⟩ := Nat.exists_eq_add_of_lt hlt
    exact (fold_add_ne (Nat.succ_pos d) (by omega) m).symm
  · obtain ⟨d, rfl⟩ := Nat.exists_eq_add_of_lt hlt
    exact fold_add_ne (Nat.succ_pos d) (by omega) n

/-- One of the two bytes is 0 and the other 255. -/
def Opposite (a b : UInt8) : Prop := a.toNat + 255 = b.toNat ∨ b.toNat + 255 = a.toNat

instance (a b : UInt8) : Decidable (Opposite a b) := inferInstanceAs (Decidable (_ ∨ _))

/-- A byte that is altered to one that is not its opposite changes the folded sum, whatever else
is left out of it. -/
theorem fold_set_ne {block : Bytes} {i : ℕ} {b : UInt8} (hi : i < block.length) (hne : b ≠ block[i])
    (hopposite : ¬ Opposite b block[i]) {rest : ℕ} (hblock : rest ≤ weigh block)
    (hset : rest ≤ weigh (block.set i b)) :
    fold (weigh (block.set i b) - rest) ≠ fold (weigh block - rest) := by
  have hsum := weigh_set hi b
  have hval : b.toNat ≠ block[i].toNat := fun h => hne (UInt8.toNat_inj.mp h)
  have hb := b.toNat_lt
  have hold := block[i].toNat_lt
  rw [Opposite, not_or] at hopposite
  exact fold_ne (by omega) (by omega) (by omega)

theorem Opposite.values {a b : UInt8} (h : Opposite a b) : a = 0 ∧ b = 255 ∨ a = 255 ∧ b = 0 := by
  have ha := a.toNat_lt
  have hb := b.toNat_lt
  rcases h with h | h
  · refine .inl ⟨UInt8.toNat_inj.mp ?_, UInt8.toNat_inj.mp ?_⟩
    · change a.toNat = 0
      omega
    · change b.toNat = 255
      omega
  · refine .inr ⟨UInt8.toNat_inj.mp ?_, UInt8.toNat_inj.mp ?_⟩
    · change a.toNat = 255
      omega
    · change b.toNat = 0
      omega

/-- A byte with one bit turned is another one, and not its opposite. -/
theorem flip_bit_ne (a : UInt8) {k : ℕ} (hk : k < 8) :
    a ^^^ UInt8.ofNat (2 ^ k) ≠ a ∧ ¬ Opposite (a ^^^ UInt8.ofNat (2 ^ k)) a := by
  have hbit : (UInt8.ofNat (2 ^ k)).toNat = 2 ^ k :=
    UInt8.toNat_ofNat_of_lt' (Nat.pow_lt_pow_right (by decide) hk)
  have hpos := Nat.two_pow_pos k
  have hle : 2 ^ k ≤ 2 ^ 7 := Nat.pow_le_pow_right (by decide) (Nat.le_of_lt_succ hk)
  have hzero : UInt8.ofNat (2 ^ k) ≠ 0 := fun h => Nat.ne_of_gt hpos (hbit.symm.trans (by rw [h]; rfl))
  have hall : UInt8.ofNat (2 ^ k) ≠ 255 := by
    intro h
    rw [h] at hbit
    change 255 = 2 ^ k at hbit
    omega
  constructor
  · exact fun h => hzero ((UInt8.xor_right_inj a).mp (h.trans UInt8.xor_zero.symm))
  · -- the two would be 0 and 255, and the bit 255
    intro h
    rcases h.values with ⟨hx, rfl⟩ | ⟨hx, rfl⟩
    · exact hall (UInt8.xor_eq_zero_iff.mp hx).symm
    · exact hall (UInt8.zero_xor.symm.trans hx)

end Gftp.FoldedSums
