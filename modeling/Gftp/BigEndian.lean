import Gftp.ByteStrings

/-!
Network byte order. A 32-bit word is written as four bytes, most significant
first, and a 64-bit word as its high and its low half. Reading the first four
bytes of a longer string gives the written word back.
-/

namespace Gftp.BigEndian

open ByteStrings

/-- The four bytes of a word in network order. -/
def be32 (n : UInt32) : Bytes :=
  [UInt8.ofNat (n.toNat / 2 ^ 24), UInt8.ofNat (n.toNat / 2 ^ 16),
    UInt8.ofNat (n.toNat / 2 ^ 8), UInt8.ofNat n.toNat]

/-- The word held by the first four bytes, none when there are fewer. -/
def read32 : Bytes → Option UInt32
  | a :: b :: c :: d :: _ =>
      some (UInt32.ofNat (a.toNat * 2 ^ 24 + b.toNat * 2 ^ 16 + c.toNat * 2 ^ 8 + d.toNat))
  | _ => none

/-- The eight bytes of a 64-bit word: the high half, then the low half. -/
def be64 (n : UInt64) : Bytes := be32 (n >>> 32).toUInt32 ++ be32 n.toUInt32

@[simp] theorem be32_length (n : UInt32) : (be32 n).length = 4 := rfl

@[simp] theorem be64_length (n : UInt64) : (be64 n).length = 8 := rfl

private theorem reassemble (n : UInt32) :
    UInt32.ofNat ((UInt8.ofNat (n.toNat / 2 ^ 24)).toNat * 2 ^ 24 +
      (UInt8.ofNat (n.toNat / 2 ^ 16)).toNat * 2 ^ 16 +
        (UInt8.ofNat (n.toNat / 2 ^ 8)).toNat * 2 ^ 8 + (UInt8.ofNat n.toNat).toNat) = n := by
  have hn : n.toNat < 2 ^ 32 := n.toNat_lt
  apply UInt32.toNat_inj.mp
  simp only [UInt32.toNat_ofNat', UInt8.toNat_ofNat']
  omega

/-- Reading what was written gives the word back, whatever follows it. -/
theorem read32_be32 (n : UInt32) (rest : Bytes) : read32 (be32 n ++ rest) = some n := by
  simp only [be32, List.cons_append, List.nil_append, read32, reassemble]

theorem read32_isSome_iff (l : Bytes) : (read32 l).isSome ↔ 4 ≤ l.length := by
  rcases l with _ | ⟨a, _ | ⟨b, _ | ⟨c, _ | ⟨d, rest⟩⟩⟩⟩ <;> simp [read32]

theorem read32_append {d e : Bytes} (h : 4 ≤ d.length) : read32 (d ++ e) = read32 d := by
  rcases d with _ | ⟨a, _ | ⟨b, _ | ⟨c, _ | ⟨x, rest⟩⟩⟩⟩
  all_goals first
    | rfl
    | simp at h

/-- Only the first four bytes are looked at. -/
theorem read32_take (d : Bytes) : read32 (d.take 4) = read32 d := by
  rcases d with _ | ⟨a, _ | ⟨b, _ | ⟨c, _ | ⟨x, rest⟩⟩⟩⟩ <;> rfl

theorem read32_none_iff (d : Bytes) : read32 d = none ↔ d.length < 4 := by
  rw [← Option.not_isSome_iff_eq_none, read32_isSome_iff]
  omega

/-- The word that is read is the one whose bytes are there. -/
theorem be32_of_read32 {d : Bytes} {w : UInt32} (h : read32 d = some w) :
    d = be32 w ++ d.drop 4 := by
  rcases d with _ | ⟨a, _ | ⟨b, _ | ⟨c, _ | ⟨x, rest⟩⟩⟩⟩
  all_goals try (simp [read32] at h; done)
  have ha := a.toNat_lt
  have hb := b.toNat_lt
  have hc := c.toNat_lt
  have hx := x.toNat_lt
  obtain rfl : UInt32.ofNat (a.toNat * 2 ^ 24 + b.toNat * 2 ^ 16 + c.toNat * 2 ^ 8 + x.toNat) = w := by
    simpa [read32] using h
  have hbytes : be32 (UInt32.ofNat
      (a.toNat * 2 ^ 24 + b.toNat * 2 ^ 16 + c.toNat * 2 ^ 8 + x.toNat)) = [a, b, c, x] := by
    simp only [be32, List.cons.injEq, and_true, ← UInt8.toNat_inj, UInt8.toNat_ofNat',
      UInt32.toNat_ofNat']
    omega
  rw [hbytes]
  rfl

end Gftp.BigEndian
