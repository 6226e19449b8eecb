import Gftp.ByteStrings

/-!
Pointers into blocks of text. A pointer is the part of its block from there on, so that
adding to it drops bytes and it is past its block when nothing is left. A search ends at
the terminator, and reading past the block is a fault.
-/

namespace Gftp.TextPointers

open ByteStrings

def deref : Bytes → CRun UInt8
  | [] => .error .fault
  | b :: _ => .ok b

/-- The first position whose byte does not satisfy f. -/
def skipWhile (f : UInt8 → Bool) : Bytes → CRun Bytes
  | [] => .error .fault
  | b :: rest => if f b then skipWhile f rest else .ok (b :: rest)

/-- strchr for a byte other than NUL. -/
def findByte (c : UInt8) : Bytes → CRun (Option Bytes)
  | [] => .error .fault
  | b :: rest =>
      if b = c then .ok (some (b :: rest))
      else if b = 0 then .ok none
      else findByte c rest

/-- strstr for a text without a NUL. -/
def findText (t : Bytes) : Bytes → CRun (Option Bytes)
  | [] => .error .fault
  | b :: rest =>
      if t.isPrefixOf (b :: rest) then .ok (some (b :: rest))
      else if b = 0 then .ok none
      else findText t rest

/-- The string a pointer shows. -/
def textAt (p : Bytes) : CRun Bytes := if 0 ∈ p then .ok (cstr p) else .error .fault

theorem deref_text (t rest : Bytes) : deref (t ++ 0 :: rest) = .ok (t.headD 0) := by
  cases t <;> rfl

theorem textAt_text {t : Bytes} (ht : 0 ∉ t) (rest : Bytes) :
    textAt (t ++ 0 :: rest) = .ok t := by
  rw [textAt, if_pos (by simp), cstr_append_nul ht]

theorem textAt_append {t rest : Bytes} (ht : 0 ∉ t) (hrest : 0 ∈ rest) :
    textAt (t ++ rest) = .ok (t ++ cstr rest) := by
  rw [textAt, if_pos (List.mem_append_right t hrest), cstr, cstr, List.takeWhile_append_of_pos]
  intro b hb
  simpa using ne_of_mem_of_not_mem hb ht

theorem skipWhile_append {f : UInt8 → Bool} {t : Bytes} (ht : ∀ b ∈ t, f b = true) {b : UInt8}
    (hb : f b = false) (rest : Bytes) : skipWhile f (t ++ b :: rest) = .ok (b :: rest) := by
  induction t with
  | nil => simp [skipWhile, hb]
  | cons a t ih =>
    rw [List.forall_mem_cons] at ht
    rw [List.cons_append, skipWhile, if_pos ht.1, ih ht.2]

/-- A search that stops at the terminator goes over the text. -/
theorem skipWhile_text {f : UInt8 → Bool} (hf : f 0 = false) (t rest : Bytes) :
    skipWhile f (t ++ 0 :: rest) = .ok (t.dropWhile f ++ 0 :: rest) := by
  induction t with
  | nil => simp [skipWhile, hf]
  | cons b t ih =>
    rw [List.cons_append, skipWhile, List.dropWhile_cons]
    split_ifs with hb
    · exact ih
    · rfl

/-- A block with a terminator is a text in front of it. -/
theorem exists_text {p : Bytes} (h : 0 ∈ p) : ∃ t rest, p = t ++ 0 :: rest ∧ 0 ∉ t := by
  obtain ⟨t, rest, rfl, ht⟩ := List.eq_append_cons_of_mem h
  exact ⟨t, rest, rfl, ht⟩

theorem findByte_first {c : UInt8} {t : Bytes} (hc : c ∉ t) (ht : 0 ∉ t) (rest : Bytes) :
    findByte c (t ++ c :: rest) = .ok (some (c :: rest)) := by
  induction t with
  | nil => simp [findByte]
  | cons b t ih =>
    simp only [List.mem_cons, not_or] at hc ht
    simp [findByte, Ne.symm hc.1, Ne.symm ht.1, ih hc.2 ht.2]

theorem findByte_text {c : UInt8} {t : Bytes} (hc : c ≠ 0) (ht : 0 ∉ t) (rest : Bytes) :
    findByte c (t ++ 0 :: rest) =
      .ok (if c ∈ t then some (t.drop (t.idxOf c) ++ 0 :: rest) else none) := by
  induction t with
  | nil => simp [findByte, hc.symm]
  | cons b t ih =>
    simp only [List.mem_cons, not_or] at ht
    by_cases hb : b = c
    · subst hb
      simp [findByte]
    · simp [findByte, hb, Ne.symm ht.1, ih ht.2, List.idxOf_cons_ne t hb, Ne.symm hb]

/-- What a text goes on with behind the first c. -/
def behindByte (c : UInt8) (t : Bytes) : Bytes := (t.dropWhile (· ≠ c)).drop 1

theorem behindByte_append {c : UInt8} {u : Bytes} (hu : c ∉ u) (v : Bytes) :
    behindByte c (u ++ c :: v) = v := by
  unfold behindByte
  rw [List.dropWhile_append_of_pos fun b hb => by simpa using ne_of_mem_of_not_mem hb hu]
  simp

theorem behindByte_suffix (c : UInt8) (t : Bytes) : behindByte c t <:+ t :=
  (List.drop_suffix _ _).trans (List.dropWhile_suffix _)

theorem count_behindByte {c : UInt8} {t : Bytes} (h : c ∈ t) :
    t.count c = (behindByte c t).count c + 1 := by
  obtain ⟨u, v, rfl, hu⟩ := List.eq_append_cons_of_mem h
  rw [behindByte_append hu, List.count_append, List.count_eq_zero_of_not_mem hu, List.count_cons_self,
    Nat.zero_add]

theorem findByte_behind {c : UInt8} {t : Bytes} (ht : 0 ∉ t) (h : c ∈ t) (rest : Bytes) :
    findByte c (t ++ 0 :: rest) = .ok (some (c :: (behindByte c t ++ 0 :: rest))) := by
  obtain ⟨u, v, rfl, hu⟩ := List.eq_append_cons_of_mem h
  rw [behindByte_append hu, List.append_assoc]
  exact findByte_first hu (fun h0 => ht (List.mem_append_left _ h0)) _

end Gftp.TextPointers
