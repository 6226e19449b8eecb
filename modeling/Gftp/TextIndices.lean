import Mathlib.Data.List.DropRight
import Gftp.TextPointers

/-!
Positions in a block of text that is written while it is read. A position is an index, so
that it stays valid when the block changes. A walk backwards takes the index behind the
byte it looks at first, and 0 is in front of the block; there it leaves the block. The
results are about a block shown as an append, the index being the length of its front.
-/

namespace Gftp.TextIndices

open ByteStrings TextPointers

def readAt (block : Bytes) (i : ℕ) : CRun UInt8 := deref (block.drop i)

def writeAt (block : Bytes) (i : ℕ) (b : UInt8) : CRun Bytes := overwrite block i [b]

/-- The string at an index. -/
def textFrom (block : Bytes) (i : ℕ) : CRun Bytes := textAt (block.drop i)

def strlen (block : Bytes) (i : ℕ) : CRun ℕ := do
  return (← textFrom block i).length

/-- The index of a pointer into the block. -/
def indexOf (block : Bytes) (p : Option Bytes) : Option ℕ := p.map fun p => block.length - p.length

def strchr (block : Bytes) (i : ℕ) (c : UInt8) : CRun (Option ℕ) := do
  return indexOf block (← findByte c (block.drop i))

def strstr (block : Bytes) (i : ℕ) (t : Bytes) : CRun (Option ℕ) := do
  return indexOf block (← findText t (block.drop i))

def strrchr (block : Bytes) (i : ℕ) (c : UInt8) : CRun (Option ℕ) := do
  let t ← textFrom block i
  return if c ∈ t then some (i + (t.length - 1 - t.reverse.idxOf c)) else none

/-- The index of the last byte in front of an index that does not satisfy f. -/
def skipBack (f : UInt8 → Bool) (block : Bytes) : ℕ → CRun ℕ
  | 0 => .error .fault
  | i + 1 => do if f (← readAt block i) then skipBack f block i else return i

/-- Zeroes over the bytes in front of an index, up to the last that does not satisfy f. -/
def clearBack (f : UInt8 → Bool) : Bytes → ℕ → CRun Bytes
  | _, 0 => .error .fault
  | block, i + 1 => do
      if f (← readAt block i) then clearBack f (← writeAt block i 0) i else return block

/-- A text is shown at the last byte that does not satisfy f. -/
theorem exists_kept {f : UInt8 → Bool} {t : Bytes} (h : t.rdropWhile f ≠ []) :
    ∃ u b v, t = u ++ b :: v ∧ t.rdropWhile f = u ++ [b] ∧ f b = false ∧ ∀ x ∈ v, f x = true := by
  obtain ⟨u, b, hkept⟩ : ∃ u b, t.rdropWhile f = u ++ [b] :=
    ⟨_, _, (List.dropLast_append_getLast h).symm⟩
  have hb : f b = false := by
    have hlast := List.rdropWhile_last_not f t h
    simpa [hkept] using hlast
  have happend := @List.rdropWhile_append_rtakeWhile _ f t
  rw [hkept, List.append_assoc] at happend
  exact ⟨u, b, t.rtakeWhile f, happend.symm, hkept, hb, fun x hx => List.mem_rtakeWhile_imp hx⟩

theorem exists_last {f : UInt8 → Bool} {t : Bytes} {x : UInt8} (hx : x ∈ t) (hfalse : f x = false) :
    ∃ u b v, t = u ++ b :: v ∧ f b = false ∧ ∀ x ∈ v, f x = true := by
  have hne : t.rdropWhile f ≠ [] := by
    intro hnil
    rw [List.rdropWhile_eq_nil_iff.mp hnil x hx] at hfalse
    cases hfalse
  obtain ⟨u, b, v, hshow, -, hb, hv⟩ := exists_kept hne
  exact ⟨u, b, v, hshow, hb, hv⟩

theorem rdropWhile_append {f : UInt8 → Bool} {t : Bytes} (h : t.rdropWhile f ≠ []) (front : Bytes) :
    (front ++ t).rdropWhile f = front ++ t.rdropWhile f := by
  obtain ⟨u, b, v, hshow, hkept, hb, hv⟩ := exists_kept h
  have hstop : ∀ w : Bytes, (w ++ b :: v).rdropWhile f = w ++ [b] := by
    intro w
    rw [List.rdropWhile, List.reverse_append, List.reverse_cons, List.append_assoc,
      List.dropWhile_append_of_pos fun x hx => hv x (List.mem_reverse.mp hx), List.singleton_append,
      List.dropWhile_cons_of_neg (by simp [hb]), List.reverse_cons, List.reverse_reverse]
  rw [hkept, hshow, ← List.append_assoc, hstop, List.append_assoc]

section Display

variable {front rest t u v : Bytes} {b c : UInt8} {f : UInt8 → Bool}

theorem readAt_front (front : Bytes) (b : UInt8) (rest : Bytes) :
    readAt (front ++ b :: rest) front.length = .ok b := by
  rw [readAt, List.drop_left]
  rfl

theorem writeAt_front (front : Bytes) (a : UInt8) (rest : Bytes) (b : UInt8) :
    writeAt (front ++ a :: rest) front.length b = .ok (front ++ b :: rest) :=
  @overwrite_middle front [a] rest [b] _ rfl rfl

theorem readAt_text (front t rest : Bytes) :
    readAt (front ++ (t ++ 0 :: rest)) front.length = .ok (t.headD 0) := by
  rw [readAt, List.drop_left, deref_text]

theorem textFrom_text (ht : 0 ∉ t) (front rest : Bytes) :
    textFrom (front ++ (t ++ 0 :: rest)) front.length = .ok t := by
  rw [textFrom, List.drop_left, textAt_text ht]

theorem drop_behind (front : Bytes) (b : UInt8) (rest : Bytes) :
    (front ++ b :: rest).drop (front.length + 1) = rest := by
  rw [← List.drop_drop, List.drop_left, List.drop_succ_cons, List.drop_zero]

theorem readAt_behind (front : Bytes) (b : UInt8) (t rest : Bytes) :
    readAt (front ++ b :: (t ++ 0 :: rest)) (front.length + 1) = .ok (t.headD 0) := by
  rw [readAt, drop_behind, deref_text]

theorem textFrom_behind (ht : 0 ∉ t) (front : Bytes) (b : UInt8) (rest : Bytes) :
    textFrom (front ++ b :: (t ++ 0 :: rest)) (front.length + 1) = .ok t := by
  rw [textFrom, drop_behind, textAt_text ht]

theorem strlen_text (ht : 0 ∉ t) (front rest : Bytes) :
    strlen (front ++ (t ++ 0 :: rest)) front.length = .ok t.length := by
  rw [strlen, textFrom_text ht]
  rfl

theorem indexOf_front (front rest : Bytes) : indexOf (front ++ rest) (some rest) = some front.length := by
  simp [indexOf]

theorem strchr_first (hc : c ∉ u) (hu : 0 ∉ u) (front rest : Bytes) :
    strchr (front ++ (u ++ c :: rest)) front.length c = .ok (some (front ++ u).length) := by
  rw [strchr, List.drop_left, findByte_first hc hu, ← List.append_assoc]
  exact congrArg Except.ok (indexOf_front (front ++ u) (c :: rest))

theorem strchr_none (hc : c ∉ t) (hc0 : c ≠ 0) (ht : 0 ∉ t) (front rest : Bytes) :
    strchr (front ++ (t ++ 0 :: rest)) front.length c = .ok none := by
  rw [strchr, List.drop_left, findByte_text hc0 ht, if_neg hc]
  rfl

theorem prefix_text (ht : 0 ∉ t) (w rest : Bytes) : t <+: w ++ 0 :: rest ↔ t <+: w := by
  constructor
  · intro h
    rcases Nat.lt_or_ge w.length t.length with hlt | hle
    · have hfront : w ++ [0] <+: w ++ 0 :: rest := ⟨rest, by rw [List.append_assoc]; rfl⟩
      have hzero : w ++ [0] <+: t := List.prefix_of_prefix_length_le hfront h (by
        rw [List.length_append, List.length_singleton]
        exact hlt)
      exact absurd (hzero.subset (by simp)) ht
    · exact List.prefix_of_prefix_length_le h (List.prefix_append w _) hle
  · intro h
    exact h.trans (List.prefix_append w _)

theorem strstr_first (hc : c ∉ u) (hu : 0 ∉ u) (t rest : Bytes) :
    strstr (u ++ (c :: t ++ rest)) 0 (c :: t) = .ok (some u.length) := by
  have hfind : findText (c :: t) (u ++ (c :: t ++ rest)) = .ok (some (c :: t ++ rest)) := by
    induction u with
    | nil => simp [findText]
    | cons b u ih =>
      rw [List.mem_cons, not_or] at hc hu
      rw [List.cons_append, findText, if_neg (by simp [hc.1]), if_neg (Ne.symm hu.1), ih hc.2 hu.2]
  rw [strstr, List.drop_zero, hfind]
  exact congrArg Except.ok (indexOf_front u _)

/-- A search for a text finds it or says that it is not there. -/
theorem strstr_cases {w : Bytes} (ht : 0 ∉ t) (hne : t ≠ []) (hw : 0 ∉ w) (rest : Bytes) :
    (strstr (w ++ 0 :: rest) 0 t = .ok none ∧ ¬ t <:+: w) ∨
      ∃ u v, w = u ++ (t ++ v) ∧ strstr (w ++ 0 :: rest) 0 t = .ok (some u.length) := by
  have hfind : (findText t (w ++ 0 :: rest) = .ok none ∧ ¬ t <:+: w) ∨
      ∃ u v, w = u ++ (t ++ v) ∧
        findText t (w ++ 0 :: rest) = .ok (some (t ++ v ++ 0 :: rest)) := by
    induction w with
    | nil =>
      have hno : ¬ t <+: [] ++ 0 :: rest := by
        rw [prefix_text ht, List.prefix_nil]
        exact hne
      refine Or.inl ⟨?_, by rwa [List.infix_nil]⟩
      rw [List.nil_append] at hno ⊢
      rw [findText, if_neg (by rwa [List.isPrefixOf_iff_prefix]), if_pos rfl]
    | cons b w ih =>
      rw [List.mem_cons, not_or] at hw
      by_cases hhere : t <+: b :: w
      · obtain ⟨v, hv⟩ := hhere
        refine Or.inr ⟨[], v, hv.symm, ?_⟩
        have hstart : t <+: b :: (w ++ 0 :: rest) := by
          rw [← List.cons_append, ← hv, List.append_assoc]
          exact List.prefix_append t _
        rw [hv, List.cons_append, findText, if_pos (List.isPrefixOf_iff_prefix.mpr hstart)]
      · have hskip : findText t (b :: w ++ 0 :: rest) = findText t (w ++ 0 :: rest) := by
          have hno := mt (prefix_text ht (b :: w) rest).mp hhere
          rw [List.cons_append] at hno ⊢
          rw [findText, if_neg (by rwa [List.isPrefixOf_iff_prefix]), if_neg (Ne.symm hw.1)]
        rw [hskip]
        rcases ih hw.2 with ⟨hnone, hinfix⟩ | ⟨u, v, rfl, hsome⟩
        · refine Or.inl ⟨hnone, ?_⟩
          rw [List.infix_cons_iff]
          rintro (hstart | hlater)
          · exact hhere hstart
          · exact hinfix hlater
        · exact Or.inr ⟨b :: u, v, rfl, hsome⟩
  rcases hfind with ⟨hnone, hinfix⟩ | ⟨u, v, rfl, hsome⟩
  · refine Or.inl ⟨?_, hinfix⟩
    rw [strstr, List.drop_zero, hnone]
    rfl
  · refine Or.inr ⟨u, v, rfl, ?_⟩
    have hindex := indexOf_front u (t ++ v ++ 0 :: rest)
    rw [← List.append_assoc] at hindex
    rw [strstr, List.drop_zero, hsome]
    exact congrArg Except.ok hindex

theorem strrchr_none (hc : c ∉ t) (ht : 0 ∉ t) (front rest : Bytes) :
    strrchr (front ++ (t ++ 0 :: rest)) front.length c = .ok none := by
  rw [strrchr, textFrom_text ht, CRun.ok_bind, if_neg hc]
  rfl

theorem strrchr_last (hc : c ∉ v) (ht : 0 ∉ u ++ c :: v) (front rest : Bytes) :
    strrchr (front ++ (u ++ c :: v ++ 0 :: rest)) front.length c = .ok (some (front ++ u).length) := by
  have hlast : (u ++ c :: v).reverse.idxOf c = v.length := by
    rw [List.reverse_append, List.reverse_cons, List.append_assoc,
      List.idxOf_append_of_notMem fun h => hc (List.mem_reverse.mp h), List.singleton_append,
      List.idxOf_cons_self, List.length_reverse, Nat.add_zero]
  have hlength : front.length + ((u ++ c :: v).length - 1 - v.length) = (front ++ u).length := by
    simp only [List.length_append, List.length_cons]
    omega
  rw [strrchr, textFrom_text ht, CRun.ok_bind, if_pos (by simp), hlast, hlength]
  rfl

/-- A walk backwards stops at the last byte that does not satisfy f. -/
theorem skipBack_stop (hb : f b = false) (hu : ∀ x ∈ u, f x = true) (front rest : Bytes) :
    skipBack f (front ++ b :: (u ++ rest)) (front.length + 1 + u.length) = .ok front.length := by
  induction u using List.reverseRecOn generalizing rest with
  | nil =>
    rw [List.length_nil, Nat.add_zero, skipBack, List.nil_append, readAt_front, CRun.ok_bind, hb]
    rfl
  | append_singleton u x ih =>
    have hx : f x = true := hu x (by simp)
    have hread : readAt (front ++ b :: (u ++ [x] ++ rest)) (front.length + 1 + u.length) = .ok x := by
      have h := readAt_front (front ++ b :: u) x rest
      rw [List.length_append, List.length_cons, ← Nat.add_assoc, Nat.add_right_comm] at h
      simpa only [List.append_assoc, List.cons_append, List.nil_append] using h
    have hrest := ih (fun y hy => hu y (List.mem_append_left _ hy)) (x :: rest)
    rw [List.length_append, List.length_singleton, ← Nat.add_assoc, skipBack, hread, CRun.ok_bind,
      if_pos hx, List.append_assoc, List.singleton_append]
    exact hrest

/-- A walk backwards over bytes that all satisfy f leaves the block. -/
theorem skipBack_fault (hu : ∀ x ∈ u, f x = true) (rest : Bytes) :
    skipBack f (u ++ rest) u.length = .error .fault := by
  induction u using List.reverseRecOn generalizing rest with
  | nil => rfl
  | append_singleton u x ih =>
    have hread : readAt (u ++ [x] ++ rest) u.length = .ok x := by
      rw [List.append_assoc]
      exact readAt_front u x rest
    rw [List.length_append, List.length_singleton, skipBack, hread, CRun.ok_bind,
      if_pos (hu x (by simp)), List.append_assoc]
    exact ih (fun y hy => hu y (List.mem_append_left _ hy)) _

/-- The bytes behind the last one that does not satisfy f become zeroes. -/
theorem clearBack_stop (hb : f b = false) (hu : ∀ x ∈ u, f x = true) (front rest : Bytes) :
    clearBack f (front ++ b :: (u ++ rest)) (front.length + 1 + u.length) =
      .ok (front ++ b :: (List.replicate u.length 0 ++ rest)) := by
  induction u using List.reverseRecOn generalizing rest with
  | nil =>
    rw [List.length_nil, Nat.add_zero, clearBack, List.nil_append, readAt_front, CRun.ok_bind, hb]
    rfl
  | append_singleton u x ih =>
    have hshow : front ++ b :: (u ++ [x] ++ rest) = front ++ b :: u ++ x :: rest := by
      simp only [List.append_assoc, List.cons_append, List.nil_append]
    have hindex : front.length + 1 + u.length = (front ++ b :: u).length := by
      rw [List.length_append, List.length_cons]
      omega
    have hrest := ih (fun y hy => hu y (List.mem_append_left _ hy)) (0 :: rest)
    rw [List.length_append, List.length_singleton, ← Nat.add_assoc, clearBack, hshow, hindex,
      readAt_front, CRun.ok_bind, if_pos (hu x (by simp)), writeAt_front, CRun.ok_bind, ← hindex,
      List.append_assoc, List.cons_append, hrest, List.replicate_succ', List.append_assoc,
      List.singleton_append]

/-- What satisfies f at the end of a text is taken off. -/
theorem clearBack_end {t : Bytes} (h : t.rdropWhile f ≠ []) :
    ∃ rest, clearBack f (t ++ [0]) t.length = .ok (t.rdropWhile f ++ 0 :: rest) := by
  obtain ⟨front, b, blanks, hshow, hkept, hb, hblanks⟩ := exists_kept h
  rw [hkept]
  have hlength : t.length = front.length + 1 + blanks.length := by
    rw [hshow, List.length_append, List.length_cons]
    omega
  have hblock : t ++ [0] = front ++ b :: (blanks ++ [0]) := by
    rw [hshow, List.append_assoc, List.cons_append]
  refine ⟨List.replicate blanks.length 0, ?_⟩
  rw [hlength, hblock, clearBack_stop hb hblanks front [0], ← List.replicate_succ',
    List.replicate_succ, List.append_assoc, List.singleton_append]

end Display

end Gftp.TextIndices
