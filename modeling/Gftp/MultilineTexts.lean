import Gftp.ProxyScripts
import Gftp.Replacements

/-!
The texts of options that are edited in several lines. The marker %n stands for the end of a line
in the configuration. Both conversions cut the argument at what they have found, add the part in
front of it to a block that they make longer, and put the byte back.
-/

namespace Gftp.MultilineTexts

open ByteStrings ProxyScripts Replacements TextIndices TextPointers

/-- The characters %n. -/
def marker : Bytes := [37, 110]

/-- The local variables, with the block of the argument. -/
structure State where
  block : Bytes
  stpos : ℕ
  ret : Bytes
  len : ℕ

/-- The part in front of endpos and the text that is added for it, with the bytes to go over. -/
def addPart (added : Bytes) (width endpos : ℕ) (s : State) : CRun State := do
  let savechar ← readAt s.block endpos
  let block ← writeAt s.block endpos 0
  let text ← textFrom block s.stpos
  let len := s.len + (text.length + added.length)
  let ret ← strcat (realloc s.ret (len + 1)) text
  let ret ← strcat ret added
  let block ← writeAt block endpos savechar
  return ⟨block, endpos + width, ret, len⟩

/-- What is left behind the last part. -/
def addRest (s : State) : CRun State := do
  if (← readAt s.block s.stpos) = 0 then return s
  else
    let text ← textFrom s.block s.stpos
    let len := s.len + text.length
    let ret ← strcat (realloc s.ret (len + 1)) text
    return { s with ret := ret, len := len }

/-- The loop of both conversions. -/
def convert (find : Bytes → ℕ → CRun (Option ℕ)) (added : Bytes) (width : ℕ) : ℕ → State → CRun State
  | 0, _ => .error .pending
  | fuel + 1, s => do
      match ← find s.block s.stpos with
      | some endpos => convert find added width fuel (← addPart added width endpos s)
      | none => addRest s

/-- The conversion of a string, with its block afterwards. A round goes over a byte at least. -/
def convertBlock (find : Bytes → ℕ → CRun (Option ℕ)) (added : Bytes) (width : ℕ) (str : Bytes) :
    CRun (Bytes × Bytes) := do
  let s ← convert find added width str.length ⟨str, 0, [0], 0⟩
  return (s.block, s.ret)

/-- _gftp_convert_to_newlines. -/
def convertToNewlines (str : Bytes) : CRun (Bytes × Bytes) :=
  convertBlock (fun block stpos => strstr block stpos marker) [10] 2 str

/-- _gftp_convert_from_newlines. -/
def convertFromNewlines (str : Bytes) : CRun (Bytes × Bytes) :=
  convertBlock (fun block stpos => strchr block stpos 10) marker 1 str

/-- The conversion of the string s returns t in a block of its size, and s is as it was. -/
def Converts (conversion : Bytes → CRun (Bytes × Bytes)) (s t : Bytes) : Prop :=
  conversion (s ++ [0]) = .ok (s ++ [0], t ++ [0])

section Search

variable {t u w : Bytes}

theorem findText_none (ht : 0 ∉ t) (h : ¬ t <:+: w) (hw : 0 ∉ w) (rest : Bytes) :
    findText t (w ++ 0 :: rest) = .ok none := by
  induction w with
  | nil =>
    have hno : ¬ t <+: 0 :: rest := by
      intro hprefix
      exact h ((prefix_text ht [] rest).mp hprefix).isInfix
    rw [List.nil_append, findText, if_neg (by rwa [List.isPrefixOf_iff_prefix]), if_pos rfl]
  | cons b w ih =>
    rw [List.mem_cons, not_or] at hw
    rw [List.infix_cons_iff, not_or] at h
    have hno := mt (prefix_text ht (b :: w) rest).mp h.1
    rw [List.cons_append] at hno ⊢
    rw [findText, if_neg (by rwa [List.isPrefixOf_iff_prefix]), if_neg (Ne.symm hw.1), ih h.2 hw.2]

theorem findText_front (ht : t ≠ []) (h : Front t u) (hu : 0 ∉ u) (rest : Bytes) :
    findText t (u ++ (t ++ rest)) = .ok (some (t ++ rest)) := by
  induction u with
  | nil =>
    obtain ⟨c, t, rfl⟩ := List.exists_cons_of_ne_nil ht
    have hhere : (c :: t).isPrefixOf (c :: (t ++ rest)) = true :=
      List.isPrefixOf_iff_prefix.mpr (List.prefix_append (c :: t) rest)
    rw [List.nil_append, List.cons_append, findText, if_pos hhere]
  | cons b u ih =>
    rw [List.mem_cons, not_or] at hu
    have hno := h.not_prefix rest
    rw [List.cons_append] at hno ⊢
    rw [findText, if_neg (by rwa [List.isPrefixOf_iff_prefix]), if_neg (Ne.symm hu.1), ih h.tail hu.2]

/-- A search in a string finds the first occurrence of a text. -/
structure Finds (find : Bytes → ℕ → CRun (Option ℕ)) (sep : Bytes) : Prop where
  front : ∀ {u : Bytes}, Front sep u → 0 ∉ u → ∀ done rest : Bytes,
    find (done ++ (u ++ (sep ++ rest))) done.length = .ok (some (done ++ u).length)
  none : ∀ {w : Bytes}, ¬ sep <:+: w → 0 ∉ w → ∀ done : Bytes,
    find (done ++ (w ++ [0])) done.length = .ok none

theorem finds_marker : Finds (fun block stpos => strstr block stpos marker) marker where
  front h hu done rest := by
    rw [strstr, List.drop_left, findText_front (by decide) h hu, ← List.append_assoc]
    exact congrArg Except.ok (indexOf_front _ _)
  none h hw done := by
    rw [strstr, List.drop_left, findText_none (by decide) h hw]
    rfl

theorem finds_newline : Finds (fun block stpos => strchr block stpos 10) [10] where
  front h hu done rest := strchr_first (front_singleton.mp h) hu done rest
  none h hw done := strchr_none (mt singleton_infix.mpr h) (by decide) hw done []

end Search

section Loop

variable {find : Bytes → ℕ → CRun (Option ℕ)} {sep added s t u done out rest : Bytes}

/-- The variables when done has been converted to out and s is left. -/
def stateAt (done s out : Bytes) : State := ⟨done ++ (s ++ [0]), done.length, out ++ [0], out.length⟩

theorem addPart_stateAt {c : UInt8} (hu : 0 ∉ u) (hout : 0 ∉ out) :
    addPart added (c :: sep).length (done ++ u).length (stateAt done (u ++ (c :: sep ++ rest)) out) =
      .ok (stateAt (done ++ u ++ c :: sep) rest (out ++ (u ++ added))) := by
  have hblock : done ++ (u ++ (c :: sep ++ rest) ++ [0]) = done ++ u ++ c :: (sep ++ rest ++ [0]) := by
    simp
  have hcut : done ++ u ++ 0 :: (sep ++ rest ++ [0]) = done ++ (u ++ 0 :: (sep ++ rest ++ [0])) :=
    List.append_assoc ..
  have hpart := @strcat_room out u (u.length + added.length) hout (Nat.le_add_right _ _)
  rw [Nat.add_sub_cancel_left] at hpart
  have hadd := @strcat_room (out ++ u) added added.length (by simp [hout, hu]) (Nat.le_refl _)
  rw [Nat.sub_self, List.replicate_zero] at hadd
  simp only [addPart, stateAt, hblock, readAt_front, writeAt_front, CRun.ok_bind]
  rw [hcut, textFrom_text hu, CRun.ok_bind, realloc_string, hpart, CRun.ok_bind, hadd, CRun.ok_bind]
  simp [pure, Except.pure, Nat.add_assoc]

theorem addRest_stateAt (hs : 0 ∉ s) (hout : 0 ∉ out) :
    addRest (stateAt done s out) =
      .ok ⟨done ++ (s ++ [0]), done.length, out ++ s ++ [0], (out ++ s).length⟩ := by
  have hread : readAt (done ++ (s ++ [0])) done.length = .ok (s.headD 0) := readAt_text done s []
  have htext : textFrom (done ++ (s ++ [0])) done.length = .ok s := textFrom_text hs done []
  have hrest := @strcat_room out s s.length hout (Nat.le_refl _)
  rw [Nat.sub_self, List.replicate_zero] at hrest
  simp only [addRest, stateAt, hread, htext, CRun.ok_bind, realloc_string, hrest]
  cases s with
  | nil => simp [pure, Except.pure]
  | cons b s =>
    have hb : b ≠ 0 := fun h0 => hs (h0 ▸ List.mem_cons_self ..)
    simp [hb, pure, Except.pure]

/-- A loop with enough rounds replaces what the search finds. -/
theorem convert_replaced (hfind : Finds find sep) (hsep : sep ≠ []) (hadded : 0 ∉ added)
    (h : Replaced sep added s t) {fuel : ℕ} (hfuel : s.length < fuel) (hs : 0 ∉ s) (hout : 0 ∉ out) :
    ∃ s', convert find added sep.length fuel (stateAt done s out) = .ok s' ∧
      s'.block = done ++ (s ++ [0]) ∧ s'.ret = out ++ t ++ [0] := by
  induction h generalizing done out fuel with
  | @rest s hnone =>
    obtain ⟨fuel, rfl⟩ := Nat.exists_eq_succ_of_ne_zero (by omega : fuel ≠ 0)
    refine ⟨⟨done ++ (s ++ [0]), done.length, out ++ s ++ [0], (out ++ s).length⟩, ?_, rfl, rfl⟩
    rw [convert]
    have hfound : find (stateAt done s out).block (stateAt done s out).stpos = .ok none :=
      hfind.none hnone hs done
    rw [hfound, CRun.ok_bind]
    exact addRest_stateAt hs hout
  | @next u v w hfront _ ih =>
    obtain ⟨fuel, rfl⟩ := Nat.exists_eq_succ_of_ne_zero (by omega : fuel ≠ 0)
    obtain ⟨c, sep, rfl⟩ := List.exists_cons_of_ne_nil hsep
    simp only [List.mem_append, not_or] at hs
    have hfound : find (stateAt done (u ++ (c :: sep ++ v)) out).block
        (stateAt done (u ++ (c :: sep ++ v)) out).stpos = .ok (some (done ++ u).length) := by
      have hsearch := hfind.front hfront hs.1 done (v ++ [0])
      simpa [stateAt] using hsearch
    have hlength : v.length < fuel := by
      simp only [List.length_append, List.length_cons] at hfuel
      omega
    obtain ⟨s', hrun, hblock, hret⟩ := @ih (done ++ u ++ c :: sep) (out ++ (u ++ added)) fuel hlength hs.2.2
      (by simp [hout, hs.1, hadded])
    refine ⟨s', ?_, ?_, ?_⟩
    · rw [convert, hfound, CRun.ok_bind]
      simp only [addPart_stateAt hs.1 hout, CRun.ok_bind]
      exact hrun
    · rw [hblock]
      simp
    · rw [hret]
      simp

theorem converts_replaced (hfind : Finds find sep) (hsep : sep ≠ []) (hadded : 0 ∉ added)
    (hs : 0 ∉ s) (h : Replaced sep added s t) :
    Converts (convertBlock find added sep.length) s t := by
  obtain ⟨s', hrun, hblock, hret⟩ := @convert_replaced find sep added s t [] [] hfind hsep hadded h
    (s ++ [0]).length (by simp) hs List.not_mem_nil
  have hstart : convert find added sep.length (s ++ [0]).length ⟨s ++ [0], 0, [0], 0⟩ = .ok s' := hrun
  rw [Converts, convertBlock, hstart, CRun.ok_bind, hblock, hret]
  rfl

end Loop

/-- Both conversions return a string in a block of its own size and leave their argument as it was,
and each takes back what the other one has made of a string without its result. -/
theorem conversions_inverse (s : CString) :
    (∃ t, Converts convertToNewlines s.bytes t ∧ 0 ∉ t ∧
        (10 ∉ s.bytes → Converts convertFromNewlines t s.bytes)) ∧
      ∃ t, Converts convertFromNewlines s.bytes t ∧ 0 ∉ t ∧
        (¬ marker <:+: s.bytes → Converts convertToNewlines t s.bytes) := by
  have hmarker : 0 ∉ marker := by decide
  have hnewline : (0 : UInt8) ∉ [(10 : UInt8)] := by decide
  constructor
  · obtain ⟨t, ht⟩ := exists_replaced (by decide : marker ≠ []) [10] s.bytes
    have hnul := ht.not_mem s.nul_free hnewline
    refine ⟨t, converts_replaced finds_marker (by decide) hnewline s.nul_free ht, hnul, fun hs => ?_⟩
    refine converts_replaced finds_newline (by decide) hmarker hnul (ht.back fun u hu => ?_)
    exact front_singleton.mpr fun hmem => hs (hu.subset hmem)
  · obtain ⟨t, ht⟩ := exists_replaced (by decide : [(10 : UInt8)] ≠ []) marker s.bytes
    have hnul := ht.not_mem s.nul_free hmarker
    refine ⟨t, converts_replaced finds_newline (by decide) hmarker s.nul_free ht, hnul, fun hs => ?_⟩
    refine converts_replaced finds_marker (by decide) hnewline hnul (ht.back fun u hu => ?_)
    exact front_pair (by decide) fun hinside => hs (hinside.trans hu)

/-- Two lines, as they stand in the configuration and as they are edited. -/
def stored : CString := ⟨ascii "USER %pu%nPASS %pp", by decide⟩

def edited : CString := ⟨ascii "100%\nnone", by decide⟩

theorem both_ways : (∃ t, Converts convertToNewlines stored.bytes t ∧
      Converts convertFromNewlines t stored.bytes) ∧
    ∃ t, Converts convertFromNewlines edited.bytes t ∧ Converts convertToNewlines t edited.bytes := by
  obtain ⟨⟨t, hto, -, hback⟩, -⟩ := conversions_inverse stored
  obtain ⟨-, u, hfrom, -, hforth⟩ := conversions_inverse edited
  exact ⟨⟨t, hto, hback (by decide)⟩, u, hfrom, hforth (by decide)⟩

end Gftp.MultilineTexts
