import Gftp.FileSorting
import Gftp.ListWalks

/-!
Comparison of the two windows. _do_compare_windows looks for the rows of one window among the
files of the other, and selects the rows for which it finds none. The rows it does this for are
the ones that are not shown, and at a file of the other window that is not shown it does not go
on to the next one.
-/

namespace Gftp.CompareWindows

open ByteStrings Fuel ListWalks FileSorting
open DirectoryReads (sIsdir)

/-- A file of a window. -/
structure WindowFile where
  fle : ListedFile
  shown : Bool
  wasSel : Bool

/-- add_file_listbox: the file with its flags, and whether a row is appended for it. -/
def addFileListbox (showSelected : Bool) (matchesFilespec : Bytes → Bool) (fle : WindowFile) :
    WindowFile × Bool :=
  if showSelected then
    if fle.wasSel then ({ fle with shown := true, wasSel := false }, true)
    else ({ fle with shown := false }, false)
  else if matchesFilespec fle.fle.file then ({ fle with shown := true, wasSel := false }, true)
  else ({ fle with shown := false, wasSel := false }, false)

/-- update_window_listbox: the files of the window, and its rows. -/
def updateWindowListbox (showSelected : Bool) (matchesFilespec : Bytes → Bool)
    (files : List WindowFile) : List WindowFile × List WindowFile :=
  let added := files.map (addFileListbox showSelected matchesFilespec)
  (added.map Prod.fst, (added.filter Prod.snd).map Prod.fst)

/-- The test of the inner loop. -/
def sameEntry (curfle otherfle : WindowFile) : Bool :=
  let curdir := sIsdir curfle.fle.stMode
  let othdir := sIsdir otherfle.fle.stMode
  otherfle.fle.file == curfle.fle.file && curdir == othdir &&
    (curdir || otherfle.fle.size == curfle.fle.size)

/-- A round of the inner loop; the list is moved on only behind a shown file. -/
def lookAt (curfle otherfle : WindowFile) : Turn Unit :=
  if otherfle.shown then if sameEntry curfle otherfle then .stop else .next [] else .again

/-- What is left of the other list. -/
def findOther (curfle : WindowFile) (fuel : ℕ) (otherlist : List WindowFile) :
    CRun (List WindowFile) := do
  let (_, otherlist) ← walk (lookAt curfle) fuel otherlist
  return otherlist

/-- Whether a row is selected. -/
def compareRow (others : List WindowFile) (fuel : ℕ) (curfle : WindowFile) : CRun Bool :=
  if !curfle.shown then do
    let otherlist ← findOther curfle fuel others
    return otherlist.isEmpty
  else .ok false

/-- _do_compare_windows: for each row whether it is selected. -/
def doCompareWindows (others : List WindowFile) (fuel : ℕ) : List WindowFile → CRun (List Bool)
  | [] => .ok []
  | curfle :: rows => do
      let selected ← compareRow others fuel curfle
      let rest ← doCompareWindows others fuel rows
      return selected :: rest

/-- The rows that a comparison is to select: a shown one without a shown counterpart. -/
def unmatched (others : List WindowFile) (curfle : WindowFile) : Bool :=
  curfle.shown && !(others.any fun otherfle => otherfle.shown && sameEntry curfle otherfle)

/-- The comparison comes to its end and selects these rows. -/
def Compared (rows others : List WindowFile) : Prop :=
  Ends (fun fuel => doCompareWindows others fuel rows) (rows.map (unmatched others))

/-- The row has a shown counterpart; when it is not shown, no hidden file stands in front of that. -/
def Counterpart (others : List WindowFile) (curfle : WindowFile) : Prop :=
  ∃ front otherfle behind, others = front ++ otherfle :: behind ∧ otherfle.shown = true ∧
    sameEntry curfle otherfle = true ∧ (curfle.shown = false → ∀ f ∈ front, f.shown = true)

section Rows

variable {rows others front : List WindowFile} {f : WindowFile} {selected : Bool}

/-- The inner loop ends at a counterpart when one stands in front of the first hidden file. -/
theorem found_iff (f : WindowFile) (others : List WindowFile) :
    (∃ outs rest, outcome (lookAt f) others = some (outs, rest) ∧ rest.isEmpty = false) ↔
      ∃ front o behind, others = front ++ o :: behind ∧ o.shown = true ∧ sameEntry f o = true ∧
        ∀ x ∈ front, x.shown = true := by
  induction others with
  | nil =>
    constructor
    · rintro ⟨outs, rest, hout, hrest⟩
      obtain ⟨-, rfl⟩ := Prod.mk.inj (Option.some.inj hout)
      cases hrest
    · rintro ⟨front, o, behind, heq, -⟩
      exact absurd heq.symm (List.append_ne_nil_of_right_ne_nil _ (List.cons_ne_nil _ _))
  | cons x xs ih =>
    rw [outcome, lookAt]
    by_cases hshown : x.shown = true
    · by_cases hsame : sameEntry f x = true
      · simp only [hshown, hsame, if_true]
        refine iff_of_true ⟨[], x :: xs, rfl, rfl⟩ ⟨[], x, xs, rfl, hshown, hsame, ?_⟩
        exact List.forall_mem_nil _
      · simp only [hshown, hsame, if_true]
        have hskip : (∃ outs rest, (outcome (lookAt f) xs).map (fun r => ([] ++ r.1, r.2)) =
            some (outs, rest) ∧ rest.isEmpty = false) ↔
            ∃ outs rest, outcome (lookAt f) xs = some (outs, rest) ∧ rest.isEmpty = false := by
          simp
        refine hskip.trans (ih.trans ⟨?_, ?_⟩)
        · rintro ⟨front, o, behind, rfl, ho, hfo, hfront⟩
          exact ⟨x :: front, o, behind, rfl, ho, hfo, List.forall_mem_cons.mpr ⟨hshown, hfront⟩⟩
        · rintro ⟨front, o, behind, heq, ho, hfo, hfront⟩
          cases front with
          | nil =>
            obtain ⟨rfl, -⟩ := List.cons.inj heq
            exact absurd hfo hsame
          | cons y front =>
            obtain ⟨rfl, rfl⟩ := List.cons.inj heq
            exact ⟨front, o, behind, rfl, ho, hfo, (List.forall_mem_cons.mp hfront).2⟩
    · simp only [hshown]
      refine iff_of_false (by simp) ?_
      rintro ⟨front, o, behind, heq, ho, -, hfront⟩
      cases front with
      | nil =>
        obtain ⟨rfl, -⟩ := List.cons.inj heq
        exact hshown ho
      | cons y front =>
        obtain ⟨rfl, rfl⟩ := List.cons.inj heq
        exact hshown (List.forall_mem_cons.mp hfront).1

theorem hidden_row (h : f.shown = false) (fuel : ℕ) :
    compareRow others fuel f =
      walk (lookAt f) fuel others >>= fun r => .ok r.2.isEmpty := by
  rw [compareRow, h]
  simp only [Bool.not_false, if_true, findOther, bind_assoc]
  rfl

theorem shown_row (h : f.shown = true) (fuel : ℕ) : compareRow others fuel f = .ok false := by
  rw [compareRow, h]
  rfl

theorem hidden_ends {outs : List Unit} {rest : List WindowFile} (h : f.shown = false)
    (hout : outcome (lookAt f) others = some (outs, rest)) :
    Ends (fun fuel => compareRow others fuel f) rest.isEmpty := by
  have hends : Ends (fun fuel => walk (lookAt f) fuel others >>= fun r => .ok r.2.isEmpty)
      rest.isEmpty := (walk_ends hout).bind (Ends.ok _)
  exact hends.congr (hidden_row h)

theorem compareRow_settles (others : List WindowFile) (f : WindowFile) :
    (∃ selected, Ends (fun fuel => compareRow others fuel f) selected) ∨
      ∀ fuel, compareRow others fuel f = .error .pending := by
  by_cases hshown : f.shown = true
  · exact .inl ⟨false, (Ends.ok false).congr (shown_row hshown)⟩
  · have hhidden : f.shown = false := Bool.eq_false_iff.mpr hshown
    cases hout : outcome (lookAt f) others with
    | none =>
      refine .inr fun fuel => ?_
      rw [hidden_row hhidden, walk_pending hout, CRun.error_bind]
    | some r => exact .inl ⟨r.2.isEmpty, hidden_ends hhidden hout⟩

theorem row_iff : Ends (fun fuel => compareRow others fuel f) (unmatched others f) ↔
    Counterpart others f := by
  by_cases hshown : f.shown = true
  · have hends : Ends (fun fuel => compareRow others fuel f) (unmatched others f) ↔
        unmatched others f = false :=
      ⟨fun h => h.unique ((Ends.ok false).congr (shown_row hshown)),
        fun h => h ▸ (Ends.ok false).congr (shown_row hshown)⟩
    refine hends.trans ?_
    simp only [unmatched, hshown, Bool.true_and, Bool.not_eq_false', List.any_eq_true,
      Bool.and_eq_true]
    constructor
    · rintro ⟨o, ho, hoshown, hsame⟩
      obtain ⟨front, behind, rfl⟩ := List.append_of_mem ho
      exact ⟨front, o, behind, rfl, hoshown, hsame, fun h => absurd (hshown.symm.trans h) (by decide)⟩
    · rintro ⟨front, o, behind, rfl, hoshown, hsame, -⟩
      exact ⟨o, by simp, hoshown, hsame⟩
  · have hhidden : f.shown = false := Bool.eq_false_iff.mpr hshown
    have hvalue : unmatched others f = false := by simp [unmatched, hhidden]
    have hcounter : Counterpart others f ↔ ∃ front o behind, others = front ++ o :: behind ∧
        o.shown = true ∧ sameEntry f o = true ∧ ∀ x ∈ front, x.shown = true := by
      simp only [Counterpart, hhidden, true_implies]
    rw [hvalue, hcounter, ← found_iff]
    constructor
    · intro h
      cases hout : outcome (lookAt f) others with
      | none =>
        refine absurd (fun fuel => ?_) h.not_pending
        rw [hidden_row hhidden, walk_pending hout, CRun.error_bind]
      | some r =>
        exact ⟨r.1, r.2, rfl, (hidden_ends hhidden hout).unique h⟩
    · rintro ⟨outs, rest, hout, hrest⟩
      rw [← hrest]
      exact hidden_ends hhidden hout

theorem compare_iff (g : WindowFile → Bool) :
    Ends (fun fuel => doCompareWindows others fuel rows) (rows.map g) ↔
      ∀ f ∈ rows, Ends (fun fuel => compareRow others fuel f) (g f) := by
  induction rows with
  | nil => exact iff_of_true (Ends.ok _) (List.forall_mem_nil _)
  | cons f rows ih =>
    rw [List.forall_mem_cons, ← ih]
    rcases compareRow_settles others f with ⟨selected, hrow⟩ | hpending
    · refine (Ends.bind_iff hrow).trans ⟨fun h => ?_, fun ⟨h, hrest⟩ => ?_⟩
      · obtain ⟨least, hleast⟩ := h
        have hrest : ∀ fuel, least ≤ fuel → selected = g f ∧
            doCompareWindows others fuel rows = .ok (rows.map g) := by
          intro fuel hfuel
          obtain ⟨bs, hbs, hcons⟩ := CRun.bind_eq_ok.mp (hleast fuel hfuel)
          obtain ⟨hhead, htail⟩ := List.cons.inj (Except.ok.inj hcons)
          exact ⟨hhead, htail ▸ hbs⟩
        exact ⟨(hrest least (Nat.le_refl least)).1 ▸ hrow, least, fun fuel hfuel => (hrest fuel hfuel).2⟩
      · obtain rfl := hrow.unique h
        exact hrest.bind (Ends.ok _)
    · have hall : ∀ fuel, doCompareWindows others fuel (f :: rows) = .error .pending := by
        intro fuel
        rw [doCompareWindows, hpending fuel, CRun.error_bind]
      refine iff_of_false (fun h => h.not_pending hall) fun h => h.1.not_pending hpending

theorem listbox_rows (showSelected : Bool) (matchesFilespec : Bytes → Bool)
    (files : List WindowFile) :
    (updateWindowListbox showSelected matchesFilespec files).2 =
      (updateWindowListbox showSelected matchesFilespec files).1.filter WindowFile.shown := by
  unfold updateWindowListbox
  induction files with
  | nil => rfl
  | cons f files ih =>
    have hflag : (addFileListbox showSelected matchesFilespec f).2 =
        (addFileListbox showSelected matchesFilespec f).1.shown := by
      unfold addFileListbox
      split_ifs <;> rfl
    simp only [List.map_cons, List.filter_cons, hflag]
    split_ifs
    · rw [List.map_cons]
      exact congrArg _ ih
    · exact ih

/-- On the rows of a window, which are all shown, the comparison selects nothing. -/
theorem compare_listbox (others : List WindowFile) (showSelected : Bool)
    (matchesFilespec : Bytes → Bool) (files : List WindowFile) :
    Ends (fun fuel => doCompareWindows others fuel
      (updateWindowListbox showSelected matchesFilespec files).2)
      ((updateWindowListbox showSelected matchesFilespec files).2.map fun _ => false) := by
  refine (compare_iff _).mpr fun f hf => (Ends.ok false).congr (shown_row ?_)
  rw [listbox_rows] at hf
  exact (List.mem_filter.mp hf).2

end Rows

/-- The comparison is right exactly when there is nothing to select. -/
theorem compare_windows_iff (rows others : List WindowFile) :
    Compared rows others ↔ ∀ f ∈ rows, Counterpart others f := by
  rw [Compared, compare_iff]
  exact forall₂_congr fun _ _ => row_iff

/-- A file that the other window does not have is not selected. -/
theorem missing_file_not_selected :
    ¬ Compared [⟨⟨⟨some (ascii "a"), some [], some [], 0, 0, 0⟩, by decide⟩, true, false⟩] [] := by
  intro h
  obtain ⟨front, o, behind, heq, -⟩ := row_iff.mp ((compare_iff _).mp h _ (List.mem_cons_self ..))
  exact absurd heq.symm (List.append_ne_nil_of_right_ne_nil _ (List.cons_ne_nil _ _))

end Gftp.CompareWindows
