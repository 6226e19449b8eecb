import Gftp.Fuel
import Gftp.LinkedLists
import Gftp.Runs
import Mathlib.Tactic.Tauto

/-!
The two cursors in the list of files of a transfer that is shown. curfle is the file of the
thread, updfle the first one that on_next_transfer has not dealt with. Files can be moved in
the list; before the thread has started nothing keeps the file that the cursors stand at from
being moved, and the thread starts at the head of the list. When the cursors are there
still, updfle never gets ahead of curfle.
-/

namespace Gftp.UpdateCursor

open ByteStrings LinkedLists Runs

variable {α : Type} [DecidableEq α]

/-- The fields of a shown transfer that the moves and the cursors use; rows are the nodes that
the window has rows for. running says that the thread has set curfle, and passed are the
files it has passed. -/
structure Shown (α : Type) where
  rows : List α
  links : Links α
  files : Option α
  curfle : Option α
  updfle : Option α
  started : Bool
  running : Bool
  nextFile : Bool
  passed : List α

/-- A transfer after show_transfer. -/
def Shown.start (rows : List α) : Shown α where
  rows := rows
  links := Links.linkAll ⟨fun _ => none, fun _ => none⟩ none rows
  files := rows.head?
  curfle := rows.head?
  updfle := rows.head?
  started := false
  running := false
  nextFile := false
  passed := []

/-- The assignments of both moves, which put x in front of y. No pointer is read behind the
first assignment; x is the head of the list when nothing stood in front of y. -/
def exchange (x y : α) (firstentry lastentry : Option α) (s : Shown α) : Shown α :=
  { s with
    files := if firstentry = none then some x else s.files
    links := s.links.relink firstentry x y lastentry }

/-- move_transfer_up on the node of a row. -/
def moveTransferUp (curfle : α) (s : Shown α) : Shown α :=
  match s.links.prev curfle with
  | none => s
  | some prev =>
      if s.started = false ∨ s.curfle ≠ some curfle ∧ s.curfle ≠ some prev then
        exchange curfle prev (s.links.prev prev) (s.links.next curfle) s
      else s

/-- move_transfer_down on the node of a row. -/
def moveTransferDown (curfle : α) (s : Shown α) : Shown α :=
  match s.links.next curfle with
  | none => s
  | some next =>
      if s.started = false ∨ s.curfle ≠ some curfle ∧ s.curfle ≠ some next then
        exchange next curfle (s.links.prev curfle) (s.links.next next) s
      else s

/-- The loop of on_next_transfer, with the files it deals with. A file is read through a NULL
pointer when the loop gets to the end of the list without having met curfle. -/
def finalise (next : α → Option α) (curfle : Option α) : ℕ → Option α → CRun (List α)
  | 0, _ => .error .pending
  | fuel + 1, updfle =>
      if updfle = curfle then .ok []
      else
        match updfle with
        | none => .error .fault
        | some x => do
            let xs ← finalise next curfle fuel (next x)
            return x :: xs

/-- create_transfer sets started, and the thread begins later. A file is completed in
_gftpui_common_next_file_in_trans, or passed over in gftp_get_transfer_status. -/
inductive CursorAction (α : Type)
  | moveUp (x : α)
  | moveDown (x : α)
  | create
  | begin
  | complete
  | onNextTransfer

inductive CursorStep : Shown α → CursorAction α → Shown α → Prop
  | moveUp {s : Shown α} {x : α} (hrow : x ∈ s.rows) : CursorStep s (.moveUp x) (moveTransferUp x s)
  | moveDown {s : Shown α} {x : α} (hrow : x ∈ s.rows) :
      CursorStep s (.moveDown x) (moveTransferDown x s)
  | create {s : Shown α} (hwaits : s.started = false) :
      CursorStep s .create { s with started := true }
  | begin {s : Shown α} (hstarted : s.started = true) (hwaits : s.running = false) :
      CursorStep s .begin { s with running := true, curfle := s.files }
  | complete {s : Shown α} {x : α} (hruns : s.running = true) (hcur : s.curfle = some x) :
      CursorStep s .complete
        { s with curfle := s.links.next x, nextFile := true, passed := x :: s.passed }
  | onNextTransfer {s : Shown α} {fuel : ℕ} {xs : List α} (hnext : s.nextFile = true)
      (hloop : finalise s.links.next s.curfle fuel s.updfle = .ok xs) :
      CursorStep s .onNextTransfer { s with nextFile := false, updfle := s.curfle }

/-- In the list, u stands where c does or in front of it; NULL stands behind the last file. -/
def AtOrBefore (l : List α) (u c : Option α) : Prop :=
  ∃ front between behind, l = front ++ between ++ behind ∧ u = (between ++ behind).head? ∧
    c = behind.head?

/-- updfle is never ahead of curfle in the list of the transfer, and the loop of
on_next_transfer comes to its end and deals with files that the thread has passed. -/
def CursorLaw (s : Shown α) : Prop :=
  ∃ l, Linked s.links none l none ∧ s.files = l.head? ∧ AtOrBefore l s.updfle s.curfle ∧
    ∃ xs, (∀ x ∈ xs, x ∈ s.passed) ∧
      ∀ fuel, l.length < fuel → finalise s.links.next s.curfle fuel s.updfle = .ok xs

/-- The thread begins while updfle is the first file. -/
def CursorFit (s : Shown α) : CursorAction α → Prop
  | .begin => s.updfle = s.files
  | _ => True

/-- The list of the transfer. -/
structure Listed (s : Shown α) (l : List α) : Prop where
  linked : Linked s.links none l none
  nodup : l.Nodup
  files : s.files = l.head?
  rows : ∀ x ∈ s.rows, x ∈ l

section Moves

variable {s : Shown α} {l a b : List α} {x y : α}

theorem Shown.start_listed (h : l.Nodup) : Listed (Shown.start l) l :=
  ⟨linked_linkAll h, h, rfl, fun _ hx => hx⟩

/-- What both moves do: two neighbours of the list l are exchanged, neither of them curfle when
the transfer was started. -/
inductive Moved (s : Shown α) (l : List α) : Shown α → List α → Prop
  | swap {a b : List α} {x y : α} (hl : l = a ++ y :: x :: b)
      (hguard : s.started = true → s.curfle ≠ some x ∧ s.curfle ≠ some y) :
      Moved s l (exchange x y a.getLast? b.head? s) (a ++ x :: y :: b)

theorem Listed.up_exchanges (h : Listed s l) (hx : x ∈ l) : moveTransferUp x s = s ∨
    ∃ a y b, l = a ++ y :: x :: b ∧ (s.started = true → s.curfle ≠ some x ∧ s.curfle ≠ some y) ∧
      moveTransferUp x s = exchange x y a.getLast? b.head? s := by
  obtain ⟨front, b, rfl⟩ := List.append_of_mem hx
  obtain ⟨hprev, hnext⟩ := h.linked.neighbours
  rw [Option.or_none] at hprev hnext
  unfold moveTransferUp
  cases hlast : front.getLast? with
  | none =>
    rw [hlast] at hprev
    rw [hprev]
    exact .inl rfl
  | some y =>
    obtain ⟨a, rfl⟩ := List.getLast?_eq_some_iff.mp hlast
    rw [hlast] at hprev
    rw [hprev]
    simp only
    split
    · rename_i hguard
      have hl : a ++ [y] ++ x :: b = a ++ y :: x :: b := by simp
      have hprev' : s.links.prev y = a.getLast? := by
        have hlinked := h.linked
        rw [hl] at hlinked
        simpa using hlinked.neighbours.1
      rw [hprev', hnext]
      exact .inr ⟨a, y, b, hl, fun hstarted => hguard.resolve_left (by simp [hstarted]), rfl⟩
    · exact .inl rfl

theorem Listed.down_exchanges (h : Listed s l) (hx : x ∈ l) : moveTransferDown x s = s ∨
    ∃ a y b, l = a ++ x :: y :: b ∧ (s.started = true → s.curfle ≠ some x ∧ s.curfle ≠ some y) ∧
      moveTransferDown x s = exchange y x a.getLast? b.head? s := by
  obtain ⟨a, behind, rfl⟩ := List.append_of_mem hx
  obtain ⟨hprev, hnext⟩ := h.linked.neighbours
  rw [Option.or_none] at hprev hnext
  unfold moveTransferDown
  cases behind with
  | nil =>
    rw [hnext]
    exact .inl rfl
  | cons y b =>
    rw [hnext]
    simp only [List.head?_cons]
    split
    · rename_i hguard
      have hnext' : s.links.next y = b.head? := by
        have hlinked := h.linked
        rw [show a ++ x :: y :: b = a ++ [x] ++ y :: b by simp] at hlinked
        simpa using hlinked.neighbours.2
      rw [hprev, hnext']
      exact .inr ⟨a, y, b, rfl, fun hstarted => hguard.resolve_left (by simp [hstarted]), rfl⟩
    · exact .inl rfl

theorem Listed.move_up (h : Listed s l) (hx : x ∈ l) :
    moveTransferUp x s = s ∨ ∃ l', Moved s l (moveTransferUp x s) l' := by
  rcases h.up_exchanges hx with hsame | ⟨a, y, b, hl, hguard, hmoved⟩
  · exact .inl hsame
  · rw [hmoved]
    exact .inr ⟨_, .swap hl hguard⟩

theorem Listed.move_down (h : Listed s l) (hx : x ∈ l) :
    moveTransferDown x s = s ∨ ∃ l', Moved s l (moveTransferDown x s) l' := by
  rcases h.down_exchanges hx with hsame | ⟨a, y, b, hl, hguard, hmoved⟩
  · exact .inl hsame
  · rw [hmoved]
    exact .inr ⟨_, .swap hl fun hstarted => (hguard hstarted).symm⟩

/-- The list with the neighbours exchanged is that of the transfer behind the move. -/
theorem Moved.listed {s' : Shown α} {l' : List α} (hmoved : Moved s l s' l') (h : Listed s l) :
    Listed s' l' := by
  cases hmoved with
  | swap hl hguard =>
    rename_i a b x y
    subst hl
    have hperm : (a ++ x :: y :: b).Perm (a ++ y :: x :: b) := (List.Perm.swap y x b).append_left a
    have hout : ∀ z ∈ a, z ≠ x ∧ z ≠ y := by
      intro z hz
      have hdisjoint := (List.nodup_append.mp h.nodup).2.2 z hz
      exact ⟨hdisjoint x (by simp), hdisjoint y (by simp)⟩
    have hnodup := (List.nodup_append.mp h.nodup).2.1
    simp only [List.nodup_cons, List.mem_cons, not_or] at hnodup
    obtain ⟨⟨hyx, hyb⟩, hxb, -⟩ := hnodup
    have hexchanged : Exchanged s.links (exchange x y a.getLast? b.head? s).links a.getLast? x y
        b.head? := by
      refine exchanged_relink (Ne.symm hyx) ⟨fun heq => ?_, fun heq => ?_⟩ ⟨fun heq => ?_, fun heq => ?_⟩
      · exact (hout x (List.mem_of_getLast? heq)).1 rfl
      · exact (hout y (List.mem_of_getLast? heq)).2 rfl
      · exact hxb (List.mem_of_head? heq)
      · exact hyb (List.mem_of_head? heq)
    refine ⟨h.linked.swap h.nodup hexchanged, hperm.nodup_iff.mpr h.nodup, ?_, fun z hz => ?_⟩
    · cases a with
      | nil => rfl
      | cons w ws =>
        have hsome : (w :: ws).getLast? ≠ none := by simp
        show (if (w :: ws).getLast? = none then some x else s.files) = some w
        rw [if_neg hsome]
        exact h.files
    · exact hperm.mem_iff.mpr (h.rows z hz)

end Moves

/-- Where the cursors are. Before the thread has begun both are at one file; then the files in
front of curfle have been passed, and updfle is one of them or stands where curfle does. -/
structure Placed (s : Shown α) (l : List α) : Prop where
  waiting : s.running = false →
    s.updfle = s.curfle ∧ (s.curfle = none → l = []) ∧ ∀ x, s.curfle = some x → x ∈ l
  started : s.running = true → s.started = true
  running : s.running = true → ∃ done rest, l = done ++ rest ∧ s.curfle = rest.head? ∧
    (s.updfle = s.curfle ∨ ∃ u ∈ done, s.updfle = some u) ∧ ∀ z ∈ done, z ∈ s.passed

def CursorInv (s : Shown α) : Prop := ∃ l, Listed s l ∧ Placed s l

section Cursors

variable {s s' : Shown α} {l : List α}

/-- The loop goes from updfle to curfle, through the files between them. -/
theorem finalise_between {k : Links α} {front between behind : List α}
    (hlinked : Linked k none (front ++ (between ++ behind)) none)
    (hnodup : (front ++ (between ++ behind)).Nodup) {fuel : ℕ} (hfuel : between.length < fuel) :
    finalise k.next behind.head? fuel (between ++ behind).head? = .ok between := by
  induction between generalizing front fuel with
  | nil =>
    obtain ⟨fuel, rfl⟩ := Nat.exists_eq_add_of_lt hfuel
    exact if_pos rfl
  | cons x xs ih =>
    cases fuel with
    | zero => exact absurd hfuel (Nat.not_lt_zero _)
    | succ fuel =>
      have hx : some x ≠ behind.head? := by
        intro heq
        have hnodup := (List.nodup_append.mp hnodup).2.1
        rw [List.cons_append] at hnodup
        exact (List.nodup_cons.mp hnodup).1 (List.mem_append_right xs (List.mem_of_head? heq.symm))
      have hnext : k.next x = (xs ++ behind).head? := by
        rw [List.cons_append] at hlinked
        rw [hlinked.neighbours.2, Option.or_none]
      have happend : front ++ (x :: xs ++ behind) = front ++ [x] ++ (xs ++ behind) := by simp
      rw [happend] at hlinked hnodup
      have hshort : xs.length < fuel := by simpa using hfuel
      have hrest := ih hlinked hnodup hshort
      rw [List.cons_append, List.head?_cons, finalise, if_neg hx]
      simp only [hnext, hrest]
      rfl

omit [DecidableEq α] in
theorem Placed.between (h : Placed s l) : ∃ front between behind,
    l = front ++ (between ++ behind) ∧ s.updfle = (between ++ behind).head? ∧
      s.curfle = behind.head? ∧ ∀ z ∈ between, z ∈ s.passed := by
  cases hrun : s.running with
  | false =>
    obtain ⟨hsame, hnone, hmem⟩ := h.waiting hrun
    cases hcur : s.curfle with
    | none => exact ⟨[], [], [], hnone hcur, hsame.trans hcur, rfl, by simp⟩
    | some x =>
      obtain ⟨front, behind, rfl⟩ := List.append_of_mem (hmem x hcur)
      exact ⟨front, [], x :: behind, rfl, hsame.trans hcur, rfl, by simp⟩
  | true =>
    obtain ⟨done, rest, rfl, hcur, hplace, hpassed⟩ := h.running hrun
    rcases hplace with hsame | ⟨u, hu, hupd⟩
    · exact ⟨done, [], rest, rfl, hsame.trans hcur, hcur, by simp⟩
    · obtain ⟨front, between, rfl⟩ := List.append_of_mem hu
      refine ⟨front, u :: between, rest, by simp, hupd, hcur, fun z hz => hpassed z ?_⟩
      exact List.mem_append_right front hz

theorem CursorInv.law (h : CursorInv s) : CursorLaw s := by
  obtain ⟨l, hlisted, hplaced⟩ := h
  obtain ⟨front, between, behind, rfl, hupd, hcur, hpassed⟩ := hplaced.between
  refine ⟨_, hlisted.linked, hlisted.files, ⟨front, between, behind, by simp, hupd, hcur⟩, between,
    hpassed, fun fuel hfuel => ?_⟩
  rw [hupd, hcur]
  refine finalise_between hlisted.linked hlisted.nodup (Nat.lt_of_le_of_lt ?_ hfuel)
  simp only [List.length_append]
  omega

/-- A move leaves the files in front of curfle there. -/
theorem Moved.placed {l' : List α} (hmoved : Moved s l s' l') (h : Placed s l) : Placed s' l' := by
  cases hmoved with
  | swap hl hguard =>
    rename_i a b x y
    have hmem : ∀ {z}, z ∈ l → z ∈ a ++ x :: y :: b := by
      intro z hz
      rw [hl] at hz
      simp only [List.mem_append, List.mem_cons] at hz ⊢
      tauto
    refine ⟨fun hrun => ?_, h.started, fun hrun => ?_⟩
    · obtain ⟨hsame, hnone, hcur⟩ := h.waiting hrun
      refine ⟨hsame, fun hc => ?_, fun z hz => hmem (hcur z hz)⟩
      exact absurd (hl.symm.trans (hnone hc)) (by simp)
    · obtain ⟨hx, hy⟩ := hguard (h.started hrun)
      obtain ⟨done, rest, hsplit, hcur, hplace, hpassed⟩ := h.running hrun
      rw [hcur] at hx hy
      rcases List.append_eq_append_iff.mp (hl.symm.trans hsplit) with
        ⟨c, hdone, hrest⟩ | ⟨c, hfront, hrest⟩
      · -- both neighbours stand in front of curfle
        obtain ⟨c, rfl⟩ : ∃ d, c = y :: x :: d := by
          match c, hrest with
          | [], hrest => exact absurd (congrArg List.head? hrest).symm hy
          | [z], hrest =>
            obtain ⟨-, hrest⟩ := List.cons.inj hrest
            exact absurd (congrArg List.head? hrest).symm hx
          | z :: w :: d, hrest =>
            obtain ⟨hy, hrest⟩ := List.cons.inj hrest
            obtain ⟨hx, -⟩ := List.cons.inj hrest
            exact ⟨d, by rw [hy, hx]⟩
        have hb : b = c ++ rest := by simpa using hrest
        have hdone' : ∀ {z}, z ∈ done ↔ z ∈ a ++ x :: y :: c := by
          intro z
          rw [hdone]
          simp only [List.mem_append, List.mem_cons]
          tauto
        refine ⟨a ++ x :: y :: c, rest, by simp [hb], hcur, hplace.imp id ?_, fun z hz => ?_⟩
        · exact fun ⟨u, hu, hupd⟩ => ⟨u, hdone'.mp hu, hupd⟩
        · exact hpassed z (hdone'.mpr hz)
      · -- both stand behind it
        subst hfront hrest
        cases c with
        | nil => exact absurd rfl hy
        | cons w ws => exact ⟨done, w :: ws ++ x :: y :: b, by simp, hcur, hplace, hpassed⟩

theorem CursorInv.step {action : CursorAction α} (hstep : CursorStep s action s')
    (hfit : CursorFit s action) (h : CursorInv s) : CursorInv s' := by
  obtain ⟨l, hlisted, hplaced⟩ := h
  cases hstep with
  | moveUp hrow =>
    rcases hlisted.move_up (hlisted.rows _ hrow) with hsame | ⟨l', hmoved⟩
    · rw [hsame]
      exact ⟨l, hlisted, hplaced⟩
    · exact ⟨l', hmoved.listed hlisted, hmoved.placed hplaced⟩
  | moveDown hrow =>
    rcases hlisted.move_down (hlisted.rows _ hrow) with hsame | ⟨l', hmoved⟩
    · rw [hsame]
      exact ⟨l, hlisted, hplaced⟩
    · exact ⟨l', hmoved.listed hlisted, hmoved.placed hplaced⟩
  | create hwaits =>
    refine ⟨l, ⟨hlisted.linked, hlisted.nodup, hlisted.files, hlisted.rows⟩, ?_⟩
    exact ⟨hplaced.waiting, fun _ => rfl, hplaced.running⟩
  | begin hstarted hwaits =>
    refine ⟨l, ⟨hlisted.linked, hlisted.nodup, hlisted.files, hlisted.rows⟩, ?_⟩
    refine ⟨nofun, fun _ => hstarted, fun _ => ?_⟩
    exact ⟨[], l, rfl, hlisted.files, .inl hfit, by simp⟩
  | complete hruns hcur =>
    rename_i x
    obtain ⟨done, rest, rfl, hrest, hplace, hpassed⟩ := hplaced.running hruns
    have hhead : rest.head? = some x := hrest.symm.trans hcur
    cases rest with
    | nil => cases hhead
    | cons z rest =>
      obtain rfl : z = x := Option.some.inj hhead
      refine ⟨_, ⟨hlisted.linked, hlisted.nodup, hlisted.files, hlisted.rows⟩, ?_⟩
      refine ⟨fun hrun => absurd (hruns.symm.trans hrun) (by decide), hplaced.started, fun _ => ?_⟩
      refine ⟨done ++ [z], rest, by simp, ?_, .inr ?_, fun w hw => ?_⟩
      · exact hlisted.linked.neighbours.2.trans (Option.or_none ..)
      · rcases hplace with hsame | ⟨u, hu, hupd⟩
        · exact ⟨z, by simp, hsame.trans hcur⟩
        · exact ⟨u, by simp [hu], hupd⟩
      · rcases List.mem_append.mp hw with hold | hnew
        · exact List.mem_cons_of_mem _ (hpassed w hold)
        · exact List.mem_singleton.mp hnew ▸ List.mem_cons_self ..
  | onNextTransfer hnext hloop =>
    refine ⟨l, ⟨hlisted.linked, hlisted.nodup, hlisted.files, hlisted.rows⟩, ?_⟩
    refine ⟨fun hrun => ⟨rfl, (hplaced.waiting hrun).2⟩, hplaced.started, fun hrun => ?_⟩
    obtain ⟨done, rest, hsplit, hcur, -, hpassed⟩ := hplaced.running hrun
    exact ⟨done, rest, hsplit, hcur, .inl rfl, hpassed⟩

end Cursors

section Runs

/-- In a run in which the thread begins at the file that updfle stands at, updfle is never
ahead of curfle, and on_next_transfer deals with files passed. -/
theorem update_cursor_behind {rows : List α} (hrows : rows.Nodup) {s : Shown α}
    (hrun : Reaches CursorStep CursorFit (.start rows) s) : CursorLaw s := by
  have hinit : CursorInv (Shown.start rows) := by
    refine ⟨rows, Shown.start_listed hrows, fun _ => ⟨rfl, ?_, ?_⟩, nofun, nofun⟩
    · exact List.head?_eq_none_iff.mp
    · exact fun x hx => List.mem_of_head? hx
  have hinv : CursorInv s := hrun.invariant CursorInv hinit (fun _ _ _ h hfit hstep => h.step hstep hfit)
  exact hinv.law

/-- Files that wait are moved before and after the start, and one is passed. -/
theorem moved_behind_cursor : ∃ s : Shown ℕ,
    Reaches CursorStep CursorFit (.start [0, 1, 2, 3]) s ∧ s.updfle = some 0 ∧
      s.curfle = some 2 ∧ CursorLaw s := by
  have hrun : Reaches CursorStep CursorFit (.start [0, 1, 2, 3]) _ :=
    (Reaches.refl _).tail (a := .moveDown 1) trivial (.moveDown (by decide))
      |>.tail (a := .create) trivial (.create rfl)
      |>.tail (a := .begin) (by rfl) (.begin rfl rfl)
      |>.tail (a := .moveUp 3) trivial (.moveUp (by decide))
      |>.tail (a := .complete) trivial (.complete rfl rfl)
  exact ⟨_, hrun, rfl, rfl, update_cursor_behind (by decide) hrun⟩

/-- The first file is moved to the end before the thread starts at the new head of the list.
When a file has been passed, on_next_transfer goes on from the last one. -/
theorem first_file_moved_away :
    ¬ ∀ (rows : List ℕ) (s : Shown ℕ), rows.Nodup →
      Reaches CursorStep (fun _ _ => True) (.start rows) s → CursorLaw s := by
  intro h
  have hrun : Reaches CursorStep (fun _ _ => True) (Shown.start [0, 1, 2]) _ :=
    (Reaches.refl _).tail (a := .moveDown 0) trivial (.moveDown (by decide))
      |>.tail (a := .moveDown 0) trivial (.moveDown (by decide))
      |>.tail (a := .create) trivial (.create rfl)
      |>.tail (a := .begin) trivial (.begin rfl rfl)
      |>.tail (a := .complete) trivial (.complete rfl rfl)
  obtain ⟨l, -, -, -, xs, -, hloop⟩ := h _ _ (by decide) hrun
  have hfault : (.error .fault : CRun (List ℕ)) = .ok xs := hloop (l.length + 4) (by omega)
  cases hfault

end Runs

end Gftp.UpdateCursor
