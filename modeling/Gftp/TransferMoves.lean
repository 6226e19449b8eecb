import Gftp.UpdateCursor

/-!
The two moves in the list of files of a transfer, with the assignments of each branch: the file is
the second or the first of the list, so that the head changes, or it stands further behind. The
list stays linked, and nothing moves past the file that a started transfer is at.
-/

namespace Gftp.TransferMoves

open LinkedLists UpdateCursor

variable {α : Type}

/-- The fields of a gftp_transfer that the moves use. -/
structure TransferFiles (α : Type) where
  links : Links α
  files : Option α
  curfle : Option α
  started : Bool

section Source

variable [DecidableEq α]

/-- The test in front of a move; neighbour is curfle->prev or curfle->next. -/
def mayPass (t : TransferFiles α) (curfle : α) (neighbour : Option α) : Prop :=
  neighbour ≠ none ∧ (t.started = false ∨ t.curfle ≠ some curfle ∧ t.curfle ≠ neighbour)

instance (t : TransferFiles α) (curfle : α) (neighbour : Option α) :
    Decidable (mayPass t curfle neighbour) := inferInstanceAs (Decidable (_ ∧ _))

/-- The assignments of move_transfer_up behind the test; prev is curfle->prev. -/
def raise (curfle prev : α) (t : TransferFiles α) : TransferFiles α :=
  match t.links.prev prev with
  | none =>
      let firstentry := prev
      let lastentry := t.links.next curfle
      let links := t.links.setNext curfle (some firstentry)
      let links := links.setPrev curfle none
      let links := links.setPrev firstentry (some curfle)
      let links := links.setNext firstentry lastentry
      { t with files := some curfle, links := links.setPrev? lastentry (some firstentry) }
  | some firstentry =>
      let secentry := prev
      let lastentry := t.links.next curfle
      let links := t.links.setNext firstentry (some curfle)
      let links := links.setPrev curfle (some firstentry)
      let links := links.setNext curfle (some secentry)
      let links := links.setPrev secentry (some curfle)
      let links := links.setNext secentry lastentry
      { t with links := links.setPrev? lastentry (some secentry) }

/-- The assignments of move_transfer_down behind the test; next is curfle->next. -/
def lower (curfle next : α) (t : TransferFiles α) : TransferFiles α :=
  match t.links.prev curfle with
  | none =>
      let firstentry := next
      let lastentry := t.links.next next
      let links := t.links.setPrev firstentry none
      let links := links.setNext firstentry (some curfle)
      let links := links.setPrev curfle (some firstentry)
      let links := links.setNext curfle lastentry
      { t with files := some firstentry, links := links.setPrev? lastentry (some curfle) }
  | some firstentry =>
      let secentry := next
      let lastentry := t.links.next next
      let links := t.links.setNext firstentry (some secentry)
      let links := links.setPrev secentry (some firstentry)
      let links := links.setNext secentry (some curfle)
      let links := links.setPrev curfle (some secentry)
      let links := links.setNext curfle lastentry
      { t with links := links.setPrev? lastentry (some curfle) }

/-- move_transfer_up. -/
def moveTransferUp (curfle : α) (t : TransferFiles α) : TransferFiles α :=
  if mayPass t curfle (t.links.prev curfle) then
    (t.links.prev curfle).elim t fun prev => raise curfle prev t
  else t

/-- move_transfer_down. -/
def moveTransferDown (curfle : α) (t : TransferFiles α) : TransferFiles α :=
  if mayPass t curfle (t.links.next curfle) then
    (t.links.next curfle).elim t fun next => lower curfle next t
  else t

end Source

/-- The files of the transfer are the list l, in both directions. -/
structure WellFormed (t : TransferFiles α) (l : List α) : Prop where
  linked : Linked t.links none l none
  nodup : l.Nodup
  files : t.files = l.head?

/-- The file c has kept its place, and none has come past it. -/
def Kept (l l' : List α) (c : α) : Prop :=
  ∀ front behind, l = front ++ c :: behind →
    ∃ front' behind', l' = front' ++ c :: behind' ∧ front'.length = front.length ∧
      front'.Perm front ∧ behind'.Perm behind

/-- The files of t are the list l, and those of t' a list that is l or swapped; when t was started,
its current file is kept. -/
def Reorders (swapped : List α → Prop) (t : TransferFiles α) (l : List α) (t' : TransferFiles α) :
    Prop :=
  ∃ l', WellFormed t' l' ∧ (l' = l ∨ swapped l') ∧ t'.curfle = t.curfle ∧ t'.started = t.started ∧
    (t.started = true → ∀ c, t.curfle = some c → Kept l l' c)

section Moves

variable {t : TransferFiles α} {l a b : List α} {x y c : α}

/-- The transfer for the list that is shown, without its rows. -/
def TransferFiles.shown (t : TransferFiles α) : Shown α where
  rows := []
  links := t.links
  files := t.files
  curfle := t.curfle
  updfle := none
  started := t.started
  running := false
  nextFile := false
  passed := []

theorem shown_inj {t t' : TransferFiles α} (h : t.shown = t'.shown) : t = t' := by
  obtain ⟨links, files, curfle, started⟩ := t
  obtain ⟨links', files', curfle', started'⟩ := t'
  simp only [TransferFiles.shown, Shown.mk.injEq] at h
  obtain ⟨-, rfl, rfl, rfl, -, rfl, -⟩ := h
  rfl

theorem WellFormed.listed (h : WellFormed t l) : Listed t.shown l :=
  ⟨h.linked, h.nodup, h.files, List.forall_mem_nil _⟩

theorem Kept.refl (l : List α) (c : α) : Kept l l c := fun front behind h =>
  ⟨front, behind, h, rfl, List.Perm.refl _, List.Perm.refl _⟩

/-- Two files that are exchanged stand both in front of a third one or both behind it. -/
theorem kept_of_exchange (hx : c ≠ x) (hy : c ≠ y) :
    Kept (a ++ x :: y :: b) (a ++ y :: x :: b) c := by
  intro front behind h
  rcases List.append_eq_append_iff.mp h with ⟨between, rfl, hbetween⟩ | ⟨between, rfl, hbetween⟩
  · -- the files that are exchanged stand in front
    rcases between with _ | ⟨z, _ | ⟨w, between⟩⟩
    · exact absurd (List.cons.inj hbetween).1.symm hx
    · obtain ⟨-, hrest⟩ := List.cons.inj hbetween
      exact absurd (List.cons.inj hrest).1.symm hy
    · obtain ⟨rfl, hrest⟩ := List.cons.inj hbetween
      obtain ⟨rfl, rfl⟩ := List.cons.inj hrest
      refine ⟨a ++ y :: x :: between, behind, by simp, by simp, ?_, List.Perm.refl _⟩
      exact (List.Perm.swap x y between).append_left a
  · cases between with
    | nil => exact absurd (List.cons.inj hbetween).1 hx
    | cons z between =>
      obtain ⟨rfl, rfl⟩ := List.cons.inj hbetween
      refine ⟨front, between ++ y :: x :: b, by simp, rfl, List.Perm.refl _, ?_⟩
      exact (List.Perm.swap x y b).append_left between

theorem reorders_refl {swapped : List α → Prop} (h : WellFormed t l) : Reorders swapped t l t :=
  ⟨l, h, .inl rfl, rfl, rfl, fun _ c _ => Kept.refl l c⟩

variable [DecidableEq α]

/-- Both branches put the file in front of the one before it. -/
theorem raise_shown (x y : α) (t : TransferFiles α) :
    (raise x y t).shown = exchange x y (t.links.prev y) (t.links.next x) t.shown := by
  unfold raise
  cases t.links.prev y <;> rfl

theorem lower_shown (x y : α) (t : TransferFiles α) :
    (lower x y t).shown = exchange y x (t.links.prev x) (t.links.next y) t.shown := by
  unfold lower
  cases t.links.prev x <;> rfl

theorem up_shown (x : α) (t : TransferFiles α) :
    (moveTransferUp x t).shown = UpdateCursor.moveTransferUp x t.shown := by
  unfold moveTransferUp UpdateCursor.moveTransferUp mayPass
  cases hprev : t.links.prev x with
  | none => simp [TransferFiles.shown, hprev]
  | some y =>
    have hshown : t.shown.links.prev x = some y := hprev
    rw [hshown]
    simp only [ne_eq, reduceCtorEq, not_false_eq_true, true_and, Option.elim_some]
    by_cases hguard : t.started = false ∨ ¬ t.curfle = some x ∧ ¬ t.curfle = some y
    · rw [if_pos hguard, raise_shown]
      exact (if_pos hguard).symm
    · rw [if_neg hguard]
      exact (if_neg hguard).symm

theorem down_shown (x : α) (t : TransferFiles α) :
    (moveTransferDown x t).shown = UpdateCursor.moveTransferDown x t.shown := by
  unfold moveTransferDown UpdateCursor.moveTransferDown mayPass
  cases hnext : t.links.next x with
  | none => simp [TransferFiles.shown, hnext]
  | some y =>
    have hshown : t.shown.links.next x = some y := hnext
    rw [hshown]
    simp only [ne_eq, reduceCtorEq, not_false_eq_true, true_and, Option.elim_some]
    by_cases hguard : t.started = false ∨ ¬ t.curfle = some x ∧ ¬ t.curfle = some y
    · rw [if_pos hguard, lower_shown]
      exact (if_pos hguard).symm
    · rw [if_neg hguard]
      exact (if_neg hguard).symm

/-- What both moves come down to: two neighbours are exchanged, neither of them the current file of
a started transfer. -/
theorem reorders_of_exchange {t' : TransferFiles α} {swapped : List α → Prop}
    (h : WellFormed t (a ++ y :: x :: b))
    (hguard : t.started = true → t.curfle ≠ some x ∧ t.curfle ≠ some y)
    (hmoved : t'.shown = exchange x y a.getLast? b.head? t.shown)
    (hswapped : swapped (a ++ x :: y :: b)) : Reorders swapped t (a ++ y :: x :: b) t' := by
  have hlisted : Listed t'.shown (a ++ x :: y :: b) := by
    rw [hmoved]
    exact (Moved.swap rfl hguard).listed h.listed
  have hcurfle : t'.curfle = t.curfle := congrArg Shown.curfle hmoved
  have hstarted : t'.started = t.started := congrArg Shown.started hmoved
  refine ⟨_, ⟨hlisted.linked, hlisted.nodup, hlisted.files⟩, .inr hswapped, hcurfle, hstarted, ?_⟩
  intro hstart c hc
  obtain ⟨hx, hy⟩ := hguard hstart
  exact kept_of_exchange (fun heq => hy (heq ▸ hc)) fun heq => hx (heq ▸ hc)

end Moves

/-- Both moves leave a linked list, in which the file has changed places with the one before it or
the next one, or nothing has changed. -/
theorem moves_keep_list [DecidableEq α] {t : TransferFiles α} {l : List α} {x : α} (h : WellFormed t l)
    (hx : x ∈ l) :
    Reorders (fun l' => ∃ a y b, l = a ++ y :: x :: b ∧ l' = a ++ x :: y :: b) t l
        (moveTransferUp x t) ∧
      Reorders (fun l' => ∃ a y b, l = a ++ x :: y :: b ∧ l' = a ++ y :: x :: b) t l
        (moveTransferDown x t) := by
  refine ⟨?_, ?_⟩
  · have hup := up_shown x t
    rcases h.listed.up_exchanges hx with hsame | ⟨a, y, b, rfl, hguard, hmoved⟩
    · rw [shown_inj (hup.trans hsame)]
      exact reorders_refl h
    · exact reorders_of_exchange h hguard (hup.trans hmoved) ⟨a, y, b, rfl, rfl⟩
  · have hdown := down_shown x t
    rcases h.listed.down_exchanges hx with hsame | ⟨a, y, b, rfl, hguard, hmoved⟩
    · rw [shown_inj (hdown.trans hsame)]
      exact reorders_refl h
    · exact reorders_of_exchange h (fun hstart => (hguard hstart).symm) (hdown.trans hmoved)
        ⟨a, y, b, rfl, rfl⟩

/-- A started transfer of three files that is at the first one. -/
def threeFiles : TransferFiles ℕ :=
  ⟨Links.linkAll ⟨fun _ => none, fun _ => none⟩ none [0, 1, 2], some 0, some 0, true⟩

theorem threeFiles_wellFormed : WellFormed threeFiles [0, 1, 2] :=
  ⟨linked_linkAll (by decide), by decide, rfl⟩

/-- The last file is moved in front of the one between. -/
theorem last_file_moved_up : (moveTransferUp 2 threeFiles).links.next 0 = some 2 ∧
    Reorders (fun l' => ∃ a y b, [0, 1, 2] = a ++ y :: 2 :: b ∧ l' = a ++ 2 :: y :: b) threeFiles
        [0, 1, 2] (moveTransferUp 2 threeFiles) ∧
      Reorders (fun l' => ∃ a y b, [0, 1, 2] = a ++ 2 :: y :: b ∧ l' = a ++ y :: 2 :: b) threeFiles
        [0, 1, 2] (moveTransferDown 2 threeFiles) :=
  ⟨by decide, moves_keep_list threeFiles_wellFormed (by decide)⟩

end Gftp.TransferMoves
