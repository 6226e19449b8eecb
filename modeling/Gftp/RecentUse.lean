import Mathlib.Data.Finset.Card
import Mathlib.Data.Finset.Dedup
import Mathlib.Data.List.Nodup

/-!
Lists with the most recently used value in front. A use puts its value in front of what is left of
the list. Nothing here refers to a program.
-/

namespace Gftp.RecentUse

variable {α : Type} {uses l kept : List α} {x y : α}

/-- y has not been used since a use of x. -/
def Since (uses : List α) (x y : α) : Prop := ∃ before after, uses = before ++ x :: after ∧ y ∉ after

/-- The list holds used values, each of them once and the most recently used one first. -/
structure Recent (uses l : List α) : Prop where
  used : ∀ x ∈ l, x ∈ uses
  nodup : l.Nodup
  ordered : l.Pairwise (Since uses)

theorem Since.snoc (h : Since uses x y) {z : α} (hz : y ≠ z) : Since (uses ++ [z]) x y := by
  obtain ⟨before, after, rfl, hy⟩ := h
  refine ⟨before, after ++ [z], by simp, fun hmem => ?_⟩
  rcases List.mem_append.mp hmem with hmem | hmem
  · exact hy hmem
  · exact hz (List.mem_singleton.mp hmem)

theorem since_last (uses : List α) (x y : α) : Since (uses ++ [x]) x y :=
  ⟨uses, [], rfl, List.not_mem_nil⟩

theorem Recent.nil : Recent ([] : List α) [] :=
  ⟨fun _ hx => hx, List.nodup_nil, List.Pairwise.nil⟩

/-- The values that are kept stand behind the one that is used. -/
theorem Recent.use (h : Recent uses l) (hkept : kept.Sublist l) (hx : x ∉ kept) :
    Recent (uses ++ [x]) (x :: kept) where
  used y hy := by
    rcases List.mem_cons.mp hy with rfl | hy
    · exact List.mem_append_right _ (List.mem_singleton_self y)
    · exact List.mem_append_left _ (h.used y (hkept.subset hy))
  nodup := List.nodup_cons.mpr ⟨hx, h.nodup.sublist hkept⟩
  ordered := by
    refine List.pairwise_cons.mpr ⟨fun y _ => since_last uses x y, ?_⟩
    refine (h.ordered.sublist hkept).imp_of_mem fun {y z} _ hz hsince => hsince.snoc ?_
    exact fun heq => hx (heq ▸ hz)

/-- The list is as long as there are different values, when none has been dropped. -/
theorem Recent.card [DecidableEq α] (h : Recent uses l) (hall : ∀ x ∈ uses, x ∈ l) :
    uses.toFinset.card = l.length := by
  have heq : uses.toFinset = l.toFinset := by
    ext x
    rw [List.mem_toFinset, List.mem_toFinset]
    exact ⟨hall x, h.used x⟩
  rw [heq, List.toFinset_card_of_nodup h.nodup]

theorem card_le_snoc [DecidableEq α] (uses : List α) (x : α) :
    uses.toFinset.card ≤ (uses ++ [x]).toFinset.card := by
  refine Finset.card_le_card fun y hy => ?_
  rw [List.mem_toFinset] at hy ⊢
  exact List.mem_append_left _ hy

end Gftp.RecentUse
