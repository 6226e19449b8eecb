import Gftp.LinkedLists
import Mathlib.Data.Fintype.Card
import Mathlib.Data.List.Sort

/-!
Functions that sort and join the lists of a memory of nodes. They are given by what their
documentation says: a sort needs only the next pointers and makes a linked list, of which
the first node may have any prev pointer. One way to carry them out follows. Nothing here
refers to a program.
-/

namespace Gftp.ListOperations

open LinkedLists

variable {α : Type}

/-- A comparison that says the same of a pair from both sides and goes on along a chain. -/
structure Consistent (cmp : α → α → ℤ) : Prop where
  swap : ∀ a b, cmp a b ≤ 0 ↔ 0 ≤ cmp b a
  trans : ∀ a b c, cmp a b ≤ 0 → cmp b c ≤ 0 → cmp a c ≤ 0

/-- The sign of the comparison says how two nodes stand in an order. -/
structure Orders (cmp : α → α → ℤ) (R : α → α → Prop) : Prop where
  le_zero : ∀ a b, cmp a b ≤ 0 ↔ R a b
  zero_le : ∀ a b, 0 ≤ cmp a b ↔ R b a
  trans : ∀ a b c, R a b → R b c → R a c

/-- The list xs has become ys. -/
structure Sorted (cmp : α → α → ℤ) (k k' : Links α) (xs ys : List α) : Prop where
  perm : ys.Perm xs
  ordered : ys.Pairwise fun a b => cmp a b ≤ 0
  linked : ∃ p, Linked k' p ys none
  kept : Keeps k k' xs

/-- ys has been put behind xs. -/
structure Joined (k k' : Links α) (xs ys : List α) : Prop where
  linked : ∃ p, Linked k' p (xs ++ ys) none
  kept : Keeps k k' (xs ++ ys)

/-- The functions for lists; a list is given by its first node. -/
structure ListOps (α : Type) where
  sort : Links α → Option α → (α → α → ℤ) → Links α × Option α
  concat : Links α → Option α → Option α → Links α × Option α

/-- What is said of the functions. -/
structure ListOps.Documented (ops : ListOps α) : Prop where
  sort_list : ∀ {k : Links α} {xs : List α} {cmp : α → α → ℤ}, Consistent cmp → Chained k xs →
    xs.Nodup → ∃ ys, (ops.sort k xs.head? cmp).2 = ys.head? ∧
      Sorted cmp k (ops.sort k xs.head? cmp).1 xs ys
  concat_lists : ∀ {k : Links α} {p q : Option α} {xs ys : List α}, Linked k p xs none →
    Linked k q ys none → (xs ++ ys).Nodup → xs ≠ [] →
      (ops.concat k xs.head? ys.head?).2 = xs.head? ∧
        Joined k (ops.concat k xs.head? ys.head?).1 xs ys

section Comparisons

variable {cmp : α → α → ℤ} {R : α → α → Prop}

theorem Orders.consistent (h : Orders cmp R) : Consistent cmp where
  swap a b := (h.le_zero a b).trans (h.zero_le b a).symm
  trans a b c hab hbc :=
    (h.le_zero a c).mpr (h.trans a b c ((h.le_zero a b).mp hab) ((h.le_zero b c).mp hbc))

/-- The other direction. -/
theorem Orders.neg (h : Orders cmp R) : Orders (fun a b => cmp a b * -1) fun a b => R b a where
  le_zero a b := by
    rw [← h.zero_le a b]
    omega
  zero_le a b := by
    rw [← h.le_zero a b]
    omega
  trans a b c hba hcb := h.trans c b a hcb hba

theorem Orders.comap {β : Type} (h : Orders cmp R) (f : β → α) :
    Orders (fun a b => cmp (f a) (f b)) fun a b => R (f a) (f b) where
  le_zero a b := h.le_zero (f a) (f b)
  zero_le a b := h.zero_le (f a) (f b)
  trans a b c := h.trans (f a) (f b) (f c)

theorem Consistent.total (h : Consistent cmp) (a b : α) : cmp a b ≤ 0 ∨ cmp b a ≤ 0 := by
  rcases le_total (cmp a b) 0 with hle | hge
  · exact Or.inl hle
  · exact Or.inr ((h.swap b a).mpr hge)

end Comparisons

section Relinking

variable {n : ℕ} {k : Links (Fin n)} {xs ys : List (Fin n)}

/-- The nodes that the next pointers lead to. -/
def nodes (k : Links (Fin n)) : ℕ → Option (Fin n) → List (Fin n)
  | 0, _ => []
  | _, none => []
  | fuel + 1, some x => x :: nodes k fuel (k.next x)

/-- A list of one node is sorted as it is. -/
def sortNodes (k : Links (Fin n)) (list : Option (Fin n)) (cmp : Fin n → Fin n → ℤ) :
    Links (Fin n) × Option (Fin n) :=
  if (nodes k n list).length ≤ 1 then (k, list)
  else
    let sorted := (nodes k n list).mergeSort fun a b => cmp a b ≤ 0
    (k.linkAll none sorted, sorted.head?)

def concatNodes (k : Links (Fin n)) (list1 list2 : Option (Fin n)) :
    Links (Fin n) × Option (Fin n) :=
  match list2 with
  | none => (k, list1)
  | some y =>
      let last := (nodes k n list1).getLast?
      ((k.setNext? last list2).setPrev y last, list1.or list2)

/-- The functions on a memory of n nodes. -/
def relinking (n : ℕ) : ListOps (Fin n) := ⟨sortNodes, concatNodes⟩

theorem nodes_chained (h : Chained k xs) {fuel : ℕ} (hfuel : xs.length ≤ fuel) :
    nodes k fuel xs.head? = xs := by
  induction xs generalizing fuel with
  | nil => cases fuel <;> rfl
  | cons x xs ih =>
    obtain ⟨hnext, hxs⟩ := h
    cases fuel with
    | zero => simp at hfuel
    | succ fuel =>
      rw [List.head?_cons, nodes, hnext, ih hxs (Nat.le_of_succ_le_succ hfuel)]

theorem nodes_list (h : Chained k xs) (hnodup : xs.Nodup) : nodes k n xs.head? = xs := by
  apply nodes_chained h
  have hle := hnodup.length_le_card
  rwa [Fintype.card_fin] at hle

theorem sortNodes_sorted {cmp : Fin n → Fin n → ℤ} (hcmp : Consistent cmp) (h : Chained k xs)
    (hnodup : xs.Nodup) :
    ∃ ys, (sortNodes k xs.head? cmp).2 = ys.head? ∧
      Sorted cmp k (sortNodes k xs.head? cmp).1 xs ys := by
  rw [sortNodes, nodes_list h hnodup]
  split_ifs with hshort
  · refine ⟨xs, rfl, List.Perm.refl xs, ?_, ?_, Keeps.refl k xs⟩
    · match xs with
      | [] => exact List.Pairwise.nil
      | [x] => exact List.pairwise_singleton ..
    · match xs with
      | [] => exact ⟨none, trivial⟩
      | [x] => exact ⟨k.prev x, rfl, h.1, trivial⟩
  · set sorted := xs.mergeSort fun a b => cmp a b ≤ 0 with hsorted
    have hperm : sorted.Perm xs := List.mergeSort_perm ..
    refine ⟨sorted, rfl, hperm, ?_, ⟨none, linked_linkAll (hperm.nodup_iff.mpr hnodup)⟩, ?_⟩
    · have hpairwise := List.pairwise_mergeSort (fun a b c hab hbc => decide_eq_true
        (hcmp.trans a b c (of_decide_eq_true hab) (of_decide_eq_true hbc))) (fun a b => by
          rw [Bool.or_eq_true, decide_eq_true_eq, decide_eq_true_eq]
          exact hcmp.total a b) xs
      exact hpairwise.imp fun hle => of_decide_eq_true hle
    · exact fun z hz => linkAll_other (mt hperm.mem_iff.mp hz)

theorem concatNodes_joined {p q : Option (Fin n)} (h : Linked k p xs none) (h' : Linked k q ys none)
    (hnodup : (xs ++ ys).Nodup) (hne : xs ≠ []) :
    (concatNodes k xs.head? ys.head?).2 = xs.head? ∧
      Joined k (concatNodes k xs.head? ys.head?).1 xs ys := by
  cases ys with
  | nil => exact ⟨rfl, ⟨p, by rwa [List.append_nil]⟩, Keeps.refl k _⟩
  | cons y ys =>
    obtain ⟨x, hlast⟩ : ∃ x, xs.getLast? = some x := ⟨_, List.getLast?_eq_some_getLast hne⟩
    have hxs : xs.Nodup := (List.nodup_append.mp hnodup).1
    have hhead : xs.head?.or (some y) = xs.head? := by
      cases xs with
      | nil => exact absurd rfl hne
      | cons x xs => rfl
    rw [List.head?_cons, concatNodes, nodes_list h.chained hxs, hlast]
    refine ⟨hhead, ⟨p, h.concat h' hnodup hlast⟩, fun z hz => ?_⟩
    rw [List.mem_append, not_or] at hz
    constructor
    · exact Links.setNext_next_ne fun heq => hz.1 (heq ▸ List.mem_of_getLast? hlast)
    · exact Links.setPrev_prev_ne fun heq => hz.2 (heq ▸ List.mem_cons_self ..)

theorem relinking_documented (n : ℕ) : (relinking n).Documented :=
  ⟨sortNodes_sorted, concatNodes_joined⟩

end Relinking

end Gftp.ListOperations
