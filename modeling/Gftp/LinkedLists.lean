import Mathlib.Data.List.Nodup
import Mathlib.Logic.Function.Basic

/-!
Doubly linked lists in a memory of nodes. A segment is linked between the node in front of
it and the one behind it; two neighbours that are exchanged, and two lists joined at their
ends, are linked again. Nothing here refers to a program.
-/

namespace Gftp.LinkedLists

variable {α : Type}

/-- The pointers of the nodes. -/
structure Links (α : Type) where
  next : α → Option α
  prev : α → Option α

namespace Links

variable [DecidableEq α]

def setNext (k : Links α) (x : α) (v : Option α) : Links α :=
  { k with next := Function.update k.next x v }

def setPrev (k : Links α) (x : α) (v : Option α) : Links α :=
  { k with prev := Function.update k.prev x v }

/-- Nothing is set for a NULL pointer. -/
def setNext? (k : Links α) (x : Option α) (v : Option α) : Links α :=
  match x with
  | some x => k.setNext x v
  | none => k

def setPrev? (k : Links α) (x : Option α) (v : Option α) : Links α :=
  match x with
  | some x => k.setPrev x v
  | none => k

/-- The nodes x and y are put between w and v, in this order. -/
def relink (k : Links α) (w : Option α) (x y : α) (v : Option α) : Links α :=
  (((((k.setNext? w (some x)).setPrev x w).setNext x (some y)).setPrev y (some x)).setNext y
    v).setPrev? v (some y)

/-- The node x is put in front of a list. -/
def push (k : Links α) (x : α) (head : Option α) : Links α :=
  ((k.setPrev x none).setNext x head).setPrev? head (some x)

/-- The nodes of a list are linked one after the other, the first one behind p. -/
def linkAll (k : Links α) : Option α → List α → Links α
  | _, [] => k
  | p, x :: xs => ((k.linkAll (some x) xs).setNext x xs.head?).setPrev x p

variable {k : Links α} {x y : α} {v : Option α}

@[simp] theorem setNext_prev : (k.setNext x v).prev = k.prev := rfl

@[simp] theorem setPrev_next : (k.setPrev x v).next = k.next := rfl

@[simp] theorem setNext_next_self : (k.setNext x v).next x = v := Function.update_self ..

@[simp] theorem setPrev_prev_self : (k.setPrev x v).prev x = v := Function.update_self ..

theorem setNext_next_ne (h : y ≠ x) : (k.setNext x v).next y = k.next y :=
  Function.update_of_ne h ..

theorem setPrev_prev_ne (h : y ≠ x) : (k.setPrev x v).prev y = k.prev y :=
  Function.update_of_ne h ..

variable {u : Option α}

@[simp] theorem setNext?_prev : (k.setNext? u v).prev = k.prev := by cases u <;> rfl

@[simp] theorem setPrev?_next : (k.setPrev? u v).next = k.next := by cases u <;> rfl

theorem setNext?_next_some (h : u = some x) : (k.setNext? u v).next x = v := by
  subst h
  exact setNext_next_self

theorem setPrev?_prev_some (h : u = some x) : (k.setPrev? u v).prev x = v := by
  subst h
  exact setPrev_prev_self

theorem setNext?_next_ne (h : u ≠ some x) : (k.setNext? u v).next x = k.next x := by
  cases u with
  | none => rfl
  | some z => exact setNext_next_ne fun hx => h (congrArg some hx.symm)

theorem setPrev?_prev_ne (h : u ≠ some x) : (k.setPrev? u v).prev x = k.prev x := by
  cases u with
  | none => rfl
  | some z => exact setPrev_prev_ne fun hx => h (congrArg some hx.symm)

end Links

/-- The nodes of the list are linked, behind p and in front of q. -/
def Linked (k : Links α) : Option α → List α → Option α → Prop
  | _, [], _ => True
  | p, x :: xs, q => k.prev x = p ∧ k.next x = xs.head?.or q ∧ Linked k (some x) xs q

/-- The next pointers lead through the list to its end. -/
def Chained (k : Links α) : List α → Prop
  | [] => True
  | x :: xs => k.next x = xs.head? ∧ Chained k xs

/-- The pointers of the nodes outside of a list are what they were. -/
def Keeps (k k' : Links α) (xs : List α) : Prop :=
  ∀ z ∉ xs, k'.next z = k.next z ∧ k'.prev z = k.prev z

variable {k k' : Links α} {p q : Option α} {xs ys : List α} {x y : α}

theorem Chained.congr (h : Chained k xs) (hnext : ∀ x ∈ xs, k'.next x = k.next x) :
    Chained k' xs := by
  induction xs with
  | nil => trivial
  | cons x xs ih =>
    obtain ⟨hx, hxs⟩ := h
    exact ⟨(hnext x (List.mem_cons_self ..)).trans hx,
      ih hxs fun z hz => hnext z (List.mem_cons_of_mem _ hz)⟩

theorem Chained.of_keeps (h : Chained k xs) (hkeeps : Keeps k k' ys) (hdisjoint : ∀ x ∈ xs, x ∉ ys) :
    Chained k' xs :=
  h.congr fun x hx => (hkeeps x (hdisjoint x hx)).1

theorem Linked.chained (h : Linked k p xs none) : Chained k xs := by
  induction xs generalizing p with
  | nil => trivial
  | cons x xs ih =>
    obtain ⟨-, hnext, hxs⟩ := h
    rw [Option.or_none] at hnext
    exact ⟨hnext, ih hxs⟩

theorem linked_append :
    Linked k p (xs ++ ys) q ↔ Linked k p xs (ys.head?.or q) ∧ Linked k (xs.getLast?.or p) ys q := by
  induction xs generalizing p with
  | nil => simp [Linked]
  | cons x xs ih =>
    have hhead : (xs ++ ys).head?.or q = xs.head?.or (ys.head?.or q) := by
      cases xs <;> rfl
    have hlast : (x :: xs).getLast?.or p = xs.getLast?.or (some x) := by
      rw [List.getLast?_cons]
      cases xs.getLast? <;> rfl
    rw [List.cons_append, Linked, Linked, ih, hhead, hlast]
    tauto

theorem Linked.neighbours (h : Linked k p (xs ++ x :: ys) q) :
    k.prev x = xs.getLast?.or p ∧ k.next x = ys.head?.or q := by
  obtain ⟨-, hprev, hnext, -⟩ := linked_append.mp h
  exact ⟨hprev, hnext⟩

theorem Linked.congr (h : Linked k p xs q) (hnext : ∀ x ∈ xs, k'.next x = k.next x)
    (hprev : ∀ x ∈ xs, k'.prev x = k.prev x) : Linked k' p xs q := by
  induction xs generalizing p with
  | nil => trivial
  | cons x xs ih =>
    obtain ⟨hp, hn, hrest⟩ := h
    have hx : x ∈ x :: xs := List.mem_cons_self ..
    exact ⟨(hprev x hx).trans hp, (hnext x hx).trans hn,
      ih hrest (fun z hz => hnext z (List.mem_cons_of_mem _ hz))
        (fun z hz => hprev z (List.mem_cons_of_mem _ hz))⟩

theorem Linked.of_next {q' : Option α} (h : Linked k p xs q) (hnodup : xs.Nodup)
    (hprev : ∀ x ∈ xs, k'.prev x = k.prev x)
    (hnext : ∀ x ∈ xs, xs.getLast? ≠ some x → k'.next x = k.next x)
    (hlast : ∀ x, xs.getLast? = some x → k'.next x = q') : Linked k' p xs q' := by
  induction xs generalizing p with
  | nil => trivial
  | cons x xs ih =>
    obtain ⟨hp, hn, hrest⟩ := h
    obtain ⟨hx, hnodup⟩ := List.nodup_cons.mp hnodup
    refine ⟨(hprev x (List.mem_cons_self ..)).trans hp, ?_, ?_⟩
    · cases xs with
      | nil => exact hlast x rfl
      | cons z zs =>
        refine (hnext x (List.mem_cons_self ..) fun heq => ?_).trans hn
        rw [List.getLast?_cons_cons] at heq
        exact hx (List.mem_of_getLast? heq)
    · have hend : ∀ z ∈ xs, (x :: xs).getLast? = xs.getLast? := by
        intro z hz
        cases xs with
        | nil => cases hz
        | cons w ws => exact List.getLast?_cons_cons
      refine ih hrest hnodup (fun z hz => hprev z (List.mem_cons_of_mem _ hz)) ?_ ?_
      · exact fun z hz hne => hnext z (List.mem_cons_of_mem _ hz) (hend z hz ▸ hne)
      · exact fun z hz => hlast z ((hend z (List.mem_of_getLast? hz)).trans hz)

theorem Linked.of_prev {p' : Option α} (h : Linked k p xs q) (hnodup : xs.Nodup)
    (hnext : ∀ x ∈ xs, k'.next x = k.next x)
    (hprev : ∀ x ∈ xs, xs.head? ≠ some x → k'.prev x = k.prev x)
    (hhead : ∀ x, xs.head? = some x → k'.prev x = p') : Linked k' p' xs q := by
  cases xs with
  | nil => trivial
  | cons x xs =>
    obtain ⟨-, hn, hrest⟩ := h
    obtain ⟨hx, -⟩ := List.nodup_cons.mp hnodup
    refine ⟨hhead x rfl, (hnext x (List.mem_cons_self ..)).trans hn, ?_⟩
    refine hrest.congr (fun z hz => hnext z (List.mem_cons_of_mem _ hz)) fun z hz => ?_
    refine hprev z (List.mem_cons_of_mem _ hz) fun heq => hx ?_
    exact Option.some.inj heq ▸ hz

theorem Keeps.refl (k : Links α) (xs : List α) : Keeps k k xs := fun _ _ => ⟨rfl, rfl⟩

theorem Linked.of_keeps (h : Linked k p xs q) (hkeeps : Keeps k k' ys) (hdisjoint : ∀ x ∈ xs, x ∉ ys) :
    Linked k' p xs q :=
  h.congr (fun x hx => (hkeeps x (hdisjoint x hx)).1) fun x hx => (hkeeps x (hdisjoint x hx)).2

theorem Linked.clear_prev [DecidableEq α] (h : Linked k p (x :: xs) q) (hnodup : (x :: xs).Nodup) :
    Linked (k.setPrev x none) none (x :: xs) q := by
  refine h.of_prev hnodup (fun z _ => rfl) (fun z _ hne => ?_) fun z hz => ?_
  · exact Links.setPrev_prev_ne fun heq => hne (heq ▸ rfl)
  · obtain rfl := Option.some.inj hz
    exact Links.setPrev_prev_self

theorem linkAll_other [DecidableEq α] (h : x ∉ xs) :
    (k.linkAll p xs).next x = k.next x ∧ (k.linkAll p xs).prev x = k.prev x := by
  induction xs generalizing p with
  | nil => exact ⟨rfl, rfl⟩
  | cons y ys ih =>
    obtain ⟨hne, hys⟩ := not_or.mp (mt List.mem_cons.mpr h)
    obtain ⟨hnext, hprev⟩ := ih hys (p := some y)
    exact ⟨(Links.setNext_next_ne hne).trans hnext, (Links.setPrev_prev_ne hne).trans hprev⟩

theorem linked_linkAll [DecidableEq α] (h : xs.Nodup) : Linked (k.linkAll p xs) p xs none := by
  induction xs generalizing p with
  | nil => trivial
  | cons x xs ih =>
    obtain ⟨hx, hxs⟩ := List.nodup_cons.mp h
    refine ⟨Links.setPrev_prev_self, ?_, (ih hxs).congr (fun z hz => ?_) fun z hz => ?_⟩
    · rw [Option.or_none]
      exact Links.setNext_next_self
    · exact Links.setNext_next_ne fun h => hx (h ▸ hz)
    · exact Links.setPrev_prev_ne fun h => hx (h ▸ hz)

theorem Linked.concat [DecidableEq α] {q' : Option α} (h : Linked k p xs none)
    (h' : Linked k q' (y :: ys) q) (hnodup : (xs ++ y :: ys).Nodup) (hlast : xs.getLast? = some x) :
    Linked ((k.setNext x (some y)).setPrev y (some x)) p (xs ++ y :: ys) q := by
  obtain ⟨hxs, hys, hdisjoint⟩ := List.nodup_append.mp hnodup
  have hy : ∀ z ∈ xs, z ≠ y := fun z hz => hdisjoint z hz y (List.mem_cons_self ..)
  have hx : ∀ z ∈ y :: ys, z ≠ x := fun z hz heq =>
    hdisjoint x (List.mem_of_getLast? hlast) z hz heq.symm
  refine linked_append.mpr ⟨?_, ?_⟩
  · apply h.of_next hxs
    · exact fun z hz => Links.setPrev_prev_ne (hy z hz)
    · exact fun z hz hne => Links.setNext_next_ne fun heq => hne (heq ▸ hlast)
    · intro z hz
      obtain rfl := Option.some.inj (hlast.symm.trans hz)
      exact Links.setNext_next_self
  · rw [hlast, Option.some_or]
    apply h'.of_prev hys
    · exact fun z hz => Links.setNext_next_ne (hx z hz)
    · exact fun z hz hne => Links.setPrev_prev_ne fun heq => hne (heq ▸ rfl)
    · intro z hz
      obtain rfl := Option.some.inj hz
      exact Links.setPrev_prev_self

/-- A list built behind the last node of another. -/
theorem Linked.join [DecidableEq α] (h : Linked k none xs none) (hnodup : (xs ++ y :: ys).Nodup)
    (hlast : xs.getLast? = some x) :
    Linked (((k.linkAll none (y :: ys)).setNext x (some y)).setPrev y (some x)) none
      (xs ++ y :: ys) none := by
  obtain ⟨-, hys, hdisjoint⟩ := List.nodup_append.mp hnodup
  have hkeeps : Keeps k (k.linkAll none (y :: ys)) (y :: ys) := fun z hz => linkAll_other hz
  have hxs : ∀ z ∈ xs, z ∉ y :: ys := fun z hz hzy => hdisjoint z hz z hzy rfl
  exact (h.of_keeps hkeeps hxs).concat (linked_linkAll hys) hnodup hlast

theorem Linked.push [DecidableEq α] (h : Linked k none xs none) (hnodup : (x :: xs).Nodup) :
    Linked (k.push x xs.head?) none (x :: xs) none := by
  obtain ⟨hx, hxs⟩ := List.nodup_cons.mp hnodup
  have hne : ∀ z ∈ xs, z ≠ x := fun z hz heq => hx (heq ▸ hz)
  refine ⟨?_, ?_, h.of_prev hxs (fun z hz => ?_) (fun z hz hhead => ?_) fun z hz => ?_⟩
  · refine (Links.setPrev?_prev_ne fun heq => hx (List.mem_of_head? heq)).trans ?_
    exact Links.setPrev_prev_self
  · rw [Option.or_none, Links.push, Links.setPrev?_next]
    exact Links.setNext_next_self
  · rw [Links.push, Links.setPrev?_next]
    exact Links.setNext_next_ne (hne z hz)
  · exact (Links.setPrev?_prev_ne hhead).trans (Links.setPrev_prev_ne (hne z hz))
  · exact Links.setPrev?_prev_some hz

/-- The nodes on both sides of a node are linked with each other. -/
theorem Linked.unlink [DecidableEq α] {w : α} (h : Linked k none (xs ++ x :: ys) none)
    (hnodup : (xs ++ x :: ys).Nodup) (hlast : xs.getLast? = some w) :
    Linked ((k.setNext w ys.head?).setPrev? ys.head? (some w)) none (xs ++ ys) none := by
  obtain ⟨hxs, -, -, hys⟩ := linked_append.mp h
  obtain ⟨hnodupx, hnodupy, hdisjoint⟩ := List.nodup_append.mp hnodup
  have hfront : ∀ z ∈ xs, ys.head? ≠ some z := fun z hz heq =>
    hdisjoint z hz z (List.mem_cons_of_mem _ (List.mem_of_head? heq)) rfl
  have hbehind : ∀ z ∈ ys, z ≠ w := fun z hz heq =>
    hdisjoint w (List.mem_of_getLast? hlast) z (List.mem_cons_of_mem _ hz) heq.symm
  refine linked_append.mpr ⟨?_, ?_⟩
  · refine hxs.of_next hnodupx (fun z hz => ?_) (fun z _ hne => ?_) fun z hz => ?_
    · exact Links.setPrev?_prev_ne (hfront z hz)
    · rw [Links.setPrev?_next]
      exact Links.setNext_next_ne fun heq => hne (heq ▸ hlast)
    · obtain rfl := Option.some.inj (hlast.symm.trans hz)
      rw [Links.setPrev?_next, Option.or_none]
      exact Links.setNext_next_self
  · rw [hlast, Option.some_or]
    refine hys.of_prev (List.nodup_cons.mp hnodupy).2 (fun z hz => ?_) (fun z _ hne => ?_) fun z hz => ?_
    · rw [Links.setPrev?_next]
      exact Links.setNext_next_ne (hbehind z hz)
    · exact Links.setPrev?_prev_ne hne
    · exact Links.setPrev?_prev_some hz

theorem Linked.cut [DecidableEq α] {w : α} (h : Linked k none (xs ++ x :: ys) none)
    (hnodup : (xs ++ x :: ys).Nodup) (hlast : xs.getLast? = some w) :
    Linked ((k.setNext w none).setPrev x none) none xs none ∧
      Linked ((k.setNext w none).setPrev x none) none (x :: ys) none := by
  obtain ⟨hxs, hys⟩ := linked_append.mp h
  obtain ⟨hnodupx, hnodupy, hdisjoint⟩ := List.nodup_append.mp hnodup
  have hw : w ∈ xs := List.mem_of_getLast? hlast
  have hfront : ∀ z ∈ xs, z ≠ x := fun z hz heq => hdisjoint z hz x (List.mem_cons_self ..) heq
  have hbehind : ∀ z ∈ x :: ys, z ≠ w := fun z hz heq => hdisjoint w hw z hz heq.symm
  refine ⟨hxs.of_next hnodupx (fun z hz => ?_) (fun z _ hne => ?_) fun z hz => ?_, ?_⟩
  · exact Links.setPrev_prev_ne (hfront z hz)
  · exact Links.setNext_next_ne fun heq => hne (heq ▸ hlast)
  · obtain rfl := Option.some.inj (hlast.symm.trans hz)
    exact Links.setNext_next_self
  · refine hys.of_prev hnodupy (fun z hz => ?_) (fun z _ hne => ?_) fun z hz => ?_
    · exact Links.setNext_next_ne (hbehind z hz)
    · exact Links.setPrev_prev_ne fun heq => hne (heq ▸ rfl)
    · obtain rfl := Option.some.inj hz
      exact Links.setPrev_prev_self

/-- The next pointers and the head determine the list. -/
theorem Chained.unique (h : Chained k xs) (h' : Chained k ys) (hhead : xs.head? = ys.head?) :
    xs = ys := by
  induction xs generalizing ys with
  | nil => exact (List.head?_eq_none_iff.mp hhead.symm).symm
  | cons x xs ih =>
    cases ys with
    | nil => cases hhead
    | cons y ys =>
      obtain rfl := Option.some.inj hhead
      exact congrArg (x :: ·) (ih h.2 h'.2 (h.1.symm.trans h'.1))

/-- y stood in front of x, between w and v; they have been exchanged. -/
structure Exchanged (k k' : Links α) (w : Option α) (x y : α) (v : Option α) : Prop where
  xprev : k'.prev x = w
  xnext : k'.next x = some y
  yprev : k'.prev y = some x
  ynext : k'.next y = v
  last : ∀ z, w = some z → k'.next z = some x
  head : ∀ z, v = some z → k'.prev z = some y
  next : ∀ z, z ≠ x → z ≠ y → w ≠ some z → k'.next z = k.next z
  prev : ∀ z, z ≠ x → z ≠ y → v ≠ some z → k'.prev z = k.prev z

theorem exchanged_relink [DecidableEq α] {w v : Option α} (hxy : x ≠ y)
    (hw : w ≠ some x ∧ w ≠ some y) (hv : v ≠ some x ∧ v ≠ some y) :
    Exchanged k (k.relink w x y v) w x y v where
  xprev := by simp [Links.relink, Links.setPrev?_prev_ne hv.1, Links.setPrev_prev_ne hxy]
  xnext := by simp [Links.relink, Links.setNext_next_ne hxy]
  yprev := by simp [Links.relink, Links.setPrev?_prev_ne hv.2]
  ynext := by simp [Links.relink]
  last z hz := by
    have hzx : z ≠ x := fun h => hw.1 (h ▸ hz)
    have hzy : z ≠ y := fun h => hw.2 (h ▸ hz)
    simp [Links.relink, Links.setNext_next_ne hzx, Links.setNext_next_ne hzy,
      Links.setNext?_next_some hz]
  head z hz := by simp [Links.relink, Links.setPrev?_prev_some hz]
  next z hzx hzy hzw := by
    simp [Links.relink, Links.setNext_next_ne hzx, Links.setNext_next_ne hzy,
      Links.setNext?_next_ne hzw]
  prev z hzx hzy hzv := by
    simp [Links.relink, Links.setPrev_prev_ne hzx, Links.setPrev_prev_ne hzy,
      Links.setPrev?_prev_ne hzv]

theorem Linked.swap (h : Linked k none (xs ++ y :: x :: ys) none)
    (hnodup : (xs ++ y :: x :: ys).Nodup) (hswap : Exchanged k k' xs.getLast? x y ys.head?) :
    Linked k' none (xs ++ x :: y :: ys) none := by
  obtain ⟨hxs, -, -, -, -, hys⟩ := linked_append.mp h
  obtain ⟨hnodupx, hnodupy, hdisjoint⟩ := List.nodup_append.mp hnodup
  simp only [List.nodup_cons, List.mem_cons, not_or] at hnodupy
  obtain ⟨⟨hyx, hyys⟩, hxys, hnodupys⟩ := hnodupy
  have hfront : ∀ z ∈ xs, z ≠ x ∧ z ≠ y ∧ z ∉ ys := by
    intro z hz
    exact ⟨hdisjoint z hz x (by simp), hdisjoint z hz y (by simp),
      fun hzys => hdisjoint z hz z (by simp [hzys]) rfl⟩
  have hbehind : ∀ z ∈ ys, z ≠ x ∧ z ≠ y ∧ z ∉ xs := by
    intro z hz
    exact ⟨fun h => hxys (h ▸ hz), fun h => hyys (h ▸ hz), fun hzxs => (hfront z hzxs).2.2 hz⟩
  refine linked_append.mpr ⟨?_, ?_, hswap.xnext, hswap.yprev, ?_, ?_⟩
  · refine hxs.of_next hnodupx (fun z hz => ?_) (fun z hz hne => ?_) hswap.last
    · obtain ⟨hzx, hzy, hzys⟩ := hfront z hz
      exact hswap.prev z hzx hzy fun heq => hzys (List.mem_of_head? heq)
    · obtain ⟨hzx, hzy, -⟩ := hfront z hz
      exact hswap.next z hzx hzy hne
  · rw [Option.or_none]
    exact hswap.xprev
  · rw [Option.or_none]
    exact hswap.ynext
  · refine hys.of_prev hnodupys (fun z hz => ?_) (fun z hz hne => ?_) hswap.head
    · obtain ⟨hzx, hzy, hzxs⟩ := hbehind z hz
      exact hswap.next z hzx hzy fun heq => hzxs (List.mem_of_getLast? heq)
    · obtain ⟨hzx, hzy, -⟩ := hbehind z hz
      exact hswap.prev z hzx hzy hne

end Gftp.LinkedLists
