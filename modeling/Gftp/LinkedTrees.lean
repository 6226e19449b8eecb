import Mathlib.Data.List.Nodup
import Mathlib.Data.List.Perm.Basic
import Mathlib.Logic.Function.Basic
import Mathlib.Logic.Relation
import Gftp.Fuel

/-!
Trees in a memory of nodes, each of which points to its first child, its parent and its next
sibling. A forest lists the nodes as they are laid out below one parent. Walks that keep no
stack climb by the parent pointers, so what such a walk does on a forest is stated by what it
does once it has left the forest by its last tree. Nothing here refers to a program.
-/

namespace Gftp.LinkedTrees

open ByteStrings Fuel

variable {α β γ : Type}

structure Node (α β : Type) where
  children : Option α
  prev : Option α
  next : Option α
  data : β

/-- No node is left of one that was freed. -/
abbrev Heap (α β : Type) := α → Option (Node α β)

def look (h : Heap α β) (a : α) : CRun (Node α β) :=
  match h a with
  | some n => .ok n
  | none => .error .fault

theorem look_some {h : Heap α β} {a : α} {n : Node α β} (hn : h a = some n) :
    look h a = .ok n := by
  rw [look, hn]

theorem look_eq_ok {h : Heap α β} {a : α} {n : Node α β} (hn : look h a = .ok n) :
    h a = some n := by
  unfold look at hn
  split at hn
  · exact Except.ok.inj hn ▸ ‹_›
  · exact absurd hn nofun

/-- A node with the forest of its children, and the trees next to it. -/
inductive Forest (α β : Type)
  | nil
  | cons (a : α) (d : β) (children rest : Forest α β)
  deriving DecidableEq

namespace Forest

def head? : Forest α β → Option α
  | nil => none
  | cons a _ _ _ => some a

/-- A node comes before its children. -/
def entries : Forest α β → List (α × β)
  | nil => []
  | cons a d children rest => (a, d) :: (entries children ++ entries rest)

def nodes (f : Forest α β) : List α := f.entries.map Prod.fst

/-- A node comes after its children. -/
def postorder : Forest α β → List α
  | nil => []
  | cons a _ children rest => postorder children ++ a :: postorder rest

/-- The nodes without children. -/
def leaves : Forest α β → List (α × β)
  | nil => []
  | cons a d nil rest => (a, d) :: leaves rest
  | cons _ _ (cons b e children next) rest => leaves (cons b e children next) ++ leaves rest

/-- The forest with other nodes and other data. -/
def map {α' β' : Type} (g : α → α') (k : β → β') : Forest α β → Forest α' β'
  | nil => nil
  | cons a d children rest => cons (g a) (k d) (map g k children) (map g k rest)

theorem entries_map {α' β' : Type} (g : α → α') (k : β → β') (f : Forest α β) :
    (f.map g k).entries = f.entries.map (Prod.map g k) := by
  induction f with
  | nil => rfl
  | cons a d children rest hchildren hrest => simp [map, entries, hchildren, hrest]

theorem leaves_map {α' β' : Type} (g : α → α') (k : β → β') (f : Forest α β) :
    (f.map g k).leaves = f.leaves.map (Prod.map g k) := by
  induction f with
  | nil => rfl
  | cons a d children rest hchildren hrest =>
    cases children with
    | nil => simp [map, leaves, hrest]
    | cons b e next tail =>
      simp only [map, leaves, List.map_append] at hchildren ⊢
      rw [hchildren, hrest]

/-- The forest with other data for its nodes. -/
def mapData (k : α → β → β) : Forest α β → Forest α β
  | nil => nil
  | cons a d children rest => cons a (k a d) (mapData k children) (mapData k rest)

theorem entries_mapData (k : α → β → β) (f : Forest α β) :
    (f.mapData k).entries = f.entries.map fun e => (e.1, k e.1 e.2) := by
  induction f with
  | nil => rfl
  | cons a d children rest hchildren hrest => simp [mapData, entries, hchildren, hrest]

theorem nodes_mapData (k : α → β → β) (f : Forest α β) : (f.mapData k).nodes = f.nodes := by
  simp [nodes, entries_mapData]

theorem head?_mapData (k : α → β → β) (f : Forest α β) : (f.mapData k).head? = f.head? := by
  cases f <;> rfl

@[simp] theorem nodes_nil : (nil : Forest α β).nodes = [] := rfl

@[simp] theorem nodes_cons (a : α) (d : β) (children rest : Forest α β) :
    (cons a d children rest).nodes = a :: (children.nodes ++ rest.nodes) := by
  simp [nodes, entries]

theorem postorder_perm (f : Forest α β) : f.postorder.Perm f.nodes := by
  induction f with
  | nil => exact .nil
  | cons a d children rest hchildren hrest =>
    rw [nodes_cons]
    exact List.perm_middle.trans ((hchildren.append hrest).cons a)

theorem leaves_sublist (f : Forest α β) : f.leaves.Sublist f.entries := by
  induction f with
  | nil => exact .slnil
  | cons a d children rest hchildren hrest =>
    cases children with
    | nil => exact hrest.cons_cons _
    | cons b e next children => exact (hchildren.append hrest).cons _

end Forest

/-- The forest lies in the memory below a node, none for no node. -/
def Laid (h : Heap α β) : Option α → Forest α β → Prop
  | _, .nil => True
  | parent, .cons a d children rest =>
      h a = some ⟨children.head?, parent, rest.head?, d⟩ ∧ Laid h (some a) children ∧
        Laid h parent rest

theorem Laid.congr {h h' : Heap α β} {parent : Option α} {f : Forest α β} (hf : Laid h parent f)
    (heq : ∀ a ∈ f.nodes, h' a = h a) : Laid h' parent f := by
  induction f generalizing parent with
  | nil => trivial
  | cons a d children rest hchildren hrest =>
    simp only [Forest.nodes_cons, List.mem_cons, List.mem_append] at heq
    obtain ⟨ha, hc, hr⟩ := hf
    exact ⟨(heq a (.inl rfl)).trans ha, hchildren hc fun b hb => heq b (.inr (.inl hb)),
      hrest hr fun b hb => heq b (.inr (.inr hb))⟩

theorem Laid.unique {h : Heap α β} {parent : Option α} {f g : Forest α β} (hf : Laid h parent f)
    (hg : Laid h parent g) (hhead : f.head? = g.head?) : f = g := by
  induction f generalizing parent g with
  | nil =>
    cases g with
    | nil => rfl
    | cons b e children rest => exact absurd hhead nofun
  | cons a d children rest hchildren hrest =>
    cases g with
    | nil => exact absurd hhead nofun
    | cons b e children' rest' =>
      obtain rfl := Option.some.inj hhead
      obtain ⟨ha, hc, hr⟩ := hf
      obtain ⟨hb, hc', hr'⟩ := hg
      obtain ⟨hdown, -, hnext, rfl⟩ := Node.mk.inj (Option.some.inj (ha.symm.trans hb))
      rw [hchildren hc hc' hdown, hrest hr hr' hnext]

theorem Laid.mapData {h h' : Heap α β} {parent : Option α} {f : Forest α β} {k : α → β → β}
    (hf : Laid h parent f)
    (heq : ∀ a n, a ∈ f.nodes → h a = some n → h' a = some { n with data := k a n.data }) :
    Laid h' parent (f.mapData k) := by
  induction f generalizing parent with
  | nil => trivial
  | cons a d children rest hchildren hrest =>
    simp only [Forest.nodes_cons, List.mem_cons, List.mem_append] at heq
    obtain ⟨ha, hc, hr⟩ := hf
    refine ⟨?_, hchildren hc fun b n hb => heq b n (.inr (.inl hb)),
      hrest hr fun b n hb => heq b n (.inr (.inr hb))⟩
    rw [heq a _ (.inl rfl) ha, Forest.head?_mapData, Forest.head?_mapData]

theorem Laid.alive {h : Heap α β} {parent : Option α} {f : Forest α β} {a : α}
    (hf : Laid h parent f) (ha : a ∈ f.nodes) : ∃ n, h a = some n := by
  induction f generalizing parent with
  | nil => exact absurd ha nofun
  | cons b d children rest hchildren hrest =>
    rw [Forest.nodes_cons, List.mem_cons, List.mem_append] at ha
    obtain ⟨hb, hc, hr⟩ := hf
    rcases ha with rfl | ha | ha
    · exact ⟨_, hb⟩
    · exact hchildren hc ha
    · exact hrest hr ha

/-- From a node to its first child or its next sibling. -/
def PointsTo (h : Heap α β) (a b : α) : Prop :=
  ∃ n, h a = some n ∧ (n.children = some b ∨ n.next = some b)

def Reachable (h : Heap α β) : α → α → Prop := Relation.ReflTransGen (PointsTo h)

/-- From a node to its next sibling. -/
def Precedes (h : Heap α β) (a b : α) : Prop := ∃ n, h a = some n ∧ n.next = some b

/-- The children of a node are the first one and its siblings. -/
def ChildOf (h : Heap α β) (p c : α) : Prop :=
  ∃ n first, h p = some n ∧ n.children = some first ∧
    Relation.ReflTransGen (Precedes h) first c

section Laid

variable {h : Heap α β} {parent : Option α} {f : Forest α β} {a b c p : α}

theorem Laid.entry {d : β} (hf : Laid h parent f) (ha : (a, d) ∈ f.entries) :
    ∃ n, h a = some n ∧ n.data = d := by
  induction f generalizing parent with
  | nil => exact absurd ha nofun
  | cons b e children rest hchildren hrest =>
    obtain ⟨hb, hc, hr⟩ := hf
    rw [Forest.entries, List.mem_cons, List.mem_append] at ha
    rcases ha with ha | ha | ha
    · obtain ⟨rfl, rfl⟩ := Prod.mk.inj ha
      exact ⟨_, hb, rfl⟩
    · exact hchildren hc ha
    · exact hrest hr ha

theorem Laid.reachable (hf : Laid h parent f) (hhead : f.head? = some a) (hb : b ∈ f.nodes) :
    Reachable h a b := by
  induction f generalizing parent a with
  | nil => exact absurd hhead nofun
  | cons c d children rest hchildren hrest =>
    obtain rfl := Option.some.inj hhead
    obtain ⟨hc, hlaidc, hlaidr⟩ := hf
    rw [Forest.nodes_cons, List.mem_cons, List.mem_append] at hb
    rcases hb with rfl | hb | hb
    · exact .refl
    · cases children with
      | nil => exact absurd hb nofun
      | cons e d' children' next =>
        exact Relation.ReflTransGen.head ⟨_, hc, .inl rfl⟩ (hchildren hlaidc rfl hb)
    · cases rest with
      | nil => exact absurd hb nofun
      | cons e d' children' next =>
        exact Relation.ReflTransGen.head ⟨_, hc, .inr rfl⟩ (hrest hlaidr rfl hb)

theorem head?_mem (hhead : f.head? = some a) : a ∈ f.nodes := by
  cases f with
  | nil => exact absurd hhead nofun
  | cons b d children rest =>
    obtain rfl := Option.some.inj hhead
    exact List.mem_cons_self ..

theorem Laid.closed (hf : Laid h parent f) (ha : a ∈ f.nodes) (hab : PointsTo h a b) :
    b ∈ f.nodes := by
  induction f generalizing parent with
  | nil => exact absurd ha nofun
  | cons c d children rest hchildren hrest =>
    obtain ⟨hc, hlaidc, hlaidr⟩ := hf
    rw [Forest.nodes_cons, List.mem_cons, List.mem_append] at ha ⊢
    rcases ha with rfl | ha | ha
    · obtain ⟨n, hn, hb⟩ := hab
      obtain rfl := Option.some.inj (hc.symm.trans hn)
      rcases hb with hb | hb
      · exact .inr (.inl (head?_mem hb))
      · exact .inr (.inr (head?_mem hb))
    · exact .inr (.inl (hchildren hlaidc ha))
    · exact .inr (.inr (hrest hlaidr ha))

theorem Laid.children (hf : Laid h parent f) (hp : p ∈ f.nodes) :
    ∃ children n, h p = some n ∧ n.children = children.head? ∧ Laid h (some p) children ∧
      ∀ y ∈ children.nodes, y ∈ f.nodes := by
  induction f generalizing parent with
  | nil => exact absurd hp nofun
  | cons c d children rest hchildren hrest =>
    obtain ⟨hc, hlaidc, hlaidr⟩ := hf
    simp only [Forest.nodes_cons, List.mem_cons, List.mem_append] at hp ⊢
    rcases hp with rfl | hp | hp
    · exact ⟨children, _, hc, rfl, hlaidc, fun y hy => .inr (.inl hy)⟩
    · obtain ⟨below, n, hn, hhead, hlaid, hsub⟩ := hchildren hlaidc hp
      exact ⟨below, n, hn, hhead, hlaid, fun y hy => .inr (.inl (hsub y hy))⟩
    · obtain ⟨below, n, hn, hhead, hlaid, hsub⟩ := hrest hlaidr hp
      exact ⟨below, n, hn, hhead, hlaid, fun y hy => .inr (.inr (hsub y hy))⟩

/-- The siblings of the first tree of a forest have the same parent. -/
theorem Laid.sibling (hf : Laid h parent f) (hhead : f.head? = some a)
    (hac : Relation.ReflTransGen (Precedes h) a c) : ∃ n, h c = some n ∧ n.prev = parent := by
  induction f generalizing a with
  | nil => exact absurd hhead nofun
  | cons b d children rest _ hrest =>
    obtain rfl := Option.some.inj hhead
    obtain ⟨hb, -, hlaidr⟩ := hf
    cases hac using Relation.ReflTransGen.head_induction_on with
    | refl => exact ⟨_, hb, rfl⟩
    | head hstep hlater _ =>
      obtain ⟨n, hn, hnext⟩ := hstep
      obtain rfl := Option.some.inj (hb.symm.trans hn)
      exact hrest hlaidr hnext hlater

theorem Laid.prev_child (hf : Laid h parent f) (hp : p ∈ f.nodes) (hc : ChildOf h p c) :
    ∃ n, h c = some n ∧ n.prev = some p := by
  obtain ⟨children, n, hn, hhead, hlaid, -⟩ := hf.children hp
  obtain ⟨m, first, hm, hfirst, hlater⟩ := hc
  obtain rfl := Option.some.inj (hn.symm.trans hm)
  exact hlaid.sibling (hhead ▸ hfirst) hlater

end Laid

/-- A tree: its root has no parent and no sibling, and no node lies at two places. -/
structure IsTree (h : Heap α β) (root : α) (d : β) (children : Forest α β) : Prop where
  laid : Laid h none (.cons root d children .nil)
  nodup : (Forest.cons root d children .nil).nodes.Nodup

theorem IsTree.unique {h : Heap α β} {root : α} {d d' : β} {f f' : Forest α β}
    (hf : IsTree h root d f) (hf' : IsTree h root d' f') : d = d' ∧ f = f' := by
  obtain ⟨-, rfl, rfl, -⟩ := Forest.cons.inj (hf.laid.unique hf'.laid rfl)
  exact ⟨rfl, rfl⟩

section Climb

variable {h : Heap α β}

/-- To the node where a walk without a stack goes on to the next one: the nearest that has a
sibling, or the root. -/
def climb (h : Heap α β) : ℕ → α → CRun α
  | 0, _ => .error .pending
  | fuel + 1, a => do
      let n ← look h a
      match n.next, n.prev with
      | none, some parent => climb h fuel parent
      | _, _ => return a

theorem climb_sibling {a b : α} {n : Node α β} (hn : h a = some n) (hnext : n.next = some b) :
    Ends (fun fuel => climb h fuel a) a := by
  refine Ends.round (fun fuel => ?_) (.ok a)
  rw [climb, look_some hn, CRun.ok_bind, hnext]
  rfl

theorem climb_root {a : α} {n : Node α β} (hn : h a = some n) (hprev : n.prev = none) :
    Ends (fun fuel => climb h fuel a) a := by
  refine Ends.round (fun fuel => ?_) (.ok a)
  rw [climb, look_some hn, CRun.ok_bind, hprev]
  cases n.next <;> rfl

theorem climb_last {a b c : α} {n : Node α β} (hn : h a = some n) (hnext : n.next = none)
    (hprev : n.prev = some b) :
    Ends (fun fuel => climb h fuel a) c ↔ Ends (fun fuel => climb h fuel b) c := by
  have hround (fuel : ℕ) : climb h (fuel + 1) a = climb h fuel b := by
    rw [climb, look_some hn, CRun.ok_bind, hnext, hprev]
  refine ⟨?_, Ends.round hround⟩
  rintro ⟨least, hleast⟩
  exact ⟨least, fun fuel hfuel => (hround fuel).symm.trans (hleast (fuel + 1) (by omega))⟩

/-- What a loop gives after the forest below a node: it climbs, and goes on at the next
sibling. Above the root there is nothing to go on with. -/
def Exits (h : Heap α β) (loop : ℕ → Option α → CRun γ) : Option α → γ → Prop
  | none, r => Ends (fun fuel => loop fuel none) r
  | some a, r => ∃ b n, Ends (fun fuel => climb h fuel a) b ∧ h b = some n ∧
      Ends (fun fuel => loop fuel n.next) r

variable {loop : ℕ → Option α → CRun γ} {r : γ} {parent : Option α} {a : α} {d : β}
  {children rest : Forest α β}

/-- From the last of the children a loop leaves with their parent. -/
theorem Exits.of_last (hlaid : Laid h parent (.cons a d children .nil))
    (hr : Exits h loop parent r) : Exits h loop (some a) r := by
  obtain ⟨ha, -, -⟩ := hlaid
  cases parent with
  | none => exact ⟨a, _, climb_root ha rfl, ha, hr⟩
  | some p =>
    obtain ⟨b, n, hclimb, hn, hr⟩ := hr
    exact ⟨b, n, (climb_last ha rfl rfl).mpr hclimb, hn, hr⟩

/-- From a child with a sibling it goes on to the sibling. -/
theorem Exits.of_sibling {b : α} (hlaid : Laid h parent (.cons a d children rest))
    (hrest : rest.head? = some b) (hr : Ends (fun fuel => loop fuel (some b)) r) :
    Exits h loop (some a) r :=
  ⟨a, _, climb_sibling hlaid.1 hrest, hlaid.1, hrest ▸ hr⟩

end Climb

section Walk

variable {σ : Type}

/-- What a walk gathers on a forest: from a node with children, and from one without. -/
def Forest.gather (inner leaf : σ → α → β → σ) : Forest α β → σ → σ
  | .nil, s => s
  | .cons a d .nil rest, s => rest.gather inner leaf (leaf s a d)
  | .cons a d (.cons b e children next) rest, s =>
      rest.gather inner leaf ((Forest.cons b e children next).gather inner leaf (inner s a d))

/-- A loop that gathers as it goes down, and leaves each node that has no children. -/
structure Walk (h : Heap α β) (loop : σ → ℕ → Option α → CRun γ) (inner leaf : σ → α → β → σ) :
    Prop where
  down : ∀ s a n b, h a = some n → n.children = some b → ∀ fuel,
    loop s (fuel + 1) (some a) = loop (inner s a n.data) fuel (some b)
  leave : ∀ s a n p r, h a = some n → n.children = none → n.prev = some p →
    Exits h (loop (leaf s a n.data)) (some a) r → Ends (fun fuel => loop s fuel (some a)) r

variable {h : Heap α β} {loop : σ → ℕ → Option α → CRun γ} {inner leaf : σ → α → β → σ}

/-- A walk on a forest is what it is after it has left the forest. -/
theorem Walk.forest (hw : Walk h loop inner leaf) {p a : α} {f : Forest α β} {s : σ} {r : γ}
    (hlaid : Laid h (some p) f) (hhead : f.head? = some a)
    (hr : Exits h (loop (f.gather inner leaf s)) (some p) r) :
    Ends (fun fuel => loop s fuel (some a)) r := by
  induction f generalizing p a s r with
  | nil => exact absurd hhead nofun
  | cons b d children rest hchildren hrest =>
    obtain rfl := Option.some.inj hhead
    obtain ⟨hb, hlaidc, hlaidr⟩ := id hlaid
    -- what comes behind the first tree
    have hnext (t : σ) (ht : Exits h (loop (rest.gather inner leaf t)) (some p) r) :
        Exits h (loop t) (some b) r := by
      cases rest with
      | nil => exact Exits.of_last hlaid ht
      | cons c e next tail => exact Exits.of_sibling hlaid rfl (hrest hlaidr rfl ht)
    cases children with
    | nil => exact hw.leave s b _ p r hb rfl rfl (hnext _ hr)
    | cons c e next tail =>
      exact Ends.round (hw.down s b _ c hb rfl) (hchildren hlaidc rfl (hnext _ hr))

end Walk

end Gftp.LinkedTrees
