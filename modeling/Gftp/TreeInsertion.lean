import Gftp.LinkedTrees

/-!
A new node becomes the last child of a node of a linked tree. The last child is found by
going along the siblings, or it is known already; one pointer is set, and what lies in the
memory afterwards is the tree with a leaf more. Nothing here refers to a program.
-/

namespace Gftp.TreeInsertion

open ByteStrings Fuel LinkedTrees

variable {α β : Type}

namespace Forest

open LinkedTrees.Forest

/-- A leaf behind the trees of a forest. -/
def snoc (x : α) (d : β) : Forest α β → Forest α β
  | .nil => .cons x d .nil .nil
  | .cons a e children rest => .cons a e children (snoc x d rest)

/-- A leaf behind the children of the node p. -/
def adopt [DecidableEq α] (p x : α) (d : β) : Forest α β → Forest α β
  | .nil => .nil
  | .cons a e children rest =>
      if a = p then .cons a e (snoc x d children) rest
      else .cons a e (adopt p x d children) (adopt p x d rest)

def last? : Forest α β → Option α
  | .nil => none
  | .cons a _ _ .nil => some a
  | .cons _ _ _ (.cons b e children rest) => last? (.cons b e children rest)

theorem entries_snoc (x : α) (d : β) (f : Forest α β) :
    (snoc x d f).entries = f.entries ++ [(x, d)] := by
  induction f with
  | nil => rfl
  | cons a e children rest _ hrest => simp [snoc, entries, hrest]

/-- Two forests next to each other. -/
def append : Forest α β → Forest α β → Forest α β
  | .nil, g => g
  | .cons a e children rest, g => .cons a e children (append rest g)

@[simp] theorem append_nil (f : Forest α β) : append f .nil = f := by
  induction f with
  | nil => rfl
  | cons a e children rest _ hrest => rw [append, hrest]

theorem append_assoc (f g k : Forest α β) : append (append f g) k = append f (append g k) := by
  induction f with
  | nil => rfl
  | cons a e children rest _ hrest => simp only [append, hrest]

theorem snoc_eq_append (x : α) (d : β) (f : Forest α β) :
    snoc x d f = append f (.cons x d .nil .nil) := by
  induction f with
  | nil => rfl
  | cons a e children rest _ hrest => rw [snoc, append, hrest]

theorem nodes_append (f g : Forest α β) : (append f g).nodes = f.nodes ++ g.nodes := by
  induction f with
  | nil => rfl
  | cons a e children rest _ hrest => simp [append, hrest]

theorem last?_mem {f : Forest α β} {l : α} (h : last? f = some l) : l ∈ f.nodes := by
  induction f with
  | nil => exact absurd h nofun
  | cons a e children rest _ hrest =>
    cases rest with
    | nil => simp [Option.some.inj h]
    | cons b e' children' rest' =>
      rw [nodes_cons, List.mem_cons, List.mem_append]
      exact .inr (.inr (hrest h))

variable [DecidableEq α] {p x : α} {d : β} {f : Forest α β}

theorem adopt_of_not_mem (h : p ∉ f.nodes) : adopt p x d f = f := by
  induction f with
  | nil => rfl
  | cons a e children rest hchildren hrest =>
    simp only [nodes_cons, List.mem_cons, List.mem_append, not_or] at h
    rw [adopt, if_neg (Ne.symm h.1), hchildren h.2.1, hrest h.2.2]

theorem adopt_append (h : p ∉ f.nodes) (g : Forest α β) :
    adopt p x d (append f g) = append f (adopt p x d g) := by
  induction f with
  | nil => rfl
  | cons a e children rest hchildren hrest =>
    simp only [nodes_cons, List.mem_cons, List.mem_append, not_or] at h
    rw [append, adopt, if_neg (Ne.symm h.1), adopt_of_not_mem h.2.1, hrest h.2.2, append]

theorem adopt_head? : (adopt p x d f).head? = f.head? := by
  cases f with
  | nil => rfl
  | cons a e children rest =>
    rw [adopt]
    split_ifs <;> rfl

theorem entries_adopt_perm (hp : p ∈ f.nodes) (hnodup : f.nodes.Nodup) :
    (adopt p x d f).entries.Perm ((x, d) :: f.entries) := by
  induction f with
  | nil => exact absurd hp nofun
  | cons a e children rest hchildren hrest =>
    rw [nodes_cons, List.nodup_cons, List.mem_append, not_or] at hnodup
    obtain ⟨⟨hac, har⟩, hnodup⟩ := hnodup
    obtain ⟨hnodupc, hnodupr, hdisjoint⟩ := List.nodup_append.mp hnodup
    rw [adopt]
    split_ifs with ha
    · simp only [entries, entries_snoc, List.append_assoc, List.cons_append, List.nil_append]
      exact (List.perm_middle.cons (a, e)).trans (List.Perm.swap ..)
    · rw [nodes_cons, List.mem_cons, List.mem_append] at hp
      simp only [entries]
      rcases hp with rfl | hp | hp
      · exact absurd rfl ha
      · rw [adopt_of_not_mem fun hmem => hdisjoint p hp p hmem rfl]
        exact (((hchildren hp hnodupc).append_right _).cons _).trans (List.Perm.swap ..)
      · rw [adopt_of_not_mem fun hmem => hdisjoint p hmem p hp rfl]
        exact ((((hrest hp hnodupr).append_left _).trans List.perm_middle).cons _).trans
          (List.Perm.swap ..)

theorem nodes_adopt_perm (hp : p ∈ f.nodes) (hnodup : f.nodes.Nodup) :
    (adopt p x d f).nodes.Perm (x :: f.nodes) :=
  (entries_adopt_perm hp hnodup).map Prod.fst

end Forest

section Link

/-- The last of the siblings from a node on. -/
def lastSibling (h : Heap α β) : ℕ → α → CRun α
  | 0, _ => .error .pending
  | fuel + 1, a => do
      match (← look h a).next with
      | some b => lastSibling h fuel b
      | none => return a

/-- The last child of a node, none when it has no children. -/
def lastChild (h : Heap α β) (fuel : ℕ) (p : α) : CRun (Option α) := do
  match (← look h p).children with
  | some c => return some (← lastSibling h fuel c)
  | none => return none

/-- The node x is put behind the last child of p, which is known. -/
def linkChild [DecidableEq α] (h : Heap α β) (p : α) (last : Option α) (x : α) : CRun (Heap α β) := do
  let n ← look h p
  match n.children, last with
  | none, _ => return Function.update h p (some { n with children := some x })
  | some _, some l =>
      let m ← look h l
      return Function.update h l (some { m with next := some x })
  | some _, none => .error .fault

variable {h : Heap α β} {parent : Option α} {f : Forest α β}

theorem lastSibling_laid {a : α} (hlaid : Laid h parent f) (hhead : f.head? = some a) :
    ∃ l, Forest.last? f = some l ∧ Ends (fun fuel => lastSibling h fuel a) l := by
  induction f generalizing a with
  | nil => exact absurd hhead nofun
  | cons b e children rest _ hrest =>
    obtain rfl := Option.some.inj hhead
    obtain ⟨hb, -, hlaidr⟩ := hlaid
    cases rest with
    | nil =>
      refine ⟨b, rfl, Ends.round (fun fuel => ?_) (.ok b)⟩
      rw [lastSibling, look_some hb]
      rfl
    | cons c e' children' rest' =>
      obtain ⟨l, hl, hend⟩ := hrest hlaidr rfl
      refine ⟨l, hl, Ends.round (fun fuel => ?_) hend⟩
      rw [lastSibling, look_some hb]
      rfl

theorem lastChild_laid {p : α} {n : Node α β} {children : Forest α β} (hn : h p = some n)
    (hhead : n.children = children.head?) (hlaid : Laid h (some p) children) :
    Ends (fun fuel => lastChild h fuel p) (Forest.last? children) := by
  cases hc : n.children with
  | none =>
    obtain rfl : children = .nil := by
      cases children with
      | nil => rfl
      | cons => exact absurd (hhead.symm.trans hc) nofun
    refine (Ends.ok none).congr fun fuel => ?_
    simp only [lastChild, look_some hn, CRun.ok_bind, hc]
    rfl
  | some c =>
    obtain ⟨l, hl, hsib⟩ := lastSibling_laid hlaid (hhead ▸ hc)
    rw [hl]
    refine (hsib.bind (k := fun _ l => .ok (some l)) (.ok (some l))).congr fun fuel => ?_
    simp only [lastChild, look_some hn, CRun.ok_bind, hc]
    rfl

theorem lastChild_ends {p : α} (hlaid : Laid h parent f) (hp : p ∈ f.nodes) :
    ∃ last, Ends (fun fuel => lastChild h fuel p) last := by
  obtain ⟨children, n, hn, hhead, hlaidc, -⟩ := hlaid.children hp
  exact ⟨_, lastChild_laid hn hhead hlaidc⟩

/-- The last child of a node of a forest depends on the forest only. -/
theorem lastChild_congr {h' : Heap α β} {p : α} {last : Option α} (hlaid : Laid h parent f)
    (hp : p ∈ f.nodes) (heq : ∀ y ∈ f.nodes, h' y = h y)
    (hlast : Ends (fun fuel => lastChild h fuel p) last) :
    Ends (fun fuel => lastChild h' fuel p) last := by
  obtain ⟨children, n, hn, hhead, hlaidc, hsub⟩ := hlaid.children hp
  have hn' : h' p = some n := (heq p hp).trans hn
  have hlaidc' := hlaidc.congr fun y hy => heq y (hsub y hy)
  rw [hlast.unique (lastChild_laid hn hhead hlaidc)]
  exact lastChild_laid hn' hhead hlaidc'

variable [DecidableEq α]

theorem linkChild_node {h' : Heap α β} {p x : α} {last : Option α}
    (hlink : linkChild h p last x = .ok h') (y : α) :
    (h y = none ∧ h' y = none) ∨ ∃ n n', h y = some n ∧ h' y = some n' ∧ n'.data = n.data ∧
      (n'.children = n.children ∨ y = p) := by
  have hset {a : α} {n n' : Node α β} (hn : h a = some n) (hdata : n'.data = n.data)
      (hchildren : n'.children = n.children ∨ a = p) :
      (h y = none ∧ Function.update h a (some n') y = none) ∨ ∃ m m', h y = some m ∧
        Function.update h a (some n') y = some m' ∧ m'.data = m.data ∧
          (m'.children = m.children ∨ y = p) := by
    by_cases hy : y = a
    · subst hy
      exact .inr ⟨n, n', hn, Function.update_self .., hdata, hchildren⟩
    · rw [Function.update_of_ne hy]
      cases hm : h y with
      | none => exact .inl ⟨rfl, rfl⟩
      | some m => exact .inr ⟨m, m, rfl, rfl, rfl, .inl rfl⟩
  unfold linkChild at hlink
  obtain ⟨n, hn, hlink⟩ := CRun.bind_eq_ok.mp hlink
  have hp := look_eq_ok hn
  split at hlink
  · obtain rfl := Except.ok.inj hlink
    exact hset hp rfl (.inr rfl)
  · obtain ⟨m, hm, hlink⟩ := CRun.bind_eq_ok.mp hlink
    obtain rfl := Except.ok.inj hlink
    exact hset (look_eq_ok hm) rfl (.inl rfl)
  · exact absurd hlink nofun

/-- A leaf behind a forest, which its last node points to. -/
theorem Laid.snoc {l x : α} {d : β} {m : Node α β} (hlaid : Laid h parent f)
    (hnodup : f.nodes.Nodup) (hx : x ∉ f.nodes) (hl : Forest.last? f = some l)
    (hm : h l = some m) (hxn : h x = some ⟨none, parent, none, d⟩) :
    Laid (Function.update h l (some { m with next := some x })) parent (Forest.snoc x d f) := by
  induction f with
  | nil => exact absurd hl nofun
  | cons a e children rest _ hrest =>
    obtain ⟨ha, hlaidc, hlaidr⟩ := hlaid
    rw [Forest.nodes_cons, List.nodup_cons, List.mem_append, not_or] at hnodup
    obtain ⟨⟨hac, har⟩, hnodup⟩ := hnodup
    obtain ⟨-, hnodupr, hdisjoint⟩ := List.nodup_append.mp hnodup
    simp only [Forest.nodes_cons, List.mem_cons, List.mem_append, not_or] at hx
    cases rest with
    | nil =>
      obtain rfl := Option.some.inj hl
      obtain rfl := Option.some.inj (ha.symm.trans hm)
      refine ⟨by simp [Forest.snoc, Forest.head?], hlaidc.congr fun y hy => ?_, ?_, trivial, trivial⟩
      · have hne : y ≠ a := fun heq => hac (heq ▸ hy)
        exact Function.update_of_ne hne ..
      · rw [Function.update_of_ne hx.1]
        exact hxn
    | cons b e' children' rest' =>
      have hlr : l ∈ (Forest.cons b e' children' rest').nodes := Forest.last?_mem hl
      refine ⟨?_, hlaidc.congr fun y hy => ?_, hrest hlaidr hnodupr hx.2.2 hl⟩
      · have hne : a ≠ l := fun heq => har (heq ▸ hlr)
        rw [Function.update_of_ne hne]
        exact ha
      · exact Function.update_of_ne (fun heq => hdisjoint y hy l hlr heq) ..

/-- The leaf x below p: what the pointers are set to lies as the forest with the leaf, and
nothing outside the forest changes. -/
theorem Laid.adopt {p x : α} {d : β} (hlaid : Laid h parent f) (hnodup : f.nodes.Nodup)
    (hp : p ∈ f.nodes) (hx : x ∉ f.nodes) (hxn : h x = some ⟨none, some p, none, d⟩) :
    ∃ last h', Ends (fun fuel => lastChild h fuel p) last ∧ linkChild h p last x = .ok h' ∧
      Laid h' parent (Forest.adopt p x d f) ∧ ∀ y, y ∉ f.nodes → h' y = h y := by
  induction f generalizing parent with
  | nil => exact absurd hp nofun
  | cons a e children rest hchildren hrest =>
    obtain ⟨ha, hlaidc, hlaidr⟩ := hlaid
    rw [Forest.nodes_cons, List.nodup_cons, List.mem_append, not_or] at hnodup
    obtain ⟨⟨hac, har⟩, hnodup⟩ := hnodup
    obtain ⟨hnodupc, hnodupr, hdisjoint⟩ := List.nodup_append.mp hnodup
    simp only [Forest.nodes_cons, List.mem_cons, List.mem_append, not_or] at hp hx ⊢
    by_cases hpa : a = p
    · subst hpa
      rw [Forest.adopt, if_pos rfl]
      cases children with
      | nil =>
        refine ⟨none, Function.update h a (some ⟨some x, parent, rest.head?, e⟩), ⟨0, fun _ _ => ?_⟩,
          ?_, ⟨?_, ⟨?_, trivial, trivial⟩, ?_⟩, fun y hy => Function.update_of_ne hy.1 ..⟩
        · simp only [lastChild, look_some ha]
          rfl
        · rw [linkChild, look_some ha]
          rfl
        · exact Function.update_self ..
        · rw [Function.update_of_ne hx.1]
          exact hxn
        · refine hlaidr.congr fun y hy => Function.update_of_ne ?_ ..
          exact fun heq => har (heq ▸ hy)
      | cons b e' children' next =>
        obtain ⟨l, hl, hend⟩ := lastSibling_laid hlaidc rfl
        have hlc := Forest.last?_mem hl
        obtain ⟨m, hm⟩ := hlaidc.alive hlc
        refine ⟨some l, Function.update h l (some { m with next := some x }), ?_, ?_,
          ⟨?_, Laid.snoc hlaidc hnodupc hx.2.1 hl hm hxn, ?_⟩, fun y hy => ?_⟩
        · refine hend.bind (k := fun _ l => .ok (some l)) (.ok (some l)) |>.congr fun fuel => ?_
          rw [lastChild, look_some ha]
          rfl
        · rw [linkChild, look_some ha, CRun.ok_bind]
          dsimp only [Forest.head?]
          rw [look_some hm]
          rfl
        · have hne : a ≠ l := fun heq => hac (heq ▸ hlc)
          rw [Function.update_of_ne hne]
          exact ha
        · refine hlaidr.congr fun y hy => Function.update_of_ne ?_ ..
          exact fun heq => hdisjoint l hlc y hy heq.symm
        · refine Function.update_of_ne ?_ ..
          exact fun heq => hy.2.1 (heq ▸ hlc)
    · rw [Forest.adopt, if_neg hpa]
      rcases hp with rfl | hpc | hpr
      · exact absurd rfl hpa
      · obtain ⟨last, h', hlast, hlink, hlaid', hframe⟩ := hchildren hlaidc hnodupc hpc hx.2.1
        have hpr : p ∉ rest.nodes := fun hmem => hdisjoint p hpc p hmem rfl
        rw [Forest.adopt_of_not_mem hpr]
        refine ⟨last, h', hlast, hlink, ⟨?_, hlaid', hlaidr.congr fun y hy => ?_⟩,
          fun y hy => hframe y hy.2.1⟩
        · rw [hframe a hac, Forest.adopt_head?]
          exact ha
        · exact hframe y fun hmem => hdisjoint y hmem y hy rfl
      · obtain ⟨last, h', hlast, hlink, hlaid', hframe⟩ := hrest hlaidr hnodupr hpr hx.2.2
        have hpc : p ∉ children.nodes := fun hmem => hdisjoint p hmem p hpr rfl
        rw [Forest.adopt_of_not_mem hpc]
        refine ⟨last, h', hlast, hlink, ⟨?_, hlaidc.congr fun y hy => ?_, hlaid'⟩,
          fun y hy => hframe y hy.2.2⟩
        · rw [hframe a har, Forest.adopt_head?]
          exact ha
        · exact hframe y fun hmem => hdisjoint y hy y hmem rfl

end Link

end Gftp.TreeInsertion
