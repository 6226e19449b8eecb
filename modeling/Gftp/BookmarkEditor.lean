import Mathlib.Algebra.Order.BigOperators.Group.List
import Mathlib.Algebra.Order.Ring.Nat
import Gftp.BookmarkStore

/-!
The bookmark editor. build_bookmarks_tree copies the entries into the rows of a tree store,
and bm_apply_changes destroys the tree and makes a new one of the rows. Both go through the
rows below the root and through their children, and no further.
-/

namespace Gftp.BookmarkEditor

open ByteStrings Fuel LinkedTrees TreeInsertion Bookmarks BookmarkStore

/-- Every field is copied; the new entry has no neighbours. -/
def copyBookmarks (tempentry : Bookmark) : Bookmark where
  path := tempentry.path
  hostname := tempentry.hostname
  protocol := tempentry.protocol
  remoteDir := tempentry.remoteDir
  localDir := tempentry.localDir
  user := tempentry.user
  pass := tempentry.pass
  acct := tempentry.acct
  port := tempentry.port
  isfolder := tempentry.isfolder
  savePassword := tempentry.savePassword
  localOptions := tempentry.localOptions

/-- The rows of the tree store, each with the entry it holds. No two rows hold one entry, so
that the entry stands for the iterator of its row. -/
abbrev Rows := Forest ℕ Unit

/-- A row behind the others, or behind the children of a row. -/
def gtkTreeStoreAppend (rows : Rows) (parent : Option ℕ) (entry : ℕ) : Rows :=
  match parent with
  | none => Forest.snoc entry () rows
  | some iter => Forest.adopt iter entry () rows

structure Built where
  store : Store
  rows : Rows

/-- A copy of an entry in a row of its own. -/
def appendCopy (b : Built) (parent : Option ℕ) (d : Bookmark) : Built where
  store := b.store.alloc ⟨none, none, none, copyBookmarks d⟩
  rows := gtkTreeStoreAppend b.rows parent b.store.brk

/-- The inner loop of build_bookmarks_tree. -/
def buildChildren (iter : ℕ) : ℕ → Built → Option ℕ → CRun Built
  | 0, _, _ => .error .pending
  | _ + 1, b, none => return b
  | fuel + 1, b, some preventry => do
      let n ← look b.store.nodes preventry
      buildChildren iter fuel (appendCopy b (some iter) n.data) n.next

def buildRows : ℕ → Built → Option ℕ → CRun Built
  | 0, _, _ => .error .pending
  | _ + 1, b, none => return b
  | fuel + 1, b, some tempentry => do
      let n ← look b.store.nodes tempentry
      let b ← buildChildren b.store.brk fuel (appendCopy b none n.data) n.children
      buildRows fuel b n.next

def buildBookmarksTree (fuel : ℕ) (s : Store) : CRun Built := do
  buildRows fuel ⟨s, .nil⟩ (← look s.nodes s.root).children

def changeNode (h : BookmarkHeap ℕ) (a : ℕ) (g : Node ℕ Bookmark → Node ℕ Bookmark) :
    CRun (BookmarkHeap ℕ) := do
  return Function.update h a (some (g (← look h a)))

/-- Nothing is done for NULL. -/
def setNext (h : BookmarkHeap ℕ) (prev next : Option ℕ) : CRun (BookmarkHeap ℕ) :=
  match prev with
  | none => return h
  | some prev => changeNode h prev fun n => { n with next }

/-- The variables childN and prevN of a loop over rows. -/
structure Level where
  nodes : BookmarkHeap ℕ
  child : Option ℕ
  prev : Option ℕ

/-- The last entry of a level has no next one. -/
def Level.close (l : Level) : CRun (BookmarkHeap ℕ) := setNext l.nodes l.prev none

/-- The inner loop of bm_apply_changes, over the children of a row. -/
def applyChildren (entry0 : ℕ) : Rows → Level → CRun Level
  | .nil, l => return l
  | .cons entry1 _ _ rest, l => do
      let nodes ← setNext l.nodes l.prev (some entry1)
      let nodes ← changeNode nodes entry1 fun n => { n with prev := some entry0, children := none }
      applyChildren entry0 rest ⟨nodes, some (l.child.getD entry1), some entry1⟩

/-- An entry that has children becomes a folder. -/
def withChildren (child : Option ℕ) (n : Node ℕ Bookmark) : Node ℕ Bookmark :=
  { n with
    children := child
    data := if child.isSome then { n.data with isfolder := true } else n.data }

def applyRows (root : ℕ) : Rows → Level → CRun Level
  | .nil, l => return l
  | .cons entry0 _ children rest, l => do
      let nodes ← setNext l.nodes l.prev (some entry0)
      let nodes ← changeNode nodes entry0 fun n => { n with prev := some root }
      let inner ← applyChildren entry0 children ⟨nodes, none, none⟩
      let nodes ← changeNode (← inner.close) entry0 (withChildren inner.child)
      applyRows root rest ⟨nodes, some (l.child.getD entry0), some entry0⟩

/-- bm_apply_changes, up to the menu and the file. -/
def bmApplyChanges (fuel : ℕ) (b : Built) : CRun Store := do
  let freed ← gftpBookmarksDestroy fuel b.store.nodes (some b.store.root)
  let root := b.store.brk
  let s := { b.store with nodes := freed.heap }.alloc
    ⟨none, none, none, { Bookmark.fresh [] with isfolder := true }⟩
  let outer ← applyRows root b.rows ⟨s.nodes, none, none⟩
  let nodes ← changeNode (← outer.close) root fun n => { n with children := outer.child }
  let htable ← buildBookmarksHashTable nodes fuel (some root)
  return { s with nodes, root, htable }

/-- The editor is opened and its changes are applied. -/
def editBookmarks (fuel : ℕ) (s : Store) : CRun Store := do
  bmApplyChanges fuel (← buildBookmarksTree fuel s)

section Copies

variable {s s' s'' : Store} {es es' : List (ℕ × Bookmark)}

/-- The entries es were made, each without neighbours; those of s are as they were. -/
structure Copied (s s' : Store) (es : List (ℕ × Bookmark)) : Prop where
  root : s'.root = s.root
  brk : s.brk ≤ s'.brk
  same : ∀ a, a < s.brk → s'.nodes a = s.nodes a
  unused : (∀ a, s.brk ≤ a → s.nodes a = none) → ∀ a, s'.brk ≤ a → s'.nodes a = none
  made : ∀ e ∈ es, s.brk ≤ e.1 ∧ e.1 < s'.brk ∧ s'.nodes e.1 = some ⟨none, none, none, e.2⟩
  nodup : (es.map Prod.fst).Nodup

theorem Copied.refl (s : Store) : Copied s s [] where
  root := rfl
  brk := Nat.le_refl _
  same _ _ := rfl
  unused h := h
  made _ he := absurd he List.not_mem_nil
  nodup := .nil

theorem Copied.trans (h : Copied s s' es) (h' : Copied s' s'' es') :
    Copied s s'' (es ++ es') where
  root := h'.root.trans h.root
  brk := h.brk.trans h'.brk
  same a ha := (h'.same a (lt_of_lt_of_le ha h.brk)).trans (h.same a ha)
  unused hs := h'.unused (h.unused hs)
  made e he := by
    rcases List.mem_append.mp he with he | he
    · obtain ⟨hge, hlt, hn⟩ := h.made e he
      exact ⟨hge, lt_of_lt_of_le hlt h'.brk, (h'.same e.1 hlt).trans hn⟩
    · obtain ⟨hge, hlt, hn⟩ := h'.made e he
      exact ⟨h.brk.trans hge, hlt, hn⟩
  nodup := by
    rw [List.map_append]
    refine h.nodup.append h'.nodup fun a ha ha' => ?_
    obtain ⟨e, he, rfl⟩ := List.mem_map.mp ha
    obtain ⟨e', he', heq⟩ := List.mem_map.mp ha'
    have hlt := (h.made e he).2.1
    have hge := (h'.made e' he').1
    omega

theorem Copied.alloc (s : Store) (d : Bookmark) :
    Copied s (s.alloc ⟨none, none, none, d⟩) [(s.brk, d)] where
  root := rfl
  brk := Nat.le_succ _
  same a ha := alloc_node_ne (Nat.ne_of_lt ha)
  unused hs a ha := by
    have hlt : s.brk < a := ha
    exact (alloc_node_ne (Nat.ne_of_gt hlt)).trans (hs a (by omega))
  made e he := by
    obtain rfl := List.mem_singleton.mp he
    exact ⟨Nat.le_refl _, Nat.lt_succ_self _, alloc_node_self⟩
  nodup := List.nodup_singleton _

end Copies

section Images

variable {α β : Type}

/-- The trees of a forest without what is below their roots. -/
def roots : Forest α β → Forest α β
  | .nil => .nil
  | .cons a d _ rest => .cons a d .nil (roots rest)

/-- The trees with the children of their roots, and no more. -/
def twoLevels : Forest α β → Forest α β
  | .nil => .nil
  | .cons a d children rest => .cons a d (roots children) (twoLevels rest)

/-- Two levels, and an entry that has children is a folder. -/
def edited : Forest α Bookmark → Forest α Bookmark
  | .nil => .nil
  | .cons a d children rest =>
      .cons a (if children.head?.isSome then { d with isfolder := true } else d) (roots children)
        (edited rest)

/-- A forest without its nodes. -/
def content (f : Forest α β) : Forest Unit β := f.map (fun _ => ()) id

def rowsOf (f : Forest α β) : Forest α Unit := f.map id fun _ => ()

theorem content_roots (f : Forest α β) : content (roots f) = roots (content f) := by
  unfold content
  induction f with
  | nil => rfl
  | cons a d children rest _ hrest => simp only [roots, Forest.map, hrest]

theorem head?_content (f : Forest α β) : (content f).head?.isSome = f.head?.isSome := by
  cases f <;> rfl

theorem content_edited (f : Forest α Bookmark) : content (edited f) = edited (content f) := by
  induction f with
  | nil => rfl
  | cons a d children rest _ hrest =>
    have hroots : (roots children).map (fun _ => ()) id = roots (children.map (fun _ => ()) id) :=
      content_roots children
    have hrest' : (edited rest).map (fun _ => ()) id = edited (rest.map (fun _ => ()) id) := hrest
    have hhead : (children.map (fun _ => ()) id).head?.isSome = children.head?.isSome :=
      head?_content children
    simp only [content, edited, Forest.map, hroots, hrest', hhead, id_eq]

theorem edited_twoLevels (f : Forest α Bookmark) : edited (twoLevels f) = edited f := by
  have hroots (g : Forest α Bookmark) : roots (roots g) = roots g := by
    induction g with
    | nil => rfl
    | cons a d children rest _ hrest => simp only [roots, hrest]
  have hhead (g : Forest α Bookmark) : (roots g).head? = g.head? := by
    cases g <;> rfl
  induction f with
  | nil => rfl
  | cons a d children rest _ hrest => simp only [twoLevels, edited, hroots, hhead, hrest]

theorem nodes_rowsOf (f : Forest α β) : (rowsOf f).nodes = f.nodes := by
  rw [rowsOf, Forest.nodes, Forest.entries_map, List.map_map]
  rfl

end Images

section Build

variable {s : Store} {f : Forest ℕ Bookmark}

theorem append_below {iter x : ℕ} {rows : Rows} (below : Rows) (hiter : iter ∉ rows.nodes) :
    gtkTreeStoreAppend (Forest.append rows (.cons iter () below .nil)) (some iter) x =
      Forest.append rows (.cons iter () (Forest.snoc x () below) .nil) := by
  rw [gtkTreeStoreAppend, Forest.adopt_append hiter, Forest.adopt, if_pos rfl]

theorem buildChildren_ends {t iter : ℕ} {rows below : Rows} (hlaid : Laid s.nodes (some t) f)
    (hlt : ∀ a ∈ f.nodes, a < s.brk) (hiter : iter ∉ rows.nodes) :
    ∃ s' g, Ends (fun fuel => buildChildren iter fuel
          ⟨s, Forest.append rows (.cons iter () below .nil)⟩ f.head?)
        ⟨s', Forest.append rows (.cons iter () (Forest.append below (rowsOf g)) .nil)⟩ ∧
      content g = content (roots f) ∧ Copied s s' g.entries := by
  induction f generalizing s below with
  | nil =>
    refine ⟨s, .nil, Ends.round (fun fuel => rfl) ?_, rfl, .refl s⟩
    rw [rowsOf, Forest.map, Forest.append_nil]
    exact Ends.ok _
  | cons b d children rest _ hrest =>
    obtain ⟨hb, -, hlaidr⟩ := hlaid
    have hcopy := Copied.alloc s d
    have hltr : ∀ a ∈ rest.nodes, a < s.brk := fun a ha => hlt a (by simp [ha])
    obtain ⟨s', g, hend, hcontent, hcopied⟩ := @hrest _ (Forest.snoc s.brk () below)
      (hlaidr.congr fun y hy => hcopy.same y (hltr y hy))
      fun a ha => lt_of_lt_of_le (hltr a ha) hcopy.brk
    have hbelow : Forest.append (Forest.snoc s.brk () below) (rowsOf g) =
        Forest.append below (rowsOf (.cons s.brk d .nil g)) := by
      rw [Forest.snoc_eq_append, Forest.append_assoc]
      rfl
    refine ⟨s', .cons s.brk d .nil g, Ends.round (fun fuel => ?_) (hbelow ▸ hend), ?_, ?_⟩
    · rw [Forest.head?, buildChildren, look_some hb, CRun.ok_bind, appendCopy,
        append_below below hiter]
      rfl
    · have hcontent' : g.map (fun _ => ()) id = (roots rest).map (fun _ => ()) id := hcontent
      simp only [content, roots, Forest.map, hcontent']
    · exact hcopy.trans hcopied

theorem buildRows_ends {t : ℕ} {rows : Rows} (hlaid : Laid s.nodes (some t) f)
    (hlt : ∀ a ∈ f.nodes, a < s.brk) (hrows : ∀ a ∈ rows.nodes, a < s.brk) :
    ∃ s' g, Ends (fun fuel => buildRows fuel ⟨s, rows⟩ f.head?)
        ⟨s', Forest.append rows (rowsOf g)⟩ ∧
      content g = content (twoLevels f) ∧ Copied s s' g.entries := by
  induction f generalizing s rows with
  | nil =>
    refine ⟨s, .nil, Ends.round (fun fuel => rfl) ?_, rfl, .refl s⟩
    rw [rowsOf, Forest.map, Forest.append_nil]
    exact Ends.ok _
  | cons a d children rest _ hrest =>
    obtain ⟨ha, hlaidc, hlaidr⟩ := hlaid
    have hcopy := Copied.alloc s d
    have hltc : ∀ y ∈ children.nodes, y < s.brk := fun y hy => hlt y (by simp [hy])
    have hltr : ∀ y ∈ rest.nodes, y < s.brk := fun y hy => hlt y (by simp [hy])
    have hiter : s.brk ∉ rows.nodes := fun hmem => Nat.lt_irrefl _ (hrows _ hmem)
    obtain ⟨s₁, g₁, hend₁, hcontent₁, hcopied₁⟩ := @buildChildren_ends _ _ _ s.brk rows .nil
      (hlaidc.congr fun y hy => hcopy.same y (hltc y hy))
      (fun y hy => lt_of_lt_of_le (hltc y hy) hcopy.brk) hiter
    have hcopied := hcopy.trans hcopied₁
    have hrows₁ : ∀ y ∈ (Forest.append rows (.cons s.brk () (rowsOf g₁) .nil)).nodes,
        y < s₁.brk := by
      intro y hy
      simp only [Forest.nodes_append, Forest.nodes_cons, nodes_rowsOf, Forest.nodes_nil,
        List.append_nil, List.mem_append, List.mem_cons] at hy
      rcases hy with hy | rfl | hy
      · exact lt_of_lt_of_le (hrows y hy) hcopied.brk
      · exact lt_of_lt_of_le (Nat.lt_succ_self _) hcopied₁.brk
      · obtain ⟨e, he, rfl⟩ := List.mem_map.mp hy
        exact (hcopied₁.made e he).2.1
    obtain ⟨s', g, hend, hcontent, hcopied'⟩ := hrest
      (hlaidr.congr fun y hy => hcopied.same y (hltr y hy))
      (fun y hy => lt_of_lt_of_le (hltr y hy) hcopied.brk) hrows₁
    have hall : Forest.append (Forest.append rows (.cons s.brk () (rowsOf g₁) .nil)) (rowsOf g) =
        Forest.append rows (rowsOf (.cons s.brk d g₁ g)) := by
      rw [Forest.append_assoc]
      rfl
    refine ⟨s', .cons s.brk d g₁ g, ?_, ?_, ?_⟩
    · refine Ends.round (g := fun fuel => do
        let b ← buildChildren s.brk fuel
          ⟨s.alloc ⟨none, none, none, d⟩, Forest.append rows (.cons s.brk () .nil .nil)⟩
          children.head?
        buildRows fuel b rest.head?) (fun fuel => ?_) (hend₁.bind (hall ▸ hend))
      rw [Forest.head?, buildRows, look_some ha, CRun.ok_bind, appendCopy, gtkTreeStoreAppend,
        Forest.snoc_eq_append]
      rfl
    · have hcontent₁' : g₁.map (fun _ => ()) id = (roots children).map (fun _ => ()) id := hcontent₁
      have hcontent' : g.map (fun _ => ()) id = (twoLevels rest).map (fun _ => ()) id := hcontent
      simp only [content, twoLevels, Forest.map, hcontent₁', hcontent']
    · simpa [Forest.entries] using hcopied.trans hcopied'

end Build

section Apply

theorem changeNode_some {h : BookmarkHeap ℕ} {a : ℕ} {n : Node ℕ Bookmark}
    (g : Node ℕ Bookmark → Node ℕ Bookmark) (hn : h a = some n) :
    changeNode h a g = .ok (Function.update h a (some (g n))) := by
  rw [changeNode, look_some hn]
  rfl

theorem setNext_ends {h : BookmarkHeap ℕ} {prev : Option ℕ} (next : Option ℕ)
    (hprev : ∀ q, prev = some q → ∃ n, h q = some n) :
    ∃ h', setNext h prev next = .ok h' ∧ (∀ x, prev ≠ some x → h' x = h x) ∧
      ∀ q n, prev = some q → h q = some n → h' q = some { n with next } := by
  cases prev with
  | none => exact ⟨h, rfl, fun _ _ => rfl, fun q _ hq => by cases hq⟩
  | some q =>
    obtain ⟨n, hn⟩ := hprev q rfl
    refine ⟨_, changeNode_some _ hn, fun x hx => ?_, fun q' n' hq hn' => ?_⟩
    · have hne : x ≠ q := fun heq => hx (heq ▸ rfl)
      exact Function.update_of_ne hne ..
    · obtain rfl := Option.some.inj hq
      obtain rfl := Option.some.inj (hn.symm.trans hn')
      exact Function.update_self ..

variable {g : Forest ℕ Bookmark} {l : Level}

/-- The entries of a forest are in memory, and the one before them is another one. -/
structure Ready (l : Level) (g : Forest ℕ Bookmark) : Prop where
  alive : ∀ e ∈ g.entries, ∃ n, l.nodes e.1 = some n ∧ n.data = e.2
  nodup : g.nodes.Nodup
  prev : ∀ q, l.prev = some q → q ∉ g.nodes ∧ ∃ n, l.nodes q = some n

/-- What a loop over rows leaves: the entries lie as the forest k below p, the one before them
points to the first, and nothing else changed. -/
structure Applied (l : Level) (g : Forest ℕ Bookmark) (p : ℕ) (k : Forest ℕ Bookmark)
    (l' : Level) (h : BookmarkHeap ℕ) : Prop where
  close : l'.close = .ok h
  child : l'.child = l.child.or g.head?
  laid : Laid h (some p) k
  frame : ∀ x, x ∉ g.nodes → l.prev ≠ some x → h x = l.nodes x
  before : ∀ q n, l.prev = some q → l.nodes q = some n → h q = some { n with next := g.head? }

theorem Applied.nil (hready : Ready l .nil) (p : ℕ) : ∃ h, Applied l .nil p .nil l h := by
  obtain ⟨h, hclose, hframe, hbefore⟩ := setNext_ends none fun q hq => (hready.prev q hq).2
  refine ⟨h, ⟨hclose, ?_, trivial, fun x _ hx => hframe x hx, hbefore⟩⟩
  cases l.child <;> rfl

theorem head?_roots (f : Forest ℕ Bookmark) : (roots f).head? = f.head? := by
  cases f <;> rfl

theorem nodes_roots (f : Forest ℕ Bookmark) : (roots f).nodes.Sublist f.nodes := by
  induction f with
  | nil => exact .slnil
  | cons a d children rest _ hrest =>
    simp only [roots, Forest.nodes_cons, Forest.nodes_nil, List.nil_append]
    exact (hrest.trans (List.sublist_append_right ..)).cons_cons a

/-- The children of a row become children of its entry, without any of their own. -/
theorem applyChildren_ends {p : ℕ} (hready : Ready l g) :
    ∃ l' h, applyChildren p (rowsOf g) l = .ok l' ∧ Applied l g p (roots g) l' h := by
  induction g generalizing l with
  | nil =>
    obtain ⟨h, happlied⟩ := Applied.nil hready p
    exact ⟨l, h, rfl, happlied⟩
  | cons b d children rest _ hrest =>
    have hnodup := hready.nodup
    rw [Forest.nodes_cons, List.nodup_cons, List.mem_append, not_or] at hnodup
    obtain ⟨⟨-, hbr⟩, hnodup⟩ := hnodup
    have hbmem : b ∈ (Forest.cons b d children rest).nodes := List.mem_cons_self ..
    obtain ⟨h₁, hset, hframe₁, hbefore₁⟩ :=
      setNext_ends (some b) fun q hq => (hready.prev q hq).2
    have hother (x : ℕ) (hx : x ∈ (Forest.cons b d children rest).nodes) : h₁ x = l.nodes x :=
      hframe₁ x fun hq => (hready.prev x hq).1 hx
    obtain ⟨n, hn, rfl⟩ : ∃ n, l.nodes b = some n ∧ n.data = d :=
      hready.alive (b, d) (List.mem_cons_self ..)
    have hn₁ : h₁ b = some n := (hother b hbmem).trans hn
    let h₂ := Function.update h₁ b (some { n with prev := some p, children := none })
    have hkeep (x : ℕ) (hx : x ≠ b) : h₂ x = h₁ x := Function.update_of_ne hx ..
    have hready₂ : Ready ⟨h₂, some (l.child.getD b), some b⟩ rest := by
      refine ⟨fun e he => ?_, (List.nodup_append.mp hnodup).2.1, fun q hq => ?_⟩
      · have hmem : e.1 ∈ rest.nodes := List.mem_map_of_mem he
        have hne : e.1 ≠ b := fun heq => hbr (heq ▸ hmem)
        obtain ⟨m, hm, hmdata⟩ := hready.alive e (by simp [Forest.entries, he])
        exact ⟨m, (hkeep _ hne).trans ((hother _ (by simp [hmem])).trans hm), hmdata⟩
      · obtain rfl := Option.some.inj hq
        exact ⟨hbr, _, Function.update_self ..⟩
    obtain ⟨l', h, hloop, happlied⟩ := hrest hready₂
    refine ⟨l', h, ?_, happlied.close, ?_, ⟨?_, trivial, happlied.laid⟩, fun x hx hprev => ?_,
      fun q m hq hm => ?_⟩
    · rw [rowsOf, Forest.map, applyChildren, id, hset, CRun.ok_bind, changeNode_some _ hn₁,
        CRun.ok_bind]
      exact hloop
    · rw [happlied.child]
      cases l.child <;> rfl
    · rw [head?_roots, happlied.before b _ rfl (Function.update_self ..)]
      rfl
    · simp only [Forest.nodes_cons, List.mem_cons, List.mem_append, not_or] at hx
      rw [happlied.frame x hx.2.2 fun heq => hx.1 (Option.some.inj heq).symm]
      exact (hkeep x hx.1).trans (hframe₁ x hprev)
    · have hq' := (hready.prev q hq).1
      simp only [Forest.nodes_cons, List.mem_cons, List.mem_append, not_or] at hq'
      rw [happlied.frame q hq'.2.2 fun heq => hq'.1 (Option.some.inj heq).symm]
      exact (hkeep q hq'.1).trans (hbefore₁ q m hq hm)

/-- The rows become children of the root, with their own children. -/
theorem applyRows_ends {root : ℕ} (hready : Ready l g) :
    ∃ l' h, applyRows root (rowsOf g) l = .ok l' ∧ Applied l g root (edited g) l' h := by
  induction g generalizing l with
  | nil =>
    obtain ⟨h, happlied⟩ := Applied.nil hready root
    exact ⟨l, h, rfl, happlied⟩
  | cons a d children rest _ hrest =>
    have hnodup := hready.nodup
    rw [Forest.nodes_cons, List.nodup_cons, List.mem_append, not_or] at hnodup
    obtain ⟨⟨hac, har⟩, hnodup⟩ := hnodup
    obtain ⟨hnodupc, hnodupr, hdisjoint⟩ := List.nodup_append.mp hnodup
    have hamem : a ∈ (Forest.cons a d children rest).nodes := List.mem_cons_self ..
    obtain ⟨h₁, hset, hframe₁, hbefore₁⟩ :=
      setNext_ends (some a) fun q hq => (hready.prev q hq).2
    have hother (x : ℕ) (hx : x ∈ (Forest.cons a d children rest).nodes) : h₁ x = l.nodes x :=
      hframe₁ x fun hq => (hready.prev x hq).1 hx
    obtain ⟨n, hn, rfl⟩ : ∃ n, l.nodes a = some n ∧ n.data = d :=
      hready.alive (a, d) (List.mem_cons_self ..)
    have hn₁ : h₁ a = some n := (hother a hamem).trans hn
    let h₂ := Function.update h₁ a (some { n with prev := some root })
    have hkeep₂ (x : ℕ) (hx : x ≠ a) : h₂ x = h₁ x := Function.update_of_ne hx ..
    -- the loop over the children of the row
    have hreadyc : Ready ⟨h₂, none, none⟩ children := by
      refine ⟨fun e he => ?_, hnodupc, (by simp)⟩
      have hmem : e.1 ∈ children.nodes := List.mem_map_of_mem he
      have hne : e.1 ≠ a := fun heq => hac (heq ▸ hmem)
      obtain ⟨m, hm, hmdata⟩ := hready.alive e (by simp [Forest.entries, he])
      exact ⟨m, (hkeep₂ _ hne).trans ((hother _ (by simp [hmem])).trans hm), hmdata⟩
    obtain ⟨inner, h₃, hinner, happliedc⟩ := @applyChildren_ends _ _ a hreadyc
    have hchild : inner.child = children.head? := by
      rw [happliedc.child]
      rfl
    have hn₃ : h₃ a = some { n with prev := some root } :=
      (happliedc.frame a hac (by simp)).trans (Function.update_self ..)
    let h₄ := Function.update h₃ a (some (withChildren children.head? { n with prev := some root }))
    have hkeep₄ (x : ℕ) (hx : x ≠ a) : h₄ x = h₃ x := Function.update_of_ne hx ..
    have hready₄ : Ready ⟨h₄, some (l.child.getD a), some a⟩ rest := by
      refine ⟨fun e he => ?_, hnodupr, fun q hq => ?_⟩
      · have hmem : e.1 ∈ rest.nodes := List.mem_map_of_mem he
        have hne : e.1 ≠ a := fun heq => har (heq ▸ hmem)
        have hout : e.1 ∉ children.nodes := fun hin => hdisjoint _ hin _ hmem rfl
        obtain ⟨m, hm, hmdata⟩ := hready.alive e (by simp [Forest.entries, he])
        refine ⟨m, (hkeep₄ _ hne).trans ((happliedc.frame _ hout (by simp)).trans ?_), hmdata⟩
        exact (hkeep₂ _ hne).trans ((hother _ (by simp [hmem])).trans hm)
      · obtain rfl := Option.some.inj hq
        exact ⟨har, _, Function.update_self ..⟩
    obtain ⟨l', h, hloop, happlied⟩ := hrest hready₄
    refine ⟨l', h, ?_, happlied.close, ?_, ⟨?_, ?_, happlied.laid⟩, fun x hx hprev => ?_,
      fun q m hq hm => ?_⟩
    · rw [rowsOf, Forest.map, applyRows, id, hset, CRun.ok_bind, changeNode_some _ hn₁, CRun.ok_bind]
      refine (congrArg (· >>= _) hinner).trans ?_
      rw [CRun.ok_bind, happliedc.close, CRun.ok_bind, changeNode_some _ hn₃, CRun.ok_bind, hchild]
      exact hloop
    · rw [happlied.child]
      cases l.child <;> rfl
    · rw [happlied.before a _ rfl (Function.update_self ..), head?_roots]
      have hhead : (edited rest).head? = rest.head? := by cases rest <;> rfl
      rw [hhead]
      rfl
    · refine happliedc.laid.congr fun y hy => ?_
      have hyc : y ∈ children.nodes := (nodes_roots children).subset hy
      have hne : y ≠ a := fun heq => hac (heq ▸ hyc)
      rw [happlied.frame y (fun hmem => hdisjoint y hyc y hmem rfl)
        fun heq => hne (Option.some.inj heq).symm]
      exact hkeep₄ y hne
    · simp only [Forest.nodes_cons, List.mem_cons, List.mem_append, not_or] at hx
      rw [happlied.frame x hx.2.2 fun heq => hx.1 (Option.some.inj heq).symm]
      refine (hkeep₄ x hx.1).trans ((happliedc.frame x hx.2.1 (by simp)).trans ?_)
      exact (hkeep₂ x hx.1).trans (hframe₁ x hprev)
    · have hq' := (hready.prev q hq).1
      simp only [Forest.nodes_cons, List.mem_cons, List.mem_append, not_or] at hq'
      rw [happlied.frame q hq'.2.2 fun heq => hq'.1 (Option.some.inj heq).symm]
      refine (hkeep₄ q hq'.1).trans ((happliedc.frame q hq'.2.1 (by simp)).trans ?_)
      exact (hkeep₂ q hq'.1).trans (hbefore₁ q m hq hm)

end Apply

section Edit

variable {s : Store} {rd : Bookmark} {f : Forest ℕ Bookmark}

theorem head?_edited (f : Forest ℕ Bookmark) : (edited f).head? = f.head? := by
  cases f <;> rfl

theorem nodes_edited (f : Forest ℕ Bookmark) : (edited f).nodes.Sublist f.nodes := by
  induction f with
  | nil => exact .slnil
  | cons a d children rest _ hrest =>
    simp only [edited, Forest.nodes_cons]
    exact ((nodes_roots children).append hrest).cons_cons a

/-- The root bm_apply_changes makes. -/
def newRoot : Bookmark := { Bookmark.fresh [] with isfolder := true }

/-- A tree of the rows takes the place of the one there was. -/
theorem bmApplyChanges_ends {s' : Store} {g : Forest ℕ Bookmark} (htree : IsTree s.nodes s.root rd f)
    (hunused : ∀ a, s.brk ≤ a → s.nodes a = none) (hcopied : Copied s s' g.entries) :
    ∃ t, Ends (fun fuel => bmApplyChanges fuel ⟨s', rowsOf g⟩) t ∧
      IsTree t.nodes t.root newRoot (edited g) := by
  have hold (y : ℕ) (hy : y ∈ (whole s rd f).nodes) : y < s.brk := by
    by_contra hge
    obtain ⟨n, hn⟩ := htree.laid.alive hy
    exact absurd (hn.symm.trans (hunused y (by omega))) (by simp)
  have htree' : IsTree s'.nodes s'.root rd f := by
    rw [hcopied.root]
    exact ⟨htree.laid.congr fun y hy => hcopied.same y (hold y hy), htree.nodup⟩
  have hdestroy := BookmarkWalks.gftpBookmarksDestroy_tree htree'
  let left : BookmarkHeap ℕ := (BookmarkWalks.freeForest ⟨s'.nodes, []⟩ (whole s' rd f)).heap
  let r := s'.brk
  let nodes := Function.update left r (some ⟨none, none, none, newRoot⟩)
  have hrout : r ∉ g.nodes := fun hmem => by
    obtain ⟨e, he, heq⟩ := List.mem_map.mp hmem
    exact absurd (hcopied.made e he).2.1 (heq ▸ Nat.lt_irrefl r)
  have hready : Ready ⟨nodes, none, none⟩ g := by
    refine ⟨fun e he => ?_, hcopied.nodup, (by simp)⟩
    obtain ⟨hge, hlt, hn⟩ := hcopied.made e he
    have hout : e.1 ∉ (whole s' rd f).nodes := fun hmem => by
      have hlt' := hold e.1 (by simpa [whole, hcopied.root] using hmem)
      omega
    exact ⟨_, (Function.update_of_ne (Nat.ne_of_lt hlt) ..).trans ((if_neg hout).trans hn), rfl⟩
  obtain ⟨outer, h, houter, happlied⟩ := @applyRows_ends _ _ r hready
  have hchild : outer.child = g.head? := by
    rw [happlied.child]
    rfl
  have hroot : h r = some ⟨none, none, none, newRoot⟩ :=
    (happlied.frame r hrout (by simp)).trans (Function.update_self ..)
  let h' := Function.update h r (some ⟨g.head?, none, none, newRoot⟩)
  have hresult : IsTree h' r newRoot (edited g) := by
    refine ⟨⟨?_, happlied.laid.congr fun y hy => ?_, trivial⟩, ?_⟩
    · rw [head?_edited]
      exact Function.update_self ..
    · have hne : y ≠ r := fun heq => hrout (heq ▸ (nodes_edited g).subset hy)
      exact Function.update_of_ne hne ..
    · simp only [Forest.nodes_cons, Forest.nodes_nil, List.append_nil, List.nodup_cons]
      exact ⟨fun hmem => hrout ((nodes_edited g).subset hmem),
        List.Nodup.sublist (nodes_edited g) hcopied.nodup⟩
  have htable := BookmarkWalks.buildBookmarksHashTable_entries hresult
  refine ⟨⟨h', r + 1, r, tableOf (Forest.cons r newRoot (edited g) .nil).entries .empty⟩, ?_,
    hresult⟩
  refine (hdestroy.bind (k := fun fuel freed => do
    let s := { s' with nodes := freed.heap }.alloc ⟨none, none, none, newRoot⟩
    let outer ← applyRows r (rowsOf g) ⟨s.nodes, none, none⟩
    let nodes ← changeNode (← outer.close) r fun n => { n with children := outer.child }
    let htable ← buildBookmarksHashTable nodes fuel (some r)
    return { s with nodes, root := r, htable }) ?_)
  refine (htable.bind (k := fun _ htable => .ok (⟨h', r + 1, r, htable⟩ : Store)) (.ok _)).congr
    fun fuel => ?_
  refine (congrArg (· >>= _) houter).trans ?_
  rw [CRun.ok_bind, happlied.close, CRun.ok_bind, changeNode_some _ hroot, CRun.ok_bind, hchild]
  rfl

/-- Opening the editor and applying makes a tree of the first two levels. -/
theorem editBookmarks_ends (htree : IsTree s.nodes s.root rd f)
    (hunused : ∀ a, s.brk ≤ a → s.nodes a = none) :
    ∃ t g, Ends (fun fuel => editBookmarks fuel s) t ∧ IsTree t.nodes t.root newRoot g ∧
      content g = content (edited f) := by
  obtain ⟨hroot, hlaid, -⟩ := id htree.laid
  have hlt (a : ℕ) (ha : a ∈ f.nodes) : a < s.brk := by
    by_contra hge
    obtain ⟨n, hn⟩ := hlaid.alive ha
    exact absurd (hn.symm.trans (hunused a (by omega))) nofun
  obtain ⟨s', g, hbuild, hcontent, hcopied⟩ := @buildRows_ends _ _ _ .nil hlaid hlt nofun
  obtain ⟨t, hend, hresult⟩ := bmApplyChanges_ends htree hunused hcopied
  refine ⟨t, edited g, ?_, hresult, ?_⟩
  · refine (hbuild.bind (k := fun fuel b => bmApplyChanges fuel b) hend).congr fun fuel => ?_
    rw [editBookmarks, buildBookmarksTree, look_some hroot]
    rfl
  · rw [content_edited, hcontent, ← content_edited, edited_twoLevels]

end Edit

section Identity

variable {α : Type}

/-- No tree has further trees in it. -/
def Flat {β : Type} : Forest α β → Prop
  | .nil => True
  | .cons _ _ children rest => children = .nil ∧ Flat rest

/-- No entry lies deeper than below an entry below the root, and those with children are
folders. -/
def Shallow : Forest α Bookmark → Prop
  | .nil => True
  | .cons _ d children rest =>
      (children = .nil ∨ d.isfolder = true) ∧ Flat children ∧ Shallow rest

theorem roots_eq_self {β : Type} (f : Forest α β) : roots f = f ↔ Flat f := by
  induction f with
  | nil => exact ⟨fun _ => trivial, fun _ => rfl⟩
  | cons a d children rest _ hrest =>
    simp only [roots, Flat, Forest.cons.injEq, true_and, hrest]
    exact and_congr_left fun _ => eq_comm

theorem edited_eq_self (f : Forest α Bookmark) : edited f = f ↔ Shallow f := by
  induction f with
  | nil => exact ⟨fun _ => trivial, fun _ => rfl⟩
  | cons a d children rest _ hrest =>
    simp only [edited, Shallow, Forest.cons.injEq, true_and, hrest, roots_eq_self]
    refine and_congr_left fun _ => ?_
    cases children with
    | nil => simp [Forest.head?]
    | cons b e next tail =>
      simp only [Forest.head?, Option.isSome_some, if_true, reduceCtorEq, false_or]
      constructor
      · exact fun heq => (congrArg Bookmark.isfolder heq).symm
      · intro hfolder
        cases d
        simp_all

/-- Bookmarks count twice. -/
def weight (d : Bookmark) : ℕ := if d.isfolder then 1 else 2

def size : Forest α Bookmark → ℕ
  | .nil => 0
  | .cons _ d children rest => weight d + size children + size rest

theorem size_eq (f : Forest α Bookmark) : size f = ((f.entries.map Prod.snd).map weight).sum := by
  induction f with
  | nil => rfl
  | cons a d children rest hchildren hrest =>
    simp [size, Forest.entries, hchildren, hrest, Nat.add_assoc]

theorem size_roots (f : Forest α Bookmark) :
    size (roots f) ≤ size f ∧ (size (roots f) = size f → roots f = f) := by
  induction f with
  | nil => exact ⟨Nat.le_refl _, fun _ => rfl⟩
  | cons a d children rest _ hrest =>
    obtain ⟨hle, heq⟩ := hrest
    refine ⟨by simp only [roots, size]; omega, fun h => ?_⟩
    simp only [roots, size] at h
    have hzero : size children = 0 := by omega
    have hchildren : children = .nil := by
      cases children with
      | nil => rfl
      | cons b e next tail =>
        simp only [size, weight] at hzero
        split_ifs at hzero <;> omega
    rw [roots, hchildren, heq (by omega)]

/-- The editor adds nothing, and what it leaves of the size is the whole only if it leaves
everything as it is. -/
theorem size_edited (f : Forest α Bookmark) :
    size (edited f) ≤ size f ∧ (size (edited f) = size f → edited f = f) := by
  induction f with
  | nil => exact ⟨Nat.le_refl _, fun _ => rfl⟩
  | cons a d children rest _ hrest =>
    obtain ⟨hle, heq⟩ := hrest
    obtain ⟨hlec, heqc⟩ := size_roots children
    have hweight : weight (if children.head?.isSome then { d with isfolder := true } else d) ≤
          weight d ∧
        (weight (if children.head?.isSome then { d with isfolder := true } else d) = weight d →
          (if children.head?.isSome then { d with isfolder := true } else d) = d) := by
      split_ifs with hsome
      · cases hfolder : d.isfolder with
        | true =>
          have hsame : { d with isfolder := true } = d := by
            cases d
            simp_all
          rw [hsame]
          exact ⟨Nat.le_refl _, fun _ => rfl⟩
        | false => simp [weight, hfolder]
      · exact ⟨Nat.le_refl _, fun _ => rfl⟩
    refine ⟨by simp only [edited, size]; omega, fun h => ?_⟩
    simp only [edited, size] at h
    rw [edited, hweight.2 (by omega), heqc (by omega), heq (by omega)]

theorem content_entries {β : Type} (f : Forest α β) :
    (content f).entries.map Prod.snd = f.entries.map Prod.snd := by
  rw [content, Forest.entries_map, List.map_map]
  rfl

theorem content_leaves {β : Type} (f : Forest α β) :
    (content f).leaves.map Prod.snd = f.leaves.map Prod.snd := by
  rw [content, Forest.leaves_map, List.map_map]
  rfl

/-- Nothing is lost if and only if nothing changes. -/
theorem entries_kept_iff (f : Forest α Bookmark) :
    (f.entries.map Prod.snd).Subperm ((edited f).entries.map Prod.snd) ↔ Shallow f := by
  rw [← edited_eq_self]
  constructor
  · intro hsub
    obtain ⟨l, hperm, hsublist⟩ := hsub
    have hle : size f ≤ size (edited f) := by
      rw [size_eq, size_eq, ← (hperm.map weight).sum_eq]
      exact (hsublist.map weight).sum_le_sum (fun _ _ => Nat.zero_le _)
    obtain ⟨hge, heq⟩ := size_edited f
    exact heq (by omega)
  · intro heq
    rw [heq]

/-- Every entry is in the new tree as it was, and the bookmarks file has the same text. -/
structure Preserved (s t : Store) (f g : Forest ℕ Bookmark) : Prop where
  entries : (f.entries.map Prod.snd).Subperm (g.entries.map Prod.snd)
  file : ∀ (emit : Bookmark → Bytes) text,
    Ends (fun fuel => writeEntries (fun _ => emit) s.nodes fuel s.root) text →
      Ends (fun fuel => writeEntries (fun _ => emit) t.nodes fuel t.root) text

variable {s t : Store} {rd : Bookmark} {f g : Forest ℕ Bookmark}

theorem preserved_iff (htree : IsTree s.nodes s.root rd f) (hresult : IsTree t.nodes t.root newRoot g)
    (hcontent : content g = content (edited f)) : Preserved s t f g ↔ Shallow f := by
  rw [← entries_kept_iff f]
  have hentries : g.entries.map Prod.snd = (edited f).entries.map Prod.snd := by
    rw [← content_entries g, hcontent, content_entries]
  constructor
  · exact fun h => hentries ▸ h.entries
  · intro hsub
    refine ⟨hentries ▸ hsub, fun emit text htext => ?_⟩
    have hsame : edited f = f := (edited_eq_self f).mpr ((entries_kept_iff f).mp hsub)
    have hleaves : g.leaves.map Prod.snd = f.leaves.map Prod.snd := by
      rw [← content_leaves g, hcontent, content_leaves, hsame]
    have hold := htext.unique (BookmarkWalks.writeEntries_leaves htree)
    have htexts (k : Forest ℕ Bookmark) :
        (k.leaves.flatMap fun e => emit e.2) = (k.leaves.map Prod.snd).flatMap emit := by
      rw [List.flatMap_map]
    rw [hold, htexts, ← hleaves, ← htexts]
    exact BookmarkWalks.writeEntries_leaves hresult

/-- Applying the changes of the editor without any leaves the bookmarks as they are if and only
if no entry lies deeper than two levels and those with children are folders. -/
theorem editor_identity_iff (s : Store) (rd : Bookmark) (f : Forest ℕ Bookmark)
    (htree : IsTree s.nodes s.root rd f) (hunused : ∀ a, s.brk ≤ a → s.nodes a = none) :
    ∃ t g, Ends (fun fuel => editBookmarks fuel s) t ∧ IsTree t.nodes t.root newRoot g ∧
      (Preserved s t f g ↔ Shallow f) := by
  obtain ⟨t, g, hend, hresult, hcontent⟩ := editBookmarks_ends htree hunused
  exact ⟨t, g, hend, hresult, preserved_iff htree hresult hcontent⟩

/-- The store of a small tree, which the editor leaves as it is. -/
def smallStore : Store := ⟨BookmarkWalks.smallHeap, 5, 0, HashTable.empty⟩

theorem smallStore_unused (a : ℕ) (ha : 5 ≤ a) : smallStore.nodes a = none := by
  obtain ⟨a, rfl⟩ := Nat.exists_eq_add_of_le' ha
  rfl

theorem small_tree_edited :
    ∃ t g, Ends (fun fuel => editBookmarks fuel smallStore) t ∧
      IsTree t.nodes t.root newRoot g ∧
      (Preserved smallStore t BookmarkWalks.smallForest g ↔ Shallow BookmarkWalks.smallForest) :=
  editor_identity_iff smallStore { Bookmark.fresh [] with isfolder := true }
    BookmarkWalks.smallForest BookmarkWalks.smallHeap_tree smallStore_unused

/-- A bookmark in a folder of a folder. -/
def nestedForest : Forest ℕ Bookmark :=
  .cons 1 { Bookmark.fresh (ascii "a") with isfolder := true }
    (.cons 2 { Bookmark.fresh (ascii "a/b") with isfolder := true }
      (.cons 3 (Bookmark.fresh (ascii "a/b/c")) .nil .nil) .nil) .nil

def nestedStore : Store where
  nodes
    | 0 => some ⟨some 1, none, none, newRoot⟩
    | 1 => some ⟨some 2, some 0, none, { Bookmark.fresh (ascii "a") with isfolder := true }⟩
    | 2 => some ⟨some 3, some 1, none, { Bookmark.fresh (ascii "a/b") with isfolder := true }⟩
    | 3 => some ⟨none, some 2, none, Bookmark.fresh (ascii "a/b/c")⟩
    | _ => none
  brk := 4
  root := 0
  htable := HashTable.empty

theorem nestedStore_tree : IsTree nestedStore.nodes nestedStore.root newRoot nestedForest where
  laid := ⟨rfl, ⟨rfl, ⟨rfl, ⟨rfl, trivial, trivial⟩, trivial⟩, trivial⟩, trivial⟩
  nodup := by decide

/-- The bookmark on the third level is gone. -/
theorem nested_bookmark_lost :
    ∃ t g, Ends (fun fuel => editBookmarks fuel nestedStore) t ∧
      IsTree t.nodes t.root newRoot g ∧ ¬ Preserved nestedStore t nestedForest g := by
  have hunused (a : ℕ) (ha : 4 ≤ a) : nestedStore.nodes a = none := by
    obtain ⟨a, rfl⟩ := Nat.exists_eq_add_of_le' ha
    rfl
  obtain ⟨t, g, hend, hresult, hcontent⟩ := editBookmarks_ends nestedStore_tree hunused
  refine ⟨t, g, hend, hresult, fun hkept => ?_⟩
  have hshallow := (preserved_iff nestedStore_tree hresult hcontent).mp hkept
  exact absurd hshallow.2.1.1 nofun

end Identity

end Gftp.BookmarkEditor
