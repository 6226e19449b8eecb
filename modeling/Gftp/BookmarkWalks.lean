import Gftp.Bookmarks

/-!
The loops over the bookmarks tree on trees of any shape. Each of them goes through the
forest below an entry and then leaves that entry, so what it does on a forest is reduced to
what it does when it leaves. Nodes are freed after their children and never looked at again;
the entries without children are written, and all are put into the hash table, in the order
in which they lie in the tree.
-/

namespace Gftp.BookmarkWalks

open ByteStrings Fuel LinkedTrees Bookmarks

variable {α γ : Type}

section Write

variable {emit : α → Bookmark → List γ} {heap : BookmarkHeap α}

theorem writeLoop_leave {out r : List γ} {a p : α} {n : Node α Bookmark} (hn : heap a = some n)
    (hchildren : n.children = none) (hprev : n.prev = some p)
    (hr : Exits heap (writeLoop emit heap · (out ++ emit a n.data)) (some a) r) :
    Ends (fun fuel => writeLoop emit heap fuel out (some a)) r := by
  obtain ⟨b, m, hclimb, hm, hr⟩ := hr
  cases hnext : n.next with
  | some c =>
    obtain rfl := hclimb.unique (climb_sibling hn hnext)
    obtain rfl := Option.some.inj (hm.symm.trans hn)
    refine Ends.round (fun fuel => ?_) (hnext ▸ hr)
    simp [writeLoop, look_some hn, hchildren, hnext]
  | none =>
    have hup := (climb_last hn hnext hprev).mp hclimb
    refine Ends.round (g := fun fuel => climb heap fuel p >>= fun last => do
      writeLoop emit heap fuel (out ++ emit a n.data) (← look heap last).next) (fun fuel => ?_) ?_
    · simp [writeLoop, look_some hn, hchildren, hnext, hprev]
    · exact hup.bind (k := fun fuel last => do
        writeLoop emit heap fuel (out ++ emit a n.data) (← look heap last).next)
        (by simpa only [look_some hm, CRun.ok_bind] using hr)

theorem writeLoop_walk : Walk heap (fun out fuel => writeLoop emit heap fuel out)
    (fun out _ _ => out) (fun out a d => out ++ emit a d) where
  down out a n b hn hchildren fuel := by simp [writeLoop, look_some hn, hchildren]
  leave out a n p r hn hchildren hprev hr := writeLoop_leave hn hchildren hprev hr

theorem gather_emit (f : Forest α Bookmark) (out : List γ) :
    f.gather (fun out _ _ => out) (fun out a d => out ++ emit a d) out =
      out ++ f.leaves.flatMap fun e => emit e.1 e.2 := by
  induction f generalizing out with
  | nil => simp [Forest.gather, Forest.leaves]
  | cons a d children rest hchildren hrest =>
    cases children with
    | nil => simp [Forest.gather, Forest.leaves, hrest]
    | cons b e next tail =>
      have hleaves : (Forest.cons a d (.cons b e next tail) rest).leaves =
          (Forest.cons b e next tail).leaves ++ rest.leaves := rfl
      rw [Forest.gather, hchildren, hrest, hleaves, List.flatMap_append, List.append_assoc]

/-- Each entry without children is written once, in the order of the tree. -/
theorem writeEntries_leaves {root : α} {d : Bookmark} {f : Forest α Bookmark}
    (h : IsTree heap root d f) :
    Ends (fun fuel => writeEntries emit heap fuel root)
      (f.leaves.flatMap fun e => emit e.1 e.2) := by
  obtain ⟨hroot, hlaid, -⟩ := h.laid
  have hend : Exits heap (fun fuel => writeLoop emit heap fuel
      (f.leaves.flatMap fun e => emit e.1 e.2)) (some root)
      (f.leaves.flatMap fun e => emit e.1 e.2) := by
    refine Exits.of_last h.laid (Ends.round (fun fuel => ?_) (.ok _))
    rfl
  simp only [writeEntries, look_some hroot, CRun.ok_bind]
  cases f with
  | nil => exact Ends.round (fun fuel => rfl) (.ok _)
  | cons a e children rest =>
    refine writeLoop_walk.forest hlaid rfl ?_
    rw [gather_emit]
    exact hend

end Write

section Hash

variable {heap : BookmarkHeap α}

theorem hashLoop_leave {t r : HashTable α} {a : α} {n : Node α Bookmark} (hn : heap a = some n)
    (hchildren : n.children = none)
    (hr : Exits heap (hashLoop heap · (t.insert n.data.path a)) (some a) r) :
    Ends (fun fuel => hashLoop heap fuel t (some a)) r := by
  obtain ⟨b, m, hclimb, hm, hr⟩ := hr
  refine Ends.round (g := fun fuel => climb heap fuel a >>= fun last => do
    hashLoop heap fuel (t.insert n.data.path a) (← look heap last).next) (fun fuel => ?_) ?_
  · simp [hashLoop, look_some hn, hchildren]
  · exact hclimb.bind (k := fun fuel last => do
      hashLoop heap fuel (t.insert n.data.path a) (← look heap last).next)
      (by simpa only [look_some hm, CRun.ok_bind] using hr)

theorem hashLoop_walk : Walk heap (fun t fuel => hashLoop heap fuel t)
    (fun t a d => t.insert d.path a) (fun t a d => t.insert d.path a) where
  down t a n b hn hchildren fuel := by simp [hashLoop, look_some hn, hchildren]
  leave t a n _ r hn hchildren _ hr := hashLoop_leave hn hchildren hr

theorem gather_insert (f : Forest α Bookmark) (t : HashTable α) :
    f.gather (fun t a d => t.insert d.path a) (fun t a d => t.insert d.path a) t =
      tableOf f.entries t := by
  induction f generalizing t with
  | nil => rfl
  | cons a d children rest hchildren hrest =>
    have hentries : tableOf (Forest.cons a d children rest).entries t =
        tableOf rest.entries (tableOf children.entries (t.insert d.path a)) := by
      simp [tableOf, Forest.entries]
    cases children with
    | nil => rw [Forest.gather, hrest, hentries]; rfl
    | cons b e next tail => rw [Forest.gather, hchildren, hrest, hentries]

/-- Each entry is inserted once, a parent before its children. -/
theorem buildBookmarksHashTable_entries {root : α} {d : Bookmark} {f : Forest α Bookmark}
    (h : IsTree heap root d f) :
    Ends (fun fuel => buildBookmarksHashTable heap fuel (some root))
      (tableOf (Forest.cons root d f .nil).entries .empty) := by
  obtain ⟨hroot, hlaid, -⟩ := h.laid
  have hend (t : HashTable α) : Exits heap (fun fuel => hashLoop heap fuel t) (some root) t :=
    Exits.of_last h.laid (Ends.round (fun fuel => rfl) (.ok t))
  have htable : tableOf (Forest.cons root d f .nil).entries .empty =
      tableOf f.entries (HashTable.empty.insert d.path root) := by
    simp [tableOf, Forest.entries]
  rw [htable]
  cases f with
  | nil => exact hashLoop_leave hroot rfl (hend _)
  | cons a e children rest =>
    refine Ends.round (fun fuel => hashLoop_walk.down _ root _ a hroot rfl fuel) ?_
    refine hashLoop_walk.forest hlaid rfl ?_
    rw [gather_insert]
    exact hend _

end Hash

section Destroy

variable [DecidableEq α] {s s' : Freeing α} {r : Freeing α} {a : α}

def freeEntry (s : Freeing α) (a : α) : Freeing α :=
  { heap := Function.update s.heap a none, freed := s.freed ++ [a] }

theorem gftpFreeBookmark_some {n : Node α Bookmark} (hn : s.heap a = some n) :
    gftpFreeBookmark s a = .ok (freeEntry s a) := by
  rw [gftpFreeBookmark, look_some hn]
  rfl

/-- The entries of a forest are freed. -/
def freeForest (s : Freeing α) (f : Forest α Bookmark) : Freeing α where
  heap x := if x ∈ f.nodes then none else s.heap x
  freed := s.freed ++ f.postorder

theorem freeForest_nil (s : Freeing α) : freeForest s .nil = s := by
  simp [freeForest, Forest.postorder]

theorem freeForest_cons (s : Freeing α) (a : α) (d : Bookmark) (children rest : Forest α Bookmark) :
    freeForest (freeEntry (freeForest s children) a) rest =
      freeForest s (.cons a d children rest) := by
  simp only [freeForest, freeEntry, Forest.nodes_cons, List.mem_cons, List.mem_append,
    Forest.postorder, List.append_assoc, List.cons_append, List.nil_append, Freeing.mk.injEq,
    and_true]
  funext x
  by_cases hx : x = a
  · subst hx
    simp
  · rw [Function.update_of_ne hx]
    split_ifs with hr hc hall hall
    all_goals first | rfl | simp_all

/-- What gftp_bookmarks_destroy gives once it leaves an entry, the ones below are freed. -/
def DestroyExits (s : Freeing α) (a : α) (r : Freeing α) : Prop :=
  ∃ s' b n, Ends (fun fuel => destroyClimb fuel s a) (s', b) ∧ s'.heap b = some n ∧
    Ends (fun fuel => destroyLoop fuel (freeEntry s' b) n.next) r

theorem DestroyExits.of_stop {n : Node α Bookmark} (hn : s.heap a = some n)
    (hstop : n.next ≠ none ∨ n.prev = none)
    (hr : Ends (fun fuel => destroyLoop fuel (freeEntry s a) n.next) r) : DestroyExits s a r := by
  refine ⟨s, a, n, Ends.round (fun fuel => ?_) (.ok (s, a)), hn, hr⟩
  rw [destroyClimb, look_some hn, CRun.ok_bind]
  cases hnext : n.next with
  | some c => rfl
  | none =>
    rcases hstop with hstop | hstop
    · exact absurd hnext hstop
    · rw [hstop]
      rfl

/-- The last child is freed on the way to its parent. -/
theorem DestroyExits.of_last {n : Node α Bookmark} {p : α} (hn : s.heap a = some n)
    (hnext : n.next = none) (hprev : n.prev = some p) (hr : DestroyExits (freeEntry s a) p r) :
    DestroyExits s a r := by
  obtain ⟨s', b, m, hclimb, hm, hr⟩ := hr
  refine ⟨s', b, m, Ends.round (fun fuel => ?_) hclimb, hm, hr⟩
  rw [destroyClimb, look_some hn, CRun.ok_bind, hnext, hprev]
  simp [gftpFreeBookmark_some hn]

theorem destroyLoop_leave {n : Node α Bookmark} (hn : s.heap a = some n)
    (hchildren : n.children = none) (hr : DestroyExits s a r) :
    Ends (fun fuel => destroyLoop fuel s (some a)) r := by
  obtain ⟨s', b, m, hclimb, hm, hr⟩ := hr
  refine Ends.round (g := fun fuel => destroyClimb fuel s a >>= fun left => do
    let last ← look left.1.heap left.2
    destroyLoop fuel (← gftpFreeBookmark left.1 left.2) last.next) (fun fuel => ?_) ?_
  · rw [destroyLoop, look_some hn, CRun.ok_bind, hchildren]
  · exact hclimb.bind (k := fun fuel left => do
      let last ← look left.1.heap left.2
      destroyLoop fuel (← gftpFreeBookmark left.1 left.2) last.next)
      (by simpa only [look_some hm, gftpFreeBookmark_some hm, CRun.ok_bind] using hr)

theorem destroyLoop_down {n : Node α Bookmark} {b : α} (hn : s.heap a = some n)
    (hchildren : n.children = some b) (fuel : ℕ) :
    destroyLoop (fuel + 1) s (some a) = destroyLoop fuel s (some b) := by
  rw [destroyLoop, look_some hn, CRun.ok_bind, hchildren]

/-- A forest is freed before its parent is left, each node after its children. -/
theorem destroyLoop_forest {p : α} {f : Forest α Bookmark} (hlaid : Laid s.heap (some p) f)
    (hnodup : f.nodes.Nodup) (hhead : f.head? = some a)
    (hr : DestroyExits (freeForest s f) p r) : Ends (fun fuel => destroyLoop fuel s (some a)) r := by
  induction f generalizing s p a r with
  | nil => exact absurd hhead nofun
  | cons b d children rest hchildren hrest =>
    obtain rfl := Option.some.inj hhead
    obtain ⟨hb, hlaidc, hlaidr⟩ := hlaid
    rw [Forest.nodes_cons, List.nodup_cons, List.mem_append, not_or] at hnodup
    obtain ⟨⟨hbc, hbr⟩, hnodup⟩ := hnodup
    obtain ⟨hnodupc, hnodupr, hdisjoint⟩ := List.nodup_append.mp hnodup
    have hkept : (freeForest s children).heap b =
        some ⟨children.head?, some p, rest.head?, d⟩ := by
      simpa [freeForest, hbc] using hb
    rw [← freeForest_cons] at hr
    -- the entry b is left when its children are freed
    have hleave : DestroyExits (freeForest s children) b r := by
      cases rest with
      | nil =>
        rw [freeForest_nil] at hr
        exact DestroyExits.of_last hkept rfl rfl hr
      | cons c e next tail =>
        refine DestroyExits.of_stop hkept (.inl nofun) (hrest ?_ hnodupr rfl hr)
        refine hlaidr.congr fun x hx => ?_
        have hxb : x ≠ b := fun heq => hbr (heq ▸ hx)
        have hxc : x ∉ children.nodes := fun hmem => hdisjoint x hmem x hx rfl
        simp [freeEntry, freeForest, hxb, hxc]
    cases children with
    | nil =>
      rw [freeForest_nil] at hleave
      exact destroyLoop_leave hb rfl hleave
    | cons c e next tail =>
      exact Ends.round (destroyLoop_down hb rfl) (hchildren hlaidc hnodupc rfl hleave)

/-- Every entry of a tree is freed, and nothing else. -/
theorem gftpBookmarksDestroy_tree {heap : BookmarkHeap α} {root : α} {d : Bookmark}
    {f : Forest α Bookmark} (h : IsTree heap root d f) :
    Ends (fun fuel => gftpBookmarksDestroy fuel heap (some root))
      (freeForest { heap := heap, freed := [] } (.cons root d f .nil)) := by
  obtain ⟨hroot, hlaid, -⟩ := h.laid
  have hnodup := h.nodup
  simp only [Forest.nodes_cons, Forest.nodes_nil, List.append_nil, List.nodup_cons] at hnodup
  have hkept : (freeForest { heap := heap, freed := [] } f).heap root =
      some ⟨f.head?, none, none, d⟩ := by
    simpa [freeForest, hnodup.1, Forest.head?] using hroot
  have hleave : DestroyExits (freeForest { heap := heap, freed := [] } f) root
      (freeForest { heap := heap, freed := [] } (.cons root d f .nil)) := by
    rw [← freeForest_cons, freeForest_nil]
    exact DestroyExits.of_stop hkept (.inr rfl) (Ends.round (fun fuel => rfl) (.ok _))
  cases f with
  | nil =>
    rw [freeForest_nil] at hleave
    exact destroyLoop_leave hroot rfl hleave
  | cons a e children rest =>
    exact Ends.round (destroyLoop_down hroot rfl) (destroyLoop_forest hlaid hnodup.2 rfl hleave)

end Destroy

/-- On a tree of any shape the three loops come to an end. The entries are freed once each, and
none is looked at when it is freed; those without children are written once each; all are
inserted into the hash table. -/
theorem walks_visit_once [DecidableEq α] (emit : α → Bookmark → List γ) (heap : BookmarkHeap α)
    (root : α) (d : Bookmark) (f : Forest α Bookmark) (h : IsTree heap root d f) :
    (∃ left, Ends (fun fuel => gftpBookmarksDestroy fuel heap (some root)) left ∧
      left.freed.Nodup ∧ left.freed.Perm (root :: f.nodes) ∧
      ∀ x, left.heap x = if x ∈ root :: f.nodes then none else heap x) ∧
    Ends (fun fuel => writeEntries emit heap fuel root)
      (f.leaves.flatMap fun e => emit e.1 e.2) ∧
    Ends (fun fuel => buildBookmarksHashTable heap fuel (some root))
      (tableOf ((root, d) :: f.entries) .empty) := by
  have hperm := (Forest.cons root d f .nil).postorder_perm
  have hentries : (Forest.cons root d f .nil).entries = (root, d) :: f.entries := by
    simp [Forest.entries]
  refine ⟨⟨_, gftpBookmarksDestroy_tree h, ?_, ?_, ?_⟩, writeEntries_leaves h, ?_⟩
  · exact hperm.nodup_iff.mpr h.nodup
  · simpa [freeForest] using hperm
  · intro x
    simp [freeForest]
  · exact hentries ▸ buildBookmarksHashTable_entries h

section Lookup

variable {entries : List (α × Bookmark)} {path : Bytes}

theorem tableOf_kept (h : ∀ e ∈ entries, e.2.path ≠ path) (t : HashTable α) :
    tableOf entries t path = t path := by
  induction entries generalizing t with
  | nil => rfl
  | cons e entries ih =>
    obtain ⟨hne, hrest⟩ := List.forall_mem_cons.mp h
    exact (ih hrest (t.insert e.2.path e.1)).trans (HashTable.insert_ne t e.1 hne.symm)

theorem tableOf_found {e : α × Bookmark} (hpaths : (entries.map fun e => e.2.path).Nodup)
    (he : e ∈ entries) (t : HashTable α) : tableOf entries t e.2.path = some e.1 := by
  induction entries generalizing t with
  | nil => cases he
  | cons e' entries ih =>
    obtain ⟨hnew, hrest⟩ := List.nodup_cons.mp hpaths
    rcases List.mem_cons.mp he with rfl | hmem
    · have hkept := tableOf_kept (fun x hx heq => hnew (List.mem_map.mpr ⟨x, hx, heq⟩))
        (t.insert e.2.path e.1)
      exact hkept.trans (HashTable.insert_self t e.2.path e.1)
    · exact ih hrest hmem (t.insert e'.2.path e'.1)

/-- Where no two entries have one path, the table has every entry under its path, and no other
path. -/
theorem table_finds [DecidableEq α] {heap : BookmarkHeap α} {root : α} {d : Bookmark}
    {f : Forest α Bookmark} (h : IsTree heap root d f)
    (hpaths : (((root, d) :: f.entries).map fun e => e.2.path).Nodup) :
    ∃ t, Ends (fun fuel => buildBookmarksHashTable heap fuel (some root)) t ∧
      (∀ e ∈ (root, d) :: f.entries, t e.2.path = some e.1) ∧
      ∀ path, (∀ e ∈ (root, d) :: f.entries, e.2.path ≠ path) → t path = none := by
  have hentries : (Forest.cons root d f .nil).entries = (root, d) :: f.entries := by
    simp [Forest.entries]
  refine ⟨_, hentries ▸ buildBookmarksHashTable_entries h, fun e he => ?_, fun path hpath => ?_⟩
  · exact tableOf_found hpaths he .empty
  · exact tableOf_kept hpath .empty

end Lookup

/-- A folder with two bookmarks, and a bookmark next to it. -/
def smallForest : Forest ℕ Bookmark :=
  .cons 1 { Bookmark.fresh (ascii "a") with isfolder := true }
    (.cons 2 (Bookmark.fresh (ascii "a/b")) .nil (.cons 3 (Bookmark.fresh (ascii "a/c")) .nil .nil))
    (.cons 4 (Bookmark.fresh (ascii "d")) .nil .nil)

def smallHeap : BookmarkHeap ℕ
  | 0 => some ⟨some 1, none, none, { Bookmark.fresh [] with isfolder := true }⟩
  | 1 => some ⟨some 2, some 0, some 4, { Bookmark.fresh (ascii "a") with isfolder := true }⟩
  | 2 => some ⟨none, some 1, some 3, Bookmark.fresh (ascii "a/b")⟩
  | 3 => some ⟨none, some 1, none, Bookmark.fresh (ascii "a/c")⟩
  | 4 => some ⟨none, some 0, none, Bookmark.fresh (ascii "d")⟩
  | _ => none

theorem smallHeap_tree :
    IsTree smallHeap 0 { Bookmark.fresh [] with isfolder := true } smallForest where
  laid := ⟨rfl, ⟨rfl, ⟨rfl, trivial, rfl, trivial, trivial⟩, rfl, trivial, trivial⟩, trivial⟩
  nodup := by decide

theorem small_tree_visited :
    (∃ left, Ends (fun fuel => gftpBookmarksDestroy fuel smallHeap (some 0)) left ∧
      left.freed.Nodup ∧ left.freed.Perm [0, 1, 2, 3, 4] ∧
      ∀ x, left.heap x = if x ∈ [0, 1, 2, 3, 4] then none else smallHeap x) ∧
    Ends (fun fuel => writeEntries (fun a _ => [a]) smallHeap fuel 0) [2, 3, 4] ∧
    Ends (fun fuel => buildBookmarksHashTable smallHeap fuel (some 0))
      (tableOf ((0, { Bookmark.fresh [] with isfolder := true }) :: smallForest.entries) .empty) :=
  walks_visit_once (fun a _ => [a]) smallHeap 0 { Bookmark.fresh [] with isfolder := true }
    smallForest smallHeap_tree

theorem small_table_finds : ∃ t, Ends (fun fuel => buildBookmarksHashTable smallHeap fuel (some 0)) t ∧
    t (ascii "a/b") = some 2 ∧ t (ascii "b") = none := by
  obtain ⟨t, hends, hfound, hnone⟩ := table_finds smallHeap_tree (by decide)
  exact ⟨t, hends, hfound (2, Bookmark.fresh (ascii "a/b")) (by decide), hnone (ascii "b") (by decide)⟩

end Gftp.BookmarkWalks
