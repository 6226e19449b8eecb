import Gftp.BookmarkWalks
import Gftp.TreeInsertion

/-!
gftp_add_bookmark. The path of a new entry is cut at each slash and the folders that the
hash table does not have are created on the way; then the entry itself is put behind the
last child of its folder. For any path that is not empty a call comes to its end, and the
entries stay one tree to which the table leads.
-/

namespace Gftp.BookmarkStore

open ByteStrings Fuel LinkedTrees TreeInsertion Bookmarks

/-- The entries in memory, gftp_bookmarks and gftp_bookmarks_htable. Addresses from brk on
were not allocated yet. -/
structure Store where
  nodes : BookmarkHeap ℕ
  brk : ℕ
  root : ℕ
  htable : HashTable ℕ

/-- The store gftp_read_config_file starts with. -/
def Store.empty : Store where
  nodes := Function.update (fun _ => none) 0
    (some ⟨none, none, none, { Bookmark.fresh [] with isfolder := true }⟩)
  brk := 1
  root := 0
  htable := HashTable.empty

def Store.alloc (s : Store) (n : Node ℕ Bookmark) : Store :=
  { s with nodes := Function.update s.nodes s.brk (some n), brk := s.brk + 1 }

def Store.setNode (s : Store) (a : ℕ) (n : Node ℕ Bookmark) : Store :=
  { s with nodes := Function.update s.nodes a (some n) }

section Nodes

variable {s : Store} {a b : ℕ} {n : Node ℕ Bookmark}

@[simp] theorem alloc_node_self : (s.alloc n).nodes s.brk = some n := Function.update_self ..

theorem alloc_node_ne (h : a ≠ s.brk) : (s.alloc n).nodes a = s.nodes a :=
  Function.update_of_ne h ..

@[simp] theorem setNode_self : (s.setNode a n).nodes a = some n := Function.update_self ..

theorem setNode_ne (h : b ≠ a) : (s.setNode a n).nodes b = s.nodes b :=
  Function.update_of_ne h ..

end Nodes

/-- The variables of the loop over the slashes of a path. -/
structure Position where
  store : Store
  preventry : ℕ
  endentry : Option ℕ

/-- One round of the loop, at the folder pre. -/
def enterFolder (fuel : ℕ) (pre : Bytes) (st : Position) : CRun Position :=
  match st.store.htable pre with
  | some folderentry => do
      return { st with
        preventry := folderentry
        endentry := ← lastChild st.store.nodes fuel folderentry }
  | none => do
      let folderentry := st.store.brk
      let s := st.store.alloc
        ⟨none, some st.preventry, none, { Bookmark.fresh pre with isfolder := true }⟩
      let nodes ← linkChild s.nodes st.preventry st.endentry folderentry
      return {
        store := { s with nodes, htable := s.htable.insert pre folderentry }
        preventry := folderentry
        endentry := none }

/-- The loop; pre is the part of the path before the place it has come to. -/
def enterFolders (fuel : ℕ) : Bytes → Bytes → Position → CRun Position
  | _, [], st => return st
  | pre, c :: rest, st =>
      if c = 47 then do enterFolders fuel (pre ++ [c]) rest (← enterFolder fuel pre st)
      else enterFolders fuel (pre ++ [c]) rest st

/-- A path up to its last slash. -/
def parentPath (path : Bytes) : Option Bytes :=
  if 47 ∈ path then some ((path.reverse.dropWhile (· ≠ 47)).drop 1).reverse else none

/-- The parent node of a path that has its folders in the table. -/
def parentNode (s : Store) (path : Bytes) : CRun ℕ :=
  match parentPath path with
  | none => return s.root
  | some pre =>
      match s.htable pre with
      | some preventry => return preventry
      | none => .error .fault

/-- The entry behind the folders: its prev and next are set, and the last child of its parent
points to it. -/
def placeEntry (fuel : ℕ) (s : Store) (newentry : ℕ) (data : Bookmark) : CRun Store := do
  let preventry ← parentNode s data.path
  let endentry ← lastChild s.nodes fuel preventry
  let s := s.setNode newentry ⟨none, some preventry, none, data⟩
  let nodes ← linkChild s.nodes preventry endentry newentry
  return { s with nodes, htable := s.htable.insert data.path newentry }

/-- The protocol is FTP when none is given. -/
def withProtocol (newentry : Bookmark) : Bookmark :=
  { newentry with protocol := some (newentry.protocol.getD (ascii "FTP")) }

/-- gftp_add_bookmark for an entry that was just allocated. When the path ends in a slash the
entry becomes a folder of its own and is put nowhere. -/
def gftpAddBookmark (fuel : ℕ) (s : Store) (newentry : Bookmark) : CRun Store := do
  let data := withProtocol newentry
  let entry := s.brk
  let s := s.alloc ⟨none, none, none, data⟩
  let endentry ← lastChild s.nodes fuel s.root
  let st ← enterFolders fuel [] data.path { store := s, preventry := s.root, endentry := endentry }
  match data.path.getLast? with
  | none => .error .fault
  | some c =>
      if c = 47 then
        let folder := { data with path := data.path.dropLast, isfolder := true }
        return st.store.setNode entry ⟨none, none, none, folder⟩
      else placeEntry fuel st.store entry data

/-- A call, with any amount of fuel that is enough. -/
def Adds (s : Store) (newentry : Bookmark) (s' : Store) : Prop :=
  Ends (fun fuel => gftpAddBookmark fuel s newentry) s'

section Paths

/-- A prefix of a path that is cut at a slash. -/
def FolderOf (pre path : Bytes) : Prop := ∃ rest, path = pre ++ 47 :: rest

/-- The table maps a path to a folder. -/
def IsFolder (s : Store) (path : Bytes) : Prop :=
  ∃ a n, s.htable path = some a ∧ s.nodes a = some n ∧ n.data.isfolder = true

end Paths

section Shape

variable {s : Store} {rd : Bookmark} {f : Forest ℕ Bookmark} {p x : ℕ}

/-- The tree of the entries with its root. -/
def whole (s : Store) (rd : Bookmark) (f : Forest ℕ Bookmark) : Forest ℕ Bookmark :=
  .cons s.root rd f .nil

/-- The entries below the root lie as the forest f, and the table leads to them. -/
structure Shape (s : Store) (rd : Bookmark) (f : Forest ℕ Bookmark) : Prop where
  tree : IsTree s.nodes s.root rd f
  unused : ∀ a, s.brk ≤ a → s.nodes a = none
  table : ∀ path a, s.htable path = some a → ∃ d, (a, d) ∈ (whole s rd f).entries ∧ d.path = path
  rootFolder : rd.isfolder = true

theorem empty_shape : Shape .empty { Bookmark.fresh [] with isfolder := true } .nil where
  tree := ⟨⟨rfl, trivial, trivial⟩, by simp⟩
  unused a ha := by
    have hne : a ≠ 0 := Nat.ne_of_gt ha
    simp [Store.empty, Function.update_of_ne hne]
  table _ _ h := absurd h nofun
  rootFolder := rfl

theorem Shape.lt_brk (h : Shape s rd f) {a : ℕ} {n : Node ℕ Bookmark} (ha : s.nodes a = some n) :
    a < s.brk := by
  by_contra hge
  rw [h.unused a (by omega)] at ha
  exact absurd ha nofun

theorem Shape.mem_lt_brk (h : Shape s rd f) {a : ℕ} (ha : a ∈ (whole s rd f).nodes) :
    a < s.brk := by
  obtain ⟨n, hn⟩ := h.tree.laid.alive ha
  exact h.lt_brk hn

theorem Shape.alloc_node (h : Shape s rd f) {n : Node ℕ Bookmark} {y : ℕ}
    (hy : y ∈ (whole s rd f).nodes) : (s.alloc n).nodes y = s.nodes y :=
  Function.update_of_ne (Nat.ne_of_lt (h.mem_lt_brk hy)) ..

theorem Shape.alloc (h : Shape s rd f) (n : Node ℕ Bookmark) : Shape (s.alloc n) rd f where
  tree := ⟨h.tree.laid.congr fun y hy => h.alloc_node hy, h.tree.nodup⟩
  unused a ha := by
    have hbrk : s.brk < a := ha
    exact (Function.update_of_ne (Nat.ne_of_gt hbrk) ..).trans (h.unused a (by omega))
  table := h.table
  rootFolder := h.rootFolder

/-- An entry that is not in the tree is put behind the last child of one that is. -/
theorem Shape.link {d : Bookmark} (h : Shape s rd f) (hp : p ∈ (whole s rd f).nodes)
    (hx : x ∉ (whole s rd f).nodes) (hxn : s.nodes x = some ⟨none, some p, none, d⟩) :
    ∃ last nodes f', Ends (fun fuel => lastChild s.nodes fuel p) last ∧
      linkChild s.nodes p last x = .ok nodes ∧ Shape { s with nodes } rd f' ∧
      (whole s rd f').entries.Perm ((x, d) :: (whole s rd f).entries) ∧
      ∀ y, y ∉ (whole s rd f).nodes → nodes y = s.nodes y := by
  obtain ⟨last, nodes, hlast, hlink, hlaid, hframe⟩ :=
    Laid.adopt h.tree.laid h.tree.nodup hp hx hxn
  have hform : ∃ f', Forest.adopt p x d (whole s rd f) = whole s rd f' := by
    unfold whole
    rw [Forest.adopt]
    split_ifs <;> exact ⟨_, rfl⟩
  obtain ⟨f', hf'⟩ := hform
  have hentries := Forest.entries_adopt_perm (x := x) (d := d) hp h.tree.nodup
  have hnodes := Forest.nodes_adopt_perm (x := x) (d := d) hp h.tree.nodup
  change Laid nodes none (Forest.adopt p x d (whole s rd f)) at hlaid
  change (Forest.adopt p x d (whole s rd f)).entries.Perm _ at hentries
  change (Forest.adopt p x d (whole s rd f)).nodes.Perm _ at hnodes
  rw [hf'] at hlaid hentries hnodes
  refine ⟨last, nodes, f', hlast, hlink, ⟨⟨hlaid, ?_⟩, ?_, ?_, h.rootFolder⟩, hentries, hframe⟩
  · exact hnodes.nodup_iff.mpr (List.nodup_cons.mpr ⟨hx, h.tree.nodup⟩)
  · intro a ha
    have hout : a ∉ (whole s rd f).nodes := fun hmem => by
      have hlt := h.mem_lt_brk hmem
      have hge : s.brk ≤ a := ha
      omega
    exact (hframe a hout).trans (h.unused a ha)
  · intro path a ha
    obtain ⟨d', hd', hpath⟩ := h.table path a ha
    exact ⟨d', hentries.mem_iff.mpr (List.mem_cons_of_mem _ hd'), hpath⟩

theorem Shape.aside {y : ℕ} {n : Node ℕ Bookmark} (h : Shape s rd f) (hy : y < s.brk)
    (hout : y ∉ (whole s rd f).nodes) :
    Shape (s.setNode y n) rd f where
  tree := by
    refine ⟨h.tree.laid.congr fun a ha => Function.update_of_ne ?_ .., h.tree.nodup⟩
    exact fun heq => hout (heq ▸ ha)
  unused a ha := by
    have hne : a ≠ y := fun heq => absurd (heq ▸ ha : s.brk ≤ y) (by omega)
    exact (Function.update_of_ne hne ..).trans (h.unused a ha)
  table := h.table
  rootFolder := h.rootFolder

theorem Shape.insert {path : Bytes} {a : ℕ} {d : Bookmark} (h : Shape s rd f)
    (ha : (a, d) ∈ (whole s rd f).entries) (hd : d.path = path) :
    Shape { s with htable := s.htable.insert path a } rd f where
  tree := h.tree
  unused := h.unused
  table path' a' ha' := by
    by_cases hpath : path' = path
    · subst hpath
      obtain rfl := Option.some.inj ((s.htable.insert_self path' a).symm.trans ha')
      exact ⟨d, ha, hd⟩
    · exact h.table path' a' ((s.htable.insert_ne a hpath).symm.trans ha')
  rootFolder := h.rootFolder

end Shape

section Folders

/-- What the loop over the slashes has done to a store, when it has come to the part pre of the
path. The store changed from s to st. -/
structure Walked (s : Store) (rd : Bookmark) (f : Forest ℕ Bookmark) (pre : Bytes)
    (st : Position) (f' : Forest ℕ Bookmark) : Prop where
  shape : Shape st.store rd f'
  root : st.store.root = s.root
  brk : s.brk ≤ st.store.brk
  /-- The folders it made. -/
  made : ∃ new, (whole st.store rd f').entries.Perm (new ++ (whole s rd f).entries) ∧
    ∀ e ∈ new, s.brk ≤ e.1 ∧ e.2.isfolder = true ∧ FolderOf e.2.path pre
  aside : ∀ y, y < s.brk → y ∉ (whole s rd f).nodes → st.store.nodes y = s.nodes y
  data : ∀ a n, s.nodes a = some n → ∃ n', st.store.nodes a = some n' ∧ n'.data = n.data
  kept : ∀ path a, s.htable path = some a → st.store.htable path = some a
  found : ∀ path, FolderOf path pre → ∃ a, st.store.htable path = some a
  new : ∀ path a, st.store.htable path = some a → s.htable path = some a ∨
    FolderOf path pre ∧ s.htable path = none ∧ IsFolder st.store path
  parents : ∀ a n', st.store.nodes a = some n' → n'.children ≠ none →
    (∃ n, s.nodes a = some n ∧ n.children ≠ none) ∨ a = s.root ∨ n'.data.isfolder = true ∨
      ∃ path path', s.htable path = some a ∧ FolderOf path path' ∧ FolderOf path' pre ∧
        s.htable path' = none
  /-- Where it is. -/
  here : st.preventry ∈ (whole st.store rd f').nodes
  last : Ends (fun fuel => lastChild st.store.nodes fuel st.preventry) st.endentry
  above : st.preventry = s.root ∨
    ∃ path, FolderOf path pre ∧ st.store.htable path = some st.preventry

theorem folderOf_append_slash {path pre : Bytes} :
    FolderOf path (pre ++ [47]) ↔ path = pre ∨ FolderOf path pre := by
  constructor
  · rintro ⟨rest, hrest⟩
    rcases List.eq_nil_or_concat rest with rfl | ⟨front, c, rfl⟩
    · exact .inl (List.append_inj_left' hrest rfl).symm
    · have hsplit : pre ++ [47] = (path ++ 47 :: front) ++ [c] := by simpa using hrest
      exact .inr ⟨front, List.append_inj_left' hsplit rfl⟩
  · rintro (rfl | ⟨rest, rfl⟩)
    · exact ⟨[], rfl⟩
    · exact ⟨rest ++ [47], by simp⟩

theorem folderOf_append_ne {path pre : Bytes} {c : UInt8} (hc : c ≠ 47) :
    FolderOf path (pre ++ [c]) ↔ FolderOf path pre := by
  constructor
  · rintro ⟨rest, hrest⟩
    rcases List.eq_nil_or_concat rest with rfl | ⟨front, d, rfl⟩
    · exact absurd (List.cons.inj (List.append_inj_right' hrest rfl)).1 hc
    · have hsplit : pre ++ [c] = (path ++ 47 :: front) ++ [d] := by simpa using hrest
      exact ⟨front, List.append_inj_left' hsplit rfl⟩
  · rintro ⟨rest, rfl⟩
    exact ⟨rest ++ [c], by simp⟩

theorem FolderOf.trans {path path' path'' : Bytes} (h : FolderOf path path')
    (h' : FolderOf path' path'') : FolderOf path path'' := by
  obtain ⟨rest, rfl⟩ := h
  obtain ⟨rest', rfl⟩ := h'
  exact ⟨rest ++ 47 :: rest', by simp⟩

theorem FolderOf.ne {pre path : Bytes} (h : FolderOf pre path) : pre ≠ path := by
  obtain ⟨rest, rfl⟩ := h
  intro heq
  have hlen := congrArg List.length heq
  simp only [List.length_append, List.length_cons] at hlen
  omega

variable {s : Store} {rd : Bookmark} {f f' : Forest ℕ Bookmark} {pre : Bytes} {st : Position}

theorem Walked.start {endentry : Option ℕ} (h : Shape s rd f)
    (hlast : Ends (fun fuel => lastChild s.nodes fuel s.root) endentry) :
    Walked s rd f [] ⟨s, s.root, endentry⟩ f where
  shape := h
  root := rfl
  brk := Nat.le_refl _
  made := ⟨[], List.Perm.refl _, List.forall_mem_nil _⟩
  aside _ _ _ := rfl
  data _ n hn := ⟨n, hn, rfl⟩
  kept _ _ hpath := hpath
  found path hpath := by
    obtain ⟨rest, hrest⟩ := hpath
    simp at hrest
  new _ _ hpath := .inl hpath
  parents _ n' hn' hchildren := .inl ⟨n', hn', hchildren⟩
  here := by simp [whole]
  last := hlast
  above := .inl rfl

theorem Walked.skip {c : UInt8} (h : Walked s rd f pre st f') (hc : c ≠ 47) :
    Walked s rd f (pre ++ [c]) st f' :=
  { h with
    made := by
      obtain ⟨new, hperm, hnew⟩ := h.made
      exact ⟨new, hperm, fun e he => (hnew e he).imp_right fun hfolder =>
        ⟨hfolder.1, (folderOf_append_ne hc).mpr hfolder.2⟩⟩
    found := fun path hpath => h.found path ((folderOf_append_ne hc).mp hpath)
    new := fun path a ha => (h.new path a ha).imp_right fun hnew =>
      ⟨(folderOf_append_ne hc).mpr hnew.1, hnew.2⟩
    parents := fun a n' hn' hchildren => by
      rcases h.parents a n' hn' hchildren with hold | hroot | hfolder | hthrough
      · exact .inl hold
      · exact .inr (.inl hroot)
      · exact .inr (.inr (.inl hfolder))
      · obtain ⟨path, path', hpath, hsub, hpre, hnone⟩ := hthrough
        exact .inr (.inr (.inr ⟨path, path', hpath, hsub, (folderOf_append_ne hc).mpr hpre, hnone⟩))
    above := h.above.imp_right fun ⟨path, hpath, ha⟩ => ⟨path, (folderOf_append_ne hc).mpr hpath, ha⟩ }

theorem Walked.mem_aside (h : Walked s rd f pre st f') {y : ℕ} (hy : y < s.brk)
    (hout : y ∉ (whole s rd f).nodes) : y ∉ (whole st.store rd f').nodes := by
  obtain ⟨new, hperm, hnew⟩ := h.made
  intro hmem
  have hmem' := (hperm.map Prod.fst).mem_iff.mp hmem
  rw [List.map_append, List.mem_append] at hmem'
  rcases hmem' with hmem' | hmem'
  · obtain ⟨e, he, rfl⟩ := List.mem_map.mp hmem'
    have hge := (hnew e he).1
    omega
  · exact hout hmem'

theorem Walked.enter_found (h : Walked s rd f pre st f') {folder : ℕ}
    (hfolder : st.store.htable pre = some folder) :
    ∃ st', Ends (fun fuel => enterFolder fuel pre st) st' ∧ Walked s rd f (pre ++ [47]) st' f' := by
  obtain ⟨d, hd, -⟩ := h.shape.table pre folder hfolder
  have hmem : folder ∈ (whole st.store rd f').nodes := List.mem_map_of_mem (f := Prod.fst) hd
  obtain ⟨last, hlast⟩ := lastChild_ends h.shape.tree.laid hmem
  refine ⟨⟨st.store, folder, last⟩, ?_, ?_⟩
  · refine (hlast.bind (k := fun _ last => .ok ⟨st.store, folder, last⟩) (.ok _)).congr fun fuel => ?_
    simp only [enterFolder, hfolder]
    rfl
  · refine
      { h with
        made := ?_
        found := fun path hpath => ?_
        new := fun path a ha => (h.new path a ha).imp_right fun hnew =>
          ⟨folderOf_append_slash.mpr (.inr hnew.1), hnew.2⟩
        parents := fun a n' hn' hchildren => ?_
        here := hmem
        last := hlast
        above := .inr ⟨pre, folderOf_append_slash.mpr (.inl rfl), hfolder⟩ }
    · obtain ⟨new, hperm, hnew⟩ := h.made
      exact ⟨new, hperm, fun e he => (hnew e he).imp_right fun hmade =>
        ⟨hmade.1, folderOf_append_slash.mpr (.inr hmade.2)⟩⟩
    · rcases folderOf_append_slash.mp hpath with rfl | hpath
      · exact ⟨folder, hfolder⟩
      · exact h.found path hpath
    · rcases h.parents a n' hn' hchildren with hold | hroot | hfolder | hthrough
      · exact .inl hold
      · exact .inr (.inl hroot)
      · exact .inr (.inr (.inl hfolder))
      · obtain ⟨path, path', hpath, hsub, hpre, hnone⟩ := hthrough
        exact .inr (.inr (.inr ⟨path, path', hpath, hsub,
          folderOf_append_slash.mpr (.inr hpre), hnone⟩))

theorem Walked.enter_made (h : Walked s rd f pre st f') (hnone : st.store.htable pre = none) :
    ∃ st' f'', Ends (fun fuel => enterFolder fuel pre st) st' ∧
      Walked s rd f (pre ++ [47]) st' f'' := by
  let folder : Bookmark := { Bookmark.fresh pre with isfolder := true }
  let x := st.store.brk
  let p := st.preventry
  let s₁ := st.store.alloc ⟨none, some p, none, folder⟩
  have hshape₁ : Shape s₁ rd f' := h.shape.alloc _
  have hxn : s₁.nodes x = some ⟨none, some p, none, folder⟩ := Function.update_self ..
  have hx : x ∉ (whole s₁ rd f').nodes := fun hmem => Nat.lt_irrefl _ (h.shape.mem_lt_brk hmem)
  obtain ⟨last, nodes, f'', hlast, hlink, hshape, hentries, hframe⟩ := hshape₁.link h.here hx hxn
  obtain rfl : st.endentry = last :=
    (lastChild_congr h.shape.tree.laid h.here (fun y hy => h.shape.alloc_node hy) h.last).unique hlast
  let s₂ : Store := { s₁ with nodes, htable := s₁.htable.insert pre x }
  have hnodex : nodes x = some ⟨none, some p, none, folder⟩ := (hframe x hx).trans hxn
  have hxmem : (x, folder) ∈ (whole s₂ rd f'').entries :=
    hentries.mem_iff.mpr (List.mem_cons_self ..)
  have hshape₂ : Shape s₂ rd f'' := hshape.insert hxmem rfl
  -- what was there is there with the same data
  have hdata (a : ℕ) (n : Node ℕ Bookmark) (hn : st.store.nodes a = some n) :
      ∃ n', nodes a = some n' ∧ n'.data = n.data := by
    have hne : a ≠ x := Nat.ne_of_lt (h.shape.lt_brk hn)
    have hn₁ : s₁.nodes a = some n := (Function.update_of_ne hne ..).trans hn
    rcases linkChild_node hlink a with ⟨hnone', -⟩ | ⟨m, n', hm, hn', hdata, -⟩
    · exact absurd (hn₁.symm.trans hnone') nofun
    · obtain rfl := Option.some.inj (hm.symm.trans hn₁)
      exact ⟨n', hn', hdata⟩
  have hkept (path : Bytes) (a : ℕ) (ha : st.store.htable path = some a) :
      s₂.htable path = some a := by
    have hne : path ≠ pre := by
      rintro rfl
      exact absurd (hnone.symm.trans ha) nofun
    exact (HashTable.insert_ne _ x hne).trans ha
  have hsnone : s.htable pre = none := by
    cases hs : s.htable pre with
    | none => rfl
    | some a => exact absurd (hnone.symm.trans (h.kept pre a hs)) nofun
  have hisfolder (path : Bytes) (hpath : IsFolder st.store path) : IsFolder s₂ path := by
    obtain ⟨a, n, ha, hn, hfolder⟩ := hpath
    obtain ⟨n', hn', hdata'⟩ := hdata a n hn
    exact ⟨a, n', hkept path a ha, hn', hdata' ▸ hfolder⟩
  refine ⟨⟨s₂, x, none⟩, f'', ?_, ?_⟩
  · refine (Ends.ok (⟨s₂, x, none⟩ : Position)).congr fun fuel => ?_
    simp only [enterFolder, hnone]
    rw [show (linkChild s₁.nodes p st.endentry x) = .ok nodes from hlink]
    rfl
  · refine
      { shape := hshape₂
        root := h.root
        brk := Nat.le_succ_of_le h.brk
        made := ?_
        aside := fun y hy hout => ?_
        data := fun a n hn => ?_
        kept := fun path a ha => hkept path a (h.kept path a ha)
        found := fun path hpath => ?_
        new := fun path a ha => ?_
        parents := fun a n' hn' hchildren => ?_
        here := List.mem_map_of_mem (f := Prod.fst) hxmem
        last := @lastChild_laid _ _ _ _ _ .nil hnodex rfl trivial
        above := .inr ⟨pre, folderOf_append_slash.mpr (.inl rfl), HashTable.insert_self ..⟩ }
    · obtain ⟨new, hperm, hnew⟩ := h.made
      refine ⟨(x, folder) :: new, hentries.trans (hperm.cons _), fun e he => ?_⟩
      rcases List.mem_cons.mp he with rfl | he
      · exact ⟨h.brk, rfl, folderOf_append_slash.mpr (.inl rfl)⟩
      · exact (hnew e he).imp_right fun hmade =>
          ⟨hmade.1, folderOf_append_slash.mpr (.inr hmade.2)⟩
    · have hne : y ≠ x := fun heq => absurd h.brk (by omega)
      have hstep : nodes y = st.store.nodes y :=
        (hframe y (h.mem_aside hy hout)).trans (Function.update_of_ne hne ..)
      exact hstep.trans (h.aside y hy hout)
    · obtain ⟨n', hn', hdata'⟩ := h.data a n hn
      obtain ⟨n'', hn'', hdata''⟩ := hdata a n' hn'
      exact ⟨n'', hn'', hdata''.trans hdata'⟩
    · rcases folderOf_append_slash.mp hpath with rfl | hpath
      · exact ⟨x, HashTable.insert_self ..⟩
      · obtain ⟨a, ha⟩ := h.found path hpath
        exact ⟨a, hkept path a ha⟩
    · by_cases hpath : path = pre
      · subst hpath
        exact .inr ⟨folderOf_append_slash.mpr (.inl rfl), hsnone,
          x, _, HashTable.insert_self .., hnodex, rfl⟩
      · have ha' : st.store.htable path = some a := (HashTable.insert_ne _ x hpath).symm.trans ha
        exact (h.new path a ha').imp_right fun hnew =>
          ⟨folderOf_append_slash.mpr (.inr hnew.1), hnew.2.1, hisfolder path hnew.2.2⟩
    · rcases linkChild_node hlink a with ⟨-, hnone'⟩ | ⟨m, m', hm, hm', hdata', hsame⟩
      · exact absurd (hn'.symm.trans hnone') nofun
      · obtain rfl := Option.some.inj (hm'.symm.trans hn')
        by_cases hap : a = p
        · subst hap
          rcases h.above with hroot | ⟨path, hpath, ha⟩
          · exact .inr (.inl hroot)
          · rcases h.new path _ ha with hs | ⟨-, -, b, n, hb, hn, hfolder⟩
            · exact .inr (.inr (.inr ⟨path, pre, hs, hpath,
                folderOf_append_slash.mpr (.inl rfl), hsnone⟩))
            · obtain rfl := Option.some.inj (ha.symm.trans hb)
              obtain ⟨n'', hn'', hdata''⟩ := hdata p n hn
              obtain rfl := Option.some.inj (hn''.symm.trans hn')
              exact .inr (.inr (.inl (hdata'' ▸ hfolder)))
        · have hsame' : m'.children = m.children := hsame.resolve_right hap
          have hax : a ≠ x := by
            rintro rfl
            obtain rfl := Option.some.inj (hxn.symm.trans hm)
            exact hchildren hsame'
          have hold : st.store.nodes a = some m := (Function.update_of_ne hax ..).symm.trans hm
          rcases h.parents a m hold (hsame' ▸ hchildren) with hold | hroot | hfolder | hthrough
          · exact .inl hold
          · exact .inr (.inl hroot)
          · exact .inr (.inr (.inl (hdata' ▸ hfolder)))
          · obtain ⟨path, path', hpath, hsub, hpre, hnone'⟩ := hthrough
            exact .inr (.inr (.inr ⟨path, path', hpath, hsub,
              folderOf_append_slash.mpr (.inr hpre), hnone'⟩))

/-- The loop comes to the end of the path. -/
theorem Walked.folders (h : Walked s rd f pre st f') (rest : Bytes) :
    ∃ st' f'', Ends (fun fuel => enterFolders fuel pre rest st) st' ∧
      Walked s rd f (pre ++ rest) st' f'' := by
  induction rest generalizing pre st f' with
  | nil => exact ⟨st, f', (Ends.ok st), by simpa using h⟩
  | cons c rest ih =>
    by_cases hc : c = 47
    · subst hc
      have henter : ∃ st' f'', Ends (fun fuel => enterFolder fuel pre st) st' ∧
          Walked s rd f (pre ++ [47]) st' f'' := by
        cases hfolder : st.store.htable pre with
        | none => exact h.enter_made hfolder
        | some folder =>
          obtain ⟨st', hend, hw⟩ := h.enter_found hfolder
          exact ⟨st', f', hend, hw⟩
      obtain ⟨st', f'', hend, hw⟩ := henter
      obtain ⟨st'', f''', hend', hw'⟩ := ih hw
      refine ⟨st'', f''', (hend.bind (k := fun fuel st => enterFolders fuel (pre ++ [47]) rest st)
        hend').congr fun fuel => ?_, by simpa using hw'⟩
      simp [enterFolders]
    · obtain ⟨st', f'', hend, hw⟩ := ih (h.skip hc)
      refine ⟨st', f'', hend.congr fun fuel => ?_, by simpa using hw⟩
      simp [enterFolders, hc]

end Folders

section Calls

variable {s : Store} {rd : Bookmark} {f : Forest ℕ Bookmark} {newentry : Bookmark}

/-- The path stands for an entry of its own. -/
def Stored (newentry : Bookmark) : Prop := newentry.path.getLast? ≠ some 47

instance : DecidablePred Stored := fun newentry =>
  inferInstanceAs (Decidable (newentry.path.getLast? ≠ some 47))

/-- The entries that are put into the tree besides folders. -/
def ownEntries (s : Store) (newentry : Bookmark) : List (ℕ × Bookmark) :=
  if Stored newentry then [(s.brk, withProtocol newentry)] else []

/-- What gftp_add_bookmark leaves. -/
structure Added (s : Store) (rd : Bookmark) (f : Forest ℕ Bookmark) (newentry : Bookmark)
    (s' : Store) (f' : Forest ℕ Bookmark) : Prop where
  shape : Shape s' rd f'
  root : s'.root = s.root
  entries : ∃ new, (whole s' rd f').entries.Perm
      (ownEntries s newentry ++ (new ++ (whole s rd f).entries)) ∧
    ∀ e ∈ new, e.2.isfolder = true ∧ FolderOf e.2.path newentry.path
  data : ∀ a n, s.nodes a = some n → ∃ n', s'.nodes a = some n' ∧ n'.data = n.data
  own : Stored newentry → s'.htable newentry.path = some s.brk ∧
    ∃ n, s'.nodes s.brk = some n ∧ n.data = withProtocol newentry
  kept : ∀ path a, s.htable path = some a →
    s'.htable path = some a ∨ path = newentry.path ∧ Stored newentry
  found : ∀ path, FolderOf path newentry.path → ∃ a, s'.htable path = some a
  new : ∀ path a, s'.htable path = some a → s.htable path = some a ∨
    FolderOf path newentry.path ∧ s.htable path = none ∧ IsFolder s' path ∨
    path = newentry.path ∧ Stored newentry
  parents : ∀ a n', s'.nodes a = some n' → n'.children ≠ none →
    (∃ n, s.nodes a = some n ∧ n.children ≠ none) ∨ a = s.root ∨ n'.data.isfolder = true ∨
      ∃ path path', s.htable path = some a ∧ FolderOf path path' ∧
        (FolderOf path' newentry.path ∧ s.htable path' = none ∨
          path' = newentry.path ∧ Stored newentry)

theorem parentPath_folderOf {path pre : Bytes} (h : parentPath path = some pre) :
    FolderOf pre path := by
  unfold parentPath at h
  split_ifs at h with hslash
  obtain rfl := Option.some.inj h
  have hsplit := List.takeWhile_append_dropWhile (p := (· ≠ (47 : UInt8))) (l := path.reverse)
  cases hdrop : path.reverse.dropWhile (· ≠ (47 : UInt8)) with
  | nil =>
    have hall := List.dropWhile_eq_nil_iff.mp hdrop 47 (List.mem_reverse.mpr hslash)
    simp at hall
  | cons c rest =>
    have hc : c = 47 := by
      have hhead := List.head?_dropWhile_not (· ≠ (47 : UInt8)) path.reverse
      rw [hdrop] at hhead
      simpa using hhead
    subst hc
    rw [hdrop] at hsplit
    refine ⟨(path.reverse.takeWhile (· ≠ (47 : UInt8))).reverse, ?_⟩
    have hpath := congrArg List.reverse hsplit
    simpa using hpath.symm

/-- The store in which the new entry was allocated. -/
def allocated (s : Store) (newentry : Bookmark) : Store :=
  s.alloc ⟨none, none, none, withProtocol newentry⟩

theorem allocated_node {a : ℕ} {n : Node ℕ Bookmark} (h : (allocated s newentry).nodes a = some n) :
    s.nodes a = some n ∨ a = s.brk ∧ n = ⟨none, none, none, withProtocol newentry⟩ := by
  by_cases ha : a = s.brk
  · subst ha
    exact .inr ⟨rfl, (Option.some.inj (alloc_node_self.symm.trans h)).symm⟩
  · exact .inl ((alloc_node_ne ha).symm.trans h)

/-- The folders were entered for a new entry, which is not in the tree. -/
structure Entered (s : Store) (rd : Bookmark) (f : Forest ℕ Bookmark) (newentry : Bookmark)
    (st : Position) (f' : Forest ℕ Bookmark) : Prop where
  before : Shape s rd f
  walked : Walked (allocated s newentry) rd f newentry.path st f'

variable {st : Position} {f' : Forest ℕ Bookmark}

theorem Entered.entry_outside (h : Entered s rd f newentry st f') :
    s.brk ∉ (whole st.store rd f').nodes :=
  h.walked.mem_aside (Nat.lt_succ_self _) fun hmem => Nat.lt_irrefl _ (h.before.mem_lt_brk hmem)

theorem Entered.entry_lt (h : Entered s rd f newentry st f') : s.brk < st.store.brk := h.walked.brk

theorem Entered.data (h : Entered s rd f newentry st f') {a : ℕ} {n : Node ℕ Bookmark}
    (hn : s.nodes a = some n) : a ≠ s.brk ∧ ∃ n', st.store.nodes a = some n' ∧ n'.data = n.data := by
  have hne : a ≠ s.brk := Nat.ne_of_lt (h.before.lt_brk hn)
  exact ⟨hne, h.walked.data a n ((Function.update_of_ne hne ..).trans hn)⟩

theorem Entered.parents (h : Entered s rd f newentry st f') {a : ℕ} {n' : Node ℕ Bookmark}
    (hn' : st.store.nodes a = some n') (hchildren : n'.children ≠ none) :
    (∃ n, s.nodes a = some n ∧ n.children ≠ none) ∨ a = s.root ∨ n'.data.isfolder = true ∨
      ∃ path path', s.htable path = some a ∧ FolderOf path path' ∧
        (FolderOf path' newentry.path ∧ s.htable path' = none ∨
          path' = newentry.path ∧ Stored newentry) := by
  rcases h.walked.parents a n' hn' hchildren with ⟨n, hn, hc⟩ | hroot | hfolder | hthrough
  · rcases allocated_node hn with hn | ⟨-, rfl⟩
    · exact .inl ⟨n, hn, hc⟩
    · exact absurd rfl hc
  · exact .inr (.inl hroot)
  · exact .inr (.inr (.inl hfolder))
  · obtain ⟨path, path', hpath, hsub, hnew⟩ := hthrough
    exact .inr (.inr (.inr ⟨path, path', hpath, hsub, .inl hnew⟩))

/-- An entry whose path ends in a slash is left where it was allocated. -/
theorem Entered.folder (h : Entered s rd f newentry st f') (hstored : ¬ Stored newentry)
    (n : Node ℕ Bookmark) (hn : n.children = none) :
    Added s rd f newentry (st.store.setNode s.brk n) f' := by
  have hw := h.walked
  refine
    { shape := hw.shape.aside h.entry_lt h.entry_outside
      root := hw.root
      entries := ?_
      data := fun a m hm => ?_
      own := fun hs => absurd hs hstored
      kept := fun path a ha => .inl (hw.kept path a ha)
      found := hw.found
      new := fun path a ha => ?_
      parents := fun a n' hn' hchildren => ?_ }
  · obtain ⟨new, hperm, hnew⟩ := hw.made
    refine ⟨new, ?_, fun e he => (hnew e he).2⟩
    rw [ownEntries, if_neg hstored]
    exact hperm
  · obtain ⟨hne, n', hn', hdata⟩ := h.data hm
    exact ⟨n', (setNode_ne hne).trans hn', hdata⟩
  · rcases hw.new path a ha with hold | ⟨hfolder, hnone, b, m, hb, hm, hisfolder⟩
    · exact .inl hold
    · refine .inr (.inl ⟨hfolder, hnone, b, m, hb, (setNode_ne ?_).trans hm, hisfolder⟩)
      rintro rfl
      obtain ⟨d, hd, -⟩ := hw.shape.table path _ hb
      exact h.entry_outside (List.mem_map_of_mem (f := Prod.fst) hd)
  · by_cases ha : a = s.brk
    · subst ha
      obtain rfl := Option.some.inj (setNode_self.symm.trans hn')
      exact absurd hn hchildren
    · exact h.parents ((setNode_ne ha).symm.trans hn') hchildren

theorem Entered.preventry (h : Entered s rd f newentry st f') :
    ∃ p, parentNode st.store newentry.path = .ok p ∧ p ∈ (whole st.store rd f').nodes ∧
      (p = s.root ∨ ∃ pre, FolderOf pre newentry.path ∧ st.store.htable pre = some p) := by
  unfold parentNode
  cases hparent : parentPath newentry.path with
  | none => exact ⟨st.store.root, rfl, by simp [whole], .inl h.walked.root⟩
  | some pre =>
    obtain ⟨p, hp⟩ := h.walked.found pre (parentPath_folderOf hparent)
    obtain ⟨d, hd, -⟩ := h.walked.shape.table pre p hp
    exact ⟨p, by simp [hp, pure, Except.pure], List.mem_map_of_mem (f := Prod.fst) hd,
      .inr ⟨pre, parentPath_folderOf hparent, hp⟩⟩

/-- An entry with a path of its own is put into the tree and the table. -/
theorem Entered.place (h : Entered s rd f newentry st f') (hstored : Stored newentry) :
    ∃ s' f'', Ends (fun fuel => placeEntry fuel st.store s.brk (withProtocol newentry)) s' ∧
      Added s rd f newentry s' f'' := by
  have hw := h.walked
  obtain ⟨p, hparent, hp, habove⟩ := h.preventry
  let s₁ := st.store.setNode s.brk ⟨none, some p, none, withProtocol newentry⟩
  have hshape₁ : Shape s₁ rd f' := hw.shape.aside h.entry_lt h.entry_outside
  have hsame (y : ℕ) (hy : y ∈ (whole st.store rd f').nodes) : s₁.nodes y = st.store.nodes y :=
    setNode_ne fun heq => h.entry_outside (heq ▸ hy)
  have hxn : s₁.nodes s.brk = some ⟨none, some p, none, withProtocol newentry⟩ := setNode_self
  obtain ⟨last, nodes, f'', hlast, hlink, hshape, hentries, hframe⟩ :=
    hshape₁.link hp h.entry_outside hxn
  obtain ⟨last', hlast'⟩ := lastChild_ends hw.shape.tree.laid hp
  obtain rfl := (lastChild_congr hw.shape.tree.laid hp hsame hlast').unique hlast
  have hnodex : nodes s.brk = some ⟨none, some p, none, withProtocol newentry⟩ :=
    (hframe s.brk h.entry_outside).trans hxn
  have hxmem : (s.brk, withProtocol newentry) ∈ (whole { s₁ with nodes } rd f'').entries :=
    hentries.mem_iff.mpr (List.mem_cons_self ..)
  have hdata (a : ℕ) (n : Node ℕ Bookmark) (ha : a ≠ s.brk) (hn : st.store.nodes a = some n) :
      ∃ n', nodes a = some n' ∧ n'.data = n.data := by
    have hn₁ : s₁.nodes a = some n := (setNode_ne ha).trans hn
    rcases linkChild_node hlink a with ⟨hnone, -⟩ | ⟨m, n', hm, hn', hdata, -⟩
    · exact absurd (hn₁.symm.trans hnone) nofun
    · obtain rfl := Option.some.inj (hm.symm.trans hn₁)
      exact ⟨n', hn', hdata⟩
  refine ⟨{ s₁ with nodes, htable := s₁.htable.insert newentry.path s.brk }, f'', ?_,
    { shape := hshape.insert hxmem rfl
      root := hw.root
      entries := ?_
      data := fun a n hn => ?_
      own := fun _ => ⟨HashTable.insert_self .., _, hnodex, rfl⟩
      kept := fun path a ha => ?_
      found := fun path hpath => ?_
      new := fun path a ha => ?_
      parents := fun a n' hn' hchildren => ?_ }⟩
  · refine (hlast'.bind (k := fun _ endentry => do
      let nodes ← linkChild s₁.nodes p endentry s.brk
      return { s₁ with nodes, htable := s₁.htable.insert newentry.path s.brk })
      ((Ends.ok _).congr fun fuel => ?_)).congr fun fuel => ?_
    · rw [hlink]
      rfl
    · simp only [placeEntry]
      rw [show (withProtocol newentry).path = newentry.path from rfl, hparent]
      rfl
  · obtain ⟨new, hperm, hnew⟩ := hw.made
    refine ⟨new, ?_, fun e he => (hnew e he).2⟩
    rw [ownEntries, if_pos hstored]
    exact hentries.trans (hperm.cons _)
  · obtain ⟨hne, n', hn', hdata'⟩ := h.data hn
    obtain ⟨n'', hn'', hdata''⟩ := hdata a n' hne hn'
    exact ⟨n'', hn'', hdata''.trans hdata'⟩
  · by_cases hpath : path = newentry.path
    · exact .inr ⟨hpath, hstored⟩
    · exact .inl ((HashTable.insert_ne _ _ hpath).trans (hw.kept path a ha))
  · by_cases hown : path = newentry.path
    · subst hown
      exact ⟨_, HashTable.insert_self ..⟩
    · obtain ⟨a, ha⟩ := hw.found path hpath
      exact ⟨a, (HashTable.insert_ne _ _ hown).trans ha⟩
  · by_cases hpath : path = newentry.path
    · exact .inr (.inr ⟨hpath, hstored⟩)
    · rcases hw.new path a ((HashTable.insert_ne _ _ hpath).symm.trans ha) with
        hold | ⟨hfolder, hnone, b, m, hb, hm, hisfolder⟩
      · exact .inl hold
      · have hne : b ≠ s.brk := by
          rintro rfl
          obtain ⟨d, hd, -⟩ := hw.shape.table path _ hb
          exact h.entry_outside (List.mem_map_of_mem (f := Prod.fst) hd)
        obtain ⟨m', hm', hdata'⟩ := hdata b m hne hm
        exact .inr (.inl ⟨hfolder, hnone, b, m', (HashTable.insert_ne _ _ hpath).trans hb, hm',
          hdata' ▸ hisfolder⟩)
  · rcases linkChild_node hlink a with ⟨-, hnone⟩ | ⟨m, m', hm, hm', hdata', hchild⟩
    · exact absurd (hn'.symm.trans hnone) nofun
    obtain rfl := Option.some.inj (hm'.symm.trans hn')
    by_cases hap : a = p
    · subst hap
      rcases habove with hroot | ⟨pre, hpre, ha⟩
      · exact .inr (.inl hroot)
      · rcases hw.new pre _ ha with hs | ⟨-, -, b, n, hb, hn, hfolder⟩
        · exact .inr (.inr (.inr ⟨pre, newentry.path, hs, hpre, .inr ⟨rfl, hstored⟩⟩))
        · obtain rfl := Option.some.inj (ha.symm.trans hb)
          have hne : a ≠ s.brk := fun heq => h.entry_outside (heq ▸ hp)
          obtain ⟨n'', hn'', hdata''⟩ := hdata a n hne hn
          obtain rfl := Option.some.inj (hn''.symm.trans hn')
          exact .inr (.inr (.inl (hdata'' ▸ hfolder)))
    · have hsame' : m'.children = m.children := hchild.resolve_right hap
      have hax : a ≠ s.brk := by
        rintro rfl
        obtain rfl := Option.some.inj (hxn.symm.trans hm)
        exact hchildren hsame'
      rcases h.parents ((setNode_ne hax).symm.trans hm) (hsame' ▸ hchildren) with
        hold | hroot | hfolder | hthrough
      · exact .inl hold
      · exact .inr (.inl hroot)
      · exact .inr (.inr (.inl (hdata' ▸ hfolder)))
      · exact .inr (.inr (.inr hthrough))

/-- A call comes to its end, for any path that is not empty. -/
theorem gftpAddBookmark_ends (h : Shape s rd f) (hpath : newentry.path ≠ []) :
    ∃ s' f', Adds s newentry s' ∧ Added s rd f newentry s' f' := by
  have hshape := h.alloc ⟨none, none, none, withProtocol newentry⟩
  have hroot : s.root ∈ (whole (allocated s newentry) rd f).nodes := by simp [whole, allocated, Store.alloc]
  obtain ⟨endentry, hlast⟩ := lastChild_ends hshape.tree.laid hroot
  obtain ⟨st, f', hend, hwalked⟩ :=
    (Walked.start hshape hlast).folders newentry.path
  have hentered : Entered s rd f newentry st f' := ⟨h, hwalked⟩
  obtain ⟨c, hc⟩ : ∃ c, newentry.path.getLast? = some c :=
    ⟨_, List.getLast?_eq_some_getLast hpath⟩
  -- the rest of the call behind the loop
  have hcall {s' : Store} (hrest : Ends (fun fuel =>
      if c = 47 then .ok (st.store.setNode s.brk
        ⟨none, none, none, { withProtocol newentry with path := newentry.path.dropLast, isfolder := true }⟩)
      else placeEntry fuel st.store s.brk (withProtocol newentry)) s') : Adds s newentry s' := by
    refine (hlast.bind (k := fun fuel endentry => do
      let st ← enterFolders fuel [] newentry.path ⟨allocated s newentry, s.root, endentry⟩
      if c = 47 then .ok (st.store.setNode s.brk
        ⟨none, none, none, { withProtocol newentry with path := newentry.path.dropLast, isfolder := true }⟩)
      else placeEntry fuel st.store s.brk (withProtocol newentry))
      (hend.bind hrest)).congr fun fuel => ?_
    simp only [gftpAddBookmark, show (withProtocol newentry).path = newentry.path from rfl, hc]
    rfl
  by_cases hslash : c = 47
  · have hstored : ¬ Stored newentry := by
      rw [Stored, hc, hslash]
      exact fun hne => hne rfl
    refine ⟨_, f', hcall ((Ends.ok _).congr fun fuel => if_pos hslash), ?_⟩
    exact hentered.folder hstored _ rfl
  · have hstored : Stored newentry := by
      rw [Stored, hc]
      exact fun heq => hslash (Option.some.inj heq)
    obtain ⟨s', f'', hplace, hadded⟩ := hentered.place hstored
    exact ⟨s', f'', hcall (hplace.congr fun fuel => if_neg hslash), hadded⟩

end Calls

end Gftp.BookmarkStore
