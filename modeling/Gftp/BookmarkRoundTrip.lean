import Mathlib.Algebra.Order.BigOperators.Group.List
import Gftp.BookmarkRestores

/-!
The file of a tree of bookmarks gives a tree with the same bookmarks exactly when none of
them has entries below it, which are written in its place, and no text of theirs ends in a
carriage return.
-/

namespace Gftp.BookmarkRoundTrip

open ByteStrings Fuel LinkedTrees Bookmarks BookmarkWalks BookmarkStore TextFiles Comments
  BookmarksFile BookmarkFields BookmarkRestores Runs

/-- The bookmarks of a tree that its file restores. -/
structure Intact (f : Forest ℕ Bookmark) : Prop where
  childless : ∀ e ∈ f.entries, e.2.isfolder = false → e ∈ f.leaves
  noReturn : ∀ e ∈ f.entries, e.2.isfolder = false → ∀ t ∈ endTexts e.2, t.getLast? ≠ some 13

section Counting

variable {d : Bookmark}

/-- The texts of a site, in bytes. -/
def bytes (site : Site) : ℕ :=
  site.hostname.length + site.protocol.length + site.remoteDir.length + site.localDir.length +
    site.user.length + site.acct.length

theorem bytes_chomped_le (d : Bookmark) : bytes (chompedSite d) ≤ bytes (siteOf d) := by
  have hle (l : Bytes) : (stripLast 13 l).length ≤ l.length := stripLast_length_le 13 l
  simp only [bytes, chompedSite, siteOf]
  gcongr <;> exact hle _

theorem endTexts_of_bytes (h : bytes (chompedSite d) = bytes (siteOf d)) :
    ∀ t ∈ endTexts d, t.getLast? ≠ some 13 := by
  have hle (l : Bytes) : (stripLast 13 l).length ≤ l.length := stripLast_length_le 13 l
  have hself (l : Bytes) (hlen : (stripLast 13 l).length = l.length) : l.getLast? ≠ some 13 :=
    stripLast_eq_self.mp ((stripLast_begins 13 l).eq_of_length hlen)
  simp only [bytes, chompedSite, siteOf] at h
  have h₁ := hle (orEmpty d.hostname)
  have h₂ := hle (orEmpty d.protocol)
  have h₃ := hle (orEmpty d.remoteDir)
  have h₄ := hle (orEmpty d.localDir)
  have h₅ := hle (orEmpty d.user)
  have h₆ := hle (orEmpty d.acct)
  simp only [endTexts, List.forall_mem_cons]
  exact ⟨hself _ (by omega), hself _ (by omega), hself _ (by omega), hself _ (by omega),
    hself _ (by omega), hself _ (by omega), (by simp)⟩

theorem chompedSite_eq (h : ∀ t ∈ endTexts d, t.getLast? ≠ some 13) : chompedSite d = siteOf d := by
  simp only [endTexts, List.forall_mem_cons] at h
  obtain ⟨h₁, h₂, h₃, h₄, h₅, h₆, -⟩ := h
  simp only [chompedSite, siteOf, stripLast_eq_self.mpr h₁, stripLast_eq_self.mpr h₂,
    stripLast_eq_self.mpr h₃, stripLast_eq_self.mpr h₄, stripLast_eq_self.mpr h₅,
    stripLast_eq_self.mpr h₆]

/-- Sums of terms that do not grow are equal when each term is. -/
theorem eq_of_sum_eq {α : Type} {l : List α} {g k : α → ℕ} (hle : ∀ x ∈ l, g x ≤ k x)
    (hsum : (l.map g).sum = (l.map k).sum) : ∀ x ∈ l, g x = k x := by
  induction l with
  | nil => exact nofun
  | cons x l ih =>
    obtain ⟨hx, hl⟩ := List.forall_mem_cons.mp hle
    have hrest := List.sum_le_sum hl
    simp only [List.map_cons, List.sum_cons] at hsum
    exact List.forall_mem_cons.mpr ⟨by omega, ih hl (by omega)⟩

end Counting

theorem written_iff {f : Forest ℕ Bookmark} (hnodup : f.entries.Nodup) :
    (writtenSites f.leaves).Perm (sites f.entries) ↔ Intact f := by
  have hsub : (ownBookmarks f.leaves).Sublist (ownBookmarks f.entries) :=
    (f.leaves_sublist.map Prod.snd).filter _
  have hfilter (es : List (ℕ × Bookmark)) :
      ownBookmarks es = (es.filter fun e => e.2.isfolder = false).map Prod.snd := by
    simp [ownBookmarks, List.filter_map, Function.comp_def]
  constructor
  · intro hperm
    have hlen : (ownBookmarks f.leaves).length = (ownBookmarks f.entries).length := by
      simpa [writtenSites, sites] using hperm.length_eq
    have hown : ownBookmarks f.leaves = ownBookmarks f.entries := hsub.eq_of_length hlen
    have hentries : (f.leaves.filter fun e => e.2.isfolder = false) =
        f.entries.filter fun e => e.2.isfolder = false := by
      refine (f.leaves_sublist.filter _).eq_of_length ?_
      simpa [hfilter] using hlen
    refine ⟨fun e he hisfolder => ?_, fun e he hisfolder => endTexts_of_bytes ?_⟩
    · have hmem : e ∈ f.entries.filter fun e => e.2.isfolder = false :=
        List.mem_filter.mpr ⟨he, by simpa using hisfolder⟩
      exact (List.mem_filter.mp (hentries ▸ hmem)).1
    · have hsum := (hperm.map bytes).sum_eq
      rw [writtenSites, sites, hown, List.map_map, List.map_map] at hsum
      refine eq_of_sum_eq (fun d _ => bytes_chomped_le d) hsum e.2 ?_
      rw [hfilter]
      exact List.mem_map_of_mem (List.mem_filter.mpr ⟨he, by simpa using hisfolder⟩)
  · intro h
    have hall : (f.entries.filter fun e => e.2.isfolder = false) ⊆
        f.leaves.filter fun e => e.2.isfolder = false := by
      intro e he
      obtain ⟨hmem, hisfolder⟩ := List.mem_filter.mp he
      exact List.mem_filter.mpr ⟨h.childless e hmem (by simpa using hisfolder), hisfolder⟩
    have hown : ownBookmarks f.leaves = ownBookmarks f.entries := by
      refine hsub.eq_of_length_le ?_
      rw [hfilter, hfilter, List.length_map, List.length_map]
      exact (List.subperm_of_subset (hnodup.filter _) hall).length_le
    rw [writtenSites, sites, hown]
    refine List.Perm.of_eq (List.map_congr_left fun d hd => ?_)
    rw [hfilter] at hd
    obtain ⟨e, he, rfl⟩ := List.mem_map.mp hd
    obtain ⟨hmem, hisfolder⟩ := List.mem_filter.mp he
    exact chompedSite_eq (h.noReturn e hmem (by simpa using hisfolder))

section File

variable {readOption : Bytes → Bytes → Option LocalOption} {bmhdr pwhdr : Bytes} {s : Store}
  {rd : Bookmark} {f : Forest ℕ Bookmark}

theorem write_ends (h : IsTree s.nodes s.root rd f) :
    Ends (fun fuel => gftpWriteBookmarksFile bmhdr pwhdr fuel s)
      (writeComment bmhdr ++ writeComment pwhdr ++ [10] ++
        joinLines (f.leaves.flatMap fun e => entryLines e.2)) := by
  have hjoin : joinLines (f.leaves.flatMap fun e => entryLines e.2) =
      f.leaves.flatMap fun e => joinLines (entryLines e.2) := List.flatMap_assoc
  rw [hjoin]
  exact (writeEntries_leaves h).bind (k := fun _ entries =>
    .ok (writeComment bmhdr ++ writeComment pwhdr ++ [10] ++ entries)) (.ok _)

variable (readOption) in
theorem read_ends (hbm : Plain bmhdr) (hpw : Plain pwhdr) {es : List (ℕ × Bookmark)}
    (hes : ∀ e ∈ es, Placed e.2) :
    ∃ s' kept, Ends (fun fuel => gftpReadBookmarks readOption fuel
        (writeComment bmhdr ++ writeComment pwhdr ++ [10] ++
          joinLines (es.flatMap fun e => entryLines e.2))) s' ∧
      Holds s' kept ∧ kept.Perm (writtenSites es) := by
  obtain ⟨header, hheader, hskipped⟩ := header_lines hbm hpw
  have hempty : Holds Store.empty [] := ⟨_, _, empty_shape, .of_eq rfl⟩
  obtain ⟨st', hread, kept, hholds, hperm⟩ :=
    Holds.entries readOption (show Holds (Reading.mk .empty none).store [] from hempty) hes
  have hreads := (Reads.comments readOption hskipped .empty).append hread
  have hfit : ∀ l ∈ header ++ es.flatMap fun e => entryLines e.2, FitsLine 254 l := by
    refine List.forall_mem_append.mpr ⟨fun l hl => (hskipped l hl).1.1, fun l hl => ?_⟩
    obtain ⟨e, he, hl⟩ := List.mem_flatMap.mp hl
    exact ((hes e he).lines l hl).1
  have hlines := getLines_join hfit []
  rw [List.append_nil, show getLines 254 [] = [] from rfl, List.append_nil] at hlines
  refine ⟨st'.store, kept, ?_, hholds, by simpa using hperm⟩
  rw [hheader, ← joinLines_append]
  refine (hreads.bind (k := fun _ st => .ok st.store) (.ok _)).congr fun fuel => ?_
  rw [gftpReadBookmarks, hlines]
  rfl

theorem entries_nodup (h : IsTree s.nodes s.root rd f) : f.entries.Nodup := by
  have hnodup := h.nodup
  rw [Forest.nodes_cons, Forest.nodes_nil, List.append_nil, List.nodup_cons] at hnodup
  exact List.Nodup.of_map _ hnodup.2

end File

/-- The bookmarks that were added are written to the file and read again. The tree that was read
has every bookmark once, with its path and its fields, exactly when only folders have entries
below them and no text of a bookmark ends in a carriage return. -/
theorem file_restores_iff (readOption : Bytes → Bytes → Option LocalOption) (bmhdr pwhdr : Bytes)
    (hbm : Plain bmhdr) (hpw : Plain pwhdr) (s : Store)
    (hrun : Reaches Adds (fun _ newentry => Writable newentry) .empty s) :
    ∃ rd f file s' rd' f', IsTree s.nodes s.root rd f ∧
      Ends (fun fuel => gftpWriteBookmarksFile bmhdr pwhdr fuel s) file ∧
      Ends (fun fuel => gftpReadBookmarks readOption fuel file) s' ∧
      IsTree s'.nodes s'.root rd' f' ∧
      ((sites f'.entries).Perm (sites f.entries) ↔ Intact f) := by
  obtain ⟨rd, f, hshape, hall⟩ := hrun.invariant AllPlaced allPlaced_empty
    fun _ _ _ h hok hadds => allPlaced_step h hok hadds
  have hleaves : ∀ e ∈ f.leaves, Placed e.2 := by
    intro e he
    have hmem := f.leaves_sublist.subset he
    refine hall e (by simp [whole, Forest.entries, hmem]) fun hroot => ?_
    have hnodup := hshape.tree.nodup
    rw [Forest.nodes_cons, Forest.nodes_nil, List.append_nil, List.nodup_cons] at hnodup
    exact hnodup.1 (hroot ▸ List.mem_map_of_mem (f := Prod.fst) hmem)
  obtain ⟨s', kept, hread, ⟨rd', f', hshape', hsites⟩, hperm⟩ :=
    read_ends readOption hbm hpw hleaves
  refine ⟨rd, f, _, s', rd', f', hshape.tree, write_ends hshape.tree, hread, hshape'.tree, ?_⟩
  have hroot : sites (whole s' rd' f').entries = sites f'.entries := by
    rw [whole, Forest.entries, sites_folder hshape'.rootFolder]
    simp [Forest.entries]
  have hfile : (sites f'.entries).Perm (writtenSites f.leaves) :=
    hroot ▸ hsites.trans hperm
  rw [← written_iff (entries_nodup hshape.tree)]
  exact ⟨hfile.symm.trans, hfile.trans⟩

/-- A bookmark, and one with a path below it. -/
def outer : Bookmark := { Bookmark.fresh (ascii "a") with hostname := some (ascii "h") }

def inner : Bookmark := Bookmark.fresh (ascii "a/b")

theorem header_plain : Plain (ascii "Bookmarks file for gFTP.") :=
  plain_of_short _ (by decide) (by decide) (by decide)

theorem note_plain : Plain (ascii "Note:") := plain_of_short _ (by decide) (by decide) (by decide)

theorem outer_writable : Writable outer where
  head := ⟨97, rfl, by decide⟩
  noBlank := by decide
  noBracket := by decide
  lines := by decide
  protocol := nofun
  saved h := absurd rfl h
  passNul := nofun
  options := nofun

theorem inner_writable : Writable inner where
  head := ⟨97, rfl, by decide⟩
  noBlank := by decide
  noBracket := by decide
  lines := by decide
  protocol := nofun
  saved h := absurd rfl h
  passNul := nofun
  options := nofun

theorem outer_restored :
    ∃ s, Adds .empty outer s ∧
      ∃ rd f file s' rd' f', IsTree s.nodes s.root rd f ∧
        Ends (fun fuel => gftpWriteBookmarksFile (ascii "Bookmarks file for gFTP.") (ascii "Note:")
          fuel s) file ∧
        Ends (fun fuel => gftpReadBookmarks (fun _ _ => none) fuel file) s' ∧
        IsTree s'.nodes s'.root rd' f' ∧
        ((sites f'.entries).Perm (sites f.entries) ↔ Intact f) := by
  obtain ⟨s, f, hadds, -⟩ := @gftpAddBookmark_ends _ _ _ outer empty_shape (by decide)
  exact ⟨s, hadds, file_restores_iff _ _ _
    header_plain note_plain s
    ((Reaches.refl _).tail outer_writable hadds)⟩

/-- The store after a call. -/
def added (s : Store) (newentry : Bookmark) : Store :=
  match gftpAddBookmark 8 s newentry with
  | .ok s' => s'
  | .error _ => s

theorem outer_added : Adds .empty outer (added .empty outer) := by
  refine ⟨8, fun fuel hfuel => ?_⟩
  obtain ⟨k, rfl⟩ := Nat.exists_eq_add_of_le' hfuel
  rfl

theorem inner_added : Adds (added .empty outer) inner (added (added .empty outer) inner) := by
  refine ⟨8, fun fuel hfuel => ?_⟩
  obtain ⟨k, rfl⟩ := Nat.exists_eq_add_of_le' hfuel
  rfl

/-- The bookmark has the other one below it. -/
def innerForest : Forest ℕ Bookmark :=
  .cons 1 (withProtocol outer) (.cons 2 (withProtocol inner) .nil .nil) .nil

theorem innerForest_tree : IsTree (added (added .empty outer) inner).nodes
    (added (added .empty outer) inner).root { Bookmark.fresh [] with isfolder := true }
    innerForest where
  laid := ⟨rfl, ⟨rfl, ⟨rfl, trivial, trivial⟩, trivial⟩, trivial⟩
  nodup := by decide

theorem outer_lost :
    ¬ ∀ s, Reaches Adds (fun _ newentry => Writable newentry) .empty s →
      ∀ rd f, IsTree s.nodes s.root rd f → ∃ file s' rd' f',
        Ends (fun fuel => gftpWriteBookmarksFile (ascii "Bookmarks file for gFTP.") (ascii "Note:")
          fuel s) file ∧
        Ends (fun fuel => gftpReadBookmarks (fun _ _ => none) fuel file) s' ∧
        IsTree s'.nodes s'.root rd' f' ∧ (sites f'.entries).Perm (sites f.entries) := by
  intro hall
  have hstart : Reaches Adds (fun _ newentry => Writable newentry) Store.empty Store.empty := .refl _
  have hrun := (hstart.tail outer_writable outer_added).tail inner_writable inner_added
  obtain ⟨file, s', rd', f', hwrite, hread, htree, hperm⟩ := hall _ hrun _ _ innerForest_tree
  have hplaced : ∀ e ∈ innerForest.leaves, Placed e.2 :=
    List.forall_mem_singleton.mpr (inner_writable.placed (by decide))
  obtain ⟨s'', kept, hread', ⟨rd'', f'', hshape, hsites⟩, hkept⟩ :=
    read_ends (fun _ _ => none)
      header_plain note_plain hplaced
  obtain rfl := hwrite.unique (write_ends innerForest_tree)
  obtain rfl := hread.unique hread'
  obtain ⟨-, rfl⟩ := htree.unique hshape.tree
  -- one entry has lines in the file, two are in the tree
  have hlen := (hsites.trans hkept).length_eq
  rw [whole, Forest.entries, sites_folder hshape.rootFolder, Forest.entries, List.append_nil,
    hperm.length_eq] at hlen
  exact absurd hlen (by decide)

end Gftp.BookmarkRoundTrip
