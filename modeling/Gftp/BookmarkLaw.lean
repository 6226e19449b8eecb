import Gftp.BookmarkStore
import Gftp.Runs

/-!
The tree and the hash table that gftp_add_bookmark builds fit together as long as no path is
both that of a bookmark and that of a folder: a prefix that the table has is taken for a folder
whatever it is, and a bookmark hides a folder of its path.
-/

namespace Gftp.BookmarkLaw

open ByteStrings Fuel Runs LinkedTrees Bookmarks BookmarkStore

/-- Each path leads to an entry of the tree that has it, each entry points to its parent, those
with children are folders, and so are the prefixes of the paths. -/
structure StoreLaw (s : Store) : Prop where
  mapped : ∀ path a, s.htable path = some a →
    Reachable s.nodes s.root a ∧ ∃ n, s.nodes a = some n ∧ n.data.path = path
  prev : ∀ p c, Reachable s.nodes s.root p → ChildOf s.nodes p c →
    ∃ n, s.nodes c = some n ∧ n.prev = some p
  folders : ∀ a n, Reachable s.nodes s.root a → s.nodes a = some n → n.children ≠ none →
    n.data.isfolder = true
  prefixes : ∀ path a pre, s.htable path = some a → FolderOf pre path → IsFolder s pre

/-- A path without one slash at its end. -/
def entryName (path : Bytes) : Bytes :=
  if path.getLast? = some 47 then path.dropLast else path

/-- The path uses no bookmark as a folder: the prefixes of its name that the table has are
folders, and a bookmark is not put in the place of a folder that paths lead through. -/
structure Fits (s : Store) (newentry : Bookmark) : Prop where
  nonempty : newentry.path ≠ []
  through : ∀ pre a, FolderOf pre (entryName newentry.path) → s.htable pre = some a → IsFolder s pre
  onto : newentry.path.getLast? ≠ some 47 → newentry.isfolder = false → ∀ path,
    FolderOf newentry.path path → s.htable path = none

section Shape

variable {s : Store} {rd : Bookmark} {f : Forest ℕ Bookmark}

theorem reachable_iff (h : Shape s rd f) {a : ℕ} :
    Reachable s.nodes s.root a ↔ a ∈ (whole s rd f).nodes := by
  constructor
  · intro ha
    induction ha with
    | refl => simp [whole]
    | tail _ hstep ih => exact h.tree.laid.closed ih hstep
  · exact fun ha => h.tree.laid.reachable rfl ha

theorem mapped_of_shape (h : Shape s rd f) {path : Bytes} {a : ℕ} (ha : s.htable path = some a) :
    Reachable s.nodes s.root a ∧ ∃ n, s.nodes a = some n ∧ n.data.path = path := by
  obtain ⟨d, hd, hpath⟩ := h.table path a ha
  obtain ⟨n, hn, rfl⟩ := h.tree.laid.entry hd
  exact ⟨(reachable_iff h).mpr (List.mem_map_of_mem (f := Prod.fst) hd), n, hn, hpath⟩

theorem prev_of_shape (h : Shape s rd f) {p c : ℕ} (hp : Reachable s.nodes s.root p)
    (hc : ChildOf s.nodes p c) : ∃ n, s.nodes c = some n ∧ n.prev = some p :=
  h.tree.laid.prev_child ((reachable_iff h).mp hp) hc

end Shape

section Names

variable {newentry : Bookmark} {pre path : Bytes}

theorem entryName_stored (h : Stored newentry) : entryName newentry.path = newentry.path :=
  if_neg h

theorem path_of_not_stored (h : ¬ Stored newentry) :
    newentry.path = entryName newentry.path ++ [47] := by
  have hlast : newentry.path.getLast? = some 47 := not_not.mp h
  rw [entryName, if_pos hlast]
  exact (List.dropLast_append_getLast? 47 hlast).symm

/-- The folders of a path are those of its name, and the name itself when it is not stored. -/
theorem folderOf_path (h : FolderOf pre newentry.path) :
    FolderOf pre (entryName newentry.path) ∨
      ¬ Stored newentry ∧ pre = entryName newentry.path := by
  by_cases hstored : Stored newentry
  · exact .inl ((entryName_stored hstored).symm ▸ h)
  · rw [path_of_not_stored hstored, folderOf_append_slash] at h
    exact h.symm.imp id fun heq => ⟨hstored, heq⟩

theorem folderOf_of_name (h : FolderOf pre (entryName newentry.path)) :
    FolderOf pre newentry.path := by
  by_cases hstored : Stored newentry
  · exact entryName_stored hstored ▸ h
  · rw [path_of_not_stored hstored, folderOf_append_slash]
    exact .inr h

end Names

section Step

variable {s s' : Store} {rd : Bookmark} {f f' : Forest ℕ Bookmark} {newentry : Bookmark}
  {pre path : Bytes} {a : ℕ}

theorem isFolder_kept (h : Added s rd f newentry s' f') (hfolder : IsFolder s pre)
    (hpre : pre ≠ newentry.path) : IsFolder s' pre := by
  obtain ⟨a, n, ha, hn, hisfolder⟩ := hfolder
  obtain ⟨n', hn', hdata⟩ := h.data a n hn
  exact ⟨a, n', (h.kept pre a ha).resolve_right fun hown => hpre hown.1, hn', hdata ▸ hisfolder⟩

/-- What a path led to before was a folder when it is one now. -/
theorem isFolder_before (hs : Shape s rd f) (h : Added s rd f newentry s' f')
    (ha : s.htable pre = some a) (hfolder : IsFolder s' pre) (hpre : pre ≠ newentry.path) :
    IsFolder s pre := by
  obtain ⟨b, n', hb, hn', hisfolder⟩ := hfolder
  have hsame := (h.kept pre a ha).resolve_right fun hown => hpre hown.1
  obtain rfl := Option.some.inj (hsame.symm.trans hb)
  obtain ⟨-, n, hn, -⟩ := mapped_of_shape hs ha
  obtain ⟨n'', hn'', hdata⟩ := h.data a n hn
  obtain rfl := Option.some.inj (hn''.symm.trans hn')
  exact ⟨a, n, ha, hn, hdata ▸ hisfolder⟩

theorem isFolder_through (h : Added s rd f newentry s' f') (hfits : Fits s newentry)
    (hpre : FolderOf pre (entryName newentry.path)) : IsFolder s' pre := by
  have hpath := folderOf_of_name hpre
  obtain ⟨a, ha⟩ := h.found pre hpath
  rcases h.new pre a ha with hold | ⟨-, -, hfolder⟩ | ⟨hown, -⟩
  · exact isFolder_kept h (hfits.through pre a hpre hold) hpath.ne
  · exact hfolder
  · exact absurd hown hpath.ne

theorem folders_kept (hs : Shape s rd f) (hlaw : StoreLaw s) (h : Added s rd f newentry s' f')
    (hfits : Fits s newentry) {n' : Node ℕ Bookmark} (ha : Reachable s'.nodes s'.root a)
    (hn' : s'.nodes a = some n') (hchildren : n'.children ≠ none) : n'.data.isfolder = true := by
  rcases h.parents a n' hn' hchildren with ⟨n, hn, hc⟩ | hroot | hfolder | hthrough
  · -- it had children before, in the tree or as one of the folders that were made
    obtain ⟨new, hperm, hnew⟩ := h.entries
    obtain ⟨⟨b, d⟩, hd, rfl⟩ := List.mem_map.mp ((reachable_iff h.shape).mp ha)
    obtain ⟨m, hm, rfl⟩ := h.shape.tree.laid.entry hd
    obtain rfl := Option.some.inj (hm.symm.trans hn')
    rcases List.mem_append.mp (hperm.mem_iff.mp hd) with hown | hrest
    · unfold ownEntries at hown
      split_ifs at hown with hstored
      · obtain ⟨rfl, -⟩ := Prod.mk.inj (List.mem_singleton.mp hown)
        exact absurd (hs.lt_brk hn) (Nat.lt_irrefl _)
      · exact absurd hown nofun
    · rcases List.mem_append.mp hrest with hmade | hold
      · exact (hnew _ hmade).1
      · have hreach := (reachable_iff hs).mpr (List.mem_map_of_mem (f := Prod.fst) hold)
        obtain ⟨m', hm', hdata⟩ := h.data _ n hn
        obtain rfl := Option.some.inj (hm'.symm.trans hn')
        exact hdata ▸ hlaw.folders _ n hreach hn hc
  · subst hroot
    obtain ⟨hnode, -, -⟩ := h.shape.tree.laid
    rw [h.root] at hnode
    obtain rfl := Option.some.inj (hnode.symm.trans hn')
    exact h.shape.rootFolder
  · exact hfolder
  · obtain ⟨path, path', hpath, hsub, hnew⟩ := hthrough
    have hname : FolderOf path (entryName newentry.path) := by
      rcases hnew with ⟨hfolder, -⟩ | ⟨rfl, hstored⟩
      · rcases folderOf_path hfolder with hname | ⟨-, rfl⟩
        · exact hsub.trans hname
        · exact hsub
      · rwa [entryName_stored hstored]
    obtain ⟨b, n, hb, hn, hisfolder⟩ := hfits.through path a hname hpath
    obtain rfl := Option.some.inj (hpath.symm.trans hb)
    obtain ⟨n'', hn'', hdata⟩ := h.data a n hn
    obtain rfl := Option.some.inj (hn''.symm.trans hn')
    exact hdata ▸ hisfolder

theorem prefixes_kept (hlaw : StoreLaw s) (h : Added s rd f newentry s' f')
    (hfits : Fits s newentry) (ha : s'.htable path = some a) (hpre : FolderOf pre path) :
    IsFolder s' pre := by
  rcases h.new path a ha with hold | ⟨hfolder, -, -⟩ | ⟨rfl, hstored⟩
  · by_cases hown : pre = newentry.path ∧ Stored newentry
    · obtain ⟨rfl, hstored⟩ := hown
      obtain ⟨htable, n, hn, hdata⟩ := h.own hstored
      refine ⟨s.brk, n, htable, hn, ?_⟩
      cases hisfolder : newentry.isfolder with
      | true => exact (congrArg Bookmark.isfolder hdata).trans hisfolder
      | false => exact absurd (hold.symm.trans (hfits.onto hstored hisfolder path hpre)) nofun
    · obtain ⟨b, n, hb, hn, hisfolder⟩ := hlaw.prefixes path a pre hold hpre
      obtain ⟨n', hn', hdata⟩ := h.data b n hn
      exact ⟨b, n', (h.kept pre b hb).resolve_right hown, hn', hdata ▸ hisfolder⟩
  · refine isFolder_through h hfits ?_
    rcases folderOf_path hfolder with hname | ⟨-, rfl⟩
    · exact hpre.trans hname
    · exact hpre
  · refine isFolder_through h hfits ?_
    rwa [entryName_stored hstored]

/-- After a call the law holds again if and only if the entry fits. -/
theorem law_step (hs : Shape s rd f) (hlaw : StoreLaw s) (h : Added s rd f newentry s' f')
    (hpath : newentry.path ≠ []) : StoreLaw s' ↔ Fits s newentry := by
  constructor
  · intro hlaw'
    refine ⟨hpath, fun pre a hpre ha => ?_, fun hstored hisfolder path hsub => ?_⟩
    · have hname : ∃ b, s'.htable (entryName newentry.path) = some b := by
        by_cases hstored : Stored newentry
        · rw [entryName_stored hstored]
          exact ⟨s.brk, (h.own hstored).1⟩
        · refine h.found _ ?_
          rw [path_of_not_stored hstored, folderOf_append_slash]
          exact .inl (congrArg entryName (path_of_not_stored hstored).symm)
      obtain ⟨b, hb⟩ := hname
      exact isFolder_before hs h ha (hlaw'.prefixes _ b pre hb hpre)
        (folderOf_of_name hpre).ne
    · cases ha : s.htable path with
      | none => rfl
      | some a =>
        have hkept := (h.kept path a ha).resolve_right fun hown => hsub.ne hown.1.symm
        obtain ⟨b, n, hb, hn, hfolder⟩ := hlaw'.prefixes path a _ hkept hsub
        obtain ⟨htable, m, hm, hdata⟩ := h.own hstored
        obtain rfl := Option.some.inj (htable.symm.trans hb)
        obtain rfl := Option.some.inj (hm.symm.trans hn)
        rw [hdata] at hfolder
        exact absurd (hisfolder.symm.trans hfolder) nofun
  · intro hfits
    exact
      { mapped := fun path a ha => mapped_of_shape h.shape ha
        prev := fun p c hp hc => prev_of_shape h.shape hp hc
        folders := fun a n ha hn hchildren => folders_kept hs hlaw h hfits ha hn hchildren
        prefixes := fun path a pre ha hpre => prefixes_kept hlaw h hfits ha hpre }

end Step

theorem empty_law : StoreLaw .empty where
  mapped _ _ ha := absurd ha nofun
  prev _ _ hp hc := prev_of_shape empty_shape hp hc
  folders a n ha hn hchildren := by
    obtain ⟨hroot, -, -⟩ := empty_shape.tree.laid
    obtain rfl : a = Store.empty.root := by simpa [whole] using (reachable_iff empty_shape).mp ha
    obtain rfl := Option.some.inj (hroot.symm.trans hn)
    exact absurd rfl hchildren
  prefixes _ _ _ ha _ := absurd ha nofun

/-- In a run of calls in which every entry fits, the tree and the table fit together; and the
next call keeps this if and only if its entry fits. -/
theorem store_law_kept {s : Store} (hrun : Reaches Adds Fits .empty s) :
    StoreLaw s ∧ ∀ newentry, newentry.path ≠ [] →
      ∃ s', Adds s newentry s' ∧ (StoreLaw s' ↔ Fits s newentry) := by
  have hinv : (∃ rd f, Shape s rd f) ∧ StoreLaw s := by
    refine hrun.invariant (fun s => (∃ rd f, Shape s rd f) ∧ StoreLaw s)
      ⟨⟨_, _, empty_shape⟩, empty_law⟩ ?_
    intro s newentry s' ⟨⟨rd, f, hs⟩, hlaw⟩ hfits hadds
    obtain ⟨s'', f', hadds', hadded⟩ := gftpAddBookmark_ends hs hfits.nonempty
    obtain rfl := hadds.unique hadds'
    exact ⟨⟨rd, f', hadded.shape⟩, (law_step hs hlaw hadded hfits.nonempty).mpr hfits⟩
  obtain ⟨⟨rd, f, hs⟩, hlaw⟩ := hinv
  refine ⟨hlaw, fun newentry hpath => ?_⟩
  obtain ⟨s', f', hadds, hadded⟩ := gftpAddBookmark_ends hs hpath
  exact ⟨s', hadds, law_step hs hlaw hadded hpath⟩

/-- A bookmark in a folder, and one in the bookmark. -/
def inFolder : Bookmark := Bookmark.fresh (ascii "a/b")

def inBookmark : Bookmark := Bookmark.fresh (ascii "a/b/c")

theorem inFolder_fits : Fits .empty inFolder where
  nonempty := by decide
  through _ _ _ ha := absurd ha nofun
  onto _ _ _ _ := rfl

theorem inFolder_kept :
    ∃ s, Adds .empty inFolder s ∧ StoreLaw s ∧ ∀ newentry, newentry.path ≠ [] →
      ∃ s', Adds s newentry s' ∧ (StoreLaw s' ↔ Fits s newentry) := by
  obtain ⟨s, f, hadds, hadded⟩ := gftpAddBookmark_ends empty_shape inFolder_fits.nonempty
  exact ⟨s, hadds, store_law_kept ((Reaches.refl _).tail inFolder_fits hadds)⟩

/-- A bookmark becomes the parent of another one without being a folder. -/
theorem bookmark_with_children :
    ¬ ∀ s, Reaches Adds (fun _ newentry => newentry.path ≠ []) .empty s → StoreLaw s := by
  intro hall
  obtain ⟨s, f, hadds, hadded⟩ := gftpAddBookmark_ends empty_shape inFolder_fits.nonempty
  obtain ⟨s', f', hadds', hadded'⟩ :=
    @gftpAddBookmark_ends _ _ _ inBookmark hadded.shape (by decide)
  have hlaw := hall s' (((Reaches.refl _).tail (a := inFolder) inFolder_fits.nonempty
    hadds).tail (a := inBookmark) (by decide) hadds')
  obtain ⟨hown, n, hn, hdata⟩ := hadded.own (by decide)
  have hsub : FolderOf inFolder.path inBookmark.path := ⟨ascii "c", by decide⟩
  have hown' : s'.htable inBookmark.path = some s.brk := (hadded'.own (by decide)).1
  have hkept : s'.htable inFolder.path = some Store.empty.brk :=
    (hadded'.kept _ _ hown).resolve_right fun h => hsub.ne h.1
  obtain ⟨a, m, ha, hm, hfolder⟩ := hlaw.prefixes _ _ _ hown' hsub
  obtain ⟨n', hn', hdata'⟩ := hadded'.data _ n hn
  obtain rfl := Option.some.inj (hkept.symm.trans ha)
  obtain rfl := Option.some.inj (hn'.symm.trans hm)
  rw [hdata', hdata] at hfolder
  exact absurd hfolder (by decide)

end Gftp.BookmarkLaw
