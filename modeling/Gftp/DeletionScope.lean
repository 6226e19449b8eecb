import Gftp.DeviceHashes
import Gftp.LinkSystems
import Gftp.ListingOrder

/-!
What a deletion removes of a file system with symbolic links. The walk enters a link to a
directory like the directory itself, so its list holds every entry that is reached when
links are followed, and the loop of gftpui_common_run_delete takes them all.
-/

namespace Gftp.DeletionScope

open ByteStrings DeviceHashes DirectoryReads LinkedLists LinkSystems ListingOrder LocalListings
  Protocol Subdirs SubdirWalk

variable {D τ : Type} {fs : LinkSystem D} {num : Protonum} {T : WalkProtocol τ}

/-- The files are the entries that a directory shows, under their paths. -/
structure Entries (fs : LinkSystem D) (num : Protonum) (d : D) (files : List WalkFile) :
    Prop where
  sound : ∀ g ∈ files, ∃ n ∈ shown fs num d, NoDots n ∧
    g.file = entryPath (fs.path d) n.1 ∧ Truthful fs num g.file g
  complete : ∀ n ∈ shown fs num d, NoDots n →
    ∃ g ∈ files, g.file = entryPath (fs.path d) n.1

section Visits

variable {w : Walk Unit τ} {f : WalkFile}

theorem followLink_request {r r' : WalkRequest Unit} {f' : WalkFile} {ret : ℤ}
    (h : followLink (protocol fs num) r f = (ret, r', f')) : r' = r := by
  have hstat := @statFilename_request D fs num r f.file
  unfold followLink at h
  split_ifs at h
  · dsimp only at h
    split_ifs at h <;> (obtain ⟨-, rfl, -⟩ := h; exact hstat)
  · obtain ⟨-, rfl, -⟩ := h
    rfl

/-- What leads to a directory has the mode of one behind this step. -/
theorem followLink_directory {r r' : WalkRequest Unit} {f' : WalkFile} {ret : ℤ} {d : D}
    (htrue : Truthful fs num f.file f) (hd : fs.resolve f.file = some d)
    (h : followLink (protocol fs num) r f = (ret, r', f')) : sIsdir f'.stMode = true := by
  obtain ⟨st, hst, hdir⟩ := fs.stat_directory f.file d hd
  cases hmode : sIsdir f.stMode with
  | true =>
    have hskip : ¬((sIslnk f.stMode && !sIsdir f.stMode) = true) := by simp [hmode]
    unfold followLink at h
    rw [if_neg hskip] at h
    obtain ⟨-, -, rfl⟩ := h
    exact hmode
  | false =>
    obtain ⟨listed, hlisted, hf, -, -⟩ := htrue
    cases num with
    | gftpLocalNum =>
      have hsome := fs.lstat_of_stat _ _ hst
      simp only [listedStat, if_pos hsome, hst] at hlisted
      obtain rfl := Option.some.inj hlisted
      rw [hf, hdir] at hmode
      cases hmode
    | gftpSshv2Num =>
      obtain ⟨lst, hlst, rfl⟩ := Option.map_eq_some_iff.mp hlisted
      cases hlink : sIslnk lst.stMode with
      | false =>
        obtain rfl := Option.some.inj ((fs.stat_real _ _ hlst hlink).symm.trans hst)
        rw [hf, hdir] at hmode
        cases hmode
      | true =>
        have hfollow : (sIslnk f.stMode && !sIsdir f.stMode) = true := by
          rw [hmode, hf, hlink]
          rfl
        have hanswer : gftpStatFilename (protocol fs .gftpSshv2Num) r f.file =
            (⟨0, st.stMode, st.stSize⟩, r) := by
          simp only [gftpStatFilename, protocol, statFilename, hst]
        unfold followLink at h
        rw [if_pos hfollow, hanswer] at h
        dsimp only at h
        rw [if_neg (by decide), if_pos rfl, if_pos hdir] at h
        obtain ⟨-, -, rfl⟩ := h
        exact hdir

@[simp] theorem dirListing_request (r : WalkRequest Unit) (toreq : Option (WalkRequest τ))
    (other : Bool) : (gftpGetDirListing (protocol fs num) T r toreq other).fromreq = r := by
  unfold gftpGetDirListing
  dsimp only
  split_ifs <;> simp

theorem visited_usable (hw : Usable num w.fromreq) :
    Usable num (visited (protocol fs num) T w f).after.fromreq := by
  rcases visited_cases (F := protocol fs num) (T := T) (w := w) (f := f) with
    ⟨-, hv⟩ | ⟨-, ret, r, f', w', hlink, rfl, hcases⟩
  · rw [hv]
    exact hw
  · obtain rfl := followLink_request hlink
    rcases hcases with ⟨-, hv⟩ | ⟨-, -, hv⟩ | ⟨-, -, hv⟩
    · rw [hv]
      exact hw
    · rw [hv]
      exact hw
    · rw [hv]
      obtain ⟨_, r', _, hset, rfl, hcases⟩ := enterDirectory_cases (F := protocol fs num) (T := T)
        (w := { w with
          deviceHash := (lookupCurfleInDeviceHash f w.deviceHash).2, fromreq := w.fromreq })
        (f := f') rfl
      have hr' := (setDirectory_cases hw hset).1
      rcases hcases with ⟨-, henter⟩ | ⟨-, _, w₂, hother, hcases⟩
      · rw [henter]
        exact hr'
      · have hsame : w₂.fromreq = r' :=
          (congrArg (·.2.fromreq) hother).symm.trans enterOther_fromreq
        rcases hcases with ⟨-, henter⟩ | ⟨-, _, _, rfl, rfl, ⟨-, henter⟩ | ⟨-, henter⟩⟩
        · rw [henter]
          exact hsame ▸ hr'
        · rw [henter]
          simpa [hsame] using hr'
        · rw [henter]
          simpa [hsame] using hr'

theorem listed_entries {r r' : WalkRequest Unit} {toreq : Option (WalkRequest τ)} {other : Bool}
    {p : Bytes} {ret : ℤ} (hr : Usable num r)
    (hset : gftpSetDirectory (protocol fs num) r (some p) = (ret, r')) (hret : 0 ≤ ret)
    (hlist : 0 ≤ (gftpGetDirListing (protocol fs num) T r' toreq other).ret) :
    ∃ d, fs.resolve p = some d ∧
      Entries fs num d (gftpGetDirListing (protocol fs num) T r' toreq other).files := by
  obtain ⟨hr', hdirectory⟩ := setDirectory_cases hr hset
  obtain ⟨hresolve, hpath⟩ := hdirectory hret
  obtain ⟨hlisted, hfrom, -, hfiles⟩ := dirListing_read rfl hlist
  rw [hfrom] at hfiles
  generalize (gftpGetDirListing (protocol fs num) T r' toreq other).toreq = toreq' at hfiles
  generalize (otherSide T other toreq).2.1 = dirhash at hfiles
  obtain ⟨d, hd, hmatches⟩ := listFiles_matches hlisted
  rw [hresolve] at hd
  refine ⟨d, hd, ?_⟩
  have hplace := filePath_entry hr' (hpath d hd)
  have hentry : ∀ {n : EntryName} {e : WalkFile}, LinkSystems.IsEntry fs num d n e →
      (listEntry r' toreq' dirhash e).file = entryPath (fs.path d) n.1 ∧
        Truthful fs num (entryPath (fs.path d) n.1) (listEntry r' toreq' dirhash e) := by
    rintro n e ⟨hname, st, hst, hmode, hdev, hino⟩
    obtain ⟨hfile, hmode', hdev', hino'⟩ := listEntry_data r' toreq' dirhash e
    refine ⟨?_, st, hst, hmode'.trans hmode, hdev'.trans hdev, hino'.trans hino⟩
    rw [hfile, hname, hplace]
  rw [hfiles, listFiles_request]
  constructor
  · intro g hg
    obtain ⟨e, he, rfl⟩ := List.mem_map.mp hg
    obtain ⟨he, hdots⟩ := List.mem_filter.mp he
    obtain ⟨n, hn, hne⟩ := hmatches.sound e he
    obtain ⟨hfile, htrue⟩ := hentry hne
    refine ⟨n, hn, ?_, hfile, ?_⟩
    · rw [notDots, decide_eq_true_eq, hne.1] at hdots
      exact hdots
    · rw [hfile]
      exact htrue
  · intro n hn hdots
    obtain ⟨e, he, hne⟩ := hmatches.complete n hn
    refine ⟨_, List.mem_map_of_mem (List.mem_filter.mpr ⟨he, ?_⟩), (hentry hne).1⟩
    rw [notDots, decide_eq_true_eq, hne.1]
    exact hdots

/-- A visit that lists a file lists the directory that its path leads to. -/
theorem visited_entries (hw : Usable num w.fromreq) {files : List WalkFile}
    (h : (visited (protocol fs num) T w f).visit = .listed files) :
    ∃ d, fs.resolve f.file = some d ∧ Entries fs num d files := by
  rcases visited_cases (F := protocol fs num) (T := T) (w := w) (f := f) with
    ⟨-, hv⟩ | ⟨-, _, r, f', w', hlink, rfl, ⟨-, hv⟩ | ⟨-, -, hv⟩ | ⟨-, -, hv⟩⟩
  · simp [hv] at h
  · simp [hv] at h
  · simp [hv] at h
  · obtain rfl := followLink_request hlink
    have hfile : f'.file = f.file := by rw [followLink_file hlink]
    rw [hv] at h
    obtain ⟨ret, r', _, hset, rfl, ⟨-, henter⟩ | ⟨hret, _, w₂, hother, ⟨-, henter⟩ |
      ⟨-, _, _, rfl, -, ⟨-, henter⟩ | ⟨hlist, henter⟩⟩⟩⟩ :=
        enterDirectory_cases (F := protocol fs num) (T := T)
          (w := { w with
            deviceHash := (lookupCurfleInDeviceHash f w.deviceHash).2, fromreq := w.fromreq })
          (f := f') rfl
    · simp [henter] at h
    · simp [henter] at h
    · simp [henter] at h
    · rw [henter] at h
      obtain rfl := Visit.listed.inj h
      have hsame : w₂.fromreq = r' :=
        (congrArg (·.2.fromreq) hother).symm.trans enterOther_fromreq
      rw [hsame] at hlist ⊢
      rw [← hfile]
      exact listed_entries hw hset hret hlist

theorem visited_directory (htrue : Truthful fs num f.file f) {d : D}
    (hd : fs.resolve f.file = some d)
    (hgo : result (visited (protocol fs num) T w f).visit = none)
    (hpassed : (visited (protocol fs num) T w f).visit ≠ .passedOver) :
    ∃ files, (visited (protocol fs num) T w f).visit = .listed files := by
  apply directory_listed hgo hpassed
  rcases visited_cases (F := protocol fs num) (T := T) (w := w) (f := f) with
    ⟨-, hv⟩ | ⟨-, _, _, f', w', hlink, -, ⟨-, hv⟩ | ⟨-, -, hv⟩ | ⟨-, -, hv⟩⟩
  · rw [hv] at hpassed
    exact absurd rfl hpassed
  all_goals
    rw [hv]
    exact followLink_directory htrue hd hlink

end Visits

/-- A file of the list: its path is followed, and its mode and numbers are those listed. -/
def Met (fs : LinkSystem D) (num : Protonum) (selection : List Bytes) (f : WalkFile) : Prop :=
  Followed fs num selection f.file ∧ Truthful fs num f.file f

theorem Entries.met {selection : List Bytes} {p : Bytes} {d : D} {files : List WalkFile}
    (h : Entries fs num d files) (hp : Followed fs num selection p) (hd : fs.resolve p = some d) :
    ∀ g ∈ files, Met fs num selection g := by
  intro g hg
  obtain ⟨n, hn, hdots, hfile, htrue⟩ := h.sound g hg
  refine ⟨?_, htrue⟩
  rw [hfile]
  exact .entry hp hd hn hdots

section Walks

variable {w w' : Walk Unit τ} {files pending : List WalkFile} {vs : List (Visited Unit τ)}
  {selection : List Bytes}

/-- The files that a walk visits are met by a request that can be used. -/
theorem explored_met (h : Explored (protocol fs num) T w files vs w' pending)
    (hw : Usable num w.fromreq) (hfiles : ∀ f ∈ files, Met fs num selection f) :
    ∀ v ∈ vs, Usable num v.before.fromreq ∧ Met fs num selection v.met := by
  apply h.invariant (fun w => Usable num w.fromreq) (Met fs num selection) hw hfiles
  intro w f hw hf
  refine ⟨visited_usable hw, ?_⟩
  intro g hg
  cases hv : (visited (protocol fs num) T w f).visit with
  | listed found =>
    obtain ⟨d, hd, hentries⟩ := visited_entries hw hv
    rw [hv] at hg
    exact hentries.met hf.1 hd g hg
  | _ =>
    rw [hv] at hg
    cases hg

end Walks

/-- What is deleted: entries of one directory that the window shows, without the directory
itself and its parent, on a request that is in this directory. -/
structure SelectedFrom (fs : LinkSystem D) (num : Protonum) (d : D) (t : WalkTransfer Unit τ) :
    Prop where
  toreq : t.toreq = none
  usable : Usable num t.fromreq
  directory : t.fromreq.directory = some (fs.path d)
  files : ∀ f ∈ t.files, ∃ n ∈ fs.names d, NoDots n ∧ LinkSystems.IsEntry fs num d n f

/-- The paths of the files selected. -/
def selectedPaths (fs : LinkSystem D) (d : D) (t : WalkTransfer Unit τ) : List Bytes :=
  t.files.map fun f => entryPath (fs.path d) f.file

/-- Whatever the removals return, each path that is handed to one is that of an entry selected
or reached below it through real directories. -/
def DeletesInside (fs : LinkSystem D) (selection : List Bytes) (r : Walked Unit τ) : Prop :=
  ∀ (ρ : Type) (P : RemoveProtocol ρ) (fuel : ℕ) (request request' : WalkRequest ρ)
    (head : ℕ) (ret : ℤ) (met : List ℕ), r.files = some head →
    gftpuiCommonRunDelete P r.nodes fuel request head = .ok (ret, request', met) →
    ∀ n ∈ met, Reached fs selection (r.nodes.data n).file

section Deletions

variable {d : D} {t : WalkTransfer Unit τ} {r : Walked Unit τ} {nodes : List ℕ}
  {w : Walk Unit τ} {fuel : ℕ}

theorem related_left {α β : Type} {R : α → β → Prop} {xs : List α} {ys : List β}
    (h : List.Forall₂ R xs ys) : ∀ x ∈ xs, ∃ y ∈ ys, R x y := by
  induction h with
  | nil => exact fun x hx => absurd hx List.not_mem_nil
  | cons hxy h ih =>
    intro x hx
    rcases List.mem_cons.mp hx with rfl | hx
    · exact ⟨_, List.mem_cons_self .., hxy⟩
    · obtain ⟨y, hy, hxy⟩ := ih x hx
      exact ⟨y, List.mem_cons_of_mem _ hy, hxy⟩

/-- Without another side the files selected are put in place by the request as it is. -/
theorem start_placed (h : SelectedFrom fs num d t)
    (hok : (setupCurrentDirectoryTransfer (protocol fs num) T t).ok = true) :
    (setupCurrentDirectoryTransfer (protocol fs num) T t).fromreq = t.fromreq ∧
      List.Forall₂ (PlacedBy (· = t.fromreq))
        (setupCurrentDirectoryTransfer (protocol fs num) T t).files t.files := by
  unfold setupCurrentDirectoryTransfer at hok ⊢
  simp only [h.toreq, otherSide] at hok ⊢
  rw [if_neg (by decide)] at hok ⊢
  have hkept : ∀ r p, r = t.fromreq → (gftpGetFileSize (protocol fs num) r p).2 = t.fromreq := by
    intro r p hr
    rw [getFileSize_request]
    exact hr
  exact setupLoop_placed (I := (· = t.fromreq)) hkept rfl (Prod.ext hok rfl)

theorem start_met (h : SelectedFrom fs num d t)
    (hok : (setupCurrentDirectoryTransfer (protocol fs num) T t).ok = true) :
    (∀ f ∈ (setupCurrentDirectoryTransfer (protocol fs num) T t).files,
        Met fs num (selectedPaths fs d t) f) ∧
      ∀ p ∈ selectedPaths fs d t,
        ∃ f ∈ (setupCurrentDirectoryTransfer (protocol fs num) T t).files, f.file = p := by
  obtain ⟨-, hplaced⟩ := start_placed h hok
  have hpath : ∀ new old, PlacedBy (· = t.fromreq) new old → old ∈ t.files →
      new.file = entryPath (fs.path d) old.file ∧ Truthful fs num new.file new := by
    rintro new old ⟨⟨r, rfl, hfile⟩, hmode, hdev, hino⟩ hold
    obtain ⟨n, -, -, hname, st, hst, hmode', hdev', hino'⟩ := h.files old hold
    have hnew : new.file = entryPath (fs.path d) n.1 := by
      rw [hfile, hname]
      exact filePath_entry h.usable h.directory n
    rw [hnew, hname]
    exact ⟨rfl, st, hst, hmode.trans hmode', hdev.trans hdev', hino.trans hino'⟩
  constructor
  · intro new hnew
    obtain ⟨old, hold, hplace⟩ := related_left hplaced new hnew
    obtain ⟨hfile, htrue⟩ := hpath new old hplace hold
    refine ⟨.selected ?_, htrue⟩
    rw [hfile]
    exact List.mem_map_of_mem hold
  · intro p hp
    obtain ⟨old, hold, rfl⟩ := List.mem_map.mp hp
    obtain ⟨new, hnew, hplace⟩ := related_left hplaced.flip old hold
    exact ⟨new, hnew, (hpath new old hplace hold).1⟩

theorem visits_met (h : SelectedFrom fs num d t) (hmade : Made (protocol fs num) T fuel t r nodes w) :
    ∀ v ∈ walkVisits (protocol fs num) T fuel t, Usable num v.before.fromreq ∧
      Met fs num (selectedPaths fs d t) v.met := by
  obtain ⟨hsame, -⟩ := start_placed h hmade.entered.ok
  obtain ⟨hfiles, -⟩ := start_met h hmade.entered.ok
  have husable : Usable num (startWalk t
      (setupCurrentDirectoryTransfer (protocol fs num) T t)).fromreq := by
    show Usable num (setupCurrentDirectoryTransfer (protocol fs num) T t).fromreq
    rw [hsame]
    exact h.usable
  exact explored_met hmade.explored husable hfiles

theorem node_paths (hmade : Made (protocol fs num) T fuel t r nodes w) :
    nodes.map (fun n => (r.nodes.data n).file) =
      (walkVisits (protocol fs num) T fuel t).map (·.met.file) := by
  have hdata := congrArg (List.map WalkFile.file) hmade.data
  rw [List.map_map, List.map_map] at hdata
  refine hdata.trans (List.map_congr_left fun v hv => ?_)
  show v.curfle.file = v.met.file
  rw [hmade.visited_eq hv, visited_kept]
  rfl

theorem followed_reached {selection : List Bytes} (h : LinksStayInside fs num selection)
    {p : Bytes} (hp : Followed fs num selection p) : Reached fs selection p := by
  induction hp with
  | selected hp => exact .selected hp
  | @entry p d n hp hd hn hdots ih =>
    obtain ⟨st, hst, hdir⟩ := fs.stat_directory p d hd
    obtain ⟨lst, hlst⟩ := Option.isSome_iff_exists.mp (fs.lstat_of_stat p st hst)
    cases hlink : sIslnk lst.stMode with
    | true => exact h p lst d hp hlst hlink hd n hn hdots
    | false =>
      obtain rfl := Option.some.inj ((fs.stat_real p lst hlst hlink).symm.trans hst)
      exact .entry ih hlst hdir hd (shown_names hn) hdots

theorem inside_of_links (h : SelectedFrom fs num d t)
    (hmade : Made (protocol fs num) T fuel t r nodes w)
    (hlinks : LinksStayInside fs num (selectedPaths fs d t)) :
    DeletesInside fs (selectedPaths fs d t) r := by
  intro ρ P fuel' request request' head ret met hhead hrun n hn
  have hstart : head ∈ nodes := by
    rw [hmade.head] at hhead
    exact List.mem_of_mem_head? hhead
  have hnode := runDelete_mem hmade.linked hstart hrun n hn
  have hpath : (r.nodes.data n).file ∈ nodes.map (fun n => (r.nodes.data n).file) :=
    List.mem_map_of_mem hnode
  rw [node_paths hmade] at hpath
  obtain ⟨v, hv, hfile⟩ := List.mem_map.mp hpath
  rw [← hfile]
  exact followed_reached hlinks (visits_met h hmade v hv).2.1

/-- A deletion on a connection that is kept goes through the whole list. -/
theorem visits_reached {selection : List Bytes}
    (hmade : Made (protocol fs num) T fuel t r nodes w)
    (hinside : DeletesInside fs selection r) :
    ∀ v ∈ walkVisits (protocol fs num) T fuel t, Reached fs selection v.met.file := by
  obtain ⟨head, rest, rfl⟩ := List.exists_cons_of_ne_nil hmade.nodes_ne_nil
  let open₁ : WalkRequest Unit := ⟨⟨1, false, false⟩, none, false, ()⟩
  let remover : RemoveProtocol Unit := ⟨fun _ _ => (0, open₁), fun _ _ => (0, open₁)⟩
  obtain ⟨ret, request', met, hrun, -, hall⟩ := delete_met (P := remover) hmade.linked
    (Nat.lt_succ_self _) open₁
  have hkept : request' = open₁ :=
    runDelete_request (I := (· = open₁)) (fun _ _ => rfl) (fun _ _ => rfl) rfl hrun
  have hmet : met = (head :: rest).reverse := by
    apply hall
    rw [hkept]
    rfl
  have hreached := hinside Unit remover _ open₁ request' head ret met hmade.head hrun
  intro v hv
  have hpath : v.met.file ∈ (head :: rest).map (fun n => (r.nodes.data n).file) := by
    rw [node_paths hmade]
    exact List.mem_map_of_mem hv
  obtain ⟨n, hn, hfile⟩ := List.mem_map.mp hpath
  rw [← hfile]
  apply hreached
  rw [hmet]
  exact List.mem_reverse.mpr hn

theorem directory_entered (h : SelectedFrom fs num d t)
    (hmade : Made (protocol fs num) T fuel t r nodes w) (hnumbers : NumbersApart fs num) {d' : D} :
    ∀ v ∈ walkVisits (protocol fs num) T fuel t, fs.resolve v.met.file = some d' →
      ∃ u ∈ walkVisits (protocol fs num) T fuel t, fs.resolve u.met.file = some d' ∧
        u.visit ≠ .passedOver := by
  have hmet := visits_met h hmade
  have hfront : ∀ (n : ℕ) (front : List (Visited Unit τ)) (v : Visited Unit τ)
      (behind : List (Visited Unit τ)), front.length = n →
      walkVisits (protocol fs num) T fuel t = front ++ v :: behind →
      fs.resolve v.met.file = some d' →
      ∃ u ∈ walkVisits (protocol fs num) T fuel t, fs.resolve u.met.file = some d' ∧
        u.visit ≠ .passedOver := by
    intro n
    induction n using Nat.strong_induction_on with
    | _ n ih =>
      intro front v behind hlen hsplit hd
      have hv : v ∈ walkVisits (protocol fs num) T fuel t := by
        rw [hsplit]
        exact List.mem_append_right _ (List.mem_cons_self ..)
      by_cases hpassed : v.visit = .passedOver
      · obtain ⟨hnumbered, u, hu, -, hkeys⟩ :=
          (passedOver_iff hmade.explored rfl hsplit).mp hpassed
        obtain ⟨front', between, rfl⟩ := List.append_of_mem hu
        have hsplit' : walkVisits (protocol fs num) T fuel t =
            front' ++ u :: (between ++ v :: behind) := by
          rw [hsplit]
          simp
        have hu : u ∈ walkVisits (protocol fs num) T fuel t := by
          rw [hsplit']
          exact List.mem_append_right _ (List.mem_cons_self ..)
        obtain ⟨st, hst, -, hdev, hino⟩ := (hmet v hv).2.2
        obtain ⟨st', hst', -, hdev', hino'⟩ := (hmet u hu).2.2
        have hresolve : fs.resolve u.met.file = some d' := by
          apply hnumbers v.met.file u.met.file st st' d' hst hst' _ _ _ _ hd
          · exact hdev ▸ hnumbered.1
          · exact hino ▸ hnumbered.2
          · rw [← hdev, ← hdev']
            exact hkeys.1
          · rw [← hino, ← hino']
            exact hkeys.2
        refine ih front'.length ?_ front' u _ rfl hsplit' hresolve
        rw [← hlen, List.length_append, List.length_cons]
        omega
      · exact ⟨v, hv, hd, hpassed⟩
  intro v hv hd
  obtain ⟨front, behind, hsplit⟩ := List.append_of_mem hv
  exact hfront front.length front v behind rfl hsplit hd

/-- The walk meets everything that is followed. -/
theorem followed_met (h : SelectedFrom fs num d t)
    (hmade : Made (protocol fs num) T fuel t r nodes w) (hnumbers : NumbersApart fs num)
    {p : Bytes} (hp : Followed fs num (selectedPaths fs d t) p) :
    ∃ v ∈ walkVisits (protocol fs num) T fuel t, v.met.file = p := by
  have hqueue := hmade.explored.queue
  rw [List.append_nil] at hqueue
  have hlist : ∀ f, f ∈ (setupCurrentDirectoryTransfer (protocol fs num) T t).files ++
      (walkVisits (protocol fs num) T fuel t).flatMap (·.visit.files) →
      ∃ v ∈ walkVisits (protocol fs num) T fuel t, v.met = f := by
    intro f hf
    rw [hqueue] at hf
    exact List.mem_map.mp hf
  induction hp with
  | selected hp =>
    obtain ⟨f, hf, rfl⟩ := (start_met h hmade.entered.ok).2 _ hp
    obtain ⟨v, hv, rfl⟩ := hlist f (List.mem_append_left _ hf)
    exact ⟨v, hv, rfl⟩
  | @entry p d' n hp hd hn hdots ih =>
    obtain ⟨v, hv, rfl⟩ := ih
    obtain ⟨u, hu, hdu, hpassed⟩ := directory_entered h hmade hnumbers v hv hd
    have hgo := hmade.goes u hu
    obtain ⟨husable, -, htrue⟩ := visits_met h hmade u hu
    have heq := hmade.visited_eq hu
    rw [heq] at hgo hpassed
    obtain ⟨files, hfiles⟩ := visited_directory htrue hdu hgo hpassed
    obtain ⟨d'', hd'', hentries⟩ := visited_entries husable hfiles
    obtain rfl := Option.some.inj (hdu.symm.trans hd'')
    obtain ⟨g, hg, hfile⟩ := hentries.complete n hn hdots
    rw [← heq] at hfiles
    have hfound : g ∈ (walkVisits (protocol fs num) T fuel t).flatMap (·.visit.files) := by
      refine List.mem_flatMap.mpr ⟨u, hu, ?_⟩
      rw [hfiles]
      exact hg
    obtain ⟨x, hx, rfl⟩ := hlist g (List.mem_append_right _ hfound)
    exact ⟨x, hx, hfile⟩

/-- A deletion behind a walk that returned 0 stays inside the selection when every link that is
followed leads to a directory inside it, and only then unless the numbers of another file are
taken for those of a directory. -/
theorem deletion_inside_iff (fs : LinkSystem D) (num : Protonum) (T : WalkProtocol τ)
    (update : Bool) (fuel : ℕ) (d : D) (t : WalkTransfer Unit τ) (r : Walked Unit τ)
    (hselected : SelectedFrom fs num d t)
    (h : gftpGetAllSubdirs (protocol fs num) T update fuel t = .ok r) (hret : r.ret = 0) :
    (LinksStayInside fs num (selectedPaths fs d t) →
      DeletesInside fs (selectedPaths fs d t) r) ∧
    (NumbersApart fs num → DeletesInside fs (selectedPaths fs d t) r →
      LinksStayInside fs num (selectedPaths fs d t)) := by
  obtain ⟨nodes, w, hmade⟩ := walk_made h hret
  constructor
  · exact inside_of_links hselected hmade
  · intro hnumbers hinside l st d' hl hlst hlink hd n hn hdots
    obtain ⟨v, hv, hfile⟩ := followed_met hselected hmade hnumbers (.entry hl hd hn hdots)
    rw [← hfile]
    exact visits_reached hmade hinside v hv

/-- The directories of a tree in which /d holds a link to /o, and /o a file. -/
inductive Folder
  | root
  | holder
  | target

inductive Item
  | folder (d : Folder)
  | link
  | file

def Folder.path : Folder → Bytes
  | .root => ascii "/"
  | .holder => ascii "/d"
  | .target => ascii "/o"

def Folder.stat : Folder → Stat
  | .root => ⟨1, 1, 0o040755, 64, 0⟩
  | .holder => ⟨1, 2, 0o040755, 64, 0⟩
  | .target => ⟨1, 3, 0o040755, 64, 0⟩

def itemAt (p : Bytes) : Option Item :=
  if p = ascii "/" then some (.folder .root)
  else if p = ascii "/d" then some (.folder .holder)
  else if p = ascii "/o" then some (.folder .target)
  else if p = ascii "/d/l" then some .link
  else if p = ascii "/o/f" then some .file
  else none

def Item.lstat : Item → Stat
  | .folder d => d.stat
  | .link => ⟨1, 4, 0o120777, 2, 0⟩
  | .file => ⟨1, 5, 0o100644, 9, 0⟩

def Item.directory : Item → Option Folder
  | .folder d => some d
  | .link => some .target
  | .file => none

def Item.stat (i : Item) : Stat :=
  match i.directory with
  | some d => d.stat
  | none => i.lstat

def linkedTree : LinkSystem Folder where
  names
    | .root => [⟨ascii "d", by decide⟩, ⟨ascii "o", by decide⟩]
    | .holder => [⟨ascii "l", by decide⟩]
    | .target => [⟨ascii "f", by decide⟩]
  readable _ := true
  lstat p := (itemAt p).map Item.lstat
  stat p := (itemAt p).map Item.stat
  resolve p := (itemAt p).bind Item.directory
  realpath p := ((itemAt p).bind Item.directory).map Folder.path
  path := Folder.path
  path_rooted d := by cases d <;> rfl
  resolve_path d := by cases d <;> rfl
  realpath_directory p d h := by rw [h]; rfl
  realpath_other p q h h' := by
    rw [h] at h'
    cases h'
  stat_directory p d h := by
    obtain ⟨i, hi, hd⟩ := Option.bind_eq_some_iff.mp h
    refine ⟨d.stat, ?_, by cases d <;> rfl⟩
    rw [hi, Option.map_some, Item.stat, hd]
  lstat_of_stat p st h := by
    obtain ⟨i, hi, -⟩ := Option.map_eq_some_iff.mp h
    rw [hi]
    rfl
  stat_real p st h hreal := by
    obtain ⟨i, hi, rfl⟩ := Option.map_eq_some_iff.mp h
    rw [hi]
    cases i with
    | link => cases hreal
    | folder d => rfl
    | file => rfl

/-- One directory of the root is selected. -/
def rootTransfer (name : Bytes) (ino : ℕ) : WalkTransfer Unit Unit where
  fromreq := ⟨⟨-1, false, true⟩, some (ascii "/"), false, ()⟩
  toreq := none
  files := [⟨name, none, 64, 0, 0o040755, 1, ino, false⟩]
  numfiles := 0
  numdirs := 0

theorem holder_selected :
    SelectedFrom linkedTree .gftpLocalNum .root (rootTransfer (ascii "d") 2) := by
  refine ⟨rfl, ⟨show _ = true from rfl, rfl⟩, rfl, fun f hf => ?_⟩
  obtain rfl := List.mem_singleton.mp hf
  exact ⟨⟨ascii "d", by decide⟩, List.mem_cons_self .., ⟨by decide, by decide⟩, rfl,
    Folder.stat .holder, rfl, rfl, rfl, rfl⟩

theorem target_selected :
    SelectedFrom linkedTree .gftpLocalNum .root (rootTransfer (ascii "o") 3) := by
  refine ⟨rfl, ⟨show _ = true from rfl, rfl⟩, rfl, fun f hf => ?_⟩
  obtain rfl := List.mem_singleton.mp hf
  exact ⟨⟨ascii "o", by decide⟩, List.mem_cons_of_mem _ (List.mem_cons_self ..),
    ⟨by decide, by decide⟩, rfl, Folder.stat .target, rfl, rfl, rfl, rfl⟩

/-- A directory without links is deleted with what it holds, and nothing else is. -/
theorem plain_directory_deleted : ∃ r,
    gftpGetAllSubdirs (protocol linkedTree .gftpLocalNum) (protocol linkedTree .gftpLocalNum) false 4
        (rootTransfer (ascii "o") 3) = .ok r ∧
      DeletesInside linkedTree [ascii "/o"] r := by
  obtain ⟨r, hr, hret⟩ : ∃ r, gftpGetAllSubdirs (protocol linkedTree .gftpLocalNum)
      (protocol linkedTree .gftpLocalNum) false 4 (rootTransfer (ascii "o") 3) = .ok r ∧
      r.ret = 0 := ⟨_, rfl, rfl⟩
  refine ⟨r, hr, ?_⟩
  apply (deletion_inside_iff linkedTree .gftpLocalNum (protocol linkedTree .gftpLocalNum) false 4
    .root (rootTransfer (ascii "o") 3) r target_selected hr hret).1
  have hfollowed : ∀ p, Followed linkedTree .gftpLocalNum [ascii "/o"] p →
      p = ascii "/o" ∨ p = ascii "/o/f" := by
    intro p hp
    induction hp with
    | selected hp => exact Or.inl (List.mem_singleton.mp hp)
    | @entry p d n hp hd hn hdots ih =>
      rcases ih with rfl | rfl
      · obtain rfl : Folder.target = d := Option.some.inj hd
        obtain rfl := List.mem_singleton.mp (shown_names hn)
        exact Or.inr rfl
      · cases hd
  intro l st d hl hlst hlink
  rcases hfollowed l hl with rfl | rfl
  · obtain rfl : Folder.stat .target = st := Option.some.inj hlst
    exact absurd hlink (by decide)
  · obtain rfl : Item.lstat .file = st := Option.some.inj hlst
    exact absurd hlink (by decide)

/-- A link to a directory is selected with the directory that holds it. The file of the directory
it leads to is removed. -/
theorem link_target_deleted :
    SelectedFrom linkedTree .gftpLocalNum .root (rootTransfer (ascii "d") 2) ∧
      ∃ r, gftpGetAllSubdirs (protocol linkedTree .gftpLocalNum)
          (protocol linkedTree .gftpLocalNum) false 4 (rootTransfer (ascii "d") 2) = .ok r ∧
        r.ret = 0 ∧
        ¬ DeletesInside linkedTree
            (selectedPaths linkedTree .root (rootTransfer (ascii "d") 2)) r := by
  refine ⟨holder_selected, _, rfl, rfl, fun hinside => ?_⟩
  have hreached : ∀ p, Reached linkedTree [ascii "/d"] p → p = ascii "/d" ∨ p = ascii "/d/l" := by
    intro p hp
    induction hp with
    | selected hp => exact Or.inl (List.mem_singleton.mp hp)
    | @entry p st d n hp hreal hdir hd hn hdots ih =>
      rcases ih with rfl | rfl
      · obtain rfl : Folder.holder = d := Option.some.inj hd
        obtain rfl := List.mem_singleton.mp hn
        exact Or.inr rfl
      · obtain rfl : Item.lstat .link = st := Option.some.inj hreal
        exact absurd hdir (by decide)
  let request : WalkRequest Unit := (rootTransfer [] 0).fromreq
  have hfile : Reached linkedTree [ascii "/d"] (ascii "/o/f") :=
    hinside Unit ⟨fun r _ => (0, r), fun r _ => (0, r)⟩ 4 request request 0 0 [2, 1, 0] rfl rfl 2
      (List.mem_cons_self ..)
  exact absurd (hreached (ascii "/o/f") hfile) (by decide)

end Deletions

end Gftp.DeletionScope
