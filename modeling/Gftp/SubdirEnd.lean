import Gftp.DeviceHashes
import Gftp.Worklists
import Mathlib.Data.Fintype.Card
import Mathlib.Data.Set.Card

/-!
The end of the walk on a file system. A file whose numbers are looked up uses up a key of the
device hash, of which there are finitely many; nothing stops the walk from entering a
directory again whose entry has no numbers. So it ends in every case only when no directory
without numbers, or link to one, leads back to a directory above it.
-/

namespace Gftp.SubdirEnd

open ByteStrings DeviceHashes DirectoryReads LinkedLists Protocol Subdirs SubdirWalk Worklists

variable {σ τ D : Type}

/-- An entry of a directory; target is the directory that it is, or that it leads to. -/
structure DirEntry (D : Type) where
  name : Bytes
  stMode : ℕ
  stDev : ℕ
  stIno : ℕ
  target : Option D

/-- The path of an entry. -/
def entryPath (directory name : Bytes) : Bytes :=
  filePath (⟨⟨-1, false, false⟩, some directory, false, ()⟩ : WalkRequest Unit) name

/-- The directories of a file system. resolve follows links; path is one of the paths that lead
to a directory. -/
structure FileSystem (D : Type) where
  entries : D → List (DirEntry D)
  resolve : Bytes → Option D
  path : D → Bytes
  resolve_path : ∀ d, resolve (path d) = some d
  resolve_entry : ∀ directory d, resolve directory = some d → ∀ e ∈ entries d,
    resolve (entryPath directory e.name) = e.target
  directory_target : ∀ d, ∀ e ∈ entries d, sIsdir e.stMode = true → e.target ≠ none

/-- An entry as a listing returns it. -/
structure IsEntry (e : DirEntry D) (g : WalkFile) : Prop where
  name : g.file = e.name
  mode : g.stMode = e.stMode
  dev : g.stDev = e.stDev
  ino : g.stIno = e.stIno

/-- The calls of a protocol, when they succeed, show this file system: behind a change to a path
the entries of its directory are listed, under paths that lead to what they are; and the mode
of a path is that of a directory only when it leads to one. -/
structure Serves (F : WalkProtocol σ) (fs : FileSystem D) : Prop where
  listing : ∀ r p ret r', gftpSetDirectory F r (some p) = (ret, r') → 0 ≤ ret →
    ∀ g, NextFile.entry g ∈ (F.listFiles r').1.files → ∃ d, fs.resolve p = some d ∧
      ∃ e ∈ fs.entries d, IsEntry e g ∧
        fs.resolve (filePath (F.listFiles r').2 g.file) = e.target
  stat : ∀ r p, (gftpStatFilename F r p).1.ret = 0 →
    sIsdir (gftpStatFilename F r p).1.stMode = true → fs.resolve p ≠ none

/-- The walk returns, whatever is selected and whichever calls fail. -/
def WalkReturns (fs : FileSystem D) : Prop :=
  ∀ (σ τ : Type) (F : WalkProtocol σ) (T : WalkProtocol τ) (update : Bool) (t : WalkTransfer σ τ),
    Serves F fs → ∃ fuel r, gftpGetAllSubdirs F T update fuel t = .ok r

/-- An entry of d without numbers is the directory d', or a link to it. -/
def Below (fs : FileSystem D) (d d' : D) : Prop :=
  ∃ e ∈ fs.entries d, e.name ≠ dot ∧ e.name ≠ dotdot ∧ (e.stDev = 0 ∨ e.stIno = 0) ∧
    (sIsdir e.stMode = true ∨ sIslnk e.stMode = true) ∧ e.target = some d'

/-- No chain of such entries leads from a directory back to it. -/
def NoUnnumberedCycle (fs : FileSystem D) : Prop := ∀ d, ¬Relation.TransGen (Below fs) d d

section Passes

variable {F : WalkProtocol σ} {T : WalkProtocol τ}

variable (F T) in
/-- A pass of the loop, as one over a list of work. -/
def visitStep (w : Walk σ τ) (f : WalkFile) : Option (Walk σ τ × List WalkFile) :=
  match result (visited F T w f).visit with
  | some _ => none
  | none => some ((visited F T w f).after, (visited F T w f).visit.files)

theorem visitStep_none {w : Walk σ τ} {f : WalkFile} :
    visitStep F T w f = none ↔ ∃ ret, result (visited F T w f).visit = some ret := by
  unfold visitStep
  cases result (visited F T w f).visit <;> simp

theorem visitStep_some {w w' : Walk σ τ} {f : WalkFile} {new : List WalkFile} :
    visitStep F T w f = some (w', new) ↔ result (visited F T w f).visit = none ∧
      (visited F T w f).after = w' ∧ (visited F T w f).visit.files = new := by
  unfold visitStep
  cases result (visited F T w f).visit <;> simp

/-- The loop over the list in memory ends when the loop over its files does. -/
theorem loop_returns_iff {s : LoopState σ τ} {front rest : List ℕ} (h : Holds s front rest) :
    (∃ fuel e, subdirsLoop F T fuel s = .ok e) ↔
      Ends (visitStep F T) s.walk (rest.map s.nodes.data) := by
  constructor
  · rintro ⟨fuel, e, he⟩
    induction fuel generalizing s front rest with
    | zero => simp [subdirsLoop] at he
    | succ fuel ih =>
      cases rest with
      | nil => exact .done _
      | cons n rest =>
        rw [List.map_cons]
        obtain ⟨v, hv⟩ : ∃ v, v = visited F T s.walk (s.nodes.data n) := ⟨_, rfl⟩
        cases hret : result v.visit with
        | some ret => exact .stop _ (visitStep_none.mpr ⟨ret, hv ▸ hret⟩)
        | none =>
          obtain ⟨-, hloop⟩ := loop_passes fuel h.templist hv hret
          rw [hloop] at he
          have hends := ih (h.behind v) he
          rw [h.data_rest, behind_walk] at hends
          exact .pass (visitStep_some.mpr ⟨hv ▸ hret, hv ▸ rfl, hv ▸ rfl⟩) hends
  · intro hends
    generalize hw : s.walk = w at hends
    generalize hfiles : rest.map s.nodes.data = files at hends
    induction hends generalizing s front rest with
    | done w =>
      obtain rfl := List.map_eq_nil_iff.mp hfiles
      exact ⟨1, _, (loop_ends 0 h.templist).2⟩
    | stop files hstop =>
      obtain ⟨n, rest, rfl, rfl, rfl⟩ := List.map_eq_cons_iff.mp hfiles
      obtain ⟨ret, hret⟩ := visitStep_none.mp hstop
      subst hw
      exact ⟨1, _, (loop_leaves 0 h.templist rfl hret).2.1⟩
    | pass hstep hends ih =>
      obtain ⟨n, rest, rfl, rfl, rfl⟩ := List.map_eq_cons_iff.mp hfiles
      obtain ⟨hret, hafter, hnew⟩ := visitStep_some.mp hstep
      subst hw
      have hbehind := h.behind (visited F T s.walk (s.nodes.data n))
      obtain ⟨fuel, e, he⟩ := ih hbehind (behind_walk.trans hafter) (by rw [h.data_rest, hnew])
      exact ⟨fuel + 1, e, (loop_passes fuel h.templist rfl hret).2.trans he⟩

theorem walk_returns {update : Bool} {t : WalkTransfer σ τ}
    (h : Entered F T t → Ends (visitStep F T) (startWalk t (setupCurrentDirectoryTransfer F T t))
      (setupCurrentDirectoryTransfer F T t).files) :
    ∃ fuel r, gftpGetAllSubdirs F T update fuel t = .ok r := by
  by_cases hfiles : t.files = []
  · exact ⟨0, _, if_pos hfiles⟩
  · by_cases hok : (setupCurrentDirectoryTransfer F T t).ok = true
    · have hentered : Entered F T t := ⟨hfiles, hok⟩
      have hends := h hentered
      rw [← start_data (t := t)] at hends
      obtain ⟨fuel, e, he⟩ := (loop_returns_iff (start_holds hentered.files)).mpr hends
      refine ⟨fuel, leaveWalk F T update e.1 e.2, ?_⟩
      simp only [gftpGetAllSubdirs, if_neg hfiles, if_pos hok, he]
      rfl
    · exact ⟨0, _, by simp only [gftpGetAllSubdirs, if_neg hfiles, if_neg hok]; rfl⟩

theorem ends_of_returned {update : Bool} {fuel : ℕ} {t : WalkTransfer σ τ} {r : Walked σ τ}
    (hentered : Entered F T t) (h : gftpGetAllSubdirs F T update fuel t = .ok r) :
    Ends (visitStep F T) (startWalk t (setupCurrentDirectoryTransfer F T t))
      (setupCurrentDirectoryTransfer F T t).files := by
  obtain ⟨hnot, -⟩ | ⟨-, left, e, hloop, -⟩ := returned_cases h
  · exact absurd hentered hnot
  · have hends := (loop_returns_iff (start_holds (t := t) hentered.files)).mp ⟨fuel, _, hloop⟩
    rwa [start_data] at hends

end Passes

section Keys

variable {F : WalkProtocol σ} {T : WalkProtocol τ} {w : Walk σ τ} {f : WalkFile}

/-- The keys that the hash does not have. -/
def freeKeys (h : DeviceHash) : Set (ℕ × ℕ) :=
  { k | k.1 < 2 ^ 32 ∧ k.2 < 2 ^ 32 ∧ ¬Recorded h k.1 k.2 }

theorem freeKeys_finite (h : DeviceHash) : (freeKeys h).Finite := by
  refine ((Set.finite_Iio (2 ^ 32)).prod (Set.finite_Iio (2 ^ 32))).subset ?_
  rintro k ⟨hdev, hino, -⟩
  exact ⟨hdev, hino⟩

theorem guint_lt (n : ℕ) : guint n < 2 ^ 32 := Nat.mod_lt n (by norm_num)

theorem freeKeys_new {h : DeviceHash} (hf : Numbered f)
    (hnew : ¬Recorded h (guint f.stDev) (guint f.stIno)) :
    (freeKeys (lookupCurfleInDeviceHash f h).2).ncard < (freeKeys h).ncard := by
  have hrec := (lookup_new hf hnew).2
  refine Set.ncard_lt_ncard ⟨?_, fun hsub => ?_⟩ (freeKeys_finite h)
  · rintro k ⟨hdev, hino, hfree⟩
    exact ⟨hdev, hino, fun hk => hfree ((hrec k.1 k.2).mpr (.inl hk))⟩
  · obtain ⟨-, -, hfree⟩ := @hsub (guint f.stDev, guint f.stIno) ⟨guint_lt _, guint_lt _, hnew⟩
    exact hfree ((hrec _ _).mpr (.inr ⟨rfl, rfl⟩))

/-- A visit uses up a key, or it is that of a file without numbers, or finds nothing. -/
theorem visited_keys :
    (freeKeys (visited F T w f).after.deviceHash).ncard < (freeKeys w.deviceHash).ncard ∨
      (visited F T w f).after.deviceHash = w.deviceHash ∧
        (¬Numbered f ∨ (visited F T w f).visit.files = []) := by
  rw [visited_hash]
  by_cases hf : Numbered f
  · by_cases hrec : Recorded w.deviceHash (guint f.stDev) (guint f.stIno)
    · have hfound := lookup_recorded hf hrec
      have hover : (visited F T w f).visit = .passedOver :=
        visited_passedOver.mpr (congrArg Prod.fst hfound)
      refine .inr ⟨congrArg Prod.snd hfound, .inr ?_⟩
      rw [hover]
      rfl
    · exact .inl (freeKeys_new hf hrec)
  · exact .inr ⟨congrArg Prod.snd (lookup_unnumbered hf), .inl hf⟩

end Keys

section Termination

variable {F : WalkProtocol σ} {T : WalkProtocol τ} {fs : FileSystem D} {w : Walk σ τ}
  {f g : WalkFile}

open Classical in
/-- The directory that a file without numbers leads to. -/
noncomputable def leadsTo (fs : FileSystem D) (f : WalkFile) : Option D :=
  if ¬Numbered f ∧ (sIsdir f.stMode = true ∨ sIslnk f.stMode = true) then fs.resolve f.file
  else none

/-- g leads to no directory, or to one below that of f. -/
def Lower (fs : FileSystem D) (g f : WalkFile) : Prop :=
  ∃ d, leadsTo fs f = some d ∧ ∀ d', leadsTo fs g = some d' → Below fs d d'

theorem leadsTo_some {d : D} : leadsTo fs f = some d ↔
    ¬Numbered f ∧ (sIsdir f.stMode = true ∨ sIslnk f.stMode = true) ∧
      fs.resolve f.file = some d := by
  unfold leadsTo
  split <;> simp_all

theorem lower_wellFounded [Fintype D] (h : NoUnnumberedCycle fs) : WellFounded (Lower fs) := by
  have hbelow : WellFounded fun d' d => Relation.TransGen (Below fs) d d' := by
    have : IsTrans D fun d' d => Relation.TransGen (Below fs) d d' := ⟨fun _ _ _ h h' => h'.trans h⟩
    have : Std.Irrefl fun d' d => Relation.TransGen (Below fs) d d' := ⟨h⟩
    exact Finite.wellFounded_of_trans_of_irrefl _
  have hacc : ∀ d f, leadsTo fs f = some d → Acc (Lower fs) f := by
    intro d
    induction d using hbelow.induction with
    | _ d ih =>
      intro f hf
      refine .intro f fun g hg => ?_
      obtain ⟨d₁, hd₁, hlower⟩ := hg
      obtain rfl := Option.some.inj (hf.symm.trans hd₁)
      cases hgd : leadsTo fs g with
      | none =>
        refine .intro g fun g' hg' => ?_
        obtain ⟨d₂, hd₂, -⟩ := hg'
        rw [hgd] at hd₂
        cases hd₂
      | some d' => exact ih d' (.single (hlower d' hgd)) g hgd
  refine ⟨fun f => .intro f fun g hg => ?_⟩
  obtain ⟨d, hd, hlower⟩ := hg
  exact (hacc d f hd).inv ⟨d, hd, hlower⟩

/-- A file that is listed as a directory was one when it was met, or a link to one. -/
theorem listed_mode {files : List WalkFile} (h : (visited F T w f).visit = .listed files) :
    sIsdir f.stMode = true ∨ sIslnk f.stMode = true := by
  have hdir := (visited_listed rfl h).1
  rcases visited_cases (F := F) (T := T) (w := w) (f := f) with
    ⟨-, hv⟩ | ⟨-, _, _, f', w', hlink, -, ⟨-, hv⟩ | ⟨-, -, hv⟩ | ⟨-, -, hv⟩⟩
  · simp [hv] at h
  · simp [hv] at h
  · simp [hv] at h
  · rw [hv] at hdir
    by_contra hnot
    rw [not_or, Bool.not_eq_true, Bool.not_eq_true] at hnot
    have hsame : f' = f := by
      simp only [followLink, hnot.2, Bool.false_and, Bool.false_eq_true, if_false,
        Prod.mk.injEq] at hlink
      exact hlink.2.2.symm
    rw [hsame, hnot.1] at hdir
    cases hdir

/-- What is found in the directory of a file without numbers is lower. -/
theorem visited_lower (hserves : Serves F fs) (hf : ¬Numbered f) :
    ∀ g ∈ (visited F T w f).visit.files, Lower fs g f := by
  intro g hg
  cases hv : (visited F T w f).visit with
  | listed files =>
    obtain ⟨-, r, ret, toreq, hset, hret, -, reading, hreading, hlist, hfiles, -⟩ :=
      visited_listed rfl hv
    obtain ⟨-, hfrom, -, heq⟩ := dirListing_read hreading hlist
    rw [hfrom] at heq
    generalize (otherSide T (visited F T w f).curfle.existsOtherSide toreq).2.1 = dirhash at heq
    rw [hv, Visit.files, hfiles, heq] at hg
    obtain ⟨g₀, hg₀, rfl⟩ := List.mem_map.mp hg
    obtain ⟨hread, hdots⟩ := List.mem_filter.mp hg₀
    obtain ⟨d, hd, e, he, hentry, hpath⟩ :=
      hserves.listing r f.file ret _ hset hret g₀ (mem_readEntries hread)
    refine ⟨d, leadsTo_some.mpr ⟨hf, listed_mode hv, hd⟩, fun d' hd' => ?_⟩
    obtain ⟨hnumbers, hmode, hresolve⟩ := leadsTo_some.mp hd'
    have hdata := listEntry_data (F.listFiles (enteredRequest F (visited F T w f))).2 reading.toreq dirhash g₀
    rw [hdata.1, hpath] at hresolve
    rw [hdata.2.1, hentry.mode] at hmode
    rw [Numbered, hdata.2.2.1, hdata.2.2.2, hentry.dev, hentry.ino, not_and_or, not_not,
      not_not] at hnumbers
    simp only [notDots, hentry.name, decide_eq_true_eq] at hdots
    exact ⟨e, he, hdots.1, hdots.2, hnumbers, hmode, hresolve⟩
  | _ => simp [hv, Visit.files] at hg

theorem ends_of_noCycle [Fintype D] (hserves : Serves F fs) (h : NoUnnumberedCycle fs)
    (files : List WalkFile) : Ends (visitStep F T) w files := by
  apply ends_of_decreasing (lower_wellFounded h) fun w => (freeKeys w.deviceHash).ncard
  intro w f w' new hstep
  obtain ⟨-, rfl, rfl⟩ := visitStep_some.mp hstep
  rcases visited_keys (F := F) (T := T) (w := w) (f := f) with hless | ⟨hsame, hf | hnone⟩
  · exact .inl hless
  · exact .inr ⟨by rw [hsame], visited_lower hserves hf⟩
  · exact .inr ⟨by rw [hsame], by simp [hnone]⟩

end Termination

section Server

variable {fs : FileSystem D}

/-- An entry as the server lists it. -/
def DirEntry.listed (e : DirEntry D) : WalkFile where
  file := e.name
  destfile := none
  size := 0
  startsize := 0
  stMode := e.stMode
  stDev := e.stDev
  stIno := e.stIno
  existsOtherSide := false

/-- A server of a file system on which no call fails that can succeed; a change of directory
leaves the path that the server has for it. -/
def serve (fs : FileSystem D) : WalkProtocol Unit where
  listFiles r :=
    if r.datafd ≤ 0 then (⟨GftpError.fatal.code, []⟩, r)
    else
      match r.directory.bind fs.resolve with
      | none => (⟨GftpError.retryable.code, []⟩, r)
      | some d => (⟨0, (fs.entries d).map fun e => .entry e.listed⟩, r)
  getFileSize := none
  statFilename := some fun r file =>
    (⟨0, if (fs.resolve file).isSome then 0o040755 else 0o100644, 0⟩, r)
  chdir := some fun r directory =>
    match fs.resolve directory with
    | none => (GftpError.retryable.code, r)
    | some d => (0, { r with directory := some (fs.path d), vms := false })

theorem filePath_eq {r : WalkRequest σ} {directory : Bytes} (hdir : r.directory = some directory)
    (hvms : r.vms = false) (name : Bytes) : filePath r name = entryPath directory name := by
  unfold entryPath filePath
  rw [hdir, hvms]

theorem serve_setDirectory {r : WalkRequest Unit} {p : Bytes} {d : D} (hr : 0 < r.datafd)
    (hd : fs.resolve p = some d) : gftpSetDirectory (serve fs) r (some p) =
      (0, { r with directory := some (fs.path d), vms := false }) := by
  simp [gftpSetDirectory, serve, hd, Int.not_le.mpr hr]

variable (fs) in
theorem serve_listFiles {r : WalkRequest Unit} {d : D} (hr : 0 < r.datafd)
    (hdir : r.directory = some (fs.path d)) : (serve fs).listFiles r =
      (⟨0, (fs.entries d).map fun e => .entry e.listed⟩, r) := by
  simp [serve, Int.not_le.mpr hr, hdir, fs.resolve_path]

theorem serve_serves (fs : FileSystem D) : Serves (serve fs) fs where
  listing r p ret r' hset hret g hg := by
    by_cases hr : r'.datafd ≤ 0
    · simp [serve, hr] at hg
    · have hset' := hset
      unfold gftpSetDirectory at hset'
      simp only [serve] at hset'
      split_ifs at hset' with hoff
      · obtain ⟨-, rfl⟩ := hset'
        exact absurd hoff.1 hr
      · cases hd : fs.resolve p with
        | none =>
          rw [hd] at hset'
          obtain ⟨rfl, -⟩ := hset'
          simp [GftpError.code] at hret
        | some d =>
          rw [hd] at hset'
          obtain ⟨-, rfl⟩ := hset'
          have hlist := serve_listFiles fs (d := d) (Int.not_le.mp hr) rfl
          rw [hlist] at hg ⊢
          obtain ⟨e, he, heq⟩ := List.mem_map.mp hg
          obtain rfl := NextFile.entry.inj heq
          refine ⟨d, rfl, e, he, ⟨rfl, rfl, rfl, rfl⟩, ?_⟩
          rw [filePath_eq rfl rfl]
          exact fs.resolve_entry _ d (fs.resolve_path d) e he
  stat r p _ hdir := by
    intro hnone
    have hmode : sIsdir 0o100644 = false := by decide
    simp [gftpStatFilename, serve, hnone, hmode] at hdir

variable (fs) in
/-- A link is followed by the server when it leads to a directory. -/
theorem serve_followLink {r : WalkRequest Unit} {f : WalkFile} :
    ∃ f', followLink (serve fs) r f = (0, r, f') ∧ f'.file = f.file ∧
      (sIsdir f'.stMode = true ↔
        sIsdir f.stMode = true ∨ sIslnk f.stMode = true ∧ fs.resolve f.file ≠ none) := by
  have hcode : (0 : ℤ) ≠ GftpError.fatal.code := by decide
  cases hdir : sIsdir f.stMode with
  | true => exact ⟨f, by simp [followLink, hdir], rfl, by simp [hdir]⟩
  | false =>
    cases hlnk : sIslnk f.stMode with
    | false => exact ⟨f, by simp [followLink, hlnk], rfl, by simp [hdir]⟩
    | true =>
      cases hd : fs.resolve f.file with
      | none =>
        have hmode : sIsdir 0o100644 = false := by decide
        refine ⟨{ f with size := 0 }, ?_, rfl, by simp [hdir]⟩
        simp [followLink, hdir, hlnk, gftpStatFilename, serve, hd, hcode, hmode]
      | some d =>
        have hmode : sIsdir 0o040755 = true := by decide
        refine ⟨{ f with stMode := 0o040755 }, ?_, rfl, by simp [hmode]⟩
        simp [followLink, hdir, hlnk, gftpStatFilename, serve, hd, hcode, hmode]

/-- A request of the server that has a socket, and no other side. -/
def Served (w : Walk Unit τ) : Prop := 0 < w.fromreq.datafd ∧ w.toreq = none

theorem serve_enter {T : WalkProtocol τ} {w : Walk Unit τ} {f : WalkFile} {d : D} (hw : Served w)
    (hd : fs.resolve f.file = some d) : ∃ w', ∃ r : WalkRequest Unit, enterDirectory (serve fs) T w f = (w', .listed
      ((((fs.entries d).map DirEntry.listed).filter notDots).map
        (listEntry r (none : Option (WalkRequest τ)) none))) ∧
        Served w' ∧ r.directory = some (fs.path d) ∧ r.vms = false := by
  obtain ⟨hr, hto⟩ := hw
  have hset := serve_setDirectory hr hd
  have hlist := serve_listFiles fs (d := d)
    (r := { w.fromreq with directory := some (fs.path d), vms := false }) hr rfl
  have hread : ∀ l : List (DirEntry D),
      readEntries (l.map fun e => .entry e.listed) = l.map DirEntry.listed := by
    intro l
    induction l with
    | nil => rfl
    | cons e l ih => exact congrArg (e.listed :: ·) ih
  have hcode : (0 : ℤ) ≠ GftpError.fatal.code := by decide
  have henter : enterDirectory (serve fs) T w f =
      ({ w with
        numdirs := w.numdirs + 1
        oldfromdir := w.oldfromdir.or w.fromreq.directory
        fromreq := { w.fromreq with directory := some (fs.path d), vms := false } }, .listed
        ((((fs.entries d).map DirEntry.listed).filter notDots).map
          (listEntry { w.fromreq with directory := some (fs.path d), vms := false }
            (none : Option (WalkRequest τ)) none))) := by
    simp [enterDirectory, hset, enterOther, hto, gftpGetDirListing, otherSide, hcode, hlist, hread]
  exact ⟨_, _, henter, ⟨hr, hto⟩, rfl, rfl⟩

/-- On this server no visit leaves the walk; the visit of a file without numbers that leads to
a directory of a cycle finds another one. -/
theorem serve_visitStep {T : WalkProtocol τ} {w : Walk Unit τ} {f : WalkFile} (hw : Served w)
    (hgood : sIsdir f.stMode = true → fs.resolve f.file ≠ none) :
    ∃ w' new, visitStep (serve fs) T w f = some (w', new) ∧ Served w' ∧
      (∀ g ∈ new, sIsdir g.stMode = true → fs.resolve g.file ≠ none) ∧
        ∀ d, leadsTo fs f = some d → ∀ d', Below fs d d' → ∃ g ∈ new, leadsTo fs g = some d' := by
  obtain ⟨f₀, hlink, hfile, hmode⟩ := serve_followLink fs (r := w.fromreq) (f := f)
  rcases visited_cases (F := serve fs) (T := T) (w := w) (f := f) with
    ⟨hfound, hv⟩ | ⟨hfound, ret, r₀, f', w', hlink', rfl, hcases⟩
  · refine ⟨_, [], visitStep_some.mpr ⟨by rw [hv]; rfl, rfl, by rw [hv]; rfl⟩, ?_, by simp, ?_⟩
    · rw [hv]
      exact hw
    · intro d hd
      exact absurd (found_iff.mp hfound).1 (leadsTo_some.mp hd).1
  · obtain ⟨rfl, rfl, rfl⟩ : 0 = ret ∧ w.fromreq = r₀ ∧ f₀ = f' := by
      simpa only [Prod.mk.injEq] using hlink.symm.trans hlink'
    rcases hcases with ⟨hneg, -⟩ | ⟨-, hdir, hv⟩ | ⟨-, hdir, hv⟩
    · exact absurd hneg (by decide)
    · refine ⟨_, [], visitStep_some.mpr ⟨by rw [hv]; rfl, rfl, by rw [hv]; rfl⟩, ?_, by simp, ?_⟩
      · rw [hv]
        exact hw
      · intro d hd
        obtain ⟨-, hmodes, hresolve⟩ := leadsTo_some.mp hd
        have hyes : sIsdir f₀.stMode = true :=
          hmode.mpr (hmodes.imp_right fun hlnk => ⟨hlnk, by simp [hresolve]⟩)
        rw [hdir] at hyes
        cases hyes
    · have hresolves : fs.resolve f.file ≠ none := (hmode.mp hdir).elim hgood And.right
      obtain ⟨d₀, hd₀⟩ := Option.ne_none_iff_exists'.mp hresolves
      rw [← hfile] at hd₀
      obtain ⟨w₁, r, henter, hserved, hdirectory, hvms⟩ := serve_enter (T := T)
        (w := { w with deviceHash := (lookupCurfleInDeviceHash f w.deviceHash).2 }) hw hd₀
      rw [henter] at hv
      have hfiles : ∀ e ∈ fs.entries d₀,
          fs.resolve (listEntry r (none : Option (WalkRequest τ)) none e.listed).file = e.target := by
        intro e he
        rw [(listEntry_data r _ _ _).1, filePath_eq hdirectory hvms]
        exact fs.resolve_entry _ d₀ (fs.resolve_path d₀) e he
      refine ⟨_, _, visitStep_some.mpr ⟨by rw [hv]; rfl, rfl, rfl⟩, by rw [hv]; exact hserved, ?_⟩
      rw [hv]
      constructor
      · intro g hg hgdir
        obtain ⟨g₀, hg₀, rfl⟩ := List.mem_map.mp hg
        obtain ⟨e, he, rfl⟩ := List.mem_map.mp (List.mem_filter.mp hg₀).1
        rw [hfiles e he]
        rw [(listEntry_data r _ _ _).2.1] at hgdir
        exact fs.directory_target d₀ e he hgdir
      · intro d hd d' hbelow
        obtain ⟨-, -, hresolve⟩ := leadsTo_some.mp hd
        rw [← hfile, hd₀] at hresolve
        obtain rfl := Option.some.inj hresolve
        obtain ⟨e, he, hdot, hdotdot, hnumbers, hmodes, htarget⟩ := hbelow
        refine ⟨listEntry r none none e.listed, List.mem_map_of_mem ?_, leadsTo_some.mpr ?_⟩
        · refine List.mem_filter.mpr ⟨List.mem_map_of_mem he, ?_⟩
          simp [notDots, DirEntry.listed, hdot, hdotdot]
        · obtain ⟨-, hm, hdev, hino⟩ :=
            listEntry_data r (none : Option (WalkRequest τ)) none e.listed
          rw [Numbered, hm, hdev, hino, hfiles e he, not_and_or, not_not, not_not]
          exact ⟨hnumbers, hmodes, htarget⟩

/-- The directory of a cycle is selected. -/
def cycleTransfer (path : Bytes) : WalkTransfer Unit Unit where
  fromreq := ⟨⟨5, false, false⟩, none, false, ()⟩
  toreq := none
  files := [⟨path, none, 0, 0, 0o040755, 0, 0, false⟩]
  numfiles := 0
  numdirs := 0

variable (fs) in
theorem cycle_entered (path : Bytes) :
    Entered (serve fs) (serve fs) (cycleTransfer path) ∧
      setupCurrentDirectoryTransfer (serve fs) (serve fs) (cycleTransfer path) =
        ⟨true, 0, (cycleTransfer path).files, (cycleTransfer path).fromreq, none⟩ := by
  have hsetup : setupCurrentDirectoryTransfer (serve fs) (serve fs) (cycleTransfer path) =
      ⟨true, 0, (cycleTransfer path).files, (cycleTransfer path).fromreq, none⟩ := rfl
  exact ⟨⟨List.cons_ne_nil _ _, by rw [hsetup]⟩, hsetup⟩

theorem cycle_not_returned {d : D} (hcycle : Relation.TransGen (Below fs) d d) (update : Bool) :
    ¬∃ fuel r, gftpGetAllSubdirs (serve fs) (serve fs) update fuel (cycleTransfer (fs.path d)) =
      .ok r := by
  rintro ⟨fuel, r, hr⟩
  obtain ⟨hentered, hsetup⟩ := cycle_entered fs (fs.path d)
  have hends := ends_of_returned hentered hr
  rw [hsetup] at hends
  have hmode : sIsdir 0o040755 = true := by decide
  have hsocket : (0 : ℤ) < 5 := by decide
  refine not_ends Served (fun f => sIsdir f.stMode = true → fs.resolve f.file ≠ none)
    (fun f => ∃ d, leadsTo fs f = some d ∧ Relation.TransGen (Below fs) d d)
    ?_ ⟨hsocket, rfl⟩ ?_ ?_ hends
  · intro w f hw hgood
    obtain ⟨w', new, hstep, hw', hnew, hfound⟩ := serve_visitStep (T := serve fs) hw hgood
    refine ⟨w', new, hstep, hw', hnew, ?_⟩
    rintro ⟨d, hd, hdcycle⟩
    obtain ⟨d', hbelow, hback⟩ := Relation.TransGen.head'_iff.mp hdcycle
    obtain ⟨g, hg, hleads⟩ := hfound d hd d' hbelow
    exact ⟨g, hg, d', hleads, Relation.TransGen.tail' hback hbelow⟩
  · intro f hf hdir
    obtain rfl := List.mem_singleton.mp hf
    simp [fs.resolve_path]
  · refine ⟨_, List.mem_singleton_self _, d, leadsTo_some.mpr ⟨?_, .inl hmode, fs.resolve_path d⟩,
      hcycle⟩
    simp [Numbered]

end Server

/-- The walk over a file system returns in every case if and only if no chain of directories
without numbers, or links to such, leads back to its beginning. -/
theorem walk_returns_iff [Fintype D] (fs : FileSystem D) :
    WalkReturns fs ↔ NoUnnumberedCycle fs := by
  constructor
  · intro h d hcycle
    exact cycle_not_returned hcycle false (h _ _ _ _ _ _ (serve_serves fs))
  · intro h σ τ F T update t hserves
    exact walk_returns fun _ => ends_of_noCycle hserves h _

/-- The root and the paths that only go through the link in it. -/
def linkPath : Bytes → Bool
  | [] => true
  | 47 :: 108 :: rest => linkPath rest
  | _ => false

theorem linkPath_append (p : Bytes) (h : linkPath p = true) :
    p.getLast? ≠ some 47 ∧ linkPath (p ++ [47, 108]) = true := by
  induction p using linkPath.induct with
  | case1 => exact ⟨nofun, rfl⟩
  | case2 rest ih =>
    obtain ⟨hlast, happend⟩ := ih h
    refine ⟨?_, happend⟩
    cases rest with
    | nil => decide
    | cons b rest => simpa using hlast
  | case3 p hnil hlink =>
    unfold linkPath at h
    split at h
    · exact absurd rfl hnil
    · exact absurd rfl (hlink _)
    · cases h

/-- A root directory that holds a link to itself. -/
def selfLink : FileSystem Unit where
  entries _ := [⟨[108], 0o120777, 0, 0, some ()⟩]
  resolve p := if p = [47] ∨ p ≠ [] ∧ linkPath p = true then some () else none
  path _ := [47]
  resolve_path _ := rfl
  resolve_entry directory d hd e he := by
    obtain rfl := List.mem_singleton.mp he
    split at hd
    · rename_i hpath
      apply if_pos
      rcases hpath with rfl | ⟨hne, hlink⟩
      · exact .inr ⟨List.cons_ne_nil _ _, rfl⟩
      · obtain ⟨hlast, happend⟩ := linkPath_append directory hlink
        have hentry : entryPath directory [108] = directory ++ [47, 108] := by
          obtain ⟨b, rest, rfl⟩ := List.exists_cons_of_ne_nil hne
          simp [entryPath, filePath, gftpBuildPath, hlast]
        refine .inr ⟨?_, hentry ▸ happend⟩
        rw [hentry]
        simp
    · cases hd
  directory_target _ e he _ := by
    obtain rfl := List.mem_singleton.mp he
    exact Option.some_ne_none ()

/-- The link leads the walk back to the root for ever. -/
theorem self_link_endless :
    ¬ ∀ (D : Type) (_ : Fintype D) (fs : FileSystem D), WalkReturns fs := by
  intro h
  have hbelow : Below selfLink () () :=
    ⟨_, List.mem_singleton_self _, by decide, by decide, .inl rfl, .inr rfl, rfl⟩
  exact cycle_not_returned (.single hbelow) false
    (h Unit inferInstance selfLink _ _ _ _ _ _ (serve_serves selfLink))

end Gftp.SubdirEnd
