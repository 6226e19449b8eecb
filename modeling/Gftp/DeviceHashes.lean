import Gftp.LocalListings
import Gftp.SubdirWalk
import Mathlib.Data.List.Induction
import Mathlib.Data.List.Pairwise

/-!
The devices and inodes that the walk has met. A file whose numbers are not 0 is passed over
when one with the same numbers as guint stands in front of it: a directory for the sake of another
one when their numbers differ above the 32nd bit only, and every name of a file but the first one.
-/

namespace Gftp.DeviceHashes

open DirectoryReads LocalListings Subdirs SubdirWalk

variable {σ τ : Type} {F : WalkProtocol σ} {T : WalkProtocol τ}

/-- The files whose numbers are looked up. -/
def Numbered (f : WalkFile) : Prop := f.stDev ≠ 0 ∧ f.stIno ≠ 0

/-- Two entries of one directory. -/
structure SameDirectory (f g : WalkFile) : Prop where
  left : sIsdir f.stMode = true
  right : sIsdir g.stMode = true
  dev : f.stDev = g.stDev
  ino : f.stIno = g.stIno

/-- The same numbers as guint. -/
def SameKeys (f g : WalkFile) : Prop :=
  guint f.stDev = guint g.stDev ∧ guint f.stIno = guint g.stIno

/-- The hash has these keys. -/
def Recorded (h : DeviceHash) (dev ino : ℕ) : Prop := ∃ inodes, h dev = some inodes ∧ ino ∈ inodes

section Lookup

variable {f : WalkFile} {h : DeviceHash}

theorem not_recorded_empty (dev ino : ℕ) : ¬Recorded emptyHash dev ino := by
  rintro ⟨inodes, hnone, -⟩
  cases hnone

theorem lookup_unnumbered (hf : ¬Numbered f) : lookupCurfleInDeviceHash f h = (false, h) := by
  apply if_pos
  rw [Numbered, not_and_or, not_not, not_not] at hf
  exact hf

theorem lookup_recorded (hf : Numbered f) (hrec : Recorded h (guint f.stDev) (guint f.stIno)) :
    lookupCurfleInDeviceHash f h = (true, h) := by
  obtain ⟨inodes, hdev, hino⟩ := hrec
  simp [lookupCurfleInDeviceHash, hf.1, hf.2, hdev, hino]

theorem lookup_new (hf : Numbered f) (hnew : ¬Recorded h (guint f.stDev) (guint f.stIno)) :
    (lookupCurfleInDeviceHash f h).1 = false ∧
      ∀ dev ino, Recorded (lookupCurfleInDeviceHash f h).2 dev ino ↔
        Recorded h dev ino ∨ guint f.stDev = dev ∧ guint f.stIno = ino := by
  cases hdev : h (guint f.stDev) with
  | none =>
    have hlook : lookupCurfleInDeviceHash f h =
        (false, Function.update h (guint f.stDev) (some [guint f.stIno])) := by
      simp [lookupCurfleInDeviceHash, hf.1, hf.2, hdev]
    rw [hlook]
    refine ⟨rfl, fun dev ino => ?_⟩
    by_cases heq : dev = guint f.stDev
    · subst heq
      simp [Recorded, hdev, eq_comm]
    · simp [Recorded, Function.update_of_ne heq, Ne.symm heq]
  | some inodes =>
    have hino : guint f.stIno ∉ inodes := fun hino => hnew ⟨inodes, hdev, hino⟩
    have hlook : lookupCurfleInDeviceHash f h = (false, Function.update h (guint f.stDev)
        (some (guint f.stIno :: inodes))) := by
      simp [lookupCurfleInDeviceHash, hf.1, hf.2, hdev, hino]
    rw [hlook]
    refine ⟨rfl, fun dev ino => ?_⟩
    by_cases heq : dev = guint f.stDev
    · subst heq
      simp [Recorded, hdev, or_comm, eq_comm]
    · simp [Recorded, Function.update_of_ne heq, Ne.symm heq]

theorem recorded_lookup (dev ino : ℕ) : Recorded (lookupCurfleInDeviceHash f h).2 dev ino ↔
    Recorded h dev ino ∨ Numbered f ∧ guint f.stDev = dev ∧ guint f.stIno = ino := by
  by_cases hf : Numbered f
  · by_cases hrec : Recorded h (guint f.stDev) (guint f.stIno)
    · rw [lookup_recorded hf hrec]
      refine ⟨Or.inl, Or.rec id ?_⟩
      rintro ⟨-, rfl, rfl⟩
      exact hrec
    · rw [(lookup_new hf hrec).2]
      simp [hf]
  · rw [lookup_unnumbered hf]
    simp [hf]

theorem found_iff : (lookupCurfleInDeviceHash f h).1 = true ↔
    Numbered f ∧ Recorded h (guint f.stDev) (guint f.stIno) := by
  by_cases hf : Numbered f
  · by_cases hrec : Recorded h (guint f.stDev) (guint f.stIno)
    · simp [lookup_recorded hf hrec, hf, hrec]
    · simp [(lookup_new hf hrec).1, hrec]
  · simp [lookup_unnumbered hf, hf]

end Lookup

section Visits

variable {w w' : Walk σ τ} {f : WalkFile} {files pending : List WalkFile}
  {vs : List (Visited σ τ)}

@[simp] theorem enterOther_hash : (enterOther T w f).2.deviceHash = w.deviceHash := by
  unfold enterOther
  cases w.toreq with
  | none => rfl
  | some toreq =>
    simp only
    split_ifs <;> rfl

theorem enterDirectory_hash : (enterDirectory F T w f).1.deviceHash = w.deviceHash := by
  obtain ⟨_, _, _, -, rfl, ⟨-, henter⟩ | ⟨-, _, w₂, hother, hcases⟩⟩ :=
    enterDirectory_cases (F := F) (T := T) (w := w) (f := f) rfl
  · rw [henter]
  · have hhash : w₂.deviceHash = w.deviceHash :=
      (congrArg (·.2.deviceHash) hother).symm.trans enterOther_hash
    obtain ⟨-, henter⟩ | ⟨-, _, _, -, rfl, ⟨-, henter⟩ | ⟨-, henter⟩⟩ := hcases <;>
      rw [henter] <;> exact hhash

theorem enterDirectory_visit : (enterDirectory F T w f).2 ≠ .passedOver := by
  obtain ⟨_, _, _, -, -, ⟨-, henter⟩ | ⟨-, _, _, -, ⟨-, henter⟩ |
    ⟨-, _, _, -, -, ⟨-, henter⟩ | ⟨-, henter⟩⟩⟩⟩ :=
      enterDirectory_cases (F := F) (T := T) (w := w) (f := f) rfl
  all_goals simp [henter]

theorem visited_hash :
    (visited F T w f).after.deviceHash = (lookupCurfleInDeviceHash f w.deviceHash).2 := by
  rcases visited_cases (F := F) (T := T) (w := w) (f := f) with
    ⟨-, hv⟩ | ⟨-, _, _, f', w', -, rfl, ⟨-, hv⟩ | ⟨-, -, hv⟩ | ⟨-, -, hv⟩⟩
  · rw [hv]
  · rw [hv]
  · rw [hv]
  · rw [hv]
    exact enterDirectory_hash

theorem visited_passedOver :
    (visited F T w f).visit = .passedOver ↔ (lookupCurfleInDeviceHash f w.deviceHash).1 = true := by
  rcases visited_cases (F := F) (T := T) (w := w) (f := f) with
    ⟨hfound, hv⟩ | ⟨hfound, _, _, f', w', -, rfl, ⟨-, hv⟩ | ⟨-, -, hv⟩ | ⟨-, -, hv⟩⟩
  · simp [hv, hfound]
  · simp [hv, hfound]
  · simp [hv, hfound]
  · simp [hv, hfound, enterDirectory_visit]

/-- The keys recorded are those of the files visited. -/
theorem explored_recorded (h : Explored F T w files vs w' pending) (dev ino : ℕ) :
    Recorded w'.deviceHash dev ino ↔ Recorded w.deviceHash dev ino ∨
      ∃ u ∈ vs, Numbered u.met ∧ guint u.met.stDev = dev ∧ guint u.met.stIno = ino := by
  have hone : ∀ (w : Walk σ τ) f, Recorded (visited F T w f).after.deviceHash dev ino ↔
      Recorded w.deviceHash dev ino ∨
        Numbered (visited F T w f).met ∧ guint (visited F T w f).met.stDev = dev ∧
          guint (visited F T w f).met.stIno = ino := by
    intro w f
    rw [visited_hash]
    exact recorded_lookup dev ino
  induction h with
  | refl => simp
  | leave hret => simp [hone]
  | pass hgo h ih => simp [ih, hone, or_assoc]

/-- A file is passed over when the keys of its numbers are those of one in front of it. -/
theorem passedOver_iff (h : Explored F T w files vs w' pending) (hempty : w.deviceHash = emptyHash)
    {front behind : List (Visited σ τ)} {v : Visited σ τ} (hsplit : vs = front ++ v :: behind) :
    v.visit = .passedOver ↔
      Numbered v.met ∧ ∃ u ∈ front, Numbered u.met ∧ SameKeys u.met v.met := by
  rw [hsplit] at h
  obtain ⟨rest, hfront, hv⟩ := h.before
  rw [hv, visited_passedOver, found_iff, explored_recorded hfront, hempty]
  simp [not_recorded_empty, SameKeys]
  rfl

end Visits

/-- A file is passed over only if it is a directory and one in front of it is the same directory;
every other directory is listed and every other file counted, unless the walk is left there. -/
def OmitsNothing (vs : List (Visited σ τ)) : Prop :=
  ∀ front v behind, vs = front ++ v :: behind →
    (v.visit = .passedOver → ∃ u ∈ front, SameDirectory u.met v.met) ∧
    (v.visit ≠ .passedOver → result v.visit = none →
      (sIsdir v.curfle.stMode = true → ∃ files, v.visit = .listed files) ∧
      (sIsdir v.curfle.stMode = false →
        v.visit = .counted ∧ v.after.numfiles = v.before.numfiles + 1))

/-- If the numbers of two files are not 0 and the same as guint, they are entries of one directory. -/
def Told (u v : Visited σ τ) : Prop :=
  Numbered u.met → Numbered v.met → SameKeys u.met v.met → SameDirectory u.met v.met

def KeysTell (vs : List (Visited σ τ)) : Prop := vs.Pairwise Told

section Omissions

variable {w w' : Walk σ τ} {files pending : List WalkFile} {vs : List (Visited σ τ)}
  {f : WalkFile}

namespace SameDirectory

variable {f g h : WalkFile}

theorem symm (hfg : SameDirectory f g) : SameDirectory g f :=
  ⟨hfg.right, hfg.left, hfg.dev.symm, hfg.ino.symm⟩

theorem trans (hfg : SameDirectory f g) (hgh : SameDirectory g h) : SameDirectory f h :=
  ⟨hfg.left, hgh.right, hfg.dev.trans hgh.dev, hfg.ino.trans hgh.ino⟩

theorem keys (hfg : SameDirectory f g) : SameKeys f g :=
  ⟨congrArg guint hfg.dev, congrArg guint hfg.ino⟩

theorem numbered (hfg : SameDirectory f g) (hg : Numbered g) : Numbered f := by
  rw [Numbered, hfg.dev, hfg.ino]
  exact hg

end SameDirectory

instance : Std.Symm (Told (σ := σ) (τ := τ)) where
  symm _ _ h hnu hnv hkeys := (h hnv hnu ⟨hkeys.1.symm, hkeys.2.symm⟩).symm

theorem file_counted (hgo : result (visited F T w f).visit = none)
    (hpassed : (visited F T w f).visit ≠ .passedOver)
    (hfile : sIsdir (visited F T w f).curfle.stMode = false) :
    (visited F T w f).visit = .counted ∧
      (visited F T w f).after.numfiles = w.numfiles + 1 := by
  rcases visited_cases (F := F) (T := T) (w := w) (f := f) with
    ⟨-, hv⟩ | ⟨-, _, _, f', w', -, rfl, ⟨-, hv⟩ | ⟨-, -, hv⟩ | ⟨-, hdir, hv⟩⟩
  · exact absurd (congrArg Visited.visit hv) hpassed
  · simp [hv, result] at hgo
  · rw [hv]
    exact ⟨rfl, rfl⟩
  · rw [hv] at hfile
    exact absurd hdir (by simp [hfile])

/-- Where nothing is omitted, the files with the same keys are one directory: each later one is
passed over, so that one in front of it is the same directory, and so are all of these. -/
theorem keysTell_of_omitsNothing
    (hpassed : ∀ front v behind, vs = front ++ v :: behind → (v.visit = .passedOver ↔
      Numbered v.met ∧ ∃ u ∈ front, Numbered u.met ∧ SameKeys u.met v.met))
    (h : OmitsNothing vs) : KeysTell vs := by
  have hpre : ∀ front behind, vs = front ++ behind → KeysTell front := by
    intro front
    induction front using List.reverseRecOn with
    | nil => exact fun _ _ => List.Pairwise.nil
    | append_singleton front v ih =>
      intro behind hsplit
      have hsplit : vs = front ++ v :: behind := by simpa using hsplit
      have hfront := ih (v :: behind) hsplit
      refine List.pairwise_append.mpr ⟨hfront, List.pairwise_singleton _ _, ?_⟩
      intro u hu x hx hnu hnv hkeys
      obtain rfl := List.mem_singleton.mp hx
      have hover := (hpassed front x behind hsplit).mpr ⟨hnv, u, hu, hnu, hkeys⟩
      obtain ⟨z, hz, hsame⟩ := (h front x behind hsplit).1 hover
      by_cases huz : u = z
      · rw [huz]
        exact hsame
      · have hkeysz : SameKeys u.met z.met :=
          ⟨hkeys.1.trans hsame.keys.1.symm, hkeys.2.trans hsame.keys.2.symm⟩
        exact (hfront.forall hu hz huz hnu (hsame.numbered hnv) hkeysz).trans hsame
  exact hpre vs [] (List.append_nil vs).symm

/-- The walk omits nothing if and only if no two files it meets have the same numbers as guint,
unless they are one directory. -/
theorem omits_nothing_iff (F : WalkProtocol σ) (T : WalkProtocol τ) (fuel : ℕ)
    (t : WalkTransfer σ τ) :
    OmitsNothing (walkVisits F T fuel t) ↔ KeysTell (walkVisits F T fuel t) := by
  by_cases hentered : Entered F T t
  · obtain ⟨s', done, pending, hrun⟩ := hentered.runs fuel
    have hexplored := hrun.explored
    rw [← hentered.visits] at hexplored
    have hpassed : ∀ front v behind, walkVisits F T fuel t = front ++ v :: behind →
        (v.visit = .passedOver ↔
          Numbered v.met ∧ ∃ u ∈ front, Numbered u.met ∧ SameKeys u.met v.met) :=
      fun front v behind hsplit => passedOver_iff hexplored rfl hsplit
    constructor
    · exact keysTell_of_omitsNothing hpassed
    · intro htell front v behind hsplit
      constructor
      · intro hover
        obtain ⟨hnv, u, hu, hnu, hkeys⟩ := (hpassed front v behind hsplit).mp hover
        rw [hsplit] at htell
        have htold := (List.pairwise_append.mp htell).2.2 u hu v (List.mem_cons_self ..)
        exact ⟨u, hu, htold hnu hnv hkeys⟩
      · intro hnot hgo
        rw [hsplit] at hexplored
        obtain ⟨-, -, hv⟩ := hexplored.before
        rw [hv] at hnot hgo ⊢
        exact ⟨directory_listed hgo hnot, file_counted hgo hnot⟩
  · have hnone : walkVisits F T fuel t = [] := if_neg fun h => hentered ⟨h.1, h.2⟩
    rw [hnone]
    refine iff_of_true (fun front v behind hsplit => ?_) List.Pairwise.nil
    simp at hsplit

end Omissions

/-- Two entries selected on a local side. -/
def twoSelected (a b : WalkFile) : WalkTransfer Unit Unit where
  fromreq := ⟨⟨-1, false, true⟩, some [47], false, ()⟩
  toreq := none
  files := [a, b]
  numfiles := 0
  numdirs := 0

/-- The visits of a walk over them; every directory is empty. -/
def twoVisits (a b : WalkFile) : List (Visited Unit Unit) :=
  let local_ : WalkProtocol Unit := { answering ⟨0, []⟩ with chdir := some fun r _ => (0, r) }
  walkVisits local_ local_ 3 (twoSelected a b)

theorem second_omitted {vs : List (Visited σ τ)} {a b : WalkFile} (hmet : vs.map (·.met) = [a, b])
    (hover : (vs.map (·.visit))[1]? = some .passedOver) (hdiffer : ¬SameDirectory a b) :
    ¬OmitsNothing vs := by
  intro h
  have hlength : vs.length = 2 := by
    rw [← List.length_map, hmet]
    rfl
  obtain ⟨u, v, rfl⟩ := List.length_eq_two.mp hlength
  obtain ⟨z, hz, hsame⟩ := (h [u] v [] rfl).1 (Option.some.inj hover)
  obtain rfl := List.mem_singleton.mp hz
  obtain ⟨rfl, rfl⟩ : z.met = a ∧ v.met = b := by simpa using hmet
  exact hdiffer hsame

/-- Of two directories whose inodes differ above the 32nd bit the second one is passed over, and so
is the second of two names of one file. -/
theorem large_inode_passed_over :
    ¬OmitsNothing (twoVisits ⟨[47, 97], none, 0, 0, 0o040755, 1, 5, false⟩
      ⟨[47, 98], none, 0, 0, 0o040755, 1, 5 + 2 ^ 32, false⟩) ∧
    ¬OmitsNothing (twoVisits ⟨[47, 97], none, 9, 0, 0o100644, 1, 5, false⟩
      ⟨[47, 98], none, 9, 0, 0o100644, 1, 5, false⟩) := by
  constructor
  · refine second_omitted rfl rfl fun hsame => ?_
    exact absurd hsame.ino (by decide)
  · refine second_omitted rfl rfl fun hsame => ?_
    exact absurd hsame.left (by decide)

end Gftp.DeviceHashes
