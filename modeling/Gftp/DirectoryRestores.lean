import Gftp.LocalListings
import Gftp.Places
import Gftp.SubdirWalk

/-!
The current directories of the two sides behind the walk. The walk notes the directory that a
side is in before its first change and changes back to it behind the end of its list; where a
call fails it is left without that. Any call may move the directory of its side: a change, and a
question whose connection is made again.
-/

namespace Gftp.DirectoryRestores

open ByteStrings DirectoryReads LocalListings Places Protocol Subdirs SubdirWalk

variable {σ τ ρ : Type}

/-- The directory of the other side. -/
def toDirectory (toreq : Option (WalkRequest τ)) : Option Bytes := toreq.bind (·.directory)

/-- A side that is connected is in the directory that it was in on entry. -/
def Restored (t : WalkTransfer σ τ) (r : Walked σ τ) : Prop :=
  (r.walk.fromreq.isConnected = true → r.walk.fromreq.directory = t.fromreq.directory) ∧
  ∀ toreq, r.walk.toreq = some toreq → toreq.isConnected = true →
    toreq.directory = toDirectory t.toreq

/-- A call on one side of the walk. Its places are the current directories. -/
abbrev DirectoryCall := Call Bytes

def question (r r' : WalkRequest ρ) : DirectoryCall := ⟨none, r.directory, r'.directory⟩

def change (P : WalkProtocol ρ) (r : WalkRequest ρ) (directory : Option Bytes) : DirectoryCall :=
  ⟨some directory, r.directory, (gftpSetDirectory P r directory).2.directory⟩

variable (F : WalkProtocol σ) (T : WalkProtocol τ)

/-- The listing for the table of the other side. -/
def hashCalls (getothdir : Bool) (toreq : Option (WalkRequest τ)) : List DirectoryCall :=
  match getothdir, toreq with
  | true, some toreq => [question toreq (gftpGenDirHash T toreq).2.2]
  | _, _ => []

/-- The questions for sizes of setupLoop. -/
def sizeCalls (dirhash : Option DirHash) : WalkRequest σ → List WalkFile → List DirectoryCall
  | _, [] => []
  | fromreq, curfle :: rest =>
      let curfle := lookUp dirhash (lastName curfle.file) curfle
      let (ok, fromreq', _) := knownSize F fromreq curfle
      (if curfle.size < 0 ∧ fromreq.isConnected = true then [question fromreq fromreq'] else []) ++
        if ok then sizeCalls dirhash fromreq' rest else []

def setupFromCalls (t : WalkTransfer σ τ) : List DirectoryCall :=
  let (ret, dirhash, _) := otherSide T true t.toreq
  if t.files = [] ∨ ret = GftpError.fatal.code then [] else sizeCalls F dirhash t.fromreq t.files

def setupToCalls (t : WalkTransfer σ τ) : List DirectoryCall :=
  if t.files = [] then [] else hashCalls T true t.toreq

section Visits

variable (v : Visited σ τ)

/-- The question where a link leads to. -/
def linkCalls : List DirectoryCall :=
  if sIslnk v.met.stMode && !sIsdir v.met.stMode then
    [question v.before.fromreq (followLink F v.before.fromreq v.met).2.1]
  else []

def enteringCall : DirectoryCall :=
  change F (followLink F v.before.fromreq v.met).2.1 (some v.met.file)

/-- The listing, unless that of the other side was fatal. -/
def listingCalls : List DirectoryCall :=
  if (otherSide T v.curfle.existsOtherSide (enterOther T v.before v.curfle).2.toreq).1 =
      GftpError.fatal.code then []
  else [question (enteredRequest F v) (F.listFiles (enteredRequest F v)).2]

/-- The calls of a visit on the first side. -/
def visitFromCalls : List DirectoryCall :=
  match v.visit with
  | .passedOver => []
  | .counted | .left .stat _ => linkCalls F v
  | .left .setDirectory _ | .left .setOtherDirectory _ => linkCalls F v ++ [enteringCall F v]
  | .left .listing _ | .listed _ => linkCalls F v ++ [enteringCall F v] ++ listingCalls F T v

/-- The change on the other side; where the directory is only noted, a call that obeys. -/
def otherEnteringCalls : List DirectoryCall :=
  match v.before.toreq with
  | none => []
  | some toreq =>
      if v.curfle.existsOtherSide then [change T toreq v.curfle.destfile]
      else [⟨some v.curfle.destfile, toreq.directory, v.curfle.destfile⟩]

/-- The calls of a visit on the other side. -/
def visitToCalls : List DirectoryCall :=
  match v.visit with
  | .left .setOtherDirectory _ => otherEnteringCalls T v
  | .left .listing _ | .listed _ => otherEnteringCalls T v ++
      hashCalls T v.curfle.existsOtherSide (enterOther T v.before v.curfle).2.toreq
  | _ => []

end Visits

section Walks

variable (fuel : ℕ) (t : WalkTransfer σ τ)

/-- The calls on the first side up to the end of the loop. -/
def fromCalls : List DirectoryCall :=
  setupFromCalls F T t ++ (walkVisits F T fuel t).flatMap (visitFromCalls F T)

def toCalls : List DirectoryCall :=
  setupToCalls T t ++ (walkVisits F T fuel t).flatMap (visitToCalls T)

/-- The walk came to the end of its list. -/
def cameToEnd (vs : List (Visited σ τ)) : Bool := vs.all fun v => (result v.visit).isNone

/-- The change back of the first side, when it is made, and its result. -/
def fromBack : Option (ℤ × DirectoryCall) :=
  match cameToEnd (walkVisits F T fuel t), (walkVisits F T fuel t).getLast?,
    noted (fromCalls F T fuel t) with
  | true, some v, some dir =>
      some ((gftpSetDirectory F v.after.fromreq (some dir)).1, change F v.after.fromreq (some dir))
  | _, _, _ => none

/-- The change back of the other side, which is made unless that of the first one was fatal. -/
def toBack : Option DirectoryCall :=
  if (fromBack F T fuel t).map Prod.fst = some GftpError.fatal.code then none
  else
    match cameToEnd (walkVisits F T fuel t), (walkVisits F T fuel t).getLast?.bind (·.after.toreq),
      noted (toCalls F T fuel t) with
    | true, some toreq, some dir => some (change T toreq (some dir))
    | _, _, _ => none

/-- Each side that is still connected is brought back by the calls made to it. -/
def SidesReturn (r : Walked σ τ) : Prop :=
  (r.walk.fromreq.isConnected = true →
    Returns t.fromreq.directory (fromCalls F T fuel t) ((fromBack F T fuel t).map Prod.snd)) ∧
  ∀ toreq, r.walk.toreq = some toreq → toreq.isConnected = true →
    Returns (toDirectory t.toreq) (toCalls F T fuel t) (toBack F T fuel t)

/-- On neither side does a call in front of the change back lead into the directory on entry, and a
change back does what it is asked or nothing. -/
def NoAccident : Prop :=
  NoReturn t.fromreq.directory (fromCalls F T fuel t) ((fromBack F T fuel t).map Prod.snd) ∧
    NoReturn (toDirectory t.toreq) (toCalls F T fuel t) (toBack F T fuel t)

end Walks

variable {F T}

section Tracking

variable {w w' : Walk σ τ} {f : WalkFile} {files pending : List WalkFile} {vs : List (Visited σ τ)}
  {note : Option Bytes}

theorem link_tracked (note : Option Bytes) (v : Visited σ τ) :
    Tracked note v.before.fromreq.directory (linkCalls F v) note
      (followLink F v.before.fromreq v.met).2.1.directory := by
  unfold linkCalls
  split_ifs with hlink
  · exact Tracked.question ..
  · rw [followLink, if_neg hlink]
    exact Tracked.nil ..

theorem hash_tracked (note : Option Bytes) (other : Bool) (toreq : Option (WalkRequest τ)) :
    Tracked note (toDirectory toreq) (hashCalls T other toreq) note
      (toDirectory (otherSide T other toreq).2.2) := by
  cases other with
  | false => exact Tracked.nil ..
  | true =>
    cases toreq with
    | none => exact Tracked.nil ..
    | some toreq => exact Tracked.question ..

theorem dirListing_requests (r : WalkRequest σ) (toreq : Option (WalkRequest τ)) (other : Bool) :
    (gftpGetDirListing F T r toreq other).toreq = (otherSide T other toreq).2.2 ∧
      (gftpGetDirListing F T r toreq other).fromreq =
        if (otherSide T other toreq).1 = GftpError.fatal.code then r else (F.listFiles r).2 := by
  unfold gftpGetDirListing
  simp only
  split_ifs <;> exact ⟨rfl, rfl⟩

theorem enterOther_oldfromdir : (enterOther T w f).2.oldfromdir = w.oldfromdir := by
  unfold enterOther
  cases w.toreq with
  | none => rfl
  | some toreq =>
    simp only
    split_ifs <;> rfl

theorem enterOther_oldtodir :
    (enterOther T w f).2.oldtodir = w.oldtodir.or (toDirectory w.toreq) := by
  unfold enterOther
  cases w.toreq with
  | none => exact Option.or_none.symm
  | some toreq =>
    simp only
    split_ifs <;> rfl

theorem otherEntering_tracked (note : Option Bytes) (v : Visited σ τ) :
    Tracked note (toDirectory v.before.toreq) (otherEnteringCalls T v)
      (note.or (toDirectory v.before.toreq))
      (toDirectory (enterOther T v.before v.curfle).2.toreq) := by
  cases htoreq : v.before.toreq with
  | none =>
    simp only [otherEnteringCalls, enterOther, htoreq, toDirectory, Option.bind_none, Option.or_none]
    exact Tracked.nil ..
  | some toreq =>
    simp only [otherEnteringCalls, enterOther, htoreq]
    by_cases hother : v.curfle.existsOtherSide = true
    · simp only [if_pos hother]
      split_ifs <;> exact Tracked.move ..
    · simp only [if_neg hother]
      exact Tracked.move ..

/-- What a visit leaves of the two requests and of the two notes. -/
theorem visited_tracked {v : Visited σ τ} (hv : v = visited F T w f) :
    Tracked w.oldfromdir w.fromreq.directory (visitFromCalls F T v) v.after.oldfromdir
        v.after.fromreq.directory ∧
      Tracked w.oldtodir (toDirectory w.toreq) (visitToCalls T v) v.after.oldtodir
        (toDirectory v.after.toreq) := by
  subst hv
  rcases visited_cases (F := F) (T := T) (w := w) (f := f) with
    ⟨-, hv⟩ | ⟨-, _, r, f', w', hlink, hw', hcases⟩
  · rw [hv]
    exact ⟨Tracked.nil .., Tracked.nil ..⟩
  have hlinked : ∀ after curfle visit, Tracked w.oldfromdir w.fromreq.directory
      (linkCalls F (⟨w, f, after, curfle, visit⟩ : Visited σ τ)) w.oldfromdir r.directory := by
    intro after curfle visit
    have htracked := link_tracked (F := F) w.oldfromdir (⟨w, f, after, curfle, visit⟩ : Visited σ τ)
    rwa [hlink] at htracked
  rcases hcases with ⟨-, hv⟩ | ⟨-, -, hv⟩ | ⟨-, -, hv⟩
  · rw [hv, hw']
    exact ⟨hlinked .., Tracked.nil ..⟩
  · rw [hv, hw']
    exact ⟨hlinked .., Tracked.nil ..⟩
  -- a directory: the change on the first side, then on the other one, then the two listings
  have hfile : f'.file = f.file := by rw [followLink_file hlink]
  obtain ⟨ret, r', w₁, hset, hw₁, hcases⟩ :=
    enterDirectory_cases (F := F) (T := T) (w := w') (f := f') rfl
  rw [hw', hfile] at hset
  obtain ⟨hfrom₁, hto₁, hnote₁, hnoteTo₁⟩ : w₁.fromreq = r' ∧ w₁.toreq = w.toreq ∧
      w₁.oldfromdir = w.oldfromdir.or r.directory ∧ w₁.oldtodir = w.oldtodir := by
    rw [hw₁, hw']
    exact ⟨rfl, rfl, rfl, rfl⟩
  have hentering : ∀ after curfle visit, Tracked w.oldfromdir w.fromreq.directory
      (linkCalls F (⟨w, f, after, curfle, visit⟩ : Visited σ τ) ++
        [enteringCall F (⟨w, f, after, curfle, visit⟩ : Visited σ τ)])
      (w.oldfromdir.or r.directory) r'.directory := by
    intro after curfle visit
    refine (hlinked after curfle visit).append ?_
    rw [enteringCall, hlink, change, hset]
    exact Tracked.move ..
  obtain ⟨-, henter⟩ | ⟨-, _, w₂, hother, hcases⟩ := hcases
  · rw [hv, henter, hnote₁, hfrom₁, hnoteTo₁, hto₁]
    exact ⟨hentering .., Tracked.nil ..⟩
  have hfrom₂ : w₂.fromreq = r' :=
    (congrArg (·.2.fromreq) hother).symm.trans (enterOther_fromreq.trans hfrom₁)
  have hto₂ : w₂.toreq = (enterOther T w f').2.toreq :=
    (congrArg (·.2.toreq) hother).symm.trans (enterOther_toreq hto₁)
  have hnote₂ : w₂.oldfromdir = w.oldfromdir.or r.directory :=
    (congrArg (·.2.oldfromdir) hother).symm.trans (enterOther_oldfromdir.trans hnote₁)
  have hnoteTo₂ : w₂.oldtodir = w.oldtodir.or (toDirectory w.toreq) := by
    have hold := (congrArg (·.2.oldtodir) hother).symm.trans enterOther_oldtodir
    rwa [hto₁, hnoteTo₁] at hold
  have hotherEntering : ∀ after visit, Tracked w.oldtodir (toDirectory w.toreq)
      (otherEnteringCalls T (⟨w, f, after, f', visit⟩ : Visited σ τ))
      (w.oldtodir.or (toDirectory w.toreq)) (toDirectory (enterOther T w f').2.toreq) :=
    fun after visit => otherEntering_tracked w.oldtodir (⟨w, f, after, f', visit⟩ : Visited σ τ)
  obtain ⟨-, henter⟩ | ⟨-, g, w₃, hg, hw₃, hcases⟩ := hcases
  · rw [hv, henter, hnote₂, hfrom₂, hnoteTo₂, hto₂]
    exact ⟨hentering .., hotherEntering ..⟩
  obtain ⟨hto₃, hfrom₃⟩ := dirListing_requests (F := F) (T := T) w₂.fromreq w₂.toreq f'.existsOtherSide
  rw [← hg, hto₂] at hto₃
  rw [← hg, hto₂, hfrom₂] at hfrom₃
  have hlisting : ∀ after visit, Tracked (w.oldfromdir.or r.directory) r'.directory
      (listingCalls F T (⟨w, f, after, f', visit⟩ : Visited σ τ)) (w.oldfromdir.or r.directory)
      g.fromreq.directory := by
    intro after visit
    have hentered : enteredRequest F (⟨w, f, after, f', visit⟩ : Visited σ τ) = r' := by
      rw [enteredRequest, hlink, hset]
    rw [listingCalls, hentered, hfrom₃]
    split_ifs
    · exact Tracked.nil ..
    · exact Tracked.question ..
  have hhash := hash_tracked (T := T) (w.oldtodir.or (toDirectory w.toreq)) f'.existsOtherSide
    (enterOther T w f').2.toreq
  rw [← hto₃] at hhash
  obtain ⟨-, henter⟩ | ⟨-, henter⟩ := hcases
  all_goals
    rw [hv, henter, hw₃, hnote₂, hnoteTo₂]
    exact ⟨(hentering ..).append (hlisting ..), (hotherEntering ..).append hhash⟩

theorem explored_tracked (h : Explored F T w files vs w' pending) :
    Tracked w.oldfromdir w.fromreq.directory (vs.flatMap (visitFromCalls F T)) w'.oldfromdir
        w'.fromreq.directory ∧
      Tracked w.oldtodir (toDirectory w.toreq) (vs.flatMap (visitToCalls T)) w'.oldtodir
        (toDirectory w'.toreq) := by
  induction h with
  | refl w files => exact ⟨Tracked.nil .., Tracked.nil ..⟩
  | leave hret =>
    rw [List.flatMap_singleton, List.flatMap_singleton]
    exact visited_tracked rfl
  | pass hgo h ih =>
    obtain ⟨hfrom, hto⟩ := visited_tracked (F := F) (T := T) rfl
    exact ⟨hfrom.append ih.1, hto.append ih.2⟩

theorem explored_last (h : Explored F T w files vs w' pending) :
    w' = (vs.getLast?.map (·.after)).getD w := by
  induction h with
  | refl => rfl
  | leave => rfl
  | @pass w w' f rest pending vs hgo h ih =>
    rw [ih, List.getLast?_cons]
    cases vs.getLast? <;> rfl

end Tracking

section Setup

variable {t : WalkTransfer σ τ}

theorem size_tracked (note : Option Bytes) {toreq : Option (WalkRequest τ)} {dirhash : Option DirHash}
    (r : WalkRequest σ) (files : List WalkFile) :
    Tracked note r.directory (sizeCalls F dirhash r files) note
      (setupLoop F toreq dirhash r files).2.2.directory := by
  induction files generalizing r with
  | nil => exact Tracked.nil ..
  | cons f files ih =>
    simp only [setupLoop, sizeCalls]
    generalize lookUp dirhash (lastName f.file) f = f
    have hasked : Tracked note r.directory
        (if f.size < 0 ∧ r.isConnected = true then [question r (knownSize F r f).2.1] else []) note
        (knownSize F r f).2.1.directory := by
      unfold knownSize
      split_ifs
      · exact Tracked.question ..
      · exact Tracked.nil ..
    refine hasked.append ?_
    split_ifs
    · exact ih _
    · exact Tracked.nil ..

theorem setup_tracked (note note' : Option Bytes) (hfiles : t.files ≠ []) :
    Tracked note t.fromreq.directory (setupFromCalls F T t) note
        (setupCurrentDirectoryTransfer F T t).fromreq.directory ∧
      Tracked note' (toDirectory t.toreq) (setupToCalls T t) note'
        (toDirectory (setupCurrentDirectoryTransfer F T t).toreq) := by
  have hhash := hash_tracked (T := T) note' true t.toreq
  unfold setupFromCalls setupToCalls setupCurrentDirectoryTransfer
  simp only [hfiles, false_or, if_false]
  by_cases hfatal : (otherSide T true t.toreq).1 = GftpError.fatal.code
  · simp only [if_pos hfatal]
    exact ⟨Tracked.nil .., hhash⟩
  · simp only [if_neg hfatal]
    exact ⟨size_tracked .., hhash⟩

end Setup

section Ends

variable {w : Walk σ τ}

theorem restored_fromreq : (restoreDirectories F T w).2.fromreq =
    (w.oldfromdir.map fun dir => (gftpSetDirectory F w.fromreq (some dir)).2).getD w.fromreq := by
  have hto : ∀ w : Walk σ τ, (restoreTo T w).2.fromreq = w.fromreq := by
    intro w
    unfold restoreTo
    split <;> rfl
  have hfrom : (restoreFrom F w).2.fromreq =
      (w.oldfromdir.map fun dir => (gftpSetDirectory F w.fromreq (some dir)).2).getD w.fromreq := by
    unfold restoreFrom
    cases w.oldfromdir <;> rfl
  unfold restoreDirectories
  simp only
  split
  · exact hfrom
  · exact (hto _).trans hfrom

/-- The change back of the first side was fatal. -/
def FatalBack (F : WalkProtocol σ) (w : Walk σ τ) : Prop :=
  ∃ dir, w.oldfromdir = some dir ∧
    (gftpSetDirectory F w.fromreq (some dir)).1 = GftpError.fatal.code

theorem restored_toreq_fatal (h : FatalBack F w) : (restoreDirectories F T w).2.toreq = w.toreq := by
  obtain ⟨dir, hdir, hret⟩ := h
  simp [restoreDirectories, restoreFrom, hdir, hret]

theorem restored_toreq (h : ¬FatalBack F w) : (restoreDirectories F T w).2.toreq =
    w.toreq.map fun toreq =>
      (w.oldtodir.map fun dir => (gftpSetDirectory T toreq (some dir)).2).getD toreq := by
  have hto : ∀ w' : Walk σ τ, w'.oldtodir = w.oldtodir → w'.toreq = w.toreq →
      (restoreTo T w').2.toreq = w.toreq.map fun toreq =>
        (w.oldtodir.map fun dir => (gftpSetDirectory T toreq (some dir)).2).getD toreq := by
    intro w' hold hreq
    unfold restoreTo
    rw [hold, hreq]
    cases w.oldtodir <;> cases hw : w.toreq <;> first | rfl | exact hreq.trans hw
  unfold restoreDirectories restoreFrom
  cases hold : w.oldfromdir with
  | none =>
    have hzero : (0 : ℤ) ≠ GftpError.fatal.code := by decide
    simp only [if_neg hzero]
    exact hto w rfl rfl
  | some dir =>
    have hret : (gftpSetDirectory F w.fromreq (some dir)).1 ≠ GftpError.fatal.code :=
      fun hret => h ⟨dir, hold, hret⟩
    simp only [if_neg hret]
    exact hto _ rfl rfl

end Ends

section Restored

variable {t : WalkTransfer σ τ} {update : Bool} {fuel : ℕ} {r : Walked σ τ}

@[simp] theorem cleanup_fromreq (w : Walk σ τ) :
    (cleanupGetAllSubdirs update w).fromreq = w.fromreq := by
  unfold cleanupGetAllSubdirs
  split <;> rfl

@[simp] theorem cleanup_toreq (w : Walk σ τ) :
    (cleanupGetAllSubdirs update w).toreq = w.toreq := by
  unfold cleanupGetAllSubdirs
  split <;> rfl

/-- The calls lead a side from the directory on entry to the one behind the walk; last is the
directory behind the loop. -/
structure Led (entry : Option Bytes) (calls : List DirectoryCall) (back : Option DirectoryCall)
    (directory : Option Bytes) : Prop where
  led : ∃ last, Leads entry calls last ∧ (∀ b, back = some b → AsksBack calls last b) ∧
    directory = (back.map (·.after)).getD last

theorem Led.returned {entry directory : Option Bytes} {calls : List DirectoryCall}
    {back : Option DirectoryCall} (h : Led entry calls back directory)
    (hreturns : Returns entry calls back) : directory = entry := by
  obtain ⟨last, hleads, hback, rfl⟩ := h.led
  exact hreturns.returned hleads hback

theorem Led.returns {entry directory : Option Bytes} {calls : List DirectoryCall}
    {back : Option DirectoryCall} (h : Led entry calls back directory)
    (haway : NoReturn entry calls back) (hend : directory = entry) : Returns entry calls back := by
  obtain ⟨last, hleads, hback, rfl⟩ := h.led
  exact haway.returns hleads hback hend

/-- Where the loop has led a walk; w is the walk behind its loop. -/
structure Looped (F : WalkProtocol σ) (T : WalkProtocol τ) (fuel : ℕ) (t : WalkTransfer σ τ)
    (w : Walk σ τ) : Prop where
  fromside : Tracked none t.fromreq.directory (fromCalls F T fuel t) w.oldfromdir w.fromreq.directory
  toside : Tracked none (toDirectory t.toreq) (toCalls F T fuel t) w.oldtodir (toDirectory w.toreq)
  last : w = ((walkVisits F T fuel t).getLast?.map (·.after)).getD
    (startWalk t (setupCurrentDirectoryTransfer F T t))

namespace Looped

variable {w : Walk σ τ}

theorem fromBack_left (hend : cameToEnd (walkVisits F T fuel t) = false) :
    fromBack F T fuel t = none ∧ toBack F T fuel t = none := by
  have hfrom : fromBack F T fuel t = none := by simp [fromBack, hend]
  exact ⟨hfrom, by simp [toBack, hfrom, hend]⟩

theorem fromBack_eq (h : Looped F T fuel t w) (hend : cameToEnd (walkVisits F T fuel t) = true) :
    fromBack F T fuel t = w.oldfromdir.map fun dir =>
      ((gftpSetDirectory F w.fromreq (some dir)).1, change F w.fromreq (some dir)) := by
  have hnote : w.oldfromdir = noted (fromCalls F T fuel t) := h.fromside.note
  have hlast := h.last
  unfold fromBack
  rw [hend, ← hnote]
  cases hv : (walkVisits F T fuel t).getLast? with
  | none =>
    rw [hv] at hlast
    rw [hlast]
    rfl
  | some v =>
    rw [hv] at hlast
    have hw : w = v.after := hlast
    rw [hw]
    cases v.after.oldfromdir <;> rfl

theorem toBack_eq (h : Looped F T fuel t w) (hend : cameToEnd (walkVisits F T fuel t) = true) :
    (FatalBack F w → toBack F T fuel t = none) ∧
      (¬FatalBack F w → toBack F T fuel t =
        w.toreq.bind fun toreq => w.oldtodir.map fun dir => change T toreq (some dir)) := by
  have hnote : w.oldtodir = noted (toCalls F T fuel t) := h.toside.note
  have hfatal : (fromBack F T fuel t).map Prod.fst = some GftpError.fatal.code ↔ FatalBack F w := by
    rw [h.fromBack_eq hend, FatalBack]
    cases w.oldfromdir <;> simp
  have hlast := h.last
  unfold toBack
  refine ⟨fun hback => if_pos (hfatal.mpr hback), fun hback => ?_⟩
  rw [if_neg fun hret => hback (hfatal.mp hret), hend, ← hnote]
  cases hv : (walkVisits F T fuel t).getLast? with
  | none =>
    -- nothing was met, so nothing is noted
    rw [hv] at hlast
    have hold : w.oldtodir = none := by rw [hlast]; rfl
    rw [hold]
    cases w.toreq <;> rfl
  | some v =>
    rw [hv] at hlast
    have hw : w = v.after := hlast
    rw [hw, Option.bind_some]
    cases v.after.toreq <;> cases v.after.oldtodir <;> rfl

theorem left (h : Looped F T fuel t w) (hend : cameToEnd (walkVisits F T fuel t) = false) :
    Led t.fromreq.directory (fromCalls F T fuel t) ((fromBack F T fuel t).map Prod.snd)
        w.fromreq.directory ∧
      Led (toDirectory t.toreq) (toCalls F T fuel t) (toBack F T fuel t) (toDirectory w.toreq) := by
  obtain ⟨hfrom, hto⟩ := fromBack_left hend
  rw [hfrom, hto]
  exact ⟨⟨_, h.fromside.leads, nofun, rfl⟩, ⟨_, h.toside.leads, nofun, rfl⟩⟩

theorem restored (h : Looped F T fuel t w) (hend : cameToEnd (walkVisits F T fuel t) = true) :
    Led t.fromreq.directory (fromCalls F T fuel t) ((fromBack F T fuel t).map Prod.snd)
        (restoreDirectories F T w).2.fromreq.directory ∧
      Led (toDirectory t.toreq) (toCalls F T fuel t) (toBack F T fuel t)
        (toDirectory (restoreDirectories F T w).2.toreq) := by
  have hnote : w.oldfromdir = noted (fromCalls F T fuel t) := h.fromside.note
  have hnoteTo : w.oldtodir = noted (toCalls F T fuel t) := h.toside.note
  constructor
  · rw [restored_fromreq, h.fromBack_eq hend]
    refine ⟨_, h.fromside.leads, fun b hb => ?_, ?_⟩
    · obtain ⟨x, hx, rfl⟩ := Option.map_eq_some_iff.mp hb
      obtain ⟨dir, hdir, rfl⟩ := Option.map_eq_some_iff.mp hx
      exact ⟨rfl, dir, hnote ▸ hdir, rfl⟩
    · cases w.oldfromdir <;> rfl
  · obtain ⟨hfatal, hnot⟩ := h.toBack_eq hend
    by_cases hback : FatalBack F w
    · rw [restored_toreq_fatal hback, hfatal hback]
      exact ⟨_, h.toside.leads, nofun, rfl⟩
    · rw [restored_toreq hback, hnot hback]
      refine ⟨_, h.toside.leads, fun b hb => ?_, ?_⟩
      · obtain ⟨toreq, htoreq, hb⟩ := Option.bind_eq_some_iff.mp hb
        obtain ⟨dir, hdir, rfl⟩ := Option.map_eq_some_iff.mp hb
        rw [htoreq]
        exact ⟨rfl, dir, hnoteTo ▸ hdir, rfl⟩
      · cases w.toreq <;> cases w.oldtodir <;> rfl

end Looped

/-- The calls of a walk lead each side where it is behind the walk. -/
theorem walk_led (h : gftpGetAllSubdirs F T update fuel t = .ok r) :
    Led t.fromreq.directory (fromCalls F T fuel t) ((fromBack F T fuel t).map Prod.snd)
        r.walk.fromreq.directory ∧
      Led (toDirectory t.toreq) (toCalls F T fuel t) (toBack F T fuel t) (toDirectory r.walk.toreq) := by
  obtain ⟨hnot, -, hcases⟩ | ⟨hentered, left, e, hloop, rfl⟩ := returned_cases h
  · have hnone : walkVisits F T fuel t = [] := if_neg fun h => hnot ⟨h.1, h.2⟩
    have hfrom : fromBack F T fuel t = none := by simp [fromBack, hnone]
    have hto : toBack F T fuel t = none := by simp [toBack, hfrom, hnone]
    rw [hfrom, hto, fromCalls, toCalls, hnone]
    simp only [List.flatMap_nil, List.append_nil]
    obtain ⟨hfiles, hfromreq, htoreq⟩ | ⟨hfiles, hfromreq, htoreq⟩ := hcases
    · simp only [setupFromCalls, setupToCalls, hfiles, true_or, if_true, hfromreq, htoreq]
      exact ⟨⟨_, rfl, nofun, rfl⟩, ⟨_, rfl, nofun, rfl⟩⟩
    · obtain ⟨hsetup, hsetupTo⟩ := setup_tracked (F := F) (T := T) none none hfiles
      rw [hfromreq, htoreq]
      exact ⟨⟨_, hsetup.leads, nofun, rfl⟩, ⟨_, hsetupTo.leads, nofun, rfl⟩⟩
  · obtain ⟨s', done, pending, hrun⟩ := hentered.runs fuel
    obtain ⟨rfl, hnone, hsome⟩ := hrun.ended _ hloop
    have hexplored := hrun.explored
    rw [← hentered.visits] at hexplored hnone hsome
    obtain ⟨hsetup, hsetupTo⟩ := setup_tracked (F := F) (T := T) none none hentered.selected
    obtain ⟨hfrom, hto⟩ := explored_tracked hexplored
    have hlooped : Looped F T fuel t e.walk :=
      ⟨hsetup.append hfrom, hsetupTo.append hto, explored_last hexplored⟩
    cases left with
    | none =>
      have hend : cameToEnd (walkVisits F T fuel t) = true := by
        refine List.all_eq_true.mpr fun v hv => ?_
        rw [(hnone rfl).2 v hv]
        rfl
      simpa only [leaveWalk, cleanup_fromreq, cleanup_toreq] using hlooped.restored hend
    | some ret =>
      have hend : cameToEnd (walkVisits F T fuel t) = false := by
        obtain ⟨v, hv, hleft⟩ := hsome ret rfl
        refine List.all_eq_false.mpr ⟨v, hv, ?_⟩
        rw [hleft]
        nofun
      simpa only [leaveWalk, cleanup_fromreq, cleanup_toreq] using hlooped.left hend

/-- Each side that is connected behind the walk is in the directory on entry when its calls bring it
back: when a change back is made and does what it is asked, and no question in front of the first
change has moved the side, or when none is made and no call has moved it. Otherwise the side is there
only by accident. -/
theorem directories_restored_iff (h : gftpGetAllSubdirs F T update fuel t = .ok r) :
    (SidesReturn F T fuel t r → Restored t r) ∧
      (NoAccident F T fuel t → (Restored t r ↔ SidesReturn F T fuel t r)) := by
  obtain ⟨hfrom, hto⟩ := walk_led h
  have hside : ∀ toreq, r.walk.toreq = some toreq → toDirectory r.walk.toreq = toreq.directory := by
    intro toreq htoreq
    rw [htoreq]
    rfl
  have henough : SidesReturn F T fuel t r → Restored t r := by
    intro hreturn
    refine ⟨fun hconnected => hfrom.returned (hreturn.1 hconnected), fun toreq htoreq hconnected => ?_⟩
    rw [← hside toreq htoreq]
    exact hto.returned (hreturn.2 toreq htoreq hconnected)
  refine ⟨henough, fun haccident => ⟨fun hrestored => ?_, henough⟩⟩
  refine ⟨fun hconnected => hfrom.returns haccident.1 (hrestored.1 hconnected),
    fun toreq htoreq hconnected => hto.returns haccident.2 ?_⟩
  rw [hside toreq htoreq]
  exact hrestored.2 toreq htoreq hconnected

/-- A site with the directory /d selected. -/
def directorySelected : WalkTransfer Unit Unit where
  fromreq := ⟨⟨-1, false, true⟩, some (ascii "/"), false, ()⟩
  toreq := none
  files := [⟨ascii "d", none, 0, 0, 0o040700, 1, 2, false⟩]
  numfiles := 0
  numdirs := 0

/-- Changes of directory succeed, and listings have the given result and no entry. -/
def listingProtocol (ret : ℤ) : WalkProtocol Unit where
  listFiles r := (⟨ret, []⟩, r)
  getFileSize := none
  statFilename := none
  chdir := some fun r directory => (0, { r with directory := some directory })

def readable : WalkProtocol Unit := listingProtocol 0

def unreadable : WalkProtocol Unit := listingProtocol GftpError.retryable.code

theorem readable_run : ∃ r, gftpGetAllSubdirs readable readable false 2 directorySelected = .ok r ∧
    r.walk.toreq = none :=
  ⟨_, rfl, rfl⟩

theorem unreadable_run : ∃ r,
    gftpGetAllSubdirs unreadable unreadable false 2 directorySelected = .ok r ∧
      r.walk.fromreq.isConnected = true ∧ r.walk.fromreq.directory = some (ascii "/d") :=
  ⟨_, rfl, rfl, rfl⟩

theorem unreadable_calls :
    fromCalls unreadable unreadable 2 directorySelected =
      [⟨some (some (ascii "/d")), some (ascii "/"), some (ascii "/d")⟩,
        ⟨none, some (ascii "/d"), some (ascii "/d")⟩] ∧
      fromBack unreadable unreadable 2 directorySelected = none ∧
      toCalls unreadable unreadable 2 directorySelected = [] ∧
      toBack unreadable unreadable 2 directorySelected = none :=
  ⟨rfl, rfl, rfl, rfl⟩

theorem unreadable_noAccident : NoAccident unreadable unreadable 2 directorySelected := by
  obtain ⟨hcalls, hback, hcallsTo, hbackTo⟩ := unreadable_calls
  refine ⟨⟨?_, ?_⟩, ⟨?_, ?_⟩⟩
  · rw [hcalls]
    have haway : some (ascii "/d") ≠ directorySelected.fromreq.directory := by decide
    exact List.forall_mem_cons.mpr ⟨.inr haway, List.forall_mem_singleton.mpr (.inr haway)⟩
  · rw [hback]
    exact nofun
  · rw [hcallsTo]
    exact nofun
  · rw [hbackTo]
    exact nofun

/-- The change into a directory is taken back behind a listing that succeeds, and not behind one that
fails. -/
theorem selected_directory_restored :
    (∃ r, gftpGetAllSubdirs readable readable false 2 directorySelected = .ok r ∧
      Restored directorySelected r) ∧
    ∃ r, gftpGetAllSubdirs unreadable unreadable false 2 directorySelected = .ok r ∧
      ¬Restored directorySelected r := by
  constructor
  · obtain ⟨r, hr, hto⟩ := readable_run
    have hreturn : SidesReturn readable readable 2 directorySelected r := by
      refine ⟨fun _ => ⟨rfl, nofun, rfl⟩, fun toreq htoreq => ?_⟩
      rw [hto] at htoreq
      cases htoreq
    exact ⟨r, hr, (directories_restored_iff hr).1 hreturn⟩
  · obtain ⟨r, hr, hconnected, -⟩ := unreadable_run
    obtain ⟨hcalls, hback, -⟩ := unreadable_calls
    refine ⟨r, hr, ?_⟩
    rw [(directories_restored_iff hr).2 unreadable_noAccident]
    intro hreturn
    have hkeeps := hreturn.1 hconnected
    rw [hcalls, hback] at hkeeps
    have hchange : some (ascii "/d") = some (ascii "/") := hkeeps _ List.mem_cons_self
    exact absurd hchange (by decide)

/-- The listing fails in the directory entered, and the side stays there. -/
theorem unreadable_directory_kept :
    ¬ ∀ (F T : WalkProtocol Unit) (update : Bool) (fuel : ℕ) (t : WalkTransfer Unit Unit)
      (r : Walked Unit Unit), gftpGetAllSubdirs F T update fuel t = .ok r → Restored t r := by
  intro h
  obtain ⟨r, hr, hconnected, hdir⟩ := unreadable_run
  have hentry := (h unreadable unreadable false 2 directorySelected r hr).1 hconnected
  rw [hdir] at hentry
  exact absurd hentry (by decide)

end Restored

end Gftp.DirectoryRestores
