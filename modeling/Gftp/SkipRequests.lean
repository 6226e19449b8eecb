import Gftp.TransferRun

/-!
Requests to skip a file, against what the thread passes over. Beside the world stand the
files the user asked to skip while they were not done, and the files the thread passed
over as skipped. The flag skip_file outlives the file it was set for, and a request on a
file that has an action already is dropped; in a run without these accidents the files
skipped are the files asked for.
-/

namespace Gftp.SkipRequests

open CopyLoop Protocol Runs TransferRun TransferState

structure SkipWorld where
  world : World
  asked : ℕ → Bool
  skipped : ℕ → Bool

/-- A file that the user decided to skip before the transfer was started counts as asked for. -/
def SkipWorld.start (files : ℕ → TransFile) (numFiles : ℕ) (totalBytes : ℤ) (conn : Bool) :
    SkipWorld :=
  ⟨.start files numFiles totalBytes conn, fun i => (files i).transferAction = .skip, fun _ => false⟩

/-- The files asked for, when something happens in the world. -/
def noteAsked (w : World) (a : TransAction) (asked : ℕ → Bool) : ℕ → Bool :=
  match a with
  | .skipFile i => if (w.t.files i).transferDone then asked else Function.update asked i true
  | _ => asked

/-- The current file is to be skipped: by its action, or since its transfer was interrupted
with skip_file. -/
def skips (w : World) : Bool := w.t.file.transferAction = .skip || w.t.cancel && w.t.skipFile

/-- The files passed over as skipped. -/
def noteSkipped (w : World) (a : TransAction) (skipped : ℕ → Bool) : ℕ → Bool :=
  match a with
  | .pass => Function.update skipped w.cur (skips w)
  | .retry retries (.ok _) =>
      if (retries = 0 ∨ w.t.currentFileRetries ≤ retries) ∧ w.t.skipFile then
        Function.update skipped w.cur true
      else skipped
  | _ => skipped

inductive SkipStep : SkipWorld → TransAction → SkipWorld → Prop
  | step {s : SkipWorld} {a : TransAction} {w : World} (h : TransStep s.world a w) :
      SkipStep s a ⟨w, noteAsked s.world a s.asked, noteSkipped s.world a s.skipped⟩

/-- Of the files behind the current one, and of all when the thread has ended, those are
skipped that were asked for. -/
def SkipLaw (s : SkipWorld) : Prop :=
  ∀ i, i < s.world.t.numFiles → i < s.world.cur ∨ s.world.worker = .exited →
    ((s.world.t.files i).transferAction = .skip ∨ s.skipped i = true ↔ s.asked i = true)

/-- The attempt at a file that has failed before gets as far as asking where to resume it. -/
def resumes (a : Answers) (t : Transfer) : Prop :=
  a.connect = .ok () ∧ t.file.isDir = false ∧ (t.file.size = 0 → ∃ n, a.size = .ok n) ∧
    t.file.retryTransfer = true

/-- A request finds a file that is not done without an action or asked for already, and one
that is done with an action; skip_file is set at a reconnection only for the current file,
whose action is not the one to skip when it is not set; a file with the action to skip is
resumed only while the flags are set, and a stop request does not clear them then. -/
def SkipFit (s : SkipWorld) : TransAction → Prop
  | .skipFile i =>
      ((s.world.t.files i).transferDone = false →
        (s.world.t.files i).transferAction = .unset ∨ s.asked i = true) ∧
      ((s.world.t.files i).transferDone = true → (s.world.t.files i).transferAction ≠ .unset)
  | .retry retries (.ok _) =>
      retries = 0 ∨ s.world.t.currentFileRetries ≤ retries →
        if s.world.t.skipFile then s.asked s.world.cur = true
        else s.world.t.file.transferAction ≠ .skip
  | .begin a _ => s.world.t.file.transferAction = .skip → resumes a s.world.t →
      s.world.t.cancel = true ∧ s.world.t.skipFile = true
  | .cancelTransfer => s.asked s.world.cur = true → s.world.t.file.transferAction = .skip
  | _ => True

/-- The thread stands where a file that was asked for may have another action, as long as the
flags are set for it. -/
def busy : Worker → Bool
  | .copying _ _ => true
  | .attempted _ => true
  | .passing _ => true
  | _ => false

/-- What is known of the requests between two steps. -/
structure SkipInv (s : SkipWorld) : Prop where
  passed : ∀ i, i < s.world.t.numFiles → i < s.world.cur →
    ((s.world.t.files i).transferAction = .skip ∨ s.skipped i = true ↔ s.asked i = true)
  ahead : ∀ i, s.world.cur ≤ i → s.skipped i = false
  unasked : ∀ i, s.world.cur ≤ i → (s.world.t.files i).transferAction = .skip → s.asked i = true
  waiting : ∀ i, s.world.cur < i → s.asked i = true → (s.world.t.files i).transferAction = .skip
  current : s.asked s.world.cur = true → s.world.t.file.transferAction = .skip ∨
    busy s.world.worker = true ∧ s.world.t.cancel = true ∧ s.world.t.skipFile = true
  flagged : s.world.worker ≠ .passed → s.world.t.cancel = true → s.world.t.skipFile = true →
    s.asked s.world.cur = true

/-- What an attempt leaves of the places, the flags and the actions. -/
structure Kept (t t' : Transfer) : Prop where
  curfle : t'.curfle = t.curfle
  numFiles : t'.numFiles = t.numFiles
  cancel : t'.cancel = t.cancel
  skipFile : t'.skipFile = t.skipFile
  others : ∀ i, i ≠ t.curfle → (t'.files i).transferAction = (t.files i).transferAction
  action : t'.file.transferAction = t.file.transferAction ∨ t'.file.transferAction = .resume

section Attempts

variable {a : Answers} {t t' t'' : Transfer} {out : Option GftpError} {attempt : Attempt}

theorem Kept.refl (t : Transfer) : Kept t t := ⟨rfl, rfl, rfl, rfl, fun _ _ => rfl, .inl rfl⟩

theorem Kept.trans (h : Kept t t') (h' : Kept t' t'') : Kept t t'' where
  curfle := h'.curfle.trans h.curfle
  numFiles := h'.numFiles.trans h.numFiles
  cancel := h'.cancel.trans h.cancel
  skipFile := h'.skipFile.trans h.skipFile
  others i hi := (h'.others i (h.curfle.symm ▸ hi)).trans (h.others i hi)
  action := by
    rcases h'.action with hsame | hresume
    · rw [hsame]
      exact h.action
    · exact .inr hresume

/-- Only the current file is set, to one with the same action or the one to resume. -/
theorem kept_setFile {f : TransFile} (t : Transfer)
    (hf : f.transferAction = t.file.transferAction ∨ f.transferAction = .resume) :
    Kept t (t.setFile f) := by
  refine ⟨rfl, rfl, rfl, rfl, fun i hi => ?_, ?_⟩
  · rw [setFile_files_ne hi]
  · rw [setFile_file]
    exact hf

theorem Kept.of_fields (h : Kept t t') (hcurfle : t''.curfle = t'.curfle)
    (hnum : t''.numFiles = t'.numFiles) (hcancel : t''.cancel = t'.cancel)
    (hskip : t''.skipFile = t'.skipFile) (hfiles : t''.files = t'.files) : Kept t t'' := by
  have hfile : t''.file = t'.file := by rw [Transfer.file, hfiles, hcurfle, Transfer.file]
  refine ⟨hcurfle.trans h.curfle, hnum.trans h.numFiles, hcancel.trans h.cancel,
    hskip.trans h.skipFile, fun i hi => ?_, ?_⟩
  · rw [hfiles]
    exact h.others i hi
  · rw [hfile]
    exact h.action

theorem askSize_kept (h : askSize a t = (t', out)) : Kept t t' := by
  rcases askSize_cases h with rfl | ⟨size, _, rfl⟩
  · exact .refl t'
  · exact (kept_setFile t (f := { t.file with size := size }) (.inl rfl)).of_fields rfl rfl rfl rfl rfl

theorem askStart_kept (h : askStart a t = (t', out)) : Kept t t' := by
  rcases askStart_cases h with rfl | ⟨_, rfl⟩
  · exact .refl t'
  · exact kept_setFile t (.inr rfl)

theorem askSize_file (h : askSize a t = (t', out)) :
    t'.file.retryTransfer = t.file.retryTransfer ∧
      t'.file.transferAction = t.file.transferAction := by
  rcases askSize_cases h with rfl | ⟨_, _, rfl⟩
  · exact ⟨rfl, rfl⟩
  · simp [Transfer.file, Transfer.setFile]

theorem transFileOrDir_action (h : transFileOrDir a t = (t', attempt)) (hnot : ¬ resumes a t) :
    t'.file.transferAction = t.file.transferAction := by
  unfold transFileOrDir at h
  split at h
  · obtain ⟨rfl, -⟩ := Prod.mk.inj h
    rfl
  · rename_i hconnect
    split at h
    · obtain ⟨rfl, -⟩ := Prod.mk.inj h
      rfl
    · rename_i hfile
      unfold startFile at h
      split at h
      · rename_i hsize
        obtain ⟨rfl, -⟩ := Prod.mk.inj h
        exact (askSize_file hsize).2
      · rename_i t₁ hsize
        obtain ⟨hretry, haction⟩ := askSize_file hsize
        have hno : t.file.retryTransfer ≠ true := by
          intro hr
          refine hnot ⟨hconnect, Bool.not_eq_true _ ▸ hfile, fun hzero => ?_, hr⟩
          rw [askSize, if_pos hzero] at hsize
          split at hsize
          · cases hsize
          · exact ⟨_, ‹_›⟩
        have hstart : askStart a t₁ = (t₁, none) := if_neg (hretry ▸ hno)
        rw [hstart] at h
        simp only at h
        split at h <;>
        · obtain ⟨rfl, -⟩ := Prod.mk.inj h
          exact haction

theorem transFileOrDir_kept (h : transFileOrDir a t = (t', attempt)) : Kept t t' := by
  unfold transFileOrDir at h
  split at h
  · obtain ⟨rfl, -⟩ := Prod.mk.inj h
    exact .refl t
  · split at h
    · obtain ⟨rfl, -⟩ := Prod.mk.inj h
      exact ⟨rfl, rfl, rfl, rfl, fun _ _ => rfl, .inl rfl⟩
    · unfold startFile at h
      split at h
      · rename_i hsize
        obtain ⟨rfl, -⟩ := Prod.mk.inj h
        exact askSize_kept hsize
      · rename_i hsize
        split at h
        · rename_i hstart
          obtain ⟨rfl, -⟩ := Prod.mk.inj h
          exact (askSize_kept hsize).trans (askStart_kept hstart)
        · rename_i hstart
          have hkept := (askSize_kept hsize).trans (askStart_kept hstart)
          split at h <;>
          · obtain ⟨rfl, -⟩ := Prod.mk.inj h
            exact hkept.of_fields rfl rfl rfl rfl rfl

end Attempts

section Requests

variable {t : Transfer} {i : ℕ}

theorem reconnected_pass_flags (h : t.skipFile = true) :
    (reconnected t).numFiles = t.numFiles ∧ (reconnected t).cancel = false := by
  have hpass : ∀ {p q : Transfer}, (if t.skipFile = true then p else q) = p := if_pos h
  unfold reconnected
  rw [hpass]
  exact ⟨rfl, rfl⟩

theorem reconnected_mark_flags (h : t.skipFile = false) :
    (reconnected t).numFiles = t.numFiles ∧ (reconnected t).skipFile = false := by
  have hmark : ∀ {p q : Transfer}, (if t.skipFile = true then p else q) = q :=
    if_neg (by simp [h])
  unfold reconnected
  rw [hmark]
  exact ⟨rfl, h⟩

theorem skipFileTransfer_unset (h : (t.files i).transferAction = .unset) :
    (skipFileTransfer i t).files =
        Function.update t.files i { t.files i with transferAction := .skip } ∧
      (skipFileTransfer i t).numFiles = t.numFiles ∧
      (skipFileTransfer i t).curfle = t.curfle := by
  rw [skipFileTransfer, if_pos h]
  by_cases hcur : i = t.curfle
  · simp only [if_pos hcur, true_and]
  · simp only [if_neg hcur]
    split <;> exact ⟨rfl, rfl, rfl⟩

theorem skipFileTransfer_flags (h : i ≠ t.curfle) :
    (skipFileTransfer i t).cancel = t.cancel ∧
      (skipFileTransfer i t).skipFile = t.skipFile := by
  unfold skipFileTransfer
  split
  · simp only [if_neg h]
    split <;> exact ⟨rfl, rfl⟩
  · exact ⟨rfl, rfl⟩

end Requests

namespace SkipInv

variable {s : SkipWorld} {w' : World}

theorem start (files : ℕ → TransFile) (numFiles : ℕ) (totalBytes : ℤ) (conn : Bool) :
    SkipInv (.start files numFiles totalBytes conn) := by
  refine ⟨?_, fun _ _ => rfl, ?_, ?_, ?_, ?_⟩
  · exact fun i _ hi => absurd hi (Nat.not_lt_zero i)
  · exact fun i _ hskip => decide_eq_true hskip
  · exact fun i _ hasked => of_decide_eq_true hasked
  · exact fun hasked => .inl (of_decide_eq_true hasked)
  · exact fun _ hcancel => absurd hcancel (by simp [SkipWorld.start, World.start])

/-- The thread goes on; places, flags and actions are as they were. -/
theorem frame (h : SkipInv s) (hkept : ∀ i, (w'.t.files i).transferAction =
      (s.world.t.files i).transferAction) (hnum : w'.t.numFiles = s.world.t.numFiles)
    (hcur : w'.cur = s.world.cur) (hcancel : w'.t.cancel = s.world.t.cancel)
    (hskip : w'.t.skipFile = s.world.t.skipFile)
    (hbusy : busy s.world.worker = true → s.world.t.cancel = true → busy w'.worker = true)
    (hpassed : s.world.worker = .passed → w'.worker = .passed ∨ s.world.t.cancel = false ∨
      s.world.t.skipFile = false) : SkipInv ⟨w', s.asked, s.skipped⟩ := by
  have hfile : w'.t.file.transferAction = s.world.t.file.transferAction := by
    show (w'.t.files w'.cur).transferAction = _
    rw [hcur, hkept]
    rfl
  constructor <;> simp only [hnum, hcur, hkept, hfile, hcancel, hskip]
  · exact h.passed
  · exact h.ahead
  · exact h.unasked
  · exact h.waiting
  · exact fun hasked => (h.current hasked).imp_right fun ⟨hold, hc, hs⟩ => ⟨hbusy hold hc, hc, hs⟩
  · intro hne hc hs
    refine h.flagged ?_ hc hs
    intro hold
    rcases hpassed hold with hp | hc' | hs'
    · exact hne hp
    · simp [hc] at hc'
    · simp [hs] at hs'

theorem finish (h : SkipInv s) (hidle : busy s.world.worker = false)
    (hpassed : s.world.worker = .passed → s.world.t.skipFile = false) :
    SkipInv ⟨s.world.finish, s.asked, s.skipped⟩ :=
  h.frame (fun _ => rfl) rfl rfl rfl rfl (fun hb => by simp [hidle] at hb)
    (fun hp => .inr (.inr (hpassed hp)))

theorem setFile_action {t : Transfer} {f : TransFile}
    (hf : f.transferAction = t.file.transferAction) (i : ℕ) :
    ((t.setFile f).files i).transferAction = (t.files i).transferAction := by
  by_cases hi : i = t.curfle
  · subst hi
    exact (congrArg TransFile.transferAction (Function.update_self ..)).trans hf
  · rw [setFile_files_ne hi]

theorem endAttempt_action (ret : ℤ) (preserve : Except GftpError Unit) (t : Transfer) (i : ℕ) :
    ((endAttempt ret preserve t).1.files i).transferAction = (t.files i).transferAction := by
  unfold endAttempt
  split
  · rfl
  · exact setFile_action (f := { t.file with retryTransfer := true }) rfl i

theorem endAttempt_fields (ret : ℤ) (preserve : Except GftpError Unit) (t : Transfer) :
    (endAttempt ret preserve t).1.numFiles = t.numFiles ∧
      (endAttempt ret preserve t).1.curfle = t.curfle ∧
      (endAttempt ret preserve t).1.cancel = t.cancel ∧
      (endAttempt ret preserve t).1.skipFile = t.skipFile := by
  unfold endAttempt
  split <;> exact ⟨rfl, rfl, rfl, rfl⟩

theorem ended {w : World} (h : SkipInv ⟨w, s.asked, s.skipped⟩) (hbusy : w.worker ≠ .passed)
    (ret : ℤ) (preserve : Except GftpError Unit) (complete : Bool) :
    SkipInv ⟨w.ended ret preserve complete, s.asked, s.skipped⟩ := by
  obtain ⟨hnum, hcur, hcancel, hskip⟩ := endAttempt_fields ret preserve w.t
  exact h.frame (endAttempt_action ret preserve w.t) hnum hcur hcancel hskip (fun _ _ => rfl)
    (fun hp => absurd hp hbusy)

theorem begin {a : Answers} {preserve : Except GftpError Unit} (h : SkipInv s)
    (hw : s.world.worker = .begun) (hfit : SkipFit s (.begin a preserve)) :
    SkipInv ⟨s.world.begin a preserve, s.asked, s.skipped⟩ := by
  cases hbegan : transFileOrDir a s.world.t with
  | mk t attempt =>
    have hkept := transFileOrDir_kept hbegan
    have hcur : t.curfle = s.world.cur := hkept.curfle
    -- a file that was asked for keeps its action, or the flags are set for it
    have hbusy : ∀ w : World, w.t = t → busy w.worker = true → w.worker ≠ .passed →
        SkipInv ⟨w, s.asked, s.skipped⟩ := by
      rintro w rfl hb hne
      have hplace : w.cur = s.world.cur := hcur
      have hactions : ∀ i, i ≠ s.world.cur →
          (w.t.files i).transferAction = (s.world.t.files i).transferAction := hkept.others
      constructor <;> simp only [hplace, hkept.numFiles, hkept.cancel, hkept.skipFile]
      · intro i hnum hi
        rw [hactions i (Nat.ne_of_lt hi)]
        exact h.passed i hnum hi
      · exact h.ahead
      · intro i hi hskip
        by_cases hc : i = s.world.cur
        · subst hc
          have hfile : w.t.file.transferAction = .skip := by
            show (w.t.files w.cur).transferAction = _
            rw [hplace]
            exact hskip
          rcases hkept.action with hsame | hresume
          · exact h.unasked _ hi (hsame ▸ hfile)
          · rw [hresume] at hfile
            simp at hfile
        · exact h.unasked i hi (hactions i hc ▸ hskip)
      · intro i hi hasked
        rw [hactions i (Nat.ne_of_gt hi)]
        exact h.waiting i hi hasked
      · intro hasked
        have hskip := (h.current hasked).resolve_right fun hold => by simp [hw, busy] at hold
        by_cases hresumes : resumes a s.world.t
        · exact .inr ⟨hb, hfit hskip hresumes⟩
        · exact .inl ((transFileOrDir_action hbegan hresumes).trans hskip)
      · exact fun _ => h.flagged (by simp [hw])
    unfold World.begin
    rw [hbegan]
    cases attempt with
    | refused ret => exact hbusy _ rfl rfl (by simp)
    | ended ret =>
      have hstarted := hbusy { s.world.started t with worker := .attempted ret } rfl rfl (by simp)
      exact hstarted.ended (by simp) ret preserve true
    | copying c => exact hbusy _ rfl rfl (by simp)

theorem block {numTrans ret : Except GftpError ℕ} {c c' : CopyState} {resets : Bool}
    {fromEnd toEnd preserve : Except GftpError Unit} (h : SkipInv s)
    (hw : s.world.worker = .copying numTrans c) :
    SkipInv ⟨s.world.block c' ret resets fromEnd toEnd preserve, s.asked, s.skipped⟩ := by
  have hne : s.world.worker ≠ .passed := by simp [hw]
  unfold World.block
  split
  · refine h.frame ?_ ?_ ?_ ?_ ?_ (fun _ _ => rfl) (fun hp => absurd hp hne)
    · intro i
      cases resets <;> rfl
    · cases resets <;> rfl
    · cases resets <;> rfl
    · cases resets <;> rfl
    · cases resets <;> rfl
  · have hcount : SkipInv ⟨{ s.world with
        delivered := Function.update s.world.delivered s.world.cur
          (s.world.offset s.world.cur + c'.accepted.length) }, s.asked, s.skipped⟩ :=
      h.frame (fun _ => rfl) rfl rfl rfl rfl (fun hb _ => hb) (fun hp => absurd hp hne)
    exact hcount.ended hne _ _ _

/-- The thread goes to the next file: no request for it has been noted in the flags. -/
theorem next {t : Transfer} {worker : Worker} {marked : ℕ → Bool} {b : Bool} (h : SkipInv s)
    (hfiles : ∀ i, (t.files i).transferAction = (s.world.t.files i).transferAction)
    (hnum : t.numFiles = s.world.t.numFiles) (hcur : t.curfle = s.world.cur + 1)
    (hflags : worker ≠ .passed → t.cancel = true → t.skipFile = false)
    (hpassed : s.world.t.file.transferAction = .skip ∨ b = true ↔ s.asked s.world.cur = true) :
    SkipInv ⟨{ s.world with t := t, worker := worker, marked := marked }, s.asked,
      Function.update s.skipped s.world.cur b⟩ := by
  have hplace : World.cur { s.world with t := t, worker := worker, marked := marked } =
    s.world.cur + 1 := hcur
  have hfile : t.file.transferAction = (s.world.t.files (s.world.cur + 1)).transferAction := by
    rw [Transfer.file, hcur, hfiles]
  constructor <;> simp only [hplace, hfiles, hnum, hfile]
  · intro i hi hlow
    rcases Nat.lt_succ_iff_lt_or_eq.mp hlow with hlow | rfl
    · rw [Function.update_of_ne (Nat.ne_of_lt hlow)]
      exact h.passed i hi hlow
    · rw [Function.update_self]
      exact hpassed
  · intro i hi
    rw [Function.update_of_ne (Nat.ne_of_gt hi)]
    exact h.ahead i (Nat.le_of_succ_le hi)
  · exact fun i hi => h.unasked i (Nat.le_of_succ_le hi)
  · exact fun i hi => h.waiting i (Nat.lt_of_succ_lt hi)
  · exact fun hasked => .inl (h.waiting _ (Nat.lt_succ_self _) hasked)
  · intro hw hcancel hskip
    rw [hflags hw hcancel] at hskip
    cases hskip

/-- The file that skip_file was set for is passed over, or the file is marked. -/
theorem reconnected {t : Transfer} {marked : ℕ → Bool} {skipped : ℕ → Bool} (h : SkipInv s)
    (hidle : busy s.world.worker = false) (hfiles : t.files = s.world.t.files)
    (hnum : t.numFiles = s.world.t.numFiles) (hcur : t.curfle = s.world.cur)
    (hskip : t.skipFile = s.world.t.skipFile)
    (hfit : if s.world.t.skipFile then s.asked s.world.cur = true
      else s.world.t.file.transferAction ≠ .skip)
    (hskipped : skipped = if s.world.t.skipFile then Function.update s.skipped s.world.cur true
      else s.skipped) :
    SkipInv ⟨{ s.world with
      t := reconnected t
      worker := .loop
      marked := marked }, s.asked, skipped⟩ := by
  subst hskipped
  by_cases hflag : s.world.t.skipFile = true
  · rw [if_pos hflag] at hfit ⊢
    obtain ⟨hnewFiles, hnewCur, -, -⟩ := reconnected_pass (hskip.trans hflag)
    obtain ⟨hnewNum, hnewCancel⟩ := reconnected_pass_flags (hskip.trans hflag)
    refine h.next ?_ (hnewNum.trans hnum) (hnewCur.trans (congrArg (· + 1) hcur)) ?_ ?_
    · intro i
      rw [hnewFiles, hfiles]
    · intro _ hcancel
      rw [hnewCancel] at hcancel
      cases hcancel
    · simp [hfit]
  · rw [if_neg hflag] at hfit ⊢
    have hclear : s.world.t.skipFile = false := Bool.not_eq_true _ ▸ hflag
    obtain ⟨hnewFiles, hnewCur, -, -⟩ := reconnected_mark (hskip.trans hclear)
    obtain ⟨hnewNum, hnewSkip⟩ := reconnected_mark_flags (hskip.trans hclear)
    have hunasked : s.asked s.world.cur ≠ true := by
      intro hasked
      rcases h.current hasked with hact | ⟨hb, -⟩
      · exact hfit hact
      · simp [hidle] at hb
    have hothers : ∀ i, i ≠ s.world.cur → ((TransferState.reconnected t).files i).transferAction =
        (s.world.t.files i).transferAction := by
      intro i hi
      rw [hnewFiles, hcur, Function.update_of_ne hi, hfiles]
    have hplace : (TransferState.reconnected t).curfle = s.world.cur := hnewCur.trans hcur
    have hfile : (TransferState.reconnected t).file.transferAction = .resume := by
      rw [Transfer.file, hnewFiles, hnewCur, Function.update_self]
    refine ⟨?_, ?_, ?_, ?_, ?_, ?_⟩
    · intro i hi hlow
      have hlow' : i < s.world.cur := hplace ▸ hlow
      simp only [hothers i (Nat.ne_of_lt hlow')]
      exact h.passed i (by rw [← hnum, ← hnewNum]; exact hi) hlow'
    · exact fun i hi => h.ahead i (hplace ▸ hi)
    · intro i hi hact
      by_cases hc : i = s.world.cur
      · subst hc
        rw [Transfer.file, hplace] at hfile
        simp only [hfile] at hact
        cases hact
      · exact h.unasked i (hplace ▸ hi) (hothers i hc ▸ hact)
    · intro i hi hasked
      have hi' : s.world.cur < i := hplace ▸ hi
      simp only [hothers i (Nat.ne_of_gt hi')]
      exact h.waiting i hi' hasked
    · exact fun hasked => absurd (hplace ▸ hasked) hunasked
    · intro _ _ hset
      rw [hnewSkip] at hset
      cases hset

theorem retry {ret retries : ℤ} {connect : Except GftpError Unit} (h : SkipInv s)
    (hw : s.world.worker = .retrying ret) (hfit : SkipFit s (.retry retries connect)) :
    SkipInv ⟨s.world.retry ret retries connect, s.asked,
      noteSkipped s.world (.retry retries connect) s.skipped⟩ := by
  have hidle : busy s.world.worker = false := by simp [hw, busy]
  have hne : s.world.worker ≠ .passed := by simp [hw]
  unfold World.retry
  split
  · rename_i htries
    cases connect with
    | ok u => exact h.reconnected hidle rfl rfl rfl rfl (hfit htries) (by simp [noteSkipped, htries])
    | error e =>
      simp only
      split
      · exact h.frame (fun _ => rfl) rfl rfl rfl rfl (fun hb => by simp [hidle] at hb)
          (fun hp => absurd hp hne)
      · exact h.frame (fun _ => rfl) rfl rfl rfl rfl (fun hb => by simp [hidle] at hb)
          (fun hp => absurd hp hne)
  · rename_i htries
    have hsame : noteSkipped s.world (.retry retries connect) s.skipped = s.skipped := by
      cases connect with
      | ok u => exact if_neg fun hboth => htries hboth.1
      | error e => rfl
    rw [hsame]
    exact h.finish hidle (fun hp => absurd hp hne)

theorem pass {ret : ℤ} (h : SkipInv s) (hw : s.world.worker = .passing ret) :
    SkipInv ⟨{ s.world with t := nextFileInTrans s.world.t, worker := .passed }, s.asked,
      Function.update s.skipped s.world.cur (skips s.world)⟩ := by
  refine h.next ?_ rfl rfl (fun hne => absurd rfl hne) ?_
  · exact setFile_action (f := { s.world.t.file with transferDone := true }) rfl
  · have hcur := h.unasked s.world.cur (Nat.le_refl _)
    have hflagged := h.flagged (by simp [hw])
    simp only [skips, Bool.or_eq_true, Bool.and_eq_true, decide_eq_true_eq]
    constructor
    · rintro (hact | hact | ⟨hcancel, hskip⟩)
      · exact hcur hact
      · exact hcur hact
      · exact hflagged hcancel hskip
    · intro hasked
      rcases h.current hasked with hact | ⟨-, hflags⟩
      · exact .inl hact
      · exact .inr (.inr hflags)

theorem request {i : ℕ} (h : SkipInv s)
    (hunset : (s.world.t.files i).transferAction = .unset) :
    SkipInv ⟨{ s.world with t := skipFileTransfer i s.world.t },
      Function.update s.asked i true, s.skipped⟩ := by
  obtain ⟨hfiles, hnum, hcur⟩ := skipFileTransfer_unset hunset
  have hplace : World.cur { s.world with t := skipFileTransfer i s.world.t } = s.world.cur := hcur
  have hfile : (skipFileTransfer i s.world.t).file =
      (skipFileTransfer i s.world.t).files s.world.cur := by rw [Transfer.file, hcur]; rfl
  have hself : ((skipFileTransfer i s.world.t).files i).transferAction = .skip := by
    rw [hfiles, Function.update_self]
  have hact : ∀ {j}, j ≠ i → ((skipFileTransfer i s.world.t).files j).transferAction =
      (s.world.t.files j).transferAction := by
    intro j hj
    rw [hfiles, Function.update_of_ne hj]
  have hasked : ∀ {j}, j ≠ i → Function.update s.asked i true j = s.asked j :=
    fun hj => Function.update_of_ne hj ..
  have hflags : s.world.cur ≠ i → (skipFileTransfer i s.world.t).cancel = s.world.t.cancel ∧
      (skipFileTransfer i s.world.t).skipFile = s.world.t.skipFile :=
    fun hi => skipFileTransfer_flags hi.symm
  constructor <;> simp only [hplace, hnum, hfile]
  · intro j hj hlow
    by_cases hji : j = i
    · subst hji
      simp [hself]
    · rw [hact hji, hasked hji]
      exact h.passed j hj hlow
  · exact h.ahead
  · intro j hj hskip
    by_cases hji : j = i
    · subst hji
      exact Function.update_self ..
    · rw [hact hji] at hskip
      rw [hasked hji]
      exact h.unasked j hj hskip
  · intro j hj hset
    by_cases hji : j = i
    · subst hji
      exact hself
    · rw [hasked hji] at hset
      rw [hact hji]
      exact h.waiting j hj hset
  · intro hset
    by_cases hi : s.world.cur = i
    · subst hi
      exact .inl hself
    · rw [hasked hi] at hset
      rw [hact hi, (hflags hi).1, (hflags hi).2]
      exact h.current hset
  · intro hw
    by_cases hi : s.world.cur = i
    · intro _ _
      rw [hi, Function.update_self]
    · rw [hasked hi, (hflags hi).1, (hflags hi).2]
      exact h.flagged hw

/-- A request changes the action of a file that has none, and is noted. -/
theorem skipFile (h : SkipInv s) (i : ℕ) (hfit : SkipFit s (.skipFile i)) :
    SkipInv ⟨{ s.world with t := skipFileTransfer i s.world.t },
      noteAsked s.world (.skipFile i) s.asked, s.skipped⟩ := by
  by_cases hunset : (s.world.t.files i).transferAction = .unset
  · have hdone : (s.world.t.files i).transferDone ≠ true := fun hdone => hfit.2 hdone hunset
    rw [show noteAsked s.world (.skipFile i) s.asked = Function.update s.asked i true from
      if_neg hdone]
    exact h.request hunset
  · have hsame : skipFileTransfer i s.world.t = s.world.t := if_neg hunset
    have hasked : noteAsked s.world (.skipFile i) s.asked = s.asked := by
      by_cases hdone : (s.world.t.files i).transferDone = true
      · exact if_pos hdone
      · have hold := (hfit.1 (Bool.not_eq_true _ ▸ hdone)).resolve_left hunset
        rw [noteAsked, if_neg hdone, ← hold, Function.update_eq_self]
    rw [hsame, hasked]
    exact h

theorem cleared (h : SkipInv s) (hidle : busy s.world.worker = false) :
    SkipInv ⟨{ s.world with t := { s.world.t with cancel := false }, worker := .loop },
      s.asked, s.skipped⟩ := by
  refine ⟨h.passed, h.ahead, h.unasked, h.waiting, fun hasked => ?_, fun _ hset => by cases hset⟩
  exact .inl ((h.current hasked).resolve_right fun hb => by simp [hidle] at hb)

theorem step {action : TransAction} {s' : SkipWorld} (hstep : SkipStep s action s')
    (hfit : SkipFit s action) (h : SkipInv s) : SkipInv s' := by
  cases hstep with
  | step hstep =>
    cases hstep with
    | allDone hw hall => exact h.finish (by simp [hw, busy]) (by simp [hw])
    | attempt hw hmore =>
      exact h.frame (fun _ => rfl) rfl rfl rfl rfl (by simp [hw, busy]) (by simp [hw])
    | begin hw => exact h.begin hw hfit
    | block hw hgo hblock => exact h.block hw
    | stopped hw hstop => exact h.ended (by simp [hw]) _ _ _
    | judge hw =>
      refine h.frame (fun _ => rfl) rfl rfl rfl rfl ?_ (by simp [hw])
      intro _ hcancel
      simp [World.judge, hcancel, busy]
    | status hw =>
      unfold World.status
      split
      · exact h.finish (by simp [hw, busy]) (by simp [hw])
      · split
        · exact h.finish (by simp [hw, busy]) (by simp [hw])
        · exact h.frame (fun _ => rfl) rfl rfl rfl rfl (by simp [hw, busy]) (by simp [hw])
    | retry hw => exact h.retry hw hfit
    | pass hw => exact h.pass hw
    | afterPass hw =>
      have hidle : busy s.world.worker = false := by simp [hw, busy]
      unfold World.afterPass
      split
      · split
        · exact h.cleared hidle
        · rename_i hskip
          exact h.finish hidle (fun _ => Bool.not_eq_true _ ▸ hskip)
      · rename_i hcancel
        exact h.frame (fun _ => rfl) rfl rfl rfl rfl (by simp [hidle])
          (fun _ => .inr (.inl (Bool.not_eq_true _ ▸ hcancel)))
    | cancelTransfer =>
      exact ⟨h.passed, h.ahead, h.unasked, h.waiting, fun hasked => .inl (hfit hasked),
        fun _ _ hset => by cases hset⟩
    | skipFile hi => exact h.skipFile _ hfit
    | nextTransfer hnext =>
      exact h.frame (fun _ => rfl) rfl rfl rfl rfl (fun hb _ => hb) .inl

/-- The thread ends behind the last file, or in the middle of the list: the files ahead are
those that were asked for. -/
theorem law (h : SkipInv s) : SkipLaw s := by
  intro i hi hplace
  rcases Nat.lt_trichotomy i s.world.cur with hlow | rfl | hhigh
  · exact h.passed i hi hlow
  · have hidle : busy s.world.worker = false := by
      rw [hplace.resolve_left (Nat.lt_irrefl _)]
      rfl
    rw [h.ahead _ (Nat.le_refl _)]
    constructor
    · exact fun hact => h.unasked _ (Nat.le_refl _) (hact.resolve_right (by simp))
    · intro hasked
      exact .inl ((h.current hasked).resolve_right fun hb => by simp [hidle] at hb)
  · rw [h.ahead i (Nat.le_of_lt hhigh)]
    constructor
    · exact fun hact => h.unasked i (Nat.le_of_lt hhigh) (hact.resolve_right (by simp))
    · exact fun hasked => .inl (h.waiting i hhigh hasked)

end SkipInv

section Runs

/-- In a run that fits, the files skipped are those that the user asked to skip. -/
theorem skipped_as_asked {files : ℕ → TransFile} {numFiles : ℕ} {totalBytes : ℤ} {conn : Bool}
    {s : SkipWorld}
    (hrun : Reaches SkipStep SkipFit (.start files numFiles totalBytes conn) s) : SkipLaw s := by
  have hinv : SkipInv s := hrun.invariant SkipInv (.start ..)
    (fun _ _ _ h hfit hstep => h.step hstep hfit)
  exact hinv.law

def plainFile : TransFile where
  isDir := false
  size := 5
  startsize := 0
  transferAction := .unset
  retryTransfer := false
  transferDone := false
  doneView := false
  doneEdit := false
  doneRm := false

def download (connect : Except GftpError Unit) : Answers where
  connect := connect
  makeDirectory := .ok ()
  size := .ok 5
  destSize := .ok 0
  transferFile := .ok 5
  source := [.ok [1, 2, 3, 4, 5]]
  puts := [.ok 3, .ok 2]

/-- The file being copied is skipped. -/
theorem copied_file_skipped : ∃ s,
    Reaches SkipStep SkipFit (.start (fun _ => plainFile) 1 5 true) s ∧
      s.asked 0 = true ∧ 0 < s.world.cur ∧ SkipLaw s := by
  have hrun : Reaches SkipStep SkipFit (.start (fun _ => plainFile) 1 5 true) _ :=
    (Reaches.refl _).tail (a := .attempt) trivial (.step (.attempt rfl (by decide)))
      |>.tail (a := .begin (download (.ok ())) (.ok ())) (fun h => by cases h)
        (.step (.begin rfl))
      |>.tail (a := .skipFile 0) ⟨fun _ => .inl rfl, fun h => by cases h⟩
        (.step (.skipFile (by decide)))
      |>.tail (a := .stopped (.ok ()) (.ok ()) (.ok ())) trivial (.step (.stopped rfl rfl))
      |>.tail (a := .judge) trivial (.step (.judge rfl))
      |>.tail (a := .pass) trivial (.step (.pass rfl))
  exact ⟨_, hrun, rfl, by decide, skipped_as_asked hrun⟩

/-- The first file is skipped while it is copied. The flag skip_file stays set, and when the
connection is lost at the second file this one is passed over too. -/
theorem next_file_skipped :
    ¬ ∀ (files : ℕ → TransFile) (numFiles : ℕ) (totalBytes : ℤ) (conn : Bool) (s : SkipWorld),
      Reaches SkipStep (fun _ _ => True) (.start files numFiles totalBytes conn) s →
        SkipLaw s := by
  intro h
  have hrun : Reaches SkipStep (fun _ _ => True) (.start (fun _ => plainFile) 2 10 true) _ :=
    (Reaches.refl _).tail (a := .attempt) trivial (.step (.attempt rfl (by decide)))
      |>.tail (a := .begin (download (.ok ())) (.ok ())) trivial (.step (.begin rfl))
      |>.tail (a := .skipFile 0) trivial (.step (.skipFile (by decide)))
      |>.tail (a := .stopped (.ok ()) (.ok ()) (.ok ())) trivial (.step (.stopped rfl rfl))
      |>.tail (a := .judge) trivial (.step (.judge rfl))
      |>.tail (a := .pass) trivial (.step (.pass rfl))
      |>.tail (a := .afterPass) trivial (.step (.afterPass rfl))
      |>.tail (a := .attempt) trivial (.step (.attempt rfl (by decide)))
      |>.tail (a := .begin (download (.error .retryable)) (.ok ())) trivial (.step (.begin rfl))
      |>.tail (a := .judge) trivial (.step (.judge rfl))
      |>.tail (a := .status 3) trivial (.step (.status rfl))
      |>.tail (a := .retry 3 (.ok ())) trivial (.step (.retry rfl))
  have hlaw := h _ _ _ _ _ hrun 1 (by decide) (.inl (by decide))
  exact absurd (hlaw.mp (.inr rfl)) (by decide)

end Runs

end Gftp.SkipRequests
