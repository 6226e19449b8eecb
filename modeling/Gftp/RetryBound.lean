import Gftp.TransferRun

/-!
How often gftp_get_transfer_status connects again for one file. The number of retries is tested
in front of its loop and in it, counted in it, and set to 0 by the copy loop only, so it is
bounded in a run in which no block of the file is copied. A file that fails with a fatal error
is passed over without a retry.
-/

namespace Gftp.RetryBound

open CopyLoop Protocol Runs TransferRun TransferState

/-- Beside the world stand, for each file, the rounds of the loop of gftp_get_transfer_status
and the attempts at the file. -/
structure RetryWorld where
  world : World
  retries : ℕ → ℕ
  attempts : ℕ → ℕ

def RetryWorld.start (files : ℕ → TransFile) (numFiles : ℕ) (totalBytes : ℤ) (conn : Bool) :
    RetryWorld :=
  ⟨.start files numFiles totalBytes conn, fun _ => 0, fun _ => 0⟩

/-- A round of the loop is made. -/
def rounds (w : World) (retries : ℤ) : Prop := retries = 0 ∨ w.t.currentFileRetries ≤ retries

instance (w : World) (retries : ℤ) : Decidable (rounds w retries) :=
  inferInstanceAs (Decidable (_ ∨ _))

/-- One more of the current file. -/
def countFile (w : World) (count : ℕ → ℕ) : ℕ → ℕ :=
  Function.update count w.cur (count w.cur + 1)

def noteRetry (w : World) (a : TransAction) (count : ℕ → ℕ) : ℕ → ℕ :=
  match a with
  | .retry retries _ => if rounds w retries then countFile w count else count
  | _ => count

def noteAttempt (w : World) (a : TransAction) (count : ℕ → ℕ) : ℕ → ℕ :=
  match a with
  | .begin _ _ => countFile w count
  | _ => count

inductive RetryStep : RetryWorld → TransAction → RetryWorld → Prop
  | step {s : RetryWorld} {a : TransAction} {w : World} (h : TransStep s.world a w) :
      RetryStep s a ⟨w, noteRetry s.world a s.retries, noteAttempt s.world a s.attempts⟩

/-- The option is R whenever it is looked up, nothing is skipped or stopped, and no block of the
file i is copied. -/
def Quiet (R : ℤ) (i : ℕ) (s : RetryWorld) : TransAction → Prop
  | .status retries => retries = R
  | .retry retries _ => retries = R
  | .block blksize _ _ _ _ => s.world.cur = i → ∀ numTrans c ret c',
      s.world.worker = .copying numTrans c → doTransferBlock blksize c = .ok (ret, c') →
        moved ret = false
  | .cancelTransfer => False
  | .skipFile _ => False
  | _ => True

/-- The last attempt has failed, but not with a fatal error. -/
def Failing : Worker → Prop
  | .attempted ret => ret < 0 ∧ ret ≠ GftpError.fatal.code
  | .status _ => True
  | .retrying _ => True
  | _ => False

/-- How far the thread is from its end then. -/
def stopRank : Worker → ℕ
  | .attempted _ => 3
  | .status _ => 2
  | .retrying _ => 1
  | _ => 0

/-- From here on the current file stays what it is and is not tried any more, and each step of
the thread brings it nearer to its end. -/
def Stops (R : ℤ) (i : ℕ) (s : RetryWorld) : Prop :=
  ∀ s', Reaches RetryStep (Quiet R i) s s' →
    s'.world.cur = s.world.cur ∧ s'.retries = s.retries ∧ s'.attempts = s.attempts ∧
      (stopRank s'.world.worker = 0 → s'.world.worker = .exited) ∧
        ∀ a s'', Quiet R i s' a → RetryStep s' a s'' →
          a = .nextTransfer ∨ stopRank s''.world.worker < stopRank s'.world.worker

/-- The thread stands where an attempt at the current file comes next. -/
def waits : Worker → Bool
  | .loop => true
  | .begun => true
  | .passed => true
  | _ => false

/-- The flags are not set, and of the file i so many rounds of the loop and so many attempts
are counted. -/
structure Counted (R : ℤ) (i : ℕ) (t : Transfer) (worker : Worker) (retries attempts : ℕ) :
    Prop where
  cancel : t.cancel = false
  skipFile : t.skipFile = false
  low : 0 ≤ t.currentFileRetries
  high : t.currentFileRetries ≤ R + 1
  ahead : t.curfle < i → retries = 0 ∧ attempts = 0
  current : t.curfle = i → (retries : ℤ) ≤ t.currentFileRetries ∧
    attempts ≤ retries + (if waits worker then 0 else 1)
  behind : i < t.curfle → (retries : ℤ) ≤ R + 1 ∧ (attempts : ℤ) ≤ R + 2

def RetryInv (R : ℤ) (i : ℕ) (s : RetryWorld) : Prop :=
  Counted R i s.world.t s.world.worker (s.retries i) (s.attempts i)

/-- The parts of a transfer that the thread looks at between the attempts. -/
def turn (t : Transfer) : ℕ × Bool × Bool × ℤ :=
  (t.curfle, t.cancel, t.skipFile, t.currentFileRetries)

section Steps

variable {R : ℤ} {i : ℕ} {s : RetryWorld} {w : World} {t t' : Transfer} {worker : Worker}

theorem turn_endAttempt (ret : ℤ) (preserve : Except GftpError Unit) (t : Transfer) :
    turn (endAttempt ret preserve t).1 = turn t := by
  unfold endAttempt
  split <;> rfl

theorem turn_askSize {a : Answers} {out : Option GftpError} (h : askSize a t = (t', out)) :
    turn t' = turn t := by
  rcases askSize_cases h with rfl | ⟨_, _, rfl⟩
  · rfl
  · rfl

theorem turn_askStart {a : Answers} {out : Option GftpError} (h : askStart a t = (t', out)) :
    turn t' = turn t := by
  rcases askStart_cases h with rfl | ⟨_, rfl⟩
  · rfl
  · rfl

theorem turn_transFileOrDir {a : Answers} {attempt : Attempt}
    (h : transFileOrDir a t = (t', attempt)) : turn t' = turn t := by
  unfold transFileOrDir at h
  split at h
  · obtain ⟨rfl, -⟩ := Prod.mk.inj h
    rfl
  · split at h
    · obtain ⟨rfl, -⟩ := Prod.mk.inj h
      rfl
    · unfold startFile at h
      split at h
      · rename_i hsize
        obtain ⟨rfl, -⟩ := Prod.mk.inj h
        exact turn_askSize hsize
      · rename_i hsize
        split at h
        · rename_i hstart
          obtain ⟨rfl, -⟩ := Prod.mk.inj h
          exact (turn_askStart hstart).trans (turn_askSize hsize)
        · rename_i hstart
          have hturn := (turn_askStart hstart).trans (turn_askSize hsize)
          split at h
          · obtain ⟨rfl, -⟩ := Prod.mk.inj h
            exact hturn
          · obtain ⟨rfl, -⟩ := Prod.mk.inj h
            exact hturn

theorem ended_turn (w : World) (ret : ℤ) (preserve : Except GftpError Unit) (complete : Bool) :
    turn (w.ended ret preserve complete).t = turn w.t ∧
      waits (w.ended ret preserve complete).worker = false :=
  ⟨turn_endAttempt ret preserve w.t, rfl⟩

theorem begin_turn (w : World) (a : Answers) (preserve : Except GftpError Unit) :
    turn (w.begin a preserve).t = turn w.t ∧ waits (w.begin a preserve).worker = false := by
  unfold World.begin
  split
  · rename_i hbegan
    exact ⟨turn_transFileOrDir hbegan, rfl⟩
  · rename_i hbegan
    obtain ⟨hturn, hwaits⟩ := ended_turn (w.started _) _ preserve true
    exact ⟨hturn.trans (turn_transFileOrDir hbegan), hwaits⟩
  · rename_i hbegan
    exact ⟨turn_transFileOrDir hbegan, rfl⟩

theorem countFile_eq (w : World) (count : ℕ → ℕ) (i : ℕ) :
    countFile w count i = if w.t.curfle = i then count i + 1 else count i := by
  unfold countFile
  split
  · rename_i hi
    subst hi
    exact Function.update_self ..
  · rename_i hi
    exact Function.update_of_ne (Ne.symm hi) ..

namespace Counted

variable {retries attempts : ℕ} {worker' : Worker}

/-- What the thread looks at is as before. -/
theorem frame (h : Counted R i t worker retries attempts) (hturn : turn t' = turn t)
    (hwaits : waits worker = false → waits worker' = false) :
    Counted R i t' worker' retries attempts := by
  simp only [turn, Prod.mk.injEq] at hturn
  obtain ⟨hcur, hcancel, hskip, hretries⟩ := hturn
  refine ⟨hcancel.trans h.cancel, hskip.trans h.skipFile, ?_, ?_, ?_, ?_, ?_⟩
  · exact hretries ▸ h.low
  · exact hretries ▸ h.high
  · exact hcur ▸ h.ahead
  · intro hi
    obtain ⟨hcount, hattempts⟩ := h.current (hcur.symm.trans hi)
    refine ⟨hretries.symm ▸ hcount, hattempts.trans (Nat.add_le_add_left ?_ _)⟩
    cases hw : waits worker with
    | true => exact Nat.zero_le _
    | false => simp [hwaits hw]
  · exact hcur ▸ h.behind

theorem begin (h : Counted R i t worker retries attempts) (hw : waits worker = true)
    (hturn : turn t' = turn t) (hwaits : waits worker' = false) :
    Counted R i t' worker' retries (if t.curfle = i then attempts + 1 else attempts) := by
  simp only [turn, Prod.mk.injEq] at hturn
  obtain ⟨hcur, hcancel, hskip, hretries⟩ := hturn
  refine ⟨hcancel.trans h.cancel, hskip.trans h.skipFile, ?_, ?_, ?_, ?_, ?_⟩
  · exact hretries ▸ h.low
  · exact hretries ▸ h.high
  · intro hlt
    rw [hcur] at hlt
    rw [if_neg (Nat.ne_of_lt hlt)]
    exact h.ahead hlt
  · intro hi
    rw [hcur] at hi
    obtain ⟨hcount, hattempts⟩ := h.current hi
    rw [hw, if_pos rfl] at hattempts
    rw [if_pos hi, hwaits]
    exact ⟨hretries.symm ▸ hcount, Nat.succ_le_succ hattempts⟩
  · intro hlt
    rw [hcur] at hlt
    rw [if_neg (Nat.ne_of_gt hlt)]
    exact h.behind hlt

/-- The copy loop sets the number of retries to 0 for another file. -/
theorem reset (h : Counted R i t worker retries attempts) (hR : 0 < R) (hother : t.curfle ≠ i) :
    Counted R i { t with currentFileRetries := 0 } worker' retries attempts := by
  refine ⟨h.cancel, h.skipFile, Int.le_refl 0, ?_, h.ahead, ?_, h.behind⟩
  · show (0 : ℤ) ≤ R + 1
    omega
  · intro hi
    exact absurd hi hother

theorem round (h : Counted R i t worker retries attempts) (hle : t.currentFileRetries ≤ R)
    (hturn : turn t' = turn { t with currentFileRetries := t.currentFileRetries + 1 })
    (hw : waits worker = false) :
    Counted R i t' worker' (if t.curfle = i then retries + 1 else retries) attempts := by
  have hlow := h.low
  simp only [turn, Prod.mk.injEq] at hturn
  obtain ⟨hcur, hcancel, hskip, hretries⟩ := hturn
  refine ⟨hcancel.trans h.cancel, hskip.trans h.skipFile, by omega, by omega, ?_, ?_, ?_⟩
  · intro hlt
    rw [hcur] at hlt
    rw [if_neg (Nat.ne_of_lt hlt)]
    exact h.ahead hlt
  · intro hi
    rw [hcur] at hi
    obtain ⟨hcount, hattempts⟩ := h.current hi
    rw [hw] at hattempts
    rw [if_pos hi, hretries]
    exact ⟨by push_cast; omega, hattempts.trans (Nat.le_add_right _ _)⟩
  · intro hlt
    rw [hcur] at hlt
    rw [if_neg (Nat.ne_of_gt hlt)]
    exact h.behind hlt

theorem next (h : Counted R i t worker retries attempts)
    (hturn : turn t' = turn { t with curfle := t.curfle + 1 }) :
    Counted R i t' worker' retries attempts := by
  have hlow := h.low
  have hhigh := h.high
  simp only [turn, Prod.mk.injEq] at hturn
  obtain ⟨hcur, hcancel, hskip, hretries⟩ := hturn
  refine ⟨hcancel.trans h.cancel, hskip.trans h.skipFile, by omega, by omega, ?_, ?_, ?_⟩
  · intro hlt
    exact h.ahead (by omega)
  · intro hi
    obtain ⟨rfl, rfl⟩ := h.ahead (by omega)
    exact ⟨by rw [hretries]; exact hlow, Nat.zero_le _⟩
  · intro hlt
    rw [hcur] at hlt
    rcases Nat.lt_succ_iff_lt_or_eq.mp hlt with hlt' | rfl
    · exact h.behind hlt'
    · obtain ⟨hcount, hattempts⟩ := h.current rfl
      have hone : attempts ≤ retries + 1 :=
        hattempts.trans (Nat.add_le_add_left (by split <;> omega) _)
      exact ⟨by omega, by omega⟩

end Counted

namespace RetryInv

theorem start (hR : 0 < R) (files : ℕ → TransFile) (numFiles : ℕ) (totalBytes : ℤ) (conn : Bool) :
    RetryInv R i (.start files numFiles totalBytes conn) := by
  refine ⟨rfl, rfl, Int.le_refl 0, ?_, fun _ => ⟨rfl, rfl⟩, fun _ => ⟨Int.le_refl 0, Nat.le_refl 0⟩, fun h => ?_⟩
  · show (0 : ℤ) ≤ R + 1
    omega
  · exact absurd h (Nat.not_lt_zero i)

theorem block {numTrans ret : Except GftpError ℕ} {c c' : CopyState} {blksize : ℕ}
    {resets : Bool} {fromEnd toEnd preserve : Except GftpError Unit} (h : RetryInv R i s)
    (hR : 0 < R) (hw : s.world.worker = .copying numTrans c)
    (hblock : doTransferBlock blksize c = .ok (ret, c'))
    (hquiet : Quiet R i s (.block blksize resets fromEnd toEnd preserve)) :
    RetryInv R i ⟨s.world.block c' ret resets fromEnd toEnd preserve, s.retries, s.attempts⟩ := by
  have hwaits : waits s.world.worker = false := by simp [hw, waits]
  have hended : ∀ ret, turn (World.ended { s.world with
      delivered := Function.update s.world.delivered s.world.cur
        (s.world.offset s.world.cur + c'.accepted.length) } (endCopy ret fromEnd toEnd) preserve
        (s.world.honest s.world.cur && World.copied c')).t = turn s.world.t :=
    fun ret => (ended_turn ..).1
  unfold World.block
  cases ret with
  | error e => exact h.frame (hended _) fun _ => rfl
  | ok n =>
    cases n with
    | zero => exact h.frame (hended _) fun _ => rfl
    | succ n =>
      have hother : s.world.t.curfle ≠ i := by
        intro hcur
        have hmoved := hquiet hcur numTrans c _ c' hw hblock
        cases hmoved
      cases resets with
      | false => exact h.frame rfl fun _ => rfl
      | true =>
        have hcounted : Counted R i (gftpCalcKbs (n + 1) s.world.t) _ _ _ := h.frame rfl id
        exact hcounted.reset hR hother

theorem retry {ret : ℤ} {connect : Except GftpError Unit} (h : RetryInv R i s) (hR : 0 < R)
    (hw : s.world.worker = .retrying ret) :
    RetryInv R i ⟨s.world.retry ret R connect, noteRetry s.world (.retry R connect) s.retries,
      s.attempts⟩ := by
  have hwaits : waits s.world.worker = false := by simp [hw, waits]
  have hskip : s.world.t.skipFile = false := h.skipFile
  unfold World.retry noteRetry RetryInv
  by_cases hround : rounds s.world R
  · have hle : s.world.t.currentFileRetries ≤ R := hround.resolve_left (Int.ne_of_gt hR)
    have hround' : R = 0 ∨ s.world.t.currentFileRetries ≤ R := hround
    simp only [if_pos hround, if_pos hround', countFile_eq]
    cases connect with
    | ok u =>
      have hturn : turn (reconnected { s.world.t with
          currentFileRetries := s.world.t.currentFileRetries + 1 }) =
          turn { s.world.t with currentFileRetries := s.world.t.currentFileRetries + 1 } := by
        simp only [reconnected, hskip, Bool.false_eq_true, if_false]
        rfl
      exact h.round hle hturn hwaits
    | error e =>
      simp only
      split
      · exact h.round hle rfl hwaits
      · exact h.round hle rfl hwaits
  · have hround' : ¬(R = 0 ∨ s.world.t.currentFileRetries ≤ R) := hround
    simp only [if_neg hround, if_neg hround']
    exact h.frame rfl fun _ => rfl

theorem step {a : TransAction} {s' : RetryWorld} (h : RetryInv R i s) (hR : 0 < R)
    (hquiet : Quiet R i s a) (hstep : RetryStep s a s') : RetryInv R i s' := by
  cases hstep with
  | step hstep =>
    cases hstep with
    | allDone hw hall => exact h.frame rfl fun _ => rfl
    | attempt hw hmore => exact h.frame rfl (by simp [hw, waits])
    | begin hw =>
      obtain ⟨hturn, hwaits⟩ := begin_turn s.world _ _
      have hbegin := Counted.begin h (by simp [hw, waits]) hturn hwaits
      rw [← countFile_eq] at hbegin
      exact hbegin
    | block hw hgo hblock => exact h.block hR hw hblock hquiet
    | stopped hw hstop =>
      obtain ⟨hturn, hwaits⟩ := ended_turn s.world _ _ _
      exact h.frame hturn fun _ => hwaits
    | judge hw =>
      refine h.frame rfl fun _ => ?_
      unfold World.judge
      simp only
      split
      · rfl
      · split <;> rfl
    | status hw =>
      unfold World.status
      split
      · exact h.frame rfl fun _ => rfl
      · split
        · exact h.frame rfl fun _ => rfl
        · exact h.frame rfl fun _ => rfl
    | retry hw =>
      obtain rfl := hquiet
      exact h.retry hR hw
    | pass hw => exact h.next rfl
    | afterPass hw =>
      have hcancel : s.world.t.cancel = false := h.cancel
      simp only [World.afterPass, hcancel, Bool.false_eq_true, if_false]
      exact h.frame rfl (by simp [hw, waits])
    | cancelTransfer => exact hquiet.elim
    | skipFile hi => exact hquiet.elim
    | nextTransfer hnext => exact h.frame rfl id

theorem bounds (h : RetryInv R i s) (hR : 0 < R) :
    (s.retries i : ℤ) ≤ R + 1 ∧ (s.attempts i : ℤ) ≤ R + 2 := by
  rcases Nat.lt_trichotomy s.world.t.curfle i with hlow | heq | hhigh
  · obtain ⟨hretries, hattempts⟩ := h.ahead hlow
    rw [hretries, hattempts]
    exact ⟨by omega, by omega⟩
  · obtain ⟨hcount, hattempts⟩ := h.current heq
    have hhigh := h.high
    have hone : s.attempts i ≤ s.retries i + 1 :=
      hattempts.trans (Nat.add_le_add_left (by split <;> omega) _)
    exact ⟨by omega, by omega⟩
  · exact h.behind hhigh

end RetryInv

/-- The retries are used up and the last attempt has failed, or the thread has ended. -/
structure GivesUp (R : ℤ) (w : World) : Prop where
  cancel : w.t.cancel = false
  used : R < w.t.currentFileRetries
  worker : Failing w.worker ∨ w.worker = .exited

/-- What a step leaves of a thread that gives up. -/
theorem GivesUp.step {a : TransAction} {s' : RetryWorld} (h : GivesUp R s.world) (hR : 0 < R)
    (hquiet : Quiet R i s a) (hstep : RetryStep s a s') :
    GivesUp R s'.world ∧ s'.world.cur = s.world.cur ∧ s'.retries = s.retries ∧
      s'.attempts = s.attempts ∧
        (a = .nextTransfer ∨ stopRank s'.world.worker < stopRank s.world.worker) := by
  have hcancel := h.cancel
  have hused := h.used
  have hfinish : GivesUp R s.world.finish := ⟨hcancel, hused, .inr rfl⟩
  have hstop : ∀ {worker : Worker}, s.world.worker = worker → ¬Failing worker →
      worker ≠ .exited → False := by
    rintro worker rfl hfail hexit
    exact h.worker.elim hfail hexit
  cases hstep with
  | step hstep =>
    cases hstep with
    | allDone hw hall => exact (hstop hw id nofun).elim
    | attempt hw hmore => exact (hstop hw id nofun).elim
    | begin hw => exact (hstop hw id nofun).elim
    | block hw hgo hblock => exact (hstop hw id nofun).elim
    | stopped hw hstop' => exact (hstop hw id nofun).elim
    | judge hw =>
      rename_i ret
      have hfail : ret < 0 ∧ ret ≠ GftpError.fatal.code := by
        have hworker := h.worker
        rw [hw] at hworker
        exact hworker.resolve_right nofun
      have hjudge : s.world.judge ret = { s.world with worker := .status ret } := by
        simp [World.judge, hcancel, hfail]
      rw [hjudge, hw]
      exact ⟨⟨hcancel, hused, .inl trivial⟩, rfl, rfl, rfl, .inr (by simp [stopRank])⟩
    | status hw =>
      rw [hw]
      unfold World.status
      split
      · exact ⟨hfinish, rfl, rfl, rfl, .inr (by simp [stopRank, World.finish])⟩
      · split
        · exact ⟨hfinish, rfl, rfl, rfl, .inr (by simp [stopRank, World.finish])⟩
        · exact ⟨⟨hcancel, hused, .inl trivial⟩, rfl, rfl, rfl, .inr (by simp [stopRank])⟩
    | retry hw =>
      rename_i ret retries connect
      obtain rfl : retries = R := hquiet
      have hno : ¬rounds s.world retries := by
        rintro (hzero | hle)
        · omega
        · omega
      have hretry : s.world.retry ret retries connect = s.world.finish := if_neg hno
      have hnote : noteRetry s.world (.retry retries connect) s.retries = s.retries := if_neg hno
      rw [hretry, hnote, hw]
      exact ⟨hfinish, rfl, rfl, rfl, .inr (by simp [stopRank, World.finish])⟩
    | pass hw => exact (hstop hw id nofun).elim
    | afterPass hw => exact (hstop hw id nofun).elim
    | cancelTransfer => exact hquiet.elim
    | skipFile hi => exact hquiet.elim
    | nextTransfer hnext => exact ⟨⟨hcancel, hused, h.worker⟩, rfl, rfl, rfl, .inl rfl⟩

theorem GivesUp.stops (h : GivesUp R s.world) (hR : 0 < R) : Stops R i s := by
  intro s' hrun
  have hkept : GivesUp R s'.world ∧ s'.world.cur = s.world.cur ∧ s'.retries = s.retries ∧
      s'.attempts = s.attempts := by
    refine hrun.invariant (fun s' => GivesUp R s'.world ∧ s'.world.cur = s.world.cur ∧
      s'.retries = s.retries ∧ s'.attempts = s.attempts) ⟨h, rfl, rfl, rfl⟩ ?_
    rintro u a u' ⟨hgives, hcur, hretries, hattempts⟩ hquiet hstep
    obtain ⟨hgives', hcur', hretries', hattempts', -⟩ := hgives.step hR hquiet hstep
    exact ⟨hgives', hcur'.trans hcur, hretries'.trans hretries, hattempts'.trans hattempts⟩
  obtain ⟨hgives, hcur, hretries, hattempts⟩ := hkept
  refine ⟨hcur, hretries, hattempts, fun hrank => ?_, fun a s'' hquiet hstep => ?_⟩
  · refine hgives.worker.resolve_left fun hfail => ?_
    cases hw : s'.world.worker <;> simp [hw, Failing, stopRank] at hfail hrank
  · exact (hgives.step hR hquiet hstep).2.2.2.2

end Steps

/-- In a run without requests of the user in which no block of a file is copied, the loop of
gftp_get_transfer_status makes at most R + 1 rounds for the file, which is tried at most R + 2
times; and when an attempt behind the last round fails, but not with a fatal error, the
transfer stops at this file. -/
theorem retries_bounded {R : ℤ} (hR : 0 < R) (i : ℕ) {files : ℕ → TransFile} {numFiles : ℕ}
    {totalBytes : ℤ} {conn : Bool} {s : RetryWorld}
    (hrun : Reaches RetryStep (Quiet R i) (.start files numFiles totalBytes conn) s) :
    (s.retries i : ℤ) ≤ R + 1 ∧ (s.attempts i : ℤ) ≤ R + 2 ∧
      (s.world.cur = i → s.retries i = R + 1 → Failing s.world.worker → Stops R i s) := by
  have hinv : RetryInv R i s := hrun.invariant (RetryInv R i) (.start hR ..)
    fun _ _ _ h hquiet hstep => h.step hR hquiet hstep
  obtain ⟨hretries, hattempts⟩ := hinv.bounds hR
  refine ⟨hretries, hattempts, fun hcur hused hfail => ?_⟩
  have hcount : (s.retries i : ℤ) ≤ s.world.t.currentFileRetries := (hinv.current hcur).1
  have hgives : GivesUp R s.world := ⟨hinv.cancel, by omega, .inl hfail⟩
  exact hgives.stops hR

section Samples

def plainFile : TransFile where
  isDir := false
  size := 5
  startsize := 0
  transferAction := .unset
  retryTransfer := false
  transferDone := false
  doneView := false
  doneEdit := false
  doneRm := false

/-- Attempts that do not get behind gftp_connect. -/
def refusing (e : GftpError) : Answers where
  connect := .error e
  makeDirectory := .ok ()
  size := .ok 5
  destSize := .ok 0
  transferFile := .ok 5
  source := []
  puts := []

/-- The first of two files times out twice, and the third attempt at it fails as e says. -/
theorem third_attempt (e : GftpError) : ∃ s : RetryWorld,
    Reaches RetryStep (Quiet 1 0) (.start (fun _ => plainFile) 2 10 false) s ∧
      s.world.cur = 0 ∧ s.retries 0 = 2 ∧ s.world.worker = .attempted e.code ∧
        s.world.succeeded 0 = false := by
  have hrun : Reaches RetryStep (Quiet 1 0) (.start (fun _ => plainFile) 2 10 false) _ :=
    (Reaches.refl _).tail (a := .attempt) trivial (.step (.attempt rfl (by decide)))
      |>.tail (a := .begin (refusing .timedOut) (.ok ())) trivial (.step (.begin rfl))
      |>.tail (a := .judge) trivial (.step (.judge rfl))
      |>.tail (a := .status 1) (by rfl) (.step (.status rfl))
      |>.tail (a := .retry 1 (.ok ())) (by rfl) (.step (.retry rfl))
      |>.tail (a := .attempt) trivial (.step (.attempt rfl (by decide)))
      |>.tail (a := .begin (refusing .timedOut) (.ok ())) trivial (.step (.begin rfl))
      |>.tail (a := .judge) trivial (.step (.judge rfl))
      |>.tail (a := .status 1) (by rfl) (.step (.status rfl))
      |>.tail (a := .retry 1 (.ok ())) (by rfl) (.step (.retry rfl))
      |>.tail (a := .attempt) trivial (.step (.attempt rfl (by decide)))
      |>.tail (a := .begin (refusing e) (.ok ())) trivial (.step (.begin rfl))
  exact ⟨_, hrun, rfl, rfl, rfl, rfl⟩

theorem third_attempt_stops : ∃ s : RetryWorld, s.retries 0 = 2 ∧ Stops 1 0 s := by
  obtain ⟨s, hrun, hcur, hretries, hworker, -⟩ := third_attempt .retryable
  have hfail : Failing s.world.worker := by
    rw [hworker]
    exact ⟨by decide, by decide⟩
  obtain ⟨-, -, hstops⟩ := retries_bounded (by decide) 0 hrun
  exact ⟨s, hretries, hstops hcur (by rw [hretries]; rfl) hfail⟩

/-- A fatal error of the last attempt does not stop the transfer: the second file comes next. -/
theorem fatal_goes_on :
    ¬∀ (R : ℤ) (i : ℕ) (files : ℕ → TransFile) (numFiles : ℕ) (totalBytes : ℤ) (conn : Bool)
      (s : RetryWorld), 0 < R →
        Reaches RetryStep (Quiet R i) (.start files numFiles totalBytes conn) s →
          s.retries i = R + 1 → s.world.succeeded i = false →
            s.world.cur = i ∨ s.world.worker = .exited := by
  intro h
  obtain ⟨s, hrun, -, hretries, hworker, hfailed⟩ := third_attempt .fatal
  have hjudged : (s.world.judge GftpError.fatal.code).worker = .passing GftpError.fatal.code := by
    simp [World.judge]
  have hgone : Reaches RetryStep (Quiet 1 0) (.start (fun _ => plainFile) 2 10 false)
      ⟨{ s.world.judge GftpError.fatal.code with
        t := nextFileInTrans s.world.t, worker := .passed }, s.retries, s.attempts⟩ :=
    (hrun.tail (by trivial) (.step (.judge hworker))).tail (by trivial) (.step (.pass hjudged))
  have hused : (s.retries 0 : ℤ) = 1 + 1 := by
    rw [hretries]
    rfl
  rcases h 1 0 _ _ _ _ _ (by decide) hgone hused hfailed with hsame | hexit
  · have hnext : s.world.cur + 1 = 0 := hsame
    omega
  · cases hexit

end Samples

end Gftp.RetryBound
