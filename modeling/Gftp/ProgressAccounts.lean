import Gftp.TransferRun
import Mathlib.Algebra.BigOperators.Group.Finset.Basic
import Mathlib.Algebra.Order.BigOperators.Group.Finset

/-!
The progress of a transfer, against what was copied of its files. gftp_get_transfer_status
takes the count of the current file off again, from curresumed and curtrans. It leaves
curtrans as it is, and curresumed is still that of the file before when the current one was
never started. In a run in which the two are 0 whenever it reconnects without a start in
between, trans_bytes and resumed_bytes are together what the files have contributed.
-/

namespace Gftp.ProgressAccounts

open ByteStreams CopyLoop Protocol Runs TransferRun TransferState

/-- Of each file the bytes of the blocks copied since it was last started, and the bytes
accepted of a block that was not copied as a whole; live says that the current file has been
started since gftp_get_transfer_status last returned for it with a new connection. -/
structure AccountWorld where
  world : World
  copied : ℕ → ℤ
  broken : ℕ → ℤ
  live : Bool

namespace AccountWorld

def start (files : ℕ → TransFile) (numFiles : ℕ) (totalBytes : ℤ) (conn : Bool) : AccountWorld :=
  ⟨.start files numFiles totalBytes conn, fun _ => 0, fun _ => 0, false⟩

/-- The place where a file was last started and the bytes copied since, 0 for one that was
not started. -/
def contribution (s : AccountWorld) (i : ℕ) : ℤ := s.world.offset i + s.copied i

def progress (s : AccountWorld) : ℤ := s.world.t.transBytes + s.world.t.resumedBytes

end AccountWorld

/-- The attempt gets as far as the copy. -/
def starts (a : Answers) (t : Transfer) : Bool :=
  match (transFileOrDir a t).2 with
  | .copying _ => true
  | _ => false

/-- What gftp_calc_kbs counts of a block. -/
def counted : Except GftpError ℕ → ℕ
  | .ok n => n
  | .error _ => 0

/-- The bytes that a block adds to those of the current file. -/
def noteBlock (w : World) (blksize : ℕ) (bytes : Except GftpError ℕ → ℤ → ℤ) (m : ℕ → ℤ) : ℕ → ℤ :=
  match w.worker with
  | .copying _ c =>
      match doTransferBlock blksize c with
      | .ok (ret, c') =>
          Function.update m w.cur (m w.cur + bytes ret (c'.accepted.length - c.accepted.length))
      | .error _ => m
  | _ => m

def noteCopied (w : World) (a : TransAction) (copied : ℕ → ℤ) : ℕ → ℤ :=
  match a with
  | .begin a _ => if starts a w.t then Function.update copied w.cur 0 else copied
  | .block blksize _ _ _ _ => noteBlock w blksize (fun ret _ => counted ret) copied
  | _ => copied

def noteBroken (w : World) (a : TransAction) (broken : ℕ → ℤ) : ℕ → ℤ :=
  match a with
  | .begin a _ => if starts a w.t then Function.update broken w.cur 0 else broken
  | .block blksize _ _ _ _ => noteBlock w blksize (fun ret accepted => accepted - counted ret) broken
  | _ => broken

def noteLive (w : World) (a : TransAction) (live : Bool) : Bool :=
  match a with
  | .begin a _ => live || starts a w.t
  | .retry retries (.ok _) =>
      if retries = 0 ∨ w.t.currentFileRetries ≤ retries then false else live
  | .pass => false
  | _ => live

inductive AccountStep : AccountWorld → TransAction → AccountWorld → Prop
  | step {s : AccountWorld} {a : TransAction} {w : World} (h : TransStep s.world a w) :
      AccountStep s a ⟨w, noteCopied s.world a s.copied, noteBroken s.world a s.broken,
        noteLive s.world a s.live⟩

/-- The files passed have contributed to the progress, and the current one when it is live. -/
def Accounted (s : AccountWorld) : Prop :=
  s.progress = ∑ i ∈ Finset.range s.world.cur, s.contribution i +
    if s.live then s.contribution s.world.cur else 0

/-- The user neither stops the transfer nor skips a file. -/
def NoRequests (_ : AccountWorld) : TransAction → Prop
  | .cancelTransfer => False
  | .skipFile _ => False
  | _ => True

/-- Without requests, the counts are 0 at a reconnection for a file that is not live, and a
file passed over that is not live has contributed nothing. -/
def AccountFit (s : AccountWorld) : TransAction → Prop
  | .retry retries (.ok _) =>
      retries = 0 ∨ s.world.t.currentFileRetries ≤ retries → s.live = false →
        s.world.t.curresumed + s.world.t.curtrans = 0
  | .pass => s.live = false → s.contribution s.world.cur = 0
  | .cancelTransfer => False
  | .skipFile _ => False
  | _ => True

/-- The thread stands where the current file has not been started since the last
reconnection. -/
def unstarted : Worker → Bool
  | .loop => true
  | .begun => true
  | .passed => true
  | _ => false

/-- The counters of an attempt that did not get as far as the copy. -/
structure SameCounts (t t' : Transfer) : Prop where
  curfle : t'.curfle = t.curfle
  skipFile : t'.skipFile = t.skipFile
  curtrans : t'.curtrans = t.curtrans
  curresumed : t'.curresumed = t.curresumed
  transBytes : t'.transBytes = t.transBytes
  resumedBytes : t'.resumedBytes = t.resumedBytes

section Attempts

variable {a : Answers} {t t' : Transfer} {out : Option GftpError} {attempt : Attempt}

theorem SameCounts.refl (t : Transfer) : SameCounts t t := ⟨rfl, rfl, rfl, rfl, rfl, rfl⟩

theorem askSize_counts (h : askSize a t = (t', out)) : SameCounts t t' := by
  rcases askSize_cases h with rfl | ⟨_, _, rfl⟩
  · exact .refl t'
  · exact ⟨rfl, rfl, rfl, rfl, rfl, rfl⟩

theorem askStart_counts (h : askStart a t = (t', out)) : SameCounts t t' := by
  rcases askStart_cases h with rfl | ⟨_, rfl⟩
  · exact .refl t'
  · exact ⟨rfl, rfl, rfl, rfl, rfl, rfl⟩

theorem SameCounts.trans {t'' : Transfer} (h : SameCounts t t') (h' : SameCounts t' t'') :
    SameCounts t t'' where
  curfle := h'.curfle.trans h.curfle
  skipFile := h'.skipFile.trans h.skipFile
  curtrans := h'.curtrans.trans h.curtrans
  curresumed := h'.curresumed.trans h.curresumed
  transBytes := h'.transBytes.trans h.transBytes
  resumedBytes := h'.resumedBytes.trans h.resumedBytes

/-- An attempt counts nothing, or it starts the copy at a place that is counted. -/
inductive Counted (t : Transfer) : Transfer → Attempt → Prop
  | same {t' : Transfer} {attempt : Attempt} (hsame : SameCounts t t')
      (hnot : ∀ c, attempt ≠ .copying c) : Counted t t' attempt
  | copying {t' : Transfer} (source : Stream GftpError) (puts : List PutOutcome) (n : ℕ)
      (hsame : SameCounts t t') (hfile : t'.file.isDir = false) :
      Counted t
        { t' with
          totFileTrans := n
          curtrans := 0
          curresumed := startOffset t'.file
          resumedBytes := t'.resumedBytes + startOffset t'.file }
        (.copying (CopyState.start source puts))

theorem transFileOrDir_counted (h : transFileOrDir a t = (t', attempt)) : Counted t t' attempt := by
  unfold transFileOrDir at h
  split at h
  · obtain ⟨rfl, rfl⟩ := Prod.mk.inj h
    exact .same (.refl _) (fun c hc => by cases hc)
  · split at h
    · obtain ⟨rfl, rfl⟩ := Prod.mk.inj h
      exact .same ⟨rfl, rfl, rfl, rfl, rfl, rfl⟩ (fun c hc => by cases hc)
    · rename_i hfile
      unfold startFile at h
      split at h
      · rename_i hsize
        obtain ⟨rfl, rfl⟩ := Prod.mk.inj h
        exact .same (askSize_counts hsize) (fun c hc => by cases hc)
      · rename_i t₁ hsize
        split at h
        · rename_i hstart
          obtain ⟨rfl, rfl⟩ := Prod.mk.inj h
          exact .same ((askSize_counts hsize).trans (askStart_counts hstart)) (fun c hc => by cases hc)
        · rename_i t₂ hstart
          have hsame := (askSize_counts hsize).trans (askStart_counts hstart)
          split at h
          · obtain ⟨rfl, rfl⟩ := Prod.mk.inj h
            exact .same ⟨hsame.curfle, hsame.skipFile, hsame.curtrans, hsame.curresumed,
              hsame.transBytes, hsame.resumedBytes⟩ (fun c hc => by cases hc)
          · rename_i n _
            have hdir : t₂.file.isDir = t.file.isDir :=
              (askStart_asked hstart).1.isDir.trans (askSize_asked hsize).isDir
            obtain ⟨rfl, rfl⟩ := Prod.mk.inj h
            exact .copying a.source a.puts n hsame (hdir.trans (Bool.not_eq_true _ ▸ hfile))

theorem counts_of_not_copying (h : transFileOrDir a t = (t', attempt))
    (hnot : ∀ c, attempt ≠ .copying c) : SameCounts t t' := by
  cases transFileOrDir_counted h with
  | same hsame => exact hsame
  | copying source puts => exact absurd rfl (hnot _)

theorem begin_copying {w : World} {preserve : Except GftpError Unit} {c : CopyState} (h : transFileOrDir a w.t = (t, .copying c)) :
    w.begin a preserve = { w.started t with
      worker := .copying (.ok 0) c
      offset := Function.update w.offset t.curfle (World.usedStart t.file)
      delivered := Function.update w.delivered t.curfle (World.usedStart t.file) } := by
  rw [World.begin, h]
  rfl

theorem endAttempt_counts (ret : ℤ) (preserve : Except GftpError Unit) (t : Transfer) :
    SameCounts t (endAttempt ret preserve t).1 := by
  unfold endAttempt
  split <;> exact ⟨rfl, rfl, rfl, rfl, rfl, rfl⟩

/-- The count of the current file is taken off the progress, and a file that is marked to be
resumed keeps curtrans. -/
theorem reconnected_counts (h : t.skipFile = false) :
    (reconnected t).skipFile = t.skipFile ∧ (reconnected t).transBytes = 0 ∧
      (reconnected t).resumedBytes =
          t.resumedBytes + t.transBytes - t.curresumed - t.curtrans ∧
      (reconnected t).curresumed = 0 := by
  have hmark : ∀ {p q : Transfer}, (if t.skipFile = true then p else q) = q :=
    if_neg (by simp [h])
  unfold reconnected
  rw [hmark]
  exact ⟨rfl, rfl, rfl, rfl⟩

end Attempts

/-- What is known of the counters between two steps. -/
structure AccountInv (s : AccountWorld) : Prop where
  accounted : Accounted s
  current : s.live = true →
    s.contribution s.world.cur = s.world.t.curresumed + s.world.t.curtrans
  fresh : unstarted s.world.worker = true → s.live = false
  clear : s.world.t.skipFile = false
  written : ∀ i, s.world.delivered i = s.contribution i + s.broken i
  copying : ∀ numTrans c, s.world.worker = .copying numTrans c →
    s.live = true ∧ s.world.delivered s.world.cur = s.world.offset s.world.cur + c.accepted.length

namespace AccountInv

variable {s : AccountWorld} {w : World}

theorem start (files : ℕ → TransFile) (numFiles : ℕ) (totalBytes : ℤ) (conn : Bool) :
    AccountInv (.start files numFiles totalBytes conn) where
  accounted := rfl
  current := fun h => by cases h
  fresh := fun _ => rfl
  clear := rfl
  written := fun _ => rfl
  copying := fun _ _ h => by cases h

/-- Another place of the thread, with the counters as they were. -/
theorem frame (h : AccountInv s) (hcounts : SameCounts s.world.t w.t)
    (hoffset : w.offset = s.world.offset) (hdelivered : w.delivered = s.world.delivered)
    (hfresh : unstarted w.worker = true → unstarted s.world.worker = true)
    (hcopying : ∀ numTrans c, w.worker = .copying numTrans c →
      s.world.worker = .copying numTrans c) :
    AccountInv ⟨w, s.copied, s.broken, s.live⟩ := by
  have hcur : w.cur = s.world.cur := hcounts.curfle
  have hcontribution : ∀ i, AccountWorld.contribution ⟨w, s.copied, s.broken, s.live⟩ i =
      s.contribution i := by
    intro i
    rw [AccountWorld.contribution, hoffset, AccountWorld.contribution]
  refine ⟨?_, ?_, fun hw => h.fresh (hfresh hw), hcounts.skipFile.trans h.clear, ?_, ?_⟩
  · have hprogress : AccountWorld.progress ⟨w, s.copied, s.broken, s.live⟩ = s.progress := by
      simp only [AccountWorld.progress, hcounts.transBytes, hcounts.resumedBytes]
    simp only [Accounted, hprogress, hcontribution, hcur]
    exact h.accounted
  · intro hlive
    simp only [hcontribution, hcur, hcounts.curresumed, hcounts.curtrans]
    exact h.current hlive
  · intro i
    simp only [hcontribution, hdelivered]
    exact h.written i
  · intro numTrans c hw
    simp only [hcur, hoffset, hdelivered]
    exact h.copying numTrans c (hcopying numTrans c hw)

theorem finish (h : AccountInv s) : AccountInv ⟨s.world.finish, s.copied, s.broken, s.live⟩ :=
  h.frame ⟨rfl, rfl, rfl, rfl, rfl, rfl⟩ rfl rfl (fun hw => by cases hw) (fun _ _ hw => by cases hw)

theorem ended (h : AccountInv s) (ret : ℤ) (preserve : Except GftpError Unit) (complete : Bool) :
    AccountInv ⟨s.world.ended ret preserve complete, s.copied, s.broken, s.live⟩ :=
  h.frame (endAttempt_counts ret preserve s.world.t) rfl rfl (fun hw => by cases hw)
    (fun _ _ hw => by cases hw)

/-- The sum over the files passed does not see what changes at the current file. -/
theorem sum_of_others {f g : ℕ → ℤ} {n : ℕ} (h : ∀ i, i ≠ n → f i = g i) :
    ∑ i ∈ Finset.range n, f i = ∑ i ∈ Finset.range n, g i :=
  Finset.sum_congr rfl fun i hi => h i (Nat.ne_of_lt (Finset.mem_range.mp hi))

/-- The current file is live, and what it contributes more is counted. -/
theorem counts {s' : AccountWorld} (h : AccountInv s) (hcur : s'.world.cur = s.world.cur)
    (hlive : s'.live = true) (hskip : s'.world.t.skipFile = s.world.t.skipFile)
    (hothers : ∀ i, i ≠ s.world.cur → s'.contribution i = s.contribution i ∧
      s'.world.delivered i = s.world.delivered i ∧ s'.broken i = s.broken i)
    (hprogress : s'.progress + (if s.live then s.contribution s.world.cur else 0) =
      s.progress + s'.contribution s.world.cur)
    (hcurrent : s'.contribution s.world.cur = s'.world.t.curresumed + s'.world.t.curtrans)
    (hwritten : s'.world.delivered s.world.cur =
      s'.contribution s.world.cur + s'.broken s.world.cur)
    (hworker : unstarted s'.world.worker = false)
    (hcopying : ∀ numTrans c, s'.world.worker = .copying numTrans c →
      s'.world.delivered s.world.cur = s'.world.offset s.world.cur + c.accepted.length) :
    AccountInv s' := by
  refine ⟨?_, ?_, ?_, hskip.trans h.clear, ?_, ?_⟩
  · have hold := h.accounted
    rw [Accounted] at hold ⊢
    rw [hcur, hlive, if_pos rfl, sum_of_others fun i hi => (hothers i hi).1]
    omega
  · intro _
    rw [hcur]
    exact hcurrent
  · intro hw
    rw [hworker] at hw
    cases hw
  · intro i
    by_cases hi : i = s.world.cur
    · subst hi
      exact hwritten
    · obtain ⟨hcontribution, hdelivered, hbroken⟩ := hothers i hi
      rw [hcontribution, hdelivered, hbroken]
      exact h.written i
  · intro numTrans c hw
    rw [hcur]
    exact ⟨hlive, hcopying numTrans c hw⟩

theorem begin {a : Answers} {preserve : Except GftpError Unit} (h : AccountInv s)
    (hw : s.world.worker = .begun) :
    AccountInv ⟨s.world.begin a preserve, noteCopied s.world (.begin a preserve) s.copied,
      noteBroken s.world (.begin a preserve) s.broken,
      noteLive s.world (.begin a preserve) s.live⟩ := by
  have hnotLive : s.live = false := h.fresh (by rw [hw]; rfl)
  rcases hattempt : transFileOrDir a s.world.t with ⟨t', attempt⟩
  cases transFileOrDir_counted hattempt with
  | same hsame hnot =>
    have hstarts : starts a s.world.t = false := by
      rw [starts, hattempt]
      cases attempt with
      | copying c => exact absurd rfl (hnot c)
      | _ => rfl
    simp only [noteCopied, noteBroken, noteLive, hstarts, Bool.or_false, if_neg Bool.false_ne_true]
    cases attempt with
    | copying c => exact absurd rfl (hnot c)
    | refused ret =>
      rw [show s.world.begin a preserve = { s.world with t := t', worker := .attempted ret } by
        rw [World.begin, hattempt]]
      exact h.frame hsame rfl rfl (fun hw => by cases hw) (fun _ _ hw => by cases hw)
    | ended ret =>
      rw [show s.world.begin a preserve = (s.world.started t').ended ret preserve true by
        rw [World.begin, hattempt]]
      refine h.frame (hsame.trans (endAttempt_counts ret preserve t')) rfl rfl ?_ ?_
      · exact fun hw => by cases hw
      · exact fun _ _ hw => by cases hw
  | copying source puts n hsame hfile =>
    rename_i t₁
    have hstarts : starts a s.world.t = true := by rw [starts, hattempt]
    have hplace : t₁.curfle = s.world.cur := hsame.curfle
    have hstart : World.usedStart t₁.file = startOffset t₁.file := by
      rw [World.usedStart, hfile]
      rfl
    rw [begin_copying hattempt]
    simp only [noteCopied, noteBroken, noteLive, hstarts, Bool.or_true, if_pos]
    have hself : ∀ m : ℕ → ℤ, Function.update m t₁.curfle (World.usedStart t₁.file) s.world.cur =
        startOffset t₁.file := by
      intro m
      rw [hplace, Function.update_self, hstart]
    have hnone : ∀ m : ℕ → ℤ, Function.update m s.world.cur 0 s.world.cur = 0 :=
      fun m => Function.update_self ..
    have hcontribution : Function.update s.world.offset t₁.curfle (World.usedStart t₁.file)
        s.world.cur + Function.update s.copied s.world.cur 0 s.world.cur = startOffset t₁.file := by
      rw [hself, hnone, Int.add_zero]
    refine h.counts hplace rfl hsame.skipFile ?_ ?_ ?_ ?_ rfl ?_
    · intro i hi
      refine ⟨?_, Function.update_of_ne (hplace ▸ hi) .., Function.update_of_ne hi ..⟩
      show Function.update s.world.offset t₁.curfle _ i + Function.update s.copied s.world.cur 0 i = _
      rw [Function.update_of_ne (hplace ▸ hi), Function.update_of_ne hi]
      rfl
    · rw [hnotLive]
      refine Eq.trans ?_ (congrArg (s.progress + ·) hcontribution).symm
      show t₁.transBytes + (t₁.resumedBytes + startOffset t₁.file) + 0 =
        s.world.t.transBytes + s.world.t.resumedBytes + startOffset t₁.file
      rw [hsame.transBytes, hsame.resumedBytes]
      omega
    · exact hcontribution.trans (Int.add_zero _).symm
    · refine (hself s.world.delivered).trans ?_
      refine Eq.trans ?_ (congrArg₂ (· + ·) hcontribution (hnone s.broken)).symm
      exact (Int.add_zero _).symm
    · intro numTrans c' hc
      obtain ⟨-, rfl⟩ := Worker.copying.inj hc
      refine (hself s.world.delivered).trans ?_
      refine Eq.trans ?_ (congrArg (· + _) (hself s.world.offset)).symm
      exact (Int.add_zero _).symm

/-- A block adds what gftp_calc_kbs counts of it to the contribution, and the rest of what was
accepted to the bytes broken off. -/
theorem moved {numTrans ret : Except GftpError ℕ} {c c' : CopyState} {blksize : ℕ}
    {resets : Bool} {fromEnd toEnd preserve : Except GftpError Unit} (h : AccountInv s)
    (hw : s.world.worker = .copying numTrans c) (hblock : doTransferBlock blksize c = .ok (ret, c'))
    (hcur : w.cur = s.world.cur) (hskip : w.t.skipFile = s.world.t.skipFile)
    (hoffset : w.offset = s.world.offset)
    (hdelivered : w.delivered = Function.update s.world.delivered s.world.cur
      (s.world.offset s.world.cur + c'.accepted.length))
    (hprogress : w.t.transBytes + w.t.resumedBytes = s.progress + counted ret)
    (hcurrent : w.t.curresumed + w.t.curtrans =
      s.world.t.curresumed + s.world.t.curtrans + counted ret)
    (hworker : unstarted w.worker = false)
    (hcopying : ∀ numTrans c, w.worker = .copying numTrans c → c = c') :
    AccountInv ⟨w, noteCopied s.world (.block blksize resets fromEnd toEnd preserve) s.copied,
      noteBroken s.world (.block blksize resets fromEnd toEnd preserve) s.broken, s.live⟩ := by
  obtain ⟨hlive, hbefore⟩ := h.copying numTrans c hw
  have hcopied : noteCopied s.world (.block blksize resets fromEnd toEnd preserve) s.copied =
      Function.update s.copied s.world.cur (s.copied s.world.cur + counted ret) := by
    simp only [noteCopied, noteBlock, hw, hblock]
  have hbroken : noteBroken s.world (.block blksize resets fromEnd toEnd preserve) s.broken =
      Function.update s.broken s.world.cur (s.broken s.world.cur +
        (c'.accepted.length - c.accepted.length - counted ret)) := by
    simp only [noteBroken, noteBlock, hw, hblock]
  rw [hcopied, hbroken]
  have hcontribution : w.offset s.world.cur +
      Function.update s.copied s.world.cur (s.copied s.world.cur + counted ret) s.world.cur =
        s.contribution s.world.cur + counted ret := by
    rw [hoffset, Function.update_self, ← Int.add_assoc]
    rfl
  refine h.counts hcur hlive hskip ?_ ?_ ?_ ?_ hworker ?_
  · intro i hi
    refine ⟨?_, ?_, Function.update_of_ne hi ..⟩
    · show w.offset i + Function.update s.copied s.world.cur _ i = _
      rw [hoffset, Function.update_of_ne hi]
      rfl
    · show w.delivered i = _
      rw [hdelivered, Function.update_of_ne hi]
  · rw [hlive, if_pos rfl]
    refine Eq.trans ?_ (congrArg (s.progress + ·) hcontribution).symm
    show w.t.transBytes + w.t.resumedBytes + _ = _
    rw [hprogress]
    omega
  · refine hcontribution.trans ?_
    show _ = w.t.curresumed + w.t.curtrans
    rw [hcurrent, h.current hlive]
  · refine Eq.trans ?_ (congrArg (· + _) hcontribution).symm
    show w.delivered s.world.cur = _ + Function.update s.broken s.world.cur _ s.world.cur
    rw [hdelivered, Function.update_self, Function.update_self]
    have hwritten := h.written s.world.cur
    omega
  · intro numTrans' c₁ hc
    obtain rfl := hcopying numTrans' c₁ hc
    show w.delivered s.world.cur = w.offset s.world.cur + _
    rw [hdelivered, hoffset, Function.update_self]

theorem block {numTrans ret : Except GftpError ℕ} {c c' : CopyState} {blksize : ℕ} {resets : Bool}
    {fromEnd toEnd preserve : Except GftpError Unit} (h : AccountInv s)
    (hw : s.world.worker = .copying numTrans c) (hblock : doTransferBlock blksize c = .ok (ret, c')) :
    AccountInv ⟨s.world.block c' ret resets fromEnd toEnd preserve,
      noteCopied s.world (.block blksize resets fromEnd toEnd preserve) s.copied,
      noteBroken s.world (.block blksize resets fromEnd toEnd preserve) s.broken, s.live⟩ := by
  -- the attempt ends behind a block that is not counted
  have hend : counted ret = 0 → ∀ complete, AccountInv ⟨World.ended { s.world with
        delivered := Function.update s.world.delivered s.world.cur
          (s.world.offset s.world.cur + c'.accepted.length) }
        (endCopy ret fromEnd toEnd) preserve complete,
      noteCopied s.world (.block blksize resets fromEnd toEnd preserve) s.copied,
      noteBroken s.world (.block blksize resets fromEnd toEnd preserve) s.broken, s.live⟩ := by
    intro hnone complete
    have hsame := endAttempt_counts (endCopy ret fromEnd toEnd) preserve s.world.t
    refine h.moved hw hblock hsame.curfle hsame.skipFile rfl rfl ?_ ?_ rfl (fun _ _ hc => by cases hc)
    · show Transfer.transBytes _ + Transfer.resumedBytes _ = _
      rw [hnone]
      exact (congrArg₂ (· + ·) hsame.transBytes hsame.resumedBytes).trans (Int.add_zero _).symm
    · rw [hnone]
      exact (congrArg₂ (· + ·) hsame.curresumed hsame.curtrans).trans (Int.add_zero _).symm
  unfold World.block
  split
  · rename_i n
    have hgo : ∀ retries : ℤ, AccountInv ⟨{ s.world with
          delivered := Function.update s.world.delivered s.world.cur
            (s.world.offset s.world.cur + c'.accepted.length)
          t := { gftpCalcKbs (n + 1) s.world.t with currentFileRetries := retries }
          worker := .copying (.ok (n + 1)) c' },
        noteCopied s.world (.block blksize resets fromEnd toEnd preserve) s.copied,
        noteBroken s.world (.block blksize resets fromEnd toEnd preserve) s.broken, s.live⟩ := by
      intro retries
      refine h.moved hw hblock rfl rfl rfl rfl ?_ ?_ rfl (fun _ _ hc => (Worker.copying.inj hc).2.symm)
      · show s.world.t.transBytes + (n + 1 : ℕ) + s.world.t.resumedBytes =
          s.world.t.transBytes + s.world.t.resumedBytes + (n + 1 : ℕ)
        omega
      · exact (Int.add_assoc ..).symm
    cases resets with
    | true => exact hgo 0
    | false => exact hgo s.world.t.currentFileRetries
  · rename_i hnot
    refine hend ?_ _
    cases ret with
    | error e => rfl
    | ok n =>
      cases n with
      | zero => rfl
      | succ n => exact absurd rfl (hnot n)

/-- Another file is the current one, or the current one is not live any more. -/
theorem settle {w : World} (h : AccountInv s) (hoffset : w.offset = s.world.offset)
    (hdelivered : w.delivered = s.world.delivered) (hskip : w.t.skipFile = s.world.t.skipFile)
    (hprogress : w.t.transBytes + w.t.resumedBytes =
      ∑ i ∈ Finset.range w.cur, s.contribution i)
    (hcopying : ∀ numTrans c, w.worker ≠ .copying numTrans c) :
    AccountInv ⟨w, s.copied, s.broken, false⟩ := by
  have hcontribution : ∀ i, AccountWorld.contribution ⟨w, s.copied, s.broken, false⟩ i =
      s.contribution i := by
    intro i
    rw [AccountWorld.contribution, hoffset, AccountWorld.contribution]
  refine ⟨?_, nofun, fun _ => rfl, hskip.trans h.clear, ?_, ?_⟩
  · simp only [Accounted, hcontribution]
    exact hprogress.trans (Int.add_zero _).symm
  · intro i
    simp only [hcontribution, hdelivered]
    exact h.written i
  · exact fun numTrans c hw => absurd hw (hcopying numTrans c)

/-- The count of the current file is taken off; it is 0 when the file is not live. -/
theorem reconnected {t : Transfer} {marked : ℕ → Bool} (h : AccountInv s)
    (hsame : SameCounts s.world.t t)
    (hfit : s.live = false → s.world.t.curresumed + s.world.t.curtrans = 0) :
    AccountInv ⟨{ s.world with t := TransferState.reconnected t, worker := .loop, marked := marked },
      s.copied, s.broken, false⟩ := by
  obtain ⟨hskip, htrans, hresumed, -⟩ := reconnected_counts (hsame.skipFile.trans h.clear)
  have hcur : (TransferState.reconnected t).curfle = s.world.cur :=
    (reconnected_mark (hsame.skipFile.trans h.clear)).2.1.trans hsame.curfle
  refine h.settle rfl rfl (hskip.trans hsame.skipFile) ?_ (fun _ _ hc => by cases hc)
  show (TransferState.reconnected t).transBytes + (TransferState.reconnected t).resumedBytes =
    ∑ i ∈ Finset.range (TransferState.reconnected t).curfle, s.contribution i
  rw [hcur, htrans, hresumed, hsame.resumedBytes, hsame.transBytes, hsame.curresumed,
    hsame.curtrans]
  have hold := h.accounted
  rw [Accounted, AccountWorld.progress] at hold
  by_cases hlive : s.live = true
  · rw [if_pos hlive, h.current hlive] at hold
    omega
  · rw [if_neg hlive] at hold
    have hnone := hfit (Bool.not_eq_true _ ▸ hlive)
    omega

theorem retry {ret retries : ℤ} {connect : Except GftpError Unit} (h : AccountInv s)
    (hfit : AccountFit s (.retry retries connect)) :
    AccountInv ⟨s.world.retry ret retries connect, s.copied, s.broken,
      noteLive s.world (.retry retries connect) s.live⟩ := by
  unfold World.retry
  split
  · rename_i htries
    cases connect with
    | ok u =>
      rw [show noteLive s.world (.retry retries (.ok u)) s.live = false from if_pos htries]
      exact h.reconnected ⟨rfl, rfl, rfl, rfl, rfl, rfl⟩ (hfit htries)
    | error e =>
      simp only
      split <;>
        exact h.frame ⟨rfl, rfl, rfl, rfl, rfl, rfl⟩ rfl rfl (fun hc => by cases hc)
          (fun _ _ hc => by cases hc)
  · rename_i htries
    have hsame : noteLive s.world (.retry retries connect) s.live = s.live := by
      cases connect with
      | ok u => exact if_neg htries
      | error e => rfl
    rw [hsame]
    exact h.finish

theorem pass (h : AccountInv s) (hfit : s.live = false → s.contribution s.world.cur = 0) :
    AccountInv ⟨{ s.world with t := nextFileInTrans s.world.t, worker := .passed },
      s.copied, s.broken, false⟩ := by
  refine h.settle rfl rfl rfl ?_ (fun _ _ hc => by cases hc)
  show s.progress = ∑ i ∈ Finset.range (s.world.cur + 1), s.contribution i
  rw [Finset.sum_range_succ, h.accounted]
  by_cases hlive : s.live = true
  · rw [if_pos hlive]
  · rw [if_neg hlive, hfit (Bool.not_eq_true _ ▸ hlive)]

theorem step {action : TransAction} {s' : AccountWorld} (hstep : AccountStep s action s')
    (hfit : AccountFit s action) (h : AccountInv s) : AccountInv s' := by
  have hsame : SameCounts s.world.t s.world.t := .refl _
  cases hstep with
  | step hstep =>
    cases hstep with
    | allDone hw hall => exact h.finish
    | attempt hw hmore =>
      refine h.frame ⟨rfl, rfl, rfl, rfl, rfl, rfl⟩ rfl rfl (fun _ => by rw [hw]; rfl) ?_
      intro _ _ hc
      simp only at hc
      split at hc <;> cases hc
    | begin hw => exact h.begin hw
    | block hw hgo hblock => exact h.block hw hblock
    | stopped hw hstop => exact h.ended ..
    | judge hw =>
      refine h.frame hsame rfl rfl ?_ ?_
      · intro hc
        simp only [World.judge] at hc
        split_ifs at hc <;> cases hc
      · intro _ _ hc
        simp only [World.judge] at hc
        split_ifs at hc
    | status hw =>
      unfold World.status
      split
      · exact h.finish
      · split
        · exact h.finish
        · exact h.frame hsame rfl rfl (fun hc => by cases hc) (fun _ _ hc => by cases hc)
    | retry hw => exact h.retry hfit
    | pass hw => exact h.pass hfit
    | afterPass hw =>
      unfold World.afterPass
      split
      · split
        · exact h.frame ⟨rfl, rfl, rfl, rfl, rfl, rfl⟩ rfl rfl (fun _ => by rw [hw]; rfl)
            (fun _ _ hc => by cases hc)
        · exact h.finish
      · exact h.frame hsame rfl rfl (fun _ => by rw [hw]; rfl) (fun _ _ hc => by cases hc)
    | cancelTransfer => exact hfit.elim
    | skipFile hi => exact hfit.elim
    | nextTransfer hnext =>
      exact h.frame ⟨rfl, rfl, rfl, rfl, rfl, rfl⟩ rfl rfl id (fun _ _ hc => hc)

end AccountInv

/-- A file to be resumed has failed before, so that its destination is asked, or it has a place
where it can be resumed. -/
def Resumable (f : TransFile) : Prop :=
  f.transferAction = .resume → f.retryTransfer = true ∨ 0 ≤ f.startsize

/-- Nothing negative is counted. -/
structure Signs (s : AccountWorld) : Prop where
  curtrans : 0 ≤ s.world.t.curtrans
  curresumed : 0 ≤ s.world.t.curresumed
  offset : ∀ i, 0 ≤ s.world.offset i
  copied : ∀ i, 0 ≤ s.copied i
  files : ∀ i, Resumable (s.world.t.files i)

theorem asked_resumable {t t' : Transfer} (h : Asked t t') (hfiles : ∀ i, Resumable (t.files i))
    (i : ℕ) : Resumable (t'.files i) := by
  by_cases hi : i = t.curfle
  · subst hi
    have hsame : t'.files t.curfle = t'.file := by rw [Transfer.file, h.curfle]
    rw [hsame]
    intro hresume
    by_cases hretry : t.file.retryTransfer = true
    · exact .inl (h.retry.trans hretry)
    · obtain ⟨haction, hstart⟩ := h.first (Bool.not_eq_true _ ▸ hretry)
      rcases hfiles t.curfle (haction.symm.trans hresume) with hold | hold
      · exact absurd hold hretry
      · exact .inr (hstart.symm ▸ hold)
  · rw [h.others i hi]
    exact hfiles i

theorem startOffset_nonneg {f : TransFile} (h : f.transferAction = .resume → 0 ≤ f.startsize) :
    0 ≤ startOffset f := by
  unfold startOffset
  split
  · rename_i hresume
    exact h hresume
  · exact Int.le_refl 0

theorem resumable_setFile {t : Transfer} {f : TransFile} (hfiles : ∀ i, Resumable (t.files i))
    (hf : Resumable f) (i : ℕ) : Resumable ((t.setFile f).files i) := by
  by_cases hi : i = t.curfle
  · subst hi
    rw [show (t.setFile f).files t.curfle = f from Function.update_self ..]
    exact hf
  · rw [setFile_files_ne hi]
    exact hfiles i

namespace Signs

variable {s : AccountWorld} {w : World} {broken : ℕ → ℤ} {live : Bool}

/-- The files may have changed, but the counters have not. -/
theorem frame (h : Signs s) (hcurtrans : w.t.curtrans = s.world.t.curtrans)
    (hcurresumed : w.t.curresumed = s.world.t.curresumed) (hoffset : w.offset = s.world.offset)
    (hfiles : ∀ i, Resumable (w.t.files i)) : Signs ⟨w, s.copied, broken, live⟩ where
  curtrans := hcurtrans.symm ▸ h.curtrans
  curresumed := hcurresumed.symm ▸ h.curresumed
  offset := hoffset.symm ▸ h.offset
  copied := h.copied
  files := hfiles

theorem endAttempt_files {t : Transfer} (hfiles : ∀ i, Resumable (t.files i)) (ret : ℤ)
    (preserve : Except GftpError Unit) (i : ℕ) : Resumable ((endAttempt ret preserve t).1.files i) := by
  unfold endAttempt
  split
  · exact hfiles i
  · exact resumable_setFile hfiles (fun _ => .inl rfl) i

/-- Where a copy starts is the answer of the destination for a file that has failed before, and
the place of a file to be resumed else. -/
theorem begin {a : Answers} {preserve : Except GftpError Unit} (h : Signs s) :
    Signs ⟨s.world.begin a preserve, noteCopied s.world (.begin a preserve) s.copied, broken,
      live⟩ := by
  rcases hattempt : transFileOrDir a s.world.t with ⟨t', attempt⟩
  have hnoted : (∀ c, attempt ≠ .copying c) →
      noteCopied s.world (.begin a preserve) s.copied = s.copied := by
    intro hnot
    cases attempt with
    | copying c => exact absurd rfl (hnot c)
    | _ => simp [noteCopied, starts, hattempt]
  cases transFileOrDir_began hattempt with
  | refused ret hneg hasked hdir =>
    rw [hnoted nofun, show s.world.begin a preserve =
      { s.world with t := t', worker := .attempted ret } by rw [World.begin, hattempt]]
    have hsame := counts_of_not_copying hattempt nofun
    exact h.frame hsame.curtrans hsame.curresumed rfl (asked_resumable hasked h.files)
  | directory hdir =>
    rw [hnoted nofun, show s.world.begin a preserve = (s.world.started _).ended _ preserve true by
      rw [World.begin, hattempt]]
    have hends := endAttempt_counts (if 0 < s.world.t.file.startsize then 1
      else retOf a.makeDirectory) preserve { s.world.t with totFileTrans := 0 }
    exact h.frame hends.curtrans hends.curresumed rfl
      (endAttempt_files (t := { s.world.t with totFileTrans := 0 }) h.files _ _)
  | failed e hfile hasked hretried =>
    rename_i t₁
    rw [hnoted nofun, show s.world.begin a preserve = (s.world.started _).ended _ preserve true by
      rw [World.begin, hattempt]]
    have hends := endAttempt_counts e.code preserve { t₁ with totFileTrans := e.code }
    have hsame := counts_of_not_copying hattempt nofun
    have hfiles := asked_resumable hasked h.files
    exact h.frame (hends.curtrans.trans hsame.curtrans) (hends.curresumed.trans hsame.curresumed) rfl
      (endAttempt_files (t := { t₁ with totFileTrans := e.code }) hfiles _ _)
  | copying n hfile hasked hretried =>
    rename_i t₁
    have hoffset : 0 ≤ startOffset t₁.file := by
      refine startOffset_nonneg fun hresume => ?_
      by_cases hretry : s.world.t.file.retryTransfer = true
      · obtain ⟨m, -, hstart, -⟩ := hretried hretry
        rw [hstart]
        exact Int.natCast_nonneg m
      · obtain ⟨haction, hstart⟩ := hasked.first (Bool.not_eq_true _ ▸ hretry)
        rw [hstart]
        exact (h.files s.world.t.curfle (haction.symm.trans hresume)).resolve_left hretry
    have hused : World.usedStart t₁.file = startOffset t₁.file := by
      rw [World.usedStart, hasked.isDir.trans hfile]
      rfl
    have hstarts : starts a s.world.t = true := by rw [starts, hattempt]
    rw [begin_copying hattempt]
    have hfiles := asked_resumable hasked h.files
    refine ⟨Int.le_refl 0, hoffset, fun i => ?_, fun i => ?_, hfiles⟩
    · show 0 ≤ Function.update s.world.offset t₁.curfle (World.usedStart t₁.file) i
      rw [hused]
      by_cases hi : i = t₁.curfle
      · subst hi
        exact (Function.update_self t₁.curfle (startOffset t₁.file) s.world.offset).symm ▸ hoffset
      · rw [Function.update_of_ne hi]
        exact h.offset i
    · simp only [noteCopied, hstarts, if_pos]
      by_cases hi : i = s.world.cur
      · subst hi
        exact (Function.update_self s.world.cur 0 s.copied).symm ▸ Int.le_refl 0
      · rw [Function.update_of_ne hi]
        exact h.copied i

theorem block {numTrans ret : Except GftpError ℕ} {c c' : CopyState} {blksize : ℕ} {resets : Bool}
    {fromEnd toEnd preserve : Except GftpError Unit} (h : Signs s)
    (hw : s.world.worker = .copying numTrans c) (hblock : doTransferBlock blksize c = .ok (ret, c')) :
    Signs ⟨s.world.block c' ret resets fromEnd toEnd preserve,
      noteCopied s.world (.block blksize resets fromEnd toEnd preserve) s.copied, broken, live⟩ := by
  have hcopied : ∀ i, 0 ≤ noteCopied s.world (.block blksize resets fromEnd toEnd preserve)
      s.copied i := by
    intro i
    simp only [noteCopied, noteBlock, hw, hblock]
    by_cases hi : i = s.world.cur
    · subst hi
      rw [Function.update_self]
      exact Int.add_nonneg (h.copied _) (Int.natCast_nonneg _)
    · rw [Function.update_of_ne hi]
      exact h.copied i
  have hends := endAttempt_counts (endCopy ret fromEnd toEnd) preserve s.world.t
  have hadd : ∀ n : ℕ, 0 ≤ s.world.t.curtrans + n :=
    fun n => Int.add_nonneg h.curtrans (Int.natCast_nonneg n)
  unfold World.block
  split
  · cases resets with
    | true => exact ⟨hadd _, h.curresumed, h.offset, hcopied, h.files⟩
    | false => exact ⟨hadd _, h.curresumed, h.offset, hcopied, h.files⟩
  · exact ⟨hends.curtrans.symm ▸ h.curtrans, hends.curresumed.symm ▸ h.curresumed, h.offset, hcopied,
      endAttempt_files h.files _ _⟩

/-- The file that is marked is to be resumed behind the counts. -/
theorem retry {ret retries : ℤ} {connect : Except GftpError Unit} (h : Signs s)
    (hclear : s.world.t.skipFile = false) :
    Signs ⟨s.world.retry ret retries connect, s.copied, broken, live⟩ := by
  unfold World.retry
  split
  · cases connect with
    | ok u =>
      obtain ⟨hfiles, hcur, -, hcurtrans⟩ := reconnected_mark (t := { s.world.t with
        currentFileRetries := s.world.t.currentFileRetries + 1 }) hclear
      refine ⟨hcurtrans.symm ▸ h.curtrans, ?_, h.offset, h.copied, fun i => ?_⟩
      · obtain ⟨-, -, -, hnone⟩ := reconnected_counts (t := { s.world.t with
          currentFileRetries := s.world.t.currentFileRetries + 1 }) hclear
        exact hnone.symm ▸ Int.le_refl 0
      · refine (congrFun hfiles i).symm ▸ ?_
        refine resumable_setFile h.files (fun _ => .inr ?_) i
        exact Int.add_nonneg h.curtrans h.curresumed
    | error e =>
      simp only
      split <;> exact h.frame rfl rfl rfl h.files
  · exact h.frame rfl rfl rfl h.files

theorem step {action : TransAction} {s' : AccountWorld} (hstep : AccountStep s action s')
    (hfit : AccountFit s action) (hclear : s.world.t.skipFile = false) (h : Signs s) : Signs s' := by
  cases hstep with
  | step hstep =>
    cases hstep with
    | allDone hw hall => exact h.frame rfl rfl rfl h.files
    | attempt hw hmore => exact h.frame rfl rfl rfl h.files
    | begin hw => exact h.begin
    | block hw hgo hblock => exact h.block hw hblock
    | stopped hw hstop =>
      have hends : ∀ ret preserve, SameCounts s.world.t (endAttempt ret preserve s.world.t).1 :=
        fun ret preserve => endAttempt_counts ret preserve s.world.t
      exact h.frame (hends _ _).curtrans (hends _ _).curresumed rfl (endAttempt_files h.files _ _)
    | judge hw => exact h.frame rfl rfl rfl h.files
    | status hw =>
      unfold World.status
      split
      · exact h.frame rfl rfl rfl h.files
      · split <;> exact h.frame rfl rfl rfl h.files
    | retry hw => exact h.retry hclear
    | pass hw =>
      exact ⟨Int.le_refl 0, h.curresumed, h.offset, h.copied,
        resumable_setFile h.files (f := { s.world.t.file with transferDone := true })
          (h.files s.world.t.curfle)⟩
    | afterPass hw =>
      unfold World.afterPass
      split
      · split <;> exact h.frame rfl rfl rfl h.files
      · exact h.frame rfl rfl rfl h.files
    | cancelTransfer => exact hfit.elim
    | skipFile hi => exact hfit.elim
    | nextTransfer hnext => exact h.frame rfl rfl rfl h.files

theorem progress_nonneg (h : Signs s) (hsum : Accounted s) : 0 ≤ s.progress := by
  have hpart : ∀ i, 0 ≤ s.contribution i := fun i => Int.add_nonneg (h.offset i) (h.copied i)
  rw [hsum]
  refine Int.add_nonneg (Finset.sum_nonneg fun i _ => hpart i) ?_
  split
  · exact hpart _
  · exact Int.le_refl 0

end Signs

section Runs

/-- In a run that fits, the progress is what the files have contributed, each with the bytes
that the destination has accepted of it but those broken off; and it is not negative, when no
file is to be resumed at a negative place. -/
theorem progress_accounted {files : ℕ → TransFile} {numFiles : ℕ} {totalBytes : ℤ} {conn : Bool}
    {s : AccountWorld}
    (hrun : Reaches AccountStep AccountFit (.start files numFiles totalBytes conn) s) :
    Accounted s ∧ (∀ i, s.world.delivered i = s.contribution i + s.broken i) ∧
      ((∀ i, (files i).transferAction = .resume → 0 ≤ (files i).startsize) → 0 ≤ s.progress) := by
  have hinv : AccountInv s := hrun.invariant AccountInv (.start ..)
    (fun _ _ _ h hfit hstep => h.step hstep hfit)
  refine ⟨hinv.accounted, hinv.written, fun hfiles => ?_⟩
  have hsigns : AccountInv s ∧ Signs s := by
    refine hrun.invariant (fun s => AccountInv s ∧ Signs s) ⟨.start .., ?_⟩ ?_
    · exact ⟨Int.le_refl 0, Int.le_refl 0, fun _ => Int.le_refl 0, fun _ => Int.le_refl 0,
        fun i hresume => .inr (hfiles i hresume)⟩
    · exact fun _ _ _ h hfit hstep => ⟨h.1.step hstep hfit, h.2.step hstep hfit h.1.clear⟩
  exact hsigns.2.progress_nonneg hinv.accounted

/-- A file of ten bytes that is to be overwritten when it is there. -/
def plainFile : TransFile where
  isDir := false
  size := 10
  startsize := 0
  transferAction := .unset
  retryTransfer := false
  transferDone := false
  doneView := false
  doneEdit := false
  doneRm := false

/-- Five bytes are copied before the source fails. -/
def halfOfIt : Answers where
  connect := .ok ()
  makeDirectory := .ok ()
  size := .ok 10
  destSize := .ok 5
  transferFile := .ok 10
  source := [.ok [1, 2, 3, 4, 5], .error .retryable]
  puts := [.ok 5]

/-- One side is not there. -/
def noConnection : Answers := { halfOfIt with connect := .error .timedOut }

/-- The file is interrupted in its middle and started again there. -/
theorem restarted_file_accounted : ∃ s,
    Reaches AccountStep AccountFit (.start (fun _ => plainFile) 1 10 false) s ∧
      s.live = true ∧ s.progress = 5 ∧ Accounted s ∧ 0 ≤ s.progress := by
  have hrun : Reaches AccountStep AccountFit (.start (fun _ => plainFile) 1 10 false) _ :=
    (Reaches.refl _).tail (a := .attempt) trivial (.step (.attempt rfl (by decide)))
      |>.tail (a := .begin halfOfIt (.ok ())) trivial (.step (.begin rfl))
      |>.tail (a := .block 8 false (.ok ()) (.ok ()) (.ok ())) trivial (.step (.block rfl rfl rfl))
      |>.tail (a := .block 8 false (.ok ()) (.ok ()) (.ok ())) trivial (.step (.block rfl rfl rfl))
      |>.tail (a := .judge) trivial (.step (.judge rfl))
      |>.tail (a := .status 3) trivial (.step (.status rfl))
      |>.tail (a := .retry 3 (.ok ())) (fun _ hlive => by cases hlive) (.step (.retry rfl))
      |>.tail (a := .attempt) trivial (.step (.attempt rfl (by decide)))
      |>.tail (a := .begin halfOfIt (.ok ())) trivial (.step (.begin rfl))
  obtain ⟨hsum, -, hsign⟩ := progress_accounted hrun
  exact ⟨_, hrun, rfl, rfl, hsum, hsign fun i hresume => by cases hresume⟩

/-- The file is interrupted in its middle, and the connection is lost again before it is
started there: its five bytes are taken off twice. -/
theorem interrupted_twice :
    ¬ ∀ (files : ℕ → TransFile) (numFiles : ℕ) (totalBytes : ℤ) (conn : Bool) (s : AccountWorld),
      Reaches AccountStep NoRequests (.start files numFiles totalBytes conn) s →
        Accounted s ∧ 0 ≤ s.progress := by
  intro h
  have hrun : Reaches AccountStep NoRequests (.start (fun _ => plainFile) 1 10 false) _ :=
    (Reaches.refl _).tail (a := .attempt) trivial (.step (.attempt rfl (by decide)))
      |>.tail (a := .begin halfOfIt (.ok ())) trivial (.step (.begin rfl))
      |>.tail (a := .block 8 false (.ok ()) (.ok ()) (.ok ())) trivial (.step (.block rfl rfl rfl))
      |>.tail (a := .block 8 false (.ok ()) (.ok ()) (.ok ())) trivial (.step (.block rfl rfl rfl))
      |>.tail (a := .judge) trivial (.step (.judge rfl))
      |>.tail (a := .status 3) trivial (.step (.status rfl))
      |>.tail (a := .retry 3 (.ok ())) trivial (.step (.retry rfl))
      |>.tail (a := .attempt) trivial (.step (.attempt rfl (by decide)))
      |>.tail (a := .begin noConnection (.ok ())) trivial (.step (.begin rfl))
      |>.tail (a := .judge) trivial (.step (.judge rfl))
      |>.tail (a := .status 3) trivial (.step (.status rfl))
      |>.tail (a := .retry 3 (.ok ())) trivial (.step (.retry rfl))
  have hnegative := (h _ _ _ _ _ hrun).2
  exact absurd hnegative (by decide)

end Runs

end Gftp.ProgressAccounts
