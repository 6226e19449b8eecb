import Gftp.TransferRun

/-!
Where a file is started again after a failure. gftp_get_transfer_status takes the count of
the current file from curtrans and curresumed, and curresumed is still that of the file
before when the current one was never started. A run in which it is not, and in which the
destination answers with what was delivered to it, resumes every file behind the bytes
delivered of that file.
-/

namespace Gftp.ResumeOffsets

open ByteStreams ByteStrings CopyLoop Protocol Runs TransferRun TransferState

section Blocks

variable {blksize : ℕ} {c c' : CopyState} {ret : Except GftpError ℕ}

theorem block_moved {n : ℕ} (h : doTransferBlock blksize c = .ok (.ok (n + 1), c')) :
    c'.accepted.length = c.accepted.length + (n + 1) := by
  unfold doTransferBlock at h
  split at h
  · simp at h
  · rename_i d source _
    obtain ⟨r, hrest, h⟩ := CRun.bind_eq_ok.mp h
    obtain ⟨hret, rfl⟩ := Prod.mk.inj (Except.ok.inj h)
    obtain ⟨-, -, hcases⟩ := putRest_contract hrest
    rcases hcases with ⟨hall, haccepted⟩ | ⟨e, herror⟩ | ⟨hzero, -⟩
    · have hlen : d.length = n + 1 := Except.ok.inj (hall.symm.trans hret)
      rw [haccepted, List.length_append, hlen]
    · rw [herror] at hret
      simp at hret
    · rw [hzero] at hret
      simp at hret

end Blocks

/-- A file is marked only while curresumed is the place where this file was last started, 0
where it was not; a file that has failed before needs no mark, but the destination answers
with what was delivered to it; and a block of which a part was accepted does not end the copy
as if it were its end, when the attempt fails behind it. -/
def ResumeFit (w : World) : TransAction → Prop
  | .begin a _ =>
      w.marked w.cur = true → w.t.file.retryTransfer = true → w.t.file.isDir = false →
        ∀ n : ℕ, a.destSize = .ok n → (n : ℤ) = w.delivered w.cur
  | .block blksize _ fromEnd toEnd (.error _) =>
      ∀ numTrans c ret c', w.worker = .copying numTrans c →
        doTransferBlock blksize c = .ok (ret, c') → endCopy ret fromEnd toEnd = 0 →
          c'.accepted = c.accepted
  | .retry retries (.ok _) =>
      retries = 0 ∨ w.t.currentFileRetries ≤ retries → w.t.skipFile = false →
        w.t.file.retryTransfer = false ∨ w.t.file.isDir = true →
          w.t.curresumed = w.offset w.cur
  | _ => True

/-- The current file is through, so that it will not be marked. -/
def settled : Worker → Bool
  | .attempted ret => 0 ≤ ret
  | .passing _ => true
  | _ => false

structure ResumeInv (w : World) : Prop where
  later : ∀ i, w.cur < i → w.offset i = 0 ∧ w.delivered i = 0 ∧ w.marked i = false
  directory : w.t.file.isDir = true →
    w.offset w.cur = 0 ∧ w.delivered w.cur = 0 ∧ w.t.curtrans = 0
  counted : settled w.worker = false → w.t.file.retryTransfer = false →
    w.t.curtrans + w.offset w.cur = w.delivered w.cur
  resumes : w.marked w.cur = true → w.t.file.transferAction = .resume
  startsize : w.marked w.cur = true →
    w.t.file.retryTransfer = false ∨ w.t.file.isDir = true →
      w.t.file.startsize = w.delivered w.cur
  copying : ∀ numTrans c, w.worker = .copying numTrans c →
    w.t.file.isDir = false ∧ w.marked w.cur = false ∧ w.t.curtrans = c.accepted.length ∧
      w.delivered w.cur = w.offset w.cur + c.accepted.length
  restarts : ∀ x ∈ w.restarts, x.startsize = x.delivered

namespace ResumeInv

variable {w w' : World}

theorem start (files : ℕ → TransFile) (numFiles : ℕ) (totalBytes : ℤ) (conn : Bool) :
    ResumeInv (.start files numFiles totalBytes conn) := by
  constructor <;> simp [World.start]

/-- Nothing that the invariant reads of the current file has changed. -/
theorem of_same (h : ResumeInv w) (hcur : w'.cur = w.cur) (hoffset : w'.offset = w.offset)
    (hdelivered : w'.delivered = w.delivered) (hmarked : w'.marked = w.marked)
    (hrestarts : w'.restarts = w.restarts) (hcurtrans : w'.t.curtrans = w.t.curtrans)
    (hdir : w'.t.file.isDir = w.t.file.isDir)
    (hretry : w'.t.file.retryTransfer = false → w.t.file.retryTransfer = false)
    (hresume : w.t.file.transferAction = .resume → w'.t.file.transferAction = .resume)
    (hstart : w'.t.file.retryTransfer = false ∨ w'.t.file.isDir = true →
      w'.t.file.startsize = w.t.file.startsize)
    (hsettled : settled w'.worker = false → settled w.worker = false)
    (hcopying : ∀ numTrans c, w'.worker = .copying numTrans c → w.worker = .copying numTrans c) :
    ResumeInv w' := by
  constructor
  · simpa only [hcur, hoffset, hdelivered, hmarked] using h.later
  · simpa only [hcur, hoffset, hdelivered, hdir, hcurtrans] using h.directory
  · intro hopen hfirst
    simpa only [hcur, hoffset, hdelivered, hcurtrans] using
      h.counted (hsettled hopen) (hretry hfirst)
  · intro hmark
    rw [hmarked, hcur] at hmark
    exact hresume (h.resumes hmark)
  · intro hmark hfirst
    rw [hmarked, hcur] at hmark
    rw [hstart hfirst, hdelivered, hcur]
    refine h.startsize hmark ?_
    rcases hfirst with hfirst | hfirst
    · exact .inl (hretry hfirst)
    · exact .inr (hdir ▸ hfirst)
  · intro numTrans c hc
    simpa only [hcur, hoffset, hdelivered, hmarked, hdir, hcurtrans] using
      h.copying numTrans c (hcopying numTrans c hc)
  · simpa only [hrestarts] using h.restarts

theorem next (h : ResumeInv w) (hcur : w'.cur = w.cur + 1) (hoffset : w'.offset = w.offset)
    (hdelivered : w'.delivered = w.delivered) (hmarked : w'.marked = w.marked)
    (hrestarts : w'.restarts = w.restarts) (hcurtrans : w'.t.curtrans = 0)
    (hcopying : ∀ numTrans c, w'.worker ≠ .copying numTrans c) : ResumeInv w' := by
  obtain ⟨hzero, hnone, hunmarked⟩ := h.later (w.cur + 1) (Nat.lt_succ_self _)
  constructor
  · intro i hi
    rw [hcur] at hi
    rw [hoffset, hdelivered, hmarked]
    exact h.later i (by omega)
  · intro _
    rw [hcur, hoffset, hdelivered]
    exact ⟨hzero, hnone, hcurtrans⟩
  · intro _ _
    rw [hcur, hoffset, hdelivered, hcurtrans, hzero, hnone]
    rfl
  · intro hmark
    rw [hcur, hmarked, hunmarked] at hmark
    exact absurd hmark (by decide)
  · intro hmark
    rw [hcur, hmarked, hunmarked] at hmark
    exact absurd hmark (by decide)
  · intro numTrans c hc
    exact absurd hc (hcopying numTrans c)
  · rw [hrestarts]
    exact h.restarts

theorem ended {ret : ℤ} {preserve : Except GftpError Unit} {complete : Bool}
    (hlater : ∀ i, w.cur < i → w.offset i = 0 ∧ w.delivered i = 0 ∧ w.marked i = false)
    (hdir : w.t.file.isDir = true →
      w.offset w.cur = 0 ∧ w.delivered w.cur = 0 ∧ w.t.curtrans = 0)
    (hcounted : ret = 0 → retOf preserve < 0 → w.t.file.retryTransfer = false →
      w.t.curtrans + w.offset w.cur = w.delivered w.cur)
    (hunmarked : w.marked w.cur = false)
    (hrestarts : ∀ x ∈ w.restarts, x.startsize = x.delivered) :
    ResumeInv (w.ended ret preserve complete) := by
  have hmark : ∀ {P : Prop}, w.marked w.cur = true → P := by
    intro P hmark
    rw [hunmarked] at hmark
    exact absurd hmark (by decide)
  by_cases hret : ret = 0
  · simp only [World.ended, endAttempt, if_pos hret]
    refine ⟨hlater, hdir, ?_, hmark, hmark, by simp, hrestarts⟩
    intro hopen
    exact hcounted hret (by simpa [settled] using hopen)
  · simp only [World.ended, endAttempt, if_neg hret]
    refine ⟨hlater, ?_, ?_, hmark, hmark, by simp, hrestarts⟩
    · intro hisDir
      rw [setFile_file] at hisDir
      exact hdir hisDir
    · intro _ hfirst
      rw [setFile_file] at hfirst
      simp at hfirst

/-- A marked file is started behind what was delivered of it. -/
theorem usedStart_eq {a : Answers} {preserve : Except GftpError Unit} {t : Transfer}
    (h : ResumeInv w) (hfit : ResumeFit w (.begin a preserve)) (hfile : w.t.file.isDir = false)
    (hasked : Asked w.t t)
    (hretried : w.t.file.retryTransfer = true →
      ∃ n : ℕ, a.destSize = .ok n ∧ t.file.startsize = n ∧ t.file.transferAction = .resume)
    (hmark : w.marked w.cur = true) : World.usedStart t.file = w.delivered w.cur := by
  have hresume := hasked.resume (h.resumes hmark)
  rw [World.usedStart, hasked.isDir, hfile, if_neg (by decide), startOffset, if_pos hresume]
  cases hretry : w.t.file.retryTransfer with
  | true =>
    obtain ⟨n, hdest, hstart, -⟩ := hretried hretry
    rw [hstart, hfit hmark hretry hfile n hdest]
  | false =>
    rw [(hasked.first hretry).2]
    exact h.startsize hmark (.inl hretry)

/-- The starts recorded stay honest when the current file is started. -/
theorem restarts_started {t : Transfer} (h : ResumeInv w)
    (hstart : w.marked w.cur = true → World.usedStart t.file = w.delivered w.cur) :
    ∀ x ∈ (w.started t).restarts, x.startsize = x.delivered := by
  intro x hx
  simp only [World.started] at hx
  split at hx
  · rename_i hmark
    rcases List.mem_append.mp hx with hx | hx
    · exact h.restarts x hx
    · rw [List.mem_singleton.mp hx]
      exact hstart hmark
  · exact h.restarts x hx

theorem later_started {t : Transfer} (h : ResumeInv w) (hcur : t.curfle = w.cur) :
    ∀ i, (w.started t).cur < i → (w.started t).offset i = 0 ∧ (w.started t).delivered i = 0 ∧
      (w.started t).marked i = false := by
  intro i hi
  have hi' : w.cur < i := by
    have hsame : (w.started t).cur = w.cur := hcur
    omega
  obtain ⟨hoffset, hdelivered, hmarked⟩ := h.later i hi'
  refine ⟨hoffset, hdelivered, ?_⟩
  exact (Function.update_of_ne (by omega) ..).trans hmarked

theorem begin {a : Answers} {preserve : Except GftpError Unit} (h : ResumeInv w)
    (hfit : ResumeFit w (.begin a preserve)) (hw : w.worker = .begun) :
    ResumeInv (w.begin a preserve) := by
  unfold World.begin
  split
  · rename_i t ret hbegan
    cases transFileOrDir_began hbegan with
    | refused _ hneg hasked hdir =>
      refine h.of_same hasked.curfle rfl rfl rfl rfl hasked.curtrans hasked.isDir ?_ hasked.resume
        ?_ ?_ (by simp)
      · intro hfirst
        exact hasked.retry.symm.trans hfirst
      · intro hfirst
        rcases hfirst with hfirst | hisDir
        · exact (hasked.first (hasked.retry.symm.trans hfirst)).2
        · have hisDir' := hasked.isDir.symm.trans hisDir
          rw [show t = w.t from hdir hisDir']
      · simp [hw, settled]
  · rename_i t ret hbegan
    cases transFileOrDir_began hbegan with
    | directory hdir =>
      refine ended (h.later_started rfl) (fun _ => h.directory hdir) ?_ (Function.update_self ..)
        (h.restarts_started fun hmark => ?_)
      · intro _ _ _
        obtain ⟨hoffset, hdelivered, hcurtrans⟩ := h.directory hdir
        show w.t.curtrans + w.offset w.cur = w.delivered w.cur
        rw [hoffset, hdelivered, hcurtrans]
        rfl
      · have hstart := h.startsize hmark (.inr hdir)
        rw [World.usedStart, if_pos (show ({ w.t with totFileTrans := 0 } : Transfer).file.isDir
          from hdir)]
        exact hstart
    | failed e hfile hasked hretried =>
      rename_i t'
      have hcur : ({ t' with totFileTrans := e.code } : Transfer).curfle = w.cur := hasked.curfle
      refine ended (h.later_started hcur) ?_ ?_ ?_ (h.restarts_started fun hmark =>
        h.usedStart_eq (t := t') hfit hfile hasked hretried hmark)
      · intro hisDir
        exact absurd (hasked.isDir.symm.trans hisDir) (by simp [hfile])
      · intro hzero
        exact absurd hzero (Int.ne_of_lt e.code_bounds.2)
      · show Function.update w.marked w.cur false _ = false
        rw [show (w.started { t' with totFileTrans := e.code }).cur = w.cur from hcur,
          Function.update_self]
  · rename_i t c hbegan
    cases transFileOrDir_began hbegan with
    | copying n hfile hasked hretried =>
      rename_i t'
      have hcur : t'.curfle = w.cur := hasked.curfle
      have hnotDir : t'.file.isDir = false := hasked.isDir.trans hfile
      have hunmarked : Function.update w.marked w.cur false t'.curfle = false := by
        rw [hcur, Function.update_self]
      constructor
      · intro i hi
        have hi' : w.cur < i := by
          rw [← hcur]
          exact hi
        have hne : i ≠ t'.curfle := by omega
        obtain ⟨hoffset, hdelivered, hmarked⟩ := h.later i hi'
        exact ⟨(Function.update_of_ne hne ..).trans hoffset,
          (Function.update_of_ne hne ..).trans hdelivered,
          (Function.update_of_ne (by omega) ..).trans hmarked⟩
      · intro hisDir
        exact absurd (hnotDir.symm.trans hisDir) (by decide)
      · intro _ _
        show (0 : ℤ) + Function.update w.offset t'.curfle (World.usedStart t'.file) t'.curfle =
          Function.update w.delivered t'.curfle (World.usedStart t'.file) t'.curfle
        rw [Function.update_self, Function.update_self, Int.zero_add]
      · intro hmark
        exact absurd (hunmarked.symm.trans hmark) (by decide)
      · intro hmark
        exact absurd (hunmarked.symm.trans hmark) (by decide)
      · intro numTrans c hc
        obtain ⟨-, rfl⟩ := Worker.copying.inj hc
        refine ⟨hnotDir, hunmarked, rfl, ?_⟩
        show Function.update w.delivered t'.curfle (World.usedStart t'.file) t'.curfle =
          Function.update w.offset t'.curfle (World.usedStart t'.file) t'.curfle + (0 : ℕ)
        rw [Function.update_self, Function.update_self]
        exact (Int.add_zero _).symm
      · exact h.restarts_started fun hmark => h.usedStart_eq (t := t') hfit hfile hasked hretried hmark

/-- A block is counted when the loop goes on; else the attempt ends. -/
theorem block {numTrans ret : Except GftpError ℕ} {c c' : CopyState} {blksize : ℕ} {resets : Bool}
    {fromEnd toEnd preserve : Except GftpError Unit} (h : ResumeInv w)
    (hfit : ResumeFit w (.block blksize resets fromEnd toEnd preserve))
    (hw : w.worker = .copying numTrans c) (hblock : doTransferBlock blksize c = .ok (ret, c')) :
    ResumeInv (w.block c' ret resets fromEnd toEnd preserve) := by
  obtain ⟨hfile, hunmarked, hcurtrans, hdelivered⟩ := h.copying numTrans c hw
  have hlater : ∀ i, w.cur < i → w.offset i = 0 ∧
      Function.update w.delivered w.cur (w.offset w.cur + c'.accepted.length) i = 0 ∧
        w.marked i = false := by
    intro i hi
    obtain ⟨hoffset, hnone, hmarked⟩ := h.later i hi
    exact ⟨hoffset, (Function.update_of_ne (by omega) ..).trans hnone, hmarked⟩
  have hend : ∀ complete, ResumeInv (World.ended { w with
      delivered := Function.update w.delivered w.cur (w.offset w.cur + c'.accepted.length) }
        (endCopy ret fromEnd toEnd) preserve complete) := by
    intro complete
    refine ended hlater ?_ ?_ hunmarked h.restarts
    · intro hisDir
      exact absurd (hfile.symm.trans hisDir) (by decide)
    · intro hzero hfailed _
      show w.t.curtrans + w.offset w.cur =
        Function.update w.delivered w.cur (w.offset w.cur + c'.accepted.length) w.cur
      cases preserve with
      | ok _ => exact absurd hfailed (Int.lt_irrefl 0)
      | error e =>
        rw [Function.update_self, hfit numTrans c ret c' hw hblock hzero, hcurtrans]
        omega
  unfold World.block
  split
  · rename_i n
    have hlen := block_moved hblock
    have hcount : w.t.curtrans + (n + 1 : ℕ) = c'.accepted.length := by
      rw [hcurtrans, hlen]
      omega
    have hupdate : Function.update w.delivered w.cur (w.offset w.cur + c'.accepted.length) w.cur =
        w.offset w.cur + c'.accepted.length := Function.update_self ..
    have hmark : ∀ {P : Prop}, w.marked w.cur = true → P := by
      intro P hmark
      exact absurd (hunmarked.symm.trans hmark) (by decide)
    have hgo : ∀ retries : ℤ, ResumeInv { w with
        delivered := Function.update w.delivered w.cur (w.offset w.cur + c'.accepted.length)
        t := { gftpCalcKbs (n + 1) w.t with currentFileRetries := retries }
        worker := .copying (.ok (n + 1)) c' } := by
      intro retries
      refine ⟨hlater, fun hisDir => absurd (hfile.symm.trans hisDir) (by decide), ?_, hmark, hmark,
        ?_, h.restarts⟩
      · intro _ _
        show w.t.curtrans + (n + 1 : ℕ) + w.offset w.cur = _
        rw [hcount]
        exact (Int.add_comm ..).trans hupdate.symm
      · intro _ _ hc
        obtain ⟨-, rfl⟩ := Worker.copying.inj hc
        exact ⟨hfile, hunmarked, hcount, hupdate⟩
    cases resets with
    | true => exact hgo 0
    | false => exact hgo w.t.currentFileRetries
  · exact hend _

theorem stopped {numTrans : Except GftpError ℕ} {c : CopyState} {ret : ℤ}
    {preserve : Except GftpError Unit} {complete : Bool} (h : ResumeInv w)
    (hw : w.worker = .copying numTrans c) : ResumeInv (w.ended ret preserve complete) :=
  ended h.later h.directory (fun _ _ => h.counted (by rw [hw]; rfl)) (h.copying numTrans c hw).2.1
    h.restarts

/-- Another place of the thread, with the current file and its counts as they were. -/
theorem of_worker {t : Transfer} {worker : Worker} {succeeded : ℕ → Bool}
    {acted : List (ℕ × DoneAct)} (h : ResumeInv w) (hfiles : t.files = w.t.files)
    (hcur : t.curfle = w.cur) (hcurtrans : t.curtrans = w.t.curtrans)
    (hsettled : settled worker = false → settled w.worker = false)
    (hcopying : ∀ numTrans c, worker = .copying numTrans c → w.worker = .copying numTrans c) :
    ResumeInv { w with t := t, worker := worker, succeeded := succeeded, acted := acted } := by
  have hfile : t.file = w.t.file := by
    rw [Transfer.file, hfiles, hcur]
    rfl
  refine h.of_same hcur rfl rfl rfl rfl hcurtrans ?_ ?_ ?_ ?_ hsettled hcopying
  all_goals rw [hfile]
  · exact id
  · exact id
  · exact fun _ => rfl

theorem finish (h : ResumeInv w) (hopen : settled w.worker = false) : ResumeInv w.finish :=
  h.of_worker rfl rfl rfl (fun _ => hopen) (by simp)

/-- The mark takes the count of the current file, of which nothing is counted when it is a
directory. -/
theorem mark {t : Transfer} (h : ResumeInv w) (hfiles : t.files = w.t.files)
    (hcur : t.curfle = w.cur) (hcurtrans : t.curtrans = w.t.curtrans)
    (hresumed : t.curresumed = w.t.curresumed) (hskip : t.skipFile = false)
    (hopen : settled w.worker = false)
    (hfit : w.t.file.retryTransfer = false ∨ w.t.file.isDir = true →
      w.t.curresumed = w.offset w.cur) :
    ResumeInv { w with
      t := reconnected t
      worker := .loop
      marked := Function.update w.marked w.cur true } := by
  have hfile : t.file = w.t.file := by
    rw [Transfer.file, hfiles, hcur]
    rfl
  obtain ⟨hnewFiles, hplace, -, hcount⟩ := reconnected_mark hskip
  have hnext : (reconnected t).file = { w.t.file with
      transferAction := .resume
      startsize := w.t.curtrans + w.t.curresumed } := by
    rw [Transfer.file, hnewFiles, hplace, hcurtrans, hresumed, hfile]
    exact Function.update_self ..
  rw [hcur] at hplace
  rw [hcurtrans] at hcount
  constructor <;> simp only [World.cur, hnext, hplace, hcount]
  · intro i hi
    obtain ⟨hoffset, hdelivered, hmarked⟩ := h.later i hi
    exact ⟨hoffset, hdelivered, (Function.update_of_ne (by omega) ..).trans hmarked⟩
  · exact h.directory
  · exact fun _ => h.counted hopen
  · exact fun _ => trivial
  · intro _ hcase
    rw [hfit hcase]
    rcases hcase with hfirst | hisDir
    · exact h.counted hopen hfirst
    · obtain ⟨hoffset, hdelivered, hnone⟩ := h.directory hisDir
      rw [hoffset, hnone]
      exact hdelivered.symm
  · intro _ _ hc
    exact absurd hc (by simp)
  · exact h.restarts

theorem retry {ret retries : ℤ} {connect : Except GftpError Unit} (h : ResumeInv w)
    (hfit : ResumeFit w (.retry retries connect)) (hw : w.worker = .retrying ret) :
    ResumeInv (w.retry ret retries connect) := by
  have hopen : settled w.worker = false := by
    rw [hw]
    rfl
  unfold World.retry
  split
  · rename_i htries
    cases connect with
    | ok _ =>
      simp only
      by_cases hskip : w.t.skipFile = true
      · rw [if_pos hskip]
        obtain ⟨-, hcur, -, hcurtrans⟩ := reconnected_pass (t := { w.t with
          currentFileRetries := w.t.currentFileRetries + 1 }) hskip
        exact h.next hcur rfl rfl rfl rfl hcurtrans (by simp)
      · rw [if_neg hskip]
        have hno : w.t.skipFile = false := Bool.not_eq_true _ ▸ hskip
        exact h.mark rfl rfl rfl rfl hno hopen (hfit htries hno)
    | error e =>
      have htried : ResumeInv { w with t := { w.t with
          currentFileRetries := w.t.currentFileRetries + 1 } } :=
        h.of_worker rfl rfl rfl id (fun _ _ => id)
      simp only
      split
      · exact htried.finish hopen
      · exact htried.of_worker rfl rfl rfl (fun _ => hopen) (by simp)
  · exact h.finish hopen

/-- A marked file has an action, so that a request to skip it changes nothing. -/
theorem skipFile (h : ResumeInv w) (i : ℕ) :
    ResumeInv { w with t := skipFileTransfer i w.t } := by
  rcases skipFileTransfer_cases i w.t with hsame | ⟨hunset, cancel, skip, total, hchanged⟩
  · rw [hsame]
    exact h
  · rw [hchanged]
    by_cases hi : i = w.cur
    · subst hi
      refine h.of_same rfl rfl rfl rfl rfl rfl ?_ ?_ ?_ ?_ id (fun _ _ => id)
      all_goals simp only [Transfer.file, World.cur, Function.update_self]
      · exact id
      · intro hresume
        rw [World.cur, hresume] at hunset
        exact absurd hunset (by decide)
      · exact fun _ => trivial
    · have hfile : Function.update w.t.files i { w.t.files i with transferAction := .skip }
          w.t.curfle = w.t.files w.t.curfle := Function.update_of_ne (Ne.symm hi) ..
      refine h.of_same rfl rfl rfl rfl rfl rfl ?_ ?_ ?_ ?_ id (fun _ _ => id)
      all_goals simp only [Transfer.file, hfile]
      · exact id
      · exact id
      · exact fun _ => trivial

theorem step {action : TransAction} (hstep : TransStep w action w') (hfit : ResumeFit w action)
    (h : ResumeInv w) : ResumeInv w' := by
  cases hstep with
  | allDone hw hall => exact h.finish (by rw [hw]; rfl)
  | attempt hw hmore =>
    refine h.of_worker rfl rfl rfl (fun _ => by rw [hw]; rfl) ?_
    intro _ _ hc
    split at hc <;> cases hc
  | begin hw => exact h.begin hfit hw
  | block hw hgo hblock => exact h.block hfit hw hblock
  | stopped hw hstop => exact h.stopped hw
  | judge hw =>
    refine h.of_worker rfl rfl rfl ?_ ?_
    · intro hopen
      split at hopen
      · cases hopen
      · split at hopen
        · rename_i hneg
          rw [hw]
          simpa [settled] using hneg
        · cases hopen
    · intro _ _ hc
      split at hc
      · cases hc
      · split at hc <;> cases hc
  | status hw =>
    have hopen : settled w.worker = false := by
      rw [hw]
      rfl
    unfold World.status
    split
    · exact h.finish hopen
    · split
      · exact h.finish hopen
      · exact h.of_worker rfl rfl rfl (fun _ => hopen) (by simp)
  | retry hw => exact h.retry hfit hw
  | pass hw => exact h.next rfl rfl rfl rfl rfl rfl (by simp)
  | afterPass hw =>
    have hopen : settled w.worker = false := by
      rw [hw]
      rfl
    unfold World.afterPass
    split
    · split
      · exact h.of_worker rfl rfl rfl (fun _ => hopen) (by simp)
      · exact h.finish hopen
    · exact h.of_worker rfl rfl rfl (fun _ => hopen) (by simp)
  | cancelTransfer => exact h.of_worker rfl rfl rfl id (fun _ _ => id)
  | skipFile hi => exact h.skipFile _
  | nextTransfer hnext => exact h.of_worker rfl rfl rfl id (fun _ _ => id)

end ResumeInv

section Runs

/-- In a run that fits, a file started after a mark is started behind what has been delivered
of it. -/
theorem resumed_behind_delivered {files : ℕ → TransFile} {numFiles : ℕ} {totalBytes : ℤ}
    {conn : Bool} {w : World}
    (hrun : Reaches TransStep ResumeFit (.start files numFiles totalBytes conn) w) :
    ∀ x ∈ w.restarts, x.startsize = x.delivered := by
  have hinv : ResumeInv w := hrun.invariant ResumeInv (.start ..)
    (fun _ _ _ h hfit hstep => h.step hstep hfit)
  exact hinv.restarts

/-- A file to be overwritten when it is there, of ten bytes. -/
def plainFile : TransFile where
  isDir := false
  size := 10
  startsize := 0
  transferAction := .unset
  retryTransfer := false
  transferDone := false
  doneView := false
  doneEdit := false
  doneRm := false

/-- The sides are connected, and the source delivers five bytes, which are accepted. -/
def fiveBytes : Answers where
  connect := .ok ()
  makeDirectory := .ok ()
  size := .ok 10
  destSize := .ok 5
  transferFile := .ok 10
  source := [.ok [1, 2, 3, 4, 5]]
  puts := [.ok 5]

/-- One side is not there. -/
def noConnection : Answers := { fiveBytes with connect := .error .timedOut }

/-- The source fails behind its five bytes. -/
def cutOff : Answers := { fiveBytes with source := [.ok [1, 2, 3, 4, 5], .error .retryable] }

/-- The connection is lost before the file is started, and again behind five bytes: the file is
started at its beginning, and then behind them. -/
theorem resumed_behind_five_bytes : ∃ w,
    Reaches TransStep ResumeFit (.start (fun _ => plainFile) 1 10 false) w ∧
      w.restarts = [⟨0, 0, 0⟩, ⟨0, 5, 5⟩] ∧ ∀ x ∈ w.restarts, x.startsize = x.delivered := by
  have hrun : Reaches TransStep ResumeFit (.start (fun _ => plainFile) 1 10 false) _ :=
    (Reaches.refl _).tail (a := .attempt) trivial (.attempt rfl (by decide))
      |>.tail (a := .begin noConnection (.ok ())) (fun h => absurd h (by decide)) (.begin rfl)
      |>.tail (a := .judge) trivial (.judge rfl)
      |>.tail (a := .status 3) trivial (.status rfl)
      |>.tail (a := .retry 3 (.ok ())) (fun _ _ _ => rfl) (.retry rfl)
      |>.tail (a := .attempt) trivial (.attempt rfl (by decide))
      |>.tail (a := .begin cutOff (.ok ())) (fun _ h => absurd h (by decide)) (.begin rfl)
      |>.tail (a := .block 8 true (.ok ()) (.ok ()) (.ok ())) trivial (.block rfl rfl rfl)
      |>.tail (a := .block 8 true (.ok ()) (.ok ()) (.ok ())) trivial (.block rfl rfl rfl)
      |>.tail (a := .judge) trivial (.judge rfl)
      |>.tail (a := .status 3) trivial (.status rfl)
      |>.tail (a := .retry 3 (.ok ())) (fun _ _ h => absurd h (by decide)) (.retry rfl)
      |>.tail (a := .attempt) trivial (.attempt rfl (by decide))
      |>.tail (a := .begin fiveBytes (.ok ()))
        (fun _ _ _ n hn => congrArg Nat.cast (Except.ok.inj hn).symm) (.begin rfl)
  exact ⟨_, hrun, rfl, resumed_behind_delivered hrun⟩

/-- A file resumed at its fifth byte is copied, and the connection is lost before the next one
is started, which is then started at its fifth byte. -/
theorem resumed_at_place_of_other_file :
    ¬ ∀ (files : ℕ → TransFile) (numFiles : ℕ) (totalBytes : ℤ) (conn : Bool) (w : World),
      Reaches TransStep (fun _ _ => True) (.start files numFiles totalBytes conn) w →
        ∀ x ∈ w.restarts, x.startsize = x.delivered := by
  intro h
  let files : ℕ → TransFile := Function.update (fun _ => plainFile) 0
    { plainFile with transferAction := .resume, startsize := 5 }
  have hrun : Reaches TransStep (fun _ _ => True) (.start files 2 20 false) _ :=
    (Reaches.refl _).tail (a := .attempt) trivial (.attempt rfl (by decide))
      |>.tail (a := .begin fiveBytes (.ok ())) trivial (.begin rfl)
      |>.tail (a := .block 8 true (.ok ()) (.ok ()) (.ok ())) trivial (.block rfl rfl rfl)
      |>.tail (a := .block 8 true (.ok ()) (.ok ()) (.ok ())) trivial (.block rfl rfl rfl)
      |>.tail (a := .judge) trivial (.judge rfl)
      |>.tail (a := .pass) trivial (.pass rfl)
      |>.tail (a := .afterPass) trivial (.afterPass rfl)
      |>.tail (a := .attempt) trivial (.attempt rfl (by decide))
      |>.tail (a := .begin noConnection (.ok ())) trivial (.begin rfl)
      |>.tail (a := .judge) trivial (.judge rfl)
      |>.tail (a := .status 3) trivial (.status rfl)
      |>.tail (a := .retry 3 (.ok ())) trivial (.retry rfl)
      |>.tail (a := .attempt) trivial (.attempt rfl (by decide))
      |>.tail (a := .begin fiveBytes (.ok ())) trivial (.begin rfl)
  have hstart := h _ _ _ _ _ hrun ⟨1, 5, 0⟩ (List.mem_singleton.mpr rfl)
  exact absurd hstart (by decide)

end Runs

end Gftp.ResumeOffsets
