import Gftp.TransferRun

/-!
What is done with the files that a transfer has passed over: sources are removed,
destinations are opened. The thread passes over a file that has failed or was stopped as it
does over one that was copied, and on_next_transfer does not ask which it was. In a run in
which no file with something to be done is passed over so, all that is done is done after
a complete copy.
-/

namespace Gftp.RemovalAfterSuccess

open ByteStreams ByteStrings CopyLoop Protocol Runs TransferRun TransferState

def hasDone (f : TransFile) : Prop := f.doneView = true ∨ f.doneEdit = true ∨ f.doneRm = true

section Files

variable {f : TransFile}

theorem hasDone_of_doneAct (h : doneAct f ≠ none) : hasDone f := by
  unfold hasDone
  unfold doneAct at h
  split at h
  · rename_i hview
    rcases Bool.or_eq_true .. ▸ hview with hview | hedit
    · exact .inl hview
    · exact .inr (.inl hedit)
  · split at h
    · rename_i hrm
      exact .inr (.inr hrm)
    · exact absurd rfl h

/-- A file that is skipped is not opened; it is removed all the same. -/
theorem doneAct_of_skip (h : doneAct { f with transferAction := .skip } ≠ none) :
    doneAct f ≠ none := by
  by_cases hview : (f.doneView || f.doneEdit) = true
  · simp [doneAct, hview] at h
  · simpa [doneAct, hview] using h

end Files

section Blocks

variable {blksize : ℕ} {c c' : CopyState} {ret : Except GftpError ℕ}

theorem transInt_of_endCopy {fromEnd toEnd : Except GftpError Unit}
    (h : endCopy ret fromEnd toEnd = 0) : transInt ret = 0 := by
  by_contra hne
  simp only [endCopy, if_neg hne] at h
  exact hne h

theorem noTrans_of_error (h : doTransferBlock blksize c = .ok (.error .noTrans, c')) :
    c'.noTrans = true := by
  unfold doTransferBlock at h
  split at h
  · obtain ⟨herror, rfl⟩ := Prod.mk.inj (Except.ok.inj h)
    simp [Except.error.inj herror]
  · obtain ⟨r, -, h⟩ := CRun.bind_eq_ok.mp h
    obtain ⟨hret, rfl⟩ := Prod.mk.inj (Except.ok.inj h)
    simp [hret]

theorem block_ok {n : ℕ} (h : doTransferBlock blksize c = .ok (.ok n, c')) :
    ∃ d r, r.ret = .ok n ∧ putRest d.length d c.puts = .ok r ∧
      c'.accepted = c.accepted ++ r.accepted ∧ c'.delivered = c.delivered ++ d ∧
      c'.sawEof = (c.sawEof || d.isEmpty) := by
  unfold doTransferBlock at h
  split at h
  · simp at h
  · rename_i d source _
    obtain ⟨r, hrest, h⟩ := CRun.bind_eq_ok.mp h
    obtain ⟨hret, rfl⟩ := Prod.mk.inj (Except.ok.inj h)
    exact ⟨d, r, hret, hrest, rfl, rfl, rfl⟩

/-- A block that the copy ends with as if at its end, when the source is at its end or the
servers move the file between them. -/
theorem block_ended (hall : c.accepted = c.delivered)
    (h : doTransferBlock blksize c = .ok (ret, c')) (hzero : transInt ret = 0)
    (hnot : moved ret = false) (hend : ret = .ok 0 → c'.sawEof = true) (heof : c.sawEof = false) :
    World.copied c' = true := by
  cases ret with
  | error e =>
    have hno : e = .noTrans := by
      by_contra hne
      rw [transInt_error, if_neg hne] at hzero
      exact absurd hzero (Int.ne_of_lt e.code_bounds.2)
    subst hno
    have hcase := noTrans_of_error h
    simp [World.copied, hcase]
  | ok n =>
    have hn : n = 0 := by simpa [moved] using hnot
    subst hn
    have hsaw := hend rfl
    obtain ⟨d, r, -, hrest, hacc, hdel, hnew⟩ := block_ok h
    have hempty : d = [] := by simpa [hnew, heof] using hsaw
    subst hempty
    have hnothing : r.accepted = [] := List.prefix_nil.mp (putRest_contract hrest).1
    simp [World.copied, hsaw, hacc, hdel, hall, hnothing]

theorem block_goes_on (heof : c.sawEof = false) (hall : c.accepted = c.delivered) {n : ℕ}
    (h : doTransferBlock blksize c = .ok (.ok (n + 1), c')) :
    c'.sawEof = false ∧ c'.accepted = c'.delivered := by
  obtain ⟨d, r, hret, hrest, hacc, hdel, hnew⟩ := block_ok h
  obtain ⟨-, -, hcases⟩ := putRest_contract hrest
  rcases hcases with ⟨hlen, haccepted⟩ | ⟨e, herror⟩ | ⟨hzero, -⟩
  · have hd : d.length = n + 1 := Except.ok.inj (hlen.symm.trans hret)
    refine ⟨?_, by rw [hacc, hdel, hall, haccepted]⟩
    cases d with
    | nil => simp at hd
    | cons b d => simp [hnew, heof]
  · rw [herror] at hret
    simp at hret
  · rw [hzero] at hret
    simp at hret

end Blocks

/-- No file with something to be done with is passed over but after an attempt that ended
well: not one that is skipped, nor one whose copy is stopped or has failed. A copy ends
well at the end of its source only, and a file is resumed no further than behind what was
delivered. -/
def RemovalFit (w : World) : TransAction → Prop
  | .attempt => w.t.file.transferAction = .skip → doneAct w.t.file = none
  | .begin a _ =>
      hasDone w.t.file → w.marked w.cur = true →
        (w.t.file.retryTransfer = true →
          ∀ n : ℕ, a.destSize = .ok n → (n : ℤ) ≤ w.delivered w.cur) ∧
        (w.t.file.retryTransfer = false → startOffset w.t.file ≤ w.delivered w.cur)
  | .block blksize _ fromEnd toEnd (.ok _) =>
      ∀ numTrans c c', w.worker = .copying numTrans c →
        doTransferBlock blksize c = .ok (.ok 0, c') → doneAct w.t.file ≠ none →
          endCopy (.ok 0) fromEnd toEnd = 0 → c'.sawEof = true
  | .stopped fromEnd toEnd (.ok _) =>
      ∀ numTrans c, w.worker = .copying numTrans c → doneAct w.t.file ≠ none →
        endCopy numTrans fromEnd toEnd ≠ 0
  | .retry retries (.ok _) =>
      retries = 0 ∨ w.t.currentFileRetries ≤ retries → w.t.skipFile = true →
        doneAct w.t.file = none
  | .pass => ∀ ret, w.worker = .passing ret → ret = 0 ∨ doneAct w.t.file = none
  | _ => True

/-- The files passed over, and what was done with them. -/
structure Passed (w : World) : Prop where
  place : w.t.updfle ≤ w.cur
  passed : ∀ i, i < w.cur → doneAct (w.t.files i) ≠ none → w.succeeded i = true
  acted : ∀ x ∈ w.acted, x.1 < w.cur ∧ w.succeeded x.1 = true

namespace Passed

variable {w w' : World}

theorem start (files : ℕ → TransFile) (numFiles : ℕ) (totalBytes : ℤ) (conn : Bool) :
    Passed (.start files numFiles totalBytes conn) := by
  constructor <;> simp [World.start, World.cur]

/-- Nothing has changed behind the current file. -/
theorem frame (h : Passed w) (hcur : w'.cur = w.cur) (hupd : w'.t.updfle = w.t.updfle)
    (hfiles : ∀ i, i < w.cur → doneAct (w'.t.files i) ≠ none → doneAct (w.t.files i) ≠ none)
    (hsucceeded : ∀ i, i < w.cur → w'.succeeded i = w.succeeded i)
    (hacted : w'.acted = w.acted) : Passed w' := by
  constructor
  · rw [hcur, hupd]
    exact h.place
  · intro i hi hact
    rw [hcur] at hi
    rw [hsucceeded i hi]
    exact h.passed i hi (hfiles i hi hact)
  · intro x hx
    rw [hacted] at hx
    obtain ⟨hlow, hgood⟩ := h.acted x hx
    rw [hcur, hsucceeded x.1 hlow]
    exact ⟨hlow, hgood⟩

theorem next (h : Passed w) (hcur : w'.cur = w.cur + 1) (hupd : w'.t.updfle = w.t.updfle)
    (hfiles : ∀ i, doneAct (w'.t.files i) = doneAct (w.t.files i))
    (hsucceeded : w'.succeeded = w.succeeded) (hacted : w'.acted = w.acted)
    (hlast : doneAct w.t.file ≠ none → w.succeeded w.cur = true) : Passed w' := by
  constructor
  · rw [hcur, hupd]
    exact Nat.le_succ_of_le h.place
  · intro i hi hact
    rw [hcur] at hi
    rw [hfiles] at hact
    rw [hsucceeded]
    rcases Nat.lt_succ_iff_lt_or_eq.mp hi with hi | rfl
    · exact h.passed i hi hact
    · exact hlast hact
  · intro x hx
    rw [hacted] at hx
    obtain ⟨hlow, hgood⟩ := h.acted x hx
    rw [hcur, hsucceeded]
    exact ⟨Nat.lt_succ_of_lt hlow, hgood⟩

theorem nextTransfer (h : Passed w) : Passed { w with
    t := (onNextTransfer w.t).1
    acted := w.acted ++ (onNextTransfer w.t).2 } := by
  refine ⟨Nat.le_refl _, h.passed, ?_⟩
  intro x hx
  rcases List.mem_append.mp hx with hx | hx
  · exact h.acted x hx
  · obtain ⟨hlow, hhigh, hact⟩ := mem_doneActs.mp hx
    have hplace : x.1 < w.cur := by
      have hle := h.place
      simp only [World.cur] at hle ⊢
      omega
    refine ⟨hplace, h.passed x.1 hplace ?_⟩
    rw [hact]
    exact Option.some_ne_none _

end Passed

/-- The last attempt at the current file has ended well. -/
def endedWell : Worker → Bool
  | .attempted ret => ret = 0
  | .passing ret => ret = 0
  | _ => false

structure RemovalInv (w : World) : Prop extends Passed w where
  copying : ∀ numTrans c, w.worker = .copying numTrans c →
    c.sawEof = false ∧ c.accepted = c.delivered ∧ (hasDone w.t.file → w.honest w.cur = true)
  through : endedWell w.worker = true → doneAct w.t.file ≠ none → w.succeeded w.cur = true

namespace RemovalInv

variable {w w' : World}

theorem start (files : ℕ → TransFile) (numFiles : ℕ) (totalBytes : ℤ) (conn : Bool) :
    RemovalInv (.start files numFiles totalBytes conn) := by
  refine ⟨.start .., ?_, ?_⟩
  · simp [World.start]
  · simp [World.start, endedWell]

/-- Another place of the thread, where no attempt has ended well that had not before. -/
theorem of_worker {t : Transfer} {worker : Worker} {marked : ℕ → Bool} (h : RemovalInv w)
    (hfiles : t.files = w.t.files) (hcur : t.curfle = w.cur) (hupd : t.updfle = w.t.updfle)
    (hwell : endedWell worker = true → endedWell w.worker = true)
    (hcopying : ∀ numTrans c, worker = .copying numTrans c → w.worker = .copying numTrans c) :
    RemovalInv { w with t := t, worker := worker, marked := marked } := by
  have hfile : t.file = w.t.file := by
    rw [Transfer.file, hfiles, hcur]
    rfl
  refine ⟨h.toPassed.frame hcur hupd ?_ (fun _ _ => rfl) rfl, ?_, ?_⟩
  · intro i _
    rw [hfiles]
    exact id
  · intro numTrans c hc
    obtain ⟨heof, hall, hhonest⟩ := h.copying numTrans c (hcopying numTrans c hc)
    refine ⟨heof, hall, ?_⟩
    rw [hfile, World.cur, hcur]
    exact hhonest
  · intro hw hact
    rw [hfile] at hact
    rw [World.cur, hcur]
    exact h.through (hwell hw) hact

theorem finish (h : RemovalInv w) : RemovalInv w.finish :=
  h.of_worker rfl rfl rfl (by simp [endedWell]) (by simp)

/-- The end of an attempt, which has copied the file when it ended well. -/
theorem ended {ret : ℤ} {preserve : Except GftpError Unit} {complete : Bool} (h : Passed w)
    (hgood : ret = 0 → retOf preserve = 0 → doneAct w.t.file ≠ none → complete = true) :
    RemovalInv (w.ended ret preserve complete) := by
  have hframe : ∀ {t : Transfer} {worker : Worker} {succeeded : Bool}, t.curfle = w.cur →
      t.updfle = w.t.updfle → (∀ i, i < w.cur → t.files i = w.t.files i) →
        Passed { w with
          t := t
          worker := worker
          succeeded := Function.update w.succeeded w.cur succeeded } := by
    intro t worker succeeded hcur hupd hfiles
    refine h.frame hcur hupd ?_ ?_ rfl
    · intro i hi
      simp only [hfiles i hi]
      exact id
    · intro i hi
      exact Function.update_of_ne (Nat.ne_of_lt hi) ..
  by_cases hret : ret = 0
  · simp only [World.ended, endAttempt, if_pos hret]
    refine ⟨hframe rfl rfl (fun _ _ => rfl), by simp, ?_⟩
    intro hwell hact
    have hzero : retOf preserve = 0 := by simpa [endedWell] using hwell
    show Function.update w.succeeded w.cur _ w.cur = true
    rw [Function.update_self, hgood hret hzero hact, hzero]
    rfl
  · simp only [World.ended, endAttempt, if_neg hret]
    refine ⟨hframe rfl rfl (fun i hi => setFile_files_ne (Nat.ne_of_lt hi)), by simp, ?_⟩
    intro hwell
    exact absurd hwell (by simpa [endedWell] using hret)

/-- The files passed over are as they were when the current one is started. -/
theorem passed_started {t : Transfer} (h : Passed w) (hasked : Asked w.t t)
    (totFileTrans : ℤ) : Passed (w.started { t with totFileTrans := totFileTrans }) := by
  refine h.frame hasked.curfle hasked.updfle ?_ (fun _ _ => rfl) rfl
  intro i hi
  have hsame : t.files i = w.t.files i := hasked.others i (Nat.ne_of_lt hi)
  show doneAct (t.files i) ≠ none → _
  rw [hsame]
  exact id

/-- A file with something to be done with is started no further than behind what was delivered of it. -/
theorem honest_started {a : Answers} {preserve : Except GftpError Unit} {t : Transfer}
    (hfit : RemovalFit w (.begin a preserve)) (hfile : w.t.file.isDir = false)
    (hasked : Asked w.t t)
    (hretried : w.t.file.retryTransfer = true →
      ∃ n : ℕ, a.destSize = .ok n ∧ t.file.startsize = n ∧ t.file.transferAction = .resume)
    (hdone : hasDone w.t.file) :
    (!w.marked w.cur || World.usedStart t.file ≤ w.delivered w.cur) = true := by
  cases hmark : w.marked w.cur with
  | false => rfl
  | true =>
    obtain ⟨hagain, hfirst⟩ := hfit hdone hmark
    have hnotDir : t.file.isDir = false := hasked.isDir.trans hfile
    have hstart : World.usedStart t.file = startOffset t.file := by
      simp [World.usedStart, hnotDir]
    have hplace : startOffset t.file ≤ w.delivered w.cur := by
      cases hretry : w.t.file.retryTransfer with
      | true =>
        obtain ⟨n, hdest, hsize, hresume⟩ := hretried hretry
        rw [startOffset, if_pos hresume, hsize]
        exact hagain hretry n hdest
      | false =>
        obtain ⟨haction, hsize⟩ := hasked.first hretry
        have hsame : startOffset t.file = startOffset w.t.file := by
          rw [startOffset, startOffset, haction, hsize]
        exact hsame ▸ hfirst hretry
    simp [hstart, hplace]

theorem begin {a : Answers} {preserve : Except GftpError Unit} (h : RemovalInv w)
    (hfit : RemovalFit w (.begin a preserve)) : RemovalInv (w.begin a preserve) := by
  unfold World.begin
  split
  · rename_i t ret hbegan
    cases transFileOrDir_began hbegan with
    | refused _ hneg hasked _ =>
      refine ⟨h.toPassed.frame hasked.curfle hasked.updfle ?_ (fun _ _ => rfl) rfl, by simp, ?_⟩
      · intro i hi
        show doneAct (t.files i) ≠ none → _
        rw [hasked.others i (Nat.ne_of_lt hi)]
        exact id
      · intro hwell
        have hzero : ret = 0 := by simpa [endedWell] using hwell
        exact absurd hzero (Int.ne_of_lt hneg)
  · rename_i t ret hbegan
    cases transFileOrDir_began hbegan with
    | directory hdir => exact ended (passed_started h.toPassed (.refl _) 0) (fun _ _ _ => rfl)
    | failed e hfile hasked hretried =>
      exact ended (passed_started h.toPassed hasked _) (fun _ _ _ => rfl)
  · rename_i t c hbegan
    cases transFileOrDir_began hbegan with
    | copying n hfile hasked hretried =>
      rename_i t'
      have hplace : t'.curfle = w.cur := hasked.curfle
      have hpassed := passed_started h.toPassed hasked n
      refine ⟨hpassed.frame rfl rfl (fun _ _ => id) (fun _ _ => rfl) rfl, ?_, by simp [endedWell]⟩
      intro numTrans c hc
      obtain ⟨-, rfl⟩ := Worker.copying.inj hc
      refine ⟨rfl, rfl, ?_⟩
      intro hdone
      show Function.update w.honest w.cur
        (!w.marked w.cur || World.usedStart t'.file ≤ w.delivered w.cur) t'.curfle = true
      rw [hplace, Function.update_self]
      refine honest_started (t := t') hfit hfile hasked hretried ?_
      obtain ⟨hview, hedit, hrm⟩ := hasked.done
      have hflags : hasDone t'.file := hdone
      simpa only [hasDone, hview, hedit, hrm] using hflags

theorem block {numTrans ret : Except GftpError ℕ} {c c' : CopyState} {blksize : ℕ} {resets : Bool}
    {fromEnd toEnd preserve : Except GftpError Unit} (h : RemovalInv w)
    (hfit : RemovalFit w (.block blksize resets fromEnd toEnd preserve))
    (hw : w.worker = .copying numTrans c) (hblock : doTransferBlock blksize c = .ok (ret, c')) :
    RemovalInv (w.block c' ret resets fromEnd toEnd preserve) := by
  obtain ⟨heof, hall, hhonest⟩ := h.copying numTrans c hw
  unfold World.block
  split
  · rename_i n
    obtain ⟨heof', hall'⟩ := block_goes_on heof hall hblock
    have hgo : ∀ retries : ℤ, RemovalInv { w with
        delivered := Function.update w.delivered w.cur (w.offset w.cur + c'.accepted.length)
        t := { gftpCalcKbs (n + 1) w.t with currentFileRetries := retries }
        worker := .copying (.ok (n + 1)) c' } := by
      intro retries
      refine ⟨h.toPassed.frame rfl rfl (fun _ _ => id) (fun _ _ => rfl) rfl, ?_,
        by simp [endedWell]⟩
      intro _ _ hc
      obtain ⟨-, rfl⟩ := Worker.copying.inj hc
      exact ⟨heof', hall', hhonest⟩
    cases resets with
    | true => exact hgo 0
    | false => exact hgo w.t.currentFileRetries
  · rename_i hnot
    refine ended (h.toPassed.frame rfl rfl (fun _ _ => id) (fun _ _ => rfl) rfl) ?_
    intro hend hkept hact
    have hmoved : moved ret = false := by
      cases ret with
      | error _ => rfl
      | ok n =>
        cases n with
        | zero => rfl
        | succ n => exact absurd rfl (hnot n)
    have hcopied : World.copied c' = true := by
      refine block_ended hall hblock (transInt_of_endCopy hend) hmoved ?_ heof
      intro hzero
      subst hzero
      cases preserve with
      | ok _ => exact hfit numTrans c c' hw hblock hact hend
      | error e => exact absurd hkept (Int.ne_of_lt e.code_bounds.2)
    rw [Bool.and_eq_true]
    exact ⟨hhonest (hasDone_of_doneAct hact), hcopied⟩

theorem stopped {numTrans : Except GftpError ℕ} {c : CopyState}
    {fromEnd toEnd preserve : Except GftpError Unit} {complete : Bool} (h : RemovalInv w)
    (hfit : RemovalFit w (.stopped fromEnd toEnd preserve)) (hw : w.worker = .copying numTrans c) :
    RemovalInv (w.ended (endCopy numTrans fromEnd toEnd) preserve complete) := by
  refine ended h.toPassed ?_
  intro hend hkept hact
  cases preserve with
  | ok _ => exact absurd hend (hfit numTrans c hw hact)
  | error e => exact absurd hkept (Int.ne_of_lt e.code_bounds.2)

/-- A file is marked, or passed over when there is nothing to be done with it. -/
theorem reconnected {t : Transfer} {marked : ℕ → Bool} (h : RemovalInv w)
    (hfiles : t.files = w.t.files) (hcur : t.curfle = w.cur) (hupd : t.updfle = w.t.updfle)
    (hskipped : t.skipFile = true → doneAct w.t.file = none) :
    RemovalInv { w with t := reconnected t, worker := .loop, marked := marked } := by
  refine ⟨?_, by simp, by simp [endedWell]⟩
  by_cases hskip : t.skipFile = true
  · obtain ⟨hnewFiles, hnewCur, hnewUpd, -⟩ := reconnected_pass hskip
    rw [hfiles] at hnewFiles
    rw [hcur] at hnewCur
    refine h.toPassed.next hnewCur (hnewUpd.trans hupd) ?_ rfl rfl ?_
    · intro i
      simp only [hnewFiles]
    · exact fun hact => absurd (hskipped hskip) hact
  · obtain ⟨hnewFiles, hnewCur, hnewUpd, -⟩ := reconnected_mark (Bool.not_eq_true _ ▸ hskip)
    rw [hfiles, hcur] at hnewFiles
    rw [hcur] at hnewCur
    refine h.toPassed.frame hnewCur (hnewUpd.trans hupd) ?_ (fun _ _ => rfl) rfl
    intro i hi
    simp only [hnewFiles, Function.update_of_ne (Nat.ne_of_lt hi)]
    exact id

theorem retry {ret retries : ℤ} {connect : Except GftpError Unit} (h : RemovalInv w)
    (hfit : RemovalFit w (.retry retries connect)) : RemovalInv (w.retry ret retries connect) := by
  unfold World.retry
  split
  · rename_i htries
    cases connect with
    | ok _ => exact h.reconnected rfl rfl rfl (hfit htries)
    | error e =>
      have htried : RemovalInv { w with t := { w.t with
          currentFileRetries := w.t.currentFileRetries + 1 } } :=
        h.of_worker rfl rfl rfl id (fun _ _ => id)
      simp only
      split
      · exact htried.finish
      · exact htried.of_worker rfl rfl rfl (by simp [endedWell]) (by simp)
  · exact h.finish

theorem skipFile (h : RemovalInv w) (i : ℕ) :
    RemovalInv { w with t := skipFileTransfer i w.t } := by
  rcases skipFileTransfer_cases i w.t with hsame | ⟨-, cancel, skip, total, hchanged⟩
  · rw [hsame]
    exact h
  · rw [hchanged]
    have hact : ∀ j, doneAct (Function.update w.t.files i
        { w.t.files i with transferAction := .skip } j) ≠ none → doneAct (w.t.files j) ≠ none := by
      intro j hj
      by_cases hi : j = i
      · subst hi
        rw [Function.update_self] at hj
        exact doneAct_of_skip hj
      · rw [Function.update_of_ne hi] at hj
        exact hj
    have hflags : ∀ j, hasDone (Function.update w.t.files i
        { w.t.files i with transferAction := .skip } j) → hasDone (w.t.files j) := by
      intro j hj
      by_cases hi : j = i
      · subst hi
        rw [Function.update_self] at hj
        exact hj
      · rw [Function.update_of_ne hi] at hj
        exact hj
    refine ⟨h.toPassed.frame rfl rfl (fun j _ => hact j) (fun _ _ => rfl) rfl, ?_, ?_⟩
    · intro numTrans c hc
      obtain ⟨heof, hall, hhonest⟩ := h.copying numTrans c hc
      exact ⟨heof, hall, fun hdone => hhonest (hflags _ hdone)⟩
    · exact fun hwell hdone => h.through hwell (hact _ hdone)

theorem pass {ret : ℤ} (h : RemovalInv w) (hfit : RemovalFit w .pass)
    (hw : w.worker = .passing ret) :
    RemovalInv { w with t := nextFileInTrans w.t, worker := .passed } := by
  refine ⟨h.toPassed.next rfl rfl ?_ rfl rfl ?_, by simp, by simp [endedWell]⟩
  · intro i
    by_cases hi : i = w.t.curfle
    · subst hi
      show doneAct (Function.update w.t.files w.t.curfle _ w.t.curfle) = _
      rw [Function.update_self]
      rfl
    · show doneAct (Function.update w.t.files w.t.curfle _ i) = _
      rw [Function.update_of_ne hi]
  · intro hact
    rcases hfit ret hw with hzero | hnone
    · exact h.through (by simp [hw, endedWell, hzero]) hact
    · exact absurd hnone hact

theorem step {action : TransAction} (hstep : TransStep w action w') (hfit : RemovalFit w action)
    (h : RemovalInv w) : RemovalInv w' := by
  cases hstep with
  | allDone hw hall => exact h.finish
  | attempt hw hmore =>
    refine ⟨h.toPassed.frame rfl rfl (fun _ _ => id) ?_ rfl, ?_, ?_⟩
    · intro i hi
      exact Function.update_of_ne (Nat.ne_of_lt hi) ..
    · intro _ _ hc
      split at hc <;> cases hc
    · intro hwell hact
      split at hwell
      · rename_i hskip
        exact absurd (hfit hskip) hact
      · cases hwell
  | begin hw => exact h.begin hfit
  | block hw hgo hblock => exact h.block hfit hw hblock
  | stopped hw hstop => exact h.stopped hfit hw
  | judge hw =>
    refine h.of_worker rfl rfl rfl ?_ ?_
    · intro hwell
      rw [hw]
      split at hwell
      · exact hwell
      · split at hwell
        · cases hwell
        · exact hwell
    · intro _ _ hc
      split at hc
      · cases hc
      · split at hc <;> cases hc
  | status hw =>
    unfold World.status
    split
    · exact h.finish
    · split
      · exact h.finish
      · exact h.of_worker rfl rfl rfl (by simp [endedWell]) (by simp)
  | retry hw => exact h.retry hfit
  | pass hw => exact h.pass hfit hw
  | afterPass hw =>
    unfold World.afterPass
    split
    · split
      · exact h.of_worker rfl rfl rfl (by simp [endedWell]) (by simp)
      · exact h.finish
    · exact h.of_worker rfl rfl rfl (by simp [endedWell]) (by simp)
  | cancelTransfer => exact h.of_worker rfl rfl rfl id (fun _ _ => id)
  | skipFile hi => exact h.skipFile _
  | nextTransfer hnext => exact ⟨h.toPassed.nextTransfer, h.copying, h.through⟩

end RemovalInv

section Runs

/-- In a run that fits, all that is done is done with a file that has been copied. -/
theorem acted_after_success {files : ℕ → TransFile} {numFiles : ℕ} {totalBytes : ℤ}
    {conn : Bool} {w : World}
    (hrun : Reaches TransStep RemovalFit (.start files numFiles totalBytes conn) w) :
    ∀ x ∈ w.acted, w.succeeded x.1 = true := by
  have hinv : RemovalInv w := hrun.invariant RemovalInv (.start ..)
    (fun _ _ _ h hfit hstep => h.step hstep hfit)
  exact fun x hx => (hinv.acted x hx).2

/-- An edited file that is to be uploaded and removed. -/
def editedFile : TransFile where
  isDir := false
  size := 5
  startsize := 0
  transferAction := .unset
  retryTransfer := false
  transferDone := false
  doneView := false
  doneEdit := false
  doneRm := true

def upload : Answers where
  connect := .ok ()
  makeDirectory := .ok ()
  size := .ok 5
  destSize := .ok 0
  transferFile := .ok 5
  source := [.ok [1, 2, 3, 4, 5]]
  puts := [.ok 3, .ok 2]

theorem uploaded_file_removed : ∃ w,
    Reaches TransStep RemovalFit (.start (fun _ => editedFile) 1 5 true) w ∧
      w.acted = [(0, .rmfile)] ∧ ∀ x ∈ w.acted, w.succeeded x.1 = true := by
  have hrun : Reaches TransStep RemovalFit (.start (fun _ => editedFile) 1 5 true) _ :=
    (Reaches.refl _).tail (a := .attempt) (fun h => absurd h (by decide))
        (.attempt rfl (by decide))
      |>.tail (a := .begin upload (.ok ())) (fun _ h => absurd h (by decide)) (.begin rfl)
      |>.tail (a := .block 8 true (.ok ()) (.ok ()) (.ok ()))
        (fun _ _ _ hc hb => by cases hc; cases hb) (.block rfl rfl rfl)
      |>.tail (a := .block 8 true (.ok ()) (.ok ()) (.ok ()))
        (fun _ _ _ hc hb _ _ => by cases hc; cases hb; rfl) (.block rfl rfl rfl)
      |>.tail (a := .judge) trivial (.judge rfl)
      |>.tail (a := .pass) (fun _ hc => by cases hc; exact .inl rfl) (.pass rfl)
      |>.tail (a := .nextTransfer) trivial (.nextTransfer rfl)
  exact ⟨_, hrun, rfl, acted_after_success hrun⟩

/-- An upload is stopped after three of its five bytes, and the edited file is removed. -/
theorem stopped_file_removed :
    ¬ ∀ (files : ℕ → TransFile) (numFiles : ℕ) (totalBytes : ℤ) (conn : Bool) (w : World),
      Reaches TransStep (fun _ _ => True) (.start files numFiles totalBytes conn) w →
        ∀ x ∈ w.acted, w.succeeded x.1 = true := by
  intro h
  have hrun : Reaches TransStep (fun _ _ => True) (.start (fun _ => editedFile) 1 5 true) _ :=
    (Reaches.refl _).tail (a := .attempt) trivial (.attempt rfl (by decide))
      |>.tail (a := .begin upload (.ok ())) trivial (.begin rfl)
      |>.tail (a := .block 3 true (.ok ()) (.ok ()) (.ok ())) trivial (.block rfl rfl rfl)
      |>.tail (a := .cancelTransfer) trivial .cancelTransfer
      |>.tail (a := .stopped (.ok ()) (.ok ()) (.ok ())) trivial (.stopped rfl rfl)
      |>.tail (a := .judge) trivial (.judge rfl)
      |>.tail (a := .pass) trivial (.pass rfl)
      |>.tail (a := .nextTransfer) trivial (.nextTransfer rfl)
  have hsucceeded := h _ _ _ _ _ hrun (0, .rmfile) (List.mem_singleton.mpr rfl)
  exact absurd hsucceeded (by decide)

end Runs

end Gftp.RemovalAfterSuccess
