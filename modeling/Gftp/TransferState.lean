import Gftp.CopyLoop
import Mathlib.Logic.Function.Basic

/-!
The record of a transfer and the functions that change it: one attempt at a file or
directory, the step to the next file, what follows a reconnection, the requests of the
user and what is done with the files passed over. Bit rates and log messages are left out.
-/

namespace Gftp.TransferState

open ByteStreams CopyLoop Protocol

/-- transfer_action; unset is 0, which a file has that the other side does not. -/
inductive TransferAction
  | unset
  | overwrite
  | resume
  | skip
  deriving DecidableEq

/-- The fields of a gftp_file that a transfer uses. -/
structure TransFile where
  isDir : Bool
  size : ℤ
  startsize : ℤ
  transferAction : TransferAction
  retryTransfer : Bool
  transferDone : Bool
  doneView : Bool
  doneEdit : Bool
  doneRm : Bool
  deriving DecidableEq

/-- gftp_transfer. curfle and updfle are places in the list of files, which ends at
numFiles. -/
structure Transfer where
  files : ℕ → TransFile
  numFiles : ℕ
  curfle : ℕ
  updfle : ℕ
  cancel : Bool
  skipFile : Bool
  nextFile : Bool
  done : Bool
  connErrorNoTimeout : Bool
  currentFileNumber : ℤ
  currentFileRetries : ℤ
  curtrans : ℤ
  totFileTrans : ℤ
  curresumed : ℤ
  transBytes : ℤ
  totalBytes : ℤ
  resumedBytes : ℤ

namespace Transfer

def file (t : Transfer) : TransFile := t.files t.curfle

def setFile (t : Transfer) (f : TransFile) : Transfer :=
  { t with files := Function.update t.files t.curfle f }

end Transfer

/-- What the two sides answer in one attempt: gftp_connect, gftp_make_directory,
gftp_get_file_size of the file and of its destination, gftp_transfer_file, the blocks. -/
structure Answers where
  connect : Except GftpError Unit
  makeDirectory : Except GftpError Unit
  size : Except GftpError ℕ
  destSize : Except GftpError ℕ
  transferFile : Except GftpError ℕ
  source : Stream GftpError
  puts : List PutOutcome

/-- How the start of an attempt ends: before the file was started, with a result, or with
a copy under way. -/
inductive Attempt
  | refused (ret : ℤ)
  | ended (ret : ℤ)
  | copying (c : CopyState)

def retOf : Except GftpError Unit → ℤ
  | .ok _ => 0
  | .error e => e.code

/-- A file without a size is asked for it. -/
def askSize (a : Answers) (t : Transfer) : Transfer × Option GftpError :=
  if t.file.size = 0 then
    match a.size with
    | .error e => (t.setFile { t.file with size := e.code }, some e)
    | .ok n => ({ t.setFile { t.file with size := n } with totalBytes := t.totalBytes + n }, none)
  else (t, none)

/-- A file that has failed before is resumed behind what the destination holds of it. -/
def askStart (a : Answers) (t : Transfer) : Transfer × Option GftpError :=
  if t.file.retryTransfer then
    match a.destSize with
    | .error e => (t.setFile { t.file with transferAction := .resume, startsize := e.code }, some e)
    | .ok n => (t.setFile { t.file with transferAction := .resume, startsize := n }, none)
  else (t, none)

def startOffset (f : TransFile) : ℤ := if f.transferAction = .resume then f.startsize else 0

/-- The counters are set when the transfer has been accepted. -/
def startFile (a : Answers) (t : Transfer) : Transfer × Attempt :=
  match askSize a t with
  | (t, some e) => (t, .refused e.code)
  | (t, none) =>
      match askStart a t with
      | (t, some e) => (t, .refused e.code)
      | (t, none) =>
          match a.transferFile with
          | .error e => ({ t with totFileTrans := e.code }, .ended e.code)
          | .ok n =>
              ({ t with
                totFileTrans := n
                curtrans := 0
                curresumed := startOffset t.file
                resumedBytes := t.resumedBytes + startOffset t.file },
                .copying (CopyState.start a.source a.puts))

/-- A directory with a startsize is there already. -/
def startDirectory (a : Answers) (t : Transfer) : Transfer × Attempt :=
  ({ t with totFileTrans := 0 },
    .ended (if 0 < t.file.startsize then 1 else retOf a.makeDirectory))

/-- _gftpui_common_trans_file_or_dir behind its test for skipped files, up to the copy. -/
def transFileOrDir (a : Answers) (t : Transfer) : Transfer × Attempt :=
  match a.connect with
  | .error e => (t, .refused e.code)
  | .ok _ => if t.file.isDir then startDirectory a t else startFile a t

/-- The end of the function: preserve is what _gftpui_common_preserve_perm_time returns. -/
def endAttempt (ret : ℤ) (preserve : Except GftpError Unit) (t : Transfer) : Transfer × ℤ :=
  if ret = 0 then (t, retOf preserve) else (t.setFile { t.file with retryTransfer := true }, ret)

/-- gftp_calc_kbs. -/
def gftpCalcKbs (n : ℕ) (t : Transfer) : Transfer :=
  { t with transBytes := t.transBytes + n, curtrans := t.curtrans + n }

/-- _gftpui_common_next_file_in_trans. -/
def nextFileInTrans (t : Transfer) : Transfer :=
  { t.setFile { t.file with transferDone := true } with
    curtrans := 0
    nextFile := true
    curfle := t.curfle + 1 }

/-- gftp_get_transfer_status after it has reconnected. -/
def reconnected (t : Transfer) : Transfer :=
  let t := { t with
    resumedBytes := t.resumedBytes + t.transBytes - t.curresumed - t.curtrans
    transBytes := 0 }
  if t.skipFile then
    { t with
      totalBytes := t.totalBytes - t.file.size
      curtrans := 0
      curfle := t.curfle + 1
      nextFile := true
      skipFile := false
      cancel := false }
  else
    { t.setFile { t.file with
        transferAction := .resume
        startsize := t.curtrans + t.curresumed } with
      curresumed := 0
      currentFileNumber := t.currentFileNumber - 1 }

/-- gftpui_common_cancel_file_transfer on a transfer that has been started. -/
def cancelFileTransfer (t : Transfer) : Transfer := { t with cancel := true, skipFile := false }

/-- gftpui_common_skip_file_transfer. Every action but 0 has a bit of the one to skip. -/
def skipFileTransfer (i : ℕ) (t : Transfer) : Transfer :=
  if (t.files i).transferAction = .unset then
    let t := { t with files := Function.update t.files i { t.files i with transferAction := .skip } }
    if i = t.curfle then { t with cancel := true, skipFile := true }
    else if (t.files i).transferDone then t
    else { t with totalBytes := t.totalBytes - (t.files i).size }
  else t

/-- What on_next_transfer does with a file: its destination is opened, or its source removed. -/
inductive DoneAct
  | viewFile
  | rmfile
  deriving DecidableEq

def doneAct (f : TransFile) : Option DoneAct :=
  if f.doneView || f.doneEdit then
    if f.transferAction = .skip then none else some .viewFile
  else if f.doneRm then some .rmfile
  else none

/-- What is done with n files from a place on. -/
def doneActs (files : ℕ → TransFile) : ℕ → ℕ → List (ℕ × DoneAct)
  | _, 0 => []
  | i, n + 1 => ((doneAct (files i)).map (Prod.mk i)).toList ++ doneActs files (i + 1) n

def onNextTransfer (t : Transfer) : Transfer × List (ℕ × DoneAct) :=
  ({ t with nextFile := false, updfle := t.curfle },
    doneActs t.files t.updfle (t.curfle - t.updfle))

theorem mem_doneActs {files : ℕ → TransFile} {i n : ℕ} {x : ℕ × DoneAct} :
    x ∈ doneActs files i n ↔ i ≤ x.1 ∧ x.1 < i + n ∧ doneAct (files x.1) = some x.2 := by
  induction n generalizing i with
  | zero =>
    simp only [doneActs, List.not_mem_nil, Nat.add_zero, false_iff]
    omega
  | succ n ih =>
    simp only [doneActs, List.mem_append, ih, Option.mem_toList, Option.map_eq_some_iff]
    constructor
    · rintro (⟨act, hact, rfl⟩ | ⟨hlow, hhigh, hact⟩)
      · exact ⟨Nat.le_refl _, by simp only; omega, hact⟩
      · exact ⟨by omega, by omega, hact⟩
    · intro ⟨hlow, hhigh, hact⟩
      by_cases hi : i = x.1
      · subst hi
        exact .inl ⟨x.2, hact, rfl⟩
      · exact .inr ⟨by omega, by omega, hact⟩

section Fields

variable {t : Transfer} {f : TransFile}

@[simp] theorem setFile_file : (t.setFile f).file = f := Function.update_self ..

@[simp] theorem setFile_curfle : (t.setFile f).curfle = t.curfle := rfl

@[simp] theorem setFile_updfle : (t.setFile f).updfle = t.updfle := rfl

@[simp] theorem setFile_curtrans : (t.setFile f).curtrans = t.curtrans := rfl

theorem setFile_files_ne {i : ℕ} (h : i ≠ t.curfle) : (t.setFile f).files i = t.files i :=
  Function.update_of_ne h ..

/-- A file that has been skipped is passed over once the sides are connected again. -/
theorem reconnected_pass (h : t.skipFile = true) :
    (reconnected t).files = t.files ∧ (reconnected t).curfle = t.curfle + 1 ∧
      (reconnected t).updfle = t.updfle ∧ (reconnected t).curtrans = 0 := by
  have hpass : ∀ {p q : Transfer}, (if t.skipFile = true then p else q) = p := if_pos h
  unfold reconnected
  rw [hpass]
  exact ⟨rfl, rfl, rfl, rfl⟩

theorem reconnected_mark (h : t.skipFile = false) :
    (reconnected t).files = Function.update t.files t.curfle
        { t.file with transferAction := .resume, startsize := t.curtrans + t.curresumed } ∧
      (reconnected t).curfle = t.curfle ∧ (reconnected t).updfle = t.updfle ∧
      (reconnected t).curtrans = t.curtrans := by
  have hmark : ∀ {p q : Transfer}, (if t.skipFile = true then p else q) = q :=
    if_neg (by simp [h])
  unfold reconnected
  rw [hmark]
  exact ⟨rfl, rfl, rfl, rfl⟩

/-- A request to skip a file changes nothing but the action of a file that has none. -/
theorem skipFileTransfer_cases (i : ℕ) (t : Transfer) :
    skipFileTransfer i t = t ∨ (t.files i).transferAction = .unset ∧
      ∃ cancel skipFile totalBytes, skipFileTransfer i t = { t with
        files := Function.update t.files i { t.files i with transferAction := .skip }
        cancel := cancel
        skipFile := skipFile
        totalBytes := totalBytes } := by
  by_cases hunset : (t.files i).transferAction = .unset
  · refine .inr ⟨hunset, ?_⟩
    rw [skipFileTransfer, if_pos hunset]
    by_cases hcur : i = t.curfle
    · exact ⟨true, true, t.totalBytes, if_pos hcur⟩
    · simp only [if_neg hcur, Function.update_self]
      by_cases hdone : (t.files i).transferDone = true
      · exact ⟨t.cancel, t.skipFile, t.totalBytes, if_pos hdone⟩
      · exact ⟨t.cancel, t.skipFile, t.totalBytes - (t.files i).size, if_neg hdone⟩
  · exact .inl (if_neg hunset)

end Fields

/-- Only the current file of a transfer has changed, and of it only what is asked of the two
sides: its size, and for one that has failed before its action and startsize. -/
structure Asked (t t' : Transfer) : Prop where
  curfle : t'.curfle = t.curfle
  updfle : t'.updfle = t.updfle
  curtrans : t'.curtrans = t.curtrans
  others : ∀ i, i ≠ t.curfle → t'.files i = t.files i
  isDir : t'.file.isDir = t.file.isDir
  retry : t'.file.retryTransfer = t.file.retryTransfer
  done : t'.file.doneView = t.file.doneView ∧ t'.file.doneEdit = t.file.doneEdit ∧
    t'.file.doneRm = t.file.doneRm
  resume : t.file.transferAction = .resume → t'.file.transferAction = .resume
  first : t.file.retryTransfer = false → t'.file.transferAction = t.file.transferAction ∧
    t'.file.startsize = t.file.startsize

section Attempts

variable {a : Answers} {t t' t'' : Transfer} {out : Option GftpError} {attempt : Attempt}

theorem Asked.refl (t : Transfer) : Asked t t :=
  ⟨rfl, rfl, rfl, fun _ _ => rfl, rfl, rfl, ⟨rfl, rfl, rfl⟩, id, fun _ => ⟨rfl, rfl⟩⟩

theorem Asked.trans (h : Asked t t') (h' : Asked t' t'') : Asked t t'' where
  curfle := h'.curfle.trans h.curfle
  updfle := h'.updfle.trans h.updfle
  curtrans := h'.curtrans.trans h.curtrans
  others i hi := (h'.others i (h.curfle.symm ▸ hi)).trans (h.others i hi)
  isDir := h'.isDir.trans h.isDir
  retry := h'.retry.trans h.retry
  done := ⟨h'.done.1.trans h.done.1, h'.done.2.1.trans h.done.2.1, h'.done.2.2.trans h.done.2.2⟩
  resume hr := h'.resume (h.resume hr)
  first hf := by
    obtain ⟨haction, hstart⟩ := h.first hf
    obtain ⟨haction', hstart'⟩ := h'.first (h.retry.trans hf)
    exact ⟨haction'.trans haction, hstart'.trans hstart⟩

/-- The question for the size sets no more than the size and the total. -/
theorem askSize_cases (h : askSize a t = (t', out)) :
    t' = t ∨ ∃ size totalBytes,
      t' = { t.setFile { t.file with size := size } with totalBytes := totalBytes } := by
  unfold askSize at h
  split at h
  · split at h <;>
    · obtain ⟨rfl, -⟩ := Prod.mk.inj h
      exact .inr ⟨_, _, rfl⟩
  · exact .inl (Prod.mk.inj h).1.symm

/-- The question for the destination makes the file one to resume, if it sets anything. -/
theorem askStart_cases (h : askStart a t = (t', out)) :
    t' = t ∨ ∃ startsize,
      t' = t.setFile { t.file with transferAction := .resume, startsize := startsize } := by
  unfold askStart at h
  split at h
  · split at h <;>
    · obtain ⟨rfl, -⟩ := Prod.mk.inj h
      exact .inr ⟨_, rfl⟩
  · exact .inl (Prod.mk.inj h).1.symm

theorem askSize_asked (h : askSize a t = (t', out)) : Asked t t' := by
  rcases askSize_cases h with rfl | ⟨size, totalBytes, rfl⟩
  · exact .refl t'
  · constructor <;> simp +contextual [Transfer.file, Transfer.setFile]

theorem askStart_asked (h : askStart a t = (t', out)) :
    Asked t t' ∧ (out = none → t.file.retryTransfer = true →
      ∃ n : ℕ, a.destSize = .ok n ∧ t'.file.startsize = n ∧ t'.file.transferAction = .resume) := by
  unfold askStart at h
  split at h
  · rename_i hretry
    split at h
    · obtain ⟨rfl, rfl⟩ := Prod.mk.inj h
      refine ⟨?_, by simp⟩
      constructor <;> simp +contextual [hretry, setFile_files_ne]
    · rename_i n hdest
      obtain ⟨rfl, rfl⟩ := Prod.mk.inj h
      refine ⟨?_, fun _ _ => ⟨n, hdest, by simp, by simp⟩⟩
      constructor <;> simp +contextual [hretry, setFile_files_ne]
  · rename_i hretry
    obtain ⟨rfl, -⟩ := Prod.mk.inj h
    exact ⟨.refl t, fun _ h => absurd h hretry⟩

/-- What the start of an attempt can do. -/
inductive Began (a : Answers) (t : Transfer) : Transfer → Attempt → Prop
  | refused {t' : Transfer} (ret : ℤ) (hneg : ret < 0) (hasked : Asked t t')
      (hdir : t.file.isDir = true → t' = t) : Began a t t' (.refused ret)
  | directory (hdir : t.file.isDir = true) :
      Began a t { t with totFileTrans := 0 }
        (.ended (if 0 < t.file.startsize then 1 else retOf a.makeDirectory))
  | failed {t' : Transfer} (e : GftpError) (hfile : t.file.isDir = false) (hasked : Asked t t')
      (hretried : t.file.retryTransfer = true →
        ∃ n : ℕ, a.destSize = .ok n ∧ t'.file.startsize = n ∧ t'.file.transferAction = .resume) :
      Began a t { t' with totFileTrans := e.code } (.ended e.code)
  | copying {t' : Transfer} (n : ℕ) (hfile : t.file.isDir = false) (hasked : Asked t t')
      (hretried : t.file.retryTransfer = true →
        ∃ n : ℕ, a.destSize = .ok n ∧ t'.file.startsize = n ∧ t'.file.transferAction = .resume) :
      Began a t
        { t' with
          totFileTrans := n
          curtrans := 0
          curresumed := startOffset t'.file
          resumedBytes := t'.resumedBytes + startOffset t'.file }
        (.copying (CopyState.start a.source a.puts))

theorem transFileOrDir_began (h : transFileOrDir a t = (t', attempt)) : Began a t t' attempt := by
  unfold transFileOrDir at h
  split at h
  · rename_i e _
    obtain ⟨rfl, rfl⟩ := Prod.mk.inj h
    exact .refused _ e.code_bounds.2 (.refl _) (fun _ => rfl)
  · split at h
    · rename_i hdir
      obtain ⟨rfl, rfl⟩ := Prod.mk.inj h
      exact .directory hdir
    · rename_i hfile
      unfold startFile at h
      split at h
      · rename_i t₁ e hsize
        obtain ⟨rfl, rfl⟩ := Prod.mk.inj h
        exact .refused _ e.code_bounds.2 (askSize_asked hsize) (fun hdir => absurd hdir hfile)
      · rename_i t₁ hsize
        have hasked := askSize_asked hsize
        split at h
        · rename_i t₂ e hstart
          obtain ⟨rfl, rfl⟩ := Prod.mk.inj h
          exact .refused _ e.code_bounds.2 (hasked.trans (askStart_asked hstart).1)
            (fun hdir => absurd hdir hfile)
        · rename_i t₂ hstart
          obtain ⟨hasked', hretried⟩ := askStart_asked hstart
          have hretried' := fun hr => hretried rfl (hasked.retry.trans hr)
          split at h
          · rename_i e _
            obtain ⟨rfl, rfl⟩ := Prod.mk.inj h
            exact .failed e (by simpa using hfile) (hasked.trans hasked') hretried'
          · rename_i n _
            obtain ⟨rfl, rfl⟩ := Prod.mk.inj h
            exact .copying n (by simpa using hfile) (hasked.trans hasked') hretried'

end Attempts

end Gftp.TransferState
