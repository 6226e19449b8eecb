import Gftp.Runs
import Gftp.TransferState

/-!
Runs of a transfer: the thread that goes through the files, and the user interface that
stops it, skips files and acts on the files passed over. The world also keeps what has
been delivered of each file, where it was last started, whether it waits to be resumed,
and whether its last attempt ended successfully.
-/

namespace Gftp.TransferRun

open ByteStreams CopyLoop Protocol Runs TransferState

/-- Where the thread stands: at the head of its loop over the files, behind the test for
skipped files, at the head of the copy loop, with the result of an attempt, in
gftp_get_transfer_status before and in its loop, before and behind the step to the next
file, at its end. -/
inductive Worker
  | loop
  | begun
  | copying (numTrans : Except GftpError ℕ) (c : CopyState)
  | attempted (ret : ℤ)
  | status (ret : ℤ)
  | retrying (ret : ℤ)
  | passing (ret : ℤ)
  | passed
  | exited

/-- A file started after gftp_get_transfer_status has marked it: where it is started, and
what had been delivered of it. -/
structure Restart where
  file : ℕ
  startsize : ℤ
  delivered : ℤ
  deriving DecidableEq

structure World where
  t : Transfer
  worker : Worker
  /-- Where the file was last started, 0 for one that was not. -/
  offset : ℕ → ℤ
  delivered : ℕ → ℤ
  marked : ℕ → Bool
  /-- The last start was the first one, or one that leaves out no byte behind those delivered. -/
  honest : ℕ → Bool
  succeeded : ℕ → Bool
  restarts : List Restart
  acted : List (ℕ × DoneAct)

namespace World

/-- A transfer before its first file. -/
def start (files : ℕ → TransFile) (numFiles : ℕ) (totalBytes : ℤ) (connErrorNoTimeout : Bool) :
    World where
  t := {
    files := files
    numFiles := numFiles
    curfle := 0
    updfle := 0
    cancel := false
    skipFile := false
    nextFile := false
    done := false
    connErrorNoTimeout := connErrorNoTimeout
    currentFileNumber := 0
    currentFileRetries := 0
    curtrans := 0
    totFileTrans := 0
    curresumed := 0
    transBytes := 0
    totalBytes := totalBytes
    resumedBytes := 0 }
  worker := .loop
  offset _ := 0
  delivered _ := 0
  marked _ := false
  honest _ := true
  succeeded _ := false
  restarts := []
  acted := []

def cur (w : World) : ℕ := w.t.curfle

/-- Where a file is started, and what decides whether a directory is made. -/
def usedStart (f : TransFile) : ℤ := if f.isDir then f.startsize else startOffset f

/-- The current file is started in the transfer t. -/
def started (w : World) (t : Transfer) : World :=
  let start := usedStart t.file
  { w with
    t := t
    marked := Function.update w.marked w.cur false
    honest := Function.update w.honest w.cur
      (!w.marked w.cur || start ≤ w.delivered w.cur)
    restarts := if w.marked w.cur then w.restarts ++ [⟨w.cur, start, w.delivered w.cur⟩]
      else w.restarts }

/-- The attempt at the current file has come to its end. A copy was complete when the source
was at its end and the destination had accepted all of it, or when the servers moved the
file between them. -/
def ended (w : World) (ret : ℤ) (preserve : Except GftpError Unit) (complete : Bool) : World :=
  let attempt := endAttempt ret preserve w.t
  { w with
    t := attempt.1
    worker := .attempted attempt.2
    succeeded := Function.update w.succeeded w.cur (complete && attempt.2 = 0) }

def copied (c : CopyState) : Bool := c.sawEof && c.accepted = c.delivered || c.noTrans

def begin (w : World) (a : Answers) (preserve : Except GftpError Unit) : World :=
  match transFileOrDir a w.t with
  | (t, .refused ret) => { w with t := t, worker := .attempted ret }
  | (t, .ended ret) => (w.started t).ended ret preserve true
  | (t, .copying c) =>
      let w := w.started t
      { w with
        worker := .copying (.ok 0) c
        offset := Function.update w.offset w.cur (usedStart t.file)
        delivered := Function.update w.delivered w.cur (usedStart t.file) }

/-- A block of the copy. Whether the number of retries is reset depends on the time. -/
def block (w : World) (c : CopyState) (ret : Except GftpError ℕ) (resets : Bool)
    (fromEnd toEnd preserve : Except GftpError Unit) : World :=
  let w := { w with
    delivered := Function.update w.delivered w.cur (w.offset w.cur + c.accepted.length) }
  match ret with
  | .ok (n + 1) =>
      let t := gftpCalcKbs (n + 1) w.t
      { w with
        t := if resets then { t with currentFileRetries := 0 } else t
        worker := .copying (.ok (n + 1)) c }
  | ret => w.ended (endCopy ret fromEnd toEnd) preserve (w.honest w.cur && copied c)

/-- The loop over the files behind an attempt. -/
def judge (w : World) (ret : ℤ) : World :=
  { w with worker :=
      if w.t.cancel ∨ ret = GftpError.fatal.code then .passing ret
      else if ret < 0 then .status ret
      else .passing ret }

/-- The thread ends. -/
def finish (w : World) : World := { w with t := { w.t with done := true }, worker := .exited }

/-- gftp_get_transfer_status up to its loop. -/
def status (w : World) (ret retries : ℤ) : World :=
  if w.t.cancel ∨ ret = GftpError.fatal.code then w.finish
  else if ret ≠ GftpError.timedOut.code ∧ w.t.connErrorNoTimeout = false ∧ retries ≠ 0 ∧
      retries ≤ w.t.currentFileRetries then w.finish
  else { w with worker := .retrying ret }

/-- One round of its loop; connect is what the two calls of gftp_connect return. -/
def retry (w : World) (ret retries : ℤ) (connect : Except GftpError Unit) : World :=
  if retries = 0 ∨ w.t.currentFileRetries ≤ retries then
    let w := { w with t := { w.t with currentFileRetries := w.t.currentFileRetries + 1 } }
    match connect with
    | .ok _ =>
        { w with
          t := reconnected w.t
          worker := .loop
          marked := if w.t.skipFile then w.marked else Function.update w.marked w.cur true }
    | .error e => if e = .fatal then w.finish else { w with worker := .retrying ret }
  else w.finish

/-- The loop over the files behind the step to the next one. -/
def afterPass (w : World) : World :=
  if w.t.cancel then
    if w.t.skipFile then { w with t := { w.t with cancel := false }, worker := .loop }
    else w.finish
  else { w with worker := .loop }

end World

/-- What happens next: a step of the thread with the answers it gets, or of the user
interface. -/
inductive TransAction
  | attempt
  | begin (a : Answers) (preserve : Except GftpError Unit)
  | block (blksize : ℕ) (resets : Bool) (fromEnd toEnd preserve : Except GftpError Unit)
  | stopped (fromEnd toEnd preserve : Except GftpError Unit)
  | judge
  | status (retries : ℤ)
  | retry (retries : ℤ) (connect : Except GftpError Unit)
  | pass
  | afterPass
  | cancelTransfer
  | skipFile (i : ℕ)
  | nextTransfer

inductive TransStep : World → TransAction → World → Prop
  | allDone {w : World} (hw : w.worker = .loop) (hall : w.cur = w.t.numFiles) :
      TransStep w .attempt w.finish
  | attempt {w : World} (hw : w.worker = .loop) (hmore : w.cur < w.t.numFiles) :
      TransStep w .attempt { w with
        t := { w.t with
          currentFileNumber := w.t.currentFileNumber + 1
          totFileTrans := if w.t.file.transferAction = .skip then 0 else w.t.totFileTrans }
        worker := if w.t.file.transferAction = .skip then .attempted 0 else .begun
        succeeded := Function.update w.succeeded w.cur false }
  | begin {w : World} {a : Answers} {preserve : Except GftpError Unit} (hw : w.worker = .begun) :
      TransStep w (.begin a preserve) (w.begin a preserve)
  | block {w : World} {numTrans ret : Except GftpError ℕ} {c c' : CopyState} {blksize : ℕ}
      {resets : Bool} {fromEnd toEnd preserve : Except GftpError Unit}
      (hw : w.worker = .copying numTrans c) (hgo : w.t.cancel = false)
      (hblock : doTransferBlock blksize c = .ok (ret, c')) :
      TransStep w (.block blksize resets fromEnd toEnd preserve)
        (w.block c' ret resets fromEnd toEnd preserve)
  | stopped {w : World} {numTrans : Except GftpError ℕ} {c : CopyState}
      {fromEnd toEnd preserve : Except GftpError Unit} (hw : w.worker = .copying numTrans c)
      (hstop : w.t.cancel = true) :
      TransStep w (.stopped fromEnd toEnd preserve)
        (w.ended (endCopy numTrans fromEnd toEnd) preserve
          (w.honest w.cur && World.copied c))
  | judge {w : World} {ret : ℤ} (hw : w.worker = .attempted ret) :
      TransStep w .judge (w.judge ret)
  | status {w : World} {ret retries : ℤ} (hw : w.worker = .status ret) :
      TransStep w (.status retries) (w.status ret retries)
  | retry {w : World} {ret retries : ℤ} {connect : Except GftpError Unit}
      (hw : w.worker = .retrying ret) :
      TransStep w (.retry retries connect) (w.retry ret retries connect)
  | pass {w : World} {ret : ℤ} (hw : w.worker = .passing ret) :
      TransStep w .pass { w with t := nextFileInTrans w.t, worker := .passed }
  | afterPass {w : World} (hw : w.worker = .passed) : TransStep w .afterPass w.afterPass
  | cancelTransfer {w : World} :
      TransStep w .cancelTransfer { w with t := cancelFileTransfer w.t }
  | skipFile {w : World} {i : ℕ} (hi : i < w.t.numFiles) :
      TransStep w (.skipFile i) { w with t := skipFileTransfer i w.t }
  | nextTransfer {w : World} (hnext : w.t.nextFile = true) :
      TransStep w .nextTransfer { w with
        t := (onNextTransfer w.t).1
        acted := w.acted ++ (onNextTransfer w.t).2 }

end Gftp.TransferRun
