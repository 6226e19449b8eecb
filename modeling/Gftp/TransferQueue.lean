import Gftp.ByteStrings
import Gftp.Runs
import Gftp.TransferState

/-!
The queue of transfers: files are appended to a transfer between the same two sites or get a
transfer of their own, the timer shows, starts and removes transfers, the user starts and
stops them and skips files, and a thread goes through the files of each. Any two of these
come in any order, a section under a mutex being one step. What an attempt transfers, the
passwords and the sockets are left out.
-/

namespace Gftp.TransferQueue

open ByteStrings Protocol Runs TransferState

/-- The fields of a gftp_request that the queue reads. -/
structure QueueRequest where
  protonum : ℕ
  port : ℕ
  hostname : Option Bytes
  username : Option Bytes
  directory : Option Bytes
  stopable : Bool
  deriving DecidableEq

/-- gftp_copy_request makes a request that is not stopable. -/
def gftpCopyRequest (r : QueueRequest) : QueueRequest := { r with stopable := false }

/-- strcmp on strings that may be NULL. -/
def sameText : Option Bytes → Option Bytes → Bool
  | some a, some b => a == b
  | none, none => true
  | _, _ => false

def compareRequest (request1 request2 : QueueRequest) (compareDirs : Bool) : Bool :=
  if request1.protonum = request2.protonum ∧ request1.port = request2.port then
    sameText request1.hostname request2.hostname &&
      sameText request1.username request2.username &&
      (!compareDirs || sameText request1.directory request2.directory)
  else false

/-- The fields of a gftp_file that the queue reads. -/
structure QueueFile where
  isDir : Bool
  startsize : ℤ
  transferAction : TransferAction
  deriving DecidableEq

def QueueFile.setAction (f : QueueFile) (action : TransferAction) : QueueFile :=
  { f with transferAction := action }

/-- Where the thread of a transfer stands: not created, before its loop over the files, at
the head of it, behind an attempt, in gftp_get_transfer_status before and in its loop, before
and behind the step to the next file, behind the loop, at its end. -/
inductive Worker
  | none
  | created
  | loop
  | attempted (ret : ℤ)
  | status (ret : ℤ)
  | retrying
  | passing
  | passed
  | left
  | exited
  deriving DecidableEq

/-- gftp_transfer. curfle is a place in the list of files or NULL. -/
structure QueueTransfer where
  fromreq : QueueRequest
  toreq : QueueRequest
  files : List QueueFile
  curfle : Option ℕ
  numdirs : ℕ
  numfiles : ℕ
  ready : Bool
  toShow : Bool
  started : Bool
  done : Bool
  cancel : Bool
  skipFile : Bool
  nextFile : Bool
  /-- It has a row in the window. -/
  row : Bool
  /-- transfer_done has begun with it. -/
  removing : Bool
  worker : Worker
  /-- The user has stopped it. -/
  cancelled : Bool
  /-- An error has ended its loop. -/
  gaveUp : Bool
  deriving DecidableEq

/-- A node of the list, NULL behind its end. -/
def nodeAt (files : List QueueFile) (i : ℕ) : Option ℕ := if i < files.length then some i else none

/-- How gftp_get_transfer_status goes on after a round of its loop. -/
inductive Reconnect
  | connected (startsize : ℤ)
  | again
  | givesUp

namespace QueueTransfer

/-- The counting loop over the files. -/
def countFiles (t : QueueTransfer) (files : List QueueFile) : QueueTransfer :=
  files.foldl (fun t f =>
    if f.isDir then { t with numdirs := t.numdirs + 1 }
    else { t with numfiles := t.numfiles + 1 }) t

/-- gftp_tdata_new with what gftpui_common_add_file_transfer puts into it. -/
def queued (fromreq toreq : QueueRequest) (files : List QueueFile) (showDialog : Bool) :
    QueueTransfer :=
  countFiles {
    fromreq := gftpCopyRequest fromreq
    toreq := gftpCopyRequest toreq
    files := files
    curfle := none
    numdirs := 0
    numfiles := 0
    ready := !showDialog
    toShow := !showDialog
    started := false
    done := false
    cancel := false
    skipFile := false
    nextFile := false
    row := false
    removing := false
    worker := .none
    cancelled := false
    gaveUp := false } files

/-- The test of the search in gftpui_common_add_file_transfer. -/
def canAppend (t : QueueTransfer) (fromreq toreq : QueueRequest) : Bool :=
  compareRequest t.fromreq fromreq false && compareRequest t.toreq toreq false && t.curfle.isSome

def appendFiles (t : QueueTransfer) (files : List QueueFile) : QueueTransfer :=
  countFiles { t with files := t.files ++ files } files

/-- gftpui_common_cancel_file_transfer. -/
def cancelFileTransfer (t : QueueTransfer) : QueueTransfer :=
  let t :=
    if t.started then { t with cancel := true, skipFile := false }
    else { t with done := true }
  { t with
    fromreq := { t.fromreq with stopable := false }
    toreq := { t.toreq with stopable := false }
    cancelled := true }

def actionAt (t : QueueTransfer) (i : ℕ) : Option TransferAction :=
  (t.files[i]?).map (·.transferAction)

/-- gftpui_common_skip_file_transfer. Every action but 0 has a bit of the one to skip. -/
def skipFileTransfer (i : ℕ) (t : QueueTransfer) : QueueTransfer :=
  if t.started ∧ t.actionAt i = some .unset then
    let t := { t with files := t.files.modify i (·.setAction .skip) }
    if t.curfle = some i then { t with cancel := true, skipFile := true } else t
  else t

/-- The end of gftpui_ask_transfer; actions are what the user has chosen for the files. -/
def askTransfer (ok : Bool) (actions : ℕ → TransferAction) (t : QueueTransfer) : QueueTransfer :=
  let t := { t with files := t.files.mapIdx fun i (f : QueueFile) => f.setAction (actions i) }
  if ok then
    let t := { t with ready := true }
    if t.files.all (·.transferAction = .skip) then { t with toShow := false, done := true }
    else { t with toShow := true }
  else { t with toShow := false, done := true, ready := true }

def onNextTransfer (t : QueueTransfer) : QueueTransfer := { t with nextFile := false }

def showTransfer (t : QueueTransfer) : QueueTransfer :=
  { t with row := true, toShow := false, curfle := nodeAt t.files 0 }

def createTransfer (t : QueueTransfer) : QueueTransfer :=
  if t.fromreq.stopable then t else { t with started := true, worker := .created }

/-- The end of update_downloads on a transfer that it keeps. -/
def startWaiting (oneTransfer startTransfers : Bool) (inProgress : ℕ) (t : QueueTransfer) :
    QueueTransfer :=
  if t.curfle.isSome && !t.started && startTransfers && (inProgress == 0 || !oneTransfer) then
    t.createTransfer
  else t

/-- update_downloads on one transfer up to the removal from the list. -/
def updateDownloads (oneTransfer startTransfers : Bool) (inProgress : ℕ) (t : QueueTransfer) :
    QueueTransfer :=
  if t.nextFile then t.onNextTransfer.startWaiting oneTransfer startTransfers inProgress
  else if t.toShow then t.showTransfer.startWaiting oneTransfer startTransfers inProgress
  else if t.done then { t with removing := true }
  else t.startWaiting oneTransfer startTransfers inProgress

/-- The step to the next file. -/
def nextFileInTrans (t : QueueTransfer) : QueueTransfer :=
  { t with curfle := t.curfle.bind fun i => nodeAt t.files (i + 1), nextFile := true }

/-- gftp_get_transfer_status after it has reconnected. -/
def reconnected (startsize : ℤ) (t : QueueTransfer) : QueueTransfer :=
  if t.skipFile then { t.nextFileInTrans with skipFile := false, cancel := false }
  else
    match t.curfle with
    | some i =>
        { t with
          files := t.files.modify i fun f =>
            { f.setAction .resume with startsize := startsize } }
    | none => t

/-- The thread behind an attempt. -/
def judge (ret : ℤ) (t : QueueTransfer) : QueueTransfer :=
  { t with worker :=
      if t.cancel ∨ ret = GftpError.fatal.code then .passing
      else if ret < 0 then .status ret
      else .passing }

/-- gftp_get_transfer_status up to its loop. -/
def status (ret : ℤ) (t : QueueTransfer) : QueueTransfer :=
  if t.cancel ∨ ret = GftpError.fatal.code then { t with worker := .left, gaveUp := true }
  else { t with worker := .retrying }

/-- The thread behind the step to the next file. -/
def afterPass (t : QueueTransfer) : QueueTransfer :=
  if t.cancel then
    if t.skipFile then { t with cancel := false, worker := .loop } else { t with worker := .left }
  else { t with worker := .loop }

/-- An attempt at the current file, with what it returns. A file to be skipped is not tried. -/
def attempt (ret : ℤ) (t : QueueTransfer) : QueueTransfer :=
  match t.curfle with
  | none => { t with worker := .left }
  | some i =>
      { t with worker := .attempted (if t.actionAt i = some .skip then 0 else ret) }

/-- A step of gftpui_common_transfer_files; ret is what an attempt returns. -/
def transferFiles (ret : ℤ) (re : Reconnect) (t : QueueTransfer) : QueueTransfer :=
  match t.worker with
  | .none | .exited => t
  | .created => { t with worker := .loop, curfle := nodeAt t.files 0 }
  | .loop => t.attempt ret
  | .attempted ret => t.judge ret
  | .status ret => t.status ret
  | .retrying =>
      match re with
      | .connected startsize => { t.reconnected startsize with worker := .loop }
      | .again => t
      | .givesUp => { t with worker := .left, gaveUp := true }
  | .passing => { t.nextFileInTrans with worker := .passed }
  | .passed => t.afterPass
  | .left => { t with done := true, worker := .exited }

end QueueTransfer

/-- The arguments of gftpui_common_add_file_transfer with the options it looks up. -/
structure AddArgs where
  fromreq : QueueRequest
  toreq : QueueRequest
  files : List QueueFile
  overwriteDefault : Bool
  appendTransfers : Bool
  oneTransfer : Bool

/-- Whether the user is asked first. -/
def AddArgs.showDialog (a : AddArgs) : Bool :=
  !a.overwriteDefault && a.files.any fun f => 0 < f.startsize && !f.isDir

/-- Where gftpui_common_add_file_transfer stands: not called, at a transfer of the list with
the mutex of the queue, and before it adds a transfer. -/
inductive Adding
  | idle
  | searching (a : AddArgs) (i : ℕ)
  | making (a : AddArgs)

/-- What has become of the files of a call: appended to a transfer, which is kept as it was
before, or given a transfer of their own. -/
inductive Added
  | appended (t : QueueTransfer) (files : List QueueFile)
  | own (t : QueueTransfer) (files : List QueueFile)

/-- transfers is gftp_file_transfers, inProgress is num_transfers_in_progress. -/
structure Queue where
  transfers : List QueueTransfer
  adding : Adding
  inProgress : ℕ
  added : List Added

namespace Queue

def empty : Queue := ⟨[], .idle, 0, []⟩

def setTransfer (s : Queue) (i : ℕ) (t : QueueTransfer) : Queue :=
  { s with transfers := s.transfers.set i t }

/-- gftpui_common_add_file_transfer up to its search. -/
def add (s : Queue) (a : AddArgs) : Queue :=
  { s with adding :=
      if a.appendTransfers && a.oneTransfer && !a.showDialog then .searching a 0 else .making a }

/-- One transfer in the search. -/
def check (s : Queue) (a : AddArgs) (i : ℕ) (t : QueueTransfer) : Queue :=
  if t.canAppend a.fromreq a.toreq then
    { s.setTransfer i (t.appendFiles a.files) with
      adding := .idle
      added := s.added ++ [.appended t a.files] }
  else { s with adding := .searching a (i + 1) }

/-- The files get a transfer of their own. -/
def make (s : Queue) (a : AddArgs) : Queue :=
  let t := QueueTransfer.queued a.fromreq a.toreq a.files a.showDialog
  { s with
    transfers := s.transfers ++ [t]
    adding := .idle
    added := s.added ++ [.own t a.files] }

/-- A step on one transfer. A thread that is created or removed counts. -/
def onTransfer (s : Queue) (i : ℕ) (t t' : QueueTransfer) : Queue :=
  { s.setTransfer i t' with
    inProgress :=
      if !t.started && t'.started then s.inProgress + 1
      else if t.started && !t.removing && t'.removing then s.inProgress - 1
      else s.inProgress }

end Queue

/-- What happens next, to the transfer at a place of the list where it is about one. -/
inductive QueueAction
  | add (a : AddArgs)
  | check
  | make
  | askTransfer (i : ℕ) (ok : Bool) (actions : ℕ → TransferAction)
  | updateDownloads (i : ℕ) (oneTransfer startTransfers : Bool)
  | remove (i : ℕ)
  | startTransfer (i : ℕ)
  | cancelTransfer (i : ℕ)
  | skipFile (i j : ℕ)
  | transferFiles (i : ℕ) (ret : ℤ) (re : Reconnect)

/-- The list of transfers changes under its mutex, which the search holds. The user acts on
rows of the window. -/
inductive QueueStep : Queue → QueueAction → Queue → Prop
  | add {s : Queue} {a : AddArgs} (hidle : s.adding = .idle) : QueueStep s (.add a) (s.add a)
  | check {s : Queue} {a : AddArgs} {i : ℕ} {t : QueueTransfer} (hadd : s.adding = .searching a i)
      (ht : s.transfers[i]? = some t) : QueueStep s .check (s.check a i t)
  | searched {s : Queue} {a : AddArgs} {i : ℕ} (hadd : s.adding = .searching a i)
      (hend : s.transfers[i]? = none) : QueueStep s .check { s with adding := .making a }
  | make {s : Queue} {a : AddArgs} (hadd : s.adding = .making a) : QueueStep s .make (s.make a)
  | askTransfer {s : Queue} {i : ℕ} {t : QueueTransfer} {ok : Bool} {actions : ℕ → TransferAction}
      (ht : s.transfers[i]? = some t) (hasked : t.ready = false) :
      QueueStep s (.askTransfer i ok actions) (s.onTransfer i t (t.askTransfer ok actions))
  | updateDownloads {s : Queue} {i : ℕ} {t : QueueTransfer} {oneTransfer startTransfers : Bool}
      (ht : s.transfers[i]? = some t) (hready : t.ready = true) (hstays : t.removing = false) :
      QueueStep s (.updateDownloads i oneTransfer startTransfers)
        (s.onTransfer i t (t.updateDownloads oneTransfer startTransfers s.inProgress))
  | remove {s : Queue} {i : ℕ} {t : QueueTransfer} (ht : s.transfers[i]? = some t)
      (hremoving : t.removing = true) (hfree : ∀ a j, s.adding ≠ .searching a j) :
      QueueStep s (.remove i) { s with transfers := s.transfers.eraseIdx i }
  | startTransfer {s : Queue} {i : ℕ} {t : QueueTransfer} (ht : s.transfers[i]? = some t)
      (hrow : t.row = true) (hstays : t.removing = false) (hwaits : t.started = false) :
      QueueStep s (.startTransfer i) (s.onTransfer i t t.createTransfer)
  | cancelTransfer {s : Queue} {i : ℕ} {t : QueueTransfer} (ht : s.transfers[i]? = some t)
      (hrow : t.row = true) (hstays : t.removing = false) :
      QueueStep s (.cancelTransfer i) (s.onTransfer i t t.cancelFileTransfer)
  | skipFile {s : Queue} {i j : ℕ} {t : QueueTransfer} (ht : s.transfers[i]? = some t)
      (hrow : t.row = true) (hstays : t.removing = false) :
      QueueStep s (.skipFile i j) (s.onTransfer i t (t.skipFileTransfer j))
  | transferFiles {s : Queue} {i : ℕ} {t : QueueTransfer} {ret : ℤ} {re : Reconnect}
      (ht : s.transfers[i]? = some t) :
      QueueStep s (.transferFiles i ret re) (s.onTransfer i t (t.transferFiles ret re))

/-- The thread has left its loop. -/
def Worker.behind : Worker → Bool
  | .left | .exited => true
  | _ => false

/-- What an add has done is right: the transfer appended to goes on to the files, or the
transfer made has them. -/
def Added.Proper : Added → Prop
  | .appended t _ => t.done = false ∧ t.worker.behind = false ∧ t.cancelled = false
  | .own t files => t.files = files

def QueueLaw (s : Queue) : Prop := ∀ x ∈ s.added, x.Proper

/-- A transfer with files left is not appended to when the user has stopped it or an error has
ended its loop. -/
def AddFit (s : Queue) : QueueAction → Prop
  | .check => ∀ a i t, s.adding = .searching a i → s.transfers[i]? = some t →
      t.canAppend a.fromreq a.toreq = true → t.cancelled = false ∧ t.gaveUp = false
  | _ => True

/-- A transfer that still has a current file is done, and its thread has left the loop, only
if it was stopped or given up. -/
structure Sound (t : QueueTransfer) : Prop where
  unshown : t.row = false → t.worker = .none ∧ t.curfle = none
  waits : t.toShow = true → t.row = false ∧ t.done = false
  unasked : t.ready = false → t.row = false ∧ t.done = false
  unstarted : t.started = false → t.worker = .none
  atHead : t.row = true → t.worker = .none ∨ t.worker = .created → t.curfle = nodeAt t.files 0
  done : t.done = true → t.curfle ≠ none → t.cancelled = true ∨ t.worker = .exited
  left : t.worker.behind = true → t.curfle ≠ none → t.cancelled = true ∨ t.gaveUp = true
  gaveUp : t.gaveUp = true → t.worker.behind = true
  cancel : t.cancel = true → t.skipFile = false → t.cancelled = true

section Transfers

variable {t : QueueTransfer}

theorem countFiles_eq (t : QueueTransfer) (files : List QueueFile) :
    ∃ numdirs numfiles, t.countFiles files =
      { t with numdirs := numdirs, numfiles := numfiles } := by
  unfold QueueTransfer.countFiles
  induction files generalizing t with
  | nil => exact ⟨_, _, rfl⟩
  | cons f files ih =>
    rw [List.foldl_cons]
    split
    · obtain ⟨numdirs, numfiles, heq⟩ := ih { t with numdirs := t.numdirs + 1 }
      exact ⟨numdirs, numfiles, heq⟩
    · obtain ⟨numdirs, numfiles, heq⟩ := ih { t with numfiles := t.numfiles + 1 }
      exact ⟨numdirs, numfiles, heq⟩

theorem Sound.countFiles (h : Sound t) (files : List QueueFile) : Sound (t.countFiles files) := by
  obtain ⟨numdirs, numfiles, heq⟩ := countFiles_eq t files
  rw [heq]
  exact ⟨h.unshown, h.waits, h.unasked, h.unstarted, h.atHead, h.done, h.left, h.gaveUp, h.cancel⟩

theorem queued_sound (fromreq toreq : QueueRequest) (files : List QueueFile) (showDialog : Bool) :
    Sound (QueueTransfer.queued fromreq toreq files showDialog) := by
  refine Sound.countFiles ?_ files
  exact ⟨fun _ => ⟨rfl, rfl⟩, fun _ => ⟨rfl, rfl⟩, fun _ => ⟨rfl, rfl⟩, fun _ => rfl,
    nofun, nofun, nofun, nofun, nofun⟩

theorem queued_files (fromreq toreq : QueueRequest) (files : List QueueFile) (showDialog : Bool) :
    (QueueTransfer.queued fromreq toreq files showDialog).files = files := by
  unfold QueueTransfer.queued
  obtain ⟨numdirs, numfiles, heq⟩ := countFiles_eq _ files
  rw [heq]

theorem nodeAt_append {files more : List QueueFile} {i : ℕ} (h : nodeAt files i ≠ none) :
    nodeAt (files ++ more) i = nodeAt files i := by
  unfold nodeAt at h ⊢
  have hlt : i < files.length := by
    by_contra hge
    exact h (if_neg hge)
  rw [if_pos hlt, if_pos (by rw [List.length_append]; omega)]

theorem nodeAt_length {files files' : List QueueFile} (h : files'.length = files.length) (i : ℕ) :
    nodeAt files' i = nodeAt files i := by
  unfold nodeAt
  rw [h]

theorem Sound.appendFiles (h : Sound t) (hcur : t.curfle ≠ none) (files : List QueueFile) :
    Sound (t.appendFiles files) := by
  have hsound : Sound { t with files := t.files ++ files } := by
    refine ⟨h.unshown, h.waits, h.unasked, h.unstarted, ?_, h.done, h.left, h.gaveUp, h.cancel⟩
    intro hrow hworker
    have hhead := h.atHead hrow hworker
    exact hhead.trans (nodeAt_append (hhead ▸ hcur)).symm
  exact hsound.countFiles files

/-- The files of a transfer may be others, as many as before. -/
theorem Sound.setFiles (h : Sound t) (files : List QueueFile)
    (hlength : files.length = t.files.length) : Sound { t with files := files } := by
  refine ⟨h.unshown, h.waits, h.unasked, h.unstarted, ?_, h.done, h.left, h.gaveUp, h.cancel⟩
  intro hrow hworker
  exact (h.atHead hrow hworker).trans (nodeAt_length hlength 0).symm

theorem Sound.cancelFileTransfer (h : Sound t) (hrow : t.row = true) :
    Sound t.cancelFileTransfer := by
  have hready : t.ready ≠ false := fun hready => by
    rw [(h.unasked hready).1] at hrow
    cases hrow
  have hshown : t.toShow ≠ true := fun hshow => by
    rw [(h.waits hshow).1] at hrow
    cases hrow
  unfold QueueTransfer.cancelFileTransfer
  split
  · exact ⟨h.unshown, h.waits, h.unasked, h.unstarted, h.atHead, fun _ _ => .inl rfl,
      fun _ _ => .inl rfl, h.gaveUp, fun _ _ => rfl⟩
  · exact ⟨h.unshown, fun hshow => absurd hshow hshown, fun hunready => absurd hunready hready,
      h.unstarted, h.atHead, fun _ _ => .inl rfl, fun _ _ => .inl rfl, h.gaveUp, fun _ _ => rfl⟩

theorem Sound.skipFileTransfer (h : Sound t) (i : ℕ) : Sound (t.skipFileTransfer i) := by
  unfold QueueTransfer.skipFileTransfer
  split
  · have hset := h.setFiles (t.files.modify i (·.setAction .skip)) (List.length_modify ..)
    dsimp only
    split
    · exact ⟨hset.unshown, hset.waits, hset.unasked, hset.unstarted, hset.atHead, hset.done,
        hset.left, hset.gaveUp, nofun⟩
    · exact hset
  · exact h

theorem Sound.askTransfer (h : Sound t) (hasked : t.ready = false) (ok : Bool)
    (actions : ℕ → TransferAction) : Sound (t.askTransfer ok actions) := by
  obtain ⟨hrow, hdone⟩ := h.unasked hasked
  have hcur := (h.unshown hrow).2
  have hset := h.setFiles (t.files.mapIdx fun i (f : QueueFile) => f.setAction (actions i))
    (List.length_mapIdx ..)
  unfold QueueTransfer.askTransfer
  dsimp only
  split
  · split
    · exact ⟨hset.unshown, nofun, nofun, hset.unstarted, hset.atHead,
        fun _ hfile => absurd hcur hfile, hset.left, hset.gaveUp, hset.cancel⟩
    · exact ⟨hset.unshown, fun _ => ⟨hrow, hdone⟩, nofun, hset.unstarted, hset.atHead,
        hset.done, hset.left, hset.gaveUp, hset.cancel⟩
  · exact ⟨hset.unshown, nofun, nofun, hset.unstarted, hset.atHead,
      fun _ hfile => absurd hcur hfile, hset.left, hset.gaveUp, hset.cancel⟩

theorem Sound.createTransfer (h : Sound t) (hrow : t.row = true) (hwaits : t.started = false) :
    Sound t.createTransfer := by
  have hnone := h.unstarted hwaits
  have hgoes : t.gaveUp ≠ true := fun hgave => by
    have hbehind := h.gaveUp hgave
    rw [hnone] at hbehind
    cases hbehind
  unfold QueueTransfer.createTransfer
  split
  · exact h
  · refine ⟨fun hhidden => absurd (hrow.symm.trans hhidden) (by decide), h.waits, h.unasked, nofun,
      fun _ _ => h.atHead hrow (.inl hnone), ?_, nofun, fun hgave => absurd hgave hgoes, h.cancel⟩
    intro hdone hfile
    refine .inl ((h.done hdone hfile).resolve_right ?_)
    rw [hnone]
    nofun

theorem Sound.startWaiting (h : Sound t) (oneTransfer startTransfers : Bool) (inProgress : ℕ) :
    Sound (t.startWaiting oneTransfer startTransfers inProgress) := by
  unfold QueueTransfer.startWaiting
  split
  · rename_i hstart
    simp only [Bool.and_eq_true, Bool.not_eq_true'] at hstart
    obtain ⟨⟨⟨hcur, hwaits⟩, -⟩, -⟩ := hstart
    have hrow : t.row = true := by
      by_contra hhidden
      rw [(h.unshown (Bool.not_eq_true _ ▸ hhidden)).2] at hcur
      cases hcur
    exact h.createTransfer hrow hwaits
  · exact h

theorem Sound.onNextTransfer (h : Sound t) : Sound t.onNextTransfer :=
  ⟨h.unshown, h.waits, h.unasked, h.unstarted, h.atHead, h.done, h.left, h.gaveUp, h.cancel⟩

theorem Sound.showTransfer (h : Sound t) (hready : t.ready = true) (hshow : t.toShow = true) :
    Sound t.showTransfer := by
  obtain ⟨hrow, hdone⟩ := h.waits hshow
  obtain ⟨hnone, -⟩ := h.unshown hrow
  refine ⟨nofun, nofun, ?_, h.unstarted, fun _ _ => rfl, ?_, ?_, h.gaveUp, h.cancel⟩
  · exact fun hunready => absurd (hready.symm.trans hunready) (by decide)
  · exact fun hend => absurd (hdone.symm.trans hend) (by decide)
  · intro hbehind
    have hbehind : t.worker.behind = true := hbehind
    rw [hnone] at hbehind
    cases hbehind

theorem Sound.updateDownloads (h : Sound t) (hready : t.ready = true)
    (oneTransfer startTransfers : Bool) (inProgress : ℕ) :
    Sound (t.updateDownloads oneTransfer startTransfers inProgress) := by
  unfold QueueTransfer.updateDownloads
  split
  · exact h.onNextTransfer.startWaiting ..
  · split
    · rename_i hshow
      exact (h.showTransfer hready hshow).startWaiting ..
    · split
      · exact ⟨h.unshown, h.waits, h.unasked, h.unstarted, h.atHead, h.done, h.left, h.gaveUp,
          h.cancel⟩
      · exact h.startWaiting ..

/-- One step of a thread that is not behind its loop. It goes behind it without a current file,
after the user has stopped the transfer, or after an error. -/
structure Continues (t t' : QueueTransfer) : Prop where
  row : t'.row = t.row
  toShow : t'.toShow = t.toShow
  ready : t'.ready = t.ready
  started : t'.started = t.started
  done : t'.done = t.done
  cancelled : t'.cancelled = t.cancelled
  cur : t'.curfle ≠ none → t.curfle ≠ none
  running : t'.worker ≠ .none ∧ t'.worker ≠ .created ∧ t'.worker ≠ .exited
  left : t'.worker = .left → t'.curfle ≠ none → t.cancelled = true ∨ t'.gaveUp = true
  gaveUp : t'.gaveUp = true → t.gaveUp = true ∨ t'.worker = .left
  cancel : t'.cancel = true → t'.skipFile = false → t.cancel = true ∧ t.skipFile = false

theorem behind_cases {worker : Worker} (h : worker.behind = true) :
    worker = .left ∨ worker = .exited := by
  cases worker with
  | left => exact .inl rfl
  | exited => exact .inr rfl
  | _ => cases h

theorem Sound.continues {t' : QueueTransfer} (h : Sound t) (hrun : t.worker ≠ .none)
    (hloop : t.worker.behind = false) (hc : Continues t t') : Sound t' where
  unshown hrow := absurd (h.unshown (hc.row.symm.trans hrow)).1 hrun
  waits hshow := absurd (h.unshown (h.waits (hc.toShow.symm.trans hshow)).1).1 hrun
  unasked hready := absurd (h.unshown (h.unasked (hc.ready.symm.trans hready)).1).1 hrun
  unstarted hstarted := absurd (h.unstarted (hc.started.symm.trans hstarted)) hrun
  atHead _ hworker := absurd hworker (not_or.mpr ⟨hc.running.1, hc.running.2.1⟩)
  done hdone hfile := by
    rcases h.done (hc.done.symm.trans hdone) (hc.cur hfile) with hcancelled | hexited
    · exact .inl (hc.cancelled.trans hcancelled)
    · rw [hexited] at hloop
      cases hloop
  left hbehind hfile := by
    have hleft := (behind_cases hbehind).resolve_right hc.running.2.2
    rw [hc.cancelled]
    exact hc.left hleft hfile
  gaveUp hgave := by
    rcases hc.gaveUp hgave with hbefore | hleft
    · exact absurd (hloop.symm.trans (h.gaveUp hbefore)) (by decide)
    · rw [hleft]
      rfl
  cancel hcancel hskip := by
    obtain ⟨hbefore, hskipped⟩ := hc.cancel hcancel hskip
    exact hc.cancelled.trans (h.cancel hbefore hskipped)

theorem attempt_continues (ret : ℤ) (t : QueueTransfer) : Continues t (t.attempt ret) := by
  unfold QueueTransfer.attempt
  split
  · rename_i hend
    exact ⟨rfl, rfl, rfl, rfl, rfl, rfl, id, ⟨nofun, nofun, nofun⟩, fun _ hfile => absurd hend hfile,
      .inl, fun hc hs => ⟨hc, hs⟩⟩
  · exact ⟨rfl, rfl, rfl, rfl, rfl, rfl, id, ⟨nofun, nofun, nofun⟩, nofun, .inl,
      fun hc hs => ⟨hc, hs⟩⟩

theorem judge_continues (ret : ℤ) (t : QueueTransfer) : Continues t (t.judge ret) := by
  have hworker : (t.judge ret).worker = .passing ∨ (t.judge ret).worker = .status ret := by
    unfold QueueTransfer.judge
    dsimp only
    split
    · exact .inl rfl
    · split
      · exact .inr rfl
      · exact .inl rfl
  refine ⟨rfl, rfl, rfl, rfl, rfl, rfl, id, ?_, ?_, .inl, fun hc hs => ⟨hc, hs⟩⟩
  · rcases hworker with hworker | hworker <;>
    · rw [hworker]
      exact ⟨nofun, nofun, nofun⟩
  · rcases hworker with hworker | hworker <;>
    · rw [hworker]
      nofun

theorem status_continues (ret : ℤ) (t : QueueTransfer) : Continues t (t.status ret) := by
  unfold QueueTransfer.status
  split
  · exact ⟨rfl, rfl, rfl, rfl, rfl, rfl, id, ⟨nofun, nofun, nofun⟩, fun _ _ => .inr rfl,
      fun _ => .inr rfl, fun hc hs => ⟨hc, hs⟩⟩
  · exact ⟨rfl, rfl, rfl, rfl, rfl, rfl, id, ⟨nofun, nofun, nofun⟩, nofun, .inl,
      fun hc hs => ⟨hc, hs⟩⟩

theorem nextFile_cur (h : t.nextFileInTrans.curfle ≠ none) : t.curfle ≠ none := by
  intro hend
  refine h ?_
  unfold QueueTransfer.nextFileInTrans
  dsimp only
  rw [hend]
  rfl

theorem pass_continues (t : QueueTransfer) :
    Continues t { t.nextFileInTrans with worker := .passed } :=
  ⟨rfl, rfl, rfl, rfl, rfl, rfl, nextFile_cur, ⟨nofun, nofun, nofun⟩, nofun, .inl,
    fun hc hs => ⟨hc, hs⟩⟩

theorem reconnected_continues (startsize : ℤ) (t : QueueTransfer) :
    Continues t { t.reconnected startsize with worker := .loop } := by
  unfold QueueTransfer.reconnected
  split
  · exact ⟨rfl, rfl, rfl, rfl, rfl, rfl, nextFile_cur, ⟨nofun, nofun, nofun⟩, nofun, .inl, nofun⟩
  · split <;>
    · exact ⟨rfl, rfl, rfl, rfl, rfl, rfl, id, ⟨nofun, nofun, nofun⟩, nofun, .inl,
        fun hc hs => ⟨hc, hs⟩⟩

/-- The loop ends behind a file when the user has stopped the transfer. -/
theorem Sound.afterPass_continues (h : Sound t) : Continues t t.afterPass := by
  unfold QueueTransfer.afterPass
  split
  · rename_i hcancel
    split
    · exact ⟨rfl, rfl, rfl, rfl, rfl, rfl, id, ⟨nofun, nofun, nofun⟩, nofun, .inl, nofun⟩
    · rename_i hskip
      exact ⟨rfl, rfl, rfl, rfl, rfl, rfl, id, ⟨nofun, nofun, nofun⟩,
        fun _ _ => .inl (h.cancel hcancel (Bool.not_eq_true _ ▸ hskip)), fun _ => .inr rfl,
        fun hc hs => ⟨hc, hs⟩⟩
  · exact ⟨rfl, rfl, rfl, rfl, rfl, rfl, id, ⟨nofun, nofun, nofun⟩, nofun, .inl,
      fun hc hs => ⟨hc, hs⟩⟩

/-- The thread begins at the file that is shown as the current one. -/
theorem Sound.begin_continues (h : Sound t) (hworker : t.worker = .created) :
    Continues t { t with worker := .loop, curfle := nodeAt t.files 0 } := by
  have hrow : t.row = true := by
    by_contra hhidden
    have hnone := (h.unshown (Bool.not_eq_true _ ▸ hhidden)).1
    exact Worker.noConfusion (hnone.symm.trans hworker)
  refine ⟨rfl, rfl, rfl, rfl, rfl, rfl, ?_, ⟨nofun, nofun, nofun⟩, nofun, .inl,
    fun hc hs => ⟨hc, hs⟩⟩
  rw [h.atHead hrow (.inr hworker)]
  exact id

theorem Sound.loop_continues (h : Sound t) (hrun : t.worker ≠ .none)
    (hloop : t.worker.behind = false) (ret : ℤ) (re : Reconnect) :
    Continues t (t.transferFiles ret re) := by
  unfold QueueTransfer.transferFiles
  split
  · rename_i hworker
    exact absurd hworker hrun
  · rename_i hworker
    rw [hworker] at hloop
    cases hloop
  · rename_i hworker
    exact h.begin_continues hworker
  · exact attempt_continues ret t
  · exact judge_continues _ t
  · exact status_continues _ t
  · rename_i hworker
    cases re with
    | connected startsize => exact reconnected_continues startsize t
    | again =>
      refine ⟨rfl, rfl, rfl, rfl, rfl, rfl, id, ?_, ?_, .inl, fun hc hs => ⟨hc, hs⟩⟩ <;> rw [hworker]
      · exact ⟨nofun, nofun, nofun⟩
      · nofun
    | givesUp =>
      exact ⟨rfl, rfl, rfl, rfl, rfl, rfl, id, ⟨nofun, nofun, nofun⟩, fun _ _ => .inr rfl,
        fun _ => .inr rfl, fun hc hs => ⟨hc, hs⟩⟩
  · exact pass_continues t
  · exact h.afterPass_continues
  · rename_i hworker
    rw [hworker] at hloop
    cases hloop

theorem Sound.transferFiles (h : Sound t) (ret : ℤ) (re : Reconnect) :
    Sound (t.transferFiles ret re) := by
  by_cases hrun : t.worker = .none
  · unfold QueueTransfer.transferFiles
    rw [hrun]
    exact h
  by_cases hbehind : t.worker.behind = true
  · rcases behind_cases hbehind with hleft | hexited
    · unfold QueueTransfer.transferFiles
      rw [hleft]
      refine ⟨?_, ?_, ?_, ?_, nofun, fun _ _ => .inr rfl, fun _ => h.left hbehind, fun _ => rfl,
        h.cancel⟩
      · exact fun hrow => absurd (h.unshown hrow).1 hrun
      · exact fun hshow => absurd (h.unshown (h.waits hshow).1).1 hrun
      · exact fun hready => absurd (h.unshown (h.unasked hready).1).1 hrun
      · exact fun hstarted => absurd (h.unstarted hstarted) hrun
    · unfold QueueTransfer.transferFiles
      rw [hexited]
      exact h
  · have hloop : t.worker.behind = false := Bool.not_eq_true _ ▸ hbehind
    exact h.continues hrun hloop (h.loop_continues hrun hloop ret re)

end Transfers

section Runs

variable {s s' : Queue} {a : QueueAction} {t : QueueTransfer}

def AllSound (s : Queue) : Prop := ∀ t ∈ s.transfers, Sound t

/-- A transfer that can be appended to has a current file. -/
theorem canAppend_cur {fromreq toreq : QueueRequest} (h : t.canAppend fromreq toreq = true) :
    t.curfle ≠ none := by
  unfold QueueTransfer.canAppend at h
  simp only [Bool.and_eq_true] at h
  intro hnone
  have hsome := h.2
  rw [hnone] at hsome
  cases hsome

/-- A transfer with a current file goes on if it was neither stopped nor given up. -/
theorem Sound.proper_iff (h : Sound t) (hcur : t.curfle ≠ none) (files : List QueueFile) :
    (Added.appended t files).Proper ↔ t.cancelled = false ∧ t.gaveUp = false := by
  constructor
  · intro ⟨_, hloop, hcancelled⟩
    refine ⟨hcancelled, ?_⟩
    by_contra hgave
    exact absurd (hloop.symm.trans (h.gaveUp (Bool.not_eq_false _ ▸ hgave))) (by decide)
  · intro ⟨hcancelled, hgave⟩
    have hloop : t.worker.behind = false := by
      by_contra hbehind
      rcases h.left (Bool.not_eq_false _ ▸ hbehind) hcur with hstopped | hended
      · exact absurd (hcancelled.symm.trans hstopped) (by decide)
      · exact absurd (hgave.symm.trans hended) (by decide)
    refine ⟨?_, hloop, hcancelled⟩
    by_contra hdone
    rcases h.done (Bool.not_eq_false _ ▸ hdone) hcur with hstopped | hexited
    · exact absurd (hcancelled.symm.trans hstopped) (by decide)
    · rw [hexited] at hloop
      cases hloop

theorem AllSound.setTransfer (h : AllSound s) {i : ℕ} (ht : Sound t) :
    AllSound (s.setTransfer i t) := by
  intro t' ht'
  rcases List.mem_or_eq_of_mem_set ht' with hmem | rfl
  · exact h t' hmem
  · exact ht

/-- A step on one transfer leaves the others as they are. -/
theorem AllSound.onTransfer (h : AllSound s) {i : ℕ} {t' : QueueTransfer}
    (ht : s.transfers[i]? = some t) (hstep : Sound t → Sound t') :
    AllSound (s.onTransfer i t t') :=
  h.setTransfer (hstep (h t (List.mem_of_getElem? ht)))

theorem AllSound.check (h : AllSound s) {args : AddArgs} {i : ℕ} (ht : s.transfers[i]? = some t) :
    AllSound (s.check args i t) := by
  unfold Queue.check
  split
  · rename_i happend
    have hsound := h t (List.mem_of_getElem? ht)
    exact h.setTransfer (hsound.appendFiles (canAppend_cur happend) args.files)
  · exact h

theorem AllSound.make (h : AllSound s) (args : AddArgs) : AllSound (s.make args) := by
  intro t ht
  rcases List.mem_append.mp ht with hold | hnew
  · exact h t hold
  · rw [List.mem_singleton.mp hnew]
    exact queued_sound ..

theorem AllSound.step (h : AllSound s) (hstep : QueueStep s a s') : AllSound s' := by
  cases hstep with
  | add hidle => exact h
  | check hadd ht => exact h.check ht
  | searched hadd hend => exact h
  | make hadd => exact h.make _
  | askTransfer ht hasked => exact h.onTransfer ht fun hsound => hsound.askTransfer hasked _ _
  | updateDownloads ht hready hstays =>
    exact h.onTransfer ht fun hsound => hsound.updateDownloads hready _ _ _
  | remove ht hremoving hfree => exact fun t ht => h t (List.mem_of_mem_eraseIdx ht)
  | startTransfer ht hrow hstays hwaits =>
    exact h.onTransfer ht fun hsound => hsound.createTransfer hrow hwaits
  | cancelTransfer ht hrow hstays =>
    exact h.onTransfer ht fun hsound => hsound.cancelFileTransfer hrow
  | skipFile ht hrow hstays => exact h.onTransfer ht fun hsound => hsound.skipFileTransfer _
  | transferFiles ht => exact h.onTransfer ht fun hsound => hsound.transferFiles _ _

theorem law_append {x : Added} (h : QueueLaw s) (hadded : s'.added = s.added ++ [x]) :
    QueueLaw s' ↔ x.Proper := by
  unfold QueueLaw
  rw [hadded]
  constructor
  · exact fun hlaw => hlaw x (List.mem_append_right _ (List.mem_singleton_self x))
  · intro hproper y hy
    rcases List.mem_append.mp hy with hold | hnew
    · exact h y hold
    · rw [List.mem_singleton.mp hnew]
      exact hproper

/-- What the search does with one transfer is right when the transfer goes on. -/
theorem AllSound.check_law (h : AllSound s) (hlaw : QueueLaw s) {args : AddArgs} {i : ℕ}
    (ht : s.transfers[i]? = some t) : QueueLaw (s.check args i t) ↔
      (t.canAppend args.fromreq args.toreq = true → t.cancelled = false ∧ t.gaveUp = false) := by
  unfold Queue.check
  split
  · rename_i happend
    have hsound := h t (List.mem_of_getElem? ht)
    have hproper := hsound.proper_iff (canAppend_cur happend) args.files
    rw [law_append (x := .appended t args.files) hlaw rfl, hproper]
    exact ⟨fun hfit _ => hfit, fun hfit => hfit happend⟩
  · rename_i hpassed
    exact iff_of_true hlaw fun happend => absurd happend hpassed

theorem addFit_check {args : AddArgs} {i : ℕ} (hadd : s.adding = .searching args i)
    (ht : s.transfers[i]? = some t) : AddFit s .check ↔
      (t.canAppend args.fromreq args.toreq = true → t.cancelled = false ∧ t.gaveUp = false) := by
  constructor
  · exact fun hfit => hfit _ _ _ hadd ht
  · intro hfit args' j t' hadd' ht'
    obtain ⟨rfl, rfl⟩ := Adding.searching.inj (hadd.symm.trans hadd')
    obtain rfl := Option.some.inj (ht.symm.trans ht')
    exact hfit

/-- A step keeps the law if and only if it is one that AddFit allows. -/
theorem AllSound.law_step (h : AllSound s) (hlaw : QueueLaw s) (hstep : QueueStep s a s') :
    QueueLaw s' ↔ AddFit s a := by
  cases hstep with
  | check hadd ht =>
    rw [h.check_law hlaw ht, addFit_check hadd ht]
  | searched hadd hend =>
    refine iff_of_true hlaw fun args j t' hadd' ht' => ?_
    obtain ⟨rfl, rfl⟩ := Adding.searching.inj (hadd.symm.trans hadd')
    cases hend.symm.trans ht'
  | make hadd =>
    rename_i args
    have hproper : (Added.own (.queued args.fromreq args.toreq args.files args.showDialog)
        args.files).Proper := queued_files ..
    exact iff_of_true ((law_append hlaw rfl).mpr hproper) trivial
  | _ => exact iff_of_true hlaw trivial

/-- In a run in which nothing is appended to a transfer that was stopped or given up, every
list of files is appended to a transfer whose thread goes on to it, or gets its own; and the
next step keeps this only if it does not append so either. -/
theorem appended_to_running (hrun : Reaches QueueStep AddFit .empty s) :
    QueueLaw s ∧ ∀ a s', QueueStep s a s' → (QueueLaw s' ↔ AddFit s a) := by
  have hinit : AllSound Queue.empty ∧ QueueLaw Queue.empty :=
    ⟨List.forall_mem_nil _, List.forall_mem_nil _⟩
  have hinv : AllSound s ∧ QueueLaw s := by
    refine hrun.invariant (fun s => AllSound s ∧ QueueLaw s) hinit ?_
    intro s a s' ⟨hsound, hlaw⟩ hfit hstep
    exact ⟨hsound.step hstep, (hsound.law_step hlaw hstep).mpr hfit⟩
  exact ⟨hinv.2, fun a s' hstep => hinv.1.law_step hinv.2 hstep⟩

/-- A local window and one at an FTP site, both connected. -/
def localSide : QueueRequest := ⟨4, 0, none, none, some (ascii "/"), false⟩

def remoteSide : QueueRequest :=
  ⟨0, 21, some (ascii "host"), some (ascii "anonymous"), some (ascii "/pub"), false⟩

/-- One new file is downloaded, with the options as they are set at first. -/
def download : AddArgs where
  fromreq := remoteSide
  toreq := localSide
  files := [⟨false, 0, .unset⟩]
  overwriteDefault := true
  appendTransfers := true
  oneTransfer := true

/-- A second file is queued while the first one is under way. -/
theorem second_download_appended : ∃ s : Queue, Reaches QueueStep AddFit .empty s ∧
    s.transfers.map (·.files.length) = [2] ∧ QueueLaw s := by
  have hrun : Reaches QueueStep AddFit .empty _ :=
    (Reaches.refl _).tail (a := .add download) trivial (.add rfl)
      |>.tail (a := .check) (fun _ _ _ hadd ht => by cases hadd; cases ht) (.searched rfl rfl)
      |>.tail (a := .make) trivial (.make rfl)
      |>.tail (a := .updateDownloads 0 true true) trivial (.updateDownloads rfl rfl rfl)
      |>.tail (a := .transferFiles 0 0 .again) trivial (.transferFiles rfl)
      |>.tail (a := .transferFiles 0 0 .again) trivial (.transferFiles rfl)
      |>.tail (a := .add download) trivial (.add rfl)
      |>.tail (a := .check) ((addFit_check rfl rfl).mpr fun _ => ⟨rfl, rfl⟩) (.check rfl rfl)
  exact ⟨_, hrun, rfl, (appended_to_running hrun).1⟩

/-- The user stops a transfer whose thread has not come to the end of its file, and queues
another one: it is appended to the transfer stopped. -/
theorem appended_to_stopped :
    ¬ ∀ s : Queue, Reaches QueueStep (fun _ _ => True) .empty s → QueueLaw s := by
  intro h
  have hrun : Reaches QueueStep (fun _ _ => True) Queue.empty _ :=
    (Reaches.refl _).tail (a := .add download) trivial (.add rfl)
      |>.tail (a := .check) trivial (.searched rfl rfl)
      |>.tail (a := .make) trivial (.make rfl)
      |>.tail (a := .updateDownloads 0 true true) trivial (.updateDownloads rfl rfl rfl)
      |>.tail (a := .transferFiles 0 0 .again) trivial (.transferFiles rfl)
      |>.tail (a := .cancelTransfer 0) trivial (.cancelTransfer rfl rfl rfl)
      |>.tail (a := .add download) trivial (.add rfl)
      |>.tail (a := .check) trivial (.check rfl rfl)
  obtain ⟨-, -, hgoes⟩ := h _ hrun _ (List.mem_append_right _ (List.mem_singleton_self _))
  exact Bool.noConfusion hgoes

end Runs

end Gftp.TransferQueue
