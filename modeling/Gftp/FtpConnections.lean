import Gftp.Connections
import Gftp.FtpReplies
import Gftp.Runs

/-!
Runs of an FTP request over several connections. The two line buffers outlive their
connection, and rfc959_disconnect empties neither. A run in which they hold no unread
bytes when the next connection is opened returns on each connection only what came in
on it.
-/

namespace Gftp.FtpConnections

open ByteStrings Cells Cell Connections FtpReplies LineOrigins LineSource Protocol Runs Sockets

structure FtpWorld where
  request : FtpRequest Marked
  connection : ℕ
  returned : Log

/-- The request after rfc959_init. -/
def FtpWorld.init : FtpWorld := ⟨⟨.closed, none, none, false, false, none⟩, 0, []⟩

/-- The request goes on, and the cells have been returned. -/
def FtpWorld.next (w : FtpWorld) (r : FtpRequest Marked) (cells : List Marked) : FtpWorld :=
  ⟨r, w.connection, w.returned ++ cells.map fun c => (w.connection, c)⟩

def FtpWorld.connected (w : FtpWorld) (segments : List (Except Unit Bytes)) : FtpWorld :=
  ⟨{ w.request with fds := { w.request.fds with
      control := some (socket (w.connection + 1) segments) } }, w.connection + 1, w.returned⟩

/-- What the operations of an FTP request do to its connections and buffers. -/
inductive FtpAction
  | connect (segments : List (Except Unit Bytes))
  | openData (segments : List (Except Unit Bytes))
  | closeData
  | reply (fuel : ℕ)
  | dirlist (fuel buflen : ℕ)
  | cachedLine (fuel buflen : ℕ) (segments : List (Except Unit Bytes))
  | chunk (size : ℕ)
  | settings (isFxpTransfer isAsciiTransfer : Bool) (lastFtpResponse : Option (List Marked))
  | disconnect

inductive FtpStep : FtpWorld → FtpAction → FtpWorld → Prop
  | connect {w : FtpWorld} {segments : List (Except Unit Bytes)}
      (hclosed : w.request.fds.control = none) :
      FtpStep w (.connect segments) (w.connected segments)
  | openData {w : FtpWorld} {segments : List (Except Unit Bytes)}
      (hopen : w.request.fds.control ≠ none) :
      FtpStep w (.openData segments) (w.next { w.request with fds := { w.request.fds with
        data := some (socket w.connection segments) } } [])
  | closeData {w : FtpWorld} :
      FtpStep w .closeData (w.next (rfc959CloseDataConnection w.request) [])
  | reply {w : FtpWorld} {fuel : ℕ} {ret : Except GftpError ℕ} {str : List Marked}
      {r : FtpRequest Marked} (h : replyLine fuel w.request = .ok ((ret, str), r)) :
      FtpStep w (.reply fuel) (w.next r str)
  | dirlist {w : FtpWorld} {fuel buflen : ℕ} {ret : Except GftpError ℕ} {str : List Marked}
      {r : FtpRequest Marked} (h : dirlistLine fuel buflen w.request = .ok ((ret, str), r)) :
      FtpStep w (.dirlist fuel buflen) (w.next r str)
  | cachedLine {w : FtpWorld} {fuel buflen : ℕ} {segments : List (Except Unit Bytes)}
      {ret : Except GftpError ℕ} {str : List Marked} {r : FtpRequest Marked}
      (h : cachedLine fuel buflen (cacheFile segments) w.request = .ok ((ret, str), r)) :
      FtpStep w (.cachedLine fuel buflen segments) (w.next r str)
  | chunk {w : FtpWorld} {size : ℕ} {out : Except GftpError (List Marked)} {r : FtpRequest Marked}
      (h : rfc959GetNextFileChunk size w.request = .ok (out, r)) :
      FtpStep w (.chunk size) (w.next r (out.toOption.getD []))
  | settings {w : FtpWorld} {fxp ascii : Bool} {last : Option (List Marked)} :
      FtpStep w (.settings fxp ascii last) (w.next { w.request with
        isFxpTransfer := fxp
        isAsciiTransfer := ascii
        lastFtpResponse := last } [])
  | disconnect {w : FtpWorld} : FtpStep w .disconnect (w.next (rfc959Disconnect w.request) [])

/-- A connection is opened on line buffers without unread bytes, and no call abandons bytes
it counts in a block that holds bytes of an earlier connection. -/
def FtpFit (w : FtpWorld) : FtpAction → Prop
  | .connect _ => Emptied w.request.datafdRbuf ∧ Emptied w.request.dataconnRbuf
  | .reply _ =>
      KeepsBytes (OfConnection w.connection) readControl w.request.datafdRbuf w.request.fds
  | .dirlist _ _ =>
      KeepsBytes (OfConnection w.connection) readData w.request.dataconnRbuf w.request.fds
  | .cachedLine _ _ segments =>
      KeepsBytes (OfConnection w.connection) readFd w.request.dataconnRbuf
        (some (cacheFile segments))
  | _ => True

structure FtpInv (w : FtpWorld) : Prop where
  control : ∀ b, w.request.datafdRbuf = some b → Holds (OfConnection w.connection) b
  data : ∀ b, w.request.dataconnRbuf = some b → Holds (OfConnection w.connection) b
  fds : OwnFds (OfConnection w.connection) w.request.fds
  returned : FromTheirConnection w.returned

theorem FtpInv.init : FtpInv .init where
  control := by simp [FtpWorld.init]
  data := by simp [FtpWorld.init]
  fds := ownFds_closed
  returned := by simp [FtpWorld.init, FromTheirConnection]

variable {w w' : FtpWorld} {r : FtpRequest Marked} {str : List Marked}

theorem replyLine_own {fuel : ℕ} {ret : Except GftpError ℕ} (hw : FtpInv w)
    (hkeep : KeepsBytes (OfConnection w.connection) readControl w.request.datafdRbuf w.request.fds)
    (h : replyLine fuel w.request = .ok ((ret, str), r)) : FtpInv (w.next r str) := by
  simp only [replyLine] at h
  obtain ⟨res, hline, h⟩ := CRun.bind_eq_ok.mp h
  simp only [pure, Except.pure, Except.ok.injEq, Prod.mk.injEq] at h
  obtain ⟨⟨-, rfl⟩, rfl⟩ := h
  have hres := gftpGetLine_returns ownRead_control (nul_own _) hw.control hw.fds hkeep hline
  exact ⟨hres.buffer, hw.data, hres.state, log_append hw.returned hres.line⟩

theorem dirlistLine_own {fuel buflen : ℕ} {ret : Except GftpError ℕ} (hw : FtpInv w)
    (hkeep : KeepsBytes (OfConnection w.connection) readData w.request.dataconnRbuf w.request.fds)
    (h : dirlistLine fuel buflen w.request = .ok ((ret, str), r)) : FtpInv (w.next r str) := by
  simp only [dirlistLine] at h
  obtain ⟨res, hline, h⟩ := CRun.bind_eq_ok.mp h
  simp only [pure, Except.pure, Except.ok.injEq, Prod.mk.injEq] at h
  obtain ⟨⟨-, rfl⟩, rfl⟩ := h
  have hres := gftpGetLine_returns ownRead_data (nul_own _) hw.data hw.fds hkeep hline
  exact ⟨hw.control, hres.buffer, hres.state, log_append hw.returned hres.line⟩

theorem cachedLine_own {fuel buflen : ℕ} {segments : List (Except Unit Bytes)}
    {ret : Except GftpError ℕ} (hw : FtpInv w)
    (hkeep : KeepsBytes (OfConnection w.connection) readFd w.request.dataconnRbuf
      (some (cacheFile segments)))
    (h : cachedLine fuel buflen (cacheFile segments) w.request = .ok ((ret, str), r)) :
    FtpInv (w.next r str) := by
  simp only [cachedLine] at h
  obtain ⟨res, hline, h⟩ := CRun.bind_eq_ok.mp h
  simp only [pure, Except.pure, Except.ok.injEq, Prod.mk.injEq] at h
  obtain ⟨⟨-, rfl⟩, rfl⟩ := h
  have hres := gftpGetLine_returns ownRead_fd (nul_own _) hw.data (cacheFile_own _ _) hkeep hline
  refine ⟨hw.control, hres.buffer, ?_, log_append hw.returned hres.line⟩
  cases hret : res.ret with
  | error e => exact ownFds_closed
  | ok n => exact hw.fds

theorem chunk_own {size : ℕ} {out : Except GftpError (List Marked)} (hw : FtpInv w)
    (h : rfc959GetNextFileChunk size w.request = .ok (out, r)) :
    FtpInv (w.next r (out.toOption.getD [])) := by
  unfold rfc959GetNextFileChunk at h
  split at h
  · simp only [Except.ok.injEq, Prod.mk.injEq] at h
    obtain ⟨rfl, rfl⟩ := h
    exact ⟨hw.control, hw.data, hw.fds, log_append hw.returned (by simp [Except.toOption])⟩
  · obtain ⟨⟨reading, fds⟩, hread, h⟩ := CRun.bind_eq_ok.mp h
    obtain ⟨hfds, hstored, -⟩ := readData_own hw.fds hread
    cases hret : reading.ret with
    | error e =>
      simp only [hret, pure, Except.pure, Except.ok.injEq, Prod.mk.injEq] at h
      obtain ⟨rfl, rfl⟩ := h
      exact ⟨hw.control, hw.data, hfds, log_append hw.returned (by simp [Except.toOption])⟩
    | ok n =>
      simp only [hret, pure, Except.pure, Except.ok.injEq, Prod.mk.injEq] at h
      obtain ⟨rfl, rfl⟩ := h
      refine ⟨hw.control, hw.data, hfds, log_append hw.returned ?_⟩
      intro c hc
      simp only [Except.toOption, Option.getD_some] at hc
      split at hc
      · exact hstored c (List.mem_of_mem_filter hc)
      · exact hstored c hc

theorem next_nothing (hw : FtpInv w)
    (hcontrol : ∀ b, r.datafdRbuf = some b → Holds (OfConnection w.connection) b)
    (hdata : ∀ b, r.dataconnRbuf = some b → Holds (OfConnection w.connection) b)
    (hfds : OwnFds (OfConnection w.connection) r.fds) : FtpInv (w.next r []) :=
  ⟨hcontrol, hdata, hfds, log_append hw.returned (by simp)⟩

/-- One step: what is returned on a connection was received on it. -/
theorem ftpStep_inv {a : FtpAction} (hw : FtpInv w) (hfit : FtpFit w a) (h : FtpStep w a w') :
    FtpInv w' := by
  cases h with
  | connect hclosed =>
    have hdata : w.request.fds.data = none := hw.fds.together hclosed
    refine ⟨fun b hb => hfit.1.holds hb _, fun b hb => hfit.2.holds hb _, ?_, hw.returned⟩
    exact ⟨socket_own _ _, by simp [FtpWorld.connected, hdata, OwnFd], by simp [FtpWorld.connected]⟩
  | openData hopen =>
    exact next_nothing hw hw.control hw.data ⟨hw.fds.control, socket_own _ _, fun hc => absurd hc hopen⟩
  | closeData =>
    exact next_nothing hw hw.control hw.data
      ⟨hw.fds.control, by simp [OwnFd, rfc959CloseDataConnection], fun _ => rfl⟩
  | reply h => exact replyLine_own hw hfit h
  | dirlist h => exact dirlistLine_own hw hfit h
  | cachedLine h => exact cachedLine_own hw hfit h
  | chunk h => exact chunk_own hw h
  | settings => exact next_nothing hw hw.control hw.data hw.fds
  | disconnect => exact next_nothing hw hw.control hw.data ownFds_closed

/-- A reply line read where nothing is abandoned, since the block holds no other bytes. -/
theorem ftpFit_reply {fuel : ℕ} (hw : FtpInv w)
    (hb : ∀ b, w.request.datafdRbuf = some b → Fresh (OfConnection w.connection) b) :
    FtpFit w (.reply fuel) := keepsBytes_fresh ownRead_control (nul_own _) hb hw.fds

/-- Steps under no condition. -/
def ftpReaches (w w' : FtpWorld) : Prop := Reaches FtpStep (fun _ _ => True) w w'

theorem FtpStep.reaches {a : FtpAction} (h : FtpStep w a w') : ftpReaches w w' :=
  (Reaches.refl w).tail trivial h

theorem ftpRun_inv (h : Reaches FtpStep FtpFit .init w) : FtpInv w :=
  h.invariant FtpInv .init fun _ _ _ hw hfit hstep => ftpStep_inv hw hfit hstep

end Gftp.FtpConnections
