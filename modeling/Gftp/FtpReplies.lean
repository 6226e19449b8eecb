import Gftp.Decimal
import Gftp.LineOrigins
import Gftp.Sockets

/-!
The two connections of an FTP request and what is read from them: replies on the control
connection, listing lines and file chunks on the data connection. Each has a line buffer
of its own, which no function here frees. A failed read disconnects both.
-/

namespace Gftp.FtpReplies

open ByteStrings Cells Cell Decimal LineOrigins LineSource Protocol Sockets

variable {κ : Type}

/-- The descriptors datafd and data_connection. -/
structure Fds (κ : Type) where
  control : Option (Socket κ)
  data : Option (Socket κ)
  deriving DecidableEq

def Fds.closed : Fds κ := ⟨none, none⟩

/-- gftp_fd_read on one of the two. -/
def readFrom (fd : Option (Socket κ)) (put : Option (Socket κ) → Fds κ) (size : ℕ) (f : Fds κ) :
    CRun (Reading GftpError κ × Fds κ) :=
  match gftpFdRead size fd with
  | (.error e, _) =>
      .ok ({ ret := .error e, stored := [] }, if fd.isNone then f else .closed)
  | (.ok d, fd) => .ok ({ ret := .ok d.length, stored := d }, put fd)

def readControl (size : ℕ) (f : Fds κ) : CRun (Reading GftpError κ × Fds κ) :=
  readFrom f.control (fun fd => { f with control := fd }) size f

def readData (size : ℕ) (f : Fds κ) : CRun (Reading GftpError κ × Fds κ) :=
  readFrom f.data (fun fd => { f with data := fd }) size f

/-- gftp_fd_read on a descriptor that is neither of them. -/
def readFd (size : ℕ) (fd : Option (Socket κ)) :
    CRun (Reading GftpError κ × Option (Socket κ)) :=
  match gftpFdRead size fd with
  | (.error e, fd) => .ok ({ ret := .error e, stored := [] }, fd)
  | (.ok d, fd) => .ok ({ ret := .ok d.length, stored := d }, fd)

section Origins

variable {own : κ → Prop}

theorem readFd_own {size : ℕ} {fd fd' : Option (Socket κ)} {r : Reading GftpError κ}
    (hfd : OwnFd own fd) (h : readFd size fd = .ok (r, fd')) :
    OwnFd own fd' ∧ (∀ c ∈ r.stored, own c) ∧ ∀ m, r.ret = .ok m → m ≤ r.stored.length := by
  cases hread : gftpFdRead size fd with
  | mk result fd₁ =>
    obtain ⟨hfd', hd⟩ := gftpFdRead_own hfd hread
    simp only [readFd, hread] at h
    cases result with
    | error e =>
      simp only [Except.ok.injEq, Prod.mk.injEq] at h
      obtain ⟨rfl, rfl⟩ := h
      exact ⟨hfd', by simp, by simp⟩
    | ok d =>
      simp only [Except.ok.injEq, Prod.mk.injEq] at h
      obtain ⟨rfl, rfl⟩ := h
      refine ⟨hfd', hd d rfl, ?_⟩
      intro m hm
      exact Nat.le_of_eq (Except.ok.inj hm).symm

theorem ownRead_fd : OwnRead own (OwnFd own) (readFd (κ := κ)) where
  keeps _ _ _ _ h hfd := (readFd_own hfd h).1
  stores _ _ _ _ h hfd := (readFd_own hfd h).2.1
  counts _ _ _ _ m h hfd hm := (readFd_own hfd h).2.2 m hm

/-- Both descriptors deliver own cells, and data_connection is open only with datafd. -/
structure OwnFds (own : κ → Prop) (f : Fds κ) : Prop where
  control : OwnFd own f.control
  data : OwnFd own f.data
  together : f.control = none → f.data = none

theorem ownFds_closed : OwnFds own (Fds.closed : Fds κ) :=
  ⟨by simp [OwnFd, Fds.closed], by simp [OwnFd, Fds.closed], fun _ => rfl⟩

theorem readFrom_own {fd : Option (Socket κ)} {put : Option (Socket κ) → Fds κ} {size : ℕ}
    {f f' : Fds κ} {r : Reading GftpError κ} (hf : OwnFds own f) (hfd : OwnFd own fd)
    (hput : fd ≠ none → ∀ k, OwnFd own (some k) → OwnFds own (put (some k)))
    (h : readFrom fd put size f = .ok (r, f')) :
    OwnFds own f' ∧ (∀ c ∈ r.stored, own c) ∧ ∀ m, r.ret = .ok m → m ≤ r.stored.length := by
  unfold readFrom at h
  rcases gftpFdRead_cases size fd with ⟨e, fd', hread⟩ | ⟨k, d, stream, rfl, hread⟩
  · simp only [hread, Except.ok.injEq, Prod.mk.injEq] at h
    obtain ⟨rfl, rfl⟩ := h
    refine ⟨?_, by simp, by simp⟩
    split
    · exact hf
    · exact ownFds_closed
  · obtain ⟨hfd', hd⟩ := gftpFdRead_own hfd hread
    simp only [hread, Except.ok.injEq, Prod.mk.injEq] at h
    obtain ⟨rfl, rfl⟩ := h
    refine ⟨hput (by simp) _ hfd', hd d rfl, ?_⟩
    intro m hm
    exact Nat.le_of_eq (Except.ok.inj hm).symm

theorem readControl_own {size : ℕ} {f f' : Fds κ} {r : Reading GftpError κ} (hf : OwnFds own f)
    (h : readControl size f = .ok (r, f')) :
    OwnFds own f' ∧ (∀ c ∈ r.stored, own c) ∧ ∀ m, r.ret = .ok m → m ≤ r.stored.length := by
  refine readFrom_own hf hf.control ?_ h
  intro _ k hk
  exact ⟨hk, hf.data, by simp⟩

theorem readData_own {size : ℕ} {f f' : Fds κ} {r : Reading GftpError κ} (hf : OwnFds own f)
    (h : readData size f = .ok (r, f')) :
    OwnFds own f' ∧ (∀ c ∈ r.stored, own c) ∧ ∀ m, r.ret = .ok m → m ≤ r.stored.length := by
  refine readFrom_own hf hf.data ?_ h
  intro hopen k hk
  exact ⟨hf.control, hk, fun hclosed => absurd (hf.together hclosed) hopen⟩

theorem ownRead_control : OwnRead own (OwnFds own) (readControl (κ := κ)) where
  keeps _ _ _ _ h hf := (readControl_own hf h).1
  stores _ _ _ _ h hf := (readControl_own hf h).2.1
  counts _ _ _ _ m h hf hm := (readControl_own hf h).2.2 m hm

theorem ownRead_data : OwnRead own (OwnFds own) (readData (κ := κ)) where
  keeps _ _ _ _ h hf := (readData_own hf h).1
  stores _ _ _ _ h hf := (readData_own hf h).2.1
  counts _ _ _ _ m h hf hm := (readData_own hf h).2.2 m hm

end Origins

variable [Cell κ]

structure FtpRequest (κ : Type) where
  fds : Fds κ
  datafdRbuf : Option (GetlineBuffer κ)
  dataconnRbuf : Option (GetlineBuffer κ)
  isFxpTransfer : Bool
  isAsciiTransfer : Bool
  lastFtpResponse : Option (List κ)
  deriving DecidableEq

/-- The array tempstr of rfc959_read_response. -/
def replySize : ℕ := 255

/-- gftp_get_line on the control connection. -/
def replyLine (fuel : ℕ) (r : FtpRequest κ) :
    CRun ((Except GftpError ℕ × List κ) × FtpRequest κ) := do
  let res ← gftpGetLine readControl fuel r.datafdRbuf replySize r.fds
  return ((res.ret, res.str), { r with datafdRbuf := res.rbuf, fds := res.state })

/-- rfc959_get_next_dirlist_line. -/
def dirlistLine (fuel buflen : ℕ) (r : FtpRequest κ) :
    CRun ((Except GftpError ℕ × List κ) × FtpRequest κ) := do
  let res ← gftpGetLine readData fuel r.dataconnRbuf buflen r.fds
  return ((res.ret, res.str), { r with dataconnRbuf := res.rbuf, fds := res.state })

/-- gftp_get_line with the file of a cached listing for the descriptor. A failed read
disconnects the request. -/
def cachedLine (fuel buflen : ℕ) (file : Socket κ) (r : FtpRequest κ) :
    CRun ((Except GftpError ℕ × List κ) × FtpRequest κ) := do
  let res ← gftpGetLine readFd fuel r.dataconnRbuf buflen (some file)
  let fds := match res.ret with
    | .error _ => .closed
    | .ok _ => r.fds
  return ((res.ret, res.str), { r with dataconnRbuf := res.rbuf, fds := fds })

/-- The four bytes a reply's last line starts with, once a line has begun with a code. -/
def nextCode (code : Bytes) (tempstr : List κ) : Bytes :=
  let front := (tempstr.take 3).map byte
  if front.length = 3 ∧ front.all isDigit then front ++ [32] else code

/-- The loop ends when the line starts with the code; as long as there is no code it ends
at an empty line. -/
def lastLine (code : Bytes) (tempstr : List κ) : Bool :=
  if code = [] then tempstr = [] else (tempstr.take 4).map byte = code

/-- The loop over the lines of a reply: the result of the last gftp_get_line and what is
in tempstr then. -/
def replyLoop (fuel : ℕ) : ℕ → Bytes → List κ → FtpRequest κ →
    CRun ((Except GftpError ℕ × List κ) × FtpRequest κ)
  | 0, _, _, _ => .error .pending
  | lines + 1, code, tempstr, r => do
      match ← replyLine fuel r with
      | ((.error e, _), r) => return ((.error e, tempstr), r)
      | ((.ok n, str), r) =>
          if n = 0 then return ((.ok 0, tempstr), r)
          else
            let code := nextCode code str
            if lastLine code str then return ((.ok n, str), r)
            else replyLoop fuel lines code str r

/-- gftp_disconnect, which calls rfc959_disconnect. -/
def rfc959Disconnect (r : FtpRequest κ) : FtpRequest κ := { r with fds := .closed }

def rfc959CloseDataConnection (r : FtpRequest κ) : FtpRequest κ :=
  { r with fds := { r.fds with data := none } }

/-- rfc959_read_response; tempstr is what the uninitialized array holds. -/
def rfc959ReadResponse (fuel : ℕ) (disconnectOn42x : Bool) (tempstr : List κ) (r : FtpRequest κ) :
    CRun (Except GftpError UInt8 × FtpRequest κ) :=
  if r.fds.control.isNone then .ok (.error .fatal, r)
  else do
    let ((numRead, line), r) ← replyLoop fuel fuel [] tempstr { r with lastFtpResponse := none }
    match numRead with
    | .error e => return (.error e, r)
    | .ok _ =>
        let r := { r with lastFtpResponse := some line }
        if (line.take 2).map byte = ascii "42" ∧ disconnectOn42x then
          return (.error .timedOut, rfc959Disconnect r)
        else return (.ok ((line.head?.map byte).getD 0), r)

/-- rfc959_get_next_file_chunk: a transfer in ASCII mode drops carriage returns. -/
def rfc959GetNextFileChunk (size : ℕ) (r : FtpRequest κ) :
    CRun (Except GftpError (List κ) × FtpRequest κ) :=
  if r.isFxpTransfer then .ok (.error .noTrans, r)
  else do
    let (reading, fds) ← readData size r.fds
    let r := { r with fds := fds }
    match reading.ret with
    | .error e => return (.error e, r)
    | .ok _ =>
        return (.ok (if r.isAsciiTransfer then reading.stored.filter fun c => byte c ≠ 13
          else reading.stored), r)

end Gftp.FtpReplies
