import Gftp.BigEndian
import Gftp.ByteStreams
import Gftp.Protocol

/-!
The SFTP layer of sshv2.c: sending one command, reading one response and taking
values out of a response. A session is past its login. A failed read or write and a
rejected message disconnect the request. Every access to a message goes through its
block, so that one outside it is a fault.
-/

namespace Gftp.SshMessages

open ByteStrings ByteStreams BigEndian Protocol

def sshFxpOpen : UInt8 := 3
def sshFxpClose : UInt8 := 4
def sshFxpRead : UInt8 := 5
def sshFxpWrite : UInt8 := 6
def sshFxpSetstat : UInt8 := 9
def sshFxpOpendir : UInt8 := 11
def sshFxpReaddir : UInt8 := 12
def sshFxpRemove : UInt8 := 13
def sshFxpMkdir : UInt8 := 14
def sshFxpRmdir : UInt8 := 15
def sshFxpRealpath : UInt8 := 16
def sshFxpStat : UInt8 := 17
def sshFxpStatus : UInt8 := 101
def sshFxpHandle : UInt8 := 102
def sshFxpData : UInt8 := 103
def sshFxpName : UInt8 := 104
def sshFxpAttrs : UInt8 := 105

def sshFxOk : UInt32 := 0
def sshFxEof : UInt32 := 1
def sshFxNoSuchFile : UInt32 := 2
def sshFxPermissionDenied : UInt32 := 3
def sshFxFailure : UInt32 := 4
def sshFxOpUnsupported : UInt32 := 8

def sshMaxHandleSize : ℕ := 256
def sshMaxStringSize : ℕ := 34000

/-- pos and end are offsets into buffer. A freed message is all zero. -/
structure SshMessage where
  length : ℕ
  command : UInt8
  buffer : Option Bytes
  pos : ℕ
  endPos : ℕ
  deriving DecidableEq

def SshMessage.freed : SshMessage := ⟨0, 0, none, 0, 0⟩

/-- transfer_buffer_len is the length of the block. -/
structure SshParams where
  handle : Bytes
  handleLen : ℕ
  transferBuffer : Option Bytes
  id : UInt32
  count : UInt32
  message : SshMessage
  dontLogStatus : Bool
  offset : UInt64
  deriving DecidableEq

/-- connected stands for datafd > 0. -/
structure SshRequest where
  params : SshParams
  connected : Bool
  cached : Bool
  lastDirEntry : Option Bytes
  deriving DecidableEq

def gftpDisconnect (request : SshRequest) : SshRequest :=
  { request with
    connected := false
    cached := false
    params := { request.params with message := SshMessage.freed } }

def SshRequest.setMessage (request : SshRequest) (message : SshMessage) : SshRequest :=
  { request with params := { request.params with message := message } }

def SshRequest.setCount (request : SshRequest) (count : UInt32) : SshRequest :=
  { request with params := { request.params with count := count } }

/-- The four bytes at an offset of a block. -/
def wordAt (block : Bytes) (off : ℕ) : CRun UInt32 :=
  match read32 (block.drop off) with
  | some w => .ok w
  | none => .error .fault

/-- The accesses sshv2_log_command makes to the message it describes. -/
def sshv2LogCommand (dontLogStatus : Bool) (type : UInt8) (message : Bytes) : CRun Unit := do
  let _ ← wordAt message 0
  if type = sshFxpOpen then
    let num ← wordAt message 4
    if 12 + num.toNat ≤ message.length then return else .error .fault
  else if type ∈ [sshFxpOpendir, sshFxpRemove, sshFxpMkdir, sshFxpRmdir, sshFxpRealpath,
      sshFxpStat] then
    if 0 ∈ message.drop 8 then return else .error .fault
  else if type = sshFxpSetstat then
    let num ← wordAt message 4
    let _ ← wordAt message (8 + num.toNat)
    let _ ← wordAt message (12 + num.toNat)
  else if type = sshFxpStatus then
    if dontLogStatus then return
    let _ ← wordAt message 4
  else if type = sshFxpName then
    let _ ← wordAt message 4

/-- The bytes of one message on the wire. -/
def frame (type : UInt8) (body : Bytes) : Bytes :=
  be32 (UInt32.ofNat (body.length + 1)) ++ type :: body

structure SendResult where
  ret : Except GftpError Unit
  sent : Option Bytes
  request : SshRequest

/-- sent is what gftp_fd_write is given, and written is what it returns. -/
def sshv2SendCommand (request : SshRequest) (type : UInt8) (command : Bytes)
    (written : Except GftpError Unit) : CRun SendResult := do
  if 33995 < command.length then
    return { ret := .error .fatal, sent := none, request := gftpDisconnect request }
  let buf ← overwrite (List.replicate 34000 0) 0 (frame type command)
  let buf ← overwrite buf (command.length + 5) [0]
  sshv2LogCommand request.params.dontLogStatus type (command ++ [0])
  let sent := some (buf.take (command.length + 5))
  match written with
  | .error e => return { ret := .error e, sent := sent, request := gftpDisconnect request }
  | .ok () => return { ret := .ok (), sent := sent, request := request }

/-- A command that is sent leaves the request as it is; one that is too long or cannot be
written disconnects it. -/
theorem sendCommand_cases {request : SshRequest} {type : UInt8} {command : Bytes}
    {written : Except GftpError Unit} {sent : SendResult}
    (h : sshv2SendCommand request type command written = .ok sent) :
    (sent.ret = .ok () ∧ sent.request = request) ∨
      ∃ e, sent.ret = .error e ∧ sent.request = gftpDisconnect request ∧
        (33995 < command.length ∨ written = .error e) := by
  unfold sshv2SendCommand at h
  split_ifs at h with hlong
  · obtain rfl := Except.ok.inj h
    exact .inr ⟨_, rfl, rfl, .inl hlong⟩
  · obtain ⟨_, -, h⟩ := CRun.bind_eq_ok.mp h
    obtain ⟨_, -, h⟩ := CRun.bind_eq_ok.mp h
    obtain ⟨_, -, h⟩ := CRun.bind_eq_ok.mp h
    cases written with
    | error e =>
      obtain rfl := Except.ok.inj h
      exact .inr ⟨e, rfl, rfl, .inr rfl⟩
    | ok _ =>
      obtain rfl := Except.ok.inj h
      exact .inl ⟨rfl, rfl⟩

/-- ret is the command as a char, so that a command from 128 on is negative. -/
structure ReadResult where
  ret : Except GftpError UInt8
  message : SshMessage
  request : SshRequest
  stream : Stream GftpError

def commandResult (command : UInt8) : Except GftpError UInt8 :=
  if command < 128 then .ok command else .error (.ofCode (command.toNat - 256))

/-- The result of a read that disconnects the request and drops the message. -/
def readFailed (request : SshRequest) (e : GftpError) (s : Stream GftpError) : ReadResult :=
  { ret := .error e, message := SshMessage.freed, request := gftpDisconnect request, stream := s }

/-- The number of bytes the second loop asks for. A length field of zero wraps around. -/
def payloadSize (length : ℕ) : ℕ := if length = 0 then 2 ^ 32 - 1 else length - 1

def sshv2ReadResponse (request : SshRequest) (s : Stream GftpError) : CRun ReadResult := do
  let (head, s) ← readExactly 5 s
  match head with
  | .error e => return readFailed request e s
  | .ok head =>
      let length := (← wordAt head 0).toNat
      if 34000 < length then return readFailed request .fatal s
      else
        let (body, s) ← readInto (length + 1) (payloadSize length) s
        match body with
        | .error e => return readFailed request e s
        | .ok body =>
            let command := (head.drop 4).headD 0
            let buffer := body ++ [0, 0]
            sshv2LogCommand request.params.dontLogStatus command buffer
            return {
              ret := commandResult command
              message := { length := length, command := command, buffer := some buffer,
                           pos := 0, endPos := length - 1 }
              request := request
              stream := s }

/-- What taking a value leaves: the value or the result returned instead, and the
message and the request, which a wrong response frees and disconnects. -/
structure Taken (α : Type) where
  value : Except GftpError α
  message : SshMessage
  request : SshRequest

/-- Goes on with a value that was taken, or returns the result in its place. -/
def Taken.andThen {α β : Type} (t : Taken α)
    (next : α → SshRequest → SshMessage → CRun (Taken β)) : CRun (Taken β) :=
  match t.value with
  | .error e => .ok { value := .error e, message := t.message, request := t.request }
  | .ok a => next a t.request t.message

def sshv2WrongResponse (α : Type) (request : SshRequest) : Taken α :=
  { value := .error .fatal, message := SshMessage.freed, request := gftpDisconnect request }

def sshv2ResponseReturnCode (α : Type) (request : SshRequest) (message : SshMessage)
    (ret : UInt32) : Taken α :=
  if ret ∈ [sshFxOk, sshFxEof, sshFxNoSuchFile, sshFxFailure, sshFxOpUnsupported] then
    { value := .error .retryable, message := message, request := request }
  else if ret = sshFxPermissionDenied then
    { value := .error .fatal, message := message, request := request }
  else sshv2WrongResponse α request

/-- expected is none when the response is not checked. -/
def sshv2BufferGetInt32 (request : SshRequest) (message : SshMessage)
    (expected : Option UInt32) : CRun (Taken UInt32) :=
  if message.endPos < message.pos + 4 then .ok (sshv2WrongResponse UInt32 request)
  else do
    let snum ← wordAt (message.buffer.getD []) message.pos
    let message := { message with pos := message.pos + 4 }
    match expected with
    | some e =>
        if snum ≠ e then return sshv2ResponseReturnCode UInt32 request message snum
        else return { value := .ok snum, message := message, request := request }
    | none => return { value := .ok snum, message := message, request := request }

/-- The part of sshv2_open_file and sshv2_list_files that keeps the handle string of
a response. A length below 4 wraps around in the test and is too big, and a length of
4 wraps around in the size of the copy. -/
def sshv2StoreHandle (request : SshRequest) (message : SshMessage) (tooBig : GftpError) :
    CRun (Except GftpError Unit × SshRequest) :=
  if message.length < 4 ∨ sshMaxHandleSize < message.length - 4 then
    .ok (.error tooBig, gftpDisconnect request)
  else if message.length = 4 then .error .fault
  else do
    let handle ← overwrite request.params.handle 0 [0, 0, 0, 0]
    let handle ← overwrite handle 4
      (((message.buffer.getD []).drop 4).take (message.length - 5))
    return (.ok (), { request with
      params := { request.params with handle := handle, handleLen := message.length - 1 } })

/-- What opening a file or a directory leaves in the handle fields. -/
structure HandleStored (params : SshParams) : Prop where
  lower : 4 ≤ params.handleLen
  upper : params.handleLen ≤ params.handle.length

theorem wordAt_display {pre post : Bytes} (n : UInt32) {off : ℕ} (hoff : off = pre.length) :
    wordAt (pre ++ (be32 n ++ post)) off = .ok n := by
  subst hoff
  simp only [wordAt, List.drop_left, read32_be32]

theorem wordAt_isOk {block : Bytes} {off : ℕ} (h : off + 4 ≤ block.length) :
    ∃ w, wordAt block off = .ok w := by
  obtain ⟨w, hw⟩ := Option.isSome_iff_exists.mp
    ((read32_isSome_iff (block.drop off)).mpr (by rw [List.length_drop]; omega))
  exact ⟨w, by simp [wordAt, hw]⟩

@[simp] theorem frame_length (type : UInt8) (body : Bytes) :
    (frame type body).length = body.length + 5 := by
  simp only [frame, List.length_append, List.length_cons, be32_length]
  omega

theorem frame_injective {type : UInt8} {body body' : Bytes}
    (h : frame type body = frame type body') : body = body' := by
  have hdrop := congrArg (List.drop 5) h
  simpa [frame, be32] using hdrop

/-- The commands and responses of an upload and a listing are described by their
first two words at most. -/
theorem logCommand_ok {dontLogStatus : Bool} {type : UInt8} {message : Bytes}
    (h : type ∈ [sshFxpWrite, sshFxpReaddir, sshFxpStatus, sshFxpName])
    (hid : 4 ≤ message.length) (hnum : type ∈ [sshFxpStatus, sshFxpName] → 8 ≤ message.length) :
    sshv2LogCommand dontLogStatus type message = .ok () := by
  obtain ⟨id, hid⟩ := wordAt_isOk (show 0 + 4 ≤ message.length by omega)
  simp only [List.mem_cons, List.not_mem_nil, or_false] at h
  rcases h with rfl | rfl | rfl | rfl
  · simp +decide [sshv2LogCommand, hid, pure, Except.pure]
  · simp +decide [sshv2LogCommand, hid, pure, Except.pure]
  · obtain ⟨num, hnum⟩ := wordAt_isOk (show 4 + 4 ≤ message.length from hnum (by simp))
    simp +decide [sshv2LogCommand, hid, hnum, pure, Except.pure]
  · obtain ⟨num, hnum⟩ := wordAt_isOk (show 4 + 4 ≤ message.length from hnum (by simp))
    simp +decide [sshv2LogCommand, hid, hnum, pure, Except.pure]

theorem sendCommand_eq {request : SshRequest} {type : UInt8} {command : Bytes}
    (written : Except GftpError Unit) (hlen : command.length < 33995)
    (hlog : sshv2LogCommand request.params.dontLogStatus type (command ++ [0]) = .ok ()) :
    sshv2SendCommand request type command written = .ok
      { ret := written
        sent := some (frame type command)
        request := match written with
          | .error _ => gftpDisconnect request
          | .ok () => request } := by
  have hframe : (frame type command).length = command.length + 5 := frame_length type command
  have hbuf : (List.replicate 34000 (0 : UInt8)).length = 34000 := List.length_replicate
  unfold sshv2SendCommand
  generalize List.replicate 34000 (0 : UInt8) = buf at hbuf ⊢
  rw [if_neg (by omega), overwrite_ok (by omega)]
  simp only [List.take_zero, List.nil_append, CRun.ok_bind, Nat.zero_add]
  rw [overwrite_ok (by
    simp only [List.length_append, List.length_drop, List.length_singleton, hframe, hbuf]
    omega)]
  simp only [CRun.ok_bind, hlog]
  rw [← hframe, List.take_left, List.take_left]
  cases written <;> rfl

theorem sendCommand_tooLong {request : SshRequest} {type : UInt8} {command : Bytes}
    (written : Except GftpError Unit) (hlen : 33995 < command.length) :
    sshv2SendCommand request type command written =
      .ok { ret := .error .fatal, sent := none, request := gftpDisconnect request } := by
  unfold sshv2SendCommand
  rw [if_pos hlen]
  rfl

theorem sendCommand_fault {request : SshRequest} {type : UInt8} {command : Bytes}
    (written : Except GftpError Unit) (hlen : command.length = 33995) :
    sshv2SendCommand request type command written = .error .fault := by
  have hframe : (frame type command).length = command.length + 5 := frame_length type command
  have hbuf : (List.replicate 34000 (0 : UInt8)).length = 34000 := List.length_replicate
  unfold sshv2SendCommand
  generalize List.replicate 34000 (0 : UInt8) = buf at hbuf ⊢
  rw [if_neg (by omega), overwrite_ok (by omega)]
  simp only [List.take_zero, List.nil_append, CRun.ok_bind, Nat.zero_add]
  rw [overwrite_fault (by
    simp only [List.length_append, List.length_drop, List.length_singleton, hframe, hbuf]
    omega)]
  simp only [CRun.error_bind]

/-- A message that has arrived whole is read as it was framed, once it is logged. -/
theorem readResponse_logs {request : SshRequest} {s : Stream GftpError} {type : UInt8}
    {body rest : Bytes} (hs : Plain s) (hc : contents s = frame type body ++ rest)
    (hlen : body.length + 1 ≤ 34000) :
    ∃ s', sshv2ReadResponse request s = (do
        sshv2LogCommand request.params.dontLogStatus type (body ++ [0, 0])
        return { ret := commandResult type
                 message := { length := body.length + 1, command := type,
                              buffer := some (body ++ [0, 0]), pos := 0, endPos := body.length }
                 request := request
                 stream := s' }) ∧
      contents s' = rest ∧ Plain s' := by
  have hn : (UInt32.ofNat (body.length + 1)).toNat = body.length + 1 := by
    rw [UInt32.toNat_ofNat']
    exact Nat.mod_eq_of_lt (by omega)
  obtain ⟨s₁, hhead, hc₁, hs₁⟩ :=
    readExactly_plain (d := be32 (UInt32.ofNat (body.length + 1)) ++ [type]) (n := 5) hs
      (by simpa [frame] using hc) rfl
  obtain ⟨s₂, hbody, hc₂, hs₂⟩ := readExactly_plain hs₁ hc₁ rfl
  rw [← @readInto_fits _ _ (body.length + 2) _ (by omega)] at hbody
  have hword : wordAt (be32 (UInt32.ofNat (body.length + 1)) ++ [type]) 0 =
      .ok (UInt32.ofNat (body.length + 1)) := @wordAt_display [] [type] _ 0 rfl
  refine ⟨s₂, ?_, hc₂, hs₂⟩
  unfold sshv2ReadResponse
  rw [hhead, CRun.ok_bind]
  dsimp only
  rw [hword, CRun.ok_bind, hn, if_neg (by omega), payloadSize, if_neg (by omega),
    Nat.add_sub_cancel, hbody, CRun.ok_bind]
  rfl

theorem readResponse_frame {request : SshRequest} {s : Stream GftpError} {type : UInt8}
    {body rest : Bytes} (hs : Plain s) (hc : contents s = frame type body ++ rest)
    (hlen : body.length + 1 ≤ 34000)
    (hlog : sshv2LogCommand request.params.dontLogStatus type (body ++ [0, 0]) = .ok ()) :
    ∃ s', sshv2ReadResponse request s = .ok
        { ret := commandResult type
          message := { length := body.length + 1, command := type,
                       buffer := some (body ++ [0, 0]), pos := 0, endPos := body.length }
          request := request
          stream := s' } ∧
      contents s' = rest ∧ Plain s' := by
  obtain ⟨s', hread, hc', hs'⟩ := @readResponse_logs request s type body rest hs hc hlen
  rw [hlog, CRun.ok_bind] at hread
  exact ⟨s', hread, hc', hs'⟩

theorem readResponse_tooLong {request : SshRequest} {s : Stream GftpError} {type : UInt8}
    {body rest : Bytes} (hs : Plain s) (hc : contents s = frame type body ++ rest)
    (hlen : 34000 < body.length + 1) (hfits : body.length + 1 < 2 ^ 32) :
    ∃ s', sshv2ReadResponse request s = .ok (readFailed request .fatal s') := by
  have hn : (UInt32.ofNat (body.length + 1)).toNat = body.length + 1 := by
    rw [UInt32.toNat_ofNat']
    exact Nat.mod_eq_of_lt hfits
  obtain ⟨s₁, hhead, _, _⟩ :=
    readExactly_plain (d := be32 (UInt32.ofNat (body.length + 1)) ++ [type]) (n := 5) hs
      (by simpa [frame] using hc) rfl
  have hword : wordAt (be32 (UInt32.ofNat (body.length + 1)) ++ [type]) 0 =
      .ok (UInt32.ofNat (body.length + 1)) := @wordAt_display [] [type] _ 0 rfl
  refine ⟨s₁, ?_⟩
  unfold sshv2ReadResponse
  rw [hhead, CRun.ok_bind]
  dsimp only
  rw [hword, CRun.ok_bind, hn, if_pos hlen]
  rfl

/-- Reading a response changes the request only by disconnecting it. -/
theorem readResponse_request {request : SshRequest} {s : Stream GftpError} {r : ReadResult}
    (h : sshv2ReadResponse request s = .ok r) :
    r.request = request ∨ r.request = gftpDisconnect request := by
  unfold sshv2ReadResponse at h
  obtain ⟨⟨head, s₁⟩, _, h⟩ := CRun.bind_eq_ok.mp h
  cases head with
  | error e => exact Or.inr (congrArg ReadResult.request (Except.ok.inj h)).symm
  | ok head =>
    obtain ⟨length, _, h⟩ := CRun.bind_eq_ok.mp h
    dsimp only at h
    split_ifs at h
    · exact Or.inr (congrArg ReadResult.request (Except.ok.inj h)).symm
    · obtain ⟨⟨body, s₂⟩, _, h⟩ := CRun.bind_eq_ok.mp h
      cases body with
      | error e => exact Or.inr (congrArg ReadResult.request (Except.ok.inj h)).symm
      | ok body =>
        obtain ⟨_, _, h⟩ := CRun.bind_eq_ok.mp h
        exact Or.inl (congrArg ReadResult.request (Except.ok.inj h)).symm

theorem getInt32_request {request : SshRequest} {message : SshMessage} {expected : Option UInt32}
    {t : Taken UInt32} (h : sshv2BufferGetInt32 request message expected = .ok t) :
    t.request = request ∨ t.request = gftpDisconnect request := by
  unfold sshv2BufferGetInt32 at h
  split_ifs at h
  · exact Or.inr (congrArg Taken.request (Except.ok.inj h)).symm
  · obtain ⟨snum, _, h⟩ := CRun.bind_eq_ok.mp h
    cases expected with
    | none => exact Or.inl (congrArg Taken.request (Except.ok.inj h)).symm
    | some e =>
      dsimp only at h
      split_ifs at h with hne
      · obtain rfl := Except.ok.inj h
        unfold sshv2ResponseReturnCode
        split_ifs
        · exact Or.inl rfl
        · exact Or.inl rfl
        · exact Or.inr rfl
      · exact Or.inl (congrArg Taken.request (Except.ok.inj h)).symm

end Gftp.SshMessages
