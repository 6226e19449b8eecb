import Gftp.RelatedRuns
import Gftp.SshReaders
import Gftp.SshUpload
import Gftp.TextPointers

/-!
sshv2_copy_param_options, which makes the state of one request from that of another, and
what the operations of a request make of the copy. Two states are alike when they agree on
everything an operation looks at; operations on requests that are alike send and return the
same and leave requests that are alike.
-/

namespace Gftp.SshStateCopy

open ByteStrings ByteStreams BigEndian Protocol DirListing TextPointers RelatedRuns SshMessages
  SshListing SshUpload SshReaders

/-- The READ command in the transfer buffer. -/
def fillReadBuffer (params : SshParams) (size : ℕ) : CRun Bytes := do
  let block ← transferBuffer params 0
  let block ← overwrite block 0 (be32 params.id)
  let block ← sshv2SetupFileOffset params block
  overwrite block (params.handleLen + 8) (be32 (UInt32.ofNat size))

/-- The first half of sshv2_get_next_file_chunk, up to the write. -/
def askChunk (request : SshRequest) (size : ℕ) (written : Except GftpError Unit) :
    CRun SendResult := do
  let block ← fillReadBuffer request.params size
  let params := { request.params with
    id := request.params.id + 1
    transferBuffer := some block }
  sshv2SendCommand { request with params := params } sshFxpRead
    (block.take (request.params.handleLen + 12)) written

def sshv2GetNextFileChunk (request : SshRequest) (size : ℕ) (written : Except GftpError Unit)
    (s : Stream GftpError) :
    CRun (Use (Except GftpError Bytes × SshRequest) × Stream GftpError) :=
  if request.connected = false then
    .ok ({ accesses := [], value := (.error .fatal, request) }, s)
  else do
    let sent ← askChunk request size written
    match sent.ret with
    | .error e => return ({ accesses := [], value := (.error e, sent.request) }, s)
    | .ok () => receiveData size sent.request s

/-- The payloads are the same, and so is the place of the cursor. The blocks may differ
behind the payload. -/
structure MessageAlike (m m' : SshMessage) : Prop where
  length : m'.length = m.length
  command : m'.command = m.command
  pos : m'.pos = m.pos
  endPos : m'.endPos = m.endPos
  some : m'.buffer.isSome = m.buffer.isSome
  payload : (m'.buffer.getD []).take m.endPos = (m.buffer.getD []).take m.endPos

/-- The handles agree on the bytes that are used of them. -/
structure Alike (r r' : SshRequest) : Prop where
  handleLen : r'.params.handleLen = r.params.handleLen
  handleSize : r'.params.handle.length = r.params.handle.length
  handle : r'.params.handle.take r.params.handleLen = r.params.handle.take r.params.handleLen
  transferBuffer : r'.params.transferBuffer = r.params.transferBuffer
  id : r'.params.id = r.params.id
  count : r'.params.count = r.params.count
  message : MessageAlike r.params.message r'.params.message
  dontLogStatus : r'.params.dontLogStatus = r.params.dontLogStatus
  offset : r'.params.offset = r.params.offset
  connected : r'.connected = r.connected
  cached : r'.cached = r.cached
  lastDirEntry : r'.lastDirEntry = r.lastDirEntry

structure TakenAlike {α : Type} (t t' : Taken α) : Prop where
  value : t'.value = t.value
  message : MessageAlike t.message t'.message
  request : Alike t.request t'.request

structure NextAlike (r r' : NextFile SshRequest) : Prop where
  ret : r'.ret = r.ret
  fle : r'.fle = r.fle
  stream : r'.stream = r.stream
  request : Alike r.request r'.request

structure SentAlike (r r' : SendResult) : Prop where
  ret : r'.ret = r.ret
  sent : r'.sent = r.sent
  request : Alike r.request r'.request

structure ReadAlike (r r' : ReadResult) : Prop where
  ret : r'.ret = r.ret
  message : r'.message = r.message
  stream : r'.stream = r.stream
  request : Alike r.request r'.request

/-- A function that takes a value takes the same from messages that are alike. -/
def Uniform {α : Type} (take : SshRequest → SshMessage → CRun (Taken α)) : Prop :=
  ∀ r r' m m', Alike r r' → MessageAlike m m' → Related TakenAlike (take r m) (take r' m')

theorem MessageAlike.refl (m : SshMessage) : MessageAlike m m := ⟨rfl, rfl, rfl, rfl, rfl, rfl⟩

section Requests

variable {r r' : SshRequest} {m m' : SshMessage}

theorem Alike.disconnect (h : Alike r r') : Alike (gftpDisconnect r) (gftpDisconnect r') :=
  { h with message := .refl _, connected := rfl, cached := rfl }

theorem Alike.setMessage (h : Alike r r') (hm : MessageAlike m m') :
    Alike (r.setMessage m) (r'.setMessage m') :=
  { h with message := hm }

theorem Alike.setCount (h : Alike r r') (count : UInt32) :
    Alike (r.setCount count) (r'.setCount count) :=
  { h with count := rfl }

theorem MessageAlike.moved (h : MessageAlike m m') (pos : ℕ) :
    MessageAlike { m with pos := pos } { m' with pos := pos, endPos := m.endPos } :=
  { h with pos := rfl, endPos := rfl }

/-- A part of the payload is the same in both blocks. -/
theorem MessageAlike.part (h : MessageAlike m m') {pos n : ℕ} (hn : pos + n ≤ m.endPos) :
    ((m'.buffer.getD []).drop pos).take n = ((m.buffer.getD []).drop pos).take n := by
  have hcut : ∀ b : Bytes, (b.drop pos).take n = ((b.take m.endPos).drop pos).take n := by
    intro b
    rw [List.drop_take, List.take_take, Nat.min_eq_left (by omega)]
  rw [hcut, h.payload, ← hcut]

theorem MessageAlike.wordAt (h : MessageAlike m m') {pos : ℕ} (hpos : pos + 4 ≤ m.endPos) :
    SshMessages.wordAt (m'.buffer.getD []) pos = SshMessages.wordAt (m.buffer.getD []) pos := by
  unfold SshMessages.wordAt
  rw [← read32_take, h.part hpos, read32_take]

end Requests

section Uniform

variable {α β : Type} {take : SshRequest → SshMessage → CRun (Taken α)}
  {next : α → SshRequest → SshMessage → CRun (Taken β)}

theorem Uniform.nothing (a : α) :
    Uniform (fun request message =>
      return { value := .ok a, message := message, request := request }) :=
  fun _ _ _ _ hr hm => .returned ⟨rfl, hm, hr⟩

theorem wrong_alike {r r' : SshRequest} (h : Alike r r') :
    TakenAlike (sshv2WrongResponse α r) (sshv2WrongResponse α r') :=
  ⟨rfl, .refl _, h.disconnect⟩

/-- What follows a value that was taken. -/
theorem TakenAlike.andThen {t t' : Taken α} (h : TakenAlike t t') (hnext : ∀ a, Uniform (next a)) :
    Related TakenAlike (t.andThen next) (t'.andThen next) := by
  unfold Taken.andThen
  rw [h.value]
  cases t.value with
  | error e => exact .returned ⟨rfl, h.message, h.request⟩
  | ok a => exact hnext a _ _ _ _ h.request h.message

theorem Uniform.andThen (htake : Uniform take) (hnext : ∀ a, Uniform (next a)) :
    Uniform (fun request message => do (← take request message).andThen next) :=
  fun r r' m m' hr hm => (htake r r' m m' hr hm).bind fun _ _ h => h.andThen hnext

theorem Uniform.guarded {c : Bool} {a : α} (htake : Uniform take) :
    Uniform (fun request message =>
      if c then take request message
      else return { value := .ok a, message := message, request := request }) := by
  cases c with
  | true => exact htake
  | false => exact Uniform.nothing a

end Uniform

theorem returnCode_alike {r r' : SshRequest} {m m' : SshMessage} (hr : Alike r r')
    (hm : MessageAlike m m') (ret : UInt32) :
    TakenAlike (sshv2ResponseReturnCode UInt32 r m ret) (sshv2ResponseReturnCode UInt32 r' m' ret) := by
  unfold sshv2ResponseReturnCode
  split_ifs
  · exact ⟨rfl, hm, hr⟩
  · exact ⟨rfl, hm, hr⟩
  · exact wrong_alike hr

theorem int32_uniform (expected : Option UInt32) :
    Uniform fun request message => sshv2BufferGetInt32 request message expected := by
  intro r r' m m' hr hm
  unfold sshv2BufferGetInt32
  dsimp only
  rw [hm.pos, hm.endPos]
  split_ifs with hroom
  · exact .returned (wrong_alike hr)
  · rw [@MessageAlike.wordAt _ _ hm m.pos (by omega)]
    have hmoved := hm.moved (m.pos + 4)
    refine Related.common fun w _ => ?_
    cases expected with
    | none => exact .returned ⟨rfl, hmoved, hr⟩
    | some e =>
      dsimp only
      split_ifs
      · exact .returned (returnCode_alike hr hmoved w)
      · exact .returned ⟨rfl, hmoved, hr⟩

theorem int64_uniform : Uniform sshv2BufferGetInt64 :=
  (int32_uniform none).andThen fun _ => (int32_uniform none).andThen fun _ => Uniform.nothing _

theorem string_uniform : Uniform sshv2BufferGetString := by
  apply (int32_uniform none).andThen
  intro len r r' m m' hr hm
  dsimp only
  rw [hm.pos, hm.endPos]
  split_ifs with hlen
  · exact .returned (wrong_alike hr)
  · have hpart : ((m'.buffer.getD []).drop m.pos).take len.toNat =
        ((m.buffer.getD []).drop m.pos).take len.toNat := by
      rcases Nat.eq_zero_or_pos len.toNat with hzero | hpos
      · rw [hzero, List.take_zero, List.take_zero]
      · exact hm.part (by omega)
    rw [hpart]
    exact .returned ⟨rfl, hm.moved _, hr⟩

theorem acmodtime_uniform (attrs : UInt32) (d : Decoded) : Uniform (decodeAcmodtime attrs d) := by
  apply Uniform.guarded
  intro r r' m m' hr hm
  apply (int32_uniform none r r' m m' hr hm).bind
  intro t t' ht
  rw [ht.value]
  cases t.value with
  | error e =>
    cases d.2 with
    | none => exact .stopped .fault
    | some num =>
      dsimp only
      split_ifs
      · exact .returned ⟨rfl, ht.message, ht.request⟩
      · exact .stopped .fault
  | ok atime =>
    exact ((int32_uniform none).andThen fun _ => Uniform.nothing _) _ _ _ _ ht.request ht.message

theorem skipExtended_uniform : Uniform skipExtended := by
  intro r r' m m' hr hm
  apply (int32_uniform none r r' m m' hr hm).bind
  intro t t' ht
  rw [ht.value]
  cases t.value with
  | error e => exact .returned ⟨rfl, ht.message, ht.request⟩
  | ok n =>
    dsimp only
    rw [ht.message.pos, ht.message.endPos]
    split_ifs
    · exact .returned ⟨rfl, ht.message, ht.request⟩
    · exact .returned ⟨rfl, ht.message.moved _, ht.request⟩

theorem skipPairs_uniform (count : ℕ) : Uniform (skipPairs count) := by
  induction count with
  | zero => exact Uniform.nothing ()
  | succ count ih =>
    exact skipExtended_uniform.andThen fun _ => skipExtended_uniform.andThen fun _ => ih

theorem attributes_uniform (fle : GftpFile) : Uniform (sshv2DecodeFileAttributes fle) := by
  apply (int32_uniform none).andThen
  intro attrs
  have hsize : Uniform (decodeSize attrs (fle, none)) :=
    Uniform.guarded (int64_uniform.andThen fun _ => Uniform.nothing _)
  apply hsize.andThen
  intro d
  have howner : Uniform (decodeUidgid attrs d) :=
    Uniform.guarded ((int32_uniform none).andThen fun _ => (int32_uniform none).andThen fun _ =>
      Uniform.nothing _)
  apply howner.andThen
  intro d
  have hpermissions : Uniform (decodePermissions attrs d) :=
    Uniform.guarded ((int32_uniform none).andThen fun _ => Uniform.nothing _)
  apply hpermissions.andThen
  intro d
  apply (acmodtime_uniform attrs d).andThen
  intro d
  exact Uniform.guarded ((int32_uniform none).andThen fun count =>
    (skipPairs_uniform count.toNat).andThen fun _ => Uniform.nothing _)

section Operations

variable {r r' : SshRequest}

theorem takeEntry_alike (h : Alike r r') (s : Stream GftpError) :
    Related NextAlike (takeEntry r s) (takeEntry r' s) := by
  apply (string_uniform r r' _ _ h h.message).bind
  intro file file' hfile
  rw [hfile.value]
  cases file.value with
  | error e =>
    exact .returned ⟨rfl, rfl, rfl, hfile.request.setMessage hfile.message⟩
  | ok name =>
    apply (string_uniform _ _ _ _ hfile.request hfile.message).bind
    intro longname longname' hlong
    apply (attributes_uniform _ _ _ _ _ hlong.request hlong.message).bind
    intro d d' hd
    have hset := hd.request.setMessage hd.message
    rw [hd.value]
    cases d.value with
    | error e => exact .returned ⟨rfl, rfl, rfl, hset⟩
    | ok fle =>
      refine .returned ⟨?_, rfl, rfl, ?_⟩
      · dsimp only
        rw [hd.message.pos, h.message.pos]
      · have hcount := hset.count
        dsimp only at hcount ⊢
        rw [hcount]
        exact hset.setCount _

theorem sendCommand_alike (h : Alike r r') (type : UInt8) (command : Bytes)
    (written : Except GftpError Unit) :
    Related SentAlike (sshv2SendCommand r type command written)
      (sshv2SendCommand r' type command written) := by
  unfold sshv2SendCommand
  rw [h.dontLogStatus]
  split_ifs
  · exact .returned ⟨rfl, rfl, h.disconnect⟩
  · refine Related.common fun _ _ => Related.common fun _ _ => Related.common fun _ _ => ?_
    cases written with
    | error e => exact .returned ⟨rfl, rfl, h.disconnect⟩
    | ok u => exact .returned ⟨rfl, rfl, h⟩

theorem readFailed_alike (h : Alike r r') (e : GftpError) (s : Stream GftpError) :
    ReadAlike (readFailed r e s) (readFailed r' e s) :=
  ⟨rfl, rfl, rfl, h.disconnect⟩

theorem readResponse_alike (h : Alike r r') (s : Stream GftpError) :
    Related ReadAlike (sshv2ReadResponse r s) (sshv2ReadResponse r' s) := by
  unfold sshv2ReadResponse
  rw [h.dontLogStatus]
  refine Related.common fun ⟨head, s⟩ _ => ?_
  cases head with
  | error e => exact .returned (readFailed_alike h e s)
  | ok head =>
    dsimp only
    refine Related.common fun length _ => ?_
    split_ifs
    · exact .returned (readFailed_alike h _ s)
    · refine Related.common fun ⟨body, s⟩ _ => ?_
      cases body with
      | error e => exact .returned (readFailed_alike h e s)
      | ok body => exact Related.common fun _ _ => .returned ⟨rfl, rfl, rfl, h⟩

/-- What the request number makes of a handle depends on the bytes that are used. -/
theorem numbered_handle {a b : Bytes} {n : ℕ} (hsize : b.length = a.length)
    (h : b.take n = a.take n) (id : UInt32) :
    Related (fun a' b' => b'.length = a'.length ∧ b'.take n = a'.take n)
      (overwrite a 0 (be32 id)) (overwrite b 0 (be32 id)) := by
  unfold overwrite
  rw [hsize]
  split_ifs
  · refine .returned ⟨?_, ?_⟩
    · simp [hsize]
    · have hdrop : (b.drop 4).take (n - 4) = (a.drop 4).take (n - 4) := by
        rw [← List.drop_take, ← List.drop_take, h]
      simp only [List.take_zero, List.nil_append, Nat.zero_add, be32_length, List.take_append,
        hdrop]
  · exact .stopped .fault

theorem sendReaddir_alike (h : Alike r r') (written : UInt32 → Except GftpError Unit) :
    Related SentAlike (sendReaddir r written) (sendReaddir r' written) := by
  unfold sendReaddir
  rw [h.id]
  apply (numbered_handle h.handleSize h.handle r.params.id).bind
  rintro handle handle' ⟨hsize, htake⟩
  dsimp only
  rw [h.handleLen, hsize, htake]
  split_ifs
  · apply sendCommand_alike
    exact { h with handleLen := rfl, handleSize := hsize, handle := htake, id := rfl,
                   message := .refl _ }
  · exact .stopped .fault

theorem useResponse_alike {a b : ReadResult} (h : ReadAlike a b) (command : UInt8) :
    Related NextAlike (useResponse a command) (useResponse b command) := by
  unfold useResponse
  rw [h.message, h.stream]
  split_ifs
  · apply (int32_uniform none _ _ _ _ h.request (MessageAlike.refl _)).bind
    intro count count' hcount
    have hset := hcount.request.setMessage hcount.message
    dsimp only
    rw [hcount.value]
    cases count.value with
    | error e => exact .returned ⟨rfl, rfl, rfl, hset⟩
    | ok n => exact takeEntry_alike (hset.setCount n) a.stream
  · exact .returned ⟨rfl, rfl, rfl, h.request.setMessage (.refl _)⟩
  · exact .returned ⟨rfl, rfl, rfl, h.request.disconnect⟩

theorem keepResponse_alike (h : Alike r r') (m : SshMessage) :
    Alike (keepResponse r m) (keepResponse r' m) := by
  unfold keepResponse
  rw [h.cached]
  split_ifs
  · exact h.setMessage (.refl m)
  · exact { h with message := .refl m, lastDirEntry := rfl }

theorem nextResponse_alike (h : Alike r r') (s : Stream GftpError) :
    Related NextAlike (nextResponse r s) (nextResponse r' s) := by
  unfold nextResponse
  apply (readResponse_alike h s).bind
  intro a b hread
  rw [hread.ret]
  cases a.ret with
  | error e =>
    dsimp only
    rw [hread.message, hread.stream]
    exact .returned ⟨rfl, rfl, rfl, hread.request.setMessage (.refl _)⟩
  | ok command =>
    apply useResponse_alike
    rw [hread.message]
    exact { hread with ret := rfl, message := rfl,
                       request := keepResponse_alike hread.request a.message }

theorem getNextFile_alike (h : Alike r r') (written : UInt32 → Except GftpError Unit)
    (s : Stream GftpError) :
    Related NextAlike (sshv2GetNextFile written r s) (sshv2GetNextFile written r' s) := by
  have hcleared : Alike { r with lastDirEntry := none } { r' with lastDirEntry := none } :=
    { h with lastDirEntry := rfl }
  have hcount : (0 < r'.params.count) = (0 < r.params.count) := by rw [h.count]
  have hcached : (r'.cached = true) = (r.cached = true) := by rw [h.cached]
  unfold sshv2GetNextFile
  simp only [hcount, hcached]
  split_ifs
  · exact takeEntry_alike hcleared s
  · exact nextResponse_alike hcleared s
  · apply (sendReaddir_alike hcleared written).bind
    intro sent sent' hsent
    rw [hsent.ret]
    cases sent.ret with
    | error e => exact .returned ⟨rfl, rfl, rfl, hsent.request⟩
    | ok u => exact nextResponse_alike hsent.request s

theorem fillTransferBuffer_eq (h : Alike r r') (buf : Bytes) :
    fillTransferBuffer r'.params buf = fillTransferBuffer r.params buf := by
  unfold fillTransferBuffer transferBuffer sshv2SetupFileOffset
  rw [h.transferBuffer, h.handleLen, h.handleSize, h.handle, h.id, h.offset]

theorem sendChunk_alike (h : Alike r r') (buf : Bytes) (written : Except GftpError Unit) :
    Related SentAlike (sendChunk r buf written) (sendChunk r' buf written) := by
  unfold sendChunk
  rw [fillTransferBuffer_eq h]
  refine Related.common fun block _ => ?_
  apply sendCommand_alike
  exact { h with id := congrArg (· + 1) h.id, transferBuffer := rfl }

structure PutAlike (a b : PutResult) : Prop where
  ret : b.ret = a.ret
  stream : b.stream = a.stream
  request : Alike a.request b.request

theorem readAck_alike (h : Alike r r') (size : ℕ) (s : Stream GftpError) :
    Related PutAlike (readAck r size s) (readAck r' size s) := by
  have hquiet : Alike { r with params := { r.params with dontLogStatus := true } }
      { r' with params := { r'.params with dontLogStatus := true } } :=
    { h with dontLogStatus := rfl }
  unfold readAck
  apply (readResponse_alike hquiet s).bind
  intro a b hread
  have hloud : Alike { a.request with params := { a.request.params with dontLogStatus := false } }
      { b.request with params := { b.request.params with dontLogStatus := false } } :=
    { hread.request with dontLogStatus := rfl }
  rw [hread.ret, hread.stream]
  cases a.ret with
  | error e => exact .returned ⟨rfl, rfl, hread.request⟩
  | ok command =>
    dsimp only
    rw [hread.message]
    by_cases hcommand : command ≠ sshFxpStatus
    · rw [if_pos hcommand, if_pos hcommand]
      exact .returned ⟨rfl, rfl, hloud.disconnect⟩
    · rw [if_neg hcommand, if_neg hcommand]
      apply (int32_uniform (some sshFxOk) _ _ _ _ hloud (MessageAlike.refl _)).bind
      intro status status' hstatus
      rw [hstatus.value]
      cases status.value with
      | error e =>
        dsimp only
        split_ifs
        · exact .returned ⟨rfl, rfl, hstatus.request⟩
        · exact .returned ⟨rfl, rfl, hstatus.request⟩
      | ok n =>
        refine .returned ⟨rfl, rfl, ?_⟩
        exact { hstatus.request with
          offset := congrArg (· + UInt64.ofNat size) hstatus.request.offset }

theorem putNextFileChunk_alike (h : Alike r r') (buf : Bytes) (written : Except GftpError Unit)
    (s : Stream GftpError) :
    Related PutAlike (sshv2PutNextFileChunk r buf written s)
      (sshv2PutNextFileChunk r' buf written s) := by
  unfold sshv2PutNextFileChunk
  rw [h.connected]
  split_ifs
  · exact .returned ⟨rfl, rfl, h⟩
  · apply (sendChunk_alike h buf written).bind
    intro sent sent' hsent
    rw [hsent.ret]
    cases sent.ret with
    | error e => exact .returned ⟨rfl, rfl, hsent.request⟩
    | ok u => exact readAck_alike hsent.request buf.length s

theorem askChunk_alike (h : Alike r r') (size : ℕ) (written : Except GftpError Unit) :
    Related SentAlike (askChunk r size written) (askChunk r' size written) := by
  have hblock : fillReadBuffer r'.params size = fillReadBuffer r.params size := by
    unfold fillReadBuffer transferBuffer sshv2SetupFileOffset
    rw [h.transferBuffer, h.handleLen, h.handleSize, h.handle, h.id, h.offset]
  unfold askChunk
  rw [hblock, h.handleLen]
  refine Related.common fun block _ => ?_
  apply sendCommand_alike
  exact { h with id := congrArg (· + 1) h.id, transferBuffer := rfl }

structure ChunkAlike (a b : Use (Except GftpError Bytes × SshRequest) × Stream GftpError) :
    Prop where
  accesses : b.1.accesses = a.1.accesses
  ret : b.1.value.1 = a.1.value.1
  request : Alike a.1.value.2 b.1.value.2
  stream : b.2 = a.2

theorem receiveData_alike (h : Alike r r') (size : ℕ) (s : Stream GftpError) :
    Related ChunkAlike (receiveData size r s) (receiveData size r' s) := by
  unfold receiveData
  apply (readResponse_alike h s).bind
  intro a b hread
  have hrequest := hread.request
  rw [hread.ret, hread.stream]
  cases a.ret with
  | error e => exact .returned ⟨rfl, rfl, hrequest, rfl⟩
  | ok command =>
    dsimp only
    rw [hread.message]
    by_cases hdata : command = sshFxpData
    · rw [if_pos hdata, if_pos hdata]
      unfold copyData
      dsimp only
      split_ifs
      · exact .returned ⟨rfl, rfl, hrequest.disconnect, rfl⟩
      · refine .returned ⟨rfl, rfl, ?_, rfl⟩
        exact { hrequest with offset := congrArg (· + UInt64.ofNat _) hrequest.offset }
    · rw [if_neg hdata, if_neg hdata]
      unfold endOfData
      simp only [bind_assoc]
      apply (int32_uniform (some sshFxEof) _ _ _ _ hrequest (MessageAlike.refl _)).bind
      intro status status' hstatus
      refine .returned ⟨rfl, ?_, hstatus.request, rfl⟩
      dsimp only
      rw [hstatus.value]

theorem getNextFileChunk_alike (h : Alike r r') (size : ℕ) (written : Except GftpError Unit)
    (s : Stream GftpError) :
    Related ChunkAlike (sshv2GetNextFileChunk r size written s)
      (sshv2GetNextFileChunk r' size written s) := by
  unfold sshv2GetNextFileChunk
  rw [h.connected]
  split_ifs
  · exact .returned ⟨rfl, rfl, h, rfl⟩
  · apply (askChunk_alike h size written).bind
    intro sent sent' hsent
    rw [hsent.ret]
    cases sent.ret with
    | error e => exact .returned ⟨rfl, rfl, hsent.request, rfl⟩
    | ok u => exact receiveData_alike hsent.request size s

end Operations

/-- The protocol_data of a request. transfer_buffer_len is a field of its own here. -/
structure SshState where
  params : SshParams
  transferBufferLen : ℕ
  initialized : Bool

/-- What the functions of the protocol leave: an array of the right size with the handle
inside it, a transfer buffer of the length noted for it, and no message or a whole one,
consumed up to any place. -/
structure Sound (src : SshState) : Prop where
  handleSize : src.params.handle.length = sshMaxHandleSize + 4
  transfer : ∀ block, src.params.transferBuffer = some block →
    block.length = src.transferBufferLen
  message : src.params.message = SshMessage.freed ∨
    ∃ payload, src.params.message.buffer = some (payload ++ [0, 0]) ∧
      src.params.message.endPos = payload.length

/-- g_strdup, which gives NULL for NULL. -/
def gStrdup : Option Bytes → CRun (Option Bytes)
  | none => .ok none
  | some block => do return some ((← textAt block) ++ [0])

/-- pos and end keep their distance to the start of the buffer. -/
def sshv2CopyMessage (src : SshMessage) : CRun SshMessage := do
  return { src with buffer := ← gStrdup src.buffer }

/-- A block of the noted length with as many bytes of the other. -/
def copyTransferBuffer (src : SshState) : CRun (Option Bytes) :=
  match src.params.transferBuffer with
  | none => .ok none
  | some block => do
      return some (← overwrite (List.replicate src.transferBufferLen 0) 0
        (block.take src.transferBufferLen))

/-- The size that is copied of the handle is that of its first byte. -/
def sshv2CopyParamOptions (dest src : SshState) : CRun SshState := do
  let handle ← overwrite dest.params.handle 0 (src.params.handle.take 1)
  let transferBuffer ← copyTransferBuffer src
  let message ← sshv2CopyMessage src.params.message
  return {
    params := { src.params with
      handle := handle
      transferBuffer := transferBuffer
      message := message }
    transferBufferLen := dest.transferBufferLen
    initialized := src.initialized }

/-- The copy has the handle, the transfer buffer and the pending message of its source. -/
structure SameState (src copy : SshState) : Prop where
  handleLen : copy.params.handleLen = src.params.handleLen
  handle : copy.params.handle.take src.params.handleLen =
    src.params.handle.take src.params.handleLen
  transferBuffer : copy.params.transferBuffer = src.params.transferBuffer
  transferBufferLen : src.params.transferBuffer ≠ none →
    copy.transferBufferLen = src.transferBufferLen
  message : MessageAlike src.params.message copy.params.message
  count : copy.params.count = src.params.count

/-- Every operation sends the same and returns the same on both requests. -/
structure OperatesAlike (r r' : SshRequest) : Prop where
  asksEntries : ∀ written, Related SentAlike (sendReaddir r written) (sendReaddir r' written)
  nextFile : ∀ written s,
    Related NextAlike (sshv2GetNextFile written r s) (sshv2GetNextFile written r' s)
  asksChunk : ∀ size written,
    Related SentAlike (askChunk r size written) (askChunk r' size written)
  getsChunk : ∀ size written s,
    Related ChunkAlike (sshv2GetNextFileChunk r size written s)
      (sshv2GetNextFileChunk r' size written s)
  sendsChunk : ∀ buf written,
    Related SentAlike (sendChunk r buf written) (sendChunk r' buf written)
  putsChunk : ∀ buf written s,
    Related PutAlike (sshv2PutNextFileChunk r buf written s)
      (sshv2PutNextFileChunk r' buf written s)

theorem Alike.operates {r r' : SshRequest} (h : Alike r r') : OperatesAlike r r' :=
  ⟨sendReaddir_alike h, getNextFile_alike h, askChunk_alike h, getNextFileChunk_alike h,
    sendChunk_alike h, putNextFileChunk_alike h⟩

/-- The function returns, the copy has the state of its source, and a request with the copy
does what the request with the source does. -/
def Copied (dest src : SshState) : Prop :=
  ∃ copy, sshv2CopyParamOptions dest src = .ok copy ∧ SameState src copy ∧
    ∀ r r' : SshRequest, r.params = src.params → r' = { r with params := copy.params } →
      OperatesAlike r r'

/-- What the destination and the source have to have for that: the handles agree behind
their first byte, a transfer buffer has the length noted in the destination, and no byte of
the payload but its last is zero. -/
structure Copyable (dest src : SshState) : Prop where
  handle : (dest.params.handle.take src.params.handleLen).drop 1 =
    (src.params.handle.take src.params.handleLen).drop 1
  transfer : src.params.transferBuffer = none ∨ dest.transferBufferLen = src.transferBufferLen
  message : 0 ∉ ((src.params.message.buffer.getD []).take src.params.message.endPos).dropLast

section Copies

variable {dest src : SshState}

/-- The state that is made: one byte of the handle, the transfer buffer, and of the message
what comes before its first zero byte. -/
def copyOf (dest src : SshState) : SshState where
  params := { src.params with
    handle := src.params.handle.take 1 ++ dest.params.handle.drop 1
    message := { src.params.message with
      buffer := src.params.message.buffer.map fun block => cstr block ++ [0] } }
  transferBufferLen := dest.transferBufferLen
  initialized := src.initialized

theorem copyParamOptions_eq (hdest : dest.params.handle.length = sshMaxHandleSize + 4)
    (hsrc : Sound src) : sshv2CopyParamOptions dest src = .ok (copyOf dest src) := by
  have hsize := hsrc.handleSize
  have hone : (src.params.handle.take 1).length = 1 := by
    rw [List.length_take]
    omega
  have htransfer : copyTransferBuffer src = .ok src.params.transferBuffer := by
    unfold copyTransferBuffer
    cases hblock : src.params.transferBuffer with
    | none => rfl
    | some block =>
      have hlen := hsrc.transfer block hblock
      dsimp only
      rw [← hlen, List.take_length, overwrite_ok (by simp), CRun.ok_bind]
      simp [pure, Except.pure]
  have hmessage : gStrdup src.params.message.buffer =
      .ok (src.params.message.buffer.map fun block => cstr block ++ [0]) := by
    rcases hsrc.message with hfreed | ⟨payload, hbuffer, _⟩
    · rw [hfreed]
      rfl
    · rw [hbuffer]
      have hnul : 0 ∈ payload ++ [0, 0] := by simp
      simp only [gStrdup, textAt, if_pos hnul]
      rfl
  unfold sshv2CopyParamOptions sshv2CopyMessage
  rw [overwrite_ok (by rw [hone, hdest]; omega), CRun.ok_bind, htransfer, CRun.ok_bind, hmessage]
  simp only [CRun.ok_bind, hone, List.take_zero, List.nil_append, Nat.zero_add]
  rfl

/-- One byte from one list and the others from another. -/
theorem take_first_iff {a b : Bytes} (ha : a ≠ []) (hlen : b.length = a.length) (n : ℕ) :
    (a.take 1 ++ b.drop 1).take n = a.take n ↔ (b.take n).drop 1 = (a.take n).drop 1 := by
  cases a with
  | nil => exact absurd rfl ha
  | cons x as =>
    cases b with
    | nil => simp at hlen
    | cons y bs =>
      cases n with
      | zero => simp
      | succ n => simp

/-- A string up to its first zero byte is a block whose only zero byte is the last. -/
theorem strdup_payload_iff (payload : Bytes) :
    (cstr (payload ++ [0, 0]) ++ [0]).take payload.length = payload ↔ 0 ∉ payload.dropLast := by
  by_cases hnul : 0 ∈ payload
  · obtain ⟨front, rest, rfl, hfront⟩ := List.eq_append_cons_of_mem hnul
    have hcstr : cstr ((front ++ 0 :: rest) ++ [0, 0]) = front := by
      rw [List.append_assoc]
      exact cstr_append_nul hfront _
    rw [hcstr, List.take_of_length_le (by simp)]
    cases rest with
    | nil => simp [hfront]
    | cons b rest => simp
  · rw [cstr_append_nul hnul, List.take_left]
    exact iff_of_true rfl fun h => hnul ((List.dropLast_sublist payload).subset h)

theorem sameState_copyOf_iff (hdest : dest.params.handle.length = sshMaxHandleSize + 4)
    (hsrc : Sound src) : SameState src (copyOf dest src) ↔ Copyable dest src := by
  have hne : src.params.handle ≠ [] := by
    intro hnil
    have hsize := hsrc.handleSize
    rw [hnil] at hsize
    simp at hsize
  have hhandle := @take_first_iff src.params.handle dest.params.handle hne
    (hdest.trans hsrc.handleSize.symm) src.params.handleLen
  have hmessage : MessageAlike src.params.message (copyOf dest src).params.message ↔
      0 ∉ ((src.params.message.buffer.getD []).take src.params.message.endPos).dropLast := by
    rcases hsrc.message with hfreed | ⟨payload, hbuffer, hend⟩
    · simp only [copyOf, hfreed]
      exact iff_of_true (.refl _) (by simp [SshMessage.freed])
    · have hpayload : ((src.params.message.buffer.getD []).take src.params.message.endPos) =
          payload := by
        rw [hbuffer, hend]
        simp
      rw [hpayload, ← strdup_payload_iff]
      constructor
      · intro h
        have hp := h.payload
        rw [hpayload, hend] at hp
        simpa [copyOf, hbuffer] using hp
      · intro h
        refine ⟨rfl, rfl, rfl, rfl, by simp [copyOf, hbuffer], ?_⟩
        rw [hpayload, hend]
        simpa [copyOf, hbuffer] using h
  constructor
  · intro h
    refine ⟨hhandle.mp h.handle, ?_, hmessage.mp h.message⟩
    by_cases hnone : src.params.transferBuffer = none
    · exact Or.inl hnone
    · exact Or.inr (h.transferBufferLen hnone)
  · intro h
    refine ⟨rfl, hhandle.mpr h.handle, rfl, ?_, hmessage.mpr h.message, rfl⟩
    intro hnone
    exact h.transfer.resolve_left hnone

/-- A copy with the state of its source is alike in every request. -/
theorem SameState.alike {copy : SshState} (h : SameState src copy)
    (hsize : copy.params.handle.length = src.params.handle.length)
    (hid : copy.params.id = src.params.id)
    (hlog : copy.params.dontLogStatus = src.params.dontLogStatus)
    (hoffset : copy.params.offset = src.params.offset) {r r' : SshRequest}
    (hr : r.params = src.params) (hr' : r' = { r with params := copy.params }) : Alike r r' := by
  subst hr'
  refine ⟨?_, ?_, ?_, ?_, ?_, ?_, ?_, ?_, ?_, rfl, rfl, rfl⟩
  all_goals rw [hr]
  · exact h.handleLen
  · exact hsize
  · exact h.handle
  · exact h.transferBuffer
  · exact hid
  · exact h.count
  · exact h.message
  · exact hlog
  · exact hoffset

/-- The state is copied exactly when little of it is left to copy. -/
theorem state_copied_iff (dest src : SshState)
    (hdest : dest.params.handle.length = sshMaxHandleSize + 4) (hsrc : Sound src) :
    Copied dest src ↔ Copyable dest src := by
  rw [← sameState_copyOf_iff hdest hsrc]
  unfold Copied
  rw [copyParamOptions_eq hdest hsrc]
  constructor
  · rintro ⟨copy, hcopy, hsame, -⟩
    obtain rfl := Except.ok.inj hcopy
    exact hsame
  · intro hsame
    refine ⟨copyOf dest src, rfl, hsame, fun r r' hr hr' => ?_⟩
    have hsize : (copyOf dest src).params.handle.length = src.params.handle.length := by
      have hlen := hsrc.handleSize
      simp only [copyOf, List.length_append, List.length_take, List.length_drop]
      omega
    exact (hsame.alike hsize rfl rfl rfl hr hr').operates

/-- The state of a new request. -/
def freshState : SshState where
  params := { handle := List.replicate 260 0, handleLen := 0, transferBuffer := none, id := 1,
              count := 0, message := SshMessage.freed, dontLogStatus := false, offset := 0 }
  transferBufferLen := 0
  initialized := false

/-- A request with the open file of the handle AB, behind the room for the number of a command and
the length of the handle. -/
def openState : SshState :=
  { freshState with
    params := { freshState.params with
      handle := [0, 0, 0, 0, 0, 0, 0, 2, 65, 66] ++ List.replicate 250 0
      handleLen := 10 }
    initialized := true }

theorem openState_size : openState.params.handle.length = sshMaxHandleSize + 4 := by
  show ([0, 0, 0, 0, 0, 0, 0, 2, 65, 66] ++ List.replicate 250 (0 : UInt8)).length = 260
  rw [List.length_append, List.length_replicate]
  rfl

/-- A request behind its seventh command, with a transfer buffer and the rest of a message. -/
def pendingState : SshState :=
  { freshState with
    params := { freshState.params with
      transferBuffer := some [1, 2, 3, 4]
      id := 7
      message := ⟨3, sshFxpData, some ([5, 6] ++ [0, 0]), 1, 2⟩
      offset := 9 }
    transferBufferLen := 4
    initialized := true }

/-- It is copied into a state whose transfer buffer had the same length. -/
theorem pending_state_copied : Copied { freshState with transferBufferLen := 4 } pendingState := by
  have hsound : Sound pendingState := by
    refine ⟨List.length_replicate, fun block hblock => ?_, .inr ⟨[5, 6], rfl, rfl⟩⟩
    obtain rfl := Option.some.inj hblock
    rfl
  exact (state_copied_iff _ pendingState List.length_replicate hsound).mpr ⟨rfl, .inr rfl, by decide⟩

/-- The handle of an open file is lost. -/
theorem open_handle_lost : ¬ Copied freshState openState := by
  rintro ⟨copy, hcopy, hsame, -⟩
  rw [copyParamOptions_eq List.length_replicate
    ⟨openState_size, fun _ h => absurd h.symm (Option.some_ne_none _), Or.inl rfl⟩] at hcopy
  obtain rfl := Except.ok.inj hcopy
  exact absurd hsame.handle (by decide)

end Copies

end Gftp.SshStateCopy
