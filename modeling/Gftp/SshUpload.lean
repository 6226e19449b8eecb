import Gftp.SshMessages

/-!
Uploading a file over SFTP. The transfer buffer is allocated for the first chunk of
a transfer and kept for the later ones, and the whole buffer is sent each time. The
calls of one transfer are framed when every packet holds the request number, the
handle string, the offset, the length and the chunk, and nothing else. They are
exactly when the buffer in place fits every chunk.
-/

namespace Gftp.SshUpload

open ByteStrings ByteStreams BigEndian Protocol SshMessages

/-- The word whose bytes in memory are the network order, on a little-endian host. -/
def htonl (n : UInt32) : UInt32 := (read32 (be32 n).reverse).getD 0

def sshv2SetupFileOffset (params : SshParams) (buf : Bytes) : CRun Bytes := do
  let buf ← overwrite buf params.handleLen (be32 (params.offset >>> 32).toUInt32)
  overwrite buf (params.handleLen + 4) (be32 params.offset.toUInt32)

/-- The buffer of the earlier calls, or a new one for a chunk of the given size. -/
def transferBuffer (params : SshParams) (size : ℕ) : CRun Bytes :=
  match params.transferBuffer with
  | some buf => .ok buf
  | none =>
      if params.handleLen ≤ params.handle.length then
        overwrite (List.replicate (params.handleLen + size + 12) 0) 0
          (params.handle.take params.handleLen)
      else .error .fault

def fillTransferBuffer (params : SshParams) (buf : Bytes) : CRun Bytes := do
  let block ← transferBuffer params buf.length
  let block ← overwrite block 0 (be32 params.id)
  let block ← sshv2SetupFileOffset params block
  let block ← overwrite block (params.handleLen + 8) (be32 (UInt32.ofNat buf.length))
  overwrite block (params.handleLen + 12) buf

/-- The first half of sshv2_put_next_file_chunk, up to the write. -/
def sendChunk (request : SshRequest) (buf : Bytes) (written : Except GftpError Unit) :
    CRun SendResult := do
  let block ← fillTransferBuffer request.params buf
  let params := { request.params with
    id := request.params.id + 1
    transferBuffer := some block }
  sshv2SendCommand { request with params := params } sshFxpWrite block written

structure PutResult where
  ret : Except GftpError ℕ
  request : SshRequest
  stream : Stream GftpError

/-- The second half: the response. When its status is not the expected one, num still
holds the size that was sent. -/
def readAck (request : SshRequest) (size : ℕ) (s : Stream GftpError) : CRun PutResult := do
  let params := { request.params with dontLogStatus := true }
  let r ← sshv2ReadResponse { request with params := params } s
  match r.ret with
  | .error e => return { ret := .error e, request := r.request, stream := r.stream }
  | .ok command =>
      let params := { r.request.params with dontLogStatus := false }
      let request := { r.request with params := params }
      if command ≠ sshFxpStatus then
        let wrong := sshv2WrongResponse ℕ request
        return { ret := wrong.value, request := wrong.request, stream := r.stream }
      else
        let message := { r.message with pos := r.message.pos + 4 }
        let status ← sshv2BufferGetInt32 request message (some sshFxOk)
        match status.value with
        | .error e =>
            let num := htonl (UInt32.ofNat size)
            return { ret := if num = sshFxEof then .ok 0 else .error e,
                     request := status.request, stream := r.stream }
        | .ok _ =>
            let params := { status.request.params with
              offset := status.request.params.offset + UInt64.ofNat size }
            return { ret := .ok size, request := { status.request with params := params },
                     stream := r.stream }

def sshv2PutNextFileChunk (request : SshRequest) (buf : Bytes)
    (written : Except GftpError Unit) (s : Stream GftpError) : CRun PutResult :=
  if request.connected = false then
    .ok { ret := .error .fatal, request := request, stream := s }
  else do
    let r ← sendChunk request buf written
    match r.ret with
    | .error e => return { ret := .error e, request := r.request, stream := s }
    | .ok () => readAck r.request buf.length s

/-- The handle string, without the room for the request number. -/
def handleString (params : SshParams) : Bytes := (params.handle.take params.handleLen).drop 4

/-- The body of a WRITE message. -/
def writeBody (id : UInt32) (handle : Bytes) (offset : UInt64) (data : Bytes) : Bytes :=
  be32 id ++ (handle ++ (be64 offset ++ (be32 (UInt32.ofNat data.length) ++ data)))

/-- What a call that returned has added to the offset. -/
def acknowledged (ret : Except GftpError ℕ) : UInt64 :=
  match ret with
  | .ok n => UInt64.ofNat n
  | .error _ => 0

structure PutCall where
  chunk : Bytes
  written : Except GftpError Unit

/-- Every call of a transfer that finds the request connected sends exactly its chunk
under the expected number, handle string and offset. -/
def Framed (handle : Bytes) (id : UInt32) (offset : UInt64) :
    SshRequest → Stream GftpError → List PutCall → Prop
  | _, _, [] => True
  | request, s, call :: rest =>
      request.connected = true →
        (∃ r, sendChunk request call.chunk call.written = .ok r ∧
          r.sent = some (frame sshFxpWrite (writeBody id handle offset call.chunk))) ∧
        ∀ r, sshv2PutNextFileChunk request call.chunk call.written s = .ok r →
          Framed handle (id + 1) (offset + acknowledged r.ret) r.request r.stream rest

def BufferFits (params : SshParams) (chunks : List Bytes) : Prop :=
  (∀ c ∈ chunks, params.handleLen + 12 + c.length ≠ 33995) ∧
    match params.transferBuffer with
    | none => ∀ c ∈ chunks, ∀ c' ∈ chunks, c.length = c'.length
    | some buf => ∀ c ∈ chunks, buf.length = params.handleLen + 12 + c.length ∧
        (buf.take params.handleLen).drop 4 = handleString params

theorem exists_split {l : Bytes} {n : ℕ} (h : n ≤ l.length) :
    ∃ a r, l = a ++ r ∧ a.length = n :=
  ⟨l.take n, l.drop n, (List.take_append_drop n l).symm, List.length_take_of_le h⟩

theorem fill_eq {params : SshParams} {chunk block : Bytes} (h : 4 ≤ params.handleLen)
    (hblock : transferBuffer params chunk.length = .ok block)
    (hroom : params.handleLen + 12 + chunk.length ≤ block.length) :
    fillTransferBuffer params chunk =
      .ok (writeBody params.id ((block.take params.handleLen).drop 4) params.offset chunk ++
        block.drop (params.handleLen + 12 + chunk.length)) := by
  obtain ⟨num, block, rfl, hnum⟩ := exists_split (n := 4) (l := block) (by omega)
  obtain ⟨handle, block, rfl, hhandle⟩ := exists_split (n := params.handleLen - 4) (l := block) (by
    simp only [List.length_append] at hroom
    omega)
  obtain ⟨hi, block, rfl, hhi⟩ := exists_split (n := 4) (l := block) (by
    simp only [List.length_append] at hroom
    omega)
  obtain ⟨lo, block, rfl, hlo⟩ := exists_split (n := 4) (l := block) (by
    simp only [List.length_append] at hroom
    omega)
  obtain ⟨size, block, rfl, hsize⟩ := exists_split (n := 4) (l := block) (by
    simp only [List.length_append] at hroom
    omega)
  obtain ⟨data, tail, rfl, hdata⟩ := exists_split (n := chunk.length) (l := block) (by
    simp only [List.length_append] at hroom
    omega)
  have hmid : ((num ++ (handle ++ (hi ++ (lo ++ (size ++ (data ++ tail)))))).take
      params.handleLen).drop 4 = handle := by
    rw [← List.append_assoc, List.take_append_of_le_length (by
      simp only [List.length_append]; omega), List.take_of_length_le (by
      simp only [List.length_append]; omega), ← hnum, List.drop_left]
  have htail : (num ++ (handle ++ (hi ++ (lo ++ (size ++ (data ++ tail)))))).drop
      (params.handleLen + 12 + chunk.length) = tail := by
    simp only [← List.append_assoc]
    rw [List.drop_append_of_le_length (by simp only [List.length_append]; omega),
      List.drop_of_length_le (by simp only [List.length_append]; omega), List.nil_append]
  rw [hmid, htail]
  have hpre : (be32 params.id ++ handle).length = params.handleLen := by
    simp only [List.length_append, be32_length]
    omega
  have write_num := @overwrite_middle [] num (handle ++ (hi ++ (lo ++ (size ++ (data ++ tail)))))
    (be32 params.id) 0 rfl (by simp [hnum])
  have write_hi := @overwrite_middle (be32 params.id ++ handle) hi
    (lo ++ (size ++ (data ++ tail))) (be32 (params.offset >>> 32).toUInt32)
    params.handleLen hpre.symm (by simp [hhi])
  have write_lo := @overwrite_middle
    (be32 params.id ++ handle ++ be32 (params.offset >>> 32).toUInt32) lo
    (size ++ (data ++ tail)) (be32 params.offset.toUInt32) (params.handleLen + 4)
    (by rw [List.length_append, hpre, be32_length]) (by simp [hlo])
  have write_size := @overwrite_middle (be32 params.id ++ handle ++ be64 params.offset) size
    (data ++ tail) (be32 (UInt32.ofNat chunk.length)) (params.handleLen + 8)
    (by rw [List.length_append, hpre, be64_length]) (by simp [hsize])
  have write_data := @overwrite_middle
    (be32 params.id ++ handle ++ be64 params.offset ++ be32 (UInt32.ofNat chunk.length)) data
    tail chunk (params.handleLen + 12)
    (by rw [List.length_append, List.length_append, hpre, be64_length, be32_length]) hdata.symm
  simp only [be64, List.nil_append, List.append_assoc]
    at write_num write_hi write_lo write_size write_data
  unfold fillTransferBuffer sshv2SetupFileOffset
  simp only [hblock, CRun.ok_bind, write_num, write_hi, write_lo, write_size, write_data,
    writeBody, be64, List.append_assoc]

theorem fill_room {params : SshParams} {chunk out : Bytes}
    (h : fillTransferBuffer params chunk = .ok out) :
    ∃ block, transferBuffer params chunk.length = .ok block ∧
      params.handleLen + 12 + chunk.length ≤ block.length := by
  unfold fillTransferBuffer sshv2SetupFileOffset at h
  obtain ⟨b₀, hblock, h⟩ := CRun.bind_eq_ok.mp h
  obtain ⟨b₁, h₁, h⟩ := CRun.bind_eq_ok.mp h
  obtain ⟨b₃, h₃, h⟩ := CRun.bind_eq_ok.mp h
  obtain ⟨b₂, h₂, h₃⟩ := CRun.bind_eq_ok.mp h₃
  obtain ⟨b₄, h₄, h₅⟩ := CRun.bind_eq_ok.mp h
  refine ⟨b₀, hblock, ?_⟩
  rw [← overwrite_length h₁, ← overwrite_length h₂, ← overwrite_length h₃, ← overwrite_length h₄]
  exact (overwrite_eq_ok_iff.mp h₅).1

theorem handleString_length {params : SshParams} (h : HandleStored params) :
    (handleString params).length = params.handleLen - 4 := by
  simp only [handleString, List.length_drop, List.length_take_of_le h.upper]

theorem writeBody_length (id : UInt32) (handle : Bytes) (offset : UInt64) (data : Bytes) :
    (writeBody id handle offset data).length = handle.length + 16 + data.length := by
  simp only [writeBody, List.length_append, be32_length, be64_length]
  omega

theorem writeBody_handle {id : UInt32} {handle : Bytes} {offset : UInt64} {data : Bytes} {n : ℕ}
    (h : n = handle.length + 4) : ((writeBody id handle offset data).take n).drop 4 = handle := by
  subst h
  rw [List.drop_take, Nat.add_sub_cancel]
  exact List.take_left' (by rfl)

/-- The buffer has the size the chunk needs and holds the handle string. -/
def Fits (params : SshParams) (block chunk : Bytes) : Prop :=
  block.length = params.handleLen + 12 + chunk.length ∧
    (block.take params.handleLen).drop 4 = handleString params

/-- The buffer after a call with room is sent whole, so the packet is the expected one
exactly when the buffer has no other bytes. -/
theorem filled_eq_body_iff {params : SshParams} {block chunk : Bytes}
    (hstored : HandleStored params)
    (hroom : params.handleLen + 12 + chunk.length ≤ block.length) :
    writeBody params.id ((block.take params.handleLen).drop 4) params.offset chunk ++
        block.drop (params.handleLen + 12 + chunk.length) =
      writeBody params.id (handleString params) params.offset chunk ↔
      block.length = params.handleLen + 12 + chunk.length ∧
        (block.take params.handleLen).drop 4 = handleString params := by
  have hlower := hstored.lower
  have hstring := handleString_length hstored
  have hpart : ((block.take params.handleLen).drop 4).length = params.handleLen - 4 := by
    rw [List.length_drop, List.length_take_of_le (by omega)]
  constructor
  · intro heq
    have hlen := congrArg List.length heq
    rw [List.length_append, writeBody_length, writeBody_length, hpart, hstring,
      List.length_drop] at hlen
    have hsize : block.length = params.handleLen + 12 + chunk.length := by omega
    have htail : block.drop (params.handleLen + 12 + chunk.length) = [] :=
      List.drop_of_length_le (by omega)
    rw [htail, List.append_nil] at heq
    have hmid := congrArg (fun l => (l.take params.handleLen).drop 4) heq
    rw [writeBody_handle (by omega), writeBody_handle (by omega)] at hmid
    exact ⟨hsize, hmid⟩
  · rintro ⟨hsize, hmid⟩
    have htail : block.drop (params.handleLen + 12 + chunk.length) = [] :=
      List.drop_of_length_le (by omega)
    rw [hmid, htail, List.append_nil]

theorem logWrite_ok {command : Bytes} (hlen : 4 ≤ command.length) (dontLogStatus : Bool) :
    sshv2LogCommand dontLogStatus sshFxpWrite (command ++ [0]) = .ok () :=
  logCommand_ok (by simp) (by simp only [List.length_append]; omega) (fun h => absurd h (by decide))

theorem filled_length {params : SshParams} {block chunk : Bytes} (hlower : 4 ≤ params.handleLen)
    (hroom : params.handleLen + 12 + chunk.length ≤ block.length) :
    (writeBody params.id ((block.take params.handleLen).drop 4) params.offset chunk ++
      block.drop (params.handleLen + 12 + chunk.length)).length = block.length := by
  rw [List.length_append, writeBody_length, List.length_drop, List.length_drop,
    List.length_take_of_le (by omega)]
  omega

/-- The request after a chunk was handed to the connection. -/
def afterSend (request : SshRequest) (chunk : Bytes) : SshRequest :=
  { request with
    params := { request.params with
      id := request.params.id + 1
      transferBuffer := some (writeBody request.params.id (handleString request.params)
        request.params.offset chunk) } }

/-- On a buffer that fits, the call sends the expected packet. -/
theorem sendChunk_eq {request : SshRequest} {chunk block : Bytes}
    (hstored : HandleStored request.params)
    (hblock : transferBuffer request.params chunk.length = .ok block)
    (hlen : block.length < 33995) (hfits : Fits request.params block chunk)
    (written : Except GftpError Unit) :
    sendChunk request chunk written = .ok
      { ret := written
        sent := some (frame sshFxpWrite (writeBody request.params.id
          (handleString request.params) request.params.offset chunk))
        request := match written with
          | .error _ => gftpDisconnect (afterSend request chunk)
          | .ok () => afterSend request chunk } := by
  have hroom := hfits.1.ge
  have hfilled := filled_length hstored.lower hroom
  have hbody := (filled_eq_body_iff hstored hroom).mpr hfits
  have hlower := hstored.lower
  rw [hbody] at hfilled
  unfold sendChunk
  rw [fill_eq hlower hblock hroom, CRun.ok_bind, hbody,
    sendCommand_eq written (by omega) (logWrite_ok (by omega) _)]
  rfl

/-- The packet of a call is the expected one exactly when the buffer fits the chunk. -/
theorem sendChunk_framed_iff {request : SshRequest} {chunk block : Bytes}
    (hstored : HandleStored request.params)
    (hblock : transferBuffer request.params chunk.length = .ok block)
    (written : Except GftpError Unit) :
    (∃ r, sendChunk request chunk written = .ok r ∧
      r.sent = some (frame sshFxpWrite (writeBody request.params.id
        (handleString request.params) request.params.offset chunk))) ↔
      block.length < 33995 ∧ Fits request.params block chunk := by
  have hlower := hstored.lower
  constructor
  · rintro ⟨r, hsend, hsent⟩
    obtain ⟨out, hfill, hsend⟩ := CRun.bind_eq_ok.mp hsend
    obtain ⟨block', hblock', hroom⟩ := fill_room hfill
    obtain rfl : block = block' := Except.ok.inj (hblock.symm.trans hblock')
    obtain rfl := Except.ok.inj (hfill.symm.trans (fill_eq hlower hblock hroom))
    have hlen := filled_length hlower hroom
    rcases Nat.lt_trichotomy block.length 33995 with hlt | heq | hgt
    · rw [sendCommand_eq written (by omega) (logWrite_ok (by omega) _)] at hsend
      obtain rfl := Except.ok.inj hsend
      exact ⟨hlt, (filled_eq_body_iff hstored hroom).mp (frame_injective (Option.some.inj hsent))⟩
    · rw [sendCommand_fault written (by omega)] at hsend
      simp at hsend
    · rw [sendCommand_tooLong written (by omega)] at hsend
      obtain rfl := Except.ok.inj hsend
      simp at hsent
  · rintro ⟨hlt, hfits⟩
    exact ⟨_, sendChunk_eq hstored hblock hlt hfits written, rfl⟩

theorem transferBuffer_none {params : SshParams} (hstored : HandleStored params)
    (hnone : params.transferBuffer = none) (chunk : Bytes) :
    ∃ block, transferBuffer params chunk.length = .ok block ∧ Fits params block chunk := by
  have htake : (params.handle.take params.handleLen).length = params.handleLen :=
    List.length_take_of_le hstored.upper
  unfold transferBuffer
  rw [hnone]
  dsimp only
  rw [if_pos hstored.upper, overwrite_ok (by rw [htake, List.length_replicate]; omega)]
  refine ⟨_, rfl, ?_, ?_⟩
  · simp only [List.take_zero, List.nil_append, List.length_append, List.length_drop, htake,
      List.length_replicate]
    omega
  · rw [List.take_zero, List.nil_append, List.take_left' htake]
    rfl

/-- What later calls of the transfer read of the request. -/
def uploadFields (request : SshRequest) : Bytes × ℕ × Option Bytes × UInt32 × UInt64 :=
  (request.params.handle, request.params.handleLen, request.params.transferBuffer,
    request.params.id, request.params.offset)

/-- The response changes nothing but the offset, by what it acknowledges. -/
theorem readAck_fields {request : SshRequest} {size : ℕ} {s : Stream GftpError} {r : PutResult}
    (h : readAck request size s = .ok r) :
    uploadFields r.request = (request.params.handle, request.params.handleLen,
      request.params.transferBuffer, request.params.id,
      request.params.offset + acknowledged r.ret) := by
  unfold readAck at h
  obtain ⟨read, hread, h⟩ := CRun.bind_eq_ok.mp h
  have hkeep : uploadFields read.request = uploadFields request := by
    rcases readResponse_request hread with hreq | hreq
    · rw [hreq]
      rfl
    · rw [hreq]
      rfl
  have hsame : ∀ e : GftpError, uploadFields request = (request.params.handle,
      request.params.handleLen, request.params.transferBuffer, request.params.id,
      request.params.offset + acknowledged (.error e)) := by
    intro e
    simp [uploadFields, acknowledged]
  cases hret : read.ret with
  | error e =>
    rw [hret] at h
    obtain rfl := Except.ok.inj h
    exact hkeep.trans (hsame e)
  | ok command =>
    rw [hret] at h
    dsimp only at h
    by_cases hstatus : command ≠ sshFxpStatus
    · rw [if_pos hstatus] at h
      obtain rfl := Except.ok.inj h
      exact hkeep.trans (hsame .fatal)
    · rw [if_neg hstatus] at h
      obtain ⟨status, hstatus, h⟩ := CRun.bind_eq_ok.mp h
      have hkeep' : uploadFields status.request = uploadFields read.request := by
        rcases getInt32_request hstatus with hreq | hreq
        · rw [hreq]
          rfl
        · rw [hreq]
          rfl
      cases hvalue : status.value with
      | error e =>
        rw [hvalue] at h
        obtain rfl := Except.ok.inj h
        have hack : acknowledged (if htonl (UInt32.ofNat size) = sshFxEof then .ok 0
            else .error e) = 0 := by
          split_ifs <;> rfl
        rw [hack]
        exact (hkeep'.trans hkeep).trans (hsame e)
      | ok _ =>
        rw [hvalue] at h
        obtain rfl := Except.ok.inj h
        have hall := hkeep'.trans hkeep
        simp only [uploadFields, Prod.mk.injEq] at hall ⊢
        obtain ⟨h1, h2, h3, h4, h5⟩ := hall
        exact ⟨h1, h2, h3, h4, by rw [h5]; rfl⟩

/-- One call on a buffer that fits: the next call finds the handle, the buffer's size
and handle string as they were, and the number and the offset advanced. -/
theorem put_fields {request : SshRequest} {chunk block : Bytes} {written : Except GftpError Unit}
    {s : Stream GftpError} {r : PutResult} (hstored : HandleStored request.params)
    (hconn : request.connected = true)
    (hblock : transferBuffer request.params chunk.length = .ok block)
    (hlen : block.length < 33995) (hfits : Fits request.params block chunk)
    (h : sshv2PutNextFileChunk request chunk written s = .ok r) :
    uploadFields r.request = (request.params.handle, request.params.handleLen,
      some (writeBody request.params.id (handleString request.params) request.params.offset chunk),
      request.params.id + 1, request.params.offset + acknowledged r.ret) := by
  unfold sshv2PutNextFileChunk at h
  rw [if_neg (by simp [hconn]), sendChunk_eq hstored hblock hlen hfits written,
    CRun.ok_bind] at h
  cases written with
  | error e =>
    obtain rfl := Except.ok.inj h
    simp [uploadFields, afterSend, gftpDisconnect, acknowledged]
  | ok _ => exact readAck_fields h

/-- The response that accepts a chunk. -/
def okReply : Bytes := frame sshFxpStatus (be32 0 ++ be32 sshFxOk)

theorem readAck_ok {request : SshRequest} {rest : Bytes} {s : Stream GftpError} (size : ℕ)
    (hs : Plain s) (hc : contents s = okReply ++ rest) :
    ∃ s', readAck request size s = .ok
        { ret := .ok size
          request := { request with
            params := { request.params with
              dontLogStatus := false
              offset := request.params.offset + UInt64.ofNat size } }
          stream := s' } ∧
      contents s' = rest ∧ Plain s' := by
  let waiting : SshRequest := { request with
    params := { request.params with dontLogStatus := true } }
  obtain ⟨s', hread, hrest, hs'⟩ := @readResponse_frame waiting _ _ _ _ hs hc (by decide)
    (logCommand_ok (by simp) (by decide) (by decide))
  refine ⟨s', ?_, hrest, hs'⟩
  unfold readAck
  dsimp only
  rw [hread, CRun.ok_bind]
  rfl

/-- A chunk that fits and is accepted is followed by a call on a connected request. -/
theorem put_acked {request : SshRequest} {chunk block rest : Bytes} {s : Stream GftpError}
    (hstored : HandleStored request.params) (hconn : request.connected = true)
    (hblock : transferBuffer request.params chunk.length = .ok block)
    (hlen : block.length < 33995) (hfits : Fits request.params block chunk)
    (hs : Plain s) (hc : contents s = okReply ++ rest) :
    ∃ r, sshv2PutNextFileChunk request chunk (.ok ()) s = .ok r ∧ r.ret = .ok chunk.length ∧
      r.request.connected = true ∧ contents r.stream = rest ∧ Plain r.stream := by
  obtain ⟨s', hack, hrest, hs'⟩ :=
    @readAck_ok (afterSend request chunk) rest s chunk.length hs hc
  unfold sshv2PutNextFileChunk
  rw [if_neg (by simp [hconn]), sendChunk_eq hstored hblock hlen hfits, CRun.ok_bind]
  exact ⟨_, hack, rfl, hconn, hrest, hs'⟩

/-- The buffer in place for a chunk, when it fits every chunk. -/
theorem BufferFits.head {params : SshParams} {chunk : Bytes} {chunks : List Bytes}
    (hstored : HandleStored params) (h : BufferFits params (chunk :: chunks)) :
    ∃ block, transferBuffer params chunk.length = .ok block ∧ block.length ≠ 33995 ∧
      Fits params block chunk := by
  obtain ⟨hne, hbuffer⟩ := h
  have hne := hne chunk (List.mem_cons_self ..)
  cases hkind : params.transferBuffer with
  | none =>
    obtain ⟨block, hblock, hfits⟩ := transferBuffer_none hstored hkind chunk
    exact ⟨block, hblock, by rw [hfits.1]; exact hne, hfits⟩
  | some block =>
    rw [hkind] at hbuffer
    have hfits := hbuffer chunk (List.mem_cons_self ..)
    exact ⟨block, by rw [transferBuffer, hkind], by rw [hfits.1]; exact hne, hfits⟩

/-- Once a chunk was sent from a buffer that fits it, the buffer fits all chunks
exactly when it fits the later ones. -/
theorem bufferFits_cons {params params' : SshParams} {chunk block : Bytes} {chunks : List Bytes}
    {id : UInt32} {offset : UInt64} (hstored : HandleStored params)
    (hblock : transferBuffer params chunk.length = .ok block)
    (hlen : block.length ≠ 33995) (hfits : Fits params block chunk)
    (hhandle : params'.handle = params.handle) (hhandleLen : params'.handleLen = params.handleLen)
    (hbuffer : params'.transferBuffer =
      some (writeBody id (handleString params) offset chunk)) :
    BufferFits params (chunk :: chunks) ↔ BufferFits params' chunks := by
  have hlower := hstored.lower
  have hstring := handleString_length hstored
  have hbody : (writeBody id (handleString params) offset chunk).length =
      params.handleLen + 12 + chunk.length := by
    rw [writeBody_length, hstring]
    omega
  have hsize := hfits.1
  have hlater : BufferFits params' chunks ↔ ∀ c ∈ chunks, c.length = chunk.length := by
    have hname : handleString params' = handleString params := by
      unfold handleString
      rw [hhandle, hhandleLen]
    unfold BufferFits
    rw [hbuffer, hhandleLen, hname]
    dsimp only
    rw [hbody, writeBody_handle (by omega)]
    constructor
    · rintro ⟨_, h⟩ c hc
      have hc := (h c hc).1
      omega
    · intro h
      refine ⟨fun c hc => ?_, fun c hc => ⟨?_, rfl⟩⟩
      · rw [h c hc]
        omega
      · rw [h c hc]
  rw [hlater]
  unfold BufferFits
  cases hkind : params.transferBuffer with
  | none =>
    dsimp only
    constructor
    · rintro ⟨_, h⟩ c hc
      exact h c (List.mem_cons_of_mem _ hc) chunk (List.mem_cons_self ..)
    · intro h
      have hall : ∀ c ∈ chunk :: chunks, c.length = chunk.length := by
        intro c hc
        rcases List.mem_cons.mp hc with rfl | hc
        · rfl
        · exact h c hc
      refine ⟨fun c hc => ?_, fun c hc c' hc' => (hall c hc).trans (hall c' hc').symm⟩
      rw [hall c hc]
      omega
  | some buf =>
    obtain rfl : buf = block := by
      rw [transferBuffer, hkind] at hblock
      exact Except.ok.inj hblock
    dsimp only
    constructor
    · rintro ⟨_, h⟩ c hc
      have hc := (h c (List.mem_cons_of_mem _ hc)).1
      omega
    · intro h
      have hall : ∀ c ∈ chunk :: chunks, c.length = chunk.length := by
        intro c hc
        rcases List.mem_cons.mp hc with rfl | hc
        · rfl
        · exact h c hc
      refine ⟨fun c hc => ?_, fun c hc => ⟨?_, hfits.2⟩⟩
      · rw [hall c hc]
        omega
      · rw [hall c hc]
        omega

/-- A transfer whose chunks are all accepted is framed only when the buffer fits. -/
theorem fits_of_framed {chunks : List Bytes} {request : SshRequest} {s : Stream GftpError}
    (hstored : HandleStored request.params) (hconn : request.connected = true)
    (hs : Plain s) (hc : contents s = (chunks.map fun _ => okReply).flatten)
    (h : Framed (handleString request.params) request.params.id request.params.offset request s
      (chunks.map fun c => ⟨c, .ok ()⟩)) :
    BufferFits request.params chunks := by
  induction chunks generalizing request s with
  | nil =>
    refine ⟨by simp, ?_⟩
    cases request.params.transferBuffer <;> simp
  | cons chunk chunks ih =>
    obtain ⟨hsent, hnext⟩ := h hconn
    obtain ⟨block, hblock⟩ : ∃ block, transferBuffer request.params chunk.length = .ok block := by
      obtain ⟨_, hsend, _⟩ := hsent
      obtain ⟨_, hfill, _⟩ := CRun.bind_eq_ok.mp hsend
      obtain ⟨block, hblock, _⟩ := fill_room hfill
      exact ⟨block, hblock⟩
    obtain ⟨hlen, hfits⟩ := (sendChunk_framed_iff hstored hblock (.ok ())).mp hsent
    obtain ⟨r, hput, hret, hconn', hc', hs'⟩ := put_acked hstored hconn hblock hlen hfits hs hc
    have hfields := put_fields hstored hconn hblock hlen hfits hput
    simp only [uploadFields, Prod.mk.injEq] at hfields
    obtain ⟨hhandle, hhandleLen, hbuffer, hid, hoffset⟩ := hfields
    have hname : handleString r.request.params = handleString request.params := by
      unfold handleString
      rw [hhandle, hhandleLen]
    apply (bufferFits_cons hstored hblock hlen.ne hfits hhandle hhandleLen hbuffer).mpr
    refine ih ⟨by rw [hhandleLen]; exact hstored.lower, by
      rw [hhandle, hhandleLen]; exact hstored.upper⟩ hconn' hs' hc' ?_
    rw [hname, hid, hoffset]
    exact hnext r hput

theorem framed_of_fits {calls : List PutCall} {request : SshRequest} {s : Stream GftpError}
    (hstored : HandleStored request.params)
    (hlimit : ∀ c ∈ calls, request.params.handleLen + 12 + c.chunk.length ≤ 33995)
    (hfits : BufferFits request.params (calls.map PutCall.chunk)) :
    Framed (handleString request.params) request.params.id request.params.offset request s
      calls := by
  induction calls generalizing request s with
  | nil => trivial
  | cons call calls ih =>
    intro hconn
    obtain ⟨block, hblock, hne, hblockFits⟩ := hfits.head hstored
    have hlen : block.length < 33995 := by
      have hcall := hlimit call (List.mem_cons_self ..)
      have hsize := hblockFits.1
      omega
    refine ⟨(sendChunk_framed_iff hstored hblock call.written).mpr ⟨hlen, hblockFits⟩, ?_⟩
    intro r hput
    have hfields := put_fields hstored hconn hblock hlen hblockFits hput
    simp only [uploadFields, Prod.mk.injEq] at hfields
    obtain ⟨hhandle, hhandleLen, hbuffer, hid, hoffset⟩ := hfields
    have hname : handleString r.request.params = handleString request.params := by
      unfold handleString
      rw [hhandle, hhandleLen]
    rw [← hname, ← hid, ← hoffset]
    refine ih ⟨by rw [hhandleLen]; exact hstored.lower, by
      rw [hhandle, hhandleLen]; exact hstored.upper⟩ ?_ ?_
    · intro c hc
      rw [hhandleLen]
      exact hlimit c (List.mem_cons_of_mem _ hc)
    · exact (bufferFits_cons hstored hblock hne hblockFits hhandle hhandleLen hbuffer).mp hfits

/-- The calls of one transfer are framed, whatever the connection and the server do,
exactly when the transfer buffer fits every chunk. -/
theorem upload_framed_iff (request : SshRequest) (chunks : List Bytes)
    (hstored : HandleStored request.params) (hconn : request.connected = true)
    (hlimit : ∀ c ∈ chunks, request.params.handleLen + 12 + c.length ≤ 33995) :
    (∀ calls s, calls.map PutCall.chunk = chunks →
      Framed (handleString request.params) request.params.id request.params.offset request s
        calls) ↔
      BufferFits request.params chunks := by
  constructor
  · intro h
    have hplain : ∀ cs : List Bytes, Plain (cs.map fun _ => (.ok okReply : Except GftpError Bytes)) ∧
        contents (cs.map fun _ => (.ok okReply : Except GftpError Bytes)) =
          (cs.map fun _ => okReply).flatten := by
      intro cs
      induction cs with
      | nil => exact ⟨plain_nil, rfl⟩
      | cons c cs ih => exact ⟨plain_cons.mpr ⟨by decide, ih.1⟩, congrArg (okReply ++ ·) ih.2⟩
    refine fits_of_framed hstored hconn (hplain chunks).1 (hplain chunks).2 (h _ _ ?_)
    simp [Function.comp_def]
  · rintro hfits calls s rfl
    exact framed_of_fits hstored (fun c hc => hlimit c.chunk (List.mem_map_of_mem hc)) hfits

/-- A session with the handle abcd open and no transfer buffer. -/
def opened : SshRequest where
  params := {
    handle := [0, 0, 0, 0] ++ be32 4 ++ ascii "abcd" ++ List.replicate 248 0
    handleLen := 12
    transferBuffer := none
    id := 7
    count := 0
    message := SshMessage.freed
    dontLogStatus := false
    offset := 0 }
  connected := true
  cached := false
  lastDirEntry := none

set_option maxRecDepth 2000 in
theorem opened_stored : HandleStored opened.params := ⟨by decide, by decide⟩

/-- Two chunks of two bytes are sent as two writes, at the offsets 0 and 2. -/
theorem upload_framed_equal_chunks :
    Framed (be32 4 ++ ascii "abcd") 7 0 opened [.ok okReply, .ok okReply]
      [⟨[1, 2], .ok ()⟩, ⟨[3, 4], .ok ()⟩] := by
  have hfits : BufferFits opened.params [[1, 2], [3, 4]] := by
    refine ⟨by decide, ?_⟩
    change ∀ c ∈ [[1, 2], [3, 4]], ∀ c' ∈ [[1, 2], [3, 4]], c.length = c'.length
    decide
  exact (upload_framed_iff opened [[1, 2], [3, 4]] opened_stored rfl (by decide)).mpr hfits _ _ rfl

/-- After a chunk of two bytes, a chunk of one byte is sent with a byte left over. -/
theorem shorter_chunk_not_framed :
    ¬ ∀ (request : SshRequest) (chunks : List Bytes), HandleStored request.params →
      request.connected = true → request.params.transferBuffer = none →
      (∀ c ∈ chunks, request.params.handleLen + 12 + c.length ≤ 33995) →
      ∀ calls s, calls.map PutCall.chunk = chunks →
        Framed (handleString request.params) request.params.id request.params.offset request s
          calls := by
  intro h
  have hframed := h opened [[1, 2], [3]] opened_stored rfl rfl (by decide)
    ([[1, 2], [3]].map fun c => ⟨c, .ok ()⟩) [.ok okReply, .ok okReply] rfl
  have hfits := fits_of_framed (s := [.ok okReply, .ok okReply]) opened_stored rfl
    (plain_cons.mpr ⟨by decide, plain_cons.mpr ⟨by decide, plain_nil⟩⟩) rfl hframed
  have hequal : ([1, 2] : Bytes).length = ([3] : Bytes).length :=
    hfits.2 [1, 2] (by simp) [3] (by simp)
  simp at hequal

end Gftp.SshUpload
