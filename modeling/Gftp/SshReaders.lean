import Gftp.SshFraming

/-!
The functions of sshv2.c that read a response at fixed places: the status code, the
handle string of a file or a directory and the data of a chunk. What they read of the
payload, what they write to an array and the unsigned differences they compute are
listed with their result, and the messages on which all of it is sound are stated.
-/

namespace Gftp.SshReaders

open ByteStrings ByteStreams BigEndian Protocol SshMessages SshAttributes SshFraming

variable {α : Type}

/-- Bytes read of a payload, bytes written to an array, and a difference of two words. -/
inductive Access
  | reads (off len : ℕ)
  | writes (size off len : ℕ)
  | subtracts (a b : ℕ)

/-- The access stays inside a payload of so many bytes and inside its array, or the
difference does not wrap around. -/
def Access.Sound (payload : ℕ) : Access → Prop
  | .reads off len => off + len ≤ payload
  | .writes size off len => off + len ≤ size
  | .subtracts a b => b ≤ a

@[simp] theorem Access.sound_reads {payload off len : ℕ} :
    (Access.reads off len).Sound payload ↔ off + len ≤ payload := Iff.rfl

@[simp] theorem Access.sound_writes {payload size off len : ℕ} :
    (Access.writes size off len).Sound payload ↔ off + len ≤ size := Iff.rfl

@[simp] theorem Access.sound_subtracts {payload a b : ℕ} :
    (Access.subtracts a b).Sound payload ↔ b ≤ a := Iff.rfl

/-- A result with what was done to compute it. -/
structure Use (α : Type) where
  accesses : List Access
  value : α

def Use.Sound (payload : ℕ) (u : Use α) : Prop := ∀ a ∈ u.accesses, a.Sound payload

/-- The difference of two 32-bit lengths. -/
def wordSub (a b : ℕ) : ℕ := if b ≤ a then a - b else a + 2 ^ 32 - b

/-- The word at buffer + 4. -/
def secondWord (message : SshMessage) : UInt32 :=
  (read32 ((message.buffer.getD []).drop 4)).getD 0

/-- A retryable response carries a status code. -/
def statusOf (fxpIsRetryable fxpIsWrong : UInt8) (request : SshRequest) (message : SshMessage)
    (command : UInt8) : Use (Taken UInt8) :=
  if 0 < fxpIsRetryable ∧ command = fxpIsRetryable then
    { accesses := [.reads 4 4]
      value := {
        value := .error (if secondWord message = sshFxPermissionDenied then .fatal else .retryable)
        message := SshMessage.freed
        request := request } }
  else if 0 < fxpIsWrong ∧ command ≠ fxpIsWrong then
    { accesses := [], value := sshv2WrongResponse UInt8 request }
  else { accesses := [], value := { value := .ok command, message := message, request := request } }

def sshv2ReadStatusResponse (fxpIsRetryable fxpIsWrong : UInt8) (request : SshRequest)
    (s : Stream GftpError) : CRun (Use (Taken UInt8) × Stream GftpError) := do
  let r ← sshv2ReadResponse request s
  match r.ret with
  | .error e =>
      return ({ accesses := []
                value := { value := .error e, message := r.message, request := r.request } },
              r.stream)
  | .ok command => return (statusOf fxpIsRetryable fxpIsWrong r.request r.message command, r.stream)

/-- The handle string is copied behind the room for a request number. -/
def copyHandle (tooBig : GftpError) (request : SshRequest) (message : SshMessage) :
    Use (CRun (Except GftpError Unit × SshRequest)) where
  accesses :=
    .subtracts message.length 4 ::
      if sshMaxHandleSize < wordSub message.length 4 then []
      else [.writes (sshMaxHandleSize + 4) 0 4, .subtracts message.length 5,
        .reads 4 (wordSub message.length 5),
        .writes (sshMaxHandleSize + 4) 4 (wordSub message.length 5),
        .subtracts message.length 1]
  value := sshv2StoreHandle request message tooBig

/-- What sshv2_list_files and sshv2_open_file do with the response to their command. A
handle that is too big is fatal for the one and retryable for the other. -/
def receiveHandle (tooBig : GftpError) (request : SshRequest) (s : Stream GftpError) :
    CRun (Use (CRun (Except GftpError Unit × SshRequest)) × Stream GftpError) := do
  let (status, s) ← sshv2ReadStatusResponse sshFxpStatus sshFxpHandle request s
  match status.value.value with
  | .error e =>
      return ({ accesses := status.accesses, value := .ok (.error e, status.value.request) }, s)
  | .ok _ =>
      let handle := copyHandle tooBig status.value.request status.value.message
      return ({ accesses := status.accesses ++ handle.accesses, value := handle.value }, s)

/-- The bytes of a data message, when the caller's buffer holds them. -/
def copyData (size : ℕ) (request : SshRequest) (message : SshMessage) :
    Use (Except GftpError Bytes × SshRequest) :=
  let num := (secondWord message).toNat
  if size < num then
    { accesses := [.reads 4 4], value := (.error .retryable, gftpDisconnect request) }
  else
    { accesses := [.reads 4 4, .reads 8 num, .writes size 0 num]
      value := (.ok (((message.buffer.getD []).drop 8).take num),
        { request with
          params := { request.params with
            offset := request.params.offset + UInt64.ofNat num } }) }

/-- Another response ends the file when it carries the status for its end. -/
def endOfData (request : SshRequest) (message : SshMessage) :
    CRun (Use (Except GftpError Bytes × SshRequest)) := do
  let message := { message with pos := message.pos + 4 }
  let status ← sshv2BufferGetInt32 request message (some sshFxEof)
  return { accesses := if message.endPos < message.pos + 4 then [] else [.reads message.pos 4]
           value := (status.value.map fun _ => [], status.request) }

/-- sshv2_get_next_file_chunk behind its command. -/
def receiveData (size : ℕ) (request : SshRequest) (s : Stream GftpError) :
    CRun (Use (Except GftpError Bytes × SshRequest) × Stream GftpError) := do
  let r ← sshv2ReadResponse request s
  match r.ret with
  | .error e => return ({ accesses := [], value := (.error e, r.request) }, r.stream)
  | .ok command =>
      if command = sshFxpData then return (copyData size r.request r.message, r.stream)
      else
        let ending ← endOfData r.request r.message
        return (ending, r.stream)

/-- The function returns, and what it did is sound for a payload of so many bytes. -/
def SoundRun (payload : ℕ) (res : CRun (Use α × Stream GftpError)) : Prop :=
  ∃ u s, res = .ok (u, s) ∧ u.Sound payload

/-- The messages that are long enough for what their command makes the functions read. -/
structure ReadersFit (fxpIsRetryable : UInt8) (size : ℕ) (message : SshMessage) : Prop where
  retryable : 0 < fxpIsRetryable → message.command = fxpIsRetryable → 9 ≤ message.length
  status : message.command = sshFxpStatus → 9 ≤ message.length
  handle : message.command = sshFxpHandle → 5 ≤ message.length
  data : message.command = sshFxpData → 9 ≤ message.length ∧
    ((secondWord message).toNat ≤ size → 9 + (secondWord message).toNat ≤ message.length)

/-- A message as it is framed: its payload and two more bytes. -/
structure FramedMessage (message : SshMessage) : Prop where
  block : ∃ payload, message.buffer = some (payload ++ [0, 0]) ∧
    message.length = payload.length + 1
  start : message.pos = 0
  finish : message.endPos + 1 = message.length

/-- The message of a response that is returned is framed and carries its command. -/
theorem readResponse_framed {request : SshRequest} {s : Stream GftpError} {r : ReadResult}
    {command : UInt8} (hread : sshv2ReadResponse request s = .ok r)
    (hret : r.ret = .ok command) : FramedMessage r.message ∧ r.message.command = command := by
  rw [← readResponse_initialized true] at hread
  obtain ⟨⟨head, rest⟩, hhead, _⟩ := CRun.bind_eq_ok.mp hread
  cases head with
  | error e =>
    unfold readResponse at hread
    rw [hhead] at hread
    obtain rfl := Except.ok.inj hread
    simp [readFailed] at hret
  | ok head =>
    rcases read_of_ok hhead hread with ⟨⟨e, he⟩, _⟩ | ⟨payload, hstored, _⟩
    · rw [he] at hret
      simp at hret
    · have hblock := hstored.block_length
      rw [List.length_append, List.length_cons, List.length_singleton] at hblock
      have hcommand := hstored.ret.symm.trans hret
      unfold commandResult at hcommand
      split_ifs at hcommand
      rw [hstored.message]
      refine ⟨⟨⟨payload, rfl, ?_⟩, rfl, ?_⟩, Except.ok.inj hcommand⟩
      · show headerLength head = payload.length + 1
        omega
      · show headerLength head - 1 + 1 = headerLength head
        omega

theorem sound_cons {payload : ℕ} {a : Access} {l : List Access} :
    (∀ b ∈ a :: l, b.Sound payload) ↔ a.Sound payload ∧ ∀ b ∈ l, b.Sound payload :=
  List.forall_mem_cons

theorem statusOf_sound_iff {fxpIsRetryable fxpIsWrong command : UInt8} {request : SshRequest}
    {message : SshMessage} (h : FramedMessage message) :
    (statusOf fxpIsRetryable fxpIsWrong request message command).Sound (message.length - 1) ↔
      (0 < fxpIsRetryable → command = fxpIsRetryable → 9 ≤ message.length) := by
  obtain ⟨payload, _, hlen⟩ := h.block
  unfold statusOf Use.Sound
  by_cases hretryable : 0 < fxpIsRetryable ∧ command = fxpIsRetryable
  · rw [if_pos hretryable]
    simp only [List.mem_singleton, forall_eq, Access.sound_reads]
    constructor
    · intro hsound _ _
      omega
    · intro hnine
      have hlong := hnine hretryable.1 hretryable.2
      omega
  · rw [if_neg hretryable]
    have hnever : 0 < fxpIsRetryable → command = fxpIsRetryable → 9 ≤ message.length :=
      fun hpos hsame => absurd ⟨hpos, hsame⟩ hretryable
    split_ifs
    · exact iff_of_true (by simp) hnever
    · exact iff_of_true (by simp) hnever

theorem copyHandle_sound_iff {tooBig : GftpError} {request : SshRequest} {message : SshMessage}
    (h : FramedMessage message) :
    (copyHandle tooBig request message).Sound (message.length - 1) ↔ 5 ≤ message.length := by
  obtain ⟨payload, _, hlen⟩ := h.block
  unfold copyHandle Use.Sound
  dsimp only
  rw [sound_cons, Access.sound_subtracts]
  by_cases hfive : 5 ≤ message.length
  · rw [wordSub, wordSub, if_pos (show 4 ≤ message.length by omega), if_pos hfive]
    refine iff_of_true ⟨by omega, ?_⟩ hfive
    split_ifs with hbig
    · simp
    · unfold sshMaxHandleSize at hbig ⊢
      simp only [sound_cons, Access.sound_writes, Access.sound_subtracts, Access.sound_reads]
      exact ⟨by omega, hfive, by omega, by omega, by omega, by simp⟩
  · refine iff_of_false ?_ hfive
    rintro ⟨hfour, hrest⟩
    have hsmall : ¬ sshMaxHandleSize < wordSub message.length 4 := by
      unfold wordSub sshMaxHandleSize
      rw [if_pos hfour]
      omega
    rw [if_neg hsmall] at hrest
    simp only [sound_cons, Access.sound_writes, Access.sound_subtracts] at hrest
    exact hfive hrest.2.1

theorem copyData_sound_iff {size : ℕ} {request : SshRequest} {message : SshMessage}
    (h : FramedMessage message) :
    (copyData size request message).Sound (message.length - 1) ↔
      9 ≤ message.length ∧ ((secondWord message).toNat ≤ size →
        9 + (secondWord message).toNat ≤ message.length) := by
  obtain ⟨payload, _, hlen⟩ := h.block
  unfold copyData Use.Sound
  dsimp only
  by_cases hbig : size < (secondWord message).toNat
  · rw [if_pos hbig]
    simp only [List.mem_singleton, forall_eq, Access.sound_reads]
    constructor
    · intro hsound
      exact ⟨by omega, fun hle => absurd hle (by omega)⟩
    · intro hfit
      omega
  · rw [if_neg hbig]
    simp only [sound_cons, Access.sound_reads, Access.sound_writes]
    constructor
    · rintro ⟨hword, hcopy, _⟩
      exact ⟨by omega, fun _ => by omega⟩
    · rintro ⟨hnine, hcopy⟩
      have hlong := hcopy (by omega)
      exact ⟨by omega, by omega, by omega, by simp⟩

/-- The status of another response is looked for inside the message. -/
theorem endOfData_sound {request : SshRequest} {message : SshMessage}
    (h : FramedMessage message) :
    ∃ u, endOfData request message = .ok u ∧ u.Sound (message.length - 1) := by
  obtain ⟨payload, hbuffer, hlen⟩ := h.block
  have hstart := h.start
  have hfinish := h.finish
  unfold endOfData sshv2BufferGetInt32
  dsimp only
  by_cases hshort : message.endPos < message.pos + 4 + 4
  · simp only [if_pos hshort, CRun.ok_bind]
    exact ⟨_, rfl, by simp [Use.Sound]⟩
  · obtain ⟨w, hw⟩ := @wordAt_isOk (message.buffer.getD []) (message.pos + 4) (by
      rw [hbuffer, Option.getD_some, List.length_append]
      omega)
    simp only [if_neg hshort, hw, CRun.ok_bind]
    have hsound : ∀ value : Except GftpError Bytes × SshRequest,
        Use.Sound (message.length - 1)
          { accesses := [Access.reads (message.pos + 4) 4], value := value } := by
      intro value
      simp only [Use.Sound, List.mem_singleton, forall_eq, Access.sound_reads]
      omega
    split_ifs
    · exact ⟨_, rfl, hsound _⟩
    · exact ⟨_, rfl, hsound _⟩

/-- What sshv2_read_status_response reads of the response it has read. -/
theorem status_sound_iff {request : SshRequest} {s : Stream GftpError} {r : ReadResult}
    {command : UInt8} (fxpIsRetryable fxpIsWrong : UInt8)
    (hread : sshv2ReadResponse request s = .ok r) (hret : r.ret = .ok command) :
    SoundRun (r.message.length - 1)
        (sshv2ReadStatusResponse fxpIsRetryable fxpIsWrong request s) ↔
      (0 < fxpIsRetryable → command = fxpIsRetryable → 9 ≤ r.message.length) := by
  obtain ⟨hframed, _⟩ := readResponse_framed hread hret
  rw [← @statusOf_sound_iff fxpIsRetryable fxpIsWrong command r.request _ hframed]
  simp only [SoundRun, sshv2ReadStatusResponse, hread, CRun.ok_bind, hret]
  constructor
  · rintro ⟨u, s', hrun, hsound⟩
    obtain ⟨rfl, _⟩ := Prod.mk.inj (Except.ok.inj hrun)
    exact hsound
  · intro hsound
    exact ⟨_, _, rfl, hsound⟩

theorem receiveHandle_sound_iff {request : SshRequest} {s : Stream GftpError} {r : ReadResult}
    {command : UInt8} (tooBig : GftpError) (hread : sshv2ReadResponse request s = .ok r)
    (hret : r.ret = .ok command) :
    SoundRun (r.message.length - 1) (receiveHandle tooBig request s) ↔
      (command = sshFxpStatus → 9 ≤ r.message.length) ∧
      (command = sshFxpHandle → 5 ≤ r.message.length) := by
  obtain ⟨hframed, _⟩ := readResponse_framed hread hret
  have hrun : receiveHandle tooBig request s =
      (let status := statusOf sshFxpStatus sshFxpHandle r.request r.message command
      match status.value.value with
      | .error e =>
          .ok ({ accesses := status.accesses, value := .ok (.error e, status.value.request) },
            r.stream)
      | .ok _ =>
          let handle := copyHandle tooBig status.value.request status.value.message
          .ok ({ accesses := status.accesses ++ handle.accesses, value := handle.value },
            r.stream)) := by
    simp only [receiveHandle, sshv2ReadStatusResponse, hread, CRun.ok_bind, hret]
    rfl
  rw [hrun]
  by_cases hstatus : command = sshFxpStatus
  · have hsound := @statusOf_sound_iff sshFxpStatus sshFxpHandle command r.request _ hframed
    rw [statusOf, if_pos ⟨by decide, hstatus⟩] at hsound ⊢
    have hother : command ≠ sshFxpHandle := by
      rw [hstatus]
      decide
    constructor
    · rintro ⟨u, s', hu, hu'⟩
      obtain ⟨rfl, _⟩ := Prod.mk.inj (Except.ok.inj hu)
      exact ⟨fun _ => hsound.mp hu' (by decide) hstatus, fun h => absurd h hother⟩
    · intro hfit
      exact ⟨_, _, rfl, hsound.mpr fun _ _ => hfit.1 hstatus⟩
  rw [statusOf, if_neg (fun h => hstatus h.2)]
  by_cases hhandle : command = sshFxpHandle
  · rw [if_neg (fun h => h.2 hhandle)]
    have hsound := @copyHandle_sound_iff tooBig r.request _ hframed
    constructor
    · rintro ⟨u, s', hu, hu'⟩
      obtain ⟨rfl, _⟩ := Prod.mk.inj (Except.ok.inj hu)
      exact ⟨fun h => absurd h hstatus, fun _ => hsound.mp hu'⟩
    · intro hfit
      exact ⟨_, _, rfl, hsound.mpr (hfit.2 hhandle)⟩
  · rw [if_pos ⟨by decide, hhandle⟩]
    refine iff_of_true ⟨_, _, rfl, ?_⟩ ⟨fun h => absurd h hstatus, fun h => absurd h hhandle⟩
    simp [Use.Sound]

theorem receiveData_sound_iff {request : SshRequest} {s : Stream GftpError} {r : ReadResult}
    {command : UInt8} (size : ℕ) (hread : sshv2ReadResponse request s = .ok r)
    (hret : r.ret = .ok command) :
    SoundRun (r.message.length - 1) (receiveData size request s) ↔
      (command = sshFxpData → 9 ≤ r.message.length ∧
        ((secondWord r.message).toNat ≤ size →
          9 + (secondWord r.message).toNat ≤ r.message.length)) := by
  obtain ⟨hframed, _⟩ := readResponse_framed hread hret
  simp only [SoundRun, receiveData, hread, CRun.ok_bind, hret]
  by_cases hdata : command = sshFxpData
  · rw [if_pos hdata]
    have hsound := @copyData_sound_iff size r.request _ hframed
    constructor
    · rintro ⟨u, s', hu, hu'⟩ _
      obtain ⟨rfl, _⟩ := Prod.mk.inj (Except.ok.inj hu)
      exact hsound.mp hu'
    · intro hfit
      exact ⟨_, _, rfl, hsound.mpr (hfit hdata)⟩
  · rw [if_neg hdata]
    obtain ⟨u, hu, hu'⟩ := @endOfData_sound r.request _ hframed
    rw [hu, CRun.ok_bind]
    exact iff_of_true ⟨_, _, rfl, hu'⟩ fun h => absurd h hdata

/-- The readers stay inside the payload and their arrays exactly on messages that are long
enough for their command. -/
theorem readers_sound_iff (request : SshRequest) (s : Stream GftpError) (r : ReadResult)
    (command fxpIsRetryable fxpIsWrong : UInt8) (tooBig : GftpError) (size : ℕ)
    (hread : sshv2ReadResponse request s = .ok r) (hret : r.ret = .ok command) :
    (SoundRun (r.message.length - 1)
        (sshv2ReadStatusResponse fxpIsRetryable fxpIsWrong request s) ∧
      SoundRun (r.message.length - 1) (receiveHandle tooBig request s) ∧
      SoundRun (r.message.length - 1) (receiveData size request s)) ↔
      ReadersFit fxpIsRetryable size r.message := by
  obtain ⟨_, hcommand⟩ := readResponse_framed hread hret
  rw [status_sound_iff fxpIsRetryable fxpIsWrong hread hret,
    receiveHandle_sound_iff tooBig hread hret, receiveData_sound_iff size hread hret, ← hcommand]
  constructor
  · rintro ⟨hretryable, ⟨hstatus, hhandle⟩, hdata⟩
    exact ⟨hretryable, hstatus, hhandle, hdata⟩
  · intro hfit
    exact ⟨hfit.retryable, ⟨hfit.status, hfit.handle⟩, hfit.data⟩

/-- A handle of four bytes. -/
theorem handle_of_four_bytes :
    SoundRun 12 (receiveHandle .fatal freshRequest
      [.ok [0, 0, 0, 13, 102], .ok (be32 1 ++ (be32 4 ++ [97, 98, 99, 100]))]) := by
  refine ((readers_sound_iff freshRequest
    [.ok [0, 0, 0, 13, 102], .ok (be32 1 ++ (be32 4 ++ [97, 98, 99, 100]))] _ sshFxpHandle
    sshFxpStatus sshFxpHandle .fatal 0 rfl rfl).mpr ⟨?_, ?_, ?_, ?_⟩).2.1
  all_goals decide

/-- A handle message that ends behind three bytes asks for a copy of 2^32 - 1 bytes. -/
theorem short_handle_unsound :
    ¬ ∀ (request : SshRequest) (s : Stream GftpError) (r : ReadResult)
        (command fxpIsRetryable fxpIsWrong : UInt8) (tooBig : GftpError) (size : ℕ),
      sshv2ReadResponse request s = .ok r → r.ret = .ok command →
      SoundRun (r.message.length - 1)
          (sshv2ReadStatusResponse fxpIsRetryable fxpIsWrong request s) ∧
        SoundRun (r.message.length - 1) (receiveHandle tooBig request s) ∧
        SoundRun (r.message.length - 1) (receiveData size request s) := by
  intro h
  have hsound := (h freshRequest [.ok [0, 0, 0, 4, 102, 0, 0, 0]] _ sshFxpHandle sshFxpStatus
    sshFxpHandle .fatal 0 rfl rfl).2.1
  have hfive := ((receiveHandle_sound_iff .fatal rfl rfl).mp hsound).2 rfl
  exact absurd hfive (by decide)

end Gftp.SshReaders
