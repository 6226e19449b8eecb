import Gftp.SshFraming

/-!
sshv2_send_command_and_check_response, which carries out the commands that only have a
status for an answer. The status is the second word of the answer, whatever the answer is.
-/

namespace Gftp.SshStatusCheck

open ByteStrings ByteStreams BigEndian Protocol SshMessages SshAttributes SshFraming

structure CheckResult where
  ret : Except GftpError Unit
  request : SshRequest
  stream : Stream GftpError

/-- What is done with an answer that was read. -/
def checkAnswer (r : ReadResult) : CRun CheckResult :=
  match r.ret with
  | .error e => return { ret := .error e, request := r.request, stream := r.stream }
  | .ok _ => do
      let message := { r.message with pos := r.message.pos + 4 }
      let status ← sshv2BufferGetInt32 r.request message (some sshFxOk)
      return { ret := status.value.map fun _ => (), request := status.request,
               stream := r.stream }

def sshv2SendCommandAndCheckResponse (request : SshRequest) (type : UInt8) (command : Bytes)
    (written : Except GftpError Unit) (s : Stream GftpError) : CRun CheckResult := do
  let sent ← sshv2SendCommand request type command written
  match sent.ret with
  | .error e => return { ret := .error e, request := sent.request, stream := s }
  | .ok () =>
      let r ← sshv2ReadResponse sent.request s
      checkAnswer r

/-- A status message whose code is SSH_FX_OK. -/
def StatusOk (type : UInt8) (payload : Bytes) : Prop :=
  type = sshFxpStatus ∧ read32 (payload.drop 4) = some sshFxOk

/-- The function returns 0 for a status that is OK and for nothing else. -/
def ChecksStatus (type : UInt8) (payload : Bytes) (run : CRun CheckResult) : Prop :=
  ∃ r, run = .ok r ∧ (r.ret = .ok () ↔ StatusOk type payload)

/-- An answer over the limit is no status that is OK. Another one has the bytes the logger
reads for its command, and it is a status, has a command that is negative as a char, or its
second word is not there or not zero. -/
def Told (dontLogStatus : Bool) (type : UInt8) (payload : Bytes) : Prop :=
  (34000 ≤ payload.length → ¬ StatusOk type payload) ∧
    (payload.length < 34000 → LogFits dontLogStatus type (payload ++ [0, 0]) ∧
      (type = sshFxpStatus ∨ 128 ≤ type ∨ read32 (payload.drop 4) ≠ some sshFxOk))

/-- A command that was sent leaves the request as it was. -/
theorem sendCommand_request {request : SshRequest} {type : UInt8} {command : Bytes}
    {written : Except GftpError Unit} {sent : SendResult}
    (h : sshv2SendCommand request type command written = .ok sent) (hret : sent.ret = .ok ()) :
    sent.request = request := by
  rcases sendCommand_cases h with ⟨-, hrequest⟩ | ⟨e, herror, -⟩
  · exact hrequest
  · rw [hret] at herror
    cases herror

/-- The second word of a payload is compared with zero. -/
theorem getInt32_status {request : SshRequest} {message : SshMessage} {payload : Bytes}
    (hbuffer : message.buffer = some (payload ++ [0, 0])) (hpos : message.pos = 4)
    (hend : message.endPos = payload.length) :
    ∃ t, sshv2BufferGetInt32 request message (some sshFxOk) = .ok t ∧
      ((∃ n, t.value = .ok n) ↔ read32 (payload.drop 4) = some sshFxOk) := by
  unfold sshv2BufferGetInt32
  split_ifs with hroom
  · refine ⟨_, rfl, ?_⟩
    have hnone : read32 (payload.drop 4) = none := by
      rw [read32_none_iff, List.length_drop]
      omega
    simp [sshv2WrongResponse, hnone]
  · obtain ⟨w, hw⟩ := Option.isSome_iff_exists.mp
      ((read32_isSome_iff (payload.drop 4)).mpr (by rw [List.length_drop]; omega))
    have hword : wordAt (message.buffer.getD []) message.pos = .ok w := by
      rw [hbuffer, hpos, Option.getD_some, wordAt,
        List.drop_append_of_le_length (by omega), read32_append (by rw [List.length_drop]; omega), hw]
    rw [hword, hw]
    simp only [CRun.ok_bind]
    by_cases hok : w = sshFxOk
    · rw [if_neg (by simpa using hok)]
      exact ⟨_, rfl, by simp [hok]⟩
    · rw [if_pos hok]
      refine ⟨_, rfl, ?_⟩
      unfold sshv2ResponseReturnCode
      split_ifs <;> simp [hok, sshv2WrongResponse]

theorem answer_checked_iff (request : SshRequest) (type : UInt8) (payload : Bytes)
    (s : Stream GftpError) :
    (∃ r, checkAnswer
        { ret := commandResult type
          message := { length := payload.length + 1, command := type,
                       buffer := some (payload ++ [0, 0]), pos := 0, endPos := payload.length }
          request := request
          stream := s } = .ok r ∧ (r.ret = .ok () ↔ StatusOk type payload)) ↔
      type = sshFxpStatus ∨ 128 ≤ type ∨ read32 (payload.drop 4) ≠ some sshFxOk := by
  unfold checkAnswer commandResult
  by_cases hchar : type < 128
  · obtain ⟨t, ht, hok⟩ := @getInt32_status request
      { length := payload.length + 1, command := type, buffer := some (payload ++ [0, 0]),
        pos := 0 + 4, endPos := payload.length } payload rfl rfl rfl
    simp only [if_pos hchar, ht, CRun.ok_bind, pure, Except.pure, Except.ok.injEq,
      exists_eq_left']
    have hret : t.value.map (fun _ => ()) = .ok () ↔ read32 (payload.drop 4) = some sshFxOk := by
      rw [← hok]
      cases t.value <;> simp [Except.map]
    rw [hret]
    unfold StatusOk
    have hpos : ¬ 128 ≤ type := UInt8.not_le.mpr hchar
    by_cases hword : read32 (payload.drop 4) = some sshFxOk
    · simp [hword, hpos]
    · simp [hword]
  · simp only [if_neg hchar]
    have hneg : 128 ≤ type := UInt8.not_lt.mp hchar
    have hno : ¬ StatusOk type payload := by
      rintro ⟨rfl, -⟩
      exact absurd hneg (by decide)
    simp [hneg, hno, pure, Except.pure]

/-- A status that is OK says so when it is read, and so does every other message with a
zero for its second word. -/
theorem status_check_iff (request : SshRequest) (type : UInt8) (command : Bytes)
    (written : Except GftpError Unit) {sent : SendResult}
    (hsent : sshv2SendCommand request type command written = .ok sent)
    (hret : sent.ret = .ok ()) {s : Stream GftpError} {reply : UInt8} {payload rest : Bytes}
    (hs : Plain s) (hc : contents s = frame reply payload ++ rest)
    (hlen : payload.length + 1 < 2 ^ 32) :
    ChecksStatus reply payload
        (sshv2SendCommandAndCheckResponse request type command written s) ↔
      Told request.params.dontLogStatus reply payload := by
  unfold ChecksStatus sshv2SendCommandAndCheckResponse Told
  rw [hsent, CRun.ok_bind, hret, sendCommand_request hsent hret]
  dsimp only
  rcases Nat.lt_or_ge payload.length 34000 with hfits | hlong
  · obtain ⟨s', hread, -, -⟩ :=
      @readResponse_logs request s reply payload rest hs hc (by omega)
    rw [hread]
    simp only [Nat.not_le.mpr hfits, IsEmpty.forall_iff, true_and, hfits, true_imp_iff,
      ← logCommand_ok_iff]
    cases hlog : sshv2LogCommand request.params.dontLogStatus reply (payload ++ [0, 0]) with
    | error stop => simp
    | ok u =>
      simp only [CRun.ok_bind, true_and]
      exact answer_checked_iff request reply payload s'
  · obtain ⟨s', hread⟩ :=
      @readResponse_tooLong request s reply payload rest hs hc (by omega) hlen
    rw [hread, CRun.ok_bind]
    simp [checkAnswer, readFailed, hlong, Nat.not_lt.mpr hlong, pure, Except.pure]

/-- The command that removes the directory a. -/
def removeA : Bytes := be32 1 ++ (be32 2 ++ ascii "/a")

theorem removeA_sent :
    sshv2SendCommand freshRequest sshFxpRmdir removeA (.ok ()) =
      .ok { ret := .ok (), sent := some (frame sshFxpRmdir removeA), request := freshRequest } :=
  sendCommand_eq (.ok ()) (by decide) rfl

/-- The directory was removed. -/
theorem removal_told :
    ChecksStatus sshFxpStatus (be32 1 ++ be32 sshFxOk)
      (sshv2SendCommandAndCheckResponse freshRequest sshFxpRmdir removeA (.ok ())
        [.ok (frame sshFxpStatus (be32 1 ++ be32 sshFxOk))]) := by
  have hc := (@contents_ofFile GftpError (frame sshFxpStatus (be32 1 ++ be32 sshFxOk))).trans
    (List.append_nil _).symm
  refine (status_check_iff freshRequest sshFxpRmdir removeA (.ok ()) removeA_sent rfl
    (plain_ofFile _) hc (by decide)).mpr ⟨?_, ?_⟩
  · exact fun hlong => absurd hlong (by decide)
  · intro _
    refine ⟨?_, Or.inl rfl⟩
    exact logCommand_ok_iff.mp rfl

/-- A handle in place of a status counts as success when its length is zero. -/
theorem handle_taken_for_ok :
    ¬ ChecksStatus sshFxpHandle (be32 1 ++ be32 0)
      (sshv2SendCommandAndCheckResponse freshRequest sshFxpRmdir removeA (.ok ())
        [.ok (frame sshFxpHandle (be32 1 ++ be32 0))]) := by
  unfold sshv2SendCommandAndCheckResponse
  rw [removeA_sent]
  rintro ⟨r, hr, hiff⟩
  obtain rfl := Except.ok.inj hr
  exact absurd (hiff.mp rfl).1 (by decide)

end Gftp.SshStatusCheck
