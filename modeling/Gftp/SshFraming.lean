import Gftp.SshAttributes

/-!
How sshv2_read_response frames what a server sends, before and after the login. The
length field is trusted when it is zero, the logger reads fixed places of the message
whatever its size, and both read loops go on at end of file. The exact inputs on which
a message is stored or rejected are stated for every header and every stream.
-/

namespace Gftp.SshFraming

open ByteStrings ByteStreams BigEndian Protocol SshMessages SshAttributes

/-- A length that is too big. Before the login is done it is taken for the text of an
error, and what has arrived of it is read from the socket in blocking mode. -/
def rejectLength (initialized blocking : Bool) (request : SshRequest) (length : ℕ)
    (s : Stream GftpError) : CRun ReadResult :=
  if initialized then .ok (readFailed request .fatal s)
  else if blocking then
    match readSome 254 s with
    | (.error _, s) => .ok (readFailed request .fatal s)
    | (.ok d, s) => do
        let errorBuffer ← overwrite (List.replicate 255 0) 0 d
        let _ ← if d = [] then .ok errorBuffer else overwrite errorBuffer d.length [0]
        return readFailed request .fatal s
  else .ok { readFailed request .fatal s with message := { SshMessage.freed with length := length } }

/-- sshv2_read_response at any point of a session. -/
def readResponse (initialized blocking : Bool) (request : SshRequest) (s : Stream GftpError) :
    CRun ReadResult := do
  let (head, s) ← readExactly 5 s
  match head with
  | .error e => return readFailed request e s
  | .ok head =>
      let length := (← wordAt head 0).toNat
      if 34000 < length then rejectLength initialized blocking request length s
      else
        let (body, s) ← readInto (length + 1) (payloadSize length) s
        match body with
        | .error e => return readFailed request e s
        | .ok body =>
            let command := (head.drop 4).headD 0
            let buffer := body ++ [0, 0]
            sshv2LogCommand request.params.dontLogStatus command buffer
            return {
              ret := commandResult command
              message := { length := length, command := command, buffer := some buffer,
                           pos := 0, endPos := length - 1 }
              request := request
              stream := s }

theorem readResponse_initialized (blocking : Bool) (request : SshRequest)
    (s : Stream GftpError) :
    readResponse true blocking request s = sshv2ReadResponse request s := by
  rfl

/-- A rejected length is answered with an error and no message, within the array the
text goes to. -/
theorem rejectLength_eq (initialized blocking : Bool) (request : SshRequest) (length : ℕ)
    (s : Stream GftpError) :
    ∃ r, rejectLength initialized blocking request length s = .ok r ∧
      r.ret = .error .fatal ∧ r.message.buffer = none := by
  unfold rejectLength
  split_ifs
  · exact ⟨_, rfl, rfl, rfl⟩
  · have hlen : (List.replicate 255 (0 : UInt8)).length = 255 := List.length_replicate
    generalize List.replicate 255 (0 : UInt8) = array at hlen ⊢
    cases hread : readSome 254 s with
    | mk r s' =>
      cases r with
      | error e => exact ⟨_, rfl, rfl, rfl⟩
      | ok d =>
        have hd := readSome_length hread
        dsimp only
        rw [overwrite_ok (show 0 + d.length ≤ array.length by omega), CRun.ok_bind]
        split_ifs
        · exact ⟨_, rfl, rfl, rfl⟩
        · rw [overwrite_ok (by
            simp only [List.length_append, List.length_take, List.length_drop,
              List.length_singleton]
            omega), CRun.ok_bind]
          exact ⟨_, rfl, rfl, rfl⟩
  · exact ⟨_, rfl, rfl, rfl⟩

/-- The places of a block that the logger reads for a command lie inside it. -/
structure LogFits (dontLogStatus : Bool) (type : UInt8) (block : Bytes) : Prop where
  number : 4 ≤ block.length
  openCommand : type = sshFxpOpen →
    ∃ num, read32 (block.drop 4) = some num ∧ 12 + num.toNat ≤ block.length
  path : type ∈ [sshFxpOpendir, sshFxpRemove, sshFxpMkdir, sshFxpRmdir, sshFxpRealpath,
    sshFxpStat] → 8 < block.length
  setstat : type = sshFxpSetstat →
    ∃ num, read32 (block.drop 4) = some num ∧ 16 + num.toNat ≤ block.length
  status : type = sshFxpStatus → dontLogStatus = false → 8 ≤ block.length
  name : type = sshFxpName → 8 ≤ block.length

theorem wordAt_cases (block : Bytes) (off : ℕ) :
    (∃ w, wordAt block off = .ok w ∧ read32 (block.drop off) = some w ∧
      off + 4 ≤ block.length) ∨
    (wordAt block off = .error .fault ∧ read32 (block.drop off) = none ∧
      block.length < off + 4) := by
  cases hword : read32 (block.drop off) with
  | none =>
    have hlen := (read32_none_iff _).mp hword
    rw [List.length_drop] at hlen
    exact Or.inr ⟨by simp only [wordAt, hword], rfl, by omega⟩
  | some w =>
    have hlen := (read32_isSome_iff (block.drop off)).mp (by rw [hword]; rfl)
    rw [List.length_drop] at hlen
    exact Or.inl ⟨w, by simp only [wordAt, hword], rfl, by omega⟩

theorem nul_mem_drop_iff {block : Bytes} {k : ℕ} :
    0 ∈ (block ++ [0]).drop k ↔ k < (block ++ [0]).length := by
  constructor
  · intro hmem
    have hpos := List.length_pos_of_mem hmem
    rw [List.length_drop] at hpos
    omega
  · intro hk
    have hne : (block ++ [0]).drop k ≠ [] := by
      rw [ne_eq, List.drop_eq_nil_iff]
      omega
    have hlast := List.getLast_drop hne
    have hmem := List.getLast_mem hne
    rw [hlast] at hmem
    simpa using hmem

/-- The logger reads a block that ends in a terminator exactly where these places allow. -/
theorem logTerminated_ok_iff {dontLogStatus : Bool} {type : UInt8} {front : Bytes} :
    sshv2LogCommand dontLogStatus type (front ++ [0]) = .ok () ↔
      LogFits dontLogStatus type (front ++ [0]) := by
  have hnul := fun k => @nul_mem_drop_iff front k
  generalize front ++ [0] = block at hnul ⊢
  rcases wordAt_cases block 0 with ⟨id, hid, _, hlen⟩ | ⟨hid, _, hlen⟩
  swap
  · simp only [sshv2LogCommand, hid, CRun.error_bind]
    exact iff_of_false (by simp) fun h => by have := h.number; omega
  rw [Nat.zero_add] at hlen
  simp only [sshv2LogCommand, hid, CRun.ok_bind]
  split_ifs with hopen hpath hnulAt hsetstat hstatus hdont hname
  · subst hopen
    rcases wordAt_cases block 4 with ⟨num, hnum, hread, _⟩ | ⟨hnum, hread, _⟩
    · simp only [hnum, CRun.ok_bind]
      split_ifs with hroom
      · refine iff_of_true rfl ⟨hlen, fun _ => ⟨num, hread, hroom⟩, ?_, ?_, ?_, ?_⟩
        all_goals exact fun h => absurd h (by decide)
      · refine iff_of_false (by simp) fun h => ?_
        obtain ⟨num', hread', hroom'⟩ := h.openCommand rfl
        obtain rfl := Option.some.inj (hread.symm.trans hread')
        exact hroom hroom'
    · simp only [hnum, CRun.error_bind]
      refine iff_of_false (by simp) fun h => ?_
      obtain ⟨num, hread', _⟩ := h.openCommand rfl
      simp [hread] at hread'
  · refine iff_of_true rfl ⟨hlen, ?_, fun _ => (hnul 8).mp hnulAt, ?_, ?_, ?_⟩
    · exact fun h => absurd h hopen
    · rintro rfl
      exact absurd hpath (by decide)
    · rintro rfl
      exact absurd hpath (by decide)
    · rintro rfl
      exact absurd hpath (by decide)
  · exact iff_of_false (by simp) fun h => hnulAt ((hnul 8).mpr (h.path hpath))
  · subst hsetstat
    rcases wordAt_cases block 4 with ⟨num, hnum, hread, _⟩ | ⟨hnum, hread, _⟩
    · simp only [hnum, CRun.ok_bind]
      rcases wordAt_cases block (12 + num.toNat) with ⟨attr, hattr, _, hroom⟩ | ⟨hattr, _, hroom⟩
      · obtain ⟨stattype, hstattype⟩ := @wordAt_isOk block (8 + num.toNat) (by omega)
        simp only [hstattype, hattr, CRun.ok_bind]
        refine iff_of_true rfl ⟨hlen, ?_, ?_, fun _ => ⟨num, hread, by omega⟩, ?_, ?_⟩
        all_goals exact fun h => absurd h (by decide)
      · refine iff_of_false ?_ fun h => ?_
        · cases wordAt block (8 + num.toNat) <;> simp [hattr]
        · obtain ⟨num', hread', hroom'⟩ := h.setstat rfl
          obtain rfl := Option.some.inj (hread.symm.trans hread')
          omega
    · simp only [hnum, CRun.error_bind]
      refine iff_of_false (by simp) fun h => ?_
      obtain ⟨num, hread', _⟩ := h.setstat rfl
      simp [hread] at hread'
  · subst hstatus
    refine iff_of_true rfl ⟨hlen, ?_, ?_, ?_, fun _ h => ?_, ?_⟩
    · exact fun h => absurd h (by decide)
    · exact fun h => absurd h (by decide)
    · exact fun h => absurd h (by decide)
    · exact absurd (hdont.symm.trans h) (by decide)
    · exact fun h => absurd h (by decide)
  · subst hstatus
    rcases wordAt_cases block 4 with ⟨num, hnum, _, hroom⟩ | ⟨hnum, _, hroom⟩
    · simp only [hnum, CRun.ok_bind]
      refine iff_of_true rfl ⟨hlen, ?_, ?_, ?_, fun _ _ => hroom, ?_⟩
      all_goals exact fun h => absurd h (by decide)
    · simp only [hnum, CRun.error_bind]
      refine iff_of_false (by simp) fun h => ?_
      have hfits := h.status rfl (by simpa using hdont)
      omega
  · subst hname
    rcases wordAt_cases block 4 with ⟨num, hnum, _, hroom⟩ | ⟨hnum, _, hroom⟩
    · simp only [hnum, CRun.ok_bind]
      refine iff_of_true rfl ⟨hlen, ?_, ?_, ?_, ?_, fun _ => hroom⟩
      all_goals exact fun h => absurd h (by decide)
    · simp only [hnum, CRun.error_bind]
      refine iff_of_false (by simp) fun h => ?_
      have hfits := h.name rfl
      omega
  · refine iff_of_true rfl ⟨hlen, ?_, ?_, ?_, ?_, ?_⟩
    · exact fun h => absurd h hopen
    · exact fun h => absurd h hpath
    · exact fun h => absurd h hsetstat
    · exact fun h => absurd h hstatus
    · exact fun h => absurd h ‹_›

/-- The logger reads a message of its connection exactly where these places allow. -/
theorem logCommand_ok_iff {dontLogStatus : Bool} {type : UInt8} {payload : Bytes} :
    sshv2LogCommand dontLogStatus type (payload ++ [0, 0]) = .ok () ↔
      LogFits dontLogStatus type (payload ++ [0, 0]) := by
  have h := @logTerminated_ok_iff dontLogStatus type (payload ++ [0])
  rwa [List.append_assoc] at h

/-- The length field and the command of a header. -/
def headerLength (head : Bytes) : ℕ := ((read32 head).getD 0).toNat

def headerCommand (head : Bytes) : UInt8 := (head.drop 4).headD 0

/-- Neither a message nor its result is left. -/
def Rejected (r : ReadResult) : Prop := (∃ e, r.ret = .error e) ∧ r.message.buffer = none

/-- The block of length + 1 bytes holds the payload and the terminator behind it. -/
structure StoredWhole (head payload : Bytes) (r : ReadResult) : Prop where
  payload_length : payload.length = headerLength head - 1
  block_length : (payload ++ [0, 0]).length = headerLength head + 1
  message : r.message = { length := headerLength head, command := headerCommand head,
                          buffer := some (payload ++ [0, 0]), pos := 0,
                          endPos := headerLength head - 1 }
  ret : r.ret = commandResult (headerCommand head)

/-- What a length within the limit makes of the stream behind the header. -/
def AfterHeader (dontLogStatus : Bool) (head : Bytes) (rest : Stream GftpError) : Prop :=
  (headerLength head = 0 ∧ ∃ e s, readExactly 2 rest = .ok (.error e, s)) ∨
  (0 < headerLength head ∧ ∃ e s, readExactly (headerLength head - 1) rest = .ok (.error e, s)) ∨
  (0 < headerLength head ∧ ∃ payload s,
    readExactly (headerLength head - 1) rest = .ok (.ok payload, s) ∧
      LogFits dontLogStatus (headerCommand head) (payload ++ [0, 0]))

/-- The run behind the header, once the length is accepted. -/
private theorem readResponse_accepted {initialized blocking : Bool} {request : SshRequest}
    {s rest : Stream GftpError} {head : Bytes} (hhead : readExactly 5 s = .ok (.ok head, rest))
    (hlen : headerLength head ≤ 34000) :
    readResponse initialized blocking request s =
      (readInto (headerLength head + 1) (payloadSize (headerLength head)) rest).bind fun x =>
        match x with
        | (.error e, s) => .ok (readFailed request e s)
        | (.ok body, s) =>
            (sshv2LogCommand request.params.dontLogStatus (headerCommand head)
              (body ++ [0, 0])).bind fun _ => .ok {
                ret := commandResult (headerCommand head)
                message := { length := headerLength head, command := headerCommand head,
                             buffer := some (body ++ [0, 0]), pos := 0,
                             endPos := headerLength head - 1 }
                request := request
                stream := s } := by
  have hfive := (readExactly_ok hhead).1
  obtain ⟨w, hw⟩ := Option.isSome_iff_exists.mp ((read32_isSome_iff head).mpr (by omega))
  have hlength : headerLength head = w.toNat := by rw [headerLength, hw, Option.getD_some]
  have hword : wordAt head 0 = .ok w := by simp only [wordAt, List.drop_zero, hw]
  rw [hlength] at hlen ⊢
  unfold readResponse
  rw [hhead]
  simp only [CRun.ok_bind, hword, if_neg (Nat.not_lt.mpr hlen)]
  cases readInto (w.toNat + 1) (payloadSize w.toNat) rest with
  | error e => rfl
  | ok x =>
    obtain ⟨r, s'⟩ := x
    cases r <;> rfl

private theorem readResponse_tooBig {initialized blocking : Bool} {request : SshRequest}
    {s rest : Stream GftpError} {head : Bytes} (hhead : readExactly 5 s = .ok (.ok head, rest))
    (hlen : 34000 < headerLength head) :
    readResponse initialized blocking request s =
      rejectLength initialized blocking request (headerLength head) rest := by
  have hfive := (readExactly_ok hhead).1
  obtain ⟨w, hw⟩ := Option.isSome_iff_exists.mp ((read32_isSome_iff head).mpr (by omega))
  have hlength : headerLength head = w.toNat := by rw [headerLength, hw, Option.getD_some]
  have hword : wordAt head 0 = .ok w := by simp only [wordAt, List.drop_zero, hw]
  rw [hlength] at hlen ⊢
  unfold readResponse
  rw [hhead]
  simp only [CRun.ok_bind, hword, if_pos hlen]

/-- The result of a read of a whole message, with the bytes that follow the header. -/
def Read (head : Bytes) (rest : Stream GftpError) (r : ReadResult) : Prop :=
  Rejected r ∨ ∃ payload, StoredWhole head payload r ∧
    readExactly (headerLength head - 1) rest = .ok (.ok payload, r.stream)

/-- Whatever is returned is a rejection or the whole message. -/
theorem read_of_ok {initialized blocking : Bool} {request : SshRequest}
    {s rest : Stream GftpError} {head : Bytes} {r : ReadResult}
    (hhead : readExactly 5 s = .ok (.ok head, rest))
    (h : readResponse initialized blocking request s = .ok r) : Read head rest r := by
  rcases Nat.lt_or_ge 34000 (headerLength head) with hbig | hlen
  · obtain ⟨r', hr', hret, hbuffer⟩ :=
      rejectLength_eq initialized blocking request (headerLength head) rest
    rw [readResponse_tooBig hhead hbig, hr'] at h
    obtain rfl := Except.ok.inj h
    exact Or.inl ⟨⟨_, hret⟩, hbuffer⟩
  rw [readResponse_accepted hhead hlen] at h
  obtain ⟨⟨body, s'⟩, hread, h⟩ := CRun.bind_eq_ok.mp h
  cases body with
  | error e =>
    obtain rfl := Except.ok.inj h
    exact Or.inl ⟨⟨e, rfl⟩, rfl⟩
  | ok payload =>
    obtain ⟨_, _, h⟩ := CRun.bind_eq_ok.mp h
    obtain rfl := Except.ok.inj h
    rcases Nat.eq_zero_or_pos (headerLength head) with hzero | hpos
    · rw [hzero, payloadSize, if_pos rfl,
        readInto_small (show 0 + 1 < 2 ^ 32 - 1 by decide)] at hread
      obtain ⟨⟨r, _⟩, _, hread⟩ := CRun.bind_eq_ok.mp hread
      cases r <;> simp at hread
    · rw [payloadSize, if_neg (by omega), readInto_fits (by omega)] at hread
      have hpayload := (readExactly_ok hread).1
      refine Or.inr ⟨payload, ⟨hpayload, ?_, rfl, rfl⟩, hread⟩
      rw [List.length_append, hpayload, List.length_cons, List.length_singleton]
      omega

/-- A length of zero ends well only when the stream fails before its second byte. -/
private theorem read_zero_iff {initialized blocking : Bool} {request : SshRequest}
    {s rest : Stream GftpError} {head : Bytes} (hhead : readExactly 5 s = .ok (.ok head, rest))
    (hzero : headerLength head = 0) :
    (∃ r, readResponse initialized blocking request s = .ok r ∧ Read head rest r) ↔
      ∃ e s', readExactly 2 rest = .ok (.error e, s') := by
  rw [readResponse_accepted hhead (by omega), hzero, payloadSize, if_pos rfl,
    readInto_small (show 0 + 1 < 2 ^ 32 - 1 by decide)]
  cases hread : readExactly 2 rest with
  | error stop => simp [Except.bind]
  | ok x =>
    obtain ⟨r, s'⟩ := x
    cases r with
    | error e =>
      simp only [Except.bind]
      refine iff_of_true ⟨_, rfl, Or.inl ⟨⟨e, rfl⟩, rfl⟩⟩ ⟨e, s', rfl⟩
    | ok body =>
      simp only [Except.bind]
      refine iff_of_false ?_ ?_
      · rintro ⟨r, hr, _⟩
        simp at hr
      · rintro ⟨e, s'', he⟩
        simp at he

/-- With a nonzero length the payload and the logger decide. -/
private theorem read_positive_iff {initialized blocking : Bool} {request : SshRequest}
    {s rest : Stream GftpError} {head : Bytes} (hhead : readExactly 5 s = .ok (.ok head, rest))
    (hpos : 0 < headerLength head) (hlen : headerLength head ≤ 34000) :
    (∃ r, readResponse initialized blocking request s = .ok r ∧ Read head rest r) ↔
      (∃ e s', readExactly (headerLength head - 1) rest = .ok (.error e, s')) ∨
      ∃ payload s', readExactly (headerLength head - 1) rest = .ok (.ok payload, s') ∧
        LogFits request.params.dontLogStatus (headerCommand head) (payload ++ [0, 0]) := by
  rw [readResponse_accepted hhead hlen, payloadSize, if_neg (by omega), readInto_fits (by omega)]
  cases hread : readExactly (headerLength head - 1) rest with
  | error stop =>
    simp only [Except.bind]
    refine iff_of_false ?_ ?_
    · rintro ⟨r, hr, _⟩
      simp at hr
    · rintro (⟨e, s', he⟩ | ⟨payload, s', he, _⟩) <;> simp at he
  | ok x =>
    obtain ⟨r, s'⟩ := x
    cases r with
    | error e =>
      simp only [Except.bind]
      exact iff_of_true ⟨_, rfl, Or.inl ⟨⟨e, rfl⟩, rfl⟩⟩ (Or.inl ⟨e, s', rfl⟩)
    | ok payload =>
      have hpayload := (readExactly_ok hread).1
      simp only [Except.bind]
      cases hlog : sshv2LogCommand request.params.dontLogStatus (headerCommand head)
          (payload ++ [0, 0]) with
      | error stop =>
        refine iff_of_false ?_ ?_
        · rintro ⟨r, hr, _⟩
          simp at hr
        · rintro (⟨e, s'', he⟩ | ⟨payload', s'', he, hfits⟩)
          · simp at he
          · simp only [Except.ok.injEq, Prod.mk.injEq] at he
            rw [← he.1, ← logCommand_ok_iff, hlog] at hfits
            simp at hfits
      | ok u =>
        refine iff_of_true ⟨_, rfl, Or.inr ⟨payload, ⟨hpayload, ?_, rfl, rfl⟩, hread⟩⟩
          (Or.inr ⟨payload, s', rfl, logCommand_ok_iff.mp hlog⟩)
        rw [List.length_append, hpayload, List.length_cons, List.length_singleton]
        omega

/-- Behind a header the message is rejected or stored whole, and logged from its own bytes,
exactly when the length is too big or the stream and the command's fixed places allow it. -/
theorem response_read_iff (initialized blocking : Bool) (request : SshRequest) (head : Bytes)
    (s rest : Stream GftpError) (hhead : readExactly 5 s = .ok (.ok head, rest)) :
    (∃ r, readResponse initialized blocking request s = .ok r ∧ Read head rest r) ↔
      34000 < headerLength head ∨ AfterHeader request.params.dontLogStatus head rest := by
  unfold AfterHeader
  rcases Nat.lt_or_ge 34000 (headerLength head) with hbig | hlen
  · obtain ⟨r, hr, hret, hbuffer⟩ :=
      rejectLength_eq initialized blocking request (headerLength head) rest
    rw [readResponse_tooBig hhead hbig]
    exact iff_of_true ⟨r, hr, Or.inl ⟨⟨_, hret⟩, hbuffer⟩⟩ (Or.inl hbig)
  · rcases Nat.eq_zero_or_pos (headerLength head) with hzero | hpos
    · rw [read_zero_iff hhead hzero]
      simp [hzero]
    · rw [read_positive_iff hhead hpos hlen]
      simp [hpos, Nat.not_lt.mpr hlen, Nat.pos_iff_ne_zero.mp hpos]

/-- A status message behind its header. -/
theorem status_message_read :
    ∃ r, readResponse true true freshRequest [.ok [0, 0, 0, 9, 101], .ok (be32 1 ++ be32 1)] =
        .ok r ∧ Read [0, 0, 0, 9, 101] [.ok (be32 1 ++ be32 1)] r := by
  refine (response_read_iff true true freshRequest [0, 0, 0, 9, 101] _ _ rfl).mpr (Or.inr ?_)
  refine Or.inr (Or.inr ⟨by decide, be32 1 ++ be32 1, [], rfl, by decide, ?_, ?_, ?_, ?_, ?_⟩)
  all_goals first
    | exact fun h => absurd h (by decide)
    | exact fun _ _ => by decide

/-- The logger reads four bytes of a message that has none. -/
theorem empty_status_not_read :
    ¬ ∀ (initialized blocking : Bool) (request : SshRequest) (head : Bytes)
        (s rest : Stream GftpError), readExactly 5 s = .ok (.ok head, rest) →
      ∃ r, readResponse initialized blocking request s = .ok r ∧ Read head rest r := by
  intro h
  obtain ⟨r, hr, _⟩ := h true true freshRequest [0, 0, 0, 1, 101] [.ok [0, 0, 0, 1, 101]] [] rfl
  have hfault : readResponse true true freshRequest [.ok [0, 0, 0, 1, 101]] = .error .fault := rfl
  rw [hfault] at hr
  simp at hr

/-- A whole message that can be logged, or a length that is too big, has arrived. -/
def Arrives (dontLogStatus : Bool) (bytes : Bytes) : Prop :=
  5 ≤ bytes.length ∧ (34000 < headerLength bytes ∨
    (0 < headerLength bytes ∧ headerLength bytes + 4 ≤ bytes.length ∧
      LogFits dontLogStatus (headerCommand bytes)
        ((bytes.drop 5).take (headerLength bytes - 1) ++ [0, 0])))

/-- A complete message, the next bytes of the stream, or a negative result. -/
def Returned (s : Stream GftpError) (r : ReadResult) : Prop :=
  (∃ head payload, StoredWhole head payload r ∧
    contents s = head ++ (payload ++ contents r.stream)) ∨ ∃ e, r.ret = .error e

private theorem headerLength_append {head rest : Bytes} (h : 5 ≤ head.length) :
    headerLength (head ++ rest) = headerLength head := by
  unfold headerLength
  rw [read32_append (by omega)]

private theorem headerCommand_append {head rest : Bytes} (h : 5 ≤ head.length) :
    headerCommand (head ++ rest) = headerCommand head := by
  unfold headerCommand
  rw [List.drop_append_of_le_length (by omega)]
  cases hdrop : head.drop 4 with
  | nil =>
    rw [List.drop_eq_nil_iff] at hdrop
    omega
  | cons c l => rfl

/-- Before end of file the response is returned exactly when it has arrived; otherwise
the loops do not end or the logger leaves the message. -/
theorem response_returned_iff (initialized blocking : Bool) (request : SshRequest)
    (s : Stream GftpError) (hplain : Plain s) :
    (∃ r, readResponse initialized blocking request s = .ok r ∧ Returned s r) ↔
      Arrives request.params.dontLogStatus (contents s) := by
  unfold Arrives
  rcases Nat.lt_or_ge (contents s).length 5 with hshort | hfive
  · have hpending := readExactly_short hplain hshort
    refine iff_of_false ?_ (fun h => by omega)
    rintro ⟨r, hr, _⟩
    simp [readResponse, hpending] at hr
  obtain ⟨rest, hhead, hrest, hplain'⟩ := readExactly_plain hplain
    (List.take_append_drop 5 (contents s)).symm (List.length_take_of_le hfive)
  have hlen : 5 ≤ ((contents s).take 5).length := by rw [List.length_take_of_le hfive]
  have hlength : headerLength (contents s) = headerLength ((contents s).take 5) := by
    rw [← headerLength_append hlen, List.take_append_drop]
  have hcommand : headerCommand (contents s) = headerCommand ((contents s).take 5) := by
    rw [← headerCommand_append hlen, List.take_append_drop]
  have hreturned : ∀ r, Read ((contents s).take 5) rest r → Returned s r := by
    rintro r (⟨hret, _⟩ | ⟨payload, hstored, hpayload⟩)
    · exact Or.inr hret
    · refine Or.inl ⟨(contents s).take 5, payload, hstored, ?_⟩
      rw [← (readExactly_ok hpayload).2, hrest, List.take_append_drop]
  have hsame : (∃ r, readResponse initialized blocking request s = .ok r ∧ Returned s r) ↔
      ∃ r, readResponse initialized blocking request s = .ok r ∧
        Read ((contents s).take 5) rest r := by
    constructor
    · rintro ⟨r, hr, _⟩
      exact ⟨r, hr, read_of_ok hhead hr⟩
    · rintro ⟨r, hr, hread⟩
      exact ⟨r, hr, hreturned r hread⟩
  rw [hsame, hlength, hcommand]
  generalize (contents s).take 5 = head at hhead
  rcases Nat.lt_or_ge 34000 (headerLength head) with hbig | hle
  · obtain ⟨r, hr, hret, hbuffer⟩ :=
      rejectLength_eq initialized blocking request (headerLength head) rest
    rw [readResponse_tooBig hhead hbig]
    exact iff_of_true ⟨r, hr, Or.inl ⟨⟨_, hret⟩, hbuffer⟩⟩ ⟨hfive, Or.inl hbig⟩
  rcases Nat.eq_zero_or_pos (headerLength head) with hzero | hpos
  · rw [read_zero_iff hhead hzero]
    refine iff_of_false (fun ⟨e, s', he⟩ => readExactly_no_error hplain' he) ?_
    rintro ⟨_, hbig | ⟨hpos, _⟩⟩ <;> omega
  rw [read_positive_iff hhead hpos hle]
  have hdrop : ((contents s).drop 5).length = (contents s).length - 5 := List.length_drop ..
  rcases Nat.lt_or_ge (contents s).length (headerLength head + 4) with hshort | hlong
  · have hpending := @readExactly_short _ _ (headerLength head - 1) hplain'
      (by rw [hrest]; omega)
    refine iff_of_false ?_ ?_
    · simp [hpending]
    · rintro ⟨_, hbig | ⟨_, hle', _⟩⟩ <;> omega
  · obtain ⟨s', hpayload, _, _⟩ := readExactly_plain hplain'
      (hrest.trans (List.take_append_drop (headerLength head - 1) _).symm)
      (List.length_take_of_le (by omega))
    rw [hpayload]
    simp [hfive, hpos, hlong, Nat.not_lt.mpr hle]

/-- The status message that a server sends before it closes the connection. -/
theorem status_message_returned :
    ∃ r, readResponse true true freshRequest [.ok [0, 0, 0, 9, 101], .ok (be32 1 ++ be32 1)] =
        .ok r ∧ Returned [.ok [0, 0, 0, 9, 101], .ok (be32 1 ++ be32 1)] r := by
  refine (response_returned_iff true true freshRequest _ ?_).mpr ⟨by decide, Or.inr
    ⟨by decide, by decide, by decide, ?_, ?_, ?_, ?_, ?_⟩⟩
  · exact plain_cons.mpr ⟨by decide, plain_cons.mpr ⟨by decide, plain_nil⟩⟩
  all_goals first
    | exact fun h => absurd h (by decide)
    | exact fun _ _ => by decide

/-- At end of file the loops go on. -/
theorem closed_connection_not_returned :
    ¬ ∀ (initialized blocking : Bool) (request : SshRequest) (s : Stream GftpError),
      Plain s → ∃ r, readResponse initialized blocking request s = .ok r ∧ Returned s r := by
  intro h
  obtain ⟨r, hr, _⟩ := h true true freshRequest [] plain_nil
  have hpending : readResponse true true freshRequest [] = .error .pending := rfl
  rw [hpending] at hr
  simp at hr

end Gftp.SshFraming
