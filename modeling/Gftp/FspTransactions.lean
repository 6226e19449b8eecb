import Gftp.FspPackets

/-!
fsp_transaction: a packet is sent again and again until an answer comes that has the sequence number
of the transaction, its command and its position. The network may lose, repeat, delay and alter
packets and bring others. A semaphore keeps the key of the server from the other processes while a
transaction goes on.
-/

namespace Gftp.FspTransactions

open ByteStrings FspPackets

def ccInfo : UInt8 := 0x11
def ccErr : UInt8 := 0x40
def ccGetDir : UInt8 := 0x41
def ccGetFile : UInt8 := 0x42
def ccUpLoad : UInt8 := 0x43
def ccGrabFile : UInt8 := 0x4b

/-- FSP_LOCK: the value of the semaphore and the key that the processes share. -/
structure FspLock where
  sem : ℕ
  shareKey : UInt16

/-- The call does not return while the semaphore is taken. -/
def clientGetKey (lock : FspLock) : CRun (UInt16 × FspLock) :=
  if lock.sem = 0 then .error .pending
  else .ok (lock.shareKey, { lock with sem := lock.sem - 1 })

def clientSetKey (lock : FspLock) (key : UInt16) : FspLock := ⟨lock.sem + 1, key⟩

/-- The fields of FSP_SESSION that decide something. -/
structure FspSession where
  lock : FspLock
  timeout : ℕ
  maxdelay : ℕ
  seq : UInt16
  password : Option CString

/-- What select and recv bring while an answer is waited for, with the milliseconds since the last
packet was sent. -/
inductive Arrival
  | interrupted (elapsed : ℤ)
  | arrived (packet : Bytes) (elapsed : ℤ)

/-- How the waiting ends when nothing more comes. -/
inductive Silence
  | timedOut
  | selectFailed
  | recvFailed

inductive SendResult
  | sent
  | badSocket
  | failed

/-- What happens to one packet that is sent. -/
structure Round where
  send : SendResult
  arrivals : List Arrival
  silence : Silence

/-- What happens in one transaction: the low bits of random and the rounds. -/
structure Exchange where
  random : UInt16
  rounds : List Round

/-- How the receive loop is left, with the packet that was read into. -/
inductive Waited
  | answer (rpkt : FspPkt)
  | again (rpkt : FspPkt)
  | failed (rpkt : FspPkt)

/-- The commands whose answers must have the position of the question. -/
def Positional (cmd : UInt8) : Prop :=
  cmd = ccGetDir ∨ cmd = ccGetFile ∨ cmd = ccUpLoad ∨ cmd = ccGrabFile ∨ cmd = ccInfo

instance (cmd : UInt8) : Decidable (Positional cmd) := inferInstanceAs (Decidable (_ ∨ _))

/-- The receive loop. -/
def receive (seq : UInt16) (p : FspPkt) (silence : Silence) : ℤ → FspPkt → List Arrival → CRun Waited
  | wDelay, rpkt, [] =>
      if wDelay ≤ 0 then .ok (.again rpkt)
      else
        match silence with
        | .timedOut => .ok (.again rpkt)
        | .selectFailed => .ok (.failed rpkt)
        | .recvFailed => .ok (.failed rpkt)
  | wDelay, rpkt, .interrupted elapsed :: arrivals =>
      if wDelay ≤ 0 then .ok (.again rpkt)
      else receive seq p silence (wDelay - elapsed) rpkt arrivals
  | wDelay, rpkt, .arrived packet elapsed :: arrivals =>
      if wDelay ≤ 0 then .ok (.again rpkt)
      else do
        let (ret, rpkt) ← fspPktRead rpkt (packet.take maxpacket)
        let wDelay := wDelay - elapsed
        if ret = false then receive seq p silence wDelay rpkt arrivals
        else if rpkt.seq &&& 0xfff8 ≠ seq then receive seq p silence wDelay rpkt arrivals
        else if rpkt.cmd ≠ p.cmd ∧ rpkt.cmd ≠ ccErr then receive seq p silence wDelay rpkt arrivals
        else if rpkt.pos ≠ p.pos ∧ Positional p.cmd then receive seq p silence wDelay rpkt arrivals
        else return .answer rpkt

/-- Whether 0 is returned, the packet that was read into, the session afterwards and the packets
that send has taken. -/
structure Reply where
  ret : Bool
  rpkt : FspPkt
  session : FspSession
  sent : List FspPkt

/-- The session when a transaction is over. -/
def FspSession.unlock (s : FspSession) (key : UInt16) : FspSession :=
  { s with lock := clientSetKey s.lock key }

/-- The delay within its limits. -/
def clampDelay (maxdelay delay : ℕ) : ℕ :=
  if maxdelay < delay then maxdelay else if delay < 1000 then 1000 else delay

/-- The packet of a round. -/
def numbered (s : FspSession) (p : FspPkt) (retry : ℕ) : FspPkt :=
  { p with seq := s.seq ||| UInt16.ofNat (retry % 8) }

/-- The rounds of a transaction. The delay is an int: l_delay * 3 must fit. -/
def attempts (s : FspSession) (p : FspPkt) :
    ℕ → ℕ → ℕ → FspPkt → List FspPkt → List Round → CRun Reply
  | _, tDelay, _, rpkt, sent, [] =>
      if s.timeout ≤ tDelay then .ok ⟨false, rpkt, s.unlock p.key, sent⟩ else .error .pending
  | retry, tDelay, lDelay, rpkt, sent, round :: rounds =>
      if s.timeout ≤ tDelay then .ok ⟨false, rpkt, s.unlock p.key, sent⟩
      else if retry ≠ 0 ∧ 2 ^ 31 ≤ lDelay * 3 then .error .fault
      else
        let q := numbered s p retry
        let lDelay := if retry = 0 then 1340 else lDelay * 3 / 2
        match round.send with
        | .badSocket => .ok ⟨false, rpkt, s.unlock p.key, sent⟩
        | .failed => attempts s p retry (tDelay + 1000) lDelay rpkt sent rounds
        | .sent => do
            let wDelay := clampDelay s.maxdelay lDelay
            match ← receive s.seq q round.silence wDelay rpkt round.arrivals with
            | .answer rpkt => return ⟨true, rpkt, s.unlock rpkt.key, sent ++ [q]⟩
            | .failed rpkt => return ⟨false, rpkt, s.unlock p.key, sent ++ [q]⟩
            | .again rpkt =>
                attempts s p (retry + 1) (tDelay + wDelay) lDelay rpkt (sent ++ [q]) rounds

/-- The sequence number of the next transaction. -/
def nextSeq (seq random : UInt16) : UInt16 :=
  if seq = random &&& 0xfff8 then seq ^^^ 0x1080 else random &&& 0xfff8

/-- fsp_transaction, with p and rpkt different packets. -/
def fspTransaction (s : FspSession) (exchange : Exchange) (p rpkt : FspPkt) : CRun Reply := do
  let (key, lock) ← clientGetKey s.lock
  attempts { s with lock := lock, seq := nextSeq s.seq exchange.random } { p with key := key } 0 0 0
    rpkt [] exchange.rounds

/-- fsp_open_session, when the sockets, the memory and the lock are there. -/
def fspOpenSession (shareKey random : UInt16) (password : Option CString) : FspSession where
  lock := ⟨1, shareKey⟩
  timeout := 300000
  maxdelay := 60000
  seq := random &&& 0xfff8
  password := password

/-- What holds of a session between two transactions. -/
structure Opened (s : FspSession) : Prop where
  free : s.lock.sem = 1
  based : s.seq &&& 0xfff8 = s.seq
  maxdelay : s.maxdelay = 60000

/-- What a packet must have to be taken as the answer. -/
structure Answers (seq : UInt16) (p r : FspPkt) : Prop where
  seq : r.seq &&& 0xfff8 = seq
  cmd : r.cmd = p.cmd ∨ r.cmd = ccErr
  pos : Positional p.cmd → r.pos = p.pos

/-- A datagram has come in a round. -/
def Came (rounds : List Round) (packet : Bytes) : Prop :=
  ∃ round ∈ rounds, ∃ elapsed, .arrived packet elapsed ∈ round.arrivals

/-- The packet was read from a datagram. -/
def ReadFrom (packet : Bytes) (r : FspPkt) : Prop :=
  ∃ q, fspPktRead q (packet.take maxpacket) = .ok (true, r)

section Receive

variable {seq : UInt16} {p rpkt : FspPkt} {silence : Silence} {arrivals : List Arrival}

theorem read_returns (hroom : Room rpkt) (ptr : Bytes) :
    ∃ ret r, fspPktRead rpkt ptr = .ok (ret, r) ∧ Room r := by
  by_cases h : Accepted ptr
  · exact ⟨true, _, read_accepted hroom h, taken_room hroom h⟩
  · obtain ⟨r, hread, hbuf⟩ := @read_refused rpkt ptr h
    refine ⟨false, r, hread, ?_⟩
    rw [Room, hbuf]
    exact hroom

/-- What the receive loop may be left with. -/
def Waited.Sound (seq : UInt16) (p : FspPkt) (arrivals : List Arrival) : Waited → Prop
  | .answer r => Room r ∧ Answers seq p r ∧
      ∃ packet elapsed, .arrived packet elapsed ∈ arrivals ∧ ReadFrom packet r
  | .again r => Room r
  | .failed r => Room r

theorem Waited.Sound.later {w : Waited} {arrival : Arrival} (h : w.Sound seq p arrivals) :
    w.Sound seq p (arrival :: arrivals) := by
  cases w with
  | answer r =>
    obtain ⟨hroom, hanswers, packet, elapsed, hmem, hread⟩ := h
    exact ⟨hroom, hanswers, packet, elapsed, List.mem_cons_of_mem _ hmem, hread⟩
  | again r => exact h
  | failed r => exact h

theorem receive_silent {wDelay : ℤ} (h : 0 < wDelay) :
    receive seq p .timedOut wDelay rpkt [] = .ok (.again rpkt) := by
  rw [receive, if_neg (Int.not_le.mpr h)]

theorem receive_sound (hroom : Room rpkt) (wDelay : ℤ) :
    ∃ w, receive seq p silence wDelay rpkt arrivals = .ok w ∧ w.Sound seq p arrivals := by
  induction arrivals generalizing wDelay rpkt with
  | nil =>
    unfold receive
    by_cases hdelay : wDelay ≤ 0
    · exact ⟨_, if_pos hdelay, hroom⟩
    · rw [if_neg hdelay]
      cases silence <;> exact ⟨_, rfl, hroom⟩
  | cons arrival arrivals ih =>
    by_cases hdelay : wDelay ≤ 0
    · cases arrival <;> exact ⟨_, if_pos hdelay, hroom⟩
    have hlater : ∀ {r}, Room r → ∀ wDelay, ∃ w,
        receive seq p silence wDelay r arrivals = .ok w ∧ w.Sound seq p (arrival :: arrivals) := by
      intro r hr wDelay
      obtain ⟨w, hrun, hsound⟩ := ih hr wDelay
      exact ⟨w, hrun, hsound.later⟩
    cases arrival with
    | interrupted elapsed =>
      rw [receive, if_neg hdelay]
      exact hlater hroom _
    | arrived packet elapsed =>
      obtain ⟨ret, r, hread, hr⟩ := read_returns hroom (packet.take maxpacket)
      rw [receive, if_neg hdelay, hread, CRun.ok_bind]
      dsimp only
      split_ifs with hret hseq hcmd hpos
      · exact hlater hr _
      · exact hlater hr _
      · exact hlater hr _
      · exact hlater hr _
      · refine ⟨_, rfl, hr, ⟨not_not.mp hseq, ?_, fun hp => ?_⟩, packet, elapsed,
          List.mem_cons_self, rpkt, ?_⟩
        · by_contra hne
          exact hcmd (not_or.mp hne)
        · by_contra hne
          exact hpos ⟨hne, hp⟩
        · rw [hread, show ret = true by simpa using hret]

end Receive

section Attempts

variable {s : FspSession} {p rpkt : FspPkt} {sent : List FspPkt} {rounds : List Round}

/-- What a transaction leaves, whatever the network has done. -/
structure Attempted (s : FspSession) (p : FspPkt) (sent : List FspPkt) (rounds : List Round)
    (reply : Reply) : Prop where
  room : Room reply.rpkt
  session : reply.session = s.unlock (if reply.ret then reply.rpkt.key else p.key)
  answered : reply.ret = true → Answers s.seq p reply.rpkt ∧
    ∃ packet, Came rounds packet ∧ ReadFrom packet reply.rpkt
  sent : ∃ more, reply.sent = sent ++ more ∧ (∀ q ∈ more, ∃ retry, q = numbered s p retry) ∧
    (reply.ret = true → more ≠ [])

theorem Attempted.failed {all more : List FspPkt} (hroom : Room rpkt) (hall : all = sent ++ more)
    (hmore : ∀ q ∈ more, ∃ retry, q = numbered s p retry) :
    Attempted s p sent rounds ⟨false, rpkt, s.unlock p.key, all⟩ where
  room := hroom
  session := rfl
  answered h := by cases h
  sent := ⟨more, hall, hmore, fun h => by cases h⟩

theorem Attempted.stopped (hroom : Room rpkt) :
    Attempted s p sent rounds ⟨false, rpkt, s.unlock p.key, sent⟩ :=
  .failed hroom (List.append_nil _).symm fun q hq => by cases hq

theorem Came.later {round : Round} {packet : Bytes} (h : Came rounds packet) :
    Came (round :: rounds) packet := by
  obtain ⟨r, hr, harrived⟩ := h
  exact ⟨r, List.mem_cons_of_mem _ hr, harrived⟩

theorem Attempted.later {round : Round} {more : List FspPkt} {reply : Reply}
    (hmore : ∀ q ∈ more, ∃ retry, q = numbered s p retry)
    (h : Attempted s p (sent ++ more) rounds reply) :
    Attempted s p sent (round :: rounds) reply where
  room := h.room
  session := h.session
  answered hret := by
    obtain ⟨hanswers, packet, hcame, hread⟩ := h.answered hret
    exact ⟨hanswers, packet, hcame.later, hread⟩
  sent := by
    obtain ⟨last, hsent, hlast, hne⟩ := h.sent
    refine ⟨more ++ last, by rw [hsent, List.append_assoc], ?_, fun hret => ?_⟩
    · intro q hq
      rcases List.mem_append.mp hq with hq | hq
      · exact hmore q hq
      · exact hlast q hq
    · exact fun hnil => hne hret (List.append_eq_nil_iff.mp hnil).2

end Attempts

section Numbers

end Numbers

section Transactions

variable {s : FspSession} {exchange : Exchange} {p rpkt : FspPkt}

theorem getKey_opened (hs : Opened s) :
    clientGetKey s.lock = .ok (s.lock.shareKey, ⟨0, s.lock.shareKey⟩) := by
  rw [clientGetKey, if_neg (by rw [hs.free]; decide), hs.free]

/-- One transaction of a session. The key that the other processes wait for is free again, the packets
sent carry the last key and the number of this transaction, and an answer is one to them. -/
structure Exchanged (s : FspSession) (exchange : Exchange) (p : FspPkt) (reply : Reply) : Prop where
  opened : Opened reply.session
  seq : reply.session.seq = nextSeq s.seq exchange.random
  unanswered : reply.session.seq ≠ s.seq
  kept : reply.session.timeout = s.timeout ∧ reply.session.password = s.password
  key : reply.session.lock.shareKey = if reply.ret then reply.rpkt.key else s.lock.shareKey
  room : Room reply.rpkt
  sent : ∀ q ∈ reply.sent, q.seq &&& 0xfff8 = reply.session.seq ∧
    q = { p with key := s.lock.shareKey, seq := q.seq }
  answered : reply.ret = true → reply.sent ≠ [] ∧ Answers reply.session.seq p reply.rpkt ∧
    ∃ packet, Came exchange.rounds packet ∧ ReadFrom packet reply.rpkt

/-- A run of transactions, each of which finds the session as the one before has left it. -/
def Orderly (s : FspSession) : List (Exchange × FspPkt × FspPkt) → List Reply → Prop
  | [], replies => replies = []
  | (exchange, p, _) :: work, replies =>
      ∃ reply rest, replies = reply :: rest ∧ Exchanged s exchange p reply ∧
        Orderly reply.session work rest

end Transactions

section Bounds

variable {s : FspSession} {p rpkt : FspPkt} {retry tDelay lDelay : ℕ} {sent : List FspPkt}
  {rounds : List Round}

/-- Before the first packet is sent nothing is multiplied; k failures later the delay has grown k
times and a second has passed each time. -/
def Steady (retry tDelay lDelay : ℕ) : Prop :=
  retry = 0 ∨ ∃ k, 1340 + 1000 * k ≤ tDelay ∧ 2 ^ k * lDelay ≤ 1340 * 3 ^ k

theorem Steady.fits (h : Steady retry tDelay lDelay) (htime : tDelay < 34340) (hretry : retry ≠ 0) :
    lDelay * 3 < 2 ^ 31 := by
  rcases h with h | ⟨k, hk, hdelay⟩
  · exact absurd h hretry
  · have hle : k ≤ 32 := by omega
    have hgrow : 2 ^ (32 - k) * (2 ^ k * lDelay) ≤ 3 ^ (32 - k) * (1340 * 3 ^ k) :=
      Nat.mul_le_mul (Nat.pow_le_pow_left (by decide) _) hdelay
    rw [← Nat.mul_assoc, ← Nat.pow_add, Nat.sub_add_cancel hle, Nat.mul_left_comm, ← Nat.pow_add,
      Nat.sub_add_cancel hle] at hgrow
    omega

theorem Steady.next (h : Steady retry tDelay lDelay) {retry' wDelay : ℕ}
    (hdelay : 1000 ≤ wDelay) (hfirst : retry = 0 → retry' = 0 ∨ 1340 ≤ wDelay) :
    Steady retry' (tDelay + wDelay) (if retry = 0 then 1340 else lDelay * 3 / 2) := by
  by_cases hretry : retry = 0
  · rw [if_pos hretry]
    rcases hfirst hretry with hzero | hlong
    · exact .inl hzero
    · exact .inr ⟨0, by omega, by simp⟩
  · rw [if_neg hretry]
    rcases h with h | ⟨k, hk, hgrown⟩
    · exact absurd h hretry
    · refine .inr ⟨k + 1, by rw [Nat.mul_succ, ← Nat.add_assoc]; exact Nat.add_le_add hk hdelay, ?_⟩
      have hhalf : 2 * (lDelay * 3 / 2) ≤ 3 * lDelay := by omega
      calc 2 ^ (k + 1) * (lDelay * 3 / 2) = 2 ^ k * (2 * (lDelay * 3 / 2)) := by
            rw [Nat.pow_succ, Nat.mul_assoc]
        _ ≤ 2 ^ k * (3 * lDelay) := Nat.mul_le_mul_left _ hhalf
        _ = 3 * (2 ^ k * lDelay) := Nat.mul_left_comm _ _ _
        _ ≤ 3 * (1340 * 3 ^ k) := Nat.mul_le_mul_left _ hgrown
        _ = 1340 * 3 ^ (k + 1) := by rw [Nat.pow_succ]; omega

theorem clampDelay_low {delay : ℕ} : 1000 ≤ clampDelay 60000 delay := by
  unfold clampDelay
  split_ifs <;> omega

/-- Enough rounds for the timeout let the transaction end, with at most one packet a second. -/
theorem attempts_return (hmaxdelay : s.maxdelay = 60000) (htimeout : s.timeout ≤ 34340)
    (hroom : Room rpkt) (hsteady : Steady retry tDelay lDelay)
    (hrounds : s.timeout ≤ tDelay + 1000 * rounds.length) (hsent : 1000 * sent.length ≤ tDelay)
    (hbound : 1000 * sent.length < s.timeout + 1000) :
    ∃ reply, attempts s p retry tDelay lDelay rpkt sent rounds = .ok reply ∧
      1000 * reply.sent.length < s.timeout + 1000 := by
  induction rounds generalizing retry tDelay lDelay rpkt sent with
  | nil =>
    rw [List.length_nil, Nat.mul_zero, Nat.add_zero] at hrounds
    rw [attempts, if_pos hrounds]
    exact ⟨_, rfl, hbound⟩
  | cons round rounds ih =>
    rw [attempts]
    by_cases htime : s.timeout ≤ tDelay
    · rw [if_pos htime]
      exact ⟨_, rfl, hbound⟩
    have hfits : ¬ (retry ≠ 0 ∧ 2 ^ 31 ≤ lDelay * 3) := by
      rintro ⟨hretry, hover⟩
      exact absurd (hsteady.fits (by omega) hretry) (Nat.not_lt.mpr hover)
    rw [if_neg htime, if_neg hfits]
    rw [List.length_cons] at hrounds
    obtain ⟨send, arrivals, silence⟩ := round
    cases send with
    | badSocket => exact ⟨_, rfl, hbound⟩
    | failed =>
      exact ih hroom (hsteady.next (Nat.le_refl _) Or.inl) (by omega) (by omega) hbound
    | sent =>
      have hmore : 1000 * (sent ++ [numbered s p retry]).length < s.timeout + 1000 := by
        rw [List.length_append, List.length_singleton]
        omega
      obtain ⟨w, hrun, hsound⟩ := @receive_sound s.seq (numbered s p retry) rpkt silence arrivals
        hroom (clampDelay s.maxdelay (if retry = 0 then 1340 else lDelay * 3 / 2))
      simp only [hrun, CRun.ok_bind]
      cases w with
      | answer r => exact ⟨_, rfl, hmore⟩
      | failed r => exact ⟨_, rfl, hmore⟩
      | again r =>
        rw [hmaxdelay]
        have hlow := @clampDelay_low (if retry = 0 then 1340 else lDelay * 3 / 2)
        refine ih hsound (hsteady.next hlow fun hzero => .inr ?_) (by omega) ?_ hmore
        · rw [if_pos hzero]
          decide
        · rw [List.length_append, List.length_singleton]
          omega

/-- The network is down. -/
def unsendable : Round := ⟨.failed, [], .timedOut⟩

/-- The packet is lost. -/
def lost : Round := ⟨.sent, [], .timedOut⟩

/-- A delay after some packets. -/
def grown : ℕ → ℕ → ℕ
  | 0, delay => delay
  | n + 1, delay => grown n (delay * 3 / 2)

/-- The delay grows each time although only a second passes. -/
theorem attempts_overflow {n : ℕ} (hretry : retry ≠ 0) (htime : tDelay + 1000 * n < s.timeout)
    (hover : 2 ^ 31 ≤ grown n lDelay * 3) :
    attempts s p retry tDelay lDelay rpkt sent (List.replicate (n + 1) unsendable ++ rounds) =
      .error .fault := by
  induction n generalizing tDelay lDelay with
  | zero =>
    rw [grown] at hover
    rw [List.replicate_succ, List.cons_append, attempts, if_neg (by omega), if_pos ⟨hretry, hover⟩]
  | succ n ih =>
    rw [List.replicate_succ, List.cons_append, attempts, if_neg (by omega)]
    by_cases hnow : 2 ^ 31 ≤ lDelay * 3
    · rw [if_pos ⟨hretry, hnow⟩]
    · rw [if_neg fun h => hnow h.2, if_neg hretry]
      rw [grown] at hover
      exact ih (by omega) hover

end Bounds

theorem transaction_returns {s : FspSession} {exchange : Exchange} {p rpkt : FspPkt} (hs : Opened s)
    (htimeout : s.timeout ≤ 34340) (hroom : Room rpkt) (hrounds : s.timeout ≤ 1000 * exchange.rounds.length) :
    ∃ reply, fspTransaction s exchange p rpkt = .ok reply ∧
      1000 * reply.sent.length < s.timeout + 1000 := by
  rw [fspTransaction, getKey_opened hs, CRun.ok_bind]
  exact attempts_return hs.maxdelay htimeout hroom (.inl rfl) (by simpa using hrounds) (Nat.le_refl _)
    (by simp)

/-- A transaction ends after at most one packet for each second of the timeout, whatever the network
does, as long as the timeout is at most 34340 milliseconds. With any longer one the delay leaves the
range of an int on a network that is down after the first packet. -/
theorem transaction_returns_iff {s : FspSession} (hs : Opened s) :
    (∀ exchange p rpkt, Room rpkt → s.timeout ≤ 1000 * exchange.rounds.length →
      ∃ reply, fspTransaction s exchange p rpkt = .ok reply ∧
        1000 * reply.sent.length < s.timeout + 1000) ↔ s.timeout ≤ 34340 := by
  constructor
  · intro h
    by_contra hlong
    have hlength : s.timeout ≤ 1000 *
        (lost :: (List.replicate 34 unsendable ++ List.replicate s.timeout unsendable)).length := by
      simp only [List.length_cons, List.length_append, List.length_replicate]
      omega
    obtain ⟨reply, hreply, -⟩ := h ⟨0, _⟩ blankPkt blankPkt blank_room hlength
    have hdelay : clampDelay s.maxdelay 1340 = 1340 := by
      rw [hs.maxdelay]
      rfl
    have hover : 2 ^ 31 ≤ grown 33 1340 * 3 := by decide
    rw [fspTransaction, getKey_opened hs, CRun.ok_bind] at hreply
    dsimp only at hreply
    rw [attempts, if_neg (by dsimp only; omega), if_neg fun h => h.1 rfl] at hreply
    simp only [lost, if_pos, hdelay, receive_silent (by decide : (0 : ℤ) < (1340 : ℕ)), CRun.ok_bind] at hreply
    rw [attempts_overflow (Nat.succ_ne_zero 0) (by dsimp only; omega) hover] at hreply
    cases hreply
  · exact fun htimeout exchange p rpkt hroom hrounds => transaction_returns hs htimeout hroom hrounds

/-- A session with a network timeout of half a minute. -/
def halfMinute : FspSession := { fspOpenSession 0 0 none with timeout := 30000 }

theorem half_minute_returns : ∃ reply,
    fspTransaction halfMinute ⟨0, List.replicate 30 lost⟩ blankPkt blankPkt = .ok reply ∧
      1000 * reply.sent.length < 31000 :=
  (transaction_returns_iff ⟨rfl, rfl, rfl⟩).mpr (by decide) ⟨0, List.replicate 30 lost⟩ blankPkt blankPkt
    blank_room (Nat.le_refl _)

end Gftp.FspTransactions
