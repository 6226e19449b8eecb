import Gftp.FspTransactions

/-!
Files of the FSP library. A file has a packet for its questions and one for the answers, and the data
of one of them is the buffer: what has been read and not been given away, or what has been written
and not been sent. fsp.c reads and writes single bytes, a member at a time of size 1.
-/

namespace Gftp.FspFiles

open ByteStrings FspPackets FspTransactions

def ccInstall : UInt8 := 0x44

/-- A session, what the network does in the transactions to come, and the transactions so far. -/
structure Link where
  session : FspSession
  coming : List Exchange
  history : List (FspPkt × Reply)

def Link.after (link : Link) (coming : List Exchange) (p : FspPkt) (reply : Reply) : Link :=
  ⟨reply.session, coming, link.history ++ [(p, reply)]⟩

/-- fsp_transaction on the session: whether 0 is returned, and the packet that was read into. -/
def Link.transact (link : Link) (p rpkt : FspPkt) : CRun (Bool × FspPkt × Link) :=
  match link.coming with
  | [] => .error .pending
  | exchange :: coming => do
      let reply ← fspTransaction link.session exchange p rpkt
      return (reply.ret, reply.rpkt, link.after coming p reply)

structure FspFile where
  answer : FspPkt
  out : FspPkt
  name : CString
  writing : Bool
  eof : Bool
  err : Bool
  bufpos : ℤ
  pos : UInt32

/-- The packet that asks about the position of the file. -/
def question (file : FspFile) : FspPkt := { file.out with pos := file.pos }

/-- A transaction about the data at the position of the file; none when err is set. -/
def ask (link : Link) (file : FspFile) : CRun (Option FspPkt × FspFile × Link) := do
  let (ret, answer, link) ← link.transact (question file) file.answer
  let file := { file with out := question file, answer := answer }
  if ret = false then return (none, { file with err := true }, link)
  else if answer.cmd = ccErr then return (none, { file with err := true }, link)
  else return (some answer, file, link)

def filled (file : FspFile) (answer : FspPkt) : FspFile :=
  let bufpos : ℤ := space - answer.len.toNat
  { file with
    bufpos := bufpos
    answer :=
      if 0 < bufpos then
        { answer with buf := answer.buf.take bufpos.toNat ++ answer.buf.take answer.len.toNat }
      else answer
    pos := file.pos + answer.len.toUInt32 }

/-- More data when the buffer is used up; not when the transaction has failed. -/
def refill (file : FspFile) (link : Link) : CRun (Bool × FspFile × Link) :=
  if (space : ℤ) ≤ file.bufpos then do
    let (answer, file, link) ← ask link file
    match answer with
    | none => return (false, file, link)
    | some answer => return (true, filled file answer, link)
  else .ok (true, file, link)

/-- What fsp_fread and fsp_fwrite return, with the bytes that were copied. -/
structure Moved where
  ret : ℕ
  data : Bytes
  file : FspFile
  link : Link

/-- The packets that come with the number of a transaction are answers of the server. -/
def Serving (answers : FspPkt → Prop) : UInt16 → List Exchange → Prop
  | _, [] => True
  | seq, exchange :: coming =>
      (∀ packet r, Came exchange.rounds packet → ReadFrom packet r →
        r.seq &&& 0xfff8 = nextSeq seq exchange.random → answers r) ∧
      Serving answers (nextSeq seq exchange.random) coming

/-- A session between transactions and what is still to come from the server. -/
structure Online (answers : FspPkt → Prop) (link : Link) : Prop where
  opened : Opened link.session
  serving : Serving answers link.session.seq link.coming

/-- The network goes on long enough for a number of transactions to end. -/
structure Supplied (n : ℕ) (link : Link) : Prop where
  timeout : link.session.timeout ≤ 34340
  exchanges : n ≤ link.coming.length
  rounds : ∀ exchange ∈ link.coming, link.session.timeout ≤ 1000 * exchange.rounds.length

/-- What buildfilename puts into a packet. -/
def named (password : Option CString) (dirname : CString) : Bytes :=
  match password with
  | none => dirname.bytes ++ [0]
  | some password => dirname.bytes ++ [10] ++ (password.bytes ++ [0])

section Names

variable {s : FspSession} {out : FspPkt} {dirname : CString}

end Names

section Links

variable {α β : Type} {link : Link} {p rpkt : FspPkt} {file : FspFile} {k m n : ℕ} {x : CRun α}
  {rest : α → Link} {rest' : β → Link} {P Q : α → Prop} {Q' : β → Prop}

/-- A call that may take k transactions. It fails only when fewer come to their end; when it returns,
n are left, and the postcondition holds. -/
def Comes {α : Type} (link : Link) (k n : ℕ) (x : CRun α) (rest : α → Link) (Q : α → Prop) : Prop :=
  (∃ e, x = .error e ∧ ¬ Supplied k link) ∨
    ∃ a, x = .ok a ∧ (Supplied k link → Supplied n (rest a)) ∧ Q a

theorem Supplied.less {m : ℕ} (h : Supplied n link) (hle : m ≤ n) : Supplied m link :=
  ⟨h.timeout, hle.trans h.exchanges, h.rounds⟩

theorem Supplied.after {exchange : Exchange} {coming : List Exchange} {reply : Reply}
    (h : Supplied (n + 1) link) (hcoming : link.coming = exchange :: coming)
    (hdone : Exchanged link.session exchange p reply) : Supplied n (link.after coming p reply) := by
  have htimeout : (link.after coming p reply).session.timeout = link.session.timeout := hdone.kept.1
  have hlength := h.exchanges
  rw [hcoming, List.length_cons] at hlength
  refine ⟨htimeout ▸ h.timeout, Nat.le_of_succ_le_succ hlength, fun e he => ?_⟩
  rw [htimeout]
  exact h.rounds e (hcoming ▸ List.mem_cons_of_mem _ he)

theorem Comes.ok {a : α} (hrest : rest a = link) (hle : n ≤ k) (hq : Q a) :
    Comes link k n (.ok a) rest Q := .inr ⟨a, rfl, fun hs => hrest ▸ hs.less hle, hq⟩

theorem Comes.post (h : Comes link k n x rest P) (hpq : ∀ a, P a → Q a) : Comes link k n x rest Q :=
  h.imp_right fun ⟨a, hrun, hleft, hp⟩ => ⟨a, hrun, hleft, hpq a hp⟩

theorem Comes.bind {f : α → CRun β} (hx : Comes link k m x rest P)
    (hf : ∀ a, P a → Comes (rest a) m n (f a) rest' Q') : Comes link k n (x >>= f) rest' Q' := by
  rcases hx with ⟨e, rfl, hnot⟩ | ⟨a, rfl, hleft, hp⟩
  · exact .inl ⟨e, rfl, hnot⟩
  · rcases hf a hp with ⟨e, hrun, hnot⟩ | ⟨b, hrun, hleft', hq⟩
    · exact .inl ⟨e, hrun, fun hs => hnot (hleft hs)⟩
    · exact .inr ⟨b, hrun, fun hs => hleft' (hleft hs), hq⟩

theorem Comes.ends (h : Comes link k n x rest Q) :
    (∀ a, x = .ok a → Q a) ∧ (Supplied k link → ∃ a, x = .ok a) := by
  rcases h with ⟨e, rfl, hnot⟩ | ⟨a, rfl, -, hq⟩
  · exact ⟨(fun a h => by cases h), fun hs => absurd hs hnot⟩
  · exact ⟨fun b h => Except.ok.inj h ▸ hq, fun _ => ⟨a, rfl⟩⟩

/-- The answer that is gone on with. -/
def given (reply : Reply) : Option FspPkt :=
  if reply.ret = true ∧ reply.rpkt.cmd ≠ ccErr then some reply.rpkt else none

/-- A transaction leaves the session to the next one, and its answer is one of the server. -/
theorem Online.after {answers : FspPkt → Prop} {exchange : Exchange} {coming : List Exchange}
    {reply : Reply} (h : Online answers link) (hcoming : link.coming = exchange :: coming)
    (hdone : Exchanged link.session exchange p reply) :
    Online answers (link.after coming p reply) ∧
      ∀ r, given reply = some r →
        Room r ∧ r.cmd = p.cmd ∧ (Positional p.cmd → r.pos = p.pos) ∧ answers r := by
  have hserving := h.serving
  rw [hcoming] at hserving
  refine ⟨⟨hdone.opened, ?_⟩, fun r hr => ?_⟩
  · change Serving answers reply.session.seq coming
    rw [hdone.seq]
    exact hserving.2
  · unfold given at hr
    split_ifs at hr with hgiven
    obtain rfl := Option.some.inj hr
    obtain ⟨-, hanswers, packet, hcame, hread⟩ := hdone.answered hgiven.1
    have hcmd : reply.rpkt.cmd = p.cmd := hanswers.cmd.resolve_right hgiven.2
    refine ⟨hdone.room, hcmd, hanswers.pos, hserving.1 packet _ hcame hread ?_⟩
    rw [← hdone.seq]
    exact hanswers.seq

def noted (file : FspFile) (reply : Reply) : FspFile :=
  { file with
    out := question file
    answer := reply.rpkt
    err := file.err || (given reply).isNone }

end Links

end Gftp.FspFiles
