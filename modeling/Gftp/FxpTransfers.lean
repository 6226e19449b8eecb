import Gftp.FtpEvents
import Gftp.ReconnectBound

/-!
A transfer between two FTP servers: rfc959_transfer_file on the two requests. The commands RETR
and STOR are written to both servers before the reply of either is read, and of the replies
only the failures to read one are looked at. The start offsets are not used.
-/

namespace Gftp.FxpTransfers

open ByteStrings Calls Call Decimal FtpClient FtpEvents FtpRules FtpTransfers Protocol ReconnectBound

/-- A call on the request of the source and that of the destination. -/
abbrev Duo (α : Type) := Call (Client × Client) GftpError α

def onSource {α : Type} (x : Ftp α) : Duo α := fun s => ((x s.1).1, ((x s.1).2, s.2))

def onDestination {α : Type} (x : Ftp α) : Duo α := fun s => ((x s.2).1, (s.1, (x s.2).2))

/-- A server as one request meets it, with the options of the request and the fuel of its
connections. -/
structure Peer where
  options : Options
  env : Environment
  fuel : ℕ

def Peer.send (p : Peer) (c : Command) : Ftp UInt8 :=
  sendCommand p.env (gftpConnect p.options p.env p.fuel) c true

section Functions

variable (source destination : Peer) (fromfile tofile : Bytes)

/-- rfc959_transfer_file up to the command for the destination. -/
def negotiate : Duo Unit := do
  onSource (connected (give (.ok ())))
  onDestination (connected (give (.ok ())))
  let ret ← onSource (source.send .pasv)
  if ret ≠ 50 then fail .retryable
  else if ← onSource (look fun s => (s.lastFtpResponse.drop 4).any isDigit) then
    let ret ← onDestination (destination.send .port)
    if ret ≠ 50 then fail .retryable
    else
      onSource (writeCommand source.env (.retr fromfile) true)
      onDestination (writeCommand destination.env (.stor tofile) true)
  else fail .fatal

/-- What follows in rfc959_transfer_file. -/
def readBoth : Duo Unit := do
  let _ ← onSource (readResponse source.env (.reply (.retr fromfile) false) true)
  let _ ← onDestination (readResponse destination.env (.reply (.stor tofile) false) true)
  return ()

def rfc959TransferFile (_fromsize _tosize : ℕ) : Duo Unit := do
  negotiate source destination fromfile tofile
  readBoth source destination fromfile tofile

end Functions

/-- The last reply to a command in these events begins with the digit. -/
def Answered (events : List Event) (c : Command) (digit : UInt8) : Prop :=
  ∃ later m text earlier, events = later ++ .reply c m (.line text) :: earlier ∧
    text.headD 0 = digit ∧ ∀ e ∈ later, ∀ m a, e ≠ .reply c m a

/-- What both servers have accepted when a transfer from an offset has been set up. -/
structure Accepted (fromfile tofile : Bytes) (startsize : ℕ) (fromEvents toEvents : List Event) :
    Prop where
  pasv : Answered fromEvents .pasv 50
  port : Answered toEvents .port 50
  retr : Answered fromEvents (.retr fromfile) 49
  stor : Answered toEvents (.stor tofile) 49
  rest : startsize ≠ 0 →
    Answered fromEvents (.rest startsize) 51 ∧ Answered toEvents (.rest startsize) 51

/-- A result that is not negative means that the servers have accepted, in this call. -/
def SuccessMeansAccepted (fromfile tofile : Bytes) (startsize : ℕ) (s s' : Client × Client)
    (r : Except GftpError Unit) : Prop :=
  r = .ok () → ∃ fromEvents toEvents, s'.1.history = fromEvents ++ s.1.history ∧
    s'.2.history = toEvents ++ s.2.history ∧ Accepted fromfile tofile startsize fromEvents toEvents

/-- A reply that rfc959_read_response returns as a number that is not negative. -/
def Passes (a : Answer) : Prop :=
  ∃ text, a = .line text ∧ text.take 2 ≠ ascii "42" ∧ text.headD 0 < 128

/-- A reply of the kind 1yz. -/
def Preliminary (a : Answer) : Prop := ∃ text, a = .line text ∧ text.headD 0 = 49

/-- When the negotiation has come to its end, the next replies of the servers are accepting ones
and there is nothing to restart, or rfc959_read_response refuses one of them. -/
def RefusalsFail (source destination : Peer) (fromfile tofile : Bytes) (startsize : ℕ)
    (s : Client × Client) : Prop :=
  ∀ t, negotiate source destination fromfile tofile s = (some (.ok ()), t) →
    Passes (source.env.answer t.1.time) → Passes (destination.env.answer t.2.time) →
      startsize = 0 ∧ Preliminary (source.env.answer t.1.time) ∧
        Preliminary (destination.env.answer t.2.time)

/-- No reply to a restart. -/
def noRest (e : Event) : Prop := ∀ n m a, e ≠ .reply (.rest n) m a

section Steps

variable {α β : Type} {x : Ftp α} {f : Except GftpError α → Duo β} {s s' : Client × Client}
  {r : Except GftpError α} {env : Environment} {c : Command} {m : Bool}

theorem onSource_some : onSource x s = (some r, s') ↔ x s.1 = (some r, s'.1) ∧ s'.2 = s.2 := by
  rw [onSource, Prod.ext_iff, Prod.ext_iff, Prod.ext_iff]
  constructor
  · rintro ⟨hr, hfrom, hto⟩
    exact ⟨⟨hr, hfrom⟩, hto.symm⟩
  · rintro ⟨⟨hr, hfrom⟩, hto⟩
    exact ⟨hr, hfrom, hto.symm⟩

theorem onDestination_some :
    onDestination x s = (some r, s') ↔ x s.2 = (some r, s'.2) ∧ s'.1 = s.1 := by
  rw [onDestination, Prod.ext_iff, Prod.ext_iff, Prod.ext_iff]
  constructor
  · rintro ⟨hr, hfrom, hto⟩
    exact ⟨⟨hr, hto⟩, hfrom.symm⟩
  · rintro ⟨⟨hr, hto⟩, hfrom⟩
    exact ⟨hr, hfrom.symm, hto⟩

theorem bind_ok {σ ε : Type} {x : Call σ ε α} {f : α → Call σ ε β} {s t : σ} {b : β}
    (h : (x >>= f) s = (some (.ok b), t)) :
    ∃ a s', x s = (some (.ok a), s') ∧ f a s' = (some (.ok b), t) := by
  obtain ⟨r, s', hx, hf⟩ := handle_eq_some.mp h
  cases r with
  | ok a => exact ⟨a, s', hx, hf⟩
  | error e => cases hf

theorem noRest_login : LoginEvents noRest := by
  refine ⟨fun c hc => ⟨fun _ _ _ _ _ _ _ => nofun, fun m a n m' a' heq => ?_⟩, fun _ _ _ => nofun,
    fun _ _ _ => nofun, fun _ _ _ _ => nofun, fun _ _ _ _ => nofun⟩
  obtain ⟨rfl, -⟩ := Event.reply.inj heq
  cases hc

theorem exchange_ok {s s' : Client} {ret : UInt8} (h : exchange env c m s = (some (.ok ret), s')) :
    ∃ text sent, s'.history = .reply c m (.line text) :: sent :: s.history ∧
      text.headD 0 = ret ∧ s'.datafd ≠ none ∧ ∀ m a, sent ≠ .reply c m a := by
  have hspec : Spec (fun _ _ => True) (fun v => v = view s) (exchange env c m) (fun r v => r = .ok ret →
      ∃ text sent, v.history = .reply c m (.line text) :: sent :: s.history ∧
        text.headD 0 = ret ∧ v.datafd ≠ none ∧ ∀ m a, sent ≠ .reply c m a) := by
    refine exchange_spec ?_ ?_ ?_ ?_ ?_
    · exact fun _ _ _ => nofun
    · exact fun _ _ _ _ _ => nofun
    · exact fun _ _ _ _ _ => nofun
    · exact fun _ _ _ _ _ _ _ => nofun
    · rintro v text - - rfl hopen hret
      unfold charRet at hret
      split at hret
      · exact ⟨text, _, rfl, Except.ok.inj hret, hopen, fun _ _ => nofun⟩
      · cases hret
  exact (hspec s _ s' h throughout_true).2 rfl rfl

/-- A command of a login that was answered, at once or behind another login. -/
theorem send_ok {p : Peer} (hc : ofLogin c = true) {s s' : Client} {ret : UInt8}
    (h : p.send c s = (some (.ok ret), s')) :
    ∃ m text events, s'.history = .reply c m (.line text) :: events ++ s.history ∧
      text.headD 0 = ret ∧ s'.datafd ≠ none ∧ ∀ e ∈ events, noRest e := by
  have hlogin := noRest_login
  obtain ⟨r, s₁, hfirst, hrest⟩ := handle_eq_some.mp h
  have hdone : ∀ (m : Bool) (u u' : Client) (events : List Event),
      exchange p.env c m u = (some (.ok ret), u') → u.history = events ++ s.history →
        (∀ e ∈ events, noRest e) → ∃ m text events,
          u'.history = .reply c m (.line text) :: events ++ s.history ∧
            text.headD 0 = ret ∧ u'.datafd ≠ none ∧ ∀ e ∈ events, noRest e := by
    intro m u u' events hrun hevents hall
    obtain ⟨text, sent, hhistory, hret, hopen, -⟩ := exchange_ok hrun
    have hemits : Emits noRest (exchange p.env c m) :=
      exchange_emits hlogin.closed (hlogin.commands c hc)
    obtain ⟨new, hnew, hnone⟩ := hemits u
    rw [hrun] at hnew
    have hsent : noRest sent := by
      have hcut : .reply c m (.line text) :: sent :: u.history = new ++ u.history :=
        hhistory.symm.trans hnew
      have hpair : [.reply c m (.line text), sent] = new := List.append_cancel_right hcut
      exact hnone sent (hpair ▸ List.mem_cons_of_mem _ (List.mem_singleton_self _))
    refine ⟨m, text, sent :: events, ?_, hret, hopen, List.forall_mem_cons.mpr ⟨hsent, hall⟩⟩
    rw [hhistory, hevents]
    rfl
  cases r with
  | ok a =>
    obtain ⟨hr, rfl⟩ := Prod.mk.inj hrest
    obtain rfl := Except.ok.inj (Option.some.inj hr)
    exact hdone _ _ _ [] hfirst rfl (List.forall_mem_nil _)
  | error e =>
    by_cases he : e = .timedOut
    · subst he
      obtain ⟨u, s₂, hconnect, hagain⟩ := bind_ok hrest
      have hemits : Emits noRest (exchange p.env c true) :=
        exchange_emits hlogin.closed (hlogin.commands c hc)
      have hemits' : Emits noRest (gftpConnect p.options p.env p.fuel) :=
        gftpConnect_emits hlogin p.fuel
      obtain ⟨new, hnew, hnone⟩ := hemits s
      obtain ⟨new', hnew', hnone'⟩ := hemits' s₁
      rw [hfirst] at hnew
      rw [hconnect] at hnew'
      refine hdone _ _ _ (new' ++ new) hagain ?_ (List.forall_mem_append.mpr ⟨hnone', hnone⟩)
      rw [hnew', hnew, List.append_assoc]
    · have hfailed : give (.error e) s₁ = (some (.ok ret), s') := by
        cases e <;> first | exact hrest | exact absurd rfl he
      cases hfailed

theorem writeCommand_ok {s s' : Client} (h : writeCommand env c m s = (some (.ok ()), s')) :
    ∃ sent, s'.history = sent :: s.history ∧ s'.datafd ≠ none ∧ ∀ c m a, sent ≠ .reply c m a := by
  have hspec : Spec (fun _ _ => True) (fun v => v = view s) (writeCommand env c m)
      (fun r v => r = .ok () → ∃ sent, v.history = sent :: s.history ∧ v.datafd ≠ none ∧
        ∀ c m a, sent ≠ .reply c m a) := by
    refine writeCommand_spec ?_ ?_ ?_
    · exact fun _ _ _ => nofun
    · exact fun _ _ _ _ _ => nofun
    · rintro v - rfl hopen -
      exact ⟨_, rfl, hopen, fun _ _ _ => nofun⟩
  exact (hspec s _ s' h throughout_true).2 rfl rfl

theorem readResponse_passes (event : Answer → Event) {s : Client} (hopen : s.datafd ≠ none)
    (hpass : Passes (env.answer s.time)) :
    ∃ ret s', readResponse env event true s = (some (.ok ret), s') ∧
      s'.history = event (env.answer s.time) :: s.history := by
  obtain ⟨text, hanswer, hfront, hascii⟩ := hpass
  refine ⟨text.headD 0, { s.note (event (.line text)) with
    time := s.time + 1, lastFtpResponse := text }, ?_, ?_⟩
  · rw [readResponse, connected_run hopen, meet_then, change_then, hanswer]
    simp only [change_then, hfront, false_and, if_false, charRet, if_pos hascii]
    rfl
  · rw [hanswer]
    rfl

theorem disconnect_done (env : Environment) (s : Client) :
    ∃ s', disconnect env s = (some (.ok ()), s') := by
  unfold disconnect
  rw [closeDataConnection, change_then, look_then]
  split
  · exact ⟨_, rfl⟩
  · exact ⟨_, rfl⟩

theorem readResponse_refuses (event : Answer → Event) {s : Client} (hopen : s.datafd ≠ none)
    (hfail : ¬Passes (env.answer s.time)) :
    ∃ e s', readResponse env event true s = (some (.error e), s') := by
  rw [readResponse, connected_run hopen, meet_then, change_then]
  cases hanswer : env.answer s.time with
  | failed =>
    obtain ⟨s', hdone⟩ := disconnect_done env
      ({ s with time := s.time + 1 }.note (event .failed))
    exact ⟨.retryable, s', bind_then hdone⟩
  | line text =>
    simp only [change_then]
    by_cases hfront : text.take 2 = ascii "42"
    · rw [if_pos ⟨hfront, trivial⟩]
      obtain ⟨s', hdone⟩ := disconnect_done env
        { ({ s with time := s.time + 1 }.note (event (.line text))) with lastFtpResponse := text }
      exact ⟨.timedOut, s', bind_then hdone⟩
    · rw [if_neg fun h => hfront h.1]
      have hbyte : ¬text.headD 0 < 128 := fun hascii => hfail ⟨text, hanswer, hfront, hascii⟩
      have hret : charRet (text.headD 0) = .error (.ofCode ((text.headD 0).toNat - 256)) :=
        if_neg hbyte
      rw [hret]
      exact ⟨_, _, rfl⟩

end Steps

section Transfer

variable {source destination : Peer} {fromfile tofile : Bytes} {s t : Client × Client}

/-- What a negotiation leaves that has come to its end. -/
structure Negotiated (s t : Client × Client) : Prop where
  fromOpen : t.1.datafd ≠ none
  toOpen : t.2.datafd ≠ none
  fromEvents : ∃ m text sent events, t.1.history = sent :: .reply .pasv m (.line text) :: events ++
    s.1.history ∧ text.headD 0 = 50 ∧ (∀ c m a, sent ≠ .reply c m a) ∧ ∀ e ∈ events, noRest e
  toEvents : ∃ m text sent events, t.2.history = sent :: .reply .port m (.line text) :: events ++
    s.2.history ∧ text.headD 0 = 50 ∧ (∀ c m a, sent ≠ .reply c m a) ∧ ∀ e ∈ events, noRest e

theorem negotiated (h : negotiate source destination fromfile tofile s = (some (.ok ()), t)) :
    Negotiated s t := by
  obtain ⟨_, s₁, hfrom, hrest⟩ := bind_ok h
  obtain ⟨_, s₂, hto, hrest⟩ := bind_ok hrest
  obtain ⟨hfrom, htoSame⟩ := onSource_some.mp hfrom
  obtain ⟨hto, hfromSame⟩ := onDestination_some.mp hto
  have hstay : ∀ {u u' : Client}, connected (give (.ok ())) u = (some (.ok ()), u') → u' = u := by
    intro u u' hrun
    rw [connected, look_then] at hrun
    split at hrun
    · exact (Prod.mk.inj hrun).2.symm
    · cases hrun
  have hs : s₂ = s := Prod.ext (hfromSame.trans (hstay hfrom)) ((hstay hto).trans htoSame)
  rw [hs] at hrest
  obtain ⟨ret, s₃, hpasv, hrest⟩ := bind_ok hrest
  obtain ⟨hpasv, hsame₃⟩ := onSource_some.mp hpasv
  split at hrest
  · cases hrest
  · rename_i hret
    obtain ⟨digits, s₄, hlook, hrest⟩ := bind_ok hrest
    obtain ⟨hlook, hsame₄⟩ := onSource_some.mp hlook
    have hlooked : s₄.1 = s₃.1 := (congrArg Prod.snd hlook).symm
    cases digits with
    | false => cases hrest
    | true =>
      obtain ⟨ret', s₅, hport, hrest⟩ := bind_ok hrest
      obtain ⟨hport, hsame₅⟩ := onDestination_some.mp hport
      split at hrest
      · cases hrest
      · rename_i hret'
        obtain ⟨_, s₆, hretr, hrest⟩ := bind_ok hrest
        obtain ⟨hretr, hsame₆⟩ := onSource_some.mp hretr
        obtain ⟨hstor, hsame⟩ := onDestination_some.mp hrest
        obtain ⟨m, text, events, hhistory, hdigit, -, hnone⟩ := send_ok rfl hpasv
        obtain ⟨m', text', events', hhistory', hdigit', -, hnone'⟩ := send_ok rfl hport
        obtain ⟨sent, hsent, hopen, hnoReply⟩ := writeCommand_ok hretr
        obtain ⟨sent', hsent', hopen', hnoReply'⟩ := writeCommand_ok hstor
        refine ⟨hsame ▸ hopen, hopen', ?_, ?_⟩
        · refine ⟨m, text, sent, events, ?_, hdigit.trans (not_not.mp hret), hnoReply, hnone⟩
          rw [hsame, hsent, hsame₅, hlooked, hhistory]
          rfl
        · refine ⟨m', text', sent', events', ?_, hdigit'.trans (not_not.mp hret'), hnoReply', hnone'⟩
          rw [hsent', hsame₆, hhistory', hsame₄, hsame₃]
          rfl

/-- What is looked for does not stand in front of a part of the events. -/
theorem Answered.of_append {events front : List Event} {c : Command} {digit : UInt8}
    (h : Answered events c digit) (hfront : ∀ e ∈ front, ∀ m a, e ≠ .reply c m a) :
    Answered (front ++ events) c digit := by
  obtain ⟨later, m, text, earlier, rfl, hdigit, hlater⟩ := h
  refine ⟨front ++ later, m, text, earlier, (List.append_assoc ..).symm, hdigit, ?_⟩
  exact List.forall_mem_append.mpr ⟨hfront, hlater⟩

theorem answered_head {c : Command} {m : Bool} {text : Bytes} {earlier : List Event}
    {digit : UInt8} (h : text.headD 0 = digit) :
    Answered (.reply c m (.line text) :: earlier) c digit :=
  ⟨[], m, text, earlier, rfl, h, List.forall_mem_nil _⟩

/-- No reply to a restart is among these events. -/
theorem not_restarted {events : List Event} (h : ∀ e ∈ events, noRest e) {n : ℕ} {digit : UInt8} :
    ¬Answered events (.rest n) digit := by
  rintro ⟨later, m, text, earlier, rfl, -, -⟩
  exact h _ (List.mem_append_right _ (List.mem_cons_self ..)) n m _ rfl

/-- The events on one side, the reply to the transfer being the last one. -/
theorem side_events (c first : Command) (hfirst : ∀ n, first ≠ .rest n) (hc : ∀ n, c ≠ .rest n)
    (hne : c ≠ first) (m : Bool) (reply : Bytes) {text : Bytes} {sent : Event}
    {events : List Event} (hdigit : text.headD 0 = 50) (hsent : ∀ c m a, sent ≠ .reply c m a)
    (hnone : ∀ e ∈ events, noRest e) :
    let all := .reply c false (.line reply) :: sent :: .reply first m (.line text) :: events
    Answered all first 50 ∧ (∀ e ∈ all, noRest e) ∧
      (Answered all c 49 ↔ reply.headD 0 = 49) := by
  refine ⟨?_, ?_, ?_⟩
  · show Answered ([.reply c false (.line reply), sent] ++
      .reply first m (.line text) :: events) first 50
    apply Answered.of_append (answered_head hdigit)
    refine List.forall_mem_cons.mpr ⟨fun m a heq => ?_, ?_⟩
    · exact hne (Event.reply.inj heq).1
    · exact List.forall_mem_singleton.mpr (hsent first)
  · refine List.forall_mem_cons.mpr ⟨fun n m a heq => ?_, List.forall_mem_cons.mpr ⟨?_,
      List.forall_mem_cons.mpr ⟨fun n m a heq => ?_, hnone⟩⟩⟩
    · exact hc n (Event.reply.inj heq).1
    · exact fun n => hsent _
    · exact hfirst n (Event.reply.inj heq).1
  · constructor
    · rintro ⟨later, m', text', earlier, heq, hdigit', hlater⟩
      cases later with
      | nil =>
        rw [List.nil_append, List.cons.injEq] at heq
        obtain ⟨-, -, hline⟩ := Event.reply.inj heq.1
        obtain rfl := Answer.line.inj hline
        exact hdigit'
      | cons e later =>
        rw [List.cons_append, List.cons.injEq] at heq
        exact absurd heq.1.symm (hlater e (List.mem_cons_self ..) false _)
    · exact answered_head

/-- The whole call: its reads behind a negotiation. -/
theorem transfer_cases {fromsize tosize : ℕ} {r : Except GftpError Unit}
    (h : rfc959TransferFile source destination fromfile tofile fromsize tosize s = (some r, t)) :
    (∃ e, r = .error e ∧ ∀ u, negotiate source destination fromfile tofile s ≠ (some (.ok ()), u)) ∨
    ∃ u, negotiate source destination fromfile tofile s = (some (.ok ()), u) ∧
      readBoth source destination fromfile tofile u = (some r, t) := by
  obtain ⟨r', u, hnegotiate, hrest⟩ := handle_eq_some.mp h
  cases r' with
  | ok _ => exact .inr ⟨u, hnegotiate, hrest⟩
  | error e =>
    obtain ⟨hr, -⟩ := Prod.mk.inj hrest
    refine .inl ⟨e, (Option.some.inj hr).symm, fun u' hu' => ?_⟩
    rw [hnegotiate] at hu'
    cases hu'

theorem readBoth_cases {u : Client × Client} {r : Except GftpError Unit}
    (hfrom : u.1.datafd ≠ none) (hto : u.2.datafd ≠ none)
    (h : readBoth source destination fromfile tofile u = (some r, t)) :
    (Passes (source.env.answer u.1.time) ∧ Passes (destination.env.answer u.2.time) ∧ r = .ok () ∧
      t.1.history = .reply (.retr fromfile) false (source.env.answer u.1.time) :: u.1.history ∧
      t.2.history = .reply (.stor tofile) false (destination.env.answer u.2.time) :: u.2.history) ∨
    (¬(Passes (source.env.answer u.1.time) ∧ Passes (destination.env.answer u.2.time)) ∧
      r ≠ .ok ()) := by
  by_cases hpass : Passes (source.env.answer u.1.time)
  · obtain ⟨ret, s₁, hread, hhistory⟩ := readResponse_passes (.reply (.retr fromfile) false) hfrom hpass
    have hfirst : onSource (readResponse source.env (.reply (.retr fromfile) false) true) u =
        (some (.ok ret), (s₁, u.2)) := onSource_some.mpr ⟨hread, rfl⟩
    rw [readBoth, bind_then hfirst] at h
    by_cases hpass' : Passes (destination.env.answer u.2.time)
    · obtain ⟨ret', s₂, hread', hhistory'⟩ :=
        readResponse_passes (.reply (.stor tofile) false) hto hpass'
      have hsecond : onDestination (readResponse destination.env (.reply (.stor tofile) false) true)
          (s₁, u.2) = (some (.ok ret'), (s₁, s₂)) := onDestination_some.mpr ⟨hread', rfl⟩
      rw [bind_then hsecond] at h
      obtain ⟨hr, rfl⟩ := Prod.mk.inj h
      exact .inl ⟨hpass, hpass', (Option.some.inj hr).symm, hhistory, hhistory'⟩
    · obtain ⟨e, s₂, hread'⟩ := readResponse_refuses (.reply (.stor tofile) false) hto hpass'
      have hsecond : onDestination (readResponse destination.env (.reply (.stor tofile) false) true)
          (s₁, u.2) = (some (.error e), (s₁, s₂)) := onDestination_some.mpr ⟨hread', rfl⟩
      refine .inr ⟨fun hboth => hpass' hboth.2, ?_⟩
      rintro rfl
      obtain ⟨_, _, hread, -⟩ := bind_ok h
      rw [hsecond] at hread
      cases hread
  · obtain ⟨e, s₁, hread⟩ := readResponse_refuses (.reply (.retr fromfile) false) hfrom hpass
    have hfirst : onSource (readResponse source.env (.reply (.retr fromfile) false) true) u =
        (some (.error e), (s₁, u.2)) := onSource_some.mpr ⟨hread, rfl⟩
    refine .inr ⟨fun hboth => hpass hboth.1, ?_⟩
    rintro rfl
    obtain ⟨_, _, hread', -⟩ := bind_ok h
    rw [hfirst] at hread'
    cases hread'

/-- A call that comes to an end returns a number that is not negative only when both servers
have accepted everything, exactly when the transfer starts at 0 and both accept it, or one of
the last two replies cannot be read. -/
theorem success_means_accepted_iff (source destination : Peer) (fromfile tofile : Bytes)
    (startsize : ℕ) (s t : Client × Client) (r : Except GftpError Unit)
    (h : rfc959TransferFile source destination fromfile tofile startsize startsize s = (some r, t)) :
    SuccessMeansAccepted fromfile tofile startsize s t r ↔
      RefusalsFail source destination fromfile tofile startsize s := by
  rcases transfer_cases h with ⟨e, rfl, hnone⟩ | ⟨u, hnegotiate, hreads⟩
  · exact ⟨fun _ u hu => absurd hu (hnone u), fun _ => nofun⟩
  · obtain ⟨hfrom, hto, ⟨m, text, sent, events, hhistory, hdigit, hsent, hevents⟩,
      ⟨m', text', sent', events', hhistory', hdigit', hsent', hevents'⟩⟩ := negotiated hnegotiate
    rcases readBoth_cases hfrom hto hreads with ⟨hpass, hpass', rfl, hlast, hlast'⟩ | ⟨hnot, hfailed⟩
    · have hboth := And.intro hpass hpass'
      obtain ⟨reply, hreply, -⟩ := hpass
      obtain ⟨reply', hreply', -⟩ := hpass'
      obtain ⟨hpasv, hrest, hretr⟩ := side_events (.retr fromfile) .pasv (by nofun) (by nofun)
        (by nofun) m reply hdigit hsent hevents
      obtain ⟨hport, -, hstor⟩ := side_events (.stor tofile) .port (by nofun) (by nofun)
        (by nofun) m' reply' hdigit' hsent' hevents'
      rw [hreply, hhistory, ← List.cons_append] at hlast
      rw [hreply', hhistory', ← List.cons_append] at hlast'
      constructor
      · intro hmeans v hv _ _
        obtain rfl := (Prod.mk.inj (hnegotiate.symm.trans hv)).2
        obtain ⟨fromEvents, toEvents, heq, heq', haccepted⟩ := hmeans rfl
        have hfromEvents : fromEvents = _ := List.append_cancel_right (heq.symm.trans hlast)
        have htoEvents : toEvents = _ := List.append_cancel_right (heq'.symm.trans hlast')
        subst hfromEvents htoEvents
        refine ⟨?_, ⟨reply, hreply, hretr.mp haccepted.retr⟩,
          ⟨reply', hreply', hstor.mp haccepted.stor⟩⟩
        by_contra hne
        exact not_restarted hrest (haccepted.rest hne).1
      · intro hfail _
        obtain ⟨hzero, ⟨_, hline, hone⟩, ⟨_, hline', hone'⟩⟩ :=
          hfail u hnegotiate hboth.1 hboth.2
        obtain rfl := Answer.line.inj (hreply.symm.trans hline)
        obtain rfl := Answer.line.inj (hreply'.symm.trans hline')
        exact ⟨_, _, hlast, hlast', hpasv, hport, hretr.mpr hone, hstor.mpr hone',
          fun hne => absurd hzero hne⟩
    · refine ⟨fun _ v hv hpass hpass' => ?_, fun _ hr => absurd hr hfailed⟩
      obtain rfl := (Prod.mk.inj (hnegotiate.symm.trans hv)).2
      exact absurd ⟨hpass, hpass'⟩ hnot

end Transfer


section Samples

/-- A server that answers two commands on a connection that is there. -/
def twoReplies (first second : String) : Peer :=
  ⟨anonymous [], answering [(1, first), (3, second)], 1⟩

def connectedClient : Client :=
  { Client.start true true true false [] with datafd := some 0, connections := 1 }

/-- Two requests whose servers agree to the transfer and then answer so. -/
def agreed (fromReply toReply : String) : Duo Unit :=
  rfc959TransferFile (twoReplies "227 (1,2,3,4,5,6)" fromReply) (twoReplies "200 ok" toReply)
    (ascii "f") (ascii "f") 0 0

theorem small_transfer_accepted : ∃ r t,
    agreed "150 ok" "150 ok" (connectedClient, connectedClient) = (some r, t) ∧
      (SuccessMeansAccepted (ascii "f") (ascii "f") 0 (connectedClient, connectedClient) t r ↔
        RefusalsFail (twoReplies "227 (1,2,3,4,5,6)" "150 ok") (twoReplies "200 ok" "150 ok")
          (ascii "f") (ascii "f") 0 (connectedClient, connectedClient)) := by
  refine ⟨.ok (), _, rfl, ?_⟩
  exact success_means_accepted_iff _ _ _ _ _ _ _ _ rfl

/-- A file that is not there: the source refuses RETR, and the call succeeds. -/
theorem refused_transfer_succeeds : ∃ t,
    agreed "550 no such file" "150 ok" (connectedClient, connectedClient) = (some (.ok ()), t) ∧
      ¬SuccessMeansAccepted (ascii "f") (ascii "f") 0 (connectedClient, connectedClient) t (.ok ()) := by
  refine ⟨_, rfl, fun hmeans => ?_⟩
  obtain ⟨fromEvents, _, hfrom, -, haccepted⟩ := hmeans rfl
  obtain ⟨later, m, text, earlier, hevents, hdigit, -⟩ := haccepted.retr
  have hreply : ∀ e ∈ fromEvents, ∀ m text, e = .reply (.retr (ascii "f")) m (.line text) →
      text.headD 0 = 53 := by
    have hsame : fromEvents = [.reply (.retr (ascii "f")) false (.line (ascii "550 no such file")),
        .sent (.retr (ascii "f")) true none (some 0) 0,
        .reply .pasv true (.line (ascii "227 (1,2,3,4,5,6)")), .sent .pasv true none (some 0) 0] :=
      (List.append_nil _).symm.trans hfrom.symm
    rw [hsame]
    simp only [List.forall_mem_cons]
    refine ⟨?_, ?_, ?_, ?_, nofun⟩
    · rintro m text heq
      obtain ⟨-, -, hline⟩ := Event.reply.inj heq
      obtain rfl := Answer.line.inj hline
      decide
    · exact fun m text => nofun
    · exact fun m text => nofun
    · exact fun m text => nofun
  have hfifty := hreply _ (hevents ▸ List.mem_append_right _ (List.mem_cons_self ..)) m text rfl
  rw [hdigit] at hfifty
  cases hfifty

end Samples

end Gftp.FxpTransfers
