import Gftp.FtpRules
import Gftp.FtpTransfers
import Gftp.Runs

/-!
The data connections that LIST, RETR and STOR are sent with. The socket is made in one function
and used again by others when it is open, and not every refusal and failure closes it. With
answers that do not leave it behind, every transfer has a data connection of its own.
-/

namespace Gftp.DataConnections

open ByteStrings Calls Call FtpClient FtpRules FtpTransfers Protocol Runs

/-- The command for a transfer is sent with a data connection that was negotiated for this
operation on this control connection. -/
def freshEvent : Event → Bool
  | .sent c _ data control operation =>
      !startsTransfer c || control.isSome && data = control.map fun k => ⟨k, operation, true⟩
  | _ => true

def AllFresh (l : List Event) : Prop := ∀ e ∈ l, freshEvent e = true

instance {l : List Event} : Decidable (AllFresh l) := inferInstanceAs (Decidable (∀ _ ∈ _, _))

/-- LIST is accepted, or answered by a reply of the 42 kind; LIST, RETR and STOR are not
repeated after a reconnection, and a REST that is repeated is not accepted; a data socket can be
marked to be closed on exec. -/
def keepsData : Event → Bool
  | .sent c mayReconnect _ _ _ => mayReconnect || !startsTransfer c
  | .reply (.list _ _) _ (.line text) => text.headD 0 = 49 || text.take 2 = ascii "42"
  | .reply (.rest _) false (.line text) => text.headD 0 ≠ 51
  | .socket closesOnExec => closesOnExec
  | _ => true

/-- A reply begins with an ASCII character, and the event leaves no data connection behind. -/
abbrev DataOk (_ : List Event) (e : Event) : Prop := readable e = true ∧ keepsData e = true

def DataFit : List Event → Prop := Throughout DataOk

instance {l : List Event} : Decidable (DataFit l) := inferInstanceAs (Decidable (Throughout _ _))

/-- A request, and whether a transfer has been started that has not been ended. -/
structure Session where
  client : Client
  transferring : Bool

def Session.start (passive hidden resolve flag : Bool) (directory : Bytes) : Session :=
  ⟨.start passive hidden resolve flag directory, false⟩

def transferringAfter (op : Operation) (r : Except GftpError Unit) (before : Bool) : Bool :=
  match op with
  | .listFiles => r.isOk
  | .getFile _ _ => r.isOk
  | .putFile _ _ => r.isOk
  | .endTransfer => false
  | .abortTransfer => false
  | .disconnect => false
  | _ => before

inductive SessionStep (o : Options) (env : Environment) : Session → Operation → Session → Prop
  | step {t : Session} {op : Operation} {r : Except GftpError Unit} {s' : Client} (fuel : ℕ)
      (h : op.call o env fuel { t.client with operation := t.client.operation + 1 } = (some r, s')) :
      SessionStep o env t op ⟨s', transferringAfter op r t.transferring⟩

/-- The operations on data connections, and the login. -/
def dealsWithData : Operation → Bool
  | .connect => true
  | .disconnect => true
  | .listFiles => true
  | .getFile _ _ => true
  | .putFile _ _ => true
  | .endTransfer => true
  | .abortTransfer => true
  | _ => false

/-- A file is asked for only when the last transfer has been ended. -/
def SessionFit (t : Session) : Operation → Prop
  | .getFile _ _ => t.transferring = false
  | .putFile _ _ => t.transferring = false
  | op => dealsWithData op = true

/-- Every transfer had a data connection of its own, and there is none between transfers. -/
def Fresh (t : Session) : Prop :=
  AllFresh t.client.history ∧ (t.transferring = false → t.client.dataConnection = none)

theorem allFresh_cons {e : Event} {l : List Event} :
    AllFresh (e :: l) ↔ freshEvent e = true ∧ AllFresh l := List.forall_mem_cons

section Commands

variable {α : Type} {D : Option ℕ → Option DataConnection → ℕ → Prop} {o : Options}
  {env : Environment} {reconnect : Ftp Unit} {c : Command} {m : Bool} {P G : View → Prop}
  {e : GftpError} {K : Bool → Prop}

abbrev DataSpec (P : View → Prop) (x : Ftp α) (Q : Except GftpError α → View → Prop) : Prop :=
  Spec DataOk P x Q

/-- Transfers have been fresh so far, and D holds of the connections and the operation. -/
def Holds (D : Option ℕ → Option DataConnection → ℕ → Prop) (v : View) : Prop :=
  AllFresh v.history ∧ D v.datafd v.dataConnection v.operation

theorem freshEvent_sent (h : startsTransfer c = false) {data : Option DataConnection}
    {control : Option ℕ} {operation : ℕ} :
    freshEvent (.sent c m data control operation) = true := by
  simp [freshEvent, h]

theorem allFresh_sent {v : View} (hv : AllFresh v.history) (h : startsTransfer c = false) :
    AllFresh (v.sent c m).history := allFresh_cons.mpr ⟨freshEvent_sent h, hv⟩

theorem allFresh_replied {v : View} {a : Answer} (hv : AllFresh (v.sent c m).history) :
    AllFresh (v.replied c m a).history := allFresh_cons.mpr ⟨rfl, hv⟩

theorem allFresh_hungUp {v : View} {n : ℕ} (hv : AllFresh v.history) :
    AllFresh (v.hungUp n).history := allFresh_cons.mpr ⟨rfl, hv⟩

theorem exchange_holds (hD : ∀ k operation, D k none operation) (hc : startsTransfer c = false) :
    DataSpec (Holds D) (exchange env c m) (fun _ => Holds D) := by
  refine exchange_spec ?_ ?_ ?_ ?_ ?_
  · exact fun _ hv _ => hv
  · exact fun _ _ _ hv _ => ⟨allFresh_hungUp hv.1, hD _ _⟩
  · exact fun _ _ _ hv _ => ⟨allFresh_hungUp (allFresh_replied (allFresh_sent hv.1 hc)), hD _ _⟩
  · exact fun _ _ _ _ _ hv _ => ⟨allFresh_hungUp (allFresh_replied (allFresh_sent hv.1 hc)), hD _ _⟩
  · exact fun _ _ _ _ hv _ => ⟨allFresh_replied (allFresh_sent hv.1 hc), hv.2⟩

theorem disconnect_holds (hD : ∀ k operation, D k none operation) :
    DataSpec (Holds D) (disconnect env) (fun _ => Holds D) :=
  disconnect_spec (fun _ hv _ => ⟨hv.1, hD _ _⟩)
    (fun _ _ _ hv _ => ⟨allFresh_hungUp hv.1, hD _ _⟩)

theorem keptByLogin (hD : ∀ k operation, D k none operation) :
    KeptByLogin DataOk env (Holds D) (Holds D) where
  readable _ _ h := h.1
  commands _ _ hc := exchange_holds hD (plain_startsTransfer hc)
  hangUp := disconnect_holds hD
  attempted _ _ hv := ⟨allFresh_cons.mpr ⟨rfl, hv.1⟩, hv.2⟩
  opened v k _ hv htog hnone := by
    refine ⟨allFresh_cons.mpr ⟨rfl, hv.1⟩, ?_⟩
    show D (some k) v.dataConnection v.operation
    rw [htog hnone]
    exact hD _ _
  greeting := by
    refine greeting_keeps (readResponse_spec ?_ ?_ ?_ ?_) (disconnect_holds hD)
    · exact fun _ hv _ => hv
    · exact fun _ _ _ hv _ => ⟨allFresh_hungUp (allFresh_cons.mpr ⟨rfl, hv.1⟩), hD _ _⟩
    · exact fun _ _ _ _ _ _ hv _ => ⟨allFresh_hungUp (allFresh_cons.mpr ⟨rfl, hv.1⟩), hD _ _⟩
    · exact fun _ _ _ _ hv _ => ⟨allFresh_cons.mpr ⟨rfl, hv.1⟩, hv.2⟩

theorem gftpConnect_holds (hD : ∀ k operation, D k none operation) (fuel : ℕ) :
    KeepsAndEnds DataOk (Holds D) (gftpConnect o env fuel) :=
  gftpConnect_ends (keptByLogin hD) (fun _ _ => exchange_holds hD rfl) (fun _ _ => id) fuel

/-- There is no data connection, or one of this operation and this control connection. -/
abbrev Spare : View → Prop :=
  Holds fun k data operation => data = none ∨ data = k.map fun k => ⟨k, operation, true⟩

theorem spare_none (k : Option ℕ) (operation : ℕ) : (none : Option DataConnection) = none ∨
    none = k.map fun k => (⟨k, operation, true⟩ : DataConnection) := .inl rfl

/-- There is a data connection of this operation and this control connection. -/
structure Ready (v : View) : Prop where
  fresh : AllFresh v.history
  current : ∃ k, v.datafd = some k ∧ v.dataConnection = some ⟨k, v.operation, true⟩

theorem Ready.spare {v : View} (h : Ready v) : Spare v := by
  obtain ⟨k, hk, hdata⟩ := h.current
  refine ⟨h.fresh, .inr ?_⟩
  rw [hk, hdata]
  rfl

theorem Ready.open {v : View} (h : Ready v) : v.datafd ≠ none := by
  obtain ⟨k, hk, -⟩ := h.current
  simp [hk]

theorem Ready.together {v : View} (h : Ready v) : Together v := fun hnone => absurd hnone h.open

theorem Ready.sent {v : View} (h : Ready v) : AllFresh (v.sent c m).history := by
  obtain ⟨k, hk, hdata⟩ := h.current
  exact allFresh_cons.mpr ⟨by simp [freshEvent, hk, hdata], h.fresh⟩

/-- Both connections are closed. -/
structure Closed (v : View) : Prop where
  fresh : AllFresh v.history
  control : v.datafd = none
  data : v.dataConnection = none

/-- A function ends in G, or with an error and both connections closed. -/
def Outcome (G : View → Prop) (r : Except GftpError α) (v : View) : Prop :=
  match r with
  | .ok _ => G v
  | .error _ => Closed v

theorem Closed.hungUp {v : View} {n : ℕ} (h : AllFresh v.history) : Closed (v.hungUp n) :=
  ⟨allFresh_hungUp h, rfl, rfl⟩

theorem Closed.spare {v : View} (h : Closed v) : Spare v := ⟨h.fresh, .inl h.data⟩

theorem Closed.together {v : View} (h : Closed v) : Together v := fun _ => h.data

theorem disconnect_closed (hP : ∀ v, P v → AllFresh v.history) :
    DataSpec P (disconnect env) (fun r v => r = .ok () ∧ Closed v) :=
  disconnect_spec (fun v hp hnone => ⟨rfl, hP v hp, hnone, rfl⟩)
    (fun v _ _ hp _ => ⟨rfl, .hungUp (hP v hp)⟩)

theorem disconnect_fail (hP : ∀ v, P v → AllFresh v.history) :
    DataSpec P (do disconnect env; fail e) (Outcome (α := α) G) :=
  Spec.bind (disconnect_closed hP) (fun _ => Spec.give fun _ h => h.2) (by simp)

/-- The reply that a result of rfc959_send_command stands for. -/
def Answered (c : Command) (ret : UInt8) : Prop :=
  ∃ m text, DataOk [] (.reply c m (.line text)) ∧ text.take 2 ≠ ascii "42" ∧ ret = text.headD 0

theorem charRet_answered {text : Bytes} (hc : DataOk [] (.reply c m (.line text)))
    (hfront : text.take 2 ≠ ascii "42") :
    ∃ ret, charRet (text.headD 0) = .ok ret ∧ ret = text.headD 0 ∧ Answered c ret :=
  ⟨_, charRet_ok (of_decide_eq_true hc.1), rfl, m, text, hc, hfront, rfl⟩

/-- A repeated command is sent without a data connection, or with one of another operation. -/
theorem exchange_again {accepted : UInt8}
    (hagain : startsTransfer c = true ∨
      ∀ text, keepsData (.reply c false (.line text)) = true → text.headD 0 ≠ accepted) :
    DataSpec (fun v => Spare v ∧ v.datafd ≠ none) (exchange env c false)
      (fun r v => match r with
        | .ok ret => AllFresh v.history ∧ Together v ∧ Answered c ret ∧
            (ret = accepted → Ready v ∧ K v.passiveTransfer)
        | .error _ => Closed v) := by
  have hunused : ∀ {v : View}, Throughout DataOk (v.sent c false).history → startsTransfer c = false :=
    fun hc => by simpa [keepsData] using hc.1.2
  refine exchange_spec ?_ ?_ ?_ ?_ ?_
  · exact fun v ⟨_, hopen⟩ hnone => absurd hnone hopen
  · exact fun v n _ ⟨hspare, _⟩ _ => .hungUp hspare.1
  · exact fun v n hc ⟨hspare, _⟩ _ =>
      .hungUp (allFresh_replied (allFresh_sent hspare.1 (hunused hc.2.2)))
  · exact fun v text n _ hc ⟨hspare, _⟩ _ =>
      .hungUp (allFresh_replied (allFresh_sent hspare.1 (hunused hc.2.2)))
  · intro v text hfront hc ⟨hspare, _⟩ hopen
    have hno := hunused hc.2
    obtain ⟨ret, hret, hhead, hanswer⟩ := charRet_answered hc.1 hfront
    rw [hret]
    refine ⟨allFresh_replied (allFresh_sent hspare.1 hno), fun hnone => absurd hnone hopen,
      hanswer, fun haccepted => ?_⟩
    rcases hagain with huses | hrefused
    · rw [hno] at huses
      cases huses
    · exact absurd (hhead.symm.trans haccepted) (hrefused text hc.1.2)

/-- With a command that is not repeated, or not accepted then, the data connection stays. -/
theorem sendCommand_ready (accepted : UInt8) (hr : KeepsAndEnds DataOk Spare reconnect)
    (hagain : startsTransfer c = true ∨
      ∀ text, keepsData (.reply c false (.line text)) = true → text.headD 0 ≠ accepted) :
    DataSpec (fun v => Ready v ∧ K v.passiveTransfer) (sendCommand env reconnect c true)
      (fun r v => match r with
        | .ok ret => AllFresh v.history ∧ Together v ∧ Answered c ret ∧
            (ret = accepted → Ready v ∧ K v.passiveTransfer)
        | .error _ => Closed v) := by
  refine Spec.handle (R := fun r v => match r with
      | .ok ret => (Ready v ∧ K v.passiveTransfer) ∧ Answered c ret
      | .error _ => Closed v) (exchange_spec ?_ ?_ ?_ ?_ ?_) fun r => ?_
  · exact fun v ⟨hready, _⟩ hnone => absurd hnone hready.open
  · exact fun v n _ ⟨hready, _⟩ _ => .hungUp hready.fresh
  · exact fun v n _ ⟨hready, _⟩ _ => .hungUp (allFresh_replied hready.sent)
  · exact fun v text n _ _ ⟨hready, _⟩ _ => .hungUp (allFresh_replied hready.sent)
  · intro v text hfront hc ⟨hready, hpassive⟩ _
    obtain ⟨ret, hret, -, hanswer⟩ := charRet_answered hc.1 hfront
    rw [hret]
    exact ⟨⟨⟨allFresh_replied hready.sent, hready.current⟩, hpassive⟩, hanswer⟩
  · cases r with
    | ok ret =>
      exact Spec.give fun v h => ⟨h.1.1.fresh, h.1.1.together, h.2, fun _ => h.1⟩
    | error e =>
      cases e with
      | timedOut =>
        exact Spec.bind (Spec.pre hr fun v h => ⟨h.spare, h.together⟩)
          (fun _ => Spec.pre (exchange_again hagain) fun v h => ⟨h.1, h.2.2⟩)
          (fun _ v ⟨hspare, htog, hnone⟩ => ⟨hspare.1, hnone, htog hnone⟩)
      | _ => exact Spec.give fun v h => h

end Commands

section Negotiation

variable {α : Type} {o : Options} {env : Environment} {reconnect : Ftp Unit} {c : Command}
  {P G : View → Prop}

/-- There is a data socket of this operation and this control connection. -/
structure Made (v : View) : Prop where
  fresh : AllFresh v.history
  current : ∃ k, v.datafd = some k ∧ v.dataConnection = some ⟨k, v.operation, false⟩

theorem Made.open {v : View} (h : Made v) : v.datafd ≠ none := by
  obtain ⟨k, hk, -⟩ := h.current
  simp [hk]

theorem must_outcome (hG : ∀ v, G v → AllFresh v.history) : DataSpec G (must env) (Outcome G) := by
  refine Spec.meet_bind fun succeeded => ?_
  cases succeeded with
  | true => exact Spec.give fun _ => id
  | false => exact disconnect_fail hG

theorem musts_outcome (hG : ∀ v, G v → AllFresh v.history) (n : ℕ) :
    DataSpec G (musts env n) (Outcome G) := by
  induction n with
  | zero => exact Spec.give fun _ => id
  | succ n ih => exact Spec.bind (must_outcome hG) (fun _ => ih) (fun _ _ => id)

theorem negotiated_outcome : DataSpec Made negotiated (Outcome Ready) := by
  refine Spec.seen (fun v => { v with
    dataConnection := v.dataConnection.map fun d => { d with negotiated := true } })
    (fun _ => rfl) (fun _ => id) ?_
  rintro v - ⟨hfresh, k, hk, hdata⟩
  exact ⟨hfresh, k, hk, by rw [hdata]; rfl⟩

/-- PASV, PORT, EPSV and EPRT are sent once. -/
theorem sendCommand_once (hc : startsTransfer c = false) :
    DataSpec Made (sendCommand env reconnect c false) (Outcome Made) := by
  refine Spec.handle (R := Outcome Made) (exchange_spec ?_ ?_ ?_ ?_ ?_) fun r => ?_
  · exact fun v hmade hnone => absurd hnone hmade.open
  · exact fun v n _ hmade _ => Closed.hungUp hmade.fresh
  · exact fun v n _ hmade _ => Closed.hungUp (allFresh_replied (allFresh_sent hmade.fresh hc))
  · exact fun v text n _ _ hmade _ =>
      Closed.hungUp (allFresh_replied (allFresh_sent hmade.fresh hc))
  · intro v text _ hok hmade _
    rw [charRet_ok (of_decide_eq_true hok.1.1)]
    exact ⟨allFresh_replied (allFresh_sent hmade.fresh hc), hmade.current⟩
  · cases r with
    | ok ret => exact Spec.give fun _ => id
    | error e => cases e <;> exact Spec.give fun _ h => h

theorem newSocket_outcome :
    DataSpec (fun v => AllFresh v.history ∧ v.datafd ≠ none) (newSocket env) (Outcome Made) := by
  refine Spec.meet_bind fun succeeded => ?_
  cases succeeded with
  | false =>
    refine Spec.bind (R := fun r v => r = .ok () ∧ AllFresh v.history)
      (closeDataConnection_spec fun v h => ⟨rfl, h.1⟩) (fun _ => disconnect_fail fun v h => h.2)
      (by simp)
  | true =>
    refine Spec.meet_bind fun closesOnExec => ?_
    refine Spec.seen_bind (fun v => { v.note (.socket closesOnExec) with
        dataConnection := some ⟨v.datafd.getD 0, v.operation, false⟩ })
      (R := fun v => Made v ∧ closesOnExec = true) (fun _ => rfl) (fun _ h => h.2) ?_ ?_
    · rintro v hc ⟨hfresh, hopen⟩
      obtain ⟨k, hk⟩ := Option.ne_none_iff_exists'.mp hopen
      refine ⟨⟨allFresh_cons.mpr ⟨rfl, hfresh⟩, k, hk, ?_⟩, hc.1.2⟩
      show some (⟨v.datafd.getD 0, v.operation, false⟩ : DataConnection) = _
      rw [hk]
      rfl
    · cases closesOnExec with
      | true => exact Spec.give fun v h => h.1
      | false => exact Spec.give fun v h => nomatch h.2

theorem activeConnection_outcome (hc : startsTransfer c = false) :
    DataSpec Made (activeConnection env reconnect c) (Outcome Ready) := by
  refine Spec.bind (musts_outcome (fun v h => h.fresh) 4) (fun _ => ?_) (fun _ _ => id)
  refine Spec.bind (sendCommand_once hc) (fun resp => ?_) (fun _ _ => id)
  exact Spec.ite (fun _ => disconnect_fail fun v h => h.fresh) (fun _ => negotiated_outcome)

theorem passiveConnection_outcome {hasAddress : Bytes → Bool} {refused : Ftp Unit}
    (hc : startsTransfer c = false)
    (hrefused : DataSpec (fun v => AllFresh v.history ∧ v.datafd ≠ none) refused (Outcome Ready)) :
    DataSpec Made (passiveConnection env reconnect c hasAddress refused) (Outcome Ready) := by
  refine Spec.bind (sendCommand_once hc) (fun resp => ?_) (fun _ _ => id)
  refine Spec.ite (fun _ => ?_) (fun _ => Spec.look_any fun found => ?_)
  · exact Spec.seen_bind (fun v => { v with passiveTransfer := false }) (fun _ => rfl) (fun _ => id)
      (fun v _ hmade => ⟨hmade.fresh, hmade.open⟩) hrefused
  · cases found with
    | true =>
      exact Spec.bind (must_outcome fun v h => h.fresh) (fun _ => negotiated_outcome) (fun _ _ => id)
    | false => exact disconnect_fail fun v h => h.fresh

theorem familyConnection_outcome {check : Ftp Unit} {pasvCommand portCommand : Command}
    {hasAddress : Bytes → Bool} (hcheck : DataSpec Made check (Outcome Made))
    (hpasv : startsTransfer pasvCommand = false) (hport : startsTransfer portCommand = false) :
    DataSpec (fun v => AllFresh v.history ∧ v.datafd ≠ none)
      (familyConnection env reconnect check pasvCommand portCommand hasAddress) (Outcome Ready) := by
  refine Spec.bind newSocket_outcome (fun _ => ?_) (fun _ _ => id)
  refine Spec.bind hcheck (fun _ => Spec.look_any fun passive => ?_) (fun _ _ => id)
  cases passive with
  | false => exact activeConnection_outcome hport
  | true =>
    refine passiveConnection_outcome hpasv ?_
    refine Spec.bind newSocket_outcome (fun _ => ?_) (fun _ _ => id)
    exact Spec.bind hcheck (fun _ => activeConnection_outcome hport) (fun _ _ => id)

theorem checkIpv6_outcome : DataSpec Made (checkIpv6 env) (Outcome Made) := by
  refine Spec.meet_bind fun succeeded => ?_
  cases succeeded with
  | true => exact Spec.give fun _ => id
  | false => exact disconnect_fail fun v h => h.fresh

theorem makeDataConnection_outcome :
    DataSpec (fun v => AllFresh v.history ∧ Together v) (makeDataConnection o env reconnect)
      (Outcome Ready) := by
  refine connected_spec (fun v ⟨hfresh, htog⟩ hnone => ⟨hfresh, hnone, htog hnone⟩) ?_
  refine Spec.pre (P := fun v => AllFresh v.history ∧ v.datafd ≠ none)
    (Spec.ite (fun _ => ?_) (fun _ => ?_)) (fun v ⟨⟨hfresh, _⟩, hopen⟩ => ⟨hfresh, hopen⟩)
  · exact familyConnection_outcome checkIpv6_outcome rfl rfl
  · exact familyConnection_outcome (Spec.give fun _ => id) rfl rfl

theorem dataConnectionNew_outcome (hr : KeepsAndEnds DataOk Spare reconnect) :
    DataSpec (fun v => AllFresh v.history ∧ Together v) (dataConnectionNew o env reconnect)
      (Outcome Ready) := by
  refine Spec.handle makeDataConnection_outcome fun r => ?_
  cases r with
  | ok _ => exact Spec.give fun _ => id
  | error e =>
    cases e with
    | timedOut =>
      exact Spec.bind (Spec.pre hr fun v h => ⟨h.spare, h.together⟩)
        (fun _ => Spec.pre makeDataConnection_outcome fun v ⟨hspare, htog, _⟩ => ⟨hspare.1, htog⟩)
        (fun _ v ⟨hspare, htog, hnone⟩ => ⟨hspare.1, hnone, htog hnone⟩)
    | _ => exact Spec.give fun v h => h

end Negotiation

section Transfers

variable {α : Type} {o : Options} {env : Environment} {reconnect : Ftp Unit}
  {filename : Bytes} {startsize : ℕ} {c : Command}

/-- There is no data connection left. -/
structure Idle (v : View) : Prop where
  fresh : AllFresh v.history
  together : Together v
  data : v.dataConnection = none

/-- A function ends in G, or with an error and no data connection left. -/
def LeavesIdle (G : View → Prop) (r : Except GftpError α) (v : View) : Prop :=
  match r with
  | .ok _ => G v
  | .error _ => Idle v

/-- A transfer has been started, or there is no data connection left. -/
abbrev Started : Except GftpError α → View → Prop :=
  LeavesIdle fun v => AllFresh v.history ∧ Together v

theorem Closed.idle {v : View} (h : Closed v) : Idle v := ⟨h.fresh, h.together, h.data⟩

theorem Idle.spare {v : View} (h : Idle v) : Spare v := ⟨h.fresh, .inl h.data⟩

theorem Outcome.started {G : View → Prop} {r : Except GftpError α} {v : View} (h : Outcome G r v)
    (hG : ∀ v, G v → AllFresh v.history ∧ Together v) : Started r v := by
  cases r with
  | ok _ => exact hG v h
  | error e => exact h.idle

theorem acceptActiveConnection_started :
    DataSpec (fun v => Ready v ∧ v.passiveTransfer = false) (acceptActiveConnection env)
      Started := by
  refine Spec.look_bind (fun v => v.dataConnection.isNone || v.passiveTransfer) fun a => ?_
  cases a with
  | true =>
    refine Spec.give ?_
    rintro v ⟨⟨hready, hpassive⟩, hnone⟩
    obtain ⟨k, -, hdata⟩ := hready.current
    simp [hpassive, hdata] at hnone
  | false =>
    refine Spec.weaken (musts_outcome (fun v (h : Ready v) => h.fresh) 3) (fun v h => h.1.1) ?_
    exact fun r v h => h.started fun v h => ⟨h.fresh, h.together⟩

/-- What is done behind an accepted command. -/
theorem accepted_started (passive : Bool) :
    DataSpec (fun v => Ready v ∧ v.passiveTransfer = passive)
      (if passive then return () else acceptActiveConnection env) Started := by
  cases passive with
  | true => exact Spec.give fun v h => ⟨h.1.fresh, h.1.together⟩
  | false => exact acceptActiveConnection_started

theorem setDataType_spare (hr : KeepsAndEnds DataOk Spare reconnect) :
    DataSpec (fun v => Spare v ∧ Together v) (setDataType o env reconnect filename)
      (Outcome fun v => Spare v ∧ Together v) := by
  have htype : ∀ isAscii m, KeepsAndEnds DataOk Spare (exchange env (.type isAscii) m) :=
    fun isAscii m => .of_exchange (fun _ _ h => h.1) (exchange_holds spare_none rfl)
  refine Spec.look_any fun differs => ?_
  cases differs with
  | false => exact Spec.give fun _ => id
  | true =>
    refine Spec.seen_bind (fun v => { v with isAsciiTransfer := isAsciiTransfer o filename })
      (R := fun v => Spare v ∧ Together v) (fun _ => rfl) (fun _ => id) (fun v _ h => h) ?_
    refine Spec.bind (sendCommand_ends (htype _ _) (htype _ _) hr) (fun _ => Spec.give ?_) ?_
    · exact fun v ⟨hspare, htog, _⟩ => ⟨hspare, htog⟩
    · exact fun _ v ⟨hspare, htog, hnone⟩ => ⟨hspare.1, hnone, htog hnone⟩

theorem ensureDataConnection_outcome (hr : KeepsAndEnds DataOk Spare reconnect) :
    DataSpec (fun v => Spare v ∧ Together v) (ensureDataConnection o env reconnect)
      (Outcome Ready) := by
  refine Spec.look_bind (fun v => v.dataConnection.isNone) fun a => ?_
  cases a with
  | true => exact Spec.pre (dataConnectionNew_outcome hr) fun v h => ⟨h.1.1.1, h.1.2⟩
  | false =>
    refine Spec.give ?_
    rintro v ⟨⟨⟨hfresh, hdata⟩, -⟩, hsome⟩
    have hne : v.dataConnection ≠ none := Option.isSome_iff_ne_none.mp (by simpa using hsome)
    have hcurrent := hdata.resolve_left hne
    cases hk : v.datafd with
    | none =>
      rw [hk] at hcurrent
      exact absurd hcurrent hne
    | some k =>
      rw [hk] at hcurrent
      exact ⟨hfresh, k, hk, hcurrent⟩

theorem close_fail {P : View → Prop} {e : GftpError} {G : View → Prop}
    (hP : ∀ v, P v → AllFresh v.history) :
    DataSpec P (do closeDataConnection; fail e) (LeavesIdle (α := α) G) :=
  Spec.bind (R := fun r v => r = .ok () ∧ Idle v)
    (closeDataConnection_spec fun v hp => ⟨rfl, hP v hp, fun _ => rfl, rfl⟩)
    (fun _ => Spec.give fun v h => h.2) (by simp)

theorem restart_ready (hr : KeepsAndEnds DataOk Spare reconnect) :
    DataSpec Ready (restart env reconnect startsize) (LeavesIdle Ready) := by
  refine Spec.ite (fun _ => ?_) (fun _ => Spec.give fun _ => id)
  refine Spec.bind (Spec.pre (sendCommand_ready (K := fun _ => True) 51 hr ?_)
    fun v h => ⟨h, trivial⟩) (fun ret => ?_) (fun _ v h => h.idle)
  · exact .inr fun text hkeeps => by simpa [keepsData] using hkeeps
  · refine Spec.ite (fun _ => close_fail ?_) (fun haccepted => Spec.give fun v h => ?_)
    · exact fun v h => h.1
    · exact (h.2.2.2 (Decidable.not_not.mp haccepted)).1

theorem startTransfer_started (hc : startsTransfer c = true) (hr : KeepsAndEnds DataOk Spare reconnect) :
    DataSpec Ready (startTransfer env reconnect c) Started := by
  refine Spec.bind (Spec.pre (sendCommand_ready (K := fun _ => True) 49 hr (.inl hc))
    fun v h => ⟨h, trivial⟩) (fun ret => ?_) (fun _ v h => h.idle)
  refine Spec.ite (fun _ => close_fail fun v h => h.1) (fun haccepted => ?_)
  refine Spec.look_bind (fun v => v.passiveTransfer) fun passive => ?_
  exact Spec.pre (accepted_started passive)
    fun v h => ⟨(h.1.2.2.2 (Decidable.not_not.mp haccepted)).1, h.2⟩

theorem setupFileTransfer_started (hc : startsTransfer c = true)
    (hr : KeepsAndEnds DataOk Spare reconnect) :
    DataSpec (fun v => Spare v ∧ Together v)
      (setupFileTransfer o env reconnect filename startsize c) Started := by
  refine Spec.bind (setDataType_spare hr) (fun _ => ?_) (fun _ v h => h.idle)
  refine Spec.bind (ensureDataConnection_outcome hr) (fun _ => ?_) (fun _ v h => h.idle)
  refine Spec.bind (must_outcome fun v h => h.fresh) (fun _ => ?_) (fun _ v h => h.idle)
  exact Spec.bind (restart_ready hr) (fun _ => startTransfer_started hc hr) (fun _ v h => h)

theorem getFile_started (hr : KeepsAndEnds DataOk Spare reconnect) :
    DataSpec Idle (getFile o env reconnect filename startsize) Started :=
  connected_spec (fun _ h _ => h)
    (Spec.pre (setupFileTransfer_started rfl hr) fun _ ⟨h, _⟩ => ⟨h.spare, h.together⟩)

theorem putFile_started (hr : KeepsAndEnds DataOk Spare reconnect) :
    DataSpec Idle (putFile o env reconnect filename startsize) Started := by
  refine connected_spec (fun _ h _ => h) ?_
  refine Spec.bind (Spec.pre (setDataType_spare hr) fun v ⟨h, _⟩ => ⟨h.spare, h.together⟩)
    (fun _ => ?_) (fun _ v h => h.idle)
  refine Spec.bind (ensureDataConnection_outcome hr) (fun _ => ?_) (fun _ v h => h.idle)
  exact Spec.pre (setupFileTransfer_started rfl hr) fun v h => ⟨h.spare, h.together⟩

/-- An accepted LIST is the only one that is answered otherwise than by a reply of the 42 kind. -/
theorem list_accepted {showHidden resolve : Bool} {ret : UInt8}
    (h : Answered (.list showHidden resolve) ret) : ret = 49 := by
  obtain ⟨m, text, hok, hfront, rfl⟩ := h
  have hkeeps := hok.2
  simp only [keepsData, Bool.or_eq_true, decide_eq_true_eq] at hkeeps
  exact hkeeps.resolve_right hfront

theorem listFiles_started (hr : KeepsAndEnds DataOk Spare reconnect) :
    DataSpec (fun v => AllFresh v.history ∧ Together v) (listFiles o env reconnect) Started := by
  refine connected_spec (fun v ⟨hfresh, htog⟩ hnone => ⟨hfresh, htog, htog hnone⟩) ?_
  refine Spec.bind (Spec.pre (dataConnectionNew_outcome hr) fun v h => h.1) (fun _ => ?_)
    (fun _ v h => h.idle)
  refine Spec.look_such (fun command => ∃ showHidden resolve, command = .list showHidden resolve)
    (fun _ => ⟨_, _, rfl⟩) ?_
  rintro _ ⟨showHidden, resolve, rfl⟩
  refine Spec.look_bind (fun v => v.passiveTransfer) fun passive => ?_
  refine Spec.bind (sendCommand_ready (K := (· = passive)) 49 hr (.inl rfl))
    (fun ret => ?_) (fun _ v h => h.idle)
  refine Spec.ite (fun hrefused => Spec.give fun v h => ?_) (fun haccepted => ?_)
  · exact absurd (list_accepted h.2.2.1) hrefused
  · exact Spec.pre (accepted_started passive)
      fun v h => h.2.2.2 (Decidable.not_not.mp haccepted)

theorem readResponse_idle {event : Answer → Event} {disconnectOn42x : Bool}
    (hevent : ∀ a, freshEvent (event a) = true) :
    DataSpec Idle (readResponse env event disconnectOn42x) (fun _ => Idle) := by
  have hnote : ∀ {v : View} a, Idle v → AllFresh (v.note (event a)).history :=
    fun a h => allFresh_cons.mpr ⟨hevent a, h.fresh⟩
  refine readResponse_spec ?_ ?_ ?_ ?_
  · exact fun _ h _ => h
  · exact fun _ _ _ h _ => (Closed.hungUp (hnote _ h)).idle
  · exact fun _ _ _ _ _ _ h _ => (Closed.hungUp (hnote _ h)).idle
  · exact fun _ _ _ _ h _ => ⟨hnote _ h, fun _ => h.data, h.data⟩

theorem closeDataConnection_idle :
    DataSpec (fun v => AllFresh v.history) closeDataConnection (fun _ => Idle) :=
  closeDataConnection_spec fun _ hfresh => ⟨hfresh, fun _ => rfl, rfl⟩

theorem endTransfer_idle :
    DataSpec (fun v => AllFresh v.history ∧ Together v) (endTransfer env) (fun _ => Idle) := by
  refine connected_spec (fun v ⟨hfresh, htog⟩ hnone => ⟨hfresh, htog, htog hnone⟩) ?_
  refine Spec.bind (Spec.pre closeDataConnection_idle fun v h => h.1.1) (fun _ => ?_) (fun _ _ => id)
  refine Spec.bind (readResponse_idle fun _ => rfl) (fun ret => ?_) (fun _ _ => id)
  exact Spec.ite (fun _ => Spec.give fun _ => id) (fun _ => Spec.give fun _ => id)

theorem disconnect_idle :
    DataSpec (fun v => AllFresh v.history) (disconnect env) (fun _ => Idle) :=
  Spec.post (disconnect_closed fun _ => id) fun _ _ h => h.2.idle

theorem abortTransfer_idle :
    DataSpec (fun v => AllFresh v.history ∧ Together v) (abortTransfer env) (fun _ => Idle) := by
  refine connected_spec (fun v ⟨hfresh, htog⟩ hnone => ⟨hfresh, htog, htog hnone⟩) ?_
  have hwrite : DataSpec (fun v => AllFresh v.history ∧ v.datafd ≠ none)
      (writeCommand env .abor true) (Outcome fun v => AllFresh v.history) :=
    writeCommand_spec (fun _ h hnone => absurd hnone h.2) (fun _ _ _ h _ => Closed.hungUp h.1)
      (fun _ _ h _ => allFresh_sent h.1 rfl)
  refine Spec.bind (Spec.pre hwrite fun v h => ⟨h.1.1, h.2⟩) (fun _ => ?_) (fun _ v h => h.idle)
  refine Spec.bind closeDataConnection_idle (fun _ => Spec.look_any fun open_ => ?_) (fun _ _ => id)
  cases open_ with
  | false => exact Spec.give fun _ => id
  | true =>
    refine Spec.handle (readResponse_idle fun _ => rfl) fun r => ?_
    cases r with
    | ok _ => exact Spec.give fun _ => id
    | error e => exact Spec.pre disconnect_idle fun v h => h.fresh

end Transfers

section Runs

variable {o : Options} {env : Environment}

/-- What holds between two operations. -/
structure SessionInv (transferring : Bool) (v : View) : Prop where
  fresh : AllFresh v.history
  together : Together v
  idle : transferring = false → v.dataConnection = none

theorem Idle.inv {v : View} (h : Idle v) (transferring : Bool) : SessionInv transferring v :=
  ⟨h.fresh, h.together, fun _ => h.data⟩

theorem Started.inv {r : Except GftpError Unit} {v : View} (h : Started r v) :
    SessionInv r.isOk v := by
  cases r with
  | ok _ => exact ⟨h.1, h.2, fun hno => by cases hno⟩
  | error e => exact Idle.inv h _

theorem connect_inv (transferring : Bool) (fuel : ℕ) :
    DataSpec (SessionInv transferring) (gftpConnect o env fuel)
      (fun _ => SessionInv transferring) := by
  cases transferring with
  | true =>
    refine Spec.weaken (gftpConnect_holds (D := fun _ _ _ => True) (fun _ _ => trivial) fuel) ?_ ?_
    · exact fun v h => ⟨⟨h.fresh, trivial⟩, h.together⟩
    · exact fun r v h => ⟨h.1.1, h.2.1, fun hno => by cases hno⟩
  | false =>
    refine Spec.weaken (gftpConnect_holds (D := fun _ data _ => data = none) (fun _ _ => rfl) fuel)
      ?_ ?_
    · exact fun v h => ⟨⟨h.fresh, h.idle rfl⟩, h.together⟩
    · exact fun r v h => ⟨h.1.1, h.2.1, fun _ => h.1.2⟩

theorem call_inv {t : Session} {op : Operation} (hop : SessionFit t op) (fuel : ℕ) :
    DataSpec (SessionInv t.transferring) (op.call o env fuel)
      (fun r => SessionInv (transferringAfter op r t.transferring)) := by
  have hr : KeepsAndEnds DataOk Spare (gftpConnect o env fuel) := gftpConnect_holds spare_none fuel
  cases op with
  | connect => exact connect_inv _ fuel
  | disconnect => exact Spec.weaken disconnect_idle (fun v h => h.fresh) (fun r v h => h.inv _)
  | listFiles =>
    exact Spec.weaken (listFiles_started hr) (fun v h => ⟨h.fresh, h.together⟩) (fun r v h => h.inv)
  | getFile filename startsize =>
    exact Spec.weaken (getFile_started hr) (fun v h => ⟨h.fresh, h.together, h.idle hop⟩)
      (fun r v h => h.inv)
  | putFile filename startsize =>
    exact Spec.weaken (putFile_started hr) (fun v h => ⟨h.fresh, h.together, h.idle hop⟩)
      (fun r v h => h.inv)
  | endTransfer =>
    exact Spec.weaken endTransfer_idle (fun v h => ⟨h.fresh, h.together⟩) (fun r v h => h.inv _)
  | abortTransfer =>
    exact Spec.weaken abortTransfer_idle (fun v h => ⟨h.fresh, h.together⟩) (fun r v h => h.inv _)
  | _ => cases hop

theorem step_inv {t t' : Session} {op : Operation} (hop : SessionFit t op)
    (hstep : SessionStep o env t op t') (hfit : DataFit t'.client.history) :
    DataFit t.client.history ∧ (SessionInv t.transferring (view t.client) →
      SessionInv t'.transferring (view t'.client)) := by
  obtain ⟨fuel, hrun⟩ := hstep
  rename_i r s'
  obtain ⟨hbefore, hafter⟩ := call_inv hop fuel _ r s' hrun hfit
  exact ⟨hbefore, fun h => hafter ⟨h.fresh, h.together, h.idle⟩⟩

/-- In a run whose answers leave no data connection behind, every transfer has one of its own. -/
theorem transfers_have_own_connection {passive hidden resolve flag : Bool} {directory : Bytes}
    {t : Session} (hrun : Reaches (SessionStep o env) SessionFit
      (.start passive hidden resolve flag directory) t) (hfit : DataFit t.client.history) :
    Fresh t := by
  have hinv : DataFit t.client.history → SessionInv t.transferring (view t.client) := by
    refine hrun.invariant
      (fun t => DataFit t.client.history → SessionInv t.transferring (view t.client)) ?_ ?_
    · exact fun _ => ⟨fun _ h => absurd h List.not_mem_nil, fun _ => rfl, fun _ => rfl⟩
    · intro t op t' ht hop hstep hfit'
      obtain ⟨hbefore, hafter⟩ := step_inv hop hstep hfit'
      exact hafter (ht hbefore)
  exact ⟨(hinv hfit).fresh, (hinv hfit).idle⟩

/-- A listing and a download. -/
theorem listing_and_download_fresh : ∃ t,
    Reaches (SessionStep (anonymous []) (answering (loginReplies ++ [(13, "227 1,2,3,4,5,6"),
        (16, "150 here"), (17, "226 done"), (21, "227 1,2,3,4,5,7"), (25, "150 here")]))) SessionFit
        (.start true false false false []) t ∧ t.transferring = true ∧ Fresh t := by
  have hlisted : Reaches (SessionStep (anonymous []) (answering (loginReplies ++
      [(13, "227 1,2,3,4,5,6"), (16, "150 here"), (17, "226 done"), (21, "227 1,2,3,4,5,7"),
        (25, "150 here")]))) SessionFit (.start true false false false []) _ :=
    (Reaches.refl _).tail (a := .connect) (by rfl) (.step 1 rfl)
      |>.tail (a := .listFiles) (by rfl) (.step 1 rfl)
      |>.tail (a := .endTransfer) (by rfl) (.step 1 rfl)
  have hrun := hlisted.tail (a := .getFile (ascii "x") 0) (by rfl) (.step 1 rfl)
  exact ⟨_, hrun, by decide, transfers_have_own_connection hrun (by decide)⟩

/-- LIST is refused, and RETR is sent with the data connection that was made for it. -/
theorem refused_listing_reused :
    ¬ ∀ (o : Options) (env : Environment) (passive hidden resolve flag : Bool) (directory : Bytes)
      (t : Session), Reaches (SessionStep o env) (fun _ op => dealsWithData op = true)
        (.start passive hidden resolve flag directory) t → Fresh t := by
  intro h
  have hrun : Reaches (SessionStep (anonymous []) (answering (loginReplies ++
      [(13, "227 1,2,3,4,5,6"), (16, "550 no"), (19, "150 here")])))
      (fun _ op => dealsWithData op = true) (.start true false false false []) _ :=
    (Reaches.refl _).tail (a := .connect) (by rfl) (.step 1 rfl)
      |>.tail (a := .listFiles) (by rfl) (.step 1 rfl)
      |>.tail (a := .getFile (ascii "x") 0) (by rfl) (.step 1 rfl)
  have hfresh := h _ _ _ _ _ _ _ _ hrun
  exact absurd hfresh.1 (by decide)

end Runs

end Gftp.DataConnections
