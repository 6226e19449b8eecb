import Gftp.FtpRules

/-!
What the functions of an FTP client add to the history. Every function adds events in front of
those that are there; a login adds events about its own commands only, whatever the server
answers and however it ends.
-/

namespace Gftp.FtpEvents

open ByteStrings Calls Call FtpClient Protocol

variable {α β : Type} {p : Event → Prop}

/-- x adds only events that satisfy p. -/
def Emits (p : Event → Prop) (x : Ftp α) : Prop :=
  ∀ s, ∃ new, (x s).2.history = new ++ s.history ∧ ∀ e ∈ new, p e

namespace Emits

variable {x y : Ftp α}

theorem quiet (h : ∀ s, (x s).2.history = s.history) : Emits p x :=
  fun s => ⟨[], h s, List.forall_mem_nil _⟩

theorem give (r : Except GftpError α) : Emits p (.give r) := quiet fun _ => rfl

theorem look (f : Client → α) : Emits p (.look f : Ftp α) := quiet fun _ => rfl

theorem change {f : Client → Client} (h : ∀ s, (f s).history = s.history) :
    Emits p (.change f : Ftp Unit) := quiet h

theorem pending : Emits p (.pending : Ftp α) := quiet fun _ => rfl

/-- An event is noted. -/
theorem note {f : Client → Client} {e : Client → Event} (he : ∀ s, p (e s))
    (h : ∀ s, (f s).history = e s :: s.history) : Emits p (.change f : Ftp Unit) := by
  intro s
  exact ⟨[e s], h s, List.forall_mem_singleton.mpr (he s)⟩

theorem handle {f : Except GftpError α → Ftp β} (hx : Emits p x) (hf : ∀ r, Emits p (f r)) :
    Emits p (x.handle f) := by
  intro s
  obtain ⟨new, hnew, hall⟩ := hx s
  rcases handle_cases x f s with ⟨-, hstop⟩ | ⟨r, s', hrun, hrest⟩
  · exact ⟨new, by rw [hstop]; exact hnew, hall⟩
  · obtain ⟨later, hlater, hall'⟩ := hf r s'
    rw [hrun] at hnew
    refine ⟨later ++ new, ?_, ?_⟩
    · rw [hrest, hlater, hnew, List.append_assoc]
    · exact List.forall_mem_append.mpr ⟨hall', hall⟩

theorem bind {f : α → Ftp β} (hx : Emits p x) (hf : ∀ a, Emits p (f a)) : Emits p (x >>= f) := by
  refine hx.handle fun r => ?_
  cases r with
  | ok a => exact hf a
  | error e => exact give _

theorem ite {c : Prop} [Decidable c] (hx : Emits p x) (hy : Emits p y) :
    Emits p (if c then x else y) := by
  split
  · exact hx
  · exact hy

end Emits

/-- The events of a command. -/
structure CommandEvents (p : Event → Prop) (c : Command) : Prop where
  sent : ∀ m data control operation, p (.sent c m data control operation)
  reply : ∀ m a, p (.reply c m a)

/-- The commands of a login. -/
def ofLogin : Command → Bool
  | .type _ => true
  | c => FtpRules.plain c

/-- The events of a login. -/
structure LoginEvents (p : Event → Prop) : Prop where
  commands : ∀ c, ofLogin c = true → CommandEvents p c
  attempted : p .attempted
  opened : p .opened
  banner : ∀ a, p (.banner a)
  closed : ∀ n, p (.closed n)

section Functions

variable {o : Options} {env : Environment} {reconnect : Ftp Unit} {c : Command} {m : Bool}

theorem meet_emits {f : ℕ → α} : Emits p (meet f) :=
  Emits.bind (.look _) fun _ => Emits.bind (.change fun _ => rfl) fun _ => .give _

theorem closeDataConnection_emits : Emits p closeDataConnection := .change fun _ => rfl

theorem disconnect_emits (hclosed : ∀ n, p (.closed n)) : Emits p (disconnect env) := by
  refine closeDataConnection_emits.bind fun _ => (Emits.look _).bind fun _ => ?_
  refine Emits.ite (meet_emits.bind fun n => ?_) (.give _)
  exact .note (e := fun _ => .closed n) (fun _ => hclosed n) fun _ => rfl

theorem connected_emits {x : Ftp α} (h : Emits p x) : Emits p (connected x) :=
  (Emits.look _).bind fun _ => Emits.ite h (.give _)

theorem readResponse_emits {event : Answer → Event} {disconnectOn42x : Bool}
    (hclosed : ∀ n, p (.closed n)) (hevent : ∀ a, p (event a)) :
    Emits p (readResponse env event disconnectOn42x) := by
  refine connected_emits (meet_emits.bind fun a => ?_)
  refine Emits.bind (.note (e := fun _ => event a) (fun _ => hevent a) fun _ => rfl) fun _ => ?_
  cases a with
  | failed => exact (disconnect_emits hclosed).bind fun _ => .give _
  | line text =>
    refine Emits.bind (.change fun _ => rfl) fun _ => ?_
    exact Emits.ite ((disconnect_emits hclosed).bind fun _ => .give _) (.give _)

theorem writeCommand_emits (hclosed : ∀ n, p (.closed n))
    (hsent : ∀ data control operation, p (.sent c m data control operation)) :
    Emits p (writeCommand env c m) := by
  refine connected_emits (meet_emits.bind fun _ => Emits.ite ?_ ?_)
  · exact .note (e := fun s => .sent c m s.dataConnection s.datafd s.operation)
      (fun _ => hsent _ _ _) fun _ => rfl
  · exact (disconnect_emits hclosed).bind fun _ => .give _

theorem exchange_emits (hclosed : ∀ n, p (.closed n)) (hc : CommandEvents p c) :
    Emits p (exchange env c m) :=
  (writeCommand_emits hclosed (hc.sent m)).bind fun _ => readResponse_emits hclosed (hc.reply m)

theorem sendCommand_emits (hclosed : ∀ n, p (.closed n)) (hc : CommandEvents p c)
    (hr : Emits p reconnect) : Emits p (sendCommand env reconnect c m) := by
  refine (exchange_emits hclosed hc).handle fun r => ?_
  split
  · exact Emits.ite (hr.bind fun _ => exchange_emits hclosed hc) (.give _)
  · exact .give _

section Login

variable (hp : LoginEvents p) (hr : Emits p reconnect)

include hp hr

theorem login_command (hc : ofLogin c = true) : Emits p (sendCommand env reconnect c m) :=
  sendCommand_emits hp.closed (hp.commands c hc) hr

theorem getcwd_emits : Emits p (getcwd o env reconnect) := by
  refine (login_command hp hr rfl).bind fun _ => Emits.ite ?_ ?_
  · exact (disconnect_emits hp.closed).bind fun _ => .give _
  · refine (Emits.look _).bind fun dir => ?_
    cases dir with
    | none => exact (disconnect_emits hp.closed).bind fun _ => .give _
    | some dir => exact .change fun _ => rfl

theorem chdir_emits (directory : Bytes) : Emits p (chdir o env reconnect directory) := by
  have hc : ofLogin (if directory = ascii ".." then .cdup else .cwd directory) = true := by
    split <;> rfl
  exact (login_command hp hr hc).bind fun _ => Emits.ite (.give _) (getcwd_emits hp hr)

theorem syst_emits : Emits p (syst env reconnect) := by
  refine (login_command hp hr rfl).bind fun _ => Emits.ite (.give _) ?_
  refine (Emits.look _).bind fun name => ?_
  cases name with
  | none => exact .give _
  | some name => exact Emits.ite (.change fun _ => rfl) (.give _)

theorem protect_emits : Emits p (protect env reconnect) := by
  refine (login_command hp hr rfl).bind fun _ => (login_command hp hr rfl).bind fun _ => ?_
  refine Emits.ite (.give _) ((login_command hp hr rfl).bind fun _ => Emits.ite ?_ (.give _))
  exact (disconnect_emits hp.closed).bind fun _ => .give _

theorem startTls_emits : Emits p (startTls o env reconnect) := by
  refine Emits.ite (Emits.handle ?_ fun r => ?_) (.give _)
  · refine (login_command hp hr rfl).bind fun _ => Emits.ite (.give _) (meet_emits.bind fun out => ?_)
    cases out with
    | error e => exact .give _
    | ok _ => exact protect_emits hp hr
  · cases r with
    | ok _ => exact .give _
    | error e => exact (disconnect_emits hp.closed).bind fun _ => .give _

theorem proxyLogin_emits (lines : List Bytes) (resp : UInt8) :
    Emits p (proxyLogin env reconnect resp lines) := by
  induction lines generalizing resp with
  | nil => exact .give _
  | cons line lines ih =>
    exact Emits.ite ((login_command hp hr rfl).bind fun resp => ih resp) (.give _)

theorem login_emits : Emits p (login o env reconnect) := by
  unfold login
  cases o.proxyText with
  | some text => exact proxyLogin_emits hp hr _ _
  | none =>
    refine (login_command hp hr rfl).bind fun _ => Emits.ite ?_ (.give _)
    refine (login_command hp hr rfl).bind fun resp => ?_
    unfold sendAccount
    cases o.account with
    | none => exact .give _
    | some account => exact Emits.ite (login_command hp hr rfl) (.give _)

theorem enterDirectory_emits : Emits p (enterDirectory o env reconnect) := by
  have hstill : Emits p stillConnected :=
    (Emits.look _).bind fun _ => Emits.ite (.give _) (.give _)
  refine (Emits.look _).bind fun directory => Emits.ite ?_ ?_
  · refine (chdir_emits hp hr directory).handle fun r => (Emits.look _).bind fun _ => ?_
    refine Emits.ite (.give r) ?_
    cases r with
    | ok _ => exact hstill
    | error e => exact (getcwd_emits hp hr).bind fun _ => hstill
  · exact (getcwd_emits hp hr).bind fun _ => hstill

theorem afterLogin_emits : Emits p (afterLogin o env reconnect) := by
  have hset : Emits p (setOptionType o env reconnect) :=
    Emits.bind (.change fun _ => rfl) fun _ =>
      (login_command hp hr rfl).bind fun _ => enterDirectory_emits hp hr
  refine (syst_emits hp hr).handle fun r => ?_
  cases r with
  | ok _ => exact hset
  | error e => exact (Emits.look _).bind fun _ => Emits.ite (.give _) hset

theorem rfc959Connect_emits : Emits p (rfc959Connect o env reconnect) := by
  have hconnect : Emits p (connectServer env) := by
    refine Emits.bind (.note (e := fun _ => .attempted) (fun _ => hp.attempted) fun _ => rfl) fun _ =>
      meet_emits.bind fun out => ?_
    cases out with
    | error e => exact .give _
    | ok _ => exact .note (e := fun _ => .opened) (fun _ => hp.opened) fun _ => rfl
  have hgreeting : Emits p (greeting env) := by
    refine (readResponse_emits hp.closed hp.banner).handle fun r => ?_
    cases r with
    | ok ret => exact Emits.ite ((disconnect_emits hp.closed).bind fun _ => .give _) (.give _)
    | error e => exact (disconnect_emits hp.closed).bind fun _ => .give _
  refine (Emits.look _).bind fun _ => Emits.ite (.give _) ?_
  refine hconnect.bind fun _ => hgreeting.bind fun _ => (startTls_emits hp hr).bind fun _ =>
    (login_emits hp hr).bind fun resp => Emits.ite ?_ (afterLogin_emits hp hr)
  exact (disconnect_emits hp.closed).bind fun _ => .give _

end Login

/-- A connection adds the events of logins only. -/
theorem gftpConnect_emits (hp : LoginEvents p) (fuel : ℕ) : Emits p (gftpConnect o env fuel) := by
  induction fuel with
  | zero => exact .pending
  | succ fuel ih => exact rfc959Connect_emits hp ih

end Functions

end Gftp.FtpEvents
