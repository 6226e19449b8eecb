import Gftp.FtpRules
import Gftp.FtpTransfers
import Gftp.Runs

/-!
What has been agreed on with an FTP server when a command is sent. With FTPS every command but
AUTH TLS goes out behind a handshake, and a command that is not of the login goes out behind a login
that was granted, whichever connections break and are made again inside of a login.
-/

namespace Gftp.FtpLogins

open ByteStrings Calls Call FtpClient FtpRules FtpTransfers Protocol Runs

/-- The commands that rfc959_connect logs in with. -/
def isLogin : Command → Bool
  | .user _ => true
  | .pass _ => true
  | .acct _ => true
  | .proxy _ => true
  | _ => false

/-- The commands that ftps_auth_tls_start sends. -/
def isSetUp : Command → Bool
  | .authTls => true
  | .pbsz => true
  | .prot _ => true
  | _ => false

/-- AUTH TLS was accepted on the connection. -/
def accepted : List Event → Bool
  | [] => false
  | .opened :: _ => false
  | .reply .authTls _ (.line text) :: _ => text.headD 0 = 50
  | _ :: l => accepted l

/-- PBSZ, the first command behind the handshake, was sent on the connection. -/
def secured : List Event → Bool
  | [] => false
  | .opened :: _ => false
  | .sent .pbsz _ _ _ _ :: l => accepted l || secured l
  | _ :: l => secured l

/-- The last reply to a command of the login on the connection granted it. One that does not begin
with an ASCII character is returned as an error, and the connection stays open. -/
def granted : List Event → Bool
  | [] => false
  | .opened :: _ => false
  | .reply c _ (.line text) :: l =>
      if isLogin c then text.headD 0 = 50 || 128 ≤ text.headD 0 else granted l
  | _ :: l => granted l

/-- Some handshake succeeds. -/
def Shakes (env : Environment) : Prop := ∃ n, env.tls n = .ok ()

/-- A command is AUTH TLS, or it is sent behind the handshake. -/
def Protects (env : Environment) (l : List Event) : Event → Prop
  | .sent c _ _ _ _ =>
      c = .authTls ∨ Shakes env ∧ (secured l = true ∨ c = .pbsz ∧ accepted l = true)
  | _ => True

/-- A command is one of the login, or it is sent behind one. -/
def Follows (l : List Event) : Event → Prop
  | .sent c _ _ _ _ => isLogin c = true ∨ isSetUp c = true ∨ granted l = true
  | _ => True

section Steps

variable {α β : Type} {o : Options} {env : Environment} {reconnect : Ftp Unit} {c : Command}
  {m : Bool} {l : List Event} {N M K B : List Event → Prop} {A : UInt8 → List Event → Prop}

/-- Both of it, the first with FTPS only. -/
def Allowed (o : Options) (env : Environment) (l : List Event) (e : Event) : Prop :=
  (o.authTls = true → Protects env l e) ∧ Follows l e

/-- The handshake of the connection has taken place, when there is to be one. -/
def Protected (o : Options) (env : Environment) (l : List Event) : Prop :=
  o.authTls = true → Shakes env ∧ secured l = true

/-- The login of the connection has taken place. -/
structure Ready (o : Options) (env : Environment) (l : List Event) : Prop where
  secure : Protected o env l
  granted : granted l = true

/-- All commands were sent as they may be, and N holds of an open connection. -/
structure Held (o : Options) (env : Environment) (N : List Event → Prop) (v : View) : Prop where
  allowed : Throughout (Allowed o env) v.history
  now : v.datafd ≠ none → N v.history

abbrev LoginSpec (P : View → Prop) (x : Ftp α) (Q : Except GftpError α → View → Prop) : Prop :=
  Spec (fun _ _ => True) P x Q

theorem Held.mono {v : View} (h : Held o env N v) (hle : ∀ l, N l → M l) : Held o env M v :=
  ⟨h.allowed, fun hopen => hle _ (h.now hopen)⟩

theorem Held.closed {v : View} (h : Held o env N v) (hnone : v.datafd = none) : Held o env M v :=
  ⟨h.allowed, fun hopen => absurd hnone hopen⟩

theorem Held.hungUp {v : View} (h : Throughout (Allowed o env) v.history) (n : ℕ) :
    Held o env M (v.hungUp n) :=
  ⟨⟨⟨fun _ => trivial, trivial⟩, h⟩, fun hopen => absurd rfl hopen⟩

/-- The two ends of a command. -/
def Result (A : UInt8 → List Event → Prop) (B : List Event → Prop) :
    Except GftpError UInt8 → List Event → Prop
  | .ok ret, l => A ret l
  | .error _, l => B l

/-- A connection that is open is left as it is, and one that is made is logged in. -/
def Reconnects (o : Options) (env : Environment) (reconnect : Ftp Unit) : Prop :=
  ∀ N, LoginSpec (Held o env N) reconnect (fun _ => Held o env fun l => N l ∨ Ready o env l)

theorem disconnect_login : LoginSpec (Held o env N) (disconnect env) (fun _ => Held o env M) :=
  disconnect_spec (fun _ h hnone => ⟨h.allowed, fun hopen => absurd hnone hopen⟩)
    fun _ n _ h _ => .hungUp h.allowed n

theorem hangUp_login {e : GftpError} {S : Except GftpError α → List Event → Prop} :
    LoginSpec (Held o env N) (do disconnect env; fail e : Ftp α) (fun r => Held o env (S r)) :=
  Spec.bind (disconnect_login (M := fun _ => False))
    (fun _ => Spec.give fun _ hv => hv.mono fun _ h => h.elim) fun _ _ hv => hv.mono fun _ h => h.elim

/-- An event that no condition looks at. -/
def silent : Event → Bool
  | .sent .. => false
  | .reply .. => false
  | .opened => false
  | _ => true

theorem silent_allowed {e : Event} (h : silent e = true) : Allowed o env l e := by
  cases e with
  | sent c m data control operation => cases h
  | _ => exact ⟨fun _ => trivial, trivial⟩

theorem Ready.silent (h : Ready o env l) {e : Event} (he : silent e = true) : Ready o env (e :: l) := by
  cases e with
  | sent c m data control operation => cases he
  | reply c m a => cases he
  | opened => cases he
  | _ => exact ⟨h.secure, h.granted⟩

theorem secured_sent (h : secured l = true) (data : Option DataConnection) (control : Option ℕ)
    (operation : ℕ) : secured (.sent c m data control operation :: l) = true := by
  cases c <;> first | exact h | exact Bool.or_eq_true_iff.mpr (.inr h)

theorem secured_reply (h : secured l = true) (a : Answer) : secured (.reply c m a :: l) = true := by
  cases c <;> exact h

theorem granted_reply (hc : isLogin c = false) (h : granted l = true) (a : Answer) :
    granted (.reply c m a :: l) = true := by
  cases a with
  | failed => exact h
  | line text =>
    rw [granted, hc]
    exact h

theorem Protected.sent (h : Protected o env l) (data : Option DataConnection) (control : Option ℕ)
    (operation : ℕ) : Protected o env (.sent c m data control operation :: l) := fun htls =>
  ⟨(h htls).1, secured_sent (h htls).2 data control operation⟩

theorem Protected.reply (h : Protected o env l) (a : Answer) : Protected o env (.reply c m a :: l) :=
  fun htls => ⟨(h htls).1, secured_reply (h htls).2 a⟩

theorem Ready.sent (h : Ready o env l) (data : Option DataConnection) (control : Option ℕ)
    (operation : ℕ) : Ready o env (.sent c m data control operation :: l) :=
  ⟨h.secure.sent data control operation, h.granted⟩

theorem Ready.reply (hc : isLogin c = false) (h : Ready o env l) (a : Answer) :
    Ready o env (.reply c m a :: l) := ⟨h.secure.reply a, granted_reply hc h.granted a⟩

theorem Protected.allowed (h : Protected o env l) (hc : isLogin c = true) (data : Option DataConnection)
    (control : Option ℕ) (operation : ℕ) : Allowed o env l (.sent c m data control operation) :=
  ⟨fun htls => .inr ⟨(h htls).1, .inl (h htls).2⟩, .inl hc⟩

theorem Ready.allowed (h : Ready o env l) (data : Option DataConnection) (control : Option ℕ)
    (operation : ℕ) : Allowed o env l (.sent c m data control operation) :=
  ⟨fun htls => .inr ⟨(h.secure htls).1, .inl (h.secure htls).2⟩, .inr (.inr h.granted)⟩

/-- A function that is called behind a login. -/
def Behind (o : Options) (env : Environment) (x : Ftp α) : Prop :=
  LoginSpec (Held o env (Ready o env)) x (fun _ => Held o env (Ready o env))

end Steps

section Logins

variable {α β : Type} {o : Options} {env : Environment} {reconnect : Ftp Unit} {c : Command}
  {m : Bool} {l : List Event} {N M : List Event → Prop}

/-- What the last reply of a login has granted. -/
def Answered (o : Options) (env : Environment) : Except GftpError UInt8 → List Event → Prop :=
  Result (fun ret l => Protected o env l ∧ (ret = 50 → granted l = true)) (Ready o env)

end Logins

section Behind

variable {α β : Type} {o : Options} {env : Environment} {reconnect : Ftp Unit} {c : Command}
  {m : Bool} {e : GftpError} {filename : Bytes}

theorem Behind.give {r : Except GftpError α} : Behind o env (.give r) := Spec.give fun _ => id

theorem Behind.bind {x : Ftp α} {f : α → Ftp β} (hx : Behind o env x) (hf : ∀ a, Behind o env (f a)) :
    Behind o env (x >>= f) := Spec.bind hx hf fun _ _ => id

theorem Behind.handle {x : Ftp α} {f : Except GftpError α → Ftp β} (hx : Behind o env x)
    (hf : ∀ r, Behind o env (f r)) : Behind o env (x.handle f) := Spec.handle hx hf

theorem Behind.ite {p : Prop} [Decidable p] {x y : Ftp α} (hx : Behind o env x)
    (hy : Behind o env y) : Behind o env (if p then x else y) := Spec.ite (fun _ => hx) fun _ => hy

theorem Behind.look {f : Client → β} {g : β → Ftp α} (h : ∀ b, Behind o env (g b)) :
    Behind o env (look f >>= g) := Spec.look_any h

theorem Behind.meet {f : ℕ → β} {g : β → Ftp α} (h : ∀ b, Behind o env (g b)) :
    Behind o env (meet f >>= g) := Spec.meet_bind h

theorem Behind.connected {x : Ftp α} (h : Behind o env x) : Behind o env (connected x) :=
  connected_spec (fun _ h _ => h) (Spec.pre h fun _ => And.left)

theorem Behind.hangUp : Behind o env (do disconnect env; fail e : Ftp α) :=
  hangUp_login (S := fun _ => Ready o env)

theorem Behind.changes {f : Client → Client}
    (h : ∀ s, Held o env (Ready o env) (view s) →
      Throughout (Allowed o env) (f s).history ∧ ((f s).datafd ≠ none → Ready o env (f s).history)) :
    Behind o env (Call.change f) := by
  intro s r s' hrun _
  obtain ⟨hr, rfl⟩ := Prod.mk.inj hrun
  obtain rfl := Option.some.inj hr
  exact ⟨throughout_true, fun hv => ⟨(h s hv).1, (h s hv).2⟩⟩

/-- A change of the client that leaves the connection and what happened on it. -/
theorem Behind.change {f : Client → Client} (h : ∀ s, (f s).history = s.history)
    (hdatafd : ∀ s, (f s).datafd = s.datafd) : Behind o env (change f) :=
  .changes fun s hv => ⟨(h s).symm ▸ hv.allowed, fun hopen => (h s).symm ▸ hv.now ((hdatafd s).symm.trans_ne hopen)⟩

theorem Behind.note {f : Client → Client} {event : Client → Event}
    (hsilent : ∀ s, silent (event s) = true)
    (h : ∀ s, (f s).history = event s :: s.history) (hdatafd : ∀ s, (f s).datafd = s.datafd) :
    Behind o env (Call.change f) :=
  .changes fun s hv => ⟨(h s).symm ▸ ⟨silent_allowed (hsilent s), hv.allowed⟩,
    fun hopen => (h s).symm ▸ (hv.now ((hdatafd s).symm.trans_ne hopen)).silent (hsilent s)⟩

/-- A connection that is lost is made again behind a login. -/
theorem Reconnects.behind (hr : Reconnects o env reconnect) : Behind o env reconnect :=
  (hr (Ready o env)).post fun _ _ hv => hv.mono fun _ hl => hl.elim id id

end Behind

section Operations

variable {α : Type} {o : Options} {env : Environment} {reconnect : Ftp Unit} {c : Command}
  {filename : Bytes} {startsize : ℕ}

end Operations

end Gftp.FtpLogins
