import Gftp.FtpClient

/-!
Rules for the functions of an FTP client. They speak of the parts of the client that tell what
happens on the wire: the connections, the kind of the transfer and the history. What every
command of a login keeps is kept by rfc959_connect, which in addition leaves the client
connected or returns an error.
-/

namespace Gftp.FtpRules

open ByteStrings Calls Call FtpClient Protocol

structure View where
  datafd : Option ℕ
  dataConnection : Option DataConnection
  operation : ℕ
  isAsciiTransfer : Bool
  passiveTransfer : Bool
  history : List Event

def view (s : Client) : View :=
  ⟨s.datafd, s.dataConnection, s.operation, s.isAsciiTransfer, s.passiveTransfer, s.history⟩

namespace View

def note (v : View) (e : Event) : View := { v with history := e :: v.history }

/-- Both connections are closed. -/
def hungUp (v : View) (n : ℕ) : View :=
  { v.note (.closed n) with datafd := none, dataConnection := none }

def opened (v : View) (k : ℕ) : View := { v.note .opened with datafd := some k }

def sent (v : View) (c : Command) (mayReconnect : Bool) : View :=
  v.note (.sent c mayReconnect v.dataConnection v.datafd v.operation)

def replied (v : View) (c : Command) (mayReconnect : Bool) (a : Answer) : View :=
  (v.sent c mayReconnect).note (.reply c mayReconnect a)

end View

/-- A triple about the view, as long as each event meets the condition ok. -/
def Spec {α : Type} (ok : List Event → Event → Prop) (P : View → Prop) (x : Ftp α)
    (Q : Except GftpError α → View → Prop) : Prop :=
  Triple (fun s => Throughout ok s.history) (fun s => P (view s)) x (fun r s => Q r (view s))

namespace Spec

variable {α β : Type} {ok : List Event → Event → Prop} {P P' : View → Prop}
  {x : Ftp α} {Q Q' : Except GftpError α → View → Prop} {env : Environment}

theorem give {r : Except GftpError α} (h : ∀ v, P v → Q r v) : Spec ok P (.give r) Q :=
  Triple.pre Triple.give fun s => h (view s)

theorem handle {f : Except GftpError α → Ftp β} {R : Except GftpError α → View → Prop}
    {Q : Except GftpError β → View → Prop} (hx : Spec ok P x R)
    (hf : ∀ r, Spec ok (R r) (f r) Q) : Spec ok P (x.handle f) Q :=
  Triple.handle hx hf

theorem bind {f : α → Ftp β} {R : Except GftpError α → View → Prop}
    {Q : Except GftpError β → View → Prop} (hx : Spec ok P x R)
    (hf : ∀ a, Spec ok (R (.ok a)) (f a) Q) (herr : ∀ e v, R (.error e) v → Q (.error e) v) :
    Spec ok P (x >>= f) Q :=
  Triple.bind hx hf fun e s => herr e (view s)

theorem weaken (h : Spec ok P x Q) (hpre : ∀ v, P' v → P v) (hpost : ∀ r v, Q r v → Q' r v) :
    Spec ok P' x Q' :=
  Triple.weaken h (fun s _ => hpre (view s)) (fun r s _ => hpost r (view s))

theorem pre (h : Spec ok P x Q) (hpre : ∀ v, P' v → P v) : Spec ok P' x Q :=
  h.weaken hpre fun _ _ => id

theorem post (h : Spec ok P x Q) (hpost : ∀ r v, Q r v → Q' r v) : Spec ok P x Q' :=
  h.weaken (fun _ => id) hpost

theorem and (h : Spec ok P x Q) (h' : Spec ok P' x Q') :
    Spec ok (fun v => P v ∧ P' v) x (fun r v => Q r v ∧ Q' r v) := Triple.and h h'

theorem ite {c : Prop} [Decidable c] {y : Ftp α} (hx : c → Spec ok P x Q)
    (hy : ¬ c → Spec ok P y Q) : Spec ok P (if c then x else y) Q := Triple.ite hx hy

theorem look_bind (f : View → β) {g : β → Ftp α}
    (h : ∀ a, Spec ok (fun v => P v ∧ f v = a) (g a) Q) :
    Spec ok P (look (fun s => f (view s)) >>= g) Q := Triple.look_bind h

theorem look_any {f : Client → β} {g : β → Ftp α} (h : ∀ a, Spec ok P (g a) Q) :
    Spec ok P (look f >>= g) Q := Triple.look_bind fun a => Triple.pre (h a) fun _ => And.left

/-- Of what is looked at only K is used. -/
theorem look_such {f : Client → β} {g : β → Ftp α} (K : β → Prop) (hK : ∀ s, K (f s))
    (h : ∀ a, K a → Spec ok P (g a) Q) : Spec ok P (look f >>= g) Q := by
  intro s r s' hrun hc
  exact h (f s) (hK s) s r s' hrun hc

/-- A change that the view does not show. -/
theorem unseen_bind {f : Client → Client} {g : Unit → Ftp α} (hf : ∀ s, view (f s) = view s)
    (h : Spec ok P (g ()) Q) : Spec ok P (change f >>= g) Q := by
  have hhist : ∀ s, (f s).history = s.history := fun s => congrArg View.history (hf s)
  refine Triple.change_bind (fun s => by rw [hhist]; exact id) (fun s _ => ?_) h
  rw [hf]
  exact id

/-- A change that the view shows as f. -/
theorem seen_bind {f : Client → Client} (fv : View → View) {R : View → Prop} {g : Unit → Ftp α}
    (hf : ∀ s, view (f s) = fv (view s))
    (hC : ∀ s, Throughout ok (f s).history → Throughout ok s.history)
    (hR : ∀ v, Throughout ok (fv v).history → P v → R (fv v)) (h : Spec ok R (g ()) Q) :
    Spec ok P (change f >>= g) Q := by
  refine Triple.change_bind hC (fun s hc hp => ?_) h
  rw [hf]
  refine hR _ ?_ hp
  rw [← hf]
  exact hc

theorem seen {f : Client → Client} (fv : View → View) {Q : Except GftpError Unit → View → Prop}
    (hf : ∀ s, view (f s) = fv (view s))
    (hC : ∀ s, Throughout ok (f s).history → Throughout ok s.history)
    (hQ : ∀ v, Throughout ok (fv v).history → P v → Q (.ok ()) (fv v)) :
    Spec ok P (change f) Q := by
  intro s r s' h hc
  obtain ⟨hr, rfl⟩ := Prod.mk.inj h
  obtain rfl := Option.some.inj hr
  refine ⟨hC s hc, fun hp => ?_⟩
  have hafter := hQ (view s) (by rw [← hf]; exact hc) hp
  rw [← hf] at hafter
  exact hafter

theorem meet_bind {f : ℕ → β} {g : β → Ftp α} (h : ∀ a, Spec ok P (g a) Q) :
    Spec ok P (meet f >>= g) Q := by
  intro s r s' hrun hc
  exact h (f s.time) { s with time := s.time + 1 } r s' hrun hc

end Spec

section Primitives

variable {α : Type} {ok : List Event → Event → Prop} {P : View → Prop} {env : Environment}

theorem connected_spec {x : Ftp α} {Q : Except GftpError α → View → Prop}
    (hclosed : ∀ v, P v → v.datafd = none → Q (.error .fatal) v)
    (hx : Spec ok (fun v => P v ∧ v.datafd ≠ none) x Q) : Spec ok P (connected x) Q := by
  refine Spec.look_bind (fun v => v.datafd.isSome) fun a => ?_
  cases a with
  | true => exact hx.pre fun v ⟨hp, hopen⟩ => ⟨hp, Option.isSome_iff_ne_none.mp hopen⟩
  | false => exact Spec.give fun v ⟨hp, hclose⟩ => hclosed v hp (by simpa using hclose)

theorem closeDataConnection_spec {Q : Except GftpError Unit → View → Prop}
    (h : ∀ v, P v → Q (.ok ()) { v with dataConnection := none }) :
    Spec ok P closeDataConnection Q :=
  Spec.seen (fun v => { v with dataConnection := none }) (fun _ => rfl) (fun _ => id)
    fun v _ => h v

theorem disconnect_spec {Q : Except GftpError Unit → View → Prop}
    (hclosed : ∀ v, P v → v.datafd = none → Q (.ok ()) { v with dataConnection := none })
    (hopen : ∀ v n, Throughout ok (v.hungUp n).history → P v → v.datafd ≠ none →
      Q (.ok ()) (v.hungUp n)) : Spec ok P (disconnect env) Q := by
  refine Spec.bind (R := fun r v => r = .ok () ∧ ∃ v₀, P v₀ ∧ v = { v₀ with dataConnection := none })
    (closeDataConnection_spec fun v hp => ⟨rfl, v, hp, rfl⟩) (fun _ => ?_) (by simp)
  refine Spec.look_bind (fun v => v.datafd.isSome) fun a => ?_
  cases a with
  | true =>
    refine Spec.meet_bind fun n => ?_
    refine Spec.seen (fun v => { v.note (.closed n) with datafd := none }) (fun _ => rfl)
      (fun _ h => h.2) ?_
    rintro v hc ⟨⟨-, v₀, hp, rfl⟩, hsome⟩
    exact hopen v₀ n hc hp (Option.isSome_iff_ne_none.mp hsome)
  | false =>
    refine Spec.give ?_
    rintro v ⟨⟨-, v₀, hp, rfl⟩, hnone⟩
    exact hclosed v₀ hp (by simpa using hnone)

theorem readResponse_spec {event : Answer → Event} {disconnectOn42x : Bool}
    {Q : Except GftpError UInt8 → View → Prop}
    (hclosed : ∀ v, P v → v.datafd = none → Q (.error .fatal) v)
    (hfailed : ∀ v n, Throughout ok ((v.note (event .failed)).hungUp n).history → P v →
      v.datafd ≠ none → Q (.error .retryable) ((v.note (event .failed)).hungUp n))
    (hcut : ∀ v text n, text.take 2 = ascii "42" → disconnectOn42x = true →
      Throughout ok ((v.note (event (.line text))).hungUp n).history → P v → v.datafd ≠ none →
      Q (.error .timedOut) ((v.note (event (.line text))).hungUp n))
    (hline : ∀ v text, ¬ (text.take 2 = ascii "42" ∧ disconnectOn42x = true) →
      Throughout ok (v.note (event (.line text))).history → P v → v.datafd ≠ none →
      Q (charRet (text.headD 0)) (v.note (event (.line text)))) :
    Spec ok P (readResponse env event disconnectOn42x) Q := by
  refine connected_spec hclosed (Spec.meet_bind fun a => ?_)
  refine Spec.seen_bind (fun v => v.note (event a))
    (R := fun v => ∃ v₀, v = v₀.note (event a) ∧ Throughout ok v.history ∧ P v₀ ∧ v₀.datafd ≠ none)
    (fun _ => rfl) (fun _ h => h.2) (fun v hc ⟨hp, hopen⟩ => ⟨v, rfl, hc, hp, hopen⟩) ?_
  cases a with
  | failed =>
    refine Spec.bind (R := fun r v => r = .ok () ∧ Q (.error .retryable) v)
      (disconnect_spec ?_ ?_) (fun _ => Spec.give fun v => And.right) (by simp)
    · rintro v ⟨v₀, rfl, -, -, hopen⟩ hnone
      exact absurd hnone hopen
    · rintro v n hc ⟨v₀, rfl, -, hp, hopen⟩ -
      exact ⟨rfl, hfailed v₀ n hc hp hopen⟩
  | line text =>
    refine Spec.unseen_bind (fun _ => rfl) (Spec.ite (fun hcond => ?_) (fun hcond => ?_))
    · refine Spec.bind (R := fun r v => r = .ok () ∧ Q (.error .timedOut) v)
        (disconnect_spec ?_ ?_) (fun _ => Spec.give fun v => And.right) (by simp)
      · rintro v ⟨v₀, rfl, -, -, hopen⟩ hnone
        exact absurd hnone hopen
      · rintro v n hc ⟨v₀, rfl, -, hp, hopen⟩ -
        exact ⟨rfl, hcut v₀ text n hcond.1 hcond.2 hc hp hopen⟩
    · refine Spec.give ?_
      rintro v ⟨v₀, rfl, hc, hp, hopen⟩
      exact hline v₀ text hcond hc hp hopen

theorem writeCommand_spec {c : Command} {mayReconnect : Bool}
    {Q : Except GftpError Unit → View → Prop}
    (hclosed : ∀ v, P v → v.datafd = none → Q (.error .fatal) v)
    (hfailed : ∀ v n, Throughout ok (v.hungUp n).history → P v → v.datafd ≠ none →
      Q (.error .retryable) (v.hungUp n))
    (hsent : ∀ v, Throughout ok (v.sent c mayReconnect).history → P v → v.datafd ≠ none →
      Q (.ok ()) (v.sent c mayReconnect)) :
    Spec ok P (writeCommand env c mayReconnect) Q := by
  refine connected_spec hclosed (Spec.meet_bind fun written => ?_)
  cases written with
  | true =>
    refine Spec.seen (fun v => v.sent c mayReconnect) (fun _ => rfl) (fun _ h => h.2) ?_
    exact fun v hc ⟨hp, hopen⟩ => hsent v hc hp hopen
  | false =>
    refine Spec.bind (R := fun r v => r = .ok () ∧ Q (.error .retryable) v)
      (disconnect_spec ?_ ?_) (fun _ => Spec.give fun v => And.right) (by simp)
    · exact fun v ⟨_, hopen⟩ hnone => absurd hnone hopen
    · exact fun v n hc ⟨hp, hopen⟩ _ => ⟨rfl, hfailed v n hc hp hopen⟩

/-- What holds when a command has been written, or an error is returned. -/
def Sent (P : View → Prop) (c : Command) (mayReconnect : Bool)
    (Q : Except GftpError UInt8 → View → Prop) : Except GftpError Unit → View → Prop
  | .ok _, v => ∃ v₀ : View, v = v₀.sent c mayReconnect ∧ P v₀ ∧ v₀.datafd ≠ none
  | .error e, v => Q (.error e) v

theorem exchange_spec {c : Command} {mayReconnect : Bool}
    {Q : Except GftpError UInt8 → View → Prop}
    (hclosed : ∀ v, P v → v.datafd = none → Q (.error .fatal) v)
    (hunsent : ∀ v n, Throughout ok (v.hungUp n).history → P v → v.datafd ≠ none →
      Q (.error .retryable) (v.hungUp n))
    (hfailed : ∀ v n, Throughout ok ((v.replied c mayReconnect .failed).hungUp n).history → P v →
      v.datafd ≠ none → Q (.error .retryable) ((v.replied c mayReconnect .failed).hungUp n))
    (hcut : ∀ v text n, text.take 2 = ascii "42" →
      Throughout ok ((v.replied c mayReconnect (.line text)).hungUp n).history → P v →
      v.datafd ≠ none → Q (.error .timedOut) ((v.replied c mayReconnect (.line text)).hungUp n))
    (hline : ∀ v text, text.take 2 ≠ ascii "42" →
      Throughout ok (v.replied c mayReconnect (.line text)).history → P v → v.datafd ≠ none →
      Q (charRet (text.headD 0)) (v.replied c mayReconnect (.line text))) :
    Spec ok P (exchange env c mayReconnect) Q := by
  refine Spec.bind (R := Sent P c mayReconnect Q)
    (writeCommand_spec hclosed hunsent fun v _ hp hopen => ⟨v, rfl, hp, hopen⟩) (fun _ => ?_)
    (fun e v h => h)
  refine readResponse_spec ?_ ?_ ?_ ?_
  · rintro v ⟨v₀, rfl, -, hopen⟩ hnone
    exact absurd hnone hopen
  · rintro v n hc ⟨v₀, rfl, hp, hopen⟩ -
    exact hfailed v₀ n hc hp hopen
  · rintro v text n hfront - hc ⟨v₀, rfl, hp, hopen⟩ -
    exact hcut v₀ text n hfront hc hp hopen
  · rintro v text hfront hc ⟨v₀, rfl, hp, hopen⟩ -
    exact hline v₀ text (fun h => hfront ⟨h, rfl⟩) hc hp hopen

end Primitives

/-- A data connection is open only with the control connection. -/
def Together (v : View) : Prop := v.datafd = none → v.dataConnection = none

/-- A function that returns an error has left the client disconnected. -/
def Ends {α : Type} (r : Except GftpError α) (v : View) : Prop :=
  match r with
  | .ok _ => v.datafd ≠ none
  | .error _ => v.datafd = none

/-- I is kept, and the function ends as it says. -/
def KeepsAndEnds {α : Type} (ok : List Event → Event → Prop) (I : View → Prop) (x : Ftp α) : Prop :=
  Spec ok (fun v => I v ∧ Together v) x (fun r v => I v ∧ Together v ∧ Ends r v)

/-- I is kept, and without an error the client is connected still. -/
def KeepsAndStays {α : Type} (ok : List Event → Event → Prop) (I : View → Prop) (x : Ftp α) :
    Prop :=
  Spec ok (fun v => I v ∧ Together v) x (fun r v => I v ∧ Together v ∧ (r.isOk → v.datafd ≠ none))

/-- The commands that change neither the type nor deal with a transfer. -/
def plain : Command → Bool
  | .type _ => false
  | .rest _ => false
  | .retr _ => false
  | .stor _ => false
  | .list _ _ => false
  | .abor => false
  | _ => true

/-- The commands for a transfer on a data connection. -/
def startsTransfer : Command → Bool
  | .list _ _ => true
  | .retr _ => true
  | .stor _ => true
  | _ => false

theorem plain_startsTransfer {c : Command} (h : plain c = true) : startsTransfer c = false := by
  cases c <;> first | rfl | cases h

/-- A reply begins with an ASCII character. -/
def readable : Event → Bool
  | .reply _ _ (.line text) => text.headD 0 < 128
  | .banner (.line text) => text.headD 0 < 128
  | _ => true

/-- Each plain command and the end of the connection keep I. -/
structure Kept (ok : List Event → Event → Prop) (env : Environment) (I : View → Prop) : Prop where
  readable : ∀ l e, ok l e → readable e = true
  commands : ∀ c m, plain c = true → Spec ok I (exchange env c m) (fun _ => I)
  hangUp : Spec ok I (disconnect env) (fun _ => I)

section Commands

variable {α : Type} {ok : List Event → Event → Prop} {I : View → Prop} {env : Environment}
  {o : Options} {reconnect : Ftp Unit} {c : Command} {m : Bool}

theorem charRet_ok {b : UInt8} (h : b < 128) : charRet b = .ok b := if_pos h

theorem exchange_ends (h : ∀ l e, ok l e → readable e = true) :
    Spec ok Together (exchange env c m) (fun r v => Together v ∧ Ends r v) := by
  refine exchange_spec ?_ ?_ ?_ ?_ ?_
  · exact fun v htog hnone => ⟨htog, hnone⟩
  · exact fun _ _ _ _ _ => ⟨fun _ => rfl, rfl⟩
  · exact fun _ _ _ _ _ => ⟨fun _ => rfl, rfl⟩
  · exact fun _ _ _ _ _ _ _ => ⟨fun _ => rfl, rfl⟩
  · intro v text _ hc _ hopen
    rw [charRet_ok (of_decide_eq_true (h _ _ hc.1))]
    exact ⟨fun hnone => absurd hnone hopen, hopen⟩

theorem KeepsAndEnds.of_exchange (h : ∀ l e, ok l e → readable e = true)
    (hI : Spec ok I (exchange env c m) (fun _ => I)) : KeepsAndEnds ok I (exchange env c m) :=
  hI.and (exchange_ends h)

theorem KeepsAndEnds.stays {x : Ftp α} (h : KeepsAndEnds ok I x) : KeepsAndStays ok I x := by
  refine h.post ?_
  rintro r v ⟨hi, htog, hends⟩
  refine ⟨hi, htog, fun hr => ?_⟩
  cases r with
  | ok a => exact hends
  | error e => cases hr

theorem sendCommand_ends (hfirst : KeepsAndEnds ok I (exchange env c m))
    (hagain : KeepsAndEnds ok I (exchange env c false)) (hr : KeepsAndEnds ok I reconnect) :
    KeepsAndEnds ok I (sendCommand env reconnect c m) := by
  refine Spec.handle hfirst fun r => ?_
  split
  · split
    · refine Spec.bind (Spec.pre hr fun v h => ⟨h.1, h.2.1⟩) (fun _ => ?_) (fun _ _ => id)
      exact Spec.pre hagain fun v h => ⟨h.1, h.2.1⟩
    · exact Spec.give fun _ => id
  · exact Spec.give fun _ => id

theorem Kept.sendCommand (hk : Kept ok env I) (hr : KeepsAndEnds ok I reconnect)
    (hc : plain c = true) : KeepsAndEnds ok I (sendCommand env reconnect c m) :=
  sendCommand_ends (.of_exchange hk.readable (hk.commands c m hc))
    (.of_exchange hk.readable (hk.commands c false hc)) hr

theorem Kept.hangUp_then (hk : Kept ok env I) {e : GftpError} {P : View → Prop}
    {Q : Except GftpError α → View → Prop} (hP : ∀ v, P v → I v)
    (hQ : ∀ v, I v → Together v → v.datafd = none → Q (.error e) v) :
    Spec ok P (do disconnect env; fail e) Q := by
  have hclosed : Spec ok P (disconnect env) (fun r v => r = .ok () ∧ Together v ∧ v.datafd = none) :=
    disconnect_spec (fun v _ hnone => ⟨rfl, fun _ => rfl, hnone⟩)
      (fun _ _ _ _ _ => ⟨rfl, fun _ => rfl, rfl⟩)
  refine Spec.bind (Spec.and (hk.hangUp.pre hP) hclosed |>.pre fun v h => ⟨h, h⟩) (fun _ => ?_) ?_
  · exact Spec.give fun v ⟨hi, _, htog, hnone⟩ => hQ v hi htog hnone
  · simp

theorem Kept.hangUp_fail (hk : Kept ok env I) {e : GftpError} {P : View → Prop}
    (hP : ∀ v, P v → I v) :
    Spec ok P (do disconnect env; fail e) (fun (r : Except GftpError α) v =>
      I v ∧ Together v ∧ Ends r v) :=
  hk.hangUp_then hP fun _ hi htog hnone => ⟨hi, htog, hnone⟩

theorem getcwd_ends (hk : Kept ok env I) (hr : KeepsAndEnds ok I reconnect) :
    KeepsAndEnds ok I (getcwd o env reconnect) := by
  refine Spec.bind (hk.sendCommand hr rfl) (fun ret => ?_) (fun _ _ => id)
  refine Spec.ite (fun _ => hk.hangUp_fail fun v h => h.1) (fun _ => Spec.look_any fun dir => ?_)
  cases dir with
  | none => exact hk.hangUp_fail fun v h => h.1
  | some dir =>
    exact Spec.seen id (fun _ => rfl) (fun _ => id) fun _ _ => id

/-- A refused directory is an error that leaves the client connected. -/
theorem chdir_stays (hk : Kept ok env I) (hr : KeepsAndEnds ok I reconnect) (directory : Bytes) :
    KeepsAndStays ok I (chdir o env reconnect directory) := by
  have hplain : plain (if directory = ascii ".." then .cdup else .cwd directory) = true := by
    split <;> rfl
  refine Spec.bind (hk.sendCommand hr hplain) (fun ret => ?_) (fun e v h => ⟨h.1, h.2.1, nofun⟩)
  refine Spec.ite (fun _ => Spec.give fun v h => ⟨h.1, h.2.1, nofun⟩) (fun _ => ?_)
  exact Spec.pre (getcwd_ends hk hr).stays fun v h => ⟨h.1, h.2.1⟩

theorem syst_stays (hk : Kept ok env I) (hr : KeepsAndEnds ok I reconnect) :
    KeepsAndStays ok I (syst env reconnect) := by
  refine Spec.bind (hk.sendCommand hr rfl) (fun ret => ?_) (fun e v h => ⟨h.1, h.2.1, nofun⟩)
  refine Spec.ite (fun _ => Spec.give fun v h => ⟨h.1, h.2.1, nofun⟩)
    (fun _ => Spec.look_any fun name => ?_)
  cases name with
  | none => exact Spec.give fun v h => ⟨h.1, h.2.1, nofun⟩
  | some name =>
    refine Spec.ite (fun _ => ?_) (fun _ => Spec.give fun v h => ⟨h.1, h.2.1, fun _ => h.2.2⟩)
    exact Spec.seen id (fun _ => rfl) (fun _ => id) fun _ _ h => ⟨h.1, h.2.1, fun _ => h.2.2⟩

theorem stillConnected_ends : KeepsAndEnds ok I stillConnected := by
  refine Spec.look_bind (fun v => v.datafd.isSome) fun a => ?_
  cases a with
  | true =>
    exact Spec.give fun v ⟨⟨hi, htog⟩, hopen⟩ => ⟨hi, htog, Option.isSome_iff_ne_none.mp hopen⟩
  | false => exact Spec.give fun v ⟨⟨hi, htog⟩, hnone⟩ => ⟨hi, htog, by simpa [Ends] using hnone⟩

/-- The directory is asked for, and the connection looked at. -/
theorem askDirectory_ends (hk : Kept ok env I) (hr : KeepsAndEnds ok I reconnect) :
    KeepsAndEnds ok I (do getcwd o env reconnect; stillConnected) :=
  Spec.bind (getcwd_ends hk hr) (fun _ => Spec.pre stillConnected_ends fun _ h => ⟨h.1, h.2.1⟩)
    (fun _ _ => id)

theorem enterDirectory_ends (hk : Kept ok env I) (hr : KeepsAndEnds ok I reconnect) :
    KeepsAndEnds ok I (enterDirectory o env reconnect) := by
  refine Spec.look_any fun directory => ?_
  refine Spec.ite (fun _ => ?_) (fun _ => askDirectory_ends hk hr)
  refine Spec.handle (chdir_stays hk hr directory) fun r => ?_
  refine Spec.look_bind (fun v => v.datafd.isNone) fun a => ?_
  cases a with
  | true =>
    refine Spec.give ?_
    rintro v ⟨⟨hi, htog, hstays⟩, hnone⟩
    have hclosed : v.datafd = none := by simpa using hnone
    cases r with
    | ok a => exact absurd hclosed (hstays rfl)
    | error e => exact ⟨hi, htog, hclosed⟩
  | false =>
    cases r with
    | ok a => exact Spec.pre stillConnected_ends fun v h => ⟨h.1.1, h.1.2.1⟩
    | error e => exact Spec.pre (askDirectory_ends hk hr) fun v h => ⟨h.1.1, h.1.2.1⟩

end Commands

/-- Each step of a login keeps I, but for the type that is set at its end. Between the
connection and the banner B holds. -/
structure KeptByLogin (ok : List Event → Event → Prop) (env : Environment) (I B : View → Prop) :
    Prop extends Kept ok env I where
  attempted : ∀ v, Throughout ok (v.note .attempted).history → I v → I (v.note .attempted)
  opened : ∀ v k, Throughout ok (v.opened k).history → I v → Together v → v.datafd = none →
    B (v.opened k)
  greeting : Spec ok B (greeting env) (fun _ => I)

section Login

variable {ok : List Event → Event → Prop} {I B J : View → Prop} {env : Environment}
  {o : Options} {reconnect : Ftp Unit}

/-- What the banner and the end of the connection keep is kept when the banner is read. -/
theorem greeting_keeps (hread : Spec ok B (readResponse env .banner true) (fun _ => I))
    (hhangUp : Spec ok I (disconnect env) (fun _ => I)) :
    Spec ok B (greeting env) (fun _ => I) := by
  refine Spec.handle hread fun r => ?_
  cases r with
  | ok ret =>
    refine Spec.ite (fun _ => ?_) (fun _ => Spec.give fun _ => id)
    exact Spec.bind hhangUp (fun _ => Spec.give fun _ => id) (fun _ _ => id)
  | error e => exact Spec.bind hhangUp (fun _ => Spec.give fun _ => id) (fun _ _ => id)

theorem greeting_ends (hk : KeptByLogin ok env I B) :
    Spec ok (fun v => B v ∧ Together v) (greeting env)
      (fun r v => I v ∧ Together v ∧ Ends r v) := by
  have hclosed : ∀ {P : View → Prop} (e : GftpError), Spec ok P (do disconnect env; fail e)
      (fun (r : Except GftpError Unit) v => Together v ∧ Ends r v) := by
    intro P e
    refine Spec.bind (R := fun r v => r = .ok () ∧ Together v ∧ v.datafd = none)
      (disconnect_spec (fun v _ hnone => ⟨rfl, fun _ => rfl, hnone⟩)
        (fun _ _ _ _ _ => ⟨rfl, fun _ => rfl, rfl⟩)) (fun _ => Spec.give fun v h => h.2) (by simp)
  have hends : Spec ok Together (greeting env) (fun r v => Together v ∧ Ends r v) := by
    refine Spec.handle (R := fun r v => Together v ∧ Ends r v)
      (readResponse_spec ?_ ?_ ?_ ?_) fun r => ?_
    · exact fun v htog hnone => ⟨htog, hnone⟩
    · exact fun _ _ _ _ _ => ⟨fun _ => rfl, rfl⟩
    · exact fun _ _ _ _ _ _ _ _ => ⟨fun _ => rfl, rfl⟩
    · intro v text _ hc _ hopen
      rw [charRet_ok (of_decide_eq_true (hk.readable _ _ hc.1))]
      exact ⟨fun hnone => absurd hnone hopen, hopen⟩
    · cases r with
      | ok ret => exact Spec.ite (fun _ => hclosed _) (fun _ => Spec.give fun _ => id)
      | error e => exact hclosed e
  exact hk.greeting.and hends

theorem connectServer_ends (hk : KeptByLogin ok env I B) :
    Spec ok (fun v => (I v ∧ Together v) ∧ v.datafd = none) (connectServer env)
      (fun r v => match r with
        | .ok _ => B v ∧ Together v
        | .error _ => I v ∧ Together v ∧ v.datafd = none) := by
  refine Spec.seen_bind (fun v => v.note .attempted)
    (R := fun v => (I v ∧ Together v) ∧ v.datafd = none) (fun _ => rfl) (fun _ h => h.2)
    (fun v hc ⟨⟨hi, htog⟩, hnone⟩ => ⟨⟨hk.attempted v hc hi, htog⟩, hnone⟩) ?_
  refine Spec.meet_bind fun out => ?_
  cases out with
  | error e => exact Spec.give fun v ⟨⟨hi, htog⟩, hnone⟩ => ⟨hi, htog, hnone⟩
  | ok _ =>
    intro s r s' h hc
    obtain ⟨hr, rfl⟩ := Prod.mk.inj h
    obtain rfl := Option.some.inj hr
    refine ⟨hc.2, fun ⟨⟨hi, htog⟩, hnone⟩ => ?_⟩
    refine ⟨hk.opened (view s) s.connections hc hi htog hnone, ?_⟩
    intro h
    cases h

theorem protect_ends (hk : Kept ok env I) (hr : KeepsAndEnds ok I reconnect) :
    KeepsAndEnds ok I (protect env reconnect) := by
  refine Spec.bind (hk.sendCommand hr rfl) (fun _ => ?_) (fun _ _ => id)
  refine Spec.bind (Spec.pre (hk.sendCommand hr rfl) fun v h => ⟨h.1, h.2.1⟩) (fun ret => ?_)
    (fun _ _ => id)
  refine Spec.ite (fun _ => Spec.give fun _ => id) (fun _ => ?_)
  refine Spec.bind (Spec.pre (hk.sendCommand hr rfl) fun v h => ⟨h.1, h.2.1⟩) (fun ret => ?_)
    (fun _ _ => id)
  exact Spec.ite (fun _ => hk.hangUp_fail fun v h => h.1) (fun _ => Spec.give fun _ => id)

theorem authTlsStart_stays (hk : Kept ok env I) (hr : KeepsAndEnds ok I reconnect) :
    KeepsAndStays ok I (authTlsStart env reconnect) := by
  refine Spec.bind (hk.sendCommand hr rfl) (fun ret => ?_) (fun e v h => ⟨h.1, h.2.1, nofun⟩)
  refine Spec.ite (fun _ => Spec.give fun v h => ⟨h.1, h.2.1, nofun⟩) (fun _ => ?_)
  refine Spec.meet_bind fun out => ?_
  cases out with
  | error e => exact Spec.give fun v h => ⟨h.1, h.2.1, nofun⟩
  | ok _ => exact Spec.pre (protect_ends hk hr).stays fun v h => ⟨h.1, h.2.1⟩

theorem startTls_ends (hk : Kept ok env I) (hr : KeepsAndEnds ok I reconnect) :
    Spec ok (fun v => I v ∧ Together v ∧ v.datafd ≠ none) (startTls o env reconnect)
      (fun r v => I v ∧ Together v ∧ Ends r v) := by
  refine Spec.ite (fun _ => ?_) (fun _ => Spec.give fun _ => id)
  refine Spec.handle (Spec.pre (authTlsStart_stays hk hr) fun v h => ⟨h.1, h.2.1⟩) fun r => ?_
  cases r with
  | ok _ => exact Spec.give fun v h => ⟨h.1, h.2.1, h.2.2 rfl⟩
  | error e => exact hk.hangUp_fail fun v h => h.1

theorem proxyLogin_ends (hk : Kept ok env I) (hr : KeepsAndEnds ok I reconnect)
    (lines : List Bytes) (resp : UInt8) :
    Spec ok (fun v => I v ∧ Together v ∧ v.datafd ≠ none) (proxyLogin env reconnect resp lines)
      (fun r v => I v ∧ Together v ∧ Ends r v) := by
  induction lines generalizing resp with
  | nil => exact Spec.give fun _ => id
  | cons line lines ih =>
    refine Spec.ite (fun _ => ?_) (fun _ => Spec.give fun _ => id)
    refine Spec.bind (Spec.pre (hk.sendCommand hr rfl) fun v h => ⟨h.1, h.2.1⟩) (fun resp => ?_)
      (fun _ _ => id)
    exact ih resp

theorem sendAccount_ends (hk : Kept ok env I) (hr : KeepsAndEnds ok I reconnect) (resp : UInt8) :
    Spec ok (fun v => I v ∧ Together v ∧ v.datafd ≠ none) (sendAccount o env reconnect resp)
      (fun r v => I v ∧ Together v ∧ Ends r v) := by
  unfold sendAccount
  cases o.account with
  | none => exact Spec.give fun _ => id
  | some account =>
    refine Spec.ite (fun _ => ?_) (fun _ => Spec.give fun _ => id)
    exact Spec.pre (hk.sendCommand hr rfl) fun v h => ⟨h.1, h.2.1⟩

theorem hostLogin_ends (hk : Kept ok env I) (hr : KeepsAndEnds ok I reconnect) :
    KeepsAndEnds ok I (hostLogin o env reconnect) := by
  refine Spec.bind (hk.sendCommand hr rfl) (fun resp => ?_) (fun _ _ => id)
  refine Spec.ite (fun _ => ?_) (fun _ => Spec.give fun _ => id)
  refine Spec.bind (Spec.pre (hk.sendCommand hr rfl) fun v h => ⟨h.1, h.2.1⟩) (fun resp => ?_)
    (fun _ _ => id)
  exact sendAccount_ends hk hr resp

theorem login_ends (hk : Kept ok env I) (hr : KeepsAndEnds ok I reconnect) :
    Spec ok (fun v => I v ∧ Together v ∧ v.datafd ≠ none) (login o env reconnect)
      (fun r v => I v ∧ Together v ∧ Ends r v) := by
  unfold login
  cases o.proxyText with
  | some text => exact proxyLogin_ends hk hr (proxyLines text) 51
  | none => exact Spec.pre (hostLogin_ends hk hr) fun v h => ⟨h.1, h.2.1⟩

/-- What the type that is set at the end of a login establishes. -/
theorem afterLogin_ends (hk : Kept ok env I) (hr : KeepsAndEnds ok I reconnect)
    (hset : Spec ok (fun v => I v ∧ Together v) (setOptionType o env reconnect)
      (fun r v => J v ∧ Together v ∧ Ends r v)) (hclosed : ∀ v, I v → v.datafd = none → J v) :
    Spec ok (fun v => I v ∧ Together v) (afterLogin o env reconnect)
      (fun r v => J v ∧ Together v ∧ Ends r v) := by
  refine Spec.handle (syst_stays hk hr) fun r => ?_
  cases r with
  | ok _ => exact Spec.pre hset fun v h => ⟨h.1, h.2.1⟩
  | error e =>
    refine Spec.look_bind (fun v => v.datafd.isNone) fun a => ?_
    cases a with
    | true =>
      refine Spec.give ?_
      rintro v ⟨⟨hi, htog, -⟩, hnone⟩
      have hno : v.datafd = none := by simpa using hnone
      exact ⟨hclosed v hi hno, htog, hno⟩
    | false => exact Spec.pre hset fun v h => ⟨h.1.1, h.1.2.1⟩

/-- J is what a login establishes, and what holds of a client that is connected already. -/
theorem rfc959Connect_ends (hk : KeptByLogin ok env I B) (hr : KeepsAndEnds ok I reconnect)
    (hset : Spec ok (fun v => I v ∧ Together v) (setOptionType o env reconnect)
      (fun r v => J v ∧ Together v ∧ Ends r v)) (hclosed : ∀ v, I v → v.datafd = none → J v) :
    Spec ok (fun v => (v.datafd = none → I v) ∧ (v.datafd ≠ none → J v) ∧ Together v)
      (rfc959Connect o env reconnect) (fun r v => J v ∧ Together v ∧ Ends r v) := by
  have herr : ∀ (e : GftpError) v, I v ∧ Together v ∧ Ends (α := Unit) (.error e) v →
      J v ∧ Together v ∧ Ends (α := Unit) (.error e) v :=
    fun e v ⟨hi, htog, hnone⟩ => ⟨hclosed v hi hnone, htog, hnone⟩
  refine Spec.look_bind (fun v => v.datafd.isSome) fun a => ?_
  cases a with
  | true =>
    refine Spec.give ?_
    rintro v ⟨⟨-, hj, htog⟩, hsome⟩
    have hopen := Option.isSome_iff_ne_none.mp hsome
    exact ⟨hj hopen, htog, hopen⟩
  | false =>
    refine Spec.bind (Spec.pre (connectServer_ends hk) ?_) (fun _ => ?_) (fun e v h => herr e v h)
    · rintro v ⟨⟨hi, -, htog⟩, hnone⟩
      have hno : v.datafd = none := by simpa using hnone
      exact ⟨⟨hi hno, htog⟩, hno⟩
    refine Spec.bind (greeting_ends hk) (fun _ => ?_) herr
    refine Spec.bind (Spec.pre (startTls_ends hk.toKept hr) fun v h => h) (fun _ => ?_) herr
    refine Spec.bind (Spec.pre (login_ends hk.toKept hr) fun v h => h) (fun resp => ?_) herr
    refine Spec.ite (fun _ => ?_) (fun _ => ?_)
    · exact hk.hangUp_then (fun v h => h.1) fun v hi htog hnone => herr _ v ⟨hi, htog, hnone⟩
    · exact Spec.pre (afterLogin_ends hk.toKept hr hset hclosed) fun v h => ⟨h.1, h.2.1⟩

/-- What TYPE and the flag for it keep too is kept behind a login. -/
theorem setOptionType_ends (hk : Kept ok env I) (hr : KeepsAndEnds ok I reconnect)
    (htype : ∀ isAscii m, Spec ok I (exchange env (.type isAscii) m) (fun _ => I))
    (hascii : ∀ v isAscii, I v → I { v with isAsciiTransfer := isAscii }) :
    KeepsAndEnds ok I (setOptionType o env reconnect) := by
  refine Spec.seen_bind (fun v => { v with isAsciiTransfer := o.asciiTransfers })
    (R := fun v => I v ∧ Together v) (fun _ => rfl) (fun _ => id)
    (fun v _ ⟨hi, htog⟩ => ⟨hascii v _ hi, htog⟩) ?_
  refine Spec.bind (sendCommand_ends (.of_exchange hk.readable (htype _ _))
    (.of_exchange hk.readable (htype _ _)) hr) (fun _ => ?_) (fun _ _ => id)
  exact Spec.pre (enterDirectory_ends hk hr) fun v h => ⟨h.1, h.2.1⟩

theorem gftpConnect_ends (hk : KeptByLogin ok env I B)
    (htype : ∀ isAscii m, Spec ok I (exchange env (.type isAscii) m) (fun _ => I))
    (hascii : ∀ v isAscii, I v → I { v with isAsciiTransfer := isAscii }) (fuel : ℕ) :
    KeepsAndEnds ok I (gftpConnect o env fuel) := by
  induction fuel with
  | zero => exact Triple.pending
  | succ fuel ih =>
    exact Spec.pre (rfc959Connect_ends hk ih (setOptionType_ends hk.toKept ih htype hascii)
      fun _ hi _ => hi) fun v h => ⟨fun _ => h.1, fun _ => h.1, h.2⟩

end Login

end Gftp.FtpRules
