import Gftp.FtpRules
import Gftp.FtpTransfers
import Gftp.Runs

/-!
The commands on a control connection against the replies that the server owes for them. A
command for a transfer is owed two replies, and rfc959_abort_transfer reads one where the
transfer and the ABOR are owed one each. With an abort only where nothing is owed, every
reply is read for the command that it answers.
-/

namespace Gftp.ReplyAlignment

open ByteStrings Calls Call FtpClient FtpRules FtpTransfers Protocol Runs

/-- A reply that is owed: the banner, the first reply to the n-th command, and the second
reply to a command for a transfer. -/
inductive Owed
  | banner
  | own (n : ℕ) (c : Command)
  | final (n : ℕ)
  deriving DecidableEq

def isSent : Event → Bool
  | .sent .. => true
  | _ => false

/-- The number of commands sent. -/
def sends (l : List Event) : ℕ := l.countP isSent

/-- The server has given the reply that it owed first. A preliminary one is followed by
another. -/
def answered (text : Bytes) : List Owed → List Owed
  | [] => []
  | .banner :: q => if text.headD 0 = 49 then .banner :: q else q
  | .own n c :: q => if startsTransfer c && text.headD 0 = 49 then .final n :: q else q
  | .final _ :: q => q

/-- The replies owed that have not been read, the first one first. When a connection is closed
those that are in datafd_rbuf are still read. -/
def owed : List Event → List Owed
  | [] => []
  | .opened :: l => owed l ++ [.banner]
  | .sent c _ _ _ _ :: l => owed l ++ [.own (sends l) c]
  | .banner (.line text) :: l => answered text (owed l)
  | .reply _ _ (.line text) :: l => answered text (owed l)
  | .final (.line text) :: l => answered text (owed l)
  | .closed n :: l => (owed l).take n
  | _ :: l => owed l

/-- What a server gives that follows RFC 959. With an ABOR behind it a transfer ends with 426 or
226. -/
def conforms (text : Bytes) : List Owed → Bool
  | [] => false
  | .banner :: _ => 49 ≤ text.headD 0 && text.headD 0 ≤ 53
  | .own _ .abor :: _ => text.headD 0 = 50
  | .own _ c :: _ =>
      (if startsTransfer c then 49 ≤ text.headD 0 else 50 ≤ text.headD 0) && text.headD 0 ≤ 53
  | .final _ :: .own _ .abor :: _ => text.take 3 = ascii "426" || text.take 3 = ascii "226"
  | .final _ :: _ => 50 ≤ text.headD 0 && text.headD 0 ≤ 53

def follows (l : List Event) : Event → Prop
  | .banner (.line text) => conforms text (owed l) = true
  | .reply _ _ (.line text) => conforms text (owed l) = true
  | .final (.line text) => conforms text (owed l) = true
  | _ => True

/-- A connection is closed with no unread reply in datafd_rbuf. -/
def leavesNothing (l : List Event) : Event → Prop
  | .closed n => (owed l).take n = []
  | _ => True

/-- The reply read for a command is the one that the server owes for it. -/
def ownReply (l : List Event) : Event → Prop
  | .reply c _ (.line _) => (owed l).head? = some (.own (sends l - 1) c)
  | _ => True

instance {l : List Event} {e : Event} : Decidable (follows l e) := by
  unfold follows
  split <;> infer_instance

instance {l : List Event} {e : Event} : Decidable (leavesNothing l e) := by
  unfold leavesNothing
  split <;> infer_instance

instance {l : List Event} {e : Event} : Decidable (ownReply l e) := by
  unfold ownReply
  split <;> infer_instance

/-- Every command was matched with its own reply. -/
def AllMatched : List Event → Prop := Throughout ownReply

instance {l : List Event} : Decidable (AllMatched l) := inferInstanceAs (Decidable (Throughout _ _))

/-- An operation that sends a command is called only when no reply is owed to an earlier one. -/
def AlignFit (s : Client) : Operation → Prop
  | .connect => True
  | .disconnect => True
  | .endTransfer => True
  | _ => owed s.history = []

abbrev AlignOk (l : List Event) (e : Event) : Prop := follows l e ∧ leavesNothing l e

section Commands

variable {α : Type} {o : Options} {env : Environment} {reconnect : Ftp Unit} {c : Command}
  {m : Bool} {P : View → Prop} {e : GftpError}

abbrev AlignSpec (P : View → Prop) (x : Ftp α) (Q : Except GftpError α → View → Prop) : Prop :=
  Spec AlignOk P x Q

theorem ascii_of_le {b : UInt8} (h : b ≤ 53) : b < 128 := UInt8.lt_of_le_of_lt h (by decide)

theorem ascii_of_take {text front : Bytes} (h : text.take 3 = front) (hfront : front.headD 0 ≤ 53)
    (hne : front ≠ []) : text.headD 0 < 128 := by
  cases text with
  | nil => exact absurd h.symm hne
  | cons b text =>
    rw [← h] at hfront
    exact ascii_of_le hfront

theorem conforms_ascii {text : Bytes} {q : List Owed} (h : conforms text q = true) :
    text.headD 0 < 128 := by
  unfold conforms at h
  split at h
  · cases h
  · exact ascii_of_le (of_decide_eq_true (Bool.and_eq_true_iff.mp h).2)
  · rw [of_decide_eq_true h]
    decide
  · exact ascii_of_le (of_decide_eq_true (Bool.and_eq_true_iff.mp h).2)
  · rcases (Bool.or_eq_true_iff.mp h) with h426 | h226
    · exact ascii_of_take (of_decide_eq_true h426) (by decide) (by decide)
    · exact ascii_of_take (of_decide_eq_true h226) (by decide) (by decide)
  · exact ascii_of_le (of_decide_eq_true (Bool.and_eq_true_iff.mp h).2)

theorem alignOk_readable (l : List Event) (e : Event) (h : AlignOk l e) : readable e = true := by
  have hfollows := h.1
  unfold follows at hfollows
  unfold readable
  split
  · exact decide_eq_true (conforms_ascii hfollows)
  · exact decide_eq_true (conforms_ascii hfollows)
  · rfl

/-- Every command has been matched, and nothing is owed. -/
structure Quiet (v : View) : Prop where
  matched : AllMatched v.history
  paid : owed v.history = []

/-- Every command has been matched, and only a connected client is owed replies. -/
structure Aligned (v : View) : Prop where
  matched : AllMatched v.history
  closed : v.datafd = none → owed v.history = []

theorem Quiet.aligned {v : View} (h : Quiet v) : Aligned v := ⟨h.matched, fun _ => h.paid⟩

theorem Quiet.hungUp {v : View} {n : ℕ} (h : AllMatched v.history)
    (hc : Throughout AlignOk (v.hungUp n).history) : Quiet (v.hungUp n) :=
  ⟨⟨trivial, h⟩, hc.1.2⟩

/-- c is the last command sent, and only its reply is owed. -/
structure Asked (c : Command) (v : View) : Prop where
  matched : AllMatched v.history
  owes : owed v.history = [.own (sends v.history - 1) c]
  connected : v.datafd ≠ none

/-- The reply to c has been read. Only a preliminary one to a command for a transfer leaves
another owed. -/
structure Replied (c : Command) (r : Except GftpError UInt8) (v : View) : Prop where
  matched : AllMatched v.history
  paid : owed v.history = [] ∨ r = .ok 49 ∧ startsTransfer c = true
  ends : Ends r v

theorem writeCommand_asked :
    AlignSpec Quiet (writeCommand env c m) (fun r v => match r with
      | .ok _ => Asked c v
      | .error _ => Quiet v ∧ v.datafd = none) := by
  refine writeCommand_spec ?_ ?_ ?_
  · exact fun v hquiet hnone => ⟨hquiet, hnone⟩
  · exact fun v n hc hquiet _ => ⟨.hungUp hquiet.matched hc, rfl⟩
  · intro v _ hquiet hopen
    have hnumber : sends (v.sent c m).history = sends v.history + 1 := List.countP_cons_of_pos rfl
    refine ⟨⟨trivial, hquiet.matched⟩, ?_, hopen⟩
    rw [hnumber]
    show owed v.history ++ [.own (sends v.history) c] = _
    rw [hquiet.paid]
    rfl

theorem readResponse_replied {disconnectOn42x : Bool} :
    AlignSpec (Asked c) (readResponse env (.reply c m) disconnectOn42x) (Replied c) := by
  have hmatched : ∀ {v : View} (a : Answer), Asked c v →
      AllMatched (v.note (.reply c m a)).history := by
    intro v a hasked
    refine ⟨?_, hasked.matched⟩
    cases a with
    | failed => trivial
    | line text => exact congrArg List.head? hasked.owes
  refine readResponse_spec ?_ ?_ ?_ ?_
  · exact fun v hasked hnone => absurd hnone hasked.connected
  · exact fun v n hc hasked _ => ⟨⟨trivial, hmatched _ hasked⟩, .inl hc.1.2, rfl⟩
  · exact fun v text n _ _ hc hasked _ => ⟨⟨trivial, hmatched _ hasked⟩, .inl hc.1.2, rfl⟩
  · intro v text _ hc hasked hopen
    rw [charRet_ok (of_decide_eq_true (alignOk_readable _ _ hc.1))]
    refine ⟨hmatched _ hasked, ?_, hopen⟩
    show answered text (owed v.history) = [] ∨ _
    rw [hasked.owes, answered]
    split
    · rename_i hpreliminary
      obtain ⟨hstarts, hhead⟩ := Bool.and_eq_true_iff.mp hpreliminary
      exact .inr ⟨congrArg Except.ok (of_decide_eq_true hhead), hstarts⟩
    · exact .inl rfl

theorem exchange_replied : AlignSpec Quiet (exchange env c m) (Replied c) :=
  Spec.bind writeCommand_asked (fun _ => readResponse_replied)
    fun _ _ ⟨hquiet, hnone⟩ => ⟨hquiet.matched, .inl hquiet.paid, hnone⟩

theorem Replied.quiet {r : Except GftpError UInt8} {v : View} (h : Replied c r v)
    (hr : r ≠ .ok 49 ∨ startsTransfer c = false) : Quiet v := by
  refine ⟨h.matched, h.paid.resolve_right ?_⟩
  rintro ⟨hpreliminary, hstarts⟩
  rcases hr with hne | hno
  · exact hne hpreliminary
  · rw [hstarts] at hno
    cases hno

theorem Replied.aligned {r : Except GftpError UInt8} {v : View} (h : Replied c r v) :
    Aligned v := by
  refine ⟨h.matched, fun hnone => (h.quiet (.inl ?_)).paid⟩
  rintro rfl
  exact h.ends hnone

theorem exchange_quiet (hc : startsTransfer c = false) :
    AlignSpec Quiet (exchange env c m) (fun _ => Quiet) :=
  Spec.post exchange_replied fun _ _ h => h.quiet (.inr hc)

theorem sendCommand_replied (hr : KeepsAndEnds AlignOk Quiet reconnect) :
    AlignSpec (fun v => Quiet v ∧ Together v) (sendCommand env reconnect c m)
      (fun r v => Replied c r v ∧ Together v) := by
  have hexchange : ∀ m, AlignSpec (fun v => Quiet v ∧ Together v) (exchange env c m)
      (fun r v => Replied c r v ∧ Together v) := fun m =>
    Spec.post (exchange_replied.and (exchange_ends alignOk_readable)) fun _ _ h => ⟨h.1, h.2.1⟩
  refine Spec.handle (hexchange m) fun r => ?_
  split
  · split
    · refine Spec.bind (Spec.pre hr fun v h => ⟨h.1.quiet (.inl nofun), h.2⟩) (fun _ => ?_) ?_
      · exact Spec.pre (hexchange false) fun v h => ⟨h.1, h.2.1⟩
      · exact fun _ v ⟨hquiet, htog, hnone⟩ => ⟨⟨hquiet.matched, .inl hquiet.paid, hnone⟩, htog⟩
    · exact Spec.give fun _ => id
  · exact Spec.give fun _ => id

theorem sendCommand_quiet (hr : KeepsAndEnds AlignOk Quiet reconnect)
    (hc : startsTransfer c = false) : KeepsAndEnds AlignOk Quiet (sendCommand env reconnect c m) :=
  Spec.post (sendCommand_replied hr) fun _ _ h => ⟨h.1.quiet (.inr hc), h.2, h.1.ends⟩

theorem disconnect_quiet (hP : ∀ v, P v → Aligned v) :
    AlignSpec P (disconnect env) (fun r v => r = .ok () ∧ Quiet v ∧ Together v ∧ v.datafd = none) :=
  disconnect_spec
    (fun v hp hnone => ⟨rfl, ⟨(hP v hp).matched, (hP v hp).closed hnone⟩, fun _ => rfl, hnone⟩)
    (fun v _ hc hp _ => ⟨rfl, .hungUp (hP v hp).matched hc, fun _ => rfl, rfl⟩)

theorem hangUp_fail (hP : ∀ v, P v → Aligned v) :
    AlignSpec P (do disconnect env; fail e) (fun (r : Except GftpError α) v =>
      Quiet v ∧ Together v ∧ Ends r v) :=
  Spec.bind (disconnect_quiet hP) (fun _ => Spec.give fun _ h => h.2) (by simp)

/-- On a new connection only the banner is owed. -/
structure Welcomed (v : View) : Prop where
  matched : AllMatched v.history
  owes : owed v.history = [.banner]
  connected : v.datafd ≠ none

theorem greeting_quiet : AlignSpec Welcomed (greeting env) (fun _ => Quiet) := by
  refine Spec.handle (R := fun r v => AllMatched v.history ∧
      (r ≠ .ok 49 ∨ v.datafd = none → owed v.history = [])) (readResponse_spec ?_ ?_ ?_ ?_) fun r => ?_
  · exact fun v h hnone => absurd hnone h.connected
  · exact fun v n hc h _ => ⟨⟨trivial, trivial, h.matched⟩, fun _ => hc.1.2⟩
  · exact fun v text n _ _ hc h _ => ⟨⟨trivial, trivial, h.matched⟩, fun _ => hc.1.2⟩
  · intro v text _ hc h hopen
    rw [charRet_ok (of_decide_eq_true (alignOk_readable _ _ hc.1))]
    refine ⟨⟨trivial, h.matched⟩, fun hr => ?_⟩
    have hlast := hr.resolve_right hopen
    show answered text (owed v.history) = []
    rw [h.owes]
    exact if_neg fun hhead => hlast (congrArg Except.ok hhead)
  · cases r with
    | ok ret =>
      refine Spec.ite (fun _ => ?_) (fun haccepted => Spec.give fun v h => ?_)
      · exact Spec.post (hangUp_fail fun v h => ⟨h.1, fun hnone => h.2 (.inr hnone)⟩) fun _ _ h => h.1
      · obtain rfl := Decidable.not_not.mp haccepted
        exact ⟨h.1, h.2 (.inl (by decide))⟩
    | error e =>
      exact Spec.post (hangUp_fail fun v h => ⟨h.1, fun hnone => h.2 (.inr hnone)⟩) fun _ _ h => h.1

theorem keptByLogin : KeptByLogin AlignOk env Quiet Welcomed where
  readable := alignOk_readable
  commands _ _ hc := exchange_quiet (plain_startsTransfer hc)
  hangUp := Spec.post (disconnect_quiet fun _ h => h.aligned) fun _ _ h => h.2.1
  attempted _ _ h := ⟨⟨trivial, h.matched⟩, h.paid⟩
  opened v k _ h _ _ := by
    refine ⟨⟨trivial, h.matched⟩, ?_, nofun⟩
    show owed v.history ++ [.banner] = [.banner]
    rw [h.paid]
    rfl
  greeting := greeting_quiet

theorem gftpConnect_quiet (fuel : ℕ) : KeepsAndEnds AlignOk Quiet (gftpConnect o env fuel) :=
  gftpConnect_ends keptByLogin (fun _ _ => exchange_quiet rfl) (fun _ _ h => ⟨h.matched, h.paid⟩) fuel

end Commands

section Operations

variable {α β : Type} {o : Options} {env : Environment} {reconnect : Ftp Unit} {c : Command}
  {I : View → Prop} {P : View → Prop} {e : GftpError} {filename : Bytes} {startsize : ℕ}

/-- Nothing is owed to a client that is connected, and nothing is afterwards. -/
def Steady (x : Ftp α) : Prop :=
  Spec AlignOk (fun v => Quiet v ∧ Together v ∧ v.datafd ≠ none) x
    (fun r v => Quiet v ∧ Together v ∧ (r.isOk → v.datafd ≠ none))

theorem Steady.of_stays {x : Ftp α} (h : KeepsAndStays AlignOk Quiet x) : Steady x :=
  Spec.pre h fun _ hv => ⟨hv.1, hv.2.1⟩

theorem Steady.pure {a : α} : Steady (pure a) := Spec.give fun _ ⟨hquiet, htog, hopen⟩ =>
  ⟨hquiet, htog, fun _ => hopen⟩

theorem Steady.fail : Steady (fail e : Ftp α) := Spec.give fun _ ⟨hquiet, htog, _⟩ =>
  ⟨hquiet, htog, nofun⟩

theorem Steady.bind {x : Ftp α} {f : α → Ftp β} (hx : Steady x) (hf : ∀ a, Steady (f a)) :
    Steady (x >>= f) :=
  Spec.bind hx (fun a => Spec.pre (hf a) fun _ h => ⟨h.1, h.2.1, h.2.2 rfl⟩)
    fun _ _ h => ⟨h.1, h.2.1, nofun⟩

theorem Steady.connected {x : Ftp α} (hx : Steady x) : KeepsAndStays AlignOk Quiet (connected x) :=
  connected_spec (fun _ ⟨hquiet, htog⟩ _ => ⟨hquiet, htog, nofun⟩)
    (Spec.pre hx fun _ ⟨⟨hquiet, htog⟩, hopen⟩ => ⟨hquiet, htog, hopen⟩)

theorem Steady.hangUp : Steady (do FtpClient.disconnect env; Call.fail e : Ftp α) :=
  Spec.weaken (hangUp_fail fun _ h => h) (fun _ h => h.1.aligned) fun r v ⟨hquiet, htog, hends⟩ => by
    cases r with
    | ok a => exact ⟨hquiet, htog, fun _ => hends⟩
    | error e => exact ⟨hquiet, htog, nofun⟩

theorem Steady.change {f : Client → Client} (fv : View → View) (hf : ∀ s, view (f s) = fv (view s))
    (hC : ∀ s, Throughout AlignOk (f s).history → Throughout AlignOk s.history)
    (hquiet : ∀ v, Quiet v → Quiet (fv v)) (hdatafd : ∀ v, (fv v).datafd = v.datafd) :
    Steady (change f) := by
  refine Spec.seen fv hf hC fun v _ ⟨hq, _, hopen⟩ => ?_
  have hstill : (fv v).datafd ≠ none := by
    rw [hdatafd]
    exact hopen
  exact ⟨hquiet v hq, fun hnone => absurd hnone hstill, fun _ => hstill⟩

theorem Steady.ite {p : Prop} [Decidable p] {x y : Ftp α} (hx : Steady x) (hy : Steady y) :
    Steady (if p then x else y) := Spec.ite (fun _ => hx) (fun _ => hy)

theorem Steady.look {f : Client → β} {g : β → Ftp α} (h : ∀ b, Steady (g b)) :
    Steady (look f >>= g) := Spec.look_any h

theorem Steady.meet {f : ℕ → β} {g : β → Ftp α} (h : ∀ b, Steady (g b)) :
    Steady (meet f >>= g) := Spec.meet_bind h

theorem quiet_same {v w : View} (h : w.history = v.history) (hquiet : Quiet v) : Quiet w :=
  ⟨h ▸ hquiet.matched, h ▸ hquiet.paid⟩

theorem closeDataConnection_steady : Steady closeDataConnection :=
  .change (fun v => { v with dataConnection := none }) (fun _ => rfl) (fun _ => id)
    (fun _ => quiet_same rfl) (fun _ => rfl)

theorem must_steady : Steady (must env) :=
  .meet fun _ => .ite .pure .hangUp

theorem musts_steady (n : ℕ) : Steady (musts env n) := by
  induction n with
  | zero => exact Steady.pure
  | succ n ih => exact must_steady.bind fun _ => ih

theorem sendCommand_steady (hr : KeepsAndEnds AlignOk Quiet reconnect)
    (hc : startsTransfer c = false) (m : Bool) : Steady (sendCommand env reconnect c m) :=
  .of_stays (sendCommand_quiet hr hc).stays

theorem negotiated_steady : Steady negotiated :=
  .change (fun v => { v with
      dataConnection := v.dataConnection.map fun d => { d with negotiated := true } })
    (fun _ => rfl) (fun _ => id) (fun _ => quiet_same rfl) (fun _ => rfl)

theorem newSocket_steady : Steady (newSocket env) := by
  refine .meet fun succeeded => .ite (.meet fun closesOnExec => ?_) ?_
  · refine .bind (.change (fun v => { v.note (.socket closesOnExec) with
        dataConnection := some ⟨v.datafd.getD 0, v.operation, false⟩ }) (fun _ => rfl)
      (fun _ h => h.2) (fun v h => ⟨⟨trivial, h.matched⟩, h.paid⟩) (fun _ => rfl)) fun _ => ?_
    exact .ite .pure .fail
  · exact closeDataConnection_steady.bind fun _ => .hangUp

theorem activeConnection_steady (hr : KeepsAndEnds AlignOk Quiet reconnect)
    (hc : startsTransfer c = false) : Steady (activeConnection env reconnect c) := by
  refine (musts_steady 4).bind fun _ => (sendCommand_steady hr hc false).bind fun resp => ?_
  exact .ite .hangUp negotiated_steady

theorem passiveConnection_steady {hasAddress : Bytes → Bool} {refused : Ftp Unit}
    (hr : KeepsAndEnds AlignOk Quiet reconnect) (hc : startsTransfer c = false)
    (hrefused : Steady refused) :
    Steady (passiveConnection env reconnect c hasAddress refused) := by
  refine (sendCommand_steady hr hc false).bind fun resp => .ite ?_ (.look fun found => ?_)
  · exact .bind (.change (fun v => { v with passiveTransfer := false }) (fun _ => rfl)
      (fun _ => id) (fun _ => quiet_same rfl) (fun _ => rfl)) fun _ => hrefused
  · exact .ite (must_steady.bind fun _ => negotiated_steady) .hangUp

theorem familyConnection_steady {check : Ftp Unit} {pasvCommand portCommand : Command}
    {hasAddress : Bytes → Bool} (hr : KeepsAndEnds AlignOk Quiet reconnect) (hcheck : Steady check)
    (hpasv : startsTransfer pasvCommand = false) (hport : startsTransfer portCommand = false) :
    Steady (familyConnection env reconnect check pasvCommand portCommand hasAddress) := by
  have hactive : Steady (activeConnection env reconnect portCommand) :=
    activeConnection_steady hr hport
  have hmake : ∀ {x : Ftp Unit}, Steady x → Steady (do newSocket env; check; x) :=
    fun hx => newSocket_steady.bind fun _ => hcheck.bind fun _ => hx
  refine hmake (.look fun passive => .ite ?_ hactive)
  exact passiveConnection_steady hr hpasv (hmake hactive)

theorem makeDataConnection_stays (hr : KeepsAndEnds AlignOk Quiet reconnect) :
    KeepsAndStays AlignOk Quiet (makeDataConnection o env reconnect) := by
  refine Steady.connected (.ite ?_ ?_)
  · exact familyConnection_steady hr (.meet fun _ => .ite .pure .hangUp) rfl rfl
  · exact familyConnection_steady hr .pure rfl rfl

theorem dataConnectionNew_steady (hr : KeepsAndEnds AlignOk Quiet reconnect) :
    Steady (dataConnectionNew o env reconnect) := by
  have hmake : KeepsAndStays AlignOk Quiet (makeDataConnection o env reconnect) :=
    makeDataConnection_stays hr
  refine Spec.handle (Steady.of_stays hmake) fun r => ?_
  split
  · exact Spec.bind (Spec.pre hr fun v h => ⟨h.1, h.2.1⟩)
      (fun _ => Spec.pre hmake fun v h => ⟨h.1, h.2.1⟩) (fun _ v h => ⟨h.1, h.2.1, nofun⟩)
  · exact Spec.give fun _ => id

theorem setType_steady (hr : KeepsAndEnds AlignOk Quiet reconnect) (newAscii : Bool) :
    Steady (do
      change fun s => { s with isAsciiTransfer := newAscii }
      let _ ← sendCommand env reconnect (.type newAscii) true
      return ()) := by
  refine .bind (.change (fun v => { v with isAsciiTransfer := newAscii }) (fun _ => rfl)
    (fun _ => id) (fun _ => quiet_same rfl) (fun _ => rfl)) fun _ => ?_
  exact (sendCommand_steady hr rfl true).bind fun _ => .pure

theorem setDataType_steady (hr : KeepsAndEnds AlignOk Quiet reconnect) :
    Steady (setDataType o env reconnect filename) :=
  .look fun _ => .ite (setType_steady hr _) .pure

theorem ensureDataConnection_steady (hr : KeepsAndEnds AlignOk Quiet reconnect) :
    Steady (ensureDataConnection o env reconnect) :=
  .look fun _ => .ite (dataConnectionNew_steady hr) .pure

theorem restart_steady (hr : KeepsAndEnds AlignOk Quiet reconnect) :
    Steady (restart env reconnect startsize) := by
  refine .ite ((sendCommand_steady hr rfl true).bind fun ret => .ite ?_ .pure) .pure
  exact closeDataConnection_steady.bind fun _ => .fail

/-- What holds between two operations. -/
def Between (v : View) : Prop := Aligned v ∧ Together v

/-- An operation begins where nothing is owed. -/
def Orderly (x : Ftp α) : Prop :=
  Spec AlignOk (fun v => Quiet v ∧ Together v ∧ v.datafd ≠ none) x (fun _ => Between)

theorem Steady.orderly {x : Ftp α} (h : Steady x) : Orderly x :=
  Spec.post h fun _ _ ⟨hquiet, htog, _⟩ => ⟨hquiet.aligned, htog⟩

theorem Steady.then {x : Ftp α} {f : α → Ftp β} (hx : Steady x) (hf : ∀ a, Orderly (f a)) :
    Orderly (x >>= f) :=
  Spec.bind hx (fun a => Spec.pre (hf a) fun _ h => ⟨h.1, h.2.1, h.2.2 rfl⟩)
    fun _ _ ⟨hquiet, htog, _⟩ => ⟨hquiet.aligned, htog⟩

/-- A function that sends nothing to a client that is not connected. -/
theorem Orderly.connected {x : Ftp α} (hx : Orderly x) :
    AlignSpec (fun v => Quiet v ∧ Together v) (connected x) (fun _ => Between) :=
  connected_spec (fun _ ⟨hquiet, htog⟩ _ => ⟨hquiet.aligned, htog⟩)
    (Spec.pre hx fun _ ⟨⟨hquiet, htog⟩, hopen⟩ => ⟨hquiet, htog, hopen⟩)

/-- Behind a command for a transfer its second reply can be owed. -/
theorem must_between : AlignSpec Between (must env) (fun _ => Between) := by
  refine Spec.meet_bind fun succeeded => Spec.ite (fun _ => Spec.give fun _ => id) fun _ => ?_
  exact Spec.post (hangUp_fail fun v h => h.1) fun _ _ h => ⟨h.1.aligned, h.2.1⟩

theorem musts_between (n : ℕ) : AlignSpec Between (musts env n) (fun _ => Between) := by
  induction n with
  | zero => exact Spec.give fun _ => id
  | succ n ih => exact Spec.bind must_between (fun _ => ih) (fun _ _ => id)

theorem acceptActiveConnection_between :
    AlignSpec Between (acceptActiveConnection env) (fun _ => Between) :=
  Spec.look_any fun _ => Spec.ite (fun _ => Spec.give fun _ => id) fun _ => musts_between 3

theorem sendCommand_between (hr : KeepsAndEnds AlignOk Quiet reconnect) :
    AlignSpec (fun v => Quiet v ∧ Together v ∧ v.datafd ≠ none) (sendCommand env reconnect c true)
      (fun _ => Between) :=
  Spec.weaken (sendCommand_replied hr) (fun _ h => ⟨h.1, h.2.1⟩) fun _ _ h => ⟨h.1.aligned, h.2⟩

theorem closeDataConnection_between : AlignSpec Between closeDataConnection (fun _ => Between) :=
  closeDataConnection_spec fun _ h => ⟨⟨h.1.matched, h.1.closed⟩, fun _ => rfl⟩

theorem startTransfer_orderly (hr : KeepsAndEnds AlignOk Quiet reconnect) :
    Orderly (startTransfer env reconnect c) := by
  refine Spec.bind (sendCommand_between hr) (fun ret => Spec.ite (fun _ => ?_) fun _ =>
    Spec.look_any fun _ => Spec.ite (fun _ => Spec.give fun _ => id) fun _ => ?_) (fun _ _ => id)
  · exact Spec.bind closeDataConnection_between (fun _ => Spec.give fun _ => id) (fun _ _ => id)
  · exact acceptActiveConnection_between

theorem setupFileTransfer_orderly (hr : KeepsAndEnds AlignOk Quiet reconnect) :
    Orderly (setupFileTransfer o env reconnect filename startsize c) :=
  (setDataType_steady hr).then fun _ => (ensureDataConnection_steady hr).then fun _ =>
    must_steady.then fun _ => (restart_steady hr).then fun _ => startTransfer_orderly hr

theorem setDataType_between (hr : KeepsAndEnds AlignOk Quiet reconnect) :
    AlignSpec (fun v => Quiet v ∧ Together v) (setDataType o env reconnect filename)
      (fun _ => Between) := by
  refine Spec.look_bind (fun v => v.datafd.isSome &&
    isAsciiTransfer o filename ≠ v.isAsciiTransfer) fun a => ?_
  cases a with
  | false => exact Spec.give fun v h => ⟨h.1.1.aligned, h.1.2⟩
  | true =>
    refine Spec.pre (setType_steady hr _).orderly fun v ⟨⟨hquiet, htog⟩, hcond⟩ => ?_
    exact ⟨hquiet, htog, Option.isSome_iff_ne_none.mp (Bool.and_eq_true_iff.mp hcond).1⟩

theorem getFile_between (hr : KeepsAndEnds AlignOk Quiet reconnect) :
    AlignSpec (fun v => Quiet v ∧ Together v) (getFile o env reconnect filename startsize)
      (fun _ => Between) :=
  Orderly.connected (setupFileTransfer_orderly hr)

theorem putFile_between (hr : KeepsAndEnds AlignOk Quiet reconnect) :
    AlignSpec (fun v => Quiet v ∧ Together v) (putFile o env reconnect filename startsize)
      (fun _ => Between) :=
  Orderly.connected ((setDataType_steady hr).then fun _ => (ensureDataConnection_steady hr).then
    fun _ => setupFileTransfer_orderly hr)

theorem listFiles_between (hr : KeepsAndEnds AlignOk Quiet reconnect) :
    AlignSpec (fun v => Quiet v ∧ Together v) (listFiles o env reconnect) (fun _ => Between) := by
  refine Orderly.connected ((dataConnectionNew_steady hr).then fun _ => ?_)
  refine Spec.look_any fun command => Spec.look_any fun passive => ?_
  refine Spec.bind (sendCommand_between hr) (fun ret => ?_) (fun _ _ => id)
  refine Spec.ite (fun _ => Spec.give fun _ => id) fun _ => ?_
  exact Spec.ite (fun _ => Spec.give fun _ => id) fun _ => acceptActiveConnection_between

theorem writeCommand_together {m : Bool} :
    AlignSpec Together (writeCommand env c m) (fun _ => Together) :=
  writeCommand_spec (fun _ h _ => h) (fun _ _ _ _ _ _ => rfl) (fun _ _ h _ => h)

theorem readResponse_together {event : Answer → Event} {disconnectOn42x : Bool} :
    AlignSpec Together (readResponse env event disconnectOn42x) (fun _ => Together) :=
  readResponse_spec (fun _ h _ => h) (fun _ _ _ _ _ _ => rfl) (fun _ _ _ _ _ _ _ _ _ => rfl)
    (fun _ _ _ _ h _ => h)

theorem Asked.aligned {v : View} (h : Asked c v) : Aligned v :=
  ⟨h.matched, fun hnone => absurd hnone h.connected⟩

/-- A command whose reply is read when the other side has done its part. -/
theorem writeCommand_orderly {m m' reads : Bool} :
    Orderly (do
      writeCommand env c m
      if reads then
        let _ ← readResponse env (.reply c m') true
        return ()
      else fail e : Ftp Unit) := by
  refine Spec.pre (P := fun v => Quiet v ∧ Together v)
    (Spec.bind (writeCommand_asked.and writeCommand_together)
      (fun _ => Spec.ite (fun _ => ?_) fun _ => ?_) ?_) fun _ h => ⟨h.1, h.2.1⟩
  · refine Spec.bind (readResponse_replied.and readResponse_together) (fun _ => ?_) ?_
    · exact Spec.give fun v h => ⟨h.1.aligned, h.2⟩
    · exact fun _ v h => ⟨h.1.aligned, h.2⟩
  · exact Spec.give fun v h => ⟨h.1.aligned, h.2⟩
  · exact fun _ v h => ⟨h.1.1.aligned, h.2⟩

theorem abortTransfer_between :
    AlignSpec (fun v => Quiet v ∧ Together v) (abortTransfer env) (fun _ => Between) := by
  refine Orderly.connected (Spec.pre (P := fun v => Quiet v ∧ Together v)
    (Spec.bind (writeCommand_asked.and writeCommand_together) (fun _ => ?_) ?_) fun _ h => ⟨h.1, h.2.1⟩)
  · refine Spec.bind (R := fun _ v => Asked .abor v ∧ Together v) (closeDataConnection_spec
      fun v h => ⟨⟨h.1.matched, h.1.owes, h.1.connected⟩, fun _ => rfl⟩) (fun _ => ?_)
      (fun _ v h => ⟨h.1.aligned, h.2⟩)
    refine Spec.look_any fun _ => Spec.ite (fun _ => ?_) fun _ =>
      Spec.give fun v h => ⟨h.1.aligned, h.2⟩
    refine Spec.handle (readResponse_replied.and readResponse_together) fun r => ?_
    cases r with
    | ok _ => exact Spec.give fun v h => ⟨h.1.aligned, h.2⟩
    | error e =>
      exact Spec.post (disconnect_quiet fun v h => h.1.aligned)
        fun _ _ h => ⟨h.2.1.aligned, h.2.2.1⟩
  · exact fun _ v h => ⟨h.1.1.aligned, h.2⟩

theorem transferFrom_between (hr : KeepsAndEnds AlignOk Quiet reconnect) {fromfile : Bytes}
    {other : OtherSide} :
    AlignSpec (fun v => Quiet v ∧ Together v) (transferFrom env reconnect fromfile other)
      (fun _ => Between) := by
  refine Orderly.connected ((sendCommand_steady hr rfl true).then fun ret => ?_)
  refine Spec.ite (fun _ => Steady.fail.orderly) fun _ => Spec.look_any fun found => ?_
  refine Spec.ite (fun _ => Spec.ite (fun _ => ?_) fun _ => Steady.fail.orderly)
    fun _ => Steady.fail.orderly
  exact writeCommand_orderly

theorem transferTo_between (hr : KeepsAndEnds AlignOk Quiet reconnect) {tofile : Bytes}
    {other : OtherSide} :
    AlignSpec (fun v => Quiet v ∧ Together v) (transferTo env reconnect tofile other)
      (fun _ => Between) := by
  refine Orderly.connected (Spec.ite (fun _ => ?_) fun _ => Steady.fail.orderly)
  refine (sendCommand_steady hr rfl true).then fun ret => ?_
  refine Spec.ite (fun _ => Steady.fail.orderly) fun _ => Spec.ite (fun _ => ?_)
    fun _ => Steady.fail.orderly
  exact writeCommand_orderly

/-- Whatever is owed when a transfer is ended, the reply read is matched with no command. -/
theorem endTransfer_between : AlignSpec Between (endTransfer env) (fun _ => Between) := by
  refine connected_spec (fun _ h _ => h) ?_
  refine Spec.bind (Spec.pre closeDataConnection_between fun _ h => h.1) (fun _ => ?_) (fun _ _ => id)
  refine Spec.bind (R := fun _ => Between) (readResponse_spec ?_ ?_ ?_ ?_) (fun ret => ?_)
    (fun _ _ => id)
  · exact fun v h _ => h
  · exact fun v n hc h _ => ⟨⟨⟨trivial, trivial, h.1.matched⟩, fun _ => hc.1.2⟩, fun _ => rfl⟩
  · exact fun v text n _ _ hc h _ =>
      ⟨⟨⟨trivial, trivial, h.1.matched⟩, fun _ => hc.1.2⟩, fun _ => rfl⟩
  · exact fun v text _ _ h hopen =>
      ⟨⟨⟨trivial, h.1.matched⟩, fun hnone => absurd hnone hopen⟩, h.2⟩
  · exact Spec.ite (fun _ => Spec.give fun _ => id) fun _ => Spec.give fun _ => id

theorem connect_between (fuel : ℕ) :
    AlignSpec Between (gftpConnect o env fuel) (fun _ => Between) := by
  cases fuel with
  | zero => exact Triple.pending
  | succ fuel =>
    have hr : KeepsAndEnds AlignOk Quiet (gftpConnect o env fuel) := gftpConnect_quiet fuel
    have hset : AlignSpec (fun v => Quiet v ∧ Together v)
        (setOptionType o env (gftpConnect o env fuel))
        (fun r v => Aligned v ∧ Together v ∧ Ends r v) :=
      Spec.post (setOptionType_ends keptByLogin.toKept hr (fun _ _ => exchange_quiet rfl)
        (fun _ _ h => ⟨h.matched, h.paid⟩)) fun r v h => ⟨h.1.aligned, h.2⟩
    refine Spec.weaken (rfc959Connect_ends keptByLogin hr hset ?_) ?_ ?_
    · exact fun v h _ => h.aligned
    · exact fun v h => ⟨fun hnone => ⟨h.1.matched, h.1.closed hnone⟩, fun _ => h.1, h.2⟩
    · exact fun r v h => ⟨h.1, h.2.1⟩

theorem call_between {s : Client} {op : Operation} (hop : AlignFit s op) (fuel : ℕ) :
    AlignSpec (fun v => Between v ∧ v.history = s.history) (op.call o env fuel)
      (fun _ => Between) := by
  have hr : KeepsAndEnds AlignOk Quiet (gftpConnect o env fuel) := gftpConnect_quiet fuel
  have hquiet : owed s.history = [] → ∀ v, Between v ∧ v.history = s.history →
      Quiet v ∧ Together v := by
    rintro hpaid v ⟨⟨haligned, htog⟩, hsame⟩
    exact ⟨⟨haligned.matched, by rw [hsame, hpaid]⟩, htog⟩
  cases op with
  | connect => exact Spec.pre (connect_between fuel) fun v h => h.1
  | disconnect =>
    exact Spec.weaken (disconnect_quiet fun v h => h.1.1) (fun _ => id)
      fun _ _ h => ⟨h.2.1.aligned, h.2.2.1⟩
  | setDataType filename => exact Spec.pre (setDataType_between hr) (hquiet hop)
  | listFiles => exact Spec.pre (listFiles_between hr) (hquiet hop)
  | getFile filename startsize => exact Spec.pre (getFile_between hr) (hquiet hop)
  | putFile filename startsize => exact Spec.pre (putFile_between hr) (hquiet hop)
  | endTransfer => exact Spec.pre endTransfer_between fun v h => h.1
  | abortTransfer => exact Spec.pre abortTransfer_between (hquiet hop)
  | transferFrom fromfile other => exact Spec.pre (transferFrom_between hr) (hquiet hop)
  | transferTo tofile other => exact Spec.pre (transferTo_between hr) (hquiet hop)
  | command c =>
    refine Spec.pre (Orderly.connected ?_) (hquiet hop)
    exact Spec.bind (sendCommand_between hr) (fun _ => Spec.give fun _ => id) (fun _ _ => id)

end Operations

section Runs

variable {o : Options} {env : Environment}

theorem step_between {s s' : Client} {op : Operation} (hop : AlignFit s op)
    (hstep : OperationStep o env s op s') (hfit : Throughout AlignOk s'.history) :
    Throughout AlignOk s.history ∧ (Between (view s) → Between (view s')) := by
  obtain ⟨fuel, hrun⟩ := hstep
  rename_i r
  obtain ⟨hbefore, hafter⟩ := call_between hop fuel { s with operation := s.operation + 1 } r s' hrun hfit
  exact ⟨hbefore, fun h => hafter ⟨⟨⟨h.1.matched, h.1.closed⟩, h.2⟩, rfl⟩⟩

/-- With a server that follows RFC 959, in a run whose operations begin where nothing is owed
every command is matched with its own reply. -/
theorem commands_matched {passive hidden resolve flag : Bool} {directory : Bytes} {s : Client}
    (hrun : Reaches (OperationStep o env) AlignFit (.start passive hidden resolve flag directory) s)
    (hserver : Throughout follows s.history) (hbuffer : Throughout leavesNothing s.history) :
    AllMatched s.history := by
  have hinv : Throughout AlignOk s.history → Between (view s) := by
    refine hrun.invariant (fun s => Throughout AlignOk s.history → Between (view s)) ?_ ?_
    · exact fun _ => ⟨⟨trivial, fun _ => rfl⟩, fun _ => rfl⟩
    · intro s op s' hs hop hstep hfit'
      obtain ⟨hbefore, hafter⟩ := step_between hop hstep hfit'
      exact hafter (hs hbefore)
  exact (hinv (throughout_and.mpr ⟨hserver, hbuffer⟩)).1.matched

/-- A download that is ended, and a command behind it. -/
theorem command_after_download_matched : ∃ s,
    Reaches (OperationStep (anonymous []) (answering (loginReplies ++ [(13, "227 1,2,3,4,5,6"),
        (17, "150 here"), (18, "226 done"), (20, "257 \"/\" ok")]))) AlignFit
        (.start true false false false []) s ∧ AllMatched s.history := by
  have hrun : Reaches (OperationStep (anonymous []) (answering (loginReplies ++
      [(13, "227 1,2,3,4,5,6"), (17, "150 here"), (18, "226 done"), (20, "257 \"/\" ok")])))
      AlignFit (.start true false false false []) _ :=
    (Reaches.refl _).tail (a := .connect) (by trivial) (.step 1 rfl)
      |>.tail (a := .getFile (ascii "x") 0) (by rfl) (.step 1 rfl)
      |>.tail (a := .endTransfer) (by trivial) (.step 1 rfl)
      |>.tail (a := .command .pwd) (by rfl) (.step 1 rfl)
  exact ⟨_, hrun, commands_matched hrun (by decide) (by decide)⟩

/-- A download is aborted: ABOR is matched with the 426 for the transfer, and PWD with the 226
for ABOR. -/
theorem abort_leaves_reply :
    ¬ ∀ (o : Options) (env : Environment) (passive hidden resolve flag : Bool) (directory : Bytes)
      (s : Client), Reaches (OperationStep o env) (fun _ _ => True)
        (.start passive hidden resolve flag directory) s → Throughout follows s.history →
        AllMatched s.history := by
  intro h
  have hrun : Reaches (OperationStep (anonymous []) (answering (loginReplies ++
      [(13, "227 1,2,3,4,5,6"), (17, "150 here"), (19, "426 aborted"), (21, "226 done")])))
      (fun _ _ => True) (.start true false false false []) _ :=
    (Reaches.refl _).tail (a := .connect) trivial (.step 1 rfl)
      |>.tail (a := .getFile (ascii "x") 0) trivial (.step 1 rfl)
      |>.tail (a := .abortTransfer) trivial (.step 1 rfl)
      |>.tail (a := .command .pwd) trivial (.step 1 rfl)
  exact absurd (h _ _ _ _ _ _ _ _ hrun (by decide)) (by decide)

end Runs

end Gftp.ReplyAlignment
