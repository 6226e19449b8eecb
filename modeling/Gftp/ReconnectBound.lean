import Gftp.FtpRules
import Gftp.FtpTransfers

/-!
The reconnections of rfc959_send_command and the commands of rfc959_connect, which call each
other: a login that meets a reply of the 42 kind begins another one inside. It needs such a
reply each time, so both functions return just when the server gives only so many of them.
-/

namespace Gftp.ReconnectBound

open ByteStrings Calls Call FtpClient FtpRules FtpTransfers Protocol

/-- A reply of the 42 kind to a command that was sent with dont_try_to_reconnect clear. -/
def cut : Event → Bool
  | .reply _ true (.line text) => text.take 2 = ascii "42"
  | _ => false

/-- A call of gftp_connect_server. -/
def attempt : Event → Bool
  | .attempted => true
  | _ => false

section Functions

variable {α : Type} {K : ℕ} {o : Options} {env : Environment} {reconnect reconnect' : Ftp Unit}
  {c : Command} {m : Bool} {x y : Ftp α}

/-- x is what y does with less fuel, and has met at least K replies of the kind when it is
pending. -/
abbrev Meets (K : ℕ) (x y : Ftp α) : Prop := Below Client.history cut K x y

theorem meet_meets {f : ℕ → α} : Meets K (meet f) (meet f) :=
  Below.bind (.look _) fun _ => Below.bind (.change fun _ => List.suffix_refl _) fun _ => .give _

theorem closeDataConnection_meets : Meets K closeDataConnection closeDataConnection :=
  .change fun _ => List.suffix_refl _

theorem disconnect_meets : Meets K (disconnect env) (disconnect env) := by
  refine Below.bind closeDataConnection_meets fun _ => Below.bind (.look _) fun _ => ?_
  refine Below.ite (Below.bind meet_meets fun n => .change fun s => ?_) (.give _)
  exact List.suffix_cons _ _

theorem connected_meets (h : Meets K x y) : Meets K (connected x) (connected y) :=
  Below.bind (.look _) fun _ => Below.ite h (.give _)

theorem readResponse_meets {event : Answer → Event} {disconnectOn42x : Bool} :
    Meets K (readResponse env event disconnectOn42x) (readResponse env event disconnectOn42x) := by
  refine connected_meets (Below.bind meet_meets fun a => ?_)
  refine Below.bind (.change fun s => List.suffix_cons _ _) fun _ => ?_
  cases a with
  | failed => exact Below.bind disconnect_meets fun _ => .give _
  | line text =>
    refine Below.bind (.change fun s => List.suffix_refl _) fun _ => ?_
    exact Below.ite (Below.bind disconnect_meets fun _ => .give _) (.give _)

theorem writeCommand_meets : Meets K (writeCommand env c m) (writeCommand env c m) := by
  refine connected_meets (Below.bind meet_meets fun _ => Below.ite ?_ ?_)
  · exact .change fun s => List.suffix_cons _ _
  · exact Below.bind disconnect_meets fun _ => .give _

theorem exchange_meets : Meets K (exchange env c m) (exchange env c m) :=
  Below.bind writeCommand_meets fun _ => readResponse_meets

/-- A timeout is a reply of the kind, or the client is connected still. -/
theorem exchange_timedOut {s s' : Client}
    (h : exchange env c true s = (some (.error .timedOut), s')) :
    s.history.countP cut + 1 ≤ s'.history.countP cut ∨ s'.datafd ≠ none := by
  have hspec : Spec (fun _ _ => True) (fun v => v.history = s.history) (exchange env c true)
      (fun r v => r = .error .timedOut →
        s.history.countP cut + 1 ≤ v.history.countP cut ∨ v.datafd ≠ none) := by
    refine exchange_spec ?_ ?_ ?_ ?_ ?_
    · exact fun _ _ _ => nofun
    · exact fun _ _ _ _ _ => nofun
    · exact fun _ _ _ _ _ => nofun
    · intro v text n hfront _ hsame _ _
      have hcut : cut (.reply c true (.line text)) = true := decide_eq_true hfront
      refine .inl (le_of_eq ?_)
      rw [← hsame]
      exact (List.countP_cons_of_pos hcut).symm
    · exact fun _ _ _ _ _ hopen _ => .inr hopen
  exact (hspec s _ s' h throughout_true).2 rfl rfl

/-- What a nested connection does with less fuel. When the client is connected it needs
none. -/
structure Nested (K : ℕ) (reconnect reconnect' : Ftp Unit) : Prop where
  meets : Meets (K - 1) reconnect reconnect'
  connected : 0 < K → ∀ s, s.datafd ≠ none → (reconnect s).1 ≠ none

/-- A command waits for a nested connection only behind one more reply of the kind. -/
theorem sendCommand_deep (hn : Nested K reconnect reconnect') {s : Client}
    (h : (sendCommand env reconnect c m s).1 = none) :
    s.history.countP cut + K ≤ (sendCommand env reconnect c m s).2.history.countP cut := by
  have hsettled : ∀ m s, (exchange env c m s).1 ≠ none :=
    fun m s => Below.settled (fun _ => exchange_meets) s
  obtain ⟨hnone, -⟩ | ⟨r, s₁, hexchange, hrest⟩ := handle_cases (exchange env c m) _ s
  · exact absurd hnone (hsettled m s)
  replace hrest : sendCommand env reconnect c m s = _ := hrest
  rw [hrest] at h ⊢
  split at h
  · split at h
    · rename_i hm
      subst hm
      obtain ⟨hnone, hstop⟩ | ⟨_, s₂, -, hnone⟩ := bind_pending h
      · rw [if_pos rfl, hstop]
        have hdeep := hn.meets.deep s₁ hnone
        rcases exchange_timedOut hexchange with hcut | hopen
        · simp only
          omega
        · have hzero : K = 0 := by
            by_contra hpos
            exact hn.connected (Nat.pos_of_ne_zero hpos) s₁ hopen hnone
          have hgrows : s.history <:+ (exchange env c true s).2.history :=
            (exchange_meets (K := 0)).grows s
          rw [hexchange] at hgrows
          have hmore : s.history.countP cut ≤ s₁.history.countP cut := hgrows.sublist.countP_le
          simp only
          omega
      · exact absurd hnone (hsettled false s₂)
    · cases h
  · cases h

theorem sendCommand_meets (hn : Nested K reconnect reconnect') :
    Meets K (sendCommand env reconnect c m) (sendCommand env reconnect' c m) := by
  have hgrows : Meets 0 (sendCommand env reconnect c m) (sendCommand env reconnect' c m) := by
    refine Below.handle exchange_meets fun r => ?_
    split
    · refine Below.ite (Below.bind (hn.meets.weaken (Nat.zero_le _)) fun _ => exchange_meets) (.give _)
    · exact .give _
  exact ⟨hgrows.grows, hgrows.same, fun s h => sendCommand_deep hn h⟩

theorem stillConnected_meets : Meets K stillConnected stillConnected :=
  Below.bind (.look _) fun _ => Below.ite (.give _) (.give _)

theorem connectServer_meets : Meets K (connectServer env) (connectServer env) := by
  refine Below.bind (.change fun _ => List.suffix_cons _ _) fun _ => Below.bind meet_meets fun out => ?_
  cases out with
  | error e => exact .give _
  | ok _ => exact .change fun _ => List.suffix_cons _ _

theorem greeting_meets : Meets K (greeting env) (greeting env) := by
  refine Below.handle readResponse_meets fun r => ?_
  cases r with
  | ok ret => exact Below.ite (Below.bind disconnect_meets fun _ => .give _) (.give _)
  | error e => exact Below.bind disconnect_meets fun _ => .give _

section Login

variable (hn : Nested K reconnect reconnect')

include hn

theorem getcwd_meets : Meets K (getcwd o env reconnect) (getcwd o env reconnect') := by
  refine Below.bind (sendCommand_meets hn) fun ret => Below.ite ?_ (Below.bind (.look _) fun dir => ?_)
  · exact Below.bind disconnect_meets fun _ => .give _
  · cases dir with
    | none => exact Below.bind disconnect_meets fun _ => .give _
    | some dir => exact .change fun _ => List.suffix_refl _

theorem chdir_meets (directory : Bytes) :
    Meets K (chdir o env reconnect directory) (chdir o env reconnect' directory) :=
  Below.bind (sendCommand_meets hn) fun _ => Below.ite (.give _) (getcwd_meets hn)

theorem syst_meets : Meets K (syst env reconnect) (syst env reconnect') := by
  refine Below.bind (sendCommand_meets hn) fun ret => Below.ite (.give _)
    (Below.bind (.look _) fun name => ?_)
  cases name with
  | none => exact .give _
  | some name => exact Below.ite (.change fun _ => List.suffix_refl _) (.give _)

theorem protect_meets : Meets K (protect env reconnect) (protect env reconnect') := by
  refine Below.bind (sendCommand_meets hn) fun _ => Below.bind (sendCommand_meets hn) fun ret => ?_
  refine Below.ite (.give _) (Below.bind (sendCommand_meets hn) fun ret => Below.ite ?_ (.give _))
  exact Below.bind disconnect_meets fun _ => .give _

theorem authTlsStart_meets : Meets K (authTlsStart env reconnect) (authTlsStart env reconnect') := by
  refine Below.bind (sendCommand_meets hn) fun ret => Below.ite (.give _)
    (Below.bind meet_meets fun out => ?_)
  cases out with
  | error e => exact .give _
  | ok _ => exact protect_meets hn

theorem startTls_meets : Meets K (startTls o env reconnect) (startTls o env reconnect') := by
  refine Below.ite (Below.handle (authTlsStart_meets hn) fun r => ?_) (.give _)
  cases r with
  | ok _ => exact .give _
  | error e => exact Below.bind disconnect_meets fun _ => .give _

theorem proxyLogin_meets (lines : List Bytes) (resp : UInt8) :
    Meets K (proxyLogin env reconnect resp lines) (proxyLogin env reconnect' resp lines) := by
  induction lines generalizing resp with
  | nil => exact .give _
  | cons line lines ih => exact Below.ite (Below.bind (sendCommand_meets hn) ih) (.give _)

theorem sendAccount_meets (resp : UInt8) :
    Meets K (sendAccount o env reconnect resp) (sendAccount o env reconnect' resp) := by
  unfold sendAccount
  cases o.account with
  | none => exact .give _
  | some account => exact Below.ite (sendCommand_meets hn) (.give _)

theorem hostLogin_meets : Meets K (hostLogin o env reconnect) (hostLogin o env reconnect') :=
  Below.bind (sendCommand_meets hn) fun _ => Below.ite
    (Below.bind (sendCommand_meets hn) fun _ => sendAccount_meets hn _) (.give _)

theorem login_meets : Meets K (login o env reconnect) (login o env reconnect') := by
  unfold login
  cases o.proxyText with
  | none => exact hostLogin_meets hn
  | some text => exact proxyLogin_meets hn _ _

theorem enterDirectory_meets :
    Meets K (enterDirectory o env reconnect) (enterDirectory o env reconnect') := by
  have hask : Meets K (do getcwd o env reconnect; stillConnected)
      (do getcwd o env reconnect'; stillConnected) :=
    Below.bind (getcwd_meets hn) fun _ => stillConnected_meets
  refine Below.bind (.look _) fun directory => Below.ite ?_ hask
  refine Below.handle (chdir_meets hn directory) fun r => Below.bind (.look _) fun _ =>
    Below.ite (.give _) ?_
  cases r with
  | ok _ => exact stillConnected_meets
  | error e => exact hask

theorem setOptionType_meets :
    Meets K (setOptionType o env reconnect) (setOptionType o env reconnect') :=
  Below.bind (.change fun _ => List.suffix_refl _) fun _ =>
    Below.bind (sendCommand_meets hn) fun _ => enterDirectory_meets hn

theorem afterLogin_meets : Meets K (afterLogin o env reconnect) (afterLogin o env reconnect') := by
  refine Below.handle (syst_meets hn) fun r => ?_
  cases r with
  | ok _ => exact setOptionType_meets hn
  | error e => exact Below.bind (.look _) fun _ => Below.ite (.give _) (setOptionType_meets hn)

theorem rfc959Connect_meets :
    Meets K (rfc959Connect o env reconnect) (rfc959Connect o env reconnect') := by
  refine Below.bind (.look _) fun _ => Below.ite (.give _) ?_
  refine Below.bind connectServer_meets fun _ => Below.bind greeting_meets fun _ => ?_
  refine Below.bind (startTls_meets hn) fun _ => Below.bind (login_meets hn) fun resp => ?_
  exact Below.ite (Below.bind disconnect_meets fun _ => .give _) (afterLogin_meets hn)

end Login

theorem rfc959Connect_connected {s : Client} (h : s.datafd ≠ none) :
    (rfc959Connect o env reconnect s).1 = some (.ok ()) := by
  rw [rfc959Connect, look_then, if_pos (Option.isSome_iff_ne_none.mpr h)]
  rfl

theorem gftpConnect_nested (fuel : ℕ) :
    Nested fuel (gftpConnect o env fuel) (gftpConnect o env (fuel + 1)) := by
  induction fuel with
  | zero =>
    have hpending : Nested 0 (.pending : Ftp Unit) .pending :=
      ⟨.pending fun _ => List.suffix_refl _, nofun⟩
    exact ⟨.pending (rfc959Connect_meets hpending).grows, nofun⟩
  | succ fuel ih =>
    refine ⟨rfc959Connect_meets ih, fun _ s hopen => ?_⟩
    show (rfc959Connect o env (gftpConnect o env fuel) s).1 ≠ none
    rw [rfc959Connect_connected hopen]
    nofun

end Functions

section Returns

variable {α : Type} {o : Options} {env : Environment}

/-- A function returns, and tries to connect so often at most whatever the fuel. -/
def BoundedReturn (x : ℕ → Ftp α) (s : Client) : Prop :=
  (∃ fuel, (x fuel s).1 ≠ none) ∧ ∃ b, ∀ fuel, (x fuel s).2.history.countP attempt ≤ b

/-- The server gives only so many replies of the 42 kind to commands that may reconnect. -/
def FewCuts (x : ℕ → Ftp α) (s : Client) : Prop :=
  ∃ b, ∀ fuel, (x fuel s).2.history.countP cut ≤ b

theorem boundedReturn_iff {x : ℕ → Ftp α} (hx : ∀ n, Meets n (x n) (x (n + 1))) (s : Client) :
    BoundedReturn x s ↔ FewCuts x s := by
  have hsettles := settles_iff hx (fun n => Nat.le_succ n) s
  constructor
  · exact fun ⟨hreturns, _⟩ => hsettles.mp hreturns
  · intro hfew
    obtain ⟨fuel, hsettled⟩ := hsettles.mpr hfew
    exact ⟨⟨fuel, hsettled⟩, _, fun m => (history_of_settled hx hsettled m).sublist.countP_le⟩

/-- rfc959_connect and rfc959_send_command return after a bounded number of attempts just when
the server gives only so many replies of the 42 kind. -/
theorem returns_iff (o : Options) (env : Environment) (c : Command) (m : Bool) (s : Client) :
    (BoundedReturn (fun fuel => rfc959Connect o env (gftpConnect o env fuel)) s ↔
      FewCuts (fun fuel => rfc959Connect o env (gftpConnect o env fuel)) s) ∧
    (BoundedReturn (fun fuel => sendCommand env (gftpConnect o env fuel) c m) s ↔
      FewCuts (fun fuel => sendCommand env (gftpConnect o env fuel) c m) s) :=
  ⟨boundedReturn_iff (fun fuel => rfc959Connect_meets (gftpConnect_nested fuel)) s,
    boundedReturn_iff (fun fuel => sendCommand_meets (gftpConnect_nested fuel)) s⟩

theorem meet_then {β : Type} (f : ℕ → β) (g : β → Ftp α) (s : Client) :
    (meet f >>= g) s = g (f s.time) { s with time := s.time + 1 } := rfl

theorem connected_run {x : Ftp α} {s : Client} (hopen : s.datafd ≠ none) :
    connected x s = x s := by
  rw [connected, look_then, if_pos (Option.isSome_iff_ne_none.mpr hopen)]

theorem disconnect_run (env : Environment) {s : Client} (hopen : s.datafd ≠ none) :
    ∃ s', disconnect env s = (some (.ok ()), s') ∧ s'.datafd = none ∧ s'.time = s.time + 1 := by
  rw [disconnect, closeDataConnection, change_then, look_then,
    if_pos (Option.isSome_iff_ne_none.mpr hopen), meet_then]
  exact ⟨_, rfl, rfl, rfl⟩

theorem readResponse_run (event : Answer → Event) {s : Client} {text : Bytes}
    (hopen : s.datafd ≠ none) (hanswer : env.answer s.time = .line text)
    (hfront : text.take 2 ≠ ascii "42") :
    ∃ s', readResponse env event true s = (some (charRet (text.headD 0)), s') ∧
      s'.datafd = s.datafd ∧ s'.time = s.time + 1 := by
  rw [readResponse, connected_run hopen, meet_then, change_then, hanswer]
  simp only [change_then, hfront, false_and, if_false]
  exact ⟨_, rfl, rfl, rfl⟩

theorem readResponse_cut (event : Answer → Event) {s : Client} {text : Bytes}
    (hopen : s.datafd ≠ none) (hanswer : env.answer s.time = .line text)
    (hfront : text.take 2 = ascii "42") :
    ∃ s', readResponse env event true s = (some (.error .timedOut), s') ∧
      s'.datafd = none ∧ s'.time = s.time + 2 := by
  rw [readResponse, connected_run hopen, meet_then, change_then, hanswer]
  simp only [change_then, hfront, and_self, if_true]
  obtain ⟨s', hrun, hclosed, htime⟩ := disconnect_run env
    (s := { s.note (event (.line text)) with time := s.time + 1, lastFtpResponse := text }) hopen
  exact ⟨s', bind_then hrun, hclosed, htime⟩

/-- The server greets every connection and answers USER by 421. -/
def refusing : Environment where
  answer time := .line (ascii (if time % 5 = 1 then "220 ready" else "421 too many users"))
  writes _ := true
  connects _ := .ok ()
  tls _ := .ok ()
  succeeds _ := true
  buffered _ := 0

theorem refusing_answer {time i : ℕ} (h : time % 5 = i) : refusing.answer time =
    .line (ascii (if i = 1 then "220 ready" else "421 too many users")) :=
  congrArg (fun i => Answer.line (ascii (if i = 1 then "220 ready" else "421 too many users"))) h

theorem refusing_pending (fuel : ℕ) {s : Client} (hclosed : s.datafd = none)
    (htime : s.time % 5 = 0) : (gftpConnect (anonymous []) refusing fuel s).1 = none := by
  induction fuel generalizing s with
  | zero => rfl
  | succ fuel ih =>
    obtain ⟨s₁, hconnect, hopen₁, htime₁⟩ : ∃ s₁, connectServer refusing s = (some (.ok ()), s₁) ∧
        s₁.datafd ≠ none ∧ s₁.time = s.time + 1 := ⟨_, rfl, nofun, rfl⟩
    obtain ⟨s₂, hbanner, hopen₂, htime₂⟩ := readResponse_run .banner hopen₁
      (refusing_answer (show s₁.time % 5 = 1 by omega)) (by decide)
    have hgreeting : greeting refusing s₁ = (some (.ok ()), s₂) := handle_some hbanner
    rw [← hopen₂] at hopen₁
    obtain ⟨s₃, hsent, hopen₃, htime₃⟩ : ∃ s₃,
        writeCommand refusing (.user (anonymous []).username) true s₂ = (some (.ok ()), s₃) ∧
          s₃.datafd ≠ none ∧ s₃.time = s₂.time + 1 := by
      rw [writeCommand, connected_run hopen₁, meet_then]
      exact ⟨_, rfl, hopen₁, rfl⟩
    obtain ⟨s₄, hcut, hclosed₄, htime₄⟩ := readResponse_cut
      (.reply (.user (anonymous []).username) true) hopen₃
      (refusing_answer (show s₃.time % 5 = 3 by omega)) (by decide)
    have hexchange : exchange refusing (.user (anonymous []).username) true s₂ =
        (some (.error .timedOut), s₄) := (bind_then hsent).trans hcut
    have hsend : (sendCommand refusing (gftpConnect (anonymous []) refusing fuel)
        (.user (anonymous []).username) true s₂).1 = none :=
      (congrArg Prod.fst (handle_some hexchange)).trans (bind_none (ih hclosed₄ (by omega)))
    have hlogin : (login (anonymous []) refusing (gftpConnect (anonymous []) refusing fuel) s₂).1 =
        none := bind_none hsend
    have htls : startTls (anonymous []) refusing (gftpConnect (anonymous []) refusing fuel) s₂ =
        (some (.ok ()), s₂) := rfl
    show (rfc959Connect (anonymous []) refusing (gftpConnect (anonymous []) refusing fuel) s).1 = none
    rw [rfc959Connect, look_then, if_neg (by simp [hclosed]), bind_then hconnect,
      bind_then hgreeting, bind_then htls]
    exact bind_none hlogin

/-- A server that answers every USER by 421 keeps rfc959_connect from returning. -/
theorem refused_logins_never_return :
    ¬ ∀ (o : Options) (env : Environment) (c : Command) (m : Bool) (s : Client),
      BoundedReturn (fun fuel => rfc959Connect o env (gftpConnect o env fuel)) s ∧
        BoundedReturn (fun fuel => sendCommand env (gftpConnect o env fuel) c m) s := by
  intro h
  obtain ⟨⟨⟨fuel, hreturns⟩, -⟩, -⟩ := h (anonymous []) refusing .pwd true
    (.start true false false false [])
  exact hreturns (refusing_pending (fuel + 1) rfl rfl)

end Returns

section Lasting

/-- No reply of the server is of the 42 kind, nor is its first byte a negative char. -/
def Lasting (env : Environment) : Prop :=
  ∀ time text, env.answer time = .line text → text.take 2 ≠ ascii "42" ∧ text.headD 0 < 128

variable {env : Environment} (h : Lasting env) (o : Options) (reconnect reconnect' : Ftp Unit)
  (c : Command) (m : Bool) (s : Client)

include h

end Lasting

/-- Every reply of the server accepts what it is sent. -/
def welcoming : Environment := { refusing with answer := fun _ => .line (ascii "230 welcome") }

end Gftp.ReconnectBound
