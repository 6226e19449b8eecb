import Gftp.FtpRules
import Gftp.FtpTransfers
import Gftp.Runs

/-!
The flag is_ascii_transfer against the representation type in force at the server. The flag is
set before the reply to TYPE is known, a refusal is no error, and a reconnection sets the type
of the option ascii_transfers before the TYPE it interrupted is repeated.
-/

namespace Gftp.TypeAgreement

open ByteStrings Calls Call FtpClient FtpRules FtpTransfers Protocol Runs

/-- The type is ASCII on a new connection, and then the one of the last TYPE that the server has
accepted. -/
def typeInForce : List Event → Bool
  | [] => true
  | .opened :: _ => true
  | .reply (.type isAscii) _ (.line text) :: l =>
      if text.headD 0 = 50 then isAscii else typeInForce l
  | _ :: l => typeInForce l

/-- A TYPE is refused only when its type is in force, or with a reply of the 42 kind at its
first sending; when it is repeated after a reconnection it is accepted only when its type is
the one of the option. -/
def answersType (o : Options) (l : List Event) : Event → Bool
  | .reply (.type isAscii) true (.line text) =>
      text.headD 0 = 50 || text.take 2 = ascii "42" || typeInForce l = isAscii
  | .reply (.type isAscii) false (.line text) => text.headD 0 ≠ 50 || isAscii = o.asciiTransfers
  | _ => true

/-- A reply begins with an ASCII character, and one to TYPE is as said. -/
abbrev TypeOk (o : Options) (l : List Event) (e : Event) : Prop :=
  readable e = true ∧ answersType o l e = true

def TypeFit (o : Options) : List Event → Prop := Throughout (TypeOk o)

instance {o : Options} {l : List Event} : Decidable (TypeFit o l) :=
  inferInstanceAs (Decidable (Throughout _ _))

/-- The calls that set the type, and the end of a connection. -/
def setsType : Operation → Prop
  | .connect => True
  | .disconnect => True
  | .setDataType _ => True
  | _ => False

/-- A client that is connected has the flag of the type in force. -/
def Agrees (s : Client) : Prop :=
  s.datafd ≠ none → s.isAsciiTransfer = typeInForce s.history

/-- The flag and the type of a connected client. -/
def Typed (K : Bool → Bool → Prop) (v : View) : Prop :=
  v.datafd ≠ none → K v.isAsciiTransfer (typeInForce v.history)

section Steps

variable {o : Options} {env : Environment} {K : Bool → Bool → Prop} {reconnect : Ftp Unit}

abbrev TypeSpec {α : Type} (o : Options) (P : View → Prop) (x : Ftp α)
    (Q : Except GftpError α → View → Prop) : Prop :=
  Spec (TypeOk o) P x Q

theorem typeInForce_plain {c : Command} {m : Bool} {a : Answer} {l : List Event}
    (hc : plain c = true) : typeInForce (.reply c m a :: l) = typeInForce l := by
  cases c <;> first | rfl | cases hc

theorem kept (K : Bool → Bool → Prop) : Kept (TypeOk o) env (Typed K) where
  readable _ _ h := h.1
  commands c m hc := by
    refine exchange_spec ?_ ?_ ?_ ?_ ?_
    · exact fun _ hi _ => hi
    · exact fun _ _ _ _ _ hopen => absurd rfl hopen
    · exact fun _ _ _ _ _ hopen => absurd rfl hopen
    · exact fun _ _ _ _ _ _ _ hopen => absurd rfl hopen
    · intro v text _ _ hi _ hopen
      show K v.isAsciiTransfer (typeInForce (.reply c m _ :: .sent .. :: v.history))
      rw [typeInForce_plain hc]
      exact hi hopen
  hangUp := disconnect_spec (fun _ hi _ => hi) (fun _ _ _ _ _ hopen => absurd rfl hopen)

/-- Before TYPE nothing is known of the type. -/
theorem keptByLogin : KeptByLogin (TypeOk o) env (fun _ => True) (fun _ => True) where
  readable _ _ h := h.1
  commands c m _ := by
    refine exchange_spec ?_ ?_ ?_ ?_ ?_ <;> intros <;> trivial
  hangUp := disconnect_spec (fun _ _ _ => trivial) (fun _ _ _ _ _ => trivial)
  attempted _ _ _ := trivial
  opened _ _ _ _ _ _ := trivial
  greeting := by
    refine greeting_keeps (I := fun _ => True) ?_
      (disconnect_spec (fun _ _ _ => trivial) (fun _ _ _ _ _ => trivial))
    refine readResponse_spec ?_ ?_ ?_ ?_ <;> intros <;> trivial

/-- The first sending of TYPE: the server has the type of the flag, or the client is
disconnected. -/
theorem exchange_type (isAscii : Bool) :
    TypeSpec o (fun v => v.isAsciiTransfer = isAscii) (exchange env (.type isAscii) true)
      (fun r v => Typed (fun flag force => flag = isAscii ∧ force = isAscii) v ∧
        (r = .error .timedOut → v.datafd = none)) := by
  refine exchange_spec ?_ ?_ ?_ ?_ ?_
  · exact fun v _ hnone => ⟨fun hopen => absurd hnone hopen, by simp⟩
  · exact fun _ _ _ _ _ => ⟨fun hopen => absurd rfl hopen, by simp⟩
  · exact fun _ _ _ _ _ => ⟨fun hopen => absurd rfl hopen, by simp⟩
  · exact fun _ _ _ _ _ _ _ => ⟨fun hopen => absurd rfl hopen, fun _ => rfl⟩
  · intro v text hfront hc hflag hopen
    rw [charRet_ok (of_decide_eq_true hc.1.1)]
    refine ⟨fun _ => ⟨hflag, ?_⟩, by simp⟩
    have hanswer := hc.1.2
    simp only [answersType, hfront, decide_false, Bool.or_false, Bool.or_eq_true,
      decide_eq_true_eq] at hanswer
    show (if text.headD 0 = 50 then isAscii else typeInForce (.sent .. :: v.history)) = isAscii
    split
    · rfl
    · rename_i hrefused
      exact hanswer.resolve_left hrefused

/-- The type of the option. -/
abbrev OptionType (o : Options) : View → Prop :=
  Typed fun flag force => flag = o.asciiTransfers ∧ force = o.asciiTransfers

/-- A repeated TYPE leaves the type of the option in force. -/
theorem exchange_type_again (isAscii : Bool) :
    TypeSpec o (OptionType o) (exchange env (.type isAscii) false) (fun _ => OptionType o) := by
  refine exchange_spec ?_ ?_ ?_ ?_ ?_
  · exact fun _ hi _ => hi
  · exact fun _ _ _ _ _ hopen => absurd rfl hopen
  · exact fun _ _ _ _ _ hopen => absurd rfl hopen
  · exact fun _ _ _ _ _ _ _ hopen => absurd rfl hopen
  · intro v text _ hc hi hopen _
    obtain ⟨hflag, hforce⟩ := hi hopen
    have hanswer := hc.1.2
    simp only [answersType, Bool.or_eq_true, decide_eq_true_eq] at hanswer
    refine ⟨hflag, ?_⟩
    show (if text.headD 0 = 50 then isAscii else typeInForce (.sent .. :: v.history)) = _
    split
    · rename_i haccepted
      exact hanswer.resolve_left (not_not_intro haccepted)
    · exact hforce

/-- TYPE is sent: either the flag and the type are as asked for, or those of the option. -/
theorem sendCommand_type (isAscii : Bool)
    (hr : KeepsAndEnds (TypeOk o) (OptionType o) reconnect) :
    TypeSpec o (fun v => v.isAsciiTransfer = isAscii ∧ Together v)
      (sendCommand env reconnect (.type isAscii) true)
      (fun r v => (Typed (fun flag force => flag = isAscii ∧ force = isAscii) v ∨ OptionType o v) ∧
        Together v ∧ Ends r v) := by
  refine Spec.handle ((exchange_type isAscii).and (exchange_ends fun _ _ h => h.1)) fun r => ?_
  split
  · refine Spec.bind (Spec.pre hr ?_) (fun _ => ?_) (fun e v ⟨hi, htog, hends⟩ => ⟨.inr hi, htog, hends⟩)
    · exact fun v ⟨⟨_, hclosed⟩, htog, _⟩ => ⟨fun hopen => absurd (hclosed rfl) hopen, htog⟩
    · refine Spec.weaken ((exchange_type_again isAscii).and (exchange_ends fun _ _ h => h.1)) ?_ ?_
      · exact fun v ⟨hi, htog, _⟩ => ⟨hi, htog⟩
      · exact fun r v ⟨hi, htog, hends⟩ => ⟨.inr hi, htog, hends⟩
  · exact Spec.give fun v ⟨⟨hi, _⟩, htog, hends⟩ => ⟨.inl hi, htog, hends⟩

theorem setOptionType_ends
    (hr : KeepsAndEnds (TypeOk o) (OptionType o) reconnect) :
    TypeSpec o (fun v => True ∧ Together v) (setOptionType o env reconnect)
      (fun r v => OptionType o v ∧ Together v ∧ Ends r v) := by
  refine Spec.seen_bind (fun v => { v with isAsciiTransfer := o.asciiTransfers })
    (R := fun v => v.isAsciiTransfer = o.asciiTransfers ∧ Together v) (fun _ => rfl) (fun _ => id)
    (fun v _ ⟨_, htog⟩ => ⟨rfl, htog⟩) ?_
  have hsame : ∀ v, Typed (fun flag force => flag = o.asciiTransfers ∧ force = o.asciiTransfers) v ∨
      OptionType o v → OptionType o v := fun v h => h.elim id id
  refine Spec.bind (sendCommand_type _ hr) (fun _ => ?_)
    (fun e v ⟨hi, htog, hends⟩ => ⟨hsame v hi, htog, hends⟩)
  exact Spec.pre (enterDirectory_ends (kept _) hr) fun v ⟨hi, htog, _⟩ => ⟨hsame v hi, htog⟩

theorem gftpConnect_keeps (fuel : ℕ) :
    KeepsAndEnds (TypeOk o) (fun _ => True) (gftpConnect o env fuel) := by
  refine gftpConnect_ends keptByLogin (fun isAscii m => ?_) (fun _ _ => id) fuel
  refine exchange_spec ?_ ?_ ?_ ?_ ?_ <;> intros <;> trivial

theorem rfc959Connect_type {J : View → Prop} (hJ : ∀ v, OptionType o v → J v)
    (hkeeps : KeepsAndEnds (TypeOk o) (fun _ => True) reconnect)
    (hr : KeepsAndEnds (TypeOk o) (OptionType o) reconnect) :
    TypeSpec o (fun v => (v.datafd ≠ none → J v) ∧ Together v) (rfc959Connect o env reconnect)
      (fun r v => J v ∧ Together v ∧ Ends r v) := by
  have hset : TypeSpec o (fun v => True ∧ Together v) (setOptionType o env reconnect)
      (fun r v => J v ∧ Together v ∧ Ends r v) :=
    (setOptionType_ends hr).post fun r v ⟨hi, hrest⟩ => ⟨hJ v hi, hrest⟩
  refine Spec.pre (rfc959Connect_ends keptByLogin hkeeps hset ?_) fun v ⟨hj, htog⟩ =>
    ⟨fun _ => trivial, hj, htog⟩
  exact fun v _ hnone => hJ v fun hopen => absurd hnone hopen

theorem gftpConnect_type (fuel : ℕ) :
    KeepsAndEnds (TypeOk o) (OptionType o) (gftpConnect o env fuel) := by
  induction fuel with
  | zero => exact Triple.pending
  | succ fuel ih =>
    exact Spec.pre (rfc959Connect_type (fun _ => id) (gftpConnect_keeps fuel) ih)
      fun v ⟨hi, htog⟩ => ⟨fun _ => hi, htog⟩

end Steps

section Runs

variable {o : Options} {env : Environment}

/-- What holds between two calls. -/
def TypeInv (v : View) : Prop := Typed (fun flag force => flag = force) v ∧ Together v

theorem setDataType_agrees (filename : Bytes) (fuel : ℕ) :
    TypeSpec o TypeInv (setDataType o env (gftpConnect o env fuel) filename)
      (fun _ => TypeInv) := by
  refine Spec.look_bind (fun v => v.datafd.isSome &&
    isAsciiTransfer o filename ≠ v.isAsciiTransfer) fun a => ?_
  cases a with
  | false => exact Spec.give fun v h => h.1
  | true =>
    refine Spec.seen_bind (fun v => { v with isAsciiTransfer := isAsciiTransfer o filename })
      (R := fun v => v.isAsciiTransfer = isAsciiTransfer o filename ∧ Together v) (fun _ => rfl)
      (fun _ => id) (fun v _ h => ⟨rfl, h.1.2⟩) ?_
    have hagrees : ∀ v, Typed (fun flag force => flag = isAsciiTransfer o filename ∧
        force = isAsciiTransfer o filename) v ∨ OptionType o v →
        Typed (fun flag force => flag = force) v := by
      rintro v (hi | hi) hopen
      · exact (hi hopen).1.trans (hi hopen).2.symm
      · exact (hi hopen).1.trans (hi hopen).2.symm
    refine Spec.bind (sendCommand_type _ (gftpConnect_type fuel)) (fun _ => Spec.give ?_) ?_
    · exact fun v ⟨hi, htog, _⟩ => ⟨hagrees v hi, htog⟩
    · exact fun _ v ⟨hi, htog, _⟩ => ⟨hagrees v hi, htog⟩

theorem connect_agrees (fuel : ℕ) :
    TypeSpec o TypeInv (gftpConnect o env fuel) (fun _ => TypeInv) := by
  cases fuel with
  | zero => exact Triple.pending
  | succ fuel =>
    refine Spec.weaken (rfc959Connect_type (J := Typed fun flag force => flag = force) ?_
      (gftpConnect_keeps fuel) (gftpConnect_type fuel)) ?_ ?_
    · exact fun v hi hopen => (hi hopen).1.trans (hi hopen).2.symm
    · exact fun v ⟨hi, htog⟩ => ⟨fun _ => hi, htog⟩
    · exact fun r v ⟨hi, htog, _⟩ => ⟨hi, htog⟩

theorem disconnect_agrees : TypeSpec o TypeInv (disconnect env) (fun _ => TypeInv) :=
  disconnect_spec (fun _ ⟨hi, _⟩ _ => ⟨hi, fun _ => rfl⟩)
    (fun _ _ _ _ _ => ⟨fun hopen => absurd rfl hopen, fun _ => rfl⟩)

theorem step_agrees {s s' : Client} {op : Operation} (hop : setsType op)
    (hstep : OperationStep o env s op s') (hfit : TypeFit o s'.history) :
    TypeFit o s.history ∧ (TypeInv (view s) → TypeInv (view s')) := by
  obtain ⟨fuel, hrun⟩ := hstep
  rename_i r
  have hspec : TypeSpec o TypeInv (op.call o env fuel) (fun _ => TypeInv) := by
    cases op with
    | connect => exact connect_agrees fuel
    | disconnect => exact disconnect_agrees
    | setDataType filename => exact setDataType_agrees filename fuel
    | _ => exact hop.elim
  exact hspec { s with operation := s.operation + 1 } r s' hrun hfit

/-- In a run whose TYPE commands are answered so, the flag is the type in force. -/
theorem flag_is_type_in_force {passive hidden resolve flag : Bool} {directory : Bytes} {s : Client}
    (hrun : Reaches (OperationStep o env) (fun _ op => setsType op)
      (.start passive hidden resolve flag directory) s) (hfit : TypeFit o s.history) : Agrees s := by
  have hinv : TypeFit o s.history → TypeInv (view s) := by
    refine hrun.invariant (fun s => TypeFit o s.history → TypeInv (view s)) ?_ ?_
    · exact fun _ => ⟨fun hopen => absurd rfl hopen, fun _ => rfl⟩
    · intro s op s' hs hop hstep hfit'
      obtain ⟨hbefore, hafter⟩ := step_agrees hop hstep hfit'
      exact hafter (hs hbefore)
  exact (hinv hfit).1

/-- A login, and a file of the other type. -/
theorem text_file_in_ascii : ∃ s,
    Reaches (OperationStep (anonymous [(ascii ".txt", ascii "A")])
        (answering (loginReplies ++ [(11, "200 ok")]))) (fun _ op => setsType op)
        (.start true false false false []) s ∧
      s.datafd ≠ none ∧ s.isAsciiTransfer = true ∧ Agrees s := by
  have hrun : Reaches (OperationStep (anonymous [(ascii ".txt", ascii "A")])
      (answering (loginReplies ++ [(11, "200 ok")]))) (fun _ op => setsType op)
      (.start true false false false []) _ :=
    (Reaches.refl _).tail (a := .connect) trivial (.step 1 rfl)
      |>.tail (a := .setDataType (ascii "x.txt")) trivial (.step 1 rfl)
  exact ⟨_, hrun, by decide, by decide, flag_is_type_in_force hrun (by decide)⟩

/-- The server refuses TYPE I of the login, and the flag is cleared. -/
theorem refused_type_ignored :
    ¬ ∀ (o : Options) (env : Environment) (passive hidden resolve flag : Bool) (directory : Bytes)
      (s : Client), Reaches (OperationStep o env) (fun _ op => setsType op)
        (.start passive hidden resolve flag directory) s → Agrees s := by
  intro h
  have hrun : Reaches (OperationStep (anonymous [])
      (answering [(1, "220 ready"), (3, "230 welcome"), (5, "215 UNIX Type: L8"), (7, "500 no"),
        (9, "257 \"/\" ok")])) (fun _ op => setsType op) (.start true false false false []) _ :=
    (Reaches.refl _).tail (a := .connect) trivial (.step 1 rfl)
  have hagrees := h _ _ _ _ _ _ _ _ hrun (by decide)
  exact absurd hagrees (by decide)

end Runs

end Gftp.TypeAgreement
