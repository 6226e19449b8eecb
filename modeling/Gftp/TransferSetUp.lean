import Gftp.Protocol
import Gftp.ByteStrings

/-!
The set-up of a transfer: gftp_transfer_file with its two loops written with goto. The results
of the calls are lists, one for each kind of call; a list that ends too early leaves the run
pending. All calls are kept in the order in which they are made.
-/

namespace Gftp.TransferSetUp

open ByteStrings Protocol

inductive Side
  | source
  | destination
  deriving DecidableEq

inductive SetUpEvent
  | got (ret : Except GftpError ℕ)
  | put (ret : Except GftpError Unit)
  | connected (side : Side) (ret : Except GftpError Unit)
  | aborted (side : Side) (ret : Except GftpError Unit)
  | ended (side : Side)
  deriving DecidableEq

/-- The results of gftp_get_file, gftp_put_file, gftp_connect and gftp_abort_transfer. -/
structure SetUpAnswers where
  gets : List (Except GftpError ℕ)
  puts : List (Except GftpError Unit)
  connects : List (Except GftpError Unit)
  abort : Except GftpError Unit

structure SetUp where
  ret : ℤ
  events : List SetUpEvent
  deriving DecidableEq

/-- What the loop at the label get_file leaves; connects are the results that are left. -/
structure Gotten where
  size : Except GftpError ℕ
  events : List SetUpEvent
  connects : List (Except GftpError Unit)

def getFileLoop : List (Except GftpError ℕ) → List (Except GftpError Unit) → CRun Gotten
  | [], _ => .error .pending
  | .ok size :: _, connects => .ok ⟨.ok size, [.got (.ok size)], connects⟩
  | .error e :: gets, connects =>
      if e = .timedOut then
        match connects with
        | [] => .error .pending
        | .error e' :: connects =>
            .ok ⟨.error e', [.got (.error e), .connected .source (.error e')], connects⟩
        | .ok _ :: connects => do
            let g ← getFileLoop gets connects
            return { g with events := .got (.error e) :: .connected .source (.ok ()) :: g.events }
      else .ok ⟨.error e, [.got (.error e)], connects⟩

/-- The loop at the label put_file, which compares the size. -/
def putFileLoop (size : ℤ) (abort : Except GftpError Unit) :
    List (Except GftpError Unit) → List (Except GftpError Unit) → CRun SetUp
  | [], _ => .error .pending
  | .ok _ :: _, _ => .ok ⟨size, [.put (.ok ())]⟩
  | .error e :: puts, connects =>
      if size = GftpError.timedOut.code then
        match connects with
        | [] => .error .pending
        | .error e' :: _ => .ok ⟨e'.code, [.put (.error e), .connected .source (.error e')]⟩
        | .ok _ :: connects => do
            let p ← putFileLoop size abort puts connects
            return { p with events := .put (.error e) :: .connected .source (.ok ()) :: p.events }
      else
        .ok ⟨e.code, .put (.error e) :: .aborted .source abort ::
          if abort.isOk then [] else [.ended .source]⟩

/-- gftp_transfer_file; direct is the result of transfer_file when the requests are of one
protocol that has this function. -/
def gftpTransferFile (direct : Option ℤ) (a : SetUpAnswers) : CRun SetUp :=
  match direct with
  | some ret => .ok ⟨ret, []⟩
  | none => do
      let g ← getFileLoop a.gets a.connects
      match g.size with
      | .error e => return ⟨e.code, g.events⟩
      | .ok size => do
          let p ← putFileLoop size a.abort a.puts g.connects
          return { p with events := g.events ++ p.events }

/-- What is to be done behind a call. -/
def Answered : SetUpEvent → List SetUpEvent → Prop
  | .got (.error .timedOut), later => ∃ r rest, later = .connected .source r :: rest ∧
      (r = .ok () → ∃ g rest', rest = .got g :: rest')
  | .put (.error .timedOut), later => ∃ r rest, later = .connected .destination r :: rest ∧
      (r = .ok () → ∃ p rest', rest = .put p :: rest')
  | .put (.error _), later => ∃ r rest, later = .aborted .source r :: rest ∧
      (r ≠ .ok () → .ended .source ∈ rest)
  | _, _ => True

def AllAnswered : List SetUpEvent → Prop
  | [] => True
  | e :: later => Answered e later ∧ AllAnswered later

/-- A result that is not negative means that both sides are set up, and behind each failure what
is to be done is done. -/
structure SetUpLaw (s : SetUp) : Prop where
  both : 0 ≤ s.ret → (∃ size, .got (.ok size) ∈ s.events) ∧ .put (.ok ()) ∈ s.events
  answered : AllAnswered s.events

/-- get_file succeeds, at once or behind timeouts with a connection made again. -/
def comesToPut : List (Except GftpError ℕ) → List (Except GftpError Unit) → Bool
  | .ok _ :: _, _ => true
  | .error .timedOut :: gets, .ok _ :: connects => comesToPut gets connects
  | _, _ => false

section Loops

variable {gets : List (Except GftpError ℕ)} {connects puts : List (Except GftpError Unit)}
  {abort : Except GftpError Unit}

theorem code_neg (e : GftpError) : e.code < 0 := e.code_bounds.2

/-- What the first loop leaves: a size behind calls that leave nothing to be done, or an
error. -/
theorem getFileLoop_cases {g : Gotten} (h : getFileLoop gets connects = .ok g) :
    (∃ size, g.size = .ok size ∧ comesToPut gets connects = true ∧ .got (.ok size) ∈ g.events ∧
      ∀ later, AllAnswered (g.events ++ later) ↔ AllAnswered later) ∨
    ∃ e, g.size = .error e ∧ comesToPut gets connects = false ∧ AllAnswered g.events := by
  induction gets generalizing connects g with
  | nil => simp [getFileLoop] at h
  | cons get gets ih =>
    cases get with
    | ok size =>
      obtain rfl := Except.ok.inj h
      exact .inl ⟨size, rfl, rfl, List.mem_singleton_self _, fun later => ⟨And.right, fun h => ⟨trivial, h⟩⟩⟩
    | error e =>
      by_cases he : e = .timedOut
      · subst he
        unfold getFileLoop at h
        rw [if_pos rfl] at h
        cases connects with
        | nil => cases h
        | cons c connects =>
          cases c with
          | error e' =>
            obtain rfl := Except.ok.inj h
            exact .inr ⟨e', rfl, rfl, ⟨_, _, rfl, nofun⟩, trivial, trivial⟩
          | ok u =>
            obtain ⟨g', hloop, h⟩ := CRun.bind_eq_ok.mp h
            obtain rfl := Except.ok.inj h
            -- the next call is one of get_file in any case
            have hnext : ∃ r rest, g'.events = .got r :: rest := by
              unfold getFileLoop at hloop
              split at hloop
              · cases hloop
              · obtain rfl := Except.ok.inj hloop
                exact ⟨_, _, rfl⟩
              · split at hloop
                · split at hloop
                  · cases hloop
                  · obtain rfl := Except.ok.inj hloop
                    exact ⟨_, _, rfl⟩
                  · obtain ⟨_, -, hloop⟩ := CRun.bind_eq_ok.mp hloop
                    obtain rfl := Except.ok.inj hloop
                    exact ⟨_, _, rfl⟩
                · obtain rfl := Except.ok.inj hloop
                  exact ⟨_, _, rfl⟩
            obtain ⟨r, rest, hnext⟩ := hnext
            have hanswered : ∀ later, Answered (.got (.error .timedOut))
                (.connected .source (.ok ()) :: (g'.events ++ later)) := by
              intro later
              refine ⟨_, _, rfl, fun _ => ?_⟩
              rw [hnext]
              exact ⟨r, rest ++ later, rfl⟩
            rcases ih hloop with ⟨size, hsize, hput, hgot, hlater⟩ | ⟨e', hsize, hput, hall⟩
            · refine .inl ⟨size, hsize, hput, ?_, fun later => ?_⟩
              · exact List.mem_cons_of_mem _ (List.mem_cons_of_mem _ hgot)
              · rw [← hlater later]
                exact ⟨fun h => h.2.2, fun h => ⟨hanswered later, trivial, h⟩⟩
            · have hfirst := hanswered []
              rw [List.append_nil] at hfirst
              exact .inr ⟨e', hsize, hput, hfirst, trivial, hall⟩
      · unfold getFileLoop at h
        rw [if_neg he] at h
        obtain rfl := Except.ok.inj h
        have hnot : comesToPut (.error e :: gets) connects = false := by
          cases e <;> first | rfl | exact absurd rfl he
        have hanswered : Answered (.got (.error e)) [] := by
          cases e <;> trivial
        exact .inr ⟨e, rfl, hnot, hanswered, trivial⟩

/-- A size is no timeout, so the second loop is left behind the first call of put_file. -/
theorem putFileLoop_eq (size : ℕ) (put : Except GftpError Unit) :
    putFileLoop size abort (put :: puts) connects = .ok (match put with
      | .ok _ => ⟨size, [.put (.ok ())]⟩
      | .error e => ⟨e.code, .put (.error e) :: .aborted .source abort ::
          if abort.isOk then [] else [.ended .source]⟩) := by
  cases put with
  | ok u => rfl
  | error e =>
    have hsize : (size : ℤ) ≠ GftpError.timedOut.code := by
      have hneg := code_neg .timedOut
      omega
    unfold putFileLoop
    exact if_neg hsize

/-- What is done behind a failure of put_file is right unless it is a timeout. -/
theorem put_answered (abort : Except GftpError Unit) (e : GftpError) :
    AllAnswered (.put (.error e) :: .aborted .source abort ::
      if abort.isOk then [] else [.ended .source]) ↔ e ≠ .timedOut := by
  have hrest : AllAnswered (.aborted .source abort ::
      if abort.isOk then [] else [.ended .source]) := by
    refine ⟨trivial, ?_⟩
    split
    · trivial
    · exact ⟨trivial, trivial⟩
  constructor
  · rintro ⟨hput, -⟩ rfl
    obtain ⟨r, rest, heq, -⟩ := hput
    cases heq
  · intro he
    have hput : ∃ r rest, SetUpEvent.aborted .source abort ::
        (if abort.isOk then [] else [.ended .source]) = .aborted .source r :: rest ∧
          (r ≠ .ok () → .ended .source ∈ rest) := by
      refine ⟨abort, _, rfl, fun hfail => ?_⟩
      cases abort with
      | ok u => exact absurd rfl hfail
      | error e' => exact List.mem_singleton_self _
    refine ⟨?_, hrest⟩
    cases e <;> first | exact hput | exact absurd rfl he

end Loops

/-- A set-up through get_file and put_file is as it is to be, whatever the calls return, exactly
when no timeout of the first put_file is met. -/
theorem set_up_iff (a : SetUpAnswers) (s : SetUp) (h : gftpTransferFile none a = .ok s) :
    SetUpLaw s ↔
      ¬(comesToPut a.gets a.connects = true ∧ a.puts.head? = some (.error .timedOut)) := by
  obtain ⟨g, hget, h⟩ := CRun.bind_eq_ok.mp h
  rcases getFileLoop_cases hget with ⟨size, hsize, hput, hgot, hlater⟩ | ⟨e, hsize, hput, hall⟩
  · rw [hsize] at h
    obtain ⟨p, hloop, h⟩ := CRun.bind_eq_ok.mp h
    obtain rfl := Except.ok.inj h
    cases hputs : a.puts with
    | nil =>
      rw [hputs] at hloop
      cases hloop
    | cons put puts =>
      rw [hputs, putFileLoop_eq] at hloop
      obtain rfl := Except.ok.inj hloop
      cases put with
      | ok u =>
        refine ⟨fun _ => ?_, fun _ => ⟨fun _ => ?_, ?_⟩⟩
        · simp
        · exact ⟨⟨size, List.mem_append_left _ hgot⟩, List.mem_append_right _ (List.mem_singleton_self _)⟩
        · exact (hlater _).mpr ⟨trivial, trivial⟩
      | error e =>
        have hanswered := (hlater _).trans (put_answered a.abort e)
        have hneg := code_neg e
        simp only [hput, List.head?_cons, Option.some.injEq, Except.error.injEq, true_and]
        constructor
        · intro hlaw
          exact hanswered.mp hlaw.answered
        · intro he
          exact ⟨fun hret => absurd hret (Int.not_le.mpr hneg), hanswered.mpr he⟩
  · rw [hsize] at h
    obtain rfl := Except.ok.inj h
    have hneg := code_neg e
    simp only [hput, Bool.false_eq_true, false_and, not_false_eq_true, iff_true]
    exact ⟨fun hret => absurd hret (Int.not_le.mpr hneg), hall⟩

/-- The source times out once, and the destination accepts. -/
def retried : SetUpAnswers where
  gets := [.error .timedOut, .ok 7]
  puts := [.ok ()]
  connects := [.ok ()]
  abort := .ok ()

theorem retried_set_up : ∃ s, gftpTransferFile none retried = .ok s ∧
    (SetUpLaw s ↔ ¬(comesToPut retried.gets retried.connects = true ∧
      retried.puts.head? = some (.error .timedOut))) :=
  ⟨_, rfl, set_up_iff retried _ rfl⟩

/-- A timeout of the destination aborts the transfer on the source, and the destination is not
connected again. -/
theorem put_timeout_aborts : ∃ a s, gftpTransferFile none a = .ok s ∧
    s = ⟨GftpError.timedOut.code,
      [.got (.ok 7), .put (.error .timedOut), .aborted .source (.ok ())]⟩ ∧ ¬SetUpLaw s := by
  refine ⟨⟨[.ok 7], [.error .timedOut, .ok ()], [.ok ()], .ok ()⟩, _, rfl, rfl, fun hlaw => ?_⟩
  obtain ⟨-, ⟨r, rest, heq, -⟩, -⟩ := hlaw.answered
  cases heq

end Gftp.TransferSetUp
