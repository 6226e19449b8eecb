import Gftp.ListingSafety
import Gftp.ProxyScripts

/-!
The dialogue with ssh in sshv2_start_login_sequence. What the terminal shows is collected behind
diff bytes that have been read before, in a buffer with rem bytes left. A prompt that is recognised
empties it, and without one it grows when it is full.
-/

namespace Gftp.LoginBuffer

open ByteStrings ListingSafety ProxyScripts SafeRuns TextIndices TextPointers

/-- SSH_LOGIN_BUFSIZE. -/
def sshLoginBufsize : ℕ := 200

/-- The largest block there is. g_realloc ends the program when it is asked for more. -/
def maxAlloc : ℕ := 2 ^ 63 - 1

/-- SSH_ERROR_BADPASS and SSH_ERROR_QUESTION. -/
def sshErrorBadpass : ℤ := -1
def sshErrorQuestion : ℤ := -2

def pwstrs : List Bytes :=
  [ascii "Enter passphrase for RSA key", ascii "Enter passphrase for key '", ascii "Password",
    ascii "password"]

/-- The local variables of the loop. -/
structure Login where
  tempstr : Bytes
  rem : ℕ
  len : ℕ
  diff : ℕ
  wrotepw : Bool

def start : Login where
  tempstr := List.replicate (sshLoginBufsize + 1) 0
  rem := sshLoginBufsize
  len := sshLoginBufsize
  diff := 0
  wrotepw := false

/-- What select says; an interrupted call is made again unless the user has cancelled. -/
inductive Ready
  | interrupted (cancel : Bool)
  | failed
  | exception
  | channel
  | terminal
  | neither

/-- What a round meets. The read takes of the text what it has asked for and fails for none;
written is what a write returns, and the passcode is empty when there is none. -/
structure Event where
  ready : Ready
  text : Option Bytes
  written : ℤ
  yes : Bool
  passcode : Bytes

/-- The end of a round: the loop goes on, it is left with ok, the function returns an error, or the
program has ended. -/
inductive Next
  | again (login : Login)
  | left (ok : ℤ)
  | fails
  | aborted

/-- The prompt or its translation is in the text. -/
def asksFor (translate : Bytes → Bytes) (tempstr prompt : Bytes) : CRun Bool := do
  let found ← findText prompt tempstr
  if found.isSome then return true
  else
    let found ← findText (translate prompt) tempstr
    return found.isSome

def asksForOne (translate : Bytes → Bytes) (tempstr : Bytes) : List Bytes → CRun Bool
  | [] => return false
  | prompt :: prompts => do
      let found ← asksFor translate tempstr prompt
      if found then return true else asksForOne translate tempstr prompts

/-- The bytes of the read, and the terminator behind them. What is new is logged. -/
def takeIn (text : Bytes) (s : Login) : CRun Login := do
  let tempstr ← overwrite s.tempstr s.diff text
  let tempstr ← writeAt tempstr (s.diff + text.length) 0
  let _ ← textFrom tempstr s.diff
  return { s with tempstr := tempstr, rem := s.rem - text.length, diff := s.diff + text.length }

/-- clear_tempstr. -/
def clear (s : Login) : CRun Next := do
  let tempstr ← writeAt s.tempstr 0 0
  return .again { s with tempstr := tempstr, rem := sshLoginBufsize, diff := 0 }

/-- A full buffer. -/
def grow (s : Login) : Next :=
  let len := s.len + sshLoginBufsize
  if len ≤ maxAlloc then
    .again { s with tempstr := realloc s.tempstr len, rem := s.rem + sshLoginBufsize, len := len }
  else .aborted

/-- What is done about the text. -/
def answer (translate : Bytes → Bytes) (event : Event) (s : Login) : CRun Next := do
  let password ← asksForOne translate s.tempstr pwstrs
  if password then
    if s.wrotepw then return .left sshErrorBadpass
    else if event.written < 0 then return .left 0
    else clear { s with wrotepw := true }
  else
    let question ← asksFor translate s.tempstr (ascii "(yes/no)?")
    if question then
      if ¬ event.yes then return .left sshErrorQuestion
      else if event.written < 0 then return .left 0
      else clear s
    else
      let securid ← asksFor translate s.tempstr (ascii "Enter PASSCODE:")
      if securid then
        if event.passcode = [] then return .left sshErrorBadpass
        else if event.written ≤ 0 then return .left 0
        else clear s
      else if s.rem ≤ 1 then return grow s
      else return .again s

/-- The read of rem - 1 bytes. -/
def readTerminal (translate : Bytes → Bytes) (event : Event) (s : Login) : CRun Next :=
  match event.text with
  | none => return .fails
  | some text =>
      if text.take (s.rem - 1) = [] then return .again s
      else do
        let s ← takeIn (text.take (s.rem - 1)) s
        answer translate event s

/-- A round of the loop. -/
def round (translate : Bytes → Bytes) (event : Event) (s : Login) : CRun Next :=
  match event.ready with
  | .interrupted cancel => return if cancel then .fails else .again s
  | .failed => return .fails
  | .exception => return .fails
  | .channel => return .left 1
  | .terminal => readTerminal translate event s
  | .neither => return .again s

/-- The loop over a sequence of events. -/
def run (translate : Bytes → Bytes) : List Event → Login → CRun Next
  | [], s => return .again s
  | event :: events, s => do
      let next ← round translate event s
      match next with
      | .again s => run translate events s
      | next => return next

/-- The counters fit the allocation, a read asks for a byte at least, and what it may read fits
with its terminator; no counter wraps. -/
structure InRoom (s : Login) : Prop where
  fits : s.diff + s.rem ≤ s.tempstr.length
  asks : 1 ≤ s.rem - 1
  room : s.diff + (s.rem - 1) ≤ s.tempstr.length
  reads : ∀ rd ≤ s.rem - 1, s.diff + rd + (s.rem - rd) ≤ s.tempstr.length ∧
    s.diff + rd < s.tempstr.length
  exact : s.len + sshLoginBufsize < 2 ^ 64 ∧ s.rem + sshLoginBufsize < 2 ^ 64

/-- What the rounds keep: the bytes in use and those left are within len, and so is the block. -/
structure Room (s : Login) : Prop where
  fits : s.diff + s.rem ≤ s.len
  asks : 2 ≤ s.rem
  least : sshLoginBufsize ≤ s.len
  block : s.len ≤ s.tempstr.length
  size : s.len ≤ maxAlloc

section Rounds

variable {translate : Bytes → Bytes} {event : Event} {s : Login} {tempstr text : Bytes}

theorem room_start : Room start where
  fits := Nat.le_refl _
  asks := by decide
  least := Nat.le_refl _
  block := by simp [start]
  size := by decide

theorem Room.inRoom (h : Room s) : InRoom s := by
  obtain ⟨hfits, hasks, -, hblock, hsize⟩ := h
  unfold maxAlloc at hsize
  refine ⟨by omega, by omega, by omega, fun rd hrd => by omega, ?_⟩
  unfold sshLoginBufsize
  omega

theorem asksFor_returns (prompt : Bytes) (h : 0 ∈ tempstr) :
    Returns (asksFor translate tempstr prompt) fun _ => True := by
  refine (findText_returns prompt h).bind fun found _ => ?_
  split_ifs
  · exact .pure trivial
  · exact (findText_returns _ h).bind fun found _ => .pure trivial

theorem asksForOne_returns (prompts : List Bytes) (h : 0 ∈ tempstr) :
    Returns (asksForOne translate tempstr prompts) fun _ => True := by
  induction prompts with
  | nil => exact .pure trivial
  | cons prompt prompts ih =>
    refine (asksFor_returns prompt h).bind fun found _ => ?_
    split_ifs
    · exact .pure trivial
    · exact ih

/-- The state between the read and the answer: a byte may be all that is left. -/
structure Taken (s : Login) : Prop where
  fits : s.diff + s.rem ≤ s.len
  left : 1 ≤ s.rem
  least : sshLoginBufsize ≤ s.len
  block : s.len ≤ s.tempstr.length
  size : s.len ≤ maxAlloc
  ended : 0 ∈ s.tempstr

theorem writeAt_returns {i : ℕ} (b : UInt8) (h : i < tempstr.length) :
    Returns (writeAt tempstr i b) fun block =>
      block.length = tempstr.length ∧ b ∈ block.drop i := by
  have hroom : i + [b].length ≤ tempstr.length := h
  refine ⟨_, overwrite_ok hroom, overwrite_length (overwrite_ok hroom), ?_⟩
  rw [List.drop_append_of_le_length (by rw [List.length_take]; omega)]
  simp

theorem takeIn_returns (h : Room s) (htext : text.length ≤ s.rem - 1) :
    Returns (takeIn text s) Taken := by
  obtain ⟨hfits, hasks, hleast, hblock, hsize⟩ := h
  have hread : s.diff + text.length ≤ s.tempstr.length := by omega
  have hblock' : Returns (overwrite s.tempstr s.diff text) fun block =>
      block.length = s.tempstr.length :=
    ⟨_, overwrite_ok hread, overwrite_length (overwrite_ok hread)⟩
  refine hblock'.bind fun block hlength => ?_
  refine (writeAt_returns 0 (by omega)).bind fun block' hnul => ?_
  obtain ⟨hlength', hnul⟩ := hnul
  have hshown : 0 ∈ block'.drop s.diff := List.drop_subset_drop_left _ (Nat.le_add_right _ _) hnul
  refine (textAt_returns hshown).bind fun _ _ => .pure ⟨?_, ?_, hleast, ?_, hsize, ?_⟩
  · simp only
    omega
  · simp only
    omega
  · simp only
    omega
  · exact List.mem_of_mem_drop hshown

/-- An emptied buffer has its first size, and its block is not smaller. -/
theorem clear_returns (h : Taken s) :
    Returns (clear s) fun next => ∀ s', next = .again s' → Room s' := by
  refine (writeAt_returns 0 (List.length_pos_of_mem h.ended)).bind fun block hblock => ?_
  refine .pure fun s' hs' => ?_
  obtain rfl := Next.again.inj hs'
  have hlen := h.block
  have hasks : 2 ≤ sshLoginBufsize := by decide
  exact ⟨by simpa using h.least, hasks, h.least, by simp only; omega, h.size⟩

/-- A buffer that grows has a block of len bytes, not one more as at the start. -/
theorem grow_room (h : Taken s) {s' : Login} (hgrow : grow s = .again s') : Room s' := by
  unfold grow at hgrow
  dsimp only at hgrow
  split_ifs at hgrow with hlen
  obtain rfl := Next.again.inj hgrow
  obtain ⟨hfits, hleft, hleast, hblock, hsize, -⟩ := h
  refine ⟨?_, ?_, ?_, ?_, hlen⟩
  · simp only
    omega
  · simp only [sshLoginBufsize]
    omega
  · simp only
    omega
  · simp only [realloc, List.length_append, List.length_take, List.length_replicate]
    omega

/-- The loop is left. -/
theorem left_returns (ok : ℤ) :
    Returns (.ok (.left ok) : CRun Next) fun next => ∀ s', next = .again s' → Room s' :=
  .pure fun _ hs' => by cases hs'

theorem answer_returns (h : Taken s) :
    Returns (answer translate event s) fun next => ∀ s', next = .again s' → Room s' := by
  refine (asksForOne_returns pwstrs h.ended).bind fun password _ => ?_
  cases password with
  | true =>
    rw [if_pos rfl]
    split_ifs
    · exact left_returns _
    · exact left_returns _
    · exact clear_returns ⟨h.fits, h.left, h.least, h.block, h.size, h.ended⟩
  | false =>
    rw [if_neg Bool.false_ne_true]
    refine (asksFor_returns _ h.ended).bind fun question _ => ?_
    cases question with
    | true =>
      rw [if_pos rfl]
      split_ifs
      · exact left_returns _
      · exact clear_returns h
      · exact left_returns _
    | false =>
      rw [if_neg Bool.false_ne_true]
      refine (asksFor_returns _ h.ended).bind fun securid _ => ?_
      cases securid with
      | true =>
        rw [if_pos rfl]
        split_ifs
        · exact left_returns _
        · exact left_returns _
        · exact clear_returns h
      | false =>
        rw [if_neg Bool.false_ne_true]
        split_ifs with hrem
        · exact .pure fun s' hs' => grow_room h hs'
        · refine .pure fun s' hs' => ?_
          obtain rfl := Next.again.inj hs'
          exact ⟨h.fits, by omega, h.least, h.block, h.size⟩

theorem again_returns (h : Room s) :
    Returns (.ok (.again s) : CRun Next) fun next => ∀ s', next = .again s' → Room s' :=
  .pure fun _ hs' => Next.again.inj hs' ▸ h

theorem round_returns (h : Room s) :
    Returns (round translate event s) fun next => ∀ s', next = .again s' → Room s' := by
  have hfails : Returns (.ok .fails : CRun Next) fun next => ∀ s', next = .again s' → Room s' :=
    .pure fun _ hs' => by cases hs'
  unfold round
  cases event.ready with
  | interrupted cancel =>
    cases cancel with
    | true => exact hfails
    | false => exact again_returns h
  | failed => exact hfails
  | exception => exact hfails
  | channel => exact left_returns 1
  | neither => exact again_returns h
  | terminal =>
    unfold readTerminal
    cases event.text with
    | none => exact hfails
    | some text =>
      by_cases hnone : text.take (s.rem - 1) = []
      · simp only [if_pos hnone]
        exact again_returns h
      · simp only [if_neg hnone]
        refine (takeIn_returns h ?_).bind fun s' hs' => answer_returns hs'
        exact List.length_take_le _ _

theorem run_returns (events : List Event) (h : Room s) :
    Returns (run translate events s) fun next => ∀ s', next = .again s' → Room s' := by
  induction events generalizing s with
  | nil => exact again_returns h
  | cons event events ih =>
    refine (round_returns h).bind fun next hnext => ?_
    cases next with
    | again s' => exact ih (hnext s' rfl)
    | left ok => exact left_returns ok
    | fails => exact .pure fun _ hs' => by cases hs'
    | aborted => exact .pure fun _ hs' => by cases hs'

end Rounds

/-- After every sequence of events the buffer has room for the next read and its terminator. -/
theorem login_buffer_room (translate : Bytes → Bytes) (events : List Event) :
    Returns (run translate events start) fun next => ∀ s, next = .again s → InRoom s :=
  (run_returns events room_start).mono fun _ hnext s hs => (hnext s hs).inRoom

/-- The terminal shows a text. -/
def shows (text : Bytes) : Event := ⟨.terminal, some text, 1, true, []⟩

/-- The counters and the size of the block. -/
def Next.counters : Next → Option (ℕ × ℕ × ℕ × ℕ)
  | .again s => some (s.diff, s.rem, s.len, s.tempstr.length)
  | _ => none

set_option maxRecDepth 10000 in
/-- The buffer is filled, and a prompt that comes later empties it. -/
example : (run id [shows (List.replicate 250 120)] start).toOption.bind Next.counters =
      some (199, 201, 400, 400) ∧
    (run id [shows (List.replicate 250 120), shows (ascii "Password: ")] start).toOption.bind
      Next.counters = some (0, 200, 400, 400) := by decide

end Gftp.LoginBuffer
