import Gftp.LineReader
import Mathlib.Logic.Relation

/-!
Where gftp_get_line reads and writes in its buffer, for a stream of arbitrary bytes. A
step is the first read of a buffer or one iteration of the loop, with the read it asks
for and the places at which it stores a terminator. The calls run these steps, and all
of them stay inside the buffer exactly when no refill that abandons unread bytes at a
NUL gets more than the room behind the counted length.
-/

namespace Gftp.LineBounds

open ByteStrings ByteStreams LineReader

variable {ε : Type}

/-- The buffer and the stream between two steps. -/
abbrev Head (ε : Type) := Option GetlineBuffer × Stream ε

/-- A step returns from its call or goes back to the top of the loop. asked is the
position and the size of its read, and stored are the places of its terminators. -/
structure Stepped (ε : Type) where
  outcome : LineResult ε ⊕ (GetlineBuffer × Stream ε)
  asked : Option (ℕ × ℕ)
  stored : List ℕ

/-- What the next step starts from, in this call or in the next. -/
def Stepped.next (st : Stepped ε) : Head ε :=
  match st.outcome with
  | .inl res => (res.rbuf, res.stream)
  | .inr (b, s) => (some b, s)

@[simp] theorem next_inl (res : LineResult ε) (asked : Option (ℕ × ℕ)) (stored : List ℕ) :
    Stepped.next { outcome := .inl res, asked := asked, stored := stored } =
      (res.rbuf, res.stream) := rfl

@[simp] theorem next_inr (b : GetlineBuffer) (s : Stream ε) (asked : Option (ℕ × ℕ))
    (stored : List ℕ) :
    Stepped.next { outcome := .inr (b, s), asked := asked, stored := stored } = (some b, s) := rfl

def firstStep (len : ℕ) (s : Stream ε) : CRun (Stepped ε) :=
  match readSome len s with
  | (.error e, s) =>
      .ok { outcome := .inl { ret := .error e, str := [], rbuf := none, stream := s }
            asked := some (0, len), stored := [] }
  | (.ok d, s) =>
      if d = [] then
        .ok { outcome := .inl { ret := .ok 0, str := [], rbuf := none, stream := s }
              asked := some (0, len), stored := [] }
      else do
        let buffer ← overwrite (List.replicate (len + 1) 0) 0 d
        let buffer ← overwrite buffer d.length [0]
        return { outcome := .inr ({ buffer := buffer, curpos := 0, maxBufsize := len,
                                    curBufsize := d.length, eof := false }, s)
                 asked := some (0, len), stored := [d.length] }

/-- The iteration that finds no line and no full buffer. -/
def refillStep (b : GetlineBuffer) (s : Stream ε) : CRun (Stepped ε) := do
  let (buffer, base, rlen) ← compact b
  let asked := if b.eof then none else some (base, rlen)
  match if b.eof then (.ok [], s) else readSome rlen s with
  | (.error e, s) =>
      return { outcome := .inl { ret := .error e, str := [], rbuf := none, stream := s }
               asked := asked, stored := [] }
  | (.ok d, s) =>
      if d = [] ∧ b.curBufsize = 0 then
        return { outcome := .inl { ret := .ok 0, str := [], rbuf := none, stream := s }
                 asked := asked, stored := [] }
      else
        let b' ← refill b buffer base d
        return { outcome := .inr (b', s), asked := asked, stored := [b.curBufsize + d.length] }

def EndOfBuffer (b : GetlineBuffer) : Prop :=
  b.curpos = 0 ∧ (b.maxBufsize = b.curBufsize ∨ b.eof = true)

instance (b : GetlineBuffer) : Decidable (EndOfBuffer b) :=
  inferInstanceAs (Decidable (b.curpos = 0 ∧ (b.maxBufsize = b.curBufsize ∨ b.eof = true)))

def loopStep (len : ℕ) (b : GetlineBuffer) (s : Stream ε) : CRun (Stepped ε) := do
  let pos ← strchr b.buffer b.curpos 10
  if 0 < b.curBufsize ∧ (pos ≠ none ∨ EndOfBuffer b) then
    match pos with
    | some p =>
        let res ← takeLine len b s p
        return { outcome := .inl res, asked := none,
                 stored := [if b.curpos < p ∧ b.buffer[p - 1]? = some 13 then p - 1 else p] }
    | none =>
        let res ← takeAll len b s
        return { outcome := .inl res, asked := none, stored := [b.curBufsize] }
  else refillStep b s

def headStep (len : ℕ) : Head ε → CRun (Stepped ε)
  | (none, s) => firstStep len s
  | (some b, s) => loopStep len b s

/-- One step between two heads. -/
def HeadStep (len : ℕ) (h h' : Head ε) : Prop := ∃ st, headStep len h = .ok st ∧ st.next = h'

/-- What is reached from the first call on a stream by any number of calls. -/
def Reached (len : ℕ) (s : Stream ε) (h : Head ε) : Prop :=
  Relation.ReflTransGen (HeadStep len) (none, s) h

section Calls

private theorem refill_eq_step (len fuel : ℕ) (b : GetlineBuffer) (s : Stream ε) :
    ((compact b).bind fun x =>
      match if b.eof then (.ok [], s) else readSome x.2.2 s with
      | (.error e, s) => .ok { ret := .error e, str := [], rbuf := none, stream := s }
      | (.ok d, s) =>
          if d = [] ∧ b.curBufsize = 0 then
            .ok { ret := .ok 0, str := [], rbuf := none, stream := s }
          else (refill b x.1 x.2.1 d).bind fun b => getLineLoop len fuel b s) =
      (refillStep b s).bind fun st =>
        match st.outcome with
        | .inl res => .ok res
        | .inr (b, s) => getLineLoop len fuel b s := by
  unfold refillStep
  cases compact b with
  | error e => rfl
  | ok x =>
    obtain ⟨buffer, base, rlen⟩ := x
    simp only [CRun.ok_bind, Except.bind]
    cases (if b.eof then ((.ok [], s) : Except ε Bytes × Stream ε) else readSome rlen s) with
    | mk r s' =>
      cases r with
      | error e => rfl
      | ok d =>
        dsimp only
        by_cases hstop : d = [] ∧ b.curBufsize = 0
        · rw [if_pos hstop, if_pos hstop]
          rfl
        · rw [if_neg hstop, if_neg hstop]
          cases refill b buffer base d <;> rfl

theorem getLineLoop_step (len fuel : ℕ) (b : GetlineBuffer) (s : Stream ε) :
    getLineLoop len (fuel + 1) b s = (loopStep len b s).bind fun st =>
      match st.outcome with
      | .inl res => .ok res
      | .inr (b, s) => getLineLoop len fuel b s := by
  conv_lhs => unfold getLineLoop
  unfold loopStep
  cases strchr b.buffer b.curpos 10 with
  | error e => rfl
  | ok pos =>
    simp only [CRun.ok_bind]
    by_cases hreturn : 0 < b.curBufsize ∧ (pos ≠ none ∨ b.curpos = 0 ∧
        (b.maxBufsize = b.curBufsize ∨ b.eof = true))
    · rw [if_pos hreturn, if_pos (show 0 < b.curBufsize ∧ (pos ≠ none ∨ EndOfBuffer b) from
        hreturn)]
      cases pos with
      | some p =>
        dsimp only
        cases takeLine len b s p <;> rfl
      | none =>
        dsimp only
        cases takeAll len b s <;> rfl
    · rw [if_neg hreturn, if_neg (show ¬ (0 < b.curBufsize ∧ (pos ≠ none ∨ EndOfBuffer b)) from
        hreturn)]
      exact refill_eq_step len fuel b s

theorem gftpGetLine_step (len : ℕ) (s : Stream ε) :
    gftpGetLine none len s = (firstStep len s).bind fun st =>
      match st.outcome with
      | .inl res => .ok res
      | .inr (b, s) => getLineLoop len (readBound s + 2) b s := by
  unfold gftpGetLine firstStep
  cases readSome len s with
  | mk r s' =>
    cases r with
    | error e => rfl
    | ok d =>
      dsimp only
      split_ifs
      · rfl
      · cases overwrite (List.replicate (len + 1) 0) 0 d with
        | error e => rfl
        | ok buffer =>
          simp only [CRun.ok_bind]
          cases overwrite buffer d.length [0] <;> rfl

/-- A call that returns has made steps up to the head it leaves. -/
theorem getLineLoop_reaches {len fuel : ℕ} {b : GetlineBuffer} {s : Stream ε}
    {res : LineResult ε} (h : getLineLoop len fuel b s = .ok res) :
    Relation.ReflTransGen (HeadStep len) (some b, s) (res.rbuf, res.stream) := by
  induction fuel generalizing b s with
  | zero => simp [getLineLoop] at h
  | succ fuel ih =>
    rw [getLineLoop_step] at h
    obtain ⟨st, hstep, h⟩ := CRun.bind_eq_ok.mp h
    have hhead : HeadStep len (some b, s) st.next := ⟨st, hstep, rfl⟩
    unfold Stepped.next at hhead
    cases hout : st.outcome with
    | inl res' =>
      rw [hout] at h hhead
      obtain rfl := Except.ok.inj h
      exact Relation.ReflTransGen.single hhead
    | inr x =>
      rw [hout] at h hhead
      exact Relation.ReflTransGen.head hhead (ih h)

theorem gftpGetLine_reaches {len : ℕ} {rbuf : Option GetlineBuffer} {s : Stream ε}
    {res : LineResult ε} (h : gftpGetLine rbuf len s = .ok res) :
    Relation.ReflTransGen (HeadStep len) (rbuf, s) (res.rbuf, res.stream) := by
  cases rbuf with
  | some b => exact getLineLoop_reaches h
  | none =>
    rw [gftpGetLine_step] at h
    obtain ⟨st, hstep, h⟩ := CRun.bind_eq_ok.mp h
    have hhead : HeadStep len (none, s) st.next := ⟨st, hstep, rfl⟩
    unfold Stepped.next at hhead
    cases hout : st.outcome with
    | inl res' =>
      rw [hout] at h hhead
      obtain rfl := Except.ok.inj h
      exact Relation.ReflTransGen.single hhead
    | inr x =>
      rw [hout] at h hhead
      exact Relation.ReflTransGen.head hhead (getLineLoop_reaches h)

end Calls

section Bounds

/-- The unread bytes lie inside the buffer. -/
def HeadBounded (len : ℕ) (h : Head ε) : Prop :=
  ∀ b, h.1 = some b → b.curpos + b.curBufsize ≤ b.maxBufsize ∧ b.maxBufsize = len

/-- A read asks for at least one byte and at most the room behind its position, and every
terminator is stored inside the len + 1 bytes. -/
def Inside (len : ℕ) (st : Stepped ε) : Prop :=
  (∀ pos size, st.asked = some (pos, size) → 0 < size ∧ pos + size ≤ len) ∧
    ∀ i ∈ st.stored, i ≤ len

/-- The next step leaves no block and stays inside the buffer. -/
def StepSound (len : ℕ) (h : Head ε) : Prop := ∃ st, headStep len h = .ok st ∧ Inside len st

/-- The step does not read behind bytes that were counted before a NUL more than there is
room for. -/
def StepFits (h : Head ε) : Prop :=
  ∀ b, h.1 = some b → 0 < b.curBufsize → b.buffer[b.curpos]? = some 0 → ¬ EndOfBuffer b →
    b.eof = false → ∀ d s, readSome b.maxBufsize h.2 = (.ok d, s) →
      b.curBufsize + d.length ≤ b.maxBufsize

/-- What holds of the buffer before every step. -/
structure Bounded (len : ℕ) (b : GetlineBuffer) : Prop where
  size : b.buffer.length = len + 1
  max : b.maxBufsize = len
  room : b.curpos + b.curBufsize ≤ len
  ends : 0 < b.curBufsize → b.buffer[b.curpos + b.curBufsize]? = some 0
  nul : 0 ∈ b.buffer.drop b.curpos

theorem overwrite_getElem {block src out : Bytes} {off i : ℕ}
    (h : overwrite block off src = .ok out) (hi : i < off ∨ off + src.length ≤ i) :
    out[i]? = block[i]? := by
  obtain ⟨hle, rfl⟩ := overwrite_eq_ok_iff.mp h
  have htake : (block.take off).length = off := List.length_take_of_le (by omega)
  rcases hi with hlt | hge
  · rw [List.getElem?_append_left (by omega), List.getElem?_take_of_lt hlt]
  · rw [List.getElem?_append_right (by omega), List.getElem?_append_right (by omega),
      List.getElem?_drop]
    congr 1
    omega

theorem overwrite_stored {block out : Bytes} {off : ℕ} {c : UInt8}
    (h : overwrite block off [c] = .ok out) : out[off]? = some c := by
  obtain ⟨hle, rfl⟩ := overwrite_eq_ok_iff.mp h
  rw [List.length_singleton] at hle
  have htake : (block.take off).length = off := List.length_take_of_le (by omega)
  rw [List.getElem?_append_right (by omega), htake, Nat.sub_self]
  rfl

theorem nul_mem_drop {block : Bytes} {i k : ℕ} (h : block[i]? = some 0) (hk : k ≤ i) :
    0 ∈ block.drop k := by
  apply List.mem_of_getElem? (i := i - k)
  rw [List.getElem?_drop, Nat.add_sub_cancel' hk, h]

theorem cstr_length_le_of_nul {l : Bytes} {i : ℕ} (h : l[i]? = some 0) :
    (cstr l).length ≤ i := by
  induction l generalizing i with
  | nil => simp at h
  | cons c l ih =>
    cases i with
    | zero =>
      obtain rfl : c = 0 := by simpa using h
      simp [cstr]
    | succ i =>
      have hl := ih (show l[i]? = some 0 by simpa using h)
      unfold cstr at hl ⊢
      rw [List.takeWhile_cons]
      split_ifs
      · simpa using hl
      · exact Nat.zero_le _

/-- The search for a newline ends at the terminator behind the counted bytes. -/
theorem strchr_bounded {b : GetlineBuffer} {len : ℕ} (h : Bounded len b) :
    ∃ pos, strchr b.buffer b.curpos 10 = .ok pos ∧ ∀ p, pos = some p → b.curpos ≤ p ∧
      (0 < b.curBufsize → p < b.curpos + b.curBufsize) := by
  unfold strchr
  dsimp only
  rw [if_pos h.nul]
  refine ⟨_, rfl, ?_⟩
  intro p hp
  split_ifs at hp with hmem
  obtain rfl := Option.some.inj hp
  refine ⟨Nat.le_add_right _ _, fun hpos => ?_⟩
  have hidx : (cstr (b.buffer.drop b.curpos)).idxOf 10 < (cstr (b.buffer.drop b.curpos)).length :=
    List.idxOf_lt_length_of_mem hmem
  have hcstr : (cstr (b.buffer.drop b.curpos)).length ≤ b.curBufsize :=
    cstr_length_le_of_nul (by rw [List.getElem?_drop, h.ends hpos])
  omega

theorem strchr_nul {b : GetlineBuffer} (h : b.buffer[b.curpos]? = some 0) :
    strchr b.buffer b.curpos 10 = .ok none := by
  have hcstr : cstr (b.buffer.drop b.curpos) = [] := by
    apply List.eq_nil_of_length_eq_zero
    apply Nat.le_zero.mp
    apply cstr_length_le_of_nul
    rw [List.getElem?_drop, Nat.add_zero, h]
  unfold strchr
  dsimp only
  rw [if_pos (nul_mem_drop h (Nat.le_refl _)), hcstr, if_neg (by simp)]

theorem takeLine_bounded {b : GetlineBuffer} {len p : ℕ} {s : Stream ε} (h : Bounded len b)
    (hpos : 0 < b.curBufsize) (hlow : b.curpos ≤ p) (hp : p < b.curpos + b.curBufsize) :
    ∃ res, takeLine len b s p = .ok res ∧ ∀ b', res.rbuf = some b' → Bounded len b' := by
  have hroom := h.room
  have hsize := h.size
  obtain ⟨cut, hcut, hle⟩ : ∃ cut, (if b.curpos < p ∧ b.buffer[p - 1]? = some 13 then p - 1 else p) =
      cut ∧ cut ≤ p := by
    refine ⟨_, rfl, ?_⟩
    split_ifs <;> omega
  obtain ⟨buffer, hbuffer⟩ : ∃ buffer, overwrite b.buffer cut [0] = .ok buffer :=
    ⟨_, overwrite_ok (by rw [List.length_singleton]; omega)⟩
  have hend : buffer[b.curpos + b.curBufsize]? = some 0 := by
    rw [overwrite_getElem hbuffer (Or.inr (by rw [List.length_singleton]; omega)), h.ends hpos]
  have hcount : sizeSub b.curBufsize (p - b.curpos + 1) = b.curpos + b.curBufsize - (p + 1) := by
    rw [sizeSub, if_pos (by omega)]
    omega
  simp only [takeLine, hcut, hbuffer, CRun.ok_bind]
  refine ⟨_, rfl, ?_⟩
  rintro b' hb'
  obtain rfl := Option.some.inj hb'
  constructor
  · rw [← hsize]
    exact overwrite_length hbuffer
  · exact h.max
  · show p + 1 + sizeSub _ _ ≤ len
    rw [hcount]
    omega
  · intro _
    show buffer[p + 1 + sizeSub _ _]? = some 0
    rw [hcount, show p + 1 + (b.curpos + b.curBufsize - (p + 1)) =
      b.curpos + b.curBufsize by omega]
    exact hend
  · apply nul_mem_drop hend
    show p + 1 ≤ b.curpos + b.curBufsize
    omega

theorem takeAll_bounded {b : GetlineBuffer} {len : ℕ} {s : Stream ε} (h : Bounded len b)
    (hzero : b.curpos = 0) :
    ∃ res, takeAll len b s = .ok res ∧ ∀ b', res.rbuf = some b' → Bounded len b' := by
  have hroom := h.room
  have hsize := h.size
  obtain ⟨buffer, hbuffer⟩ : ∃ buffer, overwrite b.buffer b.curBufsize [0] = .ok buffer :=
    ⟨_, overwrite_ok (by rw [List.length_singleton]; omega)⟩
  simp only [takeAll, hbuffer, CRun.ok_bind]
  refine ⟨_, rfl, ?_⟩
  rintro b' hb'
  obtain rfl := Option.some.inj hb'
  constructor
  · rw [← hsize]
    exact overwrite_length hbuffer
  · exact h.max
  · show b.curpos + 0 ≤ len
    omega
  · intro hpos
    exact absurd hpos (Nat.lt_irrefl 0)
  · apply nul_mem_drop (overwrite_stored hbuffer)
    show b.curpos ≤ b.curBufsize
    omega

/-- Storing a read with its terminator leaves the block exactly when the terminator has
no room. -/
theorem refill_cases {b : GetlineBuffer} {len base : ℕ} {buffer d : Bytes}
    (hmax : b.maxBufsize = len) (hsize : buffer.length = len + 1)
    (hbase : base + d.length ≤ len) :
    (b.curBufsize + d.length ≤ len ∧ ∃ b', refill b buffer base d = .ok b' ∧ Bounded len b') ∨
    (len < b.curBufsize + d.length ∧ refill b buffer base d = .error .fault) := by
  obtain ⟨stored, hstored⟩ : ∃ stored, overwrite buffer base d = .ok stored :=
    ⟨_, overwrite_ok (by omega)⟩
  have hlen : stored.length = len + 1 := by
    rw [overwrite_length hstored, hsize]
  rcases Nat.lt_or_ge len (b.curBufsize + d.length) with hover | hroom
  · refine Or.inr ⟨hover, ?_⟩
    simp only [refill, hstored, CRun.ok_bind]
    rw [overwrite_fault (by rw [List.length_singleton]; omega)]
    rfl
  · obtain ⟨ended, hended⟩ : ∃ ended, overwrite stored (b.curBufsize + d.length) [0] = .ok ended :=
      ⟨_, overwrite_ok (by rw [List.length_singleton]; omega)⟩
    have hend := overwrite_stored hended
    refine Or.inl ⟨hroom, ?_⟩
    simp only [refill, hstored, hended, CRun.ok_bind]
    refine ⟨_, rfl, ?_⟩
    constructor
    · rw [← hlen]
      exact overwrite_length hended
    · exact hmax
    · show 0 + (b.curBufsize + d.length) ≤ len
      omega
    · intro _
      show ended[0 + (b.curBufsize + d.length)]? = some 0
      rw [Nat.zero_add, hend]
    · exact nul_mem_drop hend (Nat.zero_le _)

/-- Where the read of a refill goes and how much it asks for. -/
theorem compact_bounded {b : GetlineBuffer} {len : ℕ} (h : Bounded len b) (hlen : 0 < len)
    (hend : 0 < b.curBufsize → ¬ EndOfBuffer b) :
    ∃ buffer base rlen, compact b = .ok (buffer, base, rlen) ∧ buffer.length = len + 1 ∧
      0 < rlen ∧ base + rlen ≤ len ∧
      ((b.curBufsize + rlen ≤ len ∧ ¬ (0 < b.curBufsize ∧ b.buffer[b.curpos]? = some 0)) ∨
        (0 < b.curBufsize ∧ b.buffer[b.curpos]? = some 0 ∧ rlen = b.maxBufsize)) := by
  have hroom := h.room
  have hmax := h.max
  unfold compact
  by_cases hreset : b.curBufsize = 0 ∨ b.buffer[b.curpos]? = some 0
  · rw [if_pos hreset]
    refine ⟨b.buffer, 0, b.maxBufsize, rfl, h.size, by omega, by omega, ?_⟩
    rcases Nat.eq_zero_or_pos b.curBufsize with hzero | hpos
    · exact Or.inl ⟨by omega, fun h => by omega⟩
    · exact Or.inr ⟨hpos, hreset.resolve_left (by omega), rfl⟩
  · obtain ⟨hcount, hbyte⟩ := not_or.mp hreset
    have hpos : 0 < b.curBufsize := Nat.pos_of_ne_zero hcount
    have hroomLeft : b.curBufsize < len := by
      by_contra hfull
      exact hend hpos ⟨by omega, Or.inl (by omega)⟩
    have hsize := h.size
    obtain ⟨buffer, hbuffer⟩ : ∃ buffer,
        overwrite b.buffer 0 ((b.buffer.drop b.curpos).take b.curBufsize) = .ok buffer :=
      ⟨_, overwrite_ok (by rw [List.length_take, List.length_drop]; omega)⟩
    rw [if_neg hreset, if_pos (by omega), hbuffer, CRun.ok_bind, sizeSub, if_pos (by omega)]
    refine ⟨buffer, b.curBufsize, b.maxBufsize - b.curBufsize, rfl, ?_, by omega, by omega,
      Or.inl ⟨by omega, fun h => hbyte h.2⟩⟩
    rw [overwrite_length hbuffer, hsize]

/-- The head a step leaves is bounded again. -/
def LeavesBounded (len : ℕ) (st : Stepped ε) : Prop := ∀ b, st.next.1 = some b → Bounded len b

theorem leavesBounded_none {len : ℕ} {res : LineResult ε} (asked : Option (ℕ × ℕ))
    (stored : List ℕ) (hres : res.rbuf = none) :
    LeavesBounded len { outcome := .inl res, asked := asked, stored := stored } := by
  intro b hb
  rw [next_inl, hres] at hb
  simp at hb

/-- Behind the read of a refill the bytes are stored, unless the stream is at its end and
nothing was counted. -/
private theorem afterRead_cases {b : GetlineBuffer} {len base : ℕ} {buffer d : Bytes}
    (s : Stream ε) {asked : Option (ℕ × ℕ)} (hmax : b.maxBufsize = len)
    (hsize : buffer.length = len + 1) (hbase : base + d.length ≤ len)
    (hasked : ∀ pos size, asked = some (pos, size) → 0 < size ∧ pos + size ≤ len) :
    let step : CRun (Stepped ε) :=
      if d = [] ∧ b.curBufsize = 0 then
        return { outcome := .inl { ret := .ok 0, str := [], rbuf := none, stream := s }
                 asked := asked, stored := [] }
      else do
        let b' ← refill b buffer base d
        return { outcome := .inr (b', s), asked := asked, stored := [b.curBufsize + d.length] }
    (b.curBufsize + d.length ≤ len ∧
      ∃ st, step = .ok st ∧ Inside len st ∧ LeavesBounded len st) ∨
    (len < b.curBufsize + d.length ∧ step = .error .fault) := by
  intro step
  by_cases hstop : d = [] ∧ b.curBufsize = 0
  · have hstep : step = .ok { outcome := .inl { ret := .ok 0, str := [], rbuf := none, stream := s }
                              asked := asked, stored := [] } := if_pos hstop
    refine Or.inl ⟨?_, _, hstep, ⟨hasked, by simp⟩, leavesBounded_none _ _ rfl⟩
    rw [hstop.1, hstop.2]
    exact Nat.zero_le _
  · have hstep : step = (refill b buffer base d).bind fun b' => .ok
        { outcome := .inr (b', s), asked := asked, stored := [b.curBufsize + d.length] } :=
      if_neg hstop
    rcases refill_cases hmax hsize hbase with ⟨hroom, b', hrefill, hbounded⟩ | ⟨hover, hrefill⟩
    · rw [hrefill] at hstep
      refine Or.inl ⟨hroom, _, hstep, ⟨hasked, ?_⟩, ?_⟩
      · simpa using hroom
      · intro b'' hb''
        rw [next_inr] at hb''
        obtain rfl := Option.some.inj hb''
        exact hbounded
    · rw [hrefill] at hstep
      exact Or.inr ⟨hover, hstep⟩

/-- A refill stays inside the buffer exactly when it fits. -/
theorem refillStep_cases {b : GetlineBuffer} {len : ℕ} (s : Stream ε) (h : Bounded len b)
    (hlen : 0 < len) (hend : 0 < b.curBufsize → ¬ EndOfBuffer b) :
    (StepFits (some b, s) ∧
      ∃ st, refillStep b s = .ok st ∧ Inside len st ∧ LeavesBounded len st) ∨
    (¬ StepFits (some b, s) ∧ refillStep b s = .error .fault) := by
  obtain ⟨buffer, base, rlen, hcompact, hsize, hrlen, hbase, hkind⟩ := compact_bounded h hlen hend
  have hroom := h.room
  have hmax := h.max
  have hasked : ∀ pos size, (if b.eof then none else some (base, rlen)) = some (pos, size) →
      0 < size ∧ pos + size ≤ len := by
    intro pos size hsome
    split_ifs at hsome
    obtain ⟨rfl, rfl⟩ := Prod.mk.inj (Option.some.inj hsome)
    exact ⟨hrlen, hbase⟩
  simp only [refillStep, hcompact, CRun.ok_bind]
  cases heof : b.eof with
  | true =>
    rw [heof] at hasked
    have hfits : StepFits (some b, s) := by
      intro b' hb' _ _ _ hlive
      obtain rfl := Option.some.inj hb'
      rw [heof] at hlive
      simp at hlive
    rcases afterRead_cases s hmax hsize (show base + ([] : Bytes).length ≤ len by simp; omega)
      hasked with ⟨_, hstep⟩ | ⟨hover, _⟩
    · exact Or.inl ⟨hfits, hstep⟩
    · rw [List.length_nil] at hover
      omega
  | false =>
    rw [heof] at hasked
    simp only [Bool.false_eq_true, if_false] at hasked ⊢
    cases hread : readSome rlen s with
    | mk r s' =>
      have hfits_iff : StepFits (some b, s) ↔
          ∀ d, r = .ok d → b.curBufsize + d.length ≤ len := by
        rcases hkind with ⟨hle, hno⟩ | ⟨hpos, hnul, rfl⟩
        · refine iff_of_true ?_ ?_
          · intro b' hb' hpos hnul
            obtain rfl := Option.some.inj hb'
            exact absurd ⟨hpos, hnul⟩ hno
          · rintro d rfl
            have hd := readSome_length hread
            omega
        · constructor
          · rintro hfits d rfl
            have hle := hfits b rfl hpos hnul (hend hpos) heof d s' hread
            omega
          · intro hall b' hb' _ _ _ _ d s'' hread'
            obtain rfl := Option.some.inj hb'
            have hle := hall d (Prod.mk.inj (hread.symm.trans hread')).1
            omega
      cases r with
      | error e =>
        refine Or.inl ⟨hfits_iff.mpr (by simp), _, rfl, ⟨hasked, by simp⟩,
          leavesBounded_none _ _ rfl⟩
      | ok d =>
        have hd := readSome_length hread
        rcases afterRead_cases s' hmax hsize (show base + d.length ≤ len by omega) hasked with
          ⟨hfit, hstep⟩ | ⟨hover, hstep⟩
        · refine Or.inl ⟨hfits_iff.mpr ?_, hstep⟩
          rintro d' hd'
          obtain rfl := Except.ok.inj hd'
          exact hfit
        · refine Or.inr ⟨fun hfits => ?_, hstep⟩
          have hle := hfits_iff.mp hfits d rfl
          omega

/-- A step from a bounded head stays inside the buffer exactly when it fits. -/
theorem loopStep_cases {b : GetlineBuffer} {len : ℕ} (s : Stream ε) (h : Bounded len b)
    (hlen : 0 < len) :
    (StepFits (some b, s) ∧
      ∃ st, loopStep len b s = .ok st ∧ Inside len st ∧ LeavesBounded len st) ∨
    (¬ StepFits (some b, s) ∧ loopStep len b s = .error .fault) := by
  obtain ⟨pos, hpos, hfound⟩ := strchr_bounded h
  have hroom := h.room
  simp only [loopStep, hpos, CRun.ok_bind]
  by_cases hreturn : 0 < b.curBufsize ∧ (pos ≠ none ∨ EndOfBuffer b)
  · rw [if_pos hreturn]
    have hfits : StepFits (some b, s) := by
      intro b' hb' hcount hnul hnotEnd
      obtain rfl := Option.some.inj hb'
      obtain rfl : pos = none := Except.ok.inj (hpos.symm.trans (strchr_nul hnul))
      exact absurd (hreturn.2.resolve_left (by simp)) hnotEnd
    refine Or.inl ⟨hfits, ?_⟩
    cases pos with
    | some p =>
      obtain ⟨hlow, hhigh⟩ := hfound p rfl
      obtain ⟨res, htake, hbounded⟩ := @takeLine_bounded _ _ _ _ s h hreturn.1 hlow
        (hhigh hreturn.1)
      have hp := hhigh hreturn.1
      simp only [htake, CRun.ok_bind]
      refine ⟨_, rfl, ⟨by simp, ?_⟩, hbounded⟩
      intro i hi
      rw [List.mem_singleton] at hi
      split_ifs at hi <;> omega
    | none =>
      have hzero := (hreturn.2.resolve_left (by simp)).1
      obtain ⟨res, htake, hbounded⟩ := @takeAll_bounded _ _ _ s h hzero
      simp only [htake, CRun.ok_bind]
      refine ⟨_, rfl, ⟨by simp, ?_⟩, hbounded⟩
      intro i hi
      rw [List.mem_singleton] at hi
      omega
  · rw [if_neg hreturn]
    exact refillStep_cases s h hlen fun hcount hendOf => hreturn ⟨hcount, Or.inr hendOf⟩

theorem firstStep_sound {len : ℕ} (s : Stream ε) (hlen : 0 < len) :
    ∃ st, firstStep len s = .ok st ∧ Inside len st ∧ LeavesBounded len st := by
  have hasked : ∀ pos size, some (0, len) = some (pos, size) → 0 < size ∧ pos + size ≤ len := by
    intro pos size hsome
    obtain ⟨rfl, rfl⟩ := Prod.mk.inj (Option.some.inj hsome)
    omega
  unfold firstStep
  cases hread : readSome len s with
  | mk r s' =>
    cases r with
    | error e => exact ⟨_, rfl, ⟨hasked, by simp⟩, leavesBounded_none _ _ rfl⟩
    | ok d =>
      have hd := readSome_length hread
      dsimp only
      split_ifs with hnil
      · exact ⟨_, rfl, ⟨hasked, by simp⟩, leavesBounded_none _ _ rfl⟩
      · have hstored := @refill_cases
          { buffer := [], curpos := 0, maxBufsize := len, curBufsize := 0, eof := false } len 0
          (List.replicate (len + 1) 0) d rfl List.length_replicate (by omega)
        rcases hstored with ⟨_, b, hrefill, hbounded⟩ | ⟨hover, _⟩
        · obtain ⟨stored, hstored, hrefill⟩ := CRun.bind_eq_ok.mp hrefill
          obtain ⟨ended, hended, hrefill⟩ := CRun.bind_eq_ok.mp hrefill
          obtain rfl := Except.ok.inj hrefill
          simp only [Nat.zero_add] at hended hbounded
          rw [hstored, CRun.ok_bind, hended, CRun.ok_bind]
          refine ⟨_, rfl, ⟨hasked, by simpa using hd⟩, ?_⟩
          intro b' hb'
          obtain rfl := Option.some.inj hb'
          rwa [List.isEmpty_eq_false_iff.mpr hnil] at hbounded
        · simp only [Nat.zero_add] at hover
          omega

theorem firstStep_asked {len : ℕ} {s : Stream ε} {st : Stepped ε}
    (h : firstStep len s = .ok st) : st.asked = some (0, len) := by
  unfold firstStep at h
  split at h
  · obtain rfl := Except.ok.inj h
    rfl
  · split_ifs at h
    · obtain rfl := Except.ok.inj h
      rfl
    · obtain ⟨_, _, h⟩ := CRun.bind_eq_ok.mp h
      obtain ⟨_, _, h⟩ := CRun.bind_eq_ok.mp h
      obtain rfl := Except.ok.inj h
      rfl

/-- A head that calls leave is bounded as long as every step fits. -/
def HeadInv (len : ℕ) (h : Head ε) : Prop := ∀ b, h.1 = some b → Bounded len b

theorem headStep_cases {len : ℕ} {h : Head ε} (hinv : HeadInv len h) (hlen : 0 < len) :
    (StepFits h ∧ ∃ st, headStep len h = .ok st ∧ Inside len st ∧ HeadInv len st.next) ∨
    (¬ StepFits h ∧ headStep len h = .error .fault) := by
  obtain ⟨b, s⟩ := h
  cases b with
  | none =>
    refine Or.inl ⟨?_, firstStep_sound s hlen⟩
    intro b hb
    simp at hb
  | some b => exact loopStep_cases s (hinv b rfl) hlen

theorem stepSound_iff {len : ℕ} {h : Head ε} (hinv : HeadInv len h) (hlen : 0 < len) :
    StepSound len h ↔ StepFits h := by
  rcases headStep_cases hinv hlen with ⟨hfits, st, hst, hinside, _⟩ | ⟨hover, hfault⟩
  · exact iff_of_true ⟨st, hst, hinside⟩ hfits
  · refine iff_of_false ?_ hover
    rintro ⟨st, hst, _⟩
    rw [hfault] at hst
    simp at hst

theorem headInv_step {len : ℕ} {h h' : Head ε} (hinv : HeadInv len h) (hlen : 0 < len)
    (hstep : HeadStep len h h') : HeadInv len h' := by
  obtain ⟨st, hst, rfl⟩ := hstep
  rcases headStep_cases hinv hlen with ⟨_, st', hst', _, hnext⟩ | ⟨_, hfault⟩
  · obtain rfl := Except.ok.inj (hst.symm.trans hst')
    exact hnext
  · rw [hfault] at hst
    simp at hst

theorem reached_headInv {len : ℕ} {s : Stream ε} {h : Head ε} (hlen : 0 < len)
    (hreached : Reached len s h) : HeadInv len h := by
  induction hreached with
  | refl =>
    intro b hb
    simp at hb
  | tail _ hstep ih => exact headInv_step ih hlen hstep

theorem headInv_bounded {len : ℕ} {h : Head ε} (hinv : HeadInv len h) : HeadBounded len h := by
  intro b hb
  have hbounded := hinv b hb
  exact ⟨hbounded.max ▸ hbounded.room, hbounded.max⟩

end Bounds

section NulFree

/-- Neither the bytes counted nor those still to be read hold a NUL. -/
structure NulFree (h : Head ε) : Prop where
  counted : ∀ b, h.1 = some b → ∀ i < b.curBufsize, b.buffer[b.curpos + i]? ≠ some 0
  unread : 0 ∉ contents h.2

theorem NulFree.fits {h : Head ε} (hfree : NulFree h) : StepFits h := by
  intro b hb hpos hnul
  exact absurd hnul (hfree.counted b hb 0 hpos)

theorem readSome_free {n : ℕ} {s s' : Stream ε} {r : Except ε Bytes}
    (h : readSome n s = (r, s')) (hfree : 0 ∉ contents s) :
    0 ∉ contents s' ∧ ∀ d, r = .ok d → 0 ∉ d := by
  cases r with
  | error e => exact ⟨readSome_error h ▸ hfree, nofun⟩
  | ok d =>
    rw [readSome_contents h, List.mem_append, not_or] at hfree
    refine ⟨hfree.2, fun d' hd => ?_⟩
    rw [← Except.ok.inj hd]
    exact hfree.1

theorem overwrite_copied {block src out : Bytes} {off i : ℕ}
    (h : overwrite block off src = .ok out) (hi : i < src.length) : out[off + i]? = src[i]? := by
  obtain ⟨hle, rfl⟩ := overwrite_eq_ok_iff.mp h
  have htake : (block.take off).length = off := List.length_take_of_le (by omega)
  rw [List.getElem?_append_right (by omega), htake, Nat.add_sub_cancel_left,
    List.getElem?_append_left hi]

/-- The bytes that a refill counts are those counted before it and those read. -/
theorem refill_free {b b' : GetlineBuffer} {buffer d : Bytes}
    (h : refill b buffer b.curBufsize d = .ok b') (hd : 0 ∉ d)
    (hold : ∀ i < b.curBufsize, buffer[i]? ≠ some 0) :
    ∀ i < b'.curBufsize, b'.buffer[b'.curpos + i]? ≠ some 0 := by
  obtain ⟨stored, hstored, h⟩ := CRun.bind_eq_ok.mp h
  obtain ⟨ended, hended, h⟩ := CRun.bind_eq_ok.mp h
  obtain rfl := Except.ok.inj h
  intro i hi
  replace hi : i < b.curBufsize + d.length := hi
  show ended[0 + i]? ≠ some 0
  rw [Nat.zero_add, overwrite_getElem hended (.inl hi)]
  rcases Nat.lt_or_ge i b.curBufsize with hlt | hge
  · rw [overwrite_getElem hstored (.inl hlt)]
    exact hold i hlt
  · obtain ⟨k, rfl⟩ := Nat.exists_eq_add_of_le hge
    rw [overwrite_copied hstored (by omega)]
    exact fun hnul => hd (List.mem_of_getElem? hnul)

/-- Where no NUL is counted the read goes behind the bytes counted. -/
theorem compact_free {b : GetlineBuffer} {buffer : Bytes} {base rlen : ℕ}
    (h : compact b = .ok (buffer, base, rlen))
    (hfree : ∀ i < b.curBufsize, b.buffer[b.curpos + i]? ≠ some 0) :
    base = b.curBufsize ∧ ∀ i < b.curBufsize, buffer[i]? ≠ some 0 := by
  unfold compact at h
  split_ifs at h with hreset hinside
  · have hzero : b.curBufsize = 0 := by
      by_contra hpos
      exact hfree 0 (Nat.pos_of_ne_zero hpos) (hreset.resolve_left hpos)
    obtain ⟨-, rfl, -⟩ : b.buffer = buffer ∧ 0 = base ∧ b.maxBufsize = rlen := by
      simpa using h
    exact ⟨hzero.symm, fun i hi => by omega⟩
  · obtain ⟨moved, hmoved, h⟩ := CRun.bind_eq_ok.mp h
    obtain ⟨rfl, rfl, -⟩ : moved = buffer ∧ b.curBufsize = base ∧ _ = rlen := by
      simpa [pure, Except.pure] using h
    refine ⟨rfl, fun i hi => ?_⟩
    have hcopied := overwrite_copied hmoved (i := i)
      (by rw [List.length_take, List.length_drop]; omega)
    rw [Nat.zero_add, List.getElem?_take_of_lt hi, List.getElem?_drop] at hcopied
    rw [hcopied]
    exact hfree i hi

theorem takeLine_free {b : GetlineBuffer} {len p : ℕ} {s : Stream ε} {res : LineResult ε}
    (h : takeLine len b s p = .ok res) (hlow : b.curpos ≤ p) (hp : p < b.curpos + b.curBufsize)
    (hfree : NulFree (some b, s)) : NulFree (res.rbuf, res.stream) := by
  obtain ⟨buffer, hbuffer, h⟩ := CRun.bind_eq_ok.mp h
  obtain rfl := Except.ok.inj h
  refine ⟨fun b' hb' i hi => ?_, hfree.unread⟩
  obtain rfl := Option.some.inj hb'
  replace hi : i < sizeSub b.curBufsize (p - b.curpos + 1) := hi
  rw [sizeSub, if_pos (by omega)] at hi
  show buffer[p + 1 + i]? ≠ some 0
  rw [overwrite_getElem hbuffer (.inr (by rw [List.length_singleton]; split_ifs <;> omega)),
    show p + 1 + i = b.curpos + (p + 1 + i - b.curpos) by omega]
  exact hfree.counted b rfl _ (by omega)

theorem takeAll_free {b : GetlineBuffer} {len : ℕ} {s : Stream ε} {res : LineResult ε}
    (h : takeAll len b s = .ok res) (hfree : 0 ∉ contents s) : NulFree (res.rbuf, res.stream) := by
  obtain ⟨buffer, -, h⟩ := CRun.bind_eq_ok.mp h
  obtain rfl := Except.ok.inj h
  refine ⟨fun b' hb' i hi => ?_, hfree⟩
  obtain rfl := Option.some.inj hb'
  exact absurd hi (Nat.not_lt_zero i)

theorem refillStep_free {b : GetlineBuffer} {s : Stream ε} {st : Stepped ε}
    (h : refillStep b s = .ok st) (hfree : NulFree (some b, s)) : NulFree st.next := by
  obtain ⟨⟨buffer, base, rlen⟩, hcompact, h⟩ := CRun.bind_eq_ok.mp h
  obtain ⟨rfl, hold⟩ := compact_free hcompact (hfree.counted b rfl)
  dsimp only at h
  obtain ⟨⟨r, s'⟩, hread⟩ : ∃ x, (if b.eof then ((.ok [], s) : Except ε Bytes × Stream ε)
      else readSome rlen s) = x := ⟨_, rfl⟩
  have hrest : 0 ∉ contents s' ∧ ∀ d, r = .ok d → 0 ∉ d := by
    split_ifs at hread
    · obtain ⟨rfl, rfl⟩ := Prod.mk.inj hread
      refine ⟨hfree.unread, fun d hd => ?_⟩
      rw [← Except.ok.inj hd]
      exact List.not_mem_nil
    · exact readSome_free hread hfree.unread
  rw [hread] at h
  cases r with
  | error e =>
    obtain rfl := Except.ok.inj h
    exact ⟨nofun, hrest.1⟩
  | ok d =>
    dsimp only at h
    by_cases hstop : d = [] ∧ b.curBufsize = 0
    · rw [if_pos hstop] at h
      obtain rfl := Except.ok.inj h
      exact ⟨nofun, hrest.1⟩
    · rw [if_neg hstop] at h
      obtain ⟨b', hrefill, h⟩ := CRun.bind_eq_ok.mp h
      obtain rfl := Except.ok.inj h
      refine ⟨fun b'' hb'' => ?_, hrest.1⟩
      obtain rfl := Option.some.inj hb''
      exact refill_free hrefill (hrest.2 d rfl) hold

theorem firstStep_free {len : ℕ} {s : Stream ε} {st : Stepped ε}
    (h : firstStep len s = .ok st) (hfree : 0 ∉ contents s) : NulFree st.next := by
  unfold firstStep at h
  split at h
  · rename_i hread
    obtain rfl := Except.ok.inj h
    exact ⟨nofun, (readSome_free hread hfree).1⟩
  · rename_i d s' hread
    obtain ⟨hrest, hd⟩ := readSome_free hread hfree
    split_ifs at h
    · obtain rfl := Except.ok.inj h
      exact ⟨nofun, hrest⟩
    · obtain ⟨stored, hstored, h⟩ := CRun.bind_eq_ok.mp h
      obtain ⟨ended, hended, h⟩ := CRun.bind_eq_ok.mp h
      obtain rfl := Except.ok.inj h
      refine ⟨fun b hb i hi => ?_, hrest⟩
      obtain rfl := Option.some.inj hb
      have hcopied := overwrite_copied hstored hi
      show ended[0 + i]? ≠ some 0
      rw [Nat.zero_add] at hcopied ⊢
      rw [overwrite_getElem hended (.inl hi), hcopied]
      exact fun hnul => hd d rfl (List.mem_of_getElem? hnul)

/-- A step leaves no NUL where there was none. -/
theorem nulFree_step {len : ℕ} {h h' : Head ε} (hfree : NulFree h) (hinv : HeadInv len h)
    (hstep : HeadStep len h h') : NulFree h' := by
  obtain ⟨st, hst, rfl⟩ := hstep
  obtain ⟨b, s⟩ := h
  cases b with
  | none => exact firstStep_free hst hfree.unread
  | some b =>
    obtain ⟨pos, hpos, hfound⟩ := strchr_bounded (hinv b rfl)
    replace hst : loopStep len b s = .ok st := hst
    unfold loopStep at hst
    rw [hpos, CRun.ok_bind] at hst
    split_ifs at hst with hreturn
    · cases pos with
      | some p =>
        obtain ⟨res, htake, hst⟩ := CRun.bind_eq_ok.mp hst
        obtain rfl := Except.ok.inj hst
        obtain ⟨hlow, hhigh⟩ := hfound p rfl
        exact takeLine_free htake hlow (hhigh hreturn.1) hfree
      | none =>
        obtain ⟨res, htake, hst⟩ := CRun.bind_eq_ok.mp hst
        obtain rfl := Except.ok.inj hst
        exact takeAll_free htake hfree.unread
    · exact refillStep_free hst hfree

theorem reached_nulFree {len : ℕ} {s : Stream ε} {h : Head ε} (hlen : 0 < len)
    (hfree : 0 ∉ contents s) (hreached : Reached len s h) : NulFree h := by
  induction hreached with
  | refl => exact ⟨nofun, hfree⟩
  | tail hreached hstep ih => exact nulFree_step ih (reached_headInv hlen hreached) hstep

/-- On a stream without NUL bytes all steps of all calls stay inside the buffer. -/
theorem nul_free_bounded {len : ℕ} {s : Stream ε} (hlen : 0 < len) (hfree : 0 ∉ contents s) :
    ∀ h, Reached len s h → HeadBounded len h ∧ StepSound len h := by
  intro h hreached
  have hinv := reached_headInv hlen hreached
  have hfits := (reached_nulFree hlen hfree hreached).fits
  exact ⟨headInv_bounded hinv, (stepSound_iff hinv hlen).mpr hfits⟩

/-- Two reads of a line that is longer than the buffer. -/
theorem long_line_bounded : 0 ∉ contents (ε := Empty) [.ok [97, 98, 99], .ok [100, 101, 10]] ∧
    ∀ h, Reached (ε := Empty) 4 [.ok [97, 98, 99], .ok [100, 101, 10]] h →
      HeadBounded 4 h ∧ StepSound 4 h :=
  ⟨by decide, nul_free_bounded (by decide) (by decide)⟩

end NulFree

/-- All steps of all calls on a stream stay inside the buffer exactly when it has room and
every step fits. -/
theorem line_buffer_bounded_iff (len : ℕ) (s : Stream ε) :
    (∀ h, Reached len s h → HeadBounded len h ∧ StepSound len h) ↔
      0 < len ∧ ∀ h, Reached len s h → StepFits h := by
  constructor
  · intro hall
    have hlen : 0 < len := by
      obtain ⟨_, st, hst, hasked, _⟩ := hall _ Relation.ReflTransGen.refl
      exact (hasked 0 len (firstStep_asked hst)).1
    exact ⟨hlen, fun h hreached =>
      (stepSound_iff (reached_headInv hlen hreached) hlen).mp (hall h hreached).2⟩
  · rintro ⟨hlen, hfits⟩ h hreached
    have hinv := reached_headInv hlen hreached
    exact ⟨headInv_bounded hinv, (stepSound_iff hinv hlen).mpr (hfits h hreached)⟩

/-- After a NUL the next read is stored at the front and counted behind the old bytes, and
the terminator leaves the block. -/
theorem nul_overruns_buffer :
    ¬ ∀ (len : ℕ) (s : Stream Empty) (h : Head Empty), 0 < len → Reached len s h →
      HeadBounded len h ∧ StepSound len h := by
  intro hall
  have hfirst : HeadStep (ε := Empty) 4 (none, [.ok [0, 97, 98], .ok [99, 100]])
      (some { buffer := [0, 97, 98, 0, 0], curpos := 0, maxBufsize := 4, curBufsize := 3,
              eof := false }, [.ok [99, 100]]) := ⟨_, rfl, rfl⟩
  obtain ⟨_, st, hst, _⟩ := hall 4 _ _ (by decide) (Relation.ReflTransGen.single hfirst)
  have hfault : headStep (ε := Empty) 4
      (some { buffer := [0, 97, 98, 0, 0], curpos := 0, maxBufsize := 4, curBufsize := 3,
              eof := false }, [.ok [99, 100]]) = .error .fault := rfl
  rw [hfault] at hst
  simp at hst

end Gftp.LineBounds
