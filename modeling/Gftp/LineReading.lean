import Gftp.LineReader

/-!
Text without NUL bytes in front of gftp_get_line: what the buffer between two calls holds, the
lines of a text, and what a call on it returns.
-/

namespace Gftp.LineReading

open ByteStrings ByteStreams LineReader

variable {ε : Type}

/-- One carriage return before the newline belongs to the line's end. -/
def stripCr (l : Bytes) : Bytes := if l.getLast? = some 13 then l.dropLast else l

/-- The block shows the string t from curpos on. -/
structure Shows (b : GetlineBuffer) (len : ℕ) (t : Bytes) : Prop where
  size : b.buffer.length = len + 1
  max : b.maxBufsize = len
  block : ∃ pre post, b.buffer = pre ++ (t ++ 0 :: post) ∧ b.curpos = pre.length
  nul_free : 0 ∉ t

/-- The bytes still to be returned are p. When there are none, the block may still
show text that was returned without a newline. -/
def Holds (b : GetlineBuffer) (len : ℕ) (p : Bytes) : Prop :=
  ∃ t, Shows b len t ∧ b.curBufsize = p.length ∧ (t = p ∨ p = [] ∧ 10 ∉ t)

theorem strchr_display {pre p post : Bytes} {c : UInt8} (hp : 0 ∉ p) :
    strchr (pre ++ (p ++ 0 :: post)) pre.length c =
      .ok (if c ∈ p then some (pre.length + p.idxOf c) else none) := by
  unfold strchr
  simp only [List.drop_left, cstr_append_nul hp]
  simp

/-- The text up to the first newline. -/
def firstLine (rest : Bytes) : Bytes := rest.takeWhile (· ≠ 10)

/-- The reader has rest still to return: what the buffer holds, then the stream. -/
def Unread (rbuf : Option GetlineBuffer) (len : ℕ) (s : Stream ε) (rest : Bytes) : Prop :=
  Plain s ∧ 0 ∉ rest ∧
    match rbuf with
    | none => contents s = rest
    | some b => ∃ p, Holds b len p ∧ rest = p ++ contents s ∧ (b.eof = true → contents s = [])

/-- The next line of rest is returned, or its unterminated last line, or 0 at its end. -/
def Returned (len : ℕ) (rest : Bytes) (res : LineResult ε) : Prop :=
  (rest = [] ∧ res.ret = .ok 0 ∧ res.rbuf = none ∧ Unread none len res.stream []) ∨
  (∃ l r, rest = l ++ 10 :: r ∧ 10 ∉ l ∧ res.ret = .ok (l.length + 1) ∧
    res.str = stripCr l ∧ Unread res.rbuf len res.stream r) ∨
  (rest ≠ [] ∧ 10 ∉ rest ∧ res.ret = .ok rest.length ∧ res.str = rest ∧
    Unread res.rbuf len res.stream [])

/-- The text of the lines ls. -/
def text (ls : List Bytes) : Bytes := (ls.map (· ++ [10])).flatten

@[simp] theorem text_nil : text [] = [] := rfl

@[simp] theorem text_cons (l : Bytes) (ls : List Bytes) :
    text (l :: ls) = l ++ 10 :: text ls := by
  simp [text]

theorem text_append (ls ls' : List Bytes) : text (ls ++ ls') = text ls ++ text ls' := by
  simp [text]

theorem length_le_text (ls : List Bytes) : ls.length ≤ (text ls).length := by
  induction ls with
  | nil => exact Nat.zero_le _
  | cons l ls ih =>
    simp only [text_cons, List.length_append, List.length_cons]
    omega

theorem nul_not_mem_text {ls : List Bytes} (h : ∀ l ∈ ls, 0 ∉ l) : 0 ∉ text ls := by
  intro hmem
  obtain ⟨l', hl', hmem⟩ := List.mem_flatten.mp hmem
  obtain ⟨l, hl, rfl⟩ := List.mem_map.mp hl'
  rcases List.mem_append.mp hmem with hmem | hmem
  · exact h l hl hmem
  · simp at hmem

/-- A text line that is returned whole and unchanged by one call. -/
structure LineFits (len : ℕ) (l : Bytes) : Prop where
  nul_free : 0 ∉ l
  one_line : 10 ∉ l
  no_cr : l.getLast? ≠ some 13
  short : l.length < len

theorem firstLine_display {l r : Bytes} (h : 10 ∉ l) : firstLine (l ++ 10 :: r) = l := by
  unfold firstLine
  rw [List.takeWhile_append_of_pos (fun b hb => by simpa using fun he : b = 10 => h (he ▸ hb))]
  simp

/-- Where a newline ends a line that has none, the line is determined. -/
theorem line_unique {l l' r r' : Bytes} (h : l ++ 10 :: r = l' ++ 10 :: r') (hl : 10 ∉ l)
    (hl' : 10 ∉ l') : l = l' ∧ r = r' := by
  have hline : l = l' := by
    rw [← firstLine_display (r := r) hl, h, firstLine_display hl']
  subst hline
  exact ⟨rfl, (List.cons.inj (List.append_cancel_left h)).2⟩

/-- The body applied to the lines one after the other. -/
def foldLines {σ : Type} (body : Bytes → σ → CRun (σ × Bool)) : List Bytes → σ → CRun σ
  | [], st => .ok st
  | l :: ls, st => do
      let (st, go) ← body l st
      if go then foldLines body ls st else return st

end Gftp.LineReading
