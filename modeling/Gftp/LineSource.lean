import Gftp.Cells
import Gftp.Fuel
import Gftp.LineReader

/-!
gftp_get_line over any read function. The protocols give it read functions that keep
a state of their own and may store more in the buffer than they report, so a read
here yields its result and what it left in memory from the position it was given.
With plain reads from a stream it is the function of the line reader.
-/

namespace Gftp.LineSource

open ByteStrings ByteStreams Cells Cell Fuel
open LineReader (sizeSub)

variable {ε κ σ : Type} [Cell κ]

/-- What a read function returns, and the cells it stored from the position on. -/
structure Reading (ε κ : Type) where
  ret : Except ε ℕ
  stored : List κ

abbrev ReadFunction (ε κ σ : Type) := ℕ → σ → CRun (Reading ε κ × σ)

/-- curpos is an offset into buffer. -/
structure GetlineBuffer (κ : Type) where
  buffer : List κ
  curpos : ℕ
  maxBufsize : ℕ
  curBufsize : ℕ
  eof : Bool
  deriving DecidableEq

structure LineResult (ε κ σ : Type) where
  ret : Except ε ℕ
  str : List κ
  rbuf : Option (GetlineBuffer κ)
  state : σ

def strchr (block : List κ) (pos : ℕ) (c : UInt8) : CRun (Option ℕ) :=
  let rest := block.drop pos
  if 0 ∈ rest.map byte then
    .ok (if c ∈ (text rest).map byte then some (pos + ((text rest).map byte).idxOf c) else none)
  else .error .fault

/-- strncpy to an array of len bytes and the terminator stored after it, as the
string the caller reads. -/
def copyOut (block : List κ) (pos len : ℕ) : List κ := (text (block.drop pos)).take (len - 1)

/-- The newline at p, or the carriage return directly before it, becomes the
terminator of the returned line. -/
def takeLine (len : ℕ) (b : GetlineBuffer κ) (s : σ) (p : ℕ) : CRun (LineResult ε κ σ) := do
  let nslen := p - b.curpos + 1
  let cut := if b.curpos < p ∧ byteAt b.buffer (p - 1) = some 13 then p - 1 else p
  let buffer ← store b.buffer cut [nul]
  return { ret := .ok nslen
           str := copyOut buffer b.curpos len
           rbuf := some { b with
             buffer := buffer
             curpos := p + 1
             curBufsize := sizeSub b.curBufsize nslen }
           state := s }

/-- A full buffer, or the last bytes before end of file, returned without a newline. -/
def takeAll (len : ℕ) (b : GetlineBuffer κ) (s : σ) : CRun (LineResult ε κ σ) := do
  let buffer ← store b.buffer b.curBufsize [nul]
  return { ret := .ok b.curBufsize
           str := copyOut buffer b.curpos len
           rbuf := some { b with buffer := buffer, curBufsize := 0 }
           state := s }

/-- The unread bytes moved to the front of the buffer; the offset and the size of
the read that follows. -/
def compact (b : GetlineBuffer κ) : CRun (List κ × ℕ × ℕ) :=
  if b.curBufsize = 0 ∨ byteAt b.buffer b.curpos = some 0 then
    .ok (b.buffer, 0, b.maxBufsize)
  else if b.curpos + b.curBufsize ≤ b.buffer.length then do
    let buffer ← store b.buffer 0 ((b.buffer.drop b.curpos).take b.curBufsize)
    return (buffer, b.curBufsize, sizeSub b.maxBufsize b.curBufsize)
  else .error .fault

/-- The buffer is terminated after the counted length, which grows by what was read. -/
def refill (b : GetlineBuffer κ) (buffer : List κ) (n : ℕ) : CRun (GetlineBuffer κ) := do
  let buffer ← store buffer (b.curBufsize + n) [nul]
  return { b with
    buffer := buffer
    curpos := 0
    curBufsize := b.curBufsize + n
    eof := b.eof || n == 0 }

/-- The read of the loop; after end of file nothing is read. -/
def nextRead (read : ReadFunction ε κ σ) (b : GetlineBuffer κ) (rlen : ℕ) (s : σ) :
    CRun (Reading ε κ × σ) :=
  if b.eof then .ok ({ ret := .ok 0, stored := [] }, s) else read rlen s

/-- The while loop; fuel bounds the number of its iterations. -/
def getLineLoop (read : ReadFunction ε κ σ) (len : ℕ) :
    ℕ → GetlineBuffer κ → σ → CRun (LineResult ε κ σ)
  | 0, _, _ => .error .pending
  | fuel + 1, b, s => do
      let pos ← strchr b.buffer b.curpos 10
      let endOfBuffer := b.curpos = 0 ∧ (b.maxBufsize = b.curBufsize ∨ b.eof = true)
      if 0 < b.curBufsize ∧ (pos ≠ none ∨ endOfBuffer) then
        match pos with
        | some p => takeLine len b s p
        | none => takeAll len b s
      else
        let (buffer, base, rlen) ← compact b
        let (r, s) ← nextRead read b rlen s
        let buffer ← store buffer base r.stored
        match r.ret with
        | .error e => return { ret := .error e, str := [], rbuf := none, state := s }
        | .ok n =>
            if n = 0 ∧ b.curBufsize = 0 then
              return { ret := .ok 0, str := [], rbuf := none, state := s }
            else
              let b ← refill b buffer n
              getLineLoop read len fuel b s

/-- The call. The first one allocates the buffer for len bytes and reads once. -/
def gftpGetLine (read : ReadFunction ε κ σ) (fuel : ℕ) (rbuf : Option (GetlineBuffer κ))
    (len : ℕ) (s : σ) : CRun (LineResult ε κ σ) :=
  match rbuf with
  | some b => getLineLoop read len fuel b s
  | none => do
      let (r, s) ← read len s
      let buffer ← store (List.replicate (len + 1) nul) 0 r.stored
      match r.ret with
      | .error e => return { ret := .error e, str := [], rbuf := none, state := s }
      | .ok n =>
          if n = 0 then return { ret := .ok 0, str := [], rbuf := none, state := s }
          else
            let buffer ← store buffer n [nul]
            getLineLoop read len fuel
              { buffer := buffer, curpos := 0, maxBufsize := len, curBufsize := n, eof := false } s

section Passes

/-- One pass of the loop that refills the buffer and goes on. -/
def Refills (read : ReadFunction ε κ σ) (b : GetlineBuffer κ) (s : σ) (b' : GetlineBuffer κ)
    (s' : σ) : Prop :=
  ∃ pos buffer full base rlen n r, strchr b.buffer b.curpos 10 = .ok pos ∧
    ¬ (0 < b.curBufsize ∧
      (pos ≠ none ∨ b.curpos = 0 ∧ (b.maxBufsize = b.curBufsize ∨ b.eof = true))) ∧
    compact b = .ok (buffer, base, rlen) ∧ nextRead read b rlen s = .ok (r, s') ∧
    r.ret = .ok n ∧ store buffer base r.stored = .ok full ∧ refill b full n = .ok b'

/-- What one pass of the loop does when the call returns res. -/
inductive Pass (read : ReadFunction ε κ σ) (len fuel : ℕ) (b : GetlineBuffer κ) (s : σ)
    (res : LineResult ε κ σ) : Prop
  | line (p : ℕ) (hfind : strchr b.buffer b.curpos 10 = .ok (some p)) (hcount : 0 < b.curBufsize)
      (hres : takeLine len b s p = .ok res)
  | all (hfind : strchr b.buffer b.curpos 10 = .ok none) (hcount : 0 < b.curBufsize)
      (hpos : b.curpos = 0) (hres : takeAll len b s = .ok res)
  | failed (s' : σ) (e : ε) (hres : res = ⟨.error e, [], none, s'⟩)
      (rlen : ℕ) (r : Reading ε κ) (hread : nextRead read b rlen s = .ok (r, s'))
  | ended (s' : σ) (hres : res = ⟨.ok 0, [], none, s'⟩)
      (rlen : ℕ) (r : Reading ε κ) (hread : nextRead read b rlen s = .ok (r, s'))
      (hret : r.ret = .ok 0)
  | again (b' : GetlineBuffer κ) (s' : σ) (hrefills : Refills read b s b' s')
      (hloop : getLineLoop read len fuel b' s' = .ok res)

variable {read : ReadFunction ε κ σ} {len fuel : ℕ} {b : GetlineBuffer κ} {s : σ}
  {res : LineResult ε κ σ}

theorem getLineLoop_pass (h : getLineLoop read len (fuel + 1) b s = .ok res) :
    Pass read len fuel b s res := by
  simp only [getLineLoop] at h
  obtain ⟨pos, hfind, h⟩ := CRun.bind_eq_ok.mp h
  split at h
  · rename_i hline
    cases pos with
    | some p => exact .line p hfind hline.1 h
    | none =>
      have hend := hline.2.resolve_left (fun hne => hne rfl)
      exact .all hfind hline.1 hend.1 h
  · rename_i hmore
    obtain ⟨⟨buffer, base, rlen⟩, hroom, h⟩ := CRun.bind_eq_ok.mp h
    obtain ⟨⟨r, s'⟩, hread, h⟩ := CRun.bind_eq_ok.mp h
    obtain ⟨full, hfull, h⟩ := CRun.bind_eq_ok.mp h
    cases hret : r.ret with
    | error e =>
      simp only [hret, pure, Except.pure, Except.ok.injEq] at h
      exact .failed s' e h.symm rlen r hread
    | ok n =>
      simp only [hret] at h
      split at h
      · rename_i hzero
        simp only [pure, Except.pure, Except.ok.injEq] at h
        exact .ended s' h.symm rlen r hread (hret.trans (congrArg _ hzero.1))
      · obtain ⟨b', hrefill, hloop⟩ := CRun.bind_eq_ok.mp h
        exact .again b' s' ⟨pos, buffer, full, base, rlen, n, r, hfind, hmore, hroom, hread, hret,
          hfull, hrefill⟩ hloop

theorem getLineLoop_below {fuel' : ℕ} (hle : fuel ≤ fuel') :
    Below (getLineLoop read len fuel b s) (getLineLoop read len fuel' b s) := by
  induction fuel generalizing fuel' b s with
  | zero => exact .pending _
  | succ fuel ih =>
    obtain ⟨fuel', rfl⟩ := Nat.exists_eq_succ_of_ne_zero (show fuel' ≠ 0 by omega)
    simp only [getLineLoop]
    refine .bind (.refl _) fun pos => ?_
    split
    · exact .refl _
    · refine .bind (.refl _) fun room => .bind (.refl _) fun reading => .bind (.refl _) fun full => ?_
      cases reading.1.ret with
      | error e => exact .refl _
      | ok n =>
        simp only
        split
        · exact .refl _
        · exact .bind (.refl _) fun b' => ih (by omega)

theorem gftpGetLine_below {fuel' : ℕ} {rbuf : Option (GetlineBuffer κ)} (hle : fuel ≤ fuel') :
    Below (gftpGetLine read fuel rbuf len s) (gftpGetLine read fuel' rbuf len s) := by
  cases rbuf with
  | some b => exact getLineLoop_below hle
  | none =>
    refine .bind (.refl _) fun reading => .bind (.refl _) fun buffer => ?_
    cases reading.1.ret with
    | error e => exact .refl _
    | ok n =>
      simp only
      split
      · exact .refl _
      · exact .bind (.refl _) fun block => getLineLoop_below hle

/-- A call on an empty buffer reads once; then it ends or enters the loop. -/
theorem gftpGetLine_none (h : gftpGetLine read fuel none len s = .ok res) :
    ∃ r s', read len s = .ok (r, s') ∧
      ((res = ⟨r.ret, [], none, s'⟩ ∧ ∀ n, r.ret = .ok n → n = 0) ∨
        ∃ n full buffer, r.ret = .ok n ∧ n ≠ 0 ∧
          store (List.replicate (len + 1) nul) 0 r.stored = .ok full ∧
          store full n [nul] = .ok buffer ∧
          getLineLoop read len fuel ⟨buffer, 0, len, n, false⟩ s' = .ok res) := by
  simp only [gftpGetLine] at h
  obtain ⟨⟨r, s'⟩, hread, h⟩ := CRun.bind_eq_ok.mp h
  obtain ⟨full, hfull, h⟩ := CRun.bind_eq_ok.mp h
  refine ⟨r, s', hread, ?_⟩
  cases hret : r.ret with
  | error e =>
    simp only [hret, pure, Except.pure, Except.ok.injEq] at h
    exact .inl ⟨h.symm, by simp⟩
  | ok n =>
    simp only [hret] at h
    split at h
    · rename_i hzero
      simp only [pure, Except.pure, Except.ok.injEq] at h
      subst hzero
      exact .inl ⟨h.symm, fun n hn => (Except.ok.inj hn).symm⟩
    · rename_i hn
      obtain ⟨buffer, hbuffer, hloop⟩ := CRun.bind_eq_ok.mp h
      exact .inr ⟨n, full, buffer, rfl, hn, hfull, hbuffer, hloop⟩

omit [Cell κ] in
theorem nextRead_keeps {I : σ → Prop}
    (hread : ∀ n s r s', read n s = .ok (r, s') → I s → I s') {rlen : ℕ} {r : Reading ε κ} {s' : σ}
    (h : nextRead read b rlen s = .ok (r, s')) (hs : I s) : I s' := by
  unfold nextRead at h
  split at h
  · simp only [Except.ok.injEq, Prod.mk.injEq] at h
    obtain ⟨-, rfl⟩ := h
    exact hs
  · exact hread rlen s r s' h hs

theorem takeLine_state {p : ℕ} (h : takeLine len b s p = .ok res) :
    res.state = s ∧ res.rbuf.isSome := by
  simp only [takeLine] at h
  obtain ⟨buffer, -, h⟩ := CRun.bind_eq_ok.mp h
  simp only [pure, Except.pure, Except.ok.injEq] at h
  subst h
  exact ⟨rfl, rfl⟩

theorem takeAll_state (h : takeAll len b s = .ok res) :
    res.state = s ∧ res.rbuf.isSome := by
  simp only [takeAll] at h
  obtain ⟨buffer, -, h⟩ := CRun.bind_eq_ok.mp h
  simp only [pure, Except.pure, Except.ok.injEq] at h
  subst h
  exact ⟨rfl, rfl⟩

theorem getLineLoop_keeps {I : σ → Prop}
    (hread : ∀ n s r s', read n s = .ok (r, s') → I s → I s')
    (h : getLineLoop read len fuel b s = .ok res) (hs : I s) :
    I res.state ∧ (∀ n, res.ret = .ok n → 0 < n → res.rbuf.isSome) := by
  induction fuel generalizing b s with
  | zero => simp [getLineLoop] at h
  | succ fuel ih =>
    cases getLineLoop_pass h with
    | line p hfind hcount hres =>
      obtain ⟨hstate, hsome⟩ := takeLine_state hres
      exact ⟨hstate ▸ hs, fun _ _ _ => hsome⟩
    | all hfind hcount hpos hres =>
      obtain ⟨hstate, hsome⟩ := takeAll_state hres
      exact ⟨hstate ▸ hs, fun _ _ _ => hsome⟩
    | failed s' e hres rlen r hnext =>
      subst hres
      exact ⟨nextRead_keeps hread hnext hs, by simp⟩
    | ended s' hres rlen r hnext =>
      subst hres
      refine ⟨nextRead_keeps hread hnext hs, ?_⟩
      intro n hn hpos
      exact absurd hpos (by simp [← Except.ok.inj hn])
    | again b' s' hrefills hloop =>
      obtain ⟨pos, buffer, full, base, rlen, n, r, -, -, -, hnext, -⟩ := hrefills
      exact ih hloop (nextRead_keeps hread hnext hs)

/-- What every read keeps of its state, a call keeps; a call that returns a line leaves
a buffer. -/
theorem gftpGetLine_keeps {I : σ → Prop} {rbuf : Option (GetlineBuffer κ)}
    (hread : ∀ n s r s', read n s = .ok (r, s') → I s → I s')
    (h : gftpGetLine read fuel rbuf len s = .ok res) (hs : I s) :
    I res.state ∧ (∀ n, res.ret = .ok n → 0 < n → res.rbuf.isSome) := by
  cases rbuf with
  | some b => exact getLineLoop_keeps hread h hs
  | none =>
    obtain ⟨r, s', hnext, hcases⟩ := gftpGetLine_none h
    have hs' := hread len s r s' hnext hs
    rcases hcases with ⟨rfl, hzero⟩ | ⟨n, full, buffer, -, -, -, -, hloop⟩
    · refine ⟨hs', ?_⟩
      intro n hn hpos
      have h0 := hzero n hn
      omega
    · exact getLineLoop_keeps hread hloop hs'

end Passes

section Bytes

/-- The read function of a stream of bytes. -/
def plainRead (n : ℕ) (s : Stream ε) : CRun (Reading ε UInt8 × Stream ε) :=
  match readSome n s with
  | (.error e, s) => .ok ({ ret := .error e, stored := [] }, s)
  | (.ok d, s) => .ok ({ ret := .ok d.length, stored := d }, s)

/-- The same result of a stream as a reading. -/
def asReading : Except ε Bytes × Stream ε → Reading ε UInt8 × Stream ε
  | (.error e, s) => ({ ret := .error e, stored := [] }, s)
  | (.ok d, s) => ({ ret := .ok d.length, stored := d }, s)

theorem plainRead_eq (n : ℕ) (s : Stream ε) : plainRead n s = .ok (asReading (readSome n s)) := by
  unfold plainRead asReading
  split <;> simp_all

def asBuffer (b : LineReader.GetlineBuffer) : GetlineBuffer UInt8 :=
  ⟨b.buffer, b.curpos, b.maxBufsize, b.curBufsize, b.eof⟩

theorem nextRead_bytes (b : LineReader.GetlineBuffer) (rlen : ℕ) (s : Stream ε) :
    nextRead plainRead (asBuffer b) rlen s
      = .ok (asReading (if b.eof then (.ok [], s) else readSome rlen s)) := by
  unfold nextRead
  split
  · rename_i h
    have heof : b.eof = true := h
    simp [heof, asReading]
  · rename_i h
    have heof : ¬ b.eof = true := h
    simp [heof, plainRead_eq]

def asResult (r : LineReader.LineResult ε) : LineResult ε UInt8 (Stream ε) :=
  ⟨r.ret, r.str, r.rbuf.map asBuffer, r.stream⟩

theorem map_byte (l : Bytes) : l.map byte = l := List.map_id' l

theorem strchr_bytes (block : Bytes) (pos : ℕ) (c : UInt8) :
    strchr block pos c = LineReader.strchr block pos c := by
  simp only [strchr, LineReader.strchr, map_byte, text_bytes]

theorem takeLine_bytes (len : ℕ) (b : LineReader.GetlineBuffer) (s : Stream ε) (p : ℕ) :
    takeLine len (asBuffer b) s p = (LineReader.takeLine len b s p).map asResult := by
  simp only [takeLine, LineReader.takeLine, asBuffer, store_bytes, nul_uint8, byteAt_bytes]
  cases overwrite b.buffer (if b.curpos < p ∧ b.buffer[p - 1]? = some 13 then p - 1 else p) [0] <;>
    rfl

theorem takeAll_bytes (len : ℕ) (b : LineReader.GetlineBuffer) (s : Stream ε) :
    takeAll len (asBuffer b) s = (LineReader.takeAll len b s).map asResult := by
  simp only [takeAll, LineReader.takeAll, asBuffer, store_bytes, nul_uint8]
  cases overwrite b.buffer b.curBufsize [0] <;> rfl

theorem compact_bytes (b : LineReader.GetlineBuffer) :
    compact (asBuffer b) = LineReader.compact b := by
  simp only [compact, LineReader.compact, asBuffer, byteAt_bytes, store_bytes]
  rfl

/-- The room left by compact starts inside the buffer. -/
theorem store_nothing {b : LineReader.GetlineBuffer} {buffer : Bytes} {base rlen : ℕ}
    (h : LineReader.compact b = .ok (buffer, base, rlen)) :
    overwrite buffer base [] = .ok buffer := by
  unfold LineReader.compact at h
  split at h
  · simp only [Except.ok.injEq, Prod.mk.injEq] at h
    obtain ⟨rfl, rfl, -⟩ := h
    simp [overwrite]
  · split at h
    · rename_i hin
      obtain ⟨moved, hmoved, h⟩ := CRun.bind_eq_ok.mp h
      simp only [pure, Except.pure, Except.ok.injEq, Prod.mk.injEq] at h
      obtain ⟨rfl, rfl, -⟩ := h
      have hlen := overwrite_length hmoved
      simp only [overwrite, List.length_nil, Nat.add_zero, List.nil_append,
        List.take_append_drop]
      exact if_pos (by omega)
    · simp at h

theorem getLineLoop_bytes (len fuel : ℕ) (b : LineReader.GetlineBuffer) (s : Stream ε) :
    getLineLoop plainRead len fuel (asBuffer b) s
      = (LineReader.getLineLoop len fuel b s).map asResult := by
  induction fuel generalizing b s with
  | zero => rfl
  | succ fuel ih =>
    have hbuf : (asBuffer b).buffer = b.buffer := rfl
    have hpos : (asBuffer b).curpos = b.curpos := rfl
    have hcount : (asBuffer b).curBufsize = b.curBufsize := rfl
    have hmax : (asBuffer b).maxBufsize = b.maxBufsize := rfl
    have heof : (asBuffer b).eof = b.eof := rfl
    simp only [getLineLoop, LineReader.getLineLoop, hbuf, hpos, hcount, hmax, heof,
      strchr_bytes, compact_bytes]
    cases hfind : LineReader.strchr b.buffer b.curpos 10 with
    | error e => rfl
    | ok pos =>
      simp only [CRun.ok_bind]
      split
      · cases pos with
        | some p => exact takeLine_bytes len b s p
        | none => exact takeAll_bytes len b s
      · cases hroom : LineReader.compact b with
        | error e => rfl
        | ok room =>
          obtain ⟨buffer, base, rlen⟩ := room
          have hread := nextRead_bytes b rlen s
          simp only [CRun.ok_bind, hread]
          generalize (if b.eof = true then (.ok [], s) else readSome rlen s) = got
          obtain ⟨got, s'⟩ := got
          cases got with
          | error e =>
            simp only [asReading, store_bytes, store_nothing hroom, CRun.ok_bind]
            rfl
          | ok d =>
            simp only [asReading, store_bytes, List.length_eq_zero_iff, refill, LineReader.refill,
              nul_uint8, hcount, heof, hmax]
            have hempty : d.isEmpty = (d.length == 0) := by cases d <;> rfl
            by_cases hend : d = [] ∧ b.curBufsize = 0
            · obtain ⟨rfl, hzero⟩ := hend
              simp only [store_nothing hroom, CRun.ok_bind, hzero, and_self, if_true]
              rfl
            · simp only [if_neg hend, bind_assoc]
              cases hin : overwrite buffer base d with
              | error e => rfl
              | ok full =>
                simp only [CRun.ok_bind]
                cases hout : overwrite full (b.curBufsize + d.length) [0] with
                | error e => rfl
                | ok done =>
                  simp only [CRun.ok_bind, pure_bind, hempty]
                  exact ih ⟨done, 0, b.maxBufsize, b.curBufsize + d.length,
                    b.eof || d.length == 0⟩ s'

/-- The fuel that the line reader's function gives its loop. -/
def callFuel (rbuf : Option LineReader.GetlineBuffer) (len : ℕ) (s : Stream ε) : ℕ :=
  match rbuf with
  | some _ => readBound s + 2
  | none => readBound (readSome len s).2 + 2

/-- With plain reads and so much fuel it is the line reader's function. -/
theorem gftpGetLine_bytes (rbuf : Option LineReader.GetlineBuffer) (len : ℕ) (s : Stream ε) :
    gftpGetLine plainRead (callFuel rbuf len s) (rbuf.map asBuffer) len s
      = (LineReader.gftpGetLine rbuf len s).map asResult := by
  cases rbuf with
  | some b => exact getLineLoop_bytes len _ b s
  | none =>
    simp only [callFuel]
    simp only [gftpGetLine, LineReader.gftpGetLine, plainRead_eq, CRun.ok_bind, Option.map_none]
    generalize readSome len s = got
    obtain ⟨got, s'⟩ := got
    cases got with
    | error e => rfl
    | ok d =>
      simp only [asReading, store_bytes, List.length_eq_zero_iff, nul_uint8]
      by_cases hend : d = []
      · subst hend
        simp only [if_true]
        rfl
      · simp only [if_neg hend]
        cases hin : overwrite (List.replicate (len + 1) 0) 0 d with
        | error e => rfl
        | ok full =>
          simp only [CRun.ok_bind]
          cases hout : overwrite full d.length [0] with
          | error e => rfl
          | ok done => exact getLineLoop_bytes len _ ⟨done, 0, len, d.length, false⟩ s'

end Bytes

end Gftp.LineSource
