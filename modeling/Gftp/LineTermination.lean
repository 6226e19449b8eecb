import Gftp.LineOrigins
import Mathlib.Data.Prod.Lex

/-!
Calls of gftp_get_line return. A read function wanes when what it delivers it takes from a
weight that bounds what is left in front of it. Each pass of the loop then lowers the
weight or is the last but one, and each call lowers the weight, takes bytes out of the
buffer, or finds that nothing more is read.
-/

namespace Gftp.LineTermination

open ByteStrings Cells Cell Fuel LineSource LineOrigins
open LineReader (sizeSub)

variable {ε κ σ : Type} [Cell κ]

/-- Every read settles, and a read that delivers something lowers the weight. -/
structure Wanes (read : ReadFunction ε κ σ) (weight : σ → ℕ) : Prop where
  settles : ∀ n s, Settled (read n s)
  keeps : ∀ n s r s' m, read n s = .ok (r, s') → r.ret = .ok m → weight s' ≤ weight s
  lowers : ∀ n s r s' m, read n s = .ok (r, s') → r.ret = .ok m → 0 < m → weight s' < weight s

/-- A terminator stands behind the counted bytes. -/
def Ended (b : GetlineBuffer κ) : Prop :=
  0 < b.curBufsize → byteAt b.buffer (b.curpos + b.curBufsize) = some 0

instance {b : GetlineBuffer κ} : Decidable (Ended b) :=
  inferInstanceAs (Decidable (0 < b.curBufsize → _))

section Steps

variable {b b' : GetlineBuffer κ} {s s' : σ} {len n p : ℕ} {res : LineResult ε κ σ}
  {buffer block : List κ}

theorem strchr_settled (block : List κ) (pos : ℕ) (c : UInt8) : Settled (strchr block pos c) := by
  unfold strchr
  simp only
  split
  · exact .ok _
  · exact .fault

omit [Cell κ] in
theorem store_settled (block src : List κ) (off : ℕ) : Settled (store block off src) := by
  unfold store
  split
  · exact .ok _
  · exact .fault

theorem takeLine_settled : Settled (takeLine (ε := ε) len b s p) :=
  .bind (store_settled _ _ _) fun _ _ => .ok _

theorem takeAll_settled : Settled (takeAll (ε := ε) len b s) :=
  .bind (store_settled _ _ _) fun _ _ => .ok _

theorem compact_settled : Settled (compact b) := by
  unfold compact
  split
  · exact .ok _
  · split
    · exact .bind (store_settled _ _ _) fun _ _ => .ok _
    · exact .fault

theorem refill_settled : Settled (refill b buffer n) :=
  .bind (store_settled _ _ _) fun _ _ => .ok _

theorem refill_fields (h : refill b buffer n = .ok b') :
    b'.curBufsize = b.curBufsize + n ∧ b'.curpos = 0 ∧ b'.eof = (b.eof || n == 0) := by
  obtain ⟨block, -, h⟩ := CRun.bind_eq_ok.mp h
  simp only [pure, Except.pure, Except.ok.injEq] at h
  subst h
  exact ⟨rfl, rfl, rfl⟩

theorem strchr_inside {pos : ℕ} {c : UInt8} (h : strchr block pos c = .ok (some p)) :
    pos ≤ p ∧ p < block.length := by
  obtain ⟨n, hn⟩ : ∃ n, byteAt block (pos + n) = some 0 := by
    unfold strchr at h
    simp only at h
    split at h
    · rename_i hnul
      obtain ⟨n, hlt, hget⟩ := List.mem_iff_getElem.mp hnul
      refine ⟨n, ?_⟩
      rw [← byteAt_drop, byteAt, ← List.getElem?_map, List.getElem?_eq_getElem hlt, hget]
    · simp at h
  obtain ⟨hle, hlt⟩ := strchr_some h hn
  have hinside : pos + n < block.length := by
    by_contra hout
    rw [byteAt, List.getElem?_eq_none (by omega)] at hn
    simp at hn
  exact ⟨hle, by omega⟩

theorem refill_ended (h : refill b buffer n = .ok b') : Ended b' := by
  obtain ⟨block, hstore, h⟩ := CRun.bind_eq_ok.mp h
  simp only [pure, Except.pure, Except.ok.injEq] at h
  subst h
  intro _
  rw [Nat.zero_add]
  exact byteAt_stored hstore

theorem takeLine_fields (h : takeLine len b s p = .ok res) :
    ∃ buffer cut, cut ≤ p ∧ store b.buffer cut [nul] = .ok buffer ∧
      res.rbuf = some { b with
        buffer := buffer
        curpos := p + 1
        curBufsize := sizeSub b.curBufsize (p - b.curpos + 1) } ∧ res.state = s := by
  obtain ⟨buffer, hstore, h⟩ := CRun.bind_eq_ok.mp h
  simp only [pure, Except.pure, Except.ok.injEq] at h
  subst h
  refine ⟨buffer, _, ?_, hstore, rfl, rfl⟩
  split <;> omega

theorem takeAll_fields (h : takeAll len b s = .ok res) :
    ∃ buffer, res.rbuf = some { b with buffer := buffer, curBufsize := 0 } ∧ res.state = s := by
  obtain ⟨buffer, -, h⟩ := CRun.bind_eq_ok.mp h
  simp only [pure, Except.pure, Except.ok.injEq] at h
  subst h
  exact ⟨buffer, rfl, rfl⟩

/-- A pass after the end of the stream, with bytes in a buffer that begins at its front, is the
last. -/
theorem getLineLoop_last {read : ReadFunction ε κ σ} {fuel : ℕ} (hcount : 0 < b.curBufsize)
    (hpos : b.curpos = 0) (heof : b.eof = true) : Settled (getLineLoop read len (fuel + 1) b s) := by
  refine .bind (strchr_settled _ _ _) fun pos _ => ?_
  rw [if_pos ⟨hcount, .inr ⟨hpos, .inr heof⟩⟩]
  cases pos with
  | none => exact takeAll_settled
  | some p => exact takeLine_settled

end Steps

section Loop

variable {read : ReadFunction ε κ σ} {weight : σ → ℕ} {len fuel n : ℕ} {b : GetlineBuffer κ}
  {s s' : σ} {res : LineResult ε κ σ}

omit [Cell κ] in
theorem Wanes.next_keeps (hread : Wanes read weight) {rlen m : ℕ} {r : Reading ε κ}
    (h : nextRead read b rlen s = .ok (r, s')) (hret : r.ret = .ok m) : weight s' ≤ weight s := by
  unfold nextRead at h
  split at h
  · simp only [Except.ok.injEq, Prod.mk.injEq] at h
    exact h.2 ▸ le_rfl
  · exact hread.keeps _ _ _ _ m h hret

omit [Cell κ] in
theorem Wanes.next_lowers (hread : Wanes read weight) {rlen m : ℕ} {r : Reading ε κ}
    (h : nextRead read b rlen s = .ok (r, s')) (hret : r.ret = .ok m) (hm : 0 < m) :
    weight s' < weight s := by
  unfold nextRead at h
  split at h
  · simp only [Except.ok.injEq, Prod.mk.injEq] at h
    rw [← h.1] at hret
    exact absurd (Except.ok.inj hret) (by omega)
  · exact hread.lowers _ _ _ _ m h hret hm

/-- The passes that read are no more than the weight allows. -/
theorem getLineLoop_settles (hread : Wanes read weight) (hfuel : weight s + 1 < fuel) :
    Settled (getLineLoop read len fuel b s) := by
  induction fuel generalizing b s with
  | zero => omega
  | succ fuel ih =>
    refine .bind (strchr_settled _ _ _) fun pos _ => ?_
    by_cases hline : 0 < b.curBufsize ∧
        (pos ≠ none ∨ b.curpos = 0 ∧ (b.maxBufsize = b.curBufsize ∨ b.eof = true))
    · rw [if_pos hline]
      cases pos with
      | none => exact takeAll_settled
      | some p => exact takeLine_settled
    · rw [if_neg hline]
      refine .bind compact_settled fun room _ => ?_
      have hnext : Settled (nextRead read b room.2.2 s) := by
        unfold nextRead
        split
        · exact .ok _
        · exact hread.settles _ _
      refine .bind hnext fun reading hreading => .bind (store_settled _ _ _) fun full _ => ?_
      cases hret : reading.1.ret with
      | error e => exact .ok _
      | ok n =>
        simp only
        split
        · exact .ok _
        · rename_i hmore
          refine .bind refill_settled fun b' hb' => ?_
          by_cases hn : n = 0
          · obtain ⟨hcount, hpos, heof⟩ := refill_fields hb'
            obtain ⟨fuel, rfl⟩ := Nat.exists_eq_succ_of_ne_zero (show fuel ≠ 0 by omega)
            refine getLineLoop_last ?_ hpos (by rw [heof, hn]; simp)
            rw [hcount, hn]
            omega
          · have hlower := hread.next_lowers hreading hret (by omega)
            exact ih (by omega)

theorem gftpGetLine_settles (hread : Wanes read weight) {rbuf : Option (GetlineBuffer κ)}
    (hfuel : weight s + 1 < fuel) : Settled (gftpGetLine read fuel rbuf len s) := by
  cases rbuf with
  | some b => exact getLineLoop_settles hread hfuel
  | none =>
    refine .bind (hread.settles _ _) fun reading hreading => .bind (store_settled _ _ _) fun full _ => ?_
    cases hret : reading.1.ret with
    | error e => exact .ok _
    | ok n =>
      simp only
      split
      · exact .ok _
      · refine .bind (store_settled _ _ _) fun block _ => ?_
        have hkeep := hread.keeps _ _ _ _ n hreading hret
        exact getLineLoop_settles hread (by omega)

/-- While the buffer is not ended behind its counted bytes, the bytes from curpos on. -/
def unended : Option (GetlineBuffer κ) → ℕ
  | none => 0
  | some b => if Ended b then 0 else b.buffer.length - b.curpos + 1

def counted : Option (GetlineBuffer κ) → ℕ
  | none => 0
  | some b => b.curBufsize + 1

theorem unended_le (b : GetlineBuffer κ) : unended (some b) ≤ b.buffer.length - b.curpos + 1 := by
  rw [unended]
  split
  · exact Nat.zero_le _
  · exact le_rfl

theorem unended_of_ended (h : Ended b) : unended (some b) = 0 := if_pos h

/-- A call takes bytes from the stream, or from the buffer. -/
theorem getLineLoop_ended (hread : Wanes read weight) (hb : Ended b)
    (h : getLineLoop read len fuel b s = .ok res) (hret : res.ret = .ok n) :
    unended res.rbuf = 0 ∧
      (weight res.state < weight s ∨
        weight res.state ≤ weight s ∧ counted res.rbuf < counted (some b)) := by
  induction fuel generalizing b s with
  | zero => simp [getLineLoop] at h
  | succ fuel ih =>
    cases getLineLoop_pass h with
    | line p hfind hcount hres =>
      have hend := hb hcount
      obtain ⟨hle, hlt⟩ := strchr_some hfind hend
      obtain ⟨buffer, cut, hcut, hstore, hrbuf, hstate⟩ := takeLine_fields hres
      have hsub : sizeSub b.curBufsize (p - b.curpos + 1) = b.curBufsize - (p - b.curpos + 1) :=
        if_pos (by omega)
      rw [hrbuf, hstate, hsub]
      refine ⟨unended_of_ended fun hmore => ?_, .inr ⟨le_rfl, ?_⟩⟩
      · have hplace : p + 1 + (b.curBufsize - (p - b.curpos + 1)) = b.curpos + b.curBufsize := by
          omega
        have htail : buffer.drop (p + 1) = b.buffer.drop (p + 1) :=
          store_drop hstore (by simp only [List.length_singleton]; omega)
        rw [hplace, byteAt_of_drop htail (by omega)]
        exact hend
      · simp only [counted]
        omega
    | all hfind hcount hpos hres =>
      obtain ⟨buffer, hrbuf, hstate⟩ := takeAll_fields hres
      rw [hrbuf, hstate]
      refine ⟨unended_of_ended fun hmore => absurd hmore (by simp), .inr ⟨le_rfl, ?_⟩⟩
      simp only [counted]
      omega
    | failed s' e hres rlen r hnext =>
      subst hres
      simp at hret
    | ended s' hres rlen r hnext hzero =>
      subst hres
      exact ⟨rfl, .inr ⟨hread.next_keeps hnext hzero, Nat.succ_pos _⟩⟩
    | again b' s' hrefills hloop =>
      obtain ⟨pos, buffer, full, base, rlen, m, r, -, hmore, -, hnext, hm, -, hrefill⟩ := hrefills
      obtain ⟨hunended, hlower⟩ := ih (refill_ended hrefill) hloop
      have hkeep := hread.next_keeps hnext hm
      refine ⟨hunended, ?_⟩
      by_cases hzero : m = 0
      · have hcount := (refill_fields hrefill).1
        rw [hzero, Nat.add_zero] at hcount
        simp only [counted, hcount] at hlower ⊢
        omega
      · have hread' := hread.next_lowers hnext hm (by omega)
        omega

/-- From a buffer that is not ended a call goes forward in the block or ends it. -/
theorem getLineLoop_unended (hread : Wanes read weight) (hb : ¬ Ended b)
    (h : getLineLoop read len fuel b s = .ok res) (hret : res.ret = .ok n) :
    unended res.rbuf < unended (some b) := by
  have hplaces : unended (some b) = b.buffer.length - b.curpos + 1 := if_neg hb
  have hpos : 0 < unended (some b) := hplaces ▸ Nat.succ_pos _
  obtain ⟨fuel, rfl⟩ : ∃ f, fuel = f + 1 := by
    cases fuel with
    | zero => simp [getLineLoop] at h
    | succ fuel => exact ⟨fuel, rfl⟩
  cases getLineLoop_pass h with
  | line p hfind hcount hres =>
    obtain ⟨hle, hlt⟩ := strchr_inside hfind
    obtain ⟨buffer, cut, hcut, hstore, hrbuf, hstate⟩ := takeLine_fields hres
    have hlength := store_length hstore
    have hafter := unended_le { b with
      buffer := buffer
      curpos := p + 1
      curBufsize := sizeSub b.curBufsize (p - b.curpos + 1) }
    rw [hrbuf, hplaces]
    simp only [hlength] at hafter
    omega
  | all hfind hcount hzero hres =>
    obtain ⟨buffer, hrbuf, hstate⟩ := takeAll_fields hres
    rw [hrbuf, unended_of_ended fun hmore => absurd hmore (by simp)]
    exact hpos
  | failed s' e hres rlen r hnext =>
    subst hres
    simp at hret
  | ended s' hres rlen r hnext hzero =>
    subst hres
    exact hpos
  | again b' s' hrefills hloop =>
    obtain ⟨pos, buffer, full, base, rlen, m, r, -, -, -, -, -, -, hrefill⟩ := hrefills
    rw [(getLineLoop_ended hread (refill_ended hrefill) hloop hret).1]
    exact hpos

/-- What the calls have still to do. -/
def effort (weight : σ → ℕ) (rbuf : Option (GetlineBuffer κ)) (s : σ) : ℕ ×ₗ ℕ ×ₗ ℕ :=
  toLex (unended rbuf, toLex (weight s, counted rbuf))

/-- A call leaves less to do, unless there is no buffer and its read delivers nothing. -/
theorem gftpGetLine_progress (hread : Wanes read weight) {rbuf : Option (GetlineBuffer κ)}
    (h : gftpGetLine read fuel rbuf len s = .ok res) (hret : res.ret = .ok n) :
    effort weight res.rbuf res.state < effort weight rbuf s ∨
      rbuf = none ∧ res.rbuf = none ∧ n = 0 ∧ ∃ r, read len s = .ok (r, res.state) ∧ r.ret = .ok 0 := by
  simp only [effort, Prod.Lex.toLex_lt_toLex]
  cases rbuf with
  | some b =>
    refine .inl ?_
    by_cases hb : Ended b
    · obtain ⟨hunended, hlower⟩ := getLineLoop_ended hread hb h hret
      refine .inr ⟨hunended.trans (unended_of_ended hb).symm, ?_⟩
      rcases hlower with hlower | ⟨hle, hcount⟩
      · exact .inl hlower
      · rcases Nat.lt_or_eq_of_le hle with hlower | heq
        · exact .inl hlower
        · exact .inr ⟨heq, hcount⟩
    · exact .inl (getLineLoop_unended hread hb h hret)
  | none =>
    obtain ⟨r, s', hnext, hcases⟩ := gftpGetLine_none h
    rcases hcases with ⟨rfl, hzero⟩ | ⟨m, full, buffer, hm, hmore, -, hstore, hloop⟩
    · obtain rfl := hzero n hret
      exact .inr ⟨rfl, rfl, rfl, r, hnext, hret⟩
    · refine .inl (.inr ?_)
      have hb : Ended (⟨buffer, 0, len, m, false⟩ : GetlineBuffer κ) := by
        intro _
        rw [Nat.zero_add]
        exact byteAt_stored hstore
      obtain ⟨hunended, hlower⟩ := getLineLoop_ended hread hb hloop hret
      have hlow := hread.lowers _ _ _ _ m hnext hm (by omega)
      exact ⟨hunended, .inl (by omega)⟩

end Loop

end Gftp.LineTermination
