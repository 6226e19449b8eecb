import Gftp.ByteStreams
import Gftp.Protocol

/-!
The copy of one file: _do_transfer_block and _gftpui_common_do_transfer_file. The
source is the stream of its results, the destination a list of answers and the stop
requests the values of cancel at its successive tests. The counters record what the
source delivered and what the destination accepted. A list that ends too early leaves
the run pending.
-/

namespace Gftp.CopyLoop

open ByteStrings ByteStreams Protocol

/-- An answer of put_next_file_chunk: up to n of the bytes offered, or a failure. -/
abbrev PutOutcome := Except GftpError ℕ

structure CopyState where
  source : Stream GftpError
  puts : List PutOutcome
  delivered : Bytes
  accepted : Bytes
  sawEof : Bool
  noTrans : Bool
  deriving DecidableEq

def CopyState.start (source : Stream GftpError) (puts : List PutOutcome) : CopyState :=
  { source := source, puts := puts, delivered := [], accepted := [], sawEof := false,
    noTrans := false }

structure PutRun where
  ret : Except GftpError ℕ
  accepted : Bytes
  puts : List PutOutcome

/-- The inner loop on the bytes of the block not yet written. -/
def putRest (numRead : ℕ) : Bytes → List PutOutcome → CRun PutRun
  | [], puts => .ok { ret := .ok numRead, accepted := [], puts := puts }
  | _ :: _, [] => .error .pending
  | _ :: _, .error e :: puts => .ok { ret := .error e, accepted := [], puts := puts }
  | b :: rest, .ok n :: puts =>
      let wrote := min n (b :: rest).length
      if wrote = 0 then .ok { ret := .ok 0, accepted := [], puts := puts }
      else do
        let r ← putRest numRead ((b :: rest).drop wrote) puts
        return { r with accepted := (b :: rest).take wrote ++ r.accepted }

/-- A block size of 0 gives a NULL buffer, which gftp_get_next_file_chunk refuses. -/
def getNextFileChunk (blksize : ℕ) (source : Stream GftpError) :
    Except GftpError Bytes × Stream GftpError :=
  if blksize = 0 then (.error .fatal, source) else readSome blksize source

def doTransferBlock (blksize : ℕ) (c : CopyState) : CRun (Except GftpError ℕ × CopyState) :=
  match getNextFileChunk blksize c.source with
  | (.error e, source) =>
      .ok (.error e, { c with source := source, noTrans := c.noTrans || e = .noTrans })
  | (.ok d, source) => do
      let r ← putRest d.length d c.puts
      return (r.ret, {
        source := source
        puts := r.puts
        delivered := c.delivered ++ d
        accepted := c.accepted ++ r.accepted
        sawEof := c.sawEof || d.isEmpty
        noTrans := c.noTrans || r.ret = .error .noTrans })

/-- The test of the outer loop. -/
def moved : Except GftpError ℕ → Bool
  | .ok n => 0 < n
  | .error _ => false

/-- The outer loop; numTrans is the result of the last block. -/
def copyLoop (blksize : ℕ) : List Bool → Except GftpError ℕ → CopyState →
    CRun (Except GftpError ℕ × CopyState)
  | [], _, _ => .error .pending
  | true :: _, numTrans, c => .ok (numTrans, c)
  | false :: cancels, _, c => do
      let (numTrans, c) ← doTransferBlock blksize c
      if moved numTrans then copyLoop blksize cancels numTrans c else return (numTrans, c)

/-- num_trans as an int, with GFTP_ENOTRANS taken for 0. -/
def transInt (numTrans : Except GftpError ℕ) : ℤ :=
  match numTrans with
  | .ok n => Int.bmod n (2 ^ 32)
  | .error e => if e = .noTrans then 0 else e.code

theorem transInt_ok (n : ℕ) : transInt (.ok n) = Int.bmod n (2 ^ 32) := rfl

theorem transInt_error (e : GftpError) :
    transInt (.error e) = if e = .noTrans then 0 else e.code := rfl

/-- What follows the outer loop; the two ends are what gftp_end_transfer returns. -/
def endCopy (numTrans : Except GftpError ℕ) (fromEnd toEnd : Except GftpError Unit) : ℤ :=
  if transInt numTrans = 0 then
    match fromEnd, toEnd with
    | .error e, _ => e.code
    | .ok _, .error e => e.code
    | .ok _, .ok _ => 0
  else transInt numTrans

/-- logged says that the success message was written. -/
structure CopyResult where
  ret : ℤ
  logged : Bool
  copy : CopyState

def doTransferFile (blksize : ℕ) (cancels : List Bool) (source : Stream GftpError)
    (puts : List PutOutcome) (fromEnd toEnd : Except GftpError Unit) : CRun CopyResult := do
  let (numTrans, c) ← copyLoop blksize cancels (.ok 0) (CopyState.start source puts)
  let ret := endCopy numTrans fromEnd toEnd
  return { ret := ret, logged := transInt numTrans = 0 ∧ ret = 0, copy := c }

/-- The destination accepts a front part of what it is offered: all of it when the
loop goes on, and what came before a failure or an answer of 0 otherwise. -/
theorem putRest_contract {numRead : ℕ} {rest : Bytes} {puts : List PutOutcome} {r : PutRun}
    (h : putRest numRead rest puts = .ok r) :
    r.accepted <+: rest ∧ r.puts <:+ puts ∧
      (r.ret = .ok numRead ∧ r.accepted = rest ∨ (∃ e, r.ret = .error e) ∨
        r.ret = .ok 0 ∧ .ok 0 ∈ puts) := by
  induction puts generalizing rest r with
  | nil =>
    cases rest with
    | nil =>
      obtain rfl := Except.ok.inj h
      exact ⟨List.prefix_rfl, List.suffix_rfl, Or.inl ⟨rfl, rfl⟩⟩
    | cons b rest => simp [putRest] at h
  | cons put puts ih =>
    cases rest with
    | nil =>
      obtain rfl := Except.ok.inj h
      exact ⟨List.prefix_rfl, List.suffix_rfl, Or.inl ⟨rfl, rfl⟩⟩
    | cons b rest =>
      cases put with
      | error e =>
        obtain rfl := Except.ok.inj h
        exact ⟨List.nil_prefix, List.suffix_cons .., Or.inr (Or.inl ⟨e, rfl⟩)⟩
      | ok n =>
        unfold putRest at h
        dsimp only at h
        by_cases hzero : min n (b :: rest).length = 0
        · rw [if_pos hzero] at h
          obtain rfl := Except.ok.inj h
          have hn : n = 0 := by
            simp only [List.length_cons] at hzero
            omega
          exact ⟨List.nil_prefix, List.suffix_cons .., Or.inr (Or.inr ⟨rfl, by simp [hn]⟩)⟩
        · rw [if_neg hzero] at h
          obtain ⟨later, hlater, h⟩ := CRun.bind_eq_ok.mp h
          obtain rfl := Except.ok.inj h
          obtain ⟨hfront, hsuffix, hret⟩ := ih hlater
          refine ⟨?_, hsuffix.trans (List.suffix_cons ..), ?_⟩
          · conv_rhs => rw [← List.take_append_drop (min n (b :: rest).length) (b :: rest)]
            exact (List.prefix_append_right_inj _).mpr hfront
          · rcases hret with ⟨hret, hall⟩ | ⟨e, hret⟩ | ⟨hret, hmem⟩
            · exact Or.inl ⟨hret, by rw [hall, List.take_append_drop]⟩
            · exact Or.inr (Or.inl ⟨e, hret⟩)
            · exact Or.inr (Or.inr ⟨hret, List.mem_cons_of_mem _ hmem⟩)

/-- What one block does when the destination never accepts 0 bytes: the source fails
or a side reports a failure, the source is at its end, or the whole block is moved. -/
theorem doTransferBlock_cases {blksize : ℕ} {c c' : CopyState} {ret : Except GftpError ℕ}
    (hputs : .ok 0 ∉ c.puts) (h : doTransferBlock blksize c = .ok (ret, c')) :
    (∃ e, ret = .error e ∧ (e = .noTrans → c'.noTrans = true)) ∨
      (ret = .ok 0 ∧ c'.sawEof = true ∧ c'.delivered = c.delivered ∧ c'.accepted = c.accepted) ∨
      ∃ d : Bytes, ret = .ok d.length ∧ 0 < d.length ∧ d.length ≤ blksize ∧
        c'.delivered = c.delivered ++ d ∧ c'.accepted = c.accepted ++ d ∧ .ok 0 ∉ c'.puts := by
  unfold doTransferBlock at h
  split at h
  · rename_i e source _
    obtain ⟨rfl, rfl⟩ := Prod.mk.inj (Except.ok.inj h)
    exact Or.inl ⟨e, rfl, fun he => by simp [he]⟩
  · rename_i d source hread
    obtain ⟨r, hrest, h⟩ := CRun.bind_eq_ok.mp h
    obtain ⟨rfl, rfl⟩ := Prod.mk.inj (Except.ok.inj h)
    obtain ⟨_, hsuffix, hret⟩ := putRest_contract hrest
    rcases hret with ⟨hret, hall⟩ | ⟨e, hret⟩ | ⟨_, hmem⟩
    · by_cases hd : d = []
      · subst hd
        exact Or.inr (Or.inl ⟨hret, by simp, by simp, by simp [hall]⟩)
      · have hsize : d.length ≤ blksize := by
          unfold getNextFileChunk at hread
          split at hread
          · simp at hread
          · exact readSome_length hread
        exact Or.inr (Or.inr ⟨d, hret, List.length_pos_iff.mpr hd, hsize, rfl, by rw [← hall],
          fun hmem => hputs (hsuffix.mem hmem)⟩)
    · exact Or.inl ⟨e, hret, fun he => by simp [hret, he]⟩
    · exact absurd hmem hputs

theorem transInt_ok_ne {n : ℕ} (hpos : 0 < n) (hlt : n < 2 ^ 32) : transInt (.ok n) ≠ 0 := by
  intro h
  rw [transInt_ok] at h
  have hdvd := Int.dvd_of_bmod_eq_zero h
  have hle := Int.le_of_dvd (by omega) hdvd
  omega

/-- As long as whole blocks are moved, the loop ends with a count of 0 only at the end
of the source or when a side asked for no transfer. -/
theorem copyLoop_zero {blksize : ℕ} (hblk : blksize < 2 ^ 32) {cancels : List Bool}
    {numTrans numTrans' : Except GftpError ℕ} {c c' : CopyState} (hputs : .ok 0 ∉ c.puts)
    (hcopied : c.accepted = c.delivered)
    (hcancel : cancels.head? = some true → transInt numTrans ≠ 0)
    (h : copyLoop blksize cancels numTrans c = .ok (numTrans', c'))
    (hzero : transInt numTrans' = 0) :
    c'.noTrans = true ∨ c'.sawEof = true ∧ c'.accepted = c'.delivered := by
  induction cancels generalizing numTrans c with
  | nil => simp [copyLoop] at h
  | cons cancel cancels ih =>
    cases cancel with
    | true =>
      simp only [copyLoop, Except.ok.injEq, Prod.mk.injEq] at h
      rw [← h.1] at hzero
      exact absurd hzero (hcancel rfl)
    | false =>
      obtain ⟨⟨num, c₁⟩, hblock, h⟩ := CRun.bind_eq_ok.mp h
      rcases doTransferBlock_cases hputs hblock with
        ⟨e, rfl, hno⟩ | ⟨rfl, heof, hdel, hacc⟩ | ⟨d, rfl, hpos, hle, hdel, hacc, hputs'⟩
      · simp only [moved, Bool.false_eq_true, if_false, pure, Except.pure, Except.ok.injEq,
          Prod.mk.injEq] at h
        obtain ⟨rfl, rfl⟩ := h
        refine Or.inl (hno ?_)
        by_contra hne
        have hbounds := e.code_bounds
        rw [transInt_error, if_neg hne] at hzero
        omega
      · simp only [moved, Nat.lt_irrefl, decide_false, Bool.false_eq_true, if_false, pure,
          Except.pure, Except.ok.injEq, Prod.mk.injEq] at h
        obtain ⟨rfl, rfl⟩ := h
        exact Or.inr ⟨heof, by rw [hdel, hacc, hcopied]⟩
      · refine ih hputs' (by rw [hdel, hacc, hcopied])
          (fun _ => transInt_ok_ne hpos (by omega)) ?_
        simpa [moved, hpos] using h

/-- With a destination that accepts something of every offer and a loop that is not
stopped before its first block, the copy succeeds only when the source was at its end
and every byte it delivered was accepted, or a side asked for no transfer. -/
theorem doTransferFile_complete {blksize : ℕ} {cancels : List Bool} {source : Stream GftpError}
    {puts : List PutOutcome} {fromEnd toEnd : Except GftpError Unit} {r : CopyResult}
    (hblk : blksize < 2 ^ 32) (hputs : .ok 0 ∉ puts) (hcancel : cancels.head? ≠ some true)
    (h : doTransferFile blksize cancels source puts fromEnd toEnd = .ok r)
    (hret : r.ret = 0 ∨ r.logged = true) :
    r.copy.noTrans = true ∨ r.copy.sawEof = true ∧ r.copy.accepted = r.copy.delivered := by
  obtain ⟨⟨numTrans, c⟩, hloop, h⟩ := CRun.bind_eq_ok.mp h
  obtain rfl := Except.ok.inj h
  have hzero : transInt numTrans = 0 := by
    rcases hret with hret | hlogged
    · by_contra hne
      simp only [endCopy, if_neg hne] at hret
      exact hne hret
    · exact (of_decide_eq_true hlogged).1
  exact copyLoop_zero hblk hputs rfl (fun hhead => absurd hhead hcancel) hloop hzero

theorem two_byte_copy_complete :
    ∃ r, doTransferFile 2 [false, false] [.ok [1, 2]] [.ok 1, .ok 1] (.ok ()) (.ok ()) = .ok r ∧
      r.ret = 0 ∧
      (r.copy.noTrans = true ∨ r.copy.sawEof = true ∧ r.copy.accepted = r.copy.delivered) :=
  ⟨_, rfl, rfl, @doTransferFile_complete 2 [false, false] [.ok [1, 2]] [.ok 1, .ok 1] (.ok ())
    (.ok ()) _ (by decide) (by decide) (by decide) rfl (Or.inl rfl)⟩

/-- A transfer between two servers succeeds without an end of file. -/
theorem server_to_server_not_complete :
    ¬ ∀ (blksize : ℕ) (cancels : List Bool) (source : Stream GftpError) (puts : List PutOutcome)
      (fromEnd toEnd : Except GftpError Unit) (r : CopyResult),
      doTransferFile blksize cancels source puts fromEnd toEnd = .ok r →
        r.ret = 0 ∨ r.logged = true →
          r.copy.sawEof = true ∧ r.copy.accepted = r.copy.delivered := by
  intro h
  have hrun := h 1 [false] [.error .noTrans] [] (.ok ()) (.ok ()) _ rfl (Or.inl rfl)
  exact absurd hrun.1 (by decide)

end Gftp.CopyLoop
