import Gftp.Protocol
import Mathlib.Algebra.GroupWithZero.Nat

/-!
The two functions that write a whole buffer: gftp_fd_write with write and gftp_ssl_write
with SSL_write. A run is driven by what the low-level calls return; when these come to an
end the run waits for the next one. Each call is recorded with the address and the count
it was given.
-/

namespace Gftp.WriteLoops

open Protocol

/-- A call of write or SSL_write. interrupted stands for errno being EINTR or EAGAIN. -/
structure Call where
  ptr : ℕ
  count : ℤ
  result : ℤ
  interrupted : Bool
  deriving DecidableEq

/-- The variables of a loop: ptr and size are 64 bits wide. -/
structure WriteState where
  ptr : ℕ
  size : ℕ
  ret : ℤ
  deriving DecidableEq

/-- What one turn of a loop does: it goes back to the test or returns. -/
inductive Turn
  | test (s : WriteState)
  | stop (e : GftpError)
  deriving DecidableEq

/-- ret is none when the run waits, and then rest holds the variables. -/
structure Run (ο : Type) where
  calls : List Call
  ret : Option ℤ
  rest : WriteState
  unused : List ο
  deriving DecidableEq

/-- A value of type size_t. -/
def sizeT (n : ℤ) : ℕ := (n % 2 ^ 64).toNat

/-- do { body } while (size > 0); return (ret); -/
def writeLoop {ο : Type} (body : WriteState → ο → List Call × Turn) :
    List ο → WriteState → Run ο
  | [], s => { calls := [], ret := none, rest := s, unused := [] }
  | o :: outcomes, s =>
      match body s o with
      | (calls, .stop e) => { calls := calls, ret := some e.code, rest := s, unused := outcomes }
      | (calls, .test s) =>
          if 0 < s.size then
            let r := writeLoop body outcomes s
            { r with calls := calls ++ r.calls }
          else { calls := calls, ret := some (Int64.ofInt s.ret).toInt, rest := s,
                 unused := outcomes }

/-- A function that returns before its loop. -/
def refusedRun {ο : Type} (outcomes : List ο) : Run ο :=
  { calls := [], ret := some GftpError.fatal.code, rest := ⟨0, 0, 0⟩, unused := outcomes }

inductive Wait
  | ready
  | interrupted
  | expired
  deriving DecidableEq

/-- What select and then write return. -/
structure FdOutcome where
  wait : Wait
  result : ℤ
  interrupted : Bool
  cancel : Bool
  deriving DecidableEq

/-- ret is an int. -/
def fdBody (s : WriteState) (o : FdOutcome) : List Call × Turn :=
  match o.wait with
  | .interrupted => ([], if o.cancel then .stop .retryable else .test s)
  | .expired => ([], .stop .retryable)
  | .ready =>
      let call : Call := ⟨s.ptr, s.size, o.result, o.interrupted⟩
      if o.result < 0 then
        if o.interrupted then ([call], if o.cancel then .stop .retryable else .test s)
        else ([call], .stop .retryable)
      else
        ([call], .test {
          ptr := sizeT (s.ptr + o.result)
          size := sizeT (s.size - o.result)
          ret := (Int32.ofInt (s.ret + o.result)).toInt })

def gftpFdWrite (fd : ℤ) (outcomes : List FdOutcome) (ptr size : ℕ) : Run FdOutcome :=
  if fd < 0 then refusedRun outcomes
  else writeLoop fdBody outcomes ⟨ptr, size, 0⟩

/-- What SSL_write returns. -/
structure SslOutcome where
  result : ℤ
  interrupted : Bool
  cancel : Bool
  deriving DecidableEq

/-- The count is passed as an int. -/
def sslCall (s : WriteState) (o : SslOutcome) : Call :=
  ⟨s.ptr, (Int32.ofInt s.size).toInt, o.result, o.interrupted⟩

/-- w_ret is a size_t, so only zero is not above zero. -/
def sslTurn (s : WriteState) (o : SslOutcome) : Turn :=
  let wRet := sizeT o.result
  if wRet = 0 then
    if o.interrupted then if o.cancel then .stop .retryable else .test s
    else .stop .retryable
  else
    .test {
      ptr := sizeT (s.ptr + wRet)
      size := sizeT (s.size - wRet)
      ret := sizeT (s.ret + wRet) }

def sslBody (s : WriteState) (o : SslOutcome) : List Call × Turn := ([sslCall s o], sslTurn s o)

/-- usable stands for a connection and an initialized library. -/
def gftpSslWrite (usable : Bool) (outcomes : List SslOutcome) (ptr size : ℕ) : Run SslOutcome :=
  if usable then writeLoop sslBody outcomes ⟨ptr, size, 0⟩ else refusedRun outcomes

/-- The number of bytes that were accepted. -/
def accepted (calls : List Call) : ℕ := (calls.map fun c => c.result.toNat).sum

/-- Each call is given bytes of the buffer, from the first one not accepted yet. -/
def InOrder (ptr size : ℕ) : ℕ → List Call → Prop
  | _, [] => True
  | pos, c :: calls =>
      c.ptr = ptr + pos ∧ c.ptr + c.count ≤ ptr + size ∧
        InOrder ptr size (pos + c.result.toNat) calls

/-- From pos on every byte is accepted once and in order. A value that is not negative is
returned only after the last one and is the size of the buffer when this fits an int, a
run that waits goes on from the first byte that is left, and after a call that failed the
run has returned a negative value. -/
structure Delivers {ο : Type} (fails : Call → Prop) (ptr size pos : ℕ) (r : Run ο) : Prop where
  inOrder : InOrder ptr size pos r.calls
  returned : ∀ v, r.ret = some v → 0 ≤ v →
    pos + accepted r.calls = size ∧ (size < 2 ^ 31 → v = size)
  waiting : r.ret = none →
    r.rest.ptr = ptr + (pos + accepted r.calls) ∧ r.rest.size + (pos + accepted r.calls) = size
  failed : ∀ c ∈ r.calls, fails c → ∃ v, r.ret = some v ∧ v < 0

/-- write fails with a negative result that is no interruption. -/
def fdFails (c : Call) : Prop := c.result < 0 ∧ c.interrupted = false

/-- SSL_write also fails with zero. -/
def sslFails (c : Call) : Prop := c.result ≤ 0 ∧ c.interrupted = false

/-- A low-level call accepts no more than it is given. -/
def Honest (calls : List Call) : Prop := ∀ c ∈ calls, -2 ^ 31 ≤ c.result ∧ c.result ≤ c.count

instance (calls : List Call) : Decidable (Honest calls) :=
  inferInstanceAs (Decidable (∀ c ∈ calls, -2 ^ 31 ≤ c.result ∧ c.result ≤ c.count))

/-- The variables after pos bytes were accepted. -/
structure At (ptr size pos : ℕ) (s : WriteState) : Prop where
  le : pos ≤ size
  ptrAt : s.ptr = ptr + pos
  left : s.size + pos = size
  retAt : size < 2 ^ 31 → s.ret = pos

variable {ο : Type} {ptr size pos : ℕ} {fails : Call → Prop}

@[simp] theorem accepted_nil : accepted [] = 0 := rfl

@[simp] theorem accepted_append (a b : List Call) :
    accepted (a ++ b) = accepted a + accepted b := by
  simp [accepted]

@[simp] theorem accepted_singleton (c : Call) : accepted [c] = c.result.toNat := by
  simp [accepted]

theorem inOrder_append (a b : List Call) :
    InOrder ptr size pos (a ++ b) ↔
      InOrder ptr size pos a ∧ InOrder ptr size (pos + accepted a) b := by
  induction a generalizing pos with
  | nil => simp [InOrder]
  | cons c a ih =>
    have hsum : pos + accepted (c :: a) = pos + c.result.toNat + accepted a := by
      simp only [accepted, List.map_cons, List.sum_cons]
      omega
    simp only [List.cons_append, InOrder, ih, hsum, and_assoc]

theorem sizeT_of_lt {n : ℤ} (hlow : 0 ≤ n) (h : n < 2 ^ 64) : (sizeT n : ℤ) = n := by
  unfold sizeT
  omega

theorem int32_of_lt {n : ℤ} (hlow : 0 ≤ n) (h : n < 2 ^ 31) : (Int32.ofInt n).toInt = n := by
  have hsize : Int32.size = 2 ^ 32 := rfl
  rw [Int32.toInt_ofInt, Int.bmod_eq_of_le] <;> omega

theorem int64_of_lt {n : ℤ} (hlow : 0 ≤ n) (h : n < 2 ^ 63) : (Int64.ofInt n).toInt = n := by
  have hsize : Int64.size = 2 ^ 64 := rfl
  rw [Int64.toInt_ofInt, Int.bmod_eq_of_le] <;> omega

/-- What a turn from pos on has to do: its call is in order, and the loop goes on from the
bytes that are left unless a call failed. -/
def GoodTurn (fails : Call → Prop) (ptr size pos : ℕ) (t : List Call × Turn) : Prop :=
  InOrder ptr size pos t.1 ∧
    ∀ s, t.2 = .test s → At ptr size (pos + accepted t.1) s ∧ ∀ c ∈ t.1, ¬ fails c

theorem writeLoop_delivers {body : WriteState → ο → List Call × Turn} {outcomes : List ο}
    {s : WriteState} (hs : At ptr size pos s)
    (hbody : ∀ o ∈ outcomes, ∀ pos s, At ptr size pos s → Honest (body s o).1 →
      GoodTurn fails ptr size pos (body s o))
    (h : Honest (writeLoop body outcomes s).calls) :
    Delivers fails ptr size pos (writeLoop body outcomes s) := by
  induction outcomes generalizing pos s with
  | nil => exact ⟨trivial, by simp [writeLoop], fun _ => ⟨hs.ptrAt, hs.left⟩, by simp [writeLoop]⟩
  | cons o outcomes ih =>
    have hturn := hbody o (List.mem_cons_self ..) pos s hs
    rw [writeLoop] at h ⊢
    obtain ⟨⟨calls, turn⟩, hb⟩ : ∃ t, body s o = t := ⟨_, rfl⟩
    rw [hb] at h hturn ⊢
    cases turn with
    | stop e =>
      have hneg := e.code_bounds.2
      refine ⟨(hturn h).1, ?_, by simp, fun c _ _ => ⟨_, rfl, hneg⟩⟩
      intro v hv hpos
      obtain rfl := Option.some.inj hv
      omega
    | test s' =>
      dsimp only at h ⊢
      by_cases hmore : 0 < s'.size
      · rw [if_pos hmore] at h ⊢
        obtain ⟨hin, hgo⟩ := hturn fun c hc => h c (List.mem_append_left _ hc)
        obtain ⟨hat, hnone⟩ := hgo s' rfl
        obtain ⟨hrest, hret, hwait, hfail⟩ := ih hat
          (fun o ho => hbody o (List.mem_cons_of_mem _ ho))
          fun c hc => h c (List.mem_append_right _ hc)
        refine ⟨(inOrder_append _ _).mpr ⟨hin, hrest⟩, ?_, ?_, ?_⟩
        · intro v hv hpos
          simpa [Nat.add_assoc] using hret v hv hpos
        · intro hnothing
          simpa [Nat.add_assoc] using hwait hnothing
        · intro c hc hc'
          rcases List.mem_append.mp hc with hc | hc
          · exact absurd hc' (hnone c hc)
          · exact hfail c hc hc'
      · rw [if_neg hmore] at h ⊢
        obtain ⟨hin, hgo⟩ := hturn h
        obtain ⟨hat, hnone⟩ := hgo s' rfl
        have hleft := hat.left
        refine ⟨hin, ?_, by simp, fun c hc hc' => absurd hc' (hnone c hc)⟩
        intro v hv _
        obtain rfl := Option.some.inj hv
        dsimp only at hleft ⊢
        refine ⟨by omega, fun hsize => ?_⟩
        have hret := hat.retAt hsize
        dsimp only at hret
        rw [hret, int64_of_lt (by omega) (by omega)]
        omega

theorem at_start (ptr size : ℕ) : At ptr size 0 ⟨ptr, size, 0⟩ :=
  ⟨Nat.zero_le _, rfl, rfl, fun _ => rfl⟩

theorem refusedRun_delivers (outcomes : List ο) :
    Delivers fails ptr size 0 (refusedRun outcomes) := by
  refine ⟨trivial, ?_, by simp [refusedRun], by simp [refusedRun]⟩
  intro v hv hpos
  have hneg := GftpError.fatal.code_bounds.2
  obtain rfl := Option.some.inj hv
  omega

/-- A turn that makes no call, or whose call was interrupted, leaves the variables. -/
theorem goodTurn_stay {calls : List Call} {s : WriteState} {turn : Turn}
    (hs : At ptr size pos s) (hin : InOrder ptr size pos calls) (hzero : accepted calls = 0)
    (hnone : turn = .test s → ∀ c ∈ calls, ¬ fails c)
    (hturn : ∀ s', turn = .test s' → s' = s) :
    GoodTurn fails ptr size pos (calls, turn) := by
  refine ⟨hin, ?_⟩
  rintro s' hs'
  dsimp only at hs' ⊢
  obtain rfl := hturn s' hs'
  rw [hzero]
  exact ⟨hs, hnone hs'⟩

theorem fdBody_good (hsize : size < 2 ^ 63) (hptr : ptr + size < 2 ^ 64) (o : FdOutcome)
    {s : WriteState} (hs : At ptr size pos s) (h : Honest (fdBody s o).1) :
    GoodTurn fdFails ptr size pos (fdBody s o) := by
  obtain ⟨hle, hat, hleft, hret⟩ := id hs
  unfold fdBody at h ⊢
  cases hwait : o.wait with
  | interrupted =>
    dsimp only
    apply @goodTurn_stay _ _ _ _ [] _ _ hs trivial rfl (by simp)
    intro s' hs'
    split_ifs at hs'
    exact (Turn.test.inj hs').symm
  | expired => exact @goodTurn_stay _ _ _ _ [] _ _ hs trivial rfl (by simp) (by simp)
  | ready =>
    simp only [hwait] at h ⊢
    by_cases hneg : o.result < 0
    · simp only [if_pos hneg] at h ⊢
      have hin : InOrder ptr size pos [⟨s.ptr, s.size, o.result, o.interrupted⟩] := by
        refine ⟨hat, ?_, trivial⟩
        dsimp only
        omega
      have hzero : accepted [⟨s.ptr, s.size, o.result, o.interrupted⟩] = 0 := by
        rw [accepted_singleton]
        exact Int.toNat_of_nonpos (by dsimp only; omega)
      by_cases hint : o.interrupted = true
      · simp only [hint, if_true]
        rw [hint] at hin hzero
        apply goodTurn_stay hs hin hzero
        · simp [fdFails]
        · intro s' hs'
          split_ifs at hs'
          exact (Turn.test.inj hs').symm
      · simp only [if_neg hint]
        exact goodTurn_stay hs hin hzero (by simp) (by simp)
    · simp only [if_neg hneg] at h ⊢
      have hcount := (h _ (List.mem_cons_self ..)).2
      dsimp only at hcount
      refine ⟨⟨hat, by dsimp only; omega, trivial⟩, ?_⟩
      rintro s' hs'
      obtain rfl := Turn.test.inj hs'
      have hptr' := @sizeT_of_lt (s.ptr + o.result) (by omega) (by omega)
      have hsize' := @sizeT_of_lt (s.size - o.result) (by omega) (by omega)
      rw [accepted_singleton]
      refine ⟨⟨by dsimp only; omega, by dsimp only; omega, by dsimp only; omega, ?_⟩, ?_⟩
      · intro hsmall
        dsimp only
        rw [hret hsmall, int32_of_lt (by omega) (by omega)]
        omega
      · simp only [List.mem_singleton, forall_eq, fdFails]
        omega

theorem fd_write_delivers (fd : ℤ) (outcomes : List FdOutcome) {ptr size : ℕ}
    (hsize : size < 2 ^ 63) (hptr : ptr + size < 2 ^ 64)
    (h : Honest (gftpFdWrite fd outcomes ptr size).calls) :
    Delivers fdFails ptr size 0 (gftpFdWrite fd outcomes ptr size) := by
  unfold gftpFdWrite at h ⊢
  split_ifs at h ⊢
  · exact refusedRun_delivers outcomes
  · exact writeLoop_delivers (at_start ptr size)
      (fun o _ pos s hs hhonest => fdBody_good hsize hptr o hs hhonest) h

theorem int32_le {n : ℤ} (h : 0 ≤ n) : (Int32.ofInt n).toInt ≤ n := by
  have hsize : ((Int32.size : ℕ) : ℤ) = 4294967296 := rfl
  rw [Int32.toInt_ofInt, Int.bmod_def, hsize]
  split_ifs <;> omega

/-- Zero and what counts as progress are told apart as long as nothing is negative. -/
theorem sslBody_good (hsize : size < 2 ^ 63) (hptr : ptr + size < 2 ^ 64) {o : SslOutcome}
    (ho : 0 ≤ o.result) {s : WriteState} (hs : At ptr size pos s)
    (h : Honest (sslBody s o).1) : GoodTurn sslFails ptr size pos (sslBody s o) := by
  obtain ⟨hle, hat, hleft, hret⟩ := id hs
  have hcount := (h _ (List.mem_cons_self ..)).2
  have hint := @int32_le s.size (by omega)
  simp only [sslCall] at hcount
  have hin : InOrder ptr size pos [sslCall s o] := by
    refine ⟨hat, ?_, trivial⟩
    simp only [sslCall]
    omega
  have hwret := @sizeT_of_lt o.result (by omega) (by omega)
  have hbytes : accepted [sslCall s o] = sizeT o.result := by
    rw [accepted_singleton]
    simp only [sslCall]
    omega
  by_cases hzero : sizeT o.result = 0
  · apply goodTurn_stay hs hin (hbytes.trans hzero)
    · intro hturn
      simp only [List.mem_singleton, forall_eq, sslFails, sslCall]
      rintro ⟨-, hno⟩
      simp [sslTurn, hzero, hno] at hturn
    · intro s' hs'
      simp only [sslTurn, hzero, if_true] at hs'
      split_ifs at hs'
      exact (Turn.test.inj hs').symm
  · refine ⟨hin, ?_⟩
    rintro s' hs'
    simp only [sslBody, sslTurn, if_neg hzero] at hs'
    obtain rfl := Turn.test.inj hs'
    have hptr' := @sizeT_of_lt (s.ptr + sizeT o.result) (by omega) (by omega)
    have hsize' := @sizeT_of_lt (s.size - sizeT o.result) (by omega) (by omega)
    simp only [sslBody, hbytes]
    refine ⟨⟨by omega, by dsimp only; omega, by dsimp only; omega, ?_⟩, ?_⟩
    · intro hsmall
      have hret' := hret hsmall
      have hsum := @sizeT_of_lt (s.ret + sizeT o.result) (by omega) (by omega)
      dsimp only
      omega
    · simp only [List.mem_singleton, forall_eq, sslFails, sslCall]
      omega

/-- What follows a call goes on from the bytes that are left. -/
theorem Delivers.tail {c : Call} {r : Run ο}
    (h : Delivers fails ptr size pos { r with calls := [c] ++ r.calls }) :
    Delivers fails ptr size (pos + c.result.toNat) r := by
  obtain ⟨hin, hret, hwait, hfail⟩ := h
  simp only [accepted_append, accepted_singleton] at hret hwait
  refine ⟨hin.2.2, ?_, ?_, fun c' hc' => hfail c' (List.mem_append_right _ hc')⟩
  · simpa [Nat.add_assoc] using hret
  · simpa [Nat.add_assoc] using hwait

theorem ssl_first_call {outcomes : List SslOutcome} {s : WriteState}
    (h : Delivers fails ptr size pos (writeLoop sslBody outcomes s)) : s.ptr = ptr + pos := by
  cases outcomes with
  | nil => simpa [writeLoop] using (h.waiting rfl).1
  | cons o outcomes =>
    have hin := h.inOrder
    simp only [writeLoop, sslBody] at hin
    cases hturn : sslTurn s o with
    | stop e =>
      simp only [hturn] at hin
      exact hin.1
    | test s' =>
      simp only [hturn] at hin
      split_ifs at hin
      · exact hin.1
      · exact hin.1

/-- A negative result counts as a huge one: ptr goes back and size grows. -/
theorem sslTurn_negative (hsize : size < 2 ^ 63) (hptr : ptr + size < 2 ^ 64) {o : SslOutcome}
    {s : WriteState} (hs : At ptr size pos s) (hlow : -2 ^ 31 ≤ o.result) (hneg : o.result < 0) :
    ∃ s', sslTurn s o = .test s' ∧ 0 < s'.size ∧ s'.ptr ≠ ptr + pos := by
  obtain ⟨hle, hat, hleft, _⟩ := hs
  have hwret : sizeT o.result ≠ 0 := by
    unfold sizeT
    omega
  refine ⟨_, if_neg hwret, ?_, ?_⟩
  · dsimp only [sizeT]
    omega
  · dsimp only [sizeT]
    omega

theorem ssl_no_negative (hsize : size < 2 ^ 63) (hptr : ptr + size < 2 ^ 64)
    {outcomes : List SslOutcome} {s : WriteState} (hs : At ptr size pos s)
    (hhonest : Honest (writeLoop sslBody outcomes s).calls)
    (hused : (writeLoop sslBody outcomes s).unused = [])
    (h : Delivers sslFails ptr size pos (writeLoop sslBody outcomes s)) :
    ∀ o ∈ outcomes, 0 ≤ o.result := by
  induction outcomes generalizing pos s with
  | nil => simp
  | cons o outcomes ih =>
    simp only [writeLoop, sslBody] at hhonest hused h
    have hcall : Honest [sslCall s o] := by
      intro c hc
      apply hhonest c
      cases hturn : sslTurn s o with
      | stop e => simpa using hc
      | test s' =>
        dsimp only
        split_ifs
        · exact List.mem_append_left _ hc
        · exact hc
    have hfirst : 0 ≤ o.result := by
      by_contra hneg
      have hlow := (hcall _ (List.mem_cons_self ..)).1
      obtain ⟨s', hturn, hmore, hmoved⟩ := sslTurn_negative hsize hptr hs hlow (by omega)
      simp only [hturn, if_pos hmore] at h
      have hnone : (sslCall s o).result.toNat = 0 := by
        simp only [sslCall]
        omega
      have htail := h.tail
      rw [hnone] at htail
      exact hmoved (ssl_first_call htail)
    have hgood := sslBody_good hsize hptr hfirst hs hcall
    rw [List.forall_mem_cons]
    refine ⟨hfirst, ?_⟩
    cases hturn : sslTurn s o with
    | stop e => simp_all
    | test s' =>
      simp only [hturn] at hhonest hused h
      have hat := (hgood.2 s' hturn).1
      rw [sslBody, accepted_singleton] at hat
      by_cases hmore : 0 < s'.size
      · rw [if_pos hmore] at hhonest hused h
        exact ih hat (fun c hc => hhonest c (List.mem_append_right _ hc)) hused h.tail
      · rw [if_neg hmore] at hused
        simp_all

theorem ssl_write_delivers_iff (usable : Bool) (outcomes : List SslOutcome) {ptr size : ℕ}
    (hsize : size < 2 ^ 63) (hptr : ptr + size < 2 ^ 64)
    (h : Honest (gftpSslWrite usable outcomes ptr size).calls)
    (hused : (gftpSslWrite usable outcomes ptr size).unused = []) :
    Delivers sslFails ptr size 0 (gftpSslWrite usable outcomes ptr size) ↔
      ∀ o ∈ outcomes, 0 ≤ o.result := by
  unfold gftpSslWrite at h hused ⊢
  split_ifs at h hused ⊢
  · constructor
    · exact ssl_no_negative hsize hptr (at_start ptr size) h hused
    · intro hnone
      exact writeLoop_delivers (at_start ptr size)
        (fun o ho pos s hs hcall => sslBody_good hsize hptr (hnone o ho) hs hcall) h
  · obtain rfl : outcomes = [] := hused
    exact iff_of_true (refusedRun_delivers []) (by simp)

/-- Both loops deliver whatever their calls return, except that SSL_write may return
nothing negative. -/
theorem writes_deliver_iff {ptr size : ℕ} (hsize : size < 2 ^ 63) (hptr : ptr + size < 2 ^ 64) :
    (∀ fd outcomes, Honest (gftpFdWrite fd outcomes ptr size).calls →
      Delivers fdFails ptr size 0 (gftpFdWrite fd outcomes ptr size)) ∧
    ∀ usable outcomes, Honest (gftpSslWrite usable outcomes ptr size).calls →
      (gftpSslWrite usable outcomes ptr size).unused = [] →
        (Delivers sslFails ptr size 0 (gftpSslWrite usable outcomes ptr size) ↔
          ∀ o ∈ outcomes, 0 ≤ o.result) :=
  ⟨fun fd outcomes => fd_write_delivers fd outcomes hsize hptr,
    fun usable outcomes => ssl_write_delivers_iff usable outcomes hsize hptr⟩

/-- Three bytes go out in two parts with an interruption between them. -/
theorem interrupted_write_delivered :
    Delivers sslFails 4096 3 0
      (gftpSslWrite true [⟨2, false, false⟩, ⟨0, true, false⟩, ⟨1, false, false⟩] 4096 3) :=
  ((writes_deliver_iff (by decide) (by decide)).2 true _ (by decide) (by decide)).mpr (by decide)

/-- After a broken connection the loop goes on from the byte before the buffer, and the
size of the buffer is returned when one byte more was accepted. -/
theorem broken_connection_counted :
    Honest (gftpSslWrite true [⟨-1, false, false⟩, ⟨4, false, false⟩] 4096 3).calls ∧
      gftpSslWrite true [⟨-1, false, false⟩, ⟨4, false, false⟩] 4096 3 =
        { calls := [⟨4096, 3, -1, false⟩, ⟨4095, 4, 4, false⟩], ret := some 3,
          rest := ⟨4099, 0, 3⟩, unused := [] } ∧
      ¬ Delivers sslFails 4096 3 0
        (gftpSslWrite true [⟨-1, false, false⟩, ⟨4, false, false⟩] 4096 3) := by
  refine ⟨by decide, by decide, ?_⟩
  intro h
  exact absurd h.inOrder.2.2.1 (by decide)

end Gftp.WriteLoops
