import Gftp.HttpResponses
import Gftp.LineTermination

/-!
rfc2068_chunked_read returns, and what it delivers it takes out of the stash and the
stream. A read of nothing that takes nothing from them was not going to ask, or the stream
is at its end; then every later read of nothing is like it.
-/

namespace Gftp.HttpReadWeight

open ByteStrings Cells Cell Fuel HttpDecoding HttpResponses LineSource LineTermination Protocol Sockets
open ListingParsers (offT)

variable {κ : Type} [Cell κ]

/-- The bytes a descriptor still delivers, and the reads that they take at least. -/
def streamWeight (fd : Option (Socket κ)) : ℕ :=
  match fd with
  | none => 0
  | some k => (held k.stream).length + k.stream.length

def stashed (s : Session κ) : ℕ := (s.extraReadBuffer.getD []).length

/-- What is left in the stash and the stream. -/
def left (s : Session κ) : ℕ := streamWeight s.datafd + stashed s

/-- A stash that is not there weighs less than an empty one. -/
def weight (s : Session κ) : ℕ := 2 * left s + if s.extraReadBuffer.isSome then 1 else 0

section Descriptor

variable {size : ℕ} {fd fd' : Option (Socket κ)} {d : List κ}

omit [Cell κ] in
theorem readCells_length {stream stream' : CellStream Unit κ}
    (h : readCells size stream = (.ok d, stream')) :
    stream'.length ≤ stream.length ∧
      (d = [] → 0 < size → stream'.length < stream.length ∨ stream = []) := by
  unfold readCells at h
  split at h
  · simp only [Prod.mk.injEq] at h
    rw [← h.2]
    exact ⟨le_rfl, fun _ _ => .inr rfl⟩
  · simp at h
  · rename_i block rest
    split at h
    · simp only [Prod.mk.injEq] at h
      rw [← h.2, List.length_cons]
      exact ⟨Nat.le_succ _, fun _ _ => .inl (Nat.lt_succ_self _)⟩
    · rename_i hlong
      simp only [Prod.mk.injEq, Except.ok.injEq] at h
      rw [← h.2]
      refine ⟨le_rfl, fun hnil hpos => ?_⟩
      have hlen := congrArg List.length (h.1.trans hnil)
      rw [List.length_take, List.length_nil] at hlen
      omega

omit [Cell κ] in
theorem fdRead_weight (h : gftpFdRead size fd = (.ok d, fd')) :
    streamWeight fd' + d.length ≤ streamWeight fd ∧
      (d = [] → 0 < size → streamWeight fd' < streamWeight fd ∨
        ∃ k, fd = some k ∧ k.stream = []) := by
  cases fd with
  | none => simp [gftpFdRead] at h
  | some k =>
    simp only [gftpFdRead] at h
    split at h
    · simp at h
    · rename_i d' stream hread
      simp only [Prod.mk.injEq, Except.ok.injEq] at h
      obtain ⟨rfl, rfl⟩ := h
      have hheld := congrArg List.length (readCells_held hread)
      rw [List.length_append] at hheld
      obtain ⟨hle, hnone⟩ := readCells_length hread
      simp only [streamWeight]
      refine ⟨by omega, fun hnil hpos => ?_⟩
      rcases hnone hnil hpos with hlt | hempty
      · exact .inl (by omega)
      · exact .inr ⟨k, rfl, hempty⟩

end Descriptor

section Decoding

variable {fuel size n : ℕ} {done cur junk front mem : List κ} {s s' : Session κ} {out : Decoded κ}

/-- The session a round of reading and decoding leaves. -/
def after : Decoded κ → Session κ
  | .returned (_, s) => s
  | .stashed _ s => s

/-- What the round leaves of total bytes. -/
def Leaves (total : ℕ) : Decoded κ → Prop
  | .returned (r, s') =>
      ∀ n, r.ret = .ok n → left s' + n ≤ total ∧ (n = 0 → s'.extraReadBuffer = none)
  | .stashed _ s' => left s' ≤ total

omit [Cell κ] in
theorem Leaves.mono {t t' : ℕ} (h : Leaves t out) (hle : t ≤ t') : Leaves t' out := by
  cases out with
  | returned chunk =>
    intro n hn
    obtain ⟨hleft, hzero⟩ := h n hn
    exact ⟨by omega, hzero⟩
  | stashed stored s' => exact Nat.le_trans h hle

theorem decodeLoop_leaves (hextra : s.extraReadBuffer = none)
    (h : decodeLoop fuel done cur junk s = .ok out) :
    Leaves (streamWeight s.datafd + done.length + cur.length) out := by
  have hstash : stashed s = 0 := by simp [stashed, hextra]
  induction fuel generalizing done cur junk s with
  | zero => simp [decodeLoop] at h
  | succ fuel ih =>
    unfold decodeLoop at h
    split at h
    · simp only [Except.ok.injEq] at h
      subst h
      refine fun n hn => ⟨?_, fun _ => hextra⟩
      obtain rfl := Except.ok.inj hn
      simp only [left, hstash]
      omega
    · split at h
      · have hleft : left { s with extraReadBuffer := some cur } =
            streamWeight s.datafd + cur.length := rfl
        simp only at h
        split at h
        · simp only [Except.ok.injEq] at h
          subst h
          show left _ ≤ _
          omega
        · rename_i hdone
          simp only [Except.ok.injEq] at h
          subst h
          intro n hn
          obtain rfl := Except.ok.inj hn
          exact ⟨by omega, fun hzero => absurd (List.length_eq_zero_iff.mp hzero) hdone⟩
      · rename_i i hline
        simp only at h
        split at h
        · simp only [Except.ok.injEq] at h
          subst h
          exact fun n hn => by simp at hn
        · rename_i v hscan
          have hrest : (cur.drop (i + 4)).length ≤ cur.length := by
            rw [List.length_drop]
            omega
          split at h
          · split at h
            · simp only [Except.ok.injEq] at h
              subst h
              refine fun n hn => ⟨?_, fun _ => hextra⟩
              obtain rfl := Except.ok.inj hn
              show streamWeight s.datafd + stashed s + 0 ≤ _
              omega
            · simp only [Except.ok.injEq] at h
              subst h
              refine fun n hn => ⟨?_, fun _ => hextra⟩
              obtain rfl := Except.ok.inj hn
              show streamWeight s.datafd + stashed s + (done.length + (cur.drop (i + 4)).length) ≤ _
              omega
          · have hsplit := congrArg List.length
              (List.take_append_drop (asSize (offT v)) (cur.drop (i + 4)))
            rw [List.length_append] at hsplit
            split at h
            · refine (ih (s := { s with chunkSize := 0 }) hextra h hstash).mono ?_
              simp only [List.length_append]
              omega
            · refine (ih (s := { s with chunkSize := offT (offT v - (cur.drop (i + 4)).length) })
                hextra h hstash).mono ?_
              simp only
              omega

/-- Decoding counts no call and reads nothing. -/
theorem decodeLoop_keeps (h : decodeLoop fuel done cur junk s = .ok out) :
    (after out).readRefCnt = s.readRefCnt ∧
      streamWeight (after out).datafd ≤ streamWeight s.datafd := by
  induction fuel generalizing done cur junk s with
  | zero => simp [decodeLoop] at h
  | succ fuel ih =>
    unfold decodeLoop at h
    split at h
    · simp only [Except.ok.injEq] at h
      subst h
      exact ⟨rfl, le_rfl⟩
    · split at h
      · simp only at h
        split at h <;>
        · simp only [Except.ok.injEq] at h
          subst h
          exact ⟨rfl, le_rfl⟩
      · simp only at h
        split at h
        · simp only [Except.ok.injEq] at h
          subst h
          exact ⟨rfl, Nat.zero_le _⟩
        · split at h
          · split at h <;>
            · simp only [Except.ok.injEq] at h
              subst h
              exact ⟨rfl, le_rfl⟩
          · split at h
            · exact ih (s := { s with chunkSize := 0 }) h
            · exact ih (s := { s with chunkSize := offT (offT _ - (cur.drop (_ + 4)).length) }) h

theorem decodeLoop_settled (hfuel : cur.length < fuel) : Settled (decodeLoop fuel done cur junk s) := by
  induction fuel generalizing done cur junk s with
  | zero => omega
  | succ fuel ih =>
    unfold decodeLoop
    split
    · exact .ok _
    · rename_i hgo
      have hpos : 0 < cur.length := List.length_pos_iff.mpr fun hnil => hgo (.inr hnil)
      split
      · simp only
        split
        · exact .ok _
        · exact .ok _
      · rename_i i hline
        simp only
        split
        · exact .ok _
        · split
          · split
            · exact .ok _
            · exact .ok _
          · split
            · exact ih (by rw [List.length_drop, List.length_drop]; omega)
            · exact ih (by rw [List.length_drop]; omega)

theorem decode_settled : Settled (decode mem s) := by
  unfold decode
  split
  · exact decodeLoop_settled (Nat.lt_succ_self _)
  · exact .ok _

theorem decode_leaves (hextra : s.extraReadBuffer = none) (h : decode mem s = .ok out) :
    Leaves (streamWeight s.datafd + mem.length) out := by
  unfold decode at h
  split at h
  · exact decodeLoop_leaves hextra h
  · simp only [Except.ok.injEq] at h
    subst h
    refine fun n hn => ⟨?_, fun _ => hextra⟩
    obtain rfl := Except.ok.inj hn
    simp [left, stashed, hextra]

theorem decode_keeps (h : decode mem s = .ok out) :
    (after out).readRefCnt = s.readRefCnt ∧
      streamWeight (after out).datafd ≤ streamWeight s.datafd := by
  unfold decode at h
  split at h
  · exact decodeLoop_keeps h
  · simp only [Except.ok.injEq] at h
    subst h
    exact ⟨rfl, le_rfl⟩

end Decoding

section Rounds

variable {size n passes : ℕ} {front : List κ} {s s' : Session κ} {out : Decoded κ}
  {r : Reading GftpError κ}

theorem receive_settled : Settled (receive front size n s) := by
  unfold receive
  split
  · simp only
    split
    · exact .ok _
    · split
      · exact .ok _
      · split
        · exact .ok _
        · exact decode_settled
  · exact decode_settled

/-- A round reads nothing and decodes what is in front, or fails to read, or reads. -/
theorem receive_cases (h : receive front size n s = .ok out) :
    (¬ (0 < n ∧ s.eof = false) ∧ decode front s = .ok out) ∨
      (∃ e fd, out = .returned (⟨.error e, front⟩, { s with datafd := fd }) ∧
        streamWeight fd ≤ streamWeight s.datafd) ∨
      ∃ d fd, gftpFdRead (if size = n then n - 1 else n) s.datafd = (.ok d, fd) ∧ 0 < n ∧
        ((d = [] ∧ out = .returned (⟨.ok 0, front⟩, { s with datafd := fd })) ∨
          d ≠ [] ∧ (out = .returned (⟨.ok d.length, front ++ d⟩, { s with
              datafd := fd
              readBytes := (s.readBytes + d.length) % 2 ^ 64
              chunkSize := s.chunkSize - d.length }) ∨
            decode (front ++ d) { s with
              datafd := fd
              readBytes := (s.readBytes + d.length) % 2 ^ 64 } = .ok out)) := by
  unfold receive at h
  split at h
  · rename_i hread
    cases hgot : gftpFdRead (if size = n then n - 1 else n) s.datafd with
    | mk result fd =>
      simp only [hgot] at h
      cases result with
      | error e =>
        simp only [Except.ok.injEq] at h
        refine .inr (.inl ⟨e, fd, h.symm, ?_⟩)
        have hfd : fd = none := by
          unfold gftpFdRead at hgot
          split at hgot
          · exact (Prod.mk.inj hgot).2.symm
          · split at hgot
            · exact (Prod.mk.inj hgot).2.symm
            · simp at hgot
        exact hfd ▸ Nat.zero_le _
      | ok d =>
        refine .inr (.inr ⟨d, fd, rfl, hread.1, ?_⟩)
        simp only at h
        split at h
        · rename_i hnil
          simp only [Except.ok.injEq] at h
          exact .inl ⟨hnil, h.symm⟩
        · rename_i hne
          split at h
          · simp only [Except.ok.injEq] at h
            exact .inr ⟨hne, .inl h.symm⟩
          · exact .inr ⟨hne, .inr h⟩
  · rename_i hread
    exact .inl ⟨hread, h⟩

theorem receive_leaves (hextra : s.extraReadBuffer = none) (h : receive front size n s = .ok out) :
    Leaves (streamWeight s.datafd + front.length) out := by
  rcases receive_cases h with ⟨-, h⟩ | ⟨e, fd, rfl, -⟩ | ⟨d, fd, hread, -, h⟩
  · exact decode_leaves hextra h
  · exact fun n hn => by simp at hn
  · obtain ⟨hfd, -⟩ := fdRead_weight hread
    rcases h with ⟨rfl, rfl⟩ | ⟨-, rfl | h⟩
    · refine fun n hn => ⟨?_, fun _ => hextra⟩
      obtain rfl := Except.ok.inj hn
      simp only [left, stashed, hextra, Option.getD_none, List.length_nil] at hfd ⊢
      omega
    · refine fun n hn => ⟨?_, fun _ => hextra⟩
      obtain rfl := Except.ok.inj hn
      simp only [left, stashed, hextra, Option.getD_none, List.length_nil]
      omega
    · refine (decode_leaves (s := { s with
        datafd := fd
        readBytes := (s.readBytes + d.length) % 2 ^ 64 }) hextra h).mono ?_
      simp only [List.length_append]
      omega

theorem receive_keeps (h : receive front size n s = .ok out) :
    (after out).readRefCnt = s.readRefCnt ∧
      streamWeight (after out).datafd ≤ streamWeight s.datafd := by
  rcases receive_cases h with ⟨-, h⟩ | ⟨e, fd, rfl, hfd⟩ | ⟨d, fd, hread, -, h⟩
  · exact decode_keeps h
  · exact ⟨rfl, hfd⟩
  · obtain ⟨hfd, -⟩ := fdRead_weight hread
    rcases h with ⟨-, rfl⟩ | ⟨-, rfl | h⟩
    · exact ⟨rfl, show streamWeight fd ≤ _ by omega⟩
    · exact ⟨rfl, show streamWeight fd ≤ _ by omega⟩
    · obtain ⟨hcount, hstream⟩ := decode_keeps h
      simp only at hcount hstream
      exact ⟨hcount, by omega⟩

/-- Nothing is asked for, or the stream is at its end. -/
def Quiet (size : ℕ) (s : Session κ) : Prop :=
  0 < s.contentLength ∧ s.contentLength = s.readBytes ∨ readSize size s = 0 ∨ s.eof = true ∨
    ∃ k, s.datafd = some k ∧ k.stream = []

/-- A round that begins with nothing takes something from the stream, or fails, or there is
nothing to take. -/
theorem receive_quiet (hsize : 2 ≤ size) (h : receive [] size n s = .ok out) :
    streamWeight (after out).datafd < streamWeight s.datafd ∨
      (∃ e stored s', out = .returned (⟨.error e, stored⟩, s')) ∨
      n = 0 ∨ s.eof = true ∨ ∃ k, s.datafd = some k ∧ k.stream = [] := by
  rcases receive_cases h with ⟨hidle, h⟩ | ⟨e, fd, rfl, -⟩ | ⟨d, fd, hread, hpos, h⟩
  · by_cases hn : n = 0
    · exact .inr (.inr (.inl hn))
    · refine .inr (.inr (.inr (.inl ?_)))
      cases heof : s.eof with
      | true => rfl
      | false => exact absurd ⟨by omega, heof⟩ hidle
  · exact .inr (.inl ⟨e, _, _, rfl⟩)
  · obtain ⟨hfd, hnone⟩ := fdRead_weight hread
    have hasked : 0 < if size = n then n - 1 else n := by
      split <;> omega
    rcases h with ⟨rfl, rfl⟩ | ⟨hne, rfl | h⟩
    · rcases hnone rfl hasked with hlt | hend
      · exact .inl hlt
      · exact .inr (.inr (.inr (.inr hend)))
    · have hd := List.length_pos_iff.mpr hne
      exact .inl (show streamWeight fd < _ by omega)
    · have hd := List.length_pos_iff.mpr hne
      have hstream := (decode_keeps h).2
      simp only at hstream
      exact .inl (by omega)

theorem startPass_settled {run : CRun (Decoded κ)} (h : startPass size s = some run) :
    Settled run := by
  unfold startPass at h
  split at h
  · split at h
    · exact Option.some.inj h ▸ receive_settled
    · simp at h
  · split at h
    · exact Option.some.inj h ▸ .ok _
    · exact Option.some.inj h ▸ receive_settled

theorem startPass_leaves {run : CRun (Decoded κ)} (hstart : startPass size s = some run)
    (h : run = .ok out) :
    Leaves (left s) out ∧ (after out).readRefCnt = s.readRefCnt ∧
      streamWeight (after out).datafd ≤ streamWeight s.datafd := by
  unfold startPass at hstart
  split at hstart
  · rename_i extra hextra
    split at hstart
    · rw [← Option.some.inj hstart] at h
      obtain ⟨hcount, hstream⟩ := receive_keeps h
      refine ⟨(receive_leaves (s := { s with extraReadBuffer := none }) rfl h).mono ?_, hcount,
        hstream⟩
      simp [left, stashed, hextra]
    · simp at hstart
  · rename_i hextra
    split at hstart
    · rw [← Option.some.inj hstart, Except.ok.injEq] at h
      subst h
      refine ⟨fun n hn => ?_, rfl, le_rfl⟩
      obtain rfl := Except.ok.inj hn
      exact ⟨Nat.le_of_eq rfl, fun _ => hextra⟩
    · rw [← Option.some.inj hstart] at h
      obtain ⟨hcount, hstream⟩ := receive_keeps h
      refine ⟨(receive_leaves hextra h).mono ?_, hcount, hstream⟩
      simp [left, stashed, hextra]

/-- The passes that call themselves again are counted. -/
theorem chunkedReadPass_settled (hpasses : 0 < passes) (hcount : 3 ≤ passes + s.readRefCnt) :
    Settled (chunkedReadPass passes size s) := by
  induction passes generalizing s with
  | zero => omega
  | succ passes ih =>
    unfold chunkedReadPass
    split
    · exact .ok _
    · rename_i run hstart
      refine .bind (startPass_settled hstart) fun out hout => ?_
      have hkept := (startPass_leaves hstart hout).2.1
      cases out with
      | returned chunk => exact .ok _
      | stashed mem s' =>
        simp only [after, Session.enter] at hkept
        unfold finishPass
        simp only
        split
        · exact .ok _
        · refine .bind (ih (by omega) (by omega)) fun chunk _ => ?_
          cases chunk.1.ret with
          | error e => exact .ok _
          | ok n => exact .ok _

/-- What a call delivers is no longer left, and a call that delivers nothing leaves no stash. -/
theorem chunkedReadPass_left (h : chunkedReadPass passes size s = .ok (r, s')) (hret : r.ret = .ok n) :
    left s' + n ≤ left s ∧ (n = 0 → s'.extraReadBuffer = none) ∧
      streamWeight s'.datafd ≤ streamWeight s.datafd := by
  induction passes generalizing s r s' n with
  | zero => simp [chunkedReadPass] at h
  | succ passes ih =>
    unfold chunkedReadPass at h
    split at h
    · simp only [Except.ok.injEq, Prod.mk.injEq] at h
      rw [← h.1] at hret
      simp at hret
    · rename_i run hstart
      obtain ⟨out, hout, h⟩ := CRun.bind_eq_ok.mp h
      obtain ⟨hleaves, -, hstream⟩ := startPass_leaves hstart hout
      cases out with
      | returned chunk =>
        simp only [finishPass, Except.ok.injEq, Prod.mk.injEq] at h
        obtain ⟨rfl, rfl⟩ := h
        obtain ⟨hleft, hzero⟩ := hleaves n hret
        exact ⟨hleft, hzero, hstream⟩
      | stashed mem s₁ =>
        simp only [finishPass] at h
        split at h
        · simp only [Except.ok.injEq, Prod.mk.injEq] at h
          rw [← h.1] at hret
          simp at hret
        · obtain ⟨⟨r₂, s₂⟩, hagain, h⟩ := CRun.bind_eq_ok.mp h
          have hbefore : left s₁ ≤ left s := hleaves
          simp only [after] at hstream
          cases hret₂ : r₂.ret with
          | error e =>
            simp only [hret₂, pure, Except.pure, Except.ok.injEq, Prod.mk.injEq] at h
            rw [← h.1] at hret
            simp at hret
          | ok m =>
            simp only [hret₂, pure, Except.pure, Except.ok.injEq, Prod.mk.injEq] at h
            obtain ⟨rfl, rfl⟩ := h
            obtain rfl := Except.ok.inj hret
            obtain ⟨hleft, hzero, hstream₂⟩ := ih hagain hret₂
            refine ⟨?_, hzero, hstream₂.trans hstream⟩
            exact Nat.le_trans hleft hbefore

/-- A call without a stash that delivers nothing takes something from the stream, unless there
is nothing to take. -/
theorem chunkedReadPass_quiet (hsize : 2 ≤ size) (hextra : s.extraReadBuffer = none)
    (h : chunkedReadPass passes size s = .ok (r, s')) (hret : r.ret = .ok n) :
    streamWeight s'.datafd < streamWeight s.datafd ∨ Quiet size s := by
  cases passes with
  | zero => simp [chunkedReadPass] at h
  | succ passes =>
    unfold chunkedReadPass at h
    split at h
    · simp only [Except.ok.injEq, Prod.mk.injEq] at h
      rw [← h.1] at hret
      simp at hret
    · rename_i run hstart
      obtain ⟨out, hout, h⟩ := CRun.bind_eq_ok.mp h
      unfold startPass at hstart
      simp only [Session.enter, hextra] at hstart
      split at hstart
      · rename_i hdone
        exact .inr (.inl hdone)
      · rw [← Option.some.inj hstart] at hout
        rcases receive_quiet hsize hout with hlt | ⟨e, stored, s₁, rfl⟩ | hn | heof | hend
        · refine .inl ?_
          cases out with
          | returned chunk =>
            simp only [finishPass, Except.ok.injEq, Prod.mk.injEq] at h
            obtain ⟨rfl, rfl⟩ := h
            exact hlt
          | stashed mem s₁ =>
            simp only [finishPass] at h
            split at h
            · simp only [Except.ok.injEq, Prod.mk.injEq] at h
              rw [← h.1] at hret
              simp at hret
            · obtain ⟨⟨r₂, s₂⟩, hagain, h⟩ := CRun.bind_eq_ok.mp h
              simp only [after] at hlt
              cases hret₂ : r₂.ret with
              | error e =>
                simp only [hret₂, pure, Except.pure, Except.ok.injEq, Prod.mk.injEq] at h
                rw [← h.1] at hret
                simp at hret
              | ok m =>
                simp only [hret₂, pure, Except.pure, Except.ok.injEq, Prod.mk.injEq] at h
                obtain ⟨rfl, rfl⟩ := h
                exact Nat.lt_of_le_of_lt (chunkedReadPass_left hagain hret₂).2.2 hlt
        · simp only [finishPass, Except.ok.injEq, Prod.mk.injEq] at h
          rw [← h.1] at hret
          simp at hret
        · exact .inr (.inr (.inl hn))
        · exact .inr (.inr (.inr (.inl heof)))
        · exact .inr (.inr (.inr (.inr hend)))

theorem wanes_chunkedRead : Wanes (rfc2068ChunkedRead (κ := κ)) weight where
  settles n s := chunkedReadPass_settled (by omega) (by omega)
  keeps n s r s' m h hret := by
    obtain ⟨hleft, hnone, -⟩ := chunkedReadPass_left h hret
    unfold weight
    by_cases hm : m = 0
    · rw [hnone hm]
      simp only [Option.isSome_none, Bool.false_eq_true, if_false]
      omega
    · have hflag : (if s'.extraReadBuffer.isSome = true then 1 else 0) ≤ 1 := by split <;> omega
      omega
  lowers n s r s' m h hret hm := by
    obtain ⟨hleft, -, -⟩ := chunkedReadPass_left h hret
    have hflag : (if s'.extraReadBuffer.isSome = true then 1 else 0) ≤ 1 := by split <;> omega
    unfold weight
    omega

end Rounds

end Gftp.HttpReadWeight
