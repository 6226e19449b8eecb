import Gftp.ByteStrings

/-!
Streams as a reader meets them: the results of successive reads, each a block of
bytes or an error, and end of file after the last. A read that asks for fewer bytes
than the next block holds leaves the rest of the block for the next read. A plain
stream has no error and no empty block, so it ends only where its bytes end.
-/

namespace Gftp.ByteStreams

open ByteStrings

variable {ε : Type}

abbrev Stream (ε : Type) := List (Except ε Bytes)

/-- One read of at most n bytes; the empty block is end of file. -/
def readSome (n : ℕ) : Stream ε → Except ε Bytes × Stream ε
  | [] => (.ok [], [])
  | .error e :: rest => (.error e, rest)
  | .ok d :: rest =>
      if d.length ≤ n then (.ok d, rest) else (.ok (d.take n), .ok (d.drop n) :: rest)

theorem readSome_length {n : ℕ} {s s' : Stream ε} {d : Bytes} (h : readSome n s = (.ok d, s')) :
    d.length ≤ n := by
  unfold readSome at h
  split at h
  · obtain rfl : [] = d := by simpa using congrArg Prod.fst h
    exact Nat.zero_le n
  · simp at h
  · split at h
    · rename_i e _ hle
      obtain rfl : e = d := by simpa using congrArg Prod.fst h
      exact hle
    · rename_i e _ _
      obtain rfl : e.take n = d := by simpa using congrArg Prod.fst h
      exact List.length_take_le n e

/-- The bytes a stream still holds. -/
def contents : Stream ε → Bytes
  | [] => []
  | .error _ :: rest => contents rest
  | .ok d :: rest => d ++ contents rest

/-- What is read are the next bytes, and a failed read takes none. -/
theorem readSome_contents {n : ℕ} {s s' : Stream ε} {d : Bytes} (h : readSome n s = (.ok d, s')) :
    contents s = d ++ contents s' := by
  unfold readSome at h
  split at h
  · simp only [Prod.mk.injEq, Except.ok.injEq] at h
    obtain ⟨rfl, rfl⟩ := h
    rfl
  · simp at h
  · split at h <;>
    · simp only [Prod.mk.injEq, Except.ok.injEq] at h
      obtain ⟨rfl, rfl⟩ := h
      simp [contents, ← List.append_assoc]

theorem readSome_error {n : ℕ} {s s' : Stream ε} {e : ε} (h : readSome n s = (.error e, s')) :
    contents s = contents s' := by
  unfold readSome at h
  split at h
  · simp at h
  · rw [← (Prod.mk.inj h).2]
    rfl
  · split at h <;> simp at h

/-- No more reads than this many return anything but end of file. -/
def readBound (s : Stream ε) : ℕ := (contents s).length + s.length

/-- Only nonempty blocks of bytes. -/
def Plain (s : Stream ε) : Prop := ∀ r ∈ s, ∃ d, r = .ok d ∧ d ≠ []

theorem plain_nil : Plain ([] : Stream ε) := by simp [Plain]

theorem plain_cons {d : Bytes} {s : Stream ε} :
    Plain (.ok d :: s) ↔ d ≠ [] ∧ Plain s := by
  simp [Plain]

/-- Reads until n bytes have arrived. At end of file it goes on reading and does not
return. -/
def readExactly : ℕ → Stream ε → CRun (Except ε Bytes × Stream ε)
  | 0, s => .ok (.ok [], s)
  | _ + 1, [] => .error .pending
  | _ + 1, .error e :: rest => .ok (.error e, rest)
  | n + 1, .ok d :: rest =>
      if d.length ≤ n + 1 then do
        let (r, s) ← readExactly (n + 1 - d.length) rest
        return (r.map (d ++ ·), s)
      else .ok (.ok (d.take (n + 1)), .ok (d.drop (n + 1)) :: rest)

/-- The same loop with a block that has room for so many bytes, a fault where a read
stores bytes behind it. -/
def readInto : ℕ → ℕ → Stream ε → CRun (Except ε Bytes × Stream ε)
  | _, 0, s => .ok (.ok [], s)
  | _, _ + 1, [] => .error .pending
  | _, _ + 1, .error e :: rest => .ok (.error e, rest)
  | room, n + 1, .ok d :: rest =>
      if room < min d.length (n + 1) then .error .fault
      else if d.length ≤ n + 1 then do
        let (r, s) ← readInto (room - d.length) (n + 1 - d.length) rest
        return (r.map (d ++ ·), s)
      else .ok (.ok (d.take (n + 1)), .ok (d.drop (n + 1)) :: rest)

/-- The bytes of a file, read in one piece. -/
def ofFile (l : Bytes) : Stream ε := if l = [] then [] else [.ok l]

theorem plain_ofFile (l : Bytes) : Plain (ofFile l : Stream ε) := by
  unfold ofFile
  split
  · exact plain_nil
  · rename_i h
    exact plain_cons.mpr ⟨h, plain_nil⟩

theorem contents_ofFile (l : Bytes) : contents (ofFile l : Stream ε) = l := by
  unfold ofFile
  split
  · rename_i h
    simp [contents, h]
  · simp [contents]

theorem plain_eq_nil {s : Stream ε} (hs : Plain s) (h : contents s = []) : s = [] := by
  cases s with
  | nil => rfl
  | cons r rest =>
    obtain ⟨d, rfl, hd⟩ := hs r (List.mem_cons_self ..)
    simp [contents, hd] at h

/-- A read from a plain stream that is not at its end takes a nonempty front part. -/
theorem readSome_plain {s : Stream ε} {n : ℕ} (hs : Plain s) (hn : 0 < n)
    (hne : contents s ≠ []) :
    ∃ d s', readSome n s = (.ok d, s') ∧ d ≠ [] ∧ d.length ≤ n ∧
      contents s = d ++ contents s' ∧ Plain s' := by
  cases s with
  | nil => simp [contents] at hne
  | cons r rest =>
    obtain ⟨d, rfl, hd⟩ := hs r (List.mem_cons_self ..)
    have hrest : Plain rest := (plain_cons.mp hs).2
    by_cases hlen : d.length ≤ n
    · exact ⟨d, rest, by simp [readSome, hlen], hd, hlen, rfl, hrest⟩
    · refine ⟨d.take n, .ok (d.drop n) :: rest, by simp [readSome, hlen], ?_, ?_, ?_, ?_⟩
      · intro hnil
        have h0 := congrArg List.length hnil
        simp only [List.length_take, List.length_nil] at h0
        omega
      · simp only [List.length_take]
        omega
      · simp [contents, ← List.append_assoc]
      · refine plain_cons.mpr ⟨?_, hrest⟩
        intro hnil
        have h0 := congrArg List.length hnil
        simp only [List.length_drop, List.length_nil] at h0
        omega

/-- At the end of a plain stream every read is end of file. -/
theorem readSome_end {s : Stream ε} {n : ℕ} (hs : Plain s) (h : contents s = []) :
    readSome n s = (.ok [], []) := by
  rw [plain_eq_nil hs h]
  rfl

theorem readExactly_zero (s : Stream ε) : readExactly 0 s = .ok (.ok [], s) := by
  cases s <;> rfl

/-- A plain stream that holds enough bytes gives exactly its next n. -/
theorem readExactly_plain {s : Stream ε} {d rest : Bytes} {n : ℕ} (hs : Plain s)
    (hc : contents s = d ++ rest) (hn : d.length = n) :
    ∃ s', readExactly n s = .ok (.ok d, s') ∧ contents s' = rest ∧ Plain s' := by
  induction s generalizing d n with
  | nil =>
    obtain ⟨rfl, rfl⟩ := List.append_eq_nil_iff.mp hc.symm
    subst hn
    exact ⟨[], rfl, rfl, plain_nil⟩
  | cons r tail ih =>
    obtain ⟨e, rfl, he⟩ := hs r (List.mem_cons_self ..)
    have htail : Plain tail := (plain_cons.mp hs).2
    cases n with
    | zero =>
      obtain rfl : d = [] := List.length_eq_zero_iff.mp hn
      exact ⟨_, rfl, hc, hs⟩
    | succ n =>
      by_cases hle : e.length ≤ n + 1
      · obtain ⟨more, rfl⟩ : ∃ more, d = e ++ more := by
          have hpre : e <+: d ++ rest := ⟨contents tail, hc⟩
          obtain ⟨more, hmore⟩ := List.prefix_of_prefix_length_le hpre
            (List.prefix_append d rest) (by omega)
          exact ⟨more, hmore.symm⟩
        have hrest : contents tail = more ++ rest := by
          simpa [contents, List.append_assoc] using hc
        obtain ⟨s', hread, hcont, hplain⟩ :=
          ih htail hrest (show more.length = n + 1 - e.length by
            simp only [List.length_append] at hn
            omega)
        refine ⟨s', ?_, hcont, hplain⟩
        simp [readExactly, hle, hread, bind, Except.bind, pure, Except.pure, Except.map]
      · have htake : e.take (n + 1) = d := by
          have h0 := congrArg (List.take (n + 1)) hc
          simp only [contents] at h0
          rwa [List.take_append_of_le_length (show n + 1 ≤ e.length by omega),
            List.take_append_of_le_length (show n + 1 ≤ d.length by omega),
            List.take_of_length_le (show d.length ≤ n + 1 by omega)] at h0
        have hdrop : e.drop (n + 1) ++ contents tail = rest := by
          have h0 := congrArg (List.drop (n + 1)) hc
          simp only [contents] at h0
          rwa [List.drop_append_of_le_length (show n + 1 ≤ e.length by omega),
            List.drop_append_of_le_length (show n + 1 ≤ d.length by omega),
            List.drop_of_length_le (show d.length ≤ n + 1 by omega), List.nil_append] at h0
        refine ⟨.ok (e.drop (n + 1)) :: tail, ?_, hdrop, plain_cons.mpr ⟨?_, htail⟩⟩
        · simp [readExactly, hle, htake]
        · intro hnil
          have h0 := congrArg List.length hnil
          simp only [List.length_drop, List.length_nil] at h0
          omega

/-- On a plain stream the loop returns exactly when enough bytes arrive. -/
theorem readExactly_short {s : Stream ε} {n : ℕ} (hs : Plain s) (h : (contents s).length < n) :
    readExactly n s = .error .pending := by
  obtain ⟨n, rfl⟩ := Nat.exists_eq_succ_of_ne_zero (show n ≠ 0 by omega)
  induction s generalizing n with
  | nil => rfl
  | cons r rest ih =>
    obtain ⟨d, rfl, _⟩ := hs r (List.mem_cons_self ..)
    have hrest : Plain rest := (plain_cons.mp hs).2
    simp only [contents, List.length_append] at h
    have hmore := ih hrest (n - d.length) (by omega)
    simp only [readExactly]
    rw [if_pos (by omega), show n + 1 - d.length = (n - d.length).succ by omega, hmore]
    rfl

/-- What the loop returns are the next bytes, as many as it was asked for. -/
theorem readExactly_ok {s s' : Stream ε} {n : ℕ} {d : Bytes}
    (h : readExactly n s = .ok (.ok d, s')) :
    d.length = n ∧ contents s = d ++ contents s' := by
  induction s generalizing n d s' with
  | nil =>
    cases n with
    | zero =>
      simp only [readExactly, Except.ok.injEq, Prod.mk.injEq] at h
      simp [← h.1, ← h.2]
    | succ n => simp [readExactly] at h
  | cons r rest ih =>
    cases n with
    | zero =>
      simp only [readExactly, Except.ok.injEq, Prod.mk.injEq] at h
      simp [← h.1, ← h.2]
    | succ n =>
      cases r with
      | error e => simp [readExactly] at h
      | ok e =>
        simp only [readExactly] at h
        split_ifs at h with hle
        · obtain ⟨⟨r, s₁⟩, hread, h⟩ := CRun.bind_eq_ok.mp h
          cases r with
          | error _ => simp [pure, Except.pure, Except.map] at h
          | ok more =>
            obtain ⟨hlen, hcontents⟩ := ih hread
            simp only [pure, Except.pure, Except.map, Except.ok.injEq, Prod.mk.injEq] at h
            obtain ⟨rfl, rfl⟩ := h
            constructor
            · rw [List.length_append]
              omega
            · rw [contents, hcontents, List.append_assoc]
        · simp only [Except.ok.injEq, Prod.mk.injEq] at h
          obtain ⟨rfl, rfl⟩ := h
          constructor
          · exact List.length_take_of_le (by omega)
          · simp only [contents]
            rw [← List.append_assoc, List.take_append_drop]

/-- A plain stream fails nowhere. -/
theorem readExactly_no_error {s s' : Stream ε} {n : ℕ} {e : ε} (hs : Plain s) :
    readExactly n s ≠ .ok (.error e, s') := by
  rcases Nat.lt_or_ge (contents s).length n with hshort | hlong
  · rw [readExactly_short hs hshort]
    simp
  · obtain ⟨s₁, hread, _⟩ := readExactly_plain hs (List.take_append_drop n (contents s)).symm
      (List.length_take_of_le hlong)
    rw [hread]
    simp

/-- Nothing is stored behind a block that has room for all that is asked for. -/
theorem readInto_fits {s : Stream ε} {room n : ℕ} (h : n ≤ room) :
    readInto room n s = readExactly n s := by
  induction s generalizing room n with
  | nil => cases n <;> rfl
  | cons r rest ih =>
    cases n with
    | zero => rfl
    | succ n =>
      cases r with
      | error e => rfl
      | ok d =>
        simp only [readInto, readExactly]
        rw [if_neg (by omega)]
        split_ifs with hd
        · rw [ih (by omega)]
        · rfl

/-- In a block that is too small only a failed read ends the loop well. -/
theorem readInto_small {s : Stream ε} {room n : ℕ} (h : room < n) :
    readInto room n s = (readExactly (room + 1) s).bind fun x =>
      match x with
      | (.error e, s') => .ok (.error e, s')
      | (.ok _, _) => .error .fault := by
  induction s generalizing room n with
  | nil =>
    obtain ⟨n, rfl⟩ := Nat.exists_eq_succ_of_ne_zero (show n ≠ 0 by omega)
    rfl
  | cons r rest ih =>
    obtain ⟨n, rfl⟩ := Nat.exists_eq_succ_of_ne_zero (show n ≠ 0 by omega)
    cases r with
    | error e => rfl
    | ok d =>
      simp only [readInto, readExactly]
      by_cases hd : d.length ≤ room
      · rw [if_neg (by omega), if_pos (by omega), if_pos (by omega),
          ih (show room - d.length < n + 1 - d.length by omega),
          show room + 1 - d.length = room - d.length + 1 by omega]
        cases readExactly (room - d.length + 1) rest with
        | error e => rfl
        | ok x =>
          obtain ⟨r, s'⟩ := x
          cases r <;> rfl
      · rw [if_pos (by omega)]
        split_ifs with hle
        · rw [show room + 1 - d.length = 0 by omega, readExactly_zero]
          rfl
        · rfl

end Gftp.ByteStreams
