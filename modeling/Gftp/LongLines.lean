import Gftp.TextLines

/-!
Lines that do not fit the array of a call. A buffer that is full without a newline is handed out: its
len bytes count as returned, and the array takes all but the last of them. So a line loses a byte
for each buffer it fills, whatever the sizes of the reads.
-/

namespace Gftp.LongLines

open ByteStrings ByteStreams LineReader LineReading LineCalls TextLines
open LineFeeds (Displays Feeds)
open LineSource (plainRead asBuffer asResult callFuel)

variable {ε : Type}

/-- The strings of successive calls on text, for arrays of len bytes. -/
def handedOut (len : ℕ) : ℕ → Bytes → List Bytes
  | 0, _ => []
  | calls + 1, rest =>
      if rest = [] then []
      else if 10 ∈ rest.take len then
        stripCr (firstLine rest) :: handedOut len calls (rest.drop ((firstLine rest).length + 1))
      else rest.take (len - 1) :: handedOut len calls (rest.drop len)

/-- Successive calls until one returns 0, as many as the stream has bytes at most. -/
def allCalls (len : ℕ) (s : Stream ε) : CRun (List Bytes × Except ε ℕ) :=
  getLines len ((contents s).length + 1) none s

/-- The strings of one call or several make up each line. -/
def Lossless (len : ℕ) (s : Stream ε) : Prop :=
  ∃ groups : List (List Bytes), allCalls len s = .ok (groups.flatten, .ok 0) ∧
    (∀ group ∈ groups, group ≠ []) ∧ groups.map List.flatten = lines (contents s)

/-- A line with a newline is shorter than the array, or a carriage return is the byte that is lost,
and what is behind the last newline is shorter. -/
def Kept (len : ℕ) (rest : Bytes) : Prop :=
  (∀ l ∈ (splitLines rest).1, l.length < len ∨ l.length = len ∧ l.getLast? = some 13) ∧
    ((splitLines rest).2 ≠ [] → (splitLines rest).2.length < len)

instance (len : ℕ) (rest : Bytes) : Decidable (Kept len rest) := inferInstanceAs (Decidable (_ ∧ _))

section Shapes

variable {len calls : ℕ} {l t r rest : Bytes}

theorem rest_cases (len : ℕ) (rest : Bytes) : rest = [] ∨
    (∃ l r, rest = l ++ 10 :: r ∧ 10 ∉ l ∧ l.length < len) ∨
    (∃ t r, rest = t ++ r ∧ 10 ∉ t ∧ t.length = len) ∨
      (rest ≠ [] ∧ 10 ∉ rest ∧ rest.length < len) := by
  by_cases hnil : rest = []
  · exact .inl hnil
  by_cases hmem : 10 ∈ rest.take len
  · obtain ⟨l, v, htake, hnl⟩ := List.eq_append_cons_of_mem hmem
    refine .inr (.inl ⟨l, v ++ rest.drop len, ?_, hnl, ?_⟩)
    · have hsplit := List.take_append_drop len rest
      rw [htake] at hsplit
      exact hsplit.symm.trans (by simp)
    · have hlength := congrArg List.length htake
      rw [List.length_take, List.length_append, List.length_cons] at hlength
      omega
  · by_cases hlen : rest.length < len
    · rw [List.take_of_length_le (by omega)] at hmem
      exact .inr (.inr (.inr ⟨hnil, hmem, hlen⟩))
    · exact .inr (.inr (.inl ⟨rest.take len, rest.drop len, (List.take_append_drop len rest).symm,
        hmem, List.length_take_of_le (by omega)⟩))

theorem handedOut_nil (calls : ℕ) : handedOut len calls [] = [] := by
  cases calls <;> rfl

theorem handedOut_line (hnl : 10 ∉ l) (hlen : l.length < len) :
    handedOut len (calls + 1) (l ++ 10 :: r) = stripCr l :: handedOut len calls r := by
  have hmem : 10 ∈ (l ++ 10 :: r).take len := by
    obtain ⟨n, rfl⟩ := Nat.exists_eq_add_of_lt hlen
    rw [List.take_append, List.take_of_length_le (by omega), Nat.add_assoc, Nat.add_sub_cancel_left,
      List.take_succ_cons]
    simp
  rw [handedOut, if_neg (by simp), if_pos hmem, firstLine_display hnl, ← List.drop_drop, List.drop_left,
    List.drop_succ_cons, List.drop_zero]

theorem handedOut_full (hnl : 10 ∉ t) (ht : t.length = len) (hlen : 0 < len) :
    handedOut len (calls + 1) (t ++ r) = t.take (len - 1) :: handedOut len calls r := by
  have hne : t ++ r ≠ [] := by
    intro hnil
    obtain ⟨rfl, -⟩ := List.append_eq_nil_iff.mp hnil
    rw [List.length_nil] at ht
    omega
  have htake : (t ++ r).take len = t := ht ▸ List.take_left
  rw [handedOut, if_neg hne, htake, if_neg hnl, List.take_append_of_le_length (by omega), ← ht,
    List.drop_left]

theorem handedOut_last (hne : rest ≠ []) (hnl : 10 ∉ rest) (hlen : rest.length < len) :
    handedOut len (calls + 1) rest = [rest] := by
  rw [handedOut, if_neg hne, List.take_of_length_le (by omega), if_neg hnl,
    List.take_of_length_le (by omega), List.drop_of_length_le (by omega), handedOut_nil]

end Shapes

section Losses

variable {len calls : ℕ} {l t r rest : Bytes}

theorem lines_line (hnl : 10 ∉ l) (r : Bytes) : lines (l ++ 10 :: r) = stripCr l :: lines r := by
  simp [lines, splitLines_line hnl]

theorem lines_last (hnl : 10 ∉ l) : (lines l).flatten = l := by
  rw [lines, splitLines_last hnl]
  split_ifs with hnil
  · exact hnil.symm
  · simp

theorem kept_line (hnl : 10 ∉ l) : Kept len (l ++ 10 :: r) ↔
    (l.length < len ∨ l.length = len ∧ l.getLast? = some 13) ∧ Kept len r := by
  simp only [Kept, splitLines_line hnl, List.mem_cons, forall_eq_or_imp, and_assoc]

theorem kept_last (hnl : 10 ∉ l) : Kept len l ↔ (l ≠ [] → l.length < len) := by
  simp [Kept, splitLines_last hnl]

theorem stripCr_append (t : Bytes) (hne : l ≠ []) : stripCr (t ++ l) = t ++ stripCr l := by
  unfold stripCr
  rw [List.getLast?_append_of_ne_nil _ hne, List.dropLast_append_of_ne_nil hne]
  split_ifs <;> rfl

/-- At most the carriage return is missing, and nothing without one. -/
theorem stripCr_length (l : Bytes) : l.length ≤ (stripCr l).length + 1 ∧
    ((stripCr l).length < l.length → l.getLast? = some 13) := by
  unfold stripCr
  split_ifs with hcr
  · rw [List.length_dropLast]
    exact ⟨by omega, fun _ => hcr⟩
  · exact ⟨by omega, fun h => absurd h (Nat.lt_irrefl _)⟩

/-- A full buffer in front of other text: less is handed out, unless the line ends there and the
byte that is lost is its carriage return. -/
theorem full_losses (hlen : 0 < len) (ht : t.length = len) (hnl : 10 ∉ t) :
    len - 1 + (lines r).flatten.length < (lines (t ++ r)).flatten.length ∨
      ∃ r', r = 10 :: r' ∧ len - 1 + (lines r).flatten.length ≤ (lines (t ++ r)).flatten.length ∧
        (len - 1 + (lines r).flatten.length = (lines (t ++ r)).flatten.length →
          t.getLast? = some 13) := by
  by_cases hmem : 10 ∈ r
  · obtain ⟨l, r', rfl, hl⟩ := List.eq_append_cons_of_mem hmem
    have htl : 10 ∉ t ++ l := by simp [hnl, hl]
    have hlines : lines (t ++ (l ++ 10 :: r')) = stripCr (t ++ l) :: lines r' := by
      rw [← List.append_assoc, lines_line htl]
    by_cases hnil : l = []
    · subst hnil
      refine .inr ⟨r', rfl, ?_⟩
      obtain ⟨hshort, hcr⟩ := stripCr_length t
      have hempty : stripCr [] = [] := rfl
      rw [hlines, lines_line hl, hempty, List.append_nil]
      simp only [List.flatten_cons, List.length_append, List.length_nil]
      exact ⟨by omega, fun heq => hcr (by omega)⟩
    · left
      rw [hlines, lines_line hl, stripCr_append t hnil]
      simp only [List.flatten_cons, List.length_append]
      omega
  · left
    rw [lines_last hmem, lines_last (by simp [hnl, hmem]), List.length_append]
    omega

/-- No more is handed out than the lines hold, and all of it only when they are kept. -/
theorem handedOut_length (hlen : 0 < len) (hcalls : rest.length < calls) :
    (handedOut len calls rest).flatten.length ≤ (lines rest).flatten.length ∧
      ((handedOut len calls rest).flatten.length = (lines rest).flatten.length → Kept len rest) := by
  induction calls generalizing rest with
  | zero => omega
  | succ calls ih =>
    rcases rest_cases len rest with rfl | ⟨l, r, rfl, hnl, hl⟩ | ⟨t, r, rfl, hnl, ht⟩ |
      ⟨hne, hnl, hshort⟩
    · exact ⟨Nat.le_refl _, fun _ => (kept_last List.not_mem_nil).mpr fun h => absurd rfl h⟩
    · obtain ⟨hle, hkept⟩ := @ih r (by simp at hcalls; omega)
      rw [handedOut_line hnl hl, lines_line hnl, kept_line hnl, List.flatten_cons, List.flatten_cons,
        List.length_append, List.length_append]
      exact ⟨by omega, fun heq => ⟨.inl hl, hkept (by omega)⟩⟩
    · obtain ⟨hle, hkept⟩ := @ih r (by simp at hcalls; omega)
      rw [handedOut_full hnl ht hlen, List.flatten_cons, List.length_append,
        List.length_take_of_le (by omega)]
      rcases @full_losses len t r hlen ht hnl with hlost | ⟨r', rfl, hmore, hcr⟩
      · exact ⟨by omega, fun heq => by omega⟩
      · refine ⟨by omega, fun heq => (kept_line hnl).mpr ⟨.inr ⟨ht, hcr (by omega)⟩, ?_⟩⟩
        have hrest : Kept len ([] ++ 10 :: r') := hkept (by omega)
        exact ((kept_line List.not_mem_nil).mp hrest).2
    · rw [handedOut_last hne hnl hshort, lines_last hnl]
      exact ⟨by simp, fun _ => (kept_last hnl).mpr fun _ => hshort⟩

/-- Kept lines are handed out by one call each, or by two when a carriage return is lost. -/
theorem handedOut_groups (hlen : 0 < len) (hcalls : rest.length < calls) (hkept : Kept len rest) :
    ∃ groups : List (List Bytes), handedOut len calls rest = groups.flatten ∧
      (∀ group ∈ groups, group ≠ []) ∧ groups.map List.flatten = lines rest := by
  induction h : rest.length using Nat.strong_induction_on generalizing rest calls with
  | h n ih =>
    subst h
    obtain ⟨calls, rfl⟩ := Nat.exists_eq_succ_of_ne_zero (by omega : calls ≠ 0)
    by_cases hmem : 10 ∈ rest
    · obtain ⟨l, r, rfl, hnl⟩ := List.eq_append_cons_of_mem hmem
      obtain ⟨hl, hr⟩ := (kept_line hnl).mp hkept
      simp only [List.length_append, List.length_cons] at hcalls
      rcases hl with hl | ⟨hl, hcr⟩
      · obtain ⟨groups, hgroups, hne, hmap⟩ := @ih r.length (by simp; omega) calls r (by omega) hr
          rfl
        refine ⟨[stripCr l] :: groups, ?_, List.forall_mem_cons.mpr ⟨by simp, hne⟩, ?_⟩
        · rw [handedOut_line hnl hl, hgroups]
          rfl
        · rw [lines_line hnl, List.map_cons, hmap]
          simp
      · obtain ⟨calls, rfl⟩ := Nat.exists_eq_succ_of_ne_zero (by omega : calls ≠ 0)
        obtain ⟨groups, hgroups, hne, hmap⟩ := @ih r.length (by simp; omega) calls r (by omega) hr
          rfl
        refine ⟨[stripCr l, []] :: groups, ?_, List.forall_mem_cons.mpr ⟨by simp, hne⟩, ?_⟩
        · have hlost : l.take (len - 1) = stripCr l := by
            rw [stripCr, if_pos hcr, List.dropLast_eq_take, hl]
          have hend : handedOut len (calls + 1) ([] ++ 10 :: r) = [] :: handedOut len calls r :=
            handedOut_line List.not_mem_nil hlen
          rw [List.nil_append] at hend
          rw [handedOut_full hnl hl hlen, hend, hlost, hgroups]
          rfl
        · rw [lines_line hnl, List.map_cons, hmap]
          simp
    · by_cases hnil : rest = []
      · subst hnil
        exact ⟨[], rfl, List.forall_mem_nil _, rfl⟩
      · refine ⟨[[rest]], ?_, by simp, ?_⟩
        · exact handedOut_last hnil hmem ((kept_last hmem).mp hkept hnil)
        · simp [lines, splitLines_last hmem, hnil]

end Losses

section Calls

variable {σ : Type} {read : LineSource.ReadFunction ε UInt8 σ} {behind : σ → Bytes} {ok : σ → Prop}
  {len : ℕ} {s : σ}

/-- The text t has been handed out from a full buffer, and r is left. -/
def HandsOut (behind : σ → Bytes) (ok : σ → Prop) (len : ℕ) (t r : Bytes)
    (res : LineSource.LineResult ε UInt8 σ) : Prop :=
  res.ret = .ok len ∧ res.str = t.take (len - 1) ∧ ok res.state ∧
    LineFeeds.Unread res.rbuf len (behind res.state) r

theorem getLineLoop_full (hread : Feeds read behind ok) {fuel : ℕ} {p t r : Bytes}
    {b : LineSource.GetlineBuffer UInt8} (h : Displays b len p) (hs : ok s)
    (heof : b.eof = true → behind s = []) (hrest : p ++ behind s = t ++ r) (hnl : 10 ∉ t)
    (hnul : 0 ∉ t) (ht : t.length = len) (hlen : 0 < len) (hfuel : t.length - p.length < fuel) :
    ∃ res, LineSource.getLineLoop read len fuel b s = .ok res ∧ HandsOut behind ok len t r res := by
  induction fuel generalizing b s p with
  | zero => omega
  | succ fuel ih =>
    have hp : p.length ≤ len := by
      by_cases hnil : p = []
      · rw [hnil]
        exact Nat.zero_le _
      · have hroom := h.room hnil
        omega
    obtain ⟨m, rfl⟩ : p <+: t := List.prefix_of_prefix_length_le
      (hrest ▸ List.prefix_append p (behind s)) (List.prefix_append t r) (ht ▸ hp)
    have hbehind : behind s = m ++ r := by
      rw [List.append_assoc] at hrest
      exact List.append_cancel_left hrest
    simp only [List.mem_append, not_or] at hnl hnul
    by_cases hm : m = []
    · subst hm
      rw [List.append_nil] at ht
      have hne : p ≠ [] := fun hnil => by simp [hnil] at ht; omega
      have hroom := h.room hne
      obtain ⟨b', htake, hdisp, heof'⟩ := LineFeeds.takeAll_take (ε := ε) (s := s) h (by omega) hnl.1
        hnul.1 hne
      have hfull : 0 < b.curBufsize ∧ ((none : Option ℕ) ≠ none ∨
          b.curpos = 0 ∧ (b.maxBufsize = b.curBufsize ∨ b.eof = true)) := by
        rw [h.count, h.max]
        exact ⟨by omega, .inr ⟨by omega, .inl ht.symm⟩⟩
      have hloop : LineSource.getLineLoop read len (fuel + 1) b s =
          .ok ⟨.ok p.length, p.take (len - 1), some b', s⟩ := by
        simp only [LineSource.getLineLoop, h.strchr_none hnl.1 hnul.1, CRun.ok_bind]
        rw [if_pos hfull, htake]
      refine ⟨_, hloop, congrArg Except.ok ht, ?_, hs, [], hdisp, hbehind.symm, ?_⟩
      · rw [List.append_nil]
      · exact fun he => heof (heof' ▸ he)
    · have hmpos := List.length_pos_of_ne_nil hm
      have hlt : p.length < len := by
        rw [List.length_append] at ht
        omega
      have hopen : b.eof = false := by
        rw [Bool.eq_false_iff]
        intro he
        rw [heof he] at hbehind
        exact hm (List.append_eq_nil_iff.mp hbehind.symm).1
      obtain ⟨d, s', hcall, hd, hdlen, hsplit, hs'⟩ := hread.more (len - p.length) s hs (by omega)
        (by rw [hbehind]; simp [hm])
      have hdpos := List.length_pos_of_ne_nil hd
      obtain ⟨b', hpass, hdisp, -, heof'⟩ := (LineFeeds.loop_reads h hnl.1 hnul.1 hlt (by simp [hopen])
        ((LineFeeds.nextRead_open hopen).trans hcall) (by omega)).2 (.inl hd)
      rw [hpass]
      refine ih hdisp hs' ?_ ?_ ?_
      · intro he
        rw [heof', hopen, Bool.false_or, beq_iff_eq] at he
        omega
      · rw [← hrest, hsplit, List.append_assoc]
      · simp only [List.length_append] at hfuel ⊢
        omega

theorem call_full {rbuf : Option GetlineBuffer} {s : Stream ε} {t r : Bytes}
    (h : Unread rbuf len s (t ++ r)) (hnl : 10 ∉ t) (ht : t.length = len) (hlen : 0 < len) :
    ∃ res, gftpGetLine rbuf len s = .ok res ∧ res.ret = .ok len ∧ res.str = t.take (len - 1) ∧
      Unread res.rbuf len res.stream r := by
  have hnul := h.2.1
  simp only [List.mem_append, not_or] at hnul
  have hne : t ++ r ≠ [] := by
    intro hnil
    rw [(List.append_eq_nil_iff.mp hnil).1, List.length_nil] at ht
    omega
  obtain ⟨b, s', p, fuel, hloop, hdisp, hs', heof, hsplit, hfuel⟩ := call_loop h hne hlen
  have hlength := congrArg List.length hsplit
  simp only [List.length_append] at hlength
  obtain ⟨res', hcall, hret, hstr, hplain, hleft⟩ := getLineLoop_full feeds_plain hdisp hs' heof hsplit
    hnl hnul.1 ht hlen (show t.length - p.length < fuel by omega)
  rw [← hloop, LineSource.gftpGetLine_bytes] at hcall
  cases hline : gftpGetLine rbuf len s with
  | error e =>
    rw [hline] at hcall
    cases hcall
  | ok res =>
    rw [hline] at hcall
    obtain rfl := Except.ok.inj hcall
    exact ⟨res, rfl, hret, hstr, unread_iff.mpr ⟨hplain, hnul.2, hleft⟩⟩

/-- Successive calls hand out the text as described, and then return 0. -/
theorem getLines_handedOut {calls : ℕ} {rbuf : Option GetlineBuffer} {s : Stream ε} {rest : Bytes}
    (h : Unread rbuf len s rest) (hlen : 0 < len) (hcalls : rest.length < calls) :
    getLines len calls rbuf s = .ok (handedOut len calls rest, .ok 0) := by
  induction calls generalizing rbuf s rest with
  | zero => omega
  | succ calls ih =>
    rcases rest_cases len rest with rfl | ⟨l, r, rfl, hnl, hl⟩ | ⟨t, r, rfl, hnl, ht⟩ |
      ⟨hne, hnl, hshort⟩
    · obtain ⟨res, hcall, hret⟩ := gftpGetLine_end h hlen
      simp only [getLines, hcall, CRun.ok_bind, hret]
      rfl
    · obtain ⟨res, hcall, hres⟩ := gftpGetLine_returned h (by rwa [firstLine_display hnl])
      rcases hres with ⟨hnil, -⟩ | ⟨l', r', heq, hl', hret, hstr, hleft⟩ | ⟨-, hnone, -⟩
      · exact absurd hnil (by simp)
      · obtain ⟨rfl, rfl⟩ := line_unique heq hnl hl'
        have hmore := ih hleft (by simp at hcalls; omega)
        simp only [getLines, hcall, CRun.ok_bind, hret, hmore, hstr]
        rw [handedOut_line hnl hl]
        rfl
      · exact absurd (by simp) hnone
    · obtain ⟨res, hcall, hret, hstr, hleft⟩ := call_full h hnl ht hlen
      have hmore := ih hleft (by simp at hcalls; omega)
      obtain ⟨n, rfl⟩ := Nat.exists_eq_succ_of_ne_zero (Nat.ne_of_gt hlen)
      simp only [getLines, hcall, CRun.ok_bind, hret, hmore, hstr]
      rw [handedOut_full hnl ht hlen]
      rfl
    · have hwhole : firstLine rest = rest :=
        List.takeWhile_eq_self_iff.mpr fun b hb => decide_eq_true fun h10 => hnl (h10 ▸ hb)
      obtain ⟨res, hcall, hres⟩ := gftpGetLine_returned h (by rwa [hwhole])
      rcases hres with ⟨hnil, -⟩ | ⟨l, r, rfl, -⟩ | ⟨-, -, hret, hstr, hleft⟩
      · exact absurd hnil hne
      · exact absurd (by simp) hnl
      · have hpos := List.length_pos_of_ne_nil hne
        have hmore := ih hleft (by simp; omega)
        obtain ⟨n, hn⟩ := Nat.exists_eq_succ_of_ne_zero (Nat.ne_of_gt hpos)
        rw [hn] at hret
        simp only [getLines, hcall, CRun.ok_bind, hret, hmore, hstr]
        rw [handedOut_last hne hnl hshort, handedOut_nil]
        rfl

/-- Without an array nothing is returned, and only the empty text is kept. -/
theorem allCalls_zero {s : Stream ε} (hs : Plain s) : allCalls 0 s = .ok ([], .ok 0) := by
  cases s with
  | nil => rfl
  | cons r rest =>
    obtain ⟨d, rfl, hd⟩ := hs r (List.mem_cons_self ..)
    obtain ⟨b, d, rfl⟩ := List.exists_cons_of_ne_nil hd
    rfl

theorem lines_nil_iff (rest : Bytes) : lines rest = [] ↔ rest = [] := by
  constructor
  · intro h
    by_cases hmem : 10 ∈ rest
    · obtain ⟨l, r, rfl, hnl⟩ := List.eq_append_cons_of_mem hmem
      rw [lines_line hnl] at h
      cases h
    · rw [← lines_last hmem, h]
      rfl
  · rintro rfl
    rfl

theorem kept_zero (rest : Bytes) : Kept 0 rest ↔ rest = [] := by
  constructor
  · intro h
    by_cases hmem : 10 ∈ rest
    · obtain ⟨l, r, rfl, hnl⟩ := List.eq_append_cons_of_mem hmem
      rcases ((kept_line hnl).mp h).1 with hl | ⟨hl, hcr⟩
      · exact absurd hl (Nat.not_lt_zero _)
      · rw [List.length_eq_zero_iff.mp hl] at hcr
        cases hcr
    · exact by_contra fun hne => Nat.not_lt_zero _ ((kept_last hmem).mp h hne)
  · rintro rfl
    exact (kept_last List.not_mem_nil).mpr fun hne => absurd rfl hne

theorem Lossless.kept {s : Stream ε} (hs : Plain s) (hnul : 0 ∉ contents s) (h : Lossless len s) :
    Kept len (contents s) := by
  obtain ⟨groups, hrun, hne, hlines⟩ := h
  rcases Nat.eq_zero_or_pos len with rfl | hlen
  · rw [allCalls_zero hs] at hrun
    have hflat : groups.flatten = [] := (Prod.mk.inj (Except.ok.inj hrun)).1.symm
    cases groups with
    | nil => exact (kept_zero _).mpr ((lines_nil_iff _).mp hlines.symm)
    | cons group groups =>
      exact absurd (List.append_eq_nil_iff.mp hflat).1 (hne group (List.mem_cons_self ..))
  · rw [allCalls, getLines_handedOut ⟨hs, hnul, rfl⟩ hlen (Nat.lt_succ_self _)] at hrun
    refine (handedOut_length hlen (Nat.lt_succ_self _)).2 ?_
    have hflat := (Prod.mk.inj (Except.ok.inj hrun)).1
    rw [hflat, ← hlines, ← List.flatten_flatten]

end Calls

/-- Nothing is lost exactly when no line fills the array, its terminator apart. -/
theorem lossless_iff (len : ℕ) {s : Stream ε} (hs : Plain s) (hnul : 0 ∉ contents s) :
    Lossless len s ↔ Kept len (contents s) := by
  refine ⟨Lossless.kept hs hnul, fun hkept => ?_⟩
  rcases Nat.eq_zero_or_pos len with rfl | hlen
  · have hnil := (kept_zero _).mp hkept
    refine ⟨[], ?_, List.forall_mem_nil _, ?_⟩
    · exact allCalls_zero hs
    · rw [hnil]
      rfl
  · obtain ⟨groups, hgroups, hne, hmap⟩ := handedOut_groups hlen (Nat.lt_succ_self _) hkept
    refine ⟨groups, ?_, hne, hmap⟩
    rw [allCalls, getLines_handedOut ⟨hs, hnul, rfl⟩ hlen (Nat.lt_succ_self _), hgroups]

/-- A line that is longer than the array, in one read. -/
def longLine : Stream Empty := [.ok (ascii "abcdef\n")]

/-- The first call returns abc and takes abcd. -/
theorem long_line_loses : ¬ Lossless 4 longLine := by
  intro h
  refine absurd (h.kept ?_ (by decide)) (by decide)
  exact plain_cons.mpr ⟨by decide, plain_nil⟩

/-- A line that fills the array with its carriage return, and a short one, in two reads. -/
def fullLine : Stream Empty := [.ok (ascii "ab"), .ok (ascii "c\r\nde")]

theorem full_line_kept : Lossless 4 fullLine := by
  refine (lossless_iff 4 ?_ (by decide)).mpr (by decide)
  exact plain_cons.mpr ⟨by decide, plain_cons.mpr ⟨by decide, plain_nil⟩⟩

end Gftp.LongLines
