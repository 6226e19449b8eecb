import Gftp.LineReading
import Gftp.LineSource

/-!
Lines out of a read function that delivers bytes in pieces of its own choice. A line
without NUL bytes that fits is returned whatever stands behind it, and what stands behind
it is left for the next call, in the buffer and in front of the read function.
-/

namespace Gftp.LineFeeds

open ByteStrings Cells Cell LineSource
open LineReading (stripCr)

variable {ε σ : Type}

/-- In a state that is ok the read function delivers the bytes behind, as long as there are
any. -/
structure Feeds (read : ReadFunction ε UInt8 σ) (behind : σ → Bytes) (ok : σ → Prop) : Prop where
  more : ∀ n s, ok s → 0 < n → behind s ≠ [] →
    ∃ d s', read n s = .ok (⟨.ok d.length, d⟩, s') ∧ d ≠ [] ∧ d.length ≤ n ∧
      behind s = d ++ behind s' ∧ ok s'

/-- When no bytes are left it reports the end, and again each time it is asked. -/
structure Closes (read : ReadFunction ε UInt8 σ) (behind : σ → Bytes) (ok : σ → Prop) : Prop where
  done : ∀ n s, ok s → behind s = [] →
    ∃ s', read n s = .ok (⟨.ok 0, []⟩, s') ∧ ok s' ∧ behind s' = []

/-- The buffer counts the bytes p; when it counts none it may still show text that was
returned without a newline. -/
structure Displays (b : GetlineBuffer UInt8) (len : ℕ) (p : Bytes) : Prop where
  size : b.buffer.length = len + 1
  max : b.maxBufsize = len
  count : b.curBufsize = p.length
  block : ∃ pre t post, b.buffer = pre ++ (t ++ 0 :: post) ∧ b.curpos = pre.length ∧
    (t = p ∨ p = [] ∧ 0 ∉ t ∧ 10 ∉ t)

/-- The bytes still to be returned: what the buffer counts, then what is behind it. -/
def Unread (rbuf : Option (GetlineBuffer UInt8)) (len : ℕ) (behind rest : Bytes) : Prop :=
  match rbuf with
  | none => behind = rest
  | some b => ∃ p, Displays b len p ∧ rest = p ++ behind ∧ (b.eof = true → behind = [])

section Search

variable {b : GetlineBuffer UInt8} {len : ℕ} {p : Bytes}

theorem strchr_cstr {pre rest : Bytes} (hnul : 0 ∈ rest) (c : UInt8) :
    strchr (pre ++ rest) pre.length c =
      .ok (if c ∈ cstr rest then some (pre.length + (cstr rest).idxOf c) else none) := by
  simp only [strchr, map_byte, List.drop_left, text_bytes]
  rw [if_pos hnul]

/-- The first newline of what is counted is found when no NUL stands in front of it. -/
theorem Displays.strchr_line {l q : Bytes} (h : Displays b len (l ++ 10 :: q)) (hnl : 10 ∉ l)
    (hnul : 0 ∉ l) : strchr b.buffer b.curpos 10 = .ok (some (b.curpos + l.length)) := by
  obtain ⟨pre, t, post, hblock, hpos, ht⟩ := h.block
  have ht : t = l ++ 10 :: q := ht.resolve_right (by simp)
  subst ht
  have hstr : cstr (l ++ 10 :: q ++ 0 :: post) = l ++ 10 :: cstr (q ++ 0 :: post) := by
    have hall : ∀ a ∈ l, decide (a ≠ 0) = true := fun a ha =>
      decide_eq_true (fun h0 => hnul (h0 ▸ ha))
    simp only [cstr, List.append_assoc, List.cons_append]
    rw [List.takeWhile_append_of_pos hall, List.takeWhile_cons_of_pos (by decide)]
  rw [hblock, hpos, strchr_cstr (by simp), hstr, if_pos (by simp),
    List.idxOf_append_of_notMem hnl]
  simp

theorem Displays.strchr_none (h : Displays b len p) (hnl : 10 ∉ p) (hnul : 0 ∉ p) :
    strchr b.buffer b.curpos 10 = .ok none := by
  obtain ⟨pre, t, post, hblock, hpos, ht⟩ := h.block
  have hclean : 0 ∉ t ∧ 10 ∉ t := by
    rcases ht with rfl | ⟨-, hclean⟩
    · exact ⟨hnul, hnl⟩
    · exact hclean
  rw [hblock, hpos, strchr_cstr (by simp), cstr_append_nul hclean.1, if_neg hclean.2]

theorem Displays.counted (h : Displays b len p) : p = (b.buffer.drop b.curpos).take b.curBufsize := by
  obtain ⟨pre, t, post, hblock, hpos, ht⟩ := h.block
  rw [hblock, hpos, h.count, List.drop_left]
  rcases ht with rfl | ⟨rfl, -⟩
  · rw [List.take_left]
  · rfl

theorem Displays.unique {p' : Bytes} (h : Displays b len p) (h' : Displays b len p') : p = p' :=
  h.counted.trans h'.counted.symm

theorem Displays.room (h : Displays b len p) (hne : p ≠ []) : b.curpos + p.length ≤ len := by
  obtain ⟨pre, t, post, hblock, hpos, ht⟩ := h.block
  obtain rfl : t = p := ht.resolve_right (fun h => hne h.1)
  have hsize := h.size
  rw [hblock] at hsize
  simp only [List.length_append, List.length_cons] at hsize
  omega

end Search

section Calls

variable {read : ReadFunction ε UInt8 σ} {behind : σ → Bytes} {ok : σ → Prop} {len : ℕ}
  {b : GetlineBuffer UInt8} {s : σ}

/-- The byte before the newline, when the line is not empty, is the line's last. -/
theorem last_before {pre l post : Bytes} (hl : l ≠ []) :
    (pre ++ (l ++ post))[pre.length + l.length - 1]? = l.getLast? := by
  have hpos : 0 < l.length := List.length_pos_iff.mpr hl
  rw [List.getElem?_append_right (by omega),
    List.getElem?_append_left (by omega), List.getLast?_eq_getElem?]
  congr 1
  omega

/-- A terminator stored behind t ends the string there and leaves q displayed after a gap. -/
theorem cut_display {pre q post : Bytes} (t : Bytes) (c : UInt8) (gap : Bytes)
    (hsize : b.buffer.length = len + 1) (hmax : b.maxBufsize = len)
    (hblock : b.buffer = pre ++ (t ++ ([c] ++ (gap ++ (q ++ 0 :: post)))))
    (hpos : b.curpos = pre.length) (ht : 0 ∉ t) :
    ∃ buffer, store b.buffer (b.curpos + t.length) [nul] = .ok buffer ∧
      copyOut buffer b.curpos len = t.take (len - 1) ∧
      Displays { b with
        buffer := buffer
        curpos := b.curpos + t.length + gap.length + 1
        curBufsize := q.length } len q := by
  refine ⟨pre ++ t ++ ([0] ++ (gap ++ (q ++ 0 :: post))), ?_, ?_, ⟨?_, hmax, rfl, ?_⟩⟩
  · rw [hblock, ← List.append_assoc, store_bytes]
    exact overwrite_middle (by simp [hpos]) rfl
  · simp [copyOut, hpos, text_bytes, cstr_append_nul ht]
  · rw [← hsize, hblock]
    simp
  · refine ⟨pre ++ t ++ [0] ++ gap, q, post, by simp, ?_, .inl rfl⟩
    simp only [hpos, List.length_append, List.length_singleton]
    omega

theorem takeLine_eq {l q : Bytes} (h : Displays b len (l ++ 10 :: q)) (hnul : 0 ∉ l)
    (hfits : l.length < len) :
    ∃ b', takeLine (ε := ε) len b s (b.curpos + l.length) =
        .ok ⟨.ok (l.length + 1), stripCr l, some b', s⟩ ∧ Displays b' len q ∧ b'.eof = b.eof := by
  obtain ⟨pre, t, post, hblock, hpos, ht⟩ := h.block
  obtain rfl : t = l ++ 10 :: q := ht.resolve_right (by simp)
  have hcount : LineReader.sizeSub b.curBufsize (l.length + 1) = q.length := by
    rw [h.count, LineReader.sizeSub]
    simp only [List.length_append, List.length_cons]
    rw [if_pos (by omega)]
    omega
  by_cases hcr : l.getLast? = some 13
  · obtain ⟨front, rfl⟩ := List.getLast?_eq_some_iff.mp hcr
    have hcut : b.curpos < b.curpos + (front ++ [13]).length ∧
        byteAt b.buffer (b.curpos + (front ++ [13]).length - 1) = some 13 := by
      refine ⟨by simp, ?_⟩
      rw [byteAt_bytes, hblock, hpos, List.append_assoc, last_before (by simp)]
      simp
    obtain ⟨buffer, hwrite, hstr, hdisp⟩ := cut_display front 13 [10] h.size h.max
      (by simpa using hblock) hpos (fun h0 => hnul (by simp [h0]))
    have hat : b.curpos + (front ++ [13]).length - 1 = b.curpos + front.length := by simp
    rw [List.take_of_length_le (by simp at hfits; omega)] at hstr
    refine ⟨_, ?_, hdisp, rfl⟩
    simp only [takeLine]
    rw [if_pos hcut, hat, hwrite]
    simp only [bind, Except.bind, pure, Except.pure, hstr, Nat.add_sub_cancel_left, hcount]
    simp [stripCr, Nat.add_assoc]
  · have hcut : ¬ (b.curpos < b.curpos + l.length ∧
        byteAt b.buffer (b.curpos + l.length - 1) = some 13) := by
      rintro ⟨hlt, hbyte⟩
      rw [byteAt_bytes, hblock, hpos, List.append_assoc,
        last_before (List.length_pos_iff.mp (by omega))] at hbyte
      exact hcr hbyte
    obtain ⟨buffer, hwrite, hstr, hdisp⟩ := cut_display l 10 [] h.size h.max
      (by simpa using hblock) hpos hnul
    rw [List.take_of_length_le (by omega)] at hstr
    refine ⟨_, ?_, hdisp, rfl⟩
    simp only [takeLine, if_neg hcut, hwrite, bind, Except.bind, pure, Except.pure, hstr,
      Nat.add_sub_cancel_left, hcount]
    simp [stripCr, hcr]

/-- Compacting moves what is counted to the front and makes room behind it. -/
theorem compact_eq {p : Bytes} (h : Displays b len p) (hnul : 0 ∉ p) :
    ∃ buffer, compact b = .ok (buffer, p.length, len - p.length) ∧
      buffer.length = len + 1 ∧ buffer.take p.length = p := by
  cases p with
  | nil =>
    refine ⟨b.buffer, ?_, h.size, rfl⟩
    simp [compact, h.count, h.max]
  | cons a p =>
    have hroom := h.room (by simp)
    obtain ⟨pre, t, post, hblock, hpos, ht⟩ := h.block
    obtain rfl : t = a :: p := ht.resolve_right (by simp)
    have hbyte : byteAt b.buffer b.curpos ≠ some 0 := by
      rw [byteAt_bytes, hblock, hpos]
      have ha : a ≠ 0 := fun h0 => hnul (by simp [h0])
      simpa using ha
    have hmove : (b.buffer.drop b.curpos).take b.curBufsize = a :: p := by
      rw [hblock, hpos, h.count, List.drop_left, List.take_left]
    have hlen := h.size
    have hwrite : store b.buffer 0 (a :: p) =
        .ok ((a :: p) ++ b.buffer.drop (a :: p).length) := by
      apply store_eq_ok_iff.mpr
      exact ⟨by omega, by simp⟩
    refine ⟨(a :: p) ++ b.buffer.drop (a :: p).length, ?_, ?_, List.take_left⟩
    · unfold compact
      have hcount := h.count
      rw [if_neg (by rw [hcount]; exact fun h0 => h0.elim (by simp) hbyte), if_pos (by omega),
        hmove, hwrite]
      simp only [bind, Except.bind, pure, Except.pure, h.count, h.max, LineReader.sizeSub,
        if_pos (show (a :: p).length ≤ len by omega)]
    · simp only [List.length_append, List.length_drop]
      omega

theorem refill_eq {p d buffer : Bytes} (hmax : b.maxBufsize = len)
    (hcount : b.curBufsize = p.length) (hlen : buffer.length = len + 1)
    (htake : buffer.take p.length = p) (hfits : p.length + d.length ≤ len) :
    ∃ full b', store buffer p.length d = .ok full ∧ refill b full d.length = .ok b' ∧
      Displays b' len (p ++ d) ∧ b'.curpos = 0 ∧ b'.eof = (b.eof || d.length == 0) := by
  have hread : store buffer p.length d = .ok (p ++ (d ++ buffer.drop (p.length + d.length))) :=
    store_eq_ok_iff.mpr ⟨by omega, by rw [htake]⟩
  obtain ⟨c, post, hpost⟩ : ∃ c post, buffer.drop (p.length + d.length) = c :: post := by
    apply List.exists_cons_of_ne_nil
    intro hnil
    have h0 := congrArg List.length hnil
    simp only [List.length_drop, List.length_nil] at h0
    omega
  have hend : store (p ++ (d ++ c :: post)) (b.curBufsize + d.length) [nul] =
      .ok ((p ++ d) ++ ([0] ++ post)) := by
    rw [← List.append_assoc, show c :: post = [c] ++ post by rfl, store_bytes]
    exact overwrite_middle (by simp [hcount]) rfl
  refine ⟨_, { b with
    buffer := (p ++ d) ++ ([0] ++ post)
    curpos := 0
    curBufsize := b.curBufsize + d.length
    eof := b.eof || d.length == 0 }, hread, ?_, ⟨?_, hmax, by simp [hcount],
      ⟨[], p ++ d, post, by simp, rfl, .inl rfl⟩⟩, rfl, rfl⟩
  · rw [hpost]
    simp only [refill, hend, bind, Except.bind, pure, Except.pure]
  · have hdrop := congrArg List.length hpost
    simp only [List.length_drop, List.length_cons] at hdrop
    simp only [List.length_append, List.length_singleton]
    omega

/-- The line is returned and the bytes behind it are left for the next call. -/
def Answered (behind : σ → Bytes) (ok : σ → Prop) (len : ℕ) (l r : Bytes)
    (res : LineResult ε UInt8 σ) : Prop :=
  res.ret = .ok (l.length + 1) ∧ res.str = stripCr l ∧ ok res.state ∧
    Unread res.rbuf len (behind res.state) r

theorem nextRead_open {n : ℕ} (h : b.eof = false) : nextRead read b n s = read n s := by
  rw [nextRead, if_neg (by simp [h])]

/-- A pass over text without a newline, unless it is the end of a full or closed buffer. -/
theorem loop_reads {fuel : ℕ} {p d : Bytes} {s' : σ} (h : Displays b len p) (hnl : 10 ∉ p)
    (hnul : 0 ∉ p) (hroom : p.length < len)
    (hend : ¬ (0 < b.curBufsize ∧ b.curpos = 0 ∧ b.eof = true))
    (hcall : nextRead read b (len - p.length) s = .ok (⟨.ok d.length, d⟩, s'))
    (hlen : p.length + d.length ≤ len) :
    (d = [] → p = [] → getLineLoop read len (fuel + 1) b s = .ok ⟨.ok 0, [], none, s'⟩) ∧
      (d ≠ [] ∨ p ≠ [] → ∃ b', getLineLoop read len (fuel + 1) b s = getLineLoop read len fuel b' s' ∧
        Displays b' len (p ++ d) ∧ b'.curpos = 0 ∧ b'.eof = (b.eof || d.length == 0)) := by
  obtain ⟨buffer, hcompact, hsize, htake⟩ := compact_eq h hnul
  obtain ⟨full, b', hstore, hrefill, hdisp, hzero, heof⟩ := refill_eq (d := d) h.max h.count hsize
    htake hlen
  have hcond : ¬ (0 < b.curBufsize ∧ ((none : Option ℕ) ≠ none ∨
      b.curpos = 0 ∧ (b.maxBufsize = b.curBufsize ∨ b.eof = true))) := by
    rintro ⟨hcount, hn | ⟨hpos, hfull | he⟩⟩
    · exact hn rfl
    · rw [h.max, h.count] at hfull
      omega
    · exact hend ⟨hcount, hpos, he⟩
  have hpass : getLineLoop read len (fuel + 1) b s =
      if d.length = 0 ∧ b.curBufsize = 0 then .ok ⟨.ok 0, [], none, s'⟩
      else getLineLoop read len fuel b' s' := by
    simp only [getLineLoop, h.strchr_none hnl hnul, bind, Except.bind]
    rw [if_neg hcond]
    simp only [hcompact, hcall, hstore, hrefill]
    rfl
  constructor
  · rintro rfl rfl
    rw [hpass, if_pos ⟨rfl, h.count⟩]
  · intro hne
    refine ⟨b', ?_, hdisp, hzero, heof⟩
    rw [hpass, if_neg]
    rintro ⟨hd, hp⟩
    rw [h.count] at hp
    rcases hne with hne | hne
    · exact hne (List.length_eq_zero_iff.mp hd)
    · exact hne (List.length_eq_zero_iff.mp hp)

theorem getLineLoop_line (hread : Feeds read behind ok) {fuel : ℕ} {p l r : Bytes}
    (h : Displays b len p) (hs : ok s) (heof : b.eof = true → behind s = [])
    (hrest : p ++ behind s = l ++ 10 :: r) (hnl : 10 ∉ l) (hnul : 0 ∉ l) (hfits : l.length < len)
    (hfuel : l.length + 1 - p.length < fuel) :
    ∃ res, getLineLoop read len fuel b s = .ok res ∧ Answered behind ok len l r res := by
  induction fuel generalizing b s p with
  | zero => omega
  | succ fuel ih =>
    by_cases hmem : 10 ∈ p
    · obtain ⟨l', q, rfl, hnl'⟩ := List.eq_append_cons_of_mem hmem
      obtain ⟨rfl, rfl⟩ := LineReading.line_unique
        (show l' ++ 10 :: (q ++ behind s) = l ++ 10 :: r by simpa using hrest) hnl' hnl
      obtain ⟨b', htake, hdisp, heof'⟩ := takeLine_eq (ε := ε) (s := s) h hnul hfits
      refine ⟨⟨.ok (l'.length + 1), stripCr l', some b', s⟩, ?_, rfl, rfl, hs, q, hdisp, rfl,
        fun he => heof (heof' ▸ he)⟩
      have hpos : 0 < b.curBufsize := by
        rw [h.count, List.length_append, List.length_cons]
        omega
      simp only [getLineLoop, h.strchr_line hnl hnul, bind, Except.bind]
      rw [if_pos ⟨hpos, .inl (by simp)⟩, htake]
    · obtain ⟨m, rfl, hbehind⟩ : ∃ m, l = p ++ m ∧ behind s = m ++ 10 :: r := by
        rcases List.append_eq_append_iff.mp hrest with ⟨m, rfl, hb⟩ | ⟨m, rfl, hb⟩
        · exact ⟨m, rfl, hb⟩
        · cases m with
          | nil => exact ⟨[], by simp, by simpa using hb.symm⟩
          | cons c m =>
            simp only [List.cons_append, List.cons.injEq] at hb
            exact absurd (by simp [← hb.1]) hmem
      have hnulp : 0 ∉ p := fun h0 => hnul (List.mem_append_left _ h0)
      have hlen : p.length < len := by
        rw [List.length_append] at hfits
        omega
      have hopen : b.eof = false := by
        rw [Bool.eq_false_iff]
        intro he
        rw [heof he] at hbehind
        simp at hbehind
      obtain ⟨d, s', hcall, hd, hdlen, hsplit, hs'⟩ := hread.more (len - p.length) s hs (by omega)
        (by rw [hbehind]; simp)
      have hdpos : 0 < d.length := List.length_pos_iff.mpr hd
      obtain ⟨b', hpass, hdisp, -, heof'⟩ := (loop_reads h hmem hnulp hlen (by simp [hopen])
        ((nextRead_open hopen).trans hcall) (by omega)).2 (.inl hd)
      rw [hpass]
      refine ih hdisp hs' ?_ ?_ (by simp only [List.length_append] at hfuel ⊢; omega)
      · intro he
        rw [heof', hopen] at he
        simp only [Bool.false_or, beq_iff_eq] at he
        omega
      · rw [← hrest, hsplit, List.append_assoc]

theorem first_call (fuel : ℕ) {d : Bytes} {s' : σ} (hcall : read len s = .ok (⟨.ok d.length, d⟩, s'))
    (hd : d ≠ []) (hlen : d.length ≤ len) :
    ∃ b', gftpGetLine read fuel none len s = getLineLoop read len fuel b' s' ∧ Displays b' len d ∧
      b'.eof = false := by
  obtain ⟨full, b', hstore, hrefill, hdisp, -, heof⟩ := refill_eq (b := ⟨[], 0, len, 0, false⟩)
    (p := []) (d := d) rfl rfl
    (show (List.replicate (len + 1) (0 : UInt8)).length = len + 1 from List.length_replicate) rfl
    (by simpa using hlen)
  have hdpos : 0 < d.length := List.length_pos_iff.mpr hd
  have hdzero : (d.length == 0) = false := by
    rw [beq_eq_false_iff_ne]
    omega
  refine ⟨b', ?_, hdisp, by rw [heof, hdzero]; rfl⟩
  simp only [List.length_nil] at hstore
  simp only [gftpGetLine, hcall, bind, Except.bind, nul_uint8, hstore]
  rw [if_neg (by omega)]
  simp only [refill, nul_uint8, Nat.zero_add, hdzero, Bool.or_false] at hrefill
  cases hend : store full d.length [0] with
  | error e => simp [hend, bind, Except.bind] at hrefill
  | ok block =>
    simp only [hend, bind, Except.bind, pure, Except.pure, Except.ok.injEq] at hrefill
    rw [← hrefill]

/-- A call goes through the loop with some of the text displayed and the rest to be read. -/
theorem gftpGetLine_loop (hread : Feeds read behind ok) (fuel : ℕ) {t : Bytes}
    {rbuf : Option (GetlineBuffer UInt8)} (hs : ok s) (h : Unread rbuf len (behind s) t) (hne : t ≠ [])
    (hlen : 0 < len) :
    ∃ b s' p, gftpGetLine read fuel rbuf len s = getLineLoop read len fuel b s' ∧
      Displays b len p ∧ ok s' ∧ (b.eof = true → behind s' = []) ∧ p ++ behind s' = t := by
  cases rbuf with
  | some b =>
    obtain ⟨p, hdisp, hrest, heof⟩ := h
    exact ⟨b, s, p, rfl, hdisp, hs, heof, hrest.symm⟩
  | none =>
    have hbehind : behind s = t := h
    obtain ⟨d, s', hcall, hd, hdlen, hsplit, hs'⟩ := hread.more len s hs hlen (by rwa [hbehind])
    obtain ⟨b', hfirst, hdisp, heof⟩ := first_call fuel hcall hd hdlen
    exact ⟨b', s', d, hfirst, hdisp, hs', by simp [heof], by rw [← hbehind, hsplit]⟩

theorem gftpGetLine_line (hread : Feeds read behind ok) {fuel : ℕ} {l r : Bytes}
    {rbuf : Option (GetlineBuffer UInt8)} (hs : ok s)
    (h : Unread rbuf len (behind s) (l ++ 10 :: r)) (hnl : 10 ∉ l) (hnul : 0 ∉ l)
    (hfits : l.length < len) (hfuel : l.length + 1 < fuel) :
    ∃ res, gftpGetLine read fuel rbuf len s = .ok res ∧ Answered behind ok len l r res := by
  obtain ⟨b, s', p, hloop, hdisp, hs', heof, hrest⟩ :=
    gftpGetLine_loop hread fuel hs h (by simp) (by omega)
  rw [hloop]
  exact getLineLoop_line hread hdisp hs' heof hrest hnl hnul hfits (by omega)

/-- Text without a newline is returned as far as the array takes it. -/
theorem takeAll_take {p : Bytes} (h : Displays b len p) (hzero : b.curpos = 0) (hnl : 10 ∉ p)
    (hnul : 0 ∉ p) (hne : p ≠ []) :
    ∃ b', takeAll (ε := ε) len b s = .ok ⟨.ok p.length, p.take (len - 1), some b', s⟩ ∧
      Displays b' len [] ∧ b'.eof = b.eof := by
  obtain ⟨pre, t, post, hblock, hpos, ht⟩ := h.block
  obtain rfl : t = p := ht.resolve_right (fun h => hne h.1)
  obtain rfl : pre = [] := List.length_eq_zero_iff.mp (by omega)
  have hwrite : store b.buffer b.curBufsize [nul] = .ok (t ++ ([0] ++ post)) := by
    rw [hblock, List.nil_append, show t ++ 0 :: post = t ++ ([0] ++ post) by simp, store_bytes]
    exact overwrite_middle h.count rfl
  have hstr : copyOut (t ++ ([0] ++ post)) b.curpos len = t.take (len - 1) := by
    rw [copyOut, hzero, List.drop_zero, text_bytes, show [0] ++ post = 0 :: post from rfl,
      cstr_append_nul hnul]
  refine ⟨{ b with buffer := t ++ ([0] ++ post), curBufsize := 0 }, ?_, ⟨?_, h.max, rfl,
    [], t, post, by simp, hzero, .inr ⟨rfl, hnul, hnl⟩⟩, rfl⟩
  · simp only [takeAll, hwrite, bind, Except.bind, pure, Except.pure, hstr]
    rw [h.count]
  · rw [← h.size, hblock]
    simp

theorem takeAll_eq {p : Bytes} (h : Displays b len p) (hzero : b.curpos = 0) (hnl : 10 ∉ p)
    (hnul : 0 ∉ p) (hne : p ≠ []) (hfits : p.length < len) :
    ∃ b', takeAll (ε := ε) len b s = .ok ⟨.ok p.length, p, some b', s⟩ ∧ Displays b' len [] := by
  obtain ⟨b', htake, hdisp, -⟩ := takeAll_take (ε := ε) (s := s) h hzero hnl hnul hne
  rw [List.take_of_length_le (by omega)] at htake
  exact ⟨b', htake, hdisp⟩

/-- The last bytes of the stream are returned and nothing is left. -/
def Rest (behind : σ → Bytes) (ok : σ → Prop) (len : ℕ) (l : Bytes)
    (res : LineResult ε UInt8 σ) : Prop :=
  res.ret = .ok l.length ∧ res.str = l ∧ ok res.state ∧ Unread res.rbuf len (behind res.state) []

/-- After the end of the stream nothing is read, whether it has been seen or not. -/
theorem nextRead_done (hclose : Closes read behind ok) (n : ℕ) (hs : ok s) (hend : behind s = []) :
    ∃ s', nextRead read b n s = .ok (⟨.ok 0, []⟩, s') ∧ ok s' ∧ behind s' = [] := by
  unfold nextRead
  split
  · exact ⟨s, rfl, hs, hend⟩
  · exact hclose.done n s hs hend

theorem loop_all {fuel : ℕ} {p : Bytes} (h : Displays b len p) (hs : ok s) (hzero : b.curpos = 0)
    (heof : b.eof = true) (hend : behind s = []) (hne : p ≠ []) (hnl : 10 ∉ p) (hnul : 0 ∉ p)
    (hfits : p.length < len) :
    ∃ res, getLineLoop read len (fuel + 1) b s = .ok res ∧ Rest behind ok len p res := by
  obtain ⟨b', htake, hdisp⟩ := takeAll_eq (ε := ε) (s := s) h hzero hnl hnul hne hfits
  refine ⟨⟨.ok p.length, p, some b', s⟩, ?_, rfl, rfl, hs, [], hdisp, by simp [hend],
    fun _ => hend⟩
  have hcount : 0 < b.curBufsize := by
    rw [h.count]
    exact List.length_pos_iff.mpr hne
  simp only [getLineLoop, h.strchr_none hnl hnul, bind, Except.bind]
  rw [if_pos ⟨hcount, .inr ⟨hzero, .inr heof⟩⟩, htake]

/-- The last bytes before the end, without a newline, are returned as a line. -/
theorem getLineLoop_rest (hread : Feeds read behind ok) (hclose : Closes read behind ok) {fuel : ℕ}
    {p l : Bytes} (h : Displays b len p) (hs : ok s) (heof : b.eof = true → behind s = [])
    (hrest : p ++ behind s = l) (hne : l ≠ []) (hnl : 10 ∉ l) (hnul : 0 ∉ l) (hfits : l.length < len)
    (hfuel : l.length - p.length + 1 < fuel) :
    ∃ res, getLineLoop read len fuel b s = .ok res ∧ Rest behind ok len l res := by
  induction fuel generalizing b s p with
  | zero => omega
  | succ fuel ih =>
    obtain ⟨fuel, rfl⟩ := Nat.exists_eq_succ_of_ne_zero (show fuel ≠ 0 by omega)
    have hnlp : 10 ∉ p := fun h0 => hnl (hrest ▸ List.mem_append_left _ h0)
    have hnulp : 0 ∉ p := fun h0 => hnul (hrest ▸ List.mem_append_left _ h0)
    have hlength := congrArg List.length hrest
    rw [List.length_append] at hlength
    by_cases hend : 0 < b.curBufsize ∧ b.curpos = 0 ∧ b.eof = true
    · obtain ⟨-, hzero, hclosed⟩ := hend
      have hbehind := heof hclosed
      rw [hbehind, List.append_nil] at hrest
      subst hrest
      exact loop_all h hs hzero hclosed hbehind hne hnl hnul hfits
    · by_cases hbehind : behind s = []
      · obtain ⟨s', hcall, hs', hbehind'⟩ := nextRead_done hclose (b := b) (len - p.length) hs hbehind
        rw [hbehind, List.append_nil] at hrest
        subst hrest
        obtain ⟨b', hpass, hdisp, hzero, heof'⟩ := (loop_reads (d := []) h hnlp hnulp hfits hend hcall
          (by rw [List.length_nil]; omega)).2 (.inr hne)
        rw [List.append_nil] at hdisp
        rw [hpass]
        exact loop_all hdisp hs' hzero (by simp [heof']) hbehind' hne hnl hnul hfits
      · have hopen : b.eof = false := by
          rw [Bool.eq_false_iff]
          exact fun he => hbehind (heof he)
        obtain ⟨d, s', hcall, hd, hdlen, hsplit, hs'⟩ := hread.more (len - p.length) s hs (by omega)
          hbehind
        have hdpos : 0 < d.length := List.length_pos_iff.mpr hd
        have hmore := congrArg List.length hsplit
        rw [List.length_append] at hmore
        obtain ⟨b', hpass, hdisp, -, heof'⟩ := (loop_reads h hnlp hnulp (by omega) hend
          ((nextRead_open hopen).trans hcall) (by omega)).2 (.inl hd)
        rw [hpass]
        refine ih hdisp hs' ?_ (by rw [← hrest, hsplit, List.append_assoc])
          (by rw [List.length_append]; omega)
        intro he
        rw [heof', hopen, Bool.false_or, beq_iff_eq] at he
        omega

theorem gftpGetLine_rest (hread : Feeds read behind ok) (hclose : Closes read behind ok) {fuel : ℕ}
    {l : Bytes} {rbuf : Option (GetlineBuffer UInt8)} (hs : ok s) (h : Unread rbuf len (behind s) l)
    (hne : l ≠ []) (hnl : 10 ∉ l) (hnul : 0 ∉ l) (hfits : l.length < len)
    (hfuel : l.length + 1 < fuel) :
    ∃ res, gftpGetLine read fuel rbuf len s = .ok res ∧ Rest behind ok len l res := by
  obtain ⟨b, s', p, hloop, hdisp, hs', heof, hrest⟩ :=
    gftpGetLine_loop hread fuel hs h hne (by omega)
  rw [hloop]
  exact getLineLoop_rest hread hclose hdisp hs' heof hrest hne hnl hnul hfits (by omega)

theorem gftpGetLine_end (hclose : Closes read behind ok) (fuel : ℕ)
    {rbuf : Option (GetlineBuffer UInt8)} (hs : ok s) (h : Unread rbuf len (behind s) [])
    (hlen : 0 < len) :
    ∃ s', gftpGetLine read (fuel + 1) rbuf len s = .ok ⟨.ok 0, [], none, s'⟩ := by
  cases rbuf with
  | some b =>
    obtain ⟨p, hdisp, hrest, heof⟩ := h
    obtain ⟨rfl, hend⟩ := List.append_eq_nil_iff.mp hrest.symm
    obtain ⟨s', hcall, -, -⟩ := nextRead_done hclose (b := b) (len - 0) hs hend
    refine ⟨s', (loop_reads (d := []) hdisp (by simp) (by simp) hlen ?_ hcall (by simp)).1 rfl rfl⟩
    rintro ⟨hcount, -⟩
    rw [hdisp.count] at hcount
    simp at hcount
  | none =>
    obtain ⟨s', hcall, -, -⟩ := hclose.done len s hs h
    exact ⟨s', by simp [gftpGetLine, hcall, store, pure, Except.pure]⟩

end Calls

end Gftp.LineFeeds
