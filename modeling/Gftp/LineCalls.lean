import Gftp.LineFeeds

/-!
Calls of gftp_get_line on a plain stream of text without NUL bytes. The reads of such a stream
feed and close, so a call returns the next line of what is left, a last line without a newline
included, whatever the sizes of the reads.
-/

namespace Gftp.LineCalls

open ByteStrings ByteStreams LineReader LineReading
open LineFeeds (Displays Feeds Closes Answered Rest)
open LineSource (plainRead asBuffer asResult callFuel)

variable {ε : Type} {len : ℕ} {rbuf : Option GetlineBuffer} {s : Stream ε} {rest : Bytes}

theorem feeds_plain : Feeds (plainRead (ε := ε)) contents Plain where
  more n s hs hn hne := by
    obtain ⟨d, s', hread, hd, hlen, hsplit, hs'⟩ := readSome_plain hs hn hne
    exact ⟨d, s', by rw [LineSource.plainRead_eq, hread]; rfl, hd, hlen, hsplit, hs'⟩

theorem closes_plain : Closes (plainRead (ε := ε)) contents Plain where
  done n s hs hend :=
    ⟨[], by rw [LineSource.plainRead_eq, readSome_end hs hend]; rfl, plain_nil, rfl⟩

theorem holds_iff {b : GetlineBuffer} {p : Bytes} :
    Holds b len p ↔ Displays (asBuffer b) len p ∧ 0 ∉ p := by
  constructor
  · rintro ⟨t, hshow, hcount, ht⟩
    obtain ⟨pre, post, hblock, hpos⟩ := hshow.block
    rcases ht with rfl | ⟨rfl, hnl⟩
    · exact ⟨⟨hshow.size, hshow.max, hcount, pre, t, post, hblock, hpos, .inl rfl⟩, hshow.nul_free⟩
    · refine ⟨⟨hshow.size, hshow.max, hcount, pre, t, post, hblock, hpos, ?_⟩, by simp⟩
      exact .inr ⟨rfl, hshow.nul_free, hnl⟩
  · intro ⟨hdisp, hnul⟩
    obtain ⟨pre, t, post, hblock, hpos, ht⟩ := hdisp.block
    rcases ht with rfl | ⟨rfl, hfree, hnl⟩
    · exact ⟨t, ⟨hdisp.size, hdisp.max, ⟨pre, post, hblock, hpos⟩, hnul⟩, hdisp.count, .inl rfl⟩
    · refine ⟨t, ⟨hdisp.size, hdisp.max, ⟨pre, post, hblock, hpos⟩, hfree⟩, hdisp.count, ?_⟩
      exact .inr ⟨rfl, hnl⟩

theorem unread_iff : Unread rbuf len s rest ↔
    Plain s ∧ 0 ∉ rest ∧ LineFeeds.Unread (rbuf.map asBuffer) len (contents s) rest := by
  refine and_congr_right fun _ => and_congr_right fun hnul => ?_
  cases rbuf with
  | none => exact Iff.rfl
  | some b =>
    refine exists_congr fun p => ?_
    constructor
    · intro ⟨hholds, hrest, heof⟩
      exact ⟨(holds_iff.mp hholds).1, hrest, heof⟩
    · intro ⟨hdisp, hrest, heof⟩
      have hfree : 0 ∉ p := fun hmem => hnul (hrest ▸ List.mem_append_left _ hmem)
      exact ⟨holds_iff.mpr ⟨hdisp, hfree⟩, hrest, heof⟩

/-- What a call gives over plain reads: the end, a line or the last bytes. -/
def Gives (len : ℕ) (rest : Bytes) (res : LineSource.LineResult ε UInt8 (Stream ε)) : Prop :=
  (rest = [] ∧ res.ret = .ok 0 ∧ res.rbuf = none ∧ Plain res.state ∧ contents res.state = []) ∨
  (∃ l r, rest = l ++ 10 :: r ∧ 10 ∉ l ∧ Answered contents Plain len l r res) ∨
  (rest ≠ [] ∧ 10 ∉ rest ∧ Rest contents Plain len rest res)

/-- The loop has fuel for what the stream holds. -/
theorem loop_gives {b : LineSource.GetlineBuffer UInt8} {p : Bytes} {fuel : ℕ}
    (h : Displays b len p) (hs : Plain s) (heof : b.eof = true → contents s = [])
    (hrest : p ++ contents s = rest) (hnul : 0 ∉ rest) (hfits : (firstLine rest).length < len)
    (hfuel : (contents s).length + 1 < fuel) :
    ∃ res, LineSource.getLineLoop plainRead len fuel b s = .ok res ∧ Gives len rest res := by
  have hlength := congrArg List.length hrest
  rw [List.length_append] at hlength
  by_cases hnil : rest = []
  · rw [hnil] at hrest
    obtain ⟨rfl, hend⟩ := List.append_eq_nil_iff.mp hrest
    obtain ⟨fuel, rfl⟩ := Nat.exists_eq_succ_of_ne_zero (Nat.ne_of_gt (Nat.zero_lt_of_lt hfuel))
    obtain ⟨s', hcall, hs', hend'⟩ := LineFeeds.nextRead_done closes_plain (b := b) (len - 0) hs hend
    have hopen : ¬ (0 < b.curBufsize ∧ b.curpos = 0 ∧ b.eof = true) := by
      rw [h.count]
      exact fun hcount => absurd hcount.1 (Nat.lt_irrefl 0)
    have hpass : LineSource.getLineLoop plainRead len (fuel + 1) b s =
        .ok ⟨.ok 0, [], none, s'⟩ :=
      (LineFeeds.loop_reads (d := []) h (by simp) (by simp) (Nat.zero_lt_of_lt hfits) hopen hcall
        (by simp)).1 rfl rfl
    exact ⟨_, hpass, .inl ⟨hnil, rfl, rfl, hs', hend'⟩⟩
  by_cases hmem : 10 ∈ rest
  · obtain ⟨l, r, rfl, hnl⟩ := List.eq_append_cons_of_mem hmem
    rw [firstLine_display hnl] at hfits
    have hfree : 0 ∉ l := fun hl => hnul (List.mem_append_left _ hl)
    simp only [List.length_append, List.length_cons] at hlength
    obtain ⟨res, hcall, hres⟩ := LineFeeds.getLineLoop_line feeds_plain h hs heof hrest hnl hfree
      hfits (show l.length + 1 - p.length < fuel by omega)
    exact ⟨res, hcall, .inr (.inl ⟨l, r, rfl, hnl, hres⟩)⟩
  · have hwhole : firstLine rest = rest :=
      List.takeWhile_eq_self_iff.mpr fun b hb => decide_eq_true fun hnl => hmem (hnl ▸ hb)
    rw [hwhole] at hfits
    obtain ⟨res, hcall, hres⟩ := LineFeeds.getLineLoop_rest feeds_plain closes_plain h hs heof hrest
      hnil hmem hnul hfits (show rest.length - p.length + 1 < fuel by omega)
    exact ⟨res, hcall, .inr (.inr ⟨hnil, hmem, hres⟩)⟩

/-- A call that does not find the end at once goes through the loop, with fuel for what the stream
holds. -/
theorem call_loop (h : Unread rbuf len s rest) (hne : rest ≠ []) (hlen : 0 < len) :
    ∃ b s' p fuel, LineSource.gftpGetLine plainRead (callFuel rbuf len s) (rbuf.map asBuffer) len s =
        LineSource.getLineLoop plainRead len fuel b s' ∧
      Displays b len p ∧ Plain s' ∧ (b.eof = true → contents s' = []) ∧ p ++ contents s' = rest ∧
      (contents s').length + 1 < fuel := by
  obtain ⟨hs, -, hrest⟩ := unread_iff.mp h
  cases rbuf with
  | some b =>
    obtain ⟨p, hdisp, hrest, heof⟩ := hrest
    have hfuel : (contents s).length + 1 < readBound s + 2 := by
      unfold readBound
      omega
    exact ⟨asBuffer b, s, p, readBound s + 2, rfl, hdisp, hs, heof, hrest.symm, hfuel⟩
  | none =>
    have hrest : contents s = rest := hrest
    obtain ⟨d, s', hread, hd, hdlen, hsplit, hs'⟩ := readSome_plain hs hlen (hrest ▸ hne)
    have hcall : plainRead len s = .ok (⟨.ok d.length, d⟩, s') := by
      rw [LineSource.plainRead_eq, hread]
      rfl
    have hfuel : callFuel none len s = readBound s' + 2 := by
      rw [callFuel, hread]
    obtain ⟨b', hfirst, hdisp, heof⟩ := LineFeeds.first_call (readBound s' + 2) hcall hd hdlen
    refine ⟨b', s', d, readBound s' + 2, ?_, hdisp, hs', by simp [heof], hsplit.symm.trans hrest, ?_⟩
    · rw [hfuel, Option.map_none, hfirst]
    · unfold readBound
      omega

theorem call_gives (h : Unread rbuf len s rest) (hfits : (firstLine rest).length < len) :
    ∃ res, LineSource.gftpGetLine plainRead (callFuel rbuf len s) (rbuf.map asBuffer) len s =
      .ok res ∧ Gives len rest res := by
  obtain ⟨hs, hnul, hrest⟩ := unread_iff.mp h
  by_cases hnil : rest = []
  · cases rbuf with
    | some b =>
      obtain ⟨p, hdisp, hrest, heof⟩ := hrest
      exact loop_gives hdisp hs heof hrest.symm hnul hfits
        (show (contents s).length + 1 < readBound s + 2 by unfold readBound; omega)
    | none =>
      have hrest : contents s = rest := hrest
      have hread := readSome_end (n := len) hs (hrest.trans hnil)
      refine ⟨⟨.ok 0, [], none, []⟩, ?_, .inl ⟨hnil, rfl, rfl, plain_nil, rfl⟩⟩
      simp [LineSource.gftpGetLine, LineSource.plainRead_eq, hread, LineSource.asReading,
        Cells.store, pure, Except.pure]
  · obtain ⟨b, s', p, fuel, hloop, hdisp, hs', heof, hsplit, hfuel⟩ :=
      call_loop h hnil (Nat.zero_lt_of_lt hfits)
    rw [hloop]
    exact loop_gives hdisp hs' heof hsplit hnul hfits hfuel

theorem returned_of_gives {res : LineResult ε} (hnul : 0 ∉ rest) (h : Gives len rest (asResult res)) :
    Returned len rest res := by
  rcases h with ⟨hnil, hret, hbuf, hs, hend⟩ | ⟨l, r, rfl, hnl, hret, hstr, hs, hleft⟩ |
    ⟨hne, hnl, hret, hstr, hs, hleft⟩
  · refine .inl ⟨hnil, hret, Option.map_eq_none_iff.mp hbuf, ?_⟩
    exact unread_iff.mpr ⟨hs, by simp, hend⟩
  · have hfree : 0 ∉ r := fun hr => hnul (by simp [hr])
    exact .inr (.inl ⟨l, r, rfl, hnl, hret, hstr, unread_iff.mpr ⟨hs, hfree, hleft⟩⟩)
  · exact .inr (.inr ⟨hne, hnl, hret, hstr, unread_iff.mpr ⟨hs, by simp, hleft⟩⟩)

/-- A call on a reader whose next line fits returns that line. -/
theorem gftpGetLine_returned (h : Unread rbuf len s rest) (hfits : (firstLine rest).length < len) :
    ∃ res, gftpGetLine rbuf len s = .ok res ∧ Returned len rest res := by
  obtain ⟨res', hcall, hgives⟩ := call_gives h hfits
  rw [LineSource.gftpGetLine_bytes] at hcall
  cases hline : gftpGetLine rbuf len s with
  | error e =>
    rw [hline] at hcall
    cases hcall
  | ok res =>
    rw [hline] at hcall
    obtain rfl := Except.ok.inj hcall
    exact ⟨res, rfl, returned_of_gives h.2.1 hgives⟩

/-- The next of the lines that are left is returned as it is. -/
theorem gftpGetLine_text {len : ℕ} {rbuf : Option GetlineBuffer} {s : Stream ε} {l : Bytes}
    {ls : List Bytes} (h : Unread rbuf len s (text (l :: ls))) (hl : LineFits len l) :
    ∃ res, gftpGetLine rbuf len s = .ok res ∧ res.ret = .ok (l.length + 1) ∧ res.str = l ∧
      Unread res.rbuf len res.stream (text ls) := by
  rw [text_cons] at h
  obtain ⟨res, hcall, hres⟩ := gftpGetLine_returned h (by
    rw [firstLine_display hl.one_line]
    exact hl.short)
  refine ⟨res, hcall, ?_⟩
  rcases hres with ⟨hnil, _⟩ | ⟨l', r', heq, hl', hret, hstr, hrest⟩ | ⟨_, hnl, _⟩
  · simp at hnil
  · obtain ⟨rfl, rfl⟩ := line_unique heq hl.one_line hl'
    refine ⟨hret, ?_, hrest⟩
    rw [hstr, stripCr, if_neg hl.no_cr]
  · simp at hnl

/-- After the last line a call returns 0. -/
theorem gftpGetLine_end {len : ℕ} {rbuf : Option GetlineBuffer} {s : Stream ε}
    (h : Unread rbuf len s []) (hlen : 0 < len) :
    ∃ res, gftpGetLine rbuf len s = .ok res ∧ res.ret = .ok 0 := by
  obtain ⟨res, hcall, hres⟩ := gftpGetLine_returned h (by simpa [firstLine] using hlen)
  refine ⟨res, hcall, ?_⟩
  rcases hres with ⟨_, hret, _⟩ | ⟨l, r, heq, _⟩ | ⟨hne, _⟩
  · exact hret
  · simp at heq
  · exact absurd rfl hne

/-- A loop over a text whose lines fit sees exactly these lines. -/
theorem forLines_text {σ : Type} {len fuel : ℕ} {body : Bytes → σ → CRun (σ × Bool)}
    {ls : List Bytes} {rbuf : Option GetlineBuffer} {s : Stream ε} {st : σ} (hlen : 0 < len)
    (h : Unread rbuf len s (text ls)) (hfits : ∀ l ∈ ls, LineFits len l)
    (hfuel : ls.length < fuel) :
    forLines len body fuel rbuf s st = foldLines body ls st := by
  induction ls generalizing fuel rbuf s st with
  | nil =>
    obtain ⟨fuel, rfl⟩ := Nat.exists_eq_succ_of_ne_zero (Nat.pos_iff_ne_zero.mp hfuel)
    obtain ⟨res, hcall, hret⟩ := gftpGetLine_end h hlen
    simp only [forLines, hcall, CRun.ok_bind, hret, if_true]
    rfl
  | cons l ls ih =>
    obtain ⟨fuel, rfl⟩ := Nat.exists_eq_succ_of_ne_zero (show fuel ≠ 0 by omega)
    obtain ⟨res, hcall, hret, hstr, hrest⟩ := gftpGetLine_text h (hfits l (List.mem_cons_self ..))
    simp only [forLines, hcall, CRun.ok_bind, hret, Nat.succ_ne_zero, if_false, hstr, foldLines]
    cases hbody : body l st with
    | error e => rfl
    | ok next =>
      obtain ⟨st', go⟩ := next
      simp only [CRun.ok_bind]
      cases go with
      | true =>
        simp only [if_true]
        exact ih hrest (fun x hx => hfits x (List.mem_cons_of_mem _ hx))
          (by simpa using hfuel)
      | false => rfl

/-- A file is read from its first byte. -/
theorem unread_file {len : ℕ} {l : Bytes} (h : 0 ∉ l) :
    Unread (ε := ε) none len (ofFile l) l :=
  ⟨plain_ofFile l, h, contents_ofFile l⟩

end Gftp.LineCalls
