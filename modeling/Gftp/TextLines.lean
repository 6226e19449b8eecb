import Gftp.LineCalls

/-!
The lines of an arbitrary text as successive calls of gftp_get_line return them. A line
loses its newline and one carriage return before it, and a last line without a newline
is returned as it is.
-/

namespace Gftp.TextLines

open ByteStrings ByteStreams LineReader LineReading LineCalls

variable {ε : Type}

/-- The lines of a text that end in a newline, and what follows the last newline. -/
def splitLines : Bytes → List Bytes × Bytes
  | [] => ([], [])
  | b :: rest =>
      match splitLines rest with
      | (ls, last) =>
          if b = 10 then ([] :: ls, last)
          else
            match ls with
            | [] => ([], b :: last)
            | l :: ls => ((b :: l) :: ls, last)

/-- What successive calls return for a text: the bytes taken and the line. -/
def readLines (rest : Bytes) : List (ℕ × Bytes) :=
  (splitLines rest).1.map (fun l => (l.length + 1, stripCr l)) ++
    if (splitLines rest).2 = [] then [] else [((splitLines rest).2.length, (splitLines rest).2)]

/-- Every line of the text fits an array of len bytes. -/
def LinesFit (len : ℕ) (rest : Bytes) : Prop :=
  (∀ l ∈ (splitLines rest).1, l.length < len) ∧ (splitLines rest).2.length < len

instance (len : ℕ) (rest : Bytes) : Decidable (LinesFit len rest) :=
  inferInstanceAs (Decidable ((∀ l ∈ (splitLines rest).1, l.length < len) ∧
    (splitLines rest).2.length < len))

theorem splitLines_line {l : Bytes} (h : 10 ∉ l) (r : Bytes) :
    splitLines (l ++ 10 :: r) = (l :: (splitLines r).1, (splitLines r).2) := by
  induction l with
  | nil => simp [splitLines]
  | cons b l ih =>
    simp only [List.mem_cons, not_or] at h
    simp [splitLines, ih h.2, Ne.symm h.1]

theorem splitLines_last {l : Bytes} (h : 10 ∉ l) : splitLines l = ([], l) := by
  induction l with
  | nil => rfl
  | cons b l ih =>
    simp only [List.mem_cons, not_or] at h
    simp [splitLines, ih h.2, Ne.symm h.1]

/-- The lines and what follows them make up the text. -/
theorem text_splitLines (rest : Bytes) :
    text (splitLines rest).1 ++ (splitLines rest).2 = rest := by
  induction h : rest.length using Nat.strong_induction_on generalizing rest with
  | _ n ih =>
    subst h
    by_cases hmem : 10 ∈ rest
    · obtain ⟨l, r, rfl, hl⟩ := List.eq_append_cons_of_mem hmem
      have hr := ih r.length (by simp; omega) r rfl
      rw [splitLines_line hl, text_cons, List.append_assoc, List.cons_append, hr]
    · rw [splitLines_last hmem, text_nil, List.nil_append]

theorem readLines_line {l : Bytes} (h : 10 ∉ l) (r : Bytes) :
    readLines (l ++ 10 :: r) = (l.length + 1, stripCr l) :: readLines r := by
  simp [readLines, splitLines_line h]

theorem readLines_last {l : Bytes} (h : 10 ∉ l) (hne : l ≠ []) :
    readLines l = [(l.length, l)] := by
  simp [readLines, splitLines_last h, hne]

@[simp] theorem readLines_nil : readLines [] = [] := rfl

/-- Each call takes at least one byte. -/
theorem readLines_length_le (rest : Bytes) : (readLines rest).length ≤ rest.length := by
  induction h : rest.length using Nat.strong_induction_on generalizing rest with
  | _ n ih =>
    subst h
    by_cases hmem : 10 ∈ rest
    · obtain ⟨l, r, rfl, hl⟩ := List.eq_append_cons_of_mem hmem
      have hr := ih r.length (by simp; omega) r rfl
      rw [readLines_line hl, List.length_cons, List.length_append, List.length_cons]
      omega
    · by_cases hne : rest = []
      · simp [hne]
      · rw [readLines_last hmem hne, List.length_singleton]
        exact List.length_pos_iff.mpr hne

theorem stripCr_sublist (l : Bytes) : (stripCr l).Sublist l := by
  unfold stripCr
  split
  · exact List.dropLast_sublist l
  · exact List.Sublist.refl l

/-- What is known of a line that was read. -/
structure LineOf (len n : ℕ) (t : Bytes) : Prop where
  taken : 0 < n
  nul_free : 0 ∉ t
  one_line : 10 ∉ t
  short : t.length < len

theorem lineOf_mem {len : ℕ} {rest : Bytes} (hnul : 0 ∉ rest) (hfits : LinesFit len rest) :
    ∀ x ∈ readLines rest, LineOf len x.1 x.2 := by
  induction h : rest.length using Nat.strong_induction_on generalizing rest with
  | _ n ih =>
    subst h
    intro x hx
    by_cases hmem : 10 ∈ rest
    · obtain ⟨l, r, rfl, hl⟩ := List.eq_append_cons_of_mem hmem
      simp only [List.mem_append, List.mem_cons, not_or] at hnul
      simp only [LinesFit, splitLines_line hl, List.mem_cons, forall_eq_or_imp] at hfits
      rw [readLines_line hl] at hx
      rcases List.mem_cons.mp hx with rfl | hx
      · have hsub := stripCr_sublist l
        exact ⟨Nat.succ_pos _, fun h => hnul.1 (hsub.subset h), fun h => hl (hsub.subset h),
          lt_of_le_of_lt hsub.length_le hfits.1.1⟩
      · exact ih r.length (by simp; omega) hnul.2.2 ⟨hfits.1.2, hfits.2⟩ rfl x hx
    · by_cases hne : rest = []
      · simp [hne] at hx
      · rw [readLines_last hmem hne, List.mem_singleton] at hx
        subst hx
        have hlast := hfits.2
        rw [splitLines_last hmem] at hlast
        exact ⟨List.length_pos_iff.mpr hne, hnul, hmem, hlast⟩

/-- A stored line that does not end in a carriage return is read back. -/
theorem readLines_text {ls : List Bytes} (h : ∀ l ∈ ls, 10 ∉ l ∧ l.getLast? ≠ some 13) :
    readLines (text ls) = ls.map fun l => (l.length + 1, l) := by
  induction ls with
  | nil => rfl
  | cons l ls ih =>
    obtain ⟨hline, hcr⟩ := h l (List.mem_cons_self ..)
    rw [text_cons, readLines_line hline, stripCr, if_neg hcr,
      ih fun l hl => h l (List.mem_cons_of_mem _ hl), List.map_cons]

theorem linesFit_text {len : ℕ} {ls : List Bytes} (hlen : 0 < len)
    (h : ∀ l ∈ ls, 10 ∉ l ∧ l.length < len) : LinesFit len (text ls) := by
  induction ls with
  | nil => exact ⟨by simp [splitLines], hlen⟩
  | cons l ls ih =>
    obtain ⟨hline, hshort⟩ := h l (List.mem_cons_self ..)
    obtain ⟨hls, hlast⟩ := ih fun l hl => h l (List.mem_cons_of_mem _ hl)
    simp only [LinesFit, text_cons, splitLines_line hline, List.mem_cons, forall_eq_or_imp]
    exact ⟨⟨hshort, hls⟩, hlast⟩

/-- One call on a text whose lines fit returns its first line, or 0 at its end. -/
theorem gftpGetLine_readLines {len : ℕ} {rbuf : Option GetlineBuffer} {s : Stream ε}
    {rest : Bytes} (h : Unread rbuf len s rest) (hfits : LinesFit len rest) :
    ∃ res, gftpGetLine rbuf len s = .ok res ∧
      ((readLines rest = [] ∧ res.ret = .ok 0 ∧ Unread res.rbuf len res.stream []) ∨
        ∃ n t rest', readLines rest = (n + 1, t) :: readLines rest' ∧ res.ret = .ok (n + 1) ∧
          res.str = t ∧ LinesFit len rest' ∧ Unread res.rbuf len res.stream rest') := by
  have hfirst : (firstLine rest).length < len := by
    by_cases hmem : 10 ∈ rest
    · obtain ⟨l, r, rfl, hl⟩ := List.eq_append_cons_of_mem hmem
      rw [firstLine_display hl]
      exact hfits.1 l (by simp [splitLines_line hl])
    · have hlast := hfits.2
      rw [splitLines_last hmem] at hlast
      exact lt_of_le_of_lt (List.takeWhile_sublist _).length_le hlast
  obtain ⟨res, hcall, hres⟩ := gftpGetLine_returned h hfirst
  refine ⟨res, hcall, ?_⟩
  rcases hres with ⟨rfl, hret, hbuf, hrest⟩ | ⟨l, r, rfl, hl, hret, hstr, hrest⟩ |
    ⟨hne, hnl, hret, hstr, hrest⟩
  · exact Or.inl ⟨rfl, hret, hbuf ▸ hrest⟩
  · refine Or.inr ⟨l.length, stripCr l, r, readLines_line hl r, hret, hstr, ?_, hrest⟩
    have hall := hfits
    simp only [LinesFit, splitLines_line hl, List.mem_cons, forall_eq_or_imp] at hall
    exact ⟨hall.1.2, hall.2⟩
  · obtain ⟨n, hn⟩ := Nat.exists_eq_succ_of_ne_zero (List.length_pos_iff.mpr hne).ne'
    refine Or.inr ⟨n, rest, [], ?_, by rw [hret, hn], hstr, ?_, hrest⟩
    · rw [readLines_last hnl hne, hn, readLines_nil]
    · exact ⟨by simp [splitLines], lt_of_le_of_lt (Nat.zero_le _) hfirst⟩

/-- The strings that successive calls store, up to the first call whose result is not
positive, and that result. -/
def getLines (len : ℕ) :
    ℕ → Option GetlineBuffer → Stream ε → CRun (List Bytes × Except ε ℕ)
  | 0, _, _ => .error .pending
  | calls + 1, rbuf, s => do
      let res ← gftpGetLine rbuf len s
      match res.ret with
      | .ok (_ + 1) =>
          let (ls, last) ← getLines len calls res.rbuf res.stream
          return (res.str :: ls, last)
      | ret => return ([], ret)

theorem getLines_readLines {len calls : ℕ} {rbuf : Option GetlineBuffer} {s : Stream ε}
    {rest : Bytes} (h : Unread rbuf len s rest) (hfits : LinesFit len rest)
    (hcalls : (readLines rest).length < calls) :
    getLines len calls rbuf s = .ok ((readLines rest).map Prod.snd, .ok 0) := by
  induction calls generalizing rbuf s rest with
  | zero => omega
  | succ calls ih =>
    obtain ⟨res, hcall, hres⟩ := gftpGetLine_readLines h hfits
    rcases hres with ⟨hend, hret, _⟩ | ⟨n, t, rest', hline, hret, hstr, hfits', hrest⟩
    · simp only [getLines, hcall, CRun.ok_bind, hret, hend]
      rfl
    · rw [hline, List.length_cons] at hcalls
      have hmore := ih hrest hfits' (by omega)
      simp only [getLines, hcall, CRun.ok_bind, hret, hmore, hline, hstr]
      rfl

/-- The lines of a text, without their ends. -/
def lines (rest : Bytes) : List Bytes :=
  (splitLines rest).1.map stripCr ++
    if (splitLines rest).2 = [] then [] else [(splitLines rest).2]

theorem readLines_strings (rest : Bytes) : (readLines rest).map Prod.snd = lines rest := by
  unfold readLines lines
  rw [List.map_append, List.map_map]
  split_ifs <;> simp [Function.comp_def]

/-- Without an array there is room for no line at all. -/
private theorem nothing_fits {rest : Bytes} (hlines : ∀ l ∈ (splitLines rest).1, l.length + 1 ≤ 0)
    (hlast : (splitLines rest).2 ≠ [] → (splitLines rest).2.length < 0) : rest = [] := by
  have hnone : (splitLines rest).1 = [] := by
    apply List.eq_nil_iff_forall_not_mem.mpr
    intro l hl
    exact absurd (hlines l hl) (by omega)
  have hnil : (splitLines rest).2 = [] := by
    by_contra hne
    exact absurd (hlast hne) (by omega)
  rw [← text_splitLines rest, hnone, hnil]
  rfl

/-- However a text is divided into reads, successive calls return its lines and then 0. -/
theorem successive_calls_return_lines (len calls : ℕ) (s : Stream ε) (hplain : Plain s)
    (hnul : 0 ∉ contents s)
    (hlines : ∀ l ∈ (splitLines (contents s)).1, l.length + 1 ≤ len)
    (hlast : (splitLines (contents s)).2 ≠ [] → (splitLines (contents s)).2.length < len)
    (hcalls : (lines (contents s)).length < calls) :
    getLines len calls none s = .ok (lines (contents s), .ok 0) := by
  rw [← readLines_strings] at hcalls ⊢
  rw [List.length_map] at hcalls
  rcases Nat.eq_zero_or_pos len with rfl | hpos
  · have hnil := nothing_fits hlines hlast
    obtain rfl := plain_eq_nil hplain hnil
    obtain ⟨calls, rfl⟩ := Nat.exists_eq_succ_of_ne_zero (Nat.pos_iff_ne_zero.mp hcalls)
    rfl
  · refine getLines_readLines ⟨hplain, hnul, rfl⟩ ⟨hlines, ?_⟩ hcalls
    by_cases hne : (splitLines (contents s)).2 = []
    · rw [hne]
      exact hpos
    · exact hlast hne

/-- A reply whose carriage return and newline arrive in two reads, and a last line. -/
theorem divided_reply_lines :
    getLines (ε := Empty) 8 3 none [.ok [65, 66, 13], .ok [10, 67], .ok [68]] =
      .ok ([[65, 66], [67, 68]], .ok 0) := by
  refine successive_calls_return_lines 8 3 [.ok [65, 66, 13], .ok [10, 67], .ok [68]] ?_ ?_ ?_ ?_ ?_
  · intro r hr
    simp only [List.mem_cons, List.not_mem_nil, or_false] at hr
    rcases hr with rfl | rfl | rfl <;> exact ⟨_, rfl, by decide⟩
  all_goals decide

end Gftp.TextLines
