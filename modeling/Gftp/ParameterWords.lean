import Gftp.SshExecArgs

/-!
The words of ssh_extra_params in the argument vector. sshv2_add_exec_args grows the vector when
one entry is left, for the null pointer behind the arguments. It stops at a text in which
strchr finds nothing more: the text behind the last blank or quote is one more argument, also
when nothing stands there, and the byte behind a quote is not looked at.
-/

namespace Gftp.ParameterWords

open ByteStrings SshExecArgs

section Vector

/-- An entry of args. -/
inductive Entry
  | unset
  | null
  | arg (text : Bytes)
  deriving DecidableEq

/-- The block args, which has room for args_max entries, and the arguments it is said to hold. -/
structure ArgVector where
  args : List Entry
  argsLen : ℕ

def ArgVector.argsMax (v : ArgVector) : ℕ := v.args.length

def setEntry (args : List Entry) (i : ℕ) (e : Entry) : CRun (List Entry) :=
  if i < args.length then .ok (args.set i e) else .error .fault

/-- An argument at the end, in a block that grows by ten when the null pointer fills it. -/
def ArgVector.addArg (v : ArgVector) (text : Bytes) : CRun ArgVector := do
  let args := if v.argsMax = v.argsLen + 1 then v.args ++ List.replicate 10 .unset else v.args
  let args ← setEntry args v.argsLen (.arg text)
  let args ← setEntry args (v.argsLen + 1) .null
  return ⟨args, v.argsLen + 1⟩

/-- The loop of sshv2_add_exec_args. -/
def addArgsTo : ℕ → ArgVector → Bytes → CRun ArgVector
  | 0, _, _ => .error .pending
  | fuel + 1, v, curpos => do
      match ← nextArg curpos with
      | (arg, none) => v.addArg (cstr arg)
      | (arg, some endpos) =>
          let v ← v.addArg (cstr (arg.take endpos))
          addArgsTo fuel v (skipBlanks (arg.drop (endpos + 1)))

/-- sshv2_add_exec_args, less the text for the log. -/
def addExecArgsTo (v : ArgVector) (a : StackArray) (formatted : Bytes) : CRun ArgVector :=
  addArgsTo a.cells.length v (skipBlanks (a.format formatted))

/-- The vector holds these arguments and a null pointer behind them. -/
structure ArgVector.Holds (v : ArgVector) (texts : List Bytes) : Prop where
  entries : ∃ room, v.args = texts.map .arg ++ .null :: room
  count : v.argsLen = texts.length

/-- The vector of sshv2_gen_exec_args with its first argument. -/
def firstArg (prog : Bytes) : ArgVector := ⟨.arg prog :: List.replicate 14 .null, 1⟩

theorem firstArg_holds (prog : Bytes) : (firstArg prog).Holds [prog] :=
  ⟨⟨List.replicate 13 .null, rfl⟩, rfl⟩

variable {v v' : ArgVector} {before texts args : List Bytes} {fuel : ℕ} {curpos : Bytes}

theorem ArgVector.Holds.unique (h : v.Holds texts) (h' : v.Holds args) : texts = args := by
  obtain ⟨⟨room, hentries⟩, hcount⟩ := h
  obtain ⟨⟨room', hentries'⟩, hcount'⟩ := h'
  have hlen : (texts.map Entry.arg).length = (args.map Entry.arg).length := by
    rw [List.length_map, List.length_map, ← hcount, hcount']
  have hsame := List.append_inj_left (hentries.symm.trans hentries') hlen
  exact List.map_injective_iff.mpr (fun _ _ h => Entry.arg.inj h) hsame

/-- The block has room for the argument and the null pointer whenever it held its own. -/
theorem addArg_holds (hv : v.Holds before) (text : Bytes) :
    ∃ v', v.addArg text = .ok v' ∧ v'.Holds (before ++ [text]) := by
  obtain ⟨⟨room, hentries⟩, hcount⟩ := hv
  -- The block that is written: the entry of the null pointer and at least one more.
  obtain ⟨next, room', hgrown⟩ : ∃ next room',
      (if v.argsMax = v.argsLen + 1 then v.args ++ List.replicate 10 .unset else v.args) =
        before.map .arg ++ .null :: next :: room' := by
    unfold ArgVector.argsMax
    rw [hentries, hcount]
    cases room with
    | nil => exact ⟨.unset, List.replicate 9 .unset, by simp⟩
    | cons next room => exact ⟨next, room, by simp⟩
  have hfirst : setEntry (before.map .arg ++ .null :: next :: room') v.argsLen (.arg text) =
      .ok (before.map .arg ++ .arg text :: next :: room') := by
    unfold setEntry
    rw [if_pos (by simp [hcount]), hcount, List.set_append_right _ _ (by simp)]
    simp
  have hsecond : setEntry (before.map .arg ++ .arg text :: next :: room') (v.argsLen + 1) .null =
      .ok (before.map .arg ++ .arg text :: .null :: room') := by
    unfold setEntry
    rw [if_pos (by simp [hcount]), hcount, List.set_append_right _ _ (by simp)]
    simp
  refine ⟨⟨before.map .arg ++ .arg text :: .null :: room', v.argsLen + 1⟩, ?_, ?_, ?_⟩
  · simp only [ArgVector.addArg, hgrown, hfirst, hsecond, CRun.ok_bind]
    rfl
  · exact ⟨room', by simp⟩
  · simp [hcount]

/-- The loop leaves its arguments behind those that are there. -/
theorem addArgsTo_of_addArgs (hv : v.Holds before) (h : addArgs fuel curpos = .ok args) :
    ∃ v', addArgsTo fuel v curpos = .ok v' ∧ v'.Holds (before ++ args) := by
  induction fuel generalizing v before curpos args with
  | zero => simp [addArgs] at h
  | succ fuel ih =>
    obtain ⟨⟨arg, endpos⟩, hnext, h⟩ := CRun.bind_eq_ok.mp h
    cases endpos with
    | none =>
      obtain rfl := Except.ok.inj h
      obtain ⟨v', hadd, hv'⟩ := addArg_holds hv (cstr arg)
      exact ⟨v', by simp only [addArgsTo, hnext, CRun.ok_bind, hadd], hv'⟩
    | some endpos =>
      obtain ⟨later, hlater, h⟩ := CRun.bind_eq_ok.mp h
      obtain rfl := Except.ok.inj h
      obtain ⟨w, hadd, hw⟩ := addArg_holds hv (cstr (arg.take endpos))
      obtain ⟨v', hloop, hv'⟩ := ih hw hlater
      refine ⟨v', ?_, by simpa using hv'⟩
      simp only [addArgsTo, hnext, CRun.ok_bind, hadd, hloop]

/-- A run of the loop that returns has kept the block in its bounds, and what it leaves are
the arguments of the loop. -/
theorem addArgs_of_addArgsTo (hv : v.Holds before) (h : addArgsTo fuel v curpos = .ok v') :
    ∃ args, addArgs fuel curpos = .ok args ∧ v'.Holds (before ++ args) := by
  induction fuel generalizing v before curpos with
  | zero => simp [addArgsTo] at h
  | succ fuel ih =>
    obtain ⟨⟨arg, endpos⟩, hnext, h⟩ := CRun.bind_eq_ok.mp h
    cases endpos with
    | none =>
      obtain ⟨w, hadd, hw⟩ := addArg_holds hv (cstr arg)
      obtain rfl := Except.ok.inj (hadd.symm.trans h)
      exact ⟨[cstr arg], by simp only [addArgs, hnext, CRun.ok_bind]; rfl, hw⟩
    | some endpos =>
      obtain ⟨w, hadd, hw⟩ := addArg_holds hv (cstr (arg.take endpos))
      obtain ⟨w', hadd', h⟩ := CRun.bind_eq_ok.mp h
      obtain rfl := Except.ok.inj (hadd.symm.trans hadd')
      obtain ⟨args, hargs, hv'⟩ := ih hw h
      refine ⟨cstr (arg.take endpos) :: args, ?_, by simpa using hv'⟩
      simp only [addArgs, hnext, CRun.ok_bind, hargs]
      rfl

theorem addExecArgs_of_addExecArgsTo {a : StackArray} {formatted : Bytes} (hv : v.Holds before)
    (h : addExecArgsTo v a formatted = .ok v') :
    ∃ args, sshv2AddExecArgs a formatted = .ok args ∧ v'.Holds (before ++ args) :=
  addArgs_of_addArgsTo hv h

/-- The vector after a call holds these arguments more exactly when the loop finds these. -/
theorem addExecArgsTo_iff {a : StackArray} {formatted : Bytes} (hv : v.Holds before) :
    (∃ v', addExecArgsTo v a formatted = .ok v' ∧ v'.Holds (before ++ args)) ↔
      sshv2AddExecArgs a formatted = .ok args := by
  constructor
  · intro ⟨v', hrun, hv'⟩
    obtain ⟨texts, htexts, hv''⟩ := addExecArgs_of_addExecArgsTo hv hrun
    obtain rfl := List.append_cancel_left (hv'.unique hv'')
    exact htexts
  · exact addArgsTo_of_addArgs hv

end Vector

section Words

/-- A word up to a blank. Where spans inside words count too, it ends at a quote that another
one follows. -/
def plainWord (inside : Bool) : Bytes → Bytes
  | [] => []
  | b :: s => if b = 32 ∨ inside = true ∧ b = 34 ∧ 34 ∈ s then [] else b :: plainWord inside s

/-- The words of a text: what blanks separate, and the text between two quotes. The switch
says whether a quote inside a word begins such a span too. -/
def textWords (inside : Bool) : Bytes → List Bytes
  | [] => []
  | b :: s =>
      if b = 32 then textWords inside s
      else if b = 34 ∧ 34 ∈ s then
        s.takeWhile (· ≠ 34) :: textWords inside ((s.dropWhile (· ≠ 34)).drop 1)
      else (b :: plainWord inside s) :: textWords inside (s.drop (plainWord inside s).length)
termination_by s => s.length
decreasing_by
  · simp
  · have hle := (List.dropWhile_sublist (fun b : UInt8 => decide (b ≠ 34)) (l := s)).length_le
    simp only [List.length_drop, List.length_cons]
    omega
  · simp only [List.length_drop, List.length_cons]
    omega

/-- A word that is cut off as meant: it does not begin with a quote, and a quote inside it begins
no span that counts. -/
structure Plain (inside : Bool) (word rest : Bytes) : Prop where
  nonempty : word ≠ []
  no_blank : 32 ∉ word
  no_quote : word.head? ≠ some 34
  no_span : inside = true → 34 ∈ word → (word ++ rest).count 34 = 1

/-- A text of words and of spans that are not empty, which ends with a word. -/
inductive Clean (inside : Bool) : Bytes → Prop
  | last {word : Bytes} (hword : Plain inside word []) : Clean inside word
  | blank {s : Bytes} (hs : Clean inside s) : Clean inside (32 :: s)
  | word {word s : Bytes} (hword : Plain inside word (32 :: s)) (hs : Clean inside s) :
      Clean inside (word ++ 32 :: s)
  | span {text s : Bytes} (hne : text ≠ []) (htext : 34 ∉ text) (hs : Clean inside s) :
      Clean inside (34 :: text ++ 34 :: s)

variable {inside : Bool} {s word rest junk : Bytes} {fuel : ℕ}

/-- A word that a blank or the text's end follows is cut off there unless a span begins in it. -/
theorem plainWord_eq_iff (hblank : 32 ∉ word) (hrest : rest = [] ∨ rest.head? = some 32) :
    plainWord inside (word ++ rest) = word ↔
      (inside = true → 34 ∈ word → (word ++ rest).count 34 = 1) := by
  induction word with
  | nil =>
    have hcut : plainWord inside rest = [] := by
      cases rest with
      | nil => rfl
      | cons b rest =>
        obtain rfl : b = 32 := by simpa using hrest
        simp [plainWord]
    simp [hcut]
  | cons b word ih =>
    obtain ⟨hb, hword⟩ : 32 ≠ b ∧ 32 ∉ word := by simpa [not_or] using hblank
    rw [List.cons_append, plainWord]
    by_cases hopen : inside = true ∧ b = 34 ∧ 34 ∈ word ++ rest
    · obtain ⟨hinside, rfl, hmem⟩ := hopen
      have hpos : 0 < (word ++ rest).count 34 := List.count_pos_iff.mpr hmem
      rw [if_pos (Or.inr ⟨hinside, rfl, hmem⟩), List.count_cons_self]
      constructor
      · intro hnil
        cases hnil
      · intro hone
        have hcount := hone hinside (List.mem_cons_self ..)
        omega
    · rw [if_neg (not_or.mpr ⟨Ne.symm hb, hopen⟩), List.cons.injEq, ih hword]
      simp only [true_and]
      by_cases hquote : b = 34
      · subst hquote
        constructor
        · intro _ hinside _
          have hnone : 34 ∉ word ++ rest := fun hmem => hopen ⟨hinside, rfl, hmem⟩
          rw [List.count_cons_self, List.count_eq_zero.mpr hnone]
        · intro _ hinside hmem
          exact absurd ⟨hinside, rfl, List.mem_append_left rest hmem⟩ hopen
      · rw [List.count_cons_of_ne (by simpa using hquote)]
        simp [Ne.symm hquote]

@[simp] theorem textWords_nil : textWords inside [] = [] := by
  rw [textWords]

theorem textWords_blank : textWords inside (32 :: s) = textWords inside s := by
  rw [textWords, if_pos rfl]

theorem textWords_skipBlanks : textWords inside (skipBlanks s) = textWords inside s := by
  induction s with
  | nil => rfl
  | cons b s ih =>
    by_cases hb : b = 32
    · subst hb
      rw [textWords_blank]
      exact ih
    · simp [skipBlanks, hb]

theorem textWords_span (h : 34 ∈ s) :
    textWords inside (34 :: s) =
      s.takeWhile (· ≠ 34) :: textWords inside ((s.dropWhile (· ≠ 34)).drop 1) := by
  rw [textWords, if_neg (by decide), if_pos ⟨rfl, h⟩]

/-- The first word of a text that does not begin with a blank or a span. -/
theorem textWords_word {b : UInt8} (hb : b ≠ 32) (hspan : ¬ (b = 34 ∧ 34 ∈ s)) :
    textWords inside (b :: s) =
      (b :: plainWord inside s) :: textWords inside (s.drop (plainWord inside s).length) := by
  rw [textWords, if_neg hb, if_neg hspan]

theorem clean_blank_iff : Clean inside (32 :: s) ↔ Clean inside s := by
  constructor
  · intro h
    generalize ht : 32 :: s = t at h
    cases h with
    | last hword => exact absurd (ht ▸ List.mem_cons_self ..) hword.no_blank
    | blank hs => rwa [(List.cons.inj ht).2]
    | @word word s' hword hs =>
      cases word with
      | nil => exact absurd rfl hword.nonempty
      | cons b word => exact absurd (by simp [(List.cons.inj ht).1]) hword.no_blank
    | span => exact absurd (List.cons.inj ht).1 (by decide)
  · exact Clean.blank

theorem clean_skipBlanks_iff : Clean inside (skipBlanks s) ↔ Clean inside s := by
  induction s with
  | nil => rfl
  | cons b s ih =>
    by_cases hb : b = 32
    · subst hb
      rw [clean_blank_iff]
      exact ih
    · simp [skipBlanks, hb]

theorem takeWhile_stop {b : UInt8} (h : b ∉ word) :
    (word ++ b :: rest).takeWhile (· ≠ b) = word := by
  rw [List.takeWhile_append_of_pos (fun c hc => by simpa using fun hcb : c = b => h (hcb ▸ hc))]
  simp

theorem dropWhile_stop {b : UInt8} (h : b ∉ word) :
    (word ++ b :: rest).dropWhile (· ≠ b) = b :: rest := by
  rw [List.dropWhile_append_of_pos (fun c hc => by simpa using fun hcb : c = b => h (hcb ▸ hc))]
  simp

theorem clean_quote_iff :
    Clean inside (34 :: s) ↔
      s.head? ≠ some 34 ∧ 34 ∈ s ∧ Clean inside ((s.dropWhile (· ≠ 34)).drop 1) := by
  constructor
  · intro h
    generalize ht : 34 :: s = t at h
    cases h with
    | last hword => exact absurd (ht ▸ rfl) hword.no_quote
    | blank => exact absurd (List.cons.inj ht).1 (by decide)
    | @word word s' hword hs =>
      cases word with
      | nil => exact absurd rfl hword.nonempty
      | cons b word => exact absurd (by simp [(List.cons.inj ht).1]) hword.no_quote
    | @span text s' hne htext hs =>
      have htail : s = text ++ 34 :: s' := (List.cons.inj ht).2
      rw [htail, dropWhile_stop htext]
      refine ⟨?_, by simp, hs⟩
      cases text with
      | nil => exact absurd rfl hne
      | cons c text =>
        intro hc
        exact htext (by simp [Option.some.inj hc])
  · intro ⟨hhead, hmem, hs⟩
    obtain ⟨text, s', rfl, htext⟩ := List.eq_append_cons_of_mem hmem
    rw [dropWhile_stop htext] at hs
    refine Clean.span ?_ htext hs
    rintro rfl
    exact hhead rfl

theorem plain_iff {b : UInt8} (hb : b ≠ 32 ∧ b ≠ 34) (hblank : 32 ∉ word)
    (hrest : rest = [] ∨ rest.head? = some 32) :
    Plain inside (b :: word) rest ↔ plainWord inside (word ++ rest) = word := by
  rw [plainWord_eq_iff hblank hrest]
  have hcount : (b :: word ++ rest).count 34 = (word ++ rest).count 34 :=
    List.count_cons_of_ne (by simpa using hb.2)
  have hmem : 34 ∈ b :: word ↔ 34 ∈ word := by simp [Ne.symm hb.2]
  constructor
  · intro h hinside hquote
    rw [← hcount]
    exact h.no_span hinside (hmem.mpr hquote)
  · intro h
    refine ⟨by simp, by simp [Ne.symm hb.1, hblank], by simpa using hb.2, ?_⟩
    intro hinside hquote
    rw [hcount]
    exact h hinside (hmem.mp hquote)

/-- Text without a blank is clean as one word. -/
theorem clean_last_iff {b : UInt8} (hb : b ≠ 32 ∧ b ≠ 34) (hblank : 32 ∉ word) :
    Clean inside (b :: word) ↔ plainWord inside word = word := by
  have hplain := @plain_iff inside word [] b hb hblank (Or.inl rfl)
  rw [List.append_nil] at hplain
  rw [← hplain]
  constructor
  · intro h
    generalize ht : b :: word = t at h
    cases h with
    | last hword => exact ht ▸ hword
    | blank => exact absurd (List.cons.inj ht).1 hb.1
    | @word word' s hword hs =>
      have hmem : 32 ∈ b :: word := ht ▸ (by simp)
      simp [Ne.symm hb.1, hblank] at hmem
    | span => exact absurd (List.cons.inj ht).1 hb.2
  · exact Clean.last

theorem clean_word_iff {b : UInt8} (hb : b ≠ 32 ∧ b ≠ 34) (hblank : 32 ∉ word) :
    Clean inside (b :: word ++ 32 :: s) ↔
      plainWord inside (word ++ 32 :: s) = word ∧ Clean inside s := by
  rw [← plain_iff hb hblank (Or.inr rfl)]
  constructor
  · intro h
    generalize ht : b :: word ++ 32 :: s = t at h
    cases h with
    | last hword => exact absurd (ht ▸ (by simp)) hword.no_blank
    | blank => exact absurd (List.cons.inj ht).1 hb.1
    | @word word' s' hword hs =>
      have hfront := congrArg (List.takeWhile (· ≠ (32 : UInt8))) ht
      rw [takeWhile_stop hword.no_blank, takeWhile_stop (by simp [Ne.symm hb.1, hblank])] at hfront
      subst hfront
      obtain ⟨-, rfl⟩ := List.cons.inj (List.append_cancel_left ht)
      exact ⟨hword, hs⟩
    | span => exact absurd (List.cons.inj ht).1 hb.2
  · intro ⟨hword, hs⟩
    exact Clean.word hword hs

/-- An argument in front of the arguments of a further run. -/
theorem cons_run_iff {run : CRun (List Bytes)} {arg text : Bytes} {texts : List Bytes} :
    (do let args ← run; return arg :: args) = (.ok (text :: texts) : CRun (List Bytes)) ↔
      arg = text ∧ run = .ok texts := by
  cases run with
  | error e => simp
  | ok args => simp [pure, Except.pure]

section Step

/- What the loop and the words agree on for every text that is no longer than the rest. -/
variable (ih : ∀ rest : Bytes, rest.length < s.length + 1 → 0 ∉ rest →
  (addArgs fuel (skipBlanks rest ++ 0 :: junk) = .ok (textWords inside rest) ↔ Clean inside rest))

include ih

theorem quote_step (hs : 0 ∉ s) :
    addArgs (fuel + 1) (34 :: s ++ 0 :: junk) = .ok (textWords inside (34 :: s)) ↔
      Clean inside (34 :: s) := by
  rw [clean_quote_iff]
  cases s with
  | nil =>
    -- A quote at the end: the argument is empty, and what stands behind the terminator is searched.
    simp only [List.not_mem_nil, false_and, and_false, iff_false]
    intro hrun
    obtain ⟨arg, args, hargs, -, hquote⟩ := addArgs_first (s := [34]) (by decide) hrun
    rw [textWords_word (by decide) (by simp)] at hargs
    have hempty := (hquote rfl).1.length_le
    rw [← (List.cons.inj hargs).1] at hempty
    simp at hempty
  | cons c w =>
    have hw : 0 ∉ w := fun h => hs (List.mem_cons_of_mem _ h)
    rw [addArgs_quote hs]
    by_cases hc : c = 34
    · -- Two quotes: the span is empty, and the argument begins with the second quote.
      subst hc
      rw [textWords_span (List.mem_cons_self ..)]
      simp only [List.head?_cons, ne_eq, not_true_eq_false, false_and, iff_false]
      split
      · rw [cons_run_iff]
        simp
      · simp
    · by_cases hclosed : 34 ∈ w
      · obtain ⟨text, rest, rfl, htext⟩ := List.eq_append_cons_of_mem hclosed
        have hspan : 34 ∉ c :: text := by simp [Ne.symm hc, htext]
        have hrest : 0 ∉ rest := fun h => hw (by simp [h])
        have hcut : (c :: (text ++ 34 :: rest)).takeWhile (· ≠ 34) = c :: text :=
          takeWhile_stop hspan
        have hback : (c :: (text ++ 34 :: rest)).dropWhile (· ≠ 34) = 34 :: rest :=
          dropWhile_stop hspan
        rw [if_pos hclosed, textWords_span (by simp), hcut, hback, takeWhile_stop htext,
          dropWhile_stop htext, cons_run_iff]
        simp only [List.drop_one, List.tail_cons, true_and]
        rw [ih rest (by simp; omega) hrest]
        simp [hc]
      · -- No closing quote: the quote is left out, and so are the blanks behind it.
        have hopen : 34 ∉ c :: w := by simp [Ne.symm hc, hclosed]
        rw [if_neg hclosed, textWords_word (by decide) (fun h => hopen h.2)]
        simp only [Except.ok.injEq, List.cons.injEq]
        constructor
        · rintro ⟨⟨hquote, -⟩, -⟩
          exact absurd hquote hc
        · rintro ⟨-, hmem, -⟩
          exact absurd hmem hopen

theorem word_step {b : UInt8} (hb : b ≠ 32 ∧ b ≠ 34) (hs : 0 ∉ b :: s) :
    addArgs (fuel + 1) (b :: s ++ 0 :: junk) = .ok (textWords inside (b :: s)) ↔
      Clean inside (b :: s) := by
  have hhead : (b :: s).head? ≠ some 34 := by simpa using hb.2
  rw [addArgs_text hs hhead, textWords_word hb.1 (fun h => hb.2 h.1)]
  by_cases hblank : 32 ∈ s
  · obtain ⟨word, rest, rfl, hword⟩ := List.eq_append_cons_of_mem hblank
    have hplain : 32 ∉ b :: word := by simp [Ne.symm hb.1, hword]
    have hrest : 0 ∉ rest := fun h => hs (by simp [h])
    have hcut : (b :: (word ++ 32 :: rest)).takeWhile (· ≠ 32) = b :: word :=
      takeWhile_stop hplain
    have hback : (b :: (word ++ 32 :: rest)).dropWhile (· ≠ 32) = 32 :: rest :=
      dropWhile_stop hplain
    have hclean := @clean_word_iff inside rest word b hb hword
    rw [List.cons_append] at hclean
    rw [if_pos (by simp), hcut, hback, cons_run_iff, hclean, List.cons.injEq]
    simp only [List.drop_one, List.tail_cons, true_and]
    constructor
    · intro ⟨hsame, hrun⟩
      rw [← hsame, List.drop_left, textWords_blank, ih rest (by simp; omega) hrest] at hrun
      exact ⟨hsame.symm, hrun⟩
    · intro ⟨hsame, hrun⟩
      rw [hsame, List.drop_left, textWords_blank, ih rest (by simp; omega) hrest]
      exact ⟨rfl, hrun⟩
  · rw [if_neg (by simp [Ne.symm hb.1, hblank]), clean_last_iff hb hblank]
    simp only [Except.ok.injEq, List.cons.injEq, true_and]
    constructor
    · rintro ⟨hsame, -⟩
      exact hsame.symm
    · intro hsame
      rw [hsame]
      simp

end Step

/-- The loop finds the words of a text exactly when the text is clean. -/
theorem addArgs_iff_clean (hs : 0 ∉ s) (hfuel : s.length < fuel) :
    addArgs fuel (skipBlanks s ++ 0 :: junk) = .ok (textWords inside s) ↔ Clean inside s := by
  induction fuel generalizing s with
  | zero => omega
  | succ fuel ih =>
    have hsub : (skipBlanks s).Sublist s := List.dropWhile_sublist _
    have hlen := hsub.length_le
    have hnul : 0 ∉ skipBlanks s := fun h => hs (hsub.subset h)
    have hhead : (skipBlanks s).head? ≠ some 32 := by
      intro h
      have hstop := List.head?_dropWhile_not (fun b : UInt8 => decide (b = 32)) s
      rw [show (s.dropWhile fun b => decide (b = 32)).head? = some 32 from h] at hstop
      simp at hstop
    rw [← textWords_skipBlanks, ← clean_skipBlanks_iff]
    generalize skipBlanks s = t at hlen hnul hhead
    cases t with
    | nil =>
      -- Nothing but blanks: one empty argument.
      rw [addArgs_text hnul (by simp), if_neg (by simp)]
      constructor
      · intro h
        simp at h
      · intro h
        generalize ht : ([] : Bytes) = t at h
        cases h with
        | last hword => exact absurd ht.symm hword.nonempty
        | blank => cases ht
        | word hword hs => simp at ht
        | span => cases ht
    | cons b t =>
      have hrest : ∀ rest : Bytes, rest.length < t.length + 1 → 0 ∉ rest →
          (addArgs fuel (skipBlanks rest ++ 0 :: junk) = .ok (textWords inside rest) ↔
            Clean inside rest) := by
        intro rest hshort hnul
        rw [List.length_cons] at hlen
        exact ih hnul (by omega)
      by_cases hquote : b = 34
      · subst hquote
        exact quote_step hrest (fun h => hnul (List.mem_cons_of_mem _ h))
      · exact word_step hrest ⟨by simpa using hhead, hquote⟩ hnul

/-- The words of ssh_extra_params are appended to a vector, with the null pointer behind them and
nothing written outside, exactly when the text is clean: it ends with a word, and each quote
that begins a word has a later quote that does not follow it directly. -/
theorem add_exec_args_iff (inside : Bool) {v : ArgVector} {before : List Bytes} (a : StackArray)
    (sshExtraParams : CString) (hv : v.Holds before) (hfit : sshExtraParams.bytes.length < 2048) :
    (∃ v', addExecArgsTo v a sshExtraParams.bytes = .ok v' ∧
        v'.Holds (before ++ textWords inside sshExtraParams.bytes)) ↔
      Clean inside sshExtraParams.bytes := by
  rw [addExecArgsTo_iff hv, addExecArgs_eq, List.take_of_length_le (by omega)]
  exact addArgs_iff_clean sshExtraParams.nul_free hfit

/-- A verbose flag and an option with a blank in it. -/
def verboseParams : CString := ⟨ascii " -v  \"-o X\" -x", by decide⟩

theorem add_exec_args_verbose :
    ∃ v', addExecArgsTo (firstArg (ascii "ssh")) ⟨List.replicate 2048 0, List.length_replicate ..⟩
        verboseParams.bytes = .ok v' ∧
      v'.Holds [ascii "ssh", ascii "-v", ascii "-o X", ascii "-x"] := by
  have hclean : Clean true verboseParams.bytes := by
    have hflag : Plain true (ascii "-v") (32 :: (32 :: (34 :: ascii "-o X" ++ 34 :: (32 :: ascii "-x")))) :=
      ⟨by decide, by decide, by decide, fun _ h => absurd h (by decide)⟩
    have hlast : Plain true (ascii "-x") [] :=
      ⟨by decide, by decide, by decide, fun _ h => absurd h (by decide)⟩
    exact .blank (.word hflag (.blank (.span (by decide) (by decide) (.blank (.last hlast)))))
  have hwords : textWords true verboseParams.bytes = [ascii "-v", ascii "-o X", ascii "-x"] := by
    simp [verboseParams, ascii, textWords, plainWord]
  obtain ⟨v', hrun, hholds⟩ :=
    (add_exec_args_iff true _ verboseParams (firstArg_holds _) (by decide)).mpr hclean
  rw [hwords] at hholds
  exact ⟨v', hrun, hholds⟩

/-- A blank behind the last word makes an empty argument. -/
theorem trailing_blank_adds_empty :
    ¬ ∃ inside v', addExecArgsTo (firstArg (ascii "ssh"))
        ⟨List.replicate 2048 0, List.length_replicate ..⟩ (ascii "-v ") = .ok v' ∧
      v'.Holds ([ascii "ssh"] ++ textWords inside (ascii "-v ")) := by
  intro ⟨inside, h⟩
  rw [addExecArgsTo_iff (firstArg_holds _)] at h
  have hrun : sshv2AddExecArgs ⟨List.replicate 2048 0, List.length_replicate ..⟩ (ascii "-v ") =
      .ok [ascii "-v", []] := addExecArgs_words (by decide) (by decide)
  have hwords : textWords inside (ascii "-v ") = [ascii "-v"] := by
    rw [show ascii "-v " = [45, 118, 32] from rfl, textWords_word (by decide) (by decide)]
    simp [plainWord, textWords_blank]
    rfl
  rw [hrun, hwords] at h
  exact absurd (Except.ok.inj h) (by decide)

end Words

end Gftp.ParameterWords
