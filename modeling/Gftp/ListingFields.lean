import Gftp.ListingParsers

/-!
Columns of a listing line: words without blanks and the gaps between them. The functions
that go from column to column do so whatever is in the words.
-/

namespace Gftp.ListingFields

open ByteStrings TextPointers Decimal Protocol ListingParsers

/-- Bytes that belong to one column. -/
def Plain (t : Bytes) : Prop := ∀ b ∈ t, b ≠ 0 ∧ isBlank b = false

/-- Blanks between two columns. -/
def Gap (t : Bytes) : Prop := ∀ b ∈ t, isBlank b = true

/-- Bytes of a text are tried one by one, not all values of a byte. -/
instance decidableBytes {p : UInt8 → Prop} [DecidablePred p] (t : Bytes) :
    Decidable (∀ b ∈ t, p b) :=
  List.decidableBAll p t

instance : DecidablePred Plain := fun t =>
  inferInstanceAs (Decidable (∀ b ∈ t, b ≠ 0 ∧ isBlank b = false))

instance : DecidablePred Gap := fun t => inferInstanceAs (Decidable (∀ b ∈ t, isBlank b = true))

theorem Plain.nul_free {t : Bytes} (h : Plain t) : 0 ∉ t := fun hmem => (h 0 hmem).1 rfl

theorem Gap.nul_free {t : Bytes} (h : Gap t) : 0 ∉ t := fun hmem => absurd (h 0 hmem) (by decide)

theorem Plain.no_blank {t : Bytes} (h : Plain t) : 32 ∉ t := fun hmem =>
  absurd (h 32 hmem).2 (by decide)

theorem Gap.head {gap : Bytes} (h : Gap gap) (hne : gap ≠ []) :
    ∃ b rest, gap = b :: rest ∧ isBlank b = true := by
  cases gap with
  | nil => exact absurd rfl hne
  | cons b rest => exact ⟨b, rest, rfl, h b (List.mem_cons_self ..)⟩

/-- A block that does not go on with a blank. -/
def Starts (rest : Bytes) : Prop := ∃ b t, rest = b :: t ∧ isBlank b = false

theorem starts_cons {b : UInt8} (hb : isBlank b = false) (rest : Bytes) : Starts (b :: rest) :=
  ⟨b, rest, rfl, hb⟩

theorem starts_nul (rest : Bytes) : Starts (0 :: rest) := starts_cons (by decide) rest

theorem Plain.starts {word : Bytes} (h : Plain word) (hne : word ≠ []) (rest : Bytes) :
    Starts (word ++ rest) := by
  cases word with
  | nil => exact absurd rfl hne
  | cons b word => exact starts_cons (h b (List.mem_cons_self ..)).2 (word ++ rest)

theorem skip_gap {gap : Bytes} (hgap : Gap gap) {rest : Bytes} (hrest : Starts rest) :
    skipWhile isBlank (gap ++ rest) = .ok rest := by
  obtain ⟨b, t, rfl, hb⟩ := hrest
  exact skipWhile_append hgap hb t

theorem skip_word {word : Bytes} (hword : Plain word) {b : UInt8}
    (hb : isBlank b = true ∨ b = 0) (rest : Bytes) :
    skipWhile (fun c => !isBlank c && c ≠ 0) (word ++ b :: rest) = .ok (b :: rest) := by
  refine skipWhile_append (fun c hc => ?_) ?_ rest
  · simp [hword c hc]
  · rcases hb with hb | rfl
    · simp [hb]
    · rfl

theorem gotoNextToken_word {word gap : Bytes} (hword : Plain word) (hgap : Gap gap)
    (hne : gap ≠ []) {rest : Bytes} (hrest : Starts rest) :
    gotoNextToken (word ++ (gap ++ rest)) = .ok rest := by
  obtain ⟨g, t, rfl, hg⟩ := hgap.head hne
  unfold gotoNextToken
  rw [List.cons_append, skip_word hword (Or.inl hg), CRun.ok_bind, ← List.cons_append]
  exact skip_gap hgap hrest

theorem gotoNextToken_last {word : Bytes} (hword : Plain word) (rest : Bytes) :
    gotoNextToken (word ++ 0 :: rest) = .ok (0 :: rest) := by
  unfold gotoNextToken
  rw [skip_word hword (Or.inr rfl), CRun.ok_bind]
  exact @skip_gap [] (by simp [Gap]) _ (starts_nul rest)

theorem gotoNextToken_gap {gap : Bytes} (hgap : Gap gap) (hne : gap ≠ []) {rest : Bytes}
    (hrest : Starts rest) : gotoNextToken (gap ++ rest) = .ok rest :=
  @gotoNextToken_word [] gap (by simp [Plain]) hgap hne rest hrest

/-- A column is copied, and what follows the gap behind it comes next. -/
theorem copyToken_word {word gap : Bytes} (hword : Plain word) (hgap : Gap gap) (hne : gap ≠ [])
    {rest : Bytes} (hrest : Starts rest) :
    copyToken (word ++ (gap ++ rest)) = pure (word, rest) := by
  obtain ⟨g, t, rfl, hg⟩ := hgap.head hne
  have hzero : g ≠ 0 := by
    rintro rfl
    exact absurd hg (by decide)
  unfold copyToken
  rw [List.cons_append, skip_word hword (Or.inl hg), Parse.read_bind]
  have hlen : (word ++ g :: (t ++ rest)).length - (g :: (t ++ rest)).length = word.length := by
    simp
  simp only [deref, Parse.read_bind, if_neg hzero, List.drop_one, List.tail_cons,
    skip_gap (fun c hc => hgap c (List.mem_cons_of_mem _ hc)) hrest, hlen, List.take_left]

section Text

/-- What a text goes on with behind its first column. -/
def nextToken (t : Bytes) : Bytes := (t.dropWhile fun b => !isBlank b).dropWhile isBlank

theorem nextToken_suffix (t : Bytes) : nextToken t <:+ t :=
  (List.dropWhile_suffix _).trans (List.dropWhile_suffix _)

theorem nul_not_mem_suffix {s t : Bytes} (h : s <:+ t) (ht : 0 ∉ t) : 0 ∉ s :=
  fun hmem => ht (h.subset hmem)

theorem dropWhile_eq {f g : UInt8 → Bool} {t : Bytes} (h : ∀ b ∈ t, f b = g b) :
    t.dropWhile f = t.dropWhile g := by
  induction t with
  | nil => rfl
  | cons b t ih =>
    rw [List.forall_mem_cons] at h
    rw [List.dropWhile_cons, List.dropWhile_cons, h.1, ih h.2]

theorem gotoNextToken_text {t : Bytes} (ht : 0 ∉ t) (rest : Bytes) :
    gotoNextToken (t ++ 0 :: rest) = .ok (nextToken t ++ 0 :: rest) := by
  have hword : t.dropWhile (fun b => !isBlank b && decide (b ≠ 0)) =
      t.dropWhile fun b => !isBlank b := by
    refine dropWhile_eq fun b hb => ?_
    simp [ne_of_mem_of_not_mem hb ht]
  unfold gotoNextToken
  rw [skipWhile_text (by decide), CRun.ok_bind, skipWhile_text (by decide), hword]
  rfl

/-- What strptime makes of a text, for the form of date that the text suggests. -/
def timeMatch (host : Host) (s : Bytes) : Tm × Option ℕ :=
  let char (i : ℕ) : UInt8 := s.getD i 0
  let curtime := { Tm.zero with isdst := -1 }
  let long := 4 < s.length
  if long ∧ isDigit (char 0) ∧ char 2 = 45 ∧ isDigit (char 3) then
    host.strptime (ascii "%m-%d-%y %I:%M%p") s curtime
  else if long ∧ isDigit (char 0) ∧ char 2 = 45 ∧ isAlpha (char 3) then
    host.strptime (ascii "%d-%h-%Y %H:%M") s curtime
  else if long ∧ isDigit (char 0) ∧ char 4 = 47 then
    host.strptime (ascii "%Y/%m/%d") s curtime
  else if 58 ∈ s then
    let (curtime, tmppos) := host.strptime (ascii "%h %d %H:%M") s curtime
    let loctime := host.localtime host.time
    let year := if loctime.mon < curtime.mon then loctime.year - 1 else loctime.year
    ({ curtime with year := year }, tmppos)
  else host.strptime (ascii "%h %d %Y") s curtime

/-- The date at the start of a text, and the text behind it. -/
def timeText (host : Host) (s : Bytes) : ℤ × Bytes :=
  match timeMatch host s with
  | (tm, some n) => (host.mktime tm, s.drop n)
  | (_, none) => (0, nextToken (nextToken s))

/-- strptime does not read past the text it is given. -/
def ReadsInside (host : Host) : Prop :=
  ∀ (format s : Bytes) (tm : Tm) (n : ℕ), (host.strptime format s tm).2 = some n → n ≤ s.length

theorem timeMatch_inside {host : Host} (hhost : ReadsInside host) {s : Bytes} {tm : Tm} {n : ℕ}
    (h : timeMatch host s = (tm, some n)) : n ≤ s.length := by
  unfold timeMatch at h
  dsimp only at h
  split_ifs at h
  all_goals exact hhost _ s _ n (congrArg Prod.snd h)

theorem skipField_text {t : Bytes} (ht : 0 ∉ t) (rest : Bytes) :
    skipField (t ++ 0 :: rest) = .ok (nextToken t ++ 0 :: rest) := by
  unfold skipField
  rw [deref_text, CRun.ok_bind]
  split_ifs with h
  · cases t with
    | nil => rfl
    | cons b t => exact absurd (h ▸ List.mem_cons_self ..) ht
  · exact gotoNextToken_text ht rest

theorem parseTime_text {host : Host} (hhost : ReadsInside host) {t : Bytes} (ht : 0 ∉ t)
    (rest : Bytes) :
    parseTime host (t ++ 0 :: rest) =
      .ok ((timeText host t).1, (timeText host t).2 ++ 0 :: rest) := by
  have hrun := textAt_text ht rest
  unfold timeText
  rcases h : timeMatch host t with ⟨tm, _ | n⟩
  · have hfields : (do return (0, ← skipField (← skipField (t ++ 0 :: rest)))) =
        (.ok (0, nextToken (nextToken t) ++ 0 :: rest) : CRun (ℤ × Bytes)) := by
      rw [skipField_text ht, CRun.ok_bind,
        skipField_text (nul_not_mem_suffix (nextToken_suffix t) ht), CRun.ok_bind]
      rfl
    unfold timeMatch at h
    dsimp only at h
    rw [parseTime, hrun, CRun.ok_bind]
    dsimp only
    rw [h]
    exact hfields
  · have hdrop : (t ++ 0 :: rest).drop n = t.drop n ++ 0 :: rest :=
      List.drop_append_of_le_length (timeMatch_inside hhost h)
    unfold timeMatch at h
    dsimp only at h
    rw [parseTime, hrun, CRun.ok_bind]
    dsimp only
    rw [h, ← hdrop]
    rfl

theorem timeText_suffix (host : Host) (t : Bytes) : (timeText host t).2 <:+ t := by
  unfold timeText
  rcases timeMatch host t with ⟨tm, _ | n⟩
  · exact (nextToken_suffix _).trans (nextToken_suffix t)
  · exact List.drop_suffix n t

/-- The text behind a VMS date and the blanks that follow it. -/
def behindVmsTime (host : Host) (s : Bytes) : Bytes :=
  let first := host.strptime (ascii "%d-%b-%Y %H:%M:%S") s Tm.zero
  let endpos :=
    match first.2 with
    | some n => some n
    | none => (host.strptime (ascii "%d-%b-%Y %H:%M") s first.1).2
  match endpos with
  | some n => (s.drop n).dropWhile isBlank
  | none => nextToken (nextToken s)

theorem behindVmsTime_suffix (host : Host) (s : Bytes) : behindVmsTime host s <:+ s := by
  unfold behindVmsTime
  dsimp only
  split
  · exact (List.dropWhile_suffix _).trans (List.drop_suffix _ s)
  · exact (nextToken_suffix _).trans (nextToken_suffix s)

theorem parseVmsTime_text {host : Host} (hhost : ReadsInside host) {s : Bytes} (hs : 0 ∉ s)
    (rest : Bytes) :
    ∃ t, parseVmsTime host (s ++ 0 :: rest) = .ok (t, behindVmsTime host s ++ 0 :: rest) := by
  have hskip (n : ℕ) (hn : n ≤ s.length) : skipWhile isBlank ((s ++ 0 :: rest).drop n) =
      .ok ((s.drop n).dropWhile isBlank ++ 0 :: rest) := by
    rw [List.drop_append_of_le_length hn, skipWhile_text (by decide)]
  unfold parseVmsTime behindVmsTime
  rw [textAt_text hs, CRun.ok_bind]
  rcases hfirst : (host.strptime (ascii "%d-%b-%Y %H:%M:%S") s Tm.zero).2 with _ | n
  · rcases hsecond : (host.strptime (ascii "%d-%b-%Y %H:%M") s
      (host.strptime (ascii "%d-%b-%Y %H:%M:%S") s Tm.zero).1).2 with _ | n
    · simp only [hfirst, hsecond, gotoNextToken_text hs, CRun.ok_bind,
        gotoNextToken_text (nul_not_mem_suffix (nextToken_suffix s) hs)]
      exact ⟨_, rfl⟩
    · simp only [hfirst, hsecond, hskip n (hhost _ _ _ n hsecond), CRun.ok_bind]
      exact ⟨_, rfl⟩
  · simp only [hfirst, hskip n (hhost _ _ _ n hfirst), CRun.ok_bind]
    exact ⟨_, rfl⟩

end Text

/-- The name ends at the first semicolon, and a blank anywhere on the line makes the entry
one of a single line. -/
theorem parseLsVms_text {γ : Type} (host : Host) (nextLine : Option (NextLine γ)) (reader : γ)
    {t : Bytes} (ht : 0 ∉ t) (rest : Bytes) :
    gftpParseLsVms host nextLine reader (t ++ 0 :: rest) =
      if 59 ∈ t then
        if 32 ∈ t then
          oneLine reader do
            let curpos ← gotoNextToken (behindByte 59 t ++ 0 :: rest)
            vmsFields host (vmsName (t.takeWhile (· ≠ 59))) curpos
        else vmsSecondLine host (vmsName (t.takeWhile (· ≠ 59))) nextLine reader
      else oneLine reader (throw .fatal) := by
  unfold gftpParseLsVms
  by_cases hname : 59 ∈ t
  · have hlines : vmsMultiline (t ++ 0 :: rest) = .ok (if 32 ∈ t then false else true) := by
      rw [vmsMultiline, findByte_text (by decide) ht, CRun.ok_bind]
      split_ifs <;> rfl
    have htake : (t ++ 0 :: rest).take
        ((t ++ 0 :: rest).length - (59 :: (behindByte 59 t ++ 0 :: rest)).length) =
          t.takeWhile (· ≠ 59) := by
      obtain ⟨u, v, rfl, hu⟩ := List.eq_append_cons_of_mem hname
      rw [behindByte_append hu, List.append_assoc, List.cons_append, List.length_append,
        Nat.add_sub_cancel, List.take_left,
        List.takeWhile_append_of_pos fun b hb => by simpa using ne_of_mem_of_not_mem hb hu]
      simp
    rw [if_pos hname, findByte_behind ht hname, CRun.ok_bind]
    simp only [htake, hlines, CRun.ok_bind]
    by_cases hblank : 32 ∈ t
    · simp only [if_pos hblank]
      rfl
    · simp only [if_neg hblank]
      rfl
  · rw [if_neg hname, findByte_text (by decide) ht, if_neg hname]
    rfl

section Unix

/-- The copy with a blank behind the attributes. -/
def cutAttribs (str : Bytes) (slen : ℕ) : CRun Bytes :=
  if 10 < slen then overwrite str 10 [32] else .ok str

theorem cutAttribs_eq {attribs : Bytes} (hlen : attribs.length = 10) (b : UInt8) (rest : Bytes)
    {slen : ℕ} (hslen : 10 < slen) :
    cutAttribs (attribs ++ b :: rest) slen = .ok (attribs ++ 32 :: rest) := by
  unfold cutAttribs
  rw [if_pos hslen]
  exact @overwrite_middle attribs [b] rest [32] 10 hlen.symm rfl

/-- The user and the group of a line, as far as it has them. -/
def unixOwner (host : Host) (cols : ℕ) (startpos : Bytes) : Parse (Bytes × Bytes × Bytes) :=
  if 9 ≤ cols then do
    let startpos ← gotoNextToken startpos
    let (user, startpos) ← copyToken startpos
    let (group, startpos) ← copyToken startpos
    return (user, group, startpos)
  else if cols = 8 then do
    let (user, startpos) ← copyToken startpos
    return (user, host.unknown, ← gotoNextToken startpos)
  else do return (host.unknown, host.unknown, ← gotoNextToken startpos)

/-- Two columns more on the lines of a Cray. -/
def crayColumns (cray : Bool) (cols : ℕ) (str startpos : Bytes) : CRun Bytes :=
  if cray ∧ cols = 11 then do
    match ← findText (ascii "->") str with
    | none => gotoNextToken (← gotoNextToken startpos)
    | some _ => return startpos
  else return startpos

/-- The size, the date and the name. -/
def unixEntry (host : Host) (stMode : ℕ) (user group startpos : Bytes) : Parse GftpFile := do
  let (size, endpos) ← unixSize stMode startpos
  let startpos ← skipWhile (· = 32) (endpos.drop 1)
  let (datetime, startpos) ← parseTime host startpos
  let startpos ← gotoNextToken startpos
  return {
    file := some (← unixName stMode startpos)
    user := some user
    group := some group
    size := size
    datetime := datetime
    stMode := stMode }

/-- What follows the attributes. -/
def unixColumns (host : Host) (cray : Bool) (cols : ℕ) (str attribs startpos : Bytes) :
    Parse GftpFile := do
  let stMode ← gftpConvertAttributesToModeT attribs
  let (user, group, startpos) ← unixOwner host cols startpos
  let startpos ← crayColumns cray cols str startpos
  unixEntry host stMode user group startpos

/-- The parser as a sequence of its parts. -/
def unixParts (host : Host) (cray : Bool) (str : Bytes) (slen : ℕ) : Parse GftpFile := do
  let str ← cutAttribs str slen
  let cols ← countColumns (str.length + 1) str
  let (attribs, startpos) ← copyToken str
  if attribs.length < 10 then throw .fatal
  else unixColumns host cray cols str attribs startpos

theorem crayColumns_bind (cray : Bool) (cols : ℕ) (str startpos : Bytes)
    (f : Bytes → Parse GftpFile) :
    (liftM (crayColumns cray cols str startpos) : Parse Bytes) >>= f =
      if cray ∧ cols = 11 then
        (liftM (findText (ascii "->") str) : Parse (Option Bytes)) >>= fun arrow =>
          match arrow with
          | none => (liftM (gotoNextToken startpos) : Parse Bytes) >>= fun startpos =>
              (liftM (gotoNextToken startpos) : Parse Bytes) >>= f
          | some _ => f startpos
      else f startpos := by
  unfold crayColumns
  by_cases h : cray ∧ cols = 11
  · rw [if_pos h, if_pos h]
    cases findText (ascii "->") str with
    | error e => rfl
    | ok arrow =>
      cases arrow with
      | some _ => rfl
      | none =>
        cases gotoNextToken startpos with
        | error e =>
          simp only [Parse.read_bind, CRun.ok_bind]
          rfl
        | ok startpos => simp only [Parse.read_bind, CRun.ok_bind]
  · rw [if_neg h, if_neg h]
    rfl

theorem gftpParseLsUnix_eq (host : Host) (cray : Bool) (str : Bytes) (slen : ℕ) :
    gftpParseLsUnix host cray str slen = unixParts host cray str slen := by
  unfold gftpParseLsUnix unixParts cutAttribs
  by_cases hlong : 10 < slen
  all_goals
    simp only [hlong, if_true, if_false]
    refine bind_congr fun str => ?_
    refine bind_congr fun cols => ?_
    refine bind_congr fun r => ?_
    obtain ⟨attribs, startpos⟩ := r
    dsimp only
    by_cases hshort : attribs.length < 10
    · simp only [hshort, if_true]
      rfl
    · simp only [hshort, if_false]
      unfold unixColumns unixOwner
      refine bind_congr fun stMode => ?_
      simp only [crayColumns_bind]
      by_cases hcols : 9 ≤ cols
      · simp only [if_pos hcols, bind_assoc, pure_bind]
        rfl
      · by_cases hcols8 : cols = 8
        · simp only [if_neg hcols, if_pos hcols8, bind_assoc, pure_bind]
          rfl
        · simp only [if_neg hcols, if_neg hcols8, bind_assoc, pure_bind]
          rfl

end Unix

end Gftp.ListingFields
