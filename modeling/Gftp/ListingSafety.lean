import Gftp.EplfListing
import Gftp.SafeRuns
import Gftp.VmsListing

/-!
Which lines every parser reads inside their copy. The parsers of the UNIX and DOS formats
stay inside on every line. The others step over bytes that a short line does not have, or
over protection fields that are not there.
-/

namespace Gftp.ListingSafety

open ByteStrings TextPointers Decimal Protocol ListingParsers ListingFields SafeRuns

section Pointers

variable {p : Bytes}

theorem skipWhile_finds {f : UInt8 → Bool} (hf : f 0 = false) (h : 0 ∈ p) :
    Returns (skipWhile f p) fun q => 0 ∈ q ∧ q <:+ p ∧ ∀ b, q.head? = some b → f b = false := by
  obtain ⟨t, rest, rfl, -⟩ := exists_text h
  refine ⟨_, skipWhile_text hf t rest, by simp, ?_, fun b hb => ?_⟩
  · obtain ⟨s, hs⟩ := List.dropWhile_suffix (l := t) f
    exact ⟨s, by rw [← List.append_assoc, hs]⟩
  · rcases hdrop : t.dropWhile f with _ | ⟨c, u⟩
    · rw [hdrop] at hb
      cases hb
      exact hf
    · rw [hdrop] at hb
      cases hb
      have hhead := List.head_dropWhile_not f (l := t) (by simp [hdrop])
      simpa [hdrop] using hhead

theorem skipWhile_returns {f : UInt8 → Bool} (hf : f 0 = false) (h : 0 ∈ p) :
    Returns (skipWhile f p) fun q => 0 ∈ q :=
  (skipWhile_finds hf h).mono fun _ hq => hq.1

theorem gotoNextToken_returns (h : 0 ∈ p) : Returns (gotoNextToken p) fun q => 0 ∈ q := by
  obtain ⟨t, rest, rfl, ht⟩ := exists_text h
  exact ⟨_, gotoNextToken_text ht rest, by simp⟩

theorem textAt_returns (h : 0 ∈ p) : Returns (textAt p) fun t => t = cstr p :=
  ⟨cstr p, if_pos h, rfl⟩

theorem parseFileSize_returns (h : 0 ∈ p) : Returns (gftpParseFileSize p) fun _ => True :=
  (textAt_returns h).bind fun _ _ => .pure trivial

theorem deref_returns (h : 0 ∈ p) :
    Returns (deref p) fun b => p.head? = some b ∧ (b ≠ 0 → 0 ∈ p.drop 1) := by
  cases p with
  | nil => cases h
  | cons b p =>
    refine ⟨b, rfl, rfl, fun hb => ?_⟩
    exact (List.mem_cons.mp h).resolve_left (Ne.symm hb)

theorem findByte_returns {c : UInt8} (hc : c ≠ 0) (h : 0 ∈ p) :
    Returns (findByte c p) fun r => ∀ q, r = some q → 0 ∈ q ∧ 0 ∈ q.drop 1 := by
  obtain ⟨t, rest, rfl, ht⟩ := exists_text h
  by_cases hmem : c ∈ t
  · obtain ⟨u, v, rfl, hu⟩ := List.eq_append_cons_of_mem hmem
    rw [List.append_assoc, List.cons_append]
    refine ⟨_, findByte_first hu (fun h0 => ht (List.mem_append_left _ h0)) _, fun q hq => ?_⟩
    cases hq
    simp
  · rw [findByte_text hc ht, if_neg hmem]
    exact .pure (by simp)

theorem findText_returns (t : Bytes) (h : 0 ∈ p) : Returns (findText t p) fun _ => True := by
  induction p with
  | nil => cases h
  | cons b p ih =>
    unfold findText
    split_ifs with hprefix hnul
    · exact .pure trivial
    · exact .pure trivial
    · exact ih ((List.mem_cons.mp h).resolve_left (Ne.symm hnul))

theorem copyToken_answers (h : 0 ∈ p) : Answers (copyToken p) fun r => 0 ∈ r.2 := by
  unfold copyToken
  refine .read (skipWhile_returns (by decide) h) fun endpos hend => ?_
  refine .read (deref_returns hend) fun b hb => ?_
  split_ifs with hnul
  · exact .bind (.refuse GftpError.fatal) (P := fun _ : PUnit => False) fun _ h => h.elim
  · exact .read (skipWhile_returns (by decide) (hb.2 hnul)) fun q hq => .pure hq

theorem parseTime_returns {host : Host} (hhost : ReadsInside host) (h : 0 ∈ p) :
    Returns (parseTime host p) fun r => 0 ∈ r.2 := by
  obtain ⟨t, rest, rfl, ht⟩ := exists_text h
  exact ⟨_, parseTime_text hhost ht rest, by simp⟩

end Pointers

section Unix

/-- The columns of a text are counted in as many rounds as it has bytes. -/
theorem countColumns_returns {fuel : ℕ} {p : Bytes} (h : 0 ∈ p) (hfuel : p.length < fuel) :
    Returns (countColumns fuel p) fun _ => True := by
  induction fuel generalizing p with
  | zero => exact absurd hfuel (Nat.not_lt_zero _)
  | succ fuel ih =>
    unfold countColumns
    refine (deref_returns h).bind fun b hb => ?_
    split_ifs with hnul
    · exact .pure trivial
    · refine (skipWhile_finds (by decide) h).bind fun q hq => ?_
      obtain ⟨hnulq, hsufq, hstopq⟩ := hq
      refine (deref_returns hnulq).bind fun c hc => ?_
      split_ifs with hcolon
      · exact .pure trivial
      · refine (skipWhile_finds (by decide) hnulq).bind fun r hr => ?_
        obtain ⟨hnulr, hsufr, hstopr⟩ := hr
        refine (ih hnulr ?_).bind fun n _ => .pure trivial
        -- a byte that is no blank is in the column, and a blank is in the gap behind it
        have hle := (hsufr.trans hsufq).length_le
        rcases Nat.lt_or_ge r.length p.length with hlt | hge
        · omega
        · have hqp : q = p := hsufq.eq_of_length (le_antisymm hsufq.length_le
            (hge.trans hsufr.length_le))
          have hrq : r = q := hsufr.eq_of_length (le_antisymm hsufr.length_le
            (hqp ▸ hge))
          subst hqp hrq
          have hword := hstopq b hb.1
          have hgap := hstopr b hb.1
          have hbc : b = c := Option.some.inj (hb.1.symm.trans hc.1)
          subst hbc
          simp [hnul, hgap, hcolon] at hword

theorem unixSize_answers (stMode : ℕ) {p : Bytes} (h : 0 ∈ p) :
    Answers (unixSize stMode p) fun r => 0 ∈ r.2.drop 1 := by
  unfold unixSize
  dsimp only
  have hcomma : Answers (if stMode &&& sIfmt = sIfblk ∨ stMode &&& sIfmt = sIfchr then
      liftM (findByte 44 p) else pure none : Parse (Option Bytes))
      fun r => ∀ q, r = some q → 0 ∈ q ∧ 0 ∈ q.drop 1 := by
    split_ifs
    · exact .lift (findByte_returns (by decide) h)
    · exact .pure (by simp)
  refine hcomma.bind fun r hr => ?_
  cases r with
  | none =>
    refine .read (findByte_returns (by decide) h) fun s hs => ?_
    cases s with
    | none => exact .refuse _
    | some endpos =>
      exact .read (parseFileSize_returns h) fun size _ => .pure (hs endpos rfl).2
  | some endpos =>
    refine .read (parseFileSize_returns h) fun major _ => ?_
    refine .read (skipWhile_returns (by decide) (hr endpos rfl).2) fun q hq => ?_
    refine .read (findByte_returns (by decide) hq) fun s hs => ?_
    cases s with
    | none => exact .refuse _
    | some endpos =>
      exact .read (parseFileSize_returns hq) fun minor _ => .pure (hs endpos rfl).2

theorem unixName_returns (stMode : ℕ) {p : Bytes} (h : 0 ∈ p) :
    Returns (unixName stMode p) fun _ => True := by
  unfold unixName
  refine (textAt_returns h).bind fun name _ => ?_
  split_ifs
  · refine (findText_returns _ h).bind fun r _ => ?_
    cases r <;> exact .pure trivial
  · exact .pure trivial

theorem unixEntry_answers {host : Host} (hhost : ReadsInside host) (stMode : ℕ)
    (user group : Bytes) {p : Bytes} (h : 0 ∈ p) :
    Answers (unixEntry host stMode user group p) fun fle => fle.group = some group := by
  unfold unixEntry
  refine (unixSize_answers stMode h).bind fun r hr => ?_
  refine .read (skipWhile_returns (by decide) hr) fun q hq => ?_
  refine .read (parseTime_returns hhost hq) fun s hs => ?_
  refine .read (gotoNextToken_returns hs) fun name hname => ?_
  exact .read (unixName_returns stMode hname) fun _ _ => .pure rfl

theorem unixOwner_answers (host : Host) (cols : ℕ) {p : Bytes} (h : 0 ∈ p) :
    Answers (unixOwner host cols p) fun r =>
      0 ∈ r.2.2 ∧ (cols < 9 → r.2.1 = host.unknown) := by
  unfold unixOwner
  split_ifs with hcols
  · refine .read (gotoNextToken_returns h) fun q hq => ?_
    refine (copyToken_answers hq).bind fun user huser => ?_
    refine (copyToken_answers huser).bind fun group hgroup => ?_
    exact .pure ⟨hgroup, fun hlt => absurd hcols (Nat.not_le.mpr hlt)⟩
  · refine (copyToken_answers h).bind fun user huser => ?_
    exact .read (gotoNextToken_returns huser) fun q hq => .pure ⟨hq, fun _ => rfl⟩
  · exact .read (gotoNextToken_returns h) fun q hq => .pure ⟨hq, fun _ => rfl⟩

theorem crayColumns_returns (cray : Bool) (cols : ℕ) {str p : Bytes} (hstr : 0 ∈ str)
    (h : 0 ∈ p) : Returns (crayColumns cray cols str p) fun q => 0 ∈ q := by
  unfold crayColumns
  split_ifs
  · refine (findText_returns _ hstr).bind fun r _ => ?_
    cases r with
    | none => exact (gotoNextToken_returns h).bind fun q hq => gotoNextToken_returns hq
    | some _ => exact .pure h
  · exact .pure h

theorem cutAttribs_returns (t zeros : Bytes) :
    Returns (cutAttribs (t ++ 0 :: zeros) t.length) fun str => 0 ∈ str := by
  by_cases hlong : 10 < t.length
  · obtain ⟨b, more, hdrop⟩ := List.exists_cons_of_length_pos
      (show 0 < (t.drop 10).length by rw [List.length_drop]; omega)
    have hsplit : t ++ 0 :: zeros = t.take 10 ++ b :: (more ++ 0 :: zeros) := by
      rw [← List.cons_append, ← hdrop, ← List.append_assoc, List.take_append_drop]
    rw [hsplit, cutAttribs_eq (List.length_take_of_le hlong.le) b _ hlong]
    exact .pure (by simp)
  · rw [cutAttribs, if_neg hlong]
    exact .pure (by simp)

theorem unixColumns_answers {host : Host} (hhost : ReadsInside host) (cray : Bool) (cols : ℕ)
    {str attribs p : Bytes} (hattribs : 10 ≤ attribs.length) (hstr : 0 ∈ str) (h : 0 ∈ p) :
    Answers (unixColumns host cray cols str attribs p) fun fle =>
      cols < 9 → fle.group = some host.unknown := by
  have hmode : Returns (gftpConvertAttributesToModeT attribs) fun _ => True := by
    unfold gftpConvertAttributesToModeT
    rw [if_neg (Nat.not_lt.mpr hattribs)]
    exact .pure trivial
  unfold unixColumns
  refine .read hmode fun stMode _ => ?_
  refine (unixOwner_answers host cols h).bind fun owner howner => ?_
  refine .read (crayColumns_returns cray cols hstr howner.1) fun q hq => ?_
  refine (unixEntry_answers hhost stMode _ _ hq).mono fun fle hgroup hcols => ?_
  rw [hgroup, howner.2 hcols]

theorem parseLsUnix_answers {host : Host} (hhost : ReadsInside host) (cray : Bool)
    (t zeros : Bytes) :
    Answers (gftpParseLsUnix host cray (t ++ 0 :: zeros) t.length) fun _ => True := by
  rw [gftpParseLsUnix_eq]
  unfold unixParts
  refine .read (cutAttribs_returns t zeros) fun str hstr => ?_
  refine .read (countColumns_returns hstr (Nat.lt_succ_self _)) fun cols _ => ?_
  refine (copyToken_answers hstr).bind fun r hr => ?_
  obtain ⟨attribs, startpos⟩ := r
  dsimp only
  split_ifs with hshort
  · exact .refuse _
  · exact (unixColumns_answers hhost cray cols (Nat.not_lt.mp hshort) hstr hr).mono
      fun _ _ => trivial

end Unix

/-- The run comes to its end, with an entry or an error. -/
abbrev Ends {α : Type} (x : Parse α) : Prop := Answers x fun _ => True

theorem parseLsNt_ends {host : Host} (hhost : ReadsInside host) {p : Bytes} (h : 0 ∈ p) :
    Ends (gftpParseLsNt host p) := by
  unfold gftpParseLsNt
  refine .read (parseTime_returns hhost h) fun r hr => ?_
  refine .read (gotoNextToken_returns hr) fun q hq => ?_
  refine .read (deref_returns hq) fun b _ => ?_
  have hname (size : ℤ) (stMode : ℕ) : Ends (do
      let startpos ← gotoNextToken q
      return {
        file := some (← textAt startpos)
        user := some host.unknown
        group := some host.unknown
        size := size
        datetime := r.1
        stMode := stMode } : Parse GftpFile) :=
    .read (gotoNextToken_returns hq) fun s hs => .read (textAt_returns hs) fun _ _ => .pure trivial
  by_cases hdir : b = 60
  · simp only [if_pos hdir]
    exact hname 0 dirMode
  · simp only [if_neg hdir]
    exact .read (parseFileSize_returns hq) fun size _ => hname size fileMode

theorem not_ends_fault {α β : Type} (f : α → Parse β) :
    ¬ Ends ((liftM (Except.error .fault : CRun α) : Parse α) >>= f) := by
  rintro ⟨r, hr, -⟩
  cases hr

/-- The loop over the facts stays in a block that goes on behind its first byte. -/
theorem eplfFacts_returns (c : UInt8) {p : Bytes} (h : 0 ∈ p) :
    Returns (eplfFacts ((c :: p).length + 1) (c :: p) (false, 0, 0)) fun _ => True := by
  obtain ⟨t, rest, rfl, ht⟩ := exists_text h
  exact ⟨_, EplfListing.eplfFacts_eq ht c rest (by simp; omega) EplfListing.Facts.none, trivial⟩

theorem parseLsEplf_ends (host : Host) (c : UInt8) {p : Bytes} (h : 0 ∈ p) :
    Ends (gftpParseLsEplf host (c :: p)) := by
  unfold gftpParseLsEplf
  refine .read (eplfFacts_returns c h) fun facts _ => ?_
  refine .read (findByte_returns (by decide) (List.mem_cons_of_mem c h)) fun r hr => ?_
  cases r with
  | none => exact .refuse _
  | some startpos => exact .read (textAt_returns (hr startpos rfl).2) fun _ _ => .pure trivial

/-- Without a byte in front of the last NUL there is none to step over. -/
theorem parseLsEplf_ends_iff (host : Host) (t : Bytes) (k : ℕ) :
    Ends (gftpParseLsEplf host (t ++ List.replicate (k + 1) 0)) ↔ 0 < t.length + k := by
  cases t with
  | cons c t =>
    refine iff_of_true (parseLsEplf_ends host c (by simp)) ?_
    rw [List.length_cons]
    omega
  | nil =>
    rw [List.nil_append, List.replicate_succ, List.length_nil, Nat.zero_add]
    cases k with
    | zero =>
      refine iff_of_false ?_ (lt_irrefl 0)
      rintro ⟨r, hr, -⟩
      cases hr
    | succ k => exact iff_of_true (parseLsEplf_ends host 0 (by simp)) (Nat.succ_pos k)

/-- The thirteenth byte is read whatever the line is. -/
theorem parseLsNovell_ends_iff {host : Host} (hhost : ReadsInside host) (t : Bytes) (k : ℕ) :
    Ends (gftpParseLsNovell host (t ++ List.replicate (k + 1) 0)) ↔ 12 ≤ t.length + k := by
  have hblock : t ++ List.replicate (k + 1) (0 : UInt8) = t ++ List.replicate k 0 ++ [0] := by
    rw [List.replicate_succ', List.append_assoc]
  have hlen : (t ++ List.replicate k (0 : UInt8)).length = t.length + k := by
    rw [List.length_append, List.length_replicate]
  rw [hblock]
  unfold gftpParseLsNovell
  by_cases hshort : t.length + k < 12
  · rw [List.drop_eq_nil_of_le (by rw [List.length_append, hlen]; exact hshort)]
    exact iff_of_false (not_ends_fault _) (Nat.not_le.mpr hshort)
  · have hnul : 0 ∈ (t ++ List.replicate k (0 : UInt8) ++ [0]).drop 12 := by
      rw [List.drop_append_of_le_length (by omega)]
      simp
    refine iff_of_true ?_ (Nat.not_lt.mp hshort)
    refine .read (deref_returns hnul) fun b hb => ?_
    split_ifs with hblank
    · exact .bind (.refuse GftpError.fatal) (P := fun _ : PUnit => False) fun _ h => h.elim
    have hmode : Returns (gftpConvertAttributesToModeT
        ((t ++ List.replicate k (0 : UInt8) ++ [0]).take 12)) fun _ => True := by
      unfold gftpConvertAttributesToModeT
      rw [List.length_take_of_le (by rw [List.length_append]; omega), if_neg (by decide)]
      exact .pure trivial
    have hrest : 0 ∈ (t ++ List.replicate k (0 : UInt8) ++ [0]).drop 13 := by
      have hne : b ≠ 0 := by
        rw [not_not.mp hblank]
        decide
      simpa using hb.2 hne
    refine .read hmode fun stMode _ => ?_
    refine .read (skipWhile_returns (by decide) hrest) fun p hp => ?_
    refine (copyToken_answers hp).bind fun r hr => ?_
    refine .read (skipWhile_returns (by decide) hr) fun q hq => ?_
    refine .read (parseFileSize_returns hq) fun size _ => ?_
    refine .read (gotoNextToken_returns hq) fun s hs => ?_
    refine .read (parseTime_returns hhost hs) fun time htime => ?_
    refine .read (gotoNextToken_returns htime) fun name hname => ?_
    exact .read (textAt_returns hname) fun _ _ => .pure trivial

section Vms

/-- The text behind the first comma of the protection field, when the parser comes to it. -/
def protectionText (host : Host) (s : Bytes) : Option Bytes :=
  let owner := behindVmsTime host (nextToken s)
  let field := nextToken (behindByte 93 owner)
  if owner.head? = some 91 ∧ 93 ∈ owner ∧ 44 ∈ field then some (behindByte 44 field) else none

/-- A protection field that is looked for has all its commas. -/
def HasClasses (host : Host) (s : Bytes) : Prop :=
  ∀ classes, protectionText host s = some classes → 2 ≤ classes.count 44

theorem parseVmsAttribs_text {t : Bytes} (ht : 0 ∉ t) (rest : Bytes) (mask : ℕ) :
    ∃ mode, gftpParseVmsAttribs (some (t ++ 0 :: rest)) mask =
      .ok (mode, if 44 ∈ t then some (behindByte 44 t ++ 0 :: rest) else none) := by
  unfold gftpParseVmsAttribs
  simp only [textAt_text ht, CRun.ok_bind]
  by_cases hcomma : 44 ∈ t
  · rw [findByte_behind ht hcomma, CRun.ok_bind, if_pos hcomma]
    exact ⟨_, rfl⟩
  · rw [findByte_text (by decide) ht, if_neg hcomma, CRun.ok_bind, if_neg hcomma]
    exact ⟨_, rfl⟩

theorem classes_end_iff {t : Bytes} (ht : 0 ∉ t) (rest : Bytes) (f : ℕ → ℕ → ℕ → GftpFile) :
    Ends (do
      let (user, src) ← gftpParseVmsAttribs (some (t ++ 0 :: rest)) 0o700
      let (group, src) ← gftpParseVmsAttribs src 0o070
      let (other, _) ← gftpParseVmsAttribs src 0o007
      return f user group other : Parse GftpFile) ↔ 2 ≤ t.count 44 := by
  obtain ⟨user, huser⟩ := parseVmsAttribs_text ht rest 0o700
  rw [huser]
  by_cases hone : 44 ∈ t
  · have hbehind := nul_not_mem_suffix (behindByte_suffix 44 t) ht
    obtain ⟨group, hgroup⟩ := parseVmsAttribs_text hbehind rest 0o070
    rw [if_pos hone, count_behindByte hone, Parse.read_bind]
    dsimp only
    rw [hgroup]
    by_cases htwo : 44 ∈ behindByte 44 t
    · obtain ⟨other, hother⟩ := parseVmsAttribs_text
        (nul_not_mem_suffix (behindByte_suffix 44 _) hbehind) rest 0o007
      rw [if_pos htwo, count_behindByte htwo, Parse.read_bind]
      dsimp only
      rw [hother]
      exact iff_of_true (.pure trivial) (by omega)
    · rw [if_neg htwo, List.count_eq_zero_of_not_mem htwo]
      refine iff_of_false ?_ (by omega)
      rintro ⟨r, hr, -⟩
      cases hr
  · rw [if_neg hone, List.count_eq_zero_of_not_mem hone]
    refine iff_of_false ?_ (by omega)
    rintro ⟨r, hr, -⟩
    cases hr

theorem vmsFields_ends_iff {host : Host} (hhost : ReadsInside host) (fle : GftpFile) {s : Bytes}
    (hs : 0 ∉ s) (rest : Bytes) :
    Ends (vmsFields host fle (s ++ 0 :: rest)) ↔ HasClasses host s := by
  have hsize : gftpParseFileSize (s ++ 0 :: rest) = .ok (strtol s) := by
    rw [gftpParseFileSize, textAt_text hs]
    rfl
  have hnext := nul_not_mem_suffix (nextToken_suffix s) hs
  obtain ⟨t, htime⟩ := parseVmsTime_text hhost hnext rest
  have howner := nul_not_mem_suffix (behindVmsTime_suffix host _) hnext
  unfold vmsFields HasClasses protectionText
  simp only [hsize, gotoNextToken_text hs, htime, Parse.read_bind, deref_text]
  generalize behindVmsTime host (nextToken s) = owner at howner
  have hhead : owner.head? = some 91 ↔ owner.headD 0 = 91 := by
    cases owner <;> simp
  by_cases hopen : owner.headD 0 = 91
  · rw [if_neg (not_not.mpr hopen)]
    by_cases hclose : 93 ∈ owner
    · have hbehind := nul_not_mem_suffix (behindByte_suffix 93 owner) howner
      have hfield := nul_not_mem_suffix (nextToken_suffix _) hbehind
      simp only [findByte_behind howner hclose, Parse.read_bind, List.drop_one, List.tail_cons,
        gotoNextToken_text hbehind]
      by_cases hcomma : 44 ∈ nextToken (behindByte 93 owner)
      · have hclasses := nul_not_mem_suffix (behindByte_suffix 44 _) hfield
        simp only [findByte_behind hfield hcomma, Parse.read_bind, List.tail_cons,
          if_pos (show owner.head? = some 91 ∧ 93 ∈ owner ∧
            44 ∈ nextToken (behindByte 93 owner) from ⟨hhead.mpr hopen, hclose, hcomma⟩),
          Option.some.injEq, forall_eq']
        exact classes_end_iff hclasses rest fun user group other =>
          { fle with
            user := some []
            group := some []
            size := offT (strtol s * 512)
            datetime := t
            stMode := user ||| group ||| other }
      · rw [if_neg fun h => hcomma h.2.2, findByte_text (by decide) hfield, if_neg hcomma]
        exact iff_of_true (.pure trivial) (by simp)
    · rw [if_neg fun h => hclose h.2.1, findByte_text (by decide) howner, if_neg hclose]
      exact iff_of_true (.refuse _) (by simp)
  · rw [if_pos hopen, if_neg fun h => hopen (hhead.mp h.1)]
    exact iff_of_true (.bind (.refuse GftpError.fatal) (P := fun _ : PUnit => False)
      fun _ h => h.elim) (by simp)

variable {γ : Type} {host : Host} {nextLine : Option (NextLine γ)} {reader : γ}

/-- The call comes to its end. -/
abbrev Comes {α : Type} (x : CRun α) : Prop := Returns x fun _ => True

theorem oneLine_comes_iff (x : Parse GftpFile) : Comes (oneLine reader x) ↔ Ends x := by
  constructor
  · rintro ⟨out, hout, -⟩
    obtain ⟨r, hr, -⟩ := CRun.bind_eq_ok.mp hout
    exact ⟨r, hr, fun _ _ => trivial⟩
  · rintro ⟨r, hr, -⟩
    refine ⟨(r, reader), ?_, trivial⟩
    rw [oneLine, hr]
    rfl

/-- The protection fields of an entry, on its first or its second line. -/
def EntryHasClasses (host : Host) (nextLine : Option (NextLine γ)) (reader : γ) (t : Bytes) :
    Prop :=
  if 32 ∈ t then HasClasses host (nextToken (behindByte 59 t))
  else ∀ next n line reader', nextLine = some next →
    next reader = .ok ((.ok (n + 1), line), reader') →
    HasClasses host ((cstr line).dropWhile isBlank)

theorem cstr_terminated (line : Bytes) : ∃ rest, line ++ [0] = cstr line ++ 0 :: rest := by
  by_cases h : 0 ∈ line
  · obtain ⟨t, rest, rfl, ht⟩ := exists_text h
    exact ⟨rest ++ [0], by rw [cstr_append_nul ht, List.append_assoc, List.cons_append]⟩
  · exact ⟨[], by rw [cstr_eq_self h]⟩

theorem secondLine_comes_iff (hhost : ReadsInside host)
    (hnext : ∀ next, nextLine = some next → Comes (next reader)) (fle : GftpFile) :
    Comes (vmsSecondLine host fle nextLine reader) ↔
      ∀ next n line reader', nextLine = some next →
        next reader = .ok ((.ok (n + 1), line), reader') →
        HasClasses host ((cstr line).dropWhile isBlank) := by
  unfold vmsSecondLine
  cases nextLine with
  | none => exact iff_of_true (.pure trivial) (by simp)
  | some next =>
    obtain ⟨⟨⟨len, line⟩, reader'⟩, hline, -⟩ := hnext next rfl
    simp only [hline, CRun.ok_bind]
    rcases len with e | _ | n
    · refine iff_of_true (.pure trivial) fun next' n line' reader'' hsame hread => ?_
      cases Option.some.inj hsame
      cases hline.symm.trans hread
    · refine iff_of_true (.pure trivial) fun next' n line' reader'' hsame hread => ?_
      cases Option.some.inj hsame
      cases hline.symm.trans hread
    · obtain ⟨rest, hrest⟩ := cstr_terminated line
      have hnul := nul_not_mem_suffix (List.dropWhile_suffix isBlank) (nul_not_mem_cstr line)
      rw [oneLine_comes_iff, hrest, skipWhile_text (by decide), Parse.read_bind,
        vmsFields_ends_iff hhost fle hnul]
      constructor
      · intro h next' n line' reader'' hsame hread
        cases Option.some.inj hsame
        cases hline.symm.trans hread
        exact h
      · exact fun h => h next n line reader' rfl hline

theorem parseLsVms_comes_iff (hhost : ReadsInside host)
    (hnext : ∀ next, nextLine = some next → Comes (next reader)) {t : Bytes} (ht : 0 ∉ t)
    (rest : Bytes) :
    Comes (gftpParseLsVms host nextLine reader (t ++ 0 :: rest)) ↔
      (59 ∈ t → EntryHasClasses host nextLine reader t) := by
  rw [parseLsVms_text host nextLine reader ht]
  unfold EntryHasClasses
  by_cases hname : 59 ∈ t
  · rw [if_pos hname, forall_prop_of_true hname]
    split_ifs with hblank
    · have hbehind := nul_not_mem_suffix (behindByte_suffix 59 t) ht
      rw [oneLine_comes_iff, gotoNextToken_text hbehind, Parse.read_bind,
        vmsFields_ends_iff hhost _ (nul_not_mem_suffix (nextToken_suffix _) hbehind)]
    · exact secondLine_comes_iff hhost hnext _
  · rw [if_neg hname, oneLine_comes_iff]
    exact iff_of_true (.refuse _) fun h => absurd h hname

end Vms

section Mvs

/-- What the line goes on with wherever the parser steps over a byte unseen. -/
def mvsStops (host : Host) (t : Bytes) : List Bytes :=
  let unit := nextToken (t.drop 1)
  let date := nextToken (unit.drop 1)
  let ext := nextToken (timeText host date).2
  let used := nextToken (ext.drop 1)
  let recfm := nextToken (used.drop 1)
  let lrecl := nextToken (recfm.drop 1)
  let blksz := nextToken (lrecl.drop 1)
  [t, unit, ext, used, recfm, lrecl, blksz]

/-- A step over a byte needs a NUL of its own when the text is at its end. -/
theorem step_ends_iff {t : Bytes} (ht : 0 ∉ t) {k : ℕ} (hk : 0 < k) {stops : List Bytes}
    {f : Bytes → Parse GftpFile}
    (hf : ∀ k', 0 < k' → (Ends (f (nextToken (t.drop 1) ++ List.replicate k' 0)) ↔
      stops.count [] < k')) :
    Ends ((liftM (gotoNextToken ((t ++ List.replicate k 0).drop 1)) : Parse Bytes) >>= f) ↔
      (t :: stops).count [] < k := by
  obtain ⟨k, rfl⟩ := Nat.exists_eq_add_one.mpr hk
  cases t with
  | nil =>
    rw [List.count_cons_self, List.nil_append, List.replicate_succ, List.drop_one, List.tail_cons]
    cases k with
    | zero =>
      exact iff_of_false (not_ends_fault _) (by omega)
    | succ k =>
      have hmove := gotoNextToken_text (t := []) (by simp) (List.replicate k 0)
      rw [List.nil_append] at hmove
      rw [List.replicate_succ, hmove, Parse.read_bind, ← List.replicate_succ]
      exact (hf (k + 1) (Nat.succ_pos k)).trans (Nat.succ_lt_succ_iff.symm)
  | cons b t =>
    rw [List.mem_cons, not_or] at ht
    rw [List.count_cons_of_ne (by simp), List.cons_append, List.drop_one, List.tail_cons,
      List.replicate_succ, gotoNextToken_text ht.2, Parse.read_bind, ← List.replicate_succ]
    exact hf (k + 1) hk

theorem dsorg_ends (host : Host) (size datetime : ℤ) {t : Bytes} (ht : 0 ∉ t) {k : ℕ}
    (hk : 0 < k) :
    Ends (do
      let dsorg ← textAt (t ++ List.replicate k 0)
      let stMode ←
        if (ascii "PS").isPrefixOf dsorg then pure fileMode
        else if (ascii "PO").isPrefixOf dsorg then pure dirMode
        else throw .fatal
      let curpos ← gotoNextToken ((t ++ List.replicate k 0).drop 1)
      return {
        file := some (← textAt curpos)
        user := some host.unknown
        group := some host.unknown
        size := size
        datetime := datetime
        stMode := stMode } : Parse GftpFile) := by
  obtain ⟨k, rfl⟩ := Nat.exists_eq_add_one.mpr hk
  rw [List.replicate_succ, textAt_text ht, Parse.read_bind]
  have hname (stMode : ℕ) (hne : t ≠ []) : Ends (do
      let curpos ← gotoNextToken ((t ++ 0 :: List.replicate k 0).drop 1)
      return {
        file := some (← textAt curpos)
        user := some host.unknown
        group := some host.unknown
        size := size
        datetime := datetime
        stMode := stMode } : Parse GftpFile) := by
    cases t with
    | nil => exact absurd rfl hne
    | cons b t =>
      exact .read (gotoNextToken_returns (by simp)) fun q hq => .read (textAt_returns hq)
        fun _ _ => .pure trivial
  by_cases hps : (ascii "PS").isPrefixOf t
  · simp only [if_pos hps]
    refine hname fileMode ?_
    rintro rfl
    exact absurd hps (by decide)
  · by_cases hpo : (ascii "PO").isPrefixOf t
    · simp only [if_neg hps, if_pos hpo]
      refine hname dirMode ?_
      rintro rfl
      exact absurd hpo (by decide)
    · simp only [if_neg hps, if_neg hpo]
      exact .bind (.refuse GftpError.fatal) (P := fun _ : ℕ => False) fun _ h => h.elim

theorem parseLsMvs_ends_iff {host : Host} (hhost : ReadsInside host) {t : Bytes} (ht : 0 ∉ t)
    {k : ℕ} (hk : 0 < k) :
    Ends (gftpParseLsMvs host (t ++ List.replicate k 0)) ↔ (mvsStops host t).count [] < k := by
  have hafter {s : Bytes} (hs : 0 ∉ s) : 0 ∉ nextToken (s.drop 1) :=
    nul_not_mem_suffix ((nextToken_suffix _).trans (List.drop_suffix 1 s)) hs
  have hext {s : Bytes} (hs : 0 ∉ s) : 0 ∉ nextToken (timeText host s).2 :=
    nul_not_mem_suffix ((nextToken_suffix _).trans (timeText_suffix host s)) hs
  unfold gftpParseLsMvs mvsStops
  dsimp only
  refine step_ends_iff ht hk fun k hk => ?_
  have hunit := hafter ht
  refine step_ends_iff hunit hk fun k hk => ?_
  have hdate := hafter hunit
  generalize nextToken ((nextToken (t.drop 1)).drop 1) = date at hdate
  have htime : parseTime host (date ++ List.replicate k 0) =
      .ok ((timeText host date).1, (timeText host date).2 ++ List.replicate k 0) := by
    obtain ⟨k, rfl⟩ := Nat.exists_eq_add_one.mpr hk
    exact parseTime_text hhost hdate (List.replicate k 0)
  have htoken : gotoNextToken ((timeText host date).2 ++ List.replicate k 0) =
      .ok (nextToken (timeText host date).2 ++ List.replicate k 0) := by
    obtain ⟨k, rfl⟩ := Nat.exists_eq_add_one.mpr hk
    exact gotoNextToken_text (nul_not_mem_suffix (timeText_suffix host date) hdate)
      (List.replicate k 0)
  simp only [htime, htoken, Parse.read_bind]
  refine step_ends_iff (hext hdate) hk fun k hk => ?_
  have hused := hafter (hext hdate)
  generalize nextToken ((nextToken (timeText host date).2).drop 1) = used at hused
  have hsize : gftpParseFileSize (used ++ List.replicate k 0) = .ok (strtol used) := by
    obtain ⟨k, rfl⟩ := Nat.exists_eq_add_one.mpr hk
    rw [List.replicate_succ, gftpParseFileSize, textAt_text hused]
    rfl
  rw [hsize, Parse.read_bind]
  have hrecfm := hafter hused
  have hlrecl := hafter hrecfm
  have hblksz := hafter hlrecl
  refine step_ends_iff hused hk fun k hk => ?_
  refine step_ends_iff hrecfm hk fun k hk => ?_
  refine step_ends_iff hlrecl hk fun k hk => ?_
  refine step_ends_iff hblksz hk fun k hk => ?_
  exact iff_of_true (dsorg_ends host _ _ (hafter hblksz) hk) hk

end Mvs

section Lines

/-- A line without its line end. -/
def lineText (lsoutput : Bytes) : Bytes := lsoutput.take (stripLineEnd lsoutput).1

/-- The NULs behind it in the copy. -/
def lineNuls (lsoutput : Bytes) : ℕ := lsoutput.length + 1 - (stripLineEnd lsoutput).1

theorem stripLineEnd_le (lsoutput : Bytes) : (stripLineEnd lsoutput).1 ≤ lsoutput.length := by
  unfold stripLineEnd
  dsimp only
  split_ifs <;> omega

theorem stripLineEnd_eq (lsoutput : Bytes) :
    stripLineEnd lsoutput = ((lineText lsoutput).length,
      lineText lsoutput ++ List.replicate (lineNuls lsoutput) 0) := by
  have hlen : (lineText lsoutput).length = (stripLineEnd lsoutput).1 :=
    List.length_take_of_le (stripLineEnd_le lsoutput)
  rw [hlen]
  rfl

theorem lineNuls_eq (lsoutput : Bytes) :
    ∃ k, lineNuls lsoutput = k + 1 ∧ (lineText lsoutput).length + k = lsoutput.length := by
  have hle := stripLineEnd_le lsoutput
  have hlen : (lineText lsoutput).length = (stripLineEnd lsoutput).1 := List.length_take_of_le hle
  refine ⟨lsoutput.length - (stripLineEnd lsoutput).1, ?_, ?_⟩
  · unfold lineNuls
    omega
  · omega

theorem deref_drop (t : Bytes) {k i : ℕ} (h : i < t.length + k) :
    deref ((t ++ List.replicate k 0).drop i) = .ok (t.getD i 0) := by
  rw [List.drop_eq_getElem_cons (by rw [List.length_append, List.length_replicate]; exact h),
    deref, List.getD_eq_getElem?_getD]
  congr 1
  rcases Nat.lt_or_ge i t.length with hlt | hge
  · rw [List.getElem_append_left hlt, List.getElem?_eq_getElem hlt, Option.getD_some]
  · rw [List.getElem_append_right hge, List.getElem_replicate, List.getElem?_eq_none hge,
      Option.getD_none]

theorem deref_outside (t : Bytes) {k i : ℕ} (h : t.length + k ≤ i) :
    deref ((t ++ List.replicate k 0).drop i) = .error .fault := by
  rw [List.drop_eq_nil_of_le (by rw [List.length_append, List.length_replicate]; exact h)]
  rfl

/-- What the line looks like when its format is not known. -/
def ntLine (t : Bytes) : Prop := isDigit (t.getD 0 0) = true ∧ t.getD 2 0 = 45

def novellLine (t : Bytes) : Prop := t.getD 1 0 = 32 ∧ t.getD 2 0 = 91

def vmsLine (t : Bytes) : Prop := 32 ∈ t ∧ 59 ∈ t.takeWhile (· ≠ 32)

instance : DecidablePred ntLine := fun _ => inferInstanceAs (Decidable (_ ∧ _))

instance : DecidablePred novellLine := fun _ => inferInstanceAs (Decidable (_ ∧ _))

/-- The lines whose format can be looked for, and whose format is read inside the copy. -/
def AutoInside (host : Host) (lsoutput : Bytes) : Prop :=
  let t := lineText lsoutput
  lsoutput.head? = some 43 ∨
    lsoutput ≠ [] ∧ (isDigit (t.getD 0 0) = true → 2 ≤ lsoutput.length) ∧
      (ntLine t ∨ if novellLine t then 12 ≤ lsoutput.length
        else vmsLine t → HasClasses host (nextToken (behindByte 59 t)))

/-- The lines that are read inside their copy, by the format of the server. -/
def InsideCopy {γ : Type} (host : Host) (serverType : Int32) (nextLine : Option (NextLine γ))
    (reader : γ) (lsoutput : Bytes) : Prop :=
  if serverType = gftpDirtypeCray ∨ serverType = gftpDirtypeUnix then True
  else if serverType = gftpDirtypeEplf then lsoutput ≠ []
  else if serverType = gftpDirtypeNovell then 12 ≤ lsoutput.length
  else if serverType = gftpDirtypeDos then True
  else if serverType = gftpDirtypeVms then
    59 ∈ lineText lsoutput → EntryHasClasses host nextLine reader (lineText lsoutput)
  else if serverType = gftpDirtypeMvs then
    (mvsStops host (lineText lsoutput)).count [] < lineNuls lsoutput
  else AutoInside host lsoutput

section Detected

variable {γ : Type} {host : Host} {nextLine : Option (NextLine γ)} {reader : γ}

theorem looksNt_text {t : Bytes} {k : ℕ}
    (hlen : isDigit (t.getD 0 0) = true → 2 ≤ t.length + k) :
    looksNt (t ++ List.replicate (k + 1) 0) = .ok (decide (ntLine t)) := by
  have hfirst := @deref_drop t (k + 1) 0 (by omega)
  rw [List.drop_zero] at hfirst
  unfold looksNt
  rw [hfirst, CRun.ok_bind]
  by_cases hdigit : isDigit (t.getD 0 0) = true
  · have h := hlen hdigit
    have hnt : t.getD 2 0 = 45 ↔ ntLine t := ⟨fun h => ⟨hdigit, h⟩, And.right⟩
    rw [if_pos hdigit, deref_drop t (by omega), ← decide_eq_decide.mpr hnt]
    rfl
  · have hnt : ¬ ntLine t := fun h => hdigit h.1
    rw [if_neg hdigit, decide_eq_false hnt]
    rfl

theorem looksNt_fault {t : Bytes} {k : ℕ} (hdigit : isDigit (t.getD 0 0) = true)
    (hlen : t.length + k < 2) :
    looksNt (t ++ List.replicate (k + 1) 0) = .error .fault := by
  have hfirst := @deref_drop t (k + 1) 0 (by omega)
  rw [List.drop_zero] at hfirst
  unfold looksNt
  rw [hfirst, CRun.ok_bind, if_pos hdigit, deref_outside t (by omega)]
  rfl

theorem looksNovell_text {t : Bytes} {k : ℕ} (hlen : 0 < t.length + k) :
    looksNovell (t ++ List.replicate (k + 1) 0) = .ok (decide (novellLine t)) := by
  unfold looksNovell
  rw [deref_drop t (by omega), CRun.ok_bind]
  by_cases hblank : t.getD 1 0 = 32
  · have htwo : 1 < t.length := by
      by_contra h
      rw [List.getD_eq_getElem?_getD, List.getElem?_eq_none (Nat.not_lt.mp h)] at hblank
      exact absurd hblank (by decide)
    have hnovell : t.getD 2 0 = 91 ↔ novellLine t := ⟨fun h => ⟨hblank, h⟩, And.right⟩
    rw [if_pos hblank, deref_drop t (by omega), ← decide_eq_decide.mpr hnovell]
    rfl
  · have hnovell : ¬ novellLine t := fun h => hblank h.1
    rw [if_neg hblank, decide_eq_false hnovell]
    rfl

theorem looksVms_text {t : Bytes} (ht : 0 ∉ t) (rest : Bytes) :
    looksVms (t ++ 0 :: rest) =
      .ok (if 32 ∈ t then decide (59 ∈ t.takeWhile (· ≠ 32)) else false) := by
  unfold looksVms
  by_cases hblank : 32 ∈ t
  · rw [findByte_behind ht hblank, CRun.ok_bind, if_pos hblank, textAt_text ht]
    rfl
  · rw [findByte_text (by decide) ht, if_neg hblank, if_neg hblank]
    rfl

/-- A line in none of the formats that begin with a digit, a plus or a flag field. -/
theorem undetected_comes_iff (hhost : ReadsInside host)
    (hnext : ∀ next, nextLine = some next → Comes (next reader)) {t : Bytes} (ht : 0 ∉ t)
    (rest : Bytes) :
    Comes (do
      if ← looksVms (t ++ 0 :: rest) then gftpParseLsVms host nextLine reader (t ++ 0 :: rest)
      else oneLine reader (gftpParseLsUnix host false (t ++ 0 :: rest) t.length)) ↔
      (vmsLine t → HasClasses host (nextToken (behindByte 59 t))) := by
  rw [looksVms_text ht, CRun.ok_bind]
  by_cases hvms : vmsLine t
  · have hname : 59 ∈ t := (List.takeWhile_sublist _).subset hvms.2
    rw [if_pos hvms.1, forall_prop_of_true hvms]
    simp only [hvms.2, decide_true, if_true]
    rw [parseLsVms_comes_iff hhost hnext ht, EntryHasClasses, if_pos hvms.1,
      forall_prop_of_true hname]
  · have hlooks : (if 32 ∈ t then decide (59 ∈ t.takeWhile (· ≠ 32)) else false) = false := by
      split_ifs with hblank
      · exact decide_eq_false fun h => hvms ⟨hblank, h⟩
      · rfl
    simp only [hlooks, Bool.false_eq_true, if_false]
    rw [oneLine_comes_iff]
    exact iff_of_true (parseLsUnix_answers hhost false t rest) fun h => absurd h hvms

theorem autodetect_comes_iff (hhost : ReadsInside host)
    (hnext : ∀ next, nextLine = some next → Comes (next reader)) {lsoutput t : Bytes}
    (ht : 0 ∉ t) {k : ℕ} (hlen : t.length + k = lsoutput.length) :
    Comes (autodetect host nextLine reader lsoutput (t ++ List.replicate (k + 1) 0) t.length) ↔
      lsoutput.head? = some 43 ∨
        lsoutput ≠ [] ∧ (isDigit (t.getD 0 0) = true → 2 ≤ lsoutput.length) ∧
          (ntLine t ∨ if novellLine t then 12 ≤ lsoutput.length
            else vmsLine t → HasClasses host (nextToken (behindByte 59 t))) := by
  unfold autodetect
  by_cases hplus : lsoutput.head? = some 43
  · have hne : 0 < lsoutput.length := by
      cases lsoutput with
      | nil => cases hplus
      | cons b rest => exact Nat.succ_pos _
    rw [if_pos hplus, oneLine_comes_iff, parseLsEplf_ends_iff, hlen]
    exact iff_of_true hne (Or.inl hplus)
  rw [if_neg hplus, or_iff_right hplus]
  by_cases hempty : lsoutput = []
  · subst hempty
    obtain ⟨rfl, rfl⟩ : t = [] ∧ k = 0 := by
      rw [List.length_nil] at hlen
      exact ⟨List.length_eq_zero_iff.mp (by omega), by omega⟩
    refine iff_of_false ?_ (by simp)
    rintro ⟨out, hout, -⟩
    cases hout
  have hpos : 0 < t.length + k := hlen ▸ List.length_pos_of_ne_nil hempty
  by_cases hshort : isDigit (t.getD 0 0) = true → 2 ≤ t.length + k
  · rw [looksNt_text hshort, CRun.ok_bind]
    by_cases hnt : ntLine t
    · simp only [hnt, decide_true, if_true]
      rw [oneLine_comes_iff]
      exact iff_of_true (parseLsNt_ends hhost (by simp)) ⟨hempty, hlen ▸ hshort, Or.inl trivial⟩
    simp only [hnt, decide_false, Bool.false_eq_true, if_false]
    rw [looksNovell_text hpos, CRun.ok_bind, false_or]
    by_cases hnovell : novellLine t
    · simp only [hnovell, decide_true, if_true]
      rw [oneLine_comes_iff, parseLsNovell_ends_iff hhost, hlen]
      exact ⟨fun h => ⟨hempty, hlen ▸ hshort, h⟩, fun h => h.2.2⟩
    · simp only [hnovell, decide_false, Bool.false_eq_true, if_false]
      rw [List.replicate_succ, undetected_comes_iff hhost hnext ht]
      exact ⟨fun h => ⟨hempty, hlen ▸ hshort, h⟩, fun h => h.2.2⟩
  · obtain ⟨hdigit, htwo⟩ := Classical.not_imp.mp hshort
    rw [looksNt_fault hdigit (by omega)]
    refine iff_of_false ?_ fun h => htwo (hlen ▸ h.2.1 hdigit)
    rintro ⟨out, hout, -⟩
    cases hout

end Detected

theorem listing_inside_iff {γ : Type} {host : Host} (hhost : ReadsInside host)
    (serverType : Int32) {nextLine : Option (NextLine γ)} {reader : γ}
    (hnext : ∀ next, nextLine = some next → Comes (next reader)) {lsoutput : Bytes}
    (hline : 0 ∉ lsoutput) :
    Comes (gftpParseLs host serverType nextLine reader lsoutput) ↔
      InsideCopy host serverType nextLine reader lsoutput := by
  obtain ⟨k, hk, hlen⟩ := lineNuls_eq lsoutput
  have ht : 0 ∉ lineText lsoutput := fun h => hline (List.mem_of_mem_take h)
  unfold gftpParseLs InsideCopy
  rw [stripLineEnd_eq, hk]
  dsimp only
  by_cases hunix : serverType = gftpDirtypeCray ∨ serverType = gftpDirtypeUnix
  · rw [if_pos hunix, oneLine_comes_iff, if_pos hunix, List.replicate_succ]
    exact iff_of_true (parseLsUnix_answers hhost _ _ _) trivial
  rw [if_neg hunix, if_neg hunix]
  by_cases heplf : serverType = gftpDirtypeEplf
  · rw [if_pos heplf, oneLine_comes_iff, if_pos heplf, parseLsEplf_ends_iff, hlen]
    exact List.length_pos_iff
  rw [if_neg heplf, if_neg heplf]
  by_cases hnovell : serverType = gftpDirtypeNovell
  · rw [if_pos hnovell, oneLine_comes_iff, if_pos hnovell, parseLsNovell_ends_iff hhost, hlen]
  rw [if_neg hnovell, if_neg hnovell]
  by_cases hdos : serverType = gftpDirtypeDos
  · rw [if_pos hdos, oneLine_comes_iff, if_pos hdos]
    exact iff_of_true (parseLsNt_ends hhost (by simp)) trivial
  rw [if_neg hdos, if_neg hdos]
  by_cases hvms : serverType = gftpDirtypeVms
  · rw [if_pos hvms, if_pos hvms, List.replicate_succ]
    exact parseLsVms_comes_iff hhost hnext ht _
  rw [if_neg hvms, if_neg hvms]
  by_cases hmvs : serverType = gftpDirtypeMvs
  · rw [if_pos hmvs, oneLine_comes_iff, if_pos hmvs]
    exact parseLsMvs_ends_iff hhost ht (Nat.succ_pos k)
  rw [if_neg hmvs, if_neg hmvs]
  exact autodetect_comes_iff hhost hnext ht hlen

/-- A VMS entry with its four protection classes. -/
theorem whole_protection_inside :
    Comes (gftpParseLs VmsListing.august gftpDirtypeVms (none : Option (NextLine Unit)) ()
      (ascii "A.TXT;1 9 21-AUG-2002 20:06 [MYERSRG] (RWED,RWED,RE,)")) := by
  refine (listing_inside_iff VmsListing.august_knows.inside gftpDirtypeVms (by simp)
    (by decide)).mpr ?_
  have htext : lineText (ascii "A.TXT;1 9 21-AUG-2002 20:06 [MYERSRG] (RWED,RWED,RE,)") =
      ascii "A.TXT;1 9 21-AUG-2002 20:06 [MYERSRG] (RWED,RWED,RE,)" := by
    rfl
  have hclasses : protectionText VmsListing.august (nextToken (behindByte 59
      (ascii "A.TXT;1 9 21-AUG-2002 20:06 [MYERSRG] (RWED,RWED,RE,)"))) =
      some (ascii "RWED,RE,)") := by
    rfl
  have hentry : EntryHasClasses VmsListing.august (none : Option (NextLine Unit)) ()
      (ascii "A.TXT;1 9 21-AUG-2002 20:06 [MYERSRG] (RWED,RWED,RE,)") := by
    rw [EntryHasClasses, if_pos (by decide), HasClasses, hclasses]
    rintro classes h
    cases h
    decide
  unfold InsideCopy
  rw [htext, if_neg (by decide), if_neg (by decide), if_neg (by decide), if_neg (by decide),
    if_pos rfl]
  exact fun _ => hentry

/-- Without the classes of the group and the world the parser goes on from no address. -/
theorem short_protection_faults :
    ¬ Comes (gftpParseLs VmsListing.august gftpDirtypeVms (none : Option (NextLine Unit)) ()
      (ascii "A.TXT;1 9 21-AUG-2002 20:06 [MYERSRG] (RWED,RWED)")) := by
  have hrun : gftpParseLs VmsListing.august gftpDirtypeVms (none : Option (NextLine Unit)) ()
      (ascii "A.TXT;1 9 21-AUG-2002 20:06 [MYERSRG] (RWED,RWED)") = .error .fault := by
    rfl
  rintro ⟨out, hout, -⟩
  rw [hrun] at hout
  cases hout

end Lines

end Gftp.ListingSafety
