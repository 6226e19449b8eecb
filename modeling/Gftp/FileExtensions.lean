import Gftp.ConfigArguments

/-!
Fields that are written with a backslash in front of each colon and joined with colons, and the
lines ext of the configuration. The parser takes the backslashes out of the fields in which it has
passed over a colon, all of them, and it leaves the last field as it is. gftp_config_write_ext
writes no backslashes.
-/

namespace Gftp.FileExtensions

open ByteStrings ConfigArguments OptionValues TextIndices

/-- A field with a backslash in front of each colon. -/
def escape (field : Bytes) : Bytes := field.flatMap fun b => if b = 58 then [92, 58] else [b]

/-- The fields as they are written. -/
def joined : List Bytes → Bytes
  | [] => []
  | [field] => escape field
  | field :: fields => escape field ++ 58 :: joined fields

/-- The fields come back. before is the byte in front of the string, if there is one. -/
def Returned (before : Option UInt8) (fields : List Bytes) : Prop :=
  ∃ parsed, ConfigArguments.gftpConfigParseArgs before (joined fields ++ [0]) fields.length = .ok parsed ∧
    parsed.outputs = fields

/-- No field but the last ends in a backslash, one with a colon has no backslash, and the last has
no colon. -/
def Restored : List Bytes → Prop
  | [] => True
  | [field] => 58 ∉ field
  | field :: fields => field.getLast? ≠ some 92 ∧ (58 ∈ field → 92 ∉ field) ∧ Restored fields

/-- An empty first field makes the parser look at the byte in front. -/
def FieldsFit (before : Option UInt8) (fields : List Bytes) : Prop :=
  Restored fields ∧ (1 < fields.length → fields.head? = some [] → before.isSome = true)

/-- gftp_file_extensions. -/
structure FileExtension where
  ext : CString
  filename : CString
  asciiBinary : CString
  viewProgram : CString
  stlen : ℕ

/-- The letter that is written, a blank for none. -/
def FileExtension.letter (tempext : FileExtension) : UInt8 := tempext.asciiBinary.bytes.head?.getD 32

/-- gftp_config_write_ext. -/
def gftpConfigWriteExt (tempext : FileExtension) : Bytes :=
  tempext.ext.bytes ++ 58 :: (tempext.filename.bytes ++ 58 :: (tempext.letter :: 58 ::
    tempext.viewProgram.bytes))

def stringOf (text : Bytes) : CString := ⟨cstr text, nul_not_mem_cstr text⟩

/-- gftp_config_read_ext, with the line afterwards. -/
def gftpConfigReadExt (before : Option UInt8) (buf : Bytes) : CRun (Bytes × FileExtension) := do
  let parsed ← ConfigArguments.gftpConfigParseArgs before buf 4
  match parsed.outputs with
  | [ext, filename, asciiBinary, viewProgram] =>
      return (parsed.block, ⟨stringOf ext, stringOf filename, stringOf asciiBinary,
        stringOf viewProgram, (cstr ext).length⟩)
  | _ => .error .fault

/-- The line that is written is read as a record with the same extension, file name, letter and
program. -/
def ReadBack (before : Option UInt8) (tempext : FileExtension) : Prop :=
  ∃ buf tempext', gftpConfigReadExt before (gftpConfigWriteExt tempext ++ [0]) = .ok (buf, tempext') ∧
    tempext'.ext = tempext.ext ∧ tempext'.filename = tempext.filename ∧
    tempext'.letter = tempext.letter ∧ tempext'.viewProgram = tempext.viewProgram

/-- A field without an end in it. -/
def Plain (field : Bytes) : Prop := 58 ∉ field ∧ field.getLast? ≠ some 92

/-- Neither the extension, the file name nor the letter holds the end of a field. -/
def ExtFits (before : Option UInt8) (tempext : FileExtension) : Prop :=
  Plain tempext.ext.bytes ∧ Plain tempext.filename.bytes ∧ Plain [tempext.letter] ∧
    (tempext.ext.bytes = [] → before.isSome = true)

section Unescape

variable {text : Bytes}

theorem not_mem_unescape (text : Bytes) : 92 ∉ unescape text := by
  induction text with
  | nil => exact List.not_mem_nil
  | cons c text ih =>
    rw [unescape]
    split_ifs with h
    · rw [List.mem_cons, not_or]
      exact ⟨Ne.symm h.1, ih⟩
    · exact ih

theorem head_escape (field : Bytes) : (escape field).head? ≠ some 58 := by
  cases field with
  | nil => simp [escape]
  | cons b field =>
    by_cases hb : b = 58 <;> simp [escape, hb]

theorem escape_cons (b : UInt8) (field : Bytes) :
    escape (b :: field) = (if b = 58 then [92, 58] else [b]) ++ escape field := rfl

/-- Taking the backslashes out takes out those of the field, too. -/
theorem unescape_escape (field : Bytes) : unescape (escape field) = field.filter (· ≠ 92) := by
  induction field with
  | nil => rfl
  | cons b field ih =>
    have hhead := head_escape field
    rw [escape_cons]
    by_cases hb : b = 58
    · subst hb
      rw [if_pos rfl]
      simp [unescape, hhead, ih]
    · rw [if_neg hb, List.singleton_append, unescape, ih]
      by_cases h92 : b = 92 <;> simp [h92, hhead]

theorem escape_eq_iff (field : Bytes) : escape field = field ↔ 58 ∉ field := by
  have hlen : ∀ l : Bytes, (escape l).length = l.length + l.count 58 := by
    intro l
    induction l with
    | nil => rfl
    | cons b l ih =>
      rw [escape_cons, List.length_append, ih]
      by_cases hb : b = 58
      · subst hb
        simp
        omega
      · simp [hb]
        omega
  constructor
  · intro h
    have heq := congrArg List.length h
    rw [hlen] at heq
    exact List.count_eq_zero.mp (by omega)
  · intro h
    induction field with
    | nil => rfl
    | cons b field ih =>
      rw [List.mem_cons, not_or] at h
      rw [escape_cons, if_neg (Ne.symm h.1), ih h.2, List.singleton_append]

end Unescape

section Cut

variable {prev : UInt8} {field rest : Bytes}

theorem lastByte_cons (prev c : UInt8) (u : Bytes) :
    (c :: u).getLast?.getD prev = u.getLast?.getD c := by
  cases u with
  | nil => rfl
  | cons b u => simp [List.getLast?_cons]

theorem lastByte_ne (hprev : prev ≠ 92) : field.getLast?.getD prev ≠ 92 ↔ field.getLast? ≠ some 92 := by
  cases field.getLast? with
  | none => simpa using hprev
  | some b => simp

/-- An escaped field is cut off as a whole when it does not end in a backslash. -/
theorem cutColon_escape (hlast : field.getLast?.getD prev ≠ 92) (rest : Bytes) :
    cutColon prev (escape field ++ 58 :: rest) = some (escape field, decide (58 ∈ field), rest) := by
  induction field generalizing prev with
  | nil => simpa [escape, cutColon] using hlast
  | cons b field ih =>
    rw [lastByte_cons] at hlast
    rw [escape_cons]
    by_cases hb : b = 58
    · subst hb
      simp [cutColon, ih hlast]
    · rw [if_neg hb, List.singleton_append, List.cons_append, cutColon, if_neg fun h => hb h.1, ih hlast]
      simp [hb, Ne.symm hb]

/-- A field that is cut off and comes back as what stands in front of a colon is that text. -/
theorem cut_whole {text tail : Bytes} {hasColon : Bool} (hprev : prev ≠ 92)
    (hcut : cutColon prev (field ++ 58 :: rest) = some (text, hasColon, tail))
    (heq : (if hasColon then unescape text else text) = field) :
    text = field ∧ tail = rest ∧ Plain field := by
  obtain ⟨hlast, hflag, hinside⟩ := cutColon_field hcut
  have hstr := cutColon_some hcut
  cases hasColon with
  | false =>
    rw [if_neg (by decide)] at heq
    subst heq
    refine ⟨rfl, ?_, by simpa using hflag, (lastByte_ne hprev).mp hlast⟩
    exact (List.cons.inj (List.append_cancel_left hstr)).2.symm
  | true =>
    rw [if_pos rfl] at heq
    exfalso
    have hfree : 92 ∉ field := heq ▸ not_mem_unescape text
    -- The colon inside stands behind a backslash, which what comes back does not have.
    have hslash : ∀ u v, text = u ++ 58 :: v → ¬u <+: field := by
      intro u v htext hu
      have hu92 := mt (@lastByte_ne prev u hprev).mpr (not_not.mpr (hinside u v htext))
      exact hfree (hu.subset (List.mem_of_getLast? (not_not.mp hu92)))
    rcases List.append_eq_append_iff.mp hstr with ⟨w, htext, hw⟩ | ⟨w, hfield, hw⟩
    · cases w with
      | nil =>
        rw [List.append_nil] at htext
        obtain ⟨u, v, hshow, -⟩ := List.eq_append_cons_of_mem (of_decide_eq_true hflag.symm)
        exact hslash u v hshow (htext ▸ hshow ▸ List.prefix_append u _)
      | cons b w =>
        obtain ⟨rfl, -⟩ := List.cons.inj hw
        exact hslash field w htext List.prefix_rfl
    · have hlen := (unescape_sublist text).length_le
      rw [heq, hfield, List.length_append] at hlen
      obtain rfl : w = [] := List.length_eq_zero_iff.mp (by omega)
      rw [List.append_nil] at hfield
      obtain ⟨u, v, hshow, -⟩ := List.eq_append_cons_of_mem (of_decide_eq_true hflag.symm)
      exact hslash u v hshow (hfield ▸ hshow ▸ List.prefix_append u _)

/-- Every colon in front of the end of a field is passed over. -/
theorem cut_restored {text tail : Bytes} {hasColon : Bool} (hprev : prev ≠ 92)
    (hcut : cutColon prev (escape field ++ 58 :: rest) = some (text, hasColon, tail))
    (heq : (if hasColon then unescape text else text) = field) : field.getLast? ≠ some 92 := by
  obtain ⟨hlast, hflag, -⟩ := cutColon_field hcut
  cases hasColon with
  | false =>
    rw [if_neg (by decide)] at heq
    exact heq ▸ (lastByte_ne hprev).mp hlast
  | true =>
    rw [if_pos rfl] at heq
    intro h
    exact not_mem_unescape text (heq ▸ List.mem_of_getLast? h)

end Cut

section Outputs

variable {prev : UInt8} {n : ℕ} {field str rest : Bytes} {fields : List Bytes}

/-- What the arguments are set to. -/
def Outputs (prev : UInt8) (n : ℕ) (str : Bytes) (fields : List Bytes) : Prop :=
  ∃ enough, arguments prev n str = .ok (enough, fields)

theorem outputs_cons (hcolon : 58 ∈ str) : Outputs prev (n + 2) str (field :: fields) ↔
    ∃ text hasColon tail, cutColon prev str = some (text, hasColon, tail) ∧
      (if hasColon then unescape text else text) = field ∧ Outputs 58 (n + 1) tail fields := by
  rw [Outputs, arguments]
  cases hcut : cutColon prev str with
  | none => simp [hcolon]
  | some cut =>
    obtain ⟨text, hasColon, tail⟩ := cut
    simp only [CRun.bind_eq_ok]
    constructor
    · rintro ⟨enough, ⟨enough', others⟩, hothers, heq⟩
      cases heq
      exact ⟨text, hasColon, tail, rfl, rfl, enough', hothers⟩
    · rintro ⟨_, _, _, hsome, heq, enough, hothers⟩
      cases hsome
      exact ⟨enough, (enough, fields), hothers, by rw [heq]; rfl⟩

theorem outputs_last : Outputs prev 1 str [field] ↔ str = field := by
  constructor
  · rintro ⟨enough, heq⟩
    cases heq
    rfl
  · rintro rfl
    exact ⟨true, rfl⟩

theorem outputs_escaped (hprev : prev ≠ 92) :
    Outputs prev (n + 2) (escape field ++ 58 :: rest) (field :: fields) ↔
      (field.getLast? ≠ some 92 ∧ (58 ∈ field → 92 ∉ field)) ∧ Outputs 58 (n + 1) rest fields := by
  have hback : (if decide (58 ∈ field) = true then unescape (escape field) else escape field) = field ↔
      (58 ∈ field → 92 ∉ field) := by
    by_cases hcolon : 58 ∈ field
    · rw [if_pos (by simpa using hcolon), unescape_escape, List.filter_eq_self]
      constructor
      · intro h _ hmem
        simpa using h 92 hmem
      · intro h b hb
        simpa using ne_of_mem_of_not_mem hb (h hcolon)
    · rw [if_neg (by simpa using hcolon)]
      exact iff_of_true ((escape_eq_iff field).mpr hcolon) fun h => absurd h hcolon
  rw [outputs_cons (by simp)]
  constructor
  · rintro ⟨text, hasColon, tail, hcut, heq, hrest⟩
    have hlast := cut_restored hprev hcut heq
    rw [cutColon_escape ((lastByte_ne hprev).mpr hlast), Option.some.injEq] at hcut
    cases hcut
    exact ⟨⟨hlast, hback.mp heq⟩, hrest⟩
  · rintro ⟨⟨hlast, hslash⟩, hrest⟩
    exact ⟨_, _, _, cutColon_escape ((lastByte_ne hprev).mpr hlast) rest, hback.mpr hslash, hrest⟩

theorem outputs_plain (hprev : prev ≠ 92) :
    Outputs prev (n + 2) (field ++ 58 :: rest) (field :: fields) ↔
      Plain field ∧ Outputs 58 (n + 1) rest fields := by
  rw [outputs_cons (by simp)]
  constructor
  · rintro ⟨text, hasColon, tail, hcut, heq, hrest⟩
    obtain ⟨-, rfl, hplain⟩ := cut_whole hprev hcut heq
    exact ⟨hplain, hrest⟩
  · rintro ⟨⟨hcolon, hlast⟩, hrest⟩
    have hcut := cutColon_escape ((lastByte_ne hprev).mpr hlast) rest
    rw [(escape_eq_iff field).mpr hcolon] at hcut
    exact ⟨_, _, _, hcut, by simp [hcolon], hrest⟩

theorem outputs_joined (hprev : prev ≠ 92) (fields : List Bytes) :
    Outputs prev fields.length (joined fields) fields ↔ Restored fields := by
  induction fields generalizing prev with
  | nil => exact iff_of_true ⟨true, rfl⟩ trivial
  | cons field fields ih =>
    cases fields with
    | nil => exact outputs_last.trans (escape_eq_iff field)
    | cons next fields =>
      rw [List.length_cons, List.length_cons, joined, outputs_escaped hprev, Restored]
      have hrest := @ih 58 (by decide)
      rw [List.length_cons] at hrest
      rw [hrest, and_assoc]
      all_goals exact List.cons_ne_nil _ _

theorem outputs_nul_free {o : Bytes} (hstr : 0 ∉ str) (h : Outputs prev n str fields) (ho : o ∈ fields) :
    0 ∉ o := by
  obtain ⟨enough, h⟩ := h
  induction n generalizing prev str fields enough with
  | zero =>
    cases h
    cases ho
  | succ n ih =>
    cases n with
    | zero =>
      cases h
      rw [List.mem_singleton.mp ho]
      exact hstr
    | succ n =>
      rw [arguments] at h
      cases hcut : cutColon prev str with
      | none =>
        simp only [hcut] at h
        split_ifs at h
        cases h
        rcases List.mem_cons.mp ho with rfl | ho
        · exact hstr
        · rw [List.eq_of_mem_replicate ho]
          exact List.not_mem_nil
      | some cut =>
        obtain ⟨text, hasColon, tail⟩ := cut
        obtain rfl := cutColon_some hcut
        simp only [hcut, CRun.bind_eq_ok] at h
        obtain ⟨⟨enough', others⟩, hothers, h⟩ := h
        cases h
        simp only [List.mem_append, List.mem_cons, not_or] at hstr
        rcases List.mem_cons.mp ho with rfl | ho
        · intro h0
          cases hasColon with
          | false => exact hstr.1 h0
          | true => exact hstr.1 ((unescape_sublist text).subset h0)
        · exact ih hstr.2.2 ho _ hothers

end Outputs

section Parse

variable {before : Option UInt8} {n : ℕ} {str : Bytes} {fields : List Bytes}

/-- The parser returns the arguments unless it reads in front of the string. -/
theorem parse_outputs (hbefore : before ≠ some 92) (hstr : 0 ∉ str) :
    (∃ parsed, ConfigArguments.gftpConfigParseArgs before (str ++ [0]) n = .ok parsed ∧
        parsed.outputs = fields) ↔
      Outputs (before.getD 0) n str fields ∧
        (1 < n → str.head? = some 58 → before.isSome = true) := by
  by_cases hfront : 1 < n → str.head? = some 58 → before.isSome = true
  · have hparse := @parse_arguments before str n hstr (before.getD 0)
      (fun hn hhead => by
        obtain ⟨b, rfl⟩ := Option.isSome_iff_exists.mp (hfront hn hhead)
        rfl) []
    rw [and_iff_left hfront, hparse]
    constructor
    · rintro ⟨parsed, hrun, rfl⟩
      cases hresult : arguments (before.getD 0) n str with
      | error e => rw [hresult] at hrun; cases hrun
      | ok result =>
        rw [hresult] at hrun
        cases hrun
        exact ⟨result.1, hresult⟩
    · rintro ⟨enough, hresult⟩
      exact ⟨Parsed.of _ (enough, fields), by rw [hresult]; rfl, rfl⟩
  · refine iff_of_false ?_ fun h => hfront h.2
    push Not at hfront
    obtain ⟨hn, hhead, hnone⟩ := hfront
    obtain ⟨tail, rfl⟩ : ∃ tail, str = 58 :: tail :=
      ⟨_, (List.cons_head?_tail (by rw [hhead]; rfl)).symm⟩
    obtain rfl : before = none := by simpa using hnone
    rintro ⟨parsed, hrun, -⟩
    rw [parse_colon_first tail [] hn] at hrun
    cases hrun

theorem before_ne (hbefore : before ≠ some 92) : before.getD 0 ≠ 92 := by
  cases before with
  | none => decide
  | some b => exact fun h => hbefore (congrArg some h)

theorem head_joined (hmore : 1 < fields.length) :
    (joined fields).head? = some 58 ↔ fields.head? = some [] := by
  match fields, hmore with
  | field :: next :: rest, _ =>
    rw [joined, List.head?_cons, Option.some.injEq]
    · cases field with
      | nil => simp [escape]
      | cons b field => by_cases hb : b = 58 <;> simp [escape_cons, hb]
    · exact List.cons_ne_nil _ _

theorem nul_not_mem_joined (h : ∀ field ∈ fields, 0 ∉ field) : 0 ∉ joined fields := by
  have hescape : ∀ field : Bytes, 0 ∉ field → 0 ∉ escape field := by
    intro field hfield
    induction field with
    | nil => exact List.not_mem_nil
    | cons b field ih =>
      rw [List.mem_cons, not_or] at hfield
      rw [escape_cons]
      by_cases hb : b = 58 <;> simp [hb, ih hfield.2, hfield.1]
  induction fields with
  | nil => exact List.not_mem_nil
  | cons field fields ih =>
    rw [List.forall_mem_cons] at h
    cases fields with
    | nil => exact hescape field h.1
    | cons next rest =>
      rw [joined]
      · simp [hescape field h.1, ih h.2]
      · exact List.cons_ne_nil _ _

theorem returned_iff (hbefore : before ≠ some 92) (h : ∀ field ∈ fields, 0 ∉ field) :
    Returned before fields ↔ FieldsFit before fields := by
  rw [Returned, parse_outputs hbefore (nul_not_mem_joined h), outputs_joined (before_ne hbefore), FieldsFit]
  refine and_congr_right fun _ => ?_
  constructor
  · exact fun hfront hmore hhead => hfront hmore ((head_joined hmore).mpr hhead)
  · exact fun hfront hmore hhead => hfront hmore ((head_joined hmore).mp hhead)

end Parse

/-- A letter that comes back does not end its field and is no backslash. -/
theorem letter_plain {l : UInt8} {view c v : Bytes} (h : Outputs 58 2 (l :: 58 :: view) [c, v])
    (hl : c.head?.getD 32 = l) : Plain [l] := by
  obtain ⟨text, hasColon, tail, hcut, heq, -⟩ := (outputs_cons (n := 0) (by simp)).mp h
  have hcolon : l ≠ 58 := by
    rintro rfl
    simp only [cutColon] at hcut
    cases hcut
    subst heq
    cases hl
  have hslash : l ≠ 92 := by
    rintro rfl
    have hmem : 92 ∈ c := by
      cases c with
      | nil => cases hl
      | cons b c => exact List.mem_cons.mpr (Or.inl hl.symm)
    cases hasColon with
    | true =>
      rw [if_pos rfl] at heq
      exact not_mem_unescape text (heq ▸ hmem)
    | false =>
      have hflag := (cutColon_field hcut).2.1
      cases hview : cutColon 58 view with
      | none => simp [cutColon, hview] at hcut
      | some cut =>
        simp [cutColon, hview] at hcut
  exact ⟨by simpa using Ne.symm hcolon, by simpa using hslash⟩

theorem stringOf_eq {text : Bytes} {s : CString} (h : 0 ∉ text) : stringOf text = s ↔ text = s.bytes := by
  obtain ⟨bytes, hbytes⟩ := s
  simp only [stringOf, cstr_eq_self h, CString.mk.injEq]

section Records

variable {before : Option UInt8} (tempext : FileExtension)

theorem nul_not_mem_letter : tempext.letter ≠ 0 := by
  unfold FileExtension.letter
  have hfree := tempext.asciiBinary.nul_free
  cases hbytes : tempext.asciiBinary.bytes with
  | nil => decide
  | cons b rest =>
    rw [hbytes, List.mem_cons, not_or] at hfree
    exact Ne.symm hfree.1

theorem nul_not_mem_line : 0 ∉ gftpConfigWriteExt tempext := by
  have hletter := nul_not_mem_letter tempext
  simp [gftpConfigWriteExt, tempext.ext.nul_free, tempext.filename.nul_free,
    tempext.viewProgram.nul_free, Ne.symm hletter]

theorem read_back_iff (hbefore : before ≠ some 92) : ReadBack before tempext ↔ ExtFits before tempext := by
  have hprev := before_ne hbefore
  have hnul := nul_not_mem_line tempext
  have hhead : Plain tempext.ext.bytes →
      ((gftpConfigWriteExt tempext).head? = some 58 ↔ tempext.ext.bytes = []) := by
    intro hplain
    cases hext : tempext.ext.bytes with
    | nil => simp [gftpConfigWriteExt, hext]
    | cons b rest =>
      have hb : b ≠ 58 := by
        rintro rfl
        exact hplain.1 (by simp [hext])
      simp [gftpConfigWriteExt, hext, hb]
  have houtputs : ∀ c : Bytes, Outputs (before.getD 0) 4 (gftpConfigWriteExt tempext)
      [tempext.ext.bytes, tempext.filename.bytes, c, tempext.viewProgram.bytes] ↔
      Plain tempext.ext.bytes ∧ Plain tempext.filename.bytes ∧
        Outputs 58 2 (tempext.letter :: 58 :: tempext.viewProgram.bytes) [c, tempext.viewProgram.bytes] := by
    intro c
    rw [gftpConfigWriteExt, outputs_plain hprev, outputs_plain (by decide)]
  constructor
  · rintro ⟨buf, tempext', hread, hext, hfilename, hletter, hview⟩
    rw [gftpConfigReadExt, CRun.bind_eq_ok] at hread
    obtain ⟨parsed, hrun, hread⟩ := hread
    split at hread
    · rename_i e f c v hparsed
      cases hread
      obtain ⟨hout, hfront⟩ := (parse_outputs hbefore hnul).mp ⟨parsed, hrun, hparsed⟩
      have hfree : ∀ o ∈ [e, f, c, v], 0 ∉ o := fun o ho => outputs_nul_free hnul hout ho
      simp only [List.forall_mem_cons] at hfree
      obtain ⟨he, hf, hc, hv, -⟩ := hfree
      obtain rfl := (stringOf_eq he).mp hext
      obtain rfl := (stringOf_eq hf).mp hfilename
      obtain rfl := (stringOf_eq hv).mp hview
      obtain ⟨hplain, hplain', hlast⟩ := (houtputs c).mp hout
      have hback : c.head?.getD 32 = tempext.letter := by
        rw [← hletter, FileExtension.letter]
        simp only [stringOf, cstr_eq_self hc]
      exact ⟨hplain, hplain', letter_plain hlast hback,
        fun hnil => hfront (by decide) ((hhead hplain).mpr hnil)⟩
    · cases hread
  · rintro ⟨hext, hfilename, hletter, hfront⟩
    have hall := (houtputs [tempext.letter]).mpr ⟨hext, hfilename,
      (@outputs_plain _ _ [tempext.letter] _ _ (by decide)).mpr ⟨hletter, outputs_last.mpr rfl⟩⟩
    obtain ⟨parsed, hrun, hparsed⟩ := (parse_outputs hbefore hnul).mpr
      ⟨hall, fun _ h => hfront ((hhead hext).mp h)⟩
    have hletter0 : cstr [tempext.letter] = [tempext.letter] :=
      cstr_eq_self (by simpa using Ne.symm (nul_not_mem_letter tempext))
    refine ⟨parsed.block, ⟨stringOf tempext.ext.bytes, stringOf tempext.filename.bytes,
      stringOf [tempext.letter], stringOf tempext.viewProgram.bytes,
      (cstr tempext.ext.bytes).length⟩, ?_, ?_, ?_, ?_, ?_⟩
    · rw [gftpConfigReadExt, hrun, CRun.ok_bind]
      simp only [hparsed]
      rfl
    · exact (stringOf_eq tempext.ext.nul_free).mpr rfl
    · exact (stringOf_eq tempext.filename.nul_free).mpr rfl
    · rw [FileExtension.letter]
      simp only [stringOf, hletter0]
      rfl
    · exact (stringOf_eq tempext.viewProgram.nul_free).mpr rfl

end Records

/-- Fields written with escaped colons come back when they fit, and a record of the file when its
first three fields hold no colon and do not end in a backslash. -/
theorem config_arguments_iff (before : Option UInt8) (hbefore : before ≠ some 92) :
    (∀ fields : List CString, Returned before (fields.map CString.bytes) ↔
        FieldsFit before (fields.map CString.bytes)) ∧
      ∀ tempext : FileExtension, ReadBack before tempext ↔ ExtFits before tempext := by
  constructor
  · intro fields
    apply returned_iff hbefore
    intro field hfield
    obtain ⟨s, -, rfl⟩ := List.mem_map.mp hfield
    exact s.nul_free
  · exact fun tempext => read_back_iff tempext hbefore

/-- The fields a:b and c, and the record of the C sources, behind the terminator that is written
over the equals sign. -/
def firstColon : List CString := [⟨ascii "a:b", by decide⟩, ⟨ascii "c", by decide⟩]

def sourceExtension : FileExtension where
  ext := ⟨ascii ".c", by decide⟩
  filename := ⟨ascii "c.xpm", by decide⟩
  asciiBinary := ⟨ascii "A", by decide⟩
  viewProgram := ⟨ascii "less:+G", by decide⟩
  stlen := 2

theorem config_arguments_line :
    Returned (some 0) (firstColon.map CString.bytes) ∧ ReadBack (some 0) sourceExtension := by
  obtain ⟨hfields, hrecords⟩ := config_arguments_iff (some 0) (by decide)
  refine ⟨(hfields firstColon).mpr ⟨?_, fun _ _ => rfl⟩, (hrecords sourceExtension).mpr ?_⟩
  · have hlast : 58 ∉ ascii "c" := by decide
    exact ⟨by decide, by decide, hlast⟩
  · exact ⟨⟨by decide, by decide⟩, ⟨by decide, by decide⟩, ⟨by decide, by decide⟩, fun _ => rfl⟩

/-- The fields a and b:c. -/
def lastColon : List CString := [⟨ascii "a", by decide⟩, ⟨ascii "b:c", by decide⟩]

/-- The last field keeps its backslash. -/
theorem last_colon_kept : ¬Returned (some 0) (lastColon.map CString.bytes) := by
  rintro ⟨parsed, hrun, hout⟩
  have hparse : (ConfigArguments.gftpConfigParseArgs (some 0)
      (joined (lastColon.map CString.bytes) ++ [0]) (lastColon.map CString.bytes).length).map
        Parsed.outputs = .ok [ascii "a", ascii "b\\:c"] := by decide
  rw [hrun, Except.map, Except.ok.injEq, hout] at hparse
  revert hparse
  decide

end Gftp.FileExtensions
