import Gftp.ListingFields

/-!
VMS entries, on one line or on two. The mode that the name of a directory sets is replaced
by the one of the protection fields, so that the entry of a directory is never one.
-/

namespace Gftp.VmsListing

open ByteStrings TextPointers Decimal Protocol ListingParsers ListingFields

/-- One or two digits for a number of a range. -/
def TwoDigits (low high : ℕ) (t : Bytes) : Prop :=
  (t.length = 1 ∨ t.length = 2) ∧ (∀ b ∈ t, isDigit b = true) ∧ low ≤ digitsValue t ∧
    digitsValue t ≤ high

instance (low high : ℕ) : DecidablePred (TwoDigits low high) := fun _ =>
  inferInstanceAs (Decidable (_ ∧ _ ∧ _ ∧ _))

/-- A date as VMS writes it, 8-JUN-2004 13:04 with or without seconds. -/
structure VmsDate where
  day : Bytes
  month : Bytes
  year : Bytes
  hour : Bytes
  minute : Bytes
  second : Option Bytes
  day_digits : TwoDigits 1 31 day
  month_letters : month.length = 3 ∧ ∀ b ∈ month, isAlpha b = true
  year_digits : year.length = 4 ∧ ∀ b ∈ year, isDigit b = true
  hour_digits : TwoDigits 0 23 hour
  minute_digits : TwoDigits 0 59 minute
  second_digits : ∀ t ∈ second, TwoDigits 0 59 t

def VmsDate.dayText (date : VmsDate) : Bytes := date.day ++ 45 :: date.month ++ 45 :: date.year

def VmsDate.timeText (date : VmsDate) : Bytes :=
  date.hour ++ 58 :: date.minute ++ (date.second.map (58 :: ·)).getD []

def VmsDate.text (date : VmsDate) : Bytes := date.dayText ++ 32 :: date.timeText

/-- strptime reads a date of a listing to its end, or does not know its month. -/
structure KnowsVmsDates (host : Host) : Prop where
  reads_date : ∀ (date : VmsDate) (b : UInt8) (rest : Bytes) (tm : Tm), isBlank b = true →
    (host.strptime (ascii "%d-%b-%Y %H:%M:%S") (date.text ++ b :: rest) tm).2 =
        some date.text.length ∨
      (host.strptime (ascii "%d-%b-%Y %H:%M:%S") (date.text ++ b :: rest) tm).2 = none ∧
        ∀ tm', (host.strptime (ascii "%d-%b-%Y %H:%M") (date.text ++ b :: rest) tm').2 = none ∨
          (host.strptime (ascii "%d-%b-%Y %H:%M") (date.text ++ b :: rest) tm').2 =
            some date.text.length
  inside : ReadsInside host

/-- The bits of one protection field. -/
def fieldBits (field : Bytes) (r w e : ℕ) : ℕ :=
  (if 82 ∈ field then r else 0) ||| (if 87 ∈ field then w else 0) |||
    (if 69 ∈ field then e else 0)

/-- The text of a protection field. -/
def FieldText (field : Bytes) : Prop := ∀ b ∈ field, b ≠ 0 ∧ b ≠ 44 ∧ b ≠ 41

/-- What may follow an entry on its line. -/
def Ending (t : Bytes) : Prop := ∀ b ∈ t, b = 32 ∨ b = 9 ∨ b = 10 ∨ b = 13

/-- A well-formed entry: its name, the version, the size, the date, the owner and the
protection fields, with what stands between them. -/
structure VmsEntry where
  name : Bytes
  version : Bytes
  size : Bytes
  date : VmsDate
  owner : Bytes
  system : Bytes
  user : Bytes
  group : Bytes
  world : Bytes
  afterSize : Bytes
  afterDate : Bytes
  afterOwner : Bytes
  ending : Bytes
  name_text : 0 ∉ name ∧ 59 ∉ name
  version_plain : Plain version
  size_plain : Plain size ∧ size ≠ []
  owner_text : 0 ∉ owner ∧ 93 ∉ owner
  system_text : FieldText system
  user_text : FieldText user
  group_text : FieldText group
  world_text : FieldText world
  afterSize_gap : Gap afterSize ∧ afterSize ≠ []
  afterDate_gap : Gap afterDate ∧ afterDate ≠ []
  afterOwner_gap : Gap afterOwner ∧ afterOwner ≠ []
  ending_text : Ending ending

namespace VmsEntry

variable (e : VmsEntry)

/-- The protection fields of the owner, the group and the world as a mode. -/
def permissions : ℕ :=
  fieldBits e.user 0o400 0o200 0o100 ||| fieldBits e.group 0o040 0o020 0o010 |||
    fieldBits e.world 0o004 0o002 0o001

def isDirectory : Prop := ascii ".DIR" <:+ e.name

instance : Decidable e.isDirectory := inferInstanceAs (Decidable (_ <:+ _))

/-- The name without the suffix of a directory. -/
def shownName : Bytes :=
  if e.isDirectory then e.name.take (e.name.length - 4) else e.name

def protection : Bytes :=
  40 :: e.system ++ 44 :: e.user ++ 44 :: e.group ++ 44 :: e.world ++ 41 :: e.ending

/-- The part of the entry behind the version. -/
def fields : Bytes :=
  e.size ++ e.afterSize ++ e.date.text ++ e.afterDate ++ 91 :: e.owner ++ 93 :: e.afterOwner ++
    e.protection

end VmsEntry

theorem plain_digits {t : Bytes} (h : ∀ b ∈ t, isDigit b = true) : Plain t := by
  intro b hb
  have hdigit := h b hb
  constructor
  · rintro rfl
    exact absurd hdigit (by decide)
  · unfold isDigit at hdigit
    unfold isBlank
    grind

theorem plain_letters {t : Bytes} (h : ∀ b ∈ t, isAlpha b = true) : Plain t := by
  intro b hb
  have hletter := h b hb
  constructor
  · rintro rfl
    exact absurd hletter (by decide)
  · unfold isAlpha at hletter
    unfold isBlank
    grind

theorem plain_append {s t : Bytes} : Plain (s ++ t) ↔ Plain s ∧ Plain t := List.forall_mem_append

theorem plain_cons {b : UInt8} {t : Bytes} :
    Plain (b :: t) ↔ (b ≠ 0 ∧ isBlank b = false) ∧ Plain t := List.forall_mem_cons

theorem VmsDate.dayText_plain (date : VmsDate) : Plain date.dayText := by
  unfold VmsDate.dayText
  simp only [plain_append, plain_cons]
  exact ⟨⟨plain_digits date.day_digits.2.1, ⟨by decide, by decide⟩,
    plain_letters date.month_letters.2⟩, ⟨by decide, by decide⟩, plain_digits date.year_digits.2⟩

theorem VmsDate.timeText_plain (date : VmsDate) : Plain date.timeText := by
  unfold VmsDate.timeText
  simp only [plain_append, plain_cons]
  refine ⟨⟨plain_digits date.hour_digits.2.1, ⟨by decide, by decide⟩,
    plain_digits date.minute_digits.2.1⟩, ?_⟩
  cases h : date.second with
  | none => simp [Plain]
  | some t => exact plain_cons.mpr ⟨by decide, plain_digits (date.second_digits t h).2.1⟩

theorem VmsDate.timeText_ne_nil (date : VmsDate) : date.timeText ≠ [] := by
  simp [VmsDate.timeText]

theorem VmsDate.nul_free (date : VmsDate) : 0 ∉ date.text := by
  simp only [VmsDate.text, List.mem_append, List.mem_cons, not_or]
  exact ⟨date.dayText_plain.nul_free, by decide, date.timeText_plain.nul_free⟩

/-- Whether the date is recognized or not, the field behind it comes next. -/
theorem parseVmsTime_date {host : Host} (hhost : KnowsVmsDates host) (date : VmsDate)
    {gap : Bytes} (hgap : Gap gap) (hne : gap ≠ []) {rest : Bytes} (hrest : Starts rest)
    (hnul : 0 ∈ rest) :
    ∃ t, parseVmsTime host (date.text ++ (gap ++ rest)) = .ok (t, rest) := by
  obtain ⟨b, more, rfl, hb⟩ := hgap.head hne
  have htext : textAt (date.text ++ (b :: more ++ rest)) =
      .ok (date.text ++ b :: cstr (more ++ rest)) := by
    have hb0 : 0 ∉ date.text ++ [b] := by
      rw [List.mem_append, List.mem_singleton, not_or]
      refine ⟨date.nul_free, ?_⟩
      rintro rfl
      exact absurd hb (by decide)
    have happend := textAt_append hb0 (List.mem_append_right more hnul)
    rwa [List.append_assoc, List.append_assoc] at happend
  have hskip : skipWhile isBlank ((date.text ++ (b :: more ++ rest)).drop date.text.length) =
      .ok rest := by
    rw [List.drop_left]
    exact skip_gap hgap hrest
  have hday : gotoNextToken (date.text ++ (b :: more ++ rest)) =
      .ok (date.timeText ++ (b :: more ++ rest)) := by
    rw [VmsDate.text, List.append_assoc, List.cons_append, ← List.singleton_append]
    exact gotoNextToken_word date.dayText_plain (by decide) (by decide)
      (date.timeText_plain.starts date.timeText_ne_nil _)
  have htime : gotoNextToken (date.timeText ++ (b :: more ++ rest)) = .ok rest :=
    gotoNextToken_word date.timeText_plain hgap hne hrest
  unfold parseVmsTime
  simp only [htext, CRun.ok_bind]
  rcases hhost.reads_date date b (cstr (more ++ rest)) Tm.zero hb with hfirst | ⟨hfirst, hsecond⟩
  · simp only [hfirst, hskip, CRun.ok_bind]
    exact ⟨_, rfl⟩
  · simp only [hfirst]
    rcases hsecond (host.strptime (ascii "%d-%b-%Y %H:%M:%S")
      (date.text ++ b :: cstr (more ++ rest)) Tm.zero).1 with hsecond | hsecond
    · simp only [hsecond, hday, htime, CRun.ok_bind]
      exact ⟨_, rfl⟩
    · simp only [hsecond, hskip, CRun.ok_bind]
      exact ⟨_, rfl⟩

theorem fieldBits_mask (field : Bytes) :
    fieldBits field 0o444 0o222 0o111 &&& 0o700 = fieldBits field 0o400 0o200 0o100 ∧
      fieldBits field 0o444 0o222 0o111 &&& 0o070 = fieldBits field 0o040 0o020 0o010 ∧
      fieldBits field 0o444 0o222 0o111 &&& 0o007 = fieldBits field 0o004 0o002 0o001 := by
  unfold fieldBits
  split_ifs <;> decide

theorem attribs_field {field : Bytes} (hfield : FieldText field) {rest : Bytes}
    (hrest : 0 ∈ rest) (mask : ℕ) :
    gftpParseVmsAttribs (some (field ++ 44 :: rest)) mask =
      .ok (fieldBits field 0o444 0o222 0o111 &&& mask, some rest) := by
  have hnul : 0 ∉ field := fun h => (hfield 0 h).1 rfl
  have hcomma : 44 ∉ field := fun h => (hfield 44 h).2.1 rfl
  have htext : textAt (field ++ 44 :: rest) = .ok (field ++ 44 :: cstr rest) :=
    textAt_append hnul (List.mem_cons_of_mem _ hrest)
  have hshown : (field ++ 44 :: cstr rest).takeWhile (· ≠ 44) = field := by
    rw [List.takeWhile_append_of_pos fun b hb => by simpa using ne_of_mem_of_not_mem hb hcomma]
    simp
  unfold gftpParseVmsAttribs
  simp only [htext, CRun.ok_bind, hshown, findByte_first hcomma hnul]
  rfl

theorem attribs_last {field ending : Bytes} (hfield : FieldText field) (hending : Ending ending)
    (tail : Bytes) (mask : ℕ) :
    gftpParseVmsAttribs (some (field ++ 41 :: ending ++ 0 :: tail)) mask =
      .ok (fieldBits field 0o444 0o222 0o111 &&& mask, none) := by
  have hout (c : UInt8) (hc : c ∈ ending) : c = 32 ∨ c = 9 ∨ c = 10 ∨ c = 13 := hending c hc
  have hnul : 0 ∉ field ++ 41 :: ending := by
    simp only [List.mem_append, List.mem_cons, not_or]
    exact ⟨fun h => (hfield 0 h).1 rfl, by decide, fun h => absurd (hout 0 h) (by decide)⟩
  have hcomma : 44 ∉ field ++ 41 :: ending := by
    simp only [List.mem_append, List.mem_cons, not_or]
    exact ⟨fun h => (hfield 44 h).2.1 rfl, by decide, fun h => absurd (hout 44 h) (by decide)⟩
  have hshown : (field ++ 41 :: ending).takeWhile (· ≠ 44) = field ++ 41 :: ending :=
    List.takeWhile_eq_self_iff.mpr fun b hb => by simpa using ne_of_mem_of_not_mem hb hcomma
  have hletter (c : UInt8) (hc : c = 82 ∨ c = 87 ∨ c = 69) :
      c ∈ field ++ 41 :: ending ↔ c ∈ field := by
    have hnot : c ∉ (41 :: ending : Bytes) := by
      rw [List.mem_cons, not_or]
      refine ⟨?_, fun h => ?_⟩
      · rcases hc with rfl | rfl | rfl <;> decide
      · have hin := hout c h
        rcases hc with rfl | rfl | rfl <;> exact absurd hin (by decide)
    rw [List.mem_append, or_iff_left hnot]
  unfold gftpParseVmsAttribs
  simp only [textAt_text hnul, CRun.ok_bind, findByte_text (by decide : (44 : UInt8) ≠ 0) hnul,
    if_neg hcomma, hshown, hletter 82 (by decide), hletter 87 (by decide), hletter 69 (by decide)]
  rfl

theorem VmsDate.starts (date : VmsDate) (rest : Bytes) : Starts (date.text ++ rest) := by
  have hne : date.dayText ≠ [] := by simp [VmsDate.dayText]
  rw [VmsDate.text, List.append_assoc]
  exact date.dayText_plain.starts hne _

theorem vmsFields_entry {host : Host} (hhost : KnowsVmsDates host) (e : VmsEntry)
    (fle : GftpFile) (tail : Bytes) :
    ∃ out, vmsFields host fle (e.fields ++ 0 :: tail) = pure out ∧ out.file = fle.file ∧
      out.stMode = e.permissions := by
  have hsplit : e.fields ++ 0 :: tail = e.size ++ (e.afterSize ++ (e.date.text ++ (e.afterDate ++
      (91 :: (e.owner ++ 93 :: (e.afterOwner ++ (e.protection ++ 0 :: tail))))))) := by
    simp [VmsEntry.fields]
  have hsize : gftpParseFileSize (e.fields ++ 0 :: tail) =
      .ok (strtol (cstr (e.fields ++ 0 :: tail))) := by
    rw [gftpParseFileSize, textAt, if_pos (by simp)]
    rfl
  have hdate : gotoNextToken (e.fields ++ 0 :: tail) = .ok (e.date.text ++ (e.afterDate ++
      (91 :: (e.owner ++ 93 :: (e.afterOwner ++ (e.protection ++ 0 :: tail)))))) := by
    rw [hsplit]
    exact gotoNextToken_word e.size_plain.1 e.afterSize_gap.1 e.afterSize_gap.2
      (e.date.starts _)
  obtain ⟨t, htime⟩ := parseVmsTime_date hhost e.date e.afterDate_gap.1 e.afterDate_gap.2
    (starts_cons (b := 91) (by decide)
      (e.owner ++ 93 :: (e.afterOwner ++ (e.protection ++ 0 :: tail)))) (by simp)
  have howner : findByte 93 (91 :: (e.owner ++ 93 :: (e.afterOwner ++ (e.protection ++ 0 :: tail)))) =
      .ok (some (93 :: (e.afterOwner ++ (e.protection ++ 0 :: tail)))) := by
    rw [← List.cons_append]
    refine findByte_first ?_ ?_ _
    · simp [e.owner_text.2]
    · simp [e.owner_text.1]
  have hgap : gotoNextToken (e.afterOwner ++ (e.protection ++ 0 :: tail)) =
      .ok (e.protection ++ 0 :: tail) :=
    gotoNextToken_gap e.afterOwner_gap.1 e.afterOwner_gap.2 (starts_cons (by decide) _)
  have hsystem : findByte 44 (e.protection ++ 0 :: tail) = .ok (some (44 :: (e.user ++ 44 ::
      (e.group ++ 44 :: (e.world ++ 41 :: e.ending ++ 0 :: tail))))) := by
    have hrest : e.protection ++ 0 :: tail = 40 :: e.system ++ 44 :: (e.user ++ 44 ::
        (e.group ++ 44 :: (e.world ++ 41 :: e.ending ++ 0 :: tail))) := by
      simp [VmsEntry.protection]
    rw [hrest]
    refine findByte_first ?_ ?_ _
    · rw [List.mem_cons, not_or]
      exact ⟨by decide, fun h => (e.system_text 44 h).2.1 rfl⟩
    · rw [List.mem_cons, not_or]
      exact ⟨by decide, fun h => (e.system_text 0 h).1 rfl⟩
  have huser := attribs_field e.user_text
    (show 0 ∈ e.group ++ 44 :: (e.world ++ 41 :: e.ending ++ 0 :: tail) by simp) 0o700
  have hgroup := attribs_field e.group_text
    (show 0 ∈ e.world ++ 41 :: e.ending ++ 0 :: tail by simp) 0o070
  have hworld := attribs_last e.world_text e.ending_text tail 0o007
  unfold vmsFields
  simp only [hsize, hdate, htime, deref, howner, hgap, hsystem, huser, hgroup, hworld,
    Parse.read_bind, List.drop_one, List.tail_cons]
  rw [(fieldBits_mask e.user).1, (fieldBits_mask e.group).2.1, (fieldBits_mask e.world).2.2,
    if_neg (not_not.mpr rfl)]
  exact ⟨_, rfl, rfl, rfl⟩

theorem vmsFields_end {host : Host} (hhost : KnowsVmsDates host) (fle : GftpFile)
    (tail : Bytes) : vmsFields host fle (0 :: tail) = throw .fatal := by
  have htoken : gotoNextToken (0 :: tail) = .ok (0 :: tail) :=
    @gotoNextToken_last [] (by simp [Plain]) tail
  have hsize : gftpParseFileSize (0 :: tail) = .ok (strtol []) := by
    rw [gftpParseFileSize, show textAt (0 :: tail) = .ok [] from @textAt_text [] (by simp) tail]
    rfl
  obtain ⟨t, htime⟩ := @parseVmsTime_text _ hhost.inside [] (by simp) tail
  rw [List.suffix_nil.mp (behindVmsTime_suffix host []), List.nil_append] at htime
  unfold vmsFields
  simp only [hsize, htoken, htime, deref, Parse.read_bind]
  rfl

theorem VmsEntry.fields_start (e : VmsEntry) (rest : Bytes) : Starts (e.fields ++ rest) := by
  simp only [VmsEntry.fields, List.append_assoc]
  exact e.size_plain.1.starts e.size_plain.2 _

theorem VmsEntry.fields_nul_free (e : VmsEntry) : 0 ∉ e.fields := by
  have htext {field : Bytes} (h : FieldText field) : 0 ∉ field := fun hmem => (h 0 hmem).1 rfl
  have hending : 0 ∉ e.ending := fun h => absurd (e.ending_text 0 h) (by decide)
  simp [VmsEntry.fields, VmsEntry.protection, e.size_plain.1.nul_free, e.date.nul_free,
    e.afterSize_gap.1.nul_free, e.afterDate_gap.1.nul_free, e.afterOwner_gap.1.nul_free,
    e.owner_text.1, htext e.system_text, htext e.user_text, htext e.group_text,
    htext e.world_text, hending]

/-- Where the fields of an entry stand: behind the version, or on the next line. -/
inductive VmsLayout where
  | oneLine (gap : Bytes)
  | twoLines (lead : Bytes)

def VmsLayout.WellFormed : VmsLayout → Prop
  | .oneLine gap => Gap gap ∧ gap ≠ []
  | .twoLines lead => Gap lead

def VmsLayout.isTwoLines : VmsLayout → Prop
  | .oneLine _ => False
  | .twoLines _ => True

def VmsEntry.firstLine (e : VmsEntry) : VmsLayout → Bytes
  | .oneLine gap => e.name ++ 59 :: e.version ++ gap ++ e.fields
  | .twoLines _ => e.name ++ 59 :: e.version

/-- The next line that is read is the second line of the entry, if it has one. -/
def GivesSecondLine {γ : Type} (nextLine : Option (NextLine γ)) (reader : γ) (e : VmsEntry) :
    VmsLayout → Prop
  | .oneLine _ => True
  | .twoLines lead => ∃ next n reader', nextLine = some next ∧
      next reader = .ok ((.ok (n + 1), lead ++ e.fields), reader')

/-- What the parser is to return for an entry. -/
def VmsRead {γ : Type} (e : VmsEntry) (out : CRun (Except GftpError GftpFile × γ)) : Prop :=
  ∃ fle reader, out = .ok (.ok fle, reader) ∧ (fle.stMode &&& sIfdir = sIfdir ↔ e.isDirectory) ∧
    fle.stMode &&& 0o777 = e.permissions ∧ fle.file = some e.shownName

section Entry

variable {γ : Type} {host : Host} {nextLine : Option (NextLine γ)} {reader : γ}

/-- The semicolon of an entry is the first one of its line. -/
theorem parseLsVms_eq (e : VmsEntry) (rest tail : Bytes) (hrest : 0 ∉ rest) :
    gftpParseLsVms host nextLine reader (e.name ++ 59 :: rest ++ 0 :: tail) =
      if 32 ∈ e.name ++ 59 :: rest then
        oneLine reader do
          let curpos ← gotoNextToken (rest ++ 0 :: tail)
          vmsFields host (vmsName e.name) curpos
      else vmsSecondLine host (vmsName e.name) nextLine reader := by
  have hnul : 0 ∉ e.name ++ 59 :: rest := by
    simp only [List.mem_append, List.mem_cons, not_or]
    exact ⟨e.name_text.1, by decide, hrest⟩
  have hname : (e.name ++ 59 :: rest).takeWhile (· ≠ 59) = e.name := by
    rw [List.takeWhile_append_of_pos fun b hb => by
      simpa using ne_of_mem_of_not_mem hb e.name_text.2]
    simp
  rw [parseLsVms_text host nextLine reader hnul, if_pos (by simp), hname,
    behindByte_append e.name_text.2]

theorem parseLsVms_fields (hhost : KnowsVmsDates host) (e : VmsEntry) {layout : VmsLayout}
    (hlayout : layout.WellFormed) (hnext : GivesSecondLine nextLine reader e layout)
    (hblank : layout.isTwoLines → 32 ∉ e.name) (tail : Bytes) :
    ∃ fle reader', gftpParseLsVms host nextLine reader (e.firstLine layout ++ 0 :: tail) =
        .ok (.ok fle, reader') ∧ fle.file = (vmsName e.name).file ∧
      fle.stMode = e.permissions := by
  cases layout with
  | oneLine gap =>
    obtain ⟨fle, hfields, hfile, hmode⟩ := vmsFields_entry hhost e (vmsName e.name) tail
    have hnul : 0 ∉ e.version ++ gap ++ e.fields := by
      simp only [List.mem_append, not_or]
      exact ⟨⟨e.version_plain.nul_free, hlayout.1.nul_free⟩, e.fields_nul_free⟩
    have htoken : gotoNextToken (e.version ++ gap ++ e.fields ++ 0 :: tail) =
        .ok (e.fields ++ 0 :: tail) := by
      rw [List.append_assoc, List.append_assoc]
      exact gotoNextToken_word e.version_plain hlayout.1 hlayout.2 (e.fields_start _)
    refine ⟨fle, reader, ?_, hfile, hmode⟩
    have hline : e.firstLine (.oneLine gap) ++ 0 :: tail =
        e.name ++ 59 :: (e.version ++ gap ++ e.fields) ++ 0 :: tail := by
      simp [VmsEntry.firstLine]
    rw [hline, parseLsVms_eq e _ tail hnul, if_pos (by simp [VmsEntry.fields, VmsDate.text]),
      oneLine, htoken, Parse.read_bind, hfields]
    rfl
  | twoLines lead =>
    obtain ⟨next, n, reader', rfl, hread⟩ := hnext
    obtain ⟨fle, hfields, hfile, hmode⟩ := vmsFields_entry hhost e (vmsName e.name) []
    refine ⟨fle, reader', ?_, hfile, hmode⟩
    have hnot : 32 ∉ e.name ++ 59 :: e.version := by
      simp only [List.mem_append, List.mem_cons, not_or]
      exact ⟨hblank trivial, by decide, e.version_plain.no_blank⟩
    rw [VmsEntry.firstLine, parseLsVms_eq e _ tail e.version_plain.nul_free, if_neg hnot]
    have hskip : skipWhile isBlank (lead ++ e.fields ++ [0]) = .ok (e.fields ++ [0]) := by
      rw [List.append_assoc]
      exact skip_gap hlayout (e.fields_start _)
    unfold vmsSecondLine
    simp only [hread, CRun.ok_bind, oneLine, hskip, Parse.read_bind, hfields]
    rfl

/-- On a line of its own a name with a blank hides the next line. -/
theorem parseLsVms_blank (hhost : KnowsVmsDates host) (e : VmsEntry) {layout : VmsLayout}
    (htwo : layout.isTwoLines) (hblank : 32 ∈ e.name) (tail : Bytes) :
    gftpParseLsVms host nextLine reader (e.firstLine layout ++ 0 :: tail) =
      .ok (.error .fatal, reader) := by
  cases layout with
  | oneLine gap => exact htwo.elim
  | twoLines lead =>
    rw [VmsEntry.firstLine, parseLsVms_eq e _ tail e.version_plain.nul_free,
      if_pos (List.mem_append_left _ hblank), oneLine, gotoNextToken_last e.version_plain,
      Parse.read_bind, vmsFields_end hhost]
    rfl

/-- The permissions leave room for the kind of an entry. -/
theorem fieldBits_le (field : Bytes) :
    fieldBits field 0o400 0o200 0o100 &&& 0o777 = fieldBits field 0o400 0o200 0o100 ∧
      fieldBits field 0o040 0o020 0o010 &&& 0o777 = fieldBits field 0o040 0o020 0o010 ∧
      fieldBits field 0o004 0o002 0o001 &&& 0o777 = fieldBits field 0o004 0o002 0o001 := by
  unfold fieldBits
  split_ifs <;> decide

theorem permissions_mask (e : VmsEntry) : e.permissions &&& 0o777 = e.permissions := by
  unfold VmsEntry.permissions
  rw [Nat.and_or_distrib_right, Nat.and_or_distrib_right, (fieldBits_le e.user).1,
    (fieldBits_le e.group).2.1, (fieldBits_le e.world).2.2]

theorem permissions_no_dir (e : VmsEntry) : e.permissions &&& sIfdir ≠ sIfdir := by
  rw [← permissions_mask, Nat.and_assoc, show 0o777 &&& sIfdir = 0 from rfl, Nat.and_zero]
  decide

theorem vmsName_plain {name : Bytes} (h : ¬ ascii ".DIR" <:+ name) :
    (vmsName name).file = some name := by
  have hdrop : ¬ (4 < name.length ∧ name.drop (name.length - 4) = ascii ".DIR") := fun hdir =>
    h (hdir.2 ▸ List.drop_suffix _ name)
  rw [vmsName, if_neg hdrop]

/-- An entry is read as it was written when it is not the one of a directory, and has no blank
in its name if it has two lines. -/
theorem vms_entry_iff (hhost : KnowsVmsDates host) (e : VmsEntry) {layout : VmsLayout}
    (hlayout : layout.WellFormed) (hnext : GivesSecondLine nextLine reader e layout)
    (tail : Bytes) :
    VmsRead e (gftpParseLsVms host nextLine reader (e.firstLine layout ++ 0 :: tail)) ↔
      ¬ e.isDirectory ∧ (layout.isTwoLines → 32 ∉ e.name) := by
  by_cases hblank : layout.isTwoLines → 32 ∉ e.name
  · obtain ⟨fle, reader', hread, hfile, hmode⟩ :=
      parseLsVms_fields hhost e hlayout hnext hblank tail
    unfold VmsRead
    rw [hread]
    constructor
    · rintro ⟨fle', _, heq, hdir, -, -⟩
      obtain ⟨h, -⟩ := Prod.mk.inj (Except.ok.inj heq)
      cases h
      rw [hmode] at hdir
      exact ⟨fun h => permissions_no_dir e (hdir.mpr h), hblank⟩
    · rintro ⟨hdir, -⟩
      refine ⟨fle, reader', rfl, ?_, ?_, ?_⟩
      · rw [hmode]
        exact iff_of_false (permissions_no_dir e) hdir
      · rw [hmode, permissions_mask]
      · rw [hfile, VmsEntry.shownName, if_neg hdir, vmsName_plain hdir]
  · obtain ⟨htwo, hin⟩ := not_forall.mp hblank
    unfold VmsRead
    rw [parseLsVms_blank hhost e htwo (not_not.mp hin)]
    constructor
    · rintro ⟨_, _, heq, -⟩
      cases (Prod.mk.inj (Except.ok.inj heq)).1
    · rintro ⟨-, h⟩
      exact absurd h hblank

end Entry

/-- A host that knows the date of one listing. -/
def august : Host where
  strptime format s tm :=
    if format = ascii "%d-%b-%Y %H:%M" ∧ (ascii "21-AUG-2002 20:06 ").isPrefixOf s then
      ({ tm with min := 6, hour := 20, mday := 21, mon := 7, year := 102 }, some 17)
    else (tm, none)
  mktime tm := if tm.year = 102 then 1029960360 else -1
  localtime _ := Tm.zero
  time := 0
  unknown := ascii "unknown"

/-- A word in front of a blank is the same in every text that starts with it. -/
theorem word_eq {word word' rest rest' : Bytes} {b b' : UInt8} (h : Plain word)
    (h' : Plain word') (hb : isBlank b = true) (hb' : isBlank b' = true)
    (heq : word ++ b :: rest = word' ++ b' :: rest') : word = word' ∧ rest = rest' := by
  have htake {w r : Bytes} {c : UInt8} (hw : Plain w) (hc : isBlank c = true) :
      (w ++ c :: r).takeWhile (fun x => !isBlank x) = w := by
    rw [List.takeWhile_append_of_pos fun x hx => by simp [hw x hx]]
    simp [hc]
  have hword : word = word' := by rw [← htake h hb, heq, htake h' hb']
  subst hword
  exact ⟨rfl, List.tail_eq_of_cons_eq (List.append_cancel_left heq)⟩

theorem august_knows : KnowsVmsDates august where
  reads_date date b rest tm hb := by
    have hfirst : (august.strptime (ascii "%d-%b-%Y %H:%M:%S") (date.text ++ b :: rest) tm).2 =
        none := by
      simp only [august]
      rw [if_neg fun h => absurd h.1 (by decide)]
    refine Or.inr ⟨hfirst, fun tm' => ?_⟩
    simp only [august]
    split_ifs with h
    · right
      obtain ⟨more, hmore⟩ := List.isPrefixOf_iff_prefix.mp h.2
      rw [VmsDate.text, List.append_assoc, List.cons_append] at hmore
      obtain ⟨hday, hrest⟩ := @word_eq (ascii "21-AUG-2002") _ (ascii "20:06 " ++ more) _ 32 32
        (by decide) date.dayText_plain (by decide) (by decide) hmore
      obtain ⟨htime, -⟩ := @word_eq (ascii "20:06") _ more _ 32 b (by decide)
        date.timeText_plain (by decide) hb hrest
      rw [VmsDate.text, ← hday, ← htime]
      rfl
    · exact Or.inl rfl
  inside format s tm n h := by
    simp only [august] at h
    split_ifs at h with hin
    cases h
    have hle := (List.isPrefixOf_iff_prefix.mp hin.2).length_le
    exact Nat.le_of_succ_le hle

theorem august_text : TwoDigits 1 31 (ascii "21") ∧
    ((ascii "AUG").length = 3 ∧ ∀ b ∈ ascii "AUG", isAlpha b = true) ∧
    ((ascii "2002").length = 4 ∧ ∀ b ∈ ascii "2002", isDigit b = true) ∧
    TwoDigits 0 23 (ascii "20") ∧ TwoDigits 0 59 (ascii "06") := by
  decide

theorem no_seconds : ∀ t ∈ (none : Option Bytes), TwoDigits 0 59 t := by
  intro t h
  cases h

/-- 21-AUG-2002 20:06 -/
def augustDate : VmsDate :=
  ⟨ascii "21", ascii "AUG", ascii "2002", ascii "20", ascii "06", none, august_text.1,
    august_text.2.1, august_text.2.2.1, august_text.2.2.2.1, august_text.2.2.2.2, no_seconds⟩

theorem vms_text : (0 ∉ ascii "A.TXT" ∧ 59 ∉ ascii "A.TXT") ∧
    (0 ∉ ascii "WWW.DIR" ∧ 59 ∉ ascii "WWW.DIR") ∧ Plain (ascii "1") ∧
    (Plain (ascii "9") ∧ ascii "9" ≠ []) ∧ (0 ∉ ascii "MYERSRG" ∧ 93 ∉ ascii "MYERSRG") ∧
    (Gap (ascii " ") ∧ ascii " " ≠ []) := by
  decide

theorem vms_fieldText : FieldText (ascii "RWED") ∧ FieldText (ascii "RE") ∧ FieldText [] := by
  simp only [FieldText]
  decide

theorem no_ending : Ending [] := by
  simp [Ending]

/-- A.TXT;1 of nine blocks, which the group may read and execute. -/
def textFile : VmsEntry where
  name := ascii "A.TXT"
  version := ascii "1"
  size := ascii "9"
  date := augustDate
  owner := ascii "MYERSRG"
  system := ascii "RWED"
  user := ascii "RWED"
  group := ascii "RE"
  world := []
  afterSize := ascii " "
  afterDate := ascii " "
  afterOwner := ascii " "
  ending := []
  name_text := vms_text.1
  version_plain := vms_text.2.2.1
  size_plain := vms_text.2.2.2.1
  owner_text := vms_text.2.2.2.2.1
  system_text := vms_fieldText.1
  user_text := vms_fieldText.1
  group_text := vms_fieldText.2.1
  world_text := vms_fieldText.2.2
  afterSize_gap := vms_text.2.2.2.2.2
  afterDate_gap := vms_text.2.2.2.2.2
  afterOwner_gap := vms_text.2.2.2.2.2
  ending_text := no_ending

/-- The same fields on a directory. -/
def directory : VmsEntry :=
  { textFile with name := ascii "WWW.DIR", name_text := vms_text.2.1 }

/-- An entry over two lines. -/
theorem text_file_read :
    VmsRead textFile (gftpParseLsVms august
      (some fun line : Bytes => .ok ((.ok line.length, line), []))
      textFile.fields (textFile.firstLine (.twoLines []) ++ [0])) := by
  have hlead : VmsLayout.WellFormed (.twoLines []) := by simp [VmsLayout.WellFormed, Gap]
  refine (vms_entry_iff august_knows textFile hlead ?_ []).mpr ⟨by decide, fun _ => by decide⟩
  exact ⟨_, textFile.fields.length - 1, [], rfl, rfl⟩

/-- The entry of a directory is one of a plain file with the same permissions. -/
theorem directory_lost :
    ¬ VmsRead directory (gftpParseLsVms august (none : Option (NextLine Unit)) ()
      (directory.firstLine (.oneLine (ascii " ")) ++ [0])) := by
  have hrun : gftpParseLsVms august (none : Option (NextLine Unit)) ()
      (directory.firstLine (.oneLine (ascii " ")) ++ [0]) =
        .ok (.ok ⟨some (ascii "WWW"), some [], some [], 4608, 1029960360, 0o750⟩, ()) := by
    rfl
  rw [hrun]
  rintro ⟨fle, _, heq, hdir, -, -⟩
  cases (Prod.mk.inj (Except.ok.inj heq)).1
  exact absurd (hdir.mpr (by decide)) (by decide)

end Gftp.VmsListing
