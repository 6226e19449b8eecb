import Gftp.ListingSafety
import Gftp.UnixLines

/-!
gftp_parse_ls_unix on the lines of ls -l. Columns are found from the left as long as the
line has nine of them in front of its first colon, the form of the date is told from the
whole rest of the line, and the name of a link ends at the first arrow.
-/

namespace Gftp.UnixListing

open ByteStrings TextPointers Decimal Protocol ListingParsers ListingFields SafeRuns
  ListingSafety UnixLines

section Names

def arrow : Bytes := ascii "->"

/-- The place of the first arrow. -/
def arrowAt : Bytes → Option ℕ
  | [] => none
  | b :: t => if arrow.isPrefixOf (b :: t) then some 0 else (arrowAt t).map (· + 1)

/-- The name that is made of the last columns. -/
def shownName (stMode : ℕ) (t : Bytes) : Bytes :=
  if stMode &&& sIfmt = sIflnk then
    match arrowAt t with
    | none => t
    | some off => if off = 0 then t else t.take (off - 1)
  else t

theorem arrow_cons (b c : UInt8) (t : Bytes) :
    arrow.isPrefixOf (b :: c :: t) = (45 == b && 62 == c) := by
  simp [arrow, ascii, List.isPrefixOf]

theorem arrow_one (b : UInt8) : arrow.isPrefixOf [b] = false := by
  simp [arrow, ascii, List.isPrefixOf]

/-- No arrow reaches over the end of a text. -/
theorem arrow_end {c : UInt8} (hc : c ≠ 62) (b : UInt8) (t rest : Bytes) :
    arrow.isPrefixOf (b :: t ++ c :: rest) = arrow.isPrefixOf (b :: t) := by
  cases t with
  | nil =>
    rw [List.singleton_append, arrow_cons, arrow_one, beq_false_of_ne (Ne.symm hc), Bool.and_false]
  | cons d t => rw [List.cons_append, List.cons_append, arrow_cons, arrow_cons]

theorem findText_arrow {t : Bytes} (ht : 0 ∉ t) (rest : Bytes) :
    findText arrow (t ++ 0 :: rest) =
      .ok ((arrowAt t).map fun off => t.drop off ++ 0 :: rest) := by
  induction t with
  | nil =>
    cases rest with
    | nil => rfl
    | cons b rest => rfl
  | cons b t ih =>
    rw [List.mem_cons, not_or] at ht
    have hend := @arrow_end 0 (by decide) b t rest
    rw [List.cons_append] at hend
    rw [List.cons_append, findText, hend, arrowAt]
    by_cases hb : arrow.isPrefixOf (b :: t) = true
    · rw [if_pos hb, if_pos hb]
      rfl
    · rw [if_neg hb, if_neg hb, if_neg (Ne.symm ht.1), ih ht.2]
      cases arrowAt t <;> rfl

theorem arrowAt_le {t : Bytes} {off : ℕ} (h : arrowAt t = some off) : off + 2 ≤ t.length := by
  induction t generalizing off with
  | nil => cases h
  | cons b t ih =>
    rw [arrowAt] at h
    split_ifs at h with hb
    · cases h
      exact (List.isPrefixOf_iff_prefix.mp hb).length_le
    · obtain ⟨off, hoff, rfl⟩ := Option.map_eq_some_iff.mp h
      have hle := ih hoff
      rw [List.length_cons]
      omega

theorem unixName_text (stMode : ℕ) {t : Bytes} (ht : 0 ∉ t) (rest : Bytes) :
    unixName stMode (t ++ 0 :: rest) = .ok (shownName stMode t) := by
  unfold unixName shownName
  rw [textAt_text ht, CRun.ok_bind]
  split_ifs with hlink
  · rw [show ascii "->" = arrow from rfl, findText_arrow ht, CRun.ok_bind]
    rcases h : arrowAt t with _ | off
    · rfl
    · have hle := arrowAt_le h
      have hoff : (t ++ 0 :: rest).length - (t.drop off ++ 0 :: rest).length = off := by
        simp only [List.length_append, List.length_drop]
        omega
      simp only [Option.map_some, hoff]
      rfl
  · rfl

/-- The first arrow of a text is the first one whatever follows. -/
theorem arrowAt_append {u : Bytes} {off : ℕ} (h : arrowAt u = some off) (v : Bytes) :
    arrowAt (u ++ v) = some off := by
  induction u generalizing off with
  | nil => cases h
  | cons b u ih =>
    rw [arrowAt] at h
    rw [List.cons_append, arrowAt]
    split_ifs at h with hb
    · have hprefix := (List.isPrefixOf_iff_prefix.mp hb).trans (List.prefix_append (b :: u) v)
      rw [← List.cons_append, if_pos (List.isPrefixOf_iff_prefix.mpr hprefix), h]
    · obtain ⟨off, hoff, rfl⟩ := Option.map_eq_some_iff.mp h
      cases u with
      | nil => cases hoff
      | cons c u =>
        rw [arrow_cons] at hb
        rw [List.cons_append, arrow_cons, if_neg hb, ← List.cons_append, ih hoff]
        rfl

/-- The arrow behind a name without one. -/
theorem arrowAt_behind {u : Bytes} (h : arrowAt u = none) (v : Bytes) :
    arrowAt (u ++ 32 :: (arrow ++ v)) = some (u.length + 1) := by
  induction u with
  | nil => rfl
  | cons b u ih =>
    rw [arrowAt] at h
    split_ifs at h with hb
    rw [List.cons_append, arrowAt]
    have hend := @arrow_end 32 (by decide) b u (arrow ++ v)
    rw [List.cons_append] at hend
    rw [hend, if_neg hb, ih (by simpa using h)]
    rfl

/-- The places of the arrows in terms of the text. -/
theorem arrowAt_none_iff (t : Bytes) : arrowAt t = none ↔ ¬ arrow <:+: t := by
  induction t with
  | nil => exact iff_of_true rfl (by decide)
  | cons b t ih =>
    rw [arrowAt, List.infix_cons_iff, not_or, ← ih, ← List.isPrefixOf_iff_prefix]
    split_ifs with hb
    · simp [hb]
    · simp [hb]

theorem arrowAt_zero_iff (t : Bytes) : arrowAt t = some 0 ↔ arrow <+: t := by
  cases t with
  | nil => exact iff_of_false (by simp [arrowAt]) (by decide)
  | cons b t =>
    rw [arrowAt, ← List.isPrefixOf_iff_prefix]
    split_ifs with hb
    · simp [hb]
    · simp [hb]

/-- A name and the target of a link. -/
def nameText (name : Bytes) : Option Bytes → Bytes
  | none => name
  | some target => name ++ 32 :: (arrow ++ 32 :: target)

/-- The name is cut at the arrow in front of the target when it has none itself. -/
theorem shownName_link_iff {stMode : ℕ} (hlink : stMode &&& sIfmt = sIflnk) (name : Bytes)
    (target : Option Bytes) :
    shownName stMode (nameText name target) = name ↔
      ¬ arrow <:+: name ∨ target = none ∧ arrow <+: name := by
  rw [shownName, if_pos hlink, ← arrowAt_none_iff, ← arrowAt_zero_iff]
  have hcut {off : ℕ} (h : arrowAt name = some off) (v : Bytes) :
      (name ++ v).take (off - 1) ≠ name := by
    intro heq
    have hle := arrowAt_le h
    have hlen := congrArg List.length heq
    rw [List.length_take] at hlen
    omega
  rcases hname : arrowAt name with _ | off
  · refine iff_of_true ?_ (Or.inl rfl)
    cases target with
    | none => rw [nameText, hname]
    | some target =>
      rw [nameText, arrowAt_behind hname]
      dsimp only
      rw [if_neg (Nat.succ_ne_zero _), Nat.add_sub_cancel, List.take_left]
  · cases target with
    | none =>
      rw [nameText, hname]
      dsimp only
      split_ifs with hoff
      · simp [hoff]
      · have hne := hcut hname []
        rw [List.append_nil] at hne
        simp [hne, hoff]
    | some target =>
      rw [nameText, arrowAt_append hname]
      dsimp only
      split_ifs with hoff
      · simp
      · simp [hcut hname]

theorem shownName_other {stMode : ℕ} (hlink : stMode &&& sIfmt ≠ sIflnk) (t : Bytes) :
    shownName stMode t = t := by
  rw [shownName, if_neg hlink]

end Names

/-- A line of ls -l. The eleventh byte is the blank behind the attributes, a mark, or the first
digit of the link count. -/
structure UnixLine where
  attribs : Attribs
  mark : UInt8
  lead : Bytes
  links : Bytes
  afterLinks : Bytes
  user : Bytes
  afterUser : Bytes
  group : Bytes
  afterGroup : Bytes
  size : SizeField
  afterSize : Bytes
  form : DateForm
  date : Bytes
  afterDate : Bytes
  name : Bytes
  target : Option Bytes
  mark_blank : mark ≠ 0 ∧ ∀ b ∈ lead, b = 32
  links_plain : Plain links ∧ links ≠ []
  user_plain : Plain user ∧ user ≠ []
  group_plain : Plain group ∧ group ≠ []
  size_kind : size.WellFormed ∧ size.isDevice = attribs.kind.isDevice
  date_text : DateText form date
  name_start : 0 ∉ name ∧ Starts name
  target_link : ∀ t, target = some t → 0 ∉ t ∧ attribs.kind = .link
  gaps : Spaces afterLinks ∧ Spaces afterUser ∧ Spaces afterGroup ∧ Spaces afterSize ∧
    Spaces afterDate

namespace UnixLine

variable (l : UnixLine)

/-- The line from its date on. -/
def dateText : Bytes := l.date ++ l.afterDate ++ nameText l.name l.target

/-- The line from its size on. -/
def sizeText : Bytes := l.size.text ++ l.afterSize ++ l.dateText

def columns : Bytes :=
  l.lead ++ l.links ++ l.afterLinks ++ l.user ++ l.afterUser ++ l.group ++ l.afterGroup ++
    l.sizeText

def text : Bytes := l.attribs.text ++ l.mark :: l.columns

/-- The line with a blank for its eleventh byte. -/
def cutText : Bytes := l.attribs.text ++ 32 :: l.columns

/-- What the columns of the line say. -/
def entry (host : Host) : GftpFile where
  file := some l.name
  user := some l.user
  group := some l.group
  size := l.size.value
  datetime := host.mktime (dateTm host l.form l.date)
  stMode := l.attribs.mode

/-- The lines whose columns are found where they are. -/
structure Readable : Prop where
  kind : l.attribs.kind ≠ .fifo
  exec : l.attribs.other.exec ≠ .both
  columns : 9 ≤ columnsOf l.cutText
  minor : l.size.minorFits
  date : l.form = .year → 58 ∉ nameText l.name l.target
  name : l.attribs.kind = .link → ¬ arrow <:+: l.name ∨ l.target = none ∧ arrow <+: l.name

end UnixLine

section Reading

variable {host : Host} (l : UnixLine)

theorem nameText_start : Starts (nameText l.name l.target) := by
  obtain ⟨-, b, t, hname, hb⟩ := l.name_start
  cases l.target with
  | none => exact ⟨b, t, hname, hb⟩
  | some target =>
    refine ⟨b, t ++ 32 :: (arrow ++ 32 :: target), ?_, hb⟩
    rw [nameText, hname, List.cons_append]

theorem nameText_nul_free : 0 ∉ nameText l.name l.target := by
  rcases h : l.target with _ | target
  · exact l.name_start.1
  · simp [nameText, arrow, ascii, l.name_start.1, (l.target_link target h).1]

theorem dateText_nul_free : 0 ∉ l.dateText := by
  simp [UnixLine.dateText, l.date_text.nul_free, l.gaps.2.2.2.2.nul_free, nameText_nul_free l]

theorem columns_nul_free : 0 ∉ l.columns := by
  have hlead : 0 ∉ l.lead := fun h => absurd (l.mark_blank.2 0 h) (by decide)
  simp [UnixLine.columns, UnixLine.sizeText, hlead, SizeField.nul_free l.size_kind.1,
    l.links_plain.1.nul_free, l.user_plain.1.nul_free, l.group_plain.1.nul_free,
    l.gaps.1.nul_free, l.gaps.2.1.nul_free, l.gaps.2.2.1.nul_free, l.gaps.2.2.2.1.nul_free,
    dateText_nul_free l]

theorem access_plain (x : Access) {lower upper : UInt8}
    (hlower : lower ≠ 0 ∧ isBlank lower = false) (hupper : upper ≠ 0 ∧ isBlank upper = false) :
    Plain (x.text lower upper) := by
  obtain ⟨read, write, exec⟩ := x
  have hplain : isBlank 45 = false ∧ isBlank 114 = false ∧ isBlank 119 = false ∧
      isBlank 120 = false := by decide
  cases read <;> cases write <;> cases exec <;> simp [Access.text, Plain, hlower, hupper, hplain]

theorem attribs_plain (a : Attribs) : Plain a.text := by
  have hkind : a.kind.byte ≠ 0 ∧ isBlank a.kind.byte = false := by
    cases a.kind <;> decide
  intro b hb
  rw [Attribs.text, List.mem_cons, List.mem_append, List.mem_append] at hb
  rcases hb with rfl | (hb | hb) | hb
  · exact hkind
  · exact access_plain a.user (by decide) (by decide) b hb
  · exact access_plain a.group (by decide) (by decide) b hb
  · exact access_plain a.other (by decide) (by decide) b hb

theorem size_starts (size : SizeField) (rest : Bytes) : Starts (size.text ++ rest) := by
  have hdigits (n : ℕ) (rest : Bytes) : Starts (natDigits n ++ rest) := by
    refine Plain.starts (fun b hb => ?_) (natDigits_ne_nil n) rest
    have hdigit := natDigits_all n b hb
    constructor
    · rintro rfl
      exact absurd hdigit (by decide)
    · by_contra hblank
      grind [isBlank, isDigit]
  cases size with
  | plain size => exact hdigits size rest
  | device major gap minor =>
    rw [SizeField.text, List.append_assoc]
    exact hdigits major _

/-- Behind the attributes the parser is at the link count. -/
theorem parse_columns (cray : Bool) (tail : Bytes) :
    gftpParseLsUnix host cray (l.text ++ 0 :: tail) l.text.length =
      unixColumns host cray (columnsOf l.cutText) (l.cutText ++ 0 :: tail) l.attribs.text
        (l.links ++ (l.afterLinks ++ (l.user ++ (l.afterUser ++ (l.group ++ (l.afterGroup ++
          (l.sizeText ++ 0 :: tail))))))) := by
  have hlong : 10 < l.text.length := by
    rw [UnixLine.text, List.length_append, l.attribs.text_length, List.length_cons]
    omega
  have hcut : cutAttribs (l.text ++ 0 :: tail) l.text.length = .ok (l.cutText ++ 0 :: tail) := by
    have hoverwrite := cutAttribs_eq l.attribs.text_length l.mark (l.columns ++ 0 :: tail) hlong
    rwa [← List.cons_append, ← List.append_assoc, ← List.cons_append, ← List.append_assoc]
      at hoverwrite
  have hnul : 0 ∉ l.cutText := by
    simp [UnixLine.cutText, (attribs_plain l.attribs).nul_free, columns_nul_free l]
  have hstart : ∀ b, l.cutText.head? = some b → isBlank b = false := by
    intro b hb
    exact (attribs_plain l.attribs b (by
      rw [← Option.some.inj hb]
      exact List.mem_cons_self ..)).2
  have hcols : countColumns ((l.cutText ++ 0 :: tail).length + 1) (l.cutText ++ 0 :: tail) =
      .ok (columnsOf l.cutText) :=
    countColumns_text hnul hstart (by rw [List.length_append]; omega) tail
  have hgap : Gap (32 :: l.lead) := by
    intro b hb
    rw [List.mem_cons] at hb
    rcases hb with rfl | hb
    · rfl
    · rw [l.mark_blank.2 b hb]
      rfl
  have hcopy := copyToken_word (attribs_plain l.attribs) hgap (List.cons_ne_nil 32 l.lead)
    (l.links_plain.1.starts l.links_plain.2 (l.afterLinks ++ (l.user ++ (l.afterUser ++ (l.group ++
      (l.afterGroup ++ (l.sizeText ++ 0 :: tail)))))))
  have htext : l.cutText ++ 0 :: tail = l.attribs.text ++ ((32 :: l.lead) ++ (l.links ++
      (l.afterLinks ++ (l.user ++ (l.afterUser ++ (l.group ++ (l.afterGroup ++
        (l.sizeText ++ 0 :: tail)))))))) := by
    simp [UnixLine.cutText, UnixLine.columns]
  rw [gftpParseLsUnix_eq]
  unfold unixParts
  rw [hcut, Parse.read_bind, hcols, Parse.read_bind]
  nth_rewrite 1 [htext]
  rw [hcopy, pure_bind]
  dsimp only
  rw [if_neg (by rw [l.attribs.text_length]; decide)]

theorem owner_columns {cols : ℕ} (hcols : 9 ≤ cols) (tail : Bytes) :
    unixOwner host cols (l.links ++ (l.afterLinks ++ (l.user ++ (l.afterUser ++ (l.group ++
      (l.afterGroup ++ (l.sizeText ++ 0 :: tail))))))) =
      pure (l.user, l.group, l.sizeText ++ 0 :: tail) := by
  obtain ⟨hlinks, huser, hgroup, -, -⟩ := l.gaps
  have hsize : Starts (l.sizeText ++ 0 :: tail) := by
    rw [UnixLine.sizeText, List.append_assoc, List.append_assoc]
    exact size_starts l.size _
  have hbehindUser := l.group_plain.1.starts l.group_plain.2 (l.afterGroup ++
    (l.sizeText ++ 0 :: tail))
  have hbehindLinks := l.user_plain.1.starts l.user_plain.2 (l.afterUser ++ (l.group ++
    (l.afterGroup ++ (l.sizeText ++ 0 :: tail))))
  unfold unixOwner
  rw [if_pos hcols, gotoNextToken_word l.links_plain.1 hlinks.gap hlinks.1 hbehindLinks,
    Parse.read_bind, copyToken_word l.user_plain.1 huser.gap huser.1 hbehindUser, pure_bind]
  dsimp only
  rw [copyToken_word l.group_plain.1 hgroup.gap hgroup.1 hsize]
  rfl

theorem entry_columns (hhost : ReadsInside host) (user group tail : Bytes) :
    unixEntry host l.attribs.readMode user group (l.sizeText ++ 0 :: tail) = pure {
      file := some (shownName l.attribs.readMode (nextToken (timeText host l.dateText).2))
      user := some user
      group := some group
      size := l.size.readValue
      datetime := (timeText host l.dateText).1
      stMode := l.attribs.readMode } := by
  obtain ⟨more, hmore⟩ := l.gaps.2.2.2.1.head
  have hgap : ∀ b ∈ more, b = 32 := fun b hb =>
    l.gaps.2.2.2.1.2 b (hmore ▸ List.mem_cons_of_mem 32 hb)
  have hnul := dateText_nul_free l
  have hbehind : 0 ∉ (timeText host l.dateText).2 :=
    nul_not_mem_suffix (timeText_suffix host l.dateText) hnul
  have hkind : (l.attribs.readMode &&& sIfmt = sIfblk ∨ l.attribs.readMode &&& sIfmt = sIfchr) ↔
      l.size.isDevice = true := by
    rw [l.size_kind.2, l.attribs.readMode_kind]
    cases l.attribs.kind <;> decide
  have hskip : skipWhile (fun b => decide (b = 32)) (more ++ (l.dateText ++ 0 :: tail)) =
      .ok (l.dateText ++ 0 :: tail) := by
    obtain ⟨b, t, hstart, hb⟩ := l.date_text.start (l.afterDate ++ nameText l.name l.target ++
      0 :: tail)
    have hdate : l.dateText ++ 0 :: tail = b :: t := by
      rw [← hstart, UnixLine.dateText, List.append_assoc, List.append_assoc, List.append_assoc]
    rw [hdate]
    exact skipWhile_append (by simpa using hgap) (by simpa using hb) t
  have hsize : l.sizeText ++ 0 :: tail =
      l.size.text ++ 32 :: (more ++ (l.dateText ++ 0 :: tail)) := by
    rw [UnixLine.sizeText, hmore]
    simp
  unfold unixEntry
  rw [hsize, unixSize_field l.size_kind.1 hkind (by simp), pure_bind]
  simp only [List.drop_one, List.tail_cons, hskip, Parse.read_bind, parseTime_text hhost hnul,
    gotoNextToken_text hbehind,
    unixName_text _ (nul_not_mem_suffix (nextToken_suffix _) hbehind)]

theorem parse_line (hhost : ReadsInside host) (hcols : 9 ≤ columnsOf l.cutText) (tail : Bytes) :
    gftpParseLsUnix host false (l.text ++ 0 :: tail) l.text.length = pure {
      file := some (shownName l.attribs.readMode (nextToken (timeText host l.dateText).2))
      user := some l.user
      group := some l.group
      size := l.size.readValue
      datetime := (timeText host l.dateText).1
      stMode := l.attribs.readMode } := by
  rw [parse_columns]
  unfold unixColumns
  rw [Attribs.convert_text, Parse.read_bind, owner_columns l hcols, pure_bind]
  dsimp only
  rw [crayColumns, if_neg (by simp)]
  exact entry_columns l hhost l.user l.group tail

theorem dateText_split (hknows : Knows host l.form l.date)
    (hcolon : ¬ (l.form = .year ∧ 58 ∈ nameText l.name l.target)) :
    (timeText host l.dateText).1 = host.mktime (dateTm host l.form l.date) ∧
      nextToken (timeText host l.dateText).2 = nameText l.name l.target := by
  obtain ⟨more, hmore⟩ := l.gaps.2.2.2.2.head
  have hblanks : ∀ b ∈ more, b = 32 := fun b hb =>
    l.gaps.2.2.2.2.2 b (hmore ▸ List.mem_cons_of_mem 32 hb)
  have htext : l.dateText = l.date ++ 32 :: (more ++ nameText l.name l.target) := by
    rw [UnixLine.dateText, hmore, List.append_assoc, List.cons_append]
  have hrest : ¬ (l.form = .year ∧ 58 ∈ more ++ nameText l.name l.target) := by
    rintro ⟨hyear, hmem⟩
    refine hcolon ⟨hyear, (List.mem_append.mp hmem).resolve_left fun h => ?_⟩
    exact absurd (hblanks 58 h) (by decide)
  rw [htext, timeText_date hknows l.date_text hrest]
  refine ⟨rfl, ?_⟩
  obtain ⟨b, t, hstart, hb⟩ := nameText_start l
  have hgap : ∀ c ∈ more, isBlank c = true := fun c hc => by
    rw [hblanks c hc]
    rfl
  rw [hstart, nextToken, List.dropWhile_cons_of_neg (by decide),
    List.dropWhile_cons_of_pos (by decide), List.dropWhile_append_of_pos hgap,
    List.dropWhile_cons_of_neg (by simp [hb])]

theorem parse_short (hhost : ReadsInside host) (hcols : columnsOf l.cutText < 9) {tail : Bytes}
    {fle : GftpFile}
    (hrun : gftpParseLsUnix host false (l.text ++ 0 :: tail) l.text.length = pure fle) :
    fle.group = some host.unknown := by
  rw [parse_columns] at hrun
  have hstr : 0 ∈ l.cutText ++ 0 :: tail := by simp
  have hstartpos : 0 ∈ l.links ++ (l.afterLinks ++ (l.user ++ (l.afterUser ++ (l.group ++
      (l.afterGroup ++ (l.sizeText ++ 0 :: tail)))))) := by simp
  obtain ⟨r, hret, hr⟩ := unixColumns_answers hhost false (columnsOf l.cutText)
    l.attribs.text_length.ge hstr hstartpos
  rw [hrun] at hret
  exact hr fle (Except.ok.inj hret).symm hcols

/-- The name of a line that is no link has no target. -/
theorem target_none (hkind : l.attribs.kind ≠ .link) : l.target = none := by
  rcases h : l.target with _ | target
  · rfl
  · exact absurd (l.target_link target h).2 hkind

theorem readMode_link : l.attribs.readMode &&& sIfmt = sIflnk ↔ l.attribs.kind = .link := by
  rw [l.attribs.readMode_kind]
  cases l.attribs.kind <;> decide

theorem shownName_iff :
    shownName l.attribs.readMode (nameText l.name l.target) = l.name ↔
      (l.attribs.kind = .link → ¬ arrow <:+: l.name ∨ l.target = none ∧ arrow <+: l.name) := by
  by_cases hkind : l.attribs.kind = .link
  · rw [shownName_link_iff ((readMode_link l).mpr hkind), forall_prop_of_true hkind]
  · rw [shownName_other (fun h => hkind ((readMode_link l).mp h)), target_none l hkind]
    exact iff_of_true rfl fun h => absurd h hkind

end Reading

section Knowing

/-- A host that recognizes the date of one line and nothing else, and whose name for unknown
owners is not the group of that line. -/
def knowing (l : UnixLine) : Host where
  strptime format s tm :=
    (tm, if format = l.form.format ∧ l.date ++ [32] <+: s then some l.date.length else none)
  mktime _ := 1
  localtime _ := Tm.zero
  time := 0
  unknown := l.group ++ [120]

variable (l : UnixLine)

theorem knowing_inside : ReadsInside (knowing l) := by
  intro format s tm n hn
  simp only [knowing] at hn
  split_ifs at hn with h
  cases hn
  have hle := h.2.length_le
  rw [List.length_append] at hle
  omega

theorem knowing_knows : Knows (knowing l) l.form l.date := by
  intro rest
  have hprefix : l.date ++ [32] <+: l.date ++ 32 :: rest := ⟨rest, by simp⟩
  simp [knowing, hprefix]

/-- A colon in the name makes the parser look for a time of day. -/
theorem knowing_date (hform : l.form = .year) (hcolon : 58 ∈ nameText l.name l.target) :
    (timeText (knowing l) l.dateText).1 = 0 := by
  obtain ⟨more, hmore⟩ := l.gaps.2.2.2.2.head
  have htext : l.dateText = l.date ++ 32 :: (more ++ nameText l.name l.target) := by
    rw [UnixLine.dateText, hmore, List.append_assoc, List.cons_append]
  have hclock : formOf l.dateText = .clock := by
    rw [htext, formOf_date l.date_text, if_pos ⟨hform, List.mem_append_right more hcolon⟩]
  have hformat : DateForm.clock.format ≠ l.form.format := by
    rw [hform]
    decide
  have hmatch : (timeMatch (knowing l) l.dateText).2 = none := by
    rw [timeMatch_eq, hclock]
    simp [knowing, hformat]
  unfold timeText
  rcases h : timeMatch (knowing l) l.dateText with ⟨tm, n⟩
  rw [h] at hmatch
  dsimp only at hmatch
  rw [hmatch]

end Knowing

theorem unix_line_iff (l : UnixLine) (tail : Bytes) :
    (∀ host, ReadsInside host → Knows host l.form l.date →
      gftpParseLsUnix host false (l.text ++ 0 :: tail) l.text.length = pure (l.entry host)) ↔
      l.Readable := by
  constructor
  · intro h
    have hrun := h (knowing l) (knowing_inside l) (knowing_knows l)
    have hcols : 9 ≤ columnsOf l.cutText := by
      by_contra hshort
      have hgroup := parse_short l (knowing_inside l) (Nat.not_le.mp hshort) hrun
      have hlen := congrArg List.length (Option.some.inj hgroup)
      simp [knowing] at hlen
    have hline := (parse_line l (knowing_inside l) hcols tail).symm.trans hrun
    have hfle := Except.ok.inj (Except.ok.inj hline)
    obtain ⟨hname, hsize, hdatetime, hmode⟩ :
        shownName l.attribs.readMode (nextToken (timeText (knowing l) l.dateText).2) = l.name ∧
          l.size.readValue = l.size.value ∧ (timeText (knowing l) l.dateText).1 = 1 ∧
          l.attribs.readMode = l.attribs.mode := by
      simpa [UnixLine.entry, knowing] using hfle
    have hdate : ¬ (l.form = .year ∧ 58 ∈ nameText l.name l.target) := by
      rintro ⟨hform, hcolon⟩
      rw [knowing_date l hform hcolon] at hdatetime
      exact absurd hdatetime (by decide)
    rw [(dateText_split l (knowing_knows l) hdate).2, shownName_iff] at hname
    obtain ⟨hkind, hexec⟩ := l.attribs.readMode_eq_iff.mp hmode
    exact {
      kind := hkind
      exec := hexec
      columns := hcols
      minor := l.size.readValue_eq_iff.mp hsize
      date := fun hform hcolon => hdate ⟨hform, hcolon⟩
      name := hname }
  · intro h host hhost hknows
    have hdate : ¬ (l.form = .year ∧ 58 ∈ nameText l.name l.target) :=
      fun hboth => h.date hboth.1 hboth.2
    obtain ⟨hdatetime, hname⟩ := dateText_split l hknows hdate
    rw [parse_line l hhost h.columns, hdatetime, hname, (shownName_iff l).mpr h.name,
      l.attribs.readMode_eq_iff.mpr ⟨h.kind, h.exec⟩, l.size.readValue_eq_iff.mpr h.minor]
    rfl

section Lines

theorem noon_text : DateText .clock (ascii "Jul 06 12:57") :=
  @DateText.clock (ascii "Jul") [32] (ascii "06") [32] (ascii "12") (ascii "57")
    (by decide) (by decide) (by decide) (by decide) (by decide) (by decide)

theorem one_space : Spaces [32] := by decide

theorem root_plain : Plain (ascii "root") ∧ ascii "root" ≠ [] := by decide

theorem links_two : Plain (ascii "2") ∧ ascii "2" ≠ [] := by decide

theorem blank_mark : (32 : UInt8) ≠ 0 ∧ ∀ b ∈ ([] : Bytes), b = 32 := by decide

theorem size_fits : (SizeField.plain 4096).WellFormed := show 4096 < 2 ^ 63 by decide

/-- The line of a file or directory of root. -/
def rootLine (attribs : Attribs) (hkind : attribs.kind.isDevice = false) (name : Bytes)
    (hname : 0 ∉ name ∧ Starts name) : UnixLine where
  attribs := attribs
  mark := 32
  lead := []
  links := ascii "2"
  afterLinks := [32]
  user := ascii "root"
  afterUser := [32]
  group := ascii "root"
  afterGroup := [32]
  size := .plain 4096
  afterSize := [32]
  form := .clock
  date := ascii "Jul 06 12:57"
  afterDate := [32]
  name := name
  target := none
  mark_blank := blank_mark
  links_plain := links_two
  user_plain := root_plain
  group_plain := root_plain
  size_kind := ⟨size_fits, hkind.symm⟩
  date_text := noon_text
  name_start := hname
  target_link _ h := absurd h (Option.some_ne_none _).symm
  gaps := ⟨one_space, one_space, one_space, one_space, one_space⟩

/-- A file with a blank and a colon in its name. -/
theorem plain_line_read :
    ∃ l : UnixLine, l.text = ascii "-rw-r--r-- 2 root root 4096 Jul 06 12:57 notes: a b" ∧
      ∀ host, ReadsInside host → Knows host l.form l.date →
        gftpParseLsUnix host false (l.text ++ [0]) l.text.length = pure (l.entry host) := by
  refine ⟨rootLine ⟨.file, ⟨true, true, .none⟩, ⟨true, false, .none⟩, ⟨true, false, .none⟩⟩ rfl
    (ascii "notes: a b") ⟨by decide, starts_cons (by decide) _⟩, by decide, ?_⟩
  refine (unix_line_iff _ []).mpr ?_
  exact {
    kind := by decide
    exec := by decide
    columns := by decide
    minor := trivial
    date := by simp [rootLine]
    name := by simp [rootLine] }

/-- The last permission of a directory with the sticky bit is lost. -/
theorem sticky_directory :
    ∃ l : UnixLine, l.text = ascii "drwxrwxrwt 2 root root 4096 Jul 06 12:57 tmp" ∧
      9 ≤ columnsOf l.cutText ∧
        ¬ ∀ host, ReadsInside host → Knows host l.form l.date →
          gftpParseLsUnix host false (l.text ++ [0]) l.text.length = pure (l.entry host) := by
  refine ⟨rootLine ⟨.dir, ⟨true, true, .plain⟩, ⟨true, true, .plain⟩, ⟨true, true, .both⟩⟩ rfl
    (ascii "tmp") ⟨by decide, starts_cons (by decide) _⟩, by decide, by decide, fun h => ?_⟩
  have hrun := h (knowing _) (knowing_inside _) (knowing_knows _)
  rw [show ([0] : Bytes) = 0 :: [] from rfl, parse_line _ (knowing_inside _) (by decide)] at hrun
  have hfle := Except.ok.inj (Except.ok.inj hrun)
  have hmode := congrArg GftpFile.stMode hfle
  exact absurd hmode (by decide)

end Lines

end Gftp.UnixListing
