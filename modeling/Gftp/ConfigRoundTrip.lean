import Gftp.ConfigEntries

/-!
The configuration file is read back to the values it was written from if and only if no text
ends in a carriage return and an option that writes nothing finds an empty text in the buffer,
which is the one that the nearest option before it wrote.
-/

namespace Gftp.ConfigRoundTrip

open ByteStrings TextFiles Comments Decimal PeerCheck OptionTables OptionValues OptionTexts ConfigFile
open ConfigLines ConfigEntries

variable {F : Floats} {values st st' : Bytes → Setting} {buf : Option Bytes} {cv : OptionVar}
  {cvs : List OptionVar}

section Options

/-- What an option needs to be read back, with the buffer it gets. -/
def KeptAt (F : Floats) (value : Setting) (buf : Option Bytes) (cv : OptionVar) : Prop :=
  freeText cv.otype = true →
    match ownText F cv value with
    | some t => t.getLast? ≠ some 13
    | none => ∃ b, buf = some b ∧ stripLast 13 b = []

def KeptFrom (F : Floats) (values : Bytes → Setting) : Option Bytes → List OptionVar → Prop
  | _, [] => True
  | buf, cv :: cvs =>
      KeptAt F (values cv.key) buf cv ∧
        KeptFrom F values ((ownText F cv (values cv.key)).or buf) cvs

/-- What an option finds in the buffer fits its line or a bit more. -/
def Held (buf : Option Bytes) : Prop := ∀ b ∈ buf, 10 ∉ b ∧ 0 ∉ b ∧ b.length ≤ 252

/-- A combo of texts finds a number in the buffer. -/
def Numbered (buf : Option Bytes) (cv : OptionVar) : Prop :=
  cv.otype = .textcombo → ∃ n : Int32, buf = some (decimal n.toInt)

theorem Held.own (h : Held buf) (hF : FloatsFit F) (hcv : Registered cv) {value : Setting}
    (hvalue : Assigned cv value) : Held ((ownText F cv value).or buf) := by
  intro b hb
  cases hown : ownText F cv value with
  | none =>
    rw [hown] at hb
    exact h b hb
  | some t =>
    rw [hown] at hb
    obtain rfl := Option.some.inj hb
    obtain ⟨⟨⟨hfeed, hlen⟩, hnul⟩, -⟩ := ownText_fits hF hcv hvalue hown
    have hkey := List.length_pos_of_ne_nil hcv.key.1
    rw [List.length_append, List.length_cons] at hlen
    exact ⟨fun hmem => hfeed (by simp [hmem]), fun hmem => hnul (by simp [hmem]), by omega⟩

/-- No number is an entry of the list of a combo. -/
theorem findText_number {l : List Bytes} (h : ∀ entry ∈ l, ∃ b ∈ entry, b ≠ 45 ∧ isDigit b = false)
    (n : ℤ) : findText l (decimal n) = none := by
  apply List.find?_eq_none.mpr
  intro entry hentry heq
  obtain ⟨b, hb, hminus, hdigit⟩ := h entry hentry
  have hcase : entry.map foldCase = (decimal n).map foldCase := of_decide_eq_true heq
  have hmem : foldCase b ∈ (decimal n).map foldCase := hcase ▸ List.mem_map_of_mem hb
  obtain ⟨d, hd, hfold⟩ := List.mem_map.mp hmem
  have hd : d = 45 ∨ isDigit d = true := decimal_all n d hd
  simp only [isDigit, decide_eq_true_eq, decide_eq_false_iff_not, UInt8.le_iff_toNat_le,
    ← UInt8.toNat_inj, UInt8.reduceToNat, ne_eq] at hd hminus hdigit
  have hlower : foldCase d = d := by
    refine if_neg fun hupper => ?_
    have hlow := UInt8.le_iff_toNat_le.mp hupper.1
    simp only [UInt8.reduceToNat] at hlow
    omega
  rw [hlower, foldCase] at hfold
  split_ifs at hfold with hupper
  · have hlow := UInt8.le_iff_toNat_le.mp hupper.1
    have hhigh := UInt8.le_iff_toNat_le.mp hupper.2
    simp only [UInt8.reduceToNat] at hlow hhigh
    rw [hfold, UInt8.toNat_add] at hd
    simp only [UInt8.reduceToNat] at hd
    omega
  · rw [hfold] at hd
    omega

theorem number_line (h : Registered cv) (n : Int32) : LineOk (cv.key ++ 61 :: decimal n.toInt) :=
  h.line (decimal_int n).1 (decimal_int n).2

/-- The line of an option gives its value back if and only if that is kept. -/
theorem read_option (h : Entry cv) (hF : FloatsFit F) {value : Setting}
    (hvalue : Assigned cv value) (hheld : Held buf) (hnumbered : Numbered buf cv)
    {b : Bytes} (hb : (ownText F cv value).or buf = some b)
    (hread : gftpReadConfigFile F (cv.key ++ 61 :: (b ++ [10])) st = .ok st') :
    Restores cv.otype value (st' cv.key) ↔ KeptAt F value buf cv := by
  cases hown : ownText F cv value with
  | some t =>
    obtain rfl : t = b := by simpa [hown] using hb
    obtain ⟨v, hv, hrestores⟩ := ownText_read hF h.toRegistered hvalue hown
    rw [h.read_fits (ownText_fits hF h.toRegistered hvalue hown).1, hv, CRun.ok_bind] at hread
    rw [← Except.ok.inj hread, Function.update_self, hrestores, KeptAt, hown]
  | none =>
    obtain rfl : buf = some b := by simpa [hown] using hb
    obtain ⟨hfeed, hnul, hlen⟩ := hheld b rfl
    have hkept : KeptAt F value (some b) cv ↔ (freeText cv.otype = true → stripLast 13 b = []) := by
      rw [KeptAt, hown]
      simp
    by_cases hcombo : cv.otype = .textcombo
    · obtain ⟨n, hn⟩ := hnumbered hcombo
      obtain rfl := Option.some.inj hn
      obtain ⟨v, hv, hrestores⟩ := leftText_read hvalue hown (stripLast 13 (decimal n.toInt))
      have hstrip : stripLast 13 (decimal n.toInt) = decimal n.toInt := by
        apply stripLast_eq_self.mpr
        exact fun hlast => ((decimal_int n).1 13 (List.mem_of_getLast? hlast)).2.2 rfl
      rw [h.read_fits (number_line h.toRegistered n), hv, CRun.ok_bind] at hread
      rw [← Except.ok.inj hread, Function.update_self, hrestores, if_pos hcombo, hkept, hstrip,
        findText_number (h.words hcombo), hcombo]
      simp [freeText]
    · have hfree := (ownText_none hvalue hown).resolve_right hcombo
      rw [hkept]
      by_cases hline : LineOk (cv.key ++ 61 :: b)
      · obtain ⟨v, hv, hrestores⟩ := leftText_read hvalue hown (stripLast 13 b)
        rw [h.read_fits hline, hv, CRun.ok_bind] at hread
        rw [← Except.ok.inj hread, Function.update_self, hrestores, if_neg hcombo]
        exact ⟨fun hnil _ => hnil, fun hnil => hnil hfree⟩
      · have hlong : 254 ≤ (cv.key ++ 61 :: b).length := by
          by_contra hlt
          rw [List.length_append, List.length_cons] at hlt
          exact hline (h.lineOk hfeed hnul (by omega))
        obtain ⟨str, v, hstr, hv, hkey⟩ := h.read_long hfeed hnul hlong hlen hread
        obtain ⟨v', hv', hrestores⟩ := leftText_read hvalue hown str
        obtain rfl := Except.ok.inj (hv.symm.trans hv')
        rw [hkey, hrestores, if_neg hcombo]
        refine ⟨fun hnil => absurd hnil hstr, fun hnil => ?_⟩
        have hshort := h.short
        have hle := length_le_stripLast 13 b
        rw [hnil hfree, List.length_nil] at hle
        rw [List.length_append, List.length_cons] at hlong
        omega

theorem line_kept (h : Entry cv) (hF : FloatsFit F) {value : Setting}
    (hvalue : Assigned cv value) (hheld : Held buf) (hnumbered : Numbered buf cv)
    (hkept : KeptAt F value buf cv) :
    ∃ b, (ownText F cv value).or buf = some b ∧ LineOk (cv.key ++ 61 :: b) := by
  cases hown : ownText F cv value with
  | some t => exact ⟨t, rfl, (ownText_fits hF h.toRegistered hvalue hown).1⟩
  | none =>
    rcases ownText_none hvalue hown with hfree | hcombo
    · obtain ⟨b, rfl, hstrip⟩ : ∃ b, buf = some b ∧ stripLast 13 b = [] := by
        have hmatch := hkept hfree
        rwa [hown] at hmatch
      have hshort := h.short
      have hlen := length_le_stripLast 13 b
      rw [hstrip, List.length_nil] at hlen
      obtain ⟨hfeed, hnul, -⟩ := hheld b rfl
      exact ⟨b, rfl, h.lineOk hfeed hnul (by omega)⟩
    · obtain ⟨n, rfl⟩ := hnumbered hcombo
      exact ⟨decimal n.toInt, rfl, number_line h.toRegistered n⟩

theorem read_sets (h : Entry cv) (hF : FloatsFit F) {value : Setting} (hvalue : Assigned cv value)
    {b : Bytes} (hb : (ownText F cv value).or buf = some b) (hline : LineOk (cv.key ++ 61 :: b))
    (st : Bytes → Setting) :
    ∃ v, gftpReadConfigFile F (cv.key ++ 61 :: (b ++ [10])) st =
      .ok (Function.update st cv.key v) := by
  have hread : ∃ v, readFunction F cv (stripLast 13 b) = .ok v := by
    cases hown : ownText F cv value with
    | some t =>
      obtain rfl : t = b := by simpa [hown] using hb
      obtain ⟨v, hv, -⟩ := ownText_read hF h.toRegistered hvalue hown
      exact ⟨v, hv⟩
    | none =>
      obtain ⟨v, hv, -⟩ := leftText_read hvalue hown (stripLast 13 b)
      exact ⟨v, hv⟩
  obtain ⟨v, hv⟩ := hread
  exact ⟨v, by rw [h.read_fits hline, hv]; rfl⟩

/-- The number that an int leaves in the buffer. -/
theorem ownText_int (hint : cv.otype = .int) {value : Setting} (hvalue : Assigned cv value) :
    ∃ n : Int32, ∀ buf, (ownText F cv value).or buf = some (decimal n.toInt) := by
  simp only [Assigned, hint] at hvalue
  obtain ⟨n, rfl⟩ := hvalue
  refine ⟨n.toInt32, fun buf => ?_⟩
  simp only [ownText, hint]
  rfl

/-- The list of the options, with the buffer that the first one gets. -/
structure Listed (values : Bytes → Setting) (buf : Option Bytes) (cvs : List OptionVar) :
    Prop where
  entries : ∀ cv ∈ cvs, Entry cv
  nodup : (cvs.map OptionVar.key).Nodup
  values : ∀ cv ∈ cvs, Assigned cv (values cv.key)
  held : Held buf
  chain : cvs.IsChain fun before cv => cv.otype = .textcombo → before.otype = .int
  head : ∀ cv ∈ cvs.head?, Numbered buf cv

theorem Listed.tail (h : Listed values buf (cv :: cvs)) (hF : FloatsFit F) :
    Listed values ((ownText F cv (values cv.key)).or buf) cvs where
  entries := (List.forall_mem_cons.mp h.entries).2
  nodup := (List.nodup_cons.mp h.nodup).2
  values := (List.forall_mem_cons.mp h.values).2
  held := h.held.own hF (h.entries cv (List.mem_cons_self ..)).toRegistered
    (h.values cv (List.mem_cons_self ..))
  chain := h.chain.tail
  head := by
    intro next hnext hcombo
    obtain ⟨rest, rfl⟩ := List.head?_eq_some_iff.mp hnext
    have hint := (List.isChain_cons_cons.mp h.chain).1 hcombo
    obtain ⟨n, hn⟩ := ownText_int (F := F) hint (h.values cv (List.mem_cons_self ..))
    exact ⟨n, hn buf⟩

/-- What is written for an option is read in one step. -/
theorem read_optionText (h : Entry cv) (text rest : Bytes) (st : Bytes → Setting) :
    gftpReadConfigFile F (optionText cv text ++ rest) st =
      gftpReadConfigFile F (cv.key ++ 61 :: (text ++ [10])) st >>= fun st' =>
        gftpReadConfigFile F rest st' := by
  have hform : optionText cv text ++ rest =
      [] ++ 10 :: (commentText cv.comment ++ ((cv.key ++ 61 :: text) ++ 10 :: rest)) := by
    simp [optionText]
  have hblank : gftpReadConfigFile F ([] ++ [10]) st = .ok st := read_skip (by decide) (.inl rfl) st
  rw [hform, read_feed, hblank, CRun.ok_bind, read_comment h.closed, read_feed]
  simp

/-- Options that are kept are all read back, and others stay as they were. -/
theorem options_read (hF : FloatsFit F) (h : Listed values buf cvs)
    (hkept : KeptFrom F values buf cvs) :
    ∃ text, writeOptions F values cvs buf = .ok text ∧ ∀ rest st, ∃ st',
      gftpReadConfigFile F (text ++ rest) st = gftpReadConfigFile F rest st' ∧
      (∀ cv ∈ cvs, Restores cv.otype (values cv.key) (st' cv.key)) ∧
      ∀ key ∉ cvs.map OptionVar.key, st' key = st key := by
  induction cvs generalizing buf with
  | nil => exact ⟨[], rfl, fun rest st => ⟨st, rfl, nofun, fun _ _ => rfl⟩⟩
  | cons cv cvs ih =>
    have hentry := h.entries cv (List.mem_cons_self ..)
    have hvalue := h.values cv (List.mem_cons_self ..)
    have hnumbered := h.head cv rfl
    obtain ⟨b, hb, hline⟩ := line_kept hentry hF hvalue h.held hnumbered hkept.1
    obtain ⟨text, hwrite, hread⟩ := ih (h.tail hF) hkept.2
    refine ⟨optionText cv b ++ text, ?_, fun rest st => ?_⟩
    · rw [writeOptions, writeFunction_eq hF hentry.toRegistered hvalue, CRun.ok_bind]
      simp only [hb] at hwrite ⊢
      rw [hwrite]
      rfl
    · obtain ⟨v, hset⟩ := read_sets hentry hF hvalue hb hline st
      obtain ⟨st', hrest, hrestores, hothers⟩ := hread rest (Function.update st cv.key v)
      have hcv := (List.nodup_cons.mp h.nodup).1
      refine ⟨st', ?_, ?_, fun key hkey => ?_⟩
      · rw [List.append_assoc, read_optionText hentry, hset, CRun.ok_bind, hrest]
      · refine List.forall_mem_cons.mpr ⟨?_, hrestores⟩
        rw [hothers cv.key hcv]
        exact (read_option hentry hF hvalue h.held hnumbered hb hset).mpr hkept.1
      · rw [List.map_cons, List.mem_cons, not_or] at hkey
        rw [hothers key hkey.2]
        exact Function.update_of_ne hkey.1 _ _

/-- When all options are read back, all are kept. -/
theorem options_kept (hF : FloatsFit F) (h : Listed values buf cvs) {text rest : Bytes}
    (hwrite : writeOptions F values cvs buf = .ok text)
    (hrest : ∀ st, gftpReadConfigFile F rest st = .ok st)
    (hread : gftpReadConfigFile F (text ++ rest) st = .ok st')
    (hrestores : ∀ cv ∈ cvs, Restores cv.otype (values cv.key) (st' cv.key)) :
    KeptFrom F values buf cvs := by
  induction cvs generalizing buf text st with
  | nil => exact trivial
  | cons cv cvs ih =>
    have hentry := h.entries cv (List.mem_cons_self ..)
    have hvalue := h.values cv (List.mem_cons_self ..)
    obtain ⟨hcv, hcvs⟩ := List.forall_mem_cons.mp hrestores
    rw [writeOptions, writeFunction_eq hF hentry.toRegistered hvalue, CRun.ok_bind] at hwrite
    cases hb : (ownText F cv (values cv.key)).or buf with
    | none =>
      rw [hb] at hwrite
      exact absurd hwrite nofun
    | some b =>
      simp only [hb] at hwrite
      obtain ⟨text₂, hwrite₂, heq⟩ := CRun.bind_eq_ok.mp hwrite
      obtain rfl := Except.ok.inj heq
      rw [List.append_assoc, read_optionText hentry] at hread
      obtain ⟨st₁, hfirst, hread₂⟩ := CRun.bind_eq_ok.mp hread
      have hwrite₂ : writeOptions F values cvs ((ownText F cv (values cv.key)).or buf) = .ok text₂ :=
        hb ▸ hwrite₂
      have hkept₂ := ih (h.tail hF) hwrite₂ hread₂ hcvs
      -- the options behind it are kept, so that their lines leave this one as it is
      obtain ⟨text', hwrite', hothers⟩ := options_read hF (h.tail hF) hkept₂
      obtain rfl := Except.ok.inj (hwrite'.symm.trans hwrite₂)
      obtain ⟨st₂, hread', -, hsame⟩ := hothers rest st₁
      obtain rfl := Except.ok.inj (hread₂.symm.trans (hread'.trans (hrest st₂)))
      rw [hsame cv.key (List.nodup_cons.mp h.nodup).1] at hcv
      exact ⟨(read_option hentry hF hvalue h.held (h.head cv rfl) hb hfirst).mp hcv, hkept₂⟩

end Options

section Condition

/-- What the options before one have left in the buffer. -/
def leftText (F : Floats) (values : Bytes → Setting) (before : List OptionVar) : Option Bytes :=
  (before.filterMap fun cv => ownText F cv (values cv.key)).getLast?

/-- No text ends in a carriage return, and a text that writes nothing finds an empty one in the
buffer. -/
structure Keeps (F : Floats) (values : Bytes → Setting) (cvs : List OptionVar) : Prop where
  ends : ∀ cv ∈ cvs, freeText cv.otype = true → ∀ t, values cv.key = .text (some t) →
    t.getLast? ≠ some 13
  left : ∀ before cv after, cvs = before ++ cv :: after → freeText cv.otype = true →
    ownText F cv (values cv.key) = none → leftText F values before = some []

theorem leftText_cons (cv : OptionVar) (before : List OptionVar) (buf : Option Bytes) :
    (leftText F values (cv :: before)).or buf =
      (leftText F values before).or ((ownText F cv (values cv.key)).or buf) := by
  unfold leftText
  cases hown : ownText F cv (values cv.key) with
  | none =>
    rw [List.filterMap_cons, hown]
    rfl
  | some t =>
    rw [List.filterMap_cons, hown]
    cases before.filterMap fun cv => ownText F cv (values cv.key) with
    | nil => rfl
    | cons t' ts =>
      rw [List.getLast?_cons_cons, List.getLast?_cons]
      rfl

/-- The buffer that each option gets. -/
theorem keptFrom_iff : KeptFrom F values buf cvs ↔ ∀ before cv after, cvs = before ++ cv :: after →
    KeptAt F (values cv.key) ((leftText F values before).or buf) cv := by
  induction cvs generalizing buf with
  | nil => exact ⟨fun _ before cv after heq => by simp at heq, fun _ => trivial⟩
  | cons cv cvs ih =>
    rw [KeptFrom, ih]
    constructor
    · rintro ⟨hhead, htail⟩ before cv' after heq
      cases before with
      | nil =>
        obtain ⟨rfl, rfl⟩ := List.cons.inj heq
        exact hhead
      | cons first before =>
        obtain ⟨rfl, rfl⟩ := List.cons.inj heq
        rw [leftText_cons]
        exact htail before cv' after rfl
    · intro hall
      refine ⟨hall [] cv cvs rfl, fun before cv' after heq => ?_⟩
      rw [← leftText_cons]
      exact hall (cv :: before) cv' after (by rw [heq]; rfl)

theorem value_of_ownText (hfree : freeText cv.otype = true) {value : Setting} {t : Bytes}
    (hown : ownText F cv value = some t) : value = .text (some t) := by
  cases value with
  | text t' =>
    cases htype : cv.otype <;> rw [htype] at hfree <;> simp only [ownText, htype] at hown
    case text | textcomboedt => rw [hown]
    case hidetext =>
      split at hown
      · exact absurd hown (by simp)
      · rw [hown]
    all_goals exact absurd hfree (by decide)
  | word n | color c =>
    cases htype : cv.otype <;> rw [htype] at hfree
    case text | textcomboedt | hidetext =>
      simp only [ownText, htype] at hown
      exact absurd hown (by simp)
    all_goals exact absurd hfree (by decide)

theorem keeps_iff (hF : FloatsFit F) (h : Listed values none cvs) :
    KeptFrom F values none cvs ↔ Keeps F values cvs := by
  rw [keptFrom_iff]
  simp only [Option.or_none]
  constructor
  · intro hall
    have hends : ∀ cv ∈ cvs, freeText cv.otype = true → ∀ t, ownText F cv (values cv.key) = some t →
        t.getLast? ≠ some 13 := by
      intro cv hcv hfree t hown
      obtain ⟨before, after, heq⟩ := List.append_of_mem hcv
      have hkept := hall before cv after heq hfree
      rwa [hown] at hkept
    refine ⟨fun cv hcv hfree t hvalue hlast => ?_, fun before cv after heq hfree hown => ?_⟩
    · have hown : ownText F cv (values cv.key) = some t := by
        rw [hvalue]
        cases htype : cv.otype <;> rw [htype] at hfree
        case text | textcomboedt => simp only [ownText, htype]
        case hidetext =>
          have hne : t ≠ [] := by
            intro hnil
            exact absurd (hnil ▸ hlast) (by simp)
          simp only [ownText, htype, Option.some.injEq, if_neg hne]
        all_goals exact absurd hfree (by decide)
      exact hends cv hcv hfree t hown hlast
    · have hkept := hall before cv after heq hfree
      rw [hown] at hkept
      obtain ⟨b, hb, hstrip⟩ := hkept
      obtain ⟨cv', hcv', hown'⟩ := List.mem_filterMap.mp (List.mem_of_getLast? hb)
      have hmem : cv' ∈ cvs := heq ▸ List.mem_append_left _ hcv'
      have hlast : b.getLast? ≠ some 13 := by
        cases hfree' : freeText cv'.otype with
        | true => exact hends cv' hmem hfree' b hown'
        | false =>
          have hfits := ownText_fits hF (h.entries cv' hmem).toRegistered (h.values cv' hmem) hown'
          exact fun hlast => (hfits.2 hfree' 13 (List.mem_of_getLast? hlast)).2.2 rfl
      rw [stripLast_eq_self.mpr hlast] at hstrip
      rw [hb, hstrip]
  · intro hkeeps before cv after heq hfree
    cases hown : ownText F cv (values cv.key) with
    | some t =>
      have hmem : cv ∈ cvs := heq ▸ List.mem_append_right _ (List.mem_cons_self ..)
      exact hkeeps.ends cv hmem hfree t (value_of_ownText hfree hown)
    | none => exact ⟨[], hkeeps.left before cv after heq hfree hown, rfl⟩

end Condition

section Lists

/-- The texts of the lists fit their lines and can be read again. -/
def ListsFit (lists : Bytes → List Bytes) : Prop :=
  ∀ list ∈ gftpConfigList, ∀ item ∈ lists list.1,
    LineOk (list.1 ++ 61 :: item) ∧ readItem list.1 (stripLast 13 item) = .ok ()

theorem configList_forms : ∀ list ∈ gftpConfigList,
    list.1.head? ≠ some 35 ∧ list.1 ≠ [] ∧ 61 ∉ list.1 := by
  decide

set_option maxRecDepth 2000 in
theorem configList_closed : ∀ list ∈ gftpConfigList, ∀ c ∈ list.2, Closed c := by
  unfold gftpConfigList
  simp only [List.forall_mem_cons, Option.mem_def, Option.some.injEq, forall_eq', reduceCtorEq,
    IsEmpty.forall_iff, implies_true, true_and]
  refine ⟨?_, ?_, nofun⟩
  all_goals
    apply closed_spelled
    decide

/-- A line of a list leaves the options as they are. -/
theorem read_item {list : Bytes × Option Bytes} (hlist : list ∈ gftpConfigList) {item : Bytes}
    (hline : LineOk (list.1 ++ 61 :: item)) (hread : readItem list.1 (stripLast 13 item) = .ok ())
    (st : Bytes → Setting) :
    gftpReadConfigFile F (list.1 ++ 61 :: item ++ [10]) st = .ok st := by
  obtain ⟨hmark, hne, hkey⟩ := configList_forms list hlist
  have hstrip : stripLast 13 (list.1 ++ 61 :: item) = list.1 ++ 61 :: stripLast 13 item := by
    have hword : (list.1 ++ [61]).getLast? ≠ some 13 := by simp
    have hsplit := stripLast_word hword item
    simpa using hsplit
  have hskip : ¬ ((list.1 ++ 61 :: stripLast 13 item).head? = some 35 ∨
      list.1 ++ 61 :: stripLast 13 item = []) := by
    obtain ⟨c, key, hcons⟩ := List.exists_cons_of_ne_nil hne
    rw [hcons] at hmark ⊢
    simpa using hmark
  rw [read_line hline, hstrip, readLine, if_neg hskip, cutOption_key hkey]
  simp only [if_pos (List.mem_map_of_mem (f := Prod.fst) hlist), hread]
  rfl

theorem lists_read {lists : Bytes → List Bytes} (h : ListsFit lists) (st : Bytes → Setting) :
    gftpReadConfigFile F (writeLists lists) st = .ok st := by
  have hitems : ∀ list ∈ gftpConfigList, ∀ items : List Bytes, (∀ item ∈ items,
      LineOk (list.1 ++ 61 :: item) ∧ readItem list.1 (stripLast 13 item) = .ok ()) → ∀ rest,
      gftpReadConfigFile F (joinLines (items.map fun item => list.1 ++ 61 :: item) ++ rest) st =
        gftpReadConfigFile F rest st := by
    intro list hlist items hfit rest
    induction items with
    | nil => rfl
    | cons item items ih =>
      obtain ⟨⟨hline, hread⟩, hrest⟩ := List.forall_mem_cons.mp hfit
      have hform : joinLines ((item :: items).map fun item => list.1 ++ 61 :: item) ++ rest =
          (list.1 ++ 61 :: item) ++ 10 ::
            (joinLines (items.map fun item => list.1 ++ 61 :: item) ++ rest) := by
        simp [joinLines]
      rw [hform, read_feed, read_item hlist hline hread, CRun.ok_bind, ih hrest]
  have hblank : gftpReadConfigFile F ([] ++ [10]) st = .ok st := read_skip (by decide) (.inl rfl) st
  have hall : ∀ ls : List (Bytes × Option Bytes), (∀ list ∈ ls, list ∈ gftpConfigList) →
      gftpReadConfigFile F (ls.flatMap fun list =>
        if list.2 = none ∧ lists list.1 = [] then []
        else 10 :: (commentText list.2 ++
          joinLines ((lists list.1).map fun item => list.1 ++ 61 :: item))) st = .ok st := by
    intro ls hls
    induction ls with
    | nil => rfl
    | cons list ls ih =>
      obtain ⟨hlist, hls⟩ := List.forall_mem_cons.mp hls
      rw [List.flatMap_cons]
      split_ifs
      · exact ih hls
      · rw [List.cons_append, List.append_assoc, ← List.nil_append (10 :: _), read_feed, hblank,
          CRun.ok_bind, read_comment (configList_closed list hlist),
          hitems list hlist _ (h list hlist), ih hls]
  exact hall gftpConfigList fun _ hlist => hlist

end Lists

section Result

/-- What is written for the options begins with a line feed, which ends the comment. -/
theorem file_read {header text : Bytes} (hheader : Plain header)
    (hwrite : writeOptions F values writtenOptions none = .ok text) (rest : Bytes)
    (st : Bytes → Setting) :
    gftpReadConfigFile F (writeComment header ++ text ++ rest) st =
      gftpReadConfigFile F (text ++ rest) st := by
  have hne : writtenOptions ≠ [] := by decide
  obtain ⟨cv, cvs, hcons⟩ := List.exists_cons_of_ne_nil hne
  have hfeed : ∃ text', text = 10 :: text' := by
    rw [hcons, writeOptions] at hwrite
    obtain ⟨buf, -, hwrite⟩ := CRun.bind_eq_ok.mp hwrite
    cases buf with
    | none => exact absurd hwrite nofun
    | some b =>
      obtain ⟨text₂, -, heq⟩ := CRun.bind_eq_ok.mp hwrite
      exact ⟨_, (Except.ok.inj heq).symm⟩
  obtain ⟨text', rfl⟩ := hfeed
  have hblank : gftpReadConfigFile F ([] ++ [10]) st = .ok st := read_skip (by decide) (.inl rfl) st
  rw [List.append_assoc, List.cons_append, read_header hheader, ← List.nil_append (10 :: _),
    read_feed, hblank, CRun.ok_bind]

theorem written_listed (hvalues : ∀ cv ∈ writtenOptions, Assigned cv (values cv.key)) :
    Listed values none writtenOptions where
  entries _ := written_entry
  nodup := written_nodup
  values := hvalues
  held := nofun
  chain := written_chain
  head := by
    have hhead : ∀ cv ∈ writtenOptions.head?, cv.otype ≠ .textcombo := by decide
    exact fun cv hcv hcombo => absurd hcombo (hhead cv hcv)

/-- When every option gets its value back, every option is kept. -/
theorem kept_of_restores (hF : FloatsFit F) {header file : Bytes} (hheader : Plain header)
    {lists : Bytes → List Bytes} (hlists : ListsFit lists)
    (hvalues : ∀ cv ∈ writtenOptions, Assigned cv (values cv.key))
    (hwrite : gftpWriteConfigFile F header lists values = .ok file)
    (hread : gftpReadConfigFile F file st = .ok st')
    (hrestores : ∀ cv ∈ writtenOptions, Restores cv.otype (values cv.key) (st' cv.key)) :
    Keeps F values writtenOptions := by
  have hlisted := written_listed hvalues
  obtain ⟨text, hoptions, heq⟩ := CRun.bind_eq_ok.mp hwrite
  obtain rfl := Except.ok.inj heq
  rw [file_read hheader hoptions] at hread
  exact (keeps_iff hF hlisted).mp
    (options_kept hF hlisted hoptions (lists_read hlists) hread hrestores)

/-- The file gives every option its value back if and only if the condition holds. -/
theorem config_restores_iff (hF : FloatsFit F) {header : Bytes} (hheader : Plain header)
    {lists : Bytes → List Bytes} (hlists : ListsFit lists)
    (hvalues : ∀ cv ∈ writtenOptions, Assigned cv (values cv.key)) :
    (∃ file st', gftpWriteConfigFile F header lists values = .ok file ∧
        gftpReadConfigFile F file st = .ok st' ∧
        ∀ cv ∈ writtenOptions, Restores cv.otype (values cv.key) (st' cv.key)) ↔
      Keeps F values writtenOptions := by
  have hlisted := written_listed hvalues
  constructor
  · rintro ⟨file, st', hwrite, hread, hrestores⟩
    exact kept_of_restores hF hheader hlists hvalues hwrite hread hrestores
  · intro hkeeps
    obtain ⟨text, hoptions, hread⟩ := options_read hF hlisted ((keeps_iff hF hlisted).mpr hkeeps)
    obtain ⟨st', hrest, hrestores, -⟩ := hread (writeLists lists) st
    refine ⟨_, st', by rw [gftpWriteConfigFile, hoptions]; rfl, ?_, hrestores⟩
    rw [file_read hheader hoptions, hrest, lists_read hlists]

end Result

section Samples

/-- A float that is 0. -/
def zeroFloats : Floats := ⟨fun _ => 0, fun _ => ascii "0.00", fun m n => m = n⟩

/-- A value for each type. -/
def sampleValue : OptionType → Setting
  | .text | .textcomboedt => .text (some [])
  | .hidetext => .text (some (ascii "secret"))
  | .textcombo => .text none
  | .int | .checkbox | .intcombo | .float => .word 0
  | .color => .color ⟨0, 0, 0⟩
  | .notebook => .text none

def sampleValues (key : Bytes) : Setting :=
  ((globalOptionsHtable key).map fun cv => sampleValue cv.otype).getD (.text none)

/-- The values as the SSH module sets them at the start. -/
def startValues (key : Bytes) : Setting :=
  if key = ascii "ssh_prog_name" then .text (some (ascii "ssh"))
  else if key = ascii "ssh_extra_params" then .text none
  else sampleValues key

theorem zeroFloats_fit : FloatsFit zeroFloats := by
  have hzero : ∀ b ∈ ascii "0.00", b ≠ 0 ∧ b ≠ 10 ∧ b ≠ 13 := forall_of_all (by decide)
  have hshort : (ascii "0.00").length ≤ 100 := by decide
  exact fun _ => ⟨hzero, hshort⟩

theorem sampleValues_eq (hcv : cv ∈ writtenOptions) : sampleValues cv.key = sampleValue cv.otype := by
  rw [sampleValues, (written_entry hcv).table]
  rfl

theorem sampleValues_assigned (hcv : cv ∈ writtenOptions) : Assigned cv (sampleValues cv.key) := by
  have hentry := written_entry hcv
  rw [sampleValues_eq hcv]
  have hshort := hentry.short
  cases htype : cv.otype <;> simp only [Assigned, htype, sampleValue]
  case text | textcomboedt =>
    refine ⟨some [], rfl, fun s hs => ?_⟩
    obtain rfl := Option.some.inj hs
    exact hentry.line (by simp) (by decide)
  case hidetext =>
    refine ⟨some (ascii "secret"), rfl, fun s hs => ?_⟩
    obtain rfl := Option.some.inj hs
    exact hentry.line (forall_of_all (by decide)) (by decide)
  case textcombo => exact ⟨none, rfl, (by simp)⟩
  case int | float => exact ⟨0, rfl⟩
  case checkbox => exact ⟨0, rfl, .inl rfl⟩
  case intcombo => exact ⟨0, rfl, by decide, List.length_pos_of_ne_nil (written_filled hcv htype)⟩
  case color => exact ⟨⟨0, 0, 0⟩, rfl⟩
  case notebook => exact hentry.type htype

theorem samples_keep : Keeps zeroFloats sampleValues writtenOptions where
  ends := by
    intro cv hcv hfree t ht
    rw [sampleValues_eq hcv] at ht
    cases htype : cv.otype <;> rw [htype] at hfree ht <;> simp only [sampleValue] at ht
    case text | textcomboedt =>
      obtain rfl := Option.some.inj (Setting.text.inj ht)
      decide
    case hidetext =>
      obtain rfl := Option.some.inj (Setting.text.inj ht)
      decide
    all_goals exact absurd hfree (by decide)
  left := by
    intro before cv after heq hfree hnone
    have hcv : cv ∈ writtenOptions := heq ▸ List.mem_append_right _ (List.mem_cons_self ..)
    have hsecret : ascii "secret" ≠ [] := by decide
    rw [sampleValues_eq hcv] at hnone
    cases htype : cv.otype <;> rw [htype] at hfree <;>
      simp only [ownText, htype, sampleValue, Option.some.injEq, if_neg hsecret] at hnone
    case text | textcomboedt | hidetext => exact absurd hnone (by simp)
    all_goals exact absurd hfree (by decide)

theorem sampleHeader_plain : Plain (ascii "Config file for gFTP.") :=
  plain_of_short _ (by decide) (by decide) (by decide)

theorem samples_restored :
    ∃ file st', gftpWriteConfigFile zeroFloats (ascii "Config file for gFTP.") (fun _ => [])
          sampleValues = .ok file ∧
        gftpReadConfigFile zeroFloats file startValues = .ok st' ∧
        ∀ cv ∈ writtenOptions, Restores cv.otype (sampleValues cv.key) (st' cv.key) :=
  (config_restores_iff zeroFloats_fit
    sampleHeader_plain
    (fun _ _ _ hitem => (List.not_mem_nil hitem).elim) fun _ => sampleValues_assigned).mpr samples_keep

theorem startValues_assigned (hcv : cv ∈ writtenOptions) : Assigned cv (startValues cv.key) := by
  have htable := (written_entry hcv).table
  have hssh : ∀ cv ∈ sshv2ConfigVars, cv.key ≠ [] → globalOptionsHtable cv.key = some cv := by
    intro cv hcv
    apply insert_finds optionKeys_nodup
    exact List.mem_flatten.mpr ⟨sshv2ConfigVars, by simp [gftpOptionsList], hcv⟩
  have hprogram : globalOptionsHtable (ascii "ssh_prog_name") = some sshv2ConfigVars[1] :=
    hssh sshv2ConfigVars[1] (List.getElem_mem _) (by decide)
  have hparams : globalOptionsHtable (ascii "ssh_extra_params") = some sshv2ConfigVars[2] :=
    hssh sshv2ConfigVars[2] (List.getElem_mem _) (by decide)
  unfold startValues
  split_ifs with hprog hextra
  · have htype : cv.otype = .text := by
      rw [hprog, hprogram] at htable
      rw [← Option.some.inj htable]
      rfl
    simp only [Assigned, htype]
    refine ⟨some (ascii "ssh"), rfl, fun s hs => ?_⟩
    obtain rfl := Option.some.inj hs
    exact (written_entry hcv).line (forall_of_all (by decide)) (by decide)
  · have htype : cv.otype = .text := by
      rw [hextra, hparams] at htable
      rw [← Option.some.inj htable]
      rfl
    simp only [Assigned, htype]
    exact ⟨none, rfl, (by simp)⟩
  · exact sampleValues_assigned hcv

/-- The parameters for ssh are read back as the name of the program. -/
theorem extra_params_filled :
    ¬ ∀ values : Bytes → Setting, (∀ cv ∈ writtenOptions, Assigned cv (values cv.key)) →
      ∃ file st', gftpWriteConfigFile zeroFloats (ascii "Config file for gFTP.") (fun _ => [])
          values = .ok file ∧
        gftpReadConfigFile zeroFloats file startValues = .ok st' ∧
        ∀ cv ∈ writtenOptions, Restores cv.otype (values cv.key) (st' cv.key) := by
  intro hall
  obtain ⟨file, st', hwrite, hread, hrestores⟩ := hall startValues fun _ => startValues_assigned
  have hkeeps := kept_of_restores zeroFloats_fit
    sampleHeader_plain
    (fun _ _ _ hitem => (List.not_mem_nil hitem).elim) (fun _ => startValues_assigned) hwrite hread hrestores
  have hsplit : ∃ before prog extra after, writtenOptions = before ++ [prog] ++ extra :: after ∧
      prog.key = ascii "ssh_prog_name" ∧ prog.otype = .text ∧
      extra.key = ascii "ssh_extra_params" ∧ extra.otype = .text := by
    refine ⟨[gftpGlobalConfigVars, rfc959ConfigVars, sslConfigVars, rfc2068ConfigVars].flatten.filter
      fun cv => cv.otype ≠ .notebook ∧ cv.key ≠ [], sshv2ConfigVars[1], sshv2ConfigVars[2],
      [sshv2ConfigVars[3]], ?_, rfl, rfl, rfl, rfl⟩
    have hssh : sshv2ConfigVars.filter (fun cv => cv.otype ≠ .notebook ∧ cv.key ≠ []) =
        [sshv2ConfigVars[1], sshv2ConfigVars[2], sshv2ConfigVars[3]] := rfl
    rw [writtenOptions, List.append_assoc, List.singleton_append, ← hssh, ← List.filter_append]
    rfl
  obtain ⟨before, prog, extra, after, heq, hprogKey, hprogType, hextraKey, hextraType⟩ := hsplit
  have hprog : ownText zeroFloats prog (startValues prog.key) = some (ascii "ssh") := by
    rw [hprogKey]
    simp only [ownText, hprogType]
    rfl
  have hextra : ownText zeroFloats extra (startValues extra.key) = none := by
    rw [hextraKey]
    simp only [ownText, hextraType]
    rfl
  have hleft := hkeeps.left _ _ _ heq (by rw [hextraType]; rfl) hextra
  rw [leftText, List.filterMap_append, List.filterMap_cons, hprog] at hleft
  simp only [List.filterMap_nil, List.getLast?_append, List.getLast?_singleton, Option.some_or,
    Option.some.injEq] at hleft
  exact absurd hleft (by decide)

end Samples

end Gftp.ConfigRoundTrip
