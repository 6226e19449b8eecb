import Gftp.ListingFields

/-!
The lines of ls -l: attributes, link count, user, group, size or device numbers, date and
name. The attributes are the ones gftp_convert_attributes_from_mode_t writes for a mode.
-/

namespace Gftp.UnixLines

open ByteStrings TextPointers Decimal ListingParsers ListingFields

def sIfifo : ℕ := 0o010000

/-- What a line is about, by its first character. -/
inductive Kind where
  | file
  | dir
  | link
  | socket
  | block
  | character
  | fifo
  deriving DecidableEq

def Kind.byte : Kind → UInt8
  | .file => 45
  | .dir => 100
  | .link => 108
  | .socket => 115
  | .block => 98
  | .character => 99
  | .fifo => 112

def Kind.bits : Kind → ℕ
  | .file => sIfreg
  | .dir => sIfdir
  | .link => sIflnk
  | .socket => sIfsock
  | .block => sIfblk
  | .character => sIfchr
  | .fifo => sIfifo

def Kind.isDevice : Kind → Bool
  | .block => true
  | .character => true
  | _ => false

/-- The third character of a class: x, the special bit with or without x, or neither. -/
inductive Exec where
  | none
  | plain
  | both
  | special
  deriving DecidableEq

/-- The permissions of the owner, the group or the others. -/
structure Access where
  read : Bool
  write : Bool
  exec : Exec

def Access.text (a : Access) (lower upper : UInt8) : Bytes :=
  [if a.read then 114 else 45, if a.write then 119 else 45,
    match a.exec with
    | .none => 45
    | .plain => 120
    | .both => lower
    | .special => upper]

def Access.bits (a : Access) (r w x special : ℕ) : ℕ :=
  (if a.read then r else 0) ||| (if a.write then w else 0) |||
    match a.exec with
    | .none => 0
    | .plain => x
    | .both => x ||| special
    | .special => special

structure Attribs where
  kind : Kind
  user : Access
  group : Access
  other : Access

namespace Attribs

variable (a : Attribs)

/-- The ten characters of the first column. -/
def text : Bytes :=
  a.kind.byte :: (a.user.text 115 83 ++ a.group.text 115 83 ++ a.other.text 116 84)

def mode : ℕ :=
  a.kind.bits ||| a.user.bits 0o400 0o200 0o100 0o4000 ||| a.group.bits 0o040 0o020 0o010 0o2000 |||
    a.other.bits 0o004 0o002 0o001 0o1000

/-- The mode that is read from the characters: a fifo is a file, and the sticky bit hides the
permission of the others to execute. -/
def readMode : ℕ :=
  (if a.kind = .fifo then sIfreg else a.kind.bits) ||| a.user.bits 0o400 0o200 0o100 0o4000 |||
    a.group.bits 0o040 0o020 0o010 0o2000 |||
    (a.other.bits 0o004 0o002 0o001 0o1000 &&&
      if a.other.exec = .both then 0o7776 else 0o7777)

theorem text_length : a.text.length = 10 := rfl

theorem user_bits : attribBits a.text 1 0o400 0o200 0o100 0o4000 115 83 =
    a.user.bits 0o400 0o200 0o100 0o4000 := by
  obtain ⟨kind, ⟨read, write, exec⟩, group, other⟩ := a
  cases read <;> cases write <;> cases exec <;>
    simp [attribBits, text, Access.text, Access.bits]

theorem group_bits : attribBits a.text 4 0o040 0o020 0o010 0o2000 115 83 =
    a.group.bits 0o040 0o020 0o010 0o2000 := by
  obtain ⟨kind, user, ⟨read, write, exec⟩, other⟩ := a
  cases read <;> cases write <;> cases exec <;>
    simp [attribBits, text, Access.text, Access.bits]

theorem other_bits : attribBits a.text 7 0o004 0o002 0o001 0o1000 116 84 =
    (a.other.bits 0o004 0o002 0o001 0o1000 &&&
      if a.other.exec = .both then 0o7776 else 0o7777) := by
  obtain ⟨kind, user, group, ⟨read, write, exec⟩⟩ := a
  cases read <;> cases write <;> cases exec <;>
    simp [attribBits, text, Access.text, Access.bits]

theorem convert_text : gftpConvertAttributesToModeT a.text = .ok a.readMode := by
  unfold gftpConvertAttributesToModeT
  rw [if_neg (by rw [text_length]; decide), user_bits, group_bits, other_bits]
  unfold readMode
  cases h : a.kind <;> simp only [text, h] <;> rfl

theorem bits_masks (x : Access) :
    (x.bits 0o400 0o200 0o100 0o4000 &&& 0o170000 = 0 ∧
        x.bits 0o400 0o200 0o100 0o4000 &&& 1 = 0) ∧
      (x.bits 0o040 0o020 0o010 0o2000 &&& 0o170000 = 0 ∧
        x.bits 0o040 0o020 0o010 0o2000 &&& 1 = 0) ∧
      x.bits 0o004 0o002 0o001 0o1000 &&& 0o170000 = 0 ∧
      x.bits 0o004 0o002 0o001 0o1000 &&& 0o7777 = x.bits 0o004 0o002 0o001 0o1000 := by
  obtain ⟨read, write, exec⟩ := x
  cases read <;> cases write <;> cases exec <;> decide

theorem both_bit (x : Access) (h : x.exec = .both) :
    x.bits 0o004 0o002 0o001 0o1000 &&& 1 = 1 := by
  obtain ⟨read, write, exec⟩ := x
  cases h
  cases read <;> cases write <;> decide

theorem readMode_kind : a.readMode &&& sIfmt =
    if a.kind = .fifo then sIfreg else a.kind.bits := by
  have hzero : (a.other.bits 0o004 0o002 0o001 0o1000 &&&
      if a.other.exec = .both then 0o7776 else 0o7777) &&& sIfmt = 0 := by
    rw [Nat.and_assoc]
    split_ifs <;> exact Nat.and_zero _
  have huser : a.user.bits 0o400 0o200 0o100 0o4000 &&& sIfmt = 0 := (bits_masks a.user).1.1
  have hgroup : a.group.bits 0o040 0o020 0o010 0o2000 &&& sIfmt = 0 := (bits_masks a.group).2.1.1
  have hkind : (if a.kind = .fifo then sIfreg else a.kind.bits) &&& sIfmt =
      if a.kind = .fifo then sIfreg else a.kind.bits := by
    cases a.kind <;> rfl
  unfold readMode
  rw [Nat.and_or_distrib_right, Nat.and_or_distrib_right, Nat.and_or_distrib_right, huser, hgroup,
    hzero, Nat.or_zero, Nat.or_zero, Nat.or_zero, hkind]

theorem mode_kind : a.mode &&& sIfmt = a.kind.bits := by
  have huser : a.user.bits 0o400 0o200 0o100 0o4000 &&& sIfmt = 0 := (bits_masks a.user).1.1
  have hgroup : a.group.bits 0o040 0o020 0o010 0o2000 &&& sIfmt = 0 := (bits_masks a.group).2.1.1
  have hother : a.other.bits 0o004 0o002 0o001 0o1000 &&& sIfmt = 0 := (bits_masks a.other).2.2.1
  have hkind : a.kind.bits &&& sIfmt = a.kind.bits := by
    cases a.kind <;> rfl
  unfold mode
  rw [Nat.and_or_distrib_right, Nat.and_or_distrib_right, Nat.and_or_distrib_right, huser, hgroup,
    hother, Nat.or_zero, Nat.or_zero, Nat.or_zero, hkind]

theorem readMode_eq_iff : a.readMode = a.mode ↔ a.kind ≠ .fifo ∧ a.other.exec ≠ .both := by
  have huser := (bits_masks a.user).1
  have hgroup := (bits_masks a.group).2.1
  have hother := (bits_masks a.other).2.2
  constructor
  · intro h
    constructor
    · intro hfifo
      have hkind := congrArg (· &&& sIfmt) h
      rw [readMode_kind, mode_kind, hfifo] at hkind
      exact absurd hkind (by decide)
    · intro hboth
      have hkind : ∀ kind : Kind, kind.bits &&& 1 = 0 := by
        intro kind
        cases kind <;> rfl
      have hread : (if a.kind = .fifo then sIfreg else a.kind.bits) &&& 1 = 0 := by
        split_ifs
        · rfl
        · exact hkind a.kind
      have hhidden : (a.other.bits 0o004 0o002 0o001 0o1000 &&&
          if a.other.exec = .both then 0o7776 else 0o7777) &&& 1 = 0 := by
        rw [if_pos hboth, Nat.and_assoc]
        exact Nat.and_zero _
      have hexec := congrArg (· &&& 1) h
      unfold readMode mode at hexec
      simp only [Nat.and_or_distrib_right, hkind, hread, huser.2, hgroup.2, hhidden,
        Nat.or_zero, Nat.zero_or, both_bit a.other hboth] at hexec
      exact absurd hexec (by decide)
  · rintro ⟨hkind, hexec⟩
    unfold readMode mode
    rw [if_neg hkind, if_neg hexec, hother.2]

end Attribs

section Columns

/-- The columns of a text up to its first colon, whose column counts for two. The flag says
whether a column is open. -/
def columnsFrom : Bool → Bytes → ℕ
  | _, [] => 0
  | inColumn, b :: t =>
      if b = 58 then if inColumn then 1 else 2
      else if isBlank b then columnsFrom false t
      else (if inColumn then 0 else 1) + columnsFrom true t

def columnsOf (t : Bytes) : ℕ := columnsFrom false t

theorem columnsFrom_gap (t : Bytes) :
    columnsFrom false t = columnsFrom false (t.dropWhile isBlank) := by
  induction t with
  | nil => rfl
  | cons b t ih =>
    by_cases hb : isBlank b = true
    · have hcolon : b ≠ 58 := by
        rintro rfl
        exact absurd hb (by decide)
      rw [List.dropWhile_cons_of_pos hb, ← ih, columnsFrom, if_neg hcolon, if_pos hb]
    · rw [List.dropWhile_cons_of_neg hb]

/-- An open column ends at a colon, at a gap or with the text. -/
theorem columnsFrom_true (t : Bytes) :
    columnsFrom true t =
      if (t.dropWhile fun b => !isBlank b && b ≠ 58).headD 0 = 58 then 1
      else columnsFrom false ((t.dropWhile fun b => !isBlank b && b ≠ 58).dropWhile isBlank) := by
  induction t with
  | nil => rfl
  | cons b t ih =>
    by_cases hcolon : b = 58
    · subst hcolon
      rfl
    · by_cases hb : isBlank b = true
      · rw [List.dropWhile_cons_of_neg (by simp [hb]), List.headD_cons, if_neg hcolon,
          ← columnsFrom_gap, columnsFrom, columnsFrom, if_neg hcolon, if_pos hb, if_neg hcolon,
          if_pos hb]
      · rw [List.dropWhile_cons_of_pos (by simp [hb, hcolon]), ← ih, columnsFrom, if_neg hcolon,
          if_neg hb, if_pos rfl, Nat.zero_add]

theorem head_dropWhile (t : Bytes) (b : UInt8) (h : (t.dropWhile isBlank).head? = some b) :
    isBlank b = false := by
  rcases hdrop : t.dropWhile isBlank with _ | ⟨c, u⟩
  · rw [hdrop] at h
    cases h
  · rw [hdrop] at h
    cases h
    have hhead := List.head_dropWhile_not isBlank (l := t) (by simp [hdrop])
    simpa [hdrop] using hhead

theorem countColumns_text {fuel : ℕ} {t : Bytes} (ht : 0 ∉ t)
    (hstart : ∀ b, t.head? = some b → isBlank b = false) (hfuel : t.length < fuel)
    (rest : Bytes) : countColumns fuel (t ++ 0 :: rest) = .ok (columnsOf t) := by
  induction fuel generalizing t with
  | zero => exact absurd hfuel (Nat.not_lt_zero _)
  | succ fuel ih =>
    have hword : t.dropWhile (fun b => b ≠ 0 && !isBlank b && b ≠ 58) =
        t.dropWhile fun b => !isBlank b && b ≠ 58 := by
      refine dropWhile_eq fun b hb => ?_
      simp [ne_of_mem_of_not_mem hb ht]
    unfold countColumns
    rw [deref_text, CRun.ok_bind]
    cases t with
    | nil => rfl
    | cons b t =>
      have hb : b ≠ 0 := fun h => ht (h ▸ List.mem_cons_self ..)
      have hnot : isBlank b = false := hstart b rfl
      rw [List.headD_cons, if_neg hb, skipWhile_text (by decide), hword, CRun.ok_bind, deref_text,
        CRun.ok_bind]
      by_cases hcolon : b = 58
      · subst hcolon
        rfl
      · have hdrop : (b :: t).dropWhile (fun b => !isBlank b && b ≠ 58) =
            t.dropWhile fun b => !isBlank b && b ≠ 58 :=
          List.dropWhile_cons_of_pos (by simp [hnot, hcolon])
        have hcount : columnsOf (b :: t) = 1 + columnsFrom true t := by
          rw [columnsOf, columnsFrom, if_neg hcolon, hnot]
          rfl
        rw [hdrop, hcount, columnsFrom_true]
        have hsuffix := List.dropWhile_suffix (l := t) fun b => !isBlank b && b ≠ 58
        generalize t.dropWhile (fun b => !isBlank b && b ≠ 58) = u at hsuffix
        split_ifs with hcolon
        · rfl
        · have hgap := (List.dropWhile_suffix isBlank).trans hsuffix
          have hrest := @ih (u.dropWhile isBlank)
            (nul_not_mem_suffix (hgap.trans (List.suffix_cons b t)) ht)
            (head_dropWhile u) (by
              have hle := hgap.length_le
              rw [List.length_cons] at hfuel
              omega)
          rw [skipWhile_text (by decide), CRun.ok_bind, hrest, Nat.add_comm]
          rfl

end Columns

section Dates

/-- The forms of date that parse_time tells apart. -/
inductive DateForm where
  | clock
  | year
  | dos
  | day
  | slashed
  deriving DecidableEq

/-- Jul 06 12:57, Jul  6  1999, 07-06-99  12:57PM, 10-Jan-2003 09:14 and 2003/12/25. -/
def DateForm.format : DateForm → Bytes
  | .clock => ascii "%h %d %H:%M"
  | .year => ascii "%h %d %Y"
  | .dos => ascii "%m-%d-%y %I:%M%p"
  | .day => ascii "%d-%h-%Y %H:%M"
  | .slashed => ascii "%Y/%m/%d"

def Digits (t : Bytes) : Prop := t ≠ [] ∧ ∀ b ∈ t, isDigit b = true

def Letters (t : Bytes) : Prop := t ≠ [] ∧ ∀ b ∈ t, isAlpha b = true

def Spaces (t : Bytes) : Prop := t ≠ [] ∧ ∀ b ∈ t, b = 32

instance : DecidablePred Digits := fun _ => inferInstanceAs (Decidable (_ ∧ _))

instance : DecidablePred Letters := fun _ => inferInstanceAs (Decidable (_ ∧ _))

instance : DecidablePred Spaces := fun _ => inferInstanceAs (Decidable (_ ∧ _))

/-- The texts of the forms. -/
inductive DateText : DateForm → Bytes → Prop
  | clock {month gap day gap' hour minute : Bytes} : Letters month → Spaces gap → Digits day →
      Spaces gap' → Digits hour → Digits minute →
      DateText .clock (month ++ gap ++ day ++ gap' ++ hour ++ 58 :: minute)
  | year {month gap day gap' year : Bytes} : Letters month → Spaces gap → Digits day →
      Spaces gap' → Digits year → DateText .year (month ++ gap ++ day ++ gap' ++ year)
  | dos {m₁ m₂ : UInt8} {day year gap hour minute half : Bytes} :
      isDigit m₁ = true → isDigit m₂ = true → Digits day → Digits year → Spaces gap →
      Digits hour → Digits minute → Letters half →
      DateText .dos (m₁ :: m₂ :: 45 :: (day ++ 45 :: year ++ gap ++ hour ++ 58 :: minute ++ half))
  | day {d₁ d₂ : UInt8} {month year gap hour minute : Bytes} :
      isDigit d₁ = true → isDigit d₂ = true → Letters month → Digits year → Spaces gap →
      Digits hour → Digits minute →
      DateText .day (d₁ :: d₂ :: 45 :: (month ++ 45 :: year ++ gap ++ hour ++ 58 :: minute))
  | slashed {y₁ y₂ y₃ y₄ : UInt8} {month day : Bytes} :
      isDigit y₁ = true → isDigit y₂ = true → isDigit y₃ = true → isDigit y₄ = true →
      Digits month → Digits day →
      DateText .slashed (y₁ :: y₂ :: y₃ :: y₄ :: 47 :: (month ++ 47 :: day))

theorem Digits.nul_free {t : Bytes} (h : Digits t) : 0 ∉ t := fun hmem =>
  absurd (h.2 0 hmem) (by decide)

theorem Letters.nul_free {t : Bytes} (h : Letters t) : 0 ∉ t := fun hmem =>
  absurd (h.2 0 hmem) (by decide)

theorem Spaces.nul_free {t : Bytes} (h : Spaces t) : 0 ∉ t := fun hmem =>
  absurd (h.2 0 hmem) (by decide)

theorem Spaces.gap {t : Bytes} (h : Spaces t) : Gap t := fun b hb => by
  rw [h.2 b hb]
  rfl

theorem Spaces.head {t : Bytes} (h : Spaces t) : ∃ more, t = 32 :: more := by
  obtain ⟨b, more, rfl⟩ := List.exists_cons_of_ne_nil h.1
  exact ⟨more, by rw [h.2 b (List.mem_cons_self ..)]⟩

theorem DateText.start {form : DateForm} {date : Bytes} (h : DateText form date)
    (rest : Bytes) : ∃ b t, date ++ rest = b :: t ∧ b ≠ 32 := by
  have hdigit {b : UInt8} (hb : isDigit b = true) : b ≠ 32 := by
    rintro rfl
    exact absurd hb (by decide)
  have hletter {b : UInt8} (hb : isAlpha b = true) : b ≠ 32 := by
    rintro rfl
    exact absurd hb (by decide)
  cases h with
  | clock hmonth =>
    obtain ⟨b, month, rfl⟩ := List.exists_cons_of_ne_nil hmonth.1
    exact ⟨b, _, rfl, hletter (hmonth.2 b (List.mem_cons_self ..))⟩
  | year hmonth =>
    obtain ⟨b, month, rfl⟩ := List.exists_cons_of_ne_nil hmonth.1
    exact ⟨b, _, rfl, hletter (hmonth.2 b (List.mem_cons_self ..))⟩
  | dos h₁ => exact ⟨_, _, rfl, hdigit h₁⟩
  | day h₁ => exact ⟨_, _, rfl, hdigit h₁⟩
  | slashed h₁ => exact ⟨_, _, rfl, hdigit h₁⟩

theorem DateText.nul_free {form : DateForm} {date : Bytes} (h : DateText form date) :
    0 ∉ date := by
  have hdigit {b : UInt8} (hb : isDigit b = true) : 0 ≠ b := by
    rintro rfl
    exact absurd hb (by decide)
  cases h with
  | clock hmonth hgap hday hgap' hhour hminute =>
    simp [hmonth.nul_free, hgap.nul_free, hday.nul_free, hgap'.nul_free, hhour.nul_free,
      hminute.nul_free]
  | year hmonth hgap hday hgap' hyear =>
    simp [hmonth.nul_free, hgap.nul_free, hday.nul_free, hgap'.nul_free, hyear.nul_free]
  | dos h₁ h₂ hday hyear hgap hhour hminute hhalf =>
    simp [hdigit h₁, hdigit h₂, hday.nul_free, hyear.nul_free, hgap.nul_free, hhour.nul_free,
      hminute.nul_free, hhalf.nul_free]
  | day h₁ h₂ hmonth hyear hgap hhour hminute =>
    simp [hdigit h₁, hdigit h₂, hmonth.nul_free, hyear.nul_free, hgap.nul_free, hhour.nul_free,
      hminute.nul_free]
  | slashed h₁ h₂ h₃ h₄ hmonth hday =>
    simp [hdigit h₁, hdigit h₂, hdigit h₃, hdigit h₄, hmonth.nul_free, hday.nul_free]

/-- struct tm before the date is read. -/
def dateless : Tm := { Tm.zero with isdst := -1 }

/-- The form that a text suggests. -/
def formOf (s : Bytes) : DateForm :=
  if 4 < s.length ∧ isDigit (s.getD 0 0) ∧ s.getD 2 0 = 45 ∧ isDigit (s.getD 3 0) then .dos
  else if 4 < s.length ∧ isDigit (s.getD 0 0) ∧ s.getD 2 0 = 45 ∧ isAlpha (s.getD 3 0) then .day
  else if 4 < s.length ∧ isDigit (s.getD 0 0) ∧ s.getD 4 0 = 47 then .slashed
  else if 58 ∈ s then .clock
  else .year

/-- A date with a time of day and no year is of the last twelve months. -/
def withYear (host : Host) (form : DateForm) (tm : Tm) : Tm :=
  let loctime := host.localtime host.time
  match form with
  | .clock => { tm with year := if loctime.mon < tm.mon then loctime.year - 1 else loctime.year }
  | _ => tm

theorem timeMatch_eq (host : Host) (s : Bytes) :
    timeMatch host s =
      (withYear host (formOf s) (host.strptime (formOf s).format s dateless).1,
        (host.strptime (formOf s).format s dateless).2) := by
  unfold timeMatch formOf
  dsimp only
  by_cases hdos : 4 < s.length ∧ isDigit (s.getD 0 0) ∧ s.getD 2 0 = 45 ∧ isDigit (s.getD 3 0)
  · rw [if_pos hdos, if_pos hdos]
    rfl
  rw [if_neg hdos, if_neg hdos]
  by_cases hday : 4 < s.length ∧ isDigit (s.getD 0 0) ∧ s.getD 2 0 = 45 ∧ isAlpha (s.getD 3 0)
  · rw [if_pos hday, if_pos hday]
    rfl
  rw [if_neg hday, if_neg hday]
  by_cases hslashed : 4 < s.length ∧ isDigit (s.getD 0 0) ∧ s.getD 4 0 = 47
  · rw [if_pos hslashed, if_pos hslashed]
    rfl
  rw [if_neg hslashed, if_neg hslashed]
  by_cases hclock : 58 ∈ s
  · rw [if_pos hclock, if_pos hclock]
    rfl
  · rw [if_neg hclock, if_neg hclock]
    rfl

theorem digit_not_alpha {b : UInt8} (h : isDigit b = true) : isAlpha b = false := by
  unfold isDigit at h
  unfold isAlpha
  grind

/-- A text that begins with a letter has none of the numeric forms. -/
theorem formOf_letter {b : UInt8} (hb : isAlpha b = true) (s : Bytes) :
    formOf (b :: s) = if 58 ∈ b :: s then .clock else .year := by
  have hdigit : isDigit b = false := by
    by_contra h
    rw [digit_not_alpha (by simpa using h)] at hb
    cases hb
  simp [formOf, hdigit]

theorem Digits.no_colon {t : Bytes} (h : Digits t) : 58 ∉ t := fun hmem =>
  absurd (h.2 58 hmem) (by decide)

theorem Letters.no_colon {t : Bytes} (h : Letters t) : 58 ∉ t := fun hmem =>
  absurd (h.2 58 hmem) (by decide)

theorem Spaces.no_colon {t : Bytes} (h : Spaces t) : 58 ∉ t := fun hmem =>
  absurd (h.2 58 hmem) (by decide)

theorem formOf_date {form : DateForm} {date : Bytes} (hdate : DateText form date)
    (rest : Bytes) :
    formOf (date ++ 32 :: rest) = if form = .year ∧ 58 ∈ rest then .clock else form := by
  cases hdate with
  | clock hmonth hgap hday hgap' hhour hminute =>
    obtain ⟨b, month, rfl⟩ := List.exists_cons_of_ne_nil hmonth.1
    simp only [List.cons_append]
    rw [formOf_letter (hmonth.2 b (List.mem_cons_self ..)), if_pos (by simp), if_neg (by simp)]
  | year hmonth hgap hday hgap' hyear =>
    have hcolon := hmonth.no_colon
    obtain ⟨b, month, rfl⟩ := List.exists_cons_of_ne_nil hmonth.1
    rw [List.mem_cons, not_or] at hcolon
    simp only [List.cons_append]
    rw [formOf_letter (hmonth.2 b (List.mem_cons_self ..))]
    simp [hcolon, hgap.no_colon, hday.no_colon, hgap'.no_colon, hyear.no_colon]
  | dos h₁ h₂ hday hyear hgap hhour hminute hhalf =>
    obtain ⟨d, day, rfl⟩ := List.exists_cons_of_ne_nil hday.1
    have hd := hday.2 d (List.mem_cons_self ..)
    simp [formOf, h₁, hd]
  | day h₁ h₂ hmonth hyear hgap hhour hminute =>
    obtain ⟨m, month, rfl⟩ := List.exists_cons_of_ne_nil hmonth.1
    have hm := hmonth.2 m (List.mem_cons_self ..)
    have hnot : isDigit m = false := by
      by_contra h
      rw [digit_not_alpha (by simpa using h)] at hm
      cases hm
    simp [formOf, h₁, hm, hnot]
  | slashed h₁ h₂ h₃ h₄ hmonth hday =>
    have hdash (y : UInt8) (hy : isDigit y = true) : y ≠ 45 := by
      rintro rfl
      exact absurd hy (by decide)
    simp [formOf, h₁, hdash _ h₃]

/-- The date of a line. -/
def dateTm (host : Host) (form : DateForm) (date : Bytes) : Tm :=
  withYear host form (host.strptime form.format date dateless).1

/-- strptime recognizes a date in a text, reads it to its end and takes nothing from what
follows it. -/
def Knows (host : Host) (form : DateForm) (date : Bytes) : Prop :=
  ∀ rest, host.strptime form.format (date ++ 32 :: rest) dateless =
    ((host.strptime form.format date dateless).1, some date.length)

theorem timeText_date {host : Host} {form : DateForm} {date : Bytes}
    (hknows : Knows host form date) (hdate : DateText form date) {rest : Bytes}
    (hcolon : ¬ (form = .year ∧ 58 ∈ rest)) :
    timeText host (date ++ 32 :: rest) = (host.mktime (dateTm host form date), 32 :: rest) := by
  have hmatch : timeMatch host (date ++ 32 :: rest) =
      (dateTm host form date, some date.length) := by
    rw [timeMatch_eq, formOf_date hdate, if_neg hcolon, hknows rest]
    rfl
  unfold timeText
  rw [hmatch]
  dsimp only
  rw [List.drop_left]

end Dates

section Sizes

/-- The size of a line, or the device numbers. -/
inductive SizeField where
  | plain (size : ℕ)
  | device (major : ℕ) (gap : Bytes) (minor : ℕ)

namespace SizeField

def isDevice : SizeField → Bool
  | .plain _ => false
  | .device _ _ _ => true

def WellFormed : SizeField → Prop
  | .plain size => size < 2 ^ 63
  | .device major gap minor => major < 2 ^ 32 ∧ minor < 2 ^ 32 ∧ ∀ b ∈ gap, b = 32

def text : SizeField → Bytes
  | .plain size => natDigits size
  | .device major gap minor => natDigits major ++ 44 :: (gap ++ natDigits minor)

/-- The major number stands above the minor one. -/
def value : SizeField → ℕ
  | .plain size => size
  | .device major _ minor => major * 65536 + minor

/-- Of the minor number one byte is kept. -/
def readValue : SizeField → ℕ
  | .plain size => size
  | .device major _ minor => major * 65536 + minor % 256

def minorFits : SizeField → Prop
  | .plain _ => True
  | .device _ _ minor => minor < 256

theorem readValue_eq_iff (size : SizeField) : size.readValue = size.value ↔ size.minorFits := by
  cases size with
  | plain size => simp [readValue, value, minorFits]
  | device major gap minor =>
    simp only [readValue, value, minorFits, Nat.add_left_cancel_iff]
    exact ⟨fun h => h ▸ Nat.mod_lt minor (by decide), Nat.mod_eq_of_lt⟩

end SizeField

theorem ofInt_toNat {n : ℕ} (h : n < 2 ^ 64) : (UInt64.ofInt (n : ℤ)).toNat = n := by
  have hmod : ((n : ℤ) % 2 ^ 64).toNat = n := by omega
  rw [UInt64.ofInt, hmod, UInt64.toNat_ofNat_of_lt' h]

theorem deviceSize_eq {major minor : ℕ} (hmajor : major < 2 ^ 32) (hminor : minor < 2 ^ 32) :
    deviceSize major minor = (major * 65536 + minor % 256 : ℕ) := by
  have hlow : minor % 256 < 2 ^ 16 := by omega
  have hword : ((UInt64.ofInt major <<< 16) ||| (UInt64.ofInt minor &&& 0xFF)).toNat =
      major * 65536 + minor % 256 := by
    rw [UInt64.toNat_or, UInt64.toNat_shiftLeft, UInt64.toNat_and, ofInt_toNat (by omega),
      ofInt_toNat (by omega), show (255 : UInt64).toNat = 2 ^ 8 - 1 from rfl,
      Nat.and_two_pow_sub_one_eq_mod, show (16 : UInt64).toNat % 64 = 16 from rfl,
      Nat.shiftLeft_eq, Nat.mod_eq_of_lt (by omega), ← Nat.shiftLeft_eq,
      ← Nat.shiftLeft_add_eq_or_of_lt hlow, Nat.shiftLeft_eq]
  unfold deviceSize Int64.toInt Int64.toBitVec
  rw [UInt64.toUInt64_toInt64, BitVec.toInt_eq_toNat_of_lt]
  · exact congrArg Nat.cast hword
  · have htwo : 2 * (major * 65536 + minor % 256) < 2 ^ 64 := by omega
    rwa [← hword] at htwo

theorem parseFileSize_digits {n : ℕ} (hn : n < 2 ^ 63) {b : UInt8} (hb : isDigit b = false)
    (hnul : b ≠ 0) {rest : Bytes} (hrest : 0 ∈ rest) :
    gftpParseFileSize (natDigits n ++ b :: rest) = .ok (n : ℤ) := by
  have hfree : 0 ∉ natDigits n := fun h => absurd (natDigits_all n 0 h) (by decide)
  have hdec : decimal (n : ℤ) = natDigits n := by
    rw [decimal, if_neg (by omega), Int.natAbs_natCast]
  have hcstr : cstr (b :: rest) = b :: cstr rest :=
    List.takeWhile_cons_of_pos (by simpa using hnul)
  rw [gftpParseFileSize, textAt_append hfree (List.mem_cons_of_mem _ hrest), CRun.ok_bind, hcstr,
    ← hdec, strtol_decimal (by omega) (by omega) (by simpa using hb)]
  rfl

theorem SizeField.nul_free {size : SizeField} (h : size.WellFormed) : 0 ∉ size.text := by
  have hdigits (n : ℕ) : 0 ∉ natDigits n := fun h => absurd (natDigits_all n 0 h) (by decide)
  cases size with
  | plain size => exact hdigits size
  | device major gap minor =>
    have hgap : 0 ∉ gap := fun hmem => absurd (h.2.2 0 hmem) (by decide)
    simp [SizeField.text, hdigits, hgap]

theorem natDigits_no_space (n : ℕ) {b : UInt8} (hb : isDigit b = false) : b ∉ natDigits n := by
  intro h
  rw [natDigits_all n b h] at hb
  cases hb

theorem unixSize_field {stMode : ℕ} {size : SizeField} (hsize : size.WellFormed)
    (hkind : (stMode &&& sIfmt = sIfblk ∨ stMode &&& sIfmt = sIfchr) ↔ size.isDevice = true)
    {rest : Bytes} (hrest : 0 ∈ rest) :
    unixSize stMode (size.text ++ 32 :: rest) = pure ((size.readValue : ℤ), 32 :: rest) := by
  have hblank {n : ℕ} : findByte 32 (natDigits n ++ 32 :: rest) = .ok (some (32 :: rest)) :=
    findByte_first (natDigits_no_space n (by decide)) (natDigits_no_space n (by decide)) rest
  cases size with
  | plain size =>
    have hnot : ¬ (stMode &&& sIfmt = sIfblk ∨ stMode &&& sIfmt = sIfchr) := by
      rw [hkind]
      simp [SizeField.isDevice]
    unfold unixSize
    simp only [if_neg hnot, pure_bind, SizeField.text, hblank, Parse.read_bind,
      parseFileSize_digits hsize (show isDigit 32 = false from rfl) (by decide) hrest,
      SizeField.readValue]
  | device major gap minor =>
    obtain ⟨hmajor, hminor, hgap⟩ := hsize
    have hcomma : findByte 44 (natDigits major ++ 44 :: (gap ++ (natDigits minor ++ 32 :: rest))) =
        .ok (some (44 :: (gap ++ (natDigits minor ++ 32 :: rest)))) :=
      findByte_first (natDigits_no_space major (by decide)) (natDigits_no_space major (by decide)) _
    have hmajorRead : gftpParseFileSize
        (natDigits major ++ 44 :: (gap ++ (natDigits minor ++ 32 :: rest))) = .ok (major : ℤ) :=
      parseFileSize_digits (by omega) rfl (by decide) (by simp [hrest])
    have hskip : skipWhile (fun b => decide (b = 32)) (gap ++ (natDigits minor ++ 32 :: rest)) =
        .ok (natDigits minor ++ 32 :: rest) := by
      obtain ⟨d, digits, hdigits⟩ := List.exists_cons_of_ne_nil (natDigits_ne_nil minor)
      have hd : d ≠ 32 := by
        rintro rfl
        exact natDigits_no_space minor rfl (hdigits ▸ List.mem_cons_self ..)
      rw [hdigits]
      exact skipWhile_append (by simpa using hgap) (by simpa using hd) _
    unfold unixSize
    simp only [if_pos (hkind.mpr rfl), SizeField.text, List.append_assoc, List.cons_append, hcomma,
      Parse.read_bind, hmajorRead, List.drop_one, List.tail_cons, hskip, hblank,
      parseFileSize_digits (show minor < 2 ^ 63 by omega) (show isDigit 32 = false from rfl)
        (by decide) hrest, deviceSize_eq hmajor hminor, SizeField.readValue]

end Sizes

end Gftp.UnixLines
