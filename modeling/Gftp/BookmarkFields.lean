import Gftp.BookmarksFile

/-!
A bookmark in the bookmarks file. The lines of its fields give the fields back, but for a
carriage return at the end of one, which is taken for a part of the line end.
-/

namespace Gftp.BookmarkFields

open ByteStrings Fuel Bookmarks BookmarkStore TextFiles Comments Decimal Passwords BookmarksFile

/-- What a bookmark stands for; a text that is not set is empty. -/
structure Site where
  path : Bytes
  hostname : Bytes
  port : UInt32
  protocol : Bytes
  remoteDir : Bytes
  localDir : Bytes
  user : Bytes
  pass : Bytes
  acct : Bytes
  deriving DecidableEq

def siteOf (d : Bookmark) : Site where
  path := d.path
  hostname := orEmpty d.hostname
  port := d.port
  protocol := orEmpty d.protocol
  remoteDir := orEmpty d.remoteDir
  localDir := orEmpty d.localDir
  user := orEmpty d.user
  pass := orEmpty d.pass
  acct := orEmpty d.acct

/-- The texts that end a line of the file. -/
def endTexts (d : Bookmark) : List Bytes :=
  [orEmpty d.hostname, orEmpty d.protocol, orEmpty d.remoteDir, orEmpty d.localDir,
    orEmpty d.user, orEmpty d.acct]

/-- The site with a carriage return taken off the texts. -/
def chompedSite (d : Bookmark) : Site :=
  { siteOf d with
    hostname := stripLast 13 (orEmpty d.hostname)
    protocol := stripLast 13 (orEmpty d.protocol)
    remoteDir := stripLast 13 (orEmpty d.remoteDir)
    localDir := stripLast 13 (orEmpty d.localDir)
    user := stripLast 13 (orEmpty d.user)
    acct := stripLast 13 (orEmpty d.acct) }

/-- The line of an option is not taken for the line of a field or of an entry. -/
structure OptionLine (l : Bytes) : Prop where
  noBracket : l.head? ≠ some 91
  noField : ∀ field ∈ fieldSetters, ¬ field.1 <+: l

/-- A bookmark whose lines are read one by one. -/
structure Lined (d : Bookmark) : Prop where
  lines : ∀ l ∈ entryLines d, LineOk l
  protocol : orEmpty d.protocol ≠ []
  saved : orEmpty d.pass ≠ [] → d.savePassword = true
  passNul : 0 ∉ orEmpty d.pass
  options : ∀ o ∈ d.localOptions, OptionLine (optionLine o)

section Lines

variable {readOption : Bytes → Bytes → Option LocalOption} {l : Bytes}

/-- Whatever a line changes, the path and the kind of the entry stay. -/
theorem lineChange_keeps {change : Bookmark → Bookmark}
    (h : lineChange readOption l = .ok (some change)) (d : Bookmark) :
    (change d).path = d.path ∧ (change d).isfolder = d.isfolder := by
  have hsetters : ∀ field ∈ fieldSetters, ∀ value,
      (field.2 value d).path = d.path ∧ (field.2 value d).isfolder = d.isfolder := by
    simp [fieldSetters]
  unfold lineChange at h
  split at h
  · next word set hfind =>
    obtain ⟨value, -, hvalue⟩ := CRun.bind_eq_ok.mp h
    obtain rfl := Option.some.inj (Except.ok.inj hvalue)
    exact hsetters _ (List.mem_of_find?_eq_some hfind) value
  · obtain ⟨o, -, rfl⟩ := Option.map_eq_some_iff.mp (Except.ok.inj h)
    exact ⟨rfl, rfl⟩

variable (readOption) in
theorem lineChange_option (h : OptionLine l) :
    ∃ o, lineChange readOption l = .ok (Option.map addOption o) := by
  refine ⟨otherLine readOption l, ?_⟩
  have hnone : fieldSetters.find? (fun field => field.1.isPrefixOf l) = none := by
    rw [List.find?_eq_none]
    intro field hfield hpre
    exact h.noField field hfield (List.isPrefixOf_iff_prefix.mp hpre)
  rw [lineChange, hnone]
  rfl

theorem OptionLine.strip (h : OptionLine l) : OptionLine (stripLast 13 l) where
  noBracket hhead := by
    obtain ⟨rest, hrest⟩ := stripLast_begins 13 l
    refine h.noBracket (hrest ▸ ?_)
    rw [List.head?_append, hhead]
    rfl
  noField field hfield hpre := h.noField field hfield (hpre.trans (stripLast_begins 13 l))

/-- The entry that was added last, after some more lines. -/
def fillWith (readOption : Bytes → Bytes → Option LocalOption) : List Bytes → Bookmark → CRun Bookmark
  | [], d => return d
  | l :: rest, d => do
      let change ← lineChange readOption (chomp (cstr (l ++ [10])))
      fillWith readOption rest (change.getD id d)

theorem fillWith_append (ls ls' : List Bytes) (d : Bookmark) :
    fillWith readOption (ls ++ ls') d =
      fillWith readOption ls d >>= fun d' => fillWith readOption ls' d' := by
  induction ls generalizing d with
  | nil => rfl
  | cons l ls ih =>
    rw [List.cons_append, fillWith, fillWith]
    cases lineChange readOption (chomp (cstr (l ++ [10]))) with
    | error e => rfl
    | ok change => exact ih _

theorem fillWith_field {word value : Bytes} {set : Bytes → Bookmark → Bookmark}
    (hword : word.getLast? ≠ some 13) (hline : LineOk (word ++ value))
    (hset : ∀ v, lineChange readOption (word ++ v) = .ok (some (set v)))
    (rest : List Bytes) (d : Bookmark) :
    fillWith readOption ((word ++ value) :: rest) d =
      fillWith readOption rest (set (stripLast 13 value) d) := by
  rw [fillWith, chomp_cstr hline, stripLast_word hword, hset, CRun.ok_bind]
  rfl

variable (readOption) in
theorem fillWith_options {ls : List Bytes} (hlines : ∀ l ∈ ls, LineOk l ∧ OptionLine l)
    (d : Bookmark) :
    ∃ d', fillWith readOption ls d = .ok d' ∧ siteOf d' = siteOf d := by
  induction ls generalizing d with
  | nil => exact ⟨d, rfl, rfl⟩
  | cons l ls ih =>
    obtain ⟨⟨hline, hoption⟩, hrest⟩ := List.forall_mem_cons.mp hlines
    obtain ⟨o, ho⟩ := lineChange_option readOption hoption.strip
    obtain ⟨d', hfill, hsite⟩ := ih hrest ((o.map addOption).getD id d)
    refine ⟨d', ?_, hsite.trans (by cases o <;> rfl)⟩
    rw [fillWith, chomp_cstr hline, ho, CRun.ok_bind]
    exact hfill

end Lines

section Values

variable {d : Bookmark}

theorem port_read (port : UInt32) :
    UInt32.ofNat (strtol (stripLast 13 (decimal port.toNat)) % 2 ^ 32).toNat = port := by
  have hlt : port.toNat < 2 ^ 32 := port.toNat_lt
  have hlast : (decimal port.toNat).getLast? ≠ some 13 := by
    intro hlast
    rcases decimal_all _ _ (List.mem_of_getLast? hlast) with heq | hdigit
    · exact absurd heq (by decide)
    · exact absurd hdigit (by decide)
  have hread : strtol (decimal (port.toNat : ℤ) ++ []) = port.toNat :=
    strtol_decimal (by omega) (by omega) (by simp)
  rw [List.append_nil] at hread
  rw [stripLast_eq_self.mpr hlast, hread, Int.emod_eq_of_lt (by omega) (by omega), Int.toNat_natCast]
  exact UInt32.ofNat_toNat

theorem Lined.protocolName_eq (h : Lined d) : protocolName d.protocol = orEmpty d.protocol :=
  if_neg h.protocol

/-- The password comes back, or there was none. -/
theorem Lined.pass_read (h : Lined d) :
    gftpDescramblePassword (stripLast 13 (savedPassword d)) = orEmpty d.pass := by
  unfold savedPassword
  cases hpass : d.pass with
  | none => rfl
  | some pass =>
    have hnul : 0 ∉ pass := by simpa [orEmpty, hpass] using h.passNul
    dsimp only
    split_ifs with hsave
    · rw [stripLast_eq_self.mpr (scramble_getLast pass), descramble_scramble hnul]
      rfl
    · have hempty : pass = [] := by
        by_contra hne
        exact hsave (h.saved (by simpa [orEmpty, hpass] using hne))
      rw [hempty]
      rfl

end Values

/-- The lines behind the path of a bookmark fill an entry with that path. -/
theorem fill_lines (readOption : Bytes → Bytes → Option LocalOption) {d : Bookmark} (h : Lined d)
    (hisfolder : d.isfolder = false) {path : Bytes} (hpath : path = d.path) :
    ∃ d', fillWith readOption (fieldLines d ++ d.localOptions.map optionLine)
        (withProtocol (Bookmark.fresh path)) = .ok d' ∧ siteOf d' = chompedSite d := by
  have hlines : ∀ l ∈ fieldLines d ++ d.localOptions.map optionLine, LineOk l := by
    intro l hl
    refine h.lines l ?_
    simp only [entryLines, hisfolder, Bool.false_eq_true, if_false, List.mem_append] at hl ⊢
    exact .inl (hl.elim (fun hfield => .inl (.inr hfield)) .inr)
  obtain ⟨hfields, hoptions⟩ := List.forall_mem_append.mp hlines
  simp only [fieldLines, List.forall_mem_cons] at hfields
  obtain ⟨hhost, hport, hprotocol, hremote, hlocal, huser, hpass, hacct, -⟩ := hfields
  have hfill : ∃ d', fillWith readOption (fieldLines d) (withProtocol (Bookmark.fresh path)) =
      .ok d' ∧ siteOf d' = chompedSite d := by
    refine ⟨?filled, ?_, ?_⟩
    rotate_left
    · rw [fieldLines, fillWith_field (by decide) hhost fun _ => rfl,
        fillWith_field (by decide) hport fun _ => rfl,
        fillWith_field (by decide) hprotocol fun _ => rfl,
        fillWith_field (by decide) hremote fun _ => rfl,
        fillWith_field (by decide) hlocal fun _ => rfl,
        fillWith_field (by decide) huser fun _ => rfl,
        fillWith_field (by decide) hpass fun _ => rfl,
        fillWith_field (by decide) hacct fun _ => rfl]
      rfl
    · simp only [siteOf, chompedSite, Site.mk.injEq]
      exact ⟨hpath, rfl, port_read d.port, congrArg (stripLast 13) h.protocolName_eq, rfl, rfl, rfl,
        h.pass_read, rfl⟩
  obtain ⟨d₁, hfill, hsite₁⟩ := hfill
  obtain ⟨d₂, hfill₂, hsite₂⟩ := fillWith_options readOption
    (fun l hl => ⟨hoptions l hl, by
      obtain ⟨o, ho, rfl⟩ := List.mem_map.mp hl
      exact h.options o ho⟩) d₁
  refine ⟨d₂, ?_, hsite₂.trans hsite₁⟩
  rw [fillWith_append, hfill, CRun.ok_bind, hfill₂]

end Gftp.BookmarkFields
