import Gftp.CompareWindows
import Gftp.LocalListings
import Gftp.TextLines

/-!
The listing of a window that is saved to a file. dosave_directory_listing writes the line of
gftp_gen_ls_string for each file of the list. At a file that is not shown it does not go on to the
next one.
-/

namespace Gftp.SavedListings

open ByteStrings Decimal Fuel ListWalks ListingParsers
open CompareWindows FileSorting TextLines
open DirectoryReads (sIsdir)
open LineReading (text)
open LocalListings (isSpecialDevice)

/-- The clock, the functions for dates in the given format, and the parts of a device number. -/
structure Surroundings where
  time : ℤ
  strftime : Bytes → ℤ → Bytes
  major : ℤ → ℤ
  minor : ℤ → ℤ

/-- The first character of the attributes; a later assignment overrides an earlier one. -/
def typeChar (mode : ℕ) : UInt8 :=
  if sIsdir mode then 100
  else if mode &&& sIfmt = sIfsock then 115
  else if mode &&& sIfmt = 0o010000 then 112
  else if mode &&& sIfmt = sIfchr then 99
  else if mode &&& sIfmt = sIfblk then 98
  else if mode &&& sIfmt = sIflnk then 108
  else if mode &&& sIfmt = sIfreg then 45
  else 63

/-- The three characters of the owner, the group or the others. -/
def accessChars (mode r w x special : ℕ) (lower upper : UInt8) : Bytes :=
  [if mode &&& r ≠ 0 then 114 else 45, if mode &&& w ≠ 0 then 119 else 45,
    if mode &&& special ≠ 0 ∧ mode &&& x ≠ 0 then lower
    else if mode &&& special ≠ 0 then upper
    else if mode &&& x ≠ 0 then 120
    else 45]

/-- gftp_convert_attributes_from_mode_t. -/
def gftpConvertAttributesFromModeT (mode : ℕ) : Bytes :=
  typeChar mode :: (accessChars mode 0o400 0o200 0o100 0o4000 115 83 ++
    (accessChars mode 0o040 0o020 0o010 0o2000 115 83 ++
      accessChars mode 0o004 0o002 0o001 0o1000 116 84))

/-- A text in a field of at least so many characters. -/
def padded (width : ℕ) (t : Bytes) : Bytes := List.replicate (width - t.length) 32 ++ t

def sizeText (env : Surroundings) (fle : ListedFile) : Bytes :=
  if isSpecialDevice fle.stMode then
    decimal (env.major fle.size) ++ ascii ", " ++ decimal (env.minor fle.size)
  else padded 11 (decimal fle.size)

/-- The year of a date that lies ahead or is older than ninety days, else the time of day. -/
def dateText (env : Surroundings) (fle : ListedFile) : Bytes :=
  if env.time < fle.datetime ∨ fle.datetime < env.time - 3600 * 24 * 90 then
    env.strftime (ascii "%b %d  %Y") fle.datetime
  else env.strftime (ascii "%b %d %H:%M") fle.datetime

/-- gftp_gen_ls_string without a request, so that the name is not converted. -/
def gftpGenLsString (env : Surroundings) (fle : ListedFile) : Bytes :=
  padded 10 (gftpConvertAttributesFromModeT fle.stMode) ++ 32 :: (padded 8 fle.user ++
    32 :: (padded 8 fle.group ++ 32 :: (sizeText env fle ++ 32 :: (dateText env fle ++
      32 :: fle.file))))

/-- A round of the loop: a line for a shown file. -/
def saveTurn (env : Surroundings) (tempfle : WindowFile) : Turn UInt8 :=
  if !tempfle.shown then .again else .next (gftpGenLsString env tempfle.fle ++ [10])

/-- dosave_directory_listing: what is written to the file, if it can be opened. -/
def dosaveDirectoryListing (env : Surroundings) (opened : Bool) (templist : List WindowFile)
    (fuel : ℕ) : CRun (Option Bytes) :=
  if opened then do
    let (content, _) ← walk (saveTurn env) fuel templist
    return some content
  else .ok none

/-- The loop ends, and the lines of the file are the ones of the shown files, in their order. -/
def SavesLines (env : Surroundings) (templist : List WindowFile) : Prop :=
  ∃ content, Ends (dosaveDirectoryListing env true templist) (some content) ∧
    splitLines content =
      ((templist.filter WindowFile.shown).map fun f => gftpGenLsString env f.fle, [])

/-- No line feed in the texts of a file. -/
def OneLine (env : Surroundings) (fle : ListedFile) : Prop :=
  10 ∉ fle.user ∧ 10 ∉ fle.group ∧ 10 ∉ dateText env fle ∧ 10 ∉ fle.file

section Lines

variable {env : Surroundings} {fle : ListedFile} {templist : List WindowFile}

theorem not_mem_padded {t : Bytes} (width : ℕ) : 10 ∈ padded width t ↔ 10 ∈ t := by
  simp [padded]

theorem not_mem_decimal (n : ℤ) : 10 ∉ decimal n := by
  intro h
  rcases decimal_all n 10 h with hminus | hdigit
  · exact absurd hminus (by decide)
  · exact absurd hdigit (by decide)

theorem not_mem_accessChars (mode r w x special : ℕ) {lower upper : UInt8} (hlower : lower ≠ 10)
    (hupper : upper ≠ 10) : 10 ∉ accessChars mode r w x special lower upper := by
  unfold accessChars
  simp only [List.mem_cons, List.not_mem_nil, or_false, not_or]
  refine ⟨?_, ?_, ?_⟩
  · split_ifs <;> decide
  · split_ifs <;> decide
  · split_ifs
    · exact hlower.symm
    · exact hupper.symm
    · decide
    · decide

theorem not_mem_attributes (mode : ℕ) : 10 ∉ gftpConvertAttributesFromModeT mode := by
  have htype : 10 ≠ typeChar mode := by
    unfold typeChar
    split_ifs <;> decide
  simp only [gftpConvertAttributesFromModeT, List.mem_cons, List.mem_append, not_or]
  exact ⟨htype, not_mem_accessChars _ _ _ _ _ (by decide) (by decide),
    not_mem_accessChars _ _ _ _ _ (by decide) (by decide),
    not_mem_accessChars _ _ _ _ _ (by decide) (by decide)⟩

theorem not_mem_sizeText (env : Surroundings) (fle : ListedFile) : 10 ∉ sizeText env fle := by
  unfold sizeText
  split_ifs
  · simp only [List.mem_append, not_or]
    exact ⟨⟨not_mem_decimal _, by decide⟩, not_mem_decimal _⟩
  · rw [not_mem_padded]
    exact not_mem_decimal _

theorem oneLine_iff : 10 ∉ gftpGenLsString env fle ↔ OneLine env fle := by
  have hblank : (10 : UInt8) ≠ 32 := by decide
  simp only [gftpGenLsString, List.mem_append, List.mem_cons, not_or, not_mem_padded, OneLine]
  have hattribs := not_mem_attributes fle.stMode
  have hsize := not_mem_sizeText env fle
  tauto

/-- The lines of a text have no line feed. -/
theorem not_mem_splitLines (t : Bytes) : ∀ l ∈ (splitLines t).1, 10 ∉ l := by
  induction h : t.length using Nat.strong_induction_on generalizing t with
  | _ n ih =>
    subst h
    by_cases hmem : 10 ∈ t
    · obtain ⟨l, r, rfl, hl⟩ := List.eq_append_cons_of_mem hmem
      rw [splitLines_line hl, List.forall_mem_cons]
      exact ⟨hl, ih r.length (by simp; omega) r rfl⟩
    · rw [splitLines_last hmem]
      exact List.forall_mem_nil _

theorem splitLines_text {ls : List Bytes} : splitLines (text ls) = (ls, []) ↔ ∀ l ∈ ls, 10 ∉ l := by
  constructor
  · intro h
    have hlines := not_mem_splitLines (text ls)
    rwa [h] at hlines
  · intro h
    induction ls with
    | nil => rfl
    | cons l ls ih =>
      obtain ⟨hl, hls⟩ := List.forall_mem_cons.mp h
      rw [LineReading.text_cons, splitLines_line hl, ih hls]

/-- The loop gets through the list when every file is shown. -/
theorem save_outcome (h : ∀ f ∈ templist, f.shown = true) :
    outcome (saveTurn env) templist =
      some (text (templist.map fun f => gftpGenLsString env f.fle), []) := by
  induction templist with
  | nil => rfl
  | cons f templist ih =>
    obtain ⟨hf, hrest⟩ := List.forall_mem_cons.mp h
    rw [outcome, saveTurn, hf]
    simp [ih hrest]

theorem save_stuck (h : ∃ f ∈ templist, f.shown = false) :
    outcome (saveTurn env) templist = none := by
  induction templist with
  | nil =>
    obtain ⟨f, hf, -⟩ := h
    cases hf
  | cons f templist ih =>
    rw [outcome, saveTurn]
    by_cases hf : f.shown = true
    · obtain ⟨g, hg, hhidden⟩ := h
      have hrest : g ∈ templist := by
        rcases List.mem_cons.mp hg with rfl | hrest
        · exact absurd (hf.symm.trans hhidden) (by decide)
        · exact hrest
      simp [hf, ih ⟨g, hrest, hhidden⟩]
    · simp [hf]

end Lines

/-- The listing is saved exactly when every file is shown and none needs more than a line. -/
theorem saves_lines_iff (env : Surroundings) (templist : List WindowFile) :
    SavesLines env templist ↔
      (∀ f ∈ templist, f.shown = true) ∧ ∀ f ∈ templist, OneLine env f.fle := by
  by_cases hshown : ∀ f ∈ templist, f.shown = true
  · have hends : Ends (dosaveDirectoryListing env true templist)
        (some (text (templist.map fun f => gftpGenLsString env f.fle))) := by
      have hwalk : Ends (fun fuel => walk (saveTurn env) fuel templist >>= fun r => .ok (some r.1))
          (some (text (templist.map fun f => gftpGenLsString env f.fle))) :=
        (walk_ends (save_outcome hshown)).bind (Ends.ok _)
      exact hwalk
    have hall : templist.filter WindowFile.shown = templist := List.filter_eq_self.mpr hshown
    rw [SavesLines, hall]
    constructor
    · rintro ⟨content, hcontent, hlines⟩
      rw [← Option.some.inj (hends.unique hcontent), splitLines_text, List.forall_mem_map] at hlines
      exact ⟨hshown, fun f hf => oneLine_iff.mp (hlines f hf)⟩
    · rintro ⟨-, hone⟩
      refine ⟨_, hends, splitLines_text.mpr ?_⟩
      exact List.forall_mem_map.mpr fun f hf => oneLine_iff.mpr (hone f hf)
  · refine iff_of_false ?_ fun h => hshown h.1
    rintro ⟨content, hcontent, -⟩
    refine hcontent.not_pending fun fuel => ?_
    have hhidden : ∃ f ∈ templist, f.shown = false := by
      simpa using hshown
    rw [dosaveDirectoryListing, if_pos rfl, walk_pending (save_stuck hhidden), CRun.error_bind]


/-- A list of one file that is not shown is gone over for ever. -/
theorem hidden_file_not_passed :
    ¬ SavesLines ⟨0, fun _ _ => [], id, id⟩
      [⟨⟨⟨some (ascii "a"), some [], some [], 0, 0, 0⟩, by decide⟩, false, false⟩] := by
  rintro ⟨content, hcontent, -⟩
  refine hcontent.not_pending fun fuel => ?_
  rw [dosaveDirectoryListing, if_pos rfl, walk_pending (save_stuck ⟨_, List.mem_cons_self .., rfl⟩),
    CRun.error_bind]

end Gftp.SavedListings
