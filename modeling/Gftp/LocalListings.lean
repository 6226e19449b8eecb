import Gftp.DirectoryReads
import Mathlib.Data.List.Perm.Basic

/-!
The three loops over the entries of a local directory. local_get_next_file returns
GFTP_ERETRYABLE for an entry that cannot be stat'ed and GFTP_EFATAL at the end. The loop of
the window goes on behind the first; those of the walk end there as at the end, so that they
see the same entries only when nothing stands behind an entry that cannot be stat'ed.
-/

namespace Gftp.LocalListings

open ByteStrings DirectoryReads Protocol

/-- The fields of a struct stat that are read. -/
structure Stat where
  stDev : ℕ
  stIno : ℕ
  stMode : ℕ
  stSize : ℤ
  stRdev : ℤ

/-- An entry of readdir, with what lstat and stat return for its name. A name has no slash. -/
structure Dirent where
  name : Bytes
  lstat : Option Stat
  stat : Option Stat
  noSlash : 47 ∉ name

def isSpecialDevice (mode : ℕ) : Bool :=
  mode &&& ListingParsers.sIfmt = ListingParsers.sIfblk ∨
    mode &&& ListingParsers.sIfmt = ListingParsers.sIfchr

/-- local_get_next_file on an entry. -/
def localGetNextFile (d : Dirent) : NextFile :=
  match d.lstat, d.stat with
  | some st, some fst =>
      .entry {
        file := d.name
        destfile := none
        size := if isSpecialDevice fst.stMode then st.stRdev else fst.stSize
        startsize := 0
        stMode := fst.stMode
        stDev := fst.stDev
        stIno := fst.stIno
        existsOtherSide := false }
  | _, _ => .failed .retryable

/-- gftp_get_next_file on what the protocol returned; utf8 is the conversion of a name. -/
def gftpGetNextFile (utf8 : Bytes → Bytes) : NextFile → NextFile
  | .entry fle => .entry { fle with file := utf8 fle.file }
  | .failed e => .failed e

/-- What gftp_list_files and gftp_get_next_file return for a directory that can be opened. -/
def localAnswer (utf8 : Bytes → Bytes) (dirents : List Dirent) : ListAnswer where
  ret := 0
  files := dirents.map fun d => gftpGetNextFile utf8 (localGetNextFile d)

/-- The loop of gftpui_common_run_ls; the list is built from its end, as files is. -/
def runLsLoop : List NextFile → List WalkFile → List WalkFile
  | [], files => files
  | .failed e :: rest, files => if e = .retryable then runLsLoop rest files else files
  | .entry fle :: rest, files =>
      if fle.file = dot then runLsLoop rest files else runLsLoop rest (fle :: files)

/-- The entry for the parent directory that is added when the listing has none. -/
def parentEntry : WalkFile where
  file := dotdot
  destfile := none
  size := 0
  startsize := 0
  stMode := ListingParsers.sIfdir ||| 0o700
  stDev := 0
  stIno := 0
  existsOtherSide := false

/-- gftpui_common_run_ls on a listing that returned 0 or more, before the list is sorted. -/
def gftpuiCommonRunLs (a : ListAnswer) : List WalkFile :=
  let files := runLsLoop a.files []
  if files.any (·.file = dotdot) then files else parentEntry :: files

/-- The entries that the window shows, but the one for the parent directory. -/
def shownEntries (a : ListAnswer) : List WalkFile := (gftpuiCommonRunLs a).filter notDots

/-- A protocol whose next listing gives this answer. -/
def answering {σ : Type} (a : ListAnswer) : WalkProtocol σ where
  listFiles r := (a, r)
  getFileSize := none
  statFilename := none
  chdir := none

/-- gftp_get_dir_listing on a local directory lists the entries shown, and gftp_gen_dir_hash
has their names and sizes; the order does not matter. -/
def ListingsAgree {σ τ : Type} (a : ListAnswer) (fromreq : WalkRequest σ) (T : WalkProtocol τ)
    (toreq : Option (WalkRequest τ)) (getothdir : Bool) : Prop :=
  let (ret, dirhash, toreq') := otherSide T getothdir toreq
  (ret ≠ GftpError.fatal.code →
    (gftpGetDirListing (answering a) T fromreq toreq getothdir).files.Perm
      ((shownEntries a).map (listEntry fromreq toreq' dirhash))) ∧
  ∃ hash, (gftpGenDirHash (answering a) fromreq).2.1 = some hash ∧
    (hash.filter fun x => x.1 ≠ dot ∧ x.1 ≠ dotdot).Perm
      ((shownEntries a).map fun fle => (fle.file, fle.size))

def statable (d : Dirent) : Bool := d.lstat.isSome && d.stat.isSome

/-- Behind an entry that cannot be stat'ed stands none that can, but for the directory itself
and its parent. -/
def UnstatableLast (utf8 : Bytes → Bytes) (dirents : List Dirent) : Prop :=
  ∀ d ∈ dirents.dropWhile statable, statable d = true →
    utf8 d.name = dot ∨ utf8 d.name = dotdot

/-- All the entries, whatever stands between them. -/
def allEntries (l : List NextFile) : List WalkFile :=
  l.filterMap fun x =>
    match x with
    | .entry fle => some fle
    | .failed _ => none

def isEntry : NextFile → Bool
  | .entry _ => true
  | .failed _ => false

section Loops

variable {l : List NextFile} {a : ListAnswer}

theorem readEntries_append (l : List NextFile) :
    readEntries l ++ allEntries (l.dropWhile isEntry) = allEntries l := by
  induction l with
  | nil => rfl
  | cons x l ih =>
    cases x with
    | entry fle => exact congrArg (fle :: ·) ih
    | failed e => rfl

/-- When every error is GFTP_ERETRYABLE, the loop of the window sees every entry. -/
theorem runLsLoop_eq (h : ∀ e, .failed e ∈ l → e = .retryable) (files : List WalkFile) :
    runLsLoop l files = ((allEntries l).filter (·.file ≠ dot)).reverse ++ files := by
  induction l generalizing files with
  | nil => rfl
  | cons x l ih =>
    have hrest := fun files => ih (fun e he => h e (List.mem_cons_of_mem _ he)) files
    cases x with
    | failed e =>
      have he : e = .retryable := h e (List.mem_cons_self ..)
      rw [runLsLoop, if_pos he, hrest]
      rfl
    | entry fle =>
      have hall : allEntries (.entry fle :: l) = fle :: allEntries l := rfl
      rw [runLsLoop, hall]
      by_cases hdot : fle.file = dot
      · rw [if_pos hdot, hrest, List.filter_cons_of_neg (by simpa using hdot)]
      · rw [if_neg hdot, hrest, List.filter_cons_of_pos (by simpa using hdot)]
        simp

theorem shownEntries_eq (h : ∀ e, .failed e ∈ a.files → e = .retryable) :
    shownEntries a = ((allEntries a.files).filter notDots).reverse := by
  have hloop := runLsLoop_eq h []
  have hdots : ∀ l : List WalkFile, (l.filter (·.file ≠ dot)).filter notDots = l.filter notDots := by
    intro l
    rw [List.filter_filter]
    refine List.filter_congr fun fle _ => ?_
    by_cases hdot : fle.file = dot <;> simp [notDots, hdot]
  have hparent : ∀ files : List WalkFile, (if files.any (·.file = dotdot) then files else parentEntry :: files).filter
      notDots = files.filter notDots := by
    intro files
    split
    · rfl
    · exact List.filter_cons_of_neg (by decide)
  rw [shownEntries, gftpuiCommonRunLs, hparent, hloop, List.append_nil, List.filter_reverse, hdots]

/-- The entries seen in front of the first error are all of them, when none stands behind. -/
theorem perm_iff_nothing_behind {β : Type} (f : WalkFile → β) :
    ((readEntries l).filter notDots |>.map f).Perm
      (((allEntries l).filter notDots).reverse.map f) ↔
        (allEntries (l.dropWhile isEntry)).filter notDots = [] := by
  have hall := congrArg (List.filter notDots) (readEntries_append l)
  rw [List.filter_append] at hall
  constructor
  · intro hperm
    have hlength := hperm.length_eq
    rw [← hall] at hlength
    simp only [List.length_map, List.length_reverse, List.length_append] at hlength
    exact List.length_eq_zero_iff.mp (by omega)
  · intro hnone
    rw [hnone, List.append_nil] at hall
    rw [← hall]
    exact (List.reverse_perm _).symm.map f

end Loops

section Local

variable {σ τ : Type}

theorem localAnswer_failed {utf8 : Bytes → Bytes} {dirents : List Dirent} {e : GftpError}
    (h : .failed e ∈ (localAnswer utf8 dirents).files) : e = .retryable := by
  obtain ⟨d, -, hd⟩ := List.mem_map.mp h
  unfold localGetNextFile at hd
  split at hd
  · cases hd
  · exact (NextFile.failed.inj hd).symm

theorem statable_entry (utf8 : Bytes → Bytes) {d : Dirent} (h : statable d = true) :
    ∃ fle, gftpGetNextFile utf8 (localGetNextFile d) = .entry fle ∧ fle.file = utf8 d.name := by
  unfold statable at h
  unfold localGetNextFile
  cases hl : d.lstat with
  | none => simp [hl] at h
  | some st =>
    cases hs : d.stat with
    | none => simp [hs] at h
    | some fst => exact ⟨_, rfl, rfl⟩

theorem isEntry_local (utf8 : Bytes → Bytes) (d : Dirent) :
    isEntry (gftpGetNextFile utf8 (localGetNextFile d)) = statable d := by
  unfold localGetNextFile statable
  cases d.lstat with
  | none => rfl
  | some st => cases d.stat <;> rfl

/-- What stands behind the first entry that cannot be stat'ed. -/
theorem nothing_behind_iff {utf8 : Bytes → Bytes} {dirents : List Dirent} :
    (allEntries ((localAnswer utf8 dirents).files.dropWhile isEntry)).filter notDots = [] ↔
      UnstatableLast utf8 dirents := by
  have hdrop : (localAnswer utf8 dirents).files.dropWhile isEntry =
      (dirents.dropWhile statable).map fun d => gftpGetNextFile utf8 (localGetNextFile d) := by
    show (dirents.map _).dropWhile isEntry = _
    rw [List.dropWhile_map]
    congr 1
    exact congrArg (List.dropWhile · dirents) (funext fun d => isEntry_local utf8 d)
  rw [hdrop, List.filter_eq_nil_iff]
  constructor
  · intro hnone d hd hstatable
    obtain ⟨fle, hentry, hfile⟩ := statable_entry utf8 hstatable
    have hmem := hnone fle (List.mem_filterMap.mpr ⟨_, List.mem_map_of_mem hd, by rw [hentry]⟩)
    by_contra hdots
    rw [← hfile, not_or] at hdots
    exact hmem (by simp [notDots, hdots])
  · intro hlast fle hfle hshown
    obtain ⟨x, hx, hentry⟩ := List.mem_filterMap.mp hfle
    obtain ⟨d, hd, rfl⟩ := List.mem_map.mp hx
    have hstatable : statable d = true := by
      rw [← isEntry_local utf8]
      cases hx : gftpGetNextFile utf8 (localGetNextFile d) with
      | entry fle' => rfl
      | failed e => simp [hx] at hentry
    obtain ⟨fle', hentry', hfile⟩ := statable_entry utf8 hstatable
    rw [hentry'] at hentry
    obtain rfl := Option.some.inj hentry
    have hdots := hlast d hd hstatable
    rw [← hfile] at hdots
    simp only [notDots, decide_eq_true_eq] at hshown
    exact hdots.elim hshown.1 hshown.2

/-- The three loops see the same entries of a local directory, if and only if those that cannot
be stat'ed stand behind those that can. -/
theorem local_listings_agree_iff (utf8 : Bytes → Bytes) (dirents : List Dirent)
    (fromreq : WalkRequest σ) (T : WalkProtocol τ) (toreq : Option (WalkRequest τ))
    (getothdir : Bool) :
    ListingsAgree (localAnswer utf8 dirents) fromreq T toreq getothdir ↔
      UnstatableLast utf8 dirents := by
  have hshown : shownEntries (localAnswer utf8 dirents) = _ :=
    shownEntries_eq fun e => localAnswer_failed
  have hhash : (gftpGenDirHash (answering (localAnswer utf8 dirents)) fromreq).2.1 =
      some ((readEntries (localAnswer utf8 dirents).files).map fun fle => (fle.file, fle.size)).reverse :=
    rfl
  have hfilter : ((readEntries (localAnswer utf8 dirents).files).map
        fun fle => (fle.file, fle.size)).filter (fun x => x.1 ≠ dot ∧ x.1 ≠ dotdot) =
      ((readEntries (localAnswer utf8 dirents).files).filter notDots).map
        fun fle => (fle.file, fle.size) := by
    rw [List.filter_map]
    rfl
  rw [← nothing_behind_iff]
  unfold ListingsAgree
  rcases hother : otherSide T getothdir toreq with ⟨ret, dirhash, toreq'⟩
  simp only [hhash, hshown]
  constructor
  · rintro ⟨-, hash, hsome, hperm⟩
    obtain rfl := Option.some.inj hsome
    rw [List.filter_reverse, hfilter] at hperm
    exact (perm_iff_nothing_behind _).mp ((List.reverse_perm _).symm.trans hperm)
  · intro hnone
    refine ⟨fun hret => ?_, _, rfl, ?_⟩
    · have hlisted : (gftpGetDirListing (answering (localAnswer utf8 dirents)) T fromreq toreq
          getothdir).files = ((readEntries (localAnswer utf8 dirents).files).filter notDots).map
            (listEntry fromreq toreq' dirhash) := by
        unfold gftpGetDirListing
        simp only [hother, if_neg hret]
        rfl
      rw [hlisted]
      exact (perm_iff_nothing_behind _).mpr hnone
    · rw [List.filter_reverse, hfilter]
      exact (List.reverse_perm _).trans ((perm_iff_nothing_behind _).mpr hnone)

/-- A dangling link stands in front of a file. -/
theorem file_behind_dangling_link :
    ¬ ∀ (utf8 : Bytes → Bytes) (dirents : List Dirent) (fromreq : WalkRequest Unit)
      (T : WalkProtocol Unit) (toreq : Option (WalkRequest Unit)) (getothdir : Bool),
      ListingsAgree (localAnswer utf8 dirents) fromreq T toreq getothdir := by
  intro h
  let st : Stat := ⟨1, 2, 0o100644, 5, 0⟩
  obtain ⟨hlisting, -⟩ := h id
    [⟨ascii "link", some st, none, by decide⟩, ⟨ascii "file", some st, some st, by decide⟩]
    ⟨⟨-1, false, true⟩, some (ascii "/tmp"), false, ()⟩ (answering ⟨0, []⟩) none false
  have hperm := (hlisting (by decide)).length_eq
  exact absurd hperm (by decide)

end Local

end Gftp.LocalListings
