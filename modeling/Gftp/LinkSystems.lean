import Gftp.LocalListings
import Gftp.SubdirWalk

/-!
A file system with symbolic links, as the local protocol and an SFTP server show it to the
walk. The local lister takes the mode and the numbers of an entry from stat, a server sends
what lstat returns and is asked for the rest; so both say of a link to a directory that it
is a directory. A change to a directory leaves the request under the path of the directory
itself, whatever path led to it.
-/

namespace Gftp.LinkSystems

open ByteStrings DirectoryReads LocalListings Protocol Subdirs SubdirWalk

variable {D : Type}

/-- A name in a directory. -/
abbrev EntryName := { name : Bytes // name ≠ [] ∧ 47 ∉ name }

/-- The names and paths are those that the program holds. resolve is the directory that a path
leads to when links are followed, path the one that getcwd returns in a directory, and
realpath what a server makes of any path. -/
structure LinkSystem (D : Type) where
  names : D → List EntryName
  readable : D → Bool
  lstat : Bytes → Option Stat
  stat : Bytes → Option Stat
  resolve : Bytes → Option D
  realpath : Bytes → Option Bytes
  path : D → Bytes
  path_rooted : ∀ d, (path d).head? = some 47
  resolve_path : ∀ d, resolve (path d) = some d
  realpath_directory : ∀ p d, resolve p = some d → realpath p = some (path d)
  realpath_other : ∀ p q, resolve p = none → realpath p = some q → resolve q = none
  stat_directory : ∀ p d, resolve p = some d → ∃ st, stat p = some st ∧ sIsdir st.stMode = true
  lstat_of_stat : ∀ p st, stat p = some st → (lstat p).isSome = true
  stat_real : ∀ p st, lstat p = some st → sIslnk st.stMode = false → stat p = some st

/-- The path of an entry. -/
def entryPath (directory name : Bytes) : Bytes := gftpBuildPath false directory name

inductive Protonum
  | gftpLocalNum
  | gftpSshv2Num

section Protocols

variable (fs : LinkSystem D)

def retryable : ListAnswer := ⟨GftpError.retryable.code, []⟩

def fatal : ListAnswer := ⟨GftpError.fatal.code, []⟩

/-- The entries that readdir returns in a directory. -/
def dirents (d : D) : List Dirent :=
  (fs.names d).map fun n =>
    ⟨n.1, fs.lstat (entryPath (fs.path d) n.1), fs.stat (entryPath (fs.path d) n.1), n.2.2⟩

def localListFiles (r : WalkRequest Unit) : ListAnswer × WalkRequest Unit :=
  match r.directory with
  | none => (fatal, r)
  | some directory =>
      match fs.resolve directory with
      | none => (retryable, r)
      | some d => (if fs.readable d then localAnswer id (dirents fs d) else retryable, r)

def localChdir (r : WalkRequest Unit) (directory : Bytes) : ℤ × WalkRequest Unit :=
  match fs.resolve directory with
  | none => (GftpError.retryable.code, r)
  | some d => (0, { r with directory := some (fs.path d) })

/-- local_stat_filename and, for the answers to SSH_FXP_STAT, sshv2_stat_filename. -/
def statFilename (r : WalkRequest Unit) (filename : Bytes) : StatAnswer × WalkRequest Unit :=
  match fs.stat filename with
  | none => (⟨GftpError.retryable.code, 0, 0⟩, r)
  | some st => (⟨0, st.stMode, st.stSize⟩, r)

def getFileSize (r : WalkRequest Unit) (filename : Bytes) : ℤ × WalkRequest Unit :=
  match fs.stat filename with
  | none => (GftpError.retryable.code, r)
  | some st => (st.stSize, r)

/-- An entry of a NAME message with the attributes that lstat returns. -/
def sshv2Entry (name : Bytes) (st : Stat) : NextFile :=
  .entry {
    file := name
    destfile := none
    size := st.stSize
    startsize := 0
    stMode := st.stMode
    stDev := 0
    stIno := 0
    existsOtherSide := false }

/-- A server leaves out an entry that it cannot lstat. -/
def sshv2ListFiles (r : WalkRequest Unit) : ListAnswer × WalkRequest Unit :=
  if r.datafd ≤ 0 then (fatal, r)
  else
    match r.directory.bind fs.resolve with
    | none => (retryable, r)
    | some d =>
        (if fs.readable d then
            ⟨0, (fs.names d).filterMap fun n =>
              (fs.lstat (entryPath (fs.path d) n.1)).map (sshv2Entry n.1)⟩
          else retryable, r)

/-- REALPATH is answered for paths that are no directories as well. -/
def sshv2Chdir (r : WalkRequest Unit) (directory : Bytes) : ℤ × WalkRequest Unit :=
  match fs.realpath directory with
  | none => (GftpError.retryable.code, r)
  | some path => (0, { r with directory := some path })

def protocol : Protonum → WalkProtocol Unit
  | .gftpLocalNum => ⟨localListFiles fs, some (getFileSize fs), some (statFilename fs),
      some (localChdir fs)⟩
  | .gftpSshv2Num => ⟨sshv2ListFiles fs, some (getFileSize fs), some (statFilename fs),
      some (sshv2Chdir fs)⟩

/-- The request can be used: a local one always, an SFTP one with its socket. -/
structure Usable (num : Protonum) (r : WalkRequest Unit) : Prop where
  connected : match num with
    | .gftpLocalNum => r.alwaysConnected = true
    | .gftpSshv2Num => 0 < r.datafd
  unix : r.vms = false

/-- What a listing says of a path. -/
def listedStat : Protonum → Bytes → Option Stat
  | .gftpLocalNum, p => if (fs.lstat p).isSome then fs.stat p else none
  | .gftpSshv2Num, p => (fs.lstat p).map fun st => { st with stDev := 0, stIno := 0 }

def isListed (num : Protonum) (d : D) (n : EntryName) : Bool :=
  (listedStat fs num (entryPath (fs.path d) n.1)).isSome

/-- The names that the walk sees of a directory. The local ones end at the first that cannot be
stat'ed. -/
def shown (num : Protonum) (d : D) : List EntryName :=
  match num with
  | .gftpLocalNum => (fs.names d).takeWhile (isListed fs num d)
  | .gftpSshv2Num => (fs.names d).filter (isListed fs num d)

/-- The file has the mode and the numbers that a listing gives its path. -/
def Truthful (num : Protonum) (path : Bytes) (f : WalkFile) : Prop :=
  ∃ st, listedStat fs num path = some st ∧ f.stMode = st.stMode ∧ f.stDev = st.stDev ∧
    f.stIno = st.stIno

/-- Neither the directory itself nor its parent. -/
def NoDots (n : EntryName) : Prop := n.1 ≠ dot ∧ n.1 ≠ dotdot

/-- The entries that are selected, and those below them through real directories. -/
inductive Reached (selection : List Bytes) : Bytes → Prop
  | selected {p : Bytes} (h : p ∈ selection) : Reached selection p
  | entry {p : Bytes} {st : Stat} {d : D} {n : EntryName} (h : Reached selection p)
      (hreal : fs.lstat p = some st) (hdir : sIsdir st.stMode = true)
      (hd : fs.resolve p = some d) (hn : n ∈ fs.names d) (hdots : NoDots n) :
      Reached selection (entryPath (fs.path d) n.1)

/-- The entries that are selected, and those that are listed below them when links are
followed. -/
inductive Followed (num : Protonum) (selection : List Bytes) : Bytes → Prop
  | selected {p : Bytes} (h : p ∈ selection) : Followed num selection p
  | entry {p : Bytes} {d : D} {n : EntryName} (h : Followed num selection p)
      (hd : fs.resolve p = some d) (hn : n ∈ shown fs num d) (hdots : NoDots n) :
      Followed num selection (entryPath (fs.path d) n.1)

/-- Every link to a directory that is followed leads to one whose entries are reached without
it. -/
def LinksStayInside (num : Protonum) (selection : List Bytes) : Prop :=
  ∀ l st d, Followed fs num selection l → fs.lstat l = some st → sIslnk st.stMode = true →
    fs.resolve l = some d → ∀ n ∈ shown fs num d, NoDots n →
      Reached fs selection (entryPath (fs.path d) n.1)

/-- What has the numbers of a directory, as guint, is this directory. -/
def NumbersApart (num : Protonum) : Prop :=
  ∀ p q st st' d, listedStat fs num p = some st → listedStat fs num q = some st' →
    st.stDev ≠ 0 → st.stIno ≠ 0 → guint st'.stDev = guint st.stDev →
    guint st'.stIno = guint st.stIno → fs.resolve p = some d → fs.resolve q = some d

end Protocols

section Listings

variable {fs : LinkSystem D} {num : Protonum} {d : D}

/-- An entry as a listing returns it. -/
def IsEntry (fs : LinkSystem D) (num : Protonum) (d : D) (n : EntryName) (g : WalkFile) : Prop :=
  g.file = n.1 ∧ Truthful fs num (entryPath (fs.path d) n.1) g

/-- The files are the entries of these names. -/
structure Matches (fs : LinkSystem D) (num : Protonum) (d : D) (names : List EntryName)
    (files : List WalkFile) : Prop where
  sound : ∀ g ∈ files, ∃ n ∈ names, IsEntry fs num d n g
  complete : ∀ n ∈ names, ∃ g ∈ files, IsEntry fs num d n g

theorem Matches.nil : Matches fs num d [] [] := ⟨nofun, nofun⟩

theorem Matches.cons {n : EntryName} {g : WalkFile} {names : List EntryName}
    {files : List WalkFile} (hentry : IsEntry fs num d n g) (h : Matches fs num d names files) :
    Matches fs num d (n :: names) (g :: files) := by
  constructor
  · intro g' hg'
    rcases List.mem_cons.mp hg' with rfl | hrest
    · exact ⟨n, List.mem_cons_self .., hentry⟩
    · obtain ⟨n', hn', hentry'⟩ := h.sound g' hrest
      exact ⟨n', List.mem_cons_of_mem _ hn', hentry'⟩
  · intro n' hn'
    rcases List.mem_cons.mp hn' with rfl | hrest
    · exact ⟨g, List.mem_cons_self .., hentry⟩
    · obtain ⟨g', hg', hentry'⟩ := h.complete n' hrest
      exact ⟨g', List.mem_cons_of_mem _ hg', hentry'⟩

theorem local_entry {n : EntryName} (dirent : Dirent) (hname : dirent.name = n.1)
    (hlstat : dirent.lstat = fs.lstat (entryPath (fs.path d) n.1))
    (hstat : dirent.stat = fs.stat (entryPath (fs.path d) n.1)) :
    (∃ g, gftpGetNextFile id (localGetNextFile dirent) = .entry g ∧
      IsEntry fs .gftpLocalNum d n g ∧ isListed fs .gftpLocalNum d n = true) ∨
    ∃ e, gftpGetNextFile id (localGetNextFile dirent) = .failed e ∧
      isListed fs .gftpLocalNum d n = false := by
  have hlisted : listedStat fs .gftpLocalNum (entryPath (fs.path d) n.1) =
      if dirent.lstat.isSome then dirent.stat else none := by
    rw [hlstat, hstat]
    rfl
  unfold localGetNextFile isListed IsEntry Truthful
  rw [hlisted]
  cases dirent.lstat with
  | none => exact Or.inr ⟨_, rfl, rfl⟩
  | some st =>
    cases dirent.stat with
    | none => exact Or.inr ⟨_, rfl, rfl⟩
    | some fst => exact Or.inl ⟨_, rfl, ⟨hname, fst, rfl, rfl, rfl, rfl⟩, rfl⟩

theorem local_matches : Matches fs .gftpLocalNum d (shown fs .gftpLocalNum d)
    (readEntries (localAnswer id (dirents fs d)).files) := by
  unfold shown localAnswer dirents
  generalize fs.names d = names
  induction names with
  | nil => exact Matches.nil
  | cons n names ih =>
    dsimp only
    rw [List.takeWhile_cons, List.map_cons, List.map_cons]
    have hcases := @local_entry D fs d n ⟨n.1, fs.lstat (entryPath (fs.path d) n.1),
      fs.stat (entryPath (fs.path d) n.1), n.2.2⟩ rfl rfl rfl
    rcases hcases with ⟨g, hg, hentry, hlisted⟩ | ⟨e, he, hlisted⟩
    · rw [if_pos hlisted, hg]
      exact Matches.cons hentry ih
    · rw [if_neg (by simp [hlisted]), he]
      exact Matches.nil

theorem sshv2_matches : Matches fs .gftpSshv2Num d (shown fs .gftpSshv2Num d)
    (readEntries ((fs.names d).filterMap fun n =>
      (fs.lstat (entryPath (fs.path d) n.1)).map (sshv2Entry n.1))) := by
  unfold shown
  generalize fs.names d = names
  induction names with
  | nil => exact Matches.nil
  | cons n names ih =>
    dsimp only
    rw [List.filter_cons, List.filterMap_cons]
    cases hl : fs.lstat (entryPath (fs.path d) n.1) with
    | none =>
      rw [if_neg (by simp [isListed, listedStat, hl])]
      exact ih
    | some st =>
      have htrue : listedStat fs .gftpSshv2Num (entryPath (fs.path d) n.1) =
          some { st with stDev := 0, stIno := 0 } := by
        simp [listedStat, hl]
      rw [if_pos (by simp [isListed, htrue])]
      exact Matches.cons ⟨rfl, _, htrue, rfl, rfl, rfl⟩ ih

theorem shown_names {n : EntryName} (h : n ∈ shown fs num d) : n ∈ fs.names d := by
  cases num with
  | gftpLocalNum => exact List.takeWhile_subset _ h
  | gftpSshv2Num => exact List.mem_of_mem_filter h

theorem listFiles_matches {r : WalkRequest Unit}
    (h : 0 ≤ ((protocol fs num).listFiles r).1.ret) :
    ∃ d, r.directory.bind fs.resolve = some d ∧
      Matches fs num d (shown fs num d) (readEntries ((protocol fs num).listFiles r).1.files) := by
  cases num with
  | gftpLocalNum =>
    cases hdirectory : r.directory with
    | none => simp [protocol, localListFiles, hdirectory, fatal, GftpError.code] at h
    | some directory =>
      cases hd : fs.resolve directory with
      | none => simp [protocol, localListFiles, hdirectory, hd, retryable, GftpError.code] at h
      | some d =>
        refine ⟨d, hd, ?_⟩
        simp only [protocol, localListFiles, hdirectory, hd] at h ⊢
        split_ifs at h ⊢ with hreadable
        · exact local_matches
        · exact absurd h (by decide)
  | gftpSshv2Num =>
    simp only [protocol, sshv2ListFiles] at h ⊢
    split_ifs at h ⊢ with hclosed
    · simp [fatal, GftpError.code] at h
    · cases hd : r.directory.bind fs.resolve with
      | none => simp [hd, retryable, GftpError.code] at h
      | some d =>
        refine ⟨d, rfl, ?_⟩
        simp only [hd] at h ⊢
        split_ifs at h ⊢ with hreadable
        · exact sshv2_matches
        · exact absurd h (by decide)

@[simp] theorem listFiles_request (r : WalkRequest Unit) :
    ((protocol fs num).listFiles r).2 = r := by
  cases num with
  | gftpLocalNum =>
    simp only [protocol, localListFiles]
    split
    · rfl
    · split <;> rfl
  | gftpSshv2Num =>
    simp only [protocol, sshv2ListFiles]
    split
    · rfl
    · split <;> rfl

@[simp] theorem statFilename_request (r : WalkRequest Unit) (p : Bytes) :
    (gftpStatFilename (protocol fs num) r p).2 = r := by
  cases num <;> simp only [gftpStatFilename, protocol, statFilename] <;> split <;> rfl

@[simp] theorem getFileSize_request (r : WalkRequest Unit) (p : Bytes) :
    (gftpGetFileSize (protocol fs num) r p).2 = r := by
  cases num <;> simp only [gftpGetFileSize, protocol, getFileSize] <;> split <;> rfl

/-- A change to a directory leaves its path, and one to anything else no directory. -/
theorem setDirectory_cases {r r' : WalkRequest Unit} {p : Bytes} {ret : ℤ}
    (hr : Usable num r) (h : gftpSetDirectory (protocol fs num) r (some p) = (ret, r')) :
    Usable num r' ∧ (0 ≤ ret → r'.directory.bind fs.resolve = fs.resolve p ∧
      ∀ d, fs.resolve p = some d → r'.directory = some (fs.path d)) := by
  have hopen : ¬(r.datafd ≤ 0 ∧ r.alwaysConnected = false) := by
    rintro ⟨hclosed, hnot⟩
    have hconnected := hr.connected
    cases num with
    | gftpLocalNum => exact absurd (hconnected.symm.trans hnot) (by decide)
    | gftpSshv2Num => exact absurd hclosed (Int.not_le.mpr hconnected)
  simp only [gftpSetDirectory, if_neg hopen] at h
  cases num with
  | gftpLocalNum =>
    simp only [protocol, localChdir] at h
    cases hd : fs.resolve p with
    | none =>
      simp only [hd] at h
      obtain ⟨rfl, rfl⟩ := Prod.mk.inj h
      exact ⟨hr, fun hret => absurd hret (by decide)⟩
    | some d =>
      simp only [hd] at h
      obtain ⟨rfl, rfl⟩ := Prod.mk.inj h
      refine ⟨⟨hr.connected, hr.unix⟩, fun _ => ⟨fs.resolve_path d, fun d' hd' => ?_⟩⟩
      rw [Option.some.inj hd']
  | gftpSshv2Num =>
    simp only [protocol, sshv2Chdir] at h
    cases hq : fs.realpath p with
    | none =>
      simp only [hq] at h
      obtain ⟨rfl, rfl⟩ := Prod.mk.inj h
      exact ⟨hr, fun hret => absurd hret (by decide)⟩
    | some q =>
      simp only [hq] at h
      obtain ⟨rfl, rfl⟩ := Prod.mk.inj h
      refine ⟨⟨hr.connected, hr.unix⟩, fun _ => ?_⟩
      cases hd : fs.resolve p with
      | none => exact ⟨fs.realpath_other p q hd hq, (by simp)⟩
      | some d =>
        obtain rfl := Option.some.inj (hq.symm.trans (fs.realpath_directory p d hd))
        refine ⟨fs.resolve_path d, fun d' hd' => ?_⟩
        rw [Option.some.inj hd']

theorem filePath_entry {r : WalkRequest Unit} (hr : Usable num r)
    (hdirectory : r.directory = some (fs.path d)) (n : EntryName) :
    filePath r n.1 = entryPath (fs.path d) n.1 := by
  obtain ⟨directory, hpath⟩ : ∃ directory, fs.path d = 47 :: directory :=
    List.head?_eq_some_iff.mp (fs.path_rooted d)
  have hplain : n.1.head? ≠ some 47 := fun hslash => n.2.2 (List.mem_of_mem_head? hslash)
  unfold filePath entryPath
  rw [hdirectory, hpath]
  dsimp only
  rw [if_neg hplain, hr.unix]

end Listings

end Gftp.LinkSystems
