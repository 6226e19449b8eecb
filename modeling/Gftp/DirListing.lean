import Gftp.ByteStreams
import Gftp.Protocol

/-!
gftp_get_next_file over any protocol. An entry loses its path and is converted to
UTF-8, a live entry goes to the cache file, and entries that do not match the file
specification are passed over. A listing is the sequence of calls up to the first
that returns no entry. It is the sequence of single rounds with the entries that do
not match left out.
-/

namespace Gftp.DirListing

open ByteStrings ByteStreams Protocol

variable {ρ κ : Type}

/-- What one call of a protocol's get_next_file leaves. -/
structure NextFile (ρ : Type) where
  ret : Except GftpError ℕ
  fle : GftpFile
  request : ρ
  stream : Stream GftpError

/-- A protocol's get_next_file, and the fields of its requests that the caller reads. -/
structure ListProtocol (ρ : Type) where
  getNextFile : ρ → Stream GftpError → CRun (NextFile ρ)
  cached : ρ → Bool
  lastDirEntry : ρ → Option Bytes

/-- g_utf8_validate, and gftp_filename_to_utf8 over the character set a request has
settled on. -/
structure Charsets (κ : Type) where
  utf8Validate : Bytes → Bool
  filenameToUtf8 : κ → Bytes → Option Bytes × κ

/-- An open cache file: what is left to read of it, what was written to it and how many
more bytes it takes, none for no limit. -/
structure CacheFd where
  unread : Stream GftpError
  written : Bytes
  room : Option ℕ

/-- cachefd is none when it is not positive. data is what datafd still returns. -/
structure ListRequest (ρ κ : Type) where
  request : ρ
  charset : κ
  data : Stream GftpError
  cachefd : Option CacheFd

/-- The name after the last slash, none when nothing follows it. -/
def stripPath (file : Bytes) : Option Bytes :=
  if 47 ∈ file then
    if file.getLast? = some 47 then none
    else some (file.reverse.takeWhile (· ≠ 47)).reverse
  else some file

def toUtf8 (C : Charsets κ) (charset : κ) (file : Bytes) : Bytes × κ :=
  if C.utf8Validate file then (file, charset)
  else
    match C.filenameToUtf8 charset file with
    | (some utf8, charset) => (utf8, charset)
    | (none, charset) => (file, charset)

/-- An entry as it is shown: none when its name ends in a slash. Only a name of a
successful call is converted. -/
def showEntry (C : Charsets κ) (charset : κ) (ok : Bool) (fle : GftpFile) :
    Option (GftpFile × κ) :=
  match fle.file with
  | none => some (fle, charset)
  | some file =>
      match stripPath file with
      | none => none
      | some file =>
          if ok then
            let (utf8, charset) := toUtf8 C charset file
            some ({ fle with file := some utf8 }, charset)
          else some ({ fle with file := some file }, charset)

/-- A failed write leaves the cache file closed. -/
def CacheFd.write (fd : CacheFd) (d : Bytes) : Option CacheFd :=
  match fd.room with
  | none => some { fd with written := fd.written ++ d }
  | some room =>
      if d.length ≤ room then
        some { fd with written := fd.written ++ d, room := some (room - d.length) }
      else none

def storeEntry (ok cached : Bool) (entry : Option Bytes) (cachefd : Option CacheFd) :
    Option CacheFd :=
  match ok, cached, entry, cachefd with
  | true, false, some d, some fd => fd.write d
  | _, _, _, cachefd => cachefd

/-- The file descriptor is chosen once for a call. -/
def readsCache (P : ListProtocol ρ) (l : ListRequest ρ κ) : Bool :=
  P.cached l.request && l.cachefd.isSome

def source (fromCache : Bool) (l : ListRequest ρ κ) : Stream GftpError :=
  if fromCache then (l.cachefd.map CacheFd.unread).getD [] else l.data

def setSource (fromCache : Bool) (s : Stream GftpError) (l : ListRequest ρ κ) :
    ListRequest ρ κ :=
  if fromCache then { l with cachefd := l.cachefd.map fun fd => { fd with unread := s } }
  else { l with data := s }

structure Round (ρ κ : Type) where
  ret : Except GftpError ℕ
  fle : GftpFile
  request : ListRequest ρ κ

/-- One round of gftp_get_next_file. An entry whose name ends in a slash is cleared and
is not written to the cache. -/
def nextRound (P : ListProtocol ρ) (C : Charsets κ) (fromCache : Bool) (l : ListRequest ρ κ) :
    CRun (Round ρ κ) := do
  let r ← P.getNextFile l.request (source fromCache l)
  let l := setSource fromCache r.stream { l with request := r.request }
  match showEntry C l.charset r.ret.isOk r.fle with
  | none => return { ret := r.ret, fle := GftpFile.cleared, request := l }
  | some (fle, charset) =>
      let cachefd := storeEntry r.ret.isOk (P.cached r.request) (P.lastDirEntry r.request) l.cachefd
      return { ret := r.ret, fle := fle, request := { l with charset, cachefd } }

def goesOn (ret : Except GftpError ℕ) : Bool :=
  match ret with
  | .ok n => 0 < n
  | .error _ => false

/-- gftp_get_next_file; shown is gftp_match_filespec, which takes an entry without a
name. -/
def gftpGetNextFile (P : ListProtocol ρ) (C : Charsets κ) (shown : Bytes → Bool)
    (fromCache : Bool) : ℕ → ListRequest ρ κ → CRun (Round ρ κ)
  | 0, _ => .error .pending
  | fuel + 1, l => do
      let r ← nextRound P C fromCache l
      if goesOn r.ret && !(r.fle.file.all shown) then
        gftpGetNextFile P C shown fromCache fuel r.request
      else return r

structure Listed (ρ κ : Type) where
  entries : List (ℕ × GftpFile)
  ret : Except GftpError ℕ
  request : ListRequest ρ κ

/-- The calls up to the first that does not return an entry. -/
def listing (P : ListProtocol ρ) (C : Charsets κ) (shown : Bytes → Bool) :
    ℕ → ListRequest ρ κ → CRun (Listed ρ κ)
  | 0, _ => .error .pending
  | fuel + 1, l => do
      let r ← gftpGetNextFile P C shown (readsCache P l) (fuel + 1) l
      match r.ret with
      | .ok (n + 1) =>
          let rest ← listing P C shown fuel r.request
          return { rest with entries := (n + 1, r.fle) :: rest.entries }
      | ret => return { entries := [], ret := ret, request := r.request }

/-- The rounds from a request up to the first that returns no entry. -/
inductive Rounds (P : ListProtocol ρ) (C : Charsets κ) (fromCache : Bool) :
    ListRequest ρ κ → List (ℕ × GftpFile) → ListRequest ρ κ → Prop
  | done {l : ListRequest ρ κ} {r : Round ρ κ} (hround : nextRound P C fromCache l = .ok r)
      (hret : r.ret = .ok 0) : Rounds P C fromCache l [] r.request
  | entry {l l' : ListRequest ρ κ} {r : Round ρ κ} {n : ℕ} {es : List (ℕ × GftpFile)}
      (hround : nextRound P C fromCache l = .ok r) (hret : r.ret = .ok n) (hpos : 0 < n)
      (hfd : readsCache P r.request = fromCache) (hrest : Rounds P C fromCache r.request es l') :
      Rounds P C fromCache l ((n, r.fle) :: es) l'

theorem stripPath_plain {file : Bytes} (h : 47 ∉ file) : stripPath file = some file := by
  rw [stripPath, if_neg h]

theorem showEntry_plain {C : Charsets κ} {charset : κ} {fle : GftpFile} {file : Bytes}
    (hfile : fle.file = some file) (hslash : 47 ∉ file) :
    showEntry C charset true fle =
      some ({ fle with file := some (toUtf8 C charset file).1 }, (toUtf8 C charset file).2) := by
  simp [showEntry, hfile, stripPath_plain hslash]

theorem nextRound_shown {P : ListProtocol ρ} {C : Charsets κ} {fromCache : Bool}
    {l : ListRequest ρ κ} {r : NextFile ρ} {n : ℕ} {shown : GftpFile × κ}
    (hnext : P.getNextFile l.request (source fromCache l) = .ok r) (hret : r.ret = .ok n)
    (hshow : showEntry C l.charset true r.fle = some shown) :
    nextRound P C fromCache l = .ok
      { ret := .ok n
        fle := shown.1
        request :=
          { setSource fromCache r.stream { l with request := r.request } with
            charset := shown.2
            cachefd := storeEntry true (P.cached r.request) (P.lastDirEntry r.request)
              (setSource fromCache r.stream { l with request := r.request }).cachefd } } := by
  have hcharset : (setSource fromCache r.stream { l with request := r.request }).charset =
      l.charset := by
    cases fromCache <;> rfl
  simp only [nextRound, hnext, CRun.ok_bind, hret, Except.isOk, Except.toBool, hcharset, hshow]
  rfl

/-- What a live round adds to the cache file. -/
def storedBy (cached : Bool) (entry : Option Bytes) : Bytes := if cached then [] else entry.getD []

@[simp] theorem storedBy_none (cached : Bool) : storedBy cached none = [] := by
  cases cached <;> rfl

theorem storedBy_append (cached : Bool) (d d' : Bytes) :
    storedBy cached (some d) ++ storedBy cached (some d') = storedBy cached (some (d ++ d')) := by
  cases cached <;> rfl

/-- The cache file is open; a live one takes every write and holds the bytes stored. -/
def Storing (cached : Bool) (l : ListRequest ρ κ) (stored : Bytes) : Prop :=
  ∃ fd, l.cachefd = some fd ∧ (cached = false → fd.room = none ∧ fd.written = stored)

section Storing

variable {P : ListProtocol ρ} {C : Charsets κ} {cached : Bool} {l : ListRequest ρ κ}
  {stored : Bytes}

theorem Storing.readsCache (h : Storing cached l stored) (hmode : P.cached l.request = cached) :
    readsCache P l = cached := by
  obtain ⟨fd, hfd, -⟩ := h
  simp [DirListing.readsCache, hmode, hfd]

theorem Storing.storeEntry (h : Storing cached l stored) (entry : Option Bytes)
    (s : Stream GftpError) (request : ρ) :
    ∃ fd, storeEntry true cached entry (setSource cached s { l with request := request }).cachefd =
        some fd ∧ (cached = true → fd.unread = s) ∧
      (cached = false → fd.room = none ∧ fd.written = stored ++ storedBy cached entry) := by
  obtain ⟨fd, hl, hfd⟩ := h
  cases cached with
  | true =>
    exact ⟨{ fd with unread := s }, by simp [DirListing.storeEntry, setSource, hl], by simp, by simp⟩
  | false =>
    obtain ⟨hroom, hwritten⟩ := hfd rfl
    cases entry with
    | none =>
      exact ⟨fd, by simp [DirListing.storeEntry, setSource, hl], by simp,
        by simp [hroom, hwritten, storedBy]⟩
    | some d =>
      refine ⟨{ fd with written := fd.written ++ d }, ?_, by simp,
        by simp [hroom, hwritten, storedBy]⟩
      simp [DirListing.storeEntry, setSource, hl, CacheFd.write, hroom]

/-- A round that stores what it has to: its entry, and the request it leaves. -/
theorem Storing.round {r : NextFile ρ} {n : ℕ} {shown : GftpFile × κ}
    (h : Storing cached l stored)
    (hnext : P.getNextFile l.request (source cached l) = .ok r) (hret : r.ret = .ok n)
    (hshow : showEntry C l.charset true r.fle = some shown)
    (hmode : P.cached r.request = cached) :
    ∃ r', nextRound P C cached l = .ok r' ∧ r'.ret = .ok n ∧ r'.fle = shown.1 ∧
      r'.request.charset = shown.2 ∧ r'.request.request = r.request ∧
      source cached r'.request = r.stream ∧
      Storing cached r'.request (stored ++ storedBy cached (P.lastDirEntry r.request)) := by
  have hround := nextRound_shown hnext hret hshow
  obtain ⟨fd, hfd, hunread, hwritten⟩ :=
    h.storeEntry (P.lastDirEntry r.request) r.stream r.request
  rw [hmode, hfd] at hround
  refine ⟨_, hround, rfl, rfl, rfl, ?_, ?_, fd, rfl, hwritten⟩
  · cases cached <;> rfl
  · cases cached with
    | true => simp [source, hunread rfl]
    | false => rfl

end Storing

section Rounds

variable {P : ListProtocol ρ} {C : Charsets κ} {fromCache : Bool} {l l' : ListRequest ρ κ}
  {es : List (ℕ × GftpFile)}

def matching (shown : Bytes → Bool) (es : List (ℕ × GftpFile)) : List (ℕ × GftpFile) :=
  es.filter fun e => e.2.file.all shown

/-- A call passes over the entries that do not match and returns the next that does, or
the end of the listing. -/
theorem getNextFile_of_rounds {shown : Bytes → Bool} {fuel : ℕ} (h : Rounds P C fromCache l es l')
    (hfuel : es.length < fuel) :
    (matching shown es = [] ∧ ∃ r, gftpGetNextFile P C shown fromCache fuel l = .ok r ∧
      r.ret = .ok 0 ∧ r.request = l') ∨
    (∃ n r rest, gftpGetNextFile P C shown fromCache fuel l = .ok r ∧ r.ret = .ok (n + 1) ∧
      matching shown es = (n + 1, r.fle) :: matching shown rest ∧ rest.length < es.length ∧
      readsCache P r.request = fromCache ∧ Rounds P C fromCache r.request rest l') := by
  induction h generalizing fuel with
  | @done l r hround hret =>
    obtain ⟨fuel, rfl⟩ := Nat.exists_eq_succ_of_ne_zero (by omega : fuel ≠ 0)
    refine Or.inl ⟨rfl, r, ?_, hret, rfl⟩
    simp [gftpGetNextFile, hround, hret, goesOn, pure, Except.pure]
  | @entry l l' r n es hround hret hpos hfd hrest ih =>
    obtain ⟨fuel, rfl⟩ := Nat.exists_eq_succ_of_ne_zero (by omega : fuel ≠ 0)
    obtain ⟨n, rfl⟩ := Nat.exists_eq_succ_of_ne_zero hpos.ne'
    simp only [List.length_cons] at hfuel
    by_cases hshown : r.fle.file.all shown = true
    · refine Or.inr ⟨n, r, es, ?_, hret, ?_, by simp, hfd, hrest⟩
      · simp [gftpGetNextFile, hround, hret, goesOn, hshown, pure, Except.pure]
      · simp [matching, hshown]
    · have hcall : gftpGetNextFile P C shown fromCache (fuel + 1) l =
          gftpGetNextFile P C shown fromCache fuel r.request := by
        simp [gftpGetNextFile, hround, hret, goesOn, hshown]
      have hskip : matching shown ((n + 1, r.fle) :: es) = matching shown es := by
        simp [matching, hshown]
      rw [hcall, hskip]
      rcases ih (show es.length < fuel by omega) with hend | ⟨m, r', rest, hr', hret', hmatch, hlen, hfd', hrest'⟩
      · exact Or.inl hend
      · refine Or.inr ⟨m, r', rest, hr', hret', hmatch, ?_, hfd', hrest'⟩
        simp only [List.length_cons]
        omega

/-- A listing consists of the matching entries of its rounds. -/
theorem listing_of_rounds {shown : Bytes → Bool} {fuel : ℕ} (h : Rounds P C fromCache l es l')
    (hfd : readsCache P l = fromCache) (hfuel : es.length < fuel) :
    listing P C shown fuel l =
      .ok { entries := matching shown es, ret := .ok 0, request := l' } := by
  induction fuel generalizing l es with
  | zero => omega
  | succ fuel ih =>
    rcases @getNextFile_of_rounds _ _ _ _ _ _ _ _ shown _ h hfuel with
      ⟨hnone, r, hr, hret, hend⟩ | ⟨n, r, rest, hr, hret, hmatch, hlen, hfd', hrest⟩
    · simp [listing, hfd, hr, hret, hnone, hend, pure, Except.pure]
    · have htail := ih hrest hfd' (by omega)
      simp [listing, hfd, hr, hret, htail, hmatch, pure, Except.pure]

end Rounds

end Gftp.DirListing
