import Gftp.CacheUnlink

/-!
Listings that fill and use the cache. gftp_list_files answers from the cache when the
index has a valid entry whose file is not empty, else it registers a new entry before
the protocol is asked for anything; gftp_get_next_file stores one entry at a time.
-/

namespace Gftp.CacheListings

open ByteStrings ByteStreams LineReader LineReading FileTable CacheIndex CacheLines CacheUnlink
  Protocol

variable {cachedir : Bytes}

/-- cachefd, open to read a cached listing or to store one. -/
inductive CacheFile
  | reading (fd : ℕ)
  | writing (fd : ℕ)
  deriving DecidableEq

/-- The fields of a request that listings use. use_cache is set by the protocol's init. -/
structure Lister where
  request : CacheRequest
  useCache : Bool
  cached : Bool
  cachefd : Option CacheFile

/-- answer is what the protocol's list_files returns. -/
def gftpListFiles (now cacheTtl : Int64) (suffix : Bytes) (answer : Except GftpError Unit)
    (r : Lister) (dir : CacheDir cachedir) :
    CRun (Except GftpError Unit × Lister × CacheDir cachedir) :=
  let r := { r with cached := false }
  if r.useCache then do
    match ← gftpFindCacheEntry r.request now dir with
    | some (fd, serverType) =>
        return (.ok (), { r with
          request := { r.request with serverType := serverType }
          cached := true
          cachefd := some (.reading fd) }, dir)
    | none =>
        let (dir, fd) := gftpNewCacheEntry r.request now cacheTtl suffix dir
        return (answer, { r with cachefd := some (.writing fd) }, dir)
  else .ok (answer, r, dir)

def append (dir : CacheDir cachedir) (fd : ℕ) (d : Bytes) : CacheDir cachedir where
  files := dir.files.append fd d
  no_new_index := dir.no_new_index

/-- What gftp_get_next_file does with last_dir_entry after a call that did not fail. A
failing write has stored that many bytes; a file opened for reading takes none. -/
def storeDirEntry (lastDirEntry : Bytes) (failed : Option ℕ) (r : Lister) (dir : CacheDir cachedir) :
    Lister × CacheDir cachedir :=
  if r.cached then (r, dir)
  else match r.cachefd, failed with
    | none, _ => (r, dir)
    | some (.reading _), _ => ({ r with cachefd := none }, dir)
    | some (.writing fd), none => (r, append dir fd lastDirEntry)
    | some (.writing fd), some k => ({ r with cachefd := none }, append dir fd (lastDirEntry.take k))

def gftpEndTransfer (r : Lister) : Lister := { r with cachefd := none }

/-- The cache file stays open. -/
def gftpDisconnect (r : Lister) : Lister := { r with cached := false }

section Finding

variable {dir : CacheDir cachedir} {entries : List CacheEntry} {request : CacheRequest} {now : Int64}

/-- The entry a lookup stops at. -/
def firstValid (now : Int64) (description : Bytes) (entries : List CacheEntry) : Option CacheEntry :=
  entries.find? fun e => ¬ e.expirationDate < now ∧ description = e.url

theorem firstValid_some {description : Bytes} {e : CacheEntry}
    (h : firstValid now description entries = some e) :
    e ∈ entries ∧ ¬ e.expirationDate < now ∧ description = e.url :=
  ⟨List.mem_of_find?_eq_some h, by simpa using List.find?_some h⟩

/-- A loop that ends at the first valid entry. -/
theorem foldLines_find {description : Bytes}
    {body : Bytes → Option (Bytes × Int32) → CRun (Option (Bytes × Int32) × Bool)}
    (hbody : ∀ e ∈ entries, ∀ found, body e.line found =
      .ok (if ¬ e.expirationDate < now ∧ description = e.url then (some (e.file, e.serverType), false)
        else (found, true))) :
    foldLines body (entries.map CacheEntry.line) none =
      .ok ((firstValid now description entries).map fun e => (e.file, e.serverType)) := by
  induction entries with
  | nil => rfl
  | cons e entries ih =>
    have hrest := ih fun x hx => hbody x (List.mem_cons_of_mem _ hx)
    simp only [List.map_cons, foldLines, hbody e (List.mem_cons_self ..), CRun.ok_bind, firstValid,
      List.find?_cons]
    by_cases hvalid : ¬ e.expirationDate < now ∧ description = e.url
    · simp only [if_pos hvalid, decide_eq_true hvalid]
      rfl
    · simp only [if_neg hvalid, decide_eq_false hvalid]
      exact hrest

/-- A lookup answers with the first valid entry, unless its file is missing or empty. -/
theorem findCacheEntry_some {found : Option (ℕ × Int32)} {fd : ℕ} {serverType : Int32}
    (hindex : dir.files.read (indexFile cachedir) = some (text (entries.map CacheEntry.line)))
    (hshort : ∀ e ∈ entries, e.line.length + 1 < bufsiz)
    (h : gftpFindCacheEntry request now dir = .ok found) (hfound : found = some (fd, serverType)) :
    ∃ e ∈ entries, ¬ e.expirationDate < now ∧
      gftpGenerateCacheDescription request bufsiz false = e.url ∧
      dir.files.names e.file = some fd ∧ dir.files.data fd ≠ [] := by
  unfold gftpFindCacheEntry at h
  rw [hindex] at h
  dsimp only at h
  rw [forLines_index hshort, @foldLines_find entries now
    (gftpGenerateCacheDescription request bufsiz false) _ ?_] at h
  swap
  · intro e he found
    rw [e.findLine_line (Nat.lt_of_succ_lt (hshort e he)), CRun.ok_bind]
    by_cases hvalid : ¬ e.expirationDate < now ∧
        gftpGenerateCacheDescription request bufsiz false = e.url
    · simp only [if_pos hvalid]
      rfl
    · simp only [if_neg hvalid]
      rfl
  simp only [CRun.ok_bind] at h
  cases hfirst : firstValid now (gftpGenerateCacheDescription request bufsiz false) entries with
  | none =>
    simp only [hfirst, Option.map_none, pure, Except.pure, Except.ok.injEq] at h
    rw [← h] at hfound
    simp at hfound
  | some e =>
    obtain ⟨hmem, hvalid, hurl⟩ := firstValid_some hfirst
    simp only [hfirst, Option.map_some] at h
    refine ⟨e, hmem, hvalid, hurl, ?_⟩
    cases hname : dir.files.names e.file with
    | none =>
      simp only [hname, pure, Except.pure, Except.ok.injEq] at h
      rw [← h] at hfound
      simp at hfound
    | some i =>
      simp only [hname] at h
      split at h
      · simp only [pure, Except.pure, Except.ok.injEq] at h
        rw [← h] at hfound
        simp at hfound
      · rename_i hdata
        simp only [pure, Except.pure, Except.ok.injEq] at h
        rw [← h] at hfound
        simp only [Option.some.injEq, Prod.mk.injEq] at hfound
        obtain ⟨rfl, -⟩ := hfound
        exact ⟨rfl, hdata⟩

/-- A description that was cut off is no url of an entry. -/
theorem description_eq_url {e : CacheEntry} (hshort : e.line.length + 1 < bufsiz)
    (h : gftpGenerateCacheDescription request bufsiz false = e.url) :
    cacheUrl request false = e.url := by
  have hlen : e.url.length < bufsiz - 1 := by
    have hline : e.line.length = e.url.length + (e.line.length - e.url.length) := by
      have : e.url.length ≤ e.line.length := by simp [CacheEntry.line, cacheLine]
      omega
    omega
  unfold gftpGenerateCacheDescription at h
  rw [← h, List.length_take] at hlen
  rw [← h, List.take_of_length_le (by omega)]

end Finding

section Files

variable {dir : CacheDir cachedir} {request : CacheRequest} {now cacheTtl : Int64} {suffix : Bytes}

theorem data_append_ne {i j : ℕ} (h : j ≠ i) (d : Bytes) :
    (append dir i d).files.data j = dir.files.data j := Function.update_of_ne h ..

theorem data_append (i : ℕ) (d : Bytes) :
    (append dir i d).files.data i = dir.files.data i ++ d :=
  dir.files.data_writeAt_end d rfl

/-- A file that has a name keeps its bytes when another one is opened or made. -/
theorem data_create {Path : Type} [DecidableEq Path] {fs : Files Path} {p q : Path} {i : ℕ}
    (h : fs.names q = some i) : (fs.create p).1.data i = fs.data i := by
  unfold Files.create
  split
  · rfl
  · exact Function.update_of_ne (Nat.ne_of_lt (fs.bound q i h)) ..

/-- The new entry's file is new and empty, and the files of other entries are as before. -/
theorem newCacheEntry_files (hfree : dir.files.names (cacheFile cachedir suffix) = none) :
    let new := gftpNewCacheEntry request now cacheTtl suffix dir
    new.1.files.names (cacheFile cachedir suffix) = some new.2 ∧ new.1.files.data new.2 = [] ∧
      ∀ p i, p ≠ indexFile cachedir → dir.files.names p = some i →
        new.1.files.names p = some i ∧ new.1.files.data i = dir.files.data i ∧ i ≠ new.2 := by
  intro new
  let opened := dir.files.create (indexFile cachedir)
  have hne := cacheFile_ne_indexFile cachedir suffix
  have hfree' : opened.1.names (cacheFile cachedir suffix) = none :=
    (Files.names_create_ne hne).trans hfree
  obtain ⟨hname, hdata⟩ := Files.create_free hfree'
  obtain ⟨hindex, -⟩ := Files.create_self dir.files (indexFile cachedir)
  have hother : ∀ p i, p ≠ indexFile cachedir → dir.files.names p = some i →
      new.1.files.names p = some i := by
    intro p i hp hi
    have hp' : p ≠ cacheFile cachedir suffix := by
      intro h
      rw [h, hfree] at hi
      simp at hi
    exact (Files.names_create_ne hp').trans ((Files.names_create_ne hp).trans hi)
  have hindex' : new.1.files.names (indexFile cachedir) = some opened.2 :=
    (Files.names_create_ne hne.symm).trans hindex
  have hsep : ∀ p i, p ≠ indexFile cachedir → new.1.files.names p = some i → i ≠ opened.2 := by
    intro p i hp hi h
    exact hp (new.1.files.inj _ _ _ hi (h ▸ hindex'))
  refine ⟨hname, ?_, ?_⟩
  · exact (Function.update_of_ne (hsep _ _ hne hname) ..).trans hdata
  · intro p i hp hi
    have hi' := hother p i hp hi
    refine ⟨hi', ?_, ?_⟩
    · refine (Function.update_of_ne (hsep p i hp hi') ..).trans ?_
      have hopened : opened.1.names p = some i := (Files.names_create_ne hp).trans hi
      exact (data_create hopened).trans (data_create hi)
    · intro h
      have hp' := new.1.files.inj _ _ _ hi' (h ▸ hname)
      rw [hp', hfree] at hi
      simp at hi

end Files

end Gftp.CacheListings
