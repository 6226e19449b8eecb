import Gftp.CacheRewrite
import Gftp.Runs

/-!
Histories of cache operations. A history records which files gftp_new_cache_entry has
made, which entries it has written that were not removed since, and which files were
unlinked because the index named them. As long as the fields written are clean and
short and no rewrite keeps a line, the index reads back as the entries written, and
only files made by the cache are unlinked.
-/

namespace Gftp.CacheUnlink

open ByteStrings ByteStreams LineReader LineReading LineCalls FileTable CacheIndex CacheLines
  CacheRewrite Runs Protocol

variable {cachedir : Bytes}

inductive CacheOp
  | new (request : CacheRequest) (now cacheTtl : Int64) (suffix : Bytes)
  | find (request : CacheRequest) (now : Int64)
  | clear
  | delete (request : Option CacheRequest) (descr : Option CString) (ignoreDirectory : Bool)
      (now : Int64)

structure CacheState (cachedir : Bytes) where
  dir : CacheDir cachedir
  created : List Bytes
  written : List ParsedLine
  unlinked : List Bytes

def CacheState.start (dir : CacheDir cachedir) : CacheState cachedir :=
  { dir := dir, created := [], written := [], unlinked := [] }

/-- The entries that a deletion does not remove. -/
def survivors (request : Option CacheRequest) (descr : Option CString) (ignoreDirectory : Bool)
    (now : Int64) (written : List ParsedLine) : List ParsedLine :=
  match deleteDescription request descr ignoreDirectory with
  | none => written
  | some description => written.filter (!delEntry now description ignoreDirectory ·)

/-- One operation. mkstemp gives a name that is not in use. -/
inductive CacheStep : CacheState cachedir → CacheOp → CacheState cachedir → Prop
  | new {s : CacheState cachedir} {request : CacheRequest} {now cacheTtl : Int64} {suffix : Bytes}
      (hfresh : s.dir.files.names (cacheFile cachedir suffix) = none) :
      CacheStep s (.new request now cacheTtl suffix)
        { s with
          dir := (gftpNewCacheEntry request now cacheTtl suffix s.dir).1
          created := s.created ++ [cacheFile cachedir suffix]
          written := s.written ++ [{
            url := cacheUrl request false
            file := cacheFile cachedir suffix
            serverType := request.serverType
            expirationDate := now + cacheTtl }] }
  | find {s : CacheState cachedir} {request : CacheRequest} {now : Int64}
      {found : Option (ℕ × Int32)} (hrun : gftpFindCacheEntry request now s.dir = .ok found) :
      CacheStep s (.find request now) s
  | clear {s : CacheState cachedir} {r : Cleared cachedir}
      (hrun : gftpClearCacheFiles s.dir = .ok r) :
      CacheStep s .clear
        { s with dir := r.dir, written := [], unlinked := s.unlinked ++ r.unlinked }
  | delete {s : CacheState cachedir} {request : Option CacheRequest} {descr : Option CString}
      {ignoreDirectory : Bool} {now : Int64} {r : Cleared cachedir}
      (hrun : gftpDeleteCacheEntry request descr ignoreDirectory now s.dir = .ok r) :
      CacheStep s (.delete request descr ignoreDirectory now)
        { s with
          dir := r.dir
          written := survivors request descr ignoreDirectory now s.written
          unlinked := s.unlinked ++ r.unlinked }

def parseLine (line : Bytes) (parsed : List (Option ParsedLine)) :
    CRun (List (Option ParsedLine) × Bool) := do
  let (centry, buf) ← gftpParseCacheLine (lineBuf line)
  return (parsed ++ [centry.map (·.shown buf)], true)

/-- The lines of the index as gftp_parse_cache_line takes them, none for one that it
refuses. -/
def readIndex (dir : CacheDir cachedir) : CRun (List (Option ParsedLine)) :=
  match dir.files.read (indexFile cachedir) with
  | none => .ok []
  | some index =>
      forLines bufsiz parseLine (index.length + 1) none (ofFile index : Stream GftpError) []

/-- Every entry written and not removed is parsed back as one line with its fields,
and only files that were made for entries have been unlinked. -/
structure Safe (s : CacheState cachedir) : Prop where
  parsed : readIndex s.dir = .ok (s.written.map some)
  unlinked : ∀ file ∈ s.unlinked, file ∈ s.created

/-- The fields of a new entry are clean and its line is short; a deletion removes all
entries. -/
def StepSafe (s : CacheState cachedir) : CacheOp → Prop
  | .new request now cacheTtl suffix =>
      Clean (cacheUrl request false) ∧ Clean (cacheFile cachedir suffix) ∧
        (cacheLine (cacheUrl request false) (cacheFile cachedir suffix) request.serverType
          (now + cacheTtl)).length + 1 < bufsiz
  | .find _ _ => True
  | .clear => True
  | .delete request descr ignoreDirectory now =>
      (deleteDescription request descr ignoreDirectory).isSome →
        survivors request descr ignoreDirectory now s.written = []

/-- The index holds the lines of the entries written, which are as new entries are. -/
structure Indexed (s : CacheState cachedir) (entries : List CacheEntry) : Prop where
  written : s.written = entries.map CacheEntry.fields
  index : s.dir.files.read (indexFile cachedir) = some (text (entries.map CacheEntry.line)) ∨
    s.dir.files.read (indexFile cachedir) = none ∧ entries = []
  short : ∀ e ∈ entries, e.line.length + 1 < bufsiz
  files : ∀ e ∈ entries, e.file ∈ s.created ∧ ∃ suffix, e.file = cacheFile cachedir suffix
  unlinked : ∀ file ∈ s.unlinked, file ∈ s.created

/-- A new entry adds its line to the index and touches no other name. -/
theorem newCacheEntry_index (request : CacheRequest) (now cacheTtl : Int64) (suffix : Bytes)
    (dir : CacheDir cachedir) :
    (gftpNewCacheEntry request now cacheTtl suffix dir).1.files.read (indexFile cachedir) =
      some ((dir.files.read (indexFile cachedir)).getD [] ++
        (cacheLine (cacheUrl request false) (cacheFile cachedir suffix) request.serverType
          (now + cacheTtl) ++ [10])) := by
  obtain ⟨hname, hdata⟩ := Files.create_self dir.files (indexFile cachedir)
  have hne := (cacheFile_ne_indexFile cachedir suffix).symm
  have hname' := (Files.names_create_ne hne).trans hname
  have hread := @Files.read_create_ne _ _ (dir.files.create (indexFile cachedir)).1
    (cacheFile cachedir suffix) (indexFile cachedir) hne
  rw [Files.read, hname', Files.read, hname] at hread
  have hkeep := Option.some.inj hread
  unfold gftpNewCacheEntry
  rw [Files.read_append hname', hkeep, hdata]

theorem foldLines_parse {entries : List CacheEntry} (hshort : ∀ e ∈ entries, e.line.length < bufsiz)
    (parsed : List (Option ParsedLine)) :
    foldLines parseLine (entries.map CacheEntry.line) parsed =
      .ok (parsed ++ entries.map fun e => some e.fields) := by
  induction entries generalizing parsed with
  | nil => simp [foldLines]
  | cons e entries ih =>
    obtain ⟨tail, hbuf⟩ := e.lineBuf_line (hshort e (List.mem_cons_self ..))
    have hline : parseLine e.line parsed = .ok (parsed ++ [some e.fields], true) := by
      simp only [parseLine, hbuf, e.parse_line, CRun.ok_bind, Option.map_some, e.shown_parsed]
      rfl
    simp only [List.map_cons, foldLines, hline, CRun.ok_bind, if_true]
    rw [ih fun x hx => hshort x (List.mem_cons_of_mem _ hx)]
    simp

theorem foldLines_clear {entries : List CacheEntry} (hshort : ∀ e ∈ entries, e.line.length < bufsiz)
    (st : Cleared cachedir) :
    ∃ st', foldLines clearLine (entries.map CacheEntry.line) st = .ok st' ∧
      st'.unlinked = st.unlinked ++ entries.map CacheEntry.file := by
  induction entries generalizing st with
  | nil => exact ⟨st, rfl, by simp⟩
  | cons e entries ih =>
    obtain ⟨st', hfold, hunlinked⟩ := ih (fun x hx => hshort x (List.mem_cons_of_mem _ hx))
      { dir := st.dir.unlink e.file, unlinked := st.unlinked ++ [e.file] }
    refine ⟨st', ?_, by simp [hunlinked]⟩
    simp only [List.map_cons, foldLines, e.clearLine_line (hshort e (List.mem_cons_self ..)),
      CRun.ok_bind, if_true, hfold]

theorem lineFits_entries {entries : List CacheEntry} (h : ∀ e ∈ entries, e.line.length + 1 < bufsiz) :
    ∀ l ∈ entries.map CacheEntry.line, LineFits bufsiz l := by
  intro l hl
  obtain ⟨e, he, rfl⟩ := List.mem_map.mp hl
  exact e.lineFits (Nat.lt_of_succ_lt (h e he))

theorem forLines_index {σ : Type} {body : Bytes → σ → CRun (σ × Bool)} {entries : List CacheEntry}
    (h : ∀ e ∈ entries, e.line.length + 1 < bufsiz) (st : σ) :
    forLines bufsiz body ((text (entries.map CacheEntry.line)).length + 1) none
        (ofFile (text (entries.map CacheEntry.line)) : Stream GftpError) st =
      foldLines body (entries.map CacheEntry.line) st := by
  have hlines := lineFits_entries h
  have hcount := length_le_text (entries.map CacheEntry.line)
  exact forLines_text (by decide)
    (unread_file (nul_not_mem_text fun l hl => (hlines l hl).nul_free)) hlines (by omega)

theorem clearCacheFiles_eq {dir : CacheDir cachedir} {entries : List CacheEntry}
    (hindex : dir.files.read (indexFile cachedir) = some (text (entries.map CacheEntry.line)))
    (hshort : ∀ e ∈ entries, e.line.length + 1 < bufsiz) :
    ∃ r, gftpClearCacheFiles dir = .ok r ∧ r.unlinked = entries.map CacheEntry.file ∧
      r.dir.files.read (indexFile cachedir) = none := by
  obtain ⟨st, hfold, hunlinked⟩ :=
    foldLines_clear (fun e he => Nat.lt_of_succ_lt (hshort e he)) { dir := dir, unlinked := [] }
  refine ⟨{ st with dir := st.dir.unlink (indexFile cachedir) }, ?_, hunlinked, ?_⟩
  · unfold gftpClearCacheFiles
    rw [hindex]
    dsimp only
    rw [forLines_index hshort, hfold]
    rfl
  · show (st.dir.files.unlink (indexFile cachedir)).read (indexFile cachedir) = none
    rw [Files.read, Files.names_unlink, if_pos rfl]
    rfl

namespace Indexed

variable {s t : CacheState cachedir} {entries : List CacheEntry}

theorem safe (h : Indexed s entries) : Safe s := by
  refine ⟨?_, h.unlinked⟩
  have hwritten : s.written.map some = entries.map fun e => some e.fields := by
    rw [h.written, List.map_map]
    rfl
  rw [hwritten]
  unfold readIndex
  rcases h.index with hindex | ⟨hnone, rfl⟩
  · rw [hindex]
    dsimp only
    rw [forLines_index h.short, foldLines_parse fun e he => Nat.lt_of_succ_lt (h.short e he)]
    rfl
  · rw [hnone]
    rfl

theorem new {request : CacheRequest} {now cacheTtl : Int64} {suffix : Bytes}
    (h : Indexed s entries) (hstep : CacheStep s (.new request now cacheTtl suffix) t)
    (hsafe : StepSafe s (.new request now cacheTtl suffix)) :
    ∃ entries', Indexed t entries' := by
  cases hstep with
  | new hfresh =>
    obtain ⟨hurl, hfile, hshort⟩ := hsafe
    let e : CacheEntry :=
      { url := cacheUrl request false
        file := cacheFile cachedir suffix
        serverType := request.serverType
        expirationDate := now + cacheTtl
        url_clean := hurl
        file_clean := hfile }
    have hread := newCacheEntry_index request now cacheTtl suffix s.dir
    refine ⟨entries ++ [e], ?_, Or.inl (hread.trans ?_), ?_, ?_, ?_⟩
    · rw [List.map_append, ← h.written]
      rfl
    · rw [List.map_append, text_append]
      rcases h.index with hindex | ⟨hnone, rfl⟩
      · rw [hindex]
        simp [e, CacheEntry.line]
      · rw [hnone]
        simp [e, CacheEntry.line]
    · intro x hx
      rcases List.mem_append.mp hx with hx | hx
      · exact h.short x hx
      · rw [List.mem_singleton.mp hx]
        exact hshort
    · intro x hx
      rcases List.mem_append.mp hx with hx | hx
      · obtain ⟨hmem, hsuffix⟩ := h.files x hx
        exact ⟨List.mem_append_left _ hmem, hsuffix⟩
      · rw [List.mem_singleton.mp hx]
        exact ⟨List.mem_append_right _ (List.mem_singleton.mpr rfl), suffix, rfl⟩
    · exact fun file hfile => List.mem_append_left _ (h.unlinked file hfile)

theorem clear (h : Indexed s entries) (hstep : CacheStep s .clear t) :
    ∃ entries', Indexed t entries' := by
  cases hstep with
  | clear hrun =>
    rename_i r
    rcases h.index with hindex | ⟨hnone, rfl⟩
    · obtain ⟨r', hrun', hunlinked, hgone⟩ := clearCacheFiles_eq hindex h.short
      obtain rfl := Except.ok.inj (hrun.symm.trans hrun')
      refine ⟨[], rfl, Or.inr ⟨hgone, rfl⟩, by simp, by simp, ?_⟩
      intro file hfile
      rcases List.mem_append.mp hfile with hfile | hfile
      · exact h.unlinked file hfile
      · rw [hunlinked] at hfile
        obtain ⟨e, he, rfl⟩ := List.mem_map.mp hfile
        exact (h.files e he).1
    · unfold gftpClearCacheFiles at hrun
      rw [hnone] at hrun
      obtain rfl := Except.ok.inj hrun
      exact ⟨[], rfl, Or.inr ⟨hnone, rfl⟩, by simp, by simp, by simpa using h.unlinked⟩

theorem delete {request : Option CacheRequest} {descr : Option CString} {ignoreDirectory : Bool}
    {now : Int64} (h : Indexed s entries)
    (hstep : CacheStep s (.delete request descr ignoreDirectory now) t)
    (hsafe : StepSafe s (.delete request descr ignoreDirectory now)) :
    ∃ entries', Indexed t entries' := by
  cases hstep with
  | delete hrun =>
    rename_i r
    cases hdescr : deleteDescription request descr ignoreDirectory with
    | none =>
      unfold gftpDeleteCacheEntry at hrun
      rw [hdescr] at hrun
      obtain rfl := Except.ok.inj hrun
      refine ⟨entries, ?_, h.index, h.short, h.files, by simpa using h.unlinked⟩
      simpa [survivors, hdescr] using h.written
    | some description =>
      have hall : survivors request descr ignoreDirectory now s.written = [] :=
        hsafe (by rw [hdescr]; rfl)
      have hkept : entries.filter (fun e => !delEntry now description ignoreDirectory e.fields) =
          [] := by
        rw [survivors, hdescr, h.written] at hall
        simpa [List.filter_eq_nil_iff] using hall
      rcases h.index with hindex | ⟨hnone, rfl⟩
      · obtain ⟨r', hrun', hread, hunlinked, _⟩ := @deleteCacheEntry_eq _ _ _ _ _ _ now _ _ hindex h.short
          (fun e he => (h.files e he).2) hdescr (fun e => rfl)
        obtain rfl := Except.ok.inj (hrun.symm.trans hrun')
        rw [hkept] at hread
        refine ⟨[], by simpa using hall, Or.inl hread, by simp, by simp, ?_⟩
        intro file hfile
        rcases List.mem_append.mp hfile with hfile | hfile
        · exact h.unlinked file hfile
        · rw [hunlinked] at hfile
          obtain ⟨e, he, rfl⟩ := List.mem_map.mp hfile
          exact (h.files e (List.mem_filter.mp he).1).1
      · unfold gftpDeleteCacheEntry at hrun
        rw [hdescr] at hrun
        dsimp only at hrun
        rw [hnone] at hrun
        obtain rfl := Except.ok.inj hrun
        exact ⟨[], by simpa using hall, Or.inr ⟨hnone, rfl⟩, by simp, by simp,
          by simpa using h.unlinked⟩

theorem step {op : CacheOp} (h : Indexed s entries) (hsafe : StepSafe s op)
    (hstep : CacheStep s op t) : ∃ entries', Indexed t entries' := by
  cases op with
  | new => exact h.new hstep hsafe
  | find =>
    cases hstep
    exact ⟨entries, h⟩
  | clear => exact h.clear hstep
  | delete => exact h.delete hstep hsafe

end Indexed

/-- In every history whose new entries are clean and short and whose deletions keep no
line, the index reads back as the entries written, and only files that were made for
entries are unlinked. -/
theorem cache_history_safe (dir : CacheDir cachedir)
    (hempty : dir.files.read (indexFile cachedir) = none) (s : CacheState cachedir)
    (hrun : Reaches CacheStep StepSafe (CacheState.start dir) s) : Safe s := by
  have hstart : Indexed (CacheState.start dir) [] :=
    ⟨rfl, Or.inr ⟨hempty, rfl⟩, by simp, by simp, by simp [CacheState.start]⟩
  obtain ⟨entries, hs⟩ := hrun.invariant (fun s => ∃ entries, Indexed s entries) ⟨[], hstart⟩
    fun s op t ⟨entries, hs⟩ hok hstep => hs.step hok hstep
  exact hs.safe

/-- A cache directory that is still empty. -/
def emptyDir : CacheDir (ascii "/c") := { files := Files.none, no_new_index := rfl }

theorem listingPrefix : 0 ∉ ascii "ftp" := by decide

theorem listingUser : 0 ∉ ascii "u" := by decide

theorem listingHost : 0 ∉ ascii "h" := by decide

/-- A session with the server h in a directory. -/
def listing (directory : Bytes) (h : 0 ∉ directory) : CacheRequest where
  urlPrefix := ⟨ascii "ftp", listingPrefix⟩
  username := some ⟨ascii "u", listingUser⟩
  hostname := some ⟨ascii "h", listingHost⟩
  port := 21
  directory := some ⟨directory, h⟩
  serverType := 1

/-- The state behind a new entry, written at the time 0 for 100 seconds. -/
def CacheState.listed (s : CacheState cachedir) (request : CacheRequest) (suffix : Bytes) :
    CacheState cachedir where
  dir := (gftpNewCacheEntry request 0 100 suffix s.dir).1
  created := s.created ++ [cacheFile cachedir suffix]
  written := s.written ++ [⟨cacheUrl request false, cacheFile cachedir suffix, request.serverType, 100⟩]
  unlinked := s.unlinked

theorem listed_reaches {s₀ s : CacheState cachedir} {request : CacheRequest} {suffix : Bytes}
    (h : Reaches CacheStep StepSafe s₀ s)
    (hfresh : s.dir.files.names (cacheFile cachedir suffix) = none)
    (hsafe : StepSafe s (.new request 0 100 suffix)) :
    Reaches CacheStep StepSafe s₀ (s.listed request suffix) :=
  h.tail hsafe (.new hfresh)

def standardEntry (url suffix : Bytes) (h : Clean url) (h' : Clean (cacheFile (ascii "/c") suffix)) :
    CacheEntry where
  url := url
  file := cacheFile (ascii "/c") suffix
  serverType := 1
  expirationDate := 100
  url_clean := h
  file_clean := h'

/-- Two listings are cached, and the cache is cleared. -/
theorem plain_listings_safe : ∃ s, Reaches CacheStep StepSafe (CacheState.start emptyDir) s ∧
    s.unlinked = [cacheFile (ascii "/c") (ascii "abcdef"), cacheFile (ascii "/c") (ascii "ghijkl")] ∧
      Safe s := by
  let first := (CacheState.start emptyDir).listed (listing (ascii "/d") (by decide)) (ascii "abcdef")
  let second := first.listed (listing (ascii "/e") (by decide)) (ascii "ghijkl")
  have hfirst : Reaches CacheStep StepSafe (CacheState.start emptyDir) first :=
    listed_reaches (Reaches.refl _) rfl ⟨by decide, by decide, by decide⟩
  have hsecond : Reaches CacheStep StepSafe (CacheState.start emptyDir) second :=
    listed_reaches hfirst rfl ⟨by decide, by decide, by decide⟩
  have hindex : second.dir.files.read (indexFile (ascii "/c")) = some (text (
      [standardEntry (ascii "ftp://u@h:21/d") (ascii "abcdef") (by decide) (by decide),
        standardEntry (ascii "ftp://u@h:21/e") (ascii "ghijkl") (by decide) (by decide)].map
          CacheEntry.line)) := by decide
  obtain ⟨r, hrun, hunlinked, -⟩ := clearCacheFiles_eq hindex (by decide)
  have hsafe : StepSafe second .clear := trivial
  have hclear := hsecond.tail hsafe (@CacheStep.clear _ second r hrun)
  refine ⟨_, hclear, ?_, cache_history_safe emptyDir rfl _ hclear⟩
  exact hunlinked

/-- A directory name of the server with tabs and a newline makes clearing the cache
unlink a file of its choice. -/
theorem crafted_directory_unlinks :
    ¬ ∀ (cachedir : Bytes) (dir : CacheDir cachedir) (s : CacheState cachedir),
      dir.files.read (indexFile cachedir) = none →
      Reaches CacheStep (fun _ _ => True) (CacheState.start dir) s → Safe s := by
  intro h
  let request := listing (ascii "/x\t/k\t1\t5\n") (by decide)
  let after := gftpNewCacheEntry request 0 100 (ascii "abcdef") emptyDir
  let forged : CacheEntry :=
    { url := ascii "ftp://u@h:21/x", file := ascii "/k", serverType := 1, expirationDate := 5,
      url_clean := by decide, file_clean := by decide }
  let rest : CacheEntry :=
    { url := [], file := cacheFile (ascii "/c") (ascii "abcdef"), serverType := 1,
      expirationDate := 100, url_clean := by decide, file_clean := by decide }
  have hindex : after.1.files.read (indexFile (ascii "/c")) =
      some (text ([forged, rest].map CacheEntry.line)) := by decide
  obtain ⟨r, hrun, hunlinked, _⟩ := clearCacheFiles_eq hindex (by decide)
  have hsafe := h _ emptyDir _ rfl ((Reaches.tail (Reaches.refl _) trivial
    (CacheStep.new rfl : CacheStep _ (.new request 0 100 (ascii "abcdef")) _)).tail trivial
      (CacheStep.clear hrun))
  have hmem : ascii "/k" ∈ [cacheFile (ascii "/c") (ascii "abcdef")] :=
    hsafe.unlinked (ascii "/k") (by
      show ascii "/k" ∈ [] ++ r.unlinked
      rw [hunlinked]
      exact List.mem_cons_self ..)
  exact absurd hmem (by decide)

end Gftp.CacheUnlink
