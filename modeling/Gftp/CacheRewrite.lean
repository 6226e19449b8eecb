import Gftp.CacheLines
import Gftp.LineCalls

/-!
Rewriting the cache index. gftp_delete_cache_entry copies the lines it keeps to a new
index and renames it. Each line is written one newline and one byte short, so the new
index has the kept lines exactly when there are none.
-/

namespace Gftp.CacheRewrite

open ByteStrings ByteStreams LineReader LineReading LineCalls FileTable CacheIndex CacheLines

variable {cachedir : Bytes}

/-- What the lines of the kept entries leave in the new index. -/
def shortened (entries : List CacheEntry) : Bytes := (entries.map fun e => e.line.dropLast).flatten

/-- The loop writes the kept lines, shortened, and unlinks the files of the others. -/
theorem foldLines_rewrite {now : Int64} {description : Bytes} {ignoreDirectory : Bool}
    {newfd : ℕ} {del : CacheEntry → Bool}
    (hdel : ∀ e, del e = delEntry now description ignoreDirectory e.fields)
    {entries : List CacheEntry} {st : Rewrite}
    (hshort : ∀ e ∈ entries, e.line.length < bufsiz)
    (hoffset : st.offset = (st.files.data newfd).length) :
    ∃ st', foldLines (rewriteLine now description ignoreDirectory newfd)
        (entries.map CacheEntry.line) st = .ok st' ∧
      st'.files.data newfd = st.files.data newfd ++ shortened (entries.filter (!del ·)) ∧
      st'.unlinked = st.unlinked ++ (entries.filter del).map CacheEntry.file ∧
      ∀ p, st'.files.names p =
        if p ∈ (entries.filter del).map CacheEntry.file then none else st.files.names p := by
  induction entries generalizing st with
  | nil => exact ⟨st, rfl, by simp [shortened], by simp, by simp⟩
  | cons e entries ih =>
    have hline := e.deleteLine_line (hshort e (List.mem_cons_self ..)) now description
      ignoreDirectory
    rw [← hdel e] at hline
    have hrest : ∀ x ∈ entries, x.line.length < bufsiz :=
      fun x hx => hshort x (List.mem_cons_of_mem _ hx)
    simp only [List.map_cons, foldLines, rewriteLine, hline, CRun.ok_bind]
    cases hcase : del e with
    | true =>
      obtain ⟨st', hfold, hdata, hunlinked, hnames⟩ := ih hrest
        (show (st.apply newfd (.remove e.file)).offset = _ from hoffset)
      refine ⟨st', hfold, ?_, ?_, ?_⟩
      · rw [hdata, List.filter_cons_of_neg (by simp [hcase])]
        rfl
      · rw [hunlinked, List.filter_cons_of_pos hcase]
        simp [Rewrite.apply]
      · intro p
        rw [hnames, List.filter_cons_of_pos hcase]
        simp only [Rewrite.apply, Files.names_unlink, List.map_cons, List.mem_cons]
        by_cases hmem : p ∈ (entries.filter del).map CacheEntry.file
        · simp [hmem]
        · by_cases hp : p = e.file <;> simp [hmem, hp]
    | false =>
      let st₁ := st.apply newfd (.keep e.line.dropLast)
      have hwrite : st₁.files.data newfd = st.files.data newfd ++ e.line.dropLast :=
        st.files.data_writeAt_end _ hoffset
      obtain ⟨st', hfold, hdata, hunlinked, hnames⟩ := @ih st₁ hrest (by
        rw [hwrite, List.length_append, ← hoffset]
        rfl)
      refine ⟨st', hfold, ?_, ?_, ?_⟩
      · rw [hdata, hwrite, List.filter_cons_of_pos (by simp [hcase])]
        simp [shortened]
      · rw [hunlinked, List.filter_cons_of_neg (by simp [hcase])]
        rfl
      · intro p
        rw [hnames, List.filter_cons_of_neg (by simp [hcase])]
        rfl

theorem shortened_length (entries : List CacheEntry) :
    (shortened entries).length + 2 * entries.length =
      (text (entries.map CacheEntry.line)).length := by
  induction entries with
  | nil => rfl
  | cons e entries ih =>
    have hpos := List.length_pos_iff.mpr e.line_ne_nil
    simp only [shortened, List.map_cons, List.flatten_cons, List.length_append,
      List.length_dropLast, text_cons, List.length_cons] at ih ⊢
    omega

/-- The rewritten index has exactly the kept lines, each with its newline, and exactly
the files of the other entries are unlinked. -/
structure ExactRewrite (dir : CacheDir cachedir) (del : CacheEntry → Bool)
    (entries : List CacheEntry) (r : Cleared cachedir) : Prop where
  index : r.dir.files.read (indexFile cachedir) =
    some (text ((entries.filter (!del ·)).map CacheEntry.line))
  unlinked : r.unlinked = (entries.filter del).map CacheEntry.file
  names : ∀ p, p ≠ indexFile cachedir → r.dir.files.names p =
    if p ∈ (entries.filter del).map CacheEntry.file then none else dir.files.names p

/-- What the call does on an index of well-formed lines. -/
theorem deleteCacheEntry_eq {dir : CacheDir cachedir} {entries : List CacheEntry}
    {request : Option CacheRequest} {descr : Option CString} {ignoreDirectory : Bool}
    {now : Int64} {description : Bytes} {del : CacheEntry → Bool}
    (hindex : dir.files.read (indexFile cachedir) = some (text (entries.map CacheEntry.line)))
    (hshort : ∀ e ∈ entries, e.line.length + 1 < bufsiz)
    (hfiles : ∀ e ∈ entries, ∃ suffix, e.file = cacheFile cachedir suffix)
    (hdescr : deleteDescription request descr ignoreDirectory = some description)
    (hdel : ∀ e, del e = delEntry now description ignoreDirectory e.fields) :
    ∃ r, gftpDeleteCacheEntry request descr ignoreDirectory now dir = .ok r ∧
      r.dir.files.read (indexFile cachedir) = some (shortened (entries.filter (!del ·))) ∧
      r.unlinked = (entries.filter del).map CacheEntry.file ∧
      ∀ p, p ≠ indexFile cachedir → r.dir.files.names p =
        if p ∈ (entries.filter del).map CacheEntry.file then none else dir.files.names p := by
  have hne := newIndexFile_ne_indexFile cachedir
  obtain ⟨hopen, hempty⟩ := Files.create_free dir.no_new_index
  let start : Rewrite :=
    { files := (dir.files.create (newIndexFile cachedir)).1, offset := 0, unlinked := [] }
  obtain ⟨st, hfold, hdata, hunlinked, hnames⟩ := @foldLines_rewrite _ _ _
    (dir.files.create (newIndexFile cachedir)).2 _ hdel entries start
    (fun e he => Nat.lt_of_succ_lt (hshort e he)) (by rw [hempty]; rfl)
  have hremoved : newIndexFile cachedir ∉ (entries.filter del).map CacheEntry.file := by
    intro hmem
    obtain ⟨e, he, heq⟩ := List.mem_map.mp hmem
    obtain ⟨suffix, hfile⟩ := hfiles e (List.mem_filter.mp he).1
    exact cacheFile_ne_newIndexFile cachedir suffix (hfile.symm.trans heq)
  have hlines : ∀ l ∈ entries.map CacheEntry.line, LineFits (bufsiz - 1) l := by
    intro l hl
    obtain ⟨e, he, rfl⟩ := List.mem_map.mp hl
    have hlen := hshort e he
    exact e.lineFits (by omega)
  have hnul : 0 ∉ text (entries.map CacheEntry.line) :=
    nul_not_mem_text fun l hl => (hlines l hl).nul_free
  have hnew : (st.files.unlink (indexFile cachedir)).names (newIndexFile cachedir) =
      some (dir.files.create (newIndexFile cachedir)).2 := by
    rw [Files.names_unlink, if_neg hne, hnames, if_neg hremoved]
    exact hopen
  obtain ⟨hsame, hindex', hother⟩ := Files.rename_some (q := indexFile cachedir) hnew
  refine ⟨{
    dir := {
      files := (st.files.unlink (indexFile cachedir)).rename (newIndexFile cachedir)
        (indexFile cachedir)
      no_new_index := Files.names_rename_self hne }
    unlinked := st.unlinked }, ?_, ?_, hunlinked, ?_⟩
  · have hcount := length_le_text (entries.map CacheEntry.line)
    unfold gftpDeleteCacheEntry
    rw [hdescr]
    dsimp only
    rw [hindex]
    dsimp only
    rw [forLines_text (by decide) (unread_file hnul) hlines (by omega), hfold, CRun.ok_bind]
    rfl
  · show ((st.files.unlink (indexFile cachedir)).rename (newIndexFile cachedir)
      (indexFile cachedir)).read (indexFile cachedir) = _
    rw [Files.read, hindex', hsame, Option.map_some, Files.data_unlink, hdata, hempty]
    rfl
  · intro p hp
    show ((st.files.unlink (indexFile cachedir)).rename (newIndexFile cachedir)
      (indexFile cachedir)).names p = _
    by_cases hpnew : p = newIndexFile cachedir
    · rw [hpnew, Files.names_rename_self hne, if_neg hremoved, dir.no_new_index]
    · rw [hother p hpnew hp, Files.names_unlink, if_neg hp, hnames]
      split
      · rfl
      · exact Files.names_create_ne hpnew

/-- On an index of well-formed lines the rewrite is exact when every entry has expired
or matches, and only then. -/
theorem deleteCacheEntry_exact_iff (dir : CacheDir cachedir) (entries : List CacheEntry)
    (request : Option CacheRequest) (descr : Option CString) (ignoreDirectory : Bool)
    (now : Int64) (description : Bytes)
    (hindex : dir.files.read (indexFile cachedir) = some (text (entries.map CacheEntry.line)))
    (hshort : ∀ e ∈ entries, e.line.length + 1 < bufsiz)
    (hfiles : ∀ e ∈ entries, ∃ suffix, e.file = cacheFile cachedir suffix)
    (hdescr : deleteDescription request descr ignoreDirectory = some description) :
    (∃ r, gftpDeleteCacheEntry request descr ignoreDirectory now dir = .ok r ∧
      ExactRewrite dir (fun e => delEntry now description ignoreDirectory e.fields) entries r) ↔
      ∀ e ∈ entries, delEntry now description ignoreDirectory e.fields = true := by
  obtain ⟨r, hrun, hread, hunlinked, hnames⟩ :=
    deleteCacheEntry_eq hindex hshort hfiles hdescr (fun e => rfl)
  have hnone : (∀ e ∈ entries, delEntry now description ignoreDirectory e.fields = true) ↔
      entries.filter (fun e => !delEntry now description ignoreDirectory e.fields) = [] := by
    simp [List.filter_eq_nil_iff]
  rw [hnone]
  constructor
  · rintro ⟨r', hrun', hexact⟩
    obtain rfl := Except.ok.inj (hrun.symm.trans hrun')
    have hlen := shortened_length
      (entries.filter fun e => !delEntry now description ignoreDirectory e.fields)
    rw [Option.some.inj (hread.symm.trans hexact.index)] at hlen
    exact List.length_eq_zero_iff.mp (by omega)
  · intro hnil
    exact ⟨r, hrun, by rw [hread, hnil]; rfl, hunlinked, hnames⟩

/-- A listing of the directory /d of the server h, kept until the time 100. -/
def listed : CacheEntry where
  url := ascii "ftp://u@h:21/d"
  file := cacheFile (ascii "/c") (ascii "abcdef")
  serverType := 1
  expirationDate := 100
  url_clean := by decide
  file_clean := by decide

/-- A directory whose index holds this entry alone. -/
def oneEntryDir : CacheDir (ascii "/c") where
  files := ((Files.none.create (indexFile (ascii "/c"))).1).append 0 (listed.line ++ [10])
  no_new_index := by decide

theorem expired_entry_rewritten :
    ∃ r, gftpDeleteCacheEntry none (some ⟨[], by decide⟩) false 101 oneEntryDir = .ok r ∧
      ExactRewrite oneEntryDir (fun e => delEntry 101 [] false e.fields) [listed] r :=
  (deleteCacheEntry_exact_iff oneEntryDir [listed] none (some ⟨[], by decide⟩) false 101 []
    (by decide) (by decide) (fun e he => ⟨ascii "abcdef", by
      rw [List.mem_singleton.mp he]
      rfl⟩) rfl).mpr (by decide)

/-- An entry that is kept loses its newline and its last digit. -/
theorem kept_entry_shortened :
    ¬ ∀ (cachedir : Bytes) (dir : CacheDir cachedir) (entries : List CacheEntry)
      (request : Option CacheRequest) (descr : Option CString) (ignoreDirectory : Bool)
      (now : Int64) (description : Bytes),
      dir.files.read (indexFile cachedir) = some (text (entries.map CacheEntry.line)) →
      (∀ e ∈ entries, e.line.length + 1 < bufsiz) →
      (∀ e ∈ entries, ∃ suffix, e.file = cacheFile cachedir suffix) →
      deleteDescription request descr ignoreDirectory = some description →
      ∃ r, gftpDeleteCacheEntry request descr ignoreDirectory now dir = .ok r ∧
        ExactRewrite dir (fun e => delEntry now description ignoreDirectory e.fields) entries r := by
  intro h
  have hindex : oneEntryDir.files.read (indexFile (ascii "/c")) =
      some (text ([listed].map CacheEntry.line)) := by decide
  have hshort : ∀ e ∈ [listed], e.line.length + 1 < bufsiz := by decide
  have hfiles : ∀ e ∈ [listed], ∃ suffix, e.file = cacheFile (ascii "/c") suffix := by
    intro e he
    exact ⟨ascii "abcdef", by rw [List.mem_singleton.mp he]; rfl⟩
  have hdescr : deleteDescription none (some ⟨[], by decide⟩) false = some [] := rfl
  obtain ⟨r, hrun, hexact⟩ := h _ oneEntryDir [listed] none _ false 0 [] hindex hshort hfiles hdescr
  obtain ⟨r', hrun', hread, _⟩ :=
    @deleteCacheEntry_eq _ oneEntryDir [listed] none _ false 0 [] _ hindex hshort hfiles hdescr
      (fun e => rfl)
  obtain rfl := Except.ok.inj (hrun.symm.trans hrun')
  have hlen := shortened_length ([listed].filter fun e => !delEntry 0 [] false e.fields)
  rw [Option.some.inj (hread.symm.trans hexact.index)] at hlen
  have hkept : ([listed].filter fun e => !delEntry 0 [] false e.fields).length = 1 := by
    decide
  omega

end Gftp.CacheRewrite
