import Gftp.BookmarkFields
import Gftp.Runs

/-!
The bookmarks file is read into an empty store. Every bookmark that has lines of its own in
the file becomes an entry again, so nothing is lost of a tree in which only folders have
children.
-/

namespace Gftp.BookmarkRestores

open ByteStrings Fuel LinkedTrees Bookmarks BookmarkWalks BookmarkStore TextFiles Comments
  BookmarksFile BookmarkFields Runs

/-- The entries that are no folders. -/
def ownBookmarks (entries : List (ℕ × Bookmark)) : List Bookmark :=
  (entries.map Prod.snd).filter fun d => d.isfolder = false

def sites (entries : List (ℕ × Bookmark)) : List Site := (ownBookmarks entries).map siteOf

section Sites

variable {es es' : List (ℕ × Bookmark)} {a : ℕ} {d : Bookmark}

theorem sites_perm (h : es.Perm es') : (sites es).Perm (sites es') :=
  ((h.map Prod.snd).filter _).map siteOf

theorem sites_append (es es' : List (ℕ × Bookmark)) : sites (es ++ es') = sites es ++ sites es' := by
  simp [sites, ownBookmarks]

theorem sites_own (hd : d.isfolder = false) : sites ((a, d) :: es) = siteOf d :: sites es := by
  simp [sites, ownBookmarks, hd]

theorem sites_folder (hd : d.isfolder = true) : sites ((a, d) :: es) = sites es := by
  simp [sites, ownBookmarks, hd]

theorem sites_folders (h : ∀ e ∈ es, e.2.isfolder = true) : sites es = [] := by
  induction es with
  | nil => rfl
  | cons e es ih =>
    obtain ⟨he, hes⟩ := List.forall_mem_cons.mp h
    rw [sites_folder he, ih hes]

end Sites

/-- The sites of the store. -/
def Holds (s : Store) (kept : List Site) : Prop :=
  ∃ rd f, Shape s rd f ∧ (sites (whole s rd f).entries).Perm kept

/-- The entry cur was added last, kept are the sites of the others. -/
def Filling (st : Reading) (cur : Bookmark) (kept : List Site) : Prop :=
  ∃ rd f entry others, Shape st.store rd f ∧ st.newentry = some entry ∧ entry ≠ st.store.root ∧
    (whole st.store rd f).entries.Perm ((entry, cur) :: others) ∧ (sites others).Perm kept

section Change

variable {s : Store} {rd : Bookmark} {f : Forest ℕ Bookmark} {entry : ℕ} {cur : Bookmark}
  {others : List (ℕ × Bookmark)} {change : Bookmark → Bookmark}

def changeAt (entry : ℕ) (change : Bookmark → Bookmark) (a : ℕ) (d : Bookmark) : Bookmark :=
  if a = entry then change d else d

theorem changeEntry_shape (h : Shape s rd f) (hroot : entry ≠ s.root)
    (hentries : (whole s rd f).entries.Perm ((entry, cur) :: others))
    (hchange : ∀ d, (change d).path = d.path) :
    ∃ s', changeEntry s entry change = .ok s' ∧ s'.root = s.root ∧
      Shape s' rd (f.mapData (changeAt entry change)) ∧
      (whole s' rd (f.mapData (changeAt entry change))).entries.Perm
        ((entry, change cur) :: others) := by
  have hmem : entry ∈ (whole s rd f).nodes :=
    (hentries.map Prod.fst).mem_iff.mpr (List.mem_cons_self ..)
  obtain ⟨n, hn⟩ := h.tree.laid.alive hmem
  have hwhole : whole s rd (f.mapData (changeAt entry change)) =
      (whole s rd f).mapData (changeAt entry change) := by
    simp [whole, Forest.mapData, changeAt, Ne.symm hroot]
  let s' := s.setNode entry { n with data := change n.data }
  have hlaid : Laid s'.nodes none ((whole s rd f).mapData (changeAt entry change)) := by
    refine h.tree.laid.mapData fun a m ha hm => ?_
    by_cases heq : a = entry
    · subst heq
      obtain rfl := Option.some.inj (hn.symm.trans hm)
      rw [changeAt, if_pos rfl]
      exact setNode_self
    · rw [changeAt, if_neg heq]
      exact (setNode_ne heq).trans hm
  have hnodup : ((whole s rd f).mapData (changeAt entry change)).nodes.Nodup := by
    rw [Forest.nodes_mapData]
    exact h.tree.nodup
  refine ⟨s', ?_, rfl, ⟨?_, fun a ha => ?_, fun path a ha => ?_, h.rootFolder⟩, ?_⟩
  · rw [changeEntry, look_some hn]
    rfl
  · have htree : Laid s'.nodes none (whole s rd (f.mapData (changeAt entry change))) ∧
        (whole s rd (f.mapData (changeAt entry change))).nodes.Nodup := by
      rw [hwhole]
      exact ⟨hlaid, hnodup⟩
    exact ⟨htree.1, htree.2⟩
  · have hne : a ≠ entry := fun heq => absurd (h.lt_brk hn) (Nat.not_lt.mpr (heq ▸ ha))
    exact (setNode_ne hne).trans (h.unused a ha)
  · obtain ⟨d, hd, hpath⟩ := h.table path a ha
    refine ⟨changeAt entry change a d, ?_, ?_⟩
    · show _ ∈ (whole s rd (f.mapData (changeAt entry change))).entries
      rw [hwhole, Forest.entries_mapData]
      exact List.mem_map_of_mem (f := fun e => (e.1, changeAt entry change e.1 e.2)) hd
    · unfold changeAt
      split_ifs
      · exact (hchange d).trans hpath
      · exact hpath
  · show (whole s rd (f.mapData (changeAt entry change))).entries.Perm _
    rw [hwhole, Forest.entries_mapData]
    refine (hentries.map _).trans (List.Perm.of_eq ?_)
    have hout : ∀ e ∈ others, e.1 ≠ entry := by
      have hnodup := ((hentries.map Prod.fst).nodup_iff.mp h.tree.nodup)
      rw [List.map_cons, List.nodup_cons] at hnodup
      intro e he heq
      have hmem : e.1 ∈ others.map Prod.fst := List.mem_map_of_mem he
      exact hnodup.1 (heq ▸ hmem)
    rw [List.map_cons, changeAt, if_pos rfl]
    refine congrArg _ ((List.map_congr_left fun e he => ?_).trans (List.map_id _))
    rw [changeAt, if_neg (hout e he)]
    rfl

end Change

section Read

variable {readOption : Bytes → Bytes → Option LocalOption} {st : Reading} {cur : Bookmark}
  {kept : List Site}

theorem readLine_blank (fuel : ℕ) (st : Reading) : readLine readOption fuel [] st = .ok st := by
  obtain ⟨store, newentry⟩ := st
  cases newentry <;> rfl

theorem Filling.change (h : Filling st cur kept) {buf : Bytes} (hbuf : buf.head? ≠ some 91)
    {change : Option (Bookmark → Bookmark)} (hchange : lineChange readOption buf = .ok change) :
    ∃ st', (∀ fuel, readLine readOption fuel buf st = .ok st') ∧
      Filling st' (change.getD id cur) kept := by
  obtain ⟨rd, f, entry, others, hshape, hnew, hroot, hentries, hkept⟩ := h
  cases change with
  | none =>
    refine ⟨st, fun fuel => ?_, rd, f, entry, others, hshape, hnew, hroot, hentries, hkept⟩
    rw [readLine, if_neg hbuf, hnew]
    simp only [hchange, CRun.ok_bind]
    rfl
  | some g =>
    obtain ⟨s', hs', hroot', hshape', hentries'⟩ := changeEntry_shape hshape hroot hentries
      fun d => (lineChange_keeps hchange d).1
    refine ⟨⟨s', some entry⟩, fun fuel => ?_, rd, _, entry, others, hshape', rfl,
      fun heq => hroot (heq.trans hroot'), hentries', hkept⟩
    rw [readLine, if_neg hbuf, hnew]
    simp only [hchange, hs', CRun.ok_bind]
    rfl

theorem Filling.fill {ls : List Bytes} (h : Filling st cur kept)
    (hls : ∀ l ∈ ls, (chomp (cstr (l ++ [10]))).head? ≠ some 91) {cur' : Bookmark}
    (hfill : fillWith readOption ls cur = .ok cur') :
    ∃ st', (∀ fuel, readLines readOption fuel (ls.map (· ++ [10])) st = .ok st') ∧
      Filling st' cur' kept := by
  induction ls generalizing st cur with
  | nil =>
    obtain rfl := Except.ok.inj hfill
    exact ⟨st, fun _ => rfl, h⟩
  | cons l ls ih =>
    obtain ⟨hl, hls⟩ := List.forall_mem_cons.mp hls
    rw [fillWith] at hfill
    obtain ⟨change, hchange, hrest⟩ := CRun.bind_eq_ok.mp hfill
    obtain ⟨st₁, hread, hfilling⟩ := h.change hl hchange
    obtain ⟨st', hreads, hfilling'⟩ := ih hfilling hls hrest
    refine ⟨st', fun fuel => ?_, hfilling'⟩
    rw [List.map_cons, readLines, hread, CRun.ok_bind]
    exact hreads fuel

theorem Filling.done (h : Filling st cur kept) (hcur : cur.isfolder = false) :
    Holds st.store (siteOf cur :: kept) := by
  obtain ⟨rd, f, entry, others, hshape, -, -, hentries, hkept⟩ := h
  refine ⟨rd, f, hshape, (sites_perm hentries).trans ?_⟩
  rw [sites_own hcur]
  exact hkept.cons _

theorem fillWith_keeps {ls : List Bytes} {d d' : Bookmark} (h : fillWith readOption ls d = .ok d') :
    d'.isfolder = d.isfolder := by
  induction ls generalizing d with
  | nil => exact congrArg Bookmark.isfolder (Except.ok.inj h).symm
  | cons l ls ih =>
    rw [fillWith] at h
    obtain ⟨change, hchange, hrest⟩ := CRun.bind_eq_ok.mp h
    refine (ih hrest).trans ?_
    cases change with
    | none => rfl
    | some g => exact (lineChange_keeps hchange d).2

theorem bracketPath_eq {path : Bytes} {c : UInt8} (hlast : path.getLast? = some c) (hblank : c ≠ 32)
    (hbracket : c ≠ 93) : bracketPath (ascii "[" ++ path ++ ascii "]") = path := by
  obtain ⟨front, rfl⟩ := List.getLast?_eq_some_iff.mp hlast
  simp [bracketPath, ascii, hblank, hbracket]

theorem bracket_line {path : Bytes} (h : LineOk (ascii "[" ++ path ++ ascii "]")) :
    chomp (cstr (ascii "[" ++ path ++ ascii "]" ++ [10])) = ascii "[" ++ path ++ ascii "]" := by
  rw [chomp_cstr h, stripLast_eq_self, List.getLast?_append_of_ne_nil _ (by decide)]
  decide

theorem readLine_bracket {path : Bytes} {c : UInt8} (hlast : path.getLast? = some c)
    (hblank : c ≠ 32) (hbracket : c ≠ 93) {s' : Store}
    (hadds : Adds st.store (Bookmark.fresh path) s') :
    Ends (fun fuel => readLine readOption fuel (ascii "[" ++ path ++ ascii "]") st)
      ⟨s', some st.store.brk⟩ := by
  refine (hadds.bind (k := fun _ store => .ok ⟨store, some st.store.brk⟩) (.ok _)).congr
    fun fuel => ?_
  rw [readLine, if_pos (show (ascii "[" ++ path ++ ascii "]").head? = some 91 from rfl),
    bracketPath_eq hlast hblank hbracket]
  rfl

variable (readOption) in
theorem Holds.bookmark (h : Holds st.store kept) {path : Bytes} {c : UInt8}
    (hlast : path.getLast? = some c) (hblank : c ≠ 32) (hbracket : c ≠ 93) (hslash : c ≠ 47) :
    ∃ st', Ends (fun fuel => readLine readOption fuel (ascii "[" ++ path ++ ascii "]") st) st' ∧
      Filling st' (withProtocol (Bookmark.fresh path)) kept := by
  obtain ⟨rd, f, hshape, hkept⟩ := h
  have hpath : path ≠ [] := by
    rintro rfl
    exact absurd hlast nofun
  obtain ⟨s', f', hadds, hadded⟩ := gftpAddBookmark_ends hshape
    (show (Bookmark.fresh path).path ≠ [] from hpath)
  have hstored : Stored (Bookmark.fresh path) := by
    show path.getLast? ≠ some 47
    rw [hlast]
    exact fun heq => hslash (Option.some.inj heq)
  refine ⟨_, readLine_bracket hlast hblank hbracket hadds, ?_⟩
  obtain ⟨new, hperm, hnew⟩ := hadded.entries
  rw [ownEntries, if_pos hstored] at hperm
  refine ⟨rd, f', st.store.brk, new ++ (whole st.store rd f).entries, hadded.shape, rfl, ?_, hperm, ?_⟩
  · rw [hadded.root]
    exact (Nat.ne_of_lt (hshape.mem_lt_brk (by simp [whole]))).symm
  · rw [sites_append, sites_folders fun e he => (hnew e he).1]
    exact hkept

variable (readOption) in
theorem Holds.folder (h : Holds st.store kept) (path : Bytes) :
    ∃ st', Ends (fun fuel => readLine readOption fuel (ascii "[" ++ path ++ ascii "/]") st) st' ∧
      Holds st'.store kept := by
  obtain ⟨rd, f, hshape, hkept⟩ := h
  have hlast : (path ++ [47]).getLast? = some 47 := by simp
  obtain ⟨s', f', hadds, hadded⟩ :=
    gftpAddBookmark_ends hshape
      (show (Bookmark.fresh (path ++ [47])).path ≠ [] by simp [Bookmark.fresh])
  have hstored : ¬ Stored (Bookmark.fresh (path ++ [47])) := fun hne => hne hlast
  have hline : ascii "[" ++ path ++ ascii "/]" = ascii "[" ++ (path ++ [47]) ++ ascii "]" := by
    simp [ascii]
  refine ⟨⟨s', some st.store.brk⟩, hline ▸ readLine_bracket hlast (by decide) (by decide) hadds,
    rd, f', hadded.shape, ?_⟩
  obtain ⟨new, hperm, hnew⟩ := hadded.entries
  rw [ownEntries, if_neg hstored, List.nil_append] at hperm
  refine (sites_perm hperm).trans ?_
  rw [sites_append, sites_folders fun e he => (hnew e he).1]
  exact hkept

end Read

section Entries

variable {readOption : Bytes → Bytes → Option LocalOption} {st : Reading} {d : Bookmark}
  {kept : List Site}

/-- An entry that the file keeps, but for carriage returns. -/
structure Placed (d : Bookmark) : Prop where
  head : ∃ c, d.path.head? = some c ∧ c ≠ 47
  folder : d.isfolder = true → LineOk (ascii "[" ++ d.path ++ ascii "/]")
  lined : d.isfolder = false → Lined d
  last : d.isfolder = false → ∃ c, d.path.getLast? = some c ∧ c ≠ 32 ∧ c ≠ 93 ∧ c ≠ 47

theorem dropWhile_slash {path : Bytes} (h : ∃ c, path.head? = some c ∧ c ≠ 47) :
    path.dropWhile (· = 47) = path := by
  obtain ⟨c, hc, hne⟩ := h
  obtain ⟨rest, rfl⟩ := List.head?_eq_some_iff.mp hc
  simp [hne]

/-- The lines are read one after the other. -/
def Reads (readOption : Bytes → Bytes → Option LocalOption) (ls : List Bytes) (st st' : Reading) :
    Prop :=
  Ends (fun fuel => readLines readOption fuel (ls.map (· ++ [10])) st) st'

theorem Reads.cons {l buf : Bytes} {ls : List Bytes} {st₁ st₂ : Reading}
    (hl : chomp (cstr (l ++ [10])) = buf)
    (h : Ends (fun fuel => readLine readOption fuel buf st) st₁) (h' : Reads readOption ls st₁ st₂) :
    Reads readOption (l :: ls) st st₂ := by
  refine (h.bind (k := fun fuel st => readLines readOption fuel (ls.map (· ++ [10])) st) h').congr
    fun fuel => ?_
  rw [List.map_cons, readLines, hl]

theorem readLines_append (fuel : ℕ) (ls ls' : List Bytes) (st : Reading) :
    readLines readOption fuel (ls ++ ls') st =
      readLines readOption fuel ls st >>= fun st' => readLines readOption fuel ls' st' := by
  induction ls generalizing st with
  | nil => rfl
  | cons l ls ih =>
    rw [List.cons_append, readLines, readLines]
    cases readLine readOption fuel (chomp (cstr l)) st with
    | error e => rfl
    | ok st₁ => exact ih st₁

theorem Reads.append {ls ls' : List Bytes} {st₁ st₂ : Reading} (h : Reads readOption ls st st₁)
    (h' : Reads readOption ls' st₁ st₂) : Reads readOption (ls ++ ls') st st₂ := by
  refine (h.bind (k := fun fuel st => readLines readOption fuel (ls'.map (· ++ [10])) st) h').congr
    fun fuel => ?_
  rw [List.map_append, readLines_append]

theorem Reads.blank (st : Reading) : Reads readOption [[]] st st := by
  refine Reads.cons (show chomp (cstr ([] ++ [10])) = [] from rfl) ((Ends.ok st).congr fun fuel => readLine_blank fuel st) (.ok st)

theorem noBracket {l : Bytes} (h : Lined d) (hisfolder : d.isfolder = false)
    (hl : l ∈ fieldLines d ++ d.localOptions.map optionLine) :
    (chomp (cstr (l ++ [10]))).head? ≠ some 91 := by
  have hline : LineOk l := by
    refine h.lines l ?_
    simp only [entryLines, hisfolder, Bool.false_eq_true, if_false, List.mem_append] at hl ⊢
    exact .inl (hl.elim (fun hfield => .inl (.inr hfield)) .inr)
  rw [chomp_cstr hline]
  rcases List.mem_append.mp hl with hfield | hoption
  · have hhead : l.head? ≠ some 91 := by
      simp only [fieldLines, List.mem_cons, List.not_mem_nil, or_false] at hfield
      rcases hfield with rfl | rfl | rfl | rfl | rfl | rfl | rfl | rfl <;> simp [ascii]
    intro hstrip
    obtain ⟨rest, hrest⟩ := stripLast_begins 13 l
    refine hhead (hrest ▸ ?_)
    rw [List.head?_append, hstrip]
    rfl
  · obtain ⟨o, ho, rfl⟩ := List.mem_map.mp hoption
    exact (h.options o ho).strip.noBracket

variable (readOption) in
/-- What is written for an entry is read as the entry, or as nothing when it is a folder. -/
theorem Holds.entry (h : Holds st.store kept) (hd : Placed d) :
    ∃ st', Reads readOption (entryLines d) st st' ∧
      Holds st'.store ((if d.isfolder then [] else [chompedSite d]) ++ kept) := by
  unfold entryLines
  rw [dropWhile_slash hd.head]
  cases hisfolder : d.isfolder with
  | true =>
    obtain ⟨st', hread, hholds⟩ := h.folder readOption d.path
    have hform : ascii "[" ++ (d.path ++ [47]) ++ ascii "]" = ascii "[" ++ d.path ++ ascii "/]" := by
      simp [ascii]
    have hline := bracket_line
      (show LineOk (ascii "[" ++ (d.path ++ [47]) ++ ascii "]") from hform ▸ hd.folder hisfolder)
    rw [hform] at hline
    exact ⟨st', Reads.cons hline hread (Reads.blank st'), hholds⟩
  | false =>
    have hlined := hd.lined hisfolder
    obtain ⟨c, hlast, hblank, hbracket, hslash⟩ := hd.last hisfolder
    obtain ⟨st₁, hread, hfilling⟩ :=
      h.bookmark readOption hlast hblank hbracket hslash
    obtain ⟨d', hfill, hsite⟩ := fill_lines readOption hlined hisfolder rfl
    obtain ⟨st₂, hreads, hfilling₂⟩ :=
      hfilling.fill (fun l hl => noBracket hlined hisfolder hl) hfill
    have hfirst : LineOk (ascii "[" ++ d.path ++ ascii "]") := by
      refine hlined.lines _ ?_
      simp [entryLines, hisfolder, dropWhile_slash hd.head]
    refine ⟨st₂, ?_, hsite ▸ hfilling₂.done (fillWith_keeps hfill)⟩
    show Reads readOption (((ascii "[" ++ d.path ++ ascii "]") :: (fieldLines d ++
      d.localOptions.map optionLine)) ++ [[]]) st st₂
    exact Reads.append (Reads.cons (bracket_line hfirst) hread ((Ends.ok st₂).congr hreads))
      (Reads.blank st₂)

/-- The sites of the entries that have lines in the file. -/
def writtenSites (es : List (ℕ × Bookmark)) : List Site := (ownBookmarks es).map chompedSite

variable (readOption) in
/-- What is written for some entries, one after the other. -/
theorem Holds.entries {es : List (ℕ × Bookmark)} (h : Holds st.store kept)
    (hes : ∀ e ∈ es, Placed e.2) :
    ∃ st', Reads readOption (es.flatMap fun e => entryLines e.2) st st' ∧
      ∃ kept', Holds st'.store kept' ∧ kept'.Perm (writtenSites es ++ kept) := by
  induction es generalizing st kept with
  | nil => exact ⟨st, .ok st, kept, h, .refl _⟩
  | cons e es ih =>
    obtain ⟨he, hes⟩ := List.forall_mem_cons.mp hes
    obtain ⟨st₁, hread, hholds⟩ := h.entry readOption he
    obtain ⟨st₂, hreads, kept', hholds', hperm⟩ := ih hholds hes
    refine ⟨st₂, hread.append hreads, kept', hholds', hperm.trans ?_⟩
    cases hisfolder : e.2.isfolder with
    | true => simp [writtenSites, ownBookmarks, hisfolder]
    | false =>
      simp only [writtenSites, ownBookmarks, List.map_cons, hisfolder, decide_true,
        List.filter_cons_of_pos, Bool.false_eq_true, if_false, List.singleton_append]
      exact List.perm_middle

theorem Placed.lines (h : Placed d) : ∀ l ∈ entryLines d, LineOk l := by
  cases hisfolder : d.isfolder with
  | true =>
    intro l hl
    simp only [entryLines, hisfolder, if_true, dropWhile_slash h.head, List.mem_cons,
      List.not_mem_nil, or_false] at hl
    rcases hl with rfl | rfl
    · exact h.folder hisfolder
    · decide
  | false => exact (h.lined hisfolder).lines

end Entries

section Header

variable {readOption : Bytes → Bytes → Option LocalOption} {bmhdr pwhdr : Bytes}

/-- The two comments are lines that the reader skips. -/
theorem header_lines (hbm : Plain bmhdr) (hpw : Plain pwhdr) :
    ∃ ls, writeComment bmhdr ++ writeComment pwhdr ++ [10] = joinLines ls ∧
      ∀ l ∈ ls, LineOk l ∧ (l = [] ∨ l.head? = some 35) := by
  obtain ⟨ls, t, heq, hls, ht⟩ := writeComment_lines hbm
  obtain ⟨ls', t', heq', hls', ht'⟩ := writeComment_lines hpw
  have hskipped {l : Bytes} (hl : CommentLine l) : LineOk l ∧ (l = [] ∨ l.head? = some 35) :=
    ⟨comment_lineOk hl, .inr hl.mark⟩
  have htail {t : Bytes} (ht : t = [] ∨ t = ascii "# ") :
      LineOk t ∧ (t = [] ∨ t.head? = some 35) := by
    rcases ht with rfl | rfl <;> decide
  rw [heq, heq']
  cases ls' with
  | nil =>
    refine ⟨ls ++ [t ++ t'], by simp [joinLines], List.forall_mem_append.mpr
      ⟨fun l hl => hskipped (hls l hl), ?_⟩⟩
    rw [List.forall_mem_singleton]
    rcases ht with rfl | rfl <;> rcases ht' with rfl | rfl <;> decide
  | cons l ls' =>
    obtain ⟨hl, hls'⟩ := List.forall_mem_cons.mp hls'
    refine ⟨ls ++ (t ++ l) :: (ls' ++ [t']), by simp [joinLines], List.forall_mem_append.mpr
      ⟨fun l hl => hskipped (hls l hl), List.forall_mem_cons.mpr ⟨?_, List.forall_mem_append.mpr
        ⟨fun l hl => hskipped (hls' l hl), List.forall_mem_singleton.mpr (htail ht')⟩⟩⟩⟩
    rcases ht with rfl | rfl
    · exact hskipped hl
    · exact ⟨hl.behind.2, .inr hl.behind.1⟩

theorem readLine_comment {buf : Bytes} (hbuf : buf = [] ∨ buf.head? = some 35) (fuel : ℕ)
    (s : Store) : readLine readOption fuel buf ⟨s, none⟩ = .ok ⟨s, none⟩ := by
  have hbracket : buf.head? ≠ some 91 := by
    rcases hbuf with rfl | hmark
    · exact nofun
    · exact fun heq => absurd (hmark.symm.trans heq) (by decide)
  rw [readLine, if_neg hbracket]
  simp only [otherLine, if_pos hbuf.symm]
  rfl

variable (readOption) in
theorem Reads.comments {ls : List Bytes} (h : ∀ l ∈ ls, LineOk l ∧ (l = [] ∨ l.head? = some 35))
    (s : Store) : Reads readOption ls ⟨s, none⟩ ⟨s, none⟩ := by
  induction ls with
  | nil => exact .ok _
  | cons l ls ih =>
    obtain ⟨⟨hline, hmark⟩, hrest⟩ := List.forall_mem_cons.mp h
    refine Reads.cons (chomp_cstr hline) ((Ends.ok _).congr fun fuel => ?_) (ih hrest)
    refine readLine_comment ?_ fuel s
    rcases hmark with rfl | hmark
    · exact .inl rfl
    · obtain ⟨rest, rfl⟩ := List.head?_eq_some_iff.mp hmark
      have hstrip : stripLast 13 (35 :: rest) = 35 :: stripLast 13 rest :=
        stripLast_word (show ([35] : Bytes).getLast? ≠ some 13 by decide) rest
      exact .inr (hstrip ▸ rfl)

end Header

section Run

variable {s : Store} {rd : Bookmark} {f : Forest ℕ Bookmark} {newentry : Bookmark}

/-- An entry whose lines fit the buffer of the reader, with a password that is to be saved. -/
structure Writable (newentry : Bookmark) : Prop where
  head : ∃ c, newentry.path.head? = some c ∧ c ≠ 47
  noBlank : newentry.path.getLast? ≠ some 32
  noBracket : newentry.path.getLast? ≠ some 93
  lines : ∀ l ∈ entryLines newentry, LineOk l
  protocol : newentry.protocol ≠ some []
  saved : orEmpty newentry.pass ≠ [] → newentry.savePassword = true
  passNul : 0 ∉ orEmpty newentry.pass
  options : ∀ o ∈ newentry.localOptions, OptionLine (optionLine o)

theorem entryLines_withProtocol (newentry : Bookmark) :
    entryLines (withProtocol newentry) = entryLines newentry := by
  have hname : protocolName (some (newentry.protocol.getD (ascii "FTP"))) =
      protocolName newentry.protocol := by
    cases newentry.protocol <;> rfl
  simp only [entryLines, fieldLines, withProtocol, hname, savedPassword]
  rfl

theorem Writable.placed (h : Writable newentry) (hstored : Stored newentry) :
    Placed (withProtocol newentry) where
  head := h.head
  folder hisfolder := by
    refine h.lines _ ?_
    have hfolder : newentry.isfolder = true := hisfolder
    simp [entryLines, hfolder, dropWhile_slash h.head, withProtocol]
  lined _ :=
    { lines := by
        rw [entryLines_withProtocol]
        exact h.lines
      protocol := by
        have hprotocol := h.protocol
        cases hp : newentry.protocol with
        | none => simp [withProtocol, hp, orEmpty, ascii]
        | some p => simpa [withProtocol, hp, orEmpty] using hprotocol
      saved := h.saved
      passNul := h.passNul
      options := h.options }
  last _ := by
    obtain ⟨c, hc, -⟩ := h.head
    have hne : newentry.path ≠ [] := by
      rintro hnil
      rw [hnil] at hc
      exact absurd hc (by simp)
    have hlast := List.getLast?_eq_some_getLast hne
    refine ⟨_, hlast, fun heq => h.noBlank (heq ▸ hlast), fun heq => h.noBracket (heq ▸ hlast),
      fun heq => hstored (heq ▸ hlast)⟩

theorem Writable.folder (h : Writable newentry) {d : Bookmark} (hisfolder : d.isfolder = true)
    (hpath : FolderOf d.path newentry.path) : Placed d where
  head := by
    obtain ⟨rest, hrest⟩ := hpath
    obtain ⟨c, hc, hne⟩ := h.head
    refine ⟨c, ?_, hne⟩
    cases hd : d.path with
    | nil =>
      rw [hrest, hd] at hc
      exact absurd (Option.some.inj hc).symm hne
    | cons b front =>
      rw [hrest, hd] at hc
      exact hc
  folder _ := by
    obtain ⟨rest, hrest⟩ := hpath
    have hfirst : ∃ tail, tail ≠ [] ∧ LineOk (ascii "[" ++ newentry.path ++ tail) := by
      cases hkind : newentry.isfolder with
      | true =>
        refine ⟨ascii "/]", by decide, h.lines _ ?_⟩
        simp [entryLines, hkind, dropWhile_slash h.head]
      | false =>
        refine ⟨ascii "]", by decide, h.lines _ ?_⟩
        simp [entryLines, hkind, dropWhile_slash h.head]
    obtain ⟨tail, htail, ⟨hfeed, hlen⟩, hnul⟩ := hfirst
    have htail' := List.length_pos_iff.mpr htail
    rw [hrest] at hfeed hlen hnul
    simp only [List.mem_append, List.mem_cons, not_or, List.length_append, List.length_cons]
      at hfeed hlen hnul
    have hbracket : (ascii "[").length = 1 := rfl
    have hclose : (ascii "/]").length = 2 := rfl
    refine ⟨⟨?_, ?_⟩, ?_⟩
    · simp only [List.mem_append, not_or]
      exact ⟨⟨hfeed.1.1, hfeed.1.2.1⟩, by decide⟩
    · simp only [List.length_append]
      omega
    · simp only [List.mem_append, not_or]
      exact ⟨⟨hnul.1.1, hnul.1.2.1⟩, by decide⟩
  lined hfalse := absurd (hisfolder.symm.trans hfalse) nofun
  last hfalse := absurd (hisfolder.symm.trans hfalse) nofun

/-- Every entry below the root can be written. -/
def AllPlaced (s : Store) : Prop :=
  ∃ rd f, Shape s rd f ∧ ∀ e ∈ (whole s rd f).entries, e.1 ≠ s.root → Placed e.2

theorem allPlaced_empty : AllPlaced .empty := by
  refine ⟨_, _, empty_shape, fun e he hroot => ?_⟩
  simp only [whole, Forest.entries, List.append_nil, List.mem_singleton] at he
  exact absurd (he ▸ rfl) hroot

/-- What gftp_add_bookmark keeps. -/
theorem allPlaced_step (h : AllPlaced s) (hok : Writable newentry) {s' : Store}
    (hadds : Adds s newentry s') : AllPlaced s' := by
  obtain ⟨rd, f, hshape, hall⟩ := h
  obtain ⟨c, hc, -⟩ := hok.head
  have hpath : newentry.path ≠ [] := by
    rintro hnil
    rw [hnil] at hc
    exact absurd hc nofun
  obtain ⟨s'', f', hadds', hadded⟩ := gftpAddBookmark_ends hshape hpath
  obtain rfl := hadds.unique hadds'
  refine ⟨rd, f', hadded.shape, fun e he hroot => ?_⟩
  obtain ⟨new, hperm, hnew⟩ := hadded.entries
  rcases List.mem_append.mp (hperm.mem_iff.mp he) with hown | hrest
  · unfold ownEntries at hown
    split_ifs at hown with hstored
    · rw [List.mem_singleton.mp hown]
      exact hok.placed hstored
    · exact absurd hown nofun
  · rcases List.mem_append.mp hrest with hmade | hold
    · exact hok.folder (hnew e hmade).1 (hnew e hmade).2
    · exact hall e hold (hadded.root ▸ hroot)

end Run

end Gftp.BookmarkRestores
