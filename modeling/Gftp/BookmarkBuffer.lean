import Gftp.BookmarkRestores
import Gftp.ConfigArguments
import Gftp.ConfigLines

/-!
The line buffer of gftp_read_bookmarks. fgets writes a line and a NUL and leaves what stands
behind them as it was. The text of a field is taken one byte behind its word, which is behind
the NUL when the last line of the file is the word alone; what is found there was left by an
earlier line, or by nothing.
-/

namespace Gftp.BookmarkBuffer

open ByteStrings Fuel LinkedTrees Bookmarks BookmarkStore BookmarkRestores TextFiles TextPointers
  TextIndices Decimal OptionTables OptionValues ConfigLines
open BookmarksFile (Reading fieldSetters addOption bracketPath changeEntry cutOption)
open ConfigArguments (arguments arguments_ok_iff arguments_outputs)

section Source

/-- fgets into the buffer. -/
def fillBuf (buf raw : Bytes) : Bytes := raw ++ 0 :: buf.drop (raw.length + 1)

/-- A byte is taken off the end. -/
def cutEnd (c : UInt8) (buf : Bytes) (len : ℕ) : CRun (Bytes × ℕ) := do
  if 0 < len then
    if (← readAt buf (len - 1)) = c then return (← writeAt buf (len - 1) 0, len - 1)
    else return (buf, len)
  else return (buf, len)

/-- The line feed and the carriage return are taken off. -/
def chompBuf (buf : Bytes) : CRun (Bytes × ℕ) := do
  let len ← strlen buf 0
  let (buf, len) ← cutEnd 10 buf len
  cutEnd 13 buf len

/-- What stands behind a number. -/
def behindNumber (rest : Bytes) : Bytes :=
  match rest.dropWhile isSpace with
  | 45 :: rest => rest.dropWhile isDigit
  | 43 :: rest => rest.dropWhile isDigit
  | rest => rest.dropWhile isDigit

/-- What strtol reads the number from: it stops at the first byte that belongs to none. -/
def numberFrom (buf : Bytes) (i : ℕ) : CRun Bytes :=
  if behindNumber (buf.drop i) = [] then .error .fault else .ok (cstr (buf.drop i))

/-- The value behind a word. -/
def readValue (word buf : Bytes) : CRun Bytes :=
  if word = ascii "port" then numberFrom buf (word.length + 1) else textFrom buf (word.length + 1)

/-- What a bookmark keeps of an option that was read. -/
def localOption (F : Floats) (cv : OptionVar) (value : Setting) : LocalOption where
  key := cv.key
  written :=
    match writeFunction F cv value none with
    | .ok (some text) => text
    | _ => []

/-- A line that was cut at its equals sign. Options of the type notebook have no read function. -/
def setOption (htable : Bytes → Option OptionVar) (F : Floats) (curpos : ℕ) (buf : Bytes)
    (st : Reading) : CRun (Bytes × Reading) := do
  match htable (← textFrom buf 0) with
  | none => return (buf, st)
  | some cv =>
      if cv.otype = .notebook then return (buf, st)
      match st.newentry with
      | none => .error .fault
      | some entry =>
          let value ← readFunction F cv (← textFrom buf (curpos + 1))
          let store ← changeEntry st.store entry (addOption (localOption F cv value))
          return (buf, { st with store })

/-- A line that is none of a field. -/
def optionLine (htable : Bytes → Option OptionVar) (F : Floats) (buf : Bytes) (st : Reading) :
    CRun (Bytes × Reading) := do
  let first ← readAt buf 0
  if first = 35 ∨ first = 0 then return (buf, st)
  match ← strchr buf 0 61 with
  | none => return (buf, st)
  | some curpos => setOption htable F curpos (← writeAt buf curpos 0) st

/-- One round of gftp_read_bookmarks. -/
def bufferLine (htable : Bytes → Option OptionVar) (F : Floats) (fuel : ℕ) (raw buf : Bytes)
    (st : Reading) : CRun (Bytes × Reading) := do
  let (buf, len) ← chompBuf (fillBuf buf raw)
  if (← readAt buf 0) = 91 then
    let buf ← clearBack (fun c => c = 32 ∨ c = 93) buf len
    let path ← textFrom buf 1
    let store ← gftpAddBookmark fuel st.store (Bookmark.fresh path)
    return (buf, ⟨store, some st.store.brk⟩)
  else
    match st.newentry, fieldSetters.find? fun field => field.1.isPrefixOf buf with
    | some entry, some (word, set) =>
        let value ← readValue word buf
        let store ← changeEntry st.store entry (set value)
        return (buf, { st with store })
    | _, _ => optionLine htable F buf st

def bufferLines (htable : Bytes → Option OptionVar) (F : Floats) (fuel : ℕ) :
    List Bytes → Bytes → Reading → CRun (Bytes × Reading)
  | [], buf, st => return (buf, st)
  | raw :: rest, buf, st => do
      let (buf, st) ← bufferLine htable F fuel raw buf st
      bufferLines htable F fuel rest buf st

/-- gftp_read_bookmarks on the text of the file, with what the stack held before. -/
def gftpReadBookmarks (htable : Bytes → Option OptionVar) (F : Floats) (fuel : ℕ)
    (buf file : Bytes) : CRun Store := do
  let (_, st) ← bufferLines htable F fuel (getLines 254 file) buf ⟨.empty, none⟩
  return st.store

end Source

section Conditions

/-- A line as it is after its end was taken off. -/
def lineOf (raw : Bytes) : Bytes := chomp (cstr raw)

/-- An entry was added by one of the lines. -/
def HasEntry (before : List Bytes) : Prop := ∃ raw ∈ before, (lineOf raw).head? = some 91

/-- The option that a line sets, and the text of its value. -/
def optionOf (htable : Bytes → Option OptionVar) (line : Bytes) : Option (OptionVar × Bytes) :=
  if line.head? = some 35 ∨ line = [] then none
  else (cutOption line).bind fun cut =>
    (htable cut.1).bind fun cv => if cv.otype = .notebook then none else some (cv, cut.2)

/-- A text that the read function of an option can take. A colour must have three fields, or no
colon in the last one. -/
def Readable (cv : OptionVar) (str : Bytes) : Prop :=
  cv.otype = .color → 3 ≤ (ConfigArguments.pieces 0 str).length ∨
    ∀ piece, (ConfigArguments.pieces 0 str).getLast? = some piece → 58 ∉ piece

/-- A line that does no harm behind others. -/
structure LineSafe (htable : Bytes → Option OptionVar) (before : List Bytes) (raw : Bytes) : Prop where
  path : (lineOf raw).head? = some 91 → bracketPath (lineOf raw) ≠ []
  /-- A word alone, if it is no line with an end, has a longer line before it. -/
  field : HasEntry before → ∀ field ∈ fieldSetters, lineOf raw = field.1 →
    ∃ l ∈ before ++ [raw], field.1.length < l.length
  option : (lineOf raw).head? ≠ some 91 →
    ¬ (HasEntry before ∧ ∃ field ∈ fieldSetters, field.1 <+: lineOf raw) →
    ∀ cv str, optionOf htable (lineOf raw) = some (cv, str) → HasEntry before ∧ Readable cv str

/-- Nothing outside the buffer is read or written and no null pointer is followed, whatever the
buffer held. -/
def Safe (htable : Bytes → Option OptionVar) (F : Floats) (file : Bytes) : Prop :=
  ∀ buf : Bytes, buf.length = 255 → ∃ s, Ends (fun fuel => gftpReadBookmarks htable F fuel buf file) s

end Conditions

section Buffer

/-- The buffer in a round: the line stands in it, and behind the NUL of fgets it is as it was. -/
structure Filled (old raw line buf : Bytes) : Prop where
  text : ∃ tail, buf = line ++ 0 :: tail
  frame : ∃ front, front.length = raw.length ∧ buf = front ++ 0 :: old.drop (raw.length + 1)
  nul_free : 0 ∉ line
  short : line.length ≤ raw.length

variable {old raw line buf tail : Bytes} {c : UInt8} {i : ℕ}

theorem Filled.fill (old raw : Bytes) : Filled old raw (cstr raw) (fillBuf old raw) where
  text := by
    by_cases hraw : 0 ∈ raw
    · obtain ⟨t, rest, rfl, ht⟩ := exists_text hraw
      exact ⟨rest ++ 0 :: old.drop ((t ++ 0 :: rest).length + 1), by
        rw [cstr_append_nul ht, fillBuf, List.append_assoc, List.cons_append]⟩
    · exact ⟨old.drop (raw.length + 1), by rw [cstr_eq_self hraw, fillBuf]⟩
  frame := ⟨raw, rfl, rfl⟩
  nul_free := nul_not_mem_cstr raw
  short := cstr_length_le raw

theorem write_text (hi : i < line.length) :
    writeAt (line ++ 0 :: tail) i 0 =
      .ok (line.take i ++ 0 :: (line.drop (i + 1) ++ 0 :: tail)) := by
  obtain ⟨b, hb⟩ : ∃ b, line.drop i = b :: line.drop (i + 1) := ⟨_, List.drop_eq_getElem_cons hi⟩
  have hsplit : line.take i ++ b :: line.drop (i + 1) = line := by
    rw [← hb, List.take_append_drop]
  have hlen : (line.take i).length = i := by
    rw [List.length_take]
    omega
  have hwrite := writeAt_front (line.take i) b (line.drop (i + 1) ++ 0 :: tail) 0
  rw [hlen, ← List.cons_append, ← List.append_assoc, hsplit] at hwrite
  exact hwrite

theorem Filled.write (h : Filled old raw line buf) (hi : i < line.length) :
    ∃ buf', writeAt buf i 0 = .ok buf' ∧ Filled old raw (line.take i) buf' := by
  obtain ⟨tail, htail⟩ := h.text
  obtain ⟨front, hfront, hframe⟩ := h.frame
  have hshort := h.short
  have hwrite := @write_text line tail i hi
  have hwrite' := @write_text front (old.drop (raw.length + 1)) i (by omega)
  rw [← htail] at hwrite
  rw [← hframe] at hwrite'
  refine ⟨_, hwrite, ⟨_, rfl⟩, ?_, fun h0 => h.nul_free (List.mem_of_mem_take h0), ?_⟩
  · refine ⟨front.take i ++ 0 :: front.drop (i + 1), ?_, ?_⟩
    · rw [List.length_append, List.length_cons, List.length_take, List.length_drop]
      omega
    · rw [Except.ok.inj (hwrite.symm.trans hwrite'), List.append_assoc, List.cons_append]
  · rw [List.length_take]
    omega

theorem Filled.read (h : Filled old raw line buf) : readAt buf 0 = .ok (line.headD 0) := by
  obtain ⟨tail, rfl⟩ := h.text
  exact readAt_text [] line tail

theorem Filled.cut (h : Filled old raw line buf) (c : UInt8) :
    ∃ buf', cutEnd c buf line.length = .ok (buf', (stripLast c line).length) ∧
      Filled old raw (stripLast c line) buf' := by
  rcases List.eq_nil_or_concat line with rfl | ⟨front, b, rfl⟩
  · exact ⟨buf, rfl, h⟩
  · rw [List.concat_eq_append] at *
    have hlen : (front ++ [b]).length - 1 = front.length := by simp
    have hread : readAt buf front.length = .ok b := by
      obtain ⟨tail, rfl⟩ := h.text
      rw [List.append_assoc]
      exact readAt_front front b _
    obtain ⟨buf', hwrite, hfilled⟩ := h.write (i := front.length) (by simp)
    rw [cutEnd, if_pos (by simp), hlen, hread, CRun.ok_bind, stripLast, List.getLast?_concat]
    by_cases hb : b = c
    · rw [if_pos hb, hwrite, CRun.ok_bind, if_pos (by rw [hb]), List.dropLast_concat]
      rw [List.take_left] at hfilled
      exact ⟨buf', rfl, hfilled⟩
    · rw [if_neg hb, if_neg (by simpa using hb)]
      exact ⟨buf, rfl, h⟩

theorem chompBuf_fill (old raw : Bytes) :
    ∃ buf, chompBuf (fillBuf old raw) = .ok (buf, (lineOf raw).length) ∧
      Filled old raw (lineOf raw) buf := by
  have hfill := Filled.fill old raw
  have hlen : strlen (fillBuf old raw) 0 = .ok (cstr raw).length := by
    obtain ⟨tail, htail⟩ := hfill.text
    rw [htail]
    exact strlen_text (nul_not_mem_cstr raw) [] tail
  obtain ⟨buf, hcut, hbuf⟩ := hfill.cut 10
  obtain ⟨buf', hcut', hbuf'⟩ := hbuf.cut 13
  refine ⟨buf', ?_, hbuf'⟩
  simp only [chompBuf, hlen, CRun.ok_bind, hcut]
  exact hcut'

theorem Filled.clear (h : Filled old raw line buf) {f : UInt8 → Bool} (hkept : line.rdropWhile f ≠ []) :
    ∃ buf', clearBack f buf line.length = .ok buf' ∧ Filled old raw (line.rdropWhile f) buf' := by
  induction line using List.reverseRecOn generalizing buf with
  | nil => exact absurd rfl hkept
  | append_singleton front b ih =>
    have hread : readAt buf front.length = .ok b := by
      obtain ⟨tail, rfl⟩ := h.text
      rw [List.append_assoc]
      exact readAt_front front b _
    rw [List.length_append, List.length_singleton, clearBack, hread, CRun.ok_bind]
    by_cases hb : f b = true
    · obtain ⟨buf', hwrite, hfilled⟩ := h.write (i := front.length) (by simp)
      rw [List.take_left] at hfilled
      rw [List.rdropWhile_concat_pos _ _ _ hb] at hkept ⊢
      rw [if_pos hb, hwrite, CRun.ok_bind]
      exact ih hfilled hkept
    · rw [List.rdropWhile_concat_neg _ _ _ hb, if_neg hb]
      exact ⟨buf, rfl, h⟩

/-- What the lines before have left in the buffer: a NUL behind each of them, and nothing
behind the longest. -/
structure Covered (init buf : Bytes) (before : List Bytes) : Prop where
  length : buf.length = 255
  ended : ∀ k, (∃ l ∈ before, k < l.length) → 0 ∈ buf.drop (k + 1)
  untouched : ∀ k, (∀ l ∈ before, l.length ≤ k) → buf.drop (k + 1) = init.drop (k + 1)

variable {init buf' : Bytes} {before : List Bytes} {k : ℕ}

theorem Filled.drop_short (h : Filled old raw line buf) (hk : k < raw.length) : 0 ∈ buf.drop (k + 1) := by
  obtain ⟨front, hfront, rfl⟩ := h.frame
  rw [List.drop_append_of_le_length (by omega)]
  simp

theorem Filled.drop_long (h : Filled old raw line buf) (hk : raw.length ≤ k) :
    buf.drop (k + 1) = old.drop (k + 1) := by
  obtain ⟨front, hfront, rfl⟩ := h.frame
  have hshift : k + 1 - front.length = k - raw.length + 1 := by omega
  have hback : raw.length + 1 + (k - raw.length) = k + 1 := by omega
  rw [List.drop_append, List.drop_of_length_le (by omega), List.nil_append, hshift,
    List.drop_succ_cons, List.drop_drop, hback]

theorem Covered.round (h : Covered init old before) (hfilled : Filled old raw line buf)
    (hraw : raw.length ≤ 254) : Covered init buf (before ++ [raw]) where
  length := by
    obtain ⟨front, hfront, rfl⟩ := hfilled.frame
    rw [List.length_append, List.length_cons, List.length_drop, h.length]
    omega
  ended k hk := by
    by_cases hshort : k < raw.length
    · exact hfilled.drop_short hshort
    · obtain ⟨l, hl, hlen⟩ := hk
      rw [hfilled.drop_long (by omega)]
      rcases List.mem_append.mp hl with hl | hl
      · exact h.ended k ⟨l, hl, hlen⟩
      · rw [List.mem_singleton.mp hl] at hlen
        exact absurd hlen hshort
  untouched k hk := by
    rw [hfilled.drop_long (hk raw (by simp))]
    exact h.untouched k fun l hl => hk l (List.mem_append_left _ hl)

end Buffer

section Values

variable {rest buf tail word value : Bytes}

theorem nul_mem_dropWhile {f : UInt8 → Bool} (hf : f 0 = false) (h : 0 ∈ rest) :
    0 ∈ rest.dropWhile f := by
  obtain ⟨t, back, rfl, -⟩ := exists_text h
  induction t with
  | nil => simp [hf]
  | cons b t ih =>
    rw [List.cons_append, List.dropWhile_cons]
    split
    · exact ih (by simp)
    · simp

theorem behindNumber_ne (h : 0 ∈ rest) : behindNumber rest ≠ [] := by
  have hspace := nul_mem_dropWhile (f := isSpace) (by decide) h
  have hdigits : ∀ l : Bytes, 0 ∈ l → l.dropWhile isDigit ≠ [] := fun l hl =>
    List.ne_nil_of_mem (nul_mem_dropWhile (by decide) hl)
  unfold behindNumber
  split
  · rename_i l hl
    rw [hl] at hspace
    exact hdigits l (by simpa using hspace)
  · rename_i l hl
    rw [hl] at hspace
    exact hdigits l (by simpa using hspace)
  · exact hdigits _ hspace

theorem behindNumber_digits (n : ℕ) : behindNumber (List.replicate n 48) = [] := by
  have hnone : (List.replicate n (48 : UInt8)).dropWhile isSpace = List.replicate n 48 := by
    cases n with
    | zero => rfl
    | succ n => rw [List.replicate_succ, List.dropWhile_cons_of_neg (by decide)]
  have hall : (List.replicate n (48 : UInt8)).dropWhile isDigit = [] := by
    rw [List.dropWhile_eq_nil_iff]
    intro b hb
    rw [List.eq_of_mem_replicate hb]
    decide
  unfold behindNumber
  rw [hnone]
  split
  · rename_i l hl
    cases n with
    | zero => cases hl
    | succ n => exact absurd (List.cons.inj hl).1 (by decide)
  · rename_i l hl
    cases n with
    | zero => cases hl
    | succ n => exact absurd (List.cons.inj hl).1 (by decide)
  · exact hall

theorem readValue_ok (h : 0 ∈ buf.drop (word.length + 1)) :
    readValue word buf = .ok (cstr (buf.drop (word.length + 1))) := by
  unfold readValue
  split
  · rw [numberFrom, if_neg (behindNumber_ne h)]
  · rw [textFrom, textAt, if_pos h]

theorem readValue_digits {n : ℕ} (h : buf.drop (word.length + 1) = List.replicate n 48) :
    readValue word buf = .error .fault := by
  unfold readValue
  split
  · rw [numberFrom, h, if_pos (behindNumber_digits n)]
  · have hnone : 0 ∉ List.replicate n (48 : UInt8) := by
      intro h0
      exact absurd (List.eq_of_mem_replicate h0) (by decide)
    rw [textFrom, h, textAt, if_neg hnone]

end Values

section Entries

/-- The entries lie as a tree, and the entry that was added last is in memory. -/
def Sound (st : Reading) : Prop :=
  ∃ rd f, Shape st.store rd f ∧ ∀ entry, st.newentry = some entry →
    entry ≠ st.store.root ∧ ∃ n, st.store.nodes entry = some n

variable {st : Reading} {s s' : Store} {entry fuel : ℕ} {g : Bookmark → Bookmark}
  {newentry : Bookmark}

theorem start_sound : Sound ⟨.empty, none⟩ := ⟨_, _, empty_shape, nofun⟩

theorem Sound.change (h : Sound st) (hentry : st.newentry = some entry)
    (hchange : ∀ d, (g d).path = d.path) :
    ∃ store, changeEntry st.store entry g = .ok store ∧ Sound { st with store } := by
  obtain ⟨rd, f, hshape, halive⟩ := h
  obtain ⟨hroot, n, hn⟩ := halive entry hentry
  have hrun : changeEntry st.store entry g =
      .ok (st.store.setNode entry { n with data := g n.data }) := by
    rw [changeEntry, look_some hn]
    rfl
  have hlast : ∀ e, st.newentry = some e → e ≠ st.store.root ∧
      ∃ m, (st.store.setNode entry { n with data := g n.data }).nodes e = some m := by
    intro e he
    obtain rfl := Option.some.inj (hentry.symm.trans he)
    exact ⟨hroot, _, setNode_self⟩
  by_cases hmem : entry ∈ (whole st.store rd f).nodes
  · obtain ⟨⟨a, cur⟩, hcur, rfl⟩ := List.mem_map.mp hmem
    obtain ⟨front, back, hsplit⟩ := List.append_of_mem hcur
    have hentries : (whole st.store rd f).entries.Perm ((a, cur) :: (front ++ back)) :=
      hsplit ▸ List.perm_middle
    obtain ⟨store, hstore, hsame, hshape', -⟩ := changeEntry_shape hshape hroot hentries hchange
    obtain rfl := Except.ok.inj (hrun.symm.trans hstore)
    exact ⟨_, hrun, rd, _, hshape', hlast⟩
  · exact ⟨_, hrun, rd, f, hshape.aside (hshape.lt_brk hn) hmem, hlast⟩

theorem path_ne_of_add (h : gftpAddBookmark fuel s newentry = .ok s') : newentry.path ≠ [] := by
  obtain ⟨last, -, h⟩ := CRun.bind_eq_ok.mp h
  obtain ⟨position, -, h⟩ := CRun.bind_eq_ok.mp h
  intro hnil
  have hpath : (withProtocol newentry).path.getLast? = none := by
    rw [show (withProtocol newentry).path = newentry.path from rfl, hnil]
    rfl
  simp only [hpath] at h
  cases h

theorem folder_alive (h : gftpAddBookmark fuel s newentry = .ok s')
    (hlast : newentry.path.getLast? = some 47) : ∃ n, s'.nodes s.brk = some n := by
  obtain ⟨last, -, h⟩ := CRun.bind_eq_ok.mp h
  obtain ⟨position, -, h⟩ := CRun.bind_eq_ok.mp h
  have hpath : (withProtocol newentry).path.getLast? = some 47 := hlast
  simp only [hpath, if_true] at h
  obtain rfl := Except.ok.inj h
  exact ⟨_, setNode_self⟩

theorem Sound.add (h : Sound st) {path : Bytes} (hpath : path ≠ []) :
    ∃ store, Adds st.store (Bookmark.fresh path) store ∧ Sound ⟨store, some st.store.brk⟩ := by
  obtain ⟨rd, f, hshape, -⟩ := h
  obtain ⟨store, f', hadds, hadded⟩ := gftpAddBookmark_ends hshape
    (show (Bookmark.fresh path).path ≠ [] from hpath)
  refine ⟨store, hadds, rd, f', hadded.shape, ?_⟩
  intro entry hentry
  obtain rfl := Option.some.inj hentry
  refine ⟨?_, ?_⟩
  · have hroot := hshape.mem_lt_brk (a := st.store.root) (by simp [whole])
    show st.store.brk ≠ store.root
    rw [hadded.root]
    omega
  · by_cases hstored : Stored (Bookmark.fresh path)
    · obtain ⟨-, n, hn, -⟩ := hadded.own hstored
      exact ⟨n, hn⟩
    · obtain ⟨least, hleast⟩ := hadds
      exact folder_alive (hleast least (Nat.le_refl _)) (not_not.mp hstored)

end Entries

section Rounds

variable {htable : Bytes → Option OptionVar} {F : Floats} {fuel entry : ℕ} {st : Reading}
  {old raw line buf str : Bytes} {cv : OptionVar}

theorem cutOption_free {key : Bytes} (h : cutOption line = some (key, str)) : 61 ∉ key := by
  unfold cutOption at h
  split at h
  · obtain ⟨rfl, -⟩ := Prod.mk.inj (Option.some.inj h)
    intro hmem
    simpa using List.mem_takeWhile_imp hmem
  · cases h

theorem optionLine_marked (h : Filled old raw line buf) (hmark : line.head? = some 35 ∨ line = []) :
    optionLine htable F buf st = .ok (buf, st) := by
  have hfirst : line.headD 0 = 35 ∨ line.headD 0 = 0 := by
    rcases hmark with hmark | rfl
    · exact .inl (by simp [hmark])
    · exact .inr rfl
  rw [optionLine, h.read, CRun.ok_bind, if_pos hfirst]
  rfl

theorem Filled.unmarked (h : Filled old raw line buf) (hmark : ¬ (line.head? = some 35 ∨ line = [])) :
    ¬ (line.headD 0 = 35 ∨ line.headD 0 = 0) := by
  cases line with
  | nil => exact absurd (.inr rfl) hmark
  | cons c line =>
    rintro (hc | hc)
    · exact hmark (.inl (congrArg some hc))
    · exact h.nul_free (hc ▸ List.mem_cons_self ..)

theorem optionLine_plain (h : Filled old raw line buf) (hline : 61 ∉ line) :
    optionLine htable F buf st = .ok (buf, st) := by
  by_cases hmark : line.head? = some 35 ∨ line = []
  · exact optionLine_marked h hmark
  · have hfind : strchr buf 0 61 = .ok none := by
      obtain ⟨tail, rfl⟩ := h.text
      exact strchr_none hline (by decide) h.nul_free [] tail
    rw [optionLine, h.read, CRun.ok_bind, if_neg (h.unmarked hmark), hfind]
    rfl

/-- The equals sign is overwritten, and the value stands behind it. -/
theorem optionLine_cut {key : Bytes} (h : Filled old raw (key ++ 61 :: str) buf) (hkey : 61 ∉ key)
    (hmark : (key ++ 61 :: str).head? ≠ some 35) :
    ∃ buf', Filled old raw key buf' ∧ textFrom buf' 0 = .ok key ∧
      textFrom buf' (key.length + 1) = .ok str ∧
      optionLine htable F buf st = setOption htable F key.length buf' st := by
  have hnul := h.nul_free
  simp only [List.mem_append, List.mem_cons, not_or] at hnul
  obtain ⟨tail, htail⟩ := h.text
  have hbuf : buf = key ++ 61 :: (str ++ 0 :: tail) := by
    rw [htail, List.append_assoc, List.cons_append]
  have hfind : strchr buf 0 61 = .ok (some key.length) := by
    rw [hbuf]
    exact strchr_first hkey hnul.1 [] _
  have hwrite : writeAt buf key.length 0 = .ok (key ++ 0 :: (str ++ 0 :: tail)) := by
    rw [hbuf]
    exact writeAt_front ..
  obtain ⟨buf', hwrite', hfilled⟩ := h.write (i := key.length) (by simp)
  obtain rfl := Except.ok.inj (hwrite.symm.trans hwrite')
  rw [List.take_left] at hfilled
  refine ⟨_, hfilled, textFrom_text hnul.1 [] _, textFrom_behind hnul.2.2 key 0 tail, ?_⟩
  rw [optionLine, h.read, CRun.ok_bind, if_neg (h.unmarked (not_or.mpr ⟨hmark, by simp⟩)), hfind]
  simp only [CRun.ok_bind, hwrite]

/-- An option that is not known leaves the entry as it is. -/
theorem optionLine_skip (h : Filled old raw line buf) (hnone : optionOf htable line = none) :
    ∃ buf' line', optionLine htable F buf st = .ok (buf', st) ∧ Filled old raw line' buf' := by
  by_cases hmark : line.head? = some 35 ∨ line = []
  · exact ⟨buf, line, optionLine_marked h hmark, h⟩
  · by_cases hequals : 61 ∈ line
    · obtain ⟨key, value, rfl, hkey⟩ := List.eq_append_cons_of_mem hequals
      obtain ⟨buf', hfilled, htext, -, hrun⟩ := @optionLine_cut htable F st _ _ _ _ _ h hkey
        fun hhead => hmark (.inl hhead)
      refine ⟨buf', key, ?_, hfilled⟩
      rw [optionOf, if_neg hmark, cutOption_key hkey] at hnone
      rw [hrun, setOption, htext, CRun.ok_bind]
      cases hcv : htable key with
      | none => rfl
      | some cv =>
        have hbook : cv.otype = .notebook := by
          by_contra hne
          simp [hcv, hne] at hnone
        simp only [if_pos hbook]
        rfl
    · exact ⟨buf, line, optionLine_plain h hequals, h⟩

/-- A line that sets an option needs an entry and a value that can be read. -/
theorem optionLine_read (h : Filled old raw line buf) (hoption : optionOf htable line = some (cv, str)) :
    ∃ buf' line', Filled old raw line' buf' ∧
      (st.newentry = none → optionLine htable F buf st = .error .fault) ∧
      ∀ entry, st.newentry = some entry → optionLine htable F buf st = do
        let value ← readFunction F cv str
        let store ← changeEntry st.store entry (addOption (localOption F cv value))
        return (buf', { st with store }) := by
  unfold optionOf at hoption
  split at hoption
  · cases hoption
  · rename_i hmark
    obtain ⟨⟨key, value⟩, hcut, hoption⟩ := Option.bind_eq_some_iff.mp hoption
    obtain ⟨cv', hcv, hoption⟩ := Option.bind_eq_some_iff.mp hoption
    split at hoption
    · cases hoption
    · rename_i hbook
      obtain ⟨rfl, rfl⟩ := Prod.mk.inj (Option.some.inj hoption)
      have hkey := cutOption_free hcut
      obtain rfl := cutOption_eq hcut
      obtain ⟨buf', hfilled, htext, hvalue, hrun⟩ := @optionLine_cut htable F st _ _ _ _ _ h hkey
        fun hhead => hmark (.inl hhead)
      refine ⟨buf', key, hfilled, ?_, ?_⟩
      · intro hnone
        simp only [hrun, setOption, htext, CRun.ok_bind, hcv, if_neg hbook, hnone]
      · intro entry hentry
        simp only [hrun, setOption, htext, CRun.ok_bind, hcv, if_neg hbook, hentry, hvalue]

theorem bufferLine_bracket (old : Bytes) (hhead : (lineOf raw).head? = some 91) :
    ∃ buf' line', Filled old raw line' buf' ∧ ∀ fuel,
      bufferLine htable F fuel raw old st = do
        let store ← gftpAddBookmark fuel st.store (Bookmark.fresh (bracketPath (lineOf raw)))
        return (buf', ⟨store, some st.store.brk⟩) := by
  obtain ⟨buf, hchomp, hfilled⟩ := chompBuf_fill old raw
  obtain ⟨rest, hline⟩ := List.head?_eq_some_iff.mp hhead
  -- The bracket that begins the line ends the walk back at the latest.
  have hne : (lineOf raw).rdropWhile (fun c => decide (c = 32 ∨ c = 93)) ≠ [] := by
    intro hnil
    have hall := List.rdropWhile_eq_nil_iff.mp hnil 91 (hline ▸ List.mem_cons_self ..)
    exact absurd hall (by decide)
  obtain ⟨buf', hclear, hfilled'⟩ := hfilled.clear hne
  have hread : readAt buf 0 = .ok 91 := by
    rw [hfilled.read, hline]
    rfl
  have hpath : textFrom buf' 1 = .ok (bracketPath (lineOf raw)) := by
    obtain ⟨tail, htail⟩ := hfilled'.text
    obtain ⟨c, kept, hshow⟩ := List.exists_cons_of_ne_nil hne
    have hnul := hfilled'.nul_free
    rw [hshow] at htail hnul
    rw [htail, show bracketPath (lineOf raw) = kept from by
      rw [bracketPath, ← List.rdropWhile, hshow, List.drop_one, List.tail_cons]]
    exact textFrom_behind (fun h0 => hnul (List.mem_cons_of_mem _ h0)) [] c tail
  refine ⟨buf', _, hfilled', ?_⟩
  intro fuel
  simp only [bufferLine, hchomp, CRun.ok_bind, hread, if_true, hclear, hpath]

theorem find_line (h : Filled old raw line buf) :
    (fieldSetters.find? fun field => field.1.isPrefixOf buf) =
      fieldSetters.find? fun field => field.1.isPrefixOf line := by
  have hwords : ∀ word ∈ fieldSetters.map Prod.fst, 0 ∉ word := by decide
  obtain ⟨tail, rfl⟩ := h.text
  generalize fieldSetters = fields at hwords ⊢
  induction fields with
  | nil => rfl
  | cons field fields ih =>
    rw [List.map_cons, List.forall_mem_cons] at hwords
    have hsame : field.1.isPrefixOf (line ++ 0 :: tail) = field.1.isPrefixOf line := by
      rw [Bool.eq_iff_iff, List.isPrefixOf_iff_prefix, List.isPrefixOf_iff_prefix]
      exact prefix_text hwords.1 line tail
    rw [List.find?_cons, List.find?_cons, hsame, ih hwords.2]

theorem Filled.not_bracket (h : Filled old raw (lineOf raw) buf) (hhead : (lineOf raw).head? ≠ some 91) :
    ∃ b, readAt buf 0 = .ok b ∧ b ≠ 91 := by
  refine ⟨_, h.read, ?_⟩
  cases hline : lineOf raw with
  | nil => decide
  | cons c rest =>
    rw [hline] at hhead
    exact fun hc => hhead (congrArg some hc)

/-- A line that begins with the word of a field, behind an entry. -/
theorem bufferLine_field {word : Bytes} {set : Bytes → Bookmark → Bookmark} (old : Bytes)
    (hhead : (lineOf raw).head? ≠ some 91) (hentry : st.newentry = some entry)
    (hfind : (fieldSetters.find? fun field => field.1.isPrefixOf (lineOf raw)) = some (word, set)) :
    ∃ buf', Filled old raw (lineOf raw) buf' ∧ ∀ fuel,
      bufferLine htable F fuel raw old st = do
        let value ← readValue word buf'
        let store ← changeEntry st.store entry (set value)
        return (buf', { st with store }) := by
  obtain ⟨buf, hchomp, hfilled⟩ := chompBuf_fill old raw
  obtain ⟨b, hread, hb⟩ := hfilled.not_bracket hhead
  refine ⟨buf, hfilled, ?_⟩
  intro fuel
  have hfind' := (find_line hfilled).trans hfind
  simp only [bufferLine, hchomp, CRun.ok_bind, hread, if_neg hb, hentry, hfind']

theorem bufferLine_option (old : Bytes) (hhead : (lineOf raw).head? ≠ some 91)
    (hother : st.newentry = none ∨
      (fieldSetters.find? fun field => field.1.isPrefixOf (lineOf raw)) = none) :
    ∃ buf', Filled old raw (lineOf raw) buf' ∧ ∀ fuel,
      bufferLine htable F fuel raw old st = optionLine htable F buf' st := by
  obtain ⟨buf, hchomp, hfilled⟩ := chompBuf_fill old raw
  obtain ⟨b, hread, hb⟩ := hfilled.not_bracket hhead
  refine ⟨buf, hfilled, ?_⟩
  intro fuel
  simp only [bufferLine, hchomp, CRun.ok_bind, hread, if_neg hb]
  rcases hother with hnone | hnone
  · simp only [hnone]
  · have hfind' := (find_line hfilled).trans hnone
    cases st.newentry <;> simp only [hfind']

theorem readFunction_ok_iff (hbook : cv.otype ≠ .notebook) :
    (∃ value, readFunction F cv str = .ok value) ↔ Readable cv str := by
  unfold Readable
  cases htype : cv.otype with
  | color =>
    rw [imp_iff_right rfl, ← arguments_ok_iff (by decide : 1 ≤ 3)]
    have houtputs := arguments_outputs (by decide : (0 : UInt8) ≠ 92) 3 str
    constructor
    · rintro ⟨value, hread⟩
      simp only [readFunction, htype] at hread
      obtain ⟨args, hargs, -⟩ := CRun.bind_eq_ok.mp hread
      rw [hargs] at houtputs
      cases hrun : arguments 0 3 str with
      | error e =>
        rw [hrun] at houtputs
        cases houtputs
      | ok result => exact ⟨result, rfl⟩
    · rintro ⟨result, hresult⟩
      have hlength := ConfigArguments.arguments_length hresult
      rw [hresult] at houtputs
      obtain ⟨red, green, blue, hthree⟩ := List.length_eq_three.mp hlength
      simp only [readFunction, htype, readColor, ← houtputs, Except.map, hthree, CRun.ok_bind]
      exact ⟨_, rfl⟩
  | notebook => exact absurd htype hbook
  | _ =>
    simp only [readFunction, htype]
    exact iff_of_true ⟨_, rfl⟩ fun heq => by cases heq

end Rounds

section Runs

variable {htable : Bytes → Option OptionVar} {F : Floats} {fuel : ℕ} {st : Reading}
  {init old raw : Bytes} {before : List Bytes}

/-- What the lines before have left. -/
structure Reached (init : Bytes) (before : List Bytes) (buf : Bytes) (st : Reading) : Prop where
  covered : Covered init buf before
  sound : Sound st
  entry : st.newentry ≠ none ↔ HasEntry before

theorem hasEntry_append :
    HasEntry (before ++ [raw]) ↔ HasEntry before ∨ (lineOf raw).head? = some 91 := by
  unfold HasEntry
  constructor
  · rintro ⟨l, hl, hhead⟩
    rcases List.mem_append.mp hl with hl | hl
    · exact .inl ⟨l, hl, hhead⟩
    · exact .inr (List.mem_singleton.mp hl ▸ hhead)
  · rintro (⟨l, hl, hhead⟩ | hhead)
    · exact ⟨l, List.mem_append_left _ hl, hhead⟩
    · exact ⟨raw, by simp, hhead⟩

theorem Reached.stay {line buf : Bytes} {st' : Reading} (h : Reached init before old st)
    (hfilled : Filled old raw line buf) (hraw : raw.length ≤ 254)
    (hhead : (lineOf raw).head? ≠ some 91) (hsound : Sound st')
    (hsame : st'.newentry = st.newentry) : Reached init (before ++ [raw]) buf st' where
  covered := h.covered.round hfilled hraw
  sound := hsound
  entry := by
    rw [hsame, h.entry, hasEntry_append]
    exact ⟨.inl, fun h => h.resolve_right hhead⟩

theorem optionOf_type {line str : Bytes} {cv : OptionVar} (h : optionOf htable line = some (cv, str)) :
    cv.otype ≠ .notebook := by
  unfold optionOf at h
  split at h
  · cases h
  · obtain ⟨cut, -, h⟩ := Option.bind_eq_some_iff.mp h
    obtain ⟨cv', -, h⟩ := Option.bind_eq_some_iff.mp h
    split at h
    · cases h
    · obtain ⟨rfl, -⟩ := Prod.mk.inj (Option.some.inj h)
      assumption

theorem set_path {field : Bytes × (Bytes → Bookmark → Bookmark)} (hfield : field ∈ fieldSetters)
    (value : Bytes) (d : Bookmark) : (field.2 value d).path = d.path := by
  have hall : ∀ field ∈ fieldSetters, (field.2 value d).path = d.path := by
    simp [fieldSetters]
  exact hall field hfield

/-- A line that does no harm is read, with enough fuel. -/
theorem round_safe (h : Reached init before old st) (hraw : raw.length ≤ 254)
    (hsafe : LineSafe htable before raw) :
    ∃ buf' st', Ends (fun fuel => bufferLine htable F fuel raw old st) (buf', st') ∧
      Reached init (before ++ [raw]) buf' st' := by
  by_cases hhead : (lineOf raw).head? = some 91
  · obtain ⟨buf', line', hfilled, hrun⟩ := @bufferLine_bracket htable F st raw old hhead
    obtain ⟨store, hadds, hsound⟩ := h.sound.add (hsafe.path hhead)
    refine ⟨buf', ⟨store, some st.store.brk⟩, ?_, h.covered.round hfilled hraw, hsound, ?_⟩
    · refine (hadds.bind (k := fun _ store => .ok (buf', ⟨store, some st.store.brk⟩)) (.ok _)).congr
        fun fuel => ?_
      rw [hrun]
      rfl
    · rw [hasEntry_append]
      exact iff_of_true nofun (.inr hhead)
  · by_cases hfield : st.newentry ≠ none ∧
        (fieldSetters.find? fun field => field.1.isPrefixOf (lineOf raw)) ≠ none
    · obtain ⟨entry, hentry⟩ := Option.ne_none_iff_exists'.mp hfield.1
      obtain ⟨⟨word, set⟩, hfind⟩ := Option.ne_none_iff_exists'.mp hfield.2
      obtain ⟨buf', hfilled, hrun⟩ := @bufferLine_field htable F entry st raw word set old hhead hentry hfind
      have hmem := List.mem_of_find?_eq_some hfind
      have hpre := List.find?_some hfind
      have hword : word <+: lineOf raw := List.isPrefixOf_iff_prefix.mp hpre
      have hcovered := h.covered.round hfilled hraw
      have hzero : 0 ∈ buf'.drop (word.length + 1) := by
        apply hcovered.ended
        by_cases hsame : lineOf raw = word
        · exact hsafe.field (h.entry.mp hfield.1) _ hmem hsame
        · have hlonger : word.length < (lineOf raw).length := by
            by_contra hle
            exact hsame (hword.eq_of_length (by have := hword.length_le; omega)).symm
          exact ⟨raw, by simp, Nat.lt_of_lt_of_le hlonger hfilled.short⟩
      obtain ⟨store, hchange, hsound⟩ := h.sound.change hentry
        (set_path hmem (cstr (buf'.drop (word.length + 1))))
      refine ⟨buf', { st with store }, (Ends.ok _).congr fun fuel => ?_,
        h.stay hfilled hraw hhead hsound rfl⟩
      simp only [hrun, readValue_ok hzero, CRun.ok_bind, hchange]
      rfl
    · have hother : st.newentry = none ∨
          (fieldSetters.find? fun field => field.1.isPrefixOf (lineOf raw)) = none := by
        by_contra hboth
        exact hfield (not_or.mp hboth)
      obtain ⟨buf, hfilled, hrun⟩ := @bufferLine_option htable F st raw old hhead hother
      cases hoption : optionOf htable (lineOf raw) with
      | none =>
        obtain ⟨buf', line', hskip, hfilled'⟩ := @optionLine_skip htable F st _ _ _ _ hfilled hoption
        exact ⟨buf', st, (Ends.ok _).congr fun fuel => (hrun fuel).trans hskip,
          h.stay hfilled' hraw hhead h.sound rfl⟩
      | some option =>
        obtain ⟨cv, str⟩ := option
        have hnone : ¬ (HasEntry before ∧ ∃ field ∈ fieldSetters, field.1 <+: lineOf raw) := by
          rintro ⟨hentry, field, hmem, hpre⟩
          rcases hother with hnew | hfind
          · exact h.entry.mpr hentry hnew
          · exact List.find?_eq_none.mp hfind field hmem (List.isPrefixOf_iff_prefix.mpr hpre)
        obtain ⟨hentry, hreadable⟩ := hsafe.option hhead hnone cv str hoption
        obtain ⟨entry, hentry⟩ := Option.ne_none_iff_exists'.mp (h.entry.mpr hentry)
        obtain ⟨value, hvalue⟩ := (@readFunction_ok_iff F str cv (optionOf_type hoption)).mpr hreadable
        obtain ⟨store, hchange, hsound⟩ := h.sound.change hentry
          (show ∀ d, (addOption (localOption F cv value) d).path = d.path from fun _ => rfl)
        obtain ⟨buf', line', hfilled', -, hset⟩ := @optionLine_read htable F st _ _ _ _ _ _ hfilled hoption
        refine ⟨buf', { st with store }, (Ends.ok _).congr fun fuel => ?_,
          h.stay hfilled' hraw hhead hsound rfl⟩
        simp only [hrun, hset entry hentry, hvalue, CRun.ok_bind, hchange]
        rfl

/-- A buffer of digits, in which neither a text nor a number ends. -/
def digits : Bytes := List.replicate 255 48

theorem word_unique {field field' : Bytes × (Bytes → Bookmark → Bookmark)} (h : field ∈ fieldSetters)
    (h' : field' ∈ fieldSetters) (hpre : field.1 <+: field'.1) : field.1 = field'.1 := by
  have hall : ∀ w ∈ fieldSetters.map Prod.fst, ∀ w' ∈ fieldSetters.map Prod.fst,
      w.isPrefixOf w' = true → w = w' := by decide
  exact hall _ (List.mem_map_of_mem h) _ (List.mem_map_of_mem h') (List.isPrefixOf_iff_prefix.mpr hpre)

/-- A line that does harm is not read when the buffer held digits. -/
theorem safe_of_round (h : Reached digits before old st) (hraw : raw.length ≤ 254)
    {result : Bytes × Reading} (hround : bufferLine htable F fuel raw old st = .ok result) :
    LineSafe htable before raw where
  path hhead := by
    obtain ⟨buf', line', -, hrun⟩ := @bufferLine_bracket htable F st raw old hhead
    obtain ⟨store, hadd, -⟩ := CRun.bind_eq_ok.mp ((hrun fuel).symm.trans hround)
    exact path_ne_of_add hadd
  field hentry field hmem hline := by
    by_contra hnone
    obtain ⟨entry, hentry⟩ := Option.ne_none_iff_exists'.mp (h.entry.mpr hentry)
    have hhead : (lineOf raw).head? ≠ some 91 := by
      have hwords : ∀ word ∈ fieldSetters.map Prod.fst, word.head? ≠ some 91 := by decide
      rw [hline]
      exact hwords _ (List.mem_map_of_mem hmem)
    have hfound : (fieldSetters.find? fun field => field.1.isPrefixOf (lineOf raw)) ≠ none := by
      intro hfind
      refine List.find?_eq_none.mp hfind field hmem (List.isPrefixOf_iff_prefix.mpr ?_)
      rw [hline]
    obtain ⟨⟨word, set⟩, hfind⟩ := Option.ne_none_iff_exists'.mp hfound
    have hpre := List.find?_some hfind
    have hword : word = field.1 :=
      word_unique (List.mem_of_find?_eq_some hfind) hmem (hline ▸ List.isPrefixOf_iff_prefix.mp hpre)
    obtain ⟨buf', hfilled, hrun⟩ := @bufferLine_field htable F entry st raw word set old hhead hentry hfind
    have hlong : ∀ l ∈ before ++ [raw], l.length ≤ word.length := by
      intro l hl
      by_contra hlt
      exact hnone ⟨l, hl, by rw [← hword]; omega⟩
    have hdigits := (h.covered.round hfilled hraw).untouched word.length hlong
    rw [digits, List.drop_replicate] at hdigits
    have hfault := (hrun fuel).symm.trans hround
    rw [readValue_digits hdigits] at hfault
    cases hfault
  option hhead hnone cv str hoption := by
    have hother : st.newentry = none ∨
        (fieldSetters.find? fun field => field.1.isPrefixOf (lineOf raw)) = none := by
      by_contra hboth
      obtain ⟨hnew, hfind⟩ := not_or.mp hboth
      obtain ⟨field, hfind⟩ := Option.ne_none_iff_exists'.mp hfind
      have hpre := List.find?_some hfind
      exact hnone ⟨h.entry.mp hnew, field, List.mem_of_find?_eq_some hfind,
        List.isPrefixOf_iff_prefix.mp hpre⟩
    obtain ⟨buf, hfilled, hrun⟩ := @bufferLine_option htable F st raw old hhead hother
    obtain ⟨buf', line', -, hfault, hset⟩ := @optionLine_read htable F st _ _ _ _ _ _ hfilled hoption
    have hcall := (hrun fuel).symm.trans hround
    cases hentry : st.newentry with
    | none =>
      rw [hfault hentry] at hcall
      cases hcall
    | some entry =>
      rw [hset entry hentry] at hcall
      obtain ⟨value, hvalue, -⟩ := CRun.bind_eq_ok.mp hcall
      exact ⟨h.entry.mp (by simp [hentry]), (readFunction_ok_iff (optionOf_type hoption)).mp ⟨value, hvalue⟩⟩

/-- The lines behind those that were read do no harm. -/
def LinesSafe (htable : Bytes → Option OptionVar) : List Bytes → List Bytes → Prop
  | _, [] => True
  | before, raw :: rest => LineSafe htable before raw ∧ LinesSafe htable (before ++ [raw]) rest

theorem linesSafe_iff {raws : List Bytes} :
    LinesSafe htable before raws ↔
      ∀ front raw back, raws = front ++ raw :: back → LineSafe htable (before ++ front) raw := by
  induction raws generalizing before with
  | nil => simp [LinesSafe]
  | cons raw rest ih =>
    rw [LinesSafe, ih]
    constructor
    · rintro ⟨hraw, hrest⟩ front raw' back heq
      cases front with
      | nil =>
        obtain ⟨rfl, -⟩ := List.cons.inj heq
        simpa using hraw
      | cons l front =>
        obtain ⟨rfl, rfl⟩ := List.cons.inj heq
        simpa using hrest front raw' back rfl
    · intro h
      refine ⟨by simpa using h [] raw rest rfl, ?_⟩
      rintro front raw' back rfl
      simpa using h (raw :: front) raw' back rfl

theorem lines_safe {raws : List Bytes} (h : Reached init before old st)
    (hraws : ∀ raw ∈ raws, raw.length ≤ 254) (hsafe : LinesSafe htable before raws) :
    ∃ result, Ends (fun fuel => bufferLines htable F fuel raws old st) result := by
  induction raws generalizing before old st with
  | nil => exact ⟨(old, st), .ok _⟩
  | cons raw rest ih =>
    obtain ⟨hraw, hrest⟩ := List.forall_mem_cons.mp hraws
    obtain ⟨buf', st', hround, hreached⟩ := @round_safe htable F _ _ _ _ _ h hraw hsafe.1
    obtain ⟨result, hrun⟩ := ih hreached hrest hsafe.2
    refine ⟨result, (hround.bind (k := fun fuel next => bufferLines htable F fuel rest next.1 next.2)
      hrun).congr fun fuel => rfl⟩

theorem safe_of_lines {raws : List Bytes} (h : Reached digits before old st)
    (hraws : ∀ raw ∈ raws, raw.length ≤ 254)
    (hrun : ∃ least, ∀ fuel, least ≤ fuel → ∃ result, bufferLines htable F fuel raws old st = .ok result) :
    LinesSafe htable before raws := by
  induction raws generalizing before old st with
  | nil => trivial
  | cons raw rest ih =>
    obtain ⟨hraw, hrest⟩ := List.forall_mem_cons.mp hraws
    obtain ⟨least, hleast⟩ := hrun
    obtain ⟨result, hfirst⟩ := hleast least (Nat.le_refl _)
    obtain ⟨next, hnext, -⟩ := CRun.bind_eq_ok.mp hfirst
    have hsafe := safe_of_round h hraw hnext
    obtain ⟨buf', st', ⟨least', hround⟩, hreached⟩ := @round_safe htable F _ _ _ _ _ h hraw hsafe
    refine ⟨hsafe, ih hreached hrest ⟨max least least', fun fuel hfuel => ?_⟩⟩
    obtain ⟨result', hlater⟩ := hleast fuel (by omega)
    simp only [bufferLines, hround fuel (by omega), CRun.ok_bind] at hlater
    exact ⟨result', hlater⟩

theorem start_reached {buf : Bytes} (hbuf : buf.length = 255) : Reached buf [] buf ⟨.empty, none⟩ where
  covered := ⟨hbuf, nofun, fun _ _ => rfl⟩
  sound := start_sound
  entry := by simp [HasEntry]

/-- The reader stays in its buffer and follows no null pointer, whatever the buffer held, exactly
when every line of the file does no harm behind the lines before it. -/
theorem read_bookmarks_safe_iff (htable : Bytes → Option OptionVar) (F : Floats) (file : Bytes) :
    Safe htable F file ↔
      ∀ front raw back, getLines 254 file = front ++ raw :: back → LineSafe htable front raw := by
  have hraws : ∀ raw ∈ getLines 254 file, raw.length ≤ 254 := getLines_le
  have hlines : LinesSafe htable [] (getLines 254 file) ↔
      ∀ front raw back, getLines 254 file = front ++ raw :: back → LineSafe htable front raw := by
    simpa using @linesSafe_iff htable [] (getLines 254 file)
  rw [← hlines]
  constructor
  · intro h
    have hdigits : digits.length = 255 := List.length_replicate
    obtain ⟨s, least, hleast⟩ := h digits hdigits
    refine @safe_of_lines htable F _ _ _ _ (start_reached hdigits) hraws ⟨least, fun fuel hfuel => ?_⟩
    obtain ⟨result, hrun, -⟩ := CRun.bind_eq_ok.mp (hleast fuel hfuel)
    exact ⟨result, hrun⟩
  · intro hsafe buf hbuf
    obtain ⟨result, hrun⟩ := @lines_safe htable F _ _ _ _ _ (start_reached hbuf) hraws hsafe
    refine ⟨result.2.store, (hrun.bind (k := fun _ result => .ok result.2.store) (.ok _)).congr
      fun fuel => rfl⟩

/-- Nothing stands in the brackets of the only line, and the byte in front of the path is read. -/
theorem empty_brackets : ¬ ∀ htable F file, Safe htable F file := by
  intro h
  have hdigits : digits.length = 255 := List.length_replicate
  obtain ⟨s, least, hleast⟩ :=
    h (fun _ => none) ⟨fun _ => 0, fun _ => [], fun _ _ => true⟩ (ascii "[]\n") digits hdigits
  have hlines : getLines 254 (ascii "[]\n") = [ascii "[]\n"] := by decide
  obtain ⟨result, hrun, -⟩ := CRun.bind_eq_ok.mp (hleast least (Nat.le_refl _))
  rw [hlines] at hrun
  obtain ⟨next, hround, -⟩ := CRun.bind_eq_ok.mp hrun
  exact (safe_of_round (start_reached hdigits) (by decide) hround).path (by decide) (by decide)

end Runs

section Agreement

variable {htable : Bytes → Option OptionVar} {F : Floats} {fuel : ℕ} {st st' : Reading}
  {init old raw : Bytes} {before : List Bytes}

/-- The options as the reader without a buffer takes them. -/
def readOption (htable : Bytes → Option OptionVar) (F : Floats) (key str : Bytes) :
    Option LocalOption :=
  (htable key).bind fun cv =>
    if cv.otype = .notebook then none
    else (readFunction F cv str).toOption.map (localOption F cv)

theorem otherLine_eq (line : Bytes) :
    BookmarksFile.otherLine (readOption htable F) line =
      (optionOf htable line).bind fun option =>
        (readFunction F option.1 option.2).toOption.map (localOption F option.1) := by
  unfold BookmarksFile.otherLine optionOf
  split
  · rfl
  · cases cutOption line with
    | none => rfl
    | some cut =>
      simp only [Option.bind_some, readOption]
      cases htable cut.1 with
      | none => rfl
      | some cv =>
        simp only [Option.bind_some]
        split <;> rfl

/-- Where the reader without a buffer gets through a line, the buffer makes no difference. -/
theorem round_agrees (h : Reached init before old st) (hsafe : LineSafe htable before raw)
    (hread : BookmarksFile.readLine (readOption htable F) fuel (lineOf raw) st = .ok st') :
    ∃ buf', bufferLine htable F fuel raw old st = .ok (buf', st') := by
  unfold BookmarksFile.readLine at hread
  by_cases hhead : (lineOf raw).head? = some 91
  · obtain ⟨buf', line', -, hrun⟩ := @bufferLine_bracket htable F st raw old hhead
    rw [if_pos hhead] at hread
    obtain ⟨store, hadd, hread⟩ := CRun.bind_eq_ok.mp hread
    refine ⟨buf', ?_⟩
    rw [hrun, hadd, ← Except.ok.inj hread]
    rfl
  · rw [if_neg hhead] at hread
    -- A line that is none of a field, with an entry or without one.
    have hoption : ∀ buf, Filled old raw (lineOf raw) buf → (HasEntry before →
          ¬ ∃ field ∈ fieldSetters, field.1 <+: lineOf raw) →
        (optionOf htable (lineOf raw) = none → st' = st) →
        (∀ cv str value, optionOf htable (lineOf raw) = some (cv, str) →
          readFunction F cv str = .ok value → ∃ entry store, st.newentry = some entry ∧
            changeEntry st.store entry (addOption (localOption F cv value)) = .ok store ∧
            st' = { st with store }) →
        ∃ buf', optionLine htable F buf st = .ok (buf', st') := by
      intro buf hfilled hfields hnone hsome
      cases hopt : optionOf htable (lineOf raw) with
      | none =>
        obtain ⟨buf', line', hskip, -⟩ := @optionLine_skip htable F st _ _ _ _ hfilled hopt
        exact ⟨buf', hnone hopt ▸ hskip⟩
      | some option =>
        obtain ⟨cv, str⟩ := option
        obtain ⟨-, hreadable⟩ := hsafe.option hhead (fun hboth => hfields hboth.1 hboth.2) cv str hopt
        obtain ⟨value, hvalue⟩ := (@readFunction_ok_iff F str cv (optionOf_type hopt)).mpr hreadable
        obtain ⟨entry, store, hentry, hchange, rfl⟩ := hsome cv str value hopt hvalue
        obtain ⟨buf', line', -, -, hset⟩ := @optionLine_read htable F st _ _ _ _ _ _ hfilled hopt
        refine ⟨buf', ?_⟩
        rw [hset entry hentry, hvalue, CRun.ok_bind, hchange]
        rfl
    cases hnew : st.newentry with
    | none =>
      obtain ⟨buf, hfilled, hrun⟩ := @bufferLine_option htable F st raw old hhead (.inl hnew)
      rw [hrun]
      simp only [hnew, otherLine_eq] at hread
      refine hoption buf hfilled (fun hentry => absurd hnew (h.entry.mpr hentry)) ?_ ?_
      · intro hopt
        rw [hopt] at hread
        exact (Except.ok.inj hread).symm
      · intro cv str value hopt hvalue
        rw [hopt] at hread
        simp only [Option.bind_some, hvalue, Except.toOption, Option.map_some] at hread
        cases hread
    | some entry =>
      simp only [hnew] at hread
      obtain ⟨change, hchange, hread⟩ := CRun.bind_eq_ok.mp hread
      unfold BookmarksFile.lineChange at hchange
      cases hfind : fieldSetters.find? fun field => field.1.isPrefixOf (lineOf raw) with
      | some field =>
        obtain ⟨word, set⟩ := field
        simp only [hfind] at hchange
        obtain ⟨value, hbehind, hchange⟩ := CRun.bind_eq_ok.mp hchange
        obtain rfl := Except.ok.inj hchange
        obtain ⟨store, hstore, hdone⟩ := CRun.bind_eq_ok.mp hread
        obtain ⟨buf', hfilled, hrun⟩ := @bufferLine_field htable F entry st raw word set old hhead hnew hfind
        obtain ⟨tail, htail⟩ := hfilled.text
        have hpre := List.find?_some hfind
        obtain ⟨rest, hrest⟩ : word <+: lineOf raw := List.isPrefixOf_iff_prefix.mp hpre
        have hnul := hfilled.nul_free
        rw [← hrest] at hbehind htail hnul
        rw [BookmarksFile.behind, List.drop_left] at hbehind
        cases rest with
        | nil => cases hbehind
        | cons c rest =>
          obtain rfl := Except.ok.inj hbehind
          have hplain : 0 ∉ rest := fun h0 => hnul (by simp [h0])
          have hdrop : buf'.drop (word.length + 1) = rest ++ 0 :: tail := by
            rw [htail, List.append_assoc, List.cons_append]
            exact drop_behind word c _
          have hvalue := @readValue_ok buf' word (by rw [hdrop]; simp)
          rw [hdrop, cstr_append_nul hplain] at hvalue
          refine ⟨buf', ?_⟩
          rw [hrun, hvalue, CRun.ok_bind, hstore, ← Except.ok.inj hdone, CRun.ok_bind, hnew]
          rfl
      | none =>
        obtain ⟨buf, hfilled, hrun⟩ := @bufferLine_option htable F st raw old hhead (.inr hfind)
        rw [hrun]
        simp only [hfind, otherLine_eq] at hchange
        obtain rfl := Except.ok.inj hchange
        refine hoption buf hfilled ?_ ?_ ?_
        · rintro - ⟨field, hfield, hpre⟩
          exact List.find?_eq_none.mp hfind field hfield (List.isPrefixOf_iff_prefix.mpr hpre)
        · intro hopt
          rw [hopt] at hread
          exact (Except.ok.inj hread).symm
        · intro cv str value hopt hvalue
          rw [hopt] at hread
          simp only [Option.bind_some, hvalue, Except.toOption, Option.map_some] at hread
          obtain ⟨store, hstore, hdone⟩ := CRun.bind_eq_ok.mp hread
          refine ⟨entry, store, hnew, hstore, ?_⟩
          rw [← Except.ok.inj hdone, hnew]

theorem lines_agree {raws : List Bytes} {last : Reading} (h : Reached init before old st)
    (hraws : ∀ raw ∈ raws, raw.length ≤ 254) (hsafe : LinesSafe htable before raws)
    (hread : ∃ least, ∀ fuel, least ≤ fuel →
      BookmarksFile.readLines (readOption htable F) fuel raws st = .ok last) :
    ∃ buf', Ends (fun fuel => bufferLines htable F fuel raws old st) (buf', last) := by
  induction raws generalizing before old st with
  | nil =>
    obtain ⟨least, hleast⟩ := hread
    obtain rfl := Except.ok.inj (hleast least (Nat.le_refl _))
    exact ⟨old, .ok _⟩
  | cons raw rest ih =>
    obtain ⟨hraw, hrest⟩ := List.forall_mem_cons.mp hraws
    obtain ⟨least, hleast⟩ := hread
    obtain ⟨buf', st', ⟨least', hround⟩, hreached⟩ := @round_safe htable F _ _ _ _ _ h hraw hsafe.1
    obtain ⟨buf'', hrun⟩ := ih hreached hrest hsafe.2 ⟨max least least', fun fuel hfuel => by
      obtain ⟨next, hnext, hlater⟩ := CRun.bind_eq_ok.mp (hleast fuel (by omega))
      obtain ⟨buf'', hbuf⟩ := round_agrees h hsafe.1 hnext
      obtain ⟨-, rfl⟩ := Prod.mk.inj (Except.ok.inj ((hround fuel (by omega)).symm.trans hbuf))
      exact hlater⟩
    have hends : Ends (fun fuel => bufferLine htable F fuel raw old st) (buf', st') := ⟨least', hround⟩
    exact ⟨buf'', (hends.bind (k := fun fuel next => bufferLines htable F fuel rest next.1 next.2)
      hrun).congr fun fuel => rfl⟩

/-- The store is the one that the reader without a buffer leaves. -/
theorem read_bookmarks_agrees {file buf : Bytes} {s : Store} (hbuf : buf.length = 255)
    (hsafe : LinesSafe htable [] (getLines 254 file))
    (hread : ∃ last, (∃ least, ∀ fuel, least ≤ fuel → BookmarksFile.readLines (readOption htable F) fuel
      (getLines 254 file) ⟨.empty, none⟩ = .ok last) ∧ last.store = s) :
    Ends (fun fuel => gftpReadBookmarks htable F fuel buf file) s := by
  obtain ⟨last, hlines, rfl⟩ := hread
  obtain ⟨buf', hrun⟩ := lines_agree (start_reached hbuf) getLines_le hsafe hlines
  exact (hrun.bind (k := fun _ result => .ok result.2.store) (.ok _)).congr fun fuel => rfl

end Agreement

end Gftp.BookmarkBuffer
