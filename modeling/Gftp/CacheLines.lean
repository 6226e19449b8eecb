import Gftp.CacheIndex
import Gftp.LineReading

/-!
Lines of the cache index and the entries they stand for. The fields of an entry have
no tab, newline or NUL, so that its line is parsed into the same fields and restored
to the same bytes.
-/

namespace Gftp.CacheLines

open ByteStrings ByteStreams LineReader LineReading Decimal FileTable CacheIndex

/-- A text that can stand between two tabs of a line. -/
def Clean (l : Bytes) : Prop := 0 ∉ l ∧ 9 ∉ l ∧ 10 ∉ l

instance (l : Bytes) : Decidable (Clean l) := inferInstanceAs (Decidable (_ ∧ _))

structure CacheEntry where
  url : Bytes
  file : Bytes
  serverType : Int32
  expirationDate : Int64
  url_clean : Clean url
  file_clean : Clean file

namespace CacheEntry

def line (e : CacheEntry) : Bytes := cacheLine e.url e.file e.serverType e.expirationDate

def fields (e : CacheEntry) : ParsedLine :=
  { url := e.url, file := e.file, serverType := e.serverType, expirationDate := e.expirationDate }

/-- The entry as it is parsed: offsets of the fields and of the tabs. -/
def parsed (e : CacheEntry) : GftpCacheEntry where
  url := 0
  file := e.url.length + 1
  serverType := e.serverType
  expirationDate := e.expirationDate
  pos1 := e.url.length
  pos2 := e.url.length + 1 + e.file.length
  pos3 := e.url.length + 1 + e.file.length + 1 + (decimal e.serverType.toInt).length

/-- The line with the byte c for each tab, in an array that ends in tail. -/
def shownWith (e : CacheEntry) (c : UInt8) (tail : Bytes) : Bytes :=
  e.url ++ c :: (e.file ++ c :: (decimal e.serverType.toInt ++
    c :: (decimal e.expirationDate.toInt ++ tail)))

end CacheEntry

theorem decimal_clean (n : ℤ) : Clean (decimal n) := by
  have hbyte : ∀ b : UInt8, b < 45 → b ∉ decimal n := by
    intro b hb hmem
    rcases decimal_all n b hmem with rfl | hdigit
    · exact absurd hb (by decide)
    · have hle : 48 ≤ b := (of_decide_eq_true hdigit).1
      have h1 := UInt8.lt_iff_toNat_lt.mp hb
      have h2 := UInt8.le_iff_toNat_le.mp hle
      have h45 : (45 : UInt8).toNat = 45 := rfl
      have h48 : (48 : UInt8).toNat = 48 := rfl
      omega
  exact ⟨hbyte 0 (by decide), hbyte 9 (by decide), hbyte 10 (by decide)⟩

theorem strchr_tab {pre field rest tail : Bytes} {start : ℕ} (hstart : start = pre.length)
    (hfield : Clean field) (hrest : 0 ∉ rest) :
    strchr (pre ++ (field ++ 9 :: (rest ++ 0 :: tail))) start 9 =
      .ok (some (start + field.length)) := by
  subst hstart
  have hform : field ++ 9 :: (rest ++ 0 :: tail) = (field ++ 9 :: rest) ++ 0 :: tail := by simp
  rw [hform, strchr_display (by simp [hfield.1, hrest]), if_pos (by simp),
    List.idxOf_append_of_notMem hfield.2.1]
  simp

/-- Cutting a field that is followed by something stores one NUL. -/
theorem cutField_display {pre field rest tail : Bytes} {start : ℕ} (hstart : start = pre.length)
    (hfield : Clean field) (hrest : 0 ∉ rest) (hne : rest ≠ []) :
    cutField (pre ++ (field ++ 9 :: (rest ++ 0 :: tail))) start =
      .ok (some (start + field.length), pre ++ (field ++ 0 :: (rest ++ 0 :: tail))) := by
  obtain ⟨b, rest, rfl⟩ := List.exists_cons_of_ne_nil hne
  have hb : b ≠ 0 := fun h => hrest (by simp [h])
  have hnext : (pre ++ (field ++ 9 :: (b :: rest ++ 0 :: tail)))[start + field.length + 1]? =
      some b := by
    rw [show pre ++ (field ++ 9 :: (b :: rest ++ 0 :: tail)) =
      (pre ++ field ++ [9]) ++ b :: (rest ++ 0 :: tail) by simp]
    rw [List.getElem?_append_right (by simp [hstart]; omega)]
    simp [hstart, Nat.add_assoc]
  have hwrite := @overwrite_middle (pre ++ field) [9] (b :: rest ++ 0 :: tail) [0]
    (start + field.length) (by simp [hstart]) rfl
  unfold cutField
  rw [strchr_tab hstart hfield hrest, CRun.ok_bind]
  dsimp only
  rw [hnext, if_neg (by simp [hb])]
  simp only [List.append_assoc, List.singleton_append] at hwrite
  rw [hwrite, CRun.ok_bind]
  rfl

namespace CacheEntry

variable (e : CacheEntry)

/-- A line is parsed into its fields, and a NUL stands for each tab. -/
theorem parse_line (tail : Bytes) :
    gftpParseCacheLine (e.shownWith 9 (0 :: tail)) =
      .ok (some e.parsed, e.shownWith 0 (0 :: tail)) := by
  have htype := decimal_clean e.serverType.toInt
  have hdate := decimal_clean e.expirationDate.toInt
  have cut1 := @cutField_display [] e.url (e.file ++ 9 :: (decimal e.serverType.toInt ++
    9 :: decimal e.expirationDate.toInt)) tail 0 rfl e.url_clean
    (by simp [e.file_clean.1, htype.1, hdate.1]) (by simp)
  have cut2 := @cutField_display (e.url ++ [0]) e.file (decimal e.serverType.toInt ++
    9 :: decimal e.expirationDate.toInt) tail (e.url.length + 1) (by simp) e.file_clean
    (by simp [htype.1, hdate.1]) (by simp)
  have cut3 := @cutField_display (e.url ++ 0 :: (e.file ++ [0])) (decimal e.serverType.toInt)
    (decimal e.expirationDate.toInt) tail (e.url.length + 1 + e.file.length + 1)
    (by simp; omega) htype hdate.1 (decimal_ne_nil _)
  simp only [List.nil_append, List.append_assoc, List.cons_append, Nat.zero_add]
    at cut1 cut2 cut3
  have hserver : cstr ((e.url ++ 0 :: (e.file ++ 0 :: (decimal e.serverType.toInt ++
      9 :: (decimal e.expirationDate.toInt ++ 0 :: tail)))).drop
        (e.url.length + 1 + e.file.length + 1)) =
      decimal e.serverType.toInt ++ 9 :: decimal e.expirationDate.toInt := by
    rw [show e.url ++ 0 :: (e.file ++ 0 :: (decimal e.serverType.toInt ++
      9 :: (decimal e.expirationDate.toInt ++ 0 :: tail))) = (e.url ++ 0 :: (e.file ++ [0])) ++
        ((decimal e.serverType.toInt ++ 9 :: decimal e.expirationDate.toInt) ++ 0 :: tail) by simp,
      List.drop_left' (by simp; omega), cstr_append_nul (by simp [htype.1, hdate.1])]
  have hexpires : cstr ((e.url ++ 0 :: (e.file ++ 0 :: (decimal e.serverType.toInt ++
      0 :: (decimal e.expirationDate.toInt ++ 0 :: tail)))).drop
        (e.url.length + 1 + e.file.length + 1 + (decimal e.serverType.toInt).length + 1)) =
      decimal e.expirationDate.toInt := by
    rw [show e.url ++ 0 :: (e.file ++ 0 :: (decimal e.serverType.toInt ++
      0 :: (decimal e.expirationDate.toInt ++ 0 :: tail))) =
        (e.url ++ 0 :: (e.file ++ 0 :: (decimal e.serverType.toInt ++ [0]))) ++
          (decimal e.expirationDate.toInt ++ 0 :: tail) by simp,
      List.drop_left' (by simp; omega), cstr_append_nul hdate.1]
  have hread1 : strtol (decimal e.serverType.toInt ++ 9 :: decimal e.expirationDate.toInt) =
      e.serverType.toInt := by
    have hlow := e.serverType.le_toInt
    have hhigh := e.serverType.toInt_lt
    exact strtol_decimal (by omega) (by omega) (by simp [isDigit])
  have hread2 : strtol (decimal e.expirationDate.toInt) = e.expirationDate.toInt := by
    have h := strtol_decimal e.expirationDate.le_toInt e.expirationDate.toInt_lt
      (show ∀ b, ([] : Bytes).head? = some b → isDigit b = false by simp)
    rwa [List.append_nil] at h
  unfold gftpParseCacheLine shownWith
  simp only [cut1, cut2, cut3, CRun.ok_bind, hserver, hexpires, hread1, hread2,
    Int32.ofInt_toInt, Int64.ofInt_toInt]
  rfl

/-- The strings that a parsed line shows are its fields. -/
theorem shown_parsed (tail : Bytes) : e.parsed.shown (e.shownWith 0 (0 :: tail)) = e.fields := by
  have hurl : cstr ((e.shownWith 0 (0 :: tail)).drop 0) = e.url :=
    cstr_append_nul e.url_clean.1 _
  have hfile : cstr ((e.shownWith 0 (0 :: tail)).drop (e.url.length + 1)) = e.file := by
    unfold shownWith
    rw [show ∀ r : Bytes, e.url ++ 0 :: r = (e.url ++ [0]) ++ r by simp,
      List.drop_left' (by simp), cstr_append_nul e.file_clean.1]
  simp only [GftpCacheEntry.shown, parsed, fields, hurl, hfile]

theorem restore_line (tail : Bytes) :
    gftpRestoreCacheLine e.parsed (e.shownWith 0 (0 :: tail)) =
      .ok (e.shownWith 9 (0 :: tail)) := by
  have tab1 := @overwrite_middle e.url [0] (e.file ++ 0 :: (decimal e.serverType.toInt ++
    0 :: (decimal e.expirationDate.toInt ++ 0 :: tail))) [9] e.url.length rfl rfl
  have tab2 := @overwrite_middle (e.url ++ 9 :: e.file) [0] (decimal e.serverType.toInt ++
    0 :: (decimal e.expirationDate.toInt ++ 0 :: tail)) [9] (e.url.length + 1 + e.file.length)
    (by simp; omega) rfl
  have tab3 := @overwrite_middle (e.url ++ 9 :: (e.file ++ 9 :: decimal e.serverType.toInt)) [0]
    (decimal e.expirationDate.toInt ++ 0 :: tail) [9]
    (e.url.length + 1 + e.file.length + 1 + (decimal e.serverType.toInt).length)
    (by simp; omega) rfl
  simp only [List.append_assoc, List.cons_append, List.nil_append] at tab1 tab2 tab3
  unfold gftpRestoreCacheLine shownWith
  simp only [parsed, tab1, tab2, tab3, CRun.ok_bind]

theorem shownWith_tab (tail : Bytes) : e.shownWith 9 tail = e.line ++ tail := by
  simp [shownWith, line, cacheLine]

theorem lineBuf_line (h : e.line.length < bufsiz) :
    ∃ tail, lineBuf e.line = e.shownWith 9 (0 :: tail) := by
  obtain ⟨n, hn⟩ := Nat.exists_eq_succ_of_ne_zero (Nat.sub_ne_zero_of_lt h)
  refine ⟨List.replicate n 0, ?_⟩
  rw [shownWith_tab, lineBuf, hn, List.replicate_succ]

theorem line_nul_free : 0 ∉ e.line := by
  simp [line, cacheLine, e.url_clean.1, e.file_clean.1, (decimal_clean _).1]

theorem line_ne_nil : e.line ≠ [] := by
  simp [line, cacheLine]

/-- A short enough line is returned as it is: it has no newline, and it ends in a
digit. -/
theorem lineFits {len : ℕ} (h : e.line.length < len) : LineFits len e.line := by
  refine ⟨e.line_nul_free, ?_, ?_, h⟩
  · simp [line, cacheLine, e.url_clean.2.2, e.file_clean.2.2, (decimal_clean _).2.2]
  · intro hlast
    have hend : e.line.getLast? = (decimal e.expirationDate.toInt).getLast? := by
      have hform : e.line = (e.url ++ 9 :: (e.file ++ 9 :: (decimal e.serverType.toInt ++ [9]))) ++
          decimal e.expirationDate.toInt := by simp [line, cacheLine]
      rw [hform, List.getLast?_append_of_ne_nil _ (decimal_ne_nil _)]
    have hmem := List.mem_of_getLast? (hend ▸ hlast)
    rcases decimal_all _ _ hmem with h13 | h13
    · exact absurd h13 (by decide)
    · exact absurd h13 (by decide)

theorem clearLine_line {cachedir : Bytes} (h : e.line.length < bufsiz) (st : Cleared cachedir) :
    clearLine e.line st =
      .ok ({ dir := st.dir.unlink e.file, unlinked := st.unlinked ++ [e.file] }, true) := by
  obtain ⟨tail, hbuf⟩ := e.lineBuf_line h
  unfold clearLine
  rw [hbuf, e.parse_line, CRun.ok_bind]
  dsimp only
  rw [e.shown_parsed]
  rfl

/-- A line is found when it has the description and has not expired. -/
theorem findLine_line (h : e.line.length < bufsiz) (now : Int64) (description : Bytes) :
    findLine now description e.line =
      .ok (if ¬ e.expirationDate < now ∧ description = e.url then some (e.file, e.serverType)
        else none) := by
  obtain ⟨tail, hbuf⟩ := e.lineBuf_line h
  unfold findLine
  rw [hbuf, e.parse_line, CRun.ok_bind]
  dsimp only
  rw [e.shown_parsed]
  by_cases hexp : e.expirationDate < now
  · simp [fields, hexp, pure, Except.pure]
  · by_cases hurl : description = e.url
    · simp [fields, hexp, hurl, pure, Except.pure]
    · simp [fields, hexp, hurl, pure, Except.pure]

/-- A line is removed, or it is written without its newline and its last byte. -/
theorem deleteLine_line (h : e.line.length < bufsiz) (now : Int64) (description : Bytes)
    (ignoreDirectory : Bool) :
    deleteLine now description ignoreDirectory e.line =
      .ok (if delEntry now description ignoreDirectory e.fields then .remove e.file
        else .keep e.line.dropLast) := by
  obtain ⟨tail, hbuf⟩ := e.lineBuf_line h
  unfold deleteLine
  rw [hbuf, e.parse_line, CRun.ok_bind]
  dsimp only
  rw [e.shown_parsed]
  split
  · rfl
  · have hlen : cstr (e.shownWith 9 (0 :: tail)) = e.line := by
      rw [shownWith_tab, cstr_append_nul e.line_nul_free]
    rw [e.restore_line, CRun.ok_bind, hlen, shownWith_tab,
      show e.line ++ 0 :: tail = e.line ++ ([0] ++ tail) by rfl,
      overwrite_middle rfl (show ([10] : Bytes).length = ([0] : Bytes).length from rfl),
      CRun.ok_bind]
    have hcut : (e.line ++ ([10] ++ tail)).take (e.line.length - 1) = e.line.dropLast := by
      rw [List.take_append_of_le_length (Nat.sub_le ..), List.dropLast_eq_take]
    rw [hcut]
    rfl

end CacheEntry

end Gftp.CacheLines
