import Gftp.ConfigFile
import Gftp.OptionTexts

/-!
The lines of the configuration file. The line of an option that fits the buffer of the reader
sets that option; a longer one is read in parts, and those after the first are too short for
the key.
-/

namespace Gftp.ConfigLines

open ByteStrings TextFiles Comments Decimal OptionTables OptionValues OptionTexts ConfigFile
open BookmarksFile (cutOption)

/-- An option that gftp_global_options_htable has, under a key that is none of a list. -/
structure Entry (cv : OptionVar) : Prop extends Registered cv where
  table : globalOptionsHtable cv.key = some cv
  noList : cv.key ∉ gftpConfigList.map Prod.fst
  closed : ∀ c ∈ cv.comment, Closed c
  words : cv.otype = .textcombo → ∀ entry ∈ cv.listdata, ∃ b ∈ entry, b ≠ 45 ∧ isDigit b = false

variable {F : Floats} {cv : OptionVar} {st st' : Bytes → Setting} {l key b : Bytes}

section Reading

theorem readLines_append (ls ls' : List Bytes) (st : Bytes → Setting) :
    readLines F (ls ++ ls') st = readLines F ls st >>= fun st' => readLines F ls' st' := by
  induction ls generalizing st with
  | nil => rfl
  | cons l ls ih =>
    rw [List.cons_append, readLines, readLines]
    cases readLine F (chomp (cstr l)) st with
    | error e => rfl
    | ok st₁ => exact ih st₁

theorem read_feed (x y : Bytes) (st : Bytes → Setting) :
    gftpReadConfigFile F (x ++ 10 :: y) st =
      gftpReadConfigFile F (x ++ [10]) st >>= fun st' => gftpReadConfigFile F y st' := by
  rw [gftpReadConfigFile, getLines_feed (by decide), readLines_append]
  rfl

theorem read_line (h : LineOk l) (st : Bytes → Setting) :
    gftpReadConfigFile F (l ++ [10]) st = readLine F (stripLast 13 l) st := by
  rw [gftpReadConfigFile, getLines_line h.1, ← chomp_cstr h]
  show readLine F (chomp (cstr (l ++ [10]))) st >>= pure = _
  rw [bind_pure]

theorem readLine_skip (h : l = [] ∨ l.head? = some 35) (st : Bytes → Setting) :
    readLine F l st = .ok st := by
  rw [readLine, if_pos h.symm]
  rfl

theorem read_skip (hline : LineOk l) (h : l = [] ∨ l.head? = some 35) (st : Bytes → Setting) :
    gftpReadConfigFile F (l ++ [10]) st = .ok st := by
  rw [read_line hline]
  apply readLine_skip
  rcases h with rfl | hmark
  · exact .inl rfl
  · obtain ⟨rest, rfl⟩ := List.head?_eq_some_iff.mp hmark
    have hstrip : stripLast 13 (35 :: rest) = 35 :: stripLast 13 rest :=
      stripLast_word (show ([35] : Bytes).getLast? ≠ some 13 by decide) rest
    exact .inr (hstrip ▸ rfl)

theorem read_skips {lines : List Bytes} (h : ∀ l ∈ lines, LineOk l ∧ (l = [] ∨ l.head? = some 35))
    (rest : Bytes) (st : Bytes → Setting) :
    gftpReadConfigFile F (joinLines lines ++ rest) st = gftpReadConfigFile F rest st := by
  induction lines with
  | nil => rfl
  | cons l lines ih =>
    obtain ⟨⟨hline, hmark⟩, hlines⟩ := List.forall_mem_cons.mp h
    have hform : joinLines (l :: lines) ++ rest = l ++ 10 :: (joinLines lines ++ rest) := by
      simp [joinLines]
    rw [hform, read_feed, read_skip hline hmark]
    exact ih hlines

theorem read_comment {comment : Option Bytes} (h : ∀ c ∈ comment, Closed c) (rest : Bytes)
    (st : Bytes → Setting) :
    gftpReadConfigFile F (commentText comment ++ rest) st = gftpReadConfigFile F rest st := by
  cases comment with
  | none => rfl
  | some c =>
    obtain ⟨lines, htext, hlines⟩ := h c rfl
    show gftpReadConfigFile F (writeComment c ++ rest) st = _
    rw [htext]
    exact read_skips (fun l hl => ⟨comment_lineOk (hlines l hl), .inr (hlines l hl).mark⟩) rest st

/-- The comment at the head of the file, with the line feed before the first option. -/
theorem read_header {header : Bytes} (h : Plain header) (rest : Bytes) (st : Bytes → Setting) :
    gftpReadConfigFile F (writeComment header ++ 10 :: rest) st = gftpReadConfigFile F rest st := by
  obtain ⟨lines, tail, heq, hlines, htail⟩ := writeComment_lines h
  have hlast : LineOk tail ∧ (tail = [] ∨ tail.head? = some 35) := by
    rcases htail with rfl | rfl <;> decide
  rw [heq, List.append_assoc, read_skips fun l hl =>
    ⟨comment_lineOk (hlines l hl), .inr (hlines l hl).mark⟩, read_feed, read_skip hlast.1 hlast.2]
  rfl

end Reading

section Options

theorem cutOption_key (hkey : 61 ∉ key) (str : Bytes) :
    cutOption (key ++ 61 :: str) = some (key, str) := by
  have hall : ∀ c ∈ key, (c ≠ 61) := fun c hc heq => hkey (heq ▸ hc)
  rw [cutOption, if_pos (by simp), List.takeWhile_append_of_pos (by simpa using hall),
    List.dropWhile_append_of_pos (by simpa using hall)]
  simp

theorem dropWhile_equals (h : 61 ∈ l) : ∃ rest, l.dropWhile (· ≠ 61) = 61 :: rest := by
  induction l with
  | nil => exact absurd h nofun
  | cons c l ih =>
    by_cases hc : c = 61
    · exact ⟨l, by simp [hc]⟩
    · obtain ⟨rest, hrest⟩ := ih (List.mem_of_ne_of_mem (Ne.symm hc) h)
      exact ⟨rest, by simpa [hc] using hrest⟩

theorem cutOption_eq {str : Bytes} (h : cutOption l = some (key, str)) : l = key ++ 61 :: str := by
  unfold cutOption at h
  split at h
  · rename_i hmem
    obtain ⟨rfl, rfl⟩ := Prod.mk.inj (Option.some.inj h)
    obtain ⟨rest, hrest⟩ := dropWhile_equals hmem
    have hsplit := List.takeWhile_append_dropWhile (p := (· ≠ 61)) (l := l)
    rw [hrest] at hsplit ⊢
    exact hsplit.symm
  · exact absurd h nofun

theorem Entry.readLine_option (h : Entry cv) (str : Bytes) (st : Bytes → Setting) :
    readLine F (cv.key ++ 61 :: str) st =
      readFunction F cv str >>= fun v => pure (Function.update st cv.key v) := by
  obtain ⟨hne, hmark, hbytes⟩ := h.key
  have hskip : ¬ ((cv.key ++ 61 :: str).head? = some 35 ∨ cv.key ++ 61 :: str = []) := by
    obtain ⟨c, key, hcons⟩ := List.exists_cons_of_ne_nil hne
    rw [hcons] at hmark ⊢
    simpa using hmark
  rw [readLine, if_neg hskip, cutOption_key fun hmem => (hbytes 61 hmem).2.2 rfl]
  simp only [if_neg h.noList, h.table, if_neg h.type]

theorem readLine_other (hread : readLine F l st = .ok st') (h : ¬ key ++ [61] <+: l) :
    st' key = st key := by
  unfold readLine at hread
  split at hread
  · exact congrFun (Except.ok.inj hread).symm key
  split at hread
  · exact congrFun (Except.ok.inj hread).symm key
  rename_i cut key' str hcut
  have hne : key ≠ key' := by
    rintro rfl
    apply h
    rw [cutOption_eq hcut]
    exact ⟨str, by simp⟩
  split at hread
  · obtain ⟨-, -, heq⟩ := CRun.bind_eq_ok.mp hread
    exact congrFun (Except.ok.inj heq).symm key
  split at hread
  · exact congrFun (Except.ok.inj hread).symm key
  split_ifs at hread
  · exact congrFun (Except.ok.inj hread).symm key
  · obtain ⟨v, -, heq⟩ := CRun.bind_eq_ok.mp hread
    rw [← Except.ok.inj heq]
    exact Function.update_of_ne hne _ _

theorem Entry.read_fits (h : Entry cv) (hline : LineOk (cv.key ++ 61 :: b)) (st : Bytes → Setting) :
    gftpReadConfigFile F (cv.key ++ 61 :: (b ++ [10])) st =
      readFunction F cv (stripLast 13 b) >>= fun v => pure (Function.update st cv.key v) := by
  have hstrip : stripLast 13 (cv.key ++ 61 :: b) = cv.key ++ 61 :: stripLast 13 b := by
    have hword : (cv.key ++ [61]).getLast? ≠ some 13 := by simp
    have hsplit := stripLast_word hword b
    simpa using hsplit
  have hform : cv.key ++ 61 :: (b ++ [10]) = (cv.key ++ 61 :: b) ++ [10] := by simp
  rw [hform, read_line hline, hstrip, h.readLine_option]

theorem read_short {file : Bytes} (hread : gftpReadConfigFile F file st = .ok st')
    (hlen : file.length ≤ key.length) : st' key = st key := by
  have hpieces : ∀ p ∈ getLines 254 file, p.length ≤ file.length := by
    intro p hp
    have hsub := (List.sublist_flatten_of_mem hp).length_le
    rwa [getLines_flatten (by decide)] at hsub
  unfold gftpReadConfigFile at hread
  generalize getLines 254 file = ps at hread hpieces
  induction ps generalizing st with
  | nil => exact congrFun (Except.ok.inj hread).symm key
  | cons p ps ih =>
    obtain ⟨hp, hps⟩ := List.forall_mem_cons.mp hpieces
    obtain ⟨st₁, hfirst, hrest⟩ := CRun.bind_eq_ok.mp hread
    have hkept : st₁ key = st key := by
      apply readLine_other hfirst
      intro hpre
      have hle := hpre.length_le
      have hchomp : (chomp (cstr p)).length ≤ p.length :=
        ((stripLast_length_le 13 _).trans (stripLast_length_le 10 _)).trans (cstr_length_le p)
      simp only [List.length_append, List.length_singleton] at hle
      omega
    exact (ih hrest hps).trans hkept

/-- The line does not fit, but what follows its first part is too short for the key. -/
theorem Entry.read_long (h : Entry cv) (hfeed : 10 ∉ b) (hnul : 0 ∉ b)
    (hlong : 254 ≤ (cv.key ++ 61 :: b).length) (hshort : b.length ≤ 252)
    (hread : gftpReadConfigFile F (cv.key ++ 61 :: (b ++ [10])) st = .ok st') :
    ∃ str v, str ≠ [] ∧ readFunction F cv str = .ok v ∧ st' cv.key = v := by
  obtain ⟨-, -, hbytes⟩ := h.key
  have hkeyshort := h.short
  rw [List.length_append, List.length_cons] at hlong
  -- the first part
  let part := b.take (253 - cv.key.length)
  have hpart : part.length = 253 - cv.key.length := List.length_take_of_le (by omega)
  have htake : (cv.key ++ 61 :: b).take 254 = cv.key ++ 61 :: part := by
    have hcount : 254 - cv.key.length = 253 - cv.key.length + 1 := by omega
    rw [List.take_append, List.take_of_length_le (by omega), hcount, List.take_succ_cons]
  have hline : 10 ∉ cv.key ++ 61 :: b := by
    intro hmem
    rcases List.mem_append.mp hmem with hmem | hmem
    · exact (hbytes _ hmem).2.1 rfl
    · exact hfeed (List.mem_of_ne_of_mem (by decide) hmem)
  have hpiece : chomp (cstr (cv.key ++ 61 :: part)) = cv.key ++ 61 :: stripLast 13 part := by
    have hzero : 0 ∉ cv.key ++ 61 :: part := by
      intro hmem
      rcases List.mem_append.mp hmem with hmem | hmem
      · exact (hbytes _ hmem).1 rfl
      · exact hnul (List.mem_of_mem_take (List.mem_of_ne_of_mem (by decide) hmem))
    have hend : (cv.key ++ 61 :: part).getLast? ≠ some 10 := by
      intro hlast
      exact hline (List.mem_of_mem_take (htake ▸ List.mem_of_getLast? hlast))
    have hword : (cv.key ++ [61]).getLast? ≠ some 13 := by simp
    have hsplit := stripLast_word hword part
    rw [cstr_eq_self hzero, chomp, stripLast_eq_self.mpr hend]
    simpa using hsplit
  have hsplit : gftpReadConfigFile F (cv.key ++ 61 :: (b ++ [10])) st =
      readLine F (cv.key ++ 61 :: stripLast 13 part) st >>= fun st₁ =>
        gftpReadConfigFile F ((cv.key ++ 61 :: b).drop 254 ++ [10]) st₁ := by
    have hform : cv.key ++ 61 :: (b ++ [10]) = (cv.key ++ 61 :: b) ++ [10] := by simp
    have hlen : 254 ≤ (cv.key ++ 61 :: b).length := by
      rw [List.length_append, List.length_cons]
      omega
    have hget := fgets_long hlen hline [10]
    obtain ⟨c, rest, hcons⟩ := List.exists_cons_of_ne_nil (by simp : (cv.key ++ 61 :: b) ++ [10] ≠ [])
    rw [hform, gftpReadConfigFile, hcons, getLines_cons (by decide), ← hcons, hget, readLines, htake,
      hpiece]
    rfl
  rw [hsplit, h.readLine_option] at hread
  obtain ⟨st₁, hfirst, hrest⟩ := CRun.bind_eq_ok.mp hread
  obtain ⟨v, hv, heq⟩ := CRun.bind_eq_ok.mp hfirst
  have hrestlen : ((cv.key ++ 61 :: b).drop 254 ++ [10]).length ≤ cv.key.length := by
    rw [List.length_append, List.length_drop, List.length_append, List.length_cons,
      List.length_singleton]
    omega
  have hkept := read_short hrest hrestlen
  refine ⟨stripLast 13 part, v, fun hnil => ?_, hv, ?_⟩
  · have hstrip := length_le_stripLast 13 part
    rw [hnil, hpart, List.length_nil] at hstrip
    omega
  · rw [hkept, ← Except.ok.inj heq]
    exact Function.update_self ..

end Options

end Gftp.ConfigLines
