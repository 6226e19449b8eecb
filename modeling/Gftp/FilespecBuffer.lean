import Gftp.EntryNames
import Gftp.TextPointers
import Gftp.FilespecMatching

/-!
The loop of gftp_match_filespec with the array search_str. What follows a star is copied
there byte by byte, as long as there is room for the byte, and the terminator is written
behind it; for the terminator of a text as long as the array there is no room. Where there
is, the loop is the one of EntryNames.
-/

namespace Gftp.FilespecBuffer

open ByteStrings TextPointers EntryNames

/-- The variables of the loop. -/
structure Cursor where
  filepos : Bytes
  wcpos : Bytes
  searchStr : Bytes
  deriving DecidableEq

/-- The for loop that copies from pos to newpos. -/
def copyText : Bytes → ℕ → Bytes → CRun (ℕ × Bytes)
  | [], curlen, searchStr => .ok (curlen, searchStr)
  | c :: pos, curlen, searchStr =>
      if c ≠ 42 ∧ c ≠ 63 ∧ curlen < searchStrSize then do
        copyText pos (curlen + 1) (← overwrite searchStr curlen [c])
      else .ok (curlen, searchStr)

/-- The branch for a star that is not the last character, wcpos being behind it. -/
def search (filepos wcpos searchStr : Bytes) : CRun (Bool ⊕ Cursor) := do
  let (curlen, searchStr) ← copyText wcpos 0 searchStr
  let searchStr ← overwrite searchStr curlen [0]
  match strstr (← textAt searchStr) filepos with
  | none => return .inl false
  | some found => return .inr ⟨found.drop curlen, wcpos.drop curlen, searchStr⟩

/-- One pass of the loop, which returns or goes on. -/
def pass (c : Cursor) : CRun (Bool ⊕ Cursor) :=
  match c.wcpos, c.filepos with
  | [], _ => return .inl true
  | _ :: _, [] => return .inl false
  | w :: wcpos, d :: filepos =>
      if w = 63 then return .inr { c with wcpos := wcpos, filepos := filepos }
      else if w = 42 ∧ wcpos = [] then return .inl true
      else if w = 42 then search (d :: filepos) wcpos c.searchStr
      else if w = d then return .inr { c with wcpos := wcpos, filepos := filepos }
      else return .inl false

def matchLoop : ℕ → Cursor → CRun Bool
  | 0, _ => .error .pending
  | fuel + 1, c => do
      match ← pass c with
      | .inl b => return b
      | .inr c => matchLoop fuel c

/-- The loop starts at the first characters with what the array held before. -/
def start (filespec filename searchStr : Bytes) : Cursor := ⟨filename, filespec, searchStr⟩

/-- The cursors that the loop comes to. -/
def Visits (c c' : Cursor) : Prop := Relation.ReflTransGen (fun c c' => pass c = .ok (.inr c')) c c'

/-- The pass has a star in front of it and makes a search. -/
def Searches (c : Cursor) (wcpos : Bytes) : Prop :=
  c.wcpos = 42 :: wcpos ∧ wcpos ≠ [] ∧ c.filepos ≠ []

/-- The text that was compared is what the specification had behind the star, and both
cursors stand behind it. -/
def Compared (c : Cursor) (wcpos : Bytes) (c' : Cursor) : Prop :=
  ∃ t, textAt c'.searchStr = .ok t ∧ wcpos = t ++ c'.wcpos ∧ t ++ c'.filepos <:+ c.filepos

/-- What one pass should do with the array. -/
structure PassInside (c : Cursor) : Prop where
  inside : pass c ≠ .error .fault
  compared : ∀ wcpos, Searches c wcpos → ∀ c', pass c = .ok (.inr c') → Compared c wcpos c'

theorem copyText_eq {front searchStr pos : Bytes} (h : front.length + searchStr.length = searchStrSize) :
    copyText pos front.length (front ++ searchStr) =
      .ok (front.length + ((searchText pos).take searchStr.length).length,
        front ++ ((searchText pos).take searchStr.length ++
          searchStr.drop ((searchText pos).take searchStr.length).length)) := by
  induction pos generalizing front searchStr with
  | nil => simp [copyText, searchText]
  | cons c pos ih =>
    rw [copyText]
    split_ifs with hcopy
    · obtain ⟨hstar, hmark, hroom⟩ := hcopy
      cases searchStr with
      | nil =>
        rw [List.length_nil] at h
        omega
      | cons old searchStr =>
        have htext : searchText (c :: pos) = c :: searchText pos := by
          unfold searchText
          rw [List.takeWhile_cons_of_pos (by simp [hstar, hmark])]
        have hwrite : overwrite (front ++ old :: searchStr) front.length [c] =
            .ok (front ++ [c] ++ searchStr) := by
          have hmiddle := @overwrite_middle front [old] searchStr [c] _ rfl rfl
          rw [List.append_assoc]
          exact hmiddle
        have hnext := @ih (front ++ [c]) searchStr (by
          simp only [List.length_append, List.length_cons, List.length_nil] at h ⊢
          omega)
        rw [List.length_append, List.length_singleton] at hnext
        rw [hwrite, CRun.ok_bind, hnext, htext]
        simp only [List.length_cons, List.take_succ_cons, List.drop_succ_cons, List.append_assoc,
          List.cons_append, List.nil_append, Nat.add_assoc, Nat.add_comm 1]
    · have htext : (searchText (c :: pos)).take searchStr.length = [] := by
        by_cases hordinary : c ≠ 42 ∧ c ≠ 63
        · have hfull : searchStr.length = 0 := by
            have hroom : ¬ front.length < searchStrSize := fun hroom =>
              hcopy ⟨hordinary.1, hordinary.2, hroom⟩
            omega
          rw [hfull, List.take_zero]
        · unfold searchText
          rw [List.takeWhile_cons_of_neg (by simpa using hordinary), List.take_nil]
      rw [htext]
      simp

theorem copyText_start {searchStr : Bytes} (h : searchStr.length = searchStrSize) (wcpos : Bytes) :
    copyText wcpos 0 searchStr =
      .ok (((searchText wcpos).take searchStrSize).length,
        (searchText wcpos).take searchStrSize ++
          searchStr.drop ((searchText wcpos).take searchStrSize).length) := by
  have hcopy := @copyText_eq [] searchStr wcpos (by simpa using h)
  rw [h] at hcopy
  simpa using hcopy

/-- There is no room for the terminator of a text that fills the array. -/
theorem search_full {filepos wcpos searchStr : Bytes} (h : searchStr.length = searchStrSize)
    (hlong : searchStrSize ≤ (searchText wcpos).length) :
    search filepos wcpos searchStr = .error .fault := by
  have hlength : ((searchText wcpos).take searchStrSize).length = searchStrSize := by
    rw [List.length_take]
    omega
  have hwrite := @overwrite_fault
    ((searchText wcpos).take searchStrSize ++ searchStr.drop searchStrSize) [0] searchStrSize
    (by simp only [List.length_append, List.length_drop, List.length_cons, List.length_nil]; omega)
  rw [search, copyText_start h, CRun.ok_bind]
  dsimp only
  rw [hlength, hwrite, CRun.error_bind]

/-- A shorter text is what is looked for. -/
theorem search_text {filepos wcpos searchStr : Bytes} (h : searchStr.length = searchStrSize)
    (hnul : 0 ∉ wcpos) (hshort : (searchText wcpos).length < searchStrSize) :
    ∃ searchStr', searchStr'.length = searchStrSize ∧
      textAt searchStr' = .ok (searchText wcpos) ∧
      search filepos wcpos searchStr =
        .ok (((strstr (searchText wcpos) filepos).map fun found =>
          (Cursor.mk (found.drop (searchText wcpos).length)
            (wcpos.drop (searchText wcpos).length) searchStr')).elim (.inl false) .inr) := by
  have hcopy := copyText_start h wcpos
  have htext : 0 ∉ searchText wcpos := fun hmem => hnul ((List.takeWhile_prefix _).subset hmem)
  unfold search
  rw [hcopy, CRun.ok_bind]
  dsimp only
  rw [List.take_of_length_le (Nat.le_of_lt hshort)]
  generalize searchText wcpos = t at *
  obtain ⟨old, rest, hold⟩ := List.exists_cons_of_ne_nil
    (show searchStr.drop t.length ≠ [] by
      intro hnil
      have hle := List.drop_eq_nil_iff.mp hnil
      omega)
  have hrest : rest.length + 1 = searchStr.length - t.length := by
    rw [← List.length_drop, hold, List.length_cons]
  have hwrite : overwrite (t ++ old :: rest) t.length [0] = .ok (t ++ 0 :: rest) :=
    @overwrite_middle t [old] rest [0] t.length rfl rfl
  refine ⟨t ++ 0 :: rest, ?_, textAt_text htext rest, ?_⟩
  · simp only [List.length_append, List.length_cons]
    omega
  · rw [hold, hwrite, CRun.ok_bind, textAt_text htext, CRun.ok_bind]
    cases strstr t filepos <;> rfl

theorem pass_search {c : Cursor} {wcpos : Bytes} (h : Searches c wcpos) :
    pass c = search c.filepos wcpos c.searchStr := by
  obtain ⟨hw, hne, hname⟩ := h
  obtain ⟨d, filepos, hfile⟩ := List.exists_cons_of_ne_nil hname
  unfold pass
  rw [hw, hfile]
  dsimp only
  rw [if_neg (by decide), if_neg fun hboth => hne hboth.2, if_pos rfl]

/-- Every other pass leaves the array alone. -/
theorem pass_other {c : Cursor} (h : ∀ wcpos, ¬ Searches c wcpos) :
    ∃ r, pass c = .ok r ∧ ∀ c', r = .inr c' →
      c'.searchStr = c.searchStr ∧ c'.wcpos <:+ c.wcpos := by
  unfold Searches at h
  unfold pass
  rcases hw : c.wcpos with _ | ⟨w, wcpos⟩
  · exact ⟨_, rfl, by simp⟩
  rcases hfile : c.filepos with _ | ⟨d, filepos⟩
  · exact ⟨_, rfl, by simp⟩
  dsimp only
  split_ifs with hmark hend hstar hsame
  · refine ⟨_, rfl, fun c' hc' => ?_⟩
    obtain rfl := Sum.inr.inj hc'
    exact ⟨rfl, List.suffix_cons ..⟩
  · exact ⟨_, rfl, by simp⟩
  · refine absurd ⟨hstar ▸ hw, fun hnil => hend ⟨hstar, hnil⟩, ?_⟩ (h wcpos)
    simp [hfile]
  · refine ⟨_, rfl, fun c' hc' => ?_⟩
    obtain rfl := Sum.inr.inj hc'
    exact ⟨rfl, List.suffix_cons ..⟩
  · exact ⟨_, rfl, by simp⟩

/-- The array keeps its size, and the specification has no terminator inside. -/
structure Cursor.Whole (c : Cursor) : Prop where
  size : c.searchStr.length = searchStrSize
  nul : 0 ∉ c.wcpos

/-- This stays so, and what is left of the specification is an end of what was left. -/
theorem Cursor.Whole.next {c c' : Cursor} (h : c.Whole) (hpass : pass c = .ok (.inr c')) :
    c'.Whole ∧ c'.wcpos <:+ c.wcpos := by
  by_cases hsearch : ∃ wcpos, Searches c wcpos
  · obtain ⟨wcpos, hsearch⟩ := hsearch
    have hnul : 0 ∉ wcpos := fun hmem => h.nul (hsearch.1 ▸ List.mem_cons_of_mem _ hmem)
    rw [pass_search hsearch] at hpass
    by_cases hlong : searchStrSize ≤ (searchText wcpos).length
    · rw [search_full h.size hlong] at hpass
      cases hpass
    · obtain ⟨searchStr', hsize, -, hrun⟩ :=
        @search_text c.filepos _ _ h.size hnul (Nat.lt_of_not_le hlong)
      rw [hrun] at hpass
      cases hplace : strstr (searchText wcpos) c.filepos with
      | none =>
        rw [hplace] at hpass
        cases hpass
      | some found =>
        rw [hplace] at hpass
        obtain rfl := Sum.inr.inj (Except.ok.inj hpass)
        refine ⟨⟨hsize, fun hmem => hnul (List.mem_of_mem_drop hmem)⟩, ?_⟩
        rw [hsearch.1]
        exact (List.drop_suffix _ wcpos).trans (List.suffix_cons ..)
  · obtain ⟨r, hr, hkeep⟩ := pass_other (not_exists.mp hsearch)
    rw [hr] at hpass
    obtain ⟨hsame, hsuffix⟩ := hkeep c' (Except.ok.inj hpass)
    exact ⟨⟨hsame ▸ h.size, fun hmem => h.nul (hsuffix.subset hmem)⟩, hsuffix⟩

theorem Visits.whole {c c' : Cursor} (h : Visits c c') (hc : c.Whole) :
    c'.Whole ∧ c'.wcpos <:+ c.wcpos := by
  induction h with
  | refl => exact ⟨hc, List.suffix_rfl⟩
  | tail _ hpass ih =>
    obtain ⟨hwhole, hsuffix⟩ := ih.1.next hpass
    exact ⟨hwhole, hsuffix.trans ih.2⟩

/-- A pass uses the array as it should exactly when what it looks for is shorter than the
array. -/
theorem passInside_iff {c : Cursor} (h : c.Whole) :
    PassInside c ↔ ∀ wcpos, Searches c wcpos → (searchText wcpos).length < searchStrSize := by
  constructor
  · intro hinside wcpos hsearch
    by_contra hlong
    apply hinside.inside
    rw [pass_search hsearch, search_full h.size (Nat.le_of_not_lt hlong)]
  · intro hshort
    by_cases hsearch : ∃ wcpos, Searches c wcpos
    · obtain ⟨wcpos, hsearch⟩ := hsearch
      have hnul : 0 ∉ wcpos := fun hmem => h.nul (hsearch.1 ▸ List.mem_cons_of_mem _ hmem)
      obtain ⟨searchStr', -, htext, hrun⟩ :=
        @search_text c.filepos _ _ h.size hnul (hshort wcpos hsearch)
      rw [← pass_search hsearch] at hrun
      refine ⟨by simp [hrun], fun back hback c' hc' => ?_⟩
      obtain rfl : wcpos = back := (List.cons.inj (hsearch.1.symm.trans hback.1)).2
      cases hplace : strstr (searchText wcpos) c.filepos with
      | none =>
        rw [hrun, hplace] at hc'
        cases hc'
      | some found =>
        rw [hrun, hplace] at hc'
        obtain rfl := Sum.inr.inj (Except.ok.inj hc')
        obtain ⟨hsuffix, ⟨behind, rfl⟩, -⟩ := FilespecMatching.strstr_some hplace
        refine ⟨searchText wcpos, htext, (FilespecMatching.searchText_append wcpos).symm, ?_⟩
        show searchText wcpos ++ (searchText wcpos ++ behind).drop _ <:+ c.filepos
        rw [List.drop_left]
        exact hsuffix
    · obtain ⟨r, hr, -⟩ := pass_other (not_exists.mp hsearch)
      exact ⟨by simp [hr], fun wcpos hsearches => absurd ⟨wcpos, hsearches⟩ hsearch⟩

/-- Where the array is large enough, the loop is the one without it. -/
theorem matchLoop_eq {fuel : ℕ} {c : Cursor} (h : c.Whole) :
    matchLoop fuel c = matchFrom fuel c.wcpos c.filepos := by
  induction fuel generalizing c with
  | zero => rfl
  | succ fuel ih =>
    have hnext (c' : Cursor) (hpass : pass c = .ok (.inr c')) :
        matchLoop fuel c' = matchFrom fuel c'.wcpos c'.filepos := ih (h.next hpass).1
    rw [matchLoop]
    by_cases hsearch : ∃ wcpos, Searches c wcpos
    · obtain ⟨wcpos, hsearch⟩ := hsearch
      have hrun := pass_search hsearch
      obtain ⟨hw, hne, hname⟩ := hsearch
      obtain ⟨d, filepos, hfile⟩ := List.exists_cons_of_ne_nil hname
      have hnul : 0 ∉ wcpos := fun hmem => h.nul (hw ▸ List.mem_cons_of_mem _ hmem)
      rw [hw, hfile, matchFrom, if_neg (by decide), if_neg fun hboth => hne hboth.2, if_pos rfl]
      split_ifs with hlong
      · rw [hrun, search_full h.size hlong]
        rfl
      · obtain ⟨searchStr', -, -, hfound⟩ :=
          @search_text c.filepos _ _ h.size hnul (Nat.lt_of_not_le hlong)
        rw [hfound] at hrun
        rw [hrun, CRun.ok_bind]
        rw [hfile] at hrun ⊢
        cases hplace : strstr (searchText wcpos) (d :: filepos) with
        | none => rfl
        | some found =>
          rw [hplace] at hrun
          exact hnext _ hrun
    · obtain ⟨filepos, wcpos, searchStr⟩ := c
      cases wcpos with
      | nil => rfl
      | cons w wcpos =>
        cases filepos with
        | nil => rfl
        | cons d filepos =>
          have hstar (hend : ¬ (w = 42 ∧ wcpos = [])) : w ≠ 42 := by
            rintro rfl
            exact hsearch ⟨wcpos, rfl, fun hnil => hend ⟨rfl, hnil⟩, by simp⟩
          simp only [pass] at hnext ⊢
          rw [matchFrom]
          by_cases hmark : w = 63
          · rw [if_pos hmark] at hnext ⊢
            rw [if_pos hmark]
            exact hnext _ rfl
          by_cases hend : w = 42 ∧ wcpos = []
          · rw [if_neg hmark, if_pos hend, if_neg hmark, if_pos hend]
            rfl
          rw [if_neg hmark, if_neg hend, if_neg (hstar hend)] at hnext ⊢
          rw [if_neg hmark, if_neg hend, if_neg (hstar hend)]
          by_cases hsame : w = d
          · rw [if_pos hsame] at hnext ⊢
            rw [if_pos hsame]
            exact hnext _ rfl
          · rw [if_neg hsame, if_neg hsame]
            rfl

theorem rpm_loop : matchLoop 12 (start (ascii "*.rpm") (ascii "kernel.rpm")
    (List.replicate searchStrSize 0)) = matchFrom 12 (ascii "*.rpm") (ascii "kernel.rpm") :=
  matchLoop_eq ⟨List.length_replicate, by decide⟩

/-- In the whole run every write to search_str is inside, and the cursors move over what was
compared, exactly when the loop never comes to a star that twenty or more ordinary
characters follow. -/
theorem filespec_buffer_iff {filespec : Bytes} (filename : Bytes) {searchStr : Bytes}
    (hnul : 0 ∉ filespec) (hsize : searchStr.length = searchStrSize) :
    (∀ c, Visits (start filespec filename searchStr) c → PassInside c) ↔
      ∀ c, Visits (start filespec filename searchStr) c → ∀ wcpos, Searches c wcpos →
        (searchText wcpos).length < searchStrSize := by
  have hwhole : (start filespec filename searchStr).Whole := ⟨hsize, hnul⟩
  constructor
  · exact fun h c hvisit => (passInside_iff (hvisit.whole hwhole).1).mp (h c hvisit)
  · exact fun h c hvisit => (passInside_iff (hvisit.whole hwhole).1).mpr (h c hvisit)

/-- *.rpm for the name kernel.rpm. -/
theorem filespec_buffer_rpm : 0 ∉ ascii "*.rpm" ∧
    ∀ c, Visits (start (ascii "*.rpm") (ascii "kernel.rpm") (List.replicate searchStrSize 0)) c →
      PassInside c := by
  have hnul : 0 ∉ ascii "*.rpm" := by decide
  refine ⟨hnul, (filespec_buffer_iff (ascii "kernel.rpm") hnul List.length_replicate).mpr ?_⟩
  intro c hvisit wcpos hsearch
  have hsuffix := (hvisit.whole ⟨List.length_replicate, hnul⟩).2
  have hle := hsuffix.length_le
  rw [hsearch.1, List.length_cons] at hle
  exact Nat.lt_of_le_of_lt (List.takeWhile_prefix _).length_le
    (Nat.lt_of_lt_of_le hle (by decide))

/-- Twenty characters behind the star. -/
theorem twenty_characters :
    ¬ PassInside (start (42 :: List.replicate 20 97) [97] (List.replicate searchStrSize 0)) := by
  intro h
  have htext : searchText (List.replicate 20 97) = List.replicate 20 97 := by
    simp [searchText]
  apply h.inside
  have hsearch : Searches (start (42 :: List.replicate 20 97) [97] (List.replicate searchStrSize 0))
      (List.replicate 20 97) := ⟨rfl, by simp, by simp [start]⟩
  rw [pass_search hsearch]
  apply search_full List.length_replicate
  rw [htext, List.length_replicate]
  exact Nat.le_refl _

end Gftp.FilespecBuffer
