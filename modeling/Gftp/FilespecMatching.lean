import Gftp.EntryNames
import Gftp.Wildcards

/-!
gftp_match_filespec and what a file specification means. The loop accepts a name when it
has used up the specification, whatever is left of the name, and refuses it when it has used
up the name, be it that only stars are left. Behind a star it takes the first place where
the characters in front of the next wildcard occur, which is the best one unless that
wildcard is a question mark.
-/

namespace Gftp.FilespecMatching

open ByteStrings EntryNames

/-- The whole name matches the specification. -/
abbrev Matches (filespec filename : Bytes) : Prop := Wildcards.Matches 42 63 filespec filename

/-- The search for what follows the star is made in search_str, and the first place that it
finds is the best. -/
def Found (wcpos : Bytes) : Prop :=
  (searchText wcpos).length < searchStrSize ∧
    (wcpos.drop (searchText wcpos).length).head? ≠ some 63

instance : DecidablePred Found := fun _ => inferInstanceAs (Decidable (_ ∧ _))

/-- This is so for every star. -/
def Plain (filespec : Bytes) : Prop := ∀ wcpos, 42 :: wcpos <:+ filespec → Found wcpos

/-- The loop comes to a star for which it is not so: what is in front of the star matches a
beginning of the name, and not all of it. -/
def Searched (filespec filename : Bytes) : Prop :=
  ∃ front wcpos, filespec = front ++ 42 :: wcpos ∧ Plain (front ++ [42]) ∧ ¬ Found wcpos ∧
    ∃ taken rest, filename = taken ++ rest ∧ rest ≠ [] ∧ Matches front taken

/-- The whole name matches when a beginning of it does; and when the specification ends in a
star, a beginning that is not all of it matches without that star. -/
def EndsTogether (filespec filename : Bytes) : Prop :=
  if filespec.getLast? = some 42 then
    Matches filespec filename →
      ∃ taken rest, filename = taken ++ rest ∧ rest ≠ [] ∧ Matches filespec.dropLast taken
  else (∃ taken, taken <+: filename ∧ Matches filespec taken) → Matches filespec filename

/-- What the loop accepts when every search is good: a star at the end takes what is left of
the name, which must be something. -/
def Accepts : Bytes → Bytes → Prop
  | [], _ => True
  | c :: wcpos, name =>
      if c = 42 then
        if wcpos = [] then name ≠ [] else ∃ rest, rest <:+ name ∧ Accepts wcpos rest
      else ∃ d rest, name = d :: rest ∧ (c = 63 ∨ c = d) ∧ Accepts wcpos rest

section Searching

theorem strstr_none {needle name : Bytes} (h : strstr needle name = none) :
    ∀ rest, rest <:+ name → ¬ needle <+: rest := by
  induction name with
  | nil =>
    intro rest hrest hneedle
    rw [List.suffix_nil.mp hrest] at hneedle
    rw [strstr, if_pos (List.prefix_nil.mp hneedle)] at h
    cases h
  | cons c name ih =>
    rw [strstr] at h
    split_ifs at h with hhere
    intro rest hrest hneedle
    rcases List.suffix_cons_iff.mp hrest with rfl | hrest
    · exact hhere hneedle
    · exact ih h rest hrest hneedle

theorem strstr_some {needle name found : Bytes} (h : strstr needle name = some found) :
    found <:+ name ∧ needle <+: found ∧
      ∀ rest, rest <:+ name → needle <+: rest → rest <:+ found := by
  induction name with
  | nil =>
    rw [strstr] at h
    split_ifs at h with hneedle
    obtain rfl := Option.some.inj h
    exact ⟨List.suffix_rfl, hneedle ▸ List.nil_prefix, fun rest hrest _ => hrest⟩
  | cons c name ih =>
    rw [strstr] at h
    split_ifs at h with hhere
    · obtain rfl := Option.some.inj h
      exact ⟨List.suffix_rfl, hhere, fun rest hrest _ => hrest⟩
    · obtain ⟨hfound, hneedle, hfirst⟩ := ih h
      refine ⟨hfound.trans (List.suffix_cons ..), hneedle, fun rest hrest hrestneedle => ?_⟩
      rcases List.suffix_cons_iff.mp hrest with rfl | hrest
      · exact absurd hrestneedle hhere
      · exact hfirst rest hrest hrestneedle

theorem searchText_ordinary (wcpos : Bytes) : ∀ c ∈ searchText wcpos, c ≠ 42 ∧ c ≠ 63 := by
  intro c hc
  simpa using List.mem_takeWhile_imp hc

theorem drop_searchText (wcpos : Bytes) : wcpos.drop (searchText wcpos).length =
    wcpos.dropWhile fun c => c ≠ 42 ∧ c ≠ 63 := by
  have hparts : wcpos.takeWhile (fun c => c ≠ 42 ∧ c ≠ 63) ++
      wcpos.dropWhile (fun c => c ≠ 42 ∧ c ≠ 63) = wcpos := List.takeWhile_append_dropWhile ..
  have hdrop := @List.drop_left _ (wcpos.takeWhile fun c => c ≠ 42 ∧ c ≠ 63)
    (wcpos.dropWhile fun c => c ≠ 42 ∧ c ≠ 63)
  rwa [hparts] at hdrop

theorem searchText_append (wcpos : Bytes) :
    searchText wcpos ++ wcpos.drop (searchText wcpos).length = wcpos := by
  rw [drop_searchText]
  exact List.takeWhile_append_dropWhile ..

theorem searchText_star (front back back' : Bytes) :
    searchText (front ++ 42 :: back) = searchText (front ++ 42 :: back') := by
  unfold searchText
  rw [List.takeWhile_append, List.takeWhile_append]
  simp

/-- Behind a search that is good the specification ends or has another star. -/
theorem Found.next {wcpos : Bytes} (h : Found wcpos) :
    wcpos.drop (searchText wcpos).length = [] ∨
      ∃ back, wcpos.drop (searchText wcpos).length = 42 :: back := by
  obtain ⟨-, hmark⟩ := h
  cases hrest : wcpos.drop (searchText wcpos).length with
  | nil => exact Or.inl rfl
  | cons c back =>
    right
    rw [hrest] at hmark
    have hc : ¬ (c ≠ 42 ∧ c ≠ 63) := by
      rw [drop_searchText] at hrest
      have hhead := List.head?_dropWhile_not (fun c => decide (c ≠ 42 ∧ c ≠ 63)) wcpos
      rw [hrest] at hhead
      simpa using hhead
    have hstar : c = 42 := by
      by_contra hstar
      exact hmark (congrArg some (not_not.mp fun hne => hc ⟨hstar, hne⟩))
    exact ⟨back, hstar ▸ rfl⟩

end Searching

section Accepting

variable {c : UInt8} {wcpos name : Bytes}

theorem accepts_star (hw : wcpos ≠ []) :
    Accepts (42 :: wcpos) name ↔ ∃ rest, rest <:+ name ∧ Accepts wcpos rest := by
  rw [Accepts, if_pos rfl, if_neg hw]

theorem accepts_cons (hc : c ≠ 42) : Accepts (c :: wcpos) name ↔
    ∃ d rest, name = d :: rest ∧ (c = 63 ∨ c = d) ∧ Accepts wcpos rest := by
  rw [Accepts, if_neg hc]

theorem accepts_empty (h : Accepts wcpos []) : wcpos = [] := by
  induction wcpos with
  | nil => rfl
  | cons c wcpos ih =>
    exfalso
    by_cases hc : c = 42
    · subst hc
      by_cases hw : wcpos = []
      · subst hw
        exact h rfl
      · obtain ⟨rest, hrest, h⟩ := (accepts_star hw).mp h
        rw [List.suffix_nil.mp hrest] at h
        exact hw (ih h)
    · obtain ⟨d, rest, hname, -⟩ := (accepts_cons hc).mp h
      cases hname

theorem accepts_literal {t : Bytes} (ht : ∀ c ∈ t, c ≠ 42 ∧ c ≠ 63) :
    Accepts (t ++ wcpos) name ↔ ∃ rest, name = t ++ rest ∧ Accepts wcpos rest := by
  induction t generalizing name with
  | nil => simp
  | cons c t ih =>
    rw [List.forall_mem_cons] at ht
    obtain ⟨⟨hstar, hmark⟩, ht⟩ := ht
    rw [List.cons_append, accepts_cons hstar]
    constructor
    · rintro ⟨d, tail, rfl, hd, htail⟩
      obtain ⟨rest, rfl, hrest⟩ := (ih ht).mp htail
      obtain rfl := hd.resolve_left hmark
      exact ⟨rest, rfl, hrest⟩
    · rintro ⟨rest, rfl, hrest⟩
      exact ⟨c, t ++ rest, rfl, Or.inr rfl, (ih ht).mpr ⟨rest, rfl, hrest⟩⟩

theorem accepts_mono {name' : Bytes} (hw : wcpos = [] ∨ ∃ back, wcpos = 42 :: back)
    (hname : name' <:+ name) (h : Accepts wcpos name') : Accepts wcpos name := by
  obtain rfl | ⟨back, rfl⟩ := hw
  · trivial
  · by_cases hback : back = []
    · subst hback
      have hne : name' ≠ [] := h
      show name ≠ []
      rintro rfl
      exact hne (List.suffix_nil.mp hname)
    · obtain ⟨rest, hrest, h⟩ := (accepts_star hback).mp h
      exact (accepts_star hback).mpr ⟨rest, hrest.trans hname, h⟩

/-- A star at the end leaves a beginning of the name to the rest of the specification. -/
theorem accepts_snoc_star {filespec : Bytes} : Accepts (filespec ++ [42]) name ↔
    ∃ taken rest, name = taken ++ rest ∧ rest ≠ [] ∧ Matches filespec taken := by
  induction filespec generalizing name with
  | nil =>
    constructor
    · exact fun h => ⟨[], name, rfl, h, rfl⟩
    · rintro ⟨taken, rest, rfl, hrest, rfl⟩
      exact hrest
  | cons c filespec ih =>
    rw [List.cons_append]
    by_cases hc : c = 42
    · subst hc
      rw [accepts_star (by simp)]
      constructor
      · rintro ⟨tail, ⟨skipped, rfl⟩, htail⟩
        obtain ⟨taken, rest, rfl, hne, hmatch⟩ := ih.mp htail
        refine ⟨skipped ++ taken, rest, (List.append_assoc ..).symm, hne, ?_⟩
        exact Wildcards.matches_star.mpr ⟨taken, List.suffix_append .., hmatch⟩
      · rintro ⟨taken, rest, rfl, hne, hmatch⟩
        obtain ⟨tail, ⟨skipped, rfl⟩, htail⟩ := Wildcards.matches_star.mp hmatch
        exact ⟨tail ++ rest, ⟨skipped, (List.append_assoc ..).symm⟩,
          ih.mpr ⟨tail, rest, rfl, hne, htail⟩⟩
    · rw [accepts_cons hc]
      constructor
      · rintro ⟨d, tail, rfl, hd, htail⟩
        obtain ⟨taken, rest, rfl, hne, hmatch⟩ := ih.mp htail
        exact ⟨d :: taken, rest, rfl, hne,
          (Wildcards.matches_cons hc).mpr ⟨d, taken, rfl, hd, hmatch⟩⟩
      · rintro ⟨taken, rest, rfl, hne, hmatch⟩
        obtain ⟨d, tail, rfl, hd, htail⟩ := (Wildcards.matches_cons hc).mp hmatch
        exact ⟨d, tail ++ rest, rfl, hd, ih.mpr ⟨tail, rest, rfl, hne, htail⟩⟩

/-- Any other end of the specification leaves the rest of the name unread. -/
theorem accepts_other {filespec : Bytes} (hlast : filespec.getLast? ≠ some 42) :
    Accepts filespec name ↔ ∃ taken, taken <+: name ∧ Matches filespec taken := by
  induction filespec generalizing name with
  | nil =>
    constructor
    · exact fun _ => ⟨[], List.nil_prefix, rfl⟩
    · exact fun _ => trivial
  | cons c filespec ih =>
    by_cases hc : c = 42
    · subst hc
      have hne : filespec ≠ [] := by
        rintro rfl
        exact hlast rfl
      have hrest : filespec.getLast? ≠ some 42 := by
        rwa [List.getLast?_cons_of_ne_nil hne] at hlast
      rw [accepts_star hne]
      constructor
      · rintro ⟨tail, ⟨skipped, rfl⟩, htail⟩
        obtain ⟨taken, hstart, hmatch⟩ := (ih hrest).mp htail
        refine ⟨skipped ++ taken, (List.prefix_append_right_inj skipped).mpr hstart, ?_⟩
        exact Wildcards.matches_star.mpr ⟨taken, List.suffix_append .., hmatch⟩
      · rintro ⟨taken, ⟨rest, rfl⟩, hmatch⟩
        obtain ⟨tail, ⟨skipped, rfl⟩, htail⟩ := Wildcards.matches_star.mp hmatch
        exact ⟨tail ++ rest, ⟨skipped, (List.append_assoc ..).symm⟩,
          (ih hrest).mpr ⟨tail, List.prefix_append .., htail⟩⟩
    · have hrest : filespec.getLast? ≠ some 42 := by
        cases filespec with
        | nil => simp
        | cons d filespec => rwa [List.getLast?_cons_cons] at hlast
      rw [accepts_cons hc]
      constructor
      · rintro ⟨d, tail, rfl, hd, htail⟩
        obtain ⟨taken, hstart, hmatch⟩ := (ih hrest).mp htail
        exact ⟨d :: taken, List.cons_prefix_cons.mpr ⟨rfl, hstart⟩,
          (Wildcards.matches_cons hc).mpr ⟨d, taken, rfl, hd, hmatch⟩⟩
      · rintro ⟨taken, ⟨rest, rfl⟩, hmatch⟩
        obtain ⟨d, tail, rfl, hd, htail⟩ := (Wildcards.matches_cons hc).mp hmatch
        exact ⟨d, tail ++ rest, rfl, hd, (ih hrest).mpr ⟨tail, List.prefix_append .., htail⟩⟩

end Accepting

section Loop

variable {wcpos name : Bytes} {fuel : ℕ}

theorem Plain.suffix {filespec : Bytes} (h : Plain filespec) (hsuffix : wcpos <:+ filespec) :
    Plain wcpos := fun back hback => h back (hback.trans hsuffix)

theorem Plain.found (h : Plain (42 :: wcpos)) : Found wcpos := h wcpos List.suffix_rfl

/-- A good search goes on behind the first place, which leaves the most of the name. -/
theorem accepts_search (hw : wcpos ≠ []) (hfound : Found wcpos) :
    Accepts (42 :: wcpos) name ↔ ∃ found, strstr (searchText wcpos) name = some found ∧
      Accepts (wcpos.drop (searchText wcpos).length)
        (found.drop (searchText wcpos).length) := by
  have htext := searchText_ordinary wcpos
  have hparts := searchText_append wcpos
  have hnext := hfound.next
  generalize searchText wcpos = t at *
  have hsplit (rest : Bytes) : Accepts wcpos rest ↔
      ∃ tail, rest = t ++ tail ∧ Accepts (wcpos.drop t.length) tail := by
    conv_lhs => rw [← hparts]
    exact accepts_literal htext
  rw [accepts_star hw]
  constructor
  · rintro ⟨rest, hrest, haccept⟩
    obtain ⟨tail, rfl, htail⟩ := (hsplit rest).mp haccept
    cases hsearch : strstr t name with
    | none => exact absurd (List.prefix_append t tail) (strstr_none hsearch _ hrest)
    | some found =>
      obtain ⟨-, ⟨best, rfl⟩, hfirst⟩ := strstr_some hsearch
      obtain ⟨skipped, hskipped⟩ := hfirst _ hrest (List.prefix_append t tail)
      refine ⟨t ++ best, rfl, ?_⟩
      rw [List.drop_left]
      refine accepts_mono hnext ?_ htail
      have hlength := congrArg List.length hskipped
      simp only [List.length_append] at hlength
      have htailsuffix : tail <:+ t ++ best := by
        rw [← hskipped, ← List.append_assoc]
        exact List.suffix_append ..
      exact List.suffix_of_suffix_length_le htailsuffix (List.suffix_append ..) (by omega)
  · rintro ⟨found, hsearch, haccept⟩
    obtain ⟨hsuffix, ⟨best, rfl⟩, -⟩ := strstr_some hsearch
    rw [List.drop_left] at haccept
    exact ⟨t ++ best, hsuffix, (hsplit _).mpr ⟨best, rfl, haccept⟩⟩

theorem plain_run (h : Plain wcpos) (hfuel : wcpos.length < fuel) :
    ∃ b, matchFrom fuel wcpos name = .ok b ∧ (b = true ↔ Accepts wcpos name) := by
  induction fuel generalizing wcpos name with
  | zero => omega
  | succ fuel ih =>
    cases wcpos with
    | nil => exact ⟨true, by simp [matchFrom, pure, Except.pure], by simp [Accepts]⟩
    | cons c wcpos =>
      have hfuel' : wcpos.length < fuel := Nat.lt_of_succ_lt_succ hfuel
      have hplain := h.suffix (List.suffix_cons c wcpos)
      cases name with
      | nil =>
        refine ⟨false, by simp [matchFrom, pure, Except.pure], ?_⟩
        simpa using fun haccept => List.cons_ne_nil c wcpos (accepts_empty haccept)
      | cons d name =>
        rw [matchFrom]
        by_cases hmark : c = 63
        · subst hmark
          obtain ⟨b, hb, haccept⟩ := ih hplain hfuel'
          rw [if_pos rfl]
          refine ⟨b, hb, ?_⟩
          rw [haccept, accepts_cons (by simp)]
          simp
        · rw [if_neg hmark]
          by_cases hstar : c = 42
          · subst hstar
            by_cases hend : wcpos = []
            · subst hend
              exact ⟨true, by simp [pure, Except.pure], by simp [Accepts]⟩
            · have hfound := h.found
              have hsearch := @accepts_search wcpos (d :: name) hend hfound
              rw [if_neg fun hboth => hend hboth.2, if_pos rfl, if_neg (Nat.not_le.mpr hfound.1)]
              cases hplace : strstr (searchText wcpos) (d :: name) with
              | none =>
                refine ⟨false, rfl, ?_⟩
                rw [hsearch, hplace]
                simp
              | some found =>
                have hlength : (wcpos.drop (searchText wcpos).length).length < fuel := by
                  rw [List.length_drop]
                  omega
                obtain ⟨b, hb, haccept⟩ := ih (hplain.suffix (List.drop_suffix ..)) hlength
                refine ⟨b, hb, ?_⟩
                rw [hsearch, hplace, haccept]
                simp
          · rw [if_neg fun hboth => hstar hboth.1, if_neg hstar, accepts_cons hstar]
            by_cases hsame : c = d
            · obtain ⟨b, hb, haccept⟩ := ih hplain hfuel'
              rw [if_pos hsame]
              refine ⟨b, hb, ?_⟩
              rw [haccept]
              simp [hsame]
            · rw [if_neg hsame]
              refine ⟨false, rfl, ?_⟩
              simp [hsame, hmark]

theorem searchText_length_le (front back : Bytes) :
    (searchText (front ++ 42 :: back)).length ≤ front.length := by
  unfold searchText
  rw [List.takeWhile_append]
  split_ifs with hall
  · simp
  · exact (List.takeWhile_prefix _).length_le

/-- A name that is refused in front of a star is refused whatever follows the star. -/
theorem refused_front {front : Bytes} (back : Bytes)
    (h : matchFrom fuel (front ++ [42]) name = .ok false) :
    matchFrom fuel (front ++ 42 :: back) name = .ok false := by
  induction fuel generalizing front name with
  | zero => cases h
  | succ fuel ih =>
    cases front with
    | nil =>
      cases name with
      | nil => rfl
      | cons d name => cases h
    | cons c front =>
      rw [List.cons_append] at h ⊢
      cases name with
      | nil => rfl
      | cons d name =>
        rw [matchFrom] at h ⊢
        by_cases hmark : c = 63
        · rw [if_pos hmark] at h ⊢
          exact ih h
        · rw [if_neg hmark] at h ⊢
          by_cases hstar : c = 42
          · have hne (tail : Bytes) : front ++ 42 :: tail ≠ [] := by simp
            have htext := searchText_star front back []
            have hle := searchText_length_le front []
            rw [if_neg fun hboth => hne _ hboth.2, if_pos hstar] at h ⊢
            rw [htext]
            split_ifs at h ⊢ with hsize
            cases hplace : strstr (searchText (front ++ [42])) (d :: name) with
            | none => rfl
            | some found =>
              rw [hplace] at h
              dsimp only at h ⊢
              rw [List.drop_append_of_le_length hle] at h ⊢
              exact ih h
          · rw [if_neg fun hboth => hstar hboth.1, if_neg hstar] at h ⊢
            split_ifs at h ⊢ with hsame
            · exact ih h
            · rfl

/-- The first star whose search is not good. -/
theorem exists_search {filespec : Bytes} (h : ¬ Plain filespec) :
    ∃ front back, filespec = front ++ 42 :: back ∧ Plain (front ++ [42]) ∧ ¬ Found back := by
  have hlast : Found [] := ⟨by decide, by simp [searchText]⟩
  induction filespec with
  | nil => exact absurd (fun back hback => by simpa using List.suffix_nil.mp hback) h
  | cons c filespec ih =>
    by_cases hhere : c = 42 ∧ ¬ Found filespec
    · obtain ⟨rfl, hbad⟩ := hhere
      refine ⟨[], filespec, rfl, fun back hback => ?_, hbad⟩
      rcases List.suffix_cons_iff.mp hback with heq | hnil
      · rw [(List.cons.inj heq).2]
        exact hlast
      · simpa using List.suffix_nil.mp hnil
    · have hrest : ¬ Plain filespec := by
        intro hplain
        apply h
        intro back hback
        rcases List.suffix_cons_iff.mp hback with heq | hsuffix
        · obtain ⟨rfl, rfl⟩ := List.cons.inj heq
          exact not_not.mp fun hbad => hhere ⟨rfl, hbad⟩
        · exact hplain back hsuffix
      obtain ⟨front, back, rfl, hplain, hbad⟩ := ih hrest
      refine ⟨c :: front, back, rfl, fun wcpos hwcpos => ?_, hbad⟩
      rcases List.suffix_cons_iff.mp hwcpos with heq | hsuffix
      · obtain ⟨rfl, rfl⟩ := List.cons.inj heq
        have hfound : Found (front ++ 42 :: back) := not_not.mp fun hbad => hhere ⟨rfl, hbad⟩
        have htext := searchText_star front back []
        have hle := searchText_length_le front []
        show Found (front ++ [42])
        unfold Found at hfound ⊢
        rw [htext, List.drop_append_of_le_length hle] at hfound
        rw [List.drop_append_of_le_length hle]
        refine ⟨hfound.1, ?_⟩
        have hhead := hfound.2
        cases hdrop : front.drop (searchText (front ++ [42])).length with
        | nil => simp
        | cons e tail =>
          rw [hdrop] at hhead
          exact hhead
      · exact hplain wcpos hsuffix

end Loop

section Meaning

variable {filespec filename : Bytes}

theorem Plain.not_searched (h : Plain filespec) : ¬ Searched filespec filename := by
  rintro ⟨front, wcpos, rfl, -, hbad, -⟩
  exact hbad (h wcpos (List.suffix_append front (42 :: wcpos)))

theorem accepts_iff_ends (filespec filename : Bytes) :
    (Accepts filespec filename ↔ Matches filespec filename) ↔ EndsTogether filespec filename := by
  unfold EndsTogether
  split_ifs with hlast
  · have hne : filespec ≠ [] := by
      rintro rfl
      simp at hlast
    have hparts : filespec.dropLast ++ [42] = filespec := by
      rw [List.getLast?_eq_getLast_of_ne_nil hne] at hlast
      rw [← Option.some.inj hlast]
      exact List.dropLast_append_getLast hne
    have haccept := @accepts_snoc_star filename filespec.dropLast
    rw [hparts] at haccept
    rw [haccept]
    refine ⟨fun h => h.mpr, fun h => ⟨?_, h⟩⟩
    rintro ⟨taken, rest, rfl, -, hmatch⟩
    have hall := Wildcards.matches_star_end _ (taken ++ rest) taken hmatch (List.prefix_append ..)
    rwa [hparts] at hall
  · rw [accepts_other hlast]
    refine ⟨fun h => h.mp, fun h => ⟨h, fun hmatch => ⟨filename, List.prefix_rfl, hmatch⟩⟩⟩

/-- What follows a star whose search is not good is not only stars. -/
theorem not_found_stars {back : Bytes} (h : ¬ Found back) : ∃ c ∈ back, c ≠ 42 := by
  by_contra hall
  push Not at hall
  apply h
  have htext : searchText back = [] := by
    cases hback : searchText back with
    | nil => rfl
    | cons c t =>
      have hc : c ∈ searchText back := hback ▸ List.mem_cons_self ..
      exact absurd (hall c ((List.takeWhile_prefix _).subset hc)) (searchText_ordinary back c hc).1
  unfold Found
  rw [htext]
  refine ⟨by decide, fun hhead => ?_⟩
  have hmem := hall 63 (List.mem_of_head? hhead)
  exact absurd hmem (by decide)

/-- A name that does not take the loop to the star does not match what stands behind it. -/
theorem unreached_refused {front back : Bytes} (hbad : ¬ Found back)
    (hleft : ¬ ∃ taken rest, filename = taken ++ rest ∧ rest ≠ [] ∧ Matches front taken)
    {taken : Bytes} (hstart : taken <+: filename) :
    ¬ Matches (front ++ 42 :: back) taken := by
  intro hmatch
  obtain ⟨behind, rfl⟩ := hstart
  obtain ⟨first, rest, rfl, hfirst, hrest⟩ := Wildcards.matches_append.mp hmatch
  by_cases hne : rest ++ behind = []
  · obtain ⟨rfl, -⟩ := List.append_eq_nil_iff.mp hne
    obtain ⟨c, hc, hother⟩ := not_found_stars hbad
    exact hother (Wildcards.matches_empty hrest c (List.mem_cons_of_mem _ hc))
  · exact hleft ⟨first, rest ++ behind, List.append_assoc .., hne, hfirst⟩

/-- Unless the loop comes to a star whose search is not good, 1 is returned exactly for the
names that match when the name and the specification end together. -/
theorem filespec_matches_iff {showHiddenFiles : Bool} (hname : filename ≠ [])
    (hspec : filespec ≠ [])
    (hshown : showHiddenFiles = true ∨ filename.head? ≠ some 46 ∨ filename = [46, 46])
    (hreach : ¬ Searched filespec filename) :
    (∃ b, gftpMatchFilespec showHiddenFiles filespec filename = .ok b ∧
        (b = true ↔ Matches filespec filename)) ↔
      EndsTogether filespec filename := by
  have hhidden : ¬ (!showHiddenFiles && filename.head? = some 46 && filename ≠ [46, 46]) = true := by
    rcases hshown with rfl | hhead | rfl
    · simp
    · simp [hhead]
    · simp
  have hrun : gftpMatchFilespec showHiddenFiles filespec filename =
      matchFrom (filespec.length + 1) filespec filename := by
    rw [gftpMatchFilespec, if_neg (by simp [hname, hspec]), if_neg hhidden]
  rw [hrun]
  by_cases hplain : Plain filespec
  · obtain ⟨b, hb, haccept⟩ := @plain_run _ filename _ hplain (Nat.lt_succ_self _)
    rw [← accepts_iff_ends, ← haccept, hb]
    simp
  · obtain ⟨front, back, rfl, hfront, hbad⟩ := exists_search hplain
    have hleft : ¬ ∃ taken rest, filename = taken ++ rest ∧ rest ≠ [] ∧ Matches front taken :=
      fun h => hreach ⟨front, back, rfl, hfront, hbad, h⟩
    obtain ⟨b, hb, haccept⟩ := @plain_run _ filename ((front ++ 42 :: back).length + 1) hfront
      (by simp)
    have hb' : b = false := by
      rw [accepts_snoc_star] at haccept
      exact Bool.eq_false_iff.mpr fun h => hleft (haccept.mp h)
    subst hb'
    have hnone : ¬ Matches (front ++ 42 :: back) filename :=
      unreached_refused hbad hleft List.prefix_rfl
    have hends : EndsTogether (front ++ 42 :: back) filename := by
      unfold EndsTogether
      split_ifs
      · exact fun h => absurd h hnone
      · rintro ⟨taken, hstart, hmatch⟩
        exact absurd hmatch (unreached_refused hbad hleft hstart)
    rw [refused_front back hb]
    simp [hends, hnone]

theorem plain_rpm : Plain (ascii "*.rpm") := by
  intro wcpos h
  have hall : ∀ t ∈ (ascii "*.rpm").tails, t.head? = some 42 → Found t.tail := by decide
  exact hall (42 :: wcpos) ((List.mem_tails ..).mpr h) rfl

/-- *.rpm takes kernel.rpm. -/
theorem filespec_matches_rpm :
    ∃ b, gftpMatchFilespec false (ascii "*.rpm") (ascii "kernel.rpm") = .ok b ∧
      (b = true ↔ Matches (ascii "*.rpm") (ascii "kernel.rpm")) := by
  refine (filespec_matches_iff (by decide) (by decide) (by decide) plain_rpm.not_searched).mpr ?_
  rw [EndsTogether, if_neg (by decide)]
  exact fun _ => by decide

/-- What follows the suffix is not read. -/
theorem signature_taken :
    gftpMatchFilespec false (ascii "*.rpm") (ascii "kernel.rpm.asc") = .ok true ∧
      ¬ Matches (ascii "*.rpm") (ascii "kernel.rpm.asc") := by
  decide

end Meaning

end Gftp.FilespecMatching
