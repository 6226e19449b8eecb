import Mathlib.Data.List.Infix

/-!
Patterns with two wildcards. A star stands for any string, be it empty, a mark for any one
character, and every other character for itself. Nothing here refers to a program.
-/

namespace Gftp.Wildcards

variable {α : Type} [DecidableEq α]

/-- The whole name matches the pattern. -/
def Matches (star mark : α) : List α → List α → Prop
  | [], name => name = []
  | c :: spec, name =>
      if c = star then ∃ rest, rest <:+ name ∧ Matches star mark spec rest
      else ∃ d rest, name = d :: rest ∧ (c = mark ∨ c = d) ∧ Matches star mark spec rest

variable {star mark c d : α} {spec back name rest : List α}

theorem matches_star : Matches star mark (star :: spec) name ↔
    ∃ rest, rest <:+ name ∧ Matches star mark spec rest := by
  rw [Matches, if_pos rfl]

theorem matches_cons (hc : c ≠ star) : Matches star mark (c :: spec) name ↔
    ∃ d rest, name = d :: rest ∧ (c = mark ∨ c = d) ∧ Matches star mark spec rest := by
  rw [Matches, if_neg hc]

/-- Matching is decided by trying every rest of the name for a star. -/
instance decidableMatches (star mark : α) :
    (spec name : List α) → Decidable (Matches star mark spec name)
  | [], name => inferInstanceAs (Decidable (name = []))
  | c :: spec, name =>
      have _ (rest : List α) := decidableMatches star mark spec rest
      if h : c = star then
        decidable_of_iff (∃ rest ∈ name.tails, Matches star mark spec rest)
          (by simp only [h, matches_star, List.mem_tails])
      else
        match name with
        | [] => isFalse (by simp [matches_cons h])
        | d :: rest =>
            decidable_of_iff ((c = mark ∨ c = d) ∧ Matches star mark spec rest)
              (by simp [matches_cons h])

theorem matches_append : Matches star mark (spec ++ back) name ↔
    ∃ front rest, name = front ++ rest ∧ Matches star mark spec front ∧
      Matches star mark back rest := by
  induction spec generalizing name with
  | nil => simp [Matches]
  | cons c spec ih =>
    rw [List.cons_append]
    by_cases hc : c = star
    · subst hc
      rw [matches_star]
      constructor
      · rintro ⟨tail, ⟨skipped, rfl⟩, htail⟩
        obtain ⟨front, rest, rfl, hfront, hrest⟩ := ih.mp htail
        refine ⟨skipped ++ front, rest, (List.append_assoc ..).symm, ?_, hrest⟩
        exact matches_star.mpr ⟨front, List.suffix_append .., hfront⟩
      · rintro ⟨front, rest, rfl, hfront, hrest⟩
        obtain ⟨tail, ⟨skipped, rfl⟩, htail⟩ := matches_star.mp hfront
        refine ⟨tail ++ rest, ⟨skipped, (List.append_assoc ..).symm⟩, ?_⟩
        exact ih.mpr ⟨tail, rest, rfl, htail, hrest⟩
    · rw [matches_cons hc]
      constructor
      · rintro ⟨d, tail, rfl, hd, htail⟩
        obtain ⟨front, rest, rfl, hfront, hrest⟩ := ih.mp htail
        exact ⟨d :: front, rest, rfl, (matches_cons hc).mpr ⟨d, front, rfl, hd, hfront⟩, hrest⟩
      · rintro ⟨front, rest, rfl, hfront, hrest⟩
        obtain ⟨d, tail, rfl, hd, htail⟩ := (matches_cons hc).mp hfront
        exact ⟨d, tail ++ rest, rfl, hd, ih.mpr ⟨tail, rest, rfl, htail, hrest⟩⟩

theorem matches_empty (h : Matches star mark spec []) : ∀ c ∈ spec, c = star := by
  induction spec with
  | nil => simp
  | cons c spec ih =>
    by_cases hc : c = star
    · subst hc
      obtain ⟨rest, hrest, h⟩ := matches_star.mp h
      rw [List.suffix_nil.mp hrest] at h
      simpa using ih h
    · obtain ⟨d, rest, hname, -⟩ := (matches_cons hc).mp h
      cases hname

theorem matches_star_end (spec name : List α) (front : List α)
    (h : Matches star mark spec front) (hfront : front <+: name) :
    Matches star mark (spec ++ [star]) name := by
  obtain ⟨rest, rfl⟩ := hfront
  refine matches_append.mpr ⟨front, rest, rfl, h, ?_⟩
  exact matches_star.mpr ⟨[], List.nil_suffix, rfl⟩

end Gftp.Wildcards
