import Mathlib.Data.List.Infix

/-!
The occurrences of a text are replaced from left to right, each of them the first one behind the
last. Where the replacement does not occur in what has been read, it can be taken back. Nothing
here refers to a program.
-/

namespace Gftp.Replacements

variable {α : Type} {sep added s t u v : List α}

/-- No occurrence begins in u when sep stands behind it. -/
def Front (sep u : List α) : Prop := ¬ sep <:+: u ++ sep.dropLast

inductive Replaced (sep added : List α) : List α → List α → Prop
  | rest {s : List α} : ¬ sep <:+: s → Replaced sep added s s
  | next {u v w : List α} : Front sep u → Replaced sep added v w →
      Replaced sep added (u ++ (sep ++ v)) (u ++ (added ++ w))

theorem front_nil (hsep : sep ≠ []) : Front sep [] := by
  intro h
  have hlength := h.length_le
  rw [List.nil_append, List.length_dropLast] at hlength
  have hpos := List.length_pos_of_ne_nil hsep
  omega

/-- The text stands at the beginning of u, with something behind it, only if an occurrence begins
there. -/
theorem Front.not_prefix {b : α} (h : Front sep (b :: u)) (rest : List α) :
    ¬ sep <+: b :: u ++ (sep ++ rest) := by
  intro hprefix
  have hsep : b :: u ++ sep.dropLast <+: b :: u ++ (sep ++ rest) :=
    (List.prefix_append_right_inj _).mpr ((List.dropLast_prefix sep).trans (List.prefix_append _ _))
  refine h (List.prefix_of_prefix_length_le hprefix hsep ?_).isInfix
  rw [List.length_append, List.length_dropLast, List.length_cons]
  omega

theorem Front.tail {b : α} (h : Front sep (b :: u)) : Front sep u := fun hinside =>
  h (hinside.trans (List.suffix_cons b _).isInfix)

/-- A text that occurs has a first occurrence. -/
theorem exists_front (hsep : sep ≠ []) (h : sep <:+: s) :
    ∃ u v, s = u ++ (sep ++ v) ∧ Front sep u := by
  induction s with
  | nil => exact absurd (List.infix_nil.mp h) hsep
  | cons b s ih =>
    by_cases hhere : sep <+: b :: s
    · obtain ⟨v, hv⟩ := hhere
      exact ⟨[], v, hv.symm, front_nil hsep⟩
    · obtain ⟨u, v, rfl, hfront⟩ := ih ((List.infix_cons_iff.mp h).resolve_left hhere)
      refine ⟨b :: u, v, rfl, fun hinside => ?_⟩
      rw [List.cons_append, List.infix_cons_iff] at hinside
      rcases hinside with hstart | hinside
      · have hsub : u ++ sep.dropLast <+: u ++ (sep ++ v) :=
          (List.prefix_append_right_inj _).mpr ((List.dropLast_prefix sep).trans (List.prefix_append _ _))
        exact hhere (hstart.trans ((List.prefix_cons_inj b).mpr hsub))
      · exact hfront hinside

theorem exists_replaced (hsep : sep ≠ []) (added s : List α) : ∃ t, Replaced sep added s t := by
  induction hn : s.length using Nat.strong_induction_on generalizing s with
  | h n ih =>
    by_cases h : sep <:+: s
    · obtain ⟨u, v, rfl, hfront⟩ := exists_front hsep h
      have hlt : v.length < n := by
        have hpos := List.length_pos_of_ne_nil hsep
        simp only [← hn, List.length_append]
        omega
      obtain ⟨w, hw⟩ := ih v.length hlt v rfl
      exact ⟨_, .next hfront hw⟩
    · exact ⟨s, .rest h⟩

/-- The replacement is taken back when it does not occur in the text, be it together with its own
beginning behind a part of it. -/
theorem Replaced.back (h : Replaced sep added s t) (hadded : ∀ u, u <:+: s → Front added u) :
    Replaced added sep t s := by
  induction h with
  | rest _ =>
    refine .rest fun hinside => hadded _ (List.infix_refl _) ?_
    exact hinside.trans (List.prefix_append _ _).isInfix
  | @next u v w _ _ ih =>
    refine .next (hadded u (List.prefix_append _ _).isInfix) (ih fun u' hu' => hadded u' ?_)
    have hv : v <:+ u ++ (sep ++ v) := (List.suffix_append sep v).trans (List.suffix_append u _)
    exact hu'.trans hv.isInfix

theorem Replaced.not_mem {b : α} (h : Replaced sep added s t) (hs : b ∉ s) (hadded : b ∉ added) :
    b ∉ t := by
  induction h with
  | rest _ => exact hs
  | next _ _ ih =>
    simp only [List.mem_append, not_or] at hs ⊢
    exact ⟨hs.1, hadded, ih hs.2.2⟩

theorem singleton_infix {b : α} : [b] <:+: u ↔ b ∈ u := by
  refine ⟨fun h => h.subset (List.mem_singleton_self b), fun h => ?_⟩
  obtain ⟨x, y, rfl⟩ := List.append_of_mem h
  exact ⟨x, y, by simp⟩

theorem front_singleton {b : α} : Front [b] u ↔ b ∉ u := by
  rw [Front, List.dropLast_singleton, List.append_nil, singleton_infix]

/-- Of two different letters the second one cannot be the first again. -/
theorem front_pair {a b : α} (hab : a ≠ b) (h : ¬ [a, b] <:+: u) : Front [a, b] u := by
  intro hinside
  have hdrop : [a, b].dropLast = [a] := rfl
  rw [hdrop, List.infix_concat_iff] at hinside
  rcases hinside with ⟨x, hx⟩ | hinside
  · have hlast := congrArg List.getLast? hx
    rw [List.getLast?_concat, List.getLast?_append_of_ne_nil _ (List.cons_ne_nil a [b])] at hlast
    exact hab (Option.some.inj hlast).symm
  · exact h hinside

end Gftp.Replacements
