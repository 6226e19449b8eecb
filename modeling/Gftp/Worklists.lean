import Mathlib.Logic.Hydra

/-!
Loops over a list of work. A pass takes the first item, and may put new items at the end or
stop the loop. The loop ends when each pass uses up something of which there is a finite
amount, or else puts in only items less than the one taken, in a well-founded order. Nothing
here refers to a program.
-/

namespace Gftp.Worklists

variable {σ α : Type}

/-- The loop ends from this state, with these items to do. -/
inductive Ends (step : σ → α → Option (σ × List α)) : σ → List α → Prop
  | done (s : σ) : Ends step s []
  | stop {s : σ} {a : α} (rest : List α) (h : step s a = none) : Ends step s (a :: rest)
  | pass {s s' : σ} {a : α} {rest new : List α} (hstep : step s a = some (s', new))
      (h : Ends step s' (rest ++ new)) : Ends step s (a :: rest)

variable {step : σ → α → Option (σ × List α)}

/-- Items less than the one taken make a list less than the list. -/
private theorem cut_head {lt : α → α → Prop} {a : α} {rest new : List α}
    (h : ∀ b ∈ new, lt b a) :
    Relation.CutExpand lt (↑(rest ++ new) : Multiset α) (↑(a :: rest) : Multiset α) := by
  refine ⟨↑new, a, fun b hb => h b (Multiset.mem_coe.mp hb), ?_⟩
  rw [← Multiset.coe_add, ← Multiset.cons_coe, ← Multiset.singleton_add]
  ac_rfl

theorem ends_of_decreasing {lt : α → α → Prop} (hlt : WellFounded lt) (left : σ → ℕ)
    (hstep : ∀ s a s' new, step s a = some (s', new) →
      left s' < left s ∨ left s' = left s ∧ ∀ b ∈ new, lt b a) (s : σ) (l : List α) :
    Ends step s l := by
  generalize hn : left s = n
  induction n using Nat.strongRecOn generalizing s l with
  | ind n ihn =>
    generalize hm : (↑l : Multiset α) = m
    induction m using hlt.cutExpand.induction generalizing s l with
    | _ m ihm =>
      subst hn hm
      cases l with
      | nil => exact .done s
      | cons a rest =>
        cases hs : step s a with
        | none => exact .stop rest hs
        | some next =>
          obtain ⟨s', new⟩ := next
          refine .pass hs ?_
          rcases hstep s a s' new hs with hless | ⟨hsame, hnew⟩
          · exact ihn _ hless s' _ rfl
          · exact ihm _ (cut_head hnew) s' _ hsame rfl

/-- The loop does not end when no item stops it and an endless item always puts in another. -/
theorem not_ends (Inv : σ → Prop) (Good Endless : α → Prop)
    (hgo : ∀ s a, Inv s → Good a → ∃ s' new, step s a = some (s', new) ∧ Inv s' ∧
      (∀ b ∈ new, Good b) ∧ (Endless a → ∃ b ∈ new, Endless b))
    {s : σ} {l : List α} (hs : Inv s) (hgood : ∀ a ∈ l, Good a) (hl : ∃ a ∈ l, Endless a) :
    ¬Ends step s l := by
  intro h
  induction h with
  | done s =>
    obtain ⟨a, ha, -⟩ := hl
    cases ha
  | stop rest hstop =>
    obtain ⟨s', new, hpass, -⟩ := hgo _ _ hs (hgood _ (List.mem_cons_self ..))
    rw [hstop] at hpass
    cases hpass
  | @pass s s' a rest new hstep h ih =>
    obtain ⟨s'', new', hpass, hs', hnew, hendless⟩ := hgo _ _ hs (hgood _ (List.mem_cons_self ..))
    rw [hstep] at hpass
    obtain ⟨rfl, rfl⟩ := Prod.mk.inj (Option.some.inj hpass)
    apply ih hs'
    · intro b hb
      rcases List.mem_append.mp hb with hold | hnewb
      · exact hgood b (List.mem_cons_of_mem _ hold)
      · exact hnew b hnewb
    · obtain ⟨b, hb, hbad⟩ := hl
      rcases List.mem_cons.mp hb with rfl | hold
      · obtain ⟨c, hc, hbad⟩ := hendless hbad
        exact ⟨c, List.mem_append_right _ hc, hbad⟩
      · exact ⟨b, List.mem_append_left _ hold, hbad⟩

end Gftp.Worklists
