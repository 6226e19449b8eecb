import Mathlib.Data.List.Basic

/-!
Something that stands at a place, or at none, and the calls made to it. A call may ask it to go to a
place; whatever it is asked, a call may leave it where it is or take it anywhere. A caller that wants
it to be at its first place in the end notes the place in front of the first move and asks for that
place in a last call. Nothing here refers to a program.
-/

namespace Gftp.Places

variable {α : Type}

/-- A call: the place asked for, when it asks for a move, and the places in front of it and behind. -/
structure Call (α : Type) where
  asked : Option (Option α)
  before : Option α
  after : Option α

namespace Call

def Keeps (c : Call α) : Prop := c.after = c.before

/-- The call leads to the place that it asks for. -/
def Obeys (c : Call α) : Prop := c.asked = some c.after

end Call

/-- The calls lead from one place to another. -/
def Leads : Option α → List (Call α) → Option α → Prop
  | a, [], b => b = a
  | a, c :: calls, b => c.before = a ∧ Leads c.after calls b

/-- The place noted: the first one in front of a call for a move. -/
def noted (calls : List (Call α)) : Option α :=
  (calls.filter (·.asked.isSome)).findSome? (·.before)

/-- The calls, and the last call when it is made, bring it back to its first place: the last call
obeys and asks for that place, because no call in front of the first move has led away from it; or it
is not made, and no call has led away. -/
def Returns (entry : Option α) (calls : List (Call α)) (back : Option (Call α)) : Prop :=
  match back with
  | none => ∀ c ∈ calls, c.Keeps
  | some b => entry.isSome ∧ (∀ c ∈ calls.takeWhile (·.asked.isNone), c.Keeps) ∧ b.Obeys

/-- No call but the last one leads to the first place from another one, and the last one does what
it is asked or nothing. -/
structure NoReturn (entry : Option α) (calls : List (Call α)) (back : Option (Call α)) : Prop where
  away : ∀ c ∈ calls, c.Keeps ∨ c.after ≠ entry
  back : ∀ b, back = some b → b.Keeps ∨ b.Obeys

/-- The last call is made where the calls have led, and asks for the place noted. -/
structure AsksBack (calls : List (Call α)) (last : Option α) (b : Call α) : Prop where
  before : b.before = last
  asked : ∃ place, noted calls = some place ∧ b.asked = some (some place)

/-- The calls lead from one place to another, and a note that is made once is brought up to date. -/
structure Tracked (note place : Option α) (calls : List (Call α)) (note' place' : Option α) : Prop where
  leads : Leads place calls place'
  note : note' = note.or (noted calls)

section Calls

variable {a b d entry last : Option α} {calls calls' : List (Call α)} {c : Call α}

theorem Leads.append (h : Leads a calls b) (h' : Leads b calls' d) : Leads a (calls ++ calls') d := by
  induction calls generalizing a with
  | nil =>
    obtain rfl : b = a := h
    exact h'
  | cons c calls ih => exact ⟨h.1, ih h.2⟩

theorem Leads.kept (h : Leads a calls b) (hkeeps : ∀ c ∈ calls, c.Keeps) : b = a := by
  induction calls generalizing a with
  | nil => exact h
  | cons c calls ih =>
    obtain ⟨hc, hcalls⟩ := List.forall_mem_cons.mp hkeeps
    exact (ih h.2 hcalls).trans (hc.trans h.1)

/-- From another place the calls do not lead to the entry. -/
theorem Leads.stays_away (h : Leads a calls b) (ha : a ≠ entry)
    (haway : ∀ c ∈ calls, c.Keeps ∨ c.after ≠ entry) : b ≠ entry := by
  induction calls generalizing a with
  | nil =>
    obtain rfl : b = a := h
    exact ha
  | cons c calls ih =>
    obtain ⟨hc, hcalls⟩ := List.forall_mem_cons.mp haway
    refine ih h.2 ?_ hcalls
    rcases hc with hkeeps | hne
    · rw [hkeeps, h.1]
      exact ha
    · exact hne

/-- Calls that lead to the entry in the end have not led away. -/
theorem Leads.keeps (h : Leads entry calls entry)
    (haway : ∀ c ∈ calls, c.Keeps ∨ c.after ≠ entry) : ∀ c ∈ calls, c.Keeps := by
  induction calls with
  | nil => exact fun c hc => absurd hc List.not_mem_nil
  | cons c calls ih =>
    obtain ⟨hc, hcalls⟩ := List.forall_mem_cons.mp haway
    have hafter : c.after = entry := by
      by_contra hne
      exact h.2.stays_away hne hcalls rfl
    have hkeeps : c.Keeps := hafter.trans h.1.symm
    have hrest := h.2
    rw [hafter] at hrest
    exact List.forall_mem_cons.mpr ⟨hkeeps, ih hrest hcalls⟩

@[simp] theorem noted_nil : noted ([] : List (Call α)) = none := rfl

theorem noted_append : noted (calls ++ calls') = (noted calls).or (noted calls') := by
  rw [noted, List.filter_append, List.findSome?_append]
  rfl

theorem noted_question (h : c.asked = none) : noted (c :: calls) = noted calls := by
  simp [noted, h]

theorem noted_move (h : c.asked.isSome = true) : noted (c :: calls) = c.before.or (noted calls) := by
  simp only [noted, List.filter_cons, h, if_true, List.findSome?_cons]
  cases c.before <;> rfl

theorem Tracked.nil (note place : Option α) : Tracked note place [] note place :=
  ⟨rfl, Option.or_none.symm⟩

theorem Tracked.question (note before after : Option α) :
    Tracked note before [⟨none, before, after⟩] note after :=
  ⟨⟨rfl, rfl⟩, Option.or_none.symm⟩

theorem Tracked.move (note asked before after : Option α) :
    Tracked note before [⟨some asked, before, after⟩] (note.or before) after := by
  refine ⟨⟨rfl, rfl⟩, ?_⟩
  rw [noted_move rfl, noted_nil, Option.or_none]

theorem Tracked.append {note note' note'' : Option α} (h : Tracked note a calls note' b)
    (h' : Tracked note' b calls' note'' d) : Tracked note a (calls ++ calls') note'' d := by
  refine ⟨h.leads.append h'.leads, ?_⟩
  rw [h'.note, h.note, noted_append, Option.or_assoc]

/-- Where no call in front of the first move leads away, the entry is noted. -/
theorem noted_entry {e place : α} (h : Leads (some e) calls last)
    (hkeeps : ∀ c ∈ calls.takeWhile (·.asked.isNone), c.Keeps) (hnoted : noted calls = some place) :
    place = e := by
  induction calls with
  | nil => cases hnoted
  | cons c calls ih =>
    cases hasked : c.asked with
    | none =>
      rw [List.takeWhile_cons_of_pos (by rw [hasked]; rfl)] at hkeeps
      obtain ⟨hc, hcalls⟩ := List.forall_mem_cons.mp hkeeps
      have hrest := h.2
      rw [hc, h.1] at hrest
      exact ih hrest hcalls (noted_question hasked ▸ hnoted)
    | some asked =>
      rw [noted_move (by rw [hasked]; rfl), h.1] at hnoted
      exact (Option.some.inj hnoted).symm

/-- Of a thing that has been at no place all the time, none is noted. -/
theorem noted_none (h : Leads none calls last) (hkeeps : ∀ c ∈ calls, c.Keeps) :
    noted calls = none := by
  induction calls with
  | nil => rfl
  | cons c calls ih =>
    obtain ⟨hc, hcalls⟩ := List.forall_mem_cons.mp hkeeps
    have hrest := h.2
    rw [hc, h.1] at hrest
    cases hasked : c.asked with
    | none => rw [noted_question hasked, ih hrest hcalls]
    | some asked => rw [noted_move (by rw [hasked]; rfl), h.1, ih hrest hcalls, Option.or_none]

/-- Away from the entry it is not noted. -/
theorem noted_away {e : α} (h : Leads a calls last) (ha : a ≠ some e)
    (haway : ∀ c ∈ calls, c.Keeps ∨ c.after ≠ some e) : noted calls ≠ some e := by
  induction calls generalizing a with
  | nil => exact nofun
  | cons c calls ih =>
    obtain ⟨hc, hcalls⟩ := List.forall_mem_cons.mp haway
    have hafter : c.after ≠ some e := by
      rcases hc with hkeeps | hne
      · rw [hkeeps, h.1]
        exact ha
      · exact hne
    have hrest := ih h.2 hafter hcalls
    cases hasked : c.asked with
    | none => rwa [noted_question hasked]
    | some asked =>
      rw [noted_move (by rw [hasked]; rfl), h.1]
      cases a with
      | none => exact hrest
      | some x => exact ha

/-- When the entry is noted, no call in front of the first move has led away. -/
theorem kept_of_noted {e : α} (h : Leads (some e) calls last) (hnoted : noted calls = some e)
    (haway : ∀ c ∈ calls, c.Keeps ∨ c.after ≠ some e) :
    ∀ c ∈ calls.takeWhile (·.asked.isNone), c.Keeps := by
  induction calls with
  | nil => exact fun c hc => absurd hc List.not_mem_nil
  | cons c calls ih =>
    obtain ⟨hc, hcalls⟩ := List.forall_mem_cons.mp haway
    cases hasked : c.asked with
    | some asked =>
      rw [List.takeWhile_cons_of_neg (by rw [hasked]; exact Bool.false_ne_true)]
      exact fun c hc => absurd hc List.not_mem_nil
    | none =>
      rw [noted_question hasked] at hnoted
      have hkeeps : c.Keeps := by
        rcases hc with hkeeps | hne
        · exact hkeeps
        · exact absurd hnoted (noted_away h.2 hne hcalls)
      have hrest := h.2
      rw [hkeeps, h.1] at hrest
      rw [List.takeWhile_cons_of_pos (by rw [hasked]; rfl)]
      exact List.forall_mem_cons.mpr ⟨hkeeps, ih hrest hnoted hcalls⟩

end Calls

section Returning

variable {entry last : Option α} {calls : List (Call α)} {back : Option (Call α)}

theorem Returns.returned (hreturns : Returns entry calls back) (h : Leads entry calls last)
    (hback : ∀ b, back = some b → AsksBack calls last b) :
    (back.map (·.after)).getD last = entry := by
  cases back with
  | none => exact h.kept hreturns
  | some b =>
    obtain ⟨hsome, hkeeps, hobeys⟩ := hreturns
    obtain ⟨place, hnoted, hasked⟩ := (hback b rfl).asked
    obtain ⟨e, rfl⟩ := Option.isSome_iff_exists.mp hsome
    obtain rfl := noted_entry h hkeeps hnoted
    exact (Option.some.inj (hasked.symm.trans hobeys)).symm

/-- A thing that is at its first place in the end has been brought back, unless it was led back by
accident. -/
theorem NoReturn.returns (haway : NoReturn entry calls back) (h : Leads entry calls last)
    (hback : ∀ b, back = some b → AsksBack calls last b)
    (hend : (back.map (·.after)).getD last = entry) : Returns entry calls back := by
  cases back with
  | none =>
    obtain rfl : last = entry := hend
    exact h.keeps haway.away
  | some b =>
    have hafter : b.after = entry := hend
    obtain ⟨hbefore, place, hnoted, hasked⟩ := hback b rfl
    have hobeys : b.asked = some b.after := by
      rcases haway.back b rfl with hkeeps | hobeys
      · -- the last call has not led away from the entry, so none has
        have hlast : last = entry := hbefore.symm.trans (hkeeps.symm.trans hafter)
        rw [hlast] at h
        have hall := h.keeps haway.away
        cases entry with
        | none =>
          rw [noted_none h hall] at hnoted
          cases hnoted
        | some e =>
          obtain rfl := noted_entry h (fun c hc => hall c ((List.takeWhile_sublist _).mem hc)) hnoted
          rw [hasked, hafter]
      · exact hobeys
    obtain rfl : some place = entry := by
      rw [← hafter]
      exact Option.some.inj (hasked.symm.trans hobeys)
    exact ⟨rfl, kept_of_noted h hnoted haway.away, hobeys⟩

end Returning

end Gftp.Places
