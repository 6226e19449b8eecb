import Gftp.Fuel

/-!
Loops over the elements of a list. In a round the loop ends at an element, passes it with some
output, or comes back to it with nothing changed. It comes to its end exactly when it does not
come back to an element in front of the first one at which it ends. Nothing here refers to a
program.
-/

namespace Gftp.ListWalks

open ByteStrings Fuel

variable {α β : Type}

/-- What a round does at an element. -/
inductive Turn (β : Type)
  | stop
  | next (out : List β)
  | again

/-- The output of a loop, and the elements from the one at which it ends. -/
def walk (turn : α → Turn β) : ℕ → List α → CRun (List β × List α)
  | 0, _ => .error .pending
  | _ + 1, [] => .ok ([], [])
  | fuel + 1, x :: xs =>
      match turn x with
      | .stop => .ok ([], x :: xs)
      | .next out => do
          let (outs, rest) ← walk turn fuel xs
          return (out ++ outs, rest)
      | .again => walk turn fuel (x :: xs)

/-- Where the loop gets to. -/
def outcome (turn : α → Turn β) : List α → Option (List β × List α)
  | [] => some ([], [])
  | x :: xs =>
      match turn x with
      | .stop => some ([], x :: xs)
      | .next out => (outcome turn xs).map fun r => (out ++ r.1, r.2)
      | .again => none

variable {turn : α → Turn β} {xs rest : List α} {outs : List β}

theorem walk_ends (h : outcome turn xs = some (outs, rest)) :
    Ends (fun fuel => walk turn fuel xs) (outs, rest) := by
  induction xs generalizing outs with
  | nil =>
    obtain ⟨rfl, rfl⟩ := Prod.mk.inj (Option.some.inj h)
    exact .round (fun _ => rfl) (.ok _)
  | cons x xs ih =>
    rw [outcome] at h
    cases hturn : turn x with
    | stop =>
      rw [hturn] at h
      obtain ⟨rfl, rfl⟩ := Prod.mk.inj (Option.some.inj h)
      exact .round (fun fuel => by simp only [walk, hturn]) (.ok _)
    | next out =>
      rw [hturn] at h
      obtain ⟨⟨outs', rest'⟩, hrest, heq⟩ := Option.map_eq_some_iff.mp h
      obtain ⟨rfl, rfl⟩ := Prod.mk.inj heq
      exact .round (fun fuel => by simp only [walk, hturn]; rfl) ((ih hrest).bind (.ok _))
    | again =>
      rw [hturn] at h
      cases h

/-- A loop that comes back to an element does so for ever. -/
theorem walk_pending (h : outcome turn xs = none) (fuel : ℕ) :
    walk turn fuel xs = .error .pending := by
  induction fuel generalizing xs with
  | zero => rfl
  | succ fuel ih =>
    cases xs with
    | nil => cases h
    | cons x xs =>
      have hall := h
      rw [outcome] at h
      cases hturn : turn x with
      | stop =>
        rw [hturn] at h
        cases h
      | next out =>
        rw [hturn] at h
        simp only [walk, hturn, ih (Option.map_eq_none_iff.mp h), CRun.error_bind]
      | again =>
        simp only [walk, hturn]
        exact ih hall

end Gftp.ListWalks
