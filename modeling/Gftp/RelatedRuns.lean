import Gftp.ByteStrings

/-!
Two runs side by side. They are related when both stop in the same way or both return,
with related values. Sequences of related steps are related, so that a relation that
every step of a program keeps holds of the whole program. Nothing here refers to a
program.
-/

namespace Gftp.RelatedRuns

open ByteStrings

inductive Related {α β : Type} (R : α → β → Prop) : CRun α → CRun β → Prop
  | returned {a : α} {b : β} (h : R a b) : Related R (.ok a) (.ok b)
  | stopped (e : Stop) : Related R (.error e) (.error e)

variable {α β γ δ : Type} {R : α → β → Prop} {S : γ → δ → Prop}

theorem Related.bind {x : CRun α} {y : CRun β} {f : α → CRun γ} {g : β → CRun δ}
    (h : Related R x y) (hfg : ∀ a b, R a b → Related S (f a) (g b)) :
    Related S (x >>= f) (y >>= g) := by
  cases h with
  | returned h => exact hfg _ _ h
  | stopped e => exact .stopped e

/-- A step that both programs take alike. -/
theorem Related.common {x : CRun α} {f : α → CRun γ} {g : α → CRun δ}
    (hfg : ∀ a, x = .ok a → Related S (f a) (g a)) : Related S (x >>= f) (x >>= g) := by
  cases x with
  | error e => exact .stopped e
  | ok a => exact hfg a rfl

end Gftp.RelatedRuns
