import Mathlib.Logic.Relation

/-!
Runs of labelled step relations. A run is guarded when each of its steps satisfies a
condition on the state before it and on its label.
-/

namespace Gftp.Runs

variable {σ α : Type}

/-- t is reached from s by steps that satisfy the condition ok. -/
def Reaches (step : σ → α → σ → Prop) (ok : σ → α → Prop) : σ → σ → Prop :=
  Relation.ReflTransGen fun s t => ∃ a, ok s a ∧ step s a t

namespace Reaches

variable {step : σ → α → σ → Prop} {ok ok' : σ → α → Prop} {s t u : σ}

theorem refl (s : σ) : Reaches step ok s s := Relation.ReflTransGen.refl

theorem tail {a : α} (h : Reaches step ok s t) (hok : ok t a) (hstep : step t a u) :
    Reaches step ok s u := Relation.ReflTransGen.tail h ⟨a, hok, hstep⟩

/-- What guarded steps preserve holds at the end of a guarded run. -/
theorem invariant (Inv : σ → Prop) (h : Reaches step ok s t) (hinit : Inv s)
    (hstep : ∀ s a t, Inv s → ok s a → step s a t → Inv t) : Inv t := by
  induction h with
  | refl => exact hinit
  | tail _ hlast ih =>
    obtain ⟨a, hok, hlast⟩ := hlast
    exact hstep _ a _ ih hok hlast

end Reaches

end Gftp.Runs
