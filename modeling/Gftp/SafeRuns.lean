import Gftp.ByteStrings

/-!
Runs that end without a fault. A run returns with a postcondition, and so does a run that
may refuse its input, whose postcondition speaks of what it gives when it does not refuse.
Both hold of a sequence when they hold of its steps. Nothing here refers to a program.
-/

namespace Gftp.SafeRuns

open ByteStrings

variable {α β ε : Type} {P : α → Prop} {Q : β → Prop}

/-- The run ends, and its result satisfies P. -/
def Returns (x : CRun α) (P : α → Prop) : Prop := ∃ a, x = .ok a ∧ P a

theorem Returns.pure {a : α} (h : P a) : Returns (.ok a) P := ⟨a, rfl, h⟩

theorem Returns.bind {x : CRun α} {f : α → CRun β} (hx : Returns x P)
    (hf : ∀ a, P a → Returns (f a) Q) : Returns (x >>= f) Q := by
  obtain ⟨a, rfl, ha⟩ := hx
  exact hf a ha

theorem Returns.mono {P' : α → Prop} {x : CRun α} (hx : Returns x P) (h : ∀ a, P a → P' a) :
    Returns x P' := by
  obtain ⟨a, hret, ha⟩ := hx
  exact ⟨a, hret, h a ha⟩

/-- The run ends, and what it gives satisfies P unless it has refused. -/
def Answers (x : ExceptT ε CRun α) (P : α → Prop) : Prop :=
  Returns x.run fun r => ∀ a, r = .ok a → P a

theorem Answers.pure {a : α} (h : P a) : Answers (pure a : ExceptT ε CRun α) P :=
  ⟨.ok a, rfl, fun _ heq => Except.ok.inj heq ▸ h⟩

theorem Answers.refuse (e : ε) : Answers (throw e : ExceptT ε CRun α) P :=
  ⟨.error e, rfl, by simp⟩

theorem Answers.mono {P' : α → Prop} {x : ExceptT ε CRun α} (hx : Answers x P)
    (h : ∀ a, P a → P' a) : Answers x P' :=
  Returns.mono hx fun _ hr a ha => h a (hr a ha)

theorem Answers.bind {x : ExceptT ε CRun α} {f : α → ExceptT ε CRun β} (hx : Answers x P)
    (hf : ∀ a, P a → Answers (f a) Q) : Answers (x >>= f) Q := by
  obtain ⟨r, hret, hr⟩ := hx
  cases r with
  | error e =>
    refine ⟨.error e, ?_, by simp⟩
    rw [ExceptT.run_bind, hret]
    rfl
  | ok a =>
    have hrun : (x >>= f).run = (f a).run := by
      rw [ExceptT.run_bind, hret]
      rfl
    unfold Answers
    rw [hrun]
    exact hf a (hr a rfl)

/-- A step that cannot refuse. -/
theorem Answers.lift {x : CRun α} (hx : Returns x P) : Answers (liftM x : ExceptT ε CRun α) P := by
  obtain ⟨a, rfl, ha⟩ := hx
  exact ⟨.ok a, rfl, fun _ heq => Except.ok.inj heq ▸ ha⟩

theorem Answers.read {x : CRun α} {f : α → ExceptT ε CRun β} (hx : Returns x P)
    (hf : ∀ a, P a → Answers (f a) Q) : Answers ((liftM x : ExceptT ε CRun α) >>= f) Q :=
  (Answers.lift hx).bind hf

end Gftp.SafeRuns
