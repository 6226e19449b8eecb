import Gftp.ByteStrings

/-!
Runs on fuel. A run that is given more fuel goes the same way and may only come further,
so what a run did with some fuel it does with any greater amount. Nothing here refers to
a program.
-/

namespace Gftp.Fuel

open ByteStrings

variable {α β : Type}

/-- The run x is still pending, or y is the same run. -/
def Below (x y : CRun α) : Prop := x = .error .pending ∨ x = y

namespace Below

variable {x y : CRun α}

theorem refl (x : CRun α) : Below x x := .inr rfl

theorem pending (y : CRun α) : Below (.error .pending) y := .inl rfl

theorem ok_eq {a : α} (h : Below x y) (hx : x = .ok a) : y = .ok a := by
  rcases h with hpending | heq
  · rw [hx] at hpending
    simp at hpending
  · exact heq ▸ hx

theorem settled_eq (h : Below x y) (hx : x ≠ .error .pending) : y = x :=
  (h.resolve_left hx).symm

theorem bind {f g : α → CRun β} (h : Below x y) (hfg : ∀ a, Below (f a) (g a)) :
    Below (x >>= f) (y >>= g) := by
  rcases h with rfl | rfl
  · exact .inl rfl
  · cases x with
    | error e => exact .inr rfl
    | ok a => exact hfg a

end Below

/-- The run has come to an end, be it outside a block. -/
def Settled (x : CRun α) : Prop := x ≠ .error .pending

namespace Settled

variable {x y : CRun α}

theorem ok (a : α) : Settled (.ok a : CRun α) := by simp [Settled]

theorem fault : Settled (.error .fault : CRun α) := by simp [Settled]

theorem bind {f : α → CRun β} (h : Settled x) (hf : ∀ a, x = .ok a → Settled (f a)) :
    Settled (x >>= f) := by
  cases x with
  | error e =>
    cases e with
    | fault => exact fault
    | pending => exact absurd rfl h
  | ok a => exact hf a rfl

/-- What settles the shorter run settles the longer one. -/
theorem below (h : Settled x) (hxy : Below x y) : Settled y := hxy.settled_eq h ▸ h

end Settled

/-- The run ends with b for every amount of fuel from some amount on. -/
def Ends (f : ℕ → CRun α) (b : α) : Prop := ∃ least, ∀ fuel, least ≤ fuel → f fuel = .ok b

namespace Ends

variable {f g : ℕ → CRun α} {a : α} {b : β}

theorem ok (a : α) : Ends (fun _ => .ok a) a := ⟨0, fun _ _ => rfl⟩

/-- A loop that makes a round and goes on as g does. -/
theorem round (h : ∀ fuel, f (fuel + 1) = g fuel) (hg : Ends g a) : Ends f a := by
  obtain ⟨least, hleast⟩ := hg
  refine ⟨least + 1, fun fuel hfuel => ?_⟩
  obtain ⟨fuel, rfl⟩ := Nat.exists_eq_succ_of_ne_zero (by omega : fuel ≠ 0)
  exact (h fuel).trans (hleast fuel (by omega))

theorem congr (h : Ends f a) (heq : ∀ fuel, g fuel = f fuel) : Ends g a := by
  obtain ⟨least, hleast⟩ := h
  exact ⟨least, fun fuel hfuel => (heq fuel).trans (hleast fuel hfuel)⟩

theorem bind {k : ℕ → α → CRun β} (hf : Ends f a) (hk : Ends (fun fuel => k fuel a) b) :
    Ends (fun fuel => f fuel >>= k fuel) b := by
  obtain ⟨m, hm⟩ := hf
  obtain ⟨n, hn⟩ := hk
  refine ⟨max m n, fun fuel hfuel => ?_⟩
  simp only [hm fuel (by omega), CRun.ok_bind, hn fuel (by omega)]

theorem unique {a' : α} (h : Ends f a) (h' : Ends f a') : a = a' := by
  obtain ⟨m, hm⟩ := h
  obtain ⟨n, hn⟩ := h'
  exact Except.ok.inj ((hm (max m n) (by omega)).symm.trans (hn (max m n) (by omega)))

/-- A run that ends is not pending for ever. -/
theorem not_pending (h : Ends f a) : ¬ ∀ fuel, f fuel = .error .pending := by
  intro hpending
  obtain ⟨least, hleast⟩ := h
  have hok := hleast least (Nat.le_refl least)
  rw [hpending least] at hok
  cases hok

/-- What follows a run that ends decides. -/
theorem bind_iff {k : ℕ → α → CRun β} (hf : Ends f a) :
    Ends (fun fuel => f fuel >>= k fuel) b ↔ Ends (fun fuel => k fuel a) b := by
  refine ⟨fun h => ?_, hf.bind⟩
  obtain ⟨m, hm⟩ := hf
  obtain ⟨n, hn⟩ := h
  refine ⟨max m n, fun fuel hfuel => ?_⟩
  have hrun : f fuel >>= k fuel = .ok b := hn fuel (by omega)
  rwa [hm fuel (by omega), CRun.ok_bind] at hrun

end Ends

end Gftp.Fuel
