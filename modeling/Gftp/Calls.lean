import Mathlib.Data.List.Infix

/-!
Calls of functions that change a state and may fail. A call that needs more fuel than it was
given is pending, and its state is the one it has reached. Calls that only add to a history
are compared for different amounts of fuel; what a call establishes is stated under a
condition on states that cannot be regained once it is lost. Nothing here refers to a
program.
-/

namespace Gftp.Calls

variable {σ ε η α β : Type}

/-- A call gives a value or an error, or nothing as long as it is pending. -/
def Call (σ ε α : Type) := σ → Option (Except ε α) × σ

namespace Call

def give (r : Except ε α) : Call σ ε α := fun s => (some r, s)

def pending : Call σ ε α := fun s => (none, s)

/-- The caller decides what follows a value and an error. -/
def handle (x : Call σ ε α) (f : Except ε α → Call σ ε β) : Call σ ε β := fun s =>
  match x s with
  | (none, s') => (none, s')
  | (some r, s') => f r s'

/-- The caller fails with the error of the function it calls. -/
def andThen (x : Call σ ε α) (f : α → Call σ ε β) : Call σ ε β :=
  x.handle fun
    | .ok a => f a
    | .error e => give (.error e)

instance : Monad (Call σ ε) where
  pure a := give (.ok a)
  bind := andThen

def fail (e : ε) : Call σ ε α := give (.error e)

/-- The state, as far as f looks at it. -/
def look (f : σ → α) : Call σ ε α := fun s => (some (.ok (f s)), s)

def change (f : σ → σ) : Call σ ε Unit := fun s => (some (.ok ()), f s)

section Handle

variable {x : Call σ ε α} {f : Except ε α → Call σ ε β} {s s' : σ} {r : Except ε α}

theorem handle_some (h : x s = (some r, s')) : x.handle f s = f r s' := by
  simp only [handle, h]

theorem handle_none (h : x s = (none, s')) : x.handle f s = (none, s') := by
  simp only [handle, h]

/-- x is pending, or what follows it is called. -/
theorem handle_cases (x : Call σ ε α) (f : Except ε α → Call σ ε β) (s : σ) :
    (x s).1 = none ∧ x.handle f s = (none, (x s).2) ∨
      ∃ r s', x s = (some r, s') ∧ x.handle f s = f r s' := by
  cases hx : x s with
  | mk out s' =>
    cases out with
    | none => exact .inl ⟨rfl, handle_none hx⟩
    | some r => exact .inr ⟨r, s', rfl, handle_some hx⟩

/-- A pending call is pending in x or in what follows its value. -/
theorem bind_pending {f : α → Call σ ε β} (h : ((x >>= f) s).1 = none) :
    (x s).1 = none ∧ (x >>= f) s = (none, (x s).2) ∨
      ∃ a s', x s = (some (.ok a), s') ∧ (f a s').1 = none := by
  refine (handle_cases x _ s).imp id ?_
  rintro ⟨r, s', hx, hrest⟩
  cases r with
  | ok a => exact ⟨a, s', hx, (congrArg Prod.fst hrest).symm.trans h⟩
  | error e => cases (congrArg Prod.fst hrest).symm.trans h

/-- A call that has come to an end. -/
theorem handle_eq_some {t : σ} {b : Except ε β} :
    x.handle f s = (some b, t) ↔ ∃ r s', x s = (some r, s') ∧ f r s' = (some b, t) := by
  cases hx : x s with
  | mk out s₁ =>
    cases out with
    | none => simp [handle_none hx]
    | some r => simp [handle_some hx]

theorem look_then (f : σ → α) (g : α → Call σ ε β) (s : σ) :
    (look f >>= g) s = g (f s) s := rfl

theorem change_then (f : σ → σ) (g : Unit → Call σ ε β) (s : σ) :
    (change f >>= g) s = g () (f s) := rfl

theorem bind_then {f : α → Call σ ε β} {a : α} (h : x s = (some (.ok a), s')) :
    (x >>= f) s = f a s' := handle_some h

theorem bind_none {f : α → Call σ ε β} (h : (x s).1 = none) : ((x >>= f) s).1 = none :=
  congrArg Prod.fst (handle_none (Prod.ext h rfl : x s = (none, (x s).2)))

end Handle

end Call

section Histories

variable {hist : σ → List η} {p : η → Bool} {k : ℕ}

/-- x is what y does with less fuel. It only adds to the history, and when it is pending it
has added at least k events of the kind p. -/
structure Below (hist : σ → List η) (p : η → Bool) (k : ℕ) (x y : Call σ ε α) : Prop where
  grows : ∀ s, hist s <:+ hist (x s).2
  same : ∀ s, x s = y s ∨ (x s).1 = none ∧ hist (x s).2 <:+ hist (y s).2
  deep : ∀ s, (x s).1 = none → (hist s).countP p + k ≤ (hist (x s).2).countP p

namespace Below

/-- A call that is never pending and only adds to the history. -/
theorem of_settled {x : Call σ ε α} (hgrows : ∀ s, hist s <:+ hist (x s).2)
    (hsettled : ∀ s, (x s).1 ≠ none) : Below hist p k x x :=
  ⟨hgrows, fun _ => .inl rfl, fun s h => absurd h (hsettled s)⟩

theorem give (r : Except ε α) : Below hist p k (.give r) (.give r) :=
  of_settled (fun s => List.suffix_refl (hist s)) (fun _ => by simp [Call.give])

theorem look (f : σ → α) : Below hist p k (.look f : Call σ ε α) (.look f) :=
  of_settled (fun s => List.suffix_refl (hist s)) (fun _ => by simp [Call.look])

theorem change {f : σ → σ} (h : ∀ s, hist s <:+ hist (f s)) :
    Below hist p k (.change f : Call σ ε Unit) (.change f) :=
  of_settled h (fun _ => by simp [Call.change])

variable {x y : Call σ ε α}

theorem grows_upper (h : Below hist p k x y) (s : σ) : hist s <:+ hist (y s).2 := by
  rcases h.same s with hsame | ⟨-, hmore⟩
  · exact hsame ▸ h.grows s
  · exact (h.grows s).trans hmore

theorem pending (hgrows : ∀ s, hist s <:+ hist (x s).2) :
    Below hist p 0 (.pending : Call σ ε α) x :=
  ⟨fun s => List.suffix_refl (hist s), fun s => .inr ⟨rfl, hgrows s⟩, fun _ _ => Nat.le_refl _⟩

theorem handle {f g : Except ε α → Call σ ε β} (hxy : Below hist p k x y)
    (hfg : ∀ r, Below hist p k (f r) (g r)) : Below hist p k (x.handle f) (y.handle g) := by
  refine ⟨fun s => ?_, fun s => ?_, fun s => ?_⟩
  · have hgrows := hxy.grows s
    cases hrun : x s with
    | mk out s' =>
      rw [hrun] at hgrows
      cases out with
      | none => simpa only [Call.handle_none hrun] using hgrows
      | some r =>
        rw [Call.handle_some hrun]
        exact hgrows.trans ((hfg r).grows s')
  · rcases hxy.same s with hsame | ⟨hnone, hmore⟩
    · cases hrun : y s with
      | mk out s' =>
        rw [hrun] at hsame
        cases out with
        | none => exact .inl ((Call.handle_none hsame).trans (Call.handle_none hrun).symm)
        | some r =>
          rw [Call.handle_some hsame, Call.handle_some hrun]
          exact (hfg r).same s'
    · -- x is pending, and y goes on from a longer history
      have hstop : x.handle f s = (none, (x s).2) := Call.handle_none (Prod.ext hnone rfl)
      refine .inr ⟨by rw [hstop], ?_⟩
      rw [hstop]
      cases hrun : y s with
      | mk out s' =>
        rw [hrun] at hmore
        cases out with
        | none => simpa only [Call.handle_none hrun] using hmore
        | some r =>
          rw [Call.handle_some hrun]
          exact hmore.trans ((hfg r).grows_upper s')
  · intro hpending
    have hgrows := hxy.grows s
    have hdeep := hxy.deep s
    cases hrun : x s with
    | mk out s' =>
      rw [hrun] at hgrows hdeep
      cases out with
      | none => simpa only [Call.handle_none hrun] using hdeep rfl
      | some r =>
        rw [Call.handle_some hrun] at hpending ⊢
        have hrest := (hfg r).deep s' hpending
        have hcount : (hist s).countP p ≤ (hist s').countP p := hgrows.sublist.countP_le
        omega

theorem bind {f g : α → Call σ ε β} (hxy : Below hist p k x y)
    (hfg : ∀ a, Below hist p k (f a) (g a)) : Below hist p k (x >>= f) (y >>= g) := by
  refine hxy.handle fun r => ?_
  cases r with
  | ok a => exact hfg a
  | error e => exact .give _

theorem ite {c : Prop} [Decidable c] {x' y' : Call σ ε α} (hx : Below hist p k x x')
    (hy : Below hist p k y y') : Below hist p k (if c then x else y) (if c then x' else y') := by
  split
  · exact hx
  · exact hy

/-- What meets any number of events when it is pending is never pending. -/
theorem settled (h : ∀ k, Below hist p k x y) (s : σ) : (x s).1 ≠ none := by
  intro hpending
  have hdeep := (h ((hist (x s).2).countP p + 1)).deep s hpending
  omega

theorem weaken {j : ℕ} (h : Below hist p k x y) (hj : j ≤ k) : Below hist p j x y :=
  ⟨h.grows, h.same, fun s hs => (Nat.add_le_add_left hj _).trans (h.deep s hs)⟩

end Below

section Families

variable {x : ℕ → Call σ ε α} {depth : ℕ → ℕ}

/-- With any amount of fuel a call gets no further than where it comes to an end. -/
theorem history_of_settled (hstep : ∀ n, Below hist p (depth n) (x n) (x (n + 1))) {n : ℕ} {s : σ}
    (hsettled : (x n s).1 ≠ none) (m : ℕ) : hist (x m s).2 <:+ hist (x n s).2 := by
  have hup : ∀ m d, hist (x m s).2 <:+ hist (x (m + d) s).2 := by
    intro m d
    induction d with
    | zero => exact List.suffix_refl _
    | succ d ih =>
      rcases (hstep (m + d)).same s with hsame | ⟨-, hmore⟩
      · rw [← Nat.add_assoc, ← hsame]
        exact ih
      · exact ih.trans hmore
  have hstays : ∀ d, x (n + d) s = x n s := by
    intro d
    induction d with
    | zero => rfl
    | succ d ih =>
      rcases (hstep (n + d)).same s with hsame | ⟨hnone, -⟩
      · exact (Nat.add_assoc n d 1 ▸ hsame.symm).trans ih
      · rw [ih] at hnone
        exact absurd hnone hsettled
  rcases Nat.le_total m n with hle | hle
  · obtain ⟨d, rfl⟩ := Nat.exists_eq_add_of_le hle
    exact hup m d
  · obtain ⟨d, rfl⟩ := Nat.exists_eq_add_of_le hle
    rw [hstays d]

/-- A call comes to an end when it meets events of the kind p only so often. -/
theorem settles_iff (hstep : ∀ n, Below hist p (depth n) (x n) (x (n + 1)))
    (hdepth : ∀ n, n ≤ depth (n + 1)) (s : σ) :
    (∃ n, (x n s).1 ≠ none) ↔ ∃ b, ∀ n, (hist (x n s).2).countP p ≤ b := by
  constructor
  · intro ⟨n, hsettled⟩
    exact ⟨_, fun m => (history_of_settled hstep hsettled m).sublist.countP_le⟩
  · intro ⟨b, hbound⟩
    refine ⟨b + 2, fun hpending => ?_⟩
    have hdeep := (hstep (b + 2)).deep s hpending
    have hlow : b + 1 ≤ depth (b + 2) := hdepth (b + 1)
    have hhigh := hbound (b + 2)
    omega

end Families

end Histories

/-- Each event of a history, the last one first, meets a condition on the events before it. -/
def Throughout (ok : List η → η → Prop) : List η → Prop
  | [] => True
  | e :: l => ok l e ∧ Throughout ok l

instance decidableThroughout {ok : List η → η → Prop} [∀ l e, Decidable (ok l e)] :
    (l : List η) → Decidable (Throughout ok l)
  | [] => .isTrue trivial
  | _ :: l => @instDecidableAnd _ _ inferInstance (decidableThroughout l)

theorem throughout_true : ∀ {l : List η}, Throughout (fun _ _ => True) l
  | [] => trivial
  | _ :: _ => ⟨trivial, throughout_true⟩

theorem throughout_and {ok ok' : List η → η → Prop} {l : List η} :
    Throughout (fun l e => ok l e ∧ ok' l e) l ↔ Throughout ok l ∧ Throughout ok' l := by
  induction l with
  | nil => simp [Throughout]
  | cons e l ih => simp only [Throughout, ih, and_and_and_comm]

/-- What x establishes when it comes to an end and the condition C still holds then. The
condition has held before. -/
def Triple (C P : σ → Prop) (x : Call σ ε α) (Q : Except ε α → σ → Prop) : Prop :=
  ∀ s r s', x s = (some r, s') → C s' → C s ∧ (P s → Q r s')

namespace Triple

variable {C P P' : σ → Prop} {x : Call σ ε α} {Q Q' : Except ε α → σ → Prop}

theorem give {r : Except ε α} : Triple C (Q r) (.give r) Q := by
  intro s r' s' h hc
  obtain ⟨hr, rfl⟩ := Prod.mk.inj h
  obtain rfl := Option.some.inj hr
  exact ⟨hc, id⟩

theorem pending : Triple C P (.pending : Call σ ε α) Q := by
  intro s r s' h
  cases h

theorem handle {f : Except ε α → Call σ ε β} {R : Except ε α → σ → Prop}
    {Q : Except ε β → σ → Prop} (hx : Triple C P x R) (hf : ∀ r, Triple C (R r) (f r) Q) :
    Triple C P (x.handle f) Q := by
  intro s b t h hc
  obtain ⟨r, s', hrun, hrest⟩ := Call.handle_eq_some.mp h
  obtain ⟨hc', hq⟩ := hf r s' b t hrest hc
  obtain ⟨hc'', hr⟩ := hx s r s' hrun hc'
  exact ⟨hc'', fun hp => hq (hr hp)⟩

theorem bind {f : α → Call σ ε β} {R : Except ε α → σ → Prop} {Q : Except ε β → σ → Prop}
    (hx : Triple C P x R) (hf : ∀ a, Triple C (R (.ok a)) (f a) Q)
    (herr : ∀ e s, R (.error e) s → Q (.error e) s) : Triple C P (x >>= f) Q := by
  refine hx.handle fun r => ?_
  cases r with
  | ok a => exact hf a
  | error e =>
    intro s r s' h hc
    obtain ⟨hr, rfl⟩ := Prod.mk.inj h
    obtain rfl := Option.some.inj hr
    exact ⟨hc, herr e s⟩

theorem weaken (h : Triple C P x Q) (hpre : ∀ s, C s → P' s → P s)
    (hpost : ∀ r s, C s → Q r s → Q' r s) : Triple C P' x Q' := by
  intro s r s' hrun hc
  obtain ⟨hc', hq⟩ := h s r s' hrun hc
  exact ⟨hc', fun hp => hpost r s' hc (hq (hpre s hc' hp))⟩

theorem pre (h : Triple C P x Q) (hpre : ∀ s, P' s → P s) : Triple C P' x Q :=
  h.weaken (fun s _ => hpre s) (fun _ _ _ => id)

theorem ite {c : Prop} [Decidable c] {y : Call σ ε α} (hx : c → Triple C P x Q)
    (hy : ¬ c → Triple C P y Q) : Triple C P (if c then x else y) Q := by
  split
  · rename_i h
    exact hx h
  · rename_i h
    exact hy h

theorem look_bind {f : σ → α} {g : α → Call σ ε β} {Q : Except ε β → σ → Prop}
    (h : ∀ a, Triple C (fun s => P s ∧ f s = a) (g a) Q) : Triple C P (Call.look f >>= g) Q := by
  intro s r s' hrun hc
  obtain ⟨hc', hq⟩ := h (f s) s r s' hrun hc
  exact ⟨hc', fun hp => hq ⟨hp, rfl⟩⟩

theorem change_bind {f : σ → σ} {g : Unit → Call σ ε β} {R : σ → Prop} {Q : Except ε β → σ → Prop}
    (hC : ∀ s, C (f s) → C s) (hf : ∀ s, C (f s) → P s → R (f s)) (hg : Triple C R (g ()) Q) :
    Triple C P (Call.change f >>= g) Q := by
  intro s r s' hrun hc
  obtain ⟨hc', hq⟩ := hg (f s) r s' hrun hc
  exact ⟨hC s hc', fun hp => hq (hf s hc' hp)⟩

theorem and (h : Triple C P x Q) (h' : Triple C P' x Q') :
    Triple C (fun s => P s ∧ P' s) x (fun r s => Q r s ∧ Q' r s) := by
  intro s r s' hrun hc
  obtain ⟨hc', hq⟩ := h s r s' hrun hc
  exact ⟨hc', fun hp => ⟨hq hp.1, (h' s r s' hrun hc).2 hp.2⟩⟩

end Triple

end Gftp.Calls
