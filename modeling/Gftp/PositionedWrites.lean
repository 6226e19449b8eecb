import Mathlib.Data.List.Infix
import Mathlib.Tactic.Common

/-!
Writes at positions of a file. Writes that are pieces of one text and cover it give the text in
whatever order they are made and however often, and leave what is outside of it.
-/

namespace Gftp.PositionedWrites

variable {α : Type*}

/-- Some data and the position they are written to. -/
structure Write (α : Type*) where
  pos : ℕ
  data : List α

/-- A file: what stands at each position. -/
abbrev Contents (α : Type*) := ℕ → Option α

def Write.Covers (w : Write α) (k : ℕ) : Prop := w.pos ≤ k ∧ k < w.pos + w.data.length

instance (w : Write α) (k : ℕ) : Decidable (w.Covers k) :=
  inferInstanceAs (Decidable (_ ∧ _))

/-- The file after a write. -/
def put (file : Contents α) (w : Write α) : Contents α := fun k =>
  if w.Covers k then w.data[k - w.pos]? else file k

/-- The file after some writes. -/
def putAll (file : Contents α) (ws : List (Write α)) : Contents α := ws.foldl put file

/-- The data are a part of the text that stands at a start. -/
def Piece (text : List α) (start : ℕ) (w : Write α) : Prop :=
  ∃ a, w.pos = start + a ∧ w.data <+: text.drop a

section Writes

variable {file : Contents α} {w : Write α} {ws : List (Write α)} {text : List α} {start k : ℕ}

theorem put_of_covers (h : w.Covers k) : put file w k = w.data[k - w.pos]? := if_pos h

theorem put_of_not_covers (h : ¬ w.Covers k) : put file w k = file k := if_neg h

theorem putAll_outside (h : ∀ w ∈ ws, ¬ w.Covers k) : putAll file ws k = file k := by
  induction ws generalizing file with
  | nil => rfl
  | cons w ws ih =>
    change putAll (put file w) ws k = file k
    rw [ih fun v hv => h v (List.mem_cons_of_mem _ hv)]
    exact put_of_not_covers (h w List.mem_cons_self)

/-- A position that some write covers has what one of the writes has put there. -/
theorem putAll_inside (h : ∃ w ∈ ws, w.Covers k) :
    ∃ w ∈ ws, w.Covers k ∧ putAll file ws k = w.data[k - w.pos]? := by
  induction ws generalizing file with
  | nil =>
    obtain ⟨w, hw, -⟩ := h
    exact absurd hw List.not_mem_nil
  | cons w ws ih =>
    change ∃ v ∈ w :: ws, v.Covers k ∧ putAll (put file w) ws k = v.data[k - v.pos]?
    by_cases hlater : ∃ v ∈ ws, v.Covers k
    · obtain ⟨v, hv, hcovers, hvalue⟩ := @ih (put file w) hlater
      exact ⟨v, List.mem_cons_of_mem _ hv, hcovers, hvalue⟩
    · have hfirst : w.Covers k := by
        obtain ⟨v, hv, hcovers⟩ := h
        rcases List.mem_cons.mp hv with rfl | hv
        · exact hcovers
        · exact absurd ⟨v, hv, hcovers⟩ hlater
      refine ⟨w, List.mem_cons_self, hfirst, ?_⟩
      rw [putAll_outside fun v hv hcovers => hlater ⟨v, hv, hcovers⟩]
      exact put_of_covers hfirst

/-- What a piece puts at a position is what the text has there. -/
theorem Piece.value (h : Piece text start w) (hcovers : w.Covers k) :
    start ≤ k ∧ k < start + text.length ∧ w.data[k - w.pos]? = text[k - start]? := by
  obtain ⟨a, hpos, hdata⟩ := h
  obtain ⟨hlow, hhigh⟩ := hcovers
  have hlength := hdata.length_le
  rw [List.length_drop] at hlength
  refine ⟨by omega, by omega, ?_⟩
  have hat : k - start = a + (k - w.pos) := by omega
  obtain ⟨rest, hrest⟩ := hdata
  rw [hat, ← List.getElem?_drop, ← hrest, List.getElem?_append_left (by omega)]

theorem Piece.append (h : Piece text start w) (more : List α) : Piece (text ++ more) start w := by
  obtain ⟨a, hpos, hdata⟩ := h
  refine ⟨a, hpos, hdata.trans ?_⟩
  rw [List.drop_append]
  exact List.prefix_append _ _

/-- The writes are pieces of the text and every position of it is covered. -/
theorem putAll_pieces (hpieces : ∀ w ∈ ws, Piece text start w)
    (hcovered : ∀ i < text.length, ∃ w ∈ ws, w.Covers (start + i)) (file : Contents α) :
    putAll file ws = put file ⟨start, text⟩ := by
  funext k
  by_cases hin : (⟨start, text⟩ : Write α).Covers k
  · obtain ⟨hlow, hhigh⟩ := hin
    dsimp only at hlow hhigh
    have hk : start + (k - start) = k := by omega
    have hsome := hcovered (k - start) (by omega)
    rw [hk] at hsome
    obtain ⟨w, hw, hcovers, hvalue⟩ := @putAll_inside α file ws k hsome
    rw [hvalue, put_of_covers ⟨hlow, hhigh⟩]
    exact ((hpieces w hw).value hcovers).2.2
  · rw [put_of_not_covers hin]
    refine putAll_outside fun w hw hcovers => hin ?_
    obtain ⟨hlow, hhigh, -⟩ := (hpieces w hw).value hcovers
    exact ⟨hlow, hhigh⟩

end Writes

end Gftp.PositionedWrites
