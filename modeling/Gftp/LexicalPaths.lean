import Mathlib.Data.List.Basic
import Mathlib.Data.List.TakeWhile

/-!
Paths as texts of names between separators. The components of a path are its names that are
not empty. They are resolved from the left, a name for the directory itself being dropped
and one for the parent taking away the last component kept. Nothing here refers to a program.
-/

namespace Gftp.LexicalPaths

variable {α : Type} [DecidableEq α]

def components (sep : α) (path : List α) : List (List α) := (path.splitOn sep).filter (· ≠ [])

def resolveStep (here up : List α) (kept : List (List α)) (name : List α) : List (List α) :=
  if name = up then kept.dropLast else if name = here then kept else kept ++ [name]

/-- The components that are kept, in order. -/
def resolve (here up : List α) (names : List (List α)) : List (List α) :=
  names.foldl (resolveStep here up) []

/-- A name and the separators in front of it. -/
structure Piece (α : Type) where
  slashes : ℕ
  name : List α
  deriving DecidableEq

def Piece.text (sep : α) (p : Piece α) : List α := List.replicate p.slashes sep ++ p.name

structure Piece.WellFormed (sep : α) (p : Piece α) : Prop where
  slashes_pos : 0 < p.slashes
  name_ne_nil : p.name ≠ []
  separated : sep ∉ p.name

/-- Pieces one after the other, and the separators at the end. -/
def pathText (sep : α) (pieces : List (Piece α)) (tail : ℕ) : List α :=
  pieces.flatMap (Piece.text sep) ++ List.replicate tail sep

/-- A path that begins with a separator. -/
structure AbsolutePath (sep : α) where
  pieces : List (Piece α)
  tail : ℕ
  wellFormed : ∀ p ∈ pieces, p.WellFormed sep
  nonempty : pieces ≠ [] ∨ tail ≠ 0

def AbsolutePath.text {sep : α} (p : AbsolutePath sep) : List α := pathText sep p.pieces p.tail

variable {sep : α} {name path : List α} {piece : Piece α} {pieces : List (Piece α)} {tail : ℕ}

omit [DecidableEq α] in
theorem pathText_cons : pathText sep (piece :: pieces) tail =
    List.replicate piece.slashes sep ++ (piece.name ++ pathText sep pieces tail) := by
  simp [pathText, Piece.text]

omit [DecidableEq α] in
theorem pathText_nil : pathText sep [] tail = List.replicate tail sep := rfl

omit [DecidableEq α] in
theorem pathText_eq_nil (h : ∀ p ∈ pieces, p.WellFormed sep) :
    pathText sep pieces tail = [] ↔ pieces = [] ∧ tail = 0 := by
  cases pieces with
  | nil => simp [pathText]
  | cons p pieces =>
    have hp := (h p (List.mem_cons_self ..)).name_ne_nil
    simp [pathText_cons, hp]

omit [DecidableEq α] in
theorem pathText_head (h : ∀ p ∈ pieces, p.WellFormed sep)
    (hne : pieces ≠ [] ∨ tail ≠ 0) : ∃ rest, pathText sep pieces tail = sep :: rest := by
  cases pieces with
  | nil =>
    obtain ⟨k, rfl⟩ := Nat.exists_eq_succ_of_ne_zero (hne.resolve_left (absurd rfl))
    exact ⟨List.replicate k sep, List.replicate_succ ..⟩
  | cons p pieces =>
    have hpos := (h p (List.mem_cons_self ..)).slashes_pos
    obtain ⟨k, hk⟩ := Nat.exists_eq_succ_of_ne_zero (Nat.ne_of_gt hpos)
    rw [pathText_cons, hk, List.replicate_succ]
    exact ⟨_, rfl⟩

omit [DecidableEq α] in
theorem length_le_pathText (h : ∀ p ∈ pieces, p.WellFormed sep) :
    pieces.length ≤ (pathText sep pieces tail).length := by
  induction pieces with
  | nil => exact Nat.zero_le _
  | cons p pieces ih =>
    rw [List.forall_mem_cons] at h
    have hle := ih h.2
    have hpos := h.1.slashes_pos
    simp only [pathText_cons, List.length_cons, List.length_append, List.length_replicate]
    omega

@[simp] theorem components_nil : components sep [] = [] := by simp [components]

@[simp] theorem components_sep (path : List α) :
    components sep (sep :: path) = components sep path := by
  unfold components
  rw [List.splitOn_cons_eq_if_modifyHead, if_pos (beq_self_eq_true sep)]
  simp

theorem components_replicate (k : ℕ) (path : List α) :
    components sep (List.replicate k sep ++ path) = components sep path := by
  induction k with
  | zero => rfl
  | succ k ih => rw [List.replicate_succ, List.cons_append, components_sep, ih]

theorem components_single (hsep : sep ∉ name) (hne : name ≠ []) :
    components sep name = [name] := by
  unfold components
  rw [List.splitOn_eq_singleton hsep]
  simp [hne]

theorem components_name (hsep : sep ∉ name) (hne : name ≠ []) (path : List α) :
    components sep (name ++ sep :: path) = name :: components sep path := by
  unfold components
  rw [List.splitOn_append_cons_self_of_not_mem hsep]
  simp [hne]

/-- A separator keeps the names in front of it and behind it apart. -/
theorem components_append (front path : List α) :
    components sep (front ++ sep :: path) = components sep front ++ components sep path := by
  unfold components
  rw [List.splitOn_append_cons_self, List.filter_append]

theorem components_flatten (path : List α) : (components sep path).flatten = path.filter (· ≠ sep) := by
  rw [components, List.flatten_filter_ne_nil]
  induction path with
  | nil => simp
  | cons b path ih =>
    obtain ⟨name, names, hsplit⟩ := List.exists_cons_of_ne_nil (List.splitOn_ne_nil sep path)
    rw [List.splitOn_cons_eq_if_modifyHead]
    rw [hsplit] at ih ⊢
    by_cases hb : b = sep <;> simpa [hb] using ih

theorem components_pathText (h : ∀ p ∈ pieces, p.WellFormed sep) :
    components sep (pathText sep pieces tail) = pieces.map Piece.name := by
  induction pieces with
  | nil =>
    have hslashes := @components_replicate _ _ sep tail []
    rw [List.append_nil] at hslashes
    rw [pathText_nil, hslashes]
    simp
  | cons p pieces ih =>
    rw [List.forall_mem_cons] at h
    obtain ⟨hp, h⟩ := h
    rw [pathText_cons, components_replicate, List.map_cons, ← ih h]
    by_cases hend : pieces = [] ∧ tail = 0
    · rw [(pathText_eq_nil h).mpr hend, List.append_nil, components_nil,
        components_single hp.separated hp.name_ne_nil]
    · obtain ⟨rest, hrest⟩ := pathText_head h (not_and_or.mp hend)
      rw [hrest, components_name hp.separated hp.name_ne_nil, components_sep]

theorem exists_pieces (sep : α) (path : List α) :
    ∃ front pieces tail, sep ∉ front ∧ (∀ p ∈ pieces, Piece.WellFormed sep p) ∧
      path = front ++ pathText sep pieces tail := by
  induction path with
  | nil => exact ⟨[], [], 0, by simp, by simp, rfl⟩
  | cons c path ih =>
    obtain ⟨front, pieces, tail, hfront, hpieces, rfl⟩ := ih
    by_cases hc : c = sep
    · subst hc
      by_cases hne : front = []
      · subst hne
        cases pieces with
        | nil => exact ⟨[], [], tail + 1, by simp, by simp, by simp [pathText_nil, List.replicate_succ]⟩
        | cons p pieces =>
          rw [List.forall_mem_cons] at hpieces
          refine ⟨[], { p with slashes := p.slashes + 1 } :: pieces, tail, by simp, ?_, ?_⟩
          · rw [List.forall_mem_cons]
            exact ⟨⟨Nat.succ_pos _, hpieces.1.name_ne_nil, hpieces.1.separated⟩, hpieces.2⟩
          · simp [pathText_cons, List.replicate_succ]
      · refine ⟨[], ⟨1, front⟩ :: pieces, tail, by simp, ?_, ?_⟩
        · rw [List.forall_mem_cons]
          exact ⟨⟨Nat.one_pos, hne, hfront⟩, hpieces⟩
        · simp [pathText_cons]
    · refine ⟨c :: front, pieces, tail, ?_, hpieces, rfl⟩
      simp [hfront, Ne.symm hc]

theorem AbsolutePath.exists_text (h : path.head? = some sep) :
    ∃ p : AbsolutePath sep, p.text = path := by
  obtain ⟨front, pieces, tail, hfront, hpieces, rfl⟩ := exists_pieces sep path
  cases front with
  | nil =>
    refine ⟨⟨pieces, tail, hpieces, ?_⟩, rfl⟩
    by_contra hempty
    rw [not_or, not_ne_iff, not_ne_iff] at hempty
    rw [List.nil_append, (pathText_eq_nil hpieces).mpr hempty] at h
    cases h
  | cons c front =>
    rw [List.cons_append, List.head?_cons] at h
    exact absurd (Option.some.inj h ▸ List.mem_cons_self ..) hfront

/-- The first name of a path, and the names behind its separators. -/
theorem exists_names (sep : α) (path : List α) :
    ∃ front names, path.splitOn sep = front :: names ∧ path = front ++ names.flatMap (sep :: ·) ∧
      sep ∉ front ∧ ∀ name ∈ names, sep ∉ name := by
  induction path with
  | nil => exact ⟨[], [], by simp, rfl, by simp, by simp⟩
  | cons c path ih =>
    obtain ⟨front, names, hsplit, hpath, hfront, hnames⟩ := ih
    rw [List.splitOn_cons_eq_if_modifyHead, hsplit]
    by_cases hc : c = sep
    · refine ⟨[], front :: names, ?_, ?_, by simp, ?_⟩
      · rw [if_pos (beq_iff_eq.mpr hc)]
      · simp [hc, hpath]
      · exact List.forall_mem_cons.mpr ⟨hfront, hnames⟩
    · refine ⟨c :: front, names, ?_, ?_, ?_, hnames⟩
      · rw [if_neg (by simpa using hc)]
        rfl
      · simp [hpath]
      · simp [hfront, Ne.symm hc]

end Gftp.LexicalPaths
