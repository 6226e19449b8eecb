import Gftp.ByteStrings
import Mathlib.Logic.Function.Basic

/-!
Files under names. A name refers to a file, which keeps its bytes while it is open
even when the name is removed or given to another file. No file has two names, and
the files given out so far are numbered below next.
-/

namespace Gftp.FileTable

open ByteStrings

structure Files (Path : Type) [DecidableEq Path] where
  names : Path → Option ℕ
  data : ℕ → Bytes
  next : ℕ
  bound : ∀ p i, names p = some i → i < next
  inj : ∀ p q i, names p = some i → names q = some i → p = q

variable {Path : Type} [DecidableEq Path]

/-- Bytes stored at an offset, with zeros in a gap. -/
def splice (content : Bytes) (off : ℕ) (src : Bytes) : Bytes :=
  content.take off ++ List.replicate (off - content.length) 0 ++ src ++
    content.drop (off + src.length)

theorem splice_end {content src : Bytes} {off : ℕ} (h : off = content.length) :
    splice content off src = content ++ src := by
  subst h
  simp [splice]

namespace Files

def none : Files Path where
  names := fun _ => .none
  data := fun _ => []
  next := 0
  bound := by simp
  inj := by simp

/-- The bytes under a name. -/
def read (fs : Files Path) (p : Path) : Option Bytes := (fs.names p).map fs.data

/-- O_CREAT without O_TRUNC: a file that is there is opened as it is. -/
def create (fs : Files Path) (p : Path) : Files Path × ℕ :=
  match h : fs.names p with
  | some i => (fs, i)
  | .none =>
      ({ names := Function.update fs.names p (some fs.next)
         data := Function.update fs.data fs.next []
         next := fs.next + 1
         bound := by
           intro q i hq
           by_cases hqp : q = p
           · subst hqp
             rw [Function.update_self] at hq
             obtain rfl := Option.some.inj hq
             exact Nat.lt_succ_self _
           · rw [Function.update_of_ne hqp] at hq
             exact Nat.lt_succ_of_lt (fs.bound q i hq)
         inj := by
           intro q r i hq hr
           by_cases hqp : q = p <;> by_cases hrp : r = p
           · exact hqp.trans hrp.symm
           · rw [hqp, Function.update_self] at hq
             rw [Function.update_of_ne hrp] at hr
             obtain rfl := Option.some.inj hq
             exact absurd (fs.bound r _ hr) (Nat.lt_irrefl _)
           · rw [Function.update_of_ne hqp] at hq
             rw [hrp, Function.update_self] at hr
             obtain rfl := Option.some.inj hr
             exact absurd (fs.bound q _ hq) (Nat.lt_irrefl _)
           · rw [Function.update_of_ne hqp] at hq
             rw [Function.update_of_ne hrp] at hr
             exact fs.inj q r i hq hr }, fs.next)

def writeAt (fs : Files Path) (i off : ℕ) (src : Bytes) : Files Path :=
  { fs with data := Function.update fs.data i (splice (fs.data i) off src) }

def append (fs : Files Path) (i : ℕ) (src : Bytes) : Files Path :=
  fs.writeAt i (fs.data i).length src

def unlink (fs : Files Path) (p : Path) : Files Path :=
  { fs with
    names := Function.update fs.names p .none
    bound := by
      intro q i hq
      by_cases hqp : q = p
      · simp [hqp] at hq
      · rw [Function.update_of_ne hqp] at hq
        exact fs.bound q i hq
    inj := by
      intro q r i hq hr
      by_cases hqp : q = p
      · simp [hqp] at hq
      · by_cases hrp : r = p
        · simp [hrp] at hr
        · rw [Function.update_of_ne hqp] at hq
          rw [Function.update_of_ne hrp] at hr
          exact fs.inj q r i hq hr }

/-- The file under p takes the name q, whatever q referred to. -/
def rename (fs : Files Path) (p q : Path) : Files Path :=
  match h : fs.names p with
  | .none => fs
  | some i =>
      { fs with
        names := Function.update (Function.update fs.names p .none) q (some i)
        bound := by
          intro r j hr
          by_cases hrq : r = q
          · rw [hrq, Function.update_self] at hr
            exact Option.some.inj hr ▸ fs.bound p i h
          · rw [Function.update_of_ne hrq] at hr
            by_cases hrp : r = p
            · simp [hrp] at hr
            · rw [Function.update_of_ne hrp] at hr
              exact fs.bound r j hr
        inj := by
          have hother : ∀ r j, r ≠ q →
              Function.update (Function.update fs.names p .none) q (some i) r = some j →
                fs.names r = some j ∧ r ≠ p := by
            intro r j hrq hr
            rw [Function.update_of_ne hrq] at hr
            by_cases hrp : r = p
            · simp [hrp] at hr
            · rw [Function.update_of_ne hrp] at hr
              exact ⟨hr, hrp⟩
          intro r r' j hr hr'
          by_cases hrq : r = q <;> by_cases hrq' : r' = q
          · exact hrq.trans hrq'.symm
          · rw [hrq, Function.update_self] at hr
            obtain rfl := Option.some.inj hr
            obtain ⟨hname, hne⟩ := hother r' _ hrq' hr'
            exact absurd (fs.inj r' p _ hname h) hne
          · rw [hrq', Function.update_self] at hr'
            obtain rfl := Option.some.inj hr'
            obtain ⟨hname, hne⟩ := hother r _ hrq hr
            exact absurd (fs.inj r p _ hname h) hne
          · exact fs.inj r r' j (hother r j hrq hr).1 (hother r' j hrq' hr').1 }

variable {fs : Files Path} {p q : Path}

theorem names_create_ne (h : q ≠ p) : (fs.create p).1.names q = fs.names q := by
  unfold create
  split
  · rfl
  · exact Function.update_of_ne h ..

theorem data_writeAt_end (fs : Files Path) {i off : ℕ} (src : Bytes)
    (h : off = (fs.data i).length) : (fs.writeAt i off src).data i = fs.data i ++ src := by
  simp only [writeAt, Function.update_self]
  exact splice_end h

@[simp] theorem names_writeAt (fs : Files Path) (i off : ℕ) (src : Bytes) :
    (fs.writeAt i off src).names = fs.names := rfl

@[simp] theorem data_unlink (fs : Files Path) (p : Path) : (fs.unlink p).data = fs.data := rfl

/-- After an open the name refers to the file, with its bytes, or to an empty one. -/
theorem create_self (fs : Files Path) (p : Path) :
    (fs.create p).1.names p = some (fs.create p).2 ∧
      (fs.create p).1.data (fs.create p).2 = (fs.read p).getD [] := by
  unfold create
  split
  · rename_i i hi
    exact ⟨hi, by simp [read, hi]⟩
  · rename_i hnone
    simp [read, hnone]

theorem create_free (h : fs.names p = .none) :
    (fs.create p).1.names p = some (fs.create p).2 ∧
      (fs.create p).1.data (fs.create p).2 = [] := by
  simpa [read, h] using create_self fs p

theorem read_create_ne (h : q ≠ p) : (fs.create p).1.read q = fs.read q := by
  unfold create
  split
  · rfl
  · simp only [read, Function.update_of_ne h]
    cases hq : fs.names q with
    | none => rfl
    | some i =>
      have hlt := fs.bound q i hq
      simp only [Option.map_some, Function.update_of_ne (Nat.ne_of_lt hlt)]

theorem read_append {i : ℕ} (h : fs.names p = some i) (src : Bytes) :
    (fs.append i src).read p = some (fs.data i ++ src) := by
  have hdata := fs.data_writeAt_end src (show (fs.data i).length = (fs.data i).length from rfl)
  simp only [read, append, names_writeAt, h, Option.map_some, hdata]

theorem names_unlink (fs : Files Path) (p q : Path) :
    (fs.unlink p).names q = if q = p then .none else fs.names q := by
  by_cases h : q = p
  · simp [unlink, h]
  · rw [if_neg h]
    exact Function.update_of_ne h ..

/-- A renamed file is found under its new name, and other names are as they were. -/
theorem rename_some {i : ℕ} (h : fs.names p = some i) :
    (fs.rename p q).data = fs.data ∧ (fs.rename p q).names q = some i ∧
      ∀ r, r ≠ p → r ≠ q → (fs.rename p q).names r = fs.names r := by
  unfold rename
  split
  · rename_i hnone
    simp [h] at hnone
  · rename_i j hj
    obtain rfl : i = j := Option.some.inj (h.symm.trans hj)
    refine ⟨rfl, Function.update_self .., fun r hrp hrq => ?_⟩
    show Function.update (Function.update fs.names p .none) q _ r = fs.names r
    rw [Function.update_of_ne hrq, Function.update_of_ne hrp]

theorem names_rename_self (h : p ≠ q) : (fs.rename p q).names p = .none := by
  unfold rename
  split
  · assumption
  · show Function.update (Function.update fs.names p .none) q _ p = .none
    rw [Function.update_of_ne h, Function.update_self]

end Files

end Gftp.FileTable
