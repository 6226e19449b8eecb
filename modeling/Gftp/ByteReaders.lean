import Gftp.BigEndian

/-!
Readers of binary data. A reader takes a value off the front of the bytes and leaves the
rest, or fails. It reads a value from an encoding when it does so whatever follows; the
rules put encodings of parts together. Nothing here refers to a program.
-/

namespace Gftp.ByteReaders

open ByteStrings BigEndian

abbrev Reader (α : Type) := StateT Bytes Option α

variable {α β : Type}

/-- In front of any bytes the reader takes exactly d and returns a. -/
def Reads (r : Reader α) (d : Bytes) (a : α) : Prop :=
  ∀ rest : Bytes, r.run (d ++ rest) = some (a, rest)

theorem Reads.pure (a : α) : Reads (pure a) [] a := fun _ => rfl

theorem Reads.bind {r : Reader α} {f : α → Reader β} {d d' : Bytes} {a : α} {b : β}
    (h : Reads r d a) (h' : Reads (f a) d' b) : Reads (r >>= f) (d ++ d') b := by
  intro rest
  have hrun : (r >>= f).run (d ++ (d' ++ rest)) = (f a).run (d' ++ rest) := by
    rw [StateT.run_bind, h]
    rfl
  rw [List.append_assoc, hrun, h']

/-- A last step that takes nothing. -/
theorem Reads.map {r : Reader α} {d : Bytes} {a : α} (h : Reads r d a) (f : α → β) :
    Reads (r >>= fun a => Pure.pure (f a)) d (f a) := by
  have hbind := @Reads.bind _ _ r (fun a => Pure.pure (f a)) d [] a (f a) h (Reads.pure (f a))
  rwa [List.append_nil] at hbind

/-- Read to the end. -/
theorem Reads.all {r : Reader α} {d : Bytes} {a : α} (h : Reads r d a) :
    r.run d = some (a, []) := by
  have hall := h []
  rwa [List.append_nil] at hall

def word : Reader UInt32 := fun d => (read32 d).map fun w => (w, d.drop 4)

def long : Reader UInt64 := do
  let high ← word
  let low ← word
  return high.toUInt64 <<< 32 ||| low.toUInt64

def take (n : ℕ) : Reader Bytes := fun d =>
  if n ≤ d.length then some (d.take n, d.drop n) else none

/-- Bytes behind their number. -/
def string : Reader Bytes := do
  let n ← word
  take n.toNat

/-- A part that is there or not. -/
def optional (c : Bool) (r : Reader α) : Reader (Option α) :=
  if c then do return some (← r) else return none

/-- Several values in a row. -/
def many (r : Reader α) : ℕ → Reader (List α)
  | 0 => return []
  | n + 1 => do
      let first ← r
      let others ← many r n
      return first :: others

theorem reads_word (w : UInt32) : Reads word (be32 w) w := by
  intro rest
  show word (be32 w ++ rest) = some (w, rest)
  unfold word
  rw [read32_be32]
  rfl

theorem reads_take (d : Bytes) : Reads (take d.length) d d := by
  intro rest
  show take d.length (d ++ rest) = some (d, rest)
  unfold take
  rw [if_pos (by rw [List.length_append]; exact Nat.le_add_right ..), List.take_left,
    List.drop_left]

theorem reads_string {w : UInt32} {s : Bytes} (h : w.toNat = s.length) :
    Reads string (be32 w ++ s) s := by
  refine (reads_word w).bind ?_
  rw [h]
  exact reads_take s

theorem long_of_words (n : UInt64) :
    (n >>> 32).toUInt32.toUInt64 <<< 32 ||| n.toUInt32.toUInt64 = n := by
  have hn := n.toNat_lt
  apply UInt64.toNat_inj.mp
  have hhigh : (n >>> 32).toUInt32.toNat = n.toNat / 2 ^ 32 := by
    rw [UInt64.toNat_toUInt32, UInt64.toNat_shiftRight]
    simp only [UInt64.reduceToNat, Nat.reduceMod, Nat.shiftRight_eq_div_pow]
    omega
  have hlow : n.toUInt32.toNat < 2 ^ 32 := n.toUInt32.toNat_lt
  rw [UInt64.toNat_or, UInt64.toNat_shiftLeft, UInt32.toNat_toUInt64, UInt32.toNat_toUInt64, hhigh,
    show (32 : UInt64).toNat % 64 = 32 from rfl, Nat.mod_eq_of_lt,
    ← Nat.shiftLeft_add_eq_or_of_lt hlow, Nat.shiftLeft_eq, UInt64.toNat_toUInt32]
  · exact Nat.div_add_mod' ..
  · rw [Nat.shiftLeft_eq]
    omega

theorem reads_long (n : UInt64) : Reads long (be64 n) n := by
  have hwords : Reads long (be64 n)
      ((n >>> 32).toUInt32.toUInt64 <<< 32 ||| n.toUInt32.toUInt64) := by
    unfold long be64
    refine (reads_word (n >>> 32).toUInt32).bind ?_
    exact (reads_word n.toUInt32).map fun low =>
      (n >>> 32).toUInt32.toUInt64 <<< 32 ||| low.toUInt64
  rwa [long_of_words] at hwords

theorem reads_optional {c : Bool} {r : Reader α} {d : Bytes} {a : α}
    (h : c = true → Reads r d a) :
    Reads (optional c r) (if c then d else []) (if c then some a else none) := by
  cases c with
  | true => exact (h rfl).map some
  | false => exact Reads.pure none

/-- Values whose encodings follow each other. -/
theorem reads_many {r : Reader α} {encode : α → Bytes} {l : List α}
    (h : ∀ a ∈ l, Reads r (encode a) a) : Reads (many r l.length) (l.flatMap encode) l := by
  induction l with
  | nil => exact Reads.pure []
  | cons a l ih =>
    rw [List.forall_mem_cons] at h
    rw [List.flatMap_cons]
    exact h.1.bind ((ih h.2).map fun others => a :: others)

end Gftp.ByteReaders
