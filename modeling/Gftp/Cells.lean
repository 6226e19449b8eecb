import Gftp.ByteStreams

/-!
Blocks of cells. A cell is a byte, or a byte with a mark that says where it came from.
A program reads only the byte of a cell and moves whole cells, so one definition of a
program runs on bytes and on marked bytes, and what holds of every cell it was given
holds of every cell it leaves. Nothing here refers to a program.
-/

namespace Gftp.Cells

open ByteStrings ByteStreams

/-- What a program sees of a cell, and the cell it stores as a terminator. -/
class Cell (κ : Type) where
  byte : κ → UInt8
  nul : κ
  byte_nul : byte nul = 0

open Cell

attribute [simp] byte_nul

instance : Cell UInt8 where
  byte b := b
  nul := 0
  byte_nul := rfl

@[simp] theorem byte_uint8 (b : UInt8) : byte b = b := rfl

@[simp] theorem nul_uint8 : (nul : UInt8) = 0 := rfl

/-- A byte with the number of the source it came from, none for a byte of the program. -/
structure Marked where
  byte : UInt8
  origin : Option ℕ
  deriving DecidableEq

instance : Cell Marked where
  byte := Marked.byte
  nul := ⟨0, none⟩
  byte_nul := rfl

variable {κ ε : Type}

/-- The C string at the front of a block. -/
def text [Cell κ] (l : List κ) : List κ := l.takeWhile fun c => byte c ≠ 0

def byteAt [Cell κ] (block : List κ) (i : ℕ) : Option UInt8 := (block[i]?).map byte

/-- Copying src into a block at an offset, a fault outside the block. -/
def store (block : List κ) (off : ℕ) (src : List κ) : CRun (List κ) :=
  if off + src.length ≤ block.length then
    .ok (block.take off ++ (src ++ block.drop (off + src.length)))
  else .error .fault

theorem store_eq_ok_iff {block src out : List κ} {off : ℕ} :
    store block off src = .ok out ↔
      off + src.length ≤ block.length ∧
        out = block.take off ++ (src ++ block.drop (off + src.length)) := by
  unfold store
  split
  · rename_i h
    simp [h, eq_comm]
  · rename_i h
    simp [h]

theorem store_length {block src out : List κ} {off : ℕ} (h : store block off src = .ok out) :
    out.length = block.length := by
  obtain ⟨hle, hout⟩ := store_eq_ok_iff.mp h
  subst hout
  simp only [List.length_append, List.length_take, List.length_drop]
  omega

/-- A stored block has no cell that neither the block nor the source had. -/
theorem store_forall {P : κ → Prop} {block src out : List κ} {off : ℕ}
    (h : store block off src = .ok out) (hblock : ∀ c ∈ block, P c) (hsrc : ∀ c ∈ src, P c) :
    ∀ c ∈ out, P c := by
  obtain ⟨-, rfl⟩ := store_eq_ok_iff.mp h
  intro c hc
  rcases List.mem_append.mp hc with hc | hc
  · exact hblock c (List.mem_of_mem_take hc)
  · rcases List.mem_append.mp hc with hc | hc
    · exact hsrc c hc
    · exact hblock c (List.mem_of_mem_drop hc)

theorem store_drop {block src out : List κ} {off k : ℕ} (h : store block off src = .ok out)
    (hk : off + src.length ≤ k) : out.drop k = block.drop k := by
  obtain ⟨hle, rfl⟩ := store_eq_ok_iff.mp h
  rw [← List.append_assoc, List.drop_append, List.drop_eq_nil_of_le, List.nil_append,
    List.drop_drop]
  · congr 1
    simp only [List.length_append, List.length_take]
    omega
  · simp only [List.length_append, List.length_take]
    omega

theorem store_take {block src out : List κ} {off k : ℕ} (h : store block off src = .ok out)
    (hk : k ≤ off) : out.take k = block.take k := by
  obtain ⟨hle, rfl⟩ := store_eq_ok_iff.mp h
  rw [List.take_append_of_le_length (by rw [List.length_take]; omega), List.take_take,
    Nat.min_eq_left hk]

/-- The front of a block up to the end of what was stored in it. -/
theorem store_take_end {block src out : List κ} {off n : ℕ} (h : store block off src = .ok out)
    (hn : n ≤ src.length) : out.take (off + n) = block.take off ++ src.take n := by
  obtain ⟨hle, rfl⟩ := store_eq_ok_iff.mp h
  have hlen : (block.take off).length = off := by
    rw [List.length_take]
    omega
  rw [List.take_append, hlen, List.take_of_length_le (by omega), Nat.add_sub_cancel_left,
    List.take_append_of_le_length hn]

theorem store_bytes (block src : Bytes) (off : ℕ) : store block off src = overwrite block off src :=
  rfl

@[simp] theorem byteAt_bytes (block : Bytes) (i : ℕ) : byteAt block i = block[i]? := by
  cases h : block[i]? <;> simp [byteAt, h]

theorem text_bytes (l : Bytes) : text l = cstr l := rfl

theorem mem_of_mem_text [Cell κ] {l : List κ} {c : κ} (h : c ∈ text l) : c ∈ l :=
  (List.takeWhile_sublist _).subset h

/-- The results of successive reads of cells, as for a stream of bytes. -/
abbrev CellStream (ε κ : Type) := List (Except ε (List κ))

/-- One read of at most n cells; the empty block is end of file. -/
def readCells (n : ℕ) : CellStream ε κ → Except ε (List κ) × CellStream ε κ
  | [] => (.ok [], [])
  | .error e :: rest => (.error e, rest)
  | .ok d :: rest =>
      if d.length ≤ n then (.ok d, rest) else (.ok (d.take n), .ok (d.drop n) :: rest)

theorem readCells_bytes (n : ℕ) (s : Stream ε) : readCells n s = readSome n s := by
  cases s with
  | nil => rfl
  | cons r rest => cases r <;> rfl

/-- The cells a stream still holds. -/
def held : CellStream ε κ → List κ
  | [] => []
  | .error _ :: rest => held rest
  | .ok d :: rest => d ++ held rest

theorem readCells_held {n : ℕ} {s s' : CellStream ε κ} {d : List κ}
    (h : readCells n s = (.ok d, s')) : held s = d ++ held s' := by
  unfold readCells at h
  split at h
  · simp only [Prod.mk.injEq, Except.ok.injEq] at h
    obtain ⟨rfl, rfl⟩ := h
    rfl
  · simp at h
  · split at h <;>
    · simp only [Prod.mk.injEq, Except.ok.injEq] at h
      obtain ⟨rfl, rfl⟩ := h
      simp [held, ← List.append_assoc]

end Gftp.Cells
