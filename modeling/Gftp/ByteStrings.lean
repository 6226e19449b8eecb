import Mathlib.Algebra.Group.Int.Defs
import Mathlib.Algebra.Group.Nat.Defs
import Mathlib.Data.List.Basic
import Mathlib.Data.List.TakeWhile

/-!
Byte strings and bounded buffers. A C string is the part of a block before its
first NUL. A block copy succeeds only inside the block, keeps the block's size and
changes exactly the copied range. A function that can leave its blocks or run
without end returns in CRun. Nothing here refers to a program.
-/

namespace Gftp.ByteStrings

abbrev Bytes := List UInt8

/-- How a C function fails to return: it reads or writes outside a block, or it has
not returned within the number of steps it was given. -/
inductive Stop
  | fault
  | pending
  deriving DecidableEq, Repr

abbrev CRun (α : Type) := Except Stop α

theorem CRun.bind_eq_ok {α β : Type} {x : CRun α} {f : α → CRun β} {b : β} :
    x >>= f = .ok b ↔ ∃ a, x = .ok a ∧ f a = .ok b := by
  cases x <;> simp [bind, Except.bind]

@[simp] theorem CRun.ok_bind {α β : Type} (a : α) (f : α → CRun β) :
    (Except.ok a : CRun α) >>= f = f a := rfl

@[simp] theorem CRun.error_bind {α β : Type} (e : Stop) (f : α → CRun β) :
    (Except.error e : CRun α) >>= f = .error e := rfl

/-- The bytes of a text literal. -/
def ascii (s : String) : Bytes := s.toList.map fun c => UInt8.ofNat c.toNat

theorem forall_of_all {l : Bytes} {p : UInt8 → Prop} [DecidablePred p]
    (h : (l.all fun b => decide (p b)) = true) : ∀ b ∈ l, p b := by
  simpa using h

/-- The string a C function sees in a block: everything before the first NUL. -/
def cstr (l : Bytes) : Bytes := l.takeWhile (· ≠ 0)

theorem nul_not_mem_cstr (l : Bytes) : 0 ∉ cstr l := by
  intro h
  simpa using List.mem_takeWhile_imp h

theorem cstr_eq_self {l : Bytes} (h : 0 ∉ l) : cstr l = l := by
  apply List.takeWhile_eq_self_iff.mpr
  intro b hb
  simpa using fun he : b = 0 => h (he ▸ hb)

theorem cstr_append_nul {l : Bytes} (h : 0 ∉ l) (rest : Bytes) : cstr (l ++ 0 :: rest) = l := by
  unfold cstr
  rw [List.takeWhile_append_of_pos (fun b hb => by simpa using fun he : b = 0 => h (he ▸ hb))]
  simp

theorem cstr_length_le (l : Bytes) : (cstr l).length ≤ l.length :=
  (List.takeWhile_sublist _).length_le

/-- A C string as a value: bytes without a NUL. -/
structure CString where
  bytes : Bytes
  nul_free : 0 ∉ bytes

instance : DecidableEq CString := fun a b =>
  decidable_of_iff (a.bytes = b.bytes) (by cases a; cases b; simp)

def CString.empty : CString := ⟨[], List.not_mem_nil⟩

/-- Copying src into a block at an offset, a fault outside the block. -/
def overwrite (block : Bytes) (off : ℕ) (src : Bytes) : CRun Bytes :=
  if off + src.length ≤ block.length then
    .ok (block.take off ++ (src ++ block.drop (off + src.length)))
  else .error .fault

theorem overwrite_eq_ok_iff {block src out : Bytes} {off : ℕ} :
    overwrite block off src = .ok out ↔
      off + src.length ≤ block.length ∧
        out = block.take off ++ (src ++ block.drop (off + src.length)) := by
  unfold overwrite
  split
  · rename_i h
    simp [h, eq_comm]
  · rename_i h
    simp [h]

theorem overwrite_fault {block src : Bytes} {off : ℕ} (h : block.length < off + src.length) :
    overwrite block off src = .error .fault := by
  unfold overwrite
  rw [if_neg (by omega)]

theorem overwrite_length {block src out : Bytes} {off : ℕ}
    (h : overwrite block off src = .ok out) : out.length = block.length := by
  obtain ⟨hle, rfl⟩ := overwrite_eq_ok_iff.mp h
  simp only [List.length_append, List.length_take, List.length_drop]
  omega

theorem overwrite_ok {block src : Bytes} {off : ℕ} (h : off + src.length ≤ block.length) :
    overwrite block off src = .ok (block.take off ++ (src ++ block.drop (off + src.length))) :=
  overwrite_eq_ok_iff.mpr ⟨h, rfl⟩

/-- A copy into the middle of a displayed block replaces exactly that part. -/
theorem overwrite_middle {pre old post src : Bytes} {off : ℕ} (hoff : off = pre.length)
    (h : src.length = old.length) :
    overwrite (pre ++ (old ++ post)) off src = .ok (pre ++ (src ++ post)) := by
  subst hoff
  apply overwrite_eq_ok_iff.mpr
  constructor
  · simp only [List.length_append]
    omega
  · simp [h]

end Gftp.ByteStrings
