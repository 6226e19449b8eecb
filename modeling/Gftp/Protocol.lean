import Gftp.ByteStrings
import Mathlib.Tactic.SplitIfs

/-!
What the protocol modules share: the negative results their functions return and
the record of one directory entry.
-/

namespace Gftp.Protocol

open ByteStrings

/-- The negative results of type int. other n is -6 - n, which has no name. -/
inductive GftpError
  | retryable
  | fatal
  | retryableNoWait
  | noTrans
  | timedOut
  | other (n : Fin 2147483643)
  deriving DecidableEq, Repr

namespace GftpError

def code : GftpError → ℤ
  | retryable => -1
  | fatal => -2
  | retryableNoWait => -3
  | noTrans => -4
  | timedOut => -5
  | other n => -6 - n.val

/-- The result that a negative int stands for. -/
def ofCode (n : ℤ) : GftpError :=
  if n = -1 then retryable
  else if n = -2 then fatal
  else if n = -3 then retryableNoWait
  else if n = -4 then noTrans
  else if n = -5 then timedOut
  else other (Fin.ofNat 2147483643 (-6 - n).toNat)

theorem code_bounds (e : GftpError) : -2 ^ 31 ≤ e.code ∧ e.code < 0 := by
  cases e with
  | other n =>
    have hn := n.isLt
    simp only [code]
    omega
  | _ => simp [code]

end GftpError

/-- The fields of a directory entry that a listing sets. -/
structure GftpFile where
  file : Option Bytes
  user : Option Bytes
  group : Option Bytes
  size : ℤ
  datetime : ℤ
  stMode : ℕ
  deriving DecidableEq

/-- gftp_file_destroy, and the memset before the first entry. -/
def GftpFile.cleared : GftpFile := ⟨none, none, none, 0, 0, 0⟩

end Gftp.Protocol
