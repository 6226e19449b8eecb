import Gftp.TextFiles

/-!
gftp_scramble_password and gftp_descramble_password. A byte of a password becomes two
letters, each with four bits of it, so the text has no line feed, no carriage return and no
NUL whatever the password is; only the word for the email address is left as it is.
-/

namespace Gftp.Passwords

open ByteStrings

def scrambleByte (b : UInt8) : Bytes :=
  [(b >>> 2 &&& 0x3c) ||| 0x41, (b <<< 2 &&& 0x3c) ||| 0x41]

def emailWord : Bytes := ascii "@EMAIL@"

/-- gftp_scramble_password. -/
def gftpScramblePassword (password : Bytes) : Bytes :=
  if password = emailWord then password else 36 :: password.flatMap scrambleByte

/-- The loop over pairs of letters, none when one is not of the form of the scrambled ones. -/
def descrambleLoop : Bytes → Option Bytes
  | c :: d :: rest =>
      if c &&& 0xc3 ≠ 0x41 ∨ d &&& 0xc3 ≠ 0x41 then none
      else (descrambleLoop rest).map
        ((((c &&& 0x3c) <<< 2) ||| ((d &&& 0x3c) >>> 2)) :: ·)
  | _ => some []

/-- gftp_descramble_password: a password that is not scrambled is returned as it is. -/
def gftpDescramblePassword : Bytes → Bytes
  | [] => []
  | c :: passwordpos =>
      if c = 36 then
        match descrambleLoop passwordpos with
        | none => c :: passwordpos
        | some newstr => cstr newstr
      else c :: passwordpos

/-- A letter of a scrambled password. -/
def IsScrambled (c : UInt8) : Prop := c &&& 0xc3 = 0x41

set_option maxRecDepth 2000 in
theorem scrambled_letters (b : UInt8) :
    IsScrambled ((b >>> 2 &&& 0x3c) ||| 0x41) ∧ IsScrambled ((b <<< 2 &&& 0x3c) ||| 0x41) := by
  have hall : ∀ i : Fin 256, ((UInt8.ofNat i >>> 2 &&& 0x3c) ||| 0x41) &&& 0xc3 = 0x41 ∧
      ((UInt8.ofNat i <<< 2 &&& 0x3c) ||| 0x41) &&& 0xc3 = 0x41 := by decide
  simpa [IsScrambled] using hall ⟨b.toNat, b.toNat_lt⟩

set_option maxRecDepth 2000 in
theorem descramble_letters (b : UInt8) :
    (((b >>> 2 &&& 0x3c ||| 0x41) &&& 0x3c) <<< 2) |||
      (((b <<< 2 &&& 0x3c ||| 0x41) &&& 0x3c) >>> 2) = b := by
  have hall : ∀ i : Fin 256,
      (((UInt8.ofNat i >>> 2 &&& 0x3c ||| 0x41) &&& 0x3c) <<< 2) |||
        (((UInt8.ofNat i <<< 2 &&& 0x3c ||| 0x41) &&& 0x3c) >>> 2) = UInt8.ofNat i := by
    decide
  simpa using hall ⟨b.toNat, b.toNat_lt⟩

theorem descrambleLoop_scramble (password : Bytes) :
    descrambleLoop (password.flatMap scrambleByte) = some password := by
  induction password with
  | nil => rfl
  | cons b password ih =>
    obtain ⟨hhigh, hlow⟩ := scrambled_letters b
    unfold IsScrambled at hhigh hlow
    simp only [List.flatMap_cons, scrambleByte, List.cons_append, List.nil_append] at ih ⊢
    rw [descrambleLoop, if_neg (by simp only [hhigh, hlow, ne_eq, not_true, or_self,
      not_false_eq_true]), ih, Option.map_some, descramble_letters]

/-- Passwords are C strings, so they hold no NUL. -/
theorem descramble_scramble {password : Bytes} (h : 0 ∉ password) :
    gftpDescramblePassword (gftpScramblePassword password) = password := by
  unfold gftpScramblePassword
  split_ifs with hemail
  · rw [hemail]
    decide
  · rw [gftpDescramblePassword, if_pos rfl, descrambleLoop_scramble]
    exact cstr_eq_self h

theorem IsScrambled.ne {c : UInt8} (h : IsScrambled c) : c ≠ 0 ∧ c ≠ 10 ∧ c ≠ 13 := by
  unfold IsScrambled at h
  refine ⟨?_, ?_, ?_⟩ <;>
  · rintro rfl
    exact absurd h (by decide)

/-- What stands in the file for a password. -/
theorem scramble_bytes {password : Bytes} {c : UInt8} (hc : c ∈ gftpScramblePassword password) :
    c ≠ 0 ∧ c ≠ 10 ∧ c ≠ 13 := by
  unfold gftpScramblePassword at hc
  split_ifs at hc with hemail
  · have hword : ∀ d ∈ emailWord, d ≠ 0 ∧ d ≠ 10 ∧ d ≠ 13 := forall_of_all (by decide)
    exact hword c (hemail ▸ hc)
  · rw [List.mem_cons, List.mem_flatMap] at hc
    rcases hc with rfl | ⟨b, -, hc⟩
    · decide
    · obtain ⟨hhigh, hlow⟩ := scrambled_letters b
      simp only [scrambleByte, List.mem_cons, List.not_mem_nil, or_false] at hc
      rcases hc with rfl | rfl
      · exact hhigh.ne
      · exact hlow.ne

theorem scramble_getLast (password : Bytes) :
    (gftpScramblePassword password).getLast? ≠ some 13 := by
  intro hlast
  exact (scramble_bytes (List.mem_of_getLast? hlast)).2.2 rfl

end Gftp.Passwords
