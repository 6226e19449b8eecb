import Gftp.Base64
import Gftp.TextPointers

/-!
base64_encode, which rfc2068_send_command uses for the user name and the password. The
table is filled by loops, each group is taken from the string into three bytes that were
cleared, and the padding is written over the digits of the bytes that were missing.
-/

namespace Gftp.HttpCredentials

open ByteStrings TextPointers Base64

/-- The two loops over the letters and the digits, and the last two places. -/
def table : Bytes :=
  let letters := (List.range 26).foldl
    (fun t i => (t.set i (65 + UInt8.ofNat i)).set (i + 26) (97 + UInt8.ofNat i))
    (List.replicate 64 0)
  let figures := (List.range 10).foldl (fun t i => t.set (i + 52) (48 + UInt8.ofNat i)) letters
  (figures.set 62 43).set 63 47

/-- while (i < 3) fillpos[++i] = '=', with the number of rounds. -/
def fill (fillpos : ℕ) : ℕ → ℕ → Bytes → CRun Bytes
  | _, 0, newstr => .ok newstr
  | i, left + 1, newstr => do fill fillpos (i + 1) left (← overwrite newstr (fillpos + (i + 1)) [61])

/-- One group, of which taken bytes were left in the string. -/
def encodeGroup (newpos : ℕ) (taken newstr : Bytes) : CRun Bytes := do
  let encode (i : ℕ) : UInt8 := taken.getD i 0
  let entry (v : UInt8) : CRun UInt8 := deref (table.drop v.toNat)
  let first ← entry (encode 0 >>> 2)
  let second ← entry ((encode 0 &&& 3) <<< 4 ||| encode 1 >>> 4)
  let third ← entry ((encode 1 &&& 0xf) <<< 2 ||| encode 2 >>> 6)
  let fourth ← entry (encode 2 &&& 0x3f)
  fill newpos taken.length (3 - taken.length)
    (← overwrite newstr newpos [first, second, third, fourth])

/-- The loop over the groups of the string. -/
def encodeLoop (newpos : ℕ) : Bytes → Bytes → CRun Bytes
  | [], newstr => .ok newstr
  | [a], newstr => encodeGroup newpos [a] newstr
  | [a, b], newstr => encodeGroup newpos [a, b] newstr
  | a :: b :: c :: pos, newstr => do
      encodeLoop (newpos + 4) pos (← encodeGroup newpos [a, b, c] newstr)

/-- base64_encode. -/
def base64Encode (str : Bytes) : CRun Bytes := do
  let pos ← textAt str
  let slen := pos.length
  let num := slen / 3 + if 0 < slen % 3 then 1 else 0
  let newstr ← overwrite (List.replicate (num * 4 + 1) 0) (num * 4) [0]
  encodeLoop 0 pos newstr

theorem table_eq : table = alphabet := by decide

theorem entry_digit {v : UInt8} (h : v.toNat < 64) :
    deref (table.drop v.toNat) = .ok (digit v.toNat) := by
  have hlength : v.toNat < alphabet.length := h
  rw [table_eq, List.drop_eq_getElem_cons hlength, digit, List.getD_eq_getElem?_getD,
    List.getElem?_eq_getElem hlength]
  rfl

theorem first_value (a b c : UInt8) : (a >>> 2).toNat = group a b c / 2 ^ 18 := by
  have hb := b.toNat_lt
  have hc := c.toNat_lt
  have hshift : (a >>> 2).toNat = a.toNat / 4 := Nat.shiftRight_eq_div_pow a.toNat 2
  rw [hshift, group]
  omega

theorem or_value {x y k : ℕ} (hy : y < 2 ^ k) : x <<< k ||| y = x * 2 ^ k + y := by
  rw [← Nat.shiftLeft_add_eq_or_of_lt hy, Nat.shiftLeft_eq]

theorem second_value (a b c : UInt8) :
    ((a &&& 3) <<< 4 ||| b >>> 4).toNat = group a b c / 2 ^ 12 % 64 := by
  have hb := b.toNat_lt
  have hc := c.toNat_lt
  have hmask : (a &&& 3).toNat = a.toNat % 4 := Nat.and_two_pow_sub_one_eq_mod a.toNat 2
  have hleft : ((a &&& 3) <<< 4).toNat = (a.toNat % 4) <<< 4 := by
    have hfit : (a.toNat % 4) <<< 4 < 2 ^ 8 := by
      rw [Nat.shiftLeft_eq]
      omega
    have hshift : ((a &&& 3) <<< 4).toNat = (a &&& 3).toNat <<< 4 % 2 ^ 8 :=
      UInt8.toNat_shiftLeft ..
    rw [hshift, hmask, Nat.mod_eq_of_lt hfit]
  have hright : (b >>> 4).toNat = b.toNat / 16 := Nat.shiftRight_eq_div_pow b.toNat 4
  rw [UInt8.toNat_or, hleft, hright, or_value (by omega), group]
  omega

theorem third_value (a b c : UInt8) :
    ((b &&& 0xf) <<< 2 ||| c >>> 6).toNat = group a b c / 2 ^ 6 % 64 := by
  have hc := c.toNat_lt
  have hmask : (b &&& 0xf).toNat = b.toNat % 16 := Nat.and_two_pow_sub_one_eq_mod b.toNat 4
  have hleft : ((b &&& 0xf) <<< 2).toNat = (b.toNat % 16) <<< 2 := by
    have hfit : (b.toNat % 16) <<< 2 < 2 ^ 8 := by
      rw [Nat.shiftLeft_eq]
      omega
    have hshift : ((b &&& 0xf) <<< 2).toNat = (b &&& 0xf).toNat <<< 2 % 2 ^ 8 :=
      UInt8.toNat_shiftLeft ..
    rw [hshift, hmask, Nat.mod_eq_of_lt hfit]
  have hright : (c >>> 6).toNat = c.toNat / 64 := Nat.shiftRight_eq_div_pow c.toNat 6
  rw [UInt8.toNat_or, hleft, hright, or_value (by omega), group]
  omega

theorem fourth_value (a b c : UInt8) : (c &&& 0x3f).toNat = group a b c % 64 := by
  have hmask : (c &&& 0x3f).toNat = c.toNat % 64 := Nat.and_two_pow_sub_one_eq_mod c.toNat 6
  rw [hmask, group]
  omega

/-- A group in front of the zeros that are left: its digits, and padding over the digits of
the bytes that it has not. -/
theorem encodeGroup_eq (front taken rest : Bytes) (z : Bytes) (hz : z.length = 4) :
    encodeGroup front.length taken (front ++ (z ++ rest)) =
      fill front.length taken.length (3 - taken.length)
        (front ++ (digits (group (taken.getD 0 0) (taken.getD 1 0) (taken.getD 2 0)) ++ rest)) := by
  unfold encodeGroup
  dsimp only
  generalize taken.getD 0 0 = a
  generalize taken.getD 1 0 = b
  generalize taken.getD 2 0 = c
  have hgroup := group_lt a b c
  have hfirst := first_value a b c
  have hsecond := second_value a b c
  have hthird := third_value a b c
  have hfourth := fourth_value a b c
  rw [entry_digit (by omega), entry_digit (by omega), entry_digit (by omega),
    entry_digit (by omega), hfirst, hsecond, hthird, hfourth]
  simp only [CRun.ok_bind]
  rw [overwrite_middle rfl (by rw [hz]; rfl)]
  rfl

theorem encode_three (front rest : Bytes) (a b c : UInt8) (z : Bytes) (hz : z.length = 4) :
    encodeGroup front.length [a, b, c] (front ++ (z ++ rest)) =
      .ok (front ++ (digits (group a b c) ++ rest)) := by
  rw [encodeGroup_eq front [a, b, c] rest z hz]
  rfl

theorem overwrite_pad (front rest : Bytes) (d : UInt8) {off : ℕ} (h : off = front.length) :
    overwrite (front ++ d :: rest) off [pad] = .ok (front ++ pad :: rest) :=
  @overwrite_middle front [d] rest [pad] off h rfl

theorem encode_two (front rest : Bytes) (a b : UInt8) (z : Bytes) (hz : z.length = 4) :
    encodeGroup front.length [a, b] (front ++ (z ++ rest)) =
      .ok (front ++ (encode [a, b] ++ rest)) := by
  have hblock : front ++ (digits (group a b 0) ++ rest) =
      front ++ (digits (group a b 0)).take 3 ++ digit (group a b 0 % 64) :: rest := by
    rw [List.append_assoc]
    rfl
  have hlength : front.length + 3 = (front ++ (digits (group a b 0)).take 3).length := by
    rw [List.length_append]
    rfl
  rw [encodeGroup_eq front [a, b] rest z hz]
  show (do
    let newstr ← overwrite (front ++ (digits (group a b 0) ++ rest)) (front.length + 3) [pad]
    fill front.length 3 0 newstr) = _
  rw [hblock, overwrite_pad _ _ _ hlength, CRun.ok_bind, fill, encode]
  simp

theorem encode_one (front rest : Bytes) (a : UInt8) (z : Bytes) (hz : z.length = 4) :
    encodeGroup front.length [a] (front ++ (z ++ rest)) = .ok (front ++ (encode [a] ++ rest)) := by
  have hblock : front ++ (digits (group a 0 0) ++ rest) =
      front ++ (digits (group a 0 0)).take 2 ++
        digit (group a 0 0 / 2 ^ 6 % 64) :: digit (group a 0 0 % 64) :: rest := by
    rw [List.append_assoc]
    rfl
  have hthird : front.length + 2 = (front ++ (digits (group a 0 0)).take 2).length := by
    rw [List.length_append]
    rfl
  have hfourth : front.length + 3 = (front ++ (digits (group a 0 0)).take 2 ++ [pad]).length := by
    rw [List.length_append, ← hthird]
    rfl
  rw [encodeGroup_eq front [a] rest z hz]
  show (do
    let newstr ← overwrite (front ++ (digits (group a 0 0) ++ rest)) (front.length + 2) [pad]
    let newstr ← overwrite newstr (front.length + 3) [pad]
    fill front.length 3 0 newstr) = _
  rw [hblock, overwrite_pad _ _ _ hthird, CRun.ok_bind, ← List.singleton_append, ← List.append_assoc,
    overwrite_pad _ _ _ hfourth, CRun.ok_bind, fill, encode]
  simp

/-- What is left of the block is as long as the encoding of what is left of the string. -/
theorem encodeLoop_eq (str front : Bytes) :
    encodeLoop front.length str (front ++ (List.replicate (encode str).length 0 ++ [0])) =
      .ok (front ++ (encode str ++ [0])) := by
  induction str using encode.induct generalizing front with
  | case1 => rfl
  | case2 a => exact encode_one front [0] a _ rfl
  | case3 a b => exact encode_two front [0] a b _ rfl
  | case4 a b c rest ih =>
    have hzeros : List.replicate (encode (a :: b :: c :: rest)).length (0 : UInt8) =
        List.replicate 4 0 ++ List.replicate (encode rest).length 0 := by
      rw [encode, List.length_append, digits_length, List.replicate_add]
    have hfront := ih (front ++ digits (group a b c))
    rw [List.length_append, digits_length] at hfront
    rw [encodeLoop, hzeros, List.append_assoc, encode_three front _ a b c _ rfl, CRun.ok_bind,
      ← List.append_assoc front, hfront, encode]
    simp only [List.append_assoc]

theorem base64Encode_text {str : Bytes} (h : 0 ∉ str) (rest : Bytes) :
    base64Encode (str ++ 0 :: rest) = .ok (encode str ++ [0]) := by
  have hlength := encode_length str
  have hnum : (str.length / 3 + if 0 < str.length % 3 then 1 else 0) * 4 = (encode str).length := by
    split_ifs <;> omega
  have hblock : List.replicate ((encode str).length + 1) (0 : UInt8) =
      List.replicate (encode str).length 0 ++ ([0] ++ []) := by
    rw [List.replicate_succ', List.append_nil]
  unfold base64Encode
  rw [textAt_text h, CRun.ok_bind]
  dsimp only
  rw [hnum, hblock, overwrite_middle List.length_replicate.symm rfl, CRun.ok_bind]
  exact encodeLoop_eq str []

/-- The string is encoded as RFC 2045 says, with padding only at the right end, and is
decoded from that. -/
theorem credentials_encoded {str : Bytes} (h : 0 ∉ str) (rest : Bytes) :
    base64Encode (str ++ 0 :: rest) = .ok (encode str ++ [0]) ∧
      (encode str).length = 4 * ((str.length + 2) / 3) ∧
      (∃ front count, encode str = front ++ List.replicate count pad ∧
        (∀ d ∈ front, d ∈ alphabet) ∧ count < 3 ∧ (str.length + count) % 3 = 0) ∧
      decode (encode str) = some str :=
  ⟨base64Encode_text h rest, encode_length str, encode_padding str, decode_encode str⟩

/-- joe:s€ -/
theorem credentials_encoded_joe :
    base64Encode ([106, 111, 101, 58, 115, 0xe2, 0x82, 0xac] ++ 0 :: []) =
        .ok (encode [106, 111, 101, 58, 115, 0xe2, 0x82, 0xac] ++ [0]) ∧
      decode (encode [106, 111, 101, 58, 115, 0xe2, 0x82, 0xac]) =
        some [106, 111, 101, 58, 115, 0xe2, 0x82, 0xac] :=
  have h := @credentials_encoded [106, 111, 101, 58, 115, 0xe2, 0x82, 0xac] (by decide) []
  ⟨h.1, h.2.2.2⟩

end Gftp.HttpCredentials
