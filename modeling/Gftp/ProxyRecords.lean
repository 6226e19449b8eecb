import Gftp.Hexadecimal
import Gftp.ProxyBypass
import Gftp.TextIndices

/-!
The lines dont_use_proxy of the configuration: gftp_config_write_proxy writes a domain or a
network address with its mask, gftp_config_read_proxy tells the two apart by the slash. The
address is a gint32, so the writer shifts it with its sign.
-/

namespace Gftp.ProxyRecords

open ByteStrings Decimal Hexadecimal ProxyBypass TextIndices TextPointers

/-- %u of sscanf: the number as an unsigned int and the text behind it. -/
def scanU (text : Bytes) : Option (UInt32 × Bytes) :=
  let text := text.dropWhile isSpace
  let sign := text.head? = some 45
  let text := if sign ∨ text.head? = some 43 then text.tail else text
  let digits := text.takeWhile isDigit
  if digits = [] then none
  else some (UInt32.ofNat (unsignedLong sign (digitsValue digits)), text.dropWhile isDigit)

/-- %u.%u.%u.%u of sscanf, which stores the numbers up to the first that is not there. -/
def scanDotted (text : Bytes) : List (Fin 4) → Vector UInt32 4 → Vector UInt32 4
  | [], nums => nums
  | i :: places, nums =>
      match scanU text with
      | none => nums
      | some (value, rest) =>
          if rest.head? = some 46 then scanDotted rest.tail places (nums.set i value)
          else nums.set i value

def address (nums : Vector UInt32 4) : UInt32 :=
  nums[0] <<< 24 ||| nums[1] <<< 16 ||| nums[2] <<< 8 ||| nums[3]

/-- The mask with a number of leading ones. A shift by 32 or more, or by less than 0, is not
defined and counts as a fault. -/
def leadingOnes (n : ℤ) : CRun UInt32 :=
  if 0 ≤ 32 - n ∧ 32 - n < 32 then return 0xffffffff <<< UInt32.ofInt (32 - n)
  else .error .fault

/-- gftp_config_read_proxy with the line it writes to; nums is what was on the stack. -/
def gftpConfigReadProxy (nums : Vector UInt32 4) (buf : Bytes) : CRun (Bytes × ProxyHost) := do
  match ← strchr buf 0 47 with
  | none => return (buf, ⟨0, 0, some (← textFrom buf 0)⟩)
  | some pos =>
      let buf ← writeAt buf pos 0
      let nums := scanDotted (← textFrom buf 0) [0, 1, 2, 3] nums
      match ← strchr buf (pos + 1) 46 with
      | none =>
          let netmask ← leadingOnes (strtol (← textFrom buf (pos + 1)))
          return (buf, ⟨address nums, netmask, none⟩)
      | some _ =>
          let parts := scanDotted (← textFrom buf (pos + 1)) [0, 1, 2, 3] nums
          return (buf, ⟨address nums, address parts, none⟩)

/-- A byte of an address, as an int. -/
def octet (n : UInt32) (shift : Int32) : ℤ := (n.toInt32 >>> shift &&& 0xff).toInt

/-- %d.%d.%d.%d of fprintf. -/
def printDotted (n : UInt32) : Bytes :=
  decimal (octet n 24) ++ 46 :: (decimal (octet n 16) ++ 46 :: (decimal (octet n 8) ++ 46 ::
    decimal (octet n 0)))

/-- gftp_config_write_proxy. -/
def gftpConfigWriteProxy (host : ProxyHost) : Bytes :=
  match host.domain with
  | some domain => domain
  | none => printDotted host.ipv4NetworkAddress ++ 47 :: printDotted host.ipv4Netmask

/-- A record whose domain, when it has one, can stand in a line of the file. -/
def Writable (host : ProxyHost) : Prop :=
  ∀ domain, host.domain = some domain → domain ≠ [] ∧ 0 ∉ domain ∧ 47 ∉ domain ∧ 10 ∉ domain

/-- The same domain, or the same address and mask. -/
def SameRecord (host host' : ProxyHost) : Prop :=
  host'.domain = host.domain ∧ (host.domain = none → host' = host)

/-- Shifting with the sign or without it makes no difference to a byte inside the word. -/
theorem octet_bits (x : BitVec 32) {k : ℕ} (hk : k + 8 ≤ 32) :
    (x.sshiftRight k &&& 255#32) = BitVec.ofNat 32 (x.toNat / 2 ^ k % 2 ^ 8) := by
  have hones : (255#32 : BitVec 32) = BitVec.ofNat 32 (2 ^ 8 - 1) := rfl
  apply BitVec.eq_of_getLsbD_eq
  intro i hi
  rw [hones, BitVec.getLsbD_and, BitVec.getLsbD_sshiftRight, BitVec.getLsbD_ofNat,
    BitVec.getLsbD_ofNat, Nat.testBit_two_pow_sub_one, Nat.testBit_mod_two_pow,
    Nat.testBit_div_two_pow]
  by_cases h8 : i < 8
  · have hin : k + i < 32 := by omega
    simp [h8, hi, hin, BitVec.getLsbD, Nat.add_comm]
  · simp [h8]

/-- The byte of a word at a shift. -/
def byteAt (n : UInt32) (k : ℕ) : ℕ := n.toNat / 2 ^ k % 2 ^ 8

theorem byteAt_lt (n : UInt32) (k : ℕ) : byteAt n k < 256 := Nat.mod_lt _ (by decide)

theorem octet_eq (n : UInt32) {k : ℕ} {shift : Int32} (hk : k + 8 ≤ 32)
    (hshift : (shift.toBitVec.smod 32).toNat = k) : octet n shift = byteAt n k := by
  have hbits : (n.toInt32 >>> shift &&& 0xff).toBitVec = BitVec.ofNat 32 (byteAt n k) := by
    rw [Int32.toBitVec_and, Int32.toBitVec_shiftRight, BitVec.sshiftRight_eq', hshift]
    exact octet_bits n.toBitVec hk
  have hlt := byteAt_lt n k
  rw [octet, ← Int32.toInt_toBitVec, hbits, BitVec.toInt_eq_toNat_of_lt]
  · rw [BitVec.toNat_ofNat]
    omega
  · rw [BitVec.toNat_ofNat]
    omega

theorem or_eq_add {y k : ℕ} (x : ℕ) (h : y < 2 ^ k) : x * 2 ^ k ||| y = x * 2 ^ k + y := by
  rw [← Nat.shiftLeft_eq, Nat.shiftLeft_add_eq_or_of_lt h]

theorem toNat_shift {v k : ℕ} {shift : UInt32} (hv : v < 256) (hk : k + 8 ≤ 32)
    (hshift : shift.toNat % 32 = k) : (UInt32.ofNat v <<< shift).toNat = v * 2 ^ k := by
  have hlt : v * 2 ^ k < 2 ^ 32 :=
    calc v * 2 ^ k < 2 ^ 8 * 2 ^ k := Nat.mul_lt_mul_of_pos_right hv (Nat.two_pow_pos k)
      _ = 2 ^ (8 + k) := (pow_add 2 8 k).symm
      _ ≤ 2 ^ 32 := Nat.pow_le_pow_right (by decide) (by omega)
  have hfits : v < 2 ^ 32 := by omega
  rw [UInt32.toNat_shiftLeft, UInt32.toNat_ofNat', hshift, Nat.shiftLeft_eq, Nat.mod_eq_of_lt hfits,
    Nat.mod_eq_of_lt hlt]

theorem address_bytes (n : UInt32) :
    address #v[UInt32.ofNat (byteAt n 24), UInt32.ofNat (byteAt n 16), UInt32.ofNat (byteAt n 8),
      UInt32.ofNat (byteAt n 0)] = n := by
  have h24 := byteAt_lt n 24
  have h16 := byteAt_lt n 16
  have h8 := byteAt_lt n 8
  have h0 := byteAt_lt n 0
  apply UInt32.toNat_inj.mp
  show (UInt32.ofNat (byteAt n 24) <<< 24 ||| UInt32.ofNat (byteAt n 16) <<< 16 |||
    UInt32.ofNat (byteAt n 8) <<< 8 ||| UInt32.ofNat (byteAt n 0)).toNat = n.toNat
  rw [UInt32.toNat_or, UInt32.toNat_or, UInt32.toNat_or, toNat_shift (k := 24) h24 (by decide) rfl,
    toNat_shift (k := 16) h16 (by decide) rfl, toNat_shift (k := 8) h8 (by decide) rfl,
    UInt32.toNat_ofNat', or_eq_add _ (by omega), show byteAt n 24 * 2 ^ 24 + byteAt n 16 * 2 ^ 16 =
      (byteAt n 24 * 2 ^ 8 + byteAt n 16) * 2 ^ 16 by omega, or_eq_add _ (by omega),
    show (byteAt n 24 * 2 ^ 8 + byteAt n 16) * 2 ^ 16 + byteAt n 8 * 2 ^ 8 =
      (byteAt n 24 * 2 ^ 16 + byteAt n 16 * 2 ^ 8 + byteAt n 8) * 2 ^ 8 by omega,
    or_eq_add _ (by omega)]
  have hn := n.toNat_lt
  simp only [byteAt]
  omega

theorem printDotted_eq (n : UInt32) :
    printDotted n = natDigits (byteAt n 24) ++ 46 :: (natDigits (byteAt n 16) ++
      46 :: (natDigits (byteAt n 8) ++ 46 :: natDigits (byteAt n 0))) := by
  have hprint : ∀ m : ℕ, decimal (m : ℤ) = natDigits m := by
    intro m
    rw [decimal, if_neg (by omega), Int.natAbs_natCast]
  rw [printDotted, octet_eq n (k := 24) (by decide) rfl, octet_eq n (k := 16) (by decide) rfl,
    octet_eq n (k := 8) (by decide) rfl, octet_eq n (k := 0) (by decide) rfl, hprint, hprint, hprint,
    hprint]

theorem scanU_natDigits {n : ℕ} (hn : n < 2 ^ 32) {rest : Bytes}
    (h : ∀ b, rest.head? = some b → isDigit b = false) :
    scanU (natDigits n ++ rest) = some (UInt32.ofNat n, rest) := by
  obtain ⟨d, ds, hshow⟩ := List.exists_cons_of_ne_nil (natDigits_ne_nil n)
  have hd : isDigit d = true := natDigits_all n d (by simp [hshow])
  obtain ⟨hspace, hminus, hplus, -⟩ := isHexDigit_cases (b := d) (by simp [isHexDigit, hd])
  have hdrop : (natDigits n ++ rest).dropWhile isSpace = natDigits n ++ rest := by
    rw [hshow, List.cons_append, List.dropWhile_cons_of_neg (by simp [hspace])]
  have hhead : (natDigits n ++ rest).head? = some d := by rw [hshow, List.cons_append, List.head?_cons]
  have hbehind : (natDigits n ++ rest).dropWhile isDigit = rest := by
    rw [List.dropWhile_append_of_pos (natDigits_all n)]
    cases rest with
    | nil => rfl
    | cons b rest => rw [List.dropWhile_cons_of_neg (by simp [h b rfl])]
  have hvalue : unsignedLong false n = n := if_neg (by omega)
  simp [scanU, hdrop, hhead, hminus, hplus, takeWhile_natDigits n h, hbehind, natDigits_ne_nil,
    digitsValue_natDigits, hvalue]

theorem scanDotted_digits {n : ℕ} (hn : n < 2 ^ 32) (i : Fin 4) (places : List (Fin 4))
    (rest : Bytes) (nums : Vector UInt32 4) :
    scanDotted (natDigits n ++ 46 :: rest) (i :: places) nums =
      scanDotted rest places (nums.set i (UInt32.ofNat n)) := by
  rw [scanDotted, scanU_natDigits hn (by simp; decide)]
  rfl

theorem address_set (nums : Vector UInt32 4) (a b c d : UInt32) :
    address ((((nums.set 0 a).set 1 b).set 2 c).set 3 d) = address #v[a, b, c, d] := by
  simp [address]

/-- All four numbers are read, whatever was on the stack. -/
theorem address_scanDotted (n : UInt32) (nums : Vector UInt32 4) :
    address (scanDotted (printDotted n) [0, 1, 2, 3] nums) = n := by
  have hfits : ∀ k, byteAt n k < 2 ^ 32 := fun k => by
    have hlt := byteAt_lt n k
    omega
  have hlast := @scanU_natDigits _ (hfits 0) [] (by simp)
  rw [List.append_nil] at hlast
  rw [printDotted_eq, scanDotted_digits (hfits 24), scanDotted_digits (hfits 16),
    scanDotted_digits (hfits 8), scanDotted, hlast]
  exact (address_set nums _ _ _ _).trans (address_bytes n)

theorem mem_printDotted {n : UInt32} {b : UInt8} (h : b ∈ printDotted n) : b = 46 ∨ isDigit b = true := by
  rw [printDotted_eq] at h
  simp only [List.mem_append, List.mem_cons] at h
  rcases h with h | h | h | h | h | h | h
  · exact Or.inr (natDigits_all _ b h)
  · exact Or.inl h
  · exact Or.inr (natDigits_all _ b h)
  · exact Or.inl h
  · exact Or.inr (natDigits_all _ b h)
  · exact Or.inl h
  · exact Or.inr (natDigits_all _ b h)

theorem not_mem_printDotted (n : UInt32) {b : UInt8} (hdot : b ≠ 46) (hdigit : isDigit b = false) :
    b ∉ printDotted n := by
  intro h
  rcases mem_printDotted h with h | h
  · exact hdot h
  · rw [hdigit] at h
    cases h

theorem dot_mem_printDotted (n : UInt32) : 46 ∈ printDotted n := by
  rw [printDotted_eq]
  simp

theorem read_dotted (nums : Vector UInt32 4) (networkAddress netmask : UInt32) (rest : Bytes) :
    gftpConfigReadProxy nums (printDotted networkAddress ++ 47 :: (printDotted netmask ++ 0 :: rest)) =
      .ok (printDotted networkAddress ++ 0 :: (printDotted netmask ++ 0 :: rest),
        ⟨networkAddress, netmask, none⟩) := by
  have hnul := fun n => not_mem_printDotted n (b := 0) (by decide) (by decide)
  have hslash := not_mem_printDotted networkAddress (b := 47) (by decide) (by decide)
  obtain ⟨u, v, hmask, hu⟩ := List.eq_append_cons_of_mem (dot_mem_printDotted netmask)
  have hu0 : 0 ∉ u := fun h => hnul netmask (hmask ▸ List.mem_append_left _ h)
  have hsearch := strchr_first hslash (hnul networkAddress) [] (printDotted netmask ++ 0 :: rest)
  rw [List.nil_append, List.nil_append, List.length_nil] at hsearch
  have hfirst := textFrom_text (hnul networkAddress) [] (printDotted netmask ++ 0 :: rest)
  rw [List.nil_append, List.length_nil] at hfirst
  have hdot := strchr_first hu hu0 (printDotted networkAddress ++ [0]) (v ++ 0 :: rest)
  rw [List.length_append, List.length_singleton, ← List.cons_append, ← List.append_assoc u, ← hmask,
    List.append_assoc (printDotted networkAddress), List.singleton_append] at hdot
  rw [gftpConfigReadProxy, hsearch, CRun.ok_bind]
  simp only [writeAt_front, CRun.ok_bind, hfirst, hdot, textFrom_behind (hnul netmask),
    address_scanDotted]
  rfl

theorem read_domain (nums : Vector UInt32 4) {domain : Bytes} (h0 : 0 ∉ domain) (hslash : 47 ∉ domain)
    (rest : Bytes) :
    gftpConfigReadProxy nums (domain ++ 0 :: rest) = .ok (domain ++ 0 :: rest, ⟨0, 0, some domain⟩) := by
  have hsearch := strchr_none hslash (by decide) h0 [] rest
  have htext := textFrom_text h0 [] rest
  rw [List.nil_append, List.length_nil] at hsearch htext
  rw [gftpConfigReadProxy, hsearch, CRun.ok_bind]
  simp only [htext, CRun.ok_bind]
  rfl

/-- What is read of a line that was written is the record it was written for. -/
theorem gftpConfigReadProxy_written (nums : Vector UInt32 4) (host : ProxyHost) (rest : Bytes)
    (hwritable : Writable host) :
    ∃ buf host', gftpConfigReadProxy nums (gftpConfigWriteProxy host ++ 0 :: rest) = .ok (buf, host') ∧
      SameRecord host host' := by
  obtain ⟨networkAddress, netmask, domain⟩ := host
  cases domain with
  | none =>
    have hread := read_dotted nums networkAddress netmask rest
    rw [← List.cons_append, ← List.append_assoc] at hread
    exact ⟨_, _, hread, rfl, fun _ => rfl⟩
  | some domain =>
    obtain ⟨-, h0, hslash, -⟩ := hwritable domain rfl
    exact ⟨_, _, read_domain nums h0 hslash rest, rfl, fun h => by cases h⟩

theorem gftpConfigReadProxy_written_network :
    ∃ buf host', gftpConfigReadProxy #v[1, 2, 3, 4]
      (gftpConfigWriteProxy ⟨0xc0a80100, 0xffffff00, none⟩ ++ [0]) = .ok (buf, host') ∧
        SameRecord ⟨0xc0a80100, 0xffffff00, none⟩ host' :=
  gftpConfigReadProxy_written #v[1, 2, 3, 4] ⟨0xc0a80100, 0xffffff00, none⟩ [] (by simp [Writable])

end Gftp.ProxyRecords
