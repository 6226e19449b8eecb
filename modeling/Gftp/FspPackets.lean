import Gftp.BigEndian
import Gftp.FoldedSums

/-!
The packets of the FSP library: a header of twelve bytes and at most 1024 bytes of data. The sum of
a packet that a client sends counts the length of the packet, too, and that of a packet from a
server does not. fsp_pkt_read compares the length of the data with the size of the whole datagram.
-/

namespace Gftp.FspPackets

open BigEndian ByteStrings FoldedSums

/-- FSP_HSIZE. -/
abbrev hsize : ℕ := 12

/-- FSP_SPACE. -/
abbrev space : ℕ := 1024

/-- FSP_MAXPACKET. -/
abbrev maxpacket : ℕ := hsize + space

theorem sizes : hsize = 12 ∧ space = 1024 ∧ maxpacket = 1036 := ⟨rfl, rfl, rfl⟩

/-- FSP_PKT. -/
structure FspPkt where
  cmd : UInt8
  sum : UInt8
  key : UInt16
  seq : UInt16
  len : UInt16
  pos : UInt32
  xlen : UInt16
  buf : Bytes
  deriving DecidableEq

def be16 (n : UInt16) : Bytes := [UInt8.ofNat (n.toNat / 2 ^ 8), UInt8.ofNat n.toNat]

def word16 (hi lo : UInt8) : UInt16 := UInt16.ofNat (hi.toNat * 2 ^ 8 + lo.toNat)

def word32 (a b c d : UInt8) : UInt32 :=
  UInt32.ofNat (a.toNat * 2 ^ 24 + b.toNat * 2 ^ 16 + c.toNat * 2 ^ 8 + d.toNat)

/-- The packed header. -/
def header (p : FspPkt) (sum : UInt8) : Bytes :=
  [p.cmd, sum] ++ be16 p.key ++ be16 p.seq ++ be16 p.len ++ be32 p.pos

/-- The data block and the extra data block. -/
def payload (p : FspPkt) : Bytes :=
  p.buf.take p.len.toNat ++ (p.buf.drop p.len.toNat).take p.xlen.toNat

/-- The byte at an offset of the header. -/
def octet (ptr : Bytes) (i : ℕ) : UInt8 := ptr.getD i 0

/-- The header as it is unpacked. The sum is the one that was computed. -/
def unpackHeader (p : FspPkt) (ptr : Bytes) (mysum : UInt8) : FspPkt :=
  { p with
    cmd := octet ptr 0
    sum := mysum
    key := word16 (octet ptr 2) (octet ptr 3)
    seq := word16 (octet ptr 4) (octet ptr 5)
    len := word16 (octet ptr 6) (octet ptr 7)
    pos := word32 (octet ptr 8) (octet ptr 9) (octet ptr 10) (octet ptr 11) }

/-- fsp_pkt_read of a datagram into p: whether 0 is returned, and p afterwards. -/
def fspPktRead (p : FspPkt) (ptr : Bytes) : CRun (Bool × FspPkt) :=
  if ptr.length < hsize ∨ maxpacket < ptr.length then .ok (false, p)
  else
    let mysum := fold (weigh ptr - (octet ptr 1).toNat)
    if mysum ≠ octet ptr 1 then .ok (false, p)
    else
      let p := unpackHeader p ptr mysum
      if ptr.length < p.len.toNat then .ok (false, p)
      else do
        let buf ← overwrite p.buf 0 (ptr.drop hsize)
        return (true, { p with
          xlen := UInt16.ofNat ptr.length - p.len - UInt16.ofNat hsize
          buf := buf })

/-- The array of a packet has its size. -/
def Room (p : FspPkt) : Prop := p.buf.length = space

/-- The two data blocks are inside the array. -/
def Fits (p : FspPkt) : Prop := p.len.toNat + p.xlen.toNat ≤ space

instance (p : FspPkt) : Decidable (Fits p) := inferInstanceAs (Decidable (_ ≤ _))

/-- A packet as its sender packs it, with what it adds to the sum: the number of bytes for a client
and nothing for a server. -/
def datagram (p : FspPkt) (added : ℕ) : Bytes :=
  header p (fold (weigh (header p 0 ++ payload p) + added)) ++ payload p

section Words

theorem word16_be16 (n : UInt16) :
    word16 (UInt8.ofNat (n.toNat / 2 ^ 8)) (UInt8.ofNat n.toNat) = n := by
  have hn := n.toNat_lt
  rw [word16, ← UInt16.toNat_inj]
  simp only [UInt16.toNat_ofNat', UInt8.toNat_ofNat']
  omega

theorem word32_be32 (n : UInt32) : word32 (UInt8.ofNat (n.toNat / 2 ^ 24))
    (UInt8.ofNat (n.toNat / 2 ^ 16)) (UInt8.ofNat (n.toNat / 2 ^ 8)) (UInt8.ofNat n.toNat) = n :=
  Option.some.inj (read32_be32 n [])

end Words

section Packets

variable {p q : FspPkt} {ptr : Bytes}

@[simp] theorem header_length (p : FspPkt) (sum : UInt8) : (header p sum).length = hsize := rfl

theorem payload_length (hroom : Room p) (hfits : Fits p) :
    (payload p).length = p.len.toNat + p.xlen.toNat := by
  simp only [Room, Fits] at hroom hfits
  simp only [payload, List.length_append, List.length_take, List.length_drop]
  omega

/-- The sum byte itself is left out of the sum. -/
theorem weigh_header (p : FspPkt) (sum : UInt8) (rest : Bytes) :
    weigh (header p sum ++ rest) = weigh (header p 0 ++ rest) + sum.toNat := by
  simp only [header, List.cons_append, List.nil_append, weigh_cons, UInt8.toNat_zero]
  omega

/-- The datagram has the sum that a reader looks for. -/
def Summed (ptr : Bytes) : Prop := fold (weigh ptr - (octet ptr 1).toNat) = octet ptr 1

instance (ptr : Bytes) : Decidable (Summed ptr) := inferInstanceAs (Decidable (_ = _))

/-- What is in the packet after the datagram has been read into it. -/
def taken (p : FspPkt) (ptr : Bytes) : FspPkt :=
  { unpackHeader p ptr (octet ptr 1) with
    xlen := UInt16.ofNat ptr.length - word16 (octet ptr 6) (octet ptr 7) - UInt16.ofNat hsize
    buf := ptr.drop hsize ++ p.buf.drop (ptr.length - hsize) }

/-- A datagram is accepted by its size, its sum and the length in its header. -/
def Accepted (ptr : Bytes) : Prop :=
  hsize ≤ ptr.length ∧ ptr.length ≤ maxpacket ∧ Summed ptr ∧
    (word16 (octet ptr 6) (octet ptr 7)).toNat ≤ ptr.length

instance (ptr : Bytes) : Decidable (Accepted ptr) := inferInstanceAs (Decidable (_ ∧ _))

theorem read_accepted (hroom : Room p) (h : Accepted ptr) :
    fspPktRead p ptr = .ok (true, taken p ptr) := by
  obtain ⟨hlow, hhigh, hsum, hlen⟩ := h
  have hcopy : overwrite (unpackHeader p ptr (octet ptr 1)).buf 0 (ptr.drop hsize) =
      .ok (ptr.drop hsize ++ p.buf.drop (ptr.length - hsize)) := by
    have hsizes := sizes
    have hfit : 0 + (ptr.drop hsize).length ≤ (unpackHeader p ptr (octet ptr 1)).buf.length := by
      rw [List.length_drop, show (unpackHeader p ptr (octet ptr 1)).buf.length = space from hroom]
      omega
    rw [overwrite_ok hfit, List.length_drop, Nat.zero_add]
    rfl
  unfold Summed at hsum
  rw [fspPktRead, if_neg (by omega)]
  have hlen : ¬ ptr.length < (unpackHeader p ptr (octet ptr 1)).len.toNat := Nat.not_lt.mpr hlen
  simp only [hsum, ne_eq, not_true_eq_false, if_false, if_neg hlen, hcopy, CRun.ok_bind]
  rfl

/-- A datagram that is refused leaves the array and may leave the header. -/
theorem read_refused (h : ¬ Accepted ptr) :
    ∃ r, fspPktRead p ptr = .ok (false, r) ∧ r.buf = p.buf := by
  unfold fspPktRead
  dsimp only
  split_ifs with hsize hsum hlen
  · exact ⟨p, rfl, rfl⟩
  · exact ⟨p, rfl, rfl⟩
  · exact ⟨_, rfl, rfl⟩
  · refine absurd ⟨by omega, by omega, not_not.mp hsum, ?_⟩ h
    exact Nat.not_lt.mp hlen

theorem unpack_header (p q : FspPkt) (sum : UInt8) (rest : Bytes) :
    unpackHeader q (header p sum ++ rest) sum =
      { p with sum := sum, xlen := q.xlen, buf := q.buf } := by
  have hkey : word16 (octet (header p sum ++ rest) 2) (octet (header p sum ++ rest) 3) = p.key :=
    word16_be16 p.key
  have hseq : word16 (octet (header p sum ++ rest) 4) (octet (header p sum ++ rest) 5) = p.seq :=
    word16_be16 p.seq
  have hlen : word16 (octet (header p sum ++ rest) 6) (octet (header p sum ++ rest) 7) = p.len :=
    word16_be16 p.len
  have hpos : word32 (octet (header p sum ++ rest) 8) (octet (header p sum ++ rest) 9)
      (octet (header p sum ++ rest) 10) (octet (header p sum ++ rest) 11) = p.pos :=
    word32_be32 p.pos
  rw [unpackHeader, hkey, hseq, hlen, hpos]
  rfl

theorem read_packed {sum : UInt8} (hq : Room q) (hroom : Room p) (hfits : Fits p)
    (hsum : sum = fold (weigh (header p 0 ++ payload p))) :
    fspPktRead q (header p sum ++ payload p) = .ok (true, { p with
      sum := sum
      buf := payload p ++ q.buf.drop (p.len.toNat + p.xlen.toNat) }) := by
  have hsizes := sizes
  have hlength : (header p sum ++ payload p).length = hsize + (p.len.toNat + p.xlen.toNat) := by
    rw [List.length_append, header_length, payload_length hroom hfits]
  simp only [Fits] at hfits
  have hoctet : octet (header p sum ++ payload p) 1 = sum := rfl
  have hlen : word16 (octet (header p sum ++ payload p) 6) (octet (header p sum ++ payload p) 7) =
      p.len := word16_be16 p.len
  have hsummed : Summed (header p sum ++ payload p) := by
    rw [Summed, hoctet, weigh_header, Nat.add_sub_cancel, hsum]
  have hxlen : UInt16.ofNat (hsize + (p.len.toNat + p.xlen.toNat)) - p.len - UInt16.ofNat hsize =
      p.xlen := by
    have hxle := p.xlen.toNat_lt
    have hlenle := p.len.toNat_lt
    rw [← UInt16.toNat_inj, UInt16.toNat_sub, UInt16.toNat_sub, UInt16.toNat_ofNat',
      UInt16.toNat_ofNat']
    omega
  rw [read_accepted hq ⟨by omega, by omega, hsummed, by rw [hlen]; omega⟩, taken, hoctet,
    unpack_header, hlen, hlength, hxlen, Nat.add_sub_cancel_left, List.drop_left' (header_length p sum)]

theorem read_datagram (hq : Room q) (hroom : Room p) (hfits : Fits p) :
    fspPktRead q (datagram p 0) = .ok (true, { p with
      sum := fold (weigh (header p 0 ++ payload p))
      buf := payload p ++ q.buf.drop (p.len.toNat + p.xlen.toNat) }) := by
  rw [datagram, Nat.add_zero]
  exact read_packed hq hroom hfits rfl

theorem taken_room (hq : Room q) (h : Accepted ptr) : Room (taken q ptr) := by
  obtain ⟨hlow, hhigh, -, -⟩ := h
  have hsizes := sizes
  simp only [Room] at hq ⊢
  simp only [taken, List.length_append, List.length_drop]
  omega

end Packets

section Errors

variable {ptr : Bytes} {i : ℕ} {b : UInt8}

theorem octet_le_weigh (ptr : Bytes) (i : ℕ) : (octet ptr i).toNat ≤ weigh ptr := by
  induction ptr generalizing i with
  | nil => exact Nat.le_refl 0
  | cons c ptr ih =>
    cases i with
    | zero => exact Nat.le_add_right _ _
    | succ i => exact (ih i).trans (Nat.le_add_left _ _)

/-- A sum is missed when any byte, the sum itself too, is altered and not to its opposite. -/
theorem altered_sum (h : Summed ptr) (hlen : 1 < ptr.length) (hi : i < ptr.length)
    (hne : b ≠ ptr[i]) (hopposite : ¬ Opposite b ptr[i]) : ¬ Summed (ptr.set i b) := by
  have hat : ∀ l : Bytes, (hl : 1 < l.length) → octet l 1 = l[1] := fun l hl => by
    rw [octet, List.getD_eq_getElem?_getD, List.getElem?_eq_getElem hl, Option.getD_some]
  have hlenset : 1 < (ptr.set i b).length := by rwa [List.length_set]
  unfold Summed at h ⊢
  by_cases hone : i = 1
  · subst hone
    have hsum := weigh_set hlen b
    have hle := octet_le_weigh ptr 1
    have hnew : octet (ptr.set 1 b) 1 = b := by
      rw [hat _ hlenset, List.getElem_set_self]
    have hold : octet ptr 1 = ptr[1] := hat ptr hlen
    rw [hold] at h hle
    have hsame : weigh (ptr.set 1 b) - b.toNat = weigh ptr - ptr[1].toNat := by omega
    rw [hnew, hsame, h]
    exact fun heq => hne heq.symm
  · have hnew : octet (ptr.set i b) 1 = octet ptr 1 := by
      rw [hat _ hlenset, hat ptr hlen, List.getElem_set_ne hone]
    have hle := octet_le_weigh (ptr.set i b) 1
    rw [hnew] at hle ⊢
    exact fun heq => fold_set_ne hi hne hopposite (octet_le_weigh ptr 1) hle (heq.trans h.symm)

end Errors

/-- A packet with nothing in it. -/
def blankPkt : FspPkt := ⟨0, 0, 0, 0, 0, 0, 0, List.replicate space 0⟩

theorem blank_room : Room blankPkt := List.length_replicate

/-- A datagram that would be accepted is refused when one byte of it is altered, unless one of the
two values is 0 and the other 255. So no single bit can be turned without notice. -/
theorem altered_byte_refused {p q : FspPkt} {ptr : Bytes} {i : ℕ} {r : FspPkt}
    (h : fspPktRead q ptr = .ok (true, r)) (hi : i < ptr.length) :
    (∀ b, b ≠ ptr[i] → ¬ Opposite b ptr[i] →
        ∃ r', fspPktRead p (ptr.set i b) = .ok (false, r') ∧ r'.buf = p.buf) ∧
      ∀ k < 8, ∃ r', fspPktRead p (ptr.set i (ptr[i] ^^^ UInt8.ofNat (2 ^ k))) = .ok (false, r') ∧
        r'.buf = p.buf := by
  have haccepted : Accepted ptr := by
    by_contra hrefused
    obtain ⟨r', hread, -⟩ := @read_refused q ptr hrefused
    rw [hread] at h
    cases h
  obtain ⟨hlow, -, hsummed, -⟩ := haccepted
  have hlen : 1 < ptr.length := Nat.lt_of_lt_of_le (by decide) hlow
  have hbyte : ∀ b, b ≠ ptr[i] → ¬ Opposite b ptr[i] →
      ∃ r', fspPktRead p (ptr.set i b) = .ok (false, r') ∧ r'.buf = p.buf :=
    fun b hne hopposite => read_refused fun h => altered_sum hsummed hlen hi hne hopposite h.2.2.1
  refine ⟨hbyte, fun k hk => ?_⟩
  obtain ⟨hne, hopposite⟩ := flip_bit_ne ptr[i] hk
  exact hbyte _ hne hopposite

theorem blank_altered_refused : ∃ r, fspPktRead blankPkt ((datagram blankPkt 0).set 3 1) =
    .ok (false, r) ∧ r.buf = blankPkt.buf := by
  have hread : fspPktRead blankPkt (datagram blankPkt 0) = .ok (true, blankPkt) :=
    read_datagram blank_room blank_room (by decide)
  exact (@altered_byte_refused blankPkt blankPkt (datagram blankPkt 0) 3 blankPkt hread (by decide)).1 1
    (by decide) (by decide)

end Gftp.FspPackets
