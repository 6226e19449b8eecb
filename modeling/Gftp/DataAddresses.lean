import Gftp.FtpTransfers

/-!
The addresses of data connections: the reply to PASV that a passive connection takes its address
from and that a transfer between two servers hands on, the PORT command of an active connection,
and the address of the control connection, which is kept from the fifth byte of its sockaddr on.
-/

namespace Gftp.DataAddresses

open ByteStrings Decimal FtpTransfers

/-- A number that sscanf reads for %u, as strtoul of 64 bits gives it and an unsigned int keeps
it, and what follows. -/
def readUnsigned (text : Bytes) : Option (ℕ × Bytes) :=
  let text := text.dropWhile isSpace
  let rest := if text.head? = some 43 ∨ text.head? = some 45 then text.tail else text
  let magnitude := digitsValue (rest.takeWhile isDigit)
  let value :=
    if 2 ^ 64 ≤ magnitude then 2 ^ 64 - 1
    else if text.head? = some 45 then (2 ^ 64 - magnitude) % 2 ^ 64
    else magnitude
  if rest.takeWhile isDigit = [] then none
  else some (value % 2 ^ 32, rest.dropWhile isDigit)

/-- Numbers between commas. -/
def readNumbers : ℕ → Bytes → Option (List ℕ)
  | 0, _ => some []
  | n + 1, text =>
      match readUnsigned text with
      | none => none
      | some (v, rest) =>
          if n = 0 then some [v]
          else if rest.head? = some 44 then (readNumbers n rest.tail).map (v :: ·)
          else none

/-- Where the address begins in the reply to PASV. -/
def addressAt (reply : Bytes) : Bytes := (reply.drop 4).dropWhile (!isDigit ·)

/-- The six bytes that a passive connection takes from the reply. -/
def passiveAddress (reply : Bytes) : Option Bytes :=
  (readNumbers 6 (addressAt reply)).map fun temp => temp.map UInt8.ofNat

/-- struct sockaddr_in, with the address and the port in the order of the network. -/
def sockaddrIn (addr port : Bytes) : Bytes := [2, 0] ++ port ++ addr ++ List.replicate 8 0

/-- struct sockaddr_in6. -/
def sockaddrIn6 (port flowinfo addr scope : Bytes) : Bytes := [10, 0] ++ port ++ flowinfo ++ addr ++ scope

/-- What gftp_connect_server_with_getaddrinfo keeps as remote_addr: as many bytes as the sockaddr
has, from its sin_addr on; behind is what stands behind the sockaddr. -/
def remoteAddr (sockaddr behind : Bytes) : Bytes := ((sockaddr ++ behind).drop 4).take sockaddr.length

/-- The sockaddr that rfc959_ipv4_data_connection_new connects to, none when there is no address
in the reply. -/
def ipv4DataAddr (ignorePasvAddress : Bool) (remoteAddr reply : Bytes) : CRun (Option Bytes) :=
  match passiveAddress reply with
  | none => .ok none
  | some ad =>
      if ignorePasvAddress then
        (overwrite (sockaddrIn [0, 0, 0, 0] (ad.drop 4)) 4 remoteAddr).map some
      else .ok (some (sockaddrIn (ad.take 4) (ad.drop 4)))

/-- The port that rfc959_ipv6_data_connection_new finds in the reply to EPSV. -/
def epsvNumber (reply : Bytes) : Option ℕ :=
  let pos := (reply.drop 4).dropWhile (· ≠ 40)
  if pos.tail.take 3 = [124, 124, 124] then (readUnsigned (pos.drop 4)).map Prod.fst else none

/-- htons. -/
def htons (port : ℕ) : Bytes := [UInt8.ofNat (port / 256), UInt8.ofNat port]

/-- The sockaddr that rfc959_ipv6_data_connection_new connects to. -/
def ipv6DataAddr (remoteAddr reply : Bytes) : Option Bytes :=
  (epsvNumber reply).map fun port => remoteAddr.take 2 ++ htons port ++ remoteAddr.drop 4

/-- Bytes as printf writes them between commas. -/
def numbersText : Bytes → Bytes
  | [] => []
  | [b] => natDigits b.toNat
  | b :: l => natDigits b.toNat ++ 44 :: numbersText l

/-- The command of an active connection for the address that getsockname gives. -/
def portText (addr port : Bytes) : Bytes :=
  ascii "PORT " ++ numbersText (addr ++ port) ++ ascii "\r\n"

section Numbers

variable {text rest words l code : Bytes} {n : ℕ}

theorem readUnsigned_rest (text : Bytes) : (readUnsigned text).map Prod.snd = scanUnsigned text := by
  unfold readUnsigned scanUnsigned
  dsimp only
  rw [apply_ite (Option.map Prod.snd)]
  rfl

theorem scanNumbers_eq (n : ℕ) (text : Bytes) : scanNumbers n text = (readNumbers n text).isSome := by
  induction n generalizing text with
  | zero => rfl
  | succ n ih =>
    have hrest := readUnsigned_rest text
    unfold scanNumbers readNumbers
    cases hread : readUnsigned text with
    | none =>
      rw [hread] at hrest
      rw [← hrest]
      rfl
    | some p =>
      obtain ⟨v, rest⟩ := p
      rw [hread] at hrest
      rw [← hrest]
      by_cases hzero : n = 0
      · simp [hzero]
      · by_cases hcomma : rest.head? = some 44 <;> simp [hzero, hcomma, ih]

/-- A reply is taken for one that holds an address exactly when a passive connection finds six
numbers in it. -/
theorem pasvAddress_eq (reply : Bytes) : pasvAddress reply = (passiveAddress reply).isSome := by
  rw [pasvAddress, scanNumbers_eq, passiveAddress, Option.isSome_map, addressAt]

theorem readNumbers_length {temp : List ℕ} (h : readNumbers n text = some temp) :
    temp.length = n := by
  induction n generalizing text temp with
  | zero =>
    obtain rfl := Option.some.inj h
    rfl
  | succ n ih =>
    unfold readNumbers at h
    split at h
    · simp at h
    · split at h
      · rename_i hzero
        obtain rfl := Option.some.inj h
        simp [hzero]
      · split at h
        · obtain ⟨later, hlater, rfl⟩ := Option.map_eq_some_iff.mp h
          rw [List.length_cons, ih hlater]
        · simp at h

/-- The text of a number begins with a digit. -/
theorem natDigits_head (n : ℕ) (rest : Bytes) :
    ∃ b tail, natDigits n ++ rest = b :: tail ∧ isDigit b = true := by
  obtain ⟨b, tail, hb⟩ := List.exists_cons_of_ne_nil (natDigits_ne_nil n)
  exact ⟨b, tail ++ rest, by rw [hb]; rfl, natDigits_all n b (by simp [hb])⟩

theorem isDigit_plain {b : UInt8} (h : isDigit b = true) :
    isSpace b = false ∧ b ≠ 43 ∧ b ≠ 45 := by
  have hb : 48 ≤ b ∧ b ≤ 57 := of_decide_eq_true h
  have hlow := UInt8.le_iff_toNat_le.mp hb.1
  have hhigh := UInt8.le_iff_toNat_le.mp hb.2
  have h48 : (48 : UInt8).toNat = 48 := rfl
  have h57 : (57 : UInt8).toNat = 57 := rfl
  refine ⟨?_, ?_, ?_⟩
  · simp only [isSpace, decide_eq_false_iff_not, UInt8.le_iff_toNat_le, ← UInt8.toNat_inj]
    intro hspace
    have h9 : (9 : UInt8).toNat = 9 := rfl
    have h13 : (13 : UInt8).toNat = 13 := rfl
    have h32 : (32 : UInt8).toNat = 32 := rfl
    omega
  · rintro rfl
    exact absurd h (by decide)
  · rintro rfl
    exact absurd h (by decide)

theorem dropWhile_natDigits (n : ℕ) (h : ∀ b, rest.head? = some b → isDigit b = false) :
    (natDigits n ++ rest).dropWhile isDigit = rest := by
  have hsplit := List.takeWhile_append_dropWhile (p := isDigit) (l := natDigits n ++ rest)
  rw [takeWhile_natDigits n h] at hsplit
  exact List.append_cancel_left hsplit

/-- A number that fits an unsigned int is read back. -/
theorem readUnsigned_natDigits (hn : n < 2 ^ 32)
    (h : ∀ b, rest.head? = some b → isDigit b = false) :
    readUnsigned (natDigits n ++ rest) = some (n, rest) := by
  obtain ⟨b, tail, hhead, hb⟩ := natDigits_head n rest
  obtain ⟨hspace, hplus, hminus⟩ := isDigit_plain hb
  have hdrop : (natDigits n ++ rest).dropWhile isSpace = natDigits n ++ rest := by
    rw [hhead, List.dropWhile_cons_of_neg (by simp [hspace])]
  have hfirst : (natDigits n ++ rest).head? = some b := by rw [hhead]; rfl
  have hsmall : ¬ 2 ^ 64 ≤ n := by omega
  simp only [readUnsigned, hdrop, hfirst, Option.some_inj, hplus, hminus, or_self, if_false,
    takeWhile_natDigits n h, dropWhile_natDigits n h, digitsValue_natDigits, natDigits_ne_nil,
    hsmall, Nat.mod_eq_of_lt hn]

end Numbers

/-- The reply of a server to EPSV. -/
def epsvReply (code words : Bytes) (port : ℕ) (rest : Bytes) : Bytes :=
  code ++ words ++ ascii "(|||" ++ natDigits port ++ ascii "|)" ++ rest

section Replies

variable {code words addr port rest remote flowinfo scope behind : Bytes} {n : ℕ}

theorem epsvNumber_epsvReply (hcode : code.length = 4) (hwords : 40 ∉ words) (hn : n < 2 ^ 32) :
    epsvNumber (epsvReply code words n rest) = some n := by
  have hat : ((epsvReply code words n rest).drop 4).dropWhile (· ≠ 40) =
      ascii "(|||" ++ (natDigits n ++ (ascii "|)" ++ rest)) := by
    simp only [epsvReply, List.append_assoc]
    rw [List.drop_left' hcode, List.dropWhile_append_of_pos]
    · rfl
    · intro b hb
      have hother : b ≠ 40 := fun h => hwords (h ▸ hb)
      simpa using hother
  have hread : readUnsigned (natDigits n ++ (ascii "|)" ++ rest)) = some (n, ascii "|)" ++ rest) :=
    readUnsigned_natDigits hn (by rintro b hb; obtain rfl := Option.some.inj hb; decide)
  rw [epsvNumber, hat]
  exact (if_pos rfl).trans (congrArg (Option.map Prod.fst) hread)

/-- The address of the control connection is kept from its fifth byte on. Where it is to replace
the one in the reply to PASV it does not fit, and for the reply to EPSV the connection is made to
an address that is shifted by four bytes: its family is what the flow label of the server was. -/
theorem control_address_shifted {addr6 port6 : Bytes} (hport : port.length = 2)
    (haddr : addr.length = 4) (hbehind : 4 ≤ behind.length) (hport6 : port6.length = 2)
    (hflow : flowinfo.length = 4) (haddr6 : addr6.length = 16) (hscope : scope.length = 4)
    (hcode : code.length = 4) (hwords : 40 ∉ words) (hn : n < 2 ^ 16) :
    (∀ reply ad, passiveAddress reply = some ad →
      ipv4DataAddr true (remoteAddr (sockaddrIn addr port) behind) reply = .error .fault) ∧
    ipv6DataAddr (remoteAddr (sockaddrIn6 port6 flowinfo addr6 scope) behind)
        (epsvReply code words n rest) =
      some (flowinfo.take 2 ++ htons n ++ addr6 ++ scope ++ behind.take 4) ∧
    (flowinfo = [0, 0, 0, 0] → ∀ port' flowinfo' addr' scope',
      ipv6DataAddr (remoteAddr (sockaddrIn6 port6 flowinfo addr6 scope) behind)
        (epsvReply code words n rest) ≠ some (sockaddrIn6 port' flowinfo' addr' scope')) := by
  have hremote6 : remoteAddr (sockaddrIn6 port6 flowinfo addr6 scope) behind =
      flowinfo ++ (addr6 ++ (scope ++ behind.take 4)) := by
    have hlen : (sockaddrIn6 port6 flowinfo addr6 scope).length = 28 := by
      simp [sockaddrIn6, hport6, hflow, haddr6, hscope]
    have hdrop : (sockaddrIn6 port6 flowinfo addr6 scope ++ behind).drop 4 =
        flowinfo ++ (addr6 ++ (scope ++ behind)) := by
      simp only [sockaddrIn6, List.append_assoc]
      rw [← List.append_assoc, List.drop_left' (by simp [hport6])]
    rw [remoteAddr, hlen, hdrop]
    simp only [List.take_append, hflow, haddr6, hscope,
      List.take_of_length_le (show flowinfo.length ≤ 28 by omega),
      List.take_of_length_le (show addr6.length ≤ 28 - 4 by omega),
      List.take_of_length_le (show scope.length ≤ 28 - 4 - 16 by omega)]
  have hdata : ipv6DataAddr (remoteAddr (sockaddrIn6 port6 flowinfo addr6 scope) behind)
      (epsvReply code words n rest) =
        some (flowinfo.take 2 ++ htons n ++ addr6 ++ scope ++ behind.take 4) := by
    rw [ipv6DataAddr, epsvNumber_epsvReply hcode hwords (by omega), hremote6, Option.map_some,
      List.take_append_of_le_length (by omega), List.drop_left' hflow]
    simp only [List.append_assoc]
  refine ⟨fun reply ad had => ?_, hdata, fun hzero port' flowinfo' addr' scope' h => ?_⟩
  · have hlen : (remoteAddr (sockaddrIn addr port) behind).length = 16 := by
      simp [remoteAddr, sockaddrIn, hport, haddr]
      omega
    have hsix : ad.length = 6 := by
      obtain ⟨temp, htemp, rfl⟩ := Option.map_eq_some_iff.mp had
      rw [List.length_map, readNumbers_length htemp]
    have hblock : (sockaddrIn [0, 0, 0, 0] (ad.drop 4)).length < 4 + 16 := by
      simp [sockaddrIn, hsix]
    simp only [ipv4DataAddr, had, if_true]
    rw [overwrite_fault (by omega)]
    rfl
  · rw [hdata, hzero] at h
    have hfamily := congrArg List.head? (Option.some.inj h)
    simp [sockaddrIn6] at hfamily

/-- A connection to the loopback address of either family. -/
theorem loopback_shifted :
    ipv4DataAddr true (remoteAddr (sockaddrIn [127, 0, 0, 1] [0, 21]) [0, 0, 0, 0])
        (ascii "227 (127,0,0,1,19,137)") = .error .fault ∧
      ipv6DataAddr (remoteAddr (sockaddrIn6 [0, 21] [0, 0, 0, 0] (List.replicate 15 0 ++ [1])
          [0, 0, 0, 0]) [0, 0, 0, 0]) (ascii "229 Extended (|||5001|)") =
        some ([0, 0, 19, 137] ++ List.replicate 15 0 ++ [1] ++ List.replicate 8 0) := by
  obtain ⟨hover, hshifted, -⟩ := @control_address_shifted (ascii "229 ") (ascii "Extended ")
    [127, 0, 0, 1] [0, 21] [] [0, 0, 0, 0] [0, 0, 0, 0] [0, 0, 0, 0] 5001
    (List.replicate 15 0 ++ [1]) [0, 21] rfl rfl (by decide) rfl rfl rfl rfl rfl (by decide)
    (by decide)
  exact ⟨hover (ascii "227 (127,0,0,1,19,137)") [127, 0, 0, 1, 19, 137] (by decide), hshifted⟩

end Replies

end Gftp.DataAddresses
