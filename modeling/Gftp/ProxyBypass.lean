import Gftp.ByteStrings

/-!
gftp_need_proxy, which decides whether a server is reached through the proxy server. Of the
address it compares with the networks only one byte is copied from the request; the others are
what was on the stack. The address in the request is that of the last connection, NULL before
the first one.
-/

namespace Gftp.ProxyBypass

open ByteStrings

/-- gftp_proxy_hosts. -/
structure ProxyHost where
  ipv4NetworkAddress : UInt32
  ipv4Netmask : UInt32
  domain : Option Bytes

/-- The fields of gftp_request that are read. -/
structure Request where
  hostname : Bytes
  useProxy : Bool
  remoteAddr : Option Bytes

/-- An IPv4 address, in the order of its bytes in memory. -/
structure Ipv4 where
  byte0 : UInt8
  byte1 : UInt8
  byte2 : UInt8
  byte3 : UInt8
  deriving DecidableEq

/-- The address as it is put together from its bytes. -/
def netaddr (addy : Ipv4) : UInt32 :=
  (addy.byte0.toUInt32 <<< 24) ||| (addy.byte1.toUInt32 <<< 16) ||| (addy.byte2.toUInt32 <<< 8) |||
    addy.byte3.toUInt32

def gftpEretryable : ℤ := -1

/-- The end of the host name is compared with the domain. -/
def inDomain (hostname : Bytes) (host : ProxyHost) : Bool :=
  match host.domain with
  | none => false
  | some domain =>
      domain.length < hostname.length ∧ hostname.drop (hostname.length - domain.length) = domain

def inNetwork (addy : Ipv4) (host : ProxyHost) : Bool :=
  host.ipv4NetworkAddress ≠ 0 ∧ netaddr addy &&& host.ipv4Netmask = host.ipv4NetworkAddress

/-- The memcpy with sizeof (*addy), which is 1. -/
def copyAddr (remoteAddr : Option Bytes) (addy : Ipv4) : CRun Ipv4 :=
  match remoteAddr with
  | some (b :: _) => return { addy with byte0 := b }
  | _ => .error .fault

/-- The loop over the list; addy as it was left by the round before. -/
def scanHosts (request : Request) : List ProxyHost → Ipv4 → CRun ℤ
  | [], _ => return 1
  | host :: hosts, addy =>
      if inDomain request.hostname host then return 0
      else if host.ipv4NetworkAddress ≠ 0 then do
        let addy ← copyAddr request.remoteAddr addy
        if inNetwork addy host then return 0 else scanHosts request hosts addy
      else scanHosts request hosts addy

/-- gftp_need_proxy. lookup resolves a name, addy is what is on the stack. -/
def gftpNeedProxy (lookup : Bytes → Option Ipv4) (addy : Ipv4) (request : Request)
    (proxyHostname : Option Bytes) (proxyHosts : List ProxyHost) : CRun ℤ :=
  match proxyHostname with
  | none | some [] => return 0
  | some proxy =>
      if proxyHosts = [] then return 1
      else
        match lookup (if request.useProxy then proxy else request.hostname) with
        | none => return gftpEretryable
        | some _ => scanHosts request proxyHosts addy

/-- A domain of the list is a proper suffix of the name. -/
def InDomains (hostname : Bytes) (hosts : List ProxyHost) : Prop :=
  ∃ host ∈ hosts, ∃ domain, host.domain = some domain ∧ domain <:+ hostname ∧ domain ≠ hostname

/-- A network of the list holds the address. -/
def InNetworks (a : Ipv4) (hosts : List ProxyHost) : Prop :=
  ∃ host ∈ hosts, host.ipv4NetworkAddress ≠ 0 ∧
    netaddr a &&& host.ipv4Netmask = host.ipv4NetworkAddress

/-- The entries in front of the first domain that the host is in. -/
def front (hostname : Bytes) (hosts : List ProxyHost) : List ProxyHost :=
  hosts.takeWhile fun host => !inDomain hostname host

def Decided (addy : Ipv4) (request : Request) (hosts : List ProxyHost) (a : Ipv4) : Prop :=
  (∀ host ∈ front request.hostname hosts, host.ipv4NetworkAddress = 0) ∨
    ∃ b rest, request.remoteAddr = some (b :: rest) ∧
      (InDomains request.hostname hosts ∨
        (InNetworks { addy with byte0 := b } hosts ↔ InNetworks a hosts))

variable {hostname : Bytes} {request : Request} {host : ProxyHost} {hosts : List ProxyHost}
  {addy a : Ipv4}

theorem inDomain_iff : inDomain hostname host = true ↔
    ∃ domain, host.domain = some domain ∧ domain <:+ hostname ∧ domain ≠ hostname := by
  unfold inDomain
  cases host.domain with
  | none => simp
  | some domain =>
    simp only [decide_eq_true_eq, Option.some.injEq, exists_eq_left']
    constructor
    · rintro ⟨hlen, hdrop⟩
      refine ⟨hdrop ▸ List.drop_suffix _ _, fun heq => ?_⟩
      exact absurd hlen (Nat.not_lt.mpr (heq ▸ Nat.le_refl _))
    · rintro ⟨⟨start, rfl⟩, hne⟩
      have hstart : 0 < start.length := by
        apply List.length_pos_of_ne_nil
        rintro rfl
        exact hne rfl
      rw [List.length_append]
      refine ⟨by omega, ?_⟩
      have hcount : start.length + domain.length - domain.length = start.length := by omega
      rw [hcount, List.drop_left]

theorem inDomains_iff : InDomains hostname hosts ↔ hosts.any (inDomain hostname) = true := by
  simp only [InDomains, List.any_eq_true, inDomain_iff]

theorem inNetworks_iff : InNetworks a hosts ↔ hosts.any (inNetwork a) = true := by
  simp only [InNetworks, List.any_eq_true, inNetwork, decide_eq_true_eq]

/-- No network is compared. -/
theorem scan_front (h : ∀ host ∈ front request.hostname hosts, host.ipv4NetworkAddress = 0) :
    scanHosts request hosts addy =
      .ok (if hosts.any (inDomain request.hostname) then 0 else 1) := by
  induction hosts with
  | nil => rfl
  | cons host hosts ih =>
    rw [scanHosts, List.any_cons]
    cases hdomain : inDomain request.hostname host with
    | true => rfl
    | false =>
      have hfront : front request.hostname (host :: hosts) =
          host :: front request.hostname hosts := by
        rw [front, List.takeWhile_cons_of_pos (by rw [hdomain]; rfl)]
        rfl
      rw [hfront] at h
      obtain ⟨hzero, hrest⟩ := List.forall_mem_cons.mp h
      rw [if_neg (by decide), if_neg (not_not.mpr hzero), ih hrest, Bool.false_or]

theorem scan_addr {b : UInt8} {rest : Bytes} (haddr : request.remoteAddr = some (b :: rest)) :
    scanHosts request hosts addy = .ok (if hosts.any (inDomain request.hostname) ∨
      hosts.any (inNetwork { addy with byte0 := b }) then 0 else 1) := by
  induction hosts generalizing addy with
  | nil => rfl
  | cons host hosts ih =>
    rw [scanHosts, List.any_cons, List.any_cons]
    cases hdomain : inDomain request.hostname host with
    | true =>
      simp only [Bool.true_or, true_or, if_true]
      rfl
    | false =>
      by_cases hzero : host.ipv4NetworkAddress = 0
      · have hout : inNetwork { addy with byte0 := b } host = false := by
          simp [inNetwork, hzero]
        rw [if_neg (by decide), if_neg (not_not.mpr hzero), ih, hout, Bool.false_or, Bool.false_or]
      · rw [if_neg (by decide), if_pos hzero, haddr]
        simp only [copyAddr]
        show (if inNetwork { addy with byte0 := b } host then pure 0
          else scanHosts request hosts { addy with byte0 := b }) = _
        cases hin : inNetwork { addy with byte0 := b } host with
        | true =>
          simp only [Bool.true_or, or_true, if_true]
          rfl
        | false =>
          rw [if_neg (by decide), ih]
          simp

theorem scan_fault (haddr : ∀ b rest, request.remoteAddr ≠ some (b :: rest))
    (h : ∃ host ∈ front request.hostname hosts, host.ipv4NetworkAddress ≠ 0) :
    scanHosts request hosts addy = .error .fault := by
  induction hosts with
  | nil =>
    obtain ⟨host, hmem, -⟩ := h
    exact absurd hmem nofun
  | cons host hosts ih =>
    cases hdomain : inDomain request.hostname host with
    | true =>
      obtain ⟨host', hmem, -⟩ := h
      rw [front, List.takeWhile_cons_of_neg (by rw [hdomain]; decide)] at hmem
      exact absurd hmem nofun
    | false =>
      rw [scanHosts, hdomain, if_neg (by decide)]
      by_cases hzero : host.ipv4NetworkAddress = 0
      · rw [if_neg (not_not.mpr hzero)]
        apply ih
        obtain ⟨host', hmem, hne⟩ := h
        rw [front, List.takeWhile_cons_of_pos (by rw [hdomain]; rfl)] at hmem
        rcases List.mem_cons.mp hmem with rfl | hmem
        · exact absurd hzero hne
        · exact ⟨host', hmem, hne⟩
      · rw [if_pos hzero]
        have hcopy : copyAddr request.remoteAddr addy = .error .fault := by
          unfold copyAddr
          split
          · rename_i b rest heq
            exact absurd heq (haddr b rest)
          · rfl
        rw [hcopy]
        rfl

/-- With a proxy server and names that can be resolved the list decides. -/
theorem need_proxy_scan {lookup : Bytes → Ipv4} {proxy : Bytes} (hproxy : proxy ≠ []) :
    gftpNeedProxy (fun name => some (lookup name)) addy request (some proxy) hosts =
      scanHosts request hosts addy := by
  obtain ⟨c, rest, rfl⟩ := List.exists_cons_of_ne_nil hproxy
  cases hosts with
  | nil => rfl
  | cons host hosts => rfl

/-- The host is one that is reached without the proxy server. -/
def Local (hostname : Bytes) (a : Ipv4) (hosts : List ProxyHost) : Prop :=
  InDomains hostname hosts ∨ InNetworks a hosts

/-- The proxy server is passed by for the hosts of the list, and for no others, if and only if
the address is not looked at or decides as the right one would. -/
theorem need_proxy_iff (lookup : Bytes → Ipv4) (addy : Ipv4) (request : Request) (proxy : Bytes)
    (hosts : List ProxyHost) (hproxy : proxy ≠ []) :
    (∃ ret, gftpNeedProxy (fun name => some (lookup name)) addy request (some proxy) hosts = .ok ret ∧
        (Local request.hostname (lookup request.hostname) hosts → ret = 0) ∧
        (¬ Local request.hostname (lookup request.hostname) hosts → ret = 1)) ↔
      Decided addy request hosts (lookup request.hostname) := by
  rw [need_proxy_scan hproxy]
  unfold Local
  generalize lookup request.hostname = a
  have hresult (p : Prop) [Decidable p] : (∃ ret, (Except.ok (if p then 0 else 1) : CRun ℤ) = .ok ret ∧
      (InDomains request.hostname hosts ∨ InNetworks a hosts → ret = 0) ∧
      (¬ (InDomains request.hostname hosts ∨ InNetworks a hosts) → ret = 1)) ↔
        (p ↔ InDomains request.hostname hosts ∨ InNetworks a hosts) := by
    by_cases hp : p <;> by_cases hlisted : InDomains request.hostname hosts ∨ InNetworks a hosts <;>
      simp [hp, hlisted]
  by_cases hfront : ∀ host ∈ front request.hostname hosts, host.ipv4NetworkAddress = 0
  · rw [scan_front hfront, hresult, ← inDomains_iff]
    refine ⟨fun _ => .inl hfront, fun _ => ⟨.inl, fun hlisted => ?_⟩⟩
    by_contra hout
    -- no domain is found, so that the loop reaches every network
    have hall : front request.hostname hosts = hosts := by
      apply List.takeWhile_eq_self_iff.mpr
      intro host hmem
      rw [inDomains_iff, List.any_eq_true, not_exists] at hout
      simpa using fun hin => hout host ⟨hmem, hin⟩
    obtain ⟨host, hmem, hne, -⟩ := hlisted.resolve_left hout
    exact hne (hfront host (hall.symm ▸ hmem))
  by_cases haddr : ∃ b rest, request.remoteAddr = some (b :: rest)
  · obtain ⟨b, rest, haddr⟩ := haddr
    rw [scan_addr haddr, hresult, ← inDomains_iff, ← inNetworks_iff, Decided]
    constructor
    · intro hiff
      refine .inr ⟨b, rest, haddr, ?_⟩
      by_cases hdomain : InDomains request.hostname hosts
      · exact .inl hdomain
      · simpa only [hdomain, false_or] using hiff
    · rintro (hzero | ⟨b', rest', haddr', hdecided⟩)
      · exact absurd hzero hfront
      · obtain ⟨rfl, -⟩ := List.cons.inj (Option.some.inj (haddr.symm.trans haddr'))
        rcases hdecided with hdomain | hiff
        · simp only [hdomain, true_or]
        · rw [hiff]
  · have hnone : ∀ b rest, request.remoteAddr ≠ some (b :: rest) := fun b rest heq =>
      haddr ⟨b, rest, heq⟩
    have hreached : ∃ host ∈ front request.hostname hosts, host.ipv4NetworkAddress ≠ 0 := by
      by_contra hno
      apply hfront
      intro host hmem
      by_contra hne
      exact hno ⟨host, hmem, hne⟩
    rw [scan_fault hnone hreached]
    constructor
    · rintro ⟨ret, hret, -⟩
      exact absurd hret nofun
    · rintro (hzero | ⟨b, rest, heq, -⟩)
      · exact absurd hzero hfront
      · exact absurd heq (hnone b rest)

section Samples

/-- The network 192.168.0.0/255.255.0.0. -/
def privateNetwork : ProxyHost := ⟨0xc0a80000, 0xffff0000, none⟩

def localDomain : ProxyHost := ⟨0, 0, some (ascii ".lan")⟩

/-- A request that was connected to 192.168.1.2 before. -/
def reconnecting : Request := ⟨ascii "files", false, some [192, 168, 1, 2]⟩

theorem lan_passes : ∃ ret, gftpNeedProxy (fun _ => some ⟨192, 168, 1, 2⟩) ⟨0, 0, 0, 0⟩
      ⟨ascii "files.lan", false, none⟩ (some (ascii "proxy")) [localDomain, privateNetwork] = .ok ret ∧
    (Local (ascii "files.lan") ⟨192, 168, 1, 2⟩ [localDomain, privateNetwork] → ret = 0) ∧
    (¬ Local (ascii "files.lan") ⟨192, 168, 1, 2⟩ [localDomain, privateNetwork] → ret = 1) :=
  (need_proxy_iff (fun _ => ⟨192, 168, 1, 2⟩) ⟨0, 0, 0, 0⟩ ⟨ascii "files.lan", false, none⟩
    (ascii "proxy") [localDomain, privateNetwork] (by decide)).mpr (.inl (by decide))

/-- The proxy server is used for a host of the network, since the other bytes are not copied. -/
theorem private_host_proxied :
    ¬ ∀ (lookup : Bytes → Ipv4) (addy : Ipv4) (request : Request) (proxy : Bytes)
      (hosts : List ProxyHost), proxy ≠ [] →
      ∃ ret, gftpNeedProxy (fun name => some (lookup name)) addy request (some proxy) hosts =
          .ok ret ∧
        (Local request.hostname (lookup request.hostname) hosts → ret = 0) ∧
        (¬ Local request.hostname (lookup request.hostname) hosts → ret = 1) := by
  intro hall
  obtain ⟨ret, hret, hlocal, -⟩ := hall (fun _ => ⟨192, 168, 1, 2⟩) ⟨0, 0, 0, 0⟩ reconnecting
    (ascii "proxy") [privateNetwork] (by decide)
  have hone : gftpNeedProxy (fun _ => some ⟨192, 168, 1, 2⟩) ⟨0, 0, 0, 0⟩ reconnecting
      (some (ascii "proxy")) [privateNetwork] = .ok 1 := by
    rfl
  obtain rfl := Except.ok.inj (hone.symm.trans hret)
  exact absurd (hlocal (.inr (inNetworks_iff.mpr (by decide)))) (by decide)

end Samples

end Gftp.ProxyBypass
