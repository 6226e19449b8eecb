import Gftp.Decimal
import Gftp.Runs

/-!
The connection to a server by gftp_connect_server_with_getaddrinfo. The addresses of a name are
tried one after the other until one can be connected to. The port of the request becomes that of
the address tried last, 0 for one that is not of IPv4, and the next lookup is made with it.
-/

namespace Gftp.ServerConnects

open ByteStrings Decimal Runs

/-- An address that getaddrinfo has found, and what the system makes of it: the descriptor of its
socket, and whether it can be connected. -/
structure Host where
  isInet : Bool
  sockaddr : Bytes
  socket : Option ℕ
  connects : Bool
  deriving DecidableEq

/-- get_port, of the port in the order of the network. -/
def getPort (host : Host) : ℕ :=
  if host.isInet then
    256 * (host.sockaddr.getD 2 0).toNat + (host.sockaddr.getD 3 0).toNat
  else 0

/-- The fields of a request that a connection uses or sets. -/
structure Request where
  port : ℕ
  useProxy : Bool
  isInet : Bool
  deriving DecidableEq

def Request.setPort (r : Request) (host : Host) : Request :=
  if r.useProxy then r else { r with port := getPort host }

/-- The loop over the addresses, with the descriptors that are open. -/
def tryHosts : List Host → Request → List ℕ → Option (ℕ × Host) × Request × List ℕ
  | [], r, fds => (none, r, fds)
  | host :: hosts, r, fds =>
      let r := r.setPort host
      match host.socket with
      | none => tryHosts hosts r fds
      | some fd =>
          if host.connects then (some (fd, host), { r with isInet := host.isInet }, fd :: fds)
          else tryHosts hosts r ((fd :: fds).erase fd)

/-- gftp_connect_server_with_getaddrinfo; found is what getaddrinfo gives, none when it fails. -/
def connectServer (found : Option (List Host)) (r : Request) (fds : List ℕ) :
    Option (ℕ × Host) × Request × List ℕ :=
  match found with
  | none => (none, r, fds)
  | some hosts => tryHosts hosts r fds

/-- The addresses that are tried. -/
def tried : List Host → List Host
  | [] => []
  | host :: hosts =>
      if host.socket.isSome && host.connects then [host] else host :: tried hosts

section Sockets

variable {hosts : List Host} {host : Host} {r r' : Request} {fds fds' : List ℕ} {fd : ℕ}
  {found : Option (ℕ × Host)}

/-- An address that can be connected to. -/
def Host.Reachable (host : Host) : Prop := host.socket.isSome = true ∧ host.connects = true

instance (host : Host) : Decidable host.Reachable := inferInstanceAs (Decidable (_ ∧ _))

@[simp] theorem setPort_useProxy (r : Request) (host : Host) :
    (r.setPort host).useProxy = r.useProxy := by
  unfold Request.setPort
  split <;> rfl

/-- An address that cannot be connected to is passed over, and its socket is closed. -/
theorem tryHosts_unreachable (h : ¬ host.Reachable) :
    tryHosts (host :: hosts) r fds = tryHosts hosts (r.setPort host) fds := by
  cases hsocket : host.socket with
  | none => simp only [tryHosts, hsocket]
  | some fd =>
    have hno : host.connects = false := by
      simpa [Host.Reachable, hsocket] using h
    simp only [tryHosts, hsocket, hno, Bool.false_eq_true, if_false, List.erase_cons_head]

theorem tryHosts_reachable (hsocket : host.socket = some fd) (hconnects : host.connects = true) :
    tryHosts (host :: hosts) r fds =
      (some (fd, host), { r.setPort host with isInet := host.isInet }, fd :: fds) := by
  simp only [tryHosts, hsocket, hconnects, if_true]

/-- The call returns the socket of the first address that can be connected to, and that socket
is the only one it leaves open. -/
theorem connected_to_first (hosts : List Host) (r : Request) (fds : List ℕ) :
    (∃ front host later fd r', hosts = front ++ host :: later ∧ (∀ h ∈ front, ¬ h.Reachable) ∧
        host.socket = some fd ∧ host.connects = true ∧ r'.isInet = host.isInet ∧
        connectServer (some hosts) r fds = (some (fd, host), r', fd :: fds)) ∨
      (∀ h ∈ hosts, ¬ h.Reachable) ∧
        ∃ r', r'.isInet = r.isInet ∧ connectServer (some hosts) r fds = (none, r', fds) := by
  induction hosts generalizing r with
  | nil => exact .inr ⟨fun h hh => absurd hh List.not_mem_nil, r, rfl, rfl⟩
  | cons host hosts ih =>
    by_cases hreach : host.Reachable
    · obtain ⟨fd, hfd⟩ := Option.isSome_iff_exists.mp hreach.1
      exact .inl ⟨[], host, hosts, fd, _, rfl, fun h hh => absurd hh List.not_mem_nil, hfd, hreach.2,
        rfl, tryHosts_reachable hfd hreach.2⟩
    · have hpass : connectServer (some (host :: hosts)) r fds =
          connectServer (some hosts) (r.setPort host) fds := tryHosts_unreachable hreach
      have hfamily : (r.setPort host).isInet = r.isInet := by
        unfold Request.setPort
        split <;> rfl
      rcases ih (r.setPort host) with ⟨front, h, later, fd, r', rfl, hfront, hrest⟩ | ⟨hall, r', hr', hnone⟩
      · refine .inl ⟨host :: front, h, later, fd, r', rfl, ?_, ?_⟩
        · exact List.forall_mem_cons.mpr ⟨hreach, hfront⟩
        · rw [hpass]
          exact hrest
      · exact .inr ⟨List.forall_mem_cons.mpr ⟨hreach, hall⟩, r', hr'.trans hfamily,
          hpass.trans hnone⟩

end Sockets

/-- One call after the other with the same request. -/
inductive ConnectStep : Request → Option (List Host) → Request → Prop
  | call (r : Request) (found : Option (List Host)) (fds : List ℕ) :
      ConnectStep r found (connectServer found r fds).2.1

/-- What getaddrinfo promises: at least one address, and in those of IPv4 the port that was asked
for, which for the name of the service is its own. -/
def Fits (servicePort : ℕ) (r : Request) (found : Option (List Host)) : Prop :=
  ∀ hosts, found = some hosts → hosts ≠ [] ∧
    ∀ host ∈ hosts, host.isInet = true → getPort host = if r.port = 0 then servicePort else r.port

section Ports

variable {hosts : List Host} {r r' : Request} {fds : List ℕ} {found : Option (List Host)}
  {servicePort : ℕ}

theorem tried_sublist (hosts : List Host) : ∀ host ∈ tried hosts, host ∈ hosts := by
  induction hosts with
  | nil => exact fun host hhost => hhost
  | cons h hosts ih =>
    intro host hhost
    unfold tried at hhost
    split at hhost
    · exact List.mem_cons.mpr (.inl (List.mem_singleton.mp hhost))
    · rcases List.mem_cons.mp hhost with rfl | hhost
      · exact List.mem_cons_self
      · exact List.mem_cons_of_mem _ (ih host hhost)

theorem tried_ne_nil (h : hosts ≠ []) : tried hosts ≠ [] := by
  cases hosts with
  | nil => exact absurd rfl h
  | cons host hosts =>
    unfold tried
    split <;> simp

theorem tryHosts_port (hproxy : r.useProxy = false) :
    (tryHosts hosts r fds).2.1.useProxy = false ∧
      (tryHosts hosts r fds).2.1.port = ((tried hosts).getLast?.map getPort).getD r.port := by
  induction hosts generalizing r with
  | nil => exact ⟨hproxy, rfl⟩
  | cons host hosts ih =>
    have hset : (r.setPort host).port = getPort host := by
      simp [Request.setPort, hproxy]
    by_cases hreach : host.Reachable
    · obtain ⟨fd, hfd⟩ := Option.isSome_iff_exists.mp hreach.1
      have htried : tried (host :: hosts) = [host] := by
        simp [tried, hreach.1, hreach.2]
      rw [tryHosts_reachable hfd hreach.2, htried]
      exact ⟨by simp [hproxy], by simp [hset]⟩
    · have htried : tried (host :: hosts) = host :: tried hosts := by
        have hno : (host.socket.isSome && host.connects) = false := by
          simpa [Host.Reachable] using hreach
        simp [tried, hno]
      have hrest := @ih (r.setPort host) (by simp [hproxy])
      rw [tryHosts_unreachable hreach, htried]
      refine ⟨hrest.1, hrest.2.trans ?_⟩
      rw [hset]
      cases hlater : tried hosts with
      | nil => simp
      | cons h later => simp [List.getLast?_cons]

theorem ConnectStep.port (h : ConnectStep r found r') (hproxy : r.useProxy = false)
    (hfits : Fits servicePort r found) :
    r'.useProxy = false ∧ (found = none ∧ r'.port = r.port ∨
      ∃ hosts host, found = some hosts ∧ (tried hosts).getLast? = some host ∧
        r'.port = if host.isInet then (if r.port = 0 then servicePort else r.port) else 0) := by
  cases h with
  | call fds =>
    cases found with
    | none => exact ⟨hproxy, .inl ⟨rfl, rfl⟩⟩
    | some hosts =>
      obtain ⟨hne, hports⟩ := hfits hosts rfl
      obtain ⟨huse, hport⟩ := @tryHosts_port hosts r fds hproxy
      have hlast := List.getLast?_eq_some_getLast (tried_ne_nil hne)
      have hmem := tried_sublist hosts _ (List.getLast_mem (tried_ne_nil hne))
      refine ⟨huse, .inr ⟨hosts, _, rfl, hlast, ?_⟩⟩
      change (tryHosts hosts r fds).2.1.port = _
      rw [hport, hlast]
      cases hinet : ((tried hosts).getLast (tried_ne_nil hne)).isInet with
      | true => exact hports _ hmem hinet
      | false => simp [getPort, hinet]

end Ports

end Gftp.ServerConnects
