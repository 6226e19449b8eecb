import Gftp.DirectoryReads
import Gftp.UrlParsing

/-!
The URL that listbox_drag makes of an entry and what dnd_remote_file reads from it. The
texts are put together as they are, and gftp_parse_url cuts them at blanks at the end, at
the first slash, at the last at-sign and at the first colon. What comes back is the request
and the path when none of these stands in another place, and an entry is taken for a
directory exactly when the URL ends in a slash.
-/

namespace Gftp.DragUrls

open ByteStrings TextIndices Decimal UrlParsing
open DirectoryReads (gftpBuildPath)
open ListingParsers (isBlank)

/-- The protocols of a remote window. -/
inductive WindowProtocol
  | ftp
  | ftps
  | http
  | https
  | ssh2
  | fsp

namespace WindowProtocol

def protonum : WindowProtocol → ℕ
  | ftp => gftpFtpNum
  | ftps => gftpFtpsNum
  | http => gftpHttpNum
  | https => gftpHttpsNum
  | ssh2 => gftpSshv2Num
  | fsp => gftpFspNum

def urlScheme : WindowProtocol → Bytes
  | ftp => ascii "ftp"
  | ftps => ascii "ftps"
  | http => ascii "http"
  | https => ascii "https"
  | ssh2 => ascii "ssh2"
  | fsp => ascii "fsp"

def init : WindowProtocol → UrlEnv → UrlRequest → ℤ × UrlRequest
  | ftp => rfc959Init
  | ftps => ftpsInit
  | http => fun _ => rfc2068Init
  | https => httpsInit
  | ssh2 => fun _ => sshv2Init
  | fsp => fun _ => fspInit

end WindowProtocol

/-- What listbox_drag reads of the request of its window. -/
structure WindowRequest where
  protonum : ℕ
  urlScheme : Bytes
  hostname : Option Bytes
  username : Option Bytes
  port : UInt32
  directory : Bytes

/-- A port as printf writes it for the conversion %d. -/
def portText (port : UInt32) : Bytes := decimal port.toBitVec.toInt

/-- The URL of an entry; there is none for the entry .. -/
def listboxDrag (r : WindowRequest) (vms : Bool) (file : Bytes) (isDir : Bool) : Option Bytes :=
  if file = ascii ".." then none
  else
    let df := gftpBuildPath vms r.directory file
    let tempstr :=
      match r.hostname with
      | none => r.urlScheme ++ (ascii "://" ++ df)
      | some hostname =>
          if r.protonum = gftpLocalNum then r.urlScheme ++ (ascii "://" ++ df)
          else if r.username.getD [] = [] then
            r.urlScheme ++ (ascii "://" ++ (hostname ++ 58 :: portText r.port ++ df))
          else
            r.urlScheme ++ (ascii "://" ++
              (r.username.getD [] ++ 64 :: (hostname ++ 58 :: portText r.port ++ df)))
    some (if isDir then tempstr ++ [47] else tempstr)

/-- What dnd_remote_file makes of a URL before it looks at the windows. -/
structure Dropped where
  request : UrlRequest
  file : Bytes
  isDir : Bool

def cutLast (url : CString) : CString :=
  ⟨url.bytes.dropLast, fun h => url.nul_free (List.dropLast_subset _ h)⟩

def dropped (isDir : Bool) (ret : ℤ) (r : UrlRequest) : Option Dropped :=
  match r.directory with
  | none => none
  | some directory => if ret ≠ 0 ∨ 47 ∉ directory then none else some ⟨r, directory, isDir⟩

def dndRemoteFile (env : UrlEnv) (url : CString) : CRun (Option Dropped) := do
  if url.bytes = [] then .error .fault
  else
    let isDir : Bool := url.bytes.getLast? = some 47
    let (ret, r) ← gftpParseUrl env (if isDir then cutLast url else url)
    return dropped isDir ret r

/-- A remote request that is connected, in an absolute directory. -/
structure ConnectedRequest where
  protocol : WindowProtocol
  hostname : CString
  username : Option CString
  port : UInt32
  directory : CString
  absolute : directory.bytes.head? = some 47

namespace ConnectedRequest

variable (r : ConnectedRequest)

def window : WindowRequest :=
  ⟨r.protocol.protonum, r.protocol.urlScheme, some r.hostname.bytes, r.username.map CString.bytes,
    r.port, r.directory.bytes⟩

/-- What stands in front of the host. -/
def loginText : Bytes :=
  match r.username with
  | none => []
  | some user => if user.bytes = [] then [] else user.bytes ++ [64]

/-- The URL in front of its path. -/
def frontText : Bytes := r.loginText ++ r.hostname.bytes

def authorityText : Bytes := r.frontText ++ 58 :: portText r.port

def urlText (path : Bytes) : Bytes :=
  r.protocol.urlScheme ++ (ascii "://" ++ (r.authorityText ++ path))

end ConnectedRequest

/-- The request and the path that the URL was made of come back. -/
def Returned (env : UrlEnv) (r : ConnectedRequest) (vms : Bool) (file : CString) (isDir : Bool) : Prop :=
  ∀ url : CString, listboxDrag r.window vms file.bytes isDir = some url.bytes →
    ∃ d, dndRemoteFile env url = .ok (some d) ∧ d.request.protonum = r.protocol.protonum ∧
      d.request.username = r.username.map CString.bytes ∧
      d.request.hostname = some r.hostname.bytes ∧ d.request.port = r.port ∧
      d.file = gftpBuildPath vms r.directory.bytes file.bytes ∧ d.isDir = isDir

/-- What the URL has to be made of. -/
structure Fits (env : UrlEnv) (r : ConnectedRequest) (path : Bytes) (isDir : Bool) : Prop where
  user : ∀ u, r.username = some u → u.bytes ≠ [] ∧ 47 ∉ u.bytes ∧ 58 ∉ u.bytes
  host : 47 ∉ r.hostname.bytes ∧ 64 ∉ r.hostname.bytes
  port : r.port.toNat < 2 ^ 31
  started : 0 ≤ (r.protocol.init env gftpRequestDestroy).1 ∧
    (r.protocol.init env gftpRequestDestroy).2.protonum = r.protocol.protonum
  directory : (gftpSetDirectory env (r.protocol.init env gftpRequestDestroy).2
    (path.rdropWhile isBlank)).directory = some path
  file : isDir = false → path.getLast? ≠ some 47

section Protocols

variable {env : UrlEnv}

theorem protocol_entry (p : WindowProtocol) :
    ∃ entry, (gftpProtocols.find? fun entry => entry.urlScheme = p.urlScheme) = some entry ∧
      entry.init = p.init := by
  cases p <;> exact ⟨_, rfl, rfl⟩

theorem WindowProtocol.urlScheme_plain (p : WindowProtocol) :
    58 ∉ p.urlScheme ∧ 0 ∉ p.urlScheme ∧ ∃ b rest, p.urlScheme = b :: rest ∧ isBlank b = false := by
  cases p <;> exact ⟨by decide, by decide, _, _, rfl, by decide⟩

/-- A protocol sets its number, whether it is always connected, and no more. -/
structure Untouched (r : UrlRequest) : Prop where
  hostname : r.hostname = none
  username : r.username = none
  port : r.port = 0
  datafd : r.datafd = -1
  parseUrl : r.parseUrl = false

theorem untouched_init (p : WindowProtocol) (env : UrlEnv) :
    Untouched (p.init env gftpRequestDestroy).2 := by
  have hftp : Untouched (rfc959Init env gftpRequestDestroy).2 := by
    unfold rfc959Init
    split_ifs <;> exact ⟨rfl, rfl, rfl, rfl, rfl⟩
  cases p with
  | ftp => exact hftp
  | ftps =>
    show Untouched (ftpsInit env gftpRequestDestroy).2
    unfold ftpsInit
    split_ifs
    · exact ⟨hftp.hostname, hftp.username, hftp.port, hftp.datafd, hftp.parseUrl⟩
    · exact ⟨rfl, rfl, rfl, rfl, rfl⟩
  | http => exact ⟨rfl, rfl, rfl, rfl, rfl⟩
  | https =>
    show Untouched (httpsInit env gftpRequestDestroy).2
    unfold httpsInit
    split_ifs <;> exact ⟨rfl, rfl, rfl, rfl, rfl⟩
  | ssh2 => exact ⟨rfl, rfl, rfl, rfl, rfl⟩
  | fsp => exact ⟨rfl, rfl, rfl, rfl, rfl⟩

theorem Untouched.setDirectory {r : UrlRequest} (h : Untouched r) (env : UrlEnv) (directory : Bytes) :
    Untouched (gftpSetDirectory env r directory) := by
  unfold gftpSetDirectory
  split_ifs
  · exact ⟨h.hostname, h.username, h.port, h.datafd, h.parseUrl⟩
  · exact ⟨h.hostname, h.username, h.port, h.datafd, h.parseUrl⟩

theorem setDirectory_protonum (env : UrlEnv) (r : UrlRequest) (directory : Bytes) :
    (gftpSetDirectory env r directory).protonum = r.protonum := by
  unfold gftpSetDirectory
  split_ifs <;> rfl

end Protocols

theorem last_at_unique {u u' v v' : Bytes} (hv : 64 ∉ v) (hv' : 64 ∉ v')
    (h : u ++ 64 :: v = u' ++ 64 :: v') : u = u' ∧ v = v' := by
  have hlast : ∀ {u v : Bytes}, 64 ∉ v → (u ++ 64 :: v).rtakeWhile (fun b => b ≠ 64) = v := by
    intro u v hv
    rw [List.rtakeWhile, List.reverse_append, List.reverse_cons, List.append_assoc,
      List.takeWhile_append_of_pos fun b hb => by
        simpa using ne_of_mem_of_not_mem (List.mem_reverse.mp hb) hv]
    simp
  have hsame : v = v' := by rw [← hlast hv, h, hlast hv']
  subst hsame
  exact ⟨List.append_cancel_right h, rfl⟩

namespace ConnectedRequest

variable {r : ConnectedRequest} {left : Bytes}

theorem loginText_none (h : r.username = none) : r.loginText = [] := by
  rw [loginText, h]

theorem loginText_some {u : CString} (h : r.username = some u) (hne : u.bytes ≠ []) :
    r.loginText = u.bytes ++ [64] := by
  rw [loginText, h]
  exact if_neg hne

theorem loginText_empty {u : CString} (h : r.username = some u) (hnil : u.bytes = []) :
    r.loginText = [] := by
  rw [loginText, h]
  exact if_pos hnil

/-- The host and the user come back from no shorter text than the one they stand in. -/
theorem frontText_length_le
    (h : Splits left none r.hostname.bytes (r.username.map CString.bytes)) :
    r.frontText.length ≤ left.length := by
  rcases h with ⟨-, hhost, huser⟩ | ⟨login, rfl, -, huser⟩
  · have hnone : r.username = none := Option.map_eq_none_iff.mp huser
    rw [frontText, loginText_none hnone, hhost, List.nil_append]
  · obtain ⟨u, hu, hbytes⟩ := Option.map_eq_some_iff.mp huser
    have hlogin : r.loginText.length ≤ login.length + 1 := by
      have hle := (List.takeWhile_prefix (l := login) fun b => b ≠ 58).length_le
      by_cases hnil : u.bytes = []
      · simp [loginText_empty hu hnil]
      · rw [loginText_some hu hnil, hbytes, List.length_append, List.length_singleton]
        exact Nat.succ_le_succ hle
    rw [frontText, List.length_append, List.length_append, List.length_cons]
    omega

/-- The text in front of the port gives the host and the user. -/
theorem frontText_splits_iff :
    Splits r.frontText none r.hostname.bytes (r.username.map CString.bytes) ↔
      (∀ u, r.username = some u → u.bytes ≠ [] ∧ 58 ∉ u.bytes) ∧ 64 ∉ r.hostname.bytes := by
  constructor
  · rintro (⟨hat, hhost, huser⟩ | ⟨login, hshow, hat, huser⟩)
    · have hnone : r.username = none := Option.map_eq_none_iff.mp huser
      refine ⟨fun u hu => ?_, hhost ▸ hat⟩
      rw [hnone] at hu
      cases hu
    · obtain ⟨u, hu, hbytes⟩ := Option.map_eq_some_iff.mp huser
      have hne : u.bytes ≠ [] := by
        intro hnil
        have hlength := congrArg List.length hshow
        rw [frontText, loginText_empty hu hnil, List.nil_append, List.length_append,
          List.length_cons] at hlength
        omega
      rw [frontText, loginText_some hu hne, List.append_assoc, List.singleton_append] at hshow
      have hlogin : u.bytes = login := List.append_cancel_right hshow
      refine ⟨fun u' hu' => ?_, hat⟩
      obtain rfl := Option.some.inj (hu.symm.trans hu')
      refine ⟨hne, fun hcolon => ?_⟩
      rw [← hlogin] at hbytes
      rw [hbytes] at hcolon
      simpa using List.mem_takeWhile_imp hcolon
  · rintro ⟨huser, hat⟩
    cases hu : r.username with
    | none =>
      rw [frontText, loginText_none hu, List.nil_append]
      exact Or.inl ⟨hat, rfl, rfl⟩
    | some u =>
      obtain ⟨hne, hcolon⟩ := huser u hu
      refine Or.inr ⟨u.bytes, ?_, hat, ?_⟩
      · rw [frontText, loginText_some hu hne, List.append_assoc, List.singleton_append]
      · rw [Option.map_some, List.takeWhile_eq_self_iff.mpr fun b hb => by
          simpa using ne_of_mem_of_not_mem hb hcolon]

end ConnectedRequest

theorem splits_unique {left host host' : Bytes} {user user' : Option Bytes} (h : Splits left none host user)
    (h' : Splits left none host' user') : host = host' ∧ user = user' := by
  rcases h with ⟨hno, rfl, rfl⟩ | ⟨login, rfl, hat, rfl⟩
  · rcases h' with ⟨-, rfl, rfl⟩ | ⟨login', rfl, -, -⟩
    · exact ⟨rfl, rfl⟩
    · exact absurd (by simp) hno
  · rcases h' with ⟨hno, -, -⟩ | ⟨login', hshow, hat', rfl⟩
    · exact absurd (by simp) hno
    · obtain ⟨rfl, rfl⟩ := last_at_unique hat hat' hshow
      exact ⟨rfl, rfl⟩

section PortText

theorem portText_digits {port : UInt32} (h : port.toNat < 2 ^ 31) :
    portText port = natDigits port.toNat := by
  have hvalue : port.toBitVec.toInt = port.toNat := by
    rw [BitVec.toInt_eq_toNat_cond, UInt32.toNat_toBitVec]
    exact if_pos (by omega)
  rw [portText, hvalue, decimal, if_neg (by omega), Int.natAbs_natCast]

theorem portText_minus {port : UInt32} (h : ¬ port.toNat < 2 ^ 31) :
    ∃ n, portText port = 45 :: natDigits n := by
  have hlt : port.toNat < 2 ^ 32 := port.toNat_lt
  have hvalue : port.toBitVec.toInt = (port.toNat : ℤ) - 2 ^ 32 := by
    rw [BitVec.toInt_eq_toNat_cond, UInt32.toNat_toBitVec]
    exact if_neg (by omega)
  rw [portText, hvalue, decimal, if_pos (by omega)]
  exact ⟨_, rfl⟩

theorem portText_plain (port : UInt32) : 47 ∉ portText port ∧ 0 ∉ portText port := by
  constructor
  · intro h
    rcases decimal_all _ _ h with h45 | hdigit
    · cases h45
    · cases hdigit
  · intro h
    rcases decimal_all _ _ h with h45 | hdigit
    · cases h45
    · cases hdigit

theorem strtol_portText {port : UInt32} (h : port.toNat < 2 ^ 31) :
    UInt32.ofInt (strtol (natDigits port.toNat)) = port := by
  have hvalue := digitsValue_natDigits port.toNat
  rw [strtol_unsigned (natDigits_ne_nil _) (natDigits_all _) (by omega), hvalue, UInt32.ofNat_toNat]

end PortText

namespace ConnectedRequest

variable {r : ConnectedRequest} {env : UrlEnv}

theorem frontText_slash_free
    (h : (∀ u, r.username = some u → u.bytes ≠ [] ∧ 47 ∉ u.bytes ∧ 58 ∉ u.bytes) ∧
      47 ∉ r.hostname.bytes) : 47 ∉ r.frontText := by
  rw [frontText, List.mem_append, not_or]
  refine ⟨?_, h.2⟩
  cases hu : r.username with
  | none => simp [loginText_none hu]
  | some u =>
    obtain ⟨hne, hslash, -⟩ := h.1 u hu
    simp [loginText_some hu hne, hslash]

theorem slash_free_of_frontText (h : 47 ∉ r.frontText) :
    (∀ u, r.username = some u → 47 ∉ u.bytes) ∧ 47 ∉ r.hostname.bytes := by
  rw [frontText, List.mem_append, not_or] at h
  refine ⟨fun u hu hslash => h.1 ?_, h.2⟩
  rw [loginText_some hu fun hnil => by simp [hnil] at hslash]
  exact List.mem_append_left _ hslash

theorem loginText_nul_free (r : ConnectedRequest) : 0 ∉ r.loginText := by
  cases hu : r.username with
  | none => simp [loginText_none hu]
  | some u =>
    by_cases hnil : u.bytes = []
    · simp [loginText_empty hu hnil]
    · simp [loginText_some hu hnil, u.nul_free]

theorem frontText_nul_free (r : ConnectedRequest) : 0 ∉ r.frontText := by
  rw [frontText, List.mem_append, not_or]
  exact ⟨r.loginText_nul_free, r.hostname.nul_free⟩

theorem authorityText_nul_free (r : ConnectedRequest) : 0 ∉ r.authorityText := by
  rw [authorityText, List.mem_append, List.mem_cons, not_or, not_or]
  exact ⟨r.frontText_nul_free, by decide, (portText_plain r.port).2⟩

/-- What a parsed request has of the one that the URL was made of. -/
structure Same (r : ConnectedRequest) (path : Bytes) (parsed : UrlRequest) : Prop where
  protonum : parsed.protonum = r.protocol.protonum
  username : parsed.username = r.username.map CString.bytes
  hostname : parsed.hostname = some r.hostname.bytes
  port : parsed.port = r.port
  directory : parsed.directory = some path

variable {front dir rest path : Bytes} {start : UrlRequest}

/-- A slash in front of the port: too little is left for the user and the host. -/
theorem slash_lost {scheme : Bytes} (hfront : front = scheme ++ [47])
    (hstart : Untouched start) {auth behind : Bytes} (h0 : 0 ∉ auth)
    (hshow : r.frontText = auth ++ 47 :: behind) (rest : Bytes) {parsed : UrlRequest}
    (hparsed : parseAuthority (front ++ (auth ++ 0 :: rest)) front.length
      (some (front ++ auth).length) start = .ok parsed) : ¬ Same r path parsed := by
  intro h
  obtain ⟨left, text, port, hleft, hport⟩ := takePort_left (Or.inr ⟨scheme, hfront⟩) rest start
  obtain ⟨hostname, username, password, hsplits, hparts⟩ :=
    parseAuthority_splits h0 (Or.inr rfl) hleft hport
  obtain rfl := Except.ok.inj (hparsed.symm.trans hparts)
  rw [hstart.username] at hsplits
  have hhost : hostname = r.hostname.bytes := Option.some.inj h.hostname
  have huser : username = r.username.map CString.bytes := h.username
  rw [hhost, huser] at hsplits
  have hlong := frontText_length_le hsplits
  have hshort := hleft.length_le
  have hlength := congrArg List.length hshow
  rw [List.length_append, List.length_cons] at hlength
  omega

/-- Without one, all of the text in front of the port is left, or the port is not taken. -/
theorem whole_iff (hstart : Untouched start) (front rest : Bytes) :
    (∃ parsed, parseAuthority (front ++ (r.authorityText ++ 0 :: rest)) front.length
      (some (front ++ r.authorityText).length) start = .ok parsed ∧ Same r path parsed) ↔
    ((∀ u, r.username = some u → u.bytes ≠ [] ∧ 58 ∉ u.bytes) ∧ 64 ∉ r.hostname.bytes) ∧
      r.port.toNat < 2 ^ 31 ∧ start.protonum = r.protocol.protonum ∧ start.directory = some path := by
  by_cases hport : r.port.toNat < 2 ^ 31
  · have hblock : front ++ (r.authorityText ++ 0 :: rest) =
        front ++ r.frontText ++ 58 :: (natDigits r.port.toNat ++ 0 :: rest) := by
      rw [authorityText, portText_digits hport]
      simp only [List.append_assoc, List.cons_append]
    have hlength : (front ++ r.authorityText).length =
        (front ++ r.frontText).length + 1 + (natDigits r.port.toNat).length := by
      rw [authorityText, portText_digits hport]
      simp only [List.length_append, List.length_cons]
      omega
    have htake := takePort_colon (natDigits_ne_nil r.port.toNat) (natDigits_all _)
      (front ++ r.frontText) rest start
    rw [strtol_portText hport, ← hblock, ← hlength, List.append_assoc] at htake
    have hleft : r.frontText <+: r.authorityText := List.prefix_append _ _
    obtain ⟨hostname, username, password, hsplits, hparts⟩ :=
      parseAuthority_splits r.authorityText_nul_free (Or.inr rfl) hleft htake
    rw [hstart.username] at hsplits
    rw [hparts, ← frontText_splits_iff]
    constructor
    · rintro ⟨parsed, hparsed, h⟩
      obtain rfl := Except.ok.inj hparsed
      have hhost : hostname = r.hostname.bytes := Option.some.inj h.hostname
      have huser : username = r.username.map CString.bytes := h.username
      rw [hhost, huser] at hsplits
      exact ⟨hsplits, hport, h.protonum, h.directory⟩
    · rintro ⟨hfits, -, hprotonum, hdirectory⟩
      obtain ⟨hhost, huser⟩ := splits_unique hsplits hfits
      exact ⟨_, rfl, ⟨hprotonum, huser, congrArg some hhost, rfl, hdirectory⟩⟩
  · obtain ⟨n, hminus⟩ := portText_minus hport
    have hblock : front ++ (r.authorityText ++ 0 :: rest) =
        front ++ r.frontText ++ [58] ++ 45 :: (natDigits n ++ 0 :: rest) := by
      rw [authorityText, hminus]
      simp only [List.append_assoc, List.cons_append, List.nil_append]
    have hlength : (front ++ r.authorityText).length =
        (front ++ r.frontText ++ [58]).length + 1 + (natDigits n).length := by
      rw [authorityText, hminus]
      simp only [List.length_append, List.length_cons, List.length_nil]
      omega
    have htake := takePort_stop (b := 45) (by decide) (natDigits_all n) (fun h => absurd h (by decide))
      (front ++ r.frontText ++ [58]) rest start
    rw [← hblock, ← hlength] at htake
    obtain ⟨hostname, username, password, -, hparts⟩ := parseAuthority_splits r.authorityText_nul_free
      (Or.inr rfl) (List.prefix_refl r.authorityText) htake
    rw [hparts]
    constructor
    · rintro ⟨parsed, hparsed, h⟩
      obtain rfl := Except.ok.inj hparsed
      have hzero : r.port = 0 := h.port.symm.trans hstart.port
      exact absurd (by rw [hzero]; decide) hport
    · rintro ⟨-, hlt, -⟩
      exact absurd hlt hport

theorem path_kept (hpath : path.head? = some 47) :
    ∃ dir, path.rdropWhile isBlank = 47 :: dir ∧ dir ⊆ path := by
  obtain ⟨t, rfl⟩ := List.head?_eq_some_iff.mp hpath
  have hne : (47 :: t).rdropWhile isBlank ≠ [] := by
    intro hnil
    have hblank := List.rdropWhile_eq_nil_iff.mp hnil 47 (List.mem_cons_self ..)
    cases hblank
  have hstart := List.rdropWhile_prefix isBlank (47 :: t)
  obtain ⟨b, dir, hcons⟩ := List.exists_cons_of_ne_nil hne
  rw [hcons] at hstart ⊢
  obtain ⟨rfl, hdir⟩ := List.cons_prefix_cons.mp hstart
  exact ⟨dir, rfl, fun x hx => List.mem_cons_of_mem _ (hdir.subset hx)⟩

theorem trimmed_urlText (hpath : path.head? = some 47) :
    trimmed (r.urlText path) = r.protocol.urlScheme ++
      (ascii "://" ++ (r.authorityText ++ path.rdropWhile isBlank)) := by
  obtain ⟨dir, hkept, -⟩ := path_kept hpath
  obtain ⟨-, -, b, rest, hscheme, hb⟩ := r.protocol.urlScheme_plain
  have hfirst : (r.urlText path).dropWhile isBlank = r.urlText path := by
    rw [urlText, hscheme, List.cons_append, List.dropWhile_cons_of_neg (by simp [hb])]
  have hne : path.rdropWhile isBlank ≠ [] := by
    rw [hkept]
    exact List.cons_ne_nil 47 dir
  rw [trimmed, hfirst, urlText, ← List.append_assoc, ← List.append_assoc, rdropWhile_append hne,
    List.append_assoc, List.append_assoc]

theorem parse_urlText (env : UrlEnv) {url : CString} (hurl : url.bytes = r.urlText path)
    (hpath : path.head? = some 47) :
    ∃ entry rest, entry.init = r.protocol.init ∧ gftpParseUrl env url =
      parseBehind env entry (r.protocol.urlScheme ++ ascii "://" ++
        (r.authorityText ++ (path.rdropWhile isBlank ++ 0 :: rest)))
        (r.protocol.urlScheme ++ ascii "://").length := by
  obtain ⟨hcolon, h0, -⟩ := r.protocol.urlScheme_plain
  obtain ⟨entry, hentry, hinit⟩ := protocol_entry r.protocol
  have htrim : trimmed url.bytes = _ := (congrArg trimmed hurl).trans (trimmed_urlText hpath)
  rcases gftpParseUrl_copy env url with ⟨hnil, -⟩ | ⟨-, rest, hcopy⟩
  · rw [htrim] at hnil
    simp [authorityText] at hnil
  · refine ⟨entry, rest, hinit, ?_⟩
    rw [hcopy, htrim]
    simp only [List.append_assoc]
    rw [parseCopy, takeProtocol_at h0 (strstr_first hcolon h0 (ascii "//") _)]
    simp only [hentry, CRun.ok_bind]

theorem zero_result {x : CRun UrlRequest} {parsed : UrlRequest} :
    (do
      let r ← x
      return ((0 : ℤ), r)) = .ok (0, parsed) ↔ x = .ok parsed := by
  rw [CRun.bind_eq_ok]
  constructor
  · rintro ⟨r, hr, hsame⟩
    obtain rfl : r = parsed := congrArg Prod.snd (Except.ok.inj hsame)
    exact hr
  · exact fun h => ⟨parsed, h, rfl⟩

/-- The request that the URL was made of comes back. -/
theorem parsed_iff {url : CString} (hurl : url.bytes = r.urlText path) (hpath : path.head? = some 47)
    (hnul : 0 ∉ path) :
    (∃ parsed, gftpParseUrl env url = .ok (0, parsed) ∧ Same r path parsed) ↔ Fits env r path true := by
  obtain ⟨entry, rest, hinit, hparse⟩ := parse_urlText env hurl hpath
  obtain ⟨dir, hkept, hdir⟩ := path_kept hpath
  have hdir0 : 0 ∉ dir := fun h => hnul (hdir h)
  have hplain := untouched_init r.protocol env
  have hset := hplain.setDirectory env
  have hfront : r.protocol.urlScheme ++ ascii "://" = r.protocol.urlScheme ++ ascii ":/" ++ [47] := by
    rw [List.append_assoc]
    rfl
  rw [hparse]
  by_cases hret : (r.protocol.init env gftpRequestDestroy).1 < 0
  · rw [parseBehind_failed (by rwa [hinit]), hinit]
    constructor
    · rintro ⟨parsed, hparsed, -⟩
      have hzero : (r.protocol.init env gftpRequestDestroy).1 = 0 :=
        congrArg Prod.fst (Except.ok.inj hparsed)
      omega
    · exact fun h => absurd h.started.1 (not_le.mpr hret)
  · have hbehind := @parseBehind_slash env entry
    rw [hinit] at hbehind
    by_cases hslash : 47 ∈ r.frontText
    · obtain ⟨auth, behind, hshow, hauth⟩ := List.eq_append_cons_of_mem hslash
      have h0 : 0 ∉ auth ++ 47 :: behind := hshow ▸ r.frontText_nul_free
      rw [List.mem_append, List.mem_cons, not_or, not_or] at h0
      have htext : r.authorityText ++ (path.rdropWhile isBlank ++ 0 :: rest) =
          auth ++ 47 :: (behind ++ (58 :: portText r.port ++ path.rdropWhile isBlank) ++ 0 :: rest) := by
        rw [authorityText, hshow]
        simp only [List.append_assoc, List.cons_append]
      have hdirectory : 0 ∉ behind ++ (58 :: portText r.port ++ path.rdropWhile isBlank) := by
        have hkept0 : 0 ∉ path.rdropWhile isBlank := fun h =>
          hnul ((List.rdropWhile_prefix isBlank path).subset h)
        simp [h0.2.2, (portText_plain r.port).2, hkept0]
      rw [htext, hbehind hauth h0.1 hdirectory (not_lt.mp hret) hplain.parseUrl]
      constructor
      · rintro ⟨parsed, hparsed, hsame⟩
        by_cases hnil : auth = []
        · simp only [if_pos hnil] at hparsed
          obtain rfl : _ = parsed := congrArg Prod.snd (Except.ok.inj hparsed)
          have hnone := hsame.hostname
          rw [(hset _).hostname] at hnone
          cases hnone
        · simp only [if_neg hnil, zero_result] at hparsed
          exact absurd hsame (slash_lost hfront (hset _) h0.1 hshow _ hparsed)
      · intro h
        have hfree := frontText_slash_free ⟨h.user, h.host.1⟩
        exact absurd hslash hfree
    · have hauth : 47 ∉ r.authorityText := by
        rw [authorityText, List.mem_append, List.mem_cons, not_or, not_or]
        exact ⟨hslash, by decide, (portText_plain r.port).1⟩
      have hne : r.authorityText ≠ [] := by simp [authorityText]
      rw [hkept, List.cons_append,
        hbehind hauth r.authorityText_nul_free hdir0 (not_lt.mp hret) hplain.parseUrl]
      have hwhole := @whole_iff r path _ (hset (47 :: dir)) (r.protocol.urlScheme ++ ascii "://")
        (dir ++ 0 :: rest)
      simp only [if_neg hne, zero_result]
      rw [hwhole, setDirectory_protonum, ← hkept]
      obtain ⟨huser, hhost⟩ := slash_free_of_frontText hslash
      constructor
      · rintro ⟨⟨hlogin, hat⟩, hport, hprotonum, hdirectory⟩
        exact ⟨fun u hu => ⟨(hlogin u hu).1, huser u hu, (hlogin u hu).2⟩, ⟨hhost, hat⟩, hport,
          ⟨not_lt.mp hret, hprotonum⟩, hdirectory, fun h => by cases h⟩
      · intro h
        exact ⟨⟨fun u hu => ⟨(h.user u hu).1, (h.user u hu).2.2⟩, h.host.2⟩, h.port, h.started.2,
          h.directory⟩

theorem urlText_ne_nil (r : ConnectedRequest) (path : Bytes) : r.urlText path ≠ [] := by
  simp [urlText, authorityText]

theorem buildPath_head (r : ConnectedRequest) (vms : Bool) (file : Bytes) :
    (gftpBuildPath vms r.directory.bytes file).head? = some 47 := by
  obtain ⟨t, ht⟩ := List.head?_eq_some_iff.mp r.absolute
  unfold gftpBuildPath
  rw [ht]
  split_ifs <;> rfl

theorem listboxDrag_eq (r : ConnectedRequest) (vms : Bool) {file : Bytes} (hfile : file ≠ ascii "..")
    (isDir : Bool) : listboxDrag r.window vms file isDir =
      some (if isDir then r.urlText (gftpBuildPath vms r.directory.bytes file) ++ [47]
        else r.urlText (gftpBuildPath vms r.directory.bytes file)) := by
  have hlocal : r.window.protonum ≠ gftpLocalNum := by
    show r.protocol.protonum ≠ gftpLocalNum
    cases r.protocol <;> decide
  have hhost : r.window.hostname = some r.hostname.bytes := rfl
  have hlogin : r.loginText = if r.window.username.getD [] = [] then []
      else r.window.username.getD [] ++ [64] := by
    unfold loginText window
    cases r.username <;> rfl
  have hurl : ∀ df, (if r.window.username.getD [] = [] then
        r.window.urlScheme ++ (ascii "://" ++ (r.hostname.bytes ++ 58 :: portText r.window.port ++ df))
      else r.window.urlScheme ++ (ascii "://" ++ (r.window.username.getD [] ++
        64 :: (r.hostname.bytes ++ 58 :: portText r.window.port ++ df)))) = r.urlText df := by
    intro df
    rw [urlText, authorityText, frontText, hlogin]
    split_ifs
    · rfl
    · simp only [List.append_assoc, List.cons_append, List.nil_append]
      rfl
  rw [listboxDrag, if_neg hfile]
  simp only [hhost, if_neg hlocal, hurl]
  rfl

/-- dnd_remote_file behind the cut of a slash at the end. -/
theorem dropped_iff (isDir : Bool) {ret : ℤ} {parsed : UrlRequest} (hpath : path.head? = some 47) :
    (∃ d, dropped isDir ret parsed = some d ∧ d.request.protonum = r.protocol.protonum ∧
      d.request.username = r.username.map CString.bytes ∧
      d.request.hostname = some r.hostname.bytes ∧ d.request.port = r.port ∧ d.file = path ∧
      d.isDir = isDir) ↔ ret = 0 ∧ Same r path parsed := by
  have hslash : 47 ∈ path := List.mem_of_head? hpath
  constructor
  · rintro ⟨d, hd, hprotonum, huser, hhost, hport, hfile, -⟩
    unfold dropped at hd
    cases hdirectory : parsed.directory with
    | none => simp [hdirectory] at hd
    | some directory =>
      simp only [hdirectory] at hd
      split_ifs at hd with hbad
      obtain rfl := Option.some.inj hd
      rw [not_or, not_not] at hbad
      exact ⟨hbad.1, hprotonum, huser, hhost, hport, hdirectory.trans (congrArg some hfile)⟩
  · rintro ⟨rfl, h⟩
    refine ⟨⟨parsed, path, isDir⟩, ?_, h.protonum, h.username, h.hostname, h.port, rfl, rfl⟩
    simp only [dropped, h.directory]
    rw [if_neg (by simp [hslash])]

/-- The flag is the slash at the end of the URL. -/
theorem dnd_isDir {url : CString} {d : Dropped} (h : dndRemoteFile env url = .ok (some d)) :
    d.isDir = decide (url.bytes.getLast? = some 47) := by
  unfold dndRemoteFile at h
  split_ifs at h
  · obtain ⟨⟨ret, parsed⟩, -, hdropped⟩ := CRun.bind_eq_ok.mp h
    have hsome : dropped _ ret parsed = some d := Except.ok.inj hdropped
    unfold dropped at hsome
    split at hsome
    · cases hsome
    · split_ifs at hsome
      exact congrArg Dropped.isDir (Option.some.inj hsome).symm

theorem dnd_iff (env : UrlEnv) {url url' : CString} {isDir : Bool} (hurl : url.bytes ≠ [])
    (hflag : decide (url.bytes.getLast? = some 47) = isDir)
    (hcut : (if isDir then cutLast url else url) = url') (hurl' : url'.bytes = r.urlText path)
    (hpath : path.head? = some 47) (hnul : 0 ∉ path) :
    (∃ d, dndRemoteFile env url = .ok (some d) ∧ d.request.protonum = r.protocol.protonum ∧
      d.request.username = r.username.map CString.bytes ∧
      d.request.hostname = some r.hostname.bytes ∧ d.request.port = r.port ∧ d.file = path ∧
      d.isDir = isDir) ↔ Fits env r path true := by
  have hrun : dndRemoteFile env url = gftpParseUrl env url' >>= fun result =>
      .ok (dropped isDir result.1 result.2) := by
    rw [dndRemoteFile, if_neg hurl]
    simp only [hflag, hcut]
    rfl
  rw [← parsed_iff hurl' hpath hnul, hrun]
  constructor
  · rintro ⟨d, hd, hsame⟩
    obtain ⟨⟨ret, parsed⟩, hparse, hdropped⟩ := CRun.bind_eq_ok.mp hd
    obtain ⟨rfl, h⟩ := (dropped_iff isDir hpath).mp ⟨d, Except.ok.inj hdropped, hsame⟩
    exact ⟨parsed, hparse, h⟩
  · rintro ⟨parsed, hparse, h⟩
    obtain ⟨d, hdropped, hsame⟩ := (dropped_iff isDir hpath).mpr ⟨rfl, h⟩
    refine ⟨d, ?_, hsame⟩
    rw [hparse, CRun.ok_bind]
    exact congrArg Except.ok hdropped

end ConnectedRequest

theorem buildPath_nul_free (r : ConnectedRequest) (vms : Bool) (file : CString) :
    0 ∉ gftpBuildPath vms r.directory.bytes file.bytes := by
  have hdirectory := r.directory.nul_free
  have hfile := file.nul_free
  unfold gftpBuildPath
  split_ifs
  · exact hdirectory
  · simp [hdirectory, hfile]
  · simp [hdirectory, hfile]
  · simp [hdirectory, hfile]

theorem urlText_nul_free (r : ConnectedRequest) {path : Bytes} (hnul : 0 ∉ path) :
    0 ∉ r.urlText path := by
  simp only [ConnectedRequest.urlText, List.mem_append, not_or]
  exact ⟨r.protocol.urlScheme_plain.2.1, by decide, r.authorityText_nul_free, hnul⟩

theorem urlText_getLast (r : ConnectedRequest) {path : Bytes} (hpath : path.head? = some 47) :
    (r.urlText path).getLast? = path.getLast? := by
  have hne : path ≠ [] := fun hnil => by simp [hnil] at hpath
  rw [ConnectedRequest.urlText, ← List.append_assoc, ← List.append_assoc]
  exact List.getLast?_append_of_ne_nil _ hne

theorem cstring_eq {a b : CString} (h : a.bytes = b.bytes) : a = b := by
  cases a
  cases b
  simpa using h

theorem fits_iff {env : UrlEnv} {r : ConnectedRequest} {path : Bytes} {isDir : Bool} :
    Fits env r path isDir ↔ Fits env r path true ∧ (isDir = false → path.getLast? ≠ some 47) := by
  constructor
  · exact fun h => ⟨⟨h.user, h.host, h.port, h.started, h.directory, fun h => by cases h⟩, h.file⟩
  · exact fun h => ⟨h.1.user, h.1.host, h.1.port, h.1.started, h.1.directory, h.2⟩

/-- The request and the path come back exactly when no part of the URL has a separator in
the wrong place. -/
theorem drag_returned_iff (env : UrlEnv) (r : ConnectedRequest) (vms : Bool) (file : CString)
    (isDir : Bool) : Returned env r vms file isDir ↔
      file.bytes = ascii ".." ∨ Fits env r (gftpBuildPath vms r.directory.bytes file.bytes) isDir := by
  by_cases hfile : file.bytes = ascii ".."
  · refine iff_of_true (fun url hurl => ?_) (Or.inl hfile)
    rw [listboxDrag, if_pos hfile] at hurl
    cases hurl
  have hpath := r.buildPath_head vms file.bytes
  have hnul := buildPath_nul_free r vms file
  rw [or_iff_right hfile, Returned, r.listboxDrag_eq vms hfile isDir, fits_iff]
  generalize gftpBuildPath vms r.directory.bytes file.bytes = path at hpath hnul ⊢
  have htext := urlText_nul_free r hnul
  have hne := r.urlText_ne_nil path
  cases isDir with
  | true =>
    let url : CString := ⟨r.urlText path ++ [47], by simp [htext]⟩
    let cut : CString := ⟨r.urlText path, htext⟩
    have hcut : (if true then cutLast url else url) = cut := cstring_eq List.dropLast_concat
    have hflag : decide (url.bytes.getLast? = some 47) = true := by simp [url]
    have hiff := ConnectedRequest.dnd_iff env (by simp [url]) hflag hcut rfl hpath hnul
    constructor
    · exact fun h => ⟨hiff.mp (h url rfl), fun h => by cases h⟩
    · rintro ⟨hfits, -⟩ url' hurl'
      obtain rfl : url = url' := cstring_eq (Option.some.inj hurl')
      exact hiff.mpr hfits
  | false =>
    let url : CString := ⟨r.urlText path, htext⟩
    have hlast : url.bytes.getLast? = path.getLast? := urlText_getLast r hpath
    by_cases hslash : path.getLast? = some 47
    · refine iff_of_false (fun h => ?_) fun h => h.2 rfl hslash
      obtain ⟨d, hd, -, -, -, -, -, hfile'⟩ := h url rfl
      have hflag := ConnectedRequest.dnd_isDir hd
      rw [hfile', hlast, hslash] at hflag
      cases hflag
    · have hcut : (if false then cutLast url else url) = url := rfl
      have hflag : decide (url.bytes.getLast? = some 47) = false := by
        rw [hlast]
        exact decide_eq_false hslash
      have hiff := ConnectedRequest.dnd_iff env hne hflag hcut rfl hpath hnul
      constructor
      · exact fun h => ⟨hiff.mp (h url rfl), fun _ => hslash⟩
      · rintro ⟨hfits, -⟩ url' hurl'
        obtain rfl : url = url' := cstring_eq (Option.some.inj hurl')
        exact hiff.mpr hfits

theorem host_nul_free : 0 ∉ ascii "host" := by decide

theorem pub_nul_free : 0 ∉ ascii "/pub" := by decide

theorem blank_name_nul_free : 0 ∉ ascii "a " := by decide

theorem blank_url_nul_free : 0 ∉ ascii "ftp://host:21/pub/a " := by decide

def anonymousRequest : ConnectedRequest :=
  ⟨.ftp, ⟨ascii "host", host_nul_free⟩, none, 21, ⟨ascii "/pub", pub_nul_free⟩, rfl⟩

/-- A name that ends in a blank comes back without it. -/
theorem blank_name_lost :
    listboxDrag anonymousRequest.window false (ascii "a ") false = some (ascii "ftp://host:21/pub/a ") ∧
      ¬ Returned plainEnv anonymousRequest false ⟨ascii "a ", blank_name_nul_free⟩ false := by
  refine ⟨rfl, fun h => ?_⟩
  obtain ⟨d, hd, -, -, -, -, hfile, -⟩ := h ⟨ascii "ftp://host:21/pub/a ", blank_url_nul_free⟩ rfl
  have hrun : dndRemoteFile plainEnv ⟨ascii "ftp://host:21/pub/a ", blank_url_nul_free⟩ =
      .ok (some ⟨⟨0, some (ascii "host"), none, none, some (ascii "/pub/a"), 21, -1, false, false⟩,
        ascii "/pub/a", false⟩) := rfl
  obtain rfl := Option.some.inj (Except.ok.inj (hrun.symm.trans hd))
  exact absurd hfile (by decide)

end Gftp.DragUrls
