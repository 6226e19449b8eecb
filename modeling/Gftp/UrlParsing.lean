import Gftp.Decimal
import Gftp.ListingParsers
import Gftp.TextIndices

/-!
gftp_parse_url. The string is copied and cut in place: blanks off both ends, the protocol
in front of ://, the directory at the first slash, the port behind the last colon when only
digits follow it, the host behind the last at-sign and the user at the first colon. Two of
the cuts walk backwards and look for no lower end. The walk over the blanks leaves a copy
without a byte; the walk over the digits leaves a copy that begins with nothing else, while
behind a protocol the slashes stop it.
-/

namespace Gftp.UrlParsing

open ByteStrings TextPointers TextIndices Decimal Protocol
open ListingParsers (isBlank)

/-- What gftp_parse_url sets of a request. parseUrl says that the request has a parse_url
function. -/
structure UrlRequest where
  protonum : ℕ
  hostname : Option Bytes
  username : Option Bytes
  password : Option Bytes
  directory : Option Bytes
  port : UInt32
  datafd : ℤ
  alwaysConnected : Bool
  parseUrl : Bool
  deriving DecidableEq

/-- The request after gftp_request_destroy. -/
def gftpRequestDestroy : UrlRequest := ⟨0, none, none, none, none, 0, -1, false, false⟩

/-- The options and the outer functions, of which nothing is asked. chdir is the directory that a
request comes to that is always connected, none when it fails: for HTTP the path expanded, for
the others what the system or the server answers. -/
structure UrlEnv where
  proxyConfig : Bytes
  defaultProtocol : Option Bytes
  useSsl : Bool
  gftpSslStartup : ℤ
  localFilesystem : Bytes
  chdir : ℕ → Bytes → Option Bytes
  gftpParseBookmark : Bytes → ℤ × UrlRequest

def gftpFtpNum : ℕ := 0
def gftpFtpsNum : ℕ := 1
def gftpHttpNum : ℕ := 2
def gftpHttpsNum : ℕ := 3
def gftpLocalNum : ℕ := 4
def gftpSshv2Num : ℕ := 5
def gftpBookmarkNum : ℕ := 6
def gftpFspNum : ℕ := 7

section Init

/-- What a protocol with SSL returns. -/
def sslStartup (env : UrlEnv) : ℤ := if env.gftpSslStartup < 0 then env.gftpSslStartup else 0

def rfc2068Init (r : UrlRequest) : ℤ × UrlRequest :=
  (0, { r with protonum := gftpHttpNum, parseUrl := false, alwaysConnected := true })

def httpsInit (env : UrlEnv) (r : UrlRequest) : ℤ × UrlRequest :=
  if env.useSsl then
    (sslStartup env, { (rfc2068Init r).2 with protonum := gftpHttpsNum })
  else (GftpError.fatal.code, r)

/-- rfc959_init with rfc959_set_config_options. -/
def rfc959Init (env : UrlEnv) (r : UrlRequest) : ℤ × UrlRequest :=
  let r := { r with protonum := gftpFtpNum, parseUrl := false, alwaysConnected := false }
  if env.proxyConfig = ascii "http" then rfc2068Init r else (0, r)

def ftpsInit (env : UrlEnv) (r : UrlRequest) : ℤ × UrlRequest :=
  if env.useSsl then
    (sslStartup env, { (rfc959Init env r).2 with protonum := gftpFtpsNum })
  else (GftpError.fatal.code, r)

def localInit (env : UrlEnv) (r : UrlRequest) : ℤ × UrlRequest :=
  (0, { r with protonum := gftpLocalNum, parseUrl := false, alwaysConnected := true,
               hostname := some env.localFilesystem })

def sshv2Init (r : UrlRequest) : ℤ × UrlRequest :=
  (0, { r with protonum := gftpSshv2Num, parseUrl := false, alwaysConnected := false })

def bookmarkInit (r : UrlRequest) : ℤ × UrlRequest :=
  (0, { r with protonum := gftpBookmarkNum, parseUrl := true, alwaysConnected := false })

def fspInit (r : UrlRequest) : ℤ × UrlRequest :=
  (0, { r with protonum := gftpFspNum, parseUrl := false, alwaysConnected := false })

end Init

structure SupportedProtocol where
  name : Bytes
  init : UrlEnv → UrlRequest → ℤ × UrlRequest
  urlScheme : Bytes

def ftpProtocol : SupportedProtocol := ⟨ascii "FTP", rfc959Init, ascii "ftp"⟩

/-- gftp_protocols, urlScheme being its url_prefix. -/
def gftpProtocols : List SupportedProtocol :=
  [ftpProtocol,
   ⟨ascii "FTPS", ftpsInit, ascii "ftps"⟩,
   ⟨ascii "HTTP", fun _ => rfc2068Init, ascii "http"⟩,
   ⟨ascii "HTTPS", httpsInit, ascii "https"⟩,
   ⟨ascii "Local", localInit, ascii "file"⟩,
   ⟨ascii "SSH2", fun _ => sshv2Init, ascii "ssh2"⟩,
   ⟨ascii "Bookmark", fun _ => bookmarkInit, ascii "bookmark"⟩,
   ⟨ascii "FSP", fun _ => fspInit, ascii "fsp"⟩]

/-- The protocol of a text that names none. -/
def defaultProtocol (env : UrlEnv) : Option SupportedProtocol :=
  match env.defaultProtocol with
  | none | some [] => some ftpProtocol
  | some name => gftpProtocols.find? fun p => p.name = name

/-- The protocol and the position behind it. -/
def takeProtocol (env : UrlEnv) (newUrl : Bytes) :
    CRun (Bytes × Option (SupportedProtocol × ℕ)) := do
  match ← strstr newUrl 0 (ascii "://") with
  | some pos =>
      let newUrl ← writeAt newUrl pos 0
      let scheme ← textFrom newUrl 0
      match gftpProtocols.find? fun p => p.urlScheme = scheme with
      | none => return (newUrl, none)
      | some protocol => return (← writeAt newUrl pos 58, some (protocol, pos + 3))
  | none => return (newUrl, (defaultProtocol env).map fun protocol => (protocol, 0))

def gftpSetDirectory (env : UrlEnv) (r : UrlRequest) (directory : Bytes) : UrlRequest :=
  if r.datafd ≤ 0 ∧ r.alwaysConnected = false then { r with directory := some directory }
  else { r with directory := env.chdir r.protonum directory }

/-- The text is cut at its first slash, whose position is returned. -/
def takeDirectory (env : UrlEnv) (newUrl : Bytes) (pos : ℕ) (r : UrlRequest) :
    CRun (Bytes × Option ℕ × UrlRequest) := do
  match ← strchr newUrl pos 47 with
  | none => return (newUrl, none, r)
  | some endpos =>
      let r := gftpSetDirectory env r (← textFrom newUrl endpos)
      return (← writeAt newUrl endpos 0, some endpos, r)

def bookmarkParseUrl (env : UrlEnv) (r : UrlRequest) (url : Bytes) : CRun (ℤ × UrlRequest) := do
  match ← strstr url 0 (ascii "://") with
  | none => return env.gftpParseBookmark (← textFrom url 0)
  | some pos =>
      if (← textFrom url 0).take 11 ≠ ascii "bookmark://" then return (GftpError.fatal.code, r)
      else return env.gftpParseBookmark (← textFrom url (pos + 3))

/-- The walk over the digits, from the byte in front of endpos on. The port is what follows
a colon that it stops at. -/
def takePort (newUrl : Bytes) (endpos : ℕ) (r : UrlRequest) : CRun (Bytes × UrlRequest) := do
  let endpos ← skipBack isDigit newUrl endpos
  if (← readAt newUrl endpos) = 58 then
    if isDigit (← readAt newUrl (endpos + 1)) then
      let r := { r with port := UInt32.ofInt (strtol (← textFrom newUrl (endpos + 1))) }
      return (← writeAt newUrl endpos 0, r)
    else return (newUrl, r)
  else return (newUrl, r)

/-- The user and the password behind the first colon. -/
def takeLogin (newUrl : Bytes) (pos : ℕ) (r : UrlRequest) : CRun UrlRequest := do
  match ← strchr newUrl pos 58 with
  | some endpos =>
      let newUrl ← writeAt newUrl endpos 0
      return { r with username := some (← textFrom newUrl pos),
                      password := some (← textFrom newUrl (endpos + 1)) }
  | none => return { r with username := some (← textFrom newUrl pos), password := some [] }

/-- The host behind the last at-sign and the login in front of it. -/
def takeUser (newUrl : Bytes) (pos : ℕ) (r : UrlRequest) : CRun UrlRequest := do
  match ← strrchr newUrl pos 64 with
  | none => return { r with hostname := some (← textFrom newUrl pos) }
  | some endpos =>
      let r := { r with hostname := some (← textFrom newUrl (endpos + 1)) }
      takeLogin (← writeAt newUrl endpos 0) pos r

/-- The index behind the last byte in front of the directory. -/
def authorityEnd (newUrl : Bytes) (pos : ℕ) : Option ℕ → CRun ℕ
  | none => do return pos + (← strlen newUrl pos)
  | some endpos => return endpos

def parseAuthority (newUrl : Bytes) (pos : ℕ) (endpos : Option ℕ) (r : UrlRequest) :
    CRun UrlRequest := do
  let (newUrl, r) ← takePort newUrl (← authorityEnd newUrl pos endpos) r
  takeUser newUrl pos r

/-- The part of gftp_parse_url behind the protocol. -/
def parseBehind (env : UrlEnv) (protocol : SupportedProtocol) (newUrl : Bytes) (pos : ℕ) :
    CRun (ℤ × UrlRequest) := do
  let (ret, r) := protocol.init env gftpRequestDestroy
  if ret < 0 then return (ret, gftpRequestDestroy)
  let (newUrl, endpos, r) ← takeDirectory env newUrl pos r
  if r.parseUrl then bookmarkParseUrl env r newUrl
  else if (← readAt newUrl pos) = 0 then return (0, r)
  else return (0, ← parseAuthority newUrl pos endpos r)

/-- The part of gftp_parse_url behind the loops over the blanks. -/
def parseCopy (env : UrlEnv) (newUrl : Bytes) : CRun (ℤ × UrlRequest) := do
  match ← takeProtocol env newUrl with
  | (_, none) => return (GftpError.fatal.code, gftpRequestDestroy)
  | (newUrl, some (protocol, pos)) => parseBehind env protocol newUrl pos

/-- gftp_parse_url. -/
def gftpParseUrl (env : UrlEnv) (url : CString) : CRun (ℤ × UrlRequest) := do
  let newUrl := url.bytes.dropWhile isBlank ++ [0]
  parseCopy env (← clearBack isBlank newUrl (← strlen newUrl 0))

section Cuts

variable {env : UrlEnv} {front auth rest : Bytes}

/-- The text of a URL without the blanks around it. -/
def trimmed (url : Bytes) : Bytes := (url.dropWhile isBlank).rdropWhile isBlank

theorem trimmed_nul_free {url : Bytes} (h : 0 ∉ url) : 0 ∉ trimmed url := fun h0 =>
  h ((List.dropWhile_suffix isBlank).subset ((List.rdropWhile_prefix isBlank _).subset h0))

theorem dropWhile_eq_nil {url : Bytes} (h : trimmed url = []) : url.dropWhile isBlank = [] := by
  cases hcopy : url.dropWhile isBlank with
  | nil => rfl
  | cons b copy =>
    have hhead := List.head?_dropWhile_not isBlank url
    rw [hcopy, List.head?_cons] at hhead
    have hblank : isBlank b = true := List.rdropWhile_eq_nil_iff.mp h b (by simp [hcopy])
    simp [hblank] at hhead

theorem takeProtocol_at {u : Bytes} (hu : 0 ∉ u)
    (hfind : strstr (u ++ (ascii "://" ++ rest)) 0 (ascii "://") = .ok (some u.length)) :
    takeProtocol env (u ++ (ascii "://" ++ rest)) =
      match gftpProtocols.find? fun p => p.urlScheme = u with
      | none => .ok (u ++ (0 :: ascii "//" ++ rest), none)
      | some p => .ok (u ++ (ascii "://" ++ rest), some (p, (u ++ ascii "://").length)) := by
  have hcut : writeAt (u ++ (ascii "://" ++ rest)) u.length 0 = .ok (u ++ (0 :: ascii "//" ++ rest)) :=
    writeAt_front u 58 (ascii "//" ++ rest) 0
  have htext : textFrom (u ++ (0 :: ascii "//" ++ rest)) 0 = .ok u := textFrom_text hu [] _
  have hback : writeAt (u ++ (0 :: ascii "//" ++ rest)) u.length 58 = .ok (u ++ (ascii "://" ++ rest)) :=
    writeAt_front u 0 (ascii "//" ++ rest) 58
  rw [takeProtocol, hfind, CRun.ok_bind]
  simp only [hcut, htext, CRun.ok_bind]
  cases gftpProtocols.find? fun p => p.urlScheme = u with
  | none => rfl
  | some p =>
    simp only [hback, CRun.ok_bind, List.length_append]
    rfl

theorem takeDirectory_slash {dir : Bytes} (hauth : 47 ∉ auth) (h0 : 0 ∉ auth) (hdir : 0 ∉ dir)
    (r : UrlRequest) :
    takeDirectory env (front ++ (auth ++ 47 :: (dir ++ 0 :: rest))) front.length r =
      .ok (front ++ (auth ++ 0 :: (dir ++ 0 :: rest)), some (front ++ auth).length,
        gftpSetDirectory env r (47 :: dir)) := by
  have htext : textFrom (front ++ auth ++ 47 :: (dir ++ 0 :: rest)) (front ++ auth).length =
      .ok (47 :: dir) := by
    have hnul : 0 ∉ 47 :: dir := by
      rw [List.mem_cons, not_or]
      exact ⟨by decide, hdir⟩
    exact textFrom_text hnul (front ++ auth) rest
  rw [takeDirectory, strchr_first hauth h0, CRun.ok_bind, ← List.append_assoc]
  simp only [htext, CRun.ok_bind, writeAt_front]
  rw [List.append_assoc]
  rfl

theorem takeDirectory_none (hauth : 47 ∉ auth) (h0 : 0 ∉ auth) (r : UrlRequest) :
    takeDirectory env (front ++ (auth ++ 0 :: rest)) front.length r =
      .ok (front ++ (auth ++ 0 :: rest), none, r) := by
  rw [takeDirectory, strchr_none hauth (by decide) h0]
  rfl

theorem digits_nul_free {digits : Bytes} (h : ∀ b ∈ digits, isDigit b = true) : 0 ∉ digits := by
  intro h0
  have hdigit := h 0 h0
  cases hdigit

theorem strtol_unsigned {digits : Bytes} (hne : digits ≠ []) (hdigits : ∀ b ∈ digits, isDigit b = true)
    (hfits : digitsValue digits < 2 ^ 32) :
    UInt32.ofInt (strtol digits) = UInt32.ofNat (digitsValue digits) := by
  have hread := @strtol_digits digits [] hne hdigits (by simp)
  rw [List.append_nil, clampLong_eq (by omega) (by omega)] at hread
  rw [hread, UInt32.ofInt]
  congr 1
  omega

theorem takePort_colon {digits : Bytes} (hne : digits ≠ []) (hdigits : ∀ b ∈ digits, isDigit b = true)
    (front rest : Bytes) (r : UrlRequest) :
    takePort (front ++ 58 :: (digits ++ 0 :: rest)) (front.length + 1 + digits.length) r =
      .ok (front ++ 0 :: (digits ++ 0 :: rest),
        { r with port := UInt32.ofInt (strtol digits) }) := by
  have hfirst : isDigit (digits.headD 0) = true := by
    obtain ⟨d, ds, rfl⟩ := List.exists_cons_of_ne_nil hne
    exact hdigits d (List.mem_cons_self ..)
  rw [takePort, skipBack_stop (by decide) hdigits, CRun.ok_bind, readAt_front, CRun.ok_bind, if_pos rfl,
    readAt_behind, CRun.ok_bind, if_pos hfirst, textFrom_behind (digits_nul_free hdigits), CRun.ok_bind,
    writeAt_front]
  rfl

/-- No port when the walk stops at another byte than a colon or at a colon at the end. -/
theorem takePort_stop {b : UInt8} {digits : Bytes} (hb : isDigit b = false)
    (hdigits : ∀ b ∈ digits, isDigit b = true) (h : b = 58 → digits = [])
    (front rest : Bytes) (r : UrlRequest) :
    takePort (front ++ b :: (digits ++ 0 :: rest)) (front.length + 1 + digits.length) r =
      .ok (front ++ b :: (digits ++ 0 :: rest), r) := by
  rw [takePort, skipBack_stop hb hdigits, CRun.ok_bind, readAt_front, CRun.ok_bind]
  split_ifs with hcolon
  · rw [h hcolon, readAt_behind]
    rfl
  · rfl

/-- Without another byte in front of the digits the walk leaves the text. -/
theorem takePort_fault {digits : Bytes} (hdigits : ∀ b ∈ digits, isDigit b = true) (rest : Bytes)
    (r : UrlRequest) : takePort (digits ++ rest) digits.length r = .error .fault := by
  rw [takePort, skipBack_fault hdigits]
  rfl

theorem takeUser_host {host : Bytes} (hat : 64 ∉ host) (h0 : 0 ∉ host) (r : UrlRequest) :
    takeUser (front ++ (host ++ 0 :: rest)) front.length r = .ok { r with hostname := some host } := by
  rw [takeUser, strrchr_none hat h0, CRun.ok_bind]
  simp only [textFrom_text h0, CRun.ok_bind]
  rfl

theorem takeUser_at {user host : Bytes} (hat : 64 ∉ host) (h0 : 0 ∉ user ++ 64 :: host) (r : UrlRequest) :
    takeUser (front ++ (user ++ 64 :: host ++ 0 :: rest)) front.length r =
      takeLogin (front ++ (user ++ 0 :: (host ++ 0 :: rest))) front.length
        { r with hostname := some host } := by
  have hhost : 0 ∉ host := fun h => h0 (by simp [h])
  have hshow : front ++ (user ++ 64 :: host ++ 0 :: rest) = front ++ user ++ 64 :: (host ++ 0 :: rest) := by
    simp only [List.append_assoc, List.cons_append]
  rw [takeUser, strrchr_last hat h0, CRun.ok_bind, hshow]
  simp only [textFrom_behind hhost, writeAt_front, CRun.ok_bind]
  rw [List.append_assoc]

theorem takeLogin_user {user : Bytes} (hcolon : 58 ∉ user) (h0 : 0 ∉ user) (r : UrlRequest) :
    takeLogin (front ++ (user ++ 0 :: rest)) front.length r =
      .ok { r with username := some user, password := some [] } := by
  rw [takeLogin, strchr_none hcolon (by decide) h0, CRun.ok_bind]
  simp only [textFrom_text h0, CRun.ok_bind]
  rfl

theorem takeLogin_password {user password : Bytes} (hcolon : 58 ∉ user) (h0 : 0 ∉ user)
    (hpassword : 0 ∉ password) (r : UrlRequest) :
    takeLogin (front ++ (user ++ 58 :: password ++ 0 :: rest)) front.length r =
      .ok { r with username := some user, password := some password } := by
  have huser : textFrom (front ++ user ++ 0 :: (password ++ 0 :: rest)) front.length = .ok user := by
    rw [List.append_assoc]
    exact textFrom_text h0 front _
  rw [takeLogin, List.append_assoc user, List.cons_append, strchr_first hcolon h0, CRun.ok_bind,
    ← List.append_assoc]
  simp only [writeAt_front, CRun.ok_bind, huser, textFrom_behind hpassword]
  rfl

/-- The host behind the last at-sign and the user in front of the first colon; without an
at-sign the user is what it was. -/
def Splits (left : Bytes) (user : Option Bytes) (hostname : Bytes) (username : Option Bytes) : Prop :=
  (64 ∉ left ∧ hostname = left ∧ username = user) ∨
    ∃ login, left = login ++ 64 :: hostname ∧ 64 ∉ hostname ∧
      username = some (login.takeWhile fun b => b ≠ 58)

theorem takeLogin_splits {login : Bytes} (h0 : 0 ∉ login) (front rest : Bytes) (r : UrlRequest) :
    ∃ password, takeLogin (front ++ (login ++ 0 :: rest)) front.length r =
      .ok { r with username := some (login.takeWhile fun b => b ≠ 58), password := password } := by
  by_cases hcolon : 58 ∈ login
  · obtain ⟨name, password, rfl, hname⟩ := List.eq_append_cons_of_mem hcolon
    rw [List.mem_append, List.mem_cons, not_or, not_or] at h0
    refine ⟨some password, ?_⟩
    rw [takeLogin_password hname h0.1 h0.2.2,
      List.takeWhile_append_of_pos fun b hb => by simpa using ne_of_mem_of_not_mem hb hname]
    simp
  · refine ⟨some [], ?_⟩
    rw [takeLogin_user hcolon h0, List.takeWhile_eq_self_iff.mpr fun b hb => by
      simpa using ne_of_mem_of_not_mem hb hcolon]

theorem takeUser_splits {left : Bytes} (h0 : 0 ∉ left) (front rest : Bytes) (r : UrlRequest) :
    ∃ hostname username password, Splits left r.username hostname username ∧
      takeUser (front ++ (left ++ 0 :: rest)) front.length r =
        .ok { r with hostname := some hostname, username := username, password := password } := by
  by_cases hat : 64 ∈ left
  · obtain ⟨login, b, host, rfl, hb, hhost⟩ :=
      @exists_last (fun b => decide (b ≠ 64)) _ _ hat (by simp)
    obtain rfl : b = 64 := by simpa using hb
    have hfree : 64 ∉ host := fun h => by simpa using hhost 64 h
    rw [takeUser_at hfree h0]
    obtain ⟨password, hlogin⟩ := takeLogin_splits (fun h => h0 (List.mem_append_left _ h)) front
      (host ++ 0 :: rest) { r with hostname := some host }
    exact ⟨host, _, password, Or.inr ⟨login, rfl, hfree, rfl⟩, hlogin⟩
  · exact ⟨left, r.username, r.password, Or.inl ⟨hat, rfl, rfl⟩, takeUser_host hat h0 r⟩

/-- What is left in front of the port, when the walk stops behind the protocol or at a byte
of the text. -/
theorem takePort_left (hstop : (∃ b ∈ auth, isDigit b = false) ∨ ∃ scheme, front = scheme ++ [47])
    (rest : Bytes) (r : UrlRequest) :
    ∃ left behind port, left <+: auth ∧
      takePort (front ++ (auth ++ 0 :: rest)) (front ++ auth).length r =
        .ok (front ++ (left ++ 0 :: behind), { r with port := port }) := by
  by_cases hother : ∃ b ∈ auth, isDigit b = false
  · obtain ⟨x, hx, hfalse⟩ := hother
    obtain ⟨u, b, digits, rfl, hb, hdigits⟩ := exists_last hx hfalse
    have hlength : (front ++ (u ++ b :: digits)).length = (front ++ u).length + 1 + digits.length := by
      simp only [List.length_append, List.length_cons]
      omega
    have hblock : front ++ (u ++ b :: digits ++ 0 :: rest) =
        front ++ u ++ b :: (digits ++ 0 :: rest) := by
      simp only [List.append_assoc, List.cons_append]
    rw [hlength, hblock]
    by_cases hcolon : b = 58 ∧ digits ≠ []
    · obtain ⟨rfl, hne⟩ := hcolon
      refine ⟨u, digits ++ 0 :: rest, UInt32.ofInt (strtol digits), List.prefix_append u _, ?_⟩
      rw [takePort_colon hne hdigits, List.append_assoc]
    · refine ⟨u ++ b :: digits, rest, r.port, List.prefix_refl _, ?_⟩
      rw [takePort_stop hb hdigits fun h => by_contra fun hne => hcolon ⟨h, hne⟩, hblock]
  · obtain ⟨scheme, rfl⟩ := hstop.resolve_left hother
    have hdigits : ∀ b ∈ auth, isDigit b = true := fun b hb => by
      by_contra hfalse
      exact hother ⟨b, hb, by simpa using hfalse⟩
    have hblock : scheme ++ [47] ++ (auth ++ 0 :: rest) = scheme ++ 47 :: (auth ++ 0 :: rest) := by
      simp only [List.append_assoc, List.singleton_append]
    have hlength : (scheme ++ [47] ++ auth).length = scheme.length + 1 + auth.length := by
      simp only [List.length_append, List.length_singleton]
    refine ⟨auth, rest, r.port, List.prefix_refl auth, ?_⟩
    rw [hlength, hblock]
    exact takePort_stop (by decide) hdigits (by simp) scheme rest r

/-- The text in front of the first slash. -/
def authority (text : Bytes) : Bytes := text.takeWhile fun b => b ≠ 47

theorem authority_nul_free {text : Bytes} (h : 0 ∉ text) : 0 ∉ authority text := fun h0 =>
  h ((List.takeWhile_sublist _).subset h0)

/-- What is left of the text after its cut at the first slash. -/
theorem takeDirectory_ok {text : Bytes} (h0 : 0 ∉ text) (front rest : Bytes) (r : UrlRequest) :
    ∃ behind endpos r', r'.parseUrl = r.parseUrl ∧
      (endpos = none ∨ endpos = some (front ++ authority text).length) ∧
      takeDirectory env (front ++ (text ++ 0 :: rest)) front.length r =
        .ok (front ++ (authority text ++ 0 :: behind), endpos, r') := by
  by_cases hslash : 47 ∈ text
  · obtain ⟨auth, dir, rfl, hauth⟩ := List.eq_append_cons_of_mem hslash
    have hcut : authority (auth ++ 47 :: dir) = auth := by
      unfold authority
      rw [List.takeWhile_append_of_pos fun b hb => by simpa using ne_of_mem_of_not_mem hb hauth]
      simp
    rw [List.mem_append, List.mem_cons, not_or, not_or] at h0
    refine ⟨dir ++ 0 :: rest, some (front ++ auth).length, gftpSetDirectory env r (47 :: dir), ?_, ?_, ?_⟩
    · unfold gftpSetDirectory
      split_ifs <;> rfl
    · rw [hcut]
      exact Or.inr rfl
    · rw [List.append_assoc, List.cons_append, takeDirectory_slash hauth h0.1 h0.2.2, hcut]
  · have hcut : authority text = text :=
      List.takeWhile_eq_self_iff.mpr fun b hb => by simpa using ne_of_mem_of_not_mem hb hslash
    exact ⟨rest, none, r, rfl, Or.inl rfl, by rw [hcut, takeDirectory_none hslash h0]⟩

theorem bookmarkParseUrl_ok {t : Bytes} (ht : 0 ∉ t) (rest : Bytes) (r : UrlRequest) :
    ∃ result, bookmarkParseUrl env r (t ++ 0 :: rest) = .ok result := by
  have htext : textFrom (t ++ 0 :: rest) 0 = .ok t := textFrom_text ht [] rest
  rw [bookmarkParseUrl]
  rcases @strstr_cases (ascii "://") t (by decide) (by decide) ht rest with ⟨hnone, -⟩ | ⟨u, v, rfl, hsome⟩
  · rw [hnone, CRun.ok_bind]
    simp only [htext, CRun.ok_bind]
    exact ⟨_, rfl⟩
  · have hbehind : textFrom (u ++ (ascii "://" ++ v) ++ 0 :: rest) (u.length + 3) = .ok v := by
      have hv : 0 ∉ v := fun h => ht (by simp [h])
      have h := textFrom_text hv (u ++ ascii "://") rest
      have hlength : (ascii "://").length = 3 := rfl
      rw [List.length_append, hlength] at h
      simpa only [List.append_assoc] using h
    rw [hsome, CRun.ok_bind]
    simp only [htext, hbehind, CRun.ok_bind]
    split_ifs
    · exact ⟨_, rfl⟩
    · exact ⟨_, rfl⟩

/-- A default protocol is taken for a text whose authority consists of digits. -/
def OnlyDigits (env : UrlEnv) (text : Bytes) : Prop :=
  ¬ ascii "://" <:+: text ∧
    (∃ p, defaultProtocol env = some p ∧ 0 ≤ (p.init env gftpRequestDestroy).1 ∧
      (p.init env gftpRequestDestroy).2.parseUrl = false) ∧
    authority text ≠ [] ∧ ∀ b ∈ authority text, isDigit b = true

theorem readAt_pos {t : Bytes} (h0 : 0 ∉ t) (front rest : Bytes) :
    ∃ b, readAt (front ++ (t ++ 0 :: rest)) front.length = .ok b ∧ (b = 0 ↔ t = []) := by
  refine ⟨t.headD 0, readAt_text front t rest, ?_⟩
  cases t with
  | nil => simp
  | cons b t =>
    rw [List.mem_cons, not_or] at h0
    simp [Ne.symm h0.1]

theorem authorityEnd_eq {auth : Bytes} (h0 : 0 ∉ auth) {endpos : Option ℕ}
    (hend : endpos = none ∨ endpos = some (front ++ auth).length) :
    authorityEnd (front ++ (auth ++ 0 :: rest)) front.length endpos = .ok (front ++ auth).length := by
  rw [List.length_append] at hend ⊢
  rcases hend with rfl | rfl
  · rw [authorityEnd, strlen_text h0]
    rfl
  · rfl

/-- The parts of the text in front of the directory, once its port is taken. -/
theorem parseAuthority_splits {auth left behind : Bytes} {port : UInt32} (h0 : 0 ∉ auth)
    {endpos : Option ℕ} (hend : endpos = none ∨ endpos = some (front ++ auth).length)
    {r : UrlRequest} (hleft : left <+: auth)
    (hport : takePort (front ++ (auth ++ 0 :: rest)) (front ++ auth).length r =
      .ok (front ++ (left ++ 0 :: behind), { r with port := port })) :
    ∃ hostname username password, Splits left r.username hostname username ∧
      parseAuthority (front ++ (auth ++ 0 :: rest)) front.length endpos r =
        .ok { r with port := port, hostname := some hostname, username := username,
                     password := password } := by
  obtain ⟨hostname, username, password, hsplits, huser⟩ := takeUser_splits
    (fun h => h0 (hleft.subset h)) front behind { r with port := port }
  refine ⟨hostname, username, password, hsplits, ?_⟩
  rw [parseAuthority, authorityEnd_eq h0 hend, CRun.ok_bind, hport]
  exact huser

theorem parseAuthority_ok {auth : Bytes} (h0 : 0 ∉ auth)
    (hstop : (∃ b ∈ auth, isDigit b = false) ∨ ∃ scheme, front = scheme ++ [47]) {endpos : Option ℕ}
    (hend : endpos = none ∨ endpos = some (front ++ auth).length) (rest : Bytes) (r : UrlRequest) :
    ∃ r', parseAuthority (front ++ (auth ++ 0 :: rest)) front.length endpos r = .ok r' := by
  obtain ⟨left, behind, port, hleft, hport⟩ := takePort_left hstop rest r
  obtain ⟨hostname, username, password, -, hparts⟩ := parseAuthority_splits h0 hend hleft hport
  exact ⟨_, hparts⟩

theorem parseAuthority_fault {auth : Bytes} (h0 : 0 ∉ auth) (hdigits : ∀ b ∈ auth, isDigit b = true)
    {endpos : Option ℕ} (hend : endpos = none ∨ endpos = some auth.length) (rest : Bytes)
    (r : UrlRequest) : parseAuthority (auth ++ 0 :: rest) 0 endpos r = .error .fault := by
  have hindex := @authorityEnd_eq [] rest auth h0 endpos hend
  rw [List.nil_append, List.nil_append, List.length_nil] at hindex
  rw [parseAuthority, hindex, CRun.ok_bind, takePort_fault hdigits]
  rfl

theorem gftpSetDirectory_parseUrl (env : UrlEnv) (r : UrlRequest) (directory : Bytes) :
    (gftpSetDirectory env r directory).parseUrl = r.parseUrl := by
  unfold gftpSetDirectory
  split_ifs <;> rfl

theorem parseBehind_failed {p : SupportedProtocol} (hinit : (p.init env gftpRequestDestroy).1 < 0)
    (newUrl : Bytes) (pos : ℕ) :
    parseBehind env p newUrl pos = .ok ((p.init env gftpRequestDestroy).1, gftpRequestDestroy) := by
  rw [parseBehind]
  simp only [if_pos hinit]
  rfl

/-- A text with a directory, cut in front of it. -/
theorem parseBehind_slash {p : SupportedProtocol} {auth dir : Bytes} (hauth : 47 ∉ auth) (h0 : 0 ∉ auth)
    (hdir : 0 ∉ dir) (hinit : 0 ≤ (p.init env gftpRequestDestroy).1)
    (hparse : (p.init env gftpRequestDestroy).2.parseUrl = false) (front rest : Bytes) :
    parseBehind env p (front ++ (auth ++ 47 :: (dir ++ 0 :: rest))) front.length =
      let r := gftpSetDirectory env (p.init env gftpRequestDestroy).2 (47 :: dir)
      if auth = [] then .ok (0, r)
      else do
        let r ← parseAuthority (front ++ (auth ++ 0 :: (dir ++ 0 :: rest))) front.length
          (some (front ++ auth).length) r
        return (0, r) := by
  obtain ⟨b, hread, hzero⟩ := readAt_pos h0 front (dir ++ 0 :: rest)
  have hset := gftpSetDirectory_parseUrl env (p.init env gftpRequestDestroy).2 (47 :: dir)
  rw [parseBehind]
  simp only [takeDirectory_slash hauth h0 hdir, CRun.ok_bind, hread, hset, hparse, hzero]
  rw [if_neg (not_lt.mpr hinit), if_neg Bool.false_ne_true]
  rfl

theorem parseBehind_ok {text : Bytes} (h0 : 0 ∉ text) (hfront : 0 ∉ front) (p : SupportedProtocol)
    (hstop : (p.init env gftpRequestDestroy).1 < 0 ∨ (p.init env gftpRequestDestroy).2.parseUrl = true ∨
      authority text = [] ∨ (∃ b ∈ authority text, isDigit b = false) ∨
      ∃ scheme, front = scheme ++ [47]) (rest : Bytes) :
    ∃ result, parseBehind env p (front ++ (text ++ 0 :: rest)) front.length = .ok result := by
  rw [parseBehind]
  generalize p.init env gftpRequestDestroy = start at hstop ⊢
  obtain ⟨ret, r⟩ := start
  obtain ⟨behind, endpos, r', hsame, hend, hcut⟩ := @takeDirectory_ok env text h0 front rest r
  have hauth : 0 ∉ authority text := authority_nul_free h0
  simp only [hcut, CRun.ok_bind]
  split_ifs with hret hparse
  · exact ⟨_, rfl⟩
  · obtain ⟨result, hresult⟩ := @bookmarkParseUrl_ok env (front ++ authority text)
      (by simp [hfront, hauth]) behind r'
    rw [List.append_assoc] at hresult
    exact ⟨result, hresult⟩
  · obtain ⟨b, hread, hzero⟩ := readAt_pos hauth front behind
    rw [hread, CRun.ok_bind]
    split_ifs with hb
    · exact ⟨_, rfl⟩
    · have hdigit : (∃ b ∈ authority text, isDigit b = false) ∨ ∃ scheme, front = scheme ++ [47] := by
        rw [hsame] at hparse
        rcases hstop with h | h | h | h
        · exact absurd h hret
        · exact absurd h hparse
        · exact absurd (hzero.mpr h) hb
        · exact h
      obtain ⟨result, hresult⟩ := parseAuthority_ok hauth hdigit hend behind r'
      rw [hresult]
      exact ⟨_, rfl⟩

theorem parseBehind_fault {text : Bytes} (h0 : 0 ∉ text) {p : SupportedProtocol}
    (hinit : 0 ≤ (p.init env gftpRequestDestroy).1)
    (hparse : (p.init env gftpRequestDestroy).2.parseUrl = false) (hne : authority text ≠ [])
    (hdigits : ∀ b ∈ authority text, isDigit b = true) (rest : Bytes) :
    parseBehind env p (text ++ 0 :: rest) 0 = .error .fault := by
  rw [parseBehind]
  generalize p.init env gftpRequestDestroy = start at hinit hparse ⊢
  obtain ⟨ret, r⟩ := start
  obtain ⟨behind, endpos, r', hsame, hend, hcut⟩ := @takeDirectory_ok env text h0 [] rest r
  have hauth : 0 ∉ authority text := authority_nul_free h0
  obtain ⟨b, hread, hzero⟩ := readAt_pos hauth [] behind
  rw [List.nil_append, List.nil_append, List.length_nil] at hcut
  rw [List.nil_append, List.length_nil] at hread
  have hindex := parseAuthority_fault hauth hdigits hend behind r'
  simp only [hcut, CRun.ok_bind, hread]
  rw [if_neg (not_lt.mpr hinit), if_neg (by rw [hsame, hparse]; decide), if_neg (mt hzero.mp hne), hindex]
  rfl

theorem parseCopy_named {text : Bytes} (h0 : 0 ∉ text) (h : ascii "://" <:+: text) (rest : Bytes) :
    ∃ result, parseCopy env (text ++ 0 :: rest) = .ok result := by
  rcases @strstr_cases (ascii "://") text (by decide) (by decide) h0 rest with
    ⟨-, hno⟩ | ⟨u, v, rfl, hfind⟩
  · exact absurd h hno
  · have hu : 0 ∉ u := fun h => h0 (List.mem_append_left _ h)
    have hv : 0 ∉ v := fun h => h0 (by simp [h])
    have hshow : u ++ (ascii "://" ++ v) ++ 0 :: rest = u ++ (ascii "://" ++ (v ++ 0 :: rest)) := by
      simp only [List.append_assoc]
    rw [hshow] at hfind ⊢
    rw [parseCopy, takeProtocol_at hu hfind]
    cases gftpProtocols.find? fun p => p.urlScheme = u with
    | none => exact ⟨_, rfl⟩
    | some p =>
      have hfront : 0 ∉ u ++ ascii "://" := by
        rw [List.mem_append, not_or]
        exact ⟨hu, by decide⟩
      have hslash : u ++ ascii "://" = u ++ ascii ":/" ++ [47] := by
        rw [List.append_assoc]
        rfl
      have hok := @parseBehind_ok env (u ++ ascii "://") v hv hfront p
        (Or.inr (Or.inr (Or.inr (Or.inr ⟨_, hslash⟩)))) rest
      rw [List.append_assoc] at hok
      exact hok

theorem parseCopy_unnamed {text : Bytes} (h0 : 0 ∉ text) (h : ¬ ascii "://" <:+: text)
    (rest : Bytes) :
    parseCopy env (text ++ 0 :: rest) =
      match defaultProtocol env with
      | none => .ok (GftpError.fatal.code, gftpRequestDestroy)
      | some p => parseBehind env p (text ++ 0 :: rest) 0 := by
  rcases @strstr_cases (ascii "://") text (by decide) (by decide) h0 rest with
    ⟨hnone, -⟩ | ⟨u, v, rfl, -⟩
  · rw [parseCopy, takeProtocol, hnone, CRun.ok_bind]
    cases defaultProtocol env <;> rfl
  · exact absurd ⟨u, v, List.append_assoc ..⟩ h

theorem parseCopy_ok {text : Bytes} (h0 : 0 ∉ text) (h : ¬ OnlyDigits env text) (rest : Bytes) :
    ∃ result, parseCopy env (text ++ 0 :: rest) = .ok result := by
  by_cases hnamed : ascii "://" <:+: text
  · exact parseCopy_named h0 hnamed rest
  · rw [parseCopy_unnamed h0 hnamed]
    cases hprotocol : defaultProtocol env with
    | none => exact ⟨_, rfl⟩
    | some p =>
      have hstop : (p.init env gftpRequestDestroy).1 < 0 ∨
          (p.init env gftpRequestDestroy).2.parseUrl = true ∨ authority text = [] ∨
          (∃ b ∈ authority text, isDigit b = false) ∨ ∃ scheme, ([] : Bytes) = scheme ++ [47] := by
        by_contra hno
        simp only [not_or, not_lt, not_exists, not_and] at hno
        refine h ⟨hnamed, ⟨p, hprotocol, hno.1, by simpa using hno.2.1⟩, hno.2.2.1, ?_⟩
        intro b hb
        simpa using hno.2.2.2.1 b hb
      exact @parseBehind_ok env [] text h0 (by simp) p hstop rest

theorem parseCopy_fault {text : Bytes} (h0 : 0 ∉ text) (h : OnlyDigits env text) (rest : Bytes) :
    parseCopy env (text ++ 0 :: rest) = .error .fault := by
  obtain ⟨hnamed, ⟨p, hprotocol, hinit, hparse⟩, hne, hdigits⟩ := h
  rw [parseCopy_unnamed h0 hnamed, hprotocol]
  exact parseBehind_fault h0 hinit hparse hne hdigits rest

/-- The copy of a URL without its blanks, or its end when it had nothing else. -/
theorem gftpParseUrl_copy (env : UrlEnv) (url : CString) :
    (trimmed url.bytes = [] ∧ gftpParseUrl env url = .error .fault) ∨
      (trimmed url.bytes ≠ [] ∧
        ∃ rest, gftpParseUrl env url = parseCopy env (trimmed url.bytes ++ 0 :: rest)) := by
  have hcopy : 0 ∉ url.bytes.dropWhile isBlank := fun h =>
    url.nul_free ((List.dropWhile_suffix isBlank).subset h)
  have hstrlen : strlen (url.bytes.dropWhile isBlank ++ [0]) 0 =
      .ok (url.bytes.dropWhile isBlank).length := strlen_text hcopy [] []
  have hrun : gftpParseUrl env url = clearBack isBlank (url.bytes.dropWhile isBlank ++ [0])
      (url.bytes.dropWhile isBlank).length >>= parseCopy env := by
    show strlen (url.bytes.dropWhile isBlank ++ [0]) 0 >>= _ = _
    rw [hstrlen]
    rfl
  rw [hrun]
  by_cases hne : trimmed url.bytes = []
  · refine Or.inl ⟨hne, ?_⟩
    rw [dropWhile_eq_nil hne]
    rfl
  · obtain ⟨rest, hclear⟩ := clearBack_end hne
    refine Or.inr ⟨hne, rest, ?_⟩
    rw [hclear]
    rfl

end Cuts

/-- The parser stays inside its copy for a text with more than blanks, unless it is one that
begins with digits only. -/
theorem url_read_inside_iff (env : UrlEnv) (url : CString) :
    (∃ result, gftpParseUrl env url = .ok result) ↔
      trimmed url.bytes ≠ [] ∧ ¬ OnlyDigits env (trimmed url.bytes) := by
  have h0 : 0 ∉ trimmed url.bytes := trimmed_nul_free url.nul_free
  rcases gftpParseUrl_copy env url with ⟨hnil, hfault⟩ | ⟨hne, rest, hcopy⟩
  · rw [hfault]
    constructor
    · rintro ⟨result, hresult⟩
      cases hresult
    · rintro ⟨hne, -⟩
      exact absurd hnil hne
  · rw [hcopy]
    constructor
    · rintro ⟨result, hresult⟩
      refine ⟨hne, fun hdigits => ?_⟩
      rw [parseCopy_fault h0 hdigits] at hresult
      cases hresult
    · rintro ⟨-, hother⟩
      exact parseCopy_ok h0 hother rest

/-- FTP is the default protocol and no proxy is used. -/
def plainEnv : UrlEnv :=
  ⟨[], none, true, 0, ascii "local filesystem", fun _ directory => some directory,
    fun _ => (GftpError.fatal.code, gftpRequestDestroy)⟩

theorem digits_without_nul : 0 ∉ ascii "123" := by decide

/-- For an empty text and for one of digits the walks leave the copy. -/
theorem empty_and_digits_outside :
    gftpParseUrl plainEnv ⟨[], List.not_mem_nil⟩ = .error .fault ∧
      gftpParseUrl plainEnv ⟨ascii "123", digits_without_nul⟩ = .error .fault ∧
      ¬ ∀ (env : UrlEnv) (url : CString), ∃ result, gftpParseUrl env url = .ok result := by
  refine ⟨rfl, rfl, fun h => ?_⟩
  obtain ⟨result, hresult⟩ := h plainEnv ⟨[], List.not_mem_nil⟩
  cases hresult

end Gftp.UrlParsing
