import Gftp.Calls
import Gftp.Decimal
import Gftp.Protocol
import Gftp.TextLines

/-!
An FTP client at the level of replies: rfc959_read_response, rfc959_send_command and the login
of rfc959_connect, which call each other when a reply of the 42 kind closes the connection.
What the server answers and how the system calls end is given by an environment, and all that
happens on the control connection is kept in a history, the last event first.
-/

namespace Gftp.FtpClient

open ByteStrings Calls Call Decimal Protocol

/-- The commands sent, with their arguments: type true is TYPE A and type false TYPE I, prot
true is PROT P and prot false PROT C. A line for a proxy and another command are given whole. -/
inductive Command
  | user (name : Bytes)
  | pass (password : Option Bytes)
  | acct (account : Bytes)
  | proxy (line : Bytes)
  | authTls
  | pbsz
  | prot (isPrivate : Bool)
  | syst
  | type (isAscii : Bool)
  | cwd (directory : Bytes)
  | cdup
  | pwd
  | pasv
  | epsv
  | port
  | eprt
  | rest (startsize : ℕ)
  | retr (filename : Bytes)
  | stor (filename : Bytes)
  | list (showHidden resolve : Bool)
  | abor
  | other (text : Bytes)
  deriving DecidableEq

/-- What the loop over the lines of a reply leaves: a failed read, or what stands in tempstr. -/
inductive Answer
  | failed
  | line (text : Bytes)
  deriving DecidableEq

/-- A data connection: the control connection and the operation it was made for, and whether
the server has been told of it or has told of it. -/
structure DataConnection where
  control : ℕ
  operation : ℕ
  negotiated : Bool
  deriving DecidableEq

/-- mayReconnect is the negation of dont_try_to_reconnect. A command is sent with the data
connection that is open then, on a control connection and in an operation. When the control
connection is closed some replies of the server can be left in datafd_rbuf. -/
inductive Event
  | attempted
  | opened
  | banner (a : Answer)
  | sent (c : Command) (mayReconnect : Bool) (data : Option DataConnection)
      (control : Option ℕ) (operation : ℕ)
  | reply (c : Command) (mayReconnect : Bool) (a : Answer)
  | final (a : Answer)
  | socket (closesOnExec : Bool)
  | closed (buffered : ℕ)
  deriving DecidableEq

/-- What the client meets, by the number of times it has met something: the replies, whether
a command can be written, how gftp_connect_server and gftp_ssl_session_setup end, whether a
system call succeeds, and how many replies are left in datafd_rbuf when the connection is
closed. -/
structure Environment where
  answer : ℕ → Answer
  writes : ℕ → Bool
  connects : ℕ → Except GftpError Unit
  tls : ℕ → Except GftpError Unit
  succeeds : ℕ → Bool
  buffered : ℕ → ℕ

/-- The parts of a request that these functions only read. proxyText is what
parse_ftp_proxy_string returns, when a proxy is used; authTls says that auth_tls_start is set,
as for FTPS; exts are the extensions of file names with ascii_binary. -/
structure Options where
  username : Bytes
  password : Option Bytes
  account : Option Bytes
  proxyText : Option Bytes
  authTls : Bool
  asciiTransfers : Bool
  exts : List (Bytes × Bytes)
  isIpv6 : Bool
  toUtf8 : Bytes → Option Bytes

/-- The fields of a gftp_request and its rfc959_parms that change. Connections are numbered. -/
structure Client where
  datafd : Option ℕ
  connections : ℕ
  dataConnection : Option DataConnection
  operation : ℕ
  isAsciiTransfer : Bool
  passiveTransfer : Bool
  showHiddenFiles : Bool
  resolveSymlinks : Bool
  directory : Bytes
  lastFtpResponse : Bytes
  time : ℕ
  history : List Event

abbrev Ftp (α : Type) := Call Client GftpError α

def Client.start (passiveTransfer showHiddenFiles resolveSymlinks isAsciiTransfer : Bool)
    (directory : Bytes) : Client where
  datafd := none
  connections := 0
  dataConnection := none
  operation := 0
  isAsciiTransfer := isAsciiTransfer
  passiveTransfer := passiveTransfer
  showHiddenFiles := showHiddenFiles
  resolveSymlinks := resolveSymlinks
  directory := directory
  lastFtpResponse := []
  time := 0
  history := []

def Client.note (e : Event) (s : Client) : Client := { s with history := e :: s.history }

section Functions

variable (o : Options) (env : Environment) (reconnect : Ftp Unit)

def meet {α : Type} (f : ℕ → α) : Ftp α := do
  let a ← look fun s => f s.time
  change fun s => { s with time := s.time + 1 }
  return a

def systemCall : Ftp Bool := meet env.succeeds

def closeDataConnection : Ftp Unit := change fun s => { s with dataConnection := none }

/-- gftp_disconnect, which calls rfc959_disconnect. -/
def disconnect : Ftp Unit := do
  closeDataConnection
  if ← look fun s => s.datafd.isSome then
    let n ← meet env.buffered
    change fun s => { s.note (.closed n) with datafd := none }
  else return ()

/-- g_return_val_if_fail (request->datafd > 0, GFTP_EFATAL). -/
def connected {α : Type} (x : Ftp α) : Ftp α := do
  if ← look fun s => s.datafd.isSome then x
  else fail .fatal

/-- The first byte of a reply as the int that is returned; a char is a signed byte. -/
def charRet (c : UInt8) : Except GftpError UInt8 :=
  if c < 128 then .ok c else .error (.ofCode (c.toNat - 256))

/-- rfc959_read_response; event is what is kept of the reply. -/
def readResponse (event : Answer → Event) (disconnectOn42x : Bool) : Ftp UInt8 :=
  connected do
    let a ← meet env.answer
    change (·.note (event a))
    match a with
    | .failed =>
        disconnect env
        fail .retryable
    | .line text =>
        change fun s => { s with lastFtpResponse := text }
        if text.take 2 = ascii "42" ∧ disconnectOn42x then
          disconnect env
          fail .timedOut
        else give (charRet (text.headD 0))

/-- The write of a command. A failed one disconnects. -/
def writeCommand (c : Command) (mayReconnect : Bool) : Ftp Unit :=
  connected do
    if ← meet env.writes then
      change fun s => s.note (.sent c mayReconnect s.dataConnection s.datafd s.operation)
    else
      disconnect env
      fail .retryable

def exchange (c : Command) (mayReconnect : Bool) : Ftp UInt8 := do
  writeCommand env c mayReconnect
  readResponse env (.reply c mayReconnect) true

/-- rfc959_send_command with read_response set; reconnect is gftp_connect. A failed write is no
timeout. The command is sent again with dont_try_to_reconnect set. -/
def sendCommand (c : Command) (mayReconnect : Bool) : Ftp UInt8 :=
  (exchange env c mayReconnect).handle fun
    | .error .timedOut =>
        if mayReconnect then do
          reconnect
          exchange env c false
        else fail .timedOut
    | r => give r

/-- The directory between the first two quotation marks. -/
def quotedDirectory (text : Bytes) : Option Bytes :=
  let dir := (text.dropWhile (· ≠ 34)).drop 1
  if 34 ∈ text ∧ 34 ∈ dir then some (dir.takeWhile (· ≠ 34)) else none

def getcwd : Ftp Unit := do
  let ret ← sendCommand env reconnect .pwd true
  if ret ≠ 50 then
    disconnect env
    fail .retryable
  else
    match ← look fun s => quotedDirectory s.lastFtpResponse with
    | none =>
        disconnect env
        fail .fatal
    | some dir => change fun s => { s with directory := (o.toUtf8 dir).getD dir }

def chdir (directory : Bytes) : Ftp Unit := do
  let ret ← sendCommand env reconnect
    (if directory = ascii ".." then .cdup else .cwd directory) true
  if ret ≠ 50 then fail .retryable
  else getcwd o env reconnect

/-- The name of the system: what stands between the first two blanks. -/
def systemName (text : Bytes) : Option Bytes :=
  let name := (text.dropWhile (· ≠ 32)).drop 1
  if 32 ∈ text ∧ 32 ∈ name then some (name.takeWhile (· ≠ 32)) else none

/-- rfc959_syst. Two systems do not take options with LIST. -/
def syst : Ftp Unit := do
  let ret ← sendCommand env reconnect .syst true
  if ret ≠ 50 then fail .retryable
  else
    match ← look fun s => systemName s.lastFtpResponse with
    | none => fail .retryable
    | some name =>
        if name = ascii "VMS" ∨ name = ascii "OS/400" then
          change fun s => { s with showHiddenFiles := false, resolveSymlinks := false }
        else return ()

def connectServer : Ftp Unit := do
  change (·.note .attempted)
  match ← meet env.connects with
  | .error e => fail e
  | .ok _ => change fun s => { s.note .opened with
      datafd := some s.connections
      connections := s.connections + 1 }

def greeting : Ftp Unit :=
  (readResponse env .banner true).handle fun
    | .ok ret =>
        if ret ≠ 50 then do
          disconnect env
          fail .retryable
        else return ()
    | .error e => do
        disconnect env
        fail e

def protect : Ftp Unit := do
  let _ ← sendCommand env reconnect .pbsz true
  let ret ← sendCommand env reconnect (.prot true) true
  if ret = 50 then return ()
  else
    let ret ← sendCommand env reconnect (.prot false) true
    if ret ≠ 50 then
      disconnect env
      fail .retryable
    else return ()

def authTlsStart : Ftp Unit := do
  let ret ← sendCommand env reconnect .authTls true
  if ret ≠ 50 then fail .fatal
  else
    match ← meet env.tls with
    | .error e => fail e
    | .ok _ => protect env reconnect

def startTls : Ftp Unit :=
  if o.authTls then
    (authTlsStart env reconnect).handle fun
      | .ok _ => return ()
      | .error e => do
          disconnect env
          fail e
  else return ()

/-- The lines for a proxy, each with its newline. -/
def proxyLines (text : Bytes) : List Bytes :=
  (TextLines.splitLines text).1.map (· ++ [10]) ++
    if (TextLines.splitLines text).2 = [] then [] else [(TextLines.splitLines text).2]

/-- The loop over these lines ends when one is refused. -/
def proxyLogin (resp : UInt8) : List Bytes → Ftp UInt8
  | [] => return resp
  | line :: lines =>
      if resp = 51 ∨ resp = 50 then do
        let resp ← sendCommand env reconnect (.proxy line) true
        proxyLogin resp lines
      else return resp

def sendAccount (resp : UInt8) : Ftp UInt8 :=
  match o.account with
  | some account =>
      if resp = 51 then sendCommand env reconnect (.acct account) true else return resp
  | none => return resp

def hostLogin : Ftp UInt8 := do
  let resp ← sendCommand env reconnect (.user o.username) true
  if resp = 51 then
    let resp ← sendCommand env reconnect (.pass o.password) true
    sendAccount o env reconnect resp
  else return resp

def login : Ftp UInt8 :=
  match o.proxyText with
  | some text => proxyLogin env reconnect 51 (proxyLines text)
  | none => hostLogin o env reconnect

def stillConnected : Ftp Unit := do
  if ← look fun s => s.datafd.isSome then return ()
  else fail .fatal

/-- The working directory is set, or asked for when there is none or it is refused. -/
def enterDirectory : Ftp Unit := do
  let directory ← look (·.directory)
  if directory ≠ [] then
    (chdir o env reconnect directory).handle fun r => do
      if ← look fun s => s.datafd.isNone then give r
      else
        match r with
        | .ok _ => stillConnected
        | .error _ => do
            getcwd o env reconnect
            stillConnected
  else
    getcwd o env reconnect
    stillConnected

/-- The type is set as the option ascii_transfers says, whatever the server answers. -/
def setOptionType : Ftp Unit := do
  change fun s => { s with isAsciiTransfer := o.asciiTransfers }
  let _ ← sendCommand env reconnect (.type o.asciiTransfers) true
  enterDirectory o env reconnect

/-- A failed SYST is fatal only when the connection is closed. -/
def afterLogin : Ftp Unit :=
  (syst env reconnect).handle fun
    | .ok _ => setOptionType o env reconnect
    | .error e => do
        if ← look fun s => s.datafd.isNone then fail e
        else setOptionType o env reconnect

def rfc959Connect : Ftp Unit := do
  if ← look fun s => s.datafd.isSome then return ()
  else
    connectServer env
    greeting env
    startTls o env reconnect
    let resp ← login o env reconnect
    if resp ≠ 50 then
      disconnect env
      fail (if resp = 53 then .fatal else .retryable)
    else afterLogin o env reconnect

/-- gftp_connect. The fuel bounds how deep the connections of rfc959_send_command are nested. -/
def gftpConnect : ℕ → Ftp Unit
  | 0 => pending
  | fuel + 1 => rfc959Connect o env (gftpConnect fuel)

end Functions

end Gftp.FtpClient
