import Gftp.FtpClient

/-!
The operations of an FTP client on files: how a data connection is made, and what is sent for
a listing, a download, an upload and their ends. A data connection made for an operation
remembers it.
-/

namespace Gftp.FtpTransfers

open ByteStrings Calls Call Decimal FtpClient Protocol

/-- The digits that sscanf reads for %u: blanks and a sign may stand before them. -/
def scanUnsigned (text : Bytes) : Option Bytes :=
  let text := text.dropWhile isSpace
  let text := if text.head? = some 43 ∨ text.head? = some 45 then text.tail else text
  if (text.takeWhile isDigit) = [] then none else some (text.dropWhile isDigit)

def scanNumbers : ℕ → Bytes → Bool
  | 0, _ => true
  | n + 1, text =>
      match scanUnsigned text with
      | none => false
      | some rest => n = 0 || rest.head? = some 44 && scanNumbers n rest.tail

def pasvAddress (text : Bytes) : Bool := scanNumbers 6 ((text.drop 4).dropWhile (!isDigit ·))

def epsvPort (text : Bytes) : Bool :=
  let pos := (text.drop 4).dropWhile (· ≠ 40)
  pos.tail.take 3 = [124, 124, 124] && (scanUnsigned (pos.drop 4)).isSome

section Functions

variable (o : Options) (env : Environment) (reconnect : Ftp Unit)

/-- A call of the system; when it fails the request is disconnected. -/
def must : Ftp Unit := do
  if ← systemCall env then return ()
  else
    disconnect env
    fail .retryable

def musts : ℕ → Ftp Unit
  | 0 => return ()
  | n + 1 => do
      must env
      musts n

/-- The server and the client know of the data connection now. -/
def negotiated : Ftp Unit :=
  change fun s => { s with
    dataConnection := s.dataConnection.map fun d => { d with negotiated := true } }

/-- A passive data connection: refused is what follows when the server does not make one. -/
def passiveConnection (pasvCommand : Command) (hasAddress : Bytes → Bool) (refused : Ftp Unit) :
    Ftp Unit := do
  let resp ← sendCommand env reconnect pasvCommand false
  if resp ≠ 50 then
    change fun s => { s with passiveTransfer := false }
    refused
  else if ← look fun s => hasAddress s.lastFtpResponse then
    must env
    negotiated
  else
    disconnect env
    fail .fatal

/-- An active data connection: getsockname, bind, getsockname and listen, or for IPv6 bind,
getsockname, listen and inet_ntop. -/
def activeConnection (portCommand : Command) : Ftp Unit := do
  musts env 4
  let resp ← sendCommand env reconnect portCommand false
  if resp ≠ 50 then
    disconnect env
    fail .retryable
  else negotiated

/-- A new data socket. It stays open when it cannot be marked to be closed on exec. -/
def newSocket : Ftp Unit := do
  if ← systemCall env then
    let closesOnExec ← meet env.succeeds
    change fun s => { s.note (.socket closesOnExec) with
      dataConnection := some ⟨s.datafd.getD 0, s.operation, false⟩ }
    if closesOnExec then return ()
    else fail .retryable
  else
    closeDataConnection
    disconnect env
    fail .retryable

/-- The functions for the two families. When the server makes no passive connection they clear
passive_transfer and call themselves. -/
def familyConnection (check : Ftp Unit) (pasvCommand portCommand : Command)
    (hasAddress : Bytes → Bool) : Ftp Unit := do
  newSocket env
  check
  if ← look (·.passiveTransfer) then
    passiveConnection env reconnect pasvCommand hasAddress do
      newSocket env
      check
      activeConnection env reconnect portCommand
  else activeConnection env reconnect portCommand

def ipv4DataConnectionNew : Ftp Unit :=
  familyConnection env reconnect (return ()) .pasv .port pasvAddress

def checkIpv6 : Ftp Unit := do
  if ← systemCall env then return ()
  else
    disconnect env
    fail .fatal

def ipv6DataConnectionNew : Ftp Unit :=
  familyConnection env reconnect (checkIpv6 env) .epsv .eprt epsvPort

/-- The function for the family of the control connection. -/
def makeDataConnection : Ftp Unit :=
  connected (if o.isIpv6 then ipv6DataConnectionNew env reconnect
    else ipv4DataConnectionNew env reconnect)

/-- rfc959_data_connection_new with dont_try_to_reconnect clear. -/
def dataConnectionNew : Ftp Unit :=
  (makeDataConnection o env reconnect).handle fun
    | .error .timedOut => do
        reconnect
        makeDataConnection o env reconnect
    | r => give r

/-- rfc959_accept_active_connection. The socket that listens is replaced by the one accepted. -/
def acceptActiveConnection : Ftp Unit := do
  if ← look fun s => s.dataConnection.isNone || s.passiveTransfer then fail .fatal
  else musts env 3

/-- rfc959_is_ascii_transfer: the first extension that the name ends with decides. toupper is
called on the result of the comparison. -/
def isAsciiTransfer (filename : Bytes) : Bool :=
  match o.exts.find? fun ext => ext.1 <:+ filename with
  | some (_, asciiBinary) =>
      if asciiBinary.head? = some 65 then true
      else if asciiBinary.head? = some 66 then false
      else o.asciiTransfers
  | none => o.asciiTransfers

def setDataType (filename : Bytes) : Ftp Unit := do
  let newAscii := isAsciiTransfer o filename
  if ← look fun s => s.datafd.isSome && newAscii ≠ s.isAsciiTransfer then
    change fun s => { s with isAsciiTransfer := newAscii }
    let _ ← sendCommand env reconnect (.type newAscii) true
    return ()
  else return ()

def ensureDataConnection : Ftp Unit := do
  if ← look fun s => s.dataConnection.isNone then dataConnectionNew o env reconnect
  else return ()

def restart (startsize : ℕ) : Ftp Unit := do
  if 0 < startsize then
    let ret ← sendCommand env reconnect (.rest startsize) true
    if ret ≠ 51 then
      closeDataConnection
      fail .retryable
    else return ()
  else return ()

def startTransfer (transferCommand : Command) : Ftp Unit := do
  let ret ← sendCommand env reconnect transferCommand true
  if ret ≠ 49 then
    closeDataConnection
    fail (if ret = 53 then .fatal else .retryable)
  else if ← look (·.passiveTransfer) then return ()
  else acceptActiveConnection env

def setupFileTransfer (filename : Bytes) (startsize : ℕ) (transferCommand : Command) :
    Ftp Unit := do
  setDataType o env reconnect filename
  ensureDataConnection o env reconnect
  must env
  restart env reconnect startsize
  startTransfer env reconnect transferCommand

/-- rfc959_get_file, but for the size it takes from the reply. -/
def getFile (filename : Bytes) (startsize : ℕ) : Ftp Unit :=
  connected (setupFileTransfer o env reconnect filename startsize (.retr filename))

def putFile (filename : Bytes) (startsize : ℕ) : Ftp Unit :=
  connected do
    setDataType o env reconnect filename
    ensureDataConnection o env reconnect
    setupFileTransfer o env reconnect filename startsize (.stor filename)

def listFiles : Ftp Unit :=
  connected do
    dataConnectionNew o env reconnect
    let command ← look fun s => .list s.showHiddenFiles s.resolveSymlinks
    let passive ← look (·.passiveTransfer)
    let ret ← sendCommand env reconnect command true
    if ret ≠ 49 then fail .retryable
    else if passive then return ()
    else acceptActiveConnection env

def endTransfer : Ftp Unit :=
  connected do
    closeDataConnection
    let ret ← readResponse env .final true
    if ret = 50 then return ()
    else fail .retryable

/-- rfc959_abort_transfer. One reply is read, and the result is 0 whatever it is. -/
def abortTransfer : Ftp Unit :=
  connected do
    writeCommand env .abor true
    closeDataConnection
    if ← look fun s => s.datafd.isSome then
      (readResponse env (.reply .abor false) false).handle fun
        | .error _ => disconnect env
        | .ok _ => return ()
    else return ()

/-- What the other request of rfc959_transfer_file did: whether its part of the negotiation
succeeded, whether its command was written and whether its reply was read. -/
structure OtherSide where
  negotiates : Bool
  writes : Bool
  reads : Bool
  deriving DecidableEq

/-- rfc959_transfer_file as the request of the source meets it. Its command is written first,
and its reply read first. -/
def transferFrom (fromfile : Bytes) (other : OtherSide) : Ftp Unit :=
  connected do
    let ret ← sendCommand env reconnect .pasv true
    if ret ≠ 50 then fail .retryable
    else if ← look fun s => (s.lastFtpResponse.drop 4).any isDigit then
      if other.negotiates then
        writeCommand env (.retr fromfile) true
        if other.writes then
          let _ ← readResponse env (.reply (.retr fromfile) false) true
          return ()
        else fail .retryable
      else fail .retryable
    else fail .fatal

/-- rfc959_transfer_file as the request of the destination meets it. -/
def transferTo (tofile : Bytes) (other : OtherSide) : Ftp Unit :=
  connected do
    if other.negotiates then
      let ret ← sendCommand env reconnect .port true
      if ret ≠ 50 then fail .retryable
      else if other.writes then
        writeCommand env (.stor tofile) true
        if other.reads then
          let _ ← readResponse env (.reply (.stor tofile) false) true
          return ()
        else fail .retryable
      else fail .retryable
    else fail .retryable

end Functions

/-- What a user of the request calls. command is any other function that sends a command, one
or several. -/
inductive Operation
  | connect
  | disconnect
  | setDataType (filename : Bytes)
  | listFiles
  | getFile (filename : Bytes) (startsize : ℕ)
  | putFile (filename : Bytes) (startsize : ℕ)
  | endTransfer
  | abortTransfer
  | transferFrom (fromfile : Bytes) (other : OtherSide)
  | transferTo (tofile : Bytes) (other : OtherSide)
  | command (c : Command)

def Operation.call (o : Options) (env : Environment) (fuel : ℕ) : Operation → Ftp Unit
  | .connect => gftpConnect o env fuel
  | .disconnect => FtpClient.disconnect env
  | .setDataType filename => FtpTransfers.setDataType o env (gftpConnect o env fuel) filename
  | .listFiles => FtpTransfers.listFiles o env (gftpConnect o env fuel)
  | .getFile filename startsize =>
      FtpTransfers.getFile o env (gftpConnect o env fuel) filename startsize
  | .putFile filename startsize =>
      FtpTransfers.putFile o env (gftpConnect o env fuel) filename startsize
  | .endTransfer => FtpTransfers.endTransfer env
  | .abortTransfer => FtpTransfers.abortTransfer env
  | .transferFrom fromfile other =>
      FtpTransfers.transferFrom env (gftpConnect o env fuel) fromfile other
  | .transferTo tofile other => FtpTransfers.transferTo env (gftpConnect o env fuel) tofile other
  | .command c => connected do
      let _ ← sendCommand env (gftpConnect o env fuel) c true
      return ()

/-- An operation comes to an end. Data connections remember the operation by its number. -/
inductive OperationStep (o : Options) (env : Environment) : Client → Operation → Client → Prop
  | step {s s' : Client} {op : Operation} {r : Except GftpError Unit} (fuel : ℕ)
      (h : op.call o env fuel { s with operation := s.operation + 1 } = (some r, s')) :
      OperationStep o env s op s'

/-- The options of an anonymous user without a proxy who transfers files as they are. -/
def anonymous (exts : List (Bytes × Bytes)) : Options where
  username := ascii "anonymous"
  password := none
  account := none
  proxyText := none
  authTls := false
  asciiTransfers := false
  exts := exts
  isIpv6 := false
  toUtf8 _ := none

/-- A server that gives these replies at these times, on a system where every call succeeds. -/
def answering (replies : List (ℕ × String)) : Environment where
  answer time := (replies.lookup time).elim .failed fun text => .line (ascii text)
  writes _ := true
  connects _ := .ok ()
  tls _ := .ok ()
  succeeds _ := true
  buffered _ := 0

def loginReplies : List (ℕ × String) :=
  [(1, "220 ready"), (3, "230 welcome"), (5, "215 UNIX Type: L8"), (7, "200 ok"), (9, "257 \"/\" ok")]

end Gftp.FtpTransfers
