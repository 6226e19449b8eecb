import Gftp.Decimal
import Gftp.DirListing
import Gftp.SshMessages

/-!
Listing a directory over SFTP. One NAME response carries several entries, which are
returned one at a time, and count tells how many are left in the message. A response
is kept whole as the last directory entry, so it is stored in the cache once. In
cached mode the responses are read from the cache file and nothing is sent.
-/

namespace Gftp.SshListing

open ByteStrings ByteStreams BigEndian Decimal Protocol DirListing SshMessages

/-- The high word is shifted out before the two words are put together. -/
def sshv2BufferGetInt64 (request : SshRequest) (message : SshMessage) : CRun (Taken UInt64) := do
  let hinum ← sshv2BufferGetInt32 request message none
  hinum.andThen fun hinum request message => do
    let lonum ← sshv2BufferGetInt32 request message none
    lonum.andThen fun lonum request message =>
      return { value := .ok (lonum.toUInt64 ||| hinum.toUInt64 >>> 32)
               message := message, request := request }

/-- An error stands for the null pointer. -/
def sshv2BufferGetString (request : SshRequest) (message : SshMessage) : CRun (Taken Bytes) := do
  let len ← sshv2BufferGetInt32 request message none
  len.andThen fun len request message =>
    if sshMaxStringSize < len.toNat ∨ message.endPos - message.pos < len.toNat then
      return sshv2WrongResponse Bytes request
    else
      return {
        value := .ok (((message.buffer.getD []).drop message.pos).take len.toNat)
        message := { message with pos := message.pos + len.toNat }
        request := request }

def sshFilexferAttrSize : UInt32 := 0x00000001
def sshFilexferAttrUidgid : UInt32 := 0x00000002
def sshFilexferAttrPermissions : UInt32 := 0x00000004
def sshFilexferAttrAcmodtime : UInt32 := 0x00000008
def sshFilexferAttrExtended : UInt32 := 0x80000000

def hasAttr (attrs attr : UInt32) : Bool := attrs &&& attr ≠ 0

/-- A word as printf writes it with %d. -/
def decimalWord (num : UInt32) : Bytes := decimal num.toInt32.toInt

/-- The entry decoded so far, and the variable num, none as long as it is not set. -/
abbrev Decoded := GftpFile × Option UInt32

def decodeSize (attrs : UInt32) (d : Decoded) (request : SshRequest) (message : SshMessage) :
    CRun (Taken Decoded) :=
  if hasAttr attrs sshFilexferAttrSize then do
    let size ← sshv2BufferGetInt64 request message
    size.andThen fun size request message =>
      return { value := .ok ({ d.1 with size := size.toInt64.toInt }, d.2)
               message := message, request := request }
  else return { value := .ok d, message := message, request := request }

def decodeUidgid (attrs : UInt32) (d : Decoded) (request : SshRequest) (message : SshMessage) :
    CRun (Taken Decoded) :=
  if hasAttr attrs sshFilexferAttrUidgid then do
    let user ← sshv2BufferGetInt32 request message none
    user.andThen fun user request message => do
      let group ← sshv2BufferGetInt32 request message none
      group.andThen fun group request message =>
        return {
          value := .ok ({ d.1 with user := some (decimalWord user),
                                   group := some (decimalWord group) }, some group)
          message := message, request := request }
  else return { value := .ok d, message := message, request := request }

def decodePermissions (attrs : UInt32) (d : Decoded) (request : SshRequest)
    (message : SshMessage) : CRun (Taken Decoded) :=
  if hasAttr attrs sshFilexferAttrPermissions then do
    let num ← sshv2BufferGetInt32 request message none
    num.andThen fun num request message =>
      return { value := .ok ({ d.1 with stMode := num.toNat }, some num)
               message := message, request := request }
  else return { value := .ok d, message := message, request := request }

/-- Without an access time the result is num. When num is not set, or is not negative
so that the caller takes the difference of two blocks, the behaviour is undefined. -/
def decodeAcmodtime (attrs : UInt32) (d : Decoded) (request : SshRequest)
    (message : SshMessage) : CRun (Taken Decoded) :=
  if hasAttr attrs sshFilexferAttrAcmodtime then do
    let atime ← sshv2BufferGetInt32 request message none
    match atime.value with
    | .error _ =>
        match d.2 with
        | none => .error .fault
        | some num =>
            if num.toInt32.toInt < 0 then
              return { value := .error (.ofCode num.toInt32.toInt)
                       message := atime.message, request := atime.request }
            else .error .fault
    | .ok _ =>
        let num ← sshv2BufferGetInt32 atime.request atime.message none
        num.andThen fun num request message =>
          return { value := .ok ({ d.1 with datetime := num.toNat }, some num)
                   message := message, request := request }
  else return { value := .ok d, message := message, request := request }

/-- One half of an extended pair: its length, and as many bytes and four more. -/
def skipExtended (request : SshRequest) (message : SshMessage) : CRun (Taken Unit) := do
  let num ← sshv2BufferGetInt32 request message none
  match num.value with
  | .error _ =>
      return { value := .error .fatal, message := num.message, request := num.request }
  | .ok n =>
      if num.message.endPos < num.message.pos + n.toNat + 4 then
        return { value := .error .fatal, message := num.message, request := num.request }
      else
        return { value := .ok (), request := num.request,
                 message := { num.message with pos := num.message.pos + n.toNat + 4 } }

def skipPairs : ℕ → SshRequest → SshMessage → CRun (Taken Unit)
  | 0, request, message => return { value := .ok (), message := message, request := request }
  | count + 1, request, message => do
      let key ← skipExtended request message
      key.andThen fun _ request message => do
        let value ← skipExtended request message
        value.andThen fun _ request message => skipPairs count request message

def decodeExtended (attrs : UInt32) (fle : GftpFile) (request : SshRequest)
    (message : SshMessage) : CRun (Taken GftpFile) :=
  if hasAttr attrs sshFilexferAttrExtended then do
    let count ← sshv2BufferGetInt32 request message none
    count.andThen fun count request message => do
      let skipped ← skipPairs count.toNat request message
      skipped.andThen fun _ request message =>
        return { value := .ok fle, message := message, request := request }
  else return { value := .ok fle, message := message, request := request }

def sshv2DecodeFileAttributes (fle : GftpFile) (request : SshRequest) (message : SshMessage) :
    CRun (Taken GftpFile) := do
  let attrs ← sshv2BufferGetInt32 request message none
  attrs.andThen fun attrs request message => do
    let d ← decodeSize attrs (fle, none) request message
    d.andThen fun d request message => do
      let d ← decodeUidgid attrs d request message
      d.andThen fun d request message => do
        let d ← decodePermissions attrs d request message
        d.andThen fun d request message => do
          let d ← decodeAcmodtime attrs d request message
          d.andThen fun d request message => decodeExtended attrs d.1 request message

/-- The result of a call that returns no entry. -/
def noEntry (ret : Except GftpError ℕ) (request : SshRequest) (s : Stream GftpError) :
    NextFile SshRequest :=
  { ret := ret, fle := GftpFile.cleared, request := request, stream := s }

/-- The next entry of the message in place. The second string is not returned and a
failure to take it is not looked at. -/
def takeEntry (request : SshRequest) (s : Stream GftpError) : CRun (NextFile SshRequest) := do
  let stpos := request.params.message.pos
  let file ← sshv2BufferGetString request request.params.message
  match file.value with
  | .error _ => return noEntry (.error .fatal) (file.request.setMessage file.message) s
  | .ok name =>
      let longname ← sshv2BufferGetString file.request file.message
      let fle := { GftpFile.cleared with file := some (cstr name) }
      let d ← sshv2DecodeFileAttributes fle longname.request longname.message
      let request := d.request.setMessage d.message
      match d.value with
      | .error e => return noEntry (.error e) request s
      | .ok fle =>
          return {
            ret := .ok (d.message.pos - stpos)
            fle := fle
            request := request.setCount (request.params.count - 1)
            stream := s }

/-- The READDIR command, numbered in the room before the handle string. -/
def sendReaddir (request : SshRequest) (written : UInt32 → Except GftpError Unit) :
    CRun SendResult := do
  let id := request.params.id
  let handle ← overwrite request.params.handle 0 (be32 id)
  let params := { request.params with id := id + 1, handle := handle, message := SshMessage.freed }
  if params.handleLen ≤ handle.length then
    sshv2SendCommand { request with params := params } sshFxpReaddir
      (handle.take params.handleLen) (written id)
  else .error .fault

/-- The response that was read, as it is stored in the cache. -/
def dirEntryBytes (message : SshMessage) : Bytes :=
  be32 (UInt32.ofNat message.length) ++
    message.command :: (message.buffer.getD []).take (message.length - 1)

/-- What is done with a response that was read. -/
def useResponse (r : ReadResult) (command : UInt8) : CRun (NextFile SshRequest) := do
  if command = sshFxpName then
    let message := { r.message with pos := 4 }
    let count ← sshv2BufferGetInt32 r.request message none
    let request := count.request.setMessage count.message
    match count.value with
    | .error e => return noEntry (.error e) request r.stream
    | .ok count => takeEntry (request.setCount count) r.stream
  else if command = sshFxpStatus then
    return noEntry (.ok 0) (r.request.setMessage SshMessage.freed) r.stream
  else
    let wrong := sshv2WrongResponse ℕ r.request
    return noEntry wrong.value wrong.request r.stream

/-- A live response is kept as the last directory entry. -/
def keepResponse (request : SshRequest) (message : SshMessage) : SshRequest :=
  if request.cached then request.setMessage message
  else { request.setMessage message with lastDirEntry := some (dirEntryBytes message) }

def nextResponse (request : SshRequest) (s : Stream GftpError) : CRun (NextFile SshRequest) := do
  let r ← sshv2ReadResponse request s
  match r.ret with
  | .error e => return noEntry (.error e) (r.request.setMessage r.message) r.stream
  | .ok command => useResponse { r with request := keepResponse r.request r.message } command

/-- written is the outcome of sending the command with a given number. -/
def sshv2GetNextFile (written : UInt32 → Except GftpError Unit) (request : SshRequest)
    (s : Stream GftpError) : CRun (NextFile SshRequest) := do
  let request := { request with lastDirEntry := none }
  if 0 < request.params.count then takeEntry request s
  else if request.cached then nextResponse request s
  else
    let sent ← sendReaddir request written
    match sent.ret with
    | .error e => return noEntry (.error e) sent.request s
    | .ok () => nextResponse sent.request s

def sshListProtocol (written : UInt32 → Except GftpError Unit) : ListProtocol SshRequest where
  getNextFile := sshv2GetNextFile written
  cached request := request.cached
  lastDirEntry request := request.lastDirEntry

end Gftp.SshListing
