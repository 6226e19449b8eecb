import Gftp.HttpDecoding

/-!
HTTP responses: the header lines rfc2068_read_response reads through gftp_get_line, the
first chunk size behind them, and the body chunks handed out from the line buffer and
then from rfc2068_chunked_read. Commands are written without a failure; their texts and
the log are left out.
-/

namespace Gftp.HttpResponses

open ByteStrings Cells Cell Decimal Hexadecimal HttpDecoding LineSource Protocol Sockets
open LineReader (sizeSub)
open ListingParsers (offT)

variable {κ : Type} [Cell κ]

/-- The parts of gftp_request and rfc2068_params that responses use. Strings are kept
without their terminator. -/
structure Request (κ : Type) where
  rbuf : Option (GetlineBuffer κ)
  session : Session κ
  lastFtpResponse : Option (List κ)
  deriving DecidableEq

/-- The array tempstr. -/
def lineSize : ℕ := 8192

/-- What a call of gftp_get_line does to tempstr. -/
def keepLine (tempstr : List κ) (n : ℕ) (str : List κ) : List κ := if 0 < n then str else tempstr

/-- gftp_get_line on the request's own buffer and descriptor. -/
def nextLine (fuel : ℕ) (r : Request κ) (tempstr : List κ) :
    CRun (Except GftpError (List κ) × Request κ) := do
  let res ← gftpGetLine rfc2068ChunkedRead fuel r.rbuf lineSize r.session
  let r := { r with rbuf := res.rbuf, session := res.state }
  match res.ret with
  | .error e => return (.error e, r)
  | .ok n => return (.ok (keepLine tempstr n res.str), r)

/-- gftp_get_line with the file of a cached listing for the descriptor. The session is the
request's, and what disconnects closes the request's own descriptor. -/
def cachedNextLine (fuel : ℕ) (file : Socket κ) (r : Request κ) :
    CRun ((Except GftpError ℕ × List κ) × Request κ) := do
  let res ← gftpGetLine rfc2068ChunkedRead fuel r.rbuf lineSize
    { r.session with datafd := some file }
  let datafd := if res.state.datafd.isNone then none else r.session.datafd
  return ((res.ret, res.str), { r with
    rbuf := res.rbuf
    session := { res.state with datafd := datafd } })

/-- The fields set before the header is read. -/
def resetResponse (r : Request κ) : Request κ :=
  { r with
    session := { r.session with
      chunkSize := 0
      contentLength := 0
      eof := false
      extraReadBuffer := none }
    lastFtpResponse := none }

/-- The Content-Length that a header line announces. -/
def announcedLength (tempstr : List κ) : Option ℤ :=
  if (tempstr.take 15).map byte = ascii "Content-Length:" then
    some (strtol ((tempstr.drop 16).map byte))
  else none

def announcesChunks (tempstr : List κ) : Bool :=
  tempstr.map byte = ascii "Transfer-Encoding: chunked"

/-- The loop over the header lines; it yields whether chunks are announced. -/
def headerLoop (fuel : ℕ) : ℕ → List κ → Bool → Request κ →
    CRun (Except GftpError Bool × Request κ)
  | 0, _, _, _ => .error .pending
  | lines + 1, tempstr, chunked, r => do
      match ← nextLine fuel r tempstr with
      | (.error e, r) => return (.error e, r)
      | (.ok tempstr, r) =>
          let r := { r with lastFtpResponse := r.lastFtpResponse.or (some tempstr) }
          if tempstr = [] then return (.ok chunked, r)
          else match announcedLength tempstr with
            | some n =>
                headerLoop fuel lines tempstr chunked
                  { r with session := { r.session with contentLength := n } }
            | none => headerLoop fuel lines tempstr (chunked || announcesChunks tempstr) r

/-- The bytes of the line buffer that lie behind the first chunk are stashed. -/
def stashBehind (b : GetlineBuffer κ) (extra : ℕ) : CRun (GetlineBuffer κ × List κ) :=
  if extra ≤ b.curpos + b.curBufsize ∧ b.curpos + b.curBufsize ≤ b.buffer.length then do
    let cut := b.curpos + b.curBufsize - extra
    let buffer ← store b.buffer cut [nul]
    return ({ b with buffer := buffer, curBufsize := sizeSub b.curBufsize extra },
      (b.buffer.drop cut).take extra)
  else .error .fault

/-- The first chunk size is known: what the line buffer already holds of the chunk is
taken off it. -/
def firstChunk (v : ℤ) (b : GetlineBuffer κ) (s : Session κ) :
    CRun (GetlineBuffer κ × Session κ) := do
  let left := offT (v - b.curBufsize)
  if left < 0 then
    let (b, extra) ← stashBehind b left.natAbs
    return (b, { s with chunkSize := 0, extraReadBuffer := some extra })
  else return (b, { s with chunkSize := left })

/-- The end of the function. -/
def finishResponse (chunked : Bool) (r : Request κ) : Except GftpError ℤ × Request κ :=
  (.ok (if 0 < r.session.contentLength then r.session.contentLength else r.session.chunkSize),
    { r with session := { r.session with chunkedTransfer := chunked } })

def rfc2068ReadResponse (fuel : ℕ) (r : Request κ) : CRun (Except GftpError ℤ × Request κ) := do
  match ← headerLoop fuel fuel [] false (resetResponse r) with
  | (.error e, r) => return (.error e, r)
  | (.ok false, r) => return finishResponse false r
  | (.ok true, r) =>
      match ← nextLine fuel r [] with
      | (.error e, r) => return (.error e, r)
      | (.ok tempstr, r) =>
          match scanHex (tempstr.map byte) with
          | none => return (.error .fatal, { r with session := r.session.disconnect })
          | some v =>
              if offT v = 0 then
                return (.ok 0, { r with session := { r.session with chunkSize := 0 } })
              else match r.rbuf with
                | none => .error .fault
                | some b => do
                    let (b, s) ← firstChunk (offT v) b r.session
                    return finishResponse true { r with rbuf := some b, session := s }

/-- The three digits of the status line. -/
def statusDigits (r : Request κ) : Bytes :=
  (((r.lastFtpResponse.getD []).drop 9).take 3).map byte

/-- rfc2068_get_file on a connected request, from the answer on. A chunk size below zero
is returned as it is. -/
def rfc2068GetFile (fuel : ℕ) (startsize : ℤ) (r : Request κ) :
    CRun (Except GftpError ℤ × Request κ) := do
  match ← rfc2068ReadResponse fuel r with
  | (.error e, r) => return (.error e, r)
  | (.ok size, r) =>
      if size < 0 then return (.ok size, r)
      else if statusDigits r = ascii "206" then
        return (.ok (size + startsize), { r with session := { r.session with readBytes := 0 } })
      else if statusDigits r = ascii "200" then
        return (.ok size, { r with session := { r.session with readBytes := 0 } })
      else return (.error .retryable, r)

/-- rfc2068_get_next_file_chunk; buf has room for size bytes. -/
def rfc2068GetNextFileChunk (size : ℕ) (r : Request κ) :
    CRun (Except GftpError (List κ) × Request κ) :=
  match r.rbuf with
  | some b =>
      let len := min b.curBufsize size
      if b.curpos + len ≤ b.buffer.length then
        let chunk := (b.buffer.drop b.curpos).take len
        if len = b.curBufsize then .ok (.ok chunk, { r with rbuf := none })
        else
          let b := { b with curpos := b.curpos + len, curBufsize := b.curBufsize - len }
          .ok (.ok chunk, { r with rbuf := some b })
      else .error .fault
  | none => do
      let (reading, s) ← rfc2068ChunkedRead size r.session
      let r := { r with session := s }
      if reading.stored.length ≤ size then
        match reading.ret with
        | .error e => return (.error e, r)
        | .ok n => return (.ok (reading.stored.take n), r)
      else .error .fault

def rfc2068Disconnect (r : Request κ) : Request κ := { r with session := r.session.disconnect }

def rfc2068EndTransfer (r : Request κ) : Except GftpError ℕ × Request κ :=
  if r.session.datafd = none then (.error .fatal, r)
  else
    (.ok 0, { r with session := { r.session.disconnect with
      contentLength := 0
      chunkedTransfer := false
      chunkSize := 0
      eof := false } })

end Gftp.HttpResponses
