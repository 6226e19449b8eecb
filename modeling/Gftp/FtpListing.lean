import Gftp.DirListing
import Gftp.LineReader
import Gftp.ListingParsers

/-!
Listing a directory over FTP. Lines that are no entry are passed over, and a live call
keeps the line of its entry, not the line a VMS entry continues on.
-/

namespace Gftp.FtpListing

open ByteStrings ByteStreams LineReader Protocol DirListing ListingParsers

/-- server_type of the request, and the line buffer of its data connection. -/
structure FtpRequest where
  dataconnRbuf : Option GetlineBuffer
  serverType : Int32
  cached : Bool
  lastDirEntry : Option Bytes

/-- The request and what the descriptor it reads from still returns. -/
abbrev FtpReader := FtpRequest × Stream GftpError

/-- The lines are read into arrays of this size. -/
def lineSize : ℕ := 1024

/-- A failed read disconnects the request. -/
def rfc959GetNextDirlistLine : NextLine FtpReader := fun (request, s) => do
  let res ← gftpGetLine request.dataconnRbuf lineSize s
  let cached := request.cached && res.ret.isOk
  return ((res.ret, res.str),
    { request with dataconnRbuf := res.rbuf, cached := cached }, res.stream)

/-- The loop over the lines up to the next entry. -/
def nextDirEntry (host : Host) : ℕ → FtpReader → CRun (NextFile FtpRequest)
  | 0, _ => .error .pending
  | fuel + 1, reader => do
      let ((len, tempstr), reader) ← rfc959GetNextDirlistLine reader
      match len with
      | .ok (n + 1) =>
          let (result, reader) ← gftpParseLs host reader.1.serverType
            (some rfc959GetNextDirlistLine) reader tempstr
          match result with
          | .error _ => nextDirEntry host fuel reader
          | .ok fle =>
              let entry := if reader.1.cached then none else some (tempstr ++ [10])
              return {
                ret := .ok (n + 1)
                fle := fle
                request := { reader.1 with lastDirEntry := entry }
                stream := reader.2 }
      | len =>
          return { ret := len, fle := GftpFile.cleared, request := reader.1, stream := reader.2 }

/-- The bytes left, and one more round than there are lines in them. -/
def lineBound (reader : FtpReader) : ℕ :=
  (reader.1.dataconnRbuf.elim 0 GetlineBuffer.curBufsize) + readBound reader.2 + 1

def rfc959GetNextFile (host : Host) (request : FtpRequest) (s : Stream GftpError) :
    CRun (NextFile FtpRequest) :=
  let request := { request with lastDirEntry := none }
  nextDirEntry host (lineBound (request, s)) (request, s)

def ftpListProtocol (host : Host) : ListProtocol FtpRequest where
  getNextFile := rfc959GetNextFile host
  cached request := request.cached
  lastDirEntry request := request.lastDirEntry

end Gftp.FtpListing
