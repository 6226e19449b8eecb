import Gftp.Hexadecimal
import Gftp.LineSource
import Gftp.ListingParsers
import Gftp.Sockets

/-!
rfc2068_chunked_read, the read function of HTTP requests. A session is what it uses:
the fields of rfc2068_params and the descriptor. A reading is its result and what it
stores from ptr on, the terminator included, so a caller whose block is too small for
the stored cells has a fault.
-/

namespace Gftp.HttpDecoding

open ByteStrings Cells Cell Hexadecimal LineSource Protocol Sockets
open LineReader (sizeSub)
open ListingParsers (offT)

variable {κ : Type} [Cell κ]

structure Session (κ : Type) where
  readBytes : ℕ
  chunkSize : ℤ
  contentLength : ℤ
  chunkedTransfer : Bool
  eof : Bool
  readRefCnt : ℕ
  extraReadBuffer : Option (List κ)
  datafd : Option (Socket κ)
  deriving DecidableEq

namespace Session

def enter (s : Session κ) : Session κ := { s with readRefCnt := s.readRefCnt + 1 }

def leave (s : Session κ) : Session κ := { s with readRefCnt := s.readRefCnt - 1 }

/-- gftp_disconnect, as far as the session goes. -/
def disconnect (s : Session κ) : Session κ := { s with datafd := none }

end Session

abbrev Chunk (κ : Type) := Reading GftpError κ × Session κ

/-- An off_t compared with a size_t. -/
def asSize (n : ℤ) : ℕ := (n % 2 ^ 64).toNat

def crlf : Bytes := [13, 10]

/-- The size of the read when nothing is stashed. -/
def readSize (size : ℕ) (s : Session κ) : ℕ :=
  if 0 < s.contentLength then
    if s.contentLength.toNat < (size + s.readBytes) % 2 ^ 64 then
      sizeSub s.contentLength.toNat s.readBytes
    else size
  else if s.chunkedTransfer = true ∧ 0 < s.chunkSize ∧ s.chunkSize < size then s.chunkSize.toNat
  else size

/-- strstr for the two bytes of an end of line, in the C string at the front. -/
def findCrlf : List κ → Option ℕ
  | a :: b :: rest =>
      if byte a = 0 then none
      else if byte a = 13 ∧ byte b = 10 then some 0
      else (findCrlf (b :: rest)).map (· + 1)
  | _ => none

/-- The offset of the end of line behind a chunk size, counted behind the end of line
in front of it. -/
def sizeLine (cur : List κ) : Option ℕ :=
  if (cur.take 2).map byte = crlf then findCrlf (cur.drop 2) else none

/-- How the loop over the buffer ends: with a result, or with everything stashed. -/
inductive Decoded (κ : Type)
  | returned (chunk : Chunk κ)
  | stashed (stored : List κ) (s : Session κ)

/-- The loop over ptr: done are the body bytes in front of stpos, cur the bytes from
stpos to the terminator, junk what lies behind it. -/
def decodeLoop : ℕ → List κ → List κ → List κ → Session κ → CRun (Decoded κ)
  | 0, _, _, _, _ => .error .pending
  | fuel + 1, done, cur, junk, s =>
      if s.chunkSize ≠ 0 ∨ cur = [] then
        .ok (.returned ({ ret := .ok (done.length + cur.length)
                          stored := done ++ (cur ++ nul :: junk) }, s))
      else match sizeLine cur with
        | none =>
            let s := { s with extraReadBuffer := some cur }
            if done = [] then .ok (.stashed (cur ++ nul :: junk) s)
            else .ok (.returned ({ ret := .ok done.length
                                   stored := done ++ (cur ++ nul :: junk) }, s))
        | some i =>
            let line := cur.set (i + 2) nul
            match scanHex (((cur.drop 2).take i).map byte) with
            | none =>
                .ok (.returned ({ ret := .error .fatal
                                  stored := done ++ (line ++ nul :: junk) }, s.disconnect))
            | some v =>
                let rest := cur.drop (i + 4)
                if offT v = 0 then
                  if s.eof then
                    .ok (.returned ({ ret := .ok 0
                                      stored := done ++ (line ++ nul :: junk) },
                      { s with chunkSize := 0 }))
                  else
                    .ok (.returned ({ ret := .ok (done.length + rest.length)
                                      stored := done ++ (line ++ nul :: junk) },
                      { s with chunkSize := 0, eof := true }))
                else
                  let junk := (line ++ nul :: junk).drop (rest.length + 1)
                  if asSize (offT v) < rest.length then
                    decodeLoop fuel (done ++ rest.take (asSize (offT v)))
                      (rest.drop (asSize (offT v))) junk { s with chunkSize := 0 }
                  else
                    decodeLoop fuel done rest junk
                      { s with chunkSize := offT (offT v - rest.length) }

/-- What follows the read, on the bytes now in ptr. Every round of the loop that goes on
takes a chunk size away. -/
def decode (mem : List κ) (s : Session κ) : CRun (Decoded κ) :=
  if s.chunkedTransfer then decodeLoop (mem.length + 1) [] mem [] s
  else .ok (.returned ({ ret := .ok mem.length, stored := mem ++ [nul] }, s))

/-- The read and the decoding, of the bytes taken out of the stash and the bytes read. -/
def receive (front : List κ) (size readSize : ℕ) (s : Session κ) : CRun (Decoded κ) :=
  if 0 < readSize ∧ s.eof = false then
    let asked := if size = readSize then readSize - 1 else readSize
    match gftpFdRead asked s.datafd with
    | (.error e, fd) =>
        .ok (.returned ({ ret := .error e, stored := front }, { s with datafd := fd }))
    | (.ok d, fd) =>
        let s := { s with datafd := fd }
        if d = [] then .ok (.returned ({ ret := .ok 0, stored := front }, s))
        else
          let s := { s with readBytes := (s.readBytes + d.length) % 2 ^ 64 }
          if 0 < s.chunkSize then
            .ok (.returned ({ ret := .ok d.length, stored := front ++ d },
              { s with chunkSize := s.chunkSize - d.length }))
          else decode (front ++ d) s
  else decode front s

/-- A stash that already ends the body is not added to. -/
def stashReadSize (size : ℕ) (extra : List κ) : ℕ :=
  if 5 < extra.length ∧ (extra.take 5).map byte = [13, 10, 48, 13, 10] then 0
  else size - extra.length

/-- The function up to the result of its loop; none where it returns before it counts
itself out of read_ref_cnt. -/
def startPass (size : ℕ) (s : Session κ) : Option (CRun (Decoded κ)) :=
  match s.extraReadBuffer with
  | some extra =>
      if extra.length ≤ size then
        some (receive extra size (stashReadSize size extra) { s with extraReadBuffer := none })
      else none
  | none =>
      if 0 < s.contentLength ∧ s.contentLength = s.readBytes then
        some (.ok (.returned ({ ret := .ok 0, stored := [] }, s)))
      else some (receive [] size (readSize size s) s)

/-- The end of the function. Everything stashed, it calls itself again, unless it has
done so too often. -/
def finishPass (again : Session κ → CRun (Chunk κ)) : Decoded κ → CRun (Chunk κ)
  | .returned (r, s) => .ok (r, s.leave)
  | .stashed mem s =>
      if 2 < s.readRefCnt then .ok ({ ret := .error .fatal, stored := mem }, s.disconnect.leave)
      else do
        let (r, s) ← again s
        let stored := r.stored ++ mem.drop r.stored.length
        match r.ret with
        | .error e => return ({ ret := .error e, stored := stored }, s)
        | .ok n => return ({ ret := .ok n, stored := stored }, s.leave)

def chunkedReadPass : ℕ → ℕ → Session κ → CRun (Chunk κ)
  | 0, _, _ => .error .pending
  | passes + 1, size, s =>
      match startPass size s.enter with
      | none => .ok ({ ret := .error .fatal, stored := [] }, s.enter)
      | some run => run >>= finishPass (chunkedReadPass passes size)

/-- The call. read_ref_cnt bounds the calls it makes to itself. -/
def rfc2068ChunkedRead (size : ℕ) (s : Session κ) : CRun (Chunk κ) := chunkedReadPass 3 size s

end Gftp.HttpDecoding
