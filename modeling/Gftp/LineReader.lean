import Gftp.ByteStreams

/-!
gftp_get_line: lines out of a buffer that is refilled by a read function. The model
keeps the block of max_bufsize + 1 bytes, the offset of curpos in it and the counted
length, and every search, move and store goes through the block, so that a step
outside it is a fault. Callers pass an array of len bytes.
-/

namespace Gftp.LineReader

open ByteStrings ByteStreams

variable {ε : Type}

structure GetlineBuffer where
  buffer : Bytes
  curpos : ℕ
  maxBufsize : ℕ
  curBufsize : ℕ
  eof : Bool
  deriving DecidableEq

/-- What a call leaves: its result, negative for a failed read, the string stored in
str when the result is positive, and the two arguments it updates. -/
structure LineResult (ε : Type) where
  ret : Except ε ℕ
  str : Bytes
  rbuf : Option GetlineBuffer
  stream : Stream ε

def sizeSub (a b : ℕ) : ℕ := if b ≤ a then a - b else a + 2 ^ 64 - b

/-- The offset of the first c in the string that starts at pos; a fault when the
block holds no terminator after pos. -/
def strchr (block : Bytes) (pos : ℕ) (c : UInt8) : CRun (Option ℕ) :=
  let rest := block.drop pos
  if 0 ∈ rest then
    .ok (if c ∈ cstr rest then some (pos + (cstr rest).idxOf c) else none)
  else .error .fault

/-- strncpy to an array of len bytes and the terminator stored after it, as the
string the caller reads. -/
def copyOut (block : Bytes) (pos len : ℕ) : Bytes := (cstr (block.drop pos)).take (len - 1)

/-- The newline at p, or the carriage return directly before it, becomes the
terminator of the returned line. -/
def takeLine (len : ℕ) (b : GetlineBuffer) (s : Stream ε) (p : ℕ) : CRun (LineResult ε) := do
  let nslen := p - b.curpos + 1
  let cut := if b.curpos < p ∧ b.buffer[p - 1]? = some 13 then p - 1 else p
  let buffer ← overwrite b.buffer cut [0]
  return { ret := .ok nslen
           str := copyOut buffer b.curpos len
           rbuf := some { b with
             buffer := buffer
             curpos := p + 1
             curBufsize := sizeSub b.curBufsize nslen }
           stream := s }

def takeAll (len : ℕ) (b : GetlineBuffer) (s : Stream ε) : CRun (LineResult ε) := do
  let buffer ← overwrite b.buffer b.curBufsize [0]
  return { ret := .ok b.curBufsize
           str := copyOut buffer b.curpos len
           rbuf := some { b with buffer := buffer, curBufsize := 0 }
           stream := s }

/-- The unread bytes moved to the front of the buffer; the offset and the size of
the read that follows. -/
def compact (b : GetlineBuffer) : CRun (Bytes × ℕ × ℕ) :=
  if b.curBufsize = 0 ∨ b.buffer[b.curpos]? = some 0 then .ok (b.buffer, 0, b.maxBufsize)
  else if b.curpos + b.curBufsize ≤ b.buffer.length then do
    let buffer ← overwrite b.buffer 0 ((b.buffer.drop b.curpos).take b.curBufsize)
    return (buffer, b.curBufsize, sizeSub b.maxBufsize b.curBufsize)
  else .error .fault

/-- The bytes just read are stored at pos and the buffer is terminated after the
counted length. -/
def refill (b : GetlineBuffer) (buffer : Bytes) (pos : ℕ) (d : Bytes) : CRun GetlineBuffer := do
  let buffer ← overwrite buffer pos d
  let buffer ← overwrite buffer (b.curBufsize + d.length) [0]
  return { b with
    buffer := buffer
    curpos := 0
    curBufsize := b.curBufsize + d.length
    eof := b.eof || d.isEmpty }

def getLineLoop (len : ℕ) : ℕ → GetlineBuffer → Stream ε → CRun (LineResult ε)
  | 0, _, _ => .error .pending
  | fuel + 1, b, s => do
      let pos ← strchr b.buffer b.curpos 10
      let endOfBuffer := b.curpos = 0 ∧ (b.maxBufsize = b.curBufsize ∨ b.eof = true)
      if 0 < b.curBufsize ∧ (pos ≠ none ∨ endOfBuffer) then
        match pos with
        | some p => takeLine len b s p
        | none => takeAll len b s
      else
        let (buffer, base, rlen) ← compact b
        match if b.eof then (.ok [], s) else readSome rlen s with
        | (.error e, s) => return { ret := .error e, str := [], rbuf := none, stream := s }
        | (.ok d, s) =>
            if d = [] ∧ b.curBufsize = 0 then
              return { ret := .ok 0, str := [], rbuf := none, stream := s }
            else
              let b ← refill b buffer base d
              getLineLoop len fuel b s

/-- The call. The first one allocates the buffer for len bytes and reads once. Every
iteration of the loop but the last two reads part of the stream, which bounds them. -/
def gftpGetLine (rbuf : Option GetlineBuffer) (len : ℕ) (s : Stream ε) :
    CRun (LineResult ε) :=
  match rbuf with
  | some b => getLineLoop len (readBound s + 2) b s
  | none =>
      match readSome len s with
      | (.error e, s) => .ok { ret := .error e, str := [], rbuf := none, stream := s }
      | (.ok d, s) =>
          if d = [] then .ok { ret := .ok 0, str := [], rbuf := none, stream := s }
          else do
            let buffer ← overwrite (List.replicate (len + 1) 0) 0 d
            let buffer ← overwrite buffer d.length [0]
            getLineLoop len (readBound s + 2)
              { buffer := buffer, curpos := 0, maxBufsize := len, curBufsize := d.length,
                eof := false } s

/-- while (gftp_get_line (..) > 0) with a body that says whether the loop goes on. -/
def forLines {σ : Type} (len : ℕ) (body : Bytes → σ → CRun (σ × Bool)) :
    ℕ → Option GetlineBuffer → Stream ε → σ → CRun σ
  | 0, _, _, _ => .error .pending
  | fuel + 1, rbuf, s, st => do
      let res ← gftpGetLine rbuf len s
      match res.ret with
      | .error _ => return st
      | .ok n =>
          if n = 0 then return st
          else
            let (st, go) ← body res.str st
            if go then forLines len body fuel res.rbuf res.stream st else return st

end Gftp.LineReader
