import Gftp.FspFiles
import Gftp.PositionedWrites

/-!
Writing a file on an FSP server. The blocks are sent with their positions, each as often as it takes
to be answered, and the network may bring a packet more than once, late or not at all. When the file
has been closed without an error the server has stored what was written, whatever packets reached it.
-/

namespace Gftp.FspUploads

open ByteStrings FspFiles FspPackets FspTransactions PositionedWrites

def block (q : FspPkt) : Write UInt8 := ⟨q.pos.toNat, q.buf.take q.len.toNat⟩

/-- A request whose data were sent, and answered. -/
def Stored (x : FspPkt × Reply) : Prop := x.1.cmd = ccUpLoad ∧ (given x.2).isSome = true

/-- The requests were answered and bring pieces of the text, and the packets bring what the requests
have. -/
structure Blocks (content : Bytes) (start : ℕ) (history : List (FspPkt × Reply)) : Prop where
  pieces : ∀ x ∈ history, Stored x ∧ Piece content start (block x.1)
  sent : ∀ x ∈ history, ∀ q ∈ x.2.sent, q.cmd = x.1.cmd ∧ block q = block x.1

/-- The first bytes of the text have been answered for. -/
def Answered (start n : ℕ) (history : List (FspPkt × Reply)) : Prop :=
  ∀ i < n, ∃ x ∈ history, Stored x ∧ (block x.1).Covers (start + i)

/-- Only full buffers have been sent. -/
def Aligned (content : Bytes) (bufpos : ℤ) : Prop := space ∣ content.length - bufpos.toNat

/-- A file that has been given a text: what is in the buffer is the end of it, and what has been sent
stands before. -/
structure Uploading (password : Option CString) (fname : CString) (content : Bytes) (start : ℕ)
    (file : FspFile) (link : Link) : Prop where
  opened : Opened link.session
  password : link.session.password = password
  name : file.name = fname
  room : Room file.answer
  out : Room file.out
  cmd : file.out.cmd = ccUpLoad
  eof : file.eof = false
  err : file.err = false
  writing : file.writing = true
  low : 0 ≤ file.bufpos
  high : file.bufpos ≤ space
  inside : file.bufpos.toNat ≤ content.length
  pos : file.pos.toNat + file.bufpos.toNat = start + content.length
  buffer : file.out.buf.take file.bufpos.toNat = content.drop (content.length - file.bufpos.toNat)
  blocks : Blocks content start link.history
  answered : Answered start (content.length - file.bufpos.toNat) link.history

section Histories

variable {content : Bytes} {start n : ℕ} {history : List (FspPkt × Reply)} {x : FspPkt × Reply}

theorem Blocks.append (h : Blocks content start history) (more : Bytes) :
    Blocks (content ++ more) start history :=
  ⟨fun x hx => ⟨(h.pieces x hx).1, (h.pieces x hx).2.append more⟩, h.sent⟩

theorem Blocks.snoc (h : Blocks content start history)
    (hpiece : Stored x ∧ Piece content start (block x.1))
    (hsent : ∀ q ∈ x.2.sent, q.cmd = x.1.cmd ∧ block q = block x.1) :
    Blocks content start (history ++ [x]) := by
  refine ⟨fun y hy => ?_, fun y hy => ?_⟩
  · rcases List.mem_append.mp hy with hy | hy
    · exact h.pieces y hy
    · obtain rfl := List.mem_singleton.mp hy
      exact hpiece
  · rcases List.mem_append.mp hy with hy | hy
    · exact h.sent y hy
    · obtain rfl := List.mem_singleton.mp hy
      exact hsent

theorem Answered.snoc (h : Answered start n history) (hstored : Stored x)
    (hpos : (block x.1).pos = start + n) :
    Answered start (n + (block x.1).data.length) (history ++ [x]) := by
  intro i hi
  by_cases hbefore : i < n
  · obtain ⟨y, hy, hy', hcovers⟩ := h i hbefore
    exact ⟨y, List.mem_append_left _ hy, hy', hcovers⟩
  · refine ⟨x, List.mem_append_right _ (List.mem_singleton.mpr rfl), hstored, ?_, ?_⟩
    · rw [hpos]
      omega
    · rw [hpos]
      omega

end Histories

section Sending

variable {password : Option CString} {fname : CString} {content source : Bytes} {start n : ℕ}
  {file : FspFile} {link : Link}

theorem Uploading.sized (h : Uploading password fname content start file link) (len : UInt16) :
    Uploading password fname content start { file with out := { file.out with len := len } } link :=
  ⟨h.opened, h.password, h.name, h.room, h.out, h.cmd, h.eof, h.err, h.writing, h.low, h.high,
    h.inside, h.pos, h.buffer, h.blocks, h.answered⟩

theorem Uploading.piece (h : Uploading password fname content start file link)
    (hlen : file.out.len.toNat = file.bufpos.toNat) :
    block (question file) = ⟨start + (content.length - file.bufpos.toNat),
      content.drop (content.length - file.bufpos.toNat)⟩ := by
  have hpos := h.pos
  have hinside := h.inside
  have hbuffer := h.buffer
  have hat : file.pos.toNat = start + (content.length - file.bufpos.toNat) := by omega
  simp only [block, question]
  rw [hlen, hat, hbuffer]

theorem Uploading.copy (h : Uploading password fname content start file link) {part buf : Bytes}
    (hroom : file.bufpos.toNat + part.length ≤ space)
    (hcopy : overwrite file.out.buf file.bufpos.toNat part = .ok buf) :
    Uploading password fname (content ++ part) start
      { file with out := { file.out with buf := buf }, bufpos := file.bufpos + part.length } link := by
  have hlow := h.low
  have hinside := h.inside
  have hpos := h.pos
  have hbufpos : (file.bufpos + part.length).toNat = file.bufpos.toNat + part.length := by omega
  have hbuf := (overwrite_eq_ok_iff.mp hcopy).2
  have hlength := overwrite_length hcopy
  have hout := h.out
  simp only [Room] at hout
  have hfront : (file.out.buf.take file.bufpos.toNat).length = file.bufpos.toNat :=
    List.length_take_of_le (by omega)
  have hbefore : (content ++ part).length - (file.bufpos.toNat + part.length) =
      content.length - file.bufpos.toNat := by
    rw [List.length_append]
    omega
  refine ⟨h.opened, h.password, h.name, h.room, ?_, h.cmd, h.eof, h.err, h.writing, ?_, ?_, ?_, ?_, ?_,
    h.blocks.append part, ?_⟩
  · exact hlength.trans hout
  · dsimp only
    omega
  · dsimp only
    omega
  · dsimp only
    rw [hbufpos, List.length_append]
    omega
  · dsimp only
    rw [hbufpos, List.length_append]
    omega
  · dsimp only
    rw [hbufpos, hbefore, List.drop_append_of_le_length (Nat.sub_le _ _), ← h.buffer, hbuf,
      ← List.append_assoc]
    exact List.take_left' (by rw [List.length_append, hfront])
  · dsimp only
    rw [hbufpos, hbefore]
    exact h.answered

theorem Aligned.copy {bufpos : ℤ} (h : Aligned content bufpos) (hlow : 0 ≤ bufpos) (part : Bytes) :
    Aligned (content ++ part) (bufpos + part.length) := by
  have hsame : (content ++ part).length - (bufpos + part.length).toNat =
      content.length - bufpos.toNat := by
    rw [List.length_append]
    omega
  unfold Aligned
  rw [hsame]
  exact h

structure Between (password : Option CString) (fname : CString) (content : Bytes) (start : ℕ)
    (file : FspFile) (link : Link) : Prop where
  uploading : Uploading password fname content start file link
  room : file.bufpos.toNat < space
  aligned : Aligned content file.bufpos

end Sending

structure Installs (password : Option CString) (fname : CString) (x : FspPkt × Reply) : Prop where
  cmd : x.1.cmd = ccInstall
  name : (block x.1).data = named password fname

section Names

variable {link : Link}

end Names

section Runs

variable {password : Option CString} {fname : CString} {content : Bytes} {start n : ℕ}
  {file : FspFile} {link : Link} {chunks : List Bytes}

/-- The server has been asked last to install the name, after the data, and has not refused. -/
structure Closed (password : Option CString) (fname : CString) (content : Bytes) (start : ℕ)
    (earlier : List (FspPkt × Reply)) (x : FspPkt × Reply) : Prop where
  blocks : Blocks content start earlier
  answered : Answered start content.length earlier
  installs : Installs password fname x
  accepted : (given x.2).isSome = true
  sent : ∀ q ∈ x.2.sent, q.cmd = x.1.cmd ∧ block q = block x.1

/-- Packets of a run that reach the server up to the end, any of them more than once or not at all,
but one for each request that was answered. -/
structure Reached (history : List (FspPkt × Reply)) (log : List FspPkt) : Prop where
  sent : ∀ q ∈ log, q.cmd = ccUpLoad ∧ ∃ x ∈ history, q ∈ x.2.sent
  stored : ∀ x ∈ history, Stored x → ∃ q ∈ x.2.sent, q ∈ log

/-- What the server has stored in the end is the text at its place. -/
theorem Closed.stores {earlier : List (FspPkt × Reply)} {x : FspPkt × Reply} {log : List FspPkt}
    (h : Closed password fname content start earlier x) (hlog : Reached (earlier ++ [x]) log)
    (old : Contents UInt8) : putAll old (log.map block) = put old ⟨start, content⟩ := by
  apply putAll_pieces
  · intro w hw
    obtain ⟨q, hq, rfl⟩ := List.mem_map.mp hw
    obtain ⟨hcmd, y, hy, hsent⟩ := hlog.sent q hq
    rcases List.mem_append.mp hy with hy | hy
    · rw [(h.blocks.sent y hy q hsent).2]
      exact (h.blocks.pieces y hy).2
    · obtain rfl := List.mem_singleton.mp hy
      rw [(h.sent q hsent).1, h.installs.cmd] at hcmd
      cases hcmd
  · intro i hi
    obtain ⟨y, hy, hstored, hcovers⟩ := h.answered i hi
    obtain ⟨q, hsent, hq⟩ := hlog.stored y (List.mem_append_left _ hy) hstored
    refine ⟨block q, List.mem_map_of_mem hq, ?_⟩
    rw [(h.blocks.sent y hy q hsent).2]
    exact hcovers

end Runs

end Gftp.FspUploads
