import Gftp.SshFraming
import Gftp.SshUpload
import Gftp.TextPointers

/-!
sshv2_send_command on its array of 34000 bytes: what is stored, what sshv2_log_command
reads of the message in place and the byte it overwrites while it prints, and what is
handed to gftp_fd_write. The array holds whatever the stack held before.
-/

namespace Gftp.SshSendBounds

open ByteStrings BigEndian Protocol TextPointers SshMessages SshListing SshAttributes
  SshFraming

structure Stack where
  bytes : Bytes
  size : bytes.length = 34000

/-- Bytes of the message that were read: the offset of the first and their number. -/
abbrev Reads := List (ℕ × ℕ)

def printPath (buf : Bytes) (shown : Bool) : CRun Reads :=
  if shown then do return [(8, (← textAt (buf.drop 13)).length + 1)] else .ok []

/-- The byte at an offset becomes a terminator while the string is printed. -/
def printUpTo (buf : Bytes) (off : ℕ) (shown : Bool) : CRun (Bytes × Reads) := do
  let oldchar ← deref (buf.drop (5 + off))
  let cut ← overwrite buf (5 + off) [0]
  let reads ← printPath cut shown
  return (← overwrite cut (5 + off) [oldchar], (off, 1) :: reads)

/-- sshv2_log_command on the message at offset 5 of the array. -/
def logCommand (dontLogStatus : Bool) (type : UInt8) (buf : Bytes) : CRun (Bytes × Reads) := do
  let _ ← wordAt buf 5
  if type = sshFxpOpen then
    let num ← wordAt buf 9
    let (buf, reads) ← printUpTo buf (11 + num.toNat) true
    return (buf, (0, 4) :: (4, 4) :: reads)
  else if type ∈ [sshFxpOpendir, sshFxpRemove, sshFxpMkdir, sshFxpRmdir, sshFxpRealpath,
      sshFxpStat] then
    return (buf, (0, 4) :: (← printPath buf true))
  else if type = sshFxpSetstat then
    let num ← wordAt buf 9
    let stattype ← wordAt buf (13 + num.toNat)
    let _ ← wordAt buf (17 + num.toNat)
    let shown := stattype = sshFilexferAttrPermissions ∨ stattype = sshFilexferAttrAcmodtime
    let (buf, reads) ← printUpTo buf (8 + num.toNat) shown
    return (buf, (0, 4) :: (4, 4) :: (8 + num.toNat, 4) :: (12 + num.toNat, 4) :: reads)
  else if type = sshFxpStatus ∧ dontLogStatus = false ∨ type = sshFxpName then
    let _ ← wordAt buf 9
    return (buf, [(0, 4), (4, 4)])
  else return (buf, [(0, 4)])

structure SendRun where
  ret : Except GftpError Unit
  sent : Option Bytes
  reads : Reads
  request : SshRequest

def storeMessage (stack : Stack) (type : UInt8) (command : Bytes) : CRun Bytes := do
  let buf ← overwrite stack.bytes 0 (be32 (UInt32.ofNat (command.length + 1)))
  let buf ← overwrite buf 4 [type]
  let buf ← overwrite buf 5 command
  overwrite buf (command.length + 5) [0]

def sendStored (request : SshRequest) (type : UInt8) (command : Bytes)
    (written : Except GftpError Unit) (buf : Bytes) : CRun SendRun := do
  let (buf, reads) ← logCommand request.params.dontLogStatus type buf
  return {
    ret := written
    sent := some (buf.take (command.length + 5))
    reads := reads
    request := match written with
      | .error _ => gftpDisconnect request
      | .ok () => request }

/-- sshv2_send_command with its array. written is what gftp_fd_write returns. -/
def sendCommand (stack : Stack) (request : SshRequest) (type : UInt8) (command : Bytes)
    (written : Except GftpError Unit) : CRun SendRun :=
  if 33995 < command.length then
    .ok { ret := .error .fatal, sent := none, reads := [], request := gftpDisconnect request }
  else do sendStored request type command written (← storeMessage stack type command)

/-- The message is sent as it was framed, every store went into the array, and the logger
read no further than the terminator behind the command. -/
def SentInside (type : UInt8) (command : Bytes) (run : CRun SendRun) : Prop :=
  ∃ r, run = .ok r ∧ r.sent = some (frame type command) ∧
    ∀ a ∈ r.reads, a.1 + a.2 ≤ command.length + 1

/-- A block as its parts: the length field, the type, the room for a command, the room for
its terminator and the rest. -/
theorem array_parts {block : Bytes} {n : ℕ} (h : n + 6 ≤ block.length) :
    ∃ word type room last tail : Bytes, block = word ++ (type ++ (room ++ (last ++ tail))) ∧
      word.length = 4 ∧ type.length = 1 ∧ room.length = n ∧ last.length = 1 := by
  obtain ⟨word, rest, rfl, hword⟩ := SshUpload.exists_split (show 4 ≤ block.length by omega)
  rw [List.length_append, hword] at h
  obtain ⟨type, rest, rfl, htype⟩ := SshUpload.exists_split (show 1 ≤ rest.length by omega)
  rw [List.length_append, htype] at h
  obtain ⟨room, rest, rfl, hroom⟩ := SshUpload.exists_split (show n ≤ rest.length by omega)
  rw [List.length_append, hroom] at h
  obtain ⟨last, tail, rfl, hlast⟩ := SshUpload.exists_split (show 1 ≤ rest.length by omega)
  exact ⟨word, type, room, last, tail, rfl, hword, htype, hroom, hlast⟩

theorem stored_eq (stack : Stack) (type : UInt8) {command : Bytes}
    (hlen : command.length < 33995) :
    ∃ tail : Bytes, storeMessage stack type command = .ok (frame type command ++ 0 :: tail) := by
  obtain ⟨word, kind, room, last, tail, hbytes, hword, hkind, hroom, hlast⟩ :=
    @array_parts stack.bytes command.length (by rw [stack.size]; omega)
  refine ⟨tail, ?_⟩
  generalize hbe : be32 (UInt32.ofNat (command.length + 1)) = size
  have hsize : size.length = 4 := by rw [← hbe, be32_length]
  have h₁ : overwrite stack.bytes 0 size = .ok (size ++ (kind ++ (room ++ (last ++ tail)))) := by
    rw [hbytes]
    exact @overwrite_middle [] word _ size 0 rfl (by omega)
  have h₂ : overwrite (size ++ (kind ++ (room ++ (last ++ tail)))) 4 [type] =
      .ok (size ++ ([type] ++ (room ++ (last ++ tail)))) :=
    overwrite_middle hsize.symm hkind.symm
  have h₃ : overwrite (size ++ ([type] ++ (room ++ (last ++ tail)))) 5 command =
      .ok (size ++ ([type] ++ (command ++ (last ++ tail)))) := by
    have h := @overwrite_middle (size ++ [type]) room (last ++ tail) command 5
      (by simp [hsize]) hroom.symm
    simpa using h
  have h₄ : overwrite (size ++ ([type] ++ (command ++ (last ++ tail)))) (command.length + 5) [0] =
      .ok (size ++ ([type] ++ (command ++ ([0] ++ tail)))) := by
    have h := @overwrite_middle (size ++ ([type] ++ command)) last tail [0] (command.length + 5)
      (by simp [hsize]; omega) hlast.symm
    simpa using h
  unfold storeMessage
  rw [hbe, h₁, CRun.ok_bind, h₂, CRun.ok_bind, h₃, CRun.ok_bind, h₄, frame, hbe]
  simp

theorem read_message (type : UInt8) (command tail : Bytes) (off : ℕ) :
    (frame type command ++ 0 :: tail).drop (5 + off) = (command ++ 0 :: tail).drop off := by
  rw [← List.drop_drop]
  rfl

/-- A word of the message that ends before the bytes behind the terminator. -/
theorem wordAt_message {type : UInt8} {command tail : Bytes} {off : ℕ}
    (h : off + 4 ≤ command.length + 1) :
    ∃ w, wordAt (frame type command ++ 0 :: tail) (5 + off) = .ok w ∧
      read32 ((command ++ [0]).drop off) = some w := by
  obtain ⟨w, hw⟩ := Option.isSome_iff_exists.mp ((read32_isSome_iff ((command ++ [0]).drop off)).mpr
    (by simp only [List.length_drop, List.length_append, List.length_singleton]; omega))
  refine ⟨w, ?_, hw⟩
  have hsplit : (command ++ 0 :: tail).drop off = (command ++ [0]).drop off ++ tail := by
    rw [← List.drop_append_of_le_length (by simp only [List.length_append, List.length_singleton]; omega)]
    simp
  rw [wordAt, read_message, hsplit, read32_append
    (by simp only [List.length_drop, List.length_append, List.length_singleton]; omega), hw]

theorem textAt_before {pre post : Bytes} {off : ℕ} (h : off ≤ pre.length) :
    ∃ t, textAt ((pre ++ 0 :: post).drop off) = .ok t ∧ off + t.length ≤ pre.length := by
  rw [List.drop_append_of_le_length h, textAt, if_pos (by simp)]
  refine ⟨_, rfl, ?_⟩
  have hle : (cstr (pre.drop off ++ 0 :: post)).length ≤ (pre.drop off).length := by
    unfold cstr
    rw [List.takeWhile_append]
    split_ifs
    · simp
    · exact (List.takeWhile_sublist _).length_le
  rw [List.length_drop] at hle
  omega

/-- The byte is put back, and the string that is printed ends where it was. -/
theorem printUpTo_eq {buf : Bytes} {off : ℕ} (hlow : 8 ≤ off) (h : 5 + off < buf.length)
    (shown : Bool) :
    ∃ reads, printUpTo buf off shown = .ok (buf, (off, 1) :: reads) ∧
      ∀ a ∈ reads, a.1 + a.2 ≤ off + 1 := by
  obtain ⟨pre, rest, rfl, hpre⟩ := SshUpload.exists_split (show 5 + off ≤ buf.length by omega)
  obtain ⟨b, post, rfl⟩ : ∃ b post, rest = b :: post := by
    cases rest with
    | nil =>
      rw [List.append_nil] at h
      omega
    | cons b post => exact ⟨b, post, rfl⟩
  have hderef : deref ((pre ++ b :: post).drop (5 + off)) = .ok b := by
    rw [← hpre, List.drop_left]
    rfl
  have hcut : ∀ old new : UInt8, overwrite (pre ++ old :: post) (5 + off) [new] =
      .ok (pre ++ new :: post) :=
    fun old new => @overwrite_middle pre [old] post [new] (5 + off) hpre.symm rfl
  obtain ⟨t, ht, hlen⟩ := @textAt_before pre post 13 (by omega)
  unfold printUpTo printPath
  simp only [hderef, CRun.ok_bind, hcut, ht]
  cases shown with
  | true =>
    refine ⟨[(8, t.length + 1)], rfl, ?_⟩
    simp only [List.mem_singleton, forall_eq]
    omega
  | false => exact ⟨[], rfl, by simp⟩

/-- Where the logger is pointed outside the message it reads there. -/
theorem printUpTo_reads {buf buf' : Bytes} {off : ℕ} {shown : Bool} {reads : Reads}
    (h : printUpTo buf off shown = .ok (buf', reads)) : (off, 1) ∈ reads := by
  unfold printUpTo at h
  obtain ⟨_, _, h⟩ := CRun.bind_eq_ok.mp h
  obtain ⟨_, _, h⟩ := CRun.bind_eq_ok.mp h
  obtain ⟨_, _, h⟩ := CRun.bind_eq_ok.mp h
  obtain ⟨_, _, h⟩ := CRun.bind_eq_ok.mp h
  obtain ⟨-, rfl⟩ := Prod.mk.inj (Except.ok.inj h)
  exact List.mem_cons_self ..

/-- On a message that fits its command the logger leaves the array as it was and reads
nothing behind the terminator. -/
theorem logCommand_inside {dontLogStatus : Bool} {type : UInt8} {command tail : Bytes}
    (h : LogFits dontLogStatus type (command ++ [0])) :
    ∃ reads, logCommand dontLogStatus type (frame type command ++ 0 :: tail) =
        .ok (frame type command ++ 0 :: tail, reads) ∧
      ∀ a ∈ reads, a.1 + a.2 ≤ command.length + 1 := by
  have hblock : (command ++ [0]).length = command.length + 1 := by simp
  have hbuf : (frame type command ++ 0 :: tail).length = command.length + 6 + tail.length := by
    simp only [List.length_append, frame_length, List.length_cons]
    omega
  have hnumber := h.number
  rw [hblock] at hnumber
  obtain ⟨id, hid, _⟩ := @wordAt_message type command tail 0 (by omega)
  unfold logCommand
  rw [Nat.add_zero] at hid
  simp only [hid, CRun.ok_bind]
  split_ifs with hopen hpath hsetstat hsecond
  · obtain ⟨num, hnum, hroom⟩ := h.openCommand hopen
    rw [hblock] at hroom
    obtain ⟨w, hw, hread⟩ := @wordAt_message type command tail 4 (by omega)
    obtain rfl := Option.some.inj (hnum.symm.trans hread)
    obtain ⟨reads, hreads, hinside⟩ := @printUpTo_eq (frame type command ++ 0 :: tail)
      (11 + num.toNat) (by omega) (by omega) true
    simp only [hw, CRun.ok_bind, hreads]
    refine ⟨_, rfl, ?_⟩
    simp only [List.mem_cons, forall_eq_or_imp]
    exact ⟨by omega, by omega, by omega, fun a ha => (hinside a ha).trans (by omega)⟩
  · have hroom := h.path hpath
    rw [hblock] at hroom
    obtain ⟨t, ht, hlen⟩ := @textAt_before (frame type command) tail 13
      (by rw [frame_length]; omega)
    rw [frame_length] at hlen
    simp only [printPath, if_true, ht, CRun.ok_bind]
    refine ⟨_, rfl, ?_⟩
    simp only [List.mem_cons, forall_eq_or_imp, List.not_mem_nil, IsEmpty.forall_iff,
      implies_true, and_true]
    omega
  · obtain ⟨num, hnum, hroom⟩ := h.setstat hsetstat
    rw [hblock] at hroom
    obtain ⟨w, hw, hread⟩ := @wordAt_message type command tail 4 (by omega)
    obtain rfl := Option.some.inj (hnum.symm.trans hread)
    obtain ⟨stattype, hstattype, _⟩ := @wordAt_message type command tail (8 + num.toNat) (by omega)
    obtain ⟨attr, hattr, _⟩ := @wordAt_message type command tail (12 + num.toNat) (by omega)
    rw [show 5 + (8 + num.toNat) = 13 + num.toNat by omega] at hstattype
    rw [show 5 + (12 + num.toNat) = 17 + num.toNat by omega] at hattr
    obtain ⟨reads, hreads, hinside⟩ := @printUpTo_eq (frame type command ++ 0 :: tail)
      (8 + num.toNat) (by omega) (by omega)
      (stattype = sshFilexferAttrPermissions ∨ stattype = sshFilexferAttrAcmodtime)
    simp only [hw, CRun.ok_bind, hstattype, hattr, hreads]
    refine ⟨_, rfl, ?_⟩
    simp only [List.mem_cons, forall_eq_or_imp]
    exact ⟨by omega, by omega, by omega, by omega, by omega,
      fun a ha => (hinside a ha).trans (by omega)⟩
  · have hroom : 8 ≤ command.length + 1 := by
      rw [← hblock]
      rcases hsecond with ⟨hstatus, hlog⟩ | hname
      · exact h.status hstatus hlog
      · exact h.name hname
    obtain ⟨w, hw, _⟩ := @wordAt_message type command tail 4 (by omega)
    simp only [hw, CRun.ok_bind]
    refine ⟨_, rfl, ?_⟩
    simp only [List.mem_cons, forall_eq_or_imp, List.not_mem_nil, IsEmpty.forall_iff,
      implies_true, and_true]
    omega
  · refine ⟨_, rfl, ?_⟩
    simp only [List.mem_singleton, forall_eq]
    omega

/-- The number a command carries at offset 4, once the logger has read it there. -/
theorem number_of_read {type : UInt8} {command tail : Bytes} {num : UInt32}
    (hread : wordAt (frame type command ++ 0 :: tail) 9 = .ok num)
    (hin : 4 + 4 ≤ command.length + 1) : read32 ((command ++ [0]).drop 4) = some num := by
  obtain ⟨w, hw, hword⟩ := @wordAt_message type command tail 4 hin
  obtain rfl := Except.ok.inj (hread.symm.trans hw)
  exact hword

/-- A message of which the logger reads nothing behind the terminator fits its command. -/
theorem logFits_of_inside {dontLogStatus : Bool} {type : UInt8} {command tail buf : Bytes}
    {reads : Reads}
    (h : logCommand dontLogStatus type (frame type command ++ 0 :: tail) = .ok (buf, reads))
    (hin : ∀ a ∈ reads, a.1 + a.2 ≤ command.length + 1) :
    LogFits dontLogStatus type (command ++ [0]) := by
  have hblock : (command ++ [0]).length = command.length + 1 := by simp
  unfold logCommand at h
  obtain ⟨_, _, h⟩ := CRun.bind_eq_ok.mp h
  split_ifs at h with hopen hpath hsetstat hsecond
  · obtain ⟨num, hnum, h⟩ := CRun.bind_eq_ok.mp h
    obtain ⟨⟨_, shown⟩, hprint, h⟩ := CRun.bind_eq_ok.mp h
    obtain ⟨-, rfl⟩ := Prod.mk.inj (Except.ok.inj h)
    have hcut := hin _ (List.mem_cons_of_mem _ (List.mem_cons_of_mem _ (printUpTo_reads hprint)))
    simp only [List.mem_cons, forall_eq_or_imp] at hin
    subst hopen
    refine ⟨by omega, fun _ => ⟨num, number_of_read hnum hin.2.1, by omega⟩, ?_, ?_, ?_, ?_⟩
    all_goals exact fun h => absurd h (by decide)
  · obtain ⟨shown, hprint, h⟩ := CRun.bind_eq_ok.mp h
    obtain ⟨t, _, hprint⟩ := CRun.bind_eq_ok.mp hprint
    obtain rfl := Except.ok.inj hprint
    obtain ⟨-, rfl⟩ := Prod.mk.inj (Except.ok.inj h)
    simp only [List.mem_cons, forall_eq_or_imp] at hin
    refine ⟨by omega, fun h => absurd h hopen, fun _ => by omega, ?_, ?_, ?_⟩
    all_goals
      rintro rfl
      exact absurd hpath (by decide)
  · obtain ⟨num, hnum, h⟩ := CRun.bind_eq_ok.mp h
    obtain ⟨stattype, _, h⟩ := CRun.bind_eq_ok.mp h
    obtain ⟨attr, _, h⟩ := CRun.bind_eq_ok.mp h
    obtain ⟨⟨_, shown⟩, hprint, h⟩ := CRun.bind_eq_ok.mp h
    obtain ⟨-, rfl⟩ := Prod.mk.inj (Except.ok.inj h)
    simp only [List.mem_cons, forall_eq_or_imp] at hin
    subst hsetstat
    refine ⟨by omega, ?_, ?_, fun _ => ⟨num, number_of_read hnum hin.2.1, by omega⟩, ?_, ?_⟩
    all_goals exact fun h => absurd h (by decide)
  · obtain ⟨num, _, h⟩ := CRun.bind_eq_ok.mp h
    obtain ⟨-, rfl⟩ := Prod.mk.inj (Except.ok.inj h)
    simp only [List.mem_cons, forall_eq_or_imp] at hin
    exact ⟨by omega, fun h => absurd h hopen, fun h => absurd h hpath, fun h => absurd h hsetstat,
      fun _ _ => by omega, fun _ => by omega⟩
  · obtain ⟨-, rfl⟩ := Prod.mk.inj (Except.ok.inj h)
    simp only [List.mem_singleton, forall_eq] at hin
    simp only [not_or, not_and] at hsecond
    exact ⟨by omega, fun h => absurd h hopen, fun h => absurd h hpath, fun h => absurd h hsetstat,
      fun hstatus hlog => absurd hlog (hsecond.1 hstatus), fun hname => absurd hname hsecond.2⟩

theorem stored_fault (stack : Stack) (type : UInt8) {command : Bytes}
    (hlen : command.length = 33995) : storeMessage stack type command = .error .fault := by
  obtain ⟨sized, hsized⟩ : ∃ buf, overwrite stack.bytes 0
      (be32 (UInt32.ofNat (command.length + 1))) = .ok buf :=
    ⟨_, overwrite_ok (by rw [stack.size, be32_length]; omega)⟩
  have hlen₁ := (overwrite_length hsized).trans stack.size
  obtain ⟨typed, htyped⟩ : ∃ buf, overwrite sized 4 [type] = .ok buf :=
    ⟨_, overwrite_ok (by rw [hlen₁, List.length_singleton]; omega)⟩
  have hlen₂ := (overwrite_length htyped).trans hlen₁
  obtain ⟨filled, hfilled⟩ : ∃ buf, overwrite typed 5 command = .ok buf :=
    ⟨_, overwrite_ok (by omega)⟩
  have hlen₃ := (overwrite_length hfilled).trans hlen₂
  unfold storeMessage
  rw [hsized, CRun.ok_bind, htyped, CRun.ok_bind, hfilled, CRun.ok_bind]
  exact overwrite_fault (by rw [List.length_singleton]; omega)

/-- A command that is sent from inside the array leaves room for the terminator and has the
bytes its log line is made of. -/
theorem SentInside.fits {stack : Stack} {request : SshRequest} {type : UInt8} {command : Bytes}
    {written : Except GftpError Unit} (haccepted : command.length ≤ 33995)
    (h : SentInside type command (sendCommand stack request type command written)) :
    command.length < 33995 ∧ LogFits request.params.dontLogStatus type (command ++ [0]) := by
  obtain ⟨r, hr, -, hin⟩ := h
  unfold sendCommand at hr
  rw [if_neg (Nat.not_lt.mpr haccepted)] at hr
  rcases Nat.lt_or_ge command.length 33995 with hlen | hlen
  · obtain ⟨tail, hstored⟩ := stored_eq stack type hlen
    rw [hstored, CRun.ok_bind] at hr
    obtain ⟨⟨buf, reads⟩, hlog, hr⟩ := CRun.bind_eq_ok.mp hr
    obtain rfl := Except.ok.inj hr
    exact ⟨hlen, logFits_of_inside hlog hin⟩
  · rw [stored_fault stack type (by omega), CRun.error_bind] at hr
    simp at hr

/-- A command that is accepted is sent from inside the array exactly when it leaves room for
the terminator and has the bytes its log line is made of. -/
theorem sent_inside_iff (stack : Stack) (request : SshRequest) (type : UInt8) {command : Bytes}
    (written : Except GftpError Unit) (haccepted : command.length ≤ 33995) :
    SentInside type command (sendCommand stack request type command written) ↔
      command.length < 33995 ∧ LogFits request.params.dontLogStatus type (command ++ [0]) := by
  constructor
  · exact SentInside.fits haccepted
  · rintro ⟨hlen, hfits⟩
    obtain ⟨tail, hstored⟩ := stored_eq stack type hlen
    obtain ⟨reads, hlog, hin⟩ := @logCommand_inside _ _ _ tail hfits
    unfold SentInside sendCommand sendStored
    rw [if_neg (Nat.not_lt.mpr haccepted), hstored, CRun.ok_bind, hlog, CRun.ok_bind]
    refine ⟨_, rfl, ?_, hin⟩
    rw [← frame_length type command, List.take_left]

/-- What is sent from inside the array is what a send without the array gives. -/
theorem sendCommand_refines {stack : Stack} {request : SshRequest} {type : UInt8}
    {command : Bytes} {written : Except GftpError Unit} (haccepted : command.length ≤ 33995)
    (h : SentInside type command (sendCommand stack request type command written)) :
    ∃ r, sendCommand stack request type command written = .ok r ∧
      sshv2SendCommand request type command written =
        .ok { ret := r.ret, sent := r.sent, request := r.request } := by
  obtain ⟨hlen, hfits⟩ := h.fits haccepted
  obtain ⟨r, hr, hsent, -⟩ := h
  refine ⟨r, hr, ?_⟩
  rw [sendCommand_eq written hlen (logTerminated_ok_iff.mpr hfits), hsent]
  unfold sendCommand at hr
  rw [if_neg (Nat.not_lt.mpr haccepted)] at hr
  obtain ⟨buf, _, hr⟩ := CRun.bind_eq_ok.mp hr
  obtain ⟨⟨buf', reads⟩, _, hr⟩ := CRun.bind_eq_ok.mp hr
  obtain rfl := Except.ok.inj hr
  rfl

def clearStack : Stack := ⟨List.replicate 34000 0, List.length_replicate⟩

def openA : Bytes := be32 1 ++ (be32 1 ++ ascii "a")

theorem open_sent_inside :
    SentInside sshFxpOpendir openA
      (sendCommand clearStack freshRequest sshFxpOpendir openA (.ok ())) := by
  refine (sent_inside_iff clearStack freshRequest sshFxpOpendir (.ok ()) (by decide)).mpr
    ⟨by decide, by decide, ?_, fun _ => by decide, ?_, ?_, ?_⟩
  all_goals exact fun h => absurd h (by decide)

/-- The longest command that is accepted has its terminator stored behind the array. -/
theorem longest_command_overruns :
    ¬ ∀ (stack : Stack) (request : SshRequest) (type : UInt8) (command : Bytes)
        (written : Except GftpError Unit), command.length ≤ 33995 →
      SentInside type command (sendCommand stack request type command written) := by
  intro h
  obtain ⟨command, hlen⟩ : ∃ command : Bytes, command.length = 33995 :=
    ⟨List.replicate 33995 0, List.length_replicate⟩
  obtain ⟨r, hr, -⟩ := h clearStack freshRequest sshFxpWrite command (.ok ()) hlen.le
  unfold sendCommand at hr
  rw [if_neg (Nat.not_lt.mpr hlen.le), stored_fault clearStack sshFxpWrite hlen] at hr
  simp at hr

end Gftp.SshSendBounds
