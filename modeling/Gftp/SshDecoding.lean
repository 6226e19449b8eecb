import Gftp.SshListing

/-!
What the functions that take values out of a message consume. A function takes a
value from an encoding when, on any message whose unread part starts with it, it
returns the value and moves past exactly these bytes. The rule for two functions in
sequence carries this to a whole directory entry.
-/

namespace Gftp.SshDecoding

open ByteStrings BigEndian Protocol DirListing SshMessages SshListing

def advance (message : SshMessage) (n : ℕ) : SshMessage :=
  { message with pos := message.pos + n }

@[simp] theorem advance_advance (message : SshMessage) (m n : ℕ) :
    advance (advance message m) n = advance message (m + n) := by
  simp only [advance, Nat.add_assoc]

/-- The bytes between pos and end. -/
def Unread (message : SshMessage) (rest : Bytes) : Prop :=
  ∃ pre, message.buffer = some (pre ++ (rest ++ [0, 0])) ∧ message.pos = pre.length ∧
    message.endPos = pre.length + rest.length

theorem Unread.advance {message : SshMessage} {d rest : Bytes} (h : Unread message (d ++ rest)) :
    Unread (advance message d.length) rest := by
  obtain ⟨pre, hbuffer, hpos, hend⟩ := h
  refine ⟨pre ++ d, ?_, ?_, ?_⟩
  · rw [List.append_assoc, ← List.append_assoc d]
    exact hbuffer
  · simp [SshDecoding.advance, hpos]
  · simp only [SshDecoding.advance, hend, List.length_append]
    omega

/-- On every message that starts with d the function returns a and moves past d. -/
def Takes {α : Type} (take : SshRequest → SshMessage → CRun (Taken α)) (d : Bytes) (a : α) :
    Prop :=
  ∀ (request : SshRequest) (message : SshMessage) (rest : Bytes), Unread message (d ++ rest) →
    take request message =
      .ok { value := .ok a, message := advance message d.length, request := request }

section Rules

variable {α β : Type} {a : α} {b : β} {d d' : Bytes}

theorem Takes.nothing (a : α) :
    Takes (fun request message =>
      return { value := .ok a, message := message, request := request }) [] a :=
  fun _ _ _ _ => rfl

theorem Takes.andThen {take : SshRequest → SshMessage → CRun (Taken α)}
    {next : α → SshRequest → SshMessage → CRun (Taken β)} (htake : Takes take d a)
    (hnext : Takes (next a) d' b) :
    Takes (fun request message => do (← take request message).andThen next) (d ++ d') b := by
  intro request message rest h
  rw [List.append_assoc] at h
  simp only [htake request message _ h, CRun.ok_bind, Taken.andThen]
  rw [hnext request _ rest h.advance, advance_advance, List.length_append]

theorem Takes.andThen_nothing {take : SshRequest → SshMessage → CRun (Taken α)}
    {next : α → SshRequest → SshMessage → CRun (Taken β)} (htake : Takes take d a)
    (hnext : Takes (next a) [] b) :
    Takes (fun request message => do (← take request message).andThen next) d b := by
  have hseq := htake.andThen hnext
  rwa [List.append_nil] at hseq

theorem Takes.guarded {take : SshRequest → SshMessage → CRun (Taken α)} (c : Bool) {a₀ : α}
    (htake : c = true → Takes take d a) :
    Takes (fun request message =>
      if c then take request message
      else return { value := .ok a₀, message := message, request := request })
      (if c then d else []) (if c then a else a₀) := by
  cases c with
  | true => exact htake rfl
  | false => exact Takes.nothing a₀

end Rules

theorem takes_int32 (n : UInt32) :
    Takes (fun request message => sshv2BufferGetInt32 request message none) (be32 n) n := by
  rintro request message rest ⟨pre, hbuffer, hpos, hend⟩
  rw [List.append_assoc] at hbuffer
  have hword : wordAt (message.buffer.getD []) message.pos = .ok n := by
    rw [hbuffer]
    exact wordAt_display n hpos
  have hroom : ¬ message.endPos < message.pos + 4 := by
    simp only [List.length_append, be32_length] at hend
    omega
  simp only [sshv2BufferGetInt32, if_neg hroom, hword, CRun.ok_bind]
  rfl

/-- The two words as the code puts them together. -/
def joinedWords (n : UInt64) : UInt64 :=
  n.toUInt32.toUInt64 ||| (n >>> 32).toUInt32.toUInt64 >>> 32

/-- Only the low word is left. -/
theorem joinedWords_eq (n : UInt64) : joinedWords n = n.toUInt32.toUInt64 := by
  apply UInt64.toNat.inj
  have hhigh : ((n >>> 32).toUInt32.toUInt64 >>> 32).toNat = 0 := by
    have hlt := (n >>> 32).toUInt32.toNat_lt
    rw [UInt64.toNat_shiftRight, UInt32.toNat_toUInt64]
    exact Nat.shiftRight_eq_zero _ _ hlt
  rw [joinedWords, UInt64.toNat_or, hhigh, Nat.or_zero]

theorem takes_int64 (n : UInt64) : Takes sshv2BufferGetInt64 (be64 n) (joinedWords n) :=
  (takes_int32 (n >>> 32).toUInt32).andThen
    ((takes_int32 n.toUInt32).andThen_nothing (Takes.nothing _))

theorem takes_string {s : Bytes} (h : s.length ≤ sshMaxStringSize) :
    Takes sshv2BufferGetString (be32 (UInt32.ofNat s.length) ++ s) s := by
  have hlen : (UInt32.ofNat s.length).toNat = s.length := by
    rw [UInt32.toNat_ofNat']
    unfold sshMaxStringSize at h
    omega
  apply (takes_int32 (UInt32.ofNat s.length)).andThen
  rintro request message rest ⟨pre, hbuffer, hpos, hend⟩
  rw [List.length_append] at hend
  have hroom : ¬ (sshMaxStringSize < (UInt32.ofNat s.length).toNat ∨
      message.endPos - message.pos < (UInt32.ofNat s.length).toNat) := by omega
  have hbytes : ((message.buffer.getD []).drop message.pos).take s.length = s := by
    simp [hbuffer, hpos]
  dsimp only
  rw [if_neg hroom, hlen, hbytes]
  rfl

/-- A directory entry as a server sends it. A part of the attributes is there when its
flag is. -/
structure DirEntry where
  name : Bytes
  longname : Bytes
  flags : UInt32
  size : UInt64
  uid : UInt32
  gid : UInt32
  permissions : UInt32
  atime : UInt32
  mtime : UInt32
  noSlash : 47 ∉ name
  noExtended : hasAttr flags sshFilexferAttrExtended = false

namespace DirEntry

variable (e : DirEntry)

def sizeBytes : Bytes := if hasAttr e.flags sshFilexferAttrSize then be64 e.size else []

def ownerBytes : Bytes :=
  if hasAttr e.flags sshFilexferAttrUidgid then be32 e.uid ++ be32 e.gid else []

def permissionBytes : Bytes :=
  if hasAttr e.flags sshFilexferAttrPermissions then be32 e.permissions else []

def timeBytes : Bytes :=
  if hasAttr e.flags sshFilexferAttrAcmodtime then be32 e.atime ++ be32 e.mtime else []

def attrBytes : Bytes :=
  be32 e.flags ++ (e.sizeBytes ++ (e.ownerBytes ++ (e.permissionBytes ++ e.timeBytes)))

def encode : Bytes :=
  (be32 (UInt32.ofNat e.name.length) ++ e.name) ++
    ((be32 (UInt32.ofNat e.longname.length) ++ e.longname) ++ e.attrBytes)

def withSize (d : Decoded) : Decoded :=
  if hasAttr e.flags sshFilexferAttrSize then
    ({ d.1 with size := (joinedWords e.size).toInt64.toInt }, d.2) else d

def withOwner (d : Decoded) : Decoded :=
  if hasAttr e.flags sshFilexferAttrUidgid then
    ({ d.1 with user := some (decimalWord e.uid), group := some (decimalWord e.gid) }, some e.gid)
  else d

def withPermissions (d : Decoded) : Decoded :=
  if hasAttr e.flags sshFilexferAttrPermissions then
    ({ d.1 with stMode := e.permissions.toNat }, some e.permissions) else d

def withTimes (d : Decoded) : Decoded :=
  if hasAttr e.flags sshFilexferAttrAcmodtime then
    ({ d.1 with datetime := e.mtime.toNat }, some e.mtime) else d

/-- The entry before its name is converted. -/
def decoded : GftpFile where
  file := some (cstr e.name)
  user := if hasAttr e.flags sshFilexferAttrUidgid then some (decimalWord e.uid) else none
  group := if hasAttr e.flags sshFilexferAttrUidgid then some (decimalWord e.gid) else none
  size := if hasAttr e.flags sshFilexferAttrSize then (joinedWords e.size).toInt64.toInt else 0
  datetime := if hasAttr e.flags sshFilexferAttrAcmodtime then e.mtime.toNat else 0
  stMode := if hasAttr e.flags sshFilexferAttrPermissions then e.permissions.toNat else 0

end DirEntry

theorem takes_decodeSize (e : DirEntry) (d : Decoded) :
    Takes (decodeSize e.flags d) e.sizeBytes (e.withSize d) :=
  Takes.guarded _ fun _ => (takes_int64 e.size).andThen_nothing (Takes.nothing _)

theorem takes_decodeUidgid (e : DirEntry) (d : Decoded) :
    Takes (decodeUidgid e.flags d) e.ownerBytes (e.withOwner d) :=
  Takes.guarded _ fun _ => (takes_int32 e.uid).andThen
    ((takes_int32 e.gid).andThen_nothing (Takes.nothing _))

theorem takes_decodePermissions (e : DirEntry) (d : Decoded) :
    Takes (decodePermissions e.flags d) e.permissionBytes (e.withPermissions d) :=
  Takes.guarded _ fun _ => (takes_int32 e.permissions).andThen_nothing (Takes.nothing _)

theorem takes_decodeAcmodtime (e : DirEntry) (d : Decoded) :
    Takes (decodeAcmodtime e.flags d) e.timeBytes (e.withTimes d) := by
  refine Takes.guarded _ fun _ => ?_
  intro request message rest h
  rw [List.append_assoc] at h
  simp only [takes_int32 e.atime request message _ h, CRun.ok_bind, Taken.andThen,
    takes_int32 e.mtime request _ rest h.advance, advance_advance, List.length_append]
  rfl

theorem takes_decodeExtended (e : DirEntry) (fle : GftpFile) :
    Takes (decodeExtended e.flags fle) [] fle := by
  intro request message rest _
  simp only [decodeExtended, e.noExtended]
  rfl

theorem takes_attributes (e : DirEntry) :
    Takes (sshv2DecodeFileAttributes { GftpFile.cleared with file := some (cstr e.name) })
      e.attrBytes e.decoded := by
  have hdecoded : e.decoded = (e.withTimes (e.withPermissions (e.withOwner (e.withSize
      ({ GftpFile.cleared with file := some (cstr e.name) }, none))))).1 := by
    unfold DirEntry.decoded DirEntry.withTimes DirEntry.withPermissions DirEntry.withOwner
      DirEntry.withSize GftpFile.cleared
    split_ifs <;> rfl
  rw [hdecoded]
  apply (takes_int32 e.flags).andThen
  apply (takes_decodeSize e _).andThen
  apply (takes_decodeUidgid e _).andThen
  apply (takes_decodePermissions e _).andThen
  exact (takes_decodeAcmodtime e _).andThen_nothing (takes_decodeExtended e _)

theorem encode_length_pos (e : DirEntry) : 12 ≤ e.encode.length := by
  simp only [DirEntry.encode, DirEntry.attrBytes, List.length_append, be32_length]
  omega

/-- An entry that fits a message is returned, and the message moves past it. -/
theorem takeEntry_encode {e : DirEntry} {request : SshRequest} {rest : Bytes}
    (s : ByteStreams.Stream GftpError) (h : Unread request.params.message (e.encode ++ rest))
    (hfits : e.encode.length ≤ sshMaxStringSize) :
    takeEntry request s = .ok
      { ret := .ok e.encode.length
        fle := e.decoded
        request := (request.setMessage (advance request.params.message e.encode.length)).setCount
          (request.params.count - 1)
        stream := s } := by
  have hlengths : e.encode.length = (4 + e.name.length) + ((4 + e.longname.length) +
      e.attrBytes.length) := by
    simp only [DirEntry.encode, List.length_append, be32_length]
  have hname := @takes_string e.name (by omega)
  have hlongname := @takes_string e.longname (by omega)
  have hassoc : e.encode ++ rest = (be32 (UInt32.ofNat e.name.length) ++ e.name) ++
      ((be32 (UInt32.ofNat e.longname.length) ++ e.longname) ++ (e.attrBytes ++ rest)) := by
    simp only [DirEntry.encode, List.append_assoc]
  rw [hassoc] at h
  have hattrs := takes_attributes e request _ _ h.advance.advance
  rw [advance_advance] at hattrs
  simp only [takeEntry, hname request _ _ h, hlongname request _ _ h.advance, hattrs,
    CRun.ok_bind, advance_advance]
  simp [hlengths, advance, SshRequest.setMessage, SshRequest.setCount, pure, Except.pure,
    Nat.add_assoc]

end Gftp.SshDecoding
