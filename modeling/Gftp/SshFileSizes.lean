import Gftp.SshAttributes
import Gftp.SshUpload

/-!
The 64-bit numbers of SFTP: the offset that sshv2_setup_file_offset writes and the
size that sshv2_decode_file_attributes reads. The reader shifts the high word out, so
a number comes back exactly when it fits its low word.
-/

namespace Gftp.SshFileSizes

open ByteStrings BigEndian Protocol SshMessages SshListing SshDecoding SshUpload SshAttributes

variable {α β : Type}

/-- Every value the function returns satisfies post. -/
def Yields (take : SshRequest → SshMessage → CRun (Taken α)) (post : α → Prop) : Prop :=
  ∀ request message t a, take request message = .ok t → t.value = .ok a → post a

namespace Yields

variable {take : SshRequest → SshMessage → CRun (Taken α)} {post : α → Prop} {post' : β → Prop}

theorem anything : Yields take fun _ => True := fun _ _ _ _ _ _ => trivial

theorem nothing {a : α} (h : post a) :
    Yields (fun request message =>
      return { value := .ok a, message := message, request := request }) post := by
  intro request message t b ht hvalue
  obtain rfl := Except.ok.inj ht
  obtain rfl := Except.ok.inj hvalue
  exact h

theorem andThen {next : α → SshRequest → SshMessage → CRun (Taken β)} (htake : Yields take post)
    (hnext : ∀ a, post a → Yields (next a) post') :
    Yields (fun request message => do (← take request message).andThen next) post' := by
  intro request message t b ht hvalue
  obtain ⟨t₁, ht₁, ht⟩ := CRun.bind_eq_ok.mp ht
  unfold Taken.andThen at ht
  split at ht
  · obtain rfl := Except.ok.inj ht
    simp at hvalue
  · rename_i a ha
    exact hnext a (htake _ _ _ _ ht₁ ha) _ _ _ _ ht hvalue

theorem guarded {c : Bool} {a : α} (htake : Yields take post) (ha : post a) :
    Yields (fun request message =>
      if c then take request message
      else return { value := .ok a, message := message, request := request }) post := by
  cases c with
  | true => exact htake
  | false => exact nothing ha

end Yields

private theorem yields_acmodtime (flags : UInt32) (x : Decoded) :
    Yields (decodeAcmodtime flags x) fun y => y.1.size = x.1.size := by
  intro request message t y ht hy
  unfold decodeAcmodtime at ht
  split_ifs at ht
  · obtain ⟨atime, _, ht⟩ := CRun.bind_eq_ok.mp ht
    split at ht
    · split at ht
      · simp at ht
      · split_ifs at ht
        obtain rfl := Except.ok.inj ht
        simp at hy
    · have hmtime : Yields (fun request message => do
          let num ← sshv2BufferGetInt32 request message none
          num.andThen fun num request message =>
            return { value := .ok ({ x.1 with datetime := num.toNat }, some num)
                     message := message, request := request }) fun y => y.1.size = x.1.size :=
        Yields.anything.andThen fun _ _ => Yields.nothing rfl
      exact hmtime _ _ _ _ ht hy
  · obtain rfl := Except.ok.inj ht
    obtain rfl := Except.ok.inj hy
    rfl

/-- The parts after the size leave it as it is. -/
theorem yields_size (flags : UInt32) (x : Decoded) :
    Yields (fun request message => do
      let x ← decodeUidgid flags x request message
      x.andThen fun x request message => do
        let x ← decodePermissions flags x request message
        x.andThen fun x request message => do
          let x ← decodeAcmodtime flags x request message
          x.andThen fun x request message => decodeExtended flags x.1 request message)
      fun out => out.size = x.1.size := by
  have howner : Yields (decodeUidgid flags x) fun y => y.1.size = x.1.size :=
    Yields.guarded (Yields.anything.andThen fun _ _ => Yields.anything.andThen fun _ _ =>
      Yields.nothing rfl) rfl
  refine howner.andThen fun y hy => ?_
  have hpermissions : Yields (decodePermissions flags y) fun z => z.1.size = y.1.size :=
    Yields.guarded (Yields.anything.andThen fun _ _ => Yields.nothing rfl) rfl
  refine hpermissions.andThen fun z hz => ?_
  refine (yields_acmodtime flags z).andThen fun w hw => ?_
  have hextended : Yields (decodeExtended flags w.1) fun out => out.size = w.1.size :=
    Yields.guarded (Yields.anything.andThen fun _ _ => Yields.anything.andThen fun _ _ =>
      Yields.nothing rfl) rfl
  intro request message t out ht hout
  rw [hextended request message t out ht hout, hw, hz, hy]

/-- What is decoded of a size that was encoded. -/
theorem decoded_size {fle out : GftpFile} {request : SshRequest} {message : SshMessage}
    {flags : UInt32} {v : UInt64} {rest : Bytes} {t : Taken GftpFile}
    (h : Unread message (be32 flags ++ (be64 v ++ rest)))
    (hflag : hasAttr flags sshFilexferAttrSize = true)
    (ht : sshv2DecodeFileAttributes fle request message = .ok t) (hout : t.value = .ok out) :
    out.size = (joinedWords v).toInt64.toInt := by
  unfold sshv2DecodeFileAttributes at ht
  simp only [takes_int32 flags request message _ h, CRun.ok_bind, Taken.andThen, decodeSize,
    hflag, if_true, takes_int64 v request _ rest h.advance] at ht
  exact yields_size flags _ _ _ _ _ ht hout

/-- The bytes that sshv2_setup_file_offset leaves after the handle string. -/
theorem setupFileOffset_words {params : SshParams} {block block' : Bytes}
    (h : sshv2SetupFileOffset params block = .ok block') :
    (block'.drop params.handleLen).take 8 = be64 params.offset := by
  obtain ⟨middle, hhigh, hlow⟩ := CRun.bind_eq_ok.mp h
  obtain ⟨hle, rfl⟩ := overwrite_eq_ok_iff.mp hhigh
  obtain ⟨_, rfl⟩ := overwrite_eq_ok_iff.mp hlow
  rw [be32_length] at hle
  have hfront : (block.take params.handleLen).length = params.handleLen :=
    List.length_take_of_le (by omega)
  have hpre : (block.take params.handleLen ++ be32 (params.offset >>> 32).toUInt32).length =
      params.handleLen + 4 := by
    rw [List.length_append, hfront, be32_length]
  rw [← List.append_assoc (block.take params.handleLen), List.take_left' hpre, List.append_assoc,
    List.drop_left' hfront, ← List.append_assoc (be32 _)]
  exact List.take_left' rfl

theorem joinedWords_toNat (v : UInt64) : (joinedWords v).toNat = v.toNat % 2 ^ 32 := by
  rw [joinedWords_eq, UInt32.toNat_toUInt64, UInt64.toNat_toUInt32]

theorem joinedWords_eq_iff (v : UInt64) : joinedWords v = v ↔ v.toNat < 2 ^ 32 := by
  rw [← UInt64.toNat_inj, joinedWords_toNat]
  exact ⟨fun h => h ▸ Nat.mod_lt _ (by decide), Nat.mod_eq_of_lt⟩

theorem joinedWords_toInt (v : UInt64) :
    (joinedWords v).toInt64.toInt = ((v.toNat % 2 ^ 32 : ℕ) : ℤ) := by
  have hjoined := joinedWords_toNat v
  have htoInt : (joinedWords v).toInt64.toInt = (joinedWords v).toBitVec.toInt := rfl
  have htoNat : (joinedWords v).toBitVec.toNat = (joinedWords v).toNat := rfl
  rw [htoInt, BitVec.toInt_eq_toNat_cond, htoNat, hjoined, if_pos (by omega)]

/-- An offset and a file size are read back as they were written exactly when their high
word is zero. -/
theorem words_read_back_iff (v : UInt64) :
    (∀ (params : SshParams) (block block' rest : Bytes) (request : SshRequest)
      (message : SshMessage), params.offset = v → sshv2SetupFileOffset params block = .ok block' →
      Unread message ((block'.drop params.handleLen).take 8 ++ rest) →
      ((∃ t, sshv2BufferGetInt64 request message = .ok t ∧ t.value = .ok v) ↔
        v.toNat < 2 ^ 32)) ∧
    (∀ (fle out : GftpFile) (request : SshRequest) (message : SshMessage) (flags : UInt32)
      (rest : Bytes) (t : Taken GftpFile), v.toNat < 2 ^ 63 →
      hasAttr flags sshFilexferAttrSize = true →
      Unread message (be32 flags ++ (be64 v ++ rest)) →
      sshv2DecodeFileAttributes fle request message = .ok t → t.value = .ok out →
      (out.size = v.toNat ↔ v.toNat < 2 ^ 32)) := by
  constructor
  · intro params block block' rest request message hoffset hsetup hunread
    rw [setupFileOffset_words hsetup, hoffset] at hunread
    rw [takes_int64 v request message rest hunread, ← joinedWords_eq_iff]
    constructor
    · rintro ⟨t, ht, hvalue⟩
      obtain rfl := Except.ok.inj ht
      exact Except.ok.inj hvalue
    · intro hv
      exact ⟨_, rfl, congrArg _ hv⟩
  · intro fle out request message flags rest t _ hflag hunread ht hout
    rw [decoded_size hunread hflag ht hout, joinedWords_toInt, Nat.cast_inj]
    exact ⟨fun h => h ▸ Nat.mod_lt _ (by decide), Nat.mod_eq_of_lt⟩

/-- An offset below 2^32. -/
theorem small_offset_read_back :
    ∃ t, sshv2BufferGetInt64 freshRequest (messageOf (be64 5)) = .ok t ∧ t.value = .ok 5 :=
  ((words_read_back_iff 5).1 { freshRequest.params with offset := 5 } (be64 0) (be64 5) []
    freshRequest (messageOf (be64 5)) rfl rfl (unread_messageOf _)).mpr (by decide)

/-- The size 2^32 is read as 0. -/
theorem high_word_lost :
    ¬ ∀ (v : UInt64) (request : SshRequest) (message : SshMessage) (rest : Bytes),
      Unread message (be64 v ++ rest) →
      ∃ t, sshv2BufferGetInt64 request message = .ok t ∧ t.value = .ok v := by
  intro h
  obtain ⟨t, ht, hvalue⟩ := h (2 ^ 32) freshRequest (messageOf (be64 (2 ^ 32))) []
    (unread_messageOf _)
  have hzero : sshv2BufferGetInt64 freshRequest (messageOf (be64 (2 ^ 32))) =
      .ok { value := .ok 0, message := advance (messageOf (be64 (2 ^ 32))) 8,
            request := freshRequest } := rfl
  rw [hzero] at ht
  obtain rfl := Except.ok.inj ht
  exact absurd (Except.ok.inj hvalue) (by decide)

end Gftp.SshFileSizes
