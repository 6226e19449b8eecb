import Gftp.AttrsLayout
import Gftp.SshDecoding

/-!
What sshv2_decode_file_attributes makes of the bytes at the cursor, whether they hold
a whole structure or not. Two slips decide it: four bytes too many are skipped after
each string of an extended pair, and a missing access time is answered with a number
that was decoded before it.
-/

namespace Gftp.SshAttributes

open ByteStrings BigEndian Protocol SshMessages SshListing SshDecoding AttrsLayout

variable {α β : Type}

/-- A negative result with the cursor inside the message that is left. -/
def Refused (res : CRun (Taken α)) : Prop :=
  ∃ t e, res = .ok t ∧ t.value = .error e ∧ t.message.pos ≤ t.message.endPos

/-- With d before the cursor's end the function moves over exactly k bytes and returns a
value that satisfies post, or is refused when there are fewer. -/
def Spans (take : SshRequest → SshMessage → CRun (Taken α)) (d : Bytes) (k : ℕ)
    (post : α → Prop) : Prop :=
  ∀ request message, Unread message d →
    (k ≤ d.length → ∃ a, post a ∧
      take request message =
        .ok { value := .ok a, message := advance message k, request := request }) ∧
    (d.length < k → Refused (take request message))

theorem unread_advance {message : SshMessage} {d : Bytes} {k : ℕ} (h : Unread message d)
    (hk : k ≤ d.length) : Unread (advance message k) (d.drop k) := by
  have hlen : (d.take k).length = k := List.length_take_of_le hk
  rw [← List.take_append_drop k d] at h
  have hadvance := h.advance
  rwa [hlen] at hadvance

theorem unread_inside {message : SshMessage} {d : Bytes} (h : Unread message d) :
    message.pos ≤ message.endPos := by
  obtain ⟨pre, _, hpos, hend⟩ := h
  omega

theorem refused_wrong (request : SshRequest) :
    Refused (.ok (sshv2WrongResponse α request) : CRun (Taken α)) :=
  ⟨_, _, rfl, rfl, Nat.le_refl 0⟩

theorem Refused.andThen {res : CRun (Taken α)} (h : Refused res)
    (next : α → SshRequest → SshMessage → CRun (Taken β)) :
    Refused (do (← res).andThen next) := by
  obtain ⟨t, e, rfl, hvalue, hpos⟩ := h
  refine ⟨{ value := .error e, message := t.message, request := t.request }, e, ?_, rfl, hpos⟩
  simp only [CRun.ok_bind, Taken.andThen, hvalue]

namespace Spans

variable {take : SshRequest → SshMessage → CRun (Taken α)} {d : Bytes} {k m : ℕ}
  {post : α → Prop} {post' : β → Prop}

theorem nothing {a : α} (h : post a) :
    Spans (fun request message =>
      return { value := .ok a, message := message, request := request }) d 0 post := by
  intro request message _
  constructor
  · intro _
    exact ⟨a, h, rfl⟩
  · intro hlen
    exact absurd hlen (Nat.not_lt_zero _)

theorem run (h : Spans take d k post) {request : SshRequest} {message : SshMessage}
    (hunread : Unread message d) (hk : k ≤ d.length)
    (next : α → SshRequest → SshMessage → CRun (Taken β)) :
    ∃ a, post a ∧ Unread (advance message k) (d.drop k) ∧
      (do (← take request message).andThen next) = next a request (advance message k) := by
  obtain ⟨a, ha, htake⟩ := (h request message hunread).1 hk
  refine ⟨a, ha, unread_advance hunread hk, ?_⟩
  simp only [htake, CRun.ok_bind, Taken.andThen]

theorem refuse (h : Spans take d k post) {request : SshRequest} {message : SshMessage}
    (hunread : Unread message d) (hk : d.length < k)
    (next : α → SshRequest → SshMessage → CRun (Taken β)) :
    Refused (do (← take request message).andThen next) :=
  ((h request message hunread).2 hk).andThen next

/-- A sequence is refused in its first part, or goes on with what is left. -/
theorem split (h : Spans take d k post) {request : SshRequest} {message : SshMessage}
    (hunread : Unread message d) (next : α → SshRequest → SshMessage → CRun (Taken β)) :
    (d.length < k ∧ Refused (do (← take request message).andThen next)) ∨
    (k ≤ d.length ∧ ∃ a, post a ∧ Unread (advance message k) (d.drop k) ∧
      (do (← take request message).andThen next) = next a request (advance message k)) := by
  rcases Nat.lt_or_ge d.length k with hlt | hle
  · exact Or.inl ⟨hlt, h.refuse hunread hlt next⟩
  · exact Or.inr ⟨hle, h.run hunread hle next⟩

theorem andThen {next : α → SshRequest → SshMessage → CRun (Taken β)}
    (htake : Spans take d k post) (hnext : ∀ a, post a → Spans (next a) (d.drop k) m post') :
    Spans (fun request message => do (← take request message).andThen next) d (k + m) post' := by
  intro request message hunread
  constructor
  · intro hlen
    obtain ⟨a, ha, hrest, hrun⟩ := @run _ _ _ _ _ _ htake request _ hunread (by omega) next
    obtain ⟨b, hb, hend⟩ := (hnext a ha request _ hrest).1 (by rw [List.length_drop]; omega)
    refine ⟨b, hb, ?_⟩
    dsimp only
    rw [hrun, hend, advance_advance]
  · intro hlen
    by_cases hk : d.length < k
    · exact htake.refuse hunread hk next
    · obtain ⟨a, ha, hrest, hrun⟩ :=
        @run _ _ _ _ _ _ htake request _ hunread (Nat.le_of_not_lt hk) next
      dsimp only
      rw [hrun]
      exact (hnext a ha request _ hrest).2 (by rw [List.length_drop]; omega)

theorem guarded {c : Bool} {a : α} (htake : c = true → Spans take d k post)
    (hnot : c = false → post a) :
    Spans (fun request message =>
      if c then take request message
      else return { value := .ok a, message := message, request := request })
      d (if c then k else 0) post := by
  cases c with
  | true => exact htake rfl
  | false => exact nothing (hnot rfl)

end Spans

theorem spans_int32 (d : Bytes) :
    Spans (fun request message => sshv2BufferGetInt32 request message none) d 4
      fun w => read32 d = some w := by
  rintro request message ⟨pre, hbuffer, hpos, hend⟩
  constructor
  · intro hlen
    obtain ⟨w, hw⟩ := Option.isSome_iff_exists.mp ((read32_isSome_iff d).mpr hlen)
    refine ⟨w, hw, ?_⟩
    have hword : wordAt (message.buffer.getD []) message.pos = .ok w := by
      rw [hbuffer, hpos, Option.getD_some, wordAt, List.drop_left, read32_append hlen, hw]
    simp only [sshv2BufferGetInt32]
    rw [if_neg (by omega), hword]
    rfl
  · intro hlen
    simp only [sshv2BufferGetInt32]
    rw [if_pos (by omega)]
    exact refused_wrong request

theorem spans_int64 (d : Bytes) : Spans sshv2BufferGetInt64 d 8 fun _ => True :=
  (spans_int32 d).andThen fun _ _ =>
    @Spans.andThen _ _ _ _ 4 0 _ _ _ (spans_int32 _) fun _ _ => Spans.nothing trivial

theorem spans_decodeSize (flags : UInt32) (x : Decoded) (d : Bytes) :
    Spans (decodeSize flags x) d (if hasAttr flags sshFilexferAttrSize then 8 else 0)
      fun y => y.2 = x.2 :=
  Spans.guarded
    (fun _ => @Spans.andThen _ _ _ _ 8 0 _ _ _ (spans_int64 d) fun _ _ => Spans.nothing rfl)
    fun _ => rfl

theorem spans_decodeUidgid (flags : UInt32) (x : Decoded) (d : Bytes) :
    Spans (decodeUidgid flags x) d (if hasAttr flags sshFilexferAttrUidgid then 8 else 0)
      fun y => y.2 = if hasAttr flags sshFilexferAttrUidgid then read32 (d.drop 4) else x.2 := by
  refine Spans.guarded (fun hflag => ?_) (fun hflag => by simp [hflag])
  simp only [hflag, if_true]
  exact (spans_int32 d).andThen fun _ _ => @Spans.andThen _ _ _ _ 4 0 _ _ _ (spans_int32 _)
    fun group hgroup => Spans.nothing hgroup.symm

theorem spans_decodePermissions (flags : UInt32) (x : Decoded) (d : Bytes) :
    Spans (decodePermissions flags x) d
      (if hasAttr flags sshFilexferAttrPermissions then 4 else 0)
      fun y => y.2 = if hasAttr flags sshFilexferAttrPermissions then read32 d else x.2 := by
  refine Spans.guarded (fun hflag => ?_) (fun hflag => by simp [hflag])
  simp only [hflag, if_true]
  exact @Spans.andThen _ _ _ _ 4 0 _ _ _ (spans_int32 d) fun num hnum => Spans.nothing hnum.symm

/-- The number decoded last before the times. -/
def lastNumber (flags : UInt32) (d : Bytes) : Option UInt32 :=
  if hasAttr flags sshFilexferAttrPermissions || hasAttr flags sshFilexferAttrUidgid then
    read32 (d.drop (timesAt flags - 4))
  else none

/-- Up to the times the decoder follows the structure. -/
theorem decode_front {fle : GftpFile} {request : SshRequest} {message : SshMessage} {d : Bytes}
    {flags : UInt32} (h : Unread message d) (hflags : read32 d = some flags) :
    (d.length < timesAt flags → Refused (sshv2DecodeFileAttributes fle request message)) ∧
    (timesAt flags ≤ d.length → ∃ x : GftpFile,
      Unread (advance message (timesAt flags)) (d.drop (timesAt flags)) ∧
      sshv2DecodeFileAttributes fle request message =
        (do (← decodeAcmodtime flags (x, lastNumber flags d) request
          (advance message (timesAt flags))).andThen fun x request message =>
            decodeExtended flags x.1 request message)) := by
  have hfour : 4 ≤ d.length := (read32_isSome_iff d).mp (by simp [hflags])
  unfold sshv2DecodeFileAttributes
  obtain ⟨w, hw, h₁, hrun₁⟩ := @Spans.run _ GftpFile _ _ _ _ (spans_int32 d) request _ h hfour _
  obtain rfl : flags = w := Option.some.inj (hflags.symm.trans hw)
  rw [hrun₁]
  rcases @Spans.split _ GftpFile _ _ _ _ (spans_decodeSize flags (fle, none) (d.drop 4)) request _
    h₁ _ with ⟨hlt, hrefused⟩ | ⟨hle₂, x₂, hx₂, h₂, hrun₂⟩
  · rw [List.length_drop] at hlt
    unfold timesAt
    exact ⟨fun _ => hrefused, fun hle => absurd hlt (by omega)⟩
  rw [hrun₂]
  rcases @Spans.split _ GftpFile _ _ _ _ (spans_decodeUidgid flags x₂ _) request _ h₂ _ with
    ⟨hlt, hrefused⟩ | ⟨hle₃, x₃, hx₃, h₃, hrun₃⟩
  · simp only [List.length_drop] at hlt
    unfold timesAt
    exact ⟨fun _ => hrefused, fun hle => absurd hlt (by omega)⟩
  rw [hrun₃]
  rcases @Spans.split _ GftpFile _ _ _ _ (spans_decodePermissions flags x₃ _) request _ h₃ _ with
    ⟨hlt, hrefused⟩ | ⟨hle₄, x₄, hx₄, h₄, hrun₄⟩
  · simp only [List.length_drop] at hlt
    unfold timesAt
    exact ⟨fun _ => hrefused, fun hle => absurd hlt (by omega)⟩
  rw [hrun₄]
  simp only [advance_advance, List.drop_drop, List.length_drop] at *
  constructor
  · intro hlt
    unfold timesAt at hlt
    omega
  · intro _
    have hnum : x₄ = (x₄.1, lastNumber flags d) := by
      refine Prod.ext rfl ?_
      rw [hx₄, hx₃, hx₂]
      have hback : ∀ n, n + 8 - 4 = n + 4 := by omega
      unfold lastNumber timesAt
      cases hasAttr flags sshFilexferAttrPermissions <;>
        cases hasAttr flags sshFilexferAttrUidgid <;> simp [hback]
    have hat : timesAt flags = 4 + (if hasAttr flags sshFilexferAttrSize then 8 else 0) +
        (if hasAttr flags sshFilexferAttrUidgid then 8 else 0) +
        (if hasAttr flags sshFilexferAttrPermissions then 4 else 0) := rfl
    rw [← hat] at h₄
    refine ⟨x₄.1, h₄, ?_⟩
    rw [← hat, ← hnum]

theorem negative_iff (n : UInt32) : n.toInt32.toInt < 0 ↔ 2 ^ 31 ≤ n.toNat := by
  have hn := n.toNat_lt
  have htoInt : n.toInt32.toInt = n.toBitVec.toInt := rfl
  have htoNat : n.toBitVec.toNat = n.toNat := rfl
  rw [htoInt, BitVec.toInt_eq_toNat_cond, htoNat]
  split_ifs with h <;> omega

/-- What the decoder does with the times, d being the bytes from them on. -/
theorem decodeAcmodtime_cases {flags : UInt32} {x : GftpFile} {num : Option UInt32}
    {request : SshRequest} {message : SshMessage} {d : Bytes} (h : Unread message d)
    (hflag : hasAttr flags sshFilexferAttrAcmodtime = true) :
    (8 ≤ d.length → ∃ y, decodeAcmodtime flags (x, num) request message =
      .ok { value := .ok y, message := advance message 8, request := request }) ∧
    (d.length < 8 → (4 ≤ d.length ∨ ∃ n, num = some n ∧ 2 ^ 31 ≤ n.toNat) →
      Refused (decodeAcmodtime flags (x, num) request message)) ∧
    (d.length < 4 → (∀ n, num = some n → n.toNat < 2 ^ 31) →
      decodeAcmodtime flags (x, num) request message = .error .fault) := by
  unfold decodeAcmodtime
  rw [if_pos hflag]
  have hatime := spans_int32 d request message h
  refine ⟨fun hlen => ?_, fun hlen hgood => ?_, fun hlen hbad => ?_⟩
  · obtain ⟨w, _, hw⟩ := hatime.1 (by omega)
    obtain ⟨v, _, hv⟩ := (spans_int32 _ request _ (unread_advance h (by omega : 4 ≤ d.length))).1
      (by rw [List.length_drop]; omega)
    simp only [hw, CRun.ok_bind, hv, Taken.andThen, advance_advance]
    exact ⟨_, rfl⟩
  · by_cases hfour : 4 ≤ d.length
    · obtain ⟨w, _, hw⟩ := hatime.1 hfour
      simp only [hw, CRun.ok_bind]
      exact (spans_int32 _).refuse (unread_advance h hfour) (by rw [List.length_drop]; omega) _
    · obtain ⟨n, rfl, hn⟩ := hgood.resolve_left hfour
      obtain ⟨t, e, ht, hvalue, hpos⟩ := hatime.2 (by omega)
      simp only [ht, CRun.ok_bind, hvalue]
      rw [if_pos ((negative_iff n).mpr hn)]
      exact ⟨_, _, rfl, rfl, hpos⟩
  · obtain ⟨t, e, ht, hvalue, hpos⟩ := hatime.2 hlen
    simp only [ht, CRun.ok_bind, hvalue]
    cases num with
    | none => rfl
    | some n =>
      have hn := hbad n rfl
      dsimp only
      rw [if_neg (by rw [negative_iff]; omega)]

/-- The result moves the cursor over the size that is found, and is refused without one. -/
def Follows (res : CRun (Taken α)) (request : SshRequest) (message : SshMessage) :
    Option ℕ → Prop
  | some n => ∃ a, res = .ok { value := .ok a, message := advance message n, request := request }
  | none => Refused res

theorem not_refused {a : α} {message : SshMessage} {request : SshRequest} :
    ¬ Refused (.ok { value := .ok a, message := message, request := request }) := by
  rintro ⟨t, e, ht, hvalue, _⟩
  obtain rfl := Except.ok.inj ht
  simp at hvalue

/-- A result follows one size only. -/
theorem Follows.iff {res : CRun (Taken α)} {request : SshRequest} {message : SshMessage}
    {size : Option ℕ} (h : Follows res request message size) (size' : Option ℕ) :
    Follows res request message size' ↔ size = size' := by
  constructor
  · intro h'
    cases size with
    | none =>
      cases size' with
      | none => rfl
      | some n' =>
        obtain ⟨a, rfl⟩ := h'
        exact absurd h not_refused
    | some n =>
      obtain ⟨a, rfl⟩ := h
      cases size' with
      | none => exact absurd h' not_refused
      | some n' =>
        obtain ⟨a', ha'⟩ := h'
        have hpos := congrArg (fun t => t.message.pos) (Except.ok.inj ha')
        simp only [advance, Nat.add_left_cancel_iff] at hpos
        rw [hpos]
  · rintro rfl
    exact h

theorem skipExtended_follows {request : SshRequest} {message : SshMessage} {d : Bytes}
    (h : Unread message d) :
    Follows (skipExtended request message) request message (stringSize 4 d) := by
  have hnum := spans_int32 d request message h
  unfold skipExtended stringSize
  by_cases hlen : 4 ≤ d.length
  · obtain ⟨n, hn, hrun⟩ := hnum.1 hlen
    simp only [hrun, CRun.ok_bind, hn]
    have hadvance := unread_advance h hlen
    obtain ⟨pre, _, hpos, hend⟩ := id h
    have hroom : (advance message 4).endPos < (advance message 4).pos + n.toNat + 4 ↔
        d.length < 4 + n.toNat + 4 := by
      simp only [advance, hpos, hend]
      omega
    by_cases hshort : d.length < 4 + n.toNat + 4
    · rw [if_pos (hroom.mpr hshort), if_pos hshort]
      exact ⟨_, _, rfl, rfl, unread_inside hadvance⟩
    · rw [if_neg (fun h => hshort (hroom.mp h)), if_neg hshort]
      refine ⟨(), ?_⟩
      simp only [pure, Except.pure, advance, Nat.add_assoc]
  · obtain ⟨t, e, ht, hvalue, hpos⟩ := hnum.2 (Nat.lt_of_not_le hlen)
    simp only [ht, CRun.ok_bind, hvalue, (read32_none_iff d).mpr (Nat.lt_of_not_le hlen)]
    exact ⟨_, _, rfl, rfl, hpos⟩

/-- Taking one part after another adds their sizes. -/
theorem Follows.andThen {res : CRun (Taken α)} {request : SshRequest} {message : SshMessage}
    {size : Option ℕ} {next : α → SshRequest → SshMessage → CRun (Taken β)}
    {sizes : ℕ → Option ℕ} (h : Follows res request message size)
    (hnext : ∀ n a, size = some n → Follows (next a request (advance message n)) request
      (advance message n) (sizes n)) :
    Follows (do (← res).andThen next) request message
      (size.bind fun n => (sizes n).map (n + ·)) := by
  cases size with
  | none => exact Refused.andThen h next
  | some n =>
    obtain ⟨a, rfl⟩ := h
    have hrest := hnext n a rfl
    simp only [CRun.ok_bind, Taken.andThen, Option.bind_some]
    cases hsizes : sizes n with
    | none =>
      rw [hsizes] at hrest
      exact hrest
    | some m =>
      rw [hsizes] at hrest
      obtain ⟨b, hb⟩ := hrest
      exact ⟨b, by rw [hb, advance_advance]⟩

theorem stringSize_le {pad n : ℕ} {d : Bytes} (h : stringSize pad d = some n) : n ≤ d.length := by
  unfold stringSize at h
  split at h
  · simp at h
  · split_ifs at h
    obtain rfl := Option.some.inj h
    omega

/-- The pairs are skipped as strings with four more bytes after each. -/
theorem skipPairs_follows {request : SshRequest} {message : SshMessage} {d : Bytes} (count : ℕ)
    (h : Unread message d) :
    Follows (skipPairs count request message) request message (stringsSize 4 (2 * count) d) := by
  induction count generalizing message d with
  | zero => exact ⟨(), rfl⟩
  | succ count ih =>
    rw [Nat.mul_succ]
    simp only [skipPairs, stringsSize]
    apply (skipExtended_follows h).andThen
    intro n _ hn
    have hkey := unread_advance h (stringSize_le hn)
    apply (skipExtended_follows hkey).andThen
    intro m _ hm
    exact ih (unread_advance hkey (stringSize_le hm))

theorem decodeExtended_follows {flags : UInt32} {fle : GftpFile} {request : SshRequest}
    {message : SshMessage} {d : Bytes} (h : Unread message d) :
    Follows (decodeExtended flags fle request message) request message
      (if hasAttr flags sshFilexferAttrExtended then
        (read32 d).bind fun count =>
          (stringsSize 4 (2 * count.toNat) (d.drop 4)).map (4 + ·)
      else some 0) := by
  unfold decodeExtended
  split_ifs with hflag
  · by_cases hlen : 4 ≤ d.length
    · obtain ⟨count, hcount, hleft, hrun⟩ :=
        @Spans.run _ GftpFile _ _ _ _ (spans_int32 d) request _ h hlen _
      have hpairs := @skipPairs_follows request _ _ count.toNat hleft
      rw [hrun, hcount, Option.bind_some]
      cases hsize : stringsSize 4 (2 * count.toNat) (d.drop 4) with
      | none =>
        rw [hsize] at hpairs
        exact Refused.andThen hpairs _
      | some n =>
        rw [hsize] at hpairs
        obtain ⟨_, hskip⟩ := hpairs
        refine ⟨fle, ?_⟩
        simp only [hskip, CRun.ok_bind, advance_advance]
        rfl
    · have hnone := (read32_none_iff d).mpr (Nat.lt_of_not_le hlen)
      rw [hnone]
      exact (spans_int32 d).refuse h (Nat.lt_of_not_le hlen) _
  · exact ⟨fle, rfl⟩

/-- Where the decoder meets the structure. An access time that is cut off has a number
with its first bit set before it, and the extended strings take up the same room when
four more bytes follow each of them. -/
structure Regular (d : Bytes) : Prop where
  times : ∀ flags, read32 d = some flags → hasAttr flags sshFilexferAttrAcmodtime = true →
    d.length < timesAt flags ∨ timesAt flags + 4 ≤ d.length ∨
      ∃ n, lastNumber flags d = some n ∧ 2 ^ 31 ≤ n.toNat
  pairs : ∀ flags count, read32 d = some flags →
    hasAttr flags sshFilexferAttrExtended = true →
    read32 (d.drop (extendedAt flags)) = some count →
      stringsSize 4 (2 * count.toNat) (d.drop (extendedAt flags + 4)) =
        stringsSize 0 (2 * count.toNat) (d.drop (extendedAt flags + 4))

/-- A result that moves from a later place. -/
private theorem follows_from {res : CRun (Taken α)} {request : SshRequest}
    {message : SshMessage} {k : ℕ} {size : Option ℕ}
    (h : Follows res request (advance message k) size) :
    Follows res request message (size.map (k + ·)) := by
  cases size with
  | none => exact h
  | some n =>
    obtain ⟨a, ha⟩ := h
    exact ⟨a, by rw [ha, advance_advance]⟩

private theorem read32_short {d : Bytes} {k : ℕ} (h : d.length < k + 4) :
    read32 (d.drop k) = none := by
  rw [read32_none_iff, List.length_drop]
  omega

theorem follows_pairs {fle : GftpFile} {request : SshRequest} {message : SshMessage}
    {d : Bytes} {flags : UInt32} (h : Unread message d) (hflags : read32 d = some flags)
    (hlen : extendedAt flags ≤ d.length) :
    Follows (sshv2DecodeFileAttributes fle request message) request message
      (if hasAttr flags sshFilexferAttrExtended then
        (read32 (d.drop (extendedAt flags))).bind fun count =>
          (stringsSize 4 (2 * count.toNat) (d.drop (extendedAt flags + 4))).map
            (extendedAt flags + 4 + ·)
      else some (extendedAt flags)) := by
  have htimes : timesAt flags ≤ extendedAt flags := Nat.le_add_right _ _
  obtain ⟨x, hrest, hfront⟩ := (@decode_front fle request _ _ _ h hflags).2 (by omega)
  obtain ⟨y, hy⟩ : ∃ y, decodeAcmodtime flags (x, lastNumber flags d) request
      (advance message (timesAt flags)) =
        .ok { value := .ok y, message := advance message (extendedAt flags),
              request := request } := by
    by_cases hflag : hasAttr flags sshFilexferAttrAcmodtime = true
    · have hat : extendedAt flags = timesAt flags + 8 := by rw [extendedAt, if_pos hflag]
      obtain ⟨y, hy⟩ := (@decodeAcmodtime_cases _ x (lastNumber flags d) request _ _ hrest
        hflag).1 (by rw [List.length_drop]; omega)
      exact ⟨y, by rw [hy, advance_advance, hat]⟩
    · refine ⟨(x, lastNumber flags d), ?_⟩
      rw [decodeAcmodtime, if_neg hflag, extendedAt, if_neg hflag]
      rfl
  have hext := follows_from
    (@decodeExtended_follows flags y.1 request _ _ (unread_advance h hlen))
  rw [hfront, hy]
  simp only [CRun.ok_bind, Taken.andThen]
  convert hext using 1
  split_ifs
  · cases read32 (d.drop (extendedAt flags)) with
    | none => rfl
    | some count =>
      simp only [Option.bind_some, List.drop_drop, Option.map_map]
      congr 1
      funext n
      simp [Nat.add_assoc]
  · rfl

private theorem attrsSize_eq {d : Bytes} {flags : UInt32} (hflags : read32 d = some flags)
    (hlen : extendedAt flags ≤ d.length) :
    attrsSize d = if hasAttr flags sshFilexferAttrExtended then
        (read32 (d.drop (extendedAt flags))).bind fun count =>
          (stringsSize 0 (2 * count.toNat) (d.drop (extendedAt flags + 4))).map
            (extendedAt flags + 4 + ·)
      else some (extendedAt flags) := by
  unfold attrsSize
  simp only [hflags, if_neg (Nat.not_lt.mpr hlen)]
  split_ifs
  · cases read32 (d.drop (extendedAt flags)) <;> rfl
  · rfl

/-- All parts but the pairs are there, so the pairs decide. -/
private theorem follows_iff_of_long {fle : GftpFile} {request : SshRequest}
    {message : SshMessage} {d : Bytes} {flags : UInt32} (h : Unread message d)
    (hflags : read32 d = some flags) (hlen : extendedAt flags ≤ d.length) :
    Follows (sshv2DecodeFileAttributes fle request message) request message (attrsSize d) ↔
      Regular d := by
  rw [(follows_pairs h hflags hlen).iff, attrsSize_eq hflags hlen]
  constructor
  · intro hsame
    constructor
    · intro flags' hflags' htimes
      obtain rfl : flags' = flags := Option.some.inj (hflags'.symm.trans hflags)
      rw [extendedAt, if_pos htimes] at hlen
      exact Or.inr (Or.inl (by omega))
    · intro flags' count hflags' hext hcount
      obtain rfl : flags' = flags := Option.some.inj (hflags'.symm.trans hflags)
      simp only [hext, if_true, hcount, Option.bind_some] at hsame
      exact Option.map_injective (fun a b hab => Nat.add_left_cancel hab) hsame
  · intro hregular
    split_ifs with hext
    · cases hcount : read32 (d.drop (extendedAt flags)) with
      | none => rfl
      | some count => rw [Option.bind_some, Option.bind_some,
          hregular.pairs flags count hflags hext hcount]
    · rfl

/-- The structure is cut off before its pairs, so the times decide. -/
private theorem follows_iff_of_short {fle : GftpFile} {request : SshRequest}
    {message : SshMessage} {d : Bytes} {flags : UInt32} (h : Unread message d)
    (hflags : read32 d = some flags) (hlen : d.length < extendedAt flags) :
    Follows (sshv2DecodeFileAttributes fle request message) request message (attrsSize d) ↔
      Regular d := by
  have hsize : attrsSize d = none := by
    unfold attrsSize
    simp only [hflags, if_pos hlen]
  have hpairs : ∀ flags' count, read32 d = some flags' →
      hasAttr flags' sshFilexferAttrExtended = true →
      read32 (d.drop (extendedAt flags')) = some count →
        stringsSize 4 (2 * count.toNat) (d.drop (extendedAt flags' + 4)) =
          stringsSize 0 (2 * count.toNat) (d.drop (extendedAt flags' + 4)) := by
    intro flags' count hflags' _ hcount
    obtain rfl : flags' = flags := Option.some.inj (hflags'.symm.trans hflags)
    rw [read32_short (by omega)] at hcount
    exact absurd hcount (by simp)
  rw [hsize]
  by_cases hfront : d.length < timesAt flags
  · refine iff_of_true ((decode_front h hflags).1 hfront) ⟨?_, hpairs⟩
    intro flags' hflags' _
    obtain rfl : flags' = flags := Option.some.inj (hflags'.symm.trans hflags)
    exact Or.inl hfront
  have hflag : hasAttr flags sshFilexferAttrAcmodtime = true := by
    by_contra hno
    rw [extendedAt, if_neg hno] at hlen
    exact hfront hlen
  rw [extendedAt, if_pos hflag] at hlen
  obtain ⟨x, hrest, hdecode⟩ := (@decode_front fle request _ _ _ h hflags).2 (by omega)
  obtain ⟨_, hgood, hbad⟩ :=
    @decodeAcmodtime_cases _ x (lastNumber flags d) request _ _ hrest hflag
  rw [List.length_drop] at hgood hbad
  constructor
  · intro hrefused
    refine ⟨?_, hpairs⟩
    intro flags' hflags' _
    obtain rfl : flags' = flags := Option.some.inj (hflags'.symm.trans hflags)
    by_contra hno
    simp only [not_or, not_exists, not_and, Nat.not_le] at hno
    obtain ⟨_, hfour, hnum⟩ := hno
    have hfault := hbad (by omega) hnum
    rw [hdecode, hfault] at hrefused
    obtain ⟨t, _, ht, _⟩ := hrefused
    simp at ht
  · intro hregular
    rw [hdecode]
    apply Refused.andThen
    apply hgood (by omega)
    rcases hregular.times flags hflags hflag with hlt | hle | hnum
    · exact absurd hlt hfront
    · exact Or.inl (by omega)
    · exact Or.inr hnum

/-- The decoder agrees with the size of the structure exactly on regular bytes. -/
theorem decode_follows_iff (fle : GftpFile) (request : SshRequest) {message : SshMessage}
    {d : Bytes} (h : Unread message d) :
    Follows (sshv2DecodeFileAttributes fle request message) request message (attrsSize d) ↔
      Regular d := by
  cases hflags : read32 d with
  | none =>
    have hsize : attrsSize d = none := by simp only [attrsSize, hflags]
    rw [hsize]
    refine iff_of_true ?_ ⟨fun flags h' => ?_, fun flags count h' => ?_⟩
    · exact (spans_int32 d).refuse h ((read32_none_iff d).mp hflags) _
    · simp [hflags] at h'
    · simp [hflags] at h'
  | some flags =>
    rcases Nat.lt_or_ge d.length (extendedAt flags) with hlt | hle
    · exact follows_iff_of_short h hflags hlt
    · exact follows_iff_of_long h hflags hle

/-- A structure followed by anything is decoded and the cursor moves past it; bytes that do
not start with a structure are refused. -/
def DecodesAttrs (fle : GftpFile) (request : SshRequest) (message : SshMessage) (d : Bytes) :
    Prop :=
  (∀ (a : Attrs) (rest : Bytes), d = a.encode ++ rest →
    ∃ out, sshv2DecodeFileAttributes fle request message =
      .ok { value := .ok out, message := advance message a.encode.length, request := request }) ∧
  ((∀ (a : Attrs) (rest : Bytes), d ≠ a.encode ++ rest) →
    Refused (sshv2DecodeFileAttributes fle request message))

/-- The attributes are decoded as they should exactly on regular bytes. -/
theorem attributes_decoded_iff (fle : GftpFile) (request : SshRequest) (message : SshMessage)
    (d : Bytes) (h : Unread message d) :
    DecodesAttrs fle request message d ↔ Regular d := by
  rw [← decode_follows_iff fle request h]
  cases hsize : attrsSize d with
  | none =>
    have hno : ∀ (a : Attrs) (rest : Bytes), d ≠ a.encode ++ rest := by
      rintro a rest rfl
      rw [attrsSize_encode] at hsize
      simp at hsize
    constructor
    · intro hdecodes
      exact hdecodes.2 hno
    · intro hrefused
      exact ⟨fun a rest hd => absurd hd (hno a rest), fun _ => hrefused⟩
  | some n =>
    obtain ⟨a, rest, rfl, rfl⟩ := attrsSize_eq_some hsize
    constructor
    · intro hdecodes
      exact hdecodes.1 a rest rfl
    · intro hfollows
      refine ⟨fun a' rest' hd => ?_, fun hno => absurd rfl (hno a rest)⟩
      have hlen := attrsSize_encode a' rest'
      rw [← hd, hsize] at hlen
      rw [← Option.some.inj hlen]
      exact hfollows

/-- A request at its first message. -/
def freshRequest : SshRequest where
  params := { handle := [], handleLen := 0, transferBuffer := none, id := 0, count := 0,
              message := SshMessage.freed, dontLogStatus := false, offset := 0 }
  connected := true
  cached := false
  lastDirEntry := none

/-- The message that holds d and nothing else. -/
def messageOf (d : Bytes) : SshMessage where
  length := d.length + 1
  command := sshFxpAttrs
  buffer := some (d ++ [0, 0])
  pos := 0
  endPos := d.length

theorem unread_messageOf (d : Bytes) : Unread (messageOf d) d :=
  ⟨[], rfl, rfl, (Nat.zero_add _).symm⟩

/-- Attributes with one extended pair of two empty strings. -/
def emptyPair : Attrs where
  flags := sshFilexferAttrExtended
  size := 0
  uid := 0
  gid := 0
  permissions := 0
  atime := 0
  mtime := 0
  extended := [([], [])]
  count := by decide
  short := by simp

/-- The bytes skipped after the first string hide the second. -/
theorem empty_pair_refused :
    ¬ ∀ fle request message d, Unread message d → DecodesAttrs fle request message d := by
  intro h
  obtain ⟨out, hout⟩ := (h GftpFile.cleared freshRequest (messageOf emptyPair.encode)
    emptyPair.encode (unread_messageOf _)).1 emptyPair [] (List.append_nil _).symm
  have hrefused : Refused (sshv2DecodeFileAttributes GftpFile.cleared freshRequest
      (messageOf emptyPair.encode)) := ⟨_, _, rfl, rfl, Nat.le_refl 0⟩
  rw [hout] at hrefused
  exact not_refused hrefused

/-- Attributes with a size, times and a pair whose second string has its own length, less eight, in
front: the strings take up the same room where four bytes more are skipped behind each. -/
def timedPair : Attrs where
  flags := sshFilexferAttrSize ||| sshFilexferAttrAcmodtime ||| sshFilexferAttrExtended
  size := 5
  uid := 0
  gid := 0
  permissions := 0
  atime := 1000
  mtime := 2000
  extended := [([], List.replicate 8 0)]
  count := by decide
  short := by decide

theorem timed_pair_decoded :
    DecodesAttrs GftpFile.cleared freshRequest (messageOf timedPair.encode) timedPair.encode := by
  have hflags : read32 timedPair.encode = some timedPair.flags := by decide
  refine (attributes_decoded_iff _ _ _ _ (unread_messageOf _)).mpr ⟨?_, ?_⟩
  · intro flags hread _
    obtain rfl := Option.some.inj (hflags.symm.trans hread)
    exact .inr (.inl (by decide))
  · intro flags count hread _ hcount
    obtain rfl := Option.some.inj (hflags.symm.trans hread)
    have hone : read32 (timedPair.encode.drop (extendedAt timedPair.flags)) = some 1 := by decide
    obtain rfl := Option.some.inj (hone.symm.trans hcount)
    decide

end Gftp.SshAttributes
