import Gftp.SshFileSizes
import Gftp.SshListState
import Gftp.SshReplay

/-!
What successive calls of sshv2_get_next_file return for NAME messages of any number of
entries. A message without entries is taken for one whose first entry comes next, so the
calls end there, and count wraps around when the bytes behind it can be read as an entry.
-/

namespace Gftp.SshNameRuns

open ByteStrings ByteStreams BigEndian Decimal Protocol DirListing SshMessages SshListing
  SshDecoding AttrsLayout SshAttributes SshFileSizes SshReplay SshListState

section Decoding

/-- What the decoder makes of the parts in front of the extended pairs. -/
def decodedFile (name : Bytes) (a : Attrs) : GftpFile where
  file := some (cstr name)
  user := if hasAttr a.flags sshFilexferAttrUidgid then some (decimalWord a.uid) else none
  group := if hasAttr a.flags sshFilexferAttrUidgid then some (decimalWord a.gid) else none
  size := if hasAttr a.flags sshFilexferAttrSize then (joinedWords a.size).toInt64.toInt else 0
  datetime := if hasAttr a.flags sshFilexferAttrAcmodtime then a.mtime.toNat else 0
  stMode := if hasAttr a.flags sshFilexferAttrPermissions then a.permissions.toNat else 0

/-- The entry that the attributes describe. -/
def entryFile (e : NamedEntry) : GftpFile where
  file := some e.name
  user := if hasAttr e.attrs.flags sshFilexferAttrUidgid then some (natDigits e.attrs.uid.toNat)
    else none
  group := if hasAttr e.attrs.flags sshFilexferAttrUidgid then some (natDigits e.attrs.gid.toNat)
    else none
  size := if hasAttr e.attrs.flags sshFilexferAttrSize then e.attrs.size.toNat else 0
  datetime := if hasAttr e.attrs.flags sshFilexferAttrAcmodtime then e.attrs.mtime.toNat else 0
  stMode := if hasAttr e.attrs.flags sshFilexferAttrPermissions then e.attrs.permissions.toNat
    else 0

/-- The entries that are decoded as they are, with the bytes behind them. -/
structure Exact (e : NamedEntry) (rest : Bytes) : Prop where
  name : 0 ∉ e.name
  size : hasAttr e.attrs.flags sshFilexferAttrSize = true → e.attrs.size.toNat < 2 ^ 32
  owner : hasAttr e.attrs.flags sshFilexferAttrUidgid = true →
    e.attrs.uid.toNat < 2 ^ 31 ∧ e.attrs.gid.toNat < 2 ^ 31
  pairs : Regular (e.attrs.encode ++ rest)

theorem decimalWord_eq_iff (n : UInt32) :
    decimalWord n = natDigits n.toNat ↔ n.toNat < 2 ^ 31 := by
  have hn := n.toNat_lt
  unfold decimalWord decimal
  split_ifs with hneg
  · have hlarge := (negative_iff n).mp hneg
    refine iff_of_false (fun h => ?_) (by omega)
    have hsign := natDigits_all n.toNat 45 (h ▸ List.mem_cons_self ..)
    exact absurd hsign (by decide)
  · have hsmall : n.toNat < 2 ^ 31 := by
      rw [negative_iff] at hneg
      omega
    have hvalue : n.toInt32.toInt.natAbs = n.toNat := by
      have htoInt : n.toInt32.toInt = n.toBitVec.toInt := rfl
      have htoNat : n.toBitVec.toNat = n.toNat := rfl
      rw [htoInt, BitVec.toInt_eq_toNat_cond, htoNat, if_pos (by omega), Int.natAbs_natCast]
    rw [hvalue]
    exact iff_of_true rfl hsmall

theorem cstr_eq_iff (t : Bytes) : cstr t = t ↔ 0 ∉ t := by
  refine ⟨fun h => ?_, cstr_eq_self⟩
  rw [← h]
  exact nul_not_mem_cstr t

theorem size_eq_iff (v : UInt64) :
    (joinedWords v).toInt64.toInt = (v.toNat : ℤ) ↔ v.toNat < 2 ^ 32 := by
  rw [joinedWords_toInt, Nat.cast_inj]
  exact ⟨fun h => h ▸ Nat.mod_lt _ (by decide), Nat.mod_eq_of_lt⟩

theorem decodedFile_eq_iff (e : NamedEntry) :
    decodedFile e.name e.attrs = entryFile e ↔
      0 ∉ e.name ∧
        (hasAttr e.attrs.flags sshFilexferAttrSize = true → e.attrs.size.toNat < 2 ^ 32) ∧
        (hasAttr e.attrs.flags sshFilexferAttrUidgid = true →
          e.attrs.uid.toNat < 2 ^ 31 ∧ e.attrs.gid.toNat < 2 ^ 31) := by
  have hsize : ((if hasAttr e.attrs.flags sshFilexferAttrSize then
      (joinedWords e.attrs.size).toInt64.toInt else 0) =
        if hasAttr e.attrs.flags sshFilexferAttrSize then (e.attrs.size.toNat : ℤ) else 0) ↔
      (hasAttr e.attrs.flags sshFilexferAttrSize = true → e.attrs.size.toNat < 2 ^ 32) := by
    split_ifs with h
    · rw [size_eq_iff, forall_prop_of_true h]
    · exact iff_of_true rfl fun hset => absurd hset h
  have howner (n : UInt32) : ((if hasAttr e.attrs.flags sshFilexferAttrUidgid then
      some (decimalWord n) else none) =
        if hasAttr e.attrs.flags sshFilexferAttrUidgid then some (natDigits n.toNat) else none) ↔
      (hasAttr e.attrs.flags sshFilexferAttrUidgid = true → n.toNat < 2 ^ 31) := by
    split_ifs with h
    · rw [Option.some.injEq, decimalWord_eq_iff, forall_prop_of_true h]
    · exact iff_of_true rfl fun hset => absurd hset h
  simp only [decodedFile, entryFile, GftpFile.mk.injEq, Option.some.injEq, cstr_eq_iff, hsize,
    howner, and_true]
  tauto

theorem run_takes {α β : Type} {take : SshRequest → SshMessage → CRun (Taken α)} {d rest : Bytes}
    {a : α} (htake : Takes take d a) {request : SshRequest} {message : SshMessage}
    (h : Unread message (d ++ rest)) (next : α → SshRequest → SshMessage → CRun (Taken β)) :
    (do (← take request message).andThen next) = next a request (advance message d.length) := by
  simp only [htake request message rest h, CRun.ok_bind, Taken.andThen]

theorem takes_times (a : Attrs) (d : Decoded) :
    Takes (decodeAcmodtime a.flags d)
      (if hasAttr a.flags sshFilexferAttrAcmodtime then be32 a.atime ++ be32 a.mtime else [])
      (if hasAttr a.flags sshFilexferAttrAcmodtime then
        ({ d.1 with datetime := a.mtime.toNat }, some a.mtime) else d) := by
  refine Takes.guarded _ fun _ => ?_
  intro request message rest h
  rw [List.append_assoc] at h
  simp only [takes_int32 a.atime request message _ h, CRun.ok_bind, Taken.andThen,
    takes_int32 a.mtime request _ rest h.advance, advance_advance, List.length_append]
  rfl

theorem decode_parts (a : Attrs) (name rest : Bytes) {request : SshRequest} {message : SshMessage}
    (h : Unread message (a.encode ++ rest)) :
    sshv2DecodeFileAttributes { GftpFile.cleared with file := some (cstr name) } request message =
      decodeExtended a.flags (decodedFile name a) request (advance message (extendedAt a.flags)) := by
  have hsize (d : Decoded) : Takes (decodeSize a.flags d)
      (if hasAttr a.flags sshFilexferAttrSize then be64 a.size else [])
      (if hasAttr a.flags sshFilexferAttrSize then
        ({ d.1 with size := (joinedWords a.size).toInt64.toInt }, d.2) else d) :=
    Takes.guarded _ fun _ => (takes_int64 a.size).andThen_nothing (Takes.nothing _)
  have howner (d : Decoded) : Takes (decodeUidgid a.flags d)
      (if hasAttr a.flags sshFilexferAttrUidgid then be32 a.uid ++ be32 a.gid else [])
      (if hasAttr a.flags sshFilexferAttrUidgid then
        ({ d.1 with user := some (decimalWord a.uid), group := some (decimalWord a.gid) },
          some a.gid) else d) :=
    Takes.guarded _ fun _ => (takes_int32 a.uid).andThen
      ((takes_int32 a.gid).andThen_nothing (Takes.nothing _))
  have hpermissions (d : Decoded) : Takes (decodePermissions a.flags d)
      (if hasAttr a.flags sshFilexferAttrPermissions then be32 a.permissions else [])
      (if hasAttr a.flags sshFilexferAttrPermissions then
        ({ d.1 with stMode := a.permissions.toNat }, some a.permissions) else d) :=
    Takes.guarded _ fun _ => (takes_int32 a.permissions).andThen_nothing (Takes.nothing _)
  simp only [Attrs.encode, List.append_assoc] at h
  unfold sshv2DecodeFileAttributes
  rw [run_takes (takes_int32 a.flags) h, run_takes (hsize _) h.advance,
    run_takes (howner _) h.advance.advance, run_takes (hpermissions _) h.advance.advance.advance,
    run_takes (takes_times a _) h.advance.advance.advance.advance]
  simp only [advance_advance]
  congr 2
  · unfold decodedFile GftpFile.cleared
    split_ifs <;> rfl
  · simp only [extendedAt, timesAt, apply_ite List.length, List.length_append, be32_length,
      be64_length, List.length_nil]

/-- Passing over the pairs leaves the entry as it is. -/
theorem extended_value {flags : UInt32} {fle out : GftpFile} {request : SshRequest}
    {message : SshMessage} {t : Taken GftpFile}
    (h : decodeExtended flags fle request message = .ok t) (hout : t.value = .ok out) :
    out = fle := by
  have hyields : Yields (decodeExtended flags fle) fun out => out = fle :=
    Yields.guarded (Yields.anything.andThen fun _ _ => Yields.anything.andThen fun _ _ =>
      Yields.nothing rfl) rfl
  exact hyields request message t out h hout

theorem encode_long (a : Attrs) (rest : Bytes) :
    extendedAt a.flags ≤ (a.encode ++ rest).length ∧
      read32 (a.encode ++ rest) = some a.flags := by
  constructor
  · simp only [Attrs.encode, extendedAt, timesAt, apply_ite List.length, List.length_append,
      be32_length, be64_length, List.length_nil, Nat.reduceAdd]
    omega
  · rw [Attrs.encode, List.append_assoc, read32_be32]

/-- The cursor comes to the end of the attributes only when they are regular. -/
theorem decode_attrs (e : NamedEntry) (rest : Bytes) {request : SshRequest}
    {message : SshMessage} (h : Unread message (e.attrs.encode ++ rest)) :
    (Regular (e.attrs.encode ++ rest) →
      sshv2DecodeFileAttributes { GftpFile.cleared with file := some (cstr e.name) } request
        message = .ok {
          value := .ok (decodedFile e.name e.attrs)
          message := advance message e.attrs.encode.length
          request := request }) ∧
    ∀ t, sshv2DecodeFileAttributes { GftpFile.cleared with file := some (cstr e.name) } request
        message = .ok t → ∀ out, t.value = .ok out →
      out = decodedFile e.name e.attrs ∧
        (t.message.pos = message.pos + e.attrs.encode.length →
          Regular (e.attrs.encode ++ rest)) := by
  have hvalue (t : Taken GftpFile) (ht : sshv2DecodeFileAttributes
      { GftpFile.cleared with file := some (cstr e.name) } request message = .ok t)
      (out : GftpFile) (hout : t.value = .ok out) : out = decodedFile e.name e.attrs := by
    rw [decode_parts e.attrs e.name rest h] at ht
    exact extended_value ht hout
  constructor
  · intro hregular
    obtain ⟨out, hrun⟩ := ((attributes_decoded_iff
      { GftpFile.cleared with file := some (cstr e.name) } request message _ h).mpr hregular).1
        e.attrs rest rfl
    rw [hrun, hvalue _ hrun out rfl]
  · intro t ht out hout
    refine ⟨hvalue t ht out hout, fun hpos => ?_⟩
    obtain ⟨hlong, hflags⟩ := encode_long e.attrs rest
    have hfollows := @follows_pairs { GftpFile.cleared with file := some (cstr e.name) } request
      message _ _ h hflags hlong
    rw [← decode_follows_iff { GftpFile.cleared with file := some (cstr e.name) } request h,
      attrsSize_encode]
    rw [ht] at hfollows ⊢
    generalize (if hasAttr e.attrs.flags sshFilexferAttrExtended = true then _ else _) = size
      at hfollows
    cases size with
    | none =>
      obtain ⟨t', e', ht', hrefused, -⟩ := hfollows
      obtain rfl := Except.ok.inj ht'
      rw [hout] at hrefused
      cases hrefused
    | some n =>
      obtain ⟨a, ha⟩ := hfollows
      obtain rfl := Except.ok.inj ha
      have hn : n = e.attrs.encode.length := Nat.add_left_cancel hpos
      exact ⟨a, by rw [hn]⟩

end Decoding

section Entries

variable {request : SshRequest} {e : NamedEntry} {rest : Bytes}

theorem takeEntry_named (s : Stream GftpError)
    (h : Unread request.params.message (e.encode ++ rest)) :
    Unread (advance request.params.message
        ((stringBytes e.name).length + (stringBytes e.longname).length)) (e.attrs.encode ++ rest) ∧
      takeEntry request s = (do
        let d ← sshv2DecodeFileAttributes { GftpFile.cleared with file := some (cstr e.name) }
          request (advance request.params.message
            ((stringBytes e.name).length + (stringBytes e.longname).length))
        match d.value with
        | .error err => return noEntry (.error err) (d.request.setMessage d.message) s
        | .ok fle =>
            return {
              ret := .ok (d.message.pos - request.params.message.pos)
              fle := fle
              request := (d.request.setMessage d.message).setCount (d.request.params.count - 1)
              stream := s }) := by
  simp only [NamedEntry.encode, List.append_assoc] at h
  have hname : sshv2BufferGetString request request.params.message =
      .ok { value := .ok e.name
            message := advance request.params.message (stringBytes e.name).length
            request := request } := takes_string e.nameFits request _ _ h
  have hlongname : sshv2BufferGetString request
        (advance request.params.message (stringBytes e.name).length) =
      .ok { value := .ok e.longname
            message := advance request.params.message
              ((stringBytes e.name).length + (stringBytes e.longname).length)
            request := request } := by
    rw [← advance_advance]
    exact takes_string e.longnameFits request _ _ h.advance
  rw [← advance_advance]
  refine ⟨h.advance.advance, ?_⟩
  simp only [takeEntry, hname, hlongname, CRun.ok_bind, advance_advance]
  rfl

theorem encode_lengths (e : NamedEntry) : e.encode.length =
    (stringBytes e.name).length + (stringBytes e.longname).length + e.attrs.encode.length := by
  simp only [NamedEntry.encode, List.length_append, Nat.add_assoc]

/-- The request behind an entry. -/
def behindEntry (request : SshRequest) (e : NamedEntry) : SshRequest :=
  (request.setMessage (advance request.params.message e.encode.length)).setCount
    (request.params.count - 1)

theorem takeEntry_exact (s : Stream GftpError)
    (h : Unread request.params.message (e.encode ++ rest)) (hexact : Exact e rest) :
    takeEntry request s = .ok
      { ret := .ok e.encode.length
        fle := entryFile e
        request := behindEntry request e
        stream := s } := by
  obtain ⟨hattrs, htake⟩ := takeEntry_named s h
  have hfile : decodedFile e.name e.attrs = entryFile e :=
    (decodedFile_eq_iff e).mpr ⟨hexact.name, hexact.size, hexact.owner⟩
  rw [htake, (decode_attrs e rest hattrs).1 hexact.pairs, CRun.ok_bind, hfile, advance_advance,
    ← encode_lengths]
  dsimp only [advance, behindEntry]
  rw [Nat.add_sub_cancel_left]
  rfl

theorem exact_of_takeEntry {s : Stream GftpError} {r : NextFile SshRequest}
    (h : Unread request.params.message (e.encode ++ rest)) (htake : takeEntry request s = .ok r)
    (hret : r.ret = .ok e.encode.length) (hfle : r.fle = entryFile e) : Exact e rest := by
  obtain ⟨hattrs, hnamed⟩ := takeEntry_named s h
  rw [hnamed] at htake
  obtain ⟨d, hd, htake⟩ := CRun.bind_eq_ok.mp htake
  cases hvalue : d.value with
  | error err =>
    simp only [hvalue] at htake
    obtain rfl := Except.ok.inj htake
    cases hret
  | ok fle =>
    simp only [hvalue] at htake
    obtain rfl := Except.ok.inj htake
    obtain ⟨hfile, hregular⟩ := (decode_attrs e rest hattrs).2 d hd fle hvalue
    obtain rfl : fle = entryFile e := hfle
    obtain ⟨hname, hsize, howner⟩ := (decodedFile_eq_iff e).mp hfile.symm
    refine ⟨hname, hsize, howner, hregular ?_⟩
    have hmoved : d.message.pos - request.params.message.pos = e.encode.length :=
      Except.ok.inj hret
    have hpos : 0 < e.encode.length := by
      rw [encode_lengths, stringBytes_length]
      omega
    rw [encode_lengths] at hmoved hpos
    simp only [advance]
    omega

end Entries

section Calls

variable {written : UInt32 → Except GftpError Unit} {request : SshRequest} {s : Stream GftpError}

/-- Successive calls, up to the first that returns no entry. -/
def nextFiles (written : UInt32 → Except GftpError Unit) :
    ℕ → SshRequest → Stream GftpError → CRun (List (ℕ × GftpFile) × Except GftpError Unit)
  | 0, _, _ => .error .pending
  | calls + 1, request, s => do
      let r ← sshv2GetNextFile written request s
      match r.ret with
      | .error e => return ([], .error e)
      | .ok 0 => return ([], .ok ())
      | .ok (len + 1) =>
          let (files, ret) ← nextFiles written calls r.request r.stream
          return ((len + 1, r.fle) :: files, ret)

/-- The calls can go on: a live listing has its handle, and its commands are sent. -/
structure Listing (written : UInt32 → Except GftpError Unit) (request : SshRequest) : Prop where
  handle : request.cached = false → HandleOpen request.params
  sent : request.cached = false → ∀ id, written id = .ok ()

/-- A call without entries left reads a NAME message and takes its first entry. -/
theorem call_reads (hlisting : Listing written request) (hcount : request.params.count = 0)
    (hs : Plain s) {id count : UInt32} {d more : Bytes} (hfits : d.length + 9 ≤ 34000)
    (hc : contents s = frame sshFxpName (be32 id ++ (be32 count ++ d)) ++ more) :
    ∃ request' s', sshv2GetNextFile written request s = takeEntry request' s' ∧
      contents s' = more ∧ Plain s' ∧ Unread request'.params.message d ∧
      request'.params.count = count ∧ Listing written request' := by
  obtain ⟨s', hread, hc', hs'⟩ := @readResponse_frame (asked request) s sshFxpName
    (be32 id ++ (be32 count ++ d)) more hs hc (by
      simp only [List.length_append, be32_length]
      omega) (log_response (by simp))
  let message := SshReplay.messageOf sshFxpName (be32 id ++ (be32 count ++ d))
  have hunread : Unread { message with pos := 4 } (be32 count ++ d) :=
    ⟨be32 id, by simp [message, SshReplay.messageOf], rfl,
      by simp [message, SshReplay.messageOf]⟩
  have hword := takes_int32 count (keepResponse (asked request) message) _ _ hunread
  dsimp only at hword
  refine ⟨((keepResponse (asked request) message).setMessage
    (advance { message with pos := 4 } 4)).setCount count, s', ?_, hc', hs', hunread.advance, rfl,
    ?_⟩
  · rw [getNextFile_asks s hcount hlisting.handle hlisting.sent]
    unfold nextResponse
    rw [hread, CRun.ok_bind]
    show useResponse ⟨.ok sshFxpName, message, keepResponse (asked request) message, s'⟩
      sshFxpName = _
    unfold useResponse
    rw [if_pos rfl]
    dsimp only
    rw [hword, CRun.ok_bind]
    rfl
  · have hkept : ((keepResponse (asked request) message).setMessage
        (advance { message with pos := 4 } 4)).setCount count = { asked request with
          lastDirEntry := (keepResponse (asked request) message).lastDirEntry
          params := { (asked request).params with
            count := count, message := advance { message with pos := 4 } 4 } } := by
      rw [keepResponse_eq]
      rfl
    rw [hkept]
    exact {
      handle := fun hlive => by
        have hmode : request.cached = false := (asked_cached request).symm.trans hlive
        exact (asked_open (hlisting.handle hmode) hmode).of_eq rfl rfl
      sent := fun hlive => hlisting.sent ((asked_cached request).symm.trans hlive) }

theorem call_ends (hlisting : Listing written request) (hcount : request.params.count = 0)
    (hs : Plain s) {status : StatusResponse} {more : Bytes}
    (hc : contents s = frame sshFxpStatus status.body ++ more) :
    ∃ r, sshv2GetNextFile written request s = .ok r ∧ r.ret = .ok 0 := by
  obtain ⟨s', hread, -, -⟩ := read_status (asked request) status hs hc
  rw [getNextFile_asks s hcount hlisting.handle hlisting.sent]
  unfold nextResponse
  rw [hread, CRun.ok_bind]
  exact ⟨_, rfl, rfl⟩

theorem call_left (written : UInt32 → Except GftpError Unit) (s : Stream GftpError)
    (hcount : 0 < request.params.count) :
    sshv2GetNextFile written request s = takeEntry { request with lastDirEntry := none } s := by
  unfold sshv2GetNextFile
  rw [if_pos hcount]

theorem takeEntry_none (s : Stream GftpError) (h : Unread request.params.message []) :
    ∃ r, takeEntry request s = .ok r ∧ r.ret = .error .fatal := by
  obtain ⟨pre, -, hpos, hend⟩ := h
  have hshort : request.params.message.endPos < request.params.message.pos + 4 := by
    rw [hpos, hend]
    simp
  simp only [takeEntry, sshv2BufferGetString, sshv2BufferGetInt32, if_pos hshort, CRun.ok_bind,
    Taken.andThen, sshv2WrongResponse]
  exact ⟨_, rfl, rfl⟩

/-- A call that is to return an entry, and the calls behind it. -/
theorem nextFiles_entry {request' : SshRequest} {s' : Stream GftpError} {e : NamedEntry}
    {rest : Bytes} (hcall : sshv2GetNextFile written request s = takeEntry request' s')
    (h : Unread request'.params.message (e.encode ++ rest)) (files : List (ℕ × GftpFile))
    (ret : Except GftpError Unit) :
    (∃ calls, nextFiles written calls request s =
        .ok ((e.encode.length, entryFile e) :: files, ret)) ↔
      Exact e rest ∧
        ∃ calls, nextFiles written calls (behindEntry request' e) s' = .ok (files, ret) := by
  obtain ⟨len, hlen⟩ : ∃ len, e.encode.length = len + 1 := by
    refine Nat.exists_eq_succ_of_ne_zero ?_
    rw [encode_lengths, stringBytes_length]
    omega
  constructor
  · rintro ⟨_ | calls, hrun⟩
    · cases hrun
    · obtain ⟨r, hr, hrun⟩ := CRun.bind_eq_ok.mp hrun
      rw [hcall] at hr
      have hentry : r.ret = .ok e.encode.length ∧ r.fle = entryFile e := by
        rcases hret : r.ret with err | _ | n
        · simp only [hret] at hrun
          cases hrun
        · simp only [hret] at hrun
          cases hrun
        · simp only [hret] at hrun
          obtain ⟨⟨more, last⟩, -, hrun⟩ := CRun.bind_eq_ok.mp hrun
          have hfirst := congrArg Prod.fst (Except.ok.inj hrun)
          rw [List.cons.injEq, Prod.mk.injEq] at hfirst
          exact ⟨congrArg Except.ok hfirst.1.1, hfirst.1.2⟩
      have hexact := exact_of_takeEntry h hr hentry.1 hentry.2
      refine ⟨hexact, calls, ?_⟩
      rw [takeEntry_exact s' h hexact] at hr
      obtain rfl := Except.ok.inj hr
      simp only [hlen] at hrun
      obtain ⟨⟨more, last⟩, hmore, hrun⟩ := CRun.bind_eq_ok.mp hrun
      obtain ⟨hfiles, hlast⟩ := Prod.mk.inj (Except.ok.inj hrun)
      have hmoreFiles : more = files := (List.cons.inj hfiles).2
      have hlastRet : last = ret := hlast
      rw [hmore, hmoreFiles, hlastRet]
  · rintro ⟨hexact, calls, hrun⟩
    refine ⟨calls + 1, ?_⟩
    unfold nextFiles
    rw [hcall, takeEntry_exact s' h hexact, CRun.ok_bind]
    simp only [hlen, hrun, CRun.ok_bind]
    rfl

/-- A call that is an error is the last one. -/
theorem nextFiles_error {r : NextFile SshRequest} {err : GftpError}
    (hcall : sshv2GetNextFile written request s = .ok r) (hret : r.ret = .error err)
    (files : List (ℕ × GftpFile)) :
    ¬ ∃ calls, nextFiles written calls request s = .ok (files, .ok ()) := by
  rintro ⟨_ | calls, hrun⟩
  · cases hrun
  · unfold nextFiles at hrun
    rw [hcall, CRun.ok_bind] at hrun
    simp only [hret] at hrun
    cases hrun

end Calls

section Messages

/-- A NAME message that announces the entries it has. -/
structure NameMessage where
  id : UInt32
  entries : List NamedEntry
  fits : (entryBytes entries).length + 9 ≤ 34000

def NameMessage.body (m : NameMessage) : Bytes :=
  be32 m.id ++ (be32 (UInt32.ofNat m.entries.length) ++ entryBytes m.entries)

/-- The messages of a listing and the status behind them. -/
def listingBytes (messages : List NameMessage) (status : StatusResponse) : Bytes :=
  messages.flatMap (fun m => frame sshFxpName m.body) ++ frame sshFxpStatus status.body

/-- What the calls are to return for the entries of a message. -/
def entryFiles (entries : List NamedEntry) : List (ℕ × GftpFile) :=
  entries.map fun e => (e.encode.length, entryFile e)

/-- Entries that are all decoded as they are. -/
def AllExact : List NamedEntry → Prop
  | [] => True
  | e :: es => Exact e (entryBytes es) ∧ AllExact es

/-- The request when the entries are left in its message. -/
structure Pending (written : UInt32 → Except GftpError Unit) (request : SshRequest)
    (entries : List NamedEntry) : Prop where
  listing : Listing written request
  count : request.params.count = UInt32.ofNat entries.length
  fits : (entryBytes entries).length ≤ 34000
  message : entries ≠ [] → Unread request.params.message (entryBytes entries)

variable {written : UInt32 → Except GftpError Unit} {request : SshRequest} {s : Stream GftpError}

theorem length_le_entryBytes (es : List NamedEntry) : es.length ≤ (entryBytes es).length := by
  induction es with
  | nil => exact Nat.le_refl 0
  | cons e es ih =>
    rw [entryBytes, List.flatMap_cons, List.length_append, encode_lengths, stringBytes_length,
      List.length_cons]
    unfold entryBytes at ih
    omega

theorem entryBytes_cons (e : NamedEntry) (es : List NamedEntry) :
    entryBytes (e :: es) = e.encode ++ entryBytes es := List.flatMap_cons ..

theorem Pending.count_pos {e : NamedEntry} {es : List NamedEntry}
    (h : Pending written request (e :: es)) : 0 < request.params.count := by
  have hle := (length_le_entryBytes (e :: es)).trans h.fits
  rw [UInt32.lt_iff_toNat_lt, h.count, UInt32.toNat_ofNat', Nat.mod_eq_of_lt (by omega),
    List.length_cons]
  exact Nat.succ_pos _

theorem Pending.behind {e : NamedEntry} {es : List NamedEntry}
    (h : Pending written request (e :: es)) : Pending written (behindEntry request e) es := by
  have hmessage := h.message (List.cons_ne_nil e es)
  have hfits := h.fits
  rw [entryBytes_cons] at hmessage hfits
  rw [List.length_append] at hfits
  refine ⟨⟨fun hlive => (h.listing.handle hlive).of_eq rfl rfl, h.listing.sent⟩, ?_, by omega,
    fun _ => hmessage.advance⟩
  have hcount := h.count
  simp only [behindEntry, SshRequest.setCount, SshRequest.setMessage, hcount, List.length_cons,
    UInt32.ofNat_add]
  exact UInt32.add_sub_cancel ..

theorem Pending.cleared {entries : List NamedEntry} (h : Pending written request entries) :
    Pending written { request with lastDirEntry := none } entries :=
  ⟨⟨h.listing.handle, h.listing.sent⟩, h.count, h.fits, h.message⟩

/-- The entries left in the message are returned before the calls behind them. -/
theorem nextFiles_left {P : Prop} {entries : List NamedEntry} {files : List (ℕ × GftpFile)}
    {ret : Except GftpError Unit} (h : Pending written request entries)
    (hend : ∀ request', Pending written request' [] →
      ((∃ calls, nextFiles written calls request' s = .ok (files, ret)) ↔ P)) :
    (∃ calls, nextFiles written calls request s = .ok (entryFiles entries ++ files, ret)) ↔
      AllExact entries ∧ P := by
  induction entries generalizing request with
  | nil =>
    rw [AllExact, true_and]
    exact hend request h
  | cons e es ih =>
    have hmessage := h.cleared.message (List.cons_ne_nil e es)
    rw [entryBytes_cons] at hmessage
    rw [AllExact, and_assoc, ← ih h.cleared.behind]
    exact nextFiles_entry (call_left written s h.count_pos) hmessage _ ret

/-- The entries left in the message, and the messages behind it. -/
theorem nextFiles_iff (messages : List NameMessage) (status : StatusResponse) (more : Bytes)
    (hs : Plain s) (hc : contents s = listingBytes messages status ++ more)
    {entries : List NamedEntry} (h : Pending written request entries) :
    (∃ calls, nextFiles written calls request s =
        .ok (entryFiles entries ++ messages.flatMap (fun m => entryFiles m.entries), .ok ())) ↔
      AllExact entries ∧ ∀ m ∈ messages, m.entries ≠ [] ∧ AllExact m.entries := by
  induction messages generalizing request s entries with
  | nil =>
    refine nextFiles_left h fun request' h' => iff_of_true ⟨1, ?_⟩ (by simp)
    obtain ⟨r, hcall, hret⟩ := call_ends h'.listing h'.count hs hc
    unfold nextFiles
    rw [hcall, CRun.ok_bind]
    simp only [hret]
    rfl
  | cons m messages ih =>
    refine nextFiles_left h fun request' h' => ?_
    have hnext : contents s = frame sshFxpName m.body ++ (listingBytes messages status ++ more) := by
      rw [hc]
      simp [listingBytes]
    obtain ⟨request₁, s₁, hcall, hc₁, hs₁, hunread, hcount, hlisting⟩ :=
      call_reads h'.listing h'.count hs m.fits hnext
    have hpending : Pending written request₁ m.entries :=
      ⟨hlisting, hcount, by have := m.fits; omega, fun _ => hunread⟩
    rw [List.flatMap_cons, List.forall_mem_cons]
    rcases hentries : m.entries with _ | ⟨e, es⟩
    · rw [hentries] at hunread
      obtain ⟨r, hr, hret⟩ := takeEntry_none s₁ hunread
      exact iff_of_false (nextFiles_error (hcall.trans hr) hret _) fun h => h.1.1 rfl
    · rw [hentries] at hpending hunread
      rw [entryBytes_cons] at hunread
      have hbehind := ih hs₁ hc₁ hpending.behind
      rw [and_iff_right (List.cons_ne_nil e es), AllExact, and_assoc, ← hbehind]
      exact nextFiles_entry hcall hunread _ _

end Messages

section Counting

/-- The room of a structure of attributes as the decoder lays it out: four more bytes follow
each string of a pair. -/
def paddedSize (d : Bytes) : Option ℕ :=
  (read32 d).bind fun flags =>
    if d.length < extendedAt flags then none
    else if hasAttr flags sshFilexferAttrExtended then
      (read32 (d.drop (extendedAt flags))).bind fun count =>
        (stringsSize 4 (2 * count.toNat) (d.drop (extendedAt flags + 4))).map
          (extendedAt flags + 4 + ·)
    else some (extendedAt flags)

/-- The bytes begin with what can be read as an entry. -/
def LooksEntry (d : Bytes) : Prop :=
  ∃ name longname rest : Bytes, name.length ≤ sshMaxStringSize ∧
    longname.length ≤ sshMaxStringSize ∧
      d = stringBytes name ++ (stringBytes longname ++ rest) ∧ (paddedSize rest).isSome = true

/-- The function ends with a value. -/
def Succeeds {α : Type} (res : CRun (Taken α)) : Prop := ∃ t a, res = .ok t ∧ t.value = .ok a

theorem not_succeeds_of_refused {α : Type} {res : CRun (Taken α)} (h : Refused res) :
    ¬ Succeeds res := by
  rintro ⟨t, a, rfl, hvalue⟩
  obtain ⟨t', e, ht', herror, -⟩ := h
  obtain rfl := Except.ok.inj ht'
  rw [hvalue] at herror
  cases herror

theorem succeeds_iff_of_follows {α : Type} {res : CRun (Taken α)} {request : SshRequest}
    {message : SshMessage} {size : Option ℕ} (h : Follows res request message size) :
    Succeeds res ↔ size.isSome = true := by
  cases size with
  | none => exact iff_of_false (not_succeeds_of_refused h) (by simp)
  | some n =>
    obtain ⟨a, rfl⟩ := h
    exact iff_of_true ⟨_, a, rfl, rfl⟩ rfl

theorem short_attrs {fle : GftpFile} {request : SshRequest} {message : SshMessage} {d : Bytes}
    (h : Unread message d) {flags : UInt32} (hflags : read32 d = some flags)
    (hshort : d.length < extendedAt flags) :
    ¬ Succeeds (sshv2DecodeFileAttributes fle request message) := by
  obtain ⟨hfront, htimes⟩ := @decode_front fle request _ _ _ h hflags
  by_cases hlen : d.length < timesAt flags
  · exact not_succeeds_of_refused (hfront hlen)
  have hflag : hasAttr flags sshFilexferAttrAcmodtime = true := by
    by_contra hnot
    rw [extendedAt, if_neg hnot] at hshort
    omega
  rw [extendedAt, if_pos hflag] at hshort
  obtain ⟨x, hrest, hrun⟩ := htimes (Nat.not_lt.mp hlen)
  obtain ⟨-, hgood, hbad⟩ :=
    @decodeAcmodtime_cases _ x (lastNumber flags d) request _ _ hrest hflag
  have hleft : (d.drop (timesAt flags)).length < 8 := by
    rw [List.length_drop]
    omega
  rw [hrun]
  by_cases hcase : 4 ≤ (d.drop (timesAt flags)).length ∨
      ∃ n, lastNumber flags d = some n ∧ 2 ^ 31 ≤ n.toNat
  · exact not_succeeds_of_refused ((hgood hleft hcase).andThen _)
  · rw [not_or, not_exists] at hcase
    rw [hbad (Nat.not_le.mp hcase.1) fun n hn => Nat.not_le.mp fun hle => hcase.2 n ⟨hn, hle⟩]
    rintro ⟨t, a, ht, -⟩
    cases ht

theorem attrs_succeeds_iff {fle : GftpFile} {request : SshRequest} {message : SshMessage}
    {d : Bytes} (h : Unread message d) :
    Succeeds (sshv2DecodeFileAttributes fle request message) ↔ (paddedSize d).isSome = true := by
  unfold paddedSize
  rcases hflags : read32 d with _ | flags
  · have hrefused : Refused (sshv2DecodeFileAttributes fle request message) :=
      (spans_int32 d).refuse h ((read32_none_iff d).mp hflags) _
    exact iff_of_false (not_succeeds_of_refused hrefused) (by simp)
  · rw [Option.bind_some]
    split_ifs with hshort
    · exact iff_of_false (short_attrs h hflags hshort) (by simp)
    · have hfollows := @follows_pairs fle request _ _ _ h hflags (Nat.not_lt.mp hshort)
      rw [if_pos ‹_›] at hfollows
      exact succeeds_iff_of_follows hfollows
    · have hfollows := @follows_pairs fle request _ _ _ h hflags (Nat.not_lt.mp hshort)
      rw [if_neg ‹_›] at hfollows
      exact succeeds_iff_of_follows hfollows

theorem string_taken {request : SshRequest} {message : SshMessage} {d : Bytes}
    (h : Unread message d) {t : Taken Bytes} (ht : sshv2BufferGetString request message = .ok t) :
    (∃ name rest, t.value = .ok name ∧ name.length ≤ sshMaxStringSize ∧
        d = stringBytes name ++ rest ∧ t.message = advance message (stringBytes name).length ∧
          t.request = request) ∨
      (∃ e, t.value = .error e) ∧ t.message = SshMessage.freed := by
  unfold sshv2BufferGetString at ht
  by_cases hfour : 4 ≤ d.length
  · obtain ⟨len, hlen, hint⟩ := (spans_int32 d request message h).1 hfour
    simp only [hint, CRun.ok_bind, Taken.andThen] at ht
    split_ifs at ht with hlong
    · obtain rfl := Except.ok.inj ht
      exact Or.inr ⟨⟨_, rfl⟩, rfl⟩
    · obtain rfl := Except.ok.inj ht
      obtain ⟨pre, hblock, hpos, hend⟩ := h
      rw [not_or, Nat.not_lt, Nat.not_lt] at hlong
      simp only [advance, hpos, hend] at hlong
      have hroom : len.toNat ≤ (d.drop 4).length := by
        rw [List.length_drop]
        omega
      have hblockAt : ((message.buffer.getD []).drop (advance message 4).pos).take len.toNat =
          (d.drop 4).take len.toNat := by
        rw [hblock, Option.getD_some, advance, hpos]
        dsimp only
        rw [← List.drop_drop, List.drop_left, List.drop_append_of_le_length hfour,
          List.take_append_of_le_length hroom]
      have htaken : ((d.drop 4).take len.toNat).length = len.toNat := List.length_take_of_le hroom
      refine Or.inl ⟨(d.drop 4).take len.toNat, (d.drop 4).drop len.toNat, ?_, ?_, ?_, ?_, rfl⟩
      · exact congrArg Except.ok hblockAt
      · rw [htaken]
        exact hlong.1
      · rw [stringBytes, htaken, UInt32.ofNat_toNat, List.append_assoc, List.take_append_drop]
        exact be32_of_read32 hlen
      · rw [stringBytes_length, htaken]
        simp [advance, Nat.add_assoc]
  · obtain ⟨pre, -, hpos, hend⟩ := h
    have hshort : message.endPos < message.pos + 4 := by
      rw [hpos, hend]
      omega
    simp only [sshv2BufferGetInt32, if_pos hshort, CRun.ok_bind, Taken.andThen] at ht
    obtain rfl := Except.ok.inj ht
    exact Or.inr ⟨⟨_, rfl⟩, rfl⟩

theorem freed_attrs {fle : GftpFile} {request : SshRequest} :
    ¬ Succeeds (sshv2DecodeFileAttributes fle request SshMessage.freed) := by
  rintro ⟨t, a, ht, hvalue⟩
  obtain rfl := Except.ok.inj ht
  cases hvalue

theorem decodes_iff {request : SshRequest} {message : SshMessage} {d : Bytes}
    (h : Unread message d) : Decodes request message ↔ LooksEntry d := by
  constructor
  · rintro ⟨file, name, longname, t, fle, hfile, hname, hlongname, ht, hfle⟩
    rcases string_taken h hfile with ⟨name', rest, -, hfits, rfl, hmoved, -⟩ | ⟨⟨e, herror⟩, -⟩
    · have hrest : Unread file.message rest := hmoved ▸ h.advance
      rcases string_taken hrest hlongname with
        ⟨longname', rest', -, hfits', rfl, hmoved', -⟩ | ⟨-, hfreed⟩
      · have hattrs : Unread longname.message rest' := hmoved' ▸ hrest.advance
        exact ⟨name', longname', rest', hfits, hfits', rfl,
          (attrs_succeeds_iff hattrs).mp ⟨t, fle, ht, hfle⟩⟩
      · rw [hfreed] at ht
        exact absurd ⟨t, fle, ht, hfle⟩ freed_attrs
    · rw [hname] at herror
      cases herror
  · rintro ⟨name, longname, rest, hfits, hfits', rfl, hsize⟩
    have hname := takes_string hfits request message _ h
    have hlongname := takes_string hfits' request _ _ h.advance
    obtain ⟨t, fle, ht, hfle⟩ := (@attrs_succeeds_iff
      { GftpFile.cleared with file := some (cstr name) } request _ _ h.advance.advance).mpr hsize
    exact ⟨_, name, _, t, fle, hname, rfl, hlongname, ht, hfle⟩

theorem pred_le {count : UInt32} (h : 0 < count) : count - 1 ≤ count := by
  rw [UInt32.lt_iff_toNat_lt] at h
  have hone : (1 : UInt32) ≤ count := UInt32.le_iff_toNat_le.mpr h
  rw [UInt32.le_iff_toNat_le, UInt32.toNat_sub_of_le _ _ hone]
  exact Nat.sub_le ..

/-- With an entry announced the counter does not wrap. -/
theorem takeEntry_left {request : SshRequest} {s : Stream GftpError} {r : NextFile SshRequest}
    (hleft : 0 < request.params.count) (h : takeEntry request s = .ok r) :
    r.request.params.count ≤ request.params.count := by
  rcases takeEntry_cases h with ⟨-, -, hcount⟩ | ⟨-, -, hcount⟩
  · rw [hcount]
    exact pred_le hleft
  · rw [hcount]
    exact UInt32.le_refl _

/-- The counter is wrapped exactly by an entry that was not announced. -/
theorem takeEntry_count_iff {request : SshRequest} {d : Bytes} (s : Stream GftpError)
    (h : Unread request.params.message d) :
    (∀ r, takeEntry request s = .ok r → r.request.params.count ≤ request.params.count) ↔
      ¬ (request.params.count = 0 ∧ LooksEntry d) := by
  rw [← @decodes_iff request _ _ h]
  constructor
  · rintro hkept ⟨hzero, hdecodes⟩
    obtain ⟨r, hr⟩ : ∃ r, takeEntry request s = .ok r := by
      obtain ⟨file, name, longname, t, fle, hfile, hname, hlongname, ht, hfle⟩ := hdecodes
      simp only [takeEntry, hfile, hname, hlongname, ht, hfle, CRun.ok_bind]
      exact ⟨_, rfl⟩
    have hle := hkept r hr
    rcases takeEntry_cases hr with ⟨-, -, hcount⟩ | ⟨hrefused, -⟩
    · rw [hcount, hzero] at hle
      exact absurd hle (by decide)
    · exact hrefused hdecodes
  · intro hnot r hr
    by_cases hleft : 0 < request.params.count
    · exact takeEntry_left hleft hr
    · have hzero : request.params.count = 0 := by
        rwa [UInt32.pos_iff_ne_zero, not_not] at hleft
      rcases takeEntry_cases hr with ⟨hdecodes, -⟩ | ⟨-, -, hcount⟩
      · exact absurd ⟨hzero, hdecodes⟩ hnot
      · rw [hcount]
        exact UInt32.le_refl _

end Counting

/-- The first message of a listing that holds d behind its count. -/
def announcing (id count : UInt32) (d : Bytes) : Bytes :=
  frame sshFxpName (be32 id ++ (be32 count ++ d))

theorem names_returned_iff (written : UInt32 → Except GftpError Unit) :
    (∀ (request : SshRequest) (s : Stream GftpError) (messages : List NameMessage)
      (status : StatusResponse) (more : Bytes), Listing written request →
      request.params.count = 0 → Plain s → contents s = listingBytes messages status ++ more →
      ((∃ calls, nextFiles written calls request s =
          .ok (messages.flatMap fun m => entryFiles m.entries, .ok ())) ↔
        ∀ m ∈ messages, m.entries ≠ [] ∧ AllExact m.entries)) ∧
    (∀ (request : SshRequest) (s : Stream GftpError) (id count : UInt32) (d more : Bytes),
      Listing written request → request.params.count = 0 → Plain s → d.length + 9 ≤ 34000 →
      contents s = announcing id count d ++ more →
      ((∀ r, sshv2GetNextFile written request s = .ok r → r.request.params.count ≤ count) ↔
        ¬ (count = 0 ∧ LooksEntry d))) ∧
    ∀ (request : SshRequest) (s : Stream GftpError) (r : NextFile SshRequest),
      0 < request.params.count → sshv2GetNextFile written request s = .ok r →
      r.request.params.count ≤ request.params.count := by
  refine ⟨?_, ?_, ?_⟩
  · intro request s messages status more hlisting hcount hs hc
    have hpending : Pending written request [] :=
      ⟨hlisting, hcount, Nat.zero_le _, fun hne => absurd rfl hne⟩
    have hruns := nextFiles_iff messages status more hs hc hpending
    rwa [AllExact, true_and] at hruns
  · intro request s id count d more hlisting hcount hs hfits hc
    obtain ⟨request', s', hcall, -, -, hunread, hcount', -⟩ :=
      call_reads hlisting hcount hs hfits hc
    have htake := takeEntry_count_iff s' hunread
    rw [hcount', ← hcall] at htake
    exact htake
  · intro request s r hleft hcall
    rw [call_left written s hleft] at hcall
    exact @takeEntry_left { request with lastDirEntry := none } s r hleft hcall

theorem no_texts_fit : ([] : Bytes).length + 9 ≤ 34000 := by decide

/-- The end of a listing. -/
def lastStatus : StatusResponse where
  id := 0
  code := 1
  texts := []
  fits := no_texts_fit

theorem two_entries_fit : (entryBytes [plainEntry, plainEntry]).length + 9 ≤ 34000 := by decide

theorem no_entries_fit : (entryBytes []).length + 9 ≤ 34000 := by decide

theorem cached_listing (written : UInt32 → Except GftpError Unit) :
    Listing written listed.request :=
  ⟨fun h => absurd h (by decide), fun h => absurd h (by decide)⟩

/-- A message of two entries and the status behind it. -/
theorem two_entries_returned :
    ∃ calls, nextFiles (fun _ => .ok ()) calls listed.request
      [.ok (listingBytes [⟨0, [plainEntry, plainEntry], two_entries_fit⟩] lastStatus)] =
        .ok (entryFiles [plainEntry, plainEntry], .ok ()) := by
  have hflags (rest : Bytes) : read32 (plainEntry.attrs.encode ++ rest) = some 0 :=
    (encode_long plainEntry.attrs rest).2
  have hexact (rest : Bytes) : Exact plainEntry rest := by
    refine ⟨by decide, fun h => absurd h (by decide), fun h => absurd h (by decide), ?_, ?_⟩
    · intro flags hread htimes
      obtain rfl : 0 = flags := Option.some.inj ((hflags rest).symm.trans hread)
      exact absurd htimes (by decide)
    · intro flags count hread hpairs
      obtain rfl : 0 = flags := Option.some.inj ((hflags rest).symm.trans hread)
      exact absurd hpairs (by decide)
  refine ((names_returned_iff fun _ => .ok ()).1 listed.request _
    [⟨0, [plainEntry, plainEntry], two_entries_fit⟩] lastStatus [] (cached_listing _) rfl
    ?_ rfl).mpr ?_
  · exact plain_cons.mpr ⟨by decide, plain_nil⟩
  · simp [AllExact, hexact]

/-- A message without entries ends the listing with an error, and the bytes behind a count of
zero wrap it around. -/
theorem empty_message_fails :
    (¬ ∃ calls, nextFiles (fun _ => .ok ()) calls listed.request
      [.ok (listingBytes [⟨0, [], no_entries_fit⟩] lastStatus)] = .ok ([], .ok ())) ∧
    ∃ r, sshv2GetNextFile (fun _ => .ok ()) listed.request
      [.ok (announcing 0 0 plainEntry.encode)] = .ok r ∧ r.request.params.count = 0xffffffff := by
  constructor
  · obtain ⟨r, hcall, hret⟩ : ∃ r, sshv2GetNextFile (fun _ => .ok ()) listed.request
        [.ok (listingBytes [⟨0, [], no_entries_fit⟩] lastStatus)] = .ok r ∧
          r.ret = .error .fatal := ⟨_, rfl, rfl⟩
    exact nextFiles_error hcall hret []
  · exact ⟨_, rfl, rfl⟩

end Gftp.SshNameRuns
