import Gftp.Runs
import Gftp.SshReaders

/-!
The state of a listing over SFTP from one call to the next. count, the message in place
and its cursor are reset in different places: a disconnect frees the message alone, a
listing from the cache is begun and ended without either, and a listing that the server
refuses leaves both. The runs are stated in which a positive count always belongs to a
message of the listing in progress with the next entry at its cursor.
-/

namespace Gftp.SshListState

open ByteStrings ByteStreams BigEndian Protocol DirListing SshMessages SshListing SshDecoding
  AttrsLayout SshAttributes SshReaders Runs

/-- The OPENDIR command for a directory in the character set of the server. -/
def openDirectory (id : UInt32) (directory : Bytes) : Bytes := be32 id ++ stringBytes directory

def sshv2ListFiles (directory : Bytes) (written : Except GftpError Unit) (request : SshRequest)
    (s : Stream GftpError) : CRun (Except GftpError Unit × SshRequest) := do
  if request.connected = false then return (.error .fatal, request)
  let command := openDirectory request.params.id directory
  let params := { request.params with id := request.params.id + 1 }
  let sent ← sshv2SendCommand { request with params := params } sshFxpOpendir command written
  match sent.ret with
  | .error e => return (.error e, sent.request)
  | .ok () =>
      let (handle, _) ← receiveHandle .fatal sent.request s
      let (ret, request) ← handle.value
      match ret with
      | .error e => return (.error e, request)
      | .ok () => return (.ok (), request.setCount 0)

/-- found: the cache is in use and holds the listing of the directory. -/
def gftpListFiles (found : Bool) (directory : Bytes) (written : Except GftpError Unit)
    (request : SshRequest) (s : Stream GftpError) : CRun (Except GftpError Unit × SshRequest) :=
  if found then .ok (.ok (), { request with cached := true })
  else sshv2ListFiles directory written { request with cached := false } s

/-- The message in place is dropped together with count. -/
def dropMessage (request : SshRequest) : SshRequest :=
  if request.params.message.buffer.isSome then
    (request.setMessage SshMessage.freed).setCount 0
  else request

/-- The CLOSE command, when a handle is open. -/
def closeHandle (written : UInt32 → Except GftpError Unit) (request : SshRequest)
    (s : Stream GftpError) : CRun (Except GftpError Unit × SshRequest) :=
  if request.params.handleLen = 0 then .ok (.ok (), request)
  else do
    let id := request.params.id
    let handle ← overwrite request.params.handle 0 (be32 id)
    let params := { request.params with id := id + 1, handle := handle }
    if params.handleLen ≤ handle.length then
      let sent ← sshv2SendCommand { request with params := params } sshFxpClose
        (handle.take params.handleLen) (written id)
      match sent.ret with
      | .error e => return (.error e, sent.request)
      | .ok () =>
          let (status, _) ← sshv2ReadStatusResponse 0 sshFxpStatus sent.request s
          match status.value.value with
          | .error e => return (.error e, status.value.request)
          | .ok _ =>
              let request := status.value.request
              return (.ok (), { request with params := { request.params with handleLen := 0 } })
    else .error .fault

def sshv2EndTransfer (written : UInt32 → Except GftpError Unit) (request : SshRequest)
    (s : Stream GftpError) : CRun (Except GftpError Unit × SshRequest) := do
  let (ret, request) ← closeHandle written (dropMessage request) s
  match ret with
  | .error e => return (.error e, request)
  | .ok () => return (.ok (), { request with
      params := { request.params with transferBuffer := none } })

def gftpEndTransfer (written : UInt32 → Except GftpError Unit) (request : SshRequest)
    (s : Stream GftpError) : CRun (Except GftpError Unit × SshRequest) :=
  if request.cached then .ok (.ok (), { request with lastDirEntry := none })
  else do
    let (ret, request) ← sshv2EndTransfer written request s
    return (ret, { request with lastDirEntry := none })

/-- started: ssh was started. loggedIn is the number of the next command behind a login. A
login that fails disconnects the request. -/
def gftpConnect (started : Bool) (loggedIn : Option UInt32) (request : SshRequest) : SshRequest :=
  if request.connected ∨ ¬ started then request
  else
    match loggedIn with
    | none => gftpDisconnect request
    | some id => { request with connected := true, params := { request.params with id := id } }

/-- A call, with what the descriptors answer to it. -/
inductive Event
  | connect (started : Bool) (loggedIn : Option UInt32)
  | disconnect
  | listFiles (found : Bool) (directory : Bytes) (written : Except GftpError Unit)
      (s : Stream GftpError)
  | getNextFile (written : UInt32 → Except GftpError Unit) (s : Stream GftpError)
  | endTransfer (written : UInt32 → Except GftpError Unit) (s : Stream GftpError)

/-- A request with the history of its listings. listing is the number of the one in progress
and started counts them. origin is the listing that read the message in place, of which
taken entries were returned. returned holds, for each entry, the listing that returned it
and the one that read it. -/
structure Client where
  request : SshRequest
  listing : Option ℕ
  started : ℕ
  origin : ℕ
  taken : ℕ
  returned : List (ℕ × ℕ)

/-- The listing before is over, whether the new one is begun or not. -/
def Client.begins (c : Client) (ret : Except GftpError Unit) (request : SshRequest) : Client :=
  { c with
    request := request
    listing := if ret.isOk then some (c.started + 1) else none
    started := c.started + 1 }

/-- A call that had no entry left has read a message of its own. -/
def Client.takes (c : Client) (listing : ℕ) (r : NextFile SshRequest) : Client :=
  let left := 0 < c.request.params.count
  let origin := if left then c.origin else listing
  let taken := if left then c.taken else 0
  match r.ret with
  | .ok (_ + 1) =>
      { c with request := r.request, origin := origin, taken := taken + 1,
               returned := (listing, origin) :: c.returned }
  | _ => { c with request := r.request, origin := origin, taken := taken }

inductive Step : Client → Event → Client → Prop
  | connect (c : Client) (started : Bool) (loggedIn : Option UInt32) :
      Step c (.connect started loggedIn)
        { c with request := gftpConnect started loggedIn c.request }
  | disconnect (c : Client) : Step c .disconnect { c with request := gftpDisconnect c.request }
  | listFiles {c : Client} {found : Bool} {directory : Bytes} {written : Except GftpError Unit}
      {s : Stream GftpError} {ret : Except GftpError Unit} {request : SshRequest}
      (h : gftpListFiles found directory written c.request s = .ok (ret, request)) :
      Step c (.listFiles found directory written s) (c.begins ret request)
  | getNextFile {c : Client} {written : UInt32 → Except GftpError Unit} {s : Stream GftpError}
      {listing : ℕ} {r : NextFile SshRequest} (hlisting : c.listing = some listing)
      (h : sshv2GetNextFile written c.request s = .ok r) :
      Step c (.getNextFile written s) (c.takes listing r)
  | endTransfer {c : Client} {written : UInt32 → Except GftpError Unit} {s : Stream GftpError}
      {ret : Except GftpError Unit} {request : SshRequest}
      (h : gftpEndTransfer written c.request s = .ok (ret, request)) :
      Step c (.endTransfer written s) { c with request := request, listing := none }

/-- An entry of a NAME message. -/
structure NamedEntry where
  name : Bytes
  longname : Bytes
  attrs : Attrs
  nameFits : name.length ≤ sshMaxStringSize
  longnameFits : longname.length ≤ sshMaxStringSize

def NamedEntry.encode (e : NamedEntry) : Bytes :=
  stringBytes e.name ++ (stringBytes e.longname ++ e.attrs.encode)

def entryBytes (l : List NamedEntry) : Bytes := l.flatMap NamedEntry.encode

/-- The cursor stands between two parts of the message. -/
structure Placed (message : SshMessage) (before after : Bytes) : Prop where
  block : message.buffer = some (before ++ (after ++ [0, 0]))
  cursor : message.pos = before.length
  finish : message.endPos = before.length + after.length

/-- The message announces the entries taken and those left, and its cursor stands at an
entry behind the ones taken. -/
structure AtNext (message : SshMessage) (taken left : ℕ) : Prop where
  name : message.command = sshFxpName
  place : ∃ (id announced : UInt32) (done : List NamedEntry) (next : NamedEntry) (rest : Bytes),
    announced.toNat = taken + left ∧ done.length = taken ∧
    Placed message (be32 id ++ (be32 announced ++ entryBytes done)) (next.encode ++ rest)

/-- Entries are left only in a message of the listing in progress. -/
def CountLaw (c : Client) : Prop :=
  0 < c.request.params.count →
    c.listing = some c.origin ∧ AtNext c.request.params.message c.taken c.request.params.count.toNat

/-- Each entry that was returned was read by the listing that returned it. -/
def OwnEntries (c : Client) : Prop := ∀ p ∈ c.returned, p.1 = p.2

/-- The decoders accept the entry at the cursor. -/
def Decodes (request : SshRequest) (message : SshMessage) : Prop :=
  ∃ file name longname d fle, sshv2BufferGetString request message = .ok file ∧
    file.value = .ok name ∧ sshv2BufferGetString file.request file.message = .ok longname ∧
    sshv2DecodeFileAttributes { GftpFile.cleared with file := some (cstr name) }
      longname.request longname.message = .ok d ∧ d.value = .ok fle

/-- Two entries stand at the cursor, and the decoder moves over the first as it is laid out. -/
def TwoEntries (message : SshMessage) : Prop :=
  ∃ (e e' : NamedEntry) (rest : Bytes), Unread message (e.encode ++ (e'.encode ++ rest)) ∧
    Regular (e.attrs.encode ++ (e'.encode ++ rest))

/-- What the message has to hold when so many entries are left: an entry for the last, one
more behind it when others follow, and none that is taken when none was announced. -/
structure Takeable (message : SshMessage) (left : ℕ) : Prop where
  none : left = 0 → ∀ request, ¬ Decodes request message
  one : left = 1 → ∀ request, Decodes request message
  more : 2 ≤ left → TwoEntries message

/-- The entry that the next call takes, from the message in place or from the one it reads. -/
def NextFits (request : SshRequest) (s : Stream GftpError) : Prop :=
  if 0 < request.params.count then
    Takeable request.params.message request.params.count.toNat
  else
    ∀ (reader : SshRequest) (r : ReadResult) (announced : UInt32),
      sshv2ReadResponse reader s = .ok r → r.ret = .ok sshFxpName →
      wordAt (r.message.buffer.getD []) 4 = .ok announced →
      Takeable { r.message with pos := 8 } announced.toNat

/-- The server answers the command for a directory with a handle that is stored. -/
def HandleComes (directory : Bytes) (written : Except GftpError Unit) (request : SshRequest)
    (s : Stream GftpError) : Prop :=
  request.connected = true ∧ directory.length + 8 ≤ 33995 ∧ written = .ok () ∧
    ∀ (reader : SshRequest) (r : ReadResult), sshv2ReadResponse reader s = .ok r →
      r.ret = .ok sshFxpHandle ∧ r.message.length - 4 ≤ sshMaxHandleSize ∧ 4 ≤ r.message.length

/-- No entry is left when the message is freed alone or another listing takes over. -/
def Careful (c : Client) : Event → Prop
  | .connect started loggedIn =>
      c.request.params.count = 0 ∨ c.request.connected = true ∨ started = false ∨
        loggedIn.isSome = true
  | .disconnect => c.request.params.count = 0
  | .listFiles found directory written s =>
      c.request.params.count = 0 ∨
        found = false ∧ HandleComes directory written c.request s
  | .getNextFile _ s => NextFits c.request s
  | .endTransfer _ _ => c.request.params.count = 0 ∨ c.request.cached = false

theorem Placed.advance {message : SshMessage} {before d after : Bytes}
    (h : Placed message before (d ++ after)) :
    Placed (advance message d.length) (before ++ d) after := by
  have hblock := h.block
  have hcursor := h.cursor
  have hfinish := h.finish
  rw [List.length_append] at hfinish
  refine ⟨?_, ?_, ?_⟩
  · rw [List.append_assoc, ← List.append_assoc d]
    exact hblock
  · rw [List.length_append, ← hcursor]
    rfl
  · rw [List.length_append, Nat.add_assoc]
    exact hfinish

theorem takeEntry_regular {request : SshRequest} {e : NamedEntry} {rest : Bytes}
    (s : Stream GftpError) (h : Unread request.params.message (e.encode ++ rest))
    (hregular : Regular (e.attrs.encode ++ rest)) :
    ∃ fle, takeEntry request s = .ok
      { ret := .ok e.encode.length
        fle := fle
        request := (request.setMessage (advance request.params.message e.encode.length)).setCount
          (request.params.count - 1)
        stream := s } := by
  have hlengths : e.encode.length = (stringBytes e.name).length +
      ((stringBytes e.longname).length + e.attrs.encode.length) := by
    simp only [NamedEntry.encode, List.length_append]
  have hassoc : e.encode ++ rest =
      stringBytes e.name ++ (stringBytes e.longname ++ (e.attrs.encode ++ rest)) := by
    simp only [NamedEntry.encode, List.append_assoc]
  rw [hassoc] at h
  have hname : sshv2BufferGetString request request.params.message =
      .ok { value := .ok e.name
            message := advance request.params.message (stringBytes e.name).length
            request := request } := takes_string e.nameFits request _ _ h
  have hlongname : sshv2BufferGetString request
        (advance request.params.message (stringBytes e.name).length) =
      .ok { value := .ok e.longname
            message := advance request.params.message
              ((stringBytes e.name).length + (stringBytes e.longname).length)
            request := request } := by
    rw [← advance_advance]
    exact takes_string e.longnameFits request _ _ h.advance
  obtain ⟨out, hattrs⟩ := ((attributes_decoded_iff
    { GftpFile.cleared with file := some (cstr e.name) } request _ _
      h.advance.advance).mpr hregular).1 e.attrs rest rfl
  rw [advance_advance, advance_advance, Nat.add_assoc, ← hlengths] at hattrs
  refine ⟨out, ?_⟩
  simp only [takeEntry, hname, hlongname, hattrs, CRun.ok_bind]
  simp [advance, SshRequest.setMessage, SshRequest.setCount, pure, Except.pure]

/-- The function leaves count as it is. -/
def KeepsCount {α : Type} (take : SshRequest → SshMessage → CRun (Taken α)) : Prop :=
  ∀ request message t, take request message = .ok t →
    t.request.params.count = request.params.count

section KeepsCount

variable {α β : Type} {take : SshRequest → SshMessage → CRun (Taken α)}
  {next : α → SshRequest → SshMessage → CRun (Taken β)}

theorem KeepsCount.nothing (a : α) :
    KeepsCount (fun request message =>
      return { value := .ok a, message := message, request := request }) := by
  intro request message t h
  obtain rfl := Except.ok.inj h
  rfl

theorem KeepsCount.andThen (htake : KeepsCount take) (hnext : ∀ a, KeepsCount (next a)) :
    KeepsCount (fun request message => do (← take request message).andThen next) := by
  intro request message t h
  obtain ⟨first, hfirst, h⟩ := CRun.bind_eq_ok.mp h
  have hkept := htake request message first hfirst
  unfold Taken.andThen at h
  split at h
  · obtain rfl := Except.ok.inj h
    exact hkept
  · exact (hnext _ _ _ _ h).trans hkept

theorem KeepsCount.guarded {c : Bool} {a : α} (htake : KeepsCount take) :
    KeepsCount (fun request message =>
      if c then take request message
      else return { value := .ok a, message := message, request := request }) := by
  cases c with
  | true => exact htake
  | false => exact KeepsCount.nothing a

end KeepsCount

theorem int32_count : KeepsCount fun request message =>
    sshv2BufferGetInt32 request message none := by
  intro request message t h
  rcases getInt32_request h with hrequest | hrequest
  · rw [hrequest]
  · rw [hrequest]
    rfl

theorem int64_count : KeepsCount sshv2BufferGetInt64 :=
  int32_count.andThen fun _ => int32_count.andThen fun _ => KeepsCount.nothing _

theorem string_count : KeepsCount sshv2BufferGetString := by
  apply int32_count.andThen
  intro len request message t h
  dsimp only at h
  split_ifs at h
  · obtain rfl := Except.ok.inj h
    rfl
  · obtain rfl := Except.ok.inj h
    rfl

theorem acmodtime_count (attrs : UInt32) (d : Decoded) :
    KeepsCount (decodeAcmodtime attrs d) := by
  apply KeepsCount.guarded
  intro request message t h
  obtain ⟨atime, hatime, h⟩ := CRun.bind_eq_ok.mp h
  have hkept := int32_count request message atime hatime
  split at h
  · split at h
    · simp at h
    · split_ifs at h
      obtain rfl := Except.ok.inj h
      exact hkept
  · exact (int32_count.andThen (fun _ => KeepsCount.nothing _) _ _ _ h).trans hkept

theorem skipExtended_count : KeepsCount skipExtended := by
  intro request message t h
  obtain ⟨num, hnum, h⟩ := CRun.bind_eq_ok.mp h
  have hkept := int32_count request message num hnum
  split at h
  · obtain rfl := Except.ok.inj h
    exact hkept
  · split_ifs at h
    · obtain rfl := Except.ok.inj h
      exact hkept
    · obtain rfl := Except.ok.inj h
      exact hkept

theorem skipPairs_count (count : ℕ) : KeepsCount (skipPairs count) := by
  induction count with
  | zero => exact KeepsCount.nothing ()
  | succ count ih =>
    exact skipExtended_count.andThen fun _ => skipExtended_count.andThen fun _ => ih

theorem attributes_count (fle : GftpFile) : KeepsCount (sshv2DecodeFileAttributes fle) := by
  apply int32_count.andThen
  intro attrs
  have hsize : KeepsCount (decodeSize attrs (fle, none)) :=
    KeepsCount.guarded (int64_count.andThen fun _ => KeepsCount.nothing _)
  apply hsize.andThen
  intro d
  have howner : KeepsCount (decodeUidgid attrs d) :=
    KeepsCount.guarded (int32_count.andThen fun _ => int32_count.andThen fun _ =>
      KeepsCount.nothing _)
  apply howner.andThen
  intro d
  have hpermissions : KeepsCount (decodePermissions attrs d) :=
    KeepsCount.guarded (int32_count.andThen fun _ => KeepsCount.nothing _)
  apply hpermissions.andThen
  intro d
  apply (acmodtime_count attrs d).andThen
  intro d
  exact KeepsCount.guarded (int32_count.andThen fun count =>
    (skipPairs_count count.toNat).andThen fun _ => KeepsCount.nothing _)

/-- An entry that is accepted is counted, and one that is refused is not. -/
theorem takeEntry_cases {request : SshRequest} {s : Stream GftpError} {r : NextFile SshRequest}
    (h : takeEntry request s = .ok r) :
    (Decodes request request.params.message ∧ (∃ n, r.ret = .ok n) ∧
      r.request.params.count = request.params.count - 1) ∨
    (¬ Decodes request request.params.message ∧ (∃ e, r.ret = .error e) ∧
      r.request.params.count = request.params.count) := by
  obtain ⟨file, hfile, h⟩ := CRun.bind_eq_ok.mp h
  have hfileCount := string_count request _ file hfile
  cases hname : file.value with
  | error e =>
    simp only [hname] at h
    obtain rfl := Except.ok.inj h
    refine Or.inr ⟨?_, ⟨_, rfl⟩, hfileCount⟩
    rintro ⟨file', name, _, _, _, hfile', hname', _⟩
    rw [hfile] at hfile'
    obtain rfl := Except.ok.inj hfile'
    simp [hname] at hname'
  | ok name =>
    simp only [hname] at h
    obtain ⟨longname, hlongname, h⟩ := CRun.bind_eq_ok.mp h
    obtain ⟨d, hd, h⟩ := CRun.bind_eq_ok.mp h
    have hcount : d.request.params.count = request.params.count :=
      (attributes_count _ _ _ d hd).trans ((string_count _ _ longname hlongname).trans hfileCount)
    cases hfle : d.value with
    | error e =>
      simp only [hfle] at h
      obtain rfl := Except.ok.inj h
      refine Or.inr ⟨?_, ⟨e, rfl⟩, hcount⟩
      rintro ⟨file', name', longname', d', fle, hfile', hname', hlongname', hd', hfle'⟩
      rw [hfile] at hfile'
      obtain rfl := Except.ok.inj hfile'
      rw [hlongname] at hlongname'
      obtain rfl := Except.ok.inj hlongname'
      rw [hname] at hname'
      obtain rfl := Except.ok.inj hname'
      rw [hd] at hd'
      obtain rfl := Except.ok.inj hd'
      simp [hfle] at hfle'
    | ok fle =>
      simp only [hfle] at h
      obtain rfl := Except.ok.inj h
      refine Or.inl ⟨⟨file, name, longname, d, fle, hfile, hname, hlongname, hd, hfle⟩,
        ⟨_, rfl⟩, ?_⟩
      exact congrArg (· - 1) hcount

/-- The entries in front of the cursor are the ones taken. -/
def Behind (message : SshMessage) (taken left : ℕ) : Prop :=
  ∃ (id announced : UInt32) (done : List NamedEntry) (after : Bytes),
    announced.toNat = taken + left ∧ done.length = taken ∧
    Placed message (be32 id ++ (be32 announced ++ entryBytes done)) after

theorem AtNext.behind {message : SshMessage} {taken left : ℕ} (h : AtNext message taken left) :
    Behind message taken left := by
  obtain ⟨id, announced, done, next, rest, hannounced, hdone, hplaced⟩ := h.place
  exact ⟨id, announced, done, next.encode ++ rest, hannounced, hdone, hplaced⟩

theorem Placed.after_eq {message : SshMessage} {before after after' : Bytes}
    (h : Placed message before after) (h' : Unread message after') : after' = after := by
  obtain ⟨before', hblock, hcursor, _⟩ := h'
  rw [h.block, Option.some.injEq] at hblock
  have hlen : before.length = before'.length := h.cursor.symm.trans hcursor
  have hrest := (List.append_inj hblock hlen).2
  exact (List.append_left_injective _ hrest).symm

/-- The next entry is behind an entry that is taken when others follow. -/
theorem takeEntry_kept {request : SshRequest} {s : Stream GftpError} {r : NextFile SshRequest}
    {taken : ℕ} (h : takeEntry request s = .ok r)
    (hname : request.params.message.command = sshFxpName)
    (hbehind : Behind request.params.message taken request.params.count.toNat)
    (hfits : Takeable request.params.message request.params.count.toNat) :
    r.request.params.count = 0 ∨
      (∃ n, r.ret = .ok (n + 1)) ∧
        AtNext r.request.params.message (taken + 1) r.request.params.count.toNat := by
  obtain hzero | hone | hmore : request.params.count.toNat = 0 ∨
      request.params.count.toNat = 1 ∨ 2 ≤ request.params.count.toNat := by omega
  · left
    have hrefused := hfits.none hzero request
    have hcount : request.params.count = 0 := UInt32.toNat.inj hzero
    rcases takeEntry_cases h with ⟨haccepted, _⟩ | ⟨_, _, hkept⟩
    · exact absurd haccepted hrefused
    · exact hkept.trans hcount
  · left
    have haccepted := hfits.one hone request
    have hcount : request.params.count = 1 := UInt32.toNat.inj hone
    rcases takeEntry_cases h with ⟨_, _, hkept⟩ | ⟨hrefused, _⟩
    · rw [hkept, hcount]
      rfl
    · exact absurd haccepted hrefused
  · right
    obtain ⟨e, e', rest, hunread, hregular⟩ := hfits.more hmore
    obtain ⟨fle, htake⟩ := takeEntry_regular s hunread hregular
    obtain ⟨id, announced, done, after, hannounced, hdone, hplaced⟩ := hbehind
    obtain rfl := hplaced.after_eq hunread
    have hmoved := hplaced.advance
    rw [htake] at h
    obtain rfl := Except.ok.inj h
    have hpos : 0 < e.encode.length := by
      simp only [NamedEntry.encode, List.length_append, stringBytes_length]
      omega
    have hleft : (request.params.count - 1).toNat = request.params.count.toNat - 1 := by
      apply UInt32.toNat_sub_of_le
      apply UInt32.le_iff_toNat_le.mpr
      exact le_trans (by decide) hmore
    refine ⟨⟨e.encode.length - 1, ?_⟩, hname, id, announced, done ++ [e], e', rest, ?_, ?_, ?_⟩
    · exact congrArg Except.ok (by omega)
    · show announced.toNat = taken + 1 + (request.params.count - 1).toNat
      omega
    · simp [hdone]
    · have hbytes : be32 id ++ (be32 announced ++ entryBytes (done ++ [e])) =
          be32 id ++ (be32 announced ++ entryBytes done) ++ e.encode := by
        simp [entryBytes]
      rw [hbytes]
      exact hmoved

/-- A message that was read has its first entry behind its number and its count. -/
theorem behind_first {message : SshMessage} {announced : UInt32} (h : FramedMessage message)
    (hroom : 8 ≤ message.endPos) (hword : wordAt (message.buffer.getD []) 4 = .ok announced) :
    Behind { message with pos := 8 } 0 announced.toNat := by
  obtain ⟨payload, hblock, hlength⟩ := h.block
  have hfinish := h.finish
  have hlong : 8 ≤ payload.length := by omega
  obtain ⟨id, hid⟩ := Option.isSome_iff_exists.mp
    ((read32_isSome_iff payload).mpr (by omega))
  have hcount : read32 ((payload ++ [0, 0]).drop 4) = some announced := by
    rw [hblock, Option.getD_some] at hword
    unfold wordAt at hword
    split at hword
    · rename_i w hw
      rw [hw, Except.ok.inj hword]
    · simp at hword
  have hfront : payload ++ [0, 0] =
      be32 id ++ (be32 announced ++ (payload.drop 8 ++ [0, 0])) := by
    have hfirst := be32_of_read32 hid
    have hsecond := be32_of_read32 hcount
    have hcut : (payload ++ [0, 0]).drop 8 = payload.drop 8 ++ [0, 0] :=
      List.drop_append_of_le_length hlong
    rw [List.drop_drop, hcut] at hsecond
    calc payload ++ [0, 0] = (be32 id ++ payload.drop 4) ++ [0, 0] := by rw [← hfirst]
      _ = be32 id ++ (payload ++ [0, 0]).drop 4 := by
        rw [List.append_assoc, List.drop_append_of_le_length (by omega)]
      _ = be32 id ++ (be32 announced ++ (payload.drop 8 ++ [0, 0])) := by rw [hsecond]
  refine ⟨id, announced, [], payload.drop 8, (Nat.zero_add _).symm, rfl, ?_, ?_, ?_⟩
  · show message.buffer = _
    rw [hblock, hfront]
    simp [entryBytes]
  · simp [entryBytes]
  · simp only [entryBytes, List.flatMap_nil, List.append_nil, List.length_append, be32_length,
      List.length_drop]
    omega

/-- What a call finds to take: the request keeps count, or an entry was taken from the
message in place. -/
theorem useResponse_kept {r : ReadResult} {command : UInt8} {next : NextFile SshRequest}
    (h : useResponse r command = .ok next) (hcount : r.request.params.count = 0)
    (hframed : FramedMessage r.message) (hcommand : r.message.command = command)
    (hfits : ∀ announced, command = sshFxpName →
      wordAt (r.message.buffer.getD []) 4 = .ok announced →
      Takeable { r.message with pos := 8 } announced.toNat) :
    next.request.params.count = 0 ∨
      (∃ n, next.ret = .ok (n + 1)) ∧
        AtNext next.request.params.message 1 next.request.params.count.toNat := by
  unfold useResponse at h
  split_ifs at h with hname hstatus
  · obtain ⟨count, hget, h⟩ := CRun.bind_eq_ok.mp h
    have hkept := int32_count _ _ count hget
    cases hvalue : count.value with
    | error e =>
      simp only [hvalue] at h
      obtain rfl := Except.ok.inj h
      exact Or.inl (hkept.trans hcount)
    | ok announced =>
      simp only [hvalue] at h
      unfold sshv2BufferGetInt32 at hget
      split_ifs at hget with hshort
      · obtain rfl := Except.ok.inj hget
        simp [sshv2WrongResponse] at hvalue
      · obtain ⟨word, hword, hget⟩ := CRun.bind_eq_ok.mp hget
        obtain rfl := Except.ok.inj hget
        obtain rfl := Except.ok.inj hvalue
        have hroom : 8 ≤ r.message.endPos := Nat.le_of_not_lt hshort
        have hbehind := behind_first hframed hroom hword
        exact @takeEntry_kept _ _ _ 0 h (hcommand.trans hname) hbehind (hfits word hname hword)
  · obtain rfl := Except.ok.inj h
    exact Or.inl hcount
  · obtain rfl := Except.ok.inj h
    exact Or.inl hcount

theorem nextResponse_kept {request : SshRequest} {s : Stream GftpError}
    {next : NextFile SshRequest} (h : nextResponse request s = .ok next)
    (hcount : request.params.count = 0)
    (hfits : ∀ (r : ReadResult) (announced : UInt32), sshv2ReadResponse request s = .ok r →
      r.ret = .ok sshFxpName → wordAt (r.message.buffer.getD []) 4 = .ok announced →
      Takeable { r.message with pos := 8 } announced.toNat) :
    next.request.params.count = 0 ∨
      (∃ n, next.ret = .ok (n + 1)) ∧
        AtNext next.request.params.message 1 next.request.params.count.toNat := by
  obtain ⟨r, hread, h⟩ := CRun.bind_eq_ok.mp h
  have hkept : r.request.params.count = 0 := by
    rcases readResponse_request hread with hrequest | hrequest
    · rw [hrequest]
      exact hcount
    · rw [hrequest]
      exact hcount
  cases hret : r.ret with
  | error e =>
    simp only [hret] at h
    obtain rfl := Except.ok.inj h
    exact Or.inl hkept
  | ok command =>
    simp only [hret] at h
    obtain ⟨hframed, hcommand⟩ := readResponse_framed hread hret
    have hkeep : (keepResponse r.request r.message).params.count = 0 := by
      unfold keepResponse
      split_ifs
      · exact hkept
      · exact hkept
    refine useResponse_kept h hkeep hframed hcommand fun announced hname hword => ?_
    exact hfits r announced hread (by rw [hret, hname]) hword

/-- Sending a command changes the request only by disconnecting it. -/
theorem sendCommand_count {request : SshRequest} {type : UInt8} {command : Bytes}
    {written : Except GftpError Unit} {sent : SendResult}
    (h : sshv2SendCommand request type command written = .ok sent) :
    sent.request.params.count = request.params.count := by
  rcases sendCommand_cases h with ⟨-, hrequest⟩ | ⟨_, -, hrequest, -⟩
  · rw [hrequest]
  · rw [hrequest]
    rfl

theorem sendReaddir_count {request : SshRequest} {written : UInt32 → Except GftpError Unit}
    {sent : SendResult} (h : sendReaddir request written = .ok sent) :
    sent.request.params.count = request.params.count := by
  obtain ⟨handle, _, h⟩ := CRun.bind_eq_ok.mp h
  dsimp only at h
  split_ifs at h
  have hkept := sendCommand_count h
  exact hkept

/-- A call keeps the law: it takes the next entry, or no entry is left. -/
theorem getNextFile_kept {written : UInt32 → Except GftpError Unit} {request : SshRequest}
    {s : Stream GftpError} {r : NextFile SshRequest} {taken : ℕ}
    (h : sshv2GetNextFile written request s = .ok r)
    (hplace : 0 < request.params.count →
      AtNext request.params.message taken request.params.count.toNat)
    (hfits : NextFits request s) :
    r.request.params.count = 0 ∨
      (∃ n, r.ret = .ok (n + 1)) ∧
        AtNext r.request.params.message ((if 0 < request.params.count then taken else 0) + 1)
          r.request.params.count.toNat := by
  unfold NextFits at hfits
  unfold sshv2GetNextFile at h
  dsimp only at h
  by_cases hleft : 0 < request.params.count
  · rw [if_pos hleft] at hfits h ⊢
    have hnext := hplace hleft
    exact takeEntry_kept h hnext.name hnext.behind hfits
  · rw [if_neg hleft] at hfits h ⊢
    have hcount : request.params.count = 0 := by simpa using hleft
    split_ifs at h
    · exact nextResponse_kept h hcount fun r announced => hfits _ r announced
    · obtain ⟨sent, hsent, h⟩ := CRun.bind_eq_ok.mp h
      have hkept := (sendReaddir_count hsent).trans hcount
      cases hret : sent.ret with
      | error e =>
        simp only [hret] at h
        obtain rfl := Except.ok.inj h
        exact Or.inl hkept
      | ok _ =>
        simp only [hret] at h
        exact nextResponse_kept h hkept fun r announced => hfits _ r announced

theorem readStatus_count {fxpIsRetryable fxpIsWrong : UInt8} {request : SshRequest}
    {s s' : Stream GftpError} {status : Use (Taken UInt8)}
    (h : sshv2ReadStatusResponse fxpIsRetryable fxpIsWrong request s = .ok (status, s')) :
    status.value.request.params.count = request.params.count := by
  obtain ⟨r, hread, h⟩ := CRun.bind_eq_ok.mp h
  have hkept : r.request.params.count = request.params.count := by
    rcases readResponse_request hread with hrequest | hrequest
    · rw [hrequest]
    · rw [hrequest]
      rfl
  cases hret : r.ret with
  | error e =>
    simp only [hret] at h
    obtain ⟨rfl, _⟩ := Prod.mk.inj (Except.ok.inj h)
    exact hkept
  | ok command =>
    simp only [hret] at h
    obtain ⟨rfl, _⟩ := Prod.mk.inj (Except.ok.inj h)
    unfold statusOf
    split_ifs <;> exact hkept

theorem storeHandle_count {request request' : SshRequest} {message : SshMessage}
    {tooBig : GftpError} {ret : Except GftpError Unit}
    (h : sshv2StoreHandle request message tooBig = .ok (ret, request')) :
    request'.params.count = request.params.count := by
  unfold sshv2StoreHandle at h
  split_ifs at h
  · obtain ⟨_, rfl⟩ := Prod.mk.inj (Except.ok.inj h)
    rfl
  · obtain ⟨_, _, h⟩ := CRun.bind_eq_ok.mp h
    obtain ⟨_, _, h⟩ := CRun.bind_eq_ok.mp h
    obtain ⟨_, rfl⟩ := Prod.mk.inj (Except.ok.inj h)
    rfl

theorem receiveHandle_count {tooBig : GftpError} {request request' : SshRequest}
    {s s' : Stream GftpError} {handle : Use (CRun (Except GftpError Unit × SshRequest))}
    {ret : Except GftpError Unit} (h : receiveHandle tooBig request s = .ok (handle, s'))
    (hvalue : handle.value = .ok (ret, request')) :
    request'.params.count = request.params.count := by
  obtain ⟨⟨status, s₁⟩, hstatus, h⟩ := CRun.bind_eq_ok.mp h
  have hkept := readStatus_count hstatus
  cases hret : status.value.value with
  | error e =>
    simp only [hret] at h
    obtain ⟨rfl, _⟩ := Prod.mk.inj (Except.ok.inj h)
    obtain ⟨_, rfl⟩ := Prod.mk.inj (Except.ok.inj hvalue)
    exact hkept
  | ok _ =>
    simp only [hret] at h
    obtain ⟨rfl, _⟩ := Prod.mk.inj (Except.ok.inj h)
    exact (storeHandle_count hvalue).trans hkept

theorem listFiles_count {directory : Bytes} {written : Except GftpError Unit}
    {request request' : SshRequest} {s : Stream GftpError} {ret : Except GftpError Unit}
    (h : sshv2ListFiles directory written request s = .ok (ret, request')) :
    request'.params.count = 0 ∨
      request'.params.count = request.params.count ∧ ∃ e, ret = .error e := by
  unfold sshv2ListFiles at h
  split_ifs at h
  · obtain ⟨rfl, rfl⟩ := Prod.mk.inj (Except.ok.inj h)
    exact Or.inr ⟨rfl, _, rfl⟩
  · obtain ⟨sent, hsent, h⟩ := CRun.bind_eq_ok.mp h
    have hkept := sendCommand_count hsent
    cases hret : sent.ret with
    | error e =>
      simp only [hret] at h
      obtain ⟨rfl, rfl⟩ := Prod.mk.inj (Except.ok.inj h)
      exact Or.inr ⟨hkept, e, rfl⟩
    | ok _ =>
      simp only [hret] at h
      obtain ⟨⟨handle, s'⟩, hhandle, h⟩ := CRun.bind_eq_ok.mp h
      obtain ⟨⟨ret', request₁⟩, hvalue, h⟩ := CRun.bind_eq_ok.mp h
      have hhandleCount := (receiveHandle_count hhandle hvalue).trans hkept
      cases ret' with
      | error e =>
        obtain ⟨rfl, rfl⟩ := Prod.mk.inj (Except.ok.inj h)
        exact Or.inr ⟨hhandleCount, e, rfl⟩
      | ok _ =>
        obtain ⟨_, rfl⟩ := Prod.mk.inj (Except.ok.inj h)
        exact Or.inl rfl

theorem listFiles_begins {directory : Bytes} {written : Except GftpError Unit}
    {request request' : SshRequest} {s : Stream GftpError} {ret : Except GftpError Unit}
    (h : sshv2ListFiles directory written request s = .ok (ret, request'))
    (hcomes : HandleComes directory written request s) : ret = .ok () := by
  obtain ⟨hconnected, hfits, rfl, hresponse⟩ := hcomes
  unfold sshv2ListFiles at h
  rw [if_neg (by simp [hconnected])] at h
  obtain ⟨sent, hsent, h⟩ := CRun.bind_eq_ok.mp h
  have hsent' : sent.ret = .ok () := by
    rcases sendCommand_cases hsent with ⟨hret, -⟩ | ⟨_, -, -, hlong | hwritten⟩
    · exact hret
    · simp only [openDirectory, List.length_append, be32_length, stringBytes_length] at hlong
      omega
    · cases hwritten
  simp only [hsent'] at h
  obtain ⟨⟨handle, s'⟩, hhandle, h⟩ := CRun.bind_eq_ok.mp h
  obtain ⟨⟨ret', request₁⟩, hvalue, h⟩ := CRun.bind_eq_ok.mp h
  have hret : ret' = .ok () := by
    obtain ⟨⟨status, s₁⟩, hstatus, hhandle⟩ := CRun.bind_eq_ok.mp hhandle
    obtain ⟨r, hread, hstatus⟩ := CRun.bind_eq_ok.mp hstatus
    obtain ⟨hcommand, hsmall, hlarge⟩ := hresponse _ r hread
    simp only [hcommand] at hstatus
    obtain ⟨rfl, _⟩ := Prod.mk.inj (Except.ok.inj hstatus)
    simp only [statusOf] at hhandle
    rw [if_neg (by decide), if_neg (by decide)] at hhandle
    obtain ⟨rfl, _⟩ := Prod.mk.inj (Except.ok.inj hhandle)
    simp only [copyHandle, sshv2StoreHandle] at hvalue
    rw [if_neg (by omega)] at hvalue
    split_ifs at hvalue
    obtain ⟨_, _, hvalue⟩ := CRun.bind_eq_ok.mp hvalue
    obtain ⟨_, _, hvalue⟩ := CRun.bind_eq_ok.mp hvalue
    obtain ⟨rfl, _⟩ := Prod.mk.inj (Except.ok.inj hvalue)
    rfl
  subst hret
  obtain ⟨rfl, _⟩ := Prod.mk.inj (Except.ok.inj h)
  rfl

theorem closeHandle_count {written : UInt32 → Except GftpError Unit}
    {request request' : SshRequest} {s : Stream GftpError} {ret : Except GftpError Unit}
    (h : closeHandle written request s = .ok (ret, request')) :
    request'.params.count = request.params.count := by
  unfold closeHandle at h
  split_ifs at h
  · obtain ⟨_, rfl⟩ := Prod.mk.inj (Except.ok.inj h)
    rfl
  · obtain ⟨handle, _, h⟩ := CRun.bind_eq_ok.mp h
    dsimp only at h
    split_ifs at h
    obtain ⟨sent, hsent, h⟩ := CRun.bind_eq_ok.mp h
    have hkept := sendCommand_count hsent
    cases hret : sent.ret with
    | error e =>
      simp only [hret] at h
      obtain ⟨_, rfl⟩ := Prod.mk.inj (Except.ok.inj h)
      exact hkept
    | ok _ =>
      simp only [hret] at h
      obtain ⟨⟨status, s'⟩, hstatus, h⟩ := CRun.bind_eq_ok.mp h
      have hstatusCount := (readStatus_count hstatus).trans hkept
      cases hvalue : status.value.value with
      | error e =>
        simp only [hvalue] at h
        obtain ⟨_, rfl⟩ := Prod.mk.inj (Except.ok.inj h)
        exact hstatusCount
      | ok _ =>
        simp only [hvalue] at h
        obtain ⟨_, rfl⟩ := Prod.mk.inj (Except.ok.inj h)
        exact hstatusCount

/-- With a message in place, or no entry left, count is zero behind a live listing. -/
theorem endTransfer_count {written : UInt32 → Except GftpError Unit}
    {request request' : SshRequest} {s : Stream GftpError} {ret : Except GftpError Unit}
    (h : sshv2EndTransfer written request s = .ok (ret, request'))
    (hmessage : 0 < request.params.count → request.params.message.buffer.isSome = true) :
    request'.params.count = 0 := by
  have hdropped : (dropMessage request).params.count = 0 := by
    unfold dropMessage
    split_ifs with hbuffer
    · rfl
    · by_contra hne
      exact hbuffer (hmessage (UInt32.pos_iff_ne_zero.mpr hne))
  obtain ⟨⟨ret', request₁⟩, hclose, h⟩ := CRun.bind_eq_ok.mp h
  have hkept := (closeHandle_count hclose).trans hdropped
  cases ret' with
  | error e =>
    obtain ⟨_, rfl⟩ := Prod.mk.inj (Except.ok.inj h)
    exact hkept
  | ok _ =>
    obtain ⟨_, rfl⟩ := Prod.mk.inj (Except.ok.inj h)
    exact hkept

@[simp] theorem Client.takes_request (c : Client) (listing : ℕ) (r : NextFile SshRequest) :
    (c.takes listing r).request = r.request := by
  unfold Client.takes
  rcases r.ret with e | _ | n <;> rfl

theorem CountLaw.of_zero {c : Client} (h : c.request.params.count = 0) : CountLaw c := by
  intro hpos
  rw [h] at hpos
  exact absurd hpos (by decide)

theorem countLaw_step {c c' : Client} {event : Event} (h : CountLaw c)
    (hcareful : Careful c event) (hstep : Step c event c') : CountLaw c' := by
  cases hstep with
  | connect started loggedIn =>
    unfold gftpConnect
    split_ifs with hsame
    · exact h
    · cases loggedIn with
      | none =>
        apply CountLaw.of_zero
        simp only [not_or, not_not] at hsame
        rcases hcareful with hcount | hconnected | hstarted | hsome
        · exact hcount
        · exact absurd hconnected hsame.1
        · exact absurd (hstarted ▸ hsame.2) (by decide)
        · exact absurd hsome (by decide)
      | some id => exact h
  | disconnect => exact CountLaw.of_zero hcareful
  | @listFiles found directory written s ret request hlist =>
    apply CountLaw.of_zero
    show request.params.count = 0
    unfold gftpListFiles at hlist
    split_ifs at hlist with hfound
    · obtain ⟨_, rfl⟩ := Prod.mk.inj (Except.ok.inj hlist)
      rcases hcareful with hcount | ⟨hlive, _⟩
      · exact hcount
      · exact absurd (hfound.symm.trans hlive) (by decide)
    · rcases listFiles_count hlist with hzero | ⟨hkept, e, rfl⟩
      · exact hzero
      · rcases hcareful with hcount | ⟨_, hcomes⟩
        · exact hkept.trans hcount
        · have hbegun := listFiles_begins hlist hcomes
          simp at hbegun
  | @getNextFile written s listing r hlisting hnext =>
    have hown : (if 0 < c.request.params.count then c.origin else listing) = listing := by
      split_ifs with hpos
      · exact Option.some.inj ((h hpos).1.symm.trans hlisting)
      · rfl
    rcases getNextFile_kept hnext (fun hpos => (h hpos).2) hcareful with
      hzero | ⟨⟨n, hret⟩, hplace⟩
    · apply CountLaw.of_zero
      rw [Client.takes_request]
      exact hzero
    · intro _
      simp only [Client.takes, hret, hown]
      exact ⟨hlisting, hplace⟩
  | @endTransfer written s ret request hend =>
    apply CountLaw.of_zero
    show request.params.count = 0
    unfold gftpEndTransfer at hend
    split_ifs at hend with hcached
    · obtain ⟨_, rfl⟩ := Prod.mk.inj (Except.ok.inj hend)
      rcases hcareful with hcount | hlive
      · exact hcount
      · exact absurd (hcached.symm.trans hlive) (by decide)
    · obtain ⟨⟨ret', request'⟩, hrun, hend⟩ := CRun.bind_eq_ok.mp hend
      obtain ⟨_, rfl⟩ := Prod.mk.inj (Except.ok.inj hend)
      apply endTransfer_count hrun
      intro hpos
      obtain ⟨_, _, _, _, _, _, _, hplaced⟩ := (h hpos).2.place
      rw [hplaced.block]
      rfl

/-- Under the law an entry comes from the listing that returns it. -/
theorem ownEntries_step {c c' : Client} {event : Event} (hlaw : CountLaw c) (h : OwnEntries c)
    (hstep : Step c event c') : OwnEntries c' := by
  cases hstep with
  | connect started loggedIn => exact h
  | disconnect => exact h
  | listFiles hlist => exact h
  | @getNextFile written s listing r hlisting hnext =>
    have hnew : ∀ p ∈ (c.takes listing r).returned, p ∈ c.returned ∨
        p = (listing, if 0 < c.request.params.count then c.origin else listing) := by
      unfold Client.takes
      rcases r.ret with e | _ | n
      · exact fun p hp => Or.inl hp
      · exact fun p hp => Or.inl hp
      · exact fun p hp => (List.mem_cons.mp hp).symm
    intro p hp
    rcases hnew p hp with hp | rfl
    · exact h p hp
    · show listing = if 0 < c.request.params.count then c.origin else listing
      split_ifs with hpos
      · exact (Option.some.inj ((hlaw hpos).1.symm.trans hlisting)).symm
      · rfl
  | endTransfer hend => exact h

/-- A request before its first listing. -/
structure Fresh (c : Client) : Prop where
  count : c.request.params.count = 0
  returned : c.returned = []

/-- In a run of careful steps entries are left only in a message of the listing in progress
with the next of them at its cursor, and every listing returns entries of its own. -/
theorem careful_listings (c c' : Client) (hfresh : Fresh c)
    (hrun : Reaches Step Careful c c') : CountLaw c' ∧ OwnEntries c' := by
  refine hrun.invariant (fun c => CountLaw c ∧ OwnEntries c) ⟨CountLaw.of_zero hfresh.count, ?_⟩ ?_
  · intro p hp
    simp [hfresh.returned] at hp
  · intro c event c' h hcareful hstep
    exact ⟨countLaw_step h.1 hcareful hstep, ownEntries_step h.1 h.2 hstep⟩

/-- A request that is connected and has listed nothing. -/
def freshClient : Client where
  request := freshRequest
  listing := none
  started := 0
  origin := 0
  taken := 0
  returned := []

/-- The entry a, without attributes. -/
def plainEntry : NamedEntry where
  name := [97]
  longname := []
  attrs := { flags := 0, size := 0, uid := 0, gid := 0, permissions := 0, atime := 0, mtime := 0,
             extended := [], count := by decide, short := by simp }
  nameFits := by decide
  longnameFits := by decide

/-- A NAME response of two entries. -/
def twoNames : Bytes := be32 0 ++ (be32 2 ++ (plainEntry.encode ++ plainEntry.encode))

def twoNamesStream : Stream GftpError := [.ok [0, 0, 0, 35, 104], .ok twoNames]

def listed : Client := freshClient.begins (.ok ()) { freshRequest with cached := true }

/-- What the first call leaves of the message. -/
def onceTaken : SshRequest where
  params := { freshRequest.params with
              count := 1
              message := { length := 35, command := sshFxpName, buffer := some (twoNames ++ [0, 0]),
                           pos := 21, endPos := 34 } }
  connected := true
  cached := true
  lastDirEntry := none

def firstTaken : NextFile SshRequest where
  ret := .ok 13
  fle := { GftpFile.cleared with file := some [97] }
  request := onceTaken
  stream := []

theorem first_taken (written : UInt32 → Except GftpError Unit) :
    sshv2GetNextFile written listed.request twoNamesStream = .ok firstTaken := by
  rfl

theorem twoNames_takeable (reader : SshRequest) (r : ReadResult)
    (h : sshv2ReadResponse reader twoNamesStream = .ok r) :
    wordAt (r.message.buffer.getD []) 4 = .ok 2 ∧ TwoEntries { r.message with pos := 8 } := by
  have hread : sshv2ReadResponse reader twoNamesStream =
      .ok { ret := .ok sshFxpName
            message := { onceTaken.params.message with pos := 0 }
            request := reader
            stream := [] } := by rfl
  rw [hread] at h
  obtain rfl := Except.ok.inj h
  refine ⟨by rfl, plainEntry, plainEntry, [], ⟨be32 0 ++ be32 2, by rfl, by rfl, by rfl⟩, ?_, ?_⟩
  · intro flags hflags htimes
    obtain rfl : (0 : UInt32) = flags := Option.some.inj hflags
    exact absurd htimes (by decide)
  · intro flags count hflags hpairs
    obtain rfl : (0 : UInt32) = flags := Option.some.inj hflags
    exact absurd hpairs (by decide)

theorem listed_step : Step freshClient (.listFiles true [] (.ok ()) []) listed := .listFiles rfl

theorem first_step : Step listed (.getNextFile (fun _ => .ok ()) twoNamesStream)
    (listed.takes 1 firstTaken) := .getNextFile rfl (first_taken _)

/-- The first of two entries from the cache. -/
theorem one_entry_left :
    CountLaw (listed.takes 1 firstTaken) ∧ OwnEntries (listed.takes 1 firstTaken) := by
  apply careful_listings freshClient _ ⟨rfl, rfl⟩
  have hlisted : Reaches Step Careful freshClient listed :=
    (Reaches.refl _).tail (a := .listFiles true [] (.ok ()) []) (Or.inl rfl) listed_step
  apply hlisted.tail (a := .getNextFile (fun _ => .ok ()) twoNamesStream) _ first_step
  show NextFits listed.request twoNamesStream
  unfold NextFits
  rw [if_neg (by decide)]
  intro reader r announced hread _ hword
  obtain ⟨hcount, htwo⟩ := twoNames_takeable reader r hread
  obtain rfl : 2 = announced := Except.ok.inj (hcount.symm.trans hword)
  exact ⟨fun h => absurd h (by decide), fun h => absurd h (by decide), fun _ => htwo⟩

/-- A listing from the cache that was ended early goes on in the next one. -/
theorem stale_entry_returned :
    ¬ ∀ c c' : Client, Fresh c → Reaches Step (fun _ _ => True) c c' →
      CountLaw c' ∧ OwnEntries c' := by
  intro h
  have hfirst : Reaches Step (fun _ _ => True) freshClient (listed.takes 1 firstTaken) :=
    ((Reaches.refl _).tail trivial listed_step).tail trivial first_step
  have hended := hfirst.tail (a := .endTransfer (fun _ => .ok ()) []) trivial (.endTransfer rfl)
  have hagain := hended.tail (a := .listFiles true [] (.ok ()) []) trivial (.listFiles rfl)
  have hsecond := hagain.tail (a := .getNextFile (fun _ => .ok ()) []) trivial
    (.getNextFile rfl rfl)
  have hown := (h _ _ ⟨rfl, rfl⟩ hsecond).2 (2, 1) (List.mem_cons_self ..)
  exact absurd hown (by decide)

end Gftp.SshListState
