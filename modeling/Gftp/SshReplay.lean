import Gftp.SshDecoding

/-!
A cached SFTP listing repeats the live one. The responses to READDIR are NAME
messages and then a STATUS message. Between two rounds of either listing the message
in place holds the entries that were not returned yet, and the stream holds the later
responses. A live round stores a response exactly when it has read it, so at the end
the cache file holds the responses as they came.
-/

namespace Gftp.SshReplay

open ByteStrings ByteStreams BigEndian Protocol DirListing SshMessages SshListing SshDecoding

variable {κ : Type}

def encodeAll (entries : List DirEntry) : Bytes := (entries.map DirEntry.encode).flatten

def nameBody (id : UInt32) (entries : List DirEntry) : Bytes :=
  be32 id ++ (be32 (UInt32.ofNat entries.length) ++ encodeAll entries)

/-- A NAME response of one or more entries that the client accepts. -/
structure NameResponse where
  id : UInt32
  first : DirEntry
  others : List DirEntry
  fits : (nameBody id (first :: others)).length + 1 ≤ 34000

def NameResponse.entries (p : NameResponse) : List DirEntry := p.first :: p.others

def NameResponse.body (p : NameResponse) : Bytes := nameBody p.id p.entries

/-- The final response: a status code, its text and its language. -/
structure StatusResponse where
  id : UInt32
  code : UInt32
  texts : Bytes
  fits : texts.length + 9 ≤ 34000

def StatusResponse.body (p : StatusResponse) : Bytes := be32 p.id ++ (be32 p.code ++ p.texts)

structure DirResponses where
  names : List NameResponse
  status : StatusResponse

/-- The responses as they follow each other on the wire. -/
def responseBytes (names : List NameResponse) (status : StatusResponse) : Bytes :=
  (names.map fun p => frame sshFxpName p.body).flatten ++ frame sshFxpStatus status.body

def DirResponses.bytes (d : DirResponses) : Bytes := responseBytes d.names d.status

def DirResponses.entries (d : DirResponses) : List DirEntry :=
  d.names.flatMap NameResponse.entries

/-- A message as it was read. -/
def messageOf (command : UInt8) (body : Bytes) : SshMessage where
  length := body.length + 1
  command := command
  buffer := some (body ++ [0, 0])
  pos := 0
  endPos := body.length

def DirResponses.messages (d : DirResponses) : List SshMessage :=
  d.names.map (fun p => messageOf sshFxpName p.body) ++ [messageOf sshFxpStatus d.status.body]

/-- The messages that successive calls of sshv2_read_response return. -/
def readResponses : ℕ → SshRequest → Stream GftpError → CRun (List SshMessage)
  | 0, _, _ => .ok []
  | n + 1, request, s => do
      let r ← sshv2ReadResponse request s
      match r.ret with
      | .error _ => return []
      | .ok _ =>
          let rest ← readResponses n r.request r.stream
          return r.message :: rest

/-- An entry with its name converted, and the character set afterwards. -/
def shownEntry (C : Charsets κ) (charset : κ) (e : DirEntry) : GftpFile × κ :=
  let utf8 := toUtf8 C charset (cstr e.name)
  ({ e.decoded with file := some utf8.1 }, utf8.2)

/-- The entries of a listing with their names converted one after the other. -/
def shownEntries (C : Charsets κ) : κ → List DirEntry → List (ℕ × GftpFile)
  | _, [] => []
  | charset, e :: es =>
      (e.encode.length, (shownEntry C charset e).1) :: shownEntries C (shownEntry C charset e).2 es

theorem shownEntries_length (C : Charsets κ) (charset : κ) (es : List DirEntry) :
    (shownEntries C charset es).length = es.length := by
  induction es generalizing charset with
  | nil => rfl
  | cons e es ih => simp [shownEntries, ih]

theorem log_response {dontLogStatus : Bool} {type : UInt8} {a b : UInt32} {rest : Bytes}
    (htype : type ∈ [sshFxpStatus, sshFxpName]) :
    sshv2LogCommand dontLogStatus type (be32 a ++ (be32 b ++ rest) ++ [0, 0]) = .ok () := by
  have hlen : 8 ≤ (be32 a ++ (be32 b ++ rest) ++ [0, 0]).length := by
    simp only [List.length_append, be32_length]
    omega
  refine logCommand_ok ?_ (by omega) fun _ => hlen
  simp only [List.mem_cons, List.not_mem_nil, or_false] at htype ⊢
  tauto

theorem read_name (request : SshRequest) {s : Stream GftpError} {rest : Bytes}
    (p : NameResponse) (hs : Plain s) (hc : contents s = frame sshFxpName p.body ++ rest) :
    ∃ s', sshv2ReadResponse request s = .ok
        { ret := .ok sshFxpName, message := messageOf sshFxpName p.body, request := request,
          stream := s' } ∧ contents s' = rest ∧ Plain s' :=
  readResponse_frame hs hc p.fits (log_response (by simp))

theorem read_status (request : SshRequest) {s : Stream GftpError} {rest : Bytes}
    (p : StatusResponse) (hs : Plain s) (hc : contents s = frame sshFxpStatus p.body ++ rest) :
    ∃ s', sshv2ReadResponse request s = .ok
        { ret := .ok sshFxpStatus, message := messageOf sshFxpStatus p.body, request := request,
          stream := s' } ∧ contents s' = rest ∧ Plain s' := by
  refine readResponse_frame hs hc ?_ (log_response (by simp))
  have hfits := p.fits
  simp only [StatusResponse.body, List.length_append, be32_length]
  omega

theorem readResponses_succ {n : ℕ} {request : SshRequest} {s : Stream GftpError} {r : ReadResult}
    {command : UInt8} {messages : List SshMessage} (hread : sshv2ReadResponse request s = .ok r)
    (hret : r.ret = .ok command) (hrest : readResponses n r.request r.stream = .ok messages) :
    readResponses (n + 1) request s = .ok (r.message :: messages) := by
  simp only [readResponses, hread, hret, hrest, CRun.ok_bind]
  rfl

/-- Any stream that holds the responses gives them in order. -/
theorem readResponses_bytes {request : SshRequest} {s : Stream GftpError} (d : DirResponses)
    (hs : Plain s) (hc : contents s = d.bytes) :
    readResponses (d.names.length + 1) request s = .ok d.messages := by
  obtain ⟨names, status⟩ := d
  induction names generalizing s with
  | nil =>
    obtain ⟨s', hread, -, -⟩ := read_status request status hs
      (show contents s = frame sshFxpStatus status.body ++ [] by rw [hc, List.append_nil]; rfl)
    exact readResponses_succ hread rfl rfl
  | cons p names ih =>
    obtain ⟨s', hread, hc', hs'⟩ := read_name request p hs
      (show contents s = frame sshFxpName p.body ++ responseBytes names status by
        rw [hc]
        simp [DirResponses.bytes, responseBytes])
    exact readResponses_succ hread rfl (ih hs' hc')

/-- The handle of an open directory. -/
structure HandleOpen (params : SshParams) : Prop extends HandleStored params where
  size : params.handle.length = sshMaxHandleSize + 4

theorem HandleOpen.of_eq {params params' : SshParams} (h : HandleOpen params)
    (hhandle : params'.handle = params.handle) (hlen : params'.handleLen = params.handleLen) :
    HandleOpen params' :=
  ⟨⟨hlen ▸ h.lower, hhandle ▸ hlen ▸ h.upper⟩, hhandle ▸ h.size⟩

/-- The request after its READDIR command. -/
def numbered (request : SshRequest) : SshRequest :=
  { request with
    params := { request.params with
      id := request.params.id + 1
      handle := be32 request.params.id ++ request.params.handle.drop 4
      message := SshMessage.freed } }

theorem numbered_open {request : SshRequest} (h : HandleOpen request.params) :
    HandleOpen (numbered request).params := by
  have hlen : (numbered request).params.handle.length = request.params.handle.length := by
    have hsize := h.size
    simp only [numbered, List.length_append, be32_length, List.length_drop, sshMaxHandleSize] at *
    omega
  exact ⟨⟨h.lower, hlen ▸ h.upper⟩, hlen ▸ h.size⟩

theorem sendReaddir_eq {request : SshRequest} {written : UInt32 → Except GftpError Unit}
    (h : HandleOpen request.params) (hwritten : ∀ id, written id = .ok ()) :
    ∃ sent, sendReaddir request written =
      .ok { ret := .ok (), sent := sent, request := numbered request } := by
  have hupper := (numbered_open h).upper
  have hsize : request.params.handle.length = 260 := h.size
  have hroom : 0 + (be32 request.params.id).length ≤ request.params.handle.length := by
    rw [be32_length]
    omega
  have hcommand : ((numbered request).params.handle.take request.params.handleLen).length =
      request.params.handleLen := List.length_take_of_le hupper
  have hlower := h.lower
  have hbound := h.upper
  have hsend := @sendCommand_eq (numbered request) sshFxpReaddir
    ((numbered request).params.handle.take request.params.handleLen) (.ok ()) (by omega)
    (logCommand_ok (by simp) (by rw [List.length_append]; omega) fun h => absurd h (by decide))
  apply Exists.intro
  unfold sendReaddir
  dsimp only
  rw [overwrite_ok hroom, hwritten]
  simp only [CRun.ok_bind, List.take_zero, List.nil_append, Nat.zero_add, be32_length]
  exact (if_pos hupper).trans hsend

/-- The request of a call that reads a response, when it reads it. -/
def asked (request : SshRequest) : SshRequest :=
  if request.cached then { request with lastDirEntry := none }
  else numbered { request with lastDirEntry := none }

theorem getNextFile_asks {request : SshRequest} {written : UInt32 → Except GftpError Unit}
    (s : Stream GftpError) (hcount : request.params.count = 0)
    (hopen : request.cached = false → HandleOpen request.params)
    (hwritten : request.cached = false → ∀ id, written id = .ok ()) :
    sshv2GetNextFile written request s = nextResponse (asked request) s := by
  have hdone : ¬ (0 < request.params.count) := by simp [hcount]
  unfold sshv2GetNextFile asked
  dsimp only
  rw [if_neg hdone]
  by_cases hmode : request.cached = true
  · rw [if_pos hmode, if_pos hmode]
  · obtain ⟨sent, hsend⟩ := @sendReaddir_eq { request with lastDirEntry := none } written
      (hopen (by simpa using hmode)) (hwritten (by simpa using hmode))
    rw [if_neg hmode, if_neg hmode, hsend]
    rfl

theorem asked_cached (request : SshRequest) : (asked request).cached = request.cached := by
  unfold asked
  split <;> rfl

theorem asked_count (request : SshRequest) : (asked request).params.count = request.params.count := by
  unfold asked
  split <;> rfl

theorem asked_open {request : SshRequest} (h : HandleOpen request.params)
    (hlive : request.cached = false) : HandleOpen (asked request).params := by
  unfold asked
  rw [if_neg (by simp [hlive])]
  exact @numbered_open { request with lastDirEntry := none } h

theorem dirEntryBytes_messageOf (command : UInt8) (body : Bytes) :
    dirEntryBytes (messageOf command body) = frame command body := by
  simp [dirEntryBytes, messageOf, frame]

theorem keepResponse_eq (request : SshRequest) (message : SshMessage) :
    keepResponse request message =
      { request.setMessage message with
        lastDirEntry :=
          if request.cached then request.lastDirEntry else some (dirEntryBytes message) } := by
  unfold keepResponse
  split <;> rfl

/-- A NAME message behind its number and its count. -/
def nameMessage (p : NameResponse) : SshMessage :=
  advance { messageOf sshFxpName p.body with pos := 4 } 4

theorem nameMessage_count (p : NameResponse) :
    Unread { messageOf sshFxpName p.body with pos := 4 }
      (be32 (UInt32.ofNat p.entries.length) ++ encodeAll p.entries) :=
  ⟨be32 p.id, by simp [messageOf, NameResponse.body, nameBody], rfl,
    by simp [messageOf, NameResponse.body, nameBody]⟩

theorem useResponse_name {r : ReadResult} {p : NameResponse}
    (hmessage : r.message = messageOf sshFxpName p.body) :
    useResponse r sshFxpName = takeEntry
      ((r.request.setMessage (nameMessage p)).setCount (UInt32.ofNat p.entries.length)) r.stream := by
  have htake := takes_int32 (UInt32.ofNat p.entries.length) r.request _ _ (nameMessage_count p)
  dsimp only at htake
  unfold useResponse nameMessage
  rw [if_pos rfl, hmessage]
  dsimp only
  rw [htake, be32_length, CRun.ok_bind]

theorem nameMessage_unread (p : NameResponse) :
    Unread (nameMessage p) (encodeAll p.entries) := (nameMessage_count p).advance

/-- A request with the given entries pending in its message. -/
structure Holding (cached : Bool) (request : SshRequest) (pending : List DirEntry) : Prop where
  mode : request.cached = cached
  handle : cached = false → HandleOpen request.params
  count : request.params.count = UInt32.ofNat pending.length
  fits : (encodeAll pending).length ≤ sshMaxStringSize
  message : pending ≠ [] → Unread request.params.message (encodeAll pending)

/-- What a listing holds between two rounds: the entries pending, the bytes still to come
and the bytes stored so far. -/
structure Ready (cached : Bool) (l : ListRequest SshRequest κ) (pending : List DirEntry)
    (bytes stored : Bytes) : Prop where
  holding : Holding cached l.request pending
  plain : Plain (source cached l)
  content : contents (source cached l) = bytes
  storing : Storing cached l stored

section Steps

variable {C : Charsets κ} {written : UInt32 → Except GftpError Unit} {cached : Bool}
  {l : ListRequest SshRequest κ} {pending : List DirEntry} {bytes stored : Bytes}

theorem Ready.readsCache (h : Ready cached l pending bytes stored) :
    readsCache (sshListProtocol written) l = cached :=
  h.storing.readsCache h.holding.mode

/-- A round after which the entries es are pending and the bytes more are to come. -/
theorem round_ready {r : NextFile SshRequest} {n : ℕ} {shown : GftpFile × κ}
    {es : List DirEntry} {more : Bytes} (h : Ready cached l pending bytes stored)
    (hnext : sshv2GetNextFile written l.request (source cached l) = .ok r) (hret : r.ret = .ok n)
    (hshow : showEntry C l.charset true r.fle = some shown) (hholding : Holding cached r.request es)
    (hs : Plain r.stream) (hc : contents r.stream = more) :
    ∃ r', nextRound (sshListProtocol written) C cached l = .ok r' ∧ r'.ret = .ok n ∧
      r'.fle = shown.1 ∧ r'.request.charset = shown.2 ∧
      Ready cached r'.request es more (stored ++ storedBy cached r.request.lastDirEntry) := by
  obtain ⟨r', hround, hret', hfle, hcharset, hrequest, hsource, hstoring⟩ :=
    @Storing.round _ _ (sshListProtocol written) C _ _ _ _ _ _ h.storing hnext hret hshow
      hholding.mode
  exact ⟨r', hround, hret', hfle, hcharset, hrequest ▸ hholding, hsource ▸ hs, hsource ▸ hc,
    hstoring⟩

theorem encodeAll_cons (e : DirEntry) (es : List DirEntry) :
    encodeAll (e :: es) = e.encode ++ encodeAll es := rfl

theorem length_le_encodeAll (es : List DirEntry) : es.length ≤ (encodeAll es).length := by
  induction es with
  | nil => exact Nat.le_refl 0
  | cons e es ih =>
    have hpos := encode_length_pos e
    rw [encodeAll_cons, List.length_append, List.length_cons]
    omega

theorem takeEntry_pending {request : SshRequest} {e : DirEntry} {es : List DirEntry}
    (s : Stream GftpError) (h : Holding cached request (e :: es)) :
    ∃ r, takeEntry request s = .ok r ∧ r.ret = .ok e.encode.length ∧ r.fle = e.decoded ∧
      r.stream = s ∧ r.request.lastDirEntry = request.lastDirEntry ∧
      Holding cached r.request es := by
  have hmessage : Unread request.params.message (e.encode ++ encodeAll es) :=
    h.message (List.cons_ne_nil e es)
  have hfits := h.fits
  rw [encodeAll_cons, List.length_append] at hfits
  refine ⟨_, takeEntry_encode s hmessage (by omega), rfl, rfl, rfl, rfl, h.mode,
    fun hlive => (h.handle hlive).of_eq rfl rfl, ?_, by omega, fun _ => hmessage.advance⟩
  have hcount := h.count
  simp only [SshRequest.setCount, SshRequest.setMessage, hcount, List.length_cons,
    UInt32.ofNat_add]
  exact UInt32.add_sub_cancel ..

theorem count_pos {request : SshRequest} {e : DirEntry} {es : List DirEntry}
    (h : Holding cached request (e :: es)) : 0 < request.params.count := by
  have hlen := length_le_encodeAll (e :: es)
  have hfits := h.fits
  unfold sshMaxStringSize at hfits
  have hcount : request.params.count.toNat = (e :: es).length := by
    rw [h.count, UInt32.toNat_ofNat']
    omega
  rw [UInt32.lt_iff_toNat_lt, hcount]
  exact Nat.succ_pos _

theorem showEntry_decoded (C : Charsets κ) (charset : κ) (e : DirEntry) :
    showEntry C charset true e.decoded = some (shownEntry C charset e) := by
  apply showEntry_plain rfl
  intro h
  exact e.noSlash (List.takeWhile_subset _ h)

/-- What a round that returns an entry leaves. -/
structure RoundGives (C : Charsets κ) (cached : Bool) (l : ListRequest SshRequest κ)
    (e : DirEntry) (es : List DirEntry) (bytes stored : Bytes) (r : Round SshRequest κ) :
    Prop where
  ret : r.ret = .ok e.encode.length
  fle : r.fle = (shownEntry C l.charset e).1
  charset : r.request.charset = (shownEntry C l.charset e).2
  ready : Ready cached r.request es bytes stored

theorem round_entry {request : SshRequest} {s : Stream GftpError} {e : DirEntry}
    {es : List DirEntry} {more : Bytes} (h : Ready cached l pending bytes stored)
    (hnext : sshv2GetNextFile written l.request (source cached l) = takeEntry request s)
    (hholding : Holding cached request (e :: es)) (hs : Plain s) (hc : contents s = more) :
    ∃ r, nextRound (sshListProtocol written) C cached l = .ok r ∧
      RoundGives C cached l e es more (stored ++ storedBy cached request.lastDirEntry) r := by
  obtain ⟨r, htake, hret, hfle, hstream, hentry, hrest⟩ := takeEntry_pending s hholding
  have hshow : showEntry C l.charset true r.fle = some (shownEntry C l.charset e) := by
    rw [hfle, showEntry_decoded]
  obtain ⟨r', hround, hret', hfle', hcharset', hready⟩ :=
    round_ready h (hnext.trans htake) hret hshow hrest (hstream ▸ hs) (hstream ▸ hc)
  rw [hentry] at hready
  exact ⟨r', hround, hret', hfle', hcharset', hready⟩

/-- A round that finds an entry pending reads and stores nothing. -/
theorem round_pending {e : DirEntry} {es : List DirEntry}
    (h : Ready cached l (e :: es) bytes stored) :
    ∃ r, nextRound (sshListProtocol written) C cached l = .ok r ∧
      RoundGives C cached l e es bytes stored r := by
  have hholding : Holding cached { l.request with lastDirEntry := none } (e :: es) :=
    ⟨h.holding.mode, h.holding.handle, h.holding.count, h.holding.fits, h.holding.message⟩
  have hnext : sshv2GetNextFile written l.request (source cached l) =
      takeEntry { l.request with lastDirEntry := none } (source cached l) := by
    unfold sshv2GetNextFile
    rw [if_pos (count_pos hholding)]
  obtain ⟨r, hround, hgives⟩ := round_entry h hnext hholding h.plain h.content
  rw [storedBy_none, List.append_nil] at hgives
  exact ⟨r, hround, hgives⟩

theorem storedBy_response (command : UInt8) (body : Bytes) {request : SshRequest}
    (hmode : request.cached = cached) :
    storedBy cached (keepResponse (asked request) (messageOf command body)).lastDirEntry =
      storedBy cached (some (frame command body)) := by
  rw [keepResponse_eq, dirEntryBytes_messageOf, asked_cached, hmode]
  unfold storedBy
  split <;> rfl

theorem holding_name (p : NameResponse) {request : SshRequest}
    (h : Holding cached request []) :
    Holding cached (((keepResponse (asked request) (messageOf sshFxpName p.body)).setMessage
      (nameMessage p)).setCount (UInt32.ofNat p.entries.length)) p.entries := by
  have hfits : (encodeAll p.entries).length ≤ sshMaxStringSize := by
    have hbody := p.fits
    unfold nameBody at hbody
    simp only [List.length_append, be32_length] at hbody
    unfold sshMaxStringSize NameResponse.entries
    omega
  rw [keepResponse_eq]
  refine ⟨(asked_cached request).trans h.mode, ?_, rfl, hfits, fun _ => nameMessage_unread p⟩
  intro hlive
  exact (asked_open (h.handle hlive) (h.mode.trans hlive)).of_eq rfl rfl

/-- A round with nothing pending reads a NAME response, stores it and returns its first
entry. -/
theorem round_name {p : NameResponse} {more : Bytes}
    (h : Ready cached l [] (frame sshFxpName p.body ++ more) stored)
    (hwritten : cached = false → ∀ id, written id = .ok ()) :
    ∃ r, nextRound (sshListProtocol written) C cached l = .ok r ∧
      RoundGives C cached l p.first p.others more
        (stored ++ storedBy cached (some (frame sshFxpName p.body))) r := by
  have hmode := h.holding.mode
  obtain ⟨s, hread, hc, hs⟩ := read_name (asked l.request) p h.plain h.content
  have hasks := getNextFile_asks (source cached l) h.holding.count
    (fun hlive => h.holding.handle (hmode ▸ hlive)) (fun hlive => hwritten (hmode ▸ hlive))
  have hnext : sshv2GetNextFile written l.request (source cached l) =
      takeEntry (((keepResponse (asked l.request) (messageOf sshFxpName p.body)).setMessage
        (nameMessage p)).setCount (UInt32.ofNat p.entries.length)) s := by
    rw [hasks, nextResponse, hread, CRun.ok_bind]
    exact useResponse_name rfl
  obtain ⟨r, hround, hgives⟩ := round_entry h hnext (holding_name p h.holding) hs hc
  exact ⟨r, hround, storedBy_response sshFxpName p.body hmode ▸ hgives⟩

theorem round_status {p : StatusResponse} (h : Ready cached l [] (frame sshFxpStatus p.body) stored)
    (hwritten : cached = false → ∀ id, written id = .ok ()) :
    ∃ r, nextRound (sshListProtocol written) C cached l = .ok r ∧ r.ret = .ok 0 ∧
      Ready cached r.request [] []
        (stored ++ storedBy cached (some (frame sshFxpStatus p.body))) := by
  have hmode := h.holding.mode
  obtain ⟨s, hread, hc, hs⟩ := read_status (asked l.request) p h.plain
    (show _ = frame sshFxpStatus p.body ++ [] by rw [List.append_nil]; exact h.content)
  have hasks := getNextFile_asks (source cached l) h.holding.count
    (fun hlive => h.holding.handle (hmode ▸ hlive)) (fun hlive => hwritten (hmode ▸ hlive))
  have hnext : sshv2GetNextFile written l.request (source cached l) =
      .ok (noEntry (.ok 0) ((keepResponse (asked l.request)
        (messageOf sshFxpStatus p.body)).setMessage SshMessage.freed) s) := by
    rw [hasks, nextResponse, hread, CRun.ok_bind]
    rfl
  have hholding : Holding cached ((keepResponse (asked l.request)
      (messageOf sshFxpStatus p.body)).setMessage SshMessage.freed) [] := by
    rw [keepResponse_eq]
    refine ⟨(asked_cached l.request).trans hmode, ?_, (asked_count l.request).trans h.holding.count,
      Nat.zero_le _, fun hne => absurd rfl hne⟩
    intro hlive
    exact (asked_open (h.holding.handle hlive) (hmode.trans hlive)).of_eq rfl rfl
  obtain ⟨r, hround, hret, -, -, hready⟩ := round_ready h hnext rfl rfl hholding hs hc
  exact ⟨r, hround, hret, storedBy_response sshFxpStatus p.body hmode ▸ hready⟩

theorem shownEntries_append (charset : κ) (es es' : List DirEntry) :
    shownEntries C charset (es ++ es') = shownEntries C charset es ++
      shownEntries C (es.foldl (fun k e => (shownEntry C k e).2) charset) es' := by
  induction es generalizing charset with
  | nil => rfl
  | cons e es ih => simp only [List.cons_append, shownEntries, ih, List.foldl_cons]

/-- The rounds that take the pending entries lead to the later responses. -/
theorem rounds_pending {later : κ → List (ℕ × GftpFile)}
    {P : ListRequest SshRequest κ → Prop}
    (hlater : ∀ l, Ready cached l [] bytes stored →
      ∃ l', Rounds (sshListProtocol written) C cached l (later l.charset) l' ∧ P l')
    (h : Ready cached l pending bytes stored) :
    ∃ l', Rounds (sshListProtocol written) C cached l
      (shownEntries C l.charset pending ++
        later (pending.foldl (fun k e => (shownEntry C k e).2) l.charset)) l' ∧ P l' := by
  induction pending generalizing l with
  | nil => exact hlater l h
  | cons e es ih =>
    obtain ⟨r, hround, hgives⟩ := @round_pending _ C written _ _ _ _ _ _ h
    obtain ⟨l', hrest, hP⟩ := ih hgives.ready
    refine ⟨l', ?_, hP⟩
    have hentry := Rounds.entry hround hgives.ret (by have := encode_length_pos e; omega)
      hgives.ready.readsCache hrest
    rw [hgives.fle, hgives.charset] at hentry
    exact hentry

/-- The rounds of a listing return the entries of its responses in order and store the
responses. -/
theorem rounds_responses {names : List NameResponse} {status : StatusResponse}
    (h : Ready cached l pending (responseBytes names status) stored)
    (hwritten : cached = false → ∀ id, written id = .ok ()) :
    ∃ l', Rounds (sshListProtocol written) C cached l
        (shownEntries C l.charset (pending ++ names.flatMap NameResponse.entries)) l' ∧
      Ready cached l' [] [] (stored ++ storedBy cached (some (responseBytes names status))) := by
  rw [shownEntries_append]
  induction names generalizing l pending stored with
  | nil =>
    refine @rounds_pending _ C written cached l pending _ stored (fun _ => []) _ ?_ h
    intro l hready
    obtain ⟨r, hround, hret, hend⟩ := @round_status _ C written _ _ _ status hready hwritten
    exact ⟨r.request, Rounds.done hround hret, hend⟩
  | cons p names ih =>
    have hbytes : responseBytes (p :: names) status =
        frame sshFxpName p.body ++ responseBytes names status := by
      simp [responseBytes]
    rw [hbytes] at h ⊢
    refine @rounds_pending _ C written cached l pending _ stored (fun charset =>
      shownEntries C charset ((p :: names).flatMap NameResponse.entries)) _ ?_ h
    intro l hready
    obtain ⟨r, hround, hgives⟩ := @round_name _ C written _ _ _ p _ hready hwritten
    obtain ⟨l', hrest, hend⟩ := ih hgives.ready
    refine ⟨l', ?_, ?_⟩
    · have hentry := Rounds.entry hround hgives.ret
        (by have := encode_length_pos p.first; omega) hgives.ready.readsCache hrest
      rw [hgives.fle, hgives.charset, ← shownEntries_append] at hentry
      exact hentry
    · rw [List.append_assoc, storedBy_append] at hend
      exact hend

end Steps

/-- A request before its first entry. -/
structure Fresh (cached : Bool) (l : ListRequest SshRequest κ) (bytes : Bytes) : Prop where
  mode : l.request.cached = cached
  handle : cached = false → HandleOpen l.request.params
  count : l.request.params.count = 0
  plain : Plain (source cached l)
  content : contents (source cached l) = bytes

theorem Fresh.ready {cached : Bool} {l : ListRequest SshRequest κ} {bytes : Bytes} {fd : CacheFd}
    (h : Fresh cached l bytes) (hfd : l.cachefd = some fd)
    (hroom : cached = false → fd.room = none) : Ready cached l [] bytes fd.written :=
  ⟨⟨h.mode, h.handle, h.count, Nat.zero_le _, fun hne => absurd rfl hne⟩, h.plain, h.content, fd,
    hfd, fun hlive => ⟨hroom hlive, rfl⟩⟩

theorem listing_responses {C : Charsets κ} {written : UInt32 → Except GftpError Unit}
    {cached : Bool} {l : ListRequest SshRequest κ} {d : DirResponses} {fd : CacheFd}
    {fuel : ℕ} (shown : Bytes → Bool) (h : Fresh cached l d.bytes) (hfd : l.cachefd = some fd)
    (hroom : cached = false → fd.room = none)
    (hwritten : cached = false → ∀ id, written id = .ok ()) (hfuel : d.entries.length < fuel) :
    ∃ l', listing (sshListProtocol written) C shown fuel l =
        .ok { entries := matching shown (shownEntries C l.charset d.entries), ret := .ok 0,
              request := l' } ∧
      Ready cached l' [] [] (fd.written ++ storedBy cached (some d.bytes)) := by
  have hready := h.ready hfd hroom
  obtain ⟨l', hrounds, hend⟩ := @rounds_responses _ C _ _ _ _ _ _ _ hready hwritten
  rw [List.nil_append] at hrounds
  exact ⟨l', listing_of_rounds hrounds hready.readsCache
    (by rw [shownEntries_length]; exact hfuel), hend⟩

/-- The bytes a live listing stores are its responses in order, each once. Every cached
listing of them reads the same messages and returns the same entries in the same order,
their names converted by the character set of its request, and then ends. -/
theorem cached_listing_replays {C : Charsets κ} {written : UInt32 → Except GftpError Unit}
    {shown : Bytes → Bool} {fuel : ℕ} {live : ListRequest SshRequest κ} {fd : CacheFd}
    (d : DirResponses) (hlive : Fresh false live d.bytes) (hfd : live.cachefd = some fd)
    (hempty : fd.written = []) (hroom : fd.room = none) (hwritten : ∀ id, written id = .ok ())
    (hfuel : d.entries.length < fuel) :
    ∃ live' stored, listing (sshListProtocol written) C shown fuel live =
        .ok { entries := matching shown (shownEntries C live.charset d.entries), ret := .ok 0,
              request := live' } ∧
      live'.cachefd.map CacheFd.written = some stored ∧
      ∀ (written' : UInt32 → Except GftpError Unit) (replay : ListRequest SshRequest κ),
        replay.cachefd.isSome = true → Fresh true replay stored →
        (readResponses (d.names.length + 1) replay.request (source true replay) =
          readResponses (d.names.length + 1) live.request (source false live)) ∧
        ∃ replay', listing (sshListProtocol written') C shown fuel replay =
          .ok { entries := matching shown (shownEntries C replay.charset d.entries), ret := .ok 0,
                request := replay' } := by
  obtain ⟨live', hlisting, hend⟩ := listing_responses shown hlive hfd (fun _ => hroom)
    (fun _ => hwritten) hfuel
  obtain ⟨fd', hfd', hstored⟩ := hend.storing
  refine ⟨live', d.bytes, hlisting, ?_, ?_⟩
  · rw [hfd', Option.map_some, (hstored rfl).2, hempty]
    rfl
  · intro written' replay hopen hreplay
    obtain ⟨fdr, hfdr⟩ := Option.isSome_iff_exists.mp hopen
    refine ⟨?_, ?_⟩
    · rw [readResponses_bytes d hreplay.plain hreplay.content,
        readResponses_bytes d hlive.plain hlive.content]
    · obtain ⟨replay', hlisting', -⟩ := listing_responses shown hreplay hfdr (by simp) (by simp) hfuel
      exact ⟨replay', hlisting'⟩

/-- Names are ASCII and need no conversion. -/
def asciiNames : Charsets Unit where
  utf8Validate file := file.all (· < 128)
  filenameToUtf8 charset _ := (none, charset)

def plainFile : DirEntry where
  name := ascii "a"
  longname := ascii "-rw- a"
  flags := 5
  size := 7
  uid := 0
  gid := 0
  permissions := 0o100644
  atime := 0
  mtime := 0
  noSlash := by decide
  noExtended := by decide

def bareFile : DirEntry :=
  { plainFile with
    name := ascii "b"
    flags := 0
    noSlash := by decide
    noExtended := by decide }

def twoFiles : DirResponses where
  names := [⟨1, plainFile, [bareFile], by decide⟩]
  status := ⟨2, 1, [], by decide⟩

def listRequest (cached : Bool) (data file : Bytes) : ListRequest SshRequest Unit where
  request := {
    params := {
      handle := List.replicate 260 0
      handleLen := 12
      transferBuffer := none
      id := 0
      count := 0
      message := SshMessage.freed
      dontLogStatus := false
      offset := 0 }
    connected := true
    cached := cached
    lastDirEntry := none }
  charset := ()
  data := ofFile data
  cachefd := some { unread := ofFile file, written := [], room := none }

theorem listRequest_fresh (cached : Bool) (d : Bytes) :
    Fresh cached (listRequest cached d d) d := by
  have hsize : (listRequest cached d d).request.params.handle.length = 260 := List.length_replicate
  have hlen : (listRequest cached d d).request.params.handleLen = 12 := rfl
  refine ⟨rfl, fun _ => ⟨⟨?_, ?_⟩, hsize⟩, rfl, ?_, ?_⟩
  · rw [hlen]
    omega
  · rw [hlen, hsize]
    omega
  · cases cached <;> exact plain_ofFile d
  · cases cached <;> exact contents_ofFile d

/-- Two entries of one response are stored together and replayed one by one. -/
theorem two_files_replay :
    ∃ live' replay' stored,
      listing (sshListProtocol fun _ => .ok ()) asciiNames (fun _ => true) 3
          (listRequest false twoFiles.bytes twoFiles.bytes) =
        .ok { entries := matching (fun _ => true) (shownEntries asciiNames () twoFiles.entries)
              ret := .ok 0, request := live' } ∧
      live'.cachefd.map CacheFd.written = some stored ∧
      listing (sshListProtocol fun _ => .error .fatal) asciiNames (fun _ => true) 3
          (listRequest true stored stored) =
        .ok { entries := matching (fun _ => true) (shownEntries asciiNames () twoFiles.entries)
              ret := .ok 0, request := replay' } := by
  obtain ⟨live', stored, hlive, hstored, hreplay⟩ :=
    @cached_listing_replays _ asciiNames (fun _ => .ok ()) (fun _ => true) 3
      (listRequest false twoFiles.bytes twoFiles.bytes) _ twoFiles
      (listRequest_fresh false twoFiles.bytes) rfl rfl rfl (fun _ => rfl) (by decide)
  obtain ⟨-, replay', hlisting⟩ := hreplay (fun _ => .error .fatal)
    (listRequest true stored stored) rfl (listRequest_fresh true stored)
  exact ⟨live', replay', stored, hlive, hstored, hlisting⟩

end Gftp.SshReplay
