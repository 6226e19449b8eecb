import Gftp.HttpResponses

/-!
Bodies with a Content-Length. The chunks handed out come first from the line buffer,
whose bytes were received with the header, and then from rfc2068_chunked_read, which
counts the bytes of its own reads only. The two together never end at the announced
length without a further read.
-/

namespace Gftp.HttpBodies

open ByteStrings Cells Cell HttpDecoding HttpResponses LineSource Protocol Sockets

variable {κ : Type} [Cell κ]

section PlainSessions

/-- No chunked transfer is going on. -/
structure Plain (s : Session κ) : Prop where
  chunked : s.chunkedTransfer = false
  extra : s.extraReadBuffer = none
  eof : s.eof = false
  chunkSize : s.chunkSize = 0

/-- The results of rfc2068_chunked_read in a plain session. -/
inductive PlainRead (size : ℕ) (s : Session κ) : Chunk κ → Prop
  | complete (hlen : 0 < s.contentLength) (hall : s.contentLength = s.readBytes) :
      PlainRead size s ({ ret := .ok 0, stored := [] }, s)
  | nothing (hsize : readSize size s = 0) :
      PlainRead size s ({ ret := .ok 0, stored := [nul] }, s)
  | failed (e : GftpError) (fd : Option (Socket κ)) :
      PlainRead size s ({ ret := .error e, stored := [] }, { s with datafd := fd })
  | ended (k : Socket κ) (stream : CellStream Unit κ) (hfd : s.datafd = some k) :
      PlainRead size s ({ ret := .ok 0, stored := [] },
        { s with datafd := some ⟨stream, k.received, k.received :: k.asked⟩ })
  | got (k : Socket κ) (stream : CellStream Unit κ) (d : List κ) (hfd : s.datafd = some k)
      (hd : d ≠ []) :
      PlainRead size s ({ ret := .ok d.length, stored := d ++ [nul] },
        { s with
          readBytes := (s.readBytes + d.length) % 2 ^ 64
          datafd := some ⟨stream, k.received + d.length, k.received :: k.asked⟩ })

theorem receive_plain {size n : ℕ} {s : Session κ} {out : Decoded κ} (hs : Plain s)
    (h : receive [] size n s = .ok out) :
    (n = 0 ∧ out = .returned ({ ret := .ok 0, stored := [nul] }, s)) ∨
      (∃ e fd, out = .returned ({ ret := .error e, stored := [] }, { s with datafd := fd })) ∨
      ∃ k d stream, s.datafd = some k ∧
        out = .returned (if d = [] then ({ ret := .ok 0, stored := [] },
            { s with datafd := some ⟨stream, k.received, k.received :: k.asked⟩ })
          else ({ ret := .ok d.length, stored := d ++ [nul] },
            { s with
              readBytes := (s.readBytes + d.length) % 2 ^ 64
              datafd := some ⟨stream, k.received + d.length, k.received :: k.asked⟩ })) := by
  obtain ⟨hchunked, hextra, heof, hzero⟩ := hs
  unfold receive at h
  by_cases hread : 0 < n
  · rw [if_pos ⟨hread, heof⟩] at h
    rcases gftpFdRead_cases (if size = n then n - 1 else n) s.datafd with
      ⟨e, fd, hgot⟩ | ⟨k, d, stream, hfd, hgot⟩
    · simp only [hgot, Except.ok.injEq] at h
      exact .inr (.inl ⟨e, fd, h.symm⟩)
    · refine .inr (.inr ⟨k, d, stream, hfd, ?_⟩)
      by_cases hd : d = []
      · subst hd
        simp only [hgot, if_true, Except.ok.injEq] at h
        simp [← h]
      · simp [hgot, hd, hzero, decode, hchunked] at h
        simp [← h, hd, hzero, hchunked]
  · rw [if_neg (fun hboth => hread hboth.1), decode] at h
    simp [hchunked] at h
    exact .inl ⟨by omega, h.symm⟩

theorem chunkedRead_plain {size : ℕ} {s : Session κ} {c : Chunk κ} (hs : Plain s)
    (h : rfc2068ChunkedRead size s = .ok c) : PlainRead size s c := by
  have hentered : Plain s.enter := ⟨hs.chunked, hs.extra, hs.eof, hs.chunkSize⟩
  simp only [rfc2068ChunkedRead, chunkedReadPass, startPass, hentered.extra] at h
  by_cases hfull : 0 < s.enter.contentLength ∧ s.enter.contentLength = s.enter.readBytes
  · simp only [if_pos hfull, CRun.ok_bind, finishPass, Except.ok.injEq] at h
    subst h
    exact .complete hfull.1 hfull.2
  · simp only [if_neg hfull] at h
    obtain ⟨out, hout, h⟩ := CRun.bind_eq_ok.mp h
    rcases receive_plain hentered hout with ⟨hn, rfl⟩ | ⟨e, fd, rfl⟩ | ⟨k, d, stream, hfd, rfl⟩
    · simp only [finishPass, Except.ok.injEq] at h
      subst h
      exact .nothing hn
    · simp only [finishPass, Except.ok.injEq] at h
      subst h
      exact .failed e fd
    · by_cases hd : d = []
      · subst hd
        simp only [if_true, finishPass, Except.ok.injEq] at h
        subst h
        exact .ended k stream hfd
      · simp only [if_neg hd, finishPass, Except.ok.injEq] at h
        subst h
        exact .got k stream d hfd hd

end PlainSessions

section Headers

/-- A plain session with this Content-Length. -/
structure PlainWith (n : ℤ) (s : Session κ) : Prop where
  plain : Plain s
  length : s.contentLength = n

theorem chunkedRead_keeps {n : ℤ} (size : ℕ) (s : Session κ) (r : Reading GftpError κ)
    (s' : Session κ) (h : rfc2068ChunkedRead size s = .ok (r, s')) (hs : PlainWith n s) :
    PlainWith n s' := by
  obtain ⟨⟨hchunked, hextra, heof, hzero⟩, hlength⟩ := hs
  cases chunkedRead_plain ⟨hchunked, hextra, heof, hzero⟩ h with
  | complete hlen hall => exact ⟨⟨hchunked, hextra, heof, hzero⟩, hlength⟩
  | nothing hsize => exact ⟨⟨hchunked, hextra, heof, hzero⟩, hlength⟩
  | failed e fd => exact ⟨⟨hchunked, hextra, heof, hzero⟩, hlength⟩
  | ended k stream hfd => exact ⟨⟨hchunked, hextra, heof, hzero⟩, hlength⟩
  | got k stream d hfd hd => exact ⟨⟨hchunked, hextra, heof, hzero⟩, hlength⟩

variable {fuel : ℕ} {n : ℤ} {r r' : Request κ} {tempstr : List κ}

theorem nextLine_keeps {out : Except GftpError (List κ)} (h : nextLine fuel r tempstr = .ok (out, r'))
    (hs : PlainWith n r.session) :
    PlainWith n r'.session ∧ ∀ t, out = .ok t → t = tempstr ∨ r'.rbuf.isSome := by
  simp only [nextLine] at h
  obtain ⟨res, hline, h⟩ := CRun.bind_eq_ok.mp h
  obtain ⟨hstate, hbuffer⟩ := gftpGetLine_keeps chunkedRead_keeps hline hs
  cases hret : res.ret with
  | error e =>
    simp only [hret, pure, Except.pure, Except.ok.injEq, Prod.mk.injEq] at h
    obtain ⟨rfl, rfl⟩ := h
    exact ⟨hstate, by simp⟩
  | ok m =>
    simp only [hret, pure, Except.pure, Except.ok.injEq, Prod.mk.injEq] at h
    obtain ⟨rfl, rfl⟩ := h
    refine ⟨hstate, ?_⟩
    intro t ht
    obtain rfl := Except.ok.inj ht
    by_cases hm : 0 < m
    · exact .inr (hbuffer m hret hm)
    · exact .inl (if_neg hm)

/-- The header ends with an empty line. It was read into the line buffer, unless nothing
was read at all. -/
theorem headerLoop_buffered {lines : ℕ} {chunked c : Bool}
    (h : headerLoop fuel lines tempstr chunked r = .ok (.ok c, r')) (hs : PlainWith n r.session)
    (hfirst : tempstr = [] → n = 0) :
    Plain r'.session ∧ (r'.session.contentLength = 0 ∨ r'.rbuf.isSome) := by
  induction lines generalizing n tempstr chunked r with
  | zero => simp [headerLoop] at h
  | succ lines ih =>
    simp only [headerLoop] at h
    obtain ⟨⟨out, r₁⟩, hline, h⟩ := CRun.bind_eq_ok.mp h
    obtain ⟨hs₁, hbuffer⟩ := nextLine_keeps hline hs
    cases out with
    | error e => simp [pure, Except.pure] at h
    | ok t =>
      simp only at h
      split at h
      · rename_i hempty
        simp only [pure, Except.pure, Except.ok.injEq, Prod.mk.injEq] at h
        obtain ⟨-, rfl⟩ := h
        refine ⟨hs₁.plain, ?_⟩
        rcases hbuffer t rfl with hsame | hsome
        · exact .inl (hs₁.length.trans (hfirst (hsame ▸ hempty)))
        · exact .inr hsome
      · rename_i hline
        split at h
        · rename_i m hlength
          exact ih (n := m) h ⟨⟨hs₁.plain.chunked, hs₁.plain.extra, hs₁.plain.eof,
            hs₁.plain.chunkSize⟩, rfl⟩ (fun hnil => absurd hnil hline)
        · exact ih h hs₁ (fun hnil => absurd hnil hline)

theorem readResponse_buffered {size : ℤ}
    (h : rfc2068ReadResponse fuel r = .ok (.ok size, r')) (hs : r.session.chunkedTransfer = false)
    (hplain : r'.session.chunkedTransfer = false) :
    Plain r'.session ∧ (r'.session.contentLength = 0 ∨ r'.rbuf.isSome) := by
  simp only [rfc2068ReadResponse] at h
  obtain ⟨⟨out, r₁⟩, hheader, h⟩ := CRun.bind_eq_ok.mp h
  have hreset : PlainWith 0 (resetResponse r).session := ⟨⟨hs, rfl, rfl, rfl⟩, rfl⟩
  cases out with
  | error e => simp [pure, Except.pure] at h
  | ok chunked =>
    obtain ⟨hs₁, hbuffer⟩ := headerLoop_buffered hheader hreset (fun _ => rfl)
    cases chunked with
    | false =>
      simp only [pure, Except.pure, finishResponse, Except.ok.injEq, Prod.mk.injEq] at h
      obtain ⟨-, rfl⟩ := h
      exact ⟨⟨rfl, hs₁.extra, hs₁.eof, hs₁.chunkSize⟩, hbuffer⟩
    | true =>
      simp only at h
      obtain ⟨⟨out, r₂⟩, hline, h⟩ := CRun.bind_eq_ok.mp h
      obtain ⟨hs₂, hbuffer₂⟩ := nextLine_keeps hline ⟨hs₁, rfl⟩
      cases out with
      | error e => simp [pure, Except.pure] at h
      | ok t =>
        simp only at h
        split at h
        · simp [pure, Except.pure] at h
        · rename_i v hscan
          split at h
          · simp only [pure, Except.pure, Except.ok.injEq, Prod.mk.injEq] at h
            obtain ⟨-, rfl⟩ := h
            refine ⟨⟨hs₂.plain.chunked, hs₂.plain.extra, hs₂.plain.eof, rfl⟩, .inr ?_⟩
            rcases hbuffer₂ t rfl with rfl | hsome
            · simp [Hexadecimal.scanHex, Hexadecimal.hexDigits] at hscan
            · exact hsome
          · split at h
            · simp at h
            · obtain ⟨⟨b, s⟩, hfirst, h⟩ := CRun.bind_eq_ok.mp h
              simp only [pure, Except.pure, finishResponse, Except.ok.injEq, Prod.mk.injEq] at h
              obtain ⟨-, rfl⟩ := h
              simp at hplain

theorem getFile_buffered {startsize size : ℤ}
    (h : rfc2068GetFile fuel startsize r = .ok (.ok size, r')) (hsize : 0 ≤ size)
    (hs : r.session.chunkedTransfer = false) (hplain : r'.session.chunkedTransfer = false) :
    Plain r'.session ∧ r'.session.readBytes = 0 ∧
      (r'.session.contentLength = 0 ∨ r'.rbuf.isSome) := by
  simp only [rfc2068GetFile] at h
  obtain ⟨⟨out, r₁⟩, hresponse, h⟩ := CRun.bind_eq_ok.mp h
  cases out with
  | error e => simp [pure, Except.pure] at h
  | ok m =>
    simp only at h
    split at h
    · simp only [pure, Except.pure, Except.ok.injEq, Prod.mk.injEq] at h
      omega
    · split at h
      · simp only [pure, Except.pure, Except.ok.injEq, Prod.mk.injEq] at h
        obtain ⟨-, rfl⟩ := h
        obtain ⟨hs₁, hbuffer⟩ := readResponse_buffered hresponse hs hplain
        exact ⟨⟨hs₁.chunked, hs₁.extra, hs₁.eof, hs₁.chunkSize⟩, rfl, hbuffer⟩
      · split at h
        · simp only [pure, Except.pure, Except.ok.injEq, Prod.mk.injEq] at h
          obtain ⟨-, rfl⟩ := h
          obtain ⟨hs₁, hbuffer⟩ := readResponse_buffered hresponse hs hplain
          exact ⟨⟨hs₁.chunked, hs₁.extra, hs₁.eof, hs₁.chunkSize⟩, rfl, hbuffer⟩
        · simp [pure, Except.pure] at h

end Headers

section Bodies

/-- The results of rfc2068_get_next_file_chunk until its first 0. -/
def chunksUntilZero (size : ℕ) : ℕ → Request κ →
    CRun (Except GftpError (List (List κ)) × Request κ)
  | 0, _ => .error .pending
  | calls + 1, r => do
      match ← rfc2068GetNextFileChunk size r with
      | (.error e, r) => return (.error e, r)
      | (.ok chunk, r) =>
          if chunk = [] then return (.ok [], r)
          else
            let (rest, r) ← chunksUntilZero size calls r
            return (rest.map (chunk :: ·), r)

/-- The bytes of the line buffer that no call has returned yet. -/
def buffered (r : Request κ) : List κ :=
  match r.rbuf with
  | none => []
  | some b => (b.buffer.drop b.curpos).take b.curBufsize

def received (r : Request κ) : ℕ := (r.session.datafd.map Socket.received).getD 0

def asked (r : Request κ) : List ℕ := (r.session.datafd.map Socket.asked).getD []

/-- What follows the header: the buffered bytes and those the connection still holds. -/
def body (r : Request κ) : List κ :=
  buffered r ++ (r.session.datafd.map fun k => held k.stream).getD []

/-- How many bytes had arrived, counted from the end of the header in r, at each read
asked for between r and r'. -/
def asksBetween (r r' : Request κ) : List ℕ :=
  ((asked r').take ((asked r').length - (asked r).length)).map fun n =>
    n + (buffered r).length - received r

/-- rfc2068_get_file answers with a Content-Length of n and no chunked encoding, the
chunks until the first 0 are the n bytes behind the header, and no read is asked for
once they have arrived. -/
def ServesBody (n fuel calls size : ℕ) (startsize : ℤ) (r : Request κ) : Prop :=
  ∃ m r₁ chunks r₂, rfc2068GetFile fuel startsize r = .ok (.ok m, r₁) ∧ 0 ≤ m ∧
    r₁.session.contentLength = n ∧ r₁.session.chunkedTransfer = false ∧
    chunksUntilZero size calls r₁ = .ok (.ok chunks, r₂) ∧
    n ≤ (body r₁).length ∧ chunks.flatten = (body r₁).take n ∧
    ∀ arrived ∈ asksBetween r₁ r₂, arrived < n

variable {size calls : ℕ} {r r₂ : Request κ} {chunks : List (List κ)}

theorem chunksUntilZero_cons {r₁ : Request κ} {chunk : List κ} (hne : chunk ≠ [])
    (hchunk : rfc2068GetNextFileChunk size r = .ok (.ok chunk, r₁))
    (h : chunksUntilZero size (calls + 1) r = .ok (.ok chunks, r₂)) :
    ∃ rest, chunksUntilZero size calls r₁ = .ok (.ok rest, r₂) ∧ chunks = chunk :: rest := by
  simp only [chunksUntilZero, hchunk, CRun.ok_bind, if_neg hne] at h
  obtain ⟨⟨out, r'⟩, hrest, h⟩ := CRun.bind_eq_ok.mp h
  cases out with
  | error e => simp [pure, Except.pure, Except.map] at h
  | ok rest =>
    simp only [pure, Except.pure, Except.map, Except.ok.injEq, Prod.mk.injEq] at h
    obtain ⟨rfl, rfl⟩ := h
    exact ⟨rest, hrest, rfl⟩

theorem chunksUntilZero_nil {r₁ : Request κ}
    (hchunk : rfc2068GetNextFileChunk size r = .ok (.ok [], r₁))
    (h : chunksUntilZero size (calls + 1) r = .ok (.ok chunks, r₂)) : chunks = [] ∧ r₂ = r₁ := by
  simp only [chunksUntilZero, hchunk, CRun.ok_bind, if_true, pure, Except.pure, Except.ok.injEq,
    Prod.mk.injEq] at h
  exact ⟨h.1.symm, h.2.symm⟩

omit [Cell κ] in
theorem readSize_eq_zero {s : Session κ} (hsize : 0 < size) (hlen : 0 < s.contentLength)
    (hcount : s.readBytes < 2 ^ 64) (h : readSize size s = 0) : s.contentLength = s.readBytes := by
  unfold readSize at h
  rw [if_pos hlen] at h
  split at h
  · unfold LineReader.sizeSub at h
    split at h <;> omega
  · omega

/-- Behind the line buffer the calls end when the reads they made count up to the
Content-Length, or with a read at the place where they end. -/
theorem chunks_from_socket {n : ℤ} (hsize : 0 < size) (hn : 0 < n) (hbuf : r.rbuf = none)
    (hs : PlainWith n r.session) (hcount : r.session.readBytes < 2 ^ 64)
    (h : chunksUntilZero size calls r = .ok (.ok chunks, r₂)) :
    n = ((r.session.readBytes + chunks.flatten.length) % 2 ^ 64 : ℕ) ∨
      ∃ asks, asked r₂ = asks ++ asked r ∧ received r + chunks.flatten.length ∈ asks := by
  induction calls generalizing r chunks with
  | zero => simp [chunksUntilZero] at h
  | succ calls ih =>
    have hstep := h
    simp only [chunksUntilZero] at h
    obtain ⟨⟨out, r₁⟩, hchunk, -⟩ := CRun.bind_eq_ok.mp h
    have hcall := hchunk
    simp only [rfc2068GetNextFileChunk, hbuf] at hchunk
    obtain ⟨⟨reading, s⟩, hread, hchunk⟩ := CRun.bind_eq_ok.mp hchunk
    split at hchunk
    · cases chunkedRead_plain hs.plain hread with
      | complete hlen hall =>
        simp only [pure, Except.pure, List.take_zero, Except.ok.injEq, Prod.mk.injEq] at hchunk
        obtain ⟨rfl, rfl⟩ := hchunk
        obtain ⟨rfl, -⟩ := chunksUntilZero_nil hcall hstep
        have hlength := hs.length
        left
        simp only [List.flatten_nil, List.length_nil, Nat.add_zero, Nat.mod_eq_of_lt hcount]
        omega
      | nothing hzero =>
        simp only [pure, Except.pure, List.take_zero, Except.ok.injEq, Prod.mk.injEq] at hchunk
        obtain ⟨rfl, rfl⟩ := hchunk
        obtain ⟨rfl, -⟩ := chunksUntilZero_nil hcall hstep
        have hlength := hs.length
        have hall := readSize_eq_zero hsize (hlength ▸ hn) hcount hzero
        left
        simp only [List.flatten_nil, List.length_nil, Nat.add_zero, Nat.mod_eq_of_lt hcount]
        omega
      | failed e fd =>
        simp only [pure, Except.pure, Except.ok.injEq, Prod.mk.injEq] at hchunk
        obtain ⟨rfl, rfl⟩ := hchunk
        simp [chunksUntilZero, hcall, pure, Except.pure] at hstep
      | ended k stream hfd =>
        simp only [pure, Except.pure, List.take_zero, Except.ok.injEq, Prod.mk.injEq] at hchunk
        obtain ⟨rfl, rfl⟩ := hchunk
        obtain ⟨rfl, rfl⟩ := chunksUntilZero_nil hcall hstep
        right
        exact ⟨[k.received], by simp [asked, hfd], by simp [received, hfd]⟩
      | got k stream d hfd hd =>
        simp only [pure, Except.pure, List.take_left', Except.ok.injEq, Prod.mk.injEq] at hchunk
        obtain ⟨rfl, rfl⟩ := hchunk
        obtain ⟨rest, hrest, rfl⟩ := chunksUntilZero_cons hd hcall hstep
        have hs₁ := chunkedRead_keeps size _ _ _ hread hs
        rcases ih rfl hs₁ (Nat.mod_lt _ (by decide)) hrest with hall | ⟨asks, hasked, hmem⟩
        · left
          rw [hall, List.flatten_cons, List.length_append, ← Nat.add_assoc]
          exact congrArg Nat.cast (Nat.mod_add_mod ..)
        · right
          refine ⟨asks ++ [k.received], ?_, ?_⟩
          · simp only [asked, hfd, Option.map_some, Option.getD_some] at hasked ⊢
            rw [hasked, List.append_assoc]
            rfl
          · simp only [received, hfd, Option.map_some, Option.getD_some, List.flatten_cons,
              List.length_append] at hmem ⊢
            rw [← Nat.add_assoc]
            exact List.mem_append_left _ hmem
    · simp at hchunk

/-- The line buffer behind its first bytes. -/
def leftOver (b : GetlineBuffer κ) (size : ℕ) : Option (GetlineBuffer κ) :=
  if b.curBufsize ≤ size then none
  else some { b with curpos := b.curpos + size, curBufsize := b.curBufsize - size }

theorem chunk_of_buffer {b : GetlineBuffer κ} {out : Except GftpError (List κ)} {r₁ : Request κ}
    (hbuf : r.rbuf = some b) (h : rfc2068GetNextFileChunk size r = .ok (out, r₁)) :
    b.curpos + min b.curBufsize size ≤ b.buffer.length ∧
      ∃ chunk, out = .ok chunk ∧ chunk.length = min b.curBufsize size ∧
        r₁ = { r with rbuf := leftOver b size } := by
  simp only [rfc2068GetNextFileChunk, hbuf] at h
  split at h
  · rename_i hin
    refine ⟨hin, (b.buffer.drop b.curpos).take (min b.curBufsize size), ?_⟩
    have hlength : ((b.buffer.drop b.curpos).take (min b.curBufsize size)).length
        = min b.curBufsize size := by
      simp only [List.length_take, List.length_drop]
      omega
    split at h
    · rename_i hall
      simp only [Except.ok.injEq, Prod.mk.injEq] at h
      obtain ⟨rfl, rfl⟩ := h
      exact ⟨rfl, hlength, by rw [leftOver, if_pos (by omega)]⟩
    · rename_i hpart
      have hmin : min b.curBufsize size = size := by omega
      simp only [Except.ok.injEq, Prod.mk.injEq, hmin] at h
      obtain ⟨rfl, rfl⟩ := h
      exact ⟨by rw [hmin], hlength, by rw [leftOver, if_neg (by omega)]⟩
  · simp at h

theorem chunksUntilZero_first (h : chunksUntilZero size calls r = .ok (.ok chunks, r₂)) :
    ∃ chunk r₁ calls', calls = calls' + 1 ∧
      rfc2068GetNextFileChunk size r = .ok (.ok chunk, r₁) := by
  cases calls with
  | zero => simp [chunksUntilZero] at h
  | succ calls =>
    simp only [chunksUntilZero] at h
    obtain ⟨⟨out, r₁⟩, hcall, h⟩ := CRun.bind_eq_ok.mp h
    cases out with
    | error e => simp [pure, Except.pure] at h
    | ok chunk => exact ⟨chunk, r₁, calls, rfl, hcall⟩

/-- The line buffer is handed out first, whole. -/
theorem chunks_from_buffer {b : GetlineBuffer κ} (hsize : 0 < size) (hcount : 0 < b.curBufsize)
    (hbuf : r.rbuf = some b) (h : chunksUntilZero size calls r = .ok (.ok chunks, r₂)) :
    b.curpos + b.curBufsize ≤ b.buffer.length ∧
      ∃ calls' rest, chunksUntilZero size calls' { r with rbuf := none } = .ok (.ok rest, r₂) ∧
        chunks.flatten.length = b.curBufsize + rest.flatten.length := by
  induction calls generalizing r b chunks with
  | zero => simp [chunksUntilZero] at h
  | succ calls ih =>
    obtain ⟨chunk, r₁, calls', -, hcall⟩ := chunksUntilZero_first h
    obtain ⟨hin, chunk', hout, hlength, hr₁⟩ := chunk_of_buffer hbuf hcall
    obtain rfl := Except.ok.inj hout
    have hne : chunk ≠ [] := by
      intro hnil
      rw [hnil, List.length_nil] at hlength
      omega
    obtain ⟨rest, hrest, hchunks⟩ := chunksUntilZero_cons hne hcall h
    subst hchunks
    rw [List.flatten_cons, List.length_append, hlength]
    by_cases hall : b.curBufsize ≤ size
    · rw [leftOver, if_pos hall] at hr₁
      subst hr₁
      exact ⟨by omega, calls, rest, hrest, by omega⟩
    · rw [leftOver, if_neg hall] at hr₁
      subst hr₁
      have hleft : 0 < b.curBufsize - size := by omega
      obtain ⟨hin', calls', rest', hrest', htotal⟩ := ih hleft rfl hrest
      simp only at hin' htotal
      exact ⟨by omega, calls', rest', hrest', by omega⟩

/-- For no response is the body served as announced. -/
theorem body_never_served {n fuel : ℕ} {startsize : ℤ} (hidle : r.session.chunkedTransfer = false)
    (hn : 0 < n) : ¬ ServesBody n fuel calls size startsize r := by
  intro hserved
  obtain ⟨m, r₁, chunks, r₂, hget, hm, hlength, hplain, hchunks, hbody, hflat, hasks⟩ := hserved
  obtain ⟨hs, hzero, hbuffer⟩ := getFile_buffered hget hm hidle hplain
  have htotal : chunks.flatten.length = n := by
    rw [hflat, List.length_take]
    omega
  have hsome : r₁.rbuf.isSome := hbuffer.resolve_left (by omega)
  obtain ⟨b, hbuf⟩ := Option.isSome_iff_exists.mp hsome
  obtain ⟨chunk, r', calls', rfl, hcall⟩ := chunksUntilZero_first hchunks
  obtain ⟨-, chunk', hout, hfirst, -⟩ := chunk_of_buffer hbuf hcall
  obtain rfl := Except.ok.inj hout
  -- an empty first chunk ends the body before its first byte
  have hne : chunk ≠ [] := by
    intro hnil
    subst hnil
    have hnone := (chunksUntilZero_nil hcall hchunks).1
    subst hnone
    simp only [List.flatten_nil, List.length_nil] at htotal
    omega
  have hpos : 0 < min b.curBufsize size := by
    rw [← hfirst]
    exact List.length_pos_iff.mpr hne
  obtain ⟨hin, calls'', rest, hrest, hsum⟩ :=
    chunks_from_buffer (by omega) (by omega) hbuf hchunks
  have hheld : (buffered r₁).length = b.curBufsize := by
    simp only [buffered, hbuf, List.length_take, List.length_drop]
    omega
  have hsize : 0 < size := by omega
  have hn' : (0 : ℤ) < n := by omega
  have hcount : r₁.session.readBytes < 2 ^ 64 := by omega
  rcases chunks_from_socket (r := { r₁ with rbuf := none }) hsize hn' rfl ⟨hs, hlength⟩ hcount
    hrest with hall | ⟨asks, hasked, hmem⟩
  · -- the bytes of the line buffer were not counted
    have hsmall : rest.flatten.length < n := by omega
    have hmod := Nat.mod_le (r₁.session.readBytes + rest.flatten.length) (2 ^ 64)
    simp only [hzero, Nat.zero_add] at hall hmod
    omega
  · have hin : received r₁ + rest.flatten.length + (buffered r₁).length - received r₁
        ∈ asksBetween r₁ r₂ := by
      have hasked' : asked r₂ = asks ++ asked r₁ := hasked
      simp only [asksBetween, hasked', List.length_append, Nat.add_sub_cancel]
      rw [List.take_left' rfl]
      exact List.mem_map.mpr ⟨received r₁ + rest.flatten.length, hmem, rfl⟩
    have hlate := hasks _ hin
    omega

/-- A request after rfc2068_init, connected to a server that sends these segments. -/
def connected (segments : List Bytes) : Request UInt8 :=
  ⟨none, ⟨0, 0, 0, false, false, 0, none, some ⟨segments.map .ok, 0, []⟩⟩, none⟩

theorem divided_body_never_served :
    ¬ ServesBody 2 5 2 8 0 (connected [ascii "HTTP/1.0 200 OK\r\nContent-Length: 2\r\n\r\nh",
      ascii "i"]) :=
  body_never_served rfl (by decide)

/-- What rfc2068_get_file returns, what follows the header then, and the chunks up to the
first 0. -/
def fetchBody (fuel calls size : ℕ) (startsize : ℤ) (r : Request κ) :
    CRun (Except GftpError (ℤ × List κ × List (List κ))) := do
  match ← rfc2068GetFile fuel startsize r with
  | (.error e, _) => return .error e
  | (.ok m, r₁) =>
      match ← chunksUntilZero size calls r₁ with
      | (.error e, _) => return .error e
      | (.ok chunks, _) => return .ok (m, body r₁, chunks)

theorem fetchBody_ok {fuel : ℕ} {startsize m : ℤ} {text : List κ}
    (h : fetchBody fuel calls size startsize r = .ok (.ok (m, text, chunks))) :
    ∃ r₁ r₂, rfc2068GetFile fuel startsize r = .ok (.ok m, r₁) ∧ body r₁ = text ∧
      chunksUntilZero size calls r₁ = .ok (.ok chunks, r₂) := by
  simp only [fetchBody] at h
  obtain ⟨⟨out, r₁⟩, hget, h⟩ := CRun.bind_eq_ok.mp h
  cases out with
  | error e => simp [pure, Except.pure] at h
  | ok m' =>
    simp only at h
    obtain ⟨⟨out, r₂⟩, hchunks, h⟩ := CRun.bind_eq_ok.mp h
    cases out with
    | error e => simp [pure, Except.pure] at h
    | ok chunks' =>
      simp only [pure, Except.pure, Except.ok.injEq, Prod.mk.injEq] at h
      obtain ⟨rfl, rfl, rfl⟩ := h
      exact ⟨r₁, r₂, hget, rfl, hchunks⟩

def headerAlone : Request UInt8 :=
  connected [ascii "HTTP/1.0 200 OK\r\nContent-Length: 2\r\n\r\n", ascii "hi"]

set_option maxRecDepth 100000 in
/-- The header arrives alone: the first chunk is empty and ends the body before it begins. -/
theorem header_alone_serves_nothing :
    fetchBody 5 1 8 0 headerAlone = .ok (.ok (2, ascii "hi", [])) ∧
      ¬ ServesBody 2 5 1 8 0 headerAlone := by
  have hfetch : fetchBody 5 1 8 0 headerAlone = .ok (.ok (2, ascii "hi", [])) := by decide
  refine ⟨hfetch, ?_⟩
  intro hserved
  obtain ⟨m, r₁, chunks, r₂, hget, -, -, -, hchunks, -, hflat, -⟩ := hserved
  obtain ⟨r₁', r₂', hget', hbody, hchunks'⟩ := fetchBody_ok hfetch
  rw [hget'] at hget
  obtain ⟨-, rfl⟩ := Prod.mk.inj (Except.ok.inj hget)
  rw [hchunks'] at hchunks
  obtain ⟨hnil, -⟩ := Prod.mk.inj (Except.ok.inj hchunks)
  obtain rfl := Except.ok.inj hnil
  rw [hbody] at hflat
  exact absurd hflat (by decide)

end Bodies

end Gftp.HttpBodies
