import Gftp.Connections
import Gftp.HttpOrigins
import Gftp.Runs

/-!
Runs of an HTTP request over several connections. Neither rfc2068_disconnect nor
rfc2068_end_transfer empties the line buffer; the stash is freed when the next response is
read. A run in which the line buffer holds no unread bytes when the next connection is
opened, and no stash is read from before the next response, returns on each connection
only what came in on it.
-/

namespace Gftp.HttpConnections

open ByteStrings Cells Cell Connections HttpDecoding HttpOrigins HttpResponses LineOrigins
  LineSource Protocol Runs Sockets
open LineReader (sizeSub)
open ListingParsers (offT)

section Buffers

variable {κ : Type} [Cell κ] {own : κ → Prop} {b b' : GetlineBuffer κ} {s s' : Session κ}
  {extra : ℕ} {stash : List κ}

theorem offT_lt (v : ℤ) : offT v < 2 ^ 63 := (Int64.ofInt v).toInt_lt

omit [Cell κ] in
/-- A part of a part. -/
theorem mem_part {l : List κ} {c : κ} {i j m n : ℕ} (hlow : i ≤ j) (hhigh : j + m ≤ i + n)
    (h : c ∈ (l.drop j).take m) : c ∈ (l.drop i).take n := by
  obtain ⟨k, hk⟩ := List.mem_iff_getElem?.mp h
  have hkm : k < m := by
    by_contra hge
    rw [List.getElem?_eq_none (by rw [List.length_take]; omega)] at hk
    simp at hk
  rw [List.getElem?_take_of_lt hkm, List.getElem?_drop] at hk
  apply List.mem_iff_getElem?.mpr
  refine ⟨j - i + k, ?_⟩
  rw [List.getElem?_take_of_lt (by omega), List.getElem?_drop, ← hk]
  congr 1
  omega

/-- A first chunk size that is not negative stashes no more than the counted bytes. -/
theorem stashed_le {v : ℤ} {n : ℕ} (hv : 0 ≤ v) (hmax : v < 2 ^ 63) (hleft : offT (v - n) < 0) :
    (offT (v - n)).natAbs ≤ n := by
  rw [offT, Int64.toInt_ofInt, Int64.size, Int.bmod_def] at hleft ⊢
  omega

theorem stashBehind_fresh (hnul : own nul) (hb : Fresh own b)
    (h : stashBehind b extra = .ok (b', stash)) : Fresh own b' ∧ ∀ c ∈ stash, own c := by
  unfold stashBehind at h
  split at h
  · obtain ⟨buffer, hstore, h⟩ := CRun.bind_eq_ok.mp h
    simp only [pure, Except.pure, Except.ok.injEq, Prod.mk.injEq] at h
    obtain ⟨rfl, rfl⟩ := h
    exact ⟨store_forall hstore hb (nul_stored hnul), own_take (own_drop hb _) _⟩
  · simp at h

theorem stashBehind_kept (hb : Kept own b) (hextra : extra ≤ b.curBufsize)
    (h : stashBehind b extra = .ok (b', stash)) : Kept own b' ∧ ∀ c ∈ stash, own c := by
  unfold stashBehind at h
  split at h
  · obtain ⟨buffer, hstore, h⟩ := CRun.bind_eq_ok.mp h
    simp only [pure, Except.pure, Except.ok.injEq, Prod.mk.injEq] at h
    obtain ⟨rfl, rfl⟩ := h
    have hcut : b.curpos + b.curBufsize - extra = b.curpos + (b.curBufsize - extra) := by omega
    rw [hcut] at hstore ⊢
    have hsub : sizeSub b.curBufsize extra = b.curBufsize - extra := by
      rw [sizeSub, if_pos hextra]
    refine ⟨⟨?_, ?_⟩, ?_⟩
    · intro c hc
      simp only [hsub] at hc
      rw [List.take_drop, store_take hstore (Nat.le_refl _), ← List.take_drop] at hc
      exact hb.counted c (mem_part (Nat.le_refl _) (by omega) hc)
    · intro _
      simp only [hsub]
      exact byteAt_stored hstore
    · intro c hc
      exact hb.counted c (mem_part (by omega) (by omega) hc)
  · simp at h

/-- What the first chunk leaves in the line buffer and in the stash. -/
theorem firstChunk_own {v : ℤ} (hnul : own nul) (hmax : v < 2 ^ 63) (hb : Holds own b)
    (hv : 0 ≤ v ∨ Fresh own b) (h : firstChunk v b s = .ok (b', s')) :
    Holds own b' ∧ s'.datafd = s.datafd ∧
      ∀ e, s'.extraReadBuffer = some e → s.extraReadBuffer = some e ∨ ∀ c ∈ e, own c := by
  simp only [firstChunk] at h
  split at h
  · rename_i hleft
    obtain ⟨⟨b₁, stash⟩, hstash, h⟩ := CRun.bind_eq_ok.mp h
    simp only [pure, Except.pure, Except.ok.injEq, Prod.mk.injEq] at h
    obtain ⟨rfl, rfl⟩ := h
    have hboth : Holds own b₁ ∧ ∀ c ∈ stash, own c := by
      by_cases hfresh : Fresh own b
      · obtain ⟨hb', hstashed⟩ := stashBehind_fresh hnul hfresh hstash
        exact ⟨.inl hb', hstashed⟩
      · have hkept := hb.resolve_left hfresh
        have hle := stashed_le (hv.resolve_right hfresh) hmax hleft
        obtain ⟨hb', hstashed⟩ := stashBehind_kept hkept hle hstash
        exact ⟨.inr hb', hstashed⟩
    refine ⟨hboth.1, rfl, ?_⟩
    intro e he
    obtain rfl := Option.some.inj he
    exact .inr hboth.2
  · simp only [pure, Except.pure, Except.ok.injEq, Prod.mk.injEq] at h
    obtain ⟨rfl, rfl⟩ := h
    exact ⟨hb, rfl, fun e he => .inl he⟩

end Buffers

structure HttpWorld where
  request : Request Marked
  connection : ℕ
  /-- The stash is older than the connection. -/
  stale : Bool
  returned : Log

/-- The request after rfc2068_init. -/
def HttpWorld.init : HttpWorld :=
  ⟨⟨none, ⟨0, 0, 0, false, false, 0, none, none⟩, none⟩, 0, false, []⟩

/-- The request goes on, and the cells have been returned. -/
def HttpWorld.next (w : HttpWorld) (r : Request Marked) (cells : List Marked) : HttpWorld :=
  ⟨r, w.connection, w.stale, w.returned ++ cells.map fun c => (w.connection, c)⟩

def HttpWorld.connected (w : HttpWorld) (segments : List (Except Unit Bytes)) : HttpWorld :=
  ⟨{ w.request with session := { w.request.session with
      datafd := some (socket (w.connection + 1) segments) } },
    w.connection + 1, w.request.session.extraReadBuffer.isSome, w.returned⟩

/-- What the operations of an HTTP request do to its connection and buffers. -/
inductive HttpAction
  | connect (segments : List (Except Unit Bytes))
  | beginResponse
  | line (fuel : ℕ)
  | cachedLine (fuel : ℕ) (segments : List (Except Unit Bytes))
  | settings
  | firstChunk (v : ℕ)
  | chunk (size : ℕ)
  | disconnect
  | endTransfer

inductive HttpStep : HttpWorld → HttpAction → HttpWorld → Prop
  | connect {w : HttpWorld} {segments : List (Except Unit Bytes)}
      (hclosed : w.request.session.datafd = none) :
      HttpStep w (.connect segments) (w.connected segments)
  | beginResponse {w : HttpWorld} :
      HttpStep w .beginResponse { w with request := resetResponse w.request, stale := false }
  | line {w : HttpWorld} {fuel : ℕ} {res : LineResult GftpError Marked (Session Marked)}
      (h : gftpGetLine rfc2068ChunkedRead fuel w.request.rbuf lineSize w.request.session = .ok res) :
      HttpStep w (.line fuel)
        (w.next { w.request with rbuf := res.rbuf, session := res.state } res.str)
  | cachedLine {w : HttpWorld} {fuel : ℕ} {segments : List (Except Unit Bytes)}
      {ret : Except GftpError ℕ} {str : List Marked} {r : Request Marked}
      (h : cachedNextLine fuel (cacheFile segments) w.request = .ok ((ret, str), r)) :
      HttpStep w (.cachedLine fuel segments) (w.next r str)
  | settings {w : HttpWorld} {session : Session Marked} {last : Option (List Marked)}
      (hextra : session.extraReadBuffer = w.request.session.extraReadBuffer)
      (hdatafd : session.datafd = w.request.session.datafd) :
      HttpStep w .settings
        (w.next { w.request with session := session, lastFtpResponse := last } [])
  | firstChunk {w : HttpWorld} {v : ℕ} {b b' : GetlineBuffer Marked} {s : Session Marked}
      (hb : w.request.rbuf = some b)
      (h : HttpResponses.firstChunk (offT v) b w.request.session = .ok (b', s)) :
      HttpStep w (.firstChunk v) (w.next { w.request with rbuf := some b', session := s } [])
  | chunk {w : HttpWorld} {size : ℕ} {out : Except GftpError (List Marked)} {r : Request Marked}
      (h : rfc2068GetNextFileChunk size w.request = .ok (out, r)) :
      HttpStep w (.chunk size) (w.next r (out.toOption.getD []))
  | disconnect {w : HttpWorld} : HttpStep w .disconnect (w.next (rfc2068Disconnect w.request) [])
  | endTransfer {w : HttpWorld} :
      HttpStep w .endTransfer (w.next (rfc2068EndTransfer w.request).2 [])

/-- A connection is opened on a line buffer without unread bytes, a stash older than the
connection is not read from, no call abandons bytes it counts in a block that holds bytes
of an earlier connection, and in such a block a first chunk size is not negative. -/
def HttpFit (w : HttpWorld) : HttpAction → Prop
  | .connect _ => Emptied w.request.rbuf
  | .line _ =>
      w.stale = false ∧
        KeepsBytes (OfConnection w.connection) rfc2068ChunkedRead w.request.rbuf w.request.session
  | .cachedLine _ segments =>
      w.stale = false ∧
        KeepsBytes (OfConnection w.connection) rfc2068ChunkedRead w.request.rbuf
          { w.request.session with datafd := some (cacheFile segments) }
  | .firstChunk v => 0 ≤ offT v ∨ ∀ b, w.request.rbuf = some b → Fresh (OfConnection w.connection) b
  | .chunk _ => w.request.rbuf = none → w.stale = false
  | _ => True

structure HttpInv (w : HttpWorld) : Prop where
  buffer : ∀ b, w.request.rbuf = some b → Holds (OfConnection w.connection) b
  stash : w.stale = false → ∀ e, w.request.session.extraReadBuffer = some e →
    ∀ c ∈ e, OfConnection w.connection c
  datafd : OwnFd (OfConnection w.connection) w.request.session.datafd
  returned : FromTheirConnection w.returned

theorem HttpInv.init : HttpInv .init where
  buffer := by simp [HttpWorld.init]
  stash := by simp [HttpWorld.init]
  datafd := by simp [HttpWorld.init, OwnFd]
  returned := by simp [HttpWorld.init, FromTheirConnection]

variable {w w' : HttpWorld} {r : Request Marked}

theorem HttpInv.session (hw : HttpInv w) (hstale : w.stale = false) :
    OwnSession (OfConnection w.connection) w.request.session := ⟨hw.stash hstale, hw.datafd⟩

theorem line_own {fuel : ℕ} {res : LineResult GftpError Marked (Session Marked)} (hw : HttpInv w)
    (hstale : w.stale = false)
    (hkeep : KeepsBytes (OfConnection w.connection) rfc2068ChunkedRead w.request.rbuf
      w.request.session)
    (h : gftpGetLine rfc2068ChunkedRead fuel w.request.rbuf lineSize w.request.session = .ok res) :
    HttpInv (w.next { w.request with rbuf := res.rbuf, session := res.state } res.str) := by
  have hres := gftpGetLine_returns (chunkedRead_own (nul_own _)) (nul_own _) hw.buffer
    (hw.session hstale) hkeep h
  exact ⟨hres.buffer, fun _ => hres.state.extra, hres.state.datafd, log_append hw.returned hres.line⟩

theorem cachedLine_own {fuel : ℕ} {segments : List (Except Unit Bytes)} {ret : Except GftpError ℕ}
    {str : List Marked} (hw : HttpInv w) (hstale : w.stale = false)
    (hkeep : KeepsBytes (OfConnection w.connection) rfc2068ChunkedRead w.request.rbuf
      { w.request.session with datafd := some (cacheFile segments) })
    (h : cachedNextLine fuel (cacheFile segments) w.request = .ok ((ret, str), r)) :
    HttpInv (w.next r str) := by
  simp only [cachedNextLine] at h
  obtain ⟨res, hline, h⟩ := CRun.bind_eq_ok.mp h
  simp only [pure, Except.pure, Except.ok.injEq, Prod.mk.injEq] at h
  obtain ⟨⟨-, rfl⟩, rfl⟩ := h
  have hfile : OwnSession (OfConnection w.connection)
      { w.request.session with datafd := some (cacheFile segments) } :=
    ⟨hw.stash hstale, cacheFile_own _ _⟩
  have hres := gftpGetLine_returns (chunkedRead_own (nul_own _)) (nul_own _) hw.buffer hfile hkeep hline
  refine ⟨hres.buffer, fun _ => hres.state.extra, ?_, log_append hw.returned hres.line⟩
  simp only [HttpWorld.next]
  split
  · simp [OwnFd]
  · exact hw.datafd

theorem next_nothing (hw : HttpInv w)
    (hbuffer : ∀ b, r.rbuf = some b → Holds (OfConnection w.connection) b)
    (hstash : w.stale = false → ∀ e, r.session.extraReadBuffer = some e →
      ∀ c ∈ e, OfConnection w.connection c)
    (hdatafd : OwnFd (OfConnection w.connection) r.session.datafd) : HttpInv (w.next r []) :=
  ⟨hbuffer, hstash, hdatafd, log_append hw.returned (by simp)⟩

/-- A chunk that comes from the line buffer. -/
theorem buffered_own {own : Marked → Prop} {b : GetlineBuffer Marked} {len : ℕ} (hb : Holds own b)
    (hlen : len ≤ b.curBufsize) :
    (∀ c ∈ (b.buffer.drop b.curpos).take len, own c) ∧
      Holds own { b with curpos := b.curpos + len, curBufsize := b.curBufsize - len } := by
  rcases hb with hfresh | hkept
  · exact ⟨own_take (own_drop hfresh _) _, .inl hfresh⟩
  · refine ⟨fun c hc => hkept.counted c (mem_part (Nat.le_refl _) (by omega) hc), .inr ⟨?_, ?_⟩⟩
    · intro c hc
      exact hkept.counted c (mem_part (Nat.le_add_right _ _) (by simp only; omega) hc)
    · intro hmore
      have hend := hkept.ended (by simp only at hmore; omega)
      simp only
      rwa [show b.curpos + len + (b.curBufsize - len) = b.curpos + b.curBufsize by omega]

theorem chunk_own {size : ℕ} {out : Except GftpError (List Marked)} (hw : HttpInv w)
    (hstale : w.request.rbuf = none → w.stale = false)
    (h : rfc2068GetNextFileChunk size w.request = .ok (out, r)) :
    HttpInv (w.next r (out.toOption.getD [])) := by
  unfold rfc2068GetNextFileChunk at h
  split at h
  · rename_i b hrbuf
    obtain ⟨hchunk, hrest⟩ := buffered_own (hw.buffer b hrbuf) (Nat.min_le_left b.curBufsize size)
    simp only at h
    split at h
    · split at h
      · simp only [Except.ok.injEq, Prod.mk.injEq] at h
        obtain ⟨rfl, rfl⟩ := h
        exact ⟨by simp [HttpWorld.next], hw.stash, hw.datafd, log_append hw.returned hchunk⟩
      · simp only [Except.ok.injEq, Prod.mk.injEq] at h
        obtain ⟨rfl, rfl⟩ := h
        refine ⟨?_, hw.stash, hw.datafd, log_append hw.returned hchunk⟩
        intro b' hb'
        obtain rfl := Option.some.inj hb'
        exact hrest
    · simp at h
  · rename_i hrbuf
    obtain ⟨⟨reading, s⟩, hread, h⟩ := CRun.bind_eq_ok.mp h
    obtain ⟨⟨hstored, -⟩, hs⟩ := chunkedReadPass_own (nul_own _) (hw.session (hstale hrbuf)) hread
    simp only at h
    split at h
    · cases hret : reading.ret with
      | error e =>
        simp only [hret, pure, Except.pure, Except.ok.injEq, Prod.mk.injEq] at h
        obtain ⟨rfl, rfl⟩ := h
        exact ⟨hw.buffer, fun _ => hs.extra, hs.datafd, log_append hw.returned (by simp [Except.toOption])⟩
      | ok n =>
        simp only [hret, pure, Except.pure, Except.ok.injEq, Prod.mk.injEq] at h
        obtain ⟨rfl, rfl⟩ := h
        refine ⟨hw.buffer, fun _ => hs.extra, hs.datafd, log_append hw.returned ?_⟩
        simp only [Except.toOption, Option.getD_some]
        exact own_take hstored n
    · simp at h

/-- One step: what is returned on a connection was received on it. -/
theorem httpStep_inv {a : HttpAction} (hw : HttpInv w) (hfit : HttpFit w a)
    (h : HttpStep w a w') : HttpInv w' := by
  cases h with
  | connect hclosed =>
    refine ⟨fun b hb => hfit.holds hb _, ?_, socket_own _ _, hw.returned⟩
    intro hnone e he
    simp only [HttpWorld.connected] at hnone he
    simp [he] at hnone
  | beginResponse =>
    exact ⟨hw.buffer, by simp [resetResponse], hw.datafd, hw.returned⟩
  | line h => exact line_own hw hfit.1 hfit.2 h
  | cachedLine h => exact cachedLine_own hw hfit.1 hfit.2 h
  | settings hextra hdatafd =>
    refine next_nothing hw hw.buffer ?_ ?_
    · simp only [hextra]
      exact hw.stash
    · simp only [hdatafd]
      exact hw.datafd
  | firstChunk hb h =>
    obtain ⟨hbuffer, hdatafd, hextra⟩ := firstChunk_own (nul_own w.connection) (offT_lt _)
      (hw.buffer _ hb) (hfit.imp_right fun hfresh => hfresh _ hb) h
    refine next_nothing hw ?_ ?_ ?_
    · intro b₁ hb₁
      obtain rfl := Option.some.inj hb₁
      exact hbuffer
    · intro hstale e he
      rcases hextra e he with hold | hnew
      · exact hw.stash hstale e hold
      · exact hnew
    · simp only [hdatafd]
      exact hw.datafd
  | chunk h => exact chunk_own hw hfit h
  | disconnect =>
    exact next_nothing hw hw.buffer hw.stash (by simp [OwnFd, rfc2068Disconnect, Session.disconnect])
  | endTransfer =>
    unfold rfc2068EndTransfer
    split
    · exact next_nothing hw hw.buffer hw.stash hw.datafd
    · exact next_nothing hw hw.buffer hw.stash (by simp [OwnFd, Session.disconnect])

/-- Steps under no condition. -/
def httpReaches (w w' : HttpWorld) : Prop := Reaches HttpStep (fun _ _ => True) w w'

theorem HttpStep.reaches {a : HttpAction} (h : HttpStep w a w') : httpReaches w w' :=
  (Reaches.refl w).tail trivial h

theorem httpRun_inv (h : Reaches HttpStep HttpFit .init w) : HttpInv w :=
  h.invariant HttpInv .init fun _ _ _ hw hfit hstep => httpStep_inv hw hfit hstep

end Gftp.HttpConnections
