import Gftp.HttpReadWeight

/-!
rfc2068_read_response at the end of the stream. gftp_get_line then returns 0 and leaves
tempstr as it is, so the header loop goes on for ever when a line stands in it, and ends
when nothing has been read. In every other case the function returns.
-/

namespace Gftp.HttpHeaderEnd

open ByteStrings Cells Cell Fuel HttpDecoding HttpReadWeight HttpResponses LineSource
  LineTermination Protocol Sockets

variable {κ : Type} [Cell κ]

/-- What the header loop keeps of the line in tempstr. -/
def noteLine (tempstr : List κ) (r : Request κ) : Request κ :=
  { r with
    lastFtpResponse := r.lastFtpResponse.or (some tempstr)
    session := { r.session with
      contentLength := (announcedLength tempstr).getD r.session.contentLength } }

/-- Successive calls of gftp_get_line in the header loop, none of which leaves tempstr empty. -/
inductive ReadsHeader (fuel : ℕ) : List κ → Request κ → List κ → Request κ → Prop
  | nil (tempstr : List κ) (r : Request κ) : ReadsHeader fuel tempstr r tempstr r
  | cons {tempstr t t' : List κ} {r r₁ r' : Request κ}
      (h : nextLine fuel r tempstr = .ok (.ok t, r₁)) (hne : t ≠ [])
      (hmore : ReadsHeader fuel t (noteLine t r₁) t' r') : ReadsHeader fuel tempstr r t' r'

/-- No byte is left in the line buffer or the stash, and none is asked for or the stream is at
its end. -/
structure Exhausted (r : Request κ) : Prop where
  rbuf : r.rbuf = none
  extra : r.session.extraReadBuffer = none
  quiet : Quiet lineSize r.session

/-- Of the header at least one line and no empty line is read when nothing more comes. -/
def CutOff (r : Request κ) : Prop :=
  ∃ fuel t r', ReadsHeader fuel [] (resetResponse r) t r' ∧ t ≠ [] ∧ Exhausted r'

section Fuel

variable {fuel fuel' lines lines' : ℕ} {tempstr t : List κ} {chunked : Bool} {r r' r₁ : Request κ}

theorem nextLine_below (hle : fuel ≤ fuel') :
    Below (nextLine fuel r tempstr) (nextLine fuel' r tempstr) :=
  .bind (gftpGetLine_below hle) fun _ => .refl _

theorem nextLine_settles (tempstr : List κ) (hfuel : weight r.session + 1 < fuel) :
    Settled (nextLine fuel r tempstr) := by
  refine .bind (gftpGetLine_settles wanes_chunkedRead hfuel) fun res _ => ?_
  cases res.ret with
  | error e => exact .ok _
  | ok n => exact .ok _

theorem headerLoop_line (lines : ℕ) (chunked : Bool)
    (h : nextLine fuel r tempstr = .ok (.ok t, r₁)) (hne : t ≠ []) :
    ∃ c, headerLoop fuel (lines + 1) tempstr chunked r = headerLoop fuel lines t c (noteLine t r₁) := by
  simp only [headerLoop, h, CRun.ok_bind, if_neg hne, noteLine]
  cases announcedLength t with
  | none => exact ⟨_, rfl⟩
  | some n => exact ⟨_, rfl⟩

theorem headerLoop_below (hle : fuel ≤ fuel') (hlines : lines ≤ lines') :
    Below (headerLoop fuel lines tempstr chunked r) (headerLoop fuel' lines' tempstr chunked r) := by
  induction lines generalizing lines' tempstr chunked r with
  | zero => exact .pending _
  | succ lines ih =>
    obtain ⟨lines', rfl⟩ := Nat.exists_eq_succ_of_ne_zero (show lines' ≠ 0 by omega)
    refine .bind (nextLine_below hle) fun call => ?_
    obtain ⟨ret, r₁⟩ := call
    cases ret with
    | error e => exact .refl _
    | ok t =>
      simp only
      split
      · exact .refl _
      · split
        · exact ih (by omega)
        · exact ih (by omega)

theorem ReadsHeader.more (h : ReadsHeader fuel tempstr r t r') (hle : fuel ≤ fuel') :
    ReadsHeader fuel' tempstr r t r' := by
  induction h with
  | nil tempstr r => exact .nil tempstr r
  | cons hline hne _ ih => exact .cons ((nextLine_below hle).ok_eq hline) hne ih

theorem readResponse_below (hle : fuel ≤ fuel') :
    Below (rfc2068ReadResponse fuel r) (rfc2068ReadResponse fuel' r) := by
  refine .bind (headerLoop_below hle hle) fun header => ?_
  obtain ⟨ret, r₁⟩ := header
  cases ret with
  | error e => exact .refl _
  | ok chunked =>
    cases chunked with
    | false => exact .refl _
    | true => exact .bind (nextLine_below hle) fun _ => .refl _

end Fuel

section Quiet

variable {fuel lines : ℕ} {tempstr t : List κ} {chunked : Bool} {r r' : Request κ} {s : Session κ}

/-- A read of a whole line buffer delivers nothing then, and changes nothing that matters. -/
theorem chunkedRead_of_quiet (hextra : s.extraReadBuffer = none) (h : Quiet lineSize s) :
    ∃ stored s', rfc2068ChunkedRead lineSize s = .ok (⟨.ok 0, stored⟩, s') ∧ stored.length ≤ 1 ∧
      s'.extraReadBuffer = none ∧ s'.contentLength = s.contentLength ∧ Quiet lineSize s' := by
  have hround : ∀ stored s₁, startPass lineSize s.enter = some (.ok (.returned (⟨.ok 0, stored⟩, s₁))) →
      rfc2068ChunkedRead lineSize s = .ok (⟨.ok 0, stored⟩, s₁.leave) := by
    intro stored s₁ hstart
    simp only [rfc2068ChunkedRead, chunkedReadPass, hstart, CRun.ok_bind, finishPass]
  by_cases hdone : 0 < s.contentLength ∧ s.contentLength = s.readBytes
  · refine ⟨[], s, ?_, by simp, hextra, rfl, h⟩
    refine hround [] s.enter ?_
    simp only [startPass, Session.enter, hextra, if_pos hdone]
  · have hstart : startPass lineSize s.enter =
        some (receive [] lineSize (readSize lineSize s) s.enter) := by
      simp only [startPass, Session.enter, hextra, if_neg hdone]
      rfl
    by_cases hread : 0 < readSize lineSize s ∧ s.eof = false
    · obtain ⟨k, hfd, hend⟩ : ∃ k, s.datafd = some k ∧ k.stream = [] := by
        rcases h with hdone' | hzero | heof | hend
        · exact absurd hdone' hdone
        · omega
        · simp [heof] at hread
        · exact hend
      refine ⟨[], { s with datafd := some ⟨[], k.received, k.received :: k.asked⟩ }, ?_, by simp,
        hextra, rfl, .inr (.inr (.inr ⟨_, rfl, rfl⟩))⟩
      refine hround [] { s.enter with datafd := some ⟨[], k.received, k.received :: k.asked⟩ } ?_
      rw [hstart, receive, if_pos (show 0 < readSize lineSize s ∧ s.enter.eof = false from hread)]
      simp [Session.enter, gftpFdRead, hfd, hend, readCells]
    · refine ⟨[nul], s, hround [nul] s.enter ?_, by simp, hextra, rfl, h⟩
      rw [hstart, receive, if_neg (show ¬ (0 < readSize lineSize s ∧ s.enter.eof = false) from hread),
        decode]
      split
      · simp [decodeLoop]
      · rfl

/-- A call on a buffer without unread bytes then returns 0 and leaves the line in tempstr. -/
theorem nextLine_of_emptied (fuel : ℕ) {b : GetlineBuffer κ} {pos : Option ℕ} (hbuf : r.rbuf = some b)
    (hcount : b.curBufsize = 0) (hmax : b.maxBufsize = lineSize) (hroom : b.buffer ≠ [])
    (heof : b.eof = false) (hfind : strchr b.buffer b.curpos 10 = .ok pos)
    (hextra : r.session.extraReadBuffer = none) (hquiet : Quiet lineSize r.session) :
    ∃ r₁, nextLine (fuel + 1) r t = .ok (.ok t, r₁) ∧ Exhausted r₁ ∧
      r₁.session.contentLength = r.session.contentLength := by
  obtain ⟨stored, s', hread, hstored, hextra', hlength, hquiet'⟩ := chunkedRead_of_quiet hextra hquiet
  refine ⟨{ r with rbuf := none, session := s' }, ?_, ⟨rfl, hextra', hquiet'⟩, hlength⟩
  obtain ⟨block, hblock⟩ : ∃ block, store b.buffer 0 stored = .ok block := by
    have hpos := List.length_pos_iff.mpr hroom
    rw [store, if_pos (by omega)]
    exact ⟨_, rfl⟩
  have hcall : gftpGetLine rfc2068ChunkedRead (fuel + 1) r.rbuf lineSize r.session =
      .ok ⟨.ok 0, [], none, s'⟩ := by
    simp only [gftpGetLine, hbuf, getLineLoop, hfind, CRun.ok_bind, hcount, Nat.lt_irrefl, false_and,
      if_false, compact, true_or, if_true, nextRead, heof, Bool.false_eq_true, hmax, hread, hblock,
      and_self]
    rfl
  simp only [nextLine, hcall, CRun.ok_bind]
  rfl

/-- A call then returns 0 and leaves the line in tempstr. -/
theorem nextLine_of_exhausted (fuel : ℕ) (t : List κ) (h : Exhausted r) :
    ∃ r₁, nextLine fuel r t = .ok (.ok t, r₁) ∧ Exhausted r₁ ∧
      r₁.session.contentLength = r.session.contentLength := by
  obtain ⟨stored, s', hread, hstored, hextra, hlength, hquiet⟩ :=
    chunkedRead_of_quiet h.extra h.quiet
  refine ⟨{ r with rbuf := none, session := s' }, ?_, ⟨rfl, hextra, hquiet⟩, hlength⟩
  obtain ⟨block, hblock⟩ : ∃ block, store (List.replicate (lineSize + 1) nul) 0 stored = .ok block := by
    rw [store, if_pos (by rw [List.length_replicate, lineSize]; omega)]
    exact ⟨_, rfl⟩
  have hcall : gftpGetLine rfc2068ChunkedRead fuel r.rbuf lineSize r.session =
      .ok ⟨.ok 0, [], none, s'⟩ := by
    simp only [gftpGetLine, h.rbuf, hread, CRun.ok_bind, hblock, if_true]
    rfl
  simp only [nextLine, hcall, CRun.ok_bind]
  rfl

/-- The line in tempstr has been looked at. -/
def Noted (tempstr : List κ) (r : Request κ) : Prop :=
  (announcedLength tempstr).getD r.session.contentLength = r.session.contentLength

theorem noted_noteLine (tempstr : List κ) (r : Request κ) : Noted tempstr (noteLine tempstr r) := by
  unfold Noted noteLine
  cases announcedLength tempstr <;> rfl

theorem Exhausted.noteLine (h : Exhausted r) (hnoted : Noted t r) :
    Exhausted (HttpHeaderEnd.noteLine t r) := by
  have hsame : (HttpHeaderEnd.noteLine t r).session = r.session := by
    unfold Noted at hnoted
    simp only [HttpHeaderEnd.noteLine, hnoted]
  exact ⟨h.rbuf, hsame ▸ h.extra, hsame ▸ h.quiet⟩

/-- Where nothing more comes the loop goes on for ever. -/
theorem headerLoop_exhausted (h : Exhausted r) (hnoted : Noted t r) (hne : t ≠ []) :
    headerLoop fuel lines t chunked r = .error .pending := by
  induction lines generalizing chunked r with
  | zero => rfl
  | succ lines ih =>
    obtain ⟨r₁, hcall, h₁, hlength⟩ := nextLine_of_exhausted fuel t h
    obtain ⟨c, hloop⟩ := headerLoop_line lines chunked hcall hne
    rw [hloop]
    refine ih (h₁.noteLine ?_) (noted_noteLine t r₁)
    unfold Noted at hnoted ⊢
    rw [hlength]
    exact hnoted

theorem ReadsHeader.noted (h : ReadsHeader fuel tempstr r t r') :
    t = tempstr ∧ r' = r ∨ Noted t r' := by
  induction h with
  | nil tempstr r => exact .inl ⟨rfl, rfl⟩
  | @cons tempstr t t' r r₁ r' hline hne hmore ih =>
    rcases ih with ⟨rfl, rfl⟩ | hnoted
    · exact .inr (noted_noteLine _ _)
    · exact .inr hnoted

theorem ReadsHeader.pending (h : ReadsHeader fuel tempstr r t r') (hend : Exhausted r')
    (hnoted : Noted t r') (hne : t ≠ []) :
    headerLoop fuel lines tempstr chunked r = .error .pending := by
  induction h generalizing lines chunked with
  | nil tempstr r => exact headerLoop_exhausted hend hnoted hne
  | cons hline hne₁ _ ih =>
    cases lines with
    | zero => rfl
    | succ lines =>
      obtain ⟨c, hloop⟩ := headerLoop_line lines chunked hline hne₁
      rw [hloop]
      exact ih hend hnoted hne

end Quiet

section Returning

variable {fuel : ℕ} {tempstr t : List κ} {chunked : Bool} {r r₁ : Request κ}

theorem nextLine_progress (h : nextLine fuel r tempstr = .ok (.ok t, r₁)) :
    effort weight r₁.rbuf r₁.session < effort weight r.rbuf r.session ∨
      Exhausted r ∧ t = tempstr := by
  simp only [nextLine] at h
  obtain ⟨res, hcall, h⟩ := CRun.bind_eq_ok.mp h
  cases hret : res.ret with
  | error e => simp [hret, pure, Except.pure] at h
  | ok n =>
    simp only [hret, pure, Except.pure, Except.ok.injEq, Prod.mk.injEq] at h
    obtain ⟨rfl, rfl⟩ := h
    rcases gftpGetLine_progress wanes_chunkedRead hcall hret with hlt | ⟨hnone, hres, rfl, rd, hread, hzero⟩
    · exact .inl hlt
    · obtain ⟨hleft, hstash, hstream⟩ := chunkedReadPass_left hread hzero
      have hstash := hstash rfl
      by_cases hlower : weight res.state < weight r.session
      · refine .inl ?_
        simp only [effort, Prod.Lex.toLex_lt_toLex]
        rw [hres, hnone]
        exact .inr ⟨rfl, .inl hlower⟩
      · have hafter : weight res.state = 2 * left res.state := by
          simp [weight, hstash]
        have hextra : r.session.extraReadBuffer = none := by
          cases hex : r.session.extraReadBuffer with
          | none => rfl
          | some extra =>
            have hbefore : weight r.session = 2 * left r.session + 1 := by simp [weight, hex]
            omega
        have hbefore : weight r.session = 2 * left r.session := by simp [weight, hextra]
        refine .inr ⟨⟨hnone, hextra, ?_⟩, rfl⟩
        refine (chunkedReadPass_quiet (by decide) hextra hread hzero).resolve_left ?_
        simp only [left, stashed, hstash, hextra, Option.getD_none, List.length_nil] at hafter hbefore
        omega

/-- The header loop comes to its end, or to lines behind which nothing more comes. -/
theorem headerLoop_settles_or (tempstr : List κ) (r : Request κ) :
    (∃ fuel, ∀ chunked, Settled (headerLoop fuel fuel tempstr chunked r)) ∨
      ∃ fuel t r', ReadsHeader fuel tempstr r t r' ∧ t ≠ [] ∧ Exhausted r' := by
  induction hn : effort weight r.rbuf r.session using WellFoundedLT.induction generalizing tempstr r with
  | ind n ih =>
    subst hn
    have hsettled := nextLine_settles tempstr (Nat.lt_succ_self (weight r.session + 1))
    cases hcall : nextLine (weight r.session + 1 + 1) r tempstr with
    | error e =>
      refine .inl ⟨weight r.session + 1 + 1, fun chunked => ?_⟩
      rw [hcall] at hsettled
      rw [headerLoop, hcall]
      exact hsettled.bind fun call h => by simp at h
    | ok call =>
      obtain ⟨ret, r₁⟩ := call
      cases ret with
      | error e =>
        refine .inl ⟨weight r.session + 1 + 1, fun chunked => ?_⟩
        rw [headerLoop, hcall]
        exact .ok _
      | ok t =>
        by_cases ht : t = []
        · refine .inl ⟨weight r.session + 1 + 1, fun chunked => ?_⟩
          rw [headerLoop, hcall]
          simp only [CRun.ok_bind, if_pos ht]
          exact .ok _
        · rcases nextLine_progress hcall with hlt | ⟨hend, rfl⟩
          · rcases ih _ hlt t (noteLine t r₁) rfl with ⟨fuel, hdone⟩ | ⟨fuel, t', r', hreads, hrest⟩
            · refine .inl ⟨weight r.session + 1 + 1 + fuel, fun chunked => ?_⟩
              have hmore := (nextLine_below (show weight r.session + 1 + 1 ≤ weight r.session + 1 + 1 + fuel
                by omega)).ok_eq hcall
              obtain ⟨c, hloop⟩ := headerLoop_line (weight r.session + 1 + fuel) chunked hmore ht
              rw [show weight r.session + 1 + 1 + fuel = weight r.session + 1 + fuel + 1 by omega] at hloop ⊢
              rw [hloop]
              exact (hdone c).below (headerLoop_below (by omega) (by omega))
            · refine .inr ⟨max (weight r.session + 1 + 1) fuel, t', r', ?_, hrest⟩
              exact .cons ((nextLine_below (le_max_left _ _)).ok_eq hcall) ht
                (hreads.more (le_max_right _ _))
          · exact .inr ⟨0, t, r, .nil t r, ht, hend⟩

end Returning

theorem firstChunk_settled {v : ℤ} {b : GetlineBuffer κ} {s : Session κ} :
    Settled (firstChunk v b s) := by
  unfold firstChunk
  simp only
  split
  · refine .bind ?_ fun _ _ => .ok _
    unfold stashBehind
    split
    · exact .bind (store_settled _ _ _) fun _ _ => .ok _
    · exact .fault
  · exact .ok _

theorem readResponse_settles {fuel : ℕ} {r : Request κ}
    (h : ∀ chunked, Settled (headerLoop fuel fuel [] chunked (resetResponse r))) :
    ∃ fuel, Settled (rfc2068ReadResponse fuel r) := by
  obtain ⟨enough, hle, hline⟩ : ∃ enough, fuel ≤ enough ∧ ∀ ret r₁,
      headerLoop fuel fuel [] false (resetResponse r) = .ok (ret, r₁) →
        weight r₁.session + 1 < enough := by
    cases headerLoop fuel fuel [] false (resetResponse r) with
    | error e => exact ⟨fuel, le_rfl, by simp⟩
    | ok header =>
      refine ⟨max fuel (weight header.2.session + 2), le_max_left _ _, ?_⟩
      rintro ret r₁ hheader
      obtain rfl := Except.ok.inj hheader
      exact Nat.lt_of_lt_of_le (Nat.lt_succ_self _) (le_max_right _ _)
  have hheader := (headerLoop_below hle hle).settled_eq (h false)
  refine ⟨enough, .bind (hheader ▸ h false) fun header hcall => ?_⟩
  rw [hheader] at hcall
  obtain ⟨ret, r₁⟩ := header
  cases ret with
  | error e => exact .ok _
  | ok chunked =>
    cases chunked with
    | false => exact .ok _
    | true =>
      refine .bind (nextLine_settles _ (hline _ _ hcall)) fun call _ => ?_
      obtain ⟨ret, r₂⟩ := call
      cases ret with
      | error e => exact .ok _
      | ok tempstr =>
        simp only
        split
        · exact .ok _
        · split
          · exact .ok _
          · split
            · exact .fault
            · exact .bind firstChunk_settled fun _ _ => .ok _

theorem CutOff.pending {r : Request κ} (h : CutOff r) (fuel : ℕ) :
    rfc2068ReadResponse fuel r = .error .pending := by
  obtain ⟨fuel', t, r', hreads, hne, hend⟩ := h
  have hnoted : Noted t r' := hreads.noted.resolve_left fun h => hne h.1
  have hpending : rfc2068ReadResponse (max fuel fuel') r = .error .pending := by
    simp only [rfc2068ReadResponse]
    rw [(hreads.more (le_max_right fuel fuel')).pending hend hnoted hne]
    rfl
  by_contra hsettled
  exact Settled.below hsettled (readResponse_below (le_max_left fuel fuel')) hpending

/-- The function returns if and only if the stream does not end inside the header, behind a line
of it and in front of the empty line. -/
theorem response_ends_iff (r : Request κ) :
    (∃ fuel, Settled (rfc2068ReadResponse fuel r)) ↔ ¬ CutOff r := by
  constructor
  · rintro ⟨fuel, hsettled⟩ hcut
    exact hsettled (hcut.pending fuel)
  · intro hwhole
    obtain ⟨fuel, hdone⟩ := (headerLoop_settles_or [] (resetResponse r)).resolve_right hwhole
    exact readResponse_settles hdone

/-- A connected request after rfc2068_init. -/
def connected (stream : CellStream Unit UInt8) (received : ℕ) (asked : List ℕ) : Session UInt8 :=
  ⟨received, 0, 0, false, false, 0, none, some ⟨stream, received, asked⟩⟩

def statusLine : Bytes := ascii "HTTP/1.0 200 OK"

/-- The server closes the connection behind the status line. -/
def statusAlone : Request UInt8 :=
  ⟨none, connected [.ok (statusLine ++ [13, 10])] 0 [], none⟩

/-- The status line has been read, no byte is left in the buffer, and the stream is at its end. -/
def StatusRead (out : CRun (Except GftpError Bytes × Request UInt8)) : Prop :=
  match out with
  | .ok (.ok t, ⟨some b, s, _⟩) => t = statusLine ∧ s = connected [] 17 [0] ∧ b.curBufsize = 0 ∧
      b.maxBufsize = lineSize ∧ b.buffer ≠ [] ∧ b.eof = false ∧
      strchr b.buffer b.curpos 10 = .ok none
  | _ => False

instance : DecidablePred StatusRead := fun out => by
  unfold StatusRead
  split
  · exact inferInstance
  · exact inferInstance

set_option maxRecDepth 100000 in
theorem statusAlone_read : StatusRead (nextLine 3 (resetResponse statusAlone) []) := by
  decide

/-- The next call returns 0, and nothing more comes. -/
theorem StatusRead.readsHeader {r : Request UInt8} (h : StatusRead (nextLine 3 r [])) :
    ∃ r', ReadsHeader 3 [] r statusLine r' ∧ Exhausted r' := by
  unfold StatusRead at h
  split at h
  · rename_i t b s response hfirst
    obtain ⟨rfl, rfl, hcount, hmax, hroom, heof, hfind⟩ := h
    obtain ⟨r₁, hsecond, hend, -⟩ := nextLine_of_emptied 2 (t := statusLine)
      (r := noteLine statusLine ⟨some b, connected [] 17 [0], response⟩) rfl hcount hmax hroom heof
      hfind rfl (.inr (.inr (.inr ⟨_, rfl, rfl⟩)))
    have hnoted : Noted statusLine r₁ := by
      have hnone : announcedLength statusLine = none := by decide
      simp [Noted, hnone]
    exact ⟨_, .cons hfirst (by decide) (.cons hsecond (by decide) (.nil _ _)), hend.noteLine hnoted⟩
  · exact h.elim

theorem statusAlone_cutOff : CutOff statusAlone := by
  obtain ⟨r', hreads, hend⟩ := statusAlone_read.readsHeader
  exact ⟨3, statusLine, r', hreads, by decide, hend⟩

/-- It is never returned from. -/
theorem statusAlone_never_returns : ¬ ∃ fuel, Settled (rfc2068ReadResponse fuel statusAlone) := by
  rintro ⟨fuel, hsettled⟩
  exact hsettled (statusAlone_cutOff.pending fuel)

end Gftp.HttpHeaderEnd
