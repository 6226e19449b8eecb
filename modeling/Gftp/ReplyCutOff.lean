import Gftp.ReplyLines

/-!
rfc959_read_response on a control connection that closes inside a reply. The end of the
stream leaves the loop like a final line, and what stands in tempstr then is answered:
the last line that was read, or nothing the server sent when there was none.
-/

namespace Gftp.ReplyCutOff

open ByteStrings Cells Cell Decimal FtpReplies Fuel LineSource Protocol ReplyLines Sockets

/-- Successive calls of gftp_get_line on the control connection return the lines. -/
inductive ReadsLines (fuel : ℕ) : FtpRequest UInt8 → List Bytes → FtpRequest UInt8 → Prop
  | nil (r : FtpRequest UInt8) : ReadsLines fuel r [] r
  | cons {r r₁ r' : FtpRequest UInt8} {n : ℕ} {l : Bytes} {ls : List Bytes}
      (h : replyLine fuel r = .ok ((.ok n, l), r₁)) (hn : n ≠ 0) (hls : ReadsLines fuel r₁ ls r') :
      ReadsLines fuel r (l :: ls) r'

/-- The line is taken for the end of the reply that the lines before belong to. -/
def Ends (before : List Bytes) (l : Bytes) : Prop :=
  BeginsCode l ∨ l = [] ∧ ∀ m ∈ before, ¬ ThreeDigits m

instance {before : List Bytes} {l : Bytes} : Decidable (Ends before l) :=
  inferInstanceAs (Decidable (_ ∨ _))

/-- None of the lines that follow the lines before is taken for the end. -/
def NoneEnds : List Bytes → List Bytes → Prop
  | _, [] => True
  | before, l :: ls => ¬ Ends before l ∧ NoneEnds (before ++ [l]) ls

/-- The line that stands in tempstr when the loop ends: one that is taken for the end of the
reply, or at the end of the stream the last line, or what tempstr held when there is none. -/
def LeftIn (fuel : ℕ) (tempstr : Bytes) (r : FtpRequest UInt8) (line : Bytes) : Prop :=
  ∃ ls r₁, ReadsLines fuel r ls r₁ ∧ NoneEnds [] ls ∧
    ((∃ n r', replyLine fuel r₁ = .ok ((.ok n, line), r') ∧ n ≠ 0 ∧ Ends ls line) ∨
      ∃ str r', replyLine fuel r₁ = .ok ((.ok 0, str), r') ∧ line = ls.getLast?.getD tempstr)

/-- A read fails before the loop has ended. -/
def ReadFails (fuel : ℕ) (r : FtpRequest UInt8) : Prop :=
  ∃ ls r₁ e str r', ReadsLines fuel r ls r₁ ∧ NoneEnds [] ls ∧
    replyLine fuel r₁ = .ok ((.error e, str), r')

/-- The result is below zero; a char is a signed byte. -/
def Negative : Except GftpError UInt8 → Prop
  | .error _ => True
  | .ok c => 128 ≤ c

/-- The line makes the result negative. -/
def Refused (disconnectOn42x : Bool) (line : Bytes) : Prop :=
  line.take 2 = ascii "42" ∧ disconnectOn42x = true ∨ 128 ≤ line.head?.getD 0

instance {disconnectOn42x : Bool} {line : Bytes} : Decidable (Refused disconnectOn42x line) :=
  inferInstanceAs (Decidable (_ ∨ _))

/-- code is empty as long as no line has begun with three digits. -/
structure Remembers (before : List Bytes) (code : Bytes) : Prop where
  shape : IsCode code
  empty : code = [] ↔ ∀ m ∈ before, ¬ ThreeDigits m

theorem remembers_nil : Remembers [] [] := ⟨.inl rfl, by simp⟩

section Loop

variable {fuel lines n : ℕ} {before ls : List Bytes} {code tempstr l line : Bytes}
  {r r₁ r' : FtpRequest UInt8} {ret : Except GftpError ℕ}

theorem Remembers.next (h : Remembers before code) : Remembers (before ++ [l]) (nextCode code l) := by
  refine ⟨isCode_next h.shape, ?_⟩
  rw [nextCode_bytes]
  split
  · rename_i hl
    simp only [List.append_eq_nil_iff, List.cons_ne_nil, and_false, false_iff, not_forall, not_not]
    exact ⟨l, by simp, hl⟩
  · rename_i hl
    rw [h.empty]
    simp only [List.mem_append, List.mem_singleton]
    exact ⟨fun hm m hmem => hmem.elim (hm m) (fun heq => heq ▸ hl), fun hm m hmem => hm m (.inl hmem)⟩

theorem Remembers.lastLine_iff (h : Remembers before code) :
    lastLine (nextCode code l) l = true ↔ Ends before l := by
  rw [ReplyLines.lastLine_iff h.shape, h.empty, Ends, and_comm]

theorem getLast_cons (l : Bytes) (ls : List Bytes) (tempstr : Bytes) :
    (l :: ls).getLast?.getD tempstr = ls.getLast?.getD l := by
  cases ls with
  | nil => rfl
  | cons m ls => rw [List.getLast?_cons_cons]; cases h : (m :: ls).getLast? <;> simp_all

/-- Where a loop that returns has stopped. -/
theorem replyLoop_left (hcode : Remembers before code)
    (h : replyLoop fuel lines code tempstr r = .ok ((ret, line), r')) :
    ∃ ls r₁, ReadsLines fuel r ls r₁ ∧ NoneEnds before ls ∧
      ((∃ n, replyLine fuel r₁ = .ok ((.ok n, line), r') ∧ n ≠ 0 ∧ Ends (before ++ ls) line ∧
          ret = .ok n) ∨
        (∃ str, replyLine fuel r₁ = .ok ((.ok 0, str), r') ∧ line = ls.getLast?.getD tempstr ∧
          ret = .ok 0) ∨
        ∃ e str, replyLine fuel r₁ = .ok ((.error e, str), r') ∧ ret = .error e) := by
  induction lines generalizing before code tempstr r with
  | zero => simp [replyLoop] at h
  | succ lines ih =>
    simp only [replyLoop] at h
    obtain ⟨⟨⟨result, str⟩, r₁⟩, hline, h⟩ := CRun.bind_eq_ok.mp h
    cases result with
    | error e =>
      simp only [pure, Except.pure, Except.ok.injEq, Prod.mk.injEq] at h
      obtain ⟨⟨rfl, rfl⟩, rfl⟩ := h
      exact ⟨[], r, .nil r, trivial, .inr (.inr ⟨e, str, hline, rfl⟩)⟩
    | ok n =>
      simp only at h
      split at h
      · rename_i hzero
        subst hzero
        simp only [pure, Except.pure, Except.ok.injEq, Prod.mk.injEq] at h
        obtain ⟨⟨rfl, rfl⟩, rfl⟩ := h
        exact ⟨[], r, .nil r, trivial, .inr (.inl ⟨str, hline, rfl, rfl⟩)⟩
      · rename_i hn
        split at h
        · rename_i hlast
          simp only [pure, Except.pure, Except.ok.injEq, Prod.mk.injEq] at h
          obtain ⟨⟨rfl, rfl⟩, rfl⟩ := h
          refine ⟨[], r, .nil r, trivial, .inl ⟨n, hline, hn, ?_, rfl⟩⟩
          rw [List.append_nil]
          exact hcode.lastLine_iff.mp hlast
        · rename_i hgo
          obtain ⟨ls, r₂, hreads, hnone, hstop⟩ := ih hcode.next h
          refine ⟨str :: ls, r₂, .cons hline hn hreads,
            ⟨fun hend => hgo (hcode.lastLine_iff.mpr hend), hnone⟩, ?_⟩
          rwa [getLast_cons, List.append_cons before str ls]

/-- The loop follows the calls that return lines. -/
theorem replyLoop_follows (lines : ℕ) (tempstr : Bytes) (hcode : Remembers before code) (hreads : ReadsLines fuel r ls r₁)
    (hnone : NoneEnds before ls) :
    ∃ code', Remembers (before ++ ls) code' ∧
      replyLoop fuel (ls.length + lines) code tempstr r =
        replyLoop fuel lines code' (ls.getLast?.getD tempstr) r₁ := by
  induction hreads generalizing before code tempstr with
  | nil r => exact ⟨code, by rwa [List.append_nil], by simp⟩
  | @cons r r₁ r' n l ls hline hn _ ih =>
    obtain ⟨code', hcode', hloop⟩ := ih l (hcode.next (l := l)) hnone.2
    refine ⟨code', by rwa [List.append_cons before l ls], ?_⟩
    rw [List.length_cons, Nat.add_right_comm, replyLoop_line hline hn,
      if_neg (fun hlast => hnone.1 (hcode.lastLine_iff.mp hlast)), hloop, getLast_cons]

end Loop

section Enough

variable {fuel fuel' : ℕ} {r r' : FtpRequest UInt8} {ls : List Bytes}

theorem replyLine_below (hle : fuel ≤ fuel') : Below (replyLine fuel r) (replyLine fuel' r) :=
  .bind (gftpGetLine_below hle) fun _ => .refl _

theorem ReadsLines.more (h : ReadsLines fuel r ls r') (hle : fuel ≤ fuel') :
    ReadsLines fuel' r ls r' := by
  induction h with
  | nil r => exact .nil r
  | cons hline hn _ ih => exact .cons ((replyLine_below hle).ok_eq hline) hn ih

end Enough

section Response

variable {disconnectOn42x : Bool} {tempstr line : Bytes} {r : FtpRequest UInt8}

/-- The request without the response of the command before. -/
def cleared (r : FtpRequest UInt8) : FtpRequest UInt8 := { r with lastFtpResponse := none }

theorem negative_of_line :
    Negative (if line.take 2 = ascii "42" ∧ disconnectOn42x = true then .error .timedOut
      else .ok (line.head?.getD 0)) ↔ Refused disconnectOn42x line := by
  split
  · rename_i h
    exact ⟨fun _ => .inl h, fun _ => trivial⟩
  · rename_i h
    exact ⟨.inr, fun href => href.resolve_left h⟩

theorem loop_of_readResponse (hopen : r.fds.control ≠ none) {fuel : ℕ}
    {result : Except GftpError UInt8 × FtpRequest UInt8}
    (h : rfc959ReadResponse fuel disconnectOn42x tempstr r = .ok result) :
    ∃ numRead line r₁, replyLoop fuel fuel [] tempstr (cleared r) = .ok ((numRead, line), r₁) := by
  have hclosed : ¬ r.fds.control.isNone = true := by simpa using hopen
  simp only [rfc959ReadResponse, if_neg hclosed] at h
  obtain ⟨⟨⟨numRead, line⟩, r₁⟩, hloop, -⟩ := CRun.bind_eq_ok.mp h
  exact ⟨numRead, line, r₁, hloop⟩

/-- The loop has stopped at a line or at the end of the stream. -/
theorem readResponse_left (disconnectOn42x : Bool) (hopen : r.fds.control ≠ none) {fuel : ℕ}
    (h : LeftIn fuel tempstr (cleared r) line) :
    ∃ fuel ret r', rfc959ReadResponse fuel disconnectOn42x tempstr r = .ok (ret, r') ∧
      (Negative ret ↔ Refused disconnectOn42x line) := by
  obtain ⟨ls, r₁, hreads, hnone, hstop⟩ := h
  have hle : fuel ≤ fuel + ls.length + 1 := by omega
  obtain ⟨code, hcode, hloop⟩ := replyLoop_follows (fuel + 1) tempstr remembers_nil (hreads.more hle) hnone
  rw [show ls.length + (fuel + 1) = fuel + ls.length + 1 by omega] at hloop
  obtain ⟨n, r', hend⟩ : ∃ n r', replyLoop (fuel + ls.length + 1) (fuel + ls.length + 1) [] tempstr
      (cleared r) = .ok ((.ok n, line), r') := by
    rw [hloop]
    rcases hstop with ⟨n, r', hline, hn, hends⟩ | ⟨str, r', hline, rfl⟩
    · refine ⟨n, r', ?_⟩
      rw [replyLoop_line ((replyLine_below hle).ok_eq hline) hn, if_pos (hcode.lastLine_iff.mpr hends)]
    · refine ⟨0, r', ?_⟩
      simp only [replyLoop, (replyLine_below hle).ok_eq hline, CRun.ok_bind, if_true]
      rfl
  obtain ⟨r₂, hcall, -⟩ := readResponse_of_loop disconnectOn42x hopen hend
  exact ⟨_, _, r₂, hcall, negative_of_line⟩

theorem readResponse_fails (hopen : r.fds.control ≠ none) {fuel : ℕ}
    (h : ReadFails fuel (cleared r)) :
    ∃ fuel e r', rfc959ReadResponse fuel disconnectOn42x tempstr r = .ok (.error e, r') := by
  obtain ⟨ls, r₁, e, str, r', hreads, hnone, hline⟩ := h
  have hle : fuel ≤ fuel + ls.length + 1 := by omega
  obtain ⟨code, hcode, hloop⟩ := replyLoop_follows (fuel + 1) tempstr remembers_nil (hreads.more hle) hnone
  rw [show ls.length + (fuel + 1) = fuel + ls.length + 1 by omega] at hloop
  refine ⟨fuel + ls.length + 1, e, r', ?_⟩
  have hclosed : ¬ r.fds.control.isNone = true := by simpa using hopen
  rw [cleared] at hloop
  simp only [rfc959ReadResponse, if_neg hclosed, hloop]
  simp only [replyLoop, (replyLine_below hle).ok_eq hline, CRun.ok_bind]
  rfl

/-- However the stream goes on, the result is negative if and only if a read fails, or the
line that is left in tempstr, at the end of the reply or of the stream, begins with 42 and the
caller asks to disconnect then, or with a byte that is negative as a char. -/
theorem negative_result_iff (hopen : r.fds.control ≠ none) :
    (∃ fuel ret r', rfc959ReadResponse fuel disconnectOn42x tempstr r = .ok (ret, r') ∧
        Negative ret) ↔
      ∃ fuel, ReadFails fuel (cleared r) ∨
        ∃ line, LeftIn fuel tempstr (cleared r) line ∧ Refused disconnectOn42x line := by
  constructor
  · rintro ⟨fuel, ret, r', hcall, hneg⟩
    refine ⟨fuel, ?_⟩
    obtain ⟨numRead, line, r₁, hloop⟩ := loop_of_readResponse hopen hcall
    have hrefused : ∀ n, numRead = .ok n → Refused disconnectOn42x line := by
      rintro n rfl
      obtain ⟨r₂, hcall', -⟩ := readResponse_of_loop disconnectOn42x hopen hloop
      rw [hcall, Except.ok.injEq, Prod.mk.injEq] at hcall'
      rw [← negative_of_line, ← hcall'.1]
      exact hneg
    obtain ⟨ls, r₂, hreads, hnone, hstop⟩ := replyLoop_left remembers_nil hloop
    rw [List.nil_append] at hstop
    rcases hstop with ⟨n, hline, hn, hends, hret⟩ | ⟨str, hline, hlast, hret⟩ | ⟨e, str, hline, -⟩
    · exact .inr ⟨line, ⟨ls, r₂, hreads, hnone, .inl ⟨n, r₁, hline, hn, hends⟩⟩, hrefused n hret⟩
    · exact .inr ⟨line, ⟨ls, r₂, hreads, hnone, .inr ⟨str, r₁, hline, hlast⟩⟩, hrefused 0 hret⟩
    · exact .inl ⟨ls, r₂, e, str, r₁, hreads, hnone, hline⟩
  · rintro ⟨fuel, hfails | ⟨line, hleft, hrefused⟩⟩
    · obtain ⟨fuel, e, r', hcall⟩ := readResponse_fails hopen hfails
      exact ⟨fuel, _, r', hcall, trivial⟩
    · obtain ⟨fuel, ret, r', hcall, hiff⟩ := readResponse_left disconnectOn42x hopen hleft
      exact ⟨fuel, ret, r', hcall, hiff.mpr hrefused⟩

end Response

section Text

variable {fuel : ℕ} {r : FtpRequest UInt8} {ls : List Bytes} {rest tempstr : Bytes}

/-- The control connection is open and closes without a failure. -/
def Closing (f : Fds UInt8) : Prop :=
  ∃ k, f.control = some k ∧ ∀ x ∈ k.stream, ∃ c d, x = .ok (c :: d)

theorem readCells_closing {n : ℕ} {s s' : CellStream Unit UInt8} {d : Bytes}
    (h : readCells n s = (.ok d, s')) (hs : ∀ x ∈ s, ∃ c d, x = .ok (c :: d)) :
    ∀ x ∈ s', ∃ c d, x = .ok (c :: d) := by
  match s with
  | [] =>
    simp only [readCells, Prod.mk.injEq] at h
    rw [← h.2]
    exact hs
  | .error e :: rest => simp [readCells] at h
  | .ok b :: rest =>
    simp only [readCells] at h
    split at h
    · simp only [Prod.mk.injEq] at h
      rw [← h.2]
      exact fun x hx => hs x (List.mem_cons_of_mem _ hx)
    · rename_i hlong
      simp only [Prod.mk.injEq] at h
      rw [← h.2]
      intro x hx
      rcases List.mem_cons.mp hx with rfl | hx
      · obtain ⟨c, d, hdrop⟩ := List.exists_cons_of_ne_nil
          (fun hnil => hlong (List.drop_eq_nil_iff.mp hnil))
        exact ⟨c, d, by rw [hdrop]⟩
      · exact hs x (List.mem_cons_of_mem _ hx)

theorem feeds_closing : LineFeeds.Feeds readControl ready Closing where
  more n f hf hn hne := by
    obtain ⟨k, hcontrol, hstream⟩ := hf
    simp only [ready, hcontrol] at hne ⊢
    obtain ⟨d, s', hread, hd, hlen, hsplit⟩ := readCells_arriving hn hne
    refine ⟨d, { f with control := some ⟨s', k.received + d.length, k.received :: k.asked⟩ }, ?_,
      hd, hlen, hsplit, _, rfl, readCells_closing hread hstream⟩
    simp only [readControl, readFrom, hcontrol, gftpFdRead, hread]

theorem closes_closing : LineFeeds.Closes readControl ready Closing where
  done n f hf hend := by
    obtain ⟨k, hcontrol, hstream⟩ := hf
    have hnil : k.stream = [] := by
      cases hs : k.stream with
      | nil => rfl
      | cons x s =>
        obtain ⟨c, d, rfl⟩ := hstream x (by simp [hs])
        simp [ready, hcontrol, hs, arriving] at hend
    refine ⟨{ f with control := some ⟨[], k.received, k.received :: k.asked⟩ }, ?_,
      ⟨_, rfl, by simp⟩, rfl⟩
    simp only [readControl, readFrom, hcontrol, gftpFdRead, hnil, readCells, List.length_nil,
      Nat.add_zero]

/-- What is left of a text behind its last line end is a line of its own. -/
def tail (rest : Bytes) : List Bytes := if rest = [] then [] else [rest]

theorem readsLines_text (hclosing : Closing r.fds) (hw : Waiting r (wire ls ++ rest))
    (hfits : ∀ l ∈ ls, FitsReply l) (hfuel : replySize < fuel) :
    ∃ r', ReadsLines fuel r ls r' ∧ Waiting r' rest ∧ Closing r'.fds := by
  induction ls generalizing r with
  | nil => exact ⟨r, .nil r, by simpa [wire] using hw, hclosing⟩
  | cons l ls ih =>
    rw [wire_cons] at hw
    obtain ⟨r₁, hcall, hw₁, hclosing₁⟩ := replyLine_line feeds_closing hclosing
      (hfits l (by simp)) hw hfuel
    obtain ⟨r', hreads, hrest⟩ := ih hclosing₁ hw₁ (fun m hm => hfits m (by simp [hm]))
    exact ⟨r', .cons hcall (by omega) hreads, hrest⟩

theorem readsLines_tail (hclosing : Closing r.fds) (hw : Waiting r rest) (hrest : FitsReply rest)
    (hfuel : replySize < fuel) :
    ∃ r', ReadsLines fuel r (tail rest) r' ∧ Waiting r' [] ∧ Closing r'.fds := by
  unfold tail
  split
  · rename_i hnil
    exact ⟨r, .nil r, hnil ▸ hw, hclosing⟩
  · rename_i hne
    have hshort := hrest.short
    obtain ⟨res, hcall, hret, hstr, hok, hend⟩ := LineFeeds.gftpGetLine_rest feeds_closing
      closes_closing hclosing hw hne hrest.one_line hrest.nul_free (by omega)
      (show _ < fuel by omega)
    have hline : replyLine fuel r =
        .ok ((.ok rest.length, rest), { r with datafdRbuf := res.rbuf, fds := res.state }) := by
      simp only [replyLine, hcall, CRun.ok_bind, hret, hstr]
      rfl
    have hpos : rest.length ≠ 0 := fun hzero => hne (List.length_eq_zero_iff.mp hzero)
    exact ⟨_, .cons hline hpos (.nil _), hend, hok⟩

theorem ReadsLines.append {r₁ r₂ : FtpRequest UInt8} {ls' : List Bytes}
    (h : ReadsLines fuel r ls r₁) (h' : ReadsLines fuel r₁ ls' r₂) :
    ReadsLines fuel r (ls ++ ls') r₂ := by
  induction h with
  | nil => exact h'
  | cons hline hn _ ih => exact .cons hline hn (ih h')

/-- Of a text that closes before a line that ends a reply, the last line is left. -/
theorem leftIn_text (ls : List Bytes) (rest tempstr : Bytes) (hclosing : Closing r.fds) (hw : Waiting r (wire ls ++ rest))
    (hfits : ∀ l ∈ ls, FitsReply l) (hrest : FitsReply rest) (hnone : NoneEnds [] (ls ++ tail rest)) :
    LeftIn (replySize + 1) tempstr r ((ls ++ tail rest).getLast?.getD tempstr) := by
  obtain ⟨r₁, hreads, hw₁, hclosing₁⟩ := readsLines_text hclosing hw hfits
    (show replySize < replySize + 1 by omega)
  obtain ⟨r₂, hreads', hw₂, hclosing₂⟩ := readsLines_tail hclosing₁ hw₁ hrest
    (show replySize < replySize + 1 by omega)
  obtain ⟨s', hend⟩ := LineFeeds.gftpGetLine_end closes_closing replySize hclosing₂ hw₂
    (show 0 < replySize by decide)
  have hline : replyLine (replySize + 1) r₂ =
      .ok ((.ok 0, []), { r₂ with datafdRbuf := none, fds := s' }) := by
    simp only [replyLine, hend, CRun.ok_bind]
    rfl
  exact ⟨ls ++ tail rest, r₂, hreads.append hreads', hnone, .inr ⟨[], _, hline, rfl⟩⟩

end Text

theorem closing_divided {front behind : Bytes} (hfront : front ≠ []) (hbehind : behind ≠ []) :
    Closing (divided front behind).fds := by
  refine ⟨_, rfl, ?_⟩
  intro x hx
  simp only [List.mem_cons, List.not_mem_nil, or_false] at hx
  rcases hx with rfl | rfl
  · obtain ⟨c, d, rfl⟩ := List.exists_cons_of_ne_nil hfront
    exact ⟨c, d, rfl⟩
  · obtain ⟨c, d, rfl⟩ := List.exists_cons_of_ne_nil hbehind
    exact ⟨c, d, rfl⟩

/-- 421-bye and the end of the stream. -/
theorem closed_connection_refused :
    ∃ fuel ret r', rfc959ReadResponse fuel true [] (divided (ascii "421-") (ascii "bye\r\n")) =
      .ok (ret, r') ∧ Negative ret := by
  rw [negative_result_iff (by decide)]
  refine ⟨replySize + 1, .inr ⟨ascii "421-bye", ?_, .inl (by decide)⟩⟩
  exact leftIn_text [ascii "421-bye"] [] [] (closing_divided (by decide) (by decide))
    (waiting_fresh rfl) (by decide) (by decide) ⟨by decide, trivial⟩

theorem length_le_count_wire (ls : List Bytes) : ls.length ≤ (wire ls).count 10 := by
  induction ls with
  | nil => exact Nat.zero_le _
  | cons l ls ih =>
    have hcons := wire_cons l ls []
    rw [List.append_nil, List.append_nil] at hcons
    rw [hcons, List.count_append, List.count_cons_self, List.length_cons]
    omega

/-- The connection closes behind 220-a: no reply has been received, and the result is not
negative. -/
theorem digit_of_first_line :
    (∀ reply : Reply, ¬ wire reply.lines <+: ascii "220-a\r\n") ∧
      ∃ fuel ret r', rfc959ReadResponse fuel true [] (divided (ascii "220-") (ascii "a\r\n")) =
        .ok (ret, r') ∧ ¬ Negative ret := by
  constructor
  · intro reply hbegins
    have hcount : reply.lines.length ≤ 1 :=
      (length_le_count_wire reply.lines).trans (hbegins.sublist.count_le 10)
    have hbefore : reply.before = [] := by
      rw [Reply.lines, List.length_append, List.length_singleton] at hcount
      exact List.length_eq_zero_iff.mp (by omega)
    obtain ⟨rest, hrest⟩ := hbegins
    have hfourth : (wire reply.lines ++ rest)[3]? = some 32 := by
      rw [Reply.lines, hbefore, List.nil_append, wire_cons, Reply.final, List.append_assoc,
        List.append_assoc]
      exact reply.fourth 32 _
    rw [hrest] at hfourth
    exact absurd hfourth (by decide)
  · obtain ⟨fuel, ret, r', hcall, hiff⟩ := readResponse_left true
      (r := divided (ascii "220-") (ascii "a\r\n")) (by decide)
      (leftIn_text [ascii "220-a"] [] [] (closing_divided (by decide) (by decide)) (waiting_fresh rfl) (by decide) (by decide) ⟨by decide, trivial⟩)
    exact ⟨fuel, ret, r', hcall, fun hneg => absurd (hiff.mp hneg) (by decide)⟩

end Gftp.ReplyCutOff
