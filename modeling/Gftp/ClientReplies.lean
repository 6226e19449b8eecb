import Gftp.AsciiTransfers
import Gftp.ReconnectBound
import Gftp.WorkingDirectory

/-!
The functions of the FTP client that are modelled at two levels: over the bytes of a connection,
and over the replies that are met. Where the loop over the lines of a reply leaves in tempstr
what the client meets, both functions that read a reply return the same.
-/

namespace Gftp.ClientReplies

open ByteStrings Calls Call FtpClient FtpReplies Protocol ReconnectBound TextIndices
open WorkingDirectory (takeQuoted takeQuoted_shown)

section Replies

variable {env : Environment} {event : Answer → Event} {flag : Bool} {s : Client}

theorem disconnect_kept (hopen : s.datafd ≠ none) : ∃ s', disconnect env s = (some (.ok ()), s') ∧
    s'.lastFtpResponse = s.lastFtpResponse := by
  rw [disconnect, closeDataConnection, change_then, look_then,
    if_pos (Option.isSome_iff_ne_none.mpr hopen), meet_then]
  exact ⟨_, rfl, rfl⟩

theorem readResponse_kept {text : Bytes} (hopen : s.datafd ≠ none)
    (hanswer : env.answer s.time = .line text) (hascii : text.headD 0 < 128) :
    ∃ s', readResponse env event flag s =
      (some (if text.take 2 = ascii "42" ∧ flag then .error .timedOut else .ok (text.headD 0)), s') ∧
      s'.lastFtpResponse = text := by
  rw [readResponse, connected_run hopen, meet_then, change_then, hanswer]
  simp only [change_then, charRet, if_pos hascii]
  split_ifs
  · obtain ⟨s', hrun, hkept⟩ := @disconnect_kept env
      { s.note (event (.line text)) with time := s.time + 1, lastFtpResponse := text } hopen
    exact ⟨s', bind_then hrun, hkept⟩
  · exact ⟨_, rfl, rfl⟩

/-- A reply that the loop over its lines has come to the end of is the same for the client that
meets the line in tempstr. -/
theorem readResponse_agrees {r r₁ : FtpRequest UInt8} {fuel n : ℕ} {tempstr line : Bytes}
    (hcontrol : r.fds.control ≠ none) (hopen : s.datafd ≠ none)
    (hloop : replyLoop fuel fuel [] tempstr { r with lastFtpResponse := none } =
      .ok ((.ok n, line), r₁))
    (hanswer : env.answer s.time = .line line) (hascii : line.headD 0 < 128) :
    ∃ ret r' s', rfc959ReadResponse fuel flag tempstr r = .ok (ret, r') ∧
      readResponse env event flag s = (some ret, s') ∧
      r'.lastFtpResponse = some s'.lastFtpResponse := by
  obtain ⟨r', hcall, hlast⟩ := ReplyLines.readResponse_of_loop flag hcontrol hloop
  obtain ⟨s', hmeet, hkept⟩ := @readResponse_kept env event flag s line hopen hanswer hascii
  rw [← List.headD_eq_head?_getD] at hcall
  exact ⟨_, r', s', hcall, hmeet, by rw [hlast, hkept]⟩

/-- The client asks for its directory on a connection. -/
def asking : Client := { Client.start true false false false [] with datafd := some 0 }

theorem welcome_agrees : ∃ ret r' s',
    rfc959ReadResponse 256 true [] (ReplyLines.divided (ascii "230 welcome\r\n") []) = .ok (ret, r') ∧
      readResponse welcoming (.reply .pwd true) true asking = (some ret, s') ∧
      r'.lastFtpResponse = some s'.lastFtpResponse := by
  obtain ⟨r₁, hloop, -⟩ := @ReplyLines.replyLoop_reads 256 256 [] [] (ascii "230 welcome") [] []
    (ReplyLines.divided (ascii "230 welcome\r\n") []) (.inl rfl) (.inr (by simp)) (by simp)
    ⟨⟨rfl, rfl⟩, rfl⟩ (by decide) (ReplyLines.waiting_fresh rfl) (by decide) (by decide)
  exact readResponse_agrees (by decide) (by decide) hloop rfl (by decide)

end Replies

/-- A text is cut at the first of its bytes c. -/
theorem exists_cut {c : UInt8} {t : Bytes} (h : c ∈ t) : ∃ u rest, c ∉ u ∧ t = u ++ c :: rest ∧
    t.dropWhile (· ≠ c) = c :: rest ∧ t.takeWhile (· ≠ c) = u := by
  induction t with
  | nil => cases h
  | cons b t ih =>
    by_cases hb : b = c
    · subst hb
      exact ⟨[], t, List.not_mem_nil, rfl, by simp, by simp⟩
    · obtain ⟨u, rest, hu, ht, hdrop, htake⟩ := ih ((List.mem_cons.mp h).resolve_left (Ne.symm hb))
      refine ⟨b :: u, rest, ?_, by rw [ht, List.cons_append], ?_, ?_⟩
      · exact fun hmem => (List.mem_cons.mp hmem).elim (fun heq => hb heq.symm) hu
      · rw [List.dropWhile_cons_of_pos (by simpa using hb), hdrop]
      · rw [List.takeWhile_cons_of_pos (by simpa using hb), htake]

/-- The directory in a reply to PWD is the same with and without a block. -/
theorem takeQuoted_agrees {text : Bytes} (hnul : 0 ∉ text) :
    (takeQuoted text).map (Option.map Prod.fst) = .ok (quotedDirectory text) := by
  by_cases hquote : 34 ∈ text
  · obtain ⟨front, rest, hfront, rfl, hdrop, -⟩ := exists_cut hquote
    have hrest : ((front ++ 34 :: rest).dropWhile (· ≠ 34)).drop 1 = rest := by rw [hdrop]; rfl
    by_cases hclose : 34 ∈ rest
    · obtain ⟨name, tail, hname, rfl, -, htake⟩ := exists_cut hclose
      rw [takeQuoted_shown hfront hname hnul, quotedDirectory]
      simp only [hrest, htake, hquote, hclose, and_self, if_true]
      rfl
    · have hrest0 : 0 ∉ rest := fun h => hnul (by simp [h])
      have hfront0 : 0 ∉ front := fun h => hnul (by simp [h])
      have hopening : strchr (front ++ 34 :: (rest ++ [0])) 0 34 = .ok (some front.length) :=
        strchr_first hfront hfront0 [] (rest ++ [0])
      have hnone : strchr (front ++ 34 :: (rest ++ [0])) (front.length + 1) 34 = .ok none := by
        have hfind := strchr_none hclose (by decide) hrest0 (front ++ [34]) []
        rw [List.append_assoc, List.length_append] at hfind
        exact hfind
      rw [takeQuoted, List.append_assoc, List.cons_append, hopening, CRun.ok_bind, quotedDirectory]
      simp only [hnone, CRun.ok_bind, hrest, hclose, and_false, if_false]
      rfl
  · have hnone : strchr (text ++ [0]) 0 34 = .ok none := strchr_none hquote (by decide) hnul [] []
    rw [takeQuoted, hnone, CRun.ok_bind, quotedDirectory, if_neg fun h => hquote h.1]
    rfl

theorem root_agrees : (takeQuoted (ascii "257 \"/\" ok")).map (Option.map Prod.fst) =
    .ok (quotedDirectory (ascii "257 \"/\" ok")) :=
  takeQuoted_agrees (by decide)

/-- A chunk of a file is the same from the connection and from the buffer of the read. -/
theorem chunk_agrees {r : FtpRequest UInt8} {size n : ℕ} {d : Bytes} {fds : Fds UInt8}
    {source source' : ByteStreams.Stream GftpError}
    (hread : readData size r.fds = .ok ({ ret := .ok n, stored := d }, fds))
    (hsource : ByteStreams.readSome size source = (.ok d, source')) :
    ∃ r', FtpReplies.rfc959GetNextFileChunk size r =
      .ok ((AsciiTransfers.rfc959GetNextFileChunk ⟨r.isFxpTransfer, r.isAsciiTransfer⟩ size source).1,
        r') := by
  unfold FtpReplies.rfc959GetNextFileChunk AsciiTransfers.rfc959GetNextFileChunk
  cases r.isFxpTransfer with
  | true => exact ⟨r, rfl⟩
  | false =>
    simp only [Bool.false_eq_true, if_false, hread, hsource, CRun.ok_bind, AsciiTransfers.squeeze_eq]
    cases r.isAsciiTransfer <;> exact ⟨_, rfl⟩

/-- A line with its end arrives on the data connection. -/
def arriving : FtpRequest UInt8 :=
  ⟨⟨none, some ⟨[.ok [65, 13, 10]], 0, []⟩⟩, none, none, false, true, none⟩

theorem line_agrees : ∃ r', FtpReplies.rfc959GetNextFileChunk 8 arriving =
    .ok ((AsciiTransfers.rfc959GetNextFileChunk ⟨false, true⟩ 8 [.ok [65, 13, 10]]).1, r') :=
  chunk_agrees (r := arriving) (d := [65, 13, 10]) rfl rfl

end Gftp.ClientReplies
