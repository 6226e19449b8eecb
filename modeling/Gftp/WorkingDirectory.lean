import Gftp.ReplyLines
import Gftp.TextIndices

/-!
rfc959_getcwd, which takes the directory from the reply to PWD. A server writes the name in
quotation marks with each one inside doubled; the client takes what stands between the first
two quotation marks of the reply.
-/

namespace Gftp.WorkingDirectory

open ByteStrings FtpReplies Protocol ReplyLines TextIndices

/-- What the functions call: the write function of the request, gftp_connect, and what is on
the stack for tempstr. -/
structure Session where
  write : Bytes → Except GftpError Unit
  connect : FtpRequest UInt8 → CRun (Except GftpError Unit × FtpRequest UInt8)
  tempstr : Bytes

/-- The request with its directory. -/
structure Request where
  ftp : FtpRequest UInt8
  directory : Option Bytes

/-- rfc959_send_command with read_response and dont_try_to_reconnect set. -/
def sendOnce (s : Session) (fuel : ℕ) (command : Bytes) (r : FtpRequest UInt8) :
    CRun (Except GftpError UInt8 × FtpRequest UInt8) :=
  if r.fds.control.isNone then return (.error .fatal, r)
  else
    match s.write command with
    | .error e => return (.error e, rfc959Disconnect r)
    | .ok _ => rfc959ReadResponse fuel true s.tempstr r

/-- rfc959_send_command with read_response set, which connects again after a timeout. -/
def rfc959SendCommand (s : Session) (fuel : ℕ) (command : Bytes) (r : FtpRequest UInt8) :
    CRun (Except GftpError UInt8 × FtpRequest UInt8) := do
  let (ret, r) ← sendOnce s fuel command r
  if ret = .error .timedOut ∧ s.write command = .ok () then do
    let (ret, r) ← s.connect r
    match ret with
    | .error e => return (.error e, r)
    | .ok _ => sendOnce s fuel command r
  else return (ret, r)

/-- The directory that is taken from a reply, and the reply with the terminator behind it. -/
def takeQuoted (response : Bytes) : CRun (Option (Bytes × Bytes)) := do
  let block := response ++ [0]
  match ← strchr block 0 34 with
  | none => return none
  | some pos =>
      match ← strchr block (pos + 1) 34 with
      | none => return none
      | some close => do
          let block ← writeAt block close 0
          return some (← textFrom block (pos + 1), ← textFrom block 0)

/-- rfc959_getcwd; toUtf8 is gftp_filename_to_utf8. -/
def rfc959Getcwd (s : Session) (toUtf8 : Bytes → Option Bytes) (fuel : ℕ) (r : Request) :
    CRun (Except GftpError Unit × Request) := do
  let (ret, ftp) ← rfc959SendCommand s fuel (ascii "PWD\r\n") r.ftp
  match ret with
  | .error e => return (.error e, { r with ftp := ftp })
  | .ok c =>
      if c ≠ 50 then return (.error .retryable, { r with ftp := rfc959Disconnect ftp })
      else
        match ftp.lastFtpResponse with
        | none => .error .fault
        | some response =>
            match ← takeQuoted response with
            | none => return (.error .fatal, { r with ftp := rfc959Disconnect ftp })
            | some (dir, kept) =>
                return (.ok (),
                  ⟨{ ftp with lastFtpResponse := some kept }, some ((toUtf8 dir).getD dir)⟩)

/-- A name with each quotation mark in it doubled. -/
def doubled (name : Bytes) : Bytes := name.flatMap fun b => if b = 34 then [34, 34] else [b]

/-- The reply to PWD of RFC 959, on one line. -/
structure PwdReply where
  name : Bytes
  commentary : Bytes
  separate : commentary.head? ≠ some 34
  oneLine : 13 ∉ name ∧ 10 ∉ name
  fits : FitsReply (ascii "257 " ++ 34 :: (doubled name ++ 34 :: commentary))

def PwdReply.line (reply : PwdReply) : Bytes :=
  ascii "257 " ++ 34 :: (doubled reply.name ++ 34 :: reply.commentary)

/-- From some fuel on rfc959_getcwd succeeds and the directory is the name, converted when it
can be. -/
def SetsDirectory (s : Session) (toUtf8 : Bytes → Option Bytes) (r : Request) (name : Bytes) : Prop :=
  ∃ enough, ∀ fuel ≥ enough, ∃ r', rfc959Getcwd s toUtf8 fuel r = .ok (.ok (), r') ∧
    r'.directory = some ((toUtf8 name).getD name)

/-- The part of a name in front of its first quotation mark. -/
def unquotedPart (name : Bytes) : Bytes := name.takeWhile (· ≠ 34)

/-- The first quotation mark behind the opening one stands behind that part. -/
theorem doubled_shown (name commentary : Bytes) :
    ∃ tail, doubled name ++ 34 :: commentary = unquotedPart name ++ 34 :: tail := by
  induction name with
  | nil => exact ⟨commentary, rfl⟩
  | cons b name ih =>
    obtain ⟨tail, heq⟩ := ih
    by_cases hb : b = 34
    · subst hb
      exact ⟨34 :: (doubled name ++ 34 :: commentary), by simp [doubled, unquotedPart]⟩
    · refine ⟨tail, ?_⟩
      have hstep : doubled (b :: name) = b :: doubled name := by simp [doubled, hb]
      have hpart : unquotedPart (b :: name) = b :: unquotedPart name := by simp [unquotedPart, hb]
      rw [hstep, hpart, List.cons_append, heq, List.cons_append]

theorem unquotedPart_eq_iff {name : Bytes} : unquotedPart name = name ↔ 34 ∉ name := by
  unfold unquotedPart
  rw [List.takeWhile_eq_self_iff]
  constructor
  · intro h hmem
    simpa using h 34 hmem
  · intro h b hb
    simpa using ne_of_mem_of_not_mem hb h

theorem readResponse_line {r : FtpRequest UInt8} {l later tempstr : Bytes} {fuel : ℕ}
    (hopen : r.fds.control ≠ none) (hcode : BeginsCode l) (hgood : l.take 2 ≠ ascii "42")
    (hfits : FitsReply l) (hw : Waiting r (wire [l] ++ later)) (hfuel : replySize < fuel) :
    ∃ r', rfc959ReadResponse fuel true tempstr r = .ok (.ok (l.head?.getD 0), r') ∧
      r'.lastFtpResponse = some l := by
  obtain ⟨r₁, hloop, -⟩ := @replyLoop_reads fuel fuel tempstr [] l later []
    { r with lastFtpResponse := none } (.inl rfl) (.inr (by simp)) (by simp) hcode
    (by simpa using hfits) hw hfuel (by simp; omega)
  obtain ⟨r', hcall, hlast⟩ := readResponse_of_loop true hopen hloop
  rw [if_neg fun h => hgood h.1] at hcall
  exact ⟨r', hcall, hlast⟩

theorem takeQuoted_shown {front name tail : Bytes} (hfront : 34 ∉ front) (hname : 34 ∉ name)
    (hnul : 0 ∉ front ++ 34 :: (name ++ 34 :: tail)) :
    takeQuoted (front ++ 34 :: (name ++ 34 :: tail)) = .ok (some (name, front ++ 34 :: name)) := by
  simp only [List.mem_append, List.mem_cons, not_or] at hnul
  obtain ⟨hfront0, hquote, hname0, -, htail0⟩ := hnul
  have hblock : front ++ 34 :: (name ++ 34 :: tail) ++ [0] =
      front ++ 34 :: (name ++ 34 :: (tail ++ [0])) := by simp
  have hopening : strchr (front ++ 34 :: (name ++ 34 :: (tail ++ [0]))) 0 34 =
      .ok (some front.length) :=
    strchr_first hfront hfront0 [] (name ++ 34 :: (tail ++ [0]))
  have hclosing : strchr (front ++ 34 :: (name ++ 34 :: (tail ++ [0]))) (front.length + 1) 34 =
      .ok (some (front ++ 34 :: name).length) := by
    have hfind := strchr_first hname hname0 (front ++ [34]) (tail ++ [0])
    rw [List.append_assoc, List.append_assoc, List.length_append] at hfind
    exact hfind
  have hwrite : writeAt (front ++ 34 :: (name ++ 34 :: (tail ++ [0]))) (front ++ 34 :: name).length 0 =
      .ok (front ++ 34 :: (name ++ 0 :: (tail ++ [0]))) := by
    have hput := writeAt_front (front ++ 34 :: name) 34 (tail ++ [0]) 0
    rw [List.append_assoc, List.append_assoc] at hput
    exact hput
  have hkept : textFrom (front ++ 34 :: (name ++ 0 :: (tail ++ [0]))) 0 = .ok (front ++ 34 :: name) := by
    have htext := textFrom_text (t := front ++ 34 :: name) (by simp [hfront0, hname0]) [] (tail ++ [0])
    rw [List.nil_append, List.append_assoc] at htext
    exact htext
  rw [takeQuoted, hblock, hopening, CRun.ok_bind]
  simp only [hclosing, CRun.ok_bind, hwrite, textFrom_behind hname0, hkept]
  rfl

/-- What rfc959_getcwd does with a reply to PWD. -/
theorem getcwd_reply {s : Session} {r : Request} {later : Bytes} {fuel : ℕ} (reply : PwdReply)
    (toUtf8 : Bytes → Option Bytes) (hwrite : s.write (ascii "PWD\r\n") = .ok ())
    (hopen : r.ftp.fds.control ≠ none) (hw : Waiting r.ftp (wire [reply.line] ++ later))
    (hfuel : replySize < fuel) :
    ∃ r', rfc959Getcwd s toUtf8 fuel r = .ok (.ok (), r') ∧ r'.directory =
      some ((toUtf8 (unquotedPart reply.name)).getD (unquotedPart reply.name)) := by
  have hclosed : ¬r.ftp.fds.control.isNone = true := by simpa using hopen
  obtain ⟨ftp, hcall, hlast⟩ := @readResponse_line _ reply.line _ s.tempstr _
    hopen ⟨⟨rfl, rfl⟩, rfl⟩ (by simp [PwdReply.line, ascii]) reply.fits hw hfuel
  obtain ⟨tail, hshow⟩ := doubled_shown reply.name reply.commentary
  have hline : reply.line = ascii "257 " ++ 34 :: (unquotedPart reply.name ++ 34 :: tail) := by
    rw [PwdReply.line, hshow]
  have hpart : 34 ∉ unquotedPart reply.name := fun h => by simpa using List.mem_takeWhile_imp h
  have hnul : 0 ∉ reply.line := reply.fits.nul_free
  rw [hline] at hnul
  have htake := takeQuoted_shown (by decide) hpart hnul
  rw [← hline] at htake
  have hfirst : reply.line.head?.getD 0 = 50 := rfl
  have hsend : rfc959SendCommand s fuel (ascii "PWD\r\n") r.ftp = .ok (.ok 50, ftp) := by
    simp only [rfc959SendCommand, sendOnce, if_neg hclosed, hwrite, hcall, CRun.ok_bind, hfirst]
    rfl
  refine ⟨⟨{ ftp with lastFtpResponse := some (ascii "257 " ++ 34 :: unquotedPart reply.name) },
    some ((toUtf8 (unquotedPart reply.name)).getD (unquotedPart reply.name))⟩, ?_, rfl⟩
  rw [rfc959Getcwd, hsend, CRun.ok_bind]
  simp only [ne_eq, not_true_eq_false, if_false, hlast, htake, CRun.ok_bind]
  rfl

theorem unquoted_of_sets {s : Session} {r : Request} {later : Bytes} (reply : PwdReply)
    (hwrite : s.write (ascii "PWD\r\n") = .ok ()) (hopen : r.ftp.fds.control ≠ none)
    (hw : Waiting r.ftp (wire [reply.line] ++ later))
    (h : SetsDirectory s (fun _ => none) r reply.name) : unquotedPart reply.name = reply.name := by
  obtain ⟨enough, hsets⟩ := h
  obtain ⟨r', hrun, hdir⟩ := hsets (enough + replySize + 1) (by omega)
  obtain ⟨r'', hrun', hdir'⟩ := @getcwd_reply _ _ _ (enough + replySize + 1) reply (fun _ => none)
    hwrite hopen hw (by omega)
  rw [hrun, Except.ok.injEq, Prod.mk.injEq] at hrun'
  rw [← hrun'.2, hdir, Option.some.injEq, Option.getD_none, Option.getD_none] at hdir'
  exact hdir'.symm

/-- The directory becomes the name, whatever the conversion, when the name has no quotation mark
in it. -/
theorem working_directory_iff {s : Session} {r : Request} {later : Bytes} (reply : PwdReply)
    (hwrite : s.write (ascii "PWD\r\n") = .ok ()) (hopen : r.ftp.fds.control ≠ none)
    (hw : Waiting r.ftp (wire [reply.line] ++ later)) :
    (∀ toUtf8, SetsDirectory s toUtf8 r reply.name) ↔ 34 ∉ reply.name := by
  constructor
  · exact fun h => unquotedPart_eq_iff.mp (unquoted_of_sets reply hwrite hopen hw (h _))
  · intro h toUtf8
    refine ⟨replySize + 1, fun fuel hfuel => ?_⟩
    have hrun := @getcwd_reply _ _ _ fuel reply toUtf8 hwrite hopen hw (by omega)
    rwa [unquotedPart_eq_iff.mpr h] at hrun

/-- Everything is written; no connection is made again. -/
def plain : Session := ⟨fun _ => .ok (), fun r => return (.error .fatal, r), []⟩

/-- A request on which one line arrives. -/
def asked (line : Bytes) : Request := ⟨divided (wire [line]) [], none⟩

/-- The reply for /home. -/
def homeReply : PwdReply := ⟨ascii "/home", ascii " is current", by decide, by decide, by decide⟩

/-- The reply for a name with a quotation mark between two letters. -/
def quoteReply : PwdReply := ⟨ascii "/a\"b", [], by decide, by decide, by decide⟩

theorem home_directory :
    (∀ toUtf8, SetsDirectory plain toUtf8 (asked homeReply.line) homeReply.name) ↔
      34 ∉ homeReply.name :=
  @working_directory_iff _ (asked homeReply.line) [] homeReply rfl (by decide)
    (waiting_fresh rfl)

/-- The directory /a is taken for one whose name goes on behind a quotation mark. -/
theorem quoted_name_cut :
    ¬∀ toUtf8, SetsDirectory plain toUtf8 (asked quoteReply.line) quoteReply.name := by
  intro h
  have hwhole := @unquoted_of_sets _ (asked quoteReply.line) [] quoteReply rfl (by decide)
    (waiting_fresh rfl) (h _)
  revert hwhole
  decide

end Gftp.WorkingDirectory
