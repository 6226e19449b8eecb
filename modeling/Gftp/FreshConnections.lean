import Gftp.FtpConnections
import Gftp.HttpConnections

/-!
Requests over several connections, for both protocols: under which runs nothing received
on one connection is returned on a later one, and a run of each protocol where something is.
-/

namespace Gftp.FreshConnections

open ByteStrings Cells Connections FtpConnections FtpReplies HttpConnections HttpDecoding
  HttpOrigins HttpResponses LineOrigins LineSource Protocol Runs Sockets

/-- In every run whose steps meet the conditions, what is returned on a connection was
received on it. -/
theorem returned_from_their_connection (f : FtpWorld) (w : HttpWorld) :
    (Reaches FtpStep FtpFit .init f → FromTheirConnection f.returned) ∧
      (Reaches HttpStep HttpFit .init w → FromTheirConnection w.returned) :=
  ⟨fun h => (ftpRun_inv h).returned, fun h => (httpRun_inv h).returned⟩

section Runs

/-- The world a reply line leads to. -/
def afterReply (fuel : ℕ) (w : FtpWorld) : FtpWorld :=
  match replyLine fuel w.request with
  | .ok ((_, str), r) => w.next r str
  | .error _ => w

theorem afterReply_step {fuel : ℕ} {w : FtpWorld} (h : (replyLine fuel w.request).isOk = true) :
    FtpStep w (.reply fuel) (afterReply fuel w) := by
  unfold afterReply
  split
  · rename_i ret str r hline
    exact .reply hline
  · rename_i e hline
    rw [hline] at h
    exact absurd h Bool.false_ne_true

def afterLine (fuel : ℕ) (w : HttpWorld) : HttpWorld :=
  match gftpGetLine rfc2068ChunkedRead fuel w.request.rbuf lineSize w.request.session with
  | .ok res => w.next { w.request with rbuf := res.rbuf, session := res.state } res.str
  | .error _ => w

theorem afterLine_step {fuel : ℕ} {w : HttpWorld}
    (h : (gftpGetLine rfc2068ChunkedRead fuel w.request.rbuf lineSize w.request.session).isOk = true) :
    HttpStep w (.line fuel) (afterLine fuel w) := by
  unfold afterLine
  split
  · rename_i res hline
    exact .line hline
  · rename_i e hline
    rw [hline] at h
    exact absurd h Bool.false_ne_true

def afterChunk (size : ℕ) (w : HttpWorld) : HttpWorld :=
  match rfc2068GetNextFileChunk size w.request with
  | .ok (out, r) => w.next r (out.toOption.getD [])
  | .error _ => w

theorem afterChunk_step {size : ℕ} {w : HttpWorld}
    (h : (rfc2068GetNextFileChunk size w.request).isOk = true) :
    HttpStep w (.chunk size) (afterChunk size w) := by
  unfold afterChunk
  split
  · rename_i out r hchunk
    exact .chunk hchunk
  · rename_i e hchunk
    rw [hchunk] at h
    exact absurd h Bool.false_ne_true

def afterDisconnect (w : FtpWorld) : FtpWorld := w.next (rfc959Disconnect w.request) []

def afterEndTransfer (w : HttpWorld) : HttpWorld := w.next (rfc2068EndTransfer w.request).2 []

def segments (texts : List String) : List (Except Unit Bytes) := texts.map fun t => .ok (ascii t)

/-- All cells of a line buffer are of the connection. -/
def freshOn (n : ℕ) (rbuf : Option (GetlineBuffer Marked)) : Bool :=
  rbuf.all fun b => b.buffer.all fun c => c.origin = none ∨ c.origin = some n

theorem freshOn_fresh {n : ℕ} {rbuf : Option (GetlineBuffer Marked)} (h : freshOn n rbuf = true)
    (b : GetlineBuffer Marked) (hb : rbuf = some b) : Fresh (OfConnection n) b := by
  subst hb
  intro c hc
  simp only [freshOn, Option.all_some, List.all_eq_true, decide_eq_true_eq] at h
  exact h c hc

section Ftp

variable {w : FtpWorld}

theorem connected_reaches (h : Reaches FtpStep FtpFit .init w) (texts : List String)
    (hclosed : w.request.fds.control = none) (hcontrol : w.request.datafdRbuf = none)
    (hdata : w.request.dataconnRbuf = none) :
    Reaches FtpStep FtpFit .init (w.connected (segments texts)) := by
  refine h.tail (a := .connect (segments texts)) ⟨?_, ?_⟩ (.connect hclosed)
  · simp [hcontrol, Emptied]
  · simp [hdata, Emptied]

theorem afterReply_reaches (h : Reaches FtpStep FtpFit .init w) (fuel : ℕ)
    (hfresh : freshOn w.connection w.request.datafdRbuf = true)
    (hline : (replyLine fuel w.request).isOk = true) :
    Reaches FtpStep FtpFit .init (afterReply fuel w) :=
  h.tail (ftpFit_reply (ftpRun_inv h) (freshOn_fresh hfresh)) (afterReply_step hline)

/-- A server answers, and closes the connection. -/
def closedByServer : FtpWorld :=
  afterReply 3 (afterReply 3 (FtpWorld.init.connected (segments ["220 hello\r\n"])))

def answeredAgain : FtpWorld :=
  afterReply 3 ((afterDisconnect closedByServer).connected (segments ["220 again\r\n"]))

set_option maxRecDepth 2000 in
theorem answeredAgain_reaches : Reaches FtpStep FtpFit .init answeredAgain := by
  have hconnect := connected_reaches (Reaches.refl _) ["220 hello\r\n"] rfl rfl rfl
  have hreply := afterReply_reaches hconnect 3 (by decide) (by decide)
  have hclosed := afterReply_reaches hreply 3 (by decide) (by decide)
  have hdisconnect : Reaches FtpStep FtpFit .init (afterDisconnect closedByServer) :=
    Relation.ReflTransGen.tail hclosed ⟨.disconnect, trivial, .disconnect⟩
  have hagain := connected_reaches hdisconnect ["220 again\r\n"] rfl
    (by decide) (by decide)
  exact afterReply_reaches hagain 3 (by decide) (by decide)

/-- A server that sends a second line behind a line that ends the connection. -/
def refused : FtpWorld :=
  afterReply 3 (FtpWorld.init.connected (segments ["421 bye\r\n230 in\r\n"]))

/-- The next connection returns the line left over from the one before. -/
def repliedAgain : FtpWorld :=
  afterReply 3 ((afterDisconnect refused).connected (segments ["220 hello\r\n"]))

set_option maxRecDepth 2000 in
theorem repliedAgain_reaches : ftpReaches .init repliedAgain := by
  have hconnect : ftpReaches .init (FtpWorld.init.connected (segments ["421 bye\r\n230 in\r\n"])) :=
    (FtpStep.connect rfl).reaches
  have hrefused : ftpReaches .init refused :=
    Relation.ReflTransGen.trans hconnect (afterReply_step (by decide)).reaches
  have hdisconnect : ftpReaches .init (afterDisconnect refused) :=
    Relation.ReflTransGen.trans hrefused FtpStep.disconnect.reaches
  have hagain := Relation.ReflTransGen.trans hdisconnect
    (@FtpStep.connect _ (segments ["220 hello\r\n"]) rfl).reaches
  exact Relation.ReflTransGen.trans hagain (afterReply_step (by decide)).reaches

end Ftp

section Http

variable {w : HttpWorld}

theorem httpLine_reaches (h : Reaches HttpStep HttpFit .init w) (fuel : ℕ)
    (hstale : w.stale = false) (hfresh : freshOn w.connection w.request.rbuf = true)
    (hline : (gftpGetLine rfc2068ChunkedRead fuel w.request.rbuf lineSize
      w.request.session).isOk = true) :
    Reaches HttpStep HttpFit .init (afterLine fuel w) := by
  have hw := httpRun_inv h
  have hkeep := keepsBytes_fresh (chunkedRead_own (nul_own _)) (nul_own _) (freshOn_fresh hfresh)
    (hw.session hstale)
  exact h.tail (a := .line fuel) ⟨hstale, hkeep⟩ (afterLine_step hline)

/-- A status line and all that came with it are read. -/
def served : HttpWorld :=
  afterChunk 100 (afterLine 3 (HttpWorld.init.connected (segments ["HTTP/1.0 200 OK\nbody"])))

def servedAgain : HttpWorld :=
  afterLine 3 ((afterEndTransfer served).connected (segments ["HTTP/1.0 200 OK\n"]))

set_option maxRecDepth 100000 in
theorem servedAgain_reaches : Reaches HttpStep HttpFit .init servedAgain := by
  have hconnect : Reaches HttpStep HttpFit .init
      (HttpWorld.init.connected (segments ["HTTP/1.0 200 OK\nbody"])) := by
    refine (Reaches.refl _).tail (a := .connect (segments ["HTTP/1.0 200 OK\nbody"])) ?_ (.connect rfl)
    simp [HttpFit, HttpWorld.init, Emptied]
  have hstatus := httpLine_reaches hconnect 3 rfl rfl (by decide)
  have hchunk : Reaches HttpStep HttpFit .init served :=
    hstatus.tail (a := .chunk 100) (fun _ => by decide) (afterChunk_step (by decide))
  have hend : Reaches HttpStep HttpFit .init (afterEndTransfer served) :=
    Relation.ReflTransGen.tail hchunk ⟨.endTransfer, trivial, .endTransfer⟩
  have hagain : Reaches HttpStep HttpFit .init
      ((afterEndTransfer served).connected (segments ["HTTP/1.0 200 OK\n"])) := by
    refine hend.tail (a := .connect (segments ["HTTP/1.0 200 OK\n"])) ?_ (.connect (by decide))
    have hnone : (afterEndTransfer served).request.rbuf = none := by decide
    simp only [HttpFit]
    intro b hb
    exact absurd (hnone.symm.trans hb) (by simp)
  exact httpLine_reaches hagain 3 (by decide) (by decide) (by decide)

/-- A response of which only the header is read. -/
def notFound : HttpWorld :=
  afterLine 3 (afterLine 3 (HttpWorld.init.connected (segments ["HTTP/1.0 404 no\n\nold\n"])))

/-- The next connection returns the line left over from the one before. -/
def respondedAgain : HttpWorld :=
  afterLine 3 ((afterEndTransfer notFound).connected (segments ["HTTP/1.0 200 OK\n"]))

set_option maxRecDepth 100000 in
theorem respondedAgain_reaches : httpReaches .init respondedAgain := by
  have hconnect : httpReaches .init
      (HttpWorld.init.connected (segments ["HTTP/1.0 404 no\n\nold\n"])) :=
    (HttpStep.connect rfl).reaches
  have hstatus := Relation.ReflTransGen.trans hconnect
    (@afterLine_step 3 _ (by decide)).reaches
  have hheader : httpReaches .init notFound :=
    Relation.ReflTransGen.trans hstatus (@afterLine_step 3 _ (by decide)).reaches
  have hend : httpReaches .init (afterEndTransfer notFound) :=
    Relation.ReflTransGen.trans hheader HttpStep.endTransfer.reaches
  have hagain := Relation.ReflTransGen.trans hend
    (@HttpStep.connect _ (segments ["HTTP/1.0 200 OK\n"]) (by decide)).reaches
  exact Relation.ReflTransGen.trans hagain (afterLine_step (by decide)).reaches

end Http

theorem two_connections_kept_apart :
    FromTheirConnection answeredAgain.returned ∧ FromTheirConnection servedAgain.returned :=
  have hkept := returned_from_their_connection answeredAgain servedAgain
  ⟨hkept.1 answeredAgain_reaches, hkept.2 servedAgain_reaches⟩

set_option maxRecDepth 100000 in
theorem left_over_bytes_returned :
    ¬ (∀ w, ftpReaches .init w → FromTheirConnection w.returned) ∧
      ¬ ∀ w, httpReaches .init w → FromTheirConnection w.returned := by
  constructor
  · intro hclaimed
    have hmem : (2, ⟨50, some 1⟩) ∈ repliedAgain.returned := by decide
    exact absurd (hclaimed _ repliedAgain_reaches _ hmem) (by simp [OfConnection])
  · intro hclaimed
    have hmem : (2, ⟨111, some 1⟩) ∈ respondedAgain.returned := by decide
    exact absurd (hclaimed _ respondedAgain_reaches _ hmem) (by simp [OfConnection])

end Runs

end Gftp.FreshConnections
