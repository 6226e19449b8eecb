import Gftp.FtpReplies
import Gftp.LineFeeds

/-!
How rfc959_read_response finds the end of a reply. The code it waits for is that of the
latest line that begins with three digits, so a line ends the reply as soon as a blank
follows its own three digits, whatever code the reply began with. Of the well-formed
replies exactly those with such a line inside are not read to their end.
-/

namespace Gftp.ReplyLines

open ByteStrings Cells Cell Decimal FtpReplies LineFeeds LineSource Protocol Sockets
open LineReading (stripCr)

/-- The line begins with three digits. -/
def ThreeDigits (l : Bytes) : Prop := (l.take 3).length = 3 ∧ (l.take 3).all isDigit = true

/-- The line begins with three digits and a blank. -/
def BeginsCode (l : Bytes) : Prop := ThreeDigits l ∧ l[3]? = some 32

instance : DecidablePred ThreeDigits := fun _ => inferInstanceAs (Decidable (_ ∧ _))

instance : DecidablePred BeginsCode := fun _ => inferInstanceAs (Decidable (_ ∧ _))

/-- What the array code holds: nothing yet, or three digits and a blank. -/
def IsCode (code : Bytes) : Prop := code = [] ∨ ∃ front, ThreeDigits front ∧ code = front.take 3 ++ [32]

section Code

variable {code l : Bytes}

theorem nextCode_bytes : nextCode code l = if ThreeDigits l then l.take 3 ++ [32] else code := by
  have hmap : (l.take 3).map byte = l.take 3 := List.map_id _
  unfold nextCode
  rw [hmap]
  by_cases h : ThreeDigits l
  · rw [if_pos h]
    exact if_pos h
  · rw [if_neg h]
    exact if_neg h

theorem lastLine_bytes :
    lastLine code l = decide (if code = [] then l = [] else l.take 4 = code) := by
  have hmap : (l.take 4).map byte = l.take 4 := List.map_id _
  simp only [lastLine, hmap]
  split <;> rfl

theorem isCode_next (h : IsCode code) : IsCode (nextCode code l) := by
  rw [nextCode_bytes]
  split
  · rename_i hl
    exact .inr ⟨l, hl, rfl⟩
  · exact h

theorem take_four (h : ThreeDigits l) : l.take 4 = l.take 3 ++ [32] ↔ l[3]? = some 32 := by
  have hlen := h.1
  rw [List.length_take] at hlen
  rw [List.take_add_one (i := 3), List.append_right_inj]
  cases l[3]? <;> simp

theorem threeDigits_of_take {m : Bytes} (h : ThreeDigits m) (heq : l.take 3 = m.take 3) :
    ThreeDigits l := by
  unfold ThreeDigits
  rw [heq]
  exact h

/-- The loop ends at a line that begins with three digits and a blank, and as long as no
line has begun with three digits at an empty line. -/
theorem lastLine_iff (h : IsCode code) :
    lastLine (nextCode code l) l = true ↔ BeginsCode l ∨ code = [] ∧ l = [] := by
  rw [lastLine_bytes, nextCode_bytes, decide_eq_true_iff]
  by_cases hl : ThreeDigits l
  · have hne : l ≠ [] := by
      rintro rfl
      exact absurd hl.1 (by simp)
    rw [if_pos hl, if_neg (by simp), take_four hl]
    constructor
    · exact fun hb => .inl ⟨hl, hb⟩
    · rintro (hb | ⟨-, hnil⟩)
      · exact hb.2
      · exact absurd hnil hne
  · rw [if_neg hl]
    rcases h with rfl | ⟨front, hfront, rfl⟩
    · simp only [if_true, true_and]
      exact ⟨.inr, fun h => h.resolve_left fun hb => hl hb.1⟩
    · rw [if_neg (by simp)]
      constructor
      · intro htake
        have hfront3 : l.take 3 = front.take 3 := by
          have h3 := congrArg (List.take 3) htake
          rw [List.take_take, List.take_append_of_le_length (by rw [hfront.1]), List.take_take] at h3
          simpa using h3
        exact absurd (threeDigits_of_take hfront hfront3) hl
      · rintro (hb | ⟨hnil, -⟩)
        · exact absurd hb.1 hl
        · simp at hnil

theorem nextCode_ne_nil (h : code ≠ [] ∨ ThreeDigits l) : nextCode code l ≠ [] := by
  rw [nextCode_bytes]
  split
  · simp
  · rename_i hl
    exact h.resolve_right hl

end Code

/-- The bytes of the blocks that arrive before an empty block or a failure. -/
def arriving : CellStream Unit UInt8 → Bytes
  | .ok (c :: d) :: rest => c :: d ++ arriving rest
  | _ => []

/-- What the control connection delivers before it closes or fails. -/
def ready (f : Fds UInt8) : Bytes :=
  match f.control with
  | none => []
  | some k => arriving k.stream

theorem readCells_arriving {n : ℕ} {s : CellStream Unit UInt8} (hn : 0 < n) (h : arriving s ≠ []) :
    ∃ d s', readCells n s = (.ok d, s') ∧ d ≠ [] ∧ d.length ≤ n ∧ arriving s = d ++ arriving s' := by
  match s, h with
  | .ok (c :: d) :: rest, _ =>
    by_cases hfit : (c :: d).length ≤ n
    · refine ⟨c :: d, rest, ?_, by simp, hfit, rfl⟩
      rw [readCells, if_pos hfit]
    · obtain ⟨n, rfl⟩ := Nat.exists_eq_succ_of_ne_zero (Nat.pos_iff_ne_zero.mp hn)
      obtain ⟨c', d', hdrop⟩ : ∃ c' d', (c :: d).drop (n + 1) = c' :: d' := by
        apply List.exists_cons_of_ne_nil
        intro hnil
        exact hfit (List.drop_eq_nil_iff.mp hnil)
      refine ⟨(c :: d).take (n + 1), .ok ((c :: d).drop (n + 1)) :: rest, ?_, by simp, by simp, ?_⟩
      · rw [readCells, if_neg hfit]
      · rw [hdrop, arriving, arriving, ← List.append_assoc, ← hdrop, List.take_append_drop]

theorem feeds_control : Feeds readControl ready (fun _ => True) where
  more n f _ hn hne := by
    cases hcontrol : f.control with
    | none => simp [ready, hcontrol] at hne
    | some k =>
      simp only [ready, hcontrol] at hne ⊢
      obtain ⟨d, s', hread, hd, hlen, hsplit⟩ := readCells_arriving hn hne
      refine ⟨d, { f with control := some ⟨s', k.received + d.length, k.received :: k.asked⟩ }, ?_,
        hd, hlen, hsplit, trivial⟩
      simp only [readControl, readFrom, hcontrol, gftpFdRead, hread]

/-- The bytes that are still to be read on the control connection. -/
def Waiting (r : FtpRequest UInt8) (bytes : Bytes) : Prop :=
  Unread r.datafdRbuf replySize (ready r.fds) bytes

theorem waiting_fresh {r : FtpRequest UInt8} (h : r.datafdRbuf = none) :
    Waiting r (ready r.fds) := by
  unfold Waiting
  rw [h]
  rfl

/-- A line that is returned whole with the two bytes of its end in the buffer. -/
structure FitsReply (l : Bytes) : Prop where
  nul_free : 0 ∉ l
  one_line : 10 ∉ l
  short : l.length + 2 ≤ replySize

instance : DecidablePred FitsReply := fun l =>
  decidable_of_iff (0 ∉ l ∧ 10 ∉ l ∧ l.length + 2 ≤ replySize)
    ⟨fun h => ⟨h.1, h.2.1, h.2.2⟩, fun h => ⟨h.nul_free, h.one_line, h.short⟩⟩

/-- The lines with their ends. -/
def wire (ls : List Bytes) : Bytes := (ls.map (· ++ [13, 10])).flatten

theorem wire_cons (l : Bytes) (ls : List Bytes) (rest : Bytes) :
    wire (l :: ls) ++ rest = (l ++ [13]) ++ 10 :: (wire ls ++ rest) := by
  simp [wire]

theorem wire_append (ls ls' : List Bytes) : wire (ls ++ ls') = wire ls ++ wire ls' := by
  simp [wire]

theorem replyLine_line {ok : Fds UInt8 → Prop} (hread : Feeds readControl ready ok) {fuel : ℕ}
    {r : FtpRequest UInt8} {l rest : Bytes} (hok : ok r.fds) (hl : FitsReply l)
    (hw : Waiting r ((l ++ [13]) ++ 10 :: rest)) (hfuel : replySize < fuel) :
    ∃ r', replyLine fuel r = .ok ((.ok (l.length + 2), l), r') ∧ Waiting r' rest ∧ ok r'.fds := by
  have hshort := hl.short
  obtain ⟨res, hcall, hret, hstr, hok', hrest⟩ := gftpGetLine_line hread hok hw
    (by simpa using hl.one_line) (by simpa using hl.nul_free)
    (by rw [List.length_append, List.length_singleton]; omega)
    (show _ < fuel by rw [List.length_append, List.length_singleton]; omega)
  refine ⟨{ r with datafdRbuf := res.rbuf, fds := res.state }, ?_, hrest, hok'⟩
  have hline : stripCr (l ++ [13]) = l := by simp [stripCr]
  simp only [replyLine, hcall, CRun.ok_bind, hret, hstr, hline, List.length_append,
    List.length_singleton]
  rfl

theorem replyLoop_line {fuel lines n : ℕ} {code tempstr l : Bytes} {r r' : FtpRequest UInt8}
    (h : replyLine fuel r = .ok ((.ok n, l), r')) (hn : n ≠ 0) :
    replyLoop fuel (lines + 1) code tempstr r =
      if lastLine (nextCode code l) l then .ok ((.ok n, l), r')
      else replyLoop fuel lines (nextCode code l) l r' := by
  simp only [replyLoop, h, CRun.ok_bind]
  rw [if_neg hn]
  rfl

/-- The loop reads up to the first line that begins with three digits and a blank, when the
first line begins with three digits. -/
theorem replyLoop_reads (fuel lines : ℕ) (tempstr : Bytes) {code l rest : Bytes} {before : List Bytes}
    {r : FtpRequest UInt8} (hcode : IsCode code)
    (hbegin : code ≠ [] ∨ ∀ m ∈ before.head?, ThreeDigits m)
    (hbefore : ∀ m ∈ before, ¬ BeginsCode m) (hl : BeginsCode l)
    (hfits : ∀ m ∈ before ++ [l], FitsReply m) (hw : Waiting r (wire (before ++ [l]) ++ rest))
    (hfuel : replySize < fuel) (hlines : before.length < lines) :
    ∃ r', replyLoop fuel lines code tempstr r = .ok ((.ok (l.length + 2), l), r') ∧
      Waiting r' rest := by
  induction before generalizing lines code tempstr r with
  | nil =>
    obtain ⟨lines, rfl⟩ := Nat.exists_eq_succ_of_ne_zero (show lines ≠ 0 by omega)
    rw [List.nil_append, wire_cons] at hw
    obtain ⟨r', hcall, hrest, -⟩ := replyLine_line feeds_control trivial (hfits l (by simp)) hw hfuel
    refine ⟨r', ?_, by simpa [wire] using hrest⟩
    rw [replyLoop_line hcall (by omega), if_pos ((lastLine_iff hcode).mpr (.inl hl))]
  | cons m before ih =>
    obtain ⟨lines, rfl⟩ := Nat.exists_eq_succ_of_ne_zero (show lines ≠ 0 by omega)
    rw [List.cons_append, wire_cons] at hw
    obtain ⟨r', hcall, hrest, -⟩ := replyLine_line feeds_control trivial (hfits m (by simp)) hw hfuel
    have hfirst : code ≠ [] ∨ ThreeDigits m := hbegin.imp_right fun h => h m rfl
    have hgo : ¬ lastLine (nextCode code m) m = true := by
      rw [lastLine_iff hcode]
      rintro (hb | ⟨hnil, rfl⟩)
      · exact hbefore m (by simp) hb
      · rcases hfirst with hne | hm
        · exact hne hnil
        · exact absurd hm.1 (by simp)
    rw [replyLoop_line hcall (by omega), if_neg hgo]
    apply ih _ _ (isCode_next hcode) (.inl (nextCode_ne_nil hfirst))
    · exact fun x hx => hbefore x (by simp [hx])
    · exact fun x hx => hfits x (by simpa using Or.inr (by simpa using hx))
    · exact hrest
    · simpa using hlines

/-- A reply of one line, or of several between a line with a hyphen behind the code and a
line with the code and a blank. -/
structure Reply where
  code : Bytes
  opening : Option (Bytes × List Bytes)
  last : Bytes
  digits : code.length = 3 ∧ code.all isDigit = true

namespace Reply

def final (reply : Reply) : Bytes := reply.code ++ 32 :: reply.last

/-- The lines between the first and the last. -/
def intermediate (reply : Reply) : List Bytes :=
  match reply.opening with
  | none => []
  | some (_, ls) => ls

/-- The lines in front of the final one. -/
def before (reply : Reply) : List Bytes :=
  match reply.opening with
  | none => []
  | some (first, ls) => (reply.code ++ 45 :: first) :: ls

def lines (reply : Reply) : List Bytes := reply.before ++ [reply.final]

/-- No line inside ends the reply, and every line fits the buffer. -/
structure WellFormed (reply : Reply) : Prop where
  unended : ∀ l ∈ reply.intermediate, ¬ reply.code ++ [32] <+: l
  fits : ∀ l ∈ reply.lines, FitsReply l

theorem take_code (reply : Reply) (c : UInt8) (text : Bytes) :
    (reply.code ++ c :: text).take 3 = reply.code := by
  rw [← reply.digits.1, List.take_left]

theorem threeDigits (reply : Reply) (c : UInt8) (text : Bytes) :
    ThreeDigits (reply.code ++ c :: text) := by
  unfold ThreeDigits
  rw [take_code]
  exact reply.digits

theorem fourth (reply : Reply) (c : UInt8) (text : Bytes) :
    (reply.code ++ c :: text)[3]? = some c := by
  rw [List.getElem?_append_right (by rw [reply.digits.1]), reply.digits.1]
  rfl

theorem beginsCode_final (reply : Reply) : BeginsCode reply.final :=
  ⟨reply.threeDigits 32 reply.last, reply.fourth 32 reply.last⟩

theorem first_of_before (reply : Reply) : ∀ m ∈ reply.before.head?, ThreeDigits m := by
  unfold before
  cases reply.opening with
  | none => simp
  | some opening =>
    intro m hm
    obtain rfl := Option.some.inj hm
    exact reply.threeDigits 45 opening.1

/-- Of the lines in front of the final one only an intermediate one can begin with a code. -/
theorem mem_before (reply : Reply) {m : Bytes} (hm : m ∈ reply.before) (hb : BeginsCode m) :
    m ∈ reply.intermediate := by
  unfold before at hm
  unfold intermediate
  cases hopening : reply.opening with
  | none => simp [hopening] at hm
  | some opening =>
    simp only [hopening, List.mem_cons] at hm ⊢
    rcases hm with rfl | hm
    · have hfour := hb.2
      rw [reply.fourth 45 opening.1] at hfour
      simp at hfour
    · exact hm

theorem intermediate_subset (reply : Reply) : reply.intermediate ⊆ reply.before := by
  intro l hl
  unfold intermediate at hl
  unfold before
  cases hopening : reply.opening with
  | none => simp [hopening] at hl
  | some opening =>
    rw [hopening] at hl
    exact List.mem_cons_of_mem _ hl

/-- The result for the code of the final line. -/
def result (reply : Reply) (disconnectOn42x : Bool) : Except GftpError UInt8 :=
  if reply.code.take 2 = ascii "42" ∧ disconnectOn42x then .error .timedOut
  else .ok (reply.code.head?.getD 0)

end Reply

/-- From some fuel on the loop reads the lines of the reply and no other, and the call
returns what the final line says. -/
def ReadsReply (disconnectOn42x : Bool) (tempstr : Bytes) (r : FtpRequest UInt8) (reply : Reply)
    (later : Bytes) : Prop :=
  ∃ enough, ∀ fuel ≥ enough, ∃ n r₁ r',
    replyLoop fuel fuel [] tempstr { r with lastFtpResponse := none } =
      .ok ((.ok n, reply.final), r₁) ∧ Waiting r₁ later ∧
    rfc959ReadResponse fuel disconnectOn42x tempstr r = .ok (reply.result disconnectOn42x, r')

/-- What is still to be read is determined by the state. -/
theorem Waiting.unique {r : FtpRequest UInt8} {bytes bytes' : Bytes} (h : Waiting r bytes)
    (h' : Waiting r bytes') : bytes = bytes' := by
  unfold Waiting at h h'
  cases hbuf : r.datafdRbuf with
  | none =>
    rw [hbuf] at h h'
    exact h.symm.trans h'
  | some b =>
    rw [hbuf] at h h'
    obtain ⟨p, hp, rfl, -⟩ := h
    obtain ⟨p', hp', rfl, -⟩ := h'
    rw [hp.unique hp']

theorem readResponse_of_loop (flag : Bool) {fuel n : ℕ} {tempstr line : Bytes}
    {r r₁ : FtpRequest UInt8} (hopen : r.fds.control ≠ none)
    (h : replyLoop fuel fuel [] tempstr { r with lastFtpResponse := none } =
      .ok ((.ok n, line), r₁)) :
    ∃ r', rfc959ReadResponse fuel flag tempstr r =
      .ok (if line.take 2 = ascii "42" ∧ flag then .error .timedOut
        else .ok (line.head?.getD 0), r') ∧ r'.lastFtpResponse = some line := by
  have hclosed : ¬ r.fds.control.isNone = true := by simpa using hopen
  have hmap : (line.take 2).map byte = line.take 2 := List.map_id _
  have hhead : line.head?.map byte = line.head? := by cases line <;> rfl
  simp only [rfc959ReadResponse, if_neg hclosed, h, CRun.ok_bind, hmap, hhead]
  split
  · exact ⟨_, rfl, rfl⟩
  · exact ⟨_, rfl, rfl⟩

theorem exists_first {P : Bytes → Prop} [DecidablePred P] {ls : List Bytes} (h : ∃ l ∈ ls, P l) :
    ∃ before l after, ls = before ++ l :: after ∧ (∀ m ∈ before, ¬ P m) ∧ P l := by
  induction ls with
  | nil => simp at h
  | cons m ls ih =>
    by_cases hm : P m
    · exact ⟨[], m, ls, rfl, by simp, hm⟩
    · obtain ⟨before, l, after, rfl, hbefore, hl⟩ := ih (by simpa [hm] using h)
      exact ⟨m :: before, l, after, rfl, by simpa [hm] using hbefore, hl⟩

/-- A reply with a line inside that begins with three digits and a blank is not read to its
end: the lines behind the first such line stay unread. -/
theorem not_readsReply {disconnectOn42x : Bool} {tempstr later l : Bytes} {r : FtpRequest UInt8}
    {reply : Reply} (hreply : reply.WellFormed) (hw : Waiting r (wire reply.lines ++ later))
    (hl : l ∈ reply.intermediate) (hb : BeginsCode l) :
    ¬ ReadsReply disconnectOn42x tempstr r reply later := by
  rintro ⟨enough, hreads⟩
  obtain ⟨front, m, after, hsplit, hfront, hm⟩ :=
    exists_first ⟨l, reply.intermediate_subset hl, hb⟩
  have hlines : reply.lines = (front ++ [m]) ++ (after ++ [reply.final]) := by
    rw [Reply.lines, hsplit]
    simp
  rw [hlines, wire_append, List.append_assoc] at hw
  have hhead : ∀ x ∈ front.head?, ThreeDigits x := by
    intro x hx
    apply reply.first_of_before
    rw [hsplit, List.head?_append, hx]
    rfl
  obtain ⟨r', hloop, hrest⟩ := replyLoop_reads (enough + replySize + front.length + 1)
    (enough + replySize + front.length + 1) tempstr
    (r := { r with lastFtpResponse := none }) (.inl rfl) (.inr hhead) hfront hm
    (fun x hx => hreply.fits x (hlines ▸ List.mem_append_left _ hx)) hw (by omega) (by omega)
  obtain ⟨n, r₁, -, hloop', hlater, -⟩ :=
    hreads (enough + replySize + front.length + 1) (by omega)
  rw [hloop] at hloop'
  simp only [Except.ok.injEq, Prod.mk.injEq] at hloop'
  obtain ⟨-, rfl⟩ := hloop'
  have hlen := congrArg List.length (hrest.unique hlater)
  simp only [wire, List.map_append, List.flatten_append, List.length_append, List.map_cons,
    List.map_nil, List.flatten_cons, List.flatten_nil, List.length_cons] at hlen
  omega

theorem readsReply {disconnectOn42x : Bool} {tempstr later : Bytes} {r : FtpRequest UInt8}
    {reply : Reply} (hreply : reply.WellFormed) (hopen : r.fds.control ≠ none)
    (hw : Waiting r (wire reply.lines ++ later))
    (hnone : ∀ l ∈ reply.intermediate, ¬ BeginsCode l) :
    ReadsReply disconnectOn42x tempstr r reply later := by
  refine ⟨replySize + reply.before.length + 1, fun fuel hfuel => ?_⟩
  obtain ⟨r₁, hloop, hlater⟩ := replyLoop_reads fuel fuel tempstr
    (r := { r with lastFtpResponse := none }) (.inl rfl) (.inr reply.first_of_before)
    (fun m hm hb => hnone m (reply.mem_before hm hb) hb) reply.beginsCode_final hreply.fits hw
    (show replySize < fuel by omega) (by omega)
  obtain ⟨r', hcall, -⟩ := readResponse_of_loop disconnectOn42x hopen hloop
  refine ⟨_, r₁, r', hloop, hlater, ?_⟩
  have htake : reply.final.take 2 = reply.code.take 2 := by
    rw [Reply.final, List.take_append_of_le_length (by rw [reply.digits.1]; omega)]
  have hhead : reply.final.head? = reply.code.head? := by
    have hlen := reply.digits.1
    unfold Reply.final
    cases hcode : reply.code with
    | nil => simp [hcode] at hlen
    | cons c code => rfl
  rw [hcall, htake, hhead, Reply.result]

/-- A well-formed reply is read exactly to its end, with the result of its final line, if and
only if no line inside it begins with three digits and a blank. -/
theorem reply_read_iff {disconnectOn42x : Bool} {tempstr later : Bytes} {r : FtpRequest UInt8}
    {reply : Reply} (hreply : reply.WellFormed) (hopen : r.fds.control ≠ none)
    (hw : Waiting r (wire reply.lines ++ later)) :
    ReadsReply disconnectOn42x tempstr r reply later ↔
      ∀ l ∈ reply.intermediate, ¬ BeginsCode l :=
  ⟨fun hreads _ hl hb => not_readsReply hreply hw hl hb hreads, readsReply hreply hopen hw⟩

/-- A request on which the bytes arrive in two pieces. -/
def divided (front behind : Bytes) : FtpRequest UInt8 :=
  ⟨⟨some ⟨[.ok front, .ok behind], 0, []⟩, none⟩, none, none, false, false, none⟩

/-- 220-a, 230-b and 220 c. -/
def greeting : Reply := ⟨ascii "220", some (ascii "a", [ascii "230-b"]), ascii "c", by decide⟩

theorem greeting_read :
    ReadsReply true [] (divided (ascii "220-a\r\n230-") (ascii "b\r\n220 c\r\n331 x\r\n")) greeting
      (ascii "331 x\r\n") :=
  (reply_read_iff (show greeting.WellFormed from ⟨by decide, by decide⟩) (by decide)
    (waiting_fresh rfl)).mpr (by decide)

/-- 220-a, 230 b and 220 c. -/
def codeInside : Reply := ⟨ascii "220", some (ascii "a", [ascii "230 b"]), ascii "c", by decide⟩

/-- Of 220-a, 230 b, 220 c the last line stays unread. -/
theorem codeInside_not_read :
    codeInside.WellFormed ∧ Waiting (divided (wire codeInside.lines) []) (wire codeInside.lines) ∧
      ¬ ReadsReply true [] (divided (wire codeInside.lines) []) codeInside [] := by
  have hreply : codeInside.WellFormed := ⟨by decide, by decide⟩
  have hw := waiting_fresh (r := divided (wire codeInside.lines) []) rfl
  exact ⟨hreply, hw, not_readsReply (l := ascii "230 b") hreply hw (by decide) (by decide)⟩

end Gftp.ReplyLines
