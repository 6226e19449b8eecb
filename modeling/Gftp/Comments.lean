import Gftp.TextFiles

/-!
write_comment, which writes a text as lines of a comment, cut at blanks after at most 76
bytes. What is left at the end is not written when it is a single byte, and then the last
line has no line feed either. The lines fit the buffer of the readers.
-/

namespace Gftp.Comments

open ByteStrings TextFiles

/-- The loop that goes back from a place to a blank, 0 for none. -/
def blankBefore (pos : Bytes) : ℕ → ℕ
  | 0 => 0
  | i + 1 => if pos[i + 1]? = some 32 then i + 1 else blankBefore pos i

/-- The place where a line ends: the last blank in reach, else the next one. -/
def endpos (pos : Bytes) : ℕ :=
  if blankBefore pos 76 = 0 then 76 + ((pos.drop 76).takeWhile (· ≠ 32)).length
  else blankBefore pos 76

def commentLoop : ℕ → Bytes → Bytes
  | 0, _ => []
  | fuel + 1, pos =>
      if 76 < pos.length then
        pos.take (endpos pos) ++ 10 ::
          if pos.length ≤ endpos pos then []
          else ascii "# " ++ commentLoop fuel (pos.drop (endpos pos + 1))
      else if 1 < pos.length then pos ++ [10] else []

/-- Each round takes a byte at least. -/
def writeComment (comment : Bytes) : Bytes :=
  ascii "# " ++ commentLoop (comment.length + 1) comment

/-- A text on one line, with words that fit a line. -/
structure Plain (text : Bytes) : Prop where
  noFeed : 10 ∉ text
  noNul : 0 ∉ text
  words : ∀ word, word <:+: text → 32 ∉ word → word.length ≤ 120

/-- A line that the readers skip, with room for what may stand before it. -/
structure CommentLine (l : Bytes) : Prop where
  mark : l.head? = some 35
  noFeed : 10 ∉ l
  noNul : 0 ∉ l
  short : l.length ≤ 200

variable {text : Bytes}

theorem Plain.ofInfix (h : Plain text) {part : Bytes} (hpart : part <:+: text) : Plain part where
  noFeed hmem := h.noFeed (hpart.subset hmem)
  noNul hmem := h.noNul (hpart.subset hmem)
  words word hword := h.words word (hword.trans hpart)

theorem plain_of_short (text : Bytes) (hfeed : 10 ∉ text) (hnul : 0 ∉ text)
    (hlen : text.length ≤ 120) : Plain text where
  noFeed := hfeed
  noNul := hnul
  words _ hword _ := hword.length_le.trans hlen

theorem blankBefore_le (pos : Bytes) (i : ℕ) : blankBefore pos i ≤ i := by
  induction i with
  | zero => exact Nat.le_refl _
  | succ i ih =>
    rw [blankBefore]
    split_ifs
    · exact Nat.le_refl _
    · exact ih.trans (Nat.le_succ i)

theorem Plain.endpos_le (h : Plain text) : endpos text ≤ 196 := by
  unfold endpos
  split_ifs
  · have hrun := h.words ((text.drop 76).takeWhile (· ≠ 32))
      ((List.takeWhile_prefix _).isInfix.trans (List.drop_suffix _ _).isInfix)
      fun hmem => by simpa using List.mem_takeWhile_imp hmem
    omega
  · exact (blankBefore_le text 76).trans (by omega)

theorem CommentLine.of_plain (h : Plain text) (hshort : text.length ≤ 196) :
    CommentLine (ascii "# " ++ text) where
  mark := rfl
  noFeed hmem := (List.mem_append.mp hmem).elim (by decide) h.noFeed
  noNul hmem := (List.mem_append.mp hmem).elim (by decide) h.noNul
  short := by
    rw [List.length_append, show (ascii "# ").length = 2 from rfl]
    omega

theorem joinLines_one (l : Bytes) : joinLines [l] = l ++ [10] := by simp [joinLines]

/-- The lines that a round and the ones after it write. -/
theorem commentLoop_lines (fuel : ℕ) (h : Plain text) :
    ∃ lines tail, ascii "# " ++ commentLoop fuel text = joinLines lines ++ tail ∧
      (∀ l ∈ lines, CommentLine l) ∧ (tail = [] ∨ tail = ascii "# ") := by
  induction fuel generalizing text with
  | zero => exact ⟨[], ascii "# ", rfl, nofun, .inr rfl⟩
  | succ fuel ih =>
    rw [commentLoop]
    split_ifs with hlong hend hmore
    · have htake : text.take (endpos text) <:+: text := (List.take_prefix _ _).isInfix
      have hline : CommentLine (ascii "# " ++ text.take (endpos text)) :=
        CommentLine.of_plain (h.ofInfix htake) ((List.length_take_le _ _).trans h.endpos_le)
      refine ⟨[ascii "# " ++ text.take (endpos text)], [], ?_, ?_, .inl rfl⟩
      · rw [joinLines_one, List.append_nil, List.append_assoc]
      · simpa using hline
    · have htake : text.take (endpos text) <:+: text := (List.take_prefix _ _).isInfix
      have hline : CommentLine (ascii "# " ++ text.take (endpos text)) :=
        CommentLine.of_plain (h.ofInfix htake) ((List.length_take_le _ _).trans h.endpos_le)
      obtain ⟨lines, tail, heq, hlines, htail⟩ :=
        ih (h.ofInfix (List.drop_suffix (endpos text + 1) text).isInfix)
      refine ⟨(ascii "# " ++ text.take (endpos text)) :: lines, tail, ?_, ?_, htail⟩
      · rw [heq]
        simp [joinLines]
      · exact List.forall_mem_cons.mpr ⟨hline, hlines⟩
    · refine ⟨[ascii "# " ++ text], [], ?_, ?_, .inl rfl⟩
      · rw [joinLines_one, List.append_nil, List.append_assoc]
      · simpa using CommentLine.of_plain h (by omega)
    · exact ⟨[], ascii "# ", rfl, nofun, .inr rfl⟩

theorem writeComment_lines (h : Plain text) :
    ∃ lines tail, writeComment text = joinLines lines ++ tail ∧
      (∀ l ∈ lines, CommentLine l) ∧ (tail = [] ∨ tail = ascii "# ") :=
  commentLoop_lines _ h

theorem CommentLine.behind {l : Bytes} (h : CommentLine l) :
    (ascii "# " ++ l).head? = some 35 ∧ FitsLine 254 (ascii "# " ++ l) ∧ 0 ∉ ascii "# " ++ l := by
  refine ⟨rfl, ⟨fun hmem => ?_, ?_⟩, fun hmem => ?_⟩
  · exact (List.mem_append.mp hmem).elim (by decide) h.noFeed
  · have hshort := h.short
    rw [List.length_append, show (ascii "# ").length = 2 from rfl]
    omega
  · exact (List.mem_append.mp hmem).elim (by decide) h.noNul

/-- The line fits the buffer of the reader. -/
def LineOk (l : Bytes) : Prop := FitsLine 254 l ∧ 0 ∉ l

instance : DecidablePred LineOk := fun l =>
  inferInstanceAs (Decidable ((10 ∉ l ∧ l.length < 254) ∧ 0 ∉ l))

theorem chomp_cstr {l : Bytes} (h : LineOk l) : chomp (cstr (l ++ [10])) = stripLast 13 l := by
  have hnul : 0 ∉ l ++ [10] := fun hmem => (List.mem_append.mp hmem).elim h.2 (by decide)
  rw [cstr_eq_self hnul, chomp_line]

theorem comment_lineOk {l : Bytes} (h : CommentLine l) : LineOk l :=
  ⟨⟨h.noFeed, by have := h.short; omega⟩, h.noNul⟩

/-- The comment is written as whole lines. -/
def Closed (comment : Bytes) : Prop :=
  ∃ lines, writeComment comment = joinLines lines ∧ ∀ l ∈ lines, CommentLine l

def closedCheck (comment : Bytes) : Bool :=
  (getLines 201 (writeComment comment)).all fun piece =>
    piece.getLast? = some 10 ∧ piece.dropLast.head? = some 35 ∧ 10 ∉ piece.dropLast ∧
      0 ∉ piece.dropLast ∧ piece.dropLast.length ≤ 200

theorem closed_of_check {comment : Bytes} (h : closedCheck comment = true) : Closed comment := by
  rw [closedCheck, List.all_eq_true] at h
  refine ⟨(getLines 201 (writeComment comment)).map List.dropLast, ?_, ?_⟩
  · have hpiece : ∀ piece ∈ getLines 201 (writeComment comment), piece.dropLast ++ [10] = piece :=
      fun piece hmem => List.dropLast_append_getLast? 10 (of_decide_eq_true (h piece hmem)).1
    have hjoin := getLines_flatten (by decide : 0 < 201) (writeComment comment)
    rw [joinLines, List.flatMap_map, List.flatMap_congr hpiece, List.flatMap_id']
    exact hjoin.symm
  · intro l hl
    obtain ⟨piece, hmem, rfl⟩ := List.mem_map.mp hl
    obtain ⟨-, hmark, hfeed, hnul, hshort⟩ := of_decide_eq_true (h piece hmem)
    exact ⟨hmark, hfeed, hnul, hshort⟩

/-- A text literal, letter by letter. -/
theorem ascii_spelled (text : List Char) :
    ascii (String.ofList text) = text.map fun c => UInt8.ofNat c.toNat := by
  rw [ascii, String.toList_ofList]

theorem closed_spelled {text : List Char}
    (h : closedCheck (text.map fun c => UInt8.ofNat c.toNat) = true) :
    Closed (ascii (String.ofList text)) := by
  rw [ascii_spelled]
  exact closed_of_check h

end Gftp.Comments
