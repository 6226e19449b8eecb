import Gftp.Comments
import Gftp.LexicalPaths
import Gftp.TextIndices

/-!
The lines that write_comment writes. A line ends at the last blank among the bytes 1 to 76
of what is left, or at the first blank behind them. The comment is written as whole lines
when this wrapping leaves at least two bytes for the last line or ends with a long word.
-/

namespace Gftp.CommentLines

open ByteStrings Comments LexicalPaths TextFiles

/-- The output consists of lines behind a mark that hold the words in order. -/
def WordsWritten (comment output : Bytes) : Prop :=
  ∃ bodies, bodies ≠ [] ∧ output = joinLines (bodies.map (ascii "# " ++ ·)) ∧
    (∀ body ∈ bodies, 10 ∉ body) ∧ bodies.flatMap (components 32) = components 32 comment

/-- What is written next starts on a line of its own, behind lines of a comment. -/
def NextFresh (output : Bytes) : Prop :=
  ∀ next : Bytes, ∃ lines : List Bytes, (∀ l ∈ lines, l.head? = some 35) ∧
    (output ++ next).splitOn 10 = lines ++ next.splitOn 10

/-- A text longer than a line is cut between the two. -/
def BreaksAt (line rest : Bytes) : Prop :=
  76 < (line ++ 32 :: rest).length ∧
    (0 < line.length ∧ line.length ≤ 76 ∧ 32 ∉ rest.take (76 - line.length) ∨
      76 < line.length ∧ 32 ∉ line.tail)

/-- Cutting a text into lines leaves neither nothing nor a single byte for the last one. -/
inductive Wraps : Bytes → Prop
  | last {text : Bytes} : 1 < text.length → text.length ≤ 76 → Wraps text
  | word {text : Bytes} : 76 < text.length → 32 ∉ text.tail → Wraps text
  | line {line rest : Bytes} : BreaksAt line rest → Wraps rest → Wraps (line ++ 32 :: rest)

variable {text line rest : Bytes}

theorem blankBefore_eq {pos : Bytes} {i k : ℕ} (hk : 0 < k) (hi : k ≤ i) (hblank : pos[k]? = some 32)
    (hlast : ∀ j, k < j → j ≤ i → pos[j]? ≠ some 32) : blankBefore pos i = k := by
  induction i with
  | zero => omega
  | succ i ih =>
    rw [blankBefore]
    rcases Nat.lt_or_ge i k with hlt | hle
    · obtain rfl : k = i + 1 := by omega
      rw [if_pos hblank]
    · rw [if_neg (hlast (i + 1) (by omega) (Nat.le_refl _))]
      exact ih hle fun j hj hji => hlast j hj (by omega)

theorem blankBefore_zero {pos : Bytes} {i : ℕ} (h : ∀ j, 0 < j → j ≤ i → pos[j]? ≠ some 32) :
    blankBefore pos i = 0 := by
  induction i with
  | zero => rfl
  | succ i ih =>
    rw [blankBefore, if_neg (h (i + 1) (Nat.succ_pos i) (Nat.le_refl _))]
    exact ih fun j hj hji => h j hj (by omega)

theorem endpos_break (h : BreaksAt line rest) : endpos (line ++ 32 :: rest) = line.length := by
  obtain ⟨-, ⟨hpos, hle, hrest⟩ | ⟨hlong, hline⟩⟩ := h
  · have hlast : blankBefore (line ++ 32 :: rest) 76 = line.length := by
      apply blankBefore_eq hpos hle (by simp)
      intro j hj hji hblank
      obtain ⟨k, rfl⟩ := Nat.exists_eq_add_of_lt hj
      apply hrest
      apply List.mem_of_getElem? (i := k)
      rw [List.getElem?_take_of_lt (by omega)]
      rw [Nat.add_assoc, List.getElem?_append_right (by omega), Nat.add_sub_cancel_left,
        List.getElem?_cons_succ] at hblank
      exact hblank
    rw [endpos, hlast, if_neg hpos.ne']
  · have hnone : blankBefore (line ++ 32 :: rest) 76 = 0 := by
      apply blankBefore_zero
      intro j hj hji hblank
      obtain ⟨k, rfl⟩ := Nat.exists_eq_succ_of_ne_zero hj.ne'
      rw [List.getElem?_append_left (by omega)] at hblank
      apply hline
      apply List.mem_of_getElem? (i := k)
      rw [List.getElem?_tail]
      exact hblank
    have hword : 32 ∉ line.drop 76 := by
      rw [← List.drop_one] at hline
      exact fun h => hline ((List.drop_suffix_drop_left line (by decide)).subset h)
    rw [endpos, if_pos hnone, List.drop_append_of_le_length hlong.le, List.takeWhile_append_of_pos]
    · simp
      omega
    · intro b hb
      simpa using ne_of_mem_of_not_mem hb hword

theorem endpos_word (hlong : 76 < text.length) (hword : 32 ∉ text.tail) : endpos text = text.length := by
  have hnone : blankBefore text 76 = 0 := by
    apply blankBefore_zero
    intro j hj hji hblank
    obtain ⟨k, rfl⟩ := Nat.exists_eq_succ_of_ne_zero hj.ne'
    apply hword
    apply List.mem_of_getElem? (i := k)
    rw [List.getElem?_tail]
    exact hblank
  have hbehind : 32 ∉ text.drop 76 := by
    rw [← List.drop_one] at hword
    exact fun h => hword ((List.drop_suffix_drop_left text (by decide)).subset h)
  have hall : (text.drop 76).takeWhile (· ≠ 32) = text.drop 76 := by
    apply List.takeWhile_eq_self_iff.mpr
    intro b hb
    simpa using ne_of_mem_of_not_mem hb hbehind
  rw [endpos, if_pos hnone, hall, List.length_drop]
  omega

theorem exists_break (hlong : 76 < text.length) (hblank : 32 ∈ text.tail) :
    ∃ line rest, text = line ++ 32 :: rest ∧ BreaksAt line rest := by
  obtain ⟨b, tail, rfl⟩ := List.exists_cons_of_length_pos (by omega : 0 < text.length)
  rw [List.tail_cons] at hblank
  rw [List.length_cons] at hlong
  by_cases hreach : 32 ∈ tail.take 76
  · obtain ⟨u, c, v, hshow, hc, hv⟩ := @TextIndices.exists_last (· ≠ 32) _ _ hreach (by decide)
    obtain rfl : c = 32 := by simpa using hc
    have hlen : u.length + (v.length + 1) = 76 := by
      have htake := congrArg List.length hshow
      rw [List.length_take, List.length_append, List.length_cons] at htake
      omega
    have htext : b :: tail = (b :: u) ++ 32 :: (v ++ tail.drop 76) := by
      rw [List.cons_append, ← List.cons_append (a := 32), ← List.append_assoc, ← hshow,
        List.take_append_drop]
    refine ⟨b :: u, v ++ tail.drop 76, htext, ?_, Or.inl ⟨Nat.succ_pos _, ?_, ?_⟩⟩
    · rw [← htext]
      simpa using hlong
    · rw [List.length_cons]
      omega
    · rw [List.length_cons, show 76 - (u.length + 1) = v.length by omega, List.take_left]
      exact fun h => by simpa using hv 32 h
  · have hbehind : 32 ∈ tail.drop 76 := by
      rw [← List.take_append_drop 76 tail] at hblank
      exact (List.mem_append.mp hblank).resolve_left hreach
    obtain ⟨u, v, hshow, hu⟩ := List.eq_append_cons_of_mem hbehind
    have htext : b :: tail = (b :: (tail.take 76 ++ u)) ++ 32 :: v := by
      rw [List.cons_append, List.append_assoc, ← hshow, List.take_append_drop]
    refine ⟨b :: (tail.take 76 ++ u), v, htext, ?_, Or.inr ⟨?_, ?_⟩⟩
    · rw [← htext]
      simpa using hlong
    · rw [List.length_cons, List.length_append, List.length_take]
      omega
    · rw [List.tail_cons, List.mem_append]
      exact fun h => h.elim hreach hu

/-- The mark and what the rounds write behind it. -/
def markedLoop (fuel : ℕ) (text : Bytes) : Bytes := ascii "# " ++ commentLoop fuel text

theorem markedLoop_word (fuel : ℕ) (hlong : 76 < text.length) (hword : 32 ∉ text.tail) :
    markedLoop (fuel + 1) text = joinLines [ascii "# " ++ text] := by
  rw [markedLoop, commentLoop, if_pos hlong, endpos_word hlong hword, if_pos (Nat.le_refl _),
    List.take_length, joinLines_one, List.append_assoc]

theorem markedLoop_line (fuel : ℕ) (h : BreaksAt line rest) :
    markedLoop (fuel + 1) (line ++ 32 :: rest) =
      joinLines [ascii "# " ++ line] ++ markedLoop fuel rest := by
  have hlength : ¬(line ++ 32 :: rest).length ≤ line.length := by simp
  rw [markedLoop, commentLoop, if_pos h.1, endpos_break h, if_neg hlength, List.take_left,
    TextIndices.drop_behind, joinLines_one, markedLoop]
  simp

theorem markedLoop_last (fuel : ℕ) (hmore : 1 < text.length) (hshort : text.length ≤ 76) :
    markedLoop (fuel + 1) text = joinLines [ascii "# " ++ text] := by
  rw [markedLoop, commentLoop, if_neg (by omega), if_pos hmore, joinLines_one, List.append_assoc]

theorem joinLines_append (ls ls' : List Bytes) : joinLines (ls ++ ls') = joinLines ls ++ joinLines ls' :=
  List.flatMap_append

/-- A text that wraps is written line by line, with its words in order. -/
theorem Wraps.written {fuel : ℕ} (h : Wraps text) (hfuel : text.length < fuel) :
    ∃ bodies, bodies ≠ [] ∧ markedLoop fuel text = joinLines (bodies.map (ascii "# " ++ ·)) ∧
      (∀ body ∈ bodies, body <:+: text) ∧ bodies.flatMap (components 32) = components 32 text := by
  induction h generalizing fuel with
  | @last text hmore hshort =>
    obtain ⟨fuel, rfl⟩ := Nat.exists_eq_succ_of_ne_zero (Nat.ne_zero_of_lt hfuel)
    exact ⟨[text], nofun, markedLoop_last fuel hmore hshort, by simp, by simp⟩
  | @word text hlong hword =>
    obtain ⟨fuel, rfl⟩ := Nat.exists_eq_succ_of_ne_zero (Nat.ne_zero_of_lt hfuel)
    exact ⟨[text], nofun, markedLoop_word fuel hlong hword, by simp, by simp⟩
  | @line line rest hbreak _ ih =>
    obtain ⟨fuel, rfl⟩ := Nat.exists_eq_succ_of_ne_zero (Nat.ne_zero_of_lt hfuel)
    rw [List.length_append, List.length_cons] at hfuel
    obtain ⟨bodies, -, heq, hin, hwords⟩ := ih (show rest.length < fuel by omega)
    refine ⟨line :: bodies, nofun, ?_, ?_, ?_⟩
    · rw [markedLoop_line fuel hbreak, heq, ← joinLines_append]
      rfl
    · refine List.forall_mem_cons.mpr ⟨(List.prefix_append _ _).isInfix, fun body hbody => ?_⟩
      have hsuffix : rest <:+ line ++ 32 :: rest := ⟨line ++ [32], by simp⟩
      exact (hin body hbody).trans hsuffix.isInfix
    · rw [List.flatMap_cons, hwords, components_append]

/-- Otherwise the output ends with a mark. -/
theorem markedLoop_open (fuel : ℕ) (h : ¬Wraps text) (hfuel : text.length < fuel) :
    ∃ front, markedLoop fuel text = front ++ ascii "# " := by
  induction fuel generalizing text with
  | zero => omega
  | succ fuel ih =>
    by_cases hlong : 76 < text.length
    · have hblank : 32 ∈ text.tail := by
        by_contra hword
        exact h (Wraps.word hlong hword)
      obtain ⟨line, rest, rfl, hbreak⟩ := exists_break hlong hblank
      rw [List.length_append, List.length_cons] at hfuel
      obtain ⟨front, heq⟩ := ih (fun hw => h (Wraps.line hbreak hw)) (by omega)
      exact ⟨joinLines [ascii "# " ++ line] ++ front, by
        rw [markedLoop_line fuel hbreak, heq, List.append_assoc]⟩
    · have hone : ¬1 < text.length := fun hmore => h (Wraps.last hmore (by omega))
      exact ⟨[], by rw [markedLoop, commentLoop, if_neg hlong, if_neg hone, List.append_nil]; rfl⟩

theorem joinLines_getLast {ls : List Bytes} (h : ls ≠ []) : (joinLines ls).getLast? = some 10 := by
  obtain ⟨front, l, rfl⟩ : ∃ front l, ls = front ++ [l] :=
    ⟨_, _, (List.dropLast_append_getLast h).symm⟩
  rw [joinLines_append, joinLines_one, ← List.append_assoc, List.getLast?_concat]

theorem splitOn_joinLines {ls : List Bytes} (h : ∀ l ∈ ls, 10 ∉ l) (next : Bytes) :
    (joinLines ls ++ next).splitOn 10 = ls ++ next.splitOn 10 := by
  induction ls with
  | nil => rfl
  | cons l ls ih =>
    rw [List.forall_mem_cons] at h
    rw [joinLines, List.flatMap_cons, List.append_assoc, List.append_assoc, List.singleton_append,
      List.splitOn_append_cons_self_of_not_mem h.1, ← joinLines, ih h.2, List.cons_append]

variable {comment output : Bytes}

theorem WordsWritten.fresh (h : WordsWritten comment output) : NextFresh output := by
  obtain ⟨bodies, -, rfl, hfeed, -⟩ := h
  intro next
  refine ⟨bodies.map (ascii "# " ++ ·), fun l hl => ?_, splitOn_joinLines (fun l hl hmem => ?_) next⟩
  · obtain ⟨body, -, rfl⟩ := List.mem_map.mp hl
    rfl
  · obtain ⟨body, hbody, rfl⟩ := List.mem_map.mp hl
    exact (List.mem_append.mp hmem).elim (by decide) (hfeed body hbody)

/-- A line feed of the comment belongs to one of its words. -/
theorem WordsWritten.noFeed (h : WordsWritten comment output) : 10 ∉ comment := by
  obtain ⟨bodies, -, -, hfeed, hwords⟩ := h
  intro hmem
  have hword : 10 ∈ (components 32 comment).flatten := by
    rw [components_flatten]
    exact List.mem_filter.mpr ⟨hmem, by decide⟩
  rw [← hwords, List.mem_flatten] at hword
  obtain ⟨word, hword, h10⟩ := hword
  obtain ⟨body, hbody, hin⟩ := List.mem_flatMap.mp hword
  have hbodies : 10 ∈ (components 32 body).flatten := List.mem_flatten.mpr ⟨word, hin, h10⟩
  rw [components_flatten] at hbodies
  exact hfeed body hbody (List.mem_filter.mp hbodies).1

theorem WordsWritten.last (h : WordsWritten comment output) : output.getLast? = some 10 := by
  obtain ⟨bodies, hne, rfl, -, -⟩ := h
  exact joinLines_getLast (by simpa using hne)

theorem not_written_of_open {front : Bytes} : ¬WordsWritten comment (front ++ ascii "# ") := by
  intro h
  have hlast := h.last
  rw [List.getLast?_append] at hlast
  cases hlast

/-- A comment is written as whole lines that hold its words when it is a single line of text
that wraps. -/
theorem comment_written_iff (comment : Bytes) :
    WordsWritten comment (writeComment comment) ∧ NextFresh (writeComment comment) ↔
      10 ∉ comment ∧ Wraps comment := by
  have hloop : writeComment comment = markedLoop (comment.length + 1) comment := rfl
  constructor
  · intro ⟨h, _⟩
    refine ⟨h.noFeed, ?_⟩
    by_contra hwraps
    obtain ⟨front, hopen⟩ := markedLoop_open _ hwraps (Nat.lt_succ_self _)
    rw [hloop, hopen] at h
    exact not_written_of_open h
  · intro ⟨hfeed, hwraps⟩
    obtain ⟨bodies, hne, heq, hin, hwords⟩ := hwraps.written (Nat.lt_succ_self _)
    have hwritten : WordsWritten comment (writeComment comment) :=
      ⟨bodies, hne, hloop.trans heq, fun body hbody h => hfeed ((hin body hbody).subset h), hwords⟩
    exact ⟨hwritten, hwritten.fresh⟩

/-- A last word of one letter that does not fit the first line. -/
def shortEnd : Bytes := List.replicate 75 120 ++ [32, 97]

/-- The letter is lost, and the next option continues the comment. -/
theorem last_letter_lost :
    ¬(WordsWritten shortEnd (writeComment shortEnd) ∧ NextFresh (writeComment shortEnd)) := by
  intro ⟨h, _⟩
  have hlast := h.last
  revert hlast
  decide

end Gftp.CommentLines
