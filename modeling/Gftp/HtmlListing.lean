import Gftp.HtmlLines
import Gftp.ListingSafety

/-!
Which lines of a directory index are read inside and left as they were. A name that is refused is
left with the terminators in it, and another anchor that ends the line sends the position past the
terminator. On all other lines the parser stays inside.
-/

namespace Gftp.HtmlListing

open ByteStrings Decimal HtmlLines ListingFields ListingParsers ListingSafety Protocol SafeRuns
open TextIndices TextPointers

/-- The first occurrence of t in a text, with what is behind it. -/
def occurrence (t : Bytes) : Bytes → Option Bytes
  | [] => none
  | b :: w => if t.isPrefixOf (b :: w) then some (b :: w) else occurrence t w

def either (upper lower w : Bytes) : Option Bytes := (occurrence upper w).or (occurrence lower w)

def closing (w : Bytes) : Option Bytes := either (ascii "</A>") (ascii "</a>") w

/-- The text between the next two quotes, and the text behind them. -/
def quoted (w : Bytes) : Option (Bytes × Bytes) :=
  let v := behindByte 34 w
  if 34 ∈ w ∧ 34 ∈ v then some (v.takeWhile (· ≠ 34), behindByte 34 v) else none

/-- The name that a line gives, and what is behind it. -/
def href (line : Bytes) : Option (Bytes × Bytes) :=
  (either (ascii "<A HREF=") (ascii "<a href=") line).bind quoted

/-- The name without a final slash. -/
def shown (name : Bytes) : Bytes := if name.getLast? = some 47 then name.dropLast else name

/-- In the text that is skipped behind a closing tag stands another anchor that ends the text. -/
inductive Overruns : Bytes → Prop
  | filler {b : UInt8} {w : Bytes} : b = 32 ∨ b = 9 ∨ b = 46 → Overruns w → Overruns (b :: w)
  | tag {u v : Bytes} : ¬ StartsAnchor (60 :: (u ++ 62 :: v)) → 62 ∉ u → Overruns v →
      Overruns (60 :: (u ++ 62 :: v))
  | anchor {w c v : Bytes} {b : UInt8} : StartsAnchor w → closing w = some c → c.drop 4 = b :: v →
      Overruns v → Overruns w
  | last {w c : Bytes} : StartsAnchor w → closing w = some c → c.drop 4 = [] → Overruns w

/-- The parser reads and writes inside the line and leaves it as it was. -/
def ReadInside (host : Host) (line : Bytes) : Prop :=
  ∃ entry, parseHtmlLine host (line ++ [0]) = .ok entry ∧ entry.tempstr = line ++ [0]

/-- The line has no quoted name, or it has one that is not refused, and no other anchor ends the
text that is skipped behind it. -/
def Harmless (line : Bytes) : Prop :=
  ∀ name rest, href line = some (name, rest) →
    ¬ Refused (shown name) ∧ ∀ c, closing rest = some c → ¬ Overruns (c.drop 4)

section Texts

variable {t w upper lower : Bytes}

theorem isPrefixOf_text (ht : 0 ∉ t) (w : Bytes) : t.isPrefixOf (w ++ [0]) = t.isPrefixOf w := by
  rw [Bool.eq_iff_iff, List.isPrefixOf_iff_prefix, List.isPrefixOf_iff_prefix]
  exact prefix_text ht w []

theorem findText_text (ht : 0 ∉ t) (hne : t ≠ []) (hw : 0 ∉ w) :
    findText t (w ++ [0]) = .ok ((occurrence t w).map (· ++ [0])) := by
  induction w with
  | nil =>
    obtain ⟨c, t, rfl⟩ := List.exists_cons_of_ne_nil hne
    have hno : (c :: t).isPrefixOf ([] ++ [0]) = false := isPrefixOf_text ht []
    rw [List.nil_append] at hno ⊢
    rw [findText, hno]
    rfl
  | cons b w ih =>
    rw [List.mem_cons, not_or] at hw
    have hhere := isPrefixOf_text ht (b :: w)
    rw [List.cons_append] at hhere ⊢
    rw [findText, occurrence, hhere]
    split_ifs with hprefix h0
    · rfl
    · exact absurd h0 (Ne.symm hw.1)
    · exact ih hw.2

theorem occurrence_suffix {v : Bytes} (h : occurrence t w = some v) : v <:+ w ∧ t <+: v := by
  induction w with
  | nil => cases h
  | cons b w ih =>
    rw [occurrence] at h
    split_ifs at h with hprefix
    · obtain rfl := Option.some.inj h
      exact ⟨List.suffix_refl _, List.isPrefixOf_iff_prefix.mp hprefix⟩
    · obtain ⟨hsuffix, hprefix⟩ := ih h
      exact ⟨hsuffix.trans (List.suffix_cons b w), hprefix⟩

theorem strstrEither_text (hupper : 0 ∉ upper ∧ upper ≠ []) (hlower : 0 ∉ lower ∧ lower ≠ [])
    (hw : 0 ∉ w) :
    strstrEither (w ++ [0]) upper lower = .ok ((either upper lower w).map (· ++ [0])) := by
  rw [strstrEither, findText_text hupper.1 hupper.2 hw, CRun.ok_bind, either]
  cases occurrence upper w with
  | none => exact findText_text hlower.1 hlower.2 hw
  | some v => rfl

theorem either_suffix {v : Bytes} (h : either upper lower w = some v) :
    v <:+ w ∧ (upper <+: v ∨ lower <+: v) := by
  rcases Option.or_eq_some_iff.mp h with h | ⟨-, h⟩
  · exact ⟨(occurrence_suffix h).1, .inl (occurrence_suffix h).2⟩
  · exact ⟨(occurrence_suffix h).1, .inr (occurrence_suffix h).2⟩

theorem findClosing_text (hw : 0 ∉ w) : findClosing (w ++ [0]) = .ok ((closing w).map (· ++ [0])) :=
  strstrEither_text (by decide) (by decide) hw

theorem quoted_eq {front name rest : Bytes} (hfront : 34 ∉ front) (hname : 34 ∉ name) :
    quoted (front ++ 34 :: (name ++ 34 :: rest)) = some (name, rest) := by
  unfold quoted
  simp only [behindByte_append hfront, behindByte_append hname]
  rw [if_pos (by simp), List.takeWhile_append_of_pos fun b hb => by
    simpa using ne_of_mem_of_not_mem hb hname]
  simp

theorem toQuote_stop {u rest : Bytes} {b : UInt8} (hu : 34 ∉ u ∧ 0 ∉ u) (hb : b = 34 ∨ b = 0) :
    toQuote (u ++ b :: rest) = .ok (b :: rest) := by
  refine skipWhile_append (fun x hx => ?_) ?_ rest
  · simpa using ⟨ne_of_mem_of_not_mem hx hu.1, ne_of_mem_of_not_mem hx hu.2⟩
  · rcases hb with rfl | rfl <;> rfl

/-- A text has two quotes, or the search for them ends at its terminator. -/
theorem quotedName_cases (hw : 0 ∉ w) :
    (quoted w = none ∧ quotedName (w ++ [0]) = .ok none) ∨
      ∃ front name rest, w = front ++ 34 :: (name ++ 34 :: rest) ∧ 34 ∉ front ∧ 34 ∉ name ∧
        quotedName (w ++ [0]) = .ok (some (name ++ 34 :: rest ++ [0], 34 :: rest ++ [0])) := by
  by_cases hopen : 34 ∈ w
  · obtain ⟨front, v, rfl, hfront⟩ := List.eq_append_cons_of_mem hopen
    simp only [List.mem_append, List.mem_cons, not_or] at hw
    have hfirst : toQuote (front ++ 34 :: v ++ [0]) = .ok (34 :: (v ++ [0])) := by
      rw [List.append_assoc]
      exact toQuote_stop ⟨hfront, hw.1⟩ (.inl rfl)
    by_cases hclose : 34 ∈ v
    · obtain ⟨name, rest, rfl, hname⟩ := List.eq_append_cons_of_mem hclose
      simp only [List.mem_append, List.mem_cons, not_or] at hw
      have hsecond : toQuote (name ++ 34 :: rest ++ [0]) = .ok (34 :: rest ++ [0]) := by
        rw [List.append_assoc]
        exact toQuote_stop ⟨hname, hw.2.2.1⟩ (.inl rfl)
      refine .inr ⟨front, name, rest, rfl, hfront, hname, ?_⟩
      rw [quotedName, hfirst, CRun.ok_bind]
      simp only [deref, CRun.ok_bind, List.drop_one, List.tail_cons, hsecond]
      rfl
    · have hsecond : toQuote (v ++ [0]) = .ok [0] := toQuote_stop ⟨hclose, hw.2.2⟩ (.inr rfl)
      refine .inl ⟨?_, ?_⟩
      · rw [quoted, behindByte_append hfront]
        exact if_neg fun h => hclose h.2
      · rw [quotedName, hfirst, CRun.ok_bind]
        simp only [deref, CRun.ok_bind, List.drop_one, List.tail_cons, hsecond]
        rfl
  · have hfirst : toQuote (w ++ [0]) = .ok [0] := toQuote_stop ⟨hopen, hw⟩ (.inr rfl)
    refine .inl ⟨if_neg fun h => hopen h.1, ?_⟩
    rw [quotedName, hfirst]
    rfl

end Texts

section Names

variable {front name rest g n : Bytes} {c : UInt8}

/-- The block of a line with its name; front ends with the opening quote. -/
def nameBlock (front name rest : Bytes) : Bytes := front ++ name ++ 34 :: (rest ++ [0])

/-- The block with the name that is cut at its end, without a final slash. -/
def cutBlock (front name rest : Bytes) : Bytes :=
  if name.getLast? = some 47 then front ++ name.dropLast ++ 0 :: 0 :: (rest ++ [0])
  else front ++ name ++ 0 :: (rest ++ [0])

def withMode (name : Bytes) : GftpFile :=
  { GftpFile.cleared with stMode := if name.getLast? = some 47 then dirMode else fileMode }

theorem copyName_slash (hn : 0 ∉ n) :
    copyName (nameBlock front (n ++ [47]) rest) front.length (front ++ (n ++ [47])).length =
      if Refused n then .ok (cutBlock front (n ++ [47]) rest, withMode (n ++ [47]))
      else .ok (nameBlock front (n ++ [47]) rest, { withMode (n ++ [47]) with file := some n }) := by
  have hlast : (n ++ [(47 : UInt8)]).getLast? = some 47 := List.getLast?_concat
  have hclose : ∀ a b R, writeAt (front ++ (n ++ [47]) ++ a :: R) (front ++ (n ++ [47])).length b =
      .ok (front ++ (n ++ [47]) ++ b :: R) := fun a b R => writeAt_front _ a R b
  have hsplit : ∀ R, front ++ (n ++ [47]) ++ R = front ++ n ++ 47 :: R := by simp
  have hbefore : (front ++ (n ++ [47])).length - 1 = (front ++ n).length := by simp
  have htext : textFrom (front ++ n ++ 0 :: 0 :: (rest ++ [0])) front.length = .ok n := by
    rw [List.append_assoc]
    exact textFrom_text hn front _
  rw [copyName, nameBlock, hclose, CRun.ok_bind, hbefore, hsplit, readAt_front, CRun.ok_bind,
    if_pos rfl, writeAt_front, CRun.ok_bind, htext, CRun.ok_bind]
  by_cases hrefused : Refused n
  · rw [if_pos hrefused, if_pos hrefused, cutBlock, if_pos hlast, List.dropLast_concat, withMode,
      if_pos hlast]
    rfl
  · rw [if_neg hrefused, if_neg hrefused, readAt_front, CRun.ok_bind, if_pos rfl, writeAt_front,
      CRun.ok_bind, ← hsplit, hclose, CRun.ok_bind, withMode, if_pos hlast]
    rfl

/-- Another name, or none; c is its last byte or the opening quote. -/
theorem copyName_plain (hshow : front ++ name = g ++ [c]) (hname : 0 ∉ name) (hc : c ≠ 47)
    (hc0 : c ≠ 0) (hlast : name.getLast? ≠ some 47) :
    copyName (nameBlock front name rest) front.length (front ++ name).length =
      if Refused name then .ok (cutBlock front name rest, withMode name)
      else .ok (nameBlock front name rest, { withMode name with file := some name }) := by
  have hclose : ∀ a b R, writeAt (front ++ name ++ a :: R) (front ++ name).length b =
      .ok (front ++ name ++ b :: R) := fun a b R => writeAt_front _ a R b
  have hread : ∀ R, readAt (front ++ name ++ R) ((front ++ name).length - 1) = .ok c := by
    intro R
    rw [hshow, List.append_assoc, List.length_append, List.length_singleton, Nat.add_sub_cancel]
    exact readAt_front g c R
  have htext : textFrom (front ++ name ++ 0 :: (rest ++ [0])) front.length = .ok name := by
    rw [List.append_assoc]
    exact textFrom_text hname front _
  rw [copyName, nameBlock, hclose, CRun.ok_bind, hread, CRun.ok_bind, if_neg hc, CRun.ok_bind, htext,
    CRun.ok_bind]
  by_cases hrefused : Refused name
  · rw [if_pos hrefused, if_pos hrefused, cutBlock, if_neg hlast, withMode, if_neg hlast, if_neg hc]
    rfl
  · rw [if_neg hrefused, if_neg hrefused, hread, CRun.ok_bind, if_neg hc0, CRun.ok_bind, hclose,
      CRun.ok_bind, withMode, if_neg hlast, if_neg hc]
    rfl

/-- The name is copied and the line put together again, or it stays cut. -/
theorem copyName_eq (hquote : front.getLast? = some 34) (hname : 0 ∉ name) :
    copyName (nameBlock front name rest) front.length (front ++ name).length =
      if Refused (shown name) then .ok (cutBlock front name rest, withMode name)
      else .ok (nameBlock front name rest, { withMode name with file := some (shown name) }) := by
  by_cases hlast : name.getLast? = some 47
  · obtain ⟨n, rfl⟩ := List.getLast?_eq_some_iff.mp hlast
    rw [shown, if_pos hlast, List.dropLast_concat]
    exact copyName_slash fun h0 => hname (List.mem_append_left _ h0)
  · rw [shown, if_neg hlast]
    rcases List.eq_nil_or_concat name with rfl | ⟨n, c, rfl⟩
    · obtain ⟨g, rfl⟩ := List.getLast?_eq_some_iff.mp hquote
      exact copyName_plain (List.append_nil _) hname (by decide) (by decide) hlast
    · rw [List.concat_eq_append] at hname hlast ⊢
      have hc0 : c ≠ 0 := fun h0 => hname (by simp [h0])
      have hc : c ≠ 47 := fun h47 => hlast (by rw [h47, List.getLast?_concat])
      exact copyName_plain (List.append_assoc _ _ _).symm hname hc hc0 hlast

theorem cutBlock_ne (front name rest : Bytes) : cutBlock front name rest ≠ nameBlock front name rest := by
  intro heq
  rw [cutBlock, nameBlock] at heq
  split_ifs at heq with hlast
  · obtain ⟨n, rfl⟩ := List.getLast?_eq_some_iff.mp hlast
    rw [List.dropLast_concat, List.append_assoc, List.append_assoc, List.append_assoc] at heq
    have htail := List.append_cancel_left (List.append_cancel_left heq)
    cases (List.cons.inj htail).1
  · cases (List.cons.inj (List.append_cancel_left heq)).1

end Names

section Markup

variable {w u v c : Bytes} {fuel : ℕ}

theorem startsAnchor_text (w : Bytes) : StartsAnchor (w ++ [0]) ↔ StartsAnchor w :=
  or_congr (prefix_text (by decide) w []) (prefix_text (by decide) w [])

theorem startsAnchor_cons (h : StartsAnchor w) : ∃ u, w = 60 :: u := by
  rcases h with ⟨u, rfl⟩ | ⟨u, rfl⟩ <;> exact ⟨_, rfl⟩

theorem closing_suffix (h : closing w = some c) : c <:+ w ∧ 4 ≤ c.length := by
  obtain ⟨hsuffix, hprefix⟩ := either_suffix h
  refine ⟨hsuffix, ?_⟩
  rcases hprefix with hprefix | hprefix <;> exact hprefix.length_le

theorem skipMarkup_filler {b : UInt8} (hb : b = 32 ∨ b = 9 ∨ b = 46) :
    skipMarkup (fuel + 1) (b :: w ++ [0]) = skipMarkup fuel (w ++ [0]) := by
  have hne : b ≠ 60 := by
    rcases hb with rfl | rfl | rfl <;> decide
  rw [List.cons_append, skipMarkup, deref, CRun.ok_bind, if_neg hne, if_pos hb]
  rfl

theorem skipMarkup_tag (h : ¬ StartsAnchor (60 :: (u ++ 62 :: v))) (hu : 62 ∉ u) (hnul : 0 ∉ u) :
    skipMarkup (fuel + 1) (60 :: (u ++ 62 :: v) ++ [0]) = skipMarkup fuel (v ++ [0]) := by
  have hanchor := mt (startsAnchor_text _).mp h
  have hend : skipWhile (fun b => b ≠ 62 ∧ b ≠ 0) (60 :: u ++ 62 :: (v ++ [0])) = .ok (62 :: (v ++ [0])) := by
    refine skipWhile_append (fun x hx => ?_) rfl (v ++ [0])
    rcases List.mem_cons.mp hx with rfl | hx
    · rfl
    · simpa using ⟨ne_of_mem_of_not_mem hx hu, ne_of_mem_of_not_mem hx hnul⟩
  have hshow : 60 :: (u ++ 62 :: v) ++ [0] = 60 :: u ++ 62 :: (v ++ [0]) := by simp
  rw [hshow] at hanchor ⊢
  rw [List.cons_append, skipMarkup, deref, CRun.ok_bind, if_pos rfl]
  rw [List.cons_append] at hanchor hend
  rw [if_neg hanchor, hend]
  rfl

theorem skipMarkup_open (h : ¬ StartsAnchor (60 :: u)) (hu : 62 ∉ u) (hnul : 0 ∉ u) :
    skipMarkup (fuel + 1) (60 :: u ++ [0]) = .ok none := by
  have hanchor := mt (startsAnchor_text _).mp h
  have hend : skipWhile (fun b => b ≠ 62 ∧ b ≠ 0) (60 :: u ++ [0]) = .ok [0] := by
    refine skipWhile_append (fun x hx => ?_) rfl []
    rcases List.mem_cons.mp hx with rfl | hx
    · rfl
    · simpa using ⟨ne_of_mem_of_not_mem hx hu, ne_of_mem_of_not_mem hx hnul⟩
  rw [List.cons_append] at hanchor hend ⊢
  rw [skipMarkup, deref, CRun.ok_bind, if_pos rfl, if_neg hanchor, hend]
  rfl

theorem skipMarkup_anchor (h : StartsAnchor w) (hw : 0 ∉ w) :
    skipMarkup (fuel + 1) (w ++ [0]) =
      (closing w).elim (.ok none) fun c => skipMarkup fuel ((c ++ [0]).drop 5) := by
  have hanchor := (startsAnchor_text w).mpr h
  have hfind := findClosing_text hw
  obtain ⟨u, rfl⟩ := startsAnchor_cons h
  rw [List.cons_append] at hanchor hfind ⊢
  rw [skipMarkup, deref, CRun.ok_bind, if_pos rfl, if_pos hanchor, hfind, CRun.ok_bind]
  cases closing (60 :: u) <;> rfl

/-- Behind the closing tag the byte that follows is skipped, too. -/
theorem drop_closing {b : UInt8} (h : c.drop 4 = b :: v) : (c ++ [0]).drop 5 = v ++ [0] := by
  have hlength : 5 ≤ c.length := by
    have hdrop := congrArg List.length h
    rw [List.length_drop, List.length_cons] at hdrop
    omega
  rw [List.drop_append_of_le_length hlength, show (5 : ℕ) = 4 + 1 from rfl, ← List.drop_drop, h]
  rfl

/-- The position passes the terminator. -/
theorem skipMarkup_overruns (h : Overruns w) (hw : 0 ∉ w) (hfuel : w.length < fuel) :
    skipMarkup fuel (w ++ [0]) = .error .fault := by
  induction h generalizing fuel with
  | @filler b w hb _ ih =>
    obtain ⟨fuel, rfl⟩ := Nat.exists_eq_succ_of_ne_zero (Nat.ne_of_gt (Nat.zero_lt_of_lt hfuel))
    rw [skipMarkup_filler hb]
    exact ih (fun h0 => hw (List.mem_cons_of_mem _ h0)) (Nat.lt_of_succ_lt_succ hfuel)
  | @tag u v hanchor hu _ ih =>
    obtain ⟨fuel, rfl⟩ := Nat.exists_eq_succ_of_ne_zero (Nat.ne_of_gt (Nat.zero_lt_of_lt hfuel))
    simp only [List.mem_cons, List.mem_append, not_or] at hw
    simp only [List.length_cons, List.length_append] at hfuel
    rw [skipMarkup_tag hanchor hu hw.2.1]
    exact ih hw.2.2.2 (by omega)
  | @anchor w c v b hanchor hclose hdrop _ ih =>
    obtain ⟨fuel, rfl⟩ := Nat.exists_eq_succ_of_ne_zero (Nat.ne_of_gt (Nat.zero_lt_of_lt hfuel))
    obtain ⟨hsuffix, -⟩ := closing_suffix hclose
    have hv : b :: v <:+ w := hdrop ▸ (List.drop_suffix 4 c).trans hsuffix
    have hlength := hv.length_le
    rw [List.length_cons] at hlength
    rw [skipMarkup_anchor hanchor hw, hclose, Option.elim_some, drop_closing hdrop]
    exact ih (fun h0 => hw (hv.subset (List.mem_cons_of_mem _ h0))) (by omega)
  | @last w c hanchor hclose hdrop =>
    obtain ⟨fuel, rfl⟩ := Nat.exists_eq_succ_of_ne_zero (Nat.ne_of_gt (Nat.zero_lt_of_lt hfuel))
    obtain ⟨hsuffix, hfour⟩ := closing_suffix hclose
    have hlength := hsuffix.length_le
    obtain ⟨fuel, rfl⟩ := Nat.exists_eq_succ_of_ne_zero (by omega : fuel ≠ 0)
    have hend : (c ++ [0]).drop 5 = [] := by
      rw [List.drop_eq_nil_iff] at hdrop ⊢
      rw [List.length_append, List.length_singleton]
      omega
    rw [skipMarkup_anchor hanchor hw, hclose, Option.elim_some, hend]
    rfl

theorem skipMarkup_cases (hw : 0 ∉ w) (hfuel : w.length < fuel) :
    Overruns w ∨ ∃ pos, skipMarkup fuel (w ++ [0]) = .ok pos ∧
      ∀ q, pos = some q → ∃ v, v <:+ w ∧ q = v ++ [0] := by
  induction fuel generalizing w with
  | zero => omega
  | succ fuel ih =>
    -- what a round leaves is shorter, and a position in it is one in the text
    have hround : ∀ v, v <:+ w → v.length < w.length →
        skipMarkup (fuel + 1) (w ++ [0]) = skipMarkup fuel (v ++ [0]) →
        (Overruns v → Overruns w) →
        Overruns w ∨ ∃ pos, skipMarkup (fuel + 1) (w ++ [0]) = .ok pos ∧
          ∀ q, pos = some q → ∃ v, v <:+ w ∧ q = v ++ [0] := by
      intro v hv hlength hskip hover
      rcases ih (fun h0 => hw (hv.subset h0)) (by omega) with h | ⟨pos, hrun, hpos⟩
      · exact .inl (hover h)
      · refine .inr ⟨pos, hskip.trans hrun, fun q hq => ?_⟩
        obtain ⟨v', hv', rfl⟩ := hpos q hq
        exact ⟨v', hv'.trans hv, rfl⟩
    by_cases hanchor : StartsAnchor w
    · have hskip := @skipMarkup_anchor w fuel hanchor hw
      cases hclose : closing w with
      | none =>
        rw [hclose] at hskip
        exact .inr ⟨none, hskip, fun q hq => by cases hq⟩
      | some c =>
        rw [hclose, Option.elim_some] at hskip
        obtain ⟨hsuffix, -⟩ := closing_suffix hclose
        cases hdrop : c.drop 4 with
        | nil => exact .inl (.last hanchor hclose hdrop)
        | cons b v =>
          have hv : b :: v <:+ w := hdrop ▸ (List.drop_suffix 4 c).trans hsuffix
          have hlength := hv.length_le
          rw [drop_closing hdrop] at hskip
          exact hround v ((List.suffix_cons b v).trans hv) hlength hskip (.anchor hanchor hclose hdrop)
    · cases w with
      | nil => exact .inr ⟨some [0], rfl, fun q hq => ⟨[], List.suffix_refl _, (Option.some.inj hq).symm⟩⟩
      | cons b w =>
        rw [List.mem_cons, not_or] at hw
        by_cases hb : b = 60
        · subst hb
          by_cases hclose : 62 ∈ w
          · obtain ⟨u, v, rfl, hu⟩ := List.eq_append_cons_of_mem hclose
            have hnul : 0 ∉ u := fun h0 => hw.2 (List.mem_append_left _ h0)
            have hv : v <:+ 60 :: (u ++ 62 :: v) := ⟨60 :: (u ++ [62]), by simp⟩
            exact hround v hv (by simp; omega) (skipMarkup_tag hanchor hu hnul) (.tag hanchor hu)
          · exact .inr ⟨none, skipMarkup_open hanchor hclose hw.2, fun q hq => by cases hq⟩
        · by_cases hfiller : b = 32 ∨ b = 9 ∨ b = 46
          · exact hround w (List.suffix_cons b w) (Nat.lt_succ_self _) (skipMarkup_filler hfiller)
              (.filler hfiller)
          · refine .inr ⟨some (b :: w ++ [0]), ?_, fun q hq => ⟨b :: w, List.suffix_refl _,
              (Option.some.inj hq).symm⟩⟩
            rw [List.cons_append, skipMarkup, deref, CRun.ok_bind, if_neg hb, if_neg hfiller]
            rfl

end Markup

section Sizes

variable {host : Host} {text front v : Bytes}

/-- The string at an index of a line, with its terminator. -/
theorem nul_mem_drop {i : ℕ} (hi : i ≤ text.length) : 0 ∈ (text ++ [0]).drop i := by
  rw [List.drop_append_of_le_length hi]
  exact List.mem_append_right _ (List.mem_singleton_self 0)

theorem readAt_returns {i : ℕ} (hi : i ≤ text.length) : Returns (readAt (text ++ [0]) i) fun b =>
    (text ++ [0])[i]? = some b :=
  (deref_returns (nul_mem_drop hi)).mono fun b hb => by
    rw [← hb.1, List.head?_drop]

theorem walkBack_returns (units : ℤ) {i : ℕ} (size : ℤ) (hi : i ≤ text.length)
    (hblank : ∃ j < i, text[j]? = some 32) :
    Returns (walkBack (text ++ [0]) units i size) fun r => r.1 ≤ i := by
  induction i generalizing size with
  | zero =>
    obtain ⟨j, hj, -⟩ := hblank
    exact absurd hj (Nat.not_lt_zero j)
  | succ i ih =>
    have hmore : ∀ b, (text ++ [0])[i]? = some b → ¬ (b = 32 ∨ b = 9) →
        ∀ size, Returns (walkBack (text ++ [0]) units i size) fun r => r.1 ≤ i + 1 := by
      intro b hb hne size
      refine (ih size (by omega) ?_).mono fun r hr => Nat.le_succ_of_le hr
      obtain ⟨j, hj, hjb⟩ := hblank
      rcases Nat.lt_succ_iff_lt_or_eq.mp hj with hlt | rfl
      · exact ⟨j, hlt, hjb⟩
      · rw [List.getElem?_append_left (by omega), hjb] at hb
        exact absurd (.inl (Option.some.inj hb).symm) hne
    refine (readAt_returns (by omega)).bind fun b hb => ?_
    by_cases hstop : b = 32 ∨ b = 9
    · rw [if_pos hstop]
      exact .pure (Nat.le_refl _)
    rw [if_neg hstop]
    by_cases hdot : b = 46
    · rw [if_pos hdot]
      refine (readAt_returns hi).bind fun c _ => ?_
      split_ifs
      · exact (parseFileSize_returns (nul_mem_drop hi)).bind fun n _ => hmore b hb hstop _
      · exact hmore b hb hstop size
    · rw [if_neg hdot]
      exact hmore b hb hstop size

theorem nearer_found (hv : 0 ∉ v) {kpos mpos : Option Bytes} (hk : findByte 107 (v ++ [0]) = .ok kpos)
    (hm : findByte 77 (v ++ [0]) = .ok mpos) {letter : Bytes} (h : nearer kpos mpos = some letter) :
    ∃ k ≤ v.length, letter = v.drop k ++ [0] := by
  have hfound : ∀ c : UInt8, c ≠ 0 → ∀ pos, findByte c (v ++ [0]) = .ok pos →
      ∀ q, pos = some q → ∃ k ≤ v.length, q = v.drop k ++ [0] := by
    intro c hc pos hpos q hq
    have htext := findByte_text hc hv []
    rw [hpos] at htext
    obtain rfl := Except.ok.inj htext
    split_ifs at hq with hmem
    exact ⟨v.idxOf c, List.idxOf_le_length, (Option.some.inj hq).symm⟩
  have hk := hfound 107 (by decide) kpos hk
  have hm := hfound 77 (by decide) mpos hm
  cases kpos with
  | none => exact hm letter h
  | some k =>
    cases mpos with
    | none => exact hk letter h
    | some m =>
      rw [nearer] at h
      split_ifs at h
      · exact hk letter h
      · exact hm letter h

/-- Behind a blank in the text the size is found without leaving it. -/
theorem sizeBehind_returns (htext : text = front ++ v) (hv : 0 ∉ v) (hblank : 32 ∈ front) :
    Returns (sizeBehind (text ++ [0]) (v ++ [0])) fun _ => True := by
  have hfind : ∀ c : UInt8, c ≠ 0 → Returns (findByte c (v ++ [0])) fun pos =>
      findByte c (v ++ [0]) = .ok pos := fun c hc => ⟨_, findByte_text hc hv [], findByte_text hc hv []⟩
  refine (hfind 107 (by decide)).bind fun kpos hk => ?_
  refine (hfind 77 (by decide)).bind fun mpos hm => ?_
  cases hletter : nearer kpos mpos with
  | none => exact .pure trivial
  | some letter =>
    obtain ⟨k, hkv, rfl⟩ := nearer_found hv hk hm hletter
    have hpos := List.length_pos_of_mem hblank
    have hlength : text.length = front.length + v.length := by rw [htext, List.length_append]
    have hstpos : (text ++ [0]).length - (v.drop k ++ [0]).length = front.length + k := by
      simp only [List.length_append, List.length_drop, List.length_singleton]
      omega
    obtain ⟨j, hj⟩ := List.mem_iff_getElem?.mp hblank
    have hjlt : j < front.length := (List.getElem?_eq_some_iff.mp hj).1
    have hjline : text[j]? = some 32 := by rw [htext, List.getElem?_append_left hjlt, hj]
    simp only [hstpos]
    refine (readAt_returns (by omega)).bind fun before _ => ?_
    split_ifs
    · refine (deref_returns (by simp)).bind fun b _ => ?_
      refine (walkBack_returns _ 0 (by omega) ⟨j, by omega, hjline⟩).bind fun r hr => ?_
      exact (parseFileSize_returns (nul_mem_drop (by omega))).bind fun n _ => .pure trivial
    · exact .pure trivial

theorem dateAndSize_returns (hhost : ReadsInside host) (htext : text = front ++ v) (hv : 0 ∉ v)
    (hblank : 32 ∈ front) (fle : GftpFile) :
    Returns (dateAndSize host (text ++ [0]) fle (v ++ [0])) fun r => r.file = fle.file := by
  -- a position behind is in the text, too
  have hbehind : ∀ w, w <:+ v → 0 ∉ w ∧ ∃ u, text = u ++ w ∧ 32 ∈ u := by
    rintro w ⟨u, rfl⟩
    refine ⟨fun h0 => hv (List.mem_append_right _ h0), front ++ u, ?_, List.mem_append_left _ hblank⟩
    rw [htext, List.append_assoc]
  refine (deref_returns (by simp)).bind fun b hb => ?_
  obtain ⟨w, hw, hstart⟩ : ∃ w, w <:+ v ∧
      (if b = 91 then (v ++ [0]).drop 1 else v ++ [0]) = w ++ [0] := by
    split_ifs with hbracket
    · cases v with
      | nil =>
        rw [hbracket] at hb
        cases hb.1
      | cons c v => exact ⟨v, List.suffix_cons c v, rfl⟩
    · exact ⟨v, List.suffix_refl v, rfl⟩
  have htime := parseTime_text hhost (hbehind w hw).1 []
  have hrest := timeText_suffix host w
  have hskip := @skipWhile_text (fun b => b = 32 ∨ b = 93) (by decide) (timeText host w).2 []
  have hsize := List.dropWhile_suffix (l := (timeText host w).2) (fun b : UInt8 => b = 32 ∨ b = 93)
  obtain ⟨hnul, u, hu, hfront⟩ := hbehind _ (hsize.trans (hrest.trans hw))
  rw [hstart, htime, CRun.ok_bind]
  simp only [hskip, CRun.ok_bind]
  exact (sizeBehind_returns hu hnul hfront).bind fun size _ => .pure rfl

end Sizes

section Lines

variable {host : Host} {line front name rest : Bytes}

theorem findHref_text (hline : 0 ∉ line) : findHref (line ++ [0]) =
    .ok ((either (ascii "<A HREF=") (ascii "<a href=") line).map (· ++ [0])) :=
  strstrEither_text (by decide) (by decide) hline

/-- The blank of the tag is in front of the quote. -/
theorem blank_mem_tag {w u v : Bytes} (hw : ascii "<A HREF=" <+: w ∨ ascii "<a href=" <+: w)
    (hshow : w = u ++ 34 :: v) : 32 ∈ u := by
  have htag : ∀ t : Bytes, 34 ∉ t → 32 ∈ t → t <+: w → 32 ∈ u := by
    rintro t hquote hblank ⟨x, hx⟩
    rcases List.append_eq_append_iff.mp (hx.trans hshow) with ⟨y, rfl, -⟩ | ⟨y, rfl, hy⟩
    · exact List.mem_append_left _ hblank
    · cases y with
      | nil => rwa [List.append_nil] at hblank
      | cons b y =>
        obtain ⟨rfl, -⟩ := List.cons.inj hy
        exact absurd (by simp) hquote
  rcases hw with hw | hw
  · exact htag _ (by decide) (by decide) hw
  · exact htag _ (by decide) (by decide) hw

/-- A line without a quoted name is returned from at once, and one with a name is shown at it. -/
theorem href_cases (hline : 0 ∉ line) :
    (href line = none ∧
        parseHtmlLine host (line ++ [0]) = .ok ⟨line ++ [0], false, GftpFile.cleared⟩) ∨
      ∃ front name rest, href line = some (name, rest) ∧ line = front ++ name ++ 34 :: rest ∧
        front.getLast? = some 34 ∧ 32 ∈ front ∧
        parseHtmlLine host (line ++ [0]) =
          namedEntry host (nameBlock front name rest) front.length (front ++ name).length := by
  have hfind := findHref_text hline
  rw [parseHtmlLine, hfind, CRun.ok_bind, href]
  cases hw : either (ascii "<A HREF=") (ascii "<a href=") line with
  | none => exact .inl ⟨rfl, rfl⟩
  | some w =>
    obtain ⟨⟨u, rfl⟩, htag⟩ := either_suffix hw
    have hwnul : 0 ∉ w := fun h0 => hline (List.mem_append_right _ h0)
    rw [Option.bind_some]
    rcases quotedName_cases hwnul with ⟨hnone, hrun⟩ | ⟨a, name, rest, rfl, ha, hname, hrun⟩
    · refine .inl ⟨hnone, ?_⟩
      simp only [Option.map_some, hrun, CRun.ok_bind]
      rfl
    · refine .inr ⟨u ++ a ++ [34], name, rest, quoted_eq ha hname, by simp, by simp, ?_, ?_⟩
      · simp [blank_mem_tag htag rfl]
      · have hblock : u ++ (a ++ 34 :: (name ++ 34 :: rest)) ++ [0] =
            nameBlock (u ++ a ++ [34]) name rest := by simp [nameBlock]
        have hstpos : (nameBlock (u ++ a ++ [34]) name rest).length - (name ++ 34 :: rest ++ [0]).length =
            (u ++ a ++ [34]).length := by
          simp only [nameBlock, List.length_append, List.length_cons, List.length_nil]
          omega
        have hpos : (nameBlock (u ++ a ++ [34]) name rest).length - (34 :: rest ++ [0]).length =
            (u ++ a ++ [34] ++ name).length := by
          simp only [nameBlock, List.length_append, List.length_cons, List.length_nil]
          omega
        simp only [Option.map_some, hrun, CRun.ok_bind, hblock, hstpos, hpos]

/-- Behind the name the parser stays inside unless another anchor ends the line. -/
theorem behindName_cases (hhost : ReadsInside host) (hline : line = front ++ rest) (hrest : 0 ∉ rest)
    (hblank : 32 ∈ front) (fle : GftpFile) :
    (∃ c, closing rest = some c ∧ Overruns (c.drop 4) ∧
        behindName host (line ++ [0]) fle (rest ++ [0]) = .error .fault) ∨
      ∃ entry, behindName host (line ++ [0]) fle (rest ++ [0]) = .ok entry ∧
        entry.tempstr = line ++ [0] ∧ entry.fle.file = fle.file ∧
        ∀ c, closing rest = some c → ¬ Overruns (c.drop 4) := by
  have hfind := findClosing_text hrest
  unfold behindName
  rw [hfind, CRun.ok_bind]
  cases hclose : closing rest with
  | none => exact .inr ⟨_, rfl, rfl, rfl, fun c hc => by cases hc⟩
  | some c =>
    obtain ⟨hsuffix, hfour⟩ := closing_suffix hclose
    have hw : c.drop 4 <:+ rest := (List.drop_suffix 4 c).trans hsuffix
    have hnul : 0 ∉ c.drop 4 := fun h0 => hrest (hw.subset h0)
    have hfuel : (c.drop 4).length < (line ++ [0]).length := by
      have hle := hw.length_le
      rw [hline]
      simp only [List.length_append, List.length_singleton]
      omega
    have hdrop : (c ++ [0]).drop 4 = c.drop 4 ++ [0] := List.drop_append_of_le_length hfour
    simp only [Option.map_some, hdrop]
    rcases skipMarkup_cases hnul hfuel with hover | ⟨pos, hskip, hpos⟩
    · refine .inl ⟨c, rfl, hover, ?_⟩
      rw [skipMarkup_overruns hover hnul hfuel]
      rfl
    have hinside : ∀ c', some c = some c' → ¬ Overruns (c'.drop 4) := by
      intro c' hc' hover
      obtain rfl := Option.some.inj hc'
      rw [skipMarkup_overruns hover hnul hfuel] at hskip
      cases hskip
    rw [hskip, CRun.ok_bind]
    cases pos with
    | none => exact .inr ⟨_, rfl, rfl, rfl, hinside⟩
    | some q =>
      obtain ⟨v, hv, rfl⟩ := hpos q rfl
      obtain ⟨u, hu⟩ := hv.trans hw
      have hvnul : 0 ∉ v := fun h0 => hnul (hv.subset h0)
      have hshow : line = front ++ u ++ v := by rw [hline, ← hu, List.append_assoc]
      obtain ⟨entry, hentry, hfile⟩ :=
        dateAndSize_returns hhost hshow hvnul (List.mem_append_left _ hblank) fle
      refine .inr ⟨⟨line ++ [0], true, entry⟩, ?_, rfl, hfile, hinside⟩
      simp only [hentry, CRun.ok_bind]
      rfl

/-- A line that does no harm is left as it was. On another one the parser leaves the line, or it
returns 0 with the name cut. -/
theorem parseHtmlLine_cases (hhost : ReadsInside host) (hline : 0 ∉ line) :
    (Harmless line ∧ ∃ entry, parseHtmlLine host (line ++ [0]) = .ok entry ∧
        entry.tempstr = line ++ [0]) ∨
      (¬ Harmless line ∧ ∀ entry, parseHtmlLine host (line ++ [0]) = .ok entry →
        entry.tempstr ≠ line ++ [0] ∧ entry.ret = false) := by
  rcases @href_cases host line hline with ⟨hnone, hrun⟩ |
      ⟨front, name, rest, hhref, rfl, hquote, hblank, hrun⟩
  · refine .inl ⟨fun name rest h => ?_, _, hrun, rfl⟩
    rw [hnone] at h
    cases h
  have hblock : front ++ name ++ 34 :: rest ++ [0] = nameBlock front name rest := by simp [nameBlock]
  simp only [List.mem_append, List.mem_cons, not_or] at hline
  obtain ⟨⟨-, hname⟩, -, hrest⟩ := hline
  have hcopy := @copyName_eq front name rest hquote hname
  by_cases hrefused : Refused (shown name)
  · rw [if_pos hrefused] at hcopy
    refine .inr ⟨fun h => (h name rest hhref).1 hrefused, fun entry hentry => ?_⟩
    rw [hrun, namedEntry, hcopy] at hentry
    obtain rfl := Except.ok.inj hentry
    rw [hblock]
    exact ⟨cutBlock_ne front name rest, rfl⟩
  · rw [if_neg hrefused] at hcopy
    have hline : front ++ name ++ 34 :: rest = front ++ name ++ [34] ++ rest := by simp
    have hbehind : (nameBlock front name rest).drop ((front ++ name).length + 1) = rest ++ [0] :=
      drop_behind (front ++ name) 34 (rest ++ [0])
    have hnamed : parseHtmlLine host (front ++ name ++ 34 :: rest ++ [0]) =
        behindName host (front ++ name ++ 34 :: rest ++ [0])
          { withMode name with file := some (shown name) } (rest ++ [0]) := by
      rw [hrun, namedEntry, hcopy, hblock, ← hbehind]
      rfl
    rw [hnamed]
    rcases behindName_cases hhost hline hrest (by simp [hblank])
        { withMode name with file := some (shown name) } with
      ⟨c, hc, hover, hfault⟩ | ⟨entry, hentry, hkept, -, hinside⟩
    · refine .inr ⟨fun h => (h name rest hhref).2 c hc hover, fun entry hentry => ?_⟩
      rw [hfault] at hentry
      cases hentry
    · refine .inl ⟨fun name' rest' h => ?_, entry, hentry, hkept⟩
      rw [hhref] at h
      obtain ⟨rfl, rfl⟩ := Prod.mk.inj (Option.some.inj h)
      exact ⟨hrefused, hinside⟩

theorem readInside_iff (hhost : ReadsInside host) (hline : 0 ∉ line) :
    ReadInside host line ↔ Harmless line := by
  rcases parseHtmlLine_cases hhost hline with ⟨h, hrun⟩ | ⟨h, hrun⟩
  · exact iff_of_true hrun h
  · refine iff_of_false ?_ h
    rintro ⟨entry, hentry, hkept⟩
    exact (hrun entry hentry).1 hkept

theorem kept_of_ret (hhost : ReadsInside host) (hline : 0 ∉ line) {entry : HtmlEntry}
    (h : parseHtmlLine host (line ++ [0]) = .ok entry) (hret : entry.ret = true) :
    entry.tempstr = line ++ [0] := by
  rcases parseHtmlLine_cases hhost hline with ⟨-, entry', hentry, hkept⟩ | ⟨-, hrun⟩
  · rw [hentry] at h
    obtain rfl := Except.ok.inj h
    exact hkept
  · rw [(hrun entry h).2] at hret
    cases hret

/-- The entry stands for one of the lines that were still to come. -/
theorem getNextFile_line (hhost : ReadsInside host) {cached : Bool} {lines lines' : List CString}
    {next : NextFile} (h : rfc2068GetNextFile host cached lines = .ok (some next, lines')) :
    ∃ line ∈ lines, next.lastDirEntry = (if cached then none else some (line.bytes ++ [10])) ∧
      next.len = line.bytes.length := by
  induction lines with
  | nil => cases h
  | cons line lines ih =>
    rw [rfc2068GetNextFile] at h
    cases hentry : parseHtmlLine host (line.bytes ++ [0]) with
    | error e =>
      rw [hentry] at h
      cases h
    | ok entry =>
      rw [hentry, CRun.ok_bind] at h
      by_cases hskip : entry.ret = false ∨ entry.fle.file = none
      · rw [if_pos hskip] at h
        obtain ⟨line', hmem, hline'⟩ := ih h
        exact ⟨line', List.mem_cons_of_mem _ hmem, hline'⟩
      · rw [if_neg hskip] at h
        have hret : entry.ret = true := by simpa using fun hfalse => hskip (.inl hfalse)
        have htext : textFrom (line.bytes ++ [0]) 0 = .ok line.bytes := textFrom_text line.nul_free [] []
        rw [kept_of_ret hhost line.nul_free hentry hret, htext] at h
        obtain ⟨hnext, -⟩ := Prod.mk.inj (Except.ok.inj h)
        rw [← Option.some.inj hnext]
        exact ⟨line, List.mem_cons_self, rfl, rfl⟩

end Lines

/-- The parser stays inside the line and leaves it as it was if and only if the line is harmless. The
line that goes into the cache is always the one that was received. -/
theorem line_kept_iff {host : Host} (hhost : ReadsInside host) :
    (∀ line : CString, ReadInside host line.bytes ↔ Harmless line.bytes) ∧
      ∀ (cached : Bool) (lines lines' : List CString) (next : NextFile),
        rfc2068GetNextFile host cached lines = .ok (some next, lines') →
          ∃ line ∈ lines,
            next.lastDirEntry = (if cached then none else some (line.bytes ++ [10])) ∧
              next.len = line.bytes.length :=
  ⟨fun line => readInside_iff hhost line.nul_free, fun _ _ _ _ h => getNextFile_line hhost h⟩

/-- A C library that knows no date. -/
def dateless : Host where
  strptime := fun _ _ tm => (tm, none)
  mktime := fun _ => 0
  localtime := fun _ => Tm.zero
  time := 0
  unknown := ascii "<unknown>"

theorem dateless_inside : ReadsInside dateless := fun _ _ _ _ h => by cases h

/-- A link to the root stays cut at its quote. -/
def rootLine : CString := ⟨ascii "<A HREF=\"/\">Root</A>", by decide⟩

/-- An anchor behind the name ends the line. -/
def anchorLine : CString := ⟨ascii "<A HREF=\"f\">f</A> <A NAME=g></A>", by decide⟩

def sizedLine : CString := ⟨ascii "<A HREF=\"f\">f</A> 1.5k", by decide⟩

/-- The quote of the first line is not put back, and on the other one the byte behind the
terminator is read. -/
theorem links_left_cut : ¬ ReadInside dateless rootLine.bytes ∧
    parseHtmlLine dateless (anchorLine.bytes ++ [0]) = .error .fault := by
  refine ⟨?_, rfl⟩
  rw [readInside_iff dateless_inside rootLine.nul_free]
  intro h
  exact (h (ascii "/") (ascii ">Root</A>") rfl).1 (by decide)

theorem sized_line_kept : ReadInside dateless sizedLine.bytes ∧
    ∃ next, rfc2068GetNextFile dateless false [sizedLine] = .ok (some next, []) ∧
      next.lastDirEntry = some (sizedLine.bytes ++ [10]) := by
  have hnext : ∃ next, rfc2068GetNextFile dateless false [sizedLine] = .ok (some next, []) :=
    ⟨_, rfl⟩
  obtain ⟨hiff, hlines⟩ := line_kept_iff dateless_inside
  obtain ⟨next, hrun⟩ := hnext
  obtain ⟨line, hmem, hentry, -⟩ := hlines false [sizedLine] [] next hrun
  obtain rfl := List.mem_singleton.mp hmem
  refine ⟨(hiff sizedLine).mpr fun name rest h => ?_, next, hrun, hentry⟩
  have hhref : href sizedLine.bytes = some (ascii "f", ascii ">f</A> 1.5k") := rfl
  rw [hhref] at h
  obtain ⟨rfl, rfl⟩ := Prod.mk.inj (Option.some.inj h)
  refine ⟨by decide, fun c hc hover => ?_⟩
  have hclosing : closing (ascii ">f</A> 1.5k") = some (ascii "</A> 1.5k") := rfl
  rw [hclosing] at hc
  obtain rfl := Option.some.inj hc
  have hskip : skipMarkup 6 (ascii " 1.5k" ++ [0]) = .ok (some (ascii "1.5k" ++ [0])) := rfl
  have hfault := @skipMarkup_overruns (ascii " 1.5k") 6 hover (by decide) (by decide)
  rw [hskip] at hfault
  cases hfault

end Gftp.HtmlListing
