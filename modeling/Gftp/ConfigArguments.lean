import Gftp.OptionValues
import Gftp.TextIndices

/-!
gftp_config_parse_args on the block of its string. A field ends at a colon that is not behind a
backslash; the byte in front of each colon is looked at, for the first byte of the string the one
in front of the block. When the colons of a field are all behind a backslash, the end is NULL.
-/

namespace Gftp.ConfigArguments

open ByteStrings OptionValues TextIndices

/-- The byte in front of an index; before is the one in front of the block, if there is one. -/
def byteBefore (before : Option UInt8) (block : Bytes) : ℕ → CRun UInt8
  | 0 =>
      match before with
      | some b => return b
      | none => .error .fault
  | i + 1 => readAt block i

/-- The loop that passes over colons behind a backslash, and has_colon. -/
def skipEscaped (before : Option UInt8) (block : Bytes) : ℕ → Option ℕ → CRun (Option ℕ × Bool)
  | 0, _ => .error .pending
  | _ + 1, none => return (none, false)
  | fuel + 1, some endpos => do
      if (← byteBefore before block endpos) = 92 then
        let found ← skipEscaped before block fuel (← strchr block (endpos + 1) 58)
        return (found.1, true)
      else return (some endpos, false)

/-- The place where a field ends. -/
structure FieldEnd where
  endpos : Option ℕ
  hasColon : Bool
  enough : Bool

def findEnd (before : Option UInt8) (numargs : ℕ) (block : Bytes) (curpos : ℕ) : CRun FieldEnd := do
  if 1 < numargs then
    match ← strchr block curpos 58 with
    | none => return ⟨some (curpos + (← strlen block curpos)), false, false⟩
    | some colon =>
        let (endpos, hasColon) ← skipEscaped before block (block.length + 1) (some colon)
        return ⟨endpos, hasColon, true⟩
  else return ⟨some (curpos + (← strlen block curpos)), false, true⟩

/-- The loop that takes the backslashes out of a field in place; pos reads and curpos writes. -/
def removeEscapes : ℕ → Bytes → ℕ → ℕ → CRun Bytes
  | 0, _, _, _ => .error .pending
  | fuel + 1, dest, pos, curpos => do
      let c ← readAt dest pos
      if c = 0 then writeAt dest curpos 0
      else if c ≠ 92 then
        if (← readAt dest (pos + 1)) ≠ 58 then
          removeEscapes fuel (← writeAt dest curpos c) (pos + 1) (curpos + 1)
        else removeEscapes fuel dest (pos + 1) curpos
      else removeEscapes fuel dest (pos + 1) curpos

/-- The block that is allocated for a field and filled with strcpy. -/
def copyField (block : Bytes) (curpos endpos : ℕ) : CRun Bytes := do
  overwrite (List.replicate (endpos - curpos + 1) 0) 0 ((← textFrom block curpos) ++ [0])

/-- The string afterwards, ret and the strings that the arguments point to. -/
structure Parsed where
  block : Bytes
  ret : ℤ
  outputs : List Bytes
  deriving DecidableEq

/-- A field with the byte that ends it, and the string afterwards. -/
def takeField (block : Bytes) (curpos endpos : ℕ) (hasColon : Bool) : CRun (UInt8 × Bytes × Bytes) := do
  let tempchar ← readAt block endpos
  let block ← writeAt block endpos 0
  let dest ← copyField block curpos endpos
  let block ← writeAt block endpos tempchar
  let dest ← if hasColon then removeEscapes (dest.length + 1) dest 0 0 else pure dest
  return (tempchar, block, ← textFrom dest 0)

/-- The loop over the fields. A field that ends with the string leaves the other arguments empty. -/
def parseFields (before : Option UInt8) : ℕ → Bytes → ℕ → ℤ → CRun Parsed
  | 0, block, _, ret => return ⟨block, ret, []⟩
  | numargs + 1, block, curpos, ret => do
      let e ← findEnd before (numargs + 1) block curpos
      let ret := if e.enough then ret else 0
      match e.endpos with
      | none => .error .fault
      | some endpos =>
          let (tempchar, block, output) ← takeField block curpos endpos e.hasColon
          if tempchar = 0 then return ⟨block, ret, output :: List.replicate numargs []⟩
          else do
            let parsed ← parseFields before numargs block (endpos + 1) ret
            return { parsed with outputs := output :: parsed.outputs }

/-- gftp_config_parse_args. -/
def gftpConfigParseArgs (before : Option UInt8) (str : Bytes) (numargs : ℕ) : CRun Parsed :=
  parseFields before numargs str 0 1

/-- What the arguments are set to, and whether there were enough fields. prev is the byte in front
of the text. -/
def arguments (prev : UInt8) : ℕ → Bytes → CRun (Bool × List Bytes)
  | 0, _ => return (true, [])
  | 1, str => return (true, [str])
  | n + 2, str =>
      match cutColon prev str with
      | some (field, hasColon, rest) => do
          let (enough, others) ← arguments 58 (n + 1) rest
          return (enough, (if hasColon then unescape field else field) :: others)
      | none => if 58 ∈ str then .error .fault else return (false, str :: List.replicate (n + 1) [])

section Escapes

variable {out junk text : Bytes}

/-- What has been written stands in front, then bytes that are left over, then what is to be read. -/
theorem removeEscapes_text {fuel : ℕ} (htext : 0 ∉ text) (hfuel : text.length < fuel) :
    ∃ rest, removeEscapes fuel (out ++ (junk ++ (text ++ [0]))) (out ++ junk).length out.length =
      .ok (out ++ (unescape text ++ 0 :: rest)) := by
  induction fuel generalizing out junk text with
  | zero => omega
  | succ fuel ih =>
    have hread : readAt (out ++ (junk ++ (text ++ [0]))) (out ++ junk).length = .ok (text.headD 0) := by
      rw [← List.append_assoc]
      exact readAt_text (out ++ junk) text []
    rw [removeEscapes, hread, CRun.ok_bind]
    cases text with
    | nil =>
      obtain ⟨a, rest, hshow⟩ : ∃ a rest, junk ++ [0] = a :: rest :=
        List.exists_cons_of_ne_nil (by simp)
      refine ⟨rest, ?_⟩
      rw [List.headD_nil, if_pos rfl, List.nil_append, hshow, writeAt_front]
      rfl
    | cons c text =>
      rw [List.mem_cons, not_or] at htext
      rw [List.length_cons] at hfuel
      have hnext : readAt (out ++ (junk ++ (c :: text ++ [0]))) ((out ++ junk).length + 1) =
          .ok (text.headD 0) := by
        rw [← List.append_assoc]
        exact readAt_behind (out ++ junk) c text []
      have hskip : ∃ rest, removeEscapes fuel (out ++ (junk ++ (c :: text ++ [0])))
          ((out ++ junk).length + 1) out.length = .ok (out ++ (unescape text ++ 0 :: rest)) := by
        obtain ⟨rest, hrun⟩ := @ih out (junk ++ [c]) text htext.2 (by omega)
        exact ⟨rest, by simpa [Nat.add_assoc] using hrun⟩
      have hhead : text.headD 0 ≠ 58 ↔ text.head? ≠ some 58 := by
        cases text with
        | nil => simp
        | cons b text => simp
      rw [List.headD_cons, if_neg (Ne.symm htext.1), unescape]
      by_cases hslash : c ≠ 92
      · rw [if_pos hslash, hnext, CRun.ok_bind]
        by_cases hcolon : text.headD 0 ≠ 58
        · rw [if_pos hcolon, if_pos ⟨hslash, hhead.mp hcolon⟩]
          obtain ⟨junk', hlen, hwrite⟩ : ∃ junk' : Bytes, junk'.length = junk.length ∧
              writeAt (out ++ (junk ++ (c :: text ++ [0]))) out.length c =
                .ok (out ++ [c] ++ (junk' ++ (text ++ [0]))) := by
            cases junk with
            | nil =>
              have hput := writeAt_front out c (text ++ [0]) c
              exact ⟨[], rfl, by simpa using hput⟩
            | cons a junk =>
              have hput := writeAt_front out a (junk ++ (c :: text ++ [0])) c
              exact ⟨junk ++ [c], by simp, by simpa using hput⟩
          obtain ⟨rest, hrun⟩ := @ih (out ++ [c]) junk' text htext.2 (by omega)
          have hpos : (out ++ junk).length + 1 = (out ++ [c] ++ junk').length := by
            simp only [List.length_append, List.length_singleton]
            omega
          rw [hwrite, CRun.ok_bind, hpos]
          rw [@List.length_append _ out, List.length_singleton, List.append_assoc out [c] (_ ++ _)] at hrun
          exact ⟨rest, by simpa using hrun⟩
        · rw [if_neg hcolon, if_neg fun h => hcolon (hhead.mpr h.2)]
          exact hskip
      · rw [if_neg hslash, if_neg fun h => hslash h.1]
        exact hskip

end Escapes

theorem cutColon_none {str : Bytes} (h : 58 ∉ str) (prev : UInt8) : cutColon prev str = none := by
  induction str generalizing prev with
  | nil => rfl
  | cons c str ih =>
    rw [List.mem_cons, not_or] at h
    rw [cutColon, if_neg fun hand => h.1 hand.1.symm, ih h.2]
    rfl

/-- The first colon of a text ends the field or is passed over. -/
theorem cutColon_first {u : Bytes} (hu : 58 ∉ u) (prev : UInt8) (v : Bytes) :
    cutColon prev (u ++ 58 :: v) =
      if u.getLast?.getD prev ≠ 92 then some (u, false, v)
      else (cutColon 58 v).map fun cut => (u ++ 58 :: cut.1, true, cut.2.2) := by
  induction u generalizing prev with
  | nil =>
    rw [List.nil_append, cutColon]
    by_cases hprev : prev ≠ 92 <;> simp [hprev]
  | cons c u ih =>
    rw [List.mem_cons, not_or] at hu
    rw [List.cons_append, cutColon, if_neg fun hand => hu.1 hand.1.symm, ih hu.2]
    have hlast : (c :: u).getLast?.getD prev = u.getLast?.getD c := by
      cases u with
      | nil => rfl
      | cons b u => simp [List.getLast?_cons]
    rw [hlast]
    split_ifs
    · simp [Ne.symm hu.1]
    · cases cutColon 58 v <;> simp

/-- The result of the search for the end of a field that begins at an index. -/
def endOf (start : ℕ) : Option (Bytes × Bool × Bytes) → Option ℕ × Bool
  | some (field, hasColon, _) => (some (start + field.length), hasColon)
  | none => (none, true)

section Search

variable {before : Option UInt8} {front u v str rest : Bytes} {prev : UInt8}

theorem byteBefore_last (hprev : u = [] → byteBefore before (front ++ (u ++ rest)) front.length = .ok prev) :
    byteBefore before (front ++ (u ++ rest)) (front ++ u).length = .ok (u.getLast?.getD prev) := by
  rcases List.eq_nil_or_concat u with rfl | ⟨w, b, rfl⟩
  · rw [List.append_nil]
    exact hprev rfl
  · have hread := readAt_front (front ++ w) b rest
    rw [List.concat_eq_append, List.getLast?_concat, Option.getD_some]
    rw [List.append_assoc] at hread
    simpa [byteBefore, ← Nat.add_assoc] using hread

theorem endOf_behind (front u : Bytes) (cut : Option (Bytes × Bool × Bytes)) :
    ((endOf (front ++ u ++ [58]).length cut).1, true) =
      endOf front.length (cut.map fun cut => (u ++ 58 :: cut.1, true, cut.2.2)) := by
  cases cut with
  | none => rfl
  | some cut =>
    simp only [endOf, Option.map_some, List.length_append, List.length_cons, List.length_nil]
    congr 2
    omega

theorem skipEscaped_text {fuel : ℕ} (hu : 58 ∉ u) (hu0 : 0 ∉ u) (hv0 : 0 ∉ v)
    (hprev : u = [] →
      byteBefore before (front ++ (u ++ 58 :: (v ++ 0 :: rest))) front.length = .ok prev)
    (hfuel : v.length + 1 < fuel) :
    skipEscaped before (front ++ (u ++ 58 :: (v ++ 0 :: rest))) fuel (some (front ++ u).length) =
      .ok (endOf front.length (cutColon prev (u ++ 58 :: v))) := by
  induction fuel generalizing front u v prev with
  | zero => omega
  | succ fuel ih =>
    rw [skipEscaped, byteBefore_last hprev, CRun.ok_bind, cutColon_first hu]
    by_cases hlast : u.getLast?.getD prev = 92
    · rw [if_pos hlast, if_neg (not_not.mpr hlast)]
      have hblock : front ++ (u ++ 58 :: (v ++ 0 :: rest)) = (front ++ u ++ [58]) ++ (v ++ 0 :: rest) := by
        simp
      have hpos : (front ++ u).length + 1 = (front ++ u ++ [58]).length := by
        rw [@List.length_append _ (front ++ u), List.length_singleton]
      rw [hblock, hpos, ← endOf_behind]
      by_cases hv : 58 ∈ v
      · obtain ⟨u', v', rfl, hu'⟩ := List.eq_append_cons_of_mem hv
        simp only [List.mem_append, List.mem_cons, not_or] at hv0
        simp only [List.length_append, List.length_cons] at hfuel
        have hbehind : byteBefore before
            (front ++ u ++ [58] ++ (u' ++ 58 :: (v' ++ 0 :: rest))) (front ++ u ++ [58]).length = .ok 58 := by
          rw [← hpos, byteBefore, List.append_assoc (front ++ u), List.singleton_append, readAt_front]
        rw [List.append_assoc u', List.cons_append, strchr_first hu' hv0.1, CRun.ok_bind,
          ih hu' hv0.1 hv0.2.2 (fun _ => hbehind) (by omega), CRun.ok_bind]
        rfl
      · obtain ⟨fuel, rfl⟩ := Nat.exists_eq_succ_of_ne_zero (by omega : fuel ≠ 0)
        rw [strchr_none hv (by decide) hv0, cutColon_none hv, CRun.ok_bind, skipEscaped]
        rfl
    · rw [if_neg hlast, if_pos hlast, List.length_append]
      rfl

theorem findEnd_text {n : ℕ} (hstr : 0 ∉ str) (hn : 1 < n)
    (hprev : str.head? = some 58 →
      byteBefore before (front ++ (str ++ 0 :: rest)) front.length = .ok prev) :
    findEnd before n (front ++ (str ++ 0 :: rest)) front.length =
      .ok (if 58 ∈ str then
          ⟨(endOf front.length (cutColon prev str)).1, (endOf front.length (cutColon prev str)).2, true⟩
        else ⟨some (front.length + str.length), false, false⟩) := by
  rw [findEnd, if_pos hn]
  by_cases hcolon : 58 ∈ str
  · obtain ⟨u, v, rfl, hu⟩ := List.eq_append_cons_of_mem hcolon
    simp only [List.mem_append, List.mem_cons, not_or] at hstr
    rw [List.append_assoc, List.cons_append] at hprev ⊢
    rw [strchr_first hu hstr.1, CRun.ok_bind, if_pos hcolon]
    have hsearch := @skipEscaped_text before front u v rest prev
      ((front ++ (u ++ 58 :: (v ++ 0 :: rest))).length + 1) hu hstr.1 hstr.2.2 (fun hnil => hprev (by rw [hnil]; rfl))
      (by simp only [List.length_append, List.length_cons]; omega)
    simp only [hsearch, CRun.ok_bind]
    rfl
  · rw [strchr_none hcolon (by decide) hstr, CRun.ok_bind, strlen_text hstr, if_neg hcolon]
    rfl

theorem unescape_sublist (text : Bytes) : (unescape text).Sublist text := by
  induction text with
  | nil => exact List.Sublist.refl []
  | cons c text ih =>
    rw [unescape]
    split_ifs
    · exact ih.cons_cons c
    · exact ih.cons c

theorem takeField_text {field tail : Bytes} {c : UInt8} (hfield : 0 ∉ field) (hasColon : Bool) :
    takeField (front ++ (field ++ c :: tail)) front.length (front.length + field.length) hasColon =
      .ok (c, front ++ (field ++ c :: tail), if hasColon then unescape field else field) := by
  have hread : readAt (front ++ (field ++ c :: tail)) (front.length + field.length) = .ok c := by
    rw [← List.length_append, ← List.append_assoc, readAt_front]
  have hclose : writeAt (front ++ (field ++ c :: tail)) (front.length + field.length) 0 =
      .ok (front ++ (field ++ 0 :: tail)) := by
    rw [← List.length_append, ← List.append_assoc, ← List.append_assoc, writeAt_front]
  have hopen : writeAt (front ++ (field ++ 0 :: tail)) (front.length + field.length) c =
      .ok (front ++ (field ++ c :: tail)) := by
    rw [← List.length_append, ← List.append_assoc, ← List.append_assoc, writeAt_front]
  have hcopy : copyField (front ++ (field ++ 0 :: tail)) front.length (front.length + field.length) =
      .ok (field ++ [0]) := by
    have hroom : front.length + field.length - front.length + 1 = (field ++ [0]).length := by
      rw [List.length_append, List.length_singleton]
      omega
    have hput := @overwrite_middle [] (List.replicate (field ++ [0]).length 0) [] (field ++ [0]) 0 rfl
      List.length_replicate.symm
    rw [List.nil_append, List.nil_append, List.append_nil, List.append_nil] at hput
    rw [copyField, textFrom_text hfield, CRun.ok_bind, hroom, hput]
  rw [takeField, hread, CRun.ok_bind, hclose, CRun.ok_bind, hcopy, CRun.ok_bind, hopen, CRun.ok_bind]
  cases hasColon with
  | false =>
    have htext := textFrom_text hfield [] []
    rw [List.nil_append, List.length_nil] at htext
    simp only [Bool.false_eq_true, if_false, pure_bind, htext, CRun.ok_bind]
    rfl
  | true =>
    obtain ⟨rest, hrun⟩ := @removeEscapes_text [] [] field
      ((field ++ [0]).length + 1) hfield (by rw [List.length_append]; omega)
    have htext := textFrom_text (fun h => hfield ((unescape_sublist field).subset h)) [] rest
    simp only [List.nil_append, List.length_nil] at hrun htext
    simp only [if_true, hrun, CRun.ok_bind, htext]
    rfl

end Search

theorem cutColon_some {prev : UInt8} {str field tail : Bytes} {hasColon : Bool}
    (h : cutColon prev str = some (field, hasColon, tail)) : str = field ++ 58 :: tail := by
  induction str generalizing prev field hasColon with
  | nil => cases h
  | cons c str ih =>
    rw [cutColon] at h
    split_ifs at h with hc
    · obtain ⟨rfl, -⟩ := hc
      cases h
      rfl
    · cases hcut : cutColon c str with
      | none => simp [hcut] at h
      | some cut =>
        obtain ⟨field', hasColon', tail'⟩ := cut
        simp only [hcut, Option.map_some, Option.some.injEq, Prod.mk.injEq] at h
        obtain ⟨rfl, -, rfl⟩ := h
        rw [ih hcut, List.cons_append]

/-- A field ends at the first colon that is not behind a backslash, and has_colon says whether one
behind a backslash was passed over. -/
theorem cutColon_field {prev : UInt8} {str field tail : Bytes} {hasColon : Bool}
    (h : cutColon prev str = some (field, hasColon, tail)) :
    field.getLast?.getD prev ≠ 92 ∧ hasColon = decide (58 ∈ field) ∧
      ∀ u v, field = u ++ 58 :: v → u.getLast?.getD prev = 92 := by
  induction str generalizing prev field hasColon with
  | nil => cases h
  | cons c str ih =>
    rw [cutColon] at h
    split_ifs at h with hc
    · cases h
      exact ⟨hc.2, rfl, fun u v heq => absurd heq (by simp)⟩
    · cases hcut : cutColon c str with
      | none => simp [hcut] at h
      | some cut =>
        obtain ⟨field', hasColon', tail'⟩ := cut
        simp only [hcut, Option.map_some, Option.some.injEq, Prod.mk.injEq] at h
        obtain ⟨rfl, rfl, rfl⟩ := h
        obtain ⟨hlast, hflag, hinside⟩ := ih hcut
        have hbehind : ∀ u : Bytes, (c :: u).getLast?.getD prev = u.getLast?.getD c := by
          intro u
          cases u with
          | nil => rfl
          | cons b u => simp [List.getLast?_cons]
        refine ⟨by rwa [hbehind], ?_, fun u v heq => ?_⟩
        · rw [hflag]
          by_cases h58 : c = 58 <;> simp [h58, eq_comm]
        · cases u with
          | nil =>
            obtain ⟨rfl, -⟩ := List.cons.inj heq
            simpa using hc
          | cons b u =>
            obtain ⟨rfl, hrest⟩ := List.cons.inj heq
            rw [hbehind]
            exact hinside u v hrest

/-- Of the byte in front it matters only whether it is a backslash. -/
theorem cutColon_prev {prev prev' : UInt8} (h : prev ≠ 92) (h' : prev' ≠ 92) (str : Bytes) :
    cutColon prev str = cutColon prev' str := by
  cases str with
  | nil => rfl
  | cons c str => simp [cutColon, h, h']

/-- The arguments of the model that knows no block. -/
theorem arguments_outputs {prev : UInt8} (hprev : prev ≠ 92) (n : ℕ) (str : Bytes) :
    (arguments prev n str).map Prod.snd = OptionValues.gftpConfigParseArgs n str := by
  induction n generalizing prev str with
  | zero => rfl
  | succ n ih =>
    cases n with
    | zero => rfl
    | succ n =>
      rw [arguments, OptionValues.gftpConfigParseArgs, cutColon_prev hprev (by decide : (0 : UInt8) ≠ 92)]
      cases cutColon 0 str with
      | none =>
        simp only
        split_ifs <;> rfl
      | some cut =>
        have hrest := @ih 58 (by decide) cut.2.2
        simp only [← hrest]
        cases arguments 58 (n + 1) cut.2.2 <;> rfl

/-- What is returned when the string is as it was. -/
def Parsed.of (block : Bytes) (result : Bool × List Bytes) : Parsed :=
  ⟨block, if result.1 then 1 else 0, result.2⟩

/-- The arguments are what the text is cut into, and the string is left as it was. -/
theorem parseFields_text {before : Option UInt8} {front str rest : Bytes} {prev : UInt8} {n : ℕ}
    (hstr : 0 ∉ str)
    (hprev : 1 < n → str.head? = some 58 →
      byteBefore before (front ++ (str ++ 0 :: rest)) front.length = .ok prev) :
    parseFields before n (front ++ (str ++ 0 :: rest)) front.length 1 =
      (arguments prev n str).map (Parsed.of (front ++ (str ++ 0 :: rest))) := by
  induction n generalizing front str prev with
  | zero => rfl
  | succ n ih =>
    rw [parseFields]
    cases n with
    | zero =>
      have hend : findEnd before 1 (front ++ (str ++ 0 :: rest)) front.length =
          .ok ⟨some (front.length + str.length), false, true⟩ := by
        rw [findEnd, if_neg (by decide), strlen_text hstr]
        rfl
      rw [hend, CRun.ok_bind]
      simp only [takeField_text hstr, CRun.ok_bind]
      rfl
    | succ n =>
      rw [findEnd_text hstr (by omega) (hprev (by omega)), CRun.ok_bind, arguments]
      by_cases hcolon : 58 ∈ str
      · rw [if_pos hcolon]
        cases hcut : cutColon prev str with
        | none =>
          simp only [endOf, if_pos hcolon]
          rfl
        | some cut =>
          obtain ⟨field, hasColon, tail⟩ := cut
          obtain rfl := cutColon_some hcut
          simp only [List.mem_append, List.mem_cons, not_or] at hstr
          have hblock : front ++ (field ++ 58 :: tail ++ 0 :: rest) =
              front ++ (field ++ 58 :: (tail ++ 0 :: rest)) := by simp
          have hshift : front ++ (field ++ 58 :: (tail ++ 0 :: rest)) =
              (front ++ field ++ [58]) ++ (tail ++ 0 :: rest) := by simp
          have hpos : front.length + field.length + 1 = (front ++ field ++ [58]).length := by
            rw [List.length_append, List.length_append, List.length_singleton]
          have hbehind : byteBefore before ((front ++ field ++ [58]) ++ (tail ++ 0 :: rest))
              (front ++ field ++ [58]).length = .ok 58 := by
            rw [← hpos, byteBefore, ← List.length_append, List.append_assoc (front ++ field),
              List.singleton_append, readAt_front]
          have hrest := @ih (front ++ field ++ [58]) tail 58 hstr.2.2 fun _ _ => hbehind
          simp only [endOf, hblock, takeField_text hstr.1, CRun.ok_bind]
          rw [if_neg (by decide), if_pos trivial, hshift, hpos, hrest]
          cases arguments 58 (n + 1) tail with
          | error e => rfl
          | ok result => rfl
      · rw [if_neg hcolon, cutColon_none hcolon]
        simp only [takeField_text hstr, CRun.ok_bind, if_neg hcolon]
        rfl

/-- A string that begins with a colon is read in front of its first byte. -/
theorem parse_colon_first (str rest : Bytes) {n : ℕ} (hn : 1 < n) :
    gftpConfigParseArgs none (58 :: str ++ 0 :: rest) n = .error .fault := by
  obtain ⟨n, rfl⟩ := Nat.exists_eq_succ_of_ne_zero (Nat.ne_zero_of_lt hn)
  have hfirst : strchr (58 :: str ++ 0 :: rest) 0 58 = .ok (some 0) :=
    strchr_first (u := []) (by simp) (by simp) [] (str ++ 0 :: rest)
  have hend : findEnd none (n + 1) (58 :: str ++ 0 :: rest) 0 = .error .fault := by
    rw [findEnd, if_pos hn, hfirst]
    rfl
  rw [gftpConfigParseArgs, parseFields, hend]
  rfl

/-- Otherwise the byte in front of the string is not looked at or does not matter. -/
theorem parse_arguments {before : Option UInt8} {str : Bytes} {n : ℕ} (hstr : 0 ∉ str) (prev : UInt8)
    (hprev : 1 < n → str.head? = some 58 → before = some prev) (rest : Bytes) :
    gftpConfigParseArgs before (str ++ 0 :: rest) n =
      (arguments prev n str).map (Parsed.of (str ++ 0 :: rest)) := by
  have hparse := @parseFields_text before [] str rest prev n hstr
    fun hn hhead => by
      rw [hprev hn hhead]
      rfl
  rw [List.nil_append, List.length_nil] at hparse
  exact hparse

/-- The texts between the colons that are not behind a backslash. -/
def pieces (prev : UInt8) : Bytes → List Bytes
  | [] => [[]]
  | c :: str => if c = 58 ∧ prev ≠ 92 then [] :: pieces c str else (pieces c str).modifyHead (c :: ·)

/-- Every output is set to a string, and nothing outside the given string is touched. -/
def Safe (str : Bytes) (numargs : ℕ) : Prop :=
  ∃ parsed, gftpConfigParseArgs none (str ++ [0]) numargs = .ok parsed ∧ parsed.block = str ++ [0] ∧
    parsed.outputs.length = numargs

/-- There are enough fields, or no colon is left in the last one. -/
def Cuts (str : Bytes) (numargs : ℕ) : Prop :=
  numargs = 1 ∨ str.head? ≠ some 58 ∧
    (numargs ≤ (pieces 0 str).length ∨ ∀ piece, (pieces 0 str).getLast? = some piece → 58 ∉ piece)

theorem pieces_ne_nil (prev : UInt8) (str : Bytes) : pieces prev str ≠ [] := by
  induction str generalizing prev with
  | nil => exact List.cons_ne_nil _ _
  | cons c str ih =>
    rw [pieces]
    split_ifs
    · exact List.cons_ne_nil _ _
    · obtain ⟨piece, rest, hpieces⟩ := List.exists_cons_of_ne_nil (ih c)
      rw [hpieces]
      exact List.cons_ne_nil _ _

theorem pieces_cut {prev : UInt8} {str field tail : Bytes} {hasColon : Bool}
    (h : cutColon prev str = some (field, hasColon, tail)) :
    pieces prev str = field :: pieces 58 tail := by
  induction str generalizing prev field hasColon with
  | nil => cases h
  | cons c str ih =>
    rw [cutColon] at h
    rw [pieces]
    split_ifs at h ⊢ with hc
    · obtain ⟨rfl, -⟩ := hc
      cases h
      rfl
    · cases hcut : cutColon c str with
      | none => simp [hcut] at h
      | some cut =>
        obtain ⟨field', hasColon', tail'⟩ := cut
        simp only [hcut, Option.map_some, Option.some.injEq, Prod.mk.injEq] at h
        obtain ⟨rfl, -, rfl⟩ := h
        rw [ih hcut]
        rfl

theorem pieces_whole {prev : UInt8} {str : Bytes} (h : cutColon prev str = none) :
    pieces prev str = [str] := by
  induction str generalizing prev with
  | nil => rfl
  | cons c str ih =>
    rw [cutColon] at h
    split_ifs at h with hc
    rw [pieces, if_neg hc, ih (Option.map_eq_none_iff.mp h)]
    rfl

theorem arguments_length {prev : UInt8} {n : ℕ} {str : Bytes} {result : Bool × List Bytes}
    (h : arguments prev n str = .ok result) : result.2.length = n := by
  induction n generalizing prev str result with
  | zero =>
    cases h
    rfl
  | succ n ih =>
    cases n with
    | zero =>
      cases h
      rfl
    | succ n =>
      rw [arguments] at h
      cases hcut : cutColon prev str with
      | none =>
        simp only [hcut] at h
        split_ifs at h
        cases h
        simp
      | some cut =>
        simp only [hcut, CRun.bind_eq_ok] at h
        obtain ⟨others, hothers, h⟩ := h
        cases h
        rw [List.length_cons, ih hothers]

/-- All arguments are set when there are enough pieces or no colon is left in the last one. -/
theorem arguments_ok_iff {prev : UInt8} {n : ℕ} {str : Bytes} (hn : 1 ≤ n) :
    (∃ result, arguments prev n str = .ok result) ↔
      n ≤ (pieces prev str).length ∨
        ∀ piece, (pieces prev str).getLast? = some piece → 58 ∉ piece := by
  induction n generalizing prev str with
  | zero => omega
  | succ n ih =>
    cases n with
    | zero => exact iff_of_true ⟨_, rfl⟩ (Or.inl (List.length_pos_iff.mpr (pieces_ne_nil prev str)))
    | succ n =>
      rw [arguments]
      cases hcut : cutColon prev str with
      | none =>
        rw [pieces_whole hcut]
        by_cases hcolon : 58 ∈ str <;> simp [hcolon, pure, Except.pure]
      | some cut =>
        obtain ⟨field, hasColon, tail⟩ := cut
        have hrest := @ih 58 tail (by omega)
        have hlast : (field :: pieces 58 tail).getLast? = (pieces 58 tail).getLast? :=
          List.getLast?_cons_of_ne_nil (pieces_ne_nil 58 tail)
        rw [pieces_cut hcut, hlast, List.length_cons, Nat.add_le_add_iff_right, ← hrest]
        simp only [CRun.bind_eq_ok]
        constructor
        · rintro ⟨_, others, hothers, -⟩
          exact ⟨others, hothers⟩
        · rintro ⟨others, hothers⟩
          exact ⟨_, others, hothers, rfl⟩

/-- Every argument is set to a string, the string is read inside and left as it was, when there is
one argument, or the string does not begin with a colon and is cut into enough pieces or into ones
the last of which has no colon. -/
theorem parse_args_safe_iff (str : CString) (numargs : ℕ) (hn : 1 ≤ numargs) :
    Safe str.bytes numargs ↔ Cuts str.bytes numargs := by
  by_cases hfront : 1 < numargs ∧ str.bytes.head? = some 58
  · obtain ⟨hmore, hhead⟩ := hfront
    obtain ⟨tail, hshow⟩ : ∃ tail, str.bytes = 58 :: tail :=
      ⟨_, (List.cons_head?_tail (by rw [hhead]; rfl)).symm⟩
    constructor
    · rintro ⟨parsed, hrun, -⟩
      rw [hshow, parse_colon_first tail [] hmore] at hrun
      cases hrun
    · rintro (rfl | ⟨hno, -⟩)
      · omega
      · exact absurd hhead hno
  · have hparse := @parse_arguments none str.bytes numargs str.nul_free 0
      (fun hmore hhead => absurd ⟨hmore, hhead⟩ hfront) []
    have harguments := @arguments_ok_iff 0 numargs str.bytes hn
    have hsafe : Safe str.bytes numargs ↔ ∃ result, arguments 0 numargs str.bytes = .ok result := by
      rw [Safe, hparse]
      constructor
      · rintro ⟨parsed, hrun, -⟩
        cases hresult : arguments 0 numargs str.bytes with
        | error e => rw [hresult] at hrun; cases hrun
        | ok result => exact ⟨result, rfl⟩
      · rintro ⟨result, hresult⟩
        exact ⟨Parsed.of _ result, by rw [hresult]; rfl, rfl, arguments_length hresult⟩
    rw [hsafe, harguments, Cuts]
    constructor
    · intro h
      rcases Nat.eq_or_lt_of_le hn with hone | hmore
      · exact Or.inl hone.symm
      · exact Or.inr ⟨fun hhead => hfront ⟨hmore, hhead⟩, h⟩
    · rintro (rfl | ⟨-, h⟩)
      · exact Or.inl (List.length_pos_iff.mpr (pieces_ne_nil _ _))
      · exact h

/-- A colour with its three parts. -/
def colorLine : CString := ⟨ascii "ffff:0:8", by decide⟩

theorem color_line_safe : Safe colorLine.bytes 3 := by
  have hcuts : Cuts colorLine.bytes 3 := .inr ⟨by decide, .inl (by decide)⟩
  exact (parse_args_safe_iff colorLine 3 (by decide)).mpr hcuts

/-- A colour whose only colon is behind a backslash. -/
def escapedLine : CString := ⟨ascii "ffff\\:0", by decide⟩

/-- The end of the field is NULL. -/
theorem escaped_colon_null : ¬Safe escapedLine.bytes 3 := by
  rintro ⟨parsed, hrun, -⟩
  have hfault : gftpConfigParseArgs none (escapedLine.bytes ++ [0]) 3 = .error .fault := by decide
  rw [hfault] at hrun
  cases hrun

end Gftp.ConfigArguments
