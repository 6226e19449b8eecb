import Gftp.Decimal
import Gftp.TextIndices
import Mathlib.Data.Nat.Digits.Lemmas

/-!
insert_commas of the build without HAVE_INTL_PRINTF, which prints a number of bytes with a
comma between groups of three digits. The room it needs is taken to be the digits and a third
of their number. A destination is a block as long as dest_len says.
-/

namespace Gftp.ThousandsSeparators

open ByteStrings Decimal TextIndices TextPointers

/-- The block that topos points into, and the place. -/
structure Target where
  block : Bytes
  pos : ℕ

/-- *topos++ = b. -/
def put (b : UInt8) (topos : Target) : CRun Target := do
  return ⟨← writeAt topos.block topos.pos b, topos.pos + 1⟩

/-- *topos++ = *frompos++, a number of times. -/
def copyChars : ℕ → Bytes → Target → CRun (Bytes × Target)
  | 0, frompos, topos => return (frompos, topos)
  | i + 1, frompos, topos => do
      let topos ← put (← deref frompos) topos
      copyChars i (frompos.drop 1) topos

/-- The groups that a comma follows. -/
def copyGroups : ℕ → Bytes → Target → CRun (Bytes × Target)
  | 0, frompos, topos => return (frompos, topos)
  | num + 1, frompos, topos => do
      let (frompos, topos) ← copyChars 3 frompos topos
      copyGroups num frompos (← put 44 topos)

/-- srclen / 3 - 1, a size_t. -/
def groupCount (srclen : ℕ) : ℕ := (UInt64.ofNat (srclen / 3) - 1).toNat

/-- What is written behind the first srclen % 3 characters. -/
def copyRest (srclen : ℕ) (frompos : Bytes) (topos : Target) : CRun Target := do
  if (← deref frompos) = 0 then return topos
  else
    let topos ← if srclen % 3 ≠ 0 then put 44 topos else pure topos
    let (frompos, topos) ← copyGroups (groupCount srclen) frompos topos
    return (← copyChars 3 frompos topos).2

/-- The digits with their commas and the terminator. -/
def copyDigits (src dest : Bytes) : CRun Bytes := do
  let (frompos, topos) ← copyChars (src.length % 3) (src ++ [0]) ⟨dest, 0⟩
  let topos ← copyRest src.length frompos topos
  return (← put 0 topos).block

/-- The room that is taken to be needed. -/
def room (src : Bytes) : ℕ := src.length + src.length / 3

/-- A destination that is too short is filled with the letter X. -/
def fillX (dest : Bytes) : Bytes := List.replicate (dest.length - 1) 88 ++ [0]

/-- strncpy of the text 0. It is not reached, since no number is printed as an empty text. -/
def zeroText (dest : Bytes) : Bytes := (48 :: List.replicate (dest.length - 1) 0).take (dest.length - 1) ++ [0]

/-- The number as g_snprintf prints it into src. -/
def printed (number : Int64) : Bytes := (decimal number.toInt).take 49

/-- insert_commas with the destination, or NULL; the block that is returned. -/
def insertCommas (number : Int64) (destStr : Option Bytes) : CRun Bytes :=
  let src := printed number
  match destStr with
  | none =>
      if src = [] then return [48, 0] else copyDigits src (List.replicate (room src) 0)
  | some dest => do
      let dest ← writeAt dest 0 0
      if src = [] then return zeroText dest
      else if dest.length < room src then return fillX dest
      else copyDigits src dest

/-- The digits from the right, a comma behind three that another one follows. -/
def groupRev : Bytes → Bytes
  | a :: b :: c :: d :: rest => a :: b :: c :: 44 :: groupRev (d :: rest)
  | digits => digits

def grouped (digits : Bytes) : Bytes := (groupRev digits.reverse).reverse

/-- The number with its commas, the sign in front of the first digit. -/
def thousands (n : ℤ) : Bytes :=
  if n < 0 then 45 :: grouped (natDigits n.natAbs) else grouped (natDigits n.natAbs)

/-- The text and its terminator fit the destination; one of its own has the size they need. -/
def Fits (number : Int64) (destStr : Option Bytes) : Prop :=
  ∀ dest, destStr = some dest → (thousands number.toInt).length < dest.length

/-- Every byte is written inside, and they are the right ones when they fit. -/
def Grouped (number : Int64) (destStr : Option Bytes) : Prop :=
  ∃ out, insertCommas number destStr = .ok out ∧
    (Fits number destStr → cstr out = thousands number.toInt)

/-- A sign in front of full groups only. -/
def LoneSign (n : ℤ) : Prop := n < 0 ∧ (natDigits n.natAbs).length % 3 = 0

/-- The conditions on the number of characters and the room that is given. -/
def Room (number : Int64) : Option Bytes → Prop
  | none => (printed number).length % 3 = 0
  | some dest =>
      dest.length < room (printed number) ∨ (printed number).length % 3 = 0 ∨
        room (printed number) < dest.length ∧ ¬LoneSign number.toInt

/-- Bytes written one behind the other. -/
def puts : Bytes → Target → CRun Target
  | [], topos => return topos
  | b :: t, topos => do puts t (← put b topos)

theorem puts_append (t u : Bytes) (topos : Target) :
    puts (t ++ u) topos = puts t topos >>= puts u := by
  induction t generalizing topos with
  | nil => rfl
  | cons b t ih =>
    rw [List.cons_append, puts, puts]
    cases put b topos with
    | error e => rfl
    | ok topos => exact ih topos

theorem puts_inside {t old : Bytes} (h : old.length = t.length) (front rest : Bytes) :
    puts t ⟨front ++ (old ++ rest), front.length⟩ =
      .ok ⟨front ++ (t ++ rest), (front ++ t).length⟩ := by
  induction t generalizing front old with
  | nil =>
    obtain rfl : old = [] := List.length_eq_zero_iff.mp h
    rw [List.append_nil]
    rfl
  | cons b t ih =>
    obtain ⟨a, old, rfl⟩ := List.exists_cons_of_length_eq_add_one h
    have hrest := ih (by simpa using h) (front ++ [b])
    rw [List.append_assoc, List.length_append, List.append_assoc] at hrest
    rw [puts, put, List.cons_append, writeAt_front, CRun.ok_bind]
    simpa using hrest

theorem puts_outside {t rest : Bytes} (h : rest.length < t.length) (front : Bytes) :
    puts t ⟨front ++ rest, front.length⟩ = .error .fault := by
  induction t generalizing front rest with
  | nil => cases h
  | cons b t ih =>
    cases rest with
    | nil =>
      rw [puts, put, writeAt, overwrite_fault (by simp)]
      rfl
    | cons a rest =>
      have hrest := ih (by simpa using h) (front ++ [b])
      rw [puts, put, writeAt_front, CRun.ok_bind]
      simpa using hrest

theorem copyChars_eq {t : Bytes} {n : ℕ} (hn : t.length = n) (rest : Bytes) (topos : Target) :
    copyChars n (t ++ rest) topos = do return (rest, ← puts t topos) := by
  induction t generalizing n topos with
  | nil =>
    subst hn
    rfl
  | cons b t ih =>
    subst hn
    rw [List.length_cons, List.cons_append, copyChars, puts, deref, CRun.ok_bind, bind_assoc]
    congr 1
    funext topos
    exact ih rfl topos

/-- Groups of three with a comma behind each. -/
def groupsText : ℕ → Bytes → Bytes
  | 0, _ => []
  | num + 1, t => t.take 3 ++ 44 :: groupsText num (t.drop 3)

theorem copyGroups_eq {t : Bytes} {num : ℕ} (ht : t.length = 3 * num) (rest : Bytes) (topos : Target) :
    copyGroups num (t ++ rest) topos = do return (rest, ← puts (groupsText num t) topos) := by
  induction num generalizing t topos with
  | zero =>
    obtain rfl : t = [] := List.length_eq_zero_iff.mp (by omega)
    rfl
  | succ num ih =>
    have hthree : (t.take 3).length = 3 := by rw [List.length_take]; omega
    have hrest : (t.drop 3).length = 3 * num := by rw [List.length_drop]; omega
    have hshow : t ++ rest = t.take 3 ++ (t.drop 3 ++ rest) := by
      rw [← List.append_assoc, List.take_append_drop]
    rw [copyGroups, hshow, copyChars_eq hthree, groupsText, puts_append]
    simp only [bind_assoc, pure_bind, puts]
    congr 1
    funext topos
    cases put 44 topos with
    | error e => rfl
    | ok topos => exact ih hrest topos

theorem grouped_short {digits : Bytes} (h : digits.length ≤ 3) : grouped digits = digits := by
  have hrev : groupRev digits.reverse = digits.reverse := by
    have hlen : digits.reverse.length ≤ 3 := by rwa [List.length_reverse]
    generalize digits.reverse = l at hlen
    match l with
    | [] | [_] | [_, _] | [_, _, _] => rfl
    | _ :: _ :: _ :: _ :: _ =>
      simp only [List.length_cons] at hlen
      omega
  rw [grouped, hrev, List.reverse_reverse]

theorem grouped_append {t u : Bytes} (ht : t ≠ []) (hu : u.length = 3) :
    grouped (t ++ u) = grouped t ++ 44 :: u := by
  obtain ⟨a, b, c, rfl⟩ := List.length_eq_three.mp hu
  obtain ⟨d, rest, hrev⟩ := List.exists_cons_of_ne_nil (List.reverse_ne_nil_iff.mpr ht)
  simp [grouped, hrev, groupRev]

theorem grouped_split {g w : Bytes} {k : ℕ} (hg : g ≠ []) (hw : w.length = 3 * (k + 1)) :
    grouped (g ++ w) = grouped g ++ 44 :: grouped w := by
  induction k generalizing w with
  | zero => rw [grouped_append hg hw, @grouped_short w hw.le]
  | succ k ih =>
    have hlast : (w.drop (3 * (k + 1))).length = 3 := by rw [List.length_drop]; omega
    have hfirst : (w.take (3 * (k + 1))).length = 3 * (k + 1) := by rw [List.length_take]; omega
    have hne : w.take (3 * (k + 1)) ≠ [] := List.ne_nil_of_length_pos (by omega)
    rw [← List.take_append_drop (3 * (k + 1)) w, ← List.append_assoc,
      grouped_append (List.append_ne_nil_of_left_ne_nil hg _) hlast, grouped_append hne hlast, ih hfirst,
      List.append_assoc, List.cons_append]

theorem grouped_groupsText {t u : Bytes} {k : ℕ} (ht : t.length = 3 * k) (hu : u.length = 3) :
    grouped (t ++ u) = groupsText k t ++ u := by
  induction k generalizing t with
  | zero =>
    obtain rfl : t = [] := List.length_eq_zero_iff.mp (by omega)
    exact grouped_short hu.le
  | succ k ih =>
    have hthree : (t.take 3).length = 3 := by rw [List.length_take]; omega
    have hrest : (t.drop 3).length = 3 * k := by rw [List.length_drop]; omega
    have hne : t.take 3 ≠ [] := List.ne_nil_of_length_pos (by omega)
    have hlen : (t.drop 3 ++ u).length = 3 * (k + 1) := by rw [List.length_append]; omega
    calc grouped (t ++ u) = grouped (t.take 3 ++ (t.drop 3 ++ u)) := by
          rw [← List.append_assoc, List.take_append_drop]
      _ = t.take 3 ++ 44 :: grouped (t.drop 3 ++ u) := by
          rw [grouped_split hne hlen, grouped_short hthree.le]
      _ = groupsText (k + 1) t ++ u := by rw [ih hrest, groupsText, List.append_assoc, List.cons_append]

theorem groupCount_eq {srclen k : ℕ} (hlen : srclen / 3 = k + 1) (hsmall : srclen ≤ 49) :
    groupCount srclen = k := by
  have hle : (1 : UInt64) ≤ UInt64.ofNat (k + 1) := by
    rw [UInt64.le_iff_toNat_le, UInt64.toNat_ofNat_of_lt' (by omega : k + 1 < 2 ^ 64)]
    exact Nat.le_add_left 1 k
  rw [groupCount, hlen, UInt64.toNat_sub_of_le _ _ hle,
    UInt64.toNat_ofNat_of_lt' (by omega : k + 1 < 2 ^ 64)]
  exact Nat.add_sub_cancel k 1

/-- What stands behind the first characters. -/
def restText (srclen : ℕ) (w : Bytes) : Bytes :=
  if w = [] then [] else (if srclen % 3 ≠ 0 then [44] else []) ++ grouped w

theorem copyRest_eq {w : Bytes} {srclen : ℕ} (hw : w.length = 3 * (srclen / 3)) (h0 : 0 ∉ w)
    (hsmall : srclen ≤ 49) (topos : Target) :
    copyRest srclen (w ++ [0]) topos = puts (restText srclen w) topos := by
  cases w with
  | nil => rfl
  | cons b w =>
    obtain ⟨k, hk⟩ : ∃ k, srclen / 3 = k + 1 := Nat.exists_eq_succ_of_ne_zero (by
      rw [List.length_cons] at hw
      omega)
    generalize hshow : b :: w = digits at hw h0
    have hne : digits ≠ [] := hshow ▸ List.cons_ne_nil b w
    have hfirst : (digits.take (3 * k)).length = 3 * k := by rw [List.length_take]; omega
    have hlast : (digits.drop (3 * k)).length = 3 := by rw [List.length_drop]; omega
    have hgroups : grouped digits = groupsText k (digits.take (3 * k)) ++ digits.drop (3 * k) := by
      rw [← grouped_groupsText hfirst hlast, List.take_append_drop]
    have hhead : (deref (digits ++ [0]) : CRun UInt8) = .ok b := by rw [← hshow]; rfl
    have hb : b ≠ 0 := fun h => h0 (hshow ▸ h ▸ List.mem_cons_self ..)
    have hcopy : ∀ topos, (do
        let (frompos, topos) ← copyGroups k (digits ++ [0]) topos
        return (← copyChars 3 frompos topos).2 : CRun Target) = puts (grouped digits) topos := by
      intro topos
      have hsplit : digits ++ [0] = digits.take (3 * k) ++ (digits.drop (3 * k) ++ [0]) := by
        rw [← List.append_assoc, List.take_append_drop]
      rw [hsplit, copyGroups_eq hfirst, hgroups, puts_append]
      simp only [bind_assoc, pure_bind, copyChars_eq hlast, bind_pure]
    rw [copyRest, hhead, CRun.ok_bind, if_neg hb, groupCount_eq hk hsmall, restText, if_neg hne]
    by_cases hrem : srclen % 3 ≠ 0
    · rw [if_pos hrem, if_pos hrem, List.singleton_append, puts]
      congr 1
      funext topos
      exact hcopy topos
    · rw [if_neg hrem, if_neg hrem, pure_bind, List.nil_append]
      exact hcopy topos

theorem copyDigits_eq {src : Bytes} (h0 : 0 ∉ src) (hsmall : src.length ≤ 49) (dest : Bytes) :
    copyDigits src dest = do return (← puts (grouped src ++ [0]) ⟨dest, 0⟩).block := by
  have hfirst : (src.take (src.length % 3)).length = src.length % 3 := by
    rw [List.length_take]
    omega
  have hbehind : (src.drop (src.length % 3)).length = 3 * (src.length / 3) := by
    rw [List.length_drop]
    omega
  have hnul : 0 ∉ src.drop (src.length % 3) := fun h => h0 (List.mem_of_mem_drop h)
  have hsplit : src ++ [0] = src.take (src.length % 3) ++ (src.drop (src.length % 3) ++ [0]) := by
    rw [← List.append_assoc, List.take_append_drop]
  have hgroups : grouped src =
      src.take (src.length % 3) ++ restText src.length (src.drop (src.length % 3)) := by
    unfold restText
    split_ifs with hnil hrem
    · have hlen := congrArg List.length hnil
      rw [List.length_drop, List.length_nil] at hlen
      rw [grouped_short (by omega), List.append_nil, List.take_of_length_le (by omega)]
    · obtain ⟨k, hk⟩ : ∃ k, src.length / 3 = k + 1 := Nat.exists_eq_succ_of_ne_zero (by
        have hpos := List.length_pos_iff.mpr hnil
        omega)
      have hne : src.take (src.length % 3) ≠ [] := List.ne_nil_of_length_pos (by omega)
      have hgroup := grouped_split hne (hbehind.trans (by rw [hk]))
      rw [List.take_append_drop, grouped_short (by omega : (src.take (src.length % 3)).length ≤ 3)] at hgroup
      exact hgroup
    · have hzero : src.length % 3 = 0 := by omega
      rw [hzero, List.take_zero, List.drop_zero, List.nil_append, List.nil_append]
  rw [copyDigits, hsplit, copyChars_eq hfirst, hgroups, puts_append, puts_append]
  simp only [bind_assoc, pure_bind, copyRest_eq hbehind hnul hsmall, puts]

theorem copyDigits_ok {src dest : Bytes} (h0 : 0 ∉ src) (hsmall : src.length ≤ 49)
    (hfits : (grouped src).length < dest.length) :
    copyDigits src dest = .ok (grouped src ++ 0 :: dest.drop ((grouped src).length + 1)) := by
  have hold : (dest.take ((grouped src).length + 1)).length = (grouped src ++ [0]).length := by
    rw [List.length_take, List.length_append, List.length_singleton]
    omega
  have hputs := puts_inside hold [] (dest.drop ((grouped src).length + 1))
  rw [List.take_append_drop, List.nil_append, List.nil_append, List.length_nil] at hputs
  rw [copyDigits_eq h0 hsmall, hputs, CRun.ok_bind, List.append_assoc]
  rfl

theorem copyDigits_fault {src dest : Bytes} (h0 : 0 ∉ src) (hsmall : src.length ≤ 49)
    (hfits : dest.length ≤ (grouped src).length) : copyDigits src dest = .error .fault := by
  have hputs := @puts_outside (grouped src ++ [0]) dest (by simp; omega) []
  rw [copyDigits_eq h0 hsmall]
  rw [List.nil_append, List.length_nil] at hputs
  rw [hputs]
  rfl

theorem groupRev_cons (a b c d : UInt8) (rest : Bytes) :
    groupRev (a :: b :: c :: d :: rest) = a :: b :: c :: 44 :: groupRev (d :: rest) := rfl

theorem groupRev_short {l : Bytes} (h : l.length ≤ 3) : groupRev l = l := by
  rcases l with _ | ⟨a, _ | ⟨b, _ | ⟨c, _ | ⟨d, rest⟩⟩⟩⟩
  · rfl
  · rfl
  · rfl
  · rfl
  · simp only [List.length_cons] at h
    omega

theorem group_cases (l : Bytes) :
    l.length ≤ 3 ∨ ∃ a b c d rest, l = a :: b :: c :: d :: rest := by
  rcases l with _ | ⟨a, _ | ⟨b, _ | ⟨c, _ | ⟨d, rest⟩⟩⟩⟩
  · exact .inl (by simp)
  · exact .inl (by simp)
  · exact .inl (by simp)
  · exact .inl (by simp)
  · exact .inr ⟨a, b, c, d, rest, rfl⟩

theorem groupRev_length (l : Bytes) : (groupRev l).length = l.length + (l.length - 1) / 3 := by
  induction h : l.length using Nat.strong_induction_on generalizing l with
  | _ n ih =>
    rcases group_cases l with hshort | ⟨a, b, c, d, rest, rfl⟩
    · rw [groupRev_short hshort]
      omega
    · simp only [List.length_cons] at h
      have hrest := ih (rest.length + 1) (by omega) (d :: rest) rfl
      rw [groupRev_cons]
      simp only [List.length_cons, hrest]
      omega

theorem grouped_length (digits : Bytes) :
    (grouped digits).length = digits.length + (digits.length - 1) / 3 := by
  rw [grouped, List.length_reverse, groupRev_length, List.length_reverse]

theorem mem_grouped {digits : Bytes} {b : UInt8} (h : b ∈ grouped digits) : b = 44 ∨ b ∈ digits := by
  have hrev : ∀ l : Bytes, b ∈ groupRev l → b = 44 ∨ b ∈ l := by
    intro l hl
    induction hn : l.length using Nat.strong_induction_on generalizing l with
    | _ n ih =>
      rcases group_cases l with hshort | ⟨x, y, z, w, rest, rfl⟩
      · exact Or.inr (groupRev_short hshort ▸ hl)
      · simp only [List.length_cons] at hn
        have hrest := fun hmem => ih (rest.length + 1) (by omega) (w :: rest) hmem rfl
        rw [groupRev_cons] at hl
        simp only [List.mem_cons] at hl hrest ⊢
        tauto
  rw [grouped, List.mem_reverse] at h
  exact (hrev _ h).imp_right List.mem_reverse.mp

/-- The terminator needs a byte more than the room unless all groups are full. -/
theorem needed_length {src : Bytes} (hne : src ≠ []) :
    (grouped src).length + 1 = if src.length % 3 = 0 then room src else room src + 1 := by
  have hpos := List.length_pos_iff.mpr hne
  rw [grouped_length, room]
  split_ifs <;> omega

/-- A byte in front of a group that is not full belongs to the group. -/
theorem grouped_cons {l : Bytes} (h : l.length % 3 ≠ 0) (b : UInt8) : grouped (b :: l) = b :: grouped l := by
  rcases Nat.lt_or_ge l.length 3 with hlt | hge
  · rw [grouped_short hlt.le, grouped_short (by rw [List.length_cons]; omega)]
  · obtain ⟨k, hk⟩ : ∃ k, l.length / 3 = k + 1 := Nat.exists_eq_succ_of_ne_zero (by omega)
    have hfirst : (l.take (l.length % 3)).length = l.length % 3 := by rw [List.length_take]; omega
    have hrest : (l.drop (l.length % 3)).length = 3 * (k + 1) := by rw [List.length_drop]; omega
    have hne : l.take (l.length % 3) ≠ [] := List.ne_nil_of_length_pos (by omega)
    have hl := grouped_split hne hrest
    have hbl := grouped_split (List.cons_ne_nil b (l.take (l.length % 3))) hrest
    have hmore : (b :: l.take (l.length % 3)).length ≤ 3 := by rw [List.length_cons]; omega
    rw [List.cons_append, List.take_append_drop, grouped_short hmore] at hbl
    rw [List.take_append_drop, grouped_short (by omega : (l.take (l.length % 3)).length ≤ 3)] at hl
    rw [hbl, hl, List.cons_append]

theorem grouped_full {l : Bytes} (hne : l ≠ []) (h : l.length % 3 = 0) (b : UInt8) :
    grouped (b :: l) = b :: 44 :: grouped l := by
  have hpos := List.length_pos_iff.mpr hne
  obtain ⟨k, hk⟩ : ∃ k, l.length / 3 = k + 1 := Nat.exists_eq_succ_of_ne_zero (by omega)
  have hlen : l.length = 3 * (k + 1) := by omega
  exact grouped_split (List.cons_ne_nil b []) hlen

theorem grouped_decimal {n : ℤ} (h : ¬LoneSign n) : grouped (decimal n) = thousands n := by
  unfold decimal thousands
  split_ifs with hneg
  · exact grouped_cons (fun hfull => h ⟨hneg, hfull⟩) 45
  · rfl

/-- The comma that stands behind the sign. -/
theorem LoneSign.grouped_length {n : ℤ} (h : LoneSign n) :
    (decimal n).length % 3 = 1 ∧ (grouped (decimal n)).length = (thousands n).length + 1 := by
  obtain ⟨hneg, hfull⟩ := h
  rw [decimal, thousands, if_pos hneg, if_pos hneg, grouped_full (natDigits_ne_nil _) hfull]
  simp only [List.length_cons]
  exact ⟨by omega, trivial⟩

theorem natDigits_length_le {n k : ℕ} (hk : 0 < k) (h : n < 10 ^ k) : (natDigits n).length ≤ k := by
  unfold natDigits
  split_ifs
  · exact hk
  · rw [List.length_reverse, List.length_map]
    exact (Nat.digits_length_le_iff (by decide) n).mpr h

theorem decimal_length_le (number : Int64) : (decimal number.toInt).length ≤ 20 := by
  have hlow := number.le_toInt
  have hhigh := number.toInt_lt
  have hdigits : (natDigits number.toInt.natAbs).length ≤ 19 := natDigits_length_le (by decide) (by omega)
  unfold decimal
  split_ifs
  · rw [List.length_cons]
    omega
  · omega

theorem printed_eq (number : Int64) : printed number = decimal number.toInt :=
  List.take_of_length_le ((decimal_length_le number).trans (by decide))

theorem nul_not_mem_decimal (n : ℤ) : 0 ∉ decimal n := by
  intro h
  rcases decimal_all n 0 h with h | h
  · cases h
  · cases h

section Number

variable (number : Int64)

theorem printed_ne_nil : printed number ≠ [] := by
  rw [printed_eq]
  exact decimal_ne_nil _

theorem insertCommas_null : insertCommas number none =
    copyDigits (decimal number.toInt) (List.replicate (room (decimal number.toInt)) 0) := by
  rw [insertCommas, if_neg (printed_ne_nil number), printed_eq]

/-- A destination keeps its length when its first byte is cleared. -/
theorem insertCommas_dest (a : UInt8) (dest : Bytes) : insertCommas number (some (a :: dest)) =
    if (a :: dest).length < room (decimal number.toInt) then .ok (fillX (0 :: dest))
    else copyDigits (decimal number.toInt) (0 :: dest) := by
  have hclear := writeAt_front [] a dest 0
  rw [List.nil_append, List.nil_append, List.length_nil] at hclear
  rw [insertCommas, hclear, CRun.ok_bind, if_neg (printed_ne_nil number), printed_eq]
  rfl

/-- The text that the loops write into a block of some length. -/
theorem copyDigits_decimal (dest : Bytes) :
    ((grouped (decimal number.toInt)).length < dest.length ∧
      ∃ out, copyDigits (decimal number.toInt) dest = .ok out ∧
        cstr out = grouped (decimal number.toInt)) ∨
    (dest.length ≤ (grouped (decimal number.toInt)).length ∧
      copyDigits (decimal number.toInt) dest = .error .fault) := by
  have h0 := nul_not_mem_decimal number.toInt
  have hsmall : (decimal number.toInt).length ≤ 49 := (decimal_length_le number).trans (by decide)
  rcases Nat.lt_or_ge (grouped (decimal number.toInt)).length dest.length with hlt | hge
  · refine Or.inl ⟨hlt, _, copyDigits_ok h0 hsmall hlt, cstr_append_nul (fun h => ?_) _⟩
    exact (mem_grouped h).elim (by decide) h0
  · exact Or.inr ⟨hge, copyDigits_fault h0 hsmall hge⟩

theorem length_thousands : room (decimal number.toInt) ≤ (thousands number.toInt).length + 1 := by
  have hneeded := needed_length (decimal_ne_nil number.toInt)
  by_cases hlone : LoneSign number.toInt
  · obtain ⟨hmod, hlen⟩ := hlone.grouped_length
    rw [if_neg (by omega)] at hneeded
    omega
  · rw [← grouped_decimal hlone, hneeded]
    split_ifs <;> omega

theorem loneSign_not_full (h : (decimal number.toInt).length % 3 = 0) : ¬LoneSign number.toInt := by
  intro hlone
  have hmod := hlone.grouped_length.1
  omega

end Number

theorem grouped_null_iff (number : Int64) : Grouped number none ↔ Room number none := by
  have hneeded := needed_length (decimal_ne_nil number.toInt)
  have hblock := copyDigits_decimal number (List.replicate (room (decimal number.toInt)) 0)
  rw [List.length_replicate] at hblock
  rw [Grouped, insertCommas_null, Room, printed_eq]
  constructor
  · rintro ⟨out, hrun, -⟩
    rcases hblock with ⟨hlt, -⟩ | ⟨-, hfault⟩
    · by_contra hfull
      rw [if_neg hfull] at hneeded
      omega
    · rw [hfault] at hrun
      cases hrun
  · intro hfull
    rw [if_pos hfull] at hneeded
    rcases hblock with ⟨-, out, hrun, htext⟩ | ⟨hle, -⟩
    · exact ⟨out, hrun, fun _ => htext.trans (grouped_decimal (loneSign_not_full number hfull))⟩
    · omega

/-- A destination that is not filled with the letter X. -/
theorem grouped_written_iff (number : Int64) (dest : Bytes) (hlong : room (decimal number.toInt) ≤ dest.length) :
    (∃ out, copyDigits (decimal number.toInt) dest = .ok out ∧
        ((thousands number.toInt).length < dest.length → cstr out = thousands number.toInt)) ↔
      (decimal number.toInt).length % 3 = 0 ∨
        room (decimal number.toInt) < dest.length ∧ ¬LoneSign number.toInt := by
  have hneeded := needed_length (decimal_ne_nil number.toInt)
  rcases copyDigits_decimal number dest with ⟨hlt, out, hrun, htext⟩ | ⟨hout, hfault⟩
  · have hresult : (∃ out', copyDigits (decimal number.toInt) dest = .ok out' ∧
        ((thousands number.toInt).length < dest.length → cstr out' = thousands number.toInt)) ↔
        ¬LoneSign number.toInt := by
      constructor
      · rintro ⟨out', hrun', htext'⟩ hlone
        have hlen := hlone.grouped_length.2
        have hfits : (thousands number.toInt).length < dest.length := by omega
        rw [hrun, Except.ok.injEq] at hrun'
        rw [← htext, hrun', htext' hfits] at hlen
        omega
      · exact fun hlone => ⟨out, hrun, fun _ => htext.trans (grouped_decimal hlone)⟩
    rw [hresult]
    constructor
    · intro hlone
      refine or_iff_not_imp_left.mpr fun hfull => ⟨?_, hlone⟩
      rw [if_neg hfull] at hneeded
      omega
    · rintro (hfull | ⟨-, hlone⟩)
      · exact loneSign_not_full number hfull
      · exact hlone
  · refine iff_of_false (fun ⟨out, hrun, _⟩ => ?_) (fun hroom => ?_)
    · rw [hfault] at hrun
      cases hrun
    · rcases hroom with hfull | ⟨hmore, -⟩
      · rw [if_pos hfull] at hneeded
        omega
      · split_ifs at hneeded <;> omega

/-- insert_commas writes inside its block and what it should when the characters are full groups,
or when the destination is clearly too short or has a byte more than the room. -/
theorem insert_commas_iff (number : Int64) (destStr : Option Bytes) (hdest : destStr ≠ some []) :
    Grouped number destStr ↔ Room number destStr := by
  cases destStr with
  | none => exact grouped_null_iff number
  | some dest =>
    cases dest with
    | nil => exact absurd rfl hdest
    | cons a dest =>
      have hroom := length_thousands number
      rw [Grouped, insertCommas_dest, Room, printed_eq]
      split_ifs with hshort
      · refine iff_of_true ⟨_, rfl, fun hfits => ?_⟩ (Or.inl hshort)
        have hlt := hfits _ rfl
        omega
      · have hwritten := grouped_written_iff number (0 :: dest) (by simpa using hshort)
        rw [List.length_cons, ← List.length_cons (a := a)] at hwritten
        rw [or_iff_right hshort, ← hwritten]
        simp [Fits]

theorem insert_commas_million : Grouped 1234567 (some (List.replicate 50 0)) := by
  have hroom : Room 1234567 (some (List.replicate 50 0)) :=
    .inr (.inr ⟨by decide, fun h => absurd h.1 (by decide)⟩)
  exact (insert_commas_iff 1234567 (some (List.replicate 50 0)) (by decide)).mpr hroom

/-- One digit and its terminator are written to a block of one byte. -/
theorem one_digit_outside : ¬Grouped 5 none := by
  rintro ⟨out, hrun, -⟩
  have hfault : insertCommas 5 none = .error .fault := by decide
  rw [hfault] at hrun
  cases hrun

end Gftp.ThousandsSeparators
