import Gftp.ListingParsers

/-!
A line in the EPLF format: a plus sign, facts that each end at a comma, a tab and the name.
The parser goes from comma to comma through the whole line, so that the parts of a name
behind its commas are taken for facts too. The entry is the one that was sent when these
parts change nothing.
-/

namespace Gftp.EplfListing

open ByteStrings TextPointers Decimal Protocol ListingParsers

/-- What the facts of a line have set so far. -/
structure Facts where
  isdir : Bool
  size : ℤ
  datetime : ℤ
  deriving DecidableEq

def Facts.none : Facts := ⟨false, 0, 0⟩

/-- The facts as the loop of the parser passes them on. -/
def Facts.values (facts : Facts) : Bool × ℤ × ℤ := (facts.isdir, facts.size, facts.datetime)

def takeFact (facts : Facts) : Bytes → Facts
  | 47 :: _ => { facts with isdir := true }
  | 115 :: v => { facts with size := strtol v }
  | 109 :: v => { facts with datetime := strtol v }
  | _ => facts

/-- The number of the last fact of a kind. -/
def lastNumber (kind : UInt8) (facts : List Bytes) : Option ℤ :=
  (facts.filter fun fact => fact.head? = some kind).getLast?.map fun fact => strtol fact.tail

/-- What a list of facts says. -/
def saidBy (facts : List Bytes) : Facts where
  isdir := facts.any fun fact => fact.head? = some 47
  size := (lastNumber 115 facts).getD 0
  datetime := (lastNumber 109 facts).getD 0

def eplfLine (facts : List Bytes) (name : Bytes) : Bytes :=
  43 :: facts.flatMap (· ++ [44]) ++ 9 :: name

def eplfEntry (host : Host) (facts : Facts) (name : Bytes) : GftpFile where
  file := some name
  user := some host.unknown
  group := some host.unknown
  size := facts.size
  datetime := facts.datetime
  stMode := if facts.isdir then dirMode else fileMode

/-- The facts that are set by a fact and then by the facts behind it. -/
theorem lastNumber_cons (kind : UInt8) (fact : Bytes) (rest : List Bytes) (n : ℤ) :
    (lastNumber kind (fact :: rest)).getD n = (lastNumber kind rest).getD
      (if fact.head? = some kind then strtol fact.tail else n) := by
  unfold lastNumber
  by_cases h : fact.head? = some kind
  · rw [List.filter_cons_of_pos (by simpa using h), if_pos h, List.getLast?_cons,
      Option.map_some, Option.getD_some]
    cases (rest.filter fun fact => fact.head? = some kind).getLast? <;> rfl
  · rw [List.filter_cons_of_neg (by simpa using h), if_neg h]

/-- The order of the facts matters only among those of one kind. -/
theorem foldl_takeFact (facts : List Bytes) (before : Facts) :
    facts.foldl takeFact before =
      { isdir := before.isdir || (saidBy facts).isdir
        size := (lastNumber 115 facts).getD before.size
        datetime := (lastNumber 109 facts).getD before.datetime } := by
  induction facts generalizing before with
  | nil => simp [saidBy, lastNumber]
  | cons fact rest ih =>
    rw [List.foldl_cons, ih, lastNumber_cons, lastNumber_cons]
    unfold saidBy
    rcases fact with _ | ⟨b, v⟩
    · simp [takeFact]
    · by_cases hdir : b = 47
      · subst hdir
        simp [takeFact]
      · by_cases hsize : b = 115
        · subst hsize
          simp [takeFact]
        · by_cases hdate : b = 109
          · subst hdate
            simp [takeFact]
          · simp [takeFact, hdir, hsize, hdate]

theorem strtol_fact {more : Bytes} (hmore : more = [] ∨ ∃ rest, more = 44 :: rest) (v : Bytes) :
    strtol (v ++ more) = strtol v := by
  obtain rfl | ⟨rest, rfl⟩ := hmore
  · rw [List.append_nil]
  · exact strtol_append (by decide) (by decide) (by decide) (fun h => absurd h (by decide)) rest

theorem eplfFacts_step {piece more : Bytes} (hmore : more = [] ∨ ∃ rest, more = 44 :: rest)
    (hnul : 0 ∉ piece ++ more) (c : UInt8) (tail : Bytes) (fuel : ℕ) (before : Facts) :
    eplfFacts (fuel + 1) (c :: (piece ++ more ++ 0 :: tail)) before.values =
      findByte 44 (piece ++ more ++ 0 :: tail) >>= fun next =>
        match next with
        | Option.none => .ok (takeFact before piece).values
        | some startpos => eplfFacts fuel startpos (takeFact before piece).values := by
  rw [Facts.values, eplfFacts]
  simp only [List.drop_one, List.tail_cons, deref_text, CRun.ok_bind]
  rcases piece with _ | ⟨b, v⟩
  · obtain rfl | ⟨rest, rfl⟩ := hmore
    · rfl
    · rfl
  · rw [List.cons_append, List.mem_cons, not_or] at hnul
    have htext : textAt (v ++ (more ++ 0 :: tail)) = .ok (v ++ more) := by
      rw [← List.append_assoc, textAt_text hnul.2]
    by_cases hdir : b = 47
    · subst hdir
      rfl
    · by_cases hsize : b = 115
      · subst hsize
        simp [takeFact, gftpParseFileSize, htext, strtol_fact hmore]
        rfl
      · by_cases hdate : b = 109
        · subst hdate
          simp [takeFact, htext, strtol_fact hmore]
          rfl
        · simp [takeFact, hdir, hsize, hdate]
          rfl

/-- The loop takes every piece of the line for a fact. -/
theorem eplfFacts_eq {t : Bytes} (hnul : 0 ∉ t) (c : UInt8) (tail : Bytes) {fuel : ℕ}
    (hfuel : t.length < fuel) (before : Facts) :
    eplfFacts fuel (c :: (t ++ 0 :: tail)) before.values =
      .ok ((t.splitOn 44).foldl takeFact before).values := by
  induction fuel generalizing t c before with
  | zero => exact absurd hfuel (Nat.not_lt_zero _)
  | succ fuel ih =>
    by_cases hcomma : 44 ∈ t
    · obtain ⟨piece, rest, rfl, hpiece⟩ := List.eq_append_cons_of_mem hcomma
      rw [eplfFacts_step (Or.inr ⟨rest, rfl⟩) hnul, findByte_text (by decide) hnul,
        if_pos hcomma, CRun.ok_bind]
      rw [List.length_append, List.length_cons] at hfuel
      simp only [List.mem_append, List.mem_cons, not_or] at hnul
      have hdrop : (piece ++ 44 :: rest).drop ((piece ++ 44 :: rest).idxOf 44) = 44 :: rest := by
        rw [List.idxOf_append_of_notMem hpiece, List.idxOf_cons_self, Nat.add_zero,
          List.drop_left]
      rw [hdrop, List.splitOn_append_cons_self_of_not_mem hpiece, List.foldl_cons]
      exact ih hnul.2.2 44 (by omega) _
    · have hstep := @eplfFacts_step t [] (Or.inl rfl) (by rwa [List.append_nil]) c tail fuel before
      rw [List.append_nil] at hstep
      rw [hstep, findByte_text (by decide) hnul, if_neg hcomma, CRun.ok_bind,
        List.splitOn_eq_singleton hcomma]
      rfl

/-- What stands behind the commas of a name. -/
def behindCommas (name : Bytes) : List Bytes := (name.splitOn 44).tail

/-- The text of a fact. -/
def FactText (fact : Bytes) : Prop := ∀ b ∈ fact, b ≠ 0 ∧ b ≠ 9 ∧ b ≠ 44

instance : DecidablePred FactText := fun fact =>
  List.decidableBAll (fun b => b ≠ 0 ∧ b ≠ 9 ∧ b ≠ 44) fact

theorem splitOn_facts {facts : List Bytes} (hfacts : ∀ fact ∈ facts, FactText fact)
    (rest : Bytes) :
    (facts.flatMap (· ++ [44]) ++ rest).splitOn 44 = facts ++ rest.splitOn 44 := by
  induction facts with
  | nil => rfl
  | cons fact facts ih =>
    rw [List.forall_mem_cons] at hfacts
    rw [List.flatMap_cons, List.append_assoc, List.append_assoc, List.singleton_append,
      List.splitOn_append_cons_self_of_not_mem fun h => (hfacts.1 44 h).2.2 rfl, ih hfacts.2,
      List.cons_append]

theorem foldl_name (name : Bytes) (before : Facts) :
    ((9 :: name).splitOn 44).foldl takeFact before = (behindCommas name).foldl takeFact before := by
  unfold behindCommas
  rw [List.splitOn_cons_eq_if_modifyHead, if_neg (by decide)]
  cases name.splitOn 44 <;> rfl

theorem not_mem_flatMap {facts : List Bytes} {b : UInt8} (hb : b ≠ 44)
    (h : ∀ fact ∈ facts, b ∉ fact) : b ∉ facts.flatMap (· ++ [44]) := by
  intro hmem
  obtain ⟨fact, hfact, hin⟩ := List.mem_flatMap.mp hmem
  rw [List.mem_append, List.mem_singleton] at hin
  exact hin.elim (h fact hfact) hb

/-- The entry of a line whose facts and name parts are all facts for the parser. -/
theorem eplf_parsed (host : Host) {facts : List Bytes} (hfacts : ∀ fact ∈ facts, FactText fact)
    {name : Bytes} (hname : 0 ∉ name) (tail : Bytes) :
    (gftpParseLsEplf host (eplfLine facts name ++ 0 :: tail)).run =
      .ok (.ok (eplfEntry host ((facts ++ behindCommas name).foldl takeFact Facts.none) name)) := by
  have hno (b : UInt8) (hb : b = 0 ∨ b = 9) : b ∉ facts.flatMap (· ++ [44]) := by
    refine not_mem_flatMap (by rcases hb with rfl | rfl <;> decide) fun fact hfact hmem => ?_
    obtain ⟨h0, h9, -⟩ := hfacts fact hfact b hmem
    exact hb.elim h0 h9
  have hnul : 0 ∉ facts.flatMap (· ++ [44]) ++ 9 :: name := by
    simp [hno 0 (Or.inl rfl), hname]
  have htab : findByte 9 (eplfLine facts name ++ 0 :: tail) =
      .ok (some (9 :: (name ++ 0 :: tail))) := by
    unfold eplfLine
    rw [List.append_assoc]
    refine findByte_first ?_ ?_ (name ++ 0 :: tail)
    · simp [hno 9 (Or.inr rfl)]
    · simp [hno 0 (Or.inl rfl)]
  have hloop : eplfFacts ((eplfLine facts name ++ 0 :: tail).length + 1)
      (eplfLine facts name ++ 0 :: tail) (false, 0, 0) =
      .ok ((facts ++ behindCommas name).foldl takeFact Facts.none).values := by
    rw [List.foldl_append, ← foldl_name, ← List.foldl_append, ← splitOn_facts hfacts]
    exact eplfFacts_eq hnul 43 tail (by simp [eplfLine]; omega) Facts.none
  unfold gftpParseLsEplf
  rw [hloop, Parse.read_bind]
  simp only [htab, Parse.read_bind, List.drop_one, List.tail_cons, textAt_text hname]
  rfl

/-- The parts of a name behind its commas that pass for facts say what the facts say. -/
structure RepeatsFacts (facts : List Bytes) (name : Bytes) : Prop where
  isdir : (∃ piece ∈ behindCommas name, piece.head? = some 47) →
    ∃ fact ∈ facts, fact.head? = some 47
  size : ∀ n, lastNumber 115 (behindCommas name) = some n → n = (lastNumber 115 facts).getD 0
  datetime : ∀ n, lastNumber 109 (behindCommas name) = some n → n = (lastNumber 109 facts).getD 0

theorem eplfEntry_inj {host : Host} {said said' : Facts} {name : Bytes} :
    eplfEntry host said name = eplfEntry host said' name ↔ said = said' := by
  constructor
  · intro h
    obtain ⟨isdir, size, datetime⟩ := said
    obtain ⟨isdir', size', datetime'⟩ := said'
    simp only [eplfEntry, GftpFile.mk.injEq, true_and] at h
    obtain ⟨rfl, rfl, hmode⟩ := h
    have hdir : isdir = isdir' := by
      have hne : dirMode ≠ fileMode := by decide
      cases isdir with
      | true =>
        cases isdir' with
        | true => rfl
        | false => exact absurd hmode hne
      | false =>
        cases isdir' with
        | true => exact absurd hmode hne.symm
        | false => rfl
    rw [hdir]
  · rintro rfl
    rfl

/-- A number that is said again says nothing new. -/
theorem getD_eq_iff {again : Option ℤ} {n : ℤ} :
    again.getD n = n ↔ ∀ m, again = some m → m = n := by
  cases again <;> simp

theorem repeatsFacts_iff (facts : List Bytes) (name : Bytes) :
    (facts ++ behindCommas name).foldl takeFact Facts.none = saidBy facts ↔
      RepeatsFacts facts name := by
  have hsaid : facts.foldl takeFact Facts.none = saidBy facts := by
    rw [foldl_takeFact]
    rfl
  rw [List.foldl_append, hsaid, foldl_takeFact]
  have hdir : ((saidBy facts).isdir || (saidBy (behindCommas name)).isdir) = (saidBy facts).isdir ↔
      ((∃ piece ∈ behindCommas name, piece.head? = some 47) →
        ∃ fact ∈ facts, fact.head? = some 47) := by
    simp only [saidBy, Bool.or_eq_left_iff_imp, List.any_eq_true, decide_eq_true_eq]
  constructor
  · intro h
    have hsize := congrArg Facts.size h
    have hdate := congrArg Facts.datetime h
    exact ⟨hdir.mp (congrArg Facts.isdir h), getD_eq_iff.mp hsize, getD_eq_iff.mp hdate⟩
  · rintro ⟨h, hsize, hdate⟩
    have hsize' := getD_eq_iff.mpr hsize
    have hdate' := getD_eq_iff.mpr hdate
    rw [hdir.mpr h]
    exact congrArg₂ (Facts.mk (saidBy facts).isdir) hsize' hdate'

/-- The entry is the one of the facts when the name only repeats them. -/
theorem eplf_facts_iff (host : Host) {facts : List Bytes}
    (hfacts : ∀ fact ∈ facts, FactText fact) {name : Bytes} (hname : 0 ∉ name) (tail : Bytes) :
    (gftpParseLsEplf host (eplfLine facts name ++ 0 :: tail)).run =
        .ok (.ok (eplfEntry host (saidBy facts) name)) ↔
      RepeatsFacts facts name := by
  rw [eplf_parsed host hfacts hname, Except.ok.injEq, Except.ok.injEq, eplfEntry_inj,
    repeatsFacts_iff]

/-- A host that knows no dates. -/
def dateless : Host where
  strptime _ _ tm := (tm, .none)
  mktime _ := 0
  localtime _ := Tm.zero
  time := 0
  unknown := ascii "unknown"

/-- A file whose name has a comma. -/
theorem comma_in_name :
    (gftpParseLsEplf dateless
        (eplfLine [ascii "i42", ascii "s100", ascii "m300"] (ascii "a,b") ++ [0])).run =
      .ok (.ok (eplfEntry dateless (saidBy [ascii "i42", ascii "s100", ascii "m300"])
        (ascii "a,b"))) := by
  have hnone (kind : UInt8) (h : kind ≠ 98) :
      lastNumber kind (behindCommas (ascii "a,b")) = .none := by
    have hpieces : behindCommas (ascii "a,b") = [ascii "b"] := by decide
    rw [hpieces, lastNumber, List.filter_cons_of_neg (by simp [ascii, Ne.symm h])]
    rfl
  refine (eplf_facts_iff dateless (by decide) (by decide) []).mpr ⟨by decide, ?_, ?_⟩
  · simp [hnone 115 (by decide)]
  · simp [hnone 109 (by decide)]

/-- The name of a file makes it a directory. -/
theorem name_makes_directory :
    ¬ (gftpParseLsEplf dateless (eplfLine [ascii "s100"] (ascii "a,/b") ++ [0])).run =
      .ok (.ok (eplfEntry dateless (saidBy [ascii "s100"]) (ascii "a,/b"))) := by
  decide

end Gftp.EplfListing
