import Gftp.ByteStrings

/-!
Text files that are read by fgets into a block of fixed size. A file of lines that fit the
block is read line by line; the line feed and a carriage return before it are taken off.
Nothing here refers to a program.
-/

namespace Gftp.TextFiles

open ByteStrings

/-- Up to n bytes, the line feed included, and what is left. -/
def fgets : ℕ → Bytes → Bytes × Bytes
  | 0, file => ([], file)
  | _ + 1, [] => ([], [])
  | n + 1, c :: file =>
      if c = 10 then ([c], file) else ((c :: (fgets n file).1), (fgets n file).2)

/-- What the calls up to the end of the file return. -/
def pieces (n : ℕ) : ℕ → Bytes → List Bytes
  | 0, _ => []
  | _ + 1, [] => []
  | fuel + 1, c :: file =>
      (fgets n (c :: file)).1 :: pieces n fuel (fgets n (c :: file)).2

/-- Each call takes a byte at least. -/
def getLines (n : ℕ) (file : Bytes) : List Bytes := pieces n file.length file

/-- The lines of a text, each with its line feed. -/
def joinLines (lines : List Bytes) : Bytes := lines.flatMap (· ++ [10])

/-- The line is read in one call. -/
def FitsLine (n : ℕ) (line : Bytes) : Prop := 10 ∉ line ∧ line.length < n

def stripLast (c : UInt8) (l : Bytes) : Bytes := if l.getLast? = some c then l.dropLast else l

/-- A line feed is taken off, and then a carriage return. -/
def chomp (buf : Bytes) : Bytes := stripLast 13 (stripLast 10 buf)

variable {n fuel : ℕ} {line file : Bytes} {lines : List Bytes}

theorem fgets_line (hline : FitsLine n line) (file : Bytes) :
    fgets n (line ++ 10 :: file) = (line ++ [10], file) := by
  obtain ⟨hfeed, hlen⟩ := hline
  induction line generalizing n with
  | nil =>
    obtain ⟨n, rfl⟩ := Nat.exists_eq_succ_of_ne_zero (by simpa using Nat.ne_of_gt hlen : n ≠ 0)
    rfl
  | cons c line ih =>
    obtain ⟨n, rfl⟩ := Nat.exists_eq_succ_of_ne_zero (by omega : n ≠ 0)
    simp only [List.mem_cons, not_or, List.length_cons] at hfeed hlen
    rw [List.cons_append, fgets, if_neg (Ne.symm hfeed.1), ih hfeed.2 (by omega)]
    rfl

theorem fgets_length (hn : 0 < n) (c : UInt8) (file : Bytes) :
    (fgets n (c :: file)).2.length ≤ file.length := by
  have hle (m : ℕ) (l : Bytes) : (fgets m l).2.length ≤ l.length := by
    induction m generalizing l with
    | zero => exact Nat.le_refl _
    | succ m ih =>
      cases l with
      | nil => exact Nat.le_refl _
      | cons d l =>
        rw [fgets]
        split_ifs
        · exact Nat.le_succ _
        · exact (ih l).trans (Nat.le_succ _)
  obtain ⟨n, rfl⟩ := Nat.exists_eq_succ_of_ne_zero hn.ne'
  rw [fgets]
  split_ifs
  · exact Nat.le_refl _
  · exact hle n file

theorem pieces_fuel (hn : 0 < n) (hfuel : file.length ≤ fuel) :
    pieces n fuel file = getLines n file := by
  have hmore (k m : ℕ) (l : Bytes) (hk : l.length ≤ k) (hm : l.length ≤ m) :
      pieces n k l = pieces n m l := by
    induction k generalizing m l with
    | zero =>
      obtain rfl := List.length_eq_zero_iff.mp (Nat.le_zero.mp hk)
      cases m <;> rfl
    | succ k ih =>
      cases l with
      | nil => cases m <;> rfl
      | cons c l =>
        obtain ⟨m, rfl⟩ := Nat.exists_eq_succ_of_ne_zero (by simp at hm; omega : m ≠ 0)
        have hlen := fgets_length hn c l
        simp only [List.length_cons] at hk hm
        rw [pieces, pieces, ih m _ (by omega) (by omega)]
  exact hmore fuel file.length file hfuel (Nat.le_refl _)

theorem getLines_line (hline : FitsLine n line) (file : Bytes) :
    getLines n (line ++ 10 :: file) = (line ++ [10]) :: getLines n file := by
  have hn : 0 < n := Nat.lt_of_le_of_lt (Nat.zero_le _) hline.2
  have hlen : (line ++ 10 :: file).length = line.length + file.length + 1 := by
    simp only [List.length_append, List.length_cons]
    omega
  obtain ⟨c, rest, hcons⟩ := List.exists_cons_of_ne_nil (by simp : line ++ 10 :: file ≠ [])
  have hget := fgets_line hline file
  have hrest : pieces n (line.length + file.length) file = getLines n file :=
    pieces_fuel hn (by omega)
  rw [getLines, hlen, hcons, pieces, ← hcons, hget, hrest]

theorem getLines_join (hlines : ∀ l ∈ lines, FitsLine n l) (file : Bytes) :
    getLines n (joinLines lines ++ file) = lines.map (· ++ [10]) ++ getLines n file := by
  induction lines with
  | nil => rfl
  | cons l lines ih =>
    have htail := ih fun k hk => hlines k (List.mem_cons_of_mem _ hk)
    have hform : joinLines (l :: lines) ++ file = l ++ 10 :: (joinLines lines ++ file) := by
      simp [joinLines]
    rw [hform, getLines_line (hlines l (List.mem_cons_self ..)), htail]
    rfl

/-- What is read up to a line feed does not depend on what follows. -/
theorem fgets_feed (n : ℕ) (x y : Bytes) :
    (fgets n (x ++ 10 :: y)).1 = (fgets n (x ++ [10])).1 ∧
      (fgets n (x ++ 10 :: y)).2 = (fgets n (x ++ [10])).2 ++ y ∧
      ((fgets n (x ++ [10])).2 = [] ∨
        ∃ x', x'.length ≤ x.length ∧ (fgets n (x ++ [10])).2 = x' ++ [10]) := by
  induction x generalizing n with
  | nil => cases n with
    | zero => exact ⟨rfl, rfl, .inr ⟨[], Nat.le_refl _, rfl⟩⟩
    | succ n => exact ⟨rfl, rfl, .inl rfl⟩
  | cons c x ih =>
    cases n with
    | zero => exact ⟨rfl, by simp [fgets], .inr ⟨c :: x, Nat.le_refl _, rfl⟩⟩
    | succ n =>
      simp only [List.cons_append, fgets]
      split_ifs with hfeed
      · exact ⟨rfl, by simp, .inr ⟨x, Nat.le_succ _, rfl⟩⟩
      · obtain ⟨hpiece, hrest, hlen⟩ := ih n
        refine ⟨congrArg (c :: ·) hpiece, hrest, hlen.imp_right ?_⟩
        rintro ⟨x', hx', heq⟩
        exact ⟨x', hx'.trans (Nat.le_succ _), heq⟩

theorem getLines_cons (hn : 0 < n) (c : UInt8) (file : Bytes) :
    getLines n (c :: file) = (fgets n (c :: file)).1 :: getLines n (fgets n (c :: file)).2 := by
  rw [getLines, List.length_cons, pieces, pieces_fuel hn (fgets_length hn c file)]

theorem fgets_le (n : ℕ) (file : Bytes) : (fgets n file).1.length ≤ n := by
  induction n generalizing file with
  | zero => exact Nat.le_refl _
  | succ n ih =>
    cases file with
    | nil => exact Nat.zero_le _
    | cons c file =>
      rw [fgets]
      split_ifs
      · exact Nat.le_add_left 1 n
      · exact Nat.succ_le_succ (ih file)

/-- No line is longer than what is asked for. -/
theorem getLines_le : ∀ l ∈ getLines n file, l.length ≤ n := by
  unfold getLines
  generalize file.length = fuel
  induction fuel generalizing file with
  | zero => exact nofun
  | succ fuel ih =>
    cases file with
    | nil => exact nofun
    | cons c file =>
      rw [pieces]
      exact List.forall_mem_cons.mpr ⟨fgets_le n _, ih⟩

theorem fgets_append (n : ℕ) (file : Bytes) : (fgets n file).1 ++ (fgets n file).2 = file := by
  induction n generalizing file with
  | zero => rfl
  | succ n ih =>
    cases file with
    | nil => rfl
    | cons c file =>
      rw [fgets]
      split_ifs
      · rfl
      · exact congrArg (c :: ·) (ih file)

theorem fgets_long (hlen : n ≤ line.length) (hfeed : 10 ∉ line) (file : Bytes) :
    fgets n (line ++ file) = (line.take n, line.drop n ++ file) := by
  induction line generalizing n with
  | nil =>
    obtain rfl : n = 0 := Nat.le_zero.mp hlen
    rfl
  | cons c line ih =>
    cases n with
    | zero => rfl
    | succ n =>
      simp only [List.mem_cons, not_or, List.length_cons] at hfeed hlen
      rw [List.cons_append, fgets, if_neg (Ne.symm hfeed.1), ih (by omega) hfeed.2]
      rfl

theorem getLines_flatten (hn : 0 < n) (file : Bytes) : (getLines n file).flatten = file := by
  induction hlen : file.length using Nat.strong_induction_on generalizing file with
  | _ m ih =>
    cases file with
    | nil => rfl
    | cons c file =>
      have hshort := fgets_length hn c file
      rw [List.length_cons] at hlen
      rw [getLines_cons hn, List.flatten_cons, ih _ (by omega) _ rfl, fgets_append]

/-- The pieces up to a line feed, and those of the rest. -/
theorem getLines_feed (hn : 0 < n) (x y : Bytes) :
    getLines n (x ++ 10 :: y) = getLines n (x ++ [10]) ++ getLines n y := by
  induction hlen : x.length using Nat.strong_induction_on generalizing x with
  | _ m ih =>
    obtain ⟨c, rest, hcons⟩ := List.exists_cons_of_ne_nil (by simp : x ++ [10] ≠ [])
    have hlong : x ++ 10 :: y = c :: (rest ++ y) := by
      have happend := congrArg (· ++ y) hcons
      simpa using happend
    obtain ⟨hpiece, hrest, hend⟩ := fgets_feed n x y
    have hshort := fgets_length hn c rest
    have hcount := congrArg List.length hcons
    rw [hcons] at hpiece hrest hend
    rw [hlong] at hpiece hrest ⊢
    rw [hcons, getLines_cons hn, getLines_cons hn, hpiece, hrest]
    rcases hend with hend | ⟨x', -, hend⟩
    · rw [hend]
      rfl
    · rw [hend] at hshort ⊢
      simp only [List.length_append, List.length_cons, List.length_nil] at hshort hcount
      have htail := ih x'.length (by omega) x' rfl
      rw [List.append_assoc, List.singleton_append, htail]
      rfl

theorem joinLines_append (lines lines' : List Bytes) :
    joinLines (lines ++ lines') = joinLines lines ++ joinLines lines' := List.flatMap_append ..

theorem chomp_line (line : Bytes) : chomp (line ++ [10]) = stripLast 13 line := by
  have hfeed : stripLast 10 (line ++ [10]) = line := by simp [stripLast]
  rw [chomp, hfeed]

theorem stripLast_eq_self {c : UInt8} {l : Bytes} : stripLast c l = l ↔ l.getLast? ≠ some c := by
  unfold stripLast
  split_ifs with hlast
  · refine ⟨fun heq => ?_, fun hne => absurd hlast hne⟩
    have hlen := congrArg List.length heq
    rw [List.length_dropLast] at hlen
    have hpos := List.length_pos_of_mem (List.mem_of_getLast? hlast)
    omega
  · exact ⟨fun _ => hlast, fun _ => rfl⟩

theorem stripLast_length_le (c : UInt8) (l : Bytes) : (stripLast c l).length ≤ l.length := by
  unfold stripLast
  split_ifs
  · rw [List.length_dropLast]
    exact Nat.sub_le _ _
  · exact Nat.le_refl _

theorem length_le_stripLast (c : UInt8) (l : Bytes) : l.length ≤ (stripLast c l).length + 1 := by
  unfold stripLast
  split_ifs
  · rw [List.length_dropLast]
    omega
  · exact Nat.le_succ _

theorem stripLast_append {c : UInt8} (front : Bytes) {l : Bytes} (h : l ≠ []) :
    stripLast c (front ++ l) = front ++ stripLast c l := by
  unfold stripLast
  rw [List.getLast?_append_of_ne_nil _ h, List.dropLast_append_of_ne_nil h]
  split_ifs <;> rfl

theorem stripLast_begins (c : UInt8) (l : Bytes) : stripLast c l <+: l := by
  unfold stripLast
  split_ifs
  · exact List.dropLast_prefix l
  · exact List.prefix_refl l

theorem stripLast_word {word : Bytes} (hword : word.getLast? ≠ some 13) (value : Bytes) :
    stripLast 13 (word ++ value) = word ++ stripLast 13 value := by
  rcases eq_or_ne value [] with rfl | hvalue
  · rw [List.append_nil, stripLast_eq_self.mpr hword]
    simp [stripLast]
  · exact stripLast_append word hvalue

end Gftp.TextFiles
