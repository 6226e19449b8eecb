import Gftp.Decimal
import Mathlib.Data.Nat.Digits.Lemmas

/-!
The argument vector of the SSH program. sshv2_gen_exec_args writes each of its parts into
an array of 2048 bytes and sshv2_add_exec_args cuts the text up at its blanks and quotes, so
a name from a URL is one argument only when it has no blank, does not begin with a quote and
fits the array.
-/

namespace Gftp.SshExecArgs

open ByteStrings Decimal

/-- The array tempstr, with what the stack held before. -/
structure StackArray where
  cells : Bytes
  size : cells.length = 2048

/-- The array after g_vsnprintf. -/
def StackArray.format (a : StackArray) (formatted : Bytes) : Bytes :=
  formatted.take 2047 ++ 0 :: a.cells.drop (formatted.take 2047 ++ [0]).length

/-- strchr, from a place in the array on. -/
def strchr (rest : Bytes) (c : UInt8) : CRun (Option ℕ) :=
  if 0 ∈ rest then .ok (if c ∈ cstr rest then some ((cstr rest).idxOf c) else none)
  else .error .fault

def skipBlanks (rest : Bytes) : Bytes := rest.dropWhile (· = 32)

/-- The place of the next argument and of the byte that ends it, from curpos on. After a
quote the byte that follows it is not looked at. -/
def nextArg (curpos : Bytes) : CRun (Bytes × Option ℕ) :=
  if curpos.head? = some 34 then do
    let endpos ← strchr (curpos.drop 2) 34
    return (curpos.drop 1, endpos.map (· + 1))
  else do
    let endpos ← strchr curpos 32
    return (curpos, endpos)

/-- The loop of sshv2_add_exec_args. Each round but the last goes forward in the array, which
bounds them. -/
def addArgs : ℕ → Bytes → CRun (List Bytes)
  | 0, _ => .error .pending
  | fuel + 1, curpos => do
      match ← nextArg curpos with
      | (arg, none) => return [cstr arg]
      | (arg, some endpos) =>
          let args ← addArgs fuel (skipBlanks (arg.drop (endpos + 1)))
          return cstr (arg.take endpos) :: args

def sshv2AddExecArgs (a : StackArray) (formatted : Bytes) : CRun (List Bytes) :=
  addArgs a.cells.length (skipBlanks (a.format formatted))

/-- %d of an unsigned port. -/
def portText (port : UInt32) : Bytes := decimal (Int.bmod port.toNat (2 ^ 32))

/-- sshv2_gen_exec_args; arrays are the arrays tempstr of its calls. -/
def sshv2GenExecArgs (arrays : ℕ → StackArray) (sshProgName sshExtraParams username : CString)
    (port : UInt32) (hostname : CString) : CRun (List Bytes) := do
  let prog := if sshProgName.bytes = [] then ascii "ssh" else sshProgName.bytes
  let extra ← if sshExtraParams.bytes = [] then pure []
    else sshv2AddExecArgs (arrays 0) sshExtraParams.bytes
  let escape ← sshv2AddExecArgs (arrays 1) (ascii " -e none")
  let login ← if username.bytes = [] then pure []
    else sshv2AddExecArgs (arrays 2) (ascii " -l " ++ username.bytes)
  let port ← sshv2AddExecArgs (arrays 3) (ascii " -p " ++ portText port)
  let host ← sshv2AddExecArgs (arrays 4) (ascii " " ++ hostname.bytes ++ ascii " -s sftp")
  return prog :: extra ++ escape ++ login ++ port ++ host

section Words

/-- The words of a text without quotes. -/
def words : ℕ → Bytes → List Bytes
  | 0, _ => []
  | fuel + 1, s =>
      if 32 ∈ s then
        s.takeWhile (· ≠ 32) :: words fuel (skipBlanks ((s.dropWhile (· ≠ 32)).drop 1))
      else [s]

variable {s junk : Bytes} {fuel : ℕ}

theorem strchr_text (hs : 0 ∉ s) (c : UInt8) :
    strchr (s ++ 0 :: junk) c = .ok (if c ∈ s then some (s.idxOf c) else none) := by
  unfold strchr
  rw [if_pos (by simp), cstr_append_nul hs]

theorem skipBlanks_text : skipBlanks (s ++ 0 :: junk) = skipBlanks s ++ 0 :: junk := by
  induction s with
  | nil => rfl
  | cons b s ih =>
    by_cases hb : b = 32
    · subst hb
      exact ih
    · simp [skipBlanks, hb]

theorem mem_of_mem_skipBlanks {b : UInt8} (h : b ∈ skipBlanks s) : b ∈ s :=
  (List.dropWhile_sublist _).subset h

theorem takeWhile_idxOf {b : UInt8} : s.take (s.idxOf b) = s.takeWhile (· ≠ b) := by
  induction s with
  | nil => rfl
  | cons a s ih =>
    by_cases hab : a = b
    · subst hab
      simp
    · rw [List.idxOf_cons_ne _ hab, List.take_succ_cons, ih, List.takeWhile_cons_of_pos (by simpa)]

theorem dropWhile_idxOf {b : UInt8} : s.drop (s.idxOf b) = s.dropWhile (· ≠ b) := by
  induction s with
  | nil => rfl
  | cons a s ih =>
    by_cases hab : a = b
    · subst hab
      simp
    · rw [List.idxOf_cons_ne _ hab, List.drop_succ_cons, ih, List.dropWhile_cons_of_pos (by simpa)]

/-- A text that does not begin with a quote: what stands before its first blank is an
argument, and what stands behind the blanks is cut up further. -/
theorem addArgs_text (hs : 0 ∉ s) (hquote : s.head? ≠ some 34) :
    addArgs (fuel + 1) (s ++ 0 :: junk) =
      if 32 ∈ s then do
        let args ← addArgs fuel (skipBlanks ((s.dropWhile (· ≠ 32)).drop 1) ++ 0 :: junk)
        return s.takeWhile (· ≠ 32) :: args
      else .ok [s] := by
  have hhead : (s ++ 0 :: junk).head? ≠ some 34 := by
    cases s with
    | nil => simp
    | cons b s => simpa using hquote
  simp only [addArgs, nextArg, if_neg hhead, strchr_text hs, CRun.ok_bind, pure_bind]
  by_cases hblank : 32 ∈ s
  · have hidx : s.idxOf 32 < s.length := List.idxOf_lt_length_of_mem hblank
    have hfront : (s ++ 0 :: junk).take (s.idxOf 32) = s.takeWhile (· ≠ 32) := by
      rw [List.take_append_of_le_length (Nat.le_of_lt hidx), takeWhile_idxOf]
    have hback : (s ++ 0 :: junk).drop (s.idxOf 32 + 1) =
        (s.dropWhile (· ≠ 32)).drop 1 ++ 0 :: junk := by
      rw [List.drop_append_of_le_length hidx, ← dropWhile_idxOf, List.drop_drop]
    have hnul : 0 ∉ s.takeWhile (· ≠ 32) := fun h => hs ((List.takeWhile_sublist _).subset h)
    simp only [if_pos hblank, hfront, hback, skipBlanks_text, cstr_eq_self hnul]
  · simp only [if_neg hblank, cstr_append_nul hs]
    rfl

theorem addArgs_words (hs : 0 ∉ s) (hquote : 34 ∉ s) (hfuel : s.length < fuel) :
    addArgs fuel (s ++ 0 :: junk) = .ok (words fuel s) := by
  induction fuel generalizing s with
  | zero => omega
  | succ fuel ih =>
    rw [addArgs_text hs (fun h => hquote (List.mem_of_head? h)), words]
    by_cases hblank : 32 ∈ s
    · have hsub : (skipBlanks ((s.dropWhile (· ≠ 32)).drop 1)).Sublist s :=
        ((List.dropWhile_sublist _).trans (List.drop_sublist 1 _)).trans (List.dropWhile_sublist _)
      have hlen : (skipBlanks ((s.dropWhile (· ≠ 32)).drop 1)).length < fuel := by
        have hdrop : ((s.dropWhile (· ≠ 32)).drop 1).length < s.length := by
          rw [← dropWhile_idxOf, List.drop_drop, List.length_drop]
          have hpos := List.length_pos_of_mem hblank
          omega
        have hskip := (List.dropWhile_sublist (fun b : UInt8 => decide (b = 32))
          (l := (s.dropWhile (· ≠ 32)).drop 1)).length_le
        unfold skipBlanks
        omega
      rw [if_pos hblank, if_pos hblank, ih (fun h => hs (hsub.subset h))
        (fun h => hquote (hsub.subset h)) hlen]
      rfl
    · rw [if_neg hblank, if_neg hblank]

/-- A text behind a quote: with another quote, but for the first byte, what stands before it is
an argument, and what stands behind it is cut up further. -/
theorem addArgs_quote {c : UInt8} (hs : 0 ∉ c :: s) :
    addArgs (fuel + 1) (34 :: c :: s ++ 0 :: junk) =
      if 34 ∈ s then do
        let args ← addArgs fuel (skipBlanks ((s.dropWhile (· ≠ 34)).drop 1) ++ 0 :: junk)
        return (c :: s.takeWhile (· ≠ 34)) :: args
      else .ok [c :: s] := by
  have hhead : (34 :: c :: s ++ 0 :: junk).head? = some 34 := rfl
  have hfront : (34 :: c :: s ++ 0 :: junk).drop 1 = c :: s ++ 0 :: junk := rfl
  have hdrop : (34 :: c :: s ++ 0 :: junk).drop 2 = s ++ 0 :: junk := rfl
  have hrest : 0 ∉ s := fun h0 => hs (List.mem_cons_of_mem _ h0)
  simp only [addArgs, nextArg, if_pos hhead, hfront, hdrop, strchr_text hrest, CRun.ok_bind,
    pure_bind]
  by_cases hclosed : 34 ∈ s
  · have hidx : s.idxOf 34 < s.length := List.idxOf_lt_length_of_mem hclosed
    have harg : (c :: s ++ 0 :: junk).take (s.idxOf 34 + 1) = c :: s.takeWhile (· ≠ 34) := by
      rw [List.cons_append, List.take_succ_cons,
        List.take_append_of_le_length (Nat.le_of_lt hidx), takeWhile_idxOf]
    have hback : (c :: s ++ 0 :: junk).drop (s.idxOf 34 + 1 + 1) =
        (s.dropWhile (· ≠ 34)).drop 1 ++ 0 :: junk := by
      rw [List.cons_append, List.drop_succ_cons, List.drop_append_of_le_length hidx,
        ← dropWhile_idxOf, List.drop_drop]
    have hnul : 0 ∉ c :: s.takeWhile (· ≠ 34) := by
      intro h0
      rcases List.mem_cons.mp h0 with rfl | h0
      · exact hs (List.mem_cons_self ..)
      · exact hrest ((List.takeWhile_sublist _).subset h0)
    simp only [if_pos hclosed, Option.map_some, harg, hback, skipBlanks_text, cstr_eq_self hnul]
  · simp only [if_neg hclosed, Option.map_none, cstr_append_nul hs]
    rfl

/-- The first argument: what stands before the first blank, or, behind a quote, text without
another quote but for its first byte. -/
theorem addArgs_first {args : List Bytes} (hs : 0 ∉ s)
    (h : addArgs (fuel + 1) (s ++ 0 :: junk) = .ok args) :
    ∃ arg rest, args = arg :: rest ∧
      (s.head? ≠ some 34 → arg = s.takeWhile (· ≠ 32)) ∧
      (s.head? = some 34 → arg <+: s.drop 1 ∧ 34 ∉ arg.drop 1) := by
  by_cases hquote : s.head? = some 34
  · obtain ⟨behind, rfl⟩ : ∃ behind, s = 34 :: behind := by
      cases s with
      | nil => simp at hquote
      | cons b s => exact ⟨s, by rw [Option.some.inj hquote]⟩
    have hbehind : 0 ∉ behind := fun h0 => hs (List.mem_cons_of_mem _ h0)
    have hcase : ∀ arg rest, args = arg :: rest → arg <+: behind ∧ 34 ∉ arg.drop 1 →
        ∃ arg rest, args = arg :: rest ∧
          ((34 :: behind).head? ≠ some 34 → arg = (34 :: behind).takeWhile (· ≠ 32)) ∧
          ((34 :: behind).head? = some 34 → arg <+: behind ∧ 34 ∉ arg.drop 1) :=
      fun arg rest hargs hright => ⟨arg, rest, hargs, fun hne => absurd rfl hne, fun _ => hright⟩
    cases behind with
    | nil =>
      have hhead : ([34] ++ 0 :: junk).head? = some 34 := rfl
      simp only [addArgs, nextArg, if_pos hhead] at h
      obtain ⟨⟨start, endpos⟩, harg, h⟩ := CRun.bind_eq_ok.mp h
      obtain ⟨found, -, harg⟩ := CRun.bind_eq_ok.mp harg
      obtain ⟨rfl, rfl⟩ := Prod.mk.inj (Except.ok.inj harg)
      cases found with
      | none =>
        obtain rfl := Except.ok.inj h
        exact hcase [] [] rfl ⟨List.prefix_rfl, by simp⟩
      | some i =>
        obtain ⟨rest, -, h⟩ := CRun.bind_eq_ok.mp h
        obtain rfl := Except.ok.inj h
        exact hcase [] rest rfl ⟨List.prefix_rfl, by simp⟩
    | cons c behind =>
      rw [addArgs_quote hbehind] at h
      split at h
      · obtain ⟨rest, -, h⟩ := CRun.bind_eq_ok.mp h
        obtain rfl := Except.ok.inj h
        refine hcase _ rest rfl ⟨(List.prefix_cons_inj c).mpr (List.takeWhile_prefix _), ?_⟩
        intro hmem
        simpa using List.mem_takeWhile_imp (show 34 ∈ behind.takeWhile (· ≠ 34) from hmem)
      · rename_i hopen
        obtain rfl := Except.ok.inj h
        exact hcase _ [] rfl ⟨List.prefix_rfl, hopen⟩
  · rw [addArgs_text hs hquote] at h
    refine ⟨s.takeWhile (· ≠ 32), ?_⟩
    split at h
    · obtain ⟨rest, -, h⟩ := CRun.bind_eq_ok.mp h
      obtain rfl := Except.ok.inj h
      exact ⟨rest, rfl, fun _ => rfl, fun hq => absurd hq hquote⟩
    · rename_i hblank
      obtain rfl := Except.ok.inj h
      have hall : s.takeWhile (· ≠ 32) = s := by
        apply List.takeWhile_eq_self_iff.mpr
        intro b hb
        simpa using fun hb32 : b = 32 => hblank (hb32 ▸ hb)
      exact ⟨[], by rw [hall], fun _ => rfl, fun hq => absurd hq hquote⟩

end Words

section Parts

variable {a : StackArray} {formatted : Bytes}

theorem addExecArgs_eq :
    sshv2AddExecArgs a formatted = addArgs 2048 (skipBlanks (formatted.take 2047) ++
      0 :: a.cells.drop (formatted.take 2047 ++ [0]).length) := by
  rw [sshv2AddExecArgs, StackArray.format, skipBlanks_text, a.size]

theorem addExecArgs_words (hnul : 0 ∉ formatted) (hquote : 34 ∉ formatted) :
    sshv2AddExecArgs a formatted = .ok (words 2048 (skipBlanks (formatted.take 2047))) := by
  have hsub : (skipBlanks (formatted.take 2047)).Sublist formatted :=
    (List.dropWhile_sublist _).trans (List.take_sublist ..)
  have hlen : (skipBlanks (formatted.take 2047)).length < 2048 := by
    have hskip := (List.dropWhile_sublist (fun b : UInt8 => decide (b = 32))
      (l := formatted.take 2047)).length_le
    rw [List.length_take] at hskip
    unfold skipBlanks
    omega
  rw [addExecArgs_eq, addArgs_words (fun h => hnul (hsub.subset h))
    (fun h => hquote (hsub.subset h)) hlen]

/-- A name that is an argument as it stands, in an array with so much room for it. -/
structure OneArg (room : ℕ) (s : Bytes) : Prop where
  no_blank : 32 ∉ s
  no_quote : s.head? ≠ some 34
  fits : s.length ≤ room

instance (room : ℕ) (s : Bytes) : Decidable (OneArg room s) :=
  decidable_of_iff (32 ∉ s ∧ s.head? ≠ some 34 ∧ s.length ≤ room)
    ⟨fun h => ⟨h.1, h.2.1, h.2.2⟩, fun h => ⟨h.1, h.2, h.3⟩⟩

theorem skipBlanks_self {s : Bytes} (h : 32 ∉ s) : skipBlanks s = s := by
  cases s with
  | nil => rfl
  | cons b s =>
    have hb : b ≠ 32 := fun hb => h (by simp [hb])
    simp [skipBlanks, hb]

variable {u : Bytes}

/-- An option letter and the blank behind it. -/
def optionText (c : UInt8) : Bytes := [32, 45, c, 32]

theorem option_eq {c : UInt8} (hc : c ≠ 0 ∧ c ≠ 32) (hu : 0 ∉ u) :
    sshv2AddExecArgs a (optionText c ++ u) = do
      let args ← addArgs 2047 (skipBlanks (u.take 2043) ++
        0 :: a.cells.drop ((optionText c ++ u).take 2047 ++ [0]).length)
      return [45, c] :: args := by
  have htake : (optionText c ++ u).take 2047 = optionText c ++ u.take 2043 := rfl
  have hskip : skipBlanks (optionText c ++ u.take 2043) = [45, c] ++ 32 :: u.take 2043 := rfl
  have hnul : 0 ∉ [45, c] ++ 32 :: u.take 2043 := by
    have h0 : 0 ∉ u.take 2043 := fun h => hu (List.mem_of_mem_take h)
    simp [h0, Ne.symm hc.1]
  have hquote : ([45, c] ++ 32 :: u.take 2043).head? ≠ some 34 := by simp
  have hword : ([45, c] ++ 32 :: u.take 2043).takeWhile (· ≠ 32) = [45, c] := by simp [hc.2]
  have hrest : ([45, c] ++ 32 :: u.take 2043).dropWhile (· ≠ 32) = 32 :: u.take 2043 := by
    simp [hc.2]
  rw [addExecArgs_eq, htake, hskip, addArgs_text hnul hquote, if_pos (by simp), hword, hrest,
    List.drop_one, List.tail_cons]

/-- The name behind an option is an argument when it stands as one. -/
theorem option_one {c : UInt8} (hc : c ≠ 0 ∧ c ≠ 32) (hu : 0 ∉ u) (hone : OneArg 2043 u) :
    sshv2AddExecArgs a (optionText c ++ u) = .ok [[45, c], u] := by
  rw [option_eq hc hu, List.take_of_length_le hone.fits, skipBlanks_self hone.no_blank,
    addArgs_text hu hone.no_quote, if_neg hone.no_blank]
  rfl

theorem option_first {c : UInt8} {args : List Bytes} (hc : c ≠ 0 ∧ c ≠ 32) (hu : 0 ∉ u)
    (h : sshv2AddExecArgs a (optionText c ++ u) = .ok args) :
    ∃ arg rest, args = [45, c] :: arg :: rest ∧ (arg = u → OneArg 2043 u) := by
  rw [option_eq hc hu] at h
  obtain ⟨args, hargs, h⟩ := CRun.bind_eq_ok.mp h
  obtain rfl := Except.ok.inj h
  have hsub : (skipBlanks (u.take 2043)).Sublist u :=
    (List.dropWhile_sublist _).trans (List.take_sublist ..)
  obtain ⟨arg, rest, rfl, hplain, hquoted⟩ := addArgs_first (fun h0 => hu (hsub.subset h0)) hargs
  refine ⟨arg, rest, rfl, ?_⟩
  rintro rfl
  by_cases hquote : (skipBlanks (arg.take 2043)).head? = some 34
  · obtain ⟨hbegins, -⟩ := hquoted hquote
    have hlen := hbegins.length_le
    have hpos : 0 < (skipBlanks (arg.take 2043)).length := by
      cases hskip : skipBlanks (arg.take 2043) with
      | nil => simp [hskip] at hquote
      | cons _ _ => simp
    have hle := hsub.length_le
    rw [List.length_drop] at hlen
    omega
  · have harg := hplain hquote
    have hblank : 32 ∉ arg := by
      intro hmem
      rw [harg] at hmem
      simpa using List.mem_takeWhile_imp hmem
    have hshort : arg.length ≤ 2043 := by
      have hskip := skipBlanks_self (fun h => hblank (List.mem_of_mem_take h) : 32 ∉ arg.take 2043)
      rw [hskip] at harg
      have hlen := congrArg List.length harg
      have hle := (List.takeWhile_sublist (fun b : UInt8 => decide (b ≠ 32))
        (l := arg.take 2043)).length_le
      rw [List.length_take] at hle
      omega
    rw [List.take_of_length_le hshort, skipBlanks_self hblank] at hquote
    exact ⟨hblank, hquote, hshort⟩

/-- Text behind a quote is not the text that begins with the quote. -/
theorem not_quoted {h front tail : Bytes} (hfront : front <+: h ++ tail) (htail : 34 ∉ tail)
    (hhead : tail.head? ≠ some 34) (hquote : (skipBlanks front).head? = some 34)
    (harg : h <+: (skipBlanks front).drop 1) (hone : 34 ∉ h.drop 1) : False := by
  have hmem : 34 ∈ h := by
    have hall := hfront.subset (mem_of_mem_skipBlanks (List.mem_of_head? hquote))
    exact (List.mem_append.mp hall).resolve_right htail
  cases h with
  | nil => simp at hmem
  | cons b h =>
    have hb : 34 = b := (List.mem_cons.mp hmem).resolve_right hone
    subst hb
    cases front with
    | nil => simp [skipBlanks] at hquote
    | cons c front =>
      rw [List.cons_append] at hfront
      obtain ⟨rfl, hbehind⟩ := List.cons_prefix_cons.mp hfront
      have hskip : skipBlanks (34 :: front) = 34 :: front := rfl
      rw [hskip] at harg
      have hnext : (h ++ tail).head? = some 34 := by
        obtain ⟨rest, hrest⟩ := List.IsPrefix.trans harg hbehind
        rw [← hrest]
        rfl
      cases h with
      | nil => exact hhead hnext
      | cons d h =>
        have hd : d = 34 := Option.some.inj hnext
        exact hone (by simp [hd])

theorem host_first {args : List Bytes} {h tail : Bytes} (hh : 0 ∉ h) (htail : 0 ∉ tail)
    (hquote : 34 ∉ tail) (hblank : tail.head? = some 32)
    (hadd : sshv2AddExecArgs a (ascii " " ++ h ++ tail) = .ok args) :
    ∃ arg rest, args = arg :: rest ∧ (arg = h → h ≠ [] → OneArg 2046 h) := by
  have htake : (ascii " " ++ h ++ tail).take 2047 = 32 :: (h ++ tail).take 2046 := rfl
  have hskip : skipBlanks (32 :: (h ++ tail).take 2046) = skipBlanks ((h ++ tail).take 2046) := rfl
  have hsub : (skipBlanks ((h ++ tail).take 2046)).Sublist (h ++ tail) :=
    (List.dropWhile_sublist _).trans (List.take_sublist ..)
  have hnul : 0 ∉ skipBlanks ((h ++ tail).take 2046) := by
    intro h0
    rcases List.mem_append.mp (hsub.subset h0) with h0 | h0
    · exact hh h0
    · exact htail h0
  rw [addExecArgs_eq, htake, hskip] at hadd
  obtain ⟨arg, rest, rfl, hplain, hquoted⟩ := addArgs_first hnul hadd
  refine ⟨arg, rest, rfl, ?_⟩
  rintro rfl hne
  by_cases hq : (skipBlanks ((arg ++ tail).take 2046)).head? = some 34
  · obtain ⟨hbegins, hone⟩ := hquoted hq
    have hhead : tail.head? ≠ some 34 := by simp [hblank]
    exact (not_quoted (List.take_prefix ..) hquote hhead hq hbegins hone).elim
  · have harg := hplain hq
    have hplainArg : 32 ∉ arg := by
      intro hmem
      rw [harg] at hmem
      simpa using List.mem_takeWhile_imp hmem
    have hshort : arg.length ≤ 2046 := by
      have hlen := congrArg List.length harg
      have h1 := (List.takeWhile_sublist (fun b : UInt8 => decide (b ≠ 32))
        (l := skipBlanks ((arg ++ tail).take 2046))).length_le
      have h2 := (List.dropWhile_sublist (fun b : UInt8 => decide (b = 32))
        (l := (arg ++ tail).take 2046)).length_le
      rw [List.length_take] at h2
      simp only [skipBlanks] at h1 hlen
      omega
    refine ⟨hplainArg, ?_, hshort⟩
    cases arg with
    | nil => exact absurd rfl hne
    | cons b rest =>
      have hb : b ≠ 32 := fun hb => hplainArg (by simp [hb])
      simpa [skipBlanks, hb] using hq

/-- What is left of the text behind a host name without blanks. -/
theorem host_args {h : Bytes} (hh : 0 ∉ h) (hne : h ≠ []) (hone : OneArg 2046 h) :
    sshv2AddExecArgs a (ascii " " ++ h ++ ascii " -s sftp") =
      if h.length = 2046 then .ok [h]
      else .ok (h :: words 2047 (skipBlanks ((ascii "-s sftp").take (2045 - h.length)))) := by
  have htake : (ascii " " ++ h ++ ascii " -s sftp").take 2047 =
      32 :: (h ++ (ascii " -s sftp").take (2046 - h.length)) := by
    have hcut : (ascii " " ++ h ++ ascii " -s sftp").take 2047 =
        32 :: (h ++ ascii " -s sftp").take 2046 := rfl
    rw [hcut, List.take_append, List.take_of_length_le hone.fits]
  have hskip : ∀ rest, skipBlanks (32 :: (h ++ rest)) = h ++ rest := by
    intro rest
    cases h with
    | nil => exact absurd rfl hne
    | cons b h =>
      have hb : b ≠ 32 := fun hb => hone.no_blank (by simp [hb])
      simp [skipBlanks, hb]
  have hhead : ∀ rest, (h ++ rest).head? ≠ some 34 := by
    intro rest
    cases h with
    | nil => exact absurd rfl hne
    | cons b h => exact hone.no_quote
  have htail : ∀ k, 0 ∉ (ascii "-s sftp").take k ∧ 34 ∉ (ascii "-s sftp").take k := by
    intro k
    have hnot : 0 ∉ ascii "-s sftp" ∧ 34 ∉ ascii "-s sftp" := by decide
    exact ⟨fun h => hnot.1 (List.mem_of_mem_take h), fun h => hnot.2 (List.mem_of_mem_take h)⟩
  rw [addExecArgs_eq, htake, hskip]
  by_cases hfull : h.length = 2046
  · rw [if_pos hfull, hfull]
    simp only [Nat.sub_self, List.take_zero, List.append_nil]
    rw [addArgs_text hh hone.no_quote, if_neg hone.no_blank]
  · obtain ⟨k, hk⟩ : ∃ k, 2046 - h.length = k + 1 := ⟨2045 - h.length, by have := hone.fits; omega⟩
    have hk' : 2045 - h.length = k := by omega
    have hcut : (ascii " -s sftp").take (k + 1) = 32 :: (ascii "-s sftp").take k := rfl
    have hword : (h ++ 32 :: (ascii "-s sftp").take k).takeWhile (· ≠ 32) = h := by
      rw [List.takeWhile_append_of_pos (fun b hb => by
        simpa using fun hb32 : b = 32 => hone.no_blank (hb32 ▸ hb))]
      simp
    have hrest : (h ++ 32 :: (ascii "-s sftp").take k).dropWhile (· ≠ 32) =
        32 :: (ascii "-s sftp").take k := by
      rw [List.dropWhile_append_of_pos (fun b hb => by
        simpa using fun hb32 : b = 32 => hone.no_blank (hb32 ▸ hb))]
      simp
    have hnul : 0 ∉ h ++ 32 :: (ascii "-s sftp").take k := by
      simp [hh, (htail k).1]
    have hsub : (skipBlanks ((ascii "-s sftp").take k)).Sublist ((ascii "-s sftp").take k) :=
      List.dropWhile_sublist _
    have hlen : (skipBlanks ((ascii "-s sftp").take k)).length < 2047 := by
      have hle := hsub.length_le.trans (List.length_take_le' ..)
      have hseven : (ascii "-s sftp").length = 7 := by decide
      omega
    rw [if_neg hfull, hk, hcut, hk', addArgs_text hnul (hhead _), if_pos (by simp), hword, hrest,
      List.drop_one, List.tail_cons, addArgs_words (fun h0 => (htail k).1 (hsub.subset h0))
      (fun h0 => (htail k).2 (hsub.subset h0)) hlen]
    rfl

theorem host_exact_iff {h : Bytes} (hh : 0 ∉ h) :
    sshv2AddExecArgs a (ascii " " ++ h ++ ascii " -s sftp") = .ok [h, ascii "-s", ascii "sftp"] ↔
      h ≠ [] ∧ OneArg 2038 h := by
  constructor
  · intro hadd
    have hne : h ≠ [] := by
      rintro rfl
      rw [addExecArgs_words (by decide) (by decide)] at hadd
      exact absurd (Except.ok.inj hadd) (by decide)
    obtain ⟨arg, rest, hargs, hone⟩ := host_first hh (by decide) (by decide) rfl hadd
    have hone := hone (List.cons.inj hargs).1.symm hne
    rw [host_args hh hne hone] at hadd
    refine ⟨hne, hone.no_blank, hone.no_quote, ?_⟩
    split at hadd
    · simp at hadd
    · by_contra hlong
      have hcut : ∀ k, k < 7 → words 2047 (skipBlanks ((ascii "-s sftp").take k)) ≠
          [ascii "-s", ascii "sftp"] := by decide
      have hfits := hone.fits
      exact hcut (2045 - h.length) (by omega) (List.cons.inj (Except.ok.inj hadd)).2
  · intro ⟨hne, hone⟩
    have hfits := hone.fits
    have htake : (ascii "-s sftp").take (2045 - h.length) = ascii "-s sftp" := by
      apply List.take_of_length_le
      have hseven : (ascii "-s sftp").length = 7 := by decide
      omega
    rw [host_args hh hne ⟨hone.no_blank, hone.no_quote, by omega⟩, if_neg (by omega), htake]
    rfl

theorem natDigits_length_le {n : ℕ} (hn : n < 10 ^ 10) : (natDigits n).length ≤ 10 := by
  unfold natDigits
  split
  · decide
  · rw [List.length_reverse, List.length_map]
    exact (Nat.digits_length_le_iff (by decide) n).mpr hn

theorem portText_one (port : UInt32) : 0 ∉ portText port ∧ OneArg 2043 (portText port) := by
  have hnone : ∀ b : UInt8, b < 45 → b ∉ portText port := by
    intro b hb hmem
    rcases decimal_all _ b hmem with rfl | hdigit
    · exact absurd hb (by decide)
    · have hle : 48 ≤ b := (of_decide_eq_true hdigit).1
      have h1 := UInt8.lt_iff_toNat_lt.mp hb
      have h2 := UInt8.le_iff_toNat_le.mp hle
      have h45 : (45 : UInt8).toNat = 45 := rfl
      have h48 : (48 : UInt8).toNat = 48 := rfl
      omega
  refine ⟨hnone 0 (by decide), hnone 32 (by decide), ?_, ?_⟩
  · intro hhead
    exact hnone 34 (by decide) (List.mem_of_head? hhead)
  · have hsmall : (Int.bmod port.toNat (2 ^ 32)).natAbs < 10 ^ 10 := by
      have hport := port.toNat_lt
      rw [Int.bmod_def]
      split <;> omega
    have hlen := natDigits_length_le hsmall
    unfold portText decimal
    split
    · rw [List.length_cons]
      omega
    · omega

theorem portText_eq_iff (port : UInt32) :
    portText port = natDigits port.toNat ↔ port.toNat < 2 ^ 31 := by
  have hport := port.toNat_lt
  constructor
  · intro htext
    by_contra hlarge
    have hneg : Int.bmod port.toNat (2 ^ 32) < 0 := by
      rw [Int.bmod_def]
      split <;> omega
    have hsign : 45 ∈ natDigits port.toNat := by
      rw [← htext, portText, decimal, if_pos hneg]
      exact List.mem_cons_self ..
    exact absurd (natDigits_all port.toNat 45 hsign) (by decide)
  · intro hsmall
    have hsame : Int.bmod port.toNat (2 ^ 32) = port.toNat := by
      rw [Int.bmod_def]
      split <;> omega
    rw [portText, hsame, decimal, if_neg (by omega), Int.natAbs_natCast]

end Parts

/-- The arguments as they are meant: each name is one of them. -/
def execArgs (sshProgName username : CString) (port : UInt32) (hostname : CString) : List Bytes :=
  (if sshProgName.bytes = [] then ascii "ssh" else sshProgName.bytes) ::
    [ascii "-e", ascii "none"] ++
    (if username.bytes = [] then [] else [ascii "-l", username.bytes]) ++
    [ascii "-p", natDigits port.toNat, hostname.bytes, ascii "-s", ascii "sftp"]

/-- The vector is the one that is meant exactly for names that have no blank, do not begin with
a quote and fit the array, a host name that is not empty, and a port that fits an int. -/
theorem exec_args_exact_iff (arrays : ℕ → StackArray) (sshProgName username : CString)
    (port : UInt32) (hostname : CString) :
    sshv2GenExecArgs arrays sshProgName ⟨[], by decide⟩ username port hostname =
        .ok (execArgs sshProgName username port hostname) ↔
      (username.bytes ≠ [] → OneArg 2043 username.bytes) ∧
        hostname.bytes ≠ [] ∧ OneArg 2038 hostname.bytes ∧ port.toNat < 2 ^ 31 := by
  obtain ⟨hportNul, hportOne⟩ := portText_one port
  have hescape : sshv2AddExecArgs (arrays 1) (ascii " -e none") = .ok [ascii "-e", ascii "none"] :=
    addExecArgs_words (by decide) (by decide)
  have hport : sshv2AddExecArgs (arrays 3) (ascii " -p " ++ portText port) =
      .ok [ascii "-p", portText port] := option_one (c := 112) (by decide) hportNul hportOne
  have hhost := host_exact_iff (a := arrays 4) hostname.nul_free
  have hnul := username.nul_free
  simp only [sshv2GenExecArgs, execArgs, if_true, pure_bind, hescape, hport, CRun.ok_bind]
  constructor
  · intro hrun
    by_cases hempty : username.bytes = []
    · rw [if_pos hempty, if_pos hempty] at hrun
      obtain ⟨host, hargs, hrun⟩ := CRun.bind_eq_ok.mp hrun
      simp only [pure, Except.pure, Except.ok.injEq, List.cons_append, List.nil_append,
        List.cons.injEq, true_and] at hrun
      obtain ⟨hsame, rfl⟩ := hrun
      obtain ⟨hne, hone⟩ := hhost.mp hargs
      exact ⟨fun h => absurd hempty h, hne, hone, (portText_eq_iff port).mp hsame⟩
    · rw [if_neg hempty, if_neg hempty] at hrun
      obtain ⟨login, hlogin, hrun⟩ := CRun.bind_eq_ok.mp hrun
      obtain ⟨host, hargs, hrun⟩ := CRun.bind_eq_ok.mp hrun
      obtain ⟨arg, rest, rfl, hfirst⟩ := option_first (c := 108) (by decide) hnul hlogin
      simp only [pure, Except.pure, Except.ok.injEq, List.append_assoc, List.cons_append,
        List.nil_append, List.cons.injEq, true_and] at hrun
      obtain ⟨-, hsame, hrun⟩ := hrun
      have hone := hfirst hsame
      have hexact : sshv2AddExecArgs (arrays 2) (ascii " -l " ++ username.bytes) =
          .ok [ascii "-l", username.bytes] := option_one (c := 108) (by decide) hnul hone
      obtain rfl : rest = [] := by
        have hsame := Except.ok.inj (hlogin.symm.trans hexact)
        exact (List.cons.inj (List.cons.inj hsame).2).2
      simp only [List.nil_append, List.cons.injEq, true_and] at hrun
      obtain ⟨htext, rfl⟩ := hrun
      obtain ⟨hne, honeHost⟩ := hhost.mp hargs
      exact ⟨fun _ => hone, hne, honeHost, (portText_eq_iff port).mp htext⟩
  · intro ⟨hone, hne, honeHost, hsmall⟩
    have hhostArgs := hhost.mpr ⟨hne, honeHost⟩
    have htext := (portText_eq_iff port).mpr hsmall
    by_cases hempty : username.bytes = []
    · simp only [if_pos hempty, hhostArgs, htext, CRun.ok_bind]
      rfl
    · have hexact : sshv2AddExecArgs (arrays 2) (ascii " -l " ++ username.bytes) =
          .ok [ascii "-l", username.bytes] := option_one (c := 108) (by decide) hnul (hone hempty)
      simp only [if_neg hempty, hexact, hhostArgs, htext, CRun.ok_bind]
      rfl

set_option maxRecDepth 10000 in
/-- A user name with a blank becomes two arguments. -/
theorem blank_splits_username :
    ¬ ∀ (arrays : ℕ → StackArray) (sshProgName username : CString) (port : UInt32)
      (hostname : CString),
      sshv2GenExecArgs arrays sshProgName ⟨[], by decide⟩ username port hostname =
        .ok (execArgs sshProgName username port hostname) := by
  intro h
  have hblank := h (fun _ => ⟨List.replicate 2048 0, List.length_replicate ..⟩) ⟨[], by decide⟩
    ⟨ascii "a b", by decide⟩ 22 ⟨ascii "h", by decide⟩
  exact absurd hblank (by decide)

end Gftp.SshExecArgs
