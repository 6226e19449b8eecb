import Mathlib.Data.Nat.Digits.Lemmas
import Gftp.Comments
import Gftp.OptionValues

/-!
The texts of the options. What an option writes is read back as its value. An option that
writes nothing leaves the buffer as it was, and what is read then depends on that.
-/

namespace Gftp.OptionTexts

open ByteStrings Decimal Hexadecimal PeerCheck TextFiles Comments OptionTables OptionValues

section Colors

theorem hexDigit_digit {d : ℕ} (h : d < 16) :
    isHexDigit (hexDigit d) = true ∧ hexDigitValue (hexDigit d) = d := by
  have hall : ∀ d < 16, isHexDigit (hexDigit d) = true ∧ hexDigitValue (hexDigit d) = d := by decide
  exact hall d h

theorem hexNat_all (n : ℕ) : ∀ b ∈ hexNat n, isHexDigit b = true := by
  unfold hexNat
  split
  · simp [isHexDigit, isDigit]
  · intro b hb
    obtain ⟨d, hd, rfl⟩ := List.mem_map.mp (List.mem_reverse.mp hb)
    exact (hexDigit_digit (Nat.digits_lt_base (by decide) hd)).1

theorem hexNat_ne_nil (n : ℕ) : hexNat n ≠ [] := by
  unfold hexNat
  split
  · simp
  · rename_i h
    simp [Nat.digits_ne_nil_iff_ne_zero.mpr h]

theorem hexValue_hexNat (n : ℕ) : hexValue (hexNat n) = n := by
  unfold hexNat
  split
  · rename_i h
    rw [h]
    decide
  · have hfold : ∀ l : List ℕ, (∀ d ∈ l, d < 16) →
        hexValue ((l.map hexDigit).reverse) = Nat.ofDigits 16 l := by
      intro l hl
      induction l with
      | nil => rfl
      | cons d l ih =>
        have hd := (hexDigit_digit (hl d (List.mem_cons_self ..))).2
        have hrest := ih fun x hx => hl x (List.mem_cons_of_mem _ hx)
        unfold hexValue at hrest ⊢
        rw [List.map_cons, List.reverse_cons, List.foldl_append, hrest, List.foldl_cons,
          List.foldl_nil, hd, Nat.ofDigits_cons]
        omega
    rw [hfold _ fun d hd => Nat.digits_lt_base (by decide) hd, Nat.ofDigits_digits]

theorem strtolHex_hexNat {n : ℕ} (h : n < 2 ^ 63) : strtolHex (hexNat n) = n := by
  obtain ⟨d, ds, hcons⟩ := List.exists_cons_of_ne_nil (hexNat_ne_nil n)
  obtain ⟨hspace, hminus, hplus, -⟩ := isHexDigit_cases (hexNat_all n d (by rw [hcons]; simp))
  have hdigits : hexDigits (hexNat n) = hexNat n := by
    have happend : hexDigits (hexNat n ++ []) = hexNat n :=
      hexDigits_append (hexNat_ne_nil n) (hexNat_all n) nofun
    rwa [List.append_nil] at happend
  have hdrop : (hexNat n).dropWhile isSpace = hexNat n := by
    rw [hcons, List.dropWhile_cons_of_neg (by simp [hspace])]
  unfold strtolHex
  rw [hdrop]
  split
  · rename_i tail heq
    rw [hcons] at heq
    exact absurd (List.cons.inj heq).1 hminus
  · rename_i tail heq
    rw [hcons] at heq
    exact absurd (List.cons.inj heq).1 hplus
  · rw [hdigits, hexValue_hexNat, clampLong_eq (by omega) (by omega)]

theorem hexNat_noColon (n : ℕ) : ∀ b ∈ hexNat n, b ≠ 58 ∧ b ≠ 92 := by
  intro b hb
  have hdigit := hexNat_all n b hb
  refine ⟨?_, ?_⟩ <;> rintro rfl <;> exact absurd hdigit (by decide)

theorem cutColon_field {field : Bytes} (h : ∀ b ∈ field, b ≠ 58 ∧ b ≠ 92) {prev : UInt8}
    (hprev : prev ≠ 92) (rest : Bytes) :
    cutColon prev (field ++ 58 :: rest) = some (field, false, rest) := by
  induction field generalizing prev with
  | nil => simp [cutColon, hprev]
  | cons c field ih =>
    obtain ⟨⟨hcolon, hslash⟩, hfield⟩ := List.forall_mem_cons.mp h
    rw [List.cons_append, cutColon, if_neg (fun hand => hcolon hand.1), ih hfield hslash]
    simp [hcolon]

theorem readColor_writeColor (c : Color) : readColor (writeColor c) = .ok (.color c) := by
  have hshort (n : UInt16) : toUshort (strtolHex (hexNat n.toNat)) = n := by
    have hlt := n.toNat_lt
    rw [strtolHex_hexNat (by omega), toUshort, Int.emod_eq_of_lt (by omega) (by omega),
      Int.toNat_natCast]
    exact UInt16.ofNat_toNat
  have hargs : gftpConfigParseArgs 3 (writeColor c) =
      .ok [hexNat c.red.toNat, hexNat c.green.toNat, hexNat c.blue.toNat] := by
    have hform : writeColor c =
        hexNat c.red.toNat ++ 58 :: (hexNat c.green.toNat ++ 58 :: hexNat c.blue.toNat) := by
      simp [writeColor]
    have hzero : (0 : UInt8) ≠ 92 := by decide
    rw [hform, gftpConfigParseArgs, cutColon_field (hexNat_noColon _) hzero]
    show (gftpConfigParseArgs 2 _ >>= fun others => pure (hexNat c.red.toNat :: others)) = _
    rw [gftpConfigParseArgs, cutColon_field (hexNat_noColon _) hzero]
    rfl
  rw [readColor, hargs, CRun.ok_bind]
  simp only [hshort]
  rfl

end Colors

section Texts

/-- The types whose text is any text of the user. -/
def freeText : OptionType → Bool
  | .text | .textcomboedt | .hidetext => true
  | _ => false

/-- What an option writes, none when it leaves the buffer as it is. -/
def ownText (F : Floats) (cv : OptionVar) (value : Setting) : Option Bytes :=
  match cv.otype, value with
  | .hidetext, .text t => if t = some [] then none else t
  | .text, .text t | .textcombo, .text t | .textcomboedt, .text t => t
  | .int, .word n | .checkbox, .word n => some (decimal n.toInt32.toInt)
  | .intcombo, .word n => cv.listdata[n.toInt32.toInt.toNat]?
  | .float, .word n => some (F.write n)
  | .color, .color c => some (writeColor c)
  | _, _ => none

/-- A value of the type of the option. The line of a text fits the buffer of the reader. -/
def Assigned (cv : OptionVar) (value : Setting) : Prop :=
  match cv.otype with
  | .text | .textcomboedt | .hidetext => ∃ t, value = .text t ∧ ∀ s ∈ t, LineOk (cv.key ++ 61 :: s)
  | .textcombo => ∃ t, value = .text t ∧ ∀ s ∈ t, s ∈ cv.listdata
  | .int | .float => ∃ n, value = .word n
  | .checkbox => ∃ n, value = .word n ∧ (n.toInt32 = 0 ∨ n.toInt32 = 1)
  | .intcombo => ∃ n, value = .word n ∧ 0 ≤ n.toInt32.toInt ∧
      n.toInt32.toInt.toNat < cv.listdata.length
  | .color => ∃ c, value = .color c
  | .notebook => False

/-- The value has been read back. Numbers are used as int, a text that is not set is the same as
an empty one, and floats do not count. -/
def Restores (otype : OptionType) : Setting → Setting → Prop
  | .text t, .text t' => t.getD [] = t'.getD []
  | .word m, .word n => otype = .float ∨ m.toInt32 = n.toInt32
  | .color c, .color c' => c = c'
  | _, _ => False

/-- What printf writes for a float is a short text without control characters. -/
def FloatsFit (F : Floats) : Prop :=
  ∀ n, (∀ b ∈ F.write n, b ≠ 0 ∧ b ≠ 10 ∧ b ≠ 13) ∧ (F.write n).length ≤ 100

/-- What holds of the keys and the lists of the options. -/
structure Registered (cv : OptionVar) : Prop where
  type : cv.otype ≠ .notebook
  key : cv.key ≠ [] ∧ cv.key.head? ≠ some 35 ∧ ∀ b ∈ cv.key, b ≠ 0 ∧ b ≠ 10 ∧ b ≠ 61
  short : cv.key.length ≤ 40
  list : ∀ entry ∈ cv.listdata, (∀ b ∈ entry, b ≠ 0 ∧ b ≠ 10 ∧ b ≠ 13) ∧ entry.length ≤ 100
  distinct : cv.listdata.Pairwise fun entry entry' => ¬ caseEq entry entry'

variable {F : Floats} {cv : OptionVar} {value : Setting} {t : Bytes}

theorem natDigits_length {n k : ℕ} (hk : 0 < k) (h : n < 10 ^ k) : (natDigits n).length ≤ k := by
  unfold natDigits
  split
  · exact hk
  · rw [List.length_reverse, List.length_map]
    exact (Nat.digits_length_le_iff (by decide) n).mpr h

theorem decimal_int (n : Int32) :
    (∀ b ∈ decimal n.toInt, b ≠ 0 ∧ b ≠ 10 ∧ b ≠ 13) ∧ (decimal n.toInt).length ≤ 100 := by
  have hlow := n.le_toInt
  have hhigh := n.toInt_lt
  have hdigits := natDigits_length (by decide : 0 < 10) (show n.toInt.natAbs < 10 ^ 10 by omega)
  refine ⟨fun b hb => ?_, ?_⟩
  · rcases decimal_all _ b hb with rfl | hdigit
    · decide
    · refine ⟨?_, ?_, ?_⟩ <;> rintro rfl <;> exact absurd hdigit (by decide)
  · unfold decimal
    split_ifs
    · rw [List.length_cons]
      omega
    · omega

theorem color_text (c : Color) :
    (∀ b ∈ writeColor c, b ≠ 0 ∧ b ≠ 10 ∧ b ≠ 13) ∧ (writeColor c).length ≤ 100 := by
  have hlen (n : UInt16) : (hexNat n.toNat).length ≤ 4 := by
    unfold hexNat
    split
    · exact (by decide : [(48 : UInt8)].length ≤ 4)
    · rw [List.length_reverse, List.length_map]
      exact (Nat.digits_length_le_iff (by decide) _).mpr n.toNat_lt
  have hbytes (n : UInt16) : ∀ b ∈ hexNat n.toNat, b ≠ 0 ∧ b ≠ 10 ∧ b ≠ 13 := by
    intro b hb
    obtain ⟨-, -, -, -, -, hnul, hcr, hfeed⟩ := isHexDigit_cases (hexNat_all _ b hb)
    exact ⟨hnul, hfeed, hcr⟩
  refine ⟨fun b hb => ?_, ?_⟩
  · simp only [writeColor, List.mem_append, List.mem_cons] at hb
    rcases hb with (hred | rfl | hgreen) | rfl | hblue
    · exact hbytes _ b hred
    · decide
    · exact hbytes _ b hgreen
    · decide
    · exact hbytes _ b hblue
  · have hred := hlen c.red
    have hgreen := hlen c.green
    have hblue := hlen c.blue
    simp only [writeColor, List.length_append, List.length_cons]
    omega

theorem Registered.lineOk (h : Registered cv) (hfeed : 10 ∉ t) (hnul : 0 ∉ t)
    (hlen : cv.key.length + t.length < 253) : LineOk (cv.key ++ 61 :: t) := by
  obtain ⟨-, -, hkey⟩ := h.key
  refine ⟨⟨fun hmem => ?_, ?_⟩, fun hmem => ?_⟩
  · rcases List.mem_append.mp hmem with hmem | hmem
    · exact (hkey _ hmem).2.1 rfl
    · exact hfeed (List.mem_of_ne_of_mem (by decide) hmem)
  · rw [List.length_append, List.length_cons]
    omega
  · rcases List.mem_append.mp hmem with hmem | hmem
    · exact (hkey _ hmem).1 rfl
    · exact hnul (List.mem_of_ne_of_mem (by decide) hmem)

/-- A short text without control characters fits its line. -/
theorem Registered.line (h : Registered cv) (ht : ∀ b ∈ t, b ≠ 0 ∧ b ≠ 10 ∧ b ≠ 13)
    (hlen : t.length ≤ 100) : LineOk (cv.key ++ 61 :: t) := by
  have hshort := h.short
  exact h.lineOk (fun hmem => (ht 10 hmem).2.1 rfl) (fun hmem => (ht 0 hmem).1 rfl) (by omega)

/-- What an option writes fits its line, and only a text of the user can hold a carriage
return. -/
theorem ownText_fits (hF : FloatsFit F) (h : Registered cv) (hvalue : Assigned cv value)
    (ht : ownText F cv value = some t) :
    LineOk (cv.key ++ 61 :: t) ∧ (freeText cv.otype = false → ∀ b ∈ t, b ≠ 0 ∧ b ≠ 10 ∧ b ≠ 13) := by
  have hplain : ((∀ b ∈ t, b ≠ 0 ∧ b ≠ 10 ∧ b ≠ 13) ∧ t.length ≤ 100) →
      LineOk (cv.key ++ 61 :: t) ∧
        (freeText cv.otype = false → ∀ b ∈ t, b ≠ 0 ∧ b ≠ 10 ∧ b ≠ 13) :=
    fun hplain => ⟨h.line hplain.1 hplain.2, fun _ => hplain.1⟩
  cases htype : cv.otype <;> simp only [Assigned, htype] at hvalue
  case text | textcomboedt =>
    obtain ⟨text, rfl, hline⟩ := hvalue
    simp only [ownText, htype] at ht
    exact ⟨hline t ht, nofun⟩
  case hidetext =>
    obtain ⟨text, rfl, hline⟩ := hvalue
    simp only [ownText, htype] at ht
    split at ht
    · exact absurd ht nofun
    · exact ⟨hline t ht, nofun⟩
  case textcombo =>
    obtain ⟨text, rfl, hlist⟩ := hvalue
    simp only [ownText, htype] at ht
    exact htype ▸ hplain (h.list t (hlist t ht))
  case int | checkbox =>
    obtain ⟨n, hn⟩ := hvalue
    obtain rfl : value = .word n := by tauto
    simp only [ownText, htype, Option.some.injEq] at ht
    exact htype ▸ hplain (ht ▸ decimal_int n.toInt32)
  case intcombo =>
    obtain ⟨n, rfl, -, -⟩ := hvalue
    simp only [ownText, htype] at ht
    exact htype ▸ hplain (h.list t (List.mem_of_getElem? ht))
  case float =>
    obtain ⟨n, rfl⟩ := hvalue
    simp only [ownText, htype, Option.some.injEq] at ht
    exact htype ▸ hplain (ht ▸ hF n)
  case color =>
    obtain ⟨c, rfl⟩ := hvalue
    simp only [ownText, htype, Option.some.injEq] at ht
    exact htype ▸ hplain (ht ▸ color_text c)

theorem writeFunction_eq (hF : FloatsFit F) (h : Registered cv) (hvalue : Assigned cv value)
    (buf : Option Bytes) :
    writeFunction F cv value buf = .ok ((ownText F cv value).or buf) := by
  have hprinted {t : Bytes} (ht : ownText F cv value = some t) : printed t = some t := by
    have hline := (ownText_fits hF h hvalue ht).1.1.2
    rw [List.length_append, List.length_cons] at hline
    rw [printed, List.take_of_length_le (by omega)]
  cases htype : cv.otype <;> simp only [Assigned, htype] at hvalue
  case text | textcomboedt | textcombo =>
    obtain ⟨text, rfl, -⟩ := hvalue
    cases text with
    | none => simp [pure, Except.pure, writeFunction, ownText, htype]
    | some t =>
      have hown : ownText F cv (.text (some t)) = some t := by simp [ownText, htype]
      simp [pure, Except.pure, writeFunction, htype, hown, hprinted hown]
  case hidetext =>
    obtain ⟨text, rfl, -⟩ := hvalue
    cases text with
    | none => simp [pure, Except.pure, writeFunction, ownText, htype]
    | some t =>
      rcases eq_or_ne t [] with rfl | hne
      · simp [pure, Except.pure, writeFunction, ownText, htype]
      · have hown : ownText F cv (.text (some t)) = some t := by simp [ownText, htype, hne]
        simp [pure, Except.pure, writeFunction, htype, hown, hprinted hown, hne]
  case int | checkbox =>
    obtain ⟨n, hn⟩ := hvalue
    obtain rfl : value = .word n := by tauto
    have hown : ownText F cv (.word n) = some (decimal n.toInt32.toInt) := by
      simp only [ownText, htype]
    simp only [writeFunction, htype, hown, hprinted hown]
    rfl
  case intcombo =>
    obtain ⟨n, rfl, hpos, hlt⟩ := hvalue
    have hentry := List.getElem?_eq_getElem hlt
    have hown : ownText F cv (.word n) = some cv.listdata[n.toInt32.toInt.toNat] := by
      simp only [ownText, htype, hentry]
    have hlist : cv.listdata ≠ [] := List.ne_nil_of_length_pos (Nat.zero_lt_of_lt hlt)
    simp only [writeFunction, htype, if_neg hlist, if_neg (Int.not_lt.mpr hpos), hentry, hown,
      hprinted hown]
    rfl
  case float =>
    obtain ⟨n, rfl⟩ := hvalue
    have hown : ownText F cv (.word n) = some (F.write n) := by simp only [ownText, htype]
    simp only [writeFunction, htype, hown, hprinted hown]
    rfl
  case color =>
    obtain ⟨c, rfl⟩ := hvalue
    have hown : ownText F cv (.color c) = some (writeColor c) := by simp only [ownText, htype]
    simp only [writeFunction, htype, hown, hprinted hown]
    rfl

/-- The first entry that is the text but for the case of letters is that entry itself. -/
theorem findText_entry (h : Registered cv) {entry : Bytes} (hentry : entry ∈ cv.listdata) :
    findText cv.listdata entry = some entry := by
  have hfirst : ∀ l : List Bytes, (l.Pairwise fun entry entry' => ¬ caseEq entry entry') →
      entry ∈ l → findText l entry = some entry := by
    intro l hdistinct hmem
    induction l with
    | nil => exact absurd hmem nofun
    | cons first rest ih =>
      obtain ⟨hhead, hrest⟩ := List.pairwise_cons.mp hdistinct
      rcases List.mem_cons.mp hmem with rfl | hmem
      · exact List.find?_cons_of_pos (decide_eq_true rfl)
      · rw [findText, List.find?_cons_of_neg (by simpa using hhead entry hmem)]
        exact ih hrest hmem
  exact hfirst _ h.distinct hentry

theorem findIndex_entry (h : Registered cv) {i : ℕ} (hi : i < cv.listdata.length) :
    findIndex cv.listdata cv.listdata[i] = i := by
  have hfind : cv.listdata.findIdx? (fun entry => caseEq entry cv.listdata[i]) = some i := by
    apply List.findIdx?_eq_some_iff_getElem.mpr
    refine ⟨hi, decide_eq_true rfl, fun j hj => ?_⟩
    simpa using List.pairwise_iff_getElem.mp h.distinct j i (hj.trans hi) hi hj
  rw [findIndex, hfind]
  rfl

/-- The value that is read from the line of an option is its own one, but for a carriage return
at the end of a text. -/
theorem ownText_read (hF : FloatsFit F) (h : Registered cv) (hvalue : Assigned cv value)
    (ht : ownText F cv value = some t) :
    ∃ v, readFunction F cv (stripLast 13 t) = .ok v ∧
      (Restores cv.otype value v ↔ (freeText cv.otype = true → t.getLast? ≠ some 13)) := by
  have hkept : freeText cv.otype = false → stripLast 13 t = t := by
    intro hfree
    apply stripLast_eq_self.mpr
    intro hlast
    exact ((ownText_fits hF h hvalue ht).2 hfree 13 (List.mem_of_getLast? hlast)).2.2 rfl
  have hown : freeText cv.otype = false → (∃ v, readFunction F cv t = .ok v ∧
      Restores cv.otype value v) → ∃ v, readFunction F cv (stripLast 13 t) = .ok v ∧
        (Restores cv.otype value v ↔ (freeText cv.otype = true → t.getLast? ≠ some 13)) := by
    rintro hfree ⟨v, hread, hrestores⟩
    refine ⟨v, (hkept hfree).symm ▸ hread, fun _ htrue => ?_, fun _ => hrestores⟩
    exact absurd (hfree.symm.trans htrue) (by decide)
  cases htype : cv.otype <;> simp only [Assigned, htype] at hvalue
  case text | textcomboedt =>
    obtain ⟨text, rfl, -⟩ := hvalue
    simp only [ownText, htype] at ht
    subst ht
    refine ⟨.text (some (stripLast 13 t)), by simp only [readFunction, htype]; rfl, ?_⟩
    exact eq_comm.trans (stripLast_eq_self.trans ⟨fun hne _ => hne, fun hne => hne rfl⟩)
  case hidetext =>
    obtain ⟨text, rfl, -⟩ := hvalue
    simp only [ownText, htype] at ht
    split at ht
    · exact absurd ht nofun
    · subst ht
      refine ⟨.text (some (stripLast 13 t)), by simp only [readFunction, htype]; rfl, ?_⟩
      exact eq_comm.trans (stripLast_eq_self.trans ⟨fun hne _ => hne, fun hne => hne rfl⟩)
  case textcombo =>
    obtain ⟨text, rfl, hlist⟩ := hvalue
    simp only [ownText, htype] at ht
    subst ht
    refine htype ▸ hown (by rw [htype]; rfl) ⟨.text (some t), ?_, rfl⟩
    simp only [readFunction, htype, findText_entry h (hlist t rfl)]
    rfl
  case int =>
    obtain ⟨n, rfl⟩ := hvalue
    simp only [ownText, htype, Option.some.injEq] at ht
    refine htype ▸ hown (by rw [htype]; rfl) ⟨.word (Int64.ofInt (strtol t)), ?_, .inr ?_⟩
    · simp only [readFunction, htype]
      rfl
    · have hlow := n.toInt32.le_toInt
      have hhigh := n.toInt32.toInt_lt
      have hread : strtol (decimal n.toInt32.toInt ++ []) = n.toInt32.toInt :=
        strtol_decimal (by omega) (by omega) (by simp)
      rw [List.append_nil, ht] at hread
      rw [hread, Int64.ofInt_int32ToInt, Int32.toInt32_toInt64]
  case checkbox =>
    obtain ⟨n, rfl, hn⟩ := hvalue
    simp only [ownText, htype, Option.some.injEq] at ht
    refine htype ▸ hown (by rw [htype]; rfl) ⟨.word (if strtol t = 0 then 0 else 1), ?_, .inr ?_⟩
    · simp only [readFunction, htype]
      rfl
    · rcases hn with hn | hn
      · rw [hn] at ht ⊢
        obtain rfl : t = [48] := ht.symm.trans (by decide)
        decide
      · rw [hn] at ht ⊢
        obtain rfl : t = [49] := ht.symm.trans (by decide)
        decide
  case intcombo =>
    obtain ⟨n, rfl, hpos, hlt⟩ := hvalue
    simp only [ownText, htype] at ht
    obtain ⟨hi, hentry⟩ := List.getElem?_eq_some_iff.mp ht
    subst hentry
    refine htype ▸ hown (by rw [htype]; rfl) ⟨.word (Int64.ofNat n.toInt32.toInt.toNat), ?_, .inr ?_⟩
    · simp only [readFunction, htype, findIndex_entry h hlt]
      rfl
    · have hindex : Int64.ofNat n.toInt32.toInt.toNat = n.toInt32.toInt64 := by
        rw [← Int64.ofInt_eq_ofNat, Int.toNat_of_nonneg hpos, Int64.ofInt_int32ToInt]
      rw [hindex, Int32.toInt32_toInt64]
  case float =>
    obtain ⟨n, rfl⟩ := hvalue
    refine htype ▸ hown (by rw [htype]; rfl) ⟨.word (F.read t), ?_, .inl htype⟩
    simp only [readFunction, htype]
    rfl
  case color =>
    obtain ⟨c, rfl⟩ := hvalue
    simp only [ownText, htype, Option.some.injEq] at ht
    refine htype ▸ hown (by rw [htype]; rfl) ⟨.color c, ?_, rfl⟩
    simp only [readFunction, htype]
    exact ht ▸ readColor_writeColor c

theorem ownText_none (hvalue : Assigned cv value) (hnone : ownText F cv value = none) :
    freeText cv.otype = true ∨ cv.otype = .textcombo := by
  cases htype : cv.otype <;> simp only [Assigned, htype] at hvalue
  case text | textcomboedt | hidetext => exact .inl rfl
  case textcombo => exact .inr rfl
  case int | checkbox =>
    obtain ⟨n, hn⟩ := hvalue
    obtain rfl : value = .word n := by tauto
    simp only [ownText, htype] at hnone
    exact absurd hnone nofun
  case intcombo =>
    obtain ⟨n, rfl, -, hlt⟩ := hvalue
    simp only [ownText, htype, List.getElem?_eq_getElem hlt] at hnone
    exact absurd hnone nofun
  case float =>
    obtain ⟨n, rfl⟩ := hvalue
    simp only [ownText, htype] at hnone
    exact absurd hnone nofun
  case color =>
    obtain ⟨c, rfl⟩ := hvalue
    simp only [ownText, htype] at hnone
    exact absurd hnone nofun

/-- An option that writes nothing gets what was left in the buffer. -/
theorem leftText_read (hvalue : Assigned cv value) (hnone : ownText F cv value = none)
    (str : Bytes) :
    ∃ v, readFunction F cv str = .ok v ∧ (Restores cv.otype value v ↔
      if cv.otype = .textcombo then (findText cv.listdata str).getD [] = [] else str = []) := by
  cases htype : cv.otype <;> simp only [Assigned, htype] at hvalue
  case text | textcomboedt =>
    obtain ⟨text, rfl, -⟩ := hvalue
    simp only [ownText, htype] at hnone
    subst hnone
    exact ⟨.text (some str), by simp only [readFunction, htype]; rfl, eq_comm⟩
  case hidetext =>
    obtain ⟨text, rfl, -⟩ := hvalue
    have hempty : text.getD [] = [] := by
      simp only [ownText, htype] at hnone
      split at hnone
      · rename_i heq
        rw [heq]
        rfl
      · rw [hnone]
        rfl
    refine ⟨.text (some str), by simp only [readFunction, htype]; rfl, ?_⟩
    show text.getD [] = str ↔ str = []
    rw [hempty]
    exact eq_comm
  case textcombo =>
    obtain ⟨text, rfl, -⟩ := hvalue
    simp only [ownText, htype] at hnone
    subst hnone
    refine ⟨.text (findText cv.listdata str), by simp only [readFunction, htype]; rfl, ?_⟩
    exact eq_comm
  all_goals
    have hfree := @ownText_none F cv value (by simpa only [Assigned, htype]) hnone
    rw [htype] at hfree
    exact absurd hfree (by decide)

end Texts

end Gftp.OptionTexts
