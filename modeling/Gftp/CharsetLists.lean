import Gftp.ListingParsers
import Gftp.TextIndices

/-!
The list of charsets of a site. _gftp_get_next_charset takes one name off the list and moves the
cursor behind it. Behind the last name no comma follows, and one is taken off the length all
the same: the cursor then stands on the last byte and never reaches the terminator.
-/

namespace Gftp.CharsetLists

open ByteStrings TextPointers TextIndices ListingParsers

section Source

/-- The place an unsigned index is away from a cursor, in 64 bits. -/
def address (curpos : ℕ) (i : UInt64) : ℕ := (curpos + i.toNat) % 2 ^ 64

/-- The first place from i on whose byte does not satisfy f. -/
def skipOn (f : UInt8 → Bool) (block : Bytes) (i : ℕ) : CRun ℕ := do
  return block.length - (← skipWhile f (block.drop i)).length

/-- The number of bytes up to the comma, or one less than there are. -/
def entryLength (block : Bytes) (curpos : ℕ) : CRun UInt64 := do
  match ← strchr block curpos 44 with
  | none => return UInt64.ofNat (← strlen block curpos) - 1
  | some endpos => return UInt64.ofNat (endpos - curpos)

/-- The length without the blanks in front of its last byte. -/
def trimmedLength (block : Bytes) (curpos : ℕ) (len : UInt64) : CRun UInt64 := do
  let retlen := len - 1
  let last := address curpos (retlen - 1)
  let i ← skipBack isBlank block (last + 1)
  return retlen - UInt64.ofNat (last - i) + 1

/-- memcpy into a new block. -/
def copyOut (block : Bytes) (curpos : ℕ) (retlen : UInt64) : CRun Bytes :=
  if curpos + retlen.toNat ≤ block.length then .ok ((block.drop curpos).take retlen.toNat)
  else .error .fault

/-- _gftp_get_next_charset: the name, if there is one, and the cursor behind it. -/
def gftpGetNextCharset (block : Bytes) (curpos : ℕ) : CRun (Option Bytes × ℕ) := do
  if (← readAt block curpos) = 0 then return (none, curpos)
  let curpos ← skipOn isBlank block curpos
  let len ← entryLength block curpos
  let retlen ← trimmedLength block curpos len
  let ret ← copyOut block curpos retlen
  let curpos ← skipOn (· = 44) block (address curpos len)
  return (some (cstr ret), curpos)

/-- An iconv descriptor of a request. -/
inductive Handle (Conv : Type)
  | null
  | failed
  | opened (cd : Conv)

/-- The conversion functions of GLib. -/
structure Converters (Conv : Type) where
  utf8Validate : Bytes → Bool
  iconvOpen : Bytes → Bytes → Option Conv
  convertWithIconv : Conv → Bytes → Option Bytes
  localConvert : Bool → Bool → Bytes → Option Bytes

/-- What a request keeps of its conversions in one direction. -/
structure Direction (Conv : Type) where
  iconv : Handle Conv
  initialized : Bool

structure Request (Conv : Type) where
  remoteCharsets : CString
  useLocalEncoding : Bool
  iconvFrom : Direction Conv
  iconvTo : Direction Conv
  iconvCharset : Option Bytes

variable {Conv : Type}

def Request.direction (request : Request Conv) (fromUtf8 : Bool) : Direction Conv :=
  if fromUtf8 then request.iconvFrom else request.iconvTo

def Request.setDirection (request : Request Conv) (fromUtf8 : Bool) (d : Direction Conv) :
    Request Conv :=
  if fromUtf8 then { request with iconvFrom := d } else { request with iconvTo := d }

/-- The loop of _do_convert_string over the list, less the messages. The two directions differ
only in the descriptor and in the order of the sets. -/
def tryCharsets (C : Converters Conv) (fromUtf8 : Bool) (str block : Bytes) :
    ℕ → Request Conv → ℕ → CRun (Option Bytes × Request Conv)
  | 0, _, _ => .error .pending
  | fuel + 1, request, stpos => do
      match ← gftpGetNextCharset block stpos with
      | (none, _) => return (none, request)
      | (some curCharset, stpos) =>
          let initialized := (request.direction fromUtf8).initialized
          let cd := if fromUtf8 then C.iconvOpen curCharset (ascii "UTF-8")
            else C.iconvOpen (ascii "UTF-8") curCharset
          match cd with
          | none =>
              tryCharsets C fromUtf8 str block fuel
                (request.setDirection fromUtf8 ⟨.failed, initialized⟩) stpos
          | some cd =>
              match C.convertWithIconv cd str with
              | none =>
                  tryCharsets C fromUtf8 str block fuel
                    (request.setDirection fromUtf8 ⟨.null, initialized⟩) stpos
              | some ret =>
                  return (some ret, { request.setDirection fromUtf8 ⟨.opened cd, true⟩ with
                    iconvCharset := some curCharset })

/-- _do_convert_string on a request. -/
def doConvertString (C : Converters Conv) (fuel : ℕ) (request : Request Conv)
    (isFilename forceLocal : Bool) (str : Bytes) (fromUtf8 : Bool) :
    CRun (Option Bytes × Request Conv) :=
  if C.utf8Validate str ≠ fromUtf8 then .ok (none, request)
  else if request.remoteCharsets.bytes = [] ∨ request.useLocalEncoding ∨ forceLocal then
    .ok (C.localConvert fromUtf8 isFilename str, request)
  else if (request.direction fromUtf8).initialized then
    match (request.direction fromUtf8).iconv with
    | .opened cd => .ok (C.convertWithIconv cd str, request)
    | _ => .error .fault
  else tryCharsets C fromUtf8 str (request.remoteCharsets.bytes ++ [0]) fuel request 0

end Source

section Lists

/-- A name of the list with the blanks around it. -/
structure Entry where
  left : Bytes
  name : Bytes
  right : Bytes
  blanks : ∀ b ∈ left ++ right, isBlank b = true
  nonempty : name ≠ []
  plain : ∀ b ∈ name, b ≠ 0 ∧ b ≠ 44
  trimmed : isBlank (name.head nonempty) = false ∧ isBlank (name.getLast nonempty) = false

def Entry.text (e : Entry) : Bytes := e.left ++ e.name ++ e.right

def joined (entries : List Entry) : Bytes := [44].intercalate (entries.map Entry.text)

/-- A list as it stands in memory, with its terminator. -/
structure CharsetList where
  entries : List Entry
  fits : (joined entries).length + 1 < 2 ^ 63

def CharsetList.text (l : CharsetList) : Bytes := joined l.entries

def CharsetList.names (l : CharsetList) : List Bytes := l.entries.map Entry.name

/-- Calls from a cursor on return these names one after the other and then NULL. -/
def Returns (block : Bytes) : ℕ → List Bytes → Prop
  | curpos, [] => gftpGetNextCharset block curpos = .ok (none, curpos)
  | curpos, name :: names => ∃ next,
      gftpGetNextCharset block curpos = .ok (some name, next) ∧ Returns block next names

/-- The loop over the list ends, whatever the conversion functions do. -/
def LoopEnds (l : CharsetList) : Prop :=
  ∀ (Conv : Type) (C : Converters Conv) (fromUtf8 : Bool) (str : Bytes) (request : Request Conv),
    ∃ fuel, tryCharsets C fromUtf8 str (l.text ++ [0]) fuel request 0 ≠ .error .pending

variable {t front rest : Bytes} {f : UInt8 → Bool} {curpos : ℕ}

theorem skipOn_text (hf : f 0 = false) :
    skipOn f (front ++ (rest ++ [0])) front.length =
      .ok (front.length + (rest.takeWhile f).length) := by
  rw [skipOn, List.drop_left, skipWhile_text hf]
  have hlen := congrArg List.length (List.takeWhile_append_dropWhile (p := f) (l := rest))
  rw [List.length_append] at hlen
  simp only [CRun.ok_bind, List.length_append, List.length_cons, List.length_nil]
  exact congrArg Except.ok (by omega)

/-- A walk backwards ends in the block, no further than it began. -/
theorem skipBack_le {block : Bytes} {last i : ℕ} (h : skipBack f block (last + 1) = .ok i) :
    i ≤ last ∧ last < block.length := by
  have hread : ∀ {j : ℕ} {b : UInt8}, readAt block j = .ok b → j < block.length := by
    intro j b hb
    by_contra hout
    rw [readAt, List.drop_of_length_le (by omega)] at hb
    cases hb
  induction last with
  | zero =>
    obtain ⟨b, hb, h⟩ := CRun.bind_eq_ok.mp h
    refine ⟨?_, hread hb⟩
    split at h
    · cases h
    · rw [← Except.ok.inj h]
  | succ last ih =>
    obtain ⟨b, hb, h⟩ := CRun.bind_eq_ok.mp h
    refine ⟨?_, hread hb⟩
    split at h
    · have hle := (ih h).1
      omega
    · rw [← Except.ok.inj h]

/-- At the terminator one is taken off a length of zero, and the name is longer than the block. -/
theorem trimmedLength_large {block : Bytes} {retlen : UInt64} (hblock : block.length < 2 ^ 63)
    (h : trimmedLength block curpos (UInt64.ofNat 0 - 1) = .ok retlen) :
    block.length < retlen.toNat := by
  obtain ⟨i, hi, h⟩ := CRun.bind_eq_ok.mp h
  obtain ⟨hle, hlast⟩ := skipBack_le hi
  obtain rfl := Except.ok.inj h
  generalize address curpos (UInt64.ofNat 0 - 1 - 1 - 1) = last at hle hlast
  have hback : (UInt64.ofNat (last - i)).toNat = last - i := by
    rw [UInt64.toNat_ofNat']
    omega
  have htop : (UInt64.ofNat 0 - 1 - 1 : UInt64).toNat = 2 ^ 64 - 2 := by decide
  have hone : (1 : UInt64).toNat = 1 := rfl
  rw [UInt64.toNat_add, UInt64.toNat_sub, hback, htop, hone]
  omega

/-- Commas are left before a text ends that does not end with one. -/
theorem commas_stay {next : ℕ} (hrest : rest ≠ []) (hlast : (front ++ rest).getLast? ≠ some 44)
    (h : skipOn (· = 44) (front ++ (rest ++ [0])) front.length = .ok next) :
    next < (front ++ rest).length := by
  rw [skipOn_text (by decide)] at h
  rw [← Except.ok.inj h, List.length_append]
  have hle := (List.takeWhile_sublist (fun b : UInt8 => decide (b = 44)) (l := rest)).length_le
  by_contra hge
  have hall : rest.takeWhile (fun b => decide (b = 44)) = rest :=
    (List.takeWhile_sublist _).eq_of_length (by omega)
  have hcommas := List.takeWhile_eq_self_iff.mp hall
  have hcomma : rest.getLast hrest = 44 := by
    simpa using hcommas _ (List.getLast_mem hrest)
  rw [List.getLast?_append_of_ne_nil _ hrest, List.getLast?_eq_some_getLast hrest, hcomma] at hlast
  exact hlast rfl

theorem address_eq {n : ℕ} (h : curpos + n < 2 ^ 63) : address curpos (UInt64.ofNat n) = curpos + n := by
  rw [address, UInt64.toNat_ofNat', Nat.mod_eq_of_lt (by omega : n < 2 ^ 64)]
  omega

/-- Behind the last comma the length is one less than there are bytes. -/
theorem entryLength_none (ht : 0 ∉ rest) (hcomma : 44 ∉ rest) :
    entryLength (front ++ (rest ++ [0])) front.length = .ok (UInt64.ofNat rest.length - 1) := by
  rw [entryLength, strchr_none hcomma (by decide) ht]
  simp only [CRun.ok_bind, strlen_text ht]
  rfl

theorem ofNat_succ_sub (n : ℕ) : UInt64.ofNat (n + 1) - 1 = UInt64.ofNat n := by
  simp

/-- What a call does from the first byte behind the blanks on. -/
theorem entry_stays {len retlen : UInt64} {bytes : Bytes} {next : ℕ} (ht : 0 ∉ front ++ rest)
    (hlast : (front ++ rest).getLast? ≠ some 44) (hfits : (front ++ rest).length + 1 < 2 ^ 63)
    (hlen : entryLength (front ++ (rest ++ [0])) front.length = .ok len)
    (hretlen : trimmedLength (front ++ (rest ++ [0])) front.length len = .ok retlen)
    (hcopy : copyOut (front ++ (rest ++ [0])) front.length retlen = .ok bytes)
    (hnext : skipOn (· = 44) (front ++ (rest ++ [0])) (address front.length len) = .ok next) :
    next < (front ++ rest).length := by
  have hrest : 0 ∉ rest := fun h => ht (List.mem_append_right _ h)
  by_cases hcomma : 44 ∈ rest
  · obtain ⟨u, v, rfl, hu⟩ := List.eq_append_cons_of_mem hcomma
    have hfound : strchr (front ++ (u ++ 44 :: v ++ [0])) front.length 44 =
        .ok (some (front ++ u).length) := by
      rw [List.append_assoc u]
      exact strchr_first hu (fun h => hrest (List.mem_append_left _ h)) front _
    rw [entryLength, hfound] at hlen
    simp only [List.length_append, List.length_cons] at hfits
    obtain rfl : UInt64.ofNat u.length = len := by
      simpa [pure, Except.pure] using hlen
    rw [address_eq (by omega), ← List.length_append] at hnext
    have hshow : front ++ (u ++ 44 :: v ++ [0]) = front ++ u ++ (44 :: v ++ [0]) := by simp
    rw [hshow] at hnext
    rw [← List.append_assoc] at hlast ⊢
    exact commas_stay (by simp) hlast hnext
  · rw [entryLength_none hrest hcomma] at hlen
    obtain rfl := Except.ok.inj hlen
    rcases List.eq_nil_or_concat rest with rfl | ⟨u, b, rfl⟩
    · -- Nothing behind the blanks: the copy leaves the block.
      have hlarge := trimmedLength_large (by simpa using hfits) hretlen
      unfold copyOut at hcopy
      rw [if_neg (by omega)] at hcopy
      cases hcopy
    · -- The last name: the cursor goes to its last byte, which is no comma.
      have hlength : UInt64.ofNat (u ++ [b]).length - 1 = UInt64.ofNat u.length := by
        rw [List.length_append, List.length_singleton, ofNat_succ_sub]
      simp only [List.concat_eq_append] at *
      rw [hlength, address_eq (by simp at hfits; omega), ← List.length_append] at hnext
      have hshow : front ++ (u ++ [b] ++ [0]) = front ++ u ++ ([b] ++ [0]) := by simp
      rw [hshow] at hnext
      rw [← List.append_assoc] at hlast ⊢
      exact commas_stay (by simp) hlast hnext

/-- A call that returns leaves the cursor in front of the terminator, unless a comma stands last. -/
theorem next_stays {ret : Option Bytes} {next : ℕ} (ht : 0 ∉ t) (hlast : t.getLast? ≠ some 44)
    (hfits : t.length + 1 < 2 ^ 63) (hcur : curpos < t.length)
    (h : gftpGetNextCharset (t ++ [0]) curpos = .ok (ret, next)) :
    ret.isSome = true ∧ next < t.length := by
  obtain ⟨b, hread, h⟩ := CRun.bind_eq_ok.mp h
  split at h
  · -- No byte in front of the terminator is NUL.
    rename_i hb
    subst hb
    rw [readAt, List.drop_append_of_le_length (Nat.le_of_lt hcur)] at hread
    obtain ⟨c, rest, hdrop⟩ := List.exists_cons_of_length_pos (l := t.drop curpos) (by
      rw [List.length_drop]
      omega)
    rw [hdrop] at hread
    have hc : c ∈ t := List.mem_of_mem_drop (hdrop ▸ List.mem_cons_self ..)
    exact absurd (Except.ok.inj hread ▸ hc) ht
  · obtain ⟨q, hq, h⟩ := CRun.bind_eq_ok.mp h
    obtain ⟨len, hlen, h⟩ := CRun.bind_eq_ok.mp h
    obtain ⟨retlen, hretlen, h⟩ := CRun.bind_eq_ok.mp h
    obtain ⟨bytes, hcopy, h⟩ := CRun.bind_eq_ok.mp h
    obtain ⟨r, hr, h⟩ := CRun.bind_eq_ok.mp h
    obtain ⟨rfl, rfl⟩ := Prod.mk.inj (Except.ok.inj h)
    refine ⟨rfl, ?_⟩
    -- The text is shown at the place behind the blanks.
    obtain ⟨front, rest, rfl, rfl⟩ : ∃ front rest, t = front ++ rest ∧ q = front.length := by
      have hsplit : t.take curpos ++ t.drop curpos = t := List.take_append_drop ..
      have hskip := @skipOn_text (t.take curpos) (t.drop curpos) isBlank
        (by decide)
      have htake : (t.take curpos).length = curpos := by
        rw [List.length_take]
        omega
      rw [← List.append_assoc, hsplit, htake] at hskip
      have hsame := Except.ok.inj (hq.symm.trans hskip)
      refine ⟨t.take q, t.drop q, (List.take_append_drop ..).symm, ?_⟩
      rw [List.length_take, hsame]
      have hle := (List.takeWhile_sublist isBlank (l := t.drop curpos)).length_le
      rw [List.length_drop] at hle
      omega
    rw [List.append_assoc] at hlen hretlen hcopy hr
    exact entry_stays ht hlast hfits hlen hretlen hcopy hr

/-- From a cursor in front of the terminator of such a text NULL is never returned. -/
theorem not_returns {names : List Bytes} (ht : 0 ∉ t) (hlast : t.getLast? ≠ some 44)
    (hfits : t.length + 1 < 2 ^ 63) (hcur : curpos < t.length) : ¬ Returns (t ++ [0]) curpos names := by
  induction names generalizing curpos with
  | nil =>
    intro h
    have hsome := (next_stays ht hlast hfits hcur h).1
    cases hsome
  | cons name names ih =>
    intro ⟨next, hcall, hlater⟩
    exact ih (next_stays ht hlast hfits hcur hcall).2 hlater

theorem Entry.text_plain (e : Entry) : ∀ b ∈ e.text, b ≠ 0 ∧ b ≠ 44 := by
  intro b hb
  have hblank : ∀ b, isBlank b = true → b ≠ 0 ∧ b ≠ 44 := by
    intro b hb
    constructor <;> (rintro rfl; exact absurd hb (by decide))
  rcases List.mem_append.mp hb with hb | hb
  · rcases List.mem_append.mp hb with hb | hb
    · exact hblank b (e.blanks b (List.mem_append_left _ hb))
    · exact e.plain b hb
  · exact hblank b (e.blanks b (List.mem_append_right _ hb))

theorem Entry.text_ne (e : Entry) : e.text ≠ [] := by
  simp [Entry.text, e.nonempty]

theorem joined_last {entries : List Entry} (h : entries ≠ []) :
    ∃ front, joined entries = front ++ (entries.getLast h).text := by
  induction entries with
  | nil => exact absurd rfl h
  | cons e later ih =>
    cases later with
    | nil => exact ⟨[], List.intercalate_singleton⟩
    | cons e' later =>
      obtain ⟨front, hfront⟩ := ih (by simp)
      refine ⟨e.text ++ 44 :: front, ?_⟩
      rw [List.getLast_cons (by simp), List.append_assoc, List.cons_append, ← hfront]
      simp [joined, List.intercalate_cons_cons]

theorem joined_nul_free (entries : List Entry) : 0 ∉ joined entries := by
  induction entries with
  | nil => simp [joined]
  | cons e later ih =>
    have he : 0 ∉ e.text := fun h => (e.text_plain 0 h).1 rfl
    cases later with
    | nil => simpa [joined] using he
    | cons e' later =>
      have hshow : joined (e :: e' :: later) = e.text ++ 44 :: joined (e' :: later) := by
        simp [joined, List.intercalate_cons_cons]
      rw [hshow]
      simp [he, ih]

theorem getLast_text_ne (l : CharsetList) : l.text.getLast? ≠ some 44 := by
  by_cases h : l.entries = []
  · simp [CharsetList.text, h, joined]
  · obtain ⟨front, hfront⟩ := joined_last h
    rw [CharsetList.text, hfront, List.getLast?_append_of_ne_nil _ (Entry.text_ne _)]
    intro hcomma
    exact (Entry.text_plain _ 44 (List.mem_of_getLast? hcomma)).2 rfl

/-- The calls return the names of a list and then NULL, and the loop over it ends, exactly for
the list without names. -/
theorem charset_list_iff (l : CharsetList) :
    Returns (l.text ++ [0]) 0 l.names ∧ LoopEnds l ↔ l.names = [] := by
  constructor
  · rintro ⟨hreturns, -⟩
    by_contra hne
    have hentries : l.entries ≠ [] := fun h => hne (by simp [CharsetList.names, h])
    have hpos : 0 < l.text.length := by
      obtain ⟨front, hfront⟩ := joined_last hentries
      rw [CharsetList.text, hfront, List.length_append]
      have := List.length_pos_iff.mpr (Entry.text_ne (l.entries.getLast hentries))
      omega
    exact not_returns (joined_nul_free _) (getLast_text_ne l) l.fits hpos hreturns
  · intro hnil
    have hentries : l.entries = [] := List.map_eq_nil_iff.mp hnil
    have htext : l.text = [] := by
      rw [CharsetList.text, hentries]
      rfl
    rw [hnil, LoopEnds, htext]
    refine ⟨rfl, ?_⟩
    intro Conv C fromUtf8 str request
    refine ⟨1, ?_⟩
    intro hpending
    cases hpending

end Lists

/-- The list of one name. -/
def utf8List : CharsetList where
  entries := [{
    left := []
    name := ascii "UTF-8"
    right := []
    blanks := by simp
    nonempty := by decide
    plain := forall_of_all (by decide)
    trimmed := by decide }]
  fits := by decide

/-- The only name of a list comes back without its last letter. -/
theorem last_letter_cut :
    ¬ ∀ l : CharsetList, Returns (l.text ++ [0]) 0 l.names ∧ LoopEnds l := by
  intro h
  obtain ⟨next, hcall, -⟩ := (h utf8List).1
  have hrun : gftpGetNextCharset (ascii "UTF-8" ++ [0]) 0 = .ok (some (ascii "UTF-"), 4) := by
    decide
  have hname : some (ascii "UTF-") = some (ascii "UTF-8") :=
    congrArg Prod.fst (Except.ok.inj (hrun.symm.trans hcall))
  exact absurd hname (by decide)

/-- On a site whose only charset is UTF-8 the loop of _do_convert_string does not end when neither
UTF- nor the empty name can be opened. -/
theorem single_name_spins {Conv : Type} (C : Converters Conv) (fuel : ℕ) (request : Request Conv)
    (isFilename : Bool) (str : Bytes) (fromUtf8 : Bool) (hvalid : C.utf8Validate str = fromUtf8)
    (hlist : request.remoteCharsets.bytes = utf8List.text) (hremote : request.useLocalEncoding = false)
    (hfirst : (request.direction fromUtf8).initialized = false)
    (hopen : ∀ name ∈ [ascii "UTF-", []],
      C.iconvOpen name (ascii "UTF-8") = none ∧ C.iconvOpen (ascii "UTF-8") name = none) :
    doConvertString C fuel request isFilename false str fromUtf8 = .error .pending := by
  have hclosed : ∀ name ∈ [ascii "UTF-", []], (if fromUtf8 then C.iconvOpen name (ascii "UTF-8")
      else C.iconvOpen (ascii "UTF-8") name) = none := by
    intro name hname
    cases fromUtf8
    · exact (hopen name hname).2
    · exact (hopen name hname).1
  have hcall : gftpGetNextCharset (utf8List.text ++ [0]) 0 = .ok (some (ascii "UTF-"), 4) := by decide
  have hagain : gftpGetNextCharset (utf8List.text ++ [0]) 4 = .ok (some [], 4) := by decide
  -- from the last letter on every call returns the empty name and stays
  have hspins : ∀ fuel request,
      tryCharsets C fromUtf8 str (utf8List.text ++ [0]) fuel request 4 = .error .pending := by
    intro fuel
    induction fuel with
    | zero => exact fun _ => rfl
    | succ fuel ih =>
      intro request
      simp only [tryCharsets, hagain, CRun.ok_bind, hclosed [] (by simp)]
      exact ih _
  have hne : ¬(request.remoteCharsets.bytes = [] ∨ request.useLocalEncoding = true ∨ false = true) := by
    rw [hlist, hremote]
    decide
  rw [doConvertString, if_neg (fun h => h hvalid), if_neg hne, hfirst, hlist]
  cases fuel with
  | zero => rfl
  | succ fuel =>
    simp only [tryCharsets, hcall, CRun.ok_bind, hclosed _ List.mem_cons_self]
    exact hspins fuel _

end Gftp.CharsetLists
