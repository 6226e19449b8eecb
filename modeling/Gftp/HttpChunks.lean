import Gftp.HttpResponses

/-!
The chunked coding and its decoder. A coded body is a list of chunks, each with the text
of its size, and the text of the last size, which is zero. Between chunks the decoder
works on what it has stashed and one read; the place where these bytes end, in a size
line, in a chunk or behind the last line, decides how it goes on.
-/

namespace Gftp.HttpChunks

open ByteStrings ByteStreams Cells Cell Hexadecimal HttpDecoding HttpResponses LineSource Protocol
  Sockets
open ListingParsers (offT)

section Coding

/-- The text of a chunk size: digits, and an extension within its line. -/
structure SizeText where
  digits : Bytes
  ext : Bytes
  digits_ne : digits ≠ []
  digits_hex : ∀ b ∈ digits, isHexDigit b = true
  separates : Separates ext
  oneLine : ∀ b ∈ ext, b ≠ 0 ∧ b ≠ 13

namespace SizeText

def text (t : SizeText) : Bytes := t.digits ++ t.ext

def value (t : SizeText) : ℕ := hexValue t.digits

/-- The size line as it stands between two chunks. -/
def line (t : SizeText) : Bytes := crlf ++ (t.text ++ crlf)

theorem text_plain (t : SizeText) : ∀ b ∈ t.text, b ≠ 0 ∧ b ≠ 13 := by
  intro b hb
  rcases List.mem_append.mp hb with hb | hb
  · obtain ⟨-, -, -, -, -, h0, h13, -⟩ := isHexDigit_cases (t.digits_hex b hb)
    exact ⟨h0, h13⟩
  · exact t.oneLine b hb

theorem line_length (t : SizeText) : t.line.length = t.text.length + 4 := by
  simp [line, crlf]

theorem scanHex_text (t : SizeText) (h : t.value < 2 ^ 64) : scanHex t.text = some t.value :=
  scanHex_digits t.digits_ne t.digits_hex t.separates h

end SizeText

structure WireChunk where
  size : SizeText
  data : Bytes
  size_eq : size.value = data.length
  nonempty : data ≠ []
  fits : data.length < 2 ^ 63

structure LastChunk where
  size : SizeText
  size_eq : size.value = 0

/-- The chunks behind a chunk, up to the end of the coded body. -/
def wire (last : LastChunk) : List WireChunk → Bytes
  | [] => last.size.line ++ crlf
  | c :: cs => c.size.line ++ (c.data ++ wire last cs)

def bodyOf (cs : List WireChunk) : Bytes := (cs.map WireChunk.data).flatten

/-- Where the decoder stands: the bytes left of the current chunk, the chunks behind it,
and how many bytes of these are stashed. -/
structure Place where
  left : ℕ
  chunks : List WireChunk
  stash : ℕ
  alone : left = 0 ∨ stash = 0

/-- The place that n bytes from the start of a size line on lead to, and the body bytes
before it. There is none at the end of a chunk and behind the last line; at the end of the
last line the body is complete. -/
def land (last : LastChunk) : List WireChunk → ℕ → Option (ℕ × Option Place)
  | [], n =>
      if n < last.size.line.length then some (0, some ⟨0, [], n, .inl rfl⟩)
      else if n = last.size.line.length then some (0, none)
      else none
  | c :: cs, n =>
      if n < c.size.line.length then some (0, some ⟨0, c :: cs, n, .inl rfl⟩)
      else if n < c.size.line.length + c.data.length then
        some (n - c.size.line.length,
          some ⟨c.size.line.length + c.data.length - n, cs, 0, .inr rfl⟩)
      else if n = c.size.line.length + c.data.length then none
      else (land last cs (n - (c.size.line.length + c.data.length))).map fun (m, p) =>
        (c.data.length + m, p)

end Coding

section SizeLines

theorem findCrlf_text {t : Bytes} (ht : ∀ b ∈ t, b ≠ 0 ∧ b ≠ 13) (more : Bytes) :
    findCrlf (t ++ (crlf ++ more)) = some t.length := by
  induction t with
  | nil => rfl
  | cons a t ih =>
    obtain ⟨h0, h13⟩ := ht a (List.mem_cons_self ..)
    have htail := ih fun b hb => ht b (List.mem_cons_of_mem _ hb)
    obtain ⟨b, tail, heq⟩ : ∃ b tail, t ++ (crlf ++ more) = b :: tail := by
      cases t with
      | nil => exact ⟨13, 10 :: more, rfl⟩
      | cons b t => exact ⟨b, _, rfl⟩
    rw [heq] at htail
    rw [List.cons_append, heq]
    simp [findCrlf, h0, h13, htail]

theorem findCrlf_cut {t p : Bytes} (ht : ∀ b ∈ t, b ≠ 0 ∧ b ≠ 13) (hp : p <+: t ++ [13]) :
    findCrlf p = none := by
  induction t generalizing p with
  | nil =>
    match p, hp with
    | [], _ => rfl
    | [_], _ => rfl
    | _ :: _ :: _, hp => exact absurd hp.length_le (by simp)
  | cons a t ih =>
    obtain ⟨h0, h13⟩ := ht a (List.mem_cons_self ..)
    match p, hp with
    | [], _ => rfl
    | [_], _ => rfl
    | x :: y :: p, hp =>
      obtain ⟨rfl, htail⟩ := List.cons_prefix_cons.mp (by simpa using hp)
      have hnone := ih (fun b hb => ht b (List.mem_cons_of_mem _ hb)) htail
      simp [findCrlf, h0, h13, hnone]

theorem sizeLine_line (t : SizeText) (more : Bytes) :
    sizeLine (t.line ++ more) = some t.text.length := by
  have hdrop : (t.line ++ more).drop 2 = t.text ++ (crlf ++ more) := by
    simp [SizeText.line, crlf]
  rw [sizeLine, hdrop, findCrlf_text t.text_plain]
  simp [SizeText.line, crlf]

theorem sizeLine_cut {t : SizeText} {p : Bytes} (hp : p <+: t.line)
    (hlt : p.length < t.line.length) : sizeLine p = none := by
  unfold sizeLine
  split
  · rename_i hfront
    have hcut : p.drop 2 <+: t.text ++ [13] := by
      have hlen := t.line_length
      have hdrop : p.drop 2 = (t.text ++ [13] ++ [10]).take (p.length - 2) := by
        conv_lhs => rw [List.prefix_iff_eq_take.mp hp, List.drop_take]
        simp [SizeText.line, crlf]
      have hshort : p.length - 2 ≤ (t.text ++ [13]).length := by
        simp only [List.length_append, List.length_cons, List.length_nil]
        omega
      rw [hdrop, List.take_append_of_le_length hshort]
      exact List.take_prefix ..
    exact findCrlf_cut t.text_plain hcut
  · rfl

end SizeLines

section Decoding

variable {last : LastChunk} {done cur junk : Bytes} {s : Session UInt8} {fuel : ℕ}

/-- The session in the place where the buffer ends. -/
def settle (s : Session UInt8) (stash : Bytes) : Option Place → Session UInt8
  | none => { s with chunkSize := 0, eof := true }
  | some p =>
      { s with
        chunkSize := p.left
        extraReadBuffer := if p.stash = 0 then none else some stash }

/-- How the decoding of a buffer ends: text are the body bytes it returns. -/
def outcome (text stored stash : Bytes) (s : Session UInt8) (p : Option Place) :
    Decoded UInt8 :=
  if text = [] ∧ ∃ q, p = some q ∧ q.stash ≠ 0 then .stashed stored (settle s stash p)
  else .returned ({ ret := .ok text.length, stored := stored }, settle s stash p)

theorem offT_small {n : ℤ} (hlow : -2 ^ 63 ≤ n) (hhigh : n < 2 ^ 63) : offT n = n := by
  rw [offT, Int64.toInt_ofInt]
  have hsize : Int64.size = 2 ^ 64 := rfl
  exact Int.bmod_eq_of_le (by omega) (by omega)

theorem asSize_small {n : ℕ} (h : n < 2 ^ 64) : asSize n = n := by
  unfold asSize
  omega

/-- The loop stops once a chunk is under way. -/
theorem decodeLoop_inside (hs : s.chunkSize ≠ 0) :
    decodeLoop (fuel + 1) done cur junk s
      = .ok (.returned ({ ret := .ok (done.length + cur.length)
                          stored := done ++ (cur ++ nul :: junk) }, s)) := by
  rw [decodeLoop, if_pos (.inl hs)]

/-- A size line that is not complete is stashed. -/
theorem decodeLoop_cut (hs : s.chunkSize = 0) (hne : cur ≠ []) (hline : sizeLine cur = none) :
    decodeLoop (fuel + 1) done cur junk s
      = .ok (if done = [] then .stashed (cur ++ nul :: junk) { s with extraReadBuffer := some cur }
        else .returned ({ ret := .ok done.length, stored := done ++ (cur ++ nul :: junk) },
          { s with extraReadBuffer := some cur })) := by
  rw [decodeLoop, if_neg (by simp [hs, hne])]
  simp only [hline]
  split <;> rfl

/-- The number in a complete size line. -/
theorem scan_line (t : SizeText) (more : Bytes) (hfits : t.value < 2 ^ 63) :
    scanHex ((((t.line ++ more).drop 2).take t.text.length).map byte) = some t.value := by
  have hdrop : (t.line ++ more).drop 2 = t.text ++ (crlf ++ more) := by
    simp [SizeText.line, crlf]
  rw [hdrop, List.take_left' rfl]
  have hmap : t.text.map byte = t.text := List.map_id' _
  rw [hmap, t.scanHex_text (by omega)]

theorem line_ne (t : SizeText) (more : Bytes) : t.line ++ more ≠ [] := by
  simp [SizeText.line, crlf]

theorem drop_line (t : SizeText) (more : Bytes) :
    (t.line ++ more).drop (t.text.length + 4) = more :=
  List.drop_left' t.line_length

/-- A complete line of the size zero ends the body. -/
theorem decodeLoop_last (fuel : ℕ) (done junk : Bytes) {t : SizeText} (hs : s.chunkSize = 0) (heof : s.eof = false)
    (hzero : t.value = 0) :
    ∃ more, decodeLoop (fuel + 1) done t.line junk s
      = .ok (.returned ({ ret := .ok done.length, stored := done ++ more },
          { s with chunkSize := 0, eof := true })) ∧
      more.length = t.line.length + 1 + junk.length := by
  refine ⟨t.line.set (t.text.length + 2) nul ++ nul :: junk, ?_, ?_⟩
  · have hline := sizeLine_line t []
    have hscan := scan_line t [] (by omega)
    have hdrop := drop_line t []
    rw [List.append_nil] at hline hscan hdrop
    have hzero' : offT (0 : ℕ) = 0 := by decide
    rw [decodeLoop, if_neg (by simp [hs, SizeText.line, crlf])]
    simp only [hline, hscan, hdrop, hzero, hzero', heof]
    simp
  · simp only [List.length_append, List.length_set, List.length_cons]
    omega

/-- Behind the line of another size the loop goes on in the chunk, or behind it. -/
theorem decodeLoop_line (fuel : ℕ) (done junk more : Bytes) {t : SizeText} (hs : s.chunkSize = 0) (hpos : 0 < t.value)
    (hfits : t.value < 2 ^ 63) :
    ∃ junk', junk'.length = t.line.length + junk.length ∧
      decodeLoop (fuel + 1) done (t.line ++ more) junk s
        = if t.value < more.length then
            decodeLoop fuel (done ++ more.take t.value) (more.drop t.value) junk' s
          else decodeLoop fuel done more junk'
            { s with chunkSize := (t.value : ℤ) - more.length } := by
  refine ⟨((t.line ++ more).set (t.text.length + 2) nul ++ nul :: junk).drop (more.length + 1),
    ?_, ?_⟩
  · simp only [List.length_drop, List.length_append, List.length_set, List.length_cons]
    omega
  · have hsame : { s with chunkSize := 0 } = s := by
      rw [← hs]
    have hoff : offT (t.value : ℤ) = t.value := offT_small (by omega) (by omega)
    have hsize : asSize (t.value : ℤ) = t.value := asSize_small (by omega)
    have hne : (t.value : ℤ) ≠ 0 := by omega
    rw [decodeLoop, if_neg (fun h => h.elim (fun h0 => h0 hs) (line_ne t more))]
    simp only [sizeLine_line, scan_line t more hfits, drop_line, hoff, hsize, if_neg hne, hsame]
    by_cases hlt : t.value < more.length
    · simp only [if_pos hlt]
    · have hleft : offT ((t.value : ℤ) - more.length) = (t.value : ℤ) - more.length :=
        offT_small (by omega) (by omega)
      simp only [if_neg hlt, hleft]

/-- What is left at a place: body bytes to return, stashed bytes, and the text the
connection still holds. -/
def Coded (last : LastChunk) (tail : Bytes) (p : Place) (body stash text : Bytes) : Prop :=
  ∃ rest, rest.length = p.left ∧ stash.length = p.stash ∧ body = rest ++ bodyOf p.chunks ∧
    stash ++ text = rest ++ (wire last p.chunks ++ tail)

theorem prefix_of_append {a b c d : Bytes} (h : a ++ b = c ++ d) (hlen : a.length ≤ c.length) :
    ∃ e, c = a ++ e ∧ b = e ++ d := by
  rcases List.append_eq_append_iff.mp h with ⟨e, hc, hb⟩ | ⟨e, ha, hd⟩
  · exact ⟨e, hc, hb⟩
  · have he : e = [] := by
      rw [ha, List.length_append] at hlen
      exact List.length_eq_zero_iff.mp (by omega)
    subst he
    exact ⟨[], by simpa using ha.symm, by simpa using hd.symm⟩

/-- A buffer that ends inside a size line. -/
theorem decode_between {t : SizeText} {after text : Bytes} (hs : s.chunkSize = 0)
    (hne : cur ≠ []) (hlt : cur.length < t.line.length)
    (htext : cur ++ after = t.line ++ text) (cs : List WireChunk) :
    decodeLoop (fuel + 1) done cur junk s
      = .ok (outcome done (done ++ (cur ++ nul :: junk)) cur s
          (some ⟨0, cs, cur.length, .inl rfl⟩)) := by
  obtain ⟨e, hline, -⟩ := prefix_of_append htext (Nat.le_of_lt hlt)
  have hcut := sizeLine_cut ⟨e, hline.symm⟩ hlt
  have hstash : cur.length ≠ 0 := fun h => hne (List.length_eq_zero_iff.mp h)
  rw [decodeLoop_cut hs hne hcut]
  by_cases hdone : done = []
  · subst hdone
    simp [outcome, settle, hstash, hs]
  · simp [outcome, settle, hdone, hs, hne]

/-- A buffer that ends in a chunk: the bytes of the chunk are returned. -/
theorem decode_inside (fuel : ℕ) (done junk : Bytes) {c : WireChunk} {front rest : Bytes} (hs : s.chunkSize = 0)
    (hextra : s.extraReadBuffer = none) (hdata : c.data = front ++ rest) (hrest : rest ≠ [])
    (cs : List WireChunk) :
    ∃ more, decodeLoop (fuel + 2) done (c.size.line ++ front) junk s
      = .ok (outcome (done ++ front) (done ++ front ++ more) [] s
          (some ⟨rest.length, cs, 0, .inr rfl⟩)) ∧
      more.length = c.size.line.length + 1 + junk.length := by
  have hfits := c.fits
  have hvalue := c.size_eq
  have hlen : c.data.length = front.length + rest.length := by rw [hdata, List.length_append]
  have hpos := List.length_pos_iff.mpr hrest
  obtain ⟨junk', hjunk, hloop⟩ :=
    decodeLoop_line (fuel + 1) done junk front hs (by omega) (by omega : c.size.value < 2 ^ 63)
  refine ⟨nul :: junk', ?_, by simp only [List.length_cons]; omega⟩
  have hleft : (c.size.value : ℤ) - front.length = rest.length := by omega
  rw [hloop, if_neg (by omega), hleft, decodeLoop_inside (by simp [hrest])]
  simp [outcome, settle, hextra]

/-- The decoding of a buffer that starts with a size line, by the place where it ends. -/
theorem decodeLoop_land {cs : List WireChunk} {after tail : Bytes} {m : ℕ} {p : Option Place}
    (hland : land last cs cur.length = some (m, p)) (hs : s.chunkSize = 0) (heof : s.eof = false)
    (hextra : s.extraReadBuffer = none) (hne : cur ≠ []) (hfuel : cur.length < fuel)
    (htext : cur ++ after = wire last cs ++ tail) :
    ∃ stash more, decodeLoop fuel done cur junk s
        = .ok (outcome (done ++ (bodyOf cs).take m) (done ++ (bodyOf cs).take m ++ more) stash s p) ∧
      ((bodyOf cs).take m).length + more.length = cur.length + 1 + junk.length ∧
      m ≤ (bodyOf cs).length ∧ (p = none → m = (bodyOf cs).length) ∧
      ∀ q, p = some q → Coded last tail q ((bodyOf cs).drop m) stash after := by
  induction cs generalizing done cur junk fuel m with
  | nil =>
    obtain ⟨fuel, rfl⟩ : ∃ n, fuel = n + 1 := ⟨fuel - 1, by omega⟩
    simp only [wire, List.append_assoc] at htext
    simp only [land] at hland
    split at hland
    · rename_i hlt
      simp only [Option.some.injEq, Prod.mk.injEq] at hland
      obtain ⟨rfl, rfl⟩ := hland
      refine ⟨cur, cur ++ nul :: junk, ?_, ?_, Nat.zero_le _, by simp, ?_⟩
      · simpa [bodyOf] using decode_between hs hne hlt htext []
      · simp [bodyOf]
        omega
      · intro q hq
        obtain rfl := Option.some.inj hq
        exact ⟨[], rfl, rfl, rfl, by simpa [wire] using htext⟩
    · split at hland
      · rename_i hend
        simp only [Option.some.injEq, Prod.mk.injEq] at hland
        obtain ⟨rfl, rfl⟩ := hland
        obtain ⟨rfl, -⟩ := List.append_inj htext hend
        obtain ⟨more, hloop, hmore⟩ := decodeLoop_last fuel done junk hs heof last.size_eq
        refine ⟨[], more, ?_, ?_, Nat.zero_le _, fun _ => rfl, by simp⟩
        · simpa [bodyOf, outcome, settle] using hloop
        · simpa [bodyOf] using hmore
      · simp at hland
  | cons c cs ih =>
    have hfits := c.fits
    have hvalue := c.size_eq
    have hpos := List.length_pos_iff.mpr c.nonempty
    have hline := c.size.line_length
    have hbody : bodyOf (c :: cs) = c.data ++ bodyOf cs := by simp [bodyOf]
    simp only [wire, List.append_assoc] at htext
    simp only [land] at hland
    split at hland
    · rename_i hlt
      obtain ⟨fuel, rfl⟩ : ∃ n, fuel = n + 1 := ⟨fuel - 1, by omega⟩
      simp only [Option.some.injEq, Prod.mk.injEq] at hland
      obtain ⟨rfl, rfl⟩ := hland
      refine ⟨cur, cur ++ nul :: junk, ?_, ?_, Nat.zero_le _, by simp, ?_⟩
      · simpa using decode_between hs hne hlt htext (c :: cs)
      · simp
        omega
      · intro q hq
        obtain rfl := Option.some.inj hq
        exact ⟨[], rfl, rfl, rfl, by simpa [wire] using htext⟩
    · rename_i hge
      -- the size line is complete
      obtain ⟨more, rfl, hmore⟩ := prefix_of_append htext.symm (by omega)
      simp only [List.length_append] at hland hfuel
      split at hland
      · rename_i hlt
        obtain ⟨fuel, rfl⟩ : ∃ n, fuel = n + 2 := ⟨fuel - 2, by omega⟩
        obtain ⟨rest, hdata, hafter⟩ := prefix_of_append hmore.symm (by omega)
        have hlen : c.data.length = more.length + rest.length := by
          rw [hdata, List.length_append]
        have hrest : rest ≠ [] := by
          intro hnil
          rw [hnil, List.length_nil] at hlen
          omega
        simp only [Option.some.injEq, Prod.mk.injEq] at hland
        obtain ⟨hm, hp⟩ := hland
        obtain rfl : more.length = m := by omega
        have hplace : p = some ⟨rest.length, cs, 0, .inr rfl⟩ := by
          rw [← hp]
          simp only [Option.some.injEq, Place.mk.injEq, and_true]
          omega
        subst hplace
        obtain ⟨stored, hloop, hstored⟩ :=
          decode_inside fuel done junk hs hextra hdata hrest cs
        have htake : (bodyOf (c :: cs)).take more.length = more := by
          rw [hbody, hdata, List.append_assoc, List.take_left' rfl]
        refine ⟨[], stored, by rw [htake]; exact hloop, ?_, ?_, by simp, ?_⟩
        · rw [htake]
          simp only [List.length_append]
          omega
        · rw [hbody, List.length_append]
          omega
        · intro q hq
          obtain rfl := Option.some.inj hq
          refine ⟨rest, rfl, rfl, ?_, ?_⟩
          · rw [hbody, hdata, List.append_assoc, List.drop_left' rfl]
          · simpa using hafter
      · split at hland
        · simp at hland
        · obtain ⟨fuel, rfl⟩ : ∃ n, fuel = n + 1 := ⟨fuel - 1, by omega⟩
          obtain ⟨b, rfl, hafter⟩ := prefix_of_append hmore (by omega)
          simp only [List.length_append] at hland hfuel
          have hb : b ≠ [] := by
            intro hnil
            subst hnil
            simp_all
          have hposb := List.length_pos_iff.mpr hb
          obtain ⟨⟨m', p'⟩, hland', heq⟩ := Option.map_eq_some_iff.mp hland
          simp only [Prod.mk.injEq] at heq
          obtain ⟨rfl, rfl⟩ := heq
          rw [show c.size.line.length + (c.data.length + b.length)
            - (c.size.line.length + c.data.length) = b.length by omega] at hland'
          obtain ⟨junk', hjunk, hloop⟩ := decodeLoop_line fuel done junk (c.data ++ b) hs
            (by omega : 0 < c.size.value) (by omega)
          obtain ⟨stash, stored, hrec, hstored, hm, hnone, hsome⟩ :=
            @ih (done ++ c.data) b junk' fuel m' hland' hb (by omega) hafter.symm
          have htake : (bodyOf (c :: cs)).take (c.data.length + m')
              = c.data ++ (bodyOf cs).take m' := by
            rw [hbody, List.take_length_add_append]
          have hdrop : (bodyOf (c :: cs)).drop (c.data.length + m') = (bodyOf cs).drop m' := by
            rw [hbody, List.drop_length_add_append]
          have hstep : decodeLoop (fuel + 1) done (c.size.line ++ (c.data ++ b)) junk s
              = decodeLoop fuel (done ++ c.data) b junk' s := by
            rw [hloop, if_pos (by rw [List.length_append]; omega), hvalue, List.take_left' rfl,
              List.drop_left' rfl]
          refine ⟨stash, stored, ?_, ?_, ?_, ?_, ?_⟩
          · rw [hstep, htake, hrec]
            simp only [List.append_assoc]
          · rw [htake]
            simp only [List.length_append]
            omega
          · rw [hbody, List.length_append]
            omega
          · intro hp
            rw [hbody, List.length_append, hnone hp]
          · intro q hq
            rw [hdrop]
            exact hsome q hq

end Decoding

section Passes

/-- How many bytes are asked for inside a chunk, and between two chunks. -/
def askInside (size left : ℕ) : ℕ := if left < size then left else size - 1

def askBetween (size stash : ℕ) : ℕ := if stash = 0 then size - 1 else size - stash

/-- The session that stands at a place, with the stashed bytes and the stream. -/
structure Awaits (s : Session UInt8) (p : Place) (stash : Bytes) (stream : Stream Unit) :
    Prop where
  chunked : s.chunkedTransfer = true
  noLength : s.contentLength = 0
  eof : s.eof = false
  chunkSize : s.chunkSize = p.left
  extra : s.extraReadBuffer = if p.stash = 0 then none else some stash
  stashed : stash.length = p.stash
  socket : s.datafd.map Socket.stream = some stream

/-- The session after the read of a pass. -/
def afterRead (s : Session UInt8) (d : Bytes) (stream : Stream Unit) : Session UInt8 :=
  { s with
    readBytes := (s.readBytes + d.length) % 2 ^ 64
    extraReadBuffer := none
    datafd := s.datafd.map fun k => ⟨stream, k.received + d.length, k.received :: k.asked⟩ }

variable {s : Session UInt8} {p : Place} {stash d : Bytes} {stream stream' : Stream Unit}
  {size : ℕ}

theorem fdRead_stream {n : ℕ} (hsocket : s.datafd.map Socket.stream = some stream)
    (hread : readSome n stream = (.ok d, stream')) :
    gftpFdRead n s.datafd = (.ok d, (afterRead s d stream').datafd) := by
  obtain ⟨k, hk, hstream⟩ := Option.map_eq_some_iff.mp hsocket
  rw [← hstream, ← readCells_bytes] at hread
  simp [gftpFdRead, afterRead, hk, hread]

theorem Awaits.enter (h : Awaits s p stash stream) : Awaits s.enter p stash stream :=
  ⟨h.chunked, h.noLength, h.eof, h.chunkSize, h.extra, h.stashed, h.socket⟩

/-- Inside a chunk a pass returns what it reads. -/
theorem start_inside (h : Awaits s p stash stream) (hleft : 0 < p.left)
    (hread : readSome (askInside size p.left) stream = (.ok d, stream')) (hd : d ≠ []) :
    startPass size s = some (.ok (.returned ({ ret := .ok d.length, stored := d },
      { afterRead s d stream' with chunkSize := s.chunkSize - d.length }))) := by
  have hstash : p.stash = 0 := p.alone.resolve_left (by omega)
  have hextra : s.extraReadBuffer = none := by rw [h.extra, if_pos hstash]
  have hchunk : 0 < s.chunkSize := by rw [h.chunkSize]; omega
  have hpos : 0 < askInside size p.left := by
    by_contra hzero
    have hlen := readSome_length hread
    exact hd (List.length_eq_zero_iff.mp (by omega))
  have hfd := fdRead_stream h.socket hread
  have hnot : ¬ (0 < s.contentLength ∧ s.contentLength = s.readBytes) := by
    rw [h.noLength]
    omega
  have hsize : readSize size s = if p.left < size then p.left else size := by
    rw [readSize, if_neg (by rw [h.noLength]; omega), h.chunkSize, h.chunked]
    simp only [true_and, Nat.cast_pos, hleft, Nat.cast_lt, Int.toNat_natCast]
  have hask : (if size = readSize size s then readSize size s - 1 else readSize size s)
      = askInside size p.left := by
    rw [hsize, askInside]
    split <;> split <;> omega
  have hpos' : 0 < readSize size s := by
    rw [hsize]
    unfold askInside at hpos
    split at hpos <;> split <;> omega
  simp only [startPass, hextra, if_neg hnot, receive, hask, hfd, if_neg hd]
  rw [if_pos ⟨hpos', h.eof⟩, if_pos hchunk]
  simp [afterRead]

/-- A stash that is a part of a size line does not look like the end of the body. -/
theorem stash_open {last : LastChunk} {cs : List WireChunk} {after tail : Bytes} {m : ℕ}
    {q : Option Place} (hland : land last cs (stash ++ d).length = some (m, q)) (hd : d ≠ [])
    (htext : (stash ++ d) ++ after = wire last cs ++ tail) :
    ¬ (5 < stash.length ∧ (stash.take 5).map byte = [13, 10, 48, 13, 10]) := by
  rintro ⟨hlong, hfront⟩
  have hmap : (stash.take 5).map byte = stash.take 5 := List.map_id' _
  rw [hmap] at hfront
  obtain ⟨rest, hstash⟩ : ∃ rest, stash ++ d = [13, 10, 48, 13, 10] ++ rest :=
    ⟨stash.drop 5 ++ d, by rw [← hfront, ← List.append_assoc, List.take_append_drop]⟩
  have hline : sizeLine (stash ++ d) = some 1 := by
    rw [hstash]
    simp [sizeLine, findCrlf, crlf]
  have hlen : 6 < (stash ++ d).length := by
    have hpos := List.length_pos_iff.mpr hd
    rw [List.length_append]
    omega
  -- the first size line of the text is complete, and its number is the one byte 0
  have hsize : ∀ (t : SizeText) (text : Bytes), (stash ++ d) ++ after = t.line ++ text →
      t.line.length = 5 ∧ t.value = 0 := by
    intro t text heq
    have hcomplete : t.line.length ≤ (stash ++ d).length := by
      by_contra hlt
      obtain ⟨e, he, -⟩ := prefix_of_append heq (by omega)
      rw [sizeLine_cut ⟨e, he.symm⟩ (by omega)] at hline
      simp at hline
    obtain ⟨more, hmore, -⟩ := prefix_of_append heq.symm hcomplete
    have hone : t.text.length = 1 := by
      rw [hmore, sizeLine_line] at hline
      exact Option.some.inj hline
    have htext : t.text = [48] := by
      have hdrop : ((stash ++ d).drop 2).take 1 = t.text := by
        rw [hmore, ← hone]
        simp [SizeText.line, crlf]
      rw [← hdrop, hstash]
      rfl
    refine ⟨by rw [t.line_length, hone], ?_⟩
    obtain ⟨b, bs, hdigits⟩ := List.exists_cons_of_ne_nil t.digits_ne
    rw [SizeText.text, hdigits, List.cons_append] at htext
    obtain ⟨rfl, hnil⟩ := List.cons.inj htext
    obtain ⟨rfl, -⟩ := List.append_eq_nil_iff.mp hnil
    simp [SizeText.value, hdigits, hexValue, hexDigitValue, Decimal.isDigit]
  cases cs with
  | nil =>
    simp only [wire, List.append_assoc] at htext
    obtain ⟨hfive, -⟩ := hsize last.size _ (by simpa using htext)
    simp only [land, hfive] at hland
    rw [if_neg (by omega), if_neg (by omega)] at hland
    simp at hland
  | cons c cs =>
    simp only [wire, List.append_assoc] at htext
    obtain ⟨-, hzero⟩ := hsize c.size _ (by simpa using htext)
    have hvalue := c.size_eq
    exact c.nonempty (List.length_eq_zero_iff.mp (by omega))

/-- Between two chunks a pass decodes the stash and what it reads. -/
theorem start_between (h : Awaits s p stash stream) (hleft : p.left = 0)
    (hread : readSome (askBetween size p.stash) stream = (.ok d, stream')) (hd : d ≠ [])
    (hroom : p.stash + d.length < size)
    (hopen : ¬ (5 < stash.length ∧ (stash.take 5).map byte = [13, 10, 48, 13, 10])) :
    startPass size s = some (decodeLoop ((stash ++ d).length + 1) [] (stash ++ d) []
      (afterRead s d stream')) := by
  have hstashed := h.stashed
  have hposd := List.length_pos_iff.mpr hd
  have hfd := fdRead_stream h.socket hread
  have hchunk : s.chunkSize = 0 := by rw [h.chunkSize, hleft]; rfl
  by_cases hzero : p.stash = 0
  · have hnil : stash = [] := List.length_eq_zero_iff.mp (by omega)
    have hextra : s.extraReadBuffer = none := by rw [h.extra, if_pos hzero]
    have hnot : ¬ (0 < s.contentLength ∧ s.contentLength = s.readBytes) := by
      rw [h.noLength]
      omega
    have hsize : readSize size s = size := by
      rw [readSize, if_neg (by rw [h.noLength]; omega), if_neg (by rw [hchunk]; omega)]
    have hask : askBetween size p.stash = size - 1 := if_pos hzero
    rw [hask] at hfd
    subst hnil
    simp only [startPass, hextra, if_neg hnot, receive, hsize, if_true, hfd, if_neg hd]
    rw [if_pos ⟨by omega, h.eof⟩, if_neg (by omega)]
    simp [decode, h.chunked, afterRead]
  · have hextra : s.extraReadBuffer = some stash := by rw [h.extra, if_neg hzero]
    have hask : stashReadSize size stash = askBetween size p.stash := by
      rw [stashReadSize, if_neg hopen, askBetween, if_neg hzero, hstashed]
    have hsize : size ≠ askBetween size p.stash := by
      rw [askBetween, if_neg hzero]
      omega
    have hpos : 0 < askBetween size p.stash := by
      rw [askBetween, if_neg hzero]
      omega
    simp only [startPass, hextra, if_pos (by omega : stash.length ≤ size), receive, hask,
      if_neg hsize, hfd, if_neg hd]
    rw [if_pos ⟨hpos, h.eof⟩, if_neg (by omega)]
    simp [decode, h.chunked, afterRead]

end Passes

section Runs

/-- The results of rfc2068_chunked_read until it returns 0, in a buffer of size bytes. -/
def readsUntilZero (size : ℕ) : ℕ → Session UInt8 → CRun (Except GftpError (List Bytes))
  | 0, _ => .error .pending
  | calls + 1, s => do
      let (r, s) ← rfc2068ChunkedRead size s
      if r.stored.length ≤ size then
        match r.ret with
        | .error e => return .error e
        | .ok n =>
            if n = 0 then return .ok []
            else
              let rest ← readsUntilZero size calls s
              return rest.map (r.stored.take n :: ·)
      else .error .fault

theorem readsUntilZero_unique {size m n : ℕ} {s : Session UInt8} {v w : List Bytes}
    (hm : readsUntilZero size m s = .ok (.ok v)) (hn : readsUntilZero size n s = .ok (.ok w)) :
    v = w := by
  induction m generalizing n s v w with
  | zero => simp [readsUntilZero] at hm
  | succ m ih =>
    cases n with
    | zero => simp [readsUntilZero] at hn
    | succ n =>
      simp only [readsUntilZero] at hm hn
      obtain ⟨⟨r, s'⟩, hread, hm⟩ := CRun.bind_eq_ok.mp hm
      simp only [hread, CRun.ok_bind] at hn
      split at hm
      · rename_i hroom
        simp only [if_pos hroom] at hn
        cases hret : r.ret with
        | error e => simp [hret, pure, Except.pure] at hm
        | ok k =>
          simp only [hret] at hm hn
          by_cases hk : k = 0
          · simp only [if_pos hk, pure, Except.pure, Except.ok.injEq] at hm hn
            exact hm.symm.trans hn
          · simp only [if_neg hk] at hm hn
            obtain ⟨rest, hrest, hm⟩ := CRun.bind_eq_ok.mp hm
            obtain ⟨rest', hrest', hn⟩ := CRun.bind_eq_ok.mp hn
            cases rest with
            | error e => simp [pure, Except.pure, Except.map] at hm
            | ok rest =>
              cases rest' with
              | error e => simp [pure, Except.pure, Except.map] at hn
              | ok rest' =>
                simp only [pure, Except.pure, Except.map, Except.ok.injEq] at hm hn
                subst hm hn
                rw [ih hrest hrest']
      · simp at hm

/-- Called again and again the function returns this body and then 0. -/
def Delivers (size : ℕ) (s : Session UInt8) (body : Bytes) : Prop :=
  ∃ calls values, readsUntilZero size calls s = .ok (.ok values) ∧ values.flatten = body

/-- The reads of the coded body, from a place on, end where the decoder can go on. k is
how often the current call has stashed everything. -/
inductive Clean (last : LastChunk) (size : ℕ) : ℕ → Place → Stream Unit → Prop
  | inside {k : ℕ} {p : Place} {stream stream' : Stream Unit} {d : Bytes} (hleft : 0 < p.left)
      (hread : readSome (askInside size p.left) stream = (.ok d, stream')) (hd : d ≠ [])
      (hrest : Clean last size 0 ⟨p.left - d.length, p.chunks, 0, .inr rfl⟩ stream') :
      Clean last size k p stream
  | between {k : ℕ} {p q : Place} {stream stream' : Stream Unit} {d : Bytes} (hleft : p.left = 0)
      (hread : readSome (askBetween size p.stash) stream = (.ok d, stream')) (hd : d ≠ [])
      (hroom : p.stash + d.length < size)
      (hland : land last p.chunks (p.stash + d.length) = some (0, some q)) (hopen : q.stash ≠ 0)
      (hk : k < 2) (hrest : Clean last size (k + 1) q stream') : Clean last size k p stream
  | behind {k m : ℕ} {p q : Place} {stream stream' : Stream Unit} {d : Bytes} (hleft : p.left = 0)
      (hread : readSome (askBetween size p.stash) stream = (.ok d, stream')) (hd : d ≠ [])
      (hroom : p.stash + d.length < size)
      (hland : land last p.chunks (p.stash + d.length) = some (m, some q)) (hm : 0 < m)
      (hrest : Clean last size 0 q stream') : Clean last size k p stream
  | ended {k m : ℕ} {p : Place} {stream stream' : Stream Unit} {d : Bytes} (hleft : p.left = 0)
      (hread : readSome (askBetween size p.stash) stream = (.ok d, stream')) (hd : d ≠ [])
      (hroom : p.stash + d.length < size)
      (hland : land last p.chunks (p.stash + d.length) = some (m, none)) :
      Clean last size k p stream

variable {last : LastChunk} {size : ℕ} {p : Place} {stash body tail : Bytes} {s s' : Session UInt8}
  {stream : Stream Unit} {n : ℕ} {stored : Bytes}

/-- One call and the calls after it. -/
theorem delivers_pass (hpass : rfc2068ChunkedRead size s = .ok ({ ret := .ok n, stored := stored }, s'))
    (hroom : stored.length ≤ size)
    (h : n = 0 ∧ body = [] ∨
      0 < n ∧ ∃ body', body = stored.take n ++ body' ∧ Delivers size s' body') :
    Delivers size s body := by
  rcases h with ⟨rfl, rfl⟩ | ⟨hn, body', rfl, calls, values, hvalues, hflat⟩
  · exact ⟨1, [], by simp [readsUntilZero, hpass, hroom, pure, Except.pure], rfl⟩
  · refine ⟨calls + 1, stored.take n :: values, ?_, ?_⟩
    · have hne : n ≠ 0 := by omega
      simp [readsUntilZero, hpass, hroom, hne, hvalues, pure, Except.pure, Except.map]
    · rw [List.flatten_cons, hflat]

/-- Behind the last size line every call returns 0. -/
theorem delivers_nothing (hs : s.chunkedTransfer = true) (hlength : s.contentLength = 0)
    (heof : s.eof = true) (hextra : s.extraReadBuffer = none)
    (hsize : 0 < size) : Delivers size s [] := by
  have hnot : ¬ (0 < s.enter.contentLength ∧ s.enter.contentLength = s.enter.readBytes) := by
    have hlength' : s.enter.contentLength = 0 := hlength
    rw [hlength']
    omega
  have hextra' : s.enter.extraReadBuffer = none := hextra
  have hstart : startPass size s.enter
      = some (.ok (.returned ({ ret := .ok 0, stored := [0] }, s.enter))) := by
    simp only [startPass, hextra', if_neg hnot, receive]
    rw [if_neg (by simp [Session.enter, heof])]
    simp [decode, Session.enter, hs, decodeLoop]
  have hpass : rfc2068ChunkedRead size s
      = .ok ({ ret := .ok 0, stored := [0] }, s.enter.leave) := by
    simp [rfc2068ChunkedRead, chunkedReadPass, hstart, finishPass]
  exact delivers_pass hpass hsize (.inl ⟨rfl, rfl⟩)

/-- What a pass between two chunks does. -/
theorem decode_pass {stream' : Stream Unit} {d : Bytes} {m : ℕ} {q : Option Place}
    (ha : Awaits s p stash stream) (hcoded : Coded last tail p body stash (contents stream))
    (hleft : p.left = 0) (hread : readSome (askBetween size p.stash) stream = (.ok d, stream'))
    (hd : d ≠ []) (hroom : p.stash + d.length < size)
    (hland : land last p.chunks (p.stash + d.length) = some (m, q)) :
    ∃ text rest stash' more, body = text ++ rest ∧ text.length = m ∧
      (text ++ more).length ≤ size ∧
      startPass size s.enter
        = some (.ok (outcome text (text ++ more) stash' (afterRead s.enter d stream') q)) ∧
      (q = none → rest = []) ∧
      ∀ q', q = some q' → Coded last tail q' rest stash' (contents stream') := by
  obtain ⟨rest, hrest, hstash, hbody, htext⟩ := hcoded
  obtain rfl : rest = [] := List.length_eq_zero_iff.mp (by omega)
  rw [readSome_contents hread, ← List.append_assoc, List.nil_append] at htext
  rw [List.nil_append] at hbody
  subst hbody
  have hlen : (stash ++ d).length = p.stash + d.length := by rw [List.length_append, hstash]
  rw [← hlen] at hland
  have hstart := start_between ha.enter hleft hread hd hroom (stash_open hland hd htext)
  obtain ⟨stash', more, hloop, hsize, hm, hnone, hsome⟩ :=
    @decodeLoop_land last [] (stash ++ d) [] (afterRead s.enter d stream')
      ((stash ++ d).length + 1) p.chunks (contents stream') tail m q hland
      (by rw [← Nat.cast_zero, ← hleft]; exact ha.chunkSize) ha.eof rfl (by simp [hd]) (by omega)
      htext
  simp only [List.nil_append, List.length_nil] at hloop hsize
  refine ⟨(bodyOf p.chunks).take m, (bodyOf p.chunks).drop m, stash', more, ?_, ?_, ?_, ?_, ?_,
    hsome⟩
  · rw [List.take_append_drop]
  · rw [List.length_take]
    omega
  · rw [List.length_append]
    omega
  · rw [hstart, hloop]
  · intro hq
    rw [hnone hq, List.drop_length]

theorem awaits_settle (stream' : Stream Unit) (d : Bytes) {stash' : Bytes} {q : Place} (r : ℕ)
    (ha : Awaits s p stash stream) (hstash : stash'.length = q.stash) :
    Awaits { settle (afterRead s d stream') stash' (some q) with readRefCnt := r } q stash'
      stream' := by
  obtain ⟨k, hk, -⟩ := Option.map_eq_some_iff.mp ha.socket
  exact ⟨ha.chunked, ha.noLength, ha.eof, rfl, rfl, hstash, by simp [settle, afterRead, hk]⟩

/-- A call, from the pass on that has already stashed everything k times, returns the
front of the body, and the calls after it the rest. -/
def PassDelivers (size k : ℕ) (s : Session UInt8) (body : Bytes) : Prop :=
  ∃ n stored s', chunkedReadPass (3 - k) size s = .ok ({ ret := .ok n, stored := stored }, s') ∧
    s'.readRefCnt = k ∧ stored.length ≤ size ∧ n ≤ stored.length ∧
    (n = 0 ∧ body = [] ∨ 0 < n ∧ ∃ body', body = stored.take n ++ body' ∧
      Delivers size { s' with readRefCnt := 0 } body')

theorem delivers_of_pass (h : PassDelivers size 0 s body) : Delivers size s body := by
  obtain ⟨n, stored, s', hpass, href, hroom, -, hcases⟩ := h
  have hsame : { s' with readRefCnt := 0 } = s' := by rw [← href]
  rw [hsame] at hcases
  exact delivers_pass hpass hroom hcases

/-- A pass that returns body bytes. -/
theorem passDelivers_returned {k : ℕ} {text rest : Bytes} (more : Bytes) (hk : k ≤ 2) (hne : text ≠ [])
    (hsize : (text ++ more).length ≤ size)
    (hstart : startPass size s.enter
      = some (.ok (.returned ({ ret := .ok text.length, stored := text ++ more }, s'))))
    (href : s'.readRefCnt = k + 1) (hrest : Delivers size { s' with readRefCnt := 0 } rest) :
    PassDelivers size k s (text ++ rest) := by
  obtain ⟨passes, hpasses⟩ : ∃ n, 3 - k = n + 1 := ⟨2 - k, by omega⟩
  refine ⟨text.length, text ++ more, s'.leave, ?_, ?_, hsize, ?_, .inr ⟨?_, rest, ?_, hrest⟩⟩
  · rw [hpasses, chunkedReadPass, hstart]
    rfl
  · simp [Session.leave, href]
  · simp
  · exact List.length_pos_iff.mpr hne
  · rw [List.take_left' rfl]

theorem pass_clean {k : ℕ} (h : Clean last size k p stream) (hk : k ≤ 2)
    (ha : Awaits s p stash stream) (hcoded : Coded last tail p body stash (contents stream))
    (href : s.readRefCnt = k) : PassDelivers size k s body := by
  induction h generalizing s stash body with
  | @inside k p stream stream' d hleft hread hd hrest ih =>
    obtain ⟨rest, hlen, hstash, rfl, htext⟩ := hcoded
    have hzero : p.stash = 0 := p.alone.resolve_left (by omega)
    obtain rfl : stash = [] := List.length_eq_zero_iff.mp (by omega)
    rw [readSome_contents hread, List.nil_append] at htext
    have hask : d.length ≤ p.left := by
      have hlength := readSome_length hread
      unfold askInside at hlength
      split at hlength <;> omega
    obtain ⟨rest', rfl, htext'⟩ := prefix_of_append htext (by omega)
    rw [List.length_append] at hlen
    have hroom : d.length ≤ size := by
      have hlength := readSome_length hread
      unfold askInside at hlength
      split at hlength <;> omega
    have hstart := start_inside ha.enter hleft hread hd
    rw [List.append_assoc]
    obtain ⟨sock, hsock, -⟩ := Option.map_eq_some_iff.mp ha.socket
    have hawaits : Awaits
        { afterRead s.enter d stream' with
          chunkSize := s.enter.chunkSize - d.length
          readRefCnt := 0 }
        ⟨p.left - d.length, p.chunks, 0, .inr rfl⟩ [] stream' := by
      have hchunk : s.enter.chunkSize = p.left := ha.chunkSize
      refine ⟨ha.chunked, ha.noLength, ha.eof, ?_, rfl, rfl, ?_⟩
      · simp only [hchunk]
        omega
      · simp [afterRead, Session.enter, hsock]
    have hlen' : rest'.length = p.left - d.length := by omega
    exact passDelivers_returned [] hk hd (by simpa using hroom) (by simpa using hstart)
      (by simp [afterRead, Session.enter, href])
      (delivers_of_pass (ih (by omega) hawaits ⟨rest', hlen', rfl, rfl, htext'⟩ rfl))
  | @between k p q stream stream' d hleft hread hd hroom hland hopen hk' hrest ih =>
    obtain ⟨text, rest, stash', more, rfl, hlen, hsize, hstart, -, hnext⟩ :=
      decode_pass ha hcoded hleft hread hd hroom hland
    obtain rfl : text = [] := List.length_eq_zero_iff.mp hlen
    have hcoded' := hnext q rfl
    obtain ⟨rest', hrest', hstash, -, -⟩ := hcoded'
    -- everything is stashed, and the function calls itself
    have hstart' : startPass size s.enter
        = some (.ok (.stashed more (settle (afterRead s.enter d stream') stash' (some q)))) := by
      simpa [outcome, hopen] using hstart
    have href' : (settle (afterRead s.enter d stream') stash' (some q)).readRefCnt = k + 1 := by
      simp [settle, afterRead, Session.enter, href]
    have hawaits := awaits_settle stream' d (k + 1) ha.enter hstash
    have hsame : { settle (afterRead s.enter d stream') stash' (some q) with readRefCnt := k + 1 }
        = settle (afterRead s.enter d stream') stash' (some q) := by rw [← href']
    rw [hsame] at hawaits
    obtain ⟨n, stored, s', hpass, hcount, hstored, hn, hcases⟩ :=
      ih (by omega) hawaits (hnext q rfl) href'
    have hpasses : 3 - k = (3 - (k + 1)) + 1 := by omega
    refine ⟨n, stored ++ more.drop stored.length, s'.leave, ?_, ?_, ?_, ?_, ?_⟩
    · rw [hpasses, chunkedReadPass, hstart']
      simp only [CRun.ok_bind, finishPass, href', if_neg (by omega : ¬ 2 < k + 1), hpass]
      rfl
    · simp [Session.leave, hcount]
    · rw [List.nil_append] at hsize
      rw [List.length_append, List.length_drop]
      omega
    · rw [List.length_append]
      omega
    · rw [List.take_append_of_le_length hn]
      exact hcases
  | @behind k m p q stream stream' d hleft hread hd hroom hland hm hrest ih =>
    obtain ⟨text, rest, stash', more, rfl, hlen, hsize, hstart, -, hnext⟩ :=
      decode_pass ha hcoded hleft hread hd hroom hland
    have hcoded' := hnext q rfl
    have hne : text ≠ [] := by
      intro hnil
      rw [hnil, List.length_nil] at hlen
      omega
    refine passDelivers_returned more hk hne hsize (by simpa [outcome, hne] using hstart)
      (by simp [settle, afterRead, Session.enter, href]) ?_
    obtain ⟨rest', hrest', hstash, -, -⟩ := hcoded'
    exact delivers_of_pass (ih (by omega) (awaits_settle stream' d 0 ha.enter hstash) (hnext q rfl) rfl)
  | @ended k m p stream stream' d hleft hread hd hroom hland =>
    obtain ⟨text, rest, stash', more, rfl, hlen, hsize, hstart, hnone, -⟩ :=
      decode_pass ha hcoded hleft hread hd hroom hland
    obtain rfl := hnone rfl
    have hend : Delivers size { settle (afterRead s.enter d stream') stash' none with
        readRefCnt := 0 } [] :=
      delivers_nothing ha.chunked ha.noLength rfl rfl (by omega)
    by_cases hne : text = []
    · subst hne
      obtain ⟨passes, hpasses⟩ : ∃ n, 3 - k = n + 1 := ⟨2 - k, by omega⟩
      refine ⟨0, more, (settle (afterRead s.enter d stream') stash' none).leave, ?_, ?_, hsize,
        Nat.zero_le _, .inl ⟨rfl, rfl⟩⟩
      · rw [hpasses, chunkedReadPass, hstart]
        simp [outcome, finishPass]
      · simp [settle, afterRead, Session.leave, Session.enter, href]
    · exact passDelivers_returned more hk hne hsize (by simpa [outcome, hne] using hstart)
        (by simp [settle, afterRead, Session.enter, href]) hend

end Runs

section Responses

/-- The bytes of a line buffer that no call has returned yet. -/
def bufferedIn (b : GetlineBuffer UInt8) : Bytes := (b.buffer.drop b.curpos).take b.curBufsize

/-- The response has been read up to the line of the first chunk size; text is what the
line buffer holds behind it. -/
structure FirstLine (b : GetlineBuffer UInt8) (s : Session UInt8) (text : Bytes)
    (stream : Stream Unit) : Prop where
  buffered : bufferedIn b = text
  counted : text.length = b.curBufsize
  small : b.curBufsize ≤ lineSize
  noLength : s.contentLength = 0
  eof : s.eof = false
  extra : s.extraReadBuffer = none
  outside : s.readRefCnt = 0
  socket : s.datafd.map Socket.stream = some stream

/-- The place after the first n bytes behind the line of the first chunk size. -/
def firstPlace (c : WireChunk) (cs : List WireChunk) (n : ℕ) : Place :=
  ⟨c.data.length - n, cs, n - c.data.length, by omega⟩

/-- What the line buffer hands out and what rfc2068_chunked_read returns until its first 0
are this body. -/
def DecodesBody (size : ℕ) (v : ℤ) (b : GetlineBuffer UInt8) (s : Session UInt8) (body : Bytes) :
    Prop :=
  ∃ b' s' rest, firstChunk v b s = .ok (b', s') ∧
    Delivers size { s' with chunkedTransfer := true } rest ∧ bufferedIn b' ++ rest = body

variable {last : LastChunk} {c : WireChunk} {cs : List WireChunk} {b : GetlineBuffer UInt8}
  {s : Session UInt8} {text tail : Bytes} {stream : Stream Unit} {size : ℕ}

/-- The chunk reaches to the end of the line buffer or beyond it. -/
theorem firstChunk_inside (h : FirstLine b s text stream) (hle : text.length ≤ c.data.length) :
    firstChunk c.data.length b s
      = .ok (b, { s with chunkSize := (c.data.length - text.length : ℕ) }) := by
  have hfits := c.fits
  have hcount := h.counted
  have hleft : offT ((c.data.length : ℤ) - b.curBufsize) = (c.data.length - text.length : ℕ) := by
    rw [offT_small (by omega) (by omega)]
    omega
  simp only [firstChunk, hleft, pure, Except.pure]
  rw [if_neg (by omega)]

/-- The chunk ends within the line buffer: what lies behind it is stashed. -/
theorem firstChunk_behind {rest : Bytes} (h : FirstLine b s text stream)
    (htext : text = c.data ++ rest) (hrest : rest ≠ []) :
    ∃ b', firstChunk c.data.length b s
        = .ok (b', { s with chunkSize := 0, extraReadBuffer := some rest }) ∧
      bufferedIn b' = c.data := by
  have hfits := c.fits
  have hcount := h.counted
  have hsmall := h.small
  have hpos := List.length_pos_iff.mpr hrest
  have hlen : text.length = c.data.length + rest.length := by rw [htext, List.length_append]
  have hline : lineSize = 8192 := rfl
  have hin : b.curpos + b.curBufsize ≤ b.buffer.length := by
    have hbuf := congrArg List.length h.buffered
    simp only [bufferedIn, List.length_take, List.length_drop] at hbuf
    omega
  have hleft : offT ((c.data.length : ℤ) - b.curBufsize) = -(rest.length : ℤ) := by
    rw [offT_small (by omega) (by omega)]
    omega
  have habs : (-(rest.length : ℤ)).natAbs = rest.length := by omega
  have hcut : b.curpos + b.curBufsize - rest.length = b.curpos + c.data.length := by omega
  have hstash : (b.buffer.drop (b.curpos + c.data.length)).take rest.length = rest := by
    have hdrop : (bufferedIn b).drop c.data.length = rest := by
      rw [h.buffered, htext, List.drop_left' rfl]
    rw [bufferedIn, List.drop_take, List.drop_drop] at hdrop
    rw [show rest.length = b.curBufsize - c.data.length by omega]
    exact hdrop
  have hstored : store b.buffer (b.curpos + c.data.length) [nul]
      = .ok (b.buffer.take (b.curpos + c.data.length) ++ ([nul] ++
        b.buffer.drop (b.curpos + c.data.length + 1))) := by
    rw [store, if_pos (by simp only [List.length_singleton]; omega), List.length_singleton]
  have hsub : LineReader.sizeSub b.curBufsize rest.length = c.data.length := by
    rw [LineReader.sizeSub, if_pos (by omega)]
    omega
  refine ⟨{ b with
    buffer := b.buffer.take (b.curpos + c.data.length) ++ ([nul] ++
      b.buffer.drop (b.curpos + c.data.length + 1))
    curBufsize := c.data.length }, ?_, ?_⟩
  · simp only [firstChunk, hleft, habs, stashBehind, hcut, hstored, hsub, hstash]
    rw [if_pos (by omega), if_pos (by omega)]
    rfl
  · have hfront : (bufferedIn b).take c.data.length = c.data := by
      rw [h.buffered, htext, List.take_left' rfl]
    rw [bufferedIn, List.take_take, Nat.min_eq_left (by omega)] at hfront
    have hlong : b.curpos + c.data.length ≤ b.buffer.length := by omega
    simp only [bufferedIn]
    rw [List.drop_append_of_le_length (by rw [List.length_take]; omega), List.drop_take,
      Nat.add_sub_cancel_left, List.take_append_of_le_length (by
        rw [List.length_take, List.length_drop]
        omega), List.take_take, Nat.min_self]
    exact hfront

/-- On a clean segmentation the whole body is returned. -/
theorem coded_body_decoded (h : FirstLine b s text stream)
    (hcode : text ++ contents stream = c.data ++ (wire last cs ++ tail))
    (hclean : Clean last size 0 (firstPlace c cs text.length) stream) :
    DecodesBody size c.data.length b s (c.data ++ bodyOf cs) := by
  by_cases hle : text.length ≤ c.data.length
  · obtain ⟨rest, hdata, hrest⟩ := prefix_of_append hcode hle
    have hlen : c.data.length = text.length + rest.length := by rw [hdata, List.length_append]
    refine ⟨b, _, rest ++ bodyOf cs, firstChunk_inside h hle, ?_, ?_⟩
    · have hstash : (firstPlace c cs text.length).stash = 0 := Nat.sub_eq_zero_of_le hle
      have hawaits : Awaits { s with
          chunkSize := (c.data.length - text.length : ℕ)
          chunkedTransfer := true } (firstPlace c cs text.length) [] stream :=
        ⟨rfl, h.noLength, h.eof, rfl, by rw [if_pos hstash]; exact h.extra,
          hstash.symm, h.socket⟩
      have hcoded : Coded last tail (firstPlace c cs text.length) (rest ++ bodyOf cs) []
          (contents stream) :=
        ⟨rest, by simp only [firstPlace]; omega, hstash.symm, rfl, hrest⟩
      exact delivers_of_pass (pass_clean hclean (by omega) hawaits hcoded h.outside)
    · rw [h.buffered, hdata, List.append_assoc]
  · obtain ⟨rest, htext, hrest⟩ := prefix_of_append hcode.symm (by omega)
    have hlen : text.length = c.data.length + rest.length := by rw [htext, List.length_append]
    have hne : rest ≠ [] := by
      intro hnil
      rw [hnil, List.length_nil] at hlen
      omega
    obtain ⟨b', hfirst, hbuffered⟩ := firstChunk_behind h htext hne
    refine ⟨b', _, bodyOf cs, hfirst, ?_, by rw [hbuffered]⟩
    have hstash : (firstPlace c cs text.length).stash = rest.length := by
      simp only [firstPlace]
      omega
    have hposr := List.length_pos_iff.mpr hne
    have hawaits : Awaits { s with
        chunkSize := 0
        extraReadBuffer := some rest
        chunkedTransfer := true } (firstPlace c cs text.length) rest stream :=
      ⟨rfl, h.noLength, h.eof, by simp only [firstPlace]; omega,
        by rw [if_neg (by omega)], hstash.symm, h.socket⟩
    have hcoded : Coded last tail (firstPlace c cs text.length) (bodyOf cs) rest
        (contents stream) :=
      ⟨[], by simp only [firstPlace, List.length_nil]; omega, hstash.symm, rfl, hrest.symm⟩
    exact delivers_of_pass (pass_clean hclean (by omega) hawaits hcoded h.outside)

/-- A size without leading zeros or an extension. -/
def digit (b : UInt8) (h : isHexDigit b = true) : SizeText where
  digits := [b]
  ext := []
  digits_ne := by simp
  digits_hex := by simpa using h
  separates := by intro x hx; simp at hx
  oneLine := by simp

def hiChunk : WireChunk := ⟨digit 50 (by decide), ascii "hi", by decide, by decide, by decide⟩

def abcChunk : WireChunk := ⟨digit 51 (by decide), ascii "abc", by decide, by decide, by decide⟩

def zeroChunk : LastChunk := ⟨digit 48 (by decide), by decide⟩

/-- The line buffer behind the first size line, when the header, the line and the first
chunk came in one segment. -/
def sizeRead : GetlineBuffer UInt8 :=
  ⟨ascii "HTTP/1.1 200 OK" ++ [0, 10] ++ ascii "Transfer-Encoding: chunked" ++ [0, 10, 0, 10, 50, 0, 10]
    ++ ascii "hi" ++ List.replicate 8141 0, 50, 8192, 2, false⟩

def afterSize (segments : List Bytes) : Session UInt8 :=
  ⟨52, 0, 0, false, false, 0, none, some ⟨segments.map .ok, 52, [0]⟩⟩

theorem three_reads_decoded :
    DecodesBody 16 2 sizeRead
      (afterSize [ascii "\r\n3\r\nab", ascii "c", ascii "\r\n0\r\n", ascii "\r\n"])
      (ascii "hiabc") :=
  @coded_body_decoded zeroChunk hiChunk [abcChunk] sizeRead _ (ascii "hi") [] _ 16
    ⟨by decide, rfl, by decide, rfl, rfl, rfl, rfl, rfl⟩ (by decide)
    (.behind rfl rfl (by decide) (by decide) rfl (by decide)
      (.inside (by decide) rfl (by decide)
        (.ended rfl rfl (by decide) (by decide) rfl)))

/-- The end of the coded body in one read: the line break behind the last size line is
returned as two more bytes of the body. -/
theorem last_line_break_returned :
    ascii "hi" ++ ascii "\r\n0\r\n\r\n" = hiChunk.data ++ wire zeroChunk [] ∧
      DecodesBody 16 2 sizeRead (afterSize [ascii "\r\n0\r\n\r\n"]) (ascii "hi\r\n") ∧
      ¬ DecodesBody 16 2 sizeRead (afterSize [ascii "\r\n0\r\n\r\n"]) (ascii "hi") := by
  have hline : FirstLine sizeRead (afterSize [ascii "\r\n0\r\n\r\n"]) (ascii "hi")
      [.ok (ascii "\r\n0\r\n\r\n")] :=
    ⟨by decide, rfl, by decide, rfl, rfl, rfl, rfl, rfl⟩
  have hfirst := firstChunk_inside (c := hiChunk) hline (by decide)
  have hreads : readsUntilZero 16 2 { afterSize [ascii "\r\n0\r\n\r\n"] with
      chunkSize := 0
      chunkedTransfer := true } = .ok (.ok [ascii "\r\n"]) := by decide
  refine ⟨by decide, ⟨sizeRead, _, ascii "\r\n", hfirst, ⟨2, _, hreads, rfl⟩, ?_⟩, ?_⟩
  · rw [hline.buffered]
    rfl
  · intro hdecodes
    obtain ⟨b', s', rest, hfirst', ⟨calls, values, hvalues, hflat⟩, hbody⟩ := hdecodes
    have hsame := hfirst.symm.trans hfirst'
    simp only [Except.ok.injEq, Prod.mk.injEq] at hsame
    obtain ⟨rfl, rfl⟩ := hsame
    have hunique := readsUntilZero_unique hreads hvalues
    subst hunique hflat
    rw [hline.buffered] at hbody
    exact absurd hbody (by decide)

end Responses

end Gftp.HttpChunks
