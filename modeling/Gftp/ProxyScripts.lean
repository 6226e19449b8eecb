import Gftp.Decimal
import Gftp.FtpCommands
import Gftp.TextIndices
import Mathlib.Algebra.Order.BigOperators.Group.List

/-!
parse_ftp_proxy_string, which makes the login dialogue with an FTP proxy server from the
template proxy_config. The text between two escapes is copied when the second one is met, and
a port goes through an array of six bytes.
-/

namespace Gftp.ProxyScripts

open ByteStrings Decimal FtpCommands TextIndices

/-- The letter behind the percent sign: p for the proxy server, h for the host. -/
inductive Side
  | proxy
  | host
  deriving DecidableEq

/-- The second letter of an escape. -/
inductive Field
  | user
  | password
  | hostname
  | port
  | account
  deriving DecidableEq

inductive Token
  | char (c : UInt8)
  | value (side : Side) (field : Field)
  | newline
  deriving DecidableEq

/-- The options ftp_proxy_* and the fields of the request. -/
structure Login where
  user : Side → Option CString
  password : Side → Option CString
  hostname : Side → Option CString
  account : Side → Option CString
  proxyPort : Int32
  port : UInt32

/-- What %d prints: the port of the request is an unsigned int. -/
def Login.printedPort (login : Login) : Side → Bytes
  | .proxy => decimal login.proxyPort.toInt
  | .host => decimal login.port.toInt32.toInt

theorem nul_not_mem_printedPort (login : Login) (side : Side) : 0 ∉ login.printedPort side := by
  have hdecimal : ∀ n : ℤ, 0 ∉ decimal n := by
    intro n h
    rcases decimal_all n 0 h with h | h <;> cases h
  cases side with
  | proxy => exact hdecimal _
  | host => exact hdecimal _

/-- The array tempport holds five characters and the terminator. -/
def Login.tempport (login : Login) (side : Side) : CString where
  bytes := (login.printedPort side).take 5
  nul_free h := nul_not_mem_printedPort login side (List.mem_of_mem_take h)

/-- newval, NULL for a value that is absent. -/
def Login.newval (login : Login) (side : Side) : Field → Option CString
  | .user => login.user side
  | .password => login.password side
  | .hostname => login.hostname side
  | .port => some (login.tempport side)
  | .account => login.account side

def toLower (b : UInt8) : UInt8 := if 65 ≤ b ∧ b ≤ 90 then b + 32 else b

def sideOf (b : UInt8) : Option Side :=
  if toLower b = 112 then some .proxy else if toLower b = 104 then some .host else none

def fieldOf (b : UInt8) : Option Field :=
  if toLower b = 117 then some .user
  else if toLower b = 112 then some .password
  else if toLower b = 104 then some .hostname
  else if toLower b = 111 then some .port
  else if toLower b = 97 then some .account
  else none

/-- The tests on endpos. An escape that is not known is an ordinary character. -/
def tokenAt (block : Bytes) (endpos : ℕ) : CRun Token := do
  let c ← readAt block endpos
  if c = 37 then
    let letter ← readAt block (endpos + 1)
    match sideOf letter with
    | some side =>
        match fieldOf (← readAt block (endpos + 2)) with
        | some field => return .value side field
        | none => return .char c
    | none => if toLower letter = 110 then return .newline else return .char c
  else return .char c

/-- The local variables, with the block of proxy_config. -/
structure State where
  block : Bytes
  startpos : ℕ
  endpos : ℕ
  newstr : Bytes
  len : ℕ

/-- g_realloc; what is new is not read before it is written. -/
def realloc (block : Bytes) (n : ℕ) : Bytes := block.take n ++ List.replicate (n - block.length) 0

def strcat (dest src : Bytes) : CRun Bytes := do
  overwrite dest (← strlen dest 0) (src ++ [0])

/-- The literal text and what stands for the escape are added to newstr. endpos is at a percent
sign, which is a terminator meanwhile. -/
def addEscape (added : Option Bytes) (width : ℕ) (s : State) : CRun State := do
  let savechar ← readAt s.block s.endpos
  let block ← writeAt s.block s.endpos 0
  let text ← textFrom block s.startpos
  let len := s.len + text.length + (added.getD []).length
  let newstr ← strcat (realloc s.newstr (len + 1)) text
  let newstr ← match added with
    | none => pure newstr
    | some value => strcat newstr value
  let block ← writeAt block s.endpos savechar
  return ⟨block, s.endpos + width, s.endpos + width, newstr, len⟩

/-- A value as it is added: converted when gftp_string_from_utf8 can do it. -/
def converted (fromUtf8 : FromUtf8) (value : CString) : Bytes :=
  match fromUtf8 value with
  | some utf8 => cstr utf8
  | none => value.bytes

def step (fromUtf8 : FromUtf8) (login : Login) (s : State) : CRun State := do
  match ← tokenAt s.block s.endpos with
  | .char _ => return { s with endpos := s.endpos + 1 }
  | .newline => addEscape (some crlf) 2 s
  | .value side field => addEscape ((login.newval side field).map (converted fromUtf8)) 3 s

def parseLoop (fromUtf8 : FromUtf8) (login : Login) : ℕ → State → CRun State
  | 0, _ => .error .pending
  | fuel + 1, s => do
      if (← readAt s.block s.endpos) = 0 then return s
      else parseLoop fromUtf8 login fuel (← step fromUtf8 login s)

/-- parse_ftp_proxy_string: the block of the template afterwards and the string that is returned. -/
def parseFtpProxyString (fromUtf8 : FromUtf8) (login : Login) (block : Bytes) : CRun (Bytes × Bytes) := do
  let s ← parseLoop fromUtf8 login (block.length + 1) ⟨block, 0, 0, [0], 0⟩
  return (s.block, ← textFrom s.newstr 0)

/-- The token that a text begins with and the characters that belong to it besides the first. -/
def firstToken : Bytes → Token × ℕ
  | 37 :: letter :: rest =>
      match sideOf letter, fieldOf (rest.headD 0) with
      | some side, some field => (.value side field, 2)
      | some _, none => (.char 37, 0)
      | none, _ => if toLower letter = 110 then (.newline, 1) else (.char 37, 0)
  | c :: _ => (.char c, 0)
  | [] => (.char 0, 0)

/-- The tokens of a text behind some characters of an escape. -/
def tokensFrom : ℕ → Bytes → List Token
  | _, [] => []
  | skip + 1, _ :: text => tokensFrom skip text
  | 0, c :: text => (firstToken (c :: text)).1 :: tokensFrom (firstToken (c :: text)).2 text

def tokens (template : Bytes) : List Token := tokensFrom 0 template

/-- The value of a field; a port is printed whole. -/
def Login.value (login : Login) (side : Side) : Field → Option CString
  | .port => some ⟨login.printedPort side, nul_not_mem_printedPort login side⟩
  | field => login.newval side field

/-- What a token stands for. -/
def render (fromUtf8 : FromUtf8) (value : Side → Field → Option CString) : Token → Bytes
  | .char c => [c]
  | .newline => crlf
  | .value side field => ((value side field).map (converted fromUtf8)).getD []

/-- The template with every escape replaced. -/
def expansion (fromUtf8 : FromUtf8) (login : Login) (template : Bytes) : Bytes :=
  (tokens template).flatMap (render fromUtf8 login.value)

/-- The expansion is returned, and the template is as it was, also behind its end. -/
def Expands (fromUtf8 : FromUtf8) (login : Login) (template : CString) : Prop :=
  ∀ rest, parseFtpProxyString fromUtf8 login (template.bytes ++ 0 :: rest) =
    .ok (template.bytes ++ 0 :: rest, expansion fromUtf8 login template.bytes)

theorem tokensFrom_drop (skip : ℕ) (text : Bytes) : tokensFrom skip text = tokens (text.drop skip) := by
  induction skip generalizing text with
  | zero => rfl
  | succ skip ih =>
    cases text with
    | nil => rfl
    | cons c text => exact ih text

theorem tokens_cons (c : UInt8) (text : Bytes) : tokens (c :: text) =
    (firstToken (c :: text)).1 :: tokens (text.drop (firstToken (c :: text)).2) := by
  rw [tokens, tokensFrom, tokensFrom_drop]

theorem firstToken_char {c : UInt8} (hc : c ≠ 37) (text : Bytes) :
    firstToken (c :: text) = (.char c, 0) := by
  rw [firstToken]
  exact fun _ _ h => absurd h hc

/-- A text begins with a character, with the two of a new line or with the three of a value. -/
theorem firstToken_cases (c : UInt8) (text : Bytes) :
    firstToken (c :: text) = (.char c, 0) ∨
      (∃ a tail, text = a :: tail ∧ firstToken (c :: text) = (.newline, 1)) ∨
        ∃ a b tail side field, text = a :: b :: tail ∧
          firstToken (c :: text) = (.value side field, 2) := by
  by_cases hc : c = 37
  · subst hc
    cases text with
    | nil => exact Or.inl rfl
    | cons a text =>
      rw [firstToken]
      cases hside : sideOf a with
      | none =>
        by_cases hn : toLower a = 110
        · exact Or.inr (Or.inl ⟨a, text, rfl, by simp [hn]⟩)
        · exact Or.inl (by simp [hn])
      | some side =>
        cases text with
        | nil => exact Or.inl rfl
        | cons b text =>
          cases hfield : fieldOf b with
          | none => exact Or.inl (by simp [hfield])
          | some field => exact Or.inr (Or.inr ⟨a, b, text, side, field, rfl, by simp [hfield]⟩)
  · exact Or.inl (firstToken_char hc text)

theorem tokenAt_text (front text rest : Bytes) (c : UInt8) :
    tokenAt (front ++ (c :: text ++ 0 :: rest)) front.length = .ok (firstToken (c :: text)).1 := by
  have hfirst : readAt (front ++ (c :: text ++ 0 :: rest)) front.length = .ok c :=
    readAt_front front c (text ++ 0 :: rest)
  have hsecond : readAt (front ++ (c :: text ++ 0 :: rest)) (front.length + 1) = .ok (text.headD 0) :=
    readAt_behind front c text rest
  rw [tokenAt, hfirst, CRun.ok_bind]
  by_cases hc : c = 37
  · subst hc
    rw [if_pos rfl, hsecond, CRun.ok_bind]
    cases text with
    | nil => rfl
    | cons a text =>
      have hthird : readAt (front ++ (37 :: a :: text ++ 0 :: rest)) (front.length + 2) =
          .ok (text.headD 0) := by
        have hread := readAt_behind (front ++ [37]) a text rest
        rw [List.length_append, List.append_assoc] at hread
        exact hread
      simp only [firstToken, List.headD_cons, hthird]
      cases sideOf a with
      | none => by_cases hn : toLower a = 110 <;> simp [hn] <;> rfl
      | some side =>
        simp only [CRun.ok_bind]
        cases fieldOf (text.headD 0) <;> rfl
  · rw [if_neg hc, firstToken_char hc]
    rfl

theorem strcat_room {out t : Bytes} {k : ℕ} (hout : 0 ∉ out) (hk : t.length ≤ k) :
    strcat (out ++ 0 :: List.replicate k 0) t =
      .ok (out ++ t ++ 0 :: List.replicate (k - t.length) 0) := by
  have hlen := strlen_text hout [] (List.replicate k 0)
  rw [List.nil_append, List.length_nil] at hlen
  have hold : List.replicate (k + 1) (0 : UInt8) =
      List.replicate (t ++ [0]).length 0 ++ List.replicate (k - t.length) 0 := by
    rw [List.replicate_append_replicate, List.length_append, List.length_singleton]
    congr 1
    omega
  rw [strcat, hlen, CRun.ok_bind, ← List.replicate_succ, hold,
    overwrite_middle rfl (List.length_replicate).symm]
  simp

theorem realloc_string (out : Bytes) (k : ℕ) :
    realloc (out ++ [0]) (out.length + k + 1) = out ++ 0 :: List.replicate k 0 := by
  rw [realloc, List.take_of_length_le (by simp), List.append_assoc, List.singleton_append,
    List.length_append, List.length_singleton]
  congr 3
  omega

/-- The variables between two rounds: the template is the text that is done, the literal since
the last escape and the rest. -/
def stateAt (done lit text rest out : Bytes) : State :=
  ⟨done ++ (lit ++ (text ++ 0 :: rest)), done.length, (done ++ lit).length, out ++ [0], out.length⟩

variable {fromUtf8 : FromUtf8} {login : Login} {done lit text rest out : Bytes}

theorem addEscape_stateAt {added : Option Bytes} {c : UInt8} (hlit : 0 ∉ lit) (hout : 0 ∉ out)
    (width : ℕ) :
    addEscape added width (stateAt done lit (c :: text) rest out) =
      .ok ⟨done ++ (lit ++ (c :: text ++ 0 :: rest)), (done ++ lit).length + width,
        (done ++ lit).length + width, out ++ lit ++ added.getD [] ++ [0],
        (out ++ lit ++ added.getD []).length⟩ := by
  have hread : readAt (done ++ (lit ++ (c :: text ++ 0 :: rest))) (done ++ lit).length = .ok c := by
    rw [← List.append_assoc]
    exact readAt_front (done ++ lit) c (text ++ 0 :: rest)
  have hclose : writeAt (done ++ (lit ++ (c :: text ++ 0 :: rest))) (done ++ lit).length 0 =
      .ok (done ++ (lit ++ 0 :: (text ++ 0 :: rest))) := by
    rw [← List.append_assoc, ← List.append_assoc done]
    exact writeAt_front (done ++ lit) c (text ++ 0 :: rest) 0
  have hopen : writeAt (done ++ (lit ++ 0 :: (text ++ 0 :: rest))) (done ++ lit).length c =
      .ok (done ++ (lit ++ (c :: text ++ 0 :: rest))) := by
    rw [← List.append_assoc, ← List.append_assoc done]
    exact writeAt_front (done ++ lit) 0 (text ++ 0 :: rest) c
  have htext := textFrom_text hlit done (text ++ 0 :: rest)
  have hroom : out.length + lit.length + (added.getD []).length + 1 =
      out.length + (lit.length + (added.getD []).length) + 1 := by omega
  have hfirst := strcat_room (t := lit) (k := lit.length + (added.getD []).length) hout (by omega)
  have hlen : (out ++ lit ++ added.getD []).length = out.length + lit.length + (added.getD []).length := by
    rw [List.length_append, List.length_append]
  rw [Nat.add_sub_cancel_left] at hfirst
  simp only [hlen, addEscape, stateAt, hread, hclose, htext, CRun.ok_bind, hroom, realloc_string, hfirst]
  cases added with
  | none =>
    simp only [pure_bind, hopen, CRun.ok_bind, Option.getD_none, List.append_nil]
    rfl
  | some value =>
    have hsecond := @strcat_room (out ++ lit) value value.length
      (by simp [hout, hlit]) (Nat.le_refl _)
    simp only [Option.getD_some, hsecond, hopen, CRun.ok_bind, Nat.sub_self]
    rfl

theorem addEscape_escape {added : Option Bytes} {esc : Bytes} (hesc : esc ≠ []) (hlit : 0 ∉ lit)
    (hout : 0 ∉ out) :
    addEscape added esc.length (stateAt done lit (esc ++ text) rest out) =
      .ok (stateAt (done ++ (lit ++ esc)) [] text rest (out ++ lit ++ added.getD [])) := by
  obtain ⟨c, esc, rfl⟩ := List.exists_cons_of_ne_nil hesc
  rw [List.cons_append, addEscape_stateAt hlit hout]
  have hblock : done ++ (lit ++ (c :: (esc ++ text) ++ 0 :: rest)) =
      done ++ (lit ++ c :: esc) ++ ([] ++ (text ++ 0 :: rest)) := by simp
  have hpos : (done ++ lit).length + (c :: esc).length = (done ++ (lit ++ c :: esc)).length := by
    simp [Nat.add_assoc]
  rw [hblock, hpos, stateAt, List.append_nil]

theorem step_char {c : UInt8} (hfirst : firstToken (c :: text) = (.char c, 0)) :
    step fromUtf8 login (stateAt done lit (c :: text) rest out) =
      .ok (stateAt done (lit ++ [c]) text rest out) := by
  have htoken : tokenAt (done ++ (lit ++ (c :: text ++ 0 :: rest))) (done ++ lit).length =
      .ok (.char c) := by
    rw [← List.append_assoc, tokenAt_text, hfirst]
  simp only [step, stateAt, htoken, CRun.ok_bind]
  simp [Nat.add_assoc]
  rfl

theorem step_newline {c a : UInt8} (hfirst : firstToken (c :: a :: text) = (.newline, 1)) (hlit : 0 ∉ lit)
    (hout : 0 ∉ out) :
    step fromUtf8 login (stateAt done lit (c :: a :: text) rest out) =
      .ok (stateAt (done ++ (lit ++ [c, a])) [] text rest (out ++ lit ++ crlf)) := by
  have htoken : tokenAt (done ++ (lit ++ (c :: a :: text ++ 0 :: rest))) (done ++ lit).length =
      .ok .newline := by
    rw [← List.append_assoc, tokenAt_text, hfirst]
  rw [step]
  simp only [stateAt, htoken, CRun.ok_bind]
  exact @addEscape_escape _ _ _ _ _ (some crlf) [c, a] (by simp) hlit hout

theorem step_value {c a b : UInt8} {side : Side} {field : Field}
    (hfirst : firstToken (c :: a :: b :: text) = (.value side field, 2)) (hlit : 0 ∉ lit) (hout : 0 ∉ out) :
    step fromUtf8 login (stateAt done lit (c :: a :: b :: text) rest out) =
      .ok (stateAt (done ++ (lit ++ [c, a, b])) [] text rest
        (out ++ lit ++ ((login.newval side field).map (converted fromUtf8)).getD [])) := by
  have htoken : tokenAt (done ++ (lit ++ (c :: a :: b :: text ++ 0 :: rest))) (done ++ lit).length =
      .ok (.value side field) := by
    rw [← List.append_assoc, tokenAt_text, hfirst]
  rw [step]
  simp only [stateAt, htoken, CRun.ok_bind]
  exact @addEscape_escape _ _ _ _ _ _ [c, a, b] (by simp) hlit hout

/-- What is returned for the tokens behind a literal: a literal is copied at the next escape. -/
def flush (view : Token → Bytes) : Bytes → List Token → Bytes
  | _, [] => []
  | lit, .char c :: ts => flush view (lit ++ [c]) ts
  | lit, t :: ts => lit ++ view t ++ flush view [] ts

/-- How the function itself shows a token. -/
def shown (fromUtf8 : FromUtf8) (login : Login) : Token → Bytes := render fromUtf8 login.newval

theorem nul_not_mem_converted (fromUtf8 : FromUtf8) (value : CString) : 0 ∉ converted fromUtf8 value := by
  unfold converted
  split
  · exact nul_not_mem_cstr _
  · exact value.nul_free

theorem nul_not_mem_value (value : Option CString) :
    0 ∉ (value.map (converted fromUtf8)).getD [] := by
  cases value with
  | none => simp
  | some value => exact nul_not_mem_converted fromUtf8 value

/-- One round goes on with less text, and what has been copied and will be copied is the same. -/
theorem step_stateAt {c : UInt8} (hlit : 0 ∉ lit) (htext : 0 ∉ c :: text) (hout : 0 ∉ out) :
    ∃ done' lit' text' out', step fromUtf8 login (stateAt done lit (c :: text) rest out) =
        .ok (stateAt done' lit' text' rest out') ∧
      (0 ∉ lit' ∧ 0 ∉ text' ∧ 0 ∉ out') ∧ text'.length ≤ text.length ∧
      done' ++ (lit' ++ text') = done ++ (lit ++ c :: text) ∧
      out' ++ flush (shown fromUtf8 login) lit' (tokens text') =
        out ++ flush (shown fromUtf8 login) lit (tokens (c :: text)) := by
  have htokens := tokens_cons c text
  rcases firstToken_cases c text with h | ⟨a, tail, rfl, h⟩ | ⟨a, b, tail, side, field, rfl, h⟩
  · rw [h] at htokens
    simp only [List.mem_cons, not_or] at htext
    refine ⟨_, _, _, _, step_char h, ⟨?_, htext.2, hout⟩, Nat.le_refl _, by simp, ?_⟩
    · simp [hlit, htext.1]
    · rw [htokens]
      rfl
  · rw [h] at htokens
    simp only [List.mem_cons, not_or] at htext
    refine ⟨_, _, _, _, step_newline h hlit hout, ⟨by simp, htext.2.2, ?_⟩, Nat.le_succ _, by simp, ?_⟩
    · simp [hout, hlit, crlf]
    · rw [htokens]
      simp [flush, shown, render]
  · have hvalue := @nul_not_mem_value fromUtf8 (login.newval side field)
    rw [h] at htokens
    simp only [List.mem_cons, not_or] at htext
    refine ⟨_, _, _, _, step_value h hlit hout, ⟨by simp, htext.2.2.2, ?_⟩, ?_, by simp, ?_⟩
    · simp only [List.mem_append, not_or]
      exact ⟨⟨hout, hlit⟩, hvalue⟩
    · simp only [List.length_cons]
      omega
    · rw [htokens]
      simp [flush, shown, render]

theorem parseLoop_flush {fuel : ℕ} (hlit : 0 ∉ lit) (htext : 0 ∉ text) (hout : 0 ∉ out)
    (hfuel : text.length < fuel) :
    ∃ s, parseLoop fromUtf8 login fuel (stateAt done lit text rest out) = .ok s ∧
      s.block = done ++ (lit ++ (text ++ 0 :: rest)) ∧
      s.newstr = out ++ flush (shown fromUtf8 login) lit (tokens text) ++ [0] ∧
      0 ∉ out ++ flush (shown fromUtf8 login) lit (tokens text) := by
  induction fuel generalizing done lit text out with
  | zero => omega
  | succ fuel ih =>
    have hread : readAt (stateAt done lit text rest out).block (stateAt done lit text rest out).endpos =
        .ok (text.headD 0) := by
      rw [stateAt, ← List.append_assoc]
      exact readAt_text (done ++ lit) text rest
    rw [parseLoop, hread, CRun.ok_bind]
    cases text with
    | nil =>
      rw [show tokens [] = [] from rfl, flush, List.append_nil]
      exact ⟨_, rfl, rfl, rfl, hout⟩
    | cons c text =>
      have hc : ¬c = 0 := fun h => htext (h ▸ List.mem_cons_self ..)
      obtain ⟨done', lit', text', out', hstep, ⟨hlit', htext', hout'⟩, hlen, hblock, hflush⟩ :=
        @step_stateAt fromUtf8 login done lit text rest out c hlit htext hout
      rw [List.length_cons] at hfuel
      obtain ⟨s, hrun, hs, hnew, hnul⟩ := @ih done' lit' text' out' hlit' htext' hout' (by omega)
      rw [hflush] at hnew hnul
      rw [List.headD_cons, if_neg hc, hstep, CRun.ok_bind]
      refine ⟨s, hrun, ?_, hnew, hnul⟩
      rw [hs, ← List.append_assoc lit', ← List.append_assoc done', hblock]
      simp

/-- What is left over at the end of the template. -/
def behind : Bytes → List Token → Bytes
  | lit, [] => lit
  | lit, .char c :: ts => behind (lit ++ [c]) ts
  | _, _ :: ts => behind [] ts

theorem flush_behind {view : Token → Bytes} (hview : ∀ c, view (.char c) = [c]) (lit : Bytes)
    (ts : List Token) : flush view lit ts ++ behind lit ts = lit ++ ts.flatMap view := by
  induction ts generalizing lit with
  | nil => simp [flush, behind]
  | cons t ts ih =>
    cases t with
    | char c => simp [flush, behind, ih, hview]
    | value side field => simp [flush, behind, ih]
    | newline => simp [flush, behind, ih]

/-- The template ends with an escape, or it is empty. -/
def EndsEscaped (ts : List Token) : Prop := ∀ c, ts.getLast? ≠ some (.char c)

/-- A port that is used fits the array. -/
def PortsFit (login : Login) (ts : List Token) : Prop :=
  ∀ side, .value side .port ∈ ts → (login.printedPort side).length ≤ 5

theorem behind_append (lit : Bytes) (ts us : List Token) :
    behind lit (ts ++ us) = behind (behind lit ts) us := by
  induction ts generalizing lit with
  | nil => rfl
  | cons t ts ih => cases t <;> exact ih _

theorem behind_eq_nil_iff {ts : List Token} : behind [] ts = [] ↔ EndsEscaped ts := by
  rcases List.eq_nil_or_concat ts with rfl | ⟨front, t, rfl⟩
  · simp [behind, EndsEscaped]
  · rw [List.concat_eq_append, behind_append, EndsEscaped, List.getLast?_concat]
    cases t <;> simp [behind]

/-- The string that is returned, for every template. -/
theorem parseFtpProxyString_eq (fromUtf8 : FromUtf8) (login : Login) (template : CString) (rest : Bytes) :
    parseFtpProxyString fromUtf8 login (template.bytes ++ 0 :: rest) =
      .ok (template.bytes ++ 0 :: rest, flush (shown fromUtf8 login) [] (tokens template.bytes)) := by
  obtain ⟨s, hrun, hblock, hnew, hnul⟩ := @parseLoop_flush fromUtf8 login [] []
    template.bytes rest [] ((template.bytes ++ 0 :: rest).length + 1) (by simp) template.nul_free (by simp)
    (by rw [List.length_append, List.length_cons]; omega)
  rw [List.nil_append] at hnew hnul
  have htext := textFrom_text hnul [] []
  rw [List.nil_append, List.length_nil] at htext
  rw [parseFtpProxyString]
  have hstart : stateAt [] [] template.bytes rest [] = ⟨template.bytes ++ 0 :: rest, 0, 0, [0], 0⟩ := rfl
  rw [← hstart, hrun, CRun.ok_bind, hblock, hnew, htext]
  rfl

theorem expands_iff_flush (fromUtf8 : FromUtf8) (login : Login) (template : CString) :
    Expands fromUtf8 login template ↔
      flush (shown fromUtf8 login) [] (tokens template.bytes) =
        expansion fromUtf8 login template.bytes := by
  constructor
  · intro h
    have hrun := h []
    rw [parseFtpProxyString_eq, Except.ok.injEq, Prod.mk.injEq] at hrun
    exact hrun.2
  · intro h rest
    rw [parseFtpProxyString_eq, h]

theorem shown_eq_render {t : Token} (h : ∀ side, t = .value side .port → (login.printedPort side).length ≤ 5) :
    shown fromUtf8 login t = render fromUtf8 login.value t := by
  cases t with
  | char c => rfl
  | newline => rfl
  | value side field =>
    cases field with
    | port =>
      have hport : login.tempport side = ⟨login.printedPort side, nul_not_mem_printedPort login side⟩ := by
        unfold Login.tempport
        congr 1
        exact List.take_of_length_le (h side rfl)
      simp only [shown, render, Login.newval, Login.value, hport]
    | _ => rfl

/-- Without a conversion what is shown is not longer, and shorter for a port that is cut. -/
theorem shown_length (t : Token) :
    (shown (fun _ => none) login t).length ≤ (render (fun _ => none) login.value t).length ∧
      ∀ side, t = .value side .port → 5 < (login.printedPort side).length →
        (shown (fun _ => none) login t).length < (render (fun _ => none) login.value t).length := by
  cases t with
  | char c => exact ⟨Nat.le_refl _, nofun⟩
  | newline => exact ⟨Nat.le_refl _, nofun⟩
  | value side field =>
    cases field with
    | port =>
      have hshown : shown (fun _ => none) login (.value side .port) = (login.printedPort side).take 5 := rfl
      have hwhole : render (fun _ => none) login.value (.value side .port) = login.printedPort side := rfl
      rw [hshown, hwhole, List.length_take]
      refine ⟨Nat.min_le_right _ _, fun side' heq hlong => ?_⟩
      obtain rfl := (Token.value.inj heq).1
      omega
    | _ => exact ⟨Nat.le_refl _, nofun⟩

/-- Nothing is lost when the template ends with an escape and the ports that it uses fit. -/
theorem flush_eq_expansion {template : Bytes} (hend : EndsEscaped (tokens template))
    (hports : PortsFit login (tokens template)) :
    flush (shown fromUtf8 login) [] (tokens template) = expansion fromUtf8 login template := by
  have hflush := @flush_behind (shown fromUtf8 login) (fun _ => rfl) [] (tokens template)
  rw [behind_eq_nil_iff.mpr hend, List.append_nil, List.nil_append] at hflush
  rw [hflush, expansion]
  exact List.flatMap_congr fun t ht => shown_eq_render fun side h => hports side (h ▸ ht)

theorem flatMap_length_le {f g : Token → Bytes} {ts : List Token}
    (h : ∀ t ∈ ts, (f t).length ≤ (g t).length) : (ts.flatMap f).length ≤ (ts.flatMap g).length := by
  rw [List.length_flatMap, List.length_flatMap]
  exact List.sum_le_sum h

theorem flatMap_length_lt {f g : Token → Bytes} {ts : List Token} {t : Token} (ht : t ∈ ts)
    (h : ∀ t ∈ ts, (f t).length ≤ (g t).length) (hlt : (f t).length < (g t).length) :
    (ts.flatMap f).length < (ts.flatMap g).length := by
  obtain ⟨front, back, rfl⟩ := List.append_of_mem ht
  have hfront := @flatMap_length_le f g front fun t ht => h t (List.mem_append_left _ ht)
  have hback := @flatMap_length_le f g back fun t ht => h t (by simp [ht])
  simp only [List.flatMap_append, List.flatMap_cons, List.length_append]
  omega

/-- What is lost makes the string shorter than the expansion. -/
theorem of_flush_eq_expansion {template : Bytes}
    (h : flush (shown (fun _ => none) login) [] (tokens template) =
      expansion (fun _ => none) login template) :
    EndsEscaped (tokens template) ∧ PortsFit login (tokens template) := by
  have hflush := congrArg List.length
    (@flush_behind (shown (fun _ => none) login) (fun _ => rfl) [] (tokens template))
  have hle : ∀ t ∈ tokens template, (shown (fun _ => none) login t).length ≤
      (render (fun _ => none) login.value t).length := fun t _ => (shown_length t).1
  have htotal := flatMap_length_le hle
  rw [h, List.length_append, List.nil_append, expansion] at hflush
  constructor
  · apply behind_eq_nil_iff.mp
    apply List.length_eq_zero_iff.mp
    omega
  · intro side hmem
    by_contra hlong
    have hlt := flatMap_length_lt hmem hle ((shown_length _).2 side rfl (by omega))
    omega

/-- The template is expanded, whatever the conversion, when nothing stands behind its last escape
and the ports that it uses have at most five characters. -/
theorem proxy_script_iff (login : Login) (template : CString) :
    (∀ fromUtf8, Expands fromUtf8 login template) ↔
      EndsEscaped (tokens template.bytes) ∧ PortsFit login (tokens template.bytes) := by
  constructor
  · exact fun h => of_flush_eq_expansion ((expands_iff_flush _ login template).mp (h _))
  · exact fun ⟨hend, hports⟩ fromUtf8 =>
      (expands_iff_flush fromUtf8 login template).mpr (flush_eq_expansion hend hports)

/-- A login without any value but the default port. -/
def bare : Login := ⟨fun _ => none, fun _ => none, fun _ => none, fun _ => none, 21, 21⟩

/-- USER and PASS, with the password in the template itself. -/
def passTemplate : CString := ⟨ascii "USER %hu%nPASS x", by decide⟩

/-- The text behind the last escape is not returned. -/
theorem pass_lost : ¬∀ fromUtf8, Expands fromUtf8 bare passTemplate := by
  intro h
  have hend := (of_flush_eq_expansion ((expands_iff_flush _ bare passTemplate).mp (h _))).1
  exact hend 120 (by decide)

end Gftp.ProxyScripts
