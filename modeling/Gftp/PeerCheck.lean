import Gftp.ByteStrings

/-!
The identity check of a TLS peer. The certificate is what the library's accessors
report: its extensions in order, each with the short name of its object and its
decoded name/value list, and the first commonName of its subject as raw bytes.
gftpSslPostConnectionCheck makes the same decision as the C function, including the
copy of the common name into a 256-byte buffer and the fall through to the chain
result. PeerNamed says when a certificate names a host.
-/

namespace Gftp.PeerCheck

open ByteStrings

/-- ASCII lower case, as strcasecmp folds a byte. -/
def foldCase (b : UInt8) : UInt8 := if 65 ≤ b ∧ b ≤ 90 then b + 32 else b

def caseEq (a b : Bytes) : Prop := a.map foldCase = b.map foldCase

instance (a b : Bytes) : Decidable (caseEq a b) := inferInstanceAs (Decidable (_ = _))

structure ConfValue where
  name : CString
  value : CString

/-- known says that X509V3_EXT_get has a decoder for the extension. -/
structure X509Extension where
  shortName : CString
  known : Bool
  values : List ConfValue

/-- subject is none for a NULL subject name; commonName is its first entry of that
kind. -/
structure Subject where
  commonName : Option Bytes

structure X509 where
  extensions : List X509Extension
  subject : Option Subject

/-- request->ssl and request->hostname. peer is none when no certificate was sent. -/
structure TlsRequest where
  hostname : CString
  peer : Option X509
  verifyResult : ℤ

def x509VOk : ℤ := 0

def x509VErrApplicationVerification : ℤ := 50

def dnsEntry (host : CString) (v : ConfValue) : Bool :=
  v.name.bytes = ascii "DNS" ∧ v.value = host

/-- The two nested loops over the extensions and the entries of a subjectAltName. -/
def matchesAltName (host : CString) : List X509Extension → Bool
  | [] => false
  | ext :: rest =>
      if ext.shortName.bytes = ascii "subjectAltName" then
        if !ext.known then false
        else if ext.values.any (dnsEntry host) then true
        else matchesAltName host rest
      else matchesAltName host rest

/-- X509_NAME_get_text_by_NID into a buffer of 256 bytes, read back as a C string;
none when it returns no text. -/
def commonNameText (cn : Bytes) : Option Bytes :=
  if 0 < (cn.take 255).length then some (cstr (cn.take 255)) else none

/-- The comparison of the copied common name with the host. -/
def textMatches (data host : Bytes) : Bool :=
  if data.take 2 = ascii "*." then
    let hostnameLen := data.length - 1
    decide (hostnameLen < host.length ∧
      caseEq (data.drop 1) (host.drop (host.length - hostnameLen)))
  else decide (caseEq data host)

def gftpSslPostConnectionCheck (request : TlsRequest) : ℤ :=
  match request.peer with
  | none => x509VErrApplicationVerification
  | some cert =>
      if matchesAltName request.hostname cert.extensions then request.verifyResult
      else
        match (cert.subject.bind (·.commonName)).bind commonNameText with
        | none => request.verifyResult
        | some data =>
            if textMatches data request.hostname.bytes then request.verifyResult
            else x509VErrApplicationVerification

/-- Some subjectAltName entry of kind DNS equals the host. -/
def AltNamed (cert : X509) (host : CString) : Prop :=
  ∃ ext ∈ cert.extensions, ext.shortName.bytes = ascii "subjectAltName" ∧
    ∃ v ∈ ext.values, v.name.bytes = ascii "DNS" ∧ v.value = host

/-- A name stands for a host: it is the host up to case, or it is an asterisk and a
dot with a rest that is a proper suffix of the host up to case. -/
def NameCovers (name host : Bytes) : Prop :=
  caseEq name host ∨
    ∃ suffix front tail, name = ascii "*" ++ suffix ∧ suffix.head? = some 46 ∧
      host = front ++ tail ∧ front ≠ [] ∧ caseEq suffix tail

/-- The certificate names the host. -/
def PeerNamed (cert : X509) (host : CString) : Prop :=
  AltNamed cert host ∨
    ∃ s cn, cert.subject = some s ∧ s.commonName = some cn ∧ NameCovers cn host.bytes

theorem caseEq_length {a b : Bytes} (h : caseEq a b) : a.length = b.length := by
  simpa only [List.length_map] using congrArg List.length h

theorem caseEq_drop {a b : Bytes} (h : caseEq a b) (n : ℕ) : caseEq (a.drop n) (b.drop n) := by
  unfold caseEq at *
  rw [List.map_drop, List.map_drop, h]

theorem starDot_iff (data : Bytes) :
    data.take 2 = ascii "*." ↔ ∃ rest, data = 42 :: 46 :: rest := by
  rw [show ascii "*." = [42, 46] by decide]
  rcases data with _ | ⟨a, _ | ⟨b, rest⟩⟩ <;> simp

private theorem covers_of_wildcard {rest host : Bytes} (hlen : rest.length + 1 < host.length)
    (heq : caseEq (46 :: rest) (host.drop (host.length - (rest.length + 1)))) :
    NameCovers (42 :: 46 :: rest) host := by
  refine Or.inr ⟨46 :: rest, host.take (host.length - (rest.length + 1)),
    host.drop (host.length - (rest.length + 1)), rfl, rfl,
    (List.take_append_drop _ _).symm, ?_, heq⟩
  intro hnil
  have hzero := congrArg List.length hnil
  simp only [List.length_take, List.length_nil] at hzero
  omega

/-- The buffer comparison is the wildcard rule, whatever the name. -/
theorem textMatches_iff (data host : Bytes) :
    textMatches data host = true ↔ NameCovers data host := by
  constructor
  · intro h
    unfold textMatches at h
    split at h
    · rename_i hstar
      obtain ⟨rest, rfl⟩ := (starDot_iff data).mp hstar
      obtain ⟨hlen, heq⟩ := of_decide_eq_true h
      exact covers_of_wildcard hlen heq
    · exact Or.inl (of_decide_eq_true h)
  · rintro (heq | ⟨suffix, front, tail, rfl, hdot, rfl, hfront, heq⟩)
    · unfold textMatches
      split
      · rename_i hstar
        obtain ⟨rest, rfl⟩ := (starDot_iff data).mp hstar
        have hlen := caseEq_length heq
        simp only [List.length_cons] at hlen
        refine decide_eq_true ⟨by simp only [List.length_cons]; omega, ?_⟩
        rw [show host.length - ((42 :: 46 :: rest).length - 1) = 1 by
          simp only [List.length_cons]; omega]
        exact caseEq_drop heq 1
      · exact decide_eq_true heq
    · obtain ⟨rest, rfl⟩ : ∃ rest, suffix = 46 :: rest := by
        cases suffix with
        | nil => simp at hdot
        | cons b rest => exact ⟨rest, by simp at hdot; rw [hdot]⟩
      have hlen := caseEq_length heq
      have hpos : 0 < front.length := List.length_pos_iff.mpr hfront
      have hname : ascii "*" ++ 46 :: rest = 42 :: 46 :: rest := rfl
      unfold textMatches
      rw [hname, if_pos ((starDot_iff _).mpr ⟨rest, rfl⟩)]
      have hdata : (42 :: 46 :: rest).length - 1 = tail.length := hlen
      dsimp only
      rw [hdata, List.length_append, Nat.add_sub_cancel, List.drop_left]
      exact decide_eq_true ⟨by omega, heq⟩

theorem matchesAltName_sound {host : CString} {exts : List X509Extension}
    (h : matchesAltName host exts = true) :
    ∃ ext ∈ exts, ext.shortName.bytes = ascii "subjectAltName" ∧
      ∃ v ∈ ext.values, v.name.bytes = ascii "DNS" ∧ v.value = host := by
  induction exts with
  | nil => simp [matchesAltName] at h
  | cons ext rest ih =>
    have hlater : matchesAltName host rest = true →
        ∃ e ∈ ext :: rest, e.shortName.bytes = ascii "subjectAltName" ∧
          ∃ v ∈ e.values, v.name.bytes = ascii "DNS" ∧ v.value = host := by
      intro hrest
      obtain ⟨e, he, hrest⟩ := ih hrest
      exact ⟨e, List.mem_cons_of_mem _ he, hrest⟩
    unfold matchesAltName at h
    split at h
    · rename_i hsan
      split at h
      · simp at h
      · split at h
        · rename_i hany
          obtain ⟨v, hv, hdns⟩ := List.any_eq_true.mp hany
          exact ⟨ext, List.mem_cons_self .., hsan, v, hv, of_decide_eq_true hdns⟩
        · exact hlater h
    · exact hlater h

/-- When the chain verifies and no subjectAltName entry names the host, the subject
has a nonempty common name (or the empty one, for the empty host), and the text the
buffer holds of it covers the host only if the name itself does. -/
def CommonNameDecides (request : TlsRequest) : Prop :=
  ∀ cert, request.peer = some cert → request.verifyResult = x509VOk →
    ¬ AltNamed cert request.hostname →
      ∃ s cn, cert.subject = some s ∧ s.commonName = some cn ∧
        (cn ≠ [] ∨ request.hostname.bytes = []) ∧
        (NameCovers (cstr (cn.take 255)) request.hostname.bytes →
          NameCovers cn request.hostname.bytes)

/-- What the check accepts: a verified chain, with the host among the alternative
names, or no text copied from a common name, or a copied text that covers the host. -/
theorem post_connection_check_ok_iff (request : TlsRequest) :
    gftpSslPostConnectionCheck request = x509VOk ↔
      request.verifyResult = x509VOk ∧ ∃ cert, request.peer = some cert ∧
        (matchesAltName request.hostname cert.extensions = true ∨
          ∀ data, (cert.subject.bind (·.commonName)).bind commonNameText = some data →
            NameCovers data request.hostname.bytes) := by
  unfold gftpSslPostConnectionCheck
  cases hpeer : request.peer with
  | none => simp [x509VErrApplicationVerification, x509VOk]
  | some cert =>
    by_cases halt : matchesAltName request.hostname cert.extensions = true
    · simp [halt]
    · cases htext : (cert.subject.bind (·.commonName)).bind commonNameText with
      | none => simp [halt, htext]
      | some data =>
        have hcover := textMatches_iff data request.hostname.bytes
        by_cases hmatch : textMatches data request.hostname.bytes = true
        · simp [halt, htext, hmatch, hcover.mp hmatch]
        · simp [halt, htext, hmatch, mt hcover.mpr hmatch, x509VErrApplicationVerification,
            x509VOk]

/-- The check accepts only a verified chain and a certificate that names the host,
exactly when the common name decides wherever no subjectAltName does. -/
theorem post_connection_check_accepts_iff (request : TlsRequest) :
    (gftpSslPostConnectionCheck request = x509VOk →
      request.verifyResult = x509VOk ∧
        ∃ cert, request.peer = some cert ∧ PeerNamed cert request.hostname) ↔
      CommonNameDecides request := by
  rw [post_connection_check_ok_iff]
  constructor
  · intro hsound cert hpeer hverify halt
    have hnamed : (∀ data, (cert.subject.bind (·.commonName)).bind commonNameText = some data →
        NameCovers data request.hostname.bytes) → ∃ s cn, cert.subject = some s ∧
          s.commonName = some cn ∧ NameCovers cn request.hostname.bytes := by
      intro htext
      obtain ⟨_, cert', hpeer', hnamed⟩ := hsound ⟨hverify, cert, hpeer, Or.inr htext⟩
      obtain rfl : cert = cert' := Option.some.inj (hpeer.symm.trans hpeer')
      exact hnamed.resolve_left halt
    cases hsubj : cert.subject with
    | none =>
      obtain ⟨s, _, hs, _⟩ := hnamed (by simp [hsubj])
      simp [hsubj] at hs
    | some s =>
      cases hcn : s.commonName with
      | none =>
        obtain ⟨s', _, hs', hcn', _⟩ := hnamed (by simp [hsubj, hcn])
        obtain rfl : s = s' := Option.some.inj (hsubj.symm.trans hs')
        simp [hcn] at hcn'
      | some cn =>
        have hcovers : (∀ data, commonNameText cn = some data →
            NameCovers data request.hostname.bytes) → NameCovers cn request.hostname.bytes := by
          intro htext
          obtain ⟨s', cn', hs', hcn', hcov⟩ := hnamed (by simpa [hsubj, hcn] using htext)
          obtain rfl : s = s' := Option.some.inj (hsubj.symm.trans hs')
          obtain rfl : cn = cn' := Option.some.inj (hcn.symm.trans hcn')
          exact hcov
        refine ⟨s, cn, rfl, hcn, ?_, ?_⟩
        · by_cases hnil : cn = []
          · subst hnil
            rcases hcovers (by simp [commonNameText]) with heq | ⟨suffix, _, _, hname, _⟩
            · exact Or.inr (List.length_eq_zero_iff.mp (caseEq_length heq).symm)
            · exact absurd (congrArg List.length hname) (by
                rw [show ascii "*" = [42] by decide]
                simp)
          · exact Or.inl hnil
        · intro hcov
          refine hcovers fun data hdata => ?_
          unfold commonNameText at hdata
          split at hdata
          · exact Option.some.inj hdata ▸ hcov
          · simp at hdata
  · rintro hdecides ⟨hverify, cert, hpeer, hok⟩
    refine ⟨hverify, cert, hpeer, ?_⟩
    by_cases halt : AltNamed cert request.hostname
    · exact Or.inl halt
    · obtain ⟨s, cn, hsubj, hcn, hnonempty, hcover⟩ := hdecides cert hpeer hverify halt
      refine Or.inr ⟨s, cn, hsubj, hcn, ?_⟩
      rcases hok with hmatch | htext
      · exact absurd (matchesAltName_sound hmatch) halt
      · by_cases hnil : cn = []
        · have hhost := hnonempty.resolve_left (not_not_intro hnil)
          exact Or.inl (by rw [hnil, hhost]; rfl)
        · apply hcover
          apply htext
          simp [hsubj, hcn, commonNameText, hnil]

/-- A verified certificate with neither alternative names nor a common name. -/
def namelessPeer : TlsRequest where
  hostname := ⟨ascii "h", by decide⟩
  peer := some { extensions := [], subject := some { commonName := none } }
  verifyResult := x509VOk

theorem nameless_peer_accepted :
    ¬ ∀ request : TlsRequest, gftpSslPostConnectionCheck request = x509VOk →
      request.verifyResult = x509VOk ∧
        ∃ cert, request.peer = some cert ∧ PeerNamed cert request.hostname := by
  intro h
  obtain ⟨_, cert, hpeer, hnamed⟩ := h namelessPeer (by decide)
  obtain rfl : { extensions := [], subject := some { commonName := none } } = cert :=
    Option.some.inj hpeer
  rcases hnamed with ⟨ext, hext, _⟩ | ⟨s, cn, hs, hcn, _⟩
  · simp at hext
  · obtain rfl : { commonName := none } = s := Option.some.inj hs
    simp at hcn

end Gftp.PeerCheck
