import Gftp.CacheRewrite

/-!
The keys of the cache. The key of a listing joins the fields of its request with separators
that may also stand inside the fields, so that requests of different fields can have one key.
They have the same fields when the parts of the key are of the same length.
-/

namespace Gftp.CacheKeys

open ByteStrings ByteStreams Decimal FileTable LineReader LineReading LineCalls CacheIndex CacheLines
open CacheRewrite

/-- The site of two requests is the same, a name that is not set being an empty one. -/
structure SameSite (r r' : CacheRequest) : Prop where
  urlPrefix : r.urlPrefix.bytes = r'.urlPrefix.bytes
  username : orEmpty r.username = orEmpty r'.username
  hostname : orEmpty r.hostname = orEmpty r'.hostname
  port : r.port = r'.port

/-- The parts of the key up to the port are as long in one request as in the other. -/
structure SameCuts (r r' : CacheRequest) : Prop where
  urlPrefix : r.urlPrefix.bytes.length = r'.urlPrefix.bytes.length
  username : (orEmpty r.username).length = (orEmpty r'.username).length
  hostname : (orEmpty r.hostname).length = (orEmpty r'.hostname).length
  port : (decimal r.port.toInt).length = (decimal r'.port.toInt).length

/-- No field holds the separator that comes behind it. -/
structure Plain (r : CacheRequest) : Prop where
  urlPrefix : 58 ∉ r.urlPrefix.bytes
  username : 64 ∉ orEmpty r.username
  hostname : 58 ∉ orEmpty r.hostname
  directory : ∀ b, (orEmpty r.directory).head? = some b → isDigit b = false
  short : (cacheUrl r false).length < bufsiz

variable {r r' : CacheRequest}

/-- The description of a site, and the key of a listing. -/
theorem cacheUrl_site (r : CacheRequest) : cacheUrl r true = r.urlPrefix.bytes ++
    (58 :: 47 :: 47 :: (orEmpty r.username ++ 64 :: (orEmpty r.hostname ++ 58 :: decimal r.port.toInt))) := by
  simp [cacheUrl, ascii]

theorem cacheUrl_key (r : CacheRequest) :
    cacheUrl r false = cacheUrl r true ++ orEmpty r.directory := by
  simp [cacheUrl]

theorem cacheUrl_parts (r : CacheRequest) : cacheUrl r false = r.urlPrefix.bytes ++
    58 :: (47 :: 47 :: orEmpty r.username ++ 64 :: (orEmpty r.hostname ++ 58 ::
      (decimal r.port.toInt ++ orEmpty r.directory))) := by
  simp [cacheUrl, ascii]

theorem SameSite.site (h : SameSite r r') : cacheUrl r true = cacheUrl r' true := by
  rw [cacheUrl_site, cacheUrl_site, h.urlPrefix, h.username, h.hostname, h.port]

theorem SameSite.cuts (h : SameSite r r') : SameCuts r r' where
  urlPrefix := congrArg List.length h.urlPrefix
  username := congrArg List.length h.username
  hostname := congrArg List.length h.hostname
  port := by rw [h.port]

theorem decimal_inj {m n : Int32} (h : decimal m.toInt = decimal n.toInt) : m = n := by
  have hread (k : Int32) : strtol (decimal k.toInt ++ []) = k.toInt := by
    have hlow := k.le_toInt
    have hhigh := k.toInt_lt
    exact strtol_decimal (by omega) (by omega) (by simp)
  apply Int32.toInt_inj.mp
  rw [← hread m, ← hread n, h]

/-- A text that begins with both sites, cut at the same places, is of one site. -/
theorem SameCuts.sameSite (h : SameCuts r r') {x y : Bytes}
    (heq : cacheUrl r true ++ x = cacheUrl r' true ++ y) : SameSite r r' := by
  rw [cacheUrl_site, cacheUrl_site, List.append_assoc, List.append_assoc] at heq
  obtain ⟨hpre, heq⟩ := List.append_inj heq h.urlPrefix
  simp only [List.cons_append, List.append_assoc, List.cons.injEq, true_and] at heq
  obtain ⟨huser, heq⟩ := List.append_inj heq h.username
  simp only [List.cons.injEq, true_and] at heq
  obtain ⟨hhost, heq⟩ := List.append_inj heq h.hostname
  simp only [List.cons.injEq, true_and] at heq
  obtain ⟨hport, -⟩ := List.append_inj heq h.port
  exact ⟨hpre, huser, hhost, decimal_inj hport⟩

/-- A text in front of a separator that it does not hold. -/
theorem append_sep_inj {c : UInt8} {l l' x y : Bytes} (hl : c ∉ l) (hl' : c ∉ l')
    (h : l ++ c :: x = l' ++ c :: y) : l = l' ∧ x = y := by
  have hcut {l x : Bytes} (hl : c ∉ l) : (l ++ c :: x).takeWhile (· ≠ c) = l := by
    have hall : ∀ b ∈ l, decide (b ≠ c) = true := by
      intro b hb
      apply decide_eq_true
      rintro rfl
      exact hl hb
    rw [List.takeWhile_append_of_pos hall]
    simp
  have hfront : l = l' := by rw [← hcut hl (x := x), h, hcut hl']
  subst hfront
  exact ⟨rfl, (List.cons.inj (List.append_cancel_left h)).2⟩

section Isolation

/-- The fields of two requests are the same. -/
def Agree (r r' : CacheRequest) : Prop :=
  SameSite r r' ∧ orEmpty r.directory = orEmpty r'.directory

theorem plain_agree (hr : Plain r) (hr' : Plain r') (h : cacheUrl r false = cacheUrl r' false) :
    Agree r r' := by
  rw [cacheUrl_parts, cacheUrl_parts] at h
  obtain ⟨hpre, h⟩ := append_sep_inj hr.urlPrefix hr'.urlPrefix h
  simp only [List.cons_append, List.cons.injEq, true_and] at h
  obtain ⟨huser, h⟩ := append_sep_inj hr.username hr'.username h
  obtain ⟨hhost, h⟩ := append_sep_inj hr.hostname hr'.hostname h
  have hread {q : CacheRequest} (hq : Plain q) :
      strtol (decimal q.port.toInt ++ orEmpty q.directory) = q.port.toInt := by
    have hlow := q.port.le_toInt
    have hhigh := q.port.toInt_lt
    exact strtol_decimal (by omega) (by omega) hq.directory
  have hport : r.port = r'.port := by
    apply Int32.toInt_inj.mp
    rw [← hread hr, ← hread hr', h]
  rw [hport] at h
  exact ⟨⟨hpre, huser, hhost, hport⟩, List.append_cancel_left h⟩

/-- Requests with one key have the same fields exactly when the parts of the key are cut at the
same places, and so when no field holds the separator behind it. -/
theorem equal_keys_agree_iff (r r' : CacheRequest)
    (h : gftpGenerateCacheDescription r bufsiz false = cacheUrl r' false) :
    (Agree r r' ↔ SameCuts r r' ∧ (orEmpty r.directory).length = (orEmpty r'.directory).length) ∧
      (Plain r → Plain r' → Agree r r') := by
  constructor
  · constructor
    · rintro ⟨hsite, hdirectory⟩
      exact ⟨hsite.cuts, congrArg List.length hdirectory⟩
    · rintro ⟨hcuts, hdirectory⟩
      -- keys of the same length are not cut off
      have hlen : (cacheUrl r false).length = (cacheUrl r' false).length := by
        simp only [cacheUrl_key, cacheUrl_site, List.length_append, List.length_cons,
          hcuts.urlPrefix, hcuts.username, hcuts.hostname, hcuts.port, hdirectory]
      have hkeys : cacheUrl r false = cacheUrl r' false := by
        have htake : (cacheUrl r false).length ≤ bufsiz - 1 := by
          have hcount := congrArg List.length h
          rw [gftpGenerateCacheDescription, List.length_take, ← hlen] at hcount
          omega
        rw [gftpGenerateCacheDescription, List.take_of_length_le htake] at h
        exact h
      rw [cacheUrl_key, cacheUrl_key] at hkeys
      have hsite := hcuts.sameSite hkeys
      rw [hsite.site] at hkeys
      exact ⟨hsite, List.append_cancel_left hkeys⟩
  · intro hr hr'
    have hshort := hr.short
    rw [gftpGenerateCacheDescription, List.take_of_length_le (by omega)] at h
    exact plain_agree hr hr' h

theorem standardPrefix : 0 ∉ ascii "ftp" := by decide

theorem standardUser : 0 ∉ ascii "u" := by decide

theorem standardHost : 0 ∉ ascii "h" := by decide

theorem standardDirectory : 0 ∉ ascii "/pub" := by decide

/-- A listing of the directory /pub on the standard port. -/
def standardPort : CacheRequest where
  urlPrefix := ⟨ascii "ftp", standardPrefix⟩
  username := some ⟨ascii "u", standardUser⟩
  hostname := some ⟨ascii "h", standardHost⟩
  port := 21
  directory := some ⟨ascii "/pub", standardDirectory⟩
  serverType := 1

/-- A listing of the directory 1/pub on port 2 of the same host. -/
def otherPort : CacheRequest :=
  { standardPort with port := 2, directory := some ⟨ascii "1/pub", by decide⟩ }

theorem same_listing_agrees :
    (Agree standardPort standardPort ↔ SameCuts standardPort standardPort ∧
      (orEmpty standardPort.directory).length = (orEmpty standardPort.directory).length) ∧
    (Plain standardPort → Plain standardPort → Agree standardPort standardPort) :=
  equal_keys_agree_iff standardPort standardPort (by decide)

/-- The listing of the one directory is found for the other. -/
theorem ports_run_together :
    ¬ ∀ r r' : CacheRequest,
      gftpGenerateCacheDescription r bufsiz false = cacheUrl r' false → Agree r r' := by
  intro hall
  obtain ⟨hsite, -⟩ := hall otherPort standardPort (by decide)
  exact absurd hsite.port (by decide)

end Isolation

end Gftp.CacheKeys
