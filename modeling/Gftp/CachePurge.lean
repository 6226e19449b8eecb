import Gftp.CacheKeys

/-!
The purge of a site, which deletes every entry whose url begins with the text of the site. It
deletes just the expired entries and those of the site when no other url does.
-/

namespace Gftp.CachePurge

open ByteStrings ByteStreams Decimal FileTable LineReader LineReading LineCalls CacheIndex CacheLines
open CacheRewrite CacheKeys

/-- An entry with the request it was made for. -/
structure SiteEntry extends CacheEntry where
  made : CacheRequest
  url_eq : url = cacheUrl made false

def lines (entries : List SiteEntry) : List Bytes := entries.map fun e => e.toCacheEntry.line

variable {cachedir : Bytes} {request r r' : CacheRequest} {e : SiteEntry} {entries : List SiteEntry}

instance (r r' : CacheRequest) : Decidable (SameSite r r') :=
  decidable_of_iff (r.urlPrefix.bytes = r'.urlPrefix.bytes ∧ orEmpty r.username = orEmpty r'.username ∧
      orEmpty r.hostname = orEmpty r'.hostname ∧ r.port = r'.port)
    ⟨fun h => ⟨h.1, h.2.1, h.2.2.1, h.2.2.2⟩, fun h => ⟨h.urlPrefix, h.username, h.hostname, h.port⟩⟩

/-- What is to be deleted: what has expired, and the entries of the site. -/
def OfSite (request : CacheRequest) (now : Int64) (e : SiteEntry) : Prop :=
  e.expirationDate < now ∨ SameSite request e.made

instance (now : Int64) : Decidable (OfSite request now e) := inferInstanceAs (Decidable (_ ∨ _))

/-- The description is not cut off when the url of an entry begins with it. -/
theorem description_prefix_iff (hshort : e.line.length + 1 < bufsiz) :
    gftpGenerateCacheDescription request bufsiz true <+: e.url ↔ cacheUrl request true <+: e.url := by
  have hurl : e.url.length ≤ e.line.length := by
    simp [CacheEntry.line, cacheLine]
  unfold gftpGenerateCacheDescription
  constructor
  · intro hpre
    have hlen := hpre.length_le
    rw [List.length_take] at hlen
    rwa [List.take_of_length_le (by omega)] at hpre
  · exact (List.take_prefix _ _).trans

/-- An entry of the site is deleted. -/
theorem sameSite_begins (h : SameSite request e.made) : cacheUrl request true <+: e.url := by
  rw [e.url_eq, cacheUrl_key, ← h.site]
  exact List.prefix_append _ _

/-- Of two ports one number of which begins with the other, a byte that is no digit ends the
shorter one. -/
theorem decimal_begins {n m : Int32} {rest : Bytes} (h : decimal n.toInt <+: decimal m.toInt ++ rest)
    (hrest : ∀ b, rest.head? = some b → isDigit b = false) :
    decimal n.toInt <+: decimal m.toInt := by
  rcases List.prefix_or_prefix_of_prefix h (List.prefix_append _ rest) with hpre | ⟨more, hmore⟩
  · exact hpre
  · have hhead : ∀ b, more.head? = some b → isDigit b = false := by
      intro b hb
      obtain ⟨tail, htail⟩ := h
      rw [← hmore, List.append_assoc] at htail
      have hsame : more ++ tail = rest := List.append_cancel_left htail
      exact hrest b (by rw [← hsame, List.head?_append, hb]; rfl)
    have hread (k : Int32) {l : Bytes} (hl : ∀ b, l.head? = some b → isDigit b = false) :
        strtol (decimal k.toInt ++ l) = k.toInt := by
      have hlow := k.le_toInt
      have hhigh := k.toInt_lt
      exact strtol_decimal (by omega) (by omega) hl
    have hsame : n.toInt = m.toInt := by
      rw [← hread n (l := []) (by simp), List.append_nil, ← hmore, hread m hhead]
    exact hsame ▸ List.prefix_rfl

/-- A key that begins with the text of a site, both of plain requests, is of the site when the
number of its port does not begin with another one's. -/
theorem plain_begins (hr : Plain r) (hr' : Plain r') (h : cacheUrl r true <+: cacheUrl r' false)
    (hport : decimal r.port.toInt <+: decimal r'.port.toInt → r.port = r'.port) : SameSite r r' := by
  obtain ⟨tail, h⟩ := h
  rw [cacheUrl_site, cacheUrl_parts, List.append_assoc] at h
  simp only [List.cons_append, List.append_assoc] at h
  obtain ⟨hpre, h⟩ := append_sep_inj hr.urlPrefix hr'.urlPrefix h
  simp only [List.cons.injEq, true_and] at h
  obtain ⟨huser, h⟩ := append_sep_inj hr.username hr'.username h
  obtain ⟨hhost, h⟩ := append_sep_inj hr.hostname hr'.hostname h
  exact ⟨hpre, huser, hhost, hport (decimal_begins ⟨tail, h⟩ hr'.directory)⟩

/-- The urls that begin with the text of the site are cut as it is, when the requests are plain
and no number of a port begins with that of the site but its own. -/
theorem plain_cuts (hr : Plain request) (hr' : Plain e.made) (hshort : e.line.length + 1 < bufsiz)
    (hport : decimal request.port.toInt <+: decimal e.made.port.toInt → request.port = e.made.port)
    (h : gftpGenerateCacheDescription request bufsiz true <+: e.url) : SameCuts request e.made := by
  rw [description_prefix_iff hshort, e.url_eq] at h
  exact (plain_begins hr hr' h hport).cuts

/-- Two selections, one inside the other, are the same when they show the same. -/
theorem filter_map_eq_iff {α β : Type} {l : List α} {p q : α → Bool} {f : α → β}
    (h : ∀ a ∈ l, p a = true → q a = true) :
    (l.filter q).map f = (l.filter p).map f ↔ ∀ a ∈ l, q a = true → p a = true := by
  have hboth : l.filter p = (l.filter q).filter p := by
    rw [List.filter_filter]
    apply List.filter_congr
    intro a ha
    cases hp : p a with
    | true => rw [h a ha hp]; rfl
    | false => rfl
  constructor
  · intro heq
    have hlen := congrArg List.length heq
    rw [List.length_map, List.length_map, hboth] at hlen
    have hall := List.length_filter_eq_length_iff.mp hlen.symm
    exact fun a ha hq => hall a (List.mem_filter.mpr ⟨ha, hq⟩)
  · intro hall
    have hself : (l.filter q).filter p = l.filter q := by
      apply List.filter_eq_self.mpr
      intro a ha
      obtain ⟨hmem, hq⟩ := List.mem_filter.mp ha
      exact hall a hmem hq
    rw [hboth, hself]

/-- The purge deletes what has expired and the entries of the site, and nothing else, if and only
if the urls that begin with the text of the site are cut as it is. -/
theorem purge_deletes_site_iff (dir : CacheDir cachedir) (entries : List SiteEntry)
    (request : CacheRequest) (descr : Option CString) (now : Int64)
    (hindex : dir.files.read (indexFile cachedir) = some (text (lines entries)))
    (hshort : ∀ e ∈ entries, e.line.length + 1 < bufsiz)
    (hfiles : ∀ e ∈ entries, ∃ suffix, e.file = cacheFile cachedir suffix) :
    (∃ r, gftpDeleteCacheEntry (some request) descr true now dir = .ok r ∧
        r.unlinked = (entries.filter fun e => decide (OfSite request now e)).map fun e => e.file) ↔
      ∀ e ∈ entries, ¬ e.expirationDate < now →
        gftpGenerateCacheDescription request bufsiz true <+: e.url → SameCuts request e.made := by
  let description := gftpGenerateCacheDescription request bufsiz true
  let del (e : CacheEntry) : Bool := delEntry now description true e.fields
  obtain ⟨r, hrun, -, hunlinked, -⟩ := @deleteCacheEntry_eq cachedir dir
    (entries.map SiteEntry.toCacheEntry) (some request) descr true now description del
    (by rw [hindex, lines, List.map_map]; rfl) (by simpa using hshort) (by simpa using hfiles) rfl
    (fun e => rfl)
  have hdeleted : r.unlinked = (entries.filter fun e => del e.toCacheEntry).map fun e => e.file := by
    rw [hunlinked, List.filter_map, List.map_map]
    rfl
  have hdel (e : SiteEntry) :
      del e.toCacheEntry = true ↔ e.expirationDate < now ∨ description <+: e.url := by
    simp [del, delEntry, CacheEntry.fields]
  have hmore : ∀ e ∈ entries, OfSite request now e → del e.toCacheEntry = true := by
    intro e he hsite
    refine (hdel e).mpr (hsite.imp_right fun hsame => ?_)
    exact (description_prefix_iff (hshort e he)).mpr (sameSite_begins hsame)
  have hcuts : ∀ e ∈ entries, (del e.toCacheEntry = true → OfSite request now e) ↔
      (¬ e.expirationDate < now → description <+: e.url → SameCuts request e.made) := by
    intro e he
    rw [hdel]
    constructor
    · intro hsite hlive hpre
      exact ((hsite (.inr hpre)).resolve_left hlive).cuts
    · rintro hcuts (hexpired | hpre)
      · exact .inl hexpired
      · by_cases hlive : e.expirationDate < now
        · exact .inl hlive
        · obtain ⟨tail, htail⟩ := (description_prefix_iff (hshort e he)).mp hpre
          rw [e.url_eq, cacheUrl_key] at htail
          exact .inr ((hcuts hlive hpre).sameSite htail)
  have hsame : (entries.filter fun e => del e.toCacheEntry).map (fun e => e.file) =
      (entries.filter fun e => decide (OfSite request now e)).map (fun e => e.file) ↔
        ∀ e ∈ entries, del e.toCacheEntry = true → OfSite request now e := by
    rw [filter_map_eq_iff fun e he hsite => hmore e he (of_decide_eq_true hsite)]
    simp only [decide_eq_true_eq]
  rw [← hdeleted] at hsame
  constructor
  · rintro ⟨r', hrun', hunlinked'⟩ e he
    obtain rfl := Except.ok.inj (hrun.symm.trans hrun')
    exact (hcuts e he).mp (hsame.mp hunlinked' e he)
  · intro hall
    exact ⟨r, hrun, hsame.mpr fun e he => (hcuts e he).mpr (hall e he)⟩

section Samples

theorem standardUrl_clean : Clean (ascii "ftp://u@h:21/pub") := by decide

theorem standardFile_clean : Clean (cacheFile (ascii "/c") (ascii "abcdef")) := by decide

theorem standardUrl_eq : ascii "ftp://u@h:21/pub" = cacheUrl standardPort false := by
  decide

/-- A listing on port 21 of the host. -/
def standardEntry : SiteEntry where
  url := ascii "ftp://u@h:21/pub"
  file := cacheFile (ascii "/c") (ascii "abcdef")
  serverType := 1
  expirationDate := 100
  url_clean := standardUrl_clean
  file_clean := standardFile_clean
  made := standardPort
  url_eq := standardUrl_eq

/-- A directory whose index holds this entry alone. -/
def standardDir : CacheDir (ascii "/c") where
  files := ((Files.none.create (indexFile (ascii "/c"))).1).append 0
    (standardEntry.toCacheEntry.line ++ [10])
  no_new_index := by decide

theorem standard_file (e : SiteEntry) (he : e ∈ [standardEntry]) :
    ∃ suffix, e.file = cacheFile (ascii "/c") suffix :=
  ⟨ascii "abcdef", by rw [List.mem_singleton.mp he]; rfl⟩

theorem standard_plain : Plain standardPort where
  urlPrefix := by decide
  username := by decide
  hostname := by decide
  directory := by
    intro b hb
    obtain rfl : 47 = b := Option.some.inj hb
    rfl
  short := by decide

theorem own_entry_purged :
    ∃ r, gftpDeleteCacheEntry (some standardPort) none true 50 standardDir = .ok r ∧
      r.unlinked = ([standardEntry].filter fun e => decide (OfSite standardPort 50 e)).map
        fun e => e.file :=
  (purge_deletes_site_iff standardDir [standardEntry] standardPort none 50 (by decide)
    (by decide) standard_file).mpr fun e he _ hpre => by
      obtain rfl := List.mem_singleton.mp he
      exact plain_cuts standard_plain standard_plain (by decide) (fun _ => rfl) hpre

set_option maxRecDepth 100000 in
/-- The purge for port 2 deletes the entry of port 21. -/
theorem other_port_purged :
    ¬ ∀ (cachedir : Bytes) (dir : CacheDir cachedir) (entries : List SiteEntry)
      (request : CacheRequest) (descr : Option CString) (now : Int64),
      dir.files.read (indexFile cachedir) = some (text (lines entries)) →
      (∀ e ∈ entries, e.line.length + 1 < bufsiz) →
      (∀ e ∈ entries, ∃ suffix, e.file = cacheFile cachedir suffix) →
      ∃ r, gftpDeleteCacheEntry (some request) descr true now dir = .ok r ∧
        r.unlinked =
          (entries.filter fun e => decide (OfSite request now e)).map fun e => e.file := by
  intro hall
  obtain ⟨r, hrun, hunlinked⟩ := hall _ standardDir [standardEntry] otherPort none 50
    (by decide) (by decide) standard_file
  have hkept : [standardEntry].filter (fun e => decide (OfSite otherPort 50 e)) = [] := by
    decide
  have hfile : (gftpDeleteCacheEntry (some otherPort) none true 50 standardDir).map
      Cleared.unlinked = .ok [standardEntry.file] := by
    decide
  rw [hkept] at hunlinked
  rw [hrun] at hfile
  exact List.cons_ne_nil _ _ ((Except.ok.inj hfile).symm.trans hunlinked)

end Samples

end Gftp.CachePurge
