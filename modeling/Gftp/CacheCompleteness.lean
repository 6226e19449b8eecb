import Gftp.CacheListings

/-!
Any number of requests that list, read entries, end and disconnect over one cache. An
entry is registered before its listing begins, so a listing that has stored entries and
is given up stays in the index. As long as no such listing is given up, and none is asked
for again while it is under way, what the cache answers is a listing that was read to its
end.
-/

namespace Gftp.CacheCompleteness

open ByteStrings ByteStreams LineReader LineReading FileTable CacheIndex CacheLines CacheListings
  CacheUnlink Protocol Runs

variable {cachedir : Bytes}

/-- A listing of the server: what it was asked for as, until when its entry is valid, and
the texts of its entries so far. -/
structure Listing where
  description : Bytes
  expirationDate : Int64
  text : Bytes
  finished : Bool

/-- The cache and the requests, the listings read to their end, and the listings that the
cache has answered with. -/
structure World (cachedir : Bytes) where
  dir : CacheDir cachedir
  listers : ℕ → Lister
  listings : ℕ → Option Listing
  ended : List (Bytes × Bytes)
  served : List (Bytes × Bytes)

namespace World

/-- Requests without a connection. -/
def start (dir : CacheDir cachedir) (requests : ℕ → CacheRequest) (useCache : ℕ → Bool) :
    World cachedir where
  dir := dir
  listers n := ⟨requests n, useCache n, false, none⟩
  listings _ := none
  ended := []
  served := []

def put (w : World cachedir) (n : ℕ) (r : Lister) (l : Option Listing) : World cachedir :=
  { w with listers := Function.update w.listers n r, listings := Function.update w.listings n l }

/-- What is behind the descriptor that gftp_list_files has set. -/
def content (dir : CacheDir cachedir) (r : Lister) : Bytes :=
  match r.cachefd with
  | some (.reading fd) => dir.files.data fd
  | _ => []

/-- After gftp_list_files: a listing is under way unless the cache has answered or the
server has refused. -/
def listed (w : World cachedir) (n : ℕ) (expirationDate : Int64) (out : Except GftpError Unit)
    (r : Lister) (dir : CacheDir cachedir) : World cachedir :=
  let description := cacheUrl (w.listers n).request false
  if r.cached then
    { w.put n r none with
      dir := dir
      served := w.served ++ [(description, content dir r)] }
  else
    { w.put n r (if out.isOk then some ⟨description, expirationDate, [], false⟩ else none) with
      dir := dir }

end World

/-- What happens to request n. A round of gftp_get_next_file stores an entry, stores nothing,
comes to the end of the listing, or takes the end of a connection that was cut for it. -/
inductive ListAction
  | setup (n : ℕ) (request : CacheRequest)
  | list (n : ℕ) (now cacheTtl : Int64) (suffix : Bytes) (answer : Except GftpError Unit)
  | entry (n : ℕ) (lastDirEntry : Bytes) (failed : Option ℕ)
  | nothing (n : ℕ)
  | finished (n : ℕ)
  | cutShort (n : ℕ)
  | endTransfer (n : ℕ)
  | disconnect (n : ℕ)

/-- Entries come only from a listing that is under way. mkstemp gives a name that is not
in use. -/
inductive ListStep : World cachedir → ListAction → World cachedir → Prop
  | setup {w : World cachedir} {n : ℕ} {request : CacheRequest} :
      ListStep w (.setup n request)
        (w.put n { w.listers n with request := request } (w.listings n))
  | list {w : World cachedir} {n : ℕ} {now cacheTtl : Int64} {suffix : Bytes}
      {answer out : Except GftpError Unit} {r : Lister} {dir : CacheDir cachedir}
      (hfresh : w.dir.files.names (cacheFile cachedir suffix) = none)
      (hrun : gftpListFiles now cacheTtl suffix answer (w.listers n) w.dir = .ok (out, r, dir)) :
      ListStep w (.list n now cacheTtl suffix answer) (w.listed n (now + cacheTtl) out r dir)
  | entry {w : World cachedir} {n : ℕ} {lastDirEntry : Bytes} {failed : Option ℕ} {l : Listing}
      {r : Lister} {dir : CacheDir cachedir} (hlisting : w.listings n = some l)
      (hunder : l.finished = false)
      (hstore : storeDirEntry lastDirEntry failed (w.listers n) w.dir = (r, dir)) :
      ListStep w (.entry n lastDirEntry failed)
        { w.put n r (some { l with text := l.text ++ lastDirEntry }) with dir := dir }
  | nothing {w : World cachedir} {n : ℕ} : ListStep w (.nothing n) w
  | finished {w : World cachedir} {n : ℕ} {l : Listing} (hlisting : w.listings n = some l)
      (hunder : l.finished = false) :
      ListStep w (.finished n)
        { w.put n (w.listers n) (some { l with finished := true }) with
          ended := w.ended ++ [(l.description, l.text)] }
  | cutShort {w : World cachedir} {n : ℕ} {l : Listing} (hlisting : w.listings n = some l)
      (hunder : l.finished = false) :
      ListStep w (.cutShort n) (w.put n (w.listers n) (some { l with finished := true }))
  | endTransfer {w : World cachedir} {n : ℕ} :
      ListStep w (.endTransfer n) (w.put n (gftpEndTransfer (w.listers n)) none)
  | disconnect {w : World cachedir} {n : ℕ} :
      ListStep w (.disconnect n) (w.put n (gftpDisconnect (w.listers n)) none)

/-- The request is storing the listing in the file. -/
def Active (w : World cachedir) (n fd : ℕ) (l : Listing) : Prop :=
  (w.listers n).cachefd = some (.writing fd) ∧ w.listings n = some l ∧ l.finished = false

/-- The listing under way has stored something. -/
def PartlyStored (w : World cachedir) (n : ℕ) (l : Listing) : Prop :=
  ∃ fd, Active w n fd l ∧ w.dir.files.data fd ≠ []

/-- The line of a new entry reads back as it is. -/
def FitsIndex (cachedir : Bytes) (request : CacheRequest) (expirationDate : Int64)
    (suffix : Bytes) : Prop :=
  Clean (cacheUrl request false) ∧ Clean (cacheFile cachedir suffix) ∧
    (cacheLine (cacheUrl request false) (cacheFile cachedir suffix) request.serverType
      expirationDate).length + 1 < bufsiz

/-- No partly stored listing is given up, cut or loses an entry, and none that is still
valid is asked for again. -/
def ListFit (w : World cachedir) : ListAction → Prop
  | .list n now cacheTtl suffix _ =>
      (∀ l, ¬ PartlyStored w n l) ∧
        ((w.listers n).useCache = true →
          FitsIndex cachedir (w.listers n).request (now + cacheTtl) suffix ∧
            ∀ m l, PartlyStored w m l → l.description = cacheUrl (w.listers n).request false →
              l.expirationDate < now)
  | .entry n lastDirEntry (some k) =>
      ∀ fd, (w.listers n).cachefd = some (.writing fd) →
        w.dir.files.data fd ++ lastDirEntry.take k = []
  | .cutShort n => ∀ l, ¬ PartlyStored w n l
  | .endTransfer n => ∀ l, ¬ PartlyStored w n l
  | .disconnect n => ∀ l, ¬ PartlyStored w n l
  | _ => True

structure ListInv (w : World cachedir) (entries : List CacheEntry) : Prop where
  index : w.dir.files.read (indexFile cachedir) = some (text (entries.map CacheEntry.line)) ∨
    w.dir.files.read (indexFile cachedir) = none ∧ entries = []
  short : ∀ e ∈ entries, e.line.length + 1 < bufsiz
  files : ∀ e ∈ entries, e.file ≠ indexFile cachedir ∧ ∃ fd, w.dir.files.names e.file = some fd
  stored : ∀ e ∈ entries, ∀ fd, w.dir.files.names e.file = some fd →
    w.dir.files.data fd = [] ∨ (e.url, w.dir.files.data fd) ∈ w.ended ∨ ∃ n l, Active w n fd l
  named : ∀ n fd, (w.listers n).cachefd = some (.writing fd) →
    ∃ e ∈ entries, w.dir.files.names e.file = some fd
  active : ∀ n fd l, Active w n fd l → ∀ e ∈ entries, w.dir.files.names e.file = some fd →
    l.description = e.url ∧ l.expirationDate = e.expirationDate ∧ l.text = w.dir.files.data fd
  apart : ∀ n m fd, (w.listers n).cachefd = some (.writing fd) →
    (w.listers m).cachefd = some (.writing fd) → n = m
  live : ∀ n l, w.listings n = some l → (w.listers n).cached = false
  plain : ∀ n, (w.listers n).useCache = false → (w.listers n).cachefd = none

/-- Everything served was read to its end before. -/
def Complete (w : World cachedir) : Prop := ∀ x ∈ w.served, x ∈ w.ended

section Put

variable {w : World cachedir} {n m fd : ℕ} {r : Lister} {l : Option Listing} {x : Listing}

theorem listers_ne (h : m ≠ n) : (w.put n r l).listers m = w.listers m := Function.update_of_ne h ..

theorem listings_ne (h : m ≠ n) : (w.put n r l).listings m = w.listings m :=
  Function.update_of_ne h ..

theorem listers_self : (w.put n r l).listers n = r := Function.update_self ..

theorem listings_self : (w.put n r l).listings n = l := Function.update_self ..

theorem active_ne (h : m ≠ n) : Active (w.put n r l) m fd x ↔ Active w m fd x := by
  simp only [Active, listers_ne h, listings_ne h]

theorem active_self : Active (w.put n r l) n fd x ↔
    r.cachefd = some (.writing fd) ∧ l = some x ∧ x.finished = false := by
  simp only [Active, listers_self, listings_self]

end Put

namespace ListInv

variable {w : World cachedir} {entries : List CacheEntry} {n : ℕ} {r : Lister} {l : Option Listing}

/-- The request stops storing, with nothing stored or with a listing read to its end. -/
theorem idle {ended : List (Bytes × Bytes)} (h : ListInv w entries)
    (hfd : r.cachefd = (w.listers n).cachefd ∨ ∀ fd, r.cachefd ≠ some (.writing fd))
    (hplain : r.useCache = false → r.cachefd = none)
    (hlive : ∀ x, l = some x → r.cached = false)
    (hidle : ∀ fd x, r.cachefd = some (.writing fd) → l = some x → x.finished = true)
    (hended : ∀ x ∈ w.ended, x ∈ ended)
    (hdone : ∀ fd x, Active w n fd x →
      w.dir.files.data fd = [] ∨ (x.description, w.dir.files.data fd) ∈ ended) :
    ListInv { w.put n r l with ended := ended } entries := by
  have hwriting : ∀ m fd, ((w.put n r l).listers m).cachefd = some (.writing fd) →
      (w.listers m).cachefd = some (.writing fd) := by
    intro m fd hm
    by_cases hmn : m = n
    · subst hmn
      rw [listers_self] at hm
      rcases hfd with hfd | hfd
      · rw [← hfd, hm]
      · exact absurd hm (hfd fd)
    · rwa [listers_ne hmn] at hm
  have hactive : ∀ m fd x, Active (w.put n r l) m fd x → m ≠ n ∧ Active w m fd x := by
    intro m fd x hm
    by_cases hmn : m = n
    · subst hmn
      obtain ⟨hwrite, hl, hunder⟩ := active_self.mp hm
      rw [hidle fd x hwrite hl] at hunder
      exact absurd hunder (by decide)
    · exact ⟨hmn, (active_ne hmn).mp hm⟩
  refine ⟨h.index, h.short, h.files, ?_, ?_, ?_, ?_, ?_, ?_⟩
  · intro e he fd hname
    rcases h.stored e he fd hname with hempty | hmem | ⟨m, x, hm⟩
    · exact .inl hempty
    · exact .inr (.inl (hended _ hmem))
    · by_cases hmn : m = n
      · subst hmn
        rcases hdone fd x hm with hempty | hmem
        · exact .inl hempty
        · rw [(h.active m fd x hm e he hname).1] at hmem
          exact .inr (.inl hmem)
      · exact .inr (.inr ⟨m, x, (active_ne hmn).mpr hm⟩)
  · intro m fd hm
    exact h.named m fd (hwriting m fd hm)
  · intro m fd x hm
    exact h.active m fd x (hactive m fd x hm).2
  · intro m m' fd hm hm'
    exact h.apart m m' fd (hwriting m fd hm) (hwriting m' fd hm')
  · intro m x hx
    by_cases hmn : m = n
    · subst hmn
      rw [listings_self] at hx
      rw [listers_self]
      exact hlive x hx
    · rw [listings_ne hmn] at hx
      rw [listers_ne hmn]
      exact h.live m x hx
  · intro m hm
    by_cases hmn : m = n
    · subst hmn
      rw [listers_self] at hm ⊢
      exact hplain hm
    · rw [listers_ne hmn] at hm ⊢
      exact h.plain m hm

theorem of_same {w' : World cachedir} (h : ListInv w entries) (hdir : w'.dir = w.dir)
    (hended : w'.ended = w.ended) (hlistings : w'.listings = w.listings)
    (hfd : ∀ m, (w'.listers m).cachefd = (w.listers m).cachefd)
    (hcached : ∀ m, (w'.listers m).cached = (w.listers m).cached)
    (huse : ∀ m, (w'.listers m).useCache = (w.listers m).useCache) : ListInv w' entries := by
  have hactive : ∀ m fd x, Active w' m fd x ↔ Active w m fd x := by
    intro m fd x
    simp only [Active, hfd, hlistings]
  constructor
  · simpa only [hdir] using h.index
  · exact h.short
  · simpa only [hdir] using h.files
  · simpa only [hdir, hended, hactive] using h.stored
  · simpa only [hdir, hfd] using h.named
  · simpa only [hdir, hactive] using h.active
  · simpa only [hfd] using h.apart
  · simpa only [hlistings, hcached] using h.live
  · simpa only [hfd, huse] using h.plain

theorem setup {request : CacheRequest} (h : ListInv w entries) :
    ListInv (w.put n { w.listers n with request := request } (w.listings n)) entries := by
  have hsame : ∀ {α : Type} (f : Lister → α),
      f { w.listers n with request := request } = f (w.listers n) → ∀ m,
        f ((w.put n { w.listers n with request := request } (w.listings n)).listers m) =
          f (w.listers m) := by
    intro α f hf m
    by_cases hmn : m = n
    · subst hmn
      rw [listers_self, hf]
    · rw [listers_ne hmn]
  exact h.of_same rfl rfl (Function.update_eq_self ..) (hsame Lister.cachefd rfl)
    (hsame Lister.cached rfl) (hsame Lister.useCache rfl)

theorem store {fd : ℕ} {x : Listing} {d : Bytes} (h : ListInv w entries) (hx : Active w n fd x) :
    ListInv { w.put n (w.listers n) (some { x with text := x.text ++ d }) with
      dir := append w.dir fd d } entries := by
  obtain ⟨e₀, he₀, hname₀⟩ := h.named n fd hx.1
  have hlisters : ∀ m, (w.put n (w.listers n)
      (some { x with text := x.text ++ d })).listers m = w.listers m := by
    intro m
    exact congrFun (Function.update_eq_self ..) m
  have hself : Active (w.put n (w.listers n) (some { x with text := x.text ++ d })) n fd
      { x with text := x.text ++ d } := active_self.mpr ⟨hx.1, rfl, hx.2.2⟩
  have hdata : ∀ i, i ≠ fd → (append w.dir fd d).files.data i = w.dir.files.data i :=
    fun i hi => data_append_ne hi d
  have hread : (append w.dir fd d).files.read (indexFile cachedir) =
      w.dir.files.read (indexFile cachedir) := by
    show (w.dir.files.names _).map _ = (w.dir.files.names _).map _
    cases hi : w.dir.files.names (indexFile cachedir) with
    | none => rfl
    | some i =>
      have hne : i ≠ fd := by
        intro hif
        exact (h.files e₀ he₀).1 (w.dir.files.inj _ _ _ hname₀ (hif ▸ hi))
      simp only [Option.map_some, hdata i hne]
  refine ⟨?_, h.short, h.files, ?_, ?_, ?_, ?_, ?_, ?_⟩
  · simpa only [hread] using h.index
  · intro e he i hname
    by_cases hi : i = fd
    · subst hi
      exact .inr (.inr ⟨n, _, hself⟩)
    · simp only [hdata i hi]
      rcases h.stored e he i hname with hempty | hmem | ⟨m, y, hm⟩
      · exact .inl hempty
      · exact .inr (.inl hmem)
      · have hmn : m ≠ n := by
          intro hmn
          subst hmn
          have hfd := hm.1.symm.trans hx.1
          simp only [Option.some.injEq, CacheFile.writing.injEq] at hfd
          exact hi hfd
        exact .inr (.inr ⟨m, y, (active_ne hmn).mpr hm⟩)
  · intro m i hm
    exact h.named m i (hlisters m ▸ hm)
  · intro m i y hm e he hname
    by_cases hmn : m = n
    · subst hmn
      obtain ⟨hwrite, hy, -⟩ := active_self.mp hm
      have hfd := hwrite.symm.trans hx.1
      simp only [Option.some.injEq, CacheFile.writing.injEq] at hfd
      subst hfd
      obtain rfl := Option.some.inj hy
      obtain ⟨hdescription, hexpiration, htext⟩ := h.active m i x hx e he hname
      exact ⟨hdescription, hexpiration, by rw [data_append, htext]⟩
    · have hm' := (active_ne hmn).mp hm
      have hi : i ≠ fd := by
        intro hi
        subst hi
        exact hmn (h.apart m n i hm'.1 hx.1)
      simp only [hdata i hi]
      exact h.active m i y hm' e he hname
  · intro m m' i hm hm'
    exact h.apart m m' i (hlisters m ▸ hm) (hlisters m' ▸ hm')
  · intro m y hy
    rw [hlisters]
    by_cases hmn : m = n
    · subst hmn
      exact h.live m x hx.2.1
    · exact h.live m y ((Function.update_of_ne hmn ..).symm.trans hy)
  · intro m hm
    rw [hlisters] at hm ⊢
    exact h.plain m hm

theorem create {now cacheTtl : Int64} {suffix : Bytes} {request : CacheRequest}
    (h : ListInv w entries) (hfd : (w.listers n).cachefd = none)
    (hfree : w.dir.files.names (cacheFile cachedir suffix) = none)
    (hfits : FitsIndex cachedir request (now + cacheTtl) suffix)
    (hwrite : r.cachefd = some (.writing (gftpNewCacheEntry request now cacheTtl suffix w.dir).2))
    (hcached : r.cached = false) (huse : r.useCache = true)
    (hl : ∀ x, l = some x → x = ⟨cacheUrl request false, now + cacheTtl, [], false⟩) :
    ∃ entries', ListInv { w.put n r l with
      dir := (gftpNewCacheEntry request now cacheTtl suffix w.dir).1 } entries' := by
  obtain ⟨hurl, hfile, hshort⟩ := hfits
  let e₀ : CacheEntry :=
    { url := cacheUrl request false
      file := cacheFile cachedir suffix
      serverType := request.serverType
      expirationDate := now + cacheTtl
      url_clean := hurl
      file_clean := hfile }
  have hread := newCacheEntry_index request now cacheTtl suffix w.dir
  obtain ⟨hname, hempty, hold⟩ := @newCacheEntry_files _ _ request now cacheTtl _ hfree
  generalize hnew : gftpNewCacheEntry request now cacheTtl suffix w.dir = new at *
  have holder : ∀ e ∈ entries, ∀ fd, new.1.files.names e.file = some fd →
      w.dir.files.names e.file = some fd ∧ new.1.files.data fd = w.dir.files.data fd ∧
        fd ≠ new.2 := by
    intro e he fd hfd
    obtain ⟨hne, fd', hfd'⟩ := h.files e he
    obtain ⟨hkept, hdata, hapart⟩ := hold e.file fd' hne hfd'
    obtain rfl := Option.some.inj (hkept.symm.trans hfd)
    exact ⟨hfd', hdata, hapart⟩
  have hother : ∀ m, m ≠ n → ∀ fd, (w.listers m).cachefd = some (.writing fd) → fd ≠ new.2 := by
    intro m _ fd hm
    obtain ⟨e, he, hname'⟩ := h.named m fd hm
    exact (hold e.file fd (h.files e he).1 hname').2.2
  have hactive : ∀ m fd x, Active w m fd x → m ≠ n := by
    intro m fd x hm hmn
    rw [hmn] at hm
    rw [hm.1] at hfd
    simp at hfd
  refine ⟨entries ++ [e₀], .inl (hread.trans ?_), ?_, ?_, ?_, ?_, ?_, ?_, ?_, ?_⟩
  · rw [List.map_append, text_append]
    rcases h.index with hindex | ⟨hnone, rfl⟩
    · rw [hindex]
      simp [e₀, CacheEntry.line]
    · rw [hnone]
      simp [e₀, CacheEntry.line]
  · intro e he
    rcases List.mem_append.mp he with he | he
    · exact h.short e he
    · rw [List.mem_singleton.mp he]
      exact hshort
  · intro e he
    rcases List.mem_append.mp he with he | he
    · obtain ⟨hne, fd, hfd'⟩ := h.files e he
      exact ⟨hne, fd, (hold e.file fd hne hfd').1⟩
    · rw [List.mem_singleton.mp he]
      exact ⟨cacheFile_ne_indexFile cachedir suffix, _, hname⟩
  · intro e he fd hfd'
    rcases List.mem_append.mp he with he | he
    · obtain ⟨hname', hdata, -⟩ := holder e he fd hfd'
      simp only [hdata]
      rcases h.stored e he fd hname' with hnone | hmem | ⟨m, x, hm⟩
      · exact .inl hnone
      · exact .inr (.inl hmem)
      · exact .inr (.inr ⟨m, x, (active_ne (hactive m fd x hm)).mpr hm⟩)
    · rw [List.mem_singleton.mp he] at hfd'
      obtain rfl := Option.some.inj (hname.symm.trans hfd')
      exact .inl hempty
  · intro m fd hm
    by_cases hmn : m = n
    · subst hmn
      rw [listers_self, hwrite] at hm
      simp only [Option.some.injEq, CacheFile.writing.injEq] at hm
      subst hm
      exact ⟨e₀, List.mem_append_right _ (List.mem_singleton_self _), hname⟩
    · rw [listers_ne hmn] at hm
      obtain ⟨e, he, hname'⟩ := h.named m fd hm
      exact ⟨e, List.mem_append_left _ he, (hold e.file fd (h.files e he).1 hname').1⟩
  · intro m fd x hm e he hfd'
    by_cases hmn : m = n
    · subst hmn
      obtain ⟨hfd₀, hx, -⟩ := active_self.mp hm
      rw [hwrite] at hfd₀
      simp only [Option.some.injEq, CacheFile.writing.injEq] at hfd₀
      subst hfd₀
      rcases List.mem_append.mp he with he | he
      · exact absurd rfl (holder e he _ hfd').2.2
      · rw [List.mem_singleton.mp he, hl x hx]
        exact ⟨rfl, rfl, hempty.symm⟩
    · have hm' := (active_ne hmn).mp hm
      rcases List.mem_append.mp he with he | he
      · obtain ⟨hname', hdata, -⟩ := holder e he fd hfd'
        simp only [hdata]
        exact h.active m fd x hm' e he hname'
      · rw [List.mem_singleton.mp he] at hfd'
        obtain rfl := Option.some.inj (hname.symm.trans hfd')
        exact absurd rfl (hother m hmn _ hm'.1)
  · intro m m' fd hm hm'
    by_cases hmn : m = n <;> by_cases hmn' : m' = n
    · exact hmn.trans hmn'.symm
    · rw [hmn, listers_self, hwrite] at hm
      rw [listers_ne hmn'] at hm'
      simp only [Option.some.injEq, CacheFile.writing.injEq] at hm
      exact absurd hm.symm (hother m' hmn' fd hm')
    · rw [hmn', listers_self, hwrite] at hm'
      rw [listers_ne hmn] at hm
      simp only [Option.some.injEq, CacheFile.writing.injEq] at hm'
      exact absurd hm'.symm (hother m hmn fd hm)
    · rw [listers_ne hmn] at hm
      rw [listers_ne hmn'] at hm'
      exact h.apart m m' fd hm hm'
  · intro m x hx
    by_cases hmn : m = n
    · subst hmn
      rw [listers_self]
      exact hcached
    · rw [listings_ne hmn] at hx
      rw [listers_ne hmn]
      exact h.live m x hx
  · intro m hm
    by_cases hmn : m = n
    · subst hmn
      rw [listers_self, huse] at hm
      exact absurd hm (by decide)
    · rw [listers_ne hmn] at hm ⊢
      exact h.plain m hm

/-- A request that gives its listing up where nothing, or everything, is stored. -/
theorem give_up (h : ListInv w entries) (hpart : ∀ l, ¬ PartlyStored w n l)
    (hfd : r.cachefd = (w.listers n).cachefd ∨ r.cachefd = none)
    (hplain : r.useCache = false → r.cachefd = none)
    (hlive : ∀ x, l = some x → r.cached = false)
    (hidle : ∀ fd x, r.cachefd = some (.writing fd) → l = some x → x.finished = true) :
    ListInv (w.put n r l) entries := by
  refine h.idle (hfd.imp_right fun hnone => by simp [hnone]) hplain hlive hidle (fun _ hx => hx) ?_
  intro fd x hx
  by_contra hdone
  exact hpart x ⟨fd, hx, fun hempty => hdone (.inl hempty)⟩

theorem append_nil (dir : CacheDir cachedir) (fd : ℕ) : append dir fd [] = dir := by
  have hdata : Function.update dir.files.data fd
      (splice (dir.files.data fd) (dir.files.data fd).length []) = dir.files.data := by
    rw [splice_end rfl, List.append_nil]
    exact Function.update_eq_self ..
  unfold append Files.append Files.writeAt
  simp only [hdata]

theorem entry {lastDirEntry : Bytes} {failed : Option ℕ} {x : Listing} {dir : CacheDir cachedir}
    (h : ListInv w entries) (hfit : ListFit w (.entry n lastDirEntry failed))
    (hlisting : w.listings n = some x) (hunder : x.finished = false)
    (hstore : storeDirEntry lastDirEntry failed (w.listers n) w.dir = (r, dir)) :
    ListInv { w.put n r (some { x with text := x.text ++ lastDirEntry }) with dir := dir }
      entries := by
  have hcached := h.live n x hlisting
  have hlost : ∀ {r : Lister}, r.cachefd = none → r.cached = false →
      (∀ fd y, Active w n fd y → w.dir.files.data fd = []) →
      ListInv (w.put n r (some { x with text := x.text ++ lastDirEntry })) entries := by
    intro r hnone hnot hempty
    refine h.idle (.inr (by simp [hnone])) (fun _ => hnone) (fun _ _ => hnot) (by simp [hnone])
      (fun _ hx => hx) ?_
    intro fd y hy
    exact .inl (hempty fd y hy)
  unfold storeDirEntry at hstore
  rw [hcached] at hstore
  simp only [Bool.false_eq_true, if_false] at hstore
  cases hfd : (w.listers n).cachefd with
  | none =>
    simp only [hfd, Prod.mk.injEq] at hstore
    obtain ⟨rfl, rfl⟩ := hstore
    refine hlost hfd hcached ?_
    intro fd y hy
    rw [hy.1] at hfd
    simp at hfd
  | some file =>
    cases file with
    | reading i =>
      simp only [hfd, Prod.mk.injEq] at hstore
      obtain ⟨rfl, rfl⟩ := hstore
      refine hlost rfl rfl ?_
      intro fd y hy
      rw [hy.1] at hfd
      simp at hfd
    | writing fd =>
      cases failed with
      | none =>
        simp only [hfd, Prod.mk.injEq] at hstore
        obtain ⟨rfl, rfl⟩ := hstore
        exact h.store ⟨hfd, hlisting, hunder⟩
      | some k =>
        simp only [hfd, Prod.mk.injEq] at hstore
        obtain ⟨rfl, rfl⟩ := hstore
        obtain ⟨hempty, hnothing⟩ := List.append_eq_nil_iff.mp (hfit fd hfd)
        rw [hnothing, append_nil]
        refine hlost rfl rfl ?_
        intro fd' y hy
        have hsame := hy.1.symm.trans hfd
        simp only [Option.some.injEq, CacheFile.writing.injEq] at hsame
        rw [hsame, hempty]

theorem finished {x : Listing} (h : ListInv w entries) (hlisting : w.listings n = some x) :
    ListInv { w.put n (w.listers n) (some { x with finished := true }) with
      ended := w.ended ++ [(x.description, x.text)] } entries := by
  refine h.idle (.inl rfl) (h.plain n) (fun _ _ => h.live n x hlisting) ?_
    (fun y hy => List.mem_append_left _ hy) ?_
  · intro fd y _ hy
    rw [← Option.some.inj hy]
  · intro fd y hy
    obtain rfl := Option.some.inj (hlisting.symm.trans hy.2.1)
    obtain ⟨e, he, hname⟩ := h.named n fd hy.1
    rw [← (h.active n fd x hy e he hname).2.2]
    exact .inr (List.mem_append_right _ (List.mem_singleton_self _))

/-- What a lookup answers with has been read to its end, unless it is a listing under way. -/
theorem found {now : Int64} {fd : ℕ} {serverType : Int32} {request : CacheRequest}
    (h : ListInv w entries)
    (hfind : gftpFindCacheEntry request now w.dir = .ok (some (fd, serverType)))
    (hagain : ∀ m l, PartlyStored w m l → l.description = cacheUrl request false →
      l.expirationDate < now) :
    (cacheUrl request false, w.dir.files.data fd) ∈ w.ended := by
  rcases h.index with hindex | ⟨hnone, -⟩
  · obtain ⟨e, he, hvalid, hurl, hname, hdata⟩ := findCacheEntry_some hindex h.short hfind rfl
    have hdescription := description_eq_url (h.short e he) hurl
    rcases h.stored e he fd hname with hempty | hmem | ⟨m, l, hm⟩
    · exact absurd hempty hdata
    · rw [hdescription]
      exact hmem
    · obtain ⟨hl, hexpiration, -⟩ := h.active m fd l hm e he hname
      have hexpired := hagain m l ⟨fd, hm, hdata⟩ (hl.trans hdescription.symm)
      rw [hexpiration] at hexpired
      exact absurd hexpired hvalid
  · unfold gftpFindCacheEntry at hfind
    rw [hnone] at hfind
    simp [pure, Except.pure] at hfind

theorem list {now cacheTtl : Int64} {suffix : Bytes} {answer out : Except GftpError Unit}
    {dir : CacheDir cachedir} (h : ListInv w entries) (hcomplete : Complete w)
    (hfit : ListFit w (.list n now cacheTtl suffix answer))
    (hfresh : w.dir.files.names (cacheFile cachedir suffix) = none)
    (hrun : gftpListFiles now cacheTtl suffix answer (w.listers n) w.dir = .ok (out, r, dir)) :
    (∃ entries', ListInv (w.listed n (now + cacheTtl) out r dir) entries') ∧
      Complete (w.listed n (now + cacheTtl) out r dir) := by
  obtain ⟨hpart, hcond⟩ := hfit
  unfold gftpListFiles at hrun
  cases huse : (w.listers n).useCache with
  | false =>
    simp only [huse, Bool.false_eq_true, if_false, Except.ok.injEq, Prod.mk.injEq] at hrun
    obtain ⟨rfl, rfl, rfl⟩ := hrun
    have hnone := h.plain n huse
    refine ⟨⟨entries, ?_⟩, hcomplete⟩
    exact h.give_up hpart (.inl rfl) (fun _ => hnone) (fun _ _ => rfl) (by simp [hnone])
  | true =>
    obtain ⟨hfits, hagain⟩ := hcond huse
    simp only [huse, if_true] at hrun
    obtain ⟨found, hfind, hrun⟩ := CRun.bind_eq_ok.mp hrun
    cases found with
    | some entry =>
      obtain ⟨fd, serverType⟩ := entry
      simp only [pure, Except.pure, Except.ok.injEq, Prod.mk.injEq] at hrun
      obtain ⟨rfl, rfl, rfl⟩ := hrun
      have hended := h.found hfind hagain
      constructor
      · refine ⟨entries, ?_⟩
        refine (h.idle (l := none)
          (r := ⟨{ (w.listers n).request with serverType := serverType }, true, true,
            some (.reading fd)⟩) (.inr (by simp)) (by simp) (by simp) (by simp)
          (fun _ hx => hx) ?_).of_same rfl rfl rfl (fun _ => rfl) (fun _ => rfl) (fun _ => rfl)
        · intro i x hx
          by_contra hdone
          exact hpart x ⟨i, hx, fun hempty => hdone (.inl hempty)⟩
      · intro x hx
        rcases List.mem_append.mp hx with hx | hx
        · exact hcomplete x hx
        · rw [List.mem_singleton.mp hx]
          exact hended
    | none =>
      simp only [pure, Except.pure, Except.ok.injEq, Prod.mk.injEq] at hrun
      obtain ⟨rfl, rfl, rfl⟩ := hrun
      refine ⟨?_, hcomplete⟩
      -- first the old listing is given up, then the new one is registered
      have hidle : ListInv (w.put n { w.listers n with cached := false, cachefd := none } none)
          entries := h.give_up hpart (.inr rfl) (fun _ => rfl) (by simp) (by simp)
      have hput : ∀ (r₁ r₂ : Lister) (l : Option Listing),
          (w.put n r₁ none).put n r₂ l = w.put n r₂ l := by
        intro r₁ r₂ l
        simp only [World.put, Function.update_idem]
      have hnew := hidle.create (r := ⟨(w.listers n).request, true, false,
          some (.writing (gftpNewCacheEntry (w.listers n).request now cacheTtl suffix w.dir).2)⟩)
        (l := if answer.isOk then some ⟨cacheUrl (w.listers n).request false, now + cacheTtl, [],
          false⟩ else none) (by rw [listers_self]) hfresh hfits rfl rfl rfl ?_
      · rwa [hput] at hnew
      · intro x hx
        split at hx
        · exact (Option.some.inj hx).symm
        · simp at hx

end ListInv

section Runs

variable {w w' : World cachedir} {a : ListAction}

theorem listStep_inv {entries : List CacheEntry} (h : ListInv w entries) (hcomplete : Complete w)
    (hfit : ListFit w a) (hstep : ListStep w a w') :
    (∃ entries', ListInv w' entries') ∧ Complete w' := by
  cases hstep with
  | setup => exact ⟨⟨entries, h.setup⟩, hcomplete⟩
  | list hfresh hrun => exact h.list hcomplete hfit hfresh hrun
  | entry hlisting hunder hstore =>
    exact ⟨⟨entries, h.entry hfit hlisting hunder hstore⟩, hcomplete⟩
  | nothing => exact ⟨⟨entries, h⟩, hcomplete⟩
  | finished hlisting =>
    exact ⟨⟨entries, h.finished hlisting⟩, fun x hx => List.mem_append_left _ (hcomplete x hx)⟩
  | cutShort hlisting =>
    refine ⟨⟨entries, ?_⟩, hcomplete⟩
    refine h.give_up hfit (.inl rfl) (h.plain _) (fun _ _ => h.live _ _ hlisting) ?_
    intro fd x _ hx
    rw [← Option.some.inj hx]
  | endTransfer =>
    refine ⟨⟨entries, ?_⟩, hcomplete⟩
    exact h.give_up hfit (.inr rfl) (fun _ => rfl) (by simp) (by simp)
  | disconnect =>
    refine ⟨⟨entries, ?_⟩, hcomplete⟩
    exact h.give_up hfit (.inl rfl) (h.plain _) (by simp) (by simp)

/-- In every run that gives no partly stored listing up and asks for none again, what the
cache answers with was read to its end before. -/
theorem cached_listing_complete (dir : CacheDir cachedir) (requests : ℕ → CacheRequest)
    (useCache : ℕ → Bool) (hempty : dir.files.read (indexFile cachedir) = none)
    (hrun : Reaches ListStep ListFit (.start dir requests useCache) w) : Complete w := by
  have hstart : ListInv (.start dir requests useCache) ([] : List CacheEntry) := by
    constructor <;> simp [World.start, Active, hempty]
  have hinv := hrun.invariant (fun w => (∃ entries, ListInv w entries) ∧ Complete w)
    ⟨⟨[], hstart⟩, by simp [Complete, World.start]⟩
    fun w a w' h hfit hstep => listStep_inv h.1.choose_spec h.2 hfit hstep
  exact hinv.2

def afterList (n : ℕ) (now cacheTtl : Int64) (suffix : Bytes) (answer : Except GftpError Unit)
    (w : World cachedir) : World cachedir :=
  match gftpListFiles now cacheTtl suffix answer (w.listers n) w.dir with
  | .ok (out, r, dir) => w.listed n (now + cacheTtl) out r dir
  | .error _ => w

theorem afterList_step {n : ℕ} {now cacheTtl : Int64} {suffix : Bytes}
    {answer : Except GftpError Unit}
    (hfresh : w.dir.files.names (cacheFile cachedir suffix) = none)
    (hrun : (gftpListFiles now cacheTtl suffix answer (w.listers n) w.dir).isOk = true) :
    ListStep w (.list n now cacheTtl suffix answer) (afterList n now cacheTtl suffix answer w) := by
  unfold afterList
  split
  · rename_i out r dir hlist
    exact .list hfresh hlist
  · rename_i e hlist
    rw [hlist] at hrun
    exact absurd hrun Bool.false_ne_true

def afterEntry (n : ℕ) (lastDirEntry : Bytes) (w : World cachedir) : World cachedir :=
  let stored := storeDirEntry lastDirEntry none (w.listers n) w.dir
  { w.put n stored.1 ((w.listings n).map fun l => { l with text := l.text ++ lastDirEntry }) with
    dir := stored.2 }

theorem afterEntry_step {n : ℕ} {lastDirEntry : Bytes}
    (h : ((w.listings n).map Listing.finished) = some false) :
    ListStep w (.entry n lastDirEntry none) (afterEntry n lastDirEntry w) := by
  obtain ⟨l, hlisting, hunder⟩ := Option.map_eq_some_iff.mp h
  unfold afterEntry
  rw [hlisting]
  exact .entry hlisting hunder rfl

theorem afterEntry_listings {n : ℕ} {d : Bytes} : (afterEntry n d w).listings =
    Function.update w.listings n ((w.listings n).map fun l => { l with text := l.text ++ d }) := rfl

def afterEnd (n : ℕ) (w : World cachedir) : World cachedir :=
  { w.put n (w.listers n) ((w.listings n).map fun l => { l with finished := true }) with
    ended := w.ended ++ (w.listings n).toList.map fun l => (l.description, l.text) }

theorem afterEnd_step {n : ℕ} (h : ((w.listings n).map Listing.finished) = some false) :
    ListStep w (.finished n) (afterEnd n w) := by
  obtain ⟨l, hlisting, hunder⟩ := Option.map_eq_some_iff.mp h
  unfold afterEnd
  rw [hlisting]
  exact .finished hlisting hunder

theorem afterEnd_listings {n : ℕ} : (afterEnd n w).listings =
    Function.update w.listings n ((w.listings n).map fun l => { l with finished := true }) := rfl

def afterEndTransfer (n : ℕ) (w : World cachedir) : World cachedir :=
  w.put n (gftpEndTransfer (w.listers n)) none

theorem afterList_ne {n m : ℕ} (hmn : m ≠ n) {now cacheTtl : Int64} {suffix : Bytes}
    {answer : Except GftpError Unit} :
    (afterList n now cacheTtl suffix answer w).listings m = w.listings m := by
  unfold afterList
  split
  · unfold World.listed
    dsimp only
    split <;> exact Function.update_of_ne hmn ..
  · rfl

theorem no_listing (h : ∀ m l, w.listings m = some l → l.finished = true) (m : ℕ) (l : Listing) :
    ¬ PartlyStored w m l := by
  intro hpart
  obtain ⟨fd, ⟨-, hlisting, hunder⟩, -⟩ := hpart
  rw [h m l hlisting] at hunder
  exact absurd hunder (by decide)

/-- The directory /d is listed by every request. -/
def fresh : World (ascii "/c") :=
  .start emptyDir (fun _ => listing (ascii "/d") (by decide)) (fun _ => true)

def begun : World (ascii "/c") := afterList 0 0 100 (ascii "abcdef") (.ok ()) fresh

/-- The listing is read to its end, and asked for again. -/
def ended : World (ascii "/c") := afterEndTransfer 0 (afterEnd 0 (afterEntry 0 (ascii "a\n") begun))

def answered : World (ascii "/c") := afterList 0 0 100 (ascii "ghijkl") (.ok ()) ended

theorem ended_listings : ended.listings =
    Function.update (afterEnd 0 (afterEntry 0 (ascii "a\n") begun)).listings 0 none := rfl

set_option maxRecDepth 100000 in
theorem answered_reaches : Reaches ListStep ListFit fresh answered := by
  have hfirst : ∀ m l, fresh.listings m = some l → l.finished = true := by
    simp [fresh, World.start]
  have hothers : ∀ m l, m ≠ 0 → begun.listings m = some l → l.finished = true := by
    intro m l hm hl
    exact hfirst m l ((afterList_ne hm).symm.trans hl)
  have hlist : Reaches ListStep ListFit fresh begun :=
    (Reaches.refl fresh).tail (a := .list 0 0 100 (ascii "abcdef") (.ok ()))
      ⟨no_listing hfirst 0, fun _ => ⟨⟨by decide, by decide, by decide⟩,
        fun m l hpart => absurd hpart (no_listing hfirst m l)⟩⟩
      (afterList_step rfl rfl)
  have hentry := hlist.tail (show ListFit begun (.entry 0 (ascii "a\n") none) from trivial)
    (afterEntry_step (by decide))
  have hend := hentry.tail (show ListFit _ (.finished 0) from trivial)
    (afterEnd_step (by decide))
  have hover : ∀ m l, (afterEnd 0 (afterEntry 0 (ascii "a\n") begun)).listings m = some l →
      l.finished = true := by
    intro m l hl
    by_cases hm : m = 0
    · subst hm
      rw [afterEnd_listings, Function.update_self] at hl
      obtain ⟨x, -, rfl⟩ := Option.map_eq_some_iff.mp hl
      rfl
    · rw [afterEnd_listings, Function.update_of_ne hm, afterEntry_listings,
        Function.update_of_ne hm] at hl
      exact hothers m l hm hl
  have hended : Reaches ListStep ListFit fresh ended :=
    hend.tail (a := .endTransfer 0) (no_listing hover 0) .endTransfer
  have hdone : ∀ m l, ended.listings m = some l → l.finished = true := by
    intro m l hl
    by_cases hm : m = 0
    · subst hm
      rw [ended_listings, Function.update_self] at hl
      simp at hl
    · rw [ended_listings, Function.update_of_ne hm] at hl
      exact hover m l hl
  exact hended.tail (a := .list 0 0 100 (ascii "ghijkl") (.ok ()))
    ⟨no_listing hdone 0, fun _ => ⟨⟨by decide, by decide, by decide⟩,
      fun m l hpart => absurd hpart (no_listing hdone m l)⟩⟩
    (afterList_step (by decide) (by decide))

set_option maxRecDepth 100000 in
theorem answered_complete : answered.served ≠ [] ∧ Complete answered :=
  ⟨by decide, cached_listing_complete _ _ _ rfl answered_reaches⟩

/-- The listing is stopped behind its first entry, and asked for again. -/
def stopped : World (ascii "/c") := afterEndTransfer 0 (afterEntry 0 (ascii "a\n") begun)

def listedAgain : World (ascii "/c") := afterList 0 0 100 (ascii "ghijkl") (.ok ()) stopped

set_option maxRecDepth 100000 in
theorem stopped_listing_served :
    ¬ ∀ (cachedir : Bytes) (dir : CacheDir cachedir) (requests : ℕ → CacheRequest)
      (useCache : ℕ → Bool) (w : World cachedir), dir.files.read (indexFile cachedir) = none →
      Reaches ListStep (fun _ _ => True) (.start dir requests useCache) w → Complete w := by
  intro hclaimed
  have hbegun : Reaches ListStep (fun _ _ => True) fresh begun :=
    (Reaches.refl fresh).tail trivial
      (@afterList_step _ _ 0 0 100 (ascii "abcdef") (.ok ()) rfl rfl)
  have hentry := hbegun.tail trivial
    (@afterEntry_step _ _ 0 (ascii "a\n") (by decide))
  have hstopped : Reaches ListStep (fun _ _ => True) fresh stopped :=
    hentry.tail trivial .endTransfer
  have hagain : Reaches ListStep (fun _ _ => True) fresh listedAgain :=
    hstopped.tail trivial (@afterList_step _ _ 0 0 100 (ascii "ghijkl") (.ok ())
      (by decide) (by decide))
  have hcomplete := hclaimed _ _ _ _ _ rfl hagain
  have hserved : (ascii "ftp://u@h:21/d", ascii "a\n") ∈ listedAgain.served := by decide
  have hnone : listedAgain.ended = [] := by decide
  have hended := hcomplete _ hserved
  rw [hnone] at hended
  exact absurd hended (by simp)

end Runs

end Gftp.CacheCompleteness
