import Gftp.FtpListing
import Gftp.TextLines

/-!
A cached FTP listing against the live one. The cache file holds the line of each entry,
without the carriage return before its newline. It gives the same entries again when no
entry continues on a second line, no name ends in a slash and no stored line ends in a
carriage return. Otherwise a line that was stored is read or taken differently, or an
entry is not stored.
-/

namespace Gftp.FtpReplay

open ByteStrings ByteStreams LineReader LineReading TextLines TextPointers Protocol DirListing
  ListingParsers FtpListing

variable {κ : Type}

/-- A VMS line with a name and no fields. -/
def Continues (serverType : Int32) (t : Bytes) : Prop :=
  serverType = gftpDirtypeVms ∧ 59 ∈ t ∧ 32 ∉ t

/-- The lines of a text as a reader: the bytes each call takes and the line. -/
abbrev LineList := List (ℕ × Bytes)

def nextOfList : NextLine LineList
  | [] => .ok ((.ok 0, []), [])
  | (n, t) :: ls => .ok ((.ok n, t), ls)

/-- A parser that does not read a second line. -/
def Alone (parse : {γ : Type} → Option (NextLine γ) → γ → CRun (Except GftpError GftpFile × γ)) :
    Prop :=
  ∃ x : Parse GftpFile, ∀ {γ : Type} (next : Option (NextLine γ)) (reader : γ),
    parse next reader = oneLine reader x

theorem alone_oneLine (x : Parse GftpFile) : Alone fun _ reader => oneLine reader x :=
  ⟨x, fun _ _ => rfl⟩

theorem alone_error (e : Stop) : Alone fun _ _ => .error e :=
  ⟨ExceptT.mk (.error e), fun _ _ => rfl⟩

/-- Without a blank a VMS line continues on the next one. -/
theorem parseLsVms_shape (host : Host) {body : Bytes} (hnul : 0 ∉ body) (zeros : Bytes) :
    Alone (fun next reader => gftpParseLsVms host next reader (body ++ 0 :: zeros)) ∨
    ((59 ∈ body ∧ 32 ∉ body) ∧ ∃ fle, ∀ {γ : Type} (next : Option (NextLine γ)) (reader : γ),
      gftpParseLsVms host next reader (body ++ 0 :: zeros) =
        vmsSecondLine host fle next reader) := by
  have hsemicolon := findByte_text (by decide : (59 : UInt8) ≠ 0) hnul zeros
  have hblank := findByte_text (by decide : (32 : UInt8) ≠ 0) hnul zeros
  by_cases hname : 59 ∈ body
  · rw [if_pos hname] at hsemicolon
    by_cases hfields : 32 ∈ body
    · rw [if_pos hfields] at hblank
      refine Or.inl ⟨?parse, ?same⟩
      case same =>
        intro γ next reader
        simp only [gftpParseLsVms, hsemicolon, vmsMultiline, hblank, CRun.ok_bind]
        rfl
    · rw [if_neg hfields] at hblank
      refine Or.inr ⟨⟨hname, hfields⟩, ?fle, ?same⟩
      case same =>
        intro γ next reader
        simp only [gftpParseLsVms, hsemicolon, vmsMultiline, hblank, CRun.ok_bind]
        rfl
  · rw [if_neg hname] at hsemicolon
    refine Or.inl ⟨throw .fatal, fun next reader => ?_⟩
    simp only [gftpParseLsVms, hsemicolon, CRun.ok_bind]

/-- A format that was recognized reads one line: a VMS line is recognized by a blank. -/
theorem autodetect_alone (host : Host) (lsoutput : Bytes) (len : ℕ) {body : Bytes}
    (hnul : 0 ∉ body) (zeros : Bytes) :
    Alone (fun next reader =>
      autodetect host next reader lsoutput (body ++ 0 :: zeros) len) := by
  unfold autodetect
  split_ifs
  · exact alone_oneLine _
  cases hnt : looksNt (body ++ 0 :: zeros) with
  | error e => exact alone_error e
  | ok nt =>
    cases nt with
    | true => exact alone_oneLine _
    | false =>
      cases hnovell : looksNovell (body ++ 0 :: zeros) with
      | error e => exact alone_error e
      | ok novell =>
        cases novell with
        | true => exact alone_oneLine _
        | false =>
          have hblank := findByte_text (by decide : (32 : UInt8) ≠ 0) hnul zeros
          cases hvms : looksVms (body ++ 0 :: zeros) with
          | error e => exact alone_error e
          | ok vms =>
            cases vms with
            | false => exact alone_oneLine _
            | true =>
              rcases parseLsVms_shape host hnul zeros with halone | ⟨⟨-, hfields⟩, -⟩
              · exact halone
              · rw [looksVms, hblank, if_neg hfields] at hvms
                simp [pure, Except.pure] at hvms

/-- The copy that is parsed: the line without a carriage return at its end. -/
theorem stripLineEnd_block {t : Bytes} (hnul : 0 ∉ t) (hnl : 10 ∉ t) :
    ∃ body zeros, (stripLineEnd t).2 = body ++ 0 :: zeros ∧ 0 ∉ body ∧
      ∀ c : UInt8, c ≠ 13 → (c ∈ body ↔ c ∈ t) := by
  have hzeros : ∀ n, n ≤ t.length →
      List.replicate (t.length + 1 - n) (0 : UInt8) = 0 :: List.replicate (t.length - n) 0 := by
    intro n hn
    rw [Nat.succ_sub hn, List.replicate_succ]
  have hend : ¬ (0 < t.length ∧ t[t.length - 1]? = some 10) := by
    rintro ⟨-, hlast⟩
    exact hnl (List.mem_of_getElem? hlast)
  unfold stripLineEnd
  simp only [if_neg hend]
  by_cases hcr : 0 < t.length ∧ t[t.length - 1]? = some 13
  · rw [if_pos hcr]
    refine ⟨t.take (t.length - 1), _, congrArg _ (hzeros _ (Nat.sub_le ..)),
      fun h => hnul (List.mem_of_mem_take h), ?_⟩
    intro c hc
    refine ⟨List.mem_of_mem_take, fun hmem => ?_⟩
    rw [← List.dropLast_eq_take]
    have hne : t ≠ [] := List.length_pos_iff.mp hcr.1
    have hlast : t.getLast hne = 13 := by
      have h := hcr.2
      rw [← List.getLast?_eq_getElem?, List.getLast?_eq_some_getLast hne] at h
      exact Option.some.inj h
    rw [← List.dropLast_append_getLast hne, hlast] at hmem
    simpa [hc] using hmem
  · rw [if_neg hcr]
    refine ⟨t, List.replicate (t.length - t.length) 0, ?_, hnul, fun _ _ => Iff.rfl⟩
    rw [hzeros _ (Nat.le_refl _), List.take_length]

/-- A line is parsed alone, or it is the first line of a VMS entry. -/
theorem parseLs_shape (host : Host) (serverType : Int32) {t : Bytes} (hnul : 0 ∉ t)
    (hnl : 10 ∉ t) :
    Alone (fun next reader => gftpParseLs host serverType next reader t) ∨
    (Continues serverType t ∧ ∃ fle, ∀ {γ : Type} (next : Option (NextLine γ)) (reader : γ),
      gftpParseLs host serverType next reader t = vmsSecondLine host fle next reader) := by
  obtain ⟨body, zeros, hblock, hbody, hmem⟩ := stripLineEnd_block hnul hnl
  unfold gftpParseLs
  simp only [hblock]
  split_ifs with hunix heplf hnovell hdos hvms hmvs
  · exact Or.inl (alone_oneLine _)
  · exact Or.inl (alone_oneLine _)
  · exact Or.inl (alone_oneLine _)
  · exact Or.inl (alone_oneLine _)
  · rcases parseLsVms_shape host hbody zeros with halone | ⟨⟨hname, hfields⟩, hsecond⟩
    · exact Or.inl halone
    · refine Or.inr ⟨⟨hvms, (hmem 59 (by decide)).mp hname, fun h => ?_⟩, hsecond⟩
      exact hfields ((hmem 32 (by decide)).mpr h)
  · exact Or.inl (alone_oneLine _)
  · exact Or.inl (autodetect_alone host t _ hbody zeros)

/-- The reader goes through the lines of ls. -/
structure Reads (cached : Bool) (serverType : Int32) (reader : FtpReader) (ls : LineList) :
    Prop where
  mode : reader.1.cached = cached
  type : reader.1.serverType = serverType
  entry : reader.1.lastDirEntry = none
  text : ∃ rest, Unread reader.1.dataconnRbuf lineSize reader.2 rest ∧ LinesFit lineSize rest ∧
    readLines rest = ls

section Reads

variable {host : Host} {cached : Bool} {serverType : Int32} {reader : FtpReader} {ls ls' : LineList}

theorem Reads.lineOf (h : Reads cached serverType reader ls) :
    ∀ x ∈ ls, LineOf lineSize x.1 x.2 := by
  obtain ⟨rest, hunread, hfits, rfl⟩ := h.text
  exact lineOf_mem hunread.2.1 hfits

theorem Reads.bound (h : Reads cached serverType reader ls) : ls.length < lineBound reader := by
  obtain ⟨rest, ⟨-, -, hbuf⟩, -, rfl⟩ := h.text
  have hle := readLines_length_le rest
  unfold lineBound readBound
  cases hrbuf : reader.1.dataconnRbuf with
  | none =>
    rw [hrbuf] at hbuf
    dsimp only at hbuf
    rw [← hbuf] at hle ⊢
    simp only [Option.elim_none]
    omega
  | some b =>
    rw [hrbuf] at hbuf
    obtain ⟨p, ⟨t, -, hsize, -⟩, hrest, -⟩ := hbuf
    rw [hrest, List.length_append] at hle
    rw [hrest]
    simp only [Option.elim_some, hsize]
    omega

/-- The reader after a call that did not fail. -/
def readerAfter (reader : FtpReader) (res : LineResult GftpError) : FtpReader :=
  ({ reader.1 with dataconnRbuf := res.rbuf }, res.stream)

theorem dirlistLine_eq {res : LineResult GftpError} {n : ℕ}
    (hcall : gftpGetLine reader.1.dataconnRbuf lineSize reader.2 = .ok res) (hret : res.ret = .ok n) :
    rfc959GetNextDirlistLine reader = .ok ((.ok n, res.str), readerAfter reader res) := by
  simp only [rfc959GetNextDirlistLine, hcall, CRun.ok_bind, hret, Except.isOk, Except.toBool,
    Bool.and_true]
  rfl

/-- A call on the reader is a call on the list. At the end the line is not used. -/
theorem Reads.next (h : Reads cached serverType reader ls) :
    ∃ len str str' reader' ls', rfc959GetNextDirlistLine reader = .ok ((len, str), reader') ∧
      nextOfList ls = .ok ((len, str'), ls') ∧ (len ≠ .ok 0 → str = str') ∧
      Reads cached serverType reader' ls' := by
  obtain ⟨rest, hunread, hfits, rfl⟩ := h.text
  obtain ⟨res, hcall, hres⟩ := gftpGetLine_readLines hunread hfits
  rcases hres with ⟨hnil, hret, hnext⟩ | ⟨n, t, rest', hcons, hret, hstr, hfits', hnext⟩
  · refine ⟨.ok 0, res.str, [], readerAfter reader res, [], dirlistLine_eq hcall hret,
      by rw [hnil]; rfl, fun hne => absurd rfl hne, h.mode, h.type, h.entry, [], hnext,
      ?_, rfl⟩
    exact ⟨by simp [splitLines], by decide⟩
  · refine ⟨.ok (n + 1), res.str, t, readerAfter reader res, readLines rest',
      dirlistLine_eq hcall hret, by rw [hcons]; rfl, fun _ => hstr, h.mode, h.type, h.entry, rest',
      hnext, hfits', rfl⟩

theorem Reads.parse {t : Bytes} {result : Except GftpError GftpFile}
    (h : Reads cached serverType reader ls) (hnul : 0 ∉ t) (hnl : 10 ∉ t)
    (hparse : gftpParseLs host serverType (some nextOfList) ls t = .ok (result, ls')) :
    ∃ reader', gftpParseLs host serverType (some rfc959GetNextDirlistLine) reader t =
        .ok (result, reader') ∧ Reads cached serverType reader' ls' := by
  rcases parseLs_shape host serverType hnul hnl with ⟨x, hx⟩ | ⟨-, fle, hsecond⟩
  · obtain ⟨result', hrun, hresult⟩ := CRun.bind_eq_ok.mp ((hx _ _).symm.trans hparse)
    obtain ⟨rfl, rfl⟩ := Prod.mk.inj (Except.ok.inj hresult)
    exact ⟨reader, (hx _ _).trans (CRun.bind_eq_ok.mpr ⟨_, hrun, rfl⟩), h⟩
  · obtain ⟨len, str, str', reader', ls'', hreader, hlist, hstr, hnext⟩ := h.next
    rw [hsecond] at hparse ⊢
    simp only [vmsSecondLine, hlist, hreader, CRun.ok_bind] at hparse ⊢
    rcases len with e | n
    · obtain ⟨rfl, rfl⟩ := Prod.mk.inj (Except.ok.inj hparse)
      exact ⟨reader', rfl, hnext⟩
    · cases n with
      | zero =>
        obtain ⟨rfl, rfl⟩ := Prod.mk.inj (Except.ok.inj hparse)
        exact ⟨reader', rfl, hnext⟩
      | succ n =>
        rw [hstr (by simp)]
        obtain ⟨result', hrun, hresult⟩ := CRun.bind_eq_ok.mp hparse
        obtain ⟨rfl, rfl⟩ := Prod.mk.inj (Except.ok.inj hresult)
        exact ⟨reader', CRun.bind_eq_ok.mpr ⟨_, hrun, rfl⟩, hnext⟩

end Reads

/-- The entries of a list of lines, each with the line that is stored for it. -/
inductive Yields (host : Host) (serverType : Int32) : LineList → List (Bytes × GftpFile) → Prop
  | nil : Yields host serverType [] []
  | skipped {n : ℕ} {t : Bytes} {ls ls' : LineList} {e : GftpError} {out : List (Bytes × GftpFile)}
      (hparse : gftpParseLs host serverType (some nextOfList) ls t = .ok (.error e, ls'))
      (hrest : Yields host serverType ls' out) : Yields host serverType ((n, t) :: ls) out
  | entry {n : ℕ} {t : Bytes} {ls ls' : LineList} {fle : GftpFile}
      {out : List (Bytes × GftpFile)}
      (hparse : gftpParseLs host serverType (some nextOfList) ls t = .ok (.ok fle, ls'))
      (hrest : Yields host serverType ls' out) :
      Yields host serverType ((n, t) :: ls) ((t, fle) :: out)

section Rounds

variable {host : Host} {C : Charsets κ} {cached : Bool} {serverType : Int32}
  {reader : FtpReader} {ls : LineList} {out : List (Bytes × GftpFile)}

theorem nextOfList_tail {ls' : LineList} {r : Except GftpError ℕ × Bytes}
    (h : nextOfList ls = .ok (r, ls')) : ls' = ls.tail := by
  cases ls with
  | nil => exact (Prod.mk.inj (Except.ok.inj h)).2.symm
  | cons x ls => exact (Prod.mk.inj (Except.ok.inj h)).2.symm

theorem parse_tail {t : Bytes} {result : Except GftpError GftpFile} {ls' : LineList}
    (hnul : 0 ∉ t) (hnl : 10 ∉ t)
    (h : gftpParseLs host serverType (some nextOfList) ls t = .ok (result, ls')) :
    ls' = ls ∨ ls' = ls.tail := by
  rcases parseLs_shape host serverType hnul hnl with ⟨x, hx⟩ | ⟨-, fle, hsecond⟩
  · obtain ⟨_, _, hresult⟩ := CRun.bind_eq_ok.mp ((hx _ _).symm.trans h)
    exact Or.inl (Prod.mk.inj (Except.ok.inj hresult)).2.symm
  · rw [hsecond] at h
    obtain ⟨⟨⟨len, str⟩, ls''⟩, hnext, h⟩ := CRun.bind_eq_ok.mp h
    rw [← nextOfList_tail hnext]
    refine Or.inr ?_
    rcases len with e | n
    · exact (Prod.mk.inj (Except.ok.inj h)).2.symm
    · cases n with
      | zero => exact (Prod.mk.inj (Except.ok.inj h)).2.symm
      | succ n =>
        obtain ⟨_, _, hresult⟩ := CRun.bind_eq_ok.mp h
        exact (Prod.mk.inj (Except.ok.inj hresult)).2.symm

theorem parse_sublist {t : Bytes} {result : Except GftpError GftpFile} {ls' : LineList}
    (hnul : 0 ∉ t) (hnl : 10 ∉ t)
    (h : gftpParseLs host serverType (some nextOfList) ls t = .ok (result, ls')) :
    ls'.Sublist ls := by
  rcases parse_tail hnul hnl h with rfl | rfl
  · exact List.Sublist.refl _
  · exact List.tail_sublist ls

/-- The request of a call that starts over with its last entry freed. -/
def startOver (r : NextFile FtpRequest) : FtpReader :=
  ({ r.request with lastDirEntry := none }, r.stream)

/-- What one call of rfc959_get_next_file gives: the next entry, or the end. -/
def GivesNext (host : Host) (cached : Bool) (serverType : Int32) (out : List (Bytes × GftpFile))
    (r : NextFile FtpRequest) : Prop :=
  match out with
  | [] => r.ret = .ok 0 ∧ r.fle = GftpFile.cleared ∧ r.request.lastDirEntry = none ∧
      Reads cached serverType (startOver r) []
  | (t, fle) :: out => ∃ n ls, r.ret = .ok (n + 1) ∧ r.fle = fle ∧
      r.request.lastDirEntry = (if cached then none else some (t ++ [10])) ∧
      r.request.cached = cached ∧ LineOf lineSize (n + 1) t ∧
      Reads cached serverType (startOver r) ls ∧ Yields host serverType ls out

theorem Reads.readAndParse {n : ℕ} {t : Bytes} {ls' : LineList}
    {result : Except GftpError GftpFile} (h : Reads cached serverType reader ((n, t) :: ls))
    (hparse : gftpParseLs host serverType (some nextOfList) ls t = .ok (result, ls')) :
    LineOf lineSize n t ∧ ls'.length ≤ ls.length ∧ ∃ reader₁ reader₂,
      rfc959GetNextDirlistLine reader = .ok ((.ok n, t), reader₁) ∧
      gftpParseLs host reader₁.1.serverType (some rfc959GetNextDirlistLine) reader₁ t =
        .ok (result, reader₂) ∧ Reads cached serverType reader₂ ls' := by
  have hline := h.lineOf (n, t) (List.mem_cons_self ..)
  obtain ⟨len, str, str', reader₁, ls₁, hread, hlist, hstr, hreads⟩ := h.next
  obtain ⟨hlen, rfl⟩ := Prod.mk.inj (Except.ok.inj hlist)
  obtain ⟨rfl, rfl⟩ := Prod.mk.inj hlen
  obtain ⟨reader₂, hparse', hreads'⟩ := hreads.parse hline.nul_free hline.one_line hparse
  have hne : (Except.ok n : Except GftpError ℕ) ≠ .ok 0 := by
    intro h0
    exact hline.taken.ne' (Except.ok.inj h0)
  rw [hstr hne] at hread
  rw [← hreads.type] at hparse'
  exact ⟨hline, (parse_sublist hline.nul_free hline.one_line hparse).length_le, reader₁, reader₂, hread, hparse',
    hreads'⟩

theorem nextDirEntry_yields {fuel : ℕ} (h : Reads cached serverType reader ls)
    (hyields : Yields host serverType ls out) (hfuel : ls.length < fuel) :
    ∃ r, nextDirEntry host fuel reader = .ok r ∧ GivesNext host cached serverType out r := by
  induction hyields generalizing fuel reader with
  | nil =>
    obtain ⟨fuel, rfl⟩ := Nat.exists_eq_succ_of_ne_zero (by omega : fuel ≠ 0)
    obtain ⟨len, str, str', reader', ls', hline, hlist, -, hreads⟩ := h.next
    obtain ⟨hlen, rfl⟩ := Prod.mk.inj (Except.ok.inj hlist)
    obtain ⟨rfl, -⟩ := Prod.mk.inj hlen
    refine ⟨{ ret := .ok 0, fle := GftpFile.cleared, request := reader'.1, stream := reader'.2 }, ?_,
      rfl, rfl, hreads.entry, hreads.mode, hreads.type, rfl, hreads.text⟩
    simp only [nextDirEntry, hline, CRun.ok_bind]
    rfl
  | @skipped n t ls ls' e out hparse hrest ih =>
    obtain ⟨fuel, rfl⟩ := Nat.exists_eq_succ_of_ne_zero (by omega : fuel ≠ 0)
    obtain ⟨hline, hle, reader₁, reader₂, hread, hparse', hreads⟩ := h.readAndParse hparse
    obtain ⟨n, rfl⟩ := Nat.exists_eq_succ_of_ne_zero hline.taken.ne'
    rw [List.length_cons] at hfuel
    obtain ⟨r, hr, hgives⟩ := ih hreads (show ls'.length < fuel by omega)
    refine ⟨r, ?_, hgives⟩
    simp only [nextDirEntry, hread, CRun.ok_bind, hparse', hr]
  | @entry n t ls ls' fle out hparse hrest ih =>
    obtain ⟨fuel, rfl⟩ := Nat.exists_eq_succ_of_ne_zero (by omega : fuel ≠ 0)
    obtain ⟨hline, hle, reader₁, reader₂, hread, hparse', hreads⟩ := h.readAndParse hparse
    obtain ⟨n, rfl⟩ := Nat.exists_eq_succ_of_ne_zero hline.taken.ne'
    refine ⟨{ ret := .ok (n + 1), fle := fle,
              request := { reader₂.1 with
                lastDirEntry := if reader₂.1.cached then none else some (t ++ [10]) },
              stream := reader₂.2 }, ?_, n, ls', rfl, rfl, ?_, hreads.mode, hline,
      ⟨hreads.mode, hreads.type, rfl, hreads.text⟩, hrest⟩
    · simp only [nextDirEntry, hread, CRun.ok_bind, hparse']
      rfl
    · rw [← hreads.mode]

/-- A listing whose reader goes through the lines of ls. -/
structure FtpReady (cached : Bool) (serverType : Int32) (l : ListRequest FtpRequest κ)
    (ls : LineList) (stored : Bytes) : Prop where
  reads : Reads cached serverType ({ l.request with lastDirEntry := none }, source cached l) ls
  storing : Storing cached l stored

/-- The entries as they are shown, their names converted one after the other. -/
def shownFiles (C : Charsets κ) : κ → List GftpFile → List GftpFile
  | _, [] => []
  | charset, fle :: fles =>
      match showEntry C charset true fle with
      | none => GftpFile.cleared :: shownFiles C charset fles
      | some (shown, charset) => shown :: shownFiles C charset fles

/-- The name is not lost with its path. -/
def NameKept (fle : GftpFile) : Prop := ∀ file, fle.file = some file → file.getLast? ≠ some 47

theorem showEntry_kept {fle : GftpFile} (charset : κ) (h : NameKept fle) :
    ∃ shown, showEntry C charset true fle = some shown := by
  unfold showEntry
  cases hfile : fle.file with
  | none => exact ⟨_, rfl⟩
  | some file =>
    have hstrip : ∃ name, stripPath file = some name := by
      unfold stripPath
      rw [if_neg (h file hfile)]
      split_ifs
      · exact ⟨_, rfl⟩
      · exact ⟨_, rfl⟩
    obtain ⟨name, hname⟩ := hstrip
    simp only [hname]
    exact ⟨_, rfl⟩

theorem FtpReady.round {l : ListRequest FtpRequest κ} {stored : Bytes}
    {shown : GftpFile × κ} (h : FtpReady cached serverType l ls stored)
    (hyields : Yields host serverType ls out)
    (hshow : showEntry C l.charset true ((out.head?.map Prod.snd).getD GftpFile.cleared) = some shown) :
    ∃ r r', rfc959GetNextFile host l.request (source cached l) = .ok r ∧
      GivesNext host cached serverType out r ∧
      nextRound (ftpListProtocol host) C cached l = .ok r' ∧ r'.ret = r.ret ∧ r'.fle = shown.1 ∧
      r'.request.charset = shown.2 ∧ ({ r'.request.request with lastDirEntry := none },
        source cached r'.request) = startOver r ∧
      Storing cached r'.request (stored ++ storedBy cached r.request.lastDirEntry) := by
  obtain ⟨r, hcall, hgives⟩ := nextDirEntry_yields h.reads hyields h.reads.bound
  have hfacts : ∃ n, r.ret = .ok n ∧ r.fle = (out.head?.map Prod.snd).getD GftpFile.cleared ∧
      r.request.cached = cached := by
    cases out with
    | nil =>
      obtain ⟨hret, hfle, -, hreads⟩ := hgives
      exact ⟨0, hret, hfle, hreads.mode⟩
    | cons x out =>
      obtain ⟨n, ls', hret, hfle, -, hmode, -⟩ := hgives
      exact ⟨n + 1, hret, hfle, hmode⟩
  obtain ⟨n, hret, hfle, hmode⟩ := hfacts
  obtain ⟨r', hround, hret', hfle', hcharset, hrequest, hsource, hstoring⟩ :=
    @Storing.round _ _ (ftpListProtocol host) C _ _ _ _ _ _ h.storing hcall hret (hfle ▸ hshow) hmode
  refine ⟨r, r', hcall, hgives, hround, hret'.trans hret.symm, hfle', hcharset, ?_, hstoring⟩
  rw [hrequest, hsource]
  rfl

/-- The rounds of a listing return the entries that its lines yield, and store their
lines. -/
theorem rounds_yields {l : ListRequest FtpRequest κ} {stored : Bytes}
    (h : FtpReady cached serverType l ls stored) (hyields : Yields host serverType ls out)
    (hkept : ∀ x ∈ out, NameKept x.2) :
    ∃ es l', Rounds (ftpListProtocol host) C cached l es l' ∧
      es.map Prod.snd = shownFiles C l.charset (out.map Prod.snd) ∧
      Storing cached l' (stored ++ storedBy cached (some (text (out.map Prod.fst)))) := by
  induction out generalizing l ls stored with
  | nil =>
    obtain ⟨r, r', -, hgives, hround, hret, -, -, -, hstoring⟩ :=
      @FtpReady.round _ _ C _ _ _ _ l stored _ h hyields rfl
    obtain ⟨hret₀, -, hentry, -⟩ := hgives
    refine ⟨[], r'.request, Rounds.done hround (hret.trans hret₀), rfl, ?_⟩
    rw [hentry, storedBy_none] at hstoring
    cases cached <;> exact hstoring
  | cons x out ih =>
    obtain ⟨t, fle⟩ := x
    obtain ⟨shown, hshow⟩ := @showEntry_kept _ C fle l.charset (hkept (t, fle) (List.mem_cons_self ..))
    obtain ⟨r, r', -, hgives, hround, hret, hfle, hcharset, hnext, hstoring⟩ :=
      @FtpReady.round _ _ C _ _ _ _ l stored _ h hyields hshow
    obtain ⟨n, ls', hret₀, -, hentry, -, -, hreads, hrest⟩ := hgives
    rw [hentry] at hstoring
    have hready : FtpReady cached serverType r'.request ls'
        (stored ++ storedBy cached (if cached then none else some (t ++ [10]))) :=
      ⟨hnext ▸ hreads, hstoring⟩
    obtain ⟨es, l', hrounds, hes, hstored⟩ :=
      ih hready hrest fun x hx => hkept x (List.mem_cons_of_mem _ hx)
    refine ⟨(n + 1, r'.fle) :: es, l', Rounds.entry hround (hret.trans hret₀) (Nat.succ_pos n)
      (hstoring.readsCache ?_) hrounds, ?_, ?_⟩
    · have hmode := hready.reads.mode
      exact hmode
    · simp only [List.map_cons, shownFiles, hshow, hes, hfle, hcharset]
    · rw [List.append_assoc] at hstored
      cases cached with
      | true => exact hstored
      | false => simpa [storedBy] using hstored

end Rounds

/-- The condition on the lines of a LIST output: the parser does not leave its copy of a
line; and a line that gives an entry is the entry's only line or the last of the output,
does not end in a carriage return, and its name does not end in a slash. -/
inductive Replayable (host : Host) (serverType : Int32) : LineList → Prop
  | nil : Replayable host serverType []
  | skipped {n : ℕ} {t : Bytes} {ls ls' : LineList} {e : GftpError}
      (hparse : gftpParseLs host serverType (some nextOfList) ls t = .ok (.error e, ls'))
      (hrest : Replayable host serverType ls') : Replayable host serverType ((n, t) :: ls)
  | entry {n : ℕ} {t : Bytes} {ls ls' : LineList} {fle : GftpFile}
      (hparse : gftpParseLs host serverType (some nextOfList) ls t = .ok (.ok fle, ls'))
      (hline : Continues serverType t → ls = []) (hcr : t.getLast? ≠ some 13)
      (hname : NameKept fle) (hrest : Replayable host serverType ls') :
      Replayable host serverType ((n, t) :: ls)

/-- The stored lines as a reader of the cache file returns them. -/
def storedLines (ts : List Bytes) : LineList := ts.map fun t => (t.length + 1, t)

/-- A line that was not continued is parsed with other lines after it to the same entry. -/
theorem parse_moved {host : Host} {serverType : Int32} {t : Bytes} {fle : GftpFile}
    {ls ls' : LineList} (hnul : 0 ∉ t) (hnl : 10 ∉ t)
    (hparse : gftpParseLs host serverType (some nextOfList) ls t = .ok (.ok fle, ls'))
    (hline : Continues serverType t → ls = []) (ls₁ : LineList)
    (hempty : ls' = [] → ls₁ = []) :
    gftpParseLs host serverType (some nextOfList) ls₁ t = .ok (.ok fle, ls₁) := by
  rcases parseLs_shape host serverType hnul hnl with ⟨x, hx⟩ | ⟨hcont, fle', hsecond⟩
  · obtain ⟨_, hrun, hresult⟩ := CRun.bind_eq_ok.mp ((hx _ _).symm.trans hparse)
    obtain ⟨rfl, rfl⟩ := Prod.mk.inj (Except.ok.inj hresult)
    exact (hx _ _).trans (CRun.bind_eq_ok.mpr ⟨_, hrun, rfl⟩)
  · obtain rfl := hline hcont
    rw [hsecond] at hparse ⊢
    obtain ⟨hfle, rfl⟩ := Prod.mk.inj (Except.ok.inj hparse)
    obtain rfl := Except.ok.inj hfle
    rw [hempty rfl]
    rfl

/-- The stored lines of a replayable output yield its entries again. -/
theorem Replayable.yields {host : Host} {serverType : Int32} {ls : LineList}
    (h : Replayable host serverType ls) (hls : ∀ x ∈ ls, LineOf lineSize x.1 x.2) :
    ∃ out, Yields host serverType ls out ∧
      Yields host serverType (storedLines (out.map Prod.fst)) out ∧
      (ls = [] → out = []) ∧
      (∀ x ∈ out, NameKept x.2) ∧ ∀ t ∈ out.map Prod.fst, LineFits lineSize t := by
  induction h with
  | nil => exact ⟨[], Yields.nil, Yields.nil, fun _ => rfl, by simp, by simp⟩
  | @skipped n t ls ls' e hparse hrest ih =>
    have hline := hls (n, t) (List.mem_cons_self ..)
    have hsub := parse_sublist hline.nul_free hline.one_line hparse
    obtain ⟨out, hyields, hagain, -, hkept, hfits⟩ :=
      ih fun x hx => hls x (List.mem_cons_of_mem _ (hsub.subset hx))
    exact ⟨out, Yields.skipped hparse hyields, hagain, by simp, hkept, hfits⟩
  | @entry n t ls ls' fle hparse hline hcr hname hrest ih =>
    have hof := hls (n, t) (List.mem_cons_self ..)
    have hsub := parse_sublist hof.nul_free hof.one_line hparse
    obtain ⟨out, hyields, hagain, hempty, hkept, hfits⟩ :=
      ih fun x hx => hls x (List.mem_cons_of_mem _ (hsub.subset hx))
    have hmoved := parse_moved hof.nul_free hof.one_line hparse hline
      (storedLines (out.map Prod.fst)) fun hnil => by rw [hempty hnil]; rfl
    refine ⟨(t, fle) :: out, Yields.entry hparse hyields, Yields.entry hmoved hagain, by simp, ?_, ?_⟩
    · exact List.forall_mem_cons.mpr ⟨hname, hkept⟩
    · exact List.forall_mem_cons.mpr
        ⟨⟨hof.nul_free, hof.one_line, hcr, hof.short⟩, hfits⟩

/-- A request before its first entry, with no line left in its buffer. -/
structure FtpFresh (cached : Bool) (serverType : Int32) (l : ListRequest FtpRequest κ)
    (bytes : Bytes) : Prop where
  mode : l.request.cached = cached
  type : l.request.serverType = serverType
  buffer : l.request.dataconnRbuf = none
  plain : Plain (source cached l)
  content : contents (source cached l) = bytes

theorem FtpFresh.ready {cached : Bool} {serverType : Int32} {l : ListRequest FtpRequest κ}
    {bytes stored : Bytes} (h : FtpFresh cached serverType l bytes) (hnul : 0 ∉ bytes)
    (hfits : LinesFit lineSize bytes) (hstoring : Storing cached l stored) :
    FtpReady cached serverType l (readLines bytes) stored := by
  refine ⟨⟨h.mode, h.type, rfl, bytes, ⟨h.plain, hnul, ?_⟩, hfits, rfl⟩, hstoring⟩
  rw [h.buffer]
  exact h.content

theorem shownFiles_length (C : Charsets κ) (charset : κ) (fles : List GftpFile) :
    (shownFiles C charset fles).length = fles.length := by
  induction fles generalizing charset with
  | nil => rfl
  | cons fle fles ih =>
    unfold shownFiles
    split <;> simp [ih]

theorem listing_yields {host : Host} {C : Charsets κ} {cached : Bool} {serverType : Int32}
    {l : ListRequest FtpRequest κ} {bytes stored : Bytes} {out : List (Bytes × GftpFile)}
    {fuel : ℕ} (shown : Bytes → Bool) (h : FtpFresh cached serverType l bytes) (hnul : 0 ∉ bytes)
    (hfits : LinesFit lineSize bytes) (hstoring : Storing cached l stored)
    (hyields : Yields host serverType (readLines bytes) out)
    (hkept : ∀ x ∈ out, NameKept x.2) (hfuel : out.length < fuel) :
    ∃ es l', listing (ftpListProtocol host) C shown fuel l =
        .ok { entries := es, ret := .ok 0, request := l' } ∧
      es.map Prod.snd = (shownFiles C l.charset (out.map Prod.snd)).filter
        (fun fle => fle.file.all shown) ∧
      Storing cached l' (stored ++ storedBy cached (some (text (out.map Prod.fst)))) := by
  obtain ⟨es, l', hrounds, hes, hstored⟩ :=
    @rounds_yields _ _ C _ _ _ _ _ _ (h.ready hnul hfits hstoring) hyields hkept
  have hlen : es.length = out.length := by
    have hmap := congrArg List.length hes
    rwa [List.length_map, shownFiles_length, List.length_map] at hmap
  refine ⟨matching shown es, l', listing_of_rounds hrounds (hstoring.readsCache h.mode) (by omega),
    ?_, hstored⟩
  rw [matching, ← hes, List.filter_map]
  rfl

theorem Yields.length_le {host : Host} {serverType : Int32} {ls : LineList}
    {out : List (Bytes × GftpFile)} (h : Yields host serverType ls out)
    (hls : ∀ x ∈ ls, LineOf lineSize x.1 x.2) : out.length ≤ ls.length := by
  induction h with
  | nil => exact Nat.le_refl 0
  | @skipped n t ls ls' e out hparse hrest ih =>
    have hline := hls (n, t) (List.mem_cons_self ..)
    have hsub := parse_sublist hline.nul_free hline.one_line hparse
    have hle := ih fun x hx => hls x (List.mem_cons_of_mem _ (hsub.subset hx))
    have hlen := hsub.length_le
    rw [List.length_cons]
    omega
  | @entry n t ls ls' fle out hparse hrest ih =>
    have hline := hls (n, t) (List.mem_cons_self ..)
    have hsub := parse_sublist hline.nul_free hline.one_line hparse
    have hle := ih fun x hx => hls x (List.mem_cons_of_mem _ (hsub.subset hx))
    have hlen := hsub.length_le
    rw [List.length_cons, List.length_cons]
    omega

/-- A replayable output is listed to its end, and every cached listing of what was stored
shows the same entries and then ends. -/
theorem ftp_cached_listing_replays {host : Host} {C : Charsets κ} {shown : Bytes → Bool}
    {fuel : ℕ} {serverType : Int32} {output : Bytes} {live : ListRequest FtpRequest κ}
    {fd : CacheFd} (hlive : FtpFresh false serverType live output) (hfd : live.cachefd = some fd)
    (hempty : fd.written = []) (hroom : fd.room = none) (hnul : 0 ∉ output)
    (hfits : LinesFit lineSize output) (hreplay : Replayable host serverType (readLines output))
    (hfuel : (readLines output).length < fuel) :
    ∃ es live' stored, listing (ftpListProtocol host) C shown fuel live =
        .ok { entries := es, ret := .ok 0, request := live' } ∧
      live'.cachefd.map CacheFd.written = some stored ∧
      ∀ replay : ListRequest FtpRequest κ, FtpFresh true serverType replay stored →
        replay.cachefd.isSome = true → replay.charset = live.charset →
        ∃ es' replay', listing (ftpListProtocol host) C shown fuel replay =
            .ok { entries := es', ret := .ok 0, request := replay' } ∧
          es'.map Prod.snd = es.map Prod.snd := by
  have hlines := lineOf_mem hnul hfits
  obtain ⟨out, hyields, hagain, -, hkept, hstoredLines⟩ := hreplay.yields hlines
  have hshort := hyields.length_le hlines
  obtain ⟨es, live', hlisting, hes, fd', hfd', hstored⟩ :=
    @listing_yields _ _ C _ _ _ _ _ _ _ shown hlive hnul hfits ⟨fd, hfd, fun _ => ⟨hroom, hempty⟩⟩
      hyields hkept (lt_of_le_of_lt hshort hfuel)
  refine ⟨es, live', text (out.map Prod.fst), hlisting, ?_, ?_⟩
  · rw [hfd', Option.map_some, (hstored rfl).2]
    rfl
  · intro replay hfresh hopen hcharset
    obtain ⟨fdr, hfdr⟩ := Option.isSome_iff_exists.mp hopen
    have hread : readLines (text (out.map Prod.fst)) = storedLines (out.map Prod.fst) :=
      readLines_text fun t ht => ⟨(hstoredLines t ht).one_line, (hstoredLines t ht).no_cr⟩
    obtain ⟨es', replay', hlisting', hes', -⟩ :=
      @listing_yields _ host C _ _ _ _ [] out _ shown hfresh
        (nul_not_mem_text fun t ht => (hstoredLines t ht).nul_free)
        (linesFit_text (by decide) fun t ht => ⟨(hstoredLines t ht).one_line,
          (hstoredLines t ht).short⟩)
        ⟨fdr, hfdr, by simp⟩ (hread ▸ hagain) hkept (lt_of_le_of_lt hshort hfuel)
    exact ⟨es', replay', hlisting', by rw [hes', hes, hcharset]⟩

/-- No date is recognized. -/
def plainHost : Host where
  strptime _ _ tm := (tm, none)
  mktime _ := 0
  localtime _ := Tm.zero
  time := 0
  unknown := ascii "unknown"

/-- Names need no conversion. -/
def anyNames : Charsets Unit where
  utf8Validate _ := true
  filenameToUtf8 charset _ := (none, charset)

def ftpListing (cached : Bool) (serverType : Int32) (data file : Bytes) :
    ListRequest FtpRequest Unit where
  request := {
    dataconnRbuf := none
    serverType := serverType
    cached := cached
    lastDirEntry := none }
  charset := ()
  data := ofFile data
  cachefd := some { unread := ofFile file, written := [], room := none }

theorem ftpListing_live (serverType : Int32) (d file : Bytes) :
    FtpFresh false serverType (ftpListing false serverType d file) d :=
  ⟨rfl, rfl, rfl, plain_ofFile d, contents_ofFile d⟩

theorem ftpListing_replay (serverType : Int32) (data d : Bytes) :
    FtpFresh true serverType (ftpListing true serverType data d) d :=
  ⟨rfl, rfl, rfl, plain_ofFile d, contents_ofFile d⟩

/-- Two VMS lines, each with its fields on it. -/
def vmsLines : List Bytes := [ascii "A;1 1 x y [] z", ascii "B;2 1 x y [] z"]

def vmsNamed (name : Bytes) : GftpFile :=
  { GftpFile.cleared with file := some name, size := 512 }

theorem vms_lines_replayed :
    ∃ es es' live' replay' stored,
      listing (ftpListProtocol plainHost) anyNames (fun _ => true) 3
          (ftpListing false gftpDirtypeVms (text vmsLines) (text vmsLines)) =
        .ok { entries := es, ret := .ok 0, request := live' } ∧
      live'.cachefd.map CacheFd.written = some stored ∧
      listing (ftpListProtocol plainHost) anyNames (fun _ => true) 3
          (ftpListing true gftpDirtypeVms stored stored) =
        .ok { entries := es', ret := .ok 0, request := replay' } ∧
      es'.map Prod.snd = es.map Prod.snd := by
  have hlines : readLines (text vmsLines) = [(15, ascii "A;1 1 x y [] z"), (15, ascii "B;2 1 x y [] z")] := by
    decide
  have hfirst : gftpParseLs plainHost gftpDirtypeVms (some nextOfList) [(15, ascii "B;2 1 x y [] z")]
      (ascii "A;1 1 x y [] z") = .ok (.ok (vmsNamed (ascii "A")), [(15, ascii "B;2 1 x y [] z")]) := by
    decide
  have hsecond : gftpParseLs plainHost gftpDirtypeVms (some nextOfList) [] (ascii "B;2 1 x y [] z") =
      .ok (.ok (vmsNamed (ascii "B")), []) := by decide
  have hreplay : Replayable plainHost gftpDirtypeVms (readLines (text vmsLines)) := by
    rw [hlines]
    have hwhole : ¬Continues gftpDirtypeVms (ascii "A;1 1 x y [] z") := by
      unfold Continues
      decide
    refine .entry hfirst (fun h => absurd h hwhole) (by decide) ?_
      (.entry hsecond (fun _ => rfl) (by decide) ?_ .nil)
    all_goals
      intro file hfile
      obtain rfl := Option.some.inj hfile
      decide
  obtain ⟨es, live', stored, hlive, hstored, hcached⟩ :=
    @ftp_cached_listing_replays _ plainHost anyNames (fun _ => true) 3 gftpDirtypeVms
      (text vmsLines) (ftpListing false gftpDirtypeVms (text vmsLines) (text vmsLines)) _
      (ftpListing_live gftpDirtypeVms _ _) rfl rfl rfl (by decide) (by decide) hreplay
      (by decide)
  obtain ⟨es', replay', hlisting, hsame⟩ :=
    hcached (ftpListing true gftpDirtypeVms stored stored)
      (ftpListing_replay gftpDirtypeVms stored stored) rfl rfl
  exact ⟨es, es', live', replay', stored, hlive, hstored, hlisting, hsame⟩

/-- Two VMS entries of two lines each. -/
def vmsOutput : Bytes := text [ascii "A;1", ascii "1 x y []", ascii "B;1", ascii "1 x y []"]

def twoEntries : List (Bytes × GftpFile) :=
  [(ascii "A;1", vmsNamed (ascii "A")), (ascii "B;1", vmsNamed (ascii "B"))]

theorem twoEntries_kept : ∀ x ∈ twoEntries, NameKept x.2 := by
  intro x hx file hfile
  simp only [twoEntries, List.mem_cons, List.not_mem_nil, or_false] at hx
  rcases hx with rfl | rfl
  · obtain rfl := Option.some.inj hfile
    decide
  · obtain rfl := Option.some.inj hfile
    decide

theorem vmsOutput_yields :
    Yields plainHost gftpDirtypeVms (readLines vmsOutput) twoEntries := by
  have hlines : readLines vmsOutput = [(4, ascii "A;1"), (9, ascii "1 x y []"),
      (4, ascii "B;1"), (9, ascii "1 x y []")] := by decide
  rw [hlines]
  have hlast := @Yields.entry plainHost gftpDirtypeVms 4 (ascii "B;1") [(9, ascii "1 x y []")] []
    (vmsNamed (ascii "B")) [] (by decide) Yields.nil
  exact Yields.entry (by decide) hlast

/-- Only the first lines are stored, and together they give no entry. -/
theorem storedLines_yield_none :
    Yields plainHost gftpDirtypeVms (readLines (text (twoEntries.map Prod.fst))) [] := by
  have hlines : readLines (text (twoEntries.map Prod.fst)) =
      [(4, ascii "A;1"), (4, ascii "B;1")] := by decide
  rw [hlines]
  exact @Yields.skipped _ _ _ _ _ [] .fatal _ (by decide) Yields.nil

theorem continued_entries_not_replayed :
    ¬ ∀ (host : Host) (serverType : Int32) (output : Bytes) (live : ListRequest FtpRequest Unit)
      (fuel : ℕ) (listed : Listed FtpRequest Unit) (stored : Bytes),
      FtpFresh false serverType live output → 0 ∉ output → LinesFit lineSize output →
      live.cachefd = some { unread := [], written := [], room := none } →
      listing (ftpListProtocol host) anyNames (fun _ => true) fuel live = .ok listed →
      listed.ret = .ok 0 → listed.request.cachefd.map CacheFd.written = some stored →
      ∀ replay, FtpFresh true serverType replay stored → replay.cachefd.isSome = true →
        ∀ fuel' replayed,
          listing (ftpListProtocol host) anyNames (fun _ => true) fuel' replay = .ok replayed →
          replayed.entries.map Prod.snd = listed.entries.map Prod.snd := by
  intro h
  obtain ⟨es, live', hlive, hes, fd, hfd, hstored⟩ :=
    @listing_yields _ plainHost anyNames _ _ _ _ [] twoEntries 3 (fun _ => true)
      (ftpListing_live gftpDirtypeVms vmsOutput []) (by decide) (by decide)
      ⟨_, rfl, fun _ => ⟨rfl, rfl⟩⟩ vmsOutput_yields twoEntries_kept (by decide)
  obtain ⟨es', replay', hreplay, hes', -⟩ :=
    @listing_yields _ plainHost anyNames _ _ _ _ [] [] 1 (fun _ => true)
      (ftpListing_replay gftpDirtypeVms [] (text (twoEntries.map Prod.fst))) (by decide) (by decide)
      ⟨_, rfl, by simp⟩ storedLines_yield_none (by simp) (by decide)
  have hsame := h plainHost gftpDirtypeVms vmsOutput _ 3 _ (text (twoEntries.map Prod.fst))
    (ftpListing_live gftpDirtypeVms vmsOutput []) (by decide) (by decide) rfl hlive rfl
    (by rw [hfd, Option.map_some, (hstored rfl).2]; rfl) _
    (ftpListing_replay gftpDirtypeVms [] _) rfl 1 _ hreplay
  rw [hes, hes'] at hsame
  exact absurd (congrArg List.length hsame) (by decide)

end Gftp.FtpReplay
