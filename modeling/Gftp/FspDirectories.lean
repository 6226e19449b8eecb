import Gftp.FspFiles

/-!
Directories of an FSP server. The listing comes in blocks of one size, the last of which may be
shorter. A record does not reach over the end of a block and ends at a multiple of four; what is left
of a block is skipped. A listing that has come over whatever network is read as the files it is made
of.
-/

namespace Gftp.FspDirectories

open BigEndian ByteStrings FspFiles FspPackets FspTransactions

def rdtypeEnd : UInt8 := 0x00

def rdtypeDir : UInt8 := 0x02

def rdtypeSkip : UInt8 := 0x2a

structure FspDir where
  dirpos : ℕ
  blocksize : ℕ
  data : Bytes

/-- FSP_RDENTRY, with the name up to its end. -/
structure FspRdentry where
  name : Bytes
  namlen : UInt16
  type : UInt8
  reclen : UInt16
  size : UInt32
  lastmod : UInt32

/-- The end of fsp_opendir without an error: without a directory dir is NULL. -/
def opened (dir : Option FspDir) (link : Link) : CRun (Option FspDir × Link) :=
  match dir with
  | none => .error .fault
  | some dir => .ok (some dir, link)

/-- The directory with the data of an answer appended, and whether the listing goes on. The position
is an int. -/
def extended (dir : Option FspDir) (answer : FspPkt) : CRun (FspDir × Bool) :=
  let dir := dir.getD ⟨0, answer.len.toNat, []⟩
  let data := dir.data ++ answer.buf.take answer.len.toNat
  if 2 ^ 31 ≤ data.length then .error .fault
  else .ok ({ dir with data := data }, decide (dir.blocksize ≤ answer.len.toNat))

def byteAt (data : Bytes) (i : ℕ) : CRun UInt8 :=
  match data[i]? with
  | none => .error .fault
  | some b => .ok b

/-- strncpy of 255 bytes from some place. -/
def copyName (src : Bytes) : CRun Bytes :=
  if 0 ∈ src.take 255 ∨ 255 ≤ src.length then .ok (cstr (src.take 255)) else .error .fault

def padding (n : ℕ) : ℕ := (4 - n % 4) % 4

/-- The bytes of a number from a place on. -/
def wordAt (data : Bytes) (i : ℕ) : UInt32 :=
  word32 (octet data i) (octet data (i + 1)) (octet data (i + 2)) (octet data (i + 3))

/-- The record at dirpos, none when its name does not end. -/
def readRecord (dir : FspDir) (ftype : UInt8) : CRun (Option FspRdentry × FspDir) := do
  let pos := dir.dirpos + 9
  let src := dir.data.drop pos
  let name ← copyName src
  if 0 ∉ src then return (none, { dir with dirpos := pos })
  else
    let namelen := (cstr src).length
    let pad := padding (pos + namelen + 1)
    return (some {
      name := name
      namlen := UInt16.ofNat (min namelen 255)
      type := ftype
      reclen := UInt16.ofNat (10 + namelen + pad)
      size := wordAt dir.data (dir.dirpos + 4)
      lastmod := wordAt dir.data dir.dirpos }, { dir with dirpos := pos + namelen + 1 + pad })

/-- The type of the record at dirpos. There is none where less than 9 bytes of the block are left. -/
def recordType (dir : FspDir) : CRun UInt8 :=
  if dir.blocksize - dir.dirpos % dir.blocksize < 9 then .ok rdtypeSkip
  else byteAt dir.data (dir.dirpos + 8)

def readdirLoop : ℕ → FspDir → CRun (Option FspRdentry × FspDir)
  | 0, _ => .error .pending
  | fuel + 1, dir =>
      if dir.data.length ≤ dir.dirpos then .ok (none, dir)
      else do
        let ftype ← recordType dir
        if ftype = rdtypeEnd then readdirLoop fuel { dir with dirpos := dir.data.length }
        else if ftype = rdtypeSkip then
          readdirLoop fuel { dir with dirpos := (dir.dirpos / dir.blocksize + 1) * dir.blocksize }
        else readRecord dir ftype

/-- fsp_readdir_native: whether 0 is returned, and the entry. -/
def fspReaddirNative (dir : FspDir) : CRun (Bool × Option FspRdentry × FspDir) := do
  if dir.dirpos % 4 ≠ 0 then return (false, none, dir)
  else
    let (entry, dir) ← readdirLoop (dir.data.length + 2) dir
    return (true, entry, dir)

/-- What fsp_get_next_file puts into a gftp_file. -/
structure GftpFile where
  file : Bytes
  stMode : ℕ
  datetime : UInt32
  size : UInt32

/-- The name up to a line feed, behind which the target of a link stands. -/
def linkName (name : Bytes) : Bytes := name.takeWhile (· ≠ 10)

/-- S_IFDIR with 0755 or S_IFREG with 0644. -/
def stMode (type : UInt8) : ℕ := if type = rdtypeDir then 0o040755 else 0o100644

/-- fsp_get_next_file: none on an error, and then the file or the end of the listing. -/
def fspGetNextFile (dir : FspDir) : CRun (Option (Option GftpFile × FspDir)) := do
  let (ret, entry, dir) ← fspReaddirNative dir
  if ret = false then return none
  else
    match entry with
    | none => return some (none, dir)
    | some entry =>
        return some (some ⟨linkName entry.name, stMode entry.type, entry.lastmod, entry.size⟩, dir)

/-- The files up to the end of the listing, none on an error. -/
def fspFiles : ℕ → FspDir → CRun (Option (List GftpFile))
  | 0, _ => .error .pending
  | fuel + 1, dir => do
      match ← fspGetNextFile dir with
      | none => return none
      | some (none, _) => return some []
      | some (some file, dir) =>
          match ← fspFiles fuel dir with
          | none => return none
          | some files => return some (file :: files)

structure Entry where
  name : CString
  type : UInt8
  size : UInt32
  lastmod : UInt32
  short : name.bytes.length ≤ 255
  plain : type ≠ rdtypeEnd ∧ type ≠ rdtypeSkip

/-- The record of a file without what it is filled up with. -/
def Entry.record (e : Entry) : Bytes :=
  be32 e.lastmod ++ be32 e.size ++ [e.type] ++ (e.name.bytes ++ [0])

def Entry.shown (e : Entry) : GftpFile := ⟨linkName e.name.bytes, stMode e.type, e.lastmod, e.size⟩

/-- The bytes of a listing from a place on, in blocks of a size, and the files that they are. -/
inductive Laid (b : ℕ) : ℕ → Bytes → List Entry → Prop
  | done (pos : ℕ) : Laid b pos [] []
  | ended {pos : ℕ} {stamp rest : Bytes} (hroom : 9 ≤ b - pos % b) (hstamp : stamp.length = 8) :
      Laid b pos (stamp ++ rdtypeEnd :: rest) []
  | skipped {pos : ℕ} {stamp filler data : Bytes} {es : List Entry} (hstamp : stamp.length = 8)
      (hlength : (stamp ++ rdtypeSkip :: filler).length = b - pos % b)
      (hrest : Laid b (pos + (stamp ++ rdtypeSkip :: filler).length) data es) :
      Laid b pos (stamp ++ rdtypeSkip :: filler ++ data) es
  | narrow {pos : ℕ} {filler data : Bytes} {es : List Entry} (hroom : filler.length < 9)
      (hlength : filler.length = b - pos % b) (hrest : Laid b (pos + filler.length) data es) :
      Laid b pos (filler ++ data) es
  | entry {pos : ℕ} {e : Entry} {pad data : Bytes} {es : List Entry} (haligned : 4 ∣ pos)
      (hroom : (e.record ++ pad).length ≤ b - pos % b) (hpad : pad.length = padding e.record.length)
      (hrest : Laid b (pos + (e.record ++ pad).length) data es) :
      Laid b pos (e.record ++ pad ++ data) (e :: es)

section Records

variable {b pos fuel : ℕ} {data pre rest : Bytes} {es : List Entry} {e : Entry} {dir : FspDir}

theorem record_length (e : Entry) : e.record.length = 10 + e.name.bytes.length := by
  simp only [Entry.record, List.length_append, be32_length, List.length_singleton]
  omega

theorem padding_aligned (n : ℕ) : 4 ∣ n + padding n := by
  unfold padding
  omega

theorem padding_add (h : 4 ∣ pos) (n : ℕ) : padding (pos + n) = padding n := by
  unfold padding
  omega

theorem wordAt_be32 (pre : Bytes) (n : UInt32) (rest : Bytes) :
    wordAt (pre ++ (be32 n ++ rest)) pre.length = n := by
  have hbyte : ∀ i, octet (pre ++ (be32 n ++ rest)) (pre.length + i) = octet (be32 n ++ rest) i := by
    intro i
    rw [octet, octet, List.getD_eq_getElem?_getD, List.getD_eq_getElem?_getD,
      List.getElem?_append_right (Nat.le_add_right _ _), Nat.add_sub_cancel_left]
  have hfirst := hbyte 0
  rw [Nat.add_zero] at hfirst
  rw [wordAt, hfirst, hbyte, hbyte, hbyte]
  exact word32_be32 n

theorem copyName_named (name : CString) (hshort : name.bytes.length ≤ 255) (rest : Bytes) :
    copyName (name.bytes ++ 0 :: rest) = .ok name.bytes := by
  have hlength : 255 ≤ (name.bytes ++ 0 :: rest).length ∨
      0 ∈ (name.bytes ++ 0 :: rest).take 255 := by
    by_cases hfull : name.bytes.length = 255
    · left
      rw [List.length_append]
      omega
    · right
      rw [List.mem_take_iff_getElem]
      refine ⟨name.bytes.length, ?_, ?_⟩
      · rw [List.length_append, List.length_cons]
        omega
      · rw [List.getElem_append_right (Nat.le_refl _)]
        simp
  rw [copyName, if_pos hlength.symm, List.take_append]
  congr 1
  rw [List.take_of_length_le hshort]
  rcases Nat.eq_zero_or_pos (255 - name.bytes.length) with hnone | hsome
  · rw [hnone, List.take_zero, List.append_nil]
    exact cstr_eq_self name.nul_free
  · obtain ⟨m, hm⟩ := Nat.exists_eq_succ_of_ne_zero hsome.ne'
    rw [hm, List.take_succ_cons]
    exact cstr_append_nul name.nul_free _

theorem record_fields (pre rest : Bytes) (e : Entry) :
    wordAt (pre ++ (e.record ++ rest)) pre.length = e.lastmod ∧
      wordAt (pre ++ (e.record ++ rest)) (pre.length + 4) = e.size ∧
      (pre ++ (e.record ++ rest))[pre.length + 8]? = some e.type ∧
      (pre ++ (e.record ++ rest)).drop (pre.length + 9) = e.name.bytes ++ 0 :: rest := by
  have hrecord : e.record ++ rest =
      be32 e.lastmod ++ (be32 e.size ++ (e.type :: (e.name.bytes ++ 0 :: rest))) := by
    simp only [Entry.record, List.append_assoc, List.cons_append, List.nil_append]
  rw [hrecord]
  refine ⟨wordAt_be32 _ _ _, ?_, ?_, ?_⟩
  · have hword := wordAt_be32 (pre ++ be32 e.lastmod) e.size (e.type :: (e.name.bytes ++ 0 :: rest))
    rw [List.append_assoc, List.length_append, be32_length] at hword
    exact hword
  · rw [List.getElem?_append_right (Nat.le_add_right _ _), Nat.add_sub_cancel_left]
    rfl
  · rw [← List.drop_drop, List.drop_left]
    rfl

/-- The record of a file is read as the file. -/
theorem readRecord_entry (haligned : 4 ∣ dir.dirpos) (hdata : dir.data = pre ++ (e.record ++ rest))
    (hpos : pre.length = dir.dirpos) :
    ∃ entry, readRecord dir e.type = .ok (some entry,
        { dir with dirpos := dir.dirpos + (e.record.length + padding e.record.length) }) ∧
      (⟨linkName entry.name, stMode entry.type, entry.lastmod, entry.size⟩ : GftpFile) = e.shown := by
  obtain ⟨hstamp, hsize, -, hsrc⟩ := record_fields pre rest e
  rw [← hdata, hpos] at hstamp hsize hsrc
  have hname : cstr (e.name.bytes ++ 0 :: rest) = e.name.bytes := cstr_append_nul e.name.nul_free rest
  have hpast : dir.dirpos + 9 + e.name.bytes.length + 1 = dir.dirpos + e.record.length := by
    rw [record_length]
    omega
  have hends : ¬ 0 ∉ e.name.bytes ++ 0 :: rest := not_not.mpr
    (List.mem_append_right _ List.mem_cons_self)
  unfold readRecord
  dsimp only
  rw [hsrc, copyName_named e.name e.short, CRun.ok_bind, if_neg hends, hname, hpast, hstamp, hsize,
    padding_add haligned, Nat.add_assoc dir.dirpos]
  refine ⟨_, rfl, ?_⟩
  rfl

/-- What is left of the listing at the place of a directory is made of some files. -/
def Standing (dir : FspDir) (es : List Entry) : Prop :=
  ∃ pre data, dir.data = pre ++ data ∧ pre.length = dir.dirpos ∧ Laid dir.blocksize dir.dirpos data es

/-- The first file is read, or there is none. -/
def Reads (dir : FspDir) (es : List Entry) (entry : Option FspRdentry) (dir' : FspDir) : Prop :=
  match es, entry with
  | [], none => True
  | e :: es, some entry =>
      (⟨linkName entry.name, stMode entry.type, entry.lastmod, entry.size⟩ : GftpFile) = e.shown ∧
        Standing dir' es ∧ 4 ∣ dir'.dirpos ∧ dir.dirpos < dir'.dirpos ∧ dir'.data = dir.data ∧
          dir'.blocksize = dir.blocksize
  | _, _ => False

theorem Reads.back {entry : Option FspRdentry} {dir' : FspDir} {n : ℕ}
    (h : Reads { dir with dirpos := n } es entry dir') (hle : dir.dirpos ≤ n) :
    Reads dir es entry dir' := by
  cases es with
  | nil =>
    cases entry with
    | none => trivial
    | some entry => exact h
  | cons e es =>
    cases entry with
    | none => exact h
    | some entry =>
      obtain ⟨hshown, hstanding, haligned, hlater, hkept⟩ := h
      exact ⟨hshown, hstanding, haligned, hle.trans_lt hlater, hkept⟩

theorem next_block (hb : 0 < b) (pos : ℕ) : (pos / b + 1) * b = pos + (b - pos % b) := by
  have hsplit := Nat.div_add_mod pos b
  have hlt := Nat.mod_lt pos hb
  rw [Nat.add_mul, Nat.one_mul, Nat.mul_comm]
  omega

theorem loop_end (hmore : dir.dirpos < dir.data.length) (hkind : recordType dir = .ok rdtypeEnd) :
    readdirLoop (fuel + 2) dir = .ok (none, { dir with dirpos := dir.data.length }) := by
  rw [readdirLoop, if_neg (Nat.not_le.mpr hmore), hkind, CRun.ok_bind, if_pos rfl, readdirLoop, if_pos (Nat.le_refl _)]

theorem loop_skip (hmore : dir.dirpos < dir.data.length) (hkind : recordType dir = .ok rdtypeSkip) :
    readdirLoop (fuel + 1) dir = readdirLoop fuel
      { dir with dirpos := (dir.dirpos / dir.blocksize + 1) * dir.blocksize } := by
  rw [readdirLoop, if_neg (Nat.not_le.mpr hmore), hkind, CRun.ok_bind,
    if_neg (by decide), if_pos rfl]

theorem loop_entry (hmore : dir.dirpos < dir.data.length) (hkind : recordType dir = .ok e.type) :
    readdirLoop (fuel + 1) dir = readRecord dir e.type := by
  rw [readdirLoop, if_neg (Nat.not_le.mpr hmore), hkind, CRun.ok_bind,
    if_neg e.plain.1, if_neg e.plain.2]

theorem recordType_stamped {stamp : Bytes} {kind : UInt8} (hroom : 9 ≤ dir.blocksize - dir.dirpos % dir.blocksize)
    (hstamp : stamp.length = 8) (hdata : dir.data = pre ++ (stamp ++ kind :: rest))
    (hpos : pre.length = dir.dirpos) : recordType dir = .ok kind := by
  have hbyte : (stamp ++ kind :: rest)[8]? = some kind := by
    rw [List.getElem?_append_right hstamp.le, hstamp]
    rfl
  rw [recordType, if_neg (Nat.not_lt.mpr hroom), byteAt, hdata, ← hpos,
    List.getElem?_append_right (Nat.le_add_right _ _), Nat.add_sub_cancel_left, hbyte]

/-- The files of a listing are read one after the other, whatever is skipped between them. -/
theorem readdir_laid (hb : 0 < b) (h : Laid b pos data es) :
    ∀ {dir : FspDir} {pre : Bytes} {fuel : ℕ}, dir.blocksize = b → dir.dirpos = pos →
      dir.data = pre ++ data → pre.length = pos → data.length + 2 ≤ fuel →
        ∃ entry dir', readdirLoop fuel dir = .ok (entry, dir') ∧ Reads dir es entry dir' := by
  induction h with
  | done pos =>
    intro dir pre fuel hsize hpos hdata hpre hfuel
    obtain ⟨fuel, rfl⟩ := Nat.exists_eq_succ_of_ne_zero (by omega : fuel ≠ 0)
    have hend : dir.data.length ≤ dir.dirpos := by
      rw [hdata, List.append_nil, hpre, hpos]
    rw [readdirLoop, if_pos hend]
    exact ⟨_, _, rfl, trivial⟩
  | @ended pos stamp rest hroom hstamp =>
    intro dir pre fuel hsize hpos hdata hpre hfuel
    obtain ⟨fuel, rfl⟩ := Nat.exists_eq_add_of_le' (by omega : 2 ≤ fuel)
    subst hsize hpos
    have hmore : dir.dirpos < dir.data.length := by
      rw [hdata, List.length_append, List.length_append, List.length_cons]
      omega
    exact ⟨_, _, loop_end hmore (recordType_stamped hroom hstamp hdata hpre), trivial⟩
  | @skipped pos stamp filler data es hstamp hlength hrest ih =>
    intro dir pre fuel hsize hpos hdata hpre hfuel
    obtain ⟨fuel, rfl⟩ := Nat.exists_eq_succ_of_ne_zero (by omega : fuel ≠ 0)
    subst hsize hpos
    have hfiller : 9 ≤ (stamp ++ rdtypeSkip :: filler).length := by
      rw [List.length_append, List.length_cons]
      omega
    have hmore : dir.dirpos < dir.data.length := by
      rw [hdata, List.length_append, List.length_append]
      omega
    have hfront : dir.data = pre ++ (stamp ++ rdtypeSkip :: (filler ++ data)) := by
      rw [hdata, List.append_assoc, List.cons_append]
    have hlong : (stamp ++ rdtypeSkip :: filler ++ data).length =
        (stamp ++ rdtypeSkip :: filler).length + data.length := List.length_append
    rw [loop_skip hmore (recordType_stamped (hlength ▸ hfiller) hstamp hfront hpre), next_block hb,
      ← hlength]
    obtain ⟨entry, dir', hrun, hreads⟩ := @ih
      { dir with dirpos := dir.dirpos + (stamp ++ rdtypeSkip :: filler).length }
      (pre ++ (stamp ++ rdtypeSkip :: filler)) fuel rfl rfl (by rw [List.append_assoc]; exact hdata)
      (by rw [List.length_append, hpre]) (by omega)
    exact ⟨entry, dir', hrun, hreads.back (Nat.le_add_right _ _)⟩
  | @narrow pos filler data es hroom hlength hrest ih =>
    intro dir pre fuel hsize hpos hdata hpre hfuel
    obtain ⟨fuel, rfl⟩ := Nat.exists_eq_succ_of_ne_zero (by omega : fuel ≠ 0)
    subst hsize hpos
    have hlt := Nat.mod_lt dir.dirpos hb
    have hmore : dir.dirpos < dir.data.length := by
      rw [hdata, List.length_append, List.length_append]
      omega
    have hkind : recordType dir = .ok rdtypeSkip := if_pos (hlength ▸ hroom)
    have hlong : (filler ++ data).length = filler.length + data.length := List.length_append
    rw [loop_skip hmore hkind, next_block hb, ← hlength]
    obtain ⟨entry, dir', hrun, hreads⟩ := @ih { dir with dirpos := dir.dirpos + filler.length }
      (pre ++ filler) fuel rfl rfl (by rw [List.append_assoc]; exact hdata)
      (by rw [List.length_append, hpre]) (by omega)
    exact ⟨entry, dir', hrun, hreads.back (Nat.le_add_right _ _)⟩
  | @entry pos e pad data es haligned hroom hpad hrest ih =>
    intro dir pre fuel hsize hpos hdata hpre hfuel
    obtain ⟨fuel, rfl⟩ := Nat.exists_eq_succ_of_ne_zero (by omega : fuel ≠ 0)
    subst hsize hpos
    have hlength := record_length e
    have hmore : dir.dirpos < dir.data.length := by
      rw [hdata, List.length_append, List.length_append, List.length_append]
      omega
    have hfront : dir.data = pre ++ (e.record ++ (pad ++ data)) := by
      rw [hdata, List.append_assoc]
    have hkind : recordType dir = .ok e.type := by
      obtain ⟨-, -, hbyte, -⟩ := record_fields pre (pad ++ data) e
      rw [← hfront, hpre] at hbyte
      rw [List.length_append] at hroom
      rw [recordType, if_neg (by omega), byteAt, hbyte]
    obtain ⟨entry, hread, hshown⟩ := readRecord_entry haligned hfront hpre
    rw [loop_entry hmore hkind, hread]
    have hnext : dir.dirpos + (e.record ++ pad).length =
        dir.dirpos + (e.record.length + padding e.record.length) := by
      rw [List.length_append, hpad]
    rw [hnext] at hrest
    refine ⟨_, _, rfl, hshown, ⟨pre ++ (e.record ++ pad), data, ?_, ?_, hrest⟩, ?_, ?_, rfl, rfl⟩
    · rw [hdata, List.append_assoc pre]
    · rw [List.length_append, hpre, hnext]
    · exact Nat.dvd_add haligned (padding_aligned _)
    · dsimp only
      omega

theorem standing_room (h : Standing dir es) : dir.dirpos ≤ dir.data.length := by
  obtain ⟨pre, data, hdata, hpos, -⟩ := h
  rw [hdata, ← hpos, List.length_append]
  exact Nat.le_add_right _ _

/-- The files up to the end are those of the listing. -/
theorem files_laid (h : Standing dir es) (haligned : 4 ∣ dir.dirpos) (hb : 0 < dir.blocksize)
    (hfuel : dir.data.length - dir.dirpos < fuel) :
    fspFiles fuel dir = .ok (some (es.map Entry.shown)) := by
  induction fuel generalizing dir es with
  | zero => exact absurd hfuel (Nat.not_lt_zero _)
  | succ fuel ih =>
    obtain ⟨pre, data, hdata, hpos, hlaid⟩ := h
    have hlong : data.length + 2 ≤ dir.data.length + 2 := by
      rw [hdata, List.length_append]
      omega
    obtain ⟨entry, dir', hrun, hreads⟩ := readdir_laid hb hlaid rfl rfl hdata hpos hlong
    have hmod : ¬ dir.dirpos % 4 ≠ 0 := not_not.mpr (Nat.mod_eq_zero_of_dvd haligned)
    simp only [fspFiles, fspGetNextFile, fspReaddirNative, if_neg hmod, hrun, CRun.ok_bind]
    cases es with
    | nil =>
      cases entry with
      | none => rfl
      | some entry => exact hreads.elim
    | cons e es =>
      cases entry with
      | none => exact hreads.elim
      | some entry =>
        obtain ⟨hshown, hstanding, haligned', hlater, hkept, hsize⟩ := hreads
        have hroom := standing_room hstanding
        have hrest := ih hstanding haligned' (hsize ▸ hb) (by rw [hkept] at hroom ⊢; omega)
        change (fspFiles fuel dir' >>= _) = _
        rw [hrest, CRun.ok_bind, hshown]
        rfl

end Records

/-- A part of the listing from its beginning. -/
structure Loading (listing : Bytes) (b : ℕ) (dir : FspDir) : Prop where
  dirpos : dir.dirpos = 0
  blocksize : dir.blocksize = min b listing.length
  data : dir.data <+: listing
  used : 0 < dir.data.length

section Loads

variable {listing : Bytes} {b fuel : ℕ} {dir : FspDir} {out answer : FspPkt} {link : Link}
  {es : List Entry}

/-- A whole listing. -/
structure Whole (listing : Bytes) (b : ℕ) (dir : FspDir) : Prop where
  loading : Loading listing b dir
  data : dir.data = listing

theorem laid_short {pos n : ℕ} {data : Bytes} (h : Laid b pos data es) (hend : pos + data.length = n)
    (hlt : n < b) : Laid n pos data es := by
  have hmod : ∀ {m}, m < n → m % b = m ∧ m % n = m := fun hm =>
    ⟨Nat.mod_eq_of_lt (hm.trans hlt), Nat.mod_eq_of_lt hm⟩
  induction h with
  | done pos => exact .done pos
  | @ended pos stamp rest hroom hstamp =>
    rw [List.length_append, List.length_cons] at hend
    obtain ⟨-, hsame⟩ := hmod (by omega : pos < n)
    exact .ended (by rw [hsame]; omega) hstamp
  | @skipped pos stamp filler data es hstamp hlength hrest ih =>
    rw [List.length_append] at hend
    have hfiller : 0 < (stamp ++ rdtypeSkip :: filler).length := by
      rw [List.length_append, List.length_cons]
      omega
    obtain ⟨hsame, -⟩ := hmod (by omega : pos < n)
    rw [hsame] at hlength
    omega
  | @narrow pos filler data es hroom hlength hrest ih =>
    rw [List.length_append] at hend
    have hpos := Nat.mod_lt pos (Nat.zero_lt_of_lt hlt)
    obtain ⟨hsame, -⟩ := hmod (by omega : pos < n)
    rw [hsame] at hlength
    omega
  | @entry pos e pad data es haligned hroom hpad hrest ih =>
    have hlength := record_length e
    rw [List.length_append] at hend
    have hrecord : 0 < (e.record ++ pad).length := by
      rw [List.length_append]
      omega
    obtain ⟨-, hsame⟩ := hmod (by omega : pos < n)
    exact .entry haligned (by rw [hsame]; omega) hpad (ih (by omega))

theorem Whole.files (h : Whole listing b dir) (hb : 0 < b) (hlaid : Laid b 0 listing es) :
    fspFiles (dir.data.length + 1) dir = .ok (some (es.map Entry.shown)) := by
  obtain ⟨hloading, hdata⟩ := h
  have hused := hloading.used
  have hsize := hloading.blocksize
  rw [hdata] at hused
  refine files_laid ⟨[], listing, hdata, hloading.dirpos.symm, ?_⟩ ?_ (by omega) (by rw [hdata]; omega)
  · rw [hloading.dirpos, hsize]
    rcases Nat.lt_or_ge listing.length b with hshort | hlong
    · rw [Nat.min_eq_right hshort.le]
      exact laid_short hlaid (Nat.zero_add _) hshort
    · rw [Nat.min_eq_left hlong]
      exact hlaid
  · rw [hloading.dirpos]
    exact Nat.dvd_zero 4

end Loads

end Gftp.FspDirectories
