import Gftp.ByteReaders
import Gftp.DirectoryReads
import Gftp.SshUpload
import Gftp.AttrsLayout

/-!
The bodies of the SFTP requests that name files, and the grammar they are read by. Every
body is an allocation that is cleared, numbered and then filled in from the front; the
fields behind the path are placed by the length that was asked for before it was known.
-/

namespace Gftp.SshRequests

open ByteStrings BigEndian ByteReaders SshMessages SshListing AttrsLayout DirectoryReads

section Grammar

def sshFxpRename : UInt8 := 18

/-- The attributes of a request, as far as their flags announce them. -/
structure FileAttrs where
  size : Option UInt64
  owner : Option (UInt32 × UInt32)
  permissions : Option UInt32
  times : Option (UInt32 × UInt32)
  extended : List (Bytes × Bytes)
  deriving DecidableEq

def FileAttrs.none : FileAttrs := ⟨.none, .none, .none, .none, []⟩

/-- What stands behind the number of a request. -/
inductive Fields where
  | path (path : Bytes)
  | withAttrs (path : Bytes) (attrs : FileAttrs)
  | opened (filename : Bytes) (pflags : UInt32) (attrs : FileAttrs)
  | paths (oldpath newpath : Bytes)
  deriving DecidableEq

def Fields.strings : Fields → List Bytes
  | .path s => [s]
  | .withAttrs s _ => [s]
  | .opened s _ _ => [s]
  | .paths s t => [s, t]

def twoWords : Reader (UInt32 × UInt32) := do
  let first ← word
  let second ← word
  return (first, second)

def pair : Reader (Bytes × Bytes) := do
  let type ← string
  let data ← string
  return (type, data)

def fileAttrs : Reader FileAttrs := do
  let flags ← word
  let size ← optional (hasAttr flags sshFilexferAttrSize) long
  let owner ← optional (hasAttr flags sshFilexferAttrUidgid) twoWords
  let permissions ← optional (hasAttr flags sshFilexferAttrPermissions) word
  let times ← optional (hasAttr flags sshFilexferAttrAcmodtime) twoWords
  let extended ← optional (hasAttr flags sshFilexferAttrExtended) do
    let count ← word
    many pair count.toNat
  return ⟨size, owner, permissions, times, extended.getD []⟩

def fields (type : UInt8) : Reader Fields :=
  if type ∈ [sshFxpOpendir, sshFxpRemove, sshFxpRmdir, sshFxpRealpath, sshFxpStat] then do
    let path ← string
    return .path path
  else if type ∈ [sshFxpMkdir, sshFxpSetstat] then do
    let path ← string
    let attrs ← fileAttrs
    return .withAttrs path attrs
  else if type = sshFxpOpen then do
    let filename ← string
    let pflags ← word
    let attrs ← fileAttrs
    return .opened filename pflags attrs
  else if type = sshFxpRename then do
    let oldpath ← string
    let newpath ← string
    return .paths oldpath newpath
  else failure

/-- A request about files by name, version 3 of the protocol. -/
def request (type : UInt8) : Reader (UInt32 × Fields) := do
  let id ← word
  let fields ← fields type
  return (id, fields)

/-- The attributes that a structure has. -/
def attrsOf (a : Attrs) : FileAttrs where
  size := if hasAttr a.flags sshFilexferAttrSize then some a.size else none
  owner := if hasAttr a.flags sshFilexferAttrUidgid then some (a.uid, a.gid) else none
  permissions := if hasAttr a.flags sshFilexferAttrPermissions then some a.permissions else none
  times := if hasAttr a.flags sshFilexferAttrAcmodtime then some (a.atime, a.mtime) else none
  extended := if hasAttr a.flags sshFilexferAttrExtended then a.extended else []

theorem ofNat_length {α : Type} {l : List α} (h : l.length < 2 ^ 32) :
    (UInt32.ofNat l.length).toNat = l.length := by
  rw [UInt32.toNat_ofNat', Nat.mod_eq_of_lt h]

theorem reads_stringBytes {s : Bytes} (h : s.length < 2 ^ 32) : Reads string (stringBytes s) s :=
  reads_string (ofNat_length h)

theorem reads_twoWords (first second : UInt32) :
    Reads twoWords (be32 first ++ be32 second) (first, second) := by
  unfold twoWords
  exact (reads_word first).bind ((reads_word second).map fun second => (first, second))

theorem reads_pairs {l : List (Bytes × Bytes)} (hcount : l.length < 2 ^ 32)
    (hshort : ∀ p ∈ l, p.1.length < 2 ^ 32 ∧ p.2.length < 2 ^ 32) :
    Reads (do
      let count ← word
      many pair count.toNat) (be32 (UInt32.ofNat l.length) ++ pairBytes l) l := by
  refine (reads_word _).bind ?_
  rw [ofNat_length hcount]
  refine reads_many fun p hp => ?_
  unfold pair
  exact (reads_stringBytes (hshort p hp).1).bind
    ((reads_stringBytes (hshort p hp).2).map fun data => (p.1, data))

/-- A structure of attributes is read as it is laid out. -/
theorem reads_attrs (a : Attrs) : Reads fileAttrs a.encode (attrsOf a) := by
  have hextended : (if hasAttr a.flags sshFilexferAttrExtended then a.extended else []) =
      (if hasAttr a.flags sshFilexferAttrExtended then some a.extended else none).getD [] := by
    split_ifs <;> rfl
  unfold attrsOf fileAttrs Attrs.encode
  rw [hextended]
  refine (reads_word a.flags).bind ?_
  refine (reads_optional fun _ => reads_long a.size).bind ?_
  refine (reads_optional fun _ => reads_twoWords a.uid a.gid).bind ?_
  refine (reads_optional fun _ => reads_word a.permissions).bind ?_
  refine (reads_optional fun _ => reads_twoWords a.atime a.mtime).bind ?_
  exact (reads_optional fun _ => reads_pairs a.count a.short).map fun extended =>
    (⟨_, _, _, _, extended.getD []⟩ : FileAttrs)

end Grammar

section Model

variable {κ : Type}

/-- What the functions use of a request. charset is what it has settled on. -/
structure Requester (κ : Type) where
  id : UInt32
  directory : Option Bytes
  vms : Bool
  charset : κ

/-- gftp_filename_from_utf8: the converted string with the length it reports, none for a
string that is not converted. -/
abbrev FromUtf8 (κ : Type) := κ → Bytes → Option (Bytes × ℕ) × κ

/-- The string that is sent and its length. -/
def filename (fromUtf8 : FromUtf8 κ) (r : Requester κ) (str : Bytes) :
    (Bytes × ℕ) × Requester κ :=
  match fromUtf8 r.charset str with
  | (some (utf8, len), charset) => ((utf8, len), { r with charset := charset })
  | (none, charset) => ((str, (cstr str).length), { r with charset := charset })

def sshv2InitializeBuffer (r : Requester κ) (len : ℕ) : CRun (Bytes × Requester κ) := do
  let ret ← overwrite (List.replicate (len + 1) 0) 0 (be32 r.id)
  return (ret, { r with id := r.id + 1 })

def sshv2AddStringToBuf (buf : Bytes) (off : ℕ) (str : Bytes) (len : ℕ) : CRun Bytes := do
  let buf ← overwrite buf off (be32 (UInt32.ofNat (cstr str).length))
  if len ≤ str.length + 1 then overwrite buf (off + 4) ((str ++ [0]).take len)
  else .error .fault

/-- An allocation, its reported length and the request afterwards. -/
structure Body (κ : Type) where
  block : Bytes
  msglen : ℕ
  requester : Requester κ

def sshv2InitializeBufferWithI18nString (fromUtf8 : FromUtf8 κ) (r : Requester κ) (str : Bytes)
    (msglen : ℕ) : CRun (Body κ) := do
  let ((addstr, pathlen), r) := filename fromUtf8 r str
  let msglen := msglen + pathlen + 8
  let (ret, r) ← sshv2InitializeBuffer r msglen
  let ret ← sshv2AddStringToBuf ret 4 addstr pathlen
  return ⟨ret, msglen, r⟩

/-- A path from the root. There has to be a current directory for a relative one. -/
def absolutePath (r : Requester κ) (path : Bytes) : CRun Bytes :=
  if path.head? = some 47 then .ok path
  else
    match r.directory with
    | none => .error .fault
    | some directory => .ok (gftpBuildPath r.vms directory path)

def sshv2InitializeBufferWithTwoI18nPaths (fromUtf8 : FromUtf8 κ) (r : Requester κ)
    (str1 str2 : Bytes) (msglen : ℕ) : CRun (Body κ) := do
  let path1 ← absolutePath r str1
  let ((first, pathlen1), r) := filename fromUtf8 r path1
  let path2 ← absolutePath r str2
  let ((sec, pathlen2), r) := filename fromUtf8 r path2
  let msglen := msglen + (pathlen1 + pathlen2 + 12)
  let (ret, r) ← sshv2InitializeBuffer r msglen
  let ret ← sshv2AddStringToBuf ret 4 first pathlen1
  let ret ← sshv2AddStringToBuf ret (8 + pathlen1) sec pathlen2
  return ⟨ret, msglen, r⟩

/-- The body with the offset of what follows the path. -/
def sshv2InitializeStringWithPath (fromUtf8 : FromUtf8 κ) (r : Requester κ) (path : Bytes)
    (len : ℕ) : CRun (Body κ × ℕ) := do
  let path ← absolutePath r path
  let body ← sshv2InitializeBufferWithI18nString fromUtf8 r path len
  return (body, body.msglen - len)

/-- The functions that send a request about files by name. -/
inductive Command where
  | getcwd
  | listFiles
  | chdir (directory : Bytes)
  | rmdir (directory : Bytes)
  | rmfile (file : Bytes)
  | chmod (file : Bytes) (mode : UInt32)
  | mkdir (newdir : Bytes)
  | rename (oldname newname : Bytes)
  | setFileTime (file : Bytes) (datetime : ℤ)
  | stat (filename : Bytes)
  | openFile (file : Bytes) (mode : UInt32)

def Command.type : Command → UInt8
  | .getcwd => sshFxpRealpath
  | .listFiles => sshFxpOpendir
  | .chdir _ => sshFxpRealpath
  | .rmdir _ => sshFxpRmdir
  | .rmfile _ => sshFxpRemove
  | .chmod _ _ => sshFxpSetstat
  | .mkdir _ => sshFxpMkdir
  | .rename _ _ => sshFxpRename
  | .setFileTime _ _ => sshFxpSetstat
  | .stat _ => sshFxpStat
  | .openFile _ _ => sshFxpOpen

/-- A body of a path and no more. -/
def pathBody (fromUtf8 : FromUtf8 κ) (r : Requester κ) (path : Bytes) : CRun (Body κ) := do
  let (body, _) ← sshv2InitializeStringWithPath fromUtf8 r path 0
  return body

/-- Two words behind the path: which attributes follow, and the permissions. -/
def chmodBody (fromUtf8 : FromUtf8 κ) (r : Requester κ) (file : Bytes) (mode : UInt32) :
    CRun (Body κ) := do
  let (body, endpos) ← sshv2InitializeStringWithPath fromUtf8 r file 8
  let block ← overwrite body.block endpos (be32 sshFilexferAttrPermissions)
  let block ← overwrite block (endpos + 4) (be32 mode)
  return { body with block := block }

/-- The allocation is cleared, which leaves the attributes empty. -/
def mkdirBody (fromUtf8 : FromUtf8 κ) (r : Requester κ) (newdir : Bytes) : CRun (Body κ) := do
  let (body, _) ← sshv2InitializeStringWithPath fromUtf8 r newdir 4
  return body

def fileTimeBody (fromUtf8 : FromUtf8 κ) (r : Requester κ) (file : Bytes) (datetime : ℤ) :
    CRun (Body κ) := do
  let (body, endpos) ← sshv2InitializeStringWithPath fromUtf8 r file 12
  let block ← overwrite body.block endpos (be32 sshFilexferAttrAcmodtime)
  let block ← overwrite block (endpos + 4) (be32 (UInt32.ofInt datetime))
  let block ← overwrite block (endpos + 8) (be32 (UInt32.ofInt datetime))
  return { body with block := block }

def openBody (fromUtf8 : FromUtf8 κ) (r : Requester κ) (file : Bytes) (mode : UInt32) :
    CRun (Body κ) := do
  let (body, endpos) ← sshv2InitializeStringWithPath fromUtf8 r file 8
  let block ← overwrite body.block endpos (be32 mode)
  return { body with block := block }

/-- A server whose directory is not known is asked for the one it is in. -/
def getcwdBody (fromUtf8 : FromUtf8 κ) (r : Requester κ) : CRun (Body κ) :=
  let dir :=
    match r.directory with
    | none => ascii "."
    | some directory => if directory = [] then ascii "." else directory
  sshv2InitializeBufferWithI18nString fromUtf8 r dir 0

def listFilesBody (fromUtf8 : FromUtf8 κ) (r : Requester κ) : CRun (Body κ) :=
  match r.directory with
  | none => .error .fault
  | some directory => sshv2InitializeBufferWithI18nString fromUtf8 r directory 0

/-- The body that a function sends. -/
def body (fromUtf8 : FromUtf8 κ) (r : Requester κ) : Command → CRun (Body κ)
  | .getcwd => getcwdBody fromUtf8 r
  | .listFiles => listFilesBody fromUtf8 r
  | .chdir directory => pathBody fromUtf8 r directory
  | .rmdir directory => pathBody fromUtf8 r directory
  | .rmfile file => pathBody fromUtf8 r file
  | .chmod file mode => chmodBody fromUtf8 r file mode
  | .mkdir newdir => mkdirBody fromUtf8 r newdir
  | .rename oldname newname =>
      sshv2InitializeBufferWithTwoI18nPaths fromUtf8 r oldname newname 0
  | .setFileTime file datetime => fileTimeBody fromUtf8 r file datetime
  | .stat filename => pathBody fromUtf8 r filename
  | .openFile file mode => openBody fromUtf8 r file mode

end Model

section Bodies

variable {κ : Type} {fromUtf8 : FromUtf8 κ}

/-- A converted string has no NUL and the length that is reported. -/
structure Converts (fromUtf8 : FromUtf8 κ) : Prop where
  nul_free : ∀ {charset str utf8 len charset'},
    fromUtf8 charset str = (some (utf8, len), charset') → 0 ∉ utf8
  length : ∀ {charset str utf8 len charset'},
    fromUtf8 charset str = (some (utf8, len), charset') → len = utf8.length

/-- What is sent for a string, converted or as it is, and the character set afterwards. -/
def sent (fromUtf8 : FromUtf8 κ) (charset : κ) (str : Bytes) : Bytes × κ :=
  match fromUtf8 charset str with
  | (some (utf8, _), charset) => (utf8, charset)
  | (none, charset) => (str, charset)

theorem filename_eq (h : Converts fromUtf8) (r : Requester κ) {str : Bytes} (hstr : 0 ∉ str) :
    filename fromUtf8 r str = (((sent fromUtf8 r.charset str).1,
        (sent fromUtf8 r.charset str).1.length),
      { r with charset := (sent fromUtf8 r.charset str).2 }) ∧
      0 ∉ (sent fromUtf8 r.charset str).1 := by
  unfold filename sent
  rcases hconvert : fromUtf8 r.charset str with ⟨_ | ⟨utf8, len⟩, charset⟩
  · exact ⟨by simp [cstr_eq_self hstr], hstr⟩
  · exact ⟨by simp [h.length hconvert], h.nul_free hconvert⟩

theorem fill {front src : Bytes} {off n k : ℕ} (hoff : off = front.length)
    (hn : n = src.length + k) :
    overwrite (front ++ List.replicate n 0) off src =
      .ok (front ++ src ++ List.replicate k 0) := by
  have hsplit : List.replicate n (0 : UInt8) =
      List.replicate src.length 0 ++ List.replicate k 0 := by
    rw [hn, List.replicate_add]
  rw [hsplit, List.append_assoc]
  exact overwrite_middle hoff (List.length_replicate ..).symm

theorem addString_fill {front str : Bytes} (hstr : 0 ∉ str) {off n k : ℕ}
    (hoff : off = front.length) (hn : n = str.length + 4 + k) :
    sshv2AddStringToBuf (front ++ List.replicate n 0) off str str.length =
      .ok (front ++ stringBytes str ++ List.replicate k 0) := by
  have htake : (str ++ [0]).take str.length = str := List.take_left ..
  unfold sshv2AddStringToBuf
  rw [cstr_eq_self hstr, fill hoff (show n = _ + (str.length + k) by rw [be32_length]; omega),
    CRun.ok_bind, if_pos (Nat.le_succ _), htake,
    fill (by rw [List.length_append, be32_length, hoff]) rfl]
  simp only [stringBytes, List.append_assoc]

theorem initializeBuffer_eq (r : Requester κ) {len : ℕ} (hlen : 4 ≤ len) :
    sshv2InitializeBuffer r len = .ok (be32 r.id ++ List.replicate (len - 3) 0,
      { r with id := r.id + 1 }) := by
  have hfill := @fill [] (be32 r.id) 0 (len + 1) (len - 3) rfl (by rw [be32_length]; omega)
  rw [List.nil_append, List.nil_append] at hfill
  unfold sshv2InitializeBuffer
  rw [hfill]
  rfl

/-- The request once a string was converted and a number taken. -/
def afterwards (fromUtf8 : FromUtf8 κ) (r : Requester κ) (str : Bytes) : Requester κ :=
  { r with id := r.id + 1, charset := (sent fromUtf8 r.charset str).2 }

theorem i18nString_eq (h : Converts fromUtf8) (r : Requester κ) {str : Bytes} (hstr : 0 ∉ str)
    (msglen : ℕ) :
    sshv2InitializeBufferWithI18nString fromUtf8 r str msglen = .ok {
      block := be32 r.id ++ stringBytes (sent fromUtf8 r.charset str).1 ++
        List.replicate (msglen + 1) 0
      msglen := msglen + (sent fromUtf8 r.charset str).1.length + 8
      requester := afterwards fromUtf8 r str } := by
  obtain ⟨hname, hsent⟩ := filename_eq h r hstr
  unfold sshv2InitializeBufferWithI18nString
  rw [hname]
  dsimp only
  rw [initializeBuffer_eq _ (by omega), CRun.ok_bind]
  dsimp only
  rw [addString_fill hsent (be32_length _).symm
    (show _ = _ + 4 + (msglen + 1) by omega)]
  rfl

/-- The path that a command means, none for a relative one without a current directory. -/
def fullPath (r : Requester κ) (path : Bytes) : Option Bytes :=
  if path.head? = some 47 then some path else r.directory.map (gftpBuildPath r.vms · path)

theorem absolutePath_eq {r : Requester κ} {path full : Bytes} (h : fullPath r path = some full) :
    absolutePath r path = .ok full := by
  unfold fullPath at h
  unfold absolutePath
  split_ifs at h ⊢
  · rw [Option.some.inj h]
  · obtain ⟨directory, hdirectory, rfl⟩ := Option.map_eq_some_iff.mp h
    rw [hdirectory]

theorem fullPath_nul_free {r : Requester κ} {path full : Bytes} (h : fullPath r path = some full)
    (hdirectory : ∀ d, r.directory = some d → 0 ∉ d) (hpath : 0 ∉ path) : 0 ∉ full := by
  unfold fullPath at h
  split_ifs at h
  · rwa [← Option.some.inj h]
  · obtain ⟨directory, hd, rfl⟩ := Option.map_eq_some_iff.mp h
    have hfree := hdirectory directory hd
    unfold gftpBuildPath
    split_ifs <;> simp [hfree, hpath]

theorem stringWithPath_eq (h : Converts fromUtf8) {r : Requester κ} {path full : Bytes}
    (hfull : fullPath r path = some full) (hnul : 0 ∉ full) (len : ℕ) :
    sshv2InitializeStringWithPath fromUtf8 r path len = .ok ({
      block := be32 r.id ++ stringBytes (sent fromUtf8 r.charset full).1 ++
        List.replicate (len + 1) 0
      msglen := len + (sent fromUtf8 r.charset full).1.length + 8
      requester := afterwards fromUtf8 r full },
      (be32 r.id ++ stringBytes (sent fromUtf8 r.charset full).1).length) := by
  unfold sshv2InitializeStringWithPath
  rw [absolutePath_eq hfull, CRun.ok_bind, i18nString_eq h r hnul, CRun.ok_bind]
  have hend : len + (sent fromUtf8 r.charset full).1.length + 8 - len =
      (be32 r.id ++ stringBytes (sent fromUtf8 r.charset full).1).length := by
    rw [List.length_append, be32_length, stringBytes_length]
    omega
  dsimp only
  rw [hend]
  rfl

/-- The request behind a body of two paths. -/
def afterBoth (fromUtf8 : FromUtf8 κ) (r : Requester κ) (first second : Bytes) : Requester κ :=
  { r with id := r.id + 1
           charset := (sent fromUtf8 (sent fromUtf8 r.charset first).2 second).2 }

theorem twoPaths_eq (h : Converts fromUtf8) {r : Requester κ} {str1 str2 first second : Bytes}
    (hfirst : fullPath r str1 = some first) (hsecond : fullPath r str2 = some second)
    (hnul₁ : 0 ∉ first) (hnul₂ : 0 ∉ second) :
    sshv2InitializeBufferWithTwoI18nPaths fromUtf8 r str1 str2 0 = .ok {
      block := be32 r.id ++ stringBytes (sent fromUtf8 r.charset first).1 ++
        stringBytes (sent fromUtf8 (sent fromUtf8 r.charset first).2 second).1 ++
          List.replicate 1 0
      msglen := (sent fromUtf8 r.charset first).1.length +
        (sent fromUtf8 (sent fromUtf8 r.charset first).2 second).1.length + 12
      requester := afterBoth fromUtf8 r first second } := by
  obtain ⟨hname₁, hsent₁⟩ := filename_eq h r hnul₁
  obtain ⟨hname₂, hsent₂⟩ :=
    filename_eq h { r with charset := (sent fromUtf8 r.charset first).2 } hnul₂
  have hpath₂ : absolutePath { r with charset := (sent fromUtf8 r.charset first).2 } str2 =
      .ok second := absolutePath_eq (r := { r with
        charset := (sent fromUtf8 r.charset first).2 }) hsecond
  unfold sshv2InitializeBufferWithTwoI18nPaths
  rw [absolutePath_eq hfirst, CRun.ok_bind, hname₁]
  dsimp only
  rw [hpath₂, CRun.ok_bind, hname₂]
  dsimp only
  rw [initializeBuffer_eq _ (by omega), CRun.ok_bind]
  dsimp only
  rw [addString_fill hsent₁ (be32_length _).symm
    (show _ = (sent fromUtf8 r.charset first).1.length + 4 +
      ((sent fromUtf8 (sent fromUtf8 r.charset first).2 second).1.length + 4 + 1) by omega),
    CRun.ok_bind,
    addString_fill hsent₂ (by rw [List.length_append, be32_length, stringBytes_length]; omega) rfl,
    Nat.zero_add]
  rfl

/-- Only the permissions. -/
def permissionAttrs (mode : UInt32) : Attrs where
  flags := sshFilexferAttrPermissions
  size := 0
  uid := 0
  gid := 0
  permissions := mode
  atime := 0
  mtime := 0
  extended := []
  count := Nat.two_pow_pos 32
  short := fun _ h => absurd h List.not_mem_nil

/-- Only the times, which are the same. -/
def timeAttrs (time : UInt32) : Attrs where
  flags := sshFilexferAttrAcmodtime
  size := 0
  uid := 0
  gid := 0
  permissions := 0
  atime := time
  mtime := time
  extended := []
  count := Nat.two_pow_pos 32
  short := fun _ h => absurd h List.not_mem_nil

/-- No attributes. -/
def noAttrs : Attrs where
  flags := 0
  size := 0
  uid := 0
  gid := 0
  permissions := 0
  atime := 0
  mtime := 0
  extended := []
  count := Nat.two_pow_pos 32
  short := fun _ h => absurd h List.not_mem_nil

theorem permissionAttrs_encode (mode : UInt32) :
    (permissionAttrs mode).encode = be32 sshFilexferAttrPermissions ++ be32 mode := by
  unfold Attrs.encode permissionAttrs
  dsimp only
  rw [if_neg (by decide), if_neg (by decide), if_pos (by decide), if_neg (by decide),
    if_neg (by decide)]
  simp

theorem timeAttrs_encode (time : UInt32) :
    (timeAttrs time).encode = be32 sshFilexferAttrAcmodtime ++ (be32 time ++ be32 time) := by
  unfold Attrs.encode timeAttrs
  dsimp only
  rw [if_neg (by decide), if_neg (by decide), if_neg (by decide), if_pos (by decide),
    if_neg (by decide)]
  simp

theorem noAttrs_encode : noAttrs.encode = List.replicate 4 0 := rfl

theorem permissionAttrs_of (mode : UInt32) :
    attrsOf (permissionAttrs mode) = { FileAttrs.none with permissions := some mode } := by
  unfold attrsOf permissionAttrs
  dsimp only
  rw [if_neg (by decide), if_neg (by decide), if_pos (by decide), if_neg (by decide),
    if_neg (by decide)]
  rfl

theorem timeAttrs_of (time : UInt32) :
    attrsOf (timeAttrs time) = { FileAttrs.none with times := some (time, time) } := by
  unfold attrsOf timeAttrs
  dsimp only
  rw [if_neg (by decide), if_neg (by decide), if_neg (by decide), if_pos (by decide),
    if_neg (by decide)]
  rfl

/-- The current directory, or the one that the server has. -/
def currentDirectory (r : Requester κ) : Bytes :=
  if r.directory.getD [] = [] then ascii "." else r.directory.getD []

/-- What a command is to ask for. A time is sent as the low word of it. -/
def intended (fromUtf8 : FromUtf8 κ) (r : Requester κ) : Command → Option Fields
  | .getcwd => some (.path (sent fromUtf8 r.charset (currentDirectory r)).1)
  | .listFiles => r.directory.map fun d => .path (sent fromUtf8 r.charset d).1
  | .chdir directory => (fullPath r directory).map fun d => .path (sent fromUtf8 r.charset d).1
  | .rmdir directory => (fullPath r directory).map fun d => .path (sent fromUtf8 r.charset d).1
  | .rmfile file => (fullPath r file).map fun f => .path (sent fromUtf8 r.charset f).1
  | .chmod file mode => (fullPath r file).map fun f =>
      .withAttrs (sent fromUtf8 r.charset f).1 { FileAttrs.none with permissions := some mode }
  | .mkdir newdir => (fullPath r newdir).map fun d =>
      .withAttrs (sent fromUtf8 r.charset d).1 FileAttrs.none
  | .rename oldname newname => (fullPath r oldname).bind fun f => (fullPath r newname).map fun t =>
      .paths (sent fromUtf8 r.charset f).1
        (sent fromUtf8 (sent fromUtf8 r.charset f).2 t).1
  | .setFileTime file datetime => (fullPath r file).map fun f =>
      .withAttrs (sent fromUtf8 r.charset f).1 { FileAttrs.none with
        times := some (UInt32.ofInt datetime, UInt32.ofInt datetime) }
  | .stat filename => (fullPath r filename).map fun f => .path (sent fromUtf8 r.charset f).1
  | .openFile file mode => (fullPath r file).map fun f =>
      .opened (sent fromUtf8 r.charset f).1 mode FileAttrs.none

def Command.names : Command → List Bytes
  | .getcwd => []
  | .listFiles => []
  | .chdir directory => [directory]
  | .rmdir directory => [directory]
  | .rmfile file => [file]
  | .chmod file _ => [file]
  | .mkdir newdir => [newdir]
  | .rename oldname newname => [oldname, newname]
  | .setFileTime file _ => [file]
  | .stat filename => [filename]
  | .openFile file _ => [file]

/-- The body is the request and a byte more that is not sent, and the next request has the
next number. -/
structure Carries (type : UInt8) (r : Requester κ) (asked : Fields) (b : Body κ) : Prop where
  room : b.block.length = b.msglen + 1
  decoded : (request type).run (b.block.take b.msglen) = some ((r.id, asked), [])
  next : b.requester.id = r.id + 1

theorem carries_of_reads {type : UInt8} {r : Requester κ} {asked : Fields} {d : Bytes}
    (h : Reads (fields type) d asked) {b : Body κ}
    (hblock : b.block = be32 r.id ++ d ++ List.replicate 1 0) (hlen : b.msglen = d.length + 4)
    (hnext : b.requester.id = r.id + 1) : Carries type r asked b := by
  have hfront : (be32 r.id ++ d).length = b.msglen := by
    rw [List.length_append, be32_length, hlen, Nat.add_comm]
  refine ⟨?_, ?_, hnext⟩
  · rw [hblock, List.length_append, hfront]
    rfl
  · have hrequest : Reads (request type) (be32 r.id ++ d) (r.id, asked) := by
      unfold request
      exact (reads_word r.id).bind (h.map fun fields => (r.id, fields))
    rw [hblock, ← hfront, List.take_left]
    exact hrequest.all

section Readings

variable {s : Bytes} (hs : s.length < 2 ^ 32)

include hs

theorem reads_path {type : UInt8}
    (h : type ∈ [sshFxpOpendir, sshFxpRemove, sshFxpRmdir, sshFxpRealpath, sshFxpStat]) :
    Reads (fields type) (stringBytes s) (.path s) := by
  unfold fields
  rw [if_pos h]
  exact (reads_stringBytes hs).map Fields.path

theorem reads_withAttrs {type : UInt8} (h : type ∈ [sshFxpMkdir, sshFxpSetstat]) (a : Attrs) :
    Reads (fields type) (stringBytes s ++ a.encode) (.withAttrs s (attrsOf a)) := by
  have hnot : type ∉ [sshFxpOpendir, sshFxpRemove, sshFxpRmdir, sshFxpRealpath, sshFxpStat] := by
    rw [List.mem_cons, List.mem_singleton] at h
    rcases h with rfl | rfl <;> decide
  unfold fields
  rw [if_neg hnot, if_pos h]
  exact (reads_stringBytes hs).bind ((reads_attrs a).map fun attrs => Fields.withAttrs s attrs)

theorem reads_opened (pflags : UInt32) (a : Attrs) :
    Reads (fields sshFxpOpen) (stringBytes s ++ (be32 pflags ++ a.encode))
      (.opened s pflags (attrsOf a)) := by
  unfold fields
  rw [if_neg (by decide), if_neg (by decide), if_pos rfl]
  exact (reads_stringBytes hs).bind ((reads_word pflags).bind
    ((reads_attrs a).map fun attrs => Fields.opened s pflags attrs))

theorem reads_paths {t : Bytes} (ht : t.length < 2 ^ 32) :
    Reads (fields sshFxpRename) (stringBytes s ++ stringBytes t) (.paths s t) := by
  unfold fields
  rw [if_neg (by decide), if_neg (by decide), if_neg (by decide), if_pos rfl]
  exact (reads_stringBytes hs).bind ((reads_stringBytes ht).map fun t => Fields.paths s t)

end Readings

theorem path_carries (h : Converts fromUtf8) {r : Requester κ} {path full : Bytes}
    (hfull : fullPath r path = some full) (hnul : 0 ∉ full) {type : UInt8}
    (htype : type ∈ [sshFxpOpendir, sshFxpRemove, sshFxpRmdir, sshFxpRealpath, sshFxpStat])
    (hshort : (sent fromUtf8 r.charset full).1.length < 2 ^ 32) :
    ∃ b, pathBody fromUtf8 r path = .ok b ∧
      Carries type r (.path (sent fromUtf8 r.charset full).1) b := by
  unfold pathBody
  rw [stringWithPath_eq h hfull hnul, CRun.ok_bind]
  refine ⟨_, rfl, carries_of_reads (reads_path hshort htype) rfl ?_ rfl⟩
  rw [stringBytes_length]
  dsimp only
  omega

theorem string_carries (h : Converts fromUtf8) {r : Requester κ} {str : Bytes} (hnul : 0 ∉ str)
    {type : UInt8}
    (htype : type ∈ [sshFxpOpendir, sshFxpRemove, sshFxpRmdir, sshFxpRealpath, sshFxpStat])
    (hshort : (sent fromUtf8 r.charset str).1.length < 2 ^ 32) :
    ∃ b, sshv2InitializeBufferWithI18nString fromUtf8 r str 0 = .ok b ∧
      Carries type r (.path (sent fromUtf8 r.charset str).1) b := by
  rw [i18nString_eq h r hnul]
  refine ⟨_, rfl, carries_of_reads (reads_path hshort htype) rfl ?_ rfl⟩
  rw [stringBytes_length]
  dsimp only
  omega

theorem chmod_carries (h : Converts fromUtf8) {r : Requester κ} {file full : Bytes}
    (hfull : fullPath r file = some full) (hnul : 0 ∉ full) (mode : UInt32)
    (hshort : (sent fromUtf8 r.charset full).1.length < 2 ^ 32) :
    ∃ b, chmodBody fromUtf8 r file mode = .ok b ∧
      Carries sshFxpSetstat r (.withAttrs (sent fromUtf8 r.charset full).1
        { FileAttrs.none with permissions := some mode }) b := by
  have hreads := reads_withAttrs hshort (show sshFxpSetstat ∈ _ by decide) (permissionAttrs mode)
  rw [permissionAttrs_of] at hreads
  unfold chmodBody
  rw [stringWithPath_eq h hfull hnul, CRun.ok_bind]
  dsimp only
  rw [fill rfl (show 8 + 1 = 4 + 5 from rfl), CRun.ok_bind,
    fill (by simp only [List.length_append, be32_length]) (show 5 = 4 + 1 from rfl),
    CRun.ok_bind]
  refine ⟨_, rfl, carries_of_reads hreads ?_ ?_ rfl⟩
  · rw [permissionAttrs_encode]
    simp only [List.append_assoc]
  · rw [List.length_append, stringBytes_length, permissionAttrs_encode, List.length_append,
      be32_length, be32_length]
    dsimp only
    omega

theorem mkdir_carries (h : Converts fromUtf8) {r : Requester κ} {newdir full : Bytes}
    (hfull : fullPath r newdir = some full) (hnul : 0 ∉ full)
    (hshort : (sent fromUtf8 r.charset full).1.length < 2 ^ 32) :
    ∃ b, mkdirBody fromUtf8 r newdir = .ok b ∧
      Carries sshFxpMkdir r (.withAttrs (sent fromUtf8 r.charset full).1 FileAttrs.none) b := by
  have hreads := reads_withAttrs hshort (show sshFxpMkdir ∈ _ by decide) noAttrs
  unfold mkdirBody
  rw [stringWithPath_eq h hfull hnul, CRun.ok_bind]
  refine ⟨_, rfl, carries_of_reads hreads ?_ ?_ rfl⟩
  · rw [noAttrs_encode]
    simp only [List.append_assoc, List.replicate_append_replicate]
  · rw [List.length_append, stringBytes_length, noAttrs_encode, List.length_replicate]

theorem fileTime_carries (h : Converts fromUtf8) {r : Requester κ} {file full : Bytes}
    (hfull : fullPath r file = some full) (hnul : 0 ∉ full) (datetime : ℤ)
    (hshort : (sent fromUtf8 r.charset full).1.length < 2 ^ 32) :
    ∃ b, fileTimeBody fromUtf8 r file datetime = .ok b ∧
      Carries sshFxpSetstat r (.withAttrs (sent fromUtf8 r.charset full).1
        { FileAttrs.none with
          times := some (UInt32.ofInt datetime, UInt32.ofInt datetime) }) b := by
  have hreads := reads_withAttrs hshort (show sshFxpSetstat ∈ _ by decide)
    (timeAttrs (UInt32.ofInt datetime))
  rw [timeAttrs_of] at hreads
  unfold fileTimeBody
  rw [stringWithPath_eq h hfull hnul, CRun.ok_bind]
  dsimp only
  rw [fill rfl (show 12 + 1 = 4 + 9 from rfl), CRun.ok_bind,
    fill (by simp only [List.length_append, be32_length]) (show 9 = 4 + 5 from rfl),
    CRun.ok_bind,
    fill (by simp only [List.length_append, be32_length, Nat.add_assoc]) (show 5 = 4 + 1 from rfl),
    CRun.ok_bind]
  refine ⟨_, rfl, carries_of_reads hreads ?_ ?_ rfl⟩
  · rw [timeAttrs_encode]
    simp only [List.append_assoc]
  · rw [List.length_append, stringBytes_length, timeAttrs_encode]
    simp only [List.length_append, be32_length]
    omega

theorem open_carries (h : Converts fromUtf8) {r : Requester κ} {file full : Bytes}
    (hfull : fullPath r file = some full) (hnul : 0 ∉ full) (mode : UInt32)
    (hshort : (sent fromUtf8 r.charset full).1.length < 2 ^ 32) :
    ∃ b, openBody fromUtf8 r file mode = .ok b ∧
      Carries sshFxpOpen r (.opened (sent fromUtf8 r.charset full).1 mode FileAttrs.none) b := by
  have hreads := reads_opened hshort mode noAttrs
  unfold openBody
  rw [stringWithPath_eq h hfull hnul, CRun.ok_bind]
  dsimp only
  rw [fill rfl (show 8 + 1 = 4 + 5 from rfl), CRun.ok_bind]
  refine ⟨_, rfl, carries_of_reads hreads ?_ ?_ rfl⟩
  · rw [noAttrs_encode]
    simp only [List.append_assoc, List.replicate_append_replicate]
  · rw [List.length_append, stringBytes_length, List.length_append, be32_length, noAttrs_encode,
      List.length_replicate]
    dsimp only
    omega

theorem rename_carries (h : Converts fromUtf8) {r : Requester κ}
    {oldname newname first second : Bytes} (hfirst : fullPath r oldname = some first)
    (hsecond : fullPath r newname = some second) (hnul₁ : 0 ∉ first) (hnul₂ : 0 ∉ second)
    (hshort₁ : (sent fromUtf8 r.charset first).1.length < 2 ^ 32)
    (hshort₂ : (sent fromUtf8 (sent fromUtf8 r.charset first).2 second).1.length < 2 ^ 32) :
    ∃ b, sshv2InitializeBufferWithTwoI18nPaths fromUtf8 r oldname newname 0 = .ok b ∧
      Carries sshFxpRename r (.paths (sent fromUtf8 r.charset first).1
        (sent fromUtf8 (sent fromUtf8 r.charset first).2 second).1) b := by
  rw [twoPaths_eq h hfirst hsecond hnul₁ hnul₂]
  refine ⟨_, rfl, carries_of_reads (reads_paths hshort₁ hshort₂) ?_ ?_ rfl⟩
  · simp only [List.append_assoc]
  · rw [List.length_append, stringBytes_length, stringBytes_length]
    dsimp only
    omega

/-- With strings that their length fields can hold, every request is the one that is meant. -/
theorem requests_carried (h : Converts fromUtf8) (r : Requester κ) (c : Command) (asked : Fields)
    (hdirectory : ∀ d, r.directory = some d → 0 ∉ d) (hnames : ∀ n ∈ c.names, 0 ∉ n)
    (hasked : intended fromUtf8 r c = some asked)
    (hshort : ∀ s ∈ asked.strings, s.length < 2 ^ 32) :
    ∃ b, body fromUtf8 r c = .ok b ∧ Carries c.type r asked b := by
  have hfree {path full : Bytes} (hfull : fullPath r path = some full) (hpath : path ∈ c.names) :
      0 ∉ full := fullPath_nul_free hfull hdirectory (hnames path hpath)
  cases c with
  | getcwd =>
    obtain rfl := Option.some.inj hasked
    have hcurrent : 0 ∉ currentDirectory r := by
      unfold currentDirectory
      split_ifs
      · decide
      · rcases hd : r.directory with _ | d
        · simp
        · exact hdirectory d hd
    have hbody : body fromUtf8 r .getcwd =
        sshv2InitializeBufferWithI18nString fromUtf8 r (currentDirectory r) 0 := by
      unfold body getcwdBody currentDirectory
      rcases r.directory with _ | d <;> rfl
    rw [hbody]
    exact string_carries h hcurrent (by decide) (hshort _ (List.mem_singleton_self _))
  | listFiles =>
    obtain ⟨d, hd, rfl⟩ := Option.map_eq_some_iff.mp hasked
    have hbody : body fromUtf8 r .listFiles =
        sshv2InitializeBufferWithI18nString fromUtf8 r d 0 := by
      simp only [body, listFilesBody, hd]
    rw [hbody]
    exact string_carries h (hdirectory d hd) (by decide) (hshort _ (List.mem_singleton_self _))
  | chdir directory =>
    obtain ⟨full, hfull, rfl⟩ := Option.map_eq_some_iff.mp hasked
    exact path_carries h hfull (hfree hfull (List.mem_singleton_self _))
      (show sshFxpRealpath ∈ _ by decide) (hshort _ (List.mem_singleton_self _))
  | rmdir directory =>
    obtain ⟨full, hfull, rfl⟩ := Option.map_eq_some_iff.mp hasked
    exact path_carries h hfull (hfree hfull (List.mem_singleton_self _))
      (show sshFxpRmdir ∈ _ by decide) (hshort _ (List.mem_singleton_self _))
  | rmfile file =>
    obtain ⟨full, hfull, rfl⟩ := Option.map_eq_some_iff.mp hasked
    exact path_carries h hfull (hfree hfull (List.mem_singleton_self _))
      (show sshFxpRemove ∈ _ by decide) (hshort _ (List.mem_singleton_self _))
  | chmod file mode =>
    obtain ⟨full, hfull, rfl⟩ := Option.map_eq_some_iff.mp hasked
    exact chmod_carries h hfull (hfree hfull (List.mem_singleton_self _)) mode
      (hshort _ (List.mem_singleton_self _))
  | mkdir newdir =>
    obtain ⟨full, hfull, rfl⟩ := Option.map_eq_some_iff.mp hasked
    exact mkdir_carries h hfull (hfree hfull (List.mem_singleton_self _))
      (hshort _ (List.mem_singleton_self _))
  | rename oldname newname =>
    obtain ⟨first, hfirst, hasked⟩ := Option.bind_eq_some_iff.mp hasked
    obtain ⟨second, hsecond, rfl⟩ := Option.map_eq_some_iff.mp hasked
    exact rename_carries h hfirst hsecond (hfree hfirst (List.mem_cons_self ..))
      (hfree hsecond (List.mem_cons_of_mem _ (List.mem_singleton_self _)))
      (hshort _ (List.mem_cons_self ..))
      (hshort _ (List.mem_cons_of_mem _ (List.mem_singleton_self _)))
  | setFileTime file datetime =>
    obtain ⟨full, hfull, rfl⟩ := Option.map_eq_some_iff.mp hasked
    exact fileTime_carries h hfull (hfree hfull (List.mem_singleton_self _)) datetime
      (hshort _ (List.mem_singleton_self _))
  | stat filename =>
    obtain ⟨full, hfull, rfl⟩ := Option.map_eq_some_iff.mp hasked
    exact path_carries h hfull (hfree hfull (List.mem_singleton_self _))
      (show sshFxpStat ∈ _ by decide) (hshort _ (List.mem_singleton_self _))
  | openFile file mode =>
    obtain ⟨full, hfull, rfl⟩ := Option.map_eq_some_iff.mp hasked
    exact open_carries h hfull (hfree hfull (List.mem_singleton_self _)) mode
      (hshort _ (List.mem_singleton_self _))

end Bodies

/-- Strings are sent as they are. -/
def unconverted : FromUtf8 Unit := fun charset _ => (none, charset)

theorem unconverted_converts : Converts unconverted :=
  ⟨fun h => absurd (congrArg Prod.fst h) (Option.some_ne_none _).symm,
    fun h => absurd (congrArg Prod.fst h) (Option.some_ne_none _).symm⟩

def atRoot : Requester Unit := ⟨7, some (ascii "/"), false, ()⟩

/-- A relative path below the root. -/
theorem rename_below_root :
    ∃ b, body unconverted atRoot (.rename (ascii "a") (ascii "/b")) = .ok b ∧
      Carries sshFxpRename atRoot (.paths (ascii "/a") (ascii "/b")) b :=
  requests_carried unconverted_converts atRoot (.rename (ascii "a") (ascii "/b"))
    (.paths (ascii "/a") (ascii "/b")) (by decide) (by decide) rfl (by decide)

/-- A path whose length field is zero is left over. -/
theorem wrapped_path {t : Bytes} (hlen : t.length = 2 ^ 32) (hhead : t.head? = some 47)
    (hnul : 0 ∉ t) :
    ¬ ∃ b, body unconverted atRoot (.rmdir t) = .ok b ∧
      Carries sshFxpRmdir atRoot (.path t) b := by
  have hfull : fullPath atRoot t = some t := by
    unfold fullPath
    rw [if_pos hhead]
  have hzero : stringBytes t = be32 0 ++ t := by
    rw [stringBytes, hlen]
    rfl
  rintro ⟨b, hbody, hcarries⟩
  have hpath : body unconverted atRoot (.rmdir t) = pathBody unconverted atRoot t := rfl
  rw [hpath, pathBody, stringWithPath_eq unconverted_converts hfull hnul, CRun.ok_bind] at hbody
  obtain rfl := Except.ok.inj hbody
  have hdecoded := hcarries.decoded
  have hsent : sent unconverted atRoot.charset t = (t, ()) := rfl
  have hfront : 0 + t.length + 8 = (be32 atRoot.id ++ stringBytes t).length := by
    rw [List.length_append, be32_length, stringBytes_length]
    omega
  have hempty : Reads (request sshFxpRmdir) (be32 atRoot.id ++ be32 0)
      (atRoot.id, .path []) := by
    have hstring : Reads string (be32 0) [] := by
      have hread := @reads_string 0 [] rfl
      rwa [List.append_nil] at hread
    unfold request
    refine (reads_word atRoot.id).bind (Reads.map ?_ fun fields => (atRoot.id, fields))
    unfold fields
    rw [if_pos (by decide)]
    exact hstring.map Fields.path
  simp only [hsent] at hdecoded
  rw [hfront, List.take_left, hzero, ← List.append_assoc, hempty] at hdecoded
  have hrest : t = [] := congrArg Prod.snd (Option.some.inj hdecoded)
  rw [hrest] at hhead
  cases hhead

/-- The length field of a path of 2^32 bytes is zero. -/
theorem long_path_lost :
    ¬ ∀ (r : Requester Unit) (c : Command) (asked : Fields),
      (∀ d, r.directory = some d → 0 ∉ d) → (∀ n ∈ c.names, 0 ∉ n) →
      intended unconverted r c = some asked →
      ∃ b, body unconverted r c = .ok b ∧ Carries c.type r asked b := by
  obtain ⟨t, hlen, hhead, hnul⟩ :
      ∃ t : Bytes, t.length = 2 ^ 32 ∧ t.head? = some 47 ∧ 0 ∉ t := by
    refine ⟨List.replicate (2 ^ 32) 47, List.length_replicate .., ?_, fun h => ?_⟩
    · rw [List.head?_replicate, if_neg (by decide)]
    · exact absurd (List.eq_of_mem_replicate h) (by decide)
  intro h
  refine wrapped_path hlen hhead hnul (h atRoot (.rmdir t) (.path t) (by decide) ?_ ?_)
  · simpa [Command.names] using hnul
  · simp only [intended, fullPath, if_pos hhead]
    rfl

end Gftp.SshRequests
