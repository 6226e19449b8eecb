import Gftp.DirectoryReads
import Gftp.LinkedLists

/-!
gftp_get_all_subdirs: the walk that makes the list of the files of a transfer out of the
files selected. The list is extended at its tail by the entries of each directory while the
loop goes through it. The devices and inodes met are kept in a hash of hashes, by their
values as guint. The walk leaves through several exits; a run on fuel is pending when the
loop has not come to its end.
-/

namespace Gftp.Subdirs

open ByteStrings DirectoryReads LinkedLists Protocol

variable {σ τ : Type}

/-- The files in memory: the nodes of the lists and their data. Nodes from fresh on are free. -/
structure FileNodes where
  links : Links ℕ
  data : ℕ → WalkFile
  fresh : ℕ

namespace FileNodes

def setData (m : FileNodes) (n : ℕ) (f : WalkFile) : FileNodes :=
  { m with data := Function.update m.data n f }

/-- The nodes that g_list_append takes for a list of files. -/
def newNodes (m : FileNodes) (files : List WalkFile) : List ℕ := List.range' m.fresh files.length

def alloc (m : FileNodes) (files : List WalkFile) : FileNodes where
  links := m.links.linkAll none (m.newNodes files)
  data n := if m.fresh ≤ n then files.getD (n - m.fresh) (m.data n) else m.data n
  fresh := m.fresh + files.length

/-- A list behind the last node of another; the last node of both. -/
def splice (m : FileNodes) (lastlist : ℕ) (files : List WalkFile) : FileNodes × ℕ :=
  let nodes := m.newNodes files
  let m := m.alloc files
  let m := { m with links := m.links.setNext lastlist nodes.head? }
  match nodes.head? with
  | none => (m, lastlist)
  | some first =>
      ({ m with links := m.links.setPrev first (some lastlist) }, nodes.getLast?.getD lastlist)

end FileNodes

/-- A device hash: of each device met the hash of its inodes. -/
abbrev DeviceHash := ℕ → Option (List ℕ)

def emptyHash : DeviceHash := fun _ => none

def guint (n : ℕ) : ℕ := n % 2 ^ 32

def lookupCurfleInDeviceHash (curfle : WalkFile) (deviceHash : DeviceHash) : Bool × DeviceHash :=
  if curfle.stDev = 0 ∨ curfle.stIno = 0 then (false, deviceHash)
  else
    match deviceHash (guint curfle.stDev) with
    | some inodeHash =>
        if guint curfle.stIno ∈ inodeHash then (true, deviceHash)
        else
          (false, Function.update deviceHash (guint curfle.stDev)
            (some (guint curfle.stIno :: inodeHash)))
    | none =>
        (false, Function.update deviceHash (guint curfle.stDev) (some [guint curfle.stIno]))

structure Walk (σ τ : Type) where
  fromreq : WalkRequest σ
  toreq : Option (WalkRequest τ)
  oldfromdir : Option Bytes
  oldtodir : Option Bytes
  deviceHash : DeviceHash
  numfiles : ℤ
  numdirs : ℤ

/-- The calls behind which the walk is left when they fail. -/
inductive Exit
  | stat
  | setDirectory
  | setOtherDirectory
  | listing
  deriving DecidableEq

/-- What the loop does with a file: it is passed over, counted as a file, or a directory whose
entries are appended; or the walk is left. -/
inductive Visit
  | passedOver
  | counted
  | listed (files : List WalkFile)
  | left (exit : Exit) (ret : ℤ)

variable (F : WalkProtocol σ) (T : WalkProtocol τ)

/-- A link is followed; the result is negative when the walk is left. -/
def followLink (fromreq : WalkRequest σ) (curfle : WalkFile) : ℤ × WalkRequest σ × WalkFile :=
  if sIslnk curfle.stMode && !sIsdir curfle.stMode then
    let (a, fromreq) := gftpStatFilename F fromreq curfle.file
    if a.ret = GftpError.fatal.code then (a.ret, fromreq, curfle)
    else if a.ret = 0 then
      if sIsdir a.stMode then (0, fromreq, { curfle with stMode := a.stMode })
      else (0, fromreq, { curfle with size := a.filesize })
    else (0, fromreq, curfle)
  else (0, fromreq, curfle)

/-- The other side is brought into the directory; the result is negative when the walk is
left. -/
def enterOther (w : Walk σ τ) (curfle : WalkFile) : ℤ × Walk σ τ :=
  match w.toreq with
  | none => (0, w)
  | some toreq =>
      let w := { w with oldtodir := w.oldtodir.or toreq.directory }
      if curfle.existsOtherSide then
        let (ret, toreq) := gftpSetDirectory T toreq curfle.destfile
        let w := { w with toreq := some toreq }
        if ret = GftpError.fatal.code then (ret, w) else (0, w)
      else (0, { w with toreq := some { toreq with directory := curfle.destfile } })

def enterDirectory (w : Walk σ τ) (curfle : WalkFile) : Walk σ τ × Visit :=
  let w := { w with
    numdirs := w.numdirs + 1
    oldfromdir := w.oldfromdir.or w.fromreq.directory }
  let (ret, fromreq) := gftpSetDirectory F w.fromreq (some curfle.file)
  let w := { w with fromreq := fromreq }
  if ret < 0 then (w, .left .setDirectory ret)
  else
    let (ret, w) := enterOther T w curfle
    if ret < 0 then (w, .left .setOtherDirectory ret)
    else
      let r := gftpGetDirListing F T w.fromreq w.toreq curfle.existsOtherSide
      let w := { w with fromreq := r.fromreq, toreq := r.toreq }
      if r.ret < 0 then (w, .left .listing r.ret) else (w, .listed r.files)

/-- The body of the loop on the data of a file, up to the list. -/
def visit (w : Walk σ τ) (curfle : WalkFile) : Walk σ τ × WalkFile × Visit :=
  let (found, deviceHash) := lookupCurfleInDeviceHash curfle w.deviceHash
  let w := { w with deviceHash := deviceHash }
  if found then (w, curfle, .passedOver)
  else
    let (ret, fromreq, curfle) := followLink F w.fromreq curfle
    let w := { w with fromreq := fromreq }
    if ret < 0 then (w, curfle, .left .stat ret)
    else if !sIsdir curfle.stMode then ({ w with numfiles := w.numfiles + 1 }, curfle, .counted)
    else
      let (w, v) := enterDirectory F T w curfle
      (w, curfle, v)

def Visit.files : Visit → List WalkFile
  | .listed files => files
  | _ => []

structure LoopState (σ τ : Type) where
  walk : Walk σ τ
  nodes : FileNodes
  templist : Option ℕ
  lastlist : ℕ

/-- A visit: the walk and the file in front of it, and behind it. -/
structure Visited (σ τ : Type) where
  before : Walk σ τ
  met : WalkFile
  after : Walk σ τ
  curfle : WalkFile
  visit : Visit

def visited (w : Walk σ τ) (met : WalkFile) : Visited σ τ :=
  let (after, curfle, visit) := visit F T w met
  ⟨w, met, after, curfle, visit⟩

/-- The loop behind a visit of templist, which stands before its last node or at it. -/
def LoopState.behind (s : LoopState σ τ) (templist : ℕ) (v : Visited σ τ) : LoopState σ τ :=
  let m := s.nodes.setData templist v.curfle
  match v.visit with
  | .listed files =>
      let (m, lastlist) := m.splice s.lastlist files
      ⟨v.after, m, m.links.next templist, lastlist⟩
  | _ => ⟨v.after, m, m.links.next templist, s.lastlist⟩

/-- The loop, with the result of the walk when it was left. -/
def subdirsLoop : ℕ → LoopState σ τ → CRun (Option ℤ × LoopState σ τ)
  | 0, _ => .error .pending
  | fuel + 1, s =>
      match s.templist with
      | none => .ok (none, s)
      | some templist =>
          let v := visited F T s.walk (s.nodes.data templist)
          match v.visit with
          | .left _ ret => .ok (some ret, s.behind templist v)
          | _ => subdirsLoop fuel (s.behind templist v)

/-- The visits that the loop makes in so many passes. -/
def subdirsVisits : ℕ → LoopState σ τ → List (Visited σ τ)
  | 0, _ => []
  | fuel + 1, s =>
      match s.templist with
      | none => []
      | some templist =>
          let v := visited F T s.walk (s.nodes.data templist)
          match v.visit with
          | .left _ _ => [v]
          | _ => v :: subdirsVisits fuel (s.behind templist v)

def lastName (file : Bytes) : Bytes := (file.reverse.takeWhile (· ≠ 47)).reverse

/-- The size of a file selected is asked when it is not known; false when this failed. -/
def knownSize (fromreq : WalkRequest σ) (curfle : WalkFile) : Bool × WalkRequest σ × WalkFile :=
  if curfle.size < 0 ∧ fromreq.isConnected = true then
    let (size, fromreq) := gftpGetFileSize F fromreq curfle.file
    (size ≠ GftpError.fatal.code, fromreq, { curfle with size := size })
  else (true, fromreq, curfle)

/-- The loop over the files selected; false when it was left. -/
def setupLoop (toreq : Option (WalkRequest τ)) (dirhash : Option DirHash) :
    WalkRequest σ → List WalkFile → Bool × List WalkFile × WalkRequest σ
  | fromreq, [] => (true, [], fromreq)
  | fromreq, curfle :: rest =>
      let (ok, fromreq, curfle) :=
        knownSize F fromreq (lookUp dirhash (lastName curfle.file) curfle)
      if ok then
        let (ok, files, fromreq') := setupLoop toreq dirhash fromreq rest
        (ok, setPaths fromreq toreq curfle :: files, fromreq')
      else (false, curfle :: rest, fromreq)

structure WalkTransfer (σ τ : Type) where
  fromreq : WalkRequest σ
  toreq : Option (WalkRequest τ)
  files : List WalkFile
  numfiles : ℤ
  numdirs : ℤ

/-- What _setup_current_directory_transfer leaves; ok says that it does not return NULL. -/
structure Setup (σ τ : Type) where
  ok : Bool
  ret : ℤ
  files : List WalkFile
  fromreq : WalkRequest σ
  toreq : Option (WalkRequest τ)

def setupCurrentDirectoryTransfer (t : WalkTransfer σ τ) : Setup σ τ :=
  let (ret, dirhash, toreq) := otherSide T true t.toreq
  if ret = GftpError.fatal.code then ⟨false, ret, t.files, t.fromreq, toreq⟩
  else
    let (ok, files, fromreq) := setupLoop F toreq dirhash t.fromreq t.files
    ⟨ok, if ok then ret else GftpError.fatal.code, files, fromreq, toreq⟩

/-- The walk before its loop, with the requests that the first step has left. -/
def startWalk (t : WalkTransfer σ τ) (s : Setup σ τ) : Walk σ τ where
  fromreq := s.fromreq
  toreq := s.toreq
  oldfromdir := none
  oldtodir := none
  deviceHash := emptyHash
  numfiles := t.numfiles
  numdirs := t.numdirs

def firstNodes (files : List WalkFile) : FileNodes :=
  FileNodes.alloc ⟨⟨fun _ => none, fun _ => none⟩, fun _ => ⟨[], none, 0, 0, 0, 0, 0, false⟩, 0⟩ files

def loopStart (t : WalkTransfer σ τ) (s : Setup σ τ) : LoopState σ τ where
  walk := startWalk t s
  nodes := firstNodes s.files
  templist := some 0
  lastlist := s.files.length - 1

/-- The transfer behind the walk; files is the head of the list. -/
structure Walked (σ τ : Type) where
  ret : ℤ
  walk : Walk σ τ
  nodes : FileNodes
  files : Option ℕ

/-- _cleanup_get_all_subdirs; update says that there is an update_func. -/
def cleanupGetAllSubdirs (update : Bool) (w : Walk σ τ) : Walk σ τ :=
  if update then { w with numfiles := -1, numdirs := -1 } else w

def restoreFrom (w : Walk σ τ) : ℤ × Walk σ τ :=
  match w.oldfromdir with
  | none => (0, w)
  | some dir =>
      let (ret, fromreq) := gftpSetDirectory F w.fromreq (some dir)
      (ret, { w with fromreq := fromreq })

def restoreTo (w : Walk σ τ) : ℤ × Walk σ τ :=
  match w.oldtodir, w.toreq with
  | some dir, some toreq =>
      let (ret, toreq) := gftpSetDirectory T toreq (some dir)
      (ret, { w with toreq := some toreq })
  | _, _ => (0, w)

/-- Only a fatal error of a change back is returned. -/
def restoreDirectories (w : Walk σ τ) : ℤ × Walk σ τ :=
  let (ret, w) := restoreFrom F w
  if ret = GftpError.fatal.code then (ret, w)
  else
    let (ret, w) := restoreTo T w
    (if ret = GftpError.fatal.code then ret else 0, w)

def leaveWalk (update : Bool) (left : Option ℤ) (e : LoopState σ τ) : Walked σ τ :=
  match left with
  | some ret => ⟨ret, cleanupGetAllSubdirs update e.walk, e.nodes, some 0⟩
  | none =>
      let (ret, w) := restoreDirectories F T e.walk
      ⟨ret, cleanupGetAllSubdirs update w, e.nodes, some 0⟩

def gftpGetAllSubdirs (update : Bool) (fuel : ℕ) (t : WalkTransfer σ τ) : CRun (Walked σ τ) :=
  let s := setupCurrentDirectoryTransfer F T t
  if t.files = [] then
    .ok ⟨GftpError.fatal.code, startWalk t ⟨false, 0, [], t.fromreq, t.toreq⟩, firstNodes [], none⟩
  else if s.ok then do
    let e ← subdirsLoop F T fuel (loopStart t s)
    return leaveWalk F T update e.1 e.2
  else .ok ⟨s.ret, startWalk t s, firstNodes s.files, some 0⟩

def walkVisits (fuel : ℕ) (t : WalkTransfer σ τ) : List (Visited σ τ) :=
  let s := setupCurrentDirectoryTransfer F T t
  if t.files ≠ [] ∧ s.ok then subdirsVisits F T fuel (loopStart t s) else []

end Gftp.Subdirs
