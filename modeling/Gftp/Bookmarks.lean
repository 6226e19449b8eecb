import Gftp.LinkedTrees

/-!
The entries of the bookmarks tree, and the three loops that go through it without a stack:
gftp_bookmarks_destroy, which frees the nodes it leaves, the loop of
gftp_write_bookmarks_file, and build_bookmarks_hash_table.
-/

namespace Gftp.Bookmarks

open ByteStrings LinkedTrees

variable {α γ : Type}

/-- A local option, and what its write function leaves for the bookmarks file. -/
structure LocalOption where
  key : Bytes
  written : Bytes
  deriving DecidableEq

/-- The fields of gftp_bookmarks_var that are not pointers to other entries. -/
structure Bookmark where
  path : Bytes
  hostname : Option Bytes
  protocol : Option Bytes
  remoteDir : Option Bytes
  localDir : Option Bytes
  user : Option Bytes
  pass : Option Bytes
  acct : Option Bytes
  port : UInt32
  isfolder : Bool
  savePassword : Bool
  localOptions : List LocalOption
  deriving DecidableEq

/-- An entry as g_malloc0 gives it, with its path. -/
def Bookmark.fresh (path : Bytes) : Bookmark :=
  ⟨path, none, none, none, none, none, none, none, 0, false, false, []⟩

abbrev BookmarkHeap (α : Type) := Heap α Bookmark

/-- A hash table from paths to entries. -/
abbrev HashTable (α : Type) := Bytes → Option α

def HashTable.empty : HashTable α := fun _ => none

/-- g_hash_table_insert: a key that is there gets the new value. -/
def HashTable.insert (t : HashTable α) (key : Bytes) (a : α) : HashTable α :=
  Function.update t key (some a)

@[simp] theorem HashTable.insert_self (t : HashTable α) (key : Bytes) (a : α) :
    t.insert key a key = some a := Function.update_self ..

theorem HashTable.insert_ne (t : HashTable α) {key key' : Bytes} (a : α) (h : key' ≠ key) :
    t.insert key a key' = t key' := Function.update_of_ne h ..

section Destroy

variable [DecidableEq α]

/-- The entries, and those that gftp_free_bookmark was called for. -/
structure Freeing (α : Type) where
  heap : BookmarkHeap α
  freed : List α

/-- An entry is freed once. -/
def gftpFreeBookmark (s : Freeing α) (entry : α) : CRun (Freeing α) := do
  let _ ← look s.heap entry
  return { heap := Function.update s.heap entry none, freed := s.freed ++ [entry] }

/-- The inner loop of gftp_bookmarks_destroy. An entry is freed after its prev was read. -/
def destroyClimb : ℕ → Freeing α → α → CRun (Freeing α × α)
  | 0, _, _ => .error .pending
  | fuel + 1, s, tempentry => do
      let n ← look s.heap tempentry
      match n.next, n.prev with
      | none, some prev => destroyClimb fuel (← gftpFreeBookmark s tempentry) prev
      | _, _ => return (s, tempentry)

def destroyLoop : ℕ → Freeing α → Option α → CRun (Freeing α)
  | 0, _, _ => .error .pending
  | _ + 1, s, none => return s
  | fuel + 1, s, some tempentry => do
      let n ← look s.heap tempentry
      match n.children with
      | some child => destroyLoop fuel s (some child)
      | none =>
          let (s, delentry) ← destroyClimb fuel s tempentry
          let last ← look s.heap delentry
          destroyLoop fuel (← gftpFreeBookmark s delentry) last.next

/-- gftp_bookmarks_destroy; nothing is done for NULL. -/
def gftpBookmarksDestroy (fuel : ℕ) (heap : BookmarkHeap α) (bookmarks : Option α) :
    CRun (Freeing α) :=
  destroyLoop fuel { heap := heap, freed := [] } bookmarks

end Destroy

/-- The loop of gftp_write_bookmarks_file; emit is what is written for an entry without
children, and out what was written before. -/
def writeLoop (emit : α → Bookmark → List γ) (heap : BookmarkHeap α) :
    ℕ → List γ → Option α → CRun (List γ)
  | 0, _, _ => .error .pending
  | _ + 1, out, none => return out
  | fuel + 1, out, some tempentry => do
      let n ← look heap tempentry
      match n.children with
      | some child => writeLoop emit heap fuel out (some child)
      | none =>
          let out := out ++ emit tempentry n.data
          match n.next, n.prev with
          | some next, _ => writeLoop emit heap fuel out (some next)
          | none, none => .error .fault
          | none, some prev =>
              let last ← climb heap fuel prev
              writeLoop emit heap fuel out (← look heap last).next

/-- What gftp_write_bookmarks_file writes for the entries below the root. -/
def writeEntries (emit : α → Bookmark → List γ) (heap : BookmarkHeap α) (fuel : ℕ) (root : α) :
    CRun (List γ) := do
  writeLoop emit heap fuel [] (← look heap root).children

def hashLoop (heap : BookmarkHeap α) : ℕ → HashTable α → Option α → CRun (HashTable α)
  | 0, _, _ => .error .pending
  | _ + 1, htable, none => return htable
  | fuel + 1, htable, some tempentry => do
      let n ← look heap tempentry
      let htable := htable.insert n.data.path tempentry
      match n.children with
      | some child => hashLoop heap fuel htable (some child)
      | none =>
          let last ← climb heap fuel tempentry
          hashLoop heap fuel htable (← look heap last).next

def buildBookmarksHashTable (heap : BookmarkHeap α) (fuel : ℕ) (entry : Option α) :
    CRun (HashTable α) :=
  hashLoop heap fuel HashTable.empty entry

/-- The table of the entries given, each inserted once. -/
def tableOf (entries : List (α × Bookmark)) (t : HashTable α) : HashTable α :=
  entries.foldl (fun t e => t.insert e.2.path e.1) t

end Gftp.Bookmarks
