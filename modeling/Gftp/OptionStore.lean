import Mathlib.Logic.Function.Basic
import Gftp.OptionValues

/-!
The options in memory. A record holds its value as a pointer with a flag that says whether
the value is its own; records of requests and bookmarks lie in an array that grows by
g_realloc, and a hash table holds pointers into that array. The allocator may return any
address that is not in use.
-/

namespace Gftp.OptionStore

open ByteStrings OptionTables OptionValues

/-- Why a call has no result: it uses memory that is not there, or it ends the program, or the
allocator does not return an address in use. -/
inductive Wrong
  | fault
  | exit
  | taken
  deriving DecidableEq

inductive Content
  | text (t : Bytes)
  | color (c : Color)
  deriving DecidableEq

/-- The value pointer of a record. Numbers are kept in the pointer. -/
inductive Value
  | null
  | word (n : Int64)
  | static (c : Content)
  | block (a : ℕ)
  deriving DecidableEq

/-- The blocks that were allocated for values. -/
abbrev Memory := ℕ → Option Content

/-- gftp_config_vars; dynmem is GFTP_CVARS_FLAGS_DYNMEM. -/
structure ConfigVar extends OptionVar where
  value : Value
  dynmem : Bool

structure Pointer where
  block : ℕ
  index : ℕ
  deriving DecidableEq

/-- local_options_vars and local_options_hash of a request or a bookmark, an empty table for
NULL. -/
structure Locals where
  block : ℕ
  vars : List ConfigVar
  hash : Bytes → Option Pointer

/-- The memory, gftp_global_options_htable and the options of each request and bookmark. -/
structure Options (ι : Type) where
  mem : Memory
  globals : Bytes → Option ConfigVar
  locals : ι → Locals

def contentOf (mem : Memory) : Value → Option Content
  | .static c => some c
  | .block a => mem a
  | _ => none

def Content.asText : Content → Option Setting
  | .text t => some (.text (some t))
  | .color _ => none

def Content.asColor : Content → Option Setting
  | .color c => some (.color c)
  | .text _ => none

def Value.asWord : Value → Option Setting
  | .word n => some (.word n)
  | _ => none

/-- What a record shows, none when its value can not be read. -/
def shown (mem : Memory) (cv : ConfigVar) : Option Setting :=
  match kindOf cv.otype with
  | .text =>
      if cv.value = .null then some (.text none) else (contentOf mem cv.value).bind Content.asText
  | .word => cv.value.asWord
  | .color => (contentOf mem cv.value).bind Content.asColor
  | .none => none

def freeValue (mem : Memory) (cv : ConfigVar) : Except Wrong Memory :=
  if cv.dynmem then
    match cv.value with
    | .null => return mem
    | .block a => if (mem a).isSome then return Function.update mem a none else .error .fault
    | _ => .error .fault
  else return mem

def allocate (mem : Memory) (a : ℕ) (c : Content) : Except Wrong Memory :=
  if (mem a).isSome then .error .taken else return Function.update mem a (some c)

/-- The copy functions, from a record with the given value to the record cv. -/
def copyFunction (mem : Memory) (a : ℕ) (value : Setting) (cv : ConfigVar) :
    Except Wrong (Memory × ConfigVar) :=
  match kindOf cv.otype, value with
  | .text, .text none => do
      return (← freeValue mem cv, { cv with value := .null })
  | .text, .text (some t) => do
      let mem ← freeValue mem cv
      return (← allocate mem a (.text t), { cv with value := .block a, dynmem := true })
  | .color, .color c => do
      let mem ← freeValue mem cv
      return (← allocate mem a (.color c), { cv with value := .block a, dynmem := true })
  | .word, .word n => return (mem, { cv with value := .word n })
  | _, _ => .error .fault

variable {ι : Type} [DecidableEq ι]

def Options.setLocals (s : Options ι) (o : ι) (l : Locals) : Options ι :=
  { s with locals := Function.update s.locals o l }

def gftpSetGlobalOption (F : Floats) (s : Options ι) (key : Bytes) (value : Setting) (a : ℕ) :
    Except Wrong (Options ι) :=
  match s.globals key with
  | none => .error .exit
  | some cv =>
      match shown s.mem cv with
      | none => .error .fault
      | some old => do
          if compareFunction F cv.otype value old then return s
          let (mem, cv) ← copyFunction s.mem a value cv
          return { s with mem, globals := Function.update s.globals key (some cv) }

/-- _gftp_set_option_value for the element of the array that the hash table has. -/
def setOptionValue (s : Options ι) (o : ι) (p : Pointer) (value : Setting) (a : ℕ) :
    Except Wrong (Options ι) :=
  let l := s.locals o
  if p.block ≠ l.block then .error .fault
  else
    match l.vars[p.index]? with
    | none => .error .fault
    | some cv => do
        let (mem, cv) ← copyFunction s.mem a value cv
        return { s with mem }.setLocals o { l with vars := l.vars.set p.index cv }

/-- The element behind the last one, which lies at the address b after g_realloc. -/
def appendVar (l : Locals) (cv : ConfigVar) (b : ℕ) : Locals where
  block := b
  vars := l.vars ++ [cv]
  hash := Function.update l.hash cv.key (some ⟨b, l.vars.length⟩)

/-- A copy of the global record is put into the array, and set to the value. -/
def addOption (s : Options ι) (o : ι) (cv : ConfigVar) (value : Setting) (a b : ℕ) :
    Except Wrong (Options ι) := do
  let (mem, cv) ← copyFunction s.mem a value cv
  return { s with mem }.setLocals o (appendVar (s.locals o) cv b)

def gftpSetRequestOption (s : Options ι) (request : ι) (key : Bytes) (value : Setting) (a b : ℕ) :
    Except Wrong (Options ι) :=
  match (s.locals request).hash key with
  | some p => setOptionValue s request p value a
  | none =>
      match s.globals key with
      | none => .error .exit
      | some cv => addOption s request cv value a b

def gftpSetBookmarkOption (F : Floats) (s : Options ι) (bm : ι) (key : Bytes) (value : Setting)
    (a b : ℕ) : Except Wrong (Options ι) :=
  match (s.locals bm).hash key with
  | some p => setOptionValue s bm p value a
  | none =>
      match s.globals key with
      | none => .error .exit
      | some cv =>
          match shown s.mem cv with
          | none => .error .fault
          | some old =>
              -- a value that is the same as the global one is not kept
              if compareFunction F cv.otype value old then return s
              else addOption s bm cv value a b

/-- The read functions, into a record without a value. A combo option gets an entry of its
list. -/
def readInto (mem : Memory) (a : ℕ) (value : Setting) (cv : ConfigVar) :
    Except Wrong (Memory × ConfigVar) :=
  match cv.otype, value with
  | .textcombo, .text none => return (mem, cv)
  | .textcombo, .text (some entry) => return (mem, { cv with value := .static (.text entry) })
  | _, _ => copyFunction mem a value cv

/-- A line of the bookmarks file with an option. -/
def readOptionLine (F : Floats) (s : Options ι) (newentry : ι) (key str : Bytes) (a b : ℕ) :
    Except Wrong (Options ι) :=
  match s.globals key with
  | none => return s
  | some cv =>
      match readFunction F cv.toOptionVar str with
      | .error _ => .error .fault
      | .ok value => do
          let (mem, cv) ← readInto s.mem a value { cv with value := .null, dynmem := false }
          return { s with mem }.setLocals newentry (appendVar (s.locals newentry) cv b)

/-- A call, with the address a that a new value gets and the address b to which the array is
moved. -/
inductive Call (ι : Type)
  | setGlobal (key : Bytes) (value : Setting) (a : ℕ)
  | setRequest (o : ι) (key : Bytes) (value : Setting) (a b : ℕ)
  | setBookmark (o : ι) (key : Bytes) (value : Setting) (a b : ℕ)
  | optionLine (o : ι) (key str : Bytes) (a b : ℕ)

def call (F : Floats) (s : Options ι) : Call ι → Except Wrong (Options ι)
  | .setGlobal key value a => gftpSetGlobalOption F s key value a
  | .setRequest o key value a b => gftpSetRequestOption s o key value a b
  | .setBookmark o key value a b => gftpSetBookmarkOption F s o key value a b
  | .optionLine o key str a b => readOptionLine F s o key str a b

/-- gftp_lookup_global_option and the same for a request or a bookmark. -/
def gftpLookupGlobalOption (s : Options ι) (key : Bytes) : Except Wrong Setting :=
  match s.globals key with
  | none => .error .exit
  | some cv =>
      match shown s.mem cv with
      | some value => return value
      | none => .error .fault

def gftpLookupRequestOption (s : Options ι) (request : ι) (key : Bytes) : Except Wrong Setting :=
  let l := s.locals request
  match l.hash key with
  | none => gftpLookupGlobalOption s key
  | some p =>
      if p.block ≠ l.block then .error .fault
      else
        match l.vars[p.index]?.bind (shown s.mem) with
        | some value => return value
        | none => .error .fault

end Gftp.OptionStore
