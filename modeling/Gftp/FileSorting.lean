import Gftp.DirectoryReads
import Gftp.ListOperations
import Gftp.PeerCheck
import Gftp.Protocol
import Mathlib.Data.Fin.VecNotation
import Mathlib.Data.List.Lex

/-!
gftp_sort_filelist. The loop takes the list apart, node by node, and puts each node in front
of the directories or of the other files; the first entry .. is kept for itself. The prev
pointers are wrong then. The sort sets those of all nodes but the first, the
concatenation those of the heads, and the last statement that of the head of all. The twelve
comparisons compare a text or a number, and each stands for an order of the files.
-/

namespace Gftp.FileSorting

open ByteStrings DirectoryReads LinkedLists ListOperations PeerCheck Protocol

/-- A file of which the name, the user and the group are not NULL. -/
structure ListedFile where
  fle : GftpFile
  named : fle.file.isSome ∧ fle.user.isSome ∧ fle.group.isSome

namespace ListedFile

def file (f : ListedFile) : Bytes := f.fle.file.get f.named.1

def user (f : ListedFile) : Bytes := f.fle.user.get f.named.2.1

def group (f : ListedFile) : Bytes := f.fle.group.get f.named.2.2

def size (f : ListedFile) : ℤ := f.fle.size

def datetime (f : ListedFile) : ℤ := f.fle.datetime

def stMode (f : ListedFile) : ℕ := f.fle.stMode

end ListedFile

section Comparisons

/-- strcasecmp, of whose result the sign is documented. -/
def strcasecmp : Bytes → Bytes → ℤ
  | [], [] => 0
  | [], _ :: _ => -1
  | _ :: _, [] => 1
  | a :: s, b :: t =>
      if foldCase a < foldCase b then -1
      else if foldCase a = foldCase b then strcasecmp s t
      else 1

def textAs (text : ListedFile → Bytes) (f1 f2 : ListedFile) : ℤ := strcasecmp (text f1) (text f2)

def textDs (text : ListedFile → Bytes) (f1 f2 : ListedFile) : ℤ :=
  strcasecmp (text f1) (text f2) * -1

variable {β : Type} [LinearOrder β]

def numberAs (number : ListedFile → β) (f1 f2 : ListedFile) : ℤ :=
  if number f1 < number f2 then -1 else if number f1 = number f2 then 0 else 1

def numberDs (number : ListedFile → β) (f1 f2 : ListedFile) : ℤ :=
  if number f1 < number f2 then 1 else if number f1 = number f2 then 0 else -1

def gftpFileSortFunctionAs := textAs ListedFile.file
def gftpFileSortFunctionDs := textDs ListedFile.file
def gftpUserSortFunctionAs := textAs ListedFile.user
def gftpUserSortFunctionDs := textDs ListedFile.user
def gftpGroupSortFunctionAs := textAs ListedFile.group
def gftpGroupSortFunctionDs := textDs ListedFile.group
def gftpAttribsSortFunctionAs := numberAs ListedFile.stMode
def gftpAttribsSortFunctionDs := numberDs ListedFile.stMode
def gftpSizeSortFunctionAs := numberAs ListedFile.size
def gftpSizeSortFunctionDs := numberDs ListedFile.size
def gftpDatetimeSortFunctionAs := numberAs ListedFile.datetime
def gftpDatetimeSortFunctionDs := numberDs ListedFile.datetime

end Comparisons

def gftpSortColFile : ℤ := 1
def gftpSortColSize : ℤ := 2
def gftpSortColUser : ℤ := 3
def gftpSortColGroup : ℤ := 4
def gftpSortColDatetime : ℤ := 5
def gftpSortColAttribs : ℤ := 6

/-- The function for a column, none when the list is not sorted. -/
def sortFunction (column : ℤ) (asds : Bool) : Option (ListedFile → ListedFile → ℤ) :=
  if column = gftpSortColFile then
    some (if asds then gftpFileSortFunctionAs else gftpFileSortFunctionDs)
  else if column = gftpSortColSize then
    some (if asds then gftpSizeSortFunctionAs else gftpSizeSortFunctionDs)
  else if column = gftpSortColUser then
    some (if asds then gftpUserSortFunctionAs else gftpUserSortFunctionDs)
  else if column = gftpSortColGroup then
    some (if asds then gftpGroupSortFunctionAs else gftpGroupSortFunctionDs)
  else if column = gftpSortColDatetime then
    some (if asds then gftpDatetimeSortFunctionAs else gftpDatetimeSortFunctionDs)
  else if column = gftpSortColAttribs then
    some (if asds then gftpAttribsSortFunctionAs else gftpAttribsSortFunctionDs)
  else none

/-- The pointers and the three lists of the loop. -/
structure Taken (α : Type) where
  links : Links α
  files : Option α
  dirs : Option α
  dotdot : Option α

section Sorting

variable {α : Type} [DecidableEq α]

/-- One pass of the loop. -/
def takeNode (data : α → ListedFile) (sortDirsFirst : Bool) (st : Taken α) (insitem : α) : Taken α :=
  let tempfle := data insitem
  let links := st.links.setNext insitem none
  if st.dotdot = none ∧ tempfle.file = ascii ".." then
    { st with links := links, dotdot := some insitem }
  else if sortDirsFirst && sIsdir tempfle.stMode then
    { st with links := links.setNext insitem st.dirs, dirs := some insitem }
  else { st with links := links.setNext insitem st.files, files := some insitem }

def takeApart (data : α → ListedFile) (sortDirsFirst : Bool) :
    ℕ → Option α → Taken α → CRun (Taken α)
  | _, none, st => .ok st
  | 0, some _, _ => .error .pending
  | fuel + 1, some tempitem, st =>
      takeApart data sortDirsFirst fuel (st.links.next tempitem)
        (takeNode data sortDirsFirst st tempitem)

def sortNonempty (glib : ListOps α) (k : Links α) (list : Option α) (sortfunc : α → α → ℤ) :
    Links α × Option α :=
  match list with
  | none => (k, none)
  | some _ => glib.sort k list sortfunc

def concatNonempty (glib : ListOps α) (k : Links α) (filelist list : Option α) :
    Links α × Option α :=
  match filelist with
  | none => (k, list)
  | some _ => glib.concat k filelist list

/-- The two sorts behind the loop. -/
def sortParts (glib : ListOps α) (st : Taken α) (sortfunc : α → α → ℤ) :
    Links α × Option α × Option α :=
  let (k, dirs) := sortNonempty glib st.links st.dirs sortfunc
  let (k, files) := sortNonempty glib k st.files sortfunc
  (k, dirs, files)

def joinParts (glib : ListOps α) (k : Links α) (dotdot dirs files : Option α) :
    CRun (Links α × Option α) :=
  let (k, filelist) := concatNonempty glib k dotdot dirs
  let (k, filelist) := concatNonempty glib k filelist files
  match filelist with
  | none => .error .fault
  | some head => .ok (k.setPrev head none, some head)

/-- gftp_sort_filelist. -/
def gftpSortFilelist (glib : ListOps α) (data : α → ListedFile) (sortDirsFirst : Bool) (fuel : ℕ)
    (k : Links α) (filelist : Option α) (column : ℤ) (asds : Bool) : CRun (Links α × Option α) := do
  match filelist, sortFunction column asds with
  | none, _ => return (k, none)
  | some _, none => return (k, filelist)
  | some _, some sortfunc =>
      let st ← takeApart data sortDirsFirst fuel filelist ⟨k, none, none, none⟩
      let (k, dirs, files) := sortParts glib st fun a b => sortfunc (data a) (data b)
      joinParts glib k st.dotdot dirs files

end Sorting

/-- The columns that a listing is sorted by. -/
inductive SortColumn
  | file
  | size
  | user
  | group
  | datetime
  | attribs

def SortColumn.number : SortColumn → ℤ
  | file => gftpSortColFile
  | size => gftpSortColSize
  | user => gftpSortColUser
  | group => gftpSortColGroup
  | datetime => gftpSortColDatetime
  | attribs => gftpSortColAttribs

/-- A text as it is compared, in lower case and by the values of its bytes. -/
def lowered (t : Bytes) : List ℕ := t.map fun c => (foldCase c).toNat

/-- The ascending order of a column; texts stand in the order of a dictionary. -/
def SortColumn.Le (c : SortColumn) (f1 f2 : ListedFile) : Prop :=
  match c with
  | file => lowered f1.file ≤ lowered f2.file
  | size => f1.size ≤ f2.size
  | user => lowered f1.user ≤ lowered f2.user
  | group => lowered f1.group ≤ lowered f2.group
  | datetime => f1.datetime ≤ f2.datetime
  | attribs => f1.stMode ≤ f2.stMode

/-- The order of a column in one direction. -/
def InOrder (c : SortColumn) (asds : Bool) (f1 f2 : ListedFile) : Prop :=
  if asds then c.Le f1 f2 else c.Le f2 f1

section Orders

theorem cons_le_cons_iff (a b : ℕ) (s t : List ℕ) : a :: s ≤ b :: t ↔ a < b ∨ a = b ∧ s ≤ t := by
  rw [← not_lt, ← not_lt]
  constructor
  · intro hn
    rcases lt_trichotomy a b with hlt | rfl | hgt
    · exact Or.inl hlt
    · exact Or.inr ⟨rfl, fun hlt => hn (List.Lex.cons hlt)⟩
    · exact absurd (List.Lex.rel hgt) hn
  · rintro (hlt | ⟨rfl, hn⟩) hbad
    · cases hbad with
      | rel h => omega
      | cons h => omega
    · cases hbad with
      | rel h => omega
      | cons h => exact hn h

theorem strcasecmp_swap (s t : Bytes) : strcasecmp t s = -strcasecmp s t := by
  induction s generalizing t with
  | nil => cases t <;> rfl
  | cons a s ih =>
    cases t with
    | nil => rfl
    | cons b t =>
      simp only [strcasecmp, UInt8.lt_iff_toNat_lt, ← UInt8.toNat_inj]
      rcases lt_trichotomy (foldCase a).toNat (foldCase b).toNat with hlt | heq | hgt
      · simp [hlt, hlt.ne', hlt.not_gt]
      · simp [heq, ih t]
      · simp [hgt, hgt.ne', hgt.not_gt]

theorem strcasecmp_le_zero (s t : Bytes) : strcasecmp s t ≤ 0 ↔ lowered s ≤ lowered t := by
  induction s generalizing t with
  | nil =>
    have hle : lowered [] ≤ lowered t := not_lt.mp (List.not_lt_nil (lowered t))
    cases t <;> simp [strcasecmp, hle]
  | cons a s ih =>
    cases t with
    | nil =>
      have hlt : lowered [] < lowered (a :: s) := List.Lex.nil
      simp [strcasecmp, hlt]
    | cons b t =>
      have hcons : lowered (a :: s) ≤ lowered (b :: t) ↔ (foldCase a).toNat < (foldCase b).toNat ∨
          (foldCase a).toNat = (foldCase b).toNat ∧ lowered s ≤ lowered t := cons_le_cons_iff ..
      rw [hcons, ← ih t]
      simp only [strcasecmp, UInt8.lt_iff_toNat_lt, ← UInt8.toNat_inj]
      split_ifs with hlt heq
      · simp [hlt]
      · simp [heq]
      · simp [hlt, heq]

theorem textAs_orders (text : ListedFile → Bytes) :
    Orders (textAs text) fun f1 f2 => lowered (text f1) ≤ lowered (text f2) where
  le_zero f1 f2 := strcasecmp_le_zero (text f1) (text f2)
  zero_le f1 f2 := by
    rw [← strcasecmp_le_zero, strcasecmp_swap, textAs]
    omega
  trans _ _ _ := le_trans

theorem numberAs_orders {β : Type} [LinearOrder β] (number : ListedFile → β) :
    Orders (numberAs number) fun f1 f2 => number f1 ≤ number f2 where
  le_zero f1 f2 := by
    unfold numberAs
    rcases lt_trichotomy (number f1) (number f2) with hlt | heq | hgt
    · simp [hlt, hlt.le]
    · simp [heq]
    · simp [hgt, hgt.ne', hgt.not_gt]
  zero_le f1 f2 := by
    unfold numberAs
    rcases lt_trichotomy (number f1) (number f2) with hlt | heq | hgt
    · simp [hlt]
    · simp [heq]
    · simp [hgt.le, hgt.ne', hgt.not_gt]
  trans _ _ _ := le_trans

theorem numberDs_eq {β : Type} [LinearOrder β] (number : ListedFile → β) :
    numberDs number = fun f1 f2 => numberAs number f1 f2 * -1 := by
  funext f1 f2
  unfold numberDs numberAs
  split_ifs <;> rfl

theorem textDs_orders (text : ListedFile → Bytes) :
    Orders (textDs text) fun f1 f2 => lowered (text f2) ≤ lowered (text f1) :=
  (textAs_orders text).neg

theorem numberDs_orders {β : Type} [LinearOrder β] (number : ListedFile → β) :
    Orders (numberDs number) fun f1 f2 => number f2 ≤ number f1 := by
  rw [numberDs_eq]
  exact (numberAs_orders number).neg

/-- The function of a column puts the files in its order. -/
theorem sortFunction_orders (c : SortColumn) (asds : Bool) :
    ∃ sortfunc, sortFunction c.number asds = some sortfunc ∧ Orders sortfunc (InOrder c asds) := by
  cases asds with
  | true =>
    cases c with
    | file => exact ⟨_, rfl, textAs_orders ListedFile.file⟩
    | size => exact ⟨_, rfl, numberAs_orders ListedFile.size⟩
    | user => exact ⟨_, rfl, textAs_orders ListedFile.user⟩
    | group => exact ⟨_, rfl, textAs_orders ListedFile.group⟩
    | datetime => exact ⟨_, rfl, numberAs_orders ListedFile.datetime⟩
    | attribs => exact ⟨_, rfl, numberAs_orders ListedFile.stMode⟩
  | false =>
    cases c with
    | file => exact ⟨_, rfl, textDs_orders ListedFile.file⟩
    | size => exact ⟨_, rfl, numberDs_orders ListedFile.size⟩
    | user => exact ⟨_, rfl, textDs_orders ListedFile.user⟩
    | group => exact ⟨_, rfl, textDs_orders ListedFile.group⟩
    | datetime => exact ⟨_, rfl, numberDs_orders ListedFile.datetime⟩
    | attribs => exact ⟨_, rfl, numberDs_orders ListedFile.stMode⟩

end Orders

section Loop

variable {α : Type} {data : α → ListedFile} {sortDirsFirst : Bool}

def isDotdot (f : ListedFile) : Bool := f.file = ascii ".."

/-- The list that a file is put in when it is not kept for itself. -/
def goesFirst (sortDirsFirst : Bool) (f : ListedFile) : Bool := sortDirsFirst && sIsdir f.stMode

/-- The nodes that the loop has seen, taken apart into the three lists. -/
structure Parts (data : α → ListedFile) (sortDirsFirst : Bool) (k : Links α) (seen : List α)
    (st : Taken α) (dirs files : List α) : Prop where
  dotdot : st.dotdot = seen.find? fun x => isDotdot (data x)
  dotdot_end : ∀ x, st.dotdot = some x → st.links.next x = none
  dirs_head : st.dirs = dirs.head?
  dirs_chained : Chained st.links dirs
  files_head : st.files = files.head?
  files_chained : Chained st.links files
  perm : (st.dotdot.toList ++ (dirs ++ files)).Perm seen
  first : ∀ x ∈ dirs, goesFirst sortDirsFirst (data x) = true
  last : ∀ x ∈ files, goesFirst sortDirsFirst (data x) = false
  unseen : ∀ z ∉ seen, st.links.next z = k.next z

theorem parts_nil (k : Links α) : Parts data sortDirsFirst k [] ⟨k, none, none, none⟩ [] [] where
  dotdot := rfl
  dotdot_end := by simp
  dirs_head := rfl
  dirs_chained := trivial
  files_head := rfl
  files_chained := trivial
  perm := List.Perm.refl []
  first := by simp
  last := by simp
  unseen _ _ := rfl

variable {k : Links α} {seen dirs files : List α} {st : Taken α} {x : α}

theorem find_kept (h : st.dotdot = seen.find? fun x => isDotdot (data x))
    (hno : ¬ (st.dotdot = none ∧ isDotdot (data x) = true)) :
    st.dotdot = (seen ++ [x]).find? fun x => isDotdot (data x) := by
  rw [List.find?_append, ← h]
  cases hdotdot : st.dotdot with
  | some d => rfl
  | none =>
    have hname : ¬ isDotdot (data x) = true := fun hname => hno ⟨hdotdot, hname⟩
    simp [hname]

variable [DecidableEq α]

/-- What one pass does with a node. -/
theorem takeNode_cases (data : α → ListedFile) (sortDirsFirst : Bool) (st : Taken α) (x : α) :
    ((st.dotdot = none ∧ isDotdot (data x) = true) ∧ takeNode data sortDirsFirst st x =
      ⟨st.links.setNext x none, st.files, st.dirs, some x⟩) ∨
    (¬ (st.dotdot = none ∧ isDotdot (data x) = true) ∧ goesFirst sortDirsFirst (data x) = true ∧
      takeNode data sortDirsFirst st x =
        ⟨(st.links.setNext x none).setNext x st.dirs, st.files, some x, st.dotdot⟩) ∨
    (¬ (st.dotdot = none ∧ isDotdot (data x) = true) ∧ goesFirst sortDirsFirst (data x) = false ∧
      takeNode data sortDirsFirst st x =
        ⟨(st.links.setNext x none).setNext x st.files, some x, st.dirs, st.dotdot⟩) := by
  have hname : isDotdot (data x) = true ↔ (data x).file = ascii ".." := decide_eq_true_iff
  rw [takeNode, hname]
  by_cases hdotdot : st.dotdot = none ∧ (data x).file = ascii ".."
  · exact Or.inl ⟨hdotdot, if_pos hdotdot⟩
  · refine Or.inr ?_
    rw [if_neg hdotdot]
    cases hfirst : goesFirst sortDirsFirst (data x) with
    | true => exact Or.inl ⟨hdotdot, rfl, if_pos hfirst⟩
    | false => exact Or.inr ⟨hdotdot, rfl, if_neg (ne_true_of_eq_false hfirst)⟩

theorem takeNode_next (data : α → ListedFile) (sortDirsFirst : Bool) (st : Taken α) {x z : α} (h : z ≠ x) :
    (takeNode data sortDirsFirst st x).links.next z = st.links.next z := by
  rcases takeNode_cases data sortDirsFirst st x with ⟨-, heq⟩ | ⟨-, -, heq⟩ | ⟨-, -, heq⟩
  · rw [heq]
    exact Links.setNext_next_ne h
  · rw [heq]
    exact (Links.setNext_next_ne h).trans (Links.setNext_next_ne h)
  · rw [heq]
    exact (Links.setNext_next_ne h).trans (Links.setNext_next_ne h)

/-- One pass puts one node to its list. -/
theorem Parts.step (h : Parts data sortDirsFirst k seen st dirs files) (hx : x ∉ seen) :
    ∃ dirs' files', Parts data sortDirsFirst k (seen ++ [x]) (takeNode data sortDirsFirst st x)
      dirs' files' := by
  have hnext : ∀ z ∈ st.dotdot.toList ++ (dirs ++ files),
      (takeNode data sortDirsFirst st x).links.next z = st.links.next z := fun z hz =>
    takeNode_next data sortDirsFirst st fun heq => hx (heq ▸ h.perm.mem_iff.mp hz)
  have hdirs : Chained (takeNode data sortDirsFirst st x).links dirs :=
    h.dirs_chained.congr fun z hz => hnext z (by simp [hz])
  have hfiles : Chained (takeNode data sortDirsFirst st x).links files :=
    h.files_chained.congr fun z hz => hnext z (by simp [hz])
  have hend : ∀ z, st.dotdot = some z → (takeNode data sortDirsFirst st x).links.next z = none :=
    fun z hz => (hnext z (by simp [hz])).trans (h.dotdot_end z hz)
  have hunseen : ∀ z ∉ seen ++ [x], (takeNode data sortDirsFirst st x).links.next z = k.next z := by
    intro z hz
    rw [List.mem_append, List.mem_singleton, not_or] at hz
    exact (takeNode_next data sortDirsFirst st hz.2).trans (h.unseen z hz.1)
  have hperm : (x :: (st.dotdot.toList ++ (dirs ++ files))).Perm (seen ++ [x]) :=
    (h.perm.cons x).trans (List.perm_append_singleton x seen).symm
  rcases takeNode_cases data sortDirsFirst st x with ⟨hdotdot, heq⟩ | ⟨hno, hkind, heq⟩ |
    ⟨hno, hkind, heq⟩
  · rw [heq] at hdirs hfiles hunseen ⊢
    refine ⟨dirs, files, ⟨?_, ?_, h.dirs_head, hdirs, h.files_head, hfiles, ?_, h.first, h.last, hunseen⟩⟩
    · rw [List.find?_append, ← h.dotdot, hdotdot.1]
      simp [hdotdot.2]
    · intro z hz
      obtain rfl := Option.some.inj hz
      exact Links.setNext_next_self
    · rw [hdotdot.1] at hperm
      exact hperm
  · rw [heq] at hdirs hfiles hend hunseen ⊢
    refine ⟨x :: dirs, files, ⟨find_kept h.dotdot hno, hend, rfl, ⟨?_, hdirs⟩, h.files_head, hfiles,
      List.perm_middle.trans hperm, ?_, h.last, hunseen⟩⟩
    · exact Links.setNext_next_self.trans h.dirs_head
    · exact List.forall_mem_cons.mpr ⟨hkind, h.first⟩
  · rw [heq] at hdirs hfiles hend hunseen ⊢
    refine ⟨dirs, x :: files, ⟨find_kept h.dotdot hno, hend, h.dirs_head, hdirs, rfl, ⟨?_, hfiles⟩,
      ?_, h.first, ?_, hunseen⟩⟩
    · exact Links.setNext_next_self.trans h.files_head
    · rw [← List.append_assoc] at hperm ⊢
      exact List.perm_middle.trans hperm
    · exact List.forall_mem_cons.mpr ⟨hkind, h.last⟩

/-- The loop takes the whole list apart. -/
theorem Parts.run {rest : List α} (h : Parts data sortDirsFirst k seen st dirs files)
    (hrest : Chained k rest) (hnodup : (seen ++ rest).Nodup) {fuel : ℕ} (hfuel : rest.length ≤ fuel) :
    ∃ st' dirs' files', takeApart data sortDirsFirst fuel rest.head? st = .ok st' ∧
      Parts data sortDirsFirst k (seen ++ rest) st' dirs' files' := by
  induction rest generalizing seen st dirs files fuel with
  | nil => exact ⟨st, dirs, files, by cases fuel <;> rfl, by rwa [List.append_nil]⟩
  | cons x rest ih =>
    obtain ⟨hnext, hrest⟩ := hrest
    have hx : x ∉ seen := fun hx => (List.nodup_append.mp hnodup).2.2 x hx x (List.mem_cons_self ..) rfl
    obtain ⟨dirs', files', hstep⟩ := h.step hx
    have hshow : seen ++ x :: rest = seen ++ [x] ++ rest := by
      rw [List.append_assoc, List.singleton_append]
    cases fuel with
    | zero => simp at hfuel
    | succ fuel =>
      obtain ⟨st', dirs'', files'', hrun, hparts⟩ :=
        ih hstep hrest (hshow ▸ hnodup) (Nat.le_of_succ_le_succ hfuel)
      refine ⟨st', dirs'', files'', ?_, hshow ▸ hparts⟩
      rw [List.head?_cons, takeApart, h.unseen x hx, hnext]
      exact hrun

end Loop

section Behind

variable {α : Type} {glib : ListOps α} {k : Links α} {xs ys : List α} {cmp : α → α → ℤ}

theorem sortNonempty_sorted (hglib : glib.Documented) (hcmp : Consistent cmp) (h : Chained k xs)
    (hnodup : xs.Nodup) :
    ∃ ys, (sortNonempty glib k xs.head? cmp).2 = ys.head? ∧
      Sorted cmp k (sortNonempty glib k xs.head? cmp).1 xs ys := by
  cases xs with
  | nil =>
    exact ⟨[], rfl, List.Perm.refl [], List.Pairwise.nil, ⟨none, trivial⟩, Keeps.refl k []⟩
  | cons x xs => exact hglib.sort_list hcmp h hnodup

theorem concatNonempty_joined (hglib : glib.Documented) {p q : Option α} (h : Linked k p xs none)
    (h' : Linked k q ys none) (hnodup : (xs ++ ys).Nodup) :
    (concatNonempty glib k xs.head? ys.head?).2 = (xs ++ ys).head? ∧
      Joined k (concatNonempty glib k xs.head? ys.head?).1 xs ys := by
  cases xs with
  | nil => exact ⟨rfl, ⟨q, h'⟩, Keeps.refl k _⟩
  | cons x xs => exact hglib.concat_lists h h' hnodup (List.cons_ne_nil x xs)

/-- The directories and the other files after the two sorts. -/
structure SortedParts (cmp : α → α → ℤ) (k : Links α) (first dirs files : List α)
    (parts : Links α × Option α × Option α) (dirs' files' : List α) : Prop where
  dirs_head : parts.2.1 = dirs'.head?
  files_head : parts.2.2 = files'.head?
  dirs_perm : dirs'.Perm dirs
  files_perm : files'.Perm files
  dirs_ordered : dirs'.Pairwise fun a b => cmp a b ≤ 0
  files_ordered : files'.Pairwise fun a b => cmp a b ≤ 0
  dirs_linked : ∃ p, Linked parts.1 p dirs' none
  files_linked : ∃ p, Linked parts.1 p files' none
  first_kept : ∀ x ∈ first, parts.1.next x = k.next x

theorem sortParts_sorted (hglib : glib.Documented) (hcmp : Consistent cmp) {st : Taken α}
    {first dirs files : List α} (hdirs : st.dirs = dirs.head?) (hfiles : st.files = files.head?)
    (hcdirs : Chained st.links dirs) (hcfiles : Chained st.links files)
    (hnodup : (first ++ (dirs ++ files)).Nodup) :
    ∃ dirs' files', SortedParts cmp st.links first dirs files (sortParts glib st cmp) dirs' files' := by
  obtain ⟨-, hrest, hfirst⟩ := List.nodup_append.mp hnodup
  obtain ⟨hndirs, hnfiles, hdisjoint⟩ := List.nodup_append.mp hrest
  obtain ⟨dirs', hdirs', hsdirs⟩ := sortNonempty_sorted hglib hcmp hcdirs hndirs
  have hkept := hcfiles.of_keeps hsdirs.kept fun x hx hxd => hdisjoint x hxd x hx rfl
  obtain ⟨files', hfiles', hsfiles⟩ := sortNonempty_sorted hglib hcmp hkept hnfiles
  obtain ⟨p, hldirs⟩ := hsdirs.linked
  have hldirs := hldirs.of_keeps hsfiles.kept fun x hx hxf =>
    hdisjoint x (hsdirs.perm.mem_iff.mp hx) x hxf rfl
  rw [sortParts, hdirs, hfiles]
  refine ⟨dirs', files', hdirs', hfiles', hsdirs.perm, hsfiles.perm, hsdirs.ordered, hsfiles.ordered,
    ⟨p, hldirs⟩, hsfiles.linked, fun x hx => ?_⟩
  have hxdirs : x ∉ dirs := fun hxd => hfirst x hx x (List.mem_append_left _ hxd) rfl
  have hxfiles : x ∉ files := fun hxf => hfirst x hx x (List.mem_append_right _ hxf) rfl
  exact (hsfiles.kept x hxfiles).1.trans (hsdirs.kept x hxdirs).1

variable [DecidableEq α]

theorem joinParts_linked (hglib : glib.Documented) {first dirs files : List α} {p q r : Option α}
    (hfirst : Linked k p first none) (hdirs : Linked k q dirs none) (hfiles : Linked k r files none)
    (hnodup : (first ++ (dirs ++ files)).Nodup) (hne : first ++ (dirs ++ files) ≠ []) :
    ∃ k', joinParts glib k first.head? dirs.head? files.head? =
        .ok (k', (first ++ (dirs ++ files)).head?) ∧
      Linked k' none (first ++ (dirs ++ files)) none := by
  rw [← List.append_assoc] at hnodup hne ⊢
  obtain ⟨hfront, -, hdisjoint⟩ := List.nodup_append.mp hnodup
  obtain ⟨hhead, hjoined⟩ := concatNonempty_joined hglib hfirst hdirs hfront
  have hfiles := hfiles.of_keeps hjoined.kept fun x hx hxf => hdisjoint x hxf x hx rfl
  obtain ⟨s, hlinked⟩ := hjoined.linked
  obtain ⟨hhead', hjoined'⟩ := concatNonempty_joined hglib hlinked hfiles hnodup
  obtain ⟨t, hlinked'⟩ := hjoined'.linked
  obtain ⟨x, rest, hcons⟩ := List.exists_cons_of_ne_nil hne
  rw [hcons] at hhead' hlinked' hnodup ⊢
  refine ⟨_, ?_, hlinked'.clear_prev hnodup⟩
  rw [joinParts]
  simp only [hhead, hhead', List.head?_cons]

end Behind

section Listing

variable {α : Type} {k : Links α} {nodes : List α}

/-- The first entry .. in front, then the directories when they come first, then the other
files, both in the order of the column. -/
def Arranged (data : α → ListedFile) (sortDirsFirst : Bool) (c : SortColumn) (asds : Bool)
    (nodes result : List α) : Prop :=
  ∃ dirs files, result = (nodes.find? fun x => isDotdot (data x)).toList ++ (dirs ++ files) ∧
    (∀ x ∈ dirs, sortDirsFirst = true ∧ sIsdir (data x).stMode = true) ∧
    (∀ x ∈ files, sortDirsFirst = true → sIsdir (data x).stMode = false) ∧
    dirs.Pairwise (fun a b => InOrder c asds (data a) (data b)) ∧
    files.Pairwise fun a b => InOrder c asds (data a) (data b)

variable [DecidableEq α]

/-- For a list that its next pointers lead through, whatever the prev pointers are. -/
theorem filelist_sorted {glib : ListOps α} (hglib : glib.Documented) (data : α → ListedFile)
    (sortDirsFirst : Bool) (hchain : Chained k nodes) (hnodup : nodes.Nodup) (c : SortColumn)
    (asds : Bool) {fuel : ℕ} (hfuel : nodes.length ≤ fuel) :
    ∃ k' result,
      gftpSortFilelist glib data sortDirsFirst fuel k nodes.head? c.number asds =
        .ok (k', result.head?) ∧
      Linked k' none result none ∧ result.Perm nodes ∧
      Arranged data sortDirsFirst c asds nodes result := by
  cases nodes with
  | nil =>
    exact ⟨k, [], rfl, trivial, List.Perm.refl [], [], [], rfl, by simp, by simp,
      List.Pairwise.nil, List.Pairwise.nil⟩
  | cons x xs =>
    obtain ⟨sortfunc, hfunction, horders⟩ := sortFunction_orders c asds
    have hcmp := horders.comap data
    have hnil : Parts data sortDirsFirst k [] ⟨k, none, none, none⟩ [] [] := parts_nil k
    obtain ⟨st, dirs, files, hrun, hparts⟩ := hnil.run hchain hnodup hfuel
    rw [List.nil_append] at hparts
    have hall : (st.dotdot.toList ++ (dirs ++ files)).Nodup := hparts.perm.nodup_iff.mpr hnodup
    obtain ⟨dirs', files', hsorted⟩ := sortParts_sorted hglib hcmp.consistent hparts.dirs_head
      hparts.files_head hparts.dirs_chained hparts.files_chained hall
    have hperm : (st.dotdot.toList ++ (dirs' ++ files')).Perm (x :: xs) :=
      ((hsorted.dirs_perm.append hsorted.files_perm).append_left _).trans hparts.perm
    have hdotdot : ∃ p, Linked (sortParts glib st fun a b => sortfunc (data a) (data b)).1 p
        st.dotdot.toList none := by
      cases hd : st.dotdot with
      | none => exact ⟨none, trivial⟩
      | some d =>
        have hend := (hsorted.first_kept d (by simp [hd])).trans (hparts.dotdot_end d hd)
        exact ⟨_, rfl, hend, trivial⟩
    obtain ⟨p, hfirst⟩ := hdotdot
    obtain ⟨q, hdirs⟩ := hsorted.dirs_linked
    obtain ⟨r, hfiles⟩ := hsorted.files_linked
    have hne : st.dotdot.toList ++ (dirs' ++ files') ≠ [] := fun h => by
      have hlength := hperm.length_eq
      rw [h] at hlength
      cases hlength
    obtain ⟨k', hjoin, hlinked⟩ := joinParts_linked hglib hfirst hdirs hfiles
      (hperm.nodup_iff.mpr hnodup) hne
    rw [Option.head?_toList, ← hsorted.dirs_head, ← hsorted.files_head] at hjoin
    refine ⟨k', _, ?_, hlinked, hperm, dirs', files', by rw [hparts.dotdot], ?_, ?_, ?_, ?_⟩
    · rw [List.head?_cons] at hrun ⊢
      unfold gftpSortFilelist
      simp only [hfunction, hrun, CRun.ok_bind]
      exact hjoin
    · intro y hy
      simpa [goesFirst] using hparts.first y (hsorted.dirs_perm.mem_iff.mp hy)
    · intro y hy hflag
      simpa [goesFirst, hflag] using hparts.last y (hsorted.files_perm.mem_iff.mp hy)
    · exact hsorted.dirs_ordered.imp fun hle => (hcmp.le_zero _ _).mp hle
    · exact hsorted.files_ordered.imp fun hle => (hcmp.le_zero _ _).mp hle

end Listing

def listed (name : Bytes) (mode : ℕ) : ListedFile :=
  ⟨⟨some name, some [], some [], 0, 0, mode⟩, rfl, rfl, rfl⟩

/-- A file, the entry .. and a directory. -/
def smallListing : Fin 3 → ListedFile :=
  ![listed (ascii "README") 0o100644, listed (ascii "..") 0o040755, listed (ascii "src") 0o040755]

def smallLinks : Links (Fin 3) := (⟨fun _ => none, fun _ => none⟩ : Links (Fin 3)).linkAll none [0, 1, 2]

theorem small_nodup : ([0, 1, 2] : List (Fin 3)).Nodup := by decide

theorem small_filelist_sorted :
    ∃ k' result,
      gftpSortFilelist (relinking 3) smallListing true 3 smallLinks (some 0) SortColumn.file.number true =
        .ok (k', result.head?) ∧
      Linked k' none result none ∧ result.Perm [0, 1, 2] ∧
      Arranged smallListing true .file true [0, 1, 2] result :=
  filelist_sorted (relinking_documented 3) smallListing true (linked_linkAll small_nodup).chained
    small_nodup .file true le_rfl

end Gftp.FileSorting
