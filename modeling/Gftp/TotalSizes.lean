import Gftp.TransferRun
import Mathlib.Algebra.BigOperators.Group.Finset.Basic

/-!
The size of a whole transfer, from the time it is queued. total_bytes is counted when the
transfer is queued and again when it is shown; files are appended to it, skipped, and asked
for their sizes by the thread. The file being copied is not taken off when it is skipped,
and the file skipped in gftp_get_transfer_status has been marked to be skipped before.
-/

namespace Gftp.TotalSizes

open CopyLoop Protocol Runs TransferRun TransferState

inductive Phase
  | queued
  | shown
  | started
  deriving DecidableEq

structure SizeWorld where
  phase : Phase
  world : World

/-- What a file adds to total_bytes. -/
def counted (f : TransFile) : ℤ := if f.transferAction = .skip then 0 else f.size

def sumSizes (files : ℕ → TransFile) (n : ℕ) : ℤ := ∑ i ∈ Finset.range n, counted (files i)

/-- The loop that counts n files from a place on. -/
def addSizes (files : ℕ → TransFile) : ℕ → ℕ → ℤ → ℤ
  | _, 0, total => total
  | i, n + 1, total =>
      addSizes files (i + 1) n
        (if (files i).transferAction ≠ .skip then total + (files i).size else total)

/-- gftpui_common_add_file_transfer on a list that gets a transfer of its own. -/
def SizeWorld.queue (files : ℕ → TransFile) (numFiles : ℕ) (conn : Bool) : SizeWorld :=
  ⟨.queued, .start files numFiles (addSizes files 0 numFiles 0) conn⟩

/-- gftpui_common_add_file_transfer on a list that is appended. -/
def appendFiles (t : Transfer) (files : ℕ → TransFile) (n : ℕ) : Transfer :=
  let all := fun i => if i < t.numFiles then t.files i else files (i - t.numFiles)
  { t with
    files := all
    numFiles := t.numFiles + n
    totalBytes := addSizes all t.numFiles n t.totalBytes }

def showTransfer (t : Transfer) : Transfer :=
  { t with curfle := 0, updfle := 0, totalBytes := addSizes t.files 0 t.numFiles 0 }

inductive SizeAction
  | showTransfer
  | appendFiles (files : ℕ → TransFile) (n : ℕ)
  | startTransfer
  | trans (a : TransAction)

/-- Files are appended while curfle is a file. A file of a transfer that was not started is
not skipped. -/
inductive SizeStep : SizeWorld → SizeAction → SizeWorld → Prop
  | showTransfer {w : World} :
      SizeStep ⟨.queued, w⟩ .showTransfer ⟨.shown, { w with t := showTransfer w.t }⟩
  | appendFiles {s : SizeWorld} {files : ℕ → TransFile} {n : ℕ} (hphase : s.phase ≠ .queued)
      (hcur : s.world.cur < s.world.t.numFiles) :
      SizeStep s (.appendFiles files n) { s with world.t := appendFiles s.world.t files n }
  | startTransfer {w : World} :
      SizeStep ⟨.shown, w⟩ .startTransfer ⟨.started, { w with t := { w.t with curfle := 0 } }⟩
  | waits {s : SizeWorld} {i : ℕ} (hphase : s.phase ≠ .started) :
      SizeStep s (.trans (.skipFile i)) s
  | trans {w w' : World} {a : TransAction} (h : TransStep w a w') :
      SizeStep ⟨.started, w⟩ (.trans a) ⟨.started, w'⟩

/-- total_bytes is the sum of the sizes of the files that are not skipped. -/
def SizeLaw (s : SizeWorld) : Prop :=
  s.world.t.totalBytes = sumSizes s.world.t.files s.world.t.numFiles

/-- A file that is skipped while it is the current one or after it was transferred has no
size. The size of a file that is not skipped can be asked, that of one that is skipped is 0
when it is asked and when the file is resumed; and the file that gftp_get_transfer_status
passes over has no size. -/
def SizeFit (s : SizeWorld) : SizeAction → Prop
  | .trans (.skipFile i) =>
      s.phase = .started → (s.world.t.files i).transferAction = .unset →
        i = s.world.cur ∨ (s.world.t.files i).transferDone = true → (s.world.t.files i).size = 0
  | .trans (.begin a _) =>
      a.connect = .ok () → s.world.t.file.isDir = false →
        (s.world.t.file.size = 0 →
          match a.size with
          | .ok n => s.world.t.file.transferAction = .skip → n = 0
          | .error _ => s.world.t.file.transferAction = .skip) ∧
        (s.world.t.file.transferAction = .skip → s.world.t.file.retryTransfer = true →
          s.world.t.file.size = 0)
  | .trans (.retry retries (.ok _)) =>
      retries = 0 ∨ s.world.t.currentFileRetries ≤ retries →
        s.world.t.skipFile = true ∨ s.world.t.file.transferAction = .skip →
          s.world.t.file.size = 0
  | _ => True

/-- The law for a transfer. -/
def Exact (t : Transfer) : Prop := t.totalBytes = sumSizes t.files t.numFiles

section Sums

variable {files files' : ℕ → TransFile} {f : TransFile} {n : ℕ}

theorem sumSizes_succ (files : ℕ → TransFile) (n : ℕ) :
    sumSizes files (n + 1) = sumSizes files n + counted (files n) := Finset.sum_range_succ ..

theorem sumSizes_congr (h : ∀ i, i < n → counted (files' i) = counted (files i)) :
    sumSizes files' n = sumSizes files n :=
  Finset.sum_congr rfl fun i hi => h i (Finset.mem_range.mp hi)

theorem addSizes_sum (files : ℕ → TransFile) (i n : ℕ) (total : ℤ) :
    addSizes files i n total + sumSizes files i = total + sumSizes files (i + n) := by
  induction n generalizing i total with
  | zero => rfl
  | succ n ih =>
    have hcounted : (if (files i).transferAction ≠ .skip then total + (files i).size else total) =
        total + counted (files i) := by
      unfold counted
      split_ifs <;> simp_all
    have hrest := ih (i + 1) (total + counted (files i))
    rw [sumSizes_succ] at hrest
    rw [addSizes, hcounted, show i + (n + 1) = i + 1 + n by omega]
    omega

/-- One file of those counted is another. -/
theorem sumSizes_update {k : ℕ} (hk : k < n) :
    sumSizes (Function.update files k f) n = sumSizes files n + counted f - counted (files k) := by
  induction n with
  | zero => exact absurd hk (Nat.not_lt_zero k)
  | succ n ih =>
    rw [sumSizes_succ, sumSizes_succ]
    rcases Nat.lt_succ_iff_lt_or_eq.mp hk with hlow | rfl
    · rw [ih hlow, Function.update_of_ne (Nat.ne_of_gt hlow)]
      omega
    · rw [Function.update_self, sumSizes_congr fun i hi => by
        rw [Function.update_of_ne (Nat.ne_of_lt hi)]]
      omega

/-- A file that counts as it did before may be another. -/
theorem sumSizes_same {k : ℕ} (h : counted f = counted (files k)) :
    sumSizes (Function.update files k f) n = sumSizes files n := by
  refine sumSizes_congr fun i _ => ?_
  by_cases hi : i = k
  · subst hi
    rw [Function.update_self, h]
  · rw [Function.update_of_ne hi]

end Sums

section Attempts

variable {a : Answers} {t t' : Transfer} {out : Option GftpError} {attempt : Attempt}

theorem exact_setFile {f : TransFile} (h : Exact t) (hf : counted f = counted t.file) :
    Exact (t.setFile f) := by
  unfold Exact
  rw [show (t.setFile f).files = Function.update t.files t.curfle f from rfl, sumSizes_same hf]
  exact h

theorem askSize_exact (h : Exact t) (hmore : t.curfle < t.numFiles) (hask : askSize a t = (t', out))
    (hfit : t.file.size = 0 →
      match a.size with
      | .ok n => t.file.transferAction = .skip → n = 0
      | .error _ => t.file.transferAction = .skip) : Exact t' := by
  unfold askSize at hask
  split at hask
  · rename_i hzero
    have hfit := hfit hzero
    have hnone : counted t.file = 0 := by
      unfold counted
      split
      · rfl
      · exact hzero
    split at hask
    · rename_i e herror
      obtain ⟨rfl, -⟩ := Prod.mk.inj hask
      rw [herror] at hfit
      refine exact_setFile h (hnone.symm ▸ ?_)
      exact if_pos hfit
    · rename_i n hsize
      obtain ⟨rfl, -⟩ := Prod.mk.inj hask
      rw [hsize] at hfit
      have hcounted : counted { t.file with size := (n : ℤ) } = n := by
        unfold counted
        split
        · rename_i hskip
          rw [hfit hskip]
          rfl
        · rfl
      show t.totalBytes + n = sumSizes (Function.update t.files t.curfle _) t.numFiles
      rw [sumSizes_update hmore, hcounted, show counted (t.files t.curfle) = 0 from hnone, h]
      omega
  · obtain ⟨rfl, -⟩ := Prod.mk.inj hask
    exact h

/-- A file that is resumed counts as it did before, unless it was to be skipped. -/
theorem counted_resume {f : TransFile} {start : ℤ} (h : f.transferAction = .skip → f.size = 0) :
    counted { f with transferAction := .resume, startsize := start } = counted f := by
  unfold counted
  by_cases hskip : f.transferAction = .skip
  · rw [if_pos hskip]
    exact h hskip
  · rw [if_neg hskip]
    rfl

theorem askStart_exact (h : Exact t) (hask : askStart a t = (t', out))
    (hfit : t.file.transferAction = .skip → t.file.retryTransfer = true → t.file.size = 0) :
    Exact t' := by
  unfold askStart at hask
  split at hask
  · rename_i hretry
    split at hask <;>
    · obtain ⟨rfl, -⟩ := Prod.mk.inj hask
      exact exact_setFile h (counted_resume fun hskip => hfit hskip hretry)
  · obtain ⟨rfl, -⟩ := Prod.mk.inj hask
    exact h

/-- A file that is skipped has no size after it was asked for one. -/
theorem askSize_skipped (hask : askSize a t = (t', none)) (hskip : t'.file.transferAction = .skip)
    (hretry : t'.file.retryTransfer = true)
    (hfit : t.file.size = 0 →
      match a.size with
      | .ok n => t.file.transferAction = .skip → n = 0
      | .error _ => t.file.transferAction = .skip)
    (hresume : t.file.transferAction = .skip → t.file.retryTransfer = true → t.file.size = 0) :
    t'.file.size = 0 := by
  unfold askSize at hask
  split at hask
  · rename_i hzero
    split at hask
    · cases hask
    · rename_i n hsize
      obtain ⟨rfl, -⟩ := Prod.mk.inj hask
      have hfit := hfit hzero
      rw [hsize] at hfit
      have hfile : Transfer.file { t.setFile { t.file with size := (n : ℤ) } with
          totalBytes := t.totalBytes + n } = { t.file with size := (n : ℤ) } :=
        Function.update_self t.curfle _ t.files
      rw [hfile] at hskip ⊢
      exact congrArg _ (hfit hskip)
  · obtain ⟨rfl, -⟩ := Prod.mk.inj hask
    exact hresume hskip hretry

theorem transFileOrDir_exact (h : Exact t) (hmore : t.curfle < t.numFiles)
    (hbegan : transFileOrDir a t = (t', attempt))
    (hfit : a.connect = .ok () → t.file.isDir = false →
      (t.file.size = 0 →
        match a.size with
        | .ok n => t.file.transferAction = .skip → n = 0
        | .error _ => t.file.transferAction = .skip) ∧
      (t.file.transferAction = .skip → t.file.retryTransfer = true → t.file.size = 0)) :
    Exact t' := by
  unfold transFileOrDir at hbegan
  split at hbegan
  · obtain ⟨rfl, -⟩ := Prod.mk.inj hbegan
    exact h
  · rename_i hconnect
    split at hbegan
    · obtain ⟨rfl, -⟩ := Prod.mk.inj hbegan
      exact h
    · rename_i hfile
      obtain ⟨hsizeFit, hresumeFit⟩ := hfit hconnect (Bool.not_eq_true _ ▸ hfile)
      unfold startFile at hbegan
      split at hbegan
      · rename_i hsize
        obtain ⟨rfl, -⟩ := Prod.mk.inj hbegan
        exact askSize_exact h hmore hsize hsizeFit
      · rename_i t₁ hsize
        have hexact := askSize_exact h hmore hsize hsizeFit
        have hresumed : t₁.file.transferAction = .skip → t₁.file.retryTransfer = true →
            t₁.file.size = 0 :=
          fun hskip hretry => askSize_skipped hsize hskip hretry hsizeFit hresumeFit
        split at hbegan
        · rename_i hstart
          obtain ⟨rfl, -⟩ := Prod.mk.inj hbegan
          exact askStart_exact hexact hstart hresumed
        · rename_i t₂ hstart
          have hexact' := askStart_exact hexact hstart hresumed
          split at hbegan
          · obtain ⟨rfl, -⟩ := Prod.mk.inj hbegan
            exact hexact'
          · obtain ⟨rfl, -⟩ := Prod.mk.inj hbegan
            exact hexact'

theorem endAttempt_exact (h : Exact t) (ret : ℤ) (preserve : Except GftpError Unit) :
    Exact (endAttempt ret preserve t).1 := by
  unfold endAttempt
  split
  · exact h
  · exact exact_setFile h rfl

/-- The file passed over is taken off, and a file that is marked counts as it did before. -/
theorem reconnected_exact (h : Exact t)
    (hfit : t.skipFile = true ∨ t.file.transferAction = .skip → t.file.size = 0) :
    Exact (reconnected t) := by
  by_cases hskip : t.skipFile = true
  · have hnone := hfit (.inl hskip)
    have hpass : ∀ {p q : Transfer}, (if t.skipFile = true then p else q) = p := if_pos hskip
    unfold reconnected
    rw [hpass]
    show t.totalBytes - t.file.size = sumSizes t.files t.numFiles
    rw [hnone, h, Int.sub_zero]
  · have hmark : ∀ {p q : Transfer}, (if t.skipFile = true then p else q) = q := if_neg hskip
    unfold reconnected
    rw [hmark]
    exact exact_setFile (t := t) h (counted_resume fun haction => hfit (.inr haction))

theorem skipFileTransfer_exact {i : ℕ} (h : Exact t) (hi : i < t.numFiles)
    (hfit : (t.files i).transferAction = .unset →
      i = t.curfle ∨ (t.files i).transferDone = true → (t.files i).size = 0) :
    Exact (skipFileTransfer i t) := by
  by_cases hunset : (t.files i).transferAction = .unset
  · have hsize : counted (t.files i) = (t.files i).size := by
      rw [counted, hunset]
      rfl
    have hsum : sumSizes (Function.update t.files i { t.files i with transferAction := .skip })
        t.numFiles = sumSizes t.files t.numFiles - (t.files i).size := by
      rw [sumSizes_update hi, hsize]
      exact congrArg (· - _) (Int.add_zero _)
    have hkept : (t.files i).size = 0 → t.totalBytes =
        sumSizes (Function.update t.files i { t.files i with transferAction := .skip }) t.numFiles := by
      intro hzero
      rw [hsum, hzero, Int.sub_zero]
      exact h
    rw [skipFileTransfer, if_pos hunset]
    by_cases hcur : i = t.curfle
    · simp only [if_pos hcur]
      exact hkept (hfit hunset (.inl hcur))
    · simp only [if_neg hcur, Function.update_self]
      by_cases hdone : (t.files i).transferDone = true
      · rw [if_pos hdone]
        exact hkept (hfit hunset (.inr hdone))
      · rw [if_neg hdone]
        show t.totalBytes - (t.files i).size = sumSizes _ t.numFiles
        rw [hsum, h]
  · rw [skipFileTransfer, if_neg hunset]
    exact h

theorem appendFiles_exact (h : Exact t) (files : ℕ → TransFile) (n : ℕ) :
    Exact (appendFiles t files n) := by
  have hold : sumSizes (appendFiles t files n).files t.numFiles = sumSizes t.files t.numFiles :=
    sumSizes_congr fun i hi => congrArg counted (if_pos hi)
  have hsum := addSizes_sum (appendFiles t files n).files t.numFiles n t.totalBytes
  rw [hold, ← h] at hsum
  show addSizes (appendFiles t files n).files t.numFiles n t.totalBytes =
    sumSizes (appendFiles t files n).files (t.numFiles + n)
  omega

theorem addSizes_all (files : ℕ → TransFile) (n : ℕ) :
    addSizes files 0 n 0 = sumSizes files n := by
  have hsum := addSizes_sum files 0 n 0
  rw [Nat.zero_add, Int.zero_add] at hsum
  exact (Int.add_zero _).symm.trans hsum

end Attempts

/-- The law, and the place of the thread that is about to ask for a size. -/
structure SizeInv (s : SizeWorld) : Prop where
  exact : Exact s.world.t
  waiting : s.phase ≠ .started → s.world.worker = .loop
  within : s.world.worker = .begun → s.world.cur < s.world.t.numFiles

namespace SizeInv

variable {s s' : SizeWorld} {w w' : World} {a : TransAction}

theorem of_started (hexact : Exact w.t) (hwithin : w.worker = .begun → w.cur < w.t.numFiles) :
    SizeInv ⟨.started, w⟩ := ⟨hexact, fun hphase => absurd rfl hphase, hwithin⟩

theorem begin {a : Answers} {preserve : Except GftpError Unit} (h : SizeInv ⟨.started, w⟩)
    (hw : w.worker = .begun) (hfit : SizeFit ⟨.started, w⟩ (.trans (.begin a preserve))) :
    SizeInv ⟨.started, w.begin a preserve⟩ := by
  rcases hattempt : transFileOrDir a w.t with ⟨t', attempt⟩
  have hexact : Exact t' := transFileOrDir_exact h.exact (h.within hw) hattempt hfit
  have hbegin : Exact (w.begin a preserve).t ∧ (w.begin a preserve).worker ≠ .begun := by
    rw [World.begin, hattempt]
    cases attempt with
    | refused ret => exact ⟨hexact, nofun⟩
    | ended ret => exact ⟨endAttempt_exact hexact ret preserve, nofun⟩
    | copying c => exact ⟨hexact, nofun⟩
  exact .of_started hbegin.1 fun hc => absurd hc hbegin.2

theorem block {c : CopyState} {ret : Except GftpError ℕ} {resets : Bool}
    {fromEnd toEnd preserve : Except GftpError Unit} (h : SizeInv ⟨.started, w⟩) :
    SizeInv ⟨.started, w.block c ret resets fromEnd toEnd preserve⟩ := by
  unfold World.block
  split
  · cases resets with
    | true => exact .of_started h.exact nofun
    | false => exact .of_started h.exact nofun
  · exact .of_started (endAttempt_exact h.exact _ _) nofun

theorem retry {ret retries : ℤ} {connect : Except GftpError Unit} (h : SizeInv ⟨.started, w⟩)
    (hfit : SizeFit ⟨.started, w⟩ (.trans (.retry retries connect))) :
    SizeInv ⟨.started, w.retry ret retries connect⟩ := by
  unfold World.retry
  split
  · rename_i htries
    cases connect with
    | ok u => exact .of_started (reconnected_exact h.exact (hfit htries)) nofun
    | error e =>
      simp only
      split <;> exact .of_started h.exact nofun
  · exact .of_started h.exact nofun

theorem skipFile {i : ℕ} (h : SizeInv ⟨.started, w⟩) (hi : i < w.t.numFiles)
    (hfit : SizeFit ⟨.started, w⟩ (.trans (.skipFile i))) :
    SizeInv ⟨.started, { w with t := skipFileTransfer i w.t }⟩ := by
  refine .of_started (skipFileTransfer_exact h.exact hi (hfit rfl)) fun hw => ?_
  have hold := h.within hw
  rcases skipFileTransfer_cases i w.t with hsame | ⟨-, cancel, skip, total, hsame⟩
  · rw [hsame]
    exact hold
  · rw [hsame]
    exact hold

theorem trans (hstep : TransStep w a w') (h : SizeInv ⟨.started, w⟩)
    (hfit : SizeFit ⟨.started, w⟩ (.trans a)) : SizeInv ⟨.started, w'⟩ := by
  cases hstep with
  | allDone hw hall => exact .of_started h.exact nofun
  | attempt hw hmore => exact .of_started h.exact fun _ => hmore
  | begin hw => exact h.begin hw hfit
  | block hw hgo hblock => exact h.block
  | stopped hw hstop => exact .of_started (endAttempt_exact h.exact _ _) nofun
  | judge hw =>
    refine .of_started h.exact fun hc => ?_
    simp only [World.judge] at hc
    split_ifs at hc
  | status hw =>
    unfold World.status
    split
    · exact .of_started h.exact nofun
    · split <;> exact .of_started h.exact nofun
  | retry hw => exact h.retry hfit
  | pass hw => exact .of_started (exact_setFile h.exact rfl) nofun
  | afterPass hw =>
    unfold World.afterPass
    split
    · split <;> exact .of_started h.exact nofun
    · exact .of_started h.exact nofun
  | cancelTransfer => exact .of_started h.exact h.within
  | skipFile hi => exact h.skipFile hi hfit
  | nextTransfer hnext => exact .of_started h.exact h.within

theorem step {action : SizeAction} (hstep : SizeStep s action s') (hfit : SizeFit s action)
    (h : SizeInv s) : SizeInv s' := by
  cases hstep with
  | showTransfer =>
    have hloop := h.waiting nofun
    refine ⟨addSizes_all .., fun _ => hloop, fun hw => ?_⟩
    exact absurd (hloop.symm.trans hw) nofun
  | appendFiles hphase hcur =>
    exact ⟨appendFiles_exact h.exact _ _, h.waiting,
      fun _ => Nat.lt_of_lt_of_le hcur (Nat.le_add_right ..)⟩
  | startTransfer =>
    have hloop := h.waiting nofun
    exact .of_started h.exact fun hw => absurd (hloop.symm.trans hw) nofun
  | waits hphase => exact h
  | trans hstep => exact h.trans hstep hfit

end SizeInv

section Runs

/-- In a run that fits, total_bytes is the sum of the sizes of the files not skipped. -/
theorem total_counted {files : ℕ → TransFile} {numFiles : ℕ} {conn : Bool} {s : SizeWorld}
    (hrun : Reaches SizeStep SizeFit (.queue files numFiles conn) s) : SizeLaw s := by
  have hinit : SizeInv (.queue files numFiles conn) :=
    ⟨addSizes_all files numFiles, fun _ => rfl, nofun⟩
  have hinv : SizeInv s := hrun.invariant SizeInv hinit (fun _ _ _ h hfit hstep => h.step hstep hfit)
  exact hinv.exact

def plainFile (size : ℤ) : TransFile where
  isDir := false
  size := size
  startsize := 0
  transferAction := .unset
  retryTransfer := false
  transferDone := false
  doneView := false
  doneEdit := false
  doneRm := false

def sevenBytes : Answers where
  connect := .ok ()
  makeDirectory := .ok ()
  size := .ok 7
  destSize := .ok 0
  transferFile := .ok 7
  source := [.ok [1, 2, 3, 4, 5, 6, 7]]
  puts := [.ok 7]

/-- A file is appended, the first one is asked for its size, and the second one is skipped. -/
theorem total_of_three : ∃ s,
    Reaches SizeStep SizeFit (.queue (fun i => plainFile (5 * i)) 2 true) s ∧
      s.world.t.totalBytes = 16 ∧ SizeLaw s := by
  have hrun : Reaches SizeStep SizeFit (.queue (fun i => plainFile (5 * i)) 2 true) _ :=
    (Reaches.refl _).tail (a := .showTransfer) trivial .showTransfer
      |>.tail (a := .appendFiles (fun _ => plainFile 9) 1) trivial
        (.appendFiles (by decide) (by decide))
      |>.tail (a := .startTransfer) trivial .startTransfer
      |>.tail (a := .trans .attempt) trivial (.trans (.attempt rfl (by decide)))
      |>.tail (a := .trans (.begin sevenBytes (.ok ())))
        (fun _ _ => And.intro (fun _ haction => nomatch haction) (fun haction => nomatch haction))
        (.trans (.begin rfl))
      |>.tail (a := .trans (.skipFile 1))
        (fun _ _ hplace => absurd hplace (by decide)) (.trans (.skipFile (by decide)))
  exact ⟨_, hrun, rfl, total_counted hrun⟩

/-- The only file is skipped while it is copied, and passed over: its size stays counted. -/
theorem skipped_file_counted :
    ¬ ∀ (files : ℕ → TransFile) (numFiles : ℕ) (conn : Bool) (s : SizeWorld),
      Reaches SizeStep (fun _ _ => True) (.queue files numFiles conn) s → SizeLaw s := by
  intro h
  have hrun : Reaches SizeStep (fun _ _ => True) (.queue (fun _ => plainFile 5) 1 true) _ :=
    (Reaches.refl _).tail (a := .showTransfer) trivial .showTransfer
      |>.tail (a := .startTransfer) trivial .startTransfer
      |>.tail (a := .trans .attempt) trivial (.trans (.attempt rfl (by decide)))
      |>.tail (a := .trans (.begin sevenBytes (.ok ()))) trivial (.trans (.begin rfl))
      |>.tail (a := .trans (.skipFile 0)) trivial (.trans (.skipFile (by decide)))
      |>.tail (a := .trans (.stopped (.ok ()) (.ok ()) (.ok ()))) trivial
        (.trans (.stopped rfl rfl))
      |>.tail (a := .trans .judge) trivial (.trans (.judge rfl))
      |>.tail (a := .trans .pass) trivial (.trans (.pass rfl))
  have hlaw : (5 : ℤ) = 0 := h _ _ _ _ hrun
  exact absurd hlaw (by decide)

end Runs

end Gftp.TotalSizes
