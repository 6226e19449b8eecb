import Gftp.ListWalks
import Mathlib.Data.Int.Notation

/-!
Viewers and editors that have come to their end. do_check_done_process looks for the child among
the running ones, takes it off the list and deals with its file; check_done_process does so for
every child that waitpid reports. The loop does not go on behind an entry of another child, so it
ends only at the head of the list.
-/

namespace Gftp.DoneProcesses

open ByteStrings Fuel ListWalks

inductive Window
  | window1
  | window2

/-- gftp_viewedit_data, with the time of the last change out of its struct stat. -/
structure VieweditData where
  filename : Bytes
  remoteFilename : Option Bytes
  stMtime : ℤ
  pid : Int32
  view : Bool
  rm : Bool
  dontupload : Bool
  fromwdata : Window

/-- What is done about a child: its status is logged, its file removed or uploaded, the window it
was started from refreshed, and its data freed. -/
inductive Action
  | status (pid : Int32) (exitStatus : Option ℕ)
  | unlink (filename : Bytes)
  | refresh (wdata : Window)
  | upload (filename : Bytes) (remoteFilename : Option Bytes) (fromwdata : Window)
  | free (pid : Int32)

/-- The time of the last change of a file that exists, and the answer to the question about an
upload. -/
structure Surroundings where
  stat : Bytes → Option ℤ
  answer : Option Bytes → Bool

/-- The status of waitpid: WIFEXITED and WEXITSTATUS. -/
def exitStatus (ret : UInt32) : Option ℕ :=
  if ret &&& 0x7f = 0 then some ((ret &&& 0xff00) >>> 8).toNat else none

def removeFile (veProc : VieweditData) : List Action :=
  if veProc.remoteFilename = none then [] else [.unlink veProc.filename]

def checkVieweditProcessStatus (veProc : VieweditData) (ret : UInt32) : Bool × List Action :=
  let log := Action.status veProc.pid (exitStatus ret)
  match exitStatus ret with
  | some procret =>
      if procret ≠ 0 then (false, log :: if veProc.view then removeFile veProc else [])
      else (true, [log])
  | none => (false, [log])

/-- _prompt_to_upload_edited_file: whether the data has been freed. -/
def promptToUploadEditedFile (env : Surroundings) (veProc : VieweditData) : Bool × List Action :=
  match env.stat veProc.filename with
  | none => (false, [])
  | some stMtime =>
      if stMtime = veProc.stMtime then (false, removeFile veProc)
      else if env.answer veProc.remoteFilename then
        (true, [.upload veProc.filename veProc.remoteFilename veProc.fromwdata, .free veProc.pid])
      else (true, removeFile veProc ++ [.free veProc.pid])

/-- What is done about the child once it has been taken off the list. -/
def finish (env : Surroundings) (veProc : VieweditData) (ret : UInt32) : List Action :=
  let status := checkVieweditProcessStatus veProc ret
  let refresh := if !veProc.view && veProc.dontupload then [Action.refresh veProc.fromwdata] else []
  let rest :=
    if status.1 && !veProc.view && !veProc.dontupload then
      let prompt := promptToUploadEditedFile env veProc
      if prompt.1 then prompt.2 else prompt.2 ++ [.free veProc.pid]
    else if veProc.view && veProc.rm then removeFile veProc ++ [.free veProc.pid]
    else [.free veProc.pid]
  status.2 ++ refresh ++ rest

/-- The loop of do_check_done_process: continue leaves curdata where it is. -/
def lookAt (pid : Int32) (veProc : VieweditData) : Turn Unit :=
  if veProc.pid ≠ pid then .again else .stop

/-- do_check_done_process: the list afterwards, and what has been done. -/
def doCheckDoneProcess (env : Surroundings) (pid : Int32) (ret : UInt32)
    (processes : List VieweditData) (fuel : ℕ) : CRun (List VieweditData × List Action) := do
  let (_, curdata) ← walk (lookAt pid) fuel processes
  match curdata with
  | [] => return (processes, [])
  | veProc :: _ =>
      return (processes.eraseIdx (processes.length - curdata.length), finish env veProc ret)

/-- check_done_process on the children that waitpid returns one after the other. -/
def checkDoneProcess (env : Surroundings) (fuel : ℕ) :
    List (Int32 × UInt32) → List VieweditData → CRun (List VieweditData × List Action)
  | [], processes => .ok (processes, [])
  | (pid, ret) :: exits, processes => do
      let (processes, done) ← doCheckDoneProcess env pid ret processes fuel
      let (processes, rest) ← checkDoneProcess env fuel exits processes
      return (processes, done ++ rest)

/-- A child is dealt with when it is in the list, and taken off. -/
def handled (env : Surroundings) (pid : Int32) (ret : UInt32) (processes : List VieweditData) :
    List VieweditData × List Action :=
  (processes.eraseP fun veProc => veProc.pid = pid,
    ((processes.find? fun veProc => veProc.pid = pid).map fun veProc => finish env veProc ret).getD [])

/-- Every child is dealt with, in the order of the exits. -/
def allHandled (env : Surroundings) :
    List (Int32 × UInt32) → List VieweditData → List VieweditData × List Action
  | [], processes => (processes, [])
  | (pid, ret) :: exits, processes =>
      let (processes, done) := handled env pid ret processes
      let (processes, rest) := allHandled env exits processes
      (processes, done ++ rest)

section Exits

variable {env : Surroundings} {pid : Int32} {ret : UInt32} {processes : List VieweditData}
  {veProc : VieweditData} {exits : List (Int32 × UInt32)}

theorem check_nil : Ends (doCheckDoneProcess env pid ret []) (handled env pid ret []) :=
  .round (fun _ => rfl) (.ok _)

theorem check_head (h : veProc.pid = pid) :
    Ends (doCheckDoneProcess env pid ret (veProc :: processes))
      (handled env pid ret (veProc :: processes)) := by
  have hout : outcome (lookAt pid) (veProc :: processes) = some ([], veProc :: processes) := by
    rw [outcome, lookAt, if_neg (not_not_intro h)]
  have hvalue : handled env pid ret (veProc :: processes) = (processes, finish env veProc ret) := by
    simp [handled, h]
  rw [hvalue]
  refine (Ends.bind_iff (walk_ends hout)).mpr ⟨0, fun _ _ => ?_⟩
  simp only [Nat.sub_self, List.eraseIdx_zero, List.tail_cons]
  rfl

theorem check_stuck (h : veProc.pid ≠ pid) (fuel : ℕ) :
    doCheckDoneProcess env pid ret (veProc :: processes) fuel = .error .pending := by
  have hout : outcome (lookAt pid) (veProc :: processes) = none := by
    rw [outcome, lookAt, if_pos h]
  rw [doCheckDoneProcess, walk_pending hout, CRun.error_bind]

/-- A call does what it is for exactly when it finds the child at the head, or no child at all. -/
theorem check_iff : Ends (doCheckDoneProcess env pid ret processes) (handled env pid ret processes) ↔
    ∀ veProc, processes.head? = some veProc → veProc.pid = pid := by
  cases processes with
  | nil => exact iff_of_true check_nil fun _ h => by cases h
  | cons veProc processes =>
    by_cases hpid : veProc.pid = pid
    · refine iff_of_true (check_head hpid) fun _ h => ?_
      rw [← Option.some.inj h]
      exact hpid
    · exact iff_of_false (fun h => h.not_pending (check_stuck hpid)) fun h => hpid (h veProc rfl)

theorem run_stuck (h : veProc.pid ≠ pid) (fuel : ℕ) :
    checkDoneProcess env fuel ((pid, ret) :: exits) (veProc :: processes) = .error .pending := by
  rw [checkDoneProcess, check_stuck h, CRun.error_bind]

theorem run_nil : Ends (fun fuel => checkDoneProcess env fuel exits []) (allHandled env exits []) := by
  induction exits with
  | nil => exact Ends.ok _
  | cons e exits ih =>
    refine (Ends.bind_iff check_nil).mpr ?_
    exact (Ends.bind_iff ih).mpr (Ends.ok _)

/-- The children are dealt with exactly when they exit in the order of the list. -/
theorem run_iff : Ends (fun fuel => checkDoneProcess env fuel exits processes)
      (allHandled env exits processes) ↔
    exits.map Prod.fst <+: processes.map VieweditData.pid ∨
      processes.map VieweditData.pid <+: exits.map Prod.fst := by
  induction exits generalizing processes with
  | nil => exact iff_of_true (Ends.ok _) (.inl List.nil_prefix)
  | cons e exits ih =>
    obtain ⟨pid, ret⟩ := e
    cases processes with
    | nil => exact iff_of_true run_nil (.inr List.nil_prefix)
    | cons veProc processes =>
      by_cases hpid : veProc.pid = pid
      · subst hpid
        have htail : handled env veProc.pid ret (veProc :: processes) =
            (processes, finish env veProc ret) := by
          simp [handled]
        have hcheck := @check_head env veProc.pid ret processes veProc rfl
        simp only [List.map_cons, List.prefix_cons_inj, ← ih]
        refine (Ends.bind_iff hcheck).trans ?_
        simp only [allHandled, htail]
        constructor
        · rintro ⟨least, hleast⟩
          refine ⟨least, fun fuel hfuel => ?_⟩
          obtain ⟨r, hr, heq⟩ := CRun.bind_eq_ok.mp (hleast fuel hfuel)
          obtain ⟨hprocesses, hdone⟩ := Prod.mk.inj (Except.ok.inj heq)
          exact hr.trans (congrArg Except.ok (Prod.ext hprocesses (List.append_cancel_left hdone)))
        · exact fun h => h.bind (Ends.ok _)
      · refine iff_of_false (fun h => h.not_pending (run_stuck hpid)) ?_
        simp only [List.map_cons, List.cons_prefix_cons]
        rintro (⟨heq, -⟩ | ⟨heq, -⟩)
        · exact hpid heq.symm
        · exact hpid heq

end Exits

/-- A call does what it is for exactly when the child is the first of the list, and a number of
children are all dealt with exactly when they exit in the order of the list. -/
theorem done_processes_iff (env : Surroundings) :
    (∀ pid ret processes,
      Ends (doCheckDoneProcess env pid ret processes) (handled env pid ret processes) ↔
        ∀ veProc, processes.head? = some veProc → veProc.pid = pid) ∧
    ∀ exits processes, Ends (fun fuel => checkDoneProcess env fuel exits processes)
        (allHandled env exits processes) ↔
      exits.map Prod.fst <+: processes.map VieweditData.pid ∨
        processes.map VieweditData.pid <+: exits.map Prod.fst :=
  ⟨fun _ _ _ => check_iff, fun _ _ => run_iff⟩

/-- Of two viewers the second one is closed. -/
theorem second_viewer_not_found :
    ¬ ∀ (env : Surroundings) (pid : Int32) (ret : UInt32) (processes : List VieweditData),
      Ends (doCheckDoneProcess env pid ret processes) (handled env pid ret processes) := by
  intro h
  have hsecond := h ⟨fun _ => none, fun _ => false⟩ 2 0
    [⟨ascii "a", some (ascii "a"), 0, 1, true, true, false, .window1⟩,
      ⟨ascii "b", some (ascii "b"), 0, 2, true, true, false, .window1⟩]
  exact hsecond.not_pending (check_stuck (by decide))

end Gftp.DoneProcesses
