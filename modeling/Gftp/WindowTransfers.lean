import Gftp.Protocol

/-!
What the user selects in one window and sends to the other: transfer_window_files with the
functions its result of the recursive listing goes through. The listing returns 0 or an
error, gftpui_common_run_callback_function makes 1 and 0 of this, and the caller looks for a
negative result.
-/

namespace Gftp.WindowTransfers

open ByteStrings Protocol

variable {φ σ : Type}

/-- The fields of a gftp_request that say whether it is connected. -/
structure Request where
  datafd : ℤ
  cached : Bool
  alwaysConnected : Bool
  deriving DecidableEq

def Request.isConnected (r : Request) : Bool := 0 < r.datafd || r.cached || r.alwaysConnected

/-- gftp_copy_request makes a request that has no socket. -/
def gftpCopyRequest (r : Request) : Request := { r with datafd := -1, cached := false }

/-- gftp_swap_socks: the destination and the source behind it. -/
def gftpSwapSocks (dest source : Request) : Request × Request :=
  ({ dest with datafd := source.datafd, cached := false },
    if source.alwaysConnected then source else { source with datafd := -1, cached := true })

structure Transfer (φ : Type) where
  fromreq : Request
  toreq : Request
  files : List φ

/-- gftpui_callback_data; run is the function to be run on what it works with. -/
structure CallbackData (σ : Type) where
  run : σ → ℤ × σ
  retries : ℕ
  dontCheckConnection : Bool

/-- The loop of _gftpui_common_thread_callback; cancels are the values of cancel at its
successive tests. -/
def threadLoop (run : σ → ℤ × σ) (cancels : ℕ → Bool) : ℕ → ℕ → ℤ → σ → ℤ × σ
  | retries, test, success, s =>
      if cancels test then (success, s)
      else
        let (success, s) := run s
        if cancels (test + 1) ∨ success = GftpError.fatal.code ∨ success = 0 then (success, s)
        else
          match retries with
          | 0 => (success, s)
          | retries + 1 => threadLoop run cancels retries (test + 2) success s

def threadCallback (c : CallbackData σ) (cancels : ℕ → Bool) (s : σ) : ℤ × σ :=
  threadLoop c.run cancels c.retries 0 GftpError.retryable.code s

/-- How the function is run: in a thread, and what the user does to it. -/
structure Setting where
  useThreads : Bool
  cancels : ℕ → Bool
  connectionLost : Bool

/-- What the function returns, in a thread or not. -/
def callbackResult (e : Setting) (c : CallbackData σ) (s : σ) : ℤ × σ :=
  if e.useThreads then threadCallback c e.cancels s else c.run s

def gftpuiCommonRunCallbackFunction (e : Setting) (c : CallbackData σ) (s : σ) : ℤ × σ :=
  if !c.dontCheckConnection && e.connectionLost then (0, s)
  else
    let (ret, s) := callbackResult e c s
    (if ret = 0 then 1 else 0, s)

/-- The data that gftp_gtk_get_subdirs sets up; getdir is gftp_get_all_subdirs. -/
def getdirData (getdir : Transfer φ → ℤ × Transfer φ) : CallbackData (Transfer φ) where
  run := getdir
  retries := 0
  dontCheckConnection := true

def gftpGtkGetSubdirs (e : Setting) (getdir : Transfer φ → ℤ × Transfer φ) (t : Transfer φ) :
    ℤ × Transfer φ :=
  gftpuiCommonRunCallbackFunction e (getdirData getdir) t

/-- What the windows answer: check_status, ftp_connect for each, the files selected without
the entry for the parent directory. -/
structure Windows (φ : Type) where
  checkStatus : Bool
  ftpConnect : Request → Bool × Request
  selected : List φ

def checkReconnect (connect : Request → Bool × Request) (r : Request) : ℤ × Request :=
  if r.cached && r.datafd < 0 && !r.alwaysConnected then
    let (connected, r) := connect r
    (if connected then 0 else -1, r)
  else (0, r)

/-- The transfer that is listed, with the sockets of the windows. -/
def preparedTransfer (files : List φ) (fromreq toreq : Request) : Transfer φ where
  fromreq := (gftpSwapSocks (gftpCopyRequest fromreq) fromreq).1
  toreq := (gftpSwapSocks (gftpCopyRequest toreq) toreq).1
  files := files

/-- transfer_window_files up to the listing: the transfer that is to be listed. -/
def toBeListed (w : Windows φ) (fromreq toreq : Request) : Option (Transfer φ) :=
  if !w.checkStatus then none
  else if !fromreq.isConnected || !toreq.isConnected then none
  else
    let (fromRet, fromreq) := checkReconnect w.ftpConnect fromreq
    if fromRet < 0 then none
    else
      let (toRet, toreq) := checkReconnect w.ftpConnect toreq
      if toRet < 0 then none
      else if w.selected.isEmpty then none
      else some (preparedTransfer w.selected fromreq toreq)

/-- transfer_window_files behind the listing: the files that are queued. -/
def queueListed (ret : ℤ) (t : Transfer φ) : Option (List φ) :=
  if ret < 0 ∨ t.fromreq.isConnected = false ∨ t.toreq.isConnected = false then none
  else if t.files.isEmpty then none
  else some t.files

/-- The files that transfer_window_files gives to gftpui_common_add_file_transfer. -/
def transferWindowFiles (e : Setting) (w : Windows φ) (getdir : Transfer φ → ℤ × Transfer φ)
    (fromreq toreq : Request) : Option (List φ) :=
  match toBeListed w fromreq toreq with
  | none => none
  | some t =>
      let (ret, t) := gftpGtkGetSubdirs e getdir t
      queueListed ret t

section Results

variable {e : Setting} {c : CallbackData σ} {s : σ}

theorem callbackFunction_nonneg : 0 ≤ (gftpuiCommonRunCallbackFunction e c s).1 := by
  unfold gftpuiCommonRunCallbackFunction
  split
  · exact Int.le_refl 0
  · simp only
    split <;> decide

/-- Where the connection is not checked, what was run has left its state. -/
theorem callbackFunction_state (h : c.dontCheckConnection = true) :
    (gftpuiCommonRunCallbackFunction e c s).2 = (callbackResult e c s).2 := by
  simp [gftpuiCommonRunCallbackFunction, h]

theorem threadCallback_once (h : c.retries = 0) :
    threadCallback c e.cancels s =
      if e.cancels 0 then (GftpError.retryable.code, s) else c.run s := by
  unfold threadCallback threadLoop
  rw [h]
  split
  · rfl
  · simp only
    split <;> rfl

end Results

/-- The recursive listing was run for the selected files and succeeded. -/
def ListingSucceeded (e : Setting) (w : Windows φ) (getdir : Transfer φ → ℤ × Transfer φ)
    (fromreq toreq : Request) : Prop :=
  ∃ t, toBeListed w fromreq toreq = some t ∧
    (e.useThreads = true → e.cancels 0 = false) ∧ (getdir t).1 = 0

/-- What the listing leaves when it is run, or the transfer as it was when the user cancels it
before. -/
def leftTransfer (e : Setting) (getdir : Transfer φ → ℤ × Transfer φ) (t : Transfer φ) :
    Transfer φ :=
  if e.useThreads = true ∧ e.cancels 0 = true then t else (getdir t).2

/-- When the listing fails or is cancelled, it leaves one of the two requests without a
connection, or no files. -/
def FailureShows (e : Setting) (w : Windows φ) (getdir : Transfer φ → ℤ × Transfer φ)
    (fromreq toreq : Request) : Prop :=
  ∀ t, toBeListed w fromreq toreq = some t →
    e.useThreads = true ∧ e.cancels 0 = true ∨ (getdir t).1 ≠ 0 →
      (leftTransfer e getdir t).fromreq.isConnected = false ∨
        (leftTransfer e getdir t).toreq.isConnected = false ∨ (leftTransfer e getdir t).files = []

section Transfers

variable {e : Setting} {w : Windows φ} {getdir : Transfer φ → ℤ × Transfer φ}
  {fromreq toreq : Request} {t : Transfer φ} {ret : ℤ}

theorem callbackResult_getdir :
    callbackResult e (getdirData getdir) t =
      if e.useThreads = true ∧ e.cancels 0 = true then (GftpError.retryable.code, t) else getdir t := by
  unfold callbackResult
  split
  · rename_i hthreads
    rw [threadCallback_once rfl]
    simp [hthreads, getdirData]
  · rename_i hthreads
    simp [hthreads, getdirData]

theorem getSubdirs_left : (gftpGtkGetSubdirs e getdir t).2 = leftTransfer e getdir t := by
  have hstate := callbackFunction_state (e := e) (c := getdirData getdir) (s := t) rfl
  rw [callbackResult_getdir] at hstate
  refine hstate.trans ?_
  unfold leftTransfer
  split <;> rfl

theorem queueListed_some (h : 0 ≤ ret) :
    (∃ files, queueListed ret t = some files) ↔
      t.fromreq.isConnected = true ∧ t.toreq.isConnected = true ∧ t.files ≠ [] := by
  unfold queueListed
  constructor
  · rintro ⟨files, hqueued⟩
    split_ifs at hqueued with hbad hempty
    simp only [not_or, Bool.not_eq_false] at hbad
    exact ⟨hbad.2.1, hbad.2.2, fun hnil => hempty (by rw [hnil]; rfl)⟩
  · intro ⟨hfrom, hto, hfiles⟩
    refine ⟨t.files, ?_⟩
    rw [if_neg (by simp [hfrom, hto, Int.not_lt.mpr h]), if_neg (by simpa using hfiles)]

theorem transferWindowFiles_some (h : toBeListed w fromreq toreq = some t) :
    (∃ files, transferWindowFiles e w getdir fromreq toreq = some files) ↔
      (leftTransfer e getdir t).fromreq.isConnected = true ∧
        (leftTransfer e getdir t).toreq.isConnected = true ∧
          (leftTransfer e getdir t).files ≠ [] := by
  have hret := callbackFunction_nonneg (e := e) (c := getdirData getdir) (s := t)
  rw [← getSubdirs_left, ← queueListed_some hret]
  unfold transferWindowFiles
  rw [h]
  rfl

/-- Files are queued behind a listing that succeeded, if and only if the failure of a listing
shows in the connections it leaves. -/
theorem queued_after_listing_iff (e : Setting) (w : Windows φ)
    (getdir : Transfer φ → ℤ × Transfer φ) (fromreq toreq : Request) :
    ((∃ files, transferWindowFiles e w getdir fromreq toreq = some files) →
      ListingSucceeded e w getdir fromreq toreq) ↔ FailureShows e w getdir fromreq toreq := by
  constructor
  · intro hlaw t ht hfailed
    by_contra hshows
    simp only [not_or, Bool.not_eq_false] at hshows
    obtain ⟨t', ht', hcancels, hzero⟩ := hlaw ((transferWindowFiles_some ht).mpr hshows)
    obtain rfl := Option.some.inj (ht.symm.trans ht')
    rcases hfailed with ⟨hthreads, hcancelled⟩ | hne
    · exact absurd (hcancels hthreads) (by simp [hcancelled])
    · exact hne hzero
  · rintro hshows ⟨files, hqueued⟩
    cases ht : toBeListed w fromreq toreq with
    | none =>
      rw [transferWindowFiles, ht] at hqueued
      cases hqueued
    | some t =>
      obtain ⟨hfrom, hto, hfiles⟩ := (transferWindowFiles_some ht).mp ⟨files, hqueued⟩
      by_contra hnot
      have hfailed : e.useThreads = true ∧ e.cancels 0 = true ∨ (getdir t).1 ≠ 0 := by
        by_contra hgood
        simp only [not_or, not_and, Bool.not_eq_true, not_not] at hgood
        exact hnot ⟨t, ht, hgood⟩
      rcases hshows t ht hfailed with hlost | hlost | hnone
      · exact absurd hfrom (by simp [hlost])
      · exact absurd hto (by simp [hlost])
      · exact hfiles hnone

/-- The listing of a directory fails after two files have been found, on connections that stay
open. -/
theorem partial_list_queued :
    ¬ ∀ (e : Setting) (w : Windows ℕ) (getdir : Transfer ℕ → ℤ × Transfer ℕ)
      (fromreq toreq : Request),
      (∃ files, transferWindowFiles e w getdir fromreq toreq = some files) →
        ListingSucceeded e w getdir fromreq toreq := by
  intro h
  obtain ⟨t, -, -, hzero⟩ := h ⟨true, fun _ => false, false⟩ ⟨true, fun r => (true, r), [1]⟩
    (fun t => (GftpError.retryable.code, { t with files := t.files ++ [2, 3] }))
    ⟨5, false, false⟩ ⟨-1, false, true⟩ ⟨[1, 2, 3], rfl⟩
  have hcode : GftpError.retryable.code = 0 := hzero
  exact absurd hcode (by decide)

end Transfers

end Gftp.WindowTransfers
