import Gftp.TransferRun

/-!
A local file copied to another one, over all attempts at it. The functions of a local directory
open the two files, the transfer thread copies the blocks, and a file whose attempt has failed is
resumed behind what the destination holds. What the destination holds when an attempt succeeds
depends on the first attempt that asked for the file: on whether it cut the destination before it
failed.
-/

namespace Gftp.RetriedCopies

open ByteStreams ByteStrings CopyLoop Protocol Runs TransferState

/-- What gftp_fd_open comes to: no file, one that cannot be marked to be closed on exec, or the
file. -/
inductive Opening
  | refused
  | unmarked
  | opened
  deriving DecidableEq

/-- What the system answers in one attempt: to gftp_connect, to stat for the two files, to the
calls that open the source and the destination, and to the reads and writes. A read that does
not fail gives one byte more than its number where there are as many. A write that fails may
have written some of its bytes. The count of gftp_calc_kbs is left open. -/
structure Turn where
  connect : Except GftpError Unit
  statsSource : Bool
  statsDest : Bool
  source : Opening
  seeksSource : Bool
  dest : Opening
  truncates : Bool
  seeksDest : Bool
  rounds : ℕ
  reads : List (Option ℕ)
  writes : List Bool
  spilled : ℕ
  counted : ℤ

/-- Whether an attempt that asks for the file comes to cut the destination. -/
def Turn.cuts (turn : Turn) : Bool :=
  turn.source = .opened && turn.seeksSource && turn.dest = .opened && turn.truncates

/-- ftruncate: a file that was shorter is filled with zeros. -/
def resize (l : Bytes) (n : ℕ) : Bytes := l.take n ++ List.replicate (n - l.length) 0

section Functions

variable (turn : Turn) (src : Bytes) (startsize : ℕ) (dest : Option Bytes)

/-- local_get_file: the size of the file, with the descriptor at startsize. -/
def localGetFile : Except GftpError ℕ :=
  if turn.source = .opened && turn.seeksSource then .ok src.length else .error .retryable

/-- local_put_file, with what the destination holds behind it. It is made when it is not there. -/
def localPutFile : Except GftpError Unit × Option Bytes :=
  match turn.dest with
  | .refused => (.error .retryable, dest)
  | .unmarked => (.error .retryable, some (dest.getD []))
  | .opened =>
      if turn.truncates then
        (if turn.seeksDest then .ok () else .error .retryable,
          some (resize (dest.getD []) startsize))
      else (.error .retryable, some (dest.getD []))

/-- gftp_transfer_file between two local files: the result is the size of the source. -/
def transferFile : Except GftpError ℕ × Option Bytes :=
  match localGetFile turn src with
  | .error e => (.error e, dest)
  | .ok size =>
      match localPutFile turn startsize dest with
      | (.error e, dest) => (.error e, dest)
      | (.ok _, dest) => (.ok size, dest)

/-- local_get_file_size. -/
def localGetFileSize (stats : Bool) (file : Option Bytes) : Except GftpError ℕ :=
  match file with
  | some l => if stats then .ok l.length else .error .retryable
  | none => .error .retryable

/-- What gftp_fd_read gives of the rest of a file. -/
def fileStream : List (Option ℕ) → Bytes → Stream GftpError
  | none :: reads, l => .error .retryable :: fileStream reads l
  | _, [] => []
  | [], b :: l => [.ok (b :: l)]
  | some n :: reads, b :: l => .ok ((b :: l).take (n + 1)) :: fileStream reads ((b :: l).drop (n + 1))

/-- gftp_fd_write writes all it is offered or fails. -/
def fdWrites (blksize : ℕ) (writes : List Bool) : List PutOutcome :=
  writes.map fun written => if written then .ok (blksize + 1) else .error .retryable

/-- What the functions of the two files return in an attempt that starts at startsize. -/
def answers (blksize : ℕ) : Answers where
  connect := turn.connect
  makeDirectory := .error .fatal
  size := localGetFileSize turn.statsSource (some src)
  destSize := localGetFileSize turn.statsDest dest
  transferFile := (transferFile turn src startsize dest).1
  source := fileStream turn.reads (src.drop startsize)
  puts := fdWrites blksize turn.writes

end Functions

/-- How the first attempt that asked for the file went: whether it cut the destination, and
where. -/
structure First where
  cut : Bool
  startsize : ℕ
  deriving DecidableEq

/-- What such an attempt leaves of the destination to be resumed. -/
def First.left (first : First) (old : Bytes) : Bytes :=
  if first.cut then resize old first.startsize else old

/-- The transfer of one file: its record, the destination, and the first attempt. -/
structure Copying where
  t : Transfer
  dest : Option Bytes
  first : Option First

/-- Where an attempt starts the file. -/
def Copying.startsize (k : Copying) : ℕ :=
  if k.t.file.retryTransfer then (k.dest.getD []).length else (startOffset k.t.file).toNat

/-- The file has been asked for. -/
def Copying.asked (k : Copying) (turn : Turn) (t : Transfer) (dest : Option Bytes) : Copying :=
  ⟨t, dest, some (k.first.getD ⟨turn.cuts, k.startsize⟩)⟩

/-- What an attempt has written: all that was accepted, and some of a block that failed. -/
def written (turn : Turn) (c : CopyState) : Bytes :=
  c.accepted ++ (c.delivered.drop c.accepted.length).take turn.spilled

/-- One attempt: _gftpui_common_trans_file_or_dir with what it does to the destination. A local
request stays connected, so that nothing is returned for its permissions and time. -/
def tryFile (src : Bytes) (blksize : ℕ) (turn : Turn) (k : Copying) : CRun (ℤ × Copying) :=
  let dest := (transferFile turn src k.startsize k.dest).2
  match transFileOrDir (answers turn src k.startsize k.dest blksize) k.t with
  | (t, .refused ret) => .ok (ret, { k with t := t })
  | (t, .ended ret) =>
      let attempt := endAttempt ret (.ok ()) t
      .ok (attempt.2, k.asked turn attempt.1 dest)
  | (t, .copying c) => do
      let r ← doTransferFile blksize (List.replicate turn.rounds false) c.source c.puts (.ok ())
        (.ok ())
      let attempt := endAttempt r.ret (.ok ()) { t with curtrans := turn.counted }
      return (attempt.2, k.asked turn attempt.1 (dest.map (· ++ written turn r.copy)))

/-- An attempt whose source and destination are the same file. It is read as it is once the
destination has been opened; what is written behind that does not matter, as nothing is left to
be read. -/
def copyOnItself (turn : Turn) (blksize startsize : ℕ) (file : Bytes) : CRun (ℤ × Bytes) :=
  match transferFile turn file startsize (some file) with
  | (.error e, kept) => .ok (e.code, kept.getD [])
  | (.ok _, cut) => do
      let file := cut.getD []
      let r ← doTransferFile blksize (List.replicate turn.rounds false)
        (fileStream turn.reads (file.drop startsize)) (fdWrites blksize turn.writes) (.ok ()) (.ok ())
      return (r.ret, file ++ written turn r.copy)

/-- An attempt that failed, and gftp_get_transfer_status behind it. -/
inductive TryStep (src : Bytes) (blksize : ℕ) : Copying → Turn → Copying → Prop
  | again {k k' : Copying} {turn : Turn} {ret : ℤ} (htry : tryFile src blksize turn k = .ok (ret, k'))
      (hneg : ret < 0) (hgo : ret ≠ GftpError.fatal.code) :
      TryStep src blksize k turn { k' with t := reconnected k'.t }

/-- A stream whose errors are those of a descriptor, and whose blocks hold bytes. -/
def Blocks (s : Stream GftpError) : Prop :=
  ∀ r ∈ s, r = .error .retryable ∨ ∃ d : Bytes, r = .ok d ∧ d ≠ []

section Streams

variable {s s' : Stream GftpError} {d : Bytes} {n : ℕ}

theorem fileStream_blocks (reads : List (Option ℕ)) (l : Bytes) : Blocks (fileStream reads l) := by
  induction reads generalizing l with
  | nil =>
    cases l with
    | nil => exact fun r hr => absurd hr List.not_mem_nil
    | cons b l => exact fun r hr => .inr ⟨b :: l, List.mem_singleton.mp hr, List.cons_ne_nil b l⟩
  | cons read reads ih =>
    cases read with
    | none =>
      intro r hr
      rcases List.mem_cons.mp hr with rfl | hr
      · exact .inl rfl
      · exact ih l r hr
    | some n =>
      cases l with
      | nil => exact fun r hr => absurd hr List.not_mem_nil
      | cons b l =>
        intro r hr
        rcases List.mem_cons.mp hr with rfl | hr
        · exact .inr ⟨_, rfl, by simp⟩
        · exact ih _ r hr

theorem contents_fileStream (reads : List (Option ℕ)) (l : Bytes) :
    contents (fileStream reads l) = l := by
  induction reads generalizing l with
  | nil => cases l <;> simp [fileStream, contents]
  | cons read reads ih =>
    cases read with
    | none => simp [fileStream, contents, ih]
    | some n => cases l <;> simp [fileStream, contents, ih]

/-- A read gives the front of what is left, and nothing only at the end. -/
theorem readSome_front (hn : 0 < n) (hs : Blocks s) (h : readSome n s = (.ok d, s')) :
    contents s = d ++ contents s' ∧ Blocks s' ∧ (d = [] → contents s' = []) := by
  cases s with
  | nil =>
    obtain ⟨hd, rfl⟩ := Prod.mk.inj h
    obtain rfl := Except.ok.inj hd
    exact ⟨rfl, hs, fun _ => rfl⟩
  | cons r rest =>
    have hrest : Blocks rest := fun r hr => hs r (List.mem_cons_of_mem _ hr)
    rcases hs r List.mem_cons_self with rfl | ⟨e, rfl, he⟩
    · simp [readSome] at h
    · by_cases hle : e.length ≤ n
      · obtain ⟨hd, rfl⟩ := Prod.mk.inj ((if_pos hle).symm.trans h)
        obtain rfl := Except.ok.inj hd
        exact ⟨rfl, hrest, fun hnil => absurd hnil he⟩
      · obtain ⟨hd, rfl⟩ := Prod.mk.inj ((if_neg hle).symm.trans h)
        obtain rfl := Except.ok.inj hd
        refine ⟨by simp [contents, ← List.append_assoc], ?_, fun hnil => ?_⟩
        · intro r hr
          rcases List.mem_cons.mp hr with rfl | hr
          · refine .inr ⟨_, rfl, fun hnil => ?_⟩
            have hlen := congrArg List.length hnil
            simp only [List.length_drop, List.length_nil] at hlen
            omega
          · exact hrest r hr
        · have hlen := congrArg List.length hnil
          simp only [List.length_take, List.length_nil] at hlen
          omega

theorem readSome_failed {e : GftpError} (hs : Blocks s) (h : readSome n s = (.error e, s')) :
    e = .retryable ∧ contents s' = contents s ∧ Blocks s' := by
  cases s with
  | nil => simp [readSome] at h
  | cons r rest =>
    rcases hs r List.mem_cons_self with rfl | ⟨d, rfl, -⟩
    · obtain ⟨he, rfl⟩ := Prod.mk.inj h
      exact ⟨(Except.error.inj he).symm, rfl, fun r hr => hs r (List.mem_cons_of_mem _ hr)⟩
    · simp only [readSome] at h
      split at h <;> simp at h

end Streams

/-- The state of a copy of some bytes: what was delivered is their front, what was accepted is
the front of that, and neither side has asked for no transfer. -/
structure Fed (l : Bytes) (c : CopyState) : Prop where
  blocks : Blocks c.source
  puts : ∀ e : GftpError, .error e ∈ c.puts → e = .retryable
  takes : .ok 0 ∉ c.puts
  delivered : c.delivered ++ contents c.source = l
  accepted : c.accepted <+: c.delivered
  sawEof : c.sawEof = true → contents c.source = []
  noTrans : c.noTrans = false

section Copies

variable {blksize : ℕ} {l : Bytes} {c c' : CopyState} {ret : Except GftpError ℕ}

theorem putRest_refused {numRead : ℕ} {rest : Bytes} {puts : List PutOutcome} {r : PutRun}
    {e : GftpError} (h : putRest numRead rest puts = .ok r) (he : r.ret = .error e) :
    .error e ∈ puts := by
  induction puts generalizing rest r with
  | nil =>
    cases rest with
    | nil =>
      obtain rfl := Except.ok.inj h
      simp at he
    | cons b rest => simp [putRest] at h
  | cons put puts ih =>
    cases rest with
    | nil =>
      obtain rfl := Except.ok.inj h
      simp at he
    | cons b rest =>
      cases put with
      | error e' =>
        obtain rfl := Except.ok.inj h
        exact List.mem_cons.mpr (.inl he.symm)
      | ok n =>
        unfold putRest at h
        dsimp only at h
        split at h
        · obtain rfl := Except.ok.inj h
          simp at he
        · obtain ⟨later, hlater, h⟩ := CRun.bind_eq_ok.mp h
          obtain rfl := Except.ok.inj h
          exact List.mem_cons_of_mem _ (ih hlater he)

/-- What a block keeps. The copy goes on only when all of it was accepted. -/
theorem doTransferBlock_fed (h : Fed l c) (hall : c.accepted = c.delivered)
    (hrun : doTransferBlock blksize c = .ok (ret, c')) :
    Fed l c' ∧ (moved ret = true → c'.accepted = c'.delivered) := by
  unfold doTransferBlock getNextFileChunk at hrun
  rcases Nat.eq_zero_or_pos blksize with rfl | hpos
  · obtain ⟨rfl, rfl⟩ := Prod.mk.inj (Except.ok.inj hrun)
    exact ⟨⟨h.blocks, h.puts, h.takes, h.delivered, h.accepted, h.sawEof, by simp [h.noTrans]⟩,
      (fun hmoved => absurd hmoved (by simp [moved]))⟩
  · rw [if_neg (by omega)] at hrun
    split at hrun
    · rename_i e source hread
      obtain ⟨rfl, hcontents, hblocks⟩ := readSome_failed h.blocks hread
      obtain ⟨rfl, rfl⟩ := Prod.mk.inj (Except.ok.inj hrun)
      exact ⟨⟨hblocks, h.puts, h.takes, hcontents ▸ h.delivered, h.accepted,
        fun hsaw => hcontents.trans (h.sawEof hsaw), by simp [h.noTrans]⟩,
        (fun hmoved => absurd hmoved (by simp [moved]))⟩
    · rename_i d source hread
      obtain ⟨hfront, hblocks, hend⟩ := readSome_front hpos h.blocks hread
      obtain ⟨r, hrest, hrun⟩ := CRun.bind_eq_ok.mp hrun
      obtain ⟨rfl, rfl⟩ := Prod.mk.inj (Except.ok.inj hrun)
      obtain ⟨haccepted, hsuffix, hret⟩ := putRest_contract hrest
      have hno : r.ret ≠ .error .noTrans := fun hret =>
        absurd (h.puts .noTrans (putRest_refused hrest hret)) (by decide)
      refine ⟨⟨hblocks, fun e he => h.puts e (hsuffix.mem he), fun hz => h.takes (hsuffix.mem hz),
        ?_, ?_, ?_, by simp [h.noTrans, hno]⟩, fun hmoved => ?_⟩
      · rw [List.append_assoc, ← hfront, h.delivered]
      · rw [hall]
        exact (List.prefix_append_right_inj _).mpr haccepted
      · intro hsaw
        rcases Bool.or_eq_true_iff.mp hsaw with hsaw | hempty
        · have hnil := hfront.symm.trans (h.sawEof hsaw)
          exact (List.append_eq_nil_iff.mp hnil).2
        · exact hend (List.isEmpty_iff.mp hempty)
      · rcases hret with ⟨-, hwhole⟩ | ⟨e, he⟩ | ⟨hz, -⟩
        · rw [hall, hwhole]
        · simp [he, moved] at hmoved
        · simp [hz, moved] at hmoved

theorem copyLoop_fed {cancels : List Bool} {numTrans : Except GftpError ℕ} (h : Fed l c)
    (hall : c.accepted = c.delivered)
    (hrun : copyLoop blksize cancels numTrans c = .ok (ret, c')) : Fed l c' := by
  induction cancels generalizing numTrans c with
  | nil => simp [copyLoop] at hrun
  | cons cancel cancels ih =>
    cases cancel with
    | true =>
      obtain ⟨-, rfl⟩ := Prod.mk.inj (Except.ok.inj hrun)
      exact h
    | false =>
      obtain ⟨⟨num, c₁⟩, hblock, hrun⟩ := CRun.bind_eq_ok.mp hrun
      obtain ⟨hfed, hgoes⟩ := doTransferBlock_fed h hall hblock
      by_cases hmoved : moved num = true
      · exact ih hfed (hgoes hmoved) ((if_pos hmoved).symm.trans hrun)
      · obtain ⟨-, rfl⟩ := Prod.mk.inj (Except.ok.inj ((if_neg hmoved).symm.trans hrun))
        exact hfed

/-- The copy of a file writes a front of the bytes, all of them when it succeeds. -/
theorem doTransferFile_written {turn : Turn} {r : CopyResult} {fromEnd toEnd : Except GftpError Unit}
    (hblk : blksize < 2 ^ 32)
    (hrun : doTransferFile blksize (List.replicate turn.rounds false) (fileStream turn.reads l)
      (fdWrites blksize turn.writes) fromEnd toEnd = .ok r) :
    written turn r.copy <+: l ∧ (r.ret = 0 → written turn r.copy = l) := by
  obtain ⟨⟨numTrans, c⟩, hloop, hrun⟩ := CRun.bind_eq_ok.mp hrun
  obtain rfl := Except.ok.inj hrun
  have htakes : (.ok 0 : PutOutcome) ∉ fdWrites blksize turn.writes := by
    intro hmem
    obtain ⟨wrote, -, hz⟩ := List.mem_map.mp hmem
    cases wrote <;> simp at hz
  have hputs : ∀ e : GftpError, .error e ∈ fdWrites blksize turn.writes → e = .retryable := by
    intro e hmem
    obtain ⟨wrote, -, he⟩ := List.mem_map.mp hmem
    cases wrote <;> simp at he
    exact he.symm
  have hstart : Fed l (CopyState.start (fileStream turn.reads l) (fdWrites blksize turn.writes)) :=
    ⟨fileStream_blocks turn.reads l, hputs, htakes, contents_fileStream turn.reads l,
      List.prefix_rfl, (fun hsaw => absurd hsaw Bool.false_ne_true), rfl⟩
  have hfed := copyLoop_fed hstart rfl hloop
  obtain ⟨rest, hrest⟩ := hfed.accepted
  constructor
  · have hfront : written turn c <+: c.delivered := by
      rw [written, ← hrest, List.drop_left]
      exact (List.prefix_append_right_inj _).mpr (List.take_prefix ..)
    exact hfront.trans ⟨_, hfed.delivered⟩
  · intro hret
    have hzero : transInt numTrans = 0 := by
      by_contra hne
      exact hne ((if_neg hne).symm.trans hret)
    have hhead : (List.replicate turn.rounds false).head? ≠ some true := by
      cases turn.rounds <;> simp [List.replicate]
    have hdone := copyLoop_zero hblk htakes rfl (fun h => absurd h hhead) hloop hzero
    rw [hfed.noTrans] at hdone
    obtain ⟨hsaw, hsame⟩ := hdone.resolve_left (by decide)
    have hl := hfed.delivered
    rw [hfed.sawEof hsaw, List.append_nil] at hl
    change c.accepted ++ (c.delivered.drop c.accepted.length).take turn.spilled = l
    rw [hsame, List.drop_length, List.take_nil, List.append_nil, hl]

end Copies

section Attempts

variable {src old : Bytes} {blksize startsize : ℕ} {dest : Option Bytes} {turn : Turn}
  {k k' : Copying} {ret : ℤ}

@[simp] theorem resize_length (l : Bytes) (n : ℕ) : (resize l n).length = n := by
  simp only [resize, List.length_append, List.length_take, List.length_replicate]
  omega

theorem resize_self (l : Bytes) : resize l l.length = l := by simp [resize]

theorem transferFile_cut (h : turn.cuts = true) :
    (transferFile turn src startsize dest).2 = some (resize (dest.getD []) startsize) := by
  simp only [Turn.cuts, Bool.and_eq_true, decide_eq_true_eq] at h
  obtain ⟨⟨⟨hsource, hseeks⟩, hdest⟩, htruncates⟩ := h
  cases hseek : turn.seeksDest <;>
    simp [transferFile, localGetFile, localPutFile, hsource, hseeks, hdest, htruncates, hseek]

/-- A transfer that does not come to cut the destination fails and leaves what it holds. -/
theorem transferFile_uncut (src : Bytes) (startsize : ℕ) (dest : Option Bytes)
    (h : turn.cuts = false) :
    (∃ e, (transferFile turn src startsize dest).1 = .error e) ∧
      ((transferFile turn src startsize dest).2 = dest ∨
        (transferFile turn src startsize dest).2 = some (dest.getD [])) := by
  unfold transferFile localGetFile
  by_cases hsource : (turn.source = .opened && turn.seeksSource) = true
  · rw [if_pos hsource]
    have hput : turn.dest = .opened → turn.truncates = false := by
      intro hdest
      simpa [Turn.cuts, hsource, hdest] using h
    cases hdest : turn.dest with
    | refused => simp [localPutFile, hdest]
    | unmarked => simp [localPutFile, hdest]
    | opened => simp [localPutFile, hdest, hput hdest]
  · rw [if_neg hsource]
    exact ⟨⟨_, rfl⟩, .inl rfl⟩

theorem copyOnItself_cases {file file' : Bytes} (hblk : blksize < 2 ^ 32)
    (hrun : copyOnItself turn blksize startsize file = .ok (ret, file')) :
    file' = (if turn.cuts then resize file startsize else file) ∧ (ret = 0 → turn.cuts = true) := by
  unfold copyOnItself at hrun
  cases hcuts : turn.cuts with
  | false =>
    obtain ⟨⟨e, he⟩, hkept⟩ := transferFile_uncut file startsize (some file) hcuts
    split at hrun
    · rename_i e' kept hopen
      obtain ⟨rfl, rfl⟩ := Prod.mk.inj (Except.ok.inj hrun)
      rw [hopen] at hkept
      refine ⟨?_, fun hzero => absurd hzero (Int.ne_of_lt e'.code_bounds.2)⟩
      rcases hkept with rfl | rfl <;> rfl
    · rename_i size cut hopen
      rw [hopen] at he
      simp at he
  | true =>
    have hcut := @transferFile_cut file startsize (some file) turn hcuts
    refine ⟨?_, fun _ => rfl⟩
    split at hrun
    · rename_i e kept hopen
      rw [hopen] at hcut
      obtain rfl : kept = some (resize file startsize) := hcut
      exact (Prod.mk.inj (Except.ok.inj hrun)).2.symm
    · rename_i size cut hopen
      rw [hopen] at hcut
      obtain rfl : cut = some (resize file startsize) := hcut
      obtain ⟨r, hcopy, hrun⟩ := CRun.bind_eq_ok.mp hrun
      obtain ⟨-, rfl⟩ := Prod.mk.inj (Except.ok.inj hrun)
      have hnone : (resize file startsize).drop startsize = [] :=
        List.drop_of_length_le (by simp)
      rw [Option.getD_some, hnone] at hcopy
      have hwritten := List.prefix_nil.mp (doTransferFile_written hblk hcopy).1
      simp [hwritten]

/-- A file that is copied over itself from its beginning is empty behind that, also when the
attempt succeeds, which it then reports. -/
theorem copied_on_itself {file file' : Bytes} (hblk : blksize < 2 ^ 32)
    (hrun : copyOnItself turn blksize startsize file = .ok (ret, file')) :
    file' = (if turn.cuts then resize file startsize else file) ∧
      (ret = 0 → turn.cuts = true ∧ (startsize = 0 → file' = [])) := by
  obtain ⟨hfile, hcuts⟩ := copyOnItself_cases hblk hrun
  refine ⟨hfile, fun hzero => ⟨hcuts hzero, fun hstart => ?_⟩⟩
  rw [hfile, if_pos (hcuts hzero), hstart]
  simp [resize]

/-- The system does what it is asked to. -/
def goodTurn : Turn where
  connect := .ok ()
  statsSource := true
  statsDest := true
  source := .opened
  seeksSource := true
  dest := .opened
  truncates := true
  seeksDest := true
  rounds := 3
  reads := []
  writes := [true, true]
  spilled := 0
  counted := 0

theorem file_emptied : ∃ file', copyOnItself goodTurn 4 0 [1, 2, 3] = .ok (0, file') ∧ file' = [] :=
  ⟨_, rfl, ((@copied_on_itself 4 0 goodTurn 0 [1, 2, 3] _ (by decide) rfl).2 rfl).2 rfl⟩

theorem transFileOrDir_kept {a : Answers} {t t' : Transfer} {attempt : Attempt}
    (h : transFileOrDir a t = (t', attempt)) :
    t'.skipFile = t.skipFile ∧ ∀ ret, attempt = .refused ret → t'.curresumed = t.curresumed := by
  have hsize : ∀ {t₁ : Transfer} {out}, askSize a t = (t₁, out) →
      t₁.skipFile = t.skipFile ∧ t₁.curresumed = t.curresumed := by
    intro t₁ out hask
    rcases askSize_cases hask with rfl | ⟨_, _, rfl⟩ <;> exact ⟨rfl, rfl⟩
  have hstart : ∀ {t₁ t₂ : Transfer} {out}, askStart a t₁ = (t₂, out) →
      t₂.skipFile = t₁.skipFile ∧ t₂.curresumed = t₁.curresumed := by
    intro t₁ t₂ out hask
    rcases askStart_cases hask with rfl | ⟨_, rfl⟩ <;> exact ⟨rfl, rfl⟩
  unfold transFileOrDir at h
  split at h
  · obtain ⟨rfl, -⟩ := Prod.mk.inj h
    exact ⟨rfl, fun _ _ => rfl⟩
  · split at h
    · obtain ⟨rfl, -⟩ := Prod.mk.inj h
      exact ⟨rfl, fun _ _ => rfl⟩
    · unfold startFile at h
      split at h
      · rename_i t₁ e hask
        obtain ⟨rfl, -⟩ := Prod.mk.inj h
        exact ⟨(hsize hask).1, fun _ _ => (hsize hask).2⟩
      · rename_i t₁ hask
        split at h
        · rename_i t₂ e hask'
          obtain ⟨rfl, -⟩ := Prod.mk.inj h
          exact ⟨(hstart hask').1.trans (hsize hask).1,
            fun _ _ => (hstart hask').2.trans (hsize hask).2⟩
        · rename_i t₂ hask'
          have hskip := (hstart hask').1.trans (hsize hask).1
          split at h
          · obtain ⟨rfl, rfl⟩ := Prod.mk.inj h
            exact ⟨hskip, fun ret hr => by simp at hr⟩
          · obtain ⟨rfl, rfl⟩ := Prod.mk.inj h
            exact ⟨hskip, fun ret hr => by simp at hr⟩

/-- An attempt that was refused before the file was asked for. -/
structure Refused (k k' : Copying) (ret : ℤ) : Prop where
  neg : ret < 0
  dest : k'.dest = k.dest
  first : k'.first = k.first
  asked : TransferState.Asked k.t k'.t
  curresumed : k'.t.curresumed = k.t.curresumed

/-- An attempt that asked for the file. -/
structure Tried (src : Bytes) (turn : Turn) (k k' : Copying) (ret : ℤ) : Prop where
  first : k'.first = some (k.first.getD ⟨turn.cuts, k.startsize⟩)
  isDir : k'.t.file.isDir = false
  there : k.t.file.retryTransfer = true → k.dest ≠ none
  failed : ret ≠ 0 → k'.t.file.retryTransfer = true
  uncut : turn.cuts = false → ret ≠ 0 ∧ (k'.dest = k.dest ∨ k'.dest = some (k.dest.getD []))
  cut : turn.cuts = true → ∃ w, k'.dest = some (resize (k.dest.getD []) k.startsize ++ w) ∧
    w <+: src.drop k.startsize ∧ (ret = 0 → w = src.drop k.startsize)

theorem endAttempt_file (ret : ℤ) (t : Transfer) :
    (endAttempt ret (.ok ()) t).1.skipFile = t.skipFile ∧
      (endAttempt ret (.ok ()) t).1.file.isDir = t.file.isDir ∧
      (endAttempt ret (.ok ()) t).2 = ret ∧
      (ret ≠ 0 → (endAttempt ret (.ok ()) t).1.file.retryTransfer = true) := by
  unfold endAttempt
  split
  · rename_i hzero
    exact ⟨rfl, rfl, hzero.symm, fun hne => absurd hzero hne⟩
  · exact ⟨rfl, by simp, rfl, fun _ => by simp⟩

theorem transFileOrDir_copying {a : Answers} {t t' : Transfer} {c : CopyState}
    (h : transFileOrDir a t = (t', .copying c)) : ∃ n, a.transferFile = .ok n := by
  unfold transFileOrDir startDirectory startFile at h
  split at h
  · simp at h
  · split at h
    · simp at h
    · split at h
      · simp at h
      · split at h
        · simp at h
        · split at h
          · simp at h
          · rename_i n hn
            exact ⟨n, hn⟩

theorem tryFile_cases (hblk : blksize < 2 ^ 32) (hfile : k.t.file.isDir = false)
    (h : tryFile src blksize turn k = .ok (ret, k')) :
    k'.t.skipFile = k.t.skipFile ∧ (Refused k k' ret ∨ Tried src turn k k' ret) := by
  have hthere : ∀ n : ℕ, localGetFileSize turn.statsDest k.dest = .ok n → k.dest ≠ none := by
    intro n hn hnone
    rw [hnone] at hn
    simp [localGetFileSize] at hn
  unfold tryFile at h
  dsimp only at h
  generalize hstart : transFileOrDir (answers turn src k.startsize k.dest blksize) k.t = p at h
  obtain ⟨t, attempt⟩ := p
  have hbegan := transFileOrDir_began hstart
  obtain ⟨hskip, hresumed⟩ := transFileOrDir_kept hstart
  cases attempt with
  | refused r =>
    obtain ⟨rfl, rfl⟩ := Prod.mk.inj (Except.ok.inj h)
    cases hbegan with
    | refused _ hneg hasked _ => exact ⟨hskip, .inl ⟨hneg, rfl, rfl, hasked, hresumed r rfl⟩⟩
  | ended r =>
    obtain ⟨rfl, rfl⟩ := Prod.mk.inj (Except.ok.inj h)
    obtain ⟨hskip', hdir, hret, hretry⟩ := endAttempt_file r t
    cases hbegan with
    | directory hdir' => exact absurd (hfile.symm.trans hdir') Bool.false_ne_true
    | failed e _ hasked hretried =>
      have hne : e.code ≠ 0 := Int.ne_of_lt e.code_bounds.2
      refine ⟨hskip'.trans hskip, .inr ⟨rfl, hdir.trans (hasked.isDir.trans hfile), ?_, fun _ =>
        hretry hne, fun huncut => ⟨hret.symm ▸ hne, (transferFile_uncut src _ _ huncut).2⟩, fun hcut => ?_⟩⟩
      · intro hr
        obtain ⟨n, hn, -⟩ := hretried hr
        exact hthere n hn
      · refine ⟨[], ?_, List.nil_prefix, fun hzero => absurd (hret.symm.trans hzero) hne⟩
        simpa [Copying.asked] using transferFile_cut hcut
  | copying c =>
    obtain ⟨r, hrun, h⟩ := CRun.bind_eq_ok.mp h
    obtain ⟨rfl, rfl⟩ := Prod.mk.inj (Except.ok.inj h)
    obtain ⟨hskip', hdir, hret, hretry⟩ :=
      endAttempt_file r.ret { t with curtrans := turn.counted }
    obtain ⟨n, hopened⟩ := transFileOrDir_copying hstart
    cases hbegan with
    | copying n' _ hasked hretried =>
      obtain ⟨hfront, hwhole⟩ := doTransferFile_written hblk hrun
      refine ⟨hskip'.trans hskip, .inr ⟨rfl, hdir.trans (hasked.isDir.trans hfile), ?_,
        fun hne => hretry (hret ▸ hne), fun huncut => ?_, fun hcut => ?_⟩⟩
      · intro hr
        obtain ⟨m, hm, -⟩ := hretried hr
        exact hthere m hm
      · obtain ⟨e, he⟩ := (transferFile_uncut src k.startsize k.dest huncut).1
        exact absurd (he.symm.trans hopened) (by simp)
      · exact ⟨written turn r.copy, by simp [Copying.asked, transferFile_cut hcut], hfront,
          fun hzero => hwhole (hret.symm.trans hzero)⟩

end Attempts

/-- What the destination holds when the copy behind a front is complete. -/
def whole (src left : Bytes) : Bytes := left ++ src.drop left.length

/-- A destination that holds the front and some of what belongs behind it is completed by what
the source holds behind so many bytes. -/
theorem whole_resumed {src left d : Bytes} (hfront : left <+: d) (hinside : d <+: whole src left) :
    whole src left = d ++ src.drop d.length := by
  obtain ⟨a, rfl⟩ := hfront
  have ha : a <+: src.drop left.length := (List.prefix_append_right_inj _).mp hinside
  have hdrop := List.prefix_iff_eq_append.mp ha
  rw [List.drop_drop] at hdrop
  rw [whole, List.append_assoc, List.length_append, hdrop]

/-- Whether the destination can be resumed: before the file was asked for it is as it was; from
then on it holds the front that the first such attempt left, and some of what belongs behind. -/
structure Resumable (src : Bytes) (dest : Option Bytes) (start : ℕ) (k : Copying) : Prop where
  isDir : k.t.file.isDir = false
  skipFile : k.t.skipFile = false
  untried : k.first = none → k.dest = dest ∧ k.t.file.retryTransfer = false ∧
    k.t.curtrans = 0 ∧ k.t.curresumed = 0 ∧ (k.startsize = start ∨ k.startsize = 0)
  tried : ∀ first, k.first = some first → k.t.file.retryTransfer = true ∧
    (first.startsize = start ∨ first.startsize = 0) ∧
    ∀ d, k.dest = some d →
      first.left (dest.getD []) <+: d ∧ d <+: whole src (first.left (dest.getD []))

/-- A file that no attempt has been made at. curtrans and curresumed are those of the file
before, and gftp_get_transfer_status would take them for its own. -/
structure Fresh (k : Copying) : Prop where
  isDir : k.t.file.isDir = false
  skipFile : k.t.skipFile = false
  first : k.first = none
  retry : k.t.file.retryTransfer = false
  curtrans : k.t.curtrans = 0
  curresumed : k.t.curresumed = 0

section Runs

variable {src : Bytes} {blksize start : ℕ} {dest : Option Bytes} {turn : Turn}
  {k k' : Copying} {ret : ℤ}

theorem Fresh.resumable (h : Fresh k) : Resumable src k.dest k.startsize k where
  isDir := h.isDir
  skipFile := h.skipFile
  untried _ := ⟨rfl, h.retry, h.curtrans, h.curresumed, .inl rfl⟩
  tried first hfirst := by simp [h.first] at hfirst

theorem reconnected_file {t : Transfer} (h : t.skipFile = false) :
    (reconnected t).file =
        { t.file with transferAction := .resume, startsize := t.curtrans + t.curresumed } ∧
      (reconnected t).skipFile = false ∧ (reconnected t).curtrans = t.curtrans ∧
      (reconnected t).curresumed = 0 := by
  have hmark : ∀ {p q : Transfer}, (if t.skipFile = true then p else q) = q :=
    if_neg (by simp [h])
  unfold reconnected
  rw [hmark]
  exact ⟨Function.update_self .., h, rfl, rfl⟩

/-- What an attempt that asked for the file leaves of the destination. -/
theorem Resumable.attempt (h : Resumable src dest start k) (htried : Tried src turn k k' ret) :
    ∃ first, k'.first = some first ∧ (first.startsize = start ∨ first.startsize = 0) ∧
      (∀ d, k'.dest = some d →
        first.left (dest.getD []) <+: d ∧ d <+: whole src (first.left (dest.getD []))) ∧
      (ret = 0 → k'.dest = some (whole src (first.left (dest.getD [])))) := by
  cases hfirst : k.first with
  | none =>
    obtain ⟨hdest, -, -, -, hstart⟩ := h.untried hfirst
    refine ⟨⟨turn.cuts, k.startsize⟩, by simp [htried.first, hfirst], hstart, ?_⟩
    cases hcuts : turn.cuts with
    | false =>
      obtain ⟨hne, hkept⟩ := htried.uncut hcuts
      refine ⟨fun d hd => ?_, fun hzero => absurd hzero hne⟩
      have hsame : d = dest.getD [] := by
        rcases hkept with hkept | hkept <;> rw [hd, hdest] at hkept
        · simp [← hkept]
        · exact Option.some.inj hkept
      rw [hsame]
      exact ⟨List.prefix_rfl, List.prefix_append ..⟩
    | true =>
      obtain ⟨w, hw, hfront, hall⟩ := htried.cut hcuts
      rw [hdest] at hw
      have hwhole : whole src (resize (dest.getD []) k.startsize) =
          resize (dest.getD []) k.startsize ++ src.drop k.startsize := by
        rw [whole, resize_length]
      refine ⟨fun d hd => ?_, fun hzero => ?_⟩
      · obtain rfl := Option.some.inj (hw.symm.trans hd)
        refine ⟨List.prefix_append .., ?_⟩
        change _ <+: whole src (resize (dest.getD []) k.startsize)
        rw [hwhole]
        exact (List.prefix_append_right_inj _).mpr hfront
      · change _ = some (whole src (resize (dest.getD []) k.startsize))
        rw [hw, hall hzero, hwhole]
  | some first =>
    obtain ⟨hretry, hstart, hinside⟩ := h.tried first hfirst
    obtain ⟨d, hd⟩ := Option.ne_none_iff_exists'.mp (htried.there hretry)
    obtain ⟨hleft, hd'⟩ := hinside d hd
    have hat : k.startsize = d.length := by simp [Copying.startsize, hretry, hd]
    refine ⟨first, by simp [htried.first, hfirst], hstart, ?_⟩
    cases hcuts : turn.cuts with
    | false =>
      obtain ⟨hne, hkept⟩ := htried.uncut hcuts
      refine ⟨fun e he => ?_, fun hzero => absurd hzero hne⟩
      have hsame : e = d := by
        rcases hkept with hkept | hkept <;> rw [he, hd] at hkept <;> exact Option.some.inj hkept
      rw [hsame]
      exact ⟨hleft, hd'⟩
    | true =>
      obtain ⟨w, hw, hfront, hall⟩ := htried.cut hcuts
      rw [hd, hat, Option.getD_some, resize_self] at hw
      rw [hat] at hfront hall
      have hwhole := whole_resumed hleft hd'
      refine ⟨fun e he => ?_, fun hzero => ?_⟩
      · obtain rfl := Option.some.inj (hw.symm.trans he)
        rw [hwhole]
        exact ⟨hleft.trans (List.prefix_append ..), (List.prefix_append_right_inj _).mpr hfront⟩
      · rw [hw, hall hzero, hwhole]

theorem Resumable.step (hblk : blksize < 2 ^ 32) (h : Resumable src dest start k)
    (hstep : TryStep src blksize k turn k') : Resumable src dest start k' := by
  obtain ⟨htry, hneg, -⟩ := hstep
  rename_i k₁ ret
  obtain ⟨hskip, hcases⟩ := tryFile_cases hblk h.isDir htry
  obtain ⟨hfile, hskip', hcurtrans, hcurresumed⟩ := reconnected_file (hskip.trans h.skipFile)
  rcases hcases with hrefused | htried
  · have hretry := hrefused.asked.retry
    constructor
    · simpa [hfile] using hrefused.asked.isDir.trans h.isDir
    · exact hskip'
    · intro hnone
      obtain ⟨hdest, hnew, hzero, hzero', -⟩ := h.untried (hrefused.first ▸ hnone)
      refine ⟨hrefused.dest.trans hdest, by simpa [hfile] using hretry.trans hnew,
        hcurtrans.trans (hrefused.asked.curtrans.trans hzero), hcurresumed, .inr ?_⟩
      simp [Copying.startsize, startOffset, hfile, hretry, hnew, hrefused.asked.curtrans, hzero,
        hrefused.curresumed, hzero']
    · intro first hfirst
      obtain ⟨hold, hstart, hinside⟩ := h.tried first (hrefused.first ▸ hfirst)
      exact ⟨by simpa [hfile] using hretry.trans hold, hstart,
        fun d hd => hinside d (hrefused.dest ▸ hd)⟩
  · obtain ⟨first, hfirst, hstart, hinside, -⟩ := h.attempt htried
    constructor
    · simpa [hfile] using htried.isDir
    · exact hskip'
    · intro hnone
      exact absurd (hfirst.symm.trans hnone) (by simp)
    · intro first' hfirst'
      obtain rfl := Option.some.inj (hfirst.symm.trans hfirst')
      exact ⟨by simpa [hfile] using htried.failed (Int.ne_of_lt hneg), hstart, hinside⟩

theorem resumable_of_reaches {k₀ : Copying} (hblk : blksize < 2 ^ 32) (hfresh : Fresh k₀)
    (hrun : Reaches (TryStep src blksize) (fun _ _ => True) k₀ k) :
    Resumable src k₀.dest k₀.startsize k :=
  hrun.invariant _ hfresh.resumable fun _ _ _ h _ hstep => h.step hblk hstep

/-- When an attempt succeeds, the destination holds what the first attempt that asked for the file
left of it, and behind that what the source holds there. It is the source exactly when what was
left is a front of it; for a file to be overwritten, when the first attempt came to cut the
destination or what was there is a front of the source. -/
theorem retried_copy {k₀ : Copying} (hblk : blksize < 2 ^ 32) (hfresh : Fresh k₀)
    (hrun : Reaches (TryStep src blksize) (fun _ _ => True) k₀ k)
    (hlast : tryFile src blksize turn k = .ok (0, k')) :
    ∃ first, k'.first = some first ∧
      k'.dest = some (whole src (first.left (k₀.dest.getD []))) ∧
      (k'.dest = some src ↔ first.left (k₀.dest.getD []) <+: src) ∧
      (k₀.startsize = 0 → (k'.dest = some src ↔ first.cut = true ∨ k₀.dest.getD [] <+: src)) := by
  have hkept := resumable_of_reaches hblk hfresh hrun
  obtain ⟨-, hrefused | htried⟩ := tryFile_cases hblk hkept.isDir hlast
  · exact absurd hrefused.neg (Int.lt_irrefl 0)
  · obtain ⟨first, hfirst, hstart, -, hdone⟩ := hkept.attempt htried
    have hwhole : k'.dest = some src ↔ first.left (k₀.dest.getD []) <+: src := by
      rw [hdone rfl, Option.some_inj, List.prefix_iff_eq_append, whole]
    refine ⟨first, hfirst, hdone rfl, hwhole, fun hzero => hwhole.trans ?_⟩
    have hat : first.startsize = 0 := hstart.elim (·.trans hzero) id
    cases hcut : first.cut <;> simp [First.left, hcut, hat, resize]

/-- A file of five bytes, to be copied over what the destination holds. -/
def fiveBytes (dest : Option Bytes) : Copying where
  t := (TransferRun.World.start (fun _ => ⟨false, 5, 0, .overwrite, false, false, false, false, false⟩)
    1 5 false).t
  dest := dest
  first := none

theorem fiveBytes_fresh (dest : Option Bytes) : Fresh (fiveBytes dest) := ⟨rfl, rfl, rfl, rfl, rfl, rfl⟩

/-- The source cannot be opened. -/
def lockedTurn : Turn := { goodTurn with source := .refused }

/-- The head of the old file stays when the first attempt found the source locked. -/
theorem old_head_stays : ∃ k' : Copying,
    k'.dest = some [9, 9, 9, 4, 5] ∧ ∃ first : First, k'.first = some first ∧ first.cut = false ∧
      (k'.dest = some [1, 2, 3, 4, 5] ↔ first.left [9, 9, 9] <+: [1, 2, 3, 4, 5]) := by
  have hrun : Reaches (TryStep [1, 2, 3, 4, 5] 4) (fun _ _ => True) (fiveBytes (some [9, 9, 9])) _ :=
    (Reaches.refl _).tail (a := lockedTurn) trivial (.again rfl (by decide) (by decide))
  obtain ⟨first, hfirst, hdest, hiff, -⟩ :=
    @retried_copy [1, 2, 3, 4, 5] 4 goodTurn _ _ _ (by decide) (fiveBytes_fresh _) hrun rfl
  have hcut : first = ⟨false, 0⟩ := (Option.some.inj hfirst).symm
  exact ⟨_, rfl, first, hfirst, by rw [hcut], hiff⟩

/-- A file that has been asked for, and whose destination was not even made, is not copied by any
later attempt: each asks for the size of the destination first. -/
theorem missing_never_copied {k₀ k₁ k₂ : Copying} (hblk : blksize < 2 ^ 32) (hfresh : Fresh k₀)
    (hrun : Reaches (TryStep src blksize) (fun _ _ => True) k₀ k) (hfirst : k.first ≠ none)
    (hnone : k.dest = none) (hlater : Reaches (TryStep src blksize) (fun _ _ => True) k k₁)
    (htry : tryFile src blksize turn k₁ = .ok (ret, k₂)) : ret < 0 ∧ k₂.dest = none := by
  have hrefused : ∀ {k k' : Copying} {turn : Turn} {ret : ℤ},
      Resumable src k₀.dest k₀.startsize k → k.first ≠ none → k.dest = none →
      tryFile src blksize turn k = .ok (ret, k') → Refused k k' ret := by
    intro k k' turn ret hkept hfirst hnone htry
    obtain ⟨-, hrefused | htried⟩ := tryFile_cases hblk hkept.isDir htry
    · exact hrefused
    · obtain ⟨first, hsome⟩ := Option.ne_none_iff_exists'.mp hfirst
      exact absurd hnone (htried.there (hkept.tried first hsome).1)
  have hmissing : Resumable src k₀.dest k₀.startsize k₁ ∧ k₁.first ≠ none ∧ k₁.dest = none := by
    refine hlater.invariant
      (fun k => Resumable src k₀.dest k₀.startsize k ∧ k.first ≠ none ∧ k.dest = none)
      ⟨resumable_of_reaches hblk hfresh hrun, hfirst, hnone⟩ ?_
    rintro k turn _ ⟨hkept, hfirst, hnone⟩ - hstep
    refine ⟨hkept.step hblk hstep, ?_⟩
    obtain ⟨htry, -, -⟩ := hstep
    have hr := hrefused hkept hfirst hnone htry
    exact ⟨hr.first ▸ hfirst, hr.dest.trans hnone⟩
  have hr := hrefused hmissing.1 hmissing.2.1 hmissing.2.2 htry
  exact ⟨hr.neg, hr.dest.trans hmissing.2.2⟩

/-- A new file whose source was locked once is not copied any more. -/
theorem new_file_given_up : ∃ (k k' : Copying) (ret : ℤ),
    Reaches (TryStep [1, 2, 3, 4, 5] 4) (fun _ _ => True) (fiveBytes none) k ∧
      tryFile [1, 2, 3, 4, 5] 4 goodTurn k = .ok (ret, k') ∧ ret < 0 ∧ k'.dest = none := by
  have hrun : Reaches (TryStep [1, 2, 3, 4, 5] 4) (fun _ _ => True) (fiveBytes none) _ :=
    (Reaches.refl _).tail (a := lockedTurn) trivial (.again rfl (by decide) (by decide))
  exact ⟨_, _, _, hrun, rfl, @missing_never_copied [1, 2, 3, 4, 5] 4 goodTurn _ _ _ _ _ (by decide)
    (fiveBytes_fresh none) hrun (by simp [Copying.asked]) rfl (Reaches.refl _) rfl⟩

end Runs

end Gftp.RetriedCopies
