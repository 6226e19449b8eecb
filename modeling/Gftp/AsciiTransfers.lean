import Gftp.ByteStreams
import Gftp.CopyLoop

/-!
The blocks of an FTP transfer in ASCII mode. rfc959_get_next_file_chunk removes the carriage
returns of what one read has returned, in the buffer itself, and a chunk of length 0 is the
end of the file for the copy loop. rfc959_put_next_file_chunk looks at the byte in front of a
line feed inside the block only. So the results depend on where a stream is cut.
-/

namespace Gftp.AsciiTransfers

open ByteStrings ByteStreams CopyLoop Protocol

/-- The fields of rfc959_parms that say what is done with a block. -/
structure DataParms where
  isFxpTransfer : Bool
  isAsciiTransfer : Bool

/-- The variables of the loop that removes carriage returns. -/
structure Squeeze where
  buf : Bytes
  j : ℕ
  ret : ℤ

def squeezeStep (s : Squeeze) (i : ℕ) : Squeeze :=
  if s.buf.getD i 0 ≠ 13 then { s with buf := s.buf.set s.j (s.buf.getD i 0), j := s.j + 1 }
  else { s with ret := s.ret - 1 }

/-- The loop over the bytes that were read. -/
def squeeze (buf : Bytes) : Squeeze :=
  (List.range buf.length).foldl squeezeStep ⟨buf, 0, buf.length⟩

/-- rfc959_get_next_file_chunk; the bytes are those of the buffer up to the result. -/
def rfc959GetNextFileChunk (parms : DataParms) (size : ℕ) (source : Stream GftpError) :
    Except GftpError Bytes × Stream GftpError :=
  if parms.isFxpTransfer then (.error .noTrans, source)
  else
    match readSome size source with
    | (.error e, source) => (.error e, source)
    | (.ok buf, source) =>
        if parms.isAsciiTransfer then
          (.ok ((squeeze buf).buf.take (squeeze buf).ret.toNat), source)
        else (.ok buf, source)

/-- The chunks up to the first result that is not positive, which ends the run, and what stays
unread. -/
def getChunks (parms : DataParms) (size : ℕ) : ℕ → Stream GftpError →
    CRun (Except GftpError Unit × Bytes × Stream GftpError)
  | 0, _ => .error .pending
  | fuel + 1, source =>
      match rfc959GetNextFileChunk parms size source with
      | (.error e, source) => .ok (.error e, [], source)
      | (.ok chunk, source) =>
          if chunk = [] then .ok (.ok (), [], source)
          else do
            let (end', chunks, source) ← getChunks parms size fuel source
            return (end', chunk ++ chunks, source)

/-- There is a line feed at i whose carriage return is missing in the buffer. -/
def isBare (buf : Bytes) (i : ℕ) : Bool :=
  buf.getD i 0 = 10 ∧ buf.getD (i - 1) 0 ≠ 13

/-- rsize behind the loop that counts. -/
def convertedSize (buf : Bytes) : ℕ :=
  (List.range' 1 (buf.length - 1)).foldl
    (fun rsize i => if isBare buf i then rsize + 1 else rsize) buf.length

/-- tempstr behind the loop that writes it. -/
def convert (buf : Bytes) : Bytes :=
  (List.range buf.length).foldl (fun tempstr i =>
    (if 0 < i && isBare buf i then tempstr ++ [13] else tempstr) ++ [buf.getD i 0]) []

/-- The loop over data_conn_write: its result when it fails, and the bytes written. -/
def writeLoop : Bytes → List PutOutcome → CRun (Except GftpError Unit × Bytes × List PutOutcome)
  | [], answers => .ok (.ok (), [], answers)
  | _ :: _, [] => .error .pending
  | _ :: _, .error e :: answers => .ok (.error e, [], answers)
  | b :: rest, .ok n :: answers => do
      let wrote := min n (b :: rest).length
      let (r, written, answers) ← writeLoop ((b :: rest).drop wrote) answers
      return (r, (b :: rest).take wrote ++ written, answers)

/-- rfc959_put_next_file_chunk, with the bytes that it writes to the data connection. -/
def rfc959PutNextFileChunk (parms : DataParms) (buf : Bytes) (answers : List PutOutcome) :
    CRun (Except GftpError ℕ × Bytes × List PutOutcome) :=
  if parms.isFxpTransfer then .ok (.error .noTrans, [], answers)
  else do
    let rsize := if parms.isAsciiTransfer then convertedSize buf else buf.length
    let tempstr := if rsize ≠ buf.length then convert buf else buf
    let (r, written, answers) ← writeLoop tempstr answers
    return (r.map fun _ => rsize, written, answers)

/-- The blocks of a file one behind the other, up to a failure. -/
def putBlocks (parms : DataParms) : List Bytes → List PutOutcome →
    CRun (Except GftpError Unit × Bytes × List PutOutcome)
  | [], answers => .ok (.ok (), [], answers)
  | block :: blocks, answers => do
      let (r, written, answers) ← rfc959PutNextFileChunk parms block answers
      match r with
      | .error e => return (.error e, written, answers)
      | .ok _ => do
          let (r, later, answers) ← putBlocks parms blocks answers
          return (r, written ++ later, answers)

def ascii : DataParms := ⟨false, true⟩

/-- A stream without its carriage returns. -/
def withoutReturns (content : Bytes) : Bytes := content.filter (· ≠ 13)

/-- A carriage return in front of every line feed that has none; prev is the byte in front. -/
def withReturns : Option UInt8 → Bytes → Bytes
  | _, [] => []
  | prev, b :: rest =>
      (if b = 10 ∧ prev ≠ some 13 then [13, b] else [b]) ++ withReturns (some b) rest

/-- A read that returns carriage returns only is the last one. -/
def ReturnsLast : List Bytes → Prop
  | [] => True
  | d :: reads => (withoutReturns d = [] → reads = []) ∧ ReturnsLast reads

/-- A block begins with a line feed only when the content in front of it ends in a carriage
return; prev is the last byte in front of the blocks. -/
def ReturnsJoined : Option UInt8 → List Bytes → Prop
  | _, [] => True
  | prev, block :: blocks =>
      (block.head? = some 10 → prev = some 13) ∧ ReturnsJoined (block.getLast?.or prev) blocks

section Download

/-- Behind so many bytes those kept stand at the beginning of the buffer. -/
structure Squeezed (buf : Bytes) (n : ℕ) (s : Squeeze) : Prop where
  kept : s.buf.take s.j = withoutReturns (buf.take n)
  behind : s.buf.drop n = buf.drop n
  length : s.buf.length = buf.length
  count : s.ret + n = buf.length + s.j
  room : s.j ≤ n

theorem squeezed (buf : Bytes) {n : ℕ} (hn : n ≤ buf.length) :
    Squeezed buf n ((List.range n).foldl squeezeStep ⟨buf, 0, buf.length⟩) := by
  induction n with
  | zero => exact ⟨rfl, rfl, rfl, rfl, le_rfl⟩
  | succ n ih =>
    obtain ⟨hkept, hbehind, hlength, hcount, hroom⟩ := ih (by omega)
    rw [List.range_succ, List.foldl_append, List.foldl_cons, List.foldl_nil]
    generalize (List.range n).foldl squeezeStep ⟨buf, 0, buf.length⟩ = s at *
    have hlt : n < s.buf.length := by omega
    have hhead : s.buf.getD n 0 = buf[n] := by
      have h := congrArg (fun l => l.getD 0 0) hbehind
      simpa [List.getD_eq_getElem?_getD, List.getElem?_eq_getElem (show n < buf.length by omega)]
        using h
    have hdrop : s.buf.drop (n + 1) = buf.drop (n + 1) := by
      rw [← List.drop_drop, hbehind, List.drop_drop]
    have htake : withoutReturns (buf.take (n + 1)) =
        withoutReturns (buf.take n) ++ withoutReturns [buf[n]] := by
      rw [List.take_add_one, List.getElem?_eq_getElem (show n < buf.length by omega)]
      exact List.filter_append ..
    unfold squeezeStep
    rw [hhead]
    by_cases hreturn : buf[n] = 13
    · rw [if_neg (by simpa using hreturn)]
      refine ⟨?_, hdrop, hlength, ?_, Nat.le_succ_of_le hroom⟩
      · rw [htake, hkept]
        simp [withoutReturns, hreturn]
      · show s.ret - 1 + ((n + 1 : ℕ) : ℤ) = buf.length + s.j
        omega
    · rw [if_pos hreturn]
      refine ⟨?_, ?_, by simpa using hlength, ?_, by simpa using hroom⟩
      · rw [List.take_add_one, List.getElem?_set_self (by omega), List.take_set_of_le le_rfl, hkept,
          htake]
        simp [withoutReturns, hreturn]
      · rw [List.drop_set_of_lt (by omega), hdrop]
      · show s.ret + ((n + 1 : ℕ) : ℤ) = buf.length + ((s.j + 1 : ℕ) : ℤ)
        omega

/-- What the loop leaves up to its result. -/
theorem squeeze_eq (buf : Bytes) :
    (squeeze buf).buf.take (squeeze buf).ret.toNat = withoutReturns buf := by
  obtain ⟨hkept, -, -, hcount, -⟩ := squeezed buf le_rfl
  have hret : (squeeze buf).ret.toNat = (squeeze buf).j := by
    have hcount : (squeeze buf).ret + buf.length = buf.length + (squeeze buf).j := hcount
    omega
  rw [hret]
  simpa [squeeze] using hkept

theorem getNextFileChunk_read {size : ℕ} {d : Bytes} (hd : d.length ≤ size)
    (source : Stream GftpError) :
    rfc959GetNextFileChunk ascii size (.ok d :: source) = (.ok (withoutReturns d), source) := by
  simp [rfc959GetNextFileChunk, ascii, readSome, hd, squeeze_eq]

theorem contents_reads (reads : List Bytes) :
    contents (reads.map Except.ok : Stream GftpError) = reads.flatten := by
  induction reads with
  | nil => rfl
  | cons d reads ih => rw [List.map_cons, contents, ih, List.flatten_cons]

/-- However a stream is cut into reads, the chunks up to the first empty one are the stream
without its carriage returns, and nothing is left unread, exactly when no read but the last
one returns carriage returns only. -/
theorem download_iff (size : ℕ) (reads : List Bytes)
    (h : ∀ d ∈ reads, d ≠ [] ∧ d.length ≤ size) :
    ∃ chunks rest,
      (∀ fuel, reads.length < fuel →
        getChunks ascii size fuel (reads.map .ok) = .ok (.ok (), chunks, rest)) ∧
      (chunks = withoutReturns reads.flatten ∧ contents rest = [] ↔ ReturnsLast reads) := by
  induction reads with
  | nil =>
    refine ⟨[], [], ?_, by simp [withoutReturns, contents, ReturnsLast]⟩
    intro fuel hfuel
    obtain ⟨fuel, rfl⟩ := Nat.exists_eq_add_one_of_ne_zero (Nat.ne_of_gt hfuel)
    rfl
  | cons d reads ih =>
    obtain ⟨⟨hne, hlen⟩, hreads⟩ := List.forall_mem_cons.mp h
    obtain ⟨chunks, rest, hrun, hiff⟩ := ih hreads
    have hsplit : withoutReturns (d :: reads).flatten =
        withoutReturns d ++ withoutReturns reads.flatten := by
      rw [List.flatten_cons]
      exact List.filter_append ..
    by_cases hempty : withoutReturns d = []
    · -- the chunk is empty, and the run ends in front of the other reads
      refine ⟨[], reads.map .ok, ?_, ?_⟩
      · intro fuel hfuel
        obtain ⟨fuel, rfl⟩ := Nat.exists_eq_add_one_of_ne_zero (Nat.ne_of_gt (Nat.zero_lt_of_lt hfuel))
        rw [List.map_cons, getChunks, getNextFileChunk_read hlen]
        simp only [if_pos hempty]
      · rw [hsplit, hempty, List.nil_append, contents_reads]
        constructor
        · rintro ⟨-, hflat⟩
          have hnil : reads = [] := by
            apply List.eq_nil_iff_forall_not_mem.mpr
            intro r hr
            exact (hreads r hr).1 (List.flatten_eq_nil_iff.mp hflat r hr)
          exact ⟨fun _ => hnil, hnil ▸ trivial⟩
        · intro hlast
          rw [hlast.1 hempty]
          exact ⟨rfl, rfl⟩
    · refine ⟨withoutReturns d ++ chunks, rest, ?_, ?_⟩
      · intro fuel hfuel
        obtain ⟨fuel, rfl⟩ := Nat.exists_eq_add_one_of_ne_zero (Nat.ne_of_gt (Nat.zero_lt_of_lt hfuel))
        rw [List.length_cons] at hfuel
        rw [List.map_cons, getChunks, getNextFileChunk_read hlen]
        simp only [if_neg hempty, hrun fuel (by omega)]
        rfl
      · rw [hsplit, List.append_cancel_left_eq, hiff, ReturnsLast]
        exact ⟨fun hlast => ⟨fun he => absurd he hempty, hlast⟩, And.right⟩

/-- A line end that is cut behind its carriage return, in a read with other bytes. -/
theorem cut_line_downloaded : ∃ chunks rest,
    (∀ fuel, 2 < fuel → getChunks ascii 3 fuel [.ok [97, 98, 13], .ok [10]] =
      .ok (.ok (), chunks, rest)) ∧
      (chunks = [97, 98, 10] ∧ contents rest = [] ↔ ReturnsLast [[97, 98, 13], [10]]) := by
  apply download_iff 3 [[97, 98, 13], [10]]
  decide

/-- A carriage return that is read alone ends the file. -/
theorem return_ends_file : ∃ (size : ℕ) (reads : List Bytes),
    (∀ d ∈ reads, d ≠ [] ∧ d.length ≤ size) ∧
      getChunks ascii size 9 (reads.map .ok) = .ok (.ok (), [97], [.ok [10, 98]]) ∧
        withoutReturns reads.flatten ≠ [97] := by
  refine ⟨4, [[97], [13], [10, 98]], ?_, rfl, ?_⟩
  · decide
  · decide

end Download

section Upload

variable {prev : Option UInt8} {b : UInt8} {block rest : Bytes} {blocks : List Bytes}

/-- What becomes of a block: of its first byte the byte in front is not looked at. -/
def convertedBlock : Bytes → Bytes
  | [] => []
  | b :: rest => b :: withReturns (some b) rest

theorem withReturns_append (prev : Option UInt8) (block rest : Bytes) :
    withReturns prev (block ++ rest) =
      withReturns prev block ++ withReturns (block.getLast?.or prev) rest := by
  induction block generalizing prev with
  | nil => rfl
  | cons b block ih =>
    have hlast : (b :: block).getLast?.or prev = block.getLast?.or (some b) := by
      rw [List.getLast?_cons]
      cases block.getLast? <;> rfl
    rw [List.cons_append, withReturns, withReturns, ih, hlast, List.append_assoc]

theorem withReturns_singleton (prev : Option UInt8) (b : UInt8) :
    withReturns prev [b] = if b = 10 ∧ prev ≠ some 13 then [13, b] else [b] := by
  rw [withReturns, withReturns, List.append_nil]

theorem convertedBlock_take (block : Bytes) {n : ℕ} (hn : n + 1 < block.length) :
    convertedBlock (block.take (n + 2)) = convertedBlock (block.take (n + 1)) ++
      if isBare block (n + 1) then [13, block.getD (n + 1) 0] else [block.getD (n + 1) 0] := by
  have hget : block.getD (n + 1) 0 = block[n + 1] := by simp [List.getD_eq_getElem?_getD, hn]
  have hprev : block.getD n 0 = block[n] := by
    rw [List.getD_eq_getElem?_getD, List.getElem?_eq_getElem, Option.getD_some]
  have htake : block.take (n + 2) = block.take (n + 1) ++ [block[n + 1]] := by
    rw [List.take_add_one, List.getElem?_eq_getElem hn]
    rfl
  have hlast : (block.take (n + 1)).getLast? = some block[n] := by
    rw [List.take_add_one, List.getElem?_eq_getElem (by omega), Option.toList_some,
      List.getLast?_append, List.getLast?_singleton, Option.some_or]
  obtain ⟨c, front, hfront⟩ : ∃ c front, block.take (n + 1) = c :: front := by
    apply List.exists_cons_of_ne_nil
    intro hnil
    simp [hnil] at hlast
  have hbehind : front.getLast?.or (some c) = some block[n] := by
    rw [← hlast, hfront, List.getLast?_cons]
    cases front.getLast? <;> rfl
  rw [htake, hfront, hget, List.cons_append, convertedBlock, convertedBlock, withReturns_append,
    withReturns_singleton, hbehind]
  simp only [isBare, hget, Nat.add_sub_cancel, hprev, decide_eq_true_eq, ne_eq, Option.some.injEq,
    List.cons_append]

theorem convert_upto (block : Bytes) {n : ℕ} (hn : n ≤ block.length) :
    (List.range n).foldl (fun tempstr i =>
      (if 0 < i && isBare block i then tempstr ++ [13] else tempstr) ++ [block.getD i 0]) [] =
        convertedBlock (block.take n) := by
  induction n with
  | zero => rfl
  | succ n ih =>
    rw [List.range_succ, List.foldl_append, List.foldl_cons, List.foldl_nil, ih (by omega)]
    cases n with
    | zero =>
      obtain ⟨b, rest, rfl⟩ := List.exists_cons_of_ne_nil (List.ne_nil_of_length_pos hn)
      rfl
    | succ n =>
      rw [convertedBlock_take block hn]
      simp only [Nat.succ_pos, decide_true, Bool.true_and]
      split <;> simp

theorem convertedSize_upto (block : Bytes) {n : ℕ} (hn : n < block.length) :
    (List.range' 1 n).foldl (fun rsize i => if isBare block i then rsize + 1 else rsize)
      block.length + (n + 1) = block.length + (convertedBlock (block.take (n + 1))).length := by
  induction n with
  | zero =>
    obtain ⟨b, rest, rfl⟩ := List.exists_cons_of_ne_nil (List.ne_nil_of_length_pos hn)
    rfl
  | succ n ih =>
    have hupto := ih (by omega)
    rw [List.range'_concat, List.foldl_append, List.foldl_cons, List.foldl_nil,
      convertedBlock_take block hn, List.length_append, Nat.one_mul, Nat.add_comm 1 n]
    split <;> simp only [List.length_cons, List.length_nil] <;> omega

theorem convert_eq (block : Bytes) : convert block = convertedBlock block := by
  simpa [convert] using convert_upto block le_rfl

theorem convertedSize_eq (block : Bytes) : convertedSize block = (convertedBlock block).length := by
  cases block with
  | nil => rfl
  | cons b rest =>
    have hupto := convertedSize_upto (b :: rest) (n := rest.length) (by simp)
    rw [List.take_of_length_le (by simp)] at hupto
    simp only [convertedSize, List.length_cons, Nat.add_sub_cancel] at hupto ⊢
    omega

theorem length_le_withReturns (prev : Option UInt8) (l : Bytes) :
    l.length ≤ (withReturns prev l).length := by
  induction l generalizing prev with
  | nil => exact le_rfl
  | cons b rest ih =>
    have hrest := ih (some b)
    rw [withReturns, List.length_append, List.length_cons]
    split <;> simp only [List.length_cons, List.length_nil] <;> omega

theorem withReturns_same {l : Bytes} (h : (withReturns prev l).length = l.length) :
    withReturns prev l = l := by
  induction l generalizing prev with
  | nil => rfl
  | cons b rest ih =>
    have hrest := length_le_withReturns (some b) rest
    rw [withReturns, List.length_append, List.length_cons] at h
    rw [withReturns]
    split at h
    · simp only [List.length_cons, List.length_nil] at h
      omega
    · simp only [List.length_cons, List.length_nil] at h
      rw [ih (by omega)]
      simp [*]

theorem convertedBlock_same {block : Bytes} (h : (convertedBlock block).length = block.length) :
    convertedBlock block = block := by
  cases block with
  | nil => rfl
  | cons b rest =>
    rw [convertedBlock, withReturns_same (by simpa [convertedBlock] using h)]

theorem writeLoop_ok {l written : Bytes} {answers rest : List PutOutcome}
    (h : writeLoop l answers = .ok (.ok (), written, rest)) : written = l := by
  induction answers generalizing l written with
  | nil =>
    cases l with
    | nil =>
      simp only [writeLoop, Except.ok.injEq, Prod.mk.injEq] at h
      exact h.2.1.symm
    | cons b l => simp [writeLoop] at h
  | cons answer answers ih =>
    cases l with
    | nil =>
      simp only [writeLoop, Except.ok.injEq, Prod.mk.injEq] at h
      exact h.2.1.symm
    | cons b l =>
      cases answer with
      | error e => simp [writeLoop] at h
      | ok n =>
        rw [writeLoop] at h
        obtain ⟨⟨r, later, left⟩, hlater, h⟩ := CRun.bind_eq_ok.mp h
        simp only [pure, Except.pure, Except.ok.injEq, Prod.mk.injEq] at h
        obtain ⟨rfl, rfl, rfl⟩ := h
        rw [ih hlater, List.take_append_drop]

theorem putNextFileChunk_ok {n : ℕ} {written : Bytes} {answers left : List PutOutcome}
    (h : rfc959PutNextFileChunk ascii block answers = .ok (.ok n, written, left)) :
    written = convertedBlock block := by
  simp only [rfc959PutNextFileChunk, ascii, Bool.false_eq_true, if_false, if_true,
    convertedSize_eq, convert_eq] at h
  obtain ⟨⟨r, out, rest⟩, hwrite, h⟩ := CRun.bind_eq_ok.mp h
  simp only [pure, Except.pure, Except.ok.injEq, Prod.mk.injEq] at h
  obtain ⟨hr, rfl, rfl⟩ := h
  obtain rfl : r = .ok () := by
    cases r with
    | error e => simp [Except.map] at hr
    | ok u => rfl
  rw [writeLoop_ok hwrite]
  split
  · rfl
  · rename_i hsame
    exact (convertedBlock_same (not_not.mp hsame)).symm

/-- A connection that takes at least one byte at each write. -/
def Accepts (answers : List PutOutcome) : Prop := ∀ a ∈ answers, ∃ n, a = .ok (n + 1)

theorem writeLoop_accepts {l : Bytes} {answers : List PutOutcome} (h : Accepts answers)
    (hlen : l.length ≤ answers.length) : ∃ left, writeLoop l answers = .ok (.ok (), l, left) ∧
      Accepts left ∧ answers.length ≤ left.length + l.length := by
  induction answers generalizing l with
  | nil =>
    obtain rfl := List.length_eq_zero_iff.mp (Nat.le_zero.mp hlen)
    exact ⟨[], rfl, h, Nat.le_refl 0⟩
  | cons answer answers ih =>
    cases l with
    | nil => exact ⟨_, rfl, h, Nat.le_refl _⟩
    | cons b l =>
      obtain ⟨⟨n, rfl⟩, hrest⟩ := List.forall_mem_cons.mp h
      simp only [List.length_cons] at hlen
      obtain ⟨left, hwrite, haccepts, hleft⟩ :=
        ih (l := (b :: l).drop (min (n + 1) (b :: l).length)) hrest
          (by simp only [List.length_drop, List.length_cons]; omega)
      refine ⟨left, ?_, haccepts, ?_⟩
      · rw [writeLoop, hwrite]
        simp [bind, Except.bind, pure, Except.pure]
      · simp only [List.length_drop, List.length_cons] at hleft ⊢
        omega

theorem length_convertedBlock_le (block : Bytes) :
    (convertedBlock block).length ≤ 2 * block.length := by
  have hmore : ∀ (prev : Option UInt8) (l : Bytes), (withReturns prev l).length ≤ 2 * l.length := by
    intro prev l
    induction l generalizing prev with
    | nil => exact le_rfl
    | cons b rest ih =>
      have hrest := ih (some b)
      rw [withReturns, List.length_append, List.length_cons]
      split <;> simp only [List.length_cons, List.length_nil] <;> omega
  cases block with
  | nil => exact le_rfl
  | cons b rest =>
    have hrest := hmore (some b) rest
    simp only [convertedBlock, List.length_cons]
    omega

/-- A file is written whole when no write fails. -/
theorem putBlocks_accepts {answers : List PutOutcome} (h : Accepts answers)
    (hlen : 2 * blocks.flatten.length ≤ answers.length) :
    ∃ written left, putBlocks ascii blocks answers = .ok (.ok (), written, left) := by
  induction blocks generalizing answers with
  | nil => exact ⟨[], answers, rfl⟩
  | cons block blocks ih =>
    have hshort := length_convertedBlock_le block
    rw [List.flatten_cons, List.length_append] at hlen
    obtain ⟨left, hwrite, haccepts, hleft⟩ :=
      writeLoop_accepts (l := convertedBlock block) h (by omega)
    have hput : ∃ n, rfc959PutNextFileChunk ascii block answers =
        .ok (.ok n, convertedBlock block, left) := by
      refine ⟨(convertedBlock block).length, ?_⟩
      simp only [rfc959PutNextFileChunk, ascii, Bool.false_eq_true, if_false, if_true,
        convertedSize_eq, convert_eq]
      split
      · rw [hwrite]
        rfl
      · rename_i hsame
        rw [convertedBlock_same (not_not.mp hsame)] at hwrite ⊢
        rw [hwrite]
        rfl
    obtain ⟨n, hput⟩ := hput
    obtain ⟨later, left', hlater⟩ := ih haccepts (by omega)
    refine ⟨convertedBlock block ++ later, left', ?_⟩
    rw [putBlocks, hput]
    simp only [bind, Except.bind, hlater]
    rfl

theorem putBlocks_ok {written : Bytes} {answers left : List PutOutcome}
    (h : putBlocks ascii blocks answers = .ok (.ok (), written, left)) :
    written = (blocks.map convertedBlock).flatten := by
  induction blocks generalizing answers written with
  | nil =>
    simp only [putBlocks, Except.ok.injEq, Prod.mk.injEq] at h
    exact h.2.1.symm
  | cons block blocks ih =>
    rw [putBlocks] at h
    obtain ⟨⟨r, front, rest⟩, hput, h⟩ := CRun.bind_eq_ok.mp h
    cases r with
    | error e => simp [pure, Except.pure] at h
    | ok n =>
      obtain ⟨⟨r, later, rest'⟩, hlater, h⟩ := CRun.bind_eq_ok.mp h
      simp only [pure, Except.pure, Except.ok.injEq, Prod.mk.injEq] at h
      obtain ⟨rfl, rfl, rfl⟩ := h
      rw [putNextFileChunk_ok hput, ih hlater, List.map_cons, List.flatten_cons]

/-- A block differs from what the content needs at its first byte only. -/
theorem withReturns_block (prev : Option UInt8) (block : Bytes) :
    withReturns prev block = if block.head? = some 10 ∧ prev ≠ some 13 then
      13 :: convertedBlock block else convertedBlock block := by
  cases block with
  | nil => rfl
  | cons b rest =>
    rw [withReturns, convertedBlock]
    simp only [List.head?_cons, Option.some.injEq]
    split <;> rfl

theorem length_converted_le (prev : Option UInt8) (blocks : List Bytes) :
    (blocks.map convertedBlock).flatten.length ≤ (withReturns prev blocks.flatten).length := by
  induction blocks generalizing prev with
  | nil => exact le_rfl
  | cons block blocks ih =>
    have hrest := ih (block.getLast?.or prev)
    rw [List.map_cons, List.flatten_cons, List.flatten_cons, withReturns_append, List.length_append,
      List.length_append, withReturns_block]
    split
    · rw [List.length_cons]
      omega
    · omega

theorem converted_iff (prev : Option UInt8) (blocks : List Bytes) :
    (blocks.map convertedBlock).flatten = withReturns prev blocks.flatten ↔
      ReturnsJoined prev blocks := by
  induction blocks generalizing prev with
  | nil => simp [withReturns, ReturnsJoined]
  | cons block blocks ih =>
    rw [List.map_cons, List.flatten_cons, List.flatten_cons, withReturns_append, withReturns_block,
      ReturnsJoined, ← ih]
    by_cases hbare : block.head? = some 10 ∧ prev ≠ some 13
    · rw [if_pos hbare]
      constructor
      · intro heq
        have hcount := congrArg List.length heq
        have hrest := length_converted_le (block.getLast?.or prev) blocks
        simp only [List.length_append, List.length_cons] at hcount
        omega
      · rintro ⟨hjoined, -⟩
        exact absurd (hjoined hbare.1) hbare.2
    · rw [if_neg hbare, List.append_cancel_left_eq]
      constructor
      · intro heq
        refine ⟨fun hhead => ?_, heq⟩
        by_contra hprev
        exact hbare ⟨hhead, hprev⟩
      · exact And.right

/-- However a file is cut into blocks and however its blocks are written, the bytes written are
the content with a carriage return in front of every line feed that has none exactly when no
block begins with a line feed whose carriage return is missing. -/
theorem upload_iff (blocks : List Bytes) (answers : List PutOutcome) :
    (Accepts answers → 2 * blocks.flatten.length ≤ answers.length →
      ∃ written left, putBlocks ascii blocks answers = .ok (.ok (), written, left)) ∧
    ∀ written left, putBlocks ascii blocks answers = .ok (.ok (), written, left) →
      (written = withReturns none blocks.flatten ↔ ReturnsJoined none blocks) := by
  refine ⟨putBlocks_accepts, fun written left h => ?_⟩
  rw [putBlocks_ok h]
  exact converted_iff none blocks

/-- A line end that is cut between its bytes. -/
theorem cut_line_uploaded : ([97, 13, 10, 13, 10] : Bytes) =
    withReturns none [[97, 10, 13], [10]].flatten ↔ ReturnsJoined none [[97, 10, 13], [10]] :=
  (upload_iff [[97, 10, 13], [10]] [.ok 9, .ok 9]).2 [97, 13, 10, 13, 10] [] rfl

/-- The carriage return in front of a line feed at the beginning of a block is missing. -/
theorem first_feed_bare : ∃ blocks answers, ∃ written : Bytes,
    putBlocks ascii blocks answers = .ok (.ok (), written, []) ∧
      written ≠ withReturns none blocks.flatten := by
  refine ⟨[[97], [10, 98]], [.ok 1, .ok 2], [97, 10, 98], rfl, ?_⟩
  decide

end Upload

end Gftp.AsciiTransfers
