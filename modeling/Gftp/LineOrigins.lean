import Gftp.LineSource
import Mathlib.Logic.Relation

/-!
Where the cells of a returned line come from. Cells that may be returned are called own.
A buffer kept from an earlier use may hold others behind its counted bytes; they stay
there unless a call takes a NUL byte for the end of the buffer and reads over bytes it
still counts.
-/

namespace Gftp.LineOrigins

open ByteStrings Cells Cell LineSource
open LineReader (sizeSub)

variable {ε κ σ : Type} [Cell κ] {own : κ → Prop}

/-- Nothing in the block is another's. -/
def Fresh (own : κ → Prop) (b : GetlineBuffer κ) : Prop := ∀ c ∈ b.buffer, own c

/-- The counted bytes are own, and a terminator stands behind them. -/
structure Kept (own : κ → Prop) (b : GetlineBuffer κ) : Prop where
  counted : ∀ c ∈ (b.buffer.drop b.curpos).take b.curBufsize, own c
  ended : 0 < b.curBufsize → byteAt b.buffer (b.curpos + b.curBufsize) = some 0

def Holds (own : κ → Prop) (b : GetlineBuffer κ) : Prop := Fresh own b ∨ Kept own b

/-- The next pass reads to the front of the buffer although it still counts bytes. -/
def Abandons (b : GetlineBuffer κ) : Prop :=
  0 < b.curBufsize ∧ byteAt b.buffer b.curpos = some 0 ∧
    ¬ (b.curpos = 0 ∧ (b.maxBufsize = b.curBufsize ∨ b.eof = true))

/-- In no pass of a call are counted bytes abandoned in a block that holds others. -/
def KeepsBytes (own : κ → Prop) (read : ReadFunction ε κ σ) (rbuf : Option (GetlineBuffer κ))
    (s : σ) : Prop :=
  ∀ b, rbuf = some b → ∀ b' s',
    Relation.ReflTransGen (fun x y => Refills read x.1 x.2 y.1 y.2) (b, s) (b', s') →
      Abandons b' → Fresh own b'

/-- A read function that keeps Inv and stores and returns own cells. -/
structure OwnRead (own : κ → Prop) (Inv : σ → Prop) (read : ReadFunction ε κ σ) : Prop where
  keeps : ∀ n s r s', read n s = .ok (r, s') → Inv s → Inv s'
  stores : ∀ n s r s', read n s = .ok (r, s') → Inv s → ∀ c ∈ r.stored, own c
  counts : ∀ n s r s' m, read n s = .ok (r, s') → Inv s → r.ret = .ok m → m ≤ r.stored.length

section Parts

variable {b b' : GetlineBuffer κ} {block out : List κ} {p len : ℕ} {s : σ}
  {res : LineResult ε κ σ}

/-- The string at a place ends at the first terminator behind it. -/
theorem text_length_of_nul {n : ℕ} (h : byteAt block n = some 0) : (text block).length ≤ n := by
  induction block generalizing n with
  | nil => simp [text]
  | cons a block ih =>
    unfold text
    rw [List.takeWhile_cons]
    split
    · rename_i ha
      cases n with
      | zero =>
        simp only [byteAt, List.getElem?_cons_zero, Option.map_some, Option.some.injEq] at h
        simp [h] at ha
      | succ n =>
        have hn : byteAt block n = some 0 := by simpa [byteAt] using h
        simpa [text] using ih hn
    · simp

theorem mem_text_of_nul {n : ℕ} (h : byteAt block n = some 0) {c : κ} (hc : c ∈ text block) :
    c ∈ block.take n := by
  have hpre : text block <+: block.take n :=
    List.prefix_take_iff.mpr ⟨List.takeWhile_prefix _, text_length_of_nul h⟩
  exact hpre.subset hc

theorem byteAt_drop (block : List κ) (k n : ℕ) : byteAt (block.drop k) n = byteAt block (k + n) := by
  simp [byteAt, List.getElem?_drop]

theorem mem_copyOut {k n : ℕ} (h : byteAt block (k + n) = some 0) {c : κ}
    (hc : c ∈ copyOut block k len) : c ∈ (block.drop k).take n :=
  mem_text_of_nul (by rw [byteAt_drop]; exact h) (List.mem_of_mem_take hc)

/-- A newline is found before the terminator. -/
theorem strchr_some {k n : ℕ} {c : UInt8} (h : strchr block k c = .ok (some p))
    (hend : byteAt block (k + n) = some 0) : k ≤ p ∧ p < k + n := by
  simp only [strchr] at h
  split at h
  · simp only [Except.ok.injEq] at h
    split at h
    · rename_i hmem
      obtain rfl := Option.some.inj h
      have hidx := List.idxOf_lt_length_iff.mpr hmem
      have htext := text_length_of_nul (by rw [byteAt_drop]; exact hend : byteAt (block.drop k) n = some 0)
      rw [List.length_map] at hidx
      omega
    · simp at h
  · simp at h

/-- A stored terminator. -/
theorem byteAt_stored {off : ℕ} (h : store block off [nul] = .ok out) : byteAt out off = some 0 := by
  obtain ⟨hle, rfl⟩ := store_eq_ok_iff.mp h
  have hlen : (block.take off).length = off := by
    simp only [List.length_singleton] at hle
    rw [List.length_take]
    omega
  simp [byteAt, hlen]

theorem byteAt_of_drop {k n : ℕ} (h : out.drop k = block.drop k) (hn : k ≤ n) :
    byteAt out n = byteAt block n := by
  obtain ⟨m, rfl⟩ := Nat.exists_eq_add_of_le hn
  rw [← byteAt_drop, ← byteAt_drop, h]

/-- What a call leaves to its caller and to the next call. -/
structure Returns (own : κ → Prop) (Inv : σ → Prop) (res : LineResult ε κ σ) : Prop where
  line : ∀ c ∈ res.str, own c
  buffer : ∀ b, res.rbuf = some b → Holds own b
  state : Inv res.state

theorem nul_stored (hnul : own nul) : ∀ c ∈ [(nul : κ)], own c := by
  intro c hc
  rw [List.mem_singleton.mp hc]
  exact hnul

theorem mem_of_mem_copyOut {k : ℕ} {c : κ} (hc : c ∈ copyOut block k len) : c ∈ block :=
  List.mem_of_mem_drop (mem_of_mem_text (List.mem_of_mem_take hc))

/-- A line copied out of a fresh block. -/
theorem Returns.of_fresh {Inv : σ → Prop} (hrbuf : res.rbuf = some b) (hb : Fresh own b)
    (hline : ∀ c ∈ res.str, c ∈ b.buffer) (hs : Inv res.state) : Returns own Inv res := by
  refine ⟨fun c hc => hb c (hline c hc), ?_, hs⟩
  intro b' hb'
  obtain rfl := Option.some.inj (hrbuf.symm.trans hb')
  exact .inl hb

theorem takeLine_fresh {Inv : σ → Prop} (hnul : own nul) (hb : Fresh own b) (hs : Inv s)
    (h : takeLine (ε := ε) len b s p = .ok res) : Returns own Inv res := by
  simp only [takeLine] at h
  obtain ⟨buffer, hstore, h⟩ := CRun.bind_eq_ok.mp h
  simp only [pure, Except.pure, Except.ok.injEq] at h
  subst h
  exact .of_fresh rfl (store_forall hstore hb (nul_stored hnul)) (fun _ hc => mem_of_mem_copyOut hc) hs

theorem takeAll_fresh {Inv : σ → Prop} (hnul : own nul) (hb : Fresh own b) (hs : Inv s)
    (h : takeAll (ε := ε) len b s = .ok res) : Returns own Inv res := by
  simp only [takeAll] at h
  obtain ⟨buffer, hstore, h⟩ := CRun.bind_eq_ok.mp h
  simp only [pure, Except.pure, Except.ok.injEq] at h
  subst h
  exact .of_fresh rfl (store_forall hstore hb (nul_stored hnul)) (fun _ hc => mem_of_mem_copyOut hc) hs

theorem takeLine_kept {Inv : σ → Prop} (hb : Kept own b) (hcount : 0 < b.curBufsize)
    (hfind : strchr b.buffer b.curpos 10 = .ok (some p)) (hs : Inv s)
    (h : takeLine (ε := ε) len b s p = .ok res) : Returns own Inv res := by
  have hend := hb.ended hcount
  obtain ⟨hlow, hhigh⟩ := strchr_some hfind hend
  simp only [takeLine] at h
  obtain ⟨buffer, hstore, h⟩ := CRun.bind_eq_ok.mp h
  simp only [pure, Except.pure, Except.ok.injEq] at h
  subst h
  obtain ⟨n, hcut, hn⟩ : ∃ n, (if b.curpos < p ∧ byteAt b.buffer (p - 1) = some 13 then p - 1
      else p) = b.curpos + n ∧ b.curpos + n ≤ p := by
    split
    · exact ⟨p - 1 - b.curpos, by omega, by omega⟩
    · exact ⟨p - b.curpos, by omega, by omega⟩
  rw [hcut] at hstore
  have htail : buffer.drop (p + 1) = b.buffer.drop (p + 1) :=
    store_drop hstore (by simp only [List.length_singleton]; omega)
  have hsub : sizeSub b.curBufsize (p - b.curpos + 1) = b.curpos + b.curBufsize - (p + 1) := by
    rw [sizeSub, if_pos (by omega)]
    omega
  refine ⟨?_, ?_, hs⟩
  · intro c hc
    have hmem := mem_copyOut (byteAt_stored hstore) hc
    have hfront : buffer.take (b.curpos + n) = b.buffer.take (b.curpos + n) :=
      store_take hstore (Nat.le_refl _)
    have hpart : (buffer.drop b.curpos).take n = (b.buffer.drop b.curpos).take n := by
      rw [← Nat.add_sub_cancel_left b.curpos n, ← List.drop_take, ← List.drop_take, hfront]
    rw [hpart] at hmem
    exact hb.counted c ((List.take_subset_take_left _ (by omega)) hmem)
  · intro b' hb'
    obtain rfl := Option.some.inj hb'
    refine .inr ⟨?_, ?_⟩
    · intro c hc
      simp only [htail, hsub] at hc
      have hshift : b.buffer.drop (p + 1) = (b.buffer.drop b.curpos).drop (p + 1 - b.curpos) := by
        rw [List.drop_drop]
        congr 1
        omega
      have hcount : b.curpos + b.curBufsize - (p + 1) = b.curBufsize - (p + 1 - b.curpos) := by
        omega
      rw [hshift, hcount, ← List.drop_take] at hc
      exact hb.counted c (List.mem_of_mem_drop hc)
    · intro hpos
      simp only [hsub] at hpos ⊢
      rw [byteAt_of_drop htail (by omega), Nat.add_sub_cancel' (by omega)]
      exact hend

theorem takeAll_kept {Inv : σ → Prop} (hb : Kept own b) (hpos : b.curpos = 0) (hs : Inv s)
    (h : takeAll (ε := ε) len b s = .ok res) : Returns own Inv res := by
  simp only [takeAll] at h
  obtain ⟨buffer, hstore, h⟩ := CRun.bind_eq_ok.mp h
  simp only [pure, Except.pure, Except.ok.injEq] at h
  subst h
  refine ⟨?_, ?_, hs⟩
  · intro c hc
    have hstored := byteAt_stored hstore
    have hmem := mem_copyOut (by rw [hpos, Nat.zero_add]; exact hstored :
      byteAt buffer (b.curpos + b.curBufsize) = some 0) hc
    rw [hpos, List.drop_zero, store_take hstore (Nat.le_refl _)] at hmem
    exact hb.counted c (by rw [hpos]; exact hmem)
  · intro b' hb'
    obtain rfl := Option.some.inj hb'
    exact .inr ⟨by simp, by simp⟩

variable {Inv : σ → Prop} {read : ReadFunction ε κ σ} {s' : σ}

omit [Cell κ] in
/-- The read of a pass, like any other, stores own cells. -/
theorem OwnRead.next (hread : OwnRead own Inv read) {rlen : ℕ} {r : Reading ε κ}
    (h : nextRead read b rlen s = .ok (r, s')) (hs : Inv s) :
    Inv s' ∧ (∀ c ∈ r.stored, own c) ∧ ∀ n, r.ret = .ok n → n ≤ r.stored.length := by
  unfold nextRead at h
  split at h
  · simp only [Except.ok.injEq, Prod.mk.injEq] at h
    obtain ⟨rfl, rfl⟩ := h
    refine ⟨hs, by simp, ?_⟩
    intro n hn
    exact Nat.le_of_eq (Except.ok.inj hn).symm
  · exact ⟨hread.keeps _ _ _ _ h hs, hread.stores _ _ _ _ h hs,
      fun n hn => hread.counts _ _ _ _ n h hs hn⟩

theorem refills_fresh (hread : OwnRead own Inv read) (hnul : own nul) (hb : Fresh own b)
    (hs : Inv s) (h : Refills read b s b' s') : Fresh own b' ∧ Inv s' := by
  obtain ⟨pos, buffer, full, base, rlen, n, r, -, -, hroom, hnext, -, hfull, hrefill⟩ := h
  obtain ⟨hs', hstored, -⟩ := hread.next hnext hs
  have hbuffer : ∀ c ∈ buffer, own c := by
    unfold compact at hroom
    split at hroom
    · simp only [Except.ok.injEq, Prod.mk.injEq] at hroom
      rw [← hroom.1]
      exact hb
    · split at hroom
      · obtain ⟨moved, hmoved, hroom⟩ := CRun.bind_eq_ok.mp hroom
        simp only [pure, Except.pure, Except.ok.injEq, Prod.mk.injEq] at hroom
        rw [← hroom.1]
        exact store_forall hmoved hb fun c hc =>
          hb c (List.mem_of_mem_drop (List.mem_of_mem_take hc))
      · simp at hroom
  simp only [refill] at hrefill
  obtain ⟨done, hdone, hrefill⟩ := CRun.bind_eq_ok.mp hrefill
  simp only [pure, Except.pure, Except.ok.injEq] at hrefill
  subst hrefill
  exact ⟨store_forall hdone (store_forall hfull hbuffer hstored) (nul_stored hnul), hs'⟩

/-- A pass that goes on counts the bytes it counted before and those it read. -/
theorem refills_kept (hread : OwnRead own Inv read) (hb : Kept own b) (hs : Inv s)
    (hkeep : ¬ Abandons b) (h : Refills read b s b' s') : Kept own b' ∧ Inv s' := by
  obtain ⟨pos, buffer, full, base, rlen, n, r, hfind, hmore, hroom, hnext, hret, hfull, hrefill⟩ := h
  obtain ⟨hs', hstored, hcount⟩ := hread.next hnext hs
  have hn := hcount n hret
  have hbase : base = b.curBufsize ∧ ∀ c ∈ buffer.take base, own c := by
    unfold compact at hroom
    split at hroom
    · rename_i hempty
      simp only [Except.ok.injEq, Prod.mk.injEq] at hroom
      obtain ⟨-, rfl, -⟩ := hroom
      refine ⟨?_, by simp⟩
      rcases hempty with hzero | hnul
      · exact hzero.symm
      · by_contra hpos
        exact hkeep ⟨by omega, hnul, fun hend => hmore ⟨by omega, .inr hend⟩⟩
    · split at hroom
      · rename_i hin
        obtain ⟨moved, hmoved, hroom⟩ := CRun.bind_eq_ok.mp hroom
        simp only [pure, Except.pure, Except.ok.injEq, Prod.mk.injEq] at hroom
        obtain ⟨rfl, rfl, -⟩ := hroom
        have hlen : ((b.buffer.drop b.curpos).take b.curBufsize).length = b.curBufsize := by
          rw [List.length_take, List.length_drop]
          omega
        have hfront := store_take_end hmoved (Nat.le_refl _)
        rw [hlen, Nat.zero_add, List.take_zero, List.nil_append] at hfront
        refine ⟨rfl, ?_⟩
        intro c hc
        rw [hfront] at hc
        exact hb.counted c (List.mem_of_mem_take hc)
      · simp at hroom
  obtain ⟨rfl, hfront⟩ := hbase
  simp only [refill] at hrefill
  obtain ⟨done, hdone, hrefill⟩ := CRun.bind_eq_ok.mp hrefill
  simp only [pure, Except.pure, Except.ok.injEq] at hrefill
  subst hrefill
  refine ⟨⟨?_, ?_⟩, hs'⟩
  · intro c hc
    simp only [List.drop_zero] at hc
    rw [store_take hdone (Nat.le_refl _), store_take_end hfull hn] at hc
    rcases List.mem_append.mp hc with hc | hc
    · exact hfront c hc
    · exact hstored c (List.mem_of_mem_take hc)
  · intro _
    simp only [Nat.zero_add]
    exact byteAt_stored hdone

end Parts

section Calls

variable {Inv : σ → Prop} {read : ReadFunction ε κ σ} {b : GetlineBuffer κ} {s : σ} {len fuel : ℕ}
  {res : LineResult ε κ σ}

theorem getLineLoop_returns (hread : OwnRead own Inv read) (hnul : own nul) (hb : Holds own b)
    (hs : Inv s) (hkeep : KeepsBytes own read (some b) s)
    (h : getLineLoop read len fuel b s = .ok res) : Returns own Inv res := by
  induction fuel generalizing b s with
  | zero => simp [getLineLoop] at h
  | succ fuel ih =>
    cases getLineLoop_pass h with
    | line p hfind hcount hres =>
      rcases hb with hfresh | hkept
      · exact takeLine_fresh hnul hfresh hs hres
      · exact takeLine_kept hkept hcount hfind hs hres
    | all hfind hcount hpos hres =>
      rcases hb with hfresh | hkept
      · exact takeAll_fresh hnul hfresh hs hres
      · exact takeAll_kept hkept hpos hs hres
    | failed s' e hres rlen r hnext =>
      subst hres
      exact ⟨by simp, by simp, (hread.next hnext hs).1⟩
    | ended s' hres rlen r hnext =>
      subst hres
      exact ⟨by simp, by simp, (hread.next hnext hs).1⟩
    | again b' s' hrefills hloop =>
      have hnext : Holds own b' ∧ Inv s' := by
        rcases hb with hfresh | hkept
        · obtain ⟨hb', hs'⟩ := refills_fresh hread hnul hfresh hs hrefills
          exact ⟨.inl hb', hs'⟩
        · by_cases habandons : Abandons b
          · have hfresh := hkeep b rfl b s .refl habandons
            obtain ⟨hb', hs'⟩ := refills_fresh hread hnul hfresh hs hrefills
            exact ⟨.inl hb', hs'⟩
          · obtain ⟨hb', hs'⟩ := refills_kept hread hkept hs habandons hrefills
            exact ⟨.inr hb', hs'⟩
      refine ih hnext.1 hnext.2 ?_ hloop
      intro b₁ hb₁ b₂ s₂ hreach
      obtain rfl := Option.some.inj hb₁
      exact hkeep b rfl b₂ s₂ (.head hrefills hreach)

/-- A fresh block stays fresh. -/
theorem fresh_reaches {x y : GetlineBuffer κ × σ} (hread : OwnRead own Inv read) (hnul : own nul)
    (hb : Fresh own x.1) (hs : Inv x.2)
    (h : Relation.ReflTransGen (fun x y => Refills read x.1 x.2 y.1 y.2) x y) :
    Fresh own y.1 ∧ Inv y.2 := by
  induction h with
  | refl => exact ⟨hb, hs⟩
  | tail _ hlast ih => exact refills_fresh hread hnul ih.1 ih.2 hlast

theorem keepsBytes_fresh {rbuf : Option (GetlineBuffer κ)} (hread : OwnRead own Inv read)
    (hnul : own nul) (hb : ∀ b, rbuf = some b → Fresh own b) (hs : Inv s) :
    KeepsBytes own read rbuf s := by
  intro b hrbuf b' s' hreach _
  exact (fresh_reaches hread hnul (hb b hrbuf) hs hreach).1

/-- A call that abandons nothing returns own cells and leaves a buffer that does so again. -/
theorem gftpGetLine_returns {rbuf : Option (GetlineBuffer κ)} (hread : OwnRead own Inv read)
    (hnul : own nul) (hb : ∀ b, rbuf = some b → Holds own b) (hs : Inv s)
    (hkeep : KeepsBytes own read rbuf s)
    (h : gftpGetLine read fuel rbuf len s = .ok res) : Returns own Inv res := by
  cases rbuf with
  | some b => exact getLineLoop_returns hread hnul (hb b rfl) hs hkeep h
  | none =>
    obtain ⟨r, s', hnext, hcases⟩ := gftpGetLine_none h
    have hs' := hread.keeps _ _ _ _ hnext hs
    rcases hcases with ⟨rfl, -⟩ | ⟨n, full, buffer, -, -, hfull, hbuffer, hloop⟩
    · exact ⟨by simp, by simp, hs'⟩
    · have hreplicate : ∀ c ∈ List.replicate (len + 1) (nul : κ), own c := by
        intro c hc
        rw [List.eq_of_mem_replicate hc]
        exact hnul
      have hfresh : Fresh own (⟨buffer, 0, len, n, false⟩ : GetlineBuffer κ) :=
        store_forall hbuffer (store_forall hfull hreplicate (hread.stores _ _ _ _ hnext hs))
          (nul_stored hnul)
      refine getLineLoop_returns hread hnul (.inl hfresh) hs' ?_ hloop
      exact keepsBytes_fresh hread hnul (fun b hb => Option.some.inj hb ▸ hfresh) hs'

end Calls

end Gftp.LineOrigins
