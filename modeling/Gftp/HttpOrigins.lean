import Gftp.HttpResponses
import Gftp.LineOrigins

/-!
Where the cells of an HTTP response come from. rfc2068_chunked_read stores and returns
what it reads and what it has stashed, so it is an own read function for sessions whose
stash and connection are own.
-/

namespace Gftp.HttpOrigins

open ByteStrings Cells Cell HttpDecoding HttpResponses LineOrigins LineSource Protocol Sockets

variable {κ : Type} [Cell κ] {own : κ → Prop}

structure OwnSession (own : κ → Prop) (s : Session κ) : Prop where
  extra : ∀ e, s.extraReadBuffer = some e → ∀ c ∈ e, own c
  datafd : OwnFd own s.datafd

def OwnReading (own : κ → Prop) (r : Reading GftpError κ) : Prop :=
  (∀ c ∈ r.stored, own c) ∧ ∀ n, r.ret = .ok n → n ≤ r.stored.length

def OwnDecoded (own : κ → Prop) : Decoded κ → Prop
  | .returned (r, s) => OwnReading own r ∧ OwnSession own s
  | .stashed stored s => (∀ c ∈ stored, own c) ∧ OwnSession own s

section Decoding

variable {fuel : ℕ} {done cur junk front : List κ} {s : Session κ} {out : Decoded κ}

theorem own_terminated (hnul : own nul) (hcur : ∀ c ∈ cur, own c) (hjunk : ∀ c ∈ junk, own c) :
    ∀ c ∈ cur ++ nul :: junk, own c := by
  refine List.forall_mem_append.mpr ⟨hcur, ?_⟩
  intro c hc
  rcases List.mem_cons.mp hc with rfl | hc
  · exact hnul
  · exact hjunk c hc

theorem own_set (hnul : own nul) (hcur : ∀ c ∈ cur, own c) (i : ℕ) :
    ∀ c ∈ cur.set i nul, own c := by
  intro c hc
  rcases List.mem_or_eq_of_mem_set hc with hc | rfl
  · exact hcur c hc
  · exact hnul

omit [Cell κ] in
theorem own_take {l : List κ} (hl : ∀ c ∈ l, own c) (n : ℕ) : ∀ c ∈ l.take n, own c :=
  fun c hc => hl c (List.mem_of_mem_take hc)

omit [Cell κ] in
theorem own_drop {l : List κ} (hl : ∀ c ∈ l, own c) (n : ℕ) : ∀ c ∈ l.drop n, own c :=
  fun c hc => hl c (List.mem_of_mem_drop hc)

theorem decodeLoop_own (hnul : own nul) (hdone : ∀ c ∈ done, own c) (hcur : ∀ c ∈ cur, own c)
    (hjunk : ∀ c ∈ junk, own c) (hs : OwnSession own s)
    (h : decodeLoop fuel done cur junk s = .ok out) : OwnDecoded own out := by
  induction fuel generalizing done cur junk s with
  | zero => simp [decodeLoop] at h
  | succ fuel ih =>
    have hmem := List.forall_mem_append.mpr ⟨hdone, own_terminated hnul hcur hjunk⟩
    unfold decodeLoop at h
    split at h
    · simp only [Except.ok.injEq] at h
      subst h
      refine ⟨⟨hmem, ?_⟩, hs⟩
      intro n hn
      obtain rfl := Except.ok.inj hn
      simp
    · split at h
      · have hstash : OwnSession own { s with extraReadBuffer := some cur } := by
          refine ⟨?_, hs.datafd⟩
          intro e he
          obtain rfl := Option.some.inj he
          exact hcur
        simp only at h
        split at h
        · simp only [Except.ok.injEq] at h
          subst h
          exact ⟨own_terminated hnul hcur hjunk, hstash⟩
        · simp only [Except.ok.injEq] at h
          subst h
          refine ⟨⟨hmem, ?_⟩, hstash⟩
          intro n hn
          obtain rfl := Except.ok.inj hn
          simp
      · rename_i i hline
        have hset := own_set hnul hcur (i + 2)
        have hmem' := List.forall_mem_append.mpr ⟨hdone, own_terminated hnul hset hjunk⟩
        simp only at h
        split at h
        · simp only [Except.ok.injEq] at h
          subst h
          exact ⟨⟨hmem', by simp⟩, ⟨hs.extra, by simp [OwnFd, Session.disconnect]⟩⟩
        · rename_i v hscan
          split at h
          · split at h
            · simp only [Except.ok.injEq] at h
              subst h
              exact ⟨⟨hmem', by simp⟩, ⟨hs.extra, hs.datafd⟩⟩
            · simp only [Except.ok.injEq] at h
              subst h
              refine ⟨⟨hmem', ?_⟩, ⟨hs.extra, hs.datafd⟩⟩
              intro n hn
              obtain rfl := Except.ok.inj hn
              simp only [List.length_append, List.length_drop, List.length_set, List.length_cons]
              omega
          · have hrest := own_drop hcur (i + 4)
            have hjunk' := own_drop (own_terminated hnul hset hjunk) ((cur.drop (i + 4)).length + 1)
            split at h
            · refine ih ?_ (own_drop hrest _) hjunk' ?_ h
              · exact List.forall_mem_append.mpr ⟨hdone, own_take hrest _⟩
              · exact ⟨hs.extra, hs.datafd⟩
            · refine ih hdone hrest hjunk' ?_ h
              exact ⟨hs.extra, hs.datafd⟩

theorem receive_own {size n : ℕ} (hnul : own nul) (hfront : ∀ c ∈ front, own c)
    (hs : OwnSession own s) (h : receive front size n s = .ok out) : OwnDecoded own out := by
  have hdecode : ∀ (mem : List κ) (s : Session κ), (∀ c ∈ mem, own c) → OwnSession own s →
      decode mem s = .ok out → OwnDecoded own out := by
    intro mem s hmem hs h
    unfold decode at h
    split at h
    · exact decodeLoop_own hnul (by simp) hmem (by simp) hs h
    · simp only [Except.ok.injEq] at h
      subst h
      refine ⟨⟨List.forall_mem_append.mpr ⟨hmem, nul_stored hnul⟩, ?_⟩, hs⟩
      intro n hn
      obtain rfl := Except.ok.inj hn
      simp
  unfold receive at h
  split at h
  · cases hread : gftpFdRead (if size = n then n - 1 else n) s.datafd with
    | mk result fd =>
      obtain ⟨hfd, hd⟩ := gftpFdRead_own hs.datafd hread
      simp only [hread] at h
      cases result with
      | error e =>
        simp only [Except.ok.injEq] at h
        subst h
        exact ⟨⟨hfront, by simp⟩, ⟨hs.extra, hfd⟩⟩
      | ok d =>
        simp only at h
        split at h
        · simp only [Except.ok.injEq] at h
          subst h
          exact ⟨⟨hfront, by simp⟩, ⟨hs.extra, hfd⟩⟩
        · have hboth := List.forall_mem_append.mpr ⟨hfront, hd d rfl⟩
          split at h
          · simp only [Except.ok.injEq] at h
            subst h
            refine ⟨⟨hboth, ?_⟩, ⟨hs.extra, hfd⟩⟩
            intro n hn
            obtain rfl := Except.ok.inj hn
            simp
          · refine hdecode _ _ hboth ?_ h
            exact ⟨hs.extra, hfd⟩
  · exact hdecode _ _ hfront hs h

end Decoding

section Reading

variable {size passes : ℕ} {s s' : Session κ} {r : Reading GftpError κ}

omit [Cell κ] in
theorem finishPass_own {again : Session κ → CRun (Chunk κ)} {out : Decoded κ}
    (hagain : ∀ s r s', again s = .ok (r, s') → OwnSession own s →
      OwnReading own r ∧ OwnSession own s')
    (hout : OwnDecoded own out) (h : finishPass again out = .ok (r, s')) :
    OwnReading own r ∧ OwnSession own s' := by
  cases out with
  | returned chunk =>
    obtain ⟨hr, hs⟩ := hout
    simp only [finishPass, Except.ok.injEq, Prod.mk.injEq] at h
    obtain ⟨rfl, rfl⟩ := h
    exact ⟨hr, hs.extra, hs.datafd⟩
  | stashed stored s =>
    obtain ⟨hstored, hs⟩ := hout
    simp only [finishPass] at h
    split at h
    · simp only [Except.ok.injEq, Prod.mk.injEq] at h
      obtain ⟨rfl, rfl⟩ := h
      exact ⟨⟨hstored, by simp⟩, hs.extra, by simp [OwnFd, Session.disconnect, Session.leave]⟩
    · obtain ⟨⟨r₁, s₁⟩, hrun, h⟩ := CRun.bind_eq_ok.mp h
      obtain ⟨⟨hcells, hcount⟩, hs₁⟩ := hagain _ _ _ hrun hs
      have hmem : ∀ c ∈ r₁.stored ++ stored.drop r₁.stored.length, own c :=
        List.forall_mem_append.mpr ⟨hcells, own_drop hstored _⟩
      cases hret : r₁.ret with
      | error e =>
        simp only [hret, pure, Except.pure, Except.ok.injEq, Prod.mk.injEq] at h
        obtain ⟨rfl, rfl⟩ := h
        exact ⟨⟨hmem, by simp⟩, hs₁⟩
      | ok n =>
        simp only [hret, pure, Except.pure, Except.ok.injEq, Prod.mk.injEq] at h
        obtain ⟨rfl, rfl⟩ := h
        refine ⟨⟨hmem, ?_⟩, hs₁.extra, hs₁.datafd⟩
        intro m hm
        obtain rfl := Except.ok.inj hm
        have hn := hcount n hret
        rw [List.length_append]
        omega

theorem startPass_own {run : CRun (Decoded κ)} {out : Decoded κ} (hnul : own nul)
    (hs : OwnSession own s) (hstart : startPass size s = some run) (h : run = .ok out) :
    OwnDecoded own out := by
  unfold startPass at hstart
  split at hstart
  · rename_i extra hextra
    split at hstart
    · obtain rfl := Option.some.inj hstart
      refine receive_own hnul (hs.extra extra hextra) ?_ h
      exact ⟨by simp, hs.datafd⟩
    · simp at hstart
  · split at hstart
    · obtain rfl := Option.some.inj hstart
      simp only [Except.ok.injEq] at h
      subst h
      refine ⟨⟨by simp, ?_⟩, hs⟩
      intro n hn
      exact Nat.le_of_eq (Except.ok.inj hn).symm
    · obtain rfl := Option.some.inj hstart
      exact receive_own hnul (by simp) hs h

theorem chunkedReadPass_own (hnul : own nul) (hs : OwnSession own s)
    (h : chunkedReadPass passes size s = .ok (r, s')) : OwnReading own r ∧ OwnSession own s' := by
  induction passes generalizing s r s' with
  | zero => simp [chunkedReadPass] at h
  | succ passes ih =>
    have henter : OwnSession own s.enter := ⟨hs.extra, hs.datafd⟩
    unfold chunkedReadPass at h
    split at h
    · simp only [Except.ok.injEq, Prod.mk.injEq] at h
      obtain ⟨rfl, rfl⟩ := h
      exact ⟨⟨by simp, by simp⟩, henter⟩
    · rename_i run hstart
      obtain ⟨out, hout, h⟩ := CRun.bind_eq_ok.mp h
      exact finishPass_own (fun s r s' hrun hs => ih hs hrun) (startPass_own hnul henter hstart hout) h

/-- The read function of HTTP requests. -/
theorem chunkedRead_own (hnul : own nul) :
    OwnRead own (OwnSession own) (rfc2068ChunkedRead (κ := κ)) where
  keeps _ _ _ _ h hs := (chunkedReadPass_own hnul hs h).2
  stores _ _ _ _ h hs := (chunkedReadPass_own hnul hs h).1.1
  counts _ _ _ _ m h hs hm := (chunkedReadPass_own hnul hs h).1.2 m hm

end Reading

end Gftp.HttpOrigins
