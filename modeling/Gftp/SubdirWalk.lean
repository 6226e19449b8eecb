import Gftp.Subdirs

/-!
The walk as it goes through its list. The nodes in memory are the files visited and the
files still to come, in one linked list; what a visit finds is put at its end. So the files
visited, and those still to come, are the files selected and the entries of the directories
visited, one block for each, in the order of the visits.
-/

namespace Gftp.SubdirWalk

open ByteStrings DirectoryReads LinkedLists Subdirs

variable {σ τ : Type} {F : WalkProtocol σ} {T : WalkProtocol τ}

/-- The result with which a visit leaves the walk. -/
def result : Visit → Option ℤ
  | .left _ ret => some ret
  | _ => none

section Memory

variable {m : FileNodes} {n x lastlist : ℕ} {f : WalkFile} {files : List WalkFile}

theorem mem_newNodes : x ∈ m.newNodes files ↔ m.fresh ≤ x ∧ x < m.fresh + files.length := by
  rw [FileNodes.newNodes, List.mem_range'_1]

theorem newNodes_nodup : (m.newNodes files).Nodup := List.nodup_range'

@[simp] theorem newNodes_nil : m.newNodes [] = [] := rfl

theorem alloc_old (h : x < m.fresh) : (m.alloc files).data x = m.data x :=
  if_neg (Nat.not_le.mpr h)

theorem alloc_new : (m.newNodes files).map (m.alloc files).data = files := by
  apply List.ext_getElem
  · simp [FileNodes.newNodes]
  · intro i hi hfiles
    simp [FileNodes.newNodes, FileNodes.alloc, List.getElem?_eq_getElem hfiles]

@[simp] theorem splice_data : (m.splice lastlist files).1.data = (m.alloc files).data := by
  unfold FileNodes.splice
  simp only
  split <;> rfl

@[simp] theorem splice_fresh : (m.splice lastlist files).1.fresh = m.fresh + files.length := by
  unfold FileNodes.splice
  simp only
  split <;> rfl

theorem splice_last : (m.splice lastlist files).2 = (m.newNodes files).getLast?.getD lastlist := by
  unfold FileNodes.splice
  simp only
  split
  · rename_i hnone
    rw [List.head?_eq_none_iff.mp hnone]
    rfl
  · rfl

/-- A list is linked behind the last node of another. -/
theorem splice_linked {nodes : List ℕ} (h : Linked m.links none nodes none)
    (hnodup : (nodes ++ m.newNodes files).Nodup) (hlast : nodes.getLast? = some lastlist) :
    Linked (m.splice lastlist files).1.links none (nodes ++ m.newNodes files) none := by
  unfold FileNodes.splice
  simp only
  cases hnew : m.newNodes files with
  | nil =>
    rw [List.append_nil]
    apply h.of_next (List.nodup_append.mp hnodup).1
    · intro x hx
      simp [FileNodes.alloc, hnew, Links.linkAll]
    · intro x hx hne
      have hne : x ≠ lastlist := fun heq => hne (heq ▸ hlast)
      simp [FileNodes.alloc, hnew, Links.linkAll, Links.setNext_next_ne hne]
    · intro x hx
      obtain rfl := Option.some.inj (hlast.symm.trans hx)
      exact Links.setNext_next_self
  | cons y ys =>
    rw [hnew] at hnodup
    have hjoin := h.join hnodup hlast
    simpa [FileNodes.alloc, hnew] using hjoin

end Memory

/-- The memory holds the list of the files visited and of those still to come. -/
structure Holds (s : LoopState σ τ) (front rest : List ℕ) : Prop where
  linked : Linked s.nodes.links none (front ++ rest) none
  nodup : (front ++ rest).Nodup
  used : ∀ n ∈ front ++ rest, n < s.nodes.fresh
  templist : s.templist = rest.head?
  lastlist : (front ++ rest).getLast? = some s.lastlist

section Pass

variable {s : LoopState σ τ} {front rest : List ℕ} {n : ℕ} {v : Visited σ τ}

theorem behind_walk : (s.behind n v).walk = v.after := by
  unfold LoopState.behind
  cases v.visit <;> rfl

theorem behind_data :
    (s.behind n v).nodes.data = ((s.nodes.setData n v.curfle).alloc v.visit.files).data := by
  have hnil : ∀ m : FileNodes, (m.alloc []).data = m.data := by
    intro m
    funext x
    simp [FileNodes.alloc]
  unfold LoopState.behind
  cases v.visit with
  | listed files => exact splice_data
  | passedOver => exact (hnil _).symm
  | counted => exact (hnil _).symm
  | left exit ret => exact (hnil _).symm

/-- Behind a visit the file stands among those visited, and the new files at the end. -/
theorem Holds.behind (h : Holds s front (n :: rest)) (v : Visited σ τ) :
    Holds (s.behind n v) (front ++ [n]) (rest ++ s.nodes.newNodes v.visit.files) := by
  have hcons : front ++ [n] ++ rest = front ++ n :: rest := by simp
  have hnext : ∀ (k : Links ℕ) (new : List ℕ), Linked k none (front ++ n :: rest ++ new) none →
      k.next n = (rest ++ new).head? := by
    intro k new hk
    rw [List.append_assoc, List.cons_append] at hk
    simpa using hk.neighbours.2
  have hstay : ∀ w : Visit, w.files = [] → v.visit = w →
      s.behind n v = ⟨v.after, s.nodes.setData n v.curfle, s.nodes.links.next n, s.lastlist⟩ →
      Holds (s.behind n v) (front ++ [n]) (rest ++ s.nodes.newNodes v.visit.files) := by
    intro w hw hv hs
    rw [hv, hw, hs, newNodes_nil, List.append_nil]
    exact
      { linked := hcons ▸ h.linked
        nodup := hcons ▸ h.nodup
        used := hcons ▸ h.used
        templist := by simpa using hnext s.nodes.links [] (by simpa using h.linked)
        lastlist := hcons ▸ h.lastlist }
  cases hv : v.visit with
  | passedOver => exact hv ▸ hstay _ rfl hv (by simp [LoopState.behind, hv]; rfl)
  | counted => exact hv ▸ hstay _ rfl hv (by simp [LoopState.behind, hv]; rfl)
  | left exit ret => exact hv ▸ hstay _ rfl hv (by simp [LoopState.behind, hv]; rfl)
  | listed files =>
    have hnew : ∀ x ∈ (s.nodes.setData n v.curfle).newNodes files,
        x ∉ front ++ n :: rest := by
      intro x hx hold
      exact absurd (h.used x hold) (Nat.not_lt.mpr (mem_newNodes.mp hx).1)
    have hnodup : (front ++ n :: rest ++ (s.nodes.setData n v.curfle).newNodes files).Nodup := by
      refine List.nodup_append.mpr ⟨h.nodup, newNodes_nodup, ?_⟩
      intro x hx y hy heq
      exact hnew y hy (heq ▸ hx)
    have hlinked := splice_linked (m := s.nodes.setData n v.curfle) h.linked hnodup h.lastlist
    have hlist : front ++ [n] ++ (rest ++ s.nodes.newNodes files) =
        front ++ n :: rest ++ (s.nodes.setData n v.curfle).newNodes files := by
      simp [FileNodes.newNodes, FileNodes.setData]
    have hs : s.behind n v =
        ⟨v.after, ((s.nodes.setData n v.curfle).splice s.lastlist files).1,
          ((s.nodes.setData n v.curfle).splice s.lastlist files).1.links.next n,
          ((s.nodes.setData n v.curfle).splice s.lastlist files).2⟩ := by
      simp [LoopState.behind, hv]
    rw [hs]
    exact
      { linked := hlist ▸ hlinked
        nodup := hlist ▸ hnodup
        used := by
          intro x hx
          rw [Visit.files, hlist, List.mem_append] at hx
          rw [splice_fresh]
          rcases hx with hold | hnew
          · exact Nat.lt_add_right _ (h.used x hold)
          · exact (mem_newNodes.mp hnew).2
        templist := hnext _ _ hlinked
        lastlist := by
          rw [Visit.files, hlist, List.getLast?_append, h.lastlist, splice_last]
          cases ((s.nodes.setData n v.curfle).newNodes files).getLast? <;> rfl }

theorem Holds.data_old (h : Holds s front (n :: rest)) {x : ℕ} (hx : x ∈ front ++ rest) :
    (s.behind n v).nodes.data x = s.nodes.data x := by
  have hmem : x ∈ front ++ n :: rest := by
    rw [List.mem_append] at hx ⊢
    exact hx.imp_right (List.mem_cons_of_mem _)
  have hne : x ≠ n := by
    have hnodup := (List.nodup_middle.mp h.nodup)
    exact fun heq => (List.nodup_cons.mp hnodup).1 (heq ▸ hx)
  rw [behind_data, alloc_old (m := s.nodes.setData n v.curfle) (h.used x hmem)]
  exact Function.update_of_ne hne ..

theorem Holds.data_visited (h : Holds s front (n :: rest)) :
    (s.behind n v).nodes.data n = v.curfle := by
  rw [behind_data, alloc_old (m := s.nodes.setData n v.curfle) (h.used n (by simp))]
  exact Function.update_self ..

theorem data_new :
    (s.nodes.newNodes v.visit.files).map (s.behind n v).nodes.data = v.visit.files := by
  rw [behind_data]
  exact alloc_new

/-- The files still to come behind a visit. -/
theorem Holds.data_rest (h : Holds s front (n :: rest)) :
    (rest ++ s.nodes.newNodes v.visit.files).map (s.behind n v).nodes.data =
      rest.map s.nodes.data ++ v.visit.files := by
  rw [List.map_append, data_new]
  congr 1
  exact List.map_congr_left fun x hx => h.data_old (List.mem_append_right _ hx)

end Pass

variable (F T) in
/-- From a walk with files to come, these visits lead to another one. Only the last visit may
leave the walk. -/
inductive Explored : Walk σ τ → List WalkFile → List (Visited σ τ) → Walk σ τ →
    List WalkFile → Prop
  | refl (w : Walk σ τ) (files : List WalkFile) : Explored w files [] w files
  | leave {w : Walk σ τ} {f : WalkFile} {rest : List WalkFile} {ret : ℤ}
      (hret : result (visited F T w f).visit = some ret) :
      Explored w (f :: rest) [visited F T w f] (visited F T w f).after rest
  | pass {w w' : Walk σ τ} {f : WalkFile} {rest pending : List WalkFile}
      {vs : List (Visited σ τ)} (hgo : result (visited F T w f).visit = none)
      (h : Explored (visited F T w f).after (rest ++ (visited F T w f).visit.files) vs w'
        pending) :
      Explored w (f :: rest) (visited F T w f :: vs) w' pending

namespace Explored

variable {w w' : Walk σ τ} {files pending : List WalkFile} {vs : List (Visited σ τ)}

/-- The files visited and those still to come are the files of the beginning and what the
visits have found. -/
theorem queue (h : Explored F T w files vs w' pending) :
    files ++ vs.flatMap (·.visit.files) = vs.map (·.met) ++ pending := by
  induction h with
  | refl w files => simp
  | @leave w f rest ret hret =>
    have hfiles : (visited F T w f).visit.files = [] := by
      cases hv : (visited F T w f).visit with
      | left exit ret => rfl
      | _ => simp [result, hv] at hret
    rw [List.flatMap_singleton, hfiles, List.append_nil]
    rfl
  | @pass w w' f rest pending vs hgo h ih =>
    rw [List.flatMap_cons, List.map_cons, List.cons_append, List.cons_append, ← ih,
      List.append_assoc]
    rfl

/-- In front of a visit. -/
theorem before {front behind : List (Visited σ τ)} {v : Visited σ τ}
    (h : Explored F T w files (front ++ v :: behind) w' pending) :
    ∃ rest, Explored F T w files front v.before (v.met :: rest) ∧
      v = visited F T v.before v.met := by
  induction front generalizing w files with
  | nil =>
    cases h with
    | leave hret => exact ⟨_, refl .., rfl⟩
    | pass hgo h => exact ⟨_, refl .., rfl⟩
  | cons u front ih =>
    cases hfront : front ++ v :: behind with
    | nil => simp at hfront
    | cons x xs =>
      rw [List.cons_append, hfront] at h
      cases h with
      | pass hgo h =>
        rw [← hfront] at h
        obtain ⟨rest, hrest, hv⟩ := ih h
        exact ⟨rest, hrest.pass hgo, hv⟩

/-- What each visit keeps, of the walk and of the files still to come, holds at each visit. -/
theorem invariant (h : Explored F T w files vs w' pending) (P : Walk σ τ → Prop)
    (Q : WalkFile → Prop) (hw : P w) (hfiles : ∀ f ∈ files, Q f)
    (hvisit : ∀ w f, P w → Q f → P (visited F T w f).after ∧
      ∀ g ∈ (visited F T w f).visit.files, Q g) :
    ∀ v ∈ vs, P v.before ∧ Q v.met := by
  induction h with
  | refl => exact fun v hv => absurd hv List.not_mem_nil
  | @leave w f rest ret hret =>
    intro v hv
    obtain rfl := List.mem_singleton.mp hv
    exact ⟨hw, hfiles f (List.mem_cons_self ..)⟩
  | @pass w w' f rest pending vs hgo h ih =>
    have hf := hfiles f (List.mem_cons_self ..)
    obtain ⟨hafter, hnew⟩ := hvisit w f hw hf
    intro v hv
    rcases List.mem_cons.mp hv with rfl | hv
    · exact ⟨hw, hf⟩
    · refine ih hafter ?_ v hv
      intro g hg
      rcases List.mem_append.mp hg with hold | hfound
      · exact hfiles g (List.mem_cons_of_mem _ hold)
      · exact hnew g hfound

end Explored

/-- Where so many passes of the loop lead. -/
structure LoopRun (fuel : ℕ) (s s' : LoopState σ τ) (front rest done pending : List ℕ) :
    Prop where
  explored : Explored F T s.walk (rest.map s.nodes.data) (subdirsVisits F T fuel s) s'.walk
    (pending.map s'.nodes.data)
  holds : Holds s' (front ++ done) pending
  begins : rest <+: done ++ pending
  done : done.map s'.nodes.data = (subdirsVisits F T fuel s).map (·.curfle)
  front : ∀ n ∈ front, s'.nodes.data n = s.nodes.data n
  ended : ∀ e, subdirsLoop F T fuel s = .ok e → e.2 = s' ∧
    (e.1 = none → pending = [] ∧ ∀ v ∈ subdirsVisits F T fuel s, result v.visit = none) ∧
    ∀ ret, e.1 = some ret → ∃ v ∈ subdirsVisits F T fuel s, result v.visit = some ret

section Passes

variable {s : LoopState σ τ} {n : ℕ} {v : Visited σ τ}

theorem loop_ends (fuel : ℕ) (h : s.templist = none) :
    subdirsVisits F T (fuel + 1) s = [] ∧ subdirsLoop F T (fuel + 1) s = .ok (none, s) := by
  simp [subdirsVisits, subdirsLoop, h]

theorem loop_leaves {ret : ℤ} (fuel : ℕ) (h : s.templist = some n)
    (hv : v = visited F T s.walk (s.nodes.data n)) (hret : result v.visit = some ret) :
    subdirsVisits F T (fuel + 1) s = [v] ∧
      subdirsLoop F T (fuel + 1) s = .ok (some ret, s.behind n v) ∧ v.visit.files = [] := by
  simp only [subdirsVisits, subdirsLoop, h, ← hv]
  cases hvisit : v.visit with
  | left exit ret' =>
    rw [hvisit] at hret
    obtain rfl := Option.some.inj hret
    exact ⟨rfl, rfl, rfl⟩
  | _ => simp [result, hvisit] at hret

theorem loop_passes (fuel : ℕ) (h : s.templist = some n)
    (hv : v = visited F T s.walk (s.nodes.data n)) (hgo : result v.visit = none) :
    subdirsVisits F T (fuel + 1) s = v :: subdirsVisits F T fuel (s.behind n v) ∧
      subdirsLoop F T (fuel + 1) s = subdirsLoop F T fuel (s.behind n v) := by
  simp only [subdirsVisits, subdirsLoop, h, ← hv]
  cases hvisit : v.visit with
  | left exit ret => simp [result, hvisit] at hgo
  | _ => exact ⟨rfl, rfl⟩

end Passes

theorem loop_runs {s : LoopState σ τ} {front rest : List ℕ} (h : Holds s front rest)
    (fuel : ℕ) : ∃ s' done pending, LoopRun (F := F) (T := T) fuel s s' front rest done pending := by
  induction fuel generalizing s front rest with
  | zero =>
    refine ⟨s, [], rest, Explored.refl .., by simpa using h, List.prefix_refl _, rfl,
      fun _ _ => rfl, ?_⟩
    intro e he
    simp [subdirsLoop] at he
  | succ fuel ih =>
    cases rest with
    | nil =>
      obtain ⟨hvisits, hloop⟩ := loop_ends (F := F) (T := T) fuel h.templist
      refine ⟨s, [], [], ?_, by simpa using h, List.prefix_refl _, ?_, fun _ _ => rfl, ?_⟩
      · rw [hvisits]
        exact Explored.refl ..
      · rw [hvisits]
        rfl
      · intro e he
        rw [hloop] at he
        obtain rfl := Except.ok.inj he
        simp [hvisits]
    | cons n rest =>
      obtain ⟨v, hv⟩ : ∃ v, v = visited F T s.walk (s.nodes.data n) := ⟨_, rfl⟩
      have hbehind := h.behind v
      have hrest := h.data_rest (v := v)
      have hdata := h.data_visited (v := v)
      have hold : ∀ x ∈ front, (s.behind n v).nodes.data x = s.nodes.data x :=
        fun x hx => h.data_old (List.mem_append_left rest hx)
      have hwalk : (s.behind n v).walk = v.after := behind_walk
      cases hret : result v.visit with
      | some ret =>
        obtain ⟨hvisits, hloop, hnone⟩ := loop_leaves fuel h.templist hv hret
        rw [hnone, newNodes_nil, List.append_nil] at hbehind hrest
        rw [List.append_nil] at hrest
        refine ⟨_, [n], rest, ?_, hbehind, List.prefix_refl _, ?_, hold, ?_⟩
        · rw [hvisits, hrest, hwalk, hv]
          rw [hv] at hret
          exact Explored.leave hret
        · rw [hvisits, List.map_singleton, List.map_singleton, hdata]
        · intro e he
          rw [hloop] at he
          obtain rfl := Except.ok.inj he
          simp [hvisits, hret]
      | none =>
        obtain ⟨s', done, pending, hrun⟩ := ih hbehind
        obtain ⟨hvisits, hloop⟩ := loop_passes fuel h.templist hv hret
        have hexplored := hrun.explored
        have hholds := hrun.holds
        rw [hrest, hwalk] at hexplored
        rw [List.append_assoc] at hholds
        refine ⟨s', n :: done, pending, ?_, hholds, ?_, ?_, ?_, ?_⟩
        · rw [hvisits, hv]
          rw [hv] at hret hexplored
          exact Explored.pass hret hexplored
        · exact (List.prefix_cons_inj n).mpr ((List.prefix_append rest _).trans hrun.begins)
        · rw [hvisits, List.map_cons, List.map_cons, hrun.done,
            hrun.front n (List.mem_append_right _ (List.mem_singleton_self n)), hdata]
        · intro x hx
          exact (hrun.front x (List.mem_append_left _ hx)).trans (hold x hx)
        · intro e he
          rw [hloop] at he
          obtain ⟨hs', hnone, hsome⟩ := hrun.ended e he
          rw [hvisits]
          refine ⟨hs', fun hend => ?_, fun ret hleft => ?_⟩
          · obtain ⟨hpending, hall⟩ := hnone hend
            exact ⟨hpending, List.forall_mem_cons.mpr ⟨hret, hall⟩⟩
          · obtain ⟨u, hu, hleft⟩ := hsome ret hleft
            exact ⟨u, List.mem_cons_of_mem _ hu, hleft⟩

section Visits

variable {w : Walk σ τ} {f : WalkFile}

/-- What a visit can do. -/
theorem visited_cases :
    ((lookupCurfleInDeviceHash f w.deviceHash).1 = true ∧
      visited F T w f = ⟨w, f, { w with deviceHash := (lookupCurfleInDeviceHash f w.deviceHash).2 },
        f, .passedOver⟩) ∨
    (lookupCurfleInDeviceHash f w.deviceHash).1 = false ∧
      ∃ ret r f' w', followLink F w.fromreq f = (ret, r, f') ∧
        w' = { w with
          deviceHash := (lookupCurfleInDeviceHash f w.deviceHash).2
          fromreq := r } ∧
        (ret < 0 ∧ visited F T w f = ⟨w, f, w', f', .left .stat ret⟩ ∨
          0 ≤ ret ∧ sIsdir f'.stMode = false ∧
            visited F T w f = ⟨w, f, { w' with numfiles := w'.numfiles + 1 }, f', .counted⟩ ∨
          0 ≤ ret ∧ sIsdir f'.stMode = true ∧
            visited F T w f =
              ⟨w, f, (enterDirectory F T w' f').1, f', (enterDirectory F T w' f').2⟩) := by
  rcases hlook : lookupCurfleInDeviceHash f w.deviceHash with ⟨found, hash⟩
  cases found with
  | true => exact .inl ⟨rfl, by simp [visited, visit, hlook]⟩
  | false =>
    rcases hlink : followLink F w.fromreq f with ⟨ret, r, f'⟩
    refine .inr ⟨rfl, ret, r, f', _, rfl, rfl, ?_⟩
    by_cases hret : ret < 0
    · exact .inl ⟨hret, by simp [visited, visit, hlook, hlink, hret]⟩
    · cases hdir : sIsdir f'.stMode with
      | false =>
        exact .inr (.inl ⟨Int.not_lt.mp hret, rfl, by simp [visited, visit, hlook, hlink, hret, hdir]⟩)
      | true =>
        exact .inr (.inr ⟨Int.not_lt.mp hret, rfl, by simp [visited, visit, hlook, hlink, hret, hdir]⟩)

/-- What the entering of a directory can do. -/
theorem enterDirectory_cases {w₀ : Walk σ τ} (hw₀ : w₀ = { w with
      numdirs := w.numdirs + 1
      oldfromdir := w.oldfromdir.or w.fromreq.directory }) :
    ∃ ret r w₁, gftpSetDirectory F w.fromreq (some f.file) = (ret, r) ∧
      w₁ = { w₀ with fromreq := r } ∧
      (ret < 0 ∧ enterDirectory F T w f = (w₁, .left .setDirectory ret) ∨
        0 ≤ ret ∧ ∃ ret' w₂, enterOther T w₁ f = (ret', w₂) ∧
          (ret' < 0 ∧ enterDirectory F T w f = (w₂, .left .setOtherDirectory ret') ∨
            0 ≤ ret' ∧ ∃ g w₃, g = gftpGetDirListing F T w₂.fromreq w₂.toreq f.existsOtherSide ∧
              w₃ = { w₂ with fromreq := g.fromreq, toreq := g.toreq } ∧
              (g.ret < 0 ∧ enterDirectory F T w f = (w₃, .left .listing g.ret) ∨
                0 ≤ g.ret ∧ enterDirectory F T w f = (w₃, .listed g.files)))) := by
  subst hw₀
  rcases hset : gftpSetDirectory F w.fromreq (some f.file) with ⟨ret, r⟩
  refine ⟨ret, r, _, rfl, rfl, ?_⟩
  by_cases hret : ret < 0
  · exact .inl ⟨hret, by simp [enterDirectory, hset, hret]⟩
  · refine .inr ⟨Int.not_lt.mp hret, ?_⟩
    rcases hother : enterOther T { w with
      numdirs := w.numdirs + 1
      oldfromdir := w.oldfromdir.or w.fromreq.directory
      fromreq := r } f with ⟨ret', w₂⟩
    refine ⟨ret', w₂, rfl, ?_⟩
    by_cases hret' : ret' < 0
    · exact .inl ⟨hret', by simp [enterDirectory, hset, hret, hother, hret']⟩
    · refine .inr ⟨Int.not_lt.mp hret', _, _, rfl, rfl, ?_⟩
      by_cases hlist : (gftpGetDirListing F T w₂.fromreq w₂.toreq f.existsOtherSide).ret < 0
      · exact .inl ⟨hlist, by simp [enterDirectory, hset, hret, hother, hret', hlist]⟩
      · exact .inr ⟨Int.not_lt.mp hlist,
          by simp [enterDirectory, hset, hret, hother, hret', hlist]⟩

/-- A link that is followed keeps its name and its numbers. -/
theorem followLink_file {r r' : WalkRequest σ} {f f' : WalkFile} {ret : ℤ}
    (h : followLink F r f = (ret, r', f')) :
    f' = { f with stMode := f'.stMode, size := f'.size } := by
  unfold followLink at h
  simp only at h
  split_ifs at h <;> (obtain ⟨-, -, rfl⟩ := h; rfl)

@[simp] theorem enterOther_fromreq : (enterOther T w f).2.fromreq = w.fromreq := by
  unfold enterOther
  cases w.toreq with
  | none => rfl
  | some toreq =>
    simp only
    split_ifs <;> rfl

/-- What becomes of the other side depends on its request alone. -/
theorem enterOther_toreq {w' : Walk σ τ} (h : w'.toreq = w.toreq) :
    (enterOther T w' f).2.toreq = (enterOther T w f).2.toreq := by
  cases hw : w.toreq with
  | none => simp [enterOther, h, hw]
  | some toreq =>
    simp only [enterOther, h, hw]
    split_ifs <;> rfl

/-- The request of the first side in the directory that a visit changes to. -/
def enteredRequest (F : WalkProtocol σ) (v : Visited σ τ) : WalkRequest σ :=
  (gftpSetDirectory F (followLink F v.before.fromreq v.met).2.1 (some v.met.file)).2

/-- The table of the other side and its request when the directory of a visit has been listed
there. -/
def enteredOther (T : WalkProtocol τ) (v : Visited σ τ) : Option DirHash × Option (WalkRequest τ) :=
  (otherSide T v.curfle.existsOtherSide (enterOther T v.before v.curfle).2.toreq).2

/-- The files that a visit of a directory lists. -/
theorem visited_listed {v : Visited σ τ} (hv : v = visited F T w f) {files : List WalkFile}
    (h : v.visit = .listed files) :
    sIsdir v.curfle.stMode = true ∧
      ∃ r ret toreq, gftpSetDirectory F r (some f.file) = (ret, enteredRequest F v) ∧ 0 ≤ ret ∧
        (otherSide T v.curfle.existsOtherSide toreq).2 = enteredOther T v ∧
          ∃ g, g = gftpGetDirListing F T (enteredRequest F v) toreq v.curfle.existsOtherSide ∧
            0 ≤ g.ret ∧ files = g.files ∧ v.after.fromreq = g.fromreq ∧ v.after.toreq = g.toreq := by
  subst hv
  rcases visited_cases (F := F) (T := T) (w := w) (f := f) with
    ⟨-, hv⟩ | ⟨-, _, r, f', w', hlink, rfl, ⟨-, hv⟩ | ⟨-, -, hv⟩ | ⟨-, hdir, hv⟩⟩
  · simp [hv] at h
  · simp [hv] at h
  · simp [hv] at h
  · have hfile : f'.file = f.file := by rw [followLink_file hlink]
    rw [hv] at h ⊢
    refine ⟨hdir, r, ?_⟩
    obtain ⟨ret, r', w₁, hset, hw₁, ⟨-, henter⟩ | ⟨hret, _, w₂, hother, ⟨-, henter⟩ |
      ⟨-, g, _, hg, rfl, ⟨-, henter⟩ | ⟨hlist, henter⟩⟩⟩⟩ :=
        enterDirectory_cases (F := F) (T := T)
          (w := { w with
            deviceHash := (lookupCurfleInDeviceHash f w.deviceHash).2
            fromreq := r }) (f := f') rfl
    · simp [henter] at h
    · simp [henter] at h
    · simp [henter] at h
    · rw [henter] at h
      have hreqs : w₁.fromreq = r' ∧ w₁.toreq = w.toreq := by
        rw [hw₁]
        exact ⟨rfl, rfl⟩
      have hfrom : w₂.fromreq = r' :=
        (congrArg (·.2.fromreq) hother).symm.trans (enterOther_fromreq.trans hreqs.1)
      have hto : w₂.toreq = (enterOther T w f').2.toreq :=
        (congrArg (·.2.toreq) hother).symm.trans (enterOther_toreq hreqs.2)
      rw [hfile] at hset
      have hentered : ∀ a c x, enteredRequest F (⟨w, f, a, c, x⟩ : Visited σ τ) = r' := by
        intro a c x
        rw [enteredRequest, hlink, hset]
      rw [hentered, henter]
      refine ⟨ret, w₂.toreq, hset, hret, ?_, g, ?_, hlist, (Visit.listed.inj h).symm, rfl, rfl⟩
      · rw [enteredOther, hto]
      · rw [hg, hfrom]

/-- The visit leaves the walk with a negative result only. -/
theorem result_negative {ret : ℤ} (h : result (visited F T w f).visit = some ret) : ret < 0 := by
  rcases visited_cases (F := F) (T := T) (w := w) (f := f) with
    ⟨-, hv⟩ | ⟨-, _, _, f', w', -, -, ⟨hneg, hv⟩ | ⟨-, -, hv⟩ | ⟨-, -, hv⟩⟩
  · simp [hv, result] at h
  · rw [hv] at h
    exact Option.some.inj h ▸ hneg
  · simp [hv, result] at h
  · rw [hv] at h
    obtain ⟨_, _, _, -, -, ⟨hneg, henter⟩ | ⟨-, _, _, -, ⟨hneg, henter⟩ |
      ⟨-, _, _, -, -, ⟨hneg, henter⟩ | ⟨-, henter⟩⟩⟩⟩ :=
        enterDirectory_cases (F := F) (T := T) (w := w') (f := f') rfl
    · rw [henter] at h
      exact Option.some.inj h ▸ hneg
    · rw [henter] at h
      exact Option.some.inj h ▸ hneg
    · rw [henter] at h
      exact Option.some.inj h ▸ hneg
    · simp [henter, result] at h

/-- A directory that is not passed over is listed, unless the walk is left there. -/
theorem directory_listed (hgo : result (visited F T w f).visit = none)
    (hpassed : (visited F T w f).visit ≠ .passedOver)
    (hdir : sIsdir (visited F T w f).curfle.stMode = true) :
    ∃ files, (visited F T w f).visit = .listed files := by
  rcases visited_cases (F := F) (T := T) (w := w) (f := f) with
    ⟨-, hv⟩ | ⟨-, _, _, f', w', -, -, ⟨-, hv⟩ | ⟨-, hfile, hv⟩ | ⟨-, -, hv⟩⟩
  · exact absurd (congrArg Visited.visit hv) hpassed
  · simp [hv, result] at hgo
  · rw [hv] at hdir
    exact absurd hdir (by simp [hfile])
  · rw [hv] at hgo ⊢
    obtain ⟨_, _, _, -, -, ⟨-, henter⟩ | ⟨-, _, _, -, ⟨-, henter⟩ |
      ⟨-, _, _, -, -, ⟨-, henter⟩ | ⟨-, henter⟩⟩⟩⟩ :=
        enterDirectory_cases (F := F) (T := T) (w := w') (f := f') rfl
    · simp [henter, result] at hgo
    · simp [henter, result] at hgo
    · simp [henter, result] at hgo
    · exact ⟨_, congrArg Prod.snd henter⟩

/-- A file keeps its name and its numbers. -/
theorem visited_kept : (visited F T w f).curfle =
    { f with stMode := (visited F T w f).curfle.stMode, size := (visited F T w f).curfle.size } := by
  rcases visited_cases (F := F) (T := T) (w := w) (f := f) with
    ⟨-, hv⟩ | ⟨-, _, _, f', w', hlink, -, ⟨-, hv⟩ | ⟨-, -, hv⟩ | ⟨-, -, hv⟩⟩
  · rw [hv]
  all_goals
    rw [hv]
    exact followLink_file hlink

end Visits

section Listing

theorem mem_readEntries {l : List NextFile} {g : WalkFile} (h : g ∈ readEntries l) :
    .entry g ∈ l := by
  induction l with
  | nil => cases h
  | cons x l ih =>
    cases x with
    | failed e => cases h
    | entry fle =>
      rcases List.mem_cons.mp h with rfl | hrest
      · exact List.mem_cons_self ..
      · exact List.mem_cons_of_mem _ (ih hrest)

/-- What stays of an entry in a list, and its path. -/
theorem listEntry_data (r : WalkRequest σ) (toreq : Option (WalkRequest τ))
    (dirhash : Option DirHash) (g : WalkFile) :
    (listEntry r toreq dirhash g).file = filePath r g.file ∧
      (listEntry r toreq dirhash g).stMode = g.stMode ∧
        (listEntry r toreq dirhash g).stDev = g.stDev ∧
          (listEntry r toreq dirhash g).stIno = g.stIno := by
  unfold listEntry lookUp
  split <;> exact ⟨rfl, rfl, rfl, rfl⟩

variable {r : WalkRequest σ} {toreq : Option (WalkRequest τ)} {other : Bool}

/-- The reading of a directory that could be read. -/
theorem dirListing_read {g : Reading σ τ} (hg : g = gftpGetDirListing F T r toreq other)
    (h : 0 ≤ g.ret) :
    0 ≤ (F.listFiles r).1.ret ∧ g.fromreq = (F.listFiles r).2 ∧
      g.toreq = (otherSide T other toreq).2.2 ∧
        g.files = ((readEntries (F.listFiles r).1.files).filter notDots).map
          (listEntry g.fromreq g.toreq (otherSide T other toreq).2.1) := by
  subst hg
  unfold gftpGetDirListing at h ⊢
  simp only at h ⊢
  split_ifs at h ⊢ with hfatal hlist
  · exact absurd h (by simp [hfatal, Protocol.GftpError.code])
  · exact absurd h (Int.not_le.mpr hlist)
  · exact ⟨h, rfl, rfl, rfl⟩

end Listing

/-- A file selected is put under its path. -/
def PutInPlace (σ : Type) (new old : WalkFile) : Prop :=
  (∃ r : WalkRequest σ, new.file = filePath r old.file) ∧ new.stMode = old.stMode ∧
    new.stDev = old.stDev ∧ new.stIno = old.stIno

/-- The path is one that a request of a kind gives. -/
def PlacedBy (I : WalkRequest σ → Prop) (new old : WalkFile) : Prop :=
  (∃ r, I r ∧ new.file = filePath r old.file) ∧ new.stMode = old.stMode ∧
    new.stDev = old.stDev ∧ new.stIno = old.stIno

section Start

variable {t : WalkTransfer σ τ} {s : Setup σ τ}

theorem start_holds (h : s.files ≠ []) :
    Holds (loopStart t s) [] (List.range s.files.length) := by
  have hpos : 0 < s.files.length := List.length_pos_iff.mpr h
  have hnodes : ∀ m : FileNodes, m.fresh = 0 → m.newNodes s.files = List.range s.files.length := by
    intro m hm
    rw [FileNodes.newNodes, hm, List.range_eq_range']
  exact
    { linked := by
        simp only [loopStart, firstNodes, FileNodes.alloc, hnodes ⟨_, _, 0⟩ rfl]
        exact linked_linkAll List.nodup_range
      nodup := List.nodup_range
      used := by simp [loopStart, firstNodes, FileNodes.alloc]
      templist := by
        rw [List.head?_range, if_neg (by omega)]
        rfl
      lastlist := by
        rw [List.nil_append, List.getLast?_range, if_neg (by omega)]
        rfl }

theorem start_data :
    (List.range s.files.length).map (loopStart t s).nodes.data = s.files := by
  rw [List.range_eq_range']
  exact alloc_new

/-- The files selected are put in place by requests that the question for a size keeps. -/
theorem setupLoop_placed {I : WalkRequest σ → Prop} {toreq : Option (WalkRequest τ)}
    {dirhash : Option DirHash} {files : List WalkFile} {r r' : WalkRequest σ} {new : List WalkFile}
    (hI : ∀ r p, I r → I (gftpGetFileSize F r p).2) (hr : I r)
    (h : setupLoop F toreq dirhash r files = (true, new, r')) :
    I r' ∧ List.Forall₂ (PlacedBy I) new files := by
  induction files generalizing r r' new with
  | nil =>
    obtain ⟨-, rfl, rfl⟩ := h
    exact ⟨hr, .nil⟩
  | cons f files ih =>
    have hlook : (lookUp dirhash (lastName f.file) f).file = f.file ∧
        (lookUp dirhash (lastName f.file) f).stMode = f.stMode ∧
        (lookUp dirhash (lastName f.file) f).stDev = f.stDev ∧
        (lookUp dirhash (lastName f.file) f).stIno = f.stIno := by
      unfold lookUp
      split <;> exact ⟨rfl, rfl, rfl, rfl⟩
    obtain ⟨ok, r₁, f', hknown⟩ : ∃ ok r₁ f', knownSize F r (lookUp dirhash (lastName f.file) f) =
        (ok, r₁, f') := ⟨_, _, _, rfl⟩
    have hf' : I r₁ ∧ f'.file = f.file ∧ f'.stMode = f.stMode ∧ f'.stDev = f.stDev ∧
        f'.stIno = f.stIno := by
      unfold knownSize at hknown
      split at hknown
      · obtain ⟨-, rfl, rfl⟩ := hknown
        exact ⟨hI _ _ hr, hlook⟩
      · obtain ⟨-, rfl, rfl⟩ := hknown
        exact ⟨hr, hlook⟩
    cases ok with
    | false => simp [setupLoop, hknown] at h
    | true =>
      obtain ⟨ok, rest, r₂, hrest⟩ : ∃ ok rest r₂, setupLoop F toreq dirhash r₁ files =
          (ok, rest, r₂) := ⟨_, _, _, rfl⟩
      simp only [setupLoop, hknown, hrest, if_true, Prod.mk.injEq] at h
      obtain ⟨rfl, rfl, rfl⟩ := h
      obtain ⟨hr₂, hplaced⟩ := ih hf'.1 hrest
      exact ⟨hr₂, .cons ⟨⟨r₁, hf'.1, congrArg (filePath r₁) hf'.2.1⟩, hf'.2.2⟩ hplaced⟩

/-- The files selected are put in place. -/
theorem setupLoop_selected {toreq : Option (WalkRequest τ)} {dirhash : Option DirHash}
    {files : List WalkFile} {r r' : WalkRequest σ} {new : List WalkFile}
    (h : setupLoop F toreq dirhash r files = (true, new, r')) :
    List.Forall₂ (PutInPlace σ) new files := by
  have hplaced := (setupLoop_placed (I := fun _ => True) (fun _ _ _ => trivial) trivial h).2
  refine hplaced.imp fun new old h => ?_
  obtain ⟨⟨r, -, hfile⟩, hkept⟩ := h
  exact ⟨⟨r, hfile⟩, hkept⟩

theorem setup_selected (h : (setupCurrentDirectoryTransfer F T t).ok = true) :
    List.Forall₂ (PutInPlace σ) (setupCurrentDirectoryTransfer F T t).files t.files := by
  unfold setupCurrentDirectoryTransfer at h ⊢
  by_cases hfatal : (otherSide T true t.toreq).1 = Protocol.GftpError.fatal.code
  · simp [hfatal] at h
  · simp only [if_neg hfatal] at h ⊢
    exact setupLoop_selected (Prod.ext h rfl)

/-- A walk whose loop is entered. -/
structure Entered (F : WalkProtocol σ) (T : WalkProtocol τ) (t : WalkTransfer σ τ) : Prop where
  selected : t.files ≠ []
  ok : (setupCurrentDirectoryTransfer F T t).ok = true

theorem Entered.files (h : Entered F T t) : (setupCurrentDirectoryTransfer F T t).files ≠ [] := by
  intro hnil
  have hlength := (setup_selected h.ok).length_eq
  rw [hnil] at hlength
  exact h.selected (List.length_eq_zero_iff.mp hlength.symm)

theorem Entered.visits {fuel : ℕ} (h : Entered F T t) : walkVisits F T fuel t =
    subdirsVisits F T fuel (loopStart t (setupCurrentDirectoryTransfer F T t)) :=
  if_pos ⟨h.selected, h.ok⟩

/-- Where so many passes of a walk lead. -/
theorem Entered.runs (h : Entered F T t) (fuel : ℕ) : ∃ s' done pending,
    LoopRun (F := F) (T := T) fuel (loopStart t (setupCurrentDirectoryTransfer F T t)) s' []
      (List.range (setupCurrentDirectoryTransfer F T t).files.length) done pending :=
  loop_runs (start_holds h.files) fuel

/-- The ways in which a walk returns. -/
theorem returned_cases {update : Bool} {fuel : ℕ} {r : Walked σ τ}
    (h : gftpGetAllSubdirs F T update fuel t = .ok r) :
    (¬Entered F T t ∧ r.ret < 0 ∧
      (t.files = [] ∧ r.walk.fromreq = t.fromreq ∧ r.walk.toreq = t.toreq ∨
        t.files ≠ [] ∧ r.walk.fromreq = (setupCurrentDirectoryTransfer F T t).fromreq ∧
          r.walk.toreq = (setupCurrentDirectoryTransfer F T t).toreq)) ∨
    Entered F T t ∧ ∃ left e,
      subdirsLoop F T fuel (loopStart t (setupCurrentDirectoryTransfer F T t)) = .ok (left, e) ∧
        r = leaveWalk F T update left e := by
  unfold gftpGetAllSubdirs at h
  simp only at h
  split_ifs at h with hfiles hok
  · obtain rfl := Except.ok.inj h
    exact .inl ⟨fun h => h.selected hfiles, by simp [Protocol.GftpError.code],
      .inl ⟨hfiles, rfl, rfl⟩⟩
  · refine .inr ⟨⟨hfiles, hok⟩, ?_⟩
    cases hloop : subdirsLoop F T fuel (loopStart t (setupCurrentDirectoryTransfer F T t)) with
    | error e =>
      rw [hloop] at h
      cases h
    | ok e =>
      rw [hloop] at h
      exact ⟨e.1, e.2, rfl, (Except.ok.inj h).symm⟩
  · obtain rfl := Except.ok.inj h
    refine .inl ⟨fun h => hok h.ok, ?_, .inr ⟨hfiles, rfl, rfl⟩⟩
    show (setupCurrentDirectoryTransfer F T t).ret < 0
    unfold setupCurrentDirectoryTransfer at hok ⊢
    by_cases hfatal : (otherSide T true t.toreq).1 = Protocol.GftpError.fatal.code
    · simp [hfatal, Protocol.GftpError.code]
    · simp only [if_neg hfatal] at hok ⊢
      simp [hok, Protocol.GftpError.code]

/-- A walk that returns 0 has come to the end of its list. -/
theorem returned_zero {update : Bool} {fuel : ℕ} {r : Walked σ τ}
    (h : gftpGetAllSubdirs F T update fuel t = .ok r) (hret : r.ret = 0) :
    Entered F T t ∧ ∃ e,
      subdirsLoop F T fuel (loopStart t (setupCurrentDirectoryTransfer F T t)) = .ok (none, e) ∧
        r.nodes = e.nodes ∧ r.files = some 0 := by
  obtain ⟨-, hneg, -⟩ | ⟨hentered, left, e, hloop, rfl⟩ := returned_cases h
  · exact absurd hret (Int.ne_of_lt hneg)
  · cases left with
    | none => exact ⟨hentered, e, hloop, rfl, rfl⟩
    | some ret =>
      obtain ⟨s', done, pending, hrun⟩ := hentered.runs fuel
      obtain ⟨v, hv, hleft⟩ := (hrun.ended _ hloop).2.2 ret rfl
      obtain ⟨front, behind, hsplit⟩ := List.append_of_mem hv
      have hexplored := hrun.explored
      rw [hsplit] at hexplored
      obtain ⟨-, -, heq⟩ := hexplored.before
      rw [heq] at hleft
      have hneg := result_negative hleft
      exact absurd hret (Int.ne_of_lt hneg)

end Start

end Gftp.SubdirWalk
