import Gftp.DeviceHashes

/-!
The order of the list that the walk makes. The entries of a directory stand in one block
behind it, so a directory stands in front of everything inside it. A listing ends at the first
entry that gftp_get_next_file returns an error for, and the walk does not notice: then entries are
missing in the block. The loop of gftpui_common_run_delete goes through the list from its end.
-/

namespace Gftp.ListingOrder

open ByteStrings DeviceHashes DirectoryReads LinkedLists LocalListings Protocol Subdirs SubdirWalk

variable {σ τ ρ : Type}

/-- The functions of a protocol that remove what a path names. -/
structure RemoveProtocol (ρ : Type) where
  removeDirectory : WalkRequest ρ → Bytes → ℤ × WalkRequest ρ
  removeFile : WalkRequest ρ → Bytes → ℤ × WalkRequest ρ

/-- The node without a next one. -/
def lastNode (m : FileNodes) : ℕ → ℕ → CRun ℕ
  | 0, _ => .error .pending
  | fuel + 1, templist =>
      match m.links.next templist with
      | none => .ok templist
      | some next => lastNode m fuel next

/-- The loop from the last node on: the result, the request and the nodes in the order in which
they were met. -/
def deleteLoop (P : RemoveProtocol ρ) (m : FileNodes) :
    ℕ → WalkRequest ρ → ℤ → Option ℕ → CRun (ℤ × WalkRequest ρ × List ℕ)
  | 0, _, _, _ => .error .pending
  | _ + 1, request, ret, none => .ok (ret, request, [])
  | fuel + 1, request, ret, some templist => do
      let tempfle := m.data templist
      let (success, request) :=
        if sIsdir tempfle.stMode then P.removeDirectory request tempfle.file
        else P.removeFile request tempfle.file
      let ret := if success < 0 then success else ret
      if request.isConnected then
        let (ret, request, met) ← deleteLoop P m fuel request ret (m.links.prev templist)
        return (ret, request, templist :: met)
      else return (ret, request, [templist])

/-- gftpui_common_run_delete, up to what it removes from the cache. -/
def gftpuiCommonRunDelete (P : RemoveProtocol ρ) (m : FileNodes) (fuel : ℕ)
    (request : WalkRequest ρ) (files : ℕ) : CRun (ℤ × WalkRequest ρ × List ℕ) := do
  let templist ← lastNode m fuel files
  deleteLoop P m fuel request 0 (some templist)

/-- a stands in front of b. -/
def Before (nodes : List ℕ) (a b : ℕ) : Prop :=
  ∃ i j : ℕ, i < j ∧ nodes[i]? = some a ∧ nodes[j]? = some b

/-- Where the files begin that the visit of number i has found. -/
def blockStart (files : List WalkFile) (vs : List (Visited σ τ)) (i : ℕ) : ℕ :=
  files.length + ((vs.take i).flatMap (·.visit.files)).length

/-- The file of b was found in the directory of a. -/
def FoundIn (files : List WalkFile) (vs : List (Visited σ τ)) (nodes : List ℕ) (b a : ℕ) : Prop :=
  ∃ i j v, nodes[i]? = some a ∧ nodes[j]? = some b ∧ vs[i]? = some v ∧
    blockStart files vs i ≤ j ∧ j < blockStart files vs i + v.visit.files.length

/-- The file of b was found in the directory of a, or in one inside it. -/
def Inside (files : List WalkFile) (vs : List (Visited σ τ)) (nodes : List ℕ) : ℕ → ℕ → Prop :=
  Relation.TransGen (FoundIn files vs nodes)

/-- What gftp_get_next_file returned for an entry that is neither the directory itself nor its
parent. -/
def isShown : NextFile → Bool
  | .entry fle => notDots fle
  | .failed _ => true

/-- The results of gftp_get_next_file for the directory of a visit. -/
def results (F : WalkProtocol σ) (v : Visited σ τ) : List NextFile :=
  (F.listFiles (enteredRequest F v)).1.files

/-- The files are the entries of the directory of a visit, as the visit's own requests list them:
each result has its entry, other than those for the directory itself and its parent. -/
def EntriesOf (F : WalkProtocol σ) (T : WalkProtocol τ) (v : Visited σ τ) (files : List WalkFile) :
    Prop :=
  0 ≤ (F.listFiles (enteredRequest F v)).1.ret ∧
    v.after.fromreq = (F.listFiles (enteredRequest F v)).2 ∧ v.after.toreq = (enteredOther T v).2 ∧
      ∃ entries : List WalkFile, (results F v).filter isShown = entries.map .entry ∧
        files = entries.map (listEntry v.after.fromreq v.after.toreq (enteredOther T v).1)

/-- The list that a walk has made out of the files selected, of which files is the list with
the paths: the list of these nodes, which the visits have gone through. -/
structure Ordered (F : WalkProtocol σ) (T : WalkProtocol τ) (t : WalkTransfer σ τ)
    (files : List WalkFile) (vs : List (Visited σ τ)) (r : Walked σ τ) (nodes : List ℕ) : Prop where
  head : r.files = nodes.head?
  linked : Linked r.nodes.links none nodes none
  nodup : nodes.Nodup
  selected : List.range t.files.length <+: nodes
  paths : List.Forall₂ (PutInPlace σ) files t.files
  data : nodes.map r.nodes.data = vs.map (·.curfle)
  kept : ∀ v ∈ vs, v.curfle = { v.met with stMode := v.curfle.stMode, size := v.curfle.size }
  blocks : vs.map (·.met) = files ++ vs.flatMap (·.visit.files)
  listing : ∀ v ∈ vs, ∀ found, v.visit = .listed found → EntriesOf F T v found
  passed : ∀ front v rest, vs = front ++ v :: rest → (v.visit = .passedOver ↔
    Numbered v.met ∧ ∃ u ∈ front, Numbered u.met ∧ SameKeys u.met v.met)
  listed : ∀ v ∈ vs, v.visit ≠ .passedOver → sIsdir v.curfle.stMode = true →
    ∃ found, v.visit = .listed found
  behind : ∀ b a, Inside files vs nodes b a → Before nodes a b

/-- In no directory that the visits list does gftp_get_next_file return an error for an entry. -/
def AllStatable (F : WalkProtocol σ) (vs : List (Visited σ τ)) : Prop :=
  ∀ v ∈ vs, ∀ found, v.visit = .listed found → ∀ x ∈ results F v, isEntry x = true

section Lists

variable {nodes xs : List ℕ} {a b c : ℕ}

theorem Before.trans (hnodup : nodes.Nodup) (hab : Before nodes a b) (hbc : Before nodes b c) :
    Before nodes a c := by
  obtain ⟨i, j, hij, hi, hj⟩ := hab
  obtain ⟨j', k, hjk, hj', hk⟩ := hbc
  have hsame : j = j' := by
    have hlt : j < nodes.length := (List.getElem?_eq_some_iff.mp hj).1
    exact (List.getElem?_inj hlt hnodup).mp (hj.trans hj'.symm)
  exact ⟨i, k, by omega, hi, hk⟩

theorem Before.reverse (h : Before nodes a b) : Before nodes.reverse b a := by
  obtain ⟨i, j, hij, hi, hj⟩ := h
  have hlt : j < nodes.length := (List.getElem?_eq_some_iff.mp hj).1
  refine ⟨nodes.length - 1 - j, nodes.length - 1 - i, by omega, ?_, ?_⟩
  · rw [List.getElem?_reverse (by omega)]
    rw [show nodes.length - 1 - (nodes.length - 1 - j) = j by omega, hj]
  · rw [List.getElem?_reverse (by omega)]
    rw [show nodes.length - 1 - (nodes.length - 1 - i) = i by omega, hi]

end Lists

section Deletion

variable {P : RemoveProtocol ρ} {m : FileNodes}

theorem lastNode_eq {p : Option ℕ} {x : ℕ} {xs : List ℕ}
    (h : Linked m.links p (x :: xs) none) {fuel : ℕ} (hfuel : xs.length < fuel) :
    lastNode m fuel x = .ok ((x :: xs).getLast (by simp)) := by
  induction xs generalizing p x fuel with
  | nil =>
    obtain ⟨fuel, rfl⟩ := Nat.exists_eq_add_one_of_ne_zero (Nat.ne_of_gt (Nat.zero_lt_of_lt hfuel))
    obtain ⟨-, hnext, -⟩ := h
    have hnone : m.links.next x = none := hnext
    simp [lastNode, hnone]
  | cons y ys ih =>
    obtain ⟨fuel, rfl⟩ := Nat.exists_eq_add_one_of_ne_zero (Nat.ne_of_gt (Nat.zero_lt_of_lt hfuel))
    obtain ⟨-, hnext, hrest⟩ := h
    have hsome : m.links.next x = some y := hnext
    rw [List.length_cons] at hfuel
    simp only [lastNode, hsome]
    rw [ih hrest (by omega)]
    rfl

/-- The loop meets the nodes from the last one on, all of them unless the connection is
lost. -/
theorem deleteLoop_met {xs ys : List ℕ} (h : Linked m.links none (xs ++ ys) none) {fuel : ℕ}
    (hfuel : xs.length < fuel) (request : WalkRequest ρ) (ret : ℤ) :
    ∃ ret' request' met, deleteLoop P m fuel request ret xs.getLast? = .ok (ret', request', met) ∧
      met <+: xs.reverse ∧ (request'.isConnected = true → met = xs.reverse) := by
  induction xs using List.reverseRecOn generalizing ys fuel request ret with
  | nil =>
    obtain ⟨fuel, rfl⟩ := Nat.exists_eq_add_one_of_ne_zero (Nat.ne_of_gt (Nat.zero_lt_of_lt hfuel))
    exact ⟨ret, request, [], rfl, List.nil_prefix, fun _ => rfl⟩
  | append_singleton xs x ih =>
    obtain ⟨fuel, rfl⟩ := Nat.exists_eq_add_one_of_ne_zero (Nat.ne_of_gt (Nat.zero_lt_of_lt hfuel))
    rw [List.append_assoc] at h
    rw [List.length_append, List.length_singleton] at hfuel
    have hprev : m.links.prev x = xs.getLast? := by
      have hneighbours := h.neighbours.1
      rwa [Option.or_none] at hneighbours
    obtain ⟨success, removed, hremoved⟩ : ∃ success removed,
        (if sIsdir (m.data x).stMode then P.removeDirectory request (m.data x).file
          else P.removeFile request (m.data x).file) = (success, removed) := ⟨_, _, rfl⟩
    rw [List.getLast?_append, List.getLast?_singleton, Option.some_or, List.reverse_append]
    simp only [deleteLoop, hremoved, hprev]
    cases hconnected : removed.isConnected with
    | false =>
      refine ⟨_, removed, [x], rfl, ?_, fun hc => ?_⟩
      · exact ⟨xs.reverse, rfl⟩
      · rw [hconnected] at hc
        cases hc
    | true =>
      have hrest : xs.length < fuel := by omega
      obtain ⟨ret', request', met, hloop, hmet, hall⟩ :=
        ih h hrest removed (if success < 0 then success else ret)
      refine ⟨ret', request', x :: met, ?_, ?_, fun hc => ?_⟩
      · rw [if_pos rfl, hloop]
        rfl
      · exact List.prefix_cons_inj x |>.mpr hmet
      · rw [hall hc]
        rfl

/-- Everything inside a directory is met before the directory. -/
theorem delete_met {x : ℕ} {xs : List ℕ} (h : Linked m.links none (x :: xs) none) {fuel : ℕ}
    (hfuel : (x :: xs).length < fuel) (request : WalkRequest ρ) :
    ∃ ret request' met, gftpuiCommonRunDelete P m fuel request x = .ok (ret, request', met) ∧
      met <+: (x :: xs).reverse ∧ (request'.isConnected = true → met = (x :: xs).reverse) := by
  have hlast := lastNode_eq h (Nat.lt_of_succ_lt hfuel)
  have hlinked : Linked m.links none (x :: xs ++ []) none := by rwa [List.append_nil]
  obtain ⟨ret, request', met, hloop, hmet⟩ :=
    deleteLoop_met (P := P) hlinked hfuel request 0
  refine ⟨ret, request', met, ?_, hmet⟩
  rw [List.getLast?_eq_getLast_of_ne_nil (by simp)] at hloop
  rw [gftpuiCommonRunDelete, hlast]
  exact hloop

/-- What every removal leaves of the request holds behind the deletion. -/
theorem runDelete_request {I : WalkRequest ρ → Prop} {fuel head : ℕ}
    {request request' : WalkRequest ρ} {ret : ℤ} {met : List ℕ}
    (hdirectory : ∀ r p, I (P.removeDirectory r p).2) (hfile : ∀ r p, I (P.removeFile r p).2)
    (hrequest : I request)
    (hrun : gftpuiCommonRunDelete P m fuel request head = .ok (ret, request', met)) :
    I request' := by
  obtain ⟨last, -, hloop⟩ := CRun.bind_eq_ok.mp hrun
  clear hrun
  generalize (0 : ℤ) = ret₀ at hloop
  generalize some last = templist at hloop
  induction fuel generalizing request ret₀ templist ret request' met with
  | zero => cases hloop
  | succ fuel ih =>
    cases templist with
    | none =>
      obtain ⟨-, rfl, -⟩ := Except.ok.inj hloop
      exact hrequest
    | some x =>
      obtain ⟨success, removed, hremoved⟩ : ∃ success removed,
          (if sIsdir (m.data x).stMode then P.removeDirectory request (m.data x).file
            else P.removeFile request (m.data x).file) = (success, removed) := ⟨_, _, rfl⟩
      have hI : I removed := by
        rw [show removed = (success, removed).2 from rfl, ← hremoved]
        split_ifs
        · exact hdirectory request _
        · exact hfile request _
      simp only [deleteLoop, hremoved] at hloop
      by_cases hconnected : removed.isConnected = true
      · rw [if_pos hconnected] at hloop
        obtain ⟨⟨ret', request₁, met'⟩, hrest, hloop⟩ := CRun.bind_eq_ok.mp hloop
        obtain ⟨-, rfl, -⟩ := Except.ok.inj hloop
        exact ih hI _ _ hrest
      · rw [if_neg hconnected] at hloop
        obtain ⟨-, rfl, -⟩ := Except.ok.inj hloop
        exact hI

theorem neighbour_mem {nodes : List ℕ} (h : Linked m.links none nodes none) {n y : ℕ}
    (hn : n ∈ nodes) (hy : m.links.prev n = some y ∨ m.links.next n = some y) : y ∈ nodes := by
  obtain ⟨front, behind, rfl⟩ := List.append_of_mem hn
  obtain ⟨hprev, hnext⟩ := h.neighbours
  rw [Option.or_none] at hprev hnext
  rcases hy with hy | hy
  · rw [hprev] at hy
    exact List.mem_append_left _ (List.mem_of_getLast? hy)
  · rw [hnext] at hy
    exact List.mem_append_right _ (List.mem_cons_of_mem _ (List.mem_of_mem_head? hy))

theorem runDelete_mem {nodes : List ℕ} (h : Linked m.links none nodes none) {fuel head : ℕ}
    {request request' : WalkRequest ρ} {ret : ℤ} {met : List ℕ} (hhead : head ∈ nodes)
    (hrun : gftpuiCommonRunDelete P m fuel request head = .ok (ret, request', met)) :
    ∀ n ∈ met, n ∈ nodes := by
  have hlast : ∀ (fuel x y : ℕ), x ∈ nodes → lastNode m fuel x = .ok y → y ∈ nodes := by
    intro fuel
    induction fuel with
    | zero => exact fun x y _ hy => by cases hy
    | succ fuel ih =>
      intro x y hx hy
      unfold lastNode at hy
      cases hnext : m.links.next x with
      | none =>
        simp only [hnext] at hy
        exact Except.ok.inj hy ▸ hx
      | some z =>
        simp only [hnext] at hy
        exact ih z y (neighbour_mem h hx (Or.inr hnext)) hy
  have hloop : ∀ (fuel : ℕ) (request : WalkRequest ρ) (ret : ℤ) (templist : Option ℕ)
      (out : ℤ × WalkRequest ρ × List ℕ), (∀ n, templist = some n → n ∈ nodes) →
      deleteLoop P m fuel request ret templist = .ok out → ∀ n ∈ out.2.2, n ∈ nodes := by
    intro fuel
    induction fuel with
    | zero => exact fun _ _ _ _ _ hout => by cases hout
    | succ fuel ih =>
      intro request ret templist out htemplist hout
      cases templist with
      | none =>
        obtain rfl := Except.ok.inj hout
        exact fun n hn => absurd hn List.not_mem_nil
      | some x =>
        have hx := htemplist x rfl
        obtain ⟨success, removed, hremoved⟩ : ∃ success removed,
            (if sIsdir (m.data x).stMode then P.removeDirectory request (m.data x).file
              else P.removeFile request (m.data x).file) = (success, removed) := ⟨_, _, rfl⟩
        simp only [deleteLoop, hremoved] at hout
        by_cases hconnected : removed.isConnected = true
        · rw [if_pos hconnected] at hout
          obtain ⟨⟨ret', request', met⟩, hrest, hout⟩ := CRun.bind_eq_ok.mp hout
          obtain rfl := Except.ok.inj hout
          have hmet := ih _ _ _ _ (fun y hy => neighbour_mem h hx (Or.inl hy)) hrest
          exact List.forall_mem_cons.mpr ⟨hx, hmet⟩
        · rw [if_neg hconnected] at hout
          obtain rfl := Except.ok.inj hout
          exact fun n hn => List.mem_singleton.mp hn ▸ hx
  obtain ⟨last, hy, hrun⟩ := CRun.bind_eq_ok.mp hrun
  have hmem := hlast fuel head last hhead hy
  exact hloop _ _ _ _ _ (fun n hn => Option.some.inj hn ▸ hmem) hrun

end Deletion

section Blocks

variable {F : WalkProtocol σ} {T : WalkProtocol τ} {w w' : Walk σ τ}
  {files pending : List WalkFile} {vs : List (Visited σ τ)} {nodes : List ℕ} {a b i : ℕ}

theorem blockStart_behind (h : Explored F T w files vs w' pending) {v : Visited σ τ}
    (hv : vs[i]? = some v) : i < blockStart files vs i := by
  obtain ⟨hlt, rfl⟩ := List.getElem?_eq_some_iff.mp hv
  have hsplit : vs = vs.take i ++ vs[i] :: vs.drop (i + 1) := by
    rw [← List.drop_eq_getElem_cons hlt, List.take_append_drop]
  rw [hsplit] at h
  obtain ⟨rest, hbefore, -⟩ := h.before
  have hqueue := congrArg List.length hbefore.queue
  simp only [List.length_append, List.length_map, List.length_cons, List.length_take] at hqueue
  unfold blockStart
  omega

theorem foundIn_before (h : Explored F T w files vs w' pending)
    (hfound : FoundIn files vs nodes b a) : Before nodes a b := by
  obtain ⟨i, j, v, hi, hj, hv, hstart, -⟩ := hfound
  have hbehind := blockStart_behind h hv
  exact ⟨i, j, by omega, hi, hj⟩

theorem inside_before (h : Explored F T w files vs w' pending) (hnodup : nodes.Nodup)
    (hinside : Inside files vs nodes b a) : Before nodes a b := by
  induction hinside with
  | single hfound => exact foundIn_before h hfound
  | tail _ hfound ih => exact (foundIn_before h hfound).trans hnodup ih

end Blocks

section Order

variable {F : WalkProtocol σ} {T : WalkProtocol τ} {update : Bool} {fuel : ℕ}
  {t : WalkTransfer σ τ} {r : Walked σ τ}

theorem entries_of_all {l : List NextFile} (h : ∀ x ∈ l, isEntry x = true) :
    l = (readEntries l).map .entry := by
  induction l with
  | nil => rfl
  | cons x l ih =>
    have hx := h x (List.mem_cons_self ..)
    have hl := ih fun y hy => h y (List.mem_cons_of_mem x hy)
    cases x with
    | failed e => cases hx
    | entry fle => exact congrArg (.entry fle :: ·) hl

/-- The files that a visit lists are all the entries of its directory, if and only if none of them
has an error. -/
theorem listed_entries_iff {w : Walk σ τ} {f : WalkFile} {v : Visited σ τ} {found : List WalkFile}
    (hv : v = visited F T w f) (h : v.visit = .listed found) :
    EntriesOf F T v found ↔ ∀ x ∈ results F v, isEntry x = true := by
  obtain ⟨-, -, -, toreq, -, -, hother, g, hg, hret, hfiles, hfrom, hto⟩ := visited_listed hv h
  obtain ⟨hlisted, hgfrom, hgto, hread⟩ := dirListing_read hg hret
  rw [hother] at hgto hread
  rw [← hfiles, ← hfrom, ← hto] at hread
  constructor
  · rintro ⟨-, -, -, entries, hentries, -⟩ x hx
    cases x with
    | entry fle => rfl
    | failed e =>
      have hmem : NextFile.failed e ∈ entries.map .entry :=
        hentries ▸ List.mem_filter.mpr ⟨hx, rfl⟩
      obtain ⟨fle, -, hfle⟩ := List.mem_map.mp hmem
      cases hfle
  · intro hall
    refine ⟨hlisted, hfrom.trans hgfrom, hto.trans hgto, _, ?_, hread⟩
    rw [entries_of_all hall, List.filter_map]
    rfl

/-- The list that a walk returning 0 has made, and the visits that have made it. -/
structure Made (F : WalkProtocol σ) (T : WalkProtocol τ) (fuel : ℕ) (t : WalkTransfer σ τ)
    (r : Walked σ τ) (nodes : List ℕ) (w : Walk σ τ) : Prop where
  entered : Entered F T t
  explored : Explored F T (startWalk t (setupCurrentDirectoryTransfer F T t))
    (setupCurrentDirectoryTransfer F T t).files (walkVisits F T fuel t) w []
  goes : ∀ v ∈ walkVisits F T fuel t, result v.visit = none
  head : r.files = nodes.head?
  linked : Linked r.nodes.links none nodes none
  nodup : nodes.Nodup
  selected : List.range t.files.length <+: nodes
  data : nodes.map r.nodes.data = (walkVisits F T fuel t).map (·.curfle)

theorem walk_made (h : gftpGetAllSubdirs F T update fuel t = .ok r) (hret : r.ret = 0) :
    ∃ nodes w, Made F T fuel t r nodes w := by
  obtain ⟨hentered, e, hloop, hnodes, hfiles⟩ := returned_zero h hret
  obtain ⟨s', done, pending, hrun⟩ := hentered.runs fuel
  obtain ⟨rfl, hall, -⟩ := hrun.ended _ hloop
  obtain ⟨rfl, hgo⟩ := hall rfl
  have hexplored := hrun.explored
  obtain ⟨hlinked, hnodup, -, -, -⟩ := hrun.holds
  have hbegins := hrun.begins
  rw [start_data] at hexplored
  rw [← hentered.visits] at hexplored hgo
  rw [List.nil_append, List.append_nil] at hlinked hnodup
  rw [List.append_nil, (setup_selected hentered.ok).length_eq] at hbegins
  have hpos : 0 < t.files.length := List.length_pos_iff.mpr hentered.selected
  have hselected : List.range t.files.length <+: done := hbegins
  refine ⟨done, e.walk, hentered, hexplored, hgo, ?_, ?_, hnodup, hselected, ?_⟩
  · obtain ⟨behind, rfl⟩ := hselected
    rw [hfiles, List.head?_append, List.head?_range, if_neg (by omega), Option.some_or]
  · rw [hnodes]
    exact hlinked
  · rw [hnodes, hentered.visits]
    exact hrun.done

theorem Made.visited_eq {nodes : List ℕ} {w : Walk σ τ} (h : Made F T fuel t r nodes w)
    {v : Visited σ τ} (hv : v ∈ walkVisits F T fuel t) : v = visited F T v.before v.met := by
  have hexplored := h.explored
  obtain ⟨front, behind, hsplit⟩ := List.append_of_mem hv
  rw [hsplit] at hexplored
  exact hexplored.before.choose_spec.2

theorem Made.nodes_ne_nil {nodes : List ℕ} {w : Walk σ τ} (h : Made F T fuel t r nodes w) :
    nodes ≠ [] := by
  intro hnil
  have hselected := h.selected
  rw [hnil, List.prefix_nil, List.range_eq_nil] at hselected
  exact h.entered.selected (List.length_eq_zero_iff.mp hselected)

theorem Made.ordered {nodes : List ℕ} {w : Walk σ τ} (h : Made F T fuel t r nodes w)
    (hall : AllStatable F (walkVisits F T fuel t)) :
    Ordered F T t (setupCurrentDirectoryTransfer F T t).files (walkVisits F T fuel t) r nodes where
  head := h.head
  linked := h.linked
  nodup := h.nodup
  selected := h.selected
  paths := setup_selected h.entered.ok
  data := h.data
  kept v hv := by
    rw [h.visited_eq hv]
    exact visited_kept
  blocks := by simpa using h.explored.queue.symm
  listing v hv found hfound :=
    (listed_entries_iff (h.visited_eq hv) hfound).mpr (hall v hv found hfound)
  passed front v rest hsplit := passedOver_iff h.explored rfl hsplit
  listed v hv hpassed hdir := by
    have hnone := h.goes v hv
    rw [h.visited_eq hv] at hnone hpassed hdir ⊢
    exact directory_listed hnone hpassed hdir
  behind b a hinside := inside_before h.explored h.nodup hinside

end Order

end Gftp.ListingOrder
