import Gftp.ByteStrings
import Gftp.LinkedLists
import Gftp.RecentUse

/-!
The history of a combo box. An entry that is found in the list moves to its front, a new one is put
in front, and of a full list nine entries are left. The counter is increased for each new entry and
never decreased, so that it is the length of the list until an entry has been dropped.
-/

namespace Gftp.HistoryLists

open ByteStrings LinkedLists RecentUse

/-- MAX_HIST_LEN. -/
def maxHistLen : ℕ := 10

/-- The nodes in memory, with *history and *histlen. The nodes from fresh on are not allocated. -/
structure History where
  links : Links ℕ
  data : ℕ → CString
  freed : List ℕ
  fresh : ℕ
  history : Option ℕ
  histlen : UInt32

namespace History

/-- An empty list. -/
def empty : History where
  links := ⟨fun _ => none, fun _ => none⟩
  data := fun _ => CString.empty
  freed := []
  fresh := 0
  history := none
  histlen := 0

/-- The node of a pointer, a fault for NULL and for a node that has been freed. -/
def node (h : History) (pointer : Option ℕ) : CRun ℕ :=
  match pointer with
  | none => .error .fault
  | some node => if node ∈ h.freed then .error .fault else .ok node

/-- The node of a pointer that the code compares with NULL first. -/
def node? (h : History) (pointer : Option ℕ) : CRun (Option ℕ) :=
  match pointer with
  | none => .ok none
  | some node => do
      let node ← h.node (some node)
      .ok (some node)

/-- The search for an entry. A walk over more nodes than there are goes in a circle. -/
def find (h : History) (str : CString) : ℕ → Option ℕ → CRun (Option ℕ)
  | _, none => .ok none
  | 0, some _ => .error .pending
  | fuel + 1, some node => do
      let node ← h.node (some node)
      if h.data node = str then .ok (some node) else find h str fuel (h.links.next node)

/-- node = node->next, i times. -/
def advance (h : History) : ℕ → Option ℕ → CRun (Option ℕ)
  | 0, node => .ok node
  | i + 1, node => do
      let node ← h.node node
      advance h i (h.links.next node)

/-- The nodes from delnode on, whose data is freed. -/
def tail (h : History) : ℕ → Option ℕ → CRun (List ℕ)
  | _, none => .ok []
  | 0, some _ => .error .pending
  | fuel + 1, some delnode => do
      let delnode ← h.node (some delnode)
      let nodes ← tail h fuel (h.links.next delnode)
      .ok (delnode :: nodes)

/-- The node MAX_HIST_LEN and those behind it are cut off and freed. -/
def trim (h : History) : CRun History := do
  let node ← h.advance (maxHistLen - 1) h.history
  let node ← h.node node
  let prev ← h.node (h.links.prev node)
  let h := { h with links := (h.links.setNext prev none).setPrev node none }
  let nodes ← h.tail h.fresh (some node)
  .ok { h with freed := nodes ++ h.freed }

/-- The new node of g_list_prepend, with the counter. -/
def prepend (h : History) (str : CString) : History :=
  { h with
    links := h.links.push h.fresh h.history
    data := Function.update h.data h.fresh str
    fresh := h.fresh + 1
    history := some h.fresh
    histlen := h.histlen + 1 }

/-- A node that has one in front of it is moved to the front of the list. -/
def moveToFront (h : History) (node : ℕ) : CRun History :=
  match h.links.prev node with
  | none => .ok h
  | some prev => do
      let prev ← h.node (some prev)
      let next ← h.node? (h.links.next node)
      let links := (h.links.setNext prev next).setPrev? next (some prev)
      let first ← h.node? h.history
      .ok { h with links := links.push node first, history := some node }

end History

/-- add_history for a string that is not empty. -/
def addString (str : CString) (h : History) : CRun History := do
  let node ← h.find str h.fresh h.history
  match node with
  | none => do
      let h ← (if maxHistLen ≤ h.histlen.toNat then h.trim else .ok h)
      .ok (h.prepend str)
  | some node => h.moveToFront node

/-- add_history. -/
def addHistory (str : Option CString) (h : History) : CRun History :=
  match str with
  | none => .ok h
  | some str => if str.bytes = [] then .ok h else addString str h

/-- A sequence of calls that starts with an empty list. -/
def addAll (strs : List (Option CString)) : CRun History :=
  strs.foldlM (fun h str => addHistory str h) History.empty

/-- The strings that are not ignored. -/
def entered (strs : List (Option CString)) : List CString :=
  strs.filterMap fun str => str.filter fun str => str.bytes ≠ []

/-- The history is linked in both directions, it holds its entries once, the most recently used one
first, it is not too long, and *histlen is its length. -/
structure WellKept (uses : List CString) (h : History) (nodes : List ℕ) : Prop where
  linked : Linked h.links none nodes none
  history : h.history = nodes.head?
  recent : Recent uses (nodes.map h.data)
  bounded : nodes.length ≤ maxHistLen
  counted : h.histlen.toNat = nodes.length

/-- The nodes of the list are linked and in use, and their strings are the entries l. -/
structure Holds (h : History) (nodes : List ℕ) (l : List CString) : Prop where
  linked : Linked h.links none nodes none
  history : h.history = nodes.head?
  entries : nodes.map h.data = l
  nodup : l.Nodup
  allocated : ∀ n ∈ nodes, n < h.fresh
  kept : ∀ n ∈ nodes, n ∉ h.freed
  freed : ∀ n ∈ h.freed, n < h.fresh

/-- What a call does to the counter n and to the entries l. -/
inductive Change (str : CString) (n : UInt32) (l : List CString) : UInt32 → List CString → Prop
  | again (front behind : List CString) : l = front ++ str :: behind →
      Change str n l n (str :: (front ++ behind))
  | more : str ∉ l → n.toNat < maxHistLen → Change str n l (n + 1) (str :: l)
  | full : str ∉ l → maxHistLen ≤ n.toNat → Change str n l (n + 1) (str :: l.take (maxHistLen - 1))

section Nodes

variable {h : History} {nodes front behind : List ℕ} {l : List CString} {str : CString} {n : ℕ}

theorem node_ok (hn : n ∉ h.freed) : h.node (some n) = .ok n := if_neg hn

theorem node?_ok {pointer : Option ℕ} (hpointer : ∀ n, pointer = some n → n ∉ h.freed) :
    h.node? pointer = .ok pointer := by
  cases pointer with
  | none => rfl
  | some n => rw [History.node?, node_ok (hpointer n rfl), CRun.ok_bind]

theorem find_ok {fuel : ℕ} (hchained : Chained h.links nodes) (hkept : ∀ n ∈ nodes, n ∉ h.freed)
    (hfuel : nodes.length ≤ fuel) :
    h.find str fuel nodes.head? = .ok (nodes.find? fun n => h.data n = str) := by
  induction nodes generalizing fuel with
  | nil => cases fuel <;> rfl
  | cons n nodes ih =>
    obtain ⟨hnext, hchained⟩ := hchained
    obtain ⟨hn, hkept⟩ := List.forall_mem_cons.mp hkept
    obtain ⟨fuel, rfl⟩ := Nat.exists_eq_succ_of_ne_zero (Nat.ne_of_gt (Nat.zero_lt_of_lt hfuel))
    rw [List.head?_cons, History.find, node_ok hn, CRun.ok_bind]
    by_cases hdata : h.data n = str
    · rw [if_pos hdata, List.find?_cons_of_pos (by simpa using hdata)]
    · rw [if_neg hdata, List.find?_cons_of_neg (by simpa using hdata), hnext]
      exact ih hchained hkept (Nat.le_of_succ_le_succ hfuel)

theorem advance_ok (hchained : Chained h.links nodes) (hkept : ∀ n ∈ nodes, n ∉ h.freed) {i : ℕ}
    (hi : i ≤ nodes.length) : h.advance i nodes.head? = .ok (nodes.drop i).head? := by
  induction i generalizing nodes with
  | zero => rfl
  | succ i ih =>
    cases nodes with
    | nil => cases hi
    | cons n nodes =>
      obtain ⟨hnext, hchained⟩ := hchained
      obtain ⟨hn, hkept⟩ := List.forall_mem_cons.mp hkept
      rw [List.head?_cons, History.advance, node_ok hn, CRun.ok_bind, hnext]
      exact ih hchained hkept (Nat.le_of_succ_le_succ hi)

theorem tail_ok {fuel : ℕ} (hchained : Chained h.links nodes) (hkept : ∀ n ∈ nodes, n ∉ h.freed)
    (hfuel : nodes.length ≤ fuel) : h.tail fuel nodes.head? = .ok nodes := by
  induction nodes generalizing fuel with
  | nil => cases fuel <;> rfl
  | cons n nodes ih =>
    obtain ⟨hnext, hchained⟩ := hchained
    obtain ⟨hn, hkept⟩ := List.forall_mem_cons.mp hkept
    obtain ⟨fuel, rfl⟩ := Nat.exists_eq_succ_of_ne_zero (Nat.ne_of_gt (Nat.zero_lt_of_lt hfuel))
    rw [List.head?_cons, History.tail, node_ok hn, CRun.ok_bind, hnext,
      ih hchained hkept (Nat.le_of_succ_le_succ hfuel), CRun.ok_bind]

namespace Holds

theorem nodes_nodup (hold : Holds h nodes l) : nodes.Nodup :=
  List.Nodup.of_map h.data (hold.entries ▸ hold.nodup)

theorem length_le (hold : Holds h nodes l) : nodes.length ≤ h.fresh := by
  have hsub : nodes.toFinset ⊆ Finset.range h.fresh := by
    intro n hn
    exact Finset.mem_range.mpr (hold.allocated n (List.mem_toFinset.mp hn))
  have hcard := Finset.card_le_card hsub
  rwa [List.toFinset_card_of_nodup hold.nodes_nodup, Finset.card_range] at hcard

theorem fresh_not_mem (hold : Holds h nodes l) : h.fresh ∉ nodes := fun hmem =>
  Nat.lt_irrefl _ (hold.allocated _ hmem)

theorem prepend (hold : Holds h nodes l) (hstr : str ∉ l) :
    Holds (h.prepend str) (h.fresh :: nodes) (str :: l) where
  linked := by
    have hpush := hold.linked.push (List.nodup_cons.mpr ⟨hold.fresh_not_mem, hold.nodes_nodup⟩)
    rwa [← hold.history] at hpush
  history := rfl
  entries := by
    have hdata : nodes.map (Function.update h.data h.fresh str) = nodes.map h.data := by
      refine List.map_congr_left fun n hn => ?_
      exact Function.update_of_ne (fun heq : n = h.fresh => hold.fresh_not_mem (heq ▸ hn)) ..
    exact congrArg₂ List.cons (Function.update_self ..) (hdata.trans hold.entries)
  nodup := List.nodup_cons.mpr ⟨hstr, hold.nodup⟩
  allocated := List.forall_mem_cons.mpr
    ⟨Nat.lt_succ_self _, fun n hn => Nat.lt_succ_of_lt (hold.allocated n hn)⟩
  kept := List.forall_mem_cons.mpr
    ⟨fun hmem => Nat.lt_irrefl _ (hold.freed _ hmem), hold.kept⟩
  freed n hn := Nat.lt_succ_of_lt (hold.freed n hn)

theorem trim (hold : Holds h (front ++ n :: behind) l) (hfront : front.length = maxHistLen - 1) :
    ∃ h', h.trim = .ok h' ∧ Holds h' front (l.take (maxHistLen - 1)) ∧ h'.histlen = h.histlen := by
  have hne : front ≠ [] := by
    rintro rfl
    cases hfront
  obtain ⟨prev, hlast⟩ := Option.ne_none_iff_exists'.mp (mt List.getLast?_eq_none_iff.mp hne)
  obtain ⟨hkeptfront, hkeptbehind⟩ := List.forall_mem_append.mp hold.kept
  have hadvance : h.advance (maxHistLen - 1) h.history = .ok (some n) := by
    rw [hold.history, advance_ok hold.linked.chained hold.kept (by simp [hfront]), ← hfront,
      List.drop_left, List.head?_cons]
  have hprev : h.links.prev n = some prev := by
    rw [hold.linked.neighbours.1, hlast, Option.some_or]
  obtain ⟨hcutfront, hcutbehind⟩ := hold.linked.cut hold.nodes_nodup hlast
  have htail := tail_ok (h := { h with links := (h.links.setNext prev none).setPrev n none })
    hcutbehind.chained hkeptbehind
    (Nat.le_trans (by simp) hold.length_le : (n :: behind).length ≤ h.fresh)
  have hrun : h.trim = .ok
      { h with
        links := (h.links.setNext prev none).setPrev n none
        freed := n :: behind ++ h.freed } := by
    rw [History.trim, hadvance, CRun.ok_bind, node_ok (hkeptbehind n (List.mem_cons_self ..)),
      CRun.ok_bind, hprev, node_ok (hkeptfront prev (List.mem_of_getLast? hlast)), CRun.ok_bind]
    exact congrArg (· >>= _) htail
  obtain ⟨-, -, hdisjoint⟩ := List.nodup_append.mp hold.nodes_nodup
  obtain ⟨hallocfront, hallocbehind⟩ := List.forall_mem_append.mp hold.allocated
  refine ⟨_, hrun, ⟨hcutfront, ?_, ?_, hold.nodup.sublist (List.take_sublist _ _), hallocfront, ?_, ?_⟩,
    rfl⟩
  · exact hold.history.trans (List.head?_append_of_ne_nil front hne)
  · rw [← hold.entries, ← List.map_take, ← hfront, List.take_left]
  · intro m hm hfreed
    rcases List.mem_append.mp hfreed with hcut | hfreed
    · exact hdisjoint m hm m hcut rfl
    · exact hkeptfront m hm hfreed
  · exact List.forall_mem_append.mpr ⟨hallocbehind, hold.freed⟩

theorem moveToFront (hold : Holds h (front ++ n :: behind) l) :
    ∃ h', h.moveToFront n = .ok h' ∧
      Holds h' (n :: (front ++ behind)) (h.data n :: (front.map h.data ++ behind.map h.data)) ∧
        h'.histlen = h.histlen := by
  have hentries : front.map h.data ++ h.data n :: behind.map h.data = l := by
    rw [← hold.entries, List.map_append, List.map_cons]
  obtain ⟨hprev, hnext⟩ := hold.linked.neighbours
  rw [Option.or_none] at hprev hnext
  cases hlast : front.getLast? with
  | none =>
    obtain rfl := List.getLast?_eq_none_iff.mp hlast
    rw [← hentries] at hold
    refine ⟨h, ?_, hold, rfl⟩
    rw [History.moveToFront, hprev]
    rfl
  | some prev =>
    have hperm : (n :: (front ++ behind)).Perm (front ++ n :: behind) := List.perm_middle.symm
    have hne : front ≠ [] := by
      rintro rfl
      cases hlast
    have hhead : h.history = (front ++ behind).head? := by
      rw [hold.history, List.head?_append_of_ne_nil front hne, List.head?_append_of_ne_nil front hne]
    obtain ⟨hkeptfront, hkeptbehind⟩ := List.forall_mem_append.mp hold.kept
    have hnodup : (n :: (front ++ behind)).Nodup := hperm.nodup_iff.mpr hold.nodes_nodup
    have hrun : h.moveToFront n = .ok
        { h with
          links := (((h.links.setNext prev behind.head?).setPrev? behind.head? (some prev))).push n
            h.history
          history := some n } := by
      have hprevkept : prev ∉ h.freed := hkeptfront prev (List.mem_of_getLast? hlast)
      have hnextkept : ∀ m, behind.head? = some m → m ∉ h.freed := fun m hm =>
        hkeptbehind m (List.mem_cons_of_mem _ (List.mem_of_head? hm))
      have hfirstkept : ∀ m, h.history = some m → m ∉ h.freed := fun m hm =>
        hold.kept m (List.mem_of_head? (hold.history.symm.trans hm))
      rw [History.moveToFront, hprev, hlast]
      simp only [node_ok hprevkept, node?_ok hnextkept, node?_ok hfirstkept, CRun.ok_bind, hnext]
    refine ⟨_, hrun, ⟨?_, rfl, ?_, ?_, ?_, ?_, hold.freed⟩, rfl⟩
    · rw [hhead]
      exact (hold.linked.unlink hold.nodes_nodup hlast).push hnodup
    · rw [List.map_cons, List.map_append]
    · exact (List.perm_middle.symm.trans (List.Perm.of_eq hentries)).nodup_iff.mpr hold.nodup
    · exact fun m hm => hold.allocated m (hperm.mem_iff.mp hm)
    · exact fun m hm => hold.kept m (hperm.mem_iff.mp hm)

/-- What a call does, provided that a full list has as many entries as the counter says. -/
theorem addString (hold : Holds h nodes l)
    (hfull : maxHistLen ≤ h.histlen.toNat → maxHistLen ≤ l.length) (str : CString) :
    ∃ h' nodes' l', HistoryLists.addString str h = .ok h' ∧ Holds h' nodes' l' ∧
      Change str h.histlen l h'.histlen l' := by
  have hfind : h.find str h.fresh h.history = .ok (nodes.find? fun n => h.data n = str) := by
    rw [hold.history]
    exact find_ok hold.linked.chained hold.kept hold.length_le
  cases hnode : nodes.find? fun n => h.data n = str with
  | none =>
    have hstr : str ∉ l := by
      rw [← hold.entries]
      intro hmem
      obtain ⟨n, hn, hdata⟩ := List.mem_map.mp hmem
      simpa [hdata] using List.find?_eq_none.mp hnode n hn
    by_cases hlen : maxHistLen ≤ h.histlen.toNat
    · obtain ⟨front, n, behind, rfl, hfront⟩ :
          ∃ front n behind, nodes = front ++ n :: behind ∧ front.length = maxHistLen - 1 := by
        have hlength : maxHistLen ≤ nodes.length := by
          rw [← List.length_map h.data, hold.entries]
          exact hfull hlen
        have hsplit := List.take_append_drop (maxHistLen - 1) nodes
        have hdrop : nodes.drop (maxHistLen - 1) ≠ [] := by
          rw [Ne, List.drop_eq_nil_iff]
          unfold maxHistLen at *
          omega
        obtain ⟨n, behind, hbehind⟩ := List.exists_cons_of_ne_nil hdrop
        exact ⟨_, n, behind, hbehind ▸ hsplit.symm, List.length_take_of_le (by omega)⟩
      obtain ⟨h', htrim, hold', hcount⟩ := hold.trim hfront
      have hkept : str ∉ l.take (maxHistLen - 1) := fun hmem => hstr (List.mem_of_mem_take hmem)
      refine ⟨h'.prepend str, _, _, ?_, hold'.prepend hkept, ?_⟩
      · rw [HistoryLists.addString, hfind, hnode, CRun.ok_bind, if_pos hlen, htrim, CRun.ok_bind]
      · have hcount' : (h'.prepend str).histlen = h.histlen + 1 := congrArg (· + 1) hcount
        exact hcount' ▸ .full hstr hlen
    · refine ⟨_, _, _, ?_, hold.prepend hstr, .more hstr (Nat.lt_of_not_le hlen)⟩
      rw [HistoryLists.addString, hfind, hnode, CRun.ok_bind, if_neg hlen, CRun.ok_bind]
  | some n =>
    obtain ⟨front, behind, rfl⟩ := List.append_of_mem (List.mem_of_find?_eq_some hnode)
    have hdata : h.data n = str := by simpa using List.find?_some hnode
    obtain ⟨h', hmove, hold', hcount⟩ := hold.moveToFront
    refine ⟨h', _, _, ?_, hold', ?_⟩
    · rw [HistoryLists.addString, hfind, hnode, CRun.ok_bind]
      exact hmove
    · rw [hcount, hdata]
      refine .again _ _ ?_
      rw [← hold.entries, List.map_append, List.map_cons, hdata]

end Holds

theorem holds_empty : Holds History.empty [] [] :=
  ⟨trivial, rfl, rfl, List.nodup_nil, List.forall_mem_nil _, List.forall_mem_nil _,
    List.forall_mem_nil _⟩

end Nodes

section Counting

variable {uses l l' : List CString} {str : CString} {n n' : UInt32}

/-- As long as nothing has been dropped, the counter is right; afterwards it is larger, or it has
come round to 0 and the list is longer by the length that it had then. -/
inductive Phase (uses : List CString) (n : UInt32) (l : List CString) : Prop
  | whole : (∀ x ∈ uses, x ∈ l) → n.toNat = l.length → l.length ≤ maxHistLen → Phase uses n l
  | dropped : maxHistLen < uses.toFinset.card →
      (maxHistLen < n.toNat ∧ l.length = maxHistLen ∨
        n.toNat ≤ maxHistLen ∧ l.length = n.toNat + maxHistLen) → Phase uses n l

theorem Phase.long (h : Phase uses n l) (hfull : maxHistLen ≤ n.toNat) : maxHistLen ≤ l.length := by
  rcases h with ⟨-, hcount, -⟩ | ⟨-, hlong⟩ <;> omega

/-- The entries that are kept behind the new first one. -/
theorem Change.recent (h : Change str n l n' l') (hrecent : Recent uses l) :
    Recent (uses ++ [str]) l' := by
  cases h with
  | again front behind hl =>
    subst hl
    have hnodup := List.perm_middle.nodup_iff.mp hrecent.nodup
    refine hrecent.use ?_ (List.nodup_cons.mp hnodup).1
    exact (List.sublist_cons_self str behind).append_left front
  | more hstr _ => exact hrecent.use (List.Sublist.refl l) hstr
  | full hstr _ =>
    exact hrecent.use (List.take_sublist _ l) fun hmem => hstr (List.mem_of_mem_take hmem)

theorem mem_of_uses (huses : ∀ x ∈ uses, x ∈ l) (hl : ∀ x ∈ l, x ∈ l') (hstr : str ∈ l') :
    ∀ x ∈ uses ++ [str], x ∈ l' := by
  intro x hx
  rcases List.mem_append.mp hx with hx | hx
  · exact hl x (huses x hx)
  · exact List.mem_singleton.mp hx ▸ hstr

theorem Change.phase (h : Change str n l n' l') (hrecent : Recent uses l) (hphase : Phase uses n l) :
    Phase (uses ++ [str]) n' l' := by
  have hlonger := card_le_snoc uses str
  have hnext : (n + 1).toNat = (n.toNat + 1) % 4294967296 := UInt32.toNat_add ..
  cases h with
  | again front behind hl =>
    subst hl
    have hperm : (front ++ str :: behind).Perm (str :: (front ++ behind)) := List.perm_middle
    rcases hphase with ⟨huses, hcount, hbound⟩ | ⟨hcard, hlong⟩
    · refine .whole (mem_of_uses huses (fun x hx => hperm.mem_iff.mp hx) (List.mem_cons_self ..)) ?_ ?_
      · exact hcount.trans hperm.length_eq
      · exact hperm.length_eq ▸ hbound
    · rw [hperm.length_eq] at hlong
      exact .dropped (hcard.trans_le hlonger) hlong
  | more hstr hn =>
    unfold maxHistLen at hn
    rcases hphase with ⟨huses, hcount, hbound⟩ | ⟨hcard, hlong⟩
    · refine .whole (mem_of_uses huses (fun x hx => List.mem_cons_of_mem _ hx)
        (List.mem_cons_self ..)) ?_ ?_
      · rw [hnext, List.length_cons]
        omega
      · rw [List.length_cons, maxHistLen]
        omega
    · refine .dropped (hcard.trans_le hlonger) ?_
      rw [hnext, List.length_cons]
      unfold maxHistLen at *
      omega
  | full hstr hn =>
    have hlength : (str :: l.take (maxHistLen - 1)).length = maxHistLen := by
      have hlong := hphase.long hn
      rw [List.length_cons, List.length_take]
      unfold maxHistLen at *
      omega
    have hcount' : maxHistLen < (n + 1).toNat ∨ (n + 1).toNat = 0 := by
      rw [hnext]
      unfold maxHistLen at *
      have hlt := n.toNat_lt
      omega
    refine .dropped ?_ ?_
    · rcases hphase with ⟨huses, hcount, hbound⟩ | ⟨hcard, -⟩
      · -- an eleventh value
        rw [(hrecent.use (List.Sublist.refl l) hstr).card (mem_of_uses huses
          (fun x hx => List.mem_cons_of_mem _ hx) (List.mem_cons_self ..)), List.length_cons]
        omega
      · exact hcard.trans_le hlonger
    · rw [hlength]
      omega

end Counting

section Runs

variable {strs : List (Option CString)} {h h' : History} {nodes : List ℕ} {l : List CString}

theorem entered_snoc (strs : List (Option CString)) (str : Option CString) :
    entered (strs ++ [str]) = entered strs ++ entered [str] := List.filterMap_append

theorem addAll_snoc (str : Option CString) (h : addAll strs = .ok h') :
    addAll (strs ++ [str]) = addHistory str h' := by
  have hfold : addAll (strs ++ [str]) = addAll strs >>= fun h => [str].foldlM _ h := List.foldlM_append
  rw [hfold, h, CRun.ok_bind, List.foldlM_cons]
  exact bind_pure (addHistory str h')

theorem addAll_holds (strs : List (Option CString)) :
    ∃ h nodes l, addAll strs = .ok h ∧ Holds h nodes l ∧ Recent (entered strs) l ∧
      Phase (entered strs) h.histlen l := by
  induction strs using List.reverseRecOn with
  | nil =>
    refine ⟨History.empty, [], [], rfl, holds_empty, Recent.nil, ?_⟩
    exact .whole (List.forall_mem_nil _) rfl (Nat.zero_le _)
  | append_singleton strs str ih =>
    obtain ⟨h, nodes, l, hrun, hold, hrecent, hphase⟩ := ih
    rw [addAll_snoc str hrun, entered_snoc]
    by_cases hempty : entered [str] = []
    · -- NULL and the empty string change nothing
      have hsame : addHistory str h = .ok h := by
        cases str with
        | none => rfl
        | some str =>
          refine if_pos (by_contra fun hbytes => ?_)
          simp [entered, hbytes] at hempty
      rw [hsame, hempty, List.append_nil]
      exact ⟨h, nodes, l, rfl, hold, hrecent, hphase⟩
    · obtain ⟨str, rfl, hbytes⟩ : ∃ str', str = some str' ∧ str'.bytes ≠ [] := by
        cases str with
        | none => exact absurd rfl hempty
        | some str => exact ⟨str, rfl, fun hbytes => hempty (by simp [entered, hbytes])⟩
      have hentered : entered [some str] = [str] := by
        simp [entered, Option.filter_some, hbytes]
      have hadd : addHistory (some str) h = addString str h := if_neg hbytes
      obtain ⟨h', nodes', l', hrun', hold', hchange⟩ := hold.addString hphase.long str
      rw [hadd, hentered]
      exact ⟨h', nodes', l', hrun', hold', hchange.recent hrecent, hchange.phase hrecent hphase⟩

/-- A history that has counted its entries has never dropped one. -/
theorem WellKept.card_le (hkept : WellKept (entered strs) h nodes) (hrun : addAll strs = .ok h) :
    (entered strs).toFinset.card ≤ maxHistLen := by
  obtain ⟨h', nodes', l, hrun', hold, hrecent, hphase⟩ := addAll_holds strs
  obtain rfl := Except.ok.inj (hrun.symm.trans hrun')
  obtain rfl : nodes = nodes' :=
    hkept.linked.chained.unique hold.linked.chained (hkept.history.symm.trans hold.history)
  have hlength : l.length = nodes.length := by rw [← hold.entries, List.length_map]
  have hcounted := hkept.counted
  have hbounded := hkept.bounded
  rcases hphase with ⟨hall, -, hbound⟩ | ⟨-, hlong⟩
  · rwa [hrecent.card hall]
  · unfold maxHistLen at *
    omega

end Runs

/-- The history is well kept until an eleventh value is entered. -/
theorem well_kept_iff (strs : List (Option CString)) :
    (∃ h nodes, addAll strs = .ok h ∧ WellKept (entered strs) h nodes) ↔
      (entered strs).toFinset.card ≤ maxHistLen := by
  constructor
  · rintro ⟨h, nodes, hrun, hkept⟩
    exact hkept.card_le hrun
  · intro hcard
    obtain ⟨h, nodes, l, hrun, hold, hrecent, hphase⟩ := addAll_holds strs
    rcases hphase with ⟨-, hcount, hbound⟩ | ⟨hmore, -⟩
    · have hlength : l.length = nodes.length := by rw [← hold.entries, List.length_map]
      refine ⟨h, nodes, hrun, hold.linked, hold.history, hold.entries ▸ hrecent, ?_, ?_⟩
      · exact hlength ▸ hbound
      · exact hcount.trans hlength
    · exact absurd hcard (Nat.not_le_of_lt hmore)

/-- The hosts a to k. -/
def elevenHosts : List (Option CString) :=
  [97, 98, 99, 100, 101, 102, 103, 104, 105, 106, 107].map fun b => some ⟨cstr [b], nul_not_mem_cstr _⟩

/-- With eleven hosts the counter is past the length of the list. -/
theorem eleventh_host_counted : ¬ ∃ h nodes, addAll elevenHosts = .ok h ∧
    WellKept (entered elevenHosts) h nodes := by
  rintro ⟨h, nodes, hrun, hkept⟩
  exact absurd (hkept.card_le hrun) (by decide)

end Gftp.HistoryLists
