import Gftp.DirectoryReads
import Gftp.LexicalPaths

/-!
gftp_expand_path. The loop looks for a slash, skips the slashes behind it, and takes the
name up to the next slash, with all these slashes, into newstr; then it goes on one
character behind the slash it found. When three or more slashes stand together it finds the
same name again. A name for the parent directory cuts newstr at its last slash, so that
slashes in front of it stay. What stands in front of the first slash is not looked at.
-/

namespace Gftp.PathExpansion

open ByteStrings DirectoryReads LexicalPaths

/-- What getpwuid and getpwnam know of home directories. -/
structure Passwd where
  own : Option Bytes
  named : Bytes → Option Bytes

def homeDirectory (pw : Passwd) : Bytes → Option Bytes
  | 126 :: rest =>
      if rest = [] ∨ rest.head? = some 47 then pw.own else pw.named (rest.takeWhile (· ≠ 47))
  | _ => none

/-- newstr is cut at its last slash. -/
def takeBack (newstr : Bytes) : Option Bytes :=
  if 47 ∈ newstr then
    match (newstr.reverse.dropWhile (· ≠ 47)).tail.reverse with
    | [] => none
    | cut => some cut
  else some newstr

/-- What a name does to newstr, part being the name with the slashes in front of it. -/
def takeName (newstr : Option Bytes) (name part : Bytes) : Option Bytes :=
  if name = ascii ".." then newstr.bind takeBack
  else if name ≠ ascii "." then some (newstr.getD [] ++ part)
  else newstr

/-- The loop, which returns endpos and newstr. -/
def expandLoop : ℕ → Bytes → Option Bytes → CRun (Bytes × Option Bytes)
  | 0, _, _ => .error .pending
  | fuel + 1, endpos, newstr =>
      match endpos.dropWhile (· ≠ 47) with
      | [] => .ok (endpos, newstr)
      | slash :: pos =>
          let ntoken := pos.dropWhile (· = 47)
          let behind := ntoken.dropWhile (· ≠ 47)
          let newstr := takeName newstr (ntoken.takeWhile (· ≠ 47))
            (slash :: pos.take (pos.length - behind.length))
          if behind = [] then .ok ([], newstr) else expandLoop fuel (pos.drop 1) newstr

/-- gftp_expand_path. -/
def gftpExpandPath (pw : Passwd) (vms : Bool) (src : Bytes) : CRun Bytes := do
  let (endpos, newstr) ← expandLoop (src.length + 1) src none
  let newstr :=
    if endpos ≠ [] ∧ newstr = none then
      if endpos = ascii ".." then some [47] else some endpos
    else newstr
  let newstr :=
    match newstr with
    | none => [47]
    | some [] => [47]
    | some newstr => newstr
  match homeDirectory pw src with
  | none => return newstr
  | some dir =>
      match newstr.dropWhile (· ≠ 47) with
      | [] => return dir
      | pos => return gftpBuildPath vms dir pos

/-- The components are the lexical resolution of those of the path. -/
def Resolved (path result : Bytes) : Prop :=
  components 47 result = resolve (ascii ".") (ascii "..") (components 47 path) ∧
    (resolve (ascii ".") (ascii "..") (components 47 path) = [] → result = [47])

/-- Only the last component may stand behind more than two slashes. -/
def Once : List (Piece UInt8) → ℕ → Prop
  | [], _ => True
  | p :: pieces, tail => (pieces = [] ∧ tail = 0 ∨ p.slashes ≤ 2) ∧ Once pieces tail

/-- The slashes in front of the components kept, the last one first, and those that the last
component taken away has left over. A name for the parent directory finds none left over,
and when no component is kept at the end at most one slash is left. -/
def Settles : List ℕ → ℕ → List (Piece UInt8) → ℕ → Prop
  | held, left, [], tail => held = [] → left + tail ≤ 1
  | held, left, p :: pieces, tail =>
      if p.name = ascii ".." then
        match held with
        | [] => Settles [] (left - 1) pieces tail
        | k :: held => left = 0 ∧ Settles held (k - 1) pieces tail
      else if p.name = ascii "." then Settles held left pieces tail
      else Settles ((left + p.slashes) :: held) 0 pieces tail

/-- No name for the parent directory stands where no component is kept. -/
def StaysBelow : ℕ → List (Piece UInt8) → Prop
  | _, [] => True
  | depth, p :: pieces =>
      if p.name = ascii ".." then 0 < depth ∧ StaysBelow (depth - 1) pieces
      else if p.name = ascii "." then StaysBelow depth pieces
      else StaysBelow (depth + 1) pieces

/-- No component is taken twice, and none takes away a slash in place of a component. -/
def Regular (p : AbsolutePath (47 : UInt8)) : Prop :=
  Once p.pieces p.tail ∧ Settles [] 0 p.pieces p.tail

/-- newstr when the loop goes over each piece once. -/
def taken (pieces : List (Piece UInt8)) (newstr : Option Bytes) : Option Bytes :=
  pieces.foldl (fun newstr p => takeName newstr p.name (p.text 47)) newstr

def takenAll (pieces : List (Piece UInt8)) (tail : ℕ) (newstr : Option Bytes) : Option Bytes :=
  if tail = 0 then taken pieces newstr
  else some ((taken pieces newstr).getD [] ++ List.replicate tail 47)

theorem dropWhile_front {front : Bytes} (hfront : 47 ∉ front) (rest : Bytes) :
    (front ++ rest).dropWhile (· ≠ 47) = rest.dropWhile (· ≠ 47) := by
  apply List.dropWhile_append_of_pos
  intro c hc
  simpa using ne_of_mem_of_not_mem hc hfront

theorem dropWhile_slashes (k : ℕ) (rest : Bytes) :
    (List.replicate k 47 ++ rest).dropWhile (· = (47 : UInt8)) = rest.dropWhile (· = 47) := by
  apply List.dropWhile_append_of_pos
  intro c hc
  simpa using (List.mem_replicate.mp hc).2

theorem expandLoop_piece {p : Piece UInt8} (hp : p.WellFormed 47) {front behind : Bytes}
    (hfront : 47 ∉ front) (hbehind : behind = [] ∨ ∃ rest, behind = 47 :: rest) (fuel : ℕ)
    (newstr : Option Bytes) :
    expandLoop (fuel + 1) (front ++ (p.text 47 ++ behind)) newstr =
      if behind = [] then .ok ([], takeName newstr p.name (p.text 47))
      else expandLoop fuel ((p.text 47 ++ behind).drop 2) (takeName newstr p.name (p.text 47)) := by
  obtain ⟨k, hk⟩ := Nat.exists_eq_succ_of_ne_zero (Nat.ne_of_gt hp.slashes_pos)
  obtain ⟨c, name, hname⟩ := List.exists_cons_of_ne_nil hp.name_ne_nil
  have hc : c ≠ 47 := fun heq => hp.separated (hname ▸ heq ▸ List.mem_cons_self ..)
  have hstart : (front ++ (p.text 47 ++ behind)).dropWhile (· ≠ 47) =
      47 :: (List.replicate k 47 ++ (p.name ++ behind)) := by
    rw [dropWhile_front hfront, Piece.text, hk, List.replicate_succ]
    simp
  have hskip : (List.replicate k 47 ++ (p.name ++ behind)).dropWhile (· = (47 : UInt8)) =
      p.name ++ behind := by
    rw [dropWhile_slashes, hname, List.cons_append, List.dropWhile_cons_of_neg (by simpa using hc)]
  have hrest : (p.name ++ behind).dropWhile (· ≠ 47) = behind := by
    rw [dropWhile_front hp.separated]
    rcases hbehind with rfl | ⟨rest, rfl⟩ <;> simp
  have htoken : (p.name ++ behind).takeWhile (· ≠ 47) = p.name := by
    rw [List.takeWhile_append_of_pos fun d hd => by
      simpa using ne_of_mem_of_not_mem hd hp.separated]
    rcases hbehind with rfl | ⟨rest, rfl⟩ <;> simp
  have hpart : (47 : UInt8) :: (List.replicate k 47 ++ (p.name ++ behind)).take
      ((List.replicate k 47 ++ (p.name ++ behind)).length - behind.length) = p.text 47 := by
    have hlength : (List.replicate k (47 : UInt8) ++ (p.name ++ behind)).length - behind.length =
        (List.replicate k (47 : UInt8) ++ p.name).length := by
      simp only [List.length_append]
      omega
    rw [hlength, ← List.append_assoc, List.take_left, Piece.text, hk, List.replicate_succ]
    rfl
  rw [expandLoop, hstart]
  dsimp only
  rw [hskip, hrest, htoken, hpart, Piece.text, hk, List.replicate_succ]
  simp

theorem expandLoop_slashes {front : Bytes} (hfront : 47 ∉ front) (fuel k : ℕ)
    (newstr : Option Bytes) :
    expandLoop (fuel + 1) (front ++ List.replicate (k + 1) 47) newstr =
      .ok ([], some (newstr.getD [] ++ List.replicate (k + 1) 47)) := by
  have hstart : (front ++ List.replicate (k + 1) 47).dropWhile (· ≠ 47) =
      47 :: List.replicate k 47 := by
    rw [dropWhile_front hfront, List.replicate_succ]
    simp
  have hskip : (List.replicate k (47 : UInt8)).dropWhile (· = 47) = [] := by
    have hslashes := dropWhile_slashes k []
    rwa [List.append_nil] at hslashes
  rw [expandLoop, hstart]
  dsimp only
  rw [hskip]
  simp [takeName, ascii, List.replicate_succ]

theorem drop_piece {p : Piece UInt8} (hp : p.WellFormed 47) (hslashes : p.slashes ≤ 2)
    (behind : Bytes) : ∃ front, (p.text 47 ++ behind).drop 2 = front ++ behind ∧ 47 ∉ front := by
  obtain ⟨c, name, hname⟩ := List.exists_cons_of_ne_nil hp.name_ne_nil
  have hpos := hp.slashes_pos
  have hsep := hp.separated
  unfold Piece.text
  rw [hname] at hsep ⊢
  obtain hone | htwo : p.slashes = 1 ∨ p.slashes = 2 := by omega
  · refine ⟨name, ?_, fun hmem => hsep (List.mem_cons_of_mem _ hmem)⟩
    simp [hone]
  · refine ⟨c :: name, ?_, hsep⟩
    simp [htwo, List.replicate_succ]

/-- When only the last component may stand behind more slashes, each is taken once. -/
theorem expandLoop_once {pieces : List (Piece UInt8)} {tail fuel : ℕ} {front : Bytes}
    (hpieces : ∀ p ∈ pieces, p.WellFormed 47) (hne : pieces ≠ [] ∨ tail ≠ 0)
    (honce : Once pieces tail) (hfront : 47 ∉ front) (hfuel : pieces.length < fuel)
    (newstr : Option Bytes) :
    expandLoop fuel (front ++ pathText 47 pieces tail) newstr =
      .ok ([], takenAll pieces tail newstr) := by
  induction pieces generalizing front fuel newstr with
  | nil =>
    obtain ⟨k, rfl⟩ := Nat.exists_eq_succ_of_ne_zero (hne.resolve_left (absurd rfl))
    obtain ⟨fuel, rfl⟩ := Nat.exists_eq_succ_of_ne_zero (Nat.ne_of_gt hfuel)
    rw [pathText_nil, expandLoop_slashes hfront, takenAll, if_neg (Nat.succ_ne_zero k)]
    rfl
  | cons p pieces ih =>
    obtain ⟨fuel, rfl⟩ := Nat.exists_eq_succ_of_ne_zero (Nat.ne_of_gt (Nat.zero_lt_of_lt hfuel))
    rw [List.forall_mem_cons] at hpieces
    obtain ⟨hp, hpieces⟩ := hpieces
    obtain ⟨hslashes, honce⟩ := honce
    have htext : pathText 47 (p :: pieces) tail = p.text 47 ++ pathText 47 pieces tail := by
      simp [pathText]
    by_cases hend : pieces = [] ∧ tail = 0
    · have hnil := (@pathText_eq_nil _ 47 pieces tail hpieces).mpr hend
      rw [htext, expandLoop_piece hp hfront (Or.inl hnil), if_pos hnil, takenAll, if_pos hend.2,
        hend.1]
      rfl
    · have hrest := pathText_head hpieces (not_and_or.mp hend)
      have hnil := mt (pathText_eq_nil hpieces).mp hend
      obtain ⟨front', hdrop, hfront'⟩ := drop_piece hp (hslashes.resolve_left hend)
        (pathText 47 pieces tail)
      rw [htext, expandLoop_piece hp hfront (Or.inr hrest), if_neg hnil, hdrop,
        ih hpieces (not_and_or.mp hend) honce hfront' (Nat.lt_of_succ_lt_succ hfuel)]
      rfl

section Held

/-- newstr as pieces, the last one first, and slashes at its end. -/
def heldStr (held : List (Piece UInt8) × ℕ) : Option Bytes :=
  if held.1 = [] ∧ held.2 = 0 then none else some (pathText 47 held.1.reverse held.2)

/-- What a piece does to the pieces held. -/
def hold (held : List (Piece UInt8) × ℕ) (p : Piece UInt8) : List (Piece UInt8) × ℕ :=
  if p.name = ascii ".." then
    match held with
    | (pieces, left + 1) => (pieces, left)
    | ([], 0) => ([], 0)
    | (q :: pieces, 0) => (pieces, q.slashes - 1)
  else if p.name = ascii "." then held
  else (⟨held.2 + p.slashes, p.name⟩ :: held.1, 0)

theorem heldStr_getD (held : List (Piece UInt8) × ℕ) :
    (heldStr held).getD [] = pathText 47 held.1.reverse held.2 := by
  unfold heldStr
  split_ifs with hempty
  · rw [hempty.1, hempty.2]
    rfl
  · rfl

theorem takeBack_last (front : Bytes) {name : Bytes} (hname : 47 ∉ name) :
    takeBack (front ++ 47 :: name) = if front = [] then none else some front := by
  have hcut : ((front ++ 47 :: name).reverse.dropWhile (· ≠ 47)).tail.reverse = front := by
    have hreverse : (front ++ 47 :: name).reverse = name.reverse ++ 47 :: front.reverse := by simp
    rw [hreverse, dropWhile_front (by simpa using hname)]
    simp
  rw [takeBack, if_pos (by simp), hcut]
  cases front <;> rfl

theorem pathText_snoc (pieces : List (Piece UInt8)) (left : ℕ) (p : Piece UInt8) :
    pathText 47 pieces left ++ p.text 47 =
      pathText 47 (pieces ++ [⟨left + p.slashes, p.name⟩]) 0 := by
  simp only [pathText, Piece.text, List.flatMap_append, List.flatMap_singleton, List.replicate_add,
    List.replicate_zero, List.append_nil, List.append_assoc]

theorem takeName_hold {held : List (Piece UInt8) × ℕ} (h : ∀ q ∈ held.1, q.WellFormed 47)
    (p : Piece UInt8) :
    takeName (heldStr held) p.name (p.text 47) = heldStr (hold held p) := by
  unfold takeName hold
  by_cases hup : p.name = ascii ".."
  · rw [if_pos hup, if_pos hup]
    obtain ⟨pieces, left⟩ := held
    cases left with
    | succ left =>
      have htext : pathText 47 pieces.reverse (left + 1) = pathText 47 pieces.reverse left ++ [47] := by
        simp [pathText, List.replicate_succ']
      have hempty : pathText (47 : UInt8) pieces.reverse left = [] ↔ pieces = [] ∧ left = 0 := by
        rw [pathText_eq_nil (by simpa using h)]
        simp
      rw [heldStr, if_neg (by simp)]
      show takeBack (pathText 47 pieces.reverse (left + 1)) = heldStr (pieces, left)
      rw [htext, takeBack_last _ (by simp), heldStr]
      simp only [hempty]
    | zero =>
      cases pieces with
      | nil => rfl
      | cons q pieces =>
        rw [List.forall_mem_cons] at h
        obtain ⟨hq, h⟩ := h
        obtain ⟨k, hk⟩ := Nat.exists_eq_succ_of_ne_zero (Nat.ne_of_gt hq.slashes_pos)
        have htext : pathText 47 (q :: pieces).reverse 0 =
            pathText 47 pieces.reverse k ++ 47 :: q.name := by
          simp [pathText, Piece.text, hk, List.replicate_succ']
        have hempty : pathText (47 : UInt8) pieces.reverse k = [] ↔ pieces = [] ∧ k = 0 := by
          rw [pathText_eq_nil (by simpa using h)]
          simp
        rw [heldStr, if_neg (by simp)]
        show takeBack (pathText 47 (q :: pieces).reverse 0) = heldStr (pieces, q.slashes - 1)
        rw [htext, takeBack_last _ hq.separated, heldStr, hk]
        simp only [hempty, Nat.succ_sub_one]
  · rw [if_neg hup, if_neg hup]
    by_cases hhere : p.name = ascii "."
    · rw [if_neg (not_not.mpr hhere), if_pos hhere]
    · rw [if_pos hhere, if_neg hhere, heldStr_getD, pathText_snoc, heldStr, if_neg (by simp)]
      simp

theorem hold_wellFormed {held : List (Piece UInt8) × ℕ} (h : ∀ q ∈ held.1, q.WellFormed 47)
    {p : Piece UInt8} (hp : p.WellFormed 47) : ∀ q ∈ (hold held p).1, q.WellFormed 47 := by
  unfold hold
  split_ifs
  · obtain ⟨_ | ⟨q, pieces⟩, _ | left⟩ := held
    · exact h
    · exact h
    · exact (List.forall_mem_cons.mp h).2
    · exact h
  · exact h
  · rw [List.forall_mem_cons]
    exact ⟨⟨Nat.lt_of_lt_of_le hp.slashes_pos (Nat.le_add_left ..), hp.name_ne_nil, hp.separated⟩, h⟩

theorem taken_hold {pieces : List (Piece UInt8)} (hpieces : ∀ p ∈ pieces, p.WellFormed 47)
    {held : List (Piece UInt8) × ℕ} (h : ∀ q ∈ held.1, q.WellFormed 47) :
    taken pieces (heldStr held) = heldStr (pieces.foldl hold held) ∧
      ∀ q ∈ (pieces.foldl hold held).1, q.WellFormed 47 := by
  induction pieces generalizing held with
  | nil => exact ⟨rfl, h⟩
  | cons p pieces ih =>
    rw [List.forall_mem_cons] at hpieces
    obtain ⟨htaken, hwell⟩ := ih hpieces.2 (hold_wellFormed h hpieces.1)
    refine ⟨?_, hwell⟩
    rw [List.foldl_cons, ← htaken, ← takeName_hold h]
    rfl

/-- The path that the pieces held and the slashes behind them give. -/
def heldPath (held : List (Piece UInt8)) (slashes : ℕ) : Bytes :=
  if held = [] ∧ slashes = 0 then [47] else pathText 47 held.reverse slashes

theorem components_heldPath {held : List (Piece UInt8)} (h : ∀ q ∈ held, q.WellFormed 47)
    (slashes : ℕ) : components 47 (heldPath held slashes) = (held.map Piece.name).reverse := by
  unfold heldPath
  split_ifs with hempty
  · simp [hempty.1]
  · rw [components_pathText (by simpa using h), List.map_reverse]

theorem homeDirectory_slash (pw : Passwd) (rest : Bytes) : homeDirectory pw (47 :: rest) = none := by
  rw [homeDirectory]
  exact fun rest h => by simpa using (List.cons.inj h).1

/-- The slashes at the end stand behind the pieces held. -/
theorem takenAll_hold {pieces : List (Piece UInt8)} (hpieces : ∀ p ∈ pieces, p.WellFormed 47)
    (tail : ℕ) : takenAll pieces tail none =
      heldStr ((pieces.foldl hold ([], 0)).1, (pieces.foldl hold ([], 0)).2 + tail) := by
  obtain ⟨htaken, -⟩ := @taken_hold pieces hpieces ([], 0) (by simp)
  have hstart : heldStr (([] : List (Piece UInt8)), 0) = none := rfl
  rw [hstart] at htaken
  rw [takenAll, htaken]
  split_ifs with htail
  · rw [htail]
    rfl
  · rw [heldStr_getD, heldStr, if_neg (by simp; omega)]
    simp [pathText, List.append_assoc]

/-- The whole of gftp_expand_path on a path whose pieces are each taken once. -/
theorem gftpExpandPath_once (pw : Passwd) (vms : Bool) {p : AbsolutePath (47 : UInt8)}
    (honce : Once p.pieces p.tail) :
    gftpExpandPath pw vms p.text =
      .ok (heldPath (p.pieces.foldl hold ([], 0)).1 ((p.pieces.foldl hold ([], 0)).2 + p.tail)) := by
  obtain ⟨rest, hslash⟩ := pathText_head p.wellFormed p.nonempty
  have hfuel : p.pieces.length < p.text.length + 1 :=
    Nat.lt_succ_of_le (length_le_pathText p.wellFormed)
  have hloop := @expandLoop_once p.pieces p.tail _ [] p.wellFormed p.nonempty honce (by simp) hfuel
    none
  have hhome := homeDirectory_slash pw rest
  have hwell := (@taken_hold p.pieces p.wellFormed ([], 0) (by simp)).2
  rw [List.nil_append, takenAll_hold p.wellFormed] at hloop
  have htext : p.text = 47 :: rest := hslash
  rw [gftpExpandPath]
  rw [AbsolutePath.text] at hloop ⊢
  rw [hloop, CRun.ok_bind]
  dsimp only
  rw [if_neg (by simp), hslash, hhome, heldPath]
  generalize (p.pieces.foldl hold ([], 0)).1 = held at *
  generalize (p.pieces.foldl hold ([], 0)).2 + p.tail = slashes at *
  unfold heldStr
  by_cases hempty : held = [] ∧ slashes = 0
  · rw [if_pos hempty, if_pos hempty]
    rfl
  · rw [if_neg hempty, if_neg hempty]
    have hne : pathText 47 held.reverse slashes ≠ [] := by
      rw [ne_eq, pathText_eq_nil (by simpa using hwell), List.reverse_eq_nil_iff]
      exact hempty
    obtain ⟨c, newstr, hnewstr⟩ := List.exists_cons_of_ne_nil hne
    rw [hnewstr]
    rfl

end Held

section Resolution

variable {pieces : List (Piece UInt8)} {tail : ℕ} {held : List (Piece UInt8) × ℕ}
  {kept : List Bytes}

/-- The components kept so far with the names of the pieces still to come. -/
def keepAll (kept : List Bytes) (pieces : List (Piece UInt8)) : List Bytes :=
  (pieces.map Piece.name).foldl (resolveStep (ascii ".") (ascii "..")) kept

theorem keepAll_cons (p : Piece UInt8) : keepAll kept (p :: pieces) =
    keepAll (resolveStep (ascii ".") (ascii "..") kept p.name) pieces := rfl

/-- The pieces held have the names of the components kept, to the end. -/
theorem settles_names (h : Settles (held.1.map Piece.slashes) held.2 pieces tail)
    (hkept : kept = (held.1.map Piece.name).reverse) :
    keepAll kept pieces = ((pieces.foldl hold held).1.map Piece.name).reverse ∧
      ((pieces.foldl hold held).1 = [] → (pieces.foldl hold held).2 + tail ≤ 1) := by
  induction pieces generalizing held kept with
  | nil => exact ⟨hkept, fun hempty => h (by simpa using hempty)⟩
  | cons p pieces ih =>
    rw [keepAll_cons, List.foldl_cons]
    unfold Settles at h
    unfold hold resolveStep
    by_cases hup : p.name = ascii ".."
    · rw [if_pos hup] at h ⊢
      rw [if_pos hup]
      obtain ⟨_ | ⟨q, rest⟩, left⟩ := held
      · have hnone : kept.dropLast = [] := by
          rw [hkept]
          rfl
        rw [hnone]
        cases left with
        | zero => exact @ih ([], 0) [] h rfl
        | succ left => exact @ih ([], left) [] h rfl
      · obtain ⟨rfl, h⟩ : left = 0 ∧ Settles (rest.map Piece.slashes) (q.slashes - 1) pieces tail := h
        refine @ih (rest, q.slashes - 1) kept.dropLast h ?_
        rw [hkept, List.map_cons, List.reverse_cons, List.dropLast_concat]
    · rw [if_neg hup] at h ⊢
      rw [if_neg hup]
      by_cases hhere : p.name = ascii "."
      · rw [if_pos hhere] at h ⊢
        rw [if_pos hhere]
        exact ih h hkept
      · rw [if_neg hhere] at h ⊢
        rw [if_neg hhere]
        refine @ih (⟨held.2 + p.slashes, p.name⟩ :: held.1, 0) (kept ++ [p.name]) h ?_
        rw [hkept, List.map_cons, List.reverse_cons]

/-- More pieces held than components kept stay more, as no name for the parent directory
finds nothing kept. -/
theorem surplus_stays (h : kept.length < held.1.length) (hbelow : StaysBelow kept.length pieces) :
    (keepAll kept pieces).length < (pieces.foldl hold held).1.length := by
  induction pieces generalizing held kept with
  | nil => exact h
  | cons p pieces ih =>
    rw [keepAll_cons, List.foldl_cons]
    unfold StaysBelow at hbelow
    unfold hold resolveStep
    by_cases hup : p.name = ascii ".."
    · rw [if_pos hup] at hbelow ⊢
      rw [if_pos hup]
      obtain ⟨hpos, hbelow⟩ := hbelow
      rw [← List.length_dropLast] at hbelow
      refine ih ?_ hbelow
      obtain ⟨_ | ⟨q, rest⟩, _ | left⟩ := held
      all_goals simp only [List.length_dropLast, List.length_cons, List.length_nil] at h ⊢
      all_goals omega
    · rw [if_neg hup] at hbelow ⊢
      rw [if_neg hup]
      by_cases hhere : p.name = ascii "."
      · rw [if_pos hhere] at hbelow ⊢
        rw [if_pos hhere]
        exact ih h hbelow
      · rw [if_neg hhere] at hbelow ⊢
        rw [if_neg hhere]
        refine ih ?_ ?_
        · simpa using h
        · simpa using hbelow

/-- Where as many pieces are held as components are kept, each name for the parent directory
has taken one away. -/
theorem settles_of_names (hkept : kept.length = held.1.length)
    (hbelow : StaysBelow kept.length pieces)
    (hnames : (keepAll kept pieces).length = (pieces.foldl hold held).1.length)
    (hend : (pieces.foldl hold held).1 = [] → (pieces.foldl hold held).2 + tail ≤ 1) :
    Settles (held.1.map Piece.slashes) held.2 pieces tail := by
  induction pieces generalizing held kept with
  | nil =>
    intro hempty
    exact hend (List.map_eq_nil_iff.mp hempty)
  | cons p pieces ih =>
    rw [keepAll_cons, List.foldl_cons] at hnames
    rw [List.foldl_cons] at hend
    unfold StaysBelow at hbelow
    unfold hold at hnames hend
    unfold resolveStep at hnames
    unfold Settles
    by_cases hup : p.name = ascii ".."
    · rw [if_pos hup] at hbelow hnames hend ⊢
      rw [if_pos hup] at hnames
      obtain ⟨hpos, hbelow⟩ := hbelow
      rw [← List.length_dropLast] at hbelow
      obtain ⟨_ | ⟨q, rest⟩, _ | left⟩ := held
      · rw [hkept] at hpos
        exact absurd hpos (Nat.lt_irrefl 0)
      · rw [hkept] at hpos
        exact absurd hpos (Nat.lt_irrefl 0)
      · refine ⟨rfl, @ih (rest, q.slashes - 1) kept.dropLast ?_ hbelow hnames hend⟩
        simp only [List.length_dropLast, hkept, List.length_cons, Nat.add_sub_cancel]
      · have hless : kept.dropLast.length < (q :: rest).length := by
          simp only [List.length_dropLast, hkept, List.length_cons]
          omega
        have hmore := @surplus_stays pieces (q :: rest, left) kept.dropLast hless hbelow
        exact absurd hnames (Nat.ne_of_lt hmore)
    · rw [if_neg hup] at hbelow hnames hend ⊢
      rw [if_neg hup] at hnames
      by_cases hhere : p.name = ascii "."
      · rw [if_pos hhere] at hbelow hnames hend ⊢
        rw [if_pos hhere] at hnames
        exact ih hkept hbelow hnames hend
      · rw [if_neg hhere] at hbelow hnames hend ⊢
        rw [if_neg hhere] at hnames
        refine @ih (⟨held.2 + p.slashes, p.name⟩ :: held.1, 0) (kept ++ [p.name]) ?_ ?_ hnames hend
        · simpa using hkept
        · simpa using hbelow

theorem resolve_text (p : AbsolutePath (47 : UInt8)) :
    resolve (ascii ".") (ascii "..") (components 47 p.text) = keepAll [] p.pieces := by
  rw [AbsolutePath.text, components_pathText p.wellFormed]
  rfl

/-- A path whose pieces are each taken once is resolved when the pieces held at the end are
its components, with not more than one slash when there is none. -/
theorem resolved_iff (pw : Passwd) (vms : Bool) {p : AbsolutePath (47 : UInt8)}
    (honce : Once p.pieces p.tail) :
    (∃ result, gftpExpandPath pw vms p.text = .ok result ∧ Resolved p.text result) ↔
      keepAll [] p.pieces = ((p.pieces.foldl hold ([], 0)).1.map Piece.name).reverse ∧
        ((p.pieces.foldl hold ([], 0)).1 = [] → (p.pieces.foldl hold ([], 0)).2 + p.tail ≤ 1) := by
  have hwell := (@taken_hold p.pieces p.wellFormed ([], 0) (by simp)).2
  rw [gftpExpandPath_once pw vms honce]
  unfold Resolved
  rw [resolve_text]
  generalize (p.pieces.foldl hold ([], 0)).1 = held at *
  generalize (p.pieces.foldl hold ([], 0)).2 + p.tail = slashes
  have hroot : heldPath [] slashes = [47] ↔ slashes ≤ 1 := by
    unfold heldPath
    split_ifs with hempty
    · simp [hempty.2]
    · rw [List.reverse_nil, pathText_nil]
      have hpos : slashes ≠ 0 := fun h => hempty ⟨rfl, h⟩
      constructor
      · intro h
        have hlength := congrArg List.length h
        rw [List.length_replicate, List.length_singleton] at hlength
        omega
      · intro h
        rw [show slashes = 1 by omega]
        rfl
  constructor
  · rintro ⟨result, hresult, hnames, hend⟩
    obtain rfl := Except.ok.inj hresult
    rw [components_heldPath hwell] at hnames
    refine ⟨hnames.symm, ?_⟩
    rintro rfl
    exact hroot.mp (hend hnames.symm)
  · rintro ⟨hnames, hend⟩
    refine ⟨_, rfl, ?_, fun hempty => ?_⟩
    · rw [components_heldPath hwell, hnames]
    · have hnil : held = [] := by simpa [hempty] using hnames
      subst hnil
      exact hroot.mpr (hend rfl)

end Resolution

/-- A path that begins with a slash is resolved when no component is taken twice and every
name for the parent directory takes away a component; and when no component can be taken
twice and none of these names stands where nothing is kept, only then. -/
theorem absolute_path_resolved (pw : Passwd) (vms : Bool) {path : Bytes}
    (h : path.head? = some 47) :
    (∃ p : AbsolutePath (47 : UInt8), p.text = path) ∧
      ∀ p : AbsolutePath (47 : UInt8), p.text = path →
        (Regular p → ∃ result, gftpExpandPath pw vms path = .ok result ∧ Resolved path result) ∧
        (Once p.pieces p.tail → StaysBelow 0 p.pieces →
          (∃ result, gftpExpandPath pw vms path = .ok result ∧ Resolved path result) →
            Regular p) := by
  refine ⟨AbsolutePath.exists_text h, ?_⟩
  rintro p rfl
  constructor
  · rintro ⟨honce, hsettles⟩
    exact (resolved_iff pw vms honce).mpr (settles_names hsettles rfl)
  · intro honce hbelow hresult
    obtain ⟨hnames, hend⟩ := (resolved_iff pw vms honce).mp hresult
    refine ⟨honce, @settles_of_names p.pieces p.tail ([], 0) [] rfl hbelow ?_ hend⟩
    rw [hnames, List.length_reverse, List.length_map]

/-- No home directory is known. -/
def noHome : Passwd := ⟨none, fun _ => none⟩

theorem usr_wellFormed : ∀ p ∈ [⟨1, ascii "usr"⟩, ⟨2, ascii "lib"⟩, ⟨1, ascii ".."⟩, ⟨1, ascii "bin"⟩],
    Piece.WellFormed 47 p := by
  have hall : ∀ p ∈ [Piece.mk 1 (ascii "usr"), ⟨2, ascii "lib"⟩, ⟨1, ascii ".."⟩, ⟨1, ascii "bin"⟩],
      0 < p.slashes ∧ p.name ≠ [] ∧ 47 ∉ p.name := by decide
  exact fun p hp => ⟨(hall p hp).1, (hall p hp).2.1, (hall p hp).2.2⟩

/-- /usr//lib/../bin -/
theorem usr_bin_resolved :
    ∃ result, gftpExpandPath noHome false (ascii "/usr//lib/../bin") = .ok result ∧
      Resolved (ascii "/usr//lib/../bin") result :=
  ((absolute_path_resolved noHome false (by decide)).2
    ⟨[⟨1, ascii "usr"⟩, ⟨2, ascii "lib"⟩, ⟨1, ascii ".."⟩, ⟨1, ascii "bin"⟩], 0, usr_wellFormed,
      Or.inl (by simp)⟩ (by decide)).1
    (by simp [Regular, Once, Settles, ascii])

/-- A component behind three slashes is taken twice. -/
theorem three_slashes :
    gftpExpandPath noHome false (ascii "/a///b/c") = .ok (ascii "/a///b/b/c") ∧
      ¬ Resolved (ascii "/a///b/c") (ascii "/a///b/b/c") := by
  refine ⟨by decide, fun h => ?_⟩
  exact absurd h.1 (by decide)

/-- The slash of a component taken away is left over. -/
example : gftpExpandPath noHome false (ascii "/a//b/../..") = .ok (ascii "/a") := by decide

section Relative

/-- A path none of whose components is empty or a name for a directory itself or its parent. -/
def Ordinary (path : Bytes) : Prop :=
  ∀ name ∈ path.splitOn 47, name ≠ [] ∧ name ≠ ascii "." ∧ name ≠ ascii ".."

/-- The same components, and still a relative path. -/
def Kept (path result : Bytes) : Prop :=
  components 47 result = components 47 path ∧ result.head? ≠ some 47

theorem taken_ordinary {pieces : List (Piece UInt8)}
    (h : ∀ p ∈ pieces, p.name ≠ ascii "." ∧ p.name ≠ ascii "..") (newstr : Option Bytes) :
    (taken pieces newstr).getD [] = newstr.getD [] ++ pathText 47 pieces 0 ∧
      (pieces ≠ [] → (taken pieces newstr).isSome) := by
  induction pieces generalizing newstr with
  | nil => exact ⟨by simp [taken, pathText], by simp⟩
  | cons p pieces ih =>
    rw [List.forall_mem_cons] at h
    obtain ⟨⟨hhere, hup⟩, h⟩ := h
    have htaken : taken (p :: pieces) newstr =
        taken pieces (some (newstr.getD [] ++ p.text 47)) := by
      rw [taken, List.foldl_cons, takeName, if_neg hup, if_pos hhere]
      rfl
    obtain ⟨htext, hsome⟩ := ih h (some (newstr.getD [] ++ p.text 47))
    rw [htaken, htext]
    refine ⟨?_, fun _ => ?_⟩
    · simp [pathText]
    · by_cases hne : pieces = []
      · rw [hne]
        rfl
      · exact hsome hne

theorem homeDirectory_other (pw : Passwd) {path : Bytes} (h : path.head? ≠ some 126) :
    homeDirectory pw path = none := by
  unfold homeDirectory
  split
  · exact absurd rfl h
  · rfl

/-- What stands in front of the first slash is lost. -/
theorem relative_path_cut (pw : Passwd) (vms : Bool) {front : Bytes} {names : List Bytes}
    (hfront : 47 ∉ front) (hnames : ∀ name ∈ names, 47 ∉ name ∧ name ≠ [] ∧ name ≠ ascii "." ∧
      name ≠ ascii "..") (hne : names ≠ [])
    (htilde : (front ++ names.flatMap (47 :: ·)).head? ≠ some 126) :
    gftpExpandPath pw vms (front ++ names.flatMap (47 :: ·)) = .ok (names.flatMap (47 :: ·)) := by
  have htext : names.flatMap (47 :: ·) = pathText 47 (names.map (Piece.mk 1)) 0 := by
    simp [pathText, Piece.text, List.flatMap_map]
  have hpieces : ∀ p ∈ names.map (Piece.mk 1), p.WellFormed 47 := by
    rw [List.forall_mem_map]
    intro name hname
    exact ⟨Nat.one_pos, (hnames name hname).2.1, (hnames name hname).1⟩
  have honce (l : List Bytes) : Once (l.map (Piece.mk 1)) 0 := by
    induction l with
    | nil => trivial
    | cons name l ih => exact ⟨Or.inr (by simp), ih⟩
  obtain ⟨name, rest, hcons⟩ := List.exists_cons_of_ne_nil hne
  have hordinary : ∀ p ∈ names.map (Piece.mk 1), p.name ≠ ascii "." ∧ p.name ≠ ascii ".." := by
    rw [List.forall_mem_map]
    exact fun name hname => (hnames name hname).2.2
  obtain ⟨htaken, hsome⟩ := taken_ordinary hordinary none
  rw [Option.getD_none, List.nil_append, ← htext] at htaken
  obtain ⟨newstr, hnewstr⟩ := Option.isSome_iff_exists.mp (hsome (by simpa using hne))
  rw [hnewstr, Option.getD_some] at htaken
  have hfuel : (names.map (Piece.mk 1)).length < (front ++ names.flatMap (47 :: ·)).length + 1 := by
    have hle := @length_le_pathText _ 47 (names.map (Piece.mk 1)) 0 hpieces
    rw [← htext] at hle
    rw [List.length_append]
    omega
  have hloop := expandLoop_once hpieces (Or.inl (by simpa using hne)) (honce names) hfront hfuel none
  rw [← htext, takenAll, if_pos rfl, hnewstr, htaken] at hloop
  rw [gftpExpandPath, hloop, CRun.ok_bind]
  dsimp only
  rw [if_neg (by simp), homeDirectory_other pw htilde, hcons, List.flatMap_cons]
  rfl

/-- A relative path is kept when it is a single component; what stands in front of its first
slash is lost otherwise. -/
theorem relative_path_kept_iff (pw : Passwd) (vms : Bool) {path : Bytes}
    (hrelative : path.head? ≠ some 47) (htilde : path.head? ≠ some 126) (hordinary : Ordinary path) :
    (∃ result, gftpExpandPath pw vms path = .ok result ∧ Kept path result) ↔ 47 ∉ path := by
  obtain ⟨front, names, hsplit, hpath, hfront, hnames⟩ := exists_names 47 path
  unfold Ordinary at hordinary
  rw [hsplit, List.forall_mem_cons] at hordinary
  obtain ⟨⟨hne, -, hup⟩, hordinary⟩ := hordinary
  by_cases hsingle : names = []
  · subst hsingle
    rw [List.flatMap_nil, List.append_nil] at hpath
    subst hpath
    have hnone : path.dropWhile (· ≠ 47) = [] := by
      rw [List.dropWhile_eq_nil_iff]
      intro c hc
      simpa using ne_of_mem_of_not_mem hc hfront
    have hrun : gftpExpandPath pw vms path = .ok path := by
      rw [gftpExpandPath, expandLoop, hnone, CRun.ok_bind]
      dsimp only
      rw [if_pos ⟨hne, rfl⟩, if_neg hup, homeDirectory_other pw htilde]
      obtain ⟨c, rest, hcons⟩ := List.exists_cons_of_ne_nil hne
      rw [hcons]
      rfl
    exact ⟨fun _ => hfront, fun _ => ⟨path, hrun, rfl, hrelative⟩⟩
  · have hall : ∀ name ∈ names, 47 ∉ name ∧ name ≠ [] ∧ name ≠ ascii "." ∧ name ≠ ascii ".." :=
      fun name hname => ⟨hnames name hname, hordinary name hname⟩
    have hrun := relative_path_cut pw vms hfront hall hsingle (hpath ▸ htilde)
    obtain ⟨name, rest, hcons⟩ := List.exists_cons_of_ne_nil hsingle
    rw [← hpath] at hrun
    constructor
    · rintro ⟨result, hresult, -, hhead⟩
      obtain rfl := Except.ok.inj (hrun.symm.trans hresult)
      rw [hcons] at hhead
      exact absurd rfl hhead
    · intro hslash
      rw [hpath, hcons] at hslash
      simp at hslash

theorem docs_kept : ∃ result, gftpExpandPath noHome false (ascii "docs") = .ok result ∧
    Kept (ascii "docs") result :=
  (relative_path_kept_iff noHome false (by decide) (by decide) (by unfold Ordinary; decide)).mpr
    (by decide)

/-- Of two components the second one is left, as an absolute path. -/
theorem first_component_lost :
    gftpExpandPath noHome false (ascii "src/lib") = .ok (ascii "/lib") ∧
      ¬ Kept (ascii "src/lib") (ascii "/lib") := by
  refine ⟨by decide, fun h => ?_⟩
  exact absurd h.2 (by decide)

end Relative

end Gftp.PathExpansion
