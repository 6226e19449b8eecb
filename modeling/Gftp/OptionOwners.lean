import Gftp.OptionStore
import Gftp.Runs

/-!
Who owns the values of options. A value that was allocated belongs to one record. The setters
of a request or a bookmark start from a copy of the global record, flag and pointer included,
so they free the global value when that one was allocated.
-/

namespace Gftp.OptionOwners

open ByteStrings OptionTables OptionValues OptionStore Runs

/-- The value pointer is an allocated block. -/
def Points (cv : ConfigVar) (x : ℕ) : Prop := cv.value = .block x

/-- The value can be read, and the flag stands for allocated values. -/
structure Sound (mem : Memory) (cv : ConfigVar) : Prop where
  readable : shown mem cv ≠ none
  flagged : ∀ x, Points cv x → cv.dynmem = true
  allocated : cv.dynmem = true → cv.value = .null ∨ ∃ x, Points cv x

section Records

variable {mem mem' : Memory} {a x : ℕ} {value : Setting} {cv cv' : ConfigVar}

theorem contentOf_congr {v : Value} (h : ∀ x, v = .block x → mem' x = mem x) :
    contentOf mem' v = contentOf mem v := by
  cases v with
  | block x => exact h x rfl
  | null => rfl
  | word n => rfl
  | static c => rfl

theorem shown_congr (h : ∀ x, Points cv x → mem' x = mem x) : shown mem' cv = shown mem cv := by
  unfold shown
  rw [contentOf_congr h]

theorem Sound.block_some (h : Sound mem cv) (hx : Points cv x) : mem x ≠ none := by
  intro hnone
  refine h.readable ?_
  unfold shown
  rw [hx, contentOf, hnone]
  cases kindOf cv.otype <;> rfl

/-- What is left of the memory once the value of a record is freed. -/
def released (mem : Memory) (cv : ConfigVar) : Memory :=
  match cv.value with
  | .block x => Function.update mem x none
  | _ => mem

theorem released_self (hx : Points cv x) : released mem cv x = none := by
  rw [released, hx]
  exact Function.update_self ..

theorem released_other (hx : ¬ Points cv x) : released mem cv x = mem x := by
  unfold released
  cases hvalue : cv.value with
  | block y =>
    have hne : x ≠ y := fun heq => hx (heq ▸ hvalue)
    exact Function.update_of_ne hne ..
  | null => rfl
  | word n => rfl
  | static c => rfl

theorem Sound.freed (h : Sound mem cv) : freeValue mem cv = .ok (released mem cv) := by
  unfold freeValue released
  cases hflag : cv.dynmem with
  | true =>
    rcases h.allocated hflag with hnull | ⟨x, hx⟩
    · rw [hnull]
      rfl
    · have hsome := Option.ne_none_iff_isSome.mp (h.block_some hx)
      rw [show cv.value = .block x from hx]
      simp only [hsome, if_true]
      rfl
  | false =>
    cases hvalue : cv.value with
    | block x => exact absurd (hflag.symm.trans (h.flagged x hvalue)) nofun
    | null => rfl
    | word n => rfl
    | static c => rfl

/-- What a copy function leaves when the record cv is set to a value. -/
structure Copied (mem : Memory) (value : Setting) (cv : ConfigVar) (mem' : Memory)
    (cv' : ConfigVar) : Prop where
  same : cv'.toOptionVar = cv.toOptionVar
  shows : shown mem' cv' = some value
  sound : Sound mem' cv'
  frame : ∀ x, ¬ Points cv x → ¬ Points cv' x → mem' x = mem x
  fresh : ∀ x, Points cv' x → mem x = none ∨ Points cv x
  gone : ∀ x, Points cv x → ¬ Points cv' x → mem' x = none

theorem copied_block {c : Content}
    (hfree : released mem cv a = none)
    (hshows : shown (Function.update (released mem cv) a (some c))
      { cv with value := .block a, dynmem := true } = some value) :
    Copied mem value cv (Function.update (released mem cv) a (some c))
      { cv with value := .block a, dynmem := true } where
  same := rfl
  shows := hshows
  sound :=
    { readable := by
        rw [hshows]
        exact nofun
      flagged := fun _ _ => rfl
      allocated := fun _ => .inr ⟨a, rfl⟩ }
  frame x hx hx' := by
    have hne : x ≠ a := fun heq => hx' (heq ▸ rfl)
    exact (Function.update_of_ne hne ..).trans (released_other hx)
  fresh x hx := by
    obtain rfl : a = x := Value.block.inj hx
    by_cases hold : Points cv a
    · exact .inr hold
    · exact .inl ((released_other hold).symm.trans hfree)
  gone x hx hx' := by
    have hne : x ≠ a := fun heq => hx' (heq ▸ rfl)
    exact (Function.update_of_ne hne ..).trans (released_self hx)

theorem allocate_cases (mem : Memory) (a : ℕ) (c : Content) :
    allocate mem a c = .error .taken ∨
      mem a = none ∧ allocate mem a c = .ok (Function.update mem a (some c)) := by
  unfold allocate
  cases hmem : mem a with
  | none => exact .inr ⟨rfl, rfl⟩
  | some c' => exact .inl rfl

/-- The old value can be freed, and there is none when the value is kept in the pointer. -/
structure Disposable (mem : Memory) (cv : ConfigVar) : Prop where
  freed : freeValue mem cv = .ok (released mem cv)
  word : kindOf cv.otype = .word → cv.dynmem = false ∧ ∀ x, ¬ Points cv x

theorem Sound.disposable (h : Sound mem cv) : Disposable mem cv where
  freed := h.freed
  word hkind := by
    have hvalue : cv.value.asWord ≠ none := by
      have hread := h.readable
      rwa [shown, hkind] at hread
    have hpoints (x : ℕ) : ¬ Points cv x := by
      intro hx
      rw [hx] at hvalue
      exact hvalue rfl
    refine ⟨?_, hpoints⟩
    cases hflag : cv.dynmem with
    | false => rfl
    | true =>
      rcases h.allocated hflag with hnull | ⟨x, hx⟩
      · rw [hnull] at hvalue
        exact absurd rfl hvalue
      · exact absurd hx (hpoints x)

theorem cleared_disposable (mem : Memory) (cv : ConfigVar) :
    Disposable mem { cv with value := .null, dynmem := false } :=
  ⟨rfl, fun _ => ⟨rfl, fun _ hx => absurd hx nofun⟩⟩

theorem copyFunction_spec (h : Disposable mem cv) (hkind : value.kind = kindOf cv.otype) :
    copyFunction mem a value cv = .error .taken ∨
      ∃ mem' cv', copyFunction mem a value cv = .ok (mem', cv') ∧
        Copied mem value cv mem' cv' := by
  unfold copyFunction
  cases value with
  | word n =>
    have hword : kindOf cv.otype = .word := hkind.symm
    obtain ⟨hflag, hpoints⟩ := h.word hword
    rw [hword]
    refine .inr ⟨mem, { cv with value := .word n }, rfl, ?_⟩
    have hshows : shown mem { cv with value := .word n } = some (.word n) := by
      simp only [shown, hword]
      rfl
    exact ⟨rfl, hshows, ⟨by rw [hshows]; exact nofun, fun x hx => absurd hx nofun,
      fun htrue => absurd (hflag.symm.trans htrue) nofun⟩, fun _ _ _ => rfl,
      fun x hx => absurd hx nofun, fun x hx => absurd hx (hpoints x)⟩
  | color c =>
    have hcolor : kindOf cv.otype = .color := hkind.symm
    rw [hcolor]
    simp only [h.freed, bind, Except.bind]
    rcases allocate_cases (released mem cv) a (.color c) with htaken | ⟨hnone, hok⟩
    · exact .inl (by rw [htaken])
    · refine .inr ⟨_, _, by rw [hok]; rfl, copied_block hnone ?_⟩
      simp only [shown, hcolor, contentOf, Function.update_self]
      rfl
  | text t =>
    have htext : kindOf cv.otype = .text := hkind.symm
    rw [htext]
    cases t with
    | none =>
      have hshows : shown (released mem cv) { cv with value := .null } = some (.text none) := by
        simp only [shown, htext, if_true]
      refine .inr ⟨released mem cv, { cv with value := .null }, ?_, rfl, hshows,
        ⟨by rw [hshows]; exact nofun, fun x hx => absurd hx nofun, fun _ => .inl rfl⟩,
        fun x hx _ => released_other hx, fun x hx => absurd hx nofun, fun x hx _ => released_self hx⟩
      simp only [h.freed, bind, Except.bind]
      rfl
    | some t =>
      simp only [h.freed, bind, Except.bind]
      rcases allocate_cases (released mem cv) a (.text t) with htaken | ⟨hnone, hok⟩
      · exact .inl (by rw [htaken])
      · refine .inr ⟨_, _, by rw [hok]; rfl, copied_block hnone ?_⟩
        simp only [shown, htext, contentOf, Function.update_self]
        rfl

end Records

section Separate

variable {ι : Type}

/-- A record of the program, by where it is. -/
inductive Position (ι : Type)
  | global (key : Bytes)
  | element (o : ι) (i : ℕ)
  deriving DecidableEq

def record (s : Options ι) : Position ι → Option ConfigVar
  | .global key => s.globals key
  | .element o i => (s.locals o).vars[i]?

/-- No string and no colour belongs to two records. -/
def SingleOwner (s : Options ι) : Prop :=
  ∀ r r' cv cv' x, record s r = some cv → record s r' = some cv' →
    cv.dynmem = true → Points cv x → cv'.dynmem = true → Points cv' x → r = r'

/-- Records that can be read and freed, each with a value of its own. The elements that the hash
tables give are copies of the global record with the key. -/
structure Separate (s : Options ι) : Prop where
  keyed : ∀ key cv, s.globals key = some cv → cv.key = key
  sound : ∀ r cv, record s r = some cv → Sound s.mem cv
  single : ∀ r r' cv cv' x, record s r = some cv → record s r' = some cv' → Points cv x →
    Points cv' x → r = r'
  hashed : ∀ o key p, (s.locals o).hash key = some p → ∃ cv g,
    (s.locals o).vars[p.index]? = some cv ∧ s.globals key = some g ∧
      cv.toOptionVar = g.toOptionVar

theorem Separate.singleOwner {s : Options ι} (h : Separate s) : SingleOwner s :=
  fun r r' cv cv' x hr hr' _ hx _ hx' => h.single r r' cv cv' x hr hr' hx hx'

/-- The global options are as they were, and show what they showed. -/
def GlobalsKept (s s' : Options ι) : Prop :=
  ∀ key cv, s.globals key = some cv → s'.globals key = some cv ∧ shown s'.mem cv = shown s.mem cv

/-- One record was set. -/
structure Put (s : Options ι) (r : Position ι) (s' : Options ι) : Prop where
  sound : ∀ r' cv, record s' r' = some cv → Sound s'.mem cv
  single : ∀ r₁ r₂ cv₁ cv₂ x, record s' r₁ = some cv₁ → record s' r₂ = some cv₂ → Points cv₁ x →
    Points cv₂ x → r₁ = r₂
  others : ∀ r' cv, r' ≠ r → record s r' = some cv → shown s'.mem cv = shown s.mem cv

variable {s s' : Options ι} {r : Position ι} {value : Setting} {cv cv' : ConfigVar}
  {mem' : Memory}

/-- A copy is put in the place of a record, or behind the others, where no other record points
to its block. -/
theorem Separate.put (h : Separate s) (hc : Copied s.mem value cv mem' cv')
    (hshare : ∀ r' v x, record s r' = some v → Points v x → Points cv x → r' = r)
    (hmem : s'.mem = mem') (hself : record s' r = some cv')
    (hrecord : ∀ r', r' ≠ r → record s' r' = record s r') : Put s r s' := by
  have hother (r' : Position ι) (v : ConfigVar) (hne : r' ≠ r) (hv : record s r' = some v) (x : ℕ)
      (hx : Points v x) : ¬ Points cv x ∧ ¬ Points cv' x := by
    have hcv : ¬ Points cv x := fun hcv => hne (hshare r' v x hv hx hcv)
    refine ⟨hcv, fun hcv' => ?_⟩
    rcases hc.fresh x hcv' with hnone | hcv'
    · exact (h.sound r' v hv).block_some hx hnone
    · exact hcv hcv'
  have hmem' (r' : Position ι) (v : ConfigVar) (hne : r' ≠ r) (hv : record s r' = some v) (x : ℕ)
      (hx : Points v x) : s'.mem x = s.mem x := by
    obtain ⟨hcv, hcv'⟩ := hother r' v hne hv x hx
    exact hmem ▸ hc.frame x hcv hcv'
  have hshown (r' : Position ι) (v : ConfigVar) (hne : r' ≠ r) (hv : record s r' = some v) :
      shown s'.mem v = shown s.mem v := shown_congr (hmem' r' v hne hv)
  refine ⟨fun r' v hv => ?_, fun r₁ r₂ v₁ v₂ x hv₁ hv₂ hx₁ hx₂ => ?_, hshown⟩
  · by_cases hr : r' = r
    · subst hr
      obtain rfl := Option.some.inj (hself.symm.trans hv)
      exact hmem ▸ hc.sound
    · rw [hrecord r' hr] at hv
      have hsound := h.sound r' v hv
      exact ⟨hshown r' v hr hv ▸ hsound.readable, hsound.flagged, hsound.allocated⟩
  · by_cases hr₁ : r₁ = r <;> by_cases hr₂ : r₂ = r
    · exact hr₁.trans hr₂.symm
    · subst hr₁
      obtain rfl := Option.some.inj (hself.symm.trans hv₁)
      rw [hrecord r₂ hr₂] at hv₂
      exact absurd hx₁ (hother r₂ v₂ hr₂ hv₂ x hx₂).2
    · subst hr₂
      obtain rfl := Option.some.inj (hself.symm.trans hv₂)
      rw [hrecord r₁ hr₁] at hv₁
      exact absurd hx₂ (hother r₁ v₁ hr₁ hv₁ x hx₁).2
    · rw [hrecord r₁ hr₁] at hv₁
      rw [hrecord r₂ hr₂] at hv₂
      exact h.single r₁ r₂ v₁ v₂ x hv₁ hv₂ hx₁ hx₂

theorem Put.globalsKept {o : ι} {i : ℕ} (h : Put s (.element o i) s')
    (hglobals : s'.globals = s.globals) : GlobalsKept s s' := fun key cv hcv =>
  ⟨hglobals ▸ hcv, h.others (.global key) cv nofun hcv⟩

end Separate

section Calls

variable {ι : Type} [DecidableEq ι] {F : Floats} {s : Options ι} {o : ι} {a b : ℕ}
  {value : Setting} {cv : ConfigVar} {key : Bytes}

theorem readFunction_kind {cv : OptionVar} {str : Bytes} (h : readFunction F cv str = .ok value) :
    value.kind = kindOf cv.otype := by
  unfold readFunction at h
  cases hotype : cv.otype
  case color =>
    rw [hotype] at h
    obtain ⟨fields, -, hfields⟩ := CRun.bind_eq_ok.mp h
    split at hfields
    · exact Except.ok.inj hfields ▸ rfl
    · exact absurd hfields nofun
  case notebook =>
    rw [hotype] at h
    exact absurd h nofun
  all_goals
    rw [hotype] at h
    exact Except.ok.inj h ▸ rfl

/-- A value of a line of the bookmarks file is read into a record without a value. -/
theorem readInto_spec (mem : Memory) (a : ℕ) (hkind : value.kind = kindOf cv.otype) :
    readInto mem a value { cv with value := .null, dynmem := false } = .error .taken ∨
      ∃ mem' cv', readInto mem a value { cv with value := .null, dynmem := false } = .ok (mem', cv') ∧
        Copied mem value { cv with value := .null, dynmem := false } mem' cv' := by
  by_cases hcombo : cv.otype = .textcombo
  · rw [hcombo] at hkind
    cases value with
    | word n => exact absurd hkind nofun
    | color c => exact absurd hkind nofun
    | text t =>
      have hkept (v : Value) (hv : ∀ x, v ≠ .block x)
          (hshows : shown mem { cv with value := v, dynmem := false } = some (.text t)) :
          Copied mem (.text t) { cv with value := .null, dynmem := false } mem
            { cv with value := v, dynmem := false } :=
        { same := rfl
          shows := hshows
          sound := ⟨by rw [hshows]; exact nofun, fun x hx => absurd hx (hv x), nofun⟩
          frame := fun _ _ _ => rfl
          fresh := fun x hx => absurd hx (hv x)
          gone := fun x hx => absurd hx nofun }
      cases t with
      | none =>
        refine .inr ⟨mem, _, ?_, hkept .null (fun _ => nofun) ?_⟩
        · simp only [readInto, hcombo]
          rfl
        · simp [shown, hcombo, kindOf]
      | some entry =>
        refine .inr ⟨mem, _, ?_, hkept (.static (.text entry)) (fun _ => nofun) ?_⟩
        · simp only [readInto, hcombo]
          rfl
        · simp only [shown, hcombo, kindOf]
          rfl
  · have hcopy : readInto mem a value { cv with value := .null, dynmem := false } =
        copyFunction mem a value { cv with value := .null, dynmem := false } := by
      unfold readInto
      cases hotype : cv.otype <;> first | rfl | exact absurd hotype hcombo
    rw [hcopy]
    exact copyFunction_spec (cleared_disposable mem cv) hkind

theorem record_setLocals_self {l : Locals} {i : ℕ} :
    record (s.setLocals o l) (.element o i) = l.vars[i]? := by
  simp [record, Options.setLocals]

theorem record_setLocals_other {l : Locals} {r : Position ι} (h : ∀ i, r ≠ .element o i) :
    record (s.setLocals o l) r = record s r := by
  cases r with
  | global key => rfl
  | element o' i =>
    have hne : o' ≠ o := fun heq => h i (heq ▸ rfl)
    simp [record, Options.setLocals, Function.update_of_ne hne]

/-- What a call leaves that sets an element of the array of o. -/
structure ElementSet (s : Options ι) (o : ι) (i : ℕ) (l : Locals) (cv : ConfigVar)
    (value : Setting) (s' : Options ι) : Prop where
  put : Put s (.element o i) s'
  globals : s'.globals = s.globals
  locals : s'.locals = Function.update s.locals o l
  element : l.vars[i]? = some cv
  shows : shown s'.mem cv = some value

theorem setOptionValue_spec (h : Separate s) {p : Pointer} (hp : p.block = (s.locals o).block)
    (hcv : (s.locals o).vars[p.index]? = some cv) (hkind : value.kind = kindOf cv.otype) :
    setOptionValue s o p value a = .error .taken ∨ ∃ s' cv',
      setOptionValue s o p value a = .ok s' ∧ cv'.toOptionVar = cv.toOptionVar ∧
      ElementSet s o p.index { s.locals o with vars := (s.locals o).vars.set p.index cv' } cv' value
        s' := by
  have hcopy := copyFunction_spec (a := a) (h.sound (.element o p.index) cv hcv).disposable hkind
  simp only [setOptionValue, hp, hcv, ne_eq, not_true, if_false]
  rcases hcopy with htaken | ⟨mem', cv', hok, hc⟩
  · exact .inl (by rw [htaken]; rfl)
  · have hlt : p.index < (s.locals o).vars.length := (List.getElem?_eq_some_iff.mp hcv).1
    have hself : ((s.locals o).vars.set p.index cv')[p.index]? = some cv' := by
      simp [hlt]
    let l : Locals := { s.locals o with vars := (s.locals o).vars.set p.index cv' }
    refine .inr ⟨{ s with mem := mem' }.setLocals o l, cv', by rw [hok]; rfl, hc.same, ?_, rfl, rfl,
      hself, hc.shows⟩
    refine h.put (r := .element o p.index) hc (fun r' v x hv hx hx' =>
      h.single r' (.element o p.index) v cv x hv hcv hx hx') rfl ?_ fun r' hr' => ?_
    · exact record_setLocals_self.trans hself
    · by_cases helement : ∃ i, r' = .element o i
      · obtain ⟨i, rfl⟩ := helement
        have hne : p.index ≠ i := fun heq => hr' (heq ▸ rfl)
        rw [record_setLocals_self, List.getElem?_set_ne hne]
        rfl
      · exact record_setLocals_other fun i hi => helement ⟨i, hi⟩

theorem append_spec (h : Separate s) {mem' : Memory} {cv' : ConfigVar}
    (hc : Copied s.mem value cv mem' cv') (hcv : ∀ x, ¬ Points cv x) :
    ElementSet s o (s.locals o).vars.length (appendVar (s.locals o) cv' b) cv' value
      ({ s with mem := mem' }.setLocals o (appendVar (s.locals o) cv' b)) := by
  have hself : (appendVar (s.locals o) cv' b).vars[(s.locals o).vars.length]? = some cv' := by
    simp [appendVar]
  refine ⟨?_, rfl, rfl, hself, hc.shows⟩
  refine h.put (r := .element o (s.locals o).vars.length) hc
    (fun r' v x _ _ hx => absurd hx (hcv x)) rfl (record_setLocals_self.trans hself) fun r' hr' => ?_
  by_cases helement : ∃ i, r' = .element o i
  · obtain ⟨i, rfl⟩ := helement
    have hne : i ≠ (s.locals o).vars.length := fun heq => hr' (heq ▸ rfl)
    rw [record_setLocals_self]
    rcases Nat.lt_or_gt_of_ne hne with hlt | hgt
    · exact List.getElem?_append_left hlt
    · have hout : (s.locals o).vars.length ≤ i := Nat.le_of_lt hgt
      rw [record, List.getElem?_eq_none hout]
      refine List.getElem?_eq_none ?_
      simp only [appendVar, List.length_append, List.length_singleton]
      exact hgt
  · exact record_setLocals_other fun i hi => helement ⟨i, hi⟩

/-- A copy of a global record without a block of its own is added. -/
theorem addOption_spec (h : Separate s) (hglobal : s.globals key = some cv)
    (hcv : ∀ x, ¬ Points cv x) (hkind : value.kind = kindOf cv.otype) :
    addOption s o cv value a b = .error .taken ∨ ∃ s' cv',
      addOption s o cv value a b = .ok s' ∧ cv'.toOptionVar = cv.toOptionVar ∧
      ElementSet s o (s.locals o).vars.length (appendVar (s.locals o) cv' b) cv' value s' := by
  unfold addOption
  rcases copyFunction_spec (a := a) (h.sound (.global key) cv hglobal).disposable hkind with
    htaken | ⟨mem', cv', hok, hc⟩
  · exact .inl (by rw [htaken]; rfl)
  · exact .inr ⟨_, cv', by rw [hok]; rfl, hc.same, append_spec h hc hcv⟩

theorem readOptionLine_spec (h : Separate s) {str : Bytes} (hglobal : s.globals key = some cv)
    (hread : readFunction F cv.toOptionVar str = .ok value) :
    readOptionLine F s o key str a b = .error .taken ∨ ∃ s' cv',
      readOptionLine F s o key str a b = .ok s' ∧ cv'.toOptionVar = cv.toOptionVar ∧
      ElementSet s o (s.locals o).vars.length (appendVar (s.locals o) cv' b) cv' value s' := by
  simp only [readOptionLine, hglobal, hread]
  rcases readInto_spec s.mem a (readFunction_kind hread) with htaken | ⟨mem', cv', hok, hc⟩
  · exact .inl (by rw [htaken]; rfl)
  · exact .inr ⟨_, cv', by rw [hok]; rfl, hc.same, append_spec h hc fun x hx => absurd hx nofun⟩

/-- The elements that the hash tables give stay copies of global records. -/
theorem ElementSet.separate_set {s' : Options ι} (h : Separate s) {i : ℕ} {cv' : ConfigVar}
    (hcv : (s.locals o).vars[i]? = some cv) (hsame : cv'.toOptionVar = cv.toOptionVar)
    (hset : ElementSet s o i { s.locals o with vars := (s.locals o).vars.set i cv' } cv' value s') :
    Separate s' where
  keyed := by
    rw [hset.globals]
    exact h.keyed
  sound := hset.put.sound
  single := hset.put.single
  hashed o' key' p hp := by
    rw [hset.locals] at hp ⊢
    rw [hset.globals]
    by_cases ho : o' = o
    · subst ho
      simp only [Function.update_self] at hp ⊢
      obtain ⟨v, g, hv, hg, heq⟩ := h.hashed o' key' p hp
      by_cases hi : i = p.index
      · subst hi
        obtain rfl := Option.some.inj (hcv.symm.trans hv)
        have hlt := (List.getElem?_eq_some_iff.mp hcv).1
        exact ⟨cv', g, by simp [hlt], hg, hsame.trans heq⟩
      · exact ⟨v, g, by rw [List.getElem?_set_ne hi]; exact hv, hg, heq⟩
    · rw [Function.update_of_ne ho] at hp ⊢
      exact h.hashed o' key' p hp

theorem ElementSet.separate_append {s' : Options ι} (h : Separate s) {cv' : ConfigVar}
    (hglobal : s.globals key = some cv) (hsame : cv'.toOptionVar = cv.toOptionVar)
    (hset : ElementSet s o (s.locals o).vars.length (appendVar (s.locals o) cv' b) cv' value s') :
    Separate s' where
  keyed := by
    rw [hset.globals]
    exact h.keyed
  sound := hset.put.sound
  single := hset.put.single
  hashed o' key' p hp := by
    rw [hset.locals] at hp ⊢
    rw [hset.globals]
    by_cases ho : o' = o
    · subst ho
      simp only [Function.update_self] at hp ⊢
      have hkey : cv'.key = key := (congrArg OptionVar.key hsame).trans (h.keyed key cv hglobal)
      by_cases hnew : key' = key
      · subst hnew
        simp only [appendVar, hkey, Function.update_self] at hp
        obtain rfl := Option.some.inj hp
        exact ⟨cv', cv, hset.element, hglobal, hsame⟩
      · simp only [appendVar, hkey, Function.update_of_ne hnew] at hp
        obtain ⟨v, g, hv, hg, heq⟩ := h.hashed o' key' p hp
        have hlt := (List.getElem?_eq_some_iff.mp hv).1
        exact ⟨v, g, (List.getElem?_append_left hlt).trans hv, hg, heq⟩
    · rw [Function.update_of_ne ho] at hp ⊢
      exact h.hashed o' key' p hp

omit [DecidableEq ι] in
theorem setGlobal_spec (h : Separate s) (hglobal : s.globals key = some cv)
    (hkind : value.kind = kindOf cv.otype) :
    gftpSetGlobalOption F s key value a = .error .taken ∨
      ∃ s', gftpSetGlobalOption F s key value a = .ok s' ∧ Separate s' := by
  obtain ⟨old, hold⟩ := Option.ne_none_iff_exists'.mp (h.sound (.global key) cv hglobal).readable
  simp only [gftpSetGlobalOption, hglobal, hold]
  split_ifs with hequal
  · exact .inr ⟨s, rfl, h⟩
  · rcases copyFunction_spec (a := a) (h.sound (.global key) cv hglobal).disposable hkind with
      htaken | ⟨mem', cv', hok, hc⟩
    · exact .inl (by rw [htaken]; rfl)
    · have hput : Put s (.global key)
          { s with mem := mem', globals := Function.update s.globals key (some cv') } := by
        refine h.put (r := .global key) hc (fun r' v x hv hx hx' =>
          h.single r' (.global key) v cv x hv hglobal hx hx') rfl (by simp [record]) fun r' hr' => ?_
        cases r' with
        | element o i => rfl
        | global key' =>
          have hne : key' ≠ key := fun heq => hr' (heq ▸ rfl)
          simp [record, Function.update_of_ne hne]
      refine .inr ⟨_, by rw [hok]; rfl, ?_, hput.sound, hput.single, fun o key' p hp => ?_⟩
      · intro key' g hg
        by_cases hk : key' = key
        · subst hk
          simp only [Function.update_self] at hg
          obtain rfl := Option.some.inj hg
          exact (congrArg OptionVar.key hc.same).trans (h.keyed key' cv hglobal)
        · simp only [Function.update_of_ne hk] at hg
          exact h.keyed key' g hg
      · obtain ⟨v, g, hv, hg, heq⟩ := h.hashed o key' p hp
        by_cases hk : key' = key
        · subst hk
          obtain rfl := Option.some.inj (hglobal.symm.trans hg)
          exact ⟨v, cv', hv, Function.update_self .., heq.trans hc.same.symm⟩
        · exact ⟨v, g, hv, (Function.update_of_ne hk ..).trans hg, heq⟩

end Calls

section Runs

variable {ι : Type} [DecidableEq ι] {F : Floats} {s s' : Options ι} {o : ι} {a b : ℕ}
  {value : Setting} {cv : ConfigVar} {key : Bytes}

/-- The option is registered and the value is one of its type; a line can be read. -/
def Typed (F : Floats) (s : Options ι) : Call ι → Prop
  | .setGlobal key value _ => ∃ cv, s.globals key = some cv ∧ value.kind = kindOf cv.otype
  | .setRequest _ key value _ _ => ∃ cv, s.globals key = some cv ∧ value.kind = kindOf cv.otype
  | .setBookmark _ key value _ _ => ∃ cv, s.globals key = some cv ∧ value.kind = kindOf cv.otype
  | .optionLine _ key str _ _ => ∀ cv, s.globals key = some cv →
      ∃ value, readFunction F cv.toOptionVar str = .ok value

def IsLocal : Call ι → Prop
  | .setGlobal .. => False
  | _ => True

/-- The global value was not allocated. -/
def Unallocated (s : Options ι) (key : Bytes) : Prop :=
  ∀ cv x, s.globals key = some cv → ¬ Points cv x

/-- gftp_set_bookmark_option keeps nothing. -/
def SameAsGlobal (F : Floats) (s : Options ι) (key : Bytes) (value : Setting) : Prop :=
  ∃ cv old, s.globals key = some cv ∧ shown s.mem cv = some old ∧
    compareFunction F cv.otype value old = true

/-- An option that the request or bookmark has is set in the array, another one is not copied
from a global record whose value was allocated. -/
def Keeps (F : Floats) (s : Options ι) : Call ι → Prop
  | .setGlobal .. => True
  | .setRequest o key _ _ _ =>
      (∀ p, (s.locals o).hash key = some p → p.block = (s.locals o).block) ∧
      ((s.locals o).hash key = none → Unallocated s key)
  | .setBookmark o key value _ _ =>
      (∀ p, (s.locals o).hash key = some p → p.block = (s.locals o).block) ∧
      ((s.locals o).hash key = none → SameAsGlobal F s key value ∨ Unallocated s key)
  | .optionLine .. => True

/-- The call ends and leaves the records apart. -/
def Settles (F : Floats) (s : Options ι) (l : Call ι) : Prop :=
  call F s l = .error .taken ∨
    ∃ s', call F s l = .ok s' ∧ Separate s' ∧ (IsLocal l → GlobalsKept s s')

omit [DecidableEq ι] in
theorem GlobalsKept.refl (s : Options ι) : GlobalsKept s s := fun _ _ hcv => ⟨hcv, rfl⟩

theorem ElementSet.globalsKept {i : ℕ} {l : Locals} {cv' : ConfigVar}
    (h : ElementSet s o i l cv' value s') : GlobalsKept s s' := h.put.globalsKept h.globals

theorem set_ends (h : Separate s) {p : Pointer} (hp : (s.locals o).hash key = some p)
    (hblock : p.block = (s.locals o).block) (hglobal : s.globals key = some cv)
    (hkind : value.kind = kindOf cv.otype) :
    setOptionValue s o p value a = .error .taken ∨
      ∃ s', setOptionValue s o p value a = .ok s' ∧ Separate s' ∧ GlobalsKept s s' := by
  obtain ⟨v, g, hv, hg, heq⟩ := h.hashed o key p hp
  obtain rfl := Option.some.inj (hglobal.symm.trans hg)
  have hkind' : value.kind = kindOf v.otype := by
    rw [hkind, ← congrArg OptionVar.otype heq]
  rcases setOptionValue_spec (a := a) h hblock hv hkind' with htaken | ⟨s', cv', hok, hsame, hset⟩
  · exact .inl htaken
  · exact .inr ⟨s', hok, hset.separate_set h hv hsame, hset.globalsKept⟩

theorem add_ends (h : Separate s) (hglobal : s.globals key = some cv)
    (hcv : ∀ x, ¬ Points cv x) (hkind : value.kind = kindOf cv.otype) :
    addOption s o cv value a b = .error .taken ∨
      ∃ s', addOption s o cv value a b = .ok s' ∧ Separate s' ∧ GlobalsKept s s' := by
  rcases addOption_spec (o := o) (a := a) (b := b) h hglobal hcv hkind with
    htaken | ⟨s', cv', hok, hsame, hset⟩
  · exact .inl htaken
  · exact .inr ⟨s', hok, hset.separate_append h hglobal hsame, hset.globalsKept⟩

theorem call_ends (h : Separate s) {l : Call ι} (htyped : Typed F s l) (hkeeps : Keeps F s l) :
    Settles F s l := by
  cases l with
  | setGlobal key value a =>
    obtain ⟨cv, hglobal, hkind⟩ := htyped
    rcases setGlobal_spec (F := F) (a := a) h hglobal hkind with htaken | ⟨s', hok, hsep⟩
    · exact .inl htaken
    · exact .inr ⟨s', hok, hsep, fun hlocal => hlocal.elim⟩
  | setRequest o key value a b =>
    obtain ⟨cv, hglobal, hkind⟩ := htyped
    simp only [Settles, call, gftpSetRequestOption]
    cases hhash : (s.locals o).hash key with
    | some p =>
      exact (set_ends h hhash (hkeeps.1 p hhash) hglobal hkind).imp_right fun ⟨s', hok, hsep, hkept⟩ =>
        ⟨s', hok, hsep, fun _ => hkept⟩
    | none =>
      simp only [hglobal]
      exact (add_ends h hglobal (fun x => hkeeps.2 hhash cv x hglobal) hkind).imp_right
        fun ⟨s', hok, hsep, hkept⟩ => ⟨s', hok, hsep, fun _ => hkept⟩
  | setBookmark o key value a b =>
    obtain ⟨cv, hglobal, hkind⟩ := htyped
    simp only [Settles, call, gftpSetBookmarkOption]
    cases hhash : (s.locals o).hash key with
    | some p =>
      exact (set_ends h hhash (hkeeps.1 p hhash) hglobal hkind).imp_right fun ⟨s', hok, hsep, hkept⟩ =>
        ⟨s', hok, hsep, fun _ => hkept⟩
    | none =>
      obtain ⟨old, hold⟩ :=
        Option.ne_none_iff_exists'.mp (h.sound (.global key) cv hglobal).readable
      simp only [hglobal, hold]
      split_ifs with hequal
      · exact .inr ⟨s, rfl, h, fun _ => .refl s⟩
      · have hcv (x : ℕ) : ¬ Points cv x := by
          rcases hkeeps.2 hhash with ⟨cv', old', hcv', hold', hequal'⟩ | hkept
          · obtain rfl := Option.some.inj (hglobal.symm.trans hcv')
            obtain rfl := Option.some.inj (hold.symm.trans hold')
            exact absurd hequal' hequal
          · exact hkept cv x hglobal
        exact (add_ends h hglobal hcv hkind).imp_right
          fun ⟨s', hok, hsep, hkept⟩ => ⟨s', hok, hsep, fun _ => hkept⟩
  | optionLine o key str a b =>
    cases hglobal : s.globals key with
    | none =>
      refine .inr ⟨s, ?_, h, fun _ => .refl s⟩
      simp only [call, readOptionLine, hglobal]
      rfl
    | some cv =>
      obtain ⟨value, hread⟩ := htyped cv hglobal
      rcases readOptionLine_spec (o := o) (a := a) (b := b) h hglobal hread with
        htaken | ⟨s', cv', hok, hsame, hset⟩
      · exact .inl htaken
      · exact .inr ⟨s', hok, hset.separate_append h hglobal hsame, fun _ => hset.globalsKept⟩

/-- A copy of a global record takes the value of that record away, or shares it. -/
theorem addOption_spoils (h : Separate s) {x : ℕ} (hglobal : s.globals key = some cv)
    (hcv : Points cv x) (hkind : value.kind = kindOf cv.otype)
    (hok : addOption s o cv value a b = .ok s') : ¬ (SingleOwner s' ∧ GlobalsKept s s') := by
  rintro ⟨hsingle, hkept⟩
  have hsound := h.sound (.global key) cv hglobal
  unfold addOption at hok
  rcases copyFunction_spec (a := a) hsound.disposable hkind with htaken | ⟨mem', cv', hcopy, hc⟩
  · rw [htaken] at hok
    exact absurd hok nofun
  · rw [hcopy] at hok
    obtain rfl := Except.ok.inj hok
    obtain ⟨hglobal', hshown⟩ := hkept key cv hglobal
    by_cases hx : Points cv' x
    · -- the new value was allocated where the old one was
      have hnew : record ({ s with mem := mem' }.setLocals o (appendVar (s.locals o) cv' b))
          (.element o (s.locals o).vars.length) = some cv' :=
        record_setLocals_self.trans (by simp [appendVar])
      have heq := hsingle (.global key) _ cv cv' x hglobal' hnew (hsound.flagged x hcv) hcv
        (hc.sound.flagged x hx) hx
      exact absurd heq nofun
    · have hgone : shown mem' cv = none := by
        unfold shown
        rw [hcv, contentOf, hc.gone x hcv hx]
        cases kindOf cv.otype <;> rfl
      exact hsound.readable (hshown.symm.trans hgone)

/-- A pointer into an array that was moved is used. -/
theorem setOptionValue_stale {p : Pointer} (hp : p.block ≠ (s.locals o).block) :
    setOptionValue s o p value a = .error .fault := if_pos hp

/-- A call after which the records are apart meets the condition. -/
theorem keeps_of_apart (h : Separate s) {l : Call ι} (htyped : Typed F s l)
    (hcall : call F s l = .ok s') (hsingle : SingleOwner s') (hkept : IsLocal l → GlobalsKept s s') :
    Keeps F s l := by
  cases l with
  | setGlobal key value a => trivial
  | optionLine o key str a b => trivial
  | setRequest o key value a b =>
    obtain ⟨cv, hglobal, hkind⟩ := htyped
    refine ⟨fun p hp => ?_, fun hnone cv' x hcv' hx => ?_⟩
    · by_contra hblock
      simp only [call, gftpSetRequestOption, hp, setOptionValue_stale hblock] at hcall
      exact absurd hcall nofun
    · obtain rfl := Option.some.inj (hglobal.symm.trans hcv')
      simp only [call, gftpSetRequestOption, hnone, hglobal] at hcall
      exact addOption_spoils h hglobal hx hkind hcall ⟨hsingle, hkept trivial⟩
  | setBookmark o key value a b =>
    obtain ⟨cv, hglobal, hkind⟩ := htyped
    refine ⟨fun p hp => ?_, fun hnone => ?_⟩
    · by_contra hblock
      simp only [call, gftpSetBookmarkOption, hp, setOptionValue_stale hblock] at hcall
      exact absurd hcall nofun
    · obtain ⟨old, hold⟩ :=
        Option.ne_none_iff_exists'.mp (h.sound (.global key) cv hglobal).readable
      simp only [call, gftpSetBookmarkOption, hnone, hglobal, hold] at hcall
      split_ifs at hcall with hequal
      · exact .inl ⟨cv, old, hglobal, hold, hequal⟩
      · refine .inr fun cv' x hcv' hx => ?_
        obtain rfl := Option.some.inj (hglobal.symm.trans hcv')
        exact addOption_spoils h hglobal hx hkind hcall ⟨hsingle, hkept trivial⟩

/-- Setting options keeps every string and every colour with one record, and the options of
requests and bookmarks apart from the global ones, as long as no option of theirs is set for the
first time while the global value is an allocated one, and none after the array was moved. -/
theorem options_kept_apart (F : Floats) {s₀ s : Options ι} (hinit : Separate s₀)
    (hrun : Reaches (fun s l s' => call F s l = .ok s') (fun s l => Typed F s l ∧ Keeps F s l) s₀ s) :
    SingleOwner s ∧ ∀ l, Typed F s l → call F s l ≠ .error .taken →
      ((∃ s', call F s l = .ok s' ∧ SingleOwner s' ∧ (IsLocal l → GlobalsKept s s')) ↔
        Keeps F s l) := by
  have h : Separate s := by
    refine hrun.invariant Separate hinit fun s l s' h ⟨htyped, hkeeps⟩ hcall => ?_
    rcases call_ends h htyped hkeeps with htaken | ⟨s'', hok, hsep, -⟩
    · exact absurd (htaken.symm.trans hcall) nofun
    · exact Except.ok.inj (hok.symm.trans hcall) ▸ hsep
  refine ⟨h.singleOwner, fun l htyped hfree => ⟨?_, fun hkeeps => ?_⟩⟩
  · rintro ⟨s', hcall, hsingle, hkept⟩
    exact keeps_of_apart h htyped hcall hsingle hkept
  · rcases call_ends h htyped hkeeps with htaken | ⟨s', hok, hsep, hkept⟩
    · exact absurd htaken hfree
    · exact ⟨s', hok, hsep.singleOwner, hkept⟩

end Runs

section Proxy

def plainFloats : Floats := ⟨fun _ => 0, fun _ => [], fun m n => m = n⟩

/-- The type of the proxy server as it was read from the configuration file. -/
def proxyConfig : ConfigVar where
  key := ascii "proxy_config"
  otype := .textcomboedt
  listdata := []
  comment := none
  value := .block 0
  dynmem := true

def passiveTransfer : ConfigVar where
  key := ascii "passive_transfer"
  otype := .checkbox
  listdata := []
  comment := none
  value := .word 1
  dynmem := false

/-- Two options, and one request that has none of its own. -/
def started : Options Unit where
  mem x := if x = 0 then some (.text (ascii "http")) else none
  globals key :=
    if key = ascii "proxy_config" then some proxyConfig
    else if key = ascii "passive_transfer" then some passiveTransfer else none
  locals _ := ⟨0, [], fun _ => none⟩

theorem started_record {r : Position Unit} {cv : ConfigVar} (h : record started r = some cv) :
    r = .global (ascii "proxy_config") ∧ cv = proxyConfig ∨
      r = .global (ascii "passive_transfer") ∧ cv = passiveTransfer := by
  cases r with
  | element o i => exact absurd h nofun
  | global key =>
    simp only [record, started] at h
    split_ifs at h with hproxy hpassive
    · exact .inl ⟨congrArg _ hproxy, (Option.some.inj h).symm⟩
    · exact .inr ⟨congrArg _ hpassive, (Option.some.inj h).symm⟩

theorem started_separate : Separate started where
  keyed key cv h := by
    rcases started_record (r := .global key) h with ⟨hkey, rfl⟩ | ⟨hkey, rfl⟩
    · exact (Position.global.inj hkey).symm
    · exact (Position.global.inj hkey).symm
  sound r cv h := by
    rcases started_record h with ⟨-, rfl⟩ | ⟨-, rfl⟩
    · exact ⟨nofun, fun _ _ => rfl, fun _ => .inr ⟨0, rfl⟩⟩
    · exact ⟨nofun, fun x hx => absurd hx nofun, nofun⟩
  single r r' cv cv' x h h' hx hx' := by
    rcases started_record h with ⟨rfl, rfl⟩ | ⟨rfl, rfl⟩
    · rcases started_record h' with ⟨rfl, rfl⟩ | ⟨rfl, rfl⟩
      · rfl
      · exact absurd hx' nofun
    · exact absurd hx nofun
  hashed o key p h := absurd h nofun

theorem passive_typed :
    Typed plainFloats started (.setRequest () (ascii "passive_transfer") (.word 0) 1 1) :=
  ⟨passiveTransfer, rfl, rfl⟩

theorem passive_keeps :
    Keeps plainFloats started (.setRequest () (ascii "passive_transfer") (.word 0) 1 1) :=
  ⟨fun _ hp => absurd hp nofun, fun _ _ _ hcv hx => by
    obtain rfl := Option.some.inj hcv
    exact absurd hx nofun⟩

theorem passive_kept_apart :
    ∃ s, call plainFloats started (.setRequest () (ascii "passive_transfer") (.word 0) 1 1) = .ok s ∧
      SingleOwner s ∧ ∀ l, Typed plainFloats s l → call plainFloats s l ≠ .error .taken →
        ((∃ s', call plainFloats s l = .ok s' ∧ SingleOwner s' ∧ (IsLocal l → GlobalsKept s s')) ↔
          Keeps plainFloats s l) :=
  ⟨_, rfl, options_kept_apart plainFloats started_separate
    ((Reaches.refl _).tail (a := .setRequest () (ascii "passive_transfer") (.word 0) 1 1)
      ⟨passive_typed, passive_keeps⟩ rfl)⟩

/-- The request sets the type of the proxy server for itself, and the global one is freed. -/
theorem proxy_config_freed :
    ¬ ∀ (s : Options Unit) (l : Call Unit) (s' : Options Unit), Separate s → Typed plainFloats s l →
      call plainFloats s l = .ok s' → SingleOwner s' ∧ (IsLocal l → GlobalsKept s s') := by
  intro hall
  obtain ⟨-, hkept⟩ := hall started
    (.setRequest () (ascii "proxy_config") (.text (some (ascii "ftp"))) 1 1) _ started_separate
    ⟨proxyConfig, rfl, rfl⟩ rfl
  have hshown := (hkept trivial (ascii "proxy_config") proxyConfig rfl).2
  exact absurd hshown (by decide)

end Proxy

end Gftp.OptionOwners
