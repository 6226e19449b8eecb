import Gftp.OptionOwners

/-!
The hash tables of local options. The pointers in a table are those that the array had when
their options were added, so they are right as long as the array was not moved since. Then a
lookup gives the value that was set last.
-/

namespace Gftp.OptionHashes

open ByteStrings OptionTables OptionValues OptionStore OptionOwners Runs

variable {ι : Type}

/-- The options, with the value that was set last for each key. -/
structure Traced (ι : Type) where
  opts : Options ι
  last : ι → Bytes → Option Setting

def noteValue [DecidableEq ι] (last : ι → Bytes → Option Setting) (o : ι) (key : Bytes) (value : Setting) :
    ι → Bytes → Option Setting :=
  Function.update last o (Function.update (last o) key (some value))

/-- A line sets the value that is read from it, when the option is registered. -/
def noteCall [DecidableEq ι] (F : Floats) (t : Traced ι) : Call ι → ι → Bytes → Option Setting
  | .setGlobal .. => t.last
  | .setRequest o key value _ _ => noteValue t.last o key value
  | .setBookmark o key value _ _ => noteValue t.last o key value
  | .optionLine o key str _ _ =>
      match t.opts.globals key with
      | none => t.last
      | some cv =>
          match readFunction F cv.toOptionVar str with
          | .ok value => noteValue t.last o key value
          | .error _ => t.last

def tracedCall [DecidableEq ι] (F : Floats) (t : Traced ι) (l : Call ι) : Except Wrong (Traced ι) := do
  return { opts := ← call F t.opts l, last := noteCall F t l }

/-- Each pointer of a hash table leads to the element of the current array with its key. -/
def HashLaw (s : Options ι) : Prop :=
  ∀ o key p, (s.locals o).hash key = some p →
    p.block = (s.locals o).block ∧ ∃ cv, (s.locals o).vars[p.index]? = some cv ∧ cv.key = key

/-- A lookup gives the value that was set last, or one that the compare function takes for the
same, and the global value when none was set; start has the global values. -/
def LookupLaw (F : Floats) (start : Bytes → Option Setting) (t : Traced ι) : Prop :=
  ∀ key v, start key = some v → gftpLookupGlobalOption t.opts key = .ok v ∧
    ∀ o, ∃ w, gftpLookupRequestOption t.opts o key = .ok w ∧
      match t.last o key with
      | none => w = v
      | some value => w = value ∨
          ∃ cv, t.opts.globals key = some cv ∧ compareFunction F cv.otype value w = true

/-- The array stays where it is, or no other option is in the table. -/
def Unmoved (s : Options ι) (o : ι) (key : Bytes) (b : ℕ) : Prop :=
  b = (s.locals o).block ∨ ∀ key', key' ≠ key → (s.locals o).hash key' = none

/-- An option is added while the array stays, and not from a global value that was allocated. -/
def Stays (F : Floats) (s : Options ι) : Call ι → Prop
  | .setGlobal .. => False
  | .setRequest o key _ _ b =>
      (s.locals o).hash key = none → Unallocated s key ∧ Unmoved s o key b
  | .setBookmark o key value _ b =>
      (s.locals o).hash key = none →
        SameAsGlobal F s key value ∨ Unallocated s key ∧ Unmoved s o key b
  | .optionLine o key _ _ b => s.globals key ≠ none → Unmoved s o key b

/-- No request and no bookmark has options of its own. -/
structure Started (start : Bytes → Option Setting) (t : Traced ι) : Prop where
  separate : Separate t.opts
  globals : ∀ key v, start key = some v → ∃ cv, t.opts.globals key = some cv ∧
    shown t.opts.mem cv = some v
  noHash : ∀ o key, (t.opts.locals o).hash key = none
  noLast : ∀ o key, t.last o key = none

/-- The tables are right, and have the values that were set last. -/
structure Indexed (F : Floats) (start : Bytes → Option Setting) (t : Traced ι) : Prop where
  separate : Separate t.opts
  globals : ∀ key v, start key = some v → ∃ cv, t.opts.globals key = some cv ∧
    shown t.opts.mem cv = some v
  current : ∀ o key p, (t.opts.locals o).hash key = some p → p.block = (t.opts.locals o).block
  inTable : ∀ o key p, (t.opts.locals o).hash key = some p → ∃ cv v,
    (t.opts.locals o).vars[p.index]? = some cv ∧ shown t.opts.mem cv = some v ∧
      t.last o key = some v
  outOfTable : ∀ o key v, (t.opts.locals o).hash key = none → t.last o key = some v →
    SameAsGlobal F t.opts key v

variable {F : Floats} {start : Bytes → Option Setting} {t : Traced ι}

theorem Started.indexed (h : Started start t) : Indexed F start t where
  separate := h.separate
  globals := h.globals
  current o key _ hp := absurd ((h.noHash o key).symm.trans hp) nofun
  inTable o key _ hp := absurd ((h.noHash o key).symm.trans hp) nofun
  outOfTable o key _ _ hv := absurd ((h.noLast o key).symm.trans hv) nofun

theorem hashed_key {s : Options ι} (h : Separate s) {o : ι} {key : Bytes} {p : Pointer}
    (hp : (s.locals o).hash key = some p) :
    ∃ cv, (s.locals o).vars[p.index]? = some cv ∧ cv.key = key := by
  obtain ⟨cv, g, hcv, hg, heq⟩ := h.hashed o key p hp
  exact ⟨cv, hcv, (congrArg OptionVar.key heq).trans (h.keyed key g hg)⟩

theorem Indexed.hashLaw (h : Indexed F start t) : HashLaw t.opts := fun o key p hp =>
  ⟨h.current o key p hp, hashed_key h.separate hp⟩

theorem Indexed.lookupLaw (h : Indexed F start t) : LookupLaw F start t := by
  intro key v hv
  obtain ⟨g, hg, hshown⟩ := h.globals key v hv
  have hglobal : gftpLookupGlobalOption t.opts key = .ok v := by
    simp only [gftpLookupGlobalOption, hg, hshown]
    rfl
  refine ⟨hglobal, fun o => ?_⟩
  cases hhash : (t.opts.locals o).hash key with
  | none =>
    refine ⟨v, by simp only [gftpLookupRequestOption, hhash]; exact hglobal, ?_⟩
    cases hlast : t.last o key with
    | none => rfl
    | some value =>
      obtain ⟨cv, old, hcv, hold, hsame⟩ := h.outOfTable o key value hhash hlast
      obtain rfl := Option.some.inj (hg.symm.trans hcv)
      obtain rfl := Option.some.inj (hshown.symm.trans hold)
      exact .inr ⟨g, hg, hsame⟩
  | some p =>
    obtain ⟨cv, w, hcv, hw, hlast⟩ := h.inTable o key p hhash
    refine ⟨w, ?_, ?_⟩
    · simp only [gftpLookupRequestOption, hhash, h.current o key p hhash, ne_eq, not_true, if_false,
        hcv, Option.bind_some, hw]
      rfl
    · rw [hlast]
      exact .inl rfl

section Steps

variable {s' : Options ι} {o : ι} {key : Bytes} {value : Setting} {a b : ℕ}
  {cv cv' : ConfigVar}

theorem sameAsGlobal_kept {s : Options ι} (h : SameAsGlobal F s key value)
    (hkept : GlobalsKept s s') : SameAsGlobal F s' key value := by
  obtain ⟨cv, old, hcv, hold, hsame⟩ := h
  obtain ⟨hcv', hshown⟩ := hkept key cv hcv
  exact ⟨cv, old, hcv', hshown.trans hold, hsame⟩

theorem Indexed.globals_kept (h : Indexed F start t) (hkept : GlobalsKept t.opts s') (k : Bytes)
    (v : Setting) (hv : start k = some v) :
    ∃ cv, s'.globals k = some cv ∧ shown s'.mem cv = some v := by
  obtain ⟨cv, hcv, hshown⟩ := h.globals k v hv
  obtain ⟨hcv', hshown'⟩ := hkept k cv hcv
  exact ⟨cv, hcv', hshown'.trans hshown⟩

variable [DecidableEq ι]

theorem Indexed.set (h : Indexed F start t) {p : Pointer}
    (hp : (t.opts.locals o).hash key = some p) (hcv : (t.opts.locals o).vars[p.index]? = some cv)
    (hsame : cv'.toOptionVar = cv.toOptionVar)
    (hset : ElementSet t.opts o p.index
      { t.opts.locals o with vars := (t.opts.locals o).vars.set p.index cv' } cv' value s') :
    Indexed F start ⟨s', noteValue t.last o key value⟩ where
  separate := hset.separate_set h.separate hcv hsame
  globals := h.globals_kept hset.globalsKept
  current o' key' p' hp' := by
    simp only [hset.locals] at hp' ⊢
    by_cases ho : o' = o
    · subst ho
      simp only [Function.update_self] at hp' ⊢
      exact h.current o' key' p' hp'
    · rw [Function.update_of_ne ho] at hp' ⊢
      exact h.current o' key' p' hp'
  inTable o' key' p' hp' := by
    simp only [hset.locals] at hp' ⊢
    by_cases ho : o' = o
    · subst ho
      simp only [Function.update_self, noteValue] at hp' ⊢
      by_cases hk : key' = key
      · subst hk
        obtain rfl := Option.some.inj (hp.symm.trans hp')
        exact ⟨cv', value, hset.element, hset.shows, Function.update_self ..⟩
      · obtain ⟨v, w, hv, hw, hlast⟩ := h.inTable o' key' p' hp'
        have hne : p.index ≠ p'.index := by
          intro heq
          obtain ⟨v₁, hv₁, hk₁⟩ := hashed_key h.separate hp
          obtain ⟨v₂, hv₂, hk₂⟩ := hashed_key h.separate hp'
          rw [heq] at hv₁
          obtain rfl := Option.some.inj (hv₁.symm.trans hv₂)
          exact hk (hk₂.symm.trans hk₁)
        refine ⟨v, w, by rw [List.getElem?_set_ne hne]; exact hv, ?_, ?_⟩
        · refine (hset.put.others (.element o' p'.index) v (fun heq => hne ?_) hv).trans hw
          exact (Position.element.inj heq).2.symm
        · rw [Function.update_of_ne hk]
          exact hlast
    · rw [Function.update_of_ne ho] at hp' ⊢
      obtain ⟨v, w, hv, hw, hlast⟩ := h.inTable o' key' p' hp'
      refine ⟨v, w, hv, ?_, ?_⟩
      · exact (hset.put.others (.element o' p'.index) v
          (fun heq => ho (Position.element.inj heq).1) hv).trans hw
      · simp only [noteValue, Function.update_of_ne ho]
        exact hlast
  outOfTable o' key' v hnone hv := by
    simp only [hset.locals] at hnone
    by_cases ho : o' = o
    · subst ho
      simp only [Function.update_self, noteValue] at hnone hv
      have hk : key' ≠ key := by
        rintro rfl
        exact absurd (hp.symm.trans hnone) nofun
      rw [Function.update_of_ne hk] at hv
      exact sameAsGlobal_kept (h.outOfTable o' key' v hnone hv) hset.globalsKept
    · rw [Function.update_of_ne ho] at hnone
      simp only [noteValue, Function.update_of_ne ho] at hv
      exact sameAsGlobal_kept (h.outOfTable o' key' v hnone hv) hset.globalsKept

theorem Indexed.append (h : Indexed F start t) (hglobal : t.opts.globals key = some cv)
    (hunmoved : Unmoved t.opts o key b) (hsame : cv'.toOptionVar = cv.toOptionVar)
    (hset : ElementSet t.opts o (t.opts.locals o).vars.length
      (appendVar (t.opts.locals o) cv' b) cv' value s') :
    Indexed F start ⟨s', noteValue t.last o key value⟩ := by
  have hkey : cv'.key = key :=
    (congrArg OptionVar.key hsame).trans (h.separate.keyed key cv hglobal)
  -- an entry of the table that is there already
  have hold {key' : Bytes} (hk : key' ≠ key) {p' : Pointer}
      (hp' : (t.opts.locals o).hash key' = some p') : p'.block = b := by
    rcases hunmoved with hb | hnone
    · exact (h.current o key' p' hp').trans hb.symm
    · exact absurd ((hnone key' hk).symm.trans hp') (by simp)
  refine ⟨hset.separate_append h.separate hglobal hsame, h.globals_kept hset.globalsKept,
    fun o' key' p' hp' => ?_, fun o' key' p' hp' => ?_, fun o' key' v hnone hv => ?_⟩
  · simp only [hset.locals] at hp' ⊢
    by_cases ho : o' = o
    · subst ho
      simp only [Function.update_self, appendVar, hkey] at hp' ⊢
      by_cases hk : key' = key
      · subst hk
        rw [Function.update_self] at hp'
        obtain rfl := Option.some.inj hp'
        rfl
      · rw [Function.update_of_ne hk] at hp'
        exact hold hk hp'
    · rw [Function.update_of_ne ho] at hp' ⊢
      exact h.current o' key' p' hp'
  · simp only [hset.locals] at hp' ⊢
    by_cases ho : o' = o
    · subst ho
      simp only [Function.update_self, noteValue] at hp' ⊢
      by_cases hk : key' = key
      · subst hk
        simp only [appendVar, hkey, Function.update_self] at hp'
        obtain rfl := Option.some.inj hp'
        exact ⟨cv', value, hset.element, hset.shows, Function.update_self ..⟩
      · simp only [appendVar, hkey, Function.update_of_ne hk] at hp'
        obtain ⟨v, w, hv, hw, hlast⟩ := h.inTable o' key' p' hp'
        have hlt := (List.getElem?_eq_some_iff.mp hv).1
        refine ⟨v, w, (List.getElem?_append_left hlt).trans hv, ?_, ?_⟩
        · refine (hset.put.others (.element o' p'.index) v (fun heq => ?_) hv).trans hw
          exact absurd (Position.element.inj heq).2 (Nat.ne_of_lt hlt)
        · rw [Function.update_of_ne hk]
          exact hlast
    · rw [Function.update_of_ne ho] at hp' ⊢
      obtain ⟨v, w, hv, hw, hlast⟩ := h.inTable o' key' p' hp'
      refine ⟨v, w, hv, ?_, ?_⟩
      · exact (hset.put.others (.element o' p'.index) v
          (fun heq => ho (Position.element.inj heq).1) hv).trans hw
      · simp only [noteValue, Function.update_of_ne ho]
        exact hlast
  · simp only [hset.locals] at hnone
    by_cases ho : o' = o
    · subst ho
      simp only [Function.update_self, noteValue, appendVar, hkey] at hnone hv
      have hk : key' ≠ key := by
        rintro rfl
        rw [Function.update_self] at hnone
        exact absurd hnone (by simp)
      rw [Function.update_of_ne hk] at hnone hv
      exact sameAsGlobal_kept (h.outOfTable o' key' v hnone hv) hset.globalsKept
    · rw [Function.update_of_ne ho] at hnone
      simp only [noteValue, Function.update_of_ne ho] at hv
      exact sameAsGlobal_kept (h.outOfTable o' key' v hnone hv) hset.globalsKept

/-- A value that is the same as the global one is set for a bookmark. -/
theorem Indexed.note (h : Indexed F start t) (hnone : (t.opts.locals o).hash key = none)
    (hsame : SameAsGlobal F t.opts key value) :
    Indexed F start ⟨t.opts, noteValue t.last o key value⟩ where
  separate := h.separate
  globals := h.globals
  current := h.current
  inTable o' key' p hp := by
    obtain ⟨cv, w, hcv, hw, hlast⟩ := h.inTable o' key' p hp
    refine ⟨cv, w, hcv, hw, ?_⟩
    by_cases ho : o' = o
    · subst ho
      have hk : key' ≠ key := by
        rintro rfl
        exact absurd (hnone.symm.trans hp) nofun
      simp only [noteValue, Function.update_self, Function.update_of_ne hk]
      exact hlast
    · simp only [noteValue, Function.update_of_ne ho]
      exact hlast
  outOfTable o' key' v hnone' hv := by
    by_cases ho : o' = o
    · subst ho
      simp only [noteValue, Function.update_self] at hv
      by_cases hk : key' = key
      · subst hk
        rw [Function.update_self] at hv
        exact Option.some.inj hv ▸ hsame
      · rw [Function.update_of_ne hk] at hv
        exact h.outOfTable o' key' v hnone' hv
    · simp only [noteValue, Function.update_of_ne ho] at hv
      exact h.outOfTable o' key' v hnone' hv

theorem Indexed.set_ends (h : Indexed F start t) {p : Pointer}
    (hp : (t.opts.locals o).hash key = some p) (hglobal : t.opts.globals key = some cv)
    (hkind : value.kind = kindOf cv.otype) :
    setOptionValue t.opts o p value a = .error .taken ∨
      ∃ s', setOptionValue t.opts o p value a = .ok s' ∧
        Indexed F start ⟨s', noteValue t.last o key value⟩ := by
  obtain ⟨v, g, hv, hg, heq⟩ := h.separate.hashed o key p hp
  obtain rfl := Option.some.inj (hglobal.symm.trans hg)
  have hkind' : value.kind = kindOf v.otype := by
    rw [hkind, ← congrArg OptionVar.otype heq]
  rcases setOptionValue_spec (a := a) h.separate (h.current o key p hp) hv hkind' with
    htaken | ⟨s', cv', hok, hsame, hset⟩
  · exact .inl htaken
  · exact .inr ⟨s', hok, h.set hp hv hsame hset⟩

theorem Indexed.add_ends (h : Indexed F start t) (hglobal : t.opts.globals key = some cv)
    (hkind : value.kind = kindOf cv.otype) (hnew : Unallocated t.opts key)
    (hunmoved : Unmoved t.opts o key b) :
    addOption t.opts o cv value a b = .error .taken ∨
      ∃ s', addOption t.opts o cv value a b = .ok s' ∧
        Indexed F start ⟨s', noteValue t.last o key value⟩ := by
  rcases addOption_spec (o := o) (a := a) (b := b) h.separate hglobal
    (fun x => hnew cv x hglobal) hkind with htaken | ⟨s', cv', hok, hsame, hset⟩
  · exact .inl htaken
  · exact .inr ⟨s', hok, h.append hglobal hunmoved hsame hset⟩

theorem Indexed.step (h : Indexed F start t) {l : Call ι} (htyped : Typed F t.opts l)
    (hstays : Stays F t.opts l) :
    call F t.opts l = .error .taken ∨
      ∃ s', call F t.opts l = .ok s' ∧ Indexed F start ⟨s', noteCall F t l⟩ := by
  cases l with
  | setGlobal key value a => exact hstays.elim
  | setRequest o key value a b =>
    obtain ⟨cv, hglobal, hkind⟩ := htyped
    simp only [call, gftpSetRequestOption, noteCall]
    cases hhash : (t.opts.locals o).hash key with
    | some p => exact h.set_ends hhash hglobal hkind
    | none =>
      simp only [hglobal]
      exact h.add_ends hglobal hkind (hstays hhash).1 (hstays hhash).2
  | setBookmark o key value a b =>
    obtain ⟨cv, hglobal, hkind⟩ := htyped
    simp only [call, gftpSetBookmarkOption, noteCall]
    cases hhash : (t.opts.locals o).hash key with
    | some p => exact h.set_ends hhash hglobal hkind
    | none =>
      obtain ⟨old, hold⟩ :=
        Option.ne_none_iff_exists'.mp (h.separate.sound (.global key) cv hglobal).readable
      simp only [hglobal, hold]
      split_ifs with hequal
      · exact .inr ⟨t.opts, rfl, h.note hhash ⟨cv, old, hglobal, hold, hequal⟩⟩
      · rcases hstays hhash with ⟨cv', old', hcv', hold', hequal'⟩ | ⟨hnew, hunmoved⟩
        · obtain rfl := Option.some.inj (hglobal.symm.trans hcv')
          obtain rfl := Option.some.inj (hold.symm.trans hold')
          exact absurd hequal' hequal
        · exact h.add_ends hglobal hkind hnew hunmoved
  | optionLine o key str a b =>
    cases hglobal : t.opts.globals key with
    | none =>
      refine .inr ⟨t.opts, ?_, ?_⟩
      · simp only [call, readOptionLine, hglobal]
        rfl
      · simp only [noteCall, hglobal]
        exact h
    | some cv =>
      obtain ⟨value, hread⟩ := htyped cv hglobal
      simp only [noteCall, hglobal, hread]
      have hunmoved : Unmoved t.opts o key b := hstays (by rw [hglobal]; simp)
      rcases readOptionLine_spec (o := o) (a := a) (b := b) h.separate hglobal hread with
        htaken | ⟨s', cv', hok, hsame, hset⟩
      · exact .inl htaken
      · exact .inr ⟨s', hok, h.append hglobal hunmoved hsame hset⟩

/-- A new element makes the other pointers wrong when it moves the array. -/
theorem unmoved_of_hashLaw (hlocals : s'.locals = Function.update t.opts.locals o
      (appendVar (t.opts.locals o) cv' b)) (hkey : cv'.key = key) (h : HashLaw t.opts)
    (hlaw : HashLaw s') : Unmoved t.opts o key b := by
  by_contra hmoved
  simp only [Unmoved, not_or, not_forall] at hmoved
  obtain ⟨hb, key', hk, hhash⟩ := hmoved
  obtain ⟨p, hp⟩ := Option.ne_none_iff_exists'.mp hhash
  have hp' : (s'.locals o).hash key' = some p := by
    simp only [hlocals, Function.update_self, appendVar, hkey, Function.update_of_ne hk]
    exact hp
  have hnew := (hlaw o key' p hp').1
  rw [hlocals, Function.update_self] at hnew
  exact hb (hnew.symm.trans (h o key' p hp).1)

theorem Indexed.unmoved_add (h : Indexed F start t) (hglobal : t.opts.globals key = some cv)
    (hkind : value.kind = kindOf cv.otype) (hnew : Unallocated t.opts key)
    (hok : addOption t.opts o cv value a b = .ok s') (hlaw : HashLaw s') :
    Unmoved t.opts o key b := by
  rcases addOption_spec (o := o) (a := a) (b := b) h.separate hglobal
    (fun x => hnew cv x hglobal) hkind with htaken | ⟨s'', cv', hok', hsame, hset⟩
  · exact absurd (htaken.symm.trans hok) nofun
  · obtain rfl := Except.ok.inj (hok.symm.trans hok')
    exact unmoved_of_hashLaw hset.locals
      ((congrArg OptionVar.key hsame).trans (h.separate.keyed key cv hglobal)) h.hashLaw hlaw

/-- A call after which the pointers are right meets the condition. -/
theorem Indexed.stays (h : Indexed F start t) {l : Call ι} (hlocal : IsLocal l)
    (htyped : Typed F t.opts l) (hkeeps : Keeps F t.opts l) (hcall : call F t.opts l = .ok s')
    (hlaw : HashLaw s') : Stays F t.opts l := by
  cases l with
  | setGlobal key value a => exact hlocal
  | setRequest o key value a b =>
    intro hnone
    obtain ⟨cv, hglobal, hkind⟩ := htyped
    simp only [call, gftpSetRequestOption, hnone, hglobal] at hcall
    exact ⟨hkeeps.2 hnone, h.unmoved_add hglobal hkind (hkeeps.2 hnone) hcall hlaw⟩
  | setBookmark o key value a b =>
    intro hnone
    obtain ⟨cv, hglobal, hkind⟩ := htyped
    rcases hkeeps.2 hnone with hsame | hnew
    · exact .inl hsame
    · obtain ⟨old, hold⟩ :=
        Option.ne_none_iff_exists'.mp (h.separate.sound (.global key) cv hglobal).readable
      simp only [call, gftpSetBookmarkOption, hnone, hglobal, hold] at hcall
      split_ifs at hcall with hequal
      · exact .inl ⟨cv, old, hglobal, hold, hequal⟩
      · exact .inr ⟨hnew, h.unmoved_add hglobal hkind hnew hcall hlaw⟩
  | optionLine o key str a b =>
    intro hregistered
    obtain ⟨cv, hglobal⟩ := Option.ne_none_iff_exists'.mp hregistered
    obtain ⟨value, hread⟩ := htyped cv hglobal
    rcases readOptionLine_spec (o := o) (a := a) (b := b) h.separate hglobal hread with
      htaken | ⟨s'', cv', hok, hsame, hset⟩
    · exact absurd (htaken.symm.trans hcall) (by simp)
    · obtain rfl := Except.ok.inj (hcall.symm.trans hok)
      exact unmoved_of_hashLaw hset.locals
        ((congrArg OptionVar.key hsame).trans (h.separate.keyed key cv hglobal)) h.hashLaw hlaw

theorem tracedCall_ok {l : Call ι} {t' : Traced ι} :
    tracedCall F t l = .ok t' ↔ ∃ s', call F t.opts l = .ok s' ∧ t' = ⟨s', noteCall F t l⟩ := by
  unfold tracedCall
  cases call F t.opts l with
  | error e => exact ⟨fun h => absurd h nofun, fun ⟨_, h, _⟩ => absurd h nofun⟩
  | ok s =>
    refine ⟨fun h => ⟨s, rfl, (Except.ok.inj h).symm⟩, ?_⟩
    rintro ⟨s', hs', rfl⟩
    obtain rfl := Except.ok.inj hs'
    rfl

end Steps

/-- As long as the array of a request or a bookmark is not moved while the table has other
options, the table leads to the elements of the array, and lookups give the values that were set
last. The first call that moves it spoils the table. -/
theorem hash_law_kept [DecidableEq ι] (F : Floats) (start : Bytes → Option Setting) {t₀ t : Traced ι}
    (hinit : Started start t₀)
    (hrun : Reaches (fun t l t' => tracedCall F t l = .ok t')
      (fun t l => Typed F t.opts l ∧ Stays F t.opts l) t₀ t) :
    HashLaw t.opts ∧ LookupLaw F start t ∧
      ∀ l, IsLocal l → Typed F t.opts l → Keeps F t.opts l → call F t.opts l ≠ .error .taken →
        ((∃ t', tracedCall F t l = .ok t' ∧ HashLaw t'.opts ∧ LookupLaw F start t') ↔
          Stays F t.opts l) := by
  have h : Indexed F start t := by
    refine hrun.invariant (Indexed F start) hinit.indexed fun t l t' h ⟨htyped, hstays⟩ hcall => ?_
    obtain ⟨s', hok, rfl⟩ := tracedCall_ok.mp hcall
    rcases h.step htyped hstays with htaken | ⟨s'', hok', hindexed⟩
    · exact absurd (htaken.symm.trans hok) nofun
    · exact Except.ok.inj (hok'.symm.trans hok) ▸ hindexed
  refine ⟨h.hashLaw, h.lookupLaw, fun l hlocal htyped hkeeps hfree => ⟨?_, fun hstays => ?_⟩⟩
  · rintro ⟨t', hcall, hlaw, -⟩
    obtain ⟨s', hok, rfl⟩ := tracedCall_ok.mp hcall
    exact h.stays hlocal htyped hkeeps hok hlaw
  · rcases h.step htyped hstays with htaken | ⟨s', hok, hindexed⟩
    · exact absurd htaken hfree
    · exact ⟨_, tracedCall_ok.mpr ⟨s', hok, rfl⟩, hindexed.hashLaw, hindexed.lookupLaw⟩

section Moves

/-- The values of the two options at the start. -/
def startValues (key : Bytes) : Option Setting :=
  if key = ascii "proxy_config" then some (.text (some (ascii "http")))
  else if key = ascii "passive_transfer" then some (.word 1) else none

def startTrace : Traced Unit := ⟨started, fun _ _ => none⟩

theorem startTrace_started : Started startValues startTrace where
  separate := started_separate
  globals key v h := by
    simp only [startValues] at h
    split_ifs at h with hproxy hpassive
    · obtain rfl := Option.some.inj h
      exact ⟨proxyConfig, by simp [startTrace, started, hproxy], rfl⟩
    · obtain rfl := Option.some.inj h
      refine ⟨passiveTransfer, ?_, rfl⟩
      subst hpassive
      rfl
  noHash _ _ := rfl
  noLast _ _ := rfl

/-- Two lines of the bookmarks file with options; the array lies at the address 5, and is moved
for the second one. -/
def firstLine : Call Unit := .optionLine () (ascii "passive_transfer") (ascii "0") 1 5

def secondLine : Call Unit := .optionLine () (ascii "proxy_config") (ascii "ftp") 1 6

theorem line_typed (t : Traced Unit) (h : t.opts.globals = started.globals) (key str : Bytes) (a b : ℕ) :
    Typed plainFloats t.opts (.optionLine () key str a b) := by
  intro cv hcv
  rw [h] at hcv
  rcases started_record (r := .global key) hcv with ⟨-, rfl⟩ | ⟨-, rfl⟩
  · exact ⟨_, rfl⟩
  · exact ⟨_, rfl⟩

/-- The second option where the array stays. -/
def stayingLine : Call Unit := .optionLine () (ascii "proxy_config") (ascii "ftp") 1 5

theorem both_lines_kept :
    ∃ t₁ t, tracedCall plainFloats startTrace firstLine = .ok t₁ ∧
      tracedCall plainFloats t₁ stayingLine = .ok t ∧
        HashLaw t.opts ∧ LookupLaw plainFloats startValues t := by
  have hkept := hash_law_kept plainFloats startValues startTrace_started
    (((Reaches.refl _).tail (a := firstLine)
      ⟨line_typed startTrace rfl _ _ _ _, fun _ => .inr fun _ _ => rfl⟩ rfl).tail (a := stayingLine)
        ⟨line_typed _ rfl _ _ _ _, fun _ => .inl rfl⟩ rfl)
  exact ⟨_, _, rfl, rfl, hkept.1, hkept.2.1⟩

/-- The table still has the place that the first option had. -/
theorem moved_array_stale :
    ¬ ∀ t, Reaches (fun t l t' => tracedCall plainFloats t l = .ok t')
      (fun t l => IsLocal l ∧ Typed plainFloats t.opts l) startTrace t →
      HashLaw t.opts ∧ LookupLaw plainFloats startValues t := by
  intro hall
  have hstart : Reaches (fun t l t' => tracedCall plainFloats t l = .ok t')
      (fun t l => IsLocal l ∧ Typed plainFloats t.opts l) startTrace startTrace := .refl _
  have hrun := (hstart.tail (a := firstLine)
      ⟨trivial, line_typed startTrace rfl _ _ _ _⟩ rfl).tail (a := secondLine)
        ⟨trivial, line_typed _ rfl _ _ _ _⟩ rfl
  obtain ⟨hlaw, -⟩ := hall _ hrun
  have hblock := (hlaw () (ascii "passive_transfer") ⟨5, 0⟩ rfl).1
  exact absurd hblock (by decide)

end Moves

end Gftp.OptionHashes
