import Mathlib.Logic.Relation
import Gftp.SshReplay

/-!
The names of the entries that gftp_get_next_file returns, for any protocol and any file
specification. Callers compare the name and put it into paths, so it should be there, not
be empty and be free of slashes. A name that ends in a slash is cleared and its entry is
returned all the same, since the test of the loop takes an entry without a name; an empty
name is taken as well.
-/

namespace Gftp.EntryNames

open ByteStrings ByteStreams Protocol DirListing

variable {ρ κ : Type}

section Filespec

/-- The text a star of a file specification is followed by. -/
def searchText (wcpos : Bytes) : Bytes := wcpos.takeWhile fun c => c ≠ 42 ∧ c ≠ 63

/-- What is left of a text from the first place where another one occurs. -/
def strstr (needle : Bytes) : Bytes → Option Bytes
  | [] => if needle = [] then some [] else none
  | c :: rest => if needle <+: c :: rest then some (c :: rest) else strstr needle rest

/-- The block search_str. -/
def searchStrSize : ℕ := 20

/-- The loop of gftp_match_filespec. Up to twenty bytes are copied to search_str, and the
byte that ends them is written behind the last. -/
def matchFrom : ℕ → Bytes → Bytes → CRun Bool
  | 0, _, _ => .error .pending
  | fuel + 1, wcpos, filepos =>
      match wcpos, filepos with
      | [], _ => return true
      | _, [] => return false
      | c :: wcpos, d :: filepos =>
          if c = 63 then matchFrom fuel wcpos filepos
          else if c = 42 ∧ wcpos = [] then return true
          else if c = 42 then
            if searchStrSize ≤ (searchText wcpos).length then .error .fault
            else
              match strstr (searchText wcpos) (d :: filepos) with
              | none => return false
              | some found =>
                  matchFrom fuel (wcpos.drop (searchText wcpos).length)
                    (found.drop (searchText wcpos).length)
          else if c = d then matchFrom fuel wcpos filepos
          else return false

/-- gftp_match_filespec for an entry that has a name. A file specification that is not
given counts as an empty one. -/
def gftpMatchFilespec (showHiddenFiles : Bool) (filespec filename : Bytes) : CRun Bool :=
  if filename = [] ∨ filespec = [] then return true
  else if !showHiddenFiles && filename.head? = some 46 && filename ≠ [46, 46] then return false
  else matchFrom (filespec.length + 1) filespec filename

/-- gftp_match_filespec as the listing calls it; overrun is what it gives after it wrote
behind search_str. -/
def shownBy (showHiddenFiles : Bool) (filespec : Bytes) (overrun : Bytes → Bool)
    (filename : Bytes) : Bool :=
  match gftpMatchFilespec showHiddenFiles filespec filename with
  | .ok shown => shown
  | .error _ => overrun filename

@[simp] theorem shownBy_nil (showHiddenFiles : Bool) (filespec : Bytes) (overrun : Bytes → Bool) :
    shownBy showHiddenFiles filespec overrun [] = true := rfl

end Filespec

/-- An entry its callers can use. -/
def UsableName (fle : GftpFile) : Prop := ∃ file, fle.file = some file ∧ file ≠ [] ∧ 47 ∉ file

/-- A name as a protocol delivers it: it is not empty and does not end in a slash, and when
the part after the last slash has to be converted, the result is neither empty nor has it a
slash, unless it does not match. -/
structure Deliverable (C : Charsets κ) (shown : Bytes → Bool) (charset : κ) (file : Bytes) :
    Prop where
  nonempty : file ≠ []
  noTrailingSlash : file.getLast? ≠ some 47
  converted : ∀ base utf8, stripPath file = some base → C.utf8Validate base = false →
    (C.filenameToUtf8 charset base).1 = some utf8 → shown utf8 = true → utf8 ≠ [] ∧ 47 ∉ utf8

section Rounds

variable (P : ListProtocol ρ) (C : Charsets κ) (shown : Bytes → Bool)

/-- A round that the loop of gftp_get_next_file goes on after. -/
def PassesOver (fromCache : Bool) (l l' : ListRequest ρ κ) : Prop :=
  ∃ r, nextRound P C fromCache l = .ok r ∧ goesOn r.ret = true ∧ r.fle.file.all shown = false ∧
    r.request = l'

/-- One call of gftp_get_next_file, whatever it returns. -/
def Calls (l l' : ListRequest ρ κ) : Prop :=
  ∃ fuel r, gftpGetNextFile P C shown (readsCache P l) fuel l = .ok r ∧ r.request = l'

/-- In every call of a sequence, a positive result comes with an entry that can be used. -/
def AllUsable (l : ListRequest ρ κ) : Prop :=
  ∀ l', Relation.ReflTransGen (Calls P C shown) l l' → ∀ fuel r,
    gftpGetNextFile P C shown (readsCache P l') fuel l' = .ok r → goesOn r.ret = true →
      UsableName r.fle

/-- In every round of every call of a sequence, a positive result of the protocol comes with
a name that gives an entry that can be used. -/
def AllDeliverable (l : ListRequest ρ κ) : Prop :=
  ∀ l', Relation.ReflTransGen (Calls P C shown) l l' →
    ∀ l'', Relation.ReflTransGen (PassesOver P C shown (readsCache P l')) l' l'' →
      ∀ r, P.getNextFile l''.request (source (readsCache P l') l'') = .ok r →
        goesOn r.ret = true → ∃ file, r.fle.file = some file ∧
          Deliverable C shown l''.charset file

end Rounds

section Names

variable {C : Charsets κ} {shown : Bytes → Bool} {charset : κ}

theorem stripPath_no_slash {file base : Bytes} (h : stripPath file = some base) : 47 ∉ base := by
  unfold stripPath at h
  split_ifs at h with hslash hlast
  · obtain rfl := Option.some.inj h
    intro hmem
    simpa using List.mem_takeWhile_imp (List.mem_reverse.mp hmem)
  · obtain rfl := Option.some.inj h
    exact hslash

theorem stripPath_some {file : Bytes} (h : file ≠ []) (hlast : file.getLast? ≠ some 47) :
    ∃ base, stripPath file = some base ∧ base ≠ [] := by
  unfold stripPath
  split_ifs with hslash
  · refine ⟨_, rfl, ?_⟩
    obtain ⟨c, front, hrev⟩ := List.exists_cons_of_ne_nil (List.reverse_ne_nil_iff.mpr h)
    have hc : c ≠ 47 := by
      rintro rfl
      rw [← List.head?_reverse, hrev] at hlast
      exact hlast rfl
    simp [hrev, hc]
  · exact ⟨file, rfl, h⟩

theorem stripPath_none {file : Bytes} (h : file.getLast? = some 47) : stripPath file = none := by
  rw [stripPath, if_pos (List.mem_of_getLast? h), if_pos h]

theorem toUtf8_valid {base : Bytes} (h : C.utf8Validate base = true) :
    toUtf8 C charset base = (base, charset) := by
  rw [toUtf8, if_pos h]

/-- The name of a converted entry is the delivered one, or the conversion's result. -/
theorem toUtf8_cases (base : Bytes) :
    (toUtf8 C charset base).1 = base ∨
      C.utf8Validate base = false ∧
        (C.filenameToUtf8 charset base).1 = some (toUtf8 C charset base).1 := by
  cases hvalid : C.utf8Validate base with
  | true => exact .inl (congrArg Prod.fst (toUtf8_valid hvalid))
  | false =>
    cases hconv : C.filenameToUtf8 charset base with
    | mk utf8 charset' =>
      cases utf8 with
      | none => exact .inl (by simp [toUtf8, hvalid, hconv])
      | some utf8 => exact .inr ⟨rfl, by simp [toUtf8, hvalid, hconv]⟩

theorem toUtf8_converted {base utf8 : Bytes} (hvalid : C.utf8Validate base = false)
    (hconv : (C.filenameToUtf8 charset base).1 = some utf8) :
    (toUtf8 C charset base).1 = utf8 := by
  cases h : C.filenameToUtf8 charset base with
  | mk out charset' =>
    rw [h] at hconv
    obtain rfl : out = some utf8 := hconv
    simp [toUtf8, hvalid, h]

theorem Deliverable.usable {file base : Bytes} (h : Deliverable C shown charset file)
    (hbase : stripPath file = some base) (hshown : shown (toUtf8 C charset base).1 = true) :
    (toUtf8 C charset base).1 ≠ [] ∧ 47 ∉ (toUtf8 C charset base).1 := by
  rcases @toUtf8_cases _ C charset base with heq | ⟨hvalid, hconv⟩
  · obtain ⟨base', hbase', hne⟩ := stripPath_some h.nonempty h.noTrailingSlash
    obtain rfl := Option.some.inj (hbase'.symm.trans hbase)
    rw [heq]
    exact ⟨hne, stripPath_no_slash hbase⟩
  · exact h.converted base _ hbase hvalid hconv hshown

/-- A name is deliverable when what it is shown as can be used or does not match. -/
theorem deliverable_of_usable {file base : Bytes} (hempty : C.utf8Validate [] = true)
    (hshown : shown [] = true) (hbase : stripPath file = some base)
    (h : shown (toUtf8 C charset base).1 = true →
      (toUtf8 C charset base).1 ≠ [] ∧ 47 ∉ (toUtf8 C charset base).1) :
    Deliverable C shown charset file where
  nonempty := by
    rintro rfl
    obtain rfl : [] = base := Option.some.inj hbase
    rw [toUtf8_valid hempty] at h
    exact (h hshown).1 rfl
  noTrailingSlash := by
    intro hlast
    rw [stripPath_none hlast] at hbase
    exact absurd hbase nofun
  converted := by
    intro base' utf8 hbase' hvalid hconv hmatch
    obtain rfl := Option.some.inj (hbase'.symm.trans hbase)
    rw [toUtf8_converted hvalid hconv] at h
    exact h hmatch

end Names

section Calls

variable {P : ListProtocol ρ} {C : Charsets κ} {shown : Bytes → Bool} {fromCache : Bool}
  {l l' : ListRequest ρ κ} {r : Round ρ κ}

/-- The name an entry is shown with, none when it has none or ends in a slash. -/
def entryName (C : Charsets κ) (charset : κ) (file : Option Bytes) : Option Bytes :=
  file.bind fun file => (stripPath file).map fun base => (toUtf8 C charset base).1

theorem nextRound_next {s : NextFile ρ}
    (hnext : P.getNextFile l.request (source fromCache l) = .ok s) :
    ∃ r, nextRound P C fromCache l = .ok r ∧ r.ret = s.ret ∧
      (goesOn s.ret = true → r.fle.file = entryName C l.charset s.fle.file) := by
  have hcharset : (setSource fromCache s.stream { l with request := s.request }).charset =
      l.charset := by
    cases fromCache <;> rfl
  unfold nextRound
  rw [hnext, CRun.ok_bind]
  dsimp only
  rw [hcharset]
  cases hshow : showEntry C l.charset s.ret.isOk s.fle with
  | none =>
    refine ⟨_, rfl, rfl, fun _ => ?_⟩
    unfold showEntry at hshow
    cases hfile : s.fle.file with
    | none => simp [hfile] at hshow
    | some file =>
      cases hstrip : stripPath file with
      | none => simp [entryName, hstrip, GftpFile.cleared]
      | some base =>
        simp only [hfile, hstrip] at hshow
        split at hshow <;> exact absurd hshow nofun
  | some entry =>
    refine ⟨_, rfl, rfl, fun hret => ?_⟩
    have hok : s.ret.isOk = true := by
      cases hs : s.ret with
      | ok n => rfl
      | error e => simp [hs, goesOn] at hret
    unfold showEntry at hshow
    rw [hok] at hshow
    cases hfile : s.fle.file with
    | none =>
      simp only [hfile] at hshow
      obtain rfl := Option.some.inj hshow
      simpa [entryName] using hfile
    | some file =>
      cases hstrip : stripPath file with
      | none => simp [hfile, hstrip] at hshow
      | some base =>
        simp only [hfile, hstrip, if_true] at hshow
        obtain rfl := Option.some.inj hshow
        simp [entryName, hstrip]

/-- A call passes over some entries and returns what the next round gives. -/
theorem getNextFile_passes {fuel : ℕ}
    (h : gftpGetNextFile P C shown fromCache fuel l = .ok r) :
    ∃ l', Relation.ReflTransGen (PassesOver P C shown fromCache) l l' ∧
      nextRound P C fromCache l' = .ok r ∧ (goesOn r.ret = true → r.fle.file.all shown = true) := by
  induction fuel generalizing l with
  | zero => exact absurd h nofun
  | succ fuel ih =>
    obtain ⟨r', hround, h⟩ := CRun.bind_eq_ok.mp h
    split_ifs at h with hpass
    · simp only [Bool.and_eq_true, Bool.not_eq_true'] at hpass
      obtain ⟨l', hl', hrest⟩ := ih h
      exact ⟨l', hl'.head ⟨r', hround, hpass.1, hpass.2, rfl⟩, hrest⟩
    · obtain rfl := Except.ok.inj h
      refine ⟨l, .refl, hround, fun hret => ?_⟩
      simpa [hret] using hpass

/-- The round that comes after the entries passed over is the one a call returns. -/
theorem getNextFile_returns (hpass : Relation.ReflTransGen (PassesOver P C shown fromCache) l l')
    (hround : nextRound P C fromCache l' = .ok r)
    (hstop : goesOn r.ret = true → r.fle.file.all shown = true) :
    ∃ fuel, gftpGetNextFile P C shown fromCache fuel l = .ok r := by
  induction hpass using Relation.ReflTransGen.head_induction_on with
  | refl =>
    refine ⟨1, ?_⟩
    rw [gftpGetNextFile, hround, CRun.ok_bind, if_neg]
    · rfl
    · intro hgo
      simp only [Bool.and_eq_true, Bool.not_eq_true'] at hgo
      exact absurd (hstop hgo.1) (by simp [hgo.2])
  | head hstep hrest ih =>
    obtain ⟨r', hround', hgo, hmatch, rfl⟩ := hstep
    obtain ⟨fuel, hfuel⟩ := ih
    refine ⟨fuel + 1, ?_⟩
    rw [gftpGetNextFile, hround', CRun.ok_bind, if_pos (by simp [hgo, hmatch])]
    exact hfuel

end Calls

/-- The entries that a sequence of calls returns can be used as long as the protocol delivers
names that are not empty and do not end in a slash, and the conversion keeps them so. -/
theorem all_usable_iff (P : ListProtocol ρ) (C : Charsets κ) (showHiddenFiles : Bool)
    (filespec : Bytes) (overrun : Bytes → Bool) (l : ListRequest ρ κ)
    (hempty : C.utf8Validate [] = true) :
    AllUsable P C (shownBy showHiddenFiles filespec overrun) l ↔
      AllDeliverable P C (shownBy showHiddenFiles filespec overrun) l := by
  have hnil := shownBy_nil showHiddenFiles filespec overrun
  constructor
  · intro h l' hcalls l'' hpass s hnext hret
    obtain ⟨r, hround, hrs, hname⟩ := nextRound_next (C := C) hnext
    have hfile := hname hret
    have hreturned (hshown : r.fle.file.all (shownBy showHiddenFiles filespec overrun) = true) :
        UsableName r.fle := by
      obtain ⟨fuel, hcall⟩ := getNextFile_returns hpass hround fun _ => hshown
      exact h l' hcalls fuel r hcall (hrs ▸ hret)
    cases hdelivered : s.fle.file with
    | none =>
      rw [hdelivered] at hfile
      obtain ⟨file, hnone, -⟩ := hreturned (by rw [hfile]; rfl)
      exact absurd (hfile.symm.trans hnone) nofun
    | some file =>
      refine ⟨file, rfl, ?_⟩
      rw [hdelivered] at hfile
      cases hstrip : stripPath file with
      | none =>
        simp only [entryName, Option.bind_some, hstrip, Option.map_none] at hfile
        obtain ⟨file', hnone, -⟩ := hreturned (by rw [hfile]; rfl)
        exact absurd (hfile.symm.trans hnone) nofun
      | some base =>
        simp only [entryName, Option.bind_some, hstrip, Option.map_some] at hfile
        refine deliverable_of_usable hempty hnil hstrip fun hshown => ?_
        obtain ⟨file', hfile', hne, hslash⟩ := hreturned (by rw [hfile]; exact hshown)
        obtain rfl := Option.some.inj (hfile.symm.trans hfile')
        exact ⟨hne, hslash⟩
  · intro h l' hcalls fuel r hcall hret
    obtain ⟨l'', hpass, hround, hstop⟩ := getNextFile_passes hcall
    obtain ⟨s, hnext, -⟩ := CRun.bind_eq_ok.mp hround
    obtain ⟨r', hround', hrs, hname⟩ := nextRound_next (C := C) hnext
    obtain rfl := Except.ok.inj (hround'.symm.trans hround)
    have hpos : goesOn s.ret = true := hrs ▸ hret
    obtain ⟨file, hfile, hdeliver⟩ := h l' hcalls l'' hpass s hnext hpos
    obtain ⟨base, hbase, -⟩ := stripPath_some hdeliver.nonempty hdeliver.noTrailingSlash
    have hentry := hname hpos
    simp only [entryName, hfile, Option.bind_some, hbase, Option.map_some] at hentry
    refine ⟨_, hentry, hdeliver.usable hbase ?_⟩
    simpa [hentry] using hstop hret

/-- An SFTP response that names one directory. -/
def nameResponse : Bytes :=
  [0, 0, 0, 23, 104] ++ [0, 0, 0, 0] ++ [0, 0, 0, 1] ++ [0, 0, 0, 2, 97, 47] ++ [0, 0, 0, 0] ++
    [0, 0, 0, 0]

/-- A request of a name with a slash at its end, and of every name that matches a star. -/
def slashListing : DirListing.ListRequest SshMessages.SshRequest Unit :=
  SshReplay.listRequest false nameResponse []

/-- The entry is cleared and returned as a file. -/
theorem slash_name_returned :
    ¬ AllUsable (SshListing.sshListProtocol fun _ => .ok ()) SshReplay.asciiNames
      (shownBy false (ascii "*") fun _ => false) slashListing := by
  have hcall : (do
      let r ← gftpGetNextFile (SshListing.sshListProtocol fun _ => .ok ()) SshReplay.asciiNames
        (shownBy false (ascii "*") fun _ => false)
        (readsCache (SshListing.sshListProtocol fun _ => .ok ()) slashListing) 1 slashListing
      .ok (goesOn r.ret, r.fle.file) : CRun (Bool × Option Bytes)) = .ok (true, none) := by
    decide +kernel
  intro h
  obtain ⟨r, hr, hfle⟩ := CRun.bind_eq_ok.mp hcall
  have hpair := Except.ok.inj hfle
  obtain ⟨file, hfile, -⟩ := h _ .refl 1 r hr (congrArg Prod.fst hpair)
  have hnone : r.fle.file = none := congrArg Prod.snd hpair
  rw [hfile] at hnone
  cases hnone

theorem slash_listing_usable_iff :
    AllUsable (SshListing.sshListProtocol fun _ => .ok ()) SshReplay.asciiNames
        (shownBy false (ascii "*") fun _ => false) slashListing ↔
      AllDeliverable (SshListing.sshListProtocol fun _ => .ok ()) SshReplay.asciiNames
        (shownBy false (ascii "*") fun _ => false) slashListing :=
  all_usable_iff _ _ false (ascii "*") (fun _ => false) slashListing rfl

end Gftp.EntryNames
