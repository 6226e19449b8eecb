import Gftp.ConfigLines

/-!
What the tables of the options promise: keys that differ and that no line of another kind
starts with, lists whose entries differ, and comments that are written as whole lines.
-/

namespace Gftp.ConfigEntries

open ByteStrings Comments Decimal PeerCheck OptionTables OptionTexts ConfigFile ConfigLines

section Table

variable {cv : OptionVar} {opts : List OptionVar} {table : Bytes → Option OptionVar}

theorem insert_keeps {key : Bytes} (h : key ∉ opts.map OptionVar.key) :
    opts.foldl insertOption table key = table key := by
  induction opts generalizing table with
  | nil => rfl
  | cons cv opts ih =>
    rw [List.map_cons, List.mem_cons, not_or] at h
    rw [List.foldl_cons, ih h.2, insertOption]
    split_ifs
    · rfl
    · exact Function.update_of_ne h.1 _ _

theorem insert_finds (hnodup : ((opts.map OptionVar.key).filter (· ≠ [])).Nodup) (hcv : cv ∈ opts)
    (hkey : cv.key ≠ []) : opts.foldl insertOption table cv.key = some cv := by
  induction opts generalizing table with
  | nil => exact absurd hcv nofun
  | cons first opts ih =>
    rcases List.mem_cons.mp hcv with rfl | hmem
    · rw [List.map_cons, List.filter_cons_of_pos (by simpa using hkey), List.nodup_cons] at hnodup
      have hrest : cv.key ∉ opts.map OptionVar.key := by
        intro hmem
        exact hnodup.1 (List.mem_filter.mpr ⟨hmem, by simpa using hkey⟩)
      rw [List.foldl_cons, insert_keeps hrest, insertOption, if_neg hkey]
      exact Function.update_self ..
    · refine ih (hnodup.sublist ?_) hmem
      rw [List.map_cons]
      exact (List.sublist_cons_self _ _).filter _

end Table

section Spelled

variable {key comment : List Char} {otype : OptionType} {listdata : List Bytes}
  {opts spelled : List OptionVar}

/-- A table whose strings are taken letter by letter. -/
def Spelled (opts spelled : List OptionVar) : Prop := opts = spelled

theorem Spelled.nil : Spelled [] [] := rfl

theorem Spelled.bare (h : Spelled opts spelled) : Spelled (bare (String.ofList key) otype :: opts)
    (⟨key.map fun c => UInt8.ofNat c.toNat, otype, [], none⟩ :: spelled) := by
  rw [← ascii_spelled]
  exact congrArg _ h

theorem Spelled.commented (h : Spelled opts spelled) :
    Spelled (commented (String.ofList key) otype (String.ofList comment) :: opts)
      (⟨key.map fun c => UInt8.ofNat c.toNat, otype, [],
        some (comment.map fun c => UInt8.ofNat c.toNat)⟩ :: spelled) := by
  rw [← ascii_spelled, ← ascii_spelled]
  exact congrArg _ h

theorem Spelled.listed (h : Spelled opts spelled) :
    Spelled ({ OptionTables.commented (String.ofList key) otype (String.ofList comment) with
        listdata := listdata } :: opts)
      (⟨key.map fun c => UInt8.ofNat c.toNat, otype, listdata,
        some (comment.map fun c => UInt8.ofNat c.toNat)⟩ :: spelled) := by
  rw [← ascii_spelled, ← ascii_spelled]
  exact congrArg _ h

/-- What the key and the list of an option are checked for. -/
def inWrittenForm (cv : OptionVar) : Bool :=
  cv.otype ≠ .notebook && (cv.key ≠ [] && cv.key.head? ≠ some 35 &&
    cv.key.all fun b => b ≠ 0 ∧ b ≠ 10 ∧ b ≠ 61) && cv.key.length ≤ 40 &&
    (cv.listdata.all fun entry => entry.all (fun b => b ≠ 0 ∧ b ≠ 10 ∧ b ≠ 13) && entry.length ≤ 100) &&
    decide (cv.listdata.Pairwise fun entry entry' => ¬ caseEq entry entry') &&
    (gftpConfigList.all fun list => list.1 ≠ cv.key) &&
    (cv.otype ≠ .textcombo || cv.listdata.all fun entry => entry.any fun b => b ≠ 45 ∧ isDigit b = false) &&
    (cv.otype ≠ .intcombo || cv.listdata ≠ [])

/-- What the tables are checked for. -/
structure CheckedTable (opts : List OptionVar) : Prop where
  nodup : ((opts.map OptionVar.key).filter (· ≠ [])).Nodup
  forms : (opts.filter fun cv => cv.otype ≠ .notebook ∧ cv.key ≠ []).all inWrittenForm = true
  chain : (opts.filter fun cv => cv.otype ≠ .notebook ∧ cv.key ≠ []).IsChain
    fun before cv => cv.otype = .textcombo → before.otype = .int
  closed : (opts.all fun cv => cv.comment.all closedCheck) = true

set_option maxRecDepth 20000

theorem options_checked : CheckedTable gftpOptionsList.flatten := by
  have hspelled : ∃ spelled, Spelled gftpOptionsList.flatten spelled ∧ CheckedTable spelled := by
    have hflatten : gftpOptionsList.flatten = gftpGlobalConfigVars ++ (rfc959ConfigVars ++
        (sslConfigVars ++ (rfc2068ConfigVars ++ (sshv2ConfigVars ++ [])))) := rfl
    rw [hflatten]
    apply Exists.intro
    apply And.intro
    · unfold gftpGlobalConfigVars rfc959ConfigVars sslConfigVars rfc2068ConfigVars sshv2ConfigVars
      repeat' first
        | exact Spelled.nil
        | apply Spelled.bare
        | apply Spelled.commented
        | apply Spelled.listed
    · exact ⟨by decide +kernel, by decide +kernel, by decide +kernel, by decide +kernel⟩
  obtain ⟨spelled, hspelled, hchecked⟩ := hspelled
  rw [hspelled]
  exact hchecked

end Spelled

section Written

theorem optionKeys_nodup : optionKeys.Nodup := options_checked.nodup

theorem options_closed {cv : OptionVar} (hcv : cv ∈ gftpOptionsList.flatten) :
    ∀ c ∈ cv.comment, Closed c := by
  intro c hc
  have hcheck := List.all_eq_true.mp options_checked.closed cv hcv
  rw [hc] at hcheck
  exact closed_of_check hcheck

theorem written_forms : ∀ cv ∈ writtenOptions, cv.otype ≠ .notebook ∧
    (cv.key ≠ [] ∧ cv.key.head? ≠ some 35 ∧ ∀ b ∈ cv.key, b ≠ 0 ∧ b ≠ 10 ∧ b ≠ 61) ∧
    cv.key.length ≤ 40 ∧
    (∀ entry ∈ cv.listdata, (∀ b ∈ entry, b ≠ 0 ∧ b ≠ 10 ∧ b ≠ 13) ∧ entry.length ≤ 100) ∧
    (cv.listdata.Pairwise fun entry entry' => ¬ caseEq entry entry') ∧
    cv.key ∉ gftpConfigList.map Prod.fst ∧
    (cv.otype = .textcombo → ∀ entry ∈ cv.listdata, ∃ b ∈ entry, b ≠ 45 ∧ isDigit b = false) ∧
    (cv.otype = .intcombo → cv.listdata ≠ []) := by
  intro cv hcv
  have hchecked := List.all_eq_true.mp options_checked.forms cv hcv
  simp only [inWrittenForm, Bool.and_eq_true, Bool.or_eq_true, decide_eq_true_eq, List.all_eq_true,
    List.any_eq_true] at hchecked
  obtain ⟨⟨⟨⟨⟨⟨⟨htype, ⟨hne, hhead⟩, hkey⟩, hshort⟩, hlist⟩, hdistinct⟩, hnoList⟩, hwords⟩, hfilled⟩ :=
    hchecked
  have hother : cv.key ∉ gftpConfigList.map Prod.fst := by
    intro hkey
    obtain ⟨list, hmem, hequal⟩ := List.mem_map.mp hkey
    exact hnoList list hmem hequal
  exact ⟨htype, ⟨hne, hhead, hkey⟩, hshort, hlist, hdistinct, hother, hwords.resolve_left ∘ not_not_intro,
    hfilled.resolve_left ∘ not_not_intro⟩

/-- The combo of texts stands behind a number. -/
theorem written_chain :
    writtenOptions.IsChain fun before cv => cv.otype = .textcombo → before.otype = .int :=
  options_checked.chain

theorem written_entry {cv : OptionVar} (hcv : cv ∈ writtenOptions) : Entry cv := by
  obtain ⟨htype, hkey, hshort, hlist, hdistinct, hnoList, hwords, -⟩ := written_forms cv hcv
  have hmem := (List.mem_filter.mp hcv).1
  exact ⟨⟨htype, hkey, hshort, hlist, hdistinct⟩, insert_finds optionKeys_nodup hmem hkey.1, hnoList,
    options_closed hmem, hwords⟩

theorem written_filled {cv : OptionVar} (hcv : cv ∈ writtenOptions) (htype : cv.otype = .intcombo) :
    cv.listdata ≠ [] := by
  obtain ⟨-, -, -, -, -, -, -, hfilled⟩ := written_forms cv hcv
  exact hfilled htype

theorem written_nodup : (writtenOptions.map OptionVar.key).Nodup := by
  have hkeys := optionKeys_nodup
  unfold optionKeys at hkeys
  refine hkeys.sublist ?_
  rw [List.filter_map]
  exact (List.monotone_filter_right _ fun cv hcv => by
    simpa using (of_decide_eq_true hcv).2).map _

end Written

end Gftp.ConfigEntries
