import Gftp.ByteStrings

/-!
The bytes of an FTP command. rfc959_generate_and_send_command puts the command word, the
argument, in the charset of the server when it can be converted, and an end of line into one
string, and counts its bytes apart from it; rfc959_send_command writes so many bytes of the
string.
-/

namespace Gftp.FtpCommands

open ByteStrings

/-- An allocated string with the number of its bytes that are to be sent. -/
structure Command where
  block : Bytes
  len : ℕ
  deriving DecidableEq

def crlf : Bytes := [13, 10]

/-- g_strconcat. -/
def strconcat (parts : List Bytes) : Bytes := parts.flatMap cstr ++ [0]

/-- gftp_filename_from_utf8 or gftp_string_from_utf8, which may be any function: the converted
string and dest_len bytes of it, which do not count its terminator. -/
abbrev FromUtf8 := CString → Option Bytes

/-- rfc959_generate_and_send_command up to its call of rfc959_send_command. -/
def rfc959GenerateCommand (fromUtf8 : FromUtf8) (command : CString) (argument : Option CString) :
    Command :=
  match argument with
  | some argument =>
      match fromUtf8 argument with
      | some utf8 => {
          block := strconcat [command.bytes, [32], utf8, crlf]
          len := utf8.length + (command.bytes.length + 3) }
      | none => {
          block := strconcat [command.bytes, [32], argument.bytes, crlf]
          len := argument.bytes.length + (command.bytes.length + 3) }
  | none => { block := strconcat [command.bytes, crlf], len := command.bytes.length + 2 }

/-- What rfc959_send_command gives to write_function, once and again when it has reconnected. -/
def rfc959WriteCommand (c : Command) : CRun Bytes :=
  if c.len ≤ c.block.length then .ok (c.block.take c.len) else .error .fault

/-- The bytes are one line. -/
def OneLine (sent : Bytes) : Prop := ∃ line, sent = line ++ crlf ∧ 13 ∉ line ∧ 10 ∉ line

/-- The argument as it is sent. -/
def encoded (fromUtf8 : FromUtf8) (argument : CString) : Bytes :=
  (fromUtf8 argument).getD argument.bytes

/-- A string that neither ends a line nor is cut off in one. -/
structure Unbroken (s : Bytes) : Prop where
  no_cr : 13 ∉ s
  no_lf : 10 ∉ s
  no_nul : 0 ∉ s

section Lines

variable {word s : Bytes}

theorem unbroken_of_oneLine {line : Bytes} (h : OneLine (line ++ crlf)) : 13 ∉ line ∧ 10 ∉ line := by
  obtain ⟨line', hsame, hcr, hlf⟩ := h
  obtain rfl := List.append_cancel_right hsame
  exact ⟨hcr, hlf⟩

theorem oneLine_iff : OneLine (s ++ crlf) ↔ 13 ∉ s ∧ 10 ∉ s := by
  constructor
  · exact unbroken_of_oneLine
  · intro ⟨hcr, hlf⟩
    exact ⟨s, rfl, hcr, hlf⟩

theorem strconcat_argument (hword : 0 ∉ word) :
    strconcat [word, [32], s, crlf] = word ++ [32] ++ cstr s ++ crlf ++ [0] := by
  have hblank : cstr [32] = [32] := rfl
  have hend : cstr crlf = crlf := rfl
  simp [strconcat, cstr_eq_self hword, hblank, hend]

/-- A string without a NUL is written whole. -/
theorem write_whole (hword : 0 ∉ word) (hs : 0 ∉ s) :
    rfc959WriteCommand ⟨strconcat [word, [32], s, crlf], s.length + (word.length + 3)⟩ =
      .ok (word ++ [32] ++ s ++ crlf) := by
  have hlen : (word ++ [32] ++ s ++ crlf).length = s.length + (word.length + 3) := by
    simp only [List.length_append, crlf, List.length_cons, List.length_nil]
    omega
  rw [strconcat_argument hword, cstr_eq_self hs, rfc959WriteCommand]
  simp only
  rw [if_pos (by rw [List.length_append, hlen]; omega), ← hlen, List.take_left]

/-- A string with a NUL is shorter than its count: the terminator is written too, or more than
there is. -/
theorem write_cut (hword : 0 ∉ word) (hs : 0 ∈ s) :
    rfc959WriteCommand ⟨strconcat [word, [32], s, crlf], s.length + (word.length + 3)⟩ =
        .error .fault ∨
      rfc959WriteCommand ⟨strconcat [word, [32], s, crlf], s.length + (word.length + 3)⟩ =
        .ok (word ++ [32] ++ cstr s ++ crlf ++ [0]) := by
  have hshort : (cstr s).length < s.length := by
    rcases Nat.lt_or_eq_of_le (cstr_length_le s) with hlt | heq
    · exact hlt
    · have hsame : cstr s = s := (List.takeWhile_prefix _).eq_of_length heq
      exact absurd (hsame ▸ nul_not_mem_cstr s) (fun h => h hs)
  have hlen : (word ++ [32] ++ cstr s ++ crlf ++ [0]).length = (cstr s).length + (word.length + 4) := by
    simp only [List.length_append, crlf, List.length_cons, List.length_nil]
    omega
  rw [strconcat_argument hword, rfc959WriteCommand]
  simp only
  by_cases hfits : s.length + (word.length + 3) ≤ (word ++ [32] ++ cstr s ++ crlf ++ [0]).length
  · rw [if_pos hfits]
    rw [hlen] at hfits
    exact .inr (congrArg _ (List.take_of_length_le (by rw [hlen]; omega)))
  · exact .inl (if_neg hfits)

/-- What ends in a NUL is no line. -/
theorem not_oneLine {line : Bytes} : ¬ OneLine (line ++ [0]) := by
  rintro ⟨line', hsame, -⟩
  have hlast := congrArg List.getLast? hsame
  rw [List.getLast?_append, List.getLast?_append] at hlast
  simp [crlf] at hlast

theorem argument_oneLine_iff (hword : 0 ∉ word) :
    (∃ sent, rfc959WriteCommand ⟨strconcat [word, [32], s, crlf], s.length + (word.length + 3)⟩ =
        .ok sent ∧ OneLine sent) ↔ 13 ∉ word ∧ 10 ∉ word ∧ Unbroken s := by
  by_cases hs : 0 ∈ s
  · constructor
    · intro ⟨sent, hsent, hline⟩
      rcases write_cut hword hs with hfault | hcut
      · rw [hfault] at hsent
        cases hsent
      · rw [hcut] at hsent
        obtain rfl := Except.ok.inj hsent
        exact absurd hline not_oneLine
    · intro ⟨_, _, hunbroken⟩
      exact absurd hs hunbroken.no_nul
  · rw [write_whole hword hs]
    constructor
    · intro ⟨sent, hsent, hline⟩
      obtain rfl := Except.ok.inj hsent
      obtain ⟨hcr, hlf⟩ := oneLine_iff.mp hline
      simp only [List.mem_append, not_or] at hcr hlf
      exact ⟨hcr.1.1, hlf.1.1, hcr.2, hlf.2, hs⟩
    · intro ⟨hcr, hlf, hunbroken⟩
      refine ⟨_, rfl, oneLine_iff.mpr ⟨?_, ?_⟩⟩
      · simp [hcr, hunbroken.no_cr]
      · simp [hlf, hunbroken.no_lf]

end Lines

/-- One command is sent exactly when neither the word nor the argument, as it is sent, breaks
the line. -/
theorem one_command_iff (fromUtf8 : FromUtf8) (command : CString) (argument : Option CString) :
    (∃ sent, rfc959WriteCommand (rfc959GenerateCommand fromUtf8 command argument) = .ok sent ∧
        OneLine sent) ↔
      13 ∉ command.bytes ∧ 10 ∉ command.bytes ∧
        ∀ a, argument = some a → Unbroken (encoded fromUtf8 a) := by
  have hword := command.nul_free
  cases argument with
  | none =>
    have hblock : strconcat [command.bytes, crlf] = command.bytes ++ crlf ++ [0] := by
      have hend : cstr crlf = crlf := rfl
      simp [strconcat, cstr_eq_self hword, hend]
    have hlen : (command.bytes ++ crlf).length = command.bytes.length + 2 := by simp [crlf]
    have hwrite : rfc959WriteCommand (rfc959GenerateCommand fromUtf8 command none) =
        .ok (command.bytes ++ crlf) := by
      simp only [rfc959GenerateCommand, rfc959WriteCommand, hblock]
      rw [if_pos (by rw [List.length_append, hlen]; omega), ← hlen, List.take_left]
    rw [hwrite]
    constructor
    · intro ⟨sent, hsent, hline⟩
      obtain rfl := Except.ok.inj hsent
      obtain ⟨hcr, hlf⟩ := oneLine_iff.mp hline
      exact ⟨hcr, hlf, by simp⟩
    · intro ⟨hcr, hlf, _⟩
      exact ⟨_, rfl, oneLine_iff.mpr ⟨hcr, hlf⟩⟩
  | some a =>
    have hsome : ∀ P : CString → Prop, (∀ b, some a = some b → P b) ↔ P a := by
      intro P
      exact ⟨fun h => h a rfl, fun h b hb => Option.some.inj hb ▸ h⟩
    rw [hsome]
    cases hconv : fromUtf8 a with
    | none =>
      simpa only [rfc959GenerateCommand, hconv, encoded, Option.getD] using
        argument_oneLine_iff hword
    | some utf8 =>
      simpa only [rfc959GenerateCommand, hconv, encoded, Option.getD] using
        argument_oneLine_iff hword

/-- A name with a line break sends a second command. -/
theorem name_with_line_break :
    ¬ ∀ (fromUtf8 : FromUtf8) (command : CString) (argument : Option CString),
      ∃ sent, rfc959WriteCommand (rfc959GenerateCommand fromUtf8 command argument) = .ok sent ∧
        OneLine sent := by
  intro h
  obtain ⟨sent, hsent, hline⟩ := h (fun _ => none) ⟨ascii "RETR", by decide⟩
    (some ⟨ascii "a\nDELE b", by decide⟩)
  obtain rfl : sent = ascii "RETR a\nDELE b" ++ crlf := by
    have hwrite : rfc959WriteCommand (rfc959GenerateCommand (fun _ => none)
        ⟨ascii "RETR", by decide⟩ (some ⟨ascii "a\nDELE b", by decide⟩)) =
          .ok (ascii "RETR a\nDELE b" ++ crlf) := by decide
    exact (Except.ok.inj (hsent.symm.trans hwrite))
  exact absurd (oneLine_iff.mp hline).2 (by decide)

end Gftp.FtpCommands
