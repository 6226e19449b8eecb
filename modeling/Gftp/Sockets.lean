import Gftp.Cells
import Gftp.Protocol

/-!
Connected descriptors and gftp_fd_read, over cells. A socket remembers how much it has
delivered and what it was asked for; nothing in a program depends on that.
-/

namespace Gftp.Sockets

open ByteStrings Cells Protocol

variable {κ : Type}

/-- A connected descriptor: what it will deliver, how much it has delivered, and how
much it had delivered at each read asked of it, the last first. A failed read is a
timeout or an error of read. -/
structure Socket (κ : Type) where
  stream : CellStream Unit κ
  received : ℕ
  asked : List ℕ
  deriving DecidableEq

/-- gftp_fd_read. A failure disconnects. -/
def gftpFdRead (size : ℕ) : Option (Socket κ) → Except GftpError (List κ) × Option (Socket κ)
  | none => (.error .fatal, none)
  | some k =>
      match readCells size k.stream with
      | (.error (), _) => (.error .retryable, none)
      | (.ok d, stream) => (.ok d, some ⟨stream, k.received + d.length, k.received :: k.asked⟩)

theorem gftpFdRead_cases (size : ℕ) (fd : Option (Socket κ)) :
    (∃ e fd', gftpFdRead size fd = (.error e, fd')) ∨
      ∃ k d stream, fd = some k ∧
        gftpFdRead size fd
          = (.ok d, some ⟨stream, k.received + d.length, k.received :: k.asked⟩) := by
  cases fd with
  | none => exact .inl ⟨.fatal, none, rfl⟩
  | some k =>
    cases hread : readCells size k.stream with
    | mk result stream =>
      cases result with
      | error e => exact .inl ⟨.retryable, none, by simp [gftpFdRead, hread]⟩
      | ok d => exact .inr ⟨k, d, stream, rfl, by simp [gftpFdRead, hread]⟩

/-- Everything a descriptor will deliver is own. -/
def OwnFd (own : κ → Prop) (fd : Option (Socket κ)) : Prop :=
  ∀ k, fd = some k → ∀ c ∈ held k.stream, own c

theorem gftpFdRead_own {own : κ → Prop} {size : ℕ} {fd fd' : Option (Socket κ)}
    {out : Except GftpError (List κ)} (hfd : OwnFd own fd)
    (h : gftpFdRead size fd = (out, fd')) :
    OwnFd own fd' ∧ ∀ d, out = .ok d → ∀ c ∈ d, own c := by
  cases fd with
  | none =>
    simp only [gftpFdRead, Prod.mk.injEq] at h
    obtain ⟨rfl, rfl⟩ := h
    exact ⟨by simp [OwnFd], by simp⟩
  | some k =>
    simp only [gftpFdRead] at h
    split at h
    · simp only [Prod.mk.injEq] at h
      obtain ⟨rfl, rfl⟩ := h
      exact ⟨by simp [OwnFd], by simp⟩
    · rename_i d stream hread
      simp only [Prod.mk.injEq] at h
      obtain ⟨rfl, rfl⟩ := h
      have hheld := readCells_held hread
      have hown := hfd k rfl
      rw [hheld] at hown
      refine ⟨?_, ?_⟩
      · intro k' hk' c hc
        obtain rfl := Option.some.inj hk'
        exact hown c (List.mem_append_right _ hc)
      · intro d' hd' c hc
        obtain rfl := Except.ok.inj hd'
        exact hown c (List.mem_append_left _ hc)

end Gftp.Sockets
