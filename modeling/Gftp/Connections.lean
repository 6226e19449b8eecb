import Gftp.LineOrigins
import Gftp.Sockets

/-!
The connections of one request, numbered as they are opened. Every byte is marked with
the number of the connection it was received on, and a log keeps what was returned with
the number of the connection that was the latest then.
-/

namespace Gftp.Connections

open ByteStrings Cells Cell LineOrigins LineSource Sockets

/-- Received on connection n, or stored by the program. -/
def OfConnection (n : ℕ) (c : Marked) : Prop := c.origin = none ∨ c.origin = some n

def markedSocket (origin : Option ℕ) (segments : List (Except Unit Bytes)) : Socket Marked :=
  ⟨segments.map (Except.map (List.map fun b => ⟨b, origin⟩)), 0, []⟩

/-- What a server sends on connection n. -/
def socket (n : ℕ) (segments : List (Except Unit Bytes)) : Socket Marked :=
  markedSocket (some n) segments

/-- The file of a cached listing. -/
def cacheFile (segments : List (Except Unit Bytes)) : Socket Marked := markedSocket none segments

theorem markedSocket_own {n : ℕ} {origin : Option ℕ} (horigin : origin = none ∨ origin = some n)
    (segments : List (Except Unit Bytes)) :
    OwnFd (OfConnection n) (some (markedSocket origin segments)) := by
  intro k hk
  obtain rfl := Option.some.inj hk
  induction segments with
  | nil => simp [markedSocket, held]
  | cons segment rest ih =>
    cases segment with
    | error e => exact ih rfl
    | ok d =>
      intro c hc
      rcases List.mem_append.mp hc with hc | hc
      · obtain ⟨b, -, rfl⟩ := List.mem_map.mp hc
        exact horigin
      · exact ih rfl c hc

theorem socket_own (n : ℕ) (segments : List (Except Unit Bytes)) :
    OwnFd (OfConnection n) (some (socket n segments)) := markedSocket_own (.inr rfl) segments

theorem cacheFile_own (n : ℕ) (segments : List (Except Unit Bytes)) :
    OwnFd (OfConnection n) (some (cacheFile segments)) := markedSocket_own (.inl rfl) segments

theorem nul_own (n : ℕ) : OfConnection n nul := .inl rfl

/-- No unread byte is left in a line buffer. -/
def Emptied (rbuf : Option (GetlineBuffer Marked)) : Prop := ∀ b, rbuf = some b → b.curBufsize = 0

theorem Emptied.holds {rbuf : Option (GetlineBuffer Marked)} {b : GetlineBuffer Marked}
    (h : Emptied rbuf) (hb : rbuf = some b) (n : ℕ) : Holds (OfConnection n) b := by
  have hzero := h b hb
  exact .inr ⟨by simp [hzero], by simp [hzero]⟩

/-- A returned cell and the connection that was the latest then. -/
abbrev Log := List (ℕ × Marked)

def FromTheirConnection (log : Log) : Prop := ∀ x ∈ log, OfConnection x.1 x.2

theorem log_append {log : Log} {n : ℕ} {cells : List Marked} (hlog : FromTheirConnection log)
    (hcells : ∀ c ∈ cells, OfConnection n c) :
    FromTheirConnection (log ++ cells.map fun c => (n, c)) := by
  intro x hx
  rcases List.mem_append.mp hx with hx | hx
  · exact hlog x hx
  · obtain ⟨c, hc, rfl⟩ := List.mem_map.mp hx
    exact hcells c hc

end Gftp.Connections
