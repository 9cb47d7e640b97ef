import BayTrail.Lib.Fifo
import BayTrail.Lib.Run
import Mathlib.Data.UInt

/-!
# The input FIFOs

`RawFIFO` and `UnicodeFIFO` of `TERMINAL_DEV`, with the functions of `TerminalSimpleTextIn.c` that put
characters in and take them out. A cell behind the end of a buffer cannot be read or written.

`Queued f l` says that the characters `l` stand in the FIFO, the oldest one first. The head of
`UnicodeFIFO` may stand behind the last cell between two calls.
-/

namespace BayTrail.Terminal

open Lib (Run)

variable {α : Type}

/-- `BUFFER_SIZE` -/
def bufferSize : Nat := 256

/-- `RAW_FIFO_BUFFER` and `UNICODE_FIFO_BUFFER` -/
structure Fifo (α : Type) where
  head : Nat
  tail : Nat
  buffer : Nat → α

/-- A cell of a buffer is read. -/
def cell (buffer : Nat → α) (i : Nat) : Run α := Run.ofOption (if i < bufferSize then some (buffer i) else none)

/-- A cell of a buffer is written. -/
def setCell (buffer : Nat → α) (i : Nat) (x : α) : Run (Nat → α) :=
  Run.ofOption (if i < bufferSize then some (Lib.write buffer i x) else none)

/-- An index that has reached the end of the buffer goes back by its size. -/
def wrap (i : Nat) : Nat := if bufferSize ≤ i then i - bufferSize else i

/-- `RemoveCharFromRawBuffer` -/
def removeCharFromRawBuffer (f : Fifo UInt8) : Run (Option UInt8 × Fifo UInt8) :=
  if f.head = f.tail then pure (none, f)
  else do
    let c ← cell f.buffer f.head
    pure (some c, { f with head := wrap (f.head + 1) })

/-- `AddCharToUnicodeBuffer` -/
def addCharToUnicodeBuffer (f : Fifo UInt16) (unicodeChar : UInt16) : Run (Fifo UInt16) :=
  if (f.tail + 1) % bufferSize = f.head then pure f
  else do
    let buffer ← setCell f.buffer f.tail unicodeChar
    pure { f with tail := wrap (f.tail + 1), buffer := buffer }

/-- `RemoveCharFromUnicodeBuffer`. The head stays behind the last cell until the next call. -/
def removeCharFromUnicodeBuffer (f : Fifo UInt16) : Run (Option UInt16 × Fifo UInt16) :=
  let head := wrap f.head
  if head = f.tail then pure (none, { f with head := head })
  else do
    let c ← cell f.buffer head
    pure (some c, { f with head := head + 1 })

/-- `PutBack`. The test for a full buffer does not wrap. -/
def putBack (f : Fifo UInt16) (unicodeChar : UInt16) : Run (Fifo UInt16) :=
  if f.head = f.tail + 1 then pure f
  else do
    let head := (if f.head = 0 then bufferSize else f.head) - 1
    let buffer ← setCell f.buffer head unicodeChar
    pure { f with head := head, buffer := buffer }

/-- How many characters are in the FIFO. -/
def Fifo.count (f : Fifo α) : Nat := (f.tail + bufferSize - f.head % bufferSize) % bufferSize

/-- The characters in the FIFO, the oldest one first. -/
def Fifo.contents (f : Fifo α) : List α := Lib.ring bufferSize f.buffer f.head f.count

structure Queued (f : Fifo α) (l : List α) : Prop where
  head : f.head ≤ bufferSize
  tail : f.tail = (f.head + l.length) % bufferSize
  room : l.length < bufferSize
  cells : Lib.ring bufferSize f.buffer f.head l.length = l

section

variable {f : Fifo α} {l : List α}

theorem Queued.tail_lt (h : Queued f l) : f.tail < bufferSize := by
  rw [h.tail]
  exact Nat.mod_lt _ (by decide)

theorem Queued.count (h : Queued f l) : f.count = l.length := by
  have hhead := h.head
  have htail := h.tail
  have hroom := h.room
  unfold Fifo.count
  simp only [bufferSize] at *
  omega

theorem Queued.contents (h : Queued f l) : f.contents = l := by
  unfold Fifo.contents
  rw [h.count, h.cells]

/-- Only an empty FIFO has its head at its tail. -/
theorem Queued.mod_head (h : Queued f l) : f.head % bufferSize = f.tail ↔ l = [] := by
  have htail := h.tail
  have hroom := h.room
  rw [← List.length_eq_zero_iff]
  simp only [bufferSize] at *
  omega

theorem wrap_eq {i : Nat} (h : i < 2 * bufferSize) : wrap i = i % bufferSize := by
  unfold wrap
  by_cases hwrap : bufferSize ≤ i
  · rw [if_pos hwrap, Nat.mod_eq_sub_mod hwrap, Nat.mod_eq_of_lt (by omega)]
  · rw [if_neg hwrap, Nat.mod_eq_of_lt (Nat.lt_of_not_le hwrap)]

/-- Rounds of the ring do not count. -/
theorem Queued.move {head : Nat} (h : Queued f l) (hle : head ≤ bufferSize) (hmod : head % bufferSize = f.head % bufferSize) :
    Queued { f with head := head } l where
  head := hle
  tail := by
    rw [h.tail, ← Nat.mod_add_mod f.head, ← Nat.mod_add_mod head, hmod]
  room := h.room
  cells := by
    rw [← Lib.ring_mod]
    show Lib.ring bufferSize f.buffer (head % bufferSize) l.length = l
    rw [hmod, Lib.ring_mod, h.cells]

/-- The oldest character stands at the head, the others behind it. -/
theorem Queued.uncons {c : α} (h : Queued f (c :: l)) (hlt : f.head < bufferSize) :
    f.buffer f.head = c ∧ Queued { f with head := f.head + 1 } l := by
  have hcells := h.cells
  have hroom := h.room
  rw [List.length_cons, Lib.ring_succ, Nat.mod_eq_of_lt hlt] at hcells
  obtain ⟨hc, hrest⟩ := List.cons.inj hcells
  refine ⟨hc, hlt, ?_, by rw [List.length_cons] at hroom; omega, hrest⟩
  rw [h.tail, List.length_cons]
  congr 1
  show f.head + (l.length + 1) = f.head + 1 + l.length
  omega

end

section

variable {raw : Fifo UInt8} {bytes : List UInt8} {f : Fifo UInt16} {l : List UInt16}
variable {i : Nat} {c : UInt16}

theorem returns_cell {buffer : Nat → α} (h : i < bufferSize) : (cell buffer i).Returns (buffer i) :=
  Run.returns_ofOption.mpr (if_pos h)

theorem returns_setCell {buffer : Nat → α} {x : α} (h : i < bufferSize) :
    (setCell buffer i x).Returns (Lib.write buffer i x) := Run.returns_ofOption.mpr (if_pos h)

theorem removeCharFromRawBuffer_nil (h : Queued raw []) (hlt : raw.head < bufferSize) :
    (removeCharFromRawBuffer raw).Returns (none, raw) := by
  have hempty := h.mod_head.mpr rfl
  rw [Nat.mod_eq_of_lt hlt] at hempty
  unfold removeCharFromRawBuffer
  rw [if_pos hempty]
  exact Run.returns_pure.mpr rfl

theorem removeCharFromRawBuffer_cons {b : UInt8} (h : Queued raw (b :: bytes)) (hlt : raw.head < bufferSize) :
    ∃ raw', (removeCharFromRawBuffer raw).Returns (some b, raw') ∧ Queued raw' bytes ∧ raw'.head < bufferSize := by
  obtain ⟨rfl, hrest⟩ := h.uncons hlt
  have hne : raw.head ≠ raw.tail := by
    intro he
    rw [← Nat.mod_eq_of_lt hlt, h.mod_head] at he
    cases he
  have hwrap : wrap (raw.head + 1) = (raw.head + 1) % bufferSize := wrap_eq (by simp only [bufferSize] at *; omega)
  have hwrap_lt : wrap (raw.head + 1) < bufferSize := by
    rw [hwrap]
    exact Nat.mod_lt _ (by decide)
  refine ⟨{ raw with head := wrap (raw.head + 1) }, ?_, ?_, hwrap_lt⟩
  · unfold removeCharFromRawBuffer
    rw [if_neg hne]
    exact (returns_cell hlt).bind (Run.returns_pure.mpr rfl)
  · refine hrest.move (Nat.le_of_lt hwrap_lt) ?_
    rw [hwrap, Nat.mod_mod]

/-- A character that finds room is the newest one. -/
theorem addCharToUnicodeBuffer_returns (h : Queued f l) (hroom : l.length + 1 < bufferSize) :
    ∃ f', (addCharToUnicodeBuffer f c).Returns f' ∧ Queued f' (l ++ [c]) := by
  have hhead := h.head
  have htail := h.tail
  have hne : (f.tail + 1) % bufferSize ≠ f.head := by
    simp only [bufferSize] at *
    omega
  have hwrap : wrap (f.tail + 1) = (f.tail + 1) % bufferSize := wrap_eq (by simp only [bufferSize] at *; omega)
  refine ⟨{ f with tail := wrap (f.tail + 1), buffer := Lib.write f.buffer f.tail c }, ?_, ?_⟩
  · unfold addCharToUnicodeBuffer
    rw [if_neg hne]
    exact (returns_setCell h.tail_lt).bind (Run.returns_pure.mpr rfl)
  · refine ⟨hhead, ?_, by simpa using hroom, ?_⟩
    · show wrap (f.tail + 1) = _
      rw [hwrap, htail, Nat.mod_add_mod, List.length_append, List.length_singleton, Nat.add_assoc]
    · show Lib.ring bufferSize (Lib.write f.buffer f.tail c) f.head (l ++ [c]).length = l ++ [c]
      rw [List.length_append, List.length_singleton, htail, Lib.ring_append h.room, h.cells]

theorem wrap_head (h : Queued f l) : wrap f.head < bufferSize ∧ Queued { f with head := wrap f.head } l := by
  have hhead := h.head
  have hwrap : wrap f.head = f.head % bufferSize := wrap_eq (by simp only [bufferSize] at *; omega)
  have hlt : wrap f.head < bufferSize := by
    rw [hwrap]
    exact Nat.mod_lt _ (by decide)
  exact ⟨hlt, h.move (Nat.le_of_lt hlt) (by rw [hwrap, Nat.mod_mod])⟩

theorem removeCharFromUnicodeBuffer_nil (h : Queued f []) :
    ∃ f', (removeCharFromUnicodeBuffer f).Returns (none, f') ∧ Queued f' [] := by
  obtain ⟨hlt, hmoved⟩ := wrap_head h
  refine ⟨{ f with head := wrap f.head }, ?_, hmoved⟩
  have hempty := hmoved.mod_head.mpr rfl
  unfold removeCharFromUnicodeBuffer
  rw [if_pos ((Nat.mod_eq_of_lt hlt).symm.trans hempty)]
  exact Run.returns_pure.mpr rfl

theorem removeCharFromUnicodeBuffer_cons (h : Queued f (c :: l)) :
    ∃ f', (removeCharFromUnicodeBuffer f).Returns (some c, f') ∧ Queued f' l := by
  obtain ⟨hlt, hmoved⟩ := wrap_head h
  obtain ⟨hc, hrest⟩ := hmoved.uncons hlt
  have hne : wrap f.head ≠ f.tail := by
    intro he
    have hempty := hmoved.mod_head.mp ((Nat.mod_eq_of_lt hlt).trans he)
    cases hempty
  refine ⟨{ f with head := wrap f.head + 1 }, ?_, hrest⟩
  unfold removeCharFromUnicodeBuffer
  rw [if_neg hne, ← hc]
  exact (returns_cell hlt).bind (Run.returns_pure.mpr rfl)

/-- A character that finds room is the oldest one. -/
theorem putBack_returns (h : Queued f l) (hroom : l.length + 1 < bufferSize) :
    ∃ f', (putBack f c).Returns f' ∧ Queued f' (c :: l) := by
  have hhead := h.head
  have htail := h.tail
  have hne : f.head ≠ f.tail + 1 := by
    simp only [bufferSize] at *
    omega
  obtain ⟨p, hp, hlt, hmod⟩ : ∃ p, (if f.head = 0 then bufferSize else f.head) - 1 = p ∧ p < bufferSize
      ∧ (p + 1) % bufferSize = f.head % bufferSize := by
    refine ⟨_, rfl, ?_⟩
    simp only [bufferSize] at *
    split <;> omega
  refine ⟨{ f with head := p, buffer := Lib.write f.buffer p c }, ?_, ?_⟩
  · unfold putBack
    rw [if_neg hne, hp]
    exact (returns_setCell hlt).bind (Run.returns_pure.mpr rfl)
  · refine ⟨Nat.le_of_lt hlt, ?_, by simpa using hroom, ?_⟩
    · show f.tail = (p + (l.length + 1)) % bufferSize
      rw [htail, ← Nat.mod_add_mod f.head, ← hmod, Nat.mod_add_mod, Nat.add_assoc, Nat.add_comm 1]
    · show Lib.ring bufferSize (Lib.write f.buffer p c) p (l.length + 1) = c :: l
      have hcons : Lib.ring bufferSize (Lib.write f.buffer (p % bufferSize) c) p (l.length + 1)
          = c :: Lib.ring bufferSize f.buffer (p + 1) l.length := Lib.ring_cons h.room
      rw [Nat.mod_eq_of_lt hlt] at hcons
      rw [hcons, ← Lib.ring_mod, hmod, Lib.ring_mod, h.cells]

end

end BayTrail.Terminal
