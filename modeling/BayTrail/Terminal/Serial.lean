import BayTrail.Terminal.Utf8

/-!
# From the serial port to the characters

`FillUnicodeBufferFromSerial`: bytes are read until the raw FIFO is full, and made characters until
there are none to be made. What is left of the bytes waits for the next call.
-/

namespace BayTrail.Terminal

open Lib (Run Next)

/-- `TERMINAL_TYPE` -/
inductive TerminalType where
  | vt100
  | vt100Plus
  | vtUtf8
  | ansi
  deriving DecidableEq

/-- What input uses of `TERMINAL_DEV`, with the bytes that wait in its serial port. -/
structure TerminalDev where
  terminalType : TerminalType
  serialIo : List UInt8
  rawFIFO : Fifo UInt8
  unicodeFIFO : Fifo UInt16

/-- `ReadSerialPort`: the number of bytes that have been read, what is left in the port, the buffer. -/
def readSerialPort : Nat → List UInt8 → (Nat → UInt8) → Nat → Run (Nat × List UInt8 × (Nat → UInt8))
  | 0, serialIo, buffer, _ => pure (0, serialIo, buffer)
  | _ + 1, [], buffer, _ => pure (0, [], buffer)
  | readSize + 1, b :: serialIo, buffer, start => do
    let buffer ← setCell buffer start b
    let r ← readSerialPort readSize serialIo buffer (start + 1)
    pure (r.1 + 1, r.2)

/-- The second read of `FillRawBuffer`, at the beginning of the buffer. -/
def fillWrapped (fillSize1 fillSize2 : Nat) (r : Nat × List UInt8 × (Nat → UInt8)) :
    Run (Nat × List UInt8 × (Nat → UInt8)) :=
  if r.1 < fillSize1 ∨ fillSize2 = 0 then pure r
  else do
    let r' ← readSerialPort fillSize2 r.2.1 r.2.2 0
    pure (fillSize1 + r'.1, r'.2)

/-- `FillRawBuffer` -/
def fillRawBuffer (serialIo : List UInt8) (buffer : Nat → UInt8) (start size : Nat) :
    Run (Nat × List UInt8 × (Nat → UInt8)) := do
  let fillSize1 := if bufferSize < start + size then bufferSize - start else size
  let fillSize2 := if bufferSize < start + size then size - fillSize1 else 0
  let r ← readSerialPort fillSize1 serialIo buffer start
  fillWrapped fillSize1 fillSize2 r

/-- A round of the loop for all types but VT-UTF8. -/
def transferChar (s : Fifo UInt8 × Fifo UInt16) : Run (Next (Fifo UInt8 × Fifo UInt16) (Fifo UInt8 × Fifo UInt16)) := do
  let r ← removeCharFromRawBuffer s.1
  match r.1 with
  | none => pure (.done (r.2, s.2))
  | some char => do
    let unicode ← addCharToUnicodeBuffer s.2 char.toUInt16
    pure (.again (r.2, unicode))

/-- A round of the loop for VT-UTF8. -/
def transferUtf8 (s : Utf8Char × Fifo UInt8 × Fifo UInt16) :
    Run (Next (Utf8Char × Fifo UInt8 × Fifo UInt16) (Fifo UInt8 × Fifo UInt16)) := do
  let e ← extractUtf8CharFromRawBuffer s.2.1 s.1
  if e.found then do
    let unicode ← addCharToUnicodeBuffer s.2.2 (convertUtf8ToUnicode e.utf8Char e.numBytes)
    pure (.again (e.utf8Char, e.rawFIFO, unicode))
  else pure (.done (e.rawFIFO, s.2.2))

/-- The loops of `FillUnicodeBufferFromSerial`. -/
def transfer (terminalType : TerminalType) (raw : Fifo UInt8) (unicode : Fifo UInt16) : Run (Fifo UInt8 × Fifo UInt16) :=
  if terminalType = .vtUtf8 then Run.loop transferUtf8 (⟨0, 0, 0⟩, raw, unicode)
  else Run.loop transferChar (raw, unicode)

/-- `FillUnicodeBufferFromSerial` -/
def fillUnicodeBufferFromSerial (dev : TerminalDev) : Run TerminalDev := do
  let raw := dev.rawFIFO
  let adjTail := if raw.tail < raw.head then raw.tail + bufferSize else raw.tail
  -- one byte is never used: a full buffer would look like an empty one
  let freeBuffer := bufferSize - (adjTail - raw.head) - 1
  if freeBuffer = 0 then pure dev
  else do
    let r ← fillRawBuffer dev.serialIo raw.buffer raw.tail freeBuffer
    let raw := { raw with tail := wrap (raw.tail + r.1), buffer := r.2.2 }
    let q ← transfer dev.terminalType raw dev.unicodeFIFO
    pure { dev with serialIo := r.2.1, rawFIFO := q.1, unicodeFIFO := q.2 }

/-! ## The bytes -/

theorem readSerialPort_returns (head : Nat) : ∀ (readSize : Nat) (serialIo : List UInt8) (buffer : Nat → UInt8) (start k : Nat),
    (readSize = 0 ∨ start = (head + k) % bufferSize) → start + readSize ≤ bufferSize → k + readSize < bufferSize →
    ∃ buffer', (readSerialPort readSize serialIo buffer start).Returns
        ((serialIo.take readSize).length, serialIo.drop readSize, buffer')
      ∧ Lib.ring bufferSize buffer' head (k + (serialIo.take readSize).length)
        = Lib.ring bufferSize buffer head k ++ serialIo.take readSize
  | 0, serialIo, buffer, start, k, _, _, _ => ⟨buffer, Run.returns_pure.mpr rfl, by simp⟩
  | readSize + 1, [], buffer, start, k, _, _, _ => ⟨buffer, Run.returns_pure.mpr (by simp), by simp⟩
  | readSize + 1, b :: serialIo, buffer, start, k, hstart, hend, hroom => by
    have hstart : start = (head + k) % bufferSize := hstart.resolve_left (by omega)
    have hnext : readSize = 0 ∨ start + 1 = (head + (k + 1)) % bufferSize := by
      simp only [bufferSize] at *
      omega
    obtain ⟨buffer', hread, hring⟩ := readSerialPort_returns head readSize serialIo (Lib.write buffer start b) (start + 1) (k + 1)
      hnext (by omega) (by omega)
    refine ⟨buffer', ?_, ?_⟩
    · exact (returns_setCell (by omega)).bind (hread.bind (Run.returns_pure.mpr (by simp)))
    · rw [List.take_succ_cons, List.length_cons, Nat.add_comm _ 1, ← Nat.add_assoc, hring, hstart,
        Lib.ring_append (by omega), List.append_assoc]
      rfl

/-- The free part of the buffer is filled, over its end if need be. -/
theorem fillRawBuffer_returns {raw : Fifo UInt8} {bytes : List UInt8} (serialIo : List UInt8) (size : Nat) (h : Queued raw bytes)
    (hsize : bytes.length + size < bufferSize) :
    ∃ buffer, (fillRawBuffer serialIo raw.buffer raw.tail size).Returns
        ((serialIo.take size).length, serialIo.drop size, buffer)
      ∧ Lib.ring bufferSize buffer raw.head (bytes.length + (serialIo.take size).length) = bytes ++ serialIo.take size := by
  have htail := h.tail
  have htail_lt := h.tail_lt
  have hwhole : ∀ n, raw.tail + n ≤ bufferSize → bytes.length + n < bufferSize → ∃ buffer,
      (readSerialPort n serialIo raw.buffer raw.tail).Returns ((serialIo.take n).length, serialIo.drop n, buffer)
        ∧ Lib.ring bufferSize buffer raw.head (bytes.length + (serialIo.take n).length) = bytes ++ serialIo.take n := by
    intro n hend hroom
    obtain ⟨buffer, hread, hring⟩ := readSerialPort_returns raw.head n serialIo raw.buffer raw.tail bytes.length (Or.inr htail) hend hroom
    exact ⟨buffer, hread, hring.trans (congrArg (· ++ _) h.cells)⟩
  unfold fillRawBuffer
  by_cases hover : bufferSize < raw.tail + size
  · simp only [if_pos hover]
    obtain ⟨buffer, hread, hring⟩ := hwhole (bufferSize - raw.tail) (by omega) (by omega)
    simp only [Run.returns_bind, fillWrapped]
    by_cases hshort : serialIo.length < bufferSize - raw.tail
    · -- the port is empty before the end of the buffer
      have htake : serialIo.take size = serialIo.take (bufferSize - raw.tail) := by
        rw [List.take_of_length_le (by omega), List.take_of_length_le (by omega)]
      have hdrop : serialIo.drop size = serialIo.drop (bufferSize - raw.tail) := by
        rw [List.drop_of_length_le (by omega), List.drop_of_length_le (by omega)]
      refine ⟨buffer, ⟨_, hread, ?_⟩, by rw [htake]; exact hring⟩
      rw [if_pos (Or.inl (by rw [List.length_take]; omega)), htake, hdrop]
      exact Run.returns_pure.mpr rfl
    · have hlen : (serialIo.take (bufferSize - raw.tail)).length = bufferSize - raw.tail := by
        rw [List.length_take]
        omega
      obtain ⟨buffer', hread', hring'⟩ := readSerialPort_returns raw.head (size - (bufferSize - raw.tail))
        (serialIo.drop (bufferSize - raw.tail)) buffer 0 (bytes.length + (bufferSize - raw.tail)) (by simp only [bufferSize] at *; omega) (by omega) (by omega)
      have hjoin : serialIo.take (bufferSize - raw.tail) ++ (serialIo.drop (bufferSize - raw.tail)).take (size - (bufferSize - raw.tail))
          = serialIo.take size := by
        rw [← List.take_add]
        congr 1
        omega
      have hdrop : (serialIo.drop (bufferSize - raw.tail)).drop (size - (bufferSize - raw.tail)) = serialIo.drop size := by
        rw [List.drop_drop]
        congr 1
        omega
      have hjoin_len := congrArg List.length hjoin
      rw [List.length_append, hlen] at hjoin_len
      rw [hlen] at hring
      refine ⟨buffer', ⟨_, hread, ?_⟩, ?_⟩
      · rw [if_neg (by omega)]
        refine hread'.bind (Run.returns_pure.mpr ?_)
        rw [hdrop, ← hjoin_len]
      · rw [← hjoin_len, ← Nat.add_assoc, hring', hring, List.append_assoc, hjoin]
  · simp only [if_neg hover]
    obtain ⟨buffer, hread, hring⟩ := hwhole size (by omega) hsize
    refine ⟨buffer, hread.bind ?_, hring⟩
    rw [fillWrapped, if_pos (Or.inr rfl)]
    exact Run.returns_pure.mpr rfl

/-! ## The characters -/

theorem continuation_le (l : List UInt8) : (continuation l).2.length ≤ l.length := by
  cases l <;> simp [continuation]

variable {l : List UInt8}

/-- Each call takes a byte at least, if there is one. -/
theorem extract_lt (h : l ≠ []) : (extract l).2.length < l.length := by
  obtain ⟨a, l, rfl⟩ := List.exists_cons_of_ne_nil h
  have h₁ := continuation_le l
  have h₂ := continuation_le (continuation l).2
  have hthree : (extractThreeFrom a l).2.length ≤ l.length := by
    unfold extractThreeFrom
    split
    · exact h₁
    · exact h₂.trans h₁
  rw [extract, List.length_cons]
  split_ifs
  · exact Nat.lt_succ_self _
  · exact Nat.lt_succ_of_le h₁
  · exact Nat.lt_succ_of_le hthree
  · exact Nat.lt_succ_self _

/-- The characters that so many calls of `ExtractUtf8CharFromRawBuffer` make at most, up to the first one that
makes none, and the bytes that are left. -/
def drainUpTo : Nat → List UInt8 → List UInt16 × List UInt8
  | 0, l => ([], l)
  | n + 1, l =>
    match (extract l).1 with
    | none => ([], (extract l).2)
    | some c => (c :: (drainUpTo n (extract l).2).1, (drainUpTo n (extract l).2).2)

theorem drainUpTo_enough : ∀ {n m : Nat} {l : List UInt8}, l.length < n → l.length < m → drainUpTo n l = drainUpTo m l
  | 0, _, _, h, _ => by omega
  | _ + 1, 0, _, _, h => by omega
  | n + 1, m + 1, l, hn, hm => by
    unfold drainUpTo
    cases hc : (extract l).1 with
    | none => rfl
    | some c =>
      have hne : l ≠ [] := by
        rintro rfl
        cases hc
      have hlt := extract_lt hne
      rw [drainUpTo_enough (n := n) (m := m) (by omega) (by omega)]

def drain (l : List UInt8) : List UInt16 × List UInt8 := drainUpTo (l.length + 1) l

theorem drain_none (h : (extract l).1 = none) : drain l = ([], (extract l).2) := by
  unfold drain drainUpTo
  rw [h]

theorem drain_some {c : UInt16} (h : (extract l).1 = some c) :
    drain l = (c :: (drain (extract l).2).1, (drain (extract l).2).2) := by
  have hne : l ≠ [] := by
    rintro rfl
    cases h
  have hlt := extract_lt hne
  rw [drain, drainUpTo, h, drain, drainUpTo_enough (m := (extract l).2.length + 1) (by omega) (by omega)]

theorem drain_lt (h : l ≠ []) : (drain l).2.length < l.length := by
  induction hn : l.length using Nat.strong_induction_on generalizing l with
  | _ n ih =>
    subst hn
    have hlt := extract_lt h
    cases hc : (extract l).1 with
    | none => rwa [drain_none hc]
    | some c =>
      rw [drain_some hc]
      by_cases hrest : (extract l).2 = []
      · rw [hrest]
        exact List.length_pos_iff.mpr h
      · exact (ih _ hlt hrest rfl).trans hlt

/-- What a call of `FillUnicodeBufferFromSerial` makes of the bytes in the raw FIFO. -/
def transferred (terminalType : TerminalType) (bytes : List UInt8) : List UInt16 × List UInt8 :=
  if terminalType = .vtUtf8 then drain bytes else (bytes.map UInt8.toUInt16, [])

section

variable {raw : Fifo UInt8} {bytes : List UInt8} {unicode : Fifo UInt16} {pending : List UInt16}

theorem transferChar_returns (hraw : Queued raw bytes) (hlt : raw.head < bufferSize) (hunicode : Queued unicode pending)
    (hroom : pending.length + bytes.length < bufferSize) :
    ∃ q, (Run.loop transferChar (raw, unicode)).Returns q ∧ Queued q.1 [] ∧ q.1.head < bufferSize
      ∧ Queued q.2 (pending ++ bytes.map UInt8.toUInt16) := by
  induction bytes generalizing raw unicode pending with
  | nil =>
    refine ⟨(raw, unicode), Run.loop_done ?_, hraw, hlt, by simpa using hunicode⟩
    exact (removeCharFromRawBuffer_nil hraw hlt).bind (Run.returns_pure.mpr rfl)
  | cons b bytes ih =>
    rw [List.length_cons] at hroom
    obtain ⟨raw', hremove, hraw', hlt'⟩ := removeCharFromRawBuffer_cons hraw hlt
    obtain ⟨unicode', hadd, hunicode'⟩ := addCharToUnicodeBuffer_returns (c := b.toUInt16) hunicode (by omega)
    obtain ⟨q, hloop, hq⟩ := ih hraw' hlt' hunicode' (by rw [List.length_append, List.length_singleton]; omega)
    refine ⟨q, Run.loop_again (hremove.bind (hadd.bind (Run.returns_pure.mpr rfl))) hloop, ?_⟩
    rwa [List.map_cons, ← List.singleton_append, ← List.append_assoc]

theorem transferUtf8_returns (u : Utf8Char) (hraw : Queued raw bytes) (hlt : raw.head < bufferSize)
    (hunicode : Queued unicode pending) (hroom : pending.length + (drain bytes).1.length < bufferSize) :
    ∃ q, (Run.loop transferUtf8 (u, raw, unicode)).Returns q ∧ Queued q.1 (drain bytes).2 ∧ q.1.head < bufferSize
      ∧ Queued q.2 (pending ++ (drain bytes).1) := by
  induction hn : bytes.length using Nat.strong_induction_on generalizing u raw unicode pending bytes with
  | _ n ih =>
    subst hn
    obtain ⟨e, hextract, he⟩ := extractUtf8CharFromRawBuffer_returns u hraw hlt
    have hfound := he.found
    cases hc : (extract bytes).1 with
    | none =>
      rw [hc] at hfound
      rw [drain_none hc] at hroom ⊢
      refine ⟨(e.rawFIFO, unicode), Run.loop_done (hextract.bind ?_), he.rest, he.head, by simpa using hunicode⟩
      rw [hfound, if_neg (by simp)]
      exact Run.returns_pure.mpr rfl
    | some c =>
      rw [hc] at hfound
      have hchar := he.char c hc
      have hne : bytes ≠ [] := by
        rintro rfl
        cases hc
      rw [drain_some hc] at hroom ⊢
      rw [List.length_cons] at hroom
      obtain ⟨unicode', hadd, hunicode'⟩ := addCharToUnicodeBuffer_returns (c := c) hunicode (by omega)
      obtain ⟨q, hloop, hq⟩ := ih _ (extract_lt hne) e.utf8Char he.rest he.head hunicode'
        (by rw [List.length_append, List.length_singleton]; omega) rfl
      refine ⟨q, Run.loop_again (hextract.bind ?_) hloop, ?_⟩
      · rw [hfound, Option.isSome_some, if_pos rfl, hchar]
        exact hadd.bind (Run.returns_pure.mpr rfl)
      · rwa [← List.singleton_append, ← List.append_assoc]

/-- What stands in the FIFOs of a device between two calls. -/
structure Holds (dev : TerminalDev) (bytes : List UInt8) (pending : List UInt16) : Prop where
  raw : Queued dev.rawFIFO bytes
  head : dev.rawFIFO.head < bufferSize
  room : bytes.length + 1 < bufferSize
  unicode : Queued dev.unicodeFIFO pending

/-- The bytes in the raw FIFO once a call has read the port. -/
def filled (dev : TerminalDev) (bytes : List UInt8) : List UInt8 := bytes ++ dev.serialIo.take (bufferSize - 1 - bytes.length)

theorem fillUnicodeBufferFromSerial_returns {dev : TerminalDev} (h : Holds dev bytes pending)
    (hroom : pending.length + (transferred dev.terminalType (filled dev bytes)).1.length < bufferSize) :
    ∃ dev', (fillUnicodeBufferFromSerial dev).Returns dev' ∧ dev'.terminalType = dev.terminalType
      ∧ dev'.serialIo = dev.serialIo.drop (bufferSize - 1 - bytes.length)
      ∧ Holds dev' (transferred dev.terminalType (filled dev bytes)).2
        (pending ++ (transferred dev.terminalType (filled dev bytes)).1) := by
  have hraw := h.raw
  have hhead := h.head
  have hlen := h.room
  have htail := hraw.tail
  have htail_lt := hraw.tail_lt
  have hadj : bufferSize - ((if dev.rawFIFO.tail < dev.rawFIFO.head then dev.rawFIFO.tail + bufferSize else dev.rawFIFO.tail)
      - dev.rawFIFO.head) - 1 = bufferSize - 1 - bytes.length := by
    simp only [bufferSize] at *
    split <;> omega
  obtain ⟨buffer, hfill, hring⟩ := fillRawBuffer_returns dev.serialIo (bufferSize - 1 - bytes.length) hraw (by omega)
  have hcount : (filled dev bytes).length = bytes.length + (dev.serialIo.take (bufferSize - 1 - bytes.length)).length :=
    List.length_append
  have htake : (dev.serialIo.take (bufferSize - 1 - bytes.length)).length ≤ bufferSize - 1 - bytes.length :=
    List.length_take_le _ _
  have hwrap : wrap (dev.rawFIFO.tail + (dev.serialIo.take (bufferSize - 1 - bytes.length)).length)
      = (dev.rawFIFO.tail + (dev.serialIo.take (bufferSize - 1 - bytes.length)).length) % bufferSize := wrap_eq (by omega)
  have hraw' : Queued { dev.rawFIFO with
      tail := wrap (dev.rawFIFO.tail + (dev.serialIo.take (bufferSize - 1 - bytes.length)).length), buffer := buffer }
      (filled dev bytes) := by
    refine ⟨hraw.head, ?_, by omega, ?_⟩
    · show wrap _ = (dev.rawFIFO.head + (filled dev bytes).length) % bufferSize
      rw [hwrap, htail, Nat.mod_add_mod, hcount, Nat.add_assoc]
    · rw [hcount]
      exact hring
  -- the two kinds of terminal
  obtain ⟨q, htransfer, hq, hq_lt, hq_room, hpending⟩ : ∃ q,
      (transfer dev.terminalType { dev.rawFIFO with
        tail := wrap (dev.rawFIFO.tail + (dev.serialIo.take (bufferSize - 1 - bytes.length)).length), buffer := buffer }
        dev.unicodeFIFO).Returns q
      ∧ Queued q.1 (transferred dev.terminalType (filled dev bytes)).2 ∧ q.1.head < bufferSize
      ∧ (transferred dev.terminalType (filled dev bytes)).2.length + 1 < bufferSize
      ∧ Queued q.2 (pending ++ (transferred dev.terminalType (filled dev bytes)).1) := by
    unfold transfer
    unfold transferred at hroom ⊢
    by_cases htype : dev.terminalType = .vtUtf8
    · rw [if_pos htype] at hroom
      rw [if_pos htype, if_pos htype]
      obtain ⟨q, hloop, hq, hq_lt, hpending⟩ := transferUtf8_returns ⟨0, 0, 0⟩ hraw' hhead h.unicode hroom
      refine ⟨q, hloop, hq, hq_lt, ?_, hpending⟩
      by_cases hnil : filled dev bytes = []
      · rw [hnil]
        decide
      · have hlt := drain_lt hnil
        omega
    · rw [if_neg htype] at hroom
      rw [if_neg htype, if_neg htype]
      obtain ⟨q, hloop, hq, hq_lt, hpending⟩ := transferChar_returns hraw' hhead h.unicode (by simpa using hroom)
      exact ⟨q, hloop, hq, hq_lt, show 0 + 1 < bufferSize by decide, hpending⟩
  refine ⟨{ dev with serialIo := dev.serialIo.drop (bufferSize - 1 - bytes.length), rawFIFO := q.1, unicodeFIFO := q.2 },
    ?_, rfl, rfl, hq, hq_lt, hq_room, hpending⟩
  unfold fillUnicodeBufferFromSerial
  simp only [hadj]
  rw [if_neg (by omega)]
  exact hfill.bind (htransfer.bind (Run.returns_pure.mpr rfl))

end

end BayTrail.Terminal
