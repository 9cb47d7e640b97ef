import BayTrail.Terminal.Fifo
import Mathlib.Tactic.IntervalCases

/-!
# UTF-8 from the serial port

`ExtractUtf8CharFromRawBuffer` and `ConvertUtf8ToUnicode`, what they do to the bytes in `RawFIFO`, and
the decoding of a whole stream that they are compared with. A character is well-formed if it has
its shortest form, of three bytes at most, and is no surrogate.
-/

namespace BayTrail.Terminal

open Lib (Run)

/-- `UTF8_CHAR` -/
structure Utf8Char where
  b0 : UInt8
  b1 : UInt8
  b2 : UInt8

/-- What `ExtractUtf8CharFromRawBuffer` returns. -/
structure Extracted where
  found : Bool
  utf8Char : Utf8Char
  numBytes : Nat
  rawFIFO : Fifo UInt8

/-- The next byte of a character. One that does not continue it has been removed all the same. -/
def removeContinuation (raw : Fifo UInt8) : Run (Option UInt8 × Fifo UInt8) := do
  let r ← removeCharFromRawBuffer raw
  match r.1 with
  | none => pure (none, r.2)
  | some char => pure (if char &&& 0xc0 = 0x80 then some char else none, r.2)

/-- A 2 byte utf8 char, its first byte stored. -/
def extractTwo (raw : Fifo UInt8) (u : Utf8Char) : Run Extracted := do
  let r ← removeContinuation raw
  match r.1 with
  | none => pure ⟨false, u, 0, r.2⟩
  | some char => pure ⟨true, { u with b0 := char }, 2, r.2⟩

/-- A 3 byte utf8 char, its first two bytes stored. -/
def extractLast (raw : Fifo UInt8) (u : Utf8Char) : Run Extracted := do
  let r ← removeContinuation raw
  match r.1 with
  | none => pure ⟨false, u, 0, r.2⟩
  | some char => pure ⟨true, { u with b0 := char }, 3, r.2⟩

/-- A 3 byte utf8 char, its first byte stored. -/
def extractThree (raw : Fifo UInt8) (u : Utf8Char) : Run Extracted := do
  let r ← removeContinuation raw
  match r.1 with
  | none => pure ⟨false, u, 0, r.2⟩
  | some char => extractLast r.2 { u with b1 := char }

/-- What the first byte of a character says how to go on. -/
def extractFrom (char : UInt8) (raw : Fifo UInt8) (u : Utf8Char) : Run Extracted :=
  if char &&& 0x80 = 0 then pure ⟨true, { u with b0 := char }, 1, raw⟩
  else if char &&& 0xe0 = 0xc0 then extractTwo raw { u with b1 := char }
  else if char &&& 0xf0 = 0xe0 then extractThree raw { u with b2 := char }
  else pure ⟨false, u, 0, raw⟩

/-- `ExtractUtf8CharFromRawBuffer` -/
def extractUtf8CharFromRawBuffer (raw : Fifo UInt8) (u : Utf8Char) : Run Extracted := do
  let r ← removeCharFromRawBuffer raw
  match r.1 with
  | none => pure ⟨false, u, 0, r.2⟩
  | some char => extractFrom char r.2 u

/-- The character of two bytes of UTF-16. -/
def unicodeOfBytes (unicodeByte0 unicodeByte1 : UInt8) : UInt16 := unicodeByte0.toUInt16 ||| (unicodeByte1.toUInt16 <<< 8)

/-- `ConvertUtf8ToUnicode` -/
def convertUtf8ToUnicode (u : Utf8Char) (numBytes : Nat) : UInt16 :=
  if numBytes = 1 then u.b0.toUInt16
  else if numBytes = 2 then unicodeOfBytes ((u.b1 <<< 6) ||| (u.b0 &&& 0x3f)) ((u.b1 >>> 2) &&& 0x07)
  else if numBytes = 3 then
    unicodeOfBytes ((u.b1 <<< 6) ||| (u.b0 &&& 0x3f)) ((u.b2 <<< 4) ||| ((u.b1 >>> 2) &&& 0x0f))
  else 0

/-! ## What they do to the bytes -/

/-- What `removeContinuation` does. -/
def continuation : List UInt8 → Option UInt8 × List UInt8
  | [] => (none, [])
  | b :: l => (if b &&& 0xc0 = 0x80 then some b else none, l)

/-- A character of three bytes, the first one of which has been taken. -/
def extractThreeFrom (a : UInt8) (l : List UInt8) : Option UInt16 × List UInt8 :=
  match (continuation l).1 with
  | none => (none, (continuation l).2)
  | some b => ((continuation (continuation l).2).1.map fun c => convertUtf8ToUnicode ⟨c, b, a⟩ 3,
      (continuation (continuation l).2).2)

/-- The character that is extracted and converted, and the bytes that are left. -/
def extract : List UInt8 → Option UInt16 × List UInt8
  | [] => (none, [])
  | a :: l =>
    if a &&& 0x80 = 0 then (some (convertUtf8ToUnicode ⟨a, 0, 0⟩ 1), l)
    else if a &&& 0xe0 = 0xc0 then
      ((continuation l).1.map fun b => convertUtf8ToUnicode ⟨b, a, 0⟩ 2, (continuation l).2)
    else if a &&& 0xf0 = 0xe0 then extractThreeFrom a l
    else (none, l)

section

variable {raw : Fifo UInt8} {bytes : List UInt8} {u : Utf8Char}

theorem removeContinuation_returns (h : Queued raw bytes) (hlt : raw.head < bufferSize) :
    ∃ raw', (removeContinuation raw).Returns ((continuation bytes).1, raw') ∧ Queued raw' (continuation bytes).2
      ∧ raw'.head < bufferSize := by
  unfold removeContinuation
  cases bytes with
  | nil => exact ⟨raw, (removeCharFromRawBuffer_nil h hlt).bind (Run.returns_pure.mpr rfl), h, hlt⟩
  | cons b l =>
    obtain ⟨raw', hremove, h', hlt'⟩ := removeCharFromRawBuffer_cons h hlt
    exact ⟨raw', hremove.bind (Run.returns_pure.mpr rfl), h', hlt'⟩

/-- A character is found if there is one, and converts to it; these bytes are left. -/
structure Extracted.Is (e : Extracted) (r : Option UInt16 × List UInt8) : Prop where
  found : e.found = r.1.isSome
  char : ∀ c ∈ r.1, convertUtf8ToUnicode e.utf8Char e.numBytes = c
  rest : Queued e.rawFIFO r.2
  head : e.rawFIFO.head < bufferSize

variable {r : Option UInt16 × List UInt8}

theorem Extracted.Is.of_none (h : Queued raw r.2) (hlt : raw.head < bufferSize)
    (hr : r.1 = none) : Extracted.Is ⟨false, u, 0, raw⟩ r where
  found := by rw [hr]; rfl
  char := by
    intro c hc
    rw [hr] at hc
    cases hc
  rest := h
  head := hlt

theorem Extracted.Is.of_some {n : Nat} (h : Queued raw r.2) (hlt : raw.head < bufferSize)
    (hr : r.1 = some (convertUtf8ToUnicode u n)) : Extracted.Is ⟨true, u, n, raw⟩ r where
  found := by rw [hr]; rfl
  char := by
    intro c hc
    rw [hr] at hc
    exact Option.some.inj hc
  rest := h
  head := hlt

theorem extractTwo_returns (h : Queued raw bytes) (hlt : raw.head < bufferSize) :
    ∃ e, (extractTwo raw u).Returns e
      ∧ e.Is ((continuation bytes).1.map fun b => convertUtf8ToUnicode ⟨b, u.b1, 0⟩ 2, (continuation bytes).2) := by
  obtain ⟨raw', hcont, h', hlt'⟩ := removeContinuation_returns h hlt
  unfold extractTwo
  cases hb : (continuation bytes).1 with
  | none =>
    rw [hb] at hcont
    exact ⟨_, hcont.bind (Run.returns_pure.mpr rfl), .of_none h' hlt' rfl⟩
  | some b =>
    rw [hb] at hcont
    exact ⟨_, hcont.bind (Run.returns_pure.mpr rfl), .of_some h' hlt' rfl⟩

theorem extractLast_returns (h : Queued raw bytes) (hlt : raw.head < bufferSize) :
    ∃ e, (extractLast raw u).Returns e
      ∧ e.Is ((continuation bytes).1.map fun c => convertUtf8ToUnicode ⟨c, u.b1, u.b2⟩ 3, (continuation bytes).2) := by
  obtain ⟨raw', hcont, h', hlt'⟩ := removeContinuation_returns h hlt
  unfold extractLast
  cases hc : (continuation bytes).1 with
  | none =>
    rw [hc] at hcont
    exact ⟨_, hcont.bind (Run.returns_pure.mpr rfl), .of_none h' hlt' rfl⟩
  | some c =>
    rw [hc] at hcont
    exact ⟨_, hcont.bind (Run.returns_pure.mpr rfl), .of_some h' hlt' rfl⟩

/-- Nothing is left to extract but the rest of the bytes once one does not continue the character. -/
theorem extractThree_returns (h : Queued raw bytes) (hlt : raw.head < bufferSize) :
    ∃ e, (extractThree raw u).Returns e ∧ e.Is (extractThreeFrom u.b2 bytes) := by
  obtain ⟨raw', hcont, h', hlt'⟩ := removeContinuation_returns h hlt
  unfold extractThree extractThreeFrom
  cases hb : (continuation bytes).1 with
  | none =>
    rw [hb] at hcont
    exact ⟨_, hcont.bind (Run.returns_pure.mpr rfl), .of_none h' hlt' rfl⟩
  | some b =>
    rw [hb] at hcont
    obtain ⟨e, hlast, he⟩ := extractLast_returns (u := { u with b1 := b }) h' hlt'
    exact ⟨e, hcont.bind hlast, he⟩

theorem extractUtf8CharFromRawBuffer_returns (u : Utf8Char) (h : Queued raw bytes) (hlt : raw.head < bufferSize) :
    ∃ e, (extractUtf8CharFromRawBuffer raw u).Returns e ∧ e.Is (extract bytes) := by
  unfold extractUtf8CharFromRawBuffer
  cases bytes with
  | nil => exact ⟨_, (removeCharFromRawBuffer_nil h hlt).bind (Run.returns_pure.mpr rfl), .of_none h hlt rfl⟩
  | cons a l =>
    obtain ⟨raw', hremove, h', hlt'⟩ := removeCharFromRawBuffer_cons h hlt
    have hfrom : ∃ e, (extractFrom a raw' u).Returns e ∧ e.Is (extract (a :: l)) := by
      rw [extract]
      unfold extractFrom
      -- the kinds of a first byte
      by_cases hone : a &&& 0x80 = 0
      · rw [if_pos hone, if_pos hone]
        exact ⟨_, Run.returns_pure.mpr rfl, .of_some h' hlt' rfl⟩
      rw [if_neg hone, if_neg hone]
      by_cases htwo : a &&& 0xe0 = 0xc0
      · rw [if_pos htwo, if_pos htwo]
        exact extractTwo_returns h' hlt'
      rw [if_neg htwo, if_neg htwo]
      by_cases hthree : a &&& 0xf0 = 0xe0
      · rw [if_pos hthree, if_pos hthree]
        exact extractThree_returns h' hlt'
      rw [if_neg hthree, if_neg hthree]
      exact ⟨_, Run.returns_pure.mpr rfl, .of_none h' hlt' rfl⟩
    obtain ⟨e, hreturns, he⟩ := hfrom
    exact ⟨e, hremove.bind hreturns, he⟩

end

end BayTrail.Terminal
