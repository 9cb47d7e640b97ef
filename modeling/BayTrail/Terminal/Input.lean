import BayTrail.Terminal.Decode

/-!
# Input does not depend on how bytes arrive

A session with a terminal: bytes of one stream arrive in the port, the port is polled, characters are
taken from the Unicode FIFO and put back. In every state the characters that have been taken, those in the
FIFO and those to be decoded yet are together the characters of the stream.

VT-UTF8 has this only if each poll finds whole characters: `ExtractUtf8CharFromRawBuffer` removes the
bytes of a character before it knows that the others have arrived.
-/

namespace BayTrail.Terminal

open Lib (Run)

structure Session where
  dev : TerminalDev
  /-- The bytes of the stream that have not arrived. -/
  later : List UInt8
  taken : List UInt16

inductive Op where
  | arrive (n : Nat)
  | poll
  | take
  | putBack

/-- The last character that was taken is put back. -/
def putBackLast (s : Session) : Option UInt16 → Run Session
  | none => pure s
  | some c => do
    let f ← putBack s.dev.unicodeFIFO c
    pure { s with dev := { s.dev with unicodeFIFO := f }, taken := s.taken.dropLast }

def step (s : Session) : Op → Run Session
  | .arrive n => pure { s with
      dev := { s.dev with serialIo := s.dev.serialIo ++ s.later.take n }, later := s.later.drop n }
  | .poll => do
    let dev ← fillUnicodeBufferFromSerial s.dev
    pure { s with dev := dev }
  | .take => do
    let r ← removeCharFromUnicodeBuffer s.dev.unicodeFIFO
    pure { s with dev := { s.dev with unicodeFIFO := r.2 }, taken := s.taken ++ r.1.toList }
  | .putBack => putBackLast s s.taken.getLast?

/-- Both FIFOs are empty. -/
def start (terminalType : TerminalType) (stream : List UInt8) : Session where
  dev := ⟨terminalType, [], ⟨0, 0, fun _ => 0⟩, ⟨0, 0, fun _ => 0⟩⟩
  later := stream
  taken := []

/-- This holds of each operation of a run and the state it is done in. -/
def Throughout (P : Session → Op → Prop) : Session → List Op → Prop
  | _, [] => True
  | s, op :: ops => P s op ∧ ∀ s', (step s op).Returns s' → Throughout P s' ops

/-- At most `BUFFER_SIZE - 1` characters are pending behind the operation. -/
def Fits (s : Session) : Op → Prop
  | .poll => s.dev.unicodeFIFO.contents.length
      + (transferred s.dev.terminalType (filled s.dev s.dev.rawFIFO.contents)).1.length ≤ bufferSize - 1
  | .putBack => s.dev.unicodeFIFO.contents.length + 1 ≤ bufferSize - 1
  | _ => True

/-- The characters of a stream. -/
def characters (terminalType : TerminalType) (stream : List UInt8) : List UInt16 :=
  if terminalType = .vtUtf8 then decode stream else stream.map UInt8.toUInt16

/-- No character has been lost, repeated or moved. -/
def Law (stream : List UInt8) (s : Session) : Prop :=
  s.taken ++ s.dev.unicodeFIFO.contents
      ++ characters s.dev.terminalType (s.dev.rawFIFO.contents ++ s.dev.serialIo ++ s.later)
    = characters s.dev.terminalType stream

/-- Each operation goes through, with no access behind the end of a buffer, and the law holds in every state. -/
def Delivers (stream : List UInt8) : Session → List Op → Prop
  | s, [] => Law stream s
  | s, op :: ops => Law stream s ∧ ∃ s', (step s op).Returns s' ∧ Delivers stream s' ops

/-- A poll of a VT-UTF8 terminal finds whole characters. -/
def Intact (s : Session) : Op → Prop
  | .poll => s.dev.terminalType = .vtUtf8 →
      Whole (s.dev.serialIo.drop (bufferSize - 1 - s.dev.rawFIFO.contents.length) ++ s.later)
        (filled s.dev s.dev.rawFIFO.contents)
  | _ => True

section

variable {s : Session} {bytes stream : List UInt8} {pending : List UInt16}

theorem queued_empty {α : Type} (buffer : Nat → α) : Queued ⟨0, 0, buffer⟩ [] :=
  ⟨Nat.zero_le _, rfl, show 0 < bufferSize by decide, rfl⟩

theorem holds_start (terminalType : TerminalType) (stream : List UInt8) : Holds (start terminalType stream).dev [] [] where
  raw := queued_empty _
  head := show 0 < bufferSize by decide
  room := show 0 + 1 < bufferSize by decide
  unicode := queued_empty _

/-- What the bytes in the raw FIFO become, and what is decoded later, are the characters of both. -/
theorem transferred_law {terminalType : TerminalType} {l later : List UInt8} (h : terminalType = .vtUtf8 → Whole later l) :
    (transferred terminalType l).1 ++ characters terminalType ((transferred terminalType l).2 ++ later)
      = characters terminalType (l ++ later) := by
  unfold transferred characters
  by_cases htype : terminalType = .vtUtf8
  · simp only [if_pos htype]
    exact (h htype).decode_eq.symm
  · simp only [if_neg htype, List.nil_append, List.map_append]

/-- One operation keeps the law. -/
theorem step_law (op : Op) (h : Holds s.dev bytes pending) (hfits : Fits s op) (hintact : Intact s op) (hlaw : Law stream s) :
    ∃ s', (step s op).Returns s' ∧ s'.dev.terminalType = s.dev.terminalType ∧ Law stream s'
      ∧ ∃ bytes' pending', Holds s'.dev bytes' pending' := by
  have hbytes := h.raw.contents
  have hpending := h.unicode.contents
  unfold Law at hlaw
  rw [hbytes, hpending] at hlaw
  cases op with
  | arrive n =>
    refine ⟨_, Run.returns_pure.mpr rfl, rfl, ?_, bytes, pending, h.raw, h.head, h.room, h.unicode⟩
    unfold Law
    rw [← hlaw, hbytes, hpending]
    simp only [List.append_assoc, List.take_append_drop]
  | poll =>
    simp only [Fits, Intact, hbytes, hpending] at hfits hintact
    have hroom : pending.length + (transferred s.dev.terminalType (filled s.dev bytes)).1.length < bufferSize :=
      Nat.lt_of_le_sub_one (by decide) hfits
    obtain ⟨dev', hfill, htype, hserial, h'⟩ := fillUnicodeBufferFromSerial_returns h hroom
    refine ⟨{ s with dev := dev' }, hfill.bind (Run.returns_pure.mpr rfl), htype, ?_, _, _, h'⟩
    have htransferred := transferred_law hintact
    have hstream : filled s.dev bytes ++ (s.dev.serialIo.drop (bufferSize - 1 - bytes.length) ++ s.later)
        = bytes ++ s.dev.serialIo ++ s.later := by
      rw [filled, ← List.append_assoc, List.append_assoc bytes, List.take_append_drop]
    unfold Law
    rw [h'.raw.contents, h'.unicode.contents, htype, hserial, ← hlaw, ← hstream, ← htransferred]
    simp only [List.append_assoc]
  | take =>
    cases pending with
    | nil =>
      obtain ⟨f, hremove, hf⟩ := removeCharFromUnicodeBuffer_nil h.unicode
      refine ⟨_, hremove.bind (Run.returns_pure.mpr rfl), rfl, ?_, bytes, [], h.raw, h.head, h.room, hf⟩
      unfold Law
      simp only [hbytes, hf.contents]
      rw [← hlaw]
      simp
    | cons c pending =>
      obtain ⟨f, hremove, hf⟩ := removeCharFromUnicodeBuffer_cons h.unicode
      refine ⟨_, hremove.bind (Run.returns_pure.mpr rfl), rfl, ?_, bytes, pending, h.raw, h.head, h.room, hf⟩
      unfold Law
      simp only [hbytes, hf.contents]
      rw [← hlaw]
      simp
  | putBack =>
    simp only [Fits, hpending] at hfits
    cases hlast : s.taken.getLast? with
    | none =>
      refine ⟨s, ?_, rfl, by unfold Law; rw [hbytes, hpending]; exact hlaw, bytes, pending, h⟩
      show (putBackLast s s.taken.getLast?).Returns s
      rw [hlast]
      exact Run.returns_pure.mpr rfl
    | some c =>
      obtain ⟨taken, htaken⟩ := List.getLast?_eq_some_iff.mp hlast
      obtain ⟨f, hput, hf⟩ := putBack_returns (c := c) h.unicode (Nat.lt_of_le_sub_one (by decide) hfits)
      refine ⟨{ s with dev := { s.dev with unicodeFIFO := f }, taken := s.taken.dropLast }, ?_, rfl, ?_,
        bytes, c :: pending, h.raw, h.head, h.room, hf⟩
      · show (putBackLast s s.taken.getLast?).Returns _
        rw [hlast]
        exact hput.bind (Run.returns_pure.mpr rfl)
      · unfold Law
        simp only [hbytes, hf.contents]
        rw [← hlaw, htaken]
        simp

theorem delivers_of_law {ops : List Op} (h : Holds s.dev bytes pending) (hlaw : Law stream s) (hfits : Throughout Fits s ops)
    (hintact : s.dev.terminalType = .vtUtf8 → Throughout Intact s ops) : Delivers stream s ops := by
  induction ops generalizing s bytes pending with
  | nil => exact hlaw
  | cons op ops ih =>
    have hop : Intact s op := by
      by_cases htype : s.dev.terminalType = .vtUtf8
      · exact (hintact htype).1
      · cases op with
        | poll => exact fun he => absurd he htype
        | arrive | take | putBack => trivial
    obtain ⟨s', hstep, htype, hlaw', bytes', pending', h'⟩ := step_law op h hfits.1 hop hlaw
    refine ⟨hlaw, s', hstep, ih h' hlaw' (hfits.2 s' hstep) fun he => ?_⟩
    exact (hintact (htype ▸ he)).2 s' hstep

end

/-- With whole characters at each poll the characters are those of the stream, in its order, however its bytes
arrive. All other terminal types have no condition. -/
theorem input_delivers (terminalType : TerminalType) (stream : List UInt8) (ops : List Op)
    (hfits : Throughout Fits (start terminalType stream) ops)
    (hintact : terminalType = .vtUtf8 → Throughout Intact (start terminalType stream) ops) :
    Delivers stream (start terminalType stream) ops := by
  refine delivers_of_law (holds_start terminalType stream) ?_ hfits hintact
  unfold Law
  rw [(holds_start terminalType stream).raw.contents, (holds_start terminalType stream).unicode.contents]
  rfl

/-- Both bytes of a character are there when the port is polled. -/
theorem input_delivers_whole :
    Delivers [0xC3, 0xA9] (start .vtUtf8 [0xC3, 0xA9]) [.arrive 2, .poll, .take] := by
  refine input_delivers .vtUtf8 [0xC3, 0xA9] [.arrive 2, .poll, .take] ?_ fun _ => ?_
  · refine ⟨trivial, fun s hs => ⟨?_, fun _ _ => ⟨trivial, fun _ _ => trivial⟩⟩⟩
    obtain rfl := Run.returns_pure.mp hs
    unfold Fits
    decide
  · refine ⟨trivial, fun s hs => ⟨fun _ => ?_, fun _ _ => ⟨trivial, fun _ _ => trivial⟩⟩⟩
    obtain rfl := Run.returns_pure.mp hs
    exact .char (l := [0xC3, 0xA9]) (c := 0xE9) (n := 2) (by decide) .nil

/-- Of a character that is polled byte by byte nothing is left. -/
theorem not_input_delivers : ¬ ∀ (terminalType : TerminalType) (stream : List UInt8) (ops : List Op),
    Throughout Fits (start terminalType stream) ops → Delivers stream (start terminalType stream) ops := by
  intro h
  have hfits : Throughout Fits (start .vtUtf8 [0xC3, 0xA9]) [.arrive 1, .poll] := by
    refine ⟨trivial, fun s hs => ⟨?_, fun _ _ => trivial⟩⟩
    obtain rfl := Run.returns_pure.mp hs
    unfold Fits
    decide
  obtain ⟨-, s₁, harrive, -, s₂, hpoll, hlaw⟩ := h .vtUtf8 [0xC3, 0xA9] [.arrive 1, .poll] hfits
  obtain rfl := Run.returns_pure.mp harrive
  have hstart : Holds { (start .vtUtf8 [0xC3, 0xA9]).dev with serialIo := [0xC3] } [] [] :=
    ⟨queued_empty _, show 0 < bufferSize by decide, show 0 + 1 < bufferSize by decide, queued_empty _⟩
  obtain ⟨dev, hfill, htype, hserial, hdev⟩ := fillUnicodeBufferFromSerial_returns hstart (by decide)
  have hstep := hfill.bind (f := fun dev => pure { start .vtUtf8 [0xC3, 0xA9] with dev := dev, later := [0xA9] }) (Run.returns_pure.mpr rfl)
  obtain rfl := Option.some.inj (Run.Yields.unique hpoll hstep)
  unfold Delivers Law at hlaw
  rw [hdev.raw.contents, hdev.unicode.contents, hserial, htype] at hlaw
  have hlost : [] ++ ([] ++ []) ++ decode [0xA9] = decode [0xC3, 0xA9] := hlaw
  exact absurd hlost (by decide)

end BayTrail.Terminal
