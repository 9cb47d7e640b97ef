import BayTrail.Terminal.Input
import BayTrail.Terminal.Recognise

/-!
# The keys of a session

Bytes arrive in the port, the timer fires, and `GetKeyFromSerial` is called, in any order. A character counts
as arrived when a call takes it over into the FIFO. As long as nothing is lost for want of room, and the timer
does not fire within a call, the keys are those of the reference parse.
-/

namespace BayTrail.Terminal

open Lib (Run)

structure Reading where
  recogniser : Recogniser
  keys : List Key
  /-- The characters that have arrived, and the timer. -/
  tokens : List Token

inductive Event where
  | arrive (bytes : List UInt8)
  | timeout
  | getKey (late : Bool)

/-- The characters that a call takes over into the FIFO. -/
def arrived (dev : TerminalDev) : List UInt16 := (transferred dev.terminalType (filled dev dev.rawFIFO.contents)).1

/-- The characters in the FIFO when a call reads from it. -/
def readable (dev : TerminalDev) : List UInt16 := dev.unicodeFIFO.contents ++ arrived dev

/-- A call reads a character behind an escape character, and sets the timer again or cancels it. -/
def readsBehind (r : Recogniser) : Bool :=
  !r.signaled && match r.escSeqStatePtr with
    | some _ => decide (readable r.dev ≠ [])
    | none => decide ((readable r.dev).head? = some ASCII_ESC ∧ 1 < (readable r.dev).length)

def Recogniser.receive (r : Recogniser) (bytes : List UInt8) : Recogniser :=
  { r with dev := { r.dev with serialIo := r.dev.serialIo ++ bytes } }

section

variable (table : Table) (pad : UInt8)

def Reading.step (s : Reading) : Event → Run Reading
  | .arrive bytes => pure { s with recogniser := s.recogniser.receive bytes }
  | .timeout => pure (if s.recogniser.armed
      then { s with recogniser := s.recogniser.expire true, tokens := s.tokens ++ [.timeout] } else s)
  | .getKey late => do
    let r ← getKeyFromSerial table pad late s.recogniser
    pure {
      recogniser := r.2
      keys := s.keys ++ r.1.toList
      tokens := s.tokens ++ (arrived s.recogniser.dev).map .char ++ if late && readsBehind s.recogniser then [.timeout] else [] }

/-- No character is lost in a full FIFO, and the timer does not fire within the call. Characters are put back
unless a sequence is complete. -/
def Reading.Undisturbed (s : Reading) : Event → Prop
  | .getKey late => (readable s.recogniser.dev).length < bufferSize
      ∧ (late && readsBehind s.recogniser) = false
      ∧ (s.recogniser.inputChars.length + (readable s.recogniser.dev).length < bufferSize
        ∨ s.recogniser.signaled = false
          ∧ ∃ p q k, readable s.recogniser.dev = p ++ q ∧ (s.recogniser.inputChars ++ p, k) ∈ sequences pad table)
  | _ => True

/-- This holds of each event of a run and the state it meets. -/
def Reading.Throughout (P : Reading → Event → Prop) : Reading → List Event → Prop
  | _, [] => True
  | s, e :: es => P s e ∧ ∀ s', (s.step table pad e).Returns s' → Throughout P s' es

/-- The keys are those of the reference parse, and `InputChars` holds characters of a sequence in progress only. -/
structure Reading.Law (s : Reading) : Prop where
  keys : ∃ rest, Parses table pad s.tokens s.keys rest
  index : s.recogniser.inputChars.length ≤ inputCharsSize
  idle : s.recogniser.escSeqStatePtr = none → s.recogniser.inputChars = []

/-- The reference parse has no other key. -/
def Reading.Settled (s : Reading) : Prop := ∀ rest, Parses table pad s.tokens s.keys rest → nextKey table pad rest = none

/-- Each event goes through, with no access behind the end of a buffer, and the law holds in every state. A call
that gives no key leaves none behind. -/
def Reading.Recognises : Reading → List Event → Prop
  | s, [] => s.Law table pad
  | s, e :: es => s.Law table pad ∧ ∃ s', (s.step table pad e).Returns s'
      ∧ (∀ late, e = .getKey late → s'.keys = s.keys → s'.Settled table pad) ∧ Recognises s' es

def Reading.run : Reading → List Event → Run Reading
  | s, [] => pure s
  | s, e :: es => do
    let s ← s.step table pad e
    run s es

end

/-- Both FIFOs are empty, and no sequence is in progress. -/
def startReading (terminalType : TerminalType) : Reading where
  recogniser := ⟨⟨terminalType, [], ⟨0, 0, fun _ => 0⟩, ⟨0, 0, fun _ => 0⟩⟩, none, [], false, false⟩
  keys := []
  tokens := []

section

variable {table : Table} {pad : UInt8} {s : Reading} {bytes : List UInt8} {pending : List UInt16} {ts rest : List Token}
  {r : Recogniser}

/-- What is so between two events. -/
structure Reading.Inv (table : Table) (pad : UInt8) (s : Reading) (bytes : List UInt8) (pending : List UInt16)
    (rest : List Token) : Prop where
  holds : Holds s.recogniser.dev bytes pending
  stands : Stands table pad s.recogniser pending rest
  parses : Parses table pad s.tokens s.keys rest

theorem Stands.queued (h : Stands table pad r pending ts) : Queued r.dev.unicodeFIFO pending := by
  cases h with
  | idle hq => exact hq
  | waiting hq _ => exact hq
  | fired hq _ => exact hq

variable {w : List UInt16} {t : Table} {dev : TerminalDev} {late : Bool} {es : List Event}

theorem Waits.length_le (h : Waits table pad w t) (hdepth : table.depth ≤ inputCharsSize) :
    w.length ≤ inputCharsSize :=
  (Nat.le_add_right _ _).trans (h.place.depth.trans hdepth)

theorem Reading.Inv.law (h : s.Inv table pad bytes pending rest) (hdepth : table.depth ≤ inputCharsSize) : s.Law table pad := by
  have hstands := h.stands
  obtain ⟨r, keys, tokens⟩ := s
  refine ⟨⟨rest, h.parses⟩, ?_, ?_⟩
  · cases hstands with
    | idle _ => exact Nat.zero_le _
    | waiting _ hwaits => exact hwaits.length_le hdepth
    | fired _ hwaits => exact hwaits.length_le hdepth
  · intro hptr
    cases hstands with
    | idle _ => rfl
    | waiting _ _ => cases hptr
    | fired _ _ => cases hptr

theorem Holds.readable_eq (h : Holds dev bytes pending) :
    readable dev = pending ++ (transferred dev.terminalType (filled dev bytes)).1 := by
  rw [readable, arrived, h.unicode.contents, h.raw.contents]

theorem length_le_of_not_readsBehind (h : (late && readsBehind ⟨dev, none, [], false, false⟩) = false)
    (hlate : late = true) (hesc : (readable dev).head? = some ASCII_ESC) : (readable dev).length ≤ 1 := by
  subst hlate
  by_contra hlt
  have hreads : readsBehind ⟨dev, none, [], false, false⟩ = true := decide_eq_true ⟨hesc, Nat.lt_of_not_le hlt⟩
  rw [hreads] at h
  cases h

theorem nil_of_not_readsBehind {armed : Bool}
    (h : (late && readsBehind ⟨dev, some t, w, armed, false⟩) = false) (hlate : late = true) : readable dev = [] := by
  subst hlate
  by_contra hne
  have hreads : readsBehind ⟨dev, some t, w, armed, false⟩ = true := decide_eq_true hne
  rw [hreads] at h
  cases h

/-- A call gives the first key of what is to be parsed when its characters have arrived. -/
theorem getKeyFromSerial_answers (hdepth : table.depth ≤ inputCharsSize) (hun : unambiguous pad table = true)
    (hnz : table.nonzero = true) (h : s.Inv table pad bytes pending rest) (hcalm : s.Undisturbed table pad (.getKey late)) :
    ∃ dev a, (getKeyFromSerial table pad late s.recogniser).Returns a
      ∧ (∃ bytes', Holds dev bytes' (readable s.recogniser.dev))
      ∧ Answers table pad dev (rest ++ (arrived s.recogniser.dev).map .char) a := by
  obtain ⟨hfull, hreads, hroom⟩ := hcalm
  have hholds := h.holds
  have hstands := h.stands
  have hreadable := hholds.readable_eq
  rw [hreadable, List.length_append] at hfull
  obtain ⟨dev', hfill, htype, -, hdev'⟩ := fillUnicodeBufferFromSerial_returns hholds (by rwa [← List.length_append] at hfull ⊢)
  rw [← hreadable] at hdev'
  clear h hholds
  obtain ⟨r, keys, tokens⟩ := s
  suffices hread : ∃ a, (readKey table pad late { r with dev := dev' }).Returns a
      ∧ Answers table pad dev' (rest ++ (arrived r.dev).map .char) a by
    obtain ⟨a, hread, ha⟩ := hread
    exact ⟨dev', a, hfill.bind hread, ⟨_, hdev'⟩, ha⟩
  cases hstands with
  | @idle dev _ hq =>
    obtain ⟨a, hread, ha⟩ := readKey_idle late hdepth hun hnz hdev'.unicode (length_le_of_not_readsBehind hreads)
    refine ⟨a, hread, ?_⟩
    rwa [← List.map_append, ← hq.contents]
  | @waiting dev w t hq hwaits =>
    have hnothing : readable dev = arrived dev := by rw [readable, hq.contents, List.nil_append]
    have hroom : RoomBehind table pad w (readable dev) := hroom.imp_right And.right
    obtain ⟨a, hread, ha⟩ := readOn_answers hdepth hwaits hdev'.unicode hroom (nil_of_not_readsBehind hreads)
    refine ⟨a, hread, ?_⟩
    rwa [List.cons_append, ← List.map_append, ← hnothing]
  | @fired dev w t hq hwaits =>
    have hnothing : readable dev = arrived dev := by rw [readable, hq.contents, List.nil_append]
    obtain ⟨a, hread, ha⟩ := readKey_fired late hwaits hdev'.unicode (hroom.resolve_right fun h => Bool.noConfusion h.1)
    refine ⟨a, hread, ?_⟩
    rwa [← hnothing]

/-- One event keeps the invariant. -/
theorem step_inv (e : Event) (hdepth : table.depth ≤ inputCharsSize) (hun : unambiguous pad table = true)
    (hnz : table.nonzero = true) (h : s.Inv table pad bytes pending rest) (hcalm : s.Undisturbed table pad e) :
    ∃ s', (s.step table pad e).Returns s' ∧ (∃ bytes' pending' rest', s'.Inv table pad bytes' pending' rest')
      ∧ ∀ late, e = .getKey late → s'.keys = s.keys → s'.Settled table pad := by
  cases e with
  | arrive new =>
    refine ⟨_, Run.returns_pure.mpr rfl, ⟨bytes, pending, rest, ?_, ?_, h.parses⟩, fun _ he => by cases he⟩
    · exact ⟨h.holds.raw, h.holds.head, h.holds.room, h.holds.unicode⟩
    · have hstands := h.stands
      obtain ⟨r, keys, tokens⟩ := s
      cases hstands with
      | idle hq => exact .idle hq
      | waiting hq hwaits => exact .waiting hq hwaits
      | fired hq hwaits => exact .fired hq hwaits
  | timeout =>
    have hholds := h.holds
    have hstands := h.stands
    have hparses := h.parses
    refine ⟨_, Run.returns_pure.mpr rfl, ?_, fun _ he => by cases he⟩
    obtain ⟨r, keys, tokens⟩ := s
    cases hstands with
    | idle hq => exact ⟨bytes, pending, _, hholds, .idle hq, hparses⟩
    | waiting hq hwaits => exact ⟨bytes, [], _, hholds, .fired hq hwaits, hparses.append⟩
    | fired hq hwaits => exact ⟨bytes, [], _, hholds, .fired hq hwaits, hparses⟩
  | getKey late =>
    obtain ⟨dev, a, hread, ⟨bytes', hdev⟩, ha⟩ := getKeyFromSerial_answers hdepth hun hnz h hcalm
    have hparses : Parses table pad (s.tokens ++ (arrived s.recogniser.dev).map .char) s.keys
        (rest ++ (arrived s.recogniser.dev).map .char) := h.parses.append
    refine ⟨_, hread.bind (Run.returns_pure.mpr rfl), ?_⟩
    rw [hcalm.2.1, if_neg (by decide), List.append_nil]
    cases ha with
    | @notReady f r pending' hr hstands hnext =>
      have hkeys : s.keys ++ (none : Option Key).toList = s.keys := List.append_nil _
      refine ⟨⟨bytes', pending', _, ?_, hstands, ?_⟩, fun _ _ _ rest' hrest' => ?_⟩
      · have hqueued := hstands.queued
        rw [hr] at hqueued ⊢
        exact ⟨hdev.raw, hdev.head, hdev.room, hqueued⟩
      · rw [hkeys]
        exact hparses
      · simp only [hkeys] at hrest'
        rwa [← hparses.rest_unique hrest']
    | @key f r pending' k rest' hr hstands hnext =>
      refine ⟨⟨bytes', pending', rest', ?_, hstands, hparses.snoc hnext⟩, fun _ _ hkeys => ?_⟩
      · have hqueued := hstands.queued
        rw [hr] at hqueued ⊢
        exact ⟨hdev.raw, hdev.head, hdev.room, hqueued⟩
      · exact absurd hkeys (by simp)

theorem recognises_of_inv (hdepth : table.depth ≤ inputCharsSize) (hun : unambiguous pad table = true)
    (hnz : table.nonzero = true) (h : s.Inv table pad bytes pending rest)
    (hcalm : Reading.Throughout table pad (Reading.Undisturbed table pad) s es) : s.Recognises table pad es := by
  induction es generalizing s bytes pending rest with
  | nil => exact h.law hdepth
  | cons e es ih =>
    obtain ⟨s', hstep, ⟨bytes', pending', rest', h'⟩, hsettled⟩ := step_inv e hdepth hun hnz h hcalm.1
    exact ⟨h.law hdepth, s', hstep, hsettled, ih h' (hcalm.2 s' hstep)⟩

theorem startReading_inv (terminalType : TerminalType) : (startReading terminalType).Inv table pad [] [] [] where
  holds := ⟨queued_empty _, show 0 < bufferSize by decide, show 0 + 1 < bufferSize by decide, queued_empty _⟩
  stands := .idle (queued_empty _)
  parses := .refl []

theorem Reading.Recognises.run (h : s.Recognises table pad es) :
    ∃ s', (s.run table pad es).Returns s' ∧ s'.Law table pad := by
  induction es generalizing s with
  | nil => exact ⟨s, Run.returns_pure.mpr rfl, h⟩
  | cons e es ih =>
    obtain ⟨-, s₁, hstep, -, h₁⟩ := h
    obtain ⟨s₂, hrun, hlaw⟩ := ih h₁
    exact ⟨s₂, hstep.bind hrun, hlaw⟩

end

/-- Undisturbed calls give the keys of the reference parse, one by one. The shipped tables are such for every
keypad. -/
theorem getKeyFromSerial_recognises (table : Table) (pad : UInt8) (terminalType : TerminalType) (events : List Event)
    (hdepth : table.depth ≤ inputCharsSize) (hun : unambiguous pad table = true) (hnz : table.nonzero = true)
    (hcalm : Reading.Throughout table pad (Reading.Undisturbed table pad) (startReading terminalType) events) :
    (startReading terminalType).Recognises table pad events ∧
      ∀ oem : Bool, ∀ t ∈ [EscSeqStateArray oem, Vtutf8EscSeqStateArray oem], t.depth ≤ inputCharsSize ∧ t.nonzero
        ∧ ∀ pad ∈ [PUTTY_VT100, PUTTY_LINUX, PUTTY_XTERMR6, PUTTY_SCO, PUTTY_ESCN, PUTTY_VT400], unambiguous pad t :=
  ⟨recognises_of_inv hdepth hun hnz (startReading_inv terminalType) hcalm, shipped_tables⟩

/-- The cursor key `ESC [ A`, of which all characters are there. -/
theorem getKeyFromSerial_recognises_up : (startReading .vt100).Recognises (EscSeqStateArray false) PUTTY_VT100
    [.arrive [0x1B, 0x5B, 0x41], .getKey false] := by
  refine (getKeyFromSerial_recognises (EscSeqStateArray false) PUTTY_VT100 .vt100 _ (by decide) (by decide +kernel)
    (by decide +kernel) ?_).1
  refine ⟨trivial, fun s hs => ⟨?_, fun _ _ => trivial⟩⟩
  obtain rfl := Run.returns_pure.mp hs
  exact ⟨by decide, by decide, Or.inl (by decide)⟩

/-- The timer fires behind `ESC [`, and as many characters as the FIFO takes arrive before the next call. -/
def crowded : List Event :=
  [.arrive [0x1B, 0x5B], .getKey false, .timeout, .arrive (List.replicate 255 0x61), .getKey false, .getKey false]

/-- `[` finds no room then, and its key is missing. -/
theorem not_getKeyFromSerial_recognises : ¬ ∀ (table : Table) (pad : UInt8) (terminalType : TerminalType) (events : List Event),
    table.depth ≤ inputCharsSize → unambiguous pad table = true → table.nonzero = true →
    (startReading terminalType).Recognises table pad events := by
  intro h
  obtain ⟨s, hrun, hlaw⟩ := (h (EscSeqStateArray false) PUTTY_VT100 .vt100 crowded (by decide) (by decide +kernel)
    (by decide +kernel)).run
  have heval : (((startReading .vt100).run (EscSeqStateArray false) PUTTY_VT100 crowded).eval 300).map
      (·.map fun s => (s.keys, s.tokens)) = some (some ([escKey, ⟨0, 0x61⟩],
        [.char 0x1B, .char 0x5B, .timeout] ++ List.replicate 255 (.char 0x61))) := by decide +kernel
  obtain ⟨o, hsome, ho⟩ := Option.map_eq_some_iff.mp heval
  obtain ⟨s', rfl, hs'⟩ := Option.map_eq_some_iff.mp ho
  obtain rfl := Option.some.inj (Run.Yields.unique hrun ⟨300, hsome⟩)
  obtain ⟨rest, hparses⟩ := hlaw.keys
  obtain ⟨hkeys, htokens⟩ := Prod.mk.inj hs'
  rw [hkeys, htokens] at hparses
  have hfirst : nextKey (EscSeqStateArray false) PUTTY_VT100
      ([.char 0x1B, .char 0x5B, .timeout] ++ List.replicate 255 (.char 0x61))
        = some (escKey, .char 0x5B :: List.replicate 255 (.char 0x61)) := by decide +kernel
  -- the reference parse has `[` for the second key
  cases hparses with
  | step hnext hparses =>
    cases hfirst.symm.trans hnext
    cases hparses with
    | step hnext _ =>
      have hsecond : nextKey (EscSeqStateArray false) PUTTY_VT100 (.char 0x5B :: List.replicate 255 (.char 0x61))
          = some (⟨0, 0x5B⟩, List.replicate 255 (.char 0x61)) := if_neg (by decide)
      cases hsecond.symm.trans hnext

end BayTrail.Terminal
