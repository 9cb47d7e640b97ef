import BayTrail.Terminal.Serial

/-!
# Escape sequences

The state tables of `TerminalBoard.h` and `GetKeyFromSerial`. The recogniser stops wherever the characters
do, and goes on from there at the next call. Characters that turn out to be no sequence go back to the FIFO,
and the escape character in front of them is a key.
-/

namespace BayTrail.Terminal

open Lib (Run)

/-- The part of `TerminalKey` that is filled in: `EFI_INPUT_KEY`. -/
structure Key where
  scanCode : UInt16
  unicodeChar : UInt16
  deriving DecidableEq

/-- An array of `STATE_DESCRIPTION`: entries that end a sequence, and entries that lead to another state. -/
inductive Table where
  | endMarker
  | key (inputChar : UInt16) (keyPad : UInt8) (k : Key) (rest : Table)
  | state (inputChar : UInt16) (keyPad : UInt8) (next rest : Table)

/-! ## The tables -/

def PUTTY_VT100 : UInt8 := 0x1
def PUTTY_LINUX : UInt8 := 0x2
def PUTTY_XTERMR6 : UInt8 := 0x4
def PUTTY_SCO : UInt8 := 0x8
def PUTTY_ESCN : UInt8 := 0x10
def PUTTY_VT400 : UInt8 := 0x20
def GLOBAL_ALL : UInt8 := PUTTY_VT100 ||| PUTTY_LINUX ||| PUTTY_XTERMR6 ||| PUTTY_SCO ||| PUTTY_ESCN ||| PUTTY_VT400

def ASCII_ESC : UInt16 := 0x1B
def EFI_SCAN_ESC : UInt16 := 0x17
def RESET : UInt16 := 0xFFFF

def EFI_SCAN_UP : UInt16 := 0x01
def EFI_SCAN_DN : UInt16 := 0x02
def EFI_SCAN_RIGHT : UInt16 := 0x03
def EFI_SCAN_LEFT : UInt16 := 0x04
def EFI_SCAN_HOME : UInt16 := 0x05
def EFI_SCAN_END : UInt16 := 0x06
def EFI_SCAN_INS : UInt16 := 0x07
def EFI_SCAN_DEL : UInt16 := 0x08
def EFI_SCAN_PGUP : UInt16 := 0x09
def EFI_SCAN_PGDN : UInt16 := 0x0A

/-- `EFI_SCAN_F1` to `EFI_SCAN_F12` -/
def scanF (n : Nat) : UInt16 := UInt16.ofNat (0x0A + n)

/-- An entry that ends a sequence. -/
def ends (c : Char) (scanCode : UInt16) (keyPad : UInt8) : Table → Table := .key (UInt16.ofNat c.toNat) keyPad ⟨scanCode, 0⟩

/-- An entry that leads to another state. -/
def leads (c : Char) (next : Table) (keyPad : UInt8) : Table → Table := .state (UInt16.ofNat c.toNat) keyPad next

/-- The entries of an array. -/
def entries (l : List (Table → Table)) : Table := l.foldr (fun e t => e t) .endMarker

/-- `PUTTY_LINUX | PUTTY_XTERMR6 | PUTTY_ESCN | PUTTY_VT400` -/
def linuxLike : UInt8 := PUTTY_LINUX ||| PUTTY_XTERMR6 ||| PUTTY_ESCN ||| PUTTY_VT400

/-- `PUTTY_VT100 | PUTTY_LINUX | PUTTY_XTERMR6 | PUTTY_ESCN` -/
def vt100Like : UInt8 := PUTTY_VT100 ||| PUTTY_LINUX ||| PUTTY_XTERMR6 ||| PUTTY_ESCN

def PuttyLinuxEscSeq : Table := entries [
  ends 'A' (scanF 1) PUTTY_LINUX, ends 'B' (scanF 2) PUTTY_LINUX, ends 'C' (scanF 3) PUTTY_LINUX,
  ends 'D' (scanF 4) PUTTY_LINUX, ends 'E' (scanF 5) PUTTY_LINUX]

/-- `PuttyLinuxF6` to `PuttyLinuxF12` -/
def PuttyLinuxF (n : Nat) : Table := entries [ends '~' (scanF n) linuxLike]

def PuttyXterm86F5 : Table := entries [ends '~' (scanF 5) (PUTTY_XTERMR6 ||| PUTTY_ESCN ||| PUTTY_VT400)]

/-- `PuttyEscNF1` to `PuttyEscNF4` -/
def PuttyEscNF (n : Nat) : Table := entries [ends '~' (scanF n) (PUTTY_ESCN ||| PUTTY_VT400)]

def PuttyVt100EscSeq1 : Table := entries [
  ends '~' EFI_SCAN_HOME vt100Like, ends '~' EFI_SCAN_INS PUTTY_VT400,
  leads '7' (PuttyLinuxF 6) linuxLike, leads '8' (PuttyLinuxF 7) linuxLike, leads '9' (PuttyLinuxF 8) linuxLike,
  leads '5' PuttyXterm86F5 (PUTTY_XTERMR6 ||| PUTTY_ESCN ||| PUTTY_VT400),
  leads '1' (PuttyEscNF 1) (PUTTY_ESCN ||| PUTTY_VT400), leads '2' (PuttyEscNF 2) (PUTTY_ESCN ||| PUTTY_VT400),
  leads '3' (PuttyEscNF 3) (PUTTY_ESCN ||| PUTTY_VT400), leads '4' (PuttyEscNF 4) (PUTTY_ESCN ||| PUTTY_VT400)]

def PuttyVt100EscSeq2 : Table := entries [
  ends '~' EFI_SCAN_INS vt100Like, ends '~' EFI_SCAN_HOME PUTTY_VT400,
  leads '0' (PuttyLinuxF 9) linuxLike, leads '1' (PuttyLinuxF 10) linuxLike,
  leads '3' (PuttyLinuxF 11) linuxLike, leads '4' (PuttyLinuxF 12) linuxLike]

/-- `PuttyVt100EscSeq3` to `PuttyVt100EscSeq6` -/
def PuttyVt100EscSeq (scanCode : UInt16) : Table := entries [ends '~' scanCode (vt100Like ||| PUTTY_VT400)]

/-- `PuttyVt400EscSeq3` to `PuttyVt400EscSeq6` -/
def PuttyVt400EscSeq (scanCode : UInt16) : Table := entries [ends '~' scanCode PUTTY_VT400]

def OemEscSeqStateArray : Table := entries [
  ends 'P' (scanF 1) GLOBAL_ALL, ends 'Q' (scanF 2) GLOBAL_ALL, ends 'w' (scanF 3) GLOBAL_ALL, ends 'x' (scanF 4) GLOBAL_ALL,
  ends 't' (scanF 5) GLOBAL_ALL, ends 'u' (scanF 6) GLOBAL_ALL, ends 'q' (scanF 7) GLOBAL_ALL, ends 'r' (scanF 8) GLOBAL_ALL,
  ends 'p' (scanF 9) GLOBAL_ALL, ends 'M' (scanF 10) GLOBAL_ALL]

/-- With and without `OEM_ESC_SEQUENCES`. -/
def CursorPositionEscSeqStateArray (oemEscSequences : Bool) : Table := entries [
  ends 'C' EFI_SCAN_RIGHT GLOBAL_ALL, ends 'D' EFI_SCAN_LEFT GLOBAL_ALL, ends 'A' EFI_SCAN_UP GLOBAL_ALL,
  ends 'B' EFI_SCAN_DN GLOBAL_ALL, ends 'H' EFI_SCAN_HOME GLOBAL_ALL, ends 'K' EFI_SCAN_END GLOBAL_ALL,
  leads '1' PuttyVt100EscSeq1 (vt100Like ||| PUTTY_VT400), leads '2' PuttyVt100EscSeq2 (vt100Like ||| PUTTY_VT400),
  leads '3' (PuttyVt100EscSeq EFI_SCAN_DEL) vt100Like, leads '4' (PuttyVt100EscSeq EFI_SCAN_END) vt100Like,
  leads '5' (PuttyVt100EscSeq EFI_SCAN_PGUP) vt100Like, leads '6' (PuttyVt100EscSeq EFI_SCAN_PGDN) vt100Like,
  leads '3' (PuttyVt400EscSeq EFI_SCAN_PGUP) PUTTY_VT400, leads '4' (PuttyVt400EscSeq EFI_SCAN_DEL) PUTTY_VT400,
  leads '5' (PuttyVt400EscSeq EFI_SCAN_END) PUTTY_VT400, leads '6' (PuttyVt400EscSeq EFI_SCAN_PGDN) PUTTY_VT400,
  leads '[' PuttyLinuxEscSeq PUTTY_LINUX,
  ends 'M' (scanF 1) PUTTY_SCO, ends 'N' (scanF 2) PUTTY_SCO,
  if oemEscSequences then leads 'O' OemEscSeqStateArray GLOBAL_ALL else ends 'O' (scanF 3) PUTTY_SCO,
  ends 'P' (scanF 4) PUTTY_SCO, ends 'Q' (scanF 5) PUTTY_SCO, ends 'R' (scanF 6) PUTTY_SCO, ends 'S' (scanF 7) PUTTY_SCO,
  ends 'T' (scanF 8) PUTTY_SCO, ends 'U' (scanF 9) PUTTY_SCO, ends 'V' (scanF 10) PUTTY_SCO, ends 'W' (scanF 11) PUTTY_SCO,
  ends 'X' (scanF 12) PUTTY_SCO, ends 'I' EFI_SCAN_PGUP PUTTY_SCO, ends 'G' EFI_SCAN_PGDN PUTTY_SCO,
  ends 'F' EFI_SCAN_END PUTTY_SCO, ends 'L' EFI_SCAN_INS PUTTY_SCO, ends '\x7f' EFI_SCAN_DEL PUTTY_SCO]

def FunctionKeyEscSeqStateArray : Table := entries [
  ends 'P' (scanF 1) GLOBAL_ALL, ends 'Q' (scanF 2) GLOBAL_ALL, ends 'R' (scanF 3) GLOBAL_ALL, ends 'S' (scanF 4) GLOBAL_ALL,
  ends 'T' (scanF 5) PUTTY_VT100, ends 'U' (scanF 6) PUTTY_VT100, ends 'V' (scanF 7) PUTTY_VT100, ends 'W' (scanF 8) PUTTY_VT100,
  ends 'X' (scanF 9) PUTTY_VT100, ends 'Y' (scanF 10) PUTTY_VT100, ends 'Z' (scanF 11) PUTTY_VT100, ends '[' (scanF 12) PUTTY_VT100]

def ResetSequenceState5 : Table := entries [ends 'R' RESET GLOBAL_ALL]
def ResetSequenceState4 : Table := entries [leads '\x1b' ResetSequenceState5 GLOBAL_ALL]
def ResetSequenceState3 : Table := entries [leads 'r' ResetSequenceState4 GLOBAL_ALL]
def ResetSequenceState2 : Table := entries [leads '\x1b' ResetSequenceState3 GLOBAL_ALL]

def EscSeqStateArray (oemEscSequences : Bool) : Table := entries [
  leads '[' (CursorPositionEscSeqStateArray oemEscSequences) GLOBAL_ALL, leads 'O' FunctionKeyEscSeqStateArray GLOBAL_ALL,
  leads 'R' ResetSequenceState2 GLOBAL_ALL]

def Vtutf8EscSeqStateArray (oemEscSequences : Bool) : Table := entries [
  leads '[' (CursorPositionEscSeqStateArray oemEscSequences) GLOBAL_ALL, leads 'O' FunctionKeyEscSeqStateArray GLOBAL_ALL,
  ends 'h' EFI_SCAN_HOME GLOBAL_ALL, ends 'k' EFI_SCAN_END GLOBAL_ALL, ends '+' EFI_SCAN_INS GLOBAL_ALL,
  ends '-' EFI_SCAN_DEL GLOBAL_ALL, ends '?' EFI_SCAN_PGUP GLOBAL_ALL, ends '/' EFI_SCAN_PGDN GLOBAL_ALL,
  ends '1' (scanF 1) GLOBAL_ALL, ends '2' (scanF 2) GLOBAL_ALL, ends '3' (scanF 3) GLOBAL_ALL, ends '4' (scanF 4) GLOBAL_ALL,
  ends '5' (scanF 5) GLOBAL_ALL, ends '6' (scanF 6) GLOBAL_ALL, ends '7' (scanF 7) GLOBAL_ALL, ends '8' (scanF 8) GLOBAL_ALL,
  ends '9' (scanF 9) GLOBAL_ALL, ends '0' (scanF 10) GLOBAL_ALL, ends '!' (scanF 11) GLOBAL_ALL, ends '@' (scanF 12) GLOBAL_ALL,
  leads 'R' ResetSequenceState2 GLOBAL_ALL]

/-! ## GetKeyFromSerial -/

/-- `TERMINAL_DEV` with the state of the recogniser. `InputChars` are its elements in front of `InputCharIndex`;
the timer is `TimeoutEvent`. -/
structure Recogniser where
  dev : TerminalDev
  escSeqStatePtr : Option Table
  inputChars : List UInt16
  armed : Bool
  signaled : Bool

/-- The elements of `InputChars`. -/
def inputCharsSize : Nat := 5

def Recogniser.withFIFO (r : Recogniser) (f : Fifo UInt16) : Recogniser := { r with dev := { r.dev with unicodeFIFO := f } }

/-- `InputChars[InputCharIndex++] = InputChar` -/
def store (r : Recogniser) (inputChar : UInt16) : Run Recogniser :=
  Run.ofOption (if r.inputChars.length < inputCharsSize then some { r with inputChars := r.inputChars ++ [inputChar] } else none)

/-- How the loop over the table ends. -/
inductive Scan where
  | notReady (r : Recogniser)
  | key (k : Key) (r : Recogniser)
  | mismatch (r : Recogniser)

/-- An entry is for this keypad. -/
def admits (keyPad puttyKeyPad : UInt8) : Bool := keyPad &&& puttyKeyPad ≠ 0

/-- The loop over the table. An entry for the character 0 ends it like the marker. -/
def scan (puttyKeyPad : UInt8) : Table → UInt16 → Recogniser → Run Scan
  | .endMarker, _, r => pure (.mismatch { r with escSeqStatePtr := some .endMarker })
  | .key c keyPad k rest, inputChar, r =>
    if c = 0 then pure (.mismatch { r with escSeqStatePtr := some (.key c keyPad k rest) })
    -- `ResetSystem` for a key `RESET` does not return
    else if c = inputChar ∧ admits keyPad puttyKeyPad then pure (.key k { r with inputChars := [], escSeqStatePtr := none })
    else scan puttyKeyPad rest inputChar r
  | .state c keyPad next rest, inputChar, r =>
    if c = 0 then pure (.mismatch { r with escSeqStatePtr := some (.state c keyPad next rest) })
    else if c = inputChar ∧ admits keyPad puttyKeyPad then do
      let q ← removeCharFromUnicodeBuffer r.dev.unicodeFIFO
      match q.1 with
      | none => pure (.notReady { r.withFIFO q.2 with escSeqStatePtr := some next, armed := true })
      | some inputChar => do
        let r ← store { r.withFIFO q.2 with escSeqStatePtr := some next, armed := true } inputChar
        scan puttyKeyPad next inputChar r
    else scan puttyKeyPad rest inputChar r

/-- Characters are put back one by one. -/
def putBackAll : Fifo UInt16 → List UInt16 → Run (Fifo UInt16)
  | f, [] => pure f
  | f, c :: l => do
    let f ← putBack f c
    putBackAll f l

/-- The end of `GetKeyFromSerial`: a lone escape character. The last character is put back first. -/
def loneEsc (r : Recogniser) : Run (Option Key × Recogniser) := do
  let f ← putBackAll r.dev.unicodeFIFO r.inputChars.reverse
  pure (some ⟨EFI_SCAN_ESC, 0⟩, { r.withFIFO f with inputChars := [], escSeqStatePtr := none })

/-- The timer fires. -/
def Recogniser.expire (r : Recogniser) (fires : Bool) : Recogniser :=
  { r with armed := r.armed && !fires, signaled := r.signaled || fires }

/-- The timer is cancelled. A signaled event stays signaled. -/
def Recogniser.cancel (r : Recogniser) : Recogniser := { r with armed := false }

/-- What follows the loop over the table. -/
def finish : Scan → Run (Option Key × Recogniser)
  | .notReady r => pure (none, r)
  | .key k r => pure (some k, r.cancel)
  | .mismatch r => loneEsc r.cancel

/-- A lone escape character or a sequence. The timer may fire between the check of its event and the next
`SetTimer` (`late`). -/
def readOn (puttyKeyPad : UInt8) (late : Bool) (t : Table) (r : Recogniser) : Run (Option Key × Recogniser) :=
  if r.signaled then loneEsc { r with signaled := false }
  else do
    let q ← removeCharFromUnicodeBuffer r.dev.unicodeFIFO
    match q.1 with
    | none => pure (none, r.withFIFO q.2)
    | some inputChar => do
      let r ← store ((r.withFIFO q.2).expire late) inputChar
      let s ← scan puttyKeyPad t inputChar r
      finish s

/-- A character that no sequence is in front of. The timer starts with an escape character. -/
def readFirst (terminalEscSeqState : Table) (puttyKeyPad : UInt8) (late : Bool) (inputChar : UInt16) (r : Recogniser) :
    Run (Option Key × Recogniser) :=
  if inputChar ≠ ASCII_ESC then pure (some ⟨0, inputChar⟩, r)
  else readOn puttyKeyPad late terminalEscSeqState { r with escSeqStatePtr := some terminalEscSeqState, armed := true }

/-- Where `GetKeyFromSerial` goes on. -/
def readKey (terminalEscSeqState : Table) (puttyKeyPad : UInt8) (late : Bool) (r : Recogniser) : Run (Option Key × Recogniser) :=
  match r.escSeqStatePtr with
  | some t => readOn puttyKeyPad late t r
  | none => do
    let q ← removeCharFromUnicodeBuffer r.dev.unicodeFIFO
    match q.1 with
    | none => pure (none, r.withFIFO q.2)
    | some inputChar => readFirst terminalEscSeqState puttyKeyPad late inputChar (r.withFIFO q.2)

/-- `GetKeyFromSerial`: a key, or `EFI_NOT_READY`. -/
def getKeyFromSerial (terminalEscSeqState : Table) (puttyKeyPad : UInt8) (late : Bool) (r : Recogniser) :
    Run (Option Key × Recogniser) := do
  let dev ← fillUnicodeBufferFromSerial r.dev
  readKey terminalEscSeqState puttyKeyPad late { r with dev := dev }

/-! ## What a table says -/

/-- The sequences of a table for a keypad. -/
def sequences (puttyKeyPad : UInt8) : Table → List (List UInt16 × Key)
  | .endMarker => []
  | .key c keyPad k rest => (if admits keyPad puttyKeyPad then [([c], k)] else []) ++ sequences puttyKeyPad rest
  | .state c keyPad next rest =>
    (if admits keyPad puttyKeyPad then (sequences puttyKeyPad next).map fun p => (c :: p.1, p.2) else [])
      ++ sequences puttyKeyPad rest

/-- The characters behind which a table waits for more. -/
def openings (puttyKeyPad : UInt8) : Table → List (List UInt16)
  | .endMarker => []
  | .key _ _ _ rest => openings puttyKeyPad rest
  | .state c keyPad next rest =>
    (if admits keyPad puttyKeyPad then [c] :: (openings puttyKeyPad next).map (c :: ·) else []) ++ openings puttyKeyPad rest

/-- The characters that an entry of the state is for. -/
def firsts (puttyKeyPad : UInt8) : Table → List UInt16
  | .endMarker => []
  | .key c keyPad _ rest => (if admits keyPad puttyKeyPad then [c] else []) ++ firsts puttyKeyPad rest
  | .state c keyPad _ rest => (if admits keyPad puttyKeyPad then [c] else []) ++ firsts puttyKeyPad rest

/-- How many characters are read at most before a sequence of the table is decided. -/
def Table.depth : Table → Nat
  | .endMarker => 1
  | .key _ _ _ rest => rest.depth
  | .state _ _ next rest => max (next.depth + 1) rest.depth

/-- No entry is for the character 0. -/
def Table.nonzero : Table → Bool
  | .endMarker => true
  | .key c _ _ rest => c ≠ 0 && rest.nonzero
  | .state c _ next rest => c ≠ 0 && next.nonzero && rest.nonzero

/-- No state has two entries for one character that are both for this keypad. -/
def unambiguous (puttyKeyPad : UInt8) : Table → Bool
  | .endMarker => true
  | .key c keyPad _ rest => (!admits keyPad puttyKeyPad || c ∉ firsts puttyKeyPad rest) && unambiguous puttyKeyPad rest
  | .state c keyPad next rest => (!admits keyPad puttyKeyPad || c ∉ firsts puttyKeyPad rest)
      && unambiguous puttyKeyPad next && unambiguous puttyKeyPad rest

/-- The tables are trees of depth 5, and unambiguous for each keypad that can be chosen. -/
theorem shipped_tables : ∀ oem : Bool, ∀ t ∈ [EscSeqStateArray oem, Vtutf8EscSeqStateArray oem],
    t.depth ≤ inputCharsSize ∧ t.nonzero
      ∧ ∀ pad ∈ [PUTTY_VT100, PUTTY_LINUX, PUTTY_XTERMR6, PUTTY_SCO, PUTTY_ESCN, PUTTY_VT400], unambiguous pad t := by
  decide +kernel

end BayTrail.Terminal
