import BayTrail.Lib.Run
import Mathlib.Data.UInt

/-!
# Key notifications

`TerminalInputRegisterKeyNotify`, `TerminalInputUnRegisterKeyNotify`, `ValidateKeyRecord` and
`TerminalCheckKeyNotify` of `TerminalSimpleTextIn.c`. The list that all terminals share is the
list of its records, each with the address of its link. A record carries the number of its
registration beside what the source keeps in it, so that two records that have the same address
one after the other can be told apart.
-/

namespace BayTrail.Terminal.Notify

open BayTrail.Lib

/-- `EFI_KEY_DATA`. -/
structure KeyData where
  scanCode : UInt16
  unicodeChar : UInt16
  keyShiftState : UInt32
  keyToggleState : UInt8

def SHIFT_STATE_VALID : UInt32 := 0x80000000
def RIGHT_SHIFT_PRESSED : UInt32 := 0x1
def LEFT_SHIFT_PRESSED : UInt32 := 0x2
def RIGHT_CONTROL_PRESSED : UInt32 := 0x4
def LEFT_CONTROL_PRESSED : UInt32 := 0x8
def RIGHT_ALT_PRESSED : UInt32 := 0x10
def LEFT_ALT_PRESSED : UInt32 := 0x20
def RIGHT_LOGO_PRESSED : UInt32 := 0x40
def LEFT_LOGO_PRESSED : UInt32 := 0x80
def MENU_KEY_PRESSED : UInt32 := 0x100
def SYS_REQ_PRESSED : UInt32 := 0x200
def TOGGLE_STATE_VALID : UInt8 := 0x80

/-- The left key of a pair is matched by the right one too. -/
def pairMatch (pressed : UInt32) (context key : KeyData) : Bool :=
  context.keyShiftState &&& pressed = 0 || key.keyShiftState &&& pressed ≠ 0

def shiftKeyMatch : KeyData → KeyData → Bool := pairMatch (RIGHT_SHIFT_PRESSED ||| LEFT_SHIFT_PRESSED)
def ctrlKeyMatch : KeyData → KeyData → Bool := pairMatch (RIGHT_CONTROL_PRESSED ||| LEFT_CONTROL_PRESSED)
def altKeyMatch : KeyData → KeyData → Bool := pairMatch (RIGHT_ALT_PRESSED ||| LEFT_ALT_PRESSED)
def logoKeyMatch : KeyData → KeyData → Bool := pairMatch (RIGHT_LOGO_PRESSED ||| LEFT_LOGO_PRESSED)
def menuKeyMatch : KeyData → KeyData → Bool := pairMatch MENU_KEY_PRESSED
def sysRqKeyMatch : KeyData → KeyData → Bool := pairMatch SYS_REQ_PRESSED

def keyShiftCodeMatch (context key : KeyData) : Bool :=
  context.keyShiftState &&& SHIFT_STATE_VALID = 0
    || (shiftKeyMatch context key && ctrlKeyMatch context key && altKeyMatch context key
      && logoKeyMatch context key && menuKeyMatch context key && sysRqKeyMatch context key)

def keyToggleKeyMatch (context key : KeyData) : Bool :=
  context.keyToggleState &&& TOGGLE_STATE_VALID = 0 || context.keyToggleState = key.keyToggleState

/-- A record with this context is called for the key. -/
def keyMatch (context key : KeyData) : Bool :=
  (context.scanCode = 0 || context.scanCode = key.scanCode) && context.unicodeChar = key.unicodeChar
    && keyShiftCodeMatch context key && keyToggleKeyMatch context key

/-- `KEY_WAITING_RECORD`, with the number of its registration. -/
structure KeyWaitingRecord (ν φ : Type) where
  link : ν
  context : KeyData
  callback : φ
  callbackStatus : Bool
  number : Nat

/-- What happens to the records, by their numbers. -/
inductive Occurrence where
  | registered (number : Nat)
  | unregistered (number : Nat)
  | called (number : Nat)
  deriving DecidableEq

/-- The records of `mTerminalKeyboardData`, and for each terminal whether the timer of its `TerminalKeyEvent` is
active. -/
structure Notifications (ι ν φ : Type) where
  records : List (KeyWaitingRecord ν φ)
  active : ι → Bool
  requests : Nat
  history : List Occurrence

/-- `AllocatePool`, at its n-th call and with these records in use. -/
structure Pool (ν : Type) where
  allocatePool : Nat → List ν → Option ν
  unused : ∀ n inUse a, allocatePool n inUse = some a → a ∉ inUse

inductive Status where
  | outOfResources
  | invalidParameter

section

variable {ι ν φ : Type} [DecidableEq ι] [DecidableEq ν]

def registerKeyNotify (pool : Pool ν) (s : Notifications ι ν φ) (dev : ι) (keyData : Option KeyData)
    (callback : Option φ) (notifyHandle : Bool) : Notifications ι ν φ × Except Status ν :=
  match keyData, callback, notifyHandle with
  | some keyData, some callback, true =>
    match pool.allocatePool s.requests (s.records.map (·.link)) with
    | none => ({ s with requests := s.requests + 1 }, .error .outOfResources)
    | some link =>
      ({ records := s.records ++ [⟨link, keyData, callback, false, s.requests⟩]
         active := Function.update s.active dev true
         requests := s.requests + 1
         history := s.history ++ [.registered s.requests] }, .ok link)
  | _, _, _ => (s, .error .invalidParameter)

/-- The loop over the list: the record with this link, and the list without it. -/
def deleteLoop (handle : ν) : List (KeyWaitingRecord ν φ) → Option (KeyWaitingRecord ν φ × List (KeyWaitingRecord ν φ))
  | [] => none
  | r :: records => if r.link = handle then some (r, records) else (deleteLoop handle records).map fun d => (d.1, r :: d.2)

def unRegisterKeyNotify (s : Notifications ι ν φ) (dev : ι) (handle : Option ν) : Notifications ι ν φ × Except Status Unit :=
  match handle with
  | none => (s, .error .invalidParameter)
  | some handle =>
    match deleteLoop handle s.records with
    | none => (s, .error .invalidParameter)
    | some (r, records) =>
      ({ s with records := records, active := Function.update s.active dev false, history := s.history ++ [.unregistered r.number] },
        .ok ())

/-- A call of one of the two functions. -/
inductive Edit (ι ν φ : Type) where
  | register (dev : ι) (keyData : Option KeyData) (callback : Option φ) (notifyHandle : Bool)
  | unRegister (dev : ι) (handle : Option ν)

def edit (pool : Pool ν) (s : Notifications ι ν φ) : Edit ι ν φ → Notifications ι ν φ
  | .register dev keyData callback notifyHandle => (registerKeyNotify pool s dev keyData callback notifyHandle).1
  | .unRegister dev handle => (unRegisterKeyNotify s dev handle).1

def edits (pool : Pool ν) (s : Notifications ι ν φ) (l : List (Edit ι ν φ)) : Notifications ι ν φ := l.foldl (edit pool) s

/-- What each callback does with a context, as the n-th one that is called. -/
abbrev Callbacks (ι ν φ : Type) := φ → KeyData → Nat → List (Edit ι ν φ)

def Notifications.links (s : Notifications ι ν φ) : List ν := s.records.map (·.link)

/-- `Link.pNext`. -/
def pNext (link : ν) : List (KeyWaitingRecord ν φ) → Option ν
  | [] => none
  | r :: records => if r.link = link then (records.map (·.link)).head? else pNext link records

def validateKeyRecord (link : ν) (s : Notifications ι ν φ) : Bool := s.records.any (·.link = link)

/-- The variables of `TerminalCheckKeyNotify`. `CallBackCalled` is set with the first call. -/
structure Walk (ι ν φ : Type) where
  state : Notifications ι ν φ
  terminalKeyIn : Option ν
  calls : Nat

/-- `CallbackStatus` is set, before the callback is called. -/
def setStatus (s : Notifications ι ν φ) (r : KeyWaitingRecord ν φ) : Notifications ι ν φ :=
  { s with
    records := s.records.map fun x => if x.link = r.link then { x with callbackStatus := true } else x
    history := s.history ++ [.called r.number] }

def callRecord (pool : Pool ν) (callbacks : Callbacks ι ν φ) (w : Walk ι ν φ) (r : KeyWaitingRecord ν φ) : Walk ι ν φ :=
  let s := edits pool (setStatus w.state r) (callbacks r.callback r.context w.calls)
  ⟨s, if validateKeyRecord r.link s then pNext r.link s.records else s.links.head?, w.calls + 1⟩

/-- One record. A link that leads to no record has no outcome. -/
def walkRound (pool : Pool ν) (callbacks : Callbacks ι ν φ) (key : KeyData) (w : Walk ι ν φ) :
    Option (Next (Walk ι ν φ) (Walk ι ν φ)) :=
  match w.terminalKeyIn with
  | none => some (.done w)
  | some link =>
    (w.state.records.find? (·.link = link)).map fun r =>
      if keyMatch r.context key && !r.callbackStatus then .again (callRecord pool callbacks w r)
      else .again { w with terminalKeyIn := pNext link w.state.records }

def clearStatus (s : Notifications ι ν φ) : Notifications ι ν φ :=
  { s with records := s.records.map fun x => { x with callbackStatus := false } }

def checkKeyNotify (pool : Pool ν) (callbacks : Callbacks ι ν φ) (key : KeyData) (s : Notifications ι ν φ) :
    Run (Notifications ι ν φ) := do
  let w ← Run.loop (fun w => Run.ofOption (walkRound pool callbacks key w)) ⟨s, s.links.head?, 0⟩
  return if w.calls = 0 then w.state else clearStatus w.state

/-- No terminal has registered anything. -/
def unregistered : Notifications ι ν φ := ⟨[], fun _ => false, 0, []⟩

/-- What registrations, unregistrations and keys lead to. -/
inductive Reachable (pool : Pool ν) : Notifications ι ν φ → Prop where
  | start : Reachable pool unregistered
  | edit {s : Notifications ι ν φ} (e : Edit ι ν φ) : Reachable pool s → Reachable pool (edit pool s e)
  | key {s s' : Notifications ι ν φ} {callbacks : Callbacks ι ν φ} {key : KeyData} :
    Reachable pool s → (checkKeyNotify pool callbacks key s).Returns s' → Reachable pool s'

/-! ## What is delivered -/

/-- A key is delivered, and meanwhile this happens. -/
structure Delivered (key : KeyData) (s s' : Notifications ι ν φ) (meanwhile : List Occurrence) : Prop where
  history : s'.history = s.history ++ meanwhile
  once : ∀ r ∈ s.records, keyMatch r.context key = true → .unregistered r.number ∉ meanwhile → meanwhile.count (.called r.number) = 1
  before : ∀ n l m, s'.history = l ++ .called n :: m → .unregistered n ∉ l
  statuses : ∀ r ∈ s'.records, r.callbackStatus = false

def Delivers (pool : Pool ν) (callbacks : Callbacks ι ν φ) (key : KeyData) (s : Notifications ι ν φ) : Prop :=
  ∃ s' meanwhile, (checkKeyNotify pool callbacks key s).Returns s' ∧ Delivered key s s' meanwhile

section

variable (pool : Pool ν) (callbacks : Callbacks ι ν φ) (key : KeyData)

/-- The walk comes here. -/
inductive Reached (s : Notifications ι ν φ) : Walk ι ν φ → Prop where
  | start : Reached s ⟨s, s.links.head?, 0⟩
  | again {w w' : Walk ι ν φ} : Reached s w → walkRound pool callbacks key w = some (.again w') → Reached s w'

/-- The walk stands at a record that is called next. -/
structure Calls (w : Walk ι ν φ) (r : KeyWaitingRecord ν φ) : Prop where
  here : w.terminalKeyIn = some r.link
  found : w.state.records.find? (·.link = r.link) = some r
  matching : keyMatch r.context key = true
  unmarked : r.callbackStatus = false

/-- From some call on, no callback leaves a matching record that it has registered. -/
def Settles (s : Notifications ι ν φ) : Prop :=
  ∃ n, ∀ w r, Reached pool callbacks key s w → Calls key w r → n ≤ w.calls →
    ∀ x ∈ (callRecord pool callbacks w r).state.records, keyMatch x.context key = true → x.number < w.state.requests

/-- The callback leaves another record at the address of its own, behind a matching one that is not called yet. -/
structure Skips (s : Notifications ι ν φ) (w : Walk ι ν φ) (r x : KeyWaitingRecord ν φ) : Prop where
  calls : Calls key w r
  reused : ∃ front y back, (callRecord pool callbacks w r).state.records = front ++ y :: back ∧ y.link = r.link
    ∧ y.number ≠ r.number ∧ x ∈ front
  early : x.number < s.requests
  matching : keyMatch x.context key = true
  unmarked : x.callbackStatus = false

/-- The walk goes on, and does not start again at the head of the list. -/
inductive Onward (w₀ : Walk ι ν φ) : Walk ι ν φ → Prop where
  | refl : Onward w₀ w₀
  | again {w w' : Walk ι ν φ} : Onward w₀ w → walkRound pool callbacks key w = some (.again w') →
    (∀ r, Calls key w r → r.link ∈ w'.state.links) → Onward w₀ w'

/-- A walk that has skipped a record starts again at the head, or the record is unregistered, before it ends. -/
def Recovers (s : Notifications ι ν φ) : Prop :=
  ∀ w r x w', Reached pool callbacks key s w → Skips pool callbacks key s w r x →
    Onward pool callbacks key (callRecord pool callbacks w r) w' → w'.terminalKeyIn = none →
    ∀ y ∈ w'.state.records, y.number ≠ x.number

end

/-! ## The timer -/

/-- The keys are polled exactly while a record is registered. -/
def Polled (s : Notifications ι ν φ) : Prop := (∃ dev, s.active dev = true) ↔ s.records ≠ []

def AllPolled (pool : Pool ν) : Notifications ι ν φ → List (Edit ι ν φ) → Prop
  | _, [] => True
  | s, e :: l => Polled (edit pool s e) ∧ AllPolled pool (edit pool s e) l

/-- An unregistration through this terminal leaves another one to poll exactly if it leaves a record. -/
def LeavesPolled (s : Notifications ι ν φ) : Edit ι ν φ → Prop
  | .register .. => True
  | .unRegister dev handle => ∀ link, handle = some link → link ∈ s.links →
    ((∃ other, other ≠ dev ∧ s.active other = true) ↔ ∃ link', link' ≠ link ∧ link' ∈ s.links)

def AllLeavePolled (pool : Pool ν) : Notifications ι ν φ → List (Edit ι ν φ) → Prop
  | _, [] => True
  | s, e :: l => LeavesPolled s e ∧ AllLeavePolled pool (edit pool s e) l

end

end BayTrail.Terminal.Notify
