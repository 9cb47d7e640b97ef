import BayTrail.Lib.Postfix
import BayTrail.Lib.Loop
import BayTrail.Nvram.Defs

/-!
# Dependency expressions

`Dependency.c` of the DXE core. The dependency expression of a driver is a postfix program over the
protocols that are installed. It is evaluated again and again until it is true, and the evaluator patches
it: where a protocol has been found the opcode is replaced by one that pushes true without looking.
-/

namespace BayTrail.Dxe

open BayTrail.Lib
open BayTrail.Nvram (sizeofGuid)

/-! ## PiDependency.h and DxeMain.h -/

def EFI_DEP_BEFORE : UInt8 := 0x00
def EFI_DEP_AFTER : UInt8 := 0x01
def EFI_DEP_PUSH : UInt8 := 0x02
def EFI_DEP_AND : UInt8 := 0x03
def EFI_DEP_OR : UInt8 := 0x04
def EFI_DEP_NOT : UInt8 := 0x05
def EFI_DEP_TRUE : UInt8 := 0x06
def EFI_DEP_FALSE : UInt8 := 0x07
def EFI_DEP_END : UInt8 := 0x08
def EFI_DEP_SOR : UInt8 := 0x09
def EFI_DEP_REPLACE_TRUE : UInt8 := 0xff

def DEPEX_STACK_SIZE_INCREMENT : Nat := 0x1000

/-! ## The stack -/

/-- The evaluation stack: the values below `mDepexEvaluationStackPointer`, the last one pushed in front,
and the room up to `mDepexEvaluationStackEnd`. -/
structure DepexStack where
  values : List Bool
  room : Nat

/-- `GrowDepexStack`; `allocate n` is whether `AllocatePool` finds `n` bytes. -/
def growDepexStack (allocate : Nat → Bool) (s : DepexStack) : Option DepexStack :=
  if allocate (DEPEX_STACK_SIZE_INCREMENT + s.room) then some { s with room := DEPEX_STACK_SIZE_INCREMENT + s.room }
  else none

/-- `PushBool`. -/
def pushBool (allocate : Nat → Bool) (value : Bool) (s : DepexStack) : Option DepexStack :=
  if s.values.length = s.room then
    (growDepexStack allocate s).map fun s' => { s' with values := value :: s'.values }
  else some { s with values := value :: s.values }

/-- `PopBool`. -/
def popBool (s : DepexStack) : Option (Bool × DepexStack) :=
  match s.values with
  | [] => none
  | value :: values => some (value, { s with values := values })

/-! ## The evaluator -/

/-- `Iterator`, as an offset into the expression, the memory the expression is in and the stack. -/
structure Eval where
  iterator : Nat
  depex : Mem
  stack : DepexStack

/-- What `CoreIsSchedulable` returns and leaves behind: the expression and the room of the stack. -/
structure Verdict where
  ready : Bool
  depex : Mem
  room : Nat

def Eval.result (e : Eval) (ready : Bool) : Verdict := ⟨ready, e.depex, e.stack.room⟩

/-- The value is pushed and the iterator moves on by the length of the instruction. -/
def Eval.push (allocate : Nat → Bool) (e : Eval) (value : Bool) (stack : DepexStack) (length : Nat) : Next Eval Verdict :=
  match pushBool allocate value stack with
  | none => .done (e.result false)
  | some stack' => .again { e with iterator := e.iterator + length, stack := stack' }

/-- `PUSH`; the operand is read even where the expression ends before it does. -/
def Eval.locate (installed : Bytes → Bool) (allocate : Nat → Bool) (e : Eval) : Next Eval Verdict :=
  if installed (peek e.depex (e.iterator + 1) sizeofGuid) then
    Eval.push allocate { e with depex := poke e.depex e.iterator [EFI_DEP_REPLACE_TRUE] } true e.stack (1 + sizeofGuid)
  else e.push allocate false e.stack (1 + sizeofGuid)

/-- `AND` and `OR`, which take their operands from the top down. -/
def Eval.combine (allocate : Nat → Bool) (e : Eval) (op : Bool → Bool → Bool) : Next Eval Verdict :=
  match popBool e.stack with
  | none => .done (e.result false)
  | some (operator, stack) =>
    match popBool stack with
    | none => .done (e.result false)
    | some (operator2, stack) => e.push allocate (op operator operator2) stack 1

def Eval.negate (allocate : Nat → Bool) (e : Eval) : Next Eval Verdict :=
  match popBool e.stack with
  | none => .done (e.result false)
  | some (operator, stack) => e.push allocate (!operator) stack 1

def Eval.finish (e : Eval) : Next Eval Verdict :=
  match popBool e.stack with
  | none => .done (e.result false)
  | some (operator, _) => .done (e.result operator)

/-- The switch of `CoreIsSchedulable`. `BEFORE` and `AFTER` fall through to `SOR`, which is ignored in
front of the expression and an error elsewhere. -/
def Eval.instruction (installed : Bytes → Bool) (allocate : Nat → Bool) (e : Eval) : Next Eval Verdict :=
  let opcode := e.depex e.iterator
  if opcode = EFI_DEP_BEFORE ∨ opcode = EFI_DEP_AFTER ∨ opcode = EFI_DEP_SOR then
    if e.iterator ≠ 0 then .done (e.result false) else .again { e with iterator := e.iterator + 1 }
  else if opcode = EFI_DEP_PUSH then e.locate installed allocate
  else if opcode = EFI_DEP_AND then e.combine allocate (· && ·)
  else if opcode = EFI_DEP_OR then e.combine allocate (· || ·)
  else if opcode = EFI_DEP_NOT then e.negate allocate
  else if opcode = EFI_DEP_TRUE then e.push allocate true e.stack 1
  else if opcode = EFI_DEP_FALSE then e.push allocate false e.stack 1
  else if opcode = EFI_DEP_END then e.finish
  else if opcode = EFI_DEP_REPLACE_TRUE then e.push allocate true e.stack (1 + sizeofGuid)
  else .done (e.result false)

/-- The loop of `CoreIsSchedulable`. Each round takes a byte at least, so `DepexSize` rounds fetch
everything there is to be fetched. -/
def Eval.rounds (installed : Bytes → Bool) (allocate : Nat → Bool) (depexSize : Nat) : Nat → Eval → Verdict
  | 0, e => e.result false
  | left + 1, e =>
    if depexSize ≤ e.iterator then e.result false
    else
      match e.instruction installed allocate with
      | .again e' => Eval.rounds installed allocate depexSize left e'
      | .done v => v

/-- `CoreIsSchedulable` for a driver with a dependency expression that is neither a `BEFORE` nor an `AFTER`. -/
def evaluateDepex (installed : Bytes → Bool) (allocate : Nat → Bool) (depex : Mem) (depexSize room : Nat) : Verdict :=
  Eval.rounds installed allocate depexSize depexSize ⟨0, depex, ⟨[], room⟩⟩

end BayTrail.Dxe
