import BayTrail.Lib.Run

/-!
# Device paths

The functions of `EfiLib.c` that read and build device paths, over the bytes that can be read from where
a pointer points to. Memory for a new path is always there.
-/

namespace BayTrail.DevicePath

open BayTrail.Lib

/-! ## Memory -/

/-- What a pointer leads to: its address, and the bytes up to the end of the caller's buffer. -/
structure Buffer where
  addr : Nat
  bytes : List UInt8

/-- The pointer moved. -/
def Buffer.from (m : Buffer) (p : Nat) : Buffer := ⟨m.addr + p, m.bytes.drop p⟩

def byte (m : Buffer) (p : Nat) : Run UInt8 := Run.ofOption m.bytes[p]?

/-- So many bytes. -/
def bytes (m : Buffer) : Nat → Nat → Run (List UInt8)
  | _, 0 => pure []
  | p, n + 1 => do
    let b ← byte m p
    let rest ← bytes m (p + 1) n
    return b :: rest

/-! ## MemCmp -/

/-- The bytes in front of the first whole word: where the comparison stands behind them. -/
def memCmpHead (m1 : Buffer) (p1 : Nat) (m2 : Buffer) (p2 : Nat) : Nat → Nat → Run Nat
  | 0, i => pure i
  | r + 1, i => do
    let d ← byte m1 (p1 + i)
    let s ← byte m2 (p2 + i)
    if d = s then memCmpHead m1 p1 m2 p2 r (i + 1) else return i

/-- `sizeof(UINTN)` bytes at a time. -/
def memCmpWords (m1 : Buffer) (p1 : Nat) (m2 : Buffer) (p2 : Nat) : Nat → Nat → Run Nat
  | 0, i => pure i
  | n + 1, i => do
    let d ← bytes m1 (p1 + i) 8
    let s ← bytes m2 (p2 + i) 8
    if d = s then memCmpWords m1 p1 m2 p2 n (i + 8) else return i

def memCmpTail (m1 : Buffer) (p1 : Nat) (m2 : Buffer) (p2 : Nat) : Nat → Nat → Run Int
  | 0, _ => pure 0
  | n + 1, i => do
    let d ← byte m1 (p1 + i)
    let s ← byte m2 (p2 + i)
    if d = s then memCmpTail m1 p1 m2 p2 n (i + 1) else return d.toInt8.toInt - s.toInt8.toInt

/-- Whole words, as long as they are equal. -/
def memCmpWhole (m1 : Buffer) (p1 : Nat) (m2 : Buffer) (p2 count : Nat) : Run Nat := do
  let r := (m1.addr + p1) % 8
  -- only if both stand in their words alike, the words of both can be aligned
  let i ← if r ≠ 0 ∧ r = (m2.addr + p2) % 8 then memCmpHead m1 p1 m2 p2 (8 - r) 0 else pure 0
  memCmpWords m1 p1 m2 p2 ((count - i) / 8) i

/-- `MemCmp` of `Memory.c`. -/
def memCmp (m1 : Buffer) (p1 : Nat) (m2 : Buffer) (p2 count : Nat) : Run Int := do
  let i ← if 8 ≤ count then memCmpWhole m1 p1 m2 p2 count else pure 0
  memCmpTail m1 p1 m2 p2 (count - i) i

/-! ## Nodes -/

/-- `sizeof(EFI_DEVICE_PATH_PROTOCOL)`. -/
def headerSize : Nat := 4

def END_DEVICE_PATH : UInt8 := 0x7F
def END_DEVICE_PATH1 : UInt8 := 0xFF
def END_INSTANCE_SUBTYPE : UInt8 := 0x01
def END_ENTIRE_SUBTYPE : UInt8 := 0xFF

/-- `NODE_LENGTH`. -/
def nodeLength (m : Buffer) (p : Nat) : Run Nat := do
  let lo ← byte m (p + 2)
  let hi ← byte m (p + 3)
  return lo.toNat + hi.toNat * 256

/-- `isEndNode`. -/
def isEndNode (m : Buffer) (p : Nat) : Run Bool := do
  let type ← byte m p
  return type = END_DEVICE_PATH || type = END_DEVICE_PATH1

/-- `isEndNode(pDp) && pDp->SubType==END_ENTIRE_SUBTYPE`. -/
def isEndEntire (m : Buffer) (p : Nat) : Run Bool := do
  if ← isEndNode m p then
    let subType ← byte m (p + 1)
    return subType = END_ENTIRE_SUBTYPE
  else
    return false

/-! ## IsValidDevicePath -/

/-- `DevicePathTypes`: `HARDWARE_DEVICE_PATH` to `BBS_DEVICE_PATH`, and the end nodes. -/
def devicePathTypes : List UInt8 := [0x01, 0x02, 0x03, 0x04, 0x05, END_DEVICE_PATH, END_DEVICE_PATH1]

/-- `MAX_DP_SIZE`. -/
def maxDpSize : Nat := 0x10000

def validRound (m : Buffer) (s : Nat × Nat) : Run (Next (Nat × Nat) Bool) := do
  if ← isEndEntire m s.1 then
    return .done true
  else
    let length ← nodeLength m s.1
    let type ← byte m s.1
    if type ∉ devicePathTypes ∨ maxDpSize < s.2 + length then
      return .done false
    else
      return .again (s.1 + length, s.2 + length)

/-- `IsValidDevicePath`: whether it returns `EFI_SUCCESS`. -/
def isValidDevicePath (m : Buffer) (p : Nat) : Run Bool := Run.loop (validRound m) (p, 0)

/-! ## DPLength -/

def lengthRound (m : Buffer) (s : Nat × Nat) : Run (Next (Nat × Nat) Nat) := do
  if ← isEndEntire m s.1 then
    return .done (s.2 + headerSize)
  else
    let length ← nodeLength m s.1
    let type ← byte m s.1
    -- zero type and zero length are illegal
    if type = 0 ∨ length = 0 then
      return .done s.2
    else
      return .again (s.1 + length, s.2 + length)

/-- `DPLength` of a pointer that is not `NULL`. -/
def dpLength (m : Buffer) (p : Nat) : Run Nat := Run.loop (lengthRound m) (p, 0)

/-! ## Nodes of the first instance -/

def endNodeRound (m : Buffer) (p : Nat) : Run (Next Nat Nat) := do
  if ← isEndNode m p then
    return .done p
  else
    let length ← nodeLength m p
    return .again (p + length)

def dpGetEndNode (m : Buffer) (p : Nat) : Run Nat := Run.loop (endNodeRound m) p

def lastNodeRound (m : Buffer) (s : Nat × Option Nat) : Run (Next (Nat × Option Nat) (Option Nat)) := do
  if ← isEndNode m s.1 then
    return .done s.2
  else
    let length ← nodeLength m s.1
    return .again (s.1 + length, some s.1)

def dpGetLastNode (m : Buffer) (p : Nat) : Run (Option Nat) := Run.loop (lastNodeRound m) (p, none)

/-! ## New paths -/

/-- `EndOfDevicePathNode`. -/
def endOfDevicePathNode : List UInt8 := [END_DEVICE_PATH, END_ENTIRE_SUBTYPE, 4, 0]

/-- The length without the end node. It wraps if the data are junk, and the copy leaves the memory. -/
def frontLength (l : Nat) : Run Nat := Run.ofOption (if headerSize ≤ l then some (l - headerSize) else none)

/-- `DPCopy` of a pointer that is not `NULL`. -/
def dpCopy (m : Buffer) : Run (List UInt8) := do
  let l ← dpLength m 0
  bytes m 0 l

/-- `DPAddNode`. -/
def dpAddNode (m1 m2 : Option Buffer) : Run (List UInt8) :=
  match m1, m2 with
  | none, none => pure endOfDevicePathNode
  | some m1, none => dpCopy m1
  | none, some m2 => do
    let l2 ← nodeLength m2 0
    let node ← bytes m2 0 l2
    return node ++ endOfDevicePathNode
  | some m1, some m2 => do
    let l ← dpLength m1 0
    let l1 ← frontLength l
    let l2 ← nodeLength m2 0
    let front ← bytes m1 0 l1
    let node ← bytes m2 0 l2
    return front ++ node ++ endOfDevicePathNode

/-- `DPAdd`. -/
def dpAdd (m1 m2 : Option Buffer) : Run (List UInt8) :=
  match m1, m2 with
  | none, none => pure endOfDevicePathNode
  | none, some m2 => dpCopy m2
  | some m1, none => dpCopy m1
  | some m1, some m2 => do
    let l ← dpLength m1 0
    let l1 ← frontLength l
    let l2 ← dpLength m2 0
    let front ← bytes m1 0 l1
    let back ← bytes m2 0 l2
    return front ++ back

/-- `DPAddInstance` if there is a second path. -/
def dpAddInstance (m1 : Option Buffer) (m2 : Buffer) : Run (List UInt8) :=
  match m1 with
  | none => dpCopy m2
  | some m1 => do
    let l1 ← dpLength m1 0
    let l2 ← dpLength m2 0
    let front ← bytes m1 0 l1
    -- the sub type of the end node in front
    let pEnd ← frontLength l1
    let back ← bytes m2 0 l2
    return front.set (pEnd + 1) END_INSTANCE_SUBTYPE ++ back

/-- `DPCut` of a pointer that is not `NULL`. Without a node the length of the copy wraps. -/
def dpCut (m : Buffer) : Run (Option (List UInt8)) := do
  let last ← dpGetLastNode m 0
  let len ← Run.ofOption last
  if len = 0 then return none
  else
    let front ← bytes m 0 len
    return some (front ++ endOfDevicePathNode)

/-! ## Instances -/

/-- `DPNextInstance`: the bytes of the instance, and where `*ppDp` points to. -/
def dpNextInstance (m : Buffer) (p : Nat) : Run (List UInt8 × Option Nat) := do
  let pEnd ← dpGetEndNode m p
  let size := pEnd + headerSize - p
  let instance' ← bytes m p size
  let subType ← byte m (pEnd + 1)
  let next := if subType = END_ENTIRE_SUBTYPE then none else some (pEnd + headerSize)
  return (instance'.set (size - headerSize + 1) END_ENTIRE_SUBTYPE, next)

/-! ## Comparing -/

/-- `DPCmp`. -/
def dpCmp (m1 m2 : Option Buffer) : Run Int :=
  match m1, m2 with
  | none, none => pure 0
  | none, some _ => pure (-1)
  | some _, none => pure (-1)
  | some m1, some m2 => do
    let len ← dpLength m1 0
    let len2 ← dpLength m2 0
    if len2 ≠ len then return -1 else memCmp m1 0 m2 0 len

/-- The two loops of `DPIsOneOf`: over the nodes of both paths, and to the end of the instance. -/
inductive IsOneOf where
  | compare (pPath pAll : Nat)
  | skip (pAll : Nat)

/-- The condition of the first loop. -/
def sameNode (all : Buffer) (pAll : Nat) (one : Buffer) (pPath : Nat) : Run Bool := do
  let l1 ← nodeLength one pPath
  let l2 ← nodeLength all pAll
  if l1 = l2 then
    if ← isEndNode one pPath then return false
    else
      let r ← memCmp one pPath all pAll l2
      return r = 0
  else return false

def isOneOfRound (all one : Buffer) (exactMatch : Bool) : IsOneOf → Run (Next IsOneOf Bool)
  | .compare pPath pAll => do
    if ← sameNode all pAll one pPath then
      let l1 ← nodeLength one pPath
      let l2 ← nodeLength all pAll
      return .again (.compare (pPath + l1) (pAll + l2))
    else if ← isEndNode all pAll then
      if !exactMatch then return .done true
      else if ← isEndNode one pPath then return .done true
      else return .again (.skip pAll)
    else return .again (.skip pAll)
  | .skip pAll => do
    if ← isEndNode all pAll then
      let subType ← byte all (pAll + 1)
      if subType = END_ENTIRE_SUBTYPE then return .done false
      else return .again (.compare 0 (pAll + headerSize))
    else
      let l ← nodeLength all pAll
      return .again (.skip (pAll + l))

/-- `DPIsOneOf`. -/
def dpIsOneOf (all one : Buffer) (exactMatch : Bool) : Run Bool :=
  Run.loop (isOneOfRound all one exactMatch) (.compare 0 0)

end BayTrail.DevicePath
