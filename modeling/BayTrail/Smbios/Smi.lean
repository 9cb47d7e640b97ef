import BayTrail.Lib.Guarded

/-!
# The SMI handler of the SMBIOS editor

`SmiHandler` and `CheckAddress` of `SmbiosDmiEdit.c` (as they are from version 25 of the module
package on, with both kinds of tables), and the functions of `SmbiosDmiEditFunc.c` that they lead to:
what they read and write through the pointers of the caller. The table is a list of structures. Nothing is
assumed of `AmiValidateMemoryBuffer` and of the setters for the single types (`Setters`).
-/

namespace BayTrail.Smbios

open BayTrail.Lib

inductive Status where
  | success
  | functionNotSupported
  | invalidHandle
  | badParameter

/-- A structure: its header, and what follows with the two zeros at the end. -/
structure Structure where
  type : UInt8
  length : UInt8
  handle : UInt16
  rest : List UInt8

def Structure.bytes (s : Structure) : List UInt8 :=
  s.type :: s.length :: (Guarded.bytesOf 2 s.handle.toNat ++ s.rest)

/-- An entry point, with the table that it leads to. -/
structure EntryPoint where
  tableAddress : UInt64
  table : List Structure

/-- `SmbiosTableEntryPoint`, `SmbiosV3TableEntryPoint` and the other variables of the driver. -/
structure Driver where
  tableEntryPoint : Option EntryPoint
  v3TableEntryPoint : Option EntryPoint
  smb2xTablePhysAddress : UInt64
  smb3xTablePhysAddress : UInt64
  maximumBufferSize : UInt16

/-- `PnPFn52AddStructure`, `PnPFn52DeleteStructure` and the setters for the types that the build has. -/
structure Setters where
  addStructure : UInt64 → Bool → Guarded Status
  deleteStructure : UInt64 → Bool → Guarded Status
  setType : UInt8 → Option (UInt16 → UInt64 → Bool → Guarded Status)

/-! ## The check -/

/-- `AmiValidateMemoryBuffer` for one byte: the status is an error. -/
def refused (address : UInt64) : Guarded Bool := .ask address 1 fun ok => pure (!ok)

/-- The pointers at these places of the parameter block. All of them are asked for. -/
def pointersRefused (width : Nat) (address : UInt64) : List UInt64 → Guarded Bool
  | [] => pure false
  | offset :: offsets => do
    let p ← Guarded.readBytes width (address + offset)
    let r ← refused (UInt64.ofNat p)
    let rs ← pointersRefused width address offsets
    return r || rs

def v3Pointers (subFunction : UInt8) : List UInt64 :=
  if subFunction = 0x58 then [2, 10, 18, 26, 34]
  else if subFunction = 0x59 then [2, 10]
  else []

/-- The sub-function is the first byte of the block. -/
def v3Refused (address : UInt64) : Guarded Bool := .read address fun subFunction => pointersRefused 8 address (v3Pointers subFunction)

/-- The `switch` of `CheckAddress`. -/
def functionRefused (address : UInt64) (function : UInt8) : Guarded Bool :=
  if function = 0x50 then pointersRefused 4 address [2, 6, 10, 14, 18]
  else if function = 0x51 then do
    let r ← pointersRefused 4 address [2, 6]
    -- this case has no break
    let r' ← v3Refused address
    return r || r'
  else if function = 0x53 then v3Refused address
  else return false

def checkAddress (address : UInt64) (function : UInt8) : Guarded Bool := do
  let r ← refused address
  if r then return true else functionRefused address function

/-! ## Information -/

def getNumberOfStructures : List Structure → Nat
  | [] => 1
  | s :: table => if s.type = 127 then 1 else getNumberOfStructures table + 1

def getLargestStructureSize : List Structure → Nat
  | [] => 0
  | s :: table => if s.type = 127 then 0 else max (s.bytes.length % 65536) (getLargestStructureSize table)

/-- One result through the pointer at this place of the parameter block. -/
def putResult (width : Nat) (address : UInt64) (size value : Nat) : Guarded Unit := do
  let p ← Guarded.readBytes width address
  Guarded.writeBytes size (UInt64.ofNat p) value

def getInfo (width : Nat) (fields : Nat → UInt64) (entryPoint : Option EntryPoint) (revision : Nat) (tablePhysAddress : UInt64)
    (maximumBufferSize : UInt16) (p : UInt64) : Guarded Status :=
  match entryPoint with
  | none => pure .functionNotSupported
  | some entryPoint => do
    putResult width (p + fields 0) 1 revision
    putResult width (p + fields 1) 2 (getNumberOfStructures entryPoint.table)
    putResult width (p + fields 2) 2 (getLargestStructureSize entryPoint.table)
    putResult width (p + fields 3) width entryPoint.tableAddress.toNat
    putResult width (p + fields 3) width (if tablePhysAddress ≠ 0 then tablePhysAddress.toNat else entryPoint.tableAddress.toNat)
    putResult width (p + fields 4) 2 maximumBufferSize.toNat
    return .success

/-- The place of the pointer with this number in a parameter block: behind `Function`. -/
def fieldAt (width i : Nat) : UInt64 := UInt64.ofNat (2 + width * i)

def getSmbiosV2Info (d : Driver) : UInt64 → Guarded Status :=
  getInfo 4 (fieldAt 4) d.tableEntryPoint 0x30 d.smb2xTablePhysAddress d.maximumBufferSize

def getSmbiosV3Info (d : Driver) : UInt64 → Guarded Status :=
  getInfo 8 (fieldAt 8) d.v3TableEntryPoint 0x30 d.smb3xTablePhysAddress d.maximumBufferSize

/-! ## A structure -/

/-- The loop over the table: the caller's handle becomes the one of the next structure. -/
def findLoop (handle : UInt64) : List Structure → Guarded (Option Structure)
  | [] => pure none
  | s :: table => do
    let h ← Guarded.readBytes 2 handle
    if s.handle.toNat = h then do
      let next := if s.type = 127 then none else table.head?
      Guarded.writeBytes 2 handle (next.elim 0xffff (·.handle.toNat))
      return some s
    else findLoop handle table

def getStructureByHandleThenUpdateHandle (d : Driver) (handle : UInt64) : Guarded (Option Structure) :=
  match d.tableEntryPoint with
  | none => .fault
  | some entryPoint => do
    let h ← Guarded.readBytes 2 handle
    if h = 0 then do
      Guarded.writeBytes 2 handle (entryPoint.table.tail.head?.elim 0xffff (·.handle.toNat))
      return entryPoint.table.head?
    else findLoop handle entryPoint.table

def getStructure (width : Nat) (entryPoint : Option EntryPoint) (d : Driver) (p : UInt64) : Guarded Status :=
  if entryPoint.isNone then pure .functionNotSupported
  else do
    let handle ← Guarded.readBytes width (p + fieldAt width 0)
    let found ← getStructureByHandleThenUpdateHandle d (UInt64.ofNat handle)
    match found with
    | none => return .invalidHandle
    | some s => do
      let dest ← Guarded.readBytes width (p + fieldAt width 1)
      Guarded.writeAll (UInt64.ofNat dest) s.bytes
      return .success

def getSmbiosV2Structure (d : Driver) : UInt64 → Guarded Status := getStructure 4 d.tableEntryPoint d

def getSmbiosV3Structure (d : Driver) : UInt64 → Guarded Status := getStructure 8 d.v3TableEntryPoint d

/-! ## Setting a structure -/

/-- `GetStructureByHandle`. -/
def getStructureByHandle (handle : Nat) : List Structure → Option Structure
  | [] => none
  | s :: table =>
    if s.type = 127 then none else if s.handle.toNat = handle then some s else getStructureByHandle handle table

/-- The end of `SetSmbiosStructure`: the header has to be that of the structure. -/
def setField (d : Driver) (setters : Setters) (data : UInt64) (handle : Nat) (dryRun : Bool) : Guarded Status :=
  match d.tableEntryPoint with
  | none => .fault
  | some entryPoint =>
    match getStructureByHandle handle entryPoint.table with
    | none => pure .invalidHandle
    | some s => do
      let header ← Guarded.readBytes 2 (data + 12)
      if header ≠ s.type.toNat + 256 * s.length.toNat then return .badParameter
      else do
        let type ← Guarded.read (data + 12) pure
        match setters.setType type with
        | none => return .badParameter
        | some set => set (UInt16.ofNat handle) data dryRun

/-- `SetSmbiosStructure`; `dryRun` is the lowest bit of `Control`. -/
def setSmbiosStructure (d : Driver) (setters : Setters) (data : UInt64) (control : UInt8) : Guarded Status := do
  let dryRun := control &&& 1 ≠ 0
  let handle ← Guarded.readBytes 2 (data + 14)
  let command ← Guarded.readBytes 1 data
  if command = 3 then setters.addStructure data dryRun
  else do
    let command ← Guarded.readBytes 1 data
    if command = 4 then setters.deleteStructure data dryRun
    else setField d setters data handle dryRun

def setStructure (width : Nat) (entryPoint : Option EntryPoint) (d : Driver) (setters : Setters) (p : UInt64) : Guarded Status :=
  if entryPoint.isNone then pure .functionNotSupported
  else do
    let data ← Guarded.readBytes width (p + fieldAt width 0)
    let control ← Guarded.read (p + fieldAt width 2) pure
    setSmbiosStructure d setters (UInt64.ofNat data) control

def setSmbiosV2Structure (d : Driver) : Setters → UInt64 → Guarded Status := setStructure 4 d.tableEntryPoint d

def setSmbiosV3Structure (d : Driver) : Setters → UInt64 → Guarded Status := setStructure 8 d.v3TableEntryPoint d

/-! ## The handler -/

def v3SubFunction (d : Driver) (setters : Setters) (address : UInt64) (subFunction : UInt8) : Guarded Status :=
  if subFunction = 0x58 then getSmbiosV3Info d address
  else if subFunction = 0x59 then getSmbiosV3Structure d address
  else if subFunction = 0x5a then setSmbiosV3Structure d setters address
  else pure .functionNotSupported

/-- The `switch` of the handler. -/
def dmiFunction (d : Driver) (setters : Setters) (address : UInt64) (function : UInt8) : Guarded Status :=
  if function = 0x50 then getSmbiosV2Info d address
  else if function = 0x51 then getSmbiosV2Structure d address
  else if function = 0x52 then setSmbiosV2Structure d setters address
  else if function = 0x53 then .read address (v3SubFunction d setters address)
  else pure .functionNotSupported

/-- `rbx` is the lower half of the register, the upper one is cleared. -/
def smiHandler (d : Driver) (setters : Setters) (rbx : UInt32) (function : UInt8) : Guarded Status := do
  let r ← checkAddress rbx.toUInt64 function
  if r then return .badParameter
  else dmiFunction d setters rbx.toUInt64 function

end BayTrail.Smbios
