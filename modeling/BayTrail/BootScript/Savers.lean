import BayTrail.BootScript.Defs

/-!
# The S3 boot script: the savers

The functions of `OpCodeFuncs`. Each of them checks its arguments and puts together the
structure of `BootScriptPrivate.h` for its opcode, in the layout of the compiler the
build uses: a `UINT64` field is aligned to 8 bytes. The bytes between the fields are
those of the stack (`pad`).
-/

namespace BayTrail.BootScript

open BayTrail.Lib

/-- `EFI_BOOT_SCRIPT_WIDTH`. -/
inductive Width where
  | uint8 | uint16 | uint32 | uint64
  | fifoUint8 | fifoUint16 | fifoUint32 | fifoUint64
  | fillUint8 | fillUint16 | fillUint32 | fillUint64
  deriving DecidableEq, Repr

namespace Width

def toNat : Width → Nat
  | uint8 => 0
  | uint16 => 1
  | uint32 => 2
  | uint64 => 3
  | fifoUint8 => 4
  | fifoUint16 => 5
  | fifoUint32 => 6
  | fifoUint64 => 7
  | fillUint8 => 8
  | fillUint16 => 9
  | fillUint32 => 10
  | fillUint64 => 11

end Width

/-- `1 << (Width & 3)`. -/
def valueSize (width : Nat) : Nat := 2 ^ (width % 4)

/-- `(Width & ~3) == EfiBootScriptWidthFifoUint8`. -/
def isFifo (width : Nat) : Bool := width / 4 == 1

/-- `AddressCount`. -/
def addressCount (width count : Nat) : Nat :=
  uintn (valueSize width * if isFifo width then 1 else count)

/-- `TABLE_TYPE2`, as a `UINT16`; the store of its bytes cuts it. -/
def tableType2 (opCode width : Nat) : Nat := opCode + width * 256

/-- `BitMask`. -/
def bitMask (width : Nat) : Nat := 256 ^ valueSize width - 1

/-- `Value & BitMask`. -/
def masked (width value : Nat) : Nat := value &&& bitMask width

/-! ## Checks -/

def ioRange (address size : Nat) : Bool := uintn (address + size) ≤ 0xffff

/-- No overflow. -/
def memRange (address size : Nat) : Bool := address ≤ uintn (address + size)

/-- The registers of a PCI function that can be named. -/
def pciRange (address size : Nat) : Bool := uintn (address % 256 + size) ≤ 0x100

def pciAligned (width address : Nat) : Bool :=
  !(width % 4 == 1 && address % 2 != 0) && !(2 ≤ width % 4 && address % 4 != 0)

/-! ## Structures -/

/-- A structure that starts with `Type` and `Port`, followed by `UINT64` fields. -/
def portStruct (pad : Mem) (type port : Nat) (fields : List Nat) : Bytes :=
  leBytes 2 type ++ leBytes 2 port ++ peek pad 4 4 ++ fields.flatMap (leBytes 8)

/-- A structure that starts with `Type`, followed by `UINT64` fields. -/
def typeStruct (pad : Mem) (type : Nat) (fields : List Nat) : Bytes :=
  leBytes 2 type ++ peek pad 2 6 ++ fields.flatMap (leBytes 8)

/-- Such a structure with `Segment` at its end. -/
def segmentStruct (pad : Mem) (type : Nat) (fields : List Nat) (segment : Nat) : Bytes :=
  typeStruct pad type fields ++ leBytes 2 segment ++ peek pad (10 + 8 * fields.length) 6

/-- An entry without data behind its structure. -/
def fixedEntry (header : Bytes) : Saved := ⟨header.length, header, []⟩

/-- An entry of a structure and `n` bytes of the caller's buffer. -/
def bufferEntry (header : Bytes) (buffer : Mem) (n : Nat) : Saved :=
  ⟨uintn (header.length + n), header, peek buffer 0 n⟩

section

variable (pad : Mem) (width address : Nat)

/-! ## Writes -/

/-- The savers of writes: `ok` is the check of the addresses. -/
def saveWrite (count : Nat) (buffer : Mem) (ok : Bool) (header : Bytes) : Except Status Saved :=
  if count = 0 then .error .invalidParameter
  else if !ok then .error .invalidParameter
  else .ok (bufferEntry header buffer (addressCount width count))

def bootScriptIoWrite (count : Nat) (buffer : Mem) : Except Status Saved :=
  saveWrite width count buffer (ioRange address (addressCount width count))
    (portStruct pad (tableType2 0x00 width) address [count])

def bootScriptMemWrite (count : Nat) (buffer : Mem) : Except Status Saved :=
  saveWrite width count buffer (memRange address (addressCount width count))
    (typeStruct pad (tableType2 0x02 width) [address, count])

def bootScriptPciWrite (count : Nat) (buffer : Mem) : Except Status Saved :=
  saveWrite width count buffer
    (pciAligned width address && pciRange address (addressCount width count))
    (typeStruct pad (tableType2 0x04 width) [address, count])

def saveStatePciCfg2Write (segment count : Nat) (buffer : Mem) : Except Status Saved :=
  saveWrite width count buffer
    (pciAligned width address && pciRange address (addressCount width count))
    (segmentStruct pad (tableType2 0x0B width) [address, count] segment)

/-! ## Read-modify-writes and polls -/

/-- The savers of one access. -/
def saveOne (ok : Bool) (header : Bytes) : Except Status Saved :=
  if !ok then .error .invalidParameter else .ok (fixedEntry header)

def bootScriptIoReadWrite (data mask : Nat) : Except Status Saved :=
  saveOne (ioRange address (valueSize width))
    (portStruct pad (tableType2 0x01 width) address [masked width data, masked width mask])

def bootScriptMemReadWrite (data mask : Nat) : Except Status Saved :=
  saveOne (memRange address (valueSize width))
    (typeStruct pad (tableType2 0x03 width) [address, masked width data, masked width mask])

def bootScriptPciReadWrite (data mask : Nat) : Except Status Saved :=
  saveOne (pciAligned width address && pciRange address (valueSize width))
    (typeStruct pad (tableType2 0x05 width) [address, masked width data, masked width mask])

def saveStatePciCfg2ReadWrite (segment data mask : Nat) : Except Status Saved :=
  saveOne (pciAligned width address && pciRange address (valueSize width))
    (segmentStruct pad (tableType2 0x0C width) [address, masked width data, masked width mask]
      segment)

def bootScriptIoPoll (mask result : Nat) : Except Status Saved :=
  saveOne (ioRange address (valueSize width))
    (portStruct pad (tableType2 0x80 width) address [masked width mask, masked width result])

def bootScriptMemPoll (mask result : Nat) : Except Status Saved :=
  saveOne (memRange address (valueSize width))
    (typeStruct pad (tableType2 0x81 width) [address, masked width mask, masked width result])

def bootScriptPciPoll (mask result : Nat) : Except Status Saved :=
  saveOne (pciRange address (valueSize width))
    (typeStruct pad (tableType2 0x82 width) [address, masked width mask, masked width result])

def saveStateIoPoll (result mask delay : Nat) : Except Status Saved :=
  saveOne (ioRange address (valueSize width))
    (portStruct pad (tableType2 0x0D width) address
      [masked width mask, masked width result, delay])

def saveStateMemPoll (mask result delay loopTimes : Nat) : Except Status Saved :=
  saveOne (memRange address (valueSize width))
    (typeStruct pad (tableType2 0x0E width)
      [address, masked width mask, masked width result, delay, loopTimes])

def saveStatePciCfgPoll (result mask delay : Nat) : Except Status Saved :=
  saveOne (pciRange address (valueSize width))
    (typeStruct pad (tableType2 0x0F width)
      [address, masked width mask, masked width result, delay])

def saveStatePciCfg2Poll (segment result mask delay : Nat) : Except Status Saved :=
  saveOne (pciRange address (valueSize width))
    (segmentStruct pad (tableType2 0x10 width)
      [address, masked width mask, masked width result, delay] segment)

end

/-! ## The other entries -/

/-- `BOOT_SCRIPT_SMBUS_EXECUTE_32` is packed. The data is as long as the low half of
`Length` says. -/
def bootScriptSmbusExecute (slaveAddress command operation pecCheck length : Nat) (buffer : Mem) :
    Except Status Saved :=
  .ok (bufferEntry (leBytes 2 0x06 ++ leBytes 4 slaveAddress ++ leBytes 4 command
      ++ leBytes 4 operation ++ leBytes 1 pecCheck ++ leBytes 8 length) buffer (length % 2 ^ 32))

def bootScriptStall (pad : Mem) (duration : Nat) : Except Status Saved :=
  .ok (fixedEntry (typeStruct pad 0x07 [duration]))

def bootScriptDispatch (pad : Mem) (entryPoint : Nat) : Except Status Saved :=
  .ok (fixedEntry (typeStruct pad 0x08 [entryPoint]))

def saveStateDispatch2 (pad : Mem) (entryPoint context : Nat) : Except Status Saved :=
  .ok (fixedEntry (typeStruct pad 0x09 [entryPoint, context]))

def saveStateInformation (pad : Mem) (size messagePtr : Nat) : Except Status Saved :=
  .ok (fixedEntry (leBytes 2 0x0A ++ peek pad 2 2 ++ leBytes 4 size ++ leBytes 8 messagePtr))

/-- The entry of a label of `size` bytes. -/
def labelEntry (pad : Mem) (label : Mem) (size : Nat) : Saved :=
  bufferEntry (leBytes 2 0x83 ++ peek pad 2 2 ++ leBytes 4 size) label size

/-! ## OpCodeFuncs -/

/-- An opcode with its arguments. -/
inductive Request where
  | ioWrite (width : Width) (address count : UInt64) (buffer : Mem)
  | ioReadWrite (width : Width) (address data mask : UInt64)
  | memWrite (width : Width) (address count : UInt64) (buffer : Mem)
  | memReadWrite (width : Width) (address data mask : UInt64)
  | pciWrite (width : Width) (address count : UInt64) (buffer : Mem)
  | pciReadWrite (width : Width) (address data mask : UInt64)
  | smbusExecute (slaveAddress command : UInt64) (operation : UInt32) (pecCheck : UInt8)
      (length : UInt64) (buffer : Mem)
  | stall (duration : UInt64)
  | dispatch (entryPoint : UInt64)
  | dispatch2 (entryPoint context : UInt64)
  | information (size : UInt32) (messagePtr : UInt64)
  | pciCfg2Write (width : Width) (segment : UInt16) (address count : UInt64) (buffer : Mem)
  | pciCfg2ReadWrite (width : Width) (segment : UInt16) (address data mask : UInt64)
  | ioPoll (width : Width) (address result mask delay : UInt64)
  | memPoll (width : Width) (address mask result delay loopTimes : UInt64)
  | pciCfgPoll (width : Width) (address result mask delay : UInt64)
  | pciCfg2Poll (width : Width) (segment : UInt16) (address result mask delay : UInt64)
  | oemIoPoll (width : Width) (address mask result : UInt64)
  | oemMemPoll (width : Width) (address mask result : UInt64)
  | oemPciPoll (width : Width) (address mask result : UInt64)

/-- `OpCodeFuncs[OpCode]`. -/
def opCodeFuncs (pad : Mem) : Request → Except Status Saved
  | .ioWrite w a n b => bootScriptIoWrite pad w.toNat a.toNat n.toNat b
  | .ioReadWrite w a d m => bootScriptIoReadWrite pad w.toNat a.toNat d.toNat m.toNat
  | .memWrite w a n b => bootScriptMemWrite pad w.toNat a.toNat n.toNat b
  | .memReadWrite w a d m => bootScriptMemReadWrite pad w.toNat a.toNat d.toNat m.toNat
  | .pciWrite w a n b => bootScriptPciWrite pad w.toNat a.toNat n.toNat b
  | .pciReadWrite w a d m => bootScriptPciReadWrite pad w.toNat a.toNat d.toNat m.toNat
  | .smbusExecute s c o p n b =>
    bootScriptSmbusExecute s.toNat c.toNat o.toNat p.toNat n.toNat b
  | .stall d => bootScriptStall pad d.toNat
  | .dispatch e => bootScriptDispatch pad e.toNat
  | .dispatch2 e c => saveStateDispatch2 pad e.toNat c.toNat
  | .information s p => saveStateInformation pad s.toNat p.toNat
  | .pciCfg2Write w g a n b => saveStatePciCfg2Write pad w.toNat a.toNat g.toNat n.toNat b
  | .pciCfg2ReadWrite w g a d m =>
    saveStatePciCfg2ReadWrite pad w.toNat a.toNat g.toNat d.toNat m.toNat
  | .ioPoll w a r m d => saveStateIoPoll pad w.toNat a.toNat r.toNat m.toNat d.toNat
  | .memPoll w a m r d l =>
    saveStateMemPoll pad w.toNat a.toNat m.toNat r.toNat d.toNat l.toNat
  | .pciCfgPoll w a r m d => saveStatePciCfgPoll pad w.toNat a.toNat r.toNat m.toNat d.toNat
  | .pciCfg2Poll w g a r m d =>
    saveStatePciCfg2Poll pad w.toNat a.toNat g.toNat r.toNat m.toNat d.toNat
  | .oemIoPoll w a m r => bootScriptIoPoll pad w.toNat a.toNat m.toNat r.toNat
  | .oemMemPoll w a m r => bootScriptMemPoll pad w.toNat a.toNat m.toNat r.toNat
  | .oemPciPoll w a m r => bootScriptPciPoll pad w.toNat a.toNat m.toNat r.toNat

/-- The call of a saver: `SaveStateWrite`, and `EfiBootScriptWrite` for the S3 resume
script. -/
def saveStateWrite (env : Env) (pad : Mem) (s : State) (r : Request) : Status × State :=
  match opCodeFuncs pad r with
  | .error status => (status, s)
  | .ok x => saveEntry env s x

/-! ## Insertion and labels -/

/-- `gInsertInfo` for a position: `none` is a null pointer, and a position of zero says
the beginning or the end of the table. -/
def insertInfoFor (s : State) (beforeOrAfter : Bool) (position : Option Nat) : Option InsertInfo :=
  if position.getD 0 = 0 then
    if beforeOrAfter then some ⟨true, true, atBeginning⟩
    else some ⟨false, false, s.insert.position⟩
  else if s.info.numTableEntries ≤ position.getD 0 then none
  else some ⟨true, beforeOrAfter, position.getD 0⟩

/-- `*Position = NumTableEntries - 1`. -/
def lastPosition (s : State) : Nat := uintn (s.info.numTableEntries + 2 ^ 64 - 1)

/-- `SaveStateInsert`: status, `*Position` afterwards, and the new state. -/
def saveStateInsert (env : Env) (pad : Mem) (s : State) (beforeOrAfter : Bool)
    (position : Option Nat) (r : Request) : Status × Option Nat × State :=
  match insertInfoFor s beforeOrAfter position with
  | none => (.invalidParameter, position, { s with insert := clearInsertInfo })
  | some ins =>
    let done := saveStateWrite env pad { s with insert := ins } r
    (done.1, position.map fun _ => lastPosition done.2, { done.2 with insert := clearInsertInfo })

/-- The length of the label, or `labelMaxSize + 1` when it is longer than that. -/
def labelSizeLoop (label : Mem) : Nat → Nat → Nat
  | 0, i => i
  | n + 1, i => if label i = 0 then i else labelSizeLoop label n (i + 1)

def labelSize (label : Mem) : Nat := labelSizeLoop label (labelMaxSize + 1) 0

/-- The search for the label over `n` entries from `p` on: its `UniqueIndex`. -/
def labelLoop (m : Mem) (label : Mem) (size : Nat) : Nat → Nat → Option Nat
  | 0, _ => none
  | n + 1, p =>
    if rd m 2 (p + sizeofInfo) = 0x83 ∧ rd m 4 (p + sizeofInfo + 4) = size
        ∧ peek m (p + sizeofInfo + 8) size = peek label 0 size then
      some (uniqueIndexAt m p)
    else labelLoop m label size n (p + lengthAt m p)

/-- `SaveStateLabel`; the search looks at one entry more than there are. -/
def saveStateLabel (env : Env) (pad : Mem) (s : State) (beforeOrAfter createIfNotFound : Bool)
    (position : Option Nat) (label : Option Mem) : Status × Option Nat × State :=
  match label with
  | none => (.invalidParameter, position, s)
  | some label =>
    let size := labelSize label
    if label 0 = 0 ∨ labelMaxSize ≤ size then (.invalidParameter, position, s)
    else match labelLoop s.info.mem label size (s.info.numTableEntries + 1) 0 with
      | some index =>
        if position.isSome then (.success, some index, s) else (.invalidParameter, position, s)
      | none =>
        if !createIfNotFound then (.notFound, position, s)
        else if position.any fun p => s.info.numTableEntries ≤ p then
          (.invalidParameter, position, s)
        else match insertInfoFor s beforeOrAfter position with
          | none => (.invalidParameter, position, { s with insert := clearInsertInfo })
          | some ins =>
            let done := saveEntry env { s with insert := ins } (labelEntry pad label size)
            let s' := { done.2 with insert := clearInsertInfo }
            if done.1 = .success then (.success, position.map fun _ => lastPosition s', s')
            else (done.1, position, s')

/-- `SaveStateCompare`: status, `RelativePosition`, and the new state. -/
def saveStateCompare (s : State) (position1 position2 : Nat) : Status × Option Int × State :=
  if s.info.numTableEntries < position1 ∨ s.info.numTableEntries < position2 then
    (.invalidParameter, none, s)
  else
    let cleared := { s with insert := clearInsertInfo }
    let find := fun position =>
      insertPositionInBootScript s.info ⟨s.insert.isItInsert, true, position⟩ 0
    match find position1, find position2 with
    | some (first, _), some (second, _) =>
      (.success, some (if first = second then 0 else if first < second then -1 else 1), cleared)
    | _, _ => (.invalidParameter, none, cleared)

end BayTrail.BootScript
