import BayTrail.Lib.Bytes

/-!
# The NVRAM store: record header and read access

`NVRAM.h` and the single-store half of `NvramRead.c`. A store is a memory area
with a header, a log of `NVAR` records that grows upwards from `pFirstVar` to
`pEndOfVars`, and a table of GUIDs that grows downwards from the end. All
addresses here are offsets from `NvramAddress`, so a store carries its own
`mem`. Flash erases to ones (`FLASH_ERASE_POLARITY` is 1), which fixes
`FlashEmpty`.

Loops of the source that walk the log run on fuel; a step of such a loop moves
up by at least the size of a record header, so `pEndOfVars` bounds the number
of steps.
-/

namespace BayTrail.Nvram

open BayTrail.Lib

/-! ## NVRAM.h -/

def flashEmptyByte : UInt8 := 0xFF
def flashEmptyNext : Nat := 0xFFFFFF
def flashEmptySize : Nat := 0xFFFF
def flashEmptySignature : Nat := 0xFFFFFFFF

/-- `'N'+('V'<<8)+(('A'+('R'<<8))<<16)`. -/
def nvarSignature : Nat := 0x5241564E

def flagValid : UInt8 := 0x80
def flagRuntime : UInt8 := 0x01
def flagAsciiName : UInt8 := 0x02
def flagGuid : UInt8 := 0x04
def flagDataOnly : UInt8 := 0x08
def flagExtHeder : UInt8 := 0x10
def flagHardwareErrorRecord : UInt8 := 0x20
def flagAuthWrite : UInt8 := 0x40

def allFlags : UInt8 :=
  flagValid ||| flagRuntime ||| flagAsciiName ||| flagGuid ||| flagDataOnly
    ||| flagExtHeder ||| flagHardwareErrorRecord ||| flagAuthWrite

def extFlagChecksum : UInt8 := 0x01

/-- `sizeof(NVAR)`. -/
def sizeofNvar : Nat := 10

/-- `sizeof(EFI_GUID)`. -/
def sizeofGuid : Nat := 16

/-- `EFI_FIELD_OFFSET(NVAR,size)`, `NEXT_OFFSET` and `FLAG_OFFSET`. -/
def sizeOffset : Nat := 4
def nextOffset : Nat := 6
def flagOffset : Nat := 9

/-- `MAX_NVRAM_VARIABLE_SIZE`: what a `VAR_SIZE_TYPE` can count. -/
def maxNvramVariableSize : Nat := 0xFFFF

/-! ## UEFI attributes and status codes -/

def efiNonVolatile : UInt32 := 0x01
def efiBootserviceAccess : UInt32 := 0x02
def efiRuntimeAccess : UInt32 := 0x04
def efiHardwareErrorRecord : UInt32 := 0x08
def efiAuthenticatedWriteAccess : UInt32 := 0x10
def efiTimeBasedAuthenticatedWriteAccess : UInt32 := 0x20
def efiAppendWrite : UInt32 := 0x40

/-- `UEFI23_1_AUTHENTICATED_VARIABLE_ATTRIBUTES`. -/
def authenticatedVariableAttributes : UInt32 :=
  efiAuthenticatedWriteAccess ||| efiTimeBasedAuthenticatedWriteAccess

inductive Status where
  | success | invalidParameter | unsupported | bufferTooSmall | deviceError
  | writeProtected | outOfResources | notFound | alreadyStarted | securityViolation
  deriving DecidableEq, Repr

/-- An `EFI_GUID`, as the sixteen bytes it occupies. -/
structure Guid where
  bytes : Bytes
  len : bytes.length = 16
  deriving DecidableEq

/-- A `CHAR16` string: the characters before the terminating zero. -/
structure Name where
  chars : List UInt16
  nonzero : 0 ∉ chars
  deriving DecidableEq

theorem guidZero_length : (List.replicate 16 (0 : UInt8)).length = 16 := rfl

/-- `NVRAM_STORE_FLAG_NON_VALATILE`, `_READ_ONLY` and `_DO_NOT_ENUMERATE`. -/
structure StoreFlags where
  nonVolatile : Bool
  readOnly : Bool := false
  doNotEnumerate : Bool := false
  deriving DecidableEq

/-- `NVRAM_STORE_INFO`, with the bytes it points at. -/
structure StoreInfo where
  mem : Mem
  nvramSize : Nat
  pFirstVar : Nat
  pEndOfVars : Nat
  nextGuid : Nat
  lastVarSize : Nat
  pLastReturned : Option Nat
  flags : StoreFlags

/-- `pInfo->NvramGuidsAddress - i`. -/
def StoreInfo.guidSlot (s : StoreInfo) (i : Nat) : Nat :=
  s.nvramSize - sizeofGuid - sizeofGuid * i

/-! ## Record header fields -/

def sigAt (m : Mem) (p : Nat) : Nat := rd m 4 p
def sizeAt (m : Mem) (p : Nat) : Nat := rd m 2 (p + sizeOffset)
def nextAt (m : Mem) (p : Nat) : Nat := rd m 3 (p + nextOffset)
def flagsAt (m : Mem) (p : Nat) : UInt8 := m (p + flagOffset)

/-- The test `pVar->flags & f`. -/
def hasFlag (m : Mem) (p : Nat) (f : UInt8) : Bool := flagsAt m p &&& f != 0

/-! ## Low level access routines -/

def nvGetGuid (s : StoreInfo) (p : Nat) : Bytes :=
  if hasFlag s.mem p flagGuid then peek s.mem (p + sizeofNvar) sizeofGuid
  else peek s.mem (s.guidSlot (s.mem (p + sizeofNvar)).toNat) sizeofGuid

def nvGetName (m : Mem) (p : Nat) : Nat :=
  p + sizeofNvar + (if hasFlag m p flagGuid then sizeofGuid else 1)

/-- The address of the `extsize` field. -/
def nvGetExtSize (m : Mem) (p : Nat) : Nat := p + sizeAt m p - 2

/-- The address of the `extflags` field, as the pointer arithmetic gives it. -/
def nvGetExtFlags (m : Mem) (p : Nat) : Nat :=
  nvGetExtSize m p + 2 - rd m 2 (nvGetExtSize m p)

def nvCalculateNvarChecksum (m : Mem) (p : Nat) : UInt8 :=
  if !hasFlag m p flagExtHeder || m (nvGetExtFlags m p) &&& extFlagChecksum == 0 then 0
  else
    0 - ((peek m (p + sizeofNvar) (sizeAt m p - sizeofNvar)).sum
      + (peek m (p + sizeOffset) 2).sum + flagsAt m p)

/-! ## Validation routines -/

def nvIsValid (m : Mem) (p : Nat) : Bool :=
  (flagsAt m p ^^^ ~~~flashEmptyByte) &&& flagValid != 0 && !hasFlag m p flagDataOnly

/-- The record size is one that a walk over the log may step by. -/
def sizeOk (s : StoreInfo) (p : Nat) : Bool :=
  sizeAt s.mem p != flashEmptySize && sizeofNvar < sizeAt s.mem p
    && p + sizeAt s.mem p ≤ s.pEndOfVars

def nvIsVariable (s : StoreInfo) (p : Nat) : Bool :=
  sigAt s.mem p == nvarSignature
    && flagsAt s.mem p != flashEmptyByte
    && flagsAt s.mem p &&& ~~~allFlags == 0
    && sizeOk s p
    && (nextAt s.mem p == flashEmptyNext
      || sizeAt s.mem p ≤ nextAt s.mem p && p + nextAt s.mem p ≤ s.pEndOfVars)
    && (!hasFlag s.mem p flagExtHeder
      || s.mem (nvGetExtFlags s.mem p) &&& extFlagChecksum == 0
      || !hasFlag s.mem p flagValid
      || nvCalculateNvarChecksum s.mem p == 0)

/-- The loop of `NvGetDataNvar`; `last` is `pLastVar`. -/
def dataNvarLoop (s : StoreInfo) : Nat → Option Nat → Nat → Option Nat
  | 0, last, _ => last
  | fuel + 1, last, p =>
    if nvIsVariable s p then
      if nextAt s.mem p = flashEmptyNext then some p
      else dataNvarLoop s fuel (some p) (p + nextAt s.mem p)
    else last

def nvGetDataNvar (s : StoreInfo) (p : Nat) : Option Nat :=
  dataNvarLoop s (s.pEndOfVars + 1) none p

/-- Subtraction of `UINTN`s. -/
def uintnSub (a b : Nat) : Nat := (a + 2 ^ 64 - b) % 2 ^ 64

/-- Address and size of a variable's data, found through its data record. -/
def nvGetData (s : StoreInfo) (p nameLength : Nat) : Option (Nat × Nat) :=
  (nvGetDataNvar s p).map fun q =>
    let dataOffset := sizeofNvar +
      (if hasFlag s.mem q flagDataOnly then 0
       else nameLength + (if hasFlag s.mem q flagGuid then sizeofGuid else 1))
    let extSize := if hasFlag s.mem q flagExtHeder then rd s.mem 2 (nvGetExtSize s.mem q) else 0
    (q + dataOffset, uintnSub (uintnSub (sizeAt s.mem q) dataOffset) extSize)

/-! ## Iteration routines -/

/-- The `do … while (TRUE)` of `NvGetNextNvar`: skip corrupted records of
plausible size. -/
def skipInvalidLoop (s : StoreInfo) : Nat → Nat → Option Nat
  | 0, _ => none
  | fuel + 1, p =>
    if s.pEndOfVars ≤ p then none
    else if nvIsVariable s p then some p
    else if sizeOk s p then skipInvalidLoop s fuel (p + sizeAt s.mem p)
    else none

def nvGetNextNvar (s : StoreInfo) (p : Nat) : Option Nat :=
  if s.pEndOfVars ≤ p then none
  else if nvIsVariable s p then skipInvalidLoop s (s.pEndOfVars + 1) (p + sizeAt s.mem p)
  else skipInvalidLoop s (s.pEndOfVars + 1) p

def nextValidLoop (s : StoreInfo) : Nat → Nat → Option Nat
  | 0, _ => none
  | fuel + 1, p =>
    match nvGetNextNvar s p with
    | none => none
    | some q => if nvIsValid s.mem q then some q else nextValidLoop s fuel q

def nvGetNextValid (s : StoreInfo) (p : Nat) : Option Nat :=
  nextValidLoop s (s.pEndOfVars + 1) p

def nvGetFirstValid (s : StoreInfo) : Option Nat :=
  if !nvIsVariable s s.pFirstVar then none
  else if nvIsValid s.mem s.pFirstVar then some s.pFirstVar
  else nvGetNextValid s s.pFirstVar

/-! ## Comparison routines -/

def nvAttribEq (s : StoreInfo) (p : Nat) (attributes : UInt32) : Bool :=
  hasFlag s.mem p flagRuntime == (attributes &&& efiRuntimeAccess != 0)
    && s.flags.nonVolatile == (attributes &&& efiNonVolatile != 0)
    && hasFlag s.mem p flagHardwareErrorRecord == (attributes &&& efiHardwareErrorRecord != 0)
    && hasFlag s.mem p flagAuthWrite == (attributes &&& authenticatedVariableAttributes != 0)

/-- A name does not go on with its terminator. -/
theorem toNat_ne_zero {c : UInt16} {cs : List UInt16} (h : 0 ∉ c :: cs) : c.toNat ≠ 0 := by
  intro hc
  exact h (List.mem_cons.mpr (Or.inl (UInt16.toNat_inj.mp (show (0 : UInt16).toNat = c.toNat from hc.symm))))

/-- The name comparison of `NvVarEq` over an ASCII name; the result is the
address after the terminator. -/
def asciiNameEq (m : Mem) : Nat → List UInt16 → Option Nat
  | p, [] => if m p = 0 then some (p + 1) else none
  | p, c :: cs => if (m p).toNat = c.toNat then asciiNameEq m (p + 1) cs else none

/-- The name comparison of `NvVarEq` over a Unicode name. -/
def unicodeNameEq (m : Mem) : Nat → List UInt16 → Option Nat
  | p, [] => if rd m 2 p = 0 then some (p + 2) else none
  | p, c :: cs => if rd m 2 p = c.toNat then unicodeNameEq m (p + 2) cs else none

/-- `NvVarEq`: the size of the name when name and GUID match. -/
def nvVarEq (s : StoreInfo) (p : Nat) (name : Name) (guid : Guid) : Option Nat :=
  let nameStart := nvGetName s.mem p
  let nameEnd :=
    if hasFlag s.mem p flagAsciiName then asciiNameEq s.mem nameStart name.chars
    else unicodeNameEq s.mem nameStart name.chars
  nameEnd.bind fun e => if nvGetGuid s p = guid.bytes then some (e - nameStart) else none

/-! ## High level routines that work with a single NV store -/

def findVariableLoop (s : StoreInfo) (name : Name) (guid : Guid) :
    Nat → Option Nat → Option (Nat × Nat)
  | 0, _ => none
  | _, none => none
  | fuel + 1, some p =>
    match nvVarEq s p name guid with
    | some nameSize => some (p, nameSize)
    | none => findVariableLoop s name guid fuel (nvGetNextValid s p)

/-- `NvFindVariable`: the record found and the size of its name. -/
def nvFindVariable (s : StoreInfo) (name : Name) (guid : Guid) : Option (Nat × Nat) :=
  findVariableLoop s name guid (s.pEndOfVars + 1) (nvGetFirstValid s)

def nvGetAttributesFromNvar (s : StoreInfo) (p : Nat) : UInt32 :=
  efiBootserviceAccess
    ||| (if hasFlag s.mem p flagRuntime then efiRuntimeAccess else 0)
    ||| (if s.flags.nonVolatile then efiNonVolatile else 0)
    ||| (if hasFlag s.mem p flagHardwareErrorRecord then efiHardwareErrorRecord else 0)
    ||| (if hasFlag s.mem p flagAuthWrite then
          (s.mem (nvGetExtFlags s.mem p)).toUInt32 &&& authenticatedVariableAttributes
         else 0)

/-- What a get call hands back: the status, `*Attributes`, `*DataSize` and the
bytes stored through `Data`. -/
structure GetResult where
  status : Status
  attributes : UInt32 := 0
  dataSize : Nat := 0
  data : Bytes := []
  deriving DecidableEq

/-- `NvGetVariableFromNvar`; `bufferSize` is `*DataSize` on entry. -/
def nvGetVariableFromNvar (s : StoreInfo) (p : Option Nat) (nameSize bufferSize : Nat) :
    GetResult :=
  match p with
  | none => { status := .notFound }
  | some p =>
    if !nvIsVariable s p then { status := .notFound }
    else
      let attributes := nvGetAttributesFromNvar s p
      match nvGetData s p nameSize with
      | none => { status := .notFound }
      | some (a, size) =>
        if bufferSize < size then
          { status := .bufferTooSmall, attributes := attributes, dataSize := size }
        else
          { status := .success, attributes := attributes, dataSize := size,
            data := peek s.mem a size }

def nvGetVariable (s : StoreInfo) (name : Name) (guid : Guid) (bufferSize : Nat) : GetResult :=
  match nvFindVariable s name guid with
  | none => { status := .notFound }
  | some (p, nameSize) => nvGetVariableFromNvar s (some p) nameSize bufferSize

/-! ## Service routines -/

/-- `NvInitInfoBuffer` over the area `mem` of `size` bytes. -/
def nvInitInfoBuffer (mem : Mem) (size headerSize : Nat) (flags : StoreFlags) : StoreInfo :=
  let s : StoreInfo :=
    { mem := mem, nvramSize := size, pFirstVar := headerSize, pEndOfVars := size,
      nextGuid := 0, lastVarSize := 0, pLastReturned := none, flags := flags }
  if !flags.nonVolatile then { s with pEndOfVars := headerSize }
  else
    match nvGetFirstValid s with
    | some p => { s with pFirstVar := p }
    | none => { s with pEndOfVars := headerSize }

/-- The record loop of `EnumerateStore`: the largest GUID index met and the
last record. -/
def enumerateLoop (s : StoreInfo) : Nat → Nat → Nat → Nat → Nat × Nat
  | 0, guid, last, _ => (guid, last)
  | fuel + 1, guid, _, p =>
    let guid' :=
      if flagsAt s.mem p &&& (flagDataOnly ||| flagGuid) = 0 then
        max guid (s.mem (p + sizeofNvar)).toNat
      else guid
    match nvGetNextNvar s p with
    | none => (guid', p)
    | some q => enumerateLoop s fuel guid' p q

/-- `EnumerateStore` (NvramDxe.c): find the end of the log and the next free
slot of the GUID table. -/
def enumerateStore (s : StoreInfo) : StoreInfo :=
  if !nvIsVariable s s.pFirstVar then s
  else
    let r := enumerateLoop s (s.pEndOfVars + 1) 0 s.pFirstVar s.pFirstVar
    let nextGuid := r.1 + 1
    let size := sizeAt s.mem r.2
    let e := r.2 + size
    -- an incomplete record at the end of the area is skipped, too
    let tail := sizeAt s.mem e
    if tail != flashEmptySize && e + tail + sizeofGuid * nextGuid + sizeofGuid ≤ s.nvramSize then
      { s with nextGuid := nextGuid, lastVarSize := (size + tail) % 65536, pEndOfVars := e + tail }
    else
      { s with nextGuid := nextGuid, lastVarSize := size, pEndOfVars := e }

end BayTrail.Nvram
