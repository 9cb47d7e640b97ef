import BayTrail.Lib.Bytes

/-!
# The flash driver

`Flash.c`: the calls of the flash protocol, with the hooks that withhold the signature of
a firmware volume while the volume is being rewritten. The functions of the flash part
(`FlashUpdate.c`) are taken to succeed; a part is what programming does to one byte.
Addresses are below 4 GiB, and `FlashDeviceBase` is a multiple of the block size.
-/

namespace BayTrail.Flash

open BayTrail.Lib

def flashBlockSize : Nat := 0x1000

/-- `BLOCK`. -/
def block (a : Nat) : Nat := a - a % flashBlockSize

/-- What programming makes of a byte: an empty byte takes the data, empty data changes
nothing, and programming is a matter of single bits, so neither order nor repetition
counts. -/
structure Part where
  /-- a byte of `FlashEmpty` -/
  empty : UInt8
  program : UInt8 → UInt8 → UInt8
  program_empty : ∀ d, program empty d = d
  empty_program : ∀ o, program o empty = o
  program_comm : ∀ o d e, program (program o d) e = program (program o e) d
  program_idem : ∀ o d, program (program o d) d = program o d

inductive Status where
  | success | unsupported
  deriving DecidableEq, Repr

/-! ## Structures -/

/-- `ROM_AREA`: `Address + FlashDeviceBase`, `Size`, and whether `Type` is
`RomAreaTypeFv`. -/
structure RomArea where
  address : Nat
  size : Nat
  isFv : Bool
  deriving DecidableEq

/-- `UPDATED_AREA_DESCRIPTOR`. -/
structure UpdatedArea where
  romArea : RomArea
  areaSize : Nat
  restoreSignature : Bool
  deriving DecidableEq

/-- `RomLayout` (empty where it is null) in front of what the driver keeps. -/
structure Driver where
  flash : Mem
  updatedArea : List UpdatedArea
  writeEnableStatus : Nat

def maxNumberOfUpdatedAreas : Nat := 10

/-- `EFI_FIELD_OFFSET`s in `EFI_FIRMWARE_VOLUME_HEADER`, and its size. -/
def fvLengthOffset : Nat := 32
def signatureOffset : Nat := 40
def attributesOffset : Nat := 44
def sizeofFvHeader : Nat := 64

/-- The bytes of `FV_SIGNATURE`. -/
def fvSignature : Bytes := [0x5F, 0x46, 0x56, 0x48]

/-- The start of the area in memory. -/
def UpdatedArea.start (v : UpdatedArea) : Nat := v.romArea.address

/-- `&Fv->Signature`. -/
def UpdatedArea.signature (v : UpdatedArea) : Nat := v.start + signatureOffset

/-- A buffer with the given bytes. -/
def bufferOf (bs : Bytes) : Mem := fun a => bs.getD a 0

/-! ## The flash part -/

section

variable (pt : Part)

/-- `FlashProgram` of `n` bytes from `data` at `q`. -/
def flashProgram (m : Mem) (p : Nat) (data : Mem) (q n : Nat) : Mem := fun a =>
  if p ≤ a ∧ a < p + n then pt.program (m a) (data (q + (a - p))) else m a

def flashEraseBlock (m : Mem) (p : Nat) : Mem := fun a =>
  if p ≤ a ∧ a < p + flashBlockSize then pt.empty else m a

def flashWriteBlock (m : Mem) (p : Nat) (data : Mem) (q : Nat) : Mem := fun a =>
  if p ≤ a ∧ a < p + flashBlockSize then data (q + (a - p)) else m a

/-! ## The functions of the driver -/

/-- `FlashDriverDeviceWriteEnable`, on the counter. -/
def deviceWriteEnable (status : Nat) : Nat := (status + 1) % 2 ^ 32

/-- `FlashDriverDeviceWriteDisable`, on the counter. -/
def deviceWriteDisable (status : Nat) : Nat := if status ≠ 0 then status - 1 else 0

/-- What a function does to the counter that enables writes and disables them. -/
def bracket (status : Nat) : Nat := deviceWriteDisable (deviceWriteEnable status)

/-- `IsClean`. -/
def isClean (m : Mem) (p n : Nat) : Bool := (List.range n).all fun k => m (p + k) == pt.empty

/-- The loop of `FlashDriverErase` over `n` blocks. -/
def eraseLoop : Nat → Mem → Nat → Mem
  | 0, m, _ => m
  | n + 1, m, p =>
    eraseLoop n (if isClean pt m p flashBlockSize then m else flashEraseBlock pt m p)
      (p + flashBlockSize)

def flashDriverErase (s : Driver) (p size : Nat) : Driver :=
  { s with
    flash := eraseLoop pt (size / flashBlockSize) s.flash p
    writeEnableStatus := bracket s.writeEnableStatus }

/-- The loop of `FlashDriverWrite` over `n` whole blocks. -/
def programLoop (data : Mem) : Nat → Mem → Nat → Nat → Mem
  | 0, m, _, _ => m
  | n + 1, m, p, q =>
    programLoop data n (flashProgram pt m p data q flashBlockSize) (p + flashBlockSize)
      (q + flashBlockSize)

/-- The bytes of `FlashDriverWrite`: up to the end of the first block, whole blocks, and
the rest. -/
def writeBytes (m : Mem) (p size : Nat) (data : Mem) : Mem :=
  let partialSize := if block p ≠ p then min (flashBlockSize - (p - block p)) size else 0
  let m := if block p ≠ p then flashProgram pt m p data 0 partialSize else m
  let p := if block p ≠ p then block p + flashBlockSize else p
  let size := size - partialSize
  let n := size / flashBlockSize
  let m := programLoop pt data n m p partialSize
  if size - n * flashBlockSize ≠ 0 then
    flashProgram pt m (p + n * flashBlockSize) data (partialSize + n * flashBlockSize)
      (size - n * flashBlockSize)
  else m

def flashDriverWrite (s : Driver) (p size : Nat) (data : Mem) : Driver :=
  { s with
    flash := writeBytes pt s.flash p size data
    writeEnableStatus := bracket s.writeEnableStatus }

/-- The loop of `FlashDriverUpdate` over `n` blocks. -/
def updateLoop (data : Mem) : Nat → Mem → Nat → Nat → Mem
  | 0, m, _, _ => m
  | n + 1, m, p, q =>
    updateLoop data n (flashWriteBlock m p data q) (p + flashBlockSize) (q + flashBlockSize)

def flashDriverUpdate (s : Driver) (p size : Nat) (data : Mem) : Driver :=
  { s with
    flash := updateLoop data (size / flashBlockSize) s.flash p 0
    writeEnableStatus := bracket s.writeEnableStatus }

/-! ## Hooks -/

/-- `BeforeErase`. -/
def beforeErase (romLayout : List RomArea) (s : Driver) (p : Nat) : Driver :=
  if romLayout = [] ∨ s.updatedArea.length = maxNumberOfUpdatedAreas then s
  else match romLayout.find? (·.address = p) with
    | none => s
    | some area =>
      if !area.isFv then s
      else
        flashDriverWrite pt { s with updatedArea := s.updatedArea ++ [⟨area, area.size, false⟩] }
          (p + signatureOffset) 4 (bufferOf (List.replicate 4 (~~~pt.empty)))

/-- `UpdatedArea[i] = UpdatedArea[NumberOfUpdatedAreas-1]; NumberOfUpdatedAreas--`. -/
def removeArea (areas : List UpdatedArea) (i : Nat) : List UpdatedArea :=
  match areas.getLast? with
  | none => areas
  | some v => (areas.set i v).dropLast

/-- The buffer starts with the header of a firmware volume. -/
def isFvHeader (size : Nat) (buffer : Mem) : Bool :=
  sizeofFvHeader ≤ size && peek buffer signatureOffset 4 == fvSignature

/-- `BeforeWrite`: the driver and the buffer. -/
def beforeWrite (s : Driver) (p size : Nat) (buffer : Mem) : Driver × Mem :=
  match s.updatedArea.findIdx? (·.start = p) with
  | none => (s, buffer)
  | some i =>
    if !isFvHeader size buffer then ({ s with updatedArea := removeArea s.updatedArea i }, buffer)
    else
      ({ s with updatedArea := s.updatedArea.modify i fun v =>
          { v with areaSize := rd buffer 8 fvLengthOffset % 2 ^ 32, restoreSignature := true } },
        poke buffer signatureOffset (List.replicate 4 pt.empty))

/-- A write of the signature. -/
def writeSignature (s : Driver) (v : UpdatedArea) : Driver :=
  flashDriverWrite pt s v.signature 4 (bufferOf fvSignature)

/-- The loop of `AfterWrite` from area `i` on; an area that is removed makes room for the
last one, which is not looked at any more. -/
def afterWriteLoop (p size : Nat) : Nat → Nat → Driver → Mem → Driver × Mem
  | 0, _, s, buffer => (s, buffer)
  | fuel + 1, i, s, buffer =>
    match s.updatedArea[i]? with
    | none => (s, buffer)
    | some v =>
      let buffer := if v.start = p then poke buffer signatureOffset fvSignature else buffer
      if v.start + v.areaSize = p + size then
        let s := writeSignature pt s v
        afterWriteLoop p size fuel (i + 1) { s with updatedArea := removeArea s.updatedArea i }
          buffer
      else afterWriteLoop p size fuel (i + 1) s buffer

/-- `AfterWrite`. -/
def afterWrite (s : Driver) (p size : Nat) (buffer : Mem) : Driver × Mem :=
  afterWriteLoop pt p size s.updatedArea.length 0 s buffer

/-- `AfterRead`. -/
def afterRead (s : Driver) (p size : Nat) (buffer : Mem) : Mem :=
  if s.writeEnableStatus = 0 then buffer
  else if (s.updatedArea.any fun v => v.start = p) && attributesOffset ≤ size then
    poke buffer signatureOffset fvSignature
  else buffer

/-! ## The protocol -/

/-- `FlashDriverReadExt`: what it puts in the buffer. -/
def flashDriverReadExt (s : Driver) (p size : Nat) (buffer : Mem) : Mem :=
  afterRead s p size (poke buffer 0 (peek s.flash p size))

def flashDriverEraseExt (romLayout : List RomArea) (s : Driver) (p size : Nat) : Status × Driver :=
  if size = 0 then (.success, s)
  else if block p ≠ p ∨ size % flashBlockSize ≠ 0 then (.unsupported, s)
  else (.success, flashDriverErase pt (beforeErase pt romLayout s p) p size)

/-- `FlashDriverWriteExt`: status, driver and the caller's buffer. -/
def flashDriverWriteExt (s : Driver) (p size : Nat) (buffer : Mem) : Status × Driver × Mem :=
  if size = 0 then (.success, s, buffer)
  else
    let (s, buffer) := beforeWrite pt s p size buffer
    (.success, afterWrite pt (flashDriverWrite pt s p size buffer) p size buffer)

def flashDriverUpdateExt (romLayout : List RomArea) (s : Driver) (p size : Nat) (buffer : Mem) :
    Status × Driver × Mem :=
  if size = 0 then (.success, s, buffer)
  else if block p ≠ p ∨ size % flashBlockSize ≠ 0 then (.unsupported, s, buffer)
  else
    let (s, buffer) := beforeWrite pt (beforeErase pt romLayout s p) p size buffer
    (.success, afterWrite pt (flashDriverUpdate s p size buffer) p size buffer)

def flashDriverDeviceWriteEnableExt (s : Driver) : Driver :=
  { s with writeEnableStatus := deviceWriteEnable s.writeEnableStatus }

/-- `FlashDriverDeviceWriteDisableExt`: the signatures that are still withheld are
written before the flash is closed. -/
def flashDriverDeviceWriteDisableExt (s : Driver) : Driver :=
  let status := deviceWriteDisable s.writeEnableStatus
  let s' := { s with writeEnableStatus := status }
  if s.writeEnableStatus ≠ 0 ∧ status = 0 then
    let s' := s.updatedArea.foldl
      (fun s v => if v.restoreSignature then writeSignature pt s v else s) s'
    { s' with updatedArea := [] }
  else s'

end

end BayTrail.Flash
