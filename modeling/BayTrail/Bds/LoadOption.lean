import BayTrail.Bds.Option
import BayTrail.DevicePath.Defs

/-!
# Boot options from NVRAM

`IsBootOptionValid` and `CreateBootOptionsFromNvramOption`. The variable is a buffer: what is behind its
last byte cannot be read.
-/

namespace BayTrail.Bds

open BayTrail.Lib BayTrail.DevicePath

/-! ## Fields -/

def read16 (m : Buffer) (p : Nat) : Run Nat := do
  let lo ← byte m p
  let hi ← byte m (p + 1)
  return lo.toNat + hi.toNat * 256

/-- `ReadUnaligned32`. -/
def read32 (m : Buffer) (p : Nat) : Run Nat := do
  let lo ← read16 m p
  let hi ← read16 m (p + 2)
  return lo + hi * 65536

/-- `sizeof(EFI_LOAD_OPTION)`: `Attributes` and `FilePathListLength`. -/
def loadOptionSize : Nat := 6

def readFilePathListLength (m : Buffer) (p : Nat) : Run Nat := read16 m (p + 4)

/-! ## IsBootOptionValid -/

def charRound (m : Buffer) (endOfDescription char : Nat) : Run (Next Nat Nat) := do
  let c ← read16 m char
  if c ≠ 0 ∧ char < endOfDescription then return .again (char + 2) else return .done char

/-- The loop over the nodes of the file path list: the node, and how many bytes are left. -/
def listRound (m : Buffer) (s : Nat × Nat) : Run (Next (Nat × Nat) Bool) := do
  let length ← nodeLength m s.1
  if s.2 < length then return .done false
  else if s.2 - length < headerSize then
    if s.2 - length ≠ 0 then return .done false
    else
      -- the last node must be an End-of-Device-Path node
      let entire ← isEndEntire m s.1
      return .done (entire && length = headerSize)
  else return .again (s.1 + length, s.2 - length)

def isBootOptionValid (m : Buffer) (nvramOptionSize : Nat) : Run Bool := do
  let filePathListLength ← readFilePathListLength m 0
  if filePathListLength < headerSize then return false
  else if nvramOptionSize < loadOptionSize + 2 then return false
  else if nvramOptionSize - loadOptionSize ≤ filePathListLength then return false
  else if nvramOptionSize - loadOptionSize - filePathListLength < 2 then return false
  else
    let endOfDescription := loadOptionSize + (nvramOptionSize - loadOptionSize - filePathListLength)
    let char ← Run.loop (charRound m endOfDescription) loadOptionSize
    if char = endOfDescription then return false
    else
      let dp := m.from (char + 2)
      if ← isValidDevicePath dp 0 then Run.loop (listRound dp) (0, filePathListLength) else return false

/-! ## CreateBootOptionsFromNvramOption -/

def AMI_SIMPLE_BOOT_OPTION_SIGNATURE : Nat := 0x4F420000
def AMI_GROUP_BOOT_OPTION_SIGNATURE : Nat := 0x4F470000
def AMI_NESTED_BOOT_OPTION_SIGNATURE : Nat := 0x4F4E0000

/-- `AMI_NESTED_BOOT_OPTION_HEADER_SIZE`: `Signature` and `Size`. -/
def nestedHeaderSize : Nat := 8

/-- `Wcslen` counts from here to the terminator. -/
def wcslenRound (m : Buffer) (p : Nat) (length : Nat) : Run (Next Nat Nat) := do
  let c ← read16 m (p + 2 * length)
  if c ≠ 0 then return .again (length + 1) else return .done length

def wcslen (m : Buffer) (p : Nat) : Run Nat := Run.loop (wcslenRound m p) 0

/-- The difference of two pointers, or of two sizes, in a `UINTN`. -/
def toUintn (i : Int) : Nat := (i % 2 ^ 64).toNat

/-- Where an option is, its size, and the `Priority` to give it. -/
structure NvramOption where
  position : Nat
  size : Nat
  priority : UInt32

/-- The options that are added to the list, the one itself in front, and what `Priority` is then. -/
structure Created where
  options : List BootOption
  priority : UInt32

/-- `OptionalData` and `OptionalDataSize` in the loop over the nested options. -/
structure Nested where
  optionalData : Nat
  optionalDataSize : Nat
  created : Created

def nestedRound (m : Buffer) (create : NvramOption → Run Created) (s : Nested) : Run (Next Nested Nested) := do
  if nestedHeaderSize < s.optionalDataSize then
    let signature ← read32 m s.optionalData
    if signature ≠ AMI_NESTED_BOOT_OPTION_SIGNATURE then return .done s
    else
      let size ← read32 m (s.optionalData + 4)
      if s.optionalDataSize < size then return .done s
      else
        let created ← create ⟨s.optionalData + nestedHeaderSize, toUintn ((size : Int) - nestedHeaderSize), s.created.priority⟩
        return .again ⟨s.optionalData + size, s.optionalDataSize - size, s.created.options ++ created.options, created.priority⟩
  else return .done s

/-- The optional data that are left are copied. -/
def copyOptionalData (m : Buffer) (option : BootOption) (s : Nested) : Run Created := do
  let data ← bytes m s.optionalData s.optionalDataSize
  return ⟨{ option with optionalData := data } :: s.created.options, s.created.priority⟩

/-- The option as far as its size does not matter, and where the optional data are. -/
structure Front where
  option : BootOption
  optionalData : Nat

def readFront (m : Buffer) (number : UInt16) (position : Nat) (priority : UInt32) : Run Front := do
  let attributes ← read32 m position
  let length ← wcslen m (position + loadOptionSize)
  let descriptionSize := (length + 1) * 2
  let description ← bytes m (position + loadOptionSize) descriptionSize
  let filePathListLength ← readFilePathListLength m position
  let filePathList ← bytes m (position + loadOptionSize + descriptionSize) filePathListLength
  return {
    option := { bootOptionTemplate with
      attributes := UInt32.ofNat attributes
      description := some description
      filePathList := some filePathList
      filePathListLength := filePathListLength
      bootOptionNumber := number
      priority := priority }
    optionalData := position + loadOptionSize + descriptionSize + filePathListLength }

/-- Behind a signature. -/
def Nested.skip (s : Nested) : Nested := { s with optionalData := s.optionalData + 4, optionalDataSize := s.optionalDataSize - 4 }

def readOptionalData (m : Buffer) (create : NvramOption → Run Created) (option : BootOption) (s : Nested) : Run Created := do
  if 4 ≤ s.optionalDataSize then
    let signature ← read32 m s.optionalData
    if signature = AMI_SIMPLE_BOOT_OPTION_SIGNATURE then
      copyOptionalData m { option with fwBootOption := true } s.skip
    else if signature = AMI_GROUP_BOOT_OPTION_SIGNATURE then
      let nested ← Run.loop (nestedRound m create) s.skip
      copyOptionalData m { option with fwBootOption := true, groupHeader := true } nested
    else copyOptionalData m option s
  else copyOptionalData m option s

/-- The body of `CreateBootOptionsFromNvramOption`, with what it calls for a nested option. -/
def createBody (m : Buffer) (number : UInt16) (create : NvramOption → Run Created) (nvram : NvramOption) : Run Created := do
  let front ← readFront m number nvram.position nvram.priority
  let optionalDataSize := toUintn ((nvram.position : Int) + nvram.size - front.optionalData)
  readOptionalData m create front.option
    ⟨front.optionalData, optionalDataSize, ⟨[], getNextBootOptionPriority nvram.priority⟩⟩

theorem createBody_monotone (m : Buffer) (number : UInt16) : Run.Monotone (createBody m number) := by
  intro f g hfg nvram
  have hround (s : Nested) : Run.Below (nestedRound m f s) (nestedRound m g s) := by
    refine Run.Below.ite ?_ (Run.Below.refl _)
    refine (Run.Below.refl _).bind fun signature => Run.Below.ite (Run.Below.refl _) ?_
    refine (Run.Below.refl _).bind fun size => Run.Below.ite (Run.Below.refl _) ?_
    exact (hfg _).bind fun _ => Run.Below.refl _
  refine (Run.Below.refl _).bind fun front => Run.Below.ite ?_ (Run.Below.refl _)
  refine (Run.Below.refl _).bind fun signature => Run.Below.ite (Run.Below.refl _) (Run.Below.ite ?_ (Run.Below.refl _))
  exact (Run.Below.loop hround _).bind fun _ => Run.Below.refl _

/-- `CreateBootOptionsFromNvramOption`. -/
def createBootOptionsFromNvramOption (m : Buffer) (number : UInt16) (nvram : NvramOption) : Run Created :=
  Run.recurse (createBody_monotone m number) nvram

end BayTrail.Bds
