import BayTrail.Lib.Bytes

/-!
# PE images

`PeImage.h` and the checks that an image passes before it is hashed:
`PeCoffLoaderGetImageInfo` of `BasePeCoff.c`, which reads the image through
`DxeImageVerificationLibImageRead`, and the header checks of
`DxeImageVerificationHandler`. Offsets are from `mImageBase`. A TE image, which the
loader knows as well, is refused by the handler for its signature; it is refused here at
once.
-/

namespace BayTrail.SecureBoot

open BayTrail.Lib

/-- `mImageBase` and `mImageSize`, a `UINTN`. -/
structure Image where
  data : Mem
  size : Nat
  size_lt : size < 2 ^ 64

/-! ## Structures -/

def sizeofDosHeader : Nat := 64
def sizeofNtHeaders32 : Nat := 248
/-- `sizeof (EFI_IMAGE_OPTIONAL_HEADER_UNION)`, which is that of the PE32+ headers. -/
def sizeofHeaderUnion : Nat := 264
def sizeofDataDirectory : Nat := 8
def sizeofSectionHeader : Nat := 40
def sizeofDebugEntry : Nat := 28

def dosSignature : Nat := 0x5A4D
def ntSignature : Nat := 0x4550
def machineIa64 : Nat := 0x0200
def hdr32Magic : Nat := 0x10b
def hdr64Magic : Nat := 0x20b
def directoryEntrySecurity : Nat := 4
def directoryEntryDebug : Nat := 6
def numberOfDirectoryEntries : Nat := 16
def debugTypeCodeview : Nat := 2
def efiMaxAddress : Nat := 0xFFFFFFFF

/-- The two forms of the optional header. -/
inductive Magic where
  | hdr32 | hdr64
  deriving DecidableEq

/-- The field `NumberOfRvaAndSizes` in the optional header. -/
def Magic.numberOfRvaAndSizes : Magic → Nat
  | .hdr32 => 92
  | .hdr64 => 108

/-- The field `DataDirectory` in the optional header, which is its size without it. -/
def Magic.dataDirectory : Magic → Nat
  | .hdr32 => 96
  | .hdr64 => 112

/-- The fields of `EFI_IMAGE_SECTION_HEADER` that are looked at. -/
structure Section where
  virtualSize : Nat
  virtualAddress : Nat
  sizeOfRawData : Nat
  pointerToRawData : Nat
  deriving DecidableEq

/-- Zeroed memory. -/
def Section.zero : Section := ⟨0, 0, 0, 0⟩

def sectionAt (m : Mem) (p : Nat) : Section where
  virtualSize := rd m 4 (p + 8)
  virtualAddress := rd m 4 (p + 12)
  sizeOfRawData := rd m 4 (p + 16)
  pointerToRawData := rd m 4 (p + 20)

namespace Image

variable (img : Image)

/-- `mPeCoffHeaderOffset`: `e_lfanew` behind a DOS header. -/
def peCoffHeaderOffset : Nat :=
  if rd img.data 2 0 = dosSignature then rd img.data 4 0x3C else 0

def signature : Nat := rd img.data 4 img.peCoffHeaderOffset
def machine : Nat := rd img.data 2 (img.peCoffHeaderOffset + 4)
def numberOfSections : Nat := rd img.data 2 (img.peCoffHeaderOffset + 6)
def sizeOfOptionalHeader : Nat := rd img.data 2 (img.peCoffHeaderOffset + 20)

/-- `&OptionalHeader`. -/
def optionalHeader : Nat := img.peCoffHeaderOffset + 24

def sizeOfImage : Nat := rd img.data 4 (img.optionalHeader + 56)
def sizeOfHeaders : Nat := rd img.data 4 (img.optionalHeader + 60)

/-- `&OptionalHeader.CheckSum`. -/
def checkSum : Nat := img.optionalHeader + 64

/-- `Magic`; the one of an Itanium image is corrected. -/
def magic : Option Magic :=
  let raw := rd img.data 2 img.optionalHeader
  if img.machine = machineIa64 ∧ raw = hdr32Magic then some .hdr64
  else if raw = hdr32Magic then some .hdr32
  else if raw = hdr64Magic then some .hdr64
  else none

def numberOfRvaAndSizes (g : Magic) : Nat :=
  rd img.data 4 (img.optionalHeader + g.numberOfRvaAndSizes)

/-- `&OptionalHeader.DataDirectory[i]`. -/
def dataDirectory (g : Magic) (i : Nat) : Nat :=
  img.optionalHeader + g.dataDirectory + i * sizeofDataDirectory

/-- `DataDirectory[i].VirtualAddress`. -/
def directoryAddress (g : Magic) (i : Nat) : Nat := rd img.data 4 (img.dataDirectory g i)

/-- `DataDirectory[i].Size`. -/
def directorySize (g : Magic) (i : Nat) : Nat := rd img.data 4 (img.dataDirectory g i + 4)

/-- Where the section headers start. -/
def sectionHeaders : Nat := img.optionalHeader + img.sizeOfOptionalHeader

/-! ## The loader -/

/-- `DxeImageVerificationLibImageRead` succeeds: `n` bytes at `offset`. -/
def imageRead (offset n : Nat) : Bool :=
  if (efiMaxAddress + 2 ^ 64 - offset) % 2 ^ 64 < n then false
  else if img.size < offset + n then false
  else decide (offset < img.size)

/-- `PeCoffLoaderImageFormatSupported`. -/
def formatSupported : Bool :=
  img.machine = 0x014c || img.machine = 0x8664 || img.machine = 0x0EBC

/-- `SectionHeaderOffset`, a `UINT32`. -/
def sectionHeaderOffset : Nat := img.sectionHeaders % 2 ^ 32

/-- The checks of `PeCoffLoaderGetPeHeader` on the optional header. -/
def optionalHeaderOk (g : Magic) : Bool :=
  img.numberOfRvaAndSizes g ≤ numberOfDirectoryEntries
  && (img.sizeOfOptionalHeader + 2 ^ 32 - g.dataDirectory) % 2 ^ 32
    = img.numberOfRvaAndSizes g * sizeofDataDirectory
  && img.sectionHeaderOffset < img.sizeOfImage
  && img.numberOfSections < (img.sizeOfImage - img.sectionHeaderOffset) / sizeofSectionHeader
  && img.sectionHeaderOffset < img.sizeOfHeaders
  && img.sizeOfHeaders < img.sizeOfImage
  && img.numberOfSections ≤ (img.sizeOfHeaders - img.sectionHeaderOffset) / sizeofSectionHeader
  && img.imageRead (img.sizeOfHeaders - 1) 1

/-- The checks of `PeCoffLoaderGetPeHeader` on the security directory. -/
def securityOk (g : Magic) : Bool :=
  if directoryEntrySecurity < img.numberOfRvaAndSizes g
    ∧ img.directorySize g directoryEntrySecurity ≠ 0 then
    let address := img.directoryAddress g directoryEntrySecurity
    let size := img.directorySize g directoryEntrySecurity
    size ≤ 0xFFFFFFFF - address && img.imageRead ((address + size - 1) % 2 ^ 32) 1
  else true

/-- The loop of `PeCoffLoaderGetPeHeader` over `n` section headers. -/
def sectionsOk : Nat → Nat → Bool
  | 0, _ => true
  | n + 1, p =>
    let s := sectionAt img.data p
    img.imageRead p sizeofSectionHeader
    && (s.sizeOfRawData = 0 ||
      (img.sizeOfHeaders ≤ s.virtualAddress && img.sizeOfHeaders ≤ s.pointerToRawData
      && s.sizeOfRawData ≤ 0xFFFFFFFF - s.pointerToRawData
      && img.imageRead ((s.pointerToRawData + s.sizeOfRawData - 1) % 2 ^ 32) 1))
    && sectionsOk n ((p + sizeofSectionHeader) % 2 ^ 32)

/-- `PeCoffLoaderGetPeHeader` succeeds. -/
def peCoffLoaderGetPeHeader (g : Magic) : Bool :=
  img.imageRead 0 sizeofDosHeader
  && img.imageRead img.peCoffHeaderOffset sizeofHeaderUnion
  && img.signature = ntSignature
  && img.optionalHeaderOk g && img.securityOk g && img.formatSupported
  && img.sectionsOk img.numberOfSections img.sectionHeaderOffset

/-- Where the debug directory stands in the file, zero when no section has it: the loop of
`PeCoffLoaderGetImageInfo` over `n` section headers. -/
def debugFileOffset (rva : Nat) : Nat → Nat → Option Nat
  | 0, _ => some 0
  | n + 1, p =>
    if !img.imageRead p sizeofSectionHeader then none
    else
      let s := sectionAt img.data p
      if s.virtualAddress ≤ rva ∧ rva < (s.virtualAddress + s.virtualSize) % 2 ^ 32 then
        some (rva - s.virtualAddress + s.pointerToRawData)
      else debugFileOffset rva n (p + sizeofSectionHeader)

/-- The loop over the debug directory, of at most `fuel` entries. -/
def debugEntriesOk (start size : Nat) : Nat → Nat → Bool
  | 0, _ => true
  | fuel + 1, index =>
    if size ≤ index then true
    else if !img.imageRead (start + index) sizeofDebugEntry then false
    else if rd img.data 4 (start + index + 12) = debugTypeCodeview then true
    else debugEntriesOk start size fuel (index + sizeofDebugEntry)

/-- What `PeCoffLoaderGetImageInfo` asks of the debug directory. -/
def debugOk (g : Magic) : Bool :=
  if img.numberOfRvaAndSizes g ≤ directoryEntryDebug then true
  else
    let size := img.directorySize g directoryEntryDebug
    match img.debugFileOffset (img.directoryAddress g directoryEntryDebug) img.numberOfSections
      img.sectionHeaders with
    | none => false
    | some start =>
      start = 0 || img.debugEntriesOk start size (size / sizeofDebugEntry + 1) 0

/-- `PeCoffLoaderGetImageInfo` succeeds. -/
def peCoffLoaderGetImageInfo : Bool :=
  match img.magic with
  | none => false
  | some g => img.peCoffLoaderGetPeHeader g && img.debugOk g

/-! ## The handler -/

/-- `SecDataDir`, when the image has one of a size other than zero: address and size. -/
def secDataDir : Option (Nat × Nat) :=
  let g := img.magic.getD .hdr64
  if directoryEntrySecurity < img.numberOfRvaAndSizes g
    ∧ img.directorySize g directoryEntrySecurity ≠ 0 then
    some (img.directoryAddress g directoryEntrySecurity,
      img.directorySize g directoryEntrySecurity)
  else none

/-- The header checks of `DxeImageVerificationHandler`. -/
def headerOk : Bool :=
  img.peCoffLoaderGetImageInfo && sizeofDosHeader ≤ img.size
  && img.peCoffHeaderOffset + sizeofNtHeaders32 ≤ img.size
  && img.signature = ntSignature

/-- The handler passes the image on: its headers are in order, and so is the place of its
certificates. -/
def passedOn : Bool :=
  img.headerOk && img.secDataDir.all fun (address, size) => address + size ≤ img.size

end Image

end BayTrail.SecureBoot
