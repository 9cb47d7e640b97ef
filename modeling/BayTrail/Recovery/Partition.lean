import BayTrail.Lib.Bytes
import BayTrail.Lib.Run

/-!
# Partitions of a recovery disk

`FindNextPartition`, which goes from one partition of a disk to the next, and `ProcessFatDevice`, which
looks for the recovery file on each. The position is kept in global variables and in the sector that
has been read last into `MemBlk->Mbr`.
-/

namespace BayTrail.Recovery

open Lib (Bytes Mem peek leVal Next)

/-- The status codes that the search tells apart. -/
inductive Status where
  | success
  | notFound
  | deviceError
  deriving DecidableEq, Repr

/-! ## The device -/

/-- A disk that holds so many blocks. -/
structure Disk where
  bytes : Mem
  blockSize : Nat
  blocks : Nat

namespace Disk

def size (d : Disk) : Nat := d.blocks * d.blockSize

/-- `ReadBlocks`, which fails behind the last block. -/
def readBlocks (d : Disk) (lba size : Nat) : Option Bytes :=
  if lba * d.blockSize + size ≤ d.size then some (peek d.bytes (lba * d.blockSize) size) else none

/-- `ReadDevice`, on a volume with so large a `PartitionOffset`. -/
def readDevice (d : Disk) (partitionOffset start size : Nat) : Option Bytes :=
  let start := (start + partitionOffset) % 2 ^ 64
  let shift := if d.blockSize = 4096 then 12 else if d.blockSize = 2048 then 11 else 9
  let startLba := start / 2 ^ shift
  let startOffset := start % 2 ^ shift
  let actualSize := (startOffset + size + d.blockSize - 1) / d.blockSize * d.blockSize
  (d.readBlocks startLba actualSize).map fun readBuffer => (readBuffer.drop startOffset).take size

end Disk

/-! ## What is in a sector -/

/-- A little-endian field. -/
def field (s : Bytes) (offset width : Nat) : Nat := leVal ((s.drop offset).take width)

/-- The fields of an `MBR_PARTITION` that are looked at. -/
structure PartRec where
  osType : Nat
  startingLba : Nat
  sizeInLba : Nat
  deriving DecidableEq, Repr

def partRec (s : Bytes) (i : Nat) : PartRec where
  osType := field s (446 + 16 * i + 4) 1
  startingLba := field s (446 + 16 * i + 8) 4
  sizeInLba := field s (446 + 16 * i + 12) 4

def sig (s : Bytes) : Nat := field s 510 2

/-! The fields of a `GUID_TABLE_HEADER`. -/

def signature (s : Bytes) : Bytes := s.take 3
def startLba (s : Bytes) : Nat := field s 72 8
def entryCount (s : Bytes) : Nat := field s 80 4
def entrySize (s : Bytes) : Nat := field s 84 4

/-- `Gbr->GuidPart[i].FirstLba` -/
def firstLba (s : Bytes) (i : Nat) : Nat := field s (128 * i + 32) 8

/-- `IsFat` -/
def isFat (s : Bytes) : Bool :=
  let secPerClus := field s 13 1
  field s 11 2 ≤ 4096 && secPerClus ≠ 0 && secPerClus ≤ 128 && field s 14 2 ≠ 0 && field s 16 1 ≠ 0
    && field s 510 2 = 0xAA55 && (field s 0 1 = 0xEB || field s 0 1 = 0xE9)

/-! ## The code -/

/-- The globals of the search, with `Volume->PartitionOffset`, and of what reads the volumes. -/
structure Globals (σ : Type) where
  mbr : Bytes
  bs : Bytes
  partCount : Nat
  isMbr : Bool
  gpeCount : Nat
  partSector : Nat
  extOffset : Nat
  partitionOffset : Nat
  fat : σ

variable {σ : Type} (d : Disk)

/-- An extended partition: its table takes the place of the one at hand. -/
def enterExtended (g : Globals σ) : Status × Globals σ :=
  let startingLba := (partRec g.mbr g.partCount).startingLba
  let sector := if g.extOffset = 0 then startingLba else (g.extOffset + startingLba) % 2 ^ 32
  let g := { g with
    extOffset := if g.extOffset = 0 then startingLba else g.extOffset
    partSector := sector
    partitionOffset := 512 * sector }
  match d.readDevice g.partitionOffset 0 512 with
  | none => (.deviceError, g)
  | some s => (.success, { g with mbr := s, partCount := 0 })

/-- The record at hand: passed over when it is empty, returned otherwise. -/
def mbrEntry (g : Globals σ) : Next (Globals σ) (Option Status × Globals σ) :=
  let r := partRec g.mbr g.partCount
  if r.osType = 0 ∨ r.sizeInLba = 0 ∨ r.startingLba = 0 then
    .again { g with partCount := g.partCount + 1 }
  else
    .done (some .success, { g with
      partitionOffset := 512 * ((r.startingLba + g.partSector) % 2 ^ 32)
      partCount := g.partCount + 1 })

/-- The loop over the records of the table. -/
def mbrRound (g : Globals σ) : Next (Globals σ) (Option Status × Globals σ) :=
  if g.partCount < 4 then
    let r := partRec g.mbr g.partCount
    if r.osType = 0xEE then .done (none, { g with isMbr := false, partCount := 0 })
    else if r.osType = 5 ∨ r.osType = 15 then
      match enterExtended d g with
      | (.success, g) => mbrEntry g
      | (status, g) => .done (some status, g)
    else mbrEntry g
  else .done (none, g)

/-- The table header, and the first sector of the entries. -/
def openTable (g : Globals σ) : Status × Globals σ :=
  match d.readDevice g.partitionOffset d.blockSize 512 with
  | none => (.deviceError, g)
  | some s =>
    let g := { g with mbr := s }
    if signature s = [0x45, 0x46, 0x49] then
      let g := { g with gpeCount := entryCount s }
      if entrySize s ≠ 128 then (.notFound, g)
      else
        match d.readDevice g.partitionOffset (2 * d.blockSize) 512 with
        | none => (.deviceError, g)
        | some s => (.success, { g with mbr := s })
    else (.notFound, g)

/-- The sector with the entry at hand, when it is not there yet. -/
def turnPage (g : Globals σ) : Status × Globals σ :=
  if g.partCount % 4 = 0 ∧ g.partCount ≠ 0 then
    let g := { g with partitionOffset := 0 }
    match d.readDevice g.partitionOffset ((2 + g.partCount / 4) * d.blockSize) 512 with
    | none => (.deviceError, g)
    | some s => (.success, { g with mbr := s })
  else (.success, g)

/-- The `while` loop over the entries; each way through it returns. -/
def guidEntry (g : Globals σ) : Status × Globals σ :=
  if g.partCount < g.gpeCount then
    let i := g.partCount % 4
    match turnPage d g with
    | (.success, g) =>
      let g := { g with
        partCount := g.partCount + 1
        partitionOffset := firstLba g.mbr i * d.blockSize % 2 ^ 64 }
      (if g.partitionOffset = 0 then .notFound else .success, g)
    | (status, g) => (status, g)
  else (.notFound, g)

/-- The part for GUID partitions. -/
def findGuid (g : Globals σ) : Status × Globals σ :=
  if g.partCount = 0 then
    match openTable d g with
    | (.success, g) => guidEntry d g
    | (status, g) => (status, g)
  else guidEntry d g

/-- `FindNextPartition` behind the loop over the records, which has returned or has been left. -/
def afterRecords : Option Status × Globals σ → Status × Globals σ
  | (some status, g) => (status, g)
  | (none, g) => if g.isMbr then (.notFound, g) else findGuid d g

/-- `FindNextPartition`. The loop over the records need not end: tables may lead to each other. -/
def findNextPartition (g : Globals σ) : Lib.Run (Status × Globals σ) := do
  let exit ← if g.isMbr then Lib.Run.loop (fun g => pure (mbrRound d g)) g else pure (none, g)
  return afterRecords d exit

/-! What `ProcessFatVolume` does with a volume whose boot sector is one: `GetFatType`, the search for
files (which looks at `IsMbr`) and `GetFatData`. None of them names what the search for partitions writes. -/

variable (recover : Disk → Globals σ → Status × σ)

/-- `ProcessFatVolume` -/
def processFatVolume (g : Globals σ) : Status × Globals σ :=
  match d.readDevice g.partitionOffset 0 512 with
  | none => (.deviceError, g)
  | some s =>
    let g := { g with bs := s }
    if isFat s then
      let (status, fat) := recover d g
      (status, { g with fat := fat })
    else (.notFound, g)

/-- `ProcessFatDevice` up to its loop: what is returned at once, or where the search starts. -/
def startSearch (g : Globals σ) : Except Status (Globals σ) :=
  let (status, g) := processFatVolume d recover { g with partitionOffset := 0 }
  if status = .success then .error .success
  else
    match d.readDevice g.partitionOffset 0 512 with
    | none => .error .deviceError
    | some s =>
      if sig s ≠ 0xAA55 then .error .notFound
      else .ok { g with mbr := s, partCount := 0, partSector := 0, extOffset := 0, isMbr := true }

/-- The loop of `ProcessFatDevice`. -/
def partitionRound (g : Globals σ) : Lib.Run (Next (Globals σ) (Status × Globals σ)) := do
  let (status, g) ← findNextPartition d g
  if status = .success then
    let (status, g) := processFatVolume d recover g
    if status = .success then return .done (.success, g) else return .again g
  else return .done (.notFound, g)

/-- `ProcessFatDevice` -/
def processFatDevice (g : Globals σ) : Lib.Run Status :=
  match startSearch d recover g with
  | .error status => pure status
  | .ok g => do
    let (status, _) ← Lib.Run.loop (partitionRound d recover) g
    return status

end BayTrail.Recovery
