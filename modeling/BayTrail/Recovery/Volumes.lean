import BayTrail.Recovery.Partition

/-!
# Conforming disks

What partitions a disk has, by the table in its first sector, the chain of tables in the extended
partition, or the GUID entries. An unused record is not marked as anything, and all sector numbers of
a record table have 32 bits.
-/

namespace BayTrail.Recovery

open Lib (Bytes peek rd)

/-! ## Records -/

namespace PartRec

def Extended (r : PartRec) : Prop := r.osType = 5 ∨ r.osType = 15

def Empty (r : PartRec) : Prop := r.osType = 0 ∨ r.sizeInLba = 0

instance (r : PartRec) : Decidable r.Empty := inferInstanceAs (Decidable (_ ∨ _))

/-- A record of no partition, or of one that does not hold others; it counts from a sector. -/
structure Plain (r : PartRec) (base : Nat) : Prop where
  type : ¬ r.Extended ∧ r.osType ≠ 0xEE
  start : ¬ r.Empty → r.startingLba ≠ 0 ∧ base + r.startingLba < 2 ^ 32

/-- A record of no partition. -/
structure Vacant (r : PartRec) : Prop where
  type : ¬ r.Extended ∧ r.osType ≠ 0xEE
  empty : r.Empty

end PartRec

namespace Disk

variable (d : Disk)

def sectorAt (p : Nat) : Bytes := peek d.bytes p 512

/-- The record table of a sector. -/
def table (sector : Nat) : Bytes := d.sectorAt (d.blockSize * sector)

/-- The partition of a record that counts from a sector. -/
def starts (base : Nat) (r : PartRec) : List Nat :=
  if r.Empty then [] else [d.blockSize * (base + r.startingLba)]

/-- The logical partitions from the table of a sector on, in the extended partition at `ext`. -/
inductive Logicals (ext : Nat) : Nat → List Nat → Prop
  | last {sector : Nat} (hdisk : sector < d.blocks) (h0 : (partRec (d.table sector) 0).Plain sector)
      (h1 : (partRec (d.table sector) 1).Vacant) (h2 : (partRec (d.table sector) 2).Vacant)
      (h3 : (partRec (d.table sector) 3).Vacant) :
      Logicals ext sector (d.starts sector (partRec (d.table sector) 0))
  | link {sector : Nat} {l : List Nat} (hdisk : sector < d.blocks)
      (h0 : (partRec (d.table sector) 0).Plain sector) (h1 : (partRec (d.table sector) 1).Extended)
      (hsector : ext + (partRec (d.table sector) 1).startingLba < 2 ^ 32)
      (hnext : Logicals ext (ext + (partRec (d.table sector) 1).startingLba) l) :
      Logicals ext sector (d.starts sector (partRec (d.table sector) 0) ++ l)

variable {ext sector : Nat} {l : List Nat}

theorem Logicals.sector_lt {d : Disk} (h : d.Logicals ext sector l) :
    sector < d.blocks := by
  cases h with
  | last hdisk => exact hdisk
  | link hdisk => exact hdisk

theorem Logicals.type {d : Disk} (h : d.Logicals ext sector l) :
    ¬ (partRec (d.table sector) 0).Extended ∧ (partRec (d.table sector) 0).osType ≠ 0xEE := by
  cases h with
  | last hdisk h0 => exact h0.type
  | link hdisk h0 => exact h0.type

/-- The partitions of the first table from a record on. -/
inductive Slots : Nat → List Nat → Prop
  | done : Slots 4 []
  | plain {i : Nat} {l : List Nat} (hi : i < 4) (hr : (partRec (d.table 0) i).Plain 0) (hrest : Slots (i + 1) l) :
      Slots i (d.starts 0 (partRec (d.table 0) i) ++ l)
  | extended {i : Nat} {l : List Nat} (hi : i < 4) (hr : (partRec (d.table 0) i).Extended)
      (hstart : (partRec (d.table 0) i).startingLba ≠ 0)
      (hlogicals : d.Logicals (partRec (d.table 0) i).startingLba (partRec (d.table 0) i).startingLba l)
      (hrest : ∀ k, i < k → k < 4 → (partRec (d.table 0) k).Plain 0) :
      Slots i (l ++ (List.range' (i + 1) (3 - i)).flatMap fun k => d.starts 0 (partRec (d.table 0) k))

/-- A disk with blocks that `ReadDevice` can address. -/
structure Addressable : Prop where
  blockSize : d.blockSize = 512 ∨ d.blockSize = 2048 ∨ d.blockSize = 4096
  blocks : 0 < d.blocks
  size : d.size < 2 ^ 64
  sig : sig (d.table 0) = 0xAA55

/-- A conforming MBR disk, with the offsets of its partitions. -/
structure MbrDisk (l : List Nat) : Prop extends d.Addressable where
  slots : d.Slots 0 l

/-! ## GUID partitions -/

/-- Where the table header is. -/
def header : Nat := d.blockSize

def entriesLba : Nat := rd d.bytes 8 (d.header + 72)
def entries : Nat := rd d.bytes 4 (d.header + 80)

/-- Where an entry is. -/
def entry (i : Nat) : Nat := d.blockSize * d.entriesLba + 128 * i

def entryLba (i : Nat) : Nat := rd d.bytes 8 (d.entry i + 32)

/-- An entry with a type. -/
def Used (i : Nat) : Prop := peek d.bytes (d.entry i) 16 ≠ List.replicate 16 0

instance (i : Nat) : Decidable (d.Used i) := inferInstanceAs (Decidable (_ ≠ _))

/-- The partitions of so many entries from one on. -/
def guids (i n : Nat) : List Nat :=
  ((List.range' i n).filter fun i => d.Used i).map fun i => d.blockSize * d.entryLba i

/-- A conforming GPT disk with 128-byte entries, with the offsets of its partitions. -/
structure GptDisk (l : List Nat) : Prop extends d.Addressable where
  protective : ∃ k, k < 4 ∧ (partRec (d.table 0) k).osType = 0xEE
    ∧ ∀ j, j < 4 → j ≠ k → (partRec (d.table 0) j).Vacant
  signature : peek d.bytes d.header 8 = [0x45, 0x46, 0x49, 0x20, 0x50, 0x41, 0x52, 0x54]
  entrySize : rd d.bytes 4 (d.header + 84) = 128
  entriesFrom : 2 ≤ d.entriesLba
  entriesTo : d.blockSize * d.entriesLba + 128 * d.entries ≤ d.size
  onDisk : d.entriesLba < d.blocks
  used : ∀ i, i < d.entries → d.Used i → d.entryLba i ≠ 0 ∧ d.entryLba i < d.blocks
  partitions : l = d.guids 0 d.entries

/-- A conforming disk. -/
def Partitioned (l : List Nat) : Prop := d.MbrDisk l ∨ d.GptDisk l

end Disk

end BayTrail.Recovery
