import BayTrail.Lib.Bytes
import BayTrail.Lib.Run

/-!
# The memory pool

`USB_MemAlloc` and `USB_MemFree` of `Usb.c`. The pool is made of 32-byte blocks; a status bit for each
is set as long as the block is free.
-/

namespace BayTrail.Usb.Allocator

open Lib (Mem Next poke)

/-- `MEM_PAGE_COUNT` and `MEM_BLK_COUNT`: the pool that the driver starts with. -/
def memPageCount : Nat := 8

def memBlkCount : Nat := memPageCount * 128

/-- What `gUsbData` says of a pool, with the memory that holds it and the words from the status map on. -/
structure Pool where
  memPages : Nat
  memBlkStsBytes : Nat
  memBlockStart : Nat
  memBlkSts : Nat → BitVec 32
  mem : Mem

/-- `NumBlk`, made even. -/
def evenBlocks (numBlk : Nat) : Nat := (numBlk + numBlk % 2) % 2 ^ 16

/-! ## Allocation -/

/-- `Count` and `BlkOffset`. -/
structure Scan where
  count : Nat
  blkOffset : Nat

/-- The loop over the bits of a word, with so many of them to go: the bit at which the blocks are found. -/
def scanBits (num : Nat) (temp : BitVec 32) : Nat → Scan → Option Nat × Scan
  | 0, s => (none, s)
  | k + 1, s =>
    let blkOffset := (s.blkOffset + 1) % 2 ^ 16
    if temp.getLsbD (31 - k) then
      let count := (s.count + 1) % 2 ^ 16
      if count = num then (some (31 - k), ⟨count, (blkOffset + 2 ^ 16 - count) % 2 ^ 16⟩)
      else scanBits num temp k ⟨count, blkOffset⟩
    else scanBits num temp k ⟨0, blkOffset⟩

/-- The loop over the words of a page, at `MapDwordCount`: the word and the bit. -/
def wordRound (sts : Nat → BitVec 32) (num dwords pageCount : Nat) (s : Nat × Scan) :
    Next (Nat × Scan) (Option (Nat × Nat) × Scan) :=
  if s.1 < dwords then
    let mapDwordPtr := (pageCount * dwords + s.1) % 2 ^ 16
    match scanBits num (sts mapDwordPtr) 32 s.2 with
    | (some bitCount, scan) => .done (some (mapDwordPtr, bitCount), scan)
    | (none, scan) => .again ((s.1 + 1) % 2 ^ 16, scan)
  else .done (none, s.2)

/-- The loop over the pages, at `PageCount`. -/
def pageRound (sts : Nat → BitVec 32) (num dwords memPages : Nat) (s : Nat × Scan) :
    Lib.Run (Next (Nat × Scan) (Option (Nat × Nat) × Scan)) :=
  if s.1 < memPages then do
    -- a request for more than a page goes on with what it has counted
    let scan : Scan := if num ≤ 128 then { s.2 with count := 0 } else s.2
    let found ← Lib.Run.loop (fun s' => pure (wordRound sts num dwords s.1 s')) (0, scan)
    if found.1.isSome then return .done found else return .again ((s.1 + 1) % 2 ^ 16, found.2)
  else return .done (none, s.2)

/-- The bits of a word that are not reset. -/
def allocMask (count start : Nat) : BitVec 32 :=
  let mask := if count + start < 32 then BitVec.allOnes 32 <<< (count + start) else 0
  if start ≠ 0 then mask ||| ~~~ (BitVec.allOnes 32 <<< start) else mask

/-- Where bits are reset: `Num`, `MapDwordPtr`, `BitCount` and the status map. -/
structure Clearing where
  num : Nat
  mapDwordPtr : Nat
  bitCount : Nat
  memBlkSts : Nat → BitVec 32

/-- The bits are reset from the last one backwards. -/
def clearRound (s : Clearing) : Next Clearing (Nat → BitVec 32) :=
  let count := if s.num ≤ s.bitCount + 1 then s.num else s.bitCount + 1
  let start := s.bitCount + 1 - count
  let sts := fun w => if w = s.mapDwordPtr then s.memBlkSts w &&& allocMask count start else s.memBlkSts w
  if s.num - count = 0 then .done sts
  else .again ⟨s.num - count, (s.mapDwordPtr + 2 ^ 16 - 1) % 2 ^ 16, 31, sts⟩

/-- `USB_MemAlloc`. Without a page there is a division by zero. -/
def memAlloc (p : Pool) (numBlk : Nat) : Lib.Run (Option Nat × Pool) :=
  if numBlk = 0 then pure (none, p)
  else if p.memPages = 0 then Lib.Run.ofOption none
  else do
    let num := evenBlocks numBlk
    let dwords := p.memBlkStsBytes / 4 / p.memPages
    let found ← Lib.Run.loop (pageRound p.memBlkSts num dwords p.memPages) (0, ⟨0, 0⟩)
    match found.1 with
    | none => return (none, p)
    | some (mapDwordPtr, bitCount) =>
      let sts ← Lib.Run.loop (fun s => pure (clearRound s)) ⟨num, mapDwordPtr, bitCount, p.memBlkSts⟩
      return (some (p.memBlockStart + found.2.blkOffset * 32), { p with memBlkSts := sts })

/-! ## Freeing -/

/-- So many bits are set from one on: the bit of a word that `Count + Offset` is. -/
def setBits : Nat → Nat → Nat → (Nat → BitVec 32) → Nat → BitVec 32
  | 0, _, _, sts => sts
  | n + 1, stsWord, bit, sts =>
    let sts := fun w => if w = stsWord then sts w ||| 1#32 <<< bit else sts w
    if (bit + 1) % 32 = 0 then setBits n ((stsWord + 1) % 2 ^ 16) 0 sts else setBits n stsWord (bit + 1) sts

/-- Whether a pointer is turned down. -/
def Pool.rejects (p : Pool) (ptr : Nat) : Bool :=
  ptr = 0 || ptr < p.memBlockStart || p.memBlockStart + (memBlkCount + 1) * 32 < ptr
    || memBlkCount ≤ (ptr - p.memBlockStart) % 2 ^ 16 / 32

/-- `BlkCount` is counted down before it is looked at. -/
def countDown (num : Nat) : Nat := if num = 0 then 2 ^ 16 else num

/-- `USB_MemFree` -/
def memFree (p : Pool) (ptr numBlk : Nat) : Bool × Pool :=
  if p.rejects ptr then (false, p)
  else
    let num := evenBlocks numBlk
    let blkOffset := (ptr - p.memBlockStart) % 2 ^ 16 / 32
    (true, { p with
      memBlkSts := setBits (countDown num) (blkOffset / 32) (blkOffset % 32) p.memBlkSts
      mem := poke p.mem ptr (List.replicate (num * 32) 0) })

end BayTrail.Usb.Allocator
