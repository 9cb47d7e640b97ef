import BayTrail.Lib.Intervals
import Mathlib

/-!
# Pages of SMRAM

`Page.c` of the SMM core. A `FREE_PAGE_LIST` stands in the first of its pages, so that the list of them
is one of intervals of page numbers, in the order of the addresses. What the functions are for is said
of the set of the free pages.
-/

namespace BayTrail.Smm.Pages

open BayTrail.Lib BayTrail.Lib.Interval

/-- The arithmetic of a `UINTN`. -/
def uintn (n : Nat) : Nat := n % 2 ^ 64

def EFI_PAGE_SIZE : Nat := 0x1000

def pagesToSize (n : Nat) : Nat := uintn (n * EFI_PAGE_SIZE)

/-- The address of a `FREE_PAGE_LIST`. -/
def address (pages : Interval) : Nat := pages.first * EFI_PAGE_SIZE

inductive EfiStatus where
  | success | invalidParameter | notFound | outOfResources
  deriving DecidableEq

inductive AllocateType where
  | anyPages | maxAddress | address
  deriving DecidableEq

/-! ## Allocation -/

/-- `InternalAllocPagesOnOneNode`: the address, and what is left of the node. -/
def internalAllocPagesOnOneNode (pages : Interval) (numberOfPages maxAddress : Nat) : Nat × List Interval :=
  let top := min (uintn (maxAddress + 1 + (2 ^ 64 - address pages)) / EFI_PAGE_SIZE) pages.count
  let bottom := uintn (top + (2 ^ 64 - numberOfPages))
  (uintn (address pages + pagesToSize bottom),
    (if 0 < bottom then [⟨pages.first, bottom⟩] else [])
      ++ if top < pages.count then [⟨pages.first + top, pages.count - top⟩] else [])

/-- `InternalAllocMaxAddress`, which goes through the nodes from the last one on. -/
def internalAllocMaxAddress (freePageList : List Interval) (numberOfPages maxAddress : Nat) : Option (Nat × List Interval) :=
  (splitLast (fun pages => numberOfPages ≤ pages.count
      && uintn (address pages + pagesToSize numberOfPages + (2 ^ 64 - 1)) ≤ maxAddress) freePageList).map fun (front, pages, back) =>
    let r := internalAllocPagesOnOneNode pages numberOfPages maxAddress
    (r.1, front ++ (r.2 ++ back))

/-- `InternalAllocAddress`. There is no address if it fails. -/
def internalAllocAddress (freePageList : List Interval) (numberOfPages requested : Nat) : Option Nat × List Interval :=
  if requested % EFI_PAGE_SIZE ≠ 0 then (none, freePageList)
  else
    let endAddress := uintn (requested + pagesToSize numberOfPages)
    match splitLast (fun pages => address pages ≤ requested) freePageList with
    | none => (none, freePageList)
    | some (front, pages, back) =>
      if uintn (address pages + pagesToSize pages.count) < endAddress then (none, freePageList)
      else
        let r := internalAllocPagesOnOneNode pages numberOfPages endAddress
        (some r.1, front ++ (r.2 ++ back))

/-- `SmmAllocatePages`, with `*Memory` behind it. `runtime` says whether the memory type is one of the two that it takes. -/
def smmAllocatePages (type : AllocateType) (runtime : Bool) (numberOfPages memory : Nat) (mSmmMemoryMap : List Interval) :
    EfiStatus × Nat × List Interval :=
  if !runtime then (.invalidParameter, memory, mSmmMemoryMap)
  else if 2 ^ 52 < numberOfPages then (.outOfResources, memory, mSmmMemoryMap)
  else
    match type with
    | .address =>
      match internalAllocAddress mSmmMemoryMap numberOfPages memory with
      | (none, map) => (.notFound, 2 ^ 64 - 1 - memory, map)
      | (some a, map) => if a ≠ memory then (.notFound, a, map) else (.success, a, map)
    | _ =>
      (internalAllocMaxAddress mSmmMemoryMap numberOfPages (if type = .anyPages then 2 ^ 64 - 1 else memory)).elim
        (.outOfResources, 2 ^ 64 - 1, mSmmMemoryMap) fun r => (.success, r)

/-! ## Release -/

/-- The nodes in front of the first one that is behind an address, the last of them first, and the others. -/
def locateNode (memory : Nat) : List Interval → List Interval → List Interval × List Interval
  | rev, pages :: rest => if memory < address pages then (rev, pages :: rest) else locateNode memory (pages :: rev) rest
  | rev, [] => (rev, [])

/-- The node behind begins in the range. -/
def overlapsNext (memory numberOfPages : Nat) (rest : List Interval) : Bool :=
  rest.head?.any fun next => address next < uintn (memory + pagesToSize numberOfPages)

/-- The node in front ends in the range. -/
def overlapsPrevious (memory : Nat) (rev : List Interval) : Bool :=
  rev.head?.any fun previous => memory < uintn (address previous + pagesToSize previous.count)

/-- `SmmFreePages`. The new node is merged by `InternalMergeNodes` with the one in front, and then with the one behind. -/
def smmFreePages (memory numberOfPages : Nat) (mSmmMemoryMap : List Interval) : EfiStatus × List Interval :=
  if memory % EFI_PAGE_SIZE ≠ 0 then (.invalidParameter, mSmmMemoryMap)
  else
    let (rev, rest) := locateNode memory [] mSmmMemoryMap
    if overlapsNext memory numberOfPages rest then (.invalidParameter, mSmmMemoryMap)
    else if overlapsPrevious memory rev then (.invalidParameter, mSmmMemoryMap)
    else (.success, insert rev ⟨memory / EFI_PAGE_SIZE, numberOfPages⟩ rest)

/-- `EFI_ALLOCATED`, `EFI_NEEDS_TESTING` and `EFI_NEEDS_ECC_INITIALIZATION`. -/
def notUsable : Nat := 0x10 ||| 0x20 ||| 0x40

/-- `(MemBase + EFI_PAGE_MASK) & ~EFI_PAGE_MASK`. -/
def alignedMemBase (memBase : Nat) : Nat := uintn (memBase + (EFI_PAGE_SIZE - 1)) / EFI_PAGE_SIZE * EFI_PAGE_SIZE

def smmAddMemoryRegion (memBase memLength attributes : Nat) (mSmmMemoryMap : List Interval) : List Interval :=
  if attributes &&& notUsable ≠ 0 then mSmmMemoryMap
  else
    let aligned := alignedMemBase memBase
    let length := uintn (memLength + (2 ^ 64 - uintn (aligned + (2 ^ 64 - memBase))))
    (smmFreePages aligned (length / EFI_PAGE_SIZE) mSmmMemoryMap).2

/-! ## Requests -/

inductive Request where
  | allocate (type : AllocateType) (runtime : Bool) (numberOfPages memory : Nat)
  | free (memory numberOfPages : Nat)
  | addRegion (memBase memLength attributes : Nat)

/-- The status, `*Memory`, and the free pages. -/
def Request.perform (mSmmMemoryMap : List Interval) : Request → EfiStatus × Nat × List Interval
  | .allocate type runtime numberOfPages memory => smmAllocatePages type runtime numberOfPages memory mSmmMemoryMap
  | .free memory numberOfPages =>
    let (status, map) := smmFreePages memory numberOfPages mSmmMemoryMap
    (status, memory, map)
  | .addRegion memBase memLength attributes => (.success, memBase, smmAddMemoryRegion memBase memLength attributes mSmmMemoryMap)

def run : List Request → List Interval → List (EfiStatus × Nat) × List Interval
  | [], map => ([], map)
  | q :: qs, map =>
    let (status, memory, map) := q.perform map
    let (results, map) := run qs map
    ((status, memory) :: results, map)

/-! ## What it is for -/

/-- So many pages from one on. -/
def pagesFrom (a n : Nat) : Set Nat := Set.Ico a (a + n)

/-- The pages of an allocation that may end at `max`. -/
def Fits (free : Set Nat) (n max a : Nat) : Prop := pagesFrom a n ⊆ free ∧ (a + n) * EFI_PAGE_SIZE ≤ max + 1

/-- The free pages change by a request: those of an allocation are the last ones that there are, or those that are
asked for; a page that is free is not freed again. -/
def Request.Means (free : Set Nat) (result : EfiStatus × Nat) (free' : Set Nat) : Request → Prop
  | .allocate type runtime n memory =>
    if runtime = false then result.1 = .invalidParameter ∧ free' = free
    else if type = .address then
      (result = (.success, memory) ∧ memory % EFI_PAGE_SIZE = 0 ∧ pagesFrom (memory / EFI_PAGE_SIZE) n ⊆ free
        ∧ free' = free \ pagesFrom (memory / EFI_PAGE_SIZE) n)
      ∨ (result.1 = .notFound ∧ free' = free
        ∧ ¬ (memory % EFI_PAGE_SIZE = 0 ∧ pagesFrom (memory / EFI_PAGE_SIZE) n ⊆ free))
    else
      (∃ a, result = (.success, a * EFI_PAGE_SIZE)
        ∧ IsGreatest {a | Fits free n (if type = .anyPages then 2 ^ 64 - 1 else memory) a} a ∧ free' = free \ pagesFrom a n)
      ∨ (result.1 = .outOfResources ∧ free' = free ∧ ∀ a, ¬ Fits free n (if type = .anyPages then 2 ^ 64 - 1 else memory) a)
  | .free memory n =>
    (result.1 = .success ∧ memory % EFI_PAGE_SIZE = 0 ∧ Disjoint free (pagesFrom (memory / EFI_PAGE_SIZE) n)
      ∧ free' = free ∪ pagesFrom (memory / EFI_PAGE_SIZE) n)
    ∨ (result.1 = .invalidParameter ∧ free' = free
      ∧ ¬ (memory % EFI_PAGE_SIZE = 0 ∧ Disjoint free (pagesFrom (memory / EFI_PAGE_SIZE) n)))
  | .addRegion memBase memLength attributes =>
    -- the whole pages of the region, if none of them is free already
    let pages := pagesFrom ((memBase + (EFI_PAGE_SIZE - 1)) / EFI_PAGE_SIZE)
      ((memBase + memLength) / EFI_PAGE_SIZE - (memBase + (EFI_PAGE_SIZE - 1)) / EFI_PAGE_SIZE)
    (attributes &&& notUsable = 0 ∧ Disjoint free pages ∧ free' = free ∪ pages)
    ∨ (free' = free ∧ ¬ (attributes &&& notUsable = 0 ∧ Disjoint free pages))

inductive Meant : Set Nat → List Request → List (EfiStatus × Nat) → Set Nat → Prop
  | nil {free : Set Nat} : Meant free [] [] free
  | cons {free free' free'' : Set Nat} {q : Request} {qs : List Request} {result : EfiStatus × Nat} {results : List (EfiStatus × Nat)} :
    q.Means free result free' → Meant free' qs results free'' → Meant free (q :: qs) (result :: results) free''

/-- A request for pages, or of them, that do not reach the end of the addresses, nor the page 0. -/
def Request.Sane : Request → Prop
  | .allocate type _ n memory => 0 < n ∧ n < 2 ^ 64 ∧ memory < 2 ^ 64 ∧ (type = .address → memory + n * EFI_PAGE_SIZE < 2 ^ 64)
  | .free memory n => 0 < memory ∧ 0 < n ∧ memory + n * EFI_PAGE_SIZE < 2 ^ 64
  | .addRegion memBase memLength _ => 0 < memBase ∧ memBase + memLength < 2 ^ 64
    ∧ (memBase + (EFI_PAGE_SIZE - 1)) / EFI_PAGE_SIZE < (memBase + memLength) / EFI_PAGE_SIZE

/-- The list is that of the free pages: its nodes stand in ascending order, and no two of them touch. -/
structure Represents (map : List Interval) (free : Set Nat) : Prop where
  separated : Separated 0 map
  bounded : ∀ p ∈ free, p + 1 < 2 ^ 52
  covers : ∀ p, p ∈ free ↔ Covers map p

end BayTrail.Smm.Pages
