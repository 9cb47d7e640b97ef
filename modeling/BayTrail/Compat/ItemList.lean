import BayTrail.Lib.Slots
import Mathlib.Tactic.Ring
import Mathlib.Data.List.Forall2

/-!
# T_ITEM_LIST

The list of pointers of `AcpiRes.c`. An item is a pointer to a block of the heap, zero is `NULL`. Where the
code reads or writes outside of the `Items` array, there is no next state.
-/

namespace BayTrail.Compat

open BayTrail.Lib

/-! ## Memory -/

/-- The blocks that are allocated. New ones are behind all of them. -/
structure Heap where
  block : Nat → Option (List UInt8)
  next : Nat
  fresh : ∀ p, next ≤ p → block p = none
  next_pos : 0 < next

namespace Heap

/-- A new block. -/
def alloc (h : Heap) (bytes : List UInt8) : Heap where
  block p := if p = h.next then some bytes else h.block p
  next := h.next + 1
  fresh p hp := by
    rw [if_neg (by omega)]
    exact h.fresh p (by omega)
  next_pos := Nat.succ_pos _

/-- `FreePool`. -/
def free (h : Heap) (q : Nat) : Heap where
  block p := if p = q then none else h.block p
  next := h.next
  fresh p hp := by
    rw [h.fresh p hp, ite_self]
  next_pos := h.next_pos

end Heap

/-- More than this is never there. -/
def maxAlloc : Nat := 2 ^ 62

/-- Whether the allocation of a call with this number returns a block: the firmware decides. -/
def mallocZ (avail : Nat → Bool) (k size : Nat) : Bool := avail k && size ≤ maxAlloc

inductive Status where
  | success
  | invalidParameter
  | outOfResources
  deriving DecidableEq

/-! ## Lists -/

/-- `T_ITEM_LIST`. The slots of `Items` are those that have been allocated. -/
structure ItemList where
  initialCount : Nat
  itemCount : Nat
  items : Option (List Nat)
  deriving DecidableEq

def ItemList.slots (l : ItemList) : List Nat := l.items.getD []

/-- `LST_INIT_COUNT`. -/
def lstInitCount : Nat := 10

/-- `sizeof(VOID*)`. -/
def pointerSize : Nat := 8

/-- A `UINTN` as an `INTN`. -/
def toIntn (n : Nat) : Int := if n < 2 ^ 63 then n else n - 2 ^ 64

/-- The size that `reallocItemLst` finds: zero if the array stays. -/
def reallocSize (l : ItemList) : Nat :=
  if l.initialCount = 0 then lstInitCount * pointerSize
  else if l.items.isNone then l.initialCount * pointerSize % 2 ^ 64
  else if toIntn (l.initialCount - 1) < toIntn l.itemCount then (l.initialCount + lstInitCount) * pointerSize % 2 ^ 64
  else 0

def reallocItemLst (avail : Nat → Bool) (l : ItemList) : Option (Status × ItemList) :=
  let size := reallocSize l
  if size = 0 then some (.success, l)
  else if !mallocZ avail 0 size then some (.outOfResources, l)
  else if l.slots.length < l.itemCount ∨ size / pointerSize < l.itemCount then none
  else
    let items := l.slots.take l.itemCount ++ List.replicate (size / pointerSize - l.itemCount) 0
    some (.success, { l with items := some items, initialCount := size / pointerSize })

/-- The loop over `INTN`s goes below the array if the index is none. -/
def shiftItems (l : ItemList) (itemIndex : Nat) : Option (List Nat) :=
  if 0 ≤ toIntn itemIndex then shiftUp l.slots itemIndex (l.itemCount - itemIndex) else none

def insertItemLst (avail : Nat → Bool) (l : ItemList) (pRes itemIndex : Nat) : Option (Status × ItemList) := do
  if l.itemCount = 0 ∧ l.itemCount < itemIndex then return (.invalidParameter, l)
  else
    let r ← reallocItemLst avail l
    if r.1 ≠ .success then return (.outOfResources, r.2)
    else
      let items ← shiftItems r.2 itemIndex
      let items ← setAt items itemIndex pRes
      return (.success, { r.2 with items := some items, itemCount := r.2.itemCount + 1 })

/-- The list and the heap: the item is freed as well if that is asked for. -/
def deleteItemLst (h : Heap) (l : ItemList) (itemIndex : Nat) (freeData : Bool) : Option (Status × ItemList × Heap) := do
  if l.itemCount = 0 ∨ l.itemCount ≤ itemIndex then return (.invalidParameter, l, h)
  else
    let item ← l.slots[itemIndex]?
    let items ← shiftDown l.slots itemIndex (l.itemCount - 1 - itemIndex)
    return (.success, { l with items := some items, itemCount := l.itemCount - 1 }, if freeData then h.free item else h)

def appendItemLst (avail : Nat → Bool) (l : ItemList) (pRes : Nat) : Option (Status × ItemList) := do
  let r ← reallocItemLst avail l
  if r.1 ≠ .success then return (.outOfResources, r.2)
  else
    let items ← setAt r.2.slots r.2.itemCount pRes
    return (.success, { r.2 with items := some items, itemCount := r.2.itemCount + 1 })

def freeItems (h : Heap) : List Nat → Heap
  | [] => h
  | p :: ps => freeItems (if p = 0 then h else h.free p) ps

def clearItemLst (h : Heap) (l : ItemList) (freeData : Bool) : Option (ItemList × Heap) :=
  if freeData ∧ l.slots.length < l.itemCount then none
  else some ({ initialCount := 0, itemCount := 0, items := none }, if freeData then freeItems h (l.slots.take l.itemCount) else h)

/-- `sizeof(Lst->Items[i])` bytes from the item on. What is behind its block is whatever it is. -/
def readItem (beyond : Nat → Nat → UInt8) (h : Heap) (p : Nat) : List UInt8 :=
  (List.range pointerSize).map fun i => (((h.block p).getD [])[i]?).getD (beyond p i)

/-- The loop of `CopyItemLst`, with the number of the next allocation: the new items, and whether there was
memory for all. -/
def copyItems (beyond : Nat → Nat → UInt8) (avail : Nat → Bool) : Nat → Heap → List Nat → Status × List Nat × Heap
  | _, h, [] => (.success, [], h)
  | k, h, p :: ps =>
    if p = 0 then
      let r := copyItems beyond avail (k + 1) h ps
      (r.1, 0 :: r.2.1, r.2.2)
    else if mallocZ avail k pointerSize then
      let r := copyItems beyond avail (k + 1) (h.alloc (readItem beyond h p)) ps
      (r.1, h.next :: r.2.1, r.2.2)
    else (.outOfResources, List.replicate (ps.length + 1) 0, h)

/-- `sizeof(T_ITEM_LIST)`. -/
def itemListSize : Nat := 24

/-- What `*NewLstPtr` points to then, if it is not `NULL`. -/
def copyItemLst (beyond : Nat → Nat → UInt8) (avail : Nat → Bool) (h : Heap) (l : ItemList) :
    Option (Status × Option ItemList × Heap) :=
  let new : ItemList := { initialCount := l.initialCount, itemCount := l.itemCount, items := none }
  let size := l.itemCount * pointerSize % 2 ^ 64
  if !mallocZ avail 0 itemListSize then some (.outOfResources, none, h)
  else if l.itemCount = 0 then some (.success, some new, h)
  else if !mallocZ avail 1 size then some (.outOfResources, some new, h)
  else if l.slots.length < l.itemCount ∨ size / pointerSize < l.itemCount then none
  else
    let r := copyItems beyond avail 2 h (l.slots.take l.itemCount)
    some (r.1, some { new with items := some r.2.1 }, r.2.2)

/-! ## Runs -/

/-- All lists, in the order in which they have been made. -/
structure Lists where
  lists : List ItemList
  heap : Heap

inductive Op where
  | append (list pRes : Nat)
  | insert (list pRes itemIndex : Nat)
  | delete (list itemIndex : Nat) (freeData : Bool)
  | copy (list : Nat)
  | clear (list : Nat) (freeData : Bool)

/-- A call, and which of its allocations succeed. -/
structure Call where
  op : Op
  avail : Nat → Bool

def step (beyond : Nat → Nat → UInt8) (s : Lists) (c : Call) : Option (Status × Lists) :=
  match c.op with
  | .append i pRes => do
    let l ← s.lists[i]?
    let r ← appendItemLst c.avail l pRes
    return (r.1, { s with lists := s.lists.set i r.2 })
  | .insert i pRes itemIndex => do
    let l ← s.lists[i]?
    let r ← insertItemLst c.avail l pRes itemIndex
    return (r.1, { s with lists := s.lists.set i r.2 })
  | .delete i itemIndex freeData => do
    let l ← s.lists[i]?
    let r ← deleteItemLst s.heap l itemIndex freeData
    return (r.1, { lists := s.lists.set i r.2.1, heap := r.2.2 })
  | .copy i => do
    let l ← s.lists[i]?
    let r ← copyItemLst beyond c.avail s.heap l
    return (r.1, { lists := s.lists ++ r.2.1.toList, heap := r.2.2 })
  | .clear i freeData => do
    let l ← s.lists[i]?
    let r ← clearItemLst s.heap l freeData
    return (.success, { lists := s.lists.set i r.1, heap := r.2 })

/-! ## Sequences -/

/-- The pointers that the list is to hold. -/
def ItemList.contents (l : ItemList) : List Nat := l.slots.take l.itemCount

/-- The sequences that the lists stand for. -/
def Lists.sequences (s : Lists) : List (List Nat) := s.lists.map ItemList.contents

/-- The copy of an item: `NULL`, or a block that begins with all bytes of the original. -/
def SameData (h h' : Heap) (p p' : Nat) : Prop :=
  (p = 0 ∧ p' = 0) ∨ (p ≠ 0 ∧ p' ≠ 0 ∧ ∃ b b', h.block p = some b ∧ h'.block p' = some b' ∧ b <+: b')

/-- What the call does to sequences: an index out of range changes nothing, nor does a call without memory. -/
def Meets (s : Lists) (c : Call) (status : Status) (s' : Lists) : Prop :=
  match c.op with
  | .append i pRes => ∃ l, s.sequences[i]? = some l ∧
      ((status = .success ∧ s'.sequences = s.sequences.set i (l ++ [pRes])) ∨ (status = .outOfResources ∧ s' = s))
  | .insert i pRes itemIndex => ∃ l, s.sequences[i]? = some l ∧
      if itemIndex ≤ l.length then
        (status = .success ∧ s'.sequences = s.sequences.set i (l.insertIdx itemIndex pRes)) ∨ (status = .outOfResources ∧ s' = s)
      else status = .invalidParameter ∧ s' = s
  | .delete i itemIndex _ => ∃ l, s.sequences[i]? = some l ∧
      if itemIndex < l.length then status = .success ∧ s'.sequences = s.sequences.set i (l.eraseIdx itemIndex)
      else status = .invalidParameter ∧ s' = s
  | .copy i => ∃ l, s.sequences[i]? = some l ∧
      ((status = .success ∧ ∃ l', s'.sequences = s.sequences ++ [l'] ∧ List.Forall₂ (SameData s.heap s'.heap) l l')
        ∨ (status = .outOfResources ∧ s' = s))
  | .clear i _ => status = .success ∧ s'.sequences = s.sequences.set i []

/-- No list has more items than slots. -/
def Bounded (s : Lists) : Prop := ∀ l ∈ s.lists, l.itemCount ≤ l.slots.length

/-- From here on all calls do to the lists what they do to sequences, and no list has more items than slots. -/
def Correct (beyond : Nat → Nat → UInt8) : Lists → List Call → Prop
  | s, [] => Bounded s
  | s, c :: cs => Bounded s ∧ ∃ status s', step beyond s c = some (status, s') ∧ Meets s c status s' ∧ Correct beyond s' cs

/-- Lists without items, with any initial counts. -/
def Lists.initial (h : Heap) (counts : List Nat) : Lists :=
  { lists := counts.map fun n => { initialCount := n, itemCount := 0, items := none }, heap := h }

/-! ## The condition -/

/-- There is a slot for another item, or there will be one. -/
def HasRoom (l : ItemList) : Prop :=
  match l.items with
  | none => l.initialCount = 0 ∨ l.initialCount % 2 ^ 61 ≠ 0
  | some items => l.itemCount < items.length ∨ l.initialCount ≤ l.itemCount

/-- The item is a block not longer than a pointer. -/
def SmallItem (h : Heap) (p : Nat) : Prop := ∃ b, h.block p = some b ∧ b.length ≤ pointerSize

/-- The items can be copied, with the allocations from this number on. -/
def CanCopy (avail : Nat → Bool) (h : Heap) (k : Nat) (ps : List Nat) : Prop :=
  ∀ i p, ps[i]? = some p → p ≠ 0 → avail (k + i) = true ∧ SmallItem h p

/-- The call can be done right. -/
def Holds (s : Lists) (c : Call) : Prop :=
  match c.op with
  | .append i _ => ∃ l, s.lists[i]? = some l ∧ HasRoom l
  | .insert i _ itemIndex => ∃ l, s.lists[i]? = some l ∧
      ((l.itemCount = 0 ∧ 0 < itemIndex) ∨ (itemIndex ≤ l.itemCount ∧ HasRoom l))
  | .delete i _ _ => ∃ l, s.lists[i]? = some l
  | .copy i => ∃ l, s.lists[i]? = some l ∧
      (c.avail 0 = false ∨ l.itemCount = 0 ∨ (c.avail 1 = true ∧ CanCopy c.avail s.heap 2 l.contents))
  | .clear i _ => ∃ l, s.lists[i]? = some l

/-- Every call of the run can be done right in the state that it finds. -/
def AllHold (beyond : Nat → Nat → UInt8) : Lists → List Call → Prop
  | _, [] => True
  | s, c :: cs => Holds s c ∧ ∀ status s', step beyond s c = some (status, s') → AllHold beyond s' cs

end BayTrail.Compat
