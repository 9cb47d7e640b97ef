import Mathlib.Algebra.Ring.Nat
import Mathlib.Data.List.Basic

/-!
# Event queues

`USB_SmiQueuePut` and `USB_SmiQueuePutMsg` of `Usb.c`, and the consumers of `Tree.c`. Where a signed number overflows,
where a loop does not end, or where the code goes beyond the data, there is no next state.
-/

namespace BayTrail.Usb

variable {α : Type}

/-- `QUEUE_T`. -/
structure Queue (α : Type) where
  data : Nat → α
  maxsize : Nat
  head : Nat
  tail : Nat

/-- Elements are written from a place on. -/
def writeAt (data : Nat → α) (p : Nat) (d : List α) : Nat → α := fun a => if p ≤ a then (d[a - p]?).getD (data a) else data a

/-- So many elements from a place on. -/
def readAt (data : Nat → α) (p n : Nat) : List α := (List.range n).map fun i => data (p + i)

/-- `USB_SmiQueuePut`. -/
def smiQueuePut (q : Queue α) (d : α) : Option (Queue α) :=
  -- the loops that subtract the size do not end if it is zero
  if q.maxsize = 0 then none
  else
    let head := q.head % q.maxsize
    let data := writeAt q.data head [d]
    let head := if head + 1 = q.maxsize then 0 else head + 1
    let tail := if head = q.tail then (q.tail + 1) % q.maxsize else q.tail
    some { q with data := data, head := head, tail := tail }

/-- `USB_SmiQueuePutMsg`. `valid` is what `AmiValidateMemoryBuffer` says. -/
def smiQueuePutMsg (valid : Bool) (q : Queue α) (d : List α) : Option (Queue α) :=
  if 2 ^ 31 ≤ q.head + d.length ∨ 2 ^ 31 ≤ q.tail + d.length then none
  else
    let head := if q.maxsize < q.head + d.length then 0 else q.head
    if valid = false then some { q with head := head }
    else if q.maxsize < head + d.length then none
    else
      let data := writeAt q.data head d
      let head := if head + d.length = q.maxsize then 0 else head + d.length
      let tail := if head = q.tail then (if q.maxsize ≤ q.tail + d.length then 0 else q.tail + d.length) else q.tail
      some { q with data := data, head := head, tail := tail }

/-- `QueueGet`. -/
def queueGet (q : Queue α) : Option α × Queue α :=
  if q.tail = q.head then (none, q)
  else (some (q.data q.tail), { q with tail := if q.tail + 1 = q.maxsize then 0 else q.tail + 1 })

/-- `QueueRemoveMsg`: the place of the item. -/
def queueRemoveMsg (q : Queue α) (sz : Nat) : Option Nat × Queue α :=
  if q.tail = q.head then (none, q)
  else if q.maxsize < q.tail + sz then (some 0, { q with tail := sz })
  else (some q.tail, { q with tail := if q.tail + sz = q.maxsize then 0 else q.tail + sz })

/-! ## Items -/

/-- Where an item of this size begins, and where the one behind it may. -/
def start (maxsize p n : Nat) : Nat := if maxsize < p + n then 0 else p

def next (maxsize p n : Nat) : Nat := if start maxsize p n + n = maxsize then 0 else start maxsize p n + n

/-- The places of items and their sizes. -/
def places (maxsize : Nat) : Nat → List (List α) → List (Nat × Nat)
  | _, [] => []
  | tail, m :: ms => (start maxsize tail m.length, m.length) :: places maxsize (next maxsize tail m.length) ms

/-- A consumer at this place reads the items, one after the other, and nothing then. -/
def Reads (q : Queue α) : Nat → List (List α) → Prop
  | tail, [] => tail = q.head
  | tail, m :: ms => tail ≠ q.head ∧ start q.maxsize tail m.length + m.length ≤ q.maxsize
      ∧ readAt q.data (start q.maxsize tail m.length) m.length = m ∧ Reads q (next q.maxsize tail m.length) ms

/-- The queue holds these items. Its size is an `int`. -/
structure Keeps (q : Queue α) (unread : List (List α)) : Prop where
  maxsize : q.maxsize < 2 ^ 31
  head : q.head < q.maxsize
  tail : q.tail < q.maxsize
  nonempty : ∀ m ∈ unread, m ≠ []
  reads : Reads q q.tail unread

/-- Two ranges have no place in common. -/
def Apart (p n p' n' : Nat) : Prop := p + n ≤ p' ∨ p' + n' ≤ p

/-! ## Runs -/

inductive Op (α : Type) where
  | put (d : α)
  | putMsg (d : List α) (valid : Bool)
  | get
  | removeMsg (sz : Nat)

/-- There is no room for the item and all others: the head would meet the tail. -/
def Full (q : Queue α) (m : List α) : Prop := next q.maxsize q.head m.length = q.tail

/-- An item has been queued as the last one. The oldest one is gone if there has been no room, and nothing that is
still to be read has been overwritten. -/
def Queued (q : Queue α) (unread : List (List α)) (m : List α) (q' : Queue α) (unread' : List (List α)) : Prop :=
  (Full q m → unread' = (unread ++ [m]).tail) ∧ (¬ Full q m → unread' = unread ++ [m])
    ∧ ∀ x ∈ (places q'.maxsize q'.tail unread').dropLast, Apart x.1 x.2 (start q.maxsize q.head m.length) m.length

/-- What the call does to the items. -/
def Meets (q : Queue α) (unread : List (List α)) (op : Op α) (q' : Queue α) (unread' : List (List α)) : Prop :=
  match op with
  | .put d => smiQueuePut q d = some q' ∧ Queued q unread [d] q' unread'
  | .putMsg d valid => smiQueuePutMsg valid q d = some q' ∧ Queued q unread d q' unread'
  | .get => match unread with
    | [] => queueGet q = (none, q') ∧ q' = q ∧ unread' = []
    | m :: ms => (∃ d, m = [d] ∧ queueGet q = (some d, q')) ∧ unread' = ms
  | .removeMsg sz => match unread with
    | [] => queueRemoveMsg q sz = (none, q') ∧ q' = q ∧ unread' = []
    | m :: ms => (∃ p, queueRemoveMsg q sz = (some p, q') ∧ readAt q.data p sz = m) ∧ unread' = ms

/-- From here on every item is read in its turn, unless it is dropped as the oldest one. -/
def Correct : Queue α → List (List α) → List (Op α) → Prop
  | q, unread, [] => Keeps q unread
  | q, unread, op :: ops => Keeps q unread ∧ ∃ q' unread', Meets q unread op q' unread' ∧ Correct q' unread' ops

/-! ## The condition -/

/-- The item goes where nothing is to be read; if it ends where the oldest one begins, that one is of its size and not
behind a gap at the end. -/
structure Fits (q : Queue α) (unread : List (List α)) (m : List α) : Prop where
  nonempty : m ≠ []
  head : q.head + m.length < 2 ^ 31
  tail : q.tail + m.length < 2 ^ 31
  length : m.length ≤ q.maxsize
  apart : ∀ x ∈ places q.maxsize q.tail unread, Apart x.1 x.2 (start q.maxsize q.head m.length) m.length
  drops : Full q m → (∀ oldest ∈ unread.head?, oldest.length = m.length) ∧ q.tail + m.length ≤ q.maxsize

/-- The call can be done right. A consumer takes whole items; behind one as large as the queue `QueueRemoveMsg` does not
wrap. -/
def Holds (q : Queue α) (unread : List (List α)) (op : Op α) : Prop :=
  match op with
  | .put _ => ∀ m ∈ unread, m.length = 1
  | .putMsg d valid => valid = true ∧ Fits q unread d
  | .get => ∀ m ∈ unread.head?, m.length = 1
  | .removeMsg sz => ∀ m ∈ unread.head?, m.length = sz ∧ sz < q.maxsize

/-- Every call of the run can be done right in the state that it finds. -/
def AllHold : Queue α → List (List α) → List (Op α) → Prop
  | _, _, [] => True
  | q, unread, op :: ops => Holds q unread op ∧ ∀ q' unread', Meets q unread op q' unread' → AllHold q' unread' ops

end BayTrail.Usb
