import BayTrail.Lib.Bytes
import BayTrail.Compat.ItemList

/-!
# The database engine

`EfiDbe.c`. A record is a pointer, and there is one index array for each key. Where the code goes beyond
the slots of an array, there is no next state.
-/

namespace BayTrail.Dbe

open BayTrail.Lib
open BayTrail.Compat (pointerSize maxAlloc)

/-! ## Keys -/

/-- `MemCmp` of `Memory.c`: whole words are only skipped while they are equal, so this is what it returns. -/
def memCmp (m : Mem) (d s : Nat) : Nat → Int
  | 0 => 0
  | n + 1 => if m d = m s then memCmp m (d + 1) (s + 1) n else (m d).toInt8.toInt - (m s).toInt8.toInt

/-- The difference of two numbers of so many bytes, in a signed one of the same size. -/
def difference (m : Mem) (size d s : Nat) : Int := Int.bmod (rd m size d - rd m size s) (256 ^ size)

/-- A key, with `DBE_OFFSET_KEY_CONTEXT`. -/
structure KeyField where
  offset : Nat
  size : Nat
  deriving DecidableEq

/-- The comparison of two keys. -/
def keyCmp (m : Mem) (size d s : Nat) : Int :=
  match size with
  | 2 => (difference m 2 d s).sign
  | 4 => (difference m 4 d s).sign
  | 8 => (difference m 8 d s).sign
  | n => memCmp m d s n

def offsetRRCmp (m : Mem) (f : KeyField) (record1 record2 : Nat) : Int :=
  keyCmp m f.size (record1 + f.offset) (record2 + f.offset)

def offsetKRCmp (m : Mem) (f : KeyField) (key record : Nat) : Int := keyCmp m f.size key (record + f.offset)

/-! ## Databases -/

inductive Status where
  | success
  | notFound
  | invalidParameter
  | outOfResources
  deriving DecidableEq

/-- `DBE_DATABASE`. There are `KeyCount` parts of the index array, each of `InitialCount` slots. -/
structure Database where
  initialCount : Nat
  recordCount : Nat
  keyField : Option (List KeyField)
  indexArray : List (List Nat)
  deriving DecidableEq

def Database.keyCount (db : Database) : Nat := db.indexArray.length

/-- The loop of `DbeBinSearch`: where it stands, and the last comparison. -/
def binSearchLoop (cmp : Nat → Int) (indexArray : List Nat) : Nat → Int → Int → Int → Int → Option (Int × Int)
  | 0, _, _, _, _ => none
  | n + 1, st, last, mid, cmpResult =>
    if st ≤ last then do
      let mid := (st + last + 1) / 2
      let record ← indexArray[mid.toNat]?
      let cmpResult := cmp record
      if cmpResult = 0 then
        -- the last one of those that are equal
        if mid = last then return (mid, cmpResult) else binSearchLoop cmp indexArray n mid last mid cmpResult
      else if 0 < cmpResult then binSearchLoop cmp indexArray n (mid + 1) last mid cmpResult
      else binSearchLoop cmp indexArray n st (mid - 1) mid cmpResult
    else some (mid, cmpResult)

/-- The index of the record and the vicinity. -/
def dbeBinSearch (cmp : Nat → Int) (indexArray : List Nat) (recordCount : Nat) : Option (Nat × Int) :=
  if recordCount = 0 then some (0, -1)
  else do
    let r ← binSearchLoop cmp indexArray (recordCount + 1) 0 (recordCount - 1) 0 0
    return (r.1.toNat, r.2.sign)

/-- `(Database->InitialCount-1)==Database->RecordCount`. -/
def Grows (db : Database) : Prop := (db.initialCount + 2 ^ 64 - 1) % 2 ^ 64 = db.recordCount

instance (db : Database) : Decidable (Grows db) := inferInstanceAs (Decidable (_ = _))

/-- `avail` is whether there is memory. -/
def dbeReallocIndexArray (avail : Bool) (db : Database) : Option (Status × Database) :=
  let newCount := db.initialCount * 2 % 2 ^ 64
  let size := newCount * pointerSize * db.keyCount % 2 ^ 64
  if avail = false ∨ maxAlloc < size then some (.outOfResources, db)
  else if size ≠ newCount * pointerSize * db.keyCount ∨ newCount < db.initialCount then none
  else
    let grow := fun part : List Nat => part ++ List.replicate (newCount - db.initialCount) 0
    some (.success, { db with initialCount := newCount, indexArray := db.indexArray.map grow })

/-- One round of `DbeInsert`. -/
def insertEntry (m : Mem) (recordCount record : Nat) (f : KeyField) (part : List Nat) : Option (List Nat) := do
  let r ← dbeBinSearch (offsetRRCmp m f record) part recordCount
  let recordIndex := if 0 ≤ r.2 then r.1 + 1 else r.1
  let part ← shiftUp part recordIndex (recordCount - recordIndex)
  setAt part recordIndex record

def insertEntries (m : Mem) (recordCount record : Nat) : List KeyField → List (List Nat) → Option (List (List Nat))
  | _, [] => some []
  | [], _ :: _ => none
  | f :: fs, part :: parts => do
    let part ← insertEntry m recordCount record f part
    let parts ← insertEntries m recordCount record fs parts
    return part :: parts

def dbeInsert (m : Mem) (avail : Bool) (db : Database) (record : Nat) : Option (Status × Database) := do
  if record = 0 then return (.invalidParameter, db)
  else
    let r ← if Grows db then dbeReallocIndexArray avail db else some (.success, db)
    if r.1 ≠ .success then return r
    else
      match r.2.keyField with
      | none => return (.invalidParameter, r.2)
      | some fs =>
        let indexArray ← insertEntries m r.2.recordCount record fs r.2.indexArray
        return (.success, { r.2 with indexArray := indexArray, recordCount := r.2.recordCount + 1 })

/-- The status, and the index of the record and the vicinity if they are set. -/
def dbeLocateKey (m : Mem) (db : Database) (keyNo keyValue : Nat) : Option (Status × Option (Nat × Int)) :=
  match db.keyField with
  | none => some (.invalidParameter, none)
  | some fs =>
    if (db.keyCount + 2 ^ 64 - 1) % 2 ^ 64 < keyNo then some (.invalidParameter, none)
    else do
      let f ← fs[keyNo]?
      let part ← db.indexArray[keyNo]?
      let r ← dbeBinSearch (offsetKRCmp m f keyValue) part db.recordCount
      return (if r.2 = 0 then .success else .notFound, some r)

/-- The new part, if the record is in there. The slot behind the entries is looked at as well. -/
def dbeDelIndexKeyEntry (recordCount data : Nat) (part : List Nat) : Option (Option (List Nat)) := do
  let recordIndex := (part.take recordCount).idxOf data
  let found ← part[recordIndex]?
  if found ≠ data then return none
  else
    let length := pointerSize * (recordCount + 2 ^ 64 - recordIndex - 1) % 2 ^ 64
    let part ← shiftDown part recordIndex (length / pointerSize)
    return some part

/-- The loop of `DbeDelete`: parts in front of one that the record is not in have lost it. -/
def deleteEntries (recordCount data : Nat) : List (List Nat) → Option (Bool × List (List Nat))
  | [] => some (true, [])
  | part :: parts => do
    match ← dbeDelIndexKeyEntry recordCount data part with
    | none => return (false, part :: parts)
    | some part =>
      let r ← deleteEntries recordCount data parts
      return (r.1, part :: r.2)

/-- The memory of the record is not the database's: to free it changes nothing here. -/
def dbeDelete (db : Database) (data : Nat) : Option (Status × Database) := do
  if db.recordCount = 0 then return (.invalidParameter, db)
  else
    let r ← deleteEntries db.recordCount data db.indexArray
    if r.1 then return (.success, { db with indexArray := r.2, recordCount := db.recordCount - 1 })
    else return (.invalidParameter, { db with indexArray := r.2 })

/-! ## Runs -/

/-- The database, the records that are in it, and what the memory holds. -/
structure World where
  db : Database
  live : List Nat
  mem : Mem

inductive Op where
  | insert (record : Nat)
  | delete (data : Nat) (freeData : Bool)
  | locate (keyNo keyValue : Nat)

/-- A call: with the memory that it finds, and whether an allocation succeeds. -/
structure Call where
  op : Op
  mem : Mem
  avail : Bool

/-- What a call returns. -/
structure Reply where
  status : Status
  position : Option (Nat × Int)

def step (w : World) (c : Call) : Option (Reply × World) :=
  match c.op with
  | .insert record => do
    let r ← dbeInsert c.mem c.avail w.db record
    return (⟨r.1, none⟩, { db := r.2, live := if r.1 = .success then record :: w.live else w.live, mem := c.mem })
  | .delete data _ => do
    let r ← dbeDelete w.db data
    return (⟨r.1, none⟩, { db := r.2, live := if r.1 = .success then w.live.erase data else w.live, mem := c.mem })
  | .locate keyNo keyValue => do
    let r ← dbeLocateKey c.mem w.db keyNo keyValue
    return (⟨r.1, r.2⟩, { w with mem := c.mem })

/-! ## Order -/

/-- A number whose first byte counts most. -/
def beVal : Bytes → Nat
  | [] => 0
  | b :: bs => b.toNat * 256 ^ bs.length + beVal bs

/-- The key at an address. Only the sizes of numbers are little endian, others compare byte by byte. -/
def unsignedKey (m : Mem) (size p : Nat) : Nat :=
  if size = 2 ∨ size = 4 ∨ size = 8 then rd m size p else beVal (peek m p size)

def recordKey (m : Mem) (f : KeyField) (record : Nat) : Nat := unsignedKey m f.size (record + f.offset)

/-- The entries of a part. -/
def entries (db : Database) (part : List Nat) : List Nat := part.take db.recordCount

/-- The index array of a key has exactly the records, sorted. -/
def Indexes (m : Mem) (f : KeyField) (live entries : List Nat) : Prop :=
  entries.Perm live ∧ entries.Pairwise fun p q => recordKey m f p ≤ recordKey m f q

def Ordered (fs : List KeyField) (w : World) : Prop :=
  List.Forall₂ (fun f part => Indexes w.mem f w.live (entries w.db part)) fs w.db.indexArray

/-- An entry with the key if there is one, or one next to where it would be. -/
def Located (key : Nat → Nat) (keyValue : Nat) (entries : List Nat) (r : Nat × Int) : Prop :=
  (r.2 = 0 ∧ ∃ p, entries[r.1]? = some p ∧ key p = keyValue)
    ∨ (r.2 = 1 ∧ (∃ p, entries[r.1]? = some p ∧ key p < keyValue) ∧ ∀ q, entries[r.1 + 1]? = some q → keyValue < key q)
    ∨ (r.2 = -1 ∧ (∀ p, entries[r.1]? = some p → keyValue < key p) ∧ (entries = [] → r.1 = 0)
        ∧ (entries ≠ [] → r.1 < entries.length) ∧ ∀ q, 0 < r.1 → entries[r.1 - 1]? = some q → key q < keyValue)

/-- What the call answers and does to the records. -/
def Meets (fs : List KeyField) (w : World) (c : Call) (r : Reply) (w' : World) : Prop :=
  match c.op with
  | .insert record => if record = 0 then r.status = .invalidParameter ∧ w'.db = w.db ∧ w'.live = w.live
      else (r.status = .success ∧ w'.live = record :: w.live) ∨ (r.status = .outOfResources ∧ w'.db = w.db ∧ w'.live = w.live)
  | .delete data _ => if data ∈ w.live then r.status = .success ∧ w'.live = w.live.erase data
      else r.status = .invalidParameter ∧ w'.db = w.db ∧ w'.live = w.live
  | .locate keyNo keyValue =>
      w'.db = w.db ∧ match fs[keyNo]? with
        | none => r.status = .invalidParameter
        | some f => ∃ part position, w.db.indexArray[keyNo]? = some part ∧ r.position = some position
            ∧ Located (recordKey c.mem f) (unsignedKey c.mem f.size keyValue) (entries w.db part) position
            ∧ (r.status = .success ↔ ∃ p ∈ w.live, recordKey c.mem f p = unsignedKey c.mem f.size keyValue)

/-- From here on all calls do what they should, and all index arrays are in order. -/
def Correct (fs : List KeyField) : World → List Call → Prop
  | w, [] => Ordered fs w
  | w, c :: cs => Ordered fs w ∧ ∃ r w', step w c = some (r, w') ∧ Meets fs w c r w' ∧ Correct fs w' cs

/-- A database without records. What the slots hold then is whatever was in the memory. -/
structure Made (fs : List KeyField) (w : World) : Prop where
  keyField : w.db.keyField = some fs
  keyCount : w.db.keyCount = fs.length
  keyCount_lt : fs.length < 2 ^ 64
  recordCount : w.db.recordCount = 0
  live : w.live = []
  parts : ∀ part ∈ w.db.indexArray, part.length = w.db.initialCount
  fits : w.db.initialCount * pointerSize * w.db.keyCount ≤ maxAlloc

/-! ## The condition -/

/-- The difference is less than half the range; where bytes are compared, the first ones that differ are both
below 128 or both not. -/
def Near (m : Mem) (size d s : Nat) : Prop :=
  if size = 2 ∨ size = 4 ∨ size = 8 then
    rd m size d < rd m size s + 256 ^ size / 2 ∧ rd m size s ≤ rd m size d + 256 ^ size / 2
  else ∀ i < size, (∀ j < i, m (d + j) = m (s + j)) → (m (d + i) < 128 ↔ m (s + i) < 128)

/-- The entries that a binary search for the key looks at. -/
def probed (key : Nat → Nat) (keyValue : Nat) (entries : List Nat) : Nat → Int → Int → List Nat
  | 0, _, _ => []
  | n + 1, st, last =>
    if st ≤ last then
      let mid := (st + last + 1) / 2
      match entries[mid.toNat]? with
      | none => []
      | some p =>
        p :: if key p = keyValue then (if mid = last then [] else probed key keyValue entries n mid last)
          else if key p < keyValue then probed key keyValue entries n (mid + 1) last
          else probed key keyValue entries n st (mid - 1)
    else []

/-- Those in a part of the index array, from all entries on. -/
def looksAt (db : Database) (key : Nat → Nat) (keyValue : Nat) (part : List Nat) : List Nat :=
  probed key keyValue (entries db part) (db.recordCount + 1) 0 (db.recordCount - 1)

/-- The keys of the records have not been changed. -/
def KeysKept (fs : List KeyField) (w : World) (m : Mem) : Prop :=
  ∀ f ∈ fs, ∀ p ∈ w.live, recordKey m f p = recordKey w.mem f p

/-- The call can be done right. -/
def Holds (fs : List KeyField) (w : World) (c : Call) : Prop :=
  KeysKept fs w c.mem ∧ match c.op with
  | .insert record => record = 0 ∨ (Grows w.db ∧ c.avail = false)
      ∨ (fs ≠ [] ∧ w.db.initialCount ≠ 0 ∧ List.Forall₂ (fun f part =>
          ∀ p ∈ looksAt w.db (recordKey c.mem f) (recordKey c.mem f record) part,
            Near c.mem f.size (record + f.offset) (p + f.offset)) fs w.db.indexArray)
  | .delete data _ => data ∈ w.live ∨ w.db.recordCount = 0
      ∨ ∃ part p, w.db.indexArray[0]? = some part ∧ part[w.db.recordCount]? = some p ∧ p ≠ data
  | .locate keyNo keyValue => fs ≠ [] ∧ ∀ f part, fs[keyNo]? = some f → w.db.indexArray[keyNo]? = some part →
      ∀ p ∈ looksAt w.db (recordKey c.mem f) (unsignedKey c.mem f.size keyValue) part, Near c.mem f.size keyValue (p + f.offset)

/-- Every call of the run can be done right in the state that it finds. -/
def AllHold (fs : List KeyField) : World → List Call → Prop
  | _, [] => True
  | w, c :: cs => Holds fs w c ∧ ∀ r w', step w c = some (r, w') → AllHold fs w' cs

end BayTrail.Dbe
