import BayTrail.Lib.Bytes

/-!
# The S3 boot script: the table

`BootScriptSave.c` as built for x64 with `PI_SPECIFICATION_VERSION` at least
`0x0001000A`: `UINTN` has 64 bits, and each entry starts with its
`BOOT_SCRIPT_INFO_STRUCTURE`. The table is modelled by its bytes from `TableBottom`
on, so that `TablePtr` and the positions in it are offsets. `ASSERT` does nothing.
-/

namespace BayTrail.BootScript

open BayTrail.Lib

inductive Status where
  | success | invalidParameter | outOfResources | notFound | unsupported
  deriving DecidableEq, Repr

/-- Arithmetic in a `UINTN` or a `UINT64`. -/
def uintn (n : Nat) : Nat := n % 2 ^ 64

def initTableSize : Nat := 1024
def labelMaxSize : Nat := 0x200
def tableEndOpCode : Nat := 0xff

/-- `sizeof(BOOT_SCRIPT_INFO_STRUCTURE)`: `UniqueIndex` and `Length`. -/
def sizeofInfo : Nat := 8

/-- `sizeof(BOOT_SCRIPT_TABLE_END)`. -/
def sizeofTableEnd : Nat := 2

def efiPageSize : Nat := 4096
def efiSizeToPages (n : Nat) : Nat := (n + (efiPageSize - 1)) / efiPageSize
def efiPagesToSize (n : Nat) : Nat := uintn (n * efiPageSize)

/-! ## Memory -/

/-- Memory for `n` bytes, with what happens to be in it. A physical address has at
most 52 bits. -/
structure Block (n : Nat) where
  bottom : Nat
  mem : Mem
  nonzero : 0 < bottom
  fits : bottom + n ≤ 2 ^ 52

/-- What the table code finds in its environment. -/
structure Env where
  /-- `AllocatePool` -/
  pool : (n : Nat) → Option (Block n)
  /-- `AllocatePages`, for as many pages as make up `n` bytes -/
  pages : (n : Nat) → Option (Block n)
  /-- `gSmst2 != NULL` -/
  smm : Bool

/-- `TABLE_INFO`. -/
structure TableInfo where
  tableBottom : Nat
  mem : Mem
  tablePtr : Nat
  tableSize : Nat
  numTableEntries : Nat
  wasClosed : Bool

/-- `BOOT_SCRIPT_INSERT_INFO`. -/
structure InsertInfo where
  isItInsert : Bool
  beforeOrAfter : Bool
  position : Nat
  deriving DecidableEq

/-- The position `-1`. -/
def atBeginning : Nat := 2 ^ 64 - 1

/-- `ClearInsertInfo`. -/
def clearInsertInfo : InsertInfo := ⟨false, false, atBeginning⟩

/-- `NewTable`. -/
def newTable (env : Env) : Option TableInfo :=
  (env.pool (initTableSize * 2)).map fun b =>
    { tableBottom := b.bottom, mem := b.mem, tablePtr := 0, tableSize := initTableSize * 2,
      numTableEntries := 0, wasClosed := false }

def uniqueIndexAt (m : Mem) (p : Nat) : Nat := rd m 4 p
def lengthAt (m : Mem) (p : Nat) : Nat := rd m 4 (p + 4)

/-! ## AllocTableEntry -/

/-- The search for the entry with the index `position`, over `n` entries from `copyFrom`
on: its number and the place to insert at. -/
def insertLoop (m : Mem) (ins : InsertInfo) : Nat → Nat → Nat → Option (Nat × Nat)
  | 0, _, _ => none
  | n + 1, i, copyFrom =>
    if uniqueIndexAt m copyFrom = ins.position then
      some (i, if ins.beforeOrAfter then copyFrom else copyFrom + lengthAt m copyFrom)
    else insertLoop m ins n (i + 1) (copyFrom + lengthAt m copyFrom)

/-- `InsertPositionInBootScript`: the place, and the bytes with the tail moved out of the
way. `MemCpy` copies backward where the areas overlap. -/
def insertPositionInBootScript (info : TableInfo) (ins : InsertInfo) (size : Nat) :
    Option (Nat × Mem) :=
  let found :=
    if ins.position ≠ atBeginning then insertLoop info.mem ins info.numTableEntries 0 0
    else some (0, 0)
  found.map fun (i, copyFrom) =>
    if size ≠ 0 ∧ i ≠ info.numTableEntries then
      (copyFrom, poke info.mem (copyFrom + size) (peek info.mem copyFrom (info.tablePtr - copyFrom)))
    else (copyFrom, info.mem)

/-- The larger table for an entry of `size` bytes. -/
def growTable (env : Env) (info : TableInfo) (size : Nat) : Option TableInfo :=
  let tempSize := uintn (info.tableSize + initTableSize * (size / initTableSize + 1))
  if info.wasClosed then
    let newSize := efiPagesToSize (efiSizeToPages tempSize + 1)
    (env.pages newSize).map fun b =>
      { info with
        tableBottom := b.bottom
        mem := poke b.mem 0 (peek info.mem 0 info.tableSize)
        tableSize := newSize }
  else
    (env.pool tempSize).map fun b =>
      { info with
        tableBottom := b.bottom
        mem := poke b.mem 0 (peek info.mem 0 info.tableSize)
        tableSize := tempSize }

/-- There is no room for `size` bytes and a terminator. -/
def tableFull (info : TableInfo) (size : Nat) : Bool :=
  uintn (info.tableBottom + info.tableSize)
    < uintn (info.tableBottom + info.tablePtr + size + sizeofTableEnd + sizeofInfo)

/-- The table with room for `size` bytes and a terminator. -/
def roomyTable (env : Env) (info : TableInfo) (size : Nat) : Option TableInfo :=
  if tableFull info size then
    if env.smm then none else growTable env info size
  else some info

/-- `AllocTableEntry`: where the contents of the entry go. -/
def allocTableEntry (env : Env) (ins : InsertInfo) (info : TableInfo) (size : Nat) :
    Option Nat × TableInfo :=
  let size := uintn (size + sizeofInfo)
  if info.tableBottom = 0 then (none, info)
  else match roomyTable env info size with
    | none => (none, info)
    | some info =>
      let place :=
        if ins.isItInsert then insertPositionInBootScript info ins size
        else some (info.tablePtr, info.mem)
      match place with
      | none => (none, info)
      | some (p, m) =>
        let e := info.tablePtr + size
        let m := poke m p (leBytes 4 info.numTableEntries ++ leBytes 4 size)
        let m := poke m (e + sizeofInfo) (leBytes 2 tableEndOpCode)
        (some (p + sizeofInfo),
          { info with mem := m, tablePtr := e, numTableEntries := info.numTableEntries + 1 })

/-- What a saver asks `AllocTableEntry` for and copies to the entry: a structure and,
behind it, data. -/
structure Saved where
  size : Nat
  header : Bytes
  data : Bytes

/-- The table and `gInsertInfo`. -/
structure State where
  info : TableInfo
  insert : InsertInfo

/-- The end of every saver. -/
def saveEntry (env : Env) (s : State) (x : Saved) : Status × State :=
  match allocTableEntry env s.insert s.info x.size with
  | (none, info) => (.outOfResources, { s with info := info })
  | (some p, info) =>
    (.success, { s with info := { info with
      mem := poke (poke info.mem p x.header) (p + x.header.length) x.data } })

/-! ## Closing -/

/-- `EfiBootScriptCloseTable`; `TableName` is that of the S3 resume script. -/
def efiBootScriptCloseTable (env : Env) (s : State) : Status × State :=
  let info := s.info
  let tableLength := info.tablePtr + sizeofInfo + sizeofTableEnd
  let newSize := efiPagesToSize (efiSizeToPages (tableLength + initTableSize) + 1)
  match env.pages newSize with
  | none => (.outOfResources, s)
  | some b =>
    (.success, { s with info := { info with
      tableBottom := b.bottom
      mem := poke b.mem 0 (peek info.mem 0 tableLength)
      tablePtr := tableLength - sizeofInfo - sizeofTableEnd
      tableSize := newSize
      wasClosed := true } })

end BayTrail.BootScript
