import BayTrail.Nvram.Bounds
import BayTrail.Nvram.Collect

/-!
# The NVRAM store: the read routines with their accesses

The routines of NvramRead.c once more, in the order in which C evaluates them and with
each access to the store made explicit. `none` stands for a run that reads a byte outside
of the store or that does not end; a routine that gives `some` of a result has done
neither. Addresses are integers, since an `extsize` can point in front of the store.

Where an access has been found to be inside, the field is read off the memory again by
the functions that the unchecked model reads it with.
-/

namespace BayTrail.Nvram

open BayTrail.Lib

/-- `w` bytes at the address. -/
def access (s : StoreInfo) (w : Nat) (a : Int) : Option Nat :=
  if 0 ≤ a ∧ a + w ≤ s.nvramSize then some (rd s.mem w a.toNat) else none

/-! ## Validation routines -/

/-- The byte that `NvGetExtFlags` points at. -/
def extFlagsByteC (s : StoreInfo) (p : Nat) : Option Nat :=
  (access s 2 (p + sizeOffset)).bind fun size =>
    (access s 2 (p + size - 2)).bind fun extSize => access s 1 (p + size - 2 - extSize + 2)

/-- `NvCalculateNvarChecksum`. The field `flags` is a part of the unit at `NEXT_OFFSET`. -/
def nvCalculateNvarChecksumC (s : StoreInfo) (p : Nat) : Option UInt8 :=
  (access s 4 (p + nextOffset)).bind fun _ =>
    if !hasFlag s.mem p flagExtHeder then some 0
    else (extFlagsByteC s p).bind fun flags =>
      if flags.toUInt8 &&& extFlagChecksum = 0 then some 0
      else (access s (sizeAt s.mem p - sizeofNvar) (p + sizeofNvar)).map fun _ =>
        0 - ((peek s.mem (p + sizeofNvar) (sizeAt s.mem p - sizeofNvar)).sum
          + (peek s.mem (p + sizeOffset) 2).sum + flagsAt s.mem p)

/-- The `next` field ends the chain or points behind the record. -/
def nextOk (s : StoreInfo) (p : Nat) : Bool :=
  nextAt s.mem p == flashEmptyNext
    || sizeAt s.mem p ≤ nextAt s.mem p && p + nextAt s.mem p ≤ s.pEndOfVars

/-- `NvIsVariable`. -/
def nvIsVariableC (s : StoreInfo) (p : Nat) : Option Bool :=
  (access s 4 p).bind fun signature =>
    if signature ≠ nvarSignature then some false
    else (access s 4 (p + nextOffset)).bind fun _ =>
      if flagsAt s.mem p = flashEmptyByte ∨ flagsAt s.mem p &&& ~~~allFlags ≠ 0 then some false
      else (access s 2 (p + sizeOffset)).bind fun _ =>
        if !sizeOk s p then some false
        else if !nextOk s p then some false
        else if !hasFlag s.mem p flagExtHeder then some true
        else (extFlagsByteC s p).bind fun flags =>
          if flags.toUInt8 &&& extFlagChecksum = 0 then some true
          else if !hasFlag s.mem p flagValid then some true
          else (nvCalculateNvarChecksumC s p).map fun checksum => checksum == 0

/-! ## Iteration routines -/

/-- The loop of `NvGetNextNvar`. -/
def skipInvalidLoopC (s : StoreInfo) : Nat → Nat → Option (Option Nat)
  | 0, _ => none
  | fuel + 1, p =>
    if s.pEndOfVars ≤ p then some none
    else (nvIsVariableC s p).bind fun found =>
      if found then some (some p)
      else (access s 2 (p + sizeOffset)).bind fun size =>
        if sizeOk s p then skipInvalidLoopC s fuel (p + size) else some none

/-- `NvGetNextNvar`. -/
def nvGetNextNvarC (s : StoreInfo) (p : Nat) : Option (Option Nat) :=
  if s.pEndOfVars ≤ p then some none
  else (nvIsVariableC s p).bind fun found =>
    if found then skipInvalidLoopC s (s.pEndOfVars + 1) (p + sizeAt s.mem p)
    else skipInvalidLoopC s (s.pEndOfVars + 1) p

/-- The loop of `NvGetNextValid`. -/
def nextValidLoopC (s : StoreInfo) : Nat → Nat → Option (Option Nat)
  | 0, _ => none
  | fuel + 1, p =>
    (nvGetNextNvarC s p).bind fun next =>
      match next with
      | none => some none
      | some q => if nvIsValid s.mem q then some (some q) else nextValidLoopC s fuel q

/-- `NvGetNextValid`. -/
def nvGetNextValidC (s : StoreInfo) (p : Nat) : Option (Option Nat) :=
  nextValidLoopC s (s.pEndOfVars + 1) p

/-- `NvGetFirstValid`. -/
def nvGetFirstValidC (s : StoreInfo) : Option (Option Nat) :=
  (nvIsVariableC s s.pFirstVar).bind fun found =>
    if !found then some none
    else if nvIsValid s.mem s.pFirstVar then some (some s.pFirstVar)
    else nvGetNextValidC s s.pFirstVar

/-! ## The chain of a variable -/

/-- The loop of `NvGetDataNvar`. -/
def dataNvarLoopC (s : StoreInfo) : Nat → Option Nat → Nat → Option (Option Nat)
  | 0, _, _ => none
  | fuel + 1, last, p =>
    (nvIsVariableC s p).bind fun found =>
      if !found then some last
      else if nextAt s.mem p = flashEmptyNext then some (some p)
      else dataNvarLoopC s fuel (some p) (p + nextAt s.mem p)

/-- `NvGetDataNvar`. -/
def nvGetDataNvarC (s : StoreInfo) (p : Nat) : Option (Option Nat) :=
  dataNvarLoopC s (s.pEndOfVars + 1) none p

/-- The `DataOffset` of `NvGetData`. -/
def dataOffset (s : StoreInfo) (q nameLength : Nat) : Nat :=
  sizeofNvar +
    (if hasFlag s.mem q flagDataOnly then 0
     else nameLength + (if hasFlag s.mem q flagGuid then sizeofGuid else 1))

/-- The `ExtSize` of `NvGetData`. -/
def extSizeAt (s : StoreInfo) (q : Nat) : Nat :=
  if hasFlag s.mem q flagExtHeder then rd s.mem 2 (nvGetExtSize s.mem q) else 0

/-- `NvGetData`; `none` also where `*pDataSize` underflows. -/
def nvGetDataC (s : StoreInfo) (p nameLength : Nat) : Option (Option (Nat × Nat)) :=
  (nvGetDataNvarC s p).bind fun data =>
    match data with
    | none => some none
    | some q =>
      (if hasFlag s.mem q flagExtHeder then
        (access s 2 (q + sizeOffset)).bind fun size => access s 2 (q + size - 2)
      else some 0).bind fun extSize =>
        (access s 2 (q + sizeOffset)).bind fun size =>
          if dataOffset s q nameLength + extSize ≤ size then
            some (some (q + dataOffset s q nameLength, size - dataOffset s q nameLength - extSize))
          else none

/-! ## Name and GUID -/

/-- `while (*pN++);` over an ASCII name. -/
def asciiEndC (s : StoreInfo) : Nat → Nat → Option Nat
  | 0, _ => none
  | fuel + 1, p =>
    (access s 1 p).bind fun c => if c = 0 then some (p + 1) else asciiEndC s fuel (p + 1)

/-- `while (*sN++);` over a Unicode name. -/
def unicodeEndC (s : StoreInfo) : Nat → Nat → Option Nat
  | 0, _ => none
  | fuel + 1, p =>
    (access s 2 p).bind fun c => if c = 0 then some (p + 2) else unicodeEndC s fuel (p + 2)

/-- The end of the name of the record. -/
def nameEndC (s : StoreInfo) (p : Nat) : Option Nat :=
  if hasFlag s.mem p flagAsciiName then asciiEndC s (s.nvramSize + 1) (nvGetName s.mem p)
  else unicodeEndC s (s.nvramSize + 1) (nvGetName s.mem p)

/-- The GUID that `NvGetGuid` points at. -/
def guidC (s : StoreInfo) (p : Nat) : Option Bytes :=
  if hasFlag s.mem p flagGuid then
    (access s sizeofGuid (p + sizeofNvar)).map fun _ => nvGetGuid s p
  else
    (access s 1 (p + sizeofNvar)).bind fun i =>
      (access s sizeofGuid ((s.nvramSize : Int) - sizeofGuid - sizeofGuid * i)).map fun _ =>
        nvGetGuid s p

/-- `NvGetNameFromNvar`: the status, `*VariableNameSize`, and the name and GUID where they
are stored. -/
def nvGetNameFromNvarC (s : StoreInfo) (p bufferSize : Nat) : Option (Status × Nat × Option (Name × Guid)) :=
  (access s 4 (p + nextOffset)).bind fun _ =>
    (nameEndC s p).bind fun e =>
      let length := e - nvGetName s.mem p
      let nameSize := if hasFlag s.mem p flagAsciiName then 2 * length else length
      if bufferSize < nameSize then some (.bufferTooSmall, nameSize, none)
      else (guidC s p).map fun _ => (.success, nameSize, some (nameAt s p, guidAt s p))

/-! ## NvGetNextVariableNvar -/

/-- The name comparison of `NvVarEq`, ASCII. -/
def asciiNameEqC (s : StoreInfo) : Nat → List UInt16 → Option (Option Nat)
  | p, [] => (access s 1 p).map fun c => if c = 0 then some (p + 1) else none
  | p, c :: cs =>
    (access s 1 p).bind fun b => if b = c.toNat then asciiNameEqC s (p + 1) cs else some none

/-- The name comparison of `NvVarEq`, Unicode. -/
def unicodeNameEqC (s : StoreInfo) : Nat → List UInt16 → Option (Option Nat)
  | p, [] => (access s 2 p).map fun c => if c = 0 then some (p + 2) else none
  | p, c :: cs =>
    (access s 2 p).bind fun b => if b = c.toNat then unicodeNameEqC s (p + 2) cs else some none

/-- `NvVarEq`: the size of the name when name and GUID match. -/
def nvVarEqC (s : StoreInfo) (p : Nat) (key : Name × Guid) : Option (Option Nat) :=
  (access s 4 (p + nextOffset)).bind fun _ =>
    (access s 1 (p + sizeofNvar)).bind fun _ =>
      (if hasFlag s.mem p flagAsciiName then asciiNameEqC s (nvGetName s.mem p) key.1.chars
       else unicodeNameEqC s (nvGetName s.mem p) key.1.chars).bind fun nameEnd =>
        match nameEnd with
        | none => some none
        | some e => (guidC s p).map fun guid =>
            if guid = key.2.bytes then some (e - nvGetName s.mem p) else none

/-- The loop of `NvFindVariable`. -/
def findVariableLoopC (s : StoreInfo) (key : Name × Guid) : Nat → Option Nat → Option (Option (Nat × Nat))
  | 0, _ => none
  | _ + 1, none => some none
  | fuel + 1, some p =>
    (nvVarEqC s p key).bind fun found =>
      match found with
      | some nameSize => some (some (p, nameSize))
      | none => (nvGetNextValidC s p).bind fun next => findVariableLoopC s key fuel next

/-- `NvFindVariable`. -/
def nvFindVariableC (s : StoreInfo) (key : Name × Guid) : Option (Option (Nat × Nat)) :=
  (nvGetFirstValidC s).bind fun first => findVariableLoopC s key (s.pEndOfVars + 1) first

/-- The record that the caller's name and GUID stand for. -/
def currentNvarC (s : StoreInfo) (key : Name × Guid) : Option (Option Nat) :=
  (match s.pLastReturned with
    | none => some false
    | some p => (nvIsVariableC s p).bind fun found =>
        if found then (nvVarEqC s p key).map Option.isSome else some false).bind fun last =>
    if last then some s.pLastReturned
    else (nvFindVariableC s key).map (Option.map Prod.fst)

/-- The loop of `NvGetNextVariableNvar` over the variables without runtime access. -/
def runtimeLoopC (s : StoreInfo) : Nat → Option Nat → Option (Option Nat)
  | 0, _ => none
  | _ + 1, none => some none
  | fuel + 1, some p =>
    if hasFlag s.mem p flagRuntime then some (some p)
    else (nvGetNextValidC s p).bind fun next => runtimeLoopC s fuel next

/-- `NvGetNextVariableNvar`. -/
def nvGetNextVariableNvarC (s : StoreInfo) (key : Name × Guid) (runtime : Bool) :
    Option (Status × Option Nat) :=
  let finish : Option Nat → Option (Status × Option Nat) := fun start =>
    (if runtime then runtimeLoopC s (s.pEndOfVars + 1) start else some start).map fun next =>
      match next with
      | none => (.notFound, none)
      | some p => (.success, some p)
  if key.1.chars = [] then (nvGetFirstValidC s).bind finish
  else (currentNvarC s key).bind fun current =>
    match current with
    | none => some (.invalidParameter, none)
    | some p =>
      if runtime && !hasFlag s.mem p flagRuntime then some (.invalidParameter, none)
      else (nvGetNextValidC s p).bind finish

end BayTrail.Nvram
