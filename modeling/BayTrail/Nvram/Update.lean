import BayTrail.Nvram.Defs

/-!
# The NVRAM store: create, update and delete

The store mutators of `NvramDxe.c`. Each of them is a `do { … } while (FALSE)`
block of `WriteBytes` calls that is left at the first call that fails, so it is
modelled as the list of its calls, in order, each with the value `p` has when
the block is left there (`RecoverFromFlashUpdateFailure` is handed that value).
A `WriteBytes` call is atomic: it stores all its bytes or, when it fails, none.
Through the flash interface a call fails when the device does, and when it would
have to set a bit that has been programmed.

The memory-mapped flash configuration is modelled
(`NO_MMIO_FLASH_ACCESS_DURING_UPDATE` is 0), where a record's old data is copied
by one `WriteBytes` call.
-/

namespace BayTrail.Nvram

open BayTrail.Lib

/-- The build and board parameters the store code depends on. -/
structure Config where
  /-- `NvramChecksumSupport`. -/
  checksum : Bool
  /-- `VarStoreInfo.HeaderLength`. -/
  headerLength : Nat
  /-- `FlashBlockSize`. -/
  flashBlockSize : Nat
  /-- `gSdlVarLst`: the variables that the last garbage collection keeps. -/
  sdlVarLst : List (Name × Guid)

/-- `HASH_SHA256_LEN`. -/
def hashSha256Len : Nat := 32

/-- `EXT_SEC_FLAGS`. -/
structure ExtSecFlags where
  authFlags : UInt8
  mc : UInt64
  keyHash : Bytes
  len : keyHash.length = hashSha256Len
  deriving DecidableEq

/-- `{0, 0, {0}}`. -/
def ExtSecFlags.zero : ExtSecFlags := ⟨0, 0, List.replicate 32 0, rfl⟩

/-! ## Runs of `WriteBytes` calls -/

/-- One `WriteBytes` call of a block; `pFail` is `p` where the block is left
when this call fails. -/
structure Step where
  addr : Nat
  data : Bytes
  pFail : Nat

def Step.apply (m : Mem) (st : Step) : Mem := poke m st.addr st.data

/-- The memory after all the calls have succeeded. -/
def applySteps (m : Mem) (steps : List Step) : Mem := steps.foldl Step.apply m

/-- `MemInterface` and `NvInterface`: `MemProgram` copies, `NvProgram` programs
flash. -/
inductive Interface where
  | mem | nv
  deriving DecidableEq

/-- `NvProgram` finds no bit to program that is set in `Data` but clear in the
flash. -/
def programmable (m : Mem) (st : Step) : Bool :=
  ((peek m st.addr st.data.length).zip st.data).all fun ds => ~~~ds.1 &&& ds.2 == 0

/-- How the device answers the `WriteBytes` calls of an operation: all of them
succeed, or the first `k` succeed and the next one fails. -/
abbrev Faults := Option Nat

/-- The call at which a block is left: the first one that the device fails or
that cannot be programmed. -/
def effective (i : Interface) : Mem → List Step → Faults → Faults
  | _, [], _ => none
  | m, st :: rest, faults =>
    if i = .nv ∧ (faults = some 0 ∨ programmable m st = false) then some 0
    else (effective i (st.apply m) rest (faults.map (· - 1))).map (· + 1)

/-- The calls that took effect. -/
def performed (faults : Faults) (steps : List Step) : List Step :=
  match faults with
  | none => steps
  | some k => steps.take k

/-- `p` where the block was left, if it was left. -/
def brokenAt (faults : Faults) (steps : List Step) : Option Nat :=
  match faults with
  | none => none
  | some k => steps[k]?.map Step.pFail

/-! ## Space and recovery -/

def isEnoughSpace (s : StoreInfo) (size : Nat) : Bool :=
  s.pEndOfVars + size + sizeofGuid * (s.nextGuid + 1) + sizeofNvar ≤ s.nvramSize

/-- The scan for the first programmed byte of `[p, e)`. -/
def firstProgrammed (m : Mem) : Nat → Nat → Nat
  | 0, p => p
  | n + 1, p => if m p = flashEmptyByte then firstProgrammed m n (p + 1) else p

def recoverFromFlashUpdateFailure (s : StoreInfo) (endOfVars dataSize prevVar : Nat) :
    StoreInfo :=
  if endOfVars = s.pEndOfVars then s
  else if sizeAt s.mem s.pEndOfVars = dataSize then
    if sigAt s.mem s.pEndOfVars = nvarSignature
        ∧ nvGetDataNvar s prevVar ≠ some s.pEndOfVars then
      -- the 'next' field has not been updated: stay at the address of the last record
      { s with lastVarSize := dataSize % 65536 }
    else
      { s with pEndOfVars := s.pEndOfVars + dataSize, lastVarSize := 0 }
  else
    let p := firstProgrammed s.mem (endOfVars - s.pEndOfVars) s.pEndOfVars
    if p = endOfVars then s
    else { s with pEndOfVars := p, lastVarSize := dataSize % 65536 }

/-! ## CreateVariableEx -/

/-- The name has basic Latin characters only. -/
def isAsciiName (name : Name) : Bool := name.chars.all fun c => c.toNat < 256

def nameBytesLength (name : Name) : Nat :=
  if isAsciiName name then name.chars.length + 1 else 2 * (name.chars.length + 1)

def asciiNameSteps : Nat → List UInt16 → List Step
  | p, [] => [⟨p, [0], p + 1⟩]
  | p, c :: cs => ⟨p, [c.toUInt8], p + 1⟩ :: asciiNameSteps (p + 1) cs

def unicodeNameSteps : Nat → List UInt16 → List Step
  | p, [] => [⟨p, [0, 0], p + 2⟩]
  | p, c :: cs => ⟨p, leBytes 2 c.toNat, p + 2⟩ :: unicodeNameSteps (p + 2) cs

/-- The record header as programmed first: signature and `next` stay erased. -/
def nvarHeader (size : Nat) (flags : UInt8) : Bytes :=
  leBytes 4 flashEmptySignature ++ leBytes 2 size ++ leBytes 3 flashEmptyNext ++ [flags]

/-- The search for the GUID in the GUID area: the index found, or `NextGuid`. -/
def guidSearchLoop (s : StoreInfo) (guid : Guid) : Nat → Nat → Nat
  | 0, i => i
  | n + 1, i =>
    if peek s.mem (s.guidSlot i) sizeofGuid = guid.bytes then i
    else guidSearchLoop s guid n (i + 1)

def guidSearch (s : StoreInfo) (guid : Guid) : Nat := guidSearchLoop s guid s.nextGuid 0

def isAuth (attributes : UInt32) : Bool := attributes &&& authenticatedVariableAttributes != 0
def isAppend (attributes : UInt32) : Bool := attributes &&& efiAppendWrite != 0

/-- What `CreateVariableEx` works out before it programs anything. -/
structure CreatePlan where
  size : Nat
  extSize : Nat
  flags : UInt8
  extFlags : UInt8
  /-- The index of the GUID in the GUID area. -/
  guid : Nat
  fullGuid : Bool

/-- `oldVarGuid` says that `OldVar` is given and has `NVRAM_FLAG_GUID` set. -/
def createPlan (cfg : Config) (s : StoreInfo) (name : Name) (guid : Guid) (attributes : UInt32)
    (dataSize appendDataSize : Nat) (oldVarGuid : Bool) : CreatePlan :=
  let g := guidSearch s guid
  let full := oldVarGuid || (255 < s.nextGuid && s.nextGuid ≤ g)
  let extSize := (if isAuth attributes then 1 + 8 + hashSha256Len + 2 else 0)
    + (if cfg.checksum then (if isAuth attributes then 1 else 4) else 0)
  { size := sizeofNvar + appendDataSize + (if full then sizeofGuid else 1)
      + nameBytesLength name + (dataSize + extSize)
    extSize := extSize
    flags := flagValid
      ||| (if attributes &&& efiRuntimeAccess != 0 then flagRuntime else 0)
      ||| (if attributes &&& efiHardwareErrorRecord != 0 then flagHardwareErrorRecord else 0)
      ||| (if isAuth attributes then flagExtHeder ||| flagAuthWrite else 0)
      ||| (if cfg.checksum then flagExtHeder else 0)
      ||| (if full then flagGuid else 0)
      ||| (if isAsciiName name then flagAsciiName else 0)
    extFlags := (if isAuth attributes then (attributes &&& authenticatedVariableAttributes).toUInt8
        else 0)
      ||| (if cfg.checksum then extFlagChecksum else 0)
    guid := g
    fullGuid := full }

/-- Header and GUID of the new record at `e`. -/
def createHeadSteps (s : StoreInfo) (guid : Guid) (pl : CreatePlan) : List Step :=
  let e := s.pEndOfVars
  ⟨e, nvarHeader pl.size pl.flags, e + 10⟩ ::
    if pl.fullGuid then [⟨e + 10, guid.bytes, e + 10 + 16⟩]
    else
      (if pl.guid = s.nextGuid then [⟨s.guidSlot s.nextGuid, guid.bytes, e + 10⟩] else [])
        ++ [⟨e + 10, [UInt8.ofNat pl.guid], e + 10 + 1⟩]

def nameSteps (p : Nat) (name : Name) : List Step :=
  if isAsciiName name then asciiNameSteps p name.chars else unicodeNameSteps p name.chars

/-- The data at `p`: the appended-to data first (`EFI_VARIABLE_APPEND_WRITE`
after garbage collection), then the caller's. -/
def dataSteps (p : Nat) (append : Bool) (oldData data : Bytes) : List Step :=
  (if append then [⟨p, oldData, p + oldData.length⟩] else [])
    ++ [⟨p + (if append then oldData.length else 0), data,
          p + (if append then oldData.length else 0) + data.length⟩]

/-- The extended header of a record at `e` whose contents end at `p1`, but for the
checksum byte. -/
def extHeadSteps (cfg : Config) (e p1 size extSize : Nat) (extFlags : UInt8) (auth : Bool)
    (authBytes : List Bytes) : List Step :=
  if auth then
    ⟨p1, [extFlags], p1⟩ ::
      (match authBytes with
       | [] => []
       | mc :: rest => ⟨p1 + 1, mc, p1 + 1⟩ :: rest.map fun h => ⟨p1 + 9, h, p1 + 9⟩)
      ++ [⟨e + size - 2, leBytes 2 extSize, e + size - 2⟩]
  else if cfg.checksum then
    [⟨p1 + extSize - 2, leBytes 2 extSize, p1 + extSize⟩, ⟨p1, [extFlags], p1 + extSize⟩]
  else []

/-- The rest of the record: extended header, checksum and signature. The checksum
is read off the memory as it is when everything else has been programmed, and
adjusted to exclude the still erased checksum field. -/
def extSteps (cfg : Config) (e p1 size extSize : Nat) (extFlags : UInt8) (auth : Bool)
    (authBytes : List Bytes) (m : Mem) : List Step :=
  let head := extHeadSteps cfg e p1 size extSize extFlags auth authBytes
  let pEnd :=
    if cfg.checksum then p1 + extSize else if auth then e + size - 2 else p1
  head
    ++ (if cfg.checksum then
          [⟨p1 + extSize - 3,
            [nvCalculateNvarChecksum (applySteps m head) e + flashEmptyByte], p1 + extSize⟩]
        else [])
    ++ [⟨e, leBytes 4 nvarSignature, pEnd⟩]

/-- The `WriteBytes` calls of `CreateVariableEx`. -/
def createSteps (cfg : Config) (s : StoreInfo) (name : Name) (guid : Guid) (attributes : UInt32)
    (data : Bytes) (ext : ExtSecFlags) (appendData : Bytes) (pl : CreatePlan) : List Step :=
  let e := s.pEndOfVars
  let pName := e + 10 + (if pl.fullGuid then 16 else 1)
  let pData := pName + nameBytesLength name
  let p1 := pData + (if isAppend attributes then appendData.length else 0) + data.length
  let body := createHeadSteps s guid pl ++ nameSteps pName name
    ++ dataSteps pData (isAppend attributes) appendData data
  body ++ extSteps cfg e p1 pl.size pl.extSize pl.extFlags (isAuth attributes)
    [leBytes 8 ext.mc.toNat, ext.keyHash] (applySteps s.mem body)

/-- `NextGuid` is incremented as soon as the GUID area is written to, whether
that write succeeds or not: it is call 1 of the block. -/
def createNextGuid (s : StoreInfo) (pl : CreatePlan) (faults : Faults) : Nat :=
  if !pl.fullGuid && pl.guid = s.nextGuid && faults ≠ some 0 then s.nextGuid + 1
  else s.nextGuid

def createVariableEx (cfg : Config) (i : Interface) (s : StoreInfo) (name : Name) (guid : Guid)
    (attributes : UInt32) (data : Bytes) (oldVarGuid : Bool) (ext : ExtSecFlags)
    (appendData : Bytes) (device : Faults) : Status × StoreInfo :=
  let pl := createPlan cfg s name guid attributes data.length appendData.length oldVarGuid
  if 2 ^ 64 ≤ pl.size then (.outOfResources, s)
  else if !isEnoughSpace s pl.size then (.outOfResources, s)
  else
    let steps := createSteps cfg s name guid attributes data ext appendData pl
    let faults := effective i s.mem steps device
    let s' := { s with mem := applySteps s.mem (performed faults steps)
                       nextGuid := createNextGuid s pl faults }
    match brokenAt faults steps with
    | none =>
      (.success, { s' with pEndOfVars := s.pEndOfVars + pl.size
                           lastVarSize := pl.size % 65536 })
    | some p => (.deviceError, recoverFromFlashUpdateFailure s' p pl.size s.pEndOfVars)

def createVariable (cfg : Config) (i : Interface) (s : StoreInfo) (name : Name) (guid : Guid)
    (attributes : UInt32) (data : Bytes) (oldVarGuid : Bool) (ext : ExtSecFlags)
    (device : Faults) : Status × StoreInfo :=
  createVariableEx cfg i s name guid attributes data oldVarGuid ext [] device

/-! ## UpdateVariable -/

/-- What `UpdateVariable` works out before it programs anything. -/
structure UpdatePlan where
  size : Nat
  extSize : Nat
  flags : UInt8
  extFlags : UInt8

def updatePlan (cfg : Config) (attributes : UInt32) (oldDataSize dataSize : Nat) : UpdatePlan :=
  let extSize := (if isAuth attributes then 1 + 8 + 2 else 0)
    + (if cfg.checksum then (if isAuth attributes then 1 else 4) else 0)
  { size := sizeofNvar + (if isAppend attributes then oldDataSize else 0) + dataSize + extSize
    extSize := extSize
    flags := flagValid ||| flagDataOnly
      ||| (if isAuth attributes then flagExtHeder ||| flagAuthWrite else 0)
      ||| (if cfg.checksum then flagExtHeder else 0)
    extFlags := if cfg.checksum then extFlagChecksum else 0 }

/-- The `WriteBytes` calls of `UpdateVariable` on the new record. -/
def updateSteps (cfg : Config) (s : StoreInfo) (attributes : UInt32) (oldData data : Bytes)
    (ext : ExtSecFlags) (pl : UpdatePlan) : List Step :=
  let e := s.pEndOfVars
  let p1 := e + 10 + (if isAppend attributes then oldData.length else 0) + data.length
  let body := ⟨e, nvarHeader pl.size pl.flags, e + 10⟩ ::
    dataSteps (e + 10) (isAppend attributes) oldData data
  body ++ extSteps cfg e p1 pl.size pl.extSize pl.extFlags (isAuth attributes)
    [leBytes 8 ext.mc.toNat] (applySteps s.mem body)

/-- The call that makes `OldVar`, by then the last record of the chain, point to the
new record; `p` is at the end of the contents or of the extended header. -/
def linkStep (cfg : Config) (s : StoreInfo) (attributes : UInt32) (oldData data : Bytes)
    (pl : UpdatePlan) (last : Nat) : Step :=
  let e := s.pEndOfVars
  let p1 := e + 10 + (if isAppend attributes then oldData.length else 0) + data.length
  ⟨last + nextOffset, leBytes 3 (e - last),
    if cfg.checksum then p1 + pl.extSize else if isAuth attributes then e + pl.size - 2 else p1⟩

/-- What an update hands back: the status, the store and the new
`OldVarEntry->FinalDataNvar` when a record was written. -/
structure UpdateResult where
  status : Status
  store : StoreInfo
  finalDataNvar : Option Nat

/-- `UpdateVariable`; `finalDataNvar` is `OldVarEntry->FinalDataNvar`, `none`
when there is no entry or the pointer is not cached. -/
def updateVariable (cfg : Config) (i : Interface) (s : StoreInfo) (oldVar nameSize : Nat)
    (attributes : UInt32) (data : Bytes) (finalDataNvar : Option Nat) (ext : ExtSecFlags)
    (device : Faults) : UpdateResult :=
  if !nvAttribEq s oldVar attributes then ⟨.invalidParameter, s, finalDataNvar⟩
  else
    let old := (nvGetData s (finalDataNvar.getD oldVar) nameSize).getD (0, 0)
    let oldData := peek s.mem old.1 old.2
    -- if new data equal to the old data don't do anything
    if !isAppend attributes && oldData = data
        && (!cfg.checksum || hasFlag s.mem oldVar flagExtHeder) then
      ⟨.success, s, finalDataNvar⟩
    else
      let pl := updatePlan cfg attributes oldData.length data.length
      if !isEnoughSpace s pl.size then ⟨.outOfResources, s, finalDataNvar⟩
      else
        let record := updateSteps cfg s attributes oldData data ext pl
        let last := (finalDataNvar.orElse fun _ =>
          nvGetDataNvar { s with mem := applySteps s.mem record } oldVar).getD 0
        let steps := record ++ [linkStep cfg s attributes oldData data pl last]
        let faults := effective i s.mem steps device
        let s' := { s with mem := applySteps s.mem (performed faults steps) }
        match brokenAt faults steps with
        | none =>
          ⟨.success, { s' with pEndOfVars := s.pEndOfVars + pl.size
                               lastVarSize := pl.size % 65536 }, some s.pEndOfVars⟩
        | some p =>
          -- OldVar has moved to the last record only when the link write was reached
          let prevVar := if faults = some record.length then last else oldVar
          ⟨.deviceError, recoverFromFlashUpdateFailure s' p pl.size prevVar, finalDataNvar⟩

/-! ## DeleteVariable -/

def deleteVariable (i : Interface) (s : StoreInfo) (var : Nat) (device : Faults) :
    Status × StoreInfo :=
  let steps : List Step :=
    [⟨var + flagOffset, [flagsAt s.mem var ^^^ flagValid], var⟩]
  let faults := effective i s.mem steps device
  let s' := { s with mem := applySteps s.mem (performed faults steps) }
  match brokenAt faults steps with
  | none => (.success, s')
  | some _ => (.deviceError, s')

/-! ## Store state checks -/

def isStoreOk (s : StoreInfo) : Bool :=
  (s.lastVarSize == 0 || nvIsVariable s (s.pEndOfVars - s.lastVarSize))
    && rd s.mem 4 s.pEndOfVars == flashEmptySignature
    && sizeAt s.mem s.pEndOfVars == flashEmptySize
    && rd s.mem 4 (s.guidSlot s.nextGuid) == flashEmptySignature

/-- `GetVarAuthExtFlags`. -/
def getVarAuthExtFlags (s : StoreInfo) (var : Nat) (ext : ExtSecFlags) : ExtSecFlags :=
  let authFlags := if s.flags.nonVolatile then ext.authFlags ||| 1 else ext.authFlags
  if hasFlag s.mem var (flagAuthWrite ||| flagExtHeder) then
    { authFlags := authFlags |||
        (s.mem (nvGetExtFlags s.mem var) &&& authenticatedVariableAttributes.toUInt8)
      mc := UInt64.ofNat
        (rd s.mem 8 (nvGetExtFlags s.mem ((nvGetDataNvar s var).getD 0) + 1))
      keyHash := peek s.mem (nvGetExtFlags s.mem var + 1 + 8) hashSha256Len
      len := peek_length _ _ _ }
  else { ext with authFlags := authFlags }

end BayTrail.Nvram
