import Mathlib.Data.List.Basic

/-!
# The CMOS manager

The token and register accesses of `CmosAccess.c` and the status functions of
`CmosManager.c`. What the manager reads of its tables is in `Mgr`, what it writes is in
`State`; the copies of the checksum and of the status in the HOB are left out, as are the
callouts, which do nothing.
-/

namespace BayTrail.Cmos

/-! ## Structures -/

inductive Status where
  | success
  | notFound
  | invalidParameter
  | deviceError
  | unsupported
  deriving DecidableEq

/-- The bits of `CMOS_MANAGER_STATUS` that the accesses look at. -/
inductive Flag where
  | firstBootDetected
  | badChecksum
  | addressIsChecksummed
  | forceNoChecksum
  | badBattery
  | optimalDefaultsEnabled
  | defaultsLoaded
  | recoverOnlyChecksummed
  | errorLoadingDefaults
  | isUsable
  deriving DecidableEq

inductive AccessType where
  | writeType
  | readType

/-! A `CMOS_TOKEN` is sixteen bits: `BitOffset`, `CmosAddress` and `Size` from the lowest. -/

def bitOffset (token : Nat) : Nat := token % 8
def cmosAddress (token : Nat) : Nat := token / 8 % 512
def size (token : Nat) : Nat := token / 4096 % 16

def minTokenValue : Nat := 4096
def cmosDiagnosticStatusRegister : Nat := 0xe

/-- `CMOS_PORT_MAP`. Of a board function there is the cell that it reaches, if it does not
return an error. -/
structure Bank where
  index : Nat
  data : Nat
  low : Nat
  high : Nat
  boardReadWrite : Option (AccessType → Nat → Option Nat)

/-- What `EFI_CMOS_MANAGER_INTERFACE` has of the board and of the generated tables. A table is
what it holds from index 1 on, with the sixteen bits that stand behind it in memory. -/
structure Mgr where
  cmosBank : List Bank
  tokenTable : List Nat
  noChecksumTable : List Nat
  behindNoChecksumTable : Nat
  unmanagedTable : List Nat
  behindUnmanagedTable : Nat
  /-- `FIRST_CMOS_REGISTER` and `LAST_CMOS_REGISTER` -/
  firstCmosRegister : Nat
  lastCmosRegister : Nat
  /-- `FIRST_MANAGED_CMOS_ADDRESS` and `MAX_MANAGED_CMOS_ADDRESS` -/
  firstManagedCmosAddress : Nat
  maxManagedCmosAddress : Nat
  cmosChecksumLow : Nat
  cmosChecksumHigh : Nat
  cmosMgrBatteryBad : Nat
  cmosMgrChecksumBad : Nat
  cmosMgrDefaultsLoaded : Nat
  cmosMgrFirstBootDetected : Nat
  isDxePhase : Bool
  /-- what a variable holds that an access with an error has left as it was -/
  unset : Nat → BitVec 8

/-- `gFirstManagedRegister` and `gLastManagedRegister` are of eight bits. -/
def Mgr.firstManagedRegister (mgr : Mgr) : Nat := mgr.firstCmosRegister % 256
def Mgr.lastManagedRegister (mgr : Mgr) : Nat := mgr.lastCmosRegister % 256

/-- `ManagerStatus`, the registers behind the ports and `OptimalDefaultTable`. -/
structure State where
  status : Flag → Bool
  cells : Nat → BitVec 8
  optimalDefaultTable : Nat → BitVec 8

def State.set (f : Flag) (st : State) : State :=
  { st with status := fun g => g = f || st.status g }

def State.clear (f : Flag) (st : State) : State :=
  { st with status := fun g => g ≠ f && st.status g }

/-- Overwrites one byte. -/
def poke (bytes : Nat → BitVec 8) (at' : Nat) (value : BitVec 8) : Nat → BitVec 8 :=
  fun i => if i = at' then value else bytes i

/-! ## Fields -/

/-- `EncodeParameter`. -/
def encodeParameter (value : BitVec 8) (token : Nat) : BitVec 8 := value <<< bitOffset token

/-- `0xff >> (8 - Size)`. -/
def sizeMask (token : Nat) : BitVec 8 := 0xff#8 >>> (8 - size token)

/-- `DecodeParameter`. -/
def decodeParameter (value : BitVec 8) (token : Nat) : BitVec 8 :=
  value >>> bitOffset token &&& sizeMask token

/-- `BitFieldOverflow`. -/
def bitFieldOverflow (value : BitVec 8) (token : Nat) : Bool := value &&& ~~~ sizeMask token ≠ 0

/-- `SetClobberBits`. -/
def setClobberBits (token : Nat) : BitVec 8 := sizeMask token <<< bitOffset token

/-! ## Registers -/

/-- `CmosBankReadWrite`: the cell that is read or written, none for an error. A bank with neither
a function nor two ports is passed over. -/
def cmosBank (type : AccessType) (address : Nat) : List Bank → Option Nat
  | [] => none
  | bank :: banks =>
    if bank.low ≤ address ∧ address ≤ bank.high then
      match bank.boardReadWrite with
      | some boardReadWrite => boardReadWrite type address
      | none =>
        if 0 < bank.index ∧ 0 < bank.data then some (bank.index * 256 + address % 256)
        else cmosBank type address banks
    else cmosBank type address banks

/-- `ReadWriteStandardRange`: the low bits of the index select the register. -/
def readWriteStandardRange : AccessType → Nat → Option Nat :=
  fun _ cmosRegister => if 0x7f < cmosRegister then none else some (0x70 * 256 + cmosRegister)

def bankRead (mgr : Mgr) (st : State) (address : Nat) : BitVec 8 :=
  match cmosBank .readType address mgr.cmosBank with
  | none => mgr.unset address
  | some cell => st.cells cell

def bankWrite (mgr : Mgr) (st : State) (address : Nat) (value : BitVec 8) : State :=
  match cmosBank .writeType address mgr.cmosBank with
  | none => st
  | some cell => { st with cells := poke st.cells cell value }

/-- The entry that the search for an address ends at. -/
def searchTable (address behind : Nat) (table : List Nat) : Nat :=
  (table.find? (address ≤ ·)).getD behind

/-- `NotChecksummed`. -/
def notChecksummed (mgr : Mgr) (address : Nat) : Bool :=
  address = searchTable address mgr.behindNoChecksumTable mgr.noChecksumTable

/-- Where `CmosReadWrite` goes. -/
def useBufferAccess (mgr : Mgr) (st : State) (address : Nat) : Bool :=
  st.status .optimalDefaultsEnabled &&
  !(st.status .isUsable && st.status .recoverOnlyChecksummed && notChecksummed mgr address)

def bufferIndex (mgr : Mgr) (address : Nat) : Nat := address - mgr.firstCmosRegister + 1

/-- The addresses that `CmosBufferReadWrite` refuses. -/
def bufferRefuses (mgr : Mgr) (address : Nat) : Bool :=
  address < mgr.firstCmosRegister || mgr.lastCmosRegister < address

/-- `CmosReadWrite` that reads; an address that is refused leaves the parameter. -/
def cmosReadRegister (mgr : Mgr) (st : State) (address : Nat) (parameter : BitVec 8) : BitVec 8 :=
  if useBufferAccess mgr st address then
    if bufferRefuses mgr address then parameter else st.optimalDefaultTable (bufferIndex mgr address)
  else bankRead mgr st address

/-- `CmosFindToken`, as the position behind index 0. -/
def cmosFindToken (mgr : Mgr) (cmosToken : Nat) : Option Nat :=
  mgr.tokenTable.findIdx? (· = cmosToken)

/-- `CmosRead`. The errors of the accesses below `CmosReadWriteEncodedToken` are dropped. -/
def cmosRead (mgr : Mgr) (st : State) (cmosToken : Nat) (value : BitVec 8) : Status × BitVec 8 :=
  if cmosToken ≤ 0xe then
    match cmosBank .readType cmosToken mgr.cmosBank with
    | none => (.notFound, value)
    | some cell => (.success, st.cells cell)
  else if cmosToken < minTokenValue then
    if !st.status .isUsable then (.deviceError, value)
    else
      match cmosBank .readType cmosToken mgr.cmosBank with
      | none => (.notFound, value)
      | some cell => (.success, st.cells cell)
  else
    match cmosFindToken mgr cmosToken with
    | none => (.invalidParameter, value)
    | some i =>
      let token := (mgr.tokenTable[i]?).getD 0
      (.success, decodeParameter (cmosReadRegister mgr st (cmosAddress token) value) token)

/-! ## Checksum -/

/-- `ReadChecksum`. -/
def readChecksum (mgr : Mgr) (st : State) (checksumValue : BitVec 16) : BitVec 16 :=
  let high := (cmosRead mgr st mgr.cmosChecksumHigh (checksumValue.setWidth 8)).2
  let low := (cmosRead mgr st mgr.cmosChecksumLow 0).2
  high.setWidth 16 <<< 8 ||| low.setWidth 16

/-- `CalculateUpdatedCheckSum`. -/
def calculateUpdatedCheckSum (mgr : Mgr) (st : State) (address : Nat)
    (oldCmosValue newCmosValue : BitVec 8) : State × BitVec 16 :=
  if address = searchTable address mgr.behindNoChecksumTable mgr.noChecksumTable ∨
      address = searchTable address mgr.behindUnmanagedTable mgr.unmanagedTable then
    (st.clear .addressIsChecksummed, 0)
  else
    (st.set .addressIsChecksummed,
      readChecksum mgr st 0 - oldCmosValue.setWidth 16 + newCmosValue.setWidth 16)

/-- What `CmosPhysicalReadWrite` and `CmosBufferReadWrite` do to write a register. The checksum
is written with `CMOS_FORCE_NO_CHECKSUM`, so that this does not come here a third time. -/
def writeRegister (mgr : Mgr) (writeChecksum : State → BitVec 16 → State)
    (store : State → BitVec 8 → State) (cmosRegisterValue : BitVec 8) (st : State) (address : Nat)
    (bitsToWrite parameter : BitVec 8) : State :=
  let newValue := cmosRegisterValue &&& ~~~ bitsToWrite ||| parameter
  let (st, newChecksum) :=
    if !st.status .forceNoChecksum then
      calculateUpdatedCheckSum mgr st address cmosRegisterValue newValue
    else (st, 0)
  let st := store st newValue
  if !st.status .forceNoChecksum && st.status .addressIsChecksummed then
    (writeChecksum (st.set .forceNoChecksum) newChecksum).clear .forceNoChecksum
  else st

/-- `CmosPhysicalReadWrite` that writes. -/
def cmosPhysicalWrite (mgr : Mgr) (writeChecksum : State → BitVec 16 → State) (st : State)
    (address : Nat) (bitsToWrite parameter : BitVec 8) : State :=
  writeRegister mgr writeChecksum (fun st value => bankWrite mgr st address value)
    (bankRead mgr st address) st address bitsToWrite parameter

/-- `CmosBufferReadWrite` that writes. -/
def cmosBufferWrite (mgr : Mgr) (writeChecksum : State → BitVec 16 → State) (st : State)
    (address : Nat) (bitsToWrite parameter : BitVec 8) : State :=
  if bufferRefuses mgr address then st
  else
    let i := bufferIndex mgr address
    writeRegister mgr writeChecksum
      (fun st value => { st with optimalDefaultTable := poke st.optimalDefaultTable i value })
      (st.optimalDefaultTable i) st address bitsToWrite parameter

/-- `CmosReadWrite` that writes. -/
def cmosWriteRegister (mgr : Mgr) (writeChecksum : State → BitVec 16 → State) (st : State)
    (address : Nat) (bitsToWrite parameter : BitVec 8) : State :=
  if useBufferAccess mgr st address then
    cmosBufferWrite mgr writeChecksum st address bitsToWrite parameter
  else cmosPhysicalWrite mgr writeChecksum st address bitsToWrite parameter

/-- `CmosReadWriteEncodedToken` that writes. -/
def cmosWriteEncodedToken (mgr : Mgr) (writeChecksum : State → BitVec 16 → State) (st : State)
    (token : Nat) (value : BitVec 8) : Status × State :=
  if bitFieldOverflow value token then (.invalidParameter, st)
  else
    (.success, cmosWriteRegister mgr writeChecksum st (cmosAddress token) (setClobberBits token)
      (encodeParameter value token))

/-- `CmosWrite`, given how a checksum is written. -/
def cmosWriteWith (mgr : Mgr) (writeChecksum : State → BitVec 16 → State) (st : State)
    (cmosToken : Nat) (value : BitVec 8) : Status × State :=
  if cmosToken ≤ 0xe then
    match cmosBank .writeType cmosToken mgr.cmosBank with
    | none => (.notFound, st)
    | some cell => (.success, { st with cells := poke st.cells cell value })
  else if cmosToken < minTokenValue then
    if !st.status .isUsable then (.deviceError, st)
    else if mgr.firstManagedCmosAddress ≤ cmosToken ∧ cmosToken < mgr.maxManagedCmosAddress then
      (.invalidParameter, st)
    else
      match cmosBank .writeType cmosToken mgr.cmosBank with
      | none => (.notFound, st)
      | some cell => (.success, { st with cells := poke st.cells cell value })
  else
    match cmosFindToken mgr cmosToken with
    | none => (.invalidParameter, st)
    | some i => cmosWriteEncodedToken mgr writeChecksum st ((mgr.tokenTable[i]?).getD 0) value

/-- `WriteChecksum`: with `CMOS_FORCE_NO_CHECKSUM` no write comes to a checksum. -/
def writeChecksum (mgr : Mgr) (st : State) (checksumValue : BitVec 16) : State :=
  let write := cmosWriteWith mgr fun st _ => st
  let st := st.set .forceNoChecksum
  let st := (write st mgr.cmosChecksumLow (checksumValue.setWidth 8)).2
  let st := (write st mgr.cmosChecksumHigh ((checksumValue >>> 8).setWidth 8)).2
  st.clear .forceNoChecksum

/-- `CmosWrite`. -/
def cmosWrite (mgr : Mgr) (st : State) (cmosToken : Nat) (value : BitVec 8) : Status × State :=
  cmosWriteWith mgr (writeChecksum mgr) st cmosToken value

/-! ## Status -/

/-- One bit of the diagnostic status register is set, cleared or left. -/
def synchronizeBit (mgr : Mgr) (bit : BitVec 8) (set : Bool) (st : State) : State :=
  let statusByte := bankRead mgr st cmosDiagnosticStatusRegister
  let statusByte := if set then statusByte ||| bit
    else if mgr.isDxePhase then statusByte &&& ~~~ bit else statusByte
  bankWrite mgr st cmosDiagnosticStatusRegister statusByte

/-- `SynchronizeLegacyStatusRegisters`. -/
def synchronizeLegacyStatusRegisters (mgr : Mgr) (bitMap : Flag → Bool) (set : Bool)
    (st : State) : State :=
  let st := if bitMap .badChecksum then synchronizeBit mgr 0x40#8 set st else st
  if bitMap .badBattery then synchronizeBit mgr 0x80#8 set st else st

/-- The tokens that keep a status, with the bit that each stands for. -/
def Mgr.statusTokens (mgr : Mgr) : List (Flag × Nat) :=
  [(.badBattery, mgr.cmosMgrBatteryBad), (.badChecksum, mgr.cmosMgrChecksumBad),
    (.defaultsLoaded, mgr.cmosMgrDefaultsLoaded),
    (.firstBootDetected, mgr.cmosMgrFirstBootDetected)]

/-- `CmosManagerSetClearStatus`. -/
def cmosManagerSetClearStatus (mgr : Mgr) (bitMap : Flag → Bool) (set : Bool) (st : State) : State :=
  let st :=
    if set then
      let st := { st with status := fun f => st.status f || bitMap f }
      if st.status .isUsable then
        mgr.statusTokens.foldl
          (fun st entry => if bitMap entry.1 then (cmosWrite mgr st entry.2 1).2 else st) st
      else st
    else { st with status := fun f => st.status f && !bitMap f }
  if bitMap .badChecksum || bitMap .badBattery then
    synchronizeLegacyStatusRegisters mgr bitMap set st
  else st

/-! ## The whole checksum -/

/-- The loop of `CalculateChecksum`. The searches go on where they stopped. -/
def sumRegisters (mgr : Mgr) (st : State) :
    List Nat → List Nat → List Nat → BitVec 16 → BitVec 16
  | [], _, _, checksum => checksum
  | register :: registers, unmanaged, noChecksum, checksum =>
    let unmanaged := unmanaged.dropWhile (· < register)
    if register = unmanaged.head?.getD mgr.behindUnmanagedTable then
      sumRegisters mgr st registers unmanaged noChecksum checksum
    else
      let noChecksum := noChecksum.dropWhile (· < register)
      if register = noChecksum.head?.getD mgr.behindNoChecksumTable then
        sumRegisters mgr st registers unmanaged noChecksum checksum
      else
        sumRegisters mgr st registers unmanaged noChecksum
          (checksum + (cmosReadRegister mgr st register (mgr.unset register)).setWidth 16)

/-- The registers from the first managed one to the last. -/
def Mgr.managedRegisters (mgr : Mgr) : List Nat :=
  List.range' mgr.firstManagedRegister (mgr.lastManagedRegister + 1 - mgr.firstManagedRegister)

def sumChecksum (mgr : Mgr) (st : State) : BitVec 16 :=
  sumRegisters mgr st mgr.managedRegisters mgr.unmanagedTable mgr.noChecksumTable 0

/-- `CalculateChecksum`. -/
def calculateChecksum (mgr : Mgr) (st : State) : State × BitVec 16 :=
  let checksumValue := sumChecksum mgr st
  let currentChecksum := readChecksum mgr st ((mgr.unset 0).setWidth 16)
  (cmosManagerSetClearStatus mgr (· = .badChecksum) (checksumValue ≠ currentChecksum) st,
    checksumValue)

end BayTrail.Cmos
