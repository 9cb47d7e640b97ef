import BayTrail.Lib.Bytes
import BayTrail.Lib.Run

/-!
# Walks over a configuration descriptor

`USB_DetectNewDevice`, `USB_ReConfigDevice` and `USB_ResetAndReconfigDev` of `Usb.c`, from the outside
seen as what they read of the descriptors that a device sends, and what they allocate and free. What
else they call is answered by the environment.
-/

namespace BayTrail.Usb.Descriptor

open Lib (Mem Next rd)

/-- `MAX_CONTROL_DATA_SIZE` -/
def maxControlDataSize : Nat := 0x800

/-- `GET_MEM_BLK_COUNT` -/
def getMemBlkCount (size : Nat) : Nat := (size + 31) / 32

/-- `sizeof(DEV_DESC)` -/
def devDescSize : Nat := 18

def descTypeConfig : UInt8 := 2
def descTypeInterface : UInt8 := 4
def baseClassHub : UInt8 := 9

/-! The fields of a descriptor, by where they are in it: the header, which all have, and what an
`INTRF_DESC` and a `CNFG_DESC` have behind it. -/

def bDescLength : Nat := 0
def bDescType : Nat := 1
def bInterfaceNum : Nat := 2
def bAltSettingNum : Nat := 3
def bBaseClass : Nat := 5
def wTotalLength (c : Mem) : Nat := rd c 2 2
def bNumInterfaces (c : Mem) : Nat := (c 4).toNat
def bConfigValue (c : Mem) : Nat := (c 5).toNat

/-- A field that has been read of the descriptor at an offset. -/
abbrev Read := Nat × Nat

/-- A buffer, by its number, and so many blocks. -/
abbrev Blocks := Nat × Nat

/-- What a function has done. -/
structure Log where
  reads : List Read := []
  allocs : List Blocks := []
  frees : List Blocks := []

namespace Log

def read (log : Log) (reads : List Read) : Log := { log with reads := reads ++ log.reads }
def alloc (log : Log) (b : Blocks) : Log := { log with allocs := b :: log.allocs }
def free (log : Log) (b : Blocks) : Log := { log with frees := b :: log.frees }

end Log

/-! ## Getting a descriptor -/

/-- What is in the buffer after each of the two calls of `USB_GetDescriptor`; none if it fails. -/
abbrev Answer := Bool → Option Mem

/-- The configuration descriptor, and the `TotalLength` that was wanted. -/
def getConfig (answer : Answer) : Option (Mem × Nat) :=
  match answer false with
  | none => none
  | some c =>
    let totalLength := wTotalLength c
    if 0xFF < totalLength then
      let totalLength := if maxControlDataSize - 1 < totalLength then maxControlDataSize - 1 else totalLength
      (answer true).map fun c => (c, totalLength)
    else some (c, totalLength)

/-! ## `USB_DetectNewDevice` -/

/-- The loop that looks for an alternate setting, at `DescLength`. -/
def altRound (c : Mem) (totalLength : Nat) (s : Nat × List Read) : Next (Nat × List Read) (Bool × List Read) :=
  if s.1 < totalLength then
    let length := (c (s.1 + bDescLength)).toNat
    let reads := (s.1, bDescLength) :: s.2
    if length = 0 ∨ totalLength < length + s.1 then .done (false, reads)
    else
      let reads := (s.1, bDescType) :: reads
      if c (s.1 + bDescType) = descTypeInterface then
        let reads := (s.1, bAltSettingNum) :: reads
        if c (s.1 + bAltSettingNum) ≠ 0 then .done (true, reads) else .again ((s.1 + length) % 2 ^ 16, reads)
      else .again ((s.1 + length) % 2 ^ 16, reads)
  else .done (false, s.2)

/-- `USBIdentifyAndConfigureDevice`, for the interface at an offset: whether it finds a device, and what
it leaves in the buffer, as the class of a device known to be wrong is put right there. -/
abbrev Identify := Nat → Mem → Bool × Mem

/-- The loop over the interfaces: the buffer, `DescLength` and whether a device has been configured. -/
structure Walk where
  content : Mem
  descLength : Nat
  devConfigured : Bool
  reads : List Read

/-- An interface without an alternate setting is identified. -/
def identified (identify : Identify) (c : Mem) (p : Nat) : Bool × Mem :=
  if c (p + bDescType) = descTypeInterface ∧ c (p + bAltSettingNum) = 0 then identify p c else (false, c)

/-- What is read of a descriptor: its type, and a field of an interface. -/
def interfaceReads (c : Mem) (p field : Nat) : List Read :=
  if c (p + bDescType) = descTypeInterface then [(p, field), (p, bDescType)] else [(p, bDescType)]

def interfaceRound (totalLength : Nat) (identify : Identify) (s : Walk) : Next Walk (Bool × List Read) :=
  let p := s.descLength
  if p < totalLength then
    let length := (s.content (p + bDescLength)).toNat
    let reads := (p, bDescLength) :: s.reads
    if length = 0 ∨ totalLength < length + p then .done (s.devConfigured, reads)
    else
      let reads := interfaceReads s.content p bAltSettingNum ++ reads
      let found := identified identify s.content p
      let devConfigured := s.devConfigured || found.1
      let c := found.2
      let length := (c (p + bDescLength)).toNat
      let reads := (p, bDescLength) :: reads
      if length = 0 then .done (devConfigured, reads)
      else
        let reads := interfaceReads c p bBaseClass ++ reads
        if c (p + bDescType) = descTypeInterface ∧ c (p + bBaseClass) = baseClassHub then .done (devConfigured, reads)
        else .again ⟨c, (p + length) % 2 ^ 16, devConfigured, reads⟩
  else .done (s.devConfigured, s.reads)

/-- What `USB_DetectNewDevice` is answered: `config` and `identify` by the round of the loop over the
configurations. -/
structure Detection where
  alloc : Bool
  initDeviceData : Bool
  shortDevDesc : Option Mem
  freeAddress : Bool
  setAddress : Bool
  devDesc : Option Mem
  configNum : Nat
  config : Nat → Answer
  identify : Nat → Identify

/-- `DevInfo->DevDesc.NumConfigs` -/
def numConfigs (devDesc : Mem) : Nat := if devDesc 17 = 0 then 1 else (devDesc 17).toNat

/-- A wrong length of the configuration descriptor is put right. -/
def mendLength (c : Mem) : Mem := if c 0 = 0 then fun a => if a = 0 then 9 else c a else c

/-- The loop over the configurations: the round, `bConfigNum` and what has been done. -/
structure Configs where
  round : Nat
  configNum : Nat
  log : Log

def configRound (env : Detection) (numConfigs : Nat) (s : Configs) : Lib.Run (Next Configs (Bool × Log)) :=
  match getConfig (env.config s.round) with
  | none => pure (.done (false, s.log))
  | some (c, totalLength) =>
    if c bDescType = descTypeConfig then do
      let c := mendLength c
      let identify := env.identify s.round
      let start := (c bDescLength).toNat
      let alt ← Lib.Run.loop (fun s => pure (altRound c totalLength s)) (start, [])
      let walked ← Lib.Run.loop (fun s => pure (interfaceRound totalLength identify s)) ⟨c, start, false, []⟩
      let log := (s.log.read alt.2).read walked.2
      let next := (bConfigValue c + 1) % 2 ^ 8
      if walked.1 then return .done (true, log)
      else if next < numConfigs then return .again ⟨s.round + 1, next, log⟩
      else return .done (false, log)
    else
      let next := (s.configNum + 1) % 2 ^ 8
      if next < numConfigs then pure (.again ⟨s.round + 1, next, s.log⟩) else pure (.done (false, s.log))

/-- `USB_DetectNewDevice`: whether a device has been configured. -/
def detectNewDevice (env : Detection) : Lib.Run (Bool × Log) :=
  if env.alloc = false then pure (false, {})
  else
    let log := Log.alloc {} (0, getMemBlkCount maxControlDataSize)
    -- all ways out from here on free the buffer
    let leave := fun log : Log => log.free (0, maxControlDataSize / 32 % 2 ^ 8)
    if env.initDeviceData = false then pure (false, leave log)
    else if env.shortDevDesc.isNone then pure (false, leave log)
    else if env.freeAddress = false ∨ env.setAddress = false then pure (false, leave log)
    else
      match env.devDesc with
      | none => pure (false, leave log)
      | some devDesc =>
        if devDesc 0 < 18 then pure (false, leave log)
        else do
          let found ← Lib.Run.loop (configRound env (numConfigs devDesc)) ⟨0, env.configNum, log⟩
          return (found.1, leave found.2)

/-! ## `USB_ReConfigDevice` -/

/-- What `USB_ReConfigDevice` is answered, and what it looks for. -/
structure ReConfig where
  usbBus : Bool
  alloc : Bool
  numConfigs : UInt8
  configNum : Nat
  interfaceNum : UInt8
  altSettingNum : UInt8
  config : Nat → Answer
  reconfigured : Bool

/-- The loop over the configurations. -/
def findRound (env : ReConfig) (config : Nat) : Next Nat (Option Mem) :=
  if config < env.numConfigs.toNat then
    match getConfig (env.config config) with
    | none => .done none
    | some (c, _) =>
      if c bDescType = descTypeConfig ∧ env.configNum = bConfigValue c then .done (some c) else .again ((config + 1) % 2 ^ 8)
  else .done none

/-- The loop over the descriptors, at `Offset`. -/
def matchRound (env : ReConfig) (c : Mem) (descLength : Nat) (s : Nat × List Read) :
    Next (Nat × List Read) (Bool × List Read) :=
  if s.1 < descLength then
    let length := (c (s.1 + bDescLength)).toNat
    let reads := (s.1, bDescLength) :: s.2
    if length = 0 then .done (false, reads)
    else
      let reads := (s.1, bDescType) :: reads
      if c (s.1 + bDescType) = descTypeInterface then
        let reads := (s.1, bAltSettingNum) :: (s.1, bInterfaceNum) :: reads
        if env.interfaceNum = c (s.1 + bInterfaceNum) ∧ env.altSettingNum = c (s.1 + bAltSettingNum) then .done (true, reads)
        else .again ((s.1 + length) % 2 ^ 16, reads)
      else .again ((s.1 + length) % 2 ^ 16, reads)
  else .done (false, s.2)

/-- `USB_ReConfigDevice`: whether it returns `USB_SUCCESS`. -/
def reConfigDevice (env : ReConfig) : Lib.Run (Bool × Log) :=
  if env.usbBus = false then pure (true, {})
  else if env.alloc = false then pure (false, {})
  else do
    let log := Log.alloc {} (0, getMemBlkCount maxControlDataSize)
    let found ← Lib.Run.loop (fun config => pure (findRound env config)) 0
    let matched ← match found with
      | none => pure (false, [])
      | some c =>
        let descLength := if maxControlDataSize - 1 < wTotalLength c then maxControlDataSize - 1 else wTotalLength c
        Lib.Run.loop (fun s => pure (matchRound env c descLength s)) ((c bDescLength).toNat, [])
    return (matched.1 && env.reconfigured, (log.read matched.2).free (0, maxControlDataSize / 32 % 2 ^ 8))

/-! ## `USB_ResetAndReconfigDev` -/

/-- What `USB_ResetAndReconfigDev` is answered. -/
structure Reset where
  portEnabled : Bool
  allocDevDesc : Bool
  devDesc : Option Mem
  setAddress : Bool
  alloc : Bool
  config : Nat → Answer

/-- The `do` loop, at the descriptor that is left. -/
def stepRound (c : Mem) (s : Nat × List Read) : Next (Nat × List Read) (Nat × List Read) :=
  let p := s.1 + (c (s.1 + bDescLength)).toNat
  let reads := (s.1, bDescLength) :: s.2
  if wTotalLength c < p ∨ maxControlDataSize < p then .done (p, reads)
  else
    let reads := (p, bDescType) :: reads
    if c (p + bDescType) ≠ descTypeInterface then .again (p, reads) else .done (p, reads)

/-- The loop over the interfaces: how many have been, and where the last one is. -/
structure Interfaces where
  intrfIndx : Nat
  intrfDesc : Nat
  reads : List Read

def intrfRound (c : Mem) (s : Interfaces) : Lib.Run (Next Interfaces (List Read)) :=
  if s.intrfIndx < bNumInterfaces c then do
    let stepped ← Lib.Run.loop (fun s => pure (stepRound c s)) (s.intrfDesc, s.reads)
    let reads := (stepped.1, bDescType) :: stepped.2
    if c (stepped.1 + bDescType) ≠ descTypeInterface then return .done reads
    else return .again ⟨(s.intrfIndx + 1) % 2 ^ 8, stepped.1, reads⟩
  else pure (.done s.reads)

/-- The loop over the configurations. -/
def resetRound (env : Reset) (numConfigs : Nat) (s : Nat × Log) : Lib.Run (Next (Nat × Log) Log) :=
  if s.1 < numConfigs then
    match getConfig (env.config s.1) with
    | none => pure (.again ((s.1 + 1) % 2 ^ 8, s.2))
    | some (c, _) => do
      let reads ← Lib.Run.loop (intrfRound c) ⟨0, 0, []⟩
      return .again ((s.1 + 1) % 2 ^ 8, s.2.read reads)
  else pure (.done s.2)

/-- `USB_ResetAndReconfigDev`: whether it returns `USB_SUCCESS`. -/
def resetAndReconfigDev (env : Reset) : Lib.Run (Bool × Log) :=
  if env.portEnabled = false then pure (false, {})
  else if env.allocDevDesc = false then pure (false, {})
  else
    let small := getMemBlkCount devDescSize
    let large := getMemBlkCount maxControlDataSize
    let log := Log.alloc {} (0, small)
    match env.devDesc with
    | none => pure (false, log.free (0, small))
    | some devDesc =>
      if env.setAddress = false then pure (false, log.free (0, small))
      else if env.alloc = false then pure (false, log.free (0, small))
      else do
        let log ← Lib.Run.loop (resetRound env (devDesc 17).toNat) (0, log.alloc (1, large))
        return (true, (log.free (0, small)).free (1, large))

end BayTrail.Usb.Descriptor
