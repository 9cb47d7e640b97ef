import Mathlib.Data.BitVec

/-!
# USB devices

The table of `DEV_INFO` entries and the map of device addresses, as `Rt/Usb.c` works on them.
Of an entry there is what decides about entries and addresses. What a device, its driver and
the host controller answer comes in as data.
-/

namespace BayTrail.Usb

/-! ## Structures -/

/-- `MAX_DEVICES`, the sum of `USB_DEV_HID_COUNT`, `USB_DEV_MASS_COUNT`, `USB_DEV_HUB_COUNT`,
`USB_DEV_CCID_COUNT` and `USB_DEV_UNSUPPORTED`. -/
def maxDevices : Nat := 15 + 6 + 12 + 6 + 16

def hidCount : Nat := 15
def massCount : Nat := 6
def hubCount : Nat := 12
def ccidCount : Nat := 6

def baseClassHid : Nat := 0x03
def baseClassMassStorage : Nat := 0x08
def baseClassHub : Nat := 0x09
def baseClassCcidStorage : Nat := 0x0b

/-- `BIOS_DEV_TYPE_*`, also for the driver of the type. -/
inductive DeviceType where
  | unknown
  | hid
  | hub
  | storage
  | usbbus
  | ccid
  deriving DecidableEq

/-- A `DEV_INFO`; the first five are bits of its `Flag`. -/
structure Entry where
  validStruc : Bool
  devPresent : Bool
  devDummy : Bool
  devBus : Bool
  massDevRegd : Bool
  deviceType : DeviceType
  baseClass : Nat
  vendorId : Nat
  deviceId : Nat
  interfaceNum : Nat
  lun : Nat
  endpointSpeed : Nat
  hubDeviceNumber : Nat
  hubPortNumber : Nat
  deviceAddress : Nat
  deviceDriver : Option DeviceType
  hubNumPorts : Nat
  /-- The debug port, of a hub with `USB_INCMPT_RMH_DEVICE`. -/
  skippedPort : Option Nat
  deriving DecidableEq

def emptyEntry : Entry where
  validStruc := false
  devPresent := false
  devDummy := false
  devBus := false
  massDevRegd := false
  deviceType := .unknown
  baseClass := 0
  vendorId := 0
  deviceId := 0
  interfaceNum := 0
  lun := 0
  endpointSpeed := 0
  hubDeviceNumber := 0
  hubPortNumber := 0
  deviceAddress := 0
  deviceDriver := none
  hubNumPorts := 0
  skippedPort := none

/-- Where `USB_DetectNewDevice` is, after it has set an address: whether a device is configured,
and of which entry the logical units are made. -/
structure Detection where
  devConfigured : Bool
  unitsOf : Option Nat
  deriving DecidableEq

/-- `aDevInfoTable` from entry 1 on, behind it the three entries for hot plug; entry 0, the
temporary one; and the map, where the bit of a free address is set. -/
structure State where
  devInfo : Nat → Entry
  temp : Entry
  deviceAddressMap : BitVec 64
  detection : Option Detection

/-- The indices that the loops over the table go through. -/
def indices : List Nat := List.range' 1 (maxDevices - 1)

def State.set (s : State) (i : Nat) (e : Entry) : State :=
  { s with devInfo := Function.update s.devInfo i e }

def setBit (map : BitVec 64) (address : Nat) : BitVec 64 := map ||| (1#64 <<< address)

def clearBit (map : BitVec 64) (address : Nat) : BitVec 64 := map &&& ~~~(1#64 <<< address)

/-- Sets the bit of the address of an entry, and the address to zero. -/
def returnAddress (s : State) (i : Nat) : State :=
  if (s.devInfo i).deviceAddress ≠ 0 then
    { s.set i { s.devInfo i with deviceAddress := 0 } with
      deviceAddressMap := setBit s.deviceAddressMap (s.devInfo i).deviceAddress }
  else s

/-! ## Stopping -/

/-- The ports that `USBHUBDisconnectDevice` stops. -/
def hubPorts (e : Entry) : List Nat :=
  (List.range' 1 e.hubNumPorts).filter fun port => e.skippedPort ≠ some port

/-- `pfnDisconnectDevice` of the driver of an entry, which then has no driver. That of hubs is
the one that stops devices. -/
def disconnectDevice (stop : State → Nat → Nat → Option State) (s : State) (i : Nat) :
    Option State :=
  (if (s.devInfo i).deviceDriver = some .hub then
    (hubPorts (s.devInfo i)).foldlM (fun s port => stop s (s.devInfo i).deviceAddress port) s
  else some s).map fun s => s.set i { s.devInfo i with deviceDriver := none }

def Entry.isAt (e : Entry) (hubAddr port : Nat) : Bool :=
  e.validStruc && !e.devDummy && e.hubDeviceNumber = hubAddr && e.hubPortNumber = port

def leaveEntry (s : State) (i : Nat) : State :=
  let s := returnAddress s i
  let e := s.devInfo i
  s.set i { e with
    devPresent := false
    validStruc := e.validStruc && (e.devBus || e.massDevRegd) }

/-- `USB_StopDevice`. The depth of the recursion is that of the hubs; it is bounded by `fuel`. -/
def stopDevice : Nat → State → Nat → Nat → Option State
  | 0, _, _, _ => none
  | fuel + 1, s, hubAddr, hcPort =>
    indices.foldlM (fun s count =>
      if (s.devInfo count).isAt hubAddr hcPort then
        (disconnectDevice (stopDevice fuel) s count).map (leaveEntry · count)
      else some s) s

/-! ## Configuring -/

def sameDevice (e dev : Entry) (lun : Nat) : Bool :=
  e.vendorId = dev.vendorId && e.deviceId = dev.deviceId && e.interfaceNum = dev.interfaceNum &&
  e.endpointSpeed = dev.endpointSpeed && e.lun = lun

def isAbandoned (dev : Entry) (lun : Nat) (e : Entry) : Bool :=
  !e.devDummy && e.validStruc &&
  !(e.devPresent && (e.hubDeviceNumber ≠ dev.hubDeviceNumber || e.hubPortNumber ≠ dev.hubPortNumber)) &&
  sameDevice e dev lun

/-- `USBGetProperDeviceInfoStructure`: the first entry of the device, else the first free one. -/
def getProperDeviceInfoStructure (s : State) (dev : Entry) (lun : Nat) : Option Nat :=
  match indices.find? (fun i => isAbandoned dev lun (s.devInfo i)) with
  | some i => some i
  | none => indices.find? (fun i => !(s.devInfo i).devDummy && !(s.devInfo i).validStruc)

/-- The number of devices for which `CheckDeviceLimit` counts a class as full. -/
def deviceLimit (baseClass : Nat) : Option Nat :=
  if baseClass = baseClassHid then some hidCount
  else if baseClass = baseClassHub then some hubCount
  else if baseClass = baseClassMassStorage then some massCount
  else if baseClass = baseClassCcidStorage then some (ccidCount + 1)
  else none

/-- Without any device of the class `USBAPI_CheckDevicePresence` returns an error. -/
def checkDeviceLimit (s : State) (baseClass : Nat) : Bool :=
  let devNumber := indices.countP fun i =>
    (s.devInfo i).baseClass = baseClass && (s.devInfo i).devPresent
  devNumber ≠ 0 && deviceLimit baseClass = some devNumber

def Entry.addFlags (dev e : Entry) : Entry :=
  { dev with
    validStruc := dev.validStruc || e.validStruc
    devPresent := dev.devPresent || e.devPresent
    devDummy := dev.devDummy || e.devDummy
    devBus := dev.devBus || e.devBus
    massDevRegd := dev.massDevRegd || e.massDevRegd }

/-- The entry that the device gets: a registered one keeps what it is. -/
def connectEntry (dev e : Entry) : Entry :=
  if e.massDevRegd then
    { e with
      hubDeviceNumber := dev.hubDeviceNumber
      hubPortNumber := dev.hubPortNumber
      endpointSpeed := dev.endpointSpeed
      deviceAddress := dev.deviceAddress
      validStruc := true
      devPresent := true }
  else { dev with devDummy := false, validStruc := true, devPresent := true }

/-- An entry that a device leaves behind is taken over by the device of the temporary entry. -/
def takeOver (s : State) (i : Nat) : State :=
  let s := if (s.devInfo i).devPresent then returnAddress s i else s
  s.set i (connectEntry s.temp (s.devInfo i))

/-- `USB_ConfigureDevice`, for the device of the temporary entry. -/
def configureDevice (fuel : Nat) (s : State) : Option (Option Nat × State) :=
  match getProperDeviceInfoStructure s s.temp 0 with
  | none => some (none, s)
  | some i =>
    if (s.devInfo i).validStruc then
      (disconnectDevice (stopDevice fuel)
        { s with temp := s.temp.addFlags (s.devInfo i) } i).map fun s => (some i, takeOver s i)
    else if checkDeviceLimit s s.temp.baseClass then some (none, s)
    else some (some i, s.set i (connectEntry s.temp (s.devInfo i)))

/-- What `pfnConfigureDevice` of a driver comes to: the entry; nothing, where the entry is left
with a type; or, for a disk outside of EFI, one of the entries for hot plug. -/
inductive Outcome where
  | configured
  | failed (deviceType : DeviceType)
  | hotplug (which : Nat)

/-- An interface descriptor with alternate setting 0. `driver` is what
`USBIdentifyAndConfigureDevice` finds for it, which is none also for a device that is disabled
or skipped; `maxLun` is `bMaxLUN` of a disk. -/
structure Interface where
  interfaceNum : Nat
  baseClass : Nat
  driver : Option DeviceType
  outcome : Outcome
  hubNumPorts : Nat
  skippedPort : Option Nat
  maxLun : Nat

/-- The temporary entry, as an interface fills it. -/
def identify (s : State) (itf : Interface) : State :=
  let temp := { s.temp with interfaceNum := itf.interfaceNum }
  match itf.driver with
  | none => { s with temp := temp }
  | some type => { s with temp := { temp with deviceType := type, baseClass := itf.baseClass } }

/-- `pfnConfigureDevice`, in what it leaves of an entry. -/
def driverConfigure (itf : Interface) (type : DeviceType) (s : State) (i : Nat) :
    Option Nat × State :=
  match itf.outcome with
  | .configured =>
    let e := { s.devInfo i with deviceType := type }
    (some i, s.set i
      (if type = .hub then { e with hubNumPorts := itf.hubNumPorts, skippedPort := itf.skippedPort }
      else e))
  | .failed deviceType => (none, s.set i { s.devInfo i with deviceType := deviceType })
  | .hotplug which =>
    let e := { s.devInfo i with deviceType := type }
    (some (maxDevices + which),
      (s.set (maxDevices + which) e).set i { e with validStruc := false, devPresent := false })

/-- `USBIdentifyAndConfigureDevice`. -/
def identifyAndConfigureDevice (fuel : Nat) (s : State) (itf : Interface) :
    Option (Option Nat × State) :=
  let s := identify s itf
  match itf.driver with
  | none => some (none, s)
  | some type =>
    (configureDevice fuel s).map fun (found, s) =>
      match found with
      | none => (none, s)
      | some i => driverConfigure itf type (s.set i { s.devInfo i with deviceDriver := some type }) i

/-- One turn of the loop of `USBMassCreateLogicalUnits`; none where it ends. -/
def createLogicalUnit (s : State) (i lun : Nat) : Option State :=
  if checkDeviceLimit s baseClassMassStorage then none
  else
    (getProperDeviceInfoStructure s (s.devInfo i) lun).map fun j =>
      let e := s.devInfo j
      let dev := s.devInfo i
      if e.massDevRegd then
        s.set j { e with
          devPresent := true
          hubDeviceNumber := dev.hubDeviceNumber
          hubPortNumber := dev.hubPortNumber
          endpointSpeed := dev.endpointSpeed
          deviceAddress := dev.deviceAddress }
      else s.set j { dev with lun := lun, devBus := false }

/-! ## Detecting -/

/-- The first address whose bit is set. -/
def freeAddress (map : BitVec 64) : Option Nat :=
  (List.range' 1 63).find? fun address => map.getLsbD address

/-- `USB_DetectNewDevice` up to the descriptors, with the ids that these have. `answers` is
whether the device takes an address. -/
def startDetection (s : State) (hubAddr hubPort speed : Nat) (answers : Bool)
    (vendorId deviceId : Nat) : State :=
  let dev := { s.temp with
    validStruc := true
    devPresent := false
    devDummy := false
    devBus := false
    massDevRegd := false
    deviceAddress := 0
    deviceType := .unknown
    hubDeviceNumber := hubAddr
    hubPortNumber := hubPort
    endpointSpeed := speed }
  match answers, freeAddress s.deviceAddressMap with
  | true, some address =>
    { s with
      deviceAddressMap := clearBit s.deviceAddressMap address
      temp := { dev with deviceAddress := address, vendorId := vendorId, deviceId := deviceId }
      detection := some { devConfigured := false, unitsOf := none } }
  | _, _ => { s with temp := dev }

/-- One interface of the device. -/
def detectInterface (fuel : Nat) (s : State) (d : Detection) (itf : Interface) : Option State :=
  (identifyAndConfigureDevice fuel s itf).map fun (configured, s) =>
    match configured with
    | none => { s with detection := some { d with unitsOf := none } }
    | some i => { s with detection := some { devConfigured := true, unitsOf := some i } }

/-- `detection_complete`. -/
def completeDetection (s : State) (d : Detection) : State :=
  if !d.devConfigured && s.temp.deviceAddress ≠ 0 then
    { s with
      deviceAddressMap := setBit s.deviceAddressMap s.temp.deviceAddress
      detection := none }
  else { s with detection := none }

/-- `USBMassCreateLogicalUnits`. -/
def createLogicalUnits (s : State) (i : Nat) : List Nat → State
  | [] => s
  | lun :: luns =>
    match createLogicalUnit s i lun with
    | none => s
    | some s => createLogicalUnits s i luns

/-- The logical units of an interface, if it is configured. -/
def detectUnits (s : State) (d : Detection) (maxLun : Nat) : State :=
  match d.unitsOf with
  | none => s
  | some i => createLogicalUnits s i (List.range' 1 maxLun)

/-- The interfaces of a configuration; behind one of the class of hubs no more are looked at. -/
def configureInterfaces (fuel : Nat) : State → Detection → List Interface →
    Option (State × Detection)
  | s, d, [] => some (s, d)
  | s, d, itf :: itfs => do
    let s ← detectInterface fuel s d itf
    let d ← s.detection
    let s := detectUnits s d itf.maxLun
    if itf.baseClass = baseClassHub then some (s, d) else configureInterfaces fuel s d itfs

/-- The configurations of a device, up to one with an interface that is configured. -/
def configureDevices (fuel : Nat) : State → Detection → List (List Interface) →
    Option (State × Detection)
  | s, d, [] => some (s, d)
  | s, d, config :: configs => do
    let (s, d) ← configureInterfaces fuel s d config
    if d.devConfigured then some (s, d) else configureDevices fuel s d configs

/-- What a device answers: its ids and the configurations that can be read. -/
structure Device where
  answers : Bool
  vendorId : Nat
  deviceId : Nat
  configs : List (List Interface)

/-- `USB_DetectNewDevice`. -/
def detectNewDevice (fuel : Nat) (s : State) (hubAddr hubPort speed : Nat) (device : Device) :
    Option State :=
  let s := startDetection s hubAddr hubPort speed device.answers device.vendorId device.deviceId
  match s.detection with
  | none => some s
  | some d => do
    let (s, d) ← configureDevices fuel s d device.configs
    some (completeDetection s d)

/-! ## Aborting -/

/-- `USB_AbortConnectHubChildren`. -/
def abortConnectHubChildren : Nat → State → Nat → Option State
  | 0, _, _ => none
  | fuel + 1, s, hubAddr =>
    indices.foldlM (fun s i =>
      let e := s.devInfo i
      if e.hubDeviceNumber = hubAddr && (e.validStruc || e.devPresent) then
        let s := s.set i { e with
          devPresent := false
          validStruc := e.validStruc && e.massDevRegd }
        if e.deviceType = .hub then abortConnectHubChildren fuel s e.deviceAddress else some s
      else some s) s

/-- `USB_FreeDeviceAddress`. -/
def freeDeviceAddress (s : State) (i : Nat) : State :=
  if indices.any fun j => j ≠ i && (s.devInfo j).deviceAddress = (s.devInfo i).deviceAddress then s
  else returnAddress s i

/-- `USB_AbortConnectDev`. -/
def abortConnectDev (fuel : Nat) (s : State) (i : Nat) : Option State :=
  let e := s.devInfo i
  let s := s.set i { e with devPresent := false, validStruc := e.validStruc && e.massDevRegd }
  if !e.massDevRegd && e.deviceAddress = 0 then some s
  else
    let s := if e.massDevRegd then s else freeDeviceAddress s i
    if e.deviceType = .hub then abortConnectHubChildren fuel s (s.devInfo i).deviceAddress
    else some s

/-! ## Steps -/

/-- What happens to the table. A detection is a number of steps: the start, the interfaces with
their logical units, the end. `lock` and `unlock` are the USB bus driver's, `register` and
`unregister` those of legacy disks. -/
inductive Event where
  | start (hubAddr hubPort speed : Nat) (answers : Bool) (vendorId deviceId : Nat)
  | interface (itf : Interface)
  | logicalUnit (lun : Nat)
  | complete
  | disconnect (hubAddr hcPort : Nat)
  | abort (i : Nat)
  | lock (i : Nat)
  | unlock (i : Nat)
  | register (i : Nat)
  | unregister (i : Nat)

/-- The flags that the bus and the disk drivers change. -/
def changeFlags (e : Entry) : Event → Entry
  | .lock _ => { e with devBus := true }
  | .unlock _ =>
    { e with devBus := false, validStruc := e.validStruc && (e.massDevRegd || e.devPresent) }
  | .register _ => { e with massDevRegd := true }
  | .unregister _ => { e with validStruc := false, massDevRegd := false }
  | _ => e

/-- The state after a step, where the step can be taken. A hub looks at its ports as soon as it
is configured, before the detection of the hub is complete; what is left of that detection is
then to return. -/
def step (fuel : Nat) (s : State) (event : Event) : Option State :=
  match s.detection, event with
  | none, .start hubAddr hubPort speed answers vendorId deviceId =>
    some (startDetection s hubAddr hubPort speed answers vendorId deviceId)
  | none, .disconnect hubAddr hcPort => stopDevice fuel s hubAddr hcPort
  | none, .abort i => if i ∈ indices then abortConnectDev fuel s i else none
  | none, .lock i => some (s.set i (changeFlags (s.devInfo i) event))
  | none, .unlock i => some (s.set i (changeFlags (s.devInfo i) event))
  | none, .register i => some (s.set i (changeFlags (s.devInfo i) event))
  | none, .unregister i => some (s.set i (changeFlags (s.devInfo i) event))
  | some d, .interface itf => detectInterface fuel s d itf
  | some d, .logicalUnit lun => d.unitsOf.bind fun i => createLogicalUnit s i lun
  | some d, .complete => some (completeDetection s d)
  | _, _ => none

end BayTrail.Usb
