import BayTrail.Dxe.Depex

/-!
# The DXE dispatcher

`Dispatcher.c` of the DXE core. Drivers that are found in firmware volumes are put on `mDiscoveredList` and
never leave it. Flags say what has become of each: it waits for its dependency expression (`Dependent`) or
for a request (`Unrequested`), is on `mScheduledQueue` (`Scheduled`), could not be trusted (`Untrusted`), or
has been dealt with for good (`Initialized`). A driver that is to run right before or after another one
waits for that.
-/

namespace BayTrail.Dxe

open BayTrail.Lib
open BayTrail.Nvram (sizeofGuid)

/-- `EFI_CORE_DRIVER_ENTRY`, as far as the dispatcher decides by it. `depex` is the memory the dependency
expression is in, and `imageHandle` whether there is a handle. -/
structure DriverEntry where
  fvHandle : Nat
  fileName : Bytes
  depex : Option Mem := none
  depexSize : Nat := 0
  before : Bool := false
  after : Bool := false
  beforeAfterGuid : Bytes := []
  dependent : Bool := false
  unrequested : Bool := false
  scheduled : Bool := false
  untrusted : Bool := false
  initialized : Bool := false
  depexProtocolError : Bool := false
  imageHandle : Bool := false
  isFvImage : Bool := false

/-- What `ReadSection` says about the dependency expression of a file. -/
inductive Section where
  | protocolError
  | notFound
  | found (depex : Mem) (depexSize : Nat)

/-- `KNOWN_HANDLE`; the name is zero if the volume has none. -/
structure KnownHandle where
  handle : Nat
  fvNameGuid : Bytes

/-- `mDiscoveredList`, `mScheduledQueue`, `mFvHandleList` and the room of the evaluation stack. The queue
holds positions of the list. -/
structure Dispatcher where
  discovered : List DriverEntry := []
  scheduledQueue : List Nat := []
  fvHandleList : List KnownHandle := []
  room : Nat := 0

/-! ## Dependency expressions -/

/-- `CorePreProcessDepex`. -/
def corePreProcessDepex (e : DriverEntry) (depex : Mem) : DriverEntry :=
  let e := if depex 0 = EFI_DEP_SOR then { e with unrequested := true } else { e with dependent := true }
  let e :=
    if depex 0 = EFI_DEP_BEFORE then { e with before := true }
    else if depex 0 = EFI_DEP_AFTER then { e with after := true }
    else e
  if e.before || e.after then { e with beforeAfterGuid := peek depex 1 sizeofGuid } else e

/-- `CoreGetDepexSectionAndPreProccess`. -/
def coreGetDepexSectionAndPreProccess (e : DriverEntry) : Section → DriverEntry
  | .protocolError => { e with depexProtocolError := true }
  | .notFound => { e with depex := none, dependent := true, depexProtocolError := false }
  | .found depex depexSize =>
    { corePreProcessDepex { e with depex := some depex, depexSize := depexSize } depex with depexProtocolError := false }

/-- What the dispatcher finds when it looks: the protocols that are installed, whether all architectural
ones are (`CoreAllEfiServicesAvailable`), and the memory there is. -/
structure Platform where
  installed : Bytes → Bool
  allEfiServicesAvailable : Bool
  allocate : Nat → Bool

/-- `CoreIsSchedulable`, with the entry and the room of the stack after it. -/
def coreIsSchedulable (p : Platform) (e : DriverEntry) (room : Nat) : Bool × DriverEntry × Nat :=
  if e.after || e.before then (false, e, room)
  else
    match e.depex with
    | none => (p.allEfiServicesAvailable, e, room)
    | some depex =>
      let v := evaluateDepex p.installed p.allocate depex e.depexSize room
      (v.ready, { e with depex := some v.depex }, v.room)

/-! ## The scheduled queue -/

/-- `InsertTailList` with the link of an entry. There is none but one link: the list is corrupted by an entry
that is on it already. -/
def insertTailList (queue : List Nat) (i : Nat) : Option (List Nat) :=
  if i ∈ queue then none else some (queue ++ [i])

/-- An entry is `Scheduled`, and neither `Dependent` nor `Untrusted` any more. -/
def DriverEntry.schedule (e : DriverEntry) : DriverEntry := { e with dependent := false, scheduled := true }

def Dispatcher.schedule (d : Dispatcher) (i : Nat) : Option Dispatcher :=
  (insertTailList d.scheduledQueue i).map fun queue =>
    { d with discovered := d.discovered.modify i DriverEntry.schedule, scheduledQueue := queue }

/-- The entry at `j` waits to be put before or after the one at `i`. -/
def Dispatcher.hangs (d : Dispatcher) (side : DriverEntry → Bool) (i j : Nat) : Bool :=
  match d.discovered[i]?, d.discovered[j]? with
  | some inserted, some e => side e && e.dependent && j != i && inserted.fileName == e.beforeAfterGuid
  | _, _ => false

/-- `CoreInsertOnScheduledQueueWhileProcessingBeforeAndAfter`. It fails if it goes down further than there
are drivers, which is to say for ever. -/
def insertOnScheduledQueue : Nat → Dispatcher → Nat → Option Dispatcher
  | 0, _, _ => none
  | fuel + 1, d, i => do
    let d ← (List.range d.discovered.length).foldlM
      (fun d j => if d.hangs DriverEntry.before i j then insertOnScheduledQueue fuel d j else some d) d
    let d ← d.schedule i
    (List.range d.discovered.length).foldlM
      (fun d j => if d.hangs DriverEntry.after i j then insertOnScheduledQueue fuel d j else some d) d

/-! ## Firmware volumes -/

inductive FileType where
  | driver | combinedSmmDxe | combinedPeimDriver | dxeCore | firmwareVolumeImage | other
  deriving DecidableEq

/-- `mDxeFileTypes`. -/
def mDxeFileTypes : List FileType := [.driver, .combinedSmmDxe, .combinedPeimDriver, .dxeCore, .firmwareVolumeImage]

/-- A file of a firmware volume. A volume image may have been extracted in PEI (`FvFoundInHobFv2`), or have a
dependency expression for PEI or SMM. -/
structure FvFile where
  name : Bytes
  type : FileType
  depex : Section
  inHob : Bool := false
  otherDepex : Bool := false

/-- A firmware volume with what its extension header and its a priori file say. It is `dispatchable` if its
handle has a device path. -/
structure FirmwareVolume where
  handle : Nat
  fvName : Option Bytes
  dispatchable : Bool
  files : List FvFile
  apriori : List Bytes

/-- A volume image without a dependency expression for DXE is made a volume at once. -/
def Section.isFound : Section → Bool
  | .found _ _ => true
  | _ => false

/-- The files that are put on the list. -/
def FvFile.isListed (f : FvFile) : Bool :=
  match f.type with
  | .dxeCore => false
  | .firmwareVolumeImage => !f.inHob && !f.otherDepex && f.depex.isFound
  | _ => true

/-- The files in the order in which `GetNextFile` is asked for them. -/
def FirmwareVolume.drivers (fv : FirmwareVolume) : List FvFile :=
  mDxeFileTypes.flatMap fun type => fv.files.filter fun f => f.type == type && f.isListed

/-- `CoreAddToDriverList`: the entry that is put on the list. -/
def coreAddToDriverList (handle : Nat) (f : FvFile) : DriverEntry :=
  coreGetDepexSectionAndPreProccess
    { fvHandle := handle, fileName := f.name, isFvImage := f.type == FileType.firmwareVolumeImage } f.depex

/-- `FvHasBeenProcessed` and `FvIsBeingProcesssed`: the volume is a new one. -/
def Dispatcher.isNew (d : Dispatcher) (fv : FirmwareVolume) : Bool :=
  !(d.fvHandleList.any fun k => k.handle == fv.handle)
    && match fv.fvName with
      | none => true
      | some name => !(d.fvHandleList.any fun k => k.fvNameGuid == name)

/-- An entry of the a priori file: the first driver of that name in the volume is scheduled. -/
def Dispatcher.scheduleApriori (handle : Nat) (d : Dispatcher) (name : Bytes) : Option Dispatcher :=
  match d.discovered.findIdx? fun e => e.fileName == name && handle == e.fvHandle with
  | none => some d
  | some i => d.schedule i

/-- `CoreFwVolEventProtocolNotify` for one volume. -/
def coreFwVolEventProtocolNotify (d : Dispatcher) (fv : FirmwareVolume) : Option Dispatcher :=
  if d.isNew fv then
    let d := { d with fvHandleList := d.fvHandleList ++ [⟨fv.handle, fv.fvName.getD (List.replicate sizeofGuid 0)⟩] }
    if fv.dispatchable then
      fv.apriori.foldlM (Dispatcher.scheduleApriori fv.handle)
        { d with discovered := d.discovered ++ fv.drivers.map (coreAddToDriverList fv.handle) }
    else some d
  else some d

/-! ## Services and the rounds of the dispatcher -/

/-- `CoreSchedule`. -/
def coreSchedule (d : Dispatcher) (fvHandle : Nat) (driverName : Bytes) : Dispatcher :=
  match d.discovered.findIdx? fun e => e.fvHandle == fvHandle && e.unrequested && driverName == e.fileName with
  | none => d
  | some i => { d with discovered := d.discovered.modify i fun e => { e with unrequested := false, dependent := true } }

/-- `CoreTrust`. -/
def coreTrust (d : Dispatcher) (fvHandle : Nat) (driverName : Bytes) : Option Dispatcher :=
  match d.discovered.findIdx? fun e => e.fvHandle == fvHandle && e.untrusted && driverName == e.fileName with
  | none => some d
  | some i =>
    (insertTailList d.scheduledQueue i).map fun queue =>
      { d with
        discovered := d.discovered.modify i fun e => { e with untrusted := false, scheduled := true }
        scheduledQueue := queue }

/-- What `CoreLoadImage` says. -/
inductive LoadStatus where
  | success | securityViolation | failed
  deriving DecidableEq

/-- An image is loaded unless there is a handle, or it is a volume. -/
def DriverEntry.needsLoad (e : DriverEntry) : Bool := !e.imageHandle && !e.isFvImage

/-- The entry after its turn, and whether it is started. -/
def DriverEntry.dispatch (e : DriverEntry) (load : LoadStatus) : DriverEntry × Bool :=
  if e.needsLoad then
    match load with
    | .success => ({ e with imageHandle := true, scheduled := false, initialized := true }, true)
    | .securityViolation => ({ e with imageHandle := true, untrusted := true, scheduled := false }, false)
    | .failed => ({ e with initialized := true, scheduled := false }, false)
  else ({ e with scheduled := false, initialized := true }, true)

/-- A round of the loop of `CoreDispatcher` that drains the queue, with the driver that had its turn and
whether it is started. -/
def Dispatcher.drain (d : Dispatcher) (load : LoadStatus) : Dispatcher × Option (Nat × Bool) :=
  match d.scheduledQueue with
  | [] => (d, none)
  | i :: queue =>
    match d.discovered[i]? with
    | none => (d, none)
    | some e =>
      let (e', started) := e.dispatch load
      ({ d with discovered := d.discovered.set i e', scheduledQueue := queue }, some (i, started))

/-- A round of the loop of `CoreDispatcher` that looks for drivers to schedule, with whether one is. The
section is what is read if the dependency expression could not be read before. -/
def Dispatcher.visit (d : Dispatcher) (p : Platform) (again : Section) (i : Nat) : Option (Dispatcher × Bool) :=
  match d.discovered[i]? with
  | none => some (d, false)
  | some e =>
    let e := if e.depexProtocolError then coreGetDepexSectionAndPreProccess e again else e
    if e.dependent then
      let (ready, e, room) := coreIsSchedulable p e d.room
      let d := { d with discovered := d.discovered.set i e, room := room }
      if ready then (insertOnScheduledQueue (d.discovered.length + 1) d i).map fun d => (d, true)
      else some (d, false)
    else some ({ d with discovered := d.discovered.set i e }, false)

end BayTrail.Dxe
