import Mathlib.Algebra.Ring.Nat
import Mathlib.Algebra.BigOperators.Group.List.Basic

/-!
# Interrupt routing

`CreateDevIrqEntry`, `GetAllPciDevices`, `ApplyRoundRobin` and `CreateIrqTables` of `PciBus.c`. By the
specification the pins of a device behind bridges are rotated at each bridge; the code rotates once, for the
bridge with the routing entry. `GetAllPciDevices` goes down the tree of bridges, so that what lies above a listed
device is known by induction on the tree (`getAllPciDevices_above`); from there the bridges without an entry are
passed one by one, and what they leave out is the sum of their numbers (`swizzle_sum`).
-/

namespace BayTrail.Pci

/-! ## Structures -/

/-- `PCI_PIC_IRQ_DATA`. -/
structure PicIrq where
  chipsetReg : Nat
  irqMask : BitVec 16
  deriving DecidableEq

/-- `PCI_APIC_IRQ_DATA`. -/
structure ApicIrq where
  ioApicItin : BitVec 8
  ioApicId : BitVec 8
  deriving DecidableEq

/-- `PCI_IRQ_PIC_ROUTE`. -/
structure PicRoute where
  pciBusNumber : Nat
  dev : Nat
  pciIrq : Fin 4 → PicIrq
  slotNum : BitVec 8

/-- `PCI_IRQ_APIC_ROUTE`. -/
structure ApicRoute where
  pciBusNumber : Nat
  deviceNumber : Nat
  intn : Fin 4 → ApicIrq

/-- What is used of `AMI_SDL_PCI_DEV_INFO`. -/
structure SdlDev where
  picIrq : Fin 4 → PicIrq
  apicIrq : Fin 4 → ApicIrq
  slot : BitVec 32
  onBoard : Bool
  containerType : Bool

/-- `PCI_DEVICE_TYPE`. -/
inductive DeviceType where
  | unknown | rootBrg | pciBrg | crdBrg | hostDev | device | uncompatible
  deriving DecidableEq

/-- What is used of `PCI_DEV_INFO`; `sdlRecords` are the records of `SdlIdxArray`. -/
structure IrqDev where
  type : DeviceType
  func0 : Bool
  bus : Nat
  device : Nat
  irqPinReg : Nat
  sdlData : Option SdlDev
  sdlMatchFound : Bool
  sdlRecords : List SdlDev
  picIrqEntry : Option PicRoute
  apicIrqEntry : Option ApicRoute

def noPicIrq : PicIrq := ⟨0, 0⟩
def noApicIrq : ApicIrq := ⟨0, 0⟩

/-- `MallocZ`. -/
def zeroPic : PicRoute := ⟨0, 0, fun _ => noPicIrq, 0⟩
def zeroApic : ApicRoute := ⟨0, 0, fun _ => noApicIrq⟩

/-- There are an interrupt mask and an input of the I/O APIC. -/
def routed (pic : PicRoute) (apic : ApicRoute) : Bool :=
  ((pic.pciIrq 0).irqMask ||| (pic.pciIrq 1).irqMask ||| (pic.pciIrq 2).irqMask ||| (pic.pciIrq 3).irqMask) ≠ 0
  && ((apic.intn 0).ioApicItin ||| (apic.intn 1).ioApicItin ||| (apic.intn 2).ioApicItin
    ||| (apic.intn 3).ioApicItin) ≠ 0

/-- The routing entry of a device, if there is one. -/
def IrqDev.route (d : IrqDev) : Option (PicRoute × ApicRoute) :=
  match d.picIrqEntry, d.apicIrqEntry with
  | some pic, some apic => if routed pic apic then some (pic, apic) else none
  | _, _ => none

/-! ## CreateDevIrqEntry -/

/-- The record has a routing; the mask of the last pin is not looked at. -/
def SdlDev.routed (sdl : SdlDev) : Bool :=
  ((sdl.picIrq 0).irqMask ||| (sdl.picIrq 1).irqMask ||| (sdl.picIrq 2).irqMask ||| (sdl.picIrq 0).irqMask) ≠ 0
  && ((sdl.apicIrq 0).ioApicItin ||| (sdl.apicIrq 1).ioApicItin ||| (sdl.apicIrq 2).ioApicItin
    ||| (sdl.apicIrq 3).ioApicItin) ≠ 0

/-- `FindMatchingSdl`, for the data of the device. -/
def findMatchingSdl (dev : IrqDev) : Option SdlDev :=
  (dev.sdlRecords.find? fun sdl => !sdl.containerType && sdl.routed).or dev.sdlData

/-- What the call finds around it: the allocations succeed, `AmiIsaIrqMask`, and its mask. -/
structure IrqEnv where
  picAllocates : Bool
  apicAllocates : Bool
  isaSucceeds : Bool
  isaIrqMask : BitVec 16

/-- The register of the pin is another one by now. -/
def conflicts (old new : PicIrq) : Bool :=
  old.chipsetReg ≠ 0 && new.chipsetReg ≠ 0 && old.chipsetReg ≠ new.chipsetReg

def updatePicIrq (pciIrq : BitVec 16) (old new : PicIrq) : PicIrq :=
  if conflicts old new then old
  else if new.chipsetReg ≠ 0 then ⟨new.chipsetReg, new.irqMask &&& pciIrq⟩
  else old

def updateApicIrq (pic newPic : PicIrq) (old new : ApicIrq) : ApicIrq :=
  if conflicts pic newPic then old
  else if new.ioApicItin ≠ 0 then new
  else old

/-- The entries are filled. -/
def fillIrqEntry (env : IrqEnv) (dev : IrqDev) (pic : PicRoute) (apic : ApicRoute) : PicRoute × ApicRoute :=
  let pic := { pic with pciBusNumber := dev.bus, dev := dev.device }
  let apic := { apic with pciBusNumber := dev.bus, deviceNumber := dev.device }
  let sdlData := if !dev.sdlMatchFound && 1 < dev.sdlRecords.length then findMatchingSdl dev else dev.sdlData
  match sdlData with
  | none => (pic, apic)
  | some sdl =>
    ({ pic with
        pciIrq := fun i => updatePicIrq (~~~env.isaIrqMask) (pic.pciIrq i) (sdl.picIrq i)
        slotNum := if sdl.onBoard then 0 else sdl.slot.setWidth 8 },
      { apic with intn := fun i => updateApicIrq (pic.pciIrq i) (sdl.picIrq i) (apic.intn i) (sdl.apicIrq i) })

/-- `CreateDevIrqEntry`, with the entries of function 0. -/
def createDevIrqEntry (env : IrqEnv) (dev : IrqDev) (entries : Option PicRoute × Option ApicRoute) :
    Bool × Option PicRoute × Option ApicRoute :=
  if dev.irqPinReg = 0 ∧ (dev.type = .device ∨ dev.type = .hostDev) then (true, entries)
  else
    match entries.1.or (if env.picAllocates then some zeroPic else none),
        entries.2.or (if env.apicAllocates then some zeroApic else none) with
    | some pic, some apic =>
      let (pic, apic) := fillIrqEntry env dev pic apic
      (env.isaSucceeds, some pic, some apic)
    | pic, apic => (false, pic, apic)

/-! ## ApplyRoundRobin -/

/-- The entry of the table from that of the bridge. -/
def rotateEntry (dev : IrqDev) (sdl : SdlDev) (entry : PicRoute × ApicRoute) : PicRoute × ApicRoute :=
  let shift := dev.device % 4
  let index (i : Fin 4) : Fin 4 := Fin.ofNat 4 (if i.val + shift < 4 then i.val + shift else i.val + shift - 4)
  (⟨dev.bus, dev.device, fun i => entry.1.pciIrq (index i), if sdl.onBoard then 0 else sdl.slot.setWidth 8⟩,
    ⟨dev.bus, dev.device, fun i => entry.2.intn (index i)⟩)

/-- `ApplyRoundRobin`, with the bridges from `ParentBrg` on. `AmiSdlPciDevData` is not checked for NULL: there is
no next state then. -/
def applyRoundRobin (dev : IrqDev) : List IrqDev → PicRoute × ApicRoute → Option (PicRoute × ApicRoute)
  | [], entry => some entry
  | parent :: parents, entry =>
    match parent.route with
    | some route => dev.sdlData.map fun sdl => rotateEntry dev sdl route
    | none => if parent.type = .rootBrg then some entry else applyRoundRobin dev parents entry

/-! ## CreateIrqTables -/

/-- A device with the devices on its secondary bus. -/
inductive IrqTree where
  | node (dev : IrqDev) (children : List IrqTree)

def IrqDev.isBridge (d : IrqDev) : Bool := d.type = .pciBrg || d.type = .crdBrg

mutual

/-- What `GetAllPciDevices` lists of a child, each device with what its `ParentBrg` leads to. -/
def listChild (above : List IrqDev) : IrqTree → List (IrqDev × List IrqDev)
  | .node dev children =>
    if dev.isBridge then
      match dev.sdlData with
      | none => []
      | some sdl =>
        if !sdl.onBoard then [(dev, above)]
        else getAllPciDevices (dev :: above) children
          ++ if dev.irqPinReg ≠ 0 && dev.func0 then [(dev, above)] else []
    else if dev.type = .device && dev.func0 && dev.picIrqEntry.isSome && dev.apicIrqEntry.isSome then [(dev, above)]
    else []

/-- `GetAllPciDevices`, of the children of a bridge that stands at the head of `above`. -/
def getAllPciDevices (above : List IrqDev) : List IrqTree → List (IrqDev × List IrqDev)
  | [] => []
  | child :: children => listChild above child ++ getAllPciDevices above children

end

/-- The entry of a listed device. -/
def tableEntry (dev : IrqDev) (parents : List IrqDev) : Option (PicRoute × ApicRoute) :=
  match dev.route with
  | none => applyRoundRobin dev parents (zeroPic, zeroApic)
  | some route => some route

/-- The tables of `CreateIrqTables`, for the root bridges with what is below them. -/
def createIrqTables (roots : List (IrqDev × List IrqTree)) : Option (List (PicRoute × ApicRoute)) :=
  (roots.flatMap fun root => getAllPciDevices [root.1] root.2).mapM fun listed => tableEntry listed.1 listed.2

/-! ## The rotation of the specification -/

/-- The interrupt data of a pin. -/
def irq (entry : PicRoute × ApicRoute) (pin : Fin 4) : PicIrq × ApicIrq := (entry.1.pciIrq pin, entry.2.intn pin)

/-- The pin behind a bridge, by the number of the device on its secondary bus. -/
def cross (pin : Fin 4) (dev : IrqDev) : Fin 4 := pin + Fin.ofNat 4 dev.device

/-- The pin after the devices have been passed one after the other. -/
def swizzle (devs : List IrqDev) (pin : Fin 4) : Fin 4 := devs.foldl cross pin

/-! ## Devices behind bridges -/

section

variable {sdl : SdlDev} {dev anc root : IrqDev} {bridges rest above : List IrqDev} {entry route : PicRoute × ApicRoute}

mutual

/-- What is below a bridge that is passed has it above, and nothing but bridges in between. -/
theorem listChild_above (above : List IrqDev) : ∀ (t : IrqTree) {listed : IrqDev × List IrqDev},
    listed ∈ listChild above t → ∃ mid, listed.2 = mid ++ above ∧ ∀ b ∈ mid, b.isBridge = true
  | .node dev children, listed, h => by
    have hself : listed = (dev, above) → ∃ mid, listed.2 = mid ++ above ∧ ∀ b ∈ mid, b.isBridge = true := by
      rintro rfl
      exact ⟨[], rfl, fun _ hb => absurd hb List.not_mem_nil⟩
    unfold listChild at h
    split at h
    · rename_i hbridge
      split at h
      · exact absurd h List.not_mem_nil
      · split at h
        · exact hself (List.mem_singleton.mp h)
        · rcases List.mem_append.mp h with h | h
          · obtain ⟨mid, hmid, hbridges⟩ := getAllPciDevices_above (dev :: above) children h
            refine ⟨mid ++ [dev], by rw [hmid, List.append_assoc, List.singleton_append], fun b hb => ?_⟩
            rcases List.mem_append.mp hb with hb | hb
            · exact hbridges b hb
            · rw [List.mem_singleton.mp hb]
              exact hbridge
          · split at h
            · exact hself (List.mem_singleton.mp h)
            · exact absurd h List.not_mem_nil
    · split at h
      · exact hself (List.mem_singleton.mp h)
      · exact absurd h List.not_mem_nil

theorem getAllPciDevices_above (above : List IrqDev) : ∀ (ts : List IrqTree) {listed : IrqDev × List IrqDev},
    listed ∈ getAllPciDevices above ts → ∃ mid, listed.2 = mid ++ above ∧ ∀ b ∈ mid, b.isBridge = true
  | [], _, h => absurd h (by unfold getAllPciDevices; exact List.not_mem_nil)
  | t :: ts, _, h => by
    unfold getAllPciDevices at h
    rcases List.mem_append.mp h with h | h
    · exact listChild_above above t h
    · exact getAllPciDevices_above above ts h

end

/-- What lies before the nearest ancestor with an entry is no root bridge. -/
theorem not_rootBrg_of_listed {children : List IrqTree}
    (hlisted : (dev, bridges ++ anc :: rest) ∈ getAllPciDevices [root] children) :
    ∀ b ∈ bridges, b.type ≠ .rootBrg := by
  obtain ⟨mid, hmid, hbridges⟩ := getAllPciDevices_above [root] children hlisted
  intro b hb htype
  have hparents : bridges ++ anc :: rest = mid ++ [root] := hmid
  have hinit : bridges ++ (anc :: rest).dropLast = mid := by
    rw [← List.dropLast_append_of_ne_nil (List.cons_ne_nil _ _), hparents, List.dropLast_concat]
  have hbridge := hbridges b (hinit ▸ List.mem_append_left _ hb)
  rw [IrqDev.isBridge, htype] at hbridge
  exact absurd hbridge (by decide)

/-- Bridges without an entry are passed. -/
theorem applyRoundRobin_nearest (hbridges : ∀ b ∈ bridges, b.route = none ∧ b.type ≠ .rootBrg)
    (hanc : anc.route = some route) :
    applyRoundRobin dev (bridges ++ anc :: rest) entry = dev.sdlData.map fun sdl => rotateEntry dev sdl route := by
  induction bridges with
  | nil =>
    show applyRoundRobin dev (anc :: rest) entry = _
    unfold applyRoundRobin
    rw [hanc]
  | cons b bridges ih =>
    obtain ⟨hroute, htype⟩ := hbridges b List.mem_cons_self
    show applyRoundRobin dev (b :: (bridges ++ anc :: rest)) entry = _
    unfold applyRoundRobin
    rw [hroute]
    dsimp only
    rw [if_neg htype]
    exact ih fun b' hb' => hbridges b' (List.mem_cons_of_mem _ hb')

/-- One bridge is crossed. -/
theorem irq_rotateEntry (pin : Fin 4) : irq (rotateEntry dev sdl route) pin = irq route (cross pin dev) := by
  have hindex : Fin.ofNat 4 (if pin.val + dev.device % 4 < 4 then pin.val + dev.device % 4
      else pin.val + dev.device % 4 - 4) = cross pin dev := by
    have hpin := pin.isLt
    have hmod : (if pin.val + dev.device % 4 < 4 then pin.val + dev.device % 4
        else pin.val + dev.device % 4 - 4) % 4 = (pin.val + dev.device % 4) % 4 := by
      split <;> omega
    exact Fin.ext hmod
  show (route.1.pciIrq (Fin.ofNat 4 _), route.2.intn (Fin.ofNat 4 _)) = _
  rw [hindex]
  rfl

theorem cross_sub (pin : Fin 4) (dev : IrqDev) : cross (pin - Fin.ofNat 4 dev.device) dev = pin := by
  have hcancel : ∀ a b : Fin 4, a - b + b = a := by decide
  exact hcancel pin _

/-- The devices that are passed count with the sum of their numbers. -/
theorem swizzle_sum (devs : List IrqDev) (pin : Fin 4) :
    swizzle devs pin = pin + Fin.ofNat 4 (devs.map IrqDev.device).sum := by
  induction devs generalizing pin with
  | nil => exact (Fin.add_zero pin).symm
  | cons d devs ih =>
    show swizzle devs (cross pin d) = _
    rw [ih, List.map_cons, List.sum_cons]
    refine Fin.ext ?_
    show ((pin.val + d.device % 4) % 4 + _ % 4) % 4 = (pin.val + (d.device + _) % 4) % 4
    omega

/-- The interrupts of a listed device behind bridges are those of the specification if and only if it has SDL data
and the bridges in between do not turn the entry of the ancestor any further. -/
theorem tableEntry_swizzle_iff {children : List IrqTree}
    (hlisted : (dev, bridges ++ anc :: rest) ∈ getAllPciDevices [root] children) (hdev : dev.route = none)
    (hbridges : ∀ b ∈ bridges, b.route = none) (hanc : anc.route = some route) :
    (∃ entry, tableEntry dev (bridges ++ anc :: rest) = some entry
        ∧ ∀ pin, irq entry pin = irq route (swizzle (dev :: bridges) pin)) ↔
      dev.sdlData ≠ none ∧ ∀ pin, irq route (pin + Fin.ofNat 4 (bridges.map IrqDev.device).sum) = irq route pin := by
  have hentry : tableEntry dev (bridges ++ anc :: rest) = dev.sdlData.map fun sdl => rotateEntry dev sdl route := by
    unfold tableEntry
    rw [hdev]
    exact applyRoundRobin_nearest (fun b hb => ⟨hbridges b hb, not_rootBrg_of_listed hlisted b hb⟩) hanc
  have hspec : ∀ pin, swizzle (dev :: bridges) pin
      = cross pin dev + Fin.ofNat 4 (bridges.map IrqDev.device).sum := by
    intro pin
    exact swizzle_sum bridges (cross pin dev)
  rw [hentry]
  cases hsdl : dev.sdlData with
  | none =>
    refine iff_of_false ?_ fun h => h.1 rfl
    rintro ⟨entry, hnone, -⟩
    exact absurd hnone (Option.some_ne_none entry).symm
  | some sdl =>
    constructor
    · rintro ⟨entry, hsome, h⟩
      obtain rfl : rotateEntry dev sdl route = entry := Option.some.inj hsome
      refine ⟨Option.some_ne_none sdl, fun pin => ?_⟩
      have hturned := h (pin - Fin.ofNat 4 dev.device)
      rw [irq_rotateEntry, hspec, cross_sub] at hturned
      exact hturned.symm
    · rintro ⟨-, h⟩
      refine ⟨_, rfl, fun pin => ?_⟩
      rw [irq_rotateEntry, hspec, h]

end

/-- A routing of four interrupts. -/
def fourIrqs : SdlDev where
  picIrq i := ⟨0x60 + i.val, 1#16 <<< (8 + i.val)⟩
  apicIrq i := ⟨BitVec.ofNat 8 (16 + i.val), 1⟩
  slot := 1
  onBoard := true
  containerType := false

/-- A record of a device on board without interrupts. -/
def noIrqs : SdlDev := ⟨fun _ => noPicIrq, fun _ => noApicIrq, 0, true, false⟩

def emptyDev (type : DeviceType) (device : Nat) (sdl : SdlDev) : IrqDev where
  type := type
  func0 := true
  bus := 0
  device := device
  irqPinReg := 1
  sdlData := some sdl
  sdlMatchFound := true
  sdlRecords := []
  picIrqEntry := none
  apicIrqEntry := none

/-- The device with the entries that it gets. -/
def IrqDev.created (d : IrqDev) : IrqDev :=
  let entries := (createDevIrqEntry ⟨true, true, true, 0⟩ d (none, none)).2
  { d with picIrqEntry := entries.1, apicIrqEntry := entries.2 }

def rootBridge : IrqDev := emptyDev .rootBrg 0 noIrqs
def rootPort : IrqDev := (emptyDev .pciBrg 0x1C fourIrqs).created
def bridgeAt (device : Nat) : IrqDev := (emptyDev .pciBrg device noIrqs).created
def deviceAt (device : Nat) : IrqDev := (emptyDev .device device noIrqs).created

/-- A device behind a bridge behind the root port. -/
def twoLevels (bridge device : Nat) : List IrqTree :=
  [.node rootPort [.node (bridgeAt bridge) [.node (deviceAt device) []]]]

def rootPortRoute : PicRoute × ApicRoute :=
  fillIrqEntry ⟨true, true, true, 0⟩ (emptyDev .pciBrg 0x1C fourIrqs) zeroPic zeroApic

theorem rootPort_route : rootPort.route = some rootPortRoute := by
  have hrouted : routed rootPortRoute.1 rootPortRoute.2 = true := by decide +kernel
  show (if routed rootPortRoute.1 rootPortRoute.2 then some rootPortRoute else none) = _
  rw [hrouted, if_pos rfl]

/-- A record without interrupts makes no routing entry. -/
theorem noIrqs_route : (deviceAt 3).route = none ∧ (bridgeAt 4).route = none ∧ (bridgeAt 1).route = none :=
  ⟨Option.isNone_iff_eq_none.mp (by decide +kernel), Option.isNone_iff_eq_none.mp (by decide +kernel),
    Option.isNone_iff_eq_none.mp (by decide +kernel)⟩

theorem listed_twoLevels (bridge device : Nat) : (deviceAt device, [bridgeAt bridge] ++ rootPort :: [rootBridge])
    ∈ getAllPciDevices [rootBridge] (twoLevels bridge device) := List.mem_cons_self

/-- The pins of a device 3 behind a bridge 4. -/
theorem tableEntry_swizzle_onBoard : ∃ entry, tableEntry (deviceAt 3) ([bridgeAt 4] ++ rootPort :: [rootBridge]) = some entry
    ∧ ∀ pin, irq entry pin = irq rootPortRoute (swizzle [deviceAt 3, bridgeAt 4] pin) := by
  refine (tableEntry_swizzle_iff (listed_twoLevels 4 3) noIrqs_route.1 ?_ rootPort_route).mpr ?_
  · intro b hb
    rw [List.mem_singleton.mp hb]
    exact noIrqs_route.2.1
  · exact ⟨Option.some_ne_none _, by decide⟩

/-- The bridge has number 1: the device is given the interrupts of other pins. -/
theorem not_tableEntry_swizzle :
    ¬ ∀ (dev anc root : IrqDev) (bridges rest : List IrqDev) (route : PicRoute × ApicRoute) (children : List IrqTree),
      (dev, bridges ++ anc :: rest) ∈ getAllPciDevices [root] children → dev.route = none →
      (∀ b ∈ bridges, b.route = none) → anc.route = some route →
      ∃ entry, tableEntry dev (bridges ++ anc :: rest) = some entry
        ∧ ∀ pin, irq entry pin = irq route (swizzle (dev :: bridges) pin) := by
  intro h
  obtain ⟨entry, hentry, hirq⟩ := h (deviceAt 3) rootPort rootBridge [bridgeAt 1] [rootBridge] rootPortRoute
    (twoLevels 1 3) (listed_twoLevels 1 3) noIrqs_route.1 (by
      intro b hb
      rw [List.mem_singleton.mp hb]
      exact noIrqs_route.2.2) rootPort_route
  have hfound : (tableEntry (deviceAt 3) ([bridgeAt 1] ++ rootPort :: [rootBridge])).map (fun entry => irq entry 0)
      = some (irq rootPortRoute 3) := by decide +kernel
  rw [hentry, Option.map_some, Option.some_inj, hirq 0] at hfound
  exact absurd hfound (by decide +kernel)

end BayTrail.Pci
