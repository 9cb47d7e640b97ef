import BayTrail.Lib.Run
import Mathlib.Data.UInt

/-!
# Enabling endpoints

`XHCI_EnableEndpoints` of `Xhci.c` with `XHCI_GetSlotId`, `XHCI_InitXfrRing`, `XHCI_InitRing` and
`Xhci_TranslateInterval`. The descriptor buffer is the list of its bytes, a byte behind it is not
read. The transfer rings of all slots are one array, in which a ring is named by its index; a log
says what is written.
-/

namespace BayTrail.Usb.Endpoints

open BayTrail.Lib

/-- Where the contexts of the slots are. -/
structure Controller where
  deviceContext : Nat
  contextSize : Nat
  maxSlots : Nat
  sized : 0 < contextSize
  few : maxSlots ≤ 255

/-- The size of `XHCI_DEVICE_CONTEXT_ENTRIES` contexts. -/
def Controller.slotSize (c : Controller) : Nat := 32 * c.contextSize

/-- A device, with `DevMiscInfo` at the context of its slot. -/
structure Device (c : Controller) where
  devMiscInfo : Nat
  slot : Nat
  pos : 0 < slot
  le : slot ≤ c.maxSlots
  here : devMiscInfo = c.deviceContext + (slot - 1) * c.slotSize
  bEndpointSpeed : UInt8
  speed : UInt8

def getSlotId (c : Controller) (devMiscInfo : Nat) : UInt8 := UInt8.ofNat ((devMiscInfo - c.deviceContext) / c.slotSize) + 1

def USB_DEV_SPEED_HIGH : UInt8 := 0
def USB_DEV_SPEED_SUPER : UInt8 := 4
def USB_DEV_SPEED_SUPER_PLUS : UInt8 := 0x40
def XHCI_DEVSPEED_HIGH : UInt8 := 3
def XHCI_DEVSPEED_SUPER : UInt8 := 4
def XHCI_DEVSPEED_SUPER_PLUS : UInt8 := 5

/-! ## Descriptors -/

/-- An `ENDP_DESC`, with `MaxBurst` of the companion descriptor behind it. -/
structure Endpoint where
  bEndpointAddr : UInt8
  bEndpointFlags : UInt8
  wMaxPacketSize : UInt16
  bPollInterval : UInt8
  maxBurst : Option UInt8

inductive Item where
  | interface (bBaseClass : UInt8)
  | endpoint (e : Endpoint)
  | other

def wordAt (desc : List UInt8) (i : Nat) : Option UInt16 := do
  let lo ← desc[i]?
  let hi ← desc[i + 1]?
  return lo.toUInt16 ||| hi.toUInt16 <<< 8

/-- `MaxBurst` of the descriptor behind the endpoint, which is looked at for a fast device only. -/
def companionAt (superSpeed : Bool) (desc : List UInt8) (i : Nat) : Option (Option UInt8) :=
  if superSpeed then do
    let descType ← desc[i + 1]?
    if descType = 48 then do
      let maxBurst ← desc[i + 2]?
      return some maxBurst
    else return none
  else some none

def endpointAt (superSpeed : Bool) (desc : List UInt8) (pos len : Nat) : Option Endpoint := do
  let bEndpointAddr ← desc[pos + 2]?
  let bEndpointFlags ← desc[pos + 3]?
  let maxBurst ← companionAt superSpeed desc (pos + len)
  let wMaxPacketSize ← wordAt desc (pos + 4)
  let bPollInterval ← desc[pos + 6]?
  return ⟨bEndpointAddr, bEndpointFlags, wMaxPacketSize, bPollInterval, maxBurst⟩

/-- The descriptor at a place, as far as the loop looks at it. -/
def itemAt (superSpeed parseIf : Bool) (desc : List UInt8) (pos len : Nat) : Option Item := do
  let bDescType ← desc[pos + 1]?
  if bDescType = 4 then do
    let bBaseClass ← desc[pos + 5]?
    return .interface bBaseClass
  else if bDescType ≠ 5 then return .other
  else do
    let bEndpointFlags ← desc[pos + 3]?
    -- isochronous endpoints are enabled with their interface only
    if bEndpointFlags &&& 3 = 1 ∧ parseIf = false then return .other
    else do
      let e ← endpointAt superSpeed desc pos len
      return .endpoint e

def Endpoint.isControl (e : Endpoint) : Bool := e.bEndpointFlags &&& 3 = 0
def Endpoint.isIn (e : Endpoint) : Bool := e.bEndpointAddr &&& 0x80 ≠ 0

def Endpoint.dci (e : Endpoint) : UInt8 :=
  (e.bEndpointAddr &&& 0xf) * 2 + if e.isControl || e.isIn then 1 else 0

def Endpoint.epType (e : Endpoint) : UInt8 :=
  if e.isControl then 4 else (e.bEndpointFlags &&& 3) + if e.isIn then 4 else 0

def Endpoint.isIsoc (e : Endpoint) : Bool := e.epType = 1 || e.epType = 5

/-- How often a byte is halved until it is zero. -/
def bitCount (interval : UInt8) : UInt8 := if interval = 0 then 0 else UInt8.ofNat (Nat.log2 interval.toNat + 1)

def translateInterval (epType speed interval : UInt8) : UInt8 :=
  if interval = 0 then 0
  else if epType = 4 ∨ epType = 2 ∨ epType = 6 then
    if speed = XHCI_DEVSPEED_HIGH then bitCount interval - 1 else 0
  else if speed = XHCI_DEVSPEED_SUPER ∨ speed = XHCI_DEVSPEED_SUPER_PLUS ∨ speed = XHCI_DEVSPEED_HIGH then interval - 1
  else bitCount interval + 2

/-! ## Contexts and rings -/

/-- Memory for TRBs: the segment of a ring in `XfrTrbs`, what a caller provides for isochronous transfers, or the place of a
`TRB_RING` itself. -/
inductive Segment where
  | xfrTrbs (index : Int)
  | isoc
  | trbRing (index : Int)
  deriving DecidableEq

structure TrbRing where
  base : Segment
  size : Nat
  cycleBit : Bool

structure EpContext where
  epType : UInt8
  interval : UInt8
  errorCount : UInt8
  maxBurstSize : UInt8
  maxPacketSize : UInt16
  avgTrbLength : UInt16
  maxEsitPayloadLo : UInt16
  trDequeuePtr : Segment

inductive Written where
  | context (index : Nat)
  | ring (index : Int)
  | trbs (s : Segment) (size : Nat)

/-- The input context, the rings, `IsocDetails.XferRing` and `IsHub`. -/
structure Setup where
  addContextFlags : UInt32
  contextEntries : UInt8
  hub : Option (UInt8 × Option UInt16)
  epContexts : Nat → EpContext
  rings : Int → TrbRing
  xferRing : Segment
  isHub : Bool
  written : List Written

def inputContextEntries : Nat := 33

/-- The input context is cleared, with its slot flag set. -/
def clearInput (rings : Int → TrbRing) (xferRing : Segment) : Setup where
  addContextFlags := 1
  contextEntries := 0
  hub := none
  epContexts := fun _ => ⟨0, 0, 0, 0, 0, 0, 0, .xfrTrbs 0⟩
  rings := rings
  xferRing := xferRing
  isHub := false
  written := (List.range inputContextEntries).map .context

/-- `XfrRings + (Slot-1)*32 + Ep`. -/
def ringIndex (slotId : UInt8) (ep : Int) : Int := ((slotId.toNat : Int) - 1) * 32 + ep

/-- `XHCI_InitRing`. -/
def initRing (s : Setup) (index : Int) (base : Segment) (size : Nat) : Setup :=
  { s with rings := Function.update s.rings index ⟨base, size, true⟩, written := s.written ++ [.ring index, .trbs base size] }

/-- The ring of an endpoint, and its size. -/
def endpointRing (slotId : UInt8) (xferRing : Segment) (e : Endpoint) : Int × Segment × Nat :=
  if e.isIsoc then (ringIndex slotId ((e.dci.toNat : Int) - 1), xferRing, 8192)
  else
    -- `Ep` is a byte
    let index := ringIndex slotId (e.dci - 1).toNat
    (index, .xfrTrbs index, 64)

def maxBurstSize (bEndpointSpeed : UInt8) (old : UInt8) (e : Endpoint) : UInt8 :=
  if bEndpointSpeed = USB_DEV_SPEED_HIGH ∧ (e.bEndpointFlags &&& 3 = 3 ∨ e.bEndpointFlags &&& 3 = 1) then
    (e.wMaxPacketSize >>> 11).toUInt8
  else e.maxBurst.getD old

/-- The fields of an endpoint context but for its ring. -/
def fillContext (speed bEndpointSpeed : UInt8) (old : EpContext) (e : Endpoint) (base : Segment) : EpContext :=
  let burst := maxBurstSize bEndpointSpeed old.maxBurstSize e
  let maxPacketSize := e.wMaxPacketSize &&& 0x7ff
  let maxEsitPayload := UInt16.ofNat ((burst.toNat + 1) * maxPacketSize.toNat)
  let type := e.epType
  { epType := type
    interval := translateInterval type speed e.bPollInterval
    errorCount := if type = 1 ∨ type = 5 then 0 else if type = 0 then old.errorCount else 3
    maxBurstSize := burst
    maxPacketSize := maxPacketSize
    avgTrbLength := if type = 1 ∨ type = 5 then maxEsitPayload else if type = 2 ∨ type = 6 then 0xC00
      else if type = 3 ∨ type = 7 then 0x400 else if type = 4 then 8 else old.avgTrbLength
    maxEsitPayloadLo := if type = 1 ∨ type = 5 ∨ type = 3 ∨ type = 7 then maxEsitPayload else old.maxEsitPayloadLo
    trDequeuePtr := base }

def enableEndpoint {c : Controller} (d : Device c) (slotId : UInt8) (s : Setup) (e : Endpoint) : Setup :=
  let r := endpointRing slotId s.xferRing e
  let entry := e.dci.toNat + 1
  let s' := initRing s r.1 r.2.1 r.2.2
  { s' with
    contextEntries := if e.dci > s.contextEntries then e.dci else s.contextEntries
    epContexts := Function.update s.epContexts entry (fillContext d.speed d.bEndpointSpeed (s.epContexts entry) e r.2.1)
    xferRing := if e.isIsoc then .trbRing r.1 else s.xferRing
    addContextFlags := s.addContextFlags ||| 1 <<< e.dci.toUInt32
    written := s'.written ++ [.context 0, .context 1, .context entry] }

def enableItem {c : Controller} (d : Device c) (slotId : UInt8) (s : Setup) : Item → Setup
  | .interface bBaseClass => { s with isHub := bBaseClass = 9 }
  | .endpoint e => enableEndpoint d slotId s e
  | .other => s

/-! ## The function -/

/-- `HUB_DESC`. -/
structure HubDesc where
  bDescType : UInt8
  bNumPorts : UInt8
  wHubFlags : UInt16

def HubDesc.tThinkTime (h : HubDesc) : UInt16 := h.wHubFlags >>> 5 &&& 3

/-- What the function asks of others: the state of the controller, `AmiValidateMemoryBuffer` for so many bytes of the buffer
while `gCheckUsbApiParameter` is set, the hub descriptor if there is memory for it, and how the command ends. -/
structure Host where
  hcValid : Bool
  devValid : Bool
  running : Bool
  halted : Bool
  validates : Nat → Bool
  hubDesc : Option HubDesc
  configured : Bool

def Host.ready (h : Host) : Bool := h.hcValid && h.devValid && h.running && !h.halted

/-- `TotalLength` and `ParseIf`. -/
def totalLength (desc : List UInt8) : Option (Option (Nat × Bool)) := do
  let bDescType ← desc[1]?
  if bDescType = 2 then do
    let wTotalLength ← wordAt desc 2
    return some (wTotalLength.toNat, false)
  else if bDescType = 4 then do
    let bNumEndpoints ← desc[4]?
    return some (9 + 7 * bNumEndpoints.toNat, true)
  else return none

def superSpeed {c : Controller} (d : Device c) : Bool :=
  d.bEndpointSpeed = USB_DEV_SPEED_SUPER || d.bEndpointSpeed = USB_DEV_SPEED_SUPER_PLUS

/-- One descriptor of the buffer. -/
def itemRound {c : Controller} (d : Device c) (slotId : UInt8) (parseIf : Bool) (desc : List UInt8) (total : Nat) (s : Nat × Setup) :
    Option (Next (Nat × Setup) Setup) :=
  if s.1 < total then do
    let bDescLength ← desc[s.1]?
    if bDescLength = 0 ∨ total < s.1 + bDescLength.toNat then return .done s.2
    else do
      let item ← itemAt (superSpeed d) parseIf desc s.1 bDescLength.toNat
      return .again (s.1 + bDescLength.toNat, enableItem d slotId s.2 item)
  else some (.done s.2)

def updateHub {c : Controller} (d : Device c) (hubDesc : Option HubDesc) (s : Setup) : Option Setup :=
  if s.isHub then
    hubDesc.map fun h =>
      if h.bDescType = 0x29 ∨ h.bDescType = 0x2A then
        { s with
          hub := some (h.bNumPorts, if d.speed = XHCI_DEVSPEED_HIGH then some h.tThinkTime else none)
          written := s.written ++ [.context 1] }
      else s
  else some s

def maxControlDataSize : Nat := 0x800

/-- Whether the function succeeds, and what it leaves if it has begun. -/
def enableEndpoints {c : Controller} (d : Device c) (h : Host) (rings : Int → TrbRing) (xferRing : Segment) (desc : List UInt8) :
    Run (Bool × Option Setup) := do
  let slotId := getSlotId c d.devMiscInfo
  if !h.ready || !h.validates 9 then return (false, none)
  else do
    let form ← Run.ofOption (totalLength desc)
    match form with
    | none => return (false, none)
    | some (total, parseIf) =>
      if !h.validates total || d.devMiscInfo < c.deviceContext || d.devMiscInfo > c.deviceContext + c.slotSize * c.maxSlots then
        return (false, none)
      else do
        let s ← Run.loop (fun s => Run.ofOption (itemRound d slotId parseIf desc (min total (maxControlDataSize - 1)) s))
          (0, clearInput rings xferRing)
        let s ← Run.ofOption (updateHub d h.hubDesc s)
        return (h.configured, some s)

/-! ## What it is for -/

/-- The descriptors of the buffer from a place on, up to one that has no length or goes beyond the end. -/
inductive Walks (superSpeed parseIf : Bool) (desc : List UInt8) (total : Nat) : Nat → List Item → Prop where
  | past {pos : Nat} : total ≤ pos → Walks superSpeed parseIf desc total pos []
  | last {pos : Nat} {len : UInt8} : pos < total → desc[pos]? = some len → (len = 0 ∨ total < pos + len.toNat) →
    Walks superSpeed parseIf desc total pos []
  | item {pos : Nat} {len : UInt8} {i : Item} {items : List Item} : pos < total → desc[pos]? = some len →
    ¬ (len = 0 ∨ total < pos + len.toNat) → itemAt superSpeed parseIf desc pos len.toNat = some i →
    Walks superSpeed parseIf desc total (pos + len.toNat) items → Walks superSpeed parseIf desc total pos (i :: items)

def endpoints : List Item → List Endpoint
  | [] => []
  | .endpoint e :: items => e :: endpoints items
  | .interface _ :: items => endpoints items
  | .other :: items => endpoints items

/-- The class of the last interface is the one of hubs. -/
def describesHub : Bool → List Item → Bool
  | isHub, [] => isHub
  | _, .interface bBaseClass :: items => describesHub (bBaseClass = 9) items
  | isHub, .endpoint _ :: items => describesHub isHub items
  | isHub, .other :: items => describesHub isHub items

/-- The rings of a slot. -/
def OwnRing (slot : Nat) (index : Int) : Prop := ((slot : Int) - 1) * 32 ≤ index ∧ index < (slot : Int) * 32

def Own (slot : Nat) : Written → Prop
  | .context index => index < inputContextEntries
  | .ring index => OwnRing slot index
  | .trbs (.xfrTrbs index) size => OwnRing slot index ∧ size ≤ 64
  | .trbs .isoc _ => True
  | .trbs (.trbRing _) _ => False

/-- Nothing of another slot has changed. -/
structure Keeps (slot : Nat) (rings : Int → TrbRing) (s : Setup) : Prop where
  writes : ∀ w ∈ s.written, Own slot w
  others : ∀ index, ¬ OwnRing slot index → s.rings index = rings index

/-- The number of the ring of an endpoint. -/
def ringNumber (slot : Nat) (e : Endpoint) : Int := ((slot : Int) - 1) * 32 + e.dci.toNat - 1

/-- The ring of an endpoint: one of the slot, or the memory for isochronous transfers. -/
def ringOf (slot : Nat) (e : Endpoint) : TrbRing :=
  if e.isIsoc then ⟨.isoc, 8192, true⟩ else ⟨.xfrTrbs (ringNumber slot e), 64, true⟩

/-- The endpoints that are described are enabled, and no others. Of those that share an index the last has the ring. -/
structure Enabled (slot : Nat) (rings : Int → TrbRing) (described : List Endpoint) (s : Setup) : Prop where
  flags : ∀ i < 32, s.addContextFlags.toNat.testBit i = true ↔ i = 0 ∨ ∃ e ∈ described, e.dci.toNat = i
  entries : ∀ e ∈ described, e.dci ≤ s.contextEntries
  last : s.contextEntries = 0 ∨ ∃ e ∈ described, e.dci = s.contextEntries
  rings : ∀ index, s.rings index = ((described.reverse.find? fun e => ringNumber slot e = index).map (ringOf slot)).getD (rings index)
  leads : ∀ e ∈ described, (s.epContexts (e.dci.toNat + 1)).trDequeuePtr = (s.rings (ringNumber slot e)).base

/-- The descriptors that a buffer of this form describes. -/
def Describes {c : Controller} (d : Device c) (desc : List UInt8) (items : List Item) : Prop :=
  ∃ total parseIf, totalLength desc = some (some (total, parseIf))
    ∧ Walks (superSpeed d) parseIf desc (min total (maxControlDataSize - 1)) 0 items

/-- The function ends and reads nothing but the buffer, and what it leaves is all within the slot of the device. -/
def StaysInside {c : Controller} (d : Device c) (h : Host) (rings : Int → TrbRing) (xferRing : Segment) (desc : List UInt8) : Prop :=
  ∃ success setup, (enableEndpoints d h rings xferRing desc).Returns (success, setup)
    ∧ (∀ s, setup = some s → Keeps d.slot rings s)
    ∧ (success = true → ∃ s items, setup = some s ∧ Describes d desc items ∧ Enabled d.slot rings (endpoints items) s)

end BayTrail.Usb.Endpoints
