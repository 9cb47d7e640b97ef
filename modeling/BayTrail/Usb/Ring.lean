import Mathlib.Algebra.Ring.Nat
import Mathlib.Logic.Function.Basic

/-!
# xHCI: transfer rings

The transfer rings of Xhci.c: `XHCI_InitRing`, `XHCI_AdvanceEnqueuePtr`, and what the
control, bulk and interrupt transfers do to a ring. A TRB is named by its index, so that
`Base` is 0 and `LastTrb`, which holds the link TRB, is `Size - 1`. A call is the list of
the writes that it makes to the ring memory, in their order, since the controller can look
at the ring between any two of them.

A write also says which TRBs it hands over. This is no part of the program: it is what
setting the cycle bit there is meant to do, and the queue that it is compared with is one
to which just these TRBs are added.
-/

namespace BayTrail.Usb.Xhci

/-! ## TRBs -/

inductive TrbType where
  | unset | normal | setupStage | dataStage | statusStage | link
  deriving DecidableEq, Repr

/-- A TRB but for its cycle bit; `param` is the first eight bytes, `DataBuffer` or the setup
packet. -/
structure Body where
  trbType : TrbType := .unset
  param : Nat := 0
  xferLength : Nat := 0
  tdSize : Nat := 0
  isp : Bool := false
  chain : Bool := false
  ioc : Bool := false
  idt : Bool := false
  dir : Bool := false
  trt : Nat := 0
  deriving DecidableEq, Repr

structure Trb where
  body : Body
  cycleBit : Bool
  deriving DecidableEq, Repr

/-- The memory of a ring. -/
abbrev RingMem := Nat → Trb

/-- `TRB_RING`. -/
structure TrbRing where
  size : Nat
  queuePtr : Nat
  cycleBit : Bool
  deriving DecidableEq, Repr

def TrbRing.lastTrb (r : TrbRing) : Nat := r.size - 1

/-- `TRBS_PER_SEGMENT`. -/
def trbsPerSegment : Nat := 64

/-- `XHCI_InitRing` with a link TRB. -/
def initRing (size : Nat) : TrbRing × RingMem :=
  (⟨size, 0, true⟩, Function.update (fun _ => ⟨{}, false⟩) (size - 1) ⟨{ trbType := .link }, false⟩)

/-! ## Writes -/

/-- A write to the ring memory: the fields of a TRB other than the cycle bit, the cycle bit,
or the chain flag of the link TRB. -/
inductive Op where
  | fields (i : Nat) (body : Body)
  | cycle (i : Nat) (bit : Bool)
  | chain (i : Nat) (flag : Bool)

def Op.apply (m : RingMem) : Op → RingMem
  | .fields i body => Function.update m i { m i with body := body }
  | .cycle i bit => Function.update m i { m i with cycleBit := bit }
  | .chain i flag => Function.update m i { m i with body := { (m i).body with chain := flag } }

structure Write where
  op : Op
  hands : List Body := []

/-! ## XHCI_AdvanceEnqueuePtr -/

/-- `XHCI_AdvanceEnqueuePtr`: the ring, the writes and the TRB. The link TRB is the one at
`LastTrb`. `valid` is what `AmiValidateMemoryBuffer` says of the TRBs. -/
def advanceEnqueuePtr (valid : Nat → Bool) (r : TrbRing) : TrbRing × List Write × Option Nat :=
  let link := r.queuePtr = r.lastTrb
  let r' : TrbRing := if link then { r with queuePtr := 0, cycleBit := !r.cycleBit } else r
  let activate : List Write := if link then [⟨.cycle r.lastTrb r.cycleBit, []⟩] else []
  if valid r'.queuePtr then
    ({ r' with queuePtr := r'.queuePtr + 1 }, activate ++ [⟨.fields r'.queuePtr {}, []⟩],
      some r'.queuePtr)
  else (r', activate, none)

/-! ## Control and interrupt transfers -/

/-- One TRB after the other, each with its cycle bit set as soon as it is filled in. -/
def queueSingles (valid : Nat → Bool) : TrbRing → List Body → TrbRing × List Write
  | r, [] => (r, [])
  | r, b :: bs =>
    match advanceEnqueuePtr valid r with
    | (r, ws, none) => (r, ws)
    | (r, ws, some i) =>
      let rest := queueSingles valid r bs
      (rest.1, ws ++ (⟨.fields i b, []⟩ :: ⟨.cycle i r.cycleBit, [b]⟩ :: rest.2))

/-- The TRBs of `XHCI_ControlTransfer`; `request` is `bRequest` and `bmRequestType`, whose
top bit is that of an IN request. -/
def controlTrbs (ver100 : Bool) (request value index length bufPhyAddr : Nat) : List Body :=
  let input := request.testBit 7
  { trbType := .setupStage, idt := true
    param := request + value * 2 ^ 16 + index * 2 ^ 32 + length * 2 ^ 48
    xferLength := 8
    trt := if ver100 then (if length ≠ 0 then (if input then 3 else 2) else 0) else 0 } ::
  (if length ≠ 0 then
    [{ trbType := .dataStage, dir := input, xferLength := length, param := bufPhyAddr }] else [])
  ++ [{ trbType := .statusStage, ioc := true, dir := !input }]

/-- The TRB of `XHCI_InterruptTransfer` and of the polling routines. -/
def interruptTrb (bufPhyAddr length : Nat) : Body :=
  { trbType := .normal, param := bufPhyAddr, xferLength := length, isp := true, ioc := true }

/-! ## Bulk transfers -/

/-- `XHCI_BOT_TD_MAXSIZE` and `XHCI_BOT_MAX_XFR_SIZE`. -/
def botTdMaxSize : Nat := 0x10000
def botMaxXfrSize : Nat := botTdMaxSize * 8

/-- `TdSize`, of what remains behind the TRB and the size of the TRB itself. -/
def bulkTdSize (ver100 : Bool) (maxPktSize remaining size : Nat) : Nat :=
  if ver100 then
    if remaining ≠ 0 then
      min 31 (remaining / maxPktSize + if remaining % maxPktSize ≠ 0 then 1 else 0)
    else 0
  else if remaining + size < 32768 then (remaining + size) / 2 ^ 10 else 31

/-- The TRBs of the inner loop of `XHCI_BulkTransfer`, with `remaining` bytes to go from
`dataPointer` on. Each TRB has a byte at least, so that the fuel is that of a TRB a byte. -/
def bulkLoop (ver100 : Bool) (maxPktSize : Nat) : Nat → Nat → Nat → List Body
  | 0, _, _ => []
  | fuel + 1, dataPointer, remaining =>
    if remaining = 0 then []
    else
      let long := botTdMaxSize < remaining
      let tdSize := if long then botTdMaxSize else remaining
      -- a TRB does not span a 64 KB boundary
      let room := 0x10000 - dataPointer % 0x10000
      let cut := room < tdSize
      let size := if cut then room else tdSize
      { trbType := .normal, isp := true, param := dataPointer, xferLength := size
        chain := decide long || decide cut
        ioc := !decide long && !decide cut
        tdSize := bulkTdSize ver100 maxPktSize (remaining - size) size } ::
        bulkLoop ver100 maxPktSize fuel (dataPointer + size) (remaining - size)

def bulkTrbs (ver100 : Bool) (maxPktSize dataPointer ringDataSize : Nat) : List Body :=
  bulkLoop ver100 maxPktSize ringDataSize dataPointer ringDataSize

/-- The outer loop of `XHCI_BulkTransfer`, when each round transfers all its bytes: data
pointer and `RingDataSize` of the rounds. -/
def bulkRounds : Nat → Nat → Nat → List (Nat × Nat)
  | 0, _, _ => []
  | fuel + 1, dataPointer, remaining =>
    if remaining = 0 then []
    else
      let ringDataSize := if botMaxXfrSize < remaining then botMaxXfrSize else remaining
      (dataPointer, ringDataSize) ::
        bulkRounds fuel (dataPointer + ringDataSize) (remaining - ringDataSize)

/-- The inner loop on the ring: `first` is `FirstTrb` and `last` is `Trb`. All TRBs but the
first have their cycle bits set. Nothing is handed back of a loop that is left early. -/
def chainLoop (valid : Nat → Bool) : Option Nat → Nat → TrbRing → List Body →
    TrbRing × List Write × Option (Nat × Nat)
  | first, last, r, [] => (r, [], first.map fun f => (f, last))
  | first, _, r, b :: bs =>
    match advanceEnqueuePtr valid r with
    | (r, ws, none) => (r, ws, none)
    | (r, ws, some i) =>
      let f := first.getD i
      let rest := chainLoop valid (some f) i r bs
      (rest.1, ws ++ (⟨.fields i b, []⟩ :: (if i ≠ f then [⟨.cycle i r.cycleBit, []⟩] else [])
        ++ rest.2.1), rest.2.2)

/-- A round of `XHCI_BulkTransfer`. The first TRB is given its cycle bit last, that of the
ring before the link TRB if the chain has crossed it. The chain flag of the link TRB is
cleared after the wait for the event, to which it does not come if the endpoint is not seen
running (`rung`). -/
def queueChain (valid : Nat → Bool) (rung : Bool) (r : TrbRing) (bodies : List Body) :
    TrbRing × List Write :=
  match chainLoop valid none 0 r bodies with
  | (r, ws, none) => (r, ws)
  | (r, ws, some (first, last)) =>
    if !valid r.lastTrb then (r, ws)
    else
      (r, ws
        ++ (if last < first then
              [⟨.chain r.lastTrb true, []⟩, ⟨.cycle first r.cycleBit, []⟩,
                ⟨.cycle first (!r.cycleBit), bodies⟩]
            else [⟨.cycle first r.cycleBit, bodies⟩])
        ++ (if rung then [⟨.chain r.lastTrb false, []⟩] else []))

/-! ## Transfers -/

/-- What a call queues. A bulk transfer is one such round after the other. -/
inductive Transfer where
  | control (ver100 : Bool) (request value index length bufPhyAddr : Nat)
  | bulk (ver100 : Bool) (maxPktSize dataPointer ringDataSize : Nat) (rung : Bool)
  | interrupt (bufPhyAddr length : Nat)

def Transfer.trbs : Transfer → List Body
  | .control ver100 request value index length bufPhyAddr =>
    controlTrbs ver100 request value index length bufPhyAddr
  | .bulk ver100 maxPktSize dataPointer ringDataSize _ =>
    bulkTrbs ver100 maxPktSize dataPointer ringDataSize
  | .interrupt bufPhyAddr length => [interruptTrb bufPhyAddr length]

def Transfer.queue (valid : Nat → Bool) (r : TrbRing) (t : Transfer) : TrbRing × List Write :=
  match t with
  | .bulk _ _ _ _ rung => queueChain valid rung r t.trbs
  | _ => queueSingles valid r t.trbs

/-! ## The system -/

/-- Driver, ring memory and controller. -/
structure System where
  mem : RingMem
  ring : TrbRing
  /-- the writes of the call under way that are still to come -/
  todo : List Write
  /-- dequeue pointer and cycle state of the controller -/
  dequeue : Nat
  ccs : Bool
  /-- the TRBs that it has taken -/
  taken : List Body

def System.init (size : Nat) : System :=
  { mem := (initRing size).2, ring := (initRing size).1, todo := [], dequeue := 0, ccs := true,
    taken := [] }

def System.submit (s : System) (valid : Nat → Bool) (t : Transfer) : System :=
  { s with ring := (t.queue valid s.ring).1, todo := (t.queue valid s.ring).2 }

def System.write (s : System) (w : Write) (ws : List Write) : System :=
  { s with mem := w.op.apply s.mem, todo := ws }

/-- The controller takes the TRB at its dequeue pointer, or follows the link. -/
def System.fetch (s : System) : System :=
  if (s.mem s.dequeue).body.trbType = .link then { s with dequeue := 0, ccs := !s.ccs }
  else { s with dequeue := s.dequeue + 1, taken := s.taken ++ [(s.mem s.dequeue).body] }

/-- Set TR Dequeue Pointer with `QueuePtr + CycleBit`. -/
def System.recover (s : System) : System :=
  { s with dequeue := s.ring.queuePtr, ccs := s.ring.cycleBit }

/-- What the controller would take if the driver did nothing more. -/
def visible (m : RingMem) : Nat → Nat → Bool → List Body
  | 0, _, _ => []
  | fuel + 1, dequeue, ccs =>
    if (m dequeue).cycleBit ≠ ccs then []
    else if (m dequeue).body.trbType = .link then visible m fuel 0 (!ccs)
    else (m dequeue).body :: visible m fuel (dequeue + 1) ccs

/-- The steps of a walk round the ring and of the link. -/
def System.visible (s : System) : List Body :=
  Xhci.visible s.mem (2 * s.ring.size + 2) s.dequeue s.ccs

/-! ## The queue -/

/-- What the ring is to be: a queue of TRBs, and the TRBs taken of it. -/
structure Queue where
  waiting : List Body
  taken : List Body

def Queue.hand (q : Queue) (bodies : List Body) : Queue :=
  { q with waiting := q.waiting ++ bodies }

def Queue.take (q : Queue) : Queue :=
  { waiting := q.waiting.tail, taken := q.taken ++ q.waiting.head?.toList }

def Queue.drop (q : Queue) : Queue := { q with waiting := [] }

/-- A run of the system beside that of the queue: any transfers, with the controller taking
TRBs between any two writes, and Set TR Dequeue Pointer between calls. `ok` is what is asked
of the state in which a transfer is queued. -/
inductive Run (size : Nat) (valid : Nat → Bool) (ok : Queue → Transfer → Prop) :
    System → Queue → Prop
  | init : Run size valid ok (System.init size) ⟨[], []⟩
  | submit {s : System} {q : Queue} (t : Transfer) (h : Run size valid ok s q) (idle : s.todo = [])
      (hok : ok q t) : Run size valid ok (s.submit valid t) q
  | write {s : System} {q : Queue} {w : Write} {ws : List Write} (h : Run size valid ok s q)
      (htodo : s.todo = w :: ws) : Run size valid ok (s.write w ws) (q.hand w.hands)
  | follow {s : System} {q : Queue} (h : Run size valid ok s q)
      (hcycle : (s.mem s.dequeue).cycleBit = s.ccs)
      (hlink : (s.mem s.dequeue).body.trbType = .link) : Run size valid ok s.fetch q
  | fetch {s : System} {q : Queue} (h : Run size valid ok s q)
      (hcycle : (s.mem s.dequeue).cycleBit = s.ccs)
      (hlink : (s.mem s.dequeue).body.trbType ≠ .link) : Run size valid ok s.fetch q.take
  | recover {s : System} {q : Queue} (h : Run size valid ok s q) (idle : s.todo = []) :
      Run size valid ok s.recover q.drop

/-- Between two writes the controller has taken what was taken of the queue, and sees what is
waiting there. -/
def Agrees (s : System) (q : Queue) : Prop := s.taken = q.taken ∧ s.visible = q.waiting

end BayTrail.Usb.Xhci
