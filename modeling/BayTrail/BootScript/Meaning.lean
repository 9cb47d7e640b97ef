import BayTrail.BootScript.Executer

/-!
# The S3 boot script: what a request asks for

`Request.perform` says which accesses a request asks for, from its arguments alone: the
elements of a write in order, each at the address that its width prescribes; a read and
the write of what was read, masked; the reads of a poll until one has the result.
`Request.Supported` is the condition under which the executer performs just that.
-/

namespace BayTrail.BootScript

open BayTrail.Lib

namespace Width

/-- The bytes of a value. -/
def size : Width → Nat
  | uint8 | fifoUint8 | fillUint8 => 1
  | uint16 | fifoUint16 | fillUint16 => 2
  | uint32 | fifoUint32 | fillUint32 => 4
  | uint64 | fifoUint64 | fillUint64 => 8

/-- All values go to one address. -/
def fifo : Width → Bool
  | fifoUint8 | fifoUint16 | fifoUint32 | fifoUint64 => true
  | _ => false

/-- One value goes to all addresses. -/
def fill : Width → Bool
  | fillUint8 | fillUint16 | fillUint32 | fillUint64 => true
  | _ => false

/-- The width of a single access. -/
def single (w : Width) : Nat := w.toNat % 4

end Width

/-- The address `n` bytes on. The register of a PCI address is its high half where that
is not zero. -/
def Space.register : Space → Nat → Nat → Nat
  | .pci _, address, n => if address / 2 ^ 32 ≠ 0 then address + n * 2 ^ 32 else address + n
  | .io, address, n => address + n
  | .mem, address, n => address + n

/-- Element `i` of a write. -/
def writeElement (space : Space) (w : Width) (address : Nat) (buffer : Mem) (i : Nat) : Access :=
  .write space w.single (if w.fifo then address else space.register address (i * w.size))
    (peek buffer (if w.fill then 0 else i * w.size) w.size)

def writeAll (space : Space) (w : Width) (address count : Nat) (buffer : Mem) : History :=
  (List.range count).map (writeElement space w address buffer)

def modify (pf : Platform) (space : Space) (w : Width) (address data mask : Nat) (h : History) :
    History :=
  let h := h ++ [.read space w.single address]
  h ++ [.write space w.single address (leBytes w.size ((pf.answer h &&& mask) ||| data))]

/-- A poll. One with a `stall` gives up after `times` reads. -/
def pollUntil (pf : Platform) (space : Space) (w : Width) (address mask result : Nat)
    (stall : Option Nat) : Nat → Nat → History → Option History
  | 0, _, _ => none
  | polls + 1, times, h =>
    let h := h ++ [.read space w.single address]
    let hit := (pf.answer h &&& mask) % 256 ^ w.size = result % 256 ^ w.size
    let h := h ++ (stall.map .stall).toList
    if hit ∨ stall.isSome ∧ times ≤ 1 then some h
    else pollUntil pf space w address mask result stall polls (times - 1) h

namespace Request

/-- The history after what the request asks for; `none` is a poll that has not ended. -/
def perform (pf : Platform) (polls : Nat) (r : Request) (h : History) : Option History :=
  match r with
  | ioWrite w a n b => some (h ++ writeAll .io w a.toNat n.toNat b)
  | memWrite w a n b => some (h ++ writeAll .mem w a.toNat n.toNat b)
  | pciWrite w a n b => some (h ++ writeAll (.pci 0) w a.toNat n.toNat b)
  | pciCfg2Write w g a n b => some (h ++ writeAll (.pci g.toNat) w a.toNat n.toNat b)
  | ioReadWrite w a d m => some (modify pf .io w a.toNat d.toNat m.toNat h)
  | memReadWrite w a d m => some (modify pf .mem w a.toNat d.toNat m.toNat h)
  | pciReadWrite w a d m => some (modify pf (.pci 0) w a.toNat d.toNat m.toNat h)
  | pciCfg2ReadWrite w g a d m => some (modify pf (.pci g.toNat) w a.toNat d.toNat m.toNat h)
  | ioPoll w a r m d =>
    pollUntil pf .io w a.toNat m.toNat r.toNat (some 1) polls (d.toNat / 10 + 1) h
  | memPoll w a m r d l =>
    pollUntil pf .mem w a.toNat m.toNat r.toNat (some d.toNat) polls (l.toNat + 1) h
  | pciCfgPoll w a r m d =>
    pollUntil pf (.pci 0) w a.toNat m.toNat r.toNat (some 1) polls (d.toNat / 10 + 1) h
  | pciCfg2Poll w g a r m d =>
    pollUntil pf (.pci g.toNat) w a.toNat m.toNat r.toNat (some 1) polls (d.toNat / 10 + 1) h
  | oemIoPoll w a m r => pollUntil pf .io w a.toNat m.toNat r.toNat none polls 0 h
  | oemMemPoll w a m r => pollUntil pf .mem w a.toNat m.toNat r.toNat none polls 0 h
  | oemPciPoll w a m r => pollUntil pf (.pci 0) w a.toNat m.toNat r.toNat none polls 0 h
  | smbusExecute s c o p n b =>
    some (h ++ [.smbus s.toNat c.toNat o.toNat p.toNat (peek b 0 n.toNat)])
  | stall d => some (h ++ [.stall d.toNat])
  | dispatch e => some (h ++ [.call e.toNat pf.peiServices])
  | dispatch2 e c => some (h ++ [.call e.toNat c.toNat])
  | information .. => some h

/-- The requests one after the other. -/
def performAll (pf : Platform) (polls : Nat) : List Request → History → Option History
  | [], h => some h
  | r :: rs, h => (r.perform pf polls h).bind (performAll pf polls rs)

/-! ## The condition -/

/-- A write of which the saver saves what the executer writes: the CPU I/O PPI takes
`Count` values from the entry for FIFO, where one is saved. -/
def savesAll (w : Width) (count : UInt64) : Prop := w.fifo = true → count = 1

/-- The same for the PCI loop, which adds `AddressCount` to the buffer for all but fill. -/
def pciSavesAll (w : Width) (count : UInt64) : Prop := w.fill = false → count = 1

/-- There is no 64-bit I/O, and no port above 64 KiB. -/
def ioFits (w : Width) (address : UInt64) (count : Nat) : Prop :=
  w.size ≠ 8 ∧ address.toNat + w.size * count < 2 ^ 64

/-- Memory below 4 GiB. -/
def memFits (w : Width) (address : UInt64) (count : Nat) : Prop :=
  address.toNat + w.size * count ≤ 2 ^ 32

/-- The size does not wrap, nor the extended register. -/
def pciFits (w : Width) (address count : UInt64) : Prop :=
  address.toNat % 256 + w.size * count.toNat < 2 ^ 64
    ∧ address.toNat / 2 ^ 32 + w.size * count.toNat ≤ 2 ^ 32

def segmentFits (pf : Platform) (segment : UInt16) : Prop :=
  segment ≠ 0 → pf.segment segment.toNat = true

def Supported (pf : Platform) : Request → Prop
  | ioWrite w a n _ => savesAll w n ∧ ioFits w a n.toNat
  | memWrite w a n _ => savesAll w n ∧ memFits w a n.toNat ∧ 32 + w.size * n.toNat < 2 ^ 32
  | pciWrite w a n _ => pciSavesAll w n ∧ pciFits w a n
  | pciCfg2Write w g a n _ => pciSavesAll w n ∧ pciFits w a n ∧ segmentFits pf g
  | ioReadWrite w a _ _ => ioFits w a 1
  | memReadWrite w a _ _ => memFits w a 1
  | pciReadWrite .. => True
  | pciCfg2ReadWrite _ g _ _ _ => segmentFits pf g
  | ioPoll w a _ _ _ => ioFits w a 1
  | memPoll w a _ _ d _ => memFits w a 1 ∧ d.toNat < 2 ^ 32
  | pciCfgPoll .. => True
  | pciCfg2Poll _ g _ _ _ _ => segmentFits pf g
  | oemIoPoll w a _ _ => ioFits w a 1
  | oemMemPoll w a _ _ => memFits w a 1
  | oemPciPoll .. => True
  | smbusExecute s c _ _ n _ =>
    s.toNat < 2 ^ 32 ∧ c.toNat < 2 ^ 32 ∧ 31 + n.toNat < 2 ^ 32
  | stall d => d.toNat < 2 ^ 32
  | dispatch e => e.toNat < 2 ^ 32
  | dispatch2 e c => e.toNat < 2 ^ 32 ∧ c.toNat = pf.peiServices
  | information .. => True

end Request

end BayTrail.BootScript
