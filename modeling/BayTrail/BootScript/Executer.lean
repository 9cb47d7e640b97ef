import BayTrail.BootScript.Savers

/-!
# The S3 boot script: the executer

`BootScriptExecuter.c` as built for IA32 (`UINTN` has 32 bits), with the CPU I/O PPI of
`CpuIoPei.c`. The PCI, SMBus and stall PPIs and the entry points of dispatches are the
outside: what they are asked for is noted in a history, and what they answer depends on
all that has been asked before. A dispatched function does not write to the table, which
ends below 4 GiB.
-/

namespace BayTrail.BootScript

open BayTrail.Lib

/-- What an address is an address of. -/
inductive Space where
  | io
  | mem
  | pci (segment : Nat)
  deriving DecidableEq

/-- What is asked of the outside; `width` is 0 to 3. -/
inductive Access where
  | read (space : Space) (width address : Nat)
  | write (space : Space) (width address : Nat) (value : Bytes)
  | smbus (slaveAddress command operation pecCheck : Nat) (buffer : Bytes)
  | stall (microseconds : Nat)
  | call (entryPoint context : Nat)
  deriving DecidableEq

abbrev History := List Access

structure Platform where
  /-- what the last access of the history reads -/
  answer : History → Nat
  /-- what the last access of the history, to the SMBus, leaves in the buffer -/
  smbusData : History → Bytes
  /-- the address of `PeiServices` -/
  peiServices : Nat
  smBusPpi : Bool
  stallPpi : Bool
  /-- there is a PCI PPI with that `Segment` -/
  segment : Nat → Bool

/-- The table, `Value64`, where entries were looked for, and what has been asked. -/
structure Exec where
  mem : Mem
  value : Nat
  walk : List Nat
  history : History

/-! ## The CPU I/O PPI -/

def mInStride : List Nat := [1, 2, 4, 8, 0, 0, 0, 0, 1, 2, 4, 8]
def mOutStride : List Nat := [1, 2, 4, 8, 1, 2, 4, 8, 0, 0, 0, 0]

/-- `CpuIoCheckParameter`, for a buffer that is not null. -/
def cpuIoCheckParameter (mmio : Bool) (width address count : Nat) : Bool :=
  if 12 ≤ width then false
  else
    let count := if 4 ≤ width ∧ width ≤ 7 then 1 else count
    let width := width % 4
    if !mmio && width == 3 then false
    else
      let limit := if mmio then 0xffffffff else 0xffff
      if count = 0 then address ≤ limit
      else
        let maxCount := limit / 2 ^ width
        if maxCount < count - 1 then false
        else address ≤ (maxCount + 1 - count) * 2 ^ width

/-- The loop of `CpuIoServiceWrite` and `CpuMemoryServiceWrite`. -/
def serviceWriteLoop (m : Mem) (space : Space) (width : Nat) : Nat → Nat → Nat → History
  | 0, _, _ => []
  | count + 1, address, buffer =>
    .write space (width % 4) address (peek m buffer (valueSize width))
      :: serviceWriteLoop m space width count (address + mInStride.getD width 0)
          (buffer + mOutStride.getD width 0)

/-- `CpuIoServiceWrite` and `CpuMemoryServiceWrite` from a buffer in the table. -/
def Exec.serviceWrite (x : Exec) (mmio : Bool) (width address count buffer : Nat) : Exec :=
  if cpuIoCheckParameter mmio width address count then
    { x with history := x.history
        ++ serviceWriteLoop x.mem (if mmio then .mem else .io) width count address buffer }
  else x

/-! ## Single accesses -/

/-- The access reaches the device. -/
def Space.reaches : Space → Nat → Nat → Bool
  | .io, width, address => cpuIoCheckParameter false width address 1
  | .mem, width, address => cpuIoCheckParameter true width address 1
  | .pci _, _, _ => true

/-- A read to `Value64`, of which the bytes above the width stay. -/
def Exec.read (pf : Platform) (x : Exec) (space : Space) (width address : Nat) : Exec :=
  if space.reaches width address then
    let h := x.history ++ [.read space width address]
    let above := 256 ^ valueSize width
    { x with
      value := x.value / above * above + pf.answer h % above
      history := h }
  else x

/-- A write of `Value64`. -/
def Exec.write (x : Exec) (space : Space) (width address : Nat) : Exec :=
  if space.reaches width address then
    { x with history :=
        x.history ++ [.write space width address (leBytes (valueSize width) x.value)] }
  else x

def Exec.readWrite (pf : Platform) (x : Exec) (space : Space) (width address value mask : Nat) :
    Exec :=
  let x := x.read pf space width address
  let x := { x with value := (x.value &&& mask) ||| value }
  x.write space width address

/-- The loop of a poll. `stall` is what `StallPpi` is asked for behind each read where the
poll is one of PI (`Pi12Spec`), and `pollDelay` how many reads are left. `none` is a poll
that has not ended after `polls` reads. -/
def pollLoop (pf : Platform) (space : Space) (width address mask result : Nat)
    (stall : Option Nat) : Nat → Nat → Exec → Option Exec
  | 0, _, _ => none
  | polls + 1, pollDelay, x =>
    let x := x.read pf space width address
    let x := { x with value := x.value &&& mask }
    match stall with
    | none =>
      if x.value = result then some x
      else pollLoop pf space width address mask result stall polls pollDelay x
    | some t =>
      let x := { x with history := x.history ++ [.stall t] }
      let pollDelay := uintn (pollDelay + 2 ^ 64 - 1)
      if pollDelay = 0 then some { x with value := if space = .mem then x.value else result }
      else if x.value = result then some x
      else pollLoop pf space width address mask result stall polls pollDelay x

/-! ## PCI -/

/-- `PciRegAdd`. -/
def pciRegAdd (address valueSize : Nat) : Nat :=
  if address / 2 ^ 32 ≠ 0 then
    (address / 2 ^ 32 + valueSize) % 2 ^ 32 * 2 ^ 32 + address % 2 ^ 32
  else address / 256 * 256 + (address % 256 + valueSize) % 256

/-- The loop of a PCI write; `AddressCount` is added to the buffer, not the size of a
value. -/
def pciWriteLoop (m : Mem) (space : Space) (width addressCount : Nat) : Nat → Nat → Nat → History
  | 0, _, _ => []
  | count + 1, address, buffer =>
    .write space (width % 4) address (peek m buffer (valueSize width))
      :: match width / 4 with
        | 0 => pciWriteLoop m space width addressCount count
                (pciRegAdd address (valueSize width)) (buffer + addressCount)
        | 1 => pciWriteLoop m space width addressCount count address (buffer + addressCount)
        | 2 => pciWriteLoop m space width addressCount count
                (pciRegAdd address (valueSize width)) buffer
        | _ => pciWriteLoop m space width addressCount count address buffer

/-- The `UINTN` that counts does not get to a `Count` of 2^32 or more. -/
def Exec.pciWrite (x : Exec) (space : Space) (width addressCount address count buffer : Nat) :
    Option Exec :=
  if 2 ^ 32 ≤ count then none
  else some { x with history :=
      x.history ++ pciWriteLoop x.mem space width addressCount count address buffer }

/-- The PCI PPI for a segment: `SwitchPciCfgPpi` where it is not 0. -/
def Platform.pciCfgPpi (pf : Platform) (segment : Nat) : Option Space :=
  if segment ≠ 0 then if pf.segment segment then some (.pci segment) else none
  else some (.pci 0)

/-! ## ExecuteScript -/

/-- `AddressCount`, a `UINT32`. -/
def addressCount32 (width count : Nat) : Nat :=
  valueSize width * (if isFifo width then 1 else count % 2 ^ 32) % 2 ^ 32

/-- The `UINT64` field number `i` of the structure at `p`. -/
def fieldAt (m : Mem) (p i : Nat) : Nat := rd m 8 (p + 8 + 8 * i)

inductive Outcome where
  | next (tableAddr : Nat) (x : Exec)
  | stop (status : Status) (x : Exec)

/-- The entry whose structure is at `p`. -/
def executeEntry (pf : Platform) (polls : Nat) (x : Exec) (p : Nat) : Option Outcome :=
  let type := rd x.mem 2 p
  let width := type / 256
  let port := rd x.mem 2 (p + 2)
  let field := fieldAt x.mem p
  let pci := fun segment (next : Space → Option Outcome) =>
    match pf.pciCfgPpi segment with
    | none => some (.stop .unsupported x)
    | some space => next space
  match type % 256 with
  | 0x00 =>
    some (.next (p + 16 + addressCount32 width (field 0))
      (x.serviceWrite false width port (field 0 % 2 ^ 32) (p + 16)))
  | 0x01 => some (.next (p + 24) (x.readWrite pf .io (width % 4) port (field 0) (field 1)))
  | 0x0D =>
    (pollLoop pf .io (width % 4) port (field 0) (field 1) (some 1) polls (field 2 / 10 + 1) x).map
      (.next (p + 32))
  | 0x80 =>
    (pollLoop pf .io (width % 4) port (field 0) (field 1) none polls 0 x).map (.next (p + 24))
  | 0x02 =>
    some (.next (p + 24 + addressCount32 width (field 1))
      (x.serviceWrite true width (field 0) (field 1 % 2 ^ 32) (p + 24)))
  | 0x03 =>
    some (.next (p + 32) (x.readWrite pf .mem (width % 4) (field 0) (field 1) (field 2)))
  | 0x0E =>
    (pollLoop pf .mem (width % 4) (field 0) (field 1) (field 2) (some (field 3 % 2 ^ 32)) polls
      (uintn (field 4 + 1)) x).map (.next (p + 48))
  | 0x81 =>
    (pollLoop pf .mem (width % 4) (field 0) (field 1) (field 2) none polls 0 x).map
      (.next (p + 32))
  | 0x0B => pci (rd x.mem 2 (p + 24)) fun space =>
    let addressCount := addressCount32 width (field 1)
    (x.pciWrite space width addressCount (field 0) (field 1) (p + 32)).map
      (.next (p + 32 + addressCount))
  | 0x04 =>
    let addressCount := addressCount32 width (field 1)
    (x.pciWrite (.pci 0) width addressCount (field 0) (field 1) (p + 24)).map
      (.next (p + 24 + addressCount))
  | 0x0C => pci (rd x.mem 2 (p + 32)) fun space =>
    some (.next (p + 40) (x.readWrite pf space (width % 4) (field 0) (field 1) (field 2)))
  | 0x05 =>
    some (.next (p + 32) (x.readWrite pf (.pci 0) (width % 4) (field 0) (field 1) (field 2)))
  | 0x10 => pci (rd x.mem 2 (p + 40)) fun space =>
    (pollLoop pf space (width % 4) (field 0) (field 1) (field 2) (some 1) polls
      (field 3 / 10 + 1) x).map (.next (p + 48))
  | 0x0F =>
    (pollLoop pf (.pci 0) (width % 4) (field 0) (field 1) (field 2) (some 1) polls
      (field 3 / 10 + 1) x).map (.next (p + 40))
  | 0x82 =>
    (pollLoop pf (.pci 0) (width % 4) (field 0) (field 1) (field 2) none polls 0 x).map
      (.next (p + 32))
  | 0x06 =>
    let length := rd x.mem 8 (p + 15) % 2 ^ 32
    let h := x.history ++ [.smbus (rd x.mem 4 (p + 2)) (rd x.mem 4 (p + 6)) (rd x.mem 4 (p + 10))
      (rd x.mem 1 (p + 14)) (peek x.mem (p + 23) length)]
    some (.next (p + 23 + length)
      { x with mem := poke x.mem (p + 23) ((pf.smbusData h).take length), history := h })
  | 0x07 =>
    some (.next (p + 16) { x with history := x.history ++ [.stall (field 0 % 2 ^ 32)] })
  | 0x08 =>
    some (.next (p + 16)
      { x with history := x.history ++ [.call (field 0 % 2 ^ 32) pf.peiServices] })
  | 0x09 =>
    some (.next (p + 24)
      { x with history := x.history ++ [.call (field 0 % 2 ^ 32) pf.peiServices] })
  | 0x0A => some (.next (p + 16) x)
  | 0x83 => some (.next (p + 8 + rd x.mem 4 (p + 4)) x)
  | 0xff => some (.stop .success x)
  | _ => some (.stop .unsupported x)

/-- The loop of `ExecuteScript`, with `TableAddr` at `p`. -/
def executeLoop (pf : Platform) (polls : Nat) : Nat → Nat → Exec → Option (Status × Exec)
  | 0, _, _ => none
  | fuel + 1, p, x =>
    let x := { x with walk := x.walk ++ [p] }
    match executeEntry pf polls x (p + sizeofInfo) with
    | none => none
    | some (.stop status x) => some (status, x)
    | some (.next p x) => executeLoop pf polls fuel p x

/-- `ExecuteScript` on a table with the bytes `m` at `address`; `value` is what is on the
stack for `Value64`. `none` is an execution that has not ended yet. -/
def executeScript (pf : Platform) (polls fuel value : Nat) (fvFile : Bool) (address : Nat)
    (m : Mem) : Option (Status × Exec) :=
  let x : Exec := ⟨m, value, [], []⟩
  if fvFile then some (.unsupported, x)
  else if address = 0 then some (.invalidParameter, x)
  else if !pf.smBusPpi || !pf.stallPpi then some (.unsupported, x)
  else executeLoop pf polls fuel 0 x

end BayTrail.BootScript
