import BayTrail.Pci.Config
import BayTrail.Pci.Irq
import BayTrail.Pci.Resources

/-!
# The sizes of bars

`QueryPciDevice` of `PciBus.c`, `AdjustBarGra` and `GetOptRomRequirements`. All ones are written to a bar, and
the bits that do not take them are those below its size. One round of the loop over the bars finds what a
conforming bar is and puts its register back (`queryBars_layout`, by induction on the bars that are left), so
that the registers that were probed are as before when the last round is done. What is written besides, the
interrupt line, the latency timers and the bridge control, is not among them.
-/

namespace BayTrail.Pci

/-! ## Structures -/

/-- What is used of `PCI_BAR`. -/
structure ProbedBar where
  type : BarType := .unused
  discoveredType : BarType := .unused
  length : BitVec 64 := 0
  gran : BitVec 64 := 0
  offset : Nat := 0
  deriving DecidableEq

/-- `PCI_INCOMPATIBILITY_TYPE`. -/
inductive IncompatibilityType where
  | none | barBad | barFixedSize | notBar | bad64BitBar
  deriving DecidableEq

/-- `BarType` of `PCI_BAD_BAR`: `tBarIo`, `tBarMem` or `tBarMaxType`. -/
inductive BadBarType where
  | io | mem | maxType
  deriving DecidableEq

/-- `PCI_BAD_BAR`. -/
structure BadBar where
  incompType : IncompatibilityType
  vendorId : BitVec 16
  deviceId : BitVec 16
  devIdMask : BitVec 16
  barType : BadBarType
  barOffset : Nat
  barLength : BitVec 64

/-- What the function knows of the device: its identification, whether it is on the list of bad
ones, the setup for selective decoding above 4 GB, and the latency timers, one of them for PCI-X.
`prepare` is what `DoPrepController`, `GetPciCapPtrs`, `ResetDevicePm`, `PcieProbeDevice` and the routines
that override the setup do to the registers. -/
structure QueryEnv where
  type : DeviceType
  vendorId : BitVec 16
  deviceId : BitVec 16
  badPciDevList : List BadBar
  incompatible : Bool
  mem64Decode : Bool
  decode4gDisable : Bool
  pciLatency : BitVec 8
  pciXLatency : Option (BitVec 8)
  prepare : Config → Config

/-! ## Devices that are not compatible -/

/-- `CheckPciCompatibility`, for a bar; `none` is `tBarUnused`. -/
def checkPciCompatibility (env : QueryEnv) (bar : ProbedBar) (barType : Option BadBarType) : Option BadBar :=
  env.badPciDevList.find? fun bbp =>
    (bbp.barOffset = 0 || bar.offset = bbp.barOffset)
    && env.vendorId = bbp.vendorId && env.deviceId &&& bbp.devIdMask = bbp.deviceId &&& bbp.devIdMask
    && (barType = none || barType = some bbp.barType)

/-- The first bit from `s` on that is set, 64 if there is none. -/
def firstBitFrom (g : BitVec 64) (s : Nat) : Nat :=
  ((List.range' s (64 - s)).find? g.getLsbD).getD 64

def adjustBarGra (env : QueryEnv) (bar : ProbedBar) : ProbedBar :=
  let bits : Option BadBarType × Nat :=
    match bar.type with
    | .io16 | .io32 => (some .io, 2)
    | .mmio32 | .mmio32pf | .mmio64 | .mmio64pf => (some .mem, 4)
    | _ => (none, 0)
  match (checkPciCompatibility env bar bits.1).or (checkPciCompatibility env bar (some .maxType)) with
  | none => bar
  | some bbp =>
    if bbp.barType = .maxType ∧ bar.offset ≠ bbp.barOffset then bar
    else
      match bbp.incompType with
      | .barBad =>
        let t := BitVec.ofNat 64 (2 ^ firstBitFrom (~~~bar.gran) bits.2 - 1)
        { bar with gran := if bar.type ≠ .mmio64pf ∧ bar.type ≠ .mmio64 then t &&& 0xFFFFFFFF else t }
      | .barFixedSize => { bar with length := bbp.barLength, gran := bbp.barLength - 1 }
      | .notBar => { bar with type := .unused, length := 0, gran := 0 }
      | .bad64BitBar =>
        { bar with type := if bar.type = .mmio64pf then .mmio32pf
            else if bar.type = .mmio64 then .mmio32 else bar.type }
      | .none => bar

/-! ## QueryPciDevice -/

/-- The type of a bar by its register, and its discovered type. -/
def barTypes (b32 : BitVec 32) : Option (BarType × BarType) :=
  if b32 &&& 1 ≠ 0 then some (.io, .unused)
  else if b32 &&& 0x0F = 0x0 then some (.mmio32, .mmio32)
  else if b32 &&& 0x0F = 0x4 then some (.mmio64, .mmio64)
  else if b32 &&& 0x0F = 0x8 then some (.mmio32pf, .mmio32pf)
  else if b32 &&& 0x0F = 0xC then some (.mmio64pf, .mmio64pf)
  else none

def is64 (type : BarType) : Bool := type = .mmio64 || type = .mmio64pf

def isMmio (type : BarType) : Bool := is64 type || type = .mmio32 || type = .mmio32pf

/-- `Type-=2`. -/
def to32 : BarType → BarType
  | .mmio64 => .mmio32
  | .mmio64pf => .mmio32pf
  | type => type

/-- The adjustment for devices on the list. -/
def adjusted (env : QueryEnv) (bar : ProbedBar) : ProbedBar :=
  if env.incompatible then adjustBarGra env bar else bar

/-- What was read back of a bar with 64 bits, after the workaround for registers whose upper half
is not what it should be. -/
def repaired (buff : BitVec 64) : BitVec 64 :=
  if 0xFFFFFFFF < buff ∧ buff &&& 0x00000000FFFFFFFF ≠ 0xFFFFFFFF ∧ buff &&& 0xFFFFFFFF00000000 ≠ 0 then
    buff ||| 0xFFFFFFFF00000000
  else buff

/-- A bar with 64 bits from what was read back, without the don't care bits. -/
def size64 (env : QueryEnv) (buff : BitVec 64) (bar : ProbedBar) : ProbedBar :=
  if buff = 0 then { bar with type := .unused }
  else
    let buff := repaired buff
    -- a bar that has no upper half is one of 32 bits
    let (buff, type) := if buff ≤ 0xFFFFFFFF then (buff ||| 0xFFFFFFFF00000000, to32 bar.type) else (buff, bar.type)
    let bar := adjusted env { bar with type := type, gran := ~~~buff }
    { bar with length := bar.gran + 1 }

/-- A bar for I/O takes 16 bytes at least. -/
def atLeast16 (bar : ProbedBar) : ProbedBar :=
  if (bar.type = .io32 ∨ bar.type = .io16) ∧ bar.length < 0x10 then { bar with length := 0x10, gran := 0x0F }
  else bar

/-- The bits of the address, and the type of a bar for I/O. -/
def address32 (b32 : BitVec 32) (bar : ProbedBar) : BitVec 32 × ProbedBar :=
  if bar.type = .io then
    let b32 := b32 &&& ~~~0x03
    if b32 = 0 then (b32, bar)
    else if b32 &&& 0xFFFF0000 ≠ 0 then (b32, { bar with type := .io32, discoveredType := .io32 })
    else (b32 ||| 0xFFFF0000, { bar with type := .io16, discoveredType := .io16 })
  else (b32 &&& ~~~0x0F, bar)

def size32 (env : QueryEnv) (b32 : BitVec 32) (bar : ProbedBar) : ProbedBar :=
  let (b32, bar) := address32 b32 bar
  if b32 = 0 then { bar with type := .unused }
  else
    let bar := adjusted env { bar with gran := (~~~b32).setWidth 64 }
    atLeast16 { bar with length := bar.gran + 1 }

/-- Memory takes 4 kB at least, and a bar may be kept below 4 GB. -/
def finishBar (env : QueryEnv) (bar : ProbedBar) : ProbedBar :=
  let bar := if isMmio bar.type ∧ bar.length < 0x1000 then { bar with length := 0x1000, gran := 0xFFF } else bar
  if env.mem64Decode && env.decode4gDisable then { bar with type := to32 bar.type } else bar

/-- One round of the loop: the bar, and the registers. The old value is written back by the width
of the type that has been found. -/
def queryBar (env : QueryEnv) (r : Nat) (types : BarType × BarType) (cfg : Config) : ProbedBar × Config :=
  let bar : ProbedBar := { type := types.1, discoveredType := types.2, offset := r }
  if is64 types.1 then
    let oldv := cfg.read64 r
    let cfg := cfg.write64 r (BitVec.allOnes 64)
    let buff := cfg.read64 r &&& ~~~0x0F
    let bar := size64 env buff bar
    let cfg := if buff = 0 then cfg
      else if bar.type = .unused ∨ is64 bar.type then cfg.write64 r oldv
      else cfg.write32 r (oldv.extractLsb' 0 32)
    (finishBar env bar, cfg)
  else
    let oldv := cfg.read32 r
    let cfg := cfg.write32 r (BitVec.allOnes 32)
    let b32 := cfg.read32 r
    (finishBar env (size32 env b32 bar), if (address32 b32 bar).1 = 0 then cfg else cfg.write32 r oldv)

/-- The loop, from a register on with so many bars to go; it never takes more rounds than that. A
bar with 64 bits is one bar less to go. -/
def queryBars (env : QueryEnv) : Nat → Nat → Nat → Config → Option (List ProbedBar × Config)
  | 0, _, _, cfg => some ([], cfg)
  | _ + 1, 0, _, cfg => some ([], cfg)
  | rounds + 1, bars + 1, r, cfg =>
    match barTypes (cfg.read32 r) with
    | none => none
    | some types =>
      let (bar, cfg) := queryBar env r types cfg
      let wide := is64 types.1
      (queryBars env rounds (if wide then bars - 1 else bars) (if wide then r + 8 else r + 4) cfg).map
        fun rest => (bar :: rest.1, rest.2)

/-- The register for the ROM by the type of the device. -/
def romRegister : DeviceType → Option Nat
  | .pciBrg => some 0x38
  | .device | .hostDev => some 0x30
  | _ => none

/-- `GetOptRomRequirements`. The bit that enables the ROM is not written. -/
def getOptRomRequirements (env : QueryEnv) (cfg : Config) : ProbedBar × Config :=
  match romRegister env.type with
  | none => ({}, cfg)
  | some r =>
    let o32 := cfg.read32 r
    let cfg := cfg.write32 r 0xFFFFFFFE
    let b32 := cfg.read32 r &&& 0xFFFFFFFE
    let rombar : ProbedBar := { offset := r }
    let rombar := if b32 ≠ 0 ∧ b32 ≠ 0xFFFFFFFE then
      { rombar with type := .mmio32, gran := (~~~b32).setWidth 64, length := (~~~b32 + 1).setWidth 64 } else rombar
    let rombar := adjusted env rombar
    (rombar, if rombar.type ≠ .unused then cfg.write32 r o32 else cfg)

/-- The number of bars by the type of the device, if it is examined. -/
def maxBar : DeviceType → Option Nat
  | .pciBrg => some 2
  | .device | .hostDev => some 6
  | .crdBrg => some 1
  | _ => none

/-- `QueryPciDevice` from the switch over the type of the device on: the bars, that of the ROM,
and the registers. -/
def queryPciBars (env : QueryEnv) (cfg : Config) : Option (List ProbedBar × ProbedBar × Config) :=
  match maxBar env.type with
  | none => some ([], {}, cfg)
  | some bars =>
    (queryBars env bars bars 0x10 cfg).map fun found =>
      let cfg := if env.type = .crdBrg then found.2.write16 0x3E (found.2.read16 0x3E &&& ~~~0x300) else found.2
      let (rombar, cfg) := getOptRomRequirements env cfg
      (found.1, rombar, cfg)

/-- The latency timer, and the one of the secondary bus of a bridge. -/
def writeLatency (env : QueryEnv) (cfg : Config) (latency : BitVec 8) : Config :=
  let cfg := cfg.write8 0x0D latency
  if env.type = .pciBrg ∨ env.type = .crdBrg then cfg.write8 0x1B latency else cfg

/-- The registers at the switch. The interrupt line is that of no interrupt. -/
def prepared (env : QueryEnv) (cfg : Config) : Config :=
  let cfg := writeLatency env (env.prepare (cfg.write8 0x3C 0xFF)) env.pciLatency
  env.pciXLatency.elim cfg (writeLatency env cfg)

def queryPciDevice (env : QueryEnv) (cfg : Config) : Option (List ProbedBar × ProbedBar × Config) :=
  queryPciBars env (prepared env cfg)

/-! ## Conforming functions -/

/-- What is behind a bar: nothing, or a power of two of bytes. -/
inductive ConformingBar where
  | absent
  | io16 (k : Nat)
  | io32 (k : Nat)
  | mem32 (pf : Bool) (k : Nat)
  | mem64 (pf : Bool) (k : Nat)
  deriving DecidableEq

/-- The bits of an address below `2 ^ k`. -/
def low (n k : Nat) : BitVec n := BitVec.ofNat n (2 ^ k - 1)

namespace ConformingBar

def size : ConformingBar → Nat
  | absent => 0
  | io16 k | io32 k | mem32 _ k | mem64 _ k => 2 ^ k

def type : ConformingBar → BarType
  | absent => .unused
  | io16 _ => .io16
  | io32 _ => .io32
  | mem32 pf _ => if pf then .mmio32pf else .mmio32
  | mem64 pf _ => if pf then .mmio64pf else .mmio64

/-- The registers of 32 bits that a bar takes. -/
def slots : ConformingBar → Nat
  | mem64 _ _ => 2
  | _ => 1

/-- The bits that read the same whatever is written: those below the size are the kind of the bar. -/
def tag (n : Nat) : ConformingBar → BitVec n
  | absent => 0
  | io16 _ | io32 _ => 1
  | mem32 pf _ => if pf then 8 else 0
  | mem64 pf _ => if pf then 0xC else 4

/-- The bits that take an address. -/
def mask (n : Nat) : ConformingBar → BitVec n
  | absent => 0
  | io16 k => ~~~low n k &&& 0xFFFF
  | io32 k | mem32 _ k | mem64 _ k => ~~~low n k

/-- A size that the width of the bar allows. -/
def Sized : ConformingBar → Prop
  | absent => True
  | io16 k => 2 ≤ k ∧ k < 16
  | io32 k => 2 ≤ k ∧ k < 32
  | mem32 _ k => 4 ≤ k ∧ k < 32
  | mem64 _ k => 4 ≤ k ∧ k < 64

/-- A bar that is implemented by low bits of the address that are read-only. -/
def Implemented (b : ConformingBar) (cfg : Config) (r : Nat) : Prop :=
  b.Sized ∧
    if b.slots = 2 then cfg.mask64 r = b.mask 64 ∧ cfg.read64 r &&& ~~~b.mask 64 = b.tag 64
    else cfg.mask32 r = b.mask 32 ∧ cfg.read32 r &&& ~~~b.mask 32 = b.tag 32

/-- So many registers from `r` on are those of the bars, one after the other. -/
def Layout (cfg : Config) : Nat → Nat → List ConformingBar → Prop
  | _, bars, [] => bars = 0
  | r, bars, b :: rest => b.slots ≤ bars ∧ b.Implemented cfg r ∧ Layout cfg (r + 4 * b.slots) (bars - b.slots) rest

end ConformingBar

/-- What is behind the register for the ROM: nothing, or `2 ^ k` bytes and a bit that enables it. -/
def RomImplemented (rom : Option Nat) (cfg : Config) (r : Nat) : Prop :=
  match rom with
  | none => cfg.mask32 r = 0 ∧ cfg.read32 r = 0
  | some k => 11 ≤ k ∧ k < 32 ∧ cfg.mask32 r = ~~~low 32 k ||| 1 ∧ cfg.read32 r &&& ~~~(~~~low 32 k ||| 1) = 0

/-- A function that is on no list of bad ones, with all its bars. -/
structure Conforming (env : QueryEnv) (cfg : Config) (bars : List ConformingBar) (rom : Option Nat) : Prop where
  compatible : env.incompatible = false
  layout : ∃ n, maxBar env.type = some n ∧ ConformingBar.Layout cfg 0x10 n bars
  rom : ∀ r, romRegister env.type = some r → RomImplemented rom cfg r

/-- A byte of a register that is probed. -/
def Probed (type : DeviceType) (a : Nat) : Prop :=
  (∃ n, maxBar type = some n ∧ 0x10 ≤ a ∧ a < 0x10 + 4 * n) ∨ ∃ r, romRegister type = some r ∧ r ≤ a ∧ a < r + 4

/-- Some registers read the same and take the same bits. -/
def Config.Same (P : Nat → Prop) (cfg cfg' : Config) : Prop :=
  ∀ a, P a → cfg'.byte a = cfg.byte a ∧ cfg'.writable a = cfg.writable a

/-! ## What is recorded -/

/-- What is allocated for a bar: 16 bytes of I/O and 4 kB of memory at least. -/
def allocated : ConformingBar → Nat
  | .absent => 0
  | .io16 k | .io32 k => max (2 ^ k) 0x10
  | .mem32 _ k | .mem64 _ k => max (2 ^ k) 0x1000

/-- The type of a bar after the selective decoding. -/
def narrowed (env : QueryEnv) (type : BarType) : BarType :=
  if env.mem64Decode && env.decode4gDisable then to32 type else type

/-- A bar of the function, by what is taken for its length. -/
def record (length : ConformingBar → Nat) (env : QueryEnv) (r : Nat) (b : ConformingBar) : ProbedBar :=
  { type := narrowed env b.type
    discoveredType := if b = .absent then .mmio32 else b.type
    length := BitVec.ofNat 64 (length b)
    gran := BitVec.ofNat 64 (length b - 1)
    offset := r }

/-- The bars of the function. -/
def records (length : ConformingBar → Nat) (env : QueryEnv) : Nat → List ConformingBar → List ProbedBar
  | _, [] => []
  | r, b :: rest => record length env r b :: records length env (r + 4 * b.slots) rest

/-- The bar of the ROM. -/
def romRecord (type : DeviceType) (rom : Option Nat) : ProbedBar :=
  match romRegister type, rom with
  | none, _ => {}
  | some r, none => { offset := r }
  | some r, some k => { type := .mmio32, length := BitVec.ofNat 64 (2 ^ k), gran := low 64 k, offset := r }

/-! ## Masks -/

section masks

variable {k : Nat}

/-- Bits that are not implemented read as those of the tag. -/
theorem and_tag {n : Nat} {old mask tag f : BitVec n} (h : old &&& ~~~mask = tag) (hf : ~~~mask &&& f = f) :
    old &&& f = tag &&& f := by
  rw [← h, BitVec.and_assoc, hf]

/-- The kind of a bar is in its low four bits. -/
theorem barTypes_low (b32 : BitVec 32) : barTypes (b32 &&& 0x0F) = barTypes b32 := by
  have h1 : b32 &&& 0x0F &&& 1 = b32 &&& 1 := by
    rw [BitVec.and_assoc]
    rfl
  have h2 : b32 &&& 0x0F &&& 0x0F = b32 &&& 0x0F := by
    rw [BitVec.and_assoc]
    rfl
  unfold barTypes
  rw [h1, h2]

theorem low32_mem : ∀ k < 32, 4 ≤ k →
    ~~~(~~~low 32 k) &&& 0x0F = 0x0F ∧ ~~~low 32 k &&& ~~~0x0F = ~~~low 32 k := by
  decide +kernel

theorem low32_io : ∀ k < 32, 2 ≤ k →
    ~~~(~~~low 32 k) &&& 1 = 1 ∧ (1 ||| ~~~low 32 k) &&& ~~~0x03 = ~~~low 32 k := by
  decide +kernel

theorem low16_io : ∀ k < 16, 2 ≤ k →
    ~~~(~~~low 32 k &&& 0xFFFF) &&& 1 = 1 ∧ (1 ||| ~~~low 32 k &&& 0xFFFF) &&& ~~~0x03 ≠ 0
    ∧ (1 ||| ~~~low 32 k &&& 0xFFFF) &&& ~~~0x03 &&& 0xFFFF0000 = 0
    ∧ (1 ||| ~~~low 32 k &&& 0xFFFF) &&& ~~~0x03 ||| 0xFFFF0000 = ~~~low 32 k := by
  decide +kernel

theorem low32_ne : ∀ k < 32, ~~~low 32 k ≠ 0 ∧ ~~~low 32 k &&& 0xFFFF0000 ≠ 0 := by
  decide +kernel

theorem low32_wide : ∀ k < 32, (~~~(~~~low 32 k)).setWidth 64 = low 64 k := by
  decide +kernel

theorem low64_succ : ∀ k < 64, low 64 k + 1 = BitVec.ofNat 64 (2 ^ k) := by
  decide +kernel

theorem low64_mem : ∀ k ≤ 32, 4 ≤ k →
    ~~~(~~~low 64 k) &&& 0x0F = 0x0F ∧ ~~~low 64 k &&& ~~~0x0F = ~~~low 64 k ∧ repaired (~~~low 64 k) = ~~~low 64 k
    ∧ ~~~low 64 k ≠ 0 ∧ ¬ ~~~low 64 k ≤ 0xFFFFFFFF := by
  decide +kernel

/-- A length that is compared with a bound. -/
theorem ofNat_lt (hk : k < 64) {b : Nat} (hb : b < 2 ^ 64) : BitVec.ofNat 64 (2 ^ k) < BitVec.ofNat 64 b ↔ 2 ^ k < b := by
  have hk' : 2 ^ k < 2 ^ 64 := Nat.pow_lt_pow_right (by omega) hk
  rw [BitVec.lt_def, BitVec.toNat_ofNat, BitVec.toNat_ofNat, Nat.mod_eq_of_lt hk', Nat.mod_eq_of_lt hb]

end masks

/-! ## One bar -/

section bar

variable {env : QueryEnv} {cfg : Config} {r k : Nat}

/-- The last step is one on the size and one on the type. -/
theorem finishBar_eq (bar : ProbedBar) :
    finishBar env bar = { (if isMmio bar.type ∧ bar.length < 0x1000 then
      { bar with length := 0x1000, gran := 0xFFF } else bar) with type := narrowed env bar.type } := by
  have htype : (if isMmio bar.type ∧ bar.length < 0x1000 then
      { bar with length := 0x1000, gran := 0xFFF } else bar).type = bar.type := by
    split <;> rfl
  unfold finishBar narrowed
  generalize (if isMmio bar.type ∧ bar.length < 0x1000 then
    { bar with length := 0x1000, gran := 0xFFF } else bar) = wide at htype ⊢
  rw [← htype]
  cases env.mem64Decode && env.decode4gDisable <;> rfl

variable {bar : ProbedBar} {pf : Bool}

theorem finishBar_mmio (hk : k < 64) (ht : isMmio bar.type = true)
    (hl : bar.length = BitVec.ofNat 64 (2 ^ k)) (hg : bar.gran = low 64 k) :
    finishBar env bar = { bar with
      type := narrowed env bar.type
      length := BitVec.ofNat 64 (max (2 ^ k) 0x1000)
      gran := BitVec.ofNat 64 (max (2 ^ k) 0x1000 - 1) } := by
  have hlt : bar.length < 0x1000 ↔ 2 ^ k < 0x1000 := by
    rw [hl]
    exact ofNat_lt hk (by decide)
  rw [finishBar_eq]
  by_cases h : 2 ^ k < 0x1000
  · rw [Nat.max_eq_right (by omega), if_pos ⟨ht, hlt.mpr h⟩]
    rfl
  · rw [Nat.max_eq_left (by omega), if_neg fun h' => h (hlt.mp h'.2), ← hl,
      show BitVec.ofNat 64 (2 ^ k - 1) = bar.gran from hg.symm]

theorem finishBar_other (ht : isMmio bar.type = false) :
    finishBar env bar = { bar with type := narrowed env bar.type } := by
  rw [finishBar_eq, if_neg fun h => by rw [ht] at h; exact Bool.noConfusion h.1]

theorem atLeast16_io (hk : k < 64) (ht : bar.type = .io32 ∨ bar.type = .io16)
    (hl : bar.length = BitVec.ofNat 64 (2 ^ k)) (hg : bar.gran = low 64 k) :
    atLeast16 bar = { bar with
      length := BitVec.ofNat 64 (max (2 ^ k) 0x10)
      gran := BitVec.ofNat 64 (max (2 ^ k) 0x10 - 1) } := by
  have hlt : bar.length < 0x10 ↔ 2 ^ k < 0x10 := by
    rw [hl]
    exact ofNat_lt hk (by decide)
  by_cases h : 2 ^ k < 0x10
  · rw [Nat.max_eq_right (by omega)]
    unfold atLeast16
    rw [if_pos ⟨ht, hlt.mpr h⟩]
    rfl
  · rw [Nat.max_eq_left (by omega)]
    unfold atLeast16
    rw [if_neg fun h' => h (hlt.mp h'.2), ← hl, show BitVec.ofNat 64 (2 ^ k - 1) = bar.gran from hg.symm]

/-- The registers after a bar of 32 bits, which is written back unless nothing is there. -/
theorem queryBar32 (types : BarType × BarType) (h : is64 types.1 = false) :
    queryBar env r types cfg =
      (finishBar env (size32 env (merge (cfg.mask32 r) (cfg.read32 r) (BitVec.allOnes 32))
        { type := types.1, discoveredType := types.2, offset := r }),
      if (address32 (merge (cfg.mask32 r) (cfg.read32 r) (BitVec.allOnes 32))
        { type := types.1, discoveredType := types.2, offset := r }).1 = 0 then cfg.write32 r (BitVec.allOnes 32)
      else cfg) := by
  unfold queryBar
  rw [if_neg (by rw [h]; exact Bool.false_ne_true)]
  simp only [Config.read32_write32, Config.write32_restore]

theorem adjusted_compatible (hc : env.incompatible = false) (bar : ProbedBar) : adjusted env bar = bar :=
  if_neg (by rw [hc]; exact Bool.false_ne_true)

theorem queryBar32_sized {types : BarType × BarType} (hc : env.incompatible = false)
    (h : is64 types.1 = false) (hk : k < 32)
    (haddr : address32 (merge (cfg.mask32 r) (cfg.read32 r) (BitVec.allOnes 32))
      { type := types.1, discoveredType := types.2, offset := r } = (~~~low 32 k, bar)) :
    queryBar env r types cfg =
      (finishBar env (atLeast16 { bar with length := BitVec.ofNat 64 (2 ^ k), gran := low 64 k }), cfg) := by
  have hne := (low32_ne k hk).1
  rw [queryBar32 types h]
  unfold size32
  simp only [haddr, if_neg hne, adjusted_compatible hc, low32_wide k hk, low64_succ k (by omega)]

theorem queryBar_absent (hmask : cfg.mask32 r = 0) (hread : cfg.read32 r = 0) :
    queryBar env r (.mmio32, .mmio32) cfg = (record allocated env r .absent, cfg) := by
  have haddr : (address32 0 { type := .mmio32, discoveredType := .mmio32, offset := r }).1 = 0 := rfl
  have hsize : size32 env 0 { type := .mmio32, discoveredType := .mmio32, offset := r } =
      { type := .unused, discoveredType := .mmio32, offset := r } := rfl
  rw [queryBar32 _ rfl, hmask, hread, merge_none, if_pos haddr, hsize, Config.write32_none hmask,
    finishBar_other (by rfl)]
  rfl

/-- A bar for I/O whose bits have been found. -/
theorem queryBar_io (hc : env.incompatible = false) (hk : k < 32) {t : BarType} (ht : t = .io32 ∨ t = .io16)
    (haddr : address32 (merge (cfg.mask32 r) (cfg.read32 r) (BitVec.allOnes 32))
      { type := .io, discoveredType := .unused, offset := r } =
        (~~~low 32 k, { type := t, discoveredType := t, offset := r })) :
    queryBar env r (.io, .unused) cfg =
      ({ type := narrowed env t
         discoveredType := t
         length := BitVec.ofNat 64 (max (2 ^ k) 0x10)
         gran := BitVec.ofNat 64 (max (2 ^ k) 0x10 - 1)
         offset := r }, cfg) := by
  have hmmio : isMmio t = false := by
    rcases ht with rfl | rfl <;> rfl
  rw [queryBar32_sized hc rfl hk haddr, atLeast16_io (by omega) ht rfl rfl, finishBar_other hmmio]

/-- What is read back of the registers of a bar. -/
theorem merge_tag {n : Nat} {mask old tag : BitVec n} (h : old &&& ~~~mask = tag) :
    merge mask old (BitVec.allOnes n) = tag ||| mask := by
  rw [merge_allOnes, h]

/-- Without the don't care bits only those of the address are left. -/
theorem tag_or {n : Nat} {mask tag f : BitVec n} (htag : tag &&& f = 0) (hand : mask &&& f = mask) :
    (tag ||| mask) &&& f = mask := by
  rw [BitVec.and_comm, BitVec.and_or_distrib_left, BitVec.and_comm, htag, BitVec.and_comm, hand]
  exact BitVec.zero_or

theorem barTypes_io (h : cfg.read32 r &&& 1 = 1) : barTypes (cfg.read32 r) = some (.io, .unused) := by
  unfold barTypes
  rw [h]
  rfl

theorem queryBar_io16 (hc : env.incompatible = false) (h : (ConformingBar.io16 k).Implemented cfg r) :
    barTypes (cfg.read32 r) = some (.io, .unused)
    ∧ queryBar env r (.io, .unused) cfg = (record allocated env r (.io16 k), cfg) := by
  obtain ⟨⟨h2, h16⟩, h⟩ := h
  have hmask : cfg.mask32 r = ~~~low 32 k &&& 0xFFFF := h.1
  have hread : cfg.read32 r &&& ~~~(~~~low 32 k &&& 0xFFFF) = 1 := h.2
  obtain ⟨hlow, hne, hhigh, hor⟩ := low16_io k h16 h2
  have haddr : address32 (merge (cfg.mask32 r) (cfg.read32 r) (BitVec.allOnes 32))
      { type := .io, discoveredType := .unused, offset := r } =
        (~~~low 32 k, { type := .io16, discoveredType := .io16, offset := r }) := by
    rw [hmask, merge_tag hread]
    show (if (1 ||| ~~~low 32 k &&& 0xFFFF) &&& ~~~0x03 = 0 then _ else _) = _
    rw [if_neg hne, if_neg fun h' => h' hhigh, hor]
  refine ⟨barTypes_io (and_tag hread hlow), ?_⟩
  rw [queryBar_io hc (by omega) (Or.inr rfl) haddr]
  rfl

theorem queryBar_io32 (hc : env.incompatible = false) (h : (ConformingBar.io32 k).Implemented cfg r) :
    barTypes (cfg.read32 r) = some (.io, .unused)
    ∧ queryBar env r (.io, .unused) cfg = (record allocated env r (.io32 k), cfg) := by
  obtain ⟨⟨h2, h32⟩, h⟩ := h
  have hmask : cfg.mask32 r = ~~~low 32 k := h.1
  have hread : cfg.read32 r &&& ~~~(~~~low 32 k) = 1 := h.2
  obtain ⟨hlow, hand⟩ := low32_io k h32 h2
  obtain ⟨hne, hhigh⟩ := low32_ne k h32
  have haddr : address32 (merge (cfg.mask32 r) (cfg.read32 r) (BitVec.allOnes 32))
      { type := .io, discoveredType := .unused, offset := r } =
        (~~~low 32 k, { type := .io32, discoveredType := .io32, offset := r }) := by
    rw [hmask, merge_tag hread]
    show (if (1 ||| ~~~low 32 k) &&& ~~~0x03 = 0 then _ else _) = _
    rw [hand, if_neg hne, if_pos hhigh]
  refine ⟨barTypes_io (and_tag hread hlow), ?_⟩
  rw [queryBar_io hc h32 (Or.inl rfl) haddr]
  rfl

theorem queryBar_mem32 (hc : env.incompatible = false)
    (h : (ConformingBar.mem32 pf k).Implemented cfg r) :
    barTypes (cfg.read32 r) = some ((ConformingBar.mem32 pf k).type, (ConformingBar.mem32 pf k).type)
    ∧ queryBar env r ((ConformingBar.mem32 pf k).type, (ConformingBar.mem32 pf k).type) cfg =
      (record allocated env r (.mem32 pf k), cfg) := by
  obtain ⟨⟨h4, h32⟩, hmask, hread⟩ := h
  obtain ⟨hlow, hand⟩ := low32_mem k h32 h4
  have hold := and_tag hread hlow
  rw [← barTypes_low, hold]
  have haddr : address32 (merge (cfg.mask32 r) (cfg.read32 r) (BitVec.allOnes 32))
      { type := (ConformingBar.mem32 pf k).type, discoveredType := (ConformingBar.mem32 pf k).type, offset := r } =
        (~~~low 32 k, { type := (ConformingBar.mem32 pf k).type
                        discoveredType := (ConformingBar.mem32 pf k).type
                        offset := r }) := by
    have htag : ∀ pf : Bool, (if pf then (8 : BitVec 32) else 0) &&& ~~~0x0F = 0 := by decide
    have hback : ((ConformingBar.mem32 pf k).tag 32 ||| ~~~low 32 k) &&& ~~~0x0F = ~~~low 32 k :=
      tag_or (htag pf) hand
    rw [hmask, merge_tag hread]
    unfold address32
    rw [if_neg (by cases pf <;> exact BarType.noConfusion)]
    exact congrArg (fun b32 => (b32, _)) hback
  have htypes : ∀ pf : Bool, barTypes ((if pf then 8 else 0) &&& 0x0F) =
      some (if pf then .mmio32pf else .mmio32, if pf then .mmio32pf else .mmio32) := by decide
  refine ⟨htypes pf, ?_⟩
  have hio (bar : ProbedBar) (ht : bar.type = (ConformingBar.mem32 pf k).type) : atLeast16 bar = bar := by
    unfold atLeast16
    exact if_neg fun h' => by rw [ht] at h'; cases pf <;> simp [ConformingBar.type] at h'
  rw [queryBar32_sized hc (by cases pf <;> rfl) h32 haddr, hio _ rfl,
    finishBar_mmio (show k < 64 by omega) (by cases pf <;> rfl) rfl rfl]
  cases pf <;> rfl

/-- The lower half of a bar with 64 bits holds its kind. -/
theorem read32_low (f : BitVec 32) : cfg.read32 r &&& f = (cfg.read64 r &&& f.setWidth 64).setWidth 32 := by
  rw [BitVec.setWidth_and, BitVec.setWidth_setWidth_of_le _ (by omega), BitVec.setWidth_eq]
  exact congrArg (· &&& f) BitVec.setWidth_append_eq_right.symm

theorem queryBar_mem64 (hc : env.incompatible = false) (hk : k ≤ 32)
    (h : (ConformingBar.mem64 pf k).Implemented cfg r) :
    barTypes (cfg.read32 r) = some ((ConformingBar.mem64 pf k).type, (ConformingBar.mem64 pf k).type)
    ∧ queryBar env r ((ConformingBar.mem64 pf k).type, (ConformingBar.mem64 pf k).type) cfg =
      (record allocated env r (.mem64 pf k), cfg) := by
  obtain ⟨⟨h4, h64⟩, hmask, hread⟩ := h
  obtain ⟨hlow, hand, hrep, hne, hle⟩ := low64_mem k hk h4
  have hold := and_tag hread hlow
  have htypes : ∀ pf : Bool, barTypes (((if pf then (0xC : BitVec 64) else 4) &&& 0x0F).setWidth 32) =
      some (if pf then .mmio64pf else .mmio64, if pf then .mmio64pf else .mmio64) := by decide
  have htag : ∀ pf : Bool, (if pf then (0xC : BitVec 64) else 4) &&& ~~~0x0F = 0 := by decide
  have hback : ((ConformingBar.mem64 pf k).tag 64 ||| ~~~low 64 k) &&& ~~~0x0F = ~~~low 64 k :=
    tag_or (htag pf) hand
  have h64 : is64 (ConformingBar.mem64 pf k).type = true := by
    cases pf <;> rfl
  have hsize (bar : ProbedBar) : size64 env (~~~low 64 k) bar =
      { bar with length := BitVec.ofNat 64 (2 ^ k), gran := low 64 k } := by
    unfold size64
    rw [if_neg hne]
    simp only [hrep, if_neg hle, adjusted_compatible hc, BitVec.not_not, low64_succ k (by omega)]
  constructor
  · rw [← barTypes_low, read32_low, show (0x0F : BitVec 32).setWidth 64 = 0x0F from rfl, hold]
    exact htypes pf
  · unfold queryBar
    rw [if_pos h64]
    simp only [Config.read64_write64, Config.write64_restore]
    rw [hmask, merge_tag hread, show (ConformingBar.mem64 pf k).mask 64 = ~~~low 64 k from rfl, hback, hsize,
      if_neg hne, if_pos (Or.inr h64), finishBar_mmio (show k < 64 by omega) (by cases pf <;> rfl) rfl rfl]
    cases pf <;> rfl

end bar

/-! ## All bars -/

section bars

variable {env : QueryEnv} {cfg : Config}

/-- A bar is recorded as it is, and its register holds what it did. -/
theorem queryBar_implemented (hc : env.incompatible = false) {b : ConformingBar} {r : Nat} (h : b.Implemented cfg r)
    (hsize : b.size ≤ 2 ^ 32) :
    ∃ types, barTypes (cfg.read32 r) = some types ∧ is64 types.1 = decide (b.slots = 2)
      ∧ queryBar env r types cfg = (record allocated env r b, cfg) := by
  cases b with
  | absent =>
    have hread : cfg.read32 r = 0 := by
      have hread := h.2.2
      rwa [show ~~~(ConformingBar.absent.mask 32) = BitVec.allOnes 32 from rfl, BitVec.and_allOnes] at hread
    exact ⟨(.mmio32, .mmio32), by rw [hread]; rfl, rfl, queryBar_absent h.2.1 hread⟩
  | io16 k =>
    obtain ⟨htypes, hbar⟩ := queryBar_io16 hc h
    exact ⟨(.io, .unused), htypes, rfl, hbar⟩
  | io32 k =>
    obtain ⟨htypes, hbar⟩ := queryBar_io32 hc h
    exact ⟨(.io, .unused), htypes, rfl, hbar⟩
  | mem32 pf k =>
    obtain ⟨htypes, hbar⟩ := queryBar_mem32 hc h
    exact ⟨_, htypes, by cases pf <;> rfl, hbar⟩
  | mem64 pf k =>
    have hk : k ≤ 32 := (Nat.pow_le_pow_iff_right (by decide)).mp hsize
    obtain ⟨htypes, hbar⟩ := queryBar_mem64 hc hk h
    exact ⟨_, htypes, by cases pf <;> rfl, hbar⟩

/-- The loop goes from one bar to the next, and the upper half of one with 64 bits is not a bar. -/
theorem queryBars_layout (hc : env.incompatible = false) (bars : List ConformingBar) :
    ∀ {rounds n r : Nat}, ConformingBar.Layout cfg r n bars → n ≤ rounds → (∀ b ∈ bars, b.size ≤ 2 ^ 32) →
      queryBars env rounds n r cfg = some (records allocated env r bars, cfg) := by
  induction bars with
  | nil =>
    intro rounds n r h _ _
    rw [show n = 0 from h]
    cases rounds <;> rfl
  | cons b rest ih =>
    intro rounds n r h hn hsize
    obtain ⟨hslots, himpl, hrest⟩ := h
    have hpos : b.slots = 1 ∨ b.slots = 2 := by
      cases b <;> simp [ConformingBar.slots]
    obtain ⟨rounds, rfl⟩ : ∃ m, rounds = m + 1 := ⟨rounds - 1, by omega⟩
    obtain ⟨n, rfl⟩ : ∃ m, n = m + 1 := ⟨n - 1, by omega⟩
    obtain ⟨types, htypes, hwide, hbar⟩ := queryBar_implemented hc himpl (hsize b List.mem_cons_self)
    have hle : n + 1 - b.slots ≤ rounds := by omega
    have ih := ih hrest hle fun b' hb' => hsize b' (List.mem_cons_of_mem b hb')
    have hnext : (if is64 types.1 then n - 1 else n) = n + 1 - b.slots
        ∧ (if is64 types.1 then r + 8 else r + 4) = r + 4 * b.slots := by
      rw [hwide]
      rcases hpos with h | h <;> rw [h] <;> exact ⟨rfl, rfl⟩
    unfold queryBars
    rw [htypes]
    show (queryBars env rounds (if is64 types.1 then n - 1 else n) (if is64 types.1 then r + 8 else r + 4)
      (queryBar env r types cfg).2).map (fun rest => ((queryBar env r types cfg).1 :: rest.1, rest.2)) = _
    rw [hbar, hnext.1, hnext.2, ih]
    rfl

/-- The register for the ROM holds what it did. -/
theorem getOptRomRequirements_implemented (hc : env.incompatible = false) {rom : Option Nat}
    (h : ∀ r, romRegister env.type = some r → RomImplemented rom cfg r) :
    getOptRomRequirements env cfg = (romRecord env.type rom, cfg) := by
  unfold getOptRomRequirements romRecord
  cases hr : romRegister env.type with
  | none => rfl
  | some r =>
    have h := h r hr
    simp only [adjusted_compatible hc, Config.read32_write32]
    cases rom with
    | none =>
      obtain ⟨hmask, hread⟩ := h
      rw [hmask, hread, merge_none, Config.write32_none hmask]
      rfl
    | some k =>
      obtain ⟨h11, h32, hmask, hread⟩ := h
      have hbits : ∀ k < 32, 11 ≤ k → (0 ||| 0xFFFFFFFE &&& (~~~low 32 k ||| 1)) &&& 0xFFFFFFFE = ~~~low 32 k
          ∧ ~~~low 32 k ≠ 0xFFFFFFFE ∧ (low 32 k + 1).setWidth 64 = BitVec.ofNat 64 (2 ^ k) := by
        decide +kernel
      obtain ⟨hback, hone, hlen⟩ := hbits k h32 h11
      have hmerge : merge (cfg.mask32 r) (cfg.read32 r) 0xFFFFFFFE &&& 0xFFFFFFFE = ~~~low 32 k := by
        unfold merge
        rw [hmask, hread]
        exact hback
      rw [hmerge, if_pos ⟨(low32_ne k h32).1, hone⟩, low32_wide k h32, BitVec.not_not, hlen]
      exact congrArg (Prod.mk _) (Config.write32_restore _)

end bars

/-! ## Registers that are left alone -/

section same

variable {env : QueryEnv} {cfg cfg' cfg'' : Config} {P : Nat → Prop} {r n : Nat} {bars : List ConformingBar} {rom : Option Nat}

theorem Config.Same.trans (h : cfg.Same P cfg') (h' : cfg'.Same P cfg'') : cfg.Same P cfg'' := fun a ha =>
  ⟨(h' a ha).1.trans (h a ha).1, (h' a ha).2.trans (h a ha).2⟩

theorem Config.same_write8 (hr : ¬ P r) (v : BitVec 8) : cfg.Same P (cfg.write8 r v) := by
  intro a ha
  refine ⟨Config.byte_write8 ?_ v, rfl⟩
  rintro rfl
  exact hr ha

theorem Config.Same.read32 (h : cfg.Same P cfg') (hr : ∀ a, r ≤ a → a < r + 4 → P a) :
    cfg'.read32 r = cfg.read32 r ∧ cfg'.mask32 r = cfg.mask32 r := by
  -- the mask is read as the register of a function that reads as its mask
  have hmask : (⟨cfg'.writable, cfg'.writable⟩ : Config).read32 r = (⟨cfg.writable, cfg.writable⟩ : Config).read32 r :=
    Config.read32_congr fun a h1 h2 => (h a (hr a h1 h2)).2
  exact ⟨Config.read32_congr fun a h1 h2 => (h a (hr a h1 h2)).1, hmask⟩

theorem Config.Same.read64 (h : cfg.Same P cfg') (hr : ∀ a, r ≤ a → a < r + 8 → P a) :
    cfg'.read64 r = cfg.read64 r ∧ cfg'.mask64 r = cfg.mask64 r := by
  obtain ⟨hlow, hlow'⟩ := h.read32 (r := r) fun a h1 h2 => hr a h1 (by omega)
  obtain ⟨hhigh, hhigh'⟩ := h.read32 (r := r + 4) fun a h1 h2 => hr a (by omega) (by omega)
  exact ⟨congrArg₂ (· ++ ·) hhigh hlow, congrArg₂ (· ++ ·) hhigh' hlow'⟩

theorem ConformingBar.Layout.congr (h : cfg.Same P cfg') (hlayout : Layout cfg r n bars)
    (hr : ∀ a, r ≤ a → a < r + 4 * n → P a) : Layout cfg' r n bars := by
  induction bars generalizing r n with
  | nil => exact hlayout
  | cons b rest ih =>
    obtain ⟨hslots, ⟨hsized, himplemented⟩, hrest⟩ := hlayout
    refine ⟨hslots, ⟨hsized, ?_⟩, ih hrest fun a h1 h2 => hr a (by omega) (by omega)⟩
    by_cases htwo : b.slots = 2
    · obtain ⟨hread, hmask⟩ := h.read64 (r := r) fun a h1 h2 => hr a h1 (by omega)
      rw [if_pos htwo] at himplemented ⊢
      rwa [hread, hmask]
    · have hone : 1 ≤ b.slots := by cases b <;> exact Nat.le_of_ble_eq_true rfl
      obtain ⟨hread, hmask⟩ := h.read32 (r := r) fun a h1 h2 => hr a h1 (by omega)
      rw [if_neg htwo] at himplemented ⊢
      rwa [hread, hmask]

theorem Conforming.congr (h : cfg.Same (Probed env.type) cfg') (hc : Conforming env cfg bars rom) :
    Conforming env cfg' bars rom := by
  obtain ⟨n, hn, hlayout⟩ := hc.layout
  refine ⟨hc.compatible, ⟨n, hn, hlayout.congr h fun a h1 h2 => Or.inl ⟨n, hn, h1, h2⟩⟩, fun r hr => ?_⟩
  obtain ⟨hread, hmask⟩ := h.read32 (r := r) fun a h1 h2 => Or.inr ⟨r, hr, h1, h2⟩
  have hrom := hc.rom r hr
  unfold RomImplemented at hrom ⊢
  rwa [hread, hmask]

/-- The interrupt line and the latency timers are not probed. -/
theorem same_prepared (hprepare : ∀ cfg : Config, cfg.Same (Probed env.type) (env.prepare cfg)) (cfg : Config) :
    cfg.Same (Probed env.type) (prepared env cfg) := by
  have hbelow : ¬ Probed env.type 0x0D ∧ ¬ Probed env.type 0x3C := by
    unfold Probed maxBar romRegister
    cases env.type <;> simp
  have hlatency : ∀ (cfg : Config) (latency : BitVec 8), cfg.Same (Probed env.type) (writeLatency env cfg latency) := by
    intro cfg latency
    unfold writeLatency
    by_cases hbridge : env.type = .pciBrg ∨ env.type = .crdBrg
    · have hsecondary : ¬ Probed env.type 0x1B := by
        unfold Probed maxBar romRegister
        rcases hbridge with h | h <;> simp [h]
      rw [if_pos hbridge]
      exact (Config.same_write8 hbelow.1 _).trans (Config.same_write8 hsecondary _)
    · rw [if_neg hbridge]
      exact Config.same_write8 hbelow.1 _
  have hline : cfg.Same (Probed env.type) (cfg.write8 0x3C 0xFF) := Config.same_write8 hbelow.2 0xFF
  have hfirst := (hline.trans (hprepare _)).trans (hlatency _ env.pciLatency)
  unfold prepared
  cases env.pciXLatency with
  | none => exact hfirst
  | some latency => exact hfirst.trans (hlatency _ latency)

end same

/-! ## QueryPciDevice -/

/-- From the switch on no register is left with another value but the bridge control of a CardBus bridge. -/
theorem queryPciBars_conforming (env : QueryEnv) (cfg : Config) (bars : List ConformingBar) (rom : Option Nat)
    (h : Conforming env cfg bars rom) (hsize : ∀ b ∈ bars, b.size ≤ 2 ^ 32) :
    ∃ cfg', queryPciBars env cfg = some (records allocated env 0x10 bars, romRecord env.type rom, cfg')
      ∧ ∀ a, env.type = .crdBrg ∧ (a = 0x3E ∨ a = 0x3F) ∨ cfg'.byte a = cfg.byte a := by
  obtain ⟨n, hn, hlayout⟩ := h.layout
  have hbars := queryBars_layout h.compatible bars hlayout (Nat.le_refl n) hsize
  unfold queryPciBars
  rw [hn]
  by_cases hcrd : env.type = .crdBrg
  · have hrom : ∀ cfg, getOptRomRequirements env cfg = (romRecord env.type rom, cfg) := by
      intro cfg
      unfold getOptRomRequirements romRecord
      rw [hcrd]
      rfl
    refine ⟨cfg.write16 0x3E (cfg.read16 0x3E &&& ~~~0x300), ?_, fun a => ?_⟩
    · simp only [hbars, Option.map_some, if_pos hcrd, hrom]
    · by_cases ha : a = 0x3E ∨ a = 0x3F
      · exact Or.inl ⟨hcrd, ha⟩
      · exact Or.inr (Config.byte_write16 (by omega) _)
  · refine ⟨cfg, ?_, fun a => Or.inr rfl⟩
    simp only [hbars, Option.map_some, if_neg hcrd, getOptRomRequirements_implemented h.compatible h.rom]

/-- All bars are found with their types, the length that is allocated for them and its granularity, and each
register that was probed holds what it held. -/
theorem queryPciDevice_conforming (env : QueryEnv) (cfg : Config) (bars : List ConformingBar) (rom : Option Nat)
    (hprepare : ∀ cfg : Config, cfg.Same (Probed env.type) (env.prepare cfg)) (h : Conforming env cfg bars rom)
    (hsize : ∀ b ∈ bars, b.size ≤ 2 ^ 32) :
    ∃ cfg', queryPciDevice env cfg = some (records allocated env 0x10 bars, romRecord env.type rom, cfg')
      ∧ ∀ a, Probed env.type a → cfg'.byte a = cfg.byte a := by
  have hsame := same_prepared hprepare cfg
  obtain ⟨cfg', hfound, hback⟩ := queryPciBars_conforming env _ bars rom (h.congr hsame) hsize
  refine ⟨cfg', hfound, fun a ha => (Or.resolve_left (hback a) ?_).trans (hsame a ha).1⟩
  -- the bridge control is not probed
  rintro ⟨hcrd, hcontrol⟩
  rw [hcrd] at ha
  simp only [Probed, maxBar, romRegister, Option.some.injEq, reduceCtorEq, false_and, exists_false, or_false] at ha
  obtain ⟨n, rfl, -, hlt⟩ := ha
  omega

/-- The registers of a function by 32 bits: what they read and the bits that are read-write. -/
def ofRegisters (register : Nat → BitVec 32 × BitVec 32) : Config where
  byte a := (register (a - a % 4)).1.extractLsb' (8 * (a % 4)) 8
  writable a := (register (a - a % 4)).2.extractLsb' (8 * (a % 4)) 8

/-- 8 MB of prefetchable memory of 64 bits, 64 bytes of I/O, 256 bytes of memory, and a ROM of 64 kB. -/
def graphicsCard : Config := ofRegisters fun r =>
  if r = 0x10 then (0xC, 0xFF800000) else if r = 0x14 then (0, 0xFFFFFFFF)
  else if r = 0x18 then (0xE001, 0xFFFFFFC0) else if r = 0x1C then (0, 0xFFFFFF00)
  else if r = 0x30 then (0, 0xFFFF0001) else (0, 0)

def plainEnv : QueryEnv := ⟨.device, 0x8086, 0x0102, [], false, false, false, 64, none, id⟩

def graphicsBars : List ConformingBar := [.mem64 true 23, .io32 6, .mem32 false 8, .absent, .absent]

theorem graphicsCard_conforming : Conforming plainEnv graphicsCard graphicsBars (some 16) where
  compatible := rfl
  layout := ⟨6, rfl, by decide, ⟨⟨by decide, by decide⟩, by decide +kernel⟩, by decide,
    ⟨⟨by decide, by decide⟩, by decide +kernel⟩, by decide, ⟨⟨by decide, by decide⟩, by decide +kernel⟩,
    by decide, ⟨trivial, by decide +kernel⟩, by decide, ⟨trivial, by decide +kernel⟩, rfl⟩
  rom := by
    intro r hr
    cases hr
    exact ⟨by decide, by decide, by decide +kernel, by decide +kernel⟩

theorem queryPciDevice_conforming_card :
    ∃ cfg', queryPciDevice plainEnv graphicsCard =
        some (records allocated plainEnv 0x10 graphicsBars, romRecord plainEnv.type (some 16), cfg')
      ∧ ∀ a, Probed plainEnv.type a → cfg'.byte a = graphicsCard.byte a :=
  queryPciDevice_conforming plainEnv graphicsCard graphicsBars (some 16) (fun _ _ _ => ⟨rfl, rfl⟩)
    graphicsCard_conforming (by decide)

/-- The 256 bytes of memory are recorded as 4 kB. -/
theorem not_queryPciDevice_exact :
    ¬ ∀ (env : QueryEnv) cfg bars rom, (∀ cfg : Config, cfg.Same (Probed env.type) (env.prepare cfg)) →
      Conforming env cfg bars rom →
      ∃ cfg', queryPciDevice env cfg = some (records ConformingBar.size env 0x10 bars, romRecord env.type rom, cfg')
        ∧ ∀ a, Probed env.type a → cfg'.byte a = cfg.byte a := by
  intro h
  obtain ⟨cfg, hfound, -⟩ := h plainEnv graphicsCard graphicsBars (some 16) (fun _ _ _ => ⟨rfl, rfl⟩) graphicsCard_conforming
  have hlengths : (queryPciDevice plainEnv graphicsCard).map (fun found => found.1.map (·.length)) =
      some [0x800000, 0x40, 0x1000, 0, 0] := by decide +kernel
  rw [hfound, Option.map_some, Option.some_inj] at hlengths
  change (records ConformingBar.size plainEnv 0x10 graphicsBars).map (·.length) = _ at hlengths
  exact absurd hlengths (by decide +kernel)

end BayTrail.Pci
