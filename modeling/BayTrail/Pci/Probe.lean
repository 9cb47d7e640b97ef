import BayTrail.Lib.Loop
import BayTrail.Pci.Config
import BayTrail.Pci.Irq
import Mathlib.Data.Nat.Bitwise

/-!
# Probing a function

`GetPciCapPtrs` and `GetDeviceCapabilities` of `PciBus.c`. The list of capabilities is followed
as it stands in the registers, with nothing that would notice a cycle, and the cache line size is
halved until it has a bit in common with what the register holds.
-/

namespace BayTrail.Pci

open BayTrail.Lib

/-! ## GetPciCapPtrs -/

def capIdPmi : BitVec 8 := 0x01
def capIdPciX : BitVec 8 := 0x07
def capIdHotPlug : BitVec 8 := 0x0C
def capIdPciExp : BitVec 8 := 0x10

/-- `PCIX_DATA`. -/
structure PciX where
  pcixOffs : BitVec 8
  devStatus : BitVec 32
  secStatus : BitVec 16

/-- What `PCI_DEV_INFO` holds of the capabilities; of the first ones only the offset is filled. -/
structure CapData where
  pmiCapOffs : BitVec 8 := 0
  pciExpress : Option (BitVec 8) := none
  hotPlug : Option (BitVec 8) := none
  pciX : Option PciX := none

/-- The data for PCI-X, with the offset that is left in it. -/
def initPciX (cfg : Config) (offs : BitVec 8) : PciX where
  pcixOffs := offs + 2
  devStatus := cfg.read32 (offs + 4).toNat
  secStatus := cfg.read16 (offs + 2).toNat

/-- One round of the loop: whether it is a success, and the data. -/
def capability (cfg : Config) (allocates : Bool) (ptr : BitVec 8) (data : CapData) : Bool × CapData :=
  let id := cfg.read8 ptr.toNat
  if id = capIdPmi then (true, { data with pmiCapOffs := ptr })
  else if id = capIdPciExp then
    (allocates, { data with pciExpress := if allocates then some ptr else none })
  else if id = capIdHotPlug then
    match data.hotPlug with
    | some _ => (true, data)
    | none => (allocates, { data with hotPlug := if allocates then some ptr else none })
  else if id = capIdPciX then
    (allocates, { data with pciX := if allocates then some (initPciX cfg ptr) else none })
  else (true, data)

/-- The next pointer. -/
def nextPtr (cfg : Config) (ptr : BitVec 8) : BitVec 8 := cfg.read8 (ptr.toNat + 1)

structure CapState where
  round : Nat
  ptr : BitVec 8
  data : CapData

def capBody (cfg : Config) (allocates : Nat → Bool) (s : CapState) : Next CapState (Bool × CapData) :=
  if s.ptr = 0 then .done (true, s.data)
  else
    let (ok, data) := capability cfg (allocates s.round) s.ptr s.data
    if ok then .again ⟨s.round + 1, nextPtr cfg s.ptr, data⟩ else .done (false, data)

/-- The pointer at the head of the list. -/
def capPtr (cfg : Config) (type : DeviceType) : BitVec 8 := cfg.read8 (if type = .crdBrg then 0x14 else 0x34)

def hasCapabilities (cfg : Config) : Bool := cfg.read16 0x06 &&& 0x10 ≠ 0

def getPciCapPtrs (cfg : Config) (type : DeviceType) (allocates : Nat → Bool) (fuel : Nat) :
    Option (Bool × CapData) :=
  if hasCapabilities cfg then loop (capBody cfg allocates) fuel ⟨0, capPtr cfg type, {}⟩ else some (true, {})

/-! ## GetDeviceCapabilities -/

def attrIsaMotherboardIo : BitVec 64 := 0x0001
def attrIsaIo : BitVec 64 := 0x0002
def attrVgaPaletteIo : BitVec 64 := 0x0004
def attrVgaMemory : BitVec 64 := 0x0008
def attrVgaIo : BitVec 64 := 0x0010
def attrIdePrimaryIo : BitVec 64 := 0x0020
def attrIdeSecondaryIo : BitVec 64 := 0x0040
def attrIo : BitVec 64 := 0x0100
def attrMemory : BitVec 64 := 0x0200
def attrBusMaster : BitVec 64 := 0x0400
def attrVgaPaletteIo16 : BitVec 64 := 0x20000
def attrVgaIo16 : BitVec 64 := 0x40000
def attrMemWrInvalidate : BitVec 64 := 0x8000000000000000

/-- What is used of `PCI_DEV_INFO`; `priIde` and `secIde` say whether another device has the
property in the data of the host. -/
structure CapDev where
  type : DeviceType
  capab : BitVec 64
  attrib : BitVec 64
  parentCapab : Option (BitVec 64)
  baseClassCode : BitVec 8
  subClassCode : BitVec 8
  progInterface : BitVec 8
  priIde : Bool
  secIde : Bool

def setCapab (set : Bool) (mask capab : BitVec 64) : BitVec 64 := if set then capab ||| mask else capab &&& ~~~mask

/-- Write a value to a register, read it back, and restore the register. -/
def tryBits (r : Nat) (bits : BitVec 16) (cfg : Config) : BitVec 16 × Config :=
  let old := cfg.read16 r
  let cfg := cfg.write16 r bits
  (cfg.read16 r, cfg.write16 r old)

/-- `while(!(tcls&z)) tcls=tcls>>1`. -/
def halveBody (z tcls : BitVec 8) : Next (BitVec 8) (BitVec 8) :=
  if tcls &&& z = 0 then .again (tcls >>> 1) else .done tcls

/-- The cache line size is tried: whether it is accepted, and what becomes of `gPciCaheLineSize`. -/
def tryCacheLine (fuel : Nat) (cacheLineSize z : BitVec 8) : Option (Bool × BitVec 8) :=
  if z ≠ 0 ∧ z &&& (cacheLineSize - 1) ≠ 0 then
    (loop (halveBody z) fuel cacheLineSize).map fun tcls =>
      (true, if tcls < cacheLineSize then tcls else cacheLineSize)
  else some (false, cacheLineSize)

def commandCapab (tstcmd : BitVec 16) (capab : BitVec 64) : BitVec 64 :=
  setCapab (tstcmd &&& 0x20 ≠ 0) attrVgaPaletteIo
    (setCapab (tstcmd &&& 0x04 ≠ 0) attrBusMaster
      (setCapab (tstcmd &&& 0x02 ≠ 0) attrMemory
        (setCapab (tstcmd &&& 0x01 ≠ 0) attrIo capab)))

def bridgeCapab (tstbc : BitVec 16) (capab : BitVec 64) : BitVec 64 :=
  setCapab (tstbc &&& 0x10 ≠ 0) (attrVgaIo16 ||| attrVgaPaletteIo16)
    (setCapab (tstbc &&& 0x08 ≠ 0) (attrVgaIo ||| attrVgaMemory ||| attrVgaPaletteIo)
      (setCapab (tstbc &&& 0x04 ≠ 0) attrIsaIo capab))
  ||| (attrIdeSecondaryIo ||| attrIdePrimaryIo)

/-- `SetIdeDevMode` with a value for the programming interface. -/
def setIdeDevMode (pib : BitVec 8) (dev : CapDev) (cfg : Config) : CapDev × Config :=
  let cfg := cfg.write8 0x09 pib
  (if cfg.read8 0x09 = pib then { dev with progInterface := pib } else dev, cfg)

/-- An IDE controller in legacy mode takes a channel, or is put into native mode. -/
def ideCapab (dev : CapDev) (cfg : Config) : CapDev × Config :=
  let pi := dev.progInterface
  let busMaster := if pi &&& 0x80 ≠ 0 then attrBusMaster else 0
  let dev := { dev with capab := dev.capab ||| (attrIdeSecondaryIo ||| attrIdePrimaryIo) ||| busMaster }
  let priTaken := pi &&& 0x01 = 0 && dev.priIde
  let secTaken := pi &&& 0x04 = 0 && dev.secIde
  let dev := if pi &&& 0x01 = 0 && !dev.priIde then
    { dev with attrib := dev.attrib ||| attrIdePrimaryIo, priIde := true } else dev
  let dev := if pi &&& 0x04 = 0 && !dev.secIde then
    { dev with attrib := dev.attrib ||| attrIdeSecondaryIo, secIde := true } else dev
  if priTaken || secTaken then
    setIdeDevMode (pi ||| (if priTaken then 0x01 else 0) ||| if secTaken then 0x04 else 0) dev cfg
  else (dev, cfg)

/-- The `switch` over the class code. -/
def classCapab (dev : CapDev) (cfg : Config) : CapDev × Config :=
  if dev.baseClassCode = 0x00 then
    ({ dev with capab := setCapab (dev.subClassCode = 0x01) (attrVgaMemory ||| attrVgaIo) dev.capab }, cfg)
  else if dev.baseClassCode = 0x03 then
    let capab := setCapab (dev.subClassCode = 0x00) (attrVgaMemory ||| attrVgaIo) dev.capab
    ({ dev with capab := setCapab (dev.subClassCode = 0x80) attrVgaPaletteIo capab }, cfg)
  else if dev.baseClassCode = 0x01 then
    if dev.subClassCode = 0x01 then ideCapab dev cfg
    else ({ dev with capab := dev.capab &&& ~~~(attrIdeSecondaryIo ||| attrIdePrimaryIo) }, cfg)
  else (dev, cfg)

/-- What is written in front of the cache line size: the values read back of the command and the
bridge control register. -/
def probeCommand (type : DeviceType) (cfg : Config) : BitVec 16 × BitVec 16 × Config :=
  let cfg := if cfg.read16 0x0C &&& 0xFF00 = 0 then cfg.write16 0x0C 0x2000 else cfg
  let (tstcmd, cfg) := tryBits 0x04 0x37 cfg
  if type = .pciBrg then
    let (tstbc, cfg) := tryBits 0x3E 0x1C (cfg.write8 0x1B 0x20)
    (tstcmd, tstbc, cfg)
  else (tstcmd, 0, cfg)

/-- `GetDeviceCapabilities`: the device, `gPciCaheLineSize` and the registers. -/
def getDeviceCapabilities (fuel : Nat) (dev : CapDev) (cacheLineSize : BitVec 8) (cfg : Config) :
    Option (CapDev × BitVec 8 × Config) :=
  let (tstcmd, tstbc, cfg) := probeCommand dev.type cfg
  let capab := commandCapab tstcmd (dev.capab ||| dev.parentCapab.getD 0) ||| attrMemWrInvalidate
  let cfg := cfg.write8 0x0C 0xFF
  (tryCacheLine fuel cacheLineSize (cfg.read8 0x0C)).map fun accepted =>
    let capab := if accepted.1 then capab else capab &&& ~~~attrMemWrInvalidate
    let cfg := cfg.write8 0x0C 0
    let (dev, cfg) := if dev.type = .pciBrg then ({ dev with capab := bridgeCapab tstbc capab }, cfg)
      else classCapab { dev with capab := capab } cfg
    ({ dev with capab := setCapab (dev.capab &&& attrIo ≠ 0) (attrIsaMotherboardIo ||| attrIsaIo) dev.capab },
      accepted.2, cfg)

/-! ## What the functions are to do -/

section

variable (cfg : Config) (type : DeviceType) (allocates : Nat → Bool)

/-- The pointers in the order in which they are followed. -/
def ptrAt (n : Nat) : BitVec 8 := (nextPtr cfg)^[n] (capPtr cfg type)

/-- The pointer is one in front of the end of the list. -/
def Reachable (x : BitVec 8) : Prop := ∃ n, ptrAt cfg type n = x ∧ ∀ j ≤ n, ptrAt cfg type j ≠ 0

/-- The offsets that are recorded in front of those for PCI-X. -/
def RecordedPlain (d : CapData) (x : BitVec 8) : Prop :=
  (d.pmiCapOffs ≠ 0 ∧ d.pmiCapOffs = x) ∨ d.pciExpress = some x ∨ d.hotPlug = some x

def Recorded (d : CapData) (x : BitVec 8) : Prop := RecordedPlain d x ∨ d.pciX.map PciX.pcixOffs = some x

/-- Both functions return, and what is recorded is on the list. -/
structure Probes (dev : CapDev) (cacheLineSize : BitVec 8) : Prop where
  capPtrs : ∃ fuel r, getPciCapPtrs cfg type allocates fuel = some r
  capabilities : ∃ fuel r, getDeviceCapabilities fuel dev cacheLineSize cfg = some r
  reachable : ∀ fuel ok d, getPciCapPtrs cfg type allocates fuel = some (ok, d) →
    ∀ x, Recorded d x → Reachable cfg type x

/-! ## When they do -/

/-- What has been recorded when a pointer is followed. -/
def dataAt : Nat → CapData
  | 0 => {}
  | n + 1 => (capability cfg (allocates n) (ptrAt cfg type n) (dataAt n)).2

/-- There is no memory for what the capability needs. -/
def Refuses (n : Nat) : Prop :=
  (capability cfg (allocates n) (ptrAt cfg type n) (dataAt cfg type allocates n)).1 = false

def StopsAt (n : Nat) : Prop := ptrAt cfg type n = 0 ∨ Refuses cfg type allocates n

def isPciX (ptr : BitVec 8) : Bool := cfg.read8 ptr.toNat = capIdPciX

/-- The last capability for PCI-X of the first ones. -/
def lastPciX (n : Nat) : Option (BitVec 8) :=
  (((List.range n).map (ptrAt cfg type)).filter (isPciX cfg)).getLast?

/-- The list ends, which it does within as many steps as there are pointers, or memory runs out
on the way. Where it stops, what is left as the offset for PCI-X is on the list as well. -/
structure ListOk : Prop where
  ends : (∃ n < 256, ptrAt cfg type n = 0) ∨ ∃ n, Refuses cfg type allocates n
  pciX : ∀ n, StopsAt cfg type allocates n → (∀ j < n, ¬ StopsAt cfg type allocates j) →
    (ptrAt cfg type n ≠ 0 ∧ isPciX cfg (ptrAt cfg type n) = true) ∨
    ∀ o, lastPciX cfg type n = some o → Reachable cfg type (o + 2)

/-- There is a cache line size, or no bit of the register is implemented or set. -/
def CacheLineOk (cacheLineSize : BitVec 8) : Prop :=
  cacheLineSize ≠ 0 ∨ cfg.byte 0x0C = 0 ∧ cfg.writable 0x0C = 0

end

section

variable {cfg : Config} {type : DeviceType} {allocates : Nat → Bool}

/-! ## Rounds of the loop -/

theorem ptrAt_succ (n : Nat) : ptrAt cfg type (n + 1) = nextPtr cfg (ptrAt cfg type n) :=
  Function.iterate_succ_apply' ..

variable {a : Bool} {ptr x : BitVec 8} {n : Nat}

/-- A round records the pointer or nothing new. -/
theorem capability_plain {d : CapData}
    (h : RecordedPlain (capability cfg a ptr d).2 x) : RecordedPlain d x ∨ ptr = x := by
  unfold capability at h
  dsimp only at h
  split at h
  · obtain ⟨-, hx⟩ | h | h := h
    · exact Or.inr hx
    · exact Or.inl (Or.inr (Or.inl h))
    · exact Or.inl (Or.inr (Or.inr h))
  split at h
  · obtain h | h | h := h
    · exact Or.inl (Or.inl h)
    · cases a with
      | true => exact Or.inr (Option.some.inj h)
      | false => exact absurd h (by simp)
    · exact Or.inl (Or.inr (Or.inr h))
  split at h
  · cases hhot : d.hotPlug with
    | some y =>
      rw [hhot] at h
      exact Or.inl h
    | none =>
      rw [hhot] at h
      obtain h | h | h := h
      · exact Or.inl (Or.inl h)
      · exact Or.inl (Or.inr (Or.inl h))
      · cases a with
        | true => exact Or.inr (Option.some.inj h)
        | false => exact absurd h (by simp)
  split at h
  · exact Or.inl h
  · exact Or.inl h

/-- The offset for PCI-X is set with a capability for it, and with no other. -/
theorem capability_pciX (a : Bool) (ptr : BitVec 8) (d : CapData) :
    (capability cfg a ptr d).2.pciX.map PciX.pcixOffs =
      if isPciX cfg ptr then (if a then some (ptr + 2) else none) else d.pciX.map PciX.pcixOffs := by
  unfold capability isPciX
  dsimp only
  by_cases hpmi : cfg.read8 ptr.toNat = capIdPmi
  · rw [if_pos hpmi, hpmi]
    rfl
  rw [if_neg hpmi]
  by_cases hexp : cfg.read8 ptr.toNat = capIdPciExp
  · rw [if_pos hexp, hexp]
    rfl
  rw [if_neg hexp]
  by_cases hhot : cfg.read8 ptr.toNat = capIdHotPlug
  · rw [if_pos hhot, hhot]
    cases d.hotPlug <;> rfl
  rw [if_neg hhot]
  by_cases hx : cfg.read8 ptr.toNat = capIdPciX
  · rw [if_pos hx, if_pos (decide_eq_true hx)]
    cases a <;> rfl
  · rw [if_neg hx, if_neg (by simpa using hx)]

/-- PCI-X needs memory. -/
theorem capability_pciX_fst (d : CapData) (h : isPciX cfg ptr = true) :
    (capability cfg a ptr d).1 = a := by
  have hx : cfg.read8 ptr.toNat = capIdPciX := by simpa [isPciX] using h
  unfold capability
  dsimp only
  rw [hx, if_neg (by decide), if_neg (by decide), if_neg (by decide), if_pos rfl]

/-- Nothing fails with memory enough. -/
theorem capability_fst (ptr : BitVec 8) (d : CapData) : (capability cfg true ptr d).1 = true := by
  unfold capability
  dsimp only
  split
  · rfl
  split
  · rfl
  split
  · cases d.hotPlug <;> rfl
  split
  · rfl
  · rfl

theorem dataAt_plain (h : RecordedPlain (dataAt cfg type allocates n) x) :
    ∃ j < n, ptrAt cfg type j = x := by
  induction n with
  | zero => exact absurd h (by simp [dataAt, RecordedPlain])
  | succ n ih =>
    obtain h | h := capability_plain h
    · obtain ⟨j, hj, hx⟩ := ih h
      exact ⟨j, Nat.lt_succ_of_lt hj, hx⟩
    · exact ⟨n, Nat.lt_succ_self n, h⟩

theorem dataAt_pciX (h : ∀ j < n, ¬ StopsAt cfg type allocates j) :
    (dataAt cfg type allocates n).pciX.map PciX.pcixOffs = (lastPciX cfg type n).map (· + 2) := by
  induction n with
  | zero => rfl
  | succ n ih =>
    have hbefore := ih fun j hj => h j (Nat.lt_succ_of_lt hj)
    show (capability cfg (allocates n) (ptrAt cfg type n) (dataAt cfg type allocates n)).2.pciX.map _ = _
    rw [capability_pciX, hbefore]
    unfold lastPciX
    rw [List.range_succ, List.map_append, List.filter_append, List.map_singleton]
    cases hx : isPciX cfg (ptrAt cfg type n) with
    | false =>
      rw [if_neg Bool.false_ne_true, List.filter_cons_of_neg (by simp [hx]), List.filter_nil, List.append_nil]
    | true =>
      have hallocates : allocates n = true := by
        have hnot : ¬ Refuses cfg type allocates n := fun hr => h n (Nat.lt_succ_self n) (Or.inr hr)
        unfold Refuses at hnot
        rw [capability_pciX_fst _ hx] at hnot
        simpa using hnot
      rw [if_pos rfl, if_pos hallocates, List.filter_cons_of_pos hx, List.filter_nil, List.getLast?_append]
      rfl

/-! ## The loop -/

/-- What is returned where the loop stops. -/
def resultAt (cfg : Config) (type : DeviceType) (allocates : Nat → Bool) (n : Nat) : Bool × CapData :=
  if ptrAt cfg type n = 0 then (true, dataAt cfg type allocates n)
  else (false, dataAt cfg type allocates (n + 1))

theorem capBody_again (h : ¬ StopsAt cfg type allocates n) :
    capBody cfg allocates ⟨n, ptrAt cfg type n, dataAt cfg type allocates n⟩ =
      .again ⟨n + 1, ptrAt cfg type (n + 1), dataAt cfg type allocates (n + 1)⟩ := by
  obtain ⟨hptr, hok⟩ := not_or.mp h
  have hok' : (capability cfg (allocates n) (ptrAt cfg type n) (dataAt cfg type allocates n)).1 = true := by
    unfold Refuses at hok
    simpa using hok
  unfold capBody
  dsimp only
  rw [if_neg hptr, hok', if_pos rfl, ptrAt_succ]
  rfl

theorem capBody_done (h : StopsAt cfg type allocates n) :
    capBody cfg allocates ⟨n, ptrAt cfg type n, dataAt cfg type allocates n⟩ =
      .done (resultAt cfg type allocates n) := by
  unfold capBody resultAt
  dsimp only
  by_cases hptr : ptrAt cfg type n = 0
  · rw [if_pos hptr, if_pos hptr]
  · have hrefuses : Refuses cfg type allocates n := h.resolve_left hptr
    unfold Refuses at hrefuses
    rw [if_neg hptr, if_neg hptr, hrefuses, if_neg Bool.false_ne_true]
    rfl

/-- The states of the loop. -/
def capStateAt (cfg : Config) (type : DeviceType) (allocates : Nat → Bool) (n : Nat) : CapState :=
  ⟨n, ptrAt cfg type n, dataAt cfg type allocates n⟩

theorem capPtrs_loop (fuel : Nat) (r : Bool × CapData) :
    loop (capBody cfg allocates) fuel ⟨0, capPtr cfg type, {}⟩ = some r ↔
      ∃ n < fuel, StopsAt cfg type allocates n ∧ (∀ j < n, ¬ StopsAt cfg type allocates j) ∧
        r = resultAt cfg type allocates n :=
  loop_orbit (capStateAt cfg type allocates) (StopsAt cfg type allocates) (resultAt cfg type allocates)
    (fun _ => capBody_again) (fun _ => capBody_done) fuel

theorem capPtrs_terminates :
    Terminates (capBody cfg allocates) ⟨0, capPtr cfg type, {}⟩ ↔ ∃ n, StopsAt cfg type allocates n :=
  terminates_orbit_iff (capStateAt cfg type allocates) (StopsAt cfg type allocates) (resultAt cfg type allocates)
    (fun _ => capBody_again) (fun _ => capBody_done)

/-- The list ends early if it ends. -/
theorem stops_iff : (∃ n, StopsAt cfg type allocates n) ↔
    (∃ n < 256, ptrAt cfg type n = 0) ∨ ∃ n, Refuses cfg type allocates n := by
  constructor
  · rintro ⟨n, hptr | hrefuses⟩
    · have hcode : Function.Injective (BitVec.toFin (w := 8)) := fun _ _ => BitVec.eq_of_toFin_eq
      exact Or.inl (exists_iterate_lt hcode ⟨n, hptr⟩)
    · exact Or.inr ⟨n, hrefuses⟩
  · rintro (⟨n, -, hptr⟩ | ⟨n, hrefuses⟩)
    · exact ⟨n, Or.inl hptr⟩
    · exact ⟨n, Or.inr hrefuses⟩

/-! ## The offsets that are recorded -/

theorem stops_of_refuses_pciX (hptr : ptrAt cfg type n ≠ 0) (h : StopsAt cfg type allocates n)
    (hx : isPciX cfg (ptrAt cfg type n) = true) :
    (dataAt cfg type allocates (n + 1)).pciX.map PciX.pcixOffs = none := by
  have hrefuses := h.resolve_left hptr
  unfold Refuses at hrefuses
  rw [capability_pciX_fst _ hx] at hrefuses
  show (capability cfg (allocates n) (ptrAt cfg type n) (dataAt cfg type allocates n)).2.pciX.map _ = _
  rw [capability_pciX, if_pos hx, hrefuses]
  rfl

/-- What is left as the offset for PCI-X. -/
theorem resultAt_pciX (hstop : StopsAt cfg type allocates n)
    (hbefore : ∀ j < n, ¬ StopsAt cfg type allocates j) :
    (resultAt cfg type allocates n).2.pciX.map PciX.pcixOffs =
      if ptrAt cfg type n ≠ 0 ∧ isPciX cfg (ptrAt cfg type n) = true then none
      else (lastPciX cfg type n).map (· + 2) := by
  unfold resultAt
  by_cases hptr : ptrAt cfg type n = 0
  · rw [if_pos hptr, if_neg (fun h => h.1 hptr)]
    exact dataAt_pciX hbefore
  rw [if_neg hptr]
  cases hx : isPciX cfg (ptrAt cfg type n) with
  | true =>
    rw [if_pos ⟨hptr, rfl⟩]
    exact stops_of_refuses_pciX hptr hstop hx
  | false =>
    rw [if_neg (fun h => absurd h.2 Bool.false_ne_true)]
    show (capability cfg (allocates n) (ptrAt cfg type n) (dataAt cfg type allocates n)).2.pciX.map _ = _
    rw [capability_pciX, hx, if_neg Bool.false_ne_true]
    exact dataAt_pciX hbefore

theorem reachable_of_lt {j : Nat} (hbefore : ∀ j < n, ¬ StopsAt cfg type allocates j) (hj : j < n) :
    Reachable cfg type (ptrAt cfg type j) :=
  ⟨j, rfl, fun k hk hzero => hbefore k (Nat.lt_of_le_of_lt hk hj) (Or.inl hzero)⟩

/-- Other capabilities are recorded where they are. -/
theorem resultAt_plain (hstop : StopsAt cfg type allocates n)
    (hbefore : ∀ j < n, ¬ StopsAt cfg type allocates j)
    (h : RecordedPlain (resultAt cfg type allocates n).2 x) : Reachable cfg type x := by
  unfold resultAt at h
  by_cases hptr : ptrAt cfg type n = 0
  · rw [if_pos hptr] at h
    obtain ⟨j, hj, rfl⟩ := dataAt_plain h
    exact reachable_of_lt hbefore hj
  · rw [if_neg hptr] at h
    obtain ⟨j, hj, rfl⟩ := dataAt_plain h
    refine ⟨j, rfl, fun k hk => ?_⟩
    obtain hk' | rfl := Nat.lt_or_eq_of_le (Nat.le_trans hk (Nat.le_of_lt_succ hj))
    · exact fun hzero => hbefore k hk' (Or.inl hzero)
    · exact hptr

/-- The list of a function is walked to an end, with all that is recorded on it. -/
theorem capPtrs_iff (hcap : hasCapabilities cfg = true) :
    ((∃ fuel r, getPciCapPtrs cfg type allocates fuel = some r) ∧
      ∀ fuel ok d, getPciCapPtrs cfg type allocates fuel = some (ok, d) → ∀ x, Recorded d x → Reachable cfg type x) ↔
    ListOk cfg type allocates := by
  unfold getPciCapPtrs
  rw [hcap]
  simp only [if_true]
  have hterminates : (∃ fuel r, loop (capBody cfg allocates) fuel ⟨0, capPtr cfg type, {}⟩ = some r) ↔ _ :=
    capPtrs_terminates.trans stops_iff
  rw [hterminates]
  constructor
  · rintro ⟨hends, hreach⟩
    refine ⟨hends, fun n hstop hbefore => ?_⟩
    by_cases hx : ptrAt cfg type n ≠ 0 ∧ isPciX cfg (ptrAt cfg type n) = true
    · exact Or.inl hx
    · refine Or.inr fun o ho => ?_
      have hpcix := resultAt_pciX hstop hbefore
      rw [if_neg hx, ho] at hpcix
      exact hreach (n + 1) _ _ ((capPtrs_loop (n + 1) _).mpr ⟨n, Nat.lt_succ_self n, hstop, hbefore, rfl⟩) _
        (Or.inr hpcix)
  · intro h
    refine ⟨h.ends, fun fuel ok d hrun x hrecorded => ?_⟩
    obtain ⟨n, -, hstop, hbefore, hresult⟩ := (capPtrs_loop fuel _).mp hrun
    have hd : d = (resultAt cfg type allocates n).2 := congrArg Prod.snd hresult
    subst hd
    obtain hplain | hpcix := hrecorded
    · exact resultAt_plain hstop hbefore hplain
    · rw [resultAt_pciX hstop hbefore] at hpcix
      obtain hx | hlast := h.pciX n hstop hbefore
      · rw [if_pos hx] at hpcix
        exact absurd hpcix (by simp)
      · split at hpcix
        · exact absurd hpcix (by simp)
        · obtain ⟨o, ho, rfl⟩ := Option.map_eq_some_iff.mp hpcix
          exact hlast o ho

/-! ## The cache line size -/

/-- A bit of the register, and a size that is not below it. -/
def CoversBit (z tcls : BitVec 8) : Prop := ∃ j, z.toNat.testBit j = true ∧ 2 ^ j ≤ tcls.toNat

theorem halveBody_step {z t t' : BitVec 8} (h : CoversBit z t) (hbody : halveBody z t = .again t') :
    CoversBit z t' ∧ t'.toNat < t.toNat := by
  unfold halveBody at hbody
  split at hbody
  · next hzero =>
    cases hbody
    obtain ⟨j, hz, hle⟩ := h
    have hhalf : (t >>> 1).toNat = t.toNat / 2 := by
      simp only [BitVec.toNat_ushiftRight, Nat.shiftRight_eq_div_pow, Nat.pow_one]
    -- otherwise the bit would be set in both
    have hge : 2 ^ (j + 1) ≤ t.toNat := by
      by_contra hlt
      have ht := Nat.testBit_of_two_pow_le_and_two_pow_add_one_gt hle (Nat.lt_of_not_le hlt)
      have hand : (t &&& z).toNat.testBit j = true := by
        rw [BitVec.toNat_and, Nat.testBit_and, ht, hz]
        rfl
      rw [hzero] at hand
      exact absurd hand (by simp)
    rw [Nat.pow_succ] at hge
    rw [hhalf]
    exact ⟨⟨j, hz, by rw [hhalf]; omega⟩, by have := Nat.two_pow_pos j; omega⟩
  · exact absurd hbody (by simp)

theorem tryCacheLine_iff (cacheLineSize z : BitVec 8) :
    (∃ fuel r, tryCacheLine fuel cacheLineSize z = some r) ↔ cacheLineSize ≠ 0 ∨ z = 0 := by
  unfold tryCacheLine
  by_cases hz : z = 0
  · exact iff_of_true ⟨0, _, if_neg fun h => h.1 hz⟩ (Or.inr hz)
  rw [or_iff_left hz]
  by_cases hsize : cacheLineSize = 0
  · subst hsize
    have hand : z ≠ 0 ∧ z &&& (0 - 1) ≠ 0 := by
      refine ⟨hz, ?_⟩
      rw [show (0 - 1 : BitVec 8) = BitVec.allOnes 8 by decide, BitVec.and_allOnes]
      exact hz
    refine iff_of_false ?_ (fun h => h rfl)
    rintro ⟨fuel, r, hrun⟩
    rw [if_pos hand] at hrun
    obtain ⟨tcls, hloop, -⟩ := Option.map_eq_some_iff.mp hrun
    -- zero is halved to zero
    have hnever : Terminates (halveBody z) 0 ↔ ∃ _ : Nat, False :=
      terminates_orbit_iff (fun _ => 0) (fun _ => False) (fun _ => 0)
        (fun _ _ => if_pos BitVec.zero_and) (fun _ h => h.elim)
    obtain ⟨_, hfalse⟩ := hnever.mp ⟨fuel, tcls, hloop⟩
    exact hfalse
  · refine iff_of_true ?_ hsize
    by_cases hand : z ≠ 0 ∧ z &&& (cacheLineSize - 1) ≠ 0
    · have hcovers : CoversBit z cacheLineSize := by
        have hne : (z &&& (cacheLineSize - 1)).toNat ≠ 0 := fun h => hand.2 (BitVec.eq_of_toNat_eq h)
        obtain ⟨j, hj⟩ := Nat.exists_testBit_of_ne_zero hne
        rw [BitVec.toNat_and, Nat.testBit_and, Bool.and_eq_true] at hj
        have hle := Nat.ge_two_pow_of_testBit hj.2
        have hpos : 0 < cacheLineSize.toNat := by
          by_contra h0
          exact hsize (BitVec.eq_of_toNat_eq (by simpa using h0))
        have hsub : (cacheLineSize - 1).toNat = cacheLineSize.toNat - 1 := by
          rw [BitVec.toNat_sub]
          have := cacheLineSize.isLt
          show (2 ^ 8 - 1 + cacheLineSize.toNat) % 2 ^ 8 = _
          omega
        exact ⟨j, hj.1, by omega⟩
      have hterminates : Terminates (halveBody z) cacheLineSize :=
        terminates_of_measure BitVec.toNat (CoversBit z) (fun _ _ => halveBody_step) hcovers
      obtain ⟨fuel, tcls, hloop⟩ := hterminates
      exact ⟨fuel, _, (if_pos hand).trans (congrArg (Option.map _) hloop)⟩
    · exact ⟨0, _, if_neg hand⟩

/-- The latency timer is written together with the cache line size. -/
theorem byte_probeCommand (type : DeviceType) (cfg : Config) :
    (probeCommand type cfg).2.2.byte 0x0C = cfg.byte 0x0C ∨
    (probeCommand type cfg).2.2.byte 0x0C = merge (cfg.writable 0x0C) (cfg.byte 0x0C) 0 := by
  have htry : ∀ (r : Nat) (bits : BitVec 16) (c : Config), 0x0C < r ∨ r + 2 ≤ 0x0C →
      (tryBits r bits c).2.byte 0x0C = c.byte 0x0C := by
    intro r bits c hr
    show ((c.write16 r bits).write16 r (c.read16 r)).byte 0x0C = _
    rw [Config.byte_write16 hr, Config.byte_write16 hr]
  have hfirst : ∀ c : Config, (probeCommand type cfg).2.2.byte 0x0C =
      (if cfg.read16 0x0C &&& 0xFF00 = 0 then cfg.write16 0x0C 0x2000 else cfg).byte 0x0C := by
    intro c
    unfold probeCommand
    dsimp only
    split
    · dsimp only
      rw [htry 0x3E _ _ (by decide), Config.byte_write8 (by decide), htry 0x04 _ _ (by decide)]
    · exact htry 0x04 _ _ (by decide)
  rw [hfirst cfg]
  split
  · refine Or.inr ?_
    unfold Config.write16
    rw [Config.byte_write8 (by decide), Config.byte_write8_self]
    rfl
  · exact Or.inl rfl

theorem writable_probeCommand (type : DeviceType) (cfg : Config) :
    (probeCommand type cfg).2.2.writable = cfg.writable := by
  unfold probeCommand tryBits
  dsimp only
  split
  · split <;> rfl
  · split <;> rfl

/-- Nothing is read back if nothing is implemented or set. -/
theorem merge_ones_eq_zero {mask old : BitVec 8} : merge mask old 0xFF = 0 ↔ old = 0 ∧ mask = 0 := by
  have hones : merge mask old 0xFF = (old &&& ~~~mask) ||| mask := by
    rw [merge, show (0xFF : BitVec 8) = BitVec.allOnes 8 by decide, BitVec.allOnes_and]
  have hor : (old &&& ~~~mask) ||| mask = 0 ↔ old &&& ~~~mask = 0 ∧ mask = 0 := BitVec.or_eq_zero_iff
  rw [hones, hor]
  refine and_congr_left fun hmask => ?_
  rw [hmask, show ~~~(0 : BitVec 8) = BitVec.allOnes 8 by decide, BitVec.and_allOnes]

theorem getDeviceCapabilities_terminates (dev : CapDev) (cacheLineSize : BitVec 8) (cfg : Config) :
    (∃ fuel r, getDeviceCapabilities fuel dev cacheLineSize cfg = some r) ↔ CacheLineOk cfg cacheLineSize := by
  have hrun : (∃ fuel r, getDeviceCapabilities fuel dev cacheLineSize cfg = some r) ↔
      ∃ fuel r, tryCacheLine fuel cacheLineSize
        (((probeCommand dev.type cfg).2.2.write8 0x0C 0xFF).read8 0x0C) = some r := by
    unfold getDeviceCapabilities
    dsimp only
    constructor
    · rintro ⟨fuel, r, h⟩
      obtain ⟨accepted, haccepted, -⟩ := Option.map_eq_some_iff.mp h
      exact ⟨fuel, accepted, haccepted⟩
    · rintro ⟨fuel, accepted, h⟩
      exact ⟨fuel, _, Option.map_eq_some_iff.mpr ⟨accepted, h, rfl⟩⟩
  rw [hrun, tryCacheLine_iff]
  unfold CacheLineOk Config.read8
  rw [Config.byte_write8_self, merge_ones_eq_zero, writable_probeCommand]
  refine or_congr Iff.rfl ?_
  obtain h | h := byte_probeCommand dev.type cfg
  · rw [h]
  · rw [h]
    constructor
    · rintro ⟨hzero, hmask⟩
      exact ⟨by rwa [hmask, merge_none] at hzero, hmask⟩
    · rintro ⟨hzero, hmask⟩
      exact ⟨by rwa [hmask, merge_none], hmask⟩

/-! ## Probing -/

/-- Both functions come to an end, and record what is on the list, if the list comes to one and
there is a cache line size. -/
theorem probes_iff (cfg : Config) (type : DeviceType) (allocates : Nat → Bool) (dev : CapDev)
    (cacheLineSize : BitVec 8) :
    Probes cfg type allocates dev cacheLineSize ↔
      (hasCapabilities cfg = true → ListOk cfg type allocates) ∧ CacheLineOk cfg cacheLineSize := by
  have hcache := getDeviceCapabilities_terminates dev cacheLineSize cfg
  cases hcap : hasCapabilities cfg with
  | true =>
    have hlist := @capPtrs_iff cfg type allocates hcap
    constructor
    · intro h
      exact ⟨fun _ => hlist.mp ⟨h.capPtrs, h.reachable⟩, hcache.mp h.capabilities⟩
    · rintro ⟨hok, hline⟩
      obtain ⟨hptrs, hreach⟩ := hlist.mpr (hok rfl)
      exact ⟨hptrs, hcache.mpr hline, hreach⟩
  | false =>
    have hrun : ∀ fuel, getPciCapPtrs cfg type allocates fuel = some (true, {}) := by
      intro fuel
      unfold getPciCapPtrs
      rw [hcap, if_neg Bool.false_ne_true]
    constructor
    · intro h
      exact ⟨fun h => absurd h Bool.false_ne_true, hcache.mp h.capabilities⟩
    · rintro ⟨-, hline⟩
      refine ⟨⟨0, _, hrun 0⟩, hcache.mpr hline, fun fuel ok d h x hx => ?_⟩
      rw [hrun fuel] at h
      cases h
      exact absurd hx (by simp [Recorded, RecordedPlain])

end

/-- A function whose registers read as zeroes, but for the bit for capabilities, the pointer to
a first one, and the header of that. -/
def oneCapability (id next : BitVec 8) : Config where
  byte a := if a = 0x06 then 0x10 else if a = 0x34 then 0x40 else if a = 0x40 then id
    else if a = 0x41 then next else 0
  writable _ := 0

def plainDev : CapDev := ⟨.device, 0, 0, none, 0x02, 0, 0, false, false⟩

/-- A capability that is followed by itself. -/
theorem not_probes : ¬ ∀ cfg type allocates dev cacheLineSize, Probes cfg type allocates dev cacheLineSize := by
  intro h
  have hprobes := h (oneCapability capIdPmi 0x40) .device (fun _ => true) plainDev 0x10
  have hptr : ∀ n, ptrAt (oneCapability capIdPmi 0x40) .device n = 0x40 := by
    intro n
    induction n with
    | zero => decide
    | succ n ih =>
      rw [ptrAt_succ, ih]
      decide
  have hok := (capPtrs_iff (by decide)).mp ⟨hprobes.capPtrs, hprobes.reachable⟩
  obtain ⟨n, -, hzero⟩ | ⟨n, hrefuses⟩ := hok.ends
  · rw [hptr n] at hzero
    exact absurd hzero (by decide)
  · unfold Refuses at hrefuses
    rw [capability_fst] at hrefuses
    exact absurd hrefuses (by decide)

end BayTrail.Pci
