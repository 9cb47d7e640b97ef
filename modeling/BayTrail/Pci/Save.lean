import BayTrail.BootScript.Resume
import BayTrail.Pci.Sizing

/-!
# The boot script of a function

`SaveDevice` and `SaveBars` of `PciBus.c`, and the entries that they leave in the S3 boot script
executed on a function whose registers have been reset. The registers are saved as they are
listed; the value of an entry is what the register holds when it is saved.
-/

namespace BayTrail.Pci

open BayTrail.Lib BayTrail.BootScript

/-! ## Saving -/

/-- What is used of `PCI_DEV_INFO`: the address, the bars that have been found and that of the ROM.
The entries of `Bar` in between are unused. -/
structure SaveDev where
  bus : BitVec 8
  device : BitVec 8
  function : BitVec 8
  type : DeviceType
  bars : List ProbedBar
  rom : ProbedBar

namespace SaveDev

variable (dev : SaveDev)

def bar0 : ProbedBar := dev.bars.headD {}

/-- The address of the function, without the register. -/
def number : Nat := dev.function.toNat + 2 ^ 8 * dev.device.toNat + 2 ^ 16 * dev.bus.toNat

/-- `PCI_CFG_ADDR` of a register. -/
def address (r : Nat) : UInt64 := UInt64.ofNat (256 * dev.number + r)

end SaveDev

/-- A register that is saved, and the width it is saved with. -/
structure SavedRegister where
  register : Nat
  width : Width

def assigned (bar : ProbedBar) : Bool := bar.type ≠ .unused && bar.length ≠ 0

/-- `SaveBars`; it is the first bar that decides on the width of all. -/
def saveBars (dev : SaveDev) : List SavedRegister :=
  let width : Width := if is64 dev.bar0.discoveredType then .uint64 else .uint32
  ((dev.bars ++ [dev.rom]).filter assigned).map (fun bar => ⟨bar.offset, width⟩)
    ++ if dev.type = .pciBrg then
      [⟨0x1C, .uint16⟩, ⟨0x30, .uint32⟩, ⟨0x20, .uint32⟩, ⟨0x24, .uint32⟩, ⟨0x28, .uint64⟩] else []

/-- What `SaveDevice` saves in front of the command register. -/
def saveHeader (dev : SaveDev) : List SavedRegister :=
  ⟨0x0C, .uint32⟩ :: (saveBars dev ++ [⟨0x3C, .uint32⟩, ⟨if dev.type = .pciBrg then 0x18 else 0x2C, .uint32⟩])

/-- `SaveDevice`. -/
def saveDevice (dev : SaveDev) : List SavedRegister := saveHeader dev ++ [⟨0x04, .uint16⟩]

/-- The entry that is saved for a register. -/
def saveRequest (dev : SaveDev) (cfg : Config) (e : SavedRegister) : Request :=
  .pciWrite e.width (dev.address e.register) 1 fun i => ⟨cfg.byte (e.register + i)⟩

/-! ## Resuming -/

def writeBytes : Bytes → Nat → Config → Config
  | [], _, c => c
  | b :: bs, r, c => writeBytes bs (r + 1) (c.write8 r b.toBitVec)

/-- What an access does to the registers of the function: `PciCfg2Write`. -/
def configAccess (dev : SaveDev) (c : Config) : BootScript.Access → Config
  | .write (.pci 0) _ address value =>
    let register := if address / 2 ^ 32 = 0 then address % 256 else address / 2 ^ 32
    if address / 256 % 2 ^ 24 = dev.number then writeBytes value register c else c
  | _ => c

/-- The registers after all accesses. -/
def resumed (dev : SaveDev) (c : Config) (h : History) : Config := h.foldl (configAccess dev) c

/-! ## What is to be restored -/

/-- The registers after a reset: those bits that are read-only are as they were. -/
structure ResetOf (reset cfg : Config) : Prop where
  writable : reset.writable = cfg.writable
  fixed : ∀ a, reset.byte a &&& ~~~cfg.writable a = cfg.byte a &&& ~~~cfg.writable a

/-- The bytes of a bar. -/
def barWidth (bar : ProbedBar) : Nat := if is64 bar.discoveredType then 8 else 4

/-- The end of the bars in the header. -/
def barsEnd : DeviceType → Nat
  | .pciBrg => 0x18
  | .crdBrg => 0x14
  | _ => 0x28

/-- The bars stand one behind the other from `r` on. -/
def LaidOut (lim : Nat) : Nat → List ProbedBar → Prop
  | _, [] => True
  | r, bar :: rest => bar.offset = r ∧ r + barWidth bar ≤ lim ∧ LaidOut lim (r + barWidth bar) rest

/-- A function as the enumeration has left it. -/
structure Enumerated (dev : SaveDev) : Prop where
  bars : LaidOut (barsEnd dev.type) 0x10 dev.bars
  rom : assigned dev.rom = true →
    romRegister dev.type = some dev.rom.offset ∧ is64 dev.rom.discoveredType = false

/-- The bytes of the windows of a bridge: a PCI bridge has two for I/O, with their upper halves, and
two for memory; a CardBus bridge has eight registers for its four windows. -/
def Window : DeviceType → Nat → Prop
  | .pciBrg, a => 0x1C ≤ a ∧ a < 0x1E ∨ 0x20 ≤ a ∧ a < 0x34
  | .crdBrg, a => 0x1C ≤ a ∧ a < 0x3C
  | _, _ => False

/-- All that decodes an address is as it was saved. -/
structure Restored (dev : SaveDev) (cfg c : Config) : Prop where
  bars : ∀ bar ∈ dev.bars ++ [dev.rom], assigned bar = true →
    ∀ a, bar.offset ≤ a → a < bar.offset + barWidth bar → c.byte a = cfg.byte a
  windows : ∀ a, Window dev.type a → c.byte a = cfg.byte a
  command : c.byte 0x04 = cfg.byte 0x04 ∧ c.byte 0x05 = cfg.byte 0x05

/-- The accesses restore the registers, the command register by the last of them. -/
structure Restores (dev : SaveDev) (cfg reset : Config) (h : History) : Prop where
  restored : Restored dev cfg (resumed dev reset h)
  late : ∀ k < h.length, (resumed dev reset (h.take k)).byte 0x04 = reset.byte 0x04
    ∧ (resumed dev reset (h.take k)).byte 0x05 = reset.byte 0x05

/-- What is not saved is as the reset leaves it: the upper halves of bars with 64 bits, where the
first bar is none of them, and the windows of a CardBus bridge. -/
structure Recoverable (dev : SaveDev) (cfg reset : Config) : Prop where
  upper : is64 dev.bar0.discoveredType = true ∨ ∀ bar ∈ dev.bars, assigned bar = true →
    is64 bar.discoveredType = true → ∀ a, bar.offset + 4 ≤ a → a < bar.offset + 8 → cfg.byte a = reset.byte a
  cardBus : dev.type = .crdBrg → ∀ a, 0x1C ≤ a ∧ a < 0x2C ∨ 0x30 ≤ a ∧ a < 0x3C → cfg.byte a = reset.byte a

/-! ## The accesses of the entries -/

section accesses

variable {dev : SaveDev} {cfg c : Config} {e : SavedRegister}

/-- The bytes that an entry writes. -/
def SavedRegister.Covers (e : SavedRegister) (a : Nat) : Prop := e.register ≤ a ∧ a < e.register + e.width.size

def saveAccess (dev : SaveDev) (cfg : Config) (e : SavedRegister) : BootScript.Access :=
  .write (.pci 0) e.width.single (dev.address e.register).toNat
    (peek (fun i => ⟨cfg.byte (e.register + i)⟩) 0 e.width.size)

theorem number_lt (dev : SaveDev) : dev.number < 2 ^ 24 := by
  have h1 := dev.function.isLt
  have h2 := dev.device.isLt
  have h3 := dev.bus.isLt
  unfold SaveDev.number
  omega

theorem address_toNat (dev : SaveDev) {r : Nat} (h : r < 256) : (dev.address r).toNat = 256 * dev.number + r := by
  have hn := number_lt dev
  unfold SaveDev.address
  rw [UInt64.toNat_ofNat', Nat.mod_eq_of_lt (by omega)]

variable {pf : Platform} {polls : Nat}

/-- The executer performs an entry of one value. -/
theorem saveRequest_supported (h : e.register + e.width.size ≤ 256) :
    (saveRequest dev cfg e).Supported pf := by
  have hpos := e.width.size_pos
  have hn := number_lt dev
  refine ⟨fun _ => rfl, ?_⟩
  unfold Request.pciFits
  rw [address_toNat dev (by omega), show (1 : UInt64).toNat = 1 from rfl]
  omega

theorem saveRequest_perform {h : History} :
    (saveRequest dev cfg e).perform pf polls h = some (h ++ [saveAccess dev cfg e]) := by
  have hbuffer : (if e.width.fill then 0 else 0 * e.width.size) = 0 := by
    split <;> simp
  have haddress : (if e.width.fifo then (dev.address e.register).toNat
      else Space.register (.pci 0) (dev.address e.register).toNat (0 * e.width.size)) = (dev.address e.register).toNat := by
    unfold Space.register
    rw [Nat.zero_mul]
    simp
  show some (h ++ [writeElement (.pci 0) e.width (dev.address e.register).toNat _ 0]) = _
  unfold writeElement
  rw [hbuffer, haddress]
  rfl

theorem saveRequests_perform (es : List SavedRegister) : ∀ h : History,
    Request.performAll pf polls (es.map (saveRequest dev cfg)) h = some (h ++ es.map (saveAccess dev cfg)) := by
  induction es with
  | nil =>
    intro h
    rw [List.map_nil, List.map_nil, List.append_nil]
    rfl
  | cons e es ih =>
    intro h
    show ((saveRequest dev cfg e).perform pf polls h).bind (Request.performAll pf polls (es.map (saveRequest dev cfg))) = _
    rw [saveRequest_perform, Option.bind_some, ih, List.append_assoc]
    rfl

/-! ## The registers -/

@[simp] theorem writable_writeBytes (bs : Bytes) : ∀ r c, (writeBytes bs r c).writable = c.writable := by
  induction bs with
  | nil => exact fun _ _ => rfl
  | cons b bs ih =>
    intro r c
    show (writeBytes bs (r + 1) (c.write8 r b.toBitVec)).writable = _
    rw [ih, Config.writable_write8]

theorem byte_writeBytes (cfg : Config) (a r n : Nat) : ∀ p c,
    (writeBytes (peek (fun i => ⟨cfg.byte (r + i)⟩) p n) (r + p) c).byte a =
      if r + p ≤ a ∧ a < r + p + n then merge (c.writable a) (c.byte a) (cfg.byte a) else c.byte a := by
  induction n with
  | zero =>
    intro p c
    rw [if_neg (by omega)]
    rfl
  | succ n ih =>
    intro p c
    show (writeBytes (peek _ (p + 1) n) (r + (p + 1)) (c.write8 (r + p) (cfg.byte (r + p)))).byte a = _
    rw [ih (p + 1), Config.writable_write8]
    by_cases ha : a = r + p
    · rw [if_neg (by omega), if_pos (by omega), ha, Config.byte_write8_self]
    · rw [Config.byte_write8 ha]
      by_cases hin : r + (p + 1) ≤ a ∧ a < r + (p + 1) + n
      · rw [if_pos hin, if_pos (by omega)]
      · rw [if_neg hin, if_neg (by omega)]

/-- The access of an entry writes the register that has been saved. -/
theorem configAccess_save (h : e.register + e.width.size ≤ 256) (c : Config) :
    configAccess dev c (saveAccess dev cfg e) =
      writeBytes (peek (fun i => ⟨cfg.byte (e.register + i)⟩) 0 e.width.size) e.register c := by
  have hpos := e.width.size_pos
  have hn := number_lt dev
  have hstep : configAccess dev c (saveAccess dev cfg e) =
      if (dev.address e.register).toNat / 256 % 2 ^ 24 = dev.number then
        writeBytes (peek (fun i => ⟨cfg.byte (e.register + i)⟩) 0 e.width.size)
          (if (dev.address e.register).toNat / 2 ^ 32 = 0 then (dev.address e.register).toNat % 256
            else (dev.address e.register).toNat / 2 ^ 32) c
      else c := rfl
  have hregister : (256 * dev.number + e.register) % 256 = e.register := by omega
  rw [hstep, address_toNat dev (by omega), if_pos (by omega), if_pos (by omega), hregister]

theorem byte_configAccess (dev : SaveDev) (h : e.register + e.width.size ≤ 256) (hc : ResetOf c cfg) (a : Nat) :
    (e.Covers a → (configAccess dev c (saveAccess dev cfg e)).byte a = cfg.byte a)
    ∧ (¬ e.Covers a → (configAccess dev c (saveAccess dev cfg e)).byte a = c.byte a) := by
  have hbyte := byte_writeBytes cfg a e.register e.width.size 0 c
  rw [Nat.add_zero] at hbyte
  rw [configAccess_save h, hbyte]
  constructor
  · intro hcov
    rw [if_pos (show e.register ≤ a ∧ a < e.register + e.width.size from hcov), hc.writable]
    exact merge_of_fixed (hc.fixed a)
  · exact fun hcov => if_neg hcov

/-- After an access the function is still one that has been reset. -/
theorem resetOf_configAccess (h : e.register + e.width.size ≤ 256) (hc : ResetOf c cfg) :
    ResetOf (configAccess dev c (saveAccess dev cfg e)) cfg where
  writable := by
    rw [configAccess_save h, writable_writeBytes, hc.writable]
  fixed a := by
    obtain ⟨hin, hout⟩ := byte_configAccess dev h hc a
    by_cases hcov : e.Covers a
    · rw [hin hcov]
    · rw [hout hcov, hc.fixed a]

/-- What is covered by an entry is restored, and nothing else is changed. -/
theorem byte_resumed (dev : SaveDev) (a : Nat) (es : List SavedRegister) : ∀ c, (∀ e ∈ es, e.register + e.width.size ≤ 256) →
    ResetOf c cfg →
    ((∃ e ∈ es, e.Covers a) → (resumed dev c (es.map (saveAccess dev cfg))).byte a = cfg.byte a)
    ∧ ((∀ e ∈ es, ¬ e.Covers a) → (resumed dev c (es.map (saveAccess dev cfg))).byte a = c.byte a) := by
  induction es with
  | nil =>
    intro c _ _
    exact ⟨fun ⟨e, he, _⟩ => absurd he List.not_mem_nil, fun _ => rfl⟩
  | cons e es ih =>
    intro c hfit hc
    have he := hfit e List.mem_cons_self
    have hes : ∀ e' ∈ es, e'.register + e'.width.size ≤ 256 := fun e' he' => hfit e' (List.mem_cons_of_mem e he')
    obtain ⟨hin, hout⟩ := byte_configAccess dev he hc a
    obtain ⟨hin', hout'⟩ := ih (configAccess dev c (saveAccess dev cfg e)) hes (resetOf_configAccess he hc)
    constructor
    · intro hcov
      by_cases hlater : ∃ e' ∈ es, e'.Covers a
      · exact hin' hlater
      · have hnone : ∀ e' ∈ es, ¬ e'.Covers a := fun e' he' h' => hlater ⟨e', he', h'⟩
        have hfirst : e.Covers a := by
          obtain ⟨e', he', h'⟩ := hcov
          cases List.mem_cons.mp he' with
          | inl heq => rwa [← heq]
          | inr hmem => exact absurd h' (hnone e' hmem)
        exact (hout' hnone).trans (hin hfirst)
    · intro hcov
      exact (hout' fun e' he' => hcov e' (List.mem_cons_of_mem e he')).trans (hout (hcov e List.mem_cons_self))

end accesses

/-! ## The bars of an enumerated function -/

section bars

variable {lim r : Nat} {bar bar' : ProbedBar} {bars : List ProbedBar}

theorem barWidth_cases (bar : ProbedBar) :
    barWidth bar = 4 ∧ is64 bar.discoveredType = false ∨ barWidth bar = 8 ∧ is64 bar.discoveredType = true := by
  unfold barWidth
  cases is64 bar.discoveredType with
  | false => exact Or.inl ⟨rfl, rfl⟩
  | true => exact Or.inr ⟨rfl, rfl⟩

theorem LaidOut.mem (h : LaidOut lim r bars) (hbar : bar ∈ bars) : r ≤ bar.offset ∧ bar.offset + barWidth bar ≤ lim := by
  induction bars generalizing r with
  | nil => exact absurd hbar List.not_mem_nil
  | cons b rest ih =>
    obtain ⟨hoffset, hlim, hrest⟩ := h
    cases List.mem_cons.mp hbar with
    | inl heq =>
      rw [heq, hoffset]
      exact ⟨Nat.le_refl r, hlim⟩
    | inr hmem =>
      obtain ⟨h1, h2⟩ := ih hrest hmem
      exact ⟨by omega, h2⟩

/-- Two bars have no byte in common. -/
theorem LaidOut.disjoint (h : LaidOut lim r bars) (hbar : bar ∈ bars) (hbar' : bar' ∈ bars) :
    bar = bar' ∨ bar.offset + barWidth bar ≤ bar'.offset ∨ bar'.offset + barWidth bar' ≤ bar.offset := by
  induction bars generalizing r with
  | nil => exact absurd hbar List.not_mem_nil
  | cons b rest ih =>
    obtain ⟨hoffset, hlim, hrest⟩ := h
    cases List.mem_cons.mp hbar with
    | inl heq =>
      cases List.mem_cons.mp hbar' with
      | inl heq' => exact Or.inl (heq.trans heq'.symm)
      | inr hmem' =>
        have hnext := (hrest.mem hmem').1
        rw [heq]
        exact Or.inr (Or.inl (by omega))
    | inr hmem =>
      cases List.mem_cons.mp hbar' with
      | inl heq' =>
        have hnext := (hrest.mem hmem).1
        rw [heq']
        exact Or.inr (Or.inr (by omega))
      | inr hmem' => exact ih hrest hmem hmem'

theorem LaidOut.length_le (h : LaidOut lim r bars) : bars = [] ∨ r + 4 * bars.length ≤ lim := by
  induction bars generalizing r with
  | nil => exact Or.inl rfl
  | cons b rest ih =>
    obtain ⟨-, hlim, hrest⟩ := h
    have hwidth := barWidth_cases b
    right
    rw [List.length_cons]
    cases ih hrest with
    | inl hnil =>
      rw [hnil, List.length_nil]
      omega
    | inr hle => omega

theorem barsEnd_le (type : DeviceType) : barsEnd type ≤ 0x28 := by
  cases type <;> decide

theorem romRegister_cases {type : DeviceType} (h : romRegister type = some r) :
    type = .pciBrg ∧ r = 0x38 ∨ type ≠ .pciBrg ∧ type ≠ .crdBrg ∧ r = 0x30 := by
  cases type <;> cases h
  · exact Or.inl ⟨rfl, rfl⟩
  · exact Or.inr ⟨DeviceType.noConfusion, DeviceType.noConfusion, rfl⟩
  · exact Or.inr ⟨DeviceType.noConfusion, DeviceType.noConfusion, rfl⟩

/-- Where a bar of the function is. -/
theorem Enumerated.place {dev : SaveDev} (h : Enumerated dev) (hbar : bar ∈ dev.bars ++ [dev.rom])
    (ha : assigned bar = true) :
    bar ∈ dev.bars ∧ 0x10 ≤ bar.offset ∧ bar.offset + barWidth bar ≤ barsEnd dev.type
    ∨ bar = dev.rom ∧ romRegister dev.type = some bar.offset ∧ is64 bar.discoveredType = false := by
  cases List.mem_append.mp hbar with
  | inl hmem =>
    obtain ⟨h1, h2⟩ := h.bars.mem hmem
    exact Or.inl ⟨hmem, h1, h2⟩
  | inr hrom =>
    have heq := List.mem_singleton.mp hrom
    rw [heq] at ha
    obtain ⟨h1, h2⟩ := h.rom ha
    rw [heq]
    exact Or.inr ⟨rfl, h1, h2⟩

/-- What is recorded of a conforming function stands as its registers do. -/
theorem records_laidOut {env : QueryEnv} {cfg : Config} (found : List ConformingBar) : ∀ {r n : Nat},
    ConformingBar.Layout cfg r n found → LaidOut (r + 4 * n) r (records allocated env r found) := by
  induction found with
  | nil => exact fun _ => trivial
  | cons b rest ih =>
    intro r n h
    obtain ⟨hslots, -, hrest⟩ := h
    have hwidth : barWidth (record allocated env r b) = 4 * b.slots := by
      cases b with
      | mem32 pf k => cases pf <;> rfl
      | mem64 pf k => cases pf <;> rfl
      | _ => rfl
    have hlim : r + 4 * b.slots + 4 * (n - b.slots) = r + 4 * n := by omega
    refine ⟨rfl, ?_, ?_⟩
    · rw [hwidth]
      omega
    · rw [hwidth, ← hlim]
      exact ih hrest

/-- A conforming function is left by `QueryPciDevice` as one that is enumerated. -/
theorem Conforming.enumerated {env : QueryEnv} {cfg : Config} {found : List ConformingBar} {rom : Option Nat}
    (h : Conforming env cfg found rom) (bus device function : BitVec 8) :
    Enumerated ⟨bus, device, function, env.type, records allocated env 0x10 found, romRecord env.type rom⟩ := by
  obtain ⟨n, hn, hlayout⟩ := h.layout
  have hend : barsEnd env.type = 0x10 + 4 * n := by
    cases ht : env.type <;> rw [ht] at hn <;> cases hn <;> rfl
  constructor
  · show LaidOut (barsEnd env.type) 0x10 (records allocated env 0x10 found)
    rw [hend]
    exact records_laidOut found hlayout
  · intro ha
    show romRegister env.type = some (romRecord env.type rom).offset ∧ is64 (romRecord env.type rom).discoveredType = false
    have ha : assigned (romRecord env.type rom) = true := ha
    unfold romRecord at ha ⊢
    cases hr : romRegister env.type with
    | none =>
      rw [hr] at ha
      exact Bool.noConfusion ha
    | some r =>
      cases rom with
      | none => exact ⟨rfl, rfl⟩
      | some k => exact ⟨rfl, rfl⟩

end bars

/-! ## What is covered -/

section covered

variable {dev : SaveDev} {a : Nat}

/-- The bytes that are saved of a bar. -/
def savedWidth (dev : SaveDev) : Nat := if is64 dev.bar0.discoveredType then 8 else 4

/-- The bytes that the script restores. -/
def Covered (dev : SaveDev) (a : Nat) : Prop :=
  (∃ bar ∈ dev.bars ++ [dev.rom], assigned bar = true ∧ bar.offset ≤ a ∧ a < bar.offset + savedWidth dev)
  ∨ (if dev.type = .pciBrg then 0x18 ≤ a ∧ a < 0x1E ∨ 0x20 ≤ a ∧ a < 0x34 else 0x2C ≤ a ∧ a < 0x30)
  ∨ 0x0C ≤ a ∧ a < 0x10 ∨ 0x3C ≤ a ∧ a < 0x40 ∨ 0x04 ≤ a ∧ a < 0x06

theorem exists_append {xs ys : List SavedRegister} {P : SavedRegister → Prop} :
    (∃ e ∈ xs ++ ys, P e) ↔ (∃ e ∈ xs, P e) ∨ ∃ e ∈ ys, P e := by
  simp only [List.mem_append, or_and_right, exists_or]

/-- The registers of a list are covered one by one. -/
theorem covers_cons {r : Nat} {w : Width} {es : List SavedRegister} :
    (∃ e ∈ ⟨r, w⟩ :: es, e.Covers a) ↔ (r ≤ a ∧ a < r + w.size) ∨ ∃ e ∈ es, e.Covers a := by
  simp only [List.mem_cons, or_and_right, exists_or, exists_eq_left]
  rfl

theorem covers_nil : ¬ ∃ e ∈ ([] : List SavedRegister), e.Covers a :=
  fun ⟨_, he, _⟩ => absurd he List.not_mem_nil

theorem covers_bars : (∃ e ∈ ((dev.bars ++ [dev.rom]).filter assigned).map (fun bar =>
      (⟨bar.offset, if is64 dev.bar0.discoveredType then .uint64 else .uint32⟩ : SavedRegister)), e.Covers a) ↔
    ∃ bar ∈ dev.bars ++ [dev.rom], assigned bar = true ∧ bar.offset ≤ a ∧ a < bar.offset + savedWidth dev := by
  have hwidth : (if is64 dev.bar0.discoveredType then Width.uint64 else Width.uint32).size = savedWidth dev := by
    unfold savedWidth
    split <;> rfl
  constructor
  · intro ⟨e, he, h1, h2⟩
    obtain ⟨bar, hbar, rfl⟩ := List.mem_map.mp he
    obtain ⟨hmem, ha⟩ := List.mem_filter.mp hbar
    rw [hwidth] at h2
    exact ⟨bar, hmem, ha, h1, h2⟩
  · intro ⟨bar, hmem, ha, h1, h2⟩
    rw [← hwidth] at h2
    exact ⟨_, List.mem_map.mpr ⟨bar, List.mem_filter.mpr ⟨hmem, ha⟩, rfl⟩, h1, h2⟩

/-- A byte is covered by an entry of the script just when it is one of these. -/
theorem covers_iff : (∃ e ∈ saveDevice dev, e.Covers a) ↔ Covered dev a := by
  unfold saveDevice saveHeader saveBars Covered
  rw [List.cons_append, covers_cons, exists_append, exists_append, exists_append, covers_bars, covers_cons, covers_cons,
    covers_cons]
  generalize (∃ bar ∈ dev.bars ++ [dev.rom],
    assigned bar = true ∧ bar.offset ≤ a ∧ a < bar.offset + savedWidth dev) = B
  have hnil := @covers_nil a
  by_cases ht : dev.type = .pciBrg
  · rw [if_pos ht, if_pos ht, if_pos ht, covers_cons, covers_cons, covers_cons, covers_cons, covers_cons]
    simp only [hnil, Width.size, or_false]
    by_cases hB : B
    · simp only [hB, true_or, or_true]
    · simp only [hB, false_or]
      omega
  · rw [if_neg ht, if_neg ht, if_neg ht]
    simp only [hnil, Width.size, or_false]
    by_cases hB : B
    · simp only [hB, true_or, or_true]
    · simp only [hB, false_or]
      omega

/-- Where the first bar has no upper half, no other bar's is covered. -/
theorem upper_not_covered (hdev : Enumerated dev) (h0 : is64 dev.bar0.discoveredType = false) {bar : ProbedBar}
    (hbar : bar ∈ dev.bars) (h64 : is64 bar.discoveredType = true) (h1 : bar.offset + 4 ≤ a) (h2 : a < bar.offset + 8) :
    ¬ Covered dev a := by
  have hwidth : barWidth bar = 8 := if_pos h64
  have hsaved : savedWidth dev = 4 := by
    unfold savedWidth
    rw [h0]
    rfl
  obtain ⟨hlow, hhigh⟩ := hdev.bars.mem hbar
  have hend := barsEnd_le dev.type
  intro hcov
  obtain ⟨bar', hbar', ha', h1', h2'⟩ | hfixed | hrest := hcov
  · have hwidth' := barWidth_cases bar'
    obtain ⟨hmem, -, -⟩ | ⟨-, hrom, -⟩ := hdev.place hbar' ha'
    · obtain heq | hdisj := hdev.bars.disjoint hbar hmem
      · rw [← heq] at h2'
        omega
      · omega
    · have hromCases := romRegister_cases hrom
      omega
  · by_cases ht : dev.type = .pciBrg
    · rw [if_pos ht] at hfixed
      rw [ht] at hhigh
      have hhigh : bar.offset + barWidth bar ≤ 0x18 := hhigh
      omega
    · rw [if_neg ht] at hfixed
      omega
  · omega

/-- A CardBus bridge has one bar, which takes a register, and of its windows one register is saved. -/
theorem cardBus_not_covered (hdev : Enumerated dev) (ht : dev.type = .crdBrg)
    (ha : 0x1C ≤ a ∧ a < 0x2C ∨ 0x30 ≤ a ∧ a < 0x3C) : ¬ Covered dev a := by
  have hend : barsEnd dev.type = 0x14 := by
    rw [ht]
    rfl
  intro hcov
  obtain ⟨bar, hbar, ha', h1, h2⟩ | hfixed | hrest := hcov
  · have hsaved : savedWidth dev ≤ 8 := by
      unfold savedWidth
      split <;> omega
    obtain ⟨hmem, h3, h4⟩ | ⟨-, hrom, -⟩ := hdev.place hbar ha'
    · have hwidth := barWidth_cases bar
      omega
    · rw [ht] at hrom
      cases hrom
  · rw [ht, if_neg DeviceType.noConfusion] at hfixed
    omega
  · omega

end covered

/-! ## The script -/

section script

variable {dev : SaveDev} {cfg reset : Config}

section

variable (hdev : Enumerated dev)
include hdev

theorem saveDevice_fits :
    ∀ e ∈ saveDevice dev, e.register + e.width.size ≤ 256 := by
  intro e he
  have hend := barsEnd_le dev.type
  have hpos := e.width.size_pos
  have hle := e.width.size_le
  have hcov : Covered dev e.register := covers_iff.mp ⟨e, he, Nat.le_refl _, by omega⟩
  have hsaved : savedWidth dev ≤ 8 := by
    unfold savedWidth
    split <;> omega
  obtain ⟨bar, hbar, ha, h1, h2⟩ | hfixed | hrest := hcov
  · obtain ⟨-, h3, h4⟩ | ⟨-, hrom, -⟩ := hdev.place hbar ha
    · have hwidth := barWidth_cases bar
      omega
    · have hromCases := romRegister_cases hrom
      omega
  · split at hfixed <;> omega
  · omega

theorem saveDevice_length : (saveDevice dev).length ≤ 20 := by
  have hbars := hdev.bars.length_le
  have hend := barsEnd_le dev.type
  have hfound : dev.bars.length ≤ 6 := by
    cases hbars with
    | inl hnil =>
      rw [hnil]
      decide
    | inr hle => omega
  have hfilter : ((dev.bars ++ [dev.rom]).filter assigned).length ≤ dev.bars.length + 1 := by
    refine (List.length_filter_le assigned _).trans ?_
    rw [List.length_append]
    exact Nat.le_refl _
  unfold saveDevice saveHeader saveBars
  simp only [List.length_append, List.length_cons, List.length_map, List.length_nil]
  split <;> simp only [List.length_cons, List.length_nil] <;> omega

/-- Nothing in front of the command register is written to it. -/
theorem saveHeader_not_covers : ∀ e ∈ saveHeader dev, 0x0C ≤ e.register := by
  intro e he
  unfold saveHeader at he
  cases List.mem_cons.mp he with
  | inl heq =>
    rw [heq]
  | inr hmem =>
    cases List.mem_append.mp hmem with
    | inl hbars =>
      cases List.mem_append.mp hbars with
      | inl hbar =>
        obtain ⟨bar, hfilter, rfl⟩ := List.mem_map.mp hbar
        obtain ⟨hmem, ha⟩ := List.mem_filter.mp hfilter
        obtain ⟨-, h3, -⟩ | ⟨-, hrom, -⟩ := hdev.place hmem ha
        · exact Nat.le_trans (by decide) h3
        · have hromCases := romRegister_cases hrom
          show 0x0C ≤ bar.offset
          omega
      | inr hwindow =>
        split at hwindow
        · simp only [List.mem_cons, List.not_mem_nil, or_false] at hwindow
          rcases hwindow with rfl | rfl | rfl | rfl | rfl <;> decide
        · exact absurd hwindow List.not_mem_nil
    | inr hlast =>
      simp only [List.mem_cons, List.not_mem_nil, or_false] at hlast
      rcases hlast with rfl | rfl
      · decide
      · show 0x0C ≤ (if dev.type = .pciBrg then 0x18 else 0x2C)
        split <;> decide

/-- A byte is restored when it is covered, or is what the reset leaves. -/
theorem restored_byte (hreset : ResetOf reset cfg) (a : Nat) :
    (resumed dev reset ((saveDevice dev).map (saveAccess dev cfg))).byte a = cfg.byte a ↔
      Covered dev a ∨ cfg.byte a = reset.byte a := by
  obtain ⟨hin, hout⟩ := byte_resumed dev a (saveDevice dev) reset (saveDevice_fits hdev) hreset
  by_cases hcov : Covered dev a
  · exact ⟨fun _ => Or.inl hcov, fun _ => hin (covers_iff.mpr hcov)⟩
  · have hnone : ∀ e ∈ saveDevice dev, ¬ e.Covers a := fun e he h => hcov (covers_iff.mp ⟨e, he, h⟩)
    rw [hout hnone]
    exact ⟨fun h => Or.inr h.symm, fun h => (h.resolve_left hcov).symm⟩

theorem restored_iff (hreset : ResetOf reset cfg) :
    Restored dev cfg (resumed dev reset ((saveDevice dev).map (saveAccess dev cfg))) ↔ Recoverable dev cfg reset := by
  have hbyte := restored_byte hdev hreset
  constructor
  · intro h
    constructor
    · cases h0 : is64 dev.bar0.discoveredType with
      | true => exact Or.inl rfl
      | false =>
        right
        intro bar hbar ha h64 a h1 h2
        have hwidth : barWidth bar = 8 := if_pos h64
        have hrest := h.bars bar (List.mem_append_left _ hbar) ha a (by omega) (by omega)
        exact ((hbyte a).mp hrest).resolve_left (upper_not_covered hdev h0 hbar h64 h1 h2)
    · intro ht a ha
      have hwindow : Window dev.type a := by
        rw [ht]
        show 0x1C ≤ a ∧ a < 0x3C
        omega
      exact ((hbyte a).mp (h.windows a hwindow)).resolve_left (cardBus_not_covered hdev ht ha)
  · intro h
    constructor
    · intro bar hbar ha a h1 h2
      rw [hbyte]
      have hwidth := barWidth_cases bar
      by_cases hlow : a < bar.offset + savedWidth dev
      · exact Or.inl (Or.inl ⟨bar, hbar, ha, h1, hlow⟩)
      · cases h0 : is64 dev.bar0.discoveredType with
        | true =>
          have hsaved : savedWidth dev = 8 := if_pos h0
          omega
        | false =>
          have hsaved : savedWidth dev = 4 := by
            unfold savedWidth
            rw [h0]
            rfl
          obtain ⟨hw, -⟩ | ⟨hw, h64⟩ := hwidth
          · omega
          · obtain ⟨hmem, -, -⟩ | ⟨-, -, h32⟩ := hdev.place hbar ha
            · have hupper := h.upper.resolve_left (by rw [h0]; exact Bool.false_ne_true)
              exact Or.inr (hupper bar hmem ha h64 a (by omega) (by omega))
            · rw [h64] at h32
              exact Bool.noConfusion h32
    · intro a ha
      rw [hbyte]
      by_cases hbrg : dev.type = .pciBrg
      · rw [hbrg] at ha
        have ha : 0x1C ≤ a ∧ a < 0x1E ∨ 0x20 ≤ a ∧ a < 0x34 := ha
        refine Or.inl (Or.inr (Or.inl ?_))
        rw [if_pos hbrg]
        omega
      · by_cases hcrd : dev.type = .crdBrg
        · rw [hcrd] at ha
          have ha : 0x1C ≤ a ∧ a < 0x3C := ha
          by_cases hsvid : 0x2C ≤ a ∧ a < 0x30
          · refine Or.inl (Or.inr (Or.inl ?_))
            rwa [if_neg hbrg]
          · exact Or.inr (h.cardBus hcrd a (by omega))
        · exfalso
          revert ha hbrg hcrd
          cases dev.type <;> simp [Window]
    · rw [hbyte, hbyte]
      exact ⟨Or.inl (Or.inr (Or.inr (by omega))), Or.inl (Or.inr (Or.inr (by omega)))⟩

/-- The command register is as the reset leaves it until the last access. -/
theorem saveDevice_late (hreset : ResetOf reset cfg) {a : Nat} (ha : a < 0x0C) {k : Nat}
    (hk : k < ((saveDevice dev).map (saveAccess dev cfg)).length) :
    (resumed dev reset (((saveDevice dev).map (saveAccess dev cfg)).take k)).byte a = reset.byte a := by
  have hfront : (saveDevice dev).take k = (saveHeader dev).take k := by
    unfold saveDevice at hk ⊢
    rw [List.length_map, List.length_append, List.length_singleton] at hk
    exact List.take_append_of_le_length (by omega)
  rw [← List.map_take]
  refine (byte_resumed dev a ((saveDevice dev).take k) reset ?_ hreset).2 ?_
  · exact fun e he => saveDevice_fits hdev e (List.mem_of_mem_take he)
  · intro e he hcov
    rw [hfront] at he
    have hlow := saveHeader_not_covers hdev e (List.mem_of_mem_take he)
    have hcov := hcov.1
    omega

/-- Executing the entries of a function writes what has been saved, one register after the other. -/
theorem saveDevice_executes {pf : Platform} {env env' : Env} {info : TableInfo} {s closed : State} (h0 : newTable env = some info)
    (hacc : Accepts ⟨info, clearInsertInfo⟩ ((saveDevice dev).map (saveRequest dev cfg)) s)
    (hclose : efiBootScriptCloseTable env' s = (.success, closed))
    (hsmbus : pf.smBusPpi = true) (hstall : pf.stallPpi = true) (polls value fuel : Nat)
    (hfuel : (saveDevice dev).length < fuel) :
    ∃ x, executeScript pf polls fuel value false closed.info.tableBottom closed.info.mem = some (.success, x)
      ∧ x.history = (saveDevice dev).map (saveAccess dev cfg) := by
  have hne : (saveDevice dev).map (saveRequest dev cfg) ≠ [] := List.cons_ne_nil _ _
  have hcount : ((saveDevice dev).map (saveRequest dev cfg)).length ≤ 2 ^ 32 := by
    have hlength := saveDevice_length hdev
    rw [List.length_map]
    omega
  have hsupported : ∀ r ∈ (saveDevice dev).map (saveRequest dev cfg), r.Supported pf := by
    intro r hr
    obtain ⟨e, he, rfl⟩ := List.mem_map.mp hr
    exact saveRequest_supported (saveDevice_fits hdev e he)
  obtain ⟨es, -, -, hrun⟩ := executeScript_run h0 hacc hclose hne hcount hsupported hsmbus hstall
  obtain ⟨x, hx, hhistory, -⟩ := (hrun polls fuel value (by rwa [List.length_map])).2 _ (saveRequests_perform _ [])
  rw [List.nil_append] at hhistory
  exact ⟨x, hx, hhistory⟩

/-- Executing the script that has been saved for a function, after a reset of it, restores what
decodes an address, the command register at last, just when what is not saved is as the reset
leaves it. -/
theorem saveDevice_restores_iff {pf : Platform} {env env' : Env} {info : TableInfo} {s closed : State} (hreset : ResetOf reset cfg) (h0 : newTable env = some info)
    (hacc : Accepts ⟨info, clearInsertInfo⟩ ((saveDevice dev).map (saveRequest dev cfg)) s)
    (hclose : efiBootScriptCloseTable env' s = (.success, closed))
    (hsmbus : pf.smBusPpi = true) (hstall : pf.stallPpi = true) (polls value fuel : Nat)
    (hfuel : (saveDevice dev).length < fuel) :
    ∃ x, executeScript pf polls fuel value false closed.info.tableBottom closed.info.mem = some (.success, x)
      ∧ (Restores dev cfg reset x.history ↔ Recoverable dev cfg reset) := by
  obtain ⟨x, hx, hhistory⟩ := saveDevice_executes hdev h0 hacc hclose hsmbus hstall polls value fuel hfuel
  refine ⟨x, hx, ?_⟩
  rw [hhistory]
  constructor
  · exact fun h => (restored_iff hdev hreset).mp h.restored
  · intro h
    exact ⟨(restored_iff hdev hreset).mpr h, fun k hk =>
      ⟨saveDevice_late hdev hreset (by decide) hk, saveDevice_late hdev hreset (by decide) hk⟩⟩

end

end script

/-! ## A device with a bar of 64 bits behind one of 32 bits -/

/-- The closed table of a list of requests, if all of them can be saved. -/
def savedTable (s : State) : List Request → Option State
  | [] => if (efiBootScriptCloseTable zeroEnv s).1 = .success then some (efiBootScriptCloseTable zeroEnv s).2 else none
  | r :: rs =>
    if (saveStateWrite zeroEnv zeroMem s r).1 = .success then savedTable (saveStateWrite zeroEnv zeroMem s r).2 rs
    else none

theorem savedTable_accepts {s0 closed : State} (rs : List Request) : ∀ {done : List Request} {s : State},
    Accepts s0 done s → savedTable s rs = some closed →
      ∃ s', Accepts s0 (done ++ rs) s' ∧ efiBootScriptCloseTable zeroEnv s' = (.success, closed) := by
  induction rs with
  | nil =>
    intro done s hacc h
    unfold savedTable at h
    by_cases hs : (efiBootScriptCloseTable zeroEnv s).1 = .success
    · rw [if_pos hs] at h
      rw [List.append_nil]
      exact ⟨s, hacc, Prod.ext hs (Option.some.inj h)⟩
    · rw [if_neg hs] at h
      cases h
  | cons r rs ih =>
    intro done s hacc h
    unfold savedTable at h
    by_cases hs : (saveStateWrite zeroEnv zeroMem s r).1 = .success
    · rw [if_pos hs] at h
      have hrest := ih (hacc.snoc (Prod.ext hs rfl)) h
      rwa [List.append_assoc] at hrest
    · rw [if_neg hs] at h
      cases h

/-- A bar of 4 kB below 4 GB, and one of 64 bits behind it. -/
def wideSecond : SaveDev where
  bus := 1
  device := 0
  function := 0
  type := .device
  bars := [{ type := .mmio32, discoveredType := .mmio32, length := 0x1000, gran := 0xFFF, offset := 0x10 },
    { type := .mmio64pf, discoveredType := .mmio64pf, length := 0x800000, gran := 0x7FFFFF, offset := 0x14 }]
  rom := { offset := 0x30 }

theorem wideSecond_enumerated : Enumerated wideSecond where
  bars := ⟨rfl, by decide, rfl, by decide, trivial⟩
  rom h := Bool.noConfusion h

/-- Its registers: a first bar at `bar` * 16 MB, and a second one at `upper` * 4 GB. -/
def wideConfig (command bar upper : BitVec 8) : Config where
  byte a := if a = 0x04 then command else if a = 0x13 then bar else if a = 0x14 then 0x0C
    else if a = 0x18 then upper else 0
  writable a := if a = 0x04 then 0x07 else if a = 0x11 then 0xF0 else if a = 0x16 then 0x80
    else if a = 0x12 ∨ a = 0x13 ∨ 0x17 ≤ a ∧ a < 0x1C then 0xFF else 0

theorem wideConfig_reset (bar upper : BitVec 8) : ResetOf (wideConfig 0 0 0) (wideConfig 7 bar upper) where
  writable := rfl
  fixed a := by
    have hbits (x : BitVec 8) : x &&& ~~~0xFF = 0 := BitVec.and_zero
    unfold wideConfig
    dsimp only
    by_cases h4 : a = 0x04
    · rw [if_pos h4, if_pos h4, if_pos h4]
      decide
    · by_cases h13 : a = 0x13
      · rw [h13]
        exact (hbits 0).trans (hbits bar).symm
      · by_cases h18 : a = 0x18
        · rw [h18]
          exact (hbits 0).trans (hbits upper).symm
        · rw [if_neg h4, if_neg h4, if_neg h13, if_neg h13, if_neg h18, if_neg h18, if_neg h4]

/-- The device with its second bar below 4 GB: both are restored. -/
theorem saveDevice_restores_iff_wide :
    ∃ (closed : State) (x : Exec), executeScript quietPlatform 0 7 0 false closed.info.tableBottom closed.info.mem = some (.success, x)
      ∧ (Restores wideSecond (wideConfig 7 0xE0 0) (wideConfig 0 0 0) x.history ↔
        Recoverable wideSecond (wideConfig 7 0xE0 0) (wideConfig 0 0 0)) := by
  have hsaved : (savedTable zeroState
      ((saveDevice wideSecond).map (saveRequest wideSecond (wideConfig 7 0xE0 0)))).isSome = true := by decide +kernel
  obtain ⟨closed, hclosed⟩ := Option.isSome_iff_exists.mp hsaved
  obtain ⟨s, hacc, hclose⟩ := savedTable_accepts _ (.nil zeroState) hclosed
  exact ⟨closed, saveDevice_restores_iff wideSecond_enumerated (wideConfig_reset 0xE0 0)
    (show newTable zeroEnv = some zeroTable from rfl) hacc hclose rfl rfl 0 0 7 (by decide)⟩

/-- With its second bar above 4 GB the upper half of that is lost. -/
theorem not_saveDevice_restores :
    ¬ ∀ (dev : SaveDev) (cfg reset : Config) (pf : Platform) (env env' : Env) (info : TableInfo) (s closed : State)
        (polls value fuel : Nat), Enumerated dev → ResetOf reset cfg → newTable env = some info →
      Accepts ⟨info, clearInsertInfo⟩ ((saveDevice dev).map (saveRequest dev cfg)) s →
      efiBootScriptCloseTable env' s = (.success, closed) → pf.smBusPpi = true → pf.stallPpi = true →
      (saveDevice dev).length < fuel →
      ∃ x, executeScript pf polls fuel value false closed.info.tableBottom closed.info.mem = some (.success, x)
        ∧ Restores dev cfg reset x.history := by
  intro h
  have hsaved : (savedTable zeroState
      ((saveDevice wideSecond).map (saveRequest wideSecond (wideConfig 7 0xE0 1)))).isSome = true := by decide +kernel
  obtain ⟨closed, hclosed⟩ := Option.isSome_iff_exists.mp hsaved
  obtain ⟨s, hacc, hclose⟩ := savedTable_accepts _ (.nil zeroState) hclosed
  obtain ⟨x, hx, hrestores⟩ := h wideSecond (wideConfig 7 0xE0 1) (wideConfig 0 0 0) quietPlatform zeroEnv zeroEnv zeroTable
    s closed 0 0 7 wideSecond_enumerated (wideConfig_reset 0xE0 1) rfl hacc hclose rfl rfl (by decide)
  have hexec := saveDevice_executes wideSecond_enumerated (show newTable zeroEnv = some zeroTable from rfl) hacc hclose
    (show quietPlatform.smBusPpi = true from rfl) (show quietPlatform.stallPpi = true from rfl) 0 0 7 (by decide)
  obtain ⟨x', hx', hhistory⟩ := hexec
  rw [hx] at hx'
  have hsame : x = x' := (Prod.mk.inj (Option.some.inj hx')).2
  have hrestored := hrestores.restored
  rw [hsame, hhistory] at hrestored
  have hrecover := (restored_iff wideSecond_enumerated (wideConfig_reset 0xE0 1)).mp hrestored
  have hupper := hrecover.upper.resolve_left (by decide) _ (List.mem_cons_of_mem _ List.mem_cons_self) (by decide) (by decide)
    0x18 (by decide) (by decide)
  exact absurd hupper (by decide)

end BayTrail.Pci
