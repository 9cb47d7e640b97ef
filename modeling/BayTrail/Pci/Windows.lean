import BayTrail.Gcd.Space
import BayTrail.Lib.Loop

/-!
# Windows of the root bridges

`ClaimMmioResources`, `ClaimIoResources` and `AjustAcpiResource` of `PciHostBridge.c`, which the loops of
`RbReadyToBoot` call for each root bridge and each kind of resource. The range of the resources that have
been assigned is extended, entry by entry of the map, down to what the bridge in front has or up to what
the next one has.
-/

namespace BayTrail.Pci

open BayTrail.Lib BayTrail.Lib.Region BayTrail.Gcd

/-! ## Structures -/

/-- `EFI_GCD_ALLOCATE_TYPE`. -/
inductive AllocateType where
  | anySearchBottomUp | maxAddressSearchBottomUp | address | anySearchTopDown | maxAddressSearchTopDown
  deriving DecidableEq

/-- `AllocType<=EfiGcdAllocateAddress`. -/
def AllocateType.upward : AllocateType → Bool
  | .anySearchBottomUp | .maxAddressSearchBottomUp | .address => true
  | .anySearchTopDown | .maxAddressSearchTopDown => false

/-- `ACPI_RES_TYPE`. -/
inductive AcpiResType where
  | bus | io | mmio32 | mmio64
  deriving DecidableEq

/-- `ACPI_RES_DATA`. -/
structure AcpiRes where
  min : Nat
  len : Nat
  max : Nat
  gra : Nat
  allocType : AllocateType

/-- `ASLR_QWORD_ASD`, a descriptor of buses or not. -/
structure QwordAsd where
  isBus : Bool
  min : Nat
  max : Nat
  len : Nat

/-- What of `PCI_ROOT_BRG_DATA` does not change. -/
structure RootBrg where
  rbHandle : Option Nat
  rbRes : List QwordAsd

/-- The host and the root bridge, `HostIndex` and `RootIndex`. -/
abbrev Root := Nat × Nat

/-- The table of the DXE services, the maps, and the root bridges of `gHostBrgPrivateData`. -/
structure Platform where
  dxe : Gcd.Status
  memory : Gcd.Map
  io : Gcd.Map
  hosts : List (List RootBrg)

/-- `AcpiRbRes` of the root bridges, `TmpTop` and `TmpBot`. -/
structure Windows where
  acpiRbRes : Root × AcpiResType → AcpiRes
  tmpTop : AcpiResType → Nat
  tmpBot : AcpiResType → Nat

/-! ## Collecting -/

/-- A resource as `AllocateResources` has placed it: `_MIN`, `_LEN`, and the mask of the alignment in `_MAX`. -/
structure Placed where
  min : Nat
  max : Nat
  len : Nat

/-- `Len`, rounded up if it is not a multiple of the granularity. -/
def roundLen (len gra : Nat) : Nat := if len &&& gra ≠ 0 then uint64 ((len ||| gra) + 1) else len

/-- What `AllocateResources` does for a resource that it has placed, for the ACPI `_CRS`. -/
def AcpiRes.collect (ar : AcpiRes) (res : Placed) : AcpiRes :=
  let min := if ar.min = 0 then res.min else if res.min < ar.min then res.min else ar.min
  let gra := if ar.gra = 0 then res.max else if ar.gra < res.max then res.max else ar.gra
  let len :=
    if ar.len = 0 then res.len
    else
      let last := uint64 (res.min + res.len + (2 ^ 64 - 1))
      uint64 ((if ar.max < last then last else ar.max) + (2 ^ 64 - min) + 1)
  let len := roundLen len gra
  ⟨min, len, uint64 (min + len + (2 ^ 64 - 1)), gra, .maxAddressSearchTopDown⟩

/-- What `AcpiRbRes` has in front of the resources. -/
def AcpiRes.empty : AcpiRes := ⟨0, 0, 0, 0, .anySearchBottomUp⟩

/-! ## Claiming -/

/-- `MIN_PCI_IO` and `MAX_PCI_IO`, `MIN_PCI_MMIO32` and the others. -/
def limits : AcpiResType → Nat × Nat
  | .bus => (0, 0xFF)
  | .io => (0x1000, 0xFFFF)
  | .mmio32 => (0x100000, 0xFFFFFFFF)
  | .mmio64 => (0x100000000, 0xFFFFFFFFFFFFFFFF)

/-- `n - 1` of a `UINT64`. -/
def pred64 (n : Nat) : Nat := uint64 (n + (2 ^ 64 - 1))

/-- `top`, from the window of the next root bridge. -/
def topLimit (t : AcpiResType) (car : AcpiRes) : Option AcpiRes → Nat
  | none => (limits t).2
  | some nar => if car.allocType.upward then pred64 nar.min else car.max

/-- `bot`, from the window in front. -/
def botLimit (t : AcpiResType) (car : AcpiRes) (nar : Option AcpiRes) (tmpTop : Nat) : Nat :=
  if tmpTop ≠ 0 then uint64 (tmpTop + 1)
  else if nar.isSome && car.allocType.upward then car.min
  else (limits t).1

/-- `tmp`, `ct` and `cb`. -/
structure Claim where
  tmp : Nat
  ct : Nat
  cb : Nat

/-- A round of the loop, which ends with `ct` and `cb`. `claims` says whether an entry is taken. -/
def claimRound (claims : Entry → Bool) (upward : Bool) (top bot : Nat) (map : Gcd.Map) (s : Claim) : Next Claim (Nat × Nat) :=
  match getSpaceDescriptor s.tmp map with
  | none => .done (s.ct, s.cb)
  | some mem =>
    if !claims mem.val then .done (s.ct, s.cb)
    else if upward then
      if top ≤ mem.last then .done (top, s.cb) else .again ⟨uint64 (mem.last + 1), mem.last, s.cb⟩
    else
      if mem.base ≤ bot then .done (s.ct, bot) else .again ⟨pred64 mem.base, s.ct, mem.base⟩

/-- The range of a window, extended: `ct` and `cb`. -/
def extend (claims : Entry → Bool) (top bot : Nat) (map : Gcd.Map) (car : AcpiRes) (fuel : Nat) : Option (Nat × Nat) :=
  let tmp := if car.allocType.upward then uint64 (car.max + 1) else pred64 car.min
  loop (claimRound claims car.allocType.upward top bot map) fuel ⟨tmp, car.max, car.min⟩

/-- The end of both functions. -/
def Windows.publish (s : Windows) (c : Root × AcpiResType) (ct cb : Nat) : Windows :=
  { s with
    acpiRbRes := Function.update s.acpiRbRes c
      { s.acpiRbRes c with max := ct, min := cb, len := uint64 (ct + (2 ^ 64 - cb) + 1) }
    tmpTop := Function.update s.tmpTop c.2 ct
    tmpBot := Function.update s.tmpBot c.2 cb }

/-- The body of both functions. -/
def claimResources (claims : Entry → Bool) (map : Gcd.Map) (rb : Root) (next : Option Root) (t : AcpiResType) (fuel : Nat)
    (s : Windows) : Option (Gcd.Status × Windows) :=
  let car := s.acpiRbRes (rb, t)
  let nar := next.map fun rb => s.acpiRbRes (rb, t)
  (extend claims (topLimit t car nar) (botLimit t car nar (s.tmpTop t)) map car fuel).map fun r =>
    (.success, s.publish (rb, t) r.1 r.2)

/-- The memory that is not another bridge's, and is for devices. -/
def claimsMemory (rbHandle : Option Nat) (e : Entry) : Bool :=
  (e.deviceHandle = none || e.deviceHandle = rbHandle) && e.memoryType = .memoryMappedIo

/-- The type of an entry is not looked at. -/
def claimsIo (rbHandle : Option Nat) (e : Entry) : Bool := e.deviceHandle = none || e.deviceHandle = rbHandle

/-- `gHostBrgPrivateData[HostIndex].RootBridges[RootIndex]`. -/
def Platform.root (p : Platform) (rb : Root) : RootBrg := ((p.hosts[rb.1]?.bind (·[rb.2]?))).getD ⟨none, []⟩

def claimMmioResources (p : Platform) (cur : Root) (next : Option Root) (t : AcpiResType) (fuel : Nat) (s : Windows) :
    Option (Gcd.Status × Windows) :=
  if p.dxe ≠ .success then some (.deviceError, s)
  else if (s.acpiRbRes (cur, t)).len = 0 then some (.notFound, s)
  else if (s.acpiRbRes (cur, t)).allocType = .address then some (.success, s)
  else claimResources (claimsMemory (p.root cur).rbHandle) p.memory cur next t fuel s

def claimIoResources (p : Platform) (cur : Root) (next : Option Root) (fuel : Nat) (s : Windows) :
    Option (Gcd.Status × Windows) :=
  if p.dxe ≠ .success then some (.deviceError, s)
  else if (s.acpiRbRes (cur, .io)).len = 0 then some (.notFound, s)
  else claimResources (claimsIo (p.root cur).rbHandle) p.io cur next .io fuel s

/-! ## AjustAcpiResource -/

/-- The root bridge behind, in the next host if there is none. -/
def Platform.next (p : Platform) (rb : Root) : Option Root :=
  if rb.2 + 1 < (p.hosts.getD rb.1 []).length then some (rb.1, rb.2 + 1)
  else if rb.1 + 1 < p.hosts.length then some (rb.1 + 1, 0)
  else none

def findRbBusData (rb : RootBrg) : Option QwordAsd := rb.rbRes.find? (·.isBus)

/-- The last bus, from the descriptor of the next root bridge if it has one. -/
def Platform.busMax (p : Platform) (rb : Root) : Option Nat :=
  match p.next rb with
  | none => some 0xFF
  | some next =>
    (findRbBusData (p.root next)).map fun res =>
      if res.min = 0 ∧ res.max = 0 ∧ res.len = 0 then 0xFF else pred64 res.min

def Windows.set (s : Windows) (c : Root × AcpiResType) (r : AcpiRes) : Windows :=
  { s with acpiRbRes := Function.update s.acpiRbRes c r }

/-- `AjustAcpiResource` for the buses. Without a descriptor of the next root bridge it stops half way. -/
def ajustBus (p : Platform) (rb : Root) (s : Windows) : Gcd.Status × Windows :=
  match findRbBusData (p.root rb) with
  | none => (.deviceError, s)
  | some res =>
    let car := { s.acpiRbRes (rb, .bus) with min := res.min, gra := 1 }
    match p.busMax rb with
    | none => (.deviceError, s.set (rb, .bus) car)
    | some max => (.success, s.set (rb, .bus) { car with max := max, len := uint64 (max + (2 ^ 64 - res.min) + 1) })

/-- `AjustAcpiResource`. What the claiming functions return is not passed on. -/
def ajustAcpiResource (p : Platform) (rb : Root) (t : AcpiResType) (fuel : Nat) (s : Windows) :
    Option (Gcd.Status × Windows) :=
  match t with
  | .bus => some (ajustBus p rb s)
  | .io => (claimIoResources p rb (p.next rb) fuel s).map fun r => (.success, r.2)
  | .mmio32 => (claimMmioResources p rb (p.next rb) .mmio32 fuel s).map fun r => (.success, r.2)
  | .mmio64 => (claimMmioResources p rb (p.next rb) .mmio64 fuel s).map fun r => (.success, r.2)

/-- The calls for the root bridges of the hosts. -/
def Platform.calls (p : Platform) : List (Root × AcpiResType) :=
  (List.range p.hosts.length).flatMap fun i =>
    (List.range (p.hosts.getD i []).length).flatMap fun j =>
      [.bus, .io, .mmio32, .mmio64].map fun t => ((i, j), t)

/-- The calls one after the other. -/
def ajustAll (p : Platform) (fuel : Nat) : List (Root × AcpiResType) → Windows → Option Windows
  | [], s => some s
  | c :: cs, s => (ajustAcpiResource p c.1 c.2 fuel s).bind fun r => ajustAll p fuel cs r.2

/-- The loops of `RbReadyToBoot` that collect the resources. -/
def rbReadyToBoot (p : Platform) (fuel : Nat) (s : Windows) : Option Windows := ajustAll p fuel p.calls s

/-! ## Extending a range -/

section

variable {bits : Nat} {map : Gcd.Map} {claims : Entry → Bool} {top bot ct cb a : Nat}

/-- An address with an entry that is taken. -/
def Claimable (claims : Entry → Bool) (map : Gcd.Map) (a : Nat) : Prop := ∃ e, Region.At map a e ∧ claims e = true

theorem pred64_eq {n : Nat} (hpos : 0 < n) (h : n ≤ 2 ^ 64) : pred64 n = n - 1 := by
  unfold pred64 uint64
  omega

variable {tmp : Nat} {mem : Region Entry}

theorem claimRound_none (upward : Bool) (top bot ct cb : Nat) (h : getSpaceDescriptor tmp map = none) :
    claimRound claims upward top bot map ⟨tmp, ct, cb⟩ = .done (ct, cb) := by
  unfold claimRound
  rw [h]

theorem claimRound_refused (upward : Bool) (top bot ct cb : Nat)
    (h : getSpaceDescriptor tmp map = some mem) (hclaims : claims mem.val = false) :
    claimRound claims upward top bot map ⟨tmp, ct, cb⟩ = .done (ct, cb) := by
  unfold claimRound
  rw [h]
  dsimp only
  rw [hclaims]
  rfl

theorem claimRound_down (top bot ct cb : Nat)
    (h : getSpaceDescriptor tmp map = some mem) (hclaims : claims mem.val = true) :
    claimRound claims false top bot map ⟨tmp, ct, cb⟩ =
      if mem.base ≤ bot then .done (ct, bot) else .again ⟨pred64 mem.base, ct, mem.base⟩ := by
  unfold claimRound
  rw [h]
  dsimp only
  rw [hclaims]
  rfl

theorem claimRound_up (top bot ct cb : Nat)
    (h : getSpaceDescriptor tmp map = some mem) (hclaims : claims mem.val = true) :
    claimRound claims true top bot map ⟨tmp, ct, cb⟩ =
      if top ≤ mem.last then .done (top, cb) else .again ⟨uint64 (mem.last + 1), mem.last, cb⟩ := by
  unfold claimRound
  rw [h]
  dsimp only
  rw [hclaims]
  rfl

/-- What is found at an address: nothing that is taken, or an entry that is. -/
theorem claim_cases (htiles : Tiles 0 (2 ^ bits) map) (claims : Entry → Bool) (htmp : tmp < 2 ^ 64) :
    (¬ Claimable claims map tmp ∧ ∀ upward top bot ct cb, claimRound claims upward top bot map ⟨tmp, ct, cb⟩ = .done (ct, cb))
    ∨ ∃ mem, getSpaceDescriptor tmp map = some mem ∧ claims mem.val = true ∧ mem.base ≤ tmp ∧ tmp ≤ mem.last
      ∧ mem.last < 2 ^ bits ∧ ∀ x, mem.base ≤ x → x ≤ mem.last → Claimable claims map x := by
  cases hmem : getSpaceDescriptor tmp map with
  | none =>
    refine Or.inl ⟨fun ⟨e, he, _⟩ => ?_, fun upward top bot ct cb => claimRound_none upward top bot ct cb hmem⟩
    have hbounds := htiles.at_bounds he
    have hout := getSpaceDescriptor_none htiles htmp hmem
    omega
  | some mem =>
    obtain ⟨hin, hbase, hlast⟩ := getSpaceDescriptor_some htiles hmem
    cases hclaims : claims mem.val with
    | false =>
      refine Or.inl ⟨fun ⟨e, he, hce⟩ => ?_, fun upward top bot ct cb => claimRound_refused upward top bot ct cb hmem hclaims⟩
      rw [htiles.at_unique he ⟨mem, hin, hbase, hlast, rfl⟩, hclaims] at hce
      cases hce
    | true =>
      have hbounds := htiles.mem hin
      exact Or.inr ⟨mem, rfl, hclaims, hbase, hlast, by omega, fun x h1 h2 => ⟨mem.val, ⟨mem, hin, h1, h2, rfl⟩, hclaims⟩⟩

/-- Down: all that is taken on the way, to the first address that is not or to `bot`. -/
theorem loop_down (htiles : Tiles 0 (2 ^ bits) map) (top ct : Nat) : ∀ {fuel cb : Nat}, bot < cb → cb ≤ 2 ^ 64 → cb < fuel →
    ∃ lo, loop (claimRound claims false top bot map) fuel ⟨pred64 cb, ct, cb⟩ = some (ct, lo)
      ∧ bot ≤ lo ∧ lo ≤ cb ∧ (∀ x, lo ≤ x → x < cb → Claimable claims map x)
      ∧ (lo = bot ∨ ¬ Claimable claims map (lo - 1))
  | 0, cb, _, _, hfuel => absurd hfuel (Nat.not_lt_zero _)
  | fuel + 1, cb, hbot, hle, hfuel => by
    have hpred : pred64 cb = cb - 1 := pred64_eq (by omega) hle
    rcases claim_cases htiles claims (show cb - 1 < 2 ^ 64 by omega) with ⟨hnot, hround⟩ | ⟨mem, hmem, hclaims, h1, h2, -, hall⟩
    · refine ⟨cb, ?_, by omega, Nat.le_refl _, fun x hx hx' => by omega, Or.inr hnot⟩
      rw [hpred]
      exact loop_done (hround false top bot ct cb) fuel
    · have hround := claimRound_down top bot ct cb hmem hclaims
      by_cases hend : mem.base ≤ bot
      · rw [if_pos hend] at hround
        refine ⟨bot, ?_, Nat.le_refl _, by omega, fun x hx hx' => hall x (by omega) (by omega), Or.inl rfl⟩
        rw [hpred]
        exact loop_done hround fuel
      · rw [if_neg hend] at hround
        obtain ⟨lo, hloop, hlo, hlo', hbetween, hstop⟩ := loop_down htiles top ct (show bot < mem.base by omega) (by omega)
          (show mem.base < fuel by omega)
        refine ⟨lo, ?_, hlo, by omega, fun x hx hx' => ?_, hstop⟩
        · rw [hpred, loop_again hround]
          exact hloop
        · by_cases hxbase : x < mem.base
          · exact hbetween x hx hxbase
          · exact hall x (by omega) (by omega)

/-- Up: all that is taken on the way, to the last address in front of one that is not or to `top`. -/
theorem loop_up (htiles : Tiles 0 (2 ^ bits) map) (hbits : bits < 64) (bot cb : Nat) : ∀ {fuel ct : Nat}, ct < top →
    ct + 1 < 2 ^ 64 → 2 ^ 64 < fuel + ct →
    ∃ hi, loop (claimRound claims true top bot map) fuel ⟨uint64 (ct + 1), ct, cb⟩ = some (hi, cb)
      ∧ ct ≤ hi ∧ hi ≤ top ∧ (∀ x, ct < x → x ≤ hi → Claimable claims map x)
      ∧ (hi = top ∨ ¬ Claimable claims map (hi + 1))
  | 0, ct, _, hct, hfuel => by omega
  | fuel + 1, ct, htop, hct, hfuel => by
    have hsucc : uint64 (ct + 1) = ct + 1 := Nat.mod_eq_of_lt hct
    have hpow : 2 ^ bits ≤ 2 ^ 63 := Nat.pow_le_pow_right (by decide) (by omega)
    rcases claim_cases htiles claims hct with ⟨hnot, hround⟩ | ⟨mem, hmem, hclaims, h1, h2, h3, hall⟩
    · refine ⟨ct, ?_, Nat.le_refl _, by omega, fun x hx hx' => by omega, Or.inr hnot⟩
      rw [hsucc]
      exact loop_done (hround true top bot ct cb) fuel
    · have hround := claimRound_up top bot ct cb hmem hclaims
      by_cases hend : top ≤ mem.last
      · rw [if_pos hend] at hround
        refine ⟨top, ?_, by omega, Nat.le_refl _, fun x hx hx' => hall x (by omega) (by omega), Or.inl rfl⟩
        rw [hsucc]
        exact loop_done hround fuel
      · rw [if_neg hend] at hround
        obtain ⟨hi, hloop, hhi, hhi', hbetween, hstop⟩ := loop_up htiles hbits bot cb (show mem.last < top by omega) (by omega)
          (show 2 ^ 64 < fuel + mem.last by omega)
        refine ⟨hi, ?_, by omega, hhi', fun x hx hx' => ?_, hstop⟩
        · rw [hsucc, loop_again hround]
          exact hloop
        · by_cases hxlast : mem.last < x
          · exact hbetween x hxlast hx'
          · exact hall x (by omega) (by omega)

/-- Nothing is taken beside the range. -/
theorem loop_refused (htiles : Tiles 0 (2 ^ bits) map) (htmp : tmp < 2 ^ 64) (hnot : ¬ Claimable claims map tmp)
    (upward : Bool) (top bot ct cb fuel : Nat) :
    loop (claimRound claims upward top bot map) (fuel + 1) ⟨tmp, ct, cb⟩ = some (ct, cb) := by
  rcases claim_cases htiles claims htmp with ⟨-, hround⟩ | ⟨mem, -, -, h1, h2, -, hall⟩
  · exact loop_done (hround upward top bot ct cb) fuel
  · exact absurd (hall tmp h1 h2) hnot

/-- An entry is taken below a range that is not above `bot`: the range is cut there. -/
theorem loop_down_cut (htiles : Tiles 0 (2 ^ bits) map) (htmp : tmp < 2 ^ 64) (h : Claimable claims map tmp)
    (hbot : tmp ≤ bot) (top ct cb fuel : Nat) :
    loop (claimRound claims false top bot map) (fuel + 1) ⟨tmp, ct, cb⟩ = some (ct, bot) := by
  rcases claim_cases htiles claims htmp with ⟨hnot, -⟩ | ⟨mem, hmem, hclaims, h1, h2, -, -⟩
  · exact absurd h hnot
  · have hround := claimRound_down top bot ct cb hmem hclaims
    rw [if_pos (show mem.base ≤ bot by omega)] at hround
    exact loop_done hround fuel

theorem loop_up_cut (htiles : Tiles 0 (2 ^ bits) map) (htmp : tmp < 2 ^ 64) (h : Claimable claims map tmp)
    (htop : top ≤ tmp) (bot ct cb fuel : Nat) :
    loop (claimRound claims true top bot map) (fuel + 1) ⟨tmp, ct, cb⟩ = some (top, cb) := by
  rcases claim_cases htiles claims htmp with ⟨hnot, -⟩ | ⟨mem, hmem, hclaims, h1, h2, -, -⟩
  · exact absurd h hnot
  · have hround := claimRound_up top bot ct cb hmem hclaims
    rw [if_pos (show top ≤ mem.last by omega)] at hround
    exact loop_done hround fuel

/-- What stays of a range. It is cut if it goes beyond the limit, and an entry beside it is taken. -/
def Kept (claims : Entry → Bool) (map : Gcd.Map) (top bot : Nat) (car : AcpiRes) (a : Nat) : Prop :=
  car.min ≤ a ∧ a ≤ car.max ∧
    match car.allocType.upward with
    | true => top < car.max → Claimable claims map (car.max + 1) → a ≤ top
    | false => car.min < bot → 0 < car.min → Claimable claims map (car.min - 1) → bot ≤ a

/-- What is added to a range: the addresses beside it up to the limit, as long as they are taken. -/
def Added (claims : Entry → Bool) (map : Gcd.Map) (top bot : Nat) (car : AcpiRes) (a : Nat) : Prop :=
  match car.allocType.upward with
  | true => car.max < a ∧ a ≤ top ∧ ∀ x, car.max < x → x ≤ a → Claimable claims map x
  | false => a < car.min ∧ bot ≤ a ∧ ∀ x, a ≤ x → x < car.min → Claimable claims map x

/-- The loop ends, and the range has become what stays of it and what is added. -/
theorem extend_spec (htiles : Tiles 0 (2 ^ bits) map) (hbits : bits < 64) (claims : Entry → Bool) (top : Nat)
    (hbot : bot < 2 ^ 64) {car : AcpiRes} (hle : car.min ≤ car.max) (hmax : car.max + 1 < 2 ^ 64) {fuel : Nat}
    (hfuel : 2 ^ 64 < fuel) :
    ∃ ct cb, extend claims top bot map car fuel = some (ct, cb) ∧ ct + 1 < 2 ^ 64 ∧ cb < 2 ^ 64
      ∧ ∀ a, (cb ≤ a ∧ a ≤ ct) ↔ Kept claims map top bot car a ∨ Added claims map top bot car a := by
  have hpow : 2 ^ bits ≤ 2 ^ 63 := Nat.pow_le_pow_right (by decide) (by omega)
  have hbounds : ∀ x, Claimable claims map x → x < 2 ^ bits := fun x ⟨e, he, _⟩ => (htiles.at_bounds he).2
  obtain ⟨fuel, rfl⟩ : ∃ n, fuel = n + 1 := ⟨fuel - 1, by omega⟩
  unfold extend Kept Added
  cases hup : car.allocType.upward with
  | true =>
    dsimp only
    rw [if_pos rfl, show uint64 (car.max + 1) = car.max + 1 from Nat.mod_eq_of_lt hmax]
    by_cases htop : car.max < top
    · have hsucc : uint64 (car.max + 1) = car.max + 1 := Nat.mod_eq_of_lt hmax
      obtain ⟨hi, hloop, hhi, hhi', hall, hstop⟩ := loop_up htiles hbits bot car.min htop hmax
        (show 2 ^ 64 < fuel + 1 + car.max by omega)
      rw [hsucc] at hloop
      refine ⟨hi, car.min, hloop, ?_, by omega, fun a => ⟨fun h => ?_, fun h => ?_⟩⟩
      · by_cases heq : hi = car.max
        · omega
        · have hlast := hbounds hi (hall hi (by omega) (Nat.le_refl _))
          omega
      · by_cases ha : a ≤ car.max
        · exact Or.inl ⟨h.1, ha, fun h' => by omega⟩
        · exact Or.inr ⟨by omega, by omega, fun x h1 h2 => hall x h1 (by omega)⟩
      · rcases h with ⟨h1, h2, -⟩ | ⟨h1, h2, h3⟩
        · exact ⟨h1, by omega⟩
        · refine ⟨by omega, ?_⟩
          -- beyond `hi` there is an address that is not taken, or the limit
          rcases hstop with rfl | hstop
          · exact h2
          · by_contra hgt
            exact hstop (h3 (hi + 1) (by omega) (by omega))
    · by_cases hclaim : Claimable claims map (car.max + 1)
      · refine ⟨top, car.min, loop_up_cut htiles hmax hclaim (by omega) bot car.max car.min fuel, by omega, by omega, fun a => ?_⟩
        constructor
        · exact fun h => Or.inl ⟨h.1, by omega, fun _ _ => h.2⟩
        · intro h
          rcases h with ⟨h1, h2, h3⟩ | ⟨h1, h2, -⟩
          · by_cases hlt : top < car.max
            · exact ⟨h1, h3 hlt hclaim⟩
            · exact ⟨h1, by omega⟩
          · omega
      · refine ⟨car.max, car.min, loop_refused htiles hmax hclaim true top bot car.max car.min fuel, hmax, by omega, fun a => ?_⟩
        constructor
        · exact fun h => Or.inl ⟨h.1, h.2, fun _ h' => absurd h' hclaim⟩
        · intro h
          rcases h with ⟨h1, h2, -⟩ | ⟨h1, h2, -⟩
          · exact ⟨h1, h2⟩
          · omega
  | false =>
    dsimp only
    rw [if_neg Bool.false_ne_true]
    by_cases hbelow : bot < car.min
    · obtain ⟨lo, hloop, hlo, hlo', hall, hstop⟩ := loop_down htiles top car.max hbelow (by omega)
        (show car.min < fuel + 1 by omega)
      refine ⟨car.max, lo, hloop, hmax, by omega, fun a => ⟨fun h => ?_, fun h => ?_⟩⟩
      · by_cases ha : car.min ≤ a
        · exact Or.inl ⟨ha, h.2, fun h' => by omega⟩
        · exact Or.inr ⟨by omega, by omega, fun x h1 h2 => hall x (by omega) h2⟩
      · rcases h with ⟨h1, h2, -⟩ | ⟨h1, h2, h3⟩
        · exact ⟨by omega, h2⟩
        · refine ⟨?_, by omega⟩
          rcases hstop with rfl | hstop
          · exact h2
          · by_contra hlt
            exact hstop (h3 (lo - 1) (by omega) (by omega))
    · by_cases hclaim : 0 < car.min ∧ Claimable claims map (car.min - 1)
      · have hpred : pred64 car.min = car.min - 1 := pred64_eq hclaim.1 (by omega)
        have hloop := loop_down_cut htiles (show car.min - 1 < 2 ^ 64 by omega) hclaim.2 (show car.min - 1 ≤ bot by omega) top
          car.max car.min fuel
        rw [← hpred] at hloop
        refine ⟨car.max, bot, hloop, hmax, hbot, fun a => ?_⟩
        constructor
        · exact fun h => Or.inl ⟨by omega, h.2, fun _ _ _ => h.1⟩
        · intro h
          rcases h with ⟨h1, h2, h3⟩ | ⟨h1, h2, -⟩
          · by_cases hlt : car.min < bot
            · exact ⟨h3 hlt hclaim.1 hclaim.2, h2⟩
            · exact ⟨by omega, h2⟩
          · omega
      · have hnot : ¬ Claimable claims map (pred64 car.min) := by
          by_cases hzero : car.min = 0
          · intro h
            have hlast := hbounds _ h
            rw [hzero] at hlast
            have hpred : pred64 0 = 2 ^ 64 - 1 := rfl
            omega
          · rw [pred64_eq (by omega) (by omega)]
            exact fun h => hclaim ⟨by omega, h⟩
        have hlt : pred64 car.min < 2 ^ 64 := Nat.mod_lt _ (by decide)
        refine ⟨car.max, car.min, loop_refused htiles hlt hnot false top bot car.max car.min fuel, hmax, by omega, fun a => ?_⟩
        constructor
        · exact fun h => Or.inl ⟨h.1, h.2, fun _ h1 h2 => absurd ⟨h1, h2⟩ hclaim⟩
        · intro h
          rcases h with ⟨h1, h2, -⟩ | ⟨h1, h2, -⟩
          · exact ⟨h1, h2⟩
          · omega

end

end BayTrail.Pci
