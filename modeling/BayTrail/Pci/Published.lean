import BayTrail.Pci.Allocate
import BayTrail.Pci.Windows

/-!
# What is published for the root bridges

The windows that `RbReadyToBoot` publishes, and when they are what they are for: each has what has been
assigned to its root bridge, none has what the maps assign to something else, and those of different root
bridges have nothing in common.
-/

namespace BayTrail.Pci

open BayTrail.Lib BayTrail.Lib.Region BayTrail.Gcd

/-! ## Windows -/

/-- A root bridge and a kind of resource. -/
abbrev Call := Root × AcpiResType

/-- A resource that has been assigned. -/
structure Assigned where
  base : Nat
  length : Nat
  deriving DecidableEq

def Assigned.Has (x : Assigned) (a : Nat) : Prop := x.base ≤ a ∧ a < x.base + x.length

/-- The addresses of a window. -/
def AcpiRes.Covers (r : AcpiRes) (a : Nat) : Prop := r.len ≠ 0 ∧ r.min ≤ a ∧ a ≤ r.max

inductive Space where
  | bus | io | memory
  deriving DecidableEq

def AcpiResType.space : AcpiResType → Space
  | .bus => .bus
  | .io => .io
  | .mmio32 | .mmio64 => .memory

/-- What is allocated, and not for the root bridge. -/
def IsOther (rbHandle : Option Nat) (e : Entry) : Prop :=
  e.imageHandle ≠ none ∧ (e.deviceHandle = none ∨ e.deviceHandle ≠ rbHandle)

/-- What the maps assign to something else than the root bridge. -/
def Elsewhere (p : Platform) (c : Call) (a : Nat) : Prop :=
  match c.2.space with
  | .bus => False
  | .io => ∃ e, Region.At p.io a e ∧ (IsOther (p.root c.1).rbHandle e ∨ e.ioType = .reserved)
  | .memory => ∃ e, Region.At p.memory a e ∧
    (IsOther (p.root c.1).rbHandle e ∨ e.memoryType = .reserved ∨ e.memoryType = .systemMemory)

/-- Two windows of different root bridges have nothing in common. -/
def Apart (s : Windows) (c d : Call) : Prop :=
  c.1 ≠ d.1 → c.2.space = d.2.space → ∀ a, ¬ ((s.acpiRbRes c).Covers a ∧ (s.acpiRbRes d).Covers a)

/-- The windows are what they are for. -/
structure Sound (p : Platform) (assigned : Call → List Assigned) (s : Windows) : Prop where
  sufficient : ∀ c ∈ p.calls, ∀ x ∈ assigned c, ∀ a, x.Has a → (s.acpiRbRes c).Covers a
  clean : ∀ c ∈ p.calls, ∀ a, (s.acpiRbRes c).Covers a → ¬ Elsewhere p c a
  disjoint : ∀ c ∈ p.calls, ∀ d ∈ p.calls, Apart s c d

/-! ## What a window is made of -/

/-- The map that is searched for a kind of resource. -/
def Platform.map (p : Platform) : Space → Gcd.Map
  | .bus => []
  | .io => p.io
  | .memory => p.memory

def Platform.claims (p : Platform) (c : Call) : Entry → Bool :=
  match c.2.space with
  | .bus => fun _ => false
  | .io => claimsIo (p.root c.1).rbHandle
  | .memory => claimsMemory (p.root c.1).rbHandle

/-- Whether the range is extended. That of memory which has been asked for by its address is not. -/
def Extended (p : Platform) (s : Windows) (c : Call) : Prop :=
  p.dxe = .success ∧ ¬ (c.2.space = .memory ∧ (s.acpiRbRes c).allocType = .address)

def Windows.top (p : Platform) (s : Windows) (c : Call) : Nat :=
  topLimit c.2 (s.acpiRbRes c) ((p.next c.1).map fun rb => s.acpiRbRes (rb, c.2))

def Windows.bot (p : Platform) (s : Windows) (c : Call) : Nat :=
  botLimit c.2 (s.acpiRbRes c) ((p.next c.1).map fun rb => s.acpiRbRes (rb, c.2)) (s.tmpTop c.2)

/-- The buses from the first one of the descriptor to the last one in front of the next root bridge. -/
def BusRange (p : Platform) (rb : Root) (a : Nat) : Prop :=
  ∃ res max, findRbBusData (p.root rb) = some res ∧ p.busMax rb = some max
    ∧ uint64 (max + (2 ^ 64 - res.min) + 1) ≠ 0 ∧ res.min ≤ a ∧ a ≤ max

/-- What stays of the range of the resources. -/
def Remains (p : Platform) (s : Windows) (c : Call) (a : Nat) : Prop :=
  if c.2 = .bus then BusRange p c.1 a
  else (s.acpiRbRes c).Covers a ∧
    (Extended p s c → Kept (p.claims c) (p.map c.2.space) (s.top p c) (s.bot p c) (s.acpiRbRes c) a)

/-- What is added to it. -/
def Beside (p : Platform) (s : Windows) (c : Call) (a : Nat) : Prop :=
  c.2 ≠ .bus ∧ (s.acpiRbRes c).len ≠ 0 ∧ Extended p s c
    ∧ Added (p.claims c) (p.map c.2.space) (s.top p c) (s.bot p c) (s.acpiRbRes c) a

/-- The range that `AllocateResources` leaves for the resources of a kind. There is none for buses. -/
structure Collected (xs : List Assigned) (c : Call) (r : AcpiRes) : Prop where
  bus : c.2 = .bus → r.len = 0
  bounds : r.len ≠ 0 → r.min ≤ r.max ∧ r.max + 1 < 2 ^ 64
  range : c.2 ≠ .bus → ∀ x ∈ xs, ∀ a, x.Has a → r.Covers a

/-- A window that will be what it is for, in front of its call, if those of the calls `done` have been
published: the range is not cut where resources are, and neither what stays of it nor what is added has
been assigned to something else, or published for another root bridge. -/
structure Fits (p : Platform) (assigned : Call → List Assigned) (done : List Call) (s : Windows) (c : Call) : Prop where
  kept : ∀ x ∈ assigned c, ∀ a, x.Has a → Remains p s c a
  remains : ∀ a, Remains p s c a → ¬ Elsewhere p c a
    ∧ ∀ d ∈ done, c.1 ≠ d.1 → c.2.space = d.2.space → ¬ (s.acpiRbRes d).Covers a
  beside : ∀ a, Beside p s c a → ¬ Elsewhere p c a
    ∧ ∀ d ∈ done, c.1 ≠ d.1 → c.2.space = d.2.space → ¬ (s.acpiRbRes d).Covers a

/-- It is so in front of each of the calls. -/
def AllFit (p : Platform) (assigned : Call → List Assigned) (fuel : Nat) : List Call → List Call → Windows → Prop
  | _, [], _ => True
  | done, c :: cs, s => Fits p assigned done s c ∧
    ∀ r, ajustAcpiResource p c.1 c.2 fuel s = some r → AllFit p assigned fuel (c :: done) cs r.2

/-! ## What is collected -/

section collect

theorem or_le_add (a b : Nat) : a ||| b ≤ a + b := by
  induction a using Nat.strongRecOn generalizing b with
  | _ a ih =>
    by_cases ha : a = 0
    · rw [ha, Nat.zero_or]
      omega
    · have hhalf := ih (a / 2) (by omega) (b / 2)
      rw [← Nat.or_div_two] at hhalf
      have hbit : (a ||| b) % 2 ≤ a % 2 + b % 2 := by
        by_cases hodd : (a ||| b) % 2 = 1
        · rcases Nat.or_mod_two_eq_one.mp hodd with h | h <;> omega
        · omega
      omega

theorem roundLen_bounds {len gra : Nat} (h : len + gra + 1 < 2 ^ 64) : len ≤ roundLen len gra ∧ roundLen len gra ≤ len + gra + 1 := by
  have hle := or_le_add len gra
  have hge : len ≤ len ||| gra := Nat.left_le_or
  unfold roundLen
  by_cases hround : len &&& gra ≠ 0
  · rw [if_pos hround, show uint64 ((len ||| gra) + 1) = (len ||| gra) + 1 from Nat.mod_eq_of_lt (by omega)]
    omega
  · rw [if_neg hround]
    omega

/-- What is collected of resources that end by `B`: their range, and for each of them up to a unit of the
granularity `G` behind it. -/
structure Collects (B G : Nat) (seen : List Placed) (ar : AcpiRes) : Prop where
  gra : ar.gra ≤ G
  none : seen = [] → ar.min = 0 ∧ ar.len = 0
  some : seen ≠ [] → 0 < ar.min ∧ 0 < ar.len ∧ ar.min + ar.len ≤ B + seen.length * (G + 1) ∧ ar.max = ar.min + ar.len - 1
  range : ∀ res ∈ seen, ar.min ≤ res.min ∧ res.min + res.len ≤ ar.min + ar.len

variable {B G : Nat} {seen : List Placed} {ar : AcpiRes} {res : Placed}

/-- The range in front of the rounding is that of the resources so far. -/
theorem collect_eq (h : Collects B G seen ar)
    (hmin : 0 < res.min) (hlen : 0 < res.len) (hend : res.min + res.len ≤ B) (hgra : res.max ≤ G)
    (hfits : B + seen.length * (G + 1) < 2 ^ 64) :
    ∃ m l g, ar.collect res = ⟨m, roundLen l g, uint64 (m + roundLen l g + (2 ^ 64 - 1)), g, .maxAddressSearchTopDown⟩
      ∧ g ≤ G ∧ 0 < m ∧ 0 < l ∧ m + l ≤ B + seen.length * (G + 1)
      ∧ ∀ x ∈ seen ++ [res], m ≤ x.min ∧ x.min + x.len ≤ m + l := by
  have hg : (if ar.gra = 0 then res.max else if ar.gra < res.max then res.max else ar.gra) ≤ G := by
    have hold := h.gra
    by_cases h0 : ar.gra = 0
    · rwa [if_pos h0]
    · rw [if_neg h0]
      by_cases hlt : ar.gra < res.max
      · rwa [if_pos hlt]
      · rwa [if_neg hlt]
  by_cases hseen : seen = []
  · obtain ⟨hmin0, hlen0⟩ := h.none hseen
    refine ⟨res.min, res.len, _, ?_, hg, hmin, hlen, by omega, fun x hx => ?_⟩
    · unfold AcpiRes.collect
      dsimp only
      rw [if_pos hmin0, if_pos hlen0]
    · rw [hseen, List.nil_append, List.mem_singleton] at hx
      rw [hx]
      omega
  · obtain ⟨hmin0, hlen0, hend0, hmax0⟩ := h.some hseen
    have hlast : uint64 (res.min + res.len + (2 ^ 64 - 1)) = res.min + res.len - 1 := by
      unfold uint64
      omega
    refine ⟨min ar.min res.min, max (ar.min + ar.len) (res.min + res.len) - min ar.min res.min, _, ?_, hg, by omega, by omega,
      by omega, fun x hx => ?_⟩
    · unfold AcpiRes.collect
      dsimp only
      rw [if_neg (show ar.min ≠ 0 by omega), if_neg (show ar.len ≠ 0 by omega), hlast]
      have hm : (if res.min < ar.min then res.min else ar.min) = min ar.min res.min := by
        by_cases hlt : res.min < ar.min
        · rw [if_pos hlt]
          omega
        · rw [if_neg hlt]
          omega
      have hl : uint64 ((if ar.max < res.min + res.len - 1 then res.min + res.len - 1 else ar.max)
          + (2 ^ 64 - min ar.min res.min) + 1) = max (ar.min + ar.len) (res.min + res.len) - min ar.min res.min := by
        unfold uint64
        by_cases hlt : ar.max < res.min + res.len - 1
        · rw [if_pos hlt]
          omega
        · rw [if_neg hlt]
          omega
      rw [hm, hl]
    · rcases List.mem_append.mp hx with hx | hx
      · have hold := h.range x hx
        omega
      · rw [List.mem_singleton.mp hx]
        omega

theorem collect_collects (h : Collects B G seen ar)
    (hmin : 0 < res.min) (hlen : 0 < res.len) (hend : res.min + res.len ≤ B) (hgra : res.max ≤ G)
    (hfits : B + (seen.length + 1) * (G + 1) < 2 ^ 64) : Collects B G (seen ++ [res]) (ar.collect res) := by
  rw [Nat.succ_mul] at hfits
  obtain ⟨m, l, g, heq, hg, hm, hl, hml, hrange⟩ := collect_eq h hmin hlen hend hgra (by omega)
  obtain ⟨hge, hle⟩ := roundLen_bounds (show l + g + 1 < 2 ^ 64 by omega)
  rw [heq]
  constructor
  · exact hg
  · exact fun hnil => absurd hnil (List.append_ne_nil_of_right_ne_nil _ (List.cons_ne_nil _ _))
  · intro _
    refine ⟨hm, show 0 < roundLen l g by omega, ?_, ?_⟩
    · show m + roundLen l g ≤ _
      rw [List.length_append, List.length_singleton, Nat.succ_mul]
      omega
    · show uint64 (m + roundLen l g + (2 ^ 64 - 1)) = m + roundLen l g - 1
      unfold uint64
      omega
  · intro x hx
    have hold := hrange x hx
    show m ≤ x.min ∧ x.min + x.len ≤ m + roundLen l g
    omega

theorem foldl_collects : ∀ {rs seen : List Placed} {ar : AcpiRes}, Collects B G seen ar →
    (∀ res ∈ rs, 0 < res.min ∧ 0 < res.len ∧ res.min + res.len ≤ B ∧ res.max ≤ G) →
    B + (seen.length + rs.length) * (G + 1) < 2 ^ 64 → Collects B G (seen ++ rs) (rs.foldl AcpiRes.collect ar)
  | [], seen, ar, h, _, _ => by
    rw [List.append_nil]
    exact h
  | res :: rs, seen, ar, h, hall, hfits => by
    obtain ⟨hmin, hlen, hend, hgra⟩ := hall res List.mem_cons_self
    have hlength : seen.length + (res :: rs).length = (seen ++ [res]).length + rs.length := by
      rw [List.length_append, List.length_singleton, List.length_cons]
      omega
    have hfirst : B + (seen.length + 1) * (G + 1) < 2 ^ 64 := by
      refine Nat.lt_of_le_of_lt (Nat.add_le_add_left (Nat.mul_le_mul_right _ ?_) B) hfits
      rw [List.length_cons]
      omega
    rw [hlength] at hfits
    have hrest := foldl_collects (collect_collects h hmin hlen hend hgra hfirst)
      (fun x hx => hall x (List.mem_cons_of_mem res hx)) hfits
    rwa [List.append_assoc] at hrest

/-- The range that `AllocateResources` leaves is that of its resources, if it does not wrap. -/
theorem collected {rs : List Placed}
    (hall : ∀ res ∈ rs, 0 < res.min ∧ 0 < res.len ∧ res.min + res.len ≤ B ∧ res.max ≤ G)
    (hfits : B + rs.length * (G + 1) < 2 ^ 64) {c : Call} (hc : c.2 ≠ .bus) :
    Collected (rs.map fun res => ⟨res.min, res.len⟩) c (rs.foldl AcpiRes.collect .empty) := by
  have hempty : Collects B G [] .empty :=
    ⟨Nat.zero_le _, fun _ => ⟨rfl, rfl⟩, fun h => absurd rfl h, fun _ h => absurd h List.not_mem_nil⟩
  have hcollects := foldl_collects hempty hall (by rwa [List.length_nil, Nat.zero_add])
  rw [List.nil_append] at hcollects
  refine ⟨fun h => absurd h hc, fun hlen => ?_, fun _ x hx a ha => ?_⟩
  · obtain ⟨hmin, hpos, hend, hmax⟩ := hcollects.some fun h => hlen (hcollects.none h).2
    omega
  · obtain ⟨res, hres, rfl⟩ := List.mem_map.mp hx
    obtain ⟨hmin, hpos, hend, hmax⟩ := hcollects.some (List.ne_nil_of_mem hres)
    obtain ⟨h1, h2⟩ := hcollects.range res hres
    obtain ⟨h3, h4⟩ : res.min ≤ a ∧ a < res.min + res.len := ha
    exact ⟨by omega, by omega, by omega⟩

end collect

/-! ## A call -/

section

variable {p : Platform} {assigned : Call → List Assigned} {s s' : Windows} {c : Call} {fuel mbits ibits : Nat} {a : Nat}

theorem limits_lt (t : AcpiResType) : (limits t).1 < 2 ^ 64 := by
  cases t <;> decide

theorem botLimit_lt (t : AcpiResType) {car : AcpiRes} (hmin : car.min < 2 ^ 64) (nar : Option AcpiRes) (tmpTop : Nat) :
    botLimit t car nar tmpTop < 2 ^ 64 := by
  unfold botLimit
  by_cases htop : tmpTop ≠ 0
  · rw [if_pos htop]
    exact Nat.mod_lt _ (by decide)
  · rw [if_neg htop]
    by_cases hup : (nar.isSome && car.allocType.upward) = true
    · rw [if_pos hup]
      exact hmin
    · rw [if_neg hup]
      exact limits_lt t

/-- What a call does: it sets its own window only. -/
structure Step (p : Platform) (s s' : Windows) (c : Call) : Prop where
  frame : ∀ d, d ≠ c → s'.acpiRbRes d = s.acpiRbRes d
  covers : ∀ a, (s'.acpiRbRes c).Covers a ↔ Remains p s c a ∨ Beside p s c a

/-- A window that stays as it is. -/
theorem Step.same (hc : c.2 ≠ .bus) (h : (s.acpiRbRes c).len = 0 ∨ ¬ Extended p s c) : Step p s s c where
  frame := fun _ _ => rfl
  covers := fun a => by
    unfold Remains Beside
    rw [if_neg hc]
    constructor
    · intro hcovers
      exact Or.inl ⟨hcovers, fun hext => absurd hext (h.resolve_left hcovers.1)⟩
    · intro h'
      rcases h' with h' | ⟨-, hlen, hext, -⟩
      · exact h'.1
      · exact absurd hext (h.resolve_left hlen)

/-- What is published of a range has as many addresses as it says. -/
theorem publish_covers (s : Windows) (c : Call) {ct cb : Nat} (hct : ct + 1 < 2 ^ 64) (hcb : cb < 2 ^ 64) :
    ((s.publish c ct cb).acpiRbRes c).Covers a ↔ cb ≤ a ∧ a ≤ ct := by
  unfold Windows.publish AcpiRes.Covers
  dsimp only
  rw [Function.update_self]
  dsimp only
  constructor
  · exact fun h => h.2
  · intro h
    refine ⟨?_, h⟩
    unfold uint64
    omega

theorem claimResources_step (hc : c.2 ≠ .bus) {bits : Nat} (htiles : Tiles 0 (2 ^ bits) (p.map c.2.space)) (hbits : bits < 64)
    (hlen : (s.acpiRbRes c).len ≠ 0) (hrange : Collected (assigned c) c (s.acpiRbRes c)) (hext : Extended p s c)
    (hfuel : 2 ^ 64 < fuel) :
    ∃ s', claimResources (p.claims c) (p.map c.2.space) c.1 (p.next c.1) c.2 fuel s = some (.success, s') ∧ Step p s s' c := by
  obtain ⟨hle, hmax⟩ := hrange.bounds hlen
  obtain ⟨ct, cb, hextend, hct, hcb, hcovers⟩ := extend_spec htiles hbits (p.claims c) (s.top p c)
    (botLimit_lt c.2 (show (s.acpiRbRes c).min < 2 ^ 64 by omega) ((p.next c.1).map fun rb => s.acpiRbRes (rb, c.2))
      (s.tmpTop c.2)) hle hmax hfuel
  refine ⟨s.publish c ct cb, ?_, ?_⟩
  · show (extend (p.claims c) (s.top p c) (s.bot p c) (p.map c.2.space) (s.acpiRbRes c) fuel).map _ = _
    rw [show extend (p.claims c) (s.top p c) (s.bot p c) (p.map c.2.space) (s.acpiRbRes c) fuel = some (ct, cb) from hextend]
    rfl
  · constructor
    · exact fun d hd => Function.update_of_ne hd _ _
    · intro a
      rw [publish_covers s c hct hcb, hcovers a]
      unfold Remains Beside
      rw [if_neg hc]
      constructor
      · intro h
        rcases h with h | h
        · exact Or.inl ⟨⟨hlen, h.1, h.2.1⟩, fun _ => h⟩
        · exact Or.inr ⟨hc, hlen, hext, h⟩
      · intro h
        rcases h with h | h
        · exact Or.inl (h.2 hext)
        · exact Or.inr h.2.2.2

theorem ajustBus_step (rb : Root) (hlen : (s.acpiRbRes (rb, .bus)).len = 0) : Step p s (ajustBus p rb s).2 (rb, .bus) := by
  have hbeside : ∀ a, ¬ Beside p s (rb, .bus) a := fun a h => h.1 rfl
  have hremains : ∀ a, Remains p s (rb, .bus) a ↔ BusRange p rb a := fun a => Iff.rfl
  unfold ajustBus
  cases hres : findRbBusData (p.root rb) with
  | none =>
    refine ⟨fun _ _ => rfl, fun a => iff_of_false (fun h => h.1 hlen) fun h => ?_⟩
    obtain ⟨res, max, hfind, -⟩ := (hremains a).mp (h.resolve_right (hbeside a))
    rw [hres] at hfind
    cases hfind
  | some res =>
    dsimp only
    cases hmax : p.busMax rb with
    | none =>
      refine ⟨fun d hd => Function.update_of_ne hd _ _, fun a => iff_of_false (fun h => ?_) fun h => ?_⟩
      · unfold Windows.set AcpiRes.Covers at h
        dsimp only at h
        rw [Function.update_self] at h
        exact h.1 hlen
      · obtain ⟨res', max, -, hmax', -⟩ := (hremains a).mp (h.resolve_right (hbeside a))
        rw [hmax] at hmax'
        cases hmax'
    | some max =>
      refine ⟨fun d hd => Function.update_of_ne hd _ _, fun a => ?_⟩
      rw [or_iff_left (hbeside a), hremains]
      unfold Windows.set AcpiRes.Covers BusRange
      dsimp only
      rw [Function.update_self, hres, hmax]
      constructor
      · exact fun h => ⟨res, max, rfl, rfl, h⟩
      · intro ⟨res', max', h1, h2, h⟩
        cases h1
        cases h2
        exact h

theorem claimMmioResources_step (hspace : c.2.space = .memory) (hmemory : Tiles 0 (2 ^ mbits) p.memory) (hmbits : mbits < 64)
    (hrange : Collected (assigned c) c (s.acpiRbRes c)) (hfuel : 2 ^ 64 < fuel) :
    ∃ r, claimMmioResources p c.1 (p.next c.1) c.2 fuel s = some r ∧ Step p s r.2 c := by
  have hc : c.2 ≠ .bus := by
    intro h
    rw [h] at hspace
    cases hspace
  unfold claimMmioResources
  by_cases hdxe : p.dxe ≠ .success
  · rw [if_pos hdxe]
    exact ⟨_, rfl, Step.same hc (Or.inr fun h => hdxe h.1)⟩
  · rw [if_neg hdxe]
    by_cases hlen : (s.acpiRbRes c).len = 0
    · rw [if_pos hlen]
      exact ⟨_, rfl, Step.same hc (Or.inl hlen)⟩
    · rw [if_neg hlen]
      by_cases haddress : (s.acpiRbRes c).allocType = .address
      · rw [if_pos haddress]
        exact ⟨_, rfl, Step.same hc (Or.inr fun h => h.2 ⟨hspace, haddress⟩)⟩
      · rw [if_neg haddress]
        have htiles : Tiles 0 (2 ^ mbits) (p.map c.2.space) := by rwa [hspace]
        obtain ⟨s', hrun, hstep⟩ := claimResources_step hc htiles hmbits hlen hrange
          ⟨not_not.mp hdxe, fun h => haddress h.2⟩ hfuel
        refine ⟨(.success, s'), ?_, hstep⟩
        rw [← hrun]
        unfold Platform.claims Platform.map
        rw [hspace]

theorem claimIoResources_step {rb : Root} (hio : Tiles 0 (2 ^ ibits) p.io) (hibits : ibits < 64)
    (hrange : Collected (assigned (rb, .io)) (rb, .io) (s.acpiRbRes (rb, .io))) (hfuel : 2 ^ 64 < fuel) :
    ∃ r, claimIoResources p rb (p.next rb) fuel s = some r ∧ Step p s r.2 (rb, .io) := by
  have hc : AcpiResType.io ≠ .bus := by decide
  unfold claimIoResources
  by_cases hdxe : p.dxe ≠ .success
  · rw [if_pos hdxe]
    exact ⟨_, rfl, Step.same hc (Or.inr fun h => hdxe h.1)⟩
  · rw [if_neg hdxe]
    by_cases hlen : (s.acpiRbRes (rb, .io)).len = 0
    · rw [if_pos hlen]
      exact ⟨_, rfl, Step.same hc (Or.inl hlen)⟩
    · rw [if_neg hlen]
      have hext : Extended p s (rb, .io) := ⟨not_not.mp hdxe, fun h => by cases h.1⟩
      obtain ⟨s', hrun, hstep⟩ := claimResources_step (c := (rb, .io)) hc hio hibits hlen hrange hext hfuel
      exact ⟨_, hrun, hstep⟩

/-- A call ends, and does what it does. -/
theorem ajustAcpiResource_step (hmemory : Tiles 0 (2 ^ mbits) p.memory) (hmbits : mbits < 64) (hio : Tiles 0 (2 ^ ibits) p.io)
    (hibits : ibits < 64) (hrange : Collected (assigned c) c (s.acpiRbRes c)) (hfuel : 2 ^ 64 < fuel) :
    ∃ r, ajustAcpiResource p c.1 c.2 fuel s = some r ∧ Step p s r.2 c := by
  obtain ⟨rb, t⟩ := c
  cases t with
  | bus => exact ⟨_, rfl, ajustBus_step rb (hrange.bus rfl)⟩
  | io =>
    obtain ⟨r, hrun, hstep⟩ := claimIoResources_step hio hibits hrange hfuel
    exact ⟨_, congrArg (Option.map _) hrun, hstep⟩
  | mmio32 =>
    obtain ⟨r, hrun, hstep⟩ := claimMmioResources_step (c := (rb, .mmio32)) rfl hmemory hmbits hrange hfuel
    exact ⟨_, congrArg (Option.map _) hrun, hstep⟩
  | mmio64 =>
    obtain ⟨r, hrun, hstep⟩ := claimMmioResources_step (c := (rb, .mmio64)) rfl hmemory hmbits hrange hfuel
    exact ⟨_, congrArg (Option.map _) hrun, hstep⟩

/-! ## All calls -/

/-- The windows of some calls are what they are for, next to those of the calls `done`. -/
structure Good (p : Platform) (assigned : Call → List Assigned) (done cs : List Call) (s : Windows) : Prop where
  sufficient : ∀ c ∈ cs, ∀ x ∈ assigned c, ∀ a, x.Has a → (s.acpiRbRes c).Covers a
  clean : ∀ c ∈ cs, ∀ a, (s.acpiRbRes c).Covers a → ¬ Elsewhere p c a
  earlier : ∀ c ∈ cs, ∀ d ∈ done, Apart s c d
  disjoint : ∀ c ∈ cs, ∀ d ∈ cs, Apart s c d

theorem Apart.symm {d : Call} (h : Apart s c d) : Apart s d c :=
  fun hne hspace a ha => h (Ne.symm hne) hspace.symm a ⟨ha.2, ha.1⟩

theorem Apart.self (s : Windows) (c : Call) : Apart s c c := fun hne => absurd rfl hne

variable {done cs : List Call}

/-- The first call and the others. -/
theorem good_cons :
    Good p assigned done (c :: cs) s ↔ Good p assigned done [c] s ∧ Good p assigned (c :: done) cs s := by
  constructor
  · intro h
    constructor
    · have hmem : ∀ d ∈ [c], d ∈ c :: cs := fun d hd => by
        rw [List.mem_singleton.mp hd]
        exact List.mem_cons_self
      exact ⟨fun d hd => h.sufficient d (hmem d hd), fun d hd => h.clean d (hmem d hd), fun d hd => h.earlier d (hmem d hd),
        fun d hd d' hd' => h.disjoint d (hmem d hd) d' (hmem d' hd')⟩
    · have hmem : ∀ d ∈ cs, d ∈ c :: cs := fun d hd => List.mem_cons_of_mem c hd
      refine ⟨fun d hd => h.sufficient d (hmem d hd), fun d hd => h.clean d (hmem d hd), fun d hd d' hd' => ?_,
        fun d hd d' hd' => h.disjoint d (hmem d hd) d' (hmem d' hd')⟩
      rcases List.mem_cons.mp hd' with rfl | hd'
      · exact h.disjoint d (hmem d hd) d' List.mem_cons_self
      · exact h.earlier d (hmem d hd) d' hd'
  · intro ⟨h1, h2⟩
    have hc : c ∈ [c] := List.mem_singleton_self c
    refine ⟨fun d hd => ?_, fun d hd => ?_, fun d hd => ?_, fun d hd d' hd' => ?_⟩
    · rcases List.mem_cons.mp hd with rfl | hin
      · exact h1.sufficient d hc
      · exact h2.sufficient d hin
    · rcases List.mem_cons.mp hd with rfl | hin
      · exact h1.clean d hc
      · exact h2.clean d hin
    · rcases List.mem_cons.mp hd with rfl | hin
      · exact h1.earlier d hc
      · exact fun d' hd' => h2.earlier d hin d' (List.mem_cons_of_mem c hd')
    · rcases List.mem_cons.mp hd with rfl | hin
      · rcases List.mem_cons.mp hd' with rfl | hin'
        · exact Apart.self s d'
        · exact (h2.earlier d' hin' d List.mem_cons_self).symm
      · rcases List.mem_cons.mp hd' with rfl | hin'
        · exact h2.earlier d hin d' List.mem_cons_self
        · exact h2.disjoint d hin d' hin'

/-- What is added to a range is not in it. -/
theorem Beside.not_covers (h : Beside p s c a) : ¬ (s.acpiRbRes c).Covers a := by
  intro ⟨_, h1, h2⟩
  have hadded := h.2.2.2
  unfold Added at hadded
  cases hup : (s.acpiRbRes c).allocType.upward with
  | true =>
    rw [hup] at hadded
    have hlt := hadded.1
    omega
  | false =>
    rw [hup] at hadded
    have hlt := hadded.1
    omega

/-- The window of a call that fits is what it is for behind the call, and no other is. -/
theorem Step.good_iff (h : Step p s s' c) (hnew : c ∉ done)
    (hrange : Collected (assigned c) c (s.acpiRbRes c)) :
    Good p assigned done [c] s' ↔ Fits p assigned done s c := by
  have hframe : ∀ d ∈ done, s'.acpiRbRes d = s.acpiRbRes d := fun d hd => h.frame d fun heq => hnew (heq ▸ hd)
  have hc : c ∈ [c] := List.mem_singleton_self c
  constructor
  · intro hgood
    have hnone : ∀ a, (s'.acpiRbRes c).Covers a → ¬ Elsewhere p c a
        ∧ ∀ d ∈ done, c.1 ≠ d.1 → c.2.space = d.2.space → ¬ (s.acpiRbRes d).Covers a := by
      intro a ha
      refine ⟨hgood.clean c hc a ha, fun d hd hne hspace hcovers => ?_⟩
      rw [← hframe d hd] at hcovers
      exact hgood.earlier c hc d hd hne hspace a ⟨ha, hcovers⟩
    constructor
    · intro x hx a ha
      rcases (h.covers a).mp (hgood.sufficient c hc x hx a ha) with hin | hbeside
      · exact hin
      · exact absurd (hrange.range hbeside.1 x hx a ha) hbeside.not_covers
    · exact fun a ha => hnone a ((h.covers a).mpr (Or.inl ha))
    · exact fun a ha => hnone a ((h.covers a).mpr (Or.inr ha))
  · intro hfits
    have hnone : ∀ a, (s'.acpiRbRes c).Covers a → ¬ Elsewhere p c a
        ∧ ∀ d ∈ done, c.1 ≠ d.1 → c.2.space = d.2.space → ¬ (s.acpiRbRes d).Covers a := by
      intro a ha
      rcases (h.covers a).mp ha with ha | ha
      · exact hfits.remains a ha
      · exact hfits.beside a ha
    constructor
    · intro d hd x hx a ha
      rw [List.mem_singleton.mp hd] at hx ⊢
      exact (h.covers a).mpr (Or.inl (hfits.kept x hx a ha))
    · intro d hd
      rw [List.mem_singleton.mp hd]
      exact fun a ha => (hnone a ha).1
    · intro d hd d' hd' hne hspace a ha
      rw [List.mem_singleton.mp hd] at hne hspace ha
      rw [hframe d' hd'] at ha
      exact (hnone a ha.1).2 d' hd' hne hspace ha.2
    · intro d hd d' hd'
      rw [List.mem_singleton.mp hd, List.mem_singleton.mp hd']
      exact Apart.self s' c

/-- Windows that are the same. -/
theorem Good.congr (h : ∀ d, d ∈ done ∨ d ∈ cs → s'.acpiRbRes d = s.acpiRbRes d)
    (hgood : Good p assigned done cs s) : Good p assigned done cs s' := by
  constructor
  · intro c hc
    rw [h c (Or.inr hc)]
    exact hgood.sufficient c hc
  · intro c hc
    rw [h c (Or.inr hc)]
    exact hgood.clean c hc
  · intro c hc d hd
    unfold Apart
    rw [h c (Or.inr hc), h d (Or.inl hd)]
    exact hgood.earlier c hc d hd
  · intro c hc d hd
    unfold Apart
    rw [h c (Or.inr hc), h d (Or.inr hd)]
    exact hgood.disjoint c hc d hd

/-- The calls from a state on: they end, other windows stay, and theirs are what they are for exactly if
each fits in front of its call. -/
theorem ajustAll_spec (hmemory : Tiles 0 (2 ^ mbits) p.memory) (hmbits : mbits < 64) (hio : Tiles 0 (2 ^ ibits) p.io)
    (hibits : ibits < 64) (hfuel : 2 ^ 64 < fuel) : ∀ (cs done : List Call) {s : Windows}, cs.Nodup → (∀ c ∈ cs, c ∉ done) →
    (∀ c ∈ cs, Collected (assigned c) c (s.acpiRbRes c)) →
    ∃ s', ajustAll p fuel cs s = some s' ∧ (∀ d, d ∉ cs → s'.acpiRbRes d = s.acpiRbRes d)
      ∧ (Good p assigned done cs s' ↔ AllFit p assigned fuel done cs s)
  | [], done, s, _, _, _ => by
    refine ⟨s, rfl, fun _ _ => rfl, iff_of_true ⟨?_, ?_, ?_, ?_⟩ trivial⟩ <;> exact fun c hc => absurd hc List.not_mem_nil
  | c :: cs, done, s, hnodup, hnew, hrange => by
    obtain ⟨hfirst, hrest⟩ := List.nodup_cons.mp hnodup
    have hc : c ∉ done := hnew c List.mem_cons_self
    obtain ⟨r, hrun, hstep⟩ := ajustAcpiResource_step hmemory hmbits hio hibits (hrange c List.mem_cons_self) hfuel
    have hne : ∀ d ∈ cs, d ≠ c := fun d hd heq => hfirst (heq ▸ hd)
    obtain ⟨s', hruns, hframe, hgood⟩ := ajustAll_spec hmemory hmbits hio hibits hfuel cs (c :: done) hrest
      (fun d hd hin => by
        rcases List.mem_cons.mp hin with heq | hin
        · exact hne d hd heq
        · exact hnew d (List.mem_cons_of_mem c hd) hin)
      (fun d hd => by
        rw [hstep.frame d (hne d hd)]
        exact hrange d (List.mem_cons_of_mem c hd))
    refine ⟨s', ?_, fun d hd => ?_, ?_⟩
    · show (ajustAcpiResource p c.1 c.2 fuel s).bind _ = _
      rw [hrun]
      exact hruns
    · rw [hframe d fun hin => hd (List.mem_cons_of_mem c hin)]
      exact hstep.frame d fun heq => hd (heq ▸ List.mem_cons_self)
    · -- the window of the first call is not changed by the others
      have hstay : ∀ d, d ∈ done ∨ d ∈ [c] → s'.acpiRbRes d = r.2.acpiRbRes d := by
        intro d hd
        refine hframe d fun hin => ?_
        rcases hd with hd | hd
        · exact hnew d (List.mem_cons_of_mem c hin) hd
        · exact hne d hin (List.mem_singleton.mp hd)
      have hsame : Good p assigned done [c] s' ↔ Good p assigned done [c] r.2 :=
        ⟨Good.congr fun d hd => (hstay d hd).symm, Good.congr hstay⟩
      rw [good_cons, hsame, hstep.good_iff hc (hrange c List.mem_cons_self), hgood]
      show _ ↔ Fits p assigned done s c ∧ ∀ r, ajustAcpiResource p c.1 c.2 fuel s = some r → _
      refine and_congr_right fun _ => ⟨fun h r' hr' => ?_, fun h => h r hrun⟩
      rw [hrun] at hr'
      cases hr'
      exact h

/-- No call is made twice. -/
theorem calls_nodup (p : Platform) : p.calls.Nodup := by
  have hkinds : ∀ {i j : Nat} {c : Call},
      c ∈ [AcpiResType.bus, .io, .mmio32, .mmio64].map (fun t => ((i, j), t)) → c.1 = (i, j) := by
    intro i j c hc
    obtain ⟨t, -, rfl⟩ := List.mem_map.mp hc
    rfl
  unfold Platform.calls
  refine List.nodup_flatMap.mpr ⟨fun i _ => List.nodup_flatMap.mpr ⟨fun j _ => ?_, ?_⟩, ?_⟩
  · exact List.Nodup.map (fun t t' h => (Prod.mk.inj h).2) (by decide)
  · refine List.nodup_range.imp fun {j j'} hne c hc hc' => hne ?_
    exact (Prod.mk.inj ((hkinds hc).symm.trans (hkinds hc'))).2
  · refine List.nodup_range.imp fun {i i'} hne c hc hc' => hne ?_
    obtain ⟨j, -, hc⟩ := List.mem_flatMap.mp hc
    obtain ⟨j', -, hc'⟩ := List.mem_flatMap.mp hc'
    exact (Prod.mk.inj ((hkinds hc).symm.trans (hkinds hc'))).1

end

/-! ## Fuel -/

section

variable {p : Platform} {s : Windows} {fuel fuel' : Nat}
variable {rb : Root} {next : Option Root} {t : AcpiResType} {r r' : Gcd.Status × Windows}

theorem claimResources_unique {claims : Entry → Bool} {map : Gcd.Map} (h : claimResources claims map rb next t fuel s = some r)
    (h' : claimResources claims map rb next t fuel' s = some r') : r = r' := by
  obtain ⟨x, hx, rfl⟩ := Option.map_eq_some_iff.mp h
  obtain ⟨x', hx', rfl⟩ := Option.map_eq_some_iff.mp h'
  rw [loop_unique hx hx']

theorem claimMmioResources_unique
    (h : claimMmioResources p rb next t fuel s = some r) (h' : claimMmioResources p rb next t fuel' s = some r') : r = r' := by
  unfold claimMmioResources at h h'
  by_cases hdxe : p.dxe ≠ .success
  · rw [if_pos hdxe] at h h'
    exact Option.some.inj (h.symm.trans h')
  · rw [if_neg hdxe] at h h'
    by_cases hlen : (s.acpiRbRes (rb, t)).len = 0
    · rw [if_pos hlen] at h h'
      exact Option.some.inj (h.symm.trans h')
    · rw [if_neg hlen] at h h'
      by_cases haddress : (s.acpiRbRes (rb, t)).allocType = .address
      · rw [if_pos haddress] at h h'
        exact Option.some.inj (h.symm.trans h')
      · rw [if_neg haddress] at h h'
        exact claimResources_unique h h'

theorem claimIoResources_unique
    (h : claimIoResources p rb next fuel s = some r) (h' : claimIoResources p rb next fuel' s = some r') : r = r' := by
  unfold claimIoResources at h h'
  by_cases hdxe : p.dxe ≠ .success
  · rw [if_pos hdxe] at h h'
    exact Option.some.inj (h.symm.trans h')
  · rw [if_neg hdxe] at h h'
    by_cases hlen : (s.acpiRbRes (rb, .io)).len = 0
    · rw [if_pos hlen] at h h'
      exact Option.some.inj (h.symm.trans h')
    · rw [if_neg hlen] at h h'
      exact claimResources_unique h h'

theorem ajustAcpiResource_unique
    (h : ajustAcpiResource p rb t fuel s = some r) (h' : ajustAcpiResource p rb t fuel' s = some r') : r = r' := by
  have hmmio : ∀ t {r r' : Gcd.Status × Windows},
      (claimMmioResources p rb (p.next rb) t fuel s).map (fun r => (Gcd.Status.success, r.2)) = some r →
      (claimMmioResources p rb (p.next rb) t fuel' s).map (fun r => (Gcd.Status.success, r.2)) = some r' → r = r' := by
    intro t r r' h h'
    obtain ⟨x, hx, rfl⟩ := Option.map_eq_some_iff.mp h
    obtain ⟨x', hx', rfl⟩ := Option.map_eq_some_iff.mp h'
    rw [claimMmioResources_unique hx hx']
  cases t with
  | bus => exact Option.some.inj (h.symm.trans h')
  | io =>
    obtain ⟨x, hx, rfl⟩ := Option.map_eq_some_iff.mp h
    obtain ⟨x', hx', rfl⟩ := Option.map_eq_some_iff.mp h'
    rw [claimIoResources_unique hx hx']
  | mmio32 => exact hmmio .mmio32 h h'
  | mmio64 => exact hmmio .mmio64 h h'

/-- All fuel that is enough gives the same windows. -/
theorem ajustAll_unique : ∀ {cs : List Call} {s w w' : Windows}, ajustAll p fuel cs s = some w →
    ajustAll p fuel' cs s = some w' → w = w'
  | [], s, w, w', h, h' => Option.some.inj (h.symm.trans h')
  | c :: cs, s, w, w', h, h' => by
    obtain ⟨r, hr, hrest⟩ := Option.bind_eq_some_iff.mp h
    obtain ⟨r', hr', hrest'⟩ := Option.bind_eq_some_iff.mp h'
    rw [← ajustAcpiResource_unique hr hr'] at hrest'
    exact ajustAll_unique hrest hrest'

end

/-! ## The pass -/

/-- The pass ends, and the windows are what they are for exactly if each fits in front of its call. -/
theorem rbReadyToBoot_sound_iff (p : Platform) (assigned : Call → List Assigned) (s : Windows) {fuel mbits ibits : Nat}
    (hmemory : Tiles 0 (2 ^ mbits) p.memory) (hmbits : mbits < 64) (hio : Tiles 0 (2 ^ ibits) p.io) (hibits : ibits < 64)
    (hrange : ∀ c ∈ p.calls, Collected (assigned c) c (s.acpiRbRes c)) (hfuel : 2 ^ 64 < fuel) :
    ∃ s', rbReadyToBoot p fuel s = some s' ∧ (Sound p assigned s' ↔ AllFit p assigned fuel [] p.calls s) := by
  obtain ⟨s', hrun, -, hgood⟩ := ajustAll_spec hmemory hmbits hio hibits hfuel p.calls [] (calls_nodup p)
    (fun _ _ => List.not_mem_nil) hrange
  refine ⟨s', hrun, ?_⟩
  rw [← hgood]
  constructor
  · exact fun h => ⟨h.sufficient, h.clean, fun _ _ _ hd => absurd hd List.not_mem_nil, h.disjoint⟩
  · exact fun h => ⟨h.sufficient, h.clean, h.disjoint⟩

/-! ### Two root bridges -/

/-- The windows in front of the pass, from the resources that have been placed. -/
def startWindows (placed : Call → List Placed) : Windows where
  acpiRbRes := fun c => if c.2 = .bus then .empty else (placed c).foldl AcpiRes.collect .empty
  tmpTop := fun _ => 0
  tmpBot := fun _ => 0

/-- What has been assigned: the resources that have been placed, and the buses. -/
def assignedTo (p : Platform) (placed : Call → List Placed) (c : Call) : List Assigned :=
  if c.2 = .bus then ((p.root c.1).rbRes.filter (·.isBus)).map fun res => ⟨res.min, res.len⟩
  else (placed c).map fun res => ⟨res.min, res.len⟩

/-- What is placed is collected. -/
theorem startWindows_collected (p : Platform) {placed : Call → List Placed} {B G : Nat}
    (hall : ∀ c, ∀ res ∈ placed c, 0 < res.min ∧ 0 < res.len ∧ res.min + res.len ≤ B ∧ res.max ≤ G)
    (hfits : ∀ c, B + (placed c).length * (G + 1) < 2 ^ 64) (c : Call) :
    Collected (assignedTo p placed c) c ((startWindows placed).acpiRbRes c) := by
  unfold assignedTo startWindows
  dsimp only
  by_cases hc : c.2 = .bus
  · rw [if_pos hc, if_pos hc]
    exact ⟨fun _ => rfl, fun h => absurd rfl h, fun h => absurd hc h⟩
  · rw [if_neg hc, if_neg hc]
    exact collected (hall c) (hfits c) hc

/-- An entry of ports that belongs to a root bridge, or to none. -/
def ports (rbHandle : Option Nat) : Entry := ⟨0, 0, .nonExistent, .io, rbHandle.map fun _ => 9, rbHandle⟩

/-- Two root bridges with a range of ports each. They have been allocated from the top down, the first one
first, as `AllocateResources` does it. -/
def twoBridges : Platform where
  dxe := .success
  memory := window
  io := [⟨0, 0xDFFF, ports none⟩, ⟨0xE000, 0xEFFF, ports (some 2)⟩, ⟨0xF000, 0xFFFF, ports (some 1)⟩]
  hosts := [[⟨some 1, [⟨true, 0, 0x3F, 0x40⟩]⟩, ⟨some 2, [⟨true, 0x80, 0x8F, 0x10⟩]⟩]]

def placedPorts (c : Call) : List Placed :=
  if c = ((0, 0), .io) then [⟨0xF000, 0xFFF, 0x1000⟩]
  else if c = ((0, 1), .io) then [⟨0xE000, 0xFFF, 0x1000⟩]
  else []

theorem twoBridges_io : Tiles 0 (2 ^ 16) twoBridges.io := by
  unfold twoBridges Tiles Tiles Tiles Tiles
  decide

theorem placedPorts_collected (c : Call) :
    Collected (assignedTo twoBridges placedPorts c) c ((startWindows placedPorts).acpiRbRes c) := by
  have hcases : ∀ c, placedPorts c = [⟨0xF000, 0xFFF, 0x1000⟩] ∨ placedPorts c = [⟨0xE000, 0xFFF, 0x1000⟩] ∨ placedPorts c = [] := by
    intro c
    unfold placedPorts
    by_cases h0 : c = ((0, 0), .io)
    · exact Or.inl (if_pos h0)
    · rw [if_neg h0]
      by_cases h1 : c = ((0, 1), .io)
      · exact Or.inr (Or.inl (if_pos h1))
      · exact Or.inr (Or.inr (if_neg h1))
  refine startWindows_collected (B := 0x10000) (G := 0xFFF) twoBridges (fun c res hres => ?_) (fun c => ?_) c
  · rcases hcases c with h | h | h
    · rw [h, List.mem_singleton] at hres
      rw [hres]
      decide
    · rw [h, List.mem_singleton] at hres
      rw [hres]
      decide
    · rw [h] at hres
      exact absurd hres List.not_mem_nil
  · rcases hcases c with h | h | h <;> rw [h] <;> decide

theorem rbReadyToBoot_sound_iff_twoBridges : ∃ s',
    rbReadyToBoot twoBridges (2 ^ 64 + 1) (startWindows placedPorts) = some s'
    ∧ (Sound twoBridges (assignedTo twoBridges placedPorts) s' ↔
      AllFit twoBridges (assignedTo twoBridges placedPorts) (2 ^ 64 + 1) [] twoBridges.calls (startWindows placedPorts)) :=
  rbReadyToBoot_sound_iff twoBridges (assignedTo twoBridges placedPorts) (startWindows placedPorts) window_tiles (by decide)
    twoBridges_io (by decide) (fun c _ => placedPorts_collected c) (by decide)

/-- The window of the second root bridge is above its ports: it begins behind the window of the first one. -/
theorem not_rbReadyToBoot_sound : ¬ ∃ fuel s', rbReadyToBoot twoBridges fuel (startWindows placedPorts) = some s'
    ∧ Sound twoBridges (assignedTo twoBridges placedPorts) s' := by
  intro ⟨fuel, s', hrun, hsound⟩
  have hmin : (rbReadyToBoot twoBridges 8 (startWindows placedPorts)).map (fun s => (s.acpiRbRes ((0, 1), .io)).min) =
      some 0x10000 := by
    decide +kernel
  obtain ⟨s₁, hrun₁, hmin⟩ := Option.map_eq_some_iff.mp hmin
  rw [← ajustAll_unique hrun hrun₁] at hmin
  have hcovers := hsound.sufficient ((0, 1), .io) (by decide +kernel) ⟨0xE000, 0x1000⟩ (by decide +kernel) 0xE000
    ⟨Nat.le_refl _, by decide⟩
  have hle := hcovers.2.1
  rw [hmin] at hle
  omega

end BayTrail.Pci
