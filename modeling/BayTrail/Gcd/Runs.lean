import BayTrail.Gcd.FirstFit
import Mathlib.Order.Bounds.Basic

/-!
# Runs of the services

What holds in every state that the services reach: the map is one of the whole space, what has been
allocated belongs to its owner until it is freed, and an allocation from the bottom up gets the lowest
range there is.
-/

namespace BayTrail.Gcd.Services

open BayTrail.Lib BayTrail.Lib.Region

variable {bits : Nat} {map : Map} {space space' : Space} {env : Environment} {q : Request} {qs : List (Environment × Request)} {a : Nat}

/-! ## Steps and runs -/

variable {status : Status} {base : Nat}
variable (env) in
theorem perform_means (h : Represents bits map space) (hbits : bits < 64) (hstraight : q.Straight) {map' : Map} (hq : q.perform env map = (status, base, map')) :
    ∃ space', q.Means bits env space status base space' ∧ Represents bits map' space' := by
  cases q with
  | convert op baseAddress length =>
    unfold Request.perform at hq
    dsimp only at hq
    cases hvalid : op.valid with
    | false =>
      rw [hvalid] at hq
      cases hq
      exact ⟨space, .invalid (Or.inl hvalid), h⟩
    | true =>
      rw [hvalid] at hq
      cases hq
      exact convertSpace_converts h hvalid hstraight rfl
  | allocate type kind alignment length base imageHandle deviceHandle =>
    obtain ⟨hbase, hlength, haddress⟩ := hstraight
    exact allocateSpace_allocates h hbits hbase (by omega) (fun _ => hlength) haddress hq

theorem run_meant (hbits : bits < 64) : ∀ (qs : List (Environment × Request)) {map : Map} {space : Space},
    Represents bits map space → (∀ p ∈ qs, p.2.Straight) →
    ∃ space', Meant bits space qs (run qs map).1 space' ∧ Represents bits (run qs map).2 space'
  | [], _, space, h, _ => ⟨space, .nil, h⟩
  | (env, q) :: qs, map, space, h, hstraight => by
    obtain ⟨hfirst, hrest⟩ := List.forall_mem_cons.mp hstraight
    obtain ⟨space', hmeans, h'⟩ := perform_means env h hbits hfirst rfl
    obtain ⟨space'', hmeant, h''⟩ := run_meant hbits qs h' hrest
    exact ⟨space'', .cons hmeans hmeant, h''⟩

def nothing : Entry := ⟨0, 0, .nonExistent, .nonExistent, none, none⟩

theorem represents_initialMap : Represents bits (initialMap bits) (fun _ => nothing) := by
  have hpow := Nat.two_pow_pos bits
  refine ⟨⟨rfl, Nat.zero_le _, Nat.sub_add_cancel hpow⟩, fun a ha => ⟨_, List.mem_singleton_self _, Nat.zero_le a, ?_, rfl⟩⟩
  exact Nat.le_sub_one_of_lt ha

/-- Every run of the services from the beginning is one of the space, and leaves the map of what the space has become. -/
theorem services_refine (hbits : bits < 64) (qs : List (Environment × Request)) (hstraight : ∀ p ∈ qs, p.2.Straight) :
    ∃ space, Meant bits (fun _ => nothing) qs (run qs (initialMap bits)).1 space
      ∧ Represents bits (run qs (initialMap bits)).2 space :=
  run_meant hbits qs represents_initialMap hstraight

/-- A processor that takes all attributes, and memory for two entries. -/
def plenty : Environment := ⟨true, some fun _ _ _ => true⟩

/-- 8 KB at 4 KB, for the handle 1. -/
def twoPages : Request := .allocate .address (.memory .nonExistent) 12 0x2000 0x1000 (some 1) none

/-- Memory is added, given to an owner and refused to another; it cannot be removed before it has been freed, for
which there has to be memory for the entries. -/
def memoryComesAndGoes : List (Environment × Request) :=
  [(plenty, .convert (.addMemory .systemMemory 0xF) 0x1000 0x4000),
    (plenty, .allocate .maxAddressSearchTopDown (.memory .systemMemory) 12 0x2000 0xFFFF (some 1) none),
    (plenty, .allocate .anySearchBottomUp (.memory .systemMemory) 12 0x3000 0 (some 2) none),
    (plenty, .convert .removeMemory 0x3000 0x2000),
    (⟨false, none⟩, .convert .free 0x3000 0x2000),
    (⟨true, none⟩, .convert (.setAttributes EFI_MEMORY_WB) 0x1000 0x1000),
    (plenty, .convert .free 0x3000 0x2000)]

theorem services_refine_comes :
    (run memoryComesAndGoes (initialMap 36)).1 = [(.success, 0x1000), (.success, 0x3000), (.notFound, 0x1000),
        (.accessDenied, 0x3000), (.outOfResources, 0x3000), (.notAvailableYet, 0x1000), (.success, 0x3000)]
      ∧ ∃ space, Meant 36 (fun _ => nothing) memoryComesAndGoes (run memoryComesAndGoes (initialMap 36)).1 space
        ∧ Represents 36 (run memoryComesAndGoes (initialMap 36)).2 space := by
  refine ⟨by decide +kernel, services_refine (by decide) memoryComesAndGoes fun p hp => ?_⟩
  simp only [memoryComesAndGoes, List.mem_cons, List.not_mem_nil, or_false] at hp
  rcases hp with rfl | rfl | rfl | rfl | rfl | rfl | rfl <;> simp [Request.Straight]

/-- The maps that runs of the services lead to. -/
def Reachable (bits : Nat) (map : Map) : Prop :=
  ∃ qs, (∀ p ∈ qs, p.2.Straight) ∧ (run qs (initialMap bits)).2 = map

theorem Reachable.represents (hbits : bits < 64) (h : Reachable bits map) : ∃ space, Represents bits map space := by
  obtain ⟨qs, hstraight, rfl⟩ := h
  obtain ⟨space, -, hrep⟩ := run_meant hbits qs represents_initialMap hstraight
  exact ⟨space, hrep⟩

/-! ## Owners -/

/-- The request is one to free the address. -/
def Request.Frees (a : Nat) : Request → Prop
  | .convert .free base length => base ≤ a ∧ a < base + length
  | _ => False

/-- The request has been granted a range with the address. -/
def Request.Granted (a : Nat) (result : Status × Nat) : Request → Prop
  | .allocate _ _ _ length _ _ _ => result.1 = .success ∧ result.2 ≤ a ∧ a < result.2 + length
  | _ => False

/-- The owner of an entry. -/
def owner (e : Entry) : Option Nat × Option Nat := (e.imageHandle, e.deviceHandle)

/-- A change that is not a release leaves the owner. -/
theorem owner_apply {op : Operation} (hop : op ≠ .free) (e : Entry) : owner (op.apply e) = owner e := by
  cases op with
  | free => exact absurd rfl hop
  | addMemory memoryType capabilities => rfl
  | addIo ioType => rfl
  | removeMemory => rfl
  | removeIo => rfl
  | setAttributes attributes => rfl

theorem checkEntry_free {kind : Kind} {e : Entry} (h : kind.checkEntry e = true) : e.imageHandle = none := by
  cases kind with
  | memory memoryType =>
    unfold Kind.checkEntry at h
    rw [Bool.and_eq_true, decide_eq_true_eq] at h
    exact h.1
  | io ioType =>
    unfold Kind.checkEntry at h
    rw [Bool.and_eq_true, decide_eq_true_eq] at h
    exact h.1

/-- An address with an owner keeps it over a request that does not free it, and is not granted by one. -/
theorem means_owner (hq : q.Means bits env space status base space') (howned : (space a).imageHandle ≠ none)
    (hkeep : ¬ q.Frees a) : owner (space' a) = owner (space a) ∧ ¬ q.Granted a (status, base) := by
  cases q with
  | convert op baseAddress length =>
    refine ⟨?_, fun h => h⟩
    cases hq with
    | invalid _ => rfl
    | outside _ _ _ => rfl
    | refused _ _ _ _ _ _ => rfl
    | noMemory _ _ _ _ => rfl
    | byCpu _ _ _ _ _ => rfl
    | done _ _ _ _ _ =>
      unfold Space.update
      split
      · rename_i hin
        refine owner_apply (fun hfree => ?_) _
        rw [hfree] at hkeep
        exact hkeep hin
      · rfl
  | allocate type kind alignment length b imageHandle deviceHandle =>
    cases hq with
    | invalid _ => exact ⟨rfl, fun h => by cases h.1⟩
    | alignment _ _ => exact ⟨rfl, fun h => by cases h.1⟩
    | none _ _ _ _ => exact ⟨rfl, fun h => by cases h.1⟩
    | noMemory _ _ _ _ _ => exact ⟨rfl, fun h => by cases h.1⟩
    | done _ _ _ _ hpicks =>
      have hout : ¬ (base ≤ a ∧ a < base + length) := fun hin =>
        howned (checkEntry_free (hpicks.fits.free.2 a hin.1 hin.2))
      refine ⟨?_, fun h => hout h.2⟩
      unfold Space.update
      rw [if_neg hout]

theorem meant_owner {results : List (Status × Nat)} (hrun : Meant bits space qs results space')
    (howned : (space a).imageHandle ≠ none) (hkeep : ∀ p ∈ qs, ¬ p.2.Frees a) :
    owner (space' a) = owner (space a) ∧ ∀ p ∈ (qs.map Prod.snd).zip results, ¬ p.1.Granted a p.2 := by
  induction hrun with
  | nil => exact ⟨rfl, fun p hp => (nomatch hp)⟩
  | cons hq hrun ih =>
    obtain ⟨hfirst, hrest⟩ := List.forall_mem_cons.mp hkeep
    obtain ⟨heq, hnot⟩ := means_owner hq howned hfirst
    obtain ⟨heq', hnot'⟩ := ih (fun hnone => howned ((Prod.ext_iff.mp heq).1.symm.trans hnone)) hrest
    exact ⟨heq'.trans heq, List.forall_mem_cons.mpr ⟨hnot, hnot'⟩⟩

/-- The descriptor of an address is what the space is there. -/
theorem descriptor_of_represents (h : Represents bits map space) (hbits : bits < 64) (ha : a < 2 ^ bits) :
    ∃ r, getSpaceDescriptor a map = some r ∧ r.val = space a := by
  have hpow : 2 ^ bits ≤ 2 ^ 63 := Nat.pow_le_pow_right (by decide) (by omega)
  cases hget : getSpaceDescriptor a map with
  | none =>
    have hle := getSpaceDescriptor_none h.tiles (by omega) hget
    omega
  | some r =>
    obtain ⟨hr, hbase, hlast⟩ := getSpaceDescriptor_some h.tiles hget
    exact ⟨r, rfl, ((h.at_iff ha).mp ⟨r, hr, hbase, hlast, rfl⟩).symm⟩

/-- What has been allocated is not granted again while nobody frees it, and its descriptors name the owner. -/
theorem allocation_exclusive (hbits : bits < 64) (hmap : Reachable bits map) {type : AllocateType} {kind : Kind}
    {alignment length base : Nat} {imageHandle deviceHandle : Option Nat}
    (hq : (Request.allocate type kind alignment length base imageHandle deviceHandle).Straight) {base' : Nat} {map' : Map}
    (hperform : (Request.allocate type kind alignment length base imageHandle deviceHandle).perform env map = (.success, base', map'))
    (hqs : ∀ p ∈ qs, p.2.Straight) (hle : base' ≤ a) (hlt : a < base' + length) (hkeep : ∀ p ∈ qs, ¬ p.2.Frees a) :
    (∀ p ∈ (qs.map Prod.snd).zip (run qs map').1, ¬ p.1.Granted a p.2)
      ∧ ∃ r, getSpaceDescriptor a (run qs map').2 = some r ∧ owner r.val = (imageHandle, deviceHandle) := by
  obtain ⟨space, h⟩ := hmap.represents hbits
  obtain ⟨space', hmeans, h'⟩ := perform_means env h hbits hq hperform
  obtain ⟨space'', hmeant, h''⟩ := run_meant hbits qs h' hqs
  cases hmeans with
  | done _ himage _ hlength hpicks =>
    have hupdate : owner (space.update base' length (own imageHandle deviceHandle) a) = (imageHandle, deviceHandle) := by
      unfold Space.update
      rw [if_pos ⟨hle, hlt⟩]
      rfl
    have howned : (space.update base' length (own imageHandle deviceHandle) a).imageHandle ≠ none :=
      fun hnone => himage ((Prod.ext_iff.mp hupdate).1.symm.trans hnone)
    obtain ⟨hsame, hnot⟩ := meant_owner hmeant howned hkeep
    have hinside := hpicks.fits.free.1
    obtain ⟨r, hr, hval⟩ := descriptor_of_represents h'' hbits (show a < 2 ^ bits by omega)
    exact ⟨hnot, r, hr, by rw [hval, hsame, hupdate]⟩

theorem allocation_exclusive_once :
    (∀ p ∈ ([(plenty, Request.convert .removeMemory 0 0x1000)].map Prod.snd).zip
        (run [(plenty, .convert .removeMemory 0 0x1000)] (twoPages.perform plenty (initialMap 36)).2.2).1, ¬ p.1.Granted 0x1fff p.2)
      ∧ ∃ r, getSpaceDescriptor 0x1fff
          (run [(plenty, .convert .removeMemory 0 0x1000)] (twoPages.perform plenty (initialMap 36)).2.2).2 = some r
        ∧ owner r.val = (some 1, none) := by
  have hstraight : twoPages.Straight := ⟨by decide, by decide, fun _ => by decide⟩
  have hperform : twoPages.perform plenty (initialMap 36) = (.success, 0x1000, (twoPages.perform plenty (initialMap 36)).2.2) := rfl
  have hreachable : Reachable 36 (initialMap 36) := ⟨[], fun _ hp => (nomatch hp), rfl⟩
  have hlater : (Request.convert .removeMemory 0 0x1000).Straight := show 0 + 0x1000 ≤ 2 ^ 64 by decide
  exact allocation_exclusive (by decide) hreachable hstraight hperform (List.forall_mem_singleton.mpr hlater) (by decide) (by decide)
    (List.forall_mem_singleton.mpr fun h => h)

/-! ## First fit -/

/-- From the bottom up an allocation gets the lowest range that it may have, and is refused if there is none. -/
theorem bottomUp_first_fit (hbits : bits < 64) (hmap : Reachable bits map) {type : AllocateType}
    (htype : type = .anySearchBottomUp ∨ type = .maxAddressSearchBottomUp) (hpool : env.pool = true) (kind : Kind)
    {alignment length base : Nat} {imageHandle deviceHandle : Option Nat} (himage : imageHandle ≠ none) (halignment : alignment < 64)
    (hlength : 0 < length) (hlength' : length ≤ 2 ^ 63) :
    ∃ space, Represents bits map space ∧ ∃ status base' map',
      allocateSpace env type kind alignment length base imageHandle deviceHandle map = (status, base', map')
      ∧ ((status = .success ∧ IsLeast {b | Fits bits kind alignment length (type.limit bits length base) space b} base'
          ∧ Represents bits map' (space.update base' length (own imageHandle deviceHandle)))
        ∨ status = .notFound ∧ map' = map ∧ ∀ b, ¬ Fits bits kind alignment length (type.limit bits length base) space b) := by
  obtain ⟨space, h⟩ := hmap.represents hbits
  have hpow : 2 ^ bits ≤ 2 ^ 63 := Nat.pow_le_pow_right (by decide) (by omega)
  have hfirst : FindsFirst bits map kind alignment length (type.limit bits length base) space
      (findSpace type kind alignment length base map) := by
    have hup := fun maxAddress => searchUp_first kind h hbits hlength hlength' halignment map.length 0 base
      (Nat.le_refl _) (fun _ (_ : Fits bits kind alignment length maxAddress space _) k _ hk => absurd hk (Nat.not_lt_zero k))
    rcases htype with rfl | rfl
    · unfold findSpace
      dsimp only
      rw [endAddress_eq h]
      exact hup (2 ^ bits - 1)
    · exact hup base
  refine ⟨space, h, ?_⟩
  unfold allocateSpace
  rw [if_neg himage, if_neg (Nat.not_le_of_lt halignment), if_neg (Nat.ne_of_gt hlength)]
  generalize findSpace type kind alignment length base map = found at hfirst
  obtain ⟨base', c⟩ := found
  cases c with
  | none => exact ⟨_, _, _, rfl, Or.inr ⟨rfl, rfl, hfirst.none rfl⟩⟩
  | some c =>
    obtain ⟨hc, husable, hfits, hleast⟩ := hfirst.some c rfl
    obtain ⟨m, m', hfound⟩ := husable.found
    have hc : c.base = base' := hc
    have hinside := hfits.free.1
    have hinside : base' + length ≤ 2 ^ bits := hinside
    rw [hc] at hfound
    dsimp only
    rw [hpool]
    refine ⟨_, _, _, rfl, Or.inl ⟨rfl, ⟨hfits, fun b hb => hleast b hb⟩, ?_⟩⟩
    rw [last_eq hlength (by omega)]
    exact represents_convert h hfound hlength _

theorem bottomUp_first_fit_once :
    ∃ space, Represents 36 (initialMap 36) space ∧ ∃ status base' map',
      allocateSpace plenty .anySearchBottomUp (.memory .nonExistent) 12 0x2000 0 (some 1) none (initialMap 36) = (status, base', map')
      ∧ ((status = .success
          ∧ IsLeast {b | Fits 36 (.memory .nonExistent) 12 0x2000 (AllocateType.anySearchBottomUp.limit 36 0x2000 0) space b} base'
          ∧ Represents 36 map' (space.update base' 0x2000 (own (some 1) none)))
        ∨ status = .notFound ∧ map' = initialMap 36
          ∧ ∀ b, ¬ Fits 36 (.memory .nonExistent) 12 0x2000 (AllocateType.anySearchBottomUp.limit 36 0x2000 0) space b) :=
  bottomUp_first_fit (by decide) ⟨[], fun _ hp => (nomatch hp), rfl⟩ (Or.inl rfl) rfl (.memory .nonExistent) (by decide) (by decide)
    (by decide) (by decide)

end BayTrail.Gcd.Services
