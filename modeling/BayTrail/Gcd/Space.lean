import BayTrail.Gcd.FirstFit

/-!
# The memory space of the host bridge

What the PCI host bridge asks of the services: `AllocateMemorySpace` from the top down, and `FreeMemorySpace`.
Both are requests of the services, and what they do to the space is said here of the entries of the map.
-/

namespace BayTrail.Gcd

open BayTrail.Lib BayTrail.Lib.Region Services

/-- `AllocateMemorySpace` with `EfiGcdAllocateMaxAddressSearchTopDown`: the status, `*BaseAddress` and the
map. `pool` says whether there is memory for two more entries. -/
def allocateMemorySpace (pool : Bool) (memoryType : MemoryType) (alignment length baseAddress : Nat)
    (imageHandle deviceHandle : Option Nat) (map : Map) : Status × Nat × Map :=
  allocateSpace ⟨pool, none⟩ .maxAddressSearchTopDown (.memory memoryType) alignment length baseAddress imageHandle
    deviceHandle map

/-- `FreeMemorySpace`, which is `CoreConvertSpace`. -/
def freeMemorySpace (pool : Bool) (baseAddress length : Nat) (map : Map) : Status × Map :=
  convertSpace ⟨pool, none⟩ .free baseAddress length map

section

variable {bits : Nat} {map map' : Map} {space : Space} {memoryType : MemoryType} {alignment length base a : Nat} {e : Entry}
  {imageHandle deviceHandle : Option Nat}

/-- A map without a gap is one of a space. -/
theorem represents_of_tiles (htiles : Tiles 0 (2 ^ bits) map) : ∃ space, Represents bits map space := by
  have hexists : ∀ a, ∃ e, a < 2 ^ bits → At map a e := by
    intro a
    by_cases ha : a < 2 ^ bits
    · obtain ⟨e, he⟩ := htiles.at_exists (Nat.zero_le a) ha
      exact ⟨e, fun _ => he⟩
    · exact ⟨⟨0, 0, .nonExistent, .nonExistent, none, none⟩, fun h => absurd h ha⟩
  choose space hspace using hexists
  exact ⟨space, htiles, hspace⟩

/-- A map in which the entries of a range have other handles than before. -/
structure Owned (bits : Nat) (map map' : Map) (base last : Nat) (imageHandle deviceHandle : Option Nat) : Prop where
  tiles : Tiles 0 (2 ^ bits) map'
  range : ∀ a e, base ≤ a → a ≤ last →
    (At map' a e ↔ ∃ e', At map a e' ∧ { e' with imageHandle := imageHandle, deviceHandle := deviceHandle } = e)
  frame : ∀ a e, ¬ (base ≤ a ∧ a ≤ last) → (At map' a e ↔ At map a e)

theorem owned_of_update (h : Represents bits map space) (hlength : 0 < length) (hinside : base + length ≤ 2 ^ bits)
    (h' : Represents bits map' (space.update base length (own imageHandle deviceHandle))) :
    Owned bits map map' base (base + length - 1) imageHandle deviceHandle := by
  refine ⟨h'.tiles, fun a e hle hlast => ?_, fun a e hout => ?_⟩
  · have ha : a < 2 ^ bits := by omega
    rw [h'.at_iff ha, Space.update, if_pos ⟨hle, by omega⟩]
    constructor
    · intro he
      exact ⟨space a, h.at_address a ha, he⟩
    · rintro ⟨e', he', he⟩
      rw [(h.at_iff ha).mp he']
      exact he
  · by_cases ha : a < 2 ^ bits
    · rw [h'.at_iff ha, h.at_iff ha, Space.update, if_neg (by omega)]
    · exact iff_of_false (fun he => ha (h'.tiles.at_bounds he).2) (fun he => ha (h.tiles.at_bounds he).2)

/-- A range that has been allocated: it could be used, and it has an owner. -/
structure Allocated (bits : Nat) (map map' : Map) (memoryType : MemoryType) (base length : Nat)
    (imageHandle deviceHandle : Option Nat) : Prop where
  nonempty : 0 < length
  image : imageHandle ≠ none
  inside : base + length ≤ 2 ^ bits
  free : ∀ a, base ≤ a → a < base + length → ∃ e, At map a e ∧ (Kind.memory memoryType).checkEntry e = true
  owned : Owned bits map map' base (base + length - 1) imageHandle deviceHandle

theorem Allocated.owner (h : Allocated bits map map' memoryType base length imageHandle deviceHandle) (h1 : base ≤ a)
    (h2 : a < base + length) (he : At map' a e) : e.imageHandle ≠ none := by
  obtain ⟨e', -, heq⟩ := (h.owned.range a e h1 (by omega)).mp he
  rw [← heq]
  exact h.image

theorem allocateMemorySpace_spec (pool : Bool) {baseAddress : Nat} (htiles : Tiles 0 (2 ^ bits) map) (hbits : bits < 64)
    (hlength : length < 2 ^ 64) (hbase : baseAddress < 2 ^ 64) {status : Status}
    (h : allocateMemorySpace pool memoryType alignment length baseAddress imageHandle deviceHandle map = (status, base, map')) :
    (status = .success ∧ base + length ≤ baseAddress + 1
      ∧ Allocated bits map map' memoryType base length imageHandle deviceHandle)
    ∨ status ≠ .success ∧ map' = map := by
  obtain ⟨space, hmap⟩ := represents_of_tiles htiles
  obtain ⟨space', hmeans, hmap'⟩ := allocateSpace_allocates hmap hbits hbase hlength (fun h => absurd h (by decide))
    (fun h => absurd h (by decide)) h
  by_cases hstatus : status = .success
  · subst hstatus
    cases hmeans with
    | done hpool himage halignment hpositive hpicks =>
      obtain ⟨hinside, hfree⟩ := hpicks.fits.free
      refine Or.inl ⟨rfl, hpicks.fits.limit, hpositive, himage, hinside, fun a hle hlt => ?_,
        owned_of_update hmap hpositive hinside hmap'⟩
      exact ⟨space a, hmap.at_address a (by omega), hfree a hle hlt⟩
  · exact Or.inr ⟨hstatus, allocateSpace_refused h hstatus⟩

/-- What has an owner can be freed if there is memory for it. -/
theorem freeMemorySpace_spec (pool : Bool) (htiles : Tiles 0 (2 ^ bits) map) (hbits : bits < 64)
    (hlength : 0 < length) (hinside : base + length ≤ 2 ^ bits)
    (howned : ∀ a e, base ≤ a → a < base + length → At map a e → e.imageHandle ≠ none) :
    (pool = true → ∃ map', freeMemorySpace pool base length map = (.success, map')
      ∧ Owned bits map map' base (base + length - 1) none none)
    ∧ (pool = false → freeMemorySpace pool base length map = (.outOfResources, map)) := by
  have hpow : 2 ^ bits ≤ 2 ^ 63 := Nat.pow_le_pow_right (by decide) (by omega)
  obtain ⟨space, hmap⟩ := represents_of_tiles htiles
  obtain ⟨⟨status, map'⟩, hfree⟩ : ∃ freed, freeMemorySpace pool base length map = freed := ⟨_, rfl⟩
  obtain ⟨space', hconverts, hmap'⟩ := convertSpace_converts hmap rfl (by omega) hfree
  have hrefused := fun hstatus => convertSpace_refused hfree hstatus
  rw [hfree]
  cases hconverts with
  | invalid h => exact h.elim (fun hinvalid => absurd hinvalid (by decide)) fun hzero => absurd hzero (Nat.ne_of_gt hlength)
  | outside _ _ hout => omega
  | refused _ _ hle hlt _ hcheck =>
    -- every address of the range has an owner
    have himage := howned _ _ hle hlt (hmap.at_address _ (by omega))
    rw [Operation.check, if_neg himage] at hcheck
    cases hcheck
  | noMemory _ _ hpool _ =>
    have hpool : pool = false := hpool
    rw [hpool, hrefused (by decide)]
    exact ⟨fun h => absurd h (by decide), fun _ => rfl⟩
  | byCpu _ _ _ _ hcpu => cases hcpu
  | done _ _ hpool _ _ =>
    have hpool : pool = true := hpool
    rw [hpool]
    exact ⟨fun _ => ⟨map', rfl, owned_of_update hmap hlength hinside hmap'⟩, fun h => absurd h (by decide)⟩

end

end BayTrail.Gcd
