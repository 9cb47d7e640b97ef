import BayTrail.Gcd.Space
import BayTrail.Lib.Loop

/-!
# Memory from the top of a window

`AllocateMemoryResource` of `PciHostBridge.c`, which is built with `PCI_MMIO_RES_TOP_ALLIGN`. The bars of
a bridge are laid out from the end of its window down, so that it is the end of the range that is to be
aligned. A range that is not is given back, and is tried again from the next end below.
-/

namespace BayTrail.Pci

open BayTrail.Lib BayTrail.Lib.Region BayTrail.Gcd

/-! ## AllocateMemoryResource -/

/-- What `AlignmentMask` has of an address. The mask is shifted as an `int`, by the count modulo 32. -/
def masked (alignment address : Nat) : Nat := address &&& (2 ^ (alignment % 32) - 1)

/-- `*BaseAddress + Length`. -/
def endAddress (base length : Nat) : Nat := uint64 (base + length)

/-- `Status`, `*BaseAddress` and the map in front of a round. -/
structure Attempt where
  round : Nat
  status : Gcd.Status
  base : Nat
  map : Gcd.Map

/-- A round of the loop. `pool` says for each operation on the map whether there is memory for entries. -/
def allocateRound (pool : Nat → Bool) (alignment length : Nat) (imageHandle deviceHandle : Option Nat) (s : Attempt) :
    Next Attempt (Gcd.Status × Nat × Gcd.Map) :=
  if masked alignment (endAddress s.base length) = 0 then .done (s.status, s.base, s.map)
  else
    let found := allocateMemorySpace (pool (2 * s.round)) .memoryMappedIo 0 length s.base imageHandle deviceHandle s.map
    if found.1 ≠ .success then .done found
    else if masked alignment (endAddress found.2.1 length) = 0 then .again ⟨s.round + 1, found.1, found.2.1, found.2.2⟩
    else
      let freed := freeMemorySpace (pool (2 * s.round + 1)) found.2.1 length found.2.2
      if freed.1 ≠ .success then .done (freed.1, found.2.1, freed.2)
      else
        let end' := endAddress found.2.1 length
        .again ⟨s.round + 1, freed.1, uint64 (end' - masked alignment end' + (2 ^ 64 - length)), freed.2⟩

/-- `dxe` is what `LibGetDxeSvcTbl` returns. -/
def allocateMemoryResource (dxe : Gcd.Status) (pool : Nat → Bool) (alignment length baseAddress : Nat)
    (imageHandle deviceHandle : Option Nat) (map : Gcd.Map) (fuel : Nat) : Option (Gcd.Status × Nat × Gcd.Map) :=
  if dxe ≠ .success then some (dxe, baseAddress, map)
  else loop (allocateRound pool alignment length imageHandle deviceHandle) fuel ⟨0, dxe, baseAddress, map⟩

/-! ## Masks -/

section

variable {alignment length : Nat} {a : Nat}

theorem masked_eq (alignment a : Nat) : masked alignment a = a % 2 ^ (alignment % 32) :=
  Nat.and_two_pow_sub_one_eq_mod a (alignment % 32)

/-- An address that is aligned has nothing under the mask, and the other way round for up to 31 bits. -/
theorem masked_of_dvd (h : 2 ^ alignment ∣ a) : masked alignment a = 0 := by
  rw [masked_eq]
  exact Nat.mod_eq_zero_of_dvd (Nat.dvd_trans (Nat.pow_dvd_pow 2 (Nat.mod_le alignment 32)) h)

/-- The end that is tried after one that is not aligned is aligned. -/
theorem masked_next (hlength : length < 2 ^ 64) (ha : a < 2 ^ 64) :
    masked alignment (endAddress (uint64 (a - masked alignment a + (2 ^ 64 - length))) length) = 0 := by
  have hle : masked alignment a ≤ a := Nat.and_le_left
  have hend : endAddress (uint64 (a - masked alignment a + (2 ^ 64 - length))) length = a - masked alignment a := by
    unfold endAddress uint64
    omega
  rw [hend, masked_eq, masked_eq]
  exact Nat.mod_eq_zero_of_dvd (Nat.dvd_sub_mod a)

end

/-! ## What is reserved -/

section

variable {bits : Nat} {map map' : Gcd.Map} {alignment length baseAddress base : Nat} {imageHandle deviceHandle : Option Nat}

/-- A range of the length at the base, up to the limit, the end of which is aligned, is reserved. -/
structure Reserved (bits : Nat) (map map' : Gcd.Map) (alignment length limit base : Nat)
    (imageHandle deviceHandle : Option Nat) : Prop where
  allocated : Allocated bits map map' .memoryMappedIo base length imageHandle deviceHandle
  limit : base + length ≤ limit + 1
  aligned : 2 ^ alignment ∣ base + length

variable {limit : Nat} {dxe status : Gcd.Status}

/-- What is reserved has an owner. -/
theorem Reserved.owner (h : Reserved bits map map' alignment length limit base imageHandle deviceHandle) :
    ∃ e, Region.At map' base e ∧ e.imageHandle ≠ none := by
  have hfirst := h.allocated.nonempty
  obtain ⟨e, he, hcheck⟩ := h.allocated.free base (Nat.le_refl _) (by omega)
  exact ⟨_, (h.allocated.owned.range base _ (Nat.le_refl _) (by omega)).mpr ⟨e, he, rfl⟩, h.allocated.image⟩

/-- What is reserved had none. -/
theorem Reserved.unowned (h : Reserved bits map map' alignment length limit base imageHandle deviceHandle) :
    ∃ e, Region.At map base e ∧ e.imageHandle = none := by
  have hfirst := h.allocated.nonempty
  obtain ⟨e, he, hcheck⟩ := h.allocated.free base (Nat.le_refl _) (by omega)
  simp only [Services.Kind.checkEntry, Bool.and_eq_true, decide_eq_true_eq] at hcheck
  exact ⟨e, he, hcheck.1⟩

/-- Nothing is reserved in a map that is what it was, -/
theorem not_reserved_self (htiles : Tiles 0 (2 ^ bits) map) :
    ¬ Reserved bits map map alignment length limit base imageHandle deviceHandle := by
  intro h
  obtain ⟨e, he, himage⟩ := h.unowned
  obtain ⟨e', he', himage'⟩ := h.owner
  rw [htiles.at_unique he he'] at himage
  exact himage' himage

/-- and neither in one in which a range has been reserved and given back. -/
theorem not_reserved_freed {map₁ map₂ : Gcd.Map} {b l : Nat} (htiles : Tiles 0 (2 ^ bits) map)
    (hreserved : Owned bits map map₁ b l imageHandle deviceHandle) (hfreed : Owned bits map₁ map₂ b l none none) :
    ¬ Reserved bits map map₂ alignment length limit base imageHandle deviceHandle := by
  intro h
  obtain ⟨e, he, himage⟩ := h.unowned
  obtain ⟨e', he', himage'⟩ := h.owner
  by_cases hin : b ≤ base ∧ base ≤ l
  · obtain ⟨e₁, -, heq⟩ := (hfreed.range base e' hin.1 hin.2).mp he'
    rw [← heq] at himage'
    exact himage' rfl
  · have hsame := (hreserved.frame base e' hin).mp ((hfreed.frame base e' hin).mp he')
    rw [htiles.at_unique he hsame] at himage
    exact himage' himage

/-- When a range is reserved exactly if that is what is returned: the services are not there, or the limit
is not aligned and there is no range below it, or the first one from the top down is aligned, or it is not
and cannot be given back. -/
def Reserves (dxe : Gcd.Status) (pool : Nat → Bool) (alignment length baseAddress : Nat)
    (imageHandle deviceHandle : Option Nat) (map : Gcd.Map) : Prop :=
  dxe ≠ .success ∨ masked alignment (endAddress baseAddress length) ≠ 0 ∧ ∃ status base map',
    allocateMemorySpace (pool 0) .memoryMappedIo 0 length baseAddress imageHandle deviceHandle map = (status, base, map') ∧
    (status ≠ .success ∨ 2 ^ alignment ∣ base + length ∨ masked alignment (base + length) ≠ 0 ∧ pool 1 = false)

/-- The end of a range that is reserved does not wrap. -/
theorem endAddress_of_allocated {memoryType : MemoryType} (hbits : bits < 64)
    (h : Allocated bits map map' memoryType base length imageHandle deviceHandle) :
    endAddress base length = base + length ∧ base + length < 2 ^ 64 := by
  have hinside := h.inside
  have hpow : 2 ^ bits ≤ 2 ^ 63 := Nat.pow_le_pow_right (by decide) (by omega)
  unfold endAddress uint64
  omega

theorem allocateMemoryResource_missing (hdxe : dxe ≠ .success) (pool : Nat → Bool) (fuel : Nat) :
    allocateMemoryResource dxe pool alignment length baseAddress imageHandle deviceHandle map fuel =
      some (dxe, baseAddress, map) := if_pos hdxe

theorem allocateMemoryResource_loop (pool : Nat → Bool) (fuel : Nat) :
    allocateMemoryResource .success pool alignment length baseAddress imageHandle deviceHandle map fuel =
      loop (allocateRound pool alignment length imageHandle deviceHandle) fuel ⟨0, .success, baseAddress, map⟩ :=
  if_neg fun h => h rfl

/-- A limit that is aligned ends the loop. -/
theorem allocateRound_aligned (pool : Nat → Bool) (s : Attempt) (hmask : masked alignment (endAddress s.base length) = 0) :
    allocateRound pool alignment length imageHandle deviceHandle s = .done (s.status, s.base, s.map) := if_pos hmask

/-- Behind a limit that is not aligned a range is searched. -/
theorem allocateRound_unaligned {pool : Nat → Bool} {s : Attempt} (hmask : masked alignment (endAddress s.base length) ≠ 0) (hfound : allocateMemorySpace (pool (2 * s.round)) .memoryMappedIo 0 length s.base imageHandle
      deviceHandle s.map = (status, base, map')) {freed : Gcd.Status × Gcd.Map}
    (hfreed : freeMemorySpace (pool (2 * s.round + 1)) base length map' = freed) :
    allocateRound pool alignment length imageHandle deviceHandle s =
      if status ≠ .success then .done (status, base, map')
      else if masked alignment (endAddress base length) = 0 then .again ⟨s.round + 1, status, base, map'⟩
      else if freed.1 ≠ .success then .done (freed.1, base, freed.2)
      else .again ⟨s.round + 1, freed.1, uint64 (endAddress base length - masked alignment (endAddress base length)
        + (2 ^ 64 - length)), freed.2⟩ := by
  unfold allocateRound
  rw [if_neg hmask]
  dsimp only
  rw [hfound]
  dsimp only
  rw [hfreed]

theorem reserves_missing (hdxe : dxe ≠ .success) (pool : Nat → Bool) :
    Reserves dxe pool alignment length baseAddress imageHandle deviceHandle map := Or.inl hdxe

theorem not_reserves_limit (hmask : masked alignment (endAddress baseAddress length) = 0) (pool : Nat → Bool) :
    ¬ Reserves .success pool alignment length baseAddress imageHandle deviceHandle map := by
  intro h
  rcases h with h | ⟨h, -⟩
  · exact h rfl
  · exact h hmask

theorem reserves_found {pool : Nat → Bool} (hmask : masked alignment (endAddress baseAddress length) ≠ 0) (hfound : allocateMemorySpace (pool 0) .memoryMappedIo 0 length baseAddress imageHandle
      deviceHandle map = (status, base, map')) :
    Reserves .success pool alignment length baseAddress imageHandle deviceHandle map ↔
      status ≠ .success ∨ 2 ^ alignment ∣ base + length ∨ masked alignment (base + length) ≠ 0 ∧ pool 1 = false := by
  constructor
  · intro h
    rcases h with h | ⟨-, status', base', map'', hfound', h⟩
    · exact absurd rfl h
    · rw [hfound] at hfound'
      cases hfound'
      exact h
  · exact fun h => Or.inr ⟨hmask, status, base, map', hfound, h⟩

section run

variable (pool : Nat → Bool) (hmask : masked alignment (endAddress baseAddress length) ≠ 0)
include hmask

/-- No range is found. -/
theorem allocateMemoryResource_none {status : Gcd.Status} (hstatus : status ≠ .success)
    (hfound : allocateMemorySpace (pool 0) .memoryMappedIo 0 length baseAddress imageHandle deviceHandle map =
      (status, base, map')) (fuel : Nat) :
    allocateMemoryResource .success pool alignment length baseAddress imageHandle deviceHandle map (fuel + 1) =
      some (status, base, map') := by
  rw [allocateMemoryResource_loop]
  refine loop_done ?_ fuel
  rw [allocateRound_unaligned (s := ⟨0, .success, baseAddress, map⟩) hmask hfound rfl, if_pos hstatus]

variable (hfound : allocateMemorySpace (pool 0) .memoryMappedIo 0 length baseAddress imageHandle deviceHandle map =
  (.success, base, map'))
include hfound

/-- The first range is aligned: the loop ends in the next round. -/
theorem allocateMemoryResource_aligned (haligned : masked alignment (endAddress base length) = 0) (fuel : Nat) :
    allocateMemoryResource .success pool alignment length baseAddress imageHandle deviceHandle map (fuel + 2) =
      some (.success, base, map') := by
  have hround : allocateRound pool alignment length imageHandle deviceHandle ⟨0, .success, baseAddress, map⟩ =
      .again ⟨1, .success, base, map'⟩ := by
    rw [allocateRound_unaligned (s := ⟨0, .success, baseAddress, map⟩) hmask hfound rfl, if_neg (fun h => h rfl),
      if_pos haligned]
  rw [allocateMemoryResource_loop, loop_again hround]
  exact loop_done (allocateRound_aligned pool _ haligned) fuel

variable (hunaligned : masked alignment (endAddress base length) ≠ 0)
include hunaligned

/-- It is not, and cannot be given back. -/
theorem allocateMemoryResource_kept {status : Gcd.Status} (hstatus : status ≠ .success) {map'' : Gcd.Map}
    (hfreed : freeMemorySpace (pool 1) base length map' = (status, map'')) (fuel : Nat) :
    allocateMemoryResource .success pool alignment length baseAddress imageHandle deviceHandle map (fuel + 1) =
      some (status, base, map'') := by
  rw [allocateMemoryResource_loop]
  refine loop_done ?_ fuel
  rw [allocateRound_unaligned (s := ⟨0, .success, baseAddress, map⟩) hmask hfound hfreed, if_neg (fun h => h rfl),
    if_neg hunaligned, if_pos hstatus]

/-- It is given back. The end below it is aligned, so that the loop ends before that range is reserved. -/
theorem allocateMemoryResource_freed (hlength : length < 2 ^ 64) {map'' : Gcd.Map}
    (hfreed : freeMemorySpace (pool 1) base length map' = (.success, map'')) (fuel : Nat) :
    ∃ base', allocateMemoryResource .success pool alignment length baseAddress imageHandle deviceHandle map (fuel + 2) =
      some (.success, base', map'') := by
  refine ⟨uint64 (endAddress base length - masked alignment (endAddress base length) + (2 ^ 64 - length)), ?_⟩
  have hround := allocateRound_unaligned (s := ⟨0, .success, baseAddress, map⟩) hmask hfound hfreed
  rw [if_neg (fun h => h rfl), if_neg hunaligned, if_neg (fun h => h rfl)] at hround
  rw [allocateMemoryResource_loop, loop_again hround]
  refine loop_done (allocateRound_aligned pool _ (masked_next hlength ?_)) fuel
  unfold endAddress uint64
  omega

end run

/-- The loop ends within two rounds. Success is returned exactly if the range is reserved if and only if
the limit is not aligned already, and no range has been given back. -/
theorem allocateMemoryResource_reserves_iff (dxe : Gcd.Status) (pool : Nat → Bool) (alignment : Nat)
    (imageHandle deviceHandle : Option Nat) (hbits : bits < 64) (htiles : Tiles 0 (2 ^ bits) map)
    (hlength : length < 2 ^ 64) (hbase : baseAddress < 2 ^ 64) (fuel : Nat) :
    ∃ status base map',
      allocateMemoryResource dxe pool alignment length baseAddress imageHandle deviceHandle map (fuel + 2) =
        some (status, base, map')
      ∧ ((status = .success ↔ Reserved bits map map' alignment length baseAddress base imageHandle deviceHandle)
        ↔ Reserves dxe pool alignment length baseAddress imageHandle deviceHandle map) := by
  by_cases hdxe : dxe = .success
  · subst hdxe
    by_cases hmask : masked alignment (endAddress baseAddress length) = 0
    · refine ⟨.success, baseAddress, map, ?_, ?_⟩
      · rw [allocateMemoryResource_loop]
        exact loop_done (allocateRound_aligned pool _ hmask) _
      · exact iff_of_false (fun h => not_reserved_self htiles (h.mp rfl)) (not_reserves_limit hmask pool)
    · obtain ⟨⟨status, base, map'⟩, hfound⟩ : ∃ found, allocateMemorySpace (pool 0) .memoryMappedIo 0 length baseAddress
        imageHandle deviceHandle map = found := ⟨_, rfl⟩
      rcases allocateMemorySpace_spec (pool 0) htiles hbits hlength hbase hfound with
        ⟨rfl, hlimit, hallocated⟩ | ⟨hfail, rfl⟩
      · obtain ⟨hend, hlt⟩ := endAddress_of_allocated hbits hallocated
        by_cases haligned : masked alignment (endAddress base length) = 0
        · refine ⟨.success, base, map', allocateMemoryResource_aligned pool hmask hfound haligned fuel, ?_⟩
          rw [reserves_found hmask hfound]
          rw [hend] at haligned
          -- what is under the mask is aligned, but the mask has at most 31 bits
          constructor
          · exact fun h => Or.inr (Or.inl (h.mp rfl).aligned)
          · intro h
            have hdvd := (h.resolve_left fun h => h rfl).resolve_right fun h => h.1 haligned
            exact iff_of_true rfl ⟨hallocated, hlimit, hdvd⟩
        · have hnot : ¬ 2 ^ alignment ∣ base + length := by
            intro h
            rw [hend] at haligned
            exact haligned (masked_of_dvd h)
          have hfree := freeMemorySpace_spec (pool 1) hallocated.owned.tiles hbits hallocated.nonempty hallocated.inside
            (fun a e h1 h2 he => hallocated.owner h1 h2 he)
          cases hpool : pool 1 with
          | false =>
            rw [hpool] at hfree
            refine ⟨.outOfResources, base, map', ?_, ?_⟩
            · exact allocateMemoryResource_kept pool hmask hfound haligned (by decide) (by rw [hpool]; exact hfree.2 rfl) _
            · rw [hend] at haligned
              refine iff_of_true (iff_of_false (by decide) fun h => hnot h.aligned) ?_
              exact (reserves_found hmask hfound).mpr (Or.inr (Or.inr ⟨haligned, hpool⟩))
          | true =>
            rw [hpool] at hfree
            obtain ⟨map'', hfreed, howned⟩ := hfree.1 rfl
            obtain ⟨base', hrun⟩ := allocateMemoryResource_freed pool hmask hfound haligned hlength (by rw [hpool]; exact hfreed) fuel
            refine ⟨.success, base', map'', hrun, iff_of_false ?_ ?_⟩
            · exact fun h => not_reserved_freed htiles hallocated.owned howned (h.mp rfl)
            · rw [reserves_found hmask hfound, hpool]
              intro h
              rcases h with h | h | ⟨-, h⟩
              · exact h rfl
              · exact hnot h
              · cases h
      · refine ⟨status, base, map', allocateMemoryResource_none pool hmask hfail hfound _, ?_⟩
        refine iff_of_true (iff_of_false hfail (not_reserved_self htiles)) ?_
        exact (reserves_found hmask hfound).mpr (Or.inl hfail)
  · refine ⟨dxe, baseAddress, map, allocateMemoryResource_missing hdxe pool _, ?_⟩
    exact iff_of_true (iff_of_false hdxe (not_reserved_self htiles)) (reserves_missing hdxe pool)

end

/-- An entry without an owner. -/
def unowned (memoryType : MemoryType) : Entry := ⟨0, 0, memoryType, .nonExistent, none, none⟩

/-- Memory up to 2 GiB, and a window for devices that ends at 0xFEC00000. -/
def window : Gcd.Map :=
  [⟨0, 0x7FFFFFFF, unowned .systemMemory⟩, ⟨0x80000000, 0xFEBFFFFF, unowned .memoryMappedIo⟩,
    ⟨0xFEC00000, 0xFFFFFFFFF, unowned .nonExistent⟩]

theorem window_tiles : Tiles 0 (2 ^ 36) window := by
  unfold window Tiles Tiles Tiles Tiles
  decide

theorem allocateMemoryResource_reserves_iff_window : ∃ status base map',
    allocateMemoryResource .success (fun _ => true) 22 0x400000 0xFFFFFFFF (some 1) (some 2) window 2 =
      some (status, base, map')
    ∧ ((status = .success ↔ Reserved 36 window map' 22 0x400000 0xFFFFFFFF base (some 1) (some 2))
      ↔ Reserves .success (fun _ => true) 22 0x400000 0xFFFFFFFF (some 1) (some 2) window) :=
  allocateMemoryResource_reserves_iff .success (fun _ => true) 22 (some 1) (some 2) (by decide) window_tiles (by decide)
    (by decide) 0

/-- The window does not end at a multiple of 16 MiB: a range of that alignment is given back, and success
is returned for the one below it, which has no owner. -/
theorem not_allocateMemoryResource_reserves :
    ¬ ∃ fuel status base map',
      allocateMemoryResource .success (fun _ => true) 24 0x1000000 0xFFFFFFFF (some 1) (some 2) window fuel =
        some (status, base, map')
      ∧ (status = .success ↔ Reserved 36 window map' 24 0x1000000 0xFFFFFFFF base (some 1) (some 2)) := by
  intro ⟨fuel, status, base, map', hrun, hmeets⟩
  have hmask : masked 24 (endAddress 0xFFFFFFFF 0x1000000) ≠ 0 := by decide +kernel
  obtain ⟨⟨status₁, base₁, map₁⟩, hfound⟩ : ∃ found, allocateMemorySpace true .memoryMappedIo 0 0x1000000 0xFFFFFFFF
    (some 1) (some 2) window = found := ⟨_, rfl⟩
  have hstatus : status₁ = .success := by
    have hval : (allocateMemorySpace true .memoryMappedIo 0 0x1000000 0xFFFFFFFF (some 1) (some 2) window).1 = .success := by
      decide +kernel
    rwa [hfound] at hval
  have hbase : base₁ = 0xFDC00000 := by
    have hval : (allocateMemorySpace true .memoryMappedIo 0 0x1000000 0xFFFFFFFF (some 1) (some 2) window).2.1 =
        0xFDC00000 := by
      decide +kernel
    rwa [hfound] at hval
  subst hstatus hbase
  rcases allocateMemorySpace_spec true window_tiles (by decide) (by decide) (by decide) hfound with
    ⟨-, -, hallocated⟩ | ⟨hfail, -⟩
  · have hfree := freeMemorySpace_spec true hallocated.owned.tiles (by decide) hallocated.nonempty hallocated.inside
      (fun a e h1 h2 he => hallocated.owner h1 h2 he)
    obtain ⟨map₂, hfreed, howned⟩ := hfree.1 rfl
    obtain ⟨base', hresult⟩ := allocateMemoryResource_freed (fun _ => true) hmask hfound (by decide +kernel) (by decide)
      hfreed 0
    rw [allocateMemoryResource_loop] at hrun hresult
    cases loop_unique hrun hresult
    exact not_reserved_freed window_tiles hallocated.owned howned (hmeets.mp rfl)
  · exact hfail rfl

end BayTrail.Pci
