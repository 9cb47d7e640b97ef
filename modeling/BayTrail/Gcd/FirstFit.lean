import BayTrail.Gcd.Refined

/-!
# Allocations

The search from the bottom up finds the lowest range that an allocation may have, if there is one. The
search from the top down finds one that the allocation may have, but not always: it passes over ranges
that reach the limit, or that are not in one entry.
-/

namespace BayTrail.Gcd.Services

open BayTrail.Lib BayTrail.Lib.Region

variable {bits : Nat} {map : Map} {space : Space} {kind : Kind} {alignment length maxAddress : Nat} {env : Environment}

/-! ## Rounding up -/

section align

variable {d x y : Nat}

theorem le_alignUp (hd : 0 < d) : x ≤ x + (d - 1) - (x + (d - 1)) % d := by
  have hmod := Nat.mod_lt (x + (d - 1)) hd
  omega

theorem alignUp_mod : (x + (d - 1) - (x + (d - 1)) % d) % d = 0 := Nat.sub_mod_eq_zero_of_mod_eq (Nat.mod_mod _ _).symm

/-- What is rounded up is the lowest multiple that is not below. -/
theorem alignUp_le (hd : 0 < d) (hle : x ≤ y) (hy : y % d = 0) : x + (d - 1) - (x + (d - 1)) % d ≤ y := by
  have hup := Nat.div_add_mod (x + (d - 1)) d
  have hdown := Nat.div_add_mod y d
  have hquot : (x + (d - 1)) / d ≤ y / d := by
    refine Nat.le_of_lt_succ ((Nat.div_lt_iff_lt_mul hd).mpr ?_)
    rw [Nat.succ_mul, Nat.mul_comm]
    omega
  have hmul := Nat.mul_le_mul_left d hquot
  omega

end align

/-! ## From the bottom up -/

variable {b base' : Nat} {r : Region Entry} {imageHandle deviceHandle : Option Nat}
  {status : Status} {map' : Map}

/-- The address of a range is in an entry that can be used. -/
theorem Fits.region (h : Represents bits map space) (hlength : 0 < length)
    (hfits : Fits bits kind alignment length maxAddress space b) :
    ∃ (k : Nat) (r : Region Entry), map[k]? = some r ∧ r.base ≤ b ∧ b ≤ r.last ∧ kind.checkEntry r.val = true := by
  obtain ⟨hinside, hfree⟩ := hfits.free
  obtain ⟨r, hr, hbase, hlast, hval⟩ := h.at_address b (by omega)
  obtain ⟨k, hk⟩ := List.mem_iff_getElem?.mp hr
  exact ⟨k, r, hk, hbase, hlast, hval ▸ hfree b (Nat.le_refl b) (by omega)⟩

/-- A range does not have an address that cannot be used. -/
theorem Fits.avoids (h : Represents bits map space) (hlength : 0 < length) (hfits : Fits bits kind alignment length maxAddress space b) (hr : r ∈ map) (hcheck : kind.checkEntry r.val = false) :
    r.last < b ∨ b + length ≤ r.base := by
  obtain ⟨hinside, hfree⟩ := hfits.free
  have hbounds := h.tiles.mem hr
  by_contra hmeet
  -- the first address that both have
  have hat : At map (max b r.base) r.val := ⟨r, hr, by omega, by omega, rfl⟩
  have hspace := (h.at_iff (by omega)).mp hat
  have htrue := hfree (max b r.base) (by omega) (by omega)
  rw [hspace, hcheck] at htrue
  cases htrue

/-- The lowest range that an allocation may have, or none if there is none. -/
structure FindsFirst (bits : Nat) (map : Map) (kind : Kind) (alignment length maxAddress : Nat) (space : Space)
    (found : Nat × Option Candidate) : Prop where
  some : ∀ c, found.2 = some c → c.base = found.1 ∧ Usable bits map kind length space c
    ∧ Fits bits kind alignment length maxAddress space found.1
    ∧ ∀ b, Fits bits kind alignment length maxAddress space b → found.1 ≤ b
  none : found.2 = none → ∀ b, ¬ Fits bits kind alignment length maxAddress space b

theorem findsFirst_none {base : Nat} (h : ∀ b, ¬ Fits bits kind alignment length maxAddress space b) :
    FindsFirst bits map kind alignment length maxAddress space (base, none) :=
  ⟨fun _ hc => (nomatch hc), fun _ => h⟩

/-- What has been passed over is in front of all ranges that an allocation may have. -/
def PassedBelow (bits : Nat) (map : Map) (kind : Kind) (alignment length maxAddress : Nat) (space : Space) (i : Nat) : Prop :=
  ∀ b, Fits bits kind alignment length maxAddress space b → ∀ k r, k < i → map[k]? = some r → r.last < b

theorem PassedBelow.base_le (h : Represents bits map space) (hlength : 0 < length) {i : Nat}
    (hpassed : PassedBelow bits map kind alignment length maxAddress space i) (hr : map[i]? = some r)
    (hfits : Fits bits kind alignment length maxAddress space b) : r.base ≤ b := by
  obtain ⟨k, r', hk, hbase, hlast, -⟩ := hfits.region h hlength
  have hbounds := h.tiles.mem (List.mem_of_getElem? hr)
  rcases Nat.lt_trichotomy k i with hlt | heq | hgt
  · have hbelow := hpassed b hfits k r' hlt hk
    omega
  · subst heq
    rw [hr] at hk
    cases hk
    exact hbase
  · by_contra hnot
    have hle := h.tiles.index_le hk hr (by omega)
    omega

variable (kind) in
/-- The search from entry `i` on finds the lowest fit, if none lies below: each round passes an entry without one. -/
theorem searchUp_first (h : Represents bits map space) (hbits : bits < 64) (hlength : 0 < length) (hlength' : length ≤ 2 ^ 63)
    (halignment : alignment < 64) : ∀ (fuel i base : Nat), map.length ≤ fuel + i →
    PassedBelow bits map kind alignment length maxAddress space i →
    FindsFirst bits map kind alignment length maxAddress space (searchUp map kind alignment length maxAddress fuel i base)
  | fuel, i, base, hfuel, hpassed => by
    have hend : map[i]? = none → ∀ b, ¬ Fits bits kind alignment length maxAddress space b := by
      intro hi b hfits
      obtain ⟨k, r, hk, hbase, hlast, -⟩ := hfits.region h hlength
      have hlt := (List.getElem?_eq_some_iff.mp hk).1
      have hle := List.getElem?_eq_none_iff.mp hi
      have hbelow := hpassed b hfits k r (by omega) hk
      omega
    cases fuel with
    | zero => exact findsFirst_none (hend (List.getElem?_eq_none_iff.mpr (by omega)))
    | succ fuel =>
      have ih := searchUp_first h hbits hlength hlength' halignment fuel
      unfold searchUp
      cases hr : map[i]? with
      | none => exact findsFirst_none (hend hr)
      | some r =>
        have hmem := List.mem_of_getElem? hr
        have hbounds := h.tiles.mem hmem
        dsimp only
        by_cases hskip : kind.checkEntry r.val = false
        · rw [if_pos hskip]
          refine ih (i + 1) base (by omega) fun b hfits k r' hk hr' => ?_
          rcases Nat.lt_or_eq_of_le (Nat.le_of_lt_succ hk) with hlt | heq
          · exact hpassed b hfits k r' hlt hr'
          · rw [heq, hr] at hr'
            cases hr'
            have hbase := hpassed.base_le h hlength hr hfits
            have havoids := hfits.avoids h hlength hmem hskip
            omega
        · rw [if_neg hskip]
          have hpow : 2 ^ bits ≤ 2 ^ 63 := Nat.pow_le_pow_right (by decide) (by omega)
          have hpow' : 2 ^ alignment ≤ 2 ^ 63 := Nat.pow_le_pow_right (by decide) (by omega)
          have hd : 0 < 2 ^ alignment := Nat.two_pow_pos alignment
          have hup : uint64 (r.base + (2 ^ alignment - 1)) = r.base + (2 ^ alignment - 1) := Nat.mod_eq_of_lt (by omega)
          have htop : (2 ^ 63) % 2 ^ alignment = 0 := Nat.mod_eq_zero_of_dvd (pow_dvd_pow 2 (by omega))
          have hcand := alignUp_le hd (show r.base ≤ 2 ^ 63 by omega) htop
          have hbase := le_alignUp (x := r.base) hd
          have haligned := alignUp_mod (x := r.base) (d := 2 ^ alignment)
          have hleast : ∀ b, Fits bits kind alignment length maxAddress space b →
              r.base + (2 ^ alignment - 1) - (r.base + (2 ^ alignment - 1)) % 2 ^ alignment ≤ b := fun b hfits =>
            alignUp_le hd (hpassed.base_le h hlength hr hfits) hfits.aligned
          rw [hup]
          generalize r.base + (2 ^ alignment - 1) - (r.base + (2 ^ alignment - 1)) % 2 ^ alignment = cand at hcand hbase haligned hleast
          rw [last_eq hlength (by omega)]
          by_cases hlimit : maxAddress < cand + length - 1
          · rw [if_pos hlimit]
            refine findsFirst_none fun b hfits => ?_
            have hb := hleast b hfits
            have hmax := hfits.limit
            omega
          · rw [if_neg hlimit]
            have htried := tryRange_tried kind h hlength (show cand + length ≤ 2 ^ 64 by omega)
            generalize tryRange map kind length cand = tried at htried
            cases htried with
            | outside hout =>
              refine findsFirst_none fun b hfits => ?_
              have hb := hleast b hfits
              have hinside := hfits.free.1
              omega
            | free hc husable =>
              rename_i c
              refine ⟨fun c' hc' => ?_, fun hc' => (nomatch hc')⟩
              cases hc'
              have hfree := husable.free
              rw [hc] at hfree
              have hlimit' : cand + length ≤ maxAddress + 1 := by omega
              exact ⟨hc, husable, ⟨haligned, hlimit', hfree⟩, hleast⟩
            | used hj hcheck hlow hhigh =>
              rename_i j y
              have hindex := h.tiles.index_le hr hj (by omega)
              have hne : i ≠ j := by
                intro heq
                rw [heq, hj] at hr
                cases hr
                exact hskip hcheck
              refine ih j cand (by omega) fun b hfits k r' hk hr' => ?_
              have hb := hleast b hfits
              -- the range cannot have the entry, and it is not in front of it
              have havoids := hfits.avoids h hlength (List.mem_of_getElem? hj) hcheck
              have hentry := h.tiles.mem (List.mem_of_getElem? hj)
              by_contra hnot
              have hle := h.tiles.index_le hj hr' (by omega)
              omega

/-! ## From the top down -/

/-- What is found from the top down is a range that the allocation may have. -/
theorem searchDown_fits (h : Represents bits map space) (hbits : bits < 64) (hlength : 0 < length) (hlength' : length < 2 ^ 64)
    (hmax : maxAddress < 2 ^ 64) : ∀ (fuel left base : Nat) {base' : Nat} {c : Candidate},
    searchDown map kind alignment length maxAddress fuel left base = (base', some c) →
      c.base = base' ∧ Usable bits map kind length space c ∧ Fits bits kind alignment length maxAddress space base'
  | 0, left, base, base', c, hs => by cases hs
  | fuel + 1, 0, base, base', c, hs => by cases hs
  | fuel + 1, left + 1, base, base', c, hs => by
    have ih := searchDown_fits h hbits hlength hlength' hmax fuel
    unfold searchDown at hs
    cases hr : map[left]? with
    | none =>
      rw [hr] at hs
      cases hs
    | some r =>
      rw [hr] at hs
      dsimp only at hs
      by_cases hskip : kind.checkEntry r.val = false ∨ maxAddress < uint64 (r.base + length)
      · rw [if_pos hskip] at hs
        exact ih left base hs
      · rw [if_neg hskip] at hs
        by_cases hlong : uint64 (r.last + 1) < length
        · rw [if_pos hlong] at hs
          cases hs
        · rw [if_neg hlong] at hs
          obtain ⟨hlast, hpow, hle⟩ := tried_le h.tiles hbits hlength' hmax alignment
            (List.mem_of_getElem? hr) (not_or.mp hskip).2 hlong
          have haligned : (uint64 (min r.last maxAddress + 1 + (2 ^ 64 - length))
              - uint64 (min r.last maxAddress + 1 + (2 ^ 64 - length)) % 2 ^ alignment) % 2 ^ alignment = 0 :=
            Nat.sub_mod_eq_zero_of_mod_eq (Nat.mod_mod _ _).symm
          generalize uint64 (min r.last maxAddress + 1 + (2 ^ 64 - length))
            - uint64 (min r.last maxAddress + 1 + (2 ^ 64 - length)) % 2 ^ alignment = cand at hs hle haligned
          have htried := tryRange_tried kind h hlength (show cand + length ≤ 2 ^ 64 by omega)
          generalize tryRange map kind length cand = tried at hs htried
          cases htried with
          | outside hout => cases hs
          | free hc husable =>
            cases hs
            have hfree := husable.free
            rw [hc] at hfree
            exact ⟨hc, husable, ⟨haligned, by omega, hfree⟩⟩
          | used hj hcheck hlow hhigh => exact ih _ cand hs

/-! ## CoreAllocateSpace -/

theorem endAddress_eq (h : Represents bits map space) : endAddress map = 2 ^ bits - 1 := by
  have hpow := Nat.two_pow_pos bits
  rcases List.eq_nil_or_concat map with hnil | ⟨front, r, hmap⟩
  · have htiles := h.tiles
    rw [hnil] at htiles
    have hzero : 0 = 2 ^ bits := htiles
    omega
  · have htiles := h.tiles
    rw [hmap, List.concat_eq_append] at htiles
    obtain ⟨m, -, -, -, hlast⟩ := tiles_append.mp htiles
    have hlast : r.last + 1 = 2 ^ bits := hlast
    unfold endAddress
    rw [hmap, List.concat_eq_append, List.getLast?_concat]
    change r.last = _
    omega

variable {type : AllocateType} {base : Nat}

/-- What an allocation finds: a range that it picks, or none. -/
structure Finds (bits : Nat) (map : Map) (type : AllocateType) (kind : Kind) (alignment length base : Nat) (space : Space)
    (found : Nat × Option Candidate) : Prop where
  some : ∀ c, found.2 = some c → c.base = found.1 ∧ Usable bits map kind length space c
    ∧ Picks bits type kind alignment length base space found.1
  none : found.2 = none → type.fromTop = false → ∀ b, ¬ Picks bits type kind alignment length base space b

theorem FindsFirst.finds {found : Nat × Option Candidate} (htype : type ≠ .address)
    (h : FindsFirst bits map kind alignment length (type.limit bits length base) space found) :
    Finds bits map type kind alignment length base space found where
  some c hc := by
    obtain ⟨hbase, husable, hfits, hleast⟩ := h.some c hc
    exact ⟨hbase, husable, fun haddress => absurd haddress htype, hfits, fun _ _ => hleast⟩
  none hnone _ b hb := h.none hnone b hb.fits

theorem finds_address (h : Represents bits map space) (hlength : 0 < length) (hstraight : base + length ≤ 2 ^ 64) :
    Finds bits map .address kind alignment length base space (findSpace .address kind alignment length base map) := by
  unfold findSpace
  dsimp only
  by_cases haligned : base % 2 ^ alignment ≠ 0
  · rw [if_pos haligned]
    refine ⟨fun c hc => absurd hc.symm (Option.some_ne_none c), fun _ _ b hb => haligned ?_⟩
    rw [← hb.asked rfl]
    exact hb.fits.aligned
  · rw [if_neg haligned]
    have htried := tryRange_tried kind h hlength hstraight
    generalize tryRange map kind length base = tried at htried
    cases htried with
    | outside hout =>
      refine ⟨fun c hc => absurd hc.symm (Option.some_ne_none c), fun _ _ b hb => ?_⟩
      have hinside := hb.fits.free.1
      rw [hb.asked rfl] at hinside
      omega
    | free hbase husable =>
      refine ⟨fun c hc => ?_, fun hnone => absurd hnone (Option.some_ne_none _)⟩
      cases hc
      have hfree := husable.free
      rw [hbase] at hfree
      have hlimit : base + length ≤ base + length - 1 + 1 := by omega
      exact ⟨hbase, husable, fun _ => rfl, ⟨Decidable.not_not.mp haligned, hlimit, hfree⟩, fun haddress => absurd rfl haddress⟩
    | used hj hcheck hlow hhigh =>
      refine ⟨fun c hc => absurd hc.symm (Option.some_ne_none c), fun _ _ b hb => ?_⟩
      have hfits := hb.fits
      rw [hb.asked rfl] at hfits
      have havoids := hfits.avoids h hlength (List.mem_of_getElem? hj) hcheck
      omega

theorem finds_fromTop (h : Represents bits map space) (hbits : bits < 64) (hlength : 0 < length) (hlength' : length < 2 ^ 64)
    (htype : type.fromTop = true) (hmax : type.limit bits length base < 2 ^ 64) :
    Finds bits map type kind alignment length base space
      (searchDown map kind alignment length (type.limit bits length base) map.length map.length base) := by
  refine ⟨fun c hc => ?_, fun _ hbottom => absurd (htype.symm.trans hbottom) (by decide)⟩
  obtain ⟨hbase, husable, hfits⟩ := searchDown_fits h hbits hlength hlength' hmax _ _ _ (Prod.ext rfl hc)
  refine ⟨hbase, husable, fun haddress => ?_, hfits, fun _ hbottom => absurd (htype.symm.trans hbottom) (by decide)⟩
  rw [haddress] at htype
  cases htype

variable (kind) in
/-- What an allocation finds is what it is to pick; from the bottom up, and where an address is asked for, nothing is
found only if there is nothing. -/
theorem findSpace_finds (h : Represents bits map space) (hbits : bits < 64) (hlength : 0 < length) (halignment : alignment < 64)
    (hbase : base < 2 ^ 64) (hlength' : length < 2 ^ 64) (hbottom : type.fromTop = false → length ≤ 2 ^ 63)
    (hstraight : type = .address → base + length ≤ 2 ^ 64) :
    Finds bits map type kind alignment length base space (findSpace type kind alignment length base map) := by
  have hpow : 2 ^ bits ≤ 2 ^ 63 := Nat.pow_le_pow_right (by decide) (by omega)
  have hup := fun hlength' maxAddress => searchUp_first kind h hbits hlength hlength' halignment map.length 0 base
    (Nat.le_refl _) (fun _ (_ : Fits bits kind alignment length maxAddress space _) k _ hk => absurd hk (Nat.not_lt_zero k))
  cases type with
  | address => exact finds_address h hlength (hstraight rfl)
  | anySearchBottomUp =>
    refine FindsFirst.finds (by decide) ?_
    unfold findSpace
    dsimp only
    rw [endAddress_eq h]
    exact hup (hbottom rfl) (2 ^ bits - 1)
  | maxAddressSearchBottomUp => exact FindsFirst.finds (by decide) (hup (hbottom rfl) base)
  | anySearchTopDown =>
    unfold findSpace
    dsimp only
    rw [endAddress_eq h]
    exact finds_fromTop h hbits hlength hlength' rfl (show 2 ^ bits - 1 < 2 ^ 64 by omega)
  | maxAddressSearchTopDown => exact finds_fromTop h hbits hlength hlength' rfl hbase

theorem allocateSpace_allocates (h : Represents bits map space) (hbits : bits < 64) (hbase : base < 2 ^ 64)
    (hlength' : length < 2 ^ 64) (hbottom : type.fromTop = false → length ≤ 2 ^ 63)
    (hstraight : type = .address → base + length ≤ 2 ^ 64)
    (ha : allocateSpace env type kind alignment length base imageHandle deviceHandle map = (status, base', map')) :
    ∃ space', Allocates bits env type kind alignment length base imageHandle deviceHandle space status base' space'
      ∧ Represents bits map' space' := by
  have hpow : 2 ^ bits ≤ 2 ^ 63 := Nat.pow_le_pow_right (by decide) (by omega)
  unfold allocateSpace at ha
  by_cases himage : imageHandle = none
  · rw [if_pos himage] at ha
    cases ha
    exact ⟨space, .invalid (Or.inl himage), h⟩
  · rw [if_neg himage] at ha
    by_cases halignment : 64 ≤ alignment
    · rw [if_pos halignment] at ha
      cases ha
      exact ⟨space, .alignment himage halignment, h⟩
    · rw [if_neg halignment] at ha
      have halignment : alignment < 64 := Nat.lt_of_not_le halignment
      by_cases hzero : length = 0
      · rw [if_pos hzero] at ha
        cases ha
        exact ⟨space, .invalid (Or.inr ⟨halignment, hzero⟩), h⟩
      · rw [if_neg hzero] at ha
        have hlength : 0 < length := Nat.pos_of_ne_zero hzero
        have hfinds := findSpace_finds kind h hbits hlength halignment hbase hlength' hbottom hstraight
        generalize findSpace type kind alignment length base map = found at ha hfinds
        obtain ⟨found, c⟩ := found
        cases c with
        | none =>
          cases ha
          exact ⟨space, .none himage halignment hlength (hfinds.none rfl), h⟩
        | some c =>
          obtain ⟨rfl, husable, hpicks⟩ := hfinds.some c rfl
          dsimp only at ha hpicks
          cases hpool : env.pool with
          | false =>
            rw [hpool] at ha
            cases ha
            exact ⟨space, .noMemory hpool himage halignment hlength hpicks, h⟩
          | true =>
            rw [hpool] at ha
            cases ha
            obtain ⟨m, m', hfound⟩ := husable.found
            rw [last_eq hlength (by have hinside := husable.free.1; omega)]
            exact ⟨_, .done hpool himage halignment hlength hpicks, represents_convert h hfound hlength _⟩

/-- A request that is not granted leaves the map. -/
theorem allocateSpace_refused
    (ha : allocateSpace env type kind alignment length base imageHandle deviceHandle map = (status, base', map'))
    (hstatus : status ≠ .success) : map' = map := by
  unfold allocateSpace at ha
  split at ha
  · cases ha
    rfl
  split at ha
  · cases ha
    rfl
  split at ha
  · cases ha
    rfl
  split at ha
  · cases ha
    rfl
  split at ha
  · cases ha
    rfl
  · cases ha
    exact absurd rfl hstatus

end BayTrail.Gcd.Services
