import BayTrail.Gcd.Services
import Mathlib.Tactic.Ring

/-!
# The map of a space

Every run of the services is one of the space: the entries of the map follow one another without a gap
through all of it, and each request changes what it says of the addresses of its range and of no others.
-/

namespace BayTrail.Gcd.Services

open BayTrail.Lib BayTrail.Lib.Region

variable {bits : Nat} {map : Map} {space : Space} {base length a m m' : Nat} {pre mid post : Map} {e : Entry}
  {env : Environment}

/-! ## Maps and spaces -/

theorem Represents.at_iff (h : Represents bits map space) (ha : a < 2 ^ bits) : At map a e ↔ space a = e :=
  ⟨fun he => h.tiles.at_unique (h.at_address a ha) he, fun he => he ▸ h.at_address a ha⟩

theorem last_eq (hlength : 0 < length) (h : base + length ≤ 2 ^ 64) : lastAddress base length = base + length - 1 :=
  lastAddress_eq hlength h

section found

variable (h : Represents bits map space) (hfound : Found 0 (2 ^ bits) base (base + length - 1) map pre mid post m m')
  (hlength : 0 < length)

include hfound hlength

theorem found_inside : base + length ≤ 2 ^ bits := by
  have hrange := hfound.range
  have hle := hfound.back.le
  omega

include h

/-- What the space is at the first address that an entry has in the range. -/
theorem space_of_mid {r : Region Entry} (hr : r ∈ mid) :
    base ≤ max base r.base ∧ max base r.base < base + length ∧ space (max base r.base) = r.val := by
  have hmeets := hfound.meets hr
  have hbounds := hfound.middle.mem hr
  have hinside := found_inside hfound hlength
  have hlt : max base r.base < base + length := by omega
  refine ⟨Nat.le_max_left _ _, hlt, (h.at_iff (by omega)).mp ?_⟩
  rw [hfound.split, at_append, at_append]
  exact Or.inr (Or.inl ⟨r, hr, by omega, by omega, rfl⟩)

/-- The addresses of the range are in the entries that have been found. -/
theorem mid_of_space (hle : base ≤ a) (hlt : a < base + length) : ∃ r ∈ mid, r.base ≤ a ∧ a ≤ r.last ∧ r.val = space a := by
  have hinside := found_inside hfound hlength
  have hrange := hfound.range
  have hat := h.at_address a (by omega)
  rw [hfound.split, at_append, at_append] at hat
  rcases hat with hat | hat | hat
  · have hbounds := hfound.front.at_bounds hat
    omega
  · exact hat
  · have hbounds := hfound.back.at_bounds hat
    omega

theorem all_mid (p : Entry → Prop) : (∀ r ∈ mid, p r.val) ↔ space.All bits base length p := by
  constructor
  · intro hall
    refine ⟨found_inside hfound hlength, fun a hle hlt => ?_⟩
    obtain ⟨r, hr, -, -, hval⟩ := mid_of_space h hfound hlength hle hlt
    exact hval ▸ hall r hr
  · intro hall r hr
    obtain ⟨hle, hlt, hval⟩ := space_of_mid h hfound hlength hr
    exact hval ▸ hall.2 _ hle hlt

/-- The first entry that is refused has the first address that is. -/
theorem first_refused {op : Operation} {status : Status}
    (hsome : (mid.findSome? fun r => op.check base length r.val) = some status) :
    ∃ a, base ≤ a ∧ a < base + length ∧ (∀ a', base ≤ a' → a' < a → op.check base length (space a') = none)
      ∧ op.check base length (space a) = some status := by
  obtain ⟨front, r, rest, hmid, hr, hfront⟩ := List.findSome?_eq_some_iff.mp hsome
  have hmem : r ∈ mid := hmid ▸ List.mem_append_right _ List.mem_cons_self
  obtain ⟨hle, hlt, hval⟩ := space_of_mid h hfound hlength hmem
  refine ⟨max base r.base, hle, hlt, fun a' hle' hlt' => ?_, by rw [hval]; exact hr⟩
  obtain ⟨r', hr', hbase, -, hval'⟩ := mid_of_space h hfound hlength hle' (by omega)
  have hmiddle := hfound.middle
  rw [hmid] at hr' hmiddle
  rcases List.mem_append.mp hr' with hin | hin
  · exact hval' ▸ hfront r' hin
  · -- the entries from this one on are behind the address
    obtain ⟨k, -, htiles⟩ := tiles_append.mp hmiddle
    have hk : r.base = k := htiles.1
    have hlow := htiles.mem hin
    omega

theorem represents_convert (f : Entry → Entry) :
    Represents bits (convert base (base + length - 1) f pre mid post) (space.update base length f) := by
  obtain ⟨htiles, hat⟩ := convert_spec (f := f) hfound (by omega)
  refine ⟨htiles, fun a ha => (hat a _).mpr ?_⟩
  unfold Space.update
  by_cases hin : base ≤ a ∧ a < base + length
  · rw [if_pos hin]
    exact Or.inl ⟨by omega, space a, h.at_address a ha, rfl⟩
  · rw [if_neg hin]
    exact Or.inr ⟨by omega, h.at_address a ha⟩

end found

/-! ## Changes -/

variable {op : Operation} {status : Status} {map' : Map}

theorem convertSpace_converts (h : Represents bits map space) (hvalid : op.valid = true)
    (hstraight : base + length ≤ 2 ^ 64) (hc : convertSpace env op base length map = (status, map')) :
    ∃ space', Converts bits env op base length space status space' ∧ Represents bits map' space' := by
  unfold convertSpace at hc
  by_cases hzero : length = 0
  · rw [if_pos hzero] at hc
    cases hc
    exact ⟨space, .invalid (Or.inr hzero), h⟩
  · rw [if_neg hzero] at hc
    have hlength : 0 < length := Nat.pos_of_ne_zero hzero
    rw [last_eq hlength hstraight] at hc
    cases hsearch : search base (base + length - 1) map with
    | none =>
      rw [hsearch] at hc
      cases hc
      refine ⟨space, .outside hvalid hlength ?_, h⟩
      by_contra hle
      have hsome := search_some (show base ≤ base + length - 1 by omega) h.tiles (Nat.zero_le _) (by omega)
      rw [hsearch] at hsome
      cases hsome
    | some found =>
      obtain ⟨pre, mid, post⟩ := found
      obtain ⟨m, m', hfound⟩ := search_spec h.tiles hsearch
      rw [hsearch] at hc
      dsimp only at hc
      cases hcheck : mid.findSome? fun r => op.check base length r.val with
      | some refusal =>
        rw [hcheck] at hc
        cases hc
        obtain ⟨a, hle, hlt, hfirst, hrefused⟩ := first_refused h hfound hlength hcheck
        exact ⟨space, .refused hvalid (found_inside hfound hlength) hle hlt hfirst hrefused, h⟩
      | none =>
        rw [hcheck] at hc
        dsimp only at hc
        have hall := (all_mid h hfound hlength fun e => op.check base length e = none).mp (List.findSome?_eq_none_iff.mp hcheck)
        cases hpool : env.pool with
        | false =>
          rw [hpool] at hc
          cases hc
          exact ⟨space, .noMemory hvalid hlength hpool hall, h⟩
        | true =>
          rw [hpool] at hc
          cases hcpu : env.cpuStatus base length op with
          | some refusal =>
            rw [hcpu] at hc
            cases hc
            exact ⟨space, .byCpu hvalid hlength hpool hall hcpu, h⟩
          | none =>
            rw [hcpu] at hc
            cases hc
            exact ⟨_, .done hvalid hlength hpool hall hcpu, represents_convert h hfound hlength op.apply⟩

/-- A request that is not granted leaves the map. -/
theorem convertSpace_refused
    (hc : convertSpace env op base length map = (status, map')) (hstatus : status ≠ .success) : map' = map := by
  unfold convertSpace at hc
  split at hc
  · cases hc
    rfl
  split at hc
  · cases hc
    rfl
  split at hc
  · cases hc
    rfl
  split at hc
  · cases hc
    rfl
  split at hc
  · cases hc
    rfl
  · cases hc
    exact absurd rfl hstatus

/-! ## Searches -/

section search

variable {kind : Kind} {c : Candidate}

/-- What is found: a range of the map that can be used. -/
structure Usable (bits : Nat) (map : Map) (kind : Kind) (length : Nat) (space : Space) (c : Candidate) : Prop where
  found : ∃ m m', Found 0 (2 ^ bits) c.base (c.base + length - 1) map c.pre c.mid c.post m m'
  free : space.All bits c.base length (fun e => kind.checkEntry e = true)

/-- What a trial of a range tells. -/
inductive Tried (bits : Nat) (map : Map) (kind : Kind) (length : Nat) (space : Space) (base : Nat) :
    Option (Candidate ⊕ Nat) → Prop
  | outside : 2 ^ bits < base + length → Tried bits map kind length space base none
  | free {c : Candidate} : c.base = base → Usable bits map kind length space c → Tried bits map kind length space base (some (.inl c))
  | used {j : Nat} {r : Region Entry} : map[j]? = some r → kind.checkEntry r.val = false → r.base < base + length → base ≤ r.last →
    Tried bits map kind length space base (some (.inr j))

variable (kind) in
theorem tryRange_tried (h : Represents bits map space) (hlength : 0 < length) (hstraight : base + length ≤ 2 ^ 64) :
    Tried bits map kind length space base (tryRange map kind length base) := by
  unfold tryRange
  rw [last_eq hlength hstraight]
  cases hsearch : search base (base + length - 1) map with
  | none =>
    refine .outside ?_
    by_contra hle
    have hsome := search_some (show base ≤ base + length - 1 by omega) h.tiles (Nat.zero_le _) (by omega)
    rw [hsearch] at hsome
    cases hsome
  | some found =>
    obtain ⟨pre, mid, post⟩ := found
    obtain ⟨m, m', hfound⟩ := search_spec h.tiles hsearch
    rw [Option.map_some]
    dsimp only
    cases hfind : mid.findIdx? fun r => !kind.checkEntry r.val with
    | none =>
      refine .free rfl ⟨⟨m, m', hfound⟩, (all_mid h hfound hlength fun e => kind.checkEntry e = true).mp fun r hr => ?_⟩
      have hnot := List.findIdx?_eq_none_iff.mp hfind r hr
      rwa [Bool.not_eq_false'] at hnot
    | some j =>
      obtain ⟨hj, hcheck, -⟩ := List.findIdx?_eq_some_iff_getElem.mp hfind
      have hmeets := hfound.meets (List.getElem_mem hj)
      refine .used (r := mid[j]) ?_ (by simpa using hcheck) (by omega) hmeets.2
      rw [hfound.split, List.getElem?_append_right (Nat.le_add_right _ _), Nat.add_sub_cancel_left,
        List.getElem?_append_left hj, List.getElem?_eq_getElem hj]

end search

end BayTrail.Gcd.Services
