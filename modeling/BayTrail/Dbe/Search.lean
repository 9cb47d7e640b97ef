import BayTrail.Dbe.Keys

/-!
# The binary search

The last of the entries with the key is found, or one next to where the key would be. The comparison has to be
right at the entries that are looked at.
-/

namespace BayTrail.Dbe

/-- All entries on this side of a place. -/
def Below (P : Nat → Prop) (l : List Nat) (i : Int) : Prop := ∀ (j : Nat) p, (j : Int) < i → l[j]? = some p → P p
def Above (P : Nat → Prop) (l : List Nat) (i : Int) : Prop := ∀ (j : Nat) p, i < (j : Int) → l[j]? = some p → P p

/-- Where the loop may end: with the last comparison at this place. -/
def Ended (key : Nat → Nat) (k : Nat) (l : List Nat) (mid c : Int) : Prop :=
  0 ≤ mid ∧ mid < l.length ∧
    ((c = 0 ∧ (∃ p, l[mid.toNat]? = some p ∧ key p = k) ∧ Below (key · ≤ k) l mid ∧ Above (k < key ·) l mid)
      ∨ (0 < c ∧ Below (key · < k) l (mid + 1) ∧ Above (k < key ·) l mid)
      ∨ (c < 0 ∧ Below (key · < k) l mid ∧ Above (k < key ·) l (mid - 1)))

/-- One entry is not above another one that is not in front of it. -/
def Sorted (key : Nat → Nat) (l : List Nat) : Prop := ∀ (i j : Nat) p q, i ≤ j → l[i]? = some p → l[j]? = some q → key p ≤ key q

theorem sorted_iff {key : Nat → Nat} {l : List Nat} : Sorted key l ↔ l.Pairwise fun p q => key p ≤ key q := by
  rw [List.pairwise_iff_getElem]
  constructor
  · intro h i j hi hj hij
    exact h i j _ _ (Nat.le_of_lt hij) (List.getElem?_eq_getElem hi) (List.getElem?_eq_getElem hj)
  · intro h i j p q hij hp hq
    obtain ⟨hi, rfl⟩ := List.getElem?_eq_some_iff.mp hp
    obtain ⟨hj, rfl⟩ := List.getElem?_eq_some_iff.mp hq
    rcases Nat.lt_or_eq_of_le hij with hlt | rfl
    · exact h i j hi hj hlt
    · exact Nat.le_refl _

section search

variable {key : Nat → Nat} {k : Nat} {cmp : Nat → Int} {l part : List Nat}
variable {i p : Nat}

/-- Everything in front of an entry is not above it, and everything behind it not below. -/
theorem Sorted.below (h : Sorted key l) (hp : l[i]? = some p) : Below (key · ≤ key p) l (i + 1) :=
  fun j q hj hq => h j i q p (by omega) hq hp

theorem Sorted.above (h : Sorted key l) (hp : l[i]? = some p) : Above (key p ≤ key ·) l (i - 1) :=
  fun j q hj hq => h i j p q (by omega) hp hq

/-- In front of the search no key is above the one that is looked for, behind it all are. As soon as one is equal, the
search begins at one that is. -/
theorem binSearchLoop_spec (hsorted : Sorted key l) (hpart : ∀ i < l.length, part[i]? = l[i]?) {fuel : Nat} {st last : Int} (mid : Int)
    {c : Int}    (hst : 0 ≤ st) (hwindow : st ≤ last + 1) (hlast : last < l.length) (hfuel : last + 1 - st < fuel)
    (hcmp : ∀ p ∈ probed key k l fuel st last, (cmp p).sign = ((k : Int) - key p).sign)
    (habove : Above (k < key ·) l last)
    (hbelow : Below (key · < k) l st ∨ (st ≤ last ∧ ∃ p, l[st.toNat]? = some p ∧ key p = k))
    (hexit : last < st → Ended key k l mid c) :
    ∃ mid' c', binSearchLoop cmp part fuel st last mid c = some (mid', c') ∧ Ended key k l mid' c' := by
  induction fuel generalizing st last mid c with
  | zero => omega
  | succ n ih =>
    by_cases hle : st ≤ last
    · generalize hmid : (st + last + 1) / 2 = m at *
      have hp := List.getElem?_eq_getElem (show m.toNat < l.length by omega)
      generalize l[m.toNat] = p at hp
      have hpart' : part[m.toNat]? = some p := by rw [hpart _ (by omega), hp]
      simp only [probed, if_pos hle, hmid, hp] at hcmp
      have hhead := hcmp p List.mem_cons_self
      have htail := fun q hq => hcmp q (List.mem_cons_of_mem p hq)
      have hcast : ((m.toNat : Nat) : Int) = m := Int.toNat_of_nonneg (by omega)
      have hfront := hsorted.below hp
      have hback := hsorted.above hp
      rw [hcast] at hfront hback
      simp only [binSearchLoop, if_pos hle, hmid, hpart', Option.bind_eq_bind, Option.bind_some]
      rcases Nat.lt_trichotomy (key p) k with hlt | heq | hgt
      · -- above the entry
        have hpos : 0 < cmp p := Int.sign_eq_one_iff_pos.mp (hhead.trans (Int.sign_eq_one_of_pos (by omega)))
        have hless : Below (key · < k) l (m + 1) := fun j q hj hq => Nat.lt_of_le_of_lt (hfront j q hj hq) hlt
        rw [if_neg (by omega), if_pos hpos]
        rw [if_neg (by omega), if_pos hlt] at htail
        refine ih _ (by omega) (by omega) hlast (by omega) htail habove (Or.inl hless) fun hend => ?_
        exact ⟨by omega, by omega, Or.inr (Or.inl ⟨hpos, hless, fun j q hj hq => habove j q (by omega) hq⟩)⟩
      · -- one of those that are equal
        have hzero : cmp p = 0 := by
          rw [heq, Int.sub_self] at hhead
          exact Int.sign_eq_zero_iff_zero.mp hhead
        rw [if_pos hzero, hzero]
        rw [if_pos heq] at htail
        have hless : Below (key · ≤ k) l m := fun j q hj hq => heq ▸ hfront j q (by omega) hq
        by_cases hend : m = last
        · rw [if_pos hend]
          exact ⟨m, 0, rfl, by omega, by omega, Or.inl ⟨rfl, ⟨p, hp, heq⟩, hless, fun j q hj hq => habove j q (by omega) hq⟩⟩
        · rw [if_neg hend]
          rw [if_neg hend] at htail
          exact ih _ (by omega) (by omega) hlast (by omega) htail habove (Or.inr ⟨by omega, p, hp, heq⟩) fun hlt => absurd hlt (by omega)
      · -- below the entry: it is not the one where the search begins, if that is equal
        have hneg : cmp p < 0 := Int.sign_eq_neg_one_iff_neg.mp (hhead.trans (Int.sign_eq_neg_one_of_neg (by omega)))
        have hmore : Above (k < key ·) l (m - 1) := fun j q hj hq => Nat.lt_of_lt_of_le hgt (hback j q hj hq)
        rw [if_neg (by omega), if_neg (by omega)]
        rw [if_neg (by omega), if_neg (by omega)] at htail
        have hbelow' : Below (key · < k) l st ∨ (st ≤ m - 1 ∧ ∃ p, l[st.toNat]? = some p ∧ key p = k) := by
          rcases hbelow with hless | ⟨-, q, hq, hkey⟩
          · exact Or.inl hless
          · refine Or.inr ⟨?_, q, hq, hkey⟩
            have hne : st ≠ m := by
              rintro rfl
              rw [hp] at hq
              cases hq
              omega
            omega
        refine ih _ hst (by omega) (by omega) (by omega) htail hmore hbelow' fun hend => ?_
        rcases hbelow' with hless | ⟨hin, -⟩
        · exact ⟨by omega, by omega, Or.inr (Or.inr ⟨hneg, fun j q hj hq => hless j q (by omega) hq, hmore⟩)⟩
        · omega
    · rw [binSearchLoop, if_neg hle]
      exact ⟨mid, c, rfl, hexit (by omega)⟩

theorem mem_of_below_above {i : Int} (hbelow : Below (key · < k) l i) (habove : Above (k < key ·) l (i - 1)) : ¬ ∃ p ∈ l, key p = k := by
  rintro ⟨p, hp, hkey⟩
  obtain ⟨j, hj⟩ := List.getElem?_of_mem hp
  rcases Int.lt_or_le j i with hlt | hle
  · have := hbelow j p hlt hj
    omega
  · have := habove j p (by omega) hj
    omega

/-- Behind the entries that are not above the key. -/
def Place (key : Nat → Nat) (k : Nat) (l : List Nat) (i : Nat) : Prop :=
  i ≤ l.length ∧ Below (key · ≤ k) l i ∧ Above (k < key ·) l ((i : Int) - 1)

theorem Below.imp {P Q : Nat → Prop} {i : Int} (h : Below P l i) (hPQ : ∀ p, P p → Q p) : Below Q l i := fun j p hj hp => hPQ p (h j p hj hp)

variable (cmp k) in
theorem dbeBinSearch_spec (hsorted : Sorted key l) (hpart : ∀ i < l.length, part[i]? = l[i]?)
    (hcmp : ∀ p ∈ probed key k l (l.length + 1) 0 (l.length - 1), (cmp p).sign = ((k : Int) - key p).sign) :
    ∃ r, dbeBinSearch cmp part l.length = some r ∧ Located key k l r ∧ (r.2 = 0 ↔ ∃ p ∈ l, key p = k)
      ∧ Place key k l (if 0 ≤ r.2 then r.1 + 1 else r.1) := by
  by_cases hzero : l.length = 0
  · have hnil := List.eq_nil_of_length_eq_zero hzero
    subst hnil
    refine ⟨(0, -1), rfl, Or.inr (Or.inr ⟨rfl, nofun, fun _ => rfl, fun h => absurd rfl h, nofun⟩), ⟨nofun, nofun⟩, ?_⟩
    exact ⟨Nat.le_refl 0, nofun, nofun⟩
  · obtain ⟨mid, c, hrun, hmid, hlt, hended⟩ := binSearchLoop_spec (c := 0) hsorted hpart 0 (Int.le_refl 0) (by omega) (by omega)
      (by omega) hcmp (fun j p hj hp => absurd (List.getElem?_eq_some_iff.mp hp).1 (by omega)) (Or.inl fun j p hj _ => absurd hj (by omega))
      fun h => absurd h (by omega)
    have hcast : ((mid.toNat : Nat) : Int) = mid := Int.toNat_of_nonneg hmid
    refine ⟨(mid.toNat, c.sign), ?_, ?_⟩
    · rw [dbeBinSearch, if_neg hzero, hrun]
      rfl
    · rw [← hcast] at hended
      simp only [Int.toNat_natCast] at hended
      have hp := List.getElem?_eq_getElem (show mid.toNat < l.length by omega)
      generalize l[mid.toNat] = p at hp
      rcases hended with ⟨rfl, ⟨q, hq, hkey⟩, hbelow, habove⟩ | ⟨hpos, hbelow, habove⟩ | ⟨hneg, hbelow, habove⟩
      · -- found
        refine ⟨Or.inl ⟨rfl, q, hq, hkey⟩, ⟨fun _ => ⟨q, List.mem_of_getElem? hq, hkey⟩, fun _ => rfl⟩, ?_⟩
        rw [if_pos (show (0 : Int) ≤ Int.sign 0 from Int.le_refl 0)]
        refine ⟨by omega, fun j r hj hr => ?_, fun j r hj hr => habove j r (by omega) hr⟩
        have := hsorted j mid.toNat r q (by omega) hr hq
        omega
      · -- behind the place
        rw [Int.sign_eq_one_of_pos hpos]
        have hnone := mem_of_below_above hbelow (by rwa [Int.add_sub_cancel])
        refine ⟨Or.inr (Or.inl ⟨rfl, ⟨p, hp, hbelow _ p (by omega) hp⟩, fun q hq => habove _ q (by omega) hq⟩),
          ⟨fun h => absurd h Int.one_ne_zero, fun h => absurd h hnone⟩, ?_⟩
        rw [if_pos Int.one_nonneg]
        exact ⟨by omega, hbelow.imp fun _ => Nat.le_of_lt, fun j q hj hq => habove j q (by omega) hq⟩
      · -- in front of the place
        rw [Int.sign_eq_neg_one_of_neg hneg]
        have hnone := mem_of_below_above hbelow habove
        refine ⟨Or.inr (Or.inr ⟨rfl, fun q hq => habove _ q (by omega) hq, fun h => absurd (congrArg List.length h) hzero, fun _ => by omega,
          fun q hq hget => hbelow _ q (by omega) hget⟩), ⟨nofun, fun h => absurd h hnone⟩, ?_⟩
        rw [if_neg (show ¬ (0 : Int) ≤ -1 by decide)]
        exact ⟨by omega, hbelow.imp fun _ => Nat.le_of_lt, habove⟩

/-- At its place the new one is in order. -/
theorem Place.sorted {r : Nat} (hsorted : Sorted key l) (h : Place key (key r) l i) : Sorted key (l.insertIdx i r) := by
  obtain ⟨hi, hbelow, habove⟩ := h
  intro a b p q hab hp hq
  rcases Nat.lt_trichotomy b i with hb | rfl | hb
  · -- both in front of it
    rw [List.getElem?_insertIdx_of_lt (by omega)] at hp hq
    exact hsorted a b p q hab hp hq
  · rw [List.getElem?_insertIdx_self, if_pos hi] at hq
    cases hq
    rcases Nat.lt_or_eq_of_le hab with hlt | rfl
    · rw [List.getElem?_insertIdx_of_lt hlt] at hp
      exact hbelow a p (by omega) hp
    · rw [List.getElem?_insertIdx_self, if_pos hi] at hp
      cases hp
      exact Nat.le_refl _
  · rw [List.getElem?_insertIdx_of_gt hb] at hq
    rcases Nat.lt_trichotomy a i with ha | rfl | ha
    · rw [List.getElem?_insertIdx_of_lt ha] at hp
      exact hsorted a (b - 1) p q (by omega) hp hq
    · rw [List.getElem?_insertIdx_self, if_pos hi] at hp
      cases hp
      exact Nat.le_of_lt (habove (b - 1) q (by omega) hq)
    · rw [List.getElem?_insertIdx_of_gt ha] at hp
      exact hsorted (a - 1) (b - 1) p q (by omega) hp hq

end search

end BayTrail.Dbe
