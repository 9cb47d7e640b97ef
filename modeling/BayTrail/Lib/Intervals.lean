import Mathlib.Algebra.Ring.Nat

/-!
# Sets of numbers as separated intervals

A set of numbers as the list of its maximal intervals, in ascending order: between two of them there is
a number that is in neither. A range is taken out of one interval, or put between two, with which it is
joined if it touches them.
-/

namespace BayTrail.Lib

/-- So many numbers from the first one on. -/
structure Interval where
  first : Nat
  count : Nat
  deriving DecidableEq

namespace Interval

/-- The number behind the interval. -/
def past (x : Interval) : Nat := x.first + x.count

variable {lo p a n : Nat} {x y : Interval} {xs ys front back rev : List Interval}

/-- The number is in one of the intervals. -/
def Covers (xs : List Interval) (p : Nat) : Prop := ∃ x ∈ xs, x.first ≤ p ∧ p < x.past

/-- The intervals have numbers, and each leaves one out behind the one in front; the first is behind `lo`. -/
def Separated : Nat → List Interval → Prop
  | _, [] => True
  | lo, x :: xs => lo < x.first ∧ 0 < x.count ∧ Separated x.past xs

/-! ## Lists of intervals -/

theorem covers_nil : ¬ Covers [] p := fun ⟨_, hx, _⟩ => List.not_mem_nil hx

theorem covers_cons : Covers (x :: xs) p ↔ (x.first ≤ p ∧ p < x.past) ∨ Covers xs p := by
  unfold Covers
  simp only [List.mem_cons, or_and_right, exists_or, exists_eq_left]

theorem covers_append : Covers (xs ++ ys) p ↔ Covers xs p ∨ Covers ys p := by
  unfold Covers
  simp only [List.mem_append, or_and_right, exists_or]

theorem Separated.mono {lo' : Nat} (hle : lo' ≤ lo) (h : Separated lo xs) : Separated lo' xs := by
  cases xs with
  | nil => exact h
  | cons x xs => exact ⟨Nat.lt_of_le_of_lt hle h.1, h.2⟩

/-- The end of the last interval. -/
def pastAll (lo : Nat) (xs : List Interval) : Nat := xs.foldl (fun _ x => x.past) lo

theorem separated_append : ∀ {lo : Nat} {xs : List Interval},
    Separated lo (xs ++ ys) ↔ Separated lo xs ∧ Separated (pastAll lo xs) ys
  | _, [] => ⟨fun h => ⟨trivial, h⟩, fun h => h.2⟩
  | _, x :: xs => by
    change (_ ∧ _ ∧ Separated x.past (xs ++ ys)) ↔ (_ ∧ _ ∧ Separated x.past xs) ∧ Separated (pastAll x.past xs) ys
    rw [separated_append, and_assoc, and_assoc]

theorem Separated.mem : ∀ {lo : Nat} {xs : List Interval}, Separated lo xs → x ∈ xs →
    lo < x.first ∧ 0 < x.count ∧ x.past ≤ pastAll lo xs
  | _, [], _, hx => (nomatch hx)
  | lo, y :: ys, ⟨h1, h2, h3⟩, hx => by
    have hle : ∀ {lo : Nat} {xs : List Interval}, Separated lo xs → lo ≤ pastAll lo xs := by
      intro lo xs
      induction xs generalizing lo with
      | nil => exact fun _ => Nat.le_refl lo
      | cons z zs ih =>
        intro ⟨h1, h2, h3⟩
        have hrest := ih h3
        unfold past at hrest
        change lo ≤ pastAll (z.first + z.count) zs
        omega
    rcases List.mem_cons.mp hx with rfl | hmem
    · exact ⟨h1, h2, hle h3⟩
    · obtain ⟨hlt, hpos, hpast⟩ := Separated.mem h3 hmem
      unfold past at hlt
      exact ⟨by omega, hpos, hpast⟩

theorem Separated.covers_bounds (h : Separated lo xs) (hp : Covers xs p) : lo < p ∧ p < pastAll lo xs := by
  obtain ⟨x, hx, hfirst, hpast⟩ := hp
  obtain ⟨hlt, -, hle⟩ := h.mem hx
  omega

/-- Numbers that follow one another are in one interval. -/
theorem Separated.one : ∀ {lo : Nat} {xs : List Interval}, Separated lo xs → 0 < n →
    (∀ p, a ≤ p → p < a + n → Covers xs p) → ∃ x ∈ xs, x.first ≤ a ∧ a + n ≤ x.past
  | _, [], _, hn, h => absurd (h a (Nat.le_refl a) (by omega)) covers_nil
  | lo, x :: xs, ⟨h1, h2, h3⟩, hn, h => by
    by_cases hin : x.first ≤ a ∧ a < x.past
    · refine ⟨x, List.mem_cons_self, hin.1, ?_⟩
      by_contra hlong
      -- the number behind the interval is in none
      rcases covers_cons.mp (h x.past (by omega) (by omega)) with hself | hrest
      · exact Nat.lt_irrefl _ hself.2
      · exact Nat.lt_irrefl _ (h3.covers_bounds hrest).1
    · have hstart := (covers_cons.mp (h a (Nat.le_refl a) (by omega))).resolve_left hin
      have hbehind := (h3.covers_bounds hstart).1
      obtain ⟨y, hy, hfirst, hpast⟩ := Separated.one h3 hn fun p h1 h2 =>
        (covers_cons.mp (h p h1 h2)).resolve_left fun hx => by omega
      exact ⟨y, List.mem_cons_of_mem x hy, hfirst, hpast⟩

/-- The part of a list up to its last interval with a property, that interval, and the rest. -/
def splitLast (q : Interval → Bool) : List Interval → Option (List Interval × Interval × List Interval)
  | [] => none
  | x :: xs =>
    match splitLast q xs with
    | some (front, y, back) => some (x :: front, y, back)
    | none => if q x then some ([], x, xs) else none

variable {q : Interval → Bool}

theorem splitLast_none : ∀ {xs : List Interval}, splitLast q xs = none → ∀ x ∈ xs, q x = false
  | [], _, _, hx => (nomatch hx)
  | x :: xs, h, y, hy => by
    unfold splitLast at h
    cases hrest : splitLast q xs with
    | some found =>
      rw [hrest] at h
      cases h
    | none =>
      rw [hrest] at h
      dsimp only at h
      split at h
      · cases h
      · rename_i hq
        rcases List.mem_cons.mp hy with rfl | hmem
        · exact Bool.not_eq_true _ ▸ hq
        · exact splitLast_none hrest y hmem

theorem splitLast_some : ∀ {xs front back : List Interval} {x : Interval},
    splitLast q xs = some (front, x, back) → xs = front ++ x :: back ∧ q x = true ∧ ∀ y ∈ back, q y = false
  | [], _, _, _, h => by cases h
  | y :: ys, front, back, x, h => by
    unfold splitLast at h
    cases hrest : splitLast q ys with
    | some found =>
      obtain ⟨front', x', back'⟩ := found
      rw [hrest] at h
      cases h
      obtain ⟨hsplit, hq, hback⟩ := splitLast_some hrest
      exact ⟨by rw [hsplit, List.cons_append], hq, hback⟩
    | none =>
      rw [hrest] at h
      dsimp only at h
      split at h
      · rename_i hq
        cases h
        exact ⟨rfl, hq, splitLast_none hrest⟩
      · cases h

/-! ## Taking out -/

/-- What of the interval is in front of a range and behind it. -/
def carve (x : Interval) (a n : Nat) : List Interval :=
  (if x.first < a then [⟨x.first, a - x.first⟩] else []) ++ if a + n < x.past then [⟨a + n, x.past - (a + n)⟩] else []

theorem covers_carve (hfirst : x.first ≤ a) (hpast : a + n ≤ x.past) :
    Covers (carve x a n) p ↔ (x.first ≤ p ∧ p < x.past) ∧ ¬ (a ≤ p ∧ p < a + n) := by
  unfold carve
  rw [covers_append]
  have hlow : Covers (if x.first < a then [⟨x.first, a - x.first⟩] else []) p ↔ x.first ≤ p ∧ p < a := by
    split
    · rw [covers_cons, or_iff_left covers_nil]
      dsimp only [past]
      omega
    · exact iff_of_false covers_nil (by omega)
  have hhigh : Covers (if a + n < x.past then [⟨a + n, x.past - (a + n)⟩] else []) p ↔ a + n ≤ p ∧ p < x.past := by
    split
    · rw [covers_cons, or_iff_left covers_nil]
      dsimp only [past] at hpast ⊢
      omega
    · exact iff_of_false covers_nil (by omega)
  rw [hlow, hhigh]
  omega

theorem separated_carve (hn : 0 < n) (hfirst : x.first ≤ a) (hpast : a + n ≤ x.past) (h : Separated lo (front ++ x :: back)) :
    Separated lo (front ++ (carve x a n ++ back)) := by
  rw [separated_append] at h ⊢
  obtain ⟨hfront, hlt, hpos, hback⟩ := h
  refine ⟨hfront, ?_⟩
  generalize pastAll lo front = k at hlt
  unfold carve
  have htail : ∀ k', k' < a + n → Separated k' ((if a + n < x.past then [⟨a + n, x.past - (a + n)⟩] else []) ++ back) := by
    intro k' hk'
    split
    · rename_i hlong
      refine ⟨hk', by dsimp only; omega, ?_⟩
      have heq : past ⟨a + n, x.past - (a + n)⟩ = x.past := Nat.add_sub_cancel' (Nat.le_of_lt hlong)
      change Separated (past ⟨a + n, x.past - (a + n)⟩) back
      rw [heq]
      exact hback
    · exact hback.mono (by omega)
  split
  · rename_i hshort
    refine ⟨hlt, by dsimp only; omega, ?_⟩
    have heq : past ⟨x.first, a - x.first⟩ = a := Nat.add_sub_cancel' hfirst
    change Separated (past ⟨x.first, a - x.first⟩) ((if a + n < x.past then [⟨a + n, x.past - (a + n)⟩] else []) ++ back)
    rw [heq]
    exact htail a (by omega)
  · exact htail k (by omega)

/-- A range that is taken out of one interval. -/
theorem covers_carved (hfirst : x.first ≤ a) (hpast : a + n ≤ x.past) (h : Separated lo (front ++ x :: back)) :
    Covers (front ++ (carve x a n ++ back)) p ↔ Covers (front ++ x :: back) p ∧ ¬ (a ≤ p ∧ p < a + n) := by
  obtain ⟨hfront, hlt, hpos, hback⟩ := separated_append.mp h
  rw [covers_append, covers_append, covers_append, covers_cons, covers_carve hfirst hpast]
  have hlow : Covers front p → p < a := fun hp => by
    have hbounds := hfront.covers_bounds hp
    omega
  have hhigh : Covers back p → a + n ≤ p := fun hp => by
    have hbounds := hback.covers_bounds hp
    omega
  constructor
  · intro hp
    rcases hp with hp | hp | hp
    · have hlt := hlow hp
      exact ⟨Or.inl hp, by omega⟩
    · exact ⟨Or.inr (Or.inl hp.1), hp.2⟩
    · have hge := hhigh hp
      exact ⟨Or.inr (Or.inr hp), by omega⟩
  · intro ⟨hp, hout⟩
    rcases hp with hp | hp | hp
    · exact Or.inl hp
    · exact Or.inr (Or.inl ⟨hp, hout⟩)
    · exact Or.inr (Or.inr hp)

/-! ## Putting in -/

/-- The interval and the one in front of it, the intervals in front standing in descending order. -/
def joinFront (rev : List Interval) (x : Interval) : List Interval × Interval :=
  match rev with
  | y :: rest => if y.past = x.first then (rest, ⟨y.first, y.count + x.count⟩) else (rev, x)
  | [] => ([], x)

/-- The interval and the one behind it. -/
def joinBack (x : Interval) (back : List Interval) : List Interval :=
  match back with
  | z :: rest => if x.past = z.first then ⟨x.first, x.count + z.count⟩ :: rest else x :: back
  | [] => [x]

/-- An interval is put between others. -/
def insert (rev : List Interval) (x : Interval) (back : List Interval) : List Interval :=
  (joinFront rev x).1.reverse ++ joinBack (joinFront rev x).2 back

theorem covers_joinBack : Covers (joinBack x back) p ↔ (x.first ≤ p ∧ p < x.past) ∨ Covers back p := by
  cases back with
  | nil => exact covers_cons
  | cons z rest =>
    unfold joinBack
    dsimp only
    split
    · rename_i hjoin
      rw [covers_cons, covers_cons, ← or_assoc]
      refine or_congr_left ?_
      dsimp only [past] at hjoin ⊢
      omega
    · exact covers_cons

theorem covers_joinFront : (Covers (joinFront rev x).1 p ∨ (joinFront rev x).2.first ≤ p ∧ p < (joinFront rev x).2.past) ↔
    Covers rev p ∨ x.first ≤ p ∧ p < x.past := by
  cases rev with
  | nil => exact Iff.rfl
  | cons y rest =>
    unfold joinFront
    dsimp only
    split
    · rename_i hjoin
      rw [covers_cons, or_assoc]
      dsimp only [past] at hjoin ⊢
      constructor
      · intro hp
        rcases hp with hp | hp
        · exact Or.inr (Or.inl hp)
        · by_cases hlt : p < x.first
          · exact Or.inl (by omega)
          · exact Or.inr (Or.inr (by omega))
      · intro hp
        rcases hp with hp | hp | hp
        · exact Or.inr (by omega)
        · exact Or.inl hp
        · exact Or.inr (by omega)
    · exact Iff.rfl

theorem covers_reverse : Covers xs.reverse p ↔ Covers xs p := by
  unfold Covers
  simp only [List.mem_reverse]

/-- The numbers of the others, and those of the interval. -/
theorem covers_insert : Covers (insert rev x back) p ↔ Covers (rev.reverse ++ back) p ∨ x.first ≤ p ∧ p < x.past := by
  unfold insert
  rw [covers_append, covers_append, covers_reverse, covers_reverse, covers_joinBack, ← or_assoc, covers_joinFront, or_right_comm]

theorem separated_joinBack (hlt : lo < x.first) (hpos : 0 < x.count) (hback : Separated (x.past - 1) back) :
    Separated lo (joinBack x back) := by
  cases back with
  | nil => exact ⟨hlt, hpos, trivial⟩
  | cons z rest =>
    obtain ⟨hz, hzpos, hrest⟩ := hback
    unfold joinBack
    dsimp only
    split
    · rename_i hjoin
      refine ⟨hlt, by dsimp only; omega, ?_⟩
      have heq : past ⟨x.first, x.count + z.count⟩ = z.past := by
        dsimp only [past] at hjoin ⊢
        omega
      rw [heq]
      exact hrest
    · exact ⟨hlt, hpos, by omega, hzpos, hrest⟩

/-- The intervals stay apart if the new one has no number of them. -/
theorem separated_insert (hpos : 0 < x.count) (hfront : Separated lo rev.reverse) (hlo : lo < x.first)
    (hlast : pastAll lo rev.reverse ≤ x.first) (hback : Separated (x.past - 1) back) : Separated lo (insert rev x back) := by
  unfold insert
  cases rev with
  | nil => exact separated_joinBack hlo hpos hback
  | cons y rest =>
    rw [List.reverse_cons, separated_append] at hfront
    obtain ⟨hrest, hy, hypos, -⟩ := hfront
    have hlast : y.past ≤ x.first := by
      rw [List.reverse_cons] at hlast
      unfold pastAll at hlast
      rw [List.foldl_append] at hlast
      exact hlast
    unfold joinFront
    dsimp only
    split
    · rename_i hjoin
      refine separated_append.mpr ⟨hrest, separated_joinBack hy (by dsimp only; omega) ?_⟩
      have heq : past ⟨y.first, y.count + x.count⟩ = x.past := by
        dsimp only [past] at hjoin ⊢
        omega
      rw [heq]
      exact hback
    · rw [List.reverse_cons]
      refine separated_append.mpr ⟨separated_append.mpr ⟨hrest, hy, hypos, trivial⟩, ?_⟩
      have heq : pastAll lo (rest.reverse ++ [y]) = y.past := by
        unfold pastAll
        rw [List.foldl_append]
        rfl
      rw [heq]
      have hbehind : y.past < x.first := by omega
      exact separated_joinBack hbehind hpos hback

end Interval

end BayTrail.Lib
