import BayTrail.Lib.Merge
import Mathlib.Tactic.Ring

/-!
# The passes of SortList

What the merge sort of `BootOptions.c` does to the list of its nodes: a pass merges the runs of one length in
pairs, and the next one has runs that are twice as long.
-/

namespace BayTrail.Bds

open BayTrail.Lib

variable {α : Type}

/-- `Compare(p, q) > 0` takes the element of the second run. -/
def before (compare : α → α → Int) (p q : α) : Bool := compare p q ≤ 0

/-- One pass: the number of merges and the list. -/
def mergePass (compare : α → α → Int) (inSize : Nat) : Nat → List α → Nat × List α
  | 0, _ => (0, [])
  | _ + 1, [] => (0, [])
  | n + 1, x :: l =>
    let p := (x :: l).take inSize
    let q := ((x :: l).drop inSize).take inSize
    let r := mergePass compare inSize n ((x :: l).drop (2 * inSize))
    (r.1 + 1, p.merge q (before compare) ++ r.2)

/-- The list after so many passes. -/
def passes (compare : α → α → Int) : Nat → List α → List α
  | 0, l => l
  | k + 1, l => (mergePass compare (2 ^ k) l.length (passes compare k l)).2

/-- The merges of pass `k` over so many elements. -/
def merges (n k : Nat) : Nat := (n + 2 ^ (k + 1) - 1) / 2 ^ (k + 1)

/-- The same elements in order, equal ones as they have been. -/
structure Sorts (compare : α → α → Int) (l l' : List α) : Prop where
  perm : l'.Perm l
  sorted : SortedBy (before compare) l'
  sameOrder : SameOrder (before compare) l l'

section sort

variable {compare : α → α → Int} {inSize : Nat} {l : List α}
variable {n : Nat}

theorem mergePass_nil : mergePass compare inSize n [] = (0, []) := by cases n <;> rfl

theorem twoRuns_perm (compare : α → α → Int) (l : List α) (inSize : Nat) :
    ((l.take inSize).merge ((l.drop inSize).take inSize) (before compare)).Perm (l.take (2 * inSize)) := by
  have hmerge : ((l.take inSize).merge ((l.drop inSize).take inSize) (before compare)).Perm (l.take inSize ++ (l.drop inSize).take inSize) :=
    List.merge_perm_append _
  rwa [← List.take_add, ← Nat.two_mul] at hmerge

theorem mergePass_perm (compare : α → α → Int) (hsize : 0 < inSize) (hn : l.length ≤ n) : (mergePass compare inSize n l).2.Perm l := by
  induction n generalizing l with
  | zero => rw [List.eq_nil_of_length_eq_zero (Nat.le_zero.mp hn), mergePass_nil]
  | succ n ih =>
    cases l with
    | nil => rw [mergePass_nil]
    | cons x l =>
      have hrest := ih (l := (x :: l).drop (2 * inSize)) (by rw [List.length_drop]; omega)
      have happend := (twoRuns_perm compare (x :: l) inSize).append hrest
      rwa [List.take_append_drop] at happend

/-- A pass doubles the length of the runs, and equal elements stay in their order. -/
theorem mergePass_spec (hle : TotalOrder (before compare)) (hsize : 0 < inSize) (hn : l.length ≤ n)
    (hruns : SortedRuns (before compare) inSize l) :
    SortedRuns (before compare) (2 * inSize) (mergePass compare inSize n l).2 ∧ SameOrder (before compare) l (mergePass compare inSize n l).2 := by
  have hnil : ∀ n, SortedRuns (before compare) (2 * inSize) (mergePass compare inSize n []).2
      ∧ SameOrder (before compare) [] (mergePass compare inSize n []).2 := by
    intro n
    rw [mergePass_nil]
    exact ⟨fun k => by rw [List.drop_nil, List.take_nil]; exact .nil, fun _ _ => rfl⟩
  induction n generalizing l with
  | zero =>
    rw [List.eq_nil_of_length_eq_zero (Nat.le_zero.mp hn)]
    exact hnil 0
  | succ n ih =>
    cases hl : l with
    | nil => exact hnil (n + 1)
    | cons x rest =>
      have hpos : 0 < l.length := by rw [hl, List.length_cons]; omega
      rw [mergePass]
      simp only
      rw [← hl]
      have hdrop : (l.drop (2 * inSize)).length ≤ n := by rw [List.length_drop]; omega
      obtain ⟨hr, horder⟩ := ih hdrop (hruns.drop 2)
      have hp := hruns.first
      have hq : SortedBy (before compare) ((l.drop inSize).take inSize) := by
        have := (hruns.drop 1).first
        rwa [Nat.one_mul] at this
      -- the list is the two runs and the rest
      have hsplit : l.take inSize ++ ((l.drop inSize).take inSize ++ l.drop (2 * inSize)) = l := by
        rw [Nat.two_mul, ← List.drop_drop, List.take_append_drop, List.take_append_drop]
      refine ⟨sortedRuns_append (sortedBy_merge hle hp hq) (fun hne => ?_) hr, fun P hP => ?_⟩
      · have hlong : 2 * inSize < l.length := by
          rcases Nat.lt_or_ge (2 * inSize) l.length with h | h
          · exact h
          · have hperm := mergePass_perm compare hsize hdrop
            rw [List.drop_eq_nil_of_le h] at hperm hne
            exact absurd hperm.eq_nil hne
        rw [(twoRuns_perm compare l inSize).length_eq, List.length_take_of_le hlong.le]
      · rw [List.filter_append, filter_merge hle hP hp, horder P hP, List.append_assoc, ← List.filter_append, ← List.filter_append, hsplit]

theorem mergePass_count (hsize : 0 < inSize) (hn : l.length ≤ n) :
    (mergePass compare inSize n l).1 = (l.length + 2 * inSize - 1) / (2 * inSize) := by
  induction n generalizing l with
  | zero =>
    rw [List.eq_nil_of_length_eq_zero (Nat.le_zero.mp hn), mergePass_nil]
    exact (Nat.div_eq_of_lt (by rw [List.length_nil]; omega)).symm
  | succ n ih =>
    cases l with
    | nil =>
      rw [mergePass_nil]
      exact (Nat.div_eq_of_lt (by rw [List.length_nil]; omega)).symm
    | cons x l =>
      simp only [mergePass]
      rw [ih (by rw [List.length_drop]; omega), List.length_drop]
      by_cases hlong : 2 * inSize ≤ (x :: l).length
      · rw [← Nat.add_div_right _ (by omega)]
        congr 1
        omega
      · -- one merge, and nothing behind it
        rw [List.length_cons] at hlong ⊢
        rw [Nat.div_eq_of_lt (by omega), Nat.div_eq_of_lt_le (k := 1) (by omega) (by omega)]

/-! ## The passes -/

variable {k : Nat}

theorem passes_perm (compare : α → α → Int) (k : Nat) (l : List α) : (passes compare k l).Perm l := by
  induction k with
  | zero => exact .refl l
  | succ k ih => exact (mergePass_perm compare (Nat.two_pow_pos k) ih.length_eq.le).trans ih

theorem passes_spec (hle : TotalOrder (before compare)) (k : Nat) (l : List α) :
    SortedRuns (before compare) (2 ^ k) (passes compare k l) ∧ SameOrder (before compare) l (passes compare k l) := by
  induction k with
  | zero => exact ⟨sortedRuns_one l, fun _ _ => rfl⟩
  | succ k ih =>
    obtain ⟨hruns, horder⟩ := ih
    obtain ⟨hruns', horder'⟩ := mergePass_spec hle (Nat.two_pow_pos k) (passes_perm compare k l).length_eq.le hruns
    rw [Nat.pow_succ, Nat.mul_comm]
    exact ⟨hruns', horder.trans horder'⟩

/-- The number of merges of a pass. -/
theorem passes_count (compare : α → α → Int) (k : Nat) (l : List α) :
    (mergePass compare (2 ^ k) l.length (passes compare k l)).1 = merges l.length k := by
  rw [mergePass_count (Nat.two_pow_pos k) (passes_perm compare k l).length_eq.le, (passes_perm compare k l).length_eq, merges, Nat.pow_succ,
    Nat.mul_comm (2 ^ k) 2]

end sort

end BayTrail.Bds
