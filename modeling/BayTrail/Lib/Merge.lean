import Mathlib.Data.List.Basic

/-!
# Sorted runs

A list whose pieces of one length are sorted, and what merging two sorted lists keeps: equal elements stay in
their order.
-/

namespace BayTrail.Lib

variable {α : Type} {le : α → α → Bool} {n : Nat} {l m p q r : List α}

/-- The order of a sort: any two elements compare, and `le` is transitive. -/
structure TotalOrder (le : α → α → Bool) : Prop where
  trans : ∀ a b c, le a b = true → le b c = true → le a c = true
  total : ∀ a b, le a b || le b a

def SortedBy (le : α → α → Bool) (l : List α) : Prop := l.Pairwise fun a b => le a b = true

/-- Elements that are all equal to one another. -/
def Equals (le : α → α → Bool) (P : α → Bool) : Prop := ∀ a b, P a = true → P b = true → le a b = true

/-- Equal elements are in the same order in both lists. -/
def SameOrder (le : α → α → Bool) (l l' : List α) : Prop := ∀ P, Equals le P → l'.filter P = l.filter P

theorem sortedBy_merge (hle : TotalOrder le) (hp : SortedBy le p) (hq : SortedBy le q) : SortedBy le (p.merge q le) :=
  List.pairwise_merge hle.trans hle.total p q hp hq

/-- Of equal elements those of the first list are in front. -/
theorem filter_merge (hle : TotalOrder le) {P : α → Bool} (hP : Equals le P) (hp : SortedBy le p) :
    (p.merge q le).filter P = p.filter P ++ q.filter P := by
  induction p generalizing q with
  | nil => rw [List.nil_merge, List.filter_nil, List.nil_append]
  | cons x p ih =>
    have hx := (List.pairwise_cons.mp hp).1
    have hrest := (List.pairwise_cons.mp hp).2
    induction q with
    | nil => rw [List.merge_right, List.filter_nil, List.append_nil]
    | cons y q ihq =>
      by_cases hxy : le x y = true
      · rw [List.cons_merge_cons_pos le p q hxy]
        by_cases hPx : P x = true
        · rw [List.filter_cons_of_pos hPx, ih hrest, List.filter_cons_of_pos hPx]
          rfl
        · rw [List.filter_cons_of_neg hPx, ih hrest, List.filter_cons_of_neg hPx]
      · rw [List.cons_merge_cons_neg le p q hxy]
        by_cases hPy : P y = true
        · -- an element of the first list that is equal to this one is not below it, but it would be in front of it
          have hnone : (x :: p).filter P = [] := by
            rw [List.filter_eq_nil_iff]
            intro z hz hPz
            rcases List.mem_cons.mp hz with rfl | hz
            · exact hxy (hP z y hPz hPy)
            · exact hxy (hle.trans x z y (hx z hz) (hP z y hPz hPy))
          rw [List.filter_cons_of_pos hPy, ihq, hnone, List.nil_append, List.filter_cons_of_pos hPy, List.nil_append]
        · rw [List.filter_cons_of_neg hPy, ihq, List.filter_cons_of_neg hPy]

theorem SameOrder.trans {l' l'' : List α} (h : SameOrder le l l') (h' : SameOrder le l' l'') : SameOrder le l l'' :=
  fun P hP => (h' P hP).trans (h P hP)

/-! ## Runs -/

/-- Every piece of this length is sorted. -/
def SortedRuns (le : α → α → Bool) (n : Nat) (l : List α) : Prop := ∀ k, SortedBy le ((l.drop (k * n)).take n)

theorem sortedRuns_one (l : List α) : SortedRuns le 1 l := by
  intro k
  cases hl : l.drop (k * 1) with
  | nil => exact .nil
  | cons x l => exact List.pairwise_singleton _ x

theorem SortedRuns.first (h : SortedRuns le n l) : SortedBy le (l.take n) := by
  have := h 0
  rwa [Nat.zero_mul, List.drop_zero] at this

theorem SortedRuns.drop (h : SortedRuns le n l) (j : Nat) : SortedRuns le n (l.drop (j * n)) := by
  intro k
  rw [List.drop_drop, ← Nat.add_mul]
  exact h (j + k)

theorem SortedRuns.sorted (h : SortedRuns le n l) (hlen : l.length ≤ n) : SortedBy le l := by
  have := h.first
  rwa [List.take_of_length_le hlen] at this

theorem sortedRuns_append (hm : SortedBy le m) (hfull : r ≠ [] → m.length = n) (hr : SortedRuns le n r) :
    SortedRuns le n (m ++ r) := by
  intro k
  by_cases hnil : r = []
  · rw [hnil, List.append_nil]
    exact (hm.sublist (List.drop_sublist _ m)).sublist (List.take_sublist n _)
  · cases k with
    | zero =>
      rw [Nat.zero_mul, List.drop_zero, ← hfull hnil, List.take_left']
      · exact hm
      · rfl
    | succ k =>
      rw [Nat.succ_mul, Nat.add_comm, ← List.drop_drop, ← hfull hnil, List.drop_left, hfull hnil]
      exact hr k

end BayTrail.Lib
