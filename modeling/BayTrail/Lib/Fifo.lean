import Mathlib.Data.List.Basic
import Mathlib.Data.Nat.ModEq

/-!
# Rings of cells

What stands in a ring of `n` cells from a place on, and what the writes at both of its ends do to
that. A place may be given with rounds to spare: it counts modulo `n`.
-/

namespace BayTrail.Lib

variable {α : Type} {n head k i : Nat} {data : Nat → α} {x : α}

/-- So many cells of the ring, from `head` on. -/
def ring (n : Nat) (data : Nat → α) (head k : Nat) : List α :=
  (List.range k).map fun i => data ((head + i) % n)

/-- A cell is written. -/
def write (data : Nat → α) (i : Nat) (x : α) : Nat → α := fun j => if j = i then x else data j

@[simp] theorem write_self : write data i x i = x := if_pos rfl

theorem write_of_ne {j : Nat} (h : j ≠ i) : write data i x j = data j := if_neg h

@[simp] theorem ring_zero : ring n data head 0 = [] := rfl

@[simp] theorem ring_length : (ring n data head k).length = k := by simp [ring]

theorem ring_mod : ring n data (head % n) k = ring n data head k := by
  simp [ring, Nat.mod_add_mod]

/-- The oldest one in front. -/
theorem ring_succ : ring n data head (k + 1) = data (head % n) :: ring n data (head + 1) k := by
  unfold ring
  rw [List.range_succ_eq_map, List.map_cons, List.map_map, Nat.add_zero]
  refine congrArg _ (List.map_congr_left fun i _ => ?_)
  show data ((head + (i + 1)) % n) = data ((head + 1 + i) % n)
  rw [Nat.add_right_comm, Nat.add_assoc]

/-- The newest one at the end. -/
theorem ring_succ' : ring n data head (k + 1) = ring n data head k ++ [data ((head + k) % n)] := by
  unfold ring
  rw [List.range_succ, List.map_append]
  rfl

theorem ring_congr {data' : Nat → α} (h : ∀ i < k, data' ((head + i) % n) = data ((head + i) % n)) :
    ring n data' head k = ring n data head k :=
  List.map_congr_left fun i hi => h i (List.mem_range.mp hi)

/-- Two cells of the ring are the same one only if they are as far from its head. -/
theorem add_mod_inj {j : Nat} (hi : i < n) (hj : j < n) (h : (head + i) % n = (head + j) % n) : i = j := by
  have hmod : i % n = j % n := Nat.ModEq.add_left_cancel' head h
  rwa [Nat.mod_eq_of_lt hi, Nat.mod_eq_of_lt hj] at hmod

/-- What is written behind the last one is the new last one. -/
theorem ring_append (h : k < n) :
    ring n (write data ((head + k) % n) x) head (k + 1) = ring n data head k ++ [x] := by
  rw [ring_succ', write_self]
  refine congrArg (· ++ [x]) (ring_congr fun i hi => write_of_ne fun he => ?_)
  exact Nat.ne_of_lt hi (add_mod_inj (by omega) h he)

/-- What is written in front of the first one is the new first one. -/
theorem ring_cons (h : k < n) :
    ring n (write data (head % n) x) head (k + 1) = x :: ring n data (head + 1) k := by
  rw [ring_succ, write_self]
  refine congrArg _ (ring_congr fun i hi => write_of_ne fun he => ?_)
  rw [Nat.add_assoc, Nat.add_comm 1 i] at he
  exact absurd (add_mod_inj (j := 0) (by omega) (by omega) he) (by omega)

end BayTrail.Lib
