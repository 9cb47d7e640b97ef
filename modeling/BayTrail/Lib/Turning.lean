import Mathlib.Data.ZMod.Defs

/-!
# Registers that turn

A round works on registers by their places. After it the registers move on by one place: the last comes first.
Code that is unrolled moves nothing, and names in each round the registers that would stand in the places by
then. Both leave the same in the registers once these have turned all the way round.
-/

namespace BayTrail.Lib

variable {n : Nat} {α : Type}

/-- Writing a register. -/
def setReg (r : Vector α n) (k : Fin n) (x : α) : Vector α n := r.set k x k.isLt

theorem get_setReg (r : Vector α n) (k j : Fin n) (x : α) : (setReg r k x).get j = if k = j then x else r.get j :=
  (Vector.getElem_set k.isLt j.isLt).trans (if_congr Fin.ext_iff.symm rfl rfl)

variable [NeZero n]

/-- The register that stands in a place after so many turns. -/
def standing (t : Nat) (k : Fin n) : Fin n := k - Fin.ofNat n t

/-- The registers after so many turns. -/
def turned (t : Nat) (r : Vector α n) : Vector α n := Vector.ofFn fun k => r.get (standing t k)

theorem ofNat_add (s t : Nat) : Fin.ofNat n (s + t) = Fin.ofNat n s + Fin.ofNat n t := by
  ext
  simp [Fin.ofNat, Fin.val_add, Nat.add_mod]

theorem standing_inj {t : Nat} {k k' : Fin n} : standing t k = standing t k' ↔ k = k' := sub_left_inj

@[simp]
theorem get_turned (t : Nat) (r : Vector α n) (k : Fin n) : (turned t r).get k = r.get (standing t k) :=
  Vector.getElem_ofFn k.isLt

@[simp]
theorem turned_zero (r : Vector α n) : turned 0 r = r := by
  refine Vector.ext fun i hi => ?_
  change (turned 0 r).get ⟨i, hi⟩ = r.get ⟨i, hi⟩
  rw [get_turned]
  exact congrArg r.get (sub_zero _)

theorem turned_turned (s t : Nat) (r : Vector α n) : turned s (turned t r) = turned (t + s) r := by
  refine Vector.ext fun i hi => ?_
  change (turned s (turned t r)).get ⟨i, hi⟩ = (turned (t + s) r).get ⟨i, hi⟩
  rw [get_turned, get_turned, get_turned]
  refine congrArg r.get ?_
  rw [standing, standing, standing, ofNat_add, sub_sub, add_comm]

/-- All the way round, so many times. -/
theorem turned_round (q : Nat) (r : Vector α n) : turned (n * q) r = r := by
  have hzero : Fin.ofNat n (n * q) = 0 := by
    ext
    simp [Fin.ofNat]
  refine Vector.ext fun i hi => ?_
  change (turned (n * q) r).get ⟨i, hi⟩ = r.get ⟨i, hi⟩
  rw [get_turned, standing, hzero, sub_zero]

/-- A register is written: the place where it stands is. -/
theorem turned_setReg (t : Nat) (r : Vector α n) (k : Fin n) (x : α) :
    turned t (setReg r (standing t k) x) = setReg (turned t r) k x := by
  refine Vector.ext fun i hi => ?_
  change (turned t (setReg r (standing t k) x)).get ⟨i, hi⟩ = (setReg (turned t r) k x).get ⟨i, hi⟩
  rw [get_turned, get_setReg, get_setReg, get_turned]
  exact if_congr standing_inj rfl rfl

/-- Rounds with a turn after each, and the same rounds unrolled. -/
theorem turned_rounds {step unrolled : Nat → Vector α n → Vector α n}
    (h : ∀ t r, turned t (unrolled t r) = step t (turned t r)) (r : Vector α n) (rounds : Nat) :
    (List.range rounds).foldl (fun r t => turned 1 (step t r)) r
      = turned rounds ((List.range rounds).foldl (fun r t => unrolled t r) r) := by
  induction rounds with
  | zero => exact (turned_zero r).symm
  | succ t ih =>
    rw [List.range_succ, List.foldl_append, List.foldl_append, ih, List.foldl_cons, List.foldl_nil, ← h,
      turned_turned]
    rfl

end BayTrail.Lib
