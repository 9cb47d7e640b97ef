import BayTrail.Lib.Bytes
import Mathlib.Data.Nat.Bitwise

/-!
# Bits of little-endian numbers

`OneWay v n x y` says that of the low `n` bits of `x`, those that differ from `v` differ from
`v` in `y` as well: `y` can be got from `x` by moving bits away from `v` only. It is a test of
a masked number, and holds of two byte strings taken as numbers exactly if it holds byte by
byte.
-/

namespace BayTrail.Lib

def OneWay (v : Bool) (n x y : Nat) : Prop :=
  ∀ k < n, x.testBit k ≠ v → y.testBit k ≠ v

section

variable {n x y b c : Nat}

/-- With zeros as what is left: no bit of `x` is lost. -/
theorem land_complement_right (hx : x < 2 ^ n) (hy : y < 2 ^ n) :
    x &&& (2 ^ n - 1 - y) = 0 ↔ OneWay false n x y := by
  rw [show 2 ^ n - 1 - y = 2 ^ n - (y + 1) by omega]
  constructor
  · intro h k hk hxk
    have hbit := congrArg (Nat.testBit · k) h
    simp only [Nat.testBit_and, Nat.testBit_two_pow_sub_succ hy, Nat.zero_testBit, hk, decide_true,
      Bool.true_and] at hbit
    simpa [Bool.eq_true_of_not_eq_false hxk] using hbit
  · intro h
    refine Nat.zero_of_testBit_eq_false fun k => ?_
    rw [Nat.testBit_and, Nat.testBit_two_pow_sub_succ hy]
    by_cases hk : k < n
    · cases hxk : x.testBit k with
      | false => rfl
      | true =>
        have := h k hk (by simp [hxk])
        simp [Bool.eq_true_of_not_eq_false this]
    · rw [Nat.testBit_lt_two_pow (hx.trans_le (Nat.pow_le_pow_right (by omega) (by omega))), Bool.false_and]

/-- With ones as what is left: no bit of `y` is new. -/
theorem land_complement_left (hx : x < 2 ^ n) (hy : y < 2 ^ n) :
    (2 ^ n - 1 - x) &&& y = 0 ↔ OneWay true n x y := by
  rw [Nat.land_comm, land_complement_right hy hx]
  refine forall₂_congr fun k _ => ?_
  cases x.testBit k <;> cases y.testBit k <;> simp

theorem oneWay_cons {v : Bool} {w : Nat} (hb : b < 256) (hc : c < 256) :
    OneWay v (8 * (w + 1)) (b + 256 * x) (c + 256 * y) ↔ OneWay v 8 b c ∧ OneWay v (8 * w) x y := by
  have hbit : ∀ {z u : Nat}, u < 256 → ∀ j, (u + 256 * z).testBit j
      = if j < 8 then u.testBit j else z.testBit (j - 8) := by
    intro z u hu j
    rw [Nat.add_comm]
    exact Nat.testBit_two_pow_mul_add z (show u < 2 ^ 8 from hu) j
  constructor
  · intro h
    refine ⟨fun k hk => ?_, fun k hk => ?_⟩
    · have := h k (by omega)
      rwa [hbit hb, hbit hc, if_pos hk, if_pos hk] at this
    · have := h (k + 8) (by omega)
      rwa [hbit hb, hbit hc, if_neg (by omega), if_neg (by omega), Nat.add_sub_cancel] at this
  · rintro ⟨h1, h2⟩ k hk
    rw [hbit hb, hbit hc]
    split
    · exact h1 k ‹_›
    · exact h2 (k - 8) (by omega)

end

/-- Two byte strings, taken as numbers. -/
theorem oneWay_leVal {v : Bool} : ∀ {bs cs : Bytes}, bs.length = cs.length →
    (OneWay v (8 * bs.length) (leVal bs) (leVal cs)
      ↔ List.Forall₂ (fun b c => OneWay v 8 b.toNat c.toNat) bs cs)
  | [], [], _ => by simp [OneWay]
  | [], _ :: _, h => absurd h (by simp)
  | _ :: _, [], h => absurd h (by simp)
  | b :: bs, c :: cs, h => by
    rw [List.forall₂_cons, ← oneWay_leVal (Nat.succ.inj h)]
    exact oneWay_cons b.toNat_lt c.toNat_lt

/-- Byte strings of one length are equal if their numbers are. -/
theorem leVal_inj {bs cs : Bytes} (h : bs.length = cs.length) : leVal bs = leVal cs ↔ bs = cs := by
  refine ⟨fun he => ?_, congrArg leVal⟩
  rw [← leBytes_leVal bs, ← leBytes_leVal cs, h, he]

end BayTrail.Lib
