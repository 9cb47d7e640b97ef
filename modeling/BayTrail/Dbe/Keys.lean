import BayTrail.Dbe.Defs

/-!
# Comparisons of keys

The signed difference has the sign of the unsigned keys as long as they are near.
-/

namespace BayTrail.Dbe

open BayTrail.Lib

theorem beVal_lt : ∀ bs : Bytes, beVal bs < 256 ^ bs.length
  | [] => Nat.one_pos
  | b :: bs => by
    have hb := b.toNat_lt
    have ih := beVal_lt bs
    have hle : b.toNat * 256 ^ bs.length ≤ 255 * 256 ^ bs.length := Nat.mul_le_mul_right _ (by omega)
    rw [beVal, List.length_cons, Nat.pow_succ]
    omega

variable {b c : UInt8} {m : Mem} {d s : Nat}

/-- The first bytes that differ decide. -/
theorem beVal_lt_of_lt {bs cs : Bytes} (hlen : bs.length = cs.length) (h : b.toNat < c.toNat) :
    beVal (b :: bs) < beVal (c :: cs) := by
  have hlt := beVal_lt bs
  have hle : (b.toNat + 1) * 256 ^ bs.length ≤ c.toNat * 256 ^ bs.length := Nat.mul_le_mul_right _ h
  rw [Nat.add_mul, Nat.one_mul] at hle
  rw [beVal, beVal, ← hlen]
  omega

/-- The sign of a difference that wraps around. -/
theorem sign_bmod {x y h : Nat} (hlt : x < y + h) (hle : y ≤ x + h) :
    (Int.bmod ((x : Int) - y) (2 * h)).sign = ((x : Int) - y).sign := by
  rw [Int.bmod_eq_of_le (by omega) (by omega)]

/-- Bytes that are both small or both large compare as signed ones do. -/
theorem sign_toInt8 (h : b < 128 ↔ c < 128) :
    (b.toInt8.toInt - c.toInt8.toInt).sign = ((b.toNat : Int) - c.toNat).sign := by
  have hb := b.toNat_lt
  have hc := c.toNat_lt
  have hsigned : ∀ a : UInt8, a.toInt8.toInt = if a < 128 then (a.toNat : Int) else (a.toNat : Int) - 256 := by
    intro a
    have htop : a < 128 ↔ 2 * a.toNat < 256 := by
      rw [UInt8.lt_iff_toNat_lt]
      exact ⟨fun h => Nat.mul_lt_mul_of_pos_left h Nat.two_pos, fun h => Nat.lt_of_mul_lt_mul_left h⟩
    show a.toBitVec.toInt = _
    simp only [htop]
    exact BitVec.toInt_eq_toNat_cond a.toBitVec
  rw [hsigned b, hsigned c]
  by_cases hlt : b < 128
  · rw [if_pos hlt, if_pos (h.mp hlt)]
  · rw [if_neg hlt, if_neg (fun hc => hlt (h.mpr hc))]
    congr 1
    omega

/-- Up to the first byte that differs, and there. -/
theorem sign_memCmp {n : Nat} (h : ∀ i < n, (∀ j < i, m (d + j) = m (s + j)) → (m (d + i) < 128 ↔ m (s + i) < 128)) :
    (memCmp m d s n).sign = ((beVal (peek m d n) : Int) - beVal (peek m s n)).sign := by
  induction n generalizing d s with
  | zero => rfl
  | succ n ih =>
    have hlen : (peek m (d + 1) n).length = (peek m (s + 1) n).length := by rw [peek_length, peek_length]
    by_cases heq : m d = m s
    · have hrest : ∀ i < n, (∀ j < i, m (d + 1 + j) = m (s + 1 + j)) → (m (d + 1 + i) < 128 ↔ m (s + 1 + i) < 128) := by
        intro i hi hj
        have := h (i + 1) (by omega) fun j hlt => ?_
        · rwa [← Nat.add_assoc, ← Nat.add_assoc, Nat.add_right_comm d, Nat.add_right_comm s] at this
        · cases j with
          | zero => exact heq
          | succ j =>
            rw [← Nat.add_assoc, ← Nat.add_assoc, Nat.add_right_comm d, Nat.add_right_comm s]
            exact hj j (by omega)
      rw [memCmp, if_pos heq, ih hrest]
      simp only [peek, beVal, heq, hlen, Int.natCast_add]
      congr 1
      omega
    · have htop := sign_toInt8 (h 0 (by omega) fun j hj => absurd hj (Nat.not_lt_zero j))
      rw [memCmp, if_neg heq]
      rw [Nat.add_zero, Nat.add_zero] at htop
      rw [htop]
      simp only [peek]
      have hne : (m d).toNat ≠ (m s).toNat := fun h => heq (UInt8.toNat_inj.mp h)
      rcases Nat.lt_or_gt_of_ne hne with hlt | hlt
      · have := beVal_lt_of_lt hlen hlt
        rw [Int.sign_eq_neg_one_of_neg (by omega), Int.sign_eq_neg_one_of_neg (by omega)]
      · have := beVal_lt_of_lt hlen.symm hlt
        rw [Int.sign_eq_one_of_pos (by omega), Int.sign_eq_one_of_pos (by omega)]

/-- Keys that are near compare as they should. -/
theorem sign_keyCmp {size : Nat} (h : Near m size d s) :
    (keyCmp m size d s).sign = ((unsignedKey m size d : Int) - unsignedKey m size s).sign := by
  rw [Near] at h
  by_cases hsize : size = 2 ∨ size = 4 ∨ size = 8
  · rw [if_pos hsize] at h
    have hrange : 2 * (256 ^ size / 2) = 256 ^ size := by rcases hsize with rfl | rfl | rfl <;> rfl
    have hdifference : (difference m size d s).sign = ((rd m size d : Int) - rd m size s).sign := by
      rw [difference, ← hrange]
      exact sign_bmod h.1 h.2
    have hcmp : keyCmp m size d s = (difference m size d s).sign := by rcases hsize with rfl | rfl | rfl <;> rfl
    simp only [unsignedKey, if_pos hsize]
    rw [hcmp, Int.sign_sign, hdifference]
  · rw [if_neg hsize] at h
    simp only [unsignedKey, if_neg hsize]
    rw [← sign_memCmp h, keyCmp]
    · exact fun h2 => hsize (Or.inl h2)
    · exact fun h4 => hsize (Or.inr (Or.inl h4))
    · exact fun h8 => hsize (Or.inr (Or.inr h8))

end BayTrail.Dbe
