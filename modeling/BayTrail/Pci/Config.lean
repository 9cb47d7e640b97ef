import Mathlib.Algebra.Ring.Nat

/-!
# Configuration space

The registers of a function, and `PciCfg8` to `PciCfg64`. A write changes the bits that are
implemented as read-write; there are more registers behind the first 256 bytes.
-/

namespace BayTrail.Pci

structure Config where
  byte : Nat → BitVec 8
  writable : Nat → BitVec 8

/-- What a register holds after a write. -/
def merge {n : Nat} (mask old new : BitVec n) : BitVec n := (old &&& ~~~mask) ||| (new &&& mask)

/-- A register without read-write bits keeps what it holds. -/
theorem merge_none {n : Nat} (old new : BitVec n) : merge 0 old new = old := by
  simp [merge]

/-- What a register held is there again once it has been written back. -/
theorem merge_merge {n : Nat} (mask old new : BitVec n) : merge mask (merge mask old new) old = old := by
  apply BitVec.eq_of_getLsbD_eq
  intro i hi
  simp only [merge, BitVec.getLsbD_or, BitVec.getLsbD_and, BitVec.getLsbD_not, hi, decide_true, Bool.true_and]
  cases mask.getLsbD i <;> simp

/-- What has the same bits that are not implemented can be written. -/
theorem merge_of_fixed {n : Nat} {mask old new : BitVec n} (h : old &&& ~~~mask = new &&& ~~~mask) :
    merge mask old new = new := by
  unfold merge
  rw [h]
  apply BitVec.eq_of_getLsbD_eq
  intro i hi
  simp only [BitVec.getLsbD_or, BitVec.getLsbD_and, BitVec.getLsbD_not, hi, decide_true, Bool.true_and]
  cases mask.getLsbD i <;> simp

/-- Bits that are not implemented read as they did, and the others as ones. -/
theorem merge_allOnes {n : Nat} (mask old : BitVec n) : merge mask old (BitVec.allOnes n) = (old &&& ~~~mask) ||| mask := by
  unfold merge
  rw [BitVec.allOnes_and]

namespace Config

variable (c : Config) (r : Nat)

/-! ## Reading and writing -/

def read8 : BitVec 8 := c.byte r
def read16 : BitVec 16 := c.read8 (r + 1) ++ c.read8 r
def read32 : BitVec 32 := c.read16 (r + 2) ++ c.read16 r
def read64 : BitVec 64 := c.read32 (r + 4) ++ c.read32 r

def write8 (v : BitVec 8) : Config :=
  { c with byte := fun a => if a = r then merge (c.writable a) (c.byte a) v else c.byte a }
def write16 (v : BitVec 16) : Config := (c.write8 r (v.extractLsb' 0 8)).write8 (r + 1) (v.extractLsb' 8 8)
def write32 (v : BitVec 32) : Config := (c.write16 r (v.extractLsb' 0 16)).write16 (r + 2) (v.extractLsb' 16 16)
def write64 (v : BitVec 64) : Config := (c.write32 r (v.extractLsb' 0 32)).write32 (r + 4) (v.extractLsb' 32 32)

/-- The bits of a register that a write changes. -/
def mask16 : BitVec 16 := c.writable (r + 1) ++ c.writable r
def mask32 : BitVec 32 := c.mask16 (r + 2) ++ c.mask16 r
def mask64 : BitVec 64 := c.mask32 (r + 4) ++ c.mask32 r

/-! ## What is left alone -/

variable {c r} {a : Nat}

@[simp] theorem writable_write8 (v : BitVec 8) : (c.write8 r v).writable = c.writable := rfl
@[simp] theorem writable_write16 (v : BitVec 16) : (c.write16 r v).writable = c.writable := rfl
@[simp] theorem writable_write32 (v : BitVec 32) : (c.write32 r v).writable = c.writable := rfl
@[simp] theorem writable_write64 (v : BitVec 64) : (c.write64 r v).writable = c.writable := rfl

theorem byte_write8_self (v : BitVec 8) : (c.write8 r v).byte r = merge (c.writable r) (c.byte r) v := if_pos rfl

theorem byte_write8 (h : a ≠ r) (v : BitVec 8) : (c.write8 r v).byte a = c.byte a := if_neg h

theorem byte_write16 (h : a < r ∨ r + 2 ≤ a) (v : BitVec 16) : (c.write16 r v).byte a = c.byte a := by
  unfold write16
  rw [byte_write8 (by omega), byte_write8 (by omega)]

theorem byte_write32 (h : a < r ∨ r + 4 ≤ a) (v : BitVec 32) : (c.write32 r v).byte a = c.byte a := by
  unfold write32
  rw [byte_write16 (by omega), byte_write16 (by omega)]

theorem byte_write64 (h : a < r ∨ r + 8 ≤ a) (v : BitVec 64) : (c.write64 r v).byte a = c.byte a := by
  unfold write64
  rw [byte_write32 (by omega), byte_write32 (by omega)]

variable {c' : Config} {m n : Nat}

/-- The value of a register is that of its bytes. -/
theorem read16_congr (h : ∀ a, r ≤ a → a < r + 2 → c'.byte a = c.byte a) :
    c'.read16 r = c.read16 r := by
  unfold read16 read8
  rw [h r (by omega) (by omega), h (r + 1) (by omega) (by omega)]

theorem read32_congr (h : ∀ a, r ≤ a → a < r + 4 → c'.byte a = c.byte a) :
    c'.read32 r = c.read32 r := by
  unfold read32
  rw [read16_congr fun a h1 h2 => h a (by omega) (by omega), read16_congr fun a h1 h2 => h a (by omega) (by omega)]

/-! ## What is read back -/

theorem merge_append (mask old new : BitVec m) (mask' old' new' : BitVec n) :
    merge mask old new ++ merge mask' old' new' = merge (mask ++ mask') (old ++ old') (new ++ new') := by
  unfold merge
  rw [BitVec.not_append, BitVec.and_append, BitVec.and_append, BitVec.or_append]

theorem read16_write16 (v : BitVec 16) : (c.write16 r v).read16 r = merge (c.mask16 r) (c.read16 r) v := by
  have hhigh : (c.write16 r v).byte (r + 1) = merge (c.writable (r + 1)) (c.byte (r + 1)) (v.extractLsb' 8 8) := by
    unfold write16
    rw [byte_write8_self, byte_write8 (by omega)]
    rfl
  have hlow : (c.write16 r v).byte r = merge (c.writable r) (c.byte r) (v.extractLsb' 0 8) := by
    unfold write16
    rw [byte_write8 (by omega), byte_write8_self]
  unfold read16 read8
  rw [hhigh, hlow, merge_append, show v.extractLsb' 8 8 ++ v.extractLsb' 0 8 = v from
    BitVec.extractLsb'_append_extractLsb']
  rfl

theorem read32_write32 (v : BitVec 32) : (c.write32 r v).read32 r = merge (c.mask32 r) (c.read32 r) v := by
  have hhigh : (c.write32 r v).read16 (r + 2) = merge (c.mask16 (r + 2)) (c.read16 (r + 2)) (v.extractLsb' 16 16) := by
    unfold write32
    rw [read16_write16, read16_congr fun a h1 h2 => byte_write16 (by omega) _]
    rfl
  have hlow : (c.write32 r v).read16 r = merge (c.mask16 r) (c.read16 r) (v.extractLsb' 0 16) := by
    unfold write32
    rw [read16_congr fun a h1 h2 => byte_write16 (by omega) _, read16_write16]
  unfold read32
  rw [hhigh, hlow, merge_append, show v.extractLsb' 16 16 ++ v.extractLsb' 0 16 = v from
    BitVec.extractLsb'_append_extractLsb']
  rfl

theorem read64_write64 (v : BitVec 64) : (c.write64 r v).read64 r = merge (c.mask64 r) (c.read64 r) v := by
  have hhigh : (c.write64 r v).read32 (r + 4) = merge (c.mask32 (r + 4)) (c.read32 (r + 4)) (v.extractLsb' 32 32) := by
    unfold write64
    rw [read32_write32, read32_congr fun a h1 h2 => byte_write32 (by omega) _]
    rfl
  have hlow : (c.write64 r v).read32 r = merge (c.mask32 r) (c.read32 r) (v.extractLsb' 0 32) := by
    unfold write64
    rw [read32_congr fun a h1 h2 => byte_write32 (by omega) _, read32_write32]
  unfold read64
  rw [hhigh, hlow, merge_append, show v.extractLsb' 32 32 ++ v.extractLsb' 0 32 = v from
    BitVec.extractLsb'_append_extractLsb']
  rfl

/-! ## What is written back -/

theorem append_inj {x x' : BitVec m} {y y' : BitVec n} (h : x ++ y = x' ++ y') : x = x' ∧ y = y' := by
  have hhigh : (x ++ y).extractLsb' n m = (x' ++ y').extractLsb' n m := by rw [h]
  have hlow : (x ++ y).extractLsb' 0 n = (x' ++ y').extractLsb' 0 n := by rw [h]
  rw [BitVec.extractLsb'_append_eq_left, BitVec.extractLsb'_append_eq_left] at hhigh
  rw [BitVec.extractLsb'_append_eq_right, BitVec.extractLsb'_append_eq_right] at hlow
  exact ⟨hhigh, hlow⟩

/-- The bytes of a register are those of its value. -/
theorem byte_of_read16 (h : c'.read16 r = c.read16 r) (h1 : r ≤ a) (h2 : a < r + 2) :
    c'.byte a = c.byte a := by
  obtain ⟨hhigh, hlow⟩ := append_inj h
  have ha : a = r ∨ a = r + 1 := by omega
  cases ha with
  | inl ha => rw [ha]; exact hlow
  | inr ha => rw [ha]; exact hhigh

theorem byte_of_read32 (h : c'.read32 r = c.read32 r) (h1 : r ≤ a) (h2 : a < r + 4) :
    c'.byte a = c.byte a := by
  obtain ⟨hhigh, hlow⟩ := append_inj h
  by_cases ha : a < r + 2
  · exact byte_of_read16 hlow h1 ha
  · exact byte_of_read16 hhigh (by omega) (by omega)

theorem byte_of_read64 (h : c'.read64 r = c.read64 r) (h1 : r ≤ a) (h2 : a < r + 8) :
    c'.byte a = c.byte a := by
  obtain ⟨hhigh, hlow⟩ := append_inj h
  by_cases ha : a < r + 4
  · exact byte_of_read32 hlow h1 ha
  · exact byte_of_read32 hhigh (by omega) (by omega)

/-- Registers are as they were when the one that has been written to is. -/
theorem eq_of_read32 (hw : c'.writable = c.writable)
    (hout : ∀ a, a < r ∨ r + 4 ≤ a → c'.byte a = c.byte a) (h : c'.read32 r = c.read32 r) : c' = c := by
  have hbyte : c'.byte = c.byte := by
    funext a
    by_cases ha : a < r ∨ r + 4 ≤ a
    · exact hout a ha
    · exact byte_of_read32 h (by omega) (by omega)
  calc c' = ⟨c'.byte, c'.writable⟩ := rfl
    _ = ⟨c.byte, c.writable⟩ := by rw [hbyte, hw]

theorem eq_of_read64 (hw : c'.writable = c.writable)
    (hout : ∀ a, a < r ∨ r + 8 ≤ a → c'.byte a = c.byte a) (h : c'.read64 r = c.read64 r) : c' = c := by
  have hbyte : c'.byte = c.byte := by
    funext a
    by_cases ha : a < r ∨ r + 8 ≤ a
    · exact hout a ha
    · exact byte_of_read64 h (by omega) (by omega)
  calc c' = ⟨c'.byte, c'.writable⟩ := rfl
    _ = ⟨c.byte, c.writable⟩ := by rw [hbyte, hw]

@[simp] theorem mask32_write32 (v : BitVec 32) : (c.write32 r v).mask32 r = c.mask32 r := rfl
@[simp] theorem mask64_write64 (v : BitVec 64) : (c.write64 r v).mask64 r = c.mask64 r := rfl

theorem write32_restore (v : BitVec 32) : (c.write32 r v).write32 r (c.read32 r) = c := by
  refine eq_of_read32 rfl (fun a ha => by rw [byte_write32 ha, byte_write32 ha]) ?_
  rw [read32_write32, read32_write32, mask32_write32, merge_merge]

theorem write64_restore (v : BitVec 64) : (c.write64 r v).write64 r (c.read64 r) = c := by
  refine eq_of_read64 rfl (fun a ha => by rw [byte_write64 ha, byte_write64 ha]) ?_
  rw [read64_write64, read64_write64, mask64_write64, merge_merge]

/-- A register without read-write bits does not take a write. -/
theorem write32_none (h : c.mask32 r = 0) (v : BitVec 32) : c.write32 r v = c := by
  refine eq_of_read32 rfl (fun a ha => byte_write32 ha v) ?_
  rw [read32_write32, h, merge_none]

end Config

end BayTrail.Pci
