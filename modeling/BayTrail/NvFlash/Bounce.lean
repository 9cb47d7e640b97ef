import BayTrail.NvFlash.Program

/-!
# Flash: copies through a buffer

`FlashMemFlashWrite` of NvramDxe.c. Bytes of the flash cannot be read while it is being
written, so that they go through a buffer of 256 bytes on the stack, in pieces. Between
`DisableUpdate` and `EnableUpdate` a load gives the content of the flash; neither of them
changes it.
-/

namespace BayTrail.NvFlash

open BayTrail.Lib

/-- `WriteBytes` of a `VARIABLE_INTERFACE`: the result, and the memory after it. -/
structure VariableInterface where
  writeBytes : Mem → Nat → Bytes → Bool × Mem

/-- A write that succeeds has written its bytes and nothing else. -/
def VariableInterface.Lawful (i : VariableInterface) : Prop :=
  ∀ m p bs, (i.writeBytes m p bs).1 = true →
    Holds (i.writeBytes m p bs).2 p bs
      ∧ ∀ x, x < p ∨ p + bs.length ≤ x → (i.writeBytes m p bs).2 x = m x

/-- `MemInterface`. -/
def memInterface : VariableInterface where
  writeBytes m p bs := (true, poke m p bs)

theorem memInterface_lawful : memInterface.Lawful :=
  fun m p bs _ => ⟨holds_poke m p bs, fun _ hx => poke_of_out hx⟩

/-- What `FlashMemFlashWrite` returns, the memory, and `*PointerTo`. -/
structure Copied where
  result : Bool
  mem : Mem
  pointerTo : Nat

/-- `FlashMemFlashWrite`, nothing if it has not come to its end in so many rounds. -/
def flashMemFlashWrite (i : VariableInterface) :
    Nat → Mem → Nat → Nat → Nat → Option Copied
  | 0, _, _, _, _ => none
  | fuel + 1, m, pointerTo, tempFrom, sizeToWrite =>
    let tempSize := if sizeToWrite ≤ 256 then sizeToWrite else 256
    let sizeToWrite := if sizeToWrite ≤ 256 then sizeToWrite else sizeToWrite - 256
    let tempMemory := peek m tempFrom tempSize
    let r := i.writeBytes m pointerTo tempMemory
    if tempSize < 256 ∨ sizeToWrite = 0 ∨ r.1 = false then some ⟨r.1, r.2, pointerTo + tempSize⟩
    else flashMemFlashWrite i fuel r.2 (pointerTo + tempSize) (tempFrom + tempSize) sizeToWrite

/-- It comes to an end, and if it succeeds the bytes have been copied and nothing else has
changed. -/
def CopiesExactly (dest source size : Nat) : Prop :=
  ∀ i : VariableInterface, i.Lawful → ∀ m, ∃ fuel c, flashMemFlashWrite i fuel m dest source size = some c
    ∧ (c.result = true → peek c.mem dest size = peek m source size
      ∧ ∀ x, x < dest ∨ dest + size ≤ x → c.mem x = m x)

/-! ## The rounds -/

section

variable {i : VariableInterface} {m : Mem} {dest source size fuel : Nat} {c : Copied}

/-- The last round. -/
theorem flashMemFlashWrite_last (hsize : size < 256) :
    flashMemFlashWrite i (fuel + 1) m dest source size
      = some ⟨(i.writeBytes m dest (peek m source size)).1, (i.writeBytes m dest (peek m source size)).2,
        dest + size⟩ := by
  simp only [flashMemFlashWrite, if_pos (show size ≤ 256 by omega), if_pos (Or.inl hsize)]

/-- A round that is not the last. -/
theorem flashMemFlashWrite_round (hsize : 256 < size) :
    flashMemFlashWrite i (fuel + 1) m dest source size
      = if (i.writeBytes m dest (peek m source 256)).1 = false then
          some ⟨false, (i.writeBytes m dest (peek m source 256)).2, dest + 256⟩
        else flashMemFlashWrite i fuel (i.writeBytes m dest (peek m source 256)).2 (dest + 256) (source + 256)
          (size - 256) := by
  simp only [flashMemFlashWrite, if_neg (show ¬ size ≤ 256 by omega)]
  by_cases h : (i.writeBytes m dest (peek m source 256)).1 = false
  · rw [if_pos (Or.inr (Or.inr h)), if_pos h, h]
  · rw [if_neg (show ¬ _ from not_or.mpr ⟨by omega, not_or.mpr ⟨by omega, h⟩⟩), if_neg h]

/-- Full pieces only: the size stays 256. -/
theorem flashMemFlashWrite_full (h : (i.writeBytes m dest (peek m source 256)).1 = true) :
    flashMemFlashWrite i (fuel + 1) m dest source 256
      = flashMemFlashWrite i fuel (i.writeBytes m dest (peek m source 256)).2 (dest + 256) (source + 256)
        256 := by
  simp only [flashMemFlashWrite, if_pos (show 256 ≤ 256 from le_rfl)]
  rw [if_neg (by simp [h])]

theorem flashMemFlashWrite_ends (hsize : size = 0 ∨ size % 256 ≠ 0) :
    ∃ c, flashMemFlashWrite i (size / 256 + 1) m dest source size = some c := by
  induction hk : size / 256 generalizing m dest source size with
  | zero => exact ⟨_, flashMemFlashWrite_last (by omega)⟩
  | succ k ih =>
    rw [flashMemFlashWrite_round (by omega)]
    split
    · exact ⟨_, rfl⟩
    · exact ih (by omega) (by omega)

/-- A multiple of the buffer's size is copied without an end. -/
theorem flashMemFlashWrite_endless {k : Nat} :
    flashMemFlashWrite memInterface fuel m dest source (256 * (k + 1)) = none := by
  induction fuel generalizing m dest source k with
  | zero => rfl
  | succ fuel ih =>
    cases k with
    | zero =>
      rw [Nat.zero_add, Nat.mul_one, flashMemFlashWrite_full rfl]
      exact @ih _ _ _ 0
    | succ k =>
      rw [flashMemFlashWrite_round (by omega), if_neg (by simp [memInterface])]
      rw [show 256 * (k + 1 + 1) - 256 = 256 * (k + 1) by omega]
      exact ih

theorem memInterface_result (hc : flashMemFlashWrite memInterface fuel m dest source size = some c) :
    c.result = true := by
  induction fuel generalizing m dest source size with
  | zero => exact absurd hc (by simp [flashMemFlashWrite])
  | succ fuel ih =>
    obtain hlast | hfull | hround := Nat.lt_trichotomy size 256
    · rw [flashMemFlashWrite_last hlast] at hc
      obtain rfl := Option.some.inj hc
      rfl
    · subst hfull
      rw [flashMemFlashWrite_full rfl] at hc
      exact ih hc
    · rw [flashMemFlashWrite_round hround, if_neg (by simp [memInterface])] at hc
      exact ih hc

section

variable (hi : i.Lawful) (hsize : size = 0 ∨ size % 256 ≠ 0)
  (hc : flashMemFlashWrite i fuel m dest source size = some c) (hok : c.result = true)
include hi hsize hc hok

/-- Nothing is written but the bytes of the destination. -/
theorem flashMemFlashWrite_frame :
    ∀ x, x < dest ∨ dest + size ≤ x → c.mem x = m x := by
  induction fuel generalizing m dest source size with
  | zero => exact absurd hc (by simp [flashMemFlashWrite])
  | succ fuel ih =>
    intro x hx
    by_cases hlast : size < 256
    · rw [flashMemFlashWrite_last hlast] at hc
      obtain rfl := Option.some.inj hc
      have hframe := (hi m dest (peek m source size) hok).2 x
      rw [peek_length] at hframe
      exact hframe hx
    · rw [flashMemFlashWrite_round (by omega)] at hc
      split at hc
      · obtain rfl := Option.some.inj hc
        exact absurd hok (by simp)
      · rename_i hr
        have hframe := (hi m dest (peek m source 256) (by simpa using hr)).2 x
        rw [peek_length] at hframe
        rw [ih (by omega) hc x (by omega)]
        exact hframe (by omega)

/-- A byte is copied that has not been written when its piece is read. -/
theorem flashMemFlashWrite_byte {k : Nat}
    (hk : k < size) (hfree : source + k < dest ∨ dest + 256 * (k / 256) ≤ source + k) :
    c.mem (dest + k) = m (source + k) := by
  induction fuel generalizing m dest source size k with
  | zero => exact absurd hc (by simp [flashMemFlashWrite])
  | succ fuel ih =>
    by_cases hlast : size < 256
    · rw [flashMemFlashWrite_last hlast] at hc
      obtain rfl := Option.some.inj hc
      have hpeek := (hi m dest (peek m source size) hok).1.peek_eq (peek_length m source size).symm
      exact peek_eq_peek.mp hpeek k hk
    · rw [flashMemFlashWrite_round (by omega)] at hc
      split at hc
      · obtain rfl := Option.some.inj hc
        exact absurd hok (by simp)
      · rename_i hr
        obtain ⟨hholds, hframe⟩ := hi m dest (peek m source 256) (by simpa using hr)
        rw [peek_length] at hframe
        by_cases hpiece : k < 256
        · -- in this piece, which the later ones leave alone
          rw [flashMemFlashWrite_frame hi (by omega) hc hok _ (by omega)]
          exact peek_eq_peek.mp (hholds.peek_eq (peek_length m source 256).symm) k hpiece
        · have hlater := @ih _ (dest + 256) (source + 256) (size - 256) (by omega) hc (k - 256)
            (by omega) (by omega)
          rw [show dest + 256 + (k - 256) = dest + k by omega,
            show source + 256 + (k - 256) = source + k by omega] at hlater
          rw [hlater]
          exact hframe _ (by omega)

end

end

/-! ## Which copies are exact -/

/-- The destination begins in the source, behind a piece that is to be read later. -/
def Overruns (dest source size : Nat) : Prop := source < dest ∧ dest < source + size ∧ 256 < size

/-- The sizes that are copied are 0 and those that are no multiple of 256, without a
destination that overruns its source. -/
theorem copiesExactly_iff (dest source size : Nat) : CopiesExactly dest source size
    ↔ (size = 0 ∨ size % 256 ≠ 0) ∧ ¬ Overruns dest source size := by
  constructor
  · intro h
    have hsize : size = 0 ∨ size % 256 ≠ 0 := by
      by_contra hno
      obtain ⟨k, rfl⟩ : ∃ k, size = 256 * (k + 1) := ⟨size / 256 - 1, by omega⟩
      obtain ⟨fuel, c, hc, -⟩ := h memInterface memInterface_lawful (fun _ => 0)
      rw [flashMemFlashWrite_endless] at hc
      exact absurd hc (by simp)
    refine ⟨hsize, fun ⟨h1, h2, h3⟩ => ?_⟩
    -- the byte that is read behind the first piece, and in it
    generalize hp : source + max 256 (dest - source) = p
    obtain ⟨fuel, c, hc, hexact⟩ := h memInterface memInterface_lawful (fun x => if x = p then 1 else 0)
    have hok := memInterface_result hc
    have hcopied := peek_eq_peek.mp (hexact hok).1 (p - source) (by omega)
    cases fuel with
    | zero => exact absurd hc (by simp [flashMemFlashWrite])
    | succ fuel =>
      rw [flashMemFlashWrite_round h3, if_neg (by simp [memInterface])] at hc
      have hbyte := @flashMemFlashWrite_byte _ _ _ _ _ fuel c memInterface_lawful (by omega) hc hok
        (p - source - 256) (by omega) (by omega)
      have hsecond := @poke_peek_at (fun x => if x = p then 1 else 0) (fun x => if x = p then 1 else 0)
        source dest 256 (p - dest) (by omega)
      rw [show dest + (p - dest) = p by omega] at hsecond
      rw [show dest + 256 + (p - source - 256) = dest + (p - source) by omega,
        show source + 256 + (p - source - 256) = p by omega] at hbyte
      rw [hbyte, show source + (p - source) = p by omega] at hcopied
      have hzero := hsecond.symm.trans hcopied
      simp only [if_true] at hzero
      rw [if_neg (by omega)] at hzero
      exact absurd hzero (by decide)
  · rintro ⟨hsize, hno⟩ i hi m
    unfold Overruns at hno
    obtain ⟨c, hc⟩ := @flashMemFlashWrite_ends i m dest source size hsize
    refine ⟨_, c, hc, fun hok => ⟨?_, flashMemFlashWrite_frame hi hsize hc hok⟩⟩
    rw [peek_eq_peek]
    intro k hk
    exact flashMemFlashWrite_byte hi hsize hc hok hk (by omega)

/-- 256 bytes. -/
theorem not_copiesExactly : ¬ ∀ dest source size, CopiesExactly dest source size := by
  intro h
  obtain ⟨fuel, c, hc, -⟩ := h 0x1000 0 256 memInterface memInterface_lawful (fun _ => 0)
  have hnone := @flashMemFlashWrite_endless (fun _ => 0) 0x1000 0 fuel 0
  rw [hnone] at hc
  exact absurd hc (by simp)

end BayTrail.NvFlash
