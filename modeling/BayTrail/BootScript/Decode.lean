import BayTrail.BootScript.Meaning

/-!
# The S3 boot script: reading entries back

The executer reads from an entry what the saver put there.
-/

namespace BayTrail.BootScript

open BayTrail.Lib

section

variable {m : Mem} {p : Nat} {pad : Mem} {type port : Nat} {fields : List Nat} {rest : Bytes}

/-! ## Structures -/

theorem holds_fields : ∀ {fields : List Nat} {p : Nat},
    Holds m p (fields.flatMap (leBytes 8) ++ rest) →
    (∀ i (hi : i < fields.length), rd m 8 (p + 8 * i) = fields[i] % 2 ^ 64)
      ∧ Holds m (p + 8 * fields.length) rest
  | [], p, h => ⟨fun i hi => absurd hi (by simp), h⟩
  | n :: fields, p, h => by
    rw [List.flatMap_cons, List.append_assoc, holds_append, leBytes_length] at h
    obtain ⟨ih1, ih2⟩ := holds_fields h.2
    refine ⟨fun i hi => ?_, ?_⟩
    · cases i with
      | zero => exact h.1.rd_eq
      | succ i =>
        have hp : p + 8 * (i + 1) = p + 8 + 8 * i := by omega
        rw [List.getElem_cons_succ, hp]
        exact ih1 i (by simpa using hi)
    · rw [List.length_cons]
      have : p + 8 * (fields.length + 1) = p + 8 + 8 * fields.length := by omega
      rwa [this]

/-- What a structure reads as. -/
structure Reads (m : Mem) (p type : Nat) (fields : List Nat) : Prop where
  type : rd m 2 p = type % 2 ^ 16
  field : ∀ i (hi : i < fields.length), fieldAt m p i = fields[i] % 2 ^ 64

theorem portStruct_reads (h : Holds m p (portStruct pad type port fields ++ rest)) :
    Reads m p type fields ∧ rd m 2 (p + 2) = port % 2 ^ 16
      ∧ Holds m (p + 8 + 8 * fields.length) rest := by
  unfold portStruct at h
  simp only [List.append_assoc] at h
  rw [holds_append, holds_append, holds_append, leBytes_length, leBytes_length, peek_length] at h
  obtain ⟨h1, h2, -, h4⟩ := h
  obtain ⟨hf, hr⟩ := holds_fields h4
  exact ⟨⟨h1.rd_eq, fun i hi => hf i hi⟩, h2.rd_eq, hr⟩

theorem typeStruct_reads (h : Holds m p (typeStruct pad type fields ++ rest)) :
    Reads m p type fields ∧ Holds m (p + 8 + 8 * fields.length) rest := by
  unfold typeStruct at h
  simp only [List.append_assoc] at h
  rw [holds_append, holds_append, leBytes_length, peek_length] at h
  obtain ⟨h1, -, h3⟩ := h
  obtain ⟨hf, hr⟩ := holds_fields h3
  exact ⟨⟨h1.rd_eq, fun i hi => hf i hi⟩, hr⟩

theorem segmentStruct_reads {segment : Nat}
    (h : Holds m p (segmentStruct pad type fields segment ++ rest)) :
    Reads m p type fields ∧ rd m 2 (p + 8 + 8 * fields.length) = segment % 2 ^ 16
      ∧ Holds m (p + 16 + 8 * fields.length) rest := by
  unfold segmentStruct at h
  rw [List.append_assoc, List.append_assoc] at h
  obtain ⟨hreads, h⟩ := typeStruct_reads h
  rw [holds_append, holds_append, leBytes_length, peek_length] at h
  refine ⟨hreads, h.1.rd_eq, ?_⟩
  have := h.2.2
  have heq : p + 8 + 8 * fields.length + 2 + 6 = p + 16 + 8 * fields.length := by omega
  rwa [heq] at this

end

/-! ## Widths -/

section

variable (w : Width)

theorem Width.toNat_lt : w.toNat < 12 := by
  cases w <;> decide

@[simp] theorem Width.valueSize_toNat : valueSize w.toNat = w.size := by
  cases w <;> rfl

@[simp] theorem Width.valueSize_single : valueSize w.single = w.size := by
  cases w <;> rfl

theorem Width.size_pos : 0 < w.size := by
  cases w <;> decide

theorem Width.size_le : w.size ≤ 8 := by
  cases w <;> decide

@[simp] theorem Width.isFifo_toNat : isFifo w.toNat = w.fifo := by
  cases w <;> rfl

theorem Width.not_fifo_and_fill : ¬ (w.fifo = true ∧ w.fill = true) := by
  cases w <;> decide

@[simp] theorem Width.inStride : mInStride.getD w.toNat 0 = if w.fifo then 0 else w.size := by
  cases w <;> rfl

@[simp] theorem Width.outStride : mOutStride.getD w.toNat 0 = if w.fill then 0 else w.size := by
  cases w <;> rfl

theorem Width.toNat_div : w.toNat / 4 = if w.fifo then 1 else if w.fill then 2 else 0 := by
  cases w <;> rfl

/-- What the type of an entry says. -/
theorem tableType2_split {opCode : Nat} (h : opCode < 256) :
    tableType2 opCode w.toNat % 2 ^ 16 % 256 = opCode
      ∧ tableType2 opCode w.toNat % 2 ^ 16 / 256 = w.toNat := by
  have := w.toNat_lt
  unfold tableType2
  omega

theorem pow_size : 256 ^ w.size = 2 ^ (8 * w.size) := by
  rw [Nat.pow_mul]

theorem masked_eq (value : Nat) : masked w.toNat value = value % 256 ^ w.size := by
  unfold masked bitMask
  rw [Width.valueSize_toNat, pow_size, Nat.and_two_pow_sub_one_eq_mod]

/-- The mask of an entry cuts what is above the width. -/
theorem and_masked (value mask : Nat) :
    value &&& (mask % 256 ^ w.size) = (value &&& mask) % 256 ^ w.size := by
  rw [pow_size, Nat.and_mod_two_pow]
  have hlt : value &&& (mask % 2 ^ (8 * w.size)) < 2 ^ (8 * w.size) :=
    lt_of_le_of_lt Nat.and_le_right (Nat.mod_lt _ (Nat.two_pow_pos _))
  rw [← Nat.mod_eq_of_lt hlt, Nat.and_mod_two_pow, Nat.mod_mod]

theorem or_masked (value data : Nat) :
    (value % 256 ^ w.size) ||| (data % 256 ^ w.size) = (value ||| data) % 256 ^ w.size := by
  rw [pow_size, Nat.or_mod_two_pow]

theorem leBytes_mod (k n : Nat) : leBytes k (n % 256 ^ k) = leBytes k n := by
  have h1 := leBytes_leVal (leBytes k n)
  rw [leVal_leBytes, leBytes_length] at h1
  exact h1

/-- A read puts the answer where the mask looks. -/
theorem and_read (value answer mask : Nat) :
    (value / 256 ^ w.size * 256 ^ w.size + answer % 256 ^ w.size) &&& (mask % 256 ^ w.size)
      = (answer &&& mask) % 256 ^ w.size := by
  rw [and_masked, pow_size, Nat.and_mod_two_pow, Nat.and_mod_two_pow,
    Nat.mul_add_mod_self_right, Nat.mod_mod]

end

end BayTrail.BootScript
