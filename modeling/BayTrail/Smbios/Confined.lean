import BayTrail.Smbios.Smi

/-!
# What the SMI handler may touch

Of each range that it goes on to access, `CheckAddress` asks for the first byte only, and of the parameter
block it reads the pointers before it has asked for more than that. So the handler stays inside what has
been granted exactly if it ends before it looks at a pointer.
-/

namespace BayTrail.Smbios

open BayTrail.Lib

/-- The handler ends in front of the first pointer. -/
def EndsEarly (grants : UInt64 → Nat → Bool) (memory : UInt64 → UInt8) (d : Driver) (address : UInt64) (function : UInt8) : Prop :=
  grants address 1 = false
    ∨ (function ≠ 0x50 ∧ function ≠ 0x51 ∧ (function = 0x52 → d.tableEntryPoint = none)
      ∧ (function = 0x53 → memory address ≠ 0x58 ∧ memory address ≠ 0x59 ∧ (memory address = 0x5a → d.v3TableEntryPoint = none)))

section

variable {grants : UInt64 → Nat → Bool} {memory : UInt64 → UInt8} {d : Driver} {setters : Setters} {address offset : UInt64}
  {n : Nat} {offsets : List UInt64} {function : UInt8} {α : Type} {f : Bool → Guarded α}

/-- A place behind the first byte of the block has not been asked for. -/
theorem not_covered (hoffset : offset ≠ 0) : ¬ Guarded.Covered [(address, 1)] (address + offset) := by
  rw [Guarded.covered_byte]
  intro h
  exact hoffset (by simpa using h)

theorem not_confined_pointers (hoffset : offset ≠ 0) :
    ¬ Guarded.Confined grants [(address, 1)] memory (pointersRefused (n + 1) address (offset :: offsets)) := by
  intro h
  rw [pointersRefused] at h
  exact not_covered hoffset h.of_bind.readBytes

theorem not_confined_v3Refused (h : memory address = 0x58 ∨ memory address = 0x59) :
    ¬ Guarded.Confined grants [(address, 1)] memory (v3Refused address) := by
  intro hc
  obtain ⟨-, hc⟩ := hc
  rcases h with h | h
  · rw [h] at hc
    exact not_confined_pointers (by decide) hc
  · rw [h] at hc
    exact not_confined_pointers (by decide) hc

theorem v3Pointers_other {subFunction : UInt8} (h58 : subFunction ≠ 0x58) (h59 : subFunction ≠ 0x59) : v3Pointers subFunction = [] := by
  rw [v3Pointers, if_neg h58, if_neg h59]

/-- Function 0x53 without pointers to check: the first byte is read, and read again. -/
theorem confined_v3 {f : Bool → Guarded Status} (h58 : memory address ≠ 0x58) (h59 : memory address ≠ 0x59) :
    Guarded.Confined grants [(address, 1)] memory (v3Refused address >>= f) ↔ Guarded.Confined grants [(address, 1)] memory (f false) := by
  have hfirst : Guarded.Covered [(address, 1)] address := Guarded.covered_byte.mpr rfl
  rw [v3Refused, Guarded.read_bind]
  refine (and_iff_right hfirst).trans ?_
  show Guarded.Confined grants _ memory (pointersRefused 8 address (v3Pointers (memory address)) >>= f) ↔ _
  rw [v3Pointers_other h58 h59, pointersRefused, Guarded.pure_bind]

/-- The check itself reads the pointers. -/
theorem not_confined_functionRefused
    (h : function = 0x50 ∨ function = 0x51 ∨ (function = 0x53 ∧ (memory address = 0x58 ∨ memory address = 0x59))) :
    ¬ Guarded.Confined grants [(address, 1)] memory (functionRefused address function) := by
  intro hc
  rcases h with rfl | rfl | ⟨rfl, h⟩
  · exact not_confined_pointers (by decide) hc
  · exact not_confined_pointers (by decide) hc.of_bind
  · exact not_confined_v3Refused h hc

theorem not_confined_setStructure {entryPoint : Option EntryPoint} (h : entryPoint ≠ none) :
    ¬ Guarded.Confined grants [(address, 1)] memory (setStructure (n + 1) entryPoint d setters address) := by
  intro hc
  obtain ⟨e, rfl⟩ := Option.ne_none_iff_exists'.mp h
  have hfield : fieldAt (n + 1) 0 ≠ 0 := by
    rw [fieldAt, Nat.mul_zero]
    decide
  exact not_covered hfield hc.of_bind.readBytes

/-- A function that is not refused, whatever it does. -/
theorem smiHandler_refused {rbx : UInt32} (hgrants : grants rbx.toUInt64 1 = false) :
    Guarded.Confined grants [] memory (smiHandler d setters rbx function) := by
  show Guarded.Confined grants (if grants rbx.toUInt64 1 then _ else _) memory _
  rw [hgrants]
  trivial

theorem smiHandler_granted {rbx : UInt32} (hgrants : grants rbx.toUInt64 1 = true) :
    Guarded.Confined grants [] memory (smiHandler d setters rbx function) ↔
      Guarded.Confined grants [(rbx.toUInt64, 1)] memory (functionRefused rbx.toUInt64 function >>= fun r =>
        if r then pure Status.badParameter else dmiFunction d setters rbx.toUInt64 function) := by
  show Guarded.Confined grants (if grants rbx.toUInt64 1 then _ else _) memory _ ↔ _
  rw [hgrants]
  rfl

/-- In front of the first pointer there is the first byte at most. -/
theorem confined_of_endsEarly (h : EndsEarly grants memory d address function) (hgrants : grants address 1 = true) :
    Guarded.Confined grants [(address, 1)] memory (functionRefused address function >>= fun r =>
      if r then pure Status.badParameter else dmiFunction d setters address function) := by
  obtain ⟨h50, h51, h52, h53⟩ := h.resolve_left (by simp [hgrants])
  have hfirst : Guarded.Covered [(address, 1)] address := Guarded.covered_byte.mpr rfl
  rw [functionRefused, if_neg h50, if_neg h51]
  by_cases hfunction : function = 0x53
  · subst hfunction
    obtain ⟨h58, h59, h5a⟩ := h53 rfl
    rw [if_pos rfl, confined_v3 h58 h59]
    refine ⟨hfirst, ?_⟩
    rw [v3SubFunction, if_neg h58, if_neg h59]
    by_cases hset : memory address = 0x5a
    · rw [if_pos hset, setSmbiosV3Structure, h5a hset]
      trivial
    · rw [if_neg hset]
      trivial
  · rw [if_neg hfunction, Guarded.pure_bind]
    simp only [Bool.false_eq_true, if_false]
    rw [dmiFunction, if_neg h50, if_neg h51, if_neg hfunction]
    by_cases hset : function = 0x52
    · rw [if_pos hset, setSmbiosV2Structure, h52 hset]
      trivial
    · rw [if_neg hset]
      trivial

theorem endsEarly_of_confined
    (h : Guarded.Confined grants [(address, 1)] memory (functionRefused address function >>= fun r =>
      if r then pure Status.badParameter else dmiFunction d setters address function)) :
    EndsEarly grants memory d address function := by
  have hcheck : ¬ (function = 0x50 ∨ function = 0x51 ∨ (function = 0x53 ∧ (memory address = 0x58 ∨ memory address = 0x59))) :=
    fun hf => not_confined_functionRefused hf h.of_bind
  simp only [not_or, not_and] at hcheck
  obtain ⟨h50, h51, h53⟩ := hcheck
  refine Or.inr ⟨h50, h51, fun h52 => ?_, fun hf => ⟨(h53 hf).1, (h53 hf).2, fun h5a => ?_⟩⟩
  · subst h52
    by_contra hsome
    exact not_confined_setStructure hsome h
  · subst hf
    obtain ⟨h58, h59⟩ := h53 rfl
    rw [functionRefused, if_neg h50, if_neg h51, if_pos rfl, confined_v3 h58 h59] at h
    obtain ⟨-, h⟩ := h
    rw [v3SubFunction, if_neg h58, if_neg h59, if_pos h5a] at h
    by_contra hsome
    exact not_confined_setStructure hsome h

end

/-- The handler accesses only what has been granted exactly if it ends in front of the first pointer. -/
theorem smiHandler_confined (grants : UInt64 → Nat → Bool) (memory : UInt64 → UInt8) (d : Driver) (setters : Setters) (rbx : UInt32)
    (function : UInt8) :
    Guarded.Confined grants [] memory (smiHandler d setters rbx function) ↔ EndsEarly grants memory d rbx.toUInt64 function := by
  cases hgrants : grants rbx.toUInt64 1 with
  | false => exact iff_of_true (smiHandler_refused hgrants) (Or.inl hgrants)
  | true =>
    rw [smiHandler_granted hgrants]
    exact ⟨endsEarly_of_confined, fun h => confined_of_endsEarly h hgrants⟩

/-- From 0x7E000000 on nothing is granted, and the parameter block begins one byte below. -/
theorem not_smiHandler_confined :
    ¬ ∀ (grants : UInt64 → Nat → Bool) (memory : UInt64 → UInt8) (d : Driver) (setters : Setters) (rbx : UInt32) (function : UInt8),
      Guarded.Confined grants [] memory (smiHandler d setters rbx function) := by
  intro hall
  have hconfined := hall (fun address size => address.toNat + size ≤ 0x7E000000) (fun _ => 0) ⟨none, none, 0, 0, 0⟩
    ⟨fun _ _ => .fault, fun _ _ => .fault, fun _ => none⟩ 0x7DFFFFFF 0x50
  have hgrants : (fun (address : UInt64) (size : Nat) => decide (address.toNat + size ≤ 0x7E000000)) (0x7DFFFFFF : UInt32).toUInt64 1 = true := by
    decide
  exact not_confined_functionRefused (Or.inl rfl) ((smiHandler_granted hgrants).mp hconfined).of_bind

end BayTrail.Smbios
