import BayTrail.Nvram.Update

/-!
# The NVRAM store: what the iterators return of any image

No invariant is assumed here: whatever the bytes of the store are, an iterator
returns a record that `NvIsVariable` accepts, hence one that lies before `pEndOfVars`,
and a search by name and GUID compares no others.
-/

namespace BayTrail.Nvram

open BayTrail.Lib

section

variable {s : StoreInfo} {p q : Nat}

theorem sizeOk_bounds (h : sizeOk s p = true) :
    sizeofNvar < sizeAt s.mem p ∧ p + sizeAt s.mem p ≤ s.pEndOfVars := by
  unfold sizeOk at h
  simp only [Bool.and_eq_true, decide_eq_true_eq] at h
  exact ⟨h.1.2, h.2⟩

theorem nvIsVariable_sizeOk (h : nvIsVariable s p = true) : sizeOk s p = true := by
  unfold nvIsVariable at h
  simp only [Bool.and_eq_true] at h
  exact h.1.1.2

theorem nvIsVariable_bounds (h : nvIsVariable s p = true) :
    sizeofNvar < sizeAt s.mem p ∧ p + sizeAt s.mem p ≤ s.pEndOfVars :=
  sizeOk_bounds (nvIsVariable_sizeOk h)

theorem skipInvalidLoop_variable : ∀ {n p : Nat}, skipInvalidLoop s n p = some q →
    nvIsVariable s q = true ∧ p ≤ q
  | 0, _, h => absurd h (by simp [skipInvalidLoop])
  | n + 1, p, h => by
    unfold skipInvalidLoop at h
    by_cases h1 : s.pEndOfVars ≤ p
    · rw [if_pos h1] at h
      exact absurd h (by simp)
    rw [if_neg h1] at h
    by_cases h2 : nvIsVariable s p = true
    · rw [if_pos h2] at h
      obtain rfl := Option.some.inj h
      exact ⟨h2, le_rfl⟩
    rw [if_neg h2] at h
    by_cases h3 : sizeOk s p = true
    · rw [if_pos h3] at h
      obtain ⟨hv, hle⟩ := skipInvalidLoop_variable h
      exact ⟨hv, by omega⟩
    · rw [if_neg h3] at h
      exact absurd h (by simp)

theorem nvGetNextNvar_variable (h : nvGetNextNvar s p = some q) :
    nvIsVariable s q = true ∧ p ≤ q := by
  unfold nvGetNextNvar at h
  by_cases h1 : s.pEndOfVars ≤ p
  · rw [if_pos h1] at h
    exact absurd h (by simp)
  rw [if_neg h1] at h
  by_cases h2 : nvIsVariable s p = true
  · rw [if_pos h2] at h
    obtain ⟨hv, hle⟩ := skipInvalidLoop_variable h
    exact ⟨hv, by omega⟩
  · rw [if_neg h2] at h
    exact skipInvalidLoop_variable h

theorem nextValidLoop_variable : ∀ {n p : Nat}, nextValidLoop s n p = some q →
    nvIsVariable s q = true ∧ nvIsValid s.mem q = true
  | 0, _, h => absurd h (by simp [nextValidLoop])
  | n + 1, p, h => by
    unfold nextValidLoop at h
    cases hn : nvGetNextNvar s p with
    | none =>
      rw [hn] at h
      exact absurd h (by simp)
    | some r =>
      rw [hn] at h
      simp only at h
      by_cases hv : nvIsValid s.mem r = true
      · rw [if_pos hv] at h
        obtain rfl := Option.some.inj h
        exact ⟨(nvGetNextNvar_variable hn).1, hv⟩
      · rw [if_neg hv] at h
        exact nextValidLoop_variable h

theorem nvGetNextValid_variable (h : nvGetNextValid s p = some q) :
    nvIsVariable s q = true ∧ nvIsValid s.mem q = true :=
  nextValidLoop_variable h

theorem nvGetFirstValid_variable (h : nvGetFirstValid s = some q) :
    nvIsVariable s q = true ∧ nvIsValid s.mem q = true := by
  unfold nvGetFirstValid at h
  by_cases h1 : (!nvIsVariable s s.pFirstVar) = true
  · rw [if_pos h1] at h
    exact absurd h (by simp)
  rw [if_neg h1] at h
  by_cases h2 : nvIsValid s.mem s.pFirstVar = true
  · rw [if_pos h2] at h
    obtain rfl := Option.some.inj h
    exact ⟨by simpa using h1, h2⟩
  · rw [if_neg h2] at h
    exact nvGetNextValid_variable h

/-- A variable is not found if no record has its GUID. -/
theorem nvFindVariable_fresh {name : Name} {guid : Guid}
    (hg : ∀ p, p < s.pEndOfVars → nvGetGuid s p ≠ guid.bytes) :
    nvFindVariable s name guid = none := by
  have hloop : ∀ (n : Nat) (p : Option Nat), (∀ a, p = some a → nvIsVariable s a = true) →
      findVariableLoop s name guid n p = none := by
    intro n
    induction n with
    | zero => exact fun _ _ => rfl
    | succ n ih =>
      intro p hp
      cases p with
      | none => rfl
      | some a =>
        obtain ⟨h1, h2⟩ := nvIsVariable_bounds (hp a rfl)
        have hne : nvVarEq s a name guid = none := by
          unfold nvVarEq
          simp only [if_neg (hg a (by omega))]
          exact Option.bind_eq_none_iff.mpr fun _ _ => rfl
        unfold findVariableLoop
        rw [hne]
        exact ih _ fun b hb => (nvGetNextValid_variable hb).1
  exact hloop _ _ fun a ha => (nvGetFirstValid_variable ha).1

end

end BayTrail.Nvram
