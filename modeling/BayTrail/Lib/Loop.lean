import Mathlib.Data.Fintype.Pigeonhole

/-!
# Loops

A loop is run with fuel. It terminates if some fuel is enough, and the result is then the same
for all that is enough.
-/

namespace BayTrail.Lib

/-- What the body of a loop does. -/
inductive Next (σ ρ : Type) where
  | again (s : σ)
  | done (r : ρ)

variable {σ ρ : Type} {body : σ → Next σ ρ} {s s' : σ} {r : ρ}

def loop (body : σ → Next σ ρ) : Nat → σ → Option ρ
  | 0, _ => none
  | fuel + 1, s =>
    match body s with
    | .again s' => loop body fuel s'
    | .done r => some r

theorem loop_again (h : body s = .again s') (fuel : Nat) : loop body (fuel + 1) s = loop body fuel s' := by
  rw [loop, h]

theorem loop_done (h : body s = .done r) (fuel : Nat) : loop body (fuel + 1) s = some r := by
  rw [loop, h]

/-- All fuel that is enough gives the same. -/
theorem loop_unique {r' : ρ} : ∀ {fuel fuel' : Nat} {s : σ}, loop body fuel s = some r → loop body fuel' s = some r' → r = r'
  | 0, _, _, h, _ => by cases h
  | _ + 1, 0, _, _, h => by cases h
  | fuel + 1, fuel' + 1, s, h, h' => by
    cases hbody : body s with
    | again s' =>
      rw [loop_again hbody] at h h'
      exact loop_unique h h'
    | done r₁ =>
      rw [loop_done hbody] at h h'
      exact Option.some.inj (h.symm.trans h')

/-- Some fuel is enough. -/
def Terminates (body : σ → Next σ ρ) (s : σ) : Prop := ∃ fuel r, loop body fuel s = some r

section

variable (f : Nat → σ) (stop : Nat → Prop) (result : Nat → ρ)
  (hagain : ∀ n, ¬ stop n → body (f n) = .again (f (n + 1)))
include f stop result hagain

/-- A loop that follows a sequence of states until it stops. -/
theorem loop_orbit
    (hdone : ∀ n, stop n → body (f n) = .done (result n)) (fuel : Nat) :
    loop body fuel (f 0) = some r ↔ ∃ n < fuel, stop n ∧ (∀ j < n, ¬ stop j) ∧ r = result n := by
  have hfrom : ∀ fuel i, loop body fuel (f i) = some r ↔
      ∃ n < fuel, stop (i + n) ∧ (∀ j < n, ¬ stop (i + j)) ∧ r = result (i + n) := by
    intro fuel
    induction fuel with
    | zero => exact fun i => iff_of_false (by simp [loop]) (by simp)
    | succ fuel ih =>
      intro i
      by_cases hstop : stop i
      · rw [loop_done (hdone i hstop)]
        constructor
        · intro h
          exact ⟨0, Nat.succ_pos _, hstop, by simp, (Option.some.inj h).symm⟩
        · rintro ⟨n, -, -, hbefore, rfl⟩
          cases n with
          | zero => rfl
          | succ n => exact absurd hstop (hbefore 0 (Nat.succ_pos _))
      · rw [loop_again (hagain i hstop), ih (i + 1)]
        constructor
        · rintro ⟨n, hn, hat, hbefore, rfl⟩
          refine ⟨n + 1, Nat.succ_lt_succ hn, ?_, ?_, ?_⟩
          · rwa [show i + (n + 1) = i + 1 + n by omega]
          · intro j hj
            cases j with
            | zero => exact hstop
            | succ j =>
              rw [show i + (j + 1) = i + 1 + j by omega]
              exact hbefore j (Nat.lt_of_succ_lt_succ hj)
          · rw [show i + (n + 1) = i + 1 + n by omega]
        · rintro ⟨n, hn, hat, hbefore, rfl⟩
          cases n with
          | zero => exact absurd hat hstop
          | succ n =>
            refine ⟨n, Nat.lt_of_succ_lt_succ hn, ?_, ?_, ?_⟩
            · rwa [show i + 1 + n = i + (n + 1) by omega]
            · intro j hj
              rw [show i + 1 + j = i + (j + 1) by omega]
              exact hbefore (j + 1) (Nat.succ_lt_succ hj)
            · rw [show i + 1 + n = i + (n + 1) by omega]
  have h0 := hfrom fuel 0
  simp only [Nat.zero_add] at h0
  exact h0

theorem terminates_orbit_iff
    (hdone : ∀ n, stop n → body (f n) = .done (result n)) : Terminates body (f 0) ↔ ∃ n, stop n := by
  classical
  constructor
  · rintro ⟨fuel, r, h⟩
    obtain ⟨n, -, hstop, -⟩ := (loop_orbit f stop result hagain hdone fuel).mp h
    exact ⟨n, hstop⟩
  · intro h
    exact ⟨Nat.find h + 1, result (Nat.find h), (loop_orbit f stop result hagain hdone _).mpr
      ⟨Nat.find h, Nat.lt_succ_self _, Nat.find_spec h, fun j hj => Nat.find_min h hj, rfl⟩⟩

end

/-- A number that gets smaller. -/
theorem terminates_of_measure (μ : σ → Nat) (I : σ → Prop)
    (hstep : ∀ s s', I s → body s = .again s' → I s' ∧ μ s' < μ s) (hs : I s) : Terminates body s := by
  induction hμ : μ s using Nat.strong_induction_on generalizing s with
  | _ n ih =>
    cases hbody : body s with
    | done r => exact ⟨1, r, loop_done hbody 0⟩
    | again s' =>
      obtain ⟨hs', hlt⟩ := hstep s s' hs hbody
      obtain ⟨fuel, r, hrun⟩ := ih (μ s') (hμ ▸ hlt) hs' rfl
      exact ⟨fuel + 1, r, (loop_again hbody fuel).trans hrun⟩

/-- Of so many values one that is reached is reached in as many steps. -/
theorem exists_iterate_lt {α : Type} {N : Nat} {code : α → Fin N} (hcode : Function.Injective code)
    {next : α → α} {a z : α} (h : ∃ n, next^[n] a = z) : ∃ n < N, next^[n] a = z := by
  classical
  refine ⟨Nat.find h, ?_, Nat.find_spec h⟩
  by_contra hge
  -- two of the values up to there are the same: it would have been reached by as much earlier
  obtain ⟨i, j, hij, heq⟩ := Fintype.exists_ne_map_eq_of_card_lt
    (fun i : Fin (N + 1) => code (next^[i.val] a)) (by simp)
  wlog hlt : i < j generalizing i j
  · exact this j i hij.symm heq.symm (lt_of_le_of_ne (not_lt.mp hlt) hij.symm)
  have hj : j.val ≤ Nat.find h := Nat.le_trans (Nat.le_of_lt_succ j.isLt) (not_lt.mp hge)
  have hearlier : next^[Nat.find h - j.val + i.val] a = z := by
    rw [Function.iterate_add_apply]
    show next^[Nat.find h - j.val] (next^[i.val] a) = z
    rw [hcode heq, ← Function.iterate_add_apply, Nat.sub_add_cancel hj]
    exact Nat.find_spec h
  have hlt' : i.val < j.val := hlt
  exact Nat.find_min h (by omega) hearlier

end BayTrail.Lib
