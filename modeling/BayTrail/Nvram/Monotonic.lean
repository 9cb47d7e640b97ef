import Mathlib.Algebra.Ring.Nat
import Mathlib.Data.List.Basic

/-!
# NVRAM: the monotonic counter

`GetNextMonotonicCount` and `GetNextHighMonotonicCount` of NvramDxe.c. The low half is in
memory and begins at 0 with every boot, the high half is in memory and in a variable.
`MonotonicCounterInit` raises it and does not look at the result.
-/

namespace BayTrail.Nvram.Monotonic

/-! ## The counter -/

/-- What the variable services answer in a call: whether `GetVariable` fails, other than with
`EFI_NOT_FOUND`, and whether `SetVariable` does. -/
structure Services where
  getFails : Bool
  setFails : Bool
  deriving DecidableEq, Repr

structure Counter where
  /-- the variable `MonotonicCounter`, if there is one -/
  stored : Option Nat
  /-- `CounterLo` -/
  counterLo : Nat
  /-- `CounterHi` -/
  counterHi : Nat
  deriving DecidableEq, Repr

/-- `CounterHi` as it is before it is raised: 0 is read from the variable, and stays 0 if
there is none. -/
def Counter.high (s : Counter) : Nat := if s.counterHi = 0 then s.stored.getD 0 else s.counterHi

/-- `GetNextHighMonotonicCount`: `*HighCount`, if it succeeds. -/
def getNextHighMonotonicCount (env : Services) (null : Bool) (s : Counter) : Option Nat × Counter :=
  if null then (none, s)
  else if s.counterHi = 0 ∧ env.getFails = true then (none, s)
  else
    let counterHi := (s.high + 1) % 2 ^ 32
    if env.setFails then (none, { s with counterHi := counterHi })
    else (some counterHi, { s with counterHi := counterHi, stored := some counterHi })

/-- `GetNextMonotonicCount`: `*Count`, if it succeeds. -/
def getNextMonotonicCount (env : Services) (null : Bool) (s : Counter) : Option Nat × Counter :=
  if null then (none, s)
  else
    let low := s.counterLo
    let s := { s with counterLo := (s.counterLo + 1) % 2 ^ 32 }
    if s.counterLo = 0 then
      let r := getNextHighMonotonicCount env false s
      (r.1.map (· * 2 ^ 32 + low), r.2)
    else (some (s.counterHi * 2 ^ 32 + low), s)

/-- A boot: the variable is what there is left, and `MonotonicCounterInit` runs. -/
def boot (env : Services) (stored : Option Nat) : Counter :=
  (getNextHighMonotonicCount env false ⟨stored, 0, 0⟩).2

/-! ## Runs -/

inductive Event where
  | count (env : Services) (null : Bool)
  | high (env : Services) (null : Bool)
  | reboot (env : Services)

/-- The 64-bit count that is returned, and the counter after it. -/
def Event.perform (s : Counter) : Event → Option Nat × Counter
  | .count env null => getNextMonotonicCount env null s
  | .high env null => (none, (getNextHighMonotonicCount env null s).2)
  | .reboot env => (none, boot env s.stored)

/-- The counts that are returned in a run. -/
def counts : Counter → List Event → List Nat
  | _, [] => []
  | s, e :: es => (e.perform s).1.toList ++ counts (e.perform s).2 es

/-- Something that is true of every event of a run, in the state in which it finds the
counter. -/
def Throughout (p : Counter → Event → Prop) : Counter → List Event → Prop
  | _, [] => True
  | s, e :: es => p s e ∧ Throughout p (e.perform s).2 es

/-- The high half does not wrap. -/
def Event.HighKept (s : Counter) : Event → Prop
  | .count _ _ => s.counterLo + 1 = 2 ^ 32 → s.high + 1 < 2 ^ 32
  | .high _ _ => s.high + 1 < 2 ^ 32
  | .reboot _ => s.stored.getD 0 + 1 < 2 ^ 32

/-- The low half is not at its end when a count is asked for; and a reboot finds in the
variable what has been in memory. -/
def Event.Sound (s : Counter) : Event → Prop
  | .count _ null => null = true ∨ s.counterLo + 1 < 2 ^ 32
  | .high _ _ => True
  | .reboot env => s.stored = some s.counterHi ∧ env.getFails = false

/-! ## One event -/

/-- The count that the counter stands at. -/
def Counter.now (s : Counter) : Nat := s.counterHi * 2 ^ 32 + s.counterLo

/-- Booted, with a low half of 32 bits. -/
structure Counter.Started (s : Counter) : Prop where
  high : s.counterHi ≠ 0
  low : s.counterLo < 2 ^ 32

section

variable {s : Counter} {e : Event}

/-- The high half is raised in memory, whether it can be stored or not. -/
theorem getNextHigh_eq {env : Services} (hget : ¬ (s.counterHi = 0 ∧ env.getFails = true))
    (hhigh : s.high + 1 < 2 ^ 32) :
    (getNextHighMonotonicCount env false s).2.counterHi = s.high + 1
      ∧ (getNextHighMonotonicCount env false s).2.counterLo = s.counterLo := by
  have hmod := Nat.mod_eq_of_lt hhigh
  unfold getNextHighMonotonicCount
  rw [if_neg Bool.false_ne_true, if_neg hget]
  cases env.setFails with
  | false => exact ⟨hmod, rfl⟩
  | true => exact ⟨hmod, rfl⟩

variable {env : Services} {stored : Option Nat}

theorem boot_eq (hget : env.getFails = false)
    (hhigh : stored.getD 0 + 1 < 2 ^ 32) :
    (boot env stored).counterHi = stored.getD 0 + 1 ∧ (boot env stored).counterLo = 0 :=
  getNextHigh_eq (fun h => absurd h.2 (by simp [hget])) hhigh

theorem boot_started (hget : env.getFails = false)
    (hhigh : stored.getD 0 + 1 < 2 ^ 32) : (boot env stored).Started := by
  obtain ⟨hhi, hlo⟩ := boot_eq hget hhigh
  exact ⟨by omega, by omega⟩

/-- A count is returned that the counter stood at, and left behind. -/
theorem perform_now (hs : s.Started) (hhigh : e.HighKept s) (hsound : e.Sound s) :
    (e.perform s).2.Started ∧ s.now ≤ (e.perform s).2.now
      ∧ ∀ c ∈ (e.perform s).1.toList, c = s.now ∧ c < (e.perform s).2.now := by
  have hlow := hs.low
  cases e with
  | count env null =>
    cases null with
    | true => exact ⟨hs, le_rfl, by simp [Event.perform, getNextMonotonicCount]⟩
    | false =>
      have hlt : s.counterLo + 1 < 2 ^ 32 := hsound.resolve_left Bool.false_ne_true
      have hstep : (Event.count env false).perform s
          = (some s.now, { s with counterLo := s.counterLo + 1 }) := by
        unfold Event.perform getNextMonotonicCount
        simp only [Nat.mod_eq_of_lt hlt]
        rfl
      rw [hstep]
      refine ⟨⟨hs.high, hlt⟩, ?_, ?_⟩
      · show s.counterHi * 2 ^ 32 + s.counterLo ≤ s.counterHi * 2 ^ 32 + (s.counterLo + 1)
        omega
      · intro c hc
        obtain rfl : c = s.now := by simpa using hc
        refine ⟨rfl, ?_⟩
        show s.counterHi * 2 ^ 32 + s.counterLo < s.counterHi * 2 ^ 32 + (s.counterLo + 1)
        omega
  | high env null =>
    cases null with
    | true => exact ⟨hs, le_rfl, by simp [Event.perform]⟩
    | false =>
      obtain ⟨hhi, hlo⟩ := @getNextHigh_eq s env (fun h => hs.high h.1) hhigh
      have hmem : s.high = s.counterHi := if_neg hs.high
      refine ⟨⟨?_, ?_⟩, ?_, by simp [Event.perform]⟩
      · show (getNextHighMonotonicCount env false s).2.counterHi ≠ 0
        omega
      · show (getNextHighMonotonicCount env false s).2.counterLo < 2 ^ 32
        omega
      · show s.now ≤ (getNextHighMonotonicCount env false s).2.now
        unfold Counter.now
        omega
  | reboot env =>
    obtain ⟨hstored, hget⟩ := hsound
    obtain ⟨hhi, hlo⟩ := boot_eq hget hhigh
    refine ⟨boot_started hget hhigh, ?_, by simp [Event.perform]⟩
    show s.now ≤ (boot env s.stored).now
    rw [hstored] at hhi ⊢
    rw [hstored] at hlo
    simp only [Option.getD_some] at hhi
    unfold Counter.now
    omega

end

/-! ## The counts of a run -/

variable {events : List Event}

theorem now_le_of_mem_counts : ∀ {s : Counter}, s.Started →
    Throughout Event.HighKept s events → Throughout Event.Sound s events →
    ∀ c ∈ counts s events, s.now ≤ c := by
  induction events with
  | nil => exact fun _ _ _ c hc => absurd hc List.not_mem_nil
  | cons e es ih =>
    intro s hs hhigh hsound c hc
    obtain ⟨hs', hle, hcount⟩ := perform_now hs hhigh.1 hsound.1
    obtain hc | hc := List.mem_append.mp hc
    · exact Nat.le_of_eq (hcount c hc).1.symm
    · exact Nat.le_trans hle (ih hs' hhigh.2 hsound.2 c hc)

theorem counts_pairwise : ∀ {s : Counter}, s.Started →
    Throughout Event.HighKept s events → Throughout Event.Sound s events →
    (counts s events).Pairwise (· < ·) := by
  induction events with
  | nil => exact fun _ _ _ => List.Pairwise.nil
  | cons e es ih =>
    intro s hs hhigh hsound
    obtain ⟨hs', hle, hcount⟩ := perform_now hs hhigh.1 hsound.1
    refine List.pairwise_append.mpr ⟨?_, ih hs' hhigh.2 hsound.2, ?_⟩
    · cases (e.perform s).1 with
      | none => exact List.Pairwise.nil
      | some c => exact List.pairwise_singleton _ _
    · intro c hc c' hc'
      exact Nat.lt_of_lt_of_le (hcount c hc).2 (now_le_of_mem_counts hs' hhigh.2 hsound.2 c' hc')

/-- In a run that begins with a boot, the counts are ascending as long as the low half does
not come to its end, and the variable is there again at every reboot. -/
theorem counts_ascending {env : Services} {stored : Option Nat} {events : List Event}
    (hget : env.getFails = false) (hfirst : stored.getD 0 + 1 < 2 ^ 32)
    (hhigh : Throughout Event.HighKept (boot env stored) events)
    (hsound : Throughout Event.Sound (boot env stored) events) :
    (counts (boot env stored) events).Pairwise (· < ·) :=
  counts_pairwise (boot_started hget hfirst) hhigh hsound

/-- Services that do not fail. -/
def works : Services := ⟨false, false⟩

/-- Two counts, a new high half that cannot be stored and one that can, a reboot and another
count. -/
theorem counts_ascending_reboot :
    (counts (boot works none) [.count works false, .count works false, .high ⟨false, true⟩ false,
      .high works false, .reboot works, .count works false]).Pairwise (· < ·) := by
  refine counts_ascending rfl (by decide) ?_ ?_
  · simp only [Throughout, Event.HighKept]
    decide
  · simp only [Throughout, Event.Sound]
    decide

/-! ## The end of the low half -/

theorem perform_count {s : Counter} (hlt : s.counterLo + 1 < 2 ^ 32) :
    ((Event.count works false).perform s).2 = { s with counterLo := s.counterLo + 1 } := by
  unfold Event.perform getNextMonotonicCount
  simp only [Nat.mod_eq_of_lt hlt]
  rfl

/-- Many counts, and what comes behind them. -/
theorem after_counts {rest : List Event} {hi : Nat} {stored : Option Nat} : ∀ {n lo : Nat},
    lo + n < 2 ^ 32 →
    (Throughout Event.HighKept ⟨stored, lo + n, hi⟩ rest → Throughout Event.HighKept ⟨stored, lo, hi⟩
        (List.replicate n (.count works false) ++ rest))
      ∧ ((counts ⟨stored, lo, hi⟩ (List.replicate n (.count works false) ++ rest)).Pairwise (· < ·) →
        (counts ⟨stored, lo + n, hi⟩ rest).Pairwise (· < ·)) := by
  intro n
  induction n with
  | zero => exact fun {lo} _ => ⟨id, id⟩
  | succ n ih =>
    intro lo hlt
    have hstep := @perform_count ⟨stored, lo, hi⟩ (show lo + 1 < 2 ^ 32 by omega)
    obtain ⟨ih1, ih2⟩ := @ih (lo + 1) (by omega)
    rw [show lo + (n + 1) = lo + 1 + n by omega, List.replicate_succ, List.cons_append]
    constructor
    · intro h
      refine ⟨fun hend => ?_, ?_⟩
      · exact absurd hend (show ¬ lo + 1 = 2 ^ 32 by omega)
      · rw [hstep]
        exact ih1 h
    · intro h
      rw [counts, hstep] at h
      exact ih2 (List.pairwise_append.mp h).2.1

/-- The count at which the low half ends has the next high half already; the one behind it is
smaller. -/
theorem not_counts_ascending : ¬ ∀ (env : Services) (stored : Option Nat) (events : List Event),
    env.getFails = false → stored.getD 0 + 1 < 2 ^ 32 →
    Throughout Event.HighKept (boot env stored) events →
    (counts (boot env stored) events).Pairwise (· < ·) := by
  intro h
  obtain ⟨hhigh, hcounts⟩ := @after_counts [.count works false, .count works false] 1 (some 1)
    (2 ^ 32 - 1) 0 (by omega)
  have hkept : Throughout Event.HighKept ⟨some 1, 0 + (2 ^ 32 - 1), 1⟩
      [.count works false, .count works false] := by
    simp only [Throughout, Event.HighKept]
    decide
  have hall := hcounts (h works none _ rfl (by decide) (hhigh hkept))
  exact absurd hall (by decide)

end BayTrail.Nvram.Monotonic
