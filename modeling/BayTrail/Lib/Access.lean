import BayTrail.Lib.Bytes

/-!
# Memory accesses in their order

What a program does to a memory, as a list of accesses. `runLog` is the memory behind them, and
`Confined` says that every write lies in a range that has been checked before, or in memory of the
program's own, and that nothing is copied out of other memory. Confined accesses leave all other
memory as it is (`Confined.frame`).
-/

namespace BayTrail.Lib

/-- A check of a range that has succeeded, a store of bytes, a copy (to the first address, from the
second), or an access to something else than the memory. -/
inductive Access where
  | checked (p n : Nat)
  | store (p : Nat) (bs : Bytes)
  | copy (p q n : Nat)
  | device (p n : Nat)

def Access.apply (m : Mem) : Access → Mem
  | .store p bs => poke m p bs
  | .copy p q n => poke m p (peek m q n)
  | _ => m

/-- The memory behind the accesses. -/
def runLog (m : Mem) (log : List Access) : Mem := log.foldl Access.apply m

@[simp] theorem runLog_nil (m : Mem) : runLog m [] = m := rfl

@[simp] theorem runLog_cons (m : Mem) (x : Access) (log : List Access) :
    runLog m (x :: log) = runLog (x.apply m) log := rfl

theorem runLog_append (m : Mem) (log log' : List Access) :
    runLog m (log ++ log') = runLog (runLog m log) log' := List.foldl_append

/-- The access does not write the address. -/
def Access.Misses (a : Nat) : Access → Prop
  | .store p bs => a < p ∨ p + bs.length ≤ a
  | .copy p _ n => a < p ∨ p + n ≤ a
  | _ => True

theorem runLog_of_misses {a : Nat} {log : List Access} (h : ∀ x ∈ log, x.Misses a) (m : Mem) :
    runLog m log a = m a := by
  induction log generalizing m with
  | nil => rfl
  | cons x log ih =>
    rw [runLog_cons, ih fun y hy => h y (List.mem_cons_of_mem _ hy)]
    have hx := h x List.mem_cons_self
    cases x with
    | checked p n => rfl
    | store p bs => exact poke_of_out hx
    | copy p q n =>
      refine poke_of_out ?_
      rw [peek_length]
      exact hx
    | device p n => rfl

section Confined

-- what the check accepts, and the memory of the program's own
variable (ok : Nat → Nat → Bool) (own : Nat → Prop)

/-- The range lies in one of the checked ranges, or in the program's own memory. -/
def Inside (checked : List (Nat × Nat)) (p n : Nat) : Prop :=
  (∃ r ∈ checked, r.1 ≤ p ∧ p + n ≤ r.1 + r.2) ∨ ∀ i < n, own (p + i)

/-- Every access stays inside what has been checked when it is done. -/
inductive Confined : List (Nat × Nat) → List Access → Prop
  | nil {checked} : Confined checked []
  | checked {checked p n log} : ok p n = true → Confined ((p, n) :: checked) log →
    Confined checked (.checked p n :: log)
  | store {checked p bs log} : Inside own checked p bs.length → Confined checked log →
    Confined checked (.store p bs :: log)
  | copy {checked p q n log} : Inside own checked p n → Inside own checked q n →
    Confined checked log → Confined checked (.copy p q n :: log)
  | device {checked p n log} : Confined checked log → Confined checked (.device p n :: log)

/-- The ranges that have been checked behind the accesses. -/
def checkedBy : List (Nat × Nat) → List Access → List (Nat × Nat)
  | checked, [] => checked
  | checked, .checked p n :: log => checkedBy ((p, n) :: checked) log
  | checked, .store _ _ :: log => checkedBy checked log
  | checked, .copy _ _ _ :: log => checkedBy checked log
  | checked, .device _ _ :: log => checkedBy checked log

variable {ok own} {checked : List (Nat × Nat)} {log log' : List Access} {p n : Nat}

theorem confined_checked : Confined ok own checked (.checked p n :: log) ↔
    ok p n = true ∧ Confined ok own ((p, n) :: checked) log :=
  ⟨fun h => by cases h; exact ⟨‹_›, ‹_›⟩, fun h => .checked h.1 h.2⟩

theorem confined_store {bs : Bytes} : Confined ok own checked (.store p bs :: log) ↔
    Inside own checked p bs.length ∧ Confined ok own checked log :=
  ⟨fun h => by cases h; exact ⟨‹_›, ‹_›⟩, fun h => .store h.1 h.2⟩

theorem confined_copy {q : Nat} : Confined ok own checked (.copy p q n :: log) ↔
    Inside own checked p n ∧ Inside own checked q n ∧ Confined ok own checked log :=
  ⟨fun h => by cases h; exact ⟨‹_›, ‹_›, ‹_›⟩, fun h => .copy h.1 h.2.1 h.2.2⟩

theorem confined_device : Confined ok own checked (.device p n :: log) ↔
    Confined ok own checked log :=
  ⟨fun h => by cases h; assumption, .device⟩

theorem inside_of_mem {q k : Nat} (h : (q, k) ∈ checked) (h1 : q ≤ p) (h2 : p + n ≤ q + k) :
    Inside own checked p n := .inl ⟨_, h, h1, h2⟩

theorem checkedBy_mono (log : List Access) : ∀ r ∈ checked, r ∈ checkedBy checked log := by
  induction log generalizing checked with
  | nil => exact fun r hr => hr
  | cons x log ih =>
    intro r hr
    cases x with
    | checked p n => exact ih r (List.mem_cons_of_mem _ hr)
    | store p bs => exact ih r hr
    | copy p q n => exact ih r hr
    | device p n => exact ih r hr

theorem confined_append :
    Confined ok own checked (log ++ log') ↔
      Confined ok own checked log ∧ Confined ok own (checkedBy checked log) log' := by
  induction log generalizing checked with
  | nil => exact ⟨fun h => ⟨.nil, h⟩, fun h => h.2⟩
  | cons x log ih =>
    rw [List.cons_append]
    cases x with
    | checked p n => rw [confined_checked, confined_checked, ih, and_assoc, checkedBy]
    | store p bs => rw [confined_store, confined_store, ih, and_assoc, checkedBy]
    | copy p q n => rw [confined_copy, confined_copy, ih, and_assoc, and_assoc, checkedBy]
    | device p n => rw [confined_device, confined_device, ih, checkedBy]

theorem checkedBy_append :
    checkedBy checked (log ++ log') = checkedBy (checkedBy checked log) log' := by
  induction log generalizing checked with
  | nil => rfl
  | cons x log ih => cases x with
    | checked p n => exact ih
    | store p bs => exact ih
    | copy p q n => exact ih
    | device p n => exact ih

/-- Stores check nothing. -/
theorem checkedBy_stores (h : ∀ x ∈ log, ∃ p bs, x = .store p bs) :
    checkedBy checked log = checked := by
  induction log with
  | nil => rfl
  | cons x log ih =>
    obtain ⟨p, bs, rfl⟩ := h x List.mem_cons_self
    exact ih fun y hy => h y (List.mem_cons_of_mem _ hy)

/-- Stores one by one, each inside the checked ranges. -/
theorem confined_stores (h : ∀ x ∈ log, ∃ p bs, x = .store p bs ∧ Inside own checked p bs.length) :
    Confined ok own checked log := by
  induction log with
  | nil => exact .nil
  | cons x log ih =>
    obtain ⟨p, bs, rfl, hin⟩ := h x List.mem_cons_self
    exact .store hin (ih fun y hy => h y (List.mem_cons_of_mem _ hy))

/-- An address outside of every range that the check accepts, and of the program's own memory, is
not written. -/
theorem Confined.frame {a : Nat} (h : Confined ok own checked log) (m : Mem)
    (hchecked : ∀ r ∈ checked, ok r.1 r.2 = true)
    (ha : ∀ p n, ok p n = true → a < p ∨ p + n ≤ a) (hown : ¬ own a) :
    runLog m log a = m a := by
  have hout : ∀ {checked : List (Nat × Nat)} {p n : Nat},
      (∀ r ∈ checked, ok r.1 r.2 = true) → Inside own checked p n → a < p ∨ p + n ≤ a := by
    intro checked p n hchecked hin
    obtain ⟨r, hr, h1, h2⟩ | hin := hin
    · have := ha r.1 r.2 (hchecked r hr)
      omega
    · by_contra hnot
      refine hown ?_
      have := hin (a - p) (by omega)
      rwa [show p + (a - p) = a by omega] at this
  induction h generalizing m with
  | nil => rfl
  | checked hok _ ih =>
    refine ih m fun r hr => ?_
    obtain rfl | hr := List.mem_cons.mp hr
    · exact hok
    · exact hchecked r hr
  | store hin _ ih =>
    rw [runLog_cons, ih _ hchecked]
    exact poke_of_out (hout hchecked hin)
  | copy hin _ _ ih =>
    rw [runLog_cons, ih _ hchecked]
    refine poke_of_out ?_
    rw [peek_length]
    exact hout hchecked hin
  | device _ ih => exact ih m hchecked

end Confined

end BayTrail.Lib
