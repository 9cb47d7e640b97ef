import Mathlib.Data.List.InsertIdx

/-!
# Arrays of slots

Loops that shift the elements of an array by one place. Nothing outside of the array can be read or
written.
-/

namespace BayTrail.Lib

variable {α : Type} {a : List α} {x : α} {i n : Nat}

/-- A slot is written. -/
def setAt (a : List α) (i : Nat) (x : α) : Option (List α) := if i < a.length then some (a.set i x) else none

theorem setAt_of_lt (h : i < a.length) (x : α) : setAt a i x = some (a.set i x) := if_pos h

/-- From the last of so many elements behind this place on, each moves to the next one. -/
def shiftUp (a : List α) (i : Nat) : Nat → Option (List α)
  | 0 => some a
  | n + 1 => do
    let x ← a[i + n]?
    let a ← setAt a (i + n + 1) x
    shiftUp a i n

/-- So many elements behind this place move to the one in front, the first one first. -/
def shiftDown (a : List α) (i : Nat) : Nat → Option (List α)
  | 0 => some a
  | n + 1 => do
    let x ← a[i + 1]?
    let a ← setAt a i x
    shiftDown a (i + 1) n

theorem exists_shiftUp (h : i + n < a.length) : ∃ b, shiftUp a i n = some b ∧ b.length = a.length
    ∧ ∀ j, b[j]? = if i < j ∧ j ≤ i + n then a[j - 1]? else a[j]? := by
  induction n generalizing a with
  | zero =>
    refine ⟨a, rfl, rfl, fun j => ?_⟩
    rw [if_neg (by omega)]
  | succ n ih =>
    have hx := List.getElem?_eq_getElem (show i + n < a.length by omega)
    obtain ⟨b, hb, hlen, hget⟩ := ih (a := a.set (i + n + 1) a[i + n]) (by rw [List.length_set]; omega)
    refine ⟨b, ?_, by rw [hlen, List.length_set], fun j => ?_⟩
    · simp only [shiftUp, hx, setAt_of_lt (show i + n + 1 < a.length by omega), Option.bind_eq_bind, Option.bind_some]
      exact hb
    · rw [hget j]
      by_cases hj : j = i + n + 1
      · rw [hj, if_neg (by omega), if_pos (by omega), List.getElem?_set_self (by omega), ← hx]
        rfl
      · by_cases hin : i < j ∧ j ≤ i + n
        · rw [if_pos hin, if_pos (by omega), List.getElem?_set_ne (by omega)]
        · rw [if_neg hin, if_neg (by omega), List.getElem?_set_ne (by omega)]

theorem exists_shiftDown (h : i + n < a.length) : ∃ b, shiftDown a i n = some b ∧ b.length = a.length
    ∧ ∀ j, b[j]? = if i ≤ j ∧ j < i + n then a[j + 1]? else a[j]? := by
  induction n generalizing a i with
  | zero =>
    refine ⟨a, rfl, rfl, fun j => ?_⟩
    rw [if_neg (by omega)]
  | succ n ih =>
    have hx := List.getElem?_eq_getElem (show i + 1 < a.length by omega)
    obtain ⟨b, hb, hlen, hget⟩ := ih (a := a.set i a[i + 1]) (i := i + 1) (by rw [List.length_set]; omega)
    refine ⟨b, ?_, by rw [hlen, List.length_set], fun j => ?_⟩
    · simp only [shiftDown, hx, setAt_of_lt (show i < a.length by omega), Option.bind_eq_bind, Option.bind_some]
      exact hb
    · rw [hget j]
      by_cases hj : j = i
      · subst hj
        rw [if_neg (by omega), if_pos (by omega), List.getElem?_set_self (by omega), hx]
      · by_cases hin : i + 1 ≤ j ∧ j < i + 1 + n
        · rw [if_pos hin, if_pos (by omega), List.getElem?_set_ne (by omega)]
        · rw [if_neg hin, if_neg (by omega), List.getElem?_set_ne (by omega)]

/-- With a slot left, the elements behind a place move up and the new one is written. -/
theorem exists_shiftUp_insert (hi : i ≤ n) (hn : n < a.length) (x : α) :
    ∃ b, shiftUp a i (n - i) = some b ∧ b.length = a.length ∧ (b.set i x).take (n + 1) = (a.take n).insertIdx i x := by
  obtain ⟨b, hb, hlen, hget⟩ := exists_shiftUp (a := a) (i := i) (n := n - i) (by omega)
  refine ⟨b, hb, hlen, List.ext_getElem? fun j => ?_⟩
  have hin : i ≤ (a.take n).length := by
    rw [List.length_take]
    omega
  rcases Nat.lt_trichotomy j i with hj | rfl | hj
  · rw [List.getElem?_take_of_lt (by omega), List.getElem?_set_ne (by omega), hget, if_neg (by omega),
      List.getElem?_insertIdx_of_lt hj, List.getElem?_take_of_lt (by omega)]
  · rw [List.getElem?_take_of_lt (by omega), List.getElem?_set_self (by omega), List.getElem?_insertIdx_self, if_pos hin]
  · rw [List.getElem?_insertIdx_of_gt hj]
    rcases Nat.lt_or_ge j (n + 1) with hj' | hj'
    · rw [List.getElem?_take_of_lt hj', List.getElem?_set_ne (by omega), hget, if_pos (by omega), List.getElem?_take_of_lt (by omega)]
    · rw [List.getElem?_eq_none (by rw [List.length_take]; omega), List.getElem?_eq_none (by rw [List.length_take]; omega)]

/-- The elements behind a place move down. -/
theorem exists_shiftDown_erase (hi : i < n) (hn : n ≤ a.length) :
    ∃ b, shiftDown a i (n - 1 - i) = some b ∧ b.length = a.length ∧ b.take (n - 1) = (a.take n).eraseIdx i := by
  obtain ⟨b, hb, hlen, hget⟩ := exists_shiftDown (a := a) (i := i) (n := n - 1 - i) (by omega)
  refine ⟨b, hb, hlen, List.ext_getElem? fun j => ?_⟩
  rw [List.getElem?_eraseIdx]
  rcases Nat.lt_or_ge j (n - 1) with hj | hj
  · rw [List.getElem?_take_of_lt hj, hget]
    by_cases hji : j < i
    · rw [if_neg (by omega), if_pos hji, List.getElem?_take_of_lt (by omega)]
    · rw [if_pos (by omega), if_neg hji, List.getElem?_take_of_lt (by omega)]
  · rw [List.getElem?_eq_none (by rw [List.length_take]; omega), if_neg (by omega),
      List.getElem?_eq_none (by rw [List.length_take]; omega)]

end BayTrail.Lib
