import Mathlib.Data.List.Range

/-!
# Messages taken in blocks

A message comes in pieces of any length and is folded into a value block by block. What is kept in between
is the value of the whole blocks and the beginning of the next one. Where the pieces end makes no difference.
-/

namespace BayTrail.Lib

/-- What is kept of the message so far: the value its whole blocks make, and what follows them. -/
structure Absorbed (σ α : Type) where
  chain : σ
  rest : List α

/-- The whole blocks of a message. -/
def blocks {α : Type} (size : Nat) (m : List α) : List (List α) :=
  (List.range (m.length / size)).map fun i => (m.drop (size * i)).take size

variable {σ α : Type} {size : Nat} {f : σ → List α → σ} {a : Absorbed σ α} {m m' : List α} {s : σ}

namespace Absorbed

/-- One element more: it may fill a block. -/
def push (size : Nat) (f : σ → List α → σ) (a : Absorbed σ α) (x : α) : Absorbed σ α :=
  if a.rest.length + 1 = size then ⟨f a.chain (a.rest ++ [x]), []⟩ else ⟨a.chain, a.rest ++ [x]⟩

/-- A piece of the message more. -/
def absorb (size : Nat) (f : σ → List α → σ) (a : Absorbed σ α) (m : List α) : Absorbed σ α :=
  m.foldl (push size f) a

@[simp]
theorem absorb_nil : a.absorb size f [] = a := rfl

theorem absorb_cons (x : α) : a.absorb size f (x :: m) = (a.push size f x).absorb size f m := rfl

theorem absorb_append : a.absorb size f (m ++ m') = (a.absorb size f m).absorb size f m' :=
  List.foldl_append

/-- A piece that leaves the block open. -/
theorem absorb_open (h : a.rest.length + m.length < size) : a.absorb size f m = ⟨a.chain, a.rest ++ m⟩ := by
  induction m generalizing a with
  | nil => rw [absorb_nil, List.append_nil]
  | cons x m ih =>
    rw [List.length_cons] at h
    have hpush : a.push size f x = ⟨a.chain, a.rest ++ [x]⟩ := if_neg (by omega)
    rw [absorb_cons, hpush, ih (by rw [List.length_append, List.length_singleton]; omega)]
    simp

/-- A piece that just fills the block. -/
theorem absorb_full (h : a.rest.length + m.length = size) (hm : m ≠ []) :
    a.absorb size f m = ⟨f a.chain (a.rest ++ m), []⟩ := by
  -- all but the last element leave it open
  obtain ⟨m, x, rfl⟩ : ∃ m' x, m = m' ++ [x] := ⟨m.dropLast, m.getLast hm, (List.dropLast_append_getLast hm).symm⟩
  rw [List.length_append, List.length_singleton] at h
  have hopen : a.absorb size f m = ⟨a.chain, a.rest ++ m⟩ := absorb_open (by omega)
  rw [absorb_append, hopen, absorb_cons, absorb_nil, push, if_pos (by rw [List.length_append]; omega)]
  simp

end Absorbed

/-! ## Block by block -/

theorem blocks_short (h : m.length < size) : blocks size m = [] := by
  rw [blocks, Nat.div_eq_of_lt h, List.range_zero, List.map_nil]

/-- The first block is one of them. -/
theorem count_step (hsize : 0 < size) (h : size ≤ m.length) :
    m.length / size = (m.drop size).length / size + 1 := by
  rw [List.length_drop, ← Nat.add_div_right _ hsize, Nat.sub_add_cancel h]

theorem blocks_step (hsize : 0 < size) (h : size ≤ m.length) :
    blocks size m = m.take size :: blocks size (m.drop size) := by
  rw [blocks, blocks, count_step hsize h, List.range_succ_eq_map, List.map_cons, List.map_map, Nat.mul_zero, List.drop_zero]
  refine congrArg (m.take size :: ·) (List.map_congr_left fun i _ => ?_)
  rw [Function.comp_apply, List.drop_drop, Nat.succ_eq_add_one, Nat.mul_add, Nat.mul_one, Nat.add_comm]

/-- A message at once: its whole blocks are folded, and what follows them is kept. -/
theorem Absorbed.absorb_blocks (hsize : 0 < size) (s : σ) (m : List α) :
    (⟨s, []⟩ : Absorbed σ α).absorb size f m = ⟨(blocks size m).foldl f s, m.drop (size * (m.length / size))⟩ := by
  induction hn : m.length using Nat.strong_induction_on generalizing s m with
  | _ n ih =>
    subst hn
    by_cases h : m.length < size
    · rw [absorb_open (by simpa using h), blocks_short h, Nat.div_eq_of_lt h]
      simp
    · have hle : size ≤ m.length := by omega
      have htake : (m.take size).length = size := List.length_take_of_le hle
      have hfirst : (⟨s, []⟩ : Absorbed σ α).absorb size f (m.take size) = ⟨f s (m.take size), []⟩ :=
        absorb_full (by rw [htake]; exact Nat.zero_add size) fun hnil => by rw [hnil, List.length_nil] at htake; omega
      have hrest := ih (m.drop size).length (by rw [List.length_drop]; omega) (f s (m.take size)) (m.drop size) rfl
      calc (⟨s, []⟩ : Absorbed σ α).absorb size f m
          = (⟨s, []⟩ : Absorbed σ α).absorb size f (m.take size ++ m.drop size) := by rw [List.take_append_drop]
        _ = (⟨f s (m.take size), []⟩ : Absorbed σ α).absorb size f (m.drop size) := by rw [absorb_append, hfirst]
        _ = _ := by
          rw [hrest, blocks_step hsize hle, List.foldl_cons, List.drop_drop, count_step hsize hle, Nat.mul_add,
            Nat.mul_one, Nat.add_comm]

/-- A message of whole blocks leaves nothing open. -/
theorem Absorbed.absorb_whole (hsize : 0 < size) (hm : m.length % size = 0) :
    (⟨s, []⟩ : Absorbed σ α).absorb size f m = ⟨(blocks size m).foldl f s, []⟩ := by
  rw [absorb_blocks hsize, Nat.mul_div_cancel' (Nat.dvd_of_mod_eq_zero hm), List.drop_length]

end BayTrail.Lib
