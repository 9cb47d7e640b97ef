import Mathlib.Data.List.Nodup
import Mathlib.Tactic.Ring

/-!
# Linked lists

Nodes with a link in each direction. `Chain` follows the forward links over a list of nodes,
`Back` says that the backward links are those of the list, and `Linked` that a pair of ends
and a count are those of the list. The lemmas are frame facts: a chain depends on the links
of its own nodes.
-/

namespace BayTrail.Lib

variable {ν : Type}

/-- The links of the nodes. -/
structure Links (ν : Type) where
  next : ν → Option ν
  prev : ν → Option ν

/-- The ends of a list, and the count of its nodes. -/
structure ListEnds (ν : Type) where
  head : Option ν
  tail : Option ν
  size : UInt64

/-- From `p` on, the links lead over these nodes to `q`. -/
def Chain (next : ν → Option ν) : Option ν → List ν → Option ν → Prop
  | p, [], q => p = q
  | p, x :: l, q => p = some x ∧ Chain next (next x) l q

/-- The backward links of these nodes; the one of the first leads to `p`. -/
def Back (prev : ν → Option ν) : Option ν → List ν → Prop
  | _, [] => True
  | p, x :: l => prev x = p ∧ Back prev (some x) l

structure Linked (h : Links ν) (d : ListEnds ν) (l : List ν) : Prop where
  nodup : l.Nodup
  forward : Chain h.next d.head l none
  backward : Back h.prev none l
  tail : d.tail = l.getLast?
  size : d.size.toNat = l.length

variable {next next' prev prev' : ν → Option ν} {p q : Option ν} {x : ν} {l m : List ν}

@[simp] theorem chain_nil : Chain next p [] q ↔ p = q := Iff.rfl

@[simp] theorem chain_cons : Chain next p (x :: l) q ↔ p = some x ∧ Chain next (next x) l q := Iff.rfl

theorem Chain.congr (h : Chain next p l q) (heq : ∀ x ∈ l, next' x = next x) : Chain next' p l q := by
  induction l generalizing p with
  | nil => exact h
  | cons x l ih =>
    refine ⟨h.1, ?_⟩
    rw [heq x (List.mem_cons_self ..)]
    exact ih h.2 fun y hy => heq y (List.mem_cons_of_mem _ hy)

theorem chain_append : Chain next p (l ++ m) q ↔ ∃ r, Chain next p l r ∧ Chain next r m q := by
  induction l generalizing p with
  | nil => simp
  | cons x l ih => simp only [List.cons_append, chain_cons, ih, and_assoc, exists_and_left]

/-- A chain that does not end at once starts at its first node. -/
theorem Chain.head (h : Chain next p l none) : p = l.head? := by
  cases l with
  | nil => exact h
  | cons x l => exact h.1

theorem Back.congr (h : Back prev p l) (heq : ∀ x ∈ l, prev' x = prev x) : Back prev' p l := by
  induction l generalizing p with
  | nil => trivial
  | cons x l ih =>
    refine ⟨?_, ih h.2 fun y hy => heq y (List.mem_cons_of_mem _ hy)⟩
    rw [heq x (List.mem_cons_self ..)]
    exact h.1

/-- The last backward link leads to the node in front of it. -/
theorem back_snoc : Back prev p (l ++ [x]) ↔ Back prev p l ∧ prev x = l.getLast?.or p := by
  induction l generalizing p with
  | nil => simp [Back]
  | cons y l ih =>
    have hlast : l.getLast?.or (some y) = (y :: l).getLast?.or p := by
      cases l with
      | nil => rfl
      | cons z l => rw [List.getLast?_cons_cons, List.getLast?_eq_some_getLast (List.cons_ne_nil z l)]; rfl
    simp only [List.cons_append, Back, ih, and_assoc, hlast]

/-- The list without nodes. -/
theorem linked_nil (h : Links ν) : Linked h ⟨none, none, 0⟩ [] := ⟨.nil, rfl, trivial, rfl, rfl⟩

/-- A list is shorter than the range of its count. -/
theorem Linked.length_lt {h : Links ν} {d : ListEnds ν} (hl : Linked h d l) : l.length < 2 ^ 64 := by
  rw [← hl.size]
  exact d.size.toNat_lt

end BayTrail.Lib
