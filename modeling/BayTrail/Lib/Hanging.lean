import Mathlib.Data.List.Nodup
import Mathlib.Data.List.Range
import Mathlib.Data.List.Perm.Subperm

/-!
# Items that hang on others

Each item hangs on one other at most, and is to be listed right before or right after it, together with
what hangs on it in turn. The listing goes down with fuel. As long as an item does not hang on itself in
the end, nothing is listed twice and there are no more levels than items.
-/

namespace BayTrail.Lib.Hanging

/-- So many items are above this one. -/
inductive Depth {ι : Type} (parent : ι → Option ι) : ι → Nat → Prop where
  | root {i : ι} (h : parent i = none) : Depth parent i 0
  | hangs {x y : ι} {n : Nat} (h : parent y = some x) (hx : Depth parent x n) : Depth parent y (n + 1)

/-- The item is that one or hangs on it in the end. -/
inductive Under {ι : Type} (parent : ι → Option ι) (x : ι) : ι → Prop where
  | refl : Under parent x x
  | hangs {y z : ι} (h : parent z = some y) (hy : Under parent x y) : Under parent x z

variable {ι : Type} {parent : ι → Option ι} {a b i x y z : ι} {k m n : Nat}

theorem Depth.unique (h : Depth parent i n) (h' : Depth parent i m) : n = m := by
  induction h generalizing m with
  | root h =>
    cases h' with
    | root => rfl
    | hangs h₁ => exact absurd (h.symm.trans h₁) (Option.some_ne_none _).symm
  | hangs h _ ih =>
    cases h' with
    | root h₁ => exact absurd (h₁.symm.trans h) (Option.some_ne_none _).symm
    | hangs h₁ hx₁ =>
      obtain rfl := Option.some.inj (h₁.symm.trans h)
      exact congrArg (· + 1) (ih hx₁)

theorem Under.trans (h : Under parent x y) (h' : Under parent y z) : Under parent x z := by
  induction h' with
  | refl => exact h
  | hangs hp _ ih => exact Under.hangs hp ih

theorem Under.depth_le (h : Under parent x y) (hx : Depth parent x n) (hy : Depth parent y m) : n ≤ m := by
  induction h generalizing m with
  | refl => exact Nat.le_of_eq (hx.unique hy)
  | hangs hp _ ih =>
    cases hy with
    | root h => exact absurd (h.symm.trans hp) (Option.some_ne_none _).symm
    | hangs h₁ hx₁ =>
      obtain rfl := Option.some.inj (h₁.symm.trans hp)
      exact Nat.le_succ_of_le (ih hx₁)

/-- The items above an item are one on each level. -/
theorem Under.unique (h : Under parent a z) (h' : Under parent b z) (ha : Depth parent a n) (hb : Depth parent b n) : a = b := by
  induction h with
  | refl =>
    cases h' with
    | refl => rfl
    | hangs hp hy =>
      cases ha with
      | root h => exact absurd (h.symm.trans hp) (Option.some_ne_none _).symm
      | hangs h₁ hx₁ =>
        obtain rfl := Option.some.inj (h₁.symm.trans hp)
        exact absurd (hy.depth_le hb hx₁) (Nat.not_succ_le_self _)
  | hangs hp hy ih =>
    cases h' with
    | refl =>
      cases hb with
      | root h => exact absurd (h.symm.trans hp) (Option.some_ne_none _).symm
      | hangs h₁ hx₁ =>
        obtain rfl := Option.some.inj (h₁.symm.trans hp)
        exact absurd (hy.depth_le ha hx₁) (Nat.not_succ_le_self _)
    | hangs hp' hy' =>
      obtain rfl := Option.some.inj (hp'.symm.trans hp)
      exact ih hy'

/-- Items that are no more than `N` are on fewer levels. -/
theorem Depth.lt {parent : Nat → Option Nat} {N : Nat} {i : Nat} (hparent : ∀ x y, parent y = some x → x < N)
    (hi : i < N) (h : Depth parent i n) : n < N := by
  have hlist : ∃ l : List Nat, l.length = n + 1 ∧ l.Nodup ∧ ∀ x ∈ l, x < N ∧ ∃ k ≤ n, Depth parent x k := by
    induction h with
    | root h => exact ⟨[_], rfl, List.nodup_singleton _, fun x hx => List.mem_singleton.mp hx ▸ ⟨hi, 0, Nat.le_refl _, .root h⟩⟩
    | @hangs x y n hp hx ih =>
      obtain ⟨l, hlen, hnodup, hl⟩ := ih (hparent _ _ hp)
      refine ⟨y :: l, congrArg (· + 1) hlen, List.nodup_cons.mpr ⟨fun hmem => ?_, hnodup⟩, fun x hx' => ?_⟩
      · -- what is above is on other levels
        obtain ⟨-, k, hk, hd⟩ := hl _ hmem
        have := hd.unique (Depth.hangs hp hx)
        omega
      · rcases List.mem_cons.mp hx' with rfl | hx'
        · exact ⟨hi, _, Nat.le_refl _, .hangs hp hx⟩
        · obtain ⟨hlt, k, hk, hd⟩ := hl x hx'
          exact ⟨hlt, k, Nat.le_succ_of_le hk, hd⟩
  obtain ⟨l, hlen, hnodup, hl⟩ := hlist
  have hsub : l ⊆ List.range N := fun x hx => List.mem_range.mpr (hl x hx).1
  have hle := (hnodup.subperm hsub).length_le
  rw [List.length_range, hlen] at hle
  exact hle

/-! ## The listing -/

/-- An item between what hangs before it and what hangs after it. -/
def walk (left right : ι → List ι) : Nat → ι → List ι
  | 0, _ => []
  | fuel + 1, i => (left i).flatMap (walk left right fuel) ++ i :: (right i).flatMap (walk left right fuel)

/-- Items hang before or after the one they hang on, never both, and once. -/
structure Sides (parent : ι → Option ι) (left right : ι → List ι) : Prop where
  left_parent : ∀ {x y}, y ∈ left x → parent y = some x
  right_parent : ∀ {x y}, y ∈ right x → parent y = some x
  left_nodup : ∀ x, (left x).Nodup
  right_nodup : ∀ x, (right x).Nodup
  apart : ∀ {x y}, y ∈ left x → y ∉ right x

variable {left right left' right' : ι → List ι} {fuel N : Nat}

theorem sublist_flatMap {l : List ι} {f : ι → List ι} (h : x ∈ l) : (f x).Sublist (l.flatMap f) :=
  List.sublist_flatten_of_mem (List.mem_map_of_mem h)

theorem mem_walk : y ∈ walk left right (fuel + 1) i ↔
    (∃ x ∈ left i, y ∈ walk left right fuel x) ∨ y = i ∨ ∃ x ∈ right i, y ∈ walk left right fuel x := by
  rw [walk, List.mem_append, List.mem_cons, List.mem_flatMap, List.mem_flatMap]

theorem under_of_mem (hsides : Sides parent left right) : ∀ {fuel : Nat} {i : ι}, y ∈ walk left right fuel i → Under parent i y
  | 0, _, h => absurd h List.not_mem_nil
  | fuel + 1, i, h => by
    have hchild : ∀ {x}, parent x = some i → y ∈ walk left right fuel x → Under parent i y := fun hp hy =>
      (Under.hangs hp .refl).trans (under_of_mem hsides hy)
    rcases mem_walk.mp h with ⟨x, hx, hy⟩ | rfl | ⟨x, hx, hy⟩
    · exact hchild (hsides.left_parent hx) hy
    · exact .refl
    · exact hchild (hsides.right_parent hx) hy

/-- What is listed with an item hangs on it, or on something that does in turn. -/
theorem reaches_of_mem : ∀ {fuel : Nat} {i : ι}, y ∈ walk left right fuel i →
    Relation.ReflTransGen (fun x y => y ∈ left x ∨ y ∈ right x) i y
  | 0, _, h => absurd h List.not_mem_nil
  | fuel + 1, i, h => by
    rcases mem_walk.mp h with ⟨z, hz, hy⟩ | rfl | ⟨z, hz, hy⟩
    · exact .head (Or.inl hz) (reaches_of_mem hy)
    · exact .refl
    · exact .head (Or.inr hz) (reaches_of_mem hy)

/-- Other sides below an item are all that makes another listing. -/
theorem walk_congr (hsides : Sides parent left right) : ∀ {fuel : Nat} {i : ι},
    (∀ x, Under parent i x → left' x = left x ∧ right' x = right x) → walk left' right' fuel i = walk left right fuel i
  | 0, _, _ => rfl
  | fuel + 1, i, h => by
    obtain ⟨hleft, hright⟩ := h i .refl
    rw [walk, walk, hleft, hright]
    have hchild : ∀ x, parent x = some i → walk left' right' fuel x = walk left right fuel x := fun x hp =>
      walk_congr hsides fun z hz => h z ((Under.hangs hp .refl).trans hz)
    rw [List.flatMap_congr fun x hx => hchild x (hsides.left_parent hx),
      List.flatMap_congr fun x hx => hchild x (hsides.right_parent hx)]

section Deep

variable (hsides : Sides parent left right) (hN : ∀ x m, Depth parent x m → m < N)
include hsides

/-- Two items that hang on the same one have nothing below them in common. -/
theorem walk_disjoint (ha : parent a = some i) (hb : parent b = some i) (hi : Depth parent i k) (hab : a ≠ b) :
    (walk left right fuel a).Disjoint (walk left right m b) := fun _ hza hzb =>
  hab ((under_of_mem hsides hza).unique (under_of_mem hsides hzb) (.hangs ha hi) (.hangs hb hi))

/-- Nothing is below what hangs on it. -/
theorem not_mem_walk_child (ha : parent a = some i) (hi : Depth parent i k) : i ∉ walk left right fuel a := fun h =>
  absurd ((under_of_mem hsides h).depth_le (.hangs ha hi) hi) (Nat.not_succ_le_self _)

theorem nodup_children (fuel : Nat) (children : List ι) (hi : Depth parent i k) (hchildren : ∀ x ∈ children, parent x = some i)
    (hnodup : children.Nodup) (hwalk : ∀ x ∈ children, (walk left right fuel x).Nodup) :
    (children.flatMap (walk left right fuel)).Nodup := by
  refine List.nodup_flatMap.mpr ⟨hwalk, ?_⟩
  refine List.Pairwise.imp_of_mem (fun {a b} ha hb hne => ?_) hnodup
  exact walk_disjoint hsides (hchildren a ha) (hchildren b hb) hi hne

/-- Nothing is listed twice. -/
theorem nodup_walk : ∀ {fuel : Nat} {i : ι} {k : Nat}, Depth parent i k → (walk left right fuel i).Nodup
  | 0, _, _, _ => List.nodup_nil
  | fuel + 1, i, k, hi => by
    have hleft := nodup_children hsides fuel (left i) hi (fun x hx => hsides.left_parent hx) (hsides.left_nodup i)
      (fun x hx => nodup_walk (.hangs (hsides.left_parent hx) hi))
    have hright := nodup_children hsides fuel (right i) hi (fun x hx => hsides.right_parent hx) (hsides.right_nodup i)
      (fun x hx => nodup_walk (.hangs (hsides.right_parent hx) hi))
    rw [walk, List.nodup_append, List.nodup_cons]
    refine ⟨hleft, ⟨fun h => ?_, hright⟩, fun y hmem z hz heq => ?_⟩
    · obtain ⟨x, hx, h⟩ := List.mem_flatMap.mp h
      exact not_mem_walk_child hsides (hsides.right_parent hx) hi h
    · obtain ⟨x, hx, hy⟩ := List.mem_flatMap.mp hmem
      subst heq
      rcases List.mem_cons.mp hz with rfl | hz
      · exact not_mem_walk_child hsides (hsides.left_parent hx) hi hy
      · obtain ⟨x', hx', hz⟩ := List.mem_flatMap.mp hz
        refine walk_disjoint hsides (hsides.left_parent hx) (hsides.right_parent hx') hi (fun h => ?_) hy hz
        exact hsides.apart hx (h ▸ hx')

omit hsides in
include hN in
theorem mem_walk_self (hi : Depth parent i k) (hfuel : N ≤ fuel + k) : i ∈ walk left right fuel i := by
  obtain ⟨fuel, rfl⟩ : ∃ n, fuel = n + 1 := ⟨fuel - 1, by have := hN i k hi; omega⟩
  exact mem_walk.mpr (Or.inr (Or.inl rfl))

/-- What is listed with an item is listed wherever the item is. -/
theorem sublist_walk {s : List ι} (hself : ∀ {fuel k}, Depth parent x k → N ≤ fuel + 1 + k →
    s.Sublist (walk left right (fuel + 1) x)) : ∀ {fuel : Nat} {i : ι} {k : Nat}, Depth parent i k →
    N ≤ fuel + k → x ∈ walk left right fuel i → s.Sublist (walk left right fuel i)
  | 0, _, _, _, _, h => absurd h List.not_mem_nil
  | fuel + 1, i, k, hi, hfuel, h => by
    rcases mem_walk.mp h with ⟨z, hz, hx⟩ | rfl | ⟨z, hz, hx⟩
    · have hsub := sublist_walk hself (.hangs (hsides.left_parent hz) hi) (by omega) hx
      exact (hsub.trans (sublist_flatMap hz)).trans (List.sublist_append_left _ _)
    · exact hself hi hfuel
    · have hsub := sublist_walk hself (.hangs (hsides.right_parent hz) hi) (by omega) hx
      exact ((hsub.trans (sublist_flatMap hz)).trans (List.sublist_cons_self _ _)).trans (List.sublist_append_right _ _)

include hN

/-- What hangs before an item is listed before it. -/
theorem left_before (hi : Depth parent i k) (hfuel : N ≤ fuel + k) (h : x ∈ walk left right fuel i) (hy : y ∈ left x) :
    [y, x].Sublist (walk left right fuel i) := by
  refine sublist_walk hsides (fun {fuel k} hx hle => ?_) hi hfuel h
  have hmem : y ∈ (left x).flatMap (walk left right fuel) :=
    List.mem_flatMap.mpr ⟨y, hy, mem_walk_self hN (.hangs (hsides.left_parent hy) hx) (by omega)⟩
  exact List.Sublist.append (List.singleton_sublist.mpr hmem) (List.singleton_sublist.mpr List.mem_cons_self)

/-- What hangs after an item is listed after it. -/
theorem right_after (hi : Depth parent i k) (hfuel : N ≤ fuel + k) (h : x ∈ walk left right fuel i) (hy : y ∈ right x) :
    [x, y].Sublist (walk left right fuel i) := by
  refine sublist_walk hsides (fun {fuel k} hx hle => ?_) hi hfuel h
  have hmem : y ∈ (right x).flatMap (walk left right fuel) :=
    List.mem_flatMap.mpr ⟨y, hy, mem_walk_self hN (.hangs (hsides.right_parent hy) hx) (by omega)⟩
  exact ((List.singleton_sublist.mpr hmem).cons_cons _).trans (List.sublist_append_right _ _)

end Deep

end BayTrail.Lib.Hanging
