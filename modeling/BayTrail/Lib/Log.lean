import BayTrail.Lib.Bytes

/-!
# Record logs

A log is a list of records laid out one after the other in a byte memory.
`layout` is its byte image and `place p` pairs each record with its address.
The lemmas say what a walk over such an area needs: a placed record stands at
its address, addresses are separated by the sizes, a record may be replaced by
one of the same size, and records may be added at the end.
-/

namespace BayTrail.Lib

variable {α : Type} (enc : α → Bytes)

/-- The byte image of a log. -/
def layout (xs : List α) : Bytes := xs.flatMap enc

/-- The records of a log that starts at `p`, with their addresses. -/
def place : Nat → List α → List (Nat × α)
  | _, [] => []
  | p, x :: xs => (p, x) :: place (p + (enc x).length) xs

variable {enc}

@[simp] theorem layout_nil : layout enc [] = [] := rfl

@[simp] theorem layout_cons (x : α) (xs : List α) :
    layout enc (x :: xs) = enc x ++ layout enc xs := by simp [layout]

@[simp] theorem layout_append (xs ys : List α) :
    layout enc (xs ++ ys) = layout enc xs ++ layout enc ys := by simp [layout]

@[simp] theorem place_nil (p : Nat) : place enc p [] = [] := rfl

@[simp] theorem place_cons (p : Nat) (x : α) (xs : List α) :
    place enc p (x :: xs) = (p, x) :: place enc (p + (enc x).length) xs := rfl

theorem place_append : ∀ (p : Nat) (xs ys : List α),
    place enc p (xs ++ ys) = place enc p xs ++ place enc (p + (layout enc xs).length) ys
  | p, [], ys => by simp
  | p, x :: xs, ys => by
    simp only [List.cons_append, place_cons, layout_cons, List.length_append,
      place_append (p + (enc x).length) xs ys]
    rw [Nat.add_assoc]

/-- A record with its address splits the log. -/
theorem place_split : ∀ {p : Nat} {xs : List α} {q : Nat} {x : α}, (q, x) ∈ place enc p xs →
    ∃ pre post, xs = pre ++ x :: post ∧ q = p + (layout enc pre).length
  | p, y :: ys, q, x, h => by
    rcases List.mem_cons.mp h with heq | hin
    · obtain ⟨rfl, rfl⟩ := Prod.mk.inj heq
      exact ⟨[], ys, rfl, by simp⟩
    · obtain ⟨pre, post, rfl, rfl⟩ := place_split hin
      exact ⟨y :: pre, post, rfl, by simp [Nat.add_assoc]⟩

theorem mem_place_mid (p : Nat) (pre : List α) (x : α) (post : List α) :
    (p + (layout enc pre).length, x) ∈ place enc p (pre ++ x :: post) := by
  rw [place_append]
  exact List.mem_append_right _ (List.mem_cons_self ..)

theorem mem_of_mem_place : ∀ {p : Nat} {xs : List α} {q : Nat} {x : α},
    (q, x) ∈ place enc p xs → x ∈ xs
  | p, xs, q, x, h => by
    obtain ⟨pre, post, rfl, -⟩ := place_split h
    simp

variable {p q : Nat} {m : Mem}

/-- A placed record lies inside the log. -/
theorem place_bounds {xs : List α} {x : α} (h : (q, x) ∈ place enc p xs) :
    p ≤ q ∧ q + (enc x).length ≤ p + (layout enc xs).length := by
  obtain ⟨pre, post, rfl, rfl⟩ := place_split h
  simp only [layout_append, layout_cons, List.length_append]
  omega

theorem holds_of_mem_place {xs : List α} {x : α}
    (hm : Holds m p (layout enc xs)) (h : (q, x) ∈ place enc p xs) : Holds m q (enc x) := by
  obtain ⟨pre, post, rfl, rfl⟩ := place_split h
  rw [layout_append, layout_cons, holds_append, holds_append] at hm
  exact hm.2.1

/-- A record ends before any record with a higher address. -/
theorem place_sep {xs : List α} {r : Nat} {x y : α} (hx : (q, x) ∈ place enc p xs)
    (hy : (r, y) ∈ place enc p xs) (hlt : q < r) : q + (enc x).length ≤ r := by
  obtain ⟨pre, post, rfl, rfl⟩ := place_split hx
  rw [place_append, List.mem_append] at hy
  rcases hy with hy | hy
  · have := (place_bounds hy).2
    omega
  · rw [place_cons] at hy
    rcases List.mem_cons.mp hy with heq | hin
    · have := (Prod.mk.inj heq).1
      omega
    · exact (place_bounds hin).1

/-- No two records of non-empty image share an address. -/
theorem place_unique {xs : List α} (hpos : ∀ x ∈ xs, 0 < (enc x).length) {x y : α} (hx : (q, x) ∈ place enc p xs) (hy : (q, y) ∈ place enc p xs) :
    x = y := by
  obtain ⟨pre, post, rfl, rfl⟩ := place_split hx
  rw [place_append, List.mem_append] at hy
  have hxpos := hpos x (by simp)
  rcases hy with hy | hy
  · have hypos := hpos y (List.mem_append_left _ (mem_of_mem_place hy))
    have := (place_bounds hy).2
    omega
  · rw [place_cons] at hy
    rcases List.mem_cons.mp hy with heq | hin
    · exact (Prod.mk.inj heq).2.symm
    · have := (place_bounds hin).1
      omega

/-- Replacing a record by one of the same size keeps all the others. -/
theorem holds_layout_replace {m' : Mem} {pre post : List α} {x x' : α}
    (hm : Holds m p (layout enc (pre ++ x :: post))) (hlen : (enc x').length = (enc x).length)
    (hx : Holds m' (p + (layout enc pre).length) (enc x'))
    (hout : ∀ a, a < p + (layout enc pre).length ∨
      p + (layout enc pre).length + (enc x).length ≤ a →
      a < p + (layout enc (pre ++ x :: post)).length → m' a = m a) :
    Holds m' p (layout enc (pre ++ x' :: post)) := by
  rw [layout_append, layout_cons] at hm hout ⊢
  simp only [List.length_append] at hout
  rw [holds_append, holds_append] at hm ⊢
  obtain ⟨h1, h2, h3⟩ := hm
  refine ⟨h1.congr fun a ha hb => hout a (Or.inl hb) (by omega), hx, ?_⟩
  rw [hlen]
  exact h3.congr fun a ha hb => hout a (Or.inr ha) (by omega)

theorem layout_length_replace {pre post : List α} {x x' : α}
    (hlen : (enc x').length = (enc x).length) :
    (layout enc (pre ++ x' :: post)).length = (layout enc (pre ++ x :: post)).length := by
  simp [hlen]

/-- Replacing a record changes the log at its address only. -/
theorem mem_place_replace {pre post : List α} {x x' : α}
    (hpos : ∀ y ∈ pre, 0 < (enc y).length) (hx : 0 < (enc x).length)
    (hlen : (enc x').length = (enc x).length) {y : α} :
    (q, y) ∈ place enc p (pre ++ x' :: post) ↔
      (q = p + (layout enc pre).length ∧ y = x') ∨
      (q ≠ p + (layout enc pre).length ∧ (q, y) ∈ place enc p (pre ++ x :: post)) := by
  rw [place_append, place_append, place_cons, place_cons, hlen]
  simp only [List.mem_append, List.mem_cons, Prod.mk.injEq]
  constructor
  · rintro (h | ⟨rfl, rfl⟩ | h)
    · have h1 := hpos y (mem_of_mem_place h)
      have h2 := (place_bounds h).2
      exact Or.inr ⟨by omega, Or.inl h⟩
    · exact Or.inl ⟨rfl, rfl⟩
    · have := (place_bounds h).1
      exact Or.inr ⟨by omega, Or.inr (Or.inr h)⟩
  · rintro (⟨rfl, rfl⟩ | ⟨hne, h | ⟨rfl, -⟩ | h⟩)
    · exact Or.inr (Or.inl ⟨rfl, rfl⟩)
    · exact Or.inl h
    · exact absurd rfl hne
    · exact Or.inr (Or.inr h)

theorem length_le_layout (enc : α → Bytes) (xs : List α) (hpos : ∀ x ∈ xs, 0 < (enc x).length) :
    xs.length ≤ (layout enc xs).length := by
  induction xs with
  | nil => simp
  | cons x xs ih =>
    have h1 := hpos x (by simp)
    have h2 := ih fun y hy => hpos y (List.mem_cons_of_mem _ hy)
    simp only [layout_cons, List.length_append, List.length_cons]
    omega

/-! ## Room -/

/-- The records of a log that end by `e` fit between its start and `e`. -/
theorem sum_filter_le (enc : α → Bytes) : ∀ {p e : Nat} (xs : List α), p ≤ e →
    p + (((place enc p xs).filter fun x => x.1 + (enc x.2).length ≤ e).map
      fun x => (enc x.2).length).sum ≤ e
  | p, e, [], hp => by simpa using hp
  | p, e, x :: xs, hp => by
    rw [place_cons]
    by_cases hx : p + (enc x).length ≤ e
    · have ih := sum_filter_le enc xs hx
      rw [List.filter_cons_of_pos (by simpa using hx), List.map_cons, List.sum_cons, ← Nat.add_assoc]
      exact ih
    · -- whatever follows ends behind `e`, too
      have hnil : ((place enc (p + (enc x).length) xs).filter
          fun x => decide (x.1 + (enc x.2).length ≤ e)) = [] := by
        refine List.filter_eq_nil_iff.mpr fun y hy => ?_
        have := (place_bounds hy).1
        simp only [decide_eq_true_eq]
        omega
      rw [List.filter_cons_of_neg (by simpa using hx), hnil]
      simpa using hp

/-- So do any distinct ones among them. -/
theorem sum_le_of_nodup {e : Nat} {xs : List α} {Q : List (Nat × α)} (hp : p ≤ e)
    (hQ : Q.Nodup) (hsub : ∀ x ∈ Q, x ∈ place enc p xs ∧ x.1 + (enc x.2).length ≤ e) :
    p + (Q.map fun x => (enc x.2).length).sum ≤ e := by
  have hsubset : Q ⊆ (place enc p xs).filter fun x => decide (x.1 + (enc x.2).length ≤ e) :=
    fun x hx => List.mem_filter.mpr ⟨(hsub x hx).1, decide_eq_true (hsub x hx).2⟩
  obtain ⟨l, hperm, hsl⟩ := hQ.subperm hsubset
  have h1 : (Q.map fun x => (enc x.2).length).sum ≤ (((place enc p xs).filter
      fun x => decide (x.1 + (enc x.2).length ≤ e)).map fun x => (enc x.2).length).sum := by
    rw [← (hperm.map _).sum_nat]
    exact (hsl.map _).sum_le_sum fun _ _ => Nat.zero_le _
  have h2 := sum_filter_le enc xs hp
  omega

/-- One of finitely many records ends last. -/
theorem exists_last (enc : α → Bytes) : ∀ {Q : List (Nat × α)}, Q ≠ [] →
    ∃ x ∈ Q, ∀ y ∈ Q, y.1 + (enc y.2).length ≤ x.1 + (enc x.2).length
  | [], h => absurd rfl h
  | [x], _ => ⟨x, by simp, by simp⟩
  | x :: y :: Q, _ => by
    obtain ⟨z, hz, hmax⟩ := exists_last enc (Q := y :: Q) (by simp)
    by_cases hx : z.1 + (enc z.2).length ≤ x.1 + (enc x.2).length
    · refine ⟨x, by simp, fun w hw => ?_⟩
      rcases List.mem_cons.mp hw with rfl | hw
      · exact le_rfl
      · exact (hmax w hw).trans hx
    · refine ⟨z, List.mem_cons_of_mem _ hz, fun w hw => ?_⟩
      rcases List.mem_cons.mp hw with rfl | hw
      · omega
      · exact hmax w hw

/-- As many bytes as there are below `n` at most are distinct and below `n`. -/
theorem length_le_of_nodup {n : Nat} {I : List UInt8} (hI : I.Nodup)
    (h : ∀ i ∈ I, i.toNat < n) : I.length ≤ n := by
  have hnd : (I.map UInt8.toNat).Nodup := hI.map fun _ _ he => UInt8.toNat_inj.mp he
  have hsub : I.map UInt8.toNat ⊆ List.range n := by
    intro x hx
    obtain ⟨i, hi, rfl⟩ := List.mem_map.mp hx
    exact List.mem_range.mpr (h i hi)
  have := (hnd.subperm hsub).length_le
  simpa using this

/-- The first element of a kind divides a list in one way. -/
theorem split_first {P : α → Prop} : ∀ {as bs as' bs' : List α} {x x' : α},
    as ++ x :: bs = as' ++ x' :: bs' → P x → P x' → (∀ a ∈ as, ¬ P a) → (∀ a ∈ as', ¬ P a) →
    as = as' ∧ x = x' ∧ bs = bs'
  | [], _, [], _, _, _, he, _, _, _, _ => by
    obtain ⟨h1, h2⟩ := List.cons.inj he
    exact ⟨rfl, h1, h2⟩
  | [], _, a :: as', _, _, _, he, hx, _, _, h2 => by
    obtain ⟨rfl, -⟩ := List.cons.inj he
    exact absurd hx (h2 _ (List.mem_cons_self ..))
  | a :: as, _, [], _, _, _, he, _, hx', h1, _ => by
    obtain ⟨rfl, -⟩ := List.cons.inj he
    exact absurd hx' (h1 _ (List.mem_cons_self ..))
  | a :: as, _, a' :: as', _, _, _, he, hx, hx', h1, h2 => by
    obtain ⟨rfl, ht⟩ := List.cons.inj he
    obtain ⟨rfl, he'⟩ := split_first ht hx hx' (fun b hb => h1 b (List.mem_cons_of_mem _ hb))
      fun b hb => h2 b (List.mem_cons_of_mem _ hb)
    exact ⟨rfl, he'⟩

end BayTrail.Lib
