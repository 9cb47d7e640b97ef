import BayTrail.Lib.Loop

/-!
# Computations with fuel

A computation is run with fuel. It has no outcome without enough of it, and one and the same with all
that is enough: it returns a value, or it fails. Loops may contain others, and are reasoned about by
their outcomes only.
-/

namespace BayTrail.Lib

/-- What is computed with so much fuel: nothing yet, a failure, or a value. More fuel changes an outcome
no more. -/
structure Run (α : Type) where
  eval : Nat → Option (Option α)
  mono : ∀ {fuel fuel' : Nat} {o : Option α}, fuel ≤ fuel' → eval fuel = some o → eval fuel' = some o

namespace Run

variable {α β σ ρ : Type}

/-! ## Building computations -/

/-- A value, or a failure, without any fuel. -/
def ofOption (o : Option α) : Run α := ⟨fun _ => some o, fun _ h => h⟩

/-- What follows an outcome. -/
def andThen (o : Option (Option α)) (f : α → Option (Option β)) : Option (Option β) :=
  match o with
  | none => none
  | some none => some none
  | some (some a) => f a

theorem andThen_some {o : Option (Option α)} {f : α → Option (Option β)} {b : Option β} :
    andThen o f = some b ↔ (o = some none ∧ b = none) ∨ ∃ a, o = some (some a) ∧ f a = some b := by
  match o with
  | none => simp [andThen]
  | some none => simp [andThen, eq_comm]
  | some (some a) => simp [andThen]

variable {fuel fuel' : Nat}

theorem bind_mono (x : Run α) (f : α → Run β) {o : Option β} (hle : fuel ≤ fuel')
    (h : andThen (x.eval fuel) (fun a => (f a).eval fuel) = some o) :
    andThen (x.eval fuel') (fun a => (f a).eval fuel') = some o := by
  rw [andThen_some] at h ⊢
  rcases h with ⟨hx, ho⟩ | ⟨a, hx, hf⟩
  · exact Or.inl ⟨x.mono hle hx, ho⟩
  · exact Or.inr ⟨a, x.mono hle hx, (f a).mono hle hf⟩

instance : Monad Run where
  pure a := ofOption (some a)
  bind x f := ⟨fun fuel => andThen (x.eval fuel) fun a => (f a).eval fuel, bind_mono x f⟩

/-- So many rounds of a loop. -/
def rounds (body : σ → Run (Next σ ρ)) (fuel : Nat) : Nat → σ → Option (Option ρ)
  | 0, _ => none
  | n + 1, s =>
    andThen ((body s).eval fuel) fun
      | .again s' => rounds body fuel n s'
      | .done r => some (some r)

theorem rounds_succ {body : σ → Run (Next σ ρ)} {n : Nat} {s : σ} {o : Option ρ} :
    rounds body fuel (n + 1) s = some o ↔
      ((body s).eval fuel = some none ∧ o = none)
      ∨ (∃ s', (body s).eval fuel = some (some (.again s')) ∧ rounds body fuel n s' = some o)
      ∨ ∃ r, (body s).eval fuel = some (some (.done r)) ∧ o = some r := by
  rw [rounds, andThen_some]
  refine or_congr_right ⟨fun ⟨next, hbody, h⟩ => ?_, fun h => ?_⟩
  · cases next with
    | again s' => exact Or.inl ⟨s', hbody, h⟩
    | done r => exact Or.inr ⟨r, hbody, (Option.some.inj h).symm⟩
  · rcases h with ⟨s', hbody, h⟩ | ⟨r, hbody, rfl⟩
    · exact ⟨.again s', hbody, h⟩
    · exact ⟨.done r, hbody, rfl⟩

theorem rounds_mono (body : σ → Run (Next σ ρ)) (hle : fuel ≤ fuel') :
    ∀ {n n' : Nat} {s : σ} {o : Option ρ}, n ≤ n' → rounds body fuel n s = some o → rounds body fuel' n' s = some o
  | 0, _, _, _, _, h => by cases h
  | n + 1, n', s, o, hn, h => by
    obtain ⟨n', rfl⟩ : ∃ m, n' = m + 1 := ⟨n' - 1, by omega⟩
    rw [rounds_succ] at h ⊢
    rcases h with ⟨hbody, ho⟩ | ⟨s', hbody, h⟩ | ⟨r, hbody, ho⟩
    · exact Or.inl ⟨(body s).mono hle hbody, ho⟩
    · exact Or.inr (Or.inl ⟨s', (body s).mono hle hbody, rounds_mono body hle (by omega) h⟩)
    · exact Or.inr (Or.inr ⟨r, (body s).mono hle hbody, ho⟩)

/-- A loop, the rounds of which may be loops. -/
def loop (body : σ → Run (Next σ ρ)) (s : σ) : Run ρ :=
  ⟨fun fuel => rounds body fuel fuel s, fun hle h => rounds_mono body hle hle h⟩

/-! ## Outcomes -/

/-- Some fuel is enough for this outcome. -/
def Yields (x : Run α) (o : Option α) : Prop := ∃ fuel, x.eval fuel = some o

/-- It returns. -/
abbrev Returns (x : Run α) (a : α) : Prop := x.Yields (some a)

/-- It has an outcome. -/
def Ends (x : Run α) : Prop := ∃ o, x.Yields o

variable {x : Run α} {f : α → Run β} {o o' : Option α} {a a' : α} {b : β}

theorem Yields.unique (h : x.Yields o) (h' : x.Yields o') : o = o' := by
  obtain ⟨n, h⟩ := h
  obtain ⟨n', h'⟩ := h'
  exact Option.some.inj ((x.mono (Nat.le_max_left n n') h).symm.trans (x.mono (Nat.le_max_right n n') h'))

theorem yields_ofOption : (ofOption o).Yields o' ↔ o = o' :=
  ⟨fun ⟨_, h⟩ => Option.some.inj h, fun h => ⟨0, congrArg some h⟩⟩

@[simp]
theorem returns_ofOption : (ofOption o).Returns a ↔ o = some a := yields_ofOption

@[simp]
theorem returns_pure : (pure a : Run α).Returns a' ↔ a = a' :=
  yields_ofOption.trans ⟨Option.some.inj, congrArg some⟩

theorem yields_bind {o : Option β} :
    (x >>= f).Yields o ↔ (x.Yields none ∧ o = none) ∨ ∃ a, x.Returns a ∧ (f a).Yields o := by
  constructor
  · intro ⟨fuel, h⟩
    rcases andThen_some.mp h with ⟨hx, ho⟩ | ⟨a, hx, hf⟩
    · exact Or.inl ⟨⟨fuel, hx⟩, ho⟩
    · exact Or.inr ⟨a, ⟨fuel, hx⟩, fuel, hf⟩
  · intro h
    rcases h with ⟨⟨fuel, hx⟩, ho⟩ | ⟨a, ⟨n, hx⟩, n', hf⟩
    · exact ⟨fuel, andThen_some.mpr (Or.inl ⟨hx, ho⟩)⟩
    · exact ⟨max n n', andThen_some.mpr (Or.inr ⟨a, x.mono (Nat.le_max_left n n') hx, (f a).mono (Nat.le_max_right n n') hf⟩)⟩

@[simp]
theorem returns_bind : (x >>= f).Returns b ↔ ∃ a, x.Returns a ∧ (f a).Returns b := by
  rw [Returns, yields_bind]
  exact or_iff_right fun h => nomatch h.2

theorem Returns.bind (hx : x.Returns a) (hf : (f a).Returns b) : (x >>= f).Returns b := returns_bind.mpr ⟨a, hx, hf⟩

theorem Returns.ends (h : x.Returns a) : x.Ends := ⟨_, h⟩

theorem ends_ofOption (o : Option α) : (ofOption o).Ends := ⟨o, yields_ofOption.mpr rfl⟩

theorem ends_pure (a : α) : (pure a : Run α).Ends := ends_ofOption (some a)

theorem Ends.bind (hx : x.Ends) (hf : ∀ a, x.Returns a → (f a).Ends) : (x >>= f).Ends := by
  obtain ⟨o, hx⟩ := hx
  match o, hx with
  | none, hx => exact ⟨none, yields_bind.mpr (Or.inl ⟨hx, rfl⟩)⟩
  | some a, hx =>
    obtain ⟨o, ho⟩ := hf a hx
    exact ⟨o, yields_bind.mpr (Or.inr ⟨a, hx, ho⟩)⟩

section require

variable {c : Prop} [Decidable c]

/-- Goes on only if it may. -/
def require (c : Prop) [Decidable c] : Run Unit := ofOption (if c then some () else none)

theorem returns_require {u : Unit} : (require c).Returns u ↔ c := by
  unfold require
  rw [returns_ofOption]
  split
  · rename_i h
    exact iff_of_true rfl h
  · rename_i h
    exact iff_of_false (fun hsome => nomatch hsome) h

theorem returns_require_bind {f : Unit → Run β} : (require c >>= f).Returns b ↔ c ∧ (f ()).Returns b := by
  rw [returns_bind]
  constructor
  · intro ⟨_, hc, hf⟩
    exact ⟨returns_require.mp hc, hf⟩
  · intro ⟨hc, hf⟩
    exact ⟨(), returns_require.mpr hc, hf⟩

end require

section loop

variable {body : σ → Run (Next σ ρ)} {s s' : σ} {r : ρ}

theorem yields_loop {o : Option ρ} : (loop body s).Yields o ↔
    ((body s).Yields none ∧ o = none) ∨ (∃ s', (body s).Returns (.again s') ∧ (loop body s').Yields o)
    ∨ ∃ r, (body s).Returns (.done r) ∧ o = some r := by
  constructor
  · intro ⟨fuel, h⟩
    have h : rounds body fuel fuel s = some o := h
    obtain ⟨n, rfl⟩ : ∃ n, fuel = n + 1 := by
      cases fuel with
      | zero => cases h
      | succ n => exact ⟨n, rfl⟩
    rcases rounds_succ.mp h with ⟨hbody, ho⟩ | ⟨s', hbody, h⟩ | ⟨r, hbody, ho⟩
    · exact Or.inl ⟨⟨_, hbody⟩, ho⟩
    · exact Or.inr (Or.inl ⟨s', ⟨_, hbody⟩, n + 1, rounds_mono body (Nat.le_refl _) (Nat.le_succ n) h⟩)
    · exact Or.inr (Or.inr ⟨r, ⟨_, hbody⟩, ho⟩)
  · intro h
    rcases h with ⟨⟨n, hbody⟩, ho⟩ | ⟨s', ⟨n, hbody⟩, n', h⟩ | ⟨r, ⟨n, hbody⟩, ho⟩
    · exact ⟨n + 1, rounds_succ.mpr (Or.inl ⟨(body s).mono (Nat.le_succ n) hbody, ho⟩)⟩
    · have h : rounds body n' n' s' = some o := h
      refine ⟨max n n' + 1, rounds_succ.mpr (Or.inr (Or.inl ⟨s', (body s).mono (by omega) hbody, ?_⟩))⟩
      exact rounds_mono body (by omega) (by omega) h
    · exact ⟨n + 1, rounds_succ.mpr (Or.inr (Or.inr ⟨r, (body s).mono (Nat.le_succ n) hbody, ho⟩))⟩

theorem returns_loop : (loop body s).Returns r ↔
    (∃ s', (body s).Returns (.again s') ∧ (loop body s').Returns r) ∨ (body s).Returns (.done r) := by
  rw [Returns, yields_loop]
  constructor
  · intro h
    rcases h with ⟨-, h⟩ | h | ⟨r', hbody, h⟩
    · cases h
    · exact Or.inl h
    · cases h
      exact Or.inr hbody
  · intro h
    rcases h with h | h
    · exact Or.inr (Or.inl h)
    · exact Or.inr (Or.inr ⟨r, h, rfl⟩)

theorem loop_done (h : (body s).Returns (.done r)) : (loop body s).Returns r := returns_loop.mpr (Or.inr h)

theorem loop_again (h : (body s).Returns (.again s')) (h' : (loop body s').Returns r) : (loop body s).Returns r :=
  returns_loop.mpr (Or.inl ⟨s', h, h'⟩)

theorem ends_loop (hbody : (body s).Ends) (hagain : ∀ s', (body s).Returns (.again s') → (loop body s').Ends) :
    (loop body s).Ends := by
  obtain ⟨o, hbody⟩ := hbody
  match o, hbody with
  | none, hbody => exact ⟨none, yields_loop.mpr (Or.inl ⟨hbody, rfl⟩)⟩
  | some (.done r), hbody => exact ⟨some r, yields_loop.mpr (Or.inr (Or.inr ⟨r, hbody, rfl⟩))⟩
  | some (.again s'), hbody =>
    obtain ⟨o, ho⟩ := hagain s' hbody
    exact ⟨o, yields_loop.mpr (Or.inr (Or.inl ⟨s', hbody, ho⟩))⟩

theorem Ends.again (h : (loop body s).Ends) (hbody : (body s).Returns (.again s')) : (loop body s').Ends := by
  obtain ⟨o, ho⟩ := h
  rcases yields_loop.mp ho with ⟨hnone, -⟩ | ⟨s'', hagain, ho⟩ | ⟨r, hdone, -⟩
  · cases hnone.unique hbody
  · cases hagain.unique hbody
    exact ⟨o, ho⟩
  · cases hdone.unique hbody

/-- A loop that returns: what holds of its last state and the value holds of all states in front. -/
theorem loop_induction {P : σ → ρ → Prop} (hdone : ∀ s r, (body s).Returns (.done r) → P s r)
    (hagain : ∀ s s' r, (body s).Returns (.again s') → P s' r → P s r) (h : (loop body s).Returns r) : P s r := by
  obtain ⟨fuel, h⟩ := h
  have hrounds : ∀ n s, rounds body fuel n s = some (some r) → P s r := by
    intro n
    induction n with
    | zero =>
      intro s h
      cases h
    | succ n ih =>
      intro s h
      rcases rounds_succ.mp h with ⟨-, ho⟩ | ⟨s', hbody, h⟩ | ⟨r', hbody, ho⟩
      · cases ho
      · exact hagain s s' r ⟨fuel, hbody⟩ (ih s' h)
      · cases ho
        exact hdone s r ⟨fuel, hbody⟩
  exact hrounds fuel s h

/-- A loop returns if each round ends it or brings it closer to its end; what all rounds keep leads to what
holds of the value. -/
theorem loop_measure {P : σ → Prop} {Q : ρ → Prop} (m : σ → Nat)
    (hbody : ∀ s, P s → (∃ r, (body s).Returns (.done r) ∧ Q r) ∨ ∃ s', (body s).Returns (.again s') ∧ P s' ∧ m s' < m s)
    (hs : P s) : ∃ r, (loop body s).Returns r ∧ Q r := by
  induction hn : m s using Nat.strong_induction_on generalizing s with
  | _ n ih =>
    rcases hbody s hs with ⟨r, hdone, hr⟩ | ⟨s', hagain, hs', hlt⟩
    · exact ⟨r, loop_done hdone, hr⟩
    · obtain ⟨r, hloop, hr⟩ := ih (m s') (hn ▸ hlt) hs' rfl
      exact ⟨r, loop_again hagain hloop, hr⟩

/-- A loop with states that are known beforehand. -/
theorem returns_loop_at {t : Nat → σ} (hnext : ∀ k s', (body (t k)).Returns (.again s') → s' = t (k + 1)) :
    (loop body (t 0)).Returns r ↔
      ∃ n, (∀ k < n, (body (t k)).Returns (.again (t (k + 1)))) ∧ (body (t n)).Returns (.done r) := by
  constructor
  · intro h
    have hfrom : ∀ k, t 0 = t k → ∃ n, k ≤ n ∧ (∀ j, k ≤ j → j < n → (body (t j)).Returns (.again (t (j + 1))))
        ∧ (body (t n)).Returns (.done r) := by
      refine loop_induction (P := fun s r => ∀ k, s = t k → ∃ n, k ≤ n
        ∧ (∀ j, k ≤ j → j < n → (body (t j)).Returns (.again (t (j + 1)))) ∧ (body (t n)).Returns (.done r)) ?_ ?_ h
      · intro s r hdone k hs
        exact ⟨k, Nat.le_refl k, fun j h1 h2 => by omega, hs ▸ hdone⟩
      · intro s s' r hagain ih k hs
        rw [hs] at hagain
        obtain rfl := hnext k s' hagain
        obtain ⟨n, hn, hall, hdone⟩ := ih (k + 1) rfl
        refine ⟨n, by omega, fun j h1 h2 => ?_, hdone⟩
        rcases Nat.eq_or_lt_of_le h1 with rfl | hlt
        · exact hagain
        · exact hall j hlt h2
    obtain ⟨n, -, hall, hdone⟩ := hfrom 0 rfl
    exact ⟨n, fun k hk => hall k (Nat.zero_le k) hk, hdone⟩
  · intro ⟨n, hall, hdone⟩
    have hfrom : ∀ j, j ≤ n → (loop body (t (n - j))).Returns r := by
      intro j
      induction j with
      | zero => exact fun _ => loop_done hdone
      | succ j ih =>
        intro hj
        have hstep : n - (j + 1) + 1 = n - j := by omega
        exact loop_again (hall (n - (j + 1)) (by omega)) (hstep ▸ ih (by omega))
    have hstart := hfrom n (Nat.le_refl n)
    rwa [Nat.sub_self] at hstart

/-- A loop that comes back to where it is has no outcome. -/
theorem not_ends_of_again (h : (body s).Returns (.again s)) : ¬ (loop body s).Ends := by
  intro ⟨o, fuel, hrun⟩
  have hrounds : ∀ n, rounds body fuel n s ≠ some o := by
    intro n
    induction n with
    | zero => exact fun h => nomatch h
    | succ n ih =>
      intro hn
      rcases rounds_succ.mp hn with ⟨hbody, -⟩ | ⟨s', hbody, hn⟩ | ⟨r, hbody, -⟩
      · cases Yields.unique h ⟨fuel, hbody⟩
      · cases Yields.unique h ⟨fuel, hbody⟩
        exact ih hn
      · cases Yields.unique h ⟨fuel, hbody⟩
  exact hrounds fuel hrun

end loop

/-! ## Recursion -/

/-- What the one yields, the other yields with no more fuel. -/
def Below (x y : Run α) : Prop := ∀ fuel o, x.eval fuel = some o → y.eval fuel = some o

theorem Below.refl (x : Run α) : Below x x := fun _ _ h => h

theorem Below.bind {x y : Run α} {f g : α → Run β} (hx : Below x y) (hf : ∀ a, Below (f a) (g a)) :
    Below (x >>= f) (y >>= g) := by
  intro fuel o h
  refine andThen_some.mpr ?_
  rcases andThen_some.mp h with ⟨hnone, ho⟩ | ⟨a, ha, h⟩
  · exact Or.inl ⟨hx fuel none hnone, ho⟩
  · exact Or.inr ⟨a, hx fuel (some a) ha, hf a fuel o h⟩

theorem Below.ite {c : Prop} [Decidable c] {x y x' y' : Run α} (hx : Below x y) (hx' : Below x' y') :
    Below (if c then x else x') (if c then y else y') := by
  split
  · exact hx
  · exact hx'

theorem Below.loop {body body' : σ → Run (Next σ ρ)} (hbody : ∀ s, Below (body s) (body' s)) (s : σ) :
    Below (loop body s) (loop body' s) := by
  intro fuel o h
  have hrounds : ∀ n s, rounds body fuel n s = some o → rounds body' fuel n s = some o := by
    intro n
    induction n with
    | zero =>
      intro s h
      cases h
    | succ n ih =>
      intro s h
      rw [rounds_succ] at h ⊢
      rcases h with ⟨hnone, ho⟩ | ⟨s', hagain, h⟩ | ⟨r, hdone, ho⟩
      · exact Or.inl ⟨hbody s fuel none hnone, ho⟩
      · exact Or.inr (Or.inl ⟨s', hbody s fuel _ hagain, ih s' h⟩)
      · exact Or.inr (Or.inr ⟨r, hbody s fuel _ hdone, ho⟩)
  exact hrounds fuel s h

/-- No outcome, whatever the fuel. -/
def never : Run α := ⟨fun _ => none, fun _ h => h⟩

section recursion

variable (F : (σ → Run α) → σ → Run α)

/-- A recursive function, called so often in itself at most. -/
def depth : Nat → σ → Run α
  | 0, _ => never
  | n + 1, s => F (depth n) s

/-- A function body that yields more only if the calls in it do. -/
def Monotone : Prop := ∀ f g : σ → Run α, (∀ s, Below (f s) (g s)) → ∀ s, Below (F f s) (F g s)

variable {F}

theorem depth_below_succ (hF : Monotone F) (n : Nat) (s : σ) : Below (depth F n s) (depth F (n + 1) s) := by
  induction n generalizing s with
  | zero => exact fun _ _ h => nomatch h
  | succ n ih => exact hF _ _ ih s

theorem depth_below (hF : Monotone F) {n n' : Nat} (h : n ≤ n') (s : σ) : Below (depth F n s) (depth F n' s) := by
  induction h with
  | refl => exact Below.refl _
  | step _ ih => exact fun fuel o ho => depth_below_succ hF _ s fuel o (ih fuel o ho)

/-- The recursive function: it takes fuel for its depth as well. -/
def recurse (hF : Monotone F) (s : σ) : Run α :=
  ⟨fun fuel => (depth F fuel s).eval fuel, fun hle h => depth_below hF hle s _ _ ((depth F _ s).mono hle h)⟩

theorem yields_recurse (hF : Monotone F) {s : σ} {o : Option α} : (recurse hF s).Yields o ↔ ∃ n, (depth F n s).Yields o := by
  constructor
  · intro ⟨fuel, h⟩
    exact ⟨fuel, fuel, h⟩
  · intro ⟨n, fuel, h⟩
    exact ⟨max n fuel, depth_below hF (Nat.le_max_left n fuel) s _ _ ((depth F n s).mono (Nat.le_max_right n fuel) h)⟩

end recursion

end Run

end BayTrail.Lib
