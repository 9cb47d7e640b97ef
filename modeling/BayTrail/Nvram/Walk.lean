import BayTrail.Nvram.Record
import BayTrail.Lib.Log

/-!
# The NVRAM store: walks over the log

`LogAt s p xs` says that the log `xs` stands at `p` and that a walk stops behind it,
because `pEndOfVars` is reached or the flash is erased there. Under it every iteration routine of `NvramRead.c` is a search in the list of placed
records, and the fuel of the loops suffices: a step of the walk drops a record,
and there are fewer records than bytes. A variable's data is reached through the
chain of `next` fields, which is the relation `Chain`.
-/

namespace BayTrail.Nvram

open BayTrail.Lib

/-- The records of a log with their addresses. -/
abbrev placed (p : Nat) (xs : List Rec) : List (Nat × Rec) := place Rec.bytes p xs

/-- The number of bytes of a log. -/
abbrev logSize (xs : List Rec) : Nat := (layout Rec.bytes xs).length

theorem placed_cons (p : Nat) (x : Rec) (xs : List Rec) :
    placed p (x :: xs) = (p, x) :: placed (p + x.size) xs := by
  simp [placed]

theorem logSize_cons (x : Rec) (xs : List Rec) : logSize (x :: xs) = x.size + logSize xs := by
  simp [logSize]

theorem logSize_append (xs ys : List Rec) : logSize (xs ++ ys) = logSize xs + logSize ys := by
  simp [logSize]

@[simp] theorem logSize_nil : logSize [] = 0 := rfl

/-- The log `xs` stands at `p` in `s`, and a walk over it stops at its end. -/
structure LogAt (s : StoreInfo) (p : Nat) (xs : List Rec) : Prop where
  holds : Holds s.mem p (layout Rec.bytes xs)
  le : p + logSize xs ≤ s.pEndOfVars
  stop : s.pEndOfVars = p + logSize xs ∨ sizeAt s.mem (p + logSize xs) = flashEmptySize
  fits : ∀ x ∈ placed p xs, x.2.Fits s.pEndOfVars x.1

variable {s : StoreInfo} {p : Nat} {r : Rec} {xs : List Rec}

theorem LogAt.mem_at (h : LogAt s p xs) {q : Nat} (hq : (q, r) ∈ placed p xs) :
    RecAt s.mem q r :=
  Rec.at_of_holds (holds_of_mem_place h.holds hq) (h.fits _ hq)

theorem LogAt.head_at (h : LogAt s p (r :: xs)) : RecAt s.mem p r :=
  h.mem_at (List.mem_cons_self ..)

theorem LogAt.head_fits (h : LogAt s p (r :: xs)) : r.Fits s.pEndOfVars p :=
  h.fits (p, r) (List.mem_cons_self ..)

theorem LogAt.tail (h : LogAt s p (r :: xs)) : LogAt s (p + r.size) xs := by
  obtain ⟨hh, hle, hst, hf⟩ := h
  rw [layout_cons, holds_append, Rec.bytes_length] at hh
  rw [logSize_cons, ← Nat.add_assoc] at hle hst
  refine ⟨hh.2, hle, hst, fun x hx => hf x ?_⟩
  · rw [placed_cons]
    exact List.mem_cons_of_mem _ hx

variable {ys : List Rec} {f : Rec → Bool} {hd : Header}

theorem LogAt.drop : ∀ {p : Nat} {xs : List Rec}, LogAt s p (xs ++ ys) →
    LogAt s (p + logSize xs) ys
  | _, [], h => h
  | p, x :: xs, h => by
    have h' := LogAt.drop h.tail
    rwa [logSize_cons, ← Nat.add_assoc]

theorem LogAt.fuel (h : LogAt s p xs) : xs.length < s.pEndOfVars + 1 := by
  have h1 := length_le_layout Rec.bytes xs fun x _ => x.bytes_pos
  have h2 := h.le
  unfold logSize at h2
  omega

/-! ## Searching -/

/-- What a search in a placed log finds splits the log. -/
theorem find_split : ∀ {p : Nat} {xs : List Rec} {q : Nat},
    ((placed p xs).find? fun x => f x.2).map Prod.fst = some q →
    ∃ us r rest, xs = us ++ r :: rest ∧ q = p + logSize us ∧ f r = true ∧ ∀ u ∈ us, f u = false
  | _, [], _, h => absurd h (by simp)
  | p, x :: xs, q, h => by
    rw [placed_cons] at h
    cases hx : f x with
    | true =>
      rw [List.find?_cons_of_pos (by exact hx), Option.map_some] at h
      exact ⟨[], x, xs, rfl, (Option.some.inj h).symm, hx, by simp⟩
    | false =>
      rw [List.find?_cons_of_neg (by simp [hx])] at h
      obtain ⟨us, r, rest, rfl, hq, hr, hus⟩ := find_split h
      refine ⟨x :: us, r, rest, rfl, ?_, hr, ?_⟩
      · rw [hq, logSize_cons, Nat.add_assoc]
      · intro u hu
        rcases List.mem_cons.mp hu with rfl | hu
        · exact hx
        · exact hus u hu

theorem unfound {p : Nat} {xs : List Rec}
    (h : ((placed p xs).find? fun x => f x.2).map Prod.fst = none) : ∀ x ∈ xs, f x = false := by
  induction xs generalizing p with
  | nil => simp
  | cons x xs ih =>
    rw [placed_cons] at h
    cases hx : f x with
    | true =>
      rw [List.find?_cons_of_pos (by exact hx)] at h
      exact absurd h (by simp)
    | false =>
      rw [List.find?_cons_of_neg (by simp [hx])] at h
      intro y hy
      rcases List.mem_cons.mp hy with rfl | hy
      · exact hx
      · exact ih h y hy

/-! ## Iteration -/

theorem sizeOk_end (h : LogAt s p []) : sizeOk s p = false := by
  have hst := h.stop
  rw [logSize_nil, Nat.add_zero] at hst
  unfold sizeOk
  rcases hst with he | he
  · by_cases hs : sizeofNvar < sizeAt s.mem p
    · have : ¬ p + sizeAt s.mem p ≤ s.pEndOfVars := by omega
      simp [this]
    · simp [hs]
  · simp [he]

theorem nvIsVariable_end (h : LogAt s p []) : nvIsVariable s p = false := by
  unfold nvIsVariable
  simp [sizeOk_end h]

theorem skipInvalidLoop_eq : ∀ {xs : List Rec} {p n : Nat}, LogAt s p xs → xs.length < n →
    skipInvalidLoop s n p = ((placed p xs).find? fun x => x.2.signed).map Prod.fst
  | _, _, 0, _, hf => absurd hf (Nat.not_lt_zero _)
  | [], p, fuel + 1, h, _ => by
    simp [skipInvalidLoop, nvIsVariable_end h, sizeOk_end h]
  | x :: xs, p, fuel + 1, h, hf => by
    have hin := h.head_fits.inside
    have hgt := h.head_fits.size_gt
    have hlt : ¬ s.pEndOfVars ≤ p := by omega
    unfold skipInvalidLoop
    rw [if_neg hlt, nvIsVariable_eq h.head_at h.head_fits, placed_cons]
    cases hs : x.signed with
    | true => simp [hs]
    | false =>
      have ih := skipInvalidLoop_eq (n := fuel) h.tail (by simpa using hf)
      rw [sizeOk_of h.head_at h.head_fits, h.head_at.size]
      simpa [hs, Rec.size] using ih

/-- `NvGetNextNvar` goes to the next record whose signature is programmed. -/
theorem nvGetNextNvar_eq (h : LogAt s p (r :: xs)) :
    nvGetNextNvar s p = ((placed (p + r.size) xs).find? fun x => x.2.signed).map Prod.fst := by
  have hin := h.head_fits.inside
  have hgt := h.head_fits.size_gt
  have hlt : ¬ s.pEndOfVars ≤ p := by omega
  unfold nvGetNextNvar
  rw [if_neg hlt, nvIsVariable_eq h.head_at h.head_fits]
  cases hs : r.signed with
  | true =>
    rw [if_pos rfl, h.head_at.size]
    exact skipInvalidLoop_eq h.tail h.tail.fuel
  | false =>
    rw [if_neg (by simp), skipInvalidLoop_eq h h.fuel, placed_cons]
    simp [hs]

theorem nextValidLoop_eq : ∀ {xs : List Rec} {r : Rec} {p n : Nat}, LogAt s p (r :: xs) →
    xs.length < n →
    nextValidLoop s n p
      = ((placed (p + r.size) xs).find? fun x => x.2.live.isSome).map Prod.fst
  | _, _, _, 0, _, hf => absurd hf (Nat.not_lt_zero _)
  | [], r, p, fuel + 1, h, _ => by
    unfold nextValidLoop
    rw [nvGetNextNvar_eq h]
    rfl
  | x :: xs, r, p, fuel + 1, h, hf => by
    have hf' : xs.length < fuel := by simpa using hf
    have hnext := nvGetNextNvar_eq h
    rw [placed_cons] at hnext
    cases hs : x.signed with
    | true =>
      have hv := nvIsValid_eq h.tail.head_at hs
      have ih := nextValidLoop_eq (n := fuel) h.tail hf'
      unfold nextValidLoop
      rw [hnext, placed_cons]
      cases hl : x.live.isSome with
      | true => simp [hs, hv, hl]
      | false => simpa [hs, hv, hl] using ih
    | false =>
      -- an unsigned record is passed over by the step before it
      have ih := nextValidLoop_eq (n := fuel + 1) h.tail (by omega)
      have hl : x.live.isSome = false := by
        cases x <;> simp_all [Rec.signed, Rec.live]
      unfold nextValidLoop at ih ⊢
      rw [nvGetNextNvar_eq h.tail] at ih
      rw [hnext, placed_cons]
      simpa [hs, hl] using ih

theorem nvGetNextValid_eq (h : LogAt s p (r :: xs)) :
    nvGetNextValid s p
      = ((placed (p + r.size) xs).find? fun x => x.2.live.isSome).map Prod.fst :=
  nextValidLoop_eq h (by have := h.tail.fuel; omega)

/-- The first record decides whether `NvGetFirstValid` looks any further. -/
def headSigned : List Rec → Bool
  | [] => true
  | x :: _ => x.signed

theorem headSigned_append {xs : List Rec} (hx : xs ≠ []) :
    headSigned (xs ++ ys) = headSigned xs := by
  cases xs with
  | nil => exact absurd rfl hx
  | cons x xs => rfl

theorem nvGetFirstValid_eq (h : LogAt s s.pFirstVar xs) :
    nvGetFirstValid s = if headSigned xs
      then ((placed s.pFirstVar xs).find? fun x => x.2.live.isSome).map Prod.fst else none := by
  unfold nvGetFirstValid
  cases xs with
  | nil =>
    rw [nvIsVariable_end h]
    rfl
  | cons x xs =>
    rw [nvIsVariable_eq h.head_at h.head_fits, headSigned]
    cases hs : x.signed with
    | false => rfl
    | true =>
      rw [nvIsValid_eq h.head_at hs, nvGetNextValid_eq h, placed_cons]
      cases hl : x.live.isSome <;> simp [hl]

/-! ## Finding a variable -/

/-- `NvVarEq` on a record that `NvIsValid` accepts. -/
def Rec.matchSize (s : StoreInfo) (name : Name) (guid : Guid) (r : Rec) : Option Nat :=
  r.live.bind fun hd =>
    if name = hd.name ∧ hd.ref.resolve s = guid.bytes then some (nameSize hd.ascii hd.name)
    else none

theorem Rec.eq_header_of_live (h : r.live = some hd) :
    hd.valid = true ∧ ∃ next, r = .header hd next := by
  cases r with
  | header hd' next =>
    rw [Rec.live] at h
    cases hv : hd'.valid with
    | false => simp [hv] at h
    | true =>
      obtain rfl : hd' = hd := by simpa [hv] using h
      exact ⟨hv, next, rfl⟩
  | data d next => exact absurd h (by simp [Rec.live])
  | broken flags body => exact absurd h (by simp [Rec.live])

theorem Rec.matchSize_header {next : Nat} (hv : hd.valid = true) (name : Name)
    (guid : Guid) : (Rec.header hd next).matchSize s name guid
      = if name = hd.name ∧ hd.ref.resolve s = guid.bytes then some (nameSize hd.ascii hd.name)
        else none := by
  simp [Rec.matchSize, Rec.live, hv]

theorem findVariableLoop_eq (name : Name) (guid : Guid) : ∀ {xs : List Rec} {p n : Nat},
    LogAt s p xs → xs.length < n →
    findVariableLoop s name guid n
        (((placed p xs).find? fun x => x.2.live.isSome).map Prod.fst)
      = (placed p xs).findSome? fun x => (x.2.matchSize s name guid).map (Prod.mk x.1)
  | _, _, 0, _, hf => absurd hf (Nat.not_lt_zero _)
  | [], _, _ + 1, _, _ => rfl
  | x :: xs, p, fuel + 1, h, hf => by
    rw [placed_cons]
    cases hl : x.live with
    | none =>
      have ih := findVariableLoop_eq name guid (n := fuel + 1) h.tail (by simp at hf; omega)
      have hm : x.matchSize s name guid = none := by simp [Rec.matchSize, hl]
      simpa [hl, hm] using ih
    | some hd =>
      obtain ⟨hv, next, rfl⟩ := Rec.eq_header_of_live hl
      have ih := findVariableLoop_eq name guid (n := fuel) h.tail (by simpa using hf)
      rw [List.find?_cons_of_pos (by simp [hl]), Option.map_some, findVariableLoop,
        nvVarEq_eq h.head_at, List.findSome?_cons, Rec.matchSize_header hv]
      split
      · simp_all
      · next hc =>
        split at hc
        · exact absurd hc (by simp)
        · rw [nvGetNextValid_eq h, ih]
          simp [*]

/-- `NvFindVariable` finds the first live header of that name and GUID. -/
theorem nvFindVariable_eq (h : LogAt s s.pFirstVar xs) (hs : headSigned xs = true) (name : Name)
    (guid : Guid) : nvFindVariable s name guid
      = (placed s.pFirstVar xs).findSome? fun x => (x.2.matchSize s name guid).map (Prod.mk x.1) := by
  unfold nvFindVariable
  rw [nvGetFirstValid_eq h, if_pos hs]
  exact findVariableLoop_eq name guid h h.fuel

/-! ## Chains -/

def Rec.isData : Rec → Bool
  | data _ _ => true
  | _ => false

/-- From the record `r` at `p`, the `next` fields lead through data-only records
to the record `rf` at `q`, which is the last one. -/
inductive Chain (P : List (Nat × Rec)) : Nat → Rec → Nat → Rec → Prop
  | last {p : Nat} {r : Rec} (hn : r.next = flashEmptyNext) : Chain P p r p r
  | link {p : Nat} {r r' : Rec} {q : Nat} {rf : Rec} (hn : r.next ≠ flashEmptyNext)
      (hm : (p + r.next, r') ∈ P) (hd : r'.isData = true) (ht : Chain P (p + r.next) r' q rf) :
      Chain P p r q rf

variable {P P' : List (Nat × Rec)} {q : Nat} {rf : Rec}

theorem Chain.final (h : Chain P p r q rf) : rf.next = flashEmptyNext := by
  induction h with
  | last hn => exact hn
  | link _ _ _ _ ih => exact ih

theorem Chain.mem (h : Chain P p r q rf) (hm : (p, r) ∈ P) : (q, rf) ∈ P := by
  induction h with
  | last _ => exact hm
  | link _ hm' _ _ ih => exact ih hm'

/-- The last record is the first one or a data-only record. -/
theorem Chain.data_or (h : Chain P p r q rf) : (q = p ∧ rf = r) ∨ rf.isData = true := by
  induction h with
  | last _ => exact Or.inl ⟨rfl, rfl⟩
  | link _ _ hd _ ih =>
    rcases ih with ⟨-, rfl⟩ | hd'
    · exact Or.inr hd
    · exact Or.inr hd'

theorem Chain.le (h : Chain P p r q rf) : p ≤ q := by
  induction h with
  | last _ => exact Nat.le_refl _
  | link _ _ _ _ ih => omega

/-- A chain survives a change of the log that keeps the data-only records. -/
theorem Chain.mono (hP : ∀ a x, (a, x) ∈ P → x.isData = true → (a, x) ∈ P')
    (h : Chain P p r q rf) : Chain P' p r q rf := by
  induction h with
  | last hn => exact Chain.last hn
  | link hn hm hd _ ih => exact Chain.link hn (hP _ _ hm hd) hd ih

/-- A chain survives a change of a record at which another chain ends. -/
theorem Chain.avoid {l : Nat} (hP : ∀ a x, (a, x) ∈ P → x.isData = true → a ≠ l → (a, x) ∈ P')
    (hl : ∀ x, (l, x) ∈ P → x.next = flashEmptyNext) (h : Chain P p r q rf) (hq : q ≠ l) :
    Chain P' p r q rf := by
  induction h with
  | last hn => exact Chain.last hn
  | @link p r r' q rf hn hm hd ht ih =>
    refine Chain.link hn (hP _ _ hm hd ?_) hd (ih hq)
    intro he
    -- the record at `l` ends every chain that reaches it
    cases ht with
    | last _ => exact hq he
    | link hn' _ _ _ => exact hn' (hl _ (he ▸ hm))

/-- `NvGetDataNvar` walks the chain to its end. -/
theorem dataNvarLoop_eq (hlog : LogAt s s.pFirstVar xs) :
    ∀ {fuel : Nat} {p : Nat} {r : Rec} {last : Option Nat},
    Chain (placed s.pFirstVar xs) p r q rf → (p, r) ∈ placed s.pFirstVar xs → r.signed = true →
    s.pEndOfVars < fuel + p → dataNvarLoop s fuel last p = some q := by
  intro fuel
  induction fuel with
  | zero =>
    intro p r last hc hm hs hfuel
    have h1 := (hlog.fits _ hm).inside
    simp only at h1
    omega
  | succ fuel ih =>
    intro p r last hc hm hs hfuel
    have hat := hlog.mem_at hm
    have hfit := hlog.fits _ hm
    unfold dataNvarLoop
    rw [nvIsVariable_eq hat hfit, hs, if_pos rfl, recAt_next hat]
    cases hc with
    | last hn => exact if_pos hn
    | link hn hm' hd ht =>
      rw [if_neg hn]
      refine ih ht hm' ?_ ?_
      · revert hd
        cases ‹Rec› <;> simp [Rec.isData, Rec.signed]
      · have hpos := hfit.size_gt
        rcases hfit.next with he | ⟨hle, -, -⟩
        · exact absurd he hn
        · change s.pEndOfVars < fuel + (p + r.next)
          simp only at hle hpos
          omega

theorem nvGetDataNvar_eq (hlog : LogAt s s.pFirstVar xs)
    (hc : Chain (placed s.pFirstVar xs) p r q rf) (hm : (p, r) ∈ placed s.pFirstVar xs)
    (hs : r.signed = true) : nvGetDataNvar s p = some q :=
  dataNvarLoop_eq hlog hc hm hs (by omega)

end BayTrail.Nvram
