import BayTrail.SecureBoot.Lookup

/-!
# Where a walk over a database goes

`Lists` says which contents a walk gets through, with what it comes to: each list in front of the first signature
that is accepted has its header inside the variable, leads on, and has its signatures inside the variable. The
walks of the code are exactly these.
-/

namespace BayTrail.SecureBoot.Lookup

open BayTrail.Lib
open Lib.Run (returns_pure returns_require_bind loop_done)

variable {κ σ : Type}

/-- So many signatures are looked at, up to the first one that is accepted. -/
inductive Certs (J : κ → Nat → Bytes → σ → Bool × σ → Prop) (k : κ) (size : Nat) : Nat → Bytes → σ → Bool × σ → Prop where
  | none (cert : Bytes) (st : σ) : Certs J k size 0 cert st (false, st)
  | accepted {n : Nat} {cert : Bytes} {st st' : σ} (h : J k size cert st (true, st')) :
      Certs J k size (n + 1) cert st (true, st')
  | refused {n : Nat} {cert : Bytes} {st st' : σ} {r : Bool × σ} (h : J k size cert st (false, st'))
      (hrest : Certs J k size n (cert.drop size) st' r) : Certs J k size (n + 1) cert st r

/-- The signatures of a list, if they are looked at. -/
def Checked (w : Walker κ) (J : κ → Nat → Bytes → σ → Bool × σ → Prop) (k : κ) (list : Bytes) (st : σ) (r : Bool × σ) : Prop :=
  24 + 4 ≤ list.length ∧ signatureSize list ≠ 0
    ∧ if w.admits (signatureSize list) then
        Certs J k (signatureSize list) (certCount list % w.width) (firstCert list) st r
      else r = (false, st)

/-- A list that is looked at: its size is inside the variable, and no more than is left. -/
structure Met (list : Bytes) : Prop where
  size : 16 + 4 ≤ list.length
  fits : signatureListSize list ≤ list.length

/-- The walk from a list on, and what it comes to. A list without a size is not got over. -/
inductive Lists (w : Walker κ) (J : κ → Nat → Bytes → σ → Bool × σ → Prop) : Option κ → Bytes → σ → Bool × σ → Prop where
  | empty (old : Option κ) (st : σ) : Lists w J old [] st (false, st)
  | short {old : Option κ} {list : Bytes} (st : σ) (hsize : 16 + 4 ≤ list.length) (hshort : list.length < signatureListSize list) :
      Lists w J old list st (false, st)
  | skipped {old : Option κ} {list : Bytes} {st : σ} {r : Bool × σ} (hmet : Met list)
      (hkind : w.kind old (signatureType list) = none)
      (hrest : Lists w J none (list.drop (signatureListSize list)) st r) : Lists w J old list st r
  | accepted {old : Option κ} {list : Bytes} {st st' : σ} {k : κ} (hmet : Met list)
      (hkind : w.kind old (signatureType list) = some k) (hchecked : Checked w J k list st (true, st')) :
      Lists w J old list st (true, st')
  | refused {old : Option κ} {list : Bytes} {st st' : σ} {k : κ} {r : Bool × σ} (hmet : Met list)
      (hkind : w.kind old (signatureType list) = some k) (hchecked : Checked w J k list st (false, st'))
      (hrest : Lists w J (some k) (list.drop (signatureListSize list)) st' r) : Lists w J old list st r

section

variable {w : Walker κ} {J J' : κ → Nat → Bytes → σ → Bool × σ → Prop} {judge : κ → Nat → Bytes → σ → Run (Bool × σ)}
  {k : κ} {old : Option κ} {list cert data : Bytes} {size n : Nat} {st : σ} {r : Bool × σ}

section

variable (hle : ∀ k size cert st r, J k size cert st r → J' k size cert st r)
include hle

/-- Who judges more signatures gets through more lists. -/
theorem Certs.mono (h : Certs J k size n cert st r) :
    Certs J' k size n cert st r := by
  induction h with
  | none cert st => exact .none cert st
  | accepted h => exact .accepted (hle _ _ _ _ _ h)
  | refused h _ ih => exact .refused (hle _ _ _ _ _ h) ih

theorem Checked.mono (h : Checked w J k list st r) :
    Checked w J' k list st r := by
  obtain ⟨hlength, hsize, hcerts⟩ := h
  refine ⟨hlength, hsize, ?_⟩
  by_cases hadmits : w.admits (signatureSize list) = true
  · rw [if_pos hadmits] at hcerts ⊢
    exact hcerts.mono hle
  · rwa [if_neg hadmits] at hcerts ⊢

theorem Lists.mono (h : Lists w J old list st r) :
    Lists w J' old list st r := by
  induction h with
  | empty old st => exact .empty old st
  | short st hsize hshort => exact .short st hsize hshort
  | skipped hmet hkind _ ih => exact .skipped hmet hkind ih
  | accepted hmet hkind hchecked => exact .accepted hmet hkind (hchecked.mono hle)
  | refused hmet hkind hchecked _ ih => exact .refused hmet hkind (hchecked.mono hle) ih

end

/-! ## The loops -/

theorem returns_certLoop : (certLoop judge k size n cert st).Returns r
    ↔ Certs (fun k size cert st r => (judge k size cert st).Returns r) k size n cert st r := by
  induction n generalizing cert st with
  | zero =>
    rw [certLoop, returns_pure]
    constructor
    · rintro rfl
      exact .none cert st
    · intro h
      cases h
      rfl
  | succ n ih =>
    rw [certLoop, Run.returns_bind]
    constructor
    · rintro ⟨⟨b, st'⟩, hjudge, hrest⟩
      cases b with
      | true =>
        rw [if_pos rfl, returns_pure] at hrest
        subst hrest
        exact .accepted hjudge
      | false => exact .refused hjudge (ih.mp hrest)
    · intro h
      cases h with
      | accepted hjudge => exact ⟨_, hjudge, returns_pure.mpr rfl⟩
      | refused hjudge hrest => exact ⟨_, hjudge, ih.mpr hrest⟩

theorem returns_checkList :
    (24 + 4 ≤ list.length ∧ signatureSize list ≠ 0 ∧ (checkList w judge k list st).Returns r)
      ↔ Checked w (fun k size cert st r => (judge k size cert st).Returns r) k list st r := by
  unfold checkList Checked
  split
  · rw [returns_certLoop]
  · rw [returns_pure, eq_comm]

/-- The loop over the lists goes where `Lists` says. -/
theorem lists_of_returns {s : Option κ × Bytes × σ} (h : (Run.loop (listRound w judge) s).Returns r) :
    Lists w (fun k size cert st r => (judge k size cert st).Returns r) s.1 s.2.1 s.2.2 r := by
  -- by the rounds of the loop
  refine Run.loop_induction (P := fun s r => Lists w _ s.1 s.2.1 s.2.2 r) ?_ ?_ h
  · rintro ⟨old, list, st⟩ r hdone
    unfold listRound at hdone
    split at hdone
    · rename_i hempty
      cases returns_pure.mp hdone
      dsimp only at hempty
      subst hempty
      exact .empty old st
    · obtain ⟨hsize, hdone⟩ := returns_require_bind.mp hdone
      split at hdone
      · rename_i hshort
        cases returns_pure.mp hdone
        exact .short st hsize hshort
      · rename_i hfits
        dsimp only at hdone
        cases hkind : w.kind old (signatureType list) with
        | none =>
          rw [hkind] at hdone
          cases returns_pure.mp hdone
        | some k =>
          rw [hkind] at hdone
          obtain ⟨hlength, hdone⟩ := returns_require_bind.mp hdone
          obtain ⟨hne, hdone⟩ := returns_require_bind.mp hdone
          obtain ⟨⟨b, st'⟩, hcheck, hdone⟩ := Run.returns_bind.mp hdone
          have hdone := returns_pure.mp hdone
          cases b with
          | false => cases hdone
          | true =>
            cases hdone
            exact .accepted ⟨hsize, Nat.le_of_not_lt hfits⟩ hkind (returns_checkList.mp ⟨hlength, hne, hcheck⟩)
  · rintro ⟨old, list, st⟩ s' r hagain hrest
    unfold listRound at hagain
    split at hagain
    · cases returns_pure.mp hagain
    · obtain ⟨hsize, hagain⟩ := returns_require_bind.mp hagain
      split at hagain
      · cases returns_pure.mp hagain
      · rename_i hfits
        dsimp only at hagain
        cases hkind : w.kind old (signatureType list) with
        | none =>
          rw [hkind] at hagain
          cases returns_pure.mp hagain
          exact .skipped ⟨hsize, Nat.le_of_not_lt hfits⟩ hkind hrest
        | some k =>
          rw [hkind] at hagain
          obtain ⟨hlength, hagain⟩ := returns_require_bind.mp hagain
          obtain ⟨hne, hagain⟩ := returns_require_bind.mp hagain
          obtain ⟨⟨b, st'⟩, hcheck, hagain⟩ := Run.returns_bind.mp hagain
          have hagain := returns_pure.mp hagain
          cases b with
          | true => cases hagain
          | false =>
            cases hagain
            exact .refused ⟨hsize, Nat.le_of_not_lt hfits⟩ hkind (returns_checkList.mp ⟨hlength, hne, hcheck⟩) hrest

theorem Met.ne_nil (h : Met list) : list ≠ [] := by
  rintro rfl
  exact absurd h.size (by decide)

/-- A round at a list that is looked at. -/
theorem listRound_met {next : Next (Option κ × Bytes × σ) (Bool × σ)} (hmet : Met list)
    (h : (enterList w judge list st (w.kind old (signatureType list))).Returns next) :
    (listRound w judge (old, list, st)).Returns next := by
  unfold listRound
  rw [if_neg hmet.ne_nil, returns_require_bind, if_neg (Nat.not_lt.mpr hmet.fits)]
  exact ⟨hmet.size, h⟩

theorem returns_of_lists (h : Lists w (fun k size cert st r => (judge k size cert st).Returns r) old list st r) :
    (Run.loop (listRound w judge) (old, list, st)).Returns r := by
  induction h with
  | empty old st => exact loop_done (returns_pure.mpr rfl)
  | @short old list st hsize hshort =>
    refine loop_done ?_
    have hne : list ≠ [] := by
      rintro rfl
      exact absurd hsize (by decide)
    unfold listRound
    rw [if_neg hne, returns_require_bind, if_pos hshort]
    exact ⟨hsize, returns_pure.mpr rfl⟩
  | skipped hmet hkind _ ih =>
    refine Run.loop_again (listRound_met hmet ?_) ih
    rw [hkind]
    exact returns_pure.mpr rfl
  | accepted hmet hkind hchecked =>
    obtain ⟨hlength, hne, hcheck⟩ := returns_checkList.mpr hchecked
    refine loop_done (listRound_met hmet ?_)
    rw [hkind]
    exact returns_require_bind.mpr ⟨hlength, returns_require_bind.mpr ⟨hne, hcheck.bind (returns_pure.mpr rfl)⟩⟩
  | refused hmet hkind hchecked _ ih =>
    obtain ⟨hlength, hne, hcheck⟩ := returns_checkList.mpr hchecked
    refine Run.loop_again (listRound_met hmet ?_) ih
    rw [hkind]
    exact returns_require_bind.mpr ⟨hlength, returns_require_bind.mpr ⟨hne, hcheck.bind (returns_pure.mpr rfl)⟩⟩

/-- The walk, when `J` is what its judge does. -/
theorem returns_walk (hjudge : ∀ k size cert st r, (judge k size cert st).Returns r ↔ J k size cert st r) :
    (walk w judge data st).Returns r ↔ Lists w J none data st r := by
  constructor
  · exact fun h => (lists_of_returns h).mono fun k size cert st r => (hjudge k size cert st r).mp
  · exact fun h => returns_of_lists (h.mono fun k size cert st r => (hjudge k size cert st r).mpr)

end

end BayTrail.SecureBoot.Lookup
