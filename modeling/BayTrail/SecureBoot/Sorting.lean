import BayTrail.SecureBoot.HashPe

/-!
# Hashing a PE image: the table of sections

Step 12 sorts the section headers by insertion from the back. Every access stays inside
the table, and the table ends up as the stable sort of the section headers.
-/

namespace BayTrail.SecureBoot

open BayTrail.Lib

/-- One section stands before another in the file. -/
def Section.Before (s u : Section) : Prop := s.pointerToRawData < u.pointerToRawData

instance : DecidableRel Section.Before := fun s u =>
  inferInstanceAs (Decidable (s.pointerToRawData < u.pointerToRawData))

/-- Ascending by `PointerToRawData`. -/
def Ascending (table : List Section) : Prop :=
  table.Pairwise fun s u => s.pointerToRawData ≤ u.pointerToRawData

/-- The sections in ascending order, equal ones as they come. -/
def ascending (sections : List Section) : List Section :=
  sections.foldl (fun table s => table.orderedInsert Section.Before s) []

/-- `n` section headers from `p` on. -/
def sectionsFrom (m : Mem) : Nat → Nat → List Section
  | 0, _ => []
  | n + 1, p => sectionAt m p :: sectionsFrom m n (p + sizeofSectionHeader)

/-- The section headers of an image. -/
def Image.sections (img : Image) : List Section :=
  sectionsFrom img.data img.numberOfSections img.sectionHeaders

variable {s u z : Section} {front rest table : List Section}

/-! ## Insertion -/

theorem Ascending.orderedInsert (h : Ascending table) :
    Ascending (table.orderedInsert Section.Before s) := by
  induction table with
  | nil => exact List.pairwise_singleton _ _
  | cons u table ih =>
    obtain ⟨hu, htable⟩ := List.pairwise_cons.mp h
    unfold List.orderedInsert
    split
    next hlt =>
      have hlt' : s.pointerToRawData < u.pointerToRawData := hlt
      refine List.pairwise_cons.mpr ⟨fun w hw => ?_, h⟩
      rcases List.mem_cons.mp hw with rfl | hw
      · exact hlt'.le
      · exact hlt'.le.trans (hu w hw)
    next hge =>
      have hge' : u.pointerToRawData ≤ s.pointerToRawData := Nat.not_lt.mp hge
      refine List.pairwise_cons.mpr ⟨fun w hw => ?_, ih htable⟩
      rcases (List.mem_orderedInsert _).mp hw with rfl | hw
      · exact hge'
      · exact hu w hw

/-- A section before the last one goes in front of it. -/
theorem orderedInsert_concat_lt (h : s.pointerToRawData < u.pointerToRawData) :
    (front ++ [u]).orderedInsert Section.Before s
      = front.orderedInsert Section.Before s ++ [u] := by
  induction front with
  | nil =>
    change (if s.Before u then [s, u] else [u, s]) = [s, u]
    exact if_pos h
  | cons w front ih =>
    rw [List.cons_append, List.orderedInsert_cons, List.orderedInsert_cons]
    split
    next => rfl
    next => rw [ih, List.cons_append]

/-- A section that is not before the last one goes to the end. -/
theorem orderedInsert_concat_ge (hfront : Ascending (front ++ [u]))
    (h : ¬ s.pointerToRawData < u.pointerToRawData) :
    (front ++ [u]).orderedInsert Section.Before s = front ++ [u, s] := by
  induction front with
  | nil =>
    change (if s.Before u then [s, u] else [u, s]) = [u, s]
    exact if_neg h
  | cons w front ih =>
    rw [List.cons_append] at hfront ⊢
    obtain ⟨hw, hfront⟩ := List.pairwise_cons.mp hfront
    have hwu : w.pointerToRawData ≤ u.pointerToRawData := hw u (by simp)
    have hnot : ¬ s.Before w := by
      change ¬ s.pointerToRawData < w.pointerToRawData
      omega
    rw [List.orderedInsert_cons, if_neg hnot, ih hfront, List.cons_append]

/-! ## The table -/

/-- Insertion of a section behind `front`, whose place is taken by `z` still. -/
theorem shiftLoop_spec (s : Section) : ∀ (front : List Section) (z : Section)
    (rest : List Section), Ascending front →
    ∃ table pos, shiftLoop s front.length (front ++ z :: rest) = .ok (table, pos)
      ∧ setSection table pos s = .ok (front.orderedInsert Section.Before s ++ rest) := by
  intro front
  induction front using List.reverseRecOn with
  | nil =>
    intro z rest _
    exact ⟨z :: rest, 0, rfl, if_pos (Nat.succ_pos _)⟩
  | append_singleton front u ih =>
    intro z rest hfront
    have hget : (front ++ [u] ++ z :: rest)[front.length]? = some u := by simp
    rw [List.length_append, List.length_singleton]
    unfold shiftLoop
    rw [hget]
    dsimp only
    by_cases hlt : s.pointerToRawData < u.pointerToRawData
    · -- the last one moves up by one place
      have hset : setSection (front ++ [u] ++ z :: rest) (front.length + 1) u
          = .ok (front ++ u :: u :: rest) := by
        unfold setSection
        rw [if_pos (by simp)]
        have hlen : front.length + 1 = (front ++ [u]).length := by simp
        rw [hlen, List.set_append_right _ _ (Nat.le_refl _), Nat.sub_self]
        simp
      have hfront' : Ascending front := (List.pairwise_append.mp hfront).1
      rw [if_pos hlt, hset, orderedInsert_concat_lt hlt, List.append_assoc]
      exact ih u (u :: rest) hfront'
    · refine ⟨_, front.length + 1, if_neg hlt, ?_⟩
      unfold setSection
      rw [if_pos (by simp), orderedInsert_concat_ge hfront hlt]
      have hlen : front.length + 1 = (front ++ [u]).length := by simp
      rw [hlen, List.set_append_right _ _ (Nat.le_refl _), Nat.sub_self]
      simp

/-- Step 12: the headers are sorted behind those that are sorted already, unless one is
outside of the image. -/
theorem sortLoop_spec (img : Image) : ∀ (n : Nat) (p : Nat) (front : List Section),
    Ascending front →
    let table := front ++ List.replicate n Section.zero
    sortLoop img n front.length p table = .error .fail ∨
      sortLoop img n front.length p table
        = .ok ((sectionsFrom img.data n p).foldl
            (fun table s => table.orderedInsert Section.Before s) front)
  | 0, p, front, _ => by
    refine Or.inr ?_
    rw [List.replicate_zero, List.append_nil]
    rfl
  | n + 1, p, front, hfront => by
    intro table
    unfold sortLoop
    split
    next => exact Or.inl rfl
    next =>
      obtain ⟨table', pos, hshift, hset⟩ := shiftLoop_spec (sectionAt img.data p) front
        Section.zero (List.replicate n Section.zero) hfront
      have htable : table = front ++ Section.zero :: List.replicate n Section.zero := rfl
      have hlen : front.length + 1
          = (front.orderedInsert Section.Before (sectionAt img.data p)).length :=
        (List.orderedInsert_length _ _ _).symm
      rw [htable]
      dsimp only
      rw [hshift]
      dsimp only
      rw [hset, hlen]
      exact sortLoop_spec img n (p + sizeofSectionHeader) _ hfront.orderedInsert

/-! ## What the sorted table is -/

variable {sections : List Section}

theorem foldl_insert_ascending (h : Ascending table) :
    Ascending (sections.foldl (fun table s => table.orderedInsert Section.Before s) table) := by
  induction sections generalizing table with
  | nil => exact h
  | cons s sections ih => exact ih h.orderedInsert

theorem foldl_insert_perm :
    (sections.foldl (fun table s => table.orderedInsert Section.Before s) table).Perm
      (table ++ sections) := by
  induction sections generalizing table with
  | nil => rw [List.foldl_nil, List.append_nil]
  | cons s sections ih =>
    calc (sections.foldl _ (table.orderedInsert Section.Before s)).Perm
          (table.orderedInsert Section.Before s ++ sections) := ih
      _ |>.Perm ((s :: table) ++ sections) := (List.perm_orderedInsert _ s table).append_right _
      _ |>.Perm (table ++ s :: sections) := List.perm_middle.symm

theorem ascending_ascending (sections : List Section) : Ascending (ascending sections) :=
  foldl_insert_ascending List.Pairwise.nil

theorem ascending_perm (sections : List Section) : (ascending sections).Perm sections :=
  foldl_insert_perm

end BayTrail.SecureBoot
