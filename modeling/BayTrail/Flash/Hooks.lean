import BayTrail.Flash.Withheld

/-!
# The flash driver: the hooks and the buffer

What `BeforeErase`, `BeforeWrite` and `AfterWrite` do to the list of areas and to the
caller's buffer, and the condition on the list under which the buffer comes back as it
was.
-/

namespace BayTrail.Flash

open BayTrail.Lib

/-! ## The condition -/

/-- The list of areas once `BeforeErase` has looked at it. -/
def noted (romLayout : List RomArea) (areas : List UpdatedArea) (p : Nat) : List UpdatedArea :=
  if romLayout = [] ∨ areas.length = maxNumberOfUpdatedAreas then areas
  else match romLayout.find? (·.address = p) with
    | none => areas
    | some area => if !area.isFv then areas else areas ++ [⟨area, area.size, false⟩]

/-- `AfterWrite` looks at every area it has to look at. -/
structure HookClean (areas : List UpdatedArea) (p size : Nat) (buffer : Mem) : Prop where
  /-- a volume header is written, and fewer areas in front of this one end with the write
  than there are areas from this one on: none of them is replaced by this one -/
  header : isFvHeader size buffer = true → ∀ own, areas.findIdx? (·.start = p) = some own →
    own + ((areas.take own).filter fun v => v.start + v.areaSize = p + size).length
      < areas.length
  /-- no area is there twice where other data goes -/
  once : isFvHeader size buffer = false → (areas.filter (·.start = p)).length ≤ 1
  /-- an area that ends with the write has a signature to restore -/
  restore : ∀ v ∈ areas, v.start ≠ p → v.start + v.areaSize = p + size → v.restoreSignature = true

section

variable {pt : Part} {romLayout : List RomArea} {s : Driver} {buffer : Mem} {p n : Nat}
  {v : UpdatedArea} {areas : List UpdatedArea}

/-! ## BeforeErase -/

theorem beforeErase_areas (pt : Part) (romLayout : List RomArea) (s : Driver) (p : Nat) :
    (beforeErase pt romLayout s p).updatedArea = noted romLayout s.updatedArea p := by
  unfold beforeErase noted
  split
  next => rfl
  next =>
    cases romLayout.find? (·.address = p) with
    | none => rfl
    | some area =>
      dsimp only
      split <;> rfl

/-- At most one area is noted, and nothing is owed for it. -/
theorem noted_cases (romLayout : List RomArea) (areas : List UpdatedArea) (p : Nat) :
    noted romLayout areas p = areas ∨
      ∃ v, v.start = p ∧ v.restoreSignature = false ∧ noted romLayout areas p = areas ++ [v] := by
  unfold noted
  split
  next => exact Or.inl rfl
  next =>
    split
    next => exact Or.inl rfl
    next area harea =>
      split
      next => exact Or.inl rfl
      next =>
        have haddr : area.address = p := by simpa using List.find?_some harea
        exact Or.inr ⟨⟨area, area.size, false⟩, haddr, rfl, rfl⟩

/-- The areas that are not this one are those of before. -/
theorem mem_noted (hv : v ∈ noted romLayout areas p)
    (hup : v.start ≠ p ∨ v.restoreSignature = true) : v ∈ areas := by
  rcases noted_cases romLayout areas p with h | ⟨u, hu, hr, h⟩
  · rwa [h] at hv
  · rw [h, List.mem_append, List.mem_singleton] at hv
    rcases hv with hv | rfl
    · exact hv
    · rcases hup with hup | hup
      · exact absurd hu hup
      · exact absurd (hr.symm.trans hup) Bool.false_ne_true

/-! ## AfterWrite -/

/-- A buffer that has the signature keeps it. -/
theorem afterWriteLoop_buffer (hb : poke buffer signatureOffset fvSignature = buffer) :
    ∀ (fuel i : Nat) (s : Driver), (afterWriteLoop pt p n fuel i s buffer).2 = buffer
  | 0, _, _ => rfl
  | fuel + 1, i, s => by
    unfold afterWriteLoop
    split
    next => rfl
    next v hv =>
      rw [hb, ite_self]
      extract_lets b s'
      split <;> exact afterWriteLoop_buffer hb fuel (i + 1) _

variable {i own : Nat}

/-- No area starts here: the buffer is not touched. -/
theorem afterWriteLoop_none : ∀ (fuel i : Nat) (s : Driver),
    (∀ v ∈ s.updatedArea, v.start ≠ p) → (afterWriteLoop pt p n fuel i s buffer).2 = buffer
  | 0, _, _, _ => rfl
  | fuel + 1, i, s, h => by
    unfold afterWriteLoop
    split
    next => rfl
    next v hv =>
      rw [if_neg (h v (List.mem_of_getElem? hv))]
      extract_lets b s'
      split
      next => exact afterWriteLoop_none fuel (i + 1) _ fun u hu => h u (mem_of_mem_removeArea hu)
      next => exact afterWriteLoop_none fuel (i + 1) s h
/-- What is behind the removed area stays where it is, but for the last one. -/
theorem removeArea_getElem? {j : Nat} (hij : i < j) (hj : j + 1 < areas.length) :
    (removeArea areas i)[j]? = areas[j]? := by
  have hne : areas ≠ [] := by
    rintro rfl
    exact absurd hj (by simp)
  unfold removeArea
  rw [List.getLast?_eq_some_getLast hne]
  dsimp only
  rw [List.getElem?_dropLast, List.length_set, if_pos (by omega),
    List.getElem?_set_ne (by omega)]

theorem removeArea_length (h : areas[i]? = some v) :
    (removeArea areas i).length + 1 = areas.length :=
  (removeArea_perm h).length_eq.symm

/-- The area that starts here is looked at, where it does not take the place of one that
ends with the write: then the buffer has the signature. -/
theorem afterWriteLoop_own (own : Nat) {b : Mem}
    (hb : poke b signatureOffset fvSignature = buffer) : ∀ (fuel i : Nat) (s : Driver),
    i ≤ own → own < i + fuel → (∃ v, s.updatedArea[own]? = some v ∧ v.start = p) →
    (∀ j, i ≤ j → j < own → ∀ v, s.updatedArea[j]? = some v → v.start ≠ p) →
    own + (((s.updatedArea.take own).drop i).filter
      fun v => v.start + v.areaSize = p + n).length < s.updatedArea.length →
    (afterWriteLoop pt p n fuel i s b).2 = buffer
  | 0, i, _, h1, h2, _, _, _ => absurd h2 (by omega)
  | fuel + 1, i, s, h1, h2, ⟨u, hu, hup⟩, hfirst, hcount => by
    unfold afterWriteLoop
    by_cases hi : i = own
    · subst hi
      rw [hu]
      dsimp only
      rw [if_pos hup, hb]
      have hidem : poke buffer signatureOffset fvSignature = buffer := by
        rw [← hb]
        exact (holds_poke _ _ _).poke_eq
      split <;> exact afterWriteLoop_buffer hidem fuel (i + 1) _
    · have hlt : i < own := by omega
      obtain ⟨hown, -⟩ := List.getElem?_eq_some_iff.mp hu
      have hget : s.updatedArea[i]? = some s.updatedArea[i] := List.getElem?_eq_getElem (by omega)
      have hstart := hfirst i (Nat.le_refl _) hlt _ hget
      rw [List.drop_eq_getElem_cons (by rw [List.length_take]; omega), List.getElem_take] at hcount
      rw [hget]
      dsimp only
      rw [if_neg hstart]
      split
      next hend =>
        rw [List.filter_cons_of_pos (by simpa using hend), List.length_cons] at hcount
        have hlen := removeArea_length hget
        have hsame : ∀ j, i < j → j ≤ own →
            (removeArea s.updatedArea i)[j]? = s.updatedArea[j]? :=
          fun j h3 h4 => removeArea_getElem? h3 (by omega)
        have hfront : ((removeArea s.updatedArea i).take own).drop (i + 1)
            = (s.updatedArea.take own).drop (i + 1) := by
          refine List.ext_getElem? fun j => ?_
          rw [List.getElem?_drop, List.getElem?_drop, List.getElem?_take, List.getElem?_take]
          split
          next hj => exact hsame _ (by omega) (by omega)
          next => rfl
        refine afterWriteLoop_own own hb fuel (i + 1) _ (by omega) (by omega)
          ⟨u, (hsame own hlt (Nat.le_refl _)).trans hu, hup⟩ (fun j h3 h4 w hw => ?_) ?_
        · exact hfirst j (by omega) h4 w ((hsame j (by omega) (by omega)).symm.trans hw)
        · change own + (((removeArea s.updatedArea i).take own).drop (i + 1) |>.filter _).length
            < (removeArea s.updatedArea i).length
          rw [hfront]
          omega
      next hend =>
        rw [List.filter_cons_of_neg (by simpa using hend)] at hcount
        exact afterWriteLoop_own own hb fuel (i + 1) s (by omega) (by omega) ⟨u, hu, hup⟩
          (fun j h3 h4 => hfirst j (by omega) h4) hcount

/-! ## BeforeWrite -/

/-- What `BeforeWrite` does to an area whose volume header is written. -/
def withheld (buffer : Mem) (v : UpdatedArea) : UpdatedArea :=
  { v with areaSize := rd buffer 8 fvLengthOffset % 2 ^ 32, restoreSignature := true }

theorem withheld_start (buffer : Mem) (v : UpdatedArea) : (withheld buffer v).start = v.start := by
  unfold withheld UpdatedArea.start
  dsimp only

/-- `BeforeWrite` finds no area, or the first one that starts here and removes it or
withholds its signature. -/
theorem beforeWrite_cases (pt : Part) (s : Driver) (p n : Nat) (buffer : Mem) :
    ((∀ v ∈ s.updatedArea, v.start ≠ p) ∧ beforeWrite pt s p n buffer = (s, buffer)) ∨
    ∃ own v, s.updatedArea[own]? = some v ∧ v.start = p ∧
      (∀ j, j < own → ∀ u, s.updatedArea[j]? = some u → u.start ≠ p) ∧
      ((isFvHeader n buffer = false ∧ beforeWrite pt s p n buffer
          = ({ s with updatedArea := removeArea s.updatedArea own }, buffer)) ∨
        (isFvHeader n buffer = true ∧ beforeWrite pt s p n buffer
          = ({ s with updatedArea := s.updatedArea.modify own (withheld buffer) },
              poke buffer signatureOffset (List.replicate 4 pt.empty)))) := by
  cases hfind : s.updatedArea.findIdx? (·.start = p) with
  | none =>
    refine Or.inl ⟨fun v hv => ?_, ?_⟩
    · simpa using List.findIdx?_eq_none_iff.mp hfind v hv
    · unfold beforeWrite
      rw [hfind]
  | some own =>
    obtain ⟨hlt, hown, hfirst⟩ := List.findIdx?_eq_some_iff_getElem.mp hfind
    refine Or.inr ⟨own, s.updatedArea[own], List.getElem?_eq_getElem hlt, by simpa using hown,
      fun j hj u hu => ?_, ?_⟩
    · obtain ⟨hlt', rfl⟩ := List.getElem?_eq_some_iff.mp hu
      simpa using hfirst j hj
    · unfold beforeWrite
      rw [hfind]
      cases hfv : isFvHeader n buffer with
      | false => exact Or.inl ⟨rfl, rfl⟩
      | true => exact Or.inr ⟨rfl, rfl⟩

/-- The other areas, next to the one that is found. -/
theorem modify_perm (f : UpdatedArea → UpdatedArea) {areas : List UpdatedArea}
    (h : areas[own]? = some v) :
    ∃ rest, areas.Perm (v :: rest) ∧ (areas.modify own f).Perm (f v :: rest) := by
  obtain ⟨hlt, rfl⟩ := List.getElem?_eq_some_iff.mp h
  refine ⟨areas.take own ++ areas.drop (own + 1), ?_, ?_⟩
  · have hsplit : areas = areas.take own ++ areas[own] :: areas.drop (own + 1) := by simp
    calc areas = areas.take own ++ areas[own] :: areas.drop (own + 1) := hsplit
      _ |>.Perm (areas[own] :: (areas.take own ++ areas.drop (own + 1))) := List.perm_middle
  · rw [List.modify_eq_take_cons_drop hlt]
    exact List.perm_middle

/-- The one area that starts here is gone when it is removed. -/
theorem HookClean.removed {areas : List UpdatedArea} (h : HookClean areas p n buffer)
    (hfv : isFvHeader n buffer = false) (hown : areas[own]? = some v)
    (hv : v.start = p) : ∀ u ∈ removeArea areas own, u.start ≠ p := by
  intro u hu hup
  have hperm := (removeArea_perm hown).filter (·.start = p)
  have hlen := hperm.length_eq
  rw [List.filter_cons_of_pos (by simpa using hv), List.length_cons] at hlen
  have hpos : 0 < ((removeArea areas own).filter (·.start = p)).length :=
    List.length_pos_of_mem (List.mem_filter.mpr ⟨hu, by simpa using hup⟩)
  have := h.once hfv
  omega

theorem fvHeader_size (h : isFvHeader n buffer = true) : sizeofFvHeader ≤ n := by
  unfold isFvHeader at h
  simp only [Bool.and_eq_true, decide_eq_true_eq] at h
  exact h.1

theorem fvHeader_holds (h : isFvHeader n buffer = true) :
    Holds buffer signatureOffset fvSignature := by
  unfold isFvHeader at h
  simp only [Bool.and_eq_true, beq_iff_eq] at h
  rw [← h.2]
  exact holds_peek _ _ _

/-- The hooks of a write restore the buffer, whatever is done to the flash between. -/
theorem hooks_buffer {s' : Driver} (h : HookClean s.updatedArea p n buffer)
    (hs' : s'.updatedArea = (beforeWrite pt s p n buffer).1.updatedArea) :
    (afterWrite pt s' p n (beforeWrite pt s p n buffer).2).2 = buffer := by
  unfold afterWrite
  obtain ⟨hnone, heq⟩ | ⟨own, v, hown, hv, hfirst, ⟨hfv, heq⟩ | ⟨hfv, heq⟩⟩ :=
    beforeWrite_cases pt s p n buffer
  · rw [heq] at hs' ⊢
    exact afterWriteLoop_none _ _ _ (by rw [hs']; exact hnone)
  · rw [heq] at hs' ⊢
    exact afterWriteLoop_none _ _ _ (by rw [hs']; exact h.removed hfv hown hv)
  · rw [heq] at hs' ⊢
    dsimp only at hs'
    have hlt : own < s'.updatedArea.length := by
      rw [hs', List.length_modify]
      exact (List.getElem?_eq_some_iff.mp hown).1
    obtain ⟨hin, hget⟩ := List.getElem?_eq_some_iff.mp hown
    have hfind : s.updatedArea.findIdx? (·.start = p) = some own :=
      List.findIdx?_eq_some_iff_getElem.mpr ⟨hin, by simpa [hget] using hv,
        fun j hj => by simpa using hfirst j hj _ (List.getElem?_eq_getElem _)⟩
    have hcount := h.header hfv own hfind
    have hfront : (s.updatedArea.modify own (withheld buffer)).take own
        = s.updatedArea.take own := by
      rw [List.modify_eq_take_cons_drop hin,
        List.take_left' (List.length_take_of_le (by omega))]
    refine afterWriteLoop_own own ?_ s'.updatedArea.length 0 s' (Nat.zero_le _) (by omega)
      ⟨withheld buffer v, ?_, (withheld_start _ _).trans hv⟩ (fun j _ hj u hu => ?_) ?_
    · rw [poke_poke (by simp [fvSignature])]
      exact (fvHeader_holds hfv).poke_eq
    · rw [hs', List.getElem?_modify_eq, hown]
      rfl
    · rw [hs', List.getElem?_modify_ne _ _ (by omega : own ≠ j)] at hu
      exact hfirst j hj u hu
    · rw [List.drop_zero, hs', hfront, List.length_modify]
      exact hcount

end

end BayTrail.Flash
