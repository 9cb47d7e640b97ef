import BayTrail.Flash.Hooks

/-!
# The flash driver: the deferred signatures

What has been logically written is what the flash would be without the hooks. The
invariant `Agrees`: the flash, once everything owed is programmed, is what has been
logically written. Each function of the protocol is shown to keep it.
-/

namespace BayTrail.Flash

open BayTrail.Lib

/-! ## Calls -/

inductive Call where
  | enable
  | disable
  | erase (p size : Nat)
  | write (p size : Nat) (buffer : Mem)
  | update (p size : Nat) (buffer : Mem)

section

variable (pt : Part) (romLayout : List RomArea)

/-- The driver after a call. -/
def Driver.call (s : Driver) : Call → Driver
  | .enable => flashDriverDeviceWriteEnableExt s
  | .disable => flashDriverDeviceWriteDisableExt pt s
  | .erase p n => (flashDriverEraseExt pt romLayout s p n).2
  | .write p n b => (flashDriverWriteExt pt s p n b).2.1
  | .update p n b => (flashDriverUpdateExt pt romLayout s p n b).2.1

/-- The call leaves the caller's buffer as it was. -/
def Driver.KeepsBuffer (s : Driver) : Call → Prop
  | .write p n b => (flashDriverWriteExt pt s p n b).2.2 = b
  | .update p n b => (flashDriverUpdateExt pt romLayout s p n b).2.2 = b
  | _ => True

/-- The call is refused, or has nothing to do. -/
def refused (p n : Nat) : Prop := n = 0 ∨ block p ≠ p ∨ n % flashBlockSize ≠ 0

instance (p n : Nat) : Decidable (refused p n) := inferInstanceAs (Decidable (_ ∨ _ ∨ _))

/-- What has been logically written, after a call. -/
def logical (m : Mem) : Call → Mem
  | .enable => m
  | .disable => m
  | .erase p n =>
    if refused p n then m else fun a => if p ≤ a ∧ a < p + n then pt.empty else m a
  | .write p n b => flashProgram pt m p b 0 n
  | .update p n b =>
    if refused p n then m else fun a => if p ≤ a ∧ a < p + n then b (a - p) else m a

/-! ## The condition -/

/-- The condition on a call in a state: an erase does not reach a signature that is owed;
a write leaves the areas clean, and other data does not take the place of a signature that
is owed; an update leaves them clean, and what it puts where the signature of another
area is owed has the bits of that signature. -/
def Call.Clean (s : Driver) : Call → Prop
  | .enable => True
  | .disable => True
  | .erase p n => ¬ refused p n → ∀ v ∈ s.updatedArea, v.restoreSignature = true →
      ∀ a, v.signature ≤ a → a < v.signature + 4 → ¬ (p ≤ a ∧ a < p + n)
  | .write p n b => n ≠ 0 → HookClean s.updatedArea p n b ∧
      (isFvHeader n b = false → ∀ v ∈ s.updatedArea, v.start = p → v.restoreSignature = false)
  | .update p n b => ¬ refused p n →
      HookClean (noted romLayout s.updatedArea p) p n b ∧
      ∀ v ∈ s.updatedArea, v.restoreSignature = true → v.start ≠ p →
        ∀ a, p ≤ a → a < p + n → v.signature ≤ a → a < v.signature + 4 →
          pt.program (b (a - p)) (signatureAt pt v a) = b (a - p)

/-! ## The invariant -/

/-- The flash with all that is owed is what has been logically written. -/
def Agrees (s : Driver) (m : Mem) : Prop := ∀ a, settle pt s.updatedArea a (s.flash a) = m a


end

section

variable {pt : Part} {romLayout : List RomArea} {s : Driver} {m buffer : Mem} {p n a : Nat}
  {v : UpdatedArea}

@[simp] theorem flashDriverWrite_areas (s : Driver) (p n : Nat) (data : Mem) :
    (flashDriverWrite pt s p n data).updatedArea = s.updatedArea := rfl

theorem flashDriverWrite_flash (s : Driver) (p n : Nat) (data : Mem) :
    (flashDriverWrite pt s p n data).flash = flashProgram pt s.flash p data 0 n := writeBytes_eq

theorem writeSignature_flash (s : Driver) (v : UpdatedArea) (a : Nat) :
    (writeSignature pt s v).flash a = pt.program (s.flash a) (signatureAt pt v a) := by
  unfold writeSignature
  rw [flashDriverWrite_flash]
  unfold flashProgram signatureAt
  rw [Nat.zero_add]
  split
  next => rfl
  next => rw [pt.empty_program]

/-! ## Restoring -/

/-- Removing an area whose signature is programmed, and was owed or is there already. -/
theorem Agrees.restore (h : Agrees pt s m) {i : Nat} (hv : s.updatedArea[i]? = some v)
    (hr : v.restoreSignature = true ∨ ∀ a, pt.program (m a) (signatureAt pt v a) = m a) :
    Agrees pt { writeSignature pt s v with updatedArea := removeArea s.updatedArea i } m := by
  intro a
  have ha := h a
  rw [settle_perm (removeArea_perm hv), settle_cons'] at ha
  change settle pt (removeArea s.updatedArea i) a ((writeSignature pt s v).flash a) = m a
  rw [writeSignature_flash, settle_program]
  cases hres : v.restoreSignature with
  | true => rwa [owed_of_restore hres] at ha
  | false =>
    rw [owed_of_not hres, pt.empty_program] at ha
    rw [ha]
    exact (hr.resolve_left (by simp [hres])) a

theorem afterWriteLoop_agrees : ∀ (fuel i : Nat) (s : Driver) (buffer : Mem), Agrees pt s m →
    (∀ v ∈ s.updatedArea, v.start + v.areaSize = p + n →
      v.restoreSignature = true ∨ ∀ a, pt.program (m a) (signatureAt pt v a) = m a) →
    Agrees pt (afterWriteLoop pt p n fuel i s buffer).1 m
  | 0, _, _, _, h, _ => h
  | fuel + 1, i, s, buffer, h, hr => by
    unfold afterWriteLoop
    split
    next => exact h
    next v hv =>
      extract_lets b s'
      split
      next hend =>
        refine afterWriteLoop_agrees fuel (i + 1) _ b
          (h.restore hv (hr v (List.mem_of_getElem? hv) hend)) fun u hu => ?_
        exact hr u (mem_of_mem_removeArea hu)
      next => exact afterWriteLoop_agrees fuel (i + 1) s b h hr

/-! ## Writes -/

theorem signatureAt_out (h : ¬ (v.signature ≤ a ∧ a < v.signature + 4)) :
    signatureAt pt v a = pt.empty := by
  unfold signatureAt
  rw [if_neg h]

/-- A byte of a buffer that starts with a volume header for the area. -/
theorem signatureAt_buffer (hfv : isFvHeader n buffer = true) (hv : v.start = p)
    (ha : v.signature ≤ a ∧ a < v.signature + 4) : signatureAt pt v a = buffer (a - p) := by
  have hholds := holds_iff_get.mp (fvHeader_holds hfv) (a - v.signature)
    (by change a - v.signature < 4; omega)
  have hidx : signatureOffset + (a - v.signature) = a - p := by
    unfold UpdatedArea.signature at *
    omega
  rw [hidx] at hholds
  unfold signatureAt
  rw [if_pos ha, hholds]
  unfold bufferOf
  rw [List.getD_eq_getElem?_getD, List.getElem?_eq_getElem (by change a - v.signature < 4; omega)]
  rfl

/-- The bytes that are written where the signature is withheld. -/
theorem withheld_buffer (hv : v.start = p) :
    poke buffer signatureOffset (List.replicate 4 pt.empty) (a - p)
      = if v.signature ≤ a ∧ a < v.signature + 4 then pt.empty else buffer (a - p) := by
  have hsig : v.signature = p + signatureOffset := by
    unfold UpdatedArea.signature
    rw [hv]
  split
  next ha =>
    have hholds := holds_iff_get.mp
      (holds_poke buffer signatureOffset (List.replicate 4 pt.empty)) (a - v.signature)
      (by rw [List.length_replicate]; omega)
    have hidx : signatureOffset + (a - v.signature) = a - p := by omega
    rwa [List.getElem_replicate, hidx] at hholds
  next ha =>
    have hout : a - p < signatureOffset ∨ signatureOffset + 4 ≤ a - p := by
      unfold signatureOffset at *
      omega
    exact poke_of_out (by rwa [List.length_replicate])

theorem program_self (pt : Part) (d : UInt8) : pt.program d d = d := by
  have := pt.program_idem pt.empty d
  rwa [pt.program_empty] at this

theorem owed_cases (pt : Part) (v : UpdatedArea) (a : Nat) :
    owed pt v a = signatureAt pt v a ∨ owed pt v a = pt.empty := by
  unfold owed
  split
  · exact Or.inl rfl
  · exact Or.inr rfl

/-- What a write leaves to be settled, before the areas that end with it are restored. -/
theorem write_agrees (h : Agrees pt s m)
    (hdrop : isFvHeader n buffer = false →
      ∀ v ∈ s.updatedArea, v.start = p → v.restoreSignature = false) :
    let r := beforeWrite pt s p n buffer
    Agrees pt (flashDriverWrite pt r.1 p n r.2) (flashProgram pt m p buffer 0 n) := by
  intro r a
  have ha := h a
  rw [flashDriverWrite_flash, flashDriverWrite_areas]
  unfold flashProgram
  simp only [Nat.zero_add]
  obtain ⟨-, heq⟩ | ⟨own, v, hown, hv, -, ⟨hfv, heq⟩ | ⟨hfv, heq⟩⟩ :=
    beforeWrite_cases pt s p n buffer
  · have hr : r = (s, buffer) := heq
    rw [hr]
    dsimp only
    split
    next => rw [settle_program, ha]
    next => exact ha
  · have hr : r = ({ s with updatedArea := removeArea s.updatedArea own }, buffer) := heq
    have hsame : ∀ x, settle pt (removeArea s.updatedArea own) a x = settle pt s.updatedArea a x := by
      intro x
      rw [settle_perm (removeArea_perm hown), settle_cons',
        owed_of_not (hdrop hfv v (List.mem_of_getElem? hown) hv), pt.empty_program]
    rw [hr]
    dsimp only
    rw [hsame]
    split
    next => rw [settle_program, ha]
    next => exact ha
  · obtain ⟨rest, hperm, hperm'⟩ := modify_perm (withheld buffer) hown
    have hr : r = ({ s with updatedArea := s.updatedArea.modify own (withheld buffer) },
        poke buffer signatureOffset (List.replicate 4 pt.empty)) := heq
    rw [hr]
    dsimp only
    have howed : owed pt (withheld buffer v) a = signatureAt pt v a := by
      rw [owed_of_restore rfl, signatureAt_congr (withheld_start _ _)]
    rw [settle_perm hperm', settle_cons', howed, withheld_buffer hv]
    rw [settle_perm hperm, settle_cons'] at ha
    by_cases hsig : v.signature ≤ a ∧ a < v.signature + 4
    · have hin : p ≤ a ∧ a < p + n := by
        have := fvHeader_size hfv
        unfold UpdatedArea.signature signatureOffset sizeofFvHeader at *
        omega
      rw [if_pos hin, if_pos hin, if_pos hsig, pt.empty_program, ← ha,
        ← signatureAt_buffer hfv hv hsig]
      rcases owed_cases pt v a with ho | ho
      · rw [ho, pt.program_idem]
      · rw [ho, pt.empty_program]
    · rw [owed_of_out hsig, pt.empty_program] at ha
      rw [signatureAt_out hsig, pt.empty_program, if_neg hsig]
      split
      next => rw [settle_program, ha]
      next => exact ha

/-- The areas that end with the write can be restored once it is done: their signature is
owed, or it has just been written. -/
theorem HookClean.restorable {s' : Driver} (h : HookClean s.updatedArea p n buffer)
    (hs' : s'.updatedArea = (beforeWrite pt s p n buffer).1.updatedArea)
    (hm : isFvHeader n buffer = true → ∀ u : UpdatedArea, u.start = p →
      ∀ a, pt.program (m a) (signatureAt pt u a) = m a) :
    ∀ u ∈ s'.updatedArea, u.start + u.areaSize = p + n →
      u.restoreSignature = true ∨ ∀ a, pt.program (m a) (signatureAt pt u a) = m a := by
  intro u hu hend
  rw [hs'] at hu
  obtain ⟨hnone, heq⟩ | ⟨own, v, hown, hv, -, ⟨hfv, heq⟩ | ⟨hfv, heq⟩⟩ :=
    beforeWrite_cases pt s p n buffer
  · rw [heq] at hu
    exact Or.inl (h.restore u hu (hnone u hu) hend)
  · rw [heq] at hu
    exact Or.inl (h.restore u (mem_of_mem_removeArea hu) (h.removed hfv hown hv u hu) hend)
  · by_cases hup : u.start = p
    · exact Or.inr (hm hfv u hup)
    · rw [heq] at hu
      obtain ⟨rest, hperm, hperm'⟩ := modify_perm (withheld buffer) hown
      rcases List.mem_cons.mp (hperm'.mem_iff.mp hu) with rfl | hrest
      · exact absurd ((withheld_start _ _).trans hv) hup
      · exact Or.inl (h.restore u (hperm.mem_iff.mpr (List.mem_cons_of_mem _ hrest)) hup hend)

/-- A write of a volume header has written the signature. -/
theorem program_signature {m' : Mem} (hfv : isFvHeader n buffer = true) (hv : v.start = p)
    (hm' : ∀ a, p ≤ a ∧ a < p + n → m' a = buffer (a - p) ∨ ∃ x, m' a = pt.program x (buffer (a - p)))
    (a : Nat) : pt.program (m' a) (signatureAt pt v a) = m' a := by
  by_cases hsig : v.signature ≤ a ∧ a < v.signature + 4
  · rw [signatureAt_buffer hfv hv hsig]
    have hin : p ≤ a ∧ a < p + n := by
      have := fvHeader_size hfv
      unfold UpdatedArea.signature signatureOffset sizeofFvHeader at *
      omega
    rcases hm' a hin with h | ⟨x, h⟩
    · rw [h, program_self]
    · rw [h, pt.program_idem]
  · rw [signatureAt_out hsig, pt.empty_program]

theorem flashDriverWriteExt_agrees (h : Agrees pt s m)
    (hc : (Call.write p n buffer).Clean pt romLayout s) :
    Agrees pt (s.call pt romLayout (.write p n buffer)) (logical pt m (.write p n buffer))
      ∧ s.KeepsBuffer pt romLayout (.write p n buffer) := by
  change Agrees pt (flashDriverWriteExt pt s p n buffer).2.1 (flashProgram pt m p buffer 0 n)
    ∧ (flashDriverWriteExt pt s p n buffer).2.2 = buffer
  unfold flashDriverWriteExt
  by_cases hn : n = 0
  · subst hn
    rw [if_pos rfl, flashProgram_zero]
    exact ⟨h, rfl⟩
  · rw [if_neg hn]
    obtain ⟨hclean, hdrop⟩ := hc hn
    refine ⟨?_, hooks_buffer hclean rfl⟩
    refine afterWriteLoop_agrees _ 0 _ _ (write_agrees h hdrop)
      (hclean.restorable rfl fun hfv u hu => program_signature hfv hu fun a ha => Or.inr ?_)
    unfold flashProgram
    rw [if_pos ha, Nat.zero_add]
    exact ⟨_, rfl⟩

/-! ## Erases and updates -/

/-- `BeforeErase` touches nothing but the signature of the volume. -/
theorem beforeErase_flash (s : Driver) (p : Nat)
    (ha : ¬ (p + signatureOffset ≤ a ∧ a < p + signatureOffset + 4)) :
    (beforeErase pt romLayout s p).flash a = s.flash a := by
  unfold beforeErase
  split
  next => rfl
  next =>
    split
    next => rfl
    next area harea =>
      split
      next => rfl
      next =>
        rw [flashDriverWrite_flash]
        unfold flashProgram
        rw [if_neg ha]

theorem settle_noted (areas : List UpdatedArea) (p a : Nat) (x : UInt8) :
    settle pt (noted romLayout areas p) a x = settle pt areas a x := by
  rcases noted_cases romLayout areas p with h | ⟨v, -, hv, h⟩
  · rw [h]
  · rw [h, settle_append, settle_cons, settle_nil, owed_of_not hv, pt.empty_program]

theorem size_of_not_refused (h : ¬ refused p n) :
    flashBlockSize ≤ n ∧ n / flashBlockSize * flashBlockSize = n := by
  unfold refused at h
  rw [not_or, not_or, not_not, not_not] at h
  obtain ⟨h0, -, hmod⟩ := h
  unfold flashBlockSize at *
  omega

theorem flashDriverEraseExt_agrees (h : Agrees pt s m) (hc : (Call.erase p n).Clean pt romLayout s) :
    Agrees pt (s.call pt romLayout (.erase p n)) (logical pt m (.erase p n)) := by
  change Agrees pt (flashDriverEraseExt pt romLayout s p n).2
    (if refused p n then m else fun a => if p ≤ a ∧ a < p + n then pt.empty else m a)
  unfold flashDriverEraseExt
  by_cases hr : refused p n
  · rw [if_pos hr]
    split
    next => exact h
    next hn =>
      rw [if_pos (hr.resolve_left hn)]
      exact h
  · obtain ⟨hsize, hmul⟩ := size_of_not_refused hr
    have hparts := not_or.mp hr
    rw [if_neg hr, if_neg hparts.1, if_neg hparts.2]
    intro a
    unfold flashDriverErase
    dsimp only
    rw [eraseLoop_eq, hmul, beforeErase_areas, settle_noted]
    dsimp only
    split
    next ha =>
      refine settle_eq fun v hv => ?_
      cases hres : v.restoreSignature with
      | true =>
        rw [owed_of_out fun hsig => hc hr v hv hres a hsig.1 hsig.2 ha, program_self]
      | false => rw [owed_of_not hres, program_self]
    next ha =>
      have hout : ¬ (p + signatureOffset ≤ a ∧ a < p + signatureOffset + 4) := by
        unfold signatureOffset flashBlockSize at *
        omega
      rw [beforeErase_flash s p hout]
      exact h a

/-- Where the signature of this area is not, `BeforeWrite` does not change what is owed. -/
theorem settle_beforeWrite (s : Driver) (p n : Nat) (buffer : Mem) {a : Nat}
    (ha : ¬ (p + signatureOffset ≤ a ∧ a < p + signatureOffset + 4)) (x : UInt8) :
    settle pt (beforeWrite pt s p n buffer).1.updatedArea a x = settle pt s.updatedArea a x := by
  have hout : ∀ u : UpdatedArea, u.start = p → owed pt u a = pt.empty := by
    rintro u rfl
    exact owed_of_out ha
  obtain ⟨-, heq⟩ | ⟨own, v, hown, hv, -, ⟨-, heq⟩ | ⟨-, heq⟩⟩ :=
    beforeWrite_cases pt s p n buffer
  · rw [heq]
  · rw [heq, settle_perm (removeArea_perm hown), settle_cons', hout v hv, pt.empty_program]
  · obtain ⟨rest, hperm, hperm'⟩ := modify_perm (withheld buffer) hown
    rw [heq, settle_perm hperm, settle_cons', hout v hv]
    dsimp only
    rw [settle_perm hperm', settle_cons', hout _ ((withheld_start _ _).trans hv)]

/-- A byte of an update, with all that is owed afterwards. -/
theorem settle_update {s₁ : Driver} (hclean : HookClean s₁.updatedArea p n buffer)
    (howed : ∀ v ∈ s₁.updatedArea, v.start ≠ p →
      pt.program (buffer (a - p)) (owed pt v a) = buffer (a - p)) :
    let r := beforeWrite pt s₁ p n buffer
    settle pt r.1.updatedArea a (r.2 (a - p)) = buffer (a - p) := by
  intro r
  obtain ⟨hnone, heq⟩ | ⟨own, v, hown, hv, -, ⟨hfv, heq⟩ | ⟨hfv, heq⟩⟩ :=
    beforeWrite_cases pt s₁ p n buffer
  · have hr : r = (s₁, buffer) := heq
    rw [hr]
    exact settle_eq fun u hu => howed u hu (hnone u hu)
  · have hr : r = ({ s₁ with updatedArea := removeArea s₁.updatedArea own }, buffer) := heq
    rw [hr]
    exact settle_eq fun u hu =>
      howed u (mem_of_mem_removeArea hu) (hclean.removed hfv hown hv u hu)
  · obtain ⟨rest, hperm, hperm'⟩ := modify_perm (withheld buffer) hown
    have hr : r = ({ s₁ with updatedArea := s₁.updatedArea.modify own (withheld buffer) },
        poke buffer signatureOffset (List.replicate 4 pt.empty)) := heq
    rw [hr]
    dsimp only
    have hfirst : owed pt (withheld buffer v) a = signatureAt pt v a := by
      rw [owed_of_restore rfl, signatureAt_congr (withheld_start _ _)]
    rw [settle_perm hperm', settle_cons, hfirst, withheld_buffer hv]
    -- the byte is the new one as soon as the withheld signature is programmed
    have hbyte : pt.program (if v.signature ≤ a ∧ a < v.signature + 4 then pt.empty
        else buffer (a - p)) (signatureAt pt v a) = buffer (a - p) := by
      split
      next hsig => rw [pt.program_empty, signatureAt_buffer hfv hv hsig]
      next hsig => rw [signatureAt_out hsig, pt.empty_program]
    rw [hbyte]
    refine settle_eq fun u hu => ?_
    by_cases hup : u.start = p
    · rcases owed_cases pt u a with ho | ho
      · rw [ho]
        by_cases hsig : u.signature ≤ a ∧ a < u.signature + 4
        · rw [signatureAt_buffer hfv hup hsig, program_self]
        · rw [signatureAt_out hsig, pt.empty_program]
      · rw [ho, pt.empty_program]
    · exact howed u (hperm.mem_iff.mpr (List.mem_cons_of_mem _ hu)) hup

theorem flashDriverUpdateExt_agrees (h : Agrees pt s m)
    (hc : (Call.update p n buffer).Clean pt romLayout s) :
    Agrees pt (s.call pt romLayout (.update p n buffer)) (logical pt m (.update p n buffer))
      ∧ s.KeepsBuffer pt romLayout (.update p n buffer) := by
  change Agrees pt (flashDriverUpdateExt pt romLayout s p n buffer).2.1
      (if refused p n then m else fun a => if p ≤ a ∧ a < p + n then buffer (a - p) else m a)
    ∧ (flashDriverUpdateExt pt romLayout s p n buffer).2.2 = buffer
  unfold flashDriverUpdateExt
  by_cases hr : refused p n
  · rw [if_pos hr]
    split
    next => exact ⟨h, rfl⟩
    next hn =>
      rw [if_pos (hr.resolve_left hn)]
      exact ⟨h, rfl⟩
  · obtain ⟨hsize, hmul⟩ := size_of_not_refused hr
    have hparts := not_or.mp hr
    obtain ⟨hclean, howed⟩ := hc hr
    have hareas := beforeErase_areas pt romLayout s p
    rw [← hareas] at hclean
    rw [if_neg hr, if_neg hparts.1, if_neg hparts.2]
    refine ⟨?_, hooks_buffer hclean rfl⟩
    refine afterWriteLoop_agrees _ 0 _ _ (fun a => ?_)
      (hclean.restorable rfl fun hfv u hu => program_signature hfv hu fun a ha => Or.inl ?_)
    · unfold flashDriverUpdate
      dsimp only
      rw [updateLoop_eq, hmul]
      simp only [Nat.zero_add]
      split
      next ha =>
        refine settle_update hclean fun v hv hvp => ?_
        rw [hareas] at hv
        cases hres : v.restoreSignature with
        | false => rw [owed_of_not hres, pt.empty_program]
        | true =>
          by_cases hsig : v.signature ≤ a ∧ a < v.signature + 4
          · rw [owed_of_restore hres]
            exact howed v (mem_noted hv (Or.inl hvp)) hres hvp a ha.1 ha.2 hsig.1 hsig.2
          · rw [owed_of_out hsig, pt.empty_program]
      next ha =>
        have hout : ¬ (p + signatureOffset ≤ a ∧ a < p + signatureOffset + 4) := by
          unfold signatureOffset flashBlockSize at *
          omega
        have hflash : (beforeWrite pt (beforeErase pt romLayout s p) p n buffer).1.flash a
            = s.flash a := by
          rw [← beforeErase_flash s p hout]
          unfold beforeWrite
          split
          next => rfl
          next => split <;> rfl
        rw [hflash, settle_beforeWrite _ _ _ _ hout, beforeErase_areas, settle_noted]
        exact h a
    · exact if_pos ha

/-! ## The end of the outermost enable -/

theorem restoreAll_spec : ∀ (areas : List UpdatedArea) (s : Driver) (a : Nat),
    (areas.foldl (fun s v => if v.restoreSignature then writeSignature pt s v else s) s).flash a
      = settle pt areas a (s.flash a)
  | [], _, _ => rfl
  | v :: areas, s, a => by
    rw [List.foldl_cons, restoreAll_spec areas, settle_cons]
    cases hres : v.restoreSignature with
    | false => rw [if_neg Bool.false_ne_true, owed_of_not hres, pt.empty_program]
    | true => rw [if_pos rfl, writeSignature_flash, owed_of_restore hres]

/-- The outermost disable programs all that is owed. -/
theorem disable_settles (h : Agrees pt s m) (hs : s.writeEnableStatus = 1) :
    (flashDriverDeviceWriteDisableExt pt s).flash = m := by
  unfold flashDriverDeviceWriteDisableExt deviceWriteDisable
  rw [hs]
  funext a
  exact (restoreAll_spec s.updatedArea _ a).trans (h a)

theorem disable_agrees (h : Agrees pt s m) : Agrees pt (flashDriverDeviceWriteDisableExt pt s) m := by
  intro a
  unfold flashDriverDeviceWriteDisableExt
  extract_lets status s' s''
  split
  next => exact (restoreAll_spec s.updatedArea _ a).trans (h a)
  next => exact h a

end

end BayTrail.Flash
