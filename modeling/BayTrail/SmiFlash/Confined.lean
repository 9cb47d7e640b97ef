import BayTrail.SmiFlash.Handler
import BayTrail.SecureFlash.Authentic

/-!
# What the flash SMI handlers write

Every access of the handlers lies in a range that has been checked before, but for two: the first
store of `LoadFwImage`, and what `GetFlashInfo` puts behind its blocks. So it is exactly when these
two are made that the handlers are not confined.
-/

namespace BayTrail.SmiFlash

open Lib
open SecureFlash

theorem infoBlockSize_eq : infoBlockSize = 11536 := by decide

section GetFlashInfo

variable {B : Board} {m : Mem} {p : Nat} {ok : Nat → Nat → Bool} {own : Nat → Prop}
  {checked : List (Nat × Nat)}

theorem blockTypes_length : ∀ (n index : Nat) (ncbType : UInt8) (lastNcb : Nat),
    (B.blockTypes n index ncbType lastNcb).length = n := by
  intro n
  induction n with
  | zero => intro index ncbType lastNcb; rfl
  | succ n ih =>
    intro index ncbType lastNcb
    rw [Board.blockTypes]
    split
    · rw [List.length_cons, ih]
    · rw [List.length_cons, ih]

variable {x : Access} {q n : Nat}

/-- A store of nine bytes for one of the blocks. -/
theorem mem_blockStores (h : x ∈ blockStores B p) :
    ∃ i bs, i < numberOfBlocks ∧ x = .store (p + 16 + 9 * i) bs ∧ bs.length = 9 := by
  obtain ⟨⟨type, i⟩, hmem, rfl⟩ := List.mem_map.mp h
  have hi := List.snd_lt_of_mem_zipIdx hmem
  rw [blockTypes_length] at hi
  exact ⟨i, _, hi, rfl, rfl⟩

theorem mem_headerStores (h : x ∈ headerStores p) :
    ∃ q bs, x = .store q bs ∧ p ≤ q ∧ q + bs.length ≤ p + 16 := by
  simp only [headerStores, List.mem_cons, List.not_mem_nil, or_false] at h
  obtain rfl | rfl | rfl | rfl | rfl := h
  all_goals exact ⟨_, _, rfl, by omega, by simp⟩

theorem confined_headerStores (h : (p, infoBlockSize) ∈ checked) :
    Confined ok own checked (headerStores p) := by
  refine confined_stores fun x hx => ?_
  obtain ⟨q, bs, rfl, h1, h2⟩ := mem_headerStores hx
  have hsize := infoBlockSize_eq
  exact ⟨_, _, rfl, inside_of_mem h h1 (by omega)⟩

theorem confined_blockStores (h : (p, infoBlockSize) ∈ checked) :
    Confined ok own checked (blockStores B p) := by
  refine confined_stores fun x hx => ?_
  obtain ⟨i, bs, hi, rfl, hlen⟩ := mem_blockStores hx
  refine ⟨_, _, rfl, inside_of_mem h (by omega) ?_⟩
  unfold infoBlockSize
  omega

/-- Memory of the handlers' own. -/
def Own (own : Nat → Prop) (p n : Nat) : Prop := ∀ i < n, own (p + i)

theorem Own.sub {k : Nat} (h : Own own p n) (h1 : p ≤ q) (h2 : q + k ≤ p + n) : Own own q k := by
  intro i hi
  have := h (q - p + i) (by omega)
  rwa [show p + (q - p + i) = q + i by omega] at this

theorem own_add {a b : Nat} : Own own p (a + b) ↔ Own own p a ∧ Own own (p + a) b := by
  refine ⟨fun h => ⟨h.sub le_rfl (by omega), h.sub (by omega) (by omega)⟩, fun h i hi => ?_⟩
  by_cases hlt : i < a
  · exact h.1 i hlt
  · have := h.2 (i - a) (by omega)
    rwa [show p + a + (i - a) = p + i by omega] at this

/-- Behind the block of which only the block is checked. -/
theorem inside_behind (h : p + infoBlockSize < q + n) :
    Inside own [(p, infoBlockSize)] q n ↔ Own own q n := by
  refine ⟨fun hin => ?_, .inr⟩
  obtain ⟨r, hr, h1, h2⟩ | hown := hin
  · obtain rfl := List.mem_singleton.mp hr
    dsimp only at h2
    omega
  · exact hown

variable {length : Nat}

theorem mem_tagStores (h : x ∈ tagStores B length p) :
    ∃ q bs, x = .store q bs ∧ p + infoBlockSize ≤ q := by
  unfold tagStores at h
  split at h
  · simp only [List.mem_cons, List.not_mem_nil, or_false] at h
    obtain rfl | rfl | rfl := h
    all_goals exact ⟨_, _, rfl, by omega⟩
  · exact absurd h List.not_mem_nil

theorem mem_partStores (h : x ∈ partStores B length p) :
    ∃ q bs, x = .store q bs ∧ p + infoBlockSize ≤ q := by
  have hpart : p + infoBlockSize ≤ partAddress length p := Nat.le_add_right _ _
  unfold partStores at h
  split at h
  · cases hnum : B.flashPartNumber with
    | none =>
      rw [hnum] at h
      exact absurd h List.not_mem_nil
    | some part =>
      rw [hnum] at h
      simp only [List.mem_cons, List.not_mem_nil, or_false] at h
      obtain rfl | rfl | rfl := h
      all_goals exact ⟨_, _, rfl, by omega⟩
  · exact absurd h List.not_mem_nil

/-- The tag lies behind what has been checked. -/
theorem confined_tagStores :
    Confined ok own [(p, infoBlockSize)] (tagStores B length p) ↔
      (tagFits length p = true → Own own (p + infoBlockSize) 6) := by
  unfold tagStores
  split
  · rename_i hfits
    have hown : Own own (p + infoBlockSize) 6 ↔ Own own (p + infoBlockSize) 4 ∧
        Own own (p + infoBlockSize + 4) 1 ∧ Own own (p + infoBlockSize + 5) 1 := by
      rw [show 6 = 4 + (1 + 1) by rfl, own_add, own_add]
    have hstore : ∀ {q : Nat} {bs : Bytes}, p + infoBlockSize < q + bs.length →
        (Inside own [(p, infoBlockSize)] q bs.length ↔ Own own q bs.length) := inside_behind
    have h4 : p + infoBlockSize < p + infoBlockSize + 4 := by omega
    have h5 : p + infoBlockSize < p + infoBlockSize + 4 + 1 := by omega
    have h6 : p + infoBlockSize < p + infoBlockSize + 5 + 1 := by omega
    rw [confined_store, confined_store, confined_store, and_iff_left Confined.nil, hstore h4,
      hstore h5, hstore h6, hown]
    exact ⟨fun h _ => h, fun h => h hfits⟩
  · rename_i hfits
    exact ⟨fun _ h => absurd h hfits, fun _ => .nil⟩

/-- So does the description of the flash part. -/
theorem confined_partStores :
    Confined ok own [(p, infoBlockSize)] (partStores B length p) ↔
      (partFits length p = true → B.flashPartNumber ≠ none →
        Own own (partAddress length p) 56) := by
  have hpart : p + infoBlockSize < partAddress length p := by
    unfold partAddress
    split <;> omega
  unfold partStores
  split
  · rename_i hfits
    cases hnum : B.flashPartNumber with
    | none => exact ⟨fun _ _ h => absurd rfl h, fun _ => .nil⟩
    | some part =>
      have hown : Own own (partAddress length p) 56 ↔ Own own (partAddress length p) 4 ∧
          Own own (partAddress length p + 4) 4 ∧ Own own (partAddress length p + 8) 48 := by
        rw [show 56 = 4 + (4 + 48) by rfl, own_add, own_add]
      have hstore : ∀ {q : Nat} {bs : Bytes}, p + infoBlockSize < q + bs.length →
          (Inside own [(p, infoBlockSize)] q bs.length ↔ Own own q bs.length) := inside_behind
      rw [confined_store, confined_store, confined_store, and_iff_left Confined.nil,
        hstore (lt_of_lt_of_le hpart (Nat.le_add_right _ _)),
        hstore (by omega), hstore (by omega), hown, List.length_ofFn]
      exact ⟨fun h _ _ => h, fun h => h hfits (Option.some_ne_none part)⟩
  · rename_i hfits
    exact ⟨fun _ h => absurd h hfits, fun _ => .nil⟩

/-- What `GetFlashInfo` puts behind its blocks is the handlers' own. -/
structure InfoFits (own : Nat → Prop) (B : Board) (length p : Nat) : Prop where
  tag : tagFits length p = true → Own own (p + infoBlockSize) 6
  part : partFits length p = true → B.flashPartNumber ≠ none → Own own (partAddress length p) 56

theorem getFlashInfo_stores (h : x ∈ getFlashInfo B m p) : ∃ q bs, x = .store q bs := by
  unfold getFlashInfo at h
  obtain h | h := List.mem_append.mp h
  · obtain ⟨q, bs, rfl, -⟩ := mem_headerStores h
    exact ⟨q, bs, rfl⟩
  · split at h
    · exact ⟨_, _, List.mem_singleton.mp h⟩
    · split at h
      · obtain h | h := List.mem_append.mp h
        · obtain h | h := List.mem_append.mp h
          · obtain ⟨i, bs, -, rfl, -⟩ := mem_blockStores h
            exact ⟨_, _, rfl⟩
          · obtain ⟨q, bs, rfl, -⟩ := mem_tagStores h
            exact ⟨_, _, rfl⟩
        · obtain ⟨q, bs, rfl, -⟩ := mem_partStores h
          exact ⟨_, _, rfl⟩
      · exact absurd h List.not_mem_nil

theorem confined_getFlashInfo :
    Confined ok own [(p, infoBlockSize)] (getFlashInfo B m p) ↔
      (blocksFit (rd m 4 p) = true → B.pools = true → InfoFits own B (rd m 4 p) p) := by
  have hmem : (p, infoBlockSize) ∈ [(p, infoBlockSize)] := List.mem_singleton_self _
  have hblocks : checkedBy [(p, infoBlockSize)] (blockStores B p) = [(p, infoBlockSize)] :=
    checkedBy_stores fun x hx => by
      obtain ⟨i, bs, -, rfl, -⟩ := mem_blockStores hx
      exact ⟨_, _, rfl⟩
  have htag : checkedBy [(p, infoBlockSize)] (tagStores B (rd m 4 p) p) = [(p, infoBlockSize)] :=
    checkedBy_stores fun x hx => by
      obtain ⟨q, bs, rfl, -⟩ := mem_tagStores hx
      exact ⟨_, _, rfl⟩
  have hheader : checkedBy [(p, infoBlockSize)] (headerStores p) = [(p, infoBlockSize)] :=
    checkedBy_stores fun x hx => by
      obtain ⟨q, bs, rfl, -⟩ := mem_headerStores hx
      exact ⟨_, _, rfl⟩
  have hsize := infoBlockSize_eq
  unfold getFlashInfo
  dsimp only
  rw [confined_append, hheader, and_iff_right (confined_headerStores hmem)]
  split
  · rename_i hsmall
    refine ⟨fun _ h => ?_, fun _ => .store (inside_of_mem hmem (by omega) (by simp; omega)) .nil⟩
    rw [h] at hsmall
    exact absurd hsmall Bool.false_ne_true
  · rename_i hfits
    have hfits : blocksFit (rd m 4 p) = true := by simpa using hfits
    split
    · rename_i hpools
      rw [confined_append, confined_append, and_iff_right (confined_blockStores hmem), hblocks,
        checkedBy_append, hblocks, htag, confined_tagStores, confined_partStores]
      exact ⟨fun h _ _ => ⟨h.1, h.2⟩, fun h => ⟨(h hfits hpools).tag, (h hfits hpools).part⟩⟩
    · rename_i hpools
      exact ⟨fun _ _ h => absurd h hpools, fun _ => .nil⟩

/-! ## The hooks behind the handler -/

/-- `TotalBlocks` stays as `GetFlashInfo` has set it. -/
theorem totalBlocks_getFlashInfo : rd (runLog m (getFlashInfo B m p)) 2 (p + 6) = numberOfBlocks := by
  have hsize := infoBlockSize_eq
  -- what comes behind the header does not write it
  have hmisses : ∀ x ∈ (if !blocksFit (rd m 4 p) then [Access.store (p + 4) [1]]
      else if B.pools then
        blockStores B p ++ tagStores B (rd m 4 p) p ++ partStores B (rd m 4 p) p
      else []), ∀ a, p + 6 ≤ a → a < p + 8 → x.Misses a := by
    intro x hx a h1 h2
    split at hx
    · obtain rfl := List.mem_singleton.mp hx
      exact .inr (by simp; omega)
    · split at hx
      · obtain hx | hx := List.mem_append.mp hx
        · obtain hx | hx := List.mem_append.mp hx
          · obtain ⟨i, bs, -, rfl, -⟩ := mem_blockStores hx
            exact .inl (by omega)
          · obtain ⟨q, bs, rfl, hq⟩ := mem_tagStores hx
            exact .inl (by omega)
        · obtain ⟨q, bs, rfl, hq⟩ := mem_partStores hx
          exact .inl (by omega)
      · exact absurd hx List.not_mem_nil
  have hheader : rd (runLog m (headerStores p)) 2 (p + 6) = numberOfBlocks :=
    (holds_poke _ (p + 6) (leBytes 2 numberOfBlocks)).rd_eq_of_lt (by decide)
  unfold getFlashInfo
  rw [runLog_append, ← hheader]
  exact rd_congr fun a h1 h2 => runLog_of_misses (fun x hx => hmisses x hx a h1 (by omega)) _

variable {types : List (BlockRange × UInt8)}

/-- Such a hook writes the types of blocks only. -/
theorem mem_updateBlockTypeId {x : Access}
    (htotal : rd m 2 (p + 6) = numberOfBlocks) (hx : x ∈ updateBlockTypeId types m p) :
    ∃ i < numberOfBlocks, ∃ type, x = .store (p + 16 + 9 * i + 8) [type] := by
  obtain ⟨i, hi, hx⟩ := List.mem_flatMap.mp hx
  obtain ⟨t, -, hsome⟩ := List.mem_filterMap.mp hx
  obtain ⟨-, hsome⟩ := Option.ite_none_right_eq_some.mp hsome
  rw [List.mem_range, htotal] at hi
  exact ⟨i, hi, t.2, (Option.some.inj hsome).symm⟩

theorem confined_updateBlockTypeId (hmem : (p, infoBlockSize) ∈ checked)
    (htotal : rd m 2 (p + 6) = numberOfBlocks) :
    Confined ok own checked (updateBlockTypeId types m p) := by
  refine confined_stores fun x hx => ?_
  obtain ⟨i, hi, type, rfl⟩ := mem_updateBlockTypeId htotal hx
  refine ⟨_, _, rfl, inside_of_mem hmem (by omega) ?_⟩
  unfold infoBlockSize
  simp only [List.length_cons, List.length_nil]
  omega

theorem confined_endHandlerList (hmem : (p, infoBlockSize) ∈ checked)
    (htotal : rd m 2 (p + 6) = numberOfBlocks) : Confined ok own checked (endHandlerList B m p) := by
  have hstores : ∀ x ∈ oemActivationUpdateBlockTypeId B m p, ∃ i < numberOfBlocks, ∃ type,
      x = .store (p + 16 + 9 * i + 8) [type] := fun x hx => mem_updateBlockTypeId htotal hx
  unfold endHandlerList
  rw [confined_append, checkedBy_stores fun x hx => ?_]
  · refine ⟨confined_updateBlockTypeId hmem htotal, confined_updateBlockTypeId hmem ?_⟩
    rw [← htotal]
    refine rd_congr fun a h1 h2 => runLog_of_misses (fun x hx => ?_) m
    obtain ⟨i, -, type, rfl⟩ := hstores x hx
    exact Or.inl (by omega)
  · obtain ⟨i, -, type, rfl⟩ := hstores x hx
    exact ⟨_, _, rfl⟩

end GetFlashInfo

/-! ## Flash access -/

section Handlers

variable {Digest : Type} {P : Platform Digest} {B : Board} {m : Mem} {p data : Nat}
  {own : Nat → Prop} {checked : List (Nat × Nat)}

theorem confined_errorStore (h : (p, funcBlockSize) ∈ checked) :
    Inside own checked (p + 16) 1 := by
  refine inside_of_mem h (by omega) ?_
  unfold funcBlockSize
  omega

theorem confined_eraseFlash (h : (p, funcBlockSize) ∈ checked) :
    Confined P.validateMemoryBuffer own checked (eraseFlash P B m p) := by
  unfold eraseFlash
  dsimp only
  split
  · rename_i hok
    exact .checked hok (.device (.store (confined_errorStore (List.mem_cons_of_mem _ h)) .nil))
  · exact .nil

/-- Both ranges have been checked before what comes behind. -/
theorem confined_checkBoth {log : List Access}
    (h : Confined P.validateMemoryBuffer own
      ((bufAddr m p, blockSize m p) :: (flashAddr m p, blockSize m p) :: checked) log) :
    Confined P.validateMemoryBuffer own checked (checkBoth P m p log) := by
  unfold checkBoth
  split
  · rename_i hflash
    refine .checked hflash ?_
    split
    · rename_i hbuf
      exact .checked hbuf h
    · exact .nil
  · exact .nil

theorem confined_readFlash (h : (p, funcBlockSize) ∈ checked) :
    Confined P.validateMemoryBuffer own checked (readFlash P B m p) := by
  refine confined_checkBoth (.copy ?_ ?_ (.store ?_ .nil))
  · exact inside_of_mem List.mem_cons_self le_rfl le_rfl
  · exact inside_of_mem (List.mem_cons_of_mem _ List.mem_cons_self) le_rfl le_rfl
  · exact confined_errorStore (List.mem_cons_of_mem _ (List.mem_cons_of_mem _ h))

theorem confined_writeFlash (h : (p, funcBlockSize) ∈ checked) :
    Confined P.validateMemoryBuffer own checked (writeFlash P B m p) := by
  refine confined_checkBoth (.device (.store ?_ .nil))
  exact confined_errorStore (List.mem_cons_of_mem _ (List.mem_cons_of_mem _ h))

/-- The commands with a `FUNC_BLOCK`. -/
theorem confined_flashCommand (h : (p, funcBlockSize) ∈ checked) :
    Confined P.validateMemoryBuffer own checked (flashCommand P B m data p) := by
  unfold flashCommand
  split
  · exact confined_eraseFlash h
  · split
    · exact confined_readFlash h
    · split
      · exact confined_writeFlash h
      · exact .nil

theorem confined_funcBlockHandler :
    Confined P.validateMemoryBuffer own [] (funcBlockHandler P B m data p) := by
  unfold funcBlockHandler
  split
  · rename_i hok
    refine .checked hok (.store (confined_errorStore (List.mem_singleton_self _)) ?_)
    split
    · exact confined_flashCommand (List.mem_singleton_self _)
    · exact .nil
  · exact .nil

/-- What `GetFlashInfo` is asked, if its block is accepted. -/
def InfoProper (P : Platform Digest) (own : Nat → Prop) (B : Board) (m : Mem) (p : Nat) : Prop :=
  P.validateMemoryBuffer p infoBlockSize = true → blocksFit (rd m 4 p) = true → B.pools = true →
    InfoFits own B (rd m 4 p) p

theorem confined_infoBlockHandler :
    Confined P.validateMemoryBuffer own [] (infoBlockHandler P B m p) ↔ InfoProper P own B m p := by
  have hchecked : checkedBy [(p, infoBlockSize)] (getFlashInfo B m p) = [(p, infoBlockSize)] :=
    checkedBy_stores fun x hx => getFlashInfo_stores hx
  have hmem : (p, infoBlockSize) ∈ [(p, infoBlockSize)] := List.mem_singleton_self _
  have htotal : rd (runLog m (getFlashInfo B m p)) 2 (p + 6) = numberOfBlocks :=
    totalBlocks_getFlashInfo
  unfold infoBlockHandler InfoProper
  generalize runLog m (getFlashInfo B m p) = m' at htotal
  have hhook : Confined P.validateMemoryBuffer own [(p, infoBlockSize)]
      (endHandlerList B m' p) := confined_endHandlerList hmem htotal
  split
  · rename_i hok
    rw [confined_checked, confined_append, hchecked, confined_getFlashInfo]
    exact ⟨fun h _ => h.2.1, fun h => ⟨hok, h hok, hhook⟩⟩
  · rename_i hok
    exact ⟨fun _ h => absurd h hok, fun _ => .nil⟩

end Handlers

end BayTrail.SmiFlash
