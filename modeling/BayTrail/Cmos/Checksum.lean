import Mathlib.Data.List.Nodup
import BayTrail.Cmos.Tokens

/-!
# The checksum of the CMOS manager

The checksum in the CMOS is kept up to date byte by byte. It is the sum of the managed registers
that are in neither table as long as the searches end in the tables, and as what is written is
counted in both ways of computing it or in none.
-/

namespace BayTrail.Cmos

variable {mgr : Mgr} {st st' : State} {r token behind : Nat} {value : BitVec 8} {table : List Nat}

/-! ## The two searches -/

/-- The tables are in order, and no managed register is mistaken for an entry for what stands
behind a table. -/
structure Tables (mgr : Mgr) : Prop where
  noChecksum_sorted : mgr.noChecksumTable.Pairwise (· ≤ ·)
  unmanaged_sorted : mgr.unmanagedTable.Pairwise (· ≤ ·)
  noChecksum_end : ∀ r ∈ mgr.managedRegisters, (∀ e ∈ mgr.noChecksumTable, e < r) →
    r ≠ mgr.behindNoChecksumTable
  unmanaged_end : ∀ r ∈ mgr.managedRegisters, (∀ e ∈ mgr.unmanagedTable, e < r) →
    r ≠ mgr.behindUnmanagedTable

/-- The managed registers that are checksummed. -/
def Mgr.checksummed (mgr : Mgr) : List Nat :=
  mgr.managedRegisters.filter fun r => r ∉ mgr.noChecksumTable ∧ r ∉ mgr.unmanagedTable

theorem search_eq (hsorted : table.Pairwise (· ≤ ·))
    (hend : (∀ e ∈ table, e < r) → r ≠ behind) : r = searchTable r behind table ↔ r ∈ table := by
  unfold searchTable
  cases hfind : table.find? (r ≤ ·) with
  | none =>
    have hlt : ∀ e ∈ table, e < r := by
      intro e he
      have := List.find?_eq_none.mp hfind e he
      simpa using this
    constructor
    · intro heq
      exact absurd heq (hend hlt)
    · intro hmem
      exact absurd (hlt r hmem) (Nat.lt_irrefl r)
  | some e =>
    obtain ⟨hle, front, back, hsplit, hfront⟩ := List.find?_eq_some_iff_append.mp hfind
    have hle : r ≤ e := of_decide_eq_true hle
    constructor
    · intro heq
      have : r = e := heq
      rw [this, hsplit]
      simp
    · intro hmem
      rw [hsplit] at hmem hsorted
      obtain hmem | hmem := List.mem_append.mp hmem
      · exact absurd (hfront r hmem) (by simp)
      · obtain heq | hmem := List.mem_cons.mp hmem
        · exact heq
        · have hback := (List.pairwise_append.mp hsorted).2.1
          exact Nat.le_antisymm hle (List.rel_of_pairwise_cons hback hmem)

theorem counted_iff (h : Tables mgr) (hr : r ∈ mgr.managedRegisters) :
    counted mgr r = true ↔ r ∉ mgr.noChecksumTable ∧ r ∉ mgr.unmanagedTable := by
  unfold counted
  rw [Bool.not_eq_true', decide_eq_false_iff_not,
    search_eq h.noChecksum_sorted (h.noChecksum_end r hr),
    search_eq h.unmanaged_sorted (h.unmanaged_end r hr), not_or]

theorem checksummed_eq (h : Tables mgr) :
    mgr.checksummed = mgr.managedRegisters.filter (counted mgr) := by
  apply List.filter_congr
  intro r hr
  rw [Bool.eq_iff_iff, decide_eq_true_iff]
  exact (counted_iff h hr).symm

theorem mem_checksummed (h : Tables mgr) :
    r ∈ mgr.checksummed ↔ r ∈ mgr.managedRegisters ∧ counted mgr r = true := by
  rw [checksummed_eq h, List.mem_filter]

theorem checksummed_nodup : mgr.checksummed.Nodup :=
  (List.nodup_range' ..).filter _

/-! ## The whole sum -/

/-- What a register counts for. -/
def registerValue (mgr : Mgr) (st : State) (r : Nat) : BitVec 16 :=
  (cmosReadRegister mgr st r (mgr.unset r)).setWidth 16

def sumOf (f : Nat → BitVec 16) (registers : List Nat) : BitVec 16 :=
  registers.foldr (fun r sum => f r + sum) 0

/-- The sum of the managed registers that are checksummed. -/
def registerSum (mgr : Mgr) (st : State) : BitVec 16 :=
  sumOf (registerValue mgr st) mgr.checksummed

theorem dropWhile_lt {a b : Nat} (hab : a ≤ b) :
    (table.dropWhile (· < a)).dropWhile (· < b) = table.dropWhile (· < b) := by
  induction table with
  | nil => rfl
  | cons e table ih =>
    by_cases hea : e < a
    · have heb : e < b := Nat.lt_of_lt_of_le hea hab
      simp only [List.dropWhile_cons, decide_eq_true hea, decide_eq_true heb, if_true]
      exact ih
    · simp only [List.dropWhile_cons, decide_eq_false hea, Bool.false_eq_true, if_false]

theorem head_dropWhile : (table.dropWhile (· < r)).head?.getD behind = searchTable r behind table := by
  unfold searchTable
  induction table with
  | nil => rfl
  | cons e table ih =>
    by_cases her : e < r
    · rw [List.find?_cons_of_neg (by simpa using her)]
      simpa only [List.dropWhile_cons, decide_eq_true her, if_true] using ih
    · rw [List.find?_cons_of_pos (by simpa using her)]
      simp only [List.dropWhile_cons, decide_eq_false her, Bool.false_eq_true, if_false]
      rfl

variable {registers : List Nat} {l : Location} {bitMap : Flag → Bool}

/-- The loop counts the registers that the search for one of them counts: what the searches have
passed by is below every register that comes. -/
theorem sumRegisters_eq (hsorted : registers.Pairwise (· < ·)) :
    ∀ {unmanaged noChecksum : List Nat} {checksum : BitVec 16},
    (∀ r ∈ registers, unmanaged.dropWhile (· < r) = mgr.unmanagedTable.dropWhile (· < r)) →
    (∀ r ∈ registers, noChecksum.dropWhile (· < r) = mgr.noChecksumTable.dropWhile (· < r)) →
    sumRegisters mgr st registers unmanaged noChecksum checksum =
      checksum + sumOf (registerValue mgr st) (registers.filter (counted mgr)) := by
  induction registers with
  | nil =>
    intro unmanaged noChecksum checksum _ _
    exact (BitVec.add_zero checksum).symm
  | cons r registers ih =>
    intro unmanaged noChecksum checksum hunmanaged hnoChecksum
    obtain ⟨hlt, hsorted⟩ := List.pairwise_cons.mp hsorted
    have hun := hunmanaged r List.mem_cons_self
    have hno := hnoChecksum r List.mem_cons_self
    have hunmanaged' : ∀ r' ∈ registers, (unmanaged.dropWhile (· < r)).dropWhile (· < r')
        = mgr.unmanagedTable.dropWhile (· < r') := by
      intro r' hr'
      rw [hun, dropWhile_lt (Nat.le_of_lt (hlt r' hr'))]
    have hrest : ∀ r' ∈ registers, noChecksum.dropWhile (· < r')
        = mgr.noChecksumTable.dropWhile (· < r') := fun r' hr' =>
      hnoChecksum r' (List.mem_cons_of_mem _ hr')
    have hnoChecksum' : ∀ r' ∈ registers, (noChecksum.dropWhile (· < r)).dropWhile (· < r')
        = mgr.noChecksumTable.dropWhile (· < r') := by
      intro r' hr'
      rw [hno, dropWhile_lt (Nat.le_of_lt (hlt r' hr'))]
    unfold sumRegisters
    dsimp only
    rw [show (unmanaged.dropWhile (· < r)).head?.getD mgr.behindUnmanagedTable = _ from
        (congrArg (fun l => l.head?.getD mgr.behindUnmanagedTable) hun).trans head_dropWhile,
      show (noChecksum.dropWhile (· < r)).head?.getD mgr.behindNoChecksumTable = _ from
        (congrArg (fun l => l.head?.getD mgr.behindNoChecksumTable) hno).trans head_dropWhile]
    by_cases hu : r = searchTable r mgr.behindUnmanagedTable mgr.unmanagedTable
    · have hcounted : counted mgr r = false := by simp [counted, ← hu]
      rw [if_pos hu, ih hsorted hunmanaged' hrest, List.filter_cons, hcounted]
      rfl
    · rw [if_neg hu]
      by_cases hn : r = searchTable r mgr.behindNoChecksumTable mgr.noChecksumTable
      · have hcounted : counted mgr r = false := by simp [counted, ← hn]
        rw [if_pos hn, ih hsorted hunmanaged' hnoChecksum', List.filter_cons, hcounted]
        rfl
      · have hcounted : counted mgr r = true := by simp [counted, hu, hn]
        rw [if_neg hn, ih hsorted hunmanaged' hnoChecksum', List.filter_cons, hcounted, if_pos rfl,
          BitVec.add_assoc]
        rfl

/-- The two ways of taking a register to be checksummed agree. -/
theorem sumChecksum_eq (h : Tables mgr) : sumChecksum mgr st = registerSum mgr st := by
  have hsorted : mgr.managedRegisters.Pairwise (· < ·) := List.pairwise_lt_range'
  unfold sumChecksum registerSum
  rw [sumRegisters_eq hsorted (fun _ _ => rfl) (fun _ _ => rfl), checksummed_eq h]
  exact BitVec.zero_add _

/-! ## One register of the sum -/

variable {f f' : Nat → BitVec 16}

theorem sumOf_congr (h : ∀ r ∈ registers, f' r = f r) :
    sumOf f' registers = sumOf f registers := by
  induction registers with
  | nil => rfl
  | cons r registers ih =>
    show f' r + sumOf f' registers = f r + sumOf f registers
    rw [h r List.mem_cons_self, ih fun r' hr' => h r' (List.mem_cons_of_mem _ hr')]

/-- A register that changes changes the sum by as much. -/
theorem sumOf_update (hnodup : registers.Nodup) (hr : r ∈ registers)
    (h : ∀ r' ∈ registers, r' ≠ r → f' r' = f r') :
    sumOf f' registers = sumOf f registers - f r + f' r := by
  induction registers with
  | nil => exact absurd hr List.not_mem_nil
  | cons r' registers ih =>
    obtain ⟨hnot, hnodup⟩ := List.nodup_cons.mp hnodup
    show f' r' + sumOf f' registers = f r' + sumOf f registers - f r + f' r
    by_cases heq : r' = r
    · subst heq
      rw [sumOf_congr fun r'' hr'' => h r'' (List.mem_cons_of_mem _ hr'') fun hh => hnot (hh ▸ hr''),
        BitVec.add_comm (f r'), BitVec.add_sub_cancel, BitVec.add_comm]
    · have hmem : r ∈ registers := (List.mem_cons.mp hr).resolve_left fun hh => heq hh.symm
      rw [ih hnodup hmem fun r'' hr'' => h r'' (List.mem_cons_of_mem _ hr''),
        h r' List.mem_cons_self heq, BitVec.sub_eq_add_neg, BitVec.sub_eq_add_neg]
      simp only [BitVec.add_assoc]

theorem bytes_of_sum (c : BitVec 16) :
    ((c >>> 8).setWidth 8).setWidth 16 <<< 8 ||| (c.setWidth 8).setWidth 16 = c := by
  apply BitVec.eq_of_getLsbD_eq
  intro i hi
  by_cases h8 : i < 8
  · simp [hi, h8]
  · have h16 : i - 8 < 8 := by omega
    have : 8 + (i - 8) = i := by omega
    simp [hi, h8, h16, this]

/-! ## Coherent states -/

/-- The registers that the checksum is about, and its own two. -/
def Protected (mgr : Mgr) (r : Nat) : Prop :=
  r ∈ mgr.checksummed ∨ r = cmosAddress mgr.cmosChecksumLow ∨ r = cmosAddress mgr.cmosChecksumHigh

/-- These registers are reached, each at a place of its own, and the checksum is not summed up. -/
structure Places (mgr : Mgr) (st : State) : Prop where
  tokens : ChecksumTokens mgr
  reached : ∀ r, Protected mgr r → ∃ l, At mgr st r l
  distinct : ∀ r r' l, Protected mgr r → Protected mgr r' → At mgr st r l → At mgr st r' l → r = r'
  low : cmosAddress mgr.cmosChecksumLow ∉ mgr.checksummed
  high : cmosAddress mgr.cmosChecksumHigh ∉ mgr.checksummed

/-- The checksum that is stored is the sum of the registers. -/
structure Coherent (mgr : Mgr) (st : State) : Prop where
  forceNoChecksum : st.status .forceNoChecksum = false
  stored : readChecksum mgr st 0 = registerSum mgr st

theorem At.back (h : Routed st st') (hl : At mgr st' r l) : At mgr st r l :=
  hl.congr h.location.symm

theorem Places.congr (h : Places mgr st) (hrouted : Routed st st') : Places mgr st' where
  tokens := h.tokens
  reached := fun r hr => by
    obtain ⟨l, hl⟩ := h.reached r hr
    exact ⟨l, hl.congr hrouted.location⟩
  distinct := fun r r' l hr hr' hl hl' => h.distinct r r' l hr hr' (hl.back hrouted) (hl'.back hrouted)
  low := h.low
  high := h.high

theorem Places.checksumAt (h : Places mgr st) : ∃ low high, ChecksumAt mgr st low high := by
  obtain ⟨low, hlow⟩ := h.reached _ (Or.inr (Or.inl rfl))
  obtain ⟨high, hhigh⟩ := h.reached _ (Or.inr (Or.inr rfl))
  refine ⟨low, high, hlow, hhigh, ?_⟩
  rintro rfl
  exact h.tokens.ne (h.distinct _ _ low (Or.inr (Or.inl rfl)) (Or.inr (Or.inr rfl)) hlow hhigh)

theorem registerValue_eq (h : At mgr st r l) :
    registerValue mgr st r = (st.get l).setWidth 16 := by
  unfold registerValue
  rw [cmosReadRegister_eq h.reads]

/-- Nothing of what the checksum is about changes. -/
def Spares (mgr : Mgr) (st st' : State) : Prop :=
  Routed st st' ∧ ∀ r l, Protected mgr r → At mgr st r l → st'.get l = st.get l

theorem Spares.refl (mgr : Mgr) (st : State) : Spares mgr st st := ⟨Routed.refl st, fun _ _ _ _ => rfl⟩

theorem Coherent.spared (h : Coherent mgr st) (hplaces : Places mgr st) (hspares : Spares mgr st st') :
    Coherent mgr st' := by
  obtain ⟨hrouted, hsame⟩ := hspares
  obtain ⟨low, high, hat⟩ := hplaces.checksumAt
  constructor
  · exact hrouted.forceNoChecksum.trans h.forceNoChecksum
  · have hsum : registerSum mgr st' = registerSum mgr st := by
      apply sumOf_congr
      intro r hr
      obtain ⟨l, hl⟩ := hplaces.reached r (Or.inl hr)
      rw [registerValue_eq hl, registerValue_eq (hl.congr hrouted.location),
        hsame r l (Or.inl hr) hl]
    rw [hsum, ← h.stored, readChecksum_eq hplaces.tokens hat,
      readChecksum_eq hplaces.tokens (hat.congr hrouted.location),
      hsame _ low (Or.inr (Or.inl rfl)) hat.atLow, hsame _ high (Or.inr (Or.inr rfl)) hat.atHigh]

/-- The place is none of those registers. -/
def Apart (mgr : Mgr) (st : State) (l : Location) : Prop := ∀ r, Protected mgr r → ¬ At mgr st r l

theorem Apart.congr (h : Apart mgr st l) (hrouted : Routed st st') : Apart mgr st' l :=
  fun r hr hl => h r hr (hl.back hrouted)

theorem spares_store (h : Apart mgr st l) (value : BitVec 8) :
    Spares mgr st (st.store value l) := by
  refine ⟨by constructor <;> rw [store_status], fun r l' hr hl' => ?_⟩
  rw [get_store, if_neg]
  rintro rfl
  exact h r hr hl'

/-! ## Writes -/

/-- A register written by its number is none of those that the checksum is about. -/
def NumberApart (mgr : Mgr) (st : State) (register : Nat) : Prop :=
  ∀ cell, cmosBank .writeType register mgr.cmosBank = some cell → Apart mgr st (.register cell)

/-- A write to a token that is found and fits is to a managed register, or is not counted and ends
somewhere else. -/
def KeepsSum (mgr : Mgr) (st : State) (cmosToken : Nat) (value : BitVec 8) : Prop :=
  if minTokenValue ≤ cmosToken then
    cmosToken ∈ mgr.tokenTable → bitFieldOverflow value cmosToken = false →
    if counted mgr (cmosAddress cmosToken) = true then cmosAddress cmosToken ∈ mgr.managedRegisters
    else ∀ l, location mgr st .writeType (cmosAddress cmosToken) = some l → Apart mgr st l
  else NumberApart mgr st cmosToken

theorem KeepsSum.congr (h : KeepsSum mgr st token value) (hrouted : Routed st st') :
    KeepsSum mgr st' token value := by
  unfold KeepsSum at h ⊢
  split
  · rename_i hmin
    rw [if_pos hmin] at h
    intro hmem hfits
    have h := h hmem hfits
    split
    · rename_i hcounted
      rwa [if_pos hcounted] at h
    · rename_i hcounted
      rw [if_neg hcounted] at h
      intro l hl
      exact (h l (hrouted.location ▸ hl)).congr hrouted
  · rename_i hmin
    rw [if_neg hmin] at h
    exact fun cell hcell => (h cell hcell).congr hrouted

/-- The sum and what is stored change by as much. -/
theorem coherent_counted (htables : Tables mgr) (hplaces : Places mgr st) (h : Coherent mgr st)
    (hmin : minTokenValue ≤ token) (hmem : token ∈ mgr.tokenTable)
    (hfits : bitFieldOverflow value token = false) (hcounted : counted mgr (cmosAddress token) = true)
    (hmanaged : cmosAddress token ∈ mgr.managedRegisters) :
    Coherent mgr (cmosWrite mgr st token value).2 ∧ Routed st (cmosWrite mgr st token value).2 := by
  obtain ⟨low, high, hat⟩ := hplaces.checksumAt
  have hin : cmosAddress token ∈ mgr.checksummed :=
    (mem_checksummed htables).mpr ⟨hmanaged, hcounted⟩
  obtain ⟨l, hl⟩ := hplaces.reached _ (Or.inl hin)
  obtain ⟨st', hrun, hrouted, hget⟩ :=
    write_counted hplaces.tokens hat hmin hmem h.forceNoChecksum hcounted hl hfits
  rw [hrun]
  refine ⟨⟨hrouted.forceNoChecksum.trans h.forceNoChecksum, ?_⟩, hrouted⟩
  have hbyte : ∀ r ∈ mgr.checksummed, ∀ l', At mgr st r l' → st'.get l' =
      if r = cmosAddress token then newValue (st.get l) token value else st.get l' := by
    intro r hr l' hl'
    have hlow : l' ≠ low := by
      rintro rfl
      exact hplaces.low
        (hplaces.distinct _ _ l' (Or.inl hr) (Or.inr (Or.inl rfl)) hl' hat.atLow ▸ hr)
    have hhigh : l' ≠ high := by
      rintro rfl
      exact hplaces.high
        (hplaces.distinct _ _ l' (Or.inl hr) (Or.inr (Or.inr rfl)) hl' hat.atHigh ▸ hr)
    rw [hget, if_neg hhigh, if_neg hlow]
    by_cases heq : r = cmosAddress token
    · subst heq
      rw [if_pos rfl, if_pos (Option.some.inj (hl'.reads.symm.trans hl.reads))]
    · rw [if_neg heq, if_neg]
      rintro rfl
      exact heq (hplaces.distinct _ _ l' (Or.inl hr) (Or.inl hin) hl' hl)
  have hsum : registerSum mgr st' = updatedSum mgr st (st.get l) (newValue (st.get l) token value) := by
    unfold registerSum
    rw [sumOf_update checksummed_nodup hin (f := registerValue mgr st)]
    · rw [registerValue_eq hl, registerValue_eq (hl.congr hrouted.location), hbyte _ hin l hl,
        if_pos rfl, updatedSum, h.stored]
      rfl
    · intro r hr hne
      obtain ⟨l', hl'⟩ := hplaces.reached r (Or.inl hr)
      rw [registerValue_eq hl', registerValue_eq (hl'.congr hrouted.location), hbyte r hr l' hl',
        if_neg hne]
  rw [hsum, readChecksum_eq hplaces.tokens (hat.congr hrouted.location), hget, if_pos rfl, hget,
    if_neg hat.ne, if_pos rfl]
  exact bytes_of_sum _

theorem spares_uncounted (h : Coherent mgr st) (hmin : minTokenValue ≤ token)
    (hmem : token ∈ mgr.tokenTable) (hfits : bitFieldOverflow value token = false)
    (hcounted : counted mgr (cmosAddress token) = false)
    (hapart : ∀ l, location mgr st .writeType (cmosAddress token) = some l → Apart mgr st l) :
    Spares mgr st (cmosWrite mgr st token value).2 := by
  obtain ⟨st', hrun, hrouted, hsame, -⟩ :=
    write_uncounted hmin hmem h.forceNoChecksum hcounted hfits
  rw [hrun]
  exact ⟨hrouted, fun r l hr hl => hsame l fun hw => hapart l hw r hr hl⟩

theorem coherent_write (htables : Tables mgr) (hplaces : Places mgr st) (h : Coherent mgr st)
    (hok : KeepsSum mgr st token value) :
    Coherent mgr (cmosWrite mgr st token value).2 ∧ Routed st (cmosWrite mgr st token value).2 := by
  have hspared : Spares mgr st (cmosWrite mgr st token value).2 →
      Coherent mgr (cmosWrite mgr st token value).2 ∧ Routed st (cmosWrite mgr st token value).2 :=
    fun hspares => ⟨h.spared hplaces hspares, hspares.1⟩
  unfold KeepsSum at hok
  by_cases hmin : minTokenValue ≤ token
  · rw [if_pos hmin] at hok
    by_cases hmem : token ∈ mgr.tokenTable
    · cases hfits : bitFieldOverflow value token
      · cases hcounted : counted mgr (cmosAddress token)
        · exact hspared (spares_uncounted h hmin hmem hfits hcounted (by simpa [hcounted] using hok hmem hfits))
        · exact coherent_counted htables hplaces h hmin hmem hfits hcounted
            (by simpa [hcounted] using hok hmem hfits)
      · apply hspared
        rw [write_refused hmin hmem hfits]
        exact Spares.refl mgr st
    · apply hspared
      rw [write_unknown hmin hmem]
      exact Spares.refl mgr st
  · rw [if_neg hmin] at hok
    apply hspared
    obtain heq | ⟨cell, hcell, heq⟩ := @write_number mgr st token value hmin
    · rw [heq]
      exact Spares.refl mgr st
    · rw [heq]
      exact spares_store (hok cell hcell) value

/-! ## Status -/

theorem Spares.trans {st'' : State} (h : Spares mgr st st') (h' : Spares mgr st' st'') :
    Spares mgr st st'' :=
  ⟨h.1.trans h'.1, fun r l hr hl => (h'.2 r l hr (hl.congr h.1.location)).trans (h.2 r l hr hl)⟩

theorem spares_bankWrite (h : NumberApart mgr st r) (value : BitVec 8) :
    Spares mgr st (bankWrite mgr st r value) := by
  unfold bankWrite
  cases hbank : cmosBank .writeType r mgr.cmosBank with
  | none => exact Spares.refl mgr st
  | some cell => exact spares_store (h cell hbank) value

theorem bankWrite_status : (bankWrite mgr st r value).status = st.status := by
  unfold bankWrite
  split <;> rfl

theorem spares_synchronize (bitMap : Flag → Bool) (set : Bool)
    (h : NumberApart mgr st cmosDiagnosticStatusRegister) :
    Spares mgr st (synchronizeLegacyStatusRegisters mgr bitMap set st) := by
  have hbit : ∀ bit st', Spares mgr st st' → Spares mgr st (synchronizeBit mgr bit set st') :=
    fun bit st' hst' => hst'.trans (spares_bankWrite (fun cell hcell => (h cell hcell).congr hst'.1) _)
  unfold synchronizeLegacyStatusRegisters
  dsimp only
  split <;> split
  · exact hbit _ _ (hbit _ _ (Spares.refl mgr st))
  · exact hbit _ _ (Spares.refl mgr st)
  · exact hbit _ _ (Spares.refl mgr st)
  · exact Spares.refl mgr st

theorem synchronize_status (bitMap : Flag → Bool) (set : Bool) :
    (synchronizeLegacyStatusRegisters mgr bitMap set st).status = st.status := by
  unfold synchronizeLegacyStatusRegisters
  dsimp only
  split <;> split <;> simp [synchronizeBit, bankWrite_status]

/-- The bits do not change where accesses go. -/
structure LeavesRoute (bitMap : Flag → Bool) : Prop where
  optimalDefaultsEnabled : bitMap .optimalDefaultsEnabled = false
  isUsable : bitMap .isUsable = false
  recoverOnlyChecksummed : bitMap .recoverOnlyChecksummed = false
  forceNoChecksum : bitMap .forceNoChecksum = false

theorem spares_status (h : LeavesRoute bitMap) {status : Flag → Bool}
    (hstatus : ∀ f, bitMap f = false → status f = st.status f) :
    Spares mgr st { st with status := status } := by
  refine ⟨⟨hstatus _ h.1, hstatus _ h.2, hstatus _ h.3, hstatus _ h.4⟩, ?_⟩
  intro r l _ _
  cases l <;> rfl

/-- Bits of the status are set or cleared, with the tokens and the register that go with them. -/
structure StatusOk (mgr : Mgr) (st : State) (bitMap : Flag → Bool) (set : Bool) : Prop where
  route : LeavesRoute bitMap
  tokens : set = true → st.status .isUsable = true →
    ∀ entry ∈ mgr.statusTokens, bitMap entry.1 = true → KeepsSum mgr st entry.2 1
  diagnostic : bitMap .badChecksum = true ∨ bitMap .badBattery = true →
    NumberApart mgr st cmosDiagnosticStatusRegister

theorem coherent_foldl (htables : Tables mgr) (hplaces : Places mgr st) (bitMap : Flag → Bool) :
    ∀ (entries : List (Flag × Nat)),
    (∀ entry ∈ entries, bitMap entry.1 = true → KeepsSum mgr st entry.2 1) →
    ∀ {st'}, Coherent mgr st' → Routed st st' →
    Coherent mgr (entries.foldl
      (fun st entry => if bitMap entry.1 then (cmosWrite mgr st entry.2 1).2 else st) st') ∧
    Routed st (entries.foldl
      (fun st entry => if bitMap entry.1 then (cmosWrite mgr st entry.2 1).2 else st) st') := by
  intro entries
  induction entries with
  | nil => exact fun _ _ hst' hrouted => ⟨hst', hrouted⟩
  | cons entry entries ih =>
    intro hok st' hst' hrouted
    have hrest : ∀ e ∈ entries, bitMap e.1 = true → KeepsSum mgr st e.2 1 :=
      fun e he => hok e (List.mem_cons_of_mem _ he)
    rw [List.foldl_cons]
    split
    · rename_i hbit
      obtain ⟨hnext, hnextRouted⟩ := coherent_write htables (hplaces.congr hrouted) hst'
        ((hok entry List.mem_cons_self hbit).congr hrouted)
      exact ih hrest hnext (hrouted.trans hnextRouted)
    · exact ih hrest hst' hrouted

theorem coherent_status (htables : Tables mgr) (hplaces : Places mgr st) (h : Coherent mgr st) {set : Bool} (hok : StatusOk mgr st bitMap set) :
    Coherent mgr (cmosManagerSetClearStatus mgr bitMap set st) ∧
      Routed st (cmosManagerSetClearStatus mgr bitMap set st) := by
  -- the bits and their tokens first
  obtain ⟨st', hst', hcoherent, hrouted⟩ : ∃ st', cmosManagerSetClearStatus mgr bitMap set st =
      (if bitMap .badChecksum || bitMap .badBattery then
        synchronizeLegacyStatusRegisters mgr bitMap set st' else st') ∧
      Coherent mgr st' ∧ Routed st st' := by
    cases set
    · have hspares : Spares mgr st { st with status := fun f => st.status f && !bitMap f } :=
        spares_status hok.route fun f hf => by simp [hf]
      exact ⟨_, rfl, h.spared hplaces hspares, hspares.1⟩
    · have hspares : Spares mgr st { st with status := fun f => st.status f || bitMap f } :=
        spares_status hok.route fun f hf => by simp [hf]
      have hset := h.spared hplaces hspares
      cases husable : st.status .isUsable
      · refine ⟨{ st with status := fun f => st.status f || bitMap f }, ?_, hset, hspares.1⟩
        unfold cmosManagerSetClearStatus
        simp [husable, hok.route.isUsable]
      · refine ⟨_, ?_, coherent_foldl htables hplaces bitMap mgr.statusTokens
          (hok.tokens rfl husable) hset hspares.1⟩
        unfold cmosManagerSetClearStatus
        simp [husable]
  rw [hst']
  split
  · rename_i hbits
    have hapart : NumberApart mgr st' cmosDiagnosticStatusRegister := fun cell hcell =>
      (hok.diagnostic (by simpa using hbits) cell hcell).congr hrouted
    have hspares := spares_synchronize bitMap set hapart
    exact ⟨hcoherent.spared (hplaces.congr hrouted) hspares, hrouted.trans hspares.1⟩
  · exact ⟨hcoherent, hrouted⟩

/-! ## Runs -/

inductive Call where
  | write (cmosToken : Nat) (value : BitVec 8)
  | status (bitMap : Flag → Bool) (set : Bool)
  | calculateChecksum

def Call.run (mgr : Mgr) (st : State) : Call → State
  | write cmosToken value => (cmosWrite mgr st cmosToken value).2
  | status bitMap set => cmosManagerSetClearStatus mgr bitMap set st
  | calculateChecksum => (Cmos.calculateChecksum mgr st).1

def Call.Ok (mgr : Mgr) (st : State) : Call → Prop
  | write cmosToken value => KeepsSum mgr st cmosToken value
  | status bitMap set => StatusOk mgr st bitMap set
  | calculateChecksum => NumberApart mgr st cmosDiagnosticStatusRegister

/-- States that calls lead to; `Ok` is what holds of each call. -/
inductive Calls (Ok : Mgr → State → Call → Prop) (mgr : Mgr) (st₀ : State) : State → Prop
  | start : Calls Ok mgr st₀ st₀
  | call {st : State} (c : Call) (hrun : Calls Ok mgr st₀ st) (hok : Ok mgr st c) :
      Calls Ok mgr st₀ (c.run mgr st)

/-- The stored checksum is the sum of the managed registers that are checksummed, so is what
`CalculateChecksum` computes, and it reports no bad checksum. -/
structure Agrees (mgr : Mgr) (st : State) : Prop where
  stored : readChecksum mgr st 0 = registerSum mgr st
  calculated : (calculateChecksum mgr st).2 = registerSum mgr st
  good : (calculateChecksum mgr st).1.status .badChecksum = false

theorem calculateChecksum_eq (htables : Tables mgr) (hplaces : Places mgr st) (h : Coherent mgr st) :
    calculateChecksum mgr st =
      (cmosManagerSetClearStatus mgr (· = .badChecksum) false st, registerSum mgr st) := by
  obtain ⟨low, high, hat⟩ := hplaces.checksumAt
  have hstored : readChecksum mgr st ((mgr.unset 0).setWidth 16) = registerSum mgr st := by
    rw [← h.stored, readChecksum_eq hplaces.tokens hat, readChecksum_eq hplaces.tokens hat]
  unfold calculateChecksum
  dsimp only
  rw [sumChecksum_eq htables, hstored, decide_eq_false (not_not.mpr rfl)]

theorem clear_badChecksum :
    (cmosManagerSetClearStatus mgr (· = .badChecksum) false st).status .badChecksum = false := by
  unfold cmosManagerSetClearStatus
  simp [synchronize_status]

theorem Coherent.agrees (htables : Tables mgr) (hplaces : Places mgr st) (h : Coherent mgr st) :
    Agrees mgr st := by
  have heq := calculateChecksum_eq htables hplaces h
  refine ⟨h.stored, ?_, ?_⟩
  · rw [heq]
  · rw [heq]
    exact clear_badChecksum

theorem coherent_call (htables : Tables mgr) (hplaces : Places mgr st) (h : Coherent mgr st)
    {c : Call} (hok : c.Ok mgr st) : Coherent mgr (c.run mgr st) ∧ Routed st (c.run mgr st) := by
  cases c with
  | write cmosToken value => exact coherent_write htables hplaces h hok
  | status bitMap set => exact coherent_status htables hplaces h hok
  | calculateChecksum =>
    show Coherent mgr (calculateChecksum mgr st).1 ∧ Routed st (calculateChecksum mgr st).1
    rw [calculateChecksum_eq htables hplaces h]
    have hroute : LeavesRoute (· = Flag.badChecksum) :=
      ⟨by decide, by decide, by decide, by decide⟩
    exact coherent_status htables hplaces h
      ⟨hroute, fun hset => absurd hset Bool.false_ne_true, fun _ => hok⟩

/-- The checksum after calls that each keep it. -/
theorem agrees_of_calls {st₀ : State} (htables : Tables mgr) (hplaces : Places mgr st₀)
    (hforce : st₀.status .forceNoChecksum = false)
    (hstored : readChecksum mgr st₀ 0 = sumChecksum mgr st₀)
    (h : Calls (fun mgr st c => c.Ok mgr st) mgr st₀ st) : Agrees mgr st := by
  have hinvariant : Coherent mgr st ∧ Routed st₀ st := by
    induction h with
    | start => exact ⟨⟨hforce, hstored.trans (sumChecksum_eq htables)⟩, Routed.refl st₀⟩
    | call c _ hok ih =>
      obtain ⟨hcoherent, hrouted⟩ := ih
      obtain ⟨hnext, hnextRouted⟩ := coherent_call htables (hplaces.congr hrouted) hcoherent hok
      exact ⟨hnext, hrouted.trans hnextRouted⟩
  exact hinvariant.1.agrees htables (hplaces.congr hinvariant.2)

theorem places_standard {banks : List Bank}
    (hbanks : mgr.cmosBank = ⟨0, 0, 0, 127, some readWriteStandardRange⟩ :: banks)
    (hphysical : st.status .optimalDefaultsEnabled = false) (htokens : ChecksumTokens mgr)
    (hchecksummed : ∀ r ∈ mgr.checksummed, r ≤ 127)
    (hlow : cmosAddress mgr.cmosChecksumLow ≤ 127) (hhigh : cmosAddress mgr.cmosChecksumHigh ≤ 127)
    (hlow' : cmosAddress mgr.cmosChecksumLow ∉ mgr.checksummed)
    (hhigh' : cmosAddress mgr.cmosChecksumHigh ∉ mgr.checksummed) : Places mgr st := by
  have hle : ∀ r, Protected mgr r → r ≤ 127 := by
    rintro r (hr | rfl | rfl)
    · exact hchecksummed r hr
    · exact hlow
    · exact hhigh
  exact ⟨htokens, fun r hr => ⟨_, standard_at hbanks hphysical (hle r hr)⟩,
    fun r r' l hr hr' => standard_distinct hbanks hphysical (hle r hr) (hle r' hr'), hlow', hhigh'⟩

/-- A token of the register that is checksummed is written. -/
theorem agrees_sample : Agrees sampleMgr (cmosWrite sampleMgr sampleState 0x3231 5).2 :=
  agrees_of_calls ⟨by decide, by decide, by decide, by decide⟩
    (places_standard rfl rfl ⟨by decide, by decide, by decide, by decide, by decide, by decide,
      by decide⟩ (by decide) (by decide) (by decide) (by decide) (by decide))
    rfl (by decide)
    (@Calls.call _ sampleMgr sampleState sampleState (.write 0x3231 5) .start
      (fun _ _ => (by decide : (0x46 : Nat) ∈ sampleMgr.managedRegisters)))

/-- As many unmanaged registers that their count, which stands behind the other table, is the
number of the register that is checksummed. -/
def crowdedMgr : Mgr :=
  { sampleMgr with
    cmosBank := [⟨0, 0, 0, 127, some readWriteStandardRange⟩, ⟨0x72, 0x73, 0x80, 0xff, none⟩]
    behindNoChecksumTable := 70
    unmanagedTable := List.range' 0x42 4 ++ List.range' 0x47 65
    lastCmosRegister := 0x87 }

/-- The register is written, and the checksum stays zero. -/
theorem not_agrees :
    ¬ ∀ mgr st₀ st, mgr.noChecksumTable.Pairwise (· ≤ ·) → mgr.unmanagedTable.Pairwise (· ≤ ·) →
      Places mgr st₀ → st₀.status .forceNoChecksum = false →
      readChecksum mgr st₀ 0 = sumChecksum mgr st₀ →
      Calls (fun mgr _ c => ∃ token ∈ mgr.tokenTable, ∃ value, c = .write token value) mgr st₀ st →
      Agrees mgr st := by
  intro h
  have hplaces : Places crowdedMgr sampleState :=
    places_standard rfl rfl ⟨by decide, by decide, by decide, by decide, by decide, by decide,
      by decide⟩ (by decide +kernel) (by decide) (by decide) (by decide +kernel) (by decide +kernel)
  have hagrees := h crowdedMgr sampleState _ (by decide) (by decide +kernel) hplaces rfl
    (by decide +kernel) (.call (.write 0x3231 5) .start ⟨0x3231, by decide, 5, rfl⟩)
  exact absurd hagrees.stored (by decide +kernel)

end BayTrail.Cmos
