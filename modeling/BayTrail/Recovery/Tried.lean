import BayTrail.Recovery.Volumes

/-!
# Each partition is tried once

The offsets that the calls of `FindNextPartition` come to, with `ProcessFatVolume` on each of them. On a
disk with 512-byte blocks these are the partitions up to the extended one and those in it, or those
of the entries up to the first empty one.
-/

namespace BayTrail.Recovery

open Lib (Bytes Mem peek rd)

variable {σ : Type} {d : Disk} {recover : Disk → Globals σ → Status × σ}

/-! ## Reading -/

variable {o n k base : Nat} {r : PartRec}

theorem peek_drop_take (m : Mem) (p : Nat) (h : o + n ≤ k) :
    ((peek m p k).drop o).take n = peek m (p + o) n := by
  obtain ⟨rest, rfl⟩ := Nat.exists_eq_add_of_le h
  rw [Nat.add_assoc, Lib.peek_add, List.drop_left' (Lib.peek_length ..), Lib.peek_add,
    List.take_left' (Lib.peek_length ..)]

theorem field_sectorAt (p : Nat) {w : Nat} (h : o + w ≤ 512) : field (d.sectorAt p) o w = rd d.bytes w (p + o) := by
  rw [field, Disk.sectorAt, peek_drop_take d.bytes p h, rd]

/-- What `ReadDevice` reads on the disk. -/
theorem readDevice_eq (hd : d.Addressable) {offset start : Nat} (h : start + offset + 512 ≤ d.size) :
    d.readDevice offset start 512 = some (d.sectorAt (start + offset)) := by
  have hsize := hd.size
  have hmod : (start + offset) % 2 ^ 64 = start + offset := Nat.mod_eq_of_lt (by omega)
  have hshift : 2 ^ (if d.blockSize = 4096 then 12 else if d.blockSize = 2048 then 11 else 9) = d.blockSize := by
    rcases hd.blockSize with hb | hb | hb <;> simp [hb]
  have hpos : 0 < d.blockSize := by
    have := hd.blockSize
    omega
  simp only [Disk.readDevice, hmod, hshift]
  generalize hn : start + offset = n at h
  have hsplit : n / d.blockSize * d.blockSize + n % d.blockSize = n := Nat.div_add_mod' n d.blockSize
  -- the blocks that are read end with the disk at the latest
  have hlast : (n % d.blockSize + 512 + d.blockSize - 1) / d.blockSize ≤ d.blocks - n / d.blockSize := by
    have hle : n / d.blockSize ≤ d.blocks := by
      rw [Nat.div_le_iff_le_mul_add_pred hpos, Nat.mul_comm]
      have : n ≤ d.blocks * d.blockSize := by
        unfold Disk.size at h
        omega
      omega
    have hsub : (d.blocks - n / d.blockSize) * d.blockSize = d.blocks * d.blockSize - n / d.blockSize * d.blockSize :=
      Nat.sub_mul ..
    rw [Nat.div_le_iff_le_mul_add_pred hpos, Nat.mul_comm d.blockSize, hsub]
    unfold Disk.size at h
    omega
  have hread : n / d.blockSize * d.blockSize + (n % d.blockSize + 512 + d.blockSize - 1) / d.blockSize * d.blockSize
      ≤ d.size := by
    have hle : n / d.blockSize ≤ d.blocks := by
      refine Nat.div_le_of_le_mul ?_
      rw [Nat.mul_comm]
      unfold Disk.size at h
      omega
    calc n / d.blockSize * d.blockSize + (n % d.blockSize + 512 + d.blockSize - 1) / d.blockSize * d.blockSize
        ≤ n / d.blockSize * d.blockSize + (d.blocks - n / d.blockSize) * d.blockSize :=
          Nat.add_le_add_left (Nat.mul_le_mul_right _ hlast) _
      _ = d.size := by rw [← Nat.add_mul, Nat.add_sub_cancel' hle, Disk.size]
  have htake : n % d.blockSize + 512 ≤ (n % d.blockSize + 512 + d.blockSize - 1) / d.blockSize * d.blockSize := by
    have := Nat.div_add_mod' (n % d.blockSize + 512 + d.blockSize - 1) d.blockSize
    have := Nat.mod_lt (n % d.blockSize + 512 + d.blockSize - 1) hpos
    omega
  rw [Disk.readBlocks, if_pos hread, Option.map_some, peek_drop_take _ _ htake, hsplit, Disk.sectorAt]

/-- A sector with a number that is on the disk. -/
theorem readDevice_sector (hd : d.Addressable) (hblock : d.blockSize = 512) {sector : Nat} (h : sector < d.blocks) :
    d.readDevice (512 * sector) 0 512 = some (d.table sector) := by
  have hsize : d.size = d.blocks * 512 := by rw [Disk.size, hblock]
  rw [readDevice_eq hd (by omega), Nat.zero_add, Disk.table, hblock]

theorem Disk.Addressable.readFirst (hd : d.Addressable) : d.readDevice 0 0 512 = some (d.table 0) := by
  have hsize : d.blockSize ≤ d.size := by
    have := Nat.mul_le_mul_right d.blockSize hd.blocks
    rwa [Nat.one_mul] at this
  have hblock := hd.blockSize
  exact readDevice_eq hd (by omega)

/-! ## Calls -/

variable (d recover) in
/-- The offsets that calls come to, up to the one that finds nothing more. -/
inductive Offsets : Globals σ → List Nat → Prop
  | notFound {g g' : Globals σ} (h : (findNextPartition d g).Returns (.notFound, g')) : Offsets g []
  | success {g g' : Globals σ} {l : List Nat} (h : (findNextPartition d g).Returns (.success, g'))
      (hrest : Offsets (processFatVolume d recover g').2 l) : Offsets g (g'.partitionOffset :: l)

theorem Offsets.unique {g : Globals σ} {l l' : List Nat} (h : Offsets d recover g l) (h' : Offsets d recover g l') :
    l = l' := by
  induction h generalizing l' with
  | notFound hcall =>
    cases h' with
    | notFound => rfl
    | success hcall' => cases hcall.unique hcall'
  | success hcall _ ih =>
    cases h' with
    | notFound hcall' => cases hcall.unique hcall'
    | success hcall' hrest' =>
      cases hcall.unique hcall'
      rw [ih hrest']

/-- Two states from which the next call does the same. -/
theorem Offsets.congr {g g' : Globals σ} {l : List Nat} (h : Offsets d recover g' l)
    (hcall : ∀ r, (findNextPartition d g').Returns r → (findNextPartition d g).Returns r) : Offsets d recover g l := by
  cases h with
  | notFound h => exact .notFound (hcall _ h)
  | success h hrest => exact .success (hcall _ h) hrest

variable (d recover) in
/-- `ProcessFatVolume` leaves the position of the search alone. -/
theorem processFatVolume_frame (g : Globals σ) :
    ∃ bs fat, (processFatVolume d recover g).2 = { g with bs := bs, fat := fat } := by
  unfold processFatVolume
  split
  · exact ⟨g.bs, g.fat, rfl⟩
  · rename_i s _
    dsimp only
    split
    · exact ⟨s, _, rfl⟩
    · exact ⟨s, g.fat, rfl⟩

/-! ## Record tables -/

/-- The search is at a record of a table. -/
structure At (g : Globals σ) (t : Bytes) (sector ext i : Nat) : Prop where
  isMbr : g.isMbr = true
  mbr : g.mbr = t
  partCount : g.partCount = i
  partSector : g.partSector = sector
  extOffset : g.extOffset = ext

variable {g g' : Globals σ} {t : Bytes} {sector ext i : Nat} {l : List Nat}

theorem At.process (h : At g t sector ext i) : At (processFatVolume d recover g).2 t sector ext i := by
  obtain ⟨bs, fat, heq⟩ := processFatVolume_frame d recover g
  rw [heq]
  exact ⟨h.isMbr, h.mbr, h.partCount, h.partSector, h.extOffset⟩

theorem findNextPartition_mbr (hg : g.isMbr = true) {r : Status × Globals σ} :
    (findNextPartition d g).Returns r ↔ ∃ e,
      (Lib.Run.loop (fun g => pure (mbrRound d g)) g).Returns e ∧ afterRecords d e = r := by
  simp only [findNextPartition, hg, if_true, Lib.Run.returns_bind, Lib.Run.returns_pure]

theorem Offsets.again (hg : g.isMbr = true) (hg' : g'.isMbr = true) (hround : mbrRound d g = .again g')
    (h : Offsets d recover g' l) : Offsets d recover g l := by
  refine h.congr fun r hr => ?_
  obtain ⟨e, hloop, he⟩ := (findNextPartition_mbr hg').mp hr
  exact (findNextPartition_mbr hg).mpr ⟨e, Lib.Run.loop_again (by rw [hround]; simp) hloop, he⟩

theorem Offsets.same (hg : g.isMbr = true) (hg' : g'.isMbr = true) (hround : mbrRound d g = mbrRound d g')
    (h : Offsets d recover g' l) : Offsets d recover g l := by
  refine h.congr fun r hr => ?_
  obtain ⟨e, hloop, he⟩ := (findNextPartition_mbr hg').mp hr
  refine (findNextPartition_mbr hg).mpr ⟨e, ?_, he⟩
  rw [Lib.Run.returns_loop] at hloop ⊢
  rwa [hround]

theorem findNextPartition_done (hg : g.isMbr = true) {status : Status} (hround : mbrRound d g = .done (some status, g')) :
    (findNextPartition d g).Returns (status, g') :=
  (findNextPartition_mbr hg).mpr ⟨(some status, g'), Lib.Run.loop_done (by rw [hround]; simp), rfl⟩

/-- Behind the last record. -/
theorem At.end (h : At g t sector ext 4) : Offsets d recover g [] := by
  have hround : mbrRound d g = .done (none, g) := by rw [mbrRound, h.partCount, if_neg (by omega)]
  have hcall : (findNextPartition d g).Returns (.notFound, g) :=
    (findNextPartition_mbr h.isMbr).mpr ⟨(none, g), Lib.Run.loop_done (by rw [hround]; simp), if_pos h.isMbr⟩
  exact .notFound hcall

theorem At.mbrRound_eq (h : At g t sector ext i) (hi : i < 4)
    (htype : ¬ (partRec t i).Extended ∧ (partRec t i).osType ≠ 0xEE) : mbrRound d g = mbrEntry g := by
  have hextended : ¬ ((partRec t i).osType = 5 ∨ (partRec t i).osType = 15) := htype.1
  rw [mbrRound, h.partCount, h.mbr, if_pos hi]
  dsimp only
  rw [if_neg htype.2, if_neg hextended]

theorem At.mbrRound_vacant (h : At g t sector ext i) (hi : i < 4) (hr : (partRec t i).Vacant) :
    mbrRound d g = .again { g with partCount := g.partCount + 1 } := by
  rw [h.mbrRound_eq hi hr.type, mbrEntry, h.partCount, h.mbr, if_pos]
  rcases hr.empty with hempty | hempty
  · exact Or.inl hempty
  · exact Or.inr (Or.inl hempty)

theorem At.next (h : At g t sector ext i) : At { g with partCount := g.partCount + 1 } t sector ext (i + 1) :=
  ⟨h.isMbr, h.mbr, congrArg Nat.succ h.partCount, h.partSector, h.extOffset⟩

theorem At.vacant (h : At g t sector ext i) (hi : i < 4) (hr : (partRec t i).Vacant)
    (hrest : ∀ g : Globals σ, At g t sector ext (i + 1) → Offsets d recover g l) : Offsets d recover g l :=
  Offsets.again h.isMbr h.next.isMbr (h.mbrRound_vacant hi hr) (hrest _ h.next)

/-- A record of a partition, or of none. -/
theorem At.plain (h : At g t sector ext i) (hi : i < 4) (hblock : d.blockSize = 512) (hr : (partRec t i).Plain sector)
    (hrest : ∀ g : Globals σ, At g t sector ext (i + 1) → Offsets d recover g l) :
    Offsets d recover g (d.starts sector (partRec t i) ++ l) := by
  unfold Disk.starts
  split
  · rename_i hempty
    exact h.vacant hi ⟨hr.type, hempty⟩ hrest
  · rename_i hempty
    obtain ⟨hstart, hsector⟩ := hr.start hempty
    have hused : ¬ ((partRec t i).osType = 0 ∨ (partRec t i).sizeInLba = 0 ∨ (partRec t i).startingLba = 0) := by
      rintro (hzero | hzero | hzero)
      · exact hempty (Or.inl hzero)
      · exact hempty (Or.inr hzero)
      · exact hstart hzero
    have hround : mbrRound d g = .done (some .success, { g with
        partitionOffset := 512 * (((partRec t i).startingLba + sector) % 2 ^ 32), partCount := i + 1 }) := by
      rw [h.mbrRound_eq hi hr.type, mbrEntry, h.partCount, h.mbr, h.partSector, if_neg hused]
    have hoffset : 512 * (((partRec t i).startingLba + sector) % 2 ^ 32)
        = d.blockSize * (sector + (partRec t i).startingLba) := by
      rw [hblock, Nat.add_comm, Nat.mod_eq_of_lt hsector]
    rw [List.singleton_append, ← hoffset]
    exact .success (findNextPartition_done h.isMbr hround)
      (hrest _ (At.process ⟨h.isMbr, h.mbr, rfl, h.partSector, h.extOffset⟩))

/-- An extended record: the search goes on at the start of the table it leads to. -/
theorem At.enter (hd : d.Addressable) (hblock : d.blockSize = 512) (h : At g t sector ext i) (hi : i < 4)
    (hr : (partRec t i).Extended) {sector' ext' : Nat}
    (hext : (if ext = 0 then (partRec t i).startingLba else ext) = ext')
    (hsector : (if ext = 0 then (partRec t i).startingLba else (ext + (partRec t i).startingLba) % 2 ^ 32) = sector')
    (hdisk : sector' < d.blocks) (htype : ¬ (partRec (d.table sector') 0).Extended ∧ (partRec (d.table sector') 0).osType ≠ 0xEE)
    (hrest : ∀ g : Globals σ, At g (d.table sector') sector' ext' 0 → Offsets d recover g l) : Offsets d recover g l := by
  have hread := readDevice_sector hd hblock hdisk
  -- the state in which the table that has been read is looked at
  obtain ⟨g', henter, hat⟩ : ∃ g', enterExtended d g = (.success, g') ∧ At g' (d.table sector') sector' ext' 0 := by
    refine ⟨{ g with
      extOffset := ext', partSector := sector', partitionOffset := 512 * sector', mbr := d.table sector', partCount := 0 },
      ?_, h.isMbr, rfl, rfl, rfl, rfl⟩
    unfold enterExtended
    dsimp only
    rw [h.partCount, h.mbr, h.extOffset, hext, hsector, hread]
  have hround : mbrRound d g = mbrRound d g' := by
    have hnot : (partRec t i).osType ≠ 0xEE := by
      rcases hr with hr | hr <;> omega
    have hextended : (partRec t i).osType = 5 ∨ (partRec t i).osType = 15 := hr
    rw [hat.mbrRound_eq (by omega) htype, mbrRound, h.partCount, h.mbr, if_pos hi]
    dsimp only
    rw [if_neg hnot, if_pos hextended, henter]
  exact Offsets.same h.isMbr hat.isMbr hround (hrest _ hat)

/-- The chain of the extended partition, from one of its tables on. -/
theorem logicals_offsets (hd : d.Addressable) (hblock : d.blockSize = 512) (hext : ext ≠ 0) (hl : d.Logicals ext sector l)
    {g : Globals σ} (hg : At g (d.table sector) sector ext 0) : Offsets d recover g l := by
  induction hl generalizing g with
  | @last sector hdisk h0 h1 h2 h3 =>
    rw [← List.append_nil (d.starts sector _)]
    refine hg.plain (by omega) hblock h0 fun g hg => ?_
    refine hg.vacant (by omega) h1 fun g hg => ?_
    refine hg.vacant (by omega) h2 fun g hg => ?_
    exact hg.vacant (by omega) h3 fun g hg => hg.end
  | @link sector l hdisk h0 h1 hsector hnext ih =>
    refine hg.plain (by omega) hblock h0 fun g hg => ?_
    -- the link counts from the start of the extended partition
    refine hg.enter hd hblock (by omega) h1 (if_neg hext) ?_ hnext.sector_lt hnext.type fun g hg => ih hg
    rw [if_neg hext, Nat.mod_eq_of_lt hsector]

/-- A table without a partition. -/
theorem At.unused (h : At g t sector ext 0) (hr : ∀ i, i < 4 → (partRec t i).Vacant) : Offsets d recover g [] := by
  refine h.vacant (by omega) (hr 0 (by omega)) fun g hg => ?_
  refine hg.vacant (by omega) (hr 1 (by omega)) fun g hg => ?_
  refine hg.vacant (by omega) (hr 2 (by omega)) fun g hg => ?_
  exact hg.vacant (by omega) (hr 3 (by omega)) fun g hg => hg.end

/-- From a record of the first table on, those behind an extended one are empty. -/
def EmptyBehind (d : Disk) (i : Nat) : Prop :=
  ∀ j k, i ≤ j → j < k → k < 4 → (partRec (d.table 0) j).Extended → (partRec (d.table 0) k).Empty

theorem starts_eq_nil : d.starts base r = [] ↔ r.Empty := by
  unfold Disk.starts
  split <;> simp [*]

theorem emptyBehind_of_extended (hi : i < 4) (hr : (partRec (d.table 0) i).Extended) :
    ((List.range' (i + 1) (3 - i)).flatMap fun k => d.starts 0 (partRec (d.table 0) k)) = [] ↔ EmptyBehind d i := by
  simp only [List.flatMap_eq_nil_iff, List.mem_range'_1, starts_eq_nil]
  constructor
  · intro h j k hij hjk hk _
    exact h k ⟨by omega, by omega⟩
  · intro h k hk
    exact h i k (Nat.le_refl i) (by omega) (by omega) hr

variable (recover) in
/-- The search in the first table: it gets to all partitions unless records behind an extended one
have some. -/
theorem slots_offsets (hd : d.Addressable) (hblock : d.blockSize = 512) (hl : d.Slots i l) :
    ∃ l', (∀ g : Globals σ, At g (d.table 0) 0 0 i → Offsets d recover g l') ∧ (l' = l ↔ EmptyBehind d i) := by
  induction hl with
  | done => exact ⟨[], fun g hg => hg.end, by simp only [true_iff]; intro j k; omega⟩
  | @plain i l hi hr hrest ih =>
    obtain ⟨l', hl', hiff⟩ := ih
    refine ⟨d.starts 0 (partRec (d.table 0) i) ++ l', fun g hg => hg.plain hi hblock hr hl', ?_⟩
    rw [List.append_cancel_left_eq, hiff]
    refine ⟨fun h j k hij hjk hk hj => ?_, fun h j k hij => h j k (by omega)⟩
    by_cases hji : j = i
    · exact absurd (hji ▸ hj) hr.type.1
    · exact h j k (by omega) hjk hk hj
  | @extended i l hi hr hstart hlogicals hrest =>
    refine ⟨l, fun g hg => ?_, ?_⟩
    · exact hg.enter hd hblock hi hr (if_pos rfl) (if_pos rfl) hlogicals.sector_lt hlogicals.type fun g hg =>
        logicals_offsets hd hblock hstart hlogicals hg
    · rw [List.self_eq_append_right]
      exact emptyBehind_of_extended hi hr

/-! ## GUID entries -/

/-- The sector of the entries that `FindNextPartition` takes to hold four of them. -/
def page (d : Disk) (k : Nat) : Bytes := d.sectorAt ((2 + k) * d.blockSize)

/-- The search is at an entry; the sector with it is there unless it is the next one. -/
structure AtEntry (d : Disk) (g : Globals σ) (i : Nat) : Prop where
  isMbr : g.isMbr = false
  gpeCount : g.gpeCount = d.entries
  partCount : g.partCount = i
  mbr : ¬ (i % 4 = 0 ∧ i ≠ 0) → g.mbr = page d (i / 4)

theorem findNextPartition_guid (hg : g.isMbr = false) {r : Status × Globals σ} :
    (findNextPartition d g).Returns r ↔ findGuid d g = r := by
  simp [findNextPartition, hg, afterRecords]

theorem AtEntry.process (h : AtEntry d g i) : AtEntry d (processFatVolume d recover g).2 i := by
  obtain ⟨bs, fat, heq⟩ := processFatVolume_frame d recover g
  rw [heq]
  exact ⟨h.isMbr, h.gpeCount, h.partCount, h.mbr⟩

theorem firstLba_page (hfrom : d.entriesLba = 2) (hi : i < 4 ∨ d.blockSize = 512) :
    firstLba (page d (i / 4)) (i % 4) = d.entryLba i := by
  have hmod : i % 4 < 4 := Nat.mod_lt i (by omega)
  have haddress : (2 + i / 4) * d.blockSize + (128 * (i % 4) + 32) = d.entry i + 32 := by
    unfold Disk.entry
    rw [hfrom]
    rcases hi with hi | hblock
    · rw [Nat.div_eq_of_lt hi, Nat.mod_eq_of_lt hi, Nat.mul_comm]
      omega
    · rw [hblock]
      omega
  rw [firstLba, page, field_sectorAt _ (by omega), haddress, Disk.entryLba]

theorem mul_mod_eq_zero (hd : d.Addressable) (hn : n < d.blocks) :
    n * d.blockSize % 2 ^ 64 = d.blockSize * n := by
  have hpos : 0 < d.blockSize := by
    have := hd.blockSize
    omega
  have hlt : n * d.blockSize < d.size := Nat.mul_lt_mul_of_pos_right hn hpos
  have hsize := hd.size
  rw [Nat.mod_eq_of_lt (by omega), Nat.mul_comm]

/-- The next sector of the entries is read when it is needed. -/
theorem AtEntry.turnPage (hd : d.GptDisk l) (hfrom : d.entriesLba = 2) (h : AtEntry d g i) (hi : i < d.entries)
    (hpage : i < 4 ∨ d.blockSize = 512) :
    ∃ g', turnPage d g = (.success, g') ∧ AtEntry d g' i ∧ g'.mbr = page d (i / 4) := by
  unfold Recovery.turnPage
  split
  · rename_i hnew
    rw [h.partCount] at hnew
    have hblock : d.blockSize = 512 := by omega
    have hto := hd.entriesTo
    have hread : d.readDevice 0 ((2 + i / 4) * d.blockSize) 512 = some (page d (i / 4)) := by
      refine readDevice_eq hd.toAddressable ?_
      unfold Disk.size at hto ⊢
      rw [hfrom, hblock] at hto
      rw [hblock]
      omega
    refine ⟨{ g with partitionOffset := 0, mbr := page d (i / 4) }, ?_, ⟨h.isMbr, h.gpeCount, h.partCount, fun _ => rfl⟩, rfl⟩
    dsimp only
    rw [h.partCount, hread]
  · rename_i hold
    rw [h.partCount] at hold
    exact ⟨g, rfl, h, h.mbr hold⟩

/-- One entry. -/
theorem AtEntry.entry (hd : d.GptDisk l) (hfrom : d.entriesLba = 2) (h : AtEntry d g i) (hi : i < d.entries)
    (hpage : i < 4 ∨ d.blockSize = 512) (hlba : d.entryLba i < d.blocks) :
    ∃ g', guidEntry d g = (if d.entryLba i = 0 then .notFound else .success, g') ∧ AtEntry d g' (i + 1)
      ∧ g'.partitionOffset = d.blockSize * d.entryLba i := by
  obtain ⟨g', hturn, hg', hmbr⟩ := h.turnPage hd hfrom hi hpage
  have hoffset : firstLba g'.mbr (i % 4) * d.blockSize % 2 ^ 64 = d.blockSize * d.entryLba i := by
    rw [hmbr, firstLba_page hfrom hpage, mul_mod_eq_zero hd.toAddressable hlba]
  have hpos : d.blockSize ≠ 0 := by
    have := hd.blockSize
    omega
  refine ⟨{ g' with partCount := i + 1, partitionOffset := d.blockSize * d.entryLba i }, ?_,
    ⟨hg'.isMbr, hg'.gpeCount, rfl, fun hnot => ?_⟩, rfl⟩
  · rw [guidEntry, h.partCount, h.gpeCount, if_pos hi]
    dsimp only
    rw [hturn]
    dsimp only
    rw [hoffset, hg'.partCount]
    simp only [Nat.mul_eq_zero, hpos, false_or]
  · -- the sector is left for the entries behind
    have hsame : (i + 1) / 4 = i / 4 := by omega
    rw [hsame]
    exact hmbr

/-- The offsets of the entries in front of the first unused one. -/
def gets (d : Disk) (i n : Nat) : List Nat :=
  ((List.range' i n).takeWhile fun i => d.Used i).map fun i => d.blockSize * d.entryLba i

/-- What the search needs of an entry. -/
structure Ready (d : Disk) (i : Nat) : Prop where
  page : i < 4 ∨ d.blockSize = 512
  unused : ¬ d.Used i → d.entryLba i = 0

/-- The search ends at the first unused entry. -/
theorem AtEntry.offsets (hd : d.GptDisk l) (hfrom : d.entriesLba = 2) (hn : i + n = d.entries)
    (hready : ∀ j, i ≤ j → j < d.entries → (∀ k, i ≤ k → k < j → d.Used k) → Ready d j)
    {g : Globals σ} (hg : g.isMbr = false) (hfind : findGuid d g = guidEntry d g') (h : AtEntry d g' i) :
    Offsets d recover g (gets d i n) := by
  induction n generalizing i g g' with
  | zero =>
    have hlast : guidEntry d g' = (.notFound, g') := by
      rw [guidEntry, if_neg]
      rw [h.partCount, h.gpeCount]
      omega
    exact .notFound ((findNextPartition_guid hg).mpr (hfind.trans hlast))
  | succ n ih =>
    have hi : i < d.entries := by omega
    have hr := hready i (Nat.le_refl i) hi fun k hk hk' => absurd hk (by omega)
    rw [gets, List.range'_succ]
    by_cases hused : d.Used i
    · obtain ⟨hlba, hblocks⟩ := hd.used i hi hused
      obtain ⟨g'', hentry, hg'', hoffset⟩ := h.entry hd hfrom hi hr.page hblocks
      rw [if_neg hlba] at hentry
      rw [List.takeWhile_cons_of_pos (by simpa using hused), List.map_cons, ← hoffset]
      refine .success ((findNextPartition_guid hg).mpr (hfind.trans hentry)) ?_
      have hnext : AtEntry d (processFatVolume d recover g'').2 (i + 1) := hg''.process
      refine ih (by omega) (fun j hj hj' hk => ?_) hnext.isMbr ?_ hnext
      · refine hready j (by omega) hj' fun k hk' hk'' => ?_
        by_cases hki : k = i
        · exact hki ▸ hused
        · exact hk k (by omega) hk''
      · rw [findGuid, if_neg]
        rw [hnext.partCount]
        omega
    · have hlba := hr.unused hused
      obtain ⟨g'', hentry, -⟩ := h.entry hd hfrom hi hr.page (by rw [hlba]; exact hd.blocks)
      rw [if_pos hlba] at hentry
      rw [List.takeWhile_cons_of_neg (by simpa using hused), List.map_nil]
      exact .notFound ((findNextPartition_guid hg).mpr (hfind.trans hentry))

/-- The header and the first entries are read where they are. -/
theorem openTable_eq (hd : d.GptDisk l) (hoffset : g.partitionOffset = 0) :
    openTable d g = (.success, { g with mbr := page d 0, gpeCount := d.entries }) := by
  have hto := hd.entriesTo
  have hfrom := hd.entriesFrom
  have hdisk := hd.onDisk
  -- at least three blocks
  have hsize : 3 * d.blockSize ≤ d.size := Nat.mul_le_mul_right _ (by omega)
  have hblock : 512 ≤ d.blockSize := by
    have := hd.blockSize
    omega
  have hheader : d.readDevice 0 d.blockSize 512 = some (d.sectorAt d.header) :=
    readDevice_eq hd.toAddressable (by omega)
  have hpage : d.readDevice 0 (2 * d.blockSize) 512 = some (page d 0) :=
    readDevice_eq hd.toAddressable (by omega)
  have hsignature : signature (d.sectorAt d.header) = [0x45, 0x46, 0x49] := by
    have h := congrArg (List.take 3) hd.signature
    have hpeek := peek_drop_take d.bytes d.header (show 0 + 3 ≤ 512 by omega)
    have hpeek' := peek_drop_take d.bytes d.header (show 0 + 3 ≤ 8 by omega)
    rw [List.drop_zero] at hpeek hpeek'
    rw [signature, Disk.sectorAt, hpeek, ← hpeek', hd.signature]
    rfl
  have hentries : entryCount (d.sectorAt d.header) = d.entries := field_sectorAt _ (by omega)
  have hentrySize : entrySize (d.sectorAt d.header) = 128 := by
    rw [entrySize, field_sectorAt _ (by omega), hd.entrySize]
  unfold openTable
  rw [hoffset, hheader]
  dsimp only
  rw [if_pos hsignature, hentries, hentrySize, hpage]
  rfl

/-- A protective record, with nothing but unused ones in front of it, turns the search to the entries. -/
theorem At.protective (h : At g t sector ext i) (hoffset : g.partitionOffset = 0) (hik : i ≤ k) (hk : k < 4)
    (htype : (partRec t k).osType = 0xEE) (hfront : ∀ j, i ≤ j → j < k → (partRec t j).Vacant) :
    ∃ g' : Globals σ, (∀ r, findGuid d g' = r → (findNextPartition d g).Returns r) ∧ g'.isMbr = false
      ∧ g'.partCount = 0 ∧ g'.partitionOffset = 0 := by
  obtain ⟨n, rfl⟩ := Nat.exists_eq_add_of_le hik
  induction n generalizing g i with
  | zero =>
    have hi : i < 4 := hk
    have htype : (partRec t i).osType = 0xEE := htype
    have hround : mbrRound d g = .done (none, { g with isMbr := false, partCount := 0 }) := by
      rw [mbrRound, h.partCount, h.mbr, if_pos hi]
      dsimp only
      rw [if_pos htype]
    refine ⟨{ g with isMbr := false, partCount := 0 }, fun r hr => ?_, rfl, rfl, hoffset⟩
    exact (findNextPartition_mbr h.isMbr).mpr
      ⟨(none, { g with isMbr := false, partCount := 0 }), Lib.Run.loop_done (by rw [hround]; simp), hr⟩
  | succ n ih =>
    have hsum : i + (n + 1) = i + 1 + n := by omega
    rw [hsum] at hk htype hfront
    have hround := h.mbrRound_vacant (d := d) (by omega) (hfront i (Nat.le_refl i) (by omega))
    obtain ⟨g', hfind, hg'⟩ := ih h.next hoffset (by omega) hk htype fun j hj hj' => hfront j (by omega) hj'
    refine ⟨g', fun r hr => ?_, hg'⟩
    obtain ⟨e, hloop, he⟩ := (findNextPartition_mbr h.next.isMbr).mp (hfind r hr)
    exact (findNextPartition_mbr h.isMbr).mpr ⟨e, Lib.Run.loop_again (by rw [hround]; simp) hloop, he⟩

variable (recover) in
/-- The search on a disk with GUID partitions. -/
theorem guids_offsets (hd : d.GptDisk l) (hfrom : d.entriesLba = 2)
    (hready : ∀ j, j < d.entries → (∀ k, k < j → d.Used k) → Ready d j)
    (hg : At g (d.table 0) 0 0 0) (hoffset : g.partitionOffset = 0) : Offsets d recover g (gets d 0 d.entries) := by
  obtain ⟨k, hk, htype, hfront⟩ := hd.protective
  obtain ⟨g', hfind, hisMbr, hcount, hoffset'⟩ :=
    hg.protective (d := d) hoffset (Nat.zero_le k) hk htype fun j _ hj => hfront j (by omega) (by omega)
  have hopen : findGuid d g' = guidEntry d { g' with mbr := page d 0, gpeCount := d.entries } := by
    rw [findGuid, if_pos hcount, openTable_eq hd hoffset']
  have hentry : Offsets d recover g' (gets d 0 d.entries) :=
    AtEntry.offsets hd hfrom (Nat.zero_add _) (fun j _ hj hused => hready j hj fun k hk => hused k (Nat.zero_le k) hk)
      hisMbr hopen ⟨hisMbr, rfl, hcount, fun _ => rfl⟩
  exact hentry.congr fun r hr => hfind r ((findNextPartition_guid hisMbr).mp hr)

/-! ## Where the search does come to all partitions -/

/-- A disk that is taken for one with GUID partitions. -/
def Protective (d : Disk) : Prop := ∃ k, k < 4 ∧ (partRec (d.table 0) k).osType = 0xEE

/-- No partition, or blocks of 512 bytes and no partition in a record behind the extended one. -/
def MbrMet (d : Disk) : Prop :=
  (∀ i, i < 4 → (partRec (d.table 0) i).Vacant) ∨ (d.blockSize = 512 ∧ EmptyBehind d 0)

/-- Entries from the third block on, four to a block unless the first four are enough; no entry is used
behind an unused one, and the first unused one has no address. -/
structure GptMet (d : Disk) : Prop where
  entriesFrom : d.entriesLba = 2
  page : d.blockSize = 512 ∨ d.entries ≤ 4 ∨ ∃ i, i < 4 ∧ ¬ d.Used i
  inFront : ∀ i j, i < j → j < d.entries → d.Used j → d.Used i
  unused : ∀ i, i < d.entries → (∀ j, j < i → d.Used j) → ¬ d.Used i → d.entryLba i = 0

/-- The disks of which each partition is tried. -/
def Met (d : Disk) : Prop := (Protective d → GptMet d) ∧ (¬ Protective d → MbrMet d)

/-- The usual layout, where no sector is read that is not a table: blocks of 512 bytes, and GUID entries
from the third block on which are all zero when they are not used. -/
structure Regular (d : Disk) : Prop where
  blockSize : d.blockSize = 512
  entriesFrom : Protective d → d.entriesLba = 2
  unused : Protective d → ∀ i, i < d.entries → ¬ d.Used i → d.entryLba i = 0

theorem slots_type (hl : d.Slots i l) (hik : i ≤ k) (hk : k < 4) : (partRec (d.table 0) k).osType ≠ 0xEE := by
  induction hl with
  | done => omega
  | @plain i l hi hr hrest ih =>
    by_cases hki : k = i
    · exact hki ▸ hr.type.2
    · exact ih (by omega)
  | @extended i l hi hr hstart hlogicals hrest =>
    by_cases hki : k = i
    · rw [hki]
      rcases hr with hr | hr <;> omega
    · exact (hrest k (by omega) hk).type.2

theorem not_protective (hd : d.MbrDisk l) : ¬ Protective d := by
  intro ⟨k, hk, htype⟩
  exact slots_type hd.slots (Nat.zero_le k) hk htype

theorem Disk.GptDisk.protects (hd : d.GptDisk l) : Protective d := by
  obtain ⟨k, hk, htype, -⟩ := hd.protective
  exact ⟨k, hk, htype⟩

/-- A table of unused records has no partitions. -/
theorem slots_vacant (hl : d.Slots i l) (hr : ∀ k, i ≤ k → k < 4 → (partRec (d.table 0) k).Vacant) : l = [] := by
  induction hl with
  | done => rfl
  | @plain i l hi _ hrest ih =>
    rw [starts_eq_nil.mpr (hr i (Nat.le_refl i) hi).empty, ih fun k hk => hr k (by omega)]
    rfl
  | @extended i l hi hext _ _ _ => exact absurd hext (hr i (Nat.le_refl i) hi).type.1

/-- What is in front of the first element without a property is all with it, when it holds of each
element that is behind one without it. -/
theorem map_filter_eq_map_takeWhile {α β : Type} (p : α → Bool) (f : α → β) (xs : List α) :
    (xs.takeWhile p).map f = (xs.filter p).map f ↔ xs.Pairwise fun a b => p b = true → p a = true := by
  induction xs with
  | nil => simp
  | cons x xs ih =>
    rw [List.pairwise_cons]
    by_cases hx : p x = true
    · rw [List.takeWhile_cons_of_pos hx, List.filter_cons_of_pos hx, List.map_cons, List.map_cons, List.cons_inj_right, ih]
      exact ⟨fun h => ⟨fun _ _ _ => hx, h⟩, fun h => h.2⟩
    · rw [List.takeWhile_cons_of_neg hx, List.filter_cons_of_neg hx, List.map_nil, eq_comm, List.map_eq_nil_iff,
        List.filter_eq_nil_iff]
      refine ⟨fun h => ⟨fun b hb hpb => absurd hpb (h b hb), ?_⟩, fun h b hb hpb => hx (h.1 b hb hpb)⟩
      exact List.pairwise_of_forall_mem_list fun a _ b hb hpb => absurd hpb (h b hb)

/-- The entries in front of the first unused one are all that are used. -/
theorem gets_eq_guids : gets d 0 d.entries = d.guids 0 d.entries ↔ ∀ i j, i < j → j < d.entries → d.Used j → d.Used i := by
  rw [gets, Disk.guids, map_filter_eq_map_takeWhile, List.pairwise_iff_getElem]
  simp only [List.length_range', List.getElem_range', decide_eq_true_eq, Nat.zero_add, Nat.one_mul]
  exact ⟨fun h i j hij hj => h i j (by omega) hj hij, fun h i j _ hj hij => h i j hij hj⟩

/-- The search starts unless the file is there when the disk is taken for one volume. -/
theorem startSearch_ok (hd : d.Addressable) (h : (processFatVolume d recover { g with partitionOffset := 0 }).1 ≠ .success) :
    ∃ g', startSearch d recover g = .ok g' := by
  obtain ⟨bs, fat, hframe⟩ := processFatVolume_frame d recover { g with partitionOffset := 0 }
  unfold startSearch
  generalize processFatVolume d recover { g with partitionOffset := 0 } = processed at h hframe ⊢
  obtain ⟨status, g'⟩ := processed
  dsimp only at h hframe ⊢
  rw [hframe, if_neg h]
  dsimp only
  rw [hd.readFirst]
  dsimp only
  rw [if_neg (by rw [hd.sig]; decide)]
  exact ⟨_, rfl⟩

theorem startSearch_at (hd : d.Addressable) (h : startSearch d recover g = .ok g') :
    At g' (d.table 0) 0 0 0 ∧ g'.partitionOffset = 0 := by
  obtain ⟨bs, fat, hframe⟩ := processFatVolume_frame d recover { g with partitionOffset := 0 }
  unfold startSearch at h
  generalize processFatVolume d recover { g with partitionOffset := 0 } = processed at h hframe
  obtain ⟨status, g''⟩ := processed
  dsimp only at h hframe
  rw [hframe] at h
  split at h
  · cases h
  · rw [hd.readFirst] at h
    dsimp only at h
    rw [if_neg (by rw [hd.sig]; decide)] at h
    cases h
    exact ⟨⟨rfl, rfl, rfl, rfl, rfl⟩, rfl⟩

theorem offsets_of_met (hd : d.Partitioned l) (hmet : Met d) (hat : At g (d.table 0) 0 0 0)
    (hoffset : g.partitionOffset = 0) : Offsets d recover g l := by
  rcases hd with hd | hd
  · rcases hmet.2 (not_protective hd) with hvacant | ⟨hblock, hbehind⟩
    · rw [slots_vacant hd.slots fun i _ hi => hvacant i hi]
      exact hat.unused hvacant
    · obtain ⟨l', hl', hiff⟩ := slots_offsets recover hd.toAddressable hblock hd.slots
      exact hiff.mpr hbehind ▸ hl' g hat
  · have hg := hmet.1 hd.protects
    rw [hd.partitions, ← gets_eq_guids.mpr hg.inFront]
    refine guids_offsets recover hd hg.entriesFrom (fun j hj hused => ⟨?_, hg.unused j hj hused⟩) hat hoffset
    rcases hg.page with hblock | hfew | ⟨i, hi, hunused⟩
    · exact Or.inr hblock
    · exact Or.inl (by omega)
    · -- the search has ended in the first sector
      refine Or.inl (Nat.lt_of_not_le fun hle => hunused (hused i (by omega)))

theorem met_of_offsets (hd : d.Partitioned l) (hregular : Regular d) (hat : At g (d.table 0) 0 0 0)
    (hoffset : g.partitionOffset = 0) (h : Offsets d recover g l) : Met d := by
  rcases hd with hd | hd
  · refine ⟨fun hprotective => absurd hprotective (not_protective hd), fun _ => Or.inr ⟨hregular.blockSize, ?_⟩⟩
    obtain ⟨l', hl', hiff⟩ := slots_offsets recover hd.toAddressable hregular.blockSize hd.slots
    exact hiff.mp ((hl' g hat).unique h)
  · have hfrom := hregular.entriesFrom hd.protects
    have hunused := hregular.unused hd.protects
    have hgets := guids_offsets recover hd hfrom (fun j hj _ => ⟨Or.inr hregular.blockSize, hunused j hj⟩)
      hat hoffset
    have heq := hgets.unique h
    rw [hd.partitions, gets_eq_guids] at heq
    refine ⟨fun _ => ⟨hfrom, Or.inl hregular.blockSize, heq, fun i hi _ => hunused i hi⟩, fun hnot => absurd hd.protects hnot⟩

/-- Calls of `FindNextPartition`, with `ProcessFatVolume` on what they come to, try each partition of a
conforming disk once: of those that are met, and of no other disk with the usual layout. -/
theorem findNextPartition_offsets (hd : d.Partitioned l) (hstart : startSearch d recover g = .ok g') :
    (Met d → Offsets d recover g' l) ∧ (Regular d → Offsets d recover g' l → Met d) := by
  have haddressable : d.Addressable := by
    rcases hd with hd | hd
    · exact hd.toAddressable
    · exact hd.toAddressable
  obtain ⟨hat, hoffset⟩ := startSearch_at haddressable hstart
  exact ⟨fun hmet => offsets_of_met hd hmet hat hoffset, fun hregular h => met_of_offsets hd hregular hat hoffset h⟩

/-! A disk with an extended partition in one of the first two records, with one partition in it, and a
partition in the other. -/

/-- The extended record is the one with the number `i`. -/
def twoRecords (i : Nat) : Disk where
  bytes := fun a => ([(450 + 16 * i, 5), (454 + 16 * i, 1), (458 + 16 * i, 2), (450 + 16 * (1 - i), 6),
    (454 + 16 * (1 - i), 3), (458 + 16 * (1 - i), 1), (510, 0x55), (511, 0xAA), (962, 6), (966, 1), (970, 1), (1022, 0x55),
    (1023, 0xAA)].lookup a).getD 0
  blockSize := 512
  blocks := 4

theorem partRec_table (sector : Nat) (hi : i < 4) : partRec (d.table sector) i =
    ⟨rd d.bytes 1 (d.blockSize * sector + (446 + 16 * i + 4)), rd d.bytes 4 (d.blockSize * sector + (446 + 16 * i + 8)),
      rd d.bytes 4 (d.blockSize * sector + (446 + 16 * i + 12))⟩ := by
  rw [partRec, Disk.table, field_sectorAt _ (by omega), field_sectorAt _ (by omega), field_sectorAt _ (by omega)]

/-- No volume has the file. -/
def noFile : Disk → Globals Unit → Status × Unit := fun _ g => (.notFound, g.fat)

def blank : Globals Unit := ⟨[], [], 0, true, 0, 0, 0, 0, ()⟩

theorem processFatVolume_noFile (g : Globals Unit) : (processFatVolume d noFile g).1 ≠ .success := by
  unfold processFatVolume noFile
  split
  · exact fun h => nomatch h
  · dsimp only
    split
    · exact fun h => nomatch h
    · exact fun h => nomatch h

theorem plain_of_vacant (h : r.Vacant) : r.Plain base := ⟨h.type, fun hnot => absurd h.empty hnot⟩

theorem vacant_zero : (⟨0, 0, 0⟩ : PartRec).Vacant := by
  refine ⟨⟨fun h => ?_, by decide⟩, Or.inl rfl⟩
  rcases h with h | h <;> cases h

theorem twoRecords_addressable (hi : i < 2) : (twoRecords i).Addressable := by
  refine ⟨Or.inl rfl, by decide +revert, by decide +revert, ?_⟩
  rw [sig, Disk.table, field_sectorAt _ (by omega)]
  decide +revert

theorem plain_six {k : Nat} (h0 : k ≠ 0) (hk : base + k < 2 ^ 32) : (⟨6, k, 1⟩ : PartRec).Plain base := by
  refine ⟨⟨fun h => ?_, fun h => by cases h⟩, fun _ => ⟨h0, hk⟩⟩
  rcases h with h | h <;> cases h

/-- What is in the extended partition. -/
theorem twoRecords_logicals (hi : i < 2) : (twoRecords i).Logicals 1 1 [1024] := by
  have h0 : partRec ((twoRecords i).table 1) 0 = ⟨6, 1, 1⟩ := by
    rw [partRec_table 1 (by omega)]
    decide +revert
  have h : ∀ k, k < 4 → k ≠ 0 → partRec ((twoRecords i).table 1) k = ⟨0, 0, 0⟩ := by
    intro k hk
    rw [partRec_table 1 hk]
    clear h0
    decide +revert
  have hvacant : ∀ k, k < 4 → k ≠ 0 → (partRec ((twoRecords i).table 1) k).Vacant := fun k hk hk0 => h k hk hk0 ▸ vacant_zero
  have hstarts : (twoRecords i).starts 1 (partRec ((twoRecords i).table 1) 0) = [1024] := by
    rw [h0]
    rfl
  rw [← hstarts]
  exact .last (show 1 < 4 by omega) (h0 ▸ plain_six (by omega) (by omega)) (hvacant 1 (by omega) (by omega))
    (hvacant 2 (by omega) (by omega)) (hvacant 3 (by omega) (by omega))

theorem twoRecords_table (hi : i < 2) : partRec ((twoRecords i).table 0) i = ⟨5, 1, 2⟩
    ∧ partRec ((twoRecords i).table 0) (1 - i) = ⟨6, 3, 1⟩
    ∧ ∀ k, 2 ≤ k → k < 4 → partRec ((twoRecords i).table 0) k = ⟨0, 0, 0⟩ := by
  refine ⟨?_, ?_, fun k hk hk' => ?_⟩
  · rw [partRec_table 0 (by omega)]
    decide +revert
  · rw [partRec_table 0 (by omega)]
    decide +revert
  · rw [partRec_table 0 hk']
    obtain rfl | rfl : k = 2 ∨ k = 3 := by omega
    · decide +revert
    · decide +revert

theorem twoRecords_disk (hi : i < 2) : (twoRecords i).MbrDisk (if i = 0 then [1024, 1536] else [1536, 1024]) := by
  obtain ⟨hextended, hplain, hrest⟩ := twoRecords_table hi
  have hvacant : ∀ k, 2 ≤ k → k < 4 → (partRec ((twoRecords i).table 0) k).Vacant :=
    fun k hk hk' => hrest k hk hk' ▸ vacant_zero
  have hnil : ∀ k, 2 ≤ k → k < 4 → (twoRecords i).starts 0 (partRec ((twoRecords i).table 0) k) = [] :=
    fun k hk hk' => starts_eq_nil.mpr (hvacant k hk hk').empty
  have htype : (partRec ((twoRecords i).table 0) i).Extended := hextended ▸ Or.inl rfl
  have hlba : (partRec ((twoRecords i).table 0) i).startingLba = 1 := congrArg PartRec.startingLba hextended
  have hlogicals : (twoRecords i).Logicals (partRec ((twoRecords i).table 0) i).startingLba
      (partRec ((twoRecords i).table 0) i).startingLba [1024] := hlba ▸ twoRecords_logicals hi
  have hstarts : (twoRecords i).starts 0 (partRec ((twoRecords i).table 0) (1 - i)) = [1536] := by
    rw [hplain]
    rfl
  refine ⟨twoRecords_addressable hi, ?_⟩
  obtain rfl | rfl : i = 0 ∨ i = 1 := by omega
  · have hslots := Disk.Slots.extended (by omega) htype (by rw [hlba]; decide) hlogicals fun k hk hk' => by
      by_cases hk1 : k = 1
      · rw [hk1, hplain]
        exact plain_six (by decide) (by decide)
      · exact plain_of_vacant (hvacant k (by omega) hk')
    have hlist : (List.range' (0 + 1) (3 - 0)) = [1, 2, 3] := rfl
    rw [hlist] at hslots
    simp only [List.flatMap_cons, List.flatMap_nil, hnil 2 (by omega) (by omega), hnil 3 (by omega) (by omega),
      List.append_nil] at hslots
    rwa [hstarts] at hslots
  · have hslots := Disk.Slots.extended (by omega) htype (by rw [hlba]; decide) hlogicals fun k hk hk' =>
      plain_of_vacant (hvacant k (by omega) hk')
    have hlist : (List.range' (1 + 1) (3 - 1)) = [2, 3] := rfl
    rw [hlist] at hslots
    simp only [List.flatMap_cons, List.flatMap_nil, hnil 2 (by omega) (by omega), hnil 3 (by omega) (by omega),
      List.append_nil] at hslots
    have h0 := Disk.Slots.plain (by omega) (hplain ▸ plain_six (by decide) (by decide)) hslots
    rwa [hstarts] at h0

/-- The partition behind the extended one is lost. -/
theorem not_findNextPartition_offsets : ¬ ∀ (d : Disk) (l : List Nat) (g g' : Globals Unit), d.Partitioned l →
    startSearch d noFile g = .ok g' → Offsets d noFile g' l := by
  intro h
  have hdisk := twoRecords_disk (show 0 < 2 by omega)
  obtain ⟨g', hstart⟩ := startSearch_ok (g := blank) hdisk.toAddressable (processFatVolume_noFile _)
  obtain ⟨hat, hoffset⟩ := startSearch_at hdisk.toAddressable hstart
  obtain ⟨l', hl', hiff⟩ := slots_offsets noFile hdisk.toAddressable rfl hdisk.slots
  have hbehind := hiff.mp ((hl' g' hat).unique (h _ _ _ _ (Or.inl hdisk) hstart))
  obtain ⟨hextended, hplain, -⟩ := twoRecords_table (show 0 < 2 by omega)
  have hempty := hbehind 0 1 (by omega) (by omega) (by omega) (hextended ▸ Or.inl rfl)
  rw [hplain] at hempty
  rcases hempty with hempty | hempty <;> cases hempty

/-- With the extended record behind, both are found. -/
theorem findNextPartition_offsets_twoRecords : ∃ g', startSearch (twoRecords 1) noFile blank = .ok g'
    ∧ Offsets (twoRecords 1) noFile g' [1536, 1024] := by
  have hdisk := twoRecords_disk (show 1 < 2 by omega)
  obtain ⟨g', hstart⟩ := startSearch_ok (g := blank) hdisk.toAddressable (processFatVolume_noFile _)
  refine ⟨g', hstart, (findNextPartition_offsets (Or.inl hdisk) hstart).1 ?_⟩
  obtain ⟨-, hplain, hrest⟩ := twoRecords_table (show 1 < 2 by omega)
  refine ⟨fun hprotective => absurd hprotective (not_protective hdisk), fun _ => Or.inr ⟨rfl, fun j k _ hjk hk hj => ?_⟩⟩
  by_cases hk2 : 2 ≤ k
  · rw [hrest k hk2 hk]
    exact Or.inl rfl
  · obtain rfl : j = 0 := by omega
    rw [hplain] at hj
    rcases hj with hj | hj <;> cases hj

end BayTrail.Recovery
