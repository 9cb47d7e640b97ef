import BayTrail.NvFlash.Erase

/-!
# Flash: the memory buffer of the hybrid interface

`HybridErase`, `HybridProgram` and `SwapVarstoresInHybridMode` of NvramDxe.c. Variables are
read from a copy in memory of the varstore; an update goes to the flash and then to the
copy. If the update of the flash fails, the range it was for is read again, and no more.

The fields of `VarStoreInfo` are those of a driver that has been initialized: `NvInfo` is the
main varstore.
-/

namespace BayTrail.NvFlash

open BayTrail.Lib

/-! ## The driver -/

structure Platform where
  geometry : Geometry
  flashNotMemoryMapped : Bool
  /-- what loads from the flash give -/
  load : Mem → Mem
  mapped : flashNotMemoryMapped = false → ∀ m, load m = m

/-- `VarStoreInfo`, and the memory. -/
structure Hybrid where
  mem : Mem
  /-- `NvInfo->NvramAddress` -/
  nvramAddress : Nat
  /-- `NvInfo->NvramSize` -/
  nvramSize : Nat
  /-- nothing for the address 0 -/
  nvramFlashAddress : Option Nat
  backupAddress : Nat
  addressDelta : Int

/-- What is set in a `NVRAM_STORE_INFO` before its records are looked at. -/
structure StoreInfo where
  nvramAddress : Nat
  nvramSize : Nat

def hybridGetAddressDelta (s : Hybrid) (address size : Nat) : Int :=
  if s.nvramAddress ≤ address ∧ address + size ≤ s.nvramAddress + s.nvramSize then s.addressDelta
  else 0

/-- `Delta+(UINT8*)Address`. -/
def moved (delta : Int) (address : Nat) : Nat := (delta + address).toNat

/-- What `HybridErase` and `HybridProgram` have in common: the flash is updated with `nv`, the
memory with `image`. -/
def hybridUpdate (pl : Platform) (s : Hybrid) (address size : Nat) (nv : Nat → Bool × Mem)
    (image : Bytes) : Bool × Hybrid :=
  let delta := hybridGetAddressDelta s address size
  let r := nv (moved delta address)
  -- zero: there is no memory buffer
  if delta = 0 then (r.1, { s with mem := r.2 })
  else if r.1 then (true, { s with mem := poke r.2 address image })
  else
    let read := if pl.flashNotMemoryMapped then r.2 else pl.load r.2
    (false, { s with mem := poke r.2 address (peek read (moved delta address) size) })

def hybridErase (pl : Platform) (ops : Ops) (s : Hybrid) (address size : Nat) (buffer : Option Nat) :
    Bool × Hybrid :=
  hybridUpdate pl s address size (fun p => nvErase pl.geometry ops pl.load s.mem p size buffer)
    (List.replicate size pl.geometry.emptyByte)

def hybridProgram (pl : Platform) (ops : Ops) (s : Hybrid) (address pData : Nat) (data : Bytes) :
    Bool × Hybrid :=
  hybridUpdate pl s address data.length (fun p => nvProgram pl.geometry ops s.mem p pData data) data

/-- The result is `BackupInfo`, if there is one. -/
def swapVarstoresInHybridMode (pl : Platform) (s : Hybrid) : Option StoreInfo × Hybrid :=
  match s.nvramFlashAddress with
  | none => (none, s)
  | some original =>
    let s' :=
      if s.addressDelta ≠ 0 then
        { s with
          addressDelta := s.backupAddress - s.nvramAddress
          mem := poke s.mem s.nvramAddress (peek (pl.load s.mem) s.backupAddress s.nvramSize) }
      else s
    (some ⟨s.nvramAddress, s.nvramSize⟩,
      { s' with nvramFlashAddress := some s.backupAddress, backupAddress := original })

/-- `InitHybridInterface`, where the `AllocatePool` succeeds. -/
def initHybridInterface (pl : Platform) (m : Mem) (store : StoreInfo) (backupAddress buffer : Nat) :
    Hybrid where
  mem := poke m buffer (peek (pl.load m) store.nvramAddress store.nvramSize)
  nvramAddress := buffer
  nvramSize := store.nvramSize
  nvramFlashAddress := some store.nvramAddress
  backupAddress := backupAddress
  addressDelta := store.nvramAddress - buffer

/-! ## Runs -/

inductive Call where
  | erase (address size : Nat) (buffer : Option Nat)
  | program (address pData : Nat) (data : Bytes)
  | swap

def Call.perform (pl : Platform) (ops : Ops) (s : Hybrid) : Call → Hybrid
  | .erase address size buffer => (hybridErase pl ops s address size buffer).2
  | .program address pData data => (hybridProgram pl ops s address pData data).2
  | .swap => (swapVarstoresInHybridMode pl s).2

/-- The range that a call is to update. -/
def Call.range : Call → Option (Nat × Nat)
  | .erase address size _ => some (address, size)
  | .program address _ data => some (address, data.length)
  | .swap => none

/-- The flash area of the varstore, and the one of the backup, are blocks of their own, and
the buffer is somewhere else. -/
structure Placed (g : Geometry) (s : Hybrid) (flash : Nat) : Prop where
  flashAddress : s.nvramFlashAddress = some flash
  delta : s.addressDelta = flash - s.nvramAddress
  size_pos : 0 < s.nvramSize
  sizeBlocks : g.blockSize ∣ s.nvramSize
  flashBlocks : g.blockSize ∣ flash
  backupBlocks : g.blockSize ∣ s.backupAddress
  bufferFlash : s.nvramAddress + s.nvramSize ≤ flash ∨ flash + s.nvramSize ≤ s.nvramAddress
  bufferBackup : s.nvramAddress + s.nvramSize ≤ s.backupAddress
    ∨ s.backupAddress + s.nvramSize ≤ s.nvramAddress
  areas : flash + s.nvramSize ≤ s.backupAddress ∨ s.backupAddress + s.nvramSize ≤ flash

/-- The buffer is equal to the flash, and the driver knows where that is. -/
def Mirrored (g : Geometry) (s : Hybrid) : Prop :=
  ∃ flash, Placed g s flash
    ∧ peek s.mem s.nvramAddress s.nvramSize = peek s.mem flash s.nvramSize

/-- The driver updates the varstore, in its buffer, and the backup. -/
def Call.Proper (s : Hybrid) (c : Call) : Prop :=
  ∀ address size, c.range = some (address, size) →
    (s.nvramAddress ≤ address ∧ address + size ≤ s.nvramAddress + s.nvramSize)
      ∨ s.backupAddress ≤ address ∧ address + size ≤ s.backupAddress + s.nvramSize

/-- One call, with flash that may fail. `ok` is a condition on the call. -/
def Step (pl : Platform) (ok : Ops → Hybrid → Call → Prop) (s s' : Hybrid) : Prop :=
  ∃ ops : Ops, ∃ c : Call, ops.Lawful pl.geometry ∧ c.Proper s ∧ ok ops s c
    ∧ s' = c.perform pl ops s

/-- An erase in the varstore has nothing to do, no buffer, or no other bytes in its blocks; or
it succeeds, and can restore them. A program takes no bytes for equal that are not. A swap
loads what is in the flash. -/
def Call.Harmless (pl : Platform) (ops : Ops) (s : Hybrid) : Call → Prop
  | .erase address size buffer =>
    let g := pl.geometry
    let delta := hybridGetAddressDelta s address size
    let p := moved delta address
    delta = 0 ∨ size = 0 ∨ isClean g s.mem p size = true
      ∨ (g.prologSize p + g.epilogSize p size ≠ 0 ∧ buffer = none)
      ∨ g.prologSize p + g.epilogSize p size = 0
      ∨ (nvErase g ops pl.load s.mem p size buffer).1 = true
        ∧ Restorable g pl.load s.mem p size buffer
  | .program address pData data =>
    let delta := hybridGetAddressDelta s address data.length
    let p := moved delta address
    let c := compared pl.geometry p pData data.length
    delta = 0 ∨ (Holds s.mem p (data.take c) → Holds s.mem (p + c) (data.drop c))
  | .swap => peek (pl.load s.mem) s.backupAddress s.nvramSize = peek s.mem s.backupAddress s.nvramSize

/-! ## One update -/

section

variable {pl : Platform} {ops : Ops} {s : Hybrid} {flash : Nat}
variable {g : Geometry} {p a address size : Nat} {nv : Nat → Bool × Mem} {image data : Bytes}
  {m : Mem} {buffer : Option Nat}

theorem Geometry.le_block (hp : g.blockSize ∣ p) (h : p ≤ a) :
    p ≤ g.block a := by
  obtain ⟨k, rfl⟩ := hp
  have hdiv : k ≤ a / g.blockSize := (Nat.le_div_iff_mul_le g.blockSize_pos).mpr (by
    rwa [Nat.mul_comm])
  have hsplit := Nat.div_add_mod a g.blockSize
  have hmul := Nat.mul_le_mul_left g.blockSize hdiv
  unfold Geometry.block
  omega

theorem Geometry.endBlock_le {q n : Nat} (hq : g.blockSize ∣ q) (hn : n ≠ 0)
    (h : a + n ≤ q) : g.endBlock a n ≤ q := by
  obtain ⟨k, rfl⟩ := hq
  have hdiv : (a + n - 1) / g.blockSize < k := Nat.div_lt_of_lt_mul (by omega)
  have hsplit := Nat.div_add_mod (a + n - 1) g.blockSize
  have hmul := Nat.mul_le_mul_left g.blockSize (Nat.succ_le_of_lt hdiv)
  rw [Nat.mul_succ] at hmul
  unfold Geometry.endBlock Geometry.block
  omega

theorem Placed.delta_ne (hp : Placed g s flash) : s.addressDelta ≠ 0 := by
  have h1 := hp.delta
  have h2 := hp.bufferFlash
  have h3 := hp.size_pos
  omega

theorem Placed.moved_eq (hp : Placed g s flash) (ha : s.nvramAddress ≤ a) :
    moved s.addressDelta a = flash + (a - s.nvramAddress) := by
  unfold moved
  rw [hp.delta]
  omega

/-- What reads give is what is in the flash. -/
theorem Platform.read_eq (pl : Platform) (m : Mem) :
    (if pl.flashNotMemoryMapped then m else pl.load m) = m := by
  cases h : pl.flashNotMemoryMapped with
  | true => rfl
  | false => exact pl.mapped h m

/-- An update of the buffer leaves in it what is in the flash. -/
theorem hybridUpdate_mem {address size : Nat} {nv : Nat → Bool × Mem} {image : Bytes}
    (h0 : hybridGetAddressDelta s address size ≠ 0) (hlen : image.length = size)
    (hok : let dest := moved (hybridGetAddressDelta s address size) address
      (nv dest).1 = true → Holds (nv dest).2 dest image) :
    let dest := moved (hybridGetAddressDelta s address size) address
    (hybridUpdate pl s address size nv image).2.mem
      = poke (nv dest).2 address (peek (nv dest).2 dest size) := by
  unfold hybridUpdate
  simp only [if_neg h0] at hok ⊢
  split
  · rename_i h
    rw [(hok h).peek_eq hlen.symm]
  · rw [pl.read_eq]

/-- The rest of the buffer is still equal if the flash has changed in the range only. -/
theorem hybridUpdate_mirrored (hp : Placed pl.geometry s flash)
    (hm : peek s.mem s.nvramAddress s.nvramSize = peek s.mem flash s.nvramSize)
    (hin : s.nvramAddress ≤ address ∧ address + size ≤ s.nvramAddress + s.nvramSize)
    (hlen : image.length = size)
    (hnv : let dest := moved s.addressDelta address
      (∀ x, x < dest ∨ dest + size ≤ x → (nv dest).2 x = s.mem x)
        ∧ ((nv dest).1 = true → Holds (nv dest).2 dest image)) :
    let s' := (hybridUpdate pl s address size nv image).2
    peek s'.mem s.nvramAddress s.nvramSize = peek s'.mem flash s.nvramSize := by
  have hdelta : hybridGetAddressDelta s address size = s.addressDelta := if_pos hin
  have hdest := hp.moved_eq hin.1
  have hapart := hp.bufferFlash
  obtain ⟨hframe, hok⟩ := hnv
  have hmem := @hybridUpdate_mem pl s address size nv image (by rw [hdelta]; exact hp.delta_ne) hlen
    (by rwa [hdelta])
  rw [hdelta] at hmem
  simp only at hframe hmem ⊢
  rw [hmem, peek_eq_peek]
  generalize moved s.addressDelta address = dest at hdest hframe ⊢
  intro i hi
  have hsame := peek_eq_peek.mp hm i hi
  have hlenp := peek_length (nv dest).2 dest size
  have hright : poke (nv dest).2 address (peek (nv dest).2 dest size) (flash + i)
      = (nv dest).2 (flash + i) := poke_of_out (by rw [hlenp]; omega)
  rw [hright]
  by_cases hrange : address ≤ s.nvramAddress + i ∧ s.nvramAddress + i < address + size
  · obtain ⟨k, hk⟩ := Nat.exists_eq_add_of_le hrange.1
    rw [hk, poke_peek_at (by omega), show dest + k = flash + i by omega]
  · have hleft : poke (nv dest).2 address (peek (nv dest).2 dest size) (s.nvramAddress + i)
        = (nv dest).2 (s.nvramAddress + i) := poke_of_out (by rw [hlenp]; omega)
    rw [hleft, hframe _ (by omega), hframe _ (by omega)]
    exact hsame

/-- An update of the backup. -/
theorem hybridUpdate_backup (hp : Placed pl.geometry s flash)
    (hm : peek s.mem s.nvramAddress s.nvramSize = peek s.mem flash s.nvramSize)
    (hout : ¬ (s.nvramAddress ≤ address ∧ address + size ≤ s.nvramAddress + s.nvramSize))
    (hframe : ∀ x, x < s.backupAddress ∨ s.backupAddress + s.nvramSize ≤ x →
      (nv address).2 x = s.mem x) :
    let s' := (hybridUpdate pl s address size nv image).2
    peek s'.mem s.nvramAddress s.nvramSize = peek s'.mem flash s.nvramSize := by
  have hdelta : hybridGetAddressDelta s address size = 0 := if_neg hout
  have hmem : (hybridUpdate pl s address size nv image).2.mem = (nv address).2 := by
    unfold hybridUpdate
    rw [hdelta, if_pos rfl, show moved 0 address = address by unfold moved; omega]
  have h1 := hp.bufferBackup
  have h2 := hp.areas
  simp only
  rw [hmem, peek_congr fun x hx hx' => hframe x (by omega), hm]
  exact (peek_congr fun x hx hx' => hframe x (by omega)).symm

theorem hybridUpdate_placed {g : Geometry} {address size : Nat} {nv : Nat → Bool × Mem}
    {image : Bytes} (hp : Placed g s flash) :
    Placed g (hybridUpdate pl s address size nv image).2 flash
      ∧ (hybridUpdate pl s address size nv image).2.nvramAddress = s.nvramAddress
      ∧ (hybridUpdate pl s address size nv image).2.nvramSize = s.nvramSize := by
  unfold hybridUpdate
  simp only
  split
  · exact ⟨⟨hp.1, hp.2, hp.3, hp.4, hp.5, hp.6, hp.7, hp.8, hp.9⟩, rfl, rfl⟩
  · split
    · exact ⟨⟨hp.1, hp.2, hp.3, hp.4, hp.5, hp.6, hp.7, hp.8, hp.9⟩, rfl, rfl⟩
    · exact ⟨⟨hp.1, hp.2, hp.3, hp.4, hp.5, hp.6, hp.7, hp.8, hp.9⟩, rfl, rfl⟩

/-! ## The three calls -/

theorem holds_of_compared {dest src : Nat}
    (hrest : let c := compared g dest src data.length
      Holds m dest (data.take c) → Holds m (dest + c) (data.drop c))
    (hequal : (isProgrammableOrEqual g m dest src data).equal = true) : Holds m dest data := by
  have hfront := (verdict_spec dest src data).2.mp hequal
  rw [← List.take_append_drop (compared g dest src data.length) data, holds_append,
    take_compared_length]
  exact ⟨hfront, hrest hfront⟩

theorem nvErase_range (hops : ops.Lawful g) {load : Mem → Mem}
    (hok : size = 0 ∨ isClean g m p size = true
      ∨ (g.prologSize p + g.epilogSize p size ≠ 0 ∧ buffer = none)
      ∨ g.prologSize p + g.epilogSize p size = 0
      ∨ (nvErase g ops load m p size buffer).1 = true ∧ Restorable g load m p size buffer) :
    (∀ x, x < p ∨ p + size ≤ x → (nvErase g ops load m p size buffer).2 x = m x)
      ∧ ((nvErase g ops load m p size buffer).1 = true →
        Holds (nvErase g ops load m p size buffer).2 p (List.replicate size g.emptyByte)) := by
  by_cases hwork : size = 0 ∨ isClean g m p size = true
  · have hskip : nvErase g ops load m p size buffer = (true, m) := if_pos hwork
    rw [hskip]
    refine ⟨fun _ _ => rfl, fun _ => ?_⟩
    obtain rfl | hclean := hwork
    · exact holds_nil _ _
    · exact isClean_iff.mp hclean
  obtain hb | hno | ⟨hsucc, hres⟩ := (hok.resolve_left (not_or.mp hwork).1).resolve_left
    (not_or.mp hwork).2
  · have hstop : nvErase g ops load m p size buffer = (false, m) := by
      unfold nvErase
      simp only [if_neg hwork, if_pos hb]
    rw [hstop]
    exact ⟨fun _ _ => rfl, fun h => absurd h (by simp)⟩
  · -- no bytes but those of the range
    obtain ⟨hS, hSB, hb, hbT, -⟩ := blocks_spec g p (fun h => hwork (Or.inl h))
    unfold Geometry.prologSize Geometry.epilogSize at hno
    refine ⟨fun x hx => nvErase_frame hops (by omega), fun hsucc => ?_⟩
    exact (nvErase_spec hops hwork hsucc).2.2.1
  · obtain ⟨herased, hframe⟩ := nvErase_restored hops hwork hres hsucc
    exact ⟨hframe, fun _ => herased⟩

theorem hybridErase_mirrored (hops : ops.Lawful pl.geometry) (hproper : (Call.erase address size buffer).Proper s)
    (hok : (Call.erase address size buffer).Harmless pl ops s) (hm : Mirrored pl.geometry s) :
    Mirrored pl.geometry (hybridErase pl ops s address size buffer).2 := by
  obtain ⟨flash, hp, hm⟩ := hm
  unfold hybridErase
  obtain ⟨hp', hfields⟩ := @hybridUpdate_placed pl s flash _ address size
    (fun p => nvErase pl.geometry ops pl.load s.mem p size buffer)
    (List.replicate size pl.geometry.emptyByte) hp
  refine ⟨flash, hp', ?_⟩
  rw [hfields.1, hfields.2]
  by_cases hin : s.nvramAddress ≤ address ∧ address + size ≤ s.nvramAddress + s.nvramSize
  · -- in the varstore
    have hdelta : hybridGetAddressDelta s address size = s.addressDelta := if_pos hin
    refine hybridUpdate_mirrored hp hm hin List.length_replicate ?_
    unfold Call.Harmless at hok
    simp only [hdelta] at hok
    exact nvErase_range hops (hok.resolve_left hp.delta_ne)
  · -- in the backup, whose blocks these are
    obtain hstore | hbackup := hproper address size rfl
    · exact absurd hstore hin
    refine hybridUpdate_backup hp hm hin fun x hx => ?_
    by_cases hsize : size = 0
    · unfold nvErase
      rw [if_pos (Or.inl hsize)]
    have hstart := Geometry.le_block hp.backupBlocks hbackup.1
    have hend := Geometry.endBlock_le (Nat.dvd_add hp.backupBlocks hp.sizeBlocks) hsize hbackup.2
    exact nvErase_frame hops (by omega)

theorem hybridProgram_mirrored (hops : ops.Lawful pl.geometry) {pData : Nat}
    (hproper : (Call.program address pData data).Proper s)
    (hok : (Call.program address pData data).Harmless pl ops s) (hm : Mirrored pl.geometry s) :
    Mirrored pl.geometry (hybridProgram pl ops s address pData data).2 := by
  obtain ⟨flash, hp, hm⟩ := hm
  unfold hybridProgram
  obtain ⟨hp', hfields⟩ := @hybridUpdate_placed pl s flash _ address data.length
    (fun p => nvProgram pl.geometry ops s.mem p pData data) data hp
  refine ⟨flash, hp', ?_⟩
  rw [hfields.1, hfields.2]
  by_cases hin : s.nvramAddress ≤ address ∧ address + data.length ≤ s.nvramAddress + s.nvramSize
  · -- in the varstore
    have hdelta : hybridGetAddressDelta s address data.length = s.addressDelta := if_pos hin
    refine hybridUpdate_mirrored hp hm hin rfl ⟨fun x hx => nvProgram_frame hops hx, ?_⟩
    unfold Call.Harmless at hok
    simp only [hdelta] at hok
    refine fun hsucc => (nvProgram_sound hops (fun hequal => ?_) hsucc).1
    exact holds_of_compared (hok.resolve_left hp.delta_ne) hequal
  · -- in the backup
    obtain hstore | hbackup := hproper address data.length rfl
    · exact absurd hstore hin
    exact hybridUpdate_backup hp hm hin fun x hx => nvProgram_frame hops (by omega)

theorem swapVarstoresInHybridMode_mirrored (hok : Call.swap.Harmless pl ops s)
    (hm : Mirrored pl.geometry s) : Mirrored pl.geometry (swapVarstoresInHybridMode pl s).2 := by
  obtain ⟨flash, hp, hm⟩ := hm
  have hload : peek (pl.load s.mem) s.backupAddress s.nvramSize = peek s.mem s.backupAddress s.nvramSize :=
    hok
  have h2 := hp.bufferFlash
  have h3 := hp.bufferBackup
  have h4 := hp.areas
  unfold swapVarstoresInHybridMode
  rw [hp.flashAddress]
  simp only
  rw [if_pos hp.delta_ne, hload]
  refine ⟨s.backupAddress, ⟨rfl, rfl, hp.size_pos, hp.sizeBlocks, hp.backupBlocks, hp.flashBlocks, h3,
    h2, h4.symm⟩, ?_⟩
  rw [peek_eq_peek]
  intro i hi
  simp only at hi ⊢
  rw [poke_peek_at hi]
  exact (poke_of_out (by rw [peek_length]; omega)).symm

/-- One call keeps the buffer equal to the flash. -/
theorem perform_mirrored (hops : ops.Lawful pl.geometry) {c : Call} (hproper : c.Proper s)
    (hok : c.Harmless pl ops s) (hm : Mirrored pl.geometry s) :
    Mirrored pl.geometry (c.perform pl ops s) := by
  cases c with
  | erase address size buffer => exact hybridErase_mirrored hops hproper hok hm
  | program address pData data => exact hybridProgram_mirrored hops hproper hok hm
  | swap => exact swapVarstoresInHybridMode_mirrored hok hm

end

/-! ## Runs of the interface -/

theorem initHybridInterface_mirrored {pl : Platform} {m : Mem} {store : StoreInfo}
    {backupAddress buffer : Nat}
    (hp : Placed pl.geometry (initHybridInterface pl m store backupAddress buffer) store.nvramAddress)
    (hload : peek (pl.load m) store.nvramAddress store.nvramSize
      = peek m store.nvramAddress store.nvramSize) :
    Mirrored pl.geometry (initHybridInterface pl m store backupAddress buffer) := by
  refine ⟨store.nvramAddress, hp, ?_⟩
  have hapart := hp.bufferFlash
  unfold initHybridInterface at hapart ⊢
  simp only at hapart ⊢
  rw [hload, peek_eq_peek]
  intro i hi
  rw [poke_peek_at hi]
  exact (poke_of_out (by rw [peek_length]; omega)).symm

/-- In a run of harmless calls, with flash that fails at any of them or not, the buffer is
equal to the flash in every state. -/
theorem mirrored_of_run {pl : Platform} {s s' : Hybrid} (hs : Mirrored pl.geometry s)
    (h : Relation.ReflTransGen (Step pl (Call.Harmless pl)) s s') : Mirrored pl.geometry s' := by
  induction h with
  | refl => exact hs
  | tail _ hstep ih =>
    obtain ⟨ops, c, hops, hproper, hok, rfl⟩ := hstep
    exact perform_mirrored hops hproper hok ih

/-- Flash in the address space. -/
def memoryMapped : Platform where
  geometry := spiFlash
  flashNotMemoryMapped := false
  load := id
  mapped _ _ := rfl

/-- An erase that does not succeed, but after it has erased the block. -/
def tornFlash : Ops where
  program m _ _ := (false, m)
  eraseBlock m p := (false, ((ideal spiFlash).eraseBlock m p).2)

theorem tornFlash_lawful : tornFlash.Lawful spiFlash where
  program_frame _ _ _ _ _ := rfl
  erase_frame m p x hx := (ideal_lawful spiFlash).erase_frame m p x hx
  erase_done _ _ h := absurd h Bool.false_ne_true

/-- Two blocks of zeros, at 0 and in memory, and the backup behind them. -/
def filled : Hybrid :=
  initHybridInterface memoryMapped (fun _ => 0) ⟨0, 0x2000⟩ 0x2000 0x100000

theorem filled_mirrored : Mirrored spiFlash filled := by
  refine @initHybridInterface_mirrored memoryMapped _ _ _ _ ⟨rfl, rfl, ?_, ?_, ?_, ?_, ?_, ?_, ?_⟩ rfl
  all_goals decide

/-- An erase of a block that fails, and a swap. -/
theorem mirrored_of_run_filled :
    Mirrored spiFlash (Call.swap.perform memoryMapped tornFlash
      ((Call.erase 0x100000 0x1000 none).perform memoryMapped tornFlash filled)) := by
  refine @mirrored_of_run memoryMapped filled _ filled_mirrored ?_
  have herase : Step memoryMapped (Call.Harmless memoryMapped) filled
      ((Call.erase 0x100000 0x1000 none).perform memoryMapped tornFlash filled) := by
    refine ⟨tornFlash, Call.erase 0x100000 0x1000 none, tornFlash_lawful, ?_, ?_, rfl⟩
    · intro address size h
      obtain ⟨rfl, rfl⟩ := Prod.mk.inj (Option.some.inj h)
      exact Or.inl (by decide)
    · exact Or.inr (Or.inr (Or.inr (Or.inr (Or.inl (by decide)))))
  refine (Relation.ReflTransGen.single herase).tail ?_
  exact ⟨tornFlash, Call.swap, tornFlash_lawful, fun _ _ h => absurd h (by simp [Call.range]), rfl,
    rfl⟩

/-- If an erase of a part of a block fails, the rest of the block is not read again. -/
theorem not_mirrored_of_run : ¬ ∀ (pl : Platform) (s s' : Hybrid), Mirrored pl.geometry s →
    Relation.ReflTransGen (Step pl fun _ _ _ => True) s s' → Mirrored pl.geometry s' := by
  intro h
  have hproper : (Call.erase 0x100010 0x10 (some 0x200000)).Proper filled := by
    intro address size h
    obtain ⟨rfl, rfl⟩ := Prod.mk.inj (Option.some.inj h)
    exact Or.inl (by decide)
  obtain ⟨flash, hp, hm⟩ := h memoryMapped filled _ filled_mirrored
    (.single ⟨tornFlash, _, tornFlash_lawful, hproper, trivial, rfl⟩)
  obtain rfl : 0 = flash := Option.some.inj hp.flashAddress
  have hfirst := peek_eq_peek.mp hm 0 hp.size_pos
  exact absurd hfirst (by decide +kernel)

end BayTrail.NvFlash
