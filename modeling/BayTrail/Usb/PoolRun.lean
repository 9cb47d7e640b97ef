import BayTrail.Usb.Blocks

/-!
# Runs of the allocator

Calls of `USB_MemAlloc` and `USB_MemFree` in which each block is freed once, with the number of blocks it
was asked for with. The invariant adds to what is wanted that blocks are taken in pairs: it is due to this
that rounding a request up loses no run.
-/

namespace BayTrail.Usb.Allocator

open Lib (Mem poke)

/-- An allocation: where it is, and what was asked for. -/
structure Alloc where
  ptr : Nat
  num : Nat
  deriving DecidableEq

/-- The blocks that are taken. -/
def Alloc.size (a : Alloc) : Nat := countDown (evenBlocks a.num)

/-- A pool, with the allocations that have not been freed. -/
structure Heap where
  pool : Pool
  live : List Alloc

inductive Call where
  | alloc (numBlk : Nat)
  | free (a : Alloc)

/-- A call, and where it leads. -/
inductive Step : Heap → Call → Heap → Prop
  | got {h : Heap} {n ptr : Nat} {p : Pool} (hn : n < 2 ^ 16) (hcall : (memAlloc h.pool n).Returns (some ptr, p)) :
      Step h (.alloc n) ⟨p, ⟨ptr, n⟩ :: h.live⟩
  | failed {h : Heap} {n : Nat} {p : Pool} (hn : n < 2 ^ 16) (hcall : (memAlloc h.pool n).Returns (none, p)) :
      Step h (.alloc n) ⟨p, h.live⟩
  | freed {h : Heap} {a : Alloc} (ha : a ∈ h.live) : Step h (.free a) ⟨(memFree h.pool a.ptr a.num).2, h.live.erase a⟩

inductive Steps : Heap → List Call → Heap → Prop
  | nil {h : Heap} : Steps h [] h
  | cons {h h' h'' : Heap} {c : Call} {cs : List Call} (hstep : Step h c h') (hrest : Steps h' cs h'') :
      Steps h (c :: cs) h''

/-- What is freed is among the blocks that `USB_MemFree` knows of. -/
def Call.Known (p : Pool) : Call → Prop
  | .alloc _ => True
  | .free a => a.ptr < p.address memBlkCount

/-! ## What is wanted -/

/-- The bytes of an allocation have a block in them. -/
def Alloc.Covers (p : Pool) (a : Alloc) (b : Nat) : Prop := a.ptr ≤ p.address b ∧ p.address b < a.ptr + a.size * 32

def Alloc.Apart (a a' : Alloc) : Prop := a.ptr + a.size * 32 ≤ a'.ptr ∨ a'.ptr + a'.size * 32 ≤ a.ptr

/-- Blocks that could be given out. -/
def Suitable (p : Pool) (n : Nat) : Prop :=
  ∃ s, s + n ≤ p.blocks ∧ RunFree p.memBlkSts s n ∧ (n ≤ 128 → s / 128 = (s + n - 1) / 128)

/-- The allocations of a pool, and what an allocation would do now. -/
structure Kept (h : Heap) : Prop where
  inside : ∀ a ∈ h.live, ∃ s, a.ptr = h.pool.address s ∧ s + a.size ≤ h.pool.blocks ∧ a.num ≤ a.size
  apart : h.live.Pairwise Alloc.Apart
  status : ∀ b, b < h.pool.blocks → (h.pool.free b = false ↔ ∃ a ∈ h.live, a.Covers h.pool b)
  onPage : ∀ a ∈ h.live, a.num ≤ 128 →
    (a.ptr - h.pool.memBlockStart) / 4096 = (a.ptr + a.size * 32 - 1 - h.pool.memBlockStart) / 4096
  fails : ∀ n, 0 < n → n < 2 ^ 16 →
    ∃ r p, (memAlloc h.pool n).Returns (r, p) ∧ (r = none → ¬ Suitable h.pool n)

/-- A call of `USB_MemFree` changes nothing outside the pool, whatever is in it. -/
def Confined (p : Pool) (ptr numBlk : Nat) : Prop :=
  ∀ (sts : Nat → BitVec 32) (mem : Mem),
    (∀ b, p.blocks ≤ b →
      (memFree { p with memBlkSts := sts, mem := mem } ptr numBlk).2.free b = freeBlock sts b)
    ∧ ∀ x, (x < p.memBlockStart ∨ p.address p.blocks ≤ x) →
      (memFree { p with memBlkSts := sts, mem := mem } ptr numBlk).2.mem x = mem x

/-- The call is turned down, or its blocks end with the pool. -/
def FitsPool (p : Pool) (ptr numBlk : Nat) : Prop :=
  p.rejects ptr = true
    ∨ ((ptr - p.memBlockStart) / 32 + countDown (evenBlocks numBlk) ≤ p.blocks
      ∧ (evenBlocks numBlk = 0 ∨ ptr + evenBlocks numBlk * 32 ≤ p.address p.blocks))

/-! ## Freeing anything -/

variable {p : Pool} {ptr numBlk : Nat} {h h' : Heap} {a a' : Alloc} {b s n : Nat}

theorem rejects_eq_false (hptr : p.rejects ptr = false) : p.memBlockStart ≤ ptr
    ∧ (ptr - p.memBlockStart) % 2 ^ 16 = ptr - p.memBlockStart ∧ (ptr - p.memBlockStart) / 32 < memBlkCount := by
  simp only [Pool.rejects, Bool.or_eq_false_iff, decide_eq_false_iff_not, Nat.not_lt, Nat.not_le] at hptr
  obtain ⟨⟨⟨-, hstart⟩, hend⟩, hblock⟩ := hptr
  have hcount : memBlkCount = 1024 := rfl
  have hmod : (ptr - p.memBlockStart) % 2 ^ 16 = ptr - p.memBlockStart := Nat.mod_eq_of_lt (by omega)
  rw [hmod] at hblock
  exact ⟨hstart, hmod, hblock⟩

theorem mem_memFree (hptr : p.rejects ptr = false) (x : Nat) : (memFree p ptr numBlk).2.mem x =
    if ptr ≤ x ∧ x < ptr + evenBlocks numBlk * 32 then 0 else p.mem x := by
  unfold memFree
  rw [hptr]
  show poke p.mem ptr (List.replicate (evenBlocks numBlk * 32) 0) x = _
  unfold poke
  by_cases hle : ptr ≤ x
  · by_cases hlt : x < ptr + evenBlocks numBlk * 32
    · rw [if_pos hle, if_pos ⟨hle, hlt⟩, List.getElem?_replicate, if_pos (by omega)]
      rfl
    · rw [if_pos hle, if_neg (fun hin => hlt hin.2), List.getElem?_replicate, if_neg (by omega)]
      rfl
  · rw [if_neg hle, if_neg (fun hin => hle hin.1)]

theorem confined_of_rejects (hptr : p.rejects ptr = true) : Confined p ptr numBlk := by
  intro sts mem
  have hsame : memFree { p with memBlkSts := sts, mem := mem } ptr numBlk
      = (false, { p with memBlkSts := sts, mem := mem }) := if_pos hptr
  rw [hsame]
  exact ⟨fun b _ => rfl, fun x _ => rfl⟩

theorem confined_of_fits (hfits : FitsPool p ptr numBlk) : Confined p ptr numBlk := by
  by_cases hptr : p.rejects ptr = true
  · exact confined_of_rejects hptr
  obtain ⟨hbits, hbytes⟩ := hfits.resolve_left hptr
  intro sts mem
  have hptr' : Pool.rejects { p with memBlkSts := sts, mem := mem } ptr = false := Bool.eq_false_iff.mpr hptr
  obtain ⟨hstart, hmod, hblock⟩ := rejects_eq_false hptr'
  dsimp only at hstart hmod hblock
  refine ⟨fun b hb => ?_, fun x hx => ?_⟩
  · rw [free_memFree hptr']
    dsimp only
    rw [hmod, decide_eq_false (by omega), Bool.or_false]
    rfl
  · rw [mem_memFree hptr', if_neg]
    intro hin
    rcases hx with hx | hx
    · omega
    · rcases hbytes with hzero | hbytes
      · rw [hzero] at hin
        omega
      · omega

theorem fits_of_confined (hconfined : Confined p ptr numBlk) : FitsPool p ptr numBlk := by
  by_cases hptr : p.rejects ptr = true
  · exact Or.inl hptr
  have hptr' : Pool.rejects { p with memBlkSts := fun _ => 0, mem := fun _ => 1 } ptr = false :=
    Bool.eq_false_iff.mpr hptr
  obtain ⟨hstart, hmod, hblock⟩ := rejects_eq_false hptr'
  dsimp only at hstart hmod hblock
  -- no block is free, and no byte is zero
  obtain ⟨hbits, hbytes⟩ := hconfined (fun _ => 0) (fun _ => 1)
  refine Or.inr ⟨Nat.le_of_not_lt fun hlt => ?_, ?_⟩
  · have hpos : 0 < countDown (evenBlocks numBlk) := countDown_pos
    have hset := hbits (max p.blocks ((ptr - p.memBlockStart) / 32)) (Nat.le_max_left _ _)
    rw [free_memFree hptr'] at hset
    dsimp only at hset
    rw [hmod, decide_eq_true (by omega), Bool.or_true] at hset
    simp [freeBlock] at hset
  · by_cases hzero : evenBlocks numBlk = 0
    · exact Or.inl hzero
    · refine Or.inr (Nat.le_of_not_lt fun hlt => ?_)
      have hcleared := hbytes (max (p.address p.blocks) ptr) (Or.inr (Nat.le_max_left _ _))
      rw [mem_memFree hptr', if_pos (by omega)] at hcleared
      exact absurd hcleared (by decide)

/-! ## The invariant -/

/-- An allocation at a block: of a whole number of pairs. -/
structure Alloc.Placed (p : Pool) (a : Alloc) (s : Nat) : Prop where
  ptr : a.ptr = p.address s
  even : s % 2 = 0 ∧ a.size % 2 = 0
  pos : 0 < a.size
  inside : s + a.size ≤ p.blocks
  asked : a.num ≤ a.size
  onPage : a.num ≤ 128 → s / 128 = (s + a.size - 1) / 128

/-! Neither depends on what is in the pool. -/

theorem Pool.Sound.mark (hp : p.Sound) (sts : Nat → BitVec 32) (mem : Mem) :
    Pool.Sound { p with memBlkSts := sts, mem := mem } := ⟨hp.dwords, hp.pages⟩

theorem Alloc.Placed.mark (ha : a.Placed p s) (sts : Nat → BitVec 32) (mem : Mem) :
    a.Placed { p with memBlkSts := sts, mem := mem } s := ⟨ha.ptr, ha.even, ha.pos, ha.inside, ha.asked, ha.onPage⟩

structure Inv (start : Nat) (h : Heap) : Prop where
  sound : h.pool.Sound
  start : h.pool.memBlockStart = start
  placed : ∀ a ∈ h.live, ∃ s, a.Placed h.pool s
  apart : h.live.Pairwise Alloc.Apart
  status : ∀ b, b < h.pool.blocks → (h.pool.free b = false ↔ ∃ a ∈ h.live, a.Covers h.pool b)

variable {start : Nat}

theorem Alloc.Placed.covers (ha : a.Placed p s) : a.Covers p b ↔ s ≤ b ∧ b < s + a.size := by
  unfold Alloc.Covers
  rw [ha.ptr]
  unfold Pool.address
  omega

theorem Alloc.Apart.symm (ha : a.Apart a') : a'.Apart a := Or.symm ha

/-- Allocations without a block in common. -/
theorem apart_iff {s' : Nat} (ha : a.Placed p s) (ha' : a'.Placed p s') :
    a.Apart a' ↔ ∀ b, s ≤ b → b < s + a.size → ¬ (s' ≤ b ∧ b < s' + a'.size) := by
  have hpos := ha.pos
  have hpos' := ha'.pos
  unfold Alloc.Apart
  rw [ha.ptr, ha'.ptr]
  unfold Pool.address
  constructor
  · intro h b hb hb' hin
    omega
  · intro h
    have hcommon := h (max s s')
    omega

theorem evenBlocks_cases (hn : n < 2 ^ 16) :
    (n = 65535 ∧ countDown (evenBlocks n) = 65536) ∨ (n < 65535 ∧ evenBlocks n = n + n % 2 ∧
      (0 < n → countDown (evenBlocks n) = n + n % 2)) := by
  by_cases hmax : n = 65535
  · exact Or.inl ⟨hmax, by subst hmax; rfl⟩
  · have heven : evenBlocks n = n + n % 2 := Nat.mod_eq_of_lt (by omega)
    refine Or.inr ⟨by omega, heven, fun hpos => ?_⟩
    rw [heven]
    exact if_neg (by omega)

/-- Blocks of a pair are free together. -/
theorem Inv.pair (hi : Inv start h) {k : Nat} (hk : 2 * k + 1 < h.pool.blocks) :
    h.pool.free (2 * k) = h.pool.free (2 * k + 1) := by
  have hsame : h.pool.free (2 * k) = false ↔ h.pool.free (2 * k + 1) = false := by
    rw [hi.status _ (by omega), hi.status _ hk]
    refine exists_congr fun a => and_congr_right fun ha => ?_
    obtain ⟨s, hs⟩ := hi.placed a ha
    have heven := hs.even
    rw [hs.covers, hs.covers]
    omega
  revert hsame
  cases h.pool.free (2 * k) <;> cases h.pool.free (2 * k + 1) <;> simp

theorem blocks_even (p : Pool) : p.blocks % 2 = 0 := by
  unfold Pool.blocks
  omega

section

variable (hi : Inv start h)
include hi

/-- A run that is wanted can be rounded up. -/
theorem Inv.suitable_even (hpos : 0 < n) (hsuitable : Suitable h.pool n) :
    Suitable h.pool (n + n % 2) := by
  obtain ⟨s, hfit, hrun, hpage⟩ := hsuitable
  have hblocks := blocks_even h.pool
  rcases Nat.mod_two_eq_zero_or_one n with hn | hn
  · rw [hn]
    exact ⟨s, hfit, hrun, hpage⟩
  rw [hn]
  rcases Nat.mod_two_eq_zero_or_one s with hs | hs
  · -- the block behind is the other one of the last pair
    refine ⟨s, by omega, fun i hi' hi'' => ?_, fun hsmall => ?_⟩
    · by_cases hlast : i = s + n
      · have hpair := hi.pair (k := (s + n - 1) / 2) (by omega)
        have heq : 2 * ((s + n - 1) / 2) = s + n - 1 := by omega
        have heq' : s + n - 1 + 1 = i := by omega
        rw [heq, heq'] at hpair
        exact hpair.symm.trans (hrun (s + n - 1) (by omega) (by omega))
      · exact hrun i hi' (by omega)
    · have := hpage (by omega)
      omega
  · -- the block in front is the other one of the first pair
    refine ⟨s - 1, by omega, fun i hi' hi'' => ?_, fun hsmall => ?_⟩
    · by_cases hfirst : i = s - 1
      · have hpair := hi.pair (k := (s - 1) / 2) (by omega)
        have heq : 2 * ((s - 1) / 2) = i := by omega
        have heq' : i + 1 = s := by omega
        rw [heq, heq'] at hpair
        exact hpair.trans (hrun s (Nat.le_refl s) (by omega))
      · exact hrun i (by omega) (by omega)
    · have := hpage (by omega)
      omega

/-- A request that fails could not be met. -/
theorem Inv.fails (hpos : 0 < n) (hn : n < 2 ^ 16) :
    ∃ r p, (memAlloc h.pool n).Returns (r, p) ∧ (r = none → ¬ Suitable h.pool n) := by
  obtain ⟨⟨r, p⟩, hcall, hr⟩ := memAlloc_spec hi.sound hpos
  refine ⟨r, p, hcall, fun hnone hsuitable => ?_⟩
  rcases hr with ⟨-, hmissed⟩ | ⟨s, sts, heq, -⟩
  · obtain ⟨s, hfit, hrun, hpage⟩ := hi.suitable_even hpos hsuitable
    have hpages := hi.sound.pages
    have hblocks : h.pool.blocks = 128 * h.pool.memPages := rfl
    rcases evenBlocks_cases hn with ⟨hmax, -⟩ | ⟨-, heven, hcount⟩
    · omega
    · refine hmissed s ?_ ?_ ?_
      · rw [hcount hpos]
        exact hfit
      · rw [hcount hpos, heven]
        exact hpage
      · rw [hcount hpos]
        exact hrun
  · cases hnone.symm.trans (congrArg Prod.fst heq)

theorem Inv.kept : Kept h := by
  refine ⟨fun a ha => ?_, hi.apart, hi.status, fun a ha hsmall => ?_, fun n hpos hn => hi.fails hpos hn⟩
  · obtain ⟨s, hs⟩ := hi.placed a ha
    exact ⟨s, hs.ptr, hs.inside, hs.asked⟩
  · obtain ⟨s, hs⟩ := hi.placed a ha
    have hpage := hs.onPage hsmall
    have hpos := hs.pos
    rw [hs.ptr]
    unfold Pool.address
    omega

/-! ## Steps -/

/-- The blocks of an allocation are taken. -/
theorem Inv.taken (ha : a ∈ h.live) {s' : Nat} (hs : a.Placed h.pool s') (hb : s' ≤ b)
    (hb' : b < s' + a.size) : h.pool.free b = false := by
  have hinside := hs.inside
  exact (hi.status b (by omega)).mpr ⟨a, ha, hs.covers.mpr ⟨hb, hb'⟩⟩

/-- A run of free blocks is taken. -/
theorem Inv.got (hn : n < 2 ^ 16) {p : Pool} (hcall : (memAlloc h.pool n).Returns (some ptr, p)) :
    Inv start ⟨p, ⟨ptr, n⟩ :: h.live⟩ := by
  have hpos : 0 < n := by
    refine Nat.pos_of_ne_zero fun hzero => ?_
    unfold memAlloc at hcall
    rw [if_pos hzero] at hcall
    cases Lib.Run.returns_pure.mp hcall
  obtain ⟨r, hr, hspec⟩ := memAlloc_spec hi.sound hpos
  have hrp := hcall.unique hr
  rcases hspec with ⟨hnone, -⟩ | ⟨s, sts, hsome, hfit, hrun, hpage, hfront, hsts⟩
  · cases (Option.some.inj hrp).trans hnone
  cases (Option.some.inj hrp).trans hsome
  have hpages := hi.sound.pages
  have hblocks : h.pool.blocks = 128 * h.pool.memPages := rfl
  -- a request for so many blocks that it cannot be made even has failed
  obtain ⟨hmax, heven, hcount⟩ : n < 65535 ∧ evenBlocks n = n + n % 2 ∧
      (0 < n → countDown (evenBlocks n) = n + n % 2) := by
    rcases evenBlocks_cases hn with ⟨-, hlarge⟩ | hcases
    · omega
    · exact hcases
  have hsize : Alloc.size ⟨h.pool.address s, n⟩ = n + n % 2 := hcount hpos
  rw [hcount hpos] at hfit hrun hpage hsts
  rw [heven] at hpage
  have hseven : s % 2 = 0 := by
    refine Decidable.byContradiction fun hodd => ?_
    rcases hfront with hfront | hfront
    · omega
    · -- the other block of the pair
      have hpair := hi.pair (k := (s - 1) / 2) (by omega)
      have heq : 2 * ((s - 1) / 2) = s - 1 := by omega
      have heq' : s - 1 + 1 = s := by omega
      rw [heq, heq'] at hpair
      have hfree := hrun s (Nat.le_refl s) (by omega)
      exact absurd (hfront.symm.trans (hpair.trans hfree)) (by decide)
  have hnew : Alloc.Placed { h.pool with memBlkSts := sts } ⟨h.pool.address s, n⟩ s := by
    refine ⟨rfl, ⟨hseven, by omega⟩, by omega, by rw [hsize]; exact hfit, by dsimp only; omega, fun hsmall => ?_⟩
    dsimp only at hsmall
    rw [hsize]
    exact hpage (by omega)
  refine ⟨hi.sound.mark sts _, hi.start, fun a ha => ?_, List.pairwise_cons.mpr ⟨fun a ha => ?_, hi.apart⟩, fun b hb => ?_⟩
  · rcases List.mem_cons.mp ha with rfl | ha
    · exact ⟨s, hnew⟩
    · obtain ⟨s', hs'⟩ := hi.placed a ha
      exact ⟨s', hs'.mark sts _⟩
  · obtain ⟨s', hs'⟩ := hi.placed a ha
    refine (apart_iff hnew (hs'.mark sts _)).mpr fun b hb hb' hin => ?_
    rw [hsize] at hb'
    have htaken := hi.taken ha hs' hin.1 hin.2
    exact absurd (htaken.symm.trans (hrun b hb hb')) (by decide)
  · have hold := hi.status b hb
    have hcovers := hnew.covers (b := b)
    rw [hsize] at hcovers
    show freeBlock sts b = false ↔ _
    rw [hsts, Bool.and_eq_false_iff, hold, Bool.not_eq_false', decide_eq_true_eq, ← hcovers]
    constructor
    · rintro (⟨a, ha, hab⟩ | hab)
      · exact ⟨a, List.mem_cons_of_mem _ ha, hab⟩
      · exact ⟨_, List.mem_cons_self, hab⟩
    · intro ⟨a, ha, hab⟩
      rcases List.mem_cons.mp ha with rfl | ha
      · exact Or.inr hab
      · exact Or.inl ⟨a, ha, hab⟩

theorem Inv.failed {p : Pool} (hcall : (memAlloc h.pool n).Returns (none, p)) :
    Inv start ⟨p, h.live⟩ := by
  have hsame : p = h.pool := by
    by_cases hpos : 0 < n
    · obtain ⟨r, hr, hspec⟩ := memAlloc_spec hi.sound hpos
      have hrp := hcall.unique hr
      rcases hspec with ⟨hnone, -⟩ | ⟨s, sts, hsome, -⟩
      · cases (Option.some.inj hrp).trans hnone
        rfl
      · cases (Option.some.inj hrp).trans hsome
    · unfold memAlloc at hcall
      rw [if_pos (by omega)] at hcall
      cases Lib.Run.returns_pure.mp hcall
      rfl
  rw [hsame]
  exact hi

/-- An allocation among those that `USB_MemFree` knows of is given back. -/
theorem Inv.freed (hstart : 0 < start) (ha : a ∈ h.live) (hknown : a.ptr < h.pool.address memBlkCount) :
    Inv start ⟨(memFree h.pool a.ptr a.num).2, h.live.erase a⟩ := by
  obtain ⟨s, hs⟩ := hi.placed a ha
  have hbase := hi.start
  have hptr := hs.ptr
  have hcount : memBlkCount = 1024 := rfl
  have haddress : ∀ b, h.pool.address b = h.pool.memBlockStart + b * 32 := fun _ => rfl
  have hblock : s < 1024 := by
    rw [hptr, haddress, haddress, hcount] at hknown
    omega
  have hplace : (a.ptr - h.pool.memBlockStart) % 2 ^ 16 / 32 = s := by
    rw [hptr, haddress]
    omega
  have haccept : h.pool.rejects a.ptr = false := by
    simp only [Pool.rejects, Bool.or_eq_false_iff, decide_eq_false_iff_not, hptr, haddress, hcount]
    omega
  have hfree : ∀ b, (memFree h.pool a.ptr a.num).2.free b = (h.pool.free b || decide (s ≤ b ∧ b < s + a.size)) := by
    intro b
    rw [free_memFree haccept, hplace]
    rfl
  have hpool : (memFree h.pool a.ptr a.num).2 = { h.pool with
      memBlkSts := (memFree h.pool a.ptr a.num).2.memBlkSts, mem := (memFree h.pool a.ptr a.num).2.mem } := by
    unfold memFree
    rw [haccept]
    rfl
  have hperm : List.Pairwise Alloc.Apart (a :: h.live.erase a) :=
    ((List.perm_cons_erase ha).pairwise_iff fun h => h.symm).mp hi.apart
  have hother : ∀ a' ∈ h.live.erase a, a' ∈ h.live := fun a' ha' => List.mem_of_mem_erase ha'
  rw [hpool] at hfree ⊢
  refine ⟨hi.sound.mark _ _, hi.start, fun a' ha' => ?_, (List.pairwise_cons.mp hperm).2, fun b hb => ?_⟩
  · obtain ⟨s', hs'⟩ := hi.placed a' (hother a' ha')
    exact ⟨s', hs'.mark _ _⟩
  have hold := hi.status b hb
  rw [hfree, Bool.or_eq_false_iff, hold, decide_eq_false_iff_not, ← hs.covers]
  constructor
  · intro ⟨⟨a', ha', hab⟩, hnot⟩
    have hne : a' ≠ a := by
      intro heq
      exact hnot (heq ▸ hab)
    exact ⟨a', (List.mem_erase_of_ne hne).mpr ha', hab⟩
  · intro ⟨a', ha', hab⟩
    refine ⟨⟨a', hother a' ha', hab⟩, fun hcovers => ?_⟩
    obtain ⟨s', hs'⟩ := hi.placed a' (hother a' ha')
    have hin := hs.covers.mp hcovers
    exact (apart_iff hs hs').mp ((List.pairwise_cons.mp hperm).1 a' ha') b hin.1 hin.2 (hs'.covers.mp hab)

theorem Inv.step (hstart : 0 < start) {c : Call} (hstep : Step h c h') (hknown : c.Known h.pool) :
    Inv start h' := by
  cases hstep with
  | got hn hcall => exact hi.got hn hcall
  | failed hn hcall => exact hi.failed hcall
  | freed ha => exact hi.freed hstart ha hknown

theorem Inv.steps (hstart : 0 < start) {cs : List Call} (hsteps : Steps h cs h')
    (hknown : ∀ c ∈ cs, c.Known h.pool) : Inv start h' := by
  have hbase : ∀ {h : Heap} {c : Call}, Inv start h → (c.Known h.pool ↔ ∀ a, c = .free a → a.ptr < start + memBlkCount * 32) := by
    intro h c hi
    cases c with
    | alloc n => simp [Call.Known]
    | free a => simp [Call.Known, Pool.address, hi.start]
  induction hsteps with
  | nil => exact hi
  | @cons h h₁ h₂ c cs hstep _ ih =>
    have hnext := hi.step hstart hstep (hknown c List.mem_cons_self)
    refine ih hnext fun c' hc' => ?_
    rw [hbase hnext, ← hbase hi]
    exact hknown c' (List.mem_cons_of_mem c hc')

end

/-- A pool of which no block is taken. -/
theorem inv_fresh (hp : p.Sound) (hfree : ∀ b, b < p.blocks → p.free b = true) : Inv p.memBlockStart ⟨p, []⟩ := by
  refine ⟨hp, rfl, fun a ha => (List.not_mem_nil ha).elim, List.Pairwise.nil, fun b hb => ?_⟩
  simp [hfree b hb]

/-- The allocator keeps its blocks apart, and fails only when it has to, as long as what is freed is among the
first blocks; freeing anything stays in the pool exactly if it ends there. -/
theorem pool_kept (p : Pool) :
    (p.Sound → 0 < p.memBlockStart → (∀ b, b < p.blocks → p.free b = true) →
      ∀ cs h, Steps ⟨p, []⟩ cs h → (∀ c ∈ cs, c.Known p) → Kept h)
    ∧ ∀ ptr numBlk, Confined p ptr numBlk ↔ FitsPool p ptr numBlk := by
  refine ⟨fun hp hstart hfree cs h hsteps hknown => ?_, fun ptr numBlk => ⟨fits_of_confined, confined_of_fits⟩⟩
  exact ((inv_fresh hp hfree).steps hstart hsteps hknown).kept

/-- The pool as the driver sets it up. -/
def freshPool : Pool where
  memPages := memPageCount
  memBlkStsBytes := memPageCount * 16
  memBlockStart := 0x1000
  memBlkSts := fun _ => BitVec.allOnes 32
  mem := fun _ => 0

theorem freshPool_sound : freshPool.Sound := ⟨rfl, by decide⟩

theorem freshPool_free (b : Nat) : freshPool.free b = true := by
  show (BitVec.allOnes 32).getLsbD (b % 32) = true
  rw [BitVec.getLsbD_allOnes, decide_eq_true (Nat.mod_lt b (by omega))]

/-- Three blocks are taken and freed. -/
theorem pool_kept_freshPool :
    (∃ a h, Steps ⟨freshPool, []⟩ [.alloc 3, .free a] h ∧ Kept h) ∧ Confined freshPool 0x1000 2 := by
  have hkept := (pool_kept freshPool).1 freshPool_sound (by decide) fun b _ => freshPool_free b
  refine ⟨?_, ((pool_kept freshPool).2 0x1000 2).mpr (Or.inr ⟨by decide, Or.inr (by decide)⟩)⟩
  obtain ⟨-, hcall, ⟨-, hmissed⟩ | ⟨s, sts, rfl, hs, -⟩⟩ := memAlloc_spec freshPool_sound (show 0 < 3 by omega)
  · exact absurd (fun b _ _ => freshPool_free b) (hmissed 0 (by decide) (fun _ => rfl))
  · have hsteps := Steps.cons (.got (h := ⟨freshPool, []⟩) (by omega) hcall) (.cons (.freed List.mem_cons_self) .nil)
    refine ⟨_, _, hsteps, hkept _ _ hsteps fun c hc => ?_⟩
    rcases List.mem_cons.mp hc with rfl | hc
    · trivial
    · rw [List.mem_singleton.mp hc]
      have hs : s + 4 ≤ 1024 := hs
      show freshPool.memBlockStart + s * 32 < freshPool.memBlockStart + 1024 * 32
      omega

/-- Two blocks from the last one on are taken for blocks of the pool. -/
theorem not_pool_kept : ¬ ∀ (p : Pool) (ptr numBlk : Nat), p.Sound → Confined p ptr numBlk := by
  intro h
  rcases fits_of_confined (h freshPool (freshPool.address 1023) 2 freshPool_sound) with hreject | ⟨hbits, -⟩
  · exact absurd hreject (by decide)
  · exact absurd hbits (by decide)

end BayTrail.Usb.Allocator
