import BayTrail.Usb.Pool

/-!
# Blocks of the pool

The status map as a set of free blocks, and what the loops of the allocator do to it: the search counts
the free blocks in front of a place, the marking takes or gives one run of them.
-/

namespace BayTrail.Usb.Allocator

open Lib (Next)
open Lib.Run (returns_pure loop_done loop_again)

/-- Whether the status bit of a block is set. -/
def freeBlock (sts : Nat → BitVec 32) (b : Nat) : Bool := (sts (b / 32)).getLsbD (b % 32)

variable {sts : Nat → BitVec 32} {num N lo b n : Nat}

/-! ## Marking -/

theorem freeBlock_word {w k : Nat} (hk : k < 32) : freeBlock sts (32 * w + k) = (sts w).getLsbD k := by
  have hdiv : (32 * w + k) / 32 = w := by omega
  have hmod : (32 * w + k) % 32 = k := by omega
  rw [freeBlock, hdiv, hmod]

theorem getLsbD_one_shift {bit k : Nat} (hk : k < 32) : (1#32 <<< bit).getLsbD k = decide (k = bit) := by
  simp only [BitVec.getLsbD_shiftLeft, BitVec.getLsbD_one, hk, decide_true, Bool.true_and]
  by_cases h : k < bit
  · simp [h]
    omega
  · simp only [h, decide_false, Bool.not_false, Bool.true_and, Nat.zero_lt_succ, decide_true, decide_eq_decide]
    omega

theorem freeBlock_setOne {w bit : Nat} (hbit : bit < 32) (b : Nat) :
    freeBlock (fun w' => if w' = w then sts w' ||| 1#32 <<< bit else sts w') b
      = (freeBlock sts b || decide (b = 32 * w + bit)) := by
  unfold freeBlock
  dsimp only
  by_cases hw : b / 32 = w
  · rw [if_pos hw, BitVec.getLsbD_or, getLsbD_one_shift (Nat.mod_lt b (by omega))]
    congr 1
    rw [decide_eq_decide]
    omega
  · have hb : ¬ b = 32 * w + bit := by omega
    rw [if_neg hw, decide_eq_false hb, Bool.or_false]

variable (sts) in
/-- The bits that are set are those of the blocks from the first one on. -/
theorem freeBlock_setBits {w bit : Nat} (hbit : bit < 32) (hw : 32 * w + bit + n < 2 ^ 21) (b : Nat) :
    freeBlock (setBits n w bit sts) b
      = (freeBlock sts b || decide (32 * w + bit ≤ b ∧ b < 32 * w + bit + n)) := by
  induction n generalizing w bit sts with
  | zero =>
    have hb : ¬ (32 * w + bit ≤ b ∧ b < 32 * w + bit + 0) := by omega
    rw [setBits, decide_eq_false hb, Bool.or_false]
  | succ n ih =>
    have hsplit : decide (32 * w + bit ≤ b ∧ b < 32 * w + bit + (n + 1))
        = (decide (b = 32 * w + bit) || decide (32 * w + bit + 1 ≤ b ∧ b < 32 * w + bit + 1 + n)) := by
      rw [← Bool.decide_or, decide_eq_decide]
      omega
    rw [setBits, hsplit, ← Bool.or_assoc, ← freeBlock_setOne hbit]
    split
    · -- the next word
      rename_i hend
      have hnext : 32 * (w + 1) + 0 = 32 * w + bit + 1 := by omega
      have hmod : (w + 1) % 2 ^ 16 = w + 1 := Nat.mod_eq_of_lt (by omega)
      rw [hmod, ih _ (by omega) (by omega), hnext]
    · rw [ih _ (by omega) (by omega)]
      rfl

theorem getLsbD_ones_shift {s k : Nat} (hk : k < 32) : (BitVec.allOnes 32 <<< s).getLsbD k = decide (s ≤ k) := by
  simp only [BitVec.getLsbD_shiftLeft, BitVec.getLsbD_allOnes, hk, decide_true, Bool.true_and]
  by_cases h : k < s
  · simp [h]
  · have hle : s ≤ k := by omega
    have hlt : k - s < 32 := by omega
    simp [h, hle, hlt]

theorem getLsbD_allocMask {count start k : Nat} (hk : k < 32) :
    (allocMask count start).getLsbD k = !decide (start ≤ k ∧ k < start + count) := by
  have hleft : (if count + start < 32 then BitVec.allOnes 32 <<< (count + start) else 0 : BitVec 32).getLsbD k
      = decide (start + count ≤ k) := by
    split
    · rw [getLsbD_ones_shift hk, Nat.add_comm]
    · have hle : ¬ start + count ≤ k := by omega
      simp [hle]
  unfold allocMask
  dsimp only
  split
  · rw [BitVec.getLsbD_or, hleft, BitVec.getLsbD_not, getLsbD_ones_shift hk, decide_eq_true hk, Bool.true_and,
      ← decide_not, ← decide_not, ← Bool.decide_or, decide_eq_decide]
    omega
  · rw [hleft, ← decide_not, decide_eq_decide]
    omega

variable (sts) in
/-- The blocks that are taken are those up to the last one. -/
theorem clear_spec {num w bit : Nat} (hnum : 0 < num) (hend : num ≤ 32 * w + bit + 1) (hbit : bit < 32) (hw : w < 2 ^ 16) :
    ∃ sts', (Lib.Run.loop (fun s => pure (clearRound s)) ⟨num, w, bit, sts⟩ : Lib.Run (Nat → BitVec 32)).Returns sts'
      ∧ ∀ b, freeBlock sts' b = (freeBlock sts b && !decide (32 * w + bit + 1 ≤ b + num ∧ b ≤ 32 * w + bit)) := by
  induction num using Nat.strong_induction_on generalizing w bit sts with
  | _ num ih =>
    obtain ⟨count, hcount⟩ : ∃ count, count = if num ≤ bit + 1 then num else bit + 1 := ⟨_, rfl⟩
    have hle : count ≤ bit + 1 := by split at hcount <;> omega
    have hword : ∀ b, freeBlock
        (fun w' => if w' = w then sts w' &&& allocMask count (bit + 1 - count) else sts w') b
        = (freeBlock sts b && !decide (32 * w + bit + 1 ≤ b + count ∧ b ≤ 32 * w + bit)) := by
      intro b
      unfold freeBlock
      dsimp only
      by_cases hb : b / 32 = w
      · rw [if_pos hb, BitVec.getLsbD_and, getLsbD_allocMask (Nat.mod_lt b (by omega))]
        congr 2
        rw [decide_eq_decide]
        omega
      · have hout : ¬ (32 * w + bit + 1 ≤ b + count ∧ b ≤ 32 * w + bit) := by
          omega
        rw [if_neg hb, decide_eq_false hout, Bool.not_false, Bool.and_true]
    by_cases hlast : num ≤ bit + 1
    · have heq : count = num := hcount.trans (if_pos hlast)
      refine ⟨_, loop_done (returns_pure.mpr ?_), heq ▸ hword⟩
      unfold clearRound
      dsimp only
      rw [if_pos hlast, if_pos (Nat.sub_self num)]
    · -- the words in front
      have heq : count = bit + 1 := hcount.trans (if_neg hlast)
      rw [heq] at hword
      have hmod : (w + 2 ^ 16 - 1) % 2 ^ 16 = w - 1 := by omega
      obtain ⟨sts', hloop, hsts'⟩ := ih (num - (bit + 1)) (by omega) _ (by omega) (by omega)
        (show 31 < 32 by omega) (show w - 1 < 2 ^ 16 by omega)
      refine ⟨sts', loop_again (returns_pure.mpr ?_) hloop, fun b => ?_⟩
      · unfold clearRound
        dsimp only
        rw [if_neg hlast, if_neg (by omega), hmod]
      · have hrest := hsts' b
        rw [hword b, Bool.and_assoc, ← Bool.not_or, ← Bool.decide_or] at hrest
        have hruns : ((32 * w + bit + 1 ≤ b + (bit + 1) ∧ b ≤ 32 * w + bit)
            ∨ (32 * (w - 1) + 31 + 1 ≤ b + (num - (bit + 1)) ∧ b ≤ 32 * (w - 1) + 31))
            ↔ (32 * w + bit + 1 ≤ b + num ∧ b ≤ 32 * w + bit) := by
          omega
        rw [hrest, decide_eq_decide.mpr hruns]

/-! ## Searching -/

/-- The blocks of a run are free. -/
def RunFree (sts : Nat → BitVec 32) (s n : Nat) : Prop := ∀ i, s ≤ i → i < s + n → freeBlock sts i = true

/-- The search has come to a block: so many free ones are right in front of it, from `lo` on, and no run
of the wanted length ends there or before. -/
structure Scanned (sts : Nat → BitVec 32) (N lo b count : Nat) : Prop where
  le : lo + count ≤ b
  lt : count < N
  run : RunFree sts (b - count) count
  front : lo + count < b → freeBlock sts (b - count - 1) = false
  missed : ∀ s, lo ≤ s → s + N ≤ b → ¬ RunFree sts s N

variable {count : Nat}

theorem Scanned.start (hN : 0 < N) : Scanned sts N b b 0 := by
  refine ⟨by omega, hN, fun i _ _ => by omega, fun h => by omega, fun s hs hs' => by omega⟩

theorem Scanned.free (h : Scanned sts N lo b count) (hb : freeBlock sts b = true) (hcount : count + 1 ≠ N) :
    Scanned sts N lo (b + 1) (count + 1) := by
  have hle := h.le
  have hlt := h.lt
  have hfront : b + 1 - (count + 1) = b - count := by omega
  refine ⟨by omega, by omega, fun i hi hi' => ?_, fun hlo => ?_, fun s hs hs' hrun => ?_⟩
  · by_cases hib : i = b
    · exact hib ▸ hb
    · exact h.run i (by omega) (by omega)
  · rw [hfront]
    exact h.front (by omega)
  · by_cases hsb : s + N ≤ b
    · exact h.missed s hs hsb hrun
    · -- such a run would have the block in front of the counted ones in it
      have hfree := hrun (b - count - 1) (by omega) (by omega)
      rw [h.front (by omega)] at hfree
      cases hfree

theorem Scanned.taken (h : Scanned sts N lo b count) (hb : freeBlock sts b = false) : Scanned sts N lo (b + 1) 0 := by
  have hle := h.le
  have hlt := h.lt
  refine ⟨by omega, by omega, fun i _ _ => by omega, fun _ => hb, fun s hs hs' hrun => ?_⟩
  by_cases hsb : s + N ≤ b
  · exact h.missed s hs hsb hrun
  · have hfree := hrun b (by omega) (by omega)
    rw [hb] at hfree
    cases hfree

theorem Scanned.found (h : Scanned sts N lo b count) (hb : freeBlock sts b = true) (hcount : count + 1 = N) :
    lo + N ≤ b + 1 ∧ RunFree sts (b + 1 - N) N ∧ (lo < b + 1 - N → freeBlock sts (b + 1 - N - 1) = false) := by
  have hle := h.le
  have hfirst : b + 1 - N = b - count := by omega
  refine ⟨by omega, fun i hi hi' => ?_, fun hlo => ?_⟩
  · by_cases hib : i = b
    · exact hib ▸ hb
    · exact h.run i (by omega) (by omega)
  · rw [hfirst]
    exact h.front (by omega)

/-- A run that has been found, with the place of its last block. -/
structure FoundAt (sts : Nat → BitVec 32) (N lo top w bit : Nat) (scan : Scan) : Prop where
  bit_lt : bit < 32
  below : 32 * w + bit < top
  fits : lo + N ≤ 32 * w + bit + 1
  run : RunFree sts (32 * w + bit + 1 - N) N
  front : lo < 32 * w + bit + 1 - N → freeBlock sts (32 * w + bit + 1 - N - 1) = false
  blkOffset : scan.blkOffset = 32 * w + bit + 1 - N

/-- A word, from one of its bits on. -/
theorem scanBits_spec {w k : Nat} {s : Scan} (hk : k ≤ 32) (hb : b + k = 32 * (w + 1)) (hw : 32 * (w + 1) < 2 ^ 16)
    (hnum : num < 2 ^ 16) (hs : s.blkOffset = b) (h : Scanned sts (countDown num) lo b s.count) :
    (∃ s', scanBits num (sts w) k s = (none, s') ∧ s'.blkOffset = 32 * (w + 1)
      ∧ Scanned sts (countDown num) lo (32 * (w + 1)) s'.count)
    ∨ ∃ bit s', scanBits num (sts w) k s = (some bit, s') ∧ FoundAt sts (countDown num) lo (32 * (w + 1)) w bit s' := by
  induction k generalizing b s with
  | zero =>
    have hend : b = 32 * (w + 1) := hb
    exact Or.inl ⟨s, rfl, hs.trans hend, hend ▸ h⟩
  | succ k ih =>
    have hle := h.le
    have hlt := h.lt
    have hoffset : (s.blkOffset + 1) % 2 ^ 16 = b + 1 := by omega
    have hcount : (s.count + 1) % 2 ^ 16 = s.count + 1 := by omega
    have hblock : freeBlock sts b = (sts w).getLsbD (31 - k) := by
      rw [← freeBlock_word (by omega)]
      congr 1
      omega
    rw [scanBits, hoffset, hcount, ← hblock]
    split
    · rename_i hfree
      dsimp only
      split
      · rename_i hfull
        have hN : s.count + 1 = countDown num := by
          unfold countDown
          split <;> omega
        obtain ⟨hlo, hrun, hfront⟩ := h.found hfree hN
        have hplace : 32 * w + (31 - k) = b := by omega
        refine Or.inr ⟨31 - k, ⟨_, _⟩, rfl, by omega, by omega, by omega, hplace.symm ▸ hrun, hplace.symm ▸ hfront, ?_⟩
        dsimp only
        omega
      · rename_i hmore
        have hN : s.count + 1 ≠ countDown num := by
          unfold countDown
          split <;> omega
        exact ih (b := b + 1) (by omega) (by omega) rfl (h.free hfree hN)
    · rename_i htaken
      exact ih (b := b + 1) (by omega) (by omega) rfl (h.taken (by simpa using htaken))

/-- The words of a page, from one on. -/
theorem wordLoop_spec {page k : Nat} {s : Scan} (hk : k ≤ 4) (hpage : 128 * (page + 1) < 2 ^ 16) (hnum : num < 2 ^ 16)
    (hs : s.blkOffset = 128 * page + 32 * k) (h : Scanned sts (countDown num) lo (128 * page + 32 * k) s.count) :
    ∃ found, (Lib.Run.loop (fun s' => pure (wordRound sts num 4 page s')) (k, s)
        : Lib.Run (Option (Nat × Nat) × Scan)).Returns found
      ∧ ((found.1 = none ∧ found.2.blkOffset = 128 * (page + 1)
          ∧ Scanned sts (countDown num) lo (128 * (page + 1)) found.2.count)
        ∨ ∃ w bit, found.1 = some (w, bit) ∧ FoundAt sts (countDown num) lo (128 * (page + 1)) w bit found.2) := by
  obtain ⟨n, hn⟩ := Nat.exists_eq_add_of_le hk
  induction n generalizing k s with
  | zero =>
    have hend : 128 * page + 32 * k = 128 * (page + 1) := by omega
    refine ⟨(none, s), loop_done (returns_pure.mpr ?_), Or.inl ⟨rfl, hs.trans hend, hend ▸ h⟩⟩
    rw [wordRound, if_neg]
    dsimp only
    omega
  | succ n ih =>
    have hword : (page * 4 + k) % 2 ^ 16 = page * 4 + k := by omega
    have hnext : (k + 1) % 2 ^ 16 = k + 1 := by omega
    rcases scanBits_spec (Nat.le_refl 32) (show 128 * page + 32 * k + 32 = 32 * (page * 4 + k + 1) by omega) (by omega)
      hnum hs h with ⟨s', hscan, hs', h'⟩ | ⟨bit, s', hscan, hfound⟩
    · have hround : wordRound sts num 4 page (k, s) = .again (k + 1, s') := by
        rw [wordRound, if_pos (show k < 4 by omega)]
        dsimp only
        rw [hword, hnext, hscan]
      have hstart : 32 * (page * 4 + k + 1) = 128 * page + 32 * (k + 1) := by omega
      obtain ⟨found, hloop, hfound⟩ := ih (by omega) (hs'.trans hstart) (hstart ▸ h') (by omega)
      exact ⟨found, loop_again (returns_pure.mpr hround) hloop, hfound⟩
    · have hround : wordRound sts num 4 page (k, s) = .done (some (page * 4 + k, bit), s') := by
        rw [wordRound, if_pos (show k < 4 by omega)]
        dsimp only
        rw [hword, hscan]
      refine ⟨_, loop_done (returns_pure.mpr hround), Or.inr ⟨page * 4 + k, bit, rfl, ?_⟩⟩
      exact ⟨hfound.bit_lt, by have := hfound.below; omega, hfound.fits, hfound.run, hfound.front, hfound.blkOffset⟩

/-- A run that is on one page, of those that have to be. -/
def OnPage (num s n : Nat) : Prop := num ≤ 128 → s / 128 = (s + n - 1) / 128

/-- The pages in front of a place hold no run to be found. -/
def Missed (sts : Nat → BitVec 32) (num top : Nat) : Prop :=
  ∀ s, s + countDown num ≤ top → OnPage num s (countDown num) → ¬ RunFree sts s (countDown num)

theorem countDown_pos : 0 < countDown num := by
  unfold countDown
  split <;> omega

theorem Missed.page {page : Nat} (h : Missed sts num (128 * page))
    (hscan : Scanned sts (countDown num) (if num ≤ 128 then 128 * page else 0) (128 * (page + 1)) count) :
    Missed sts num (128 * (page + 1)) := by
  intro s hs hpage hrun
  have hpos : 0 < countDown num := countDown_pos
  by_cases hsmall : num ≤ 128
  · rw [if_pos hsmall] at hscan
    by_cases hfront : s < 128 * page
    · -- one that starts on a page in front also ends there
      have hsame := hpage hsmall
      exact h s (by omega) hpage hrun
    · exact hscan.missed s (by omega) hs hrun
  · rw [if_neg hsmall] at hscan
    exact hscan.missed s (Nat.zero_le s) hs hrun

/-- A run is taken from where free blocks start, or from the start of a page. -/
def AtFront (sts : Nat → BitVec 32) (s : Nat) : Prop := s % 128 = 0 ∨ freeBlock sts (s - 1) = false

/-- What the search comes to. -/
def Searched (sts : Nat → BitVec 32) (num pages : Nat) (found : Option (Nat × Nat) × Scan) : Prop :=
  (found.1 = none ∧ Missed sts num (128 * pages))
    ∨ ∃ w bit lo, found.1 = some (w, bit) ∧ lo % 128 = 0 ∧ FoundAt sts (countDown num) lo (128 * pages) w bit found.2
      ∧ OnPage num (32 * w + bit + 1 - countDown num) (countDown num)

variable (sts) in
/-- The pages, from one on. -/
theorem pageLoop_spec {page pages : Nat} {s : Scan} (hpage : page ≤ pages) (hpages : 128 * pages < 2 ^ 16)
    (hnum : num < 2 ^ 16) (hs : s.blkOffset = 128 * page) (hmissed : Missed sts num (128 * page))
    (h : ¬ num ≤ 128 → Scanned sts (countDown num) 0 (128 * page) s.count) :
    ∃ found, (Lib.Run.loop (pageRound sts num 4 pages) (page, s)).Returns found ∧ Searched sts num pages found := by
  obtain ⟨n, rfl⟩ := Nat.exists_eq_add_of_le hpage
  induction n generalizing page s with
  | zero =>
    refine ⟨(none, s), loop_done ?_, Or.inl ⟨rfl, hmissed⟩⟩
    rw [pageRound, if_neg (by dsimp only; omega)]
    exact returns_pure.mpr rfl
  | succ n ih =>
    have hnext : (page + 1) % 2 ^ 16 = page + 1 := by omega
    have hsum : page + (n + 1) = page + 1 + n := by omega
    obtain ⟨scan, hscan⟩ : ∃ scan : Scan, scan = if num ≤ 128 then { s with count := 0 } else s := ⟨_, rfl⟩
    have hoffset : scan.blkOffset = 128 * page + 32 * 0 := by
      rw [hscan]
      split <;> exact hs
    have hstart : Scanned sts (countDown num) (if num ≤ 128 then 128 * page else 0) (128 * page + 32 * 0) scan.count := by
      by_cases hsmall : num ≤ 128
      · rw [hscan, if_pos hsmall, if_pos hsmall]
        exact Scanned.start countDown_pos
      · rw [hscan, if_neg hsmall, if_neg hsmall]
        exact h hsmall
    obtain ⟨found, hloop, hfound⟩ := wordLoop_spec (k := 0) (by omega) (by omega) hnum hoffset hstart
    have hround : ∀ next, (if found.1.isSome then (.done found : Next (Nat × Scan) (Option (Nat × Nat) × Scan))
        else .again (page + 1, found.2)) = next → (pageRound sts num 4 (page + (n + 1)) (page, s)).Returns next := by
      intro next hnext'
      rw [pageRound, if_pos (show page < page + (n + 1) by omega)]
      dsimp only
      rw [← hscan, hnext]
      refine hloop.bind ?_
      split at hnext' <;> rename_i hsome
      · rw [if_pos hsome]
        exact returns_pure.mpr hnext'
      · rw [if_neg hsome]
        exact returns_pure.mpr hnext'
    rcases hfound with ⟨hnone, hoffset', hscanned⟩ | ⟨w, bit, hsome, hfound⟩
    · have hagain := hround (.again (page + 1, found.2)) (by rw [hnone]; rfl)
      have hscanned' : ¬ num ≤ 128 → Scanned sts (countDown num) 0 (128 * (page + 1)) found.2.count := by
        intro hsmall
        rwa [if_neg hsmall] at hscanned
      obtain ⟨r, hrest, hr⟩ := ih hoffset' (hmissed.page hscanned) hscanned' (by omega) (by omega)
      rw [hsum] at hagain ⊢
      exact ⟨r, loop_again hagain hrest, hr⟩
    · have hdone := hround (.done found) (by rw [hsome]; rfl)
      have hbelow := hfound.below
      have hfits := hfound.fits
      refine ⟨found, loop_done hdone, Or.inr ⟨w, bit, if num ≤ 128 then 128 * page else 0, hsome, ?_, ?_, fun hsmall => ?_⟩⟩
      · split <;> omega
      · exact ⟨hfound.bit_lt, by omega, hfits, hfound.run, hfound.front, hfound.blkOffset⟩
      · rw [if_pos hsmall] at hfits
        have hpos : 0 < countDown num := countDown_pos
        omega

/-! ## Calls -/

/-- A pool with four words of status bits for a page, and a number of blocks that `BlkOffset` can hold. -/
structure Pool.Sound (p : Pool) : Prop where
  dwords : p.memBlkStsBytes / 4 / p.memPages = 4
  pages : p.memPages ≤ 511

namespace Pool

def blocks (p : Pool) : Nat := 128 * p.memPages

def free (p : Pool) (b : Nat) : Bool := freeBlock p.memBlkSts b

/-- Where a block is. -/
def address (p : Pool) (b : Nat) : Nat := p.memBlockStart + b * 32

end Pool

variable {p : Pool} {numBlk : Nat}

theorem evenBlocks_lt (numBlk : Nat) : evenBlocks numBlk < 2 ^ 16 := Nat.mod_lt _ (by omega)

/-- An allocation takes a run of free blocks, or there is none. -/
theorem memAlloc_spec (hp : p.Sound) (hpos : 0 < numBlk) :
    ∃ r, (memAlloc p numBlk).Returns r
      ∧ ((r = (none, p) ∧ Missed p.memBlkSts (evenBlocks numBlk) p.blocks)
        ∨ ∃ s sts, r = (some (p.address s), { p with memBlkSts := sts }) ∧ s + countDown (evenBlocks numBlk) ≤ p.blocks
          ∧ RunFree p.memBlkSts s (countDown (evenBlocks numBlk))
          ∧ OnPage (evenBlocks numBlk) s (countDown (evenBlocks numBlk)) ∧ AtFront p.memBlkSts s
          ∧ ∀ b, freeBlock sts b = (p.free b && !decide (s ≤ b ∧ b < s + countDown (evenBlocks numBlk)))) := by
  have hpages := hp.pages
  have hpage : p.memPages ≠ 0 := by
    intro hzero
    have h := hp.dwords
    rw [hzero, Nat.div_zero] at h
    cases h
  have hmissed : Missed p.memBlkSts (evenBlocks numBlk) (128 * 0) := by
    intro s hs
    have hN : 0 < countDown (evenBlocks numBlk) := countDown_pos
    omega
  obtain ⟨found, hloop, hfound⟩ := pageLoop_spec p.memBlkSts (s := ⟨0, 0⟩) (Nat.zero_le p.memPages) (by omega)
    (evenBlocks_lt numBlk) rfl hmissed fun _ => Scanned.start countDown_pos
  obtain ⟨place, scan⟩ := found
  unfold memAlloc
  rw [if_neg (by omega), if_neg hpage, hp.dwords]
  rcases hfound with ⟨hnone, hall⟩ | ⟨w, bit, lo, hsome, hlo, hrun, honPage⟩
  · cases hnone
    exact ⟨(none, p), hloop.bind (returns_pure.mpr rfl), Or.inl ⟨rfl, hall⟩⟩
  · cases hsome
    have hbit := hrun.bit_lt
    have hbelow := hrun.below
    have hfits := hrun.fits
    -- a request that has come round to zero finds nothing on a page
    have hN : countDown (evenBlocks numBlk) = evenBlocks numBlk := by
      by_cases hzero : evenBlocks numBlk = 0
      · have hsame := honPage (by omega)
        rw [hzero] at hsame hfits
        have hlarge : countDown 0 = 65536 := rfl
        omega
      · exact if_neg hzero
    have hnum : 0 < evenBlocks numBlk := by
      rw [← hN]
      exact countDown_pos
    rw [hN] at hrun honPage ⊢
    have hfits' := hrun.fits
    obtain ⟨sts, hclear, hsts⟩ := clear_spec p.memBlkSts hnum (by omega) hbit (show w < 2 ^ 16 by omega)
    refine ⟨(some (p.memBlockStart + scan.blkOffset * 32), { p with memBlkSts := sts }),
      hloop.bind (hclear.bind (returns_pure.mpr rfl)), Or.inr ⟨32 * w + bit + 1 - evenBlocks numBlk, sts, ?_, ?_,
      hrun.run, honPage, ?_, fun b => ?_⟩⟩
    · rw [hrun.blkOffset]
      rfl
    · unfold Pool.blocks
      omega
    · by_cases hstart : lo < 32 * w + bit + 1 - evenBlocks numBlk
      · exact Or.inr (hrun.front hstart)
      · exact Or.inl (by omega)
    · have hruns : (32 * w + bit + 1 ≤ b + evenBlocks numBlk ∧ b ≤ 32 * w + bit)
          ↔ (32 * w + bit + 1 - evenBlocks numBlk ≤ b
            ∧ b < 32 * w + bit + 1 - evenBlocks numBlk + evenBlocks numBlk) := by
        omega
      rw [hsts, decide_eq_decide.mpr hruns]
      rfl

/-- What freeing does to the status bits. -/
theorem free_memFree {ptr : Nat} (hptr : p.rejects ptr = false) (b : Nat) :
    (memFree p ptr numBlk).2.free b = (p.free b || decide ((ptr - p.memBlockStart) % 2 ^ 16 / 32 ≤ b
      ∧ b < (ptr - p.memBlockStart) % 2 ^ 16 / 32 + countDown (evenBlocks numBlk))) := by
  have hnum : evenBlocks numBlk < 2 ^ 16 := evenBlocks_lt numBlk
  have hcount : countDown (evenBlocks numBlk) ≤ 2 ^ 16 := by
    unfold countDown
    split <;> omega
  have hplace : 32 * ((ptr - p.memBlockStart) % 2 ^ 16 / 32 / 32) + (ptr - p.memBlockStart) % 2 ^ 16 / 32 % 32
      = (ptr - p.memBlockStart) % 2 ^ 16 / 32 := Nat.div_add_mod _ 32
  have hset := freeBlock_setBits p.memBlkSts (n := countDown (evenBlocks numBlk))
    (Nat.mod_lt ((ptr - p.memBlockStart) % 2 ^ 16 / 32) (by omega)) (by rw [hplace]; omega) b
  rw [hplace] at hset
  unfold memFree
  rw [hptr]
  exact hset

end BayTrail.Usb.Allocator
