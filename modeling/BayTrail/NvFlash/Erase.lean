import BayTrail.NvFlash.Program

/-!
# Flash: erase

`IsClean` and `NvErase` of NvramDxe.c. The bytes of the first and the last block that are not
to be erased are loaded into a buffer and programmed again. A load need not give the content
of the flash (`FlashNotMemoryMapped`), so that it is a parameter.
-/

namespace BayTrail.NvFlash

open BayTrail.Lib

/-! ## IsClean -/

/-- `FlashEmpty`. -/
def Geometry.flashEmpty (g : Geometry) : Nat := if g.erasePolarity then 256 ^ g.intSize - 1 else 0

/-- The loop over words: `pDest` and `Size` behind it, or nothing if a word is not clean. -/
def cleanWords (g : Geometry) (m : Mem) : Nat → Nat → Nat → Option (Nat × Nat)
  | 0, pDest, size => some (pDest, size)
  | fuel + 1, pDest, size =>
    if size < g.intSize then some (pDest, size)
    else if rd m g.intSize pDest = g.flashEmpty then
      cleanWords g m fuel (pDest + g.intSize) (size - g.intSize)
    else none

def cleanBytes (g : Geometry) (m : Mem) : Nat → Nat → Bool
  | _, 0 => true
  | pDest, size + 1 => m pDest == g.emptyByte && cleanBytes g m (pDest + 1) size

def isClean (g : Geometry) (m : Mem) (pDest size : Nat) : Bool :=
  match if g.aligned pDest then cleanWords g m size pDest size else some (pDest, size) with
  | none => false
  | some (pDest, size) => cleanBytes g m pDest size

/-! ## NvErase -/

/-- `BLOCK`. -/
def Geometry.block (g : Geometry) (p : Nat) : Nat := p - p % g.blockSize

/-- The loop over the blocks behind the first. -/
def eraseLoop (g : Geometry) (ops : Ops) (pEndBlock : Nat) : Nat → Nat → Mem → Bool × Mem
  | 0, _, m => (true, m)
  | fuel + 1, p, m =>
    if p = pEndBlock then (true, m)
    else
      let r := ops.eraseBlock m p
      if r.1 then eraseLoop g ops pEndBlock fuel (p + g.blockSize) r.2 else r

/-- `pEndBlock`. -/
def Geometry.endBlock (g : Geometry) (address size : Nat) : Nat :=
  g.block (address + size - 1) + g.blockSize

def Geometry.prologSize (g : Geometry) (address : Nat) : Nat := address - g.block address

def Geometry.epilogSize (g : Geometry) (address size : Nat) : Nat :=
  g.endBlock address size - (address + size)

/-- `NvErase`. `load` is what loads give, and `buffer` what `SelectiveAllocate` returns. -/
def nvErase (g : Geometry) (ops : Ops) (load : Mem → Mem) (m : Mem) (address size : Nat)
    (buffer : Option Nat) : Bool × Mem :=
  let pEnd := address + size
  let pStartBlock := g.block address
  let pEndBlock := g.endBlock address size
  let prologSize := g.prologSize address
  let epilogSize := g.epilogSize address size
  if size = 0 ∨ isClean g m address size = true then (true, m)
  else if prologSize + epilogSize ≠ 0 ∧ buffer = none then (false, m)
  else
    let pBuffer := buffer.getD 0
    let prolog := peek (load m) pStartBlock prologSize
    let epilog := peek (load m) pEnd epilogSize
    -- erase first block
    let first := ops.eraseBlock m pStartBlock
    if !first.1 then first
    else
      let r := if prologSize ≠ 0 then nvProgram g ops first.2 pStartBlock pBuffer prolog
        else (true, first.2)
      if !r.1 then r
      else
        -- erase other blocks
        let r := eraseLoop g ops pEndBlock ((pEndBlock - pStartBlock) / g.blockSize)
          (pStartBlock + g.blockSize) r.2
        if r.1 && epilogSize ≠ 0 then nvProgram g ops r.2 pEnd (pBuffer + prologSize) epilog else r

/-- The range is erased, and nothing else has changed. -/
def KeepsNeighbours (g : Geometry) (load : Mem → Mem) (m : Mem) (address size : Nat)
    (buffer : Option Nat) : Prop :=
  ∀ ops : Ops, ops.Lawful g → (nvErase g ops load m address size buffer).1 = true →
    Holds (nvErase g ops load m address size buffer).2 address (List.replicate size g.emptyByte)
      ∧ ∀ x, x < address ∨ address + size ≤ x → (nvErase g ops load m address size buffer).2 x = m x

/-! ## Clean memory -/

section

variable {g : Geometry} {m : Mem} {p size : Nat}

theorem cleanBytes_iff : ∀ {size p : Nat},
    cleanBytes g m p size = true ↔ Holds m p (List.replicate size g.emptyByte) := by
  intro size
  induction size with
  | zero => exact fun {p} => by simp [cleanBytes]
  | succ size ih =>
    intro p
    rw [cleanBytes, Bool.and_eq_true, beq_iff_eq, ih, List.replicate_succ, holds_cons]

theorem leVal_empty (g : Geometry) : leVal (List.replicate g.intSize g.emptyByte) = g.flashEmpty := by
  unfold Geometry.emptyByte Geometry.flashEmpty
  generalize g.intSize = w
  cases g.erasePolarity with
  | false =>
    induction w with
    | zero => rfl
    | succ w ih =>
      rw [List.replicate_succ, leVal]
      simpa using ih
  | true =>
    induction w with
    | zero => rfl
    | succ w ih =>
      have hpos : 0 < 256 ^ w := Nat.pow_pos (by decide)
      rw [List.replicate_succ, leVal]
      simp only [if_true] at ih ⊢
      rw [ih, Nat.pow_succ, show (255 : UInt8).toNat = 255 from rfl]
      omega

theorem cleanWords_spec : ∀ {fuel p size : Nat},
    match cleanWords g m fuel p size with
    | none => ¬ Holds m p (List.replicate size g.emptyByte)
    | some (p', size') => Holds m p (List.replicate size g.emptyByte)
        ↔ Holds m p' (List.replicate size' g.emptyByte) := by
  intro fuel
  induction fuel with
  | zero => exact fun {_ _} => Iff.rfl
  | succ fuel ih =>
    intro p size
    unfold cleanWords
    by_cases hlt : size < g.intSize
    · rw [if_pos hlt]
    have hsplit : List.replicate size g.emptyByte = List.replicate g.intSize g.emptyByte
        ++ List.replicate (size - g.intSize) g.emptyByte := by
      rw [← List.replicate_add]
      congr 1
      omega
    have hword : rd m g.intSize p = g.flashEmpty
        ↔ Holds m p (List.replicate g.intSize g.emptyByte) := by
      rw [← leVal_empty, rd, leVal_inj (by rw [peek_length, List.length_replicate]), holds_iff_peek,
        List.length_replicate]
    rw [if_neg hlt, hsplit, holds_append, List.length_replicate, ← hword]
    by_cases he : rd m g.intSize p = g.flashEmpty
    · rw [if_pos he]
      have IH := @ih (p + g.intSize) (size - g.intSize)
      revert IH
      cases cleanWords g m fuel (p + g.intSize) (size - g.intSize) with
      | none => exact fun IH hh => IH hh.2
      | some r => exact fun IH => ⟨fun hh => IH.mp hh.2, fun hh => ⟨he, IH.mpr hh⟩⟩
    · rw [if_neg he]
      exact fun hh => he hh.1

theorem isClean_iff : isClean g m p size = true ↔ Holds m p (List.replicate size g.emptyByte) := by
  unfold isClean
  split
  · rename_i h
    split at h
    · have hspec := @cleanWords_spec g m size p size
      rw [h] at hspec
      exact ⟨fun hf => absurd hf (by simp), fun hh => absurd hh hspec⟩
    · exact absurd h (by simp)
  · rename_i p' size' h
    rw [cleanBytes_iff]
    split at h
    · have hspec := @cleanWords_spec g m size p size
      rw [h] at hspec
      exact hspec.symm
    · obtain ⟨rfl, rfl⟩ : p = p' ∧ size = size' := by simpa using h
      exact Iff.rfl

end

/-! ## Blocks -/

section

variable {g : Geometry} {ops : Ops} {m : Mem} {address size : Nat}

/-- The blocks of a range: the first one starts at most a block before it, and they end less
than a block behind it. -/
theorem blocks_spec (g : Geometry) (address : Nat) {size : Nat} (hsize : size ≠ 0) :
    g.block address ≤ address ∧ address < g.block address + g.blockSize
      ∧ address + size ≤ g.endBlock address size
      ∧ g.endBlock address size < address + size + g.blockSize
      ∧ ∃ n, g.endBlock address size = g.block address + g.blockSize + n * g.blockSize := by
  have hpos := g.blockSize_pos
  have h1 := Nat.mod_lt address hpos
  have h2 := Nat.mod_lt (address + size - 1) hpos
  have h3 := Nat.mod_le address g.blockSize
  have h4 := Nat.mod_le (address + size - 1) g.blockSize
  have hstart : g.block address = address / g.blockSize * g.blockSize := by
    have := Nat.div_add_mod' address g.blockSize
    unfold Geometry.block
    omega
  have hend : g.block (address + size - 1) = (address + size - 1) / g.blockSize * g.blockSize := by
    have := Nat.div_add_mod' (address + size - 1) g.blockSize
    unfold Geometry.block
    omega
  have hle : address / g.blockSize ≤ (address + size - 1) / g.blockSize :=
    Nat.div_le_div_right (by omega)
  obtain ⟨n, hn⟩ := Nat.exists_eq_add_of_le hle
  unfold Geometry.endBlock
  refine ⟨?_, ?_, ?_, ?_, n, ?_⟩
  · exact Nat.sub_le _ _
  · unfold Geometry.block
    omega
  · unfold Geometry.block
    omega
  · unfold Geometry.block
    omega
  · rw [hend, hstart, hn]
    ring

/-- The bytes around the range make up its blocks. -/
theorem parts_spec (g : Geometry) (address : Nat) {size : Nat} (hsize : size ≠ 0) :
    g.block address + g.prologSize address = address
      ∧ address + size + g.epilogSize address size = g.endBlock address size := by
  obtain ⟨h1, -, h2, -, -⟩ := blocks_spec g address hsize
  unfold Geometry.prologSize Geometry.epilogSize
  omega

theorem eraseLoop_frame (hops : ops.Lawful g) : ∀ {fuel n p x : Nat} {m : Mem},
    x < p ∨ p + n * g.blockSize ≤ x →
    (eraseLoop g ops (p + n * g.blockSize) fuel p m).2 x = m x := by
  intro fuel
  induction fuel with
  | zero => exact fun _ => rfl
  | succ fuel ih =>
    intro n p x m hx
    unfold eraseLoop
    by_cases h0 : n = 0
    · rw [h0, Nat.zero_mul, Nat.add_zero, if_pos rfl]
    have hpos := g.blockSize_pos
    obtain ⟨k, rfl⟩ : ∃ k, n = k + 1 := ⟨n - 1, by omega⟩
    have hend : p + (k + 1) * g.blockSize = p + g.blockSize + k * g.blockSize := by ring
    rw [hend] at hx ⊢
    have hblock : (ops.eraseBlock m p).2 x = m x := hops.erase_frame m p x (by omega)
    rw [if_neg (by omega)]
    simp only
    split
    · rw [ih (by omega)]
      exact hblock
    · exact hblock

theorem eraseLoop_spec (hops : ops.Lawful g) : ∀ {fuel n p x : Nat} {m : Mem}, n ≤ fuel →
    (eraseLoop g ops (p + n * g.blockSize) fuel p m).1 = true → p ≤ x → x < p + n * g.blockSize →
    (eraseLoop g ops (p + n * g.blockSize) fuel p m).2 x = g.emptyByte := by
  intro fuel
  induction fuel with
  | zero =>
    intro n p x m hn _ h1 h2
    obtain rfl : n = 0 := by omega
    omega
  | succ fuel ih =>
    intro n p x m hn hok h1 h2
    have hpos := g.blockSize_pos
    obtain ⟨k, rfl⟩ : ∃ k, n = k + 1 := Nat.exists_eq_add_one_of_ne_zero (by rintro rfl; omega)
    have hend : p + (k + 1) * g.blockSize = p + g.blockSize + k * g.blockSize := by ring
    unfold eraseLoop at hok ⊢
    rw [hend] at hok h2 ⊢
    rw [if_neg (by omega)] at hok ⊢
    simp only at hok ⊢
    by_cases he : (ops.eraseBlock m p).1 = true
    · rw [if_pos he] at hok ⊢
      by_cases h3 : p + g.blockSize ≤ x
      · exact ih (by omega) hok h3 h2
      · rw [eraseLoop_frame hops (Or.inl (by omega))]
        exact hops.erase_done m p he x h1 (by omega)
    · rw [if_neg he] at hok
      exact absurd hok he

/-- What `NvProgram` leaves of bytes that it is to write to erased flash: if the bytes that it
looks at are erased ones it does nothing. -/
def left (g : Geometry) (dest src : Nat) (data : Bytes) : Bytes :=
  let c := compared g dest src data.length
  if data.take c = List.replicate c g.emptyByte then List.replicate data.length g.emptyByte else data

@[simp] theorem left_length (g : Geometry) (dest src : Nat) (data : Bytes) :
    (left g dest src data).length = data.length := by
  unfold left
  simp only
  split
  · exact List.length_replicate
  · rfl

theorem equal_erased {dest src : Nat} {data : Bytes}
    (he : Holds m dest (List.replicate data.length g.emptyByte)) :
    (isProgrammableOrEqual g m dest src data).equal = true
      ↔ data.take (compared g dest src data.length)
        = List.replicate (compared g dest src data.length) g.emptyByte := by
  have hlen := take_compared_length g dest src data
  have herased := he.replicate_mono (k := compared g dest src data.length) le_rfl
    (Nat.add_le_add_left (compared_le g dest src data.length) dest)
  have hpeek := herased.peek_eq (List.length_replicate ..).symm
  rw [(verdict_spec dest src data).2, holds_iff_peek, hlen, hpeek]
  exact eq_comm

/-- `NvProgram` on erased flash. -/
theorem nvProgram_erased (hops : ops.Lawful g) {dest src : Nat} {data : Bytes}
    (he : Holds m dest (List.replicate data.length g.emptyByte))
    (hok : (nvProgram g ops m dest src data).1 = true) :
    Holds (nvProgram g ops m dest src data).2 dest (left g dest src data)
      ∧ ∀ x, x < dest ∨ dest + data.length ≤ x → (nvProgram g ops m dest src data).2 x = m x := by
  by_cases hskip : data.take (compared g dest src data.length)
      = List.replicate (compared g dest src data.length) g.emptyByte
  · have hequal := (equal_erased he).mpr hskip
    have hm : (nvProgram g ops m dest src data).2 = m := by
      unfold nvProgram
      rw [if_pos hequal]
      split <;> rfl
    rw [hm, left, if_pos hskip]
    exact ⟨he, fun _ _ => rfl⟩
  · rw [left, if_neg hskip]
    exact nvProgram_sound hops (fun h => absurd ((equal_erased he).mp h) hskip) hok

theorem nvProgram_frame (hops : ops.Lawful g) {m : Mem} {dest src x : Nat} {data : Bytes}
    (hx : x < dest ∨ dest + data.length ≤ x) : (nvProgram g ops m dest src data).2 x = m x := by
  have hframe := hops.program_frame m dest (data.take (data.length % 2 ^ 32)) x (by
    rw [List.length_take]
    omega)
  unfold nvProgram
  split
  · rfl
  · simp only
    split
    · rfl
    · split
      · rfl
      · split
        · exact hframe
        · exact hframe

/-- The saved bytes of a block are programmed again, if there are any. -/
def putBack (g : Geometry) (ops : Ops) (dest src : Nat) (data : Bytes) (r : Bool × Mem) :
    Bool × Mem :=
  if r.1 && data.length ≠ 0 then nvProgram g ops r.2 dest src data else r

section

variable {dest src : Nat} {data : Bytes} {r : Bool × Mem}

theorem putBack_frame (hops : ops.Lawful g) {x : Nat} (hx : x < dest ∨ dest + data.length ≤ x) :
    (putBack g ops dest src data r).2 x = r.2 x := by
  unfold putBack
  split
  · exact nvProgram_frame hops hx
  · rfl

theorem putBack_ok (h : (putBack g ops dest src data r).1 = true) : r.1 = true := by
  unfold putBack at h
  split at h
  · rename_i hb
    exact (Bool.and_eq_true_iff.mp hb).1
  · exact h

theorem putBack_spec (hops : ops.Lawful g)
    (he : ∀ x, dest ≤ x → x < dest + data.length → r.2 x = g.emptyByte)
    (hok : (putBack g ops dest src data r).1 = true) :
    Holds (putBack g ops dest src data r).2 dest (left g dest src data) := by
  have hr := putBack_ok hok
  unfold putBack at hok ⊢
  by_cases h0 : data.length = 0
  · have hnil : left g dest src data = [] :=
      List.length_eq_zero_iff.mp ((left_length g dest src data).trans h0)
    rw [hnil]
    exact holds_nil _ _
  · rw [if_pos (by simp [hr, h0])] at hok ⊢
    refine (nvProgram_erased hops (holds_iff_get.mpr fun i hi => ?_) hok).1
    rw [List.length_replicate] at hi
    rw [List.getElem_replicate]
    exact he _ (by omega) (by omega)

end

/-- The blocks behind the first, if all went well up to there. -/
def eraseOthers (g : Geometry) (ops : Ops) (address size : Nat) (r : Bool × Mem) : Bool × Mem :=
  if r.1 then eraseLoop g ops (g.endBlock address size)
    ((g.endBlock address size - g.block address) / g.blockSize) (g.block address + g.blockSize) r.2
  else r

section

variable {r : Bool × Mem} {x : Nat}

theorem eraseOthers_frame (hops : ops.Lawful g) (hsize : size ≠ 0)
    (hx : x < g.block address + g.blockSize ∨ g.endBlock address size ≤ x) :
    (eraseOthers g ops address size r).2 x = r.2 x := by
  obtain ⟨-, -, -, -, n, hT⟩ := blocks_spec g address hsize
  unfold eraseOthers
  split
  · rw [hT] at hx ⊢
    exact eraseLoop_frame hops hx
  · rfl

theorem eraseOthers_ok (h : (eraseOthers g ops address size r).1 = true) : r.1 = true := by
  unfold eraseOthers at h
  split at h
  · assumption
  · exact h

theorem eraseOthers_spec (hops : ops.Lawful g) (hsize : size ≠ 0)
    (hok : (eraseOthers g ops address size r).1 = true) (h1 : g.block address + g.blockSize ≤ x)
    (h2 : x < g.endBlock address size) :
    (eraseOthers g ops address size r).2 x = g.emptyByte := by
  obtain ⟨-, -, -, -, n, hT⟩ := blocks_spec g address hsize
  have hpos := g.blockSize_pos
  have hcount : (g.endBlock address size - g.block address) / g.blockSize = n + 1 := by
    rw [hT, Nat.add_assoc, Nat.add_sub_cancel_left, Nat.add_comm, Nat.add_div_right _ hpos,
      Nat.mul_div_cancel _ hpos]
  have hr := eraseOthers_ok hok
  unfold eraseOthers at hok ⊢
  rw [if_pos hr, hcount] at hok ⊢
  rw [hT] at hok h2 ⊢
  exact eraseLoop_spec hops (Nat.le_succ n) hok h1 h2

end

variable {load : Mem → Mem} {buffer : Option Nat}

/-- The steps of an erase that has something to do. -/
theorem nvErase_steps (hwork : ¬ (size = 0 ∨ isClean g m address size = true))
    (hbuf : ¬ (g.prologSize address + g.epilogSize address size ≠ 0 ∧ buffer = none)) :
    nvErase g ops load m address size buffer
      = putBack g ops (address + size) (buffer.getD 0 + g.prologSize address)
        (peek (load m) (address + size) (g.epilogSize address size))
        (eraseOthers g ops address size
          (putBack g ops (g.block address) (buffer.getD 0)
            (peek (load m) (g.block address) (g.prologSize address))
            (ops.eraseBlock m (g.block address)))) := by
  unfold nvErase putBack eraseOthers
  simp only [if_neg hwork, if_neg hbuf, peek_length]
  generalize ops.eraseBlock m (g.block address) = first
  cases first with
  | mk ok m1 =>
    cases ok with
    | false => rfl
    | true =>
      simp only [Bool.not_true, Bool.true_and, Bool.false_eq_true, if_false, decide_eq_true_eq]
      by_cases h0 : g.prologSize address = 0
      · simp [h0]
      · simp only [ne_eq, h0, not_false_eq_true, if_true]
        generalize nvProgram g ops m1 _ _ _ = second
        rcases second with ⟨_ | _, m2⟩ <;> simp

/-- What an erase leaves that succeeds. -/
theorem nvErase_spec (hops : ops.Lawful g)
    (hwork : ¬ (size = 0 ∨ isClean g m address size = true))
    (hok : (nvErase g ops load m address size buffer).1 = true) :
    ¬ (g.prologSize address + g.epilogSize address size ≠ 0 ∧ buffer = none)
      ∧ let m' := (nvErase g ops load m address size buffer).2
        Holds m' (g.block address) (left g (g.block address) (buffer.getD 0)
          (peek (load m) (g.block address) (g.prologSize address)))
        ∧ Holds m' address (List.replicate size g.emptyByte)
        ∧ Holds m' (address + size) (left g (address + size) (buffer.getD 0 + g.prologSize address)
          (peek (load m) (address + size) (g.epilogSize address size))) := by
  have hsize : size ≠ 0 := fun h => hwork (Or.inl h)
  obtain ⟨hS, hSB, hb, hbT, -⟩ := blocks_spec g address hsize
  obtain ⟨hP, hE⟩ := parts_spec g address hsize
  have hnobuf : ¬ (g.prologSize address + g.epilogSize address size ≠ 0 ∧ buffer = none) := by
    intro hnobuf
    unfold nvErase at hok
    simp only [if_neg hwork, if_pos hnobuf] at hok
    exact absurd hok (by simp)
  refine ⟨hnobuf, ?_⟩
  rw [nvErase_steps hwork hnobuf] at hok ⊢
  have hdone := hops.erase_done m (g.block address)
  generalize ops.eraseBlock m (g.block address) = first at hok hdone ⊢
  have hthird := putBack_ok hok
  have hsecond := eraseOthers_ok hthird
  have herased1 := hdone (putBack_ok hsecond)
  have hprolog := putBack_spec hops (fun x h1 h2 => herased1 x h1 (by
    rw [peek_length] at h2
    omega)) hsecond
  have hframe2 : ∀ {x}, g.block address + g.prologSize address ≤ x → _ = first.2 x := fun {x} hx =>
    @putBack_frame g ops _ (buffer.getD 0) (peek (load m) (g.block address) (g.prologSize address)) first hops x
      (Or.inr (by rwa [peek_length]))
  generalize putBack g ops (g.block address) _ _ first = second
    at hok hthird hsecond hprolog hframe2 ⊢
  -- the other blocks
  have hothers := @eraseOthers_spec g ops address size second
  have hframe3 := @eraseOthers_frame g ops address size second
  generalize eraseOthers g ops address size second = third at hok hthird hothers hframe3 ⊢
  have herased3 : ∀ x, address ≤ x → x < g.endBlock address size → third.2 x = g.emptyByte := by
    intro x h1 h2
    by_cases h3 : g.block address + g.blockSize ≤ x
    · exact hothers hops hsize hthird h3 h2
    · rw [hframe3 hops hsize (Or.inl (by omega)), hframe2 (by omega)]
      exact herased1 x (by omega) (by omega)
  -- the bytes behind
  have hepilog := putBack_spec hops (fun x h1 h2 => herased3 x (by omega) (by
    rw [peek_length] at h2
    omega)) hok
  have hframe4 : ∀ {x}, x < address + size → _ = third.2 x := fun {x} hx =>
    @putBack_frame g ops _ (buffer.getD 0 + g.prologSize address)
      (peek (load m) (address + size) (g.epilogSize address size)) third hops x (Or.inl hx)
  refine ⟨hprolog.congr fun x h2 h3 => ?_, holds_iff_get.mpr fun i hi => ?_, hepilog⟩
  · rw [left_length, peek_length] at h3
    rw [hframe4 (by omega), hframe3 hops hsize (Or.inl (by omega))]
  · rw [List.length_replicate] at hi
    rw [List.getElem_replicate, hframe4 (by omega)]
    exact herased3 _ (by omega) (by omega)

/-- An erase changes nothing outside of its blocks, whether it succeeds or not. -/
theorem nvErase_frame (hops : ops.Lawful g) {x : Nat}
    (hx : x < g.block address ∨ g.endBlock address size ≤ x) :
    (nvErase g ops load m address size buffer).2 x = m x := by
  by_cases hwork : size = 0 ∨ isClean g m address size = true
  · unfold nvErase
    simp only [if_pos hwork]
  by_cases hbuf : g.prologSize address + g.epilogSize address size ≠ 0 ∧ buffer = none
  · unfold nvErase
    simp only [if_neg hwork, if_pos hbuf]
  have hsize : size ≠ 0 := fun h => hwork (Or.inl h)
  obtain ⟨hS, hSB, hb, hbT, n, hT⟩ := blocks_spec g address hsize
  obtain ⟨hP, hE⟩ := parts_spec g address hsize
  rw [nvErase_steps hwork hbuf, putBack_frame hops (by rw [peek_length]; omega),
    eraseOthers_frame hops hsize (by omega), putBack_frame hops (by rw [peek_length]; omega)]
  exact hops.erase_frame m _ x (by omega)

/-! ## A flash without failures -/

/-- Erases and programs all that it is told. -/
def ideal (g : Geometry) : Ops where
  program m p bs := (true, poke m p bs)
  eraseBlock m p := (true, fun x => if p ≤ x ∧ x < p + g.blockSize then g.emptyByte else m x)

theorem ideal_lawful (g : Geometry) : (ideal g).Lawful g where
  program_frame _ _ _ _ h := poke_of_out h
  erase_frame _ _ _ h := if_neg (by omega)
  erase_done _ _ _ _ h1 h2 := if_pos ⟨h1, h2⟩

theorem reaches_erased (b : UInt8) : Reaches g g.emptyByte b := by
  intro k hk hne
  refine absurd ?_ hne
  unfold Geometry.emptyByte
  cases g.erasePolarity with
  | false => exact Nat.zero_testBit k
  | true =>
    show Nat.testBit (2 ^ 8 - 1) k = true
    rw [Nat.testBit_two_pow_sub_one]
    exact decide_eq_true hk

theorem programmable_erased : ∀ {data : Bytes} {p : Nat},
    (∀ x, p ≤ x → x < p + data.length → m x = g.emptyByte) → Programmable g m p data := by
  intro data
  induction data with
  | nil => exact fun _ => programmable_nil _
  | cons b bs ih =>
    intro p he
    rw [List.length_cons] at he
    refine programmable_cons.mpr ⟨?_, ih fun x h1 h2 => he x (by omega) (by omega)⟩
    rw [he p le_rfl (by omega)]
    exact reaches_erased b

theorem nvProgram_ideal {dest src : Nat} {data : Bytes} (hlen : data.length < 2 ^ 32)
    (he : ∀ x, dest ≤ x → x < dest + data.length → m x = g.emptyByte) :
    (nvProgram g (ideal g) m dest src data).1 = true := by
  have hle := compared_le g dest src data.length
  have hprog : (isProgrammableOrEqual g m dest src data).programmable = true := by
    rw [(verdict_spec dest src data).1]
    refine programmable_erased fun x h1 h2 => he x h1 ?_
    rw [take_compared_length] at h2
    omega
  unfold nvProgram
  by_cases h0 : data.length = 0
  · rw [if_pos h0]
  rw [if_neg h0]
  simp only [hprog, Bool.not_true, Bool.false_eq_true, if_false]
  split
  · rfl
  · rw [Nat.mod_eq_of_lt hlen, List.take_length]
    show (if true = true then _ else _ : Bool × Mem).1 = true
    rw [if_pos rfl]
    exact beq_iff_eq.mpr ((holds_poke m dest data).peek_eq rfl)

theorem putBack_ideal {dest src : Nat} {data : Bytes} {r : Bool × Mem} (hr : r.1 = true)
    (hlen : data.length < 2 ^ 32)
    (he : ∀ x, dest ≤ x → x < dest + data.length → r.2 x = g.emptyByte) :
    (putBack g (ideal g) dest src data r).1 = true := by
  unfold putBack
  split
  · exact nvProgram_ideal hlen he
  · exact hr

theorem eraseLoop_ideal (e : Nat) : ∀ {fuel p : Nat} {m : Mem},
    (eraseLoop g (ideal g) e fuel p m).1 = true := by
  intro fuel
  induction fuel with
  | zero => exact fun {_ _} => rfl
  | succ fuel ih =>
    intro p m
    unfold eraseLoop
    split
    · rfl
    · exact ih

theorem nvErase_ideal {load : Mem → Mem} {buffer : Option Nat}
    (hwork : ¬ (size = 0 ∨ isClean g m address size = true))
    (hbuf : ¬ (g.prologSize address + g.epilogSize address size ≠ 0 ∧ buffer = none)) :
    (nvErase g (ideal g) load m address size buffer).1 = true := by
  have hsize : size ≠ 0 := fun h => hwork (Or.inl h)
  obtain ⟨hS, hSB, hb, hbT, -⟩ := blocks_spec g address hsize
  obtain ⟨hP, hE⟩ := parts_spec g address hsize
  have hops := ideal_lawful g
  have hlt := g.blockSize_lt
  have hdone := hops.erase_done m (g.block address) rfl
  rw [nvErase_steps hwork hbuf]
  have hsecond := @putBack_ideal g (g.block address) (buffer.getD 0)
    (peek (load m) (g.block address) (g.prologSize address)) ((ideal g).eraseBlock m (g.block address))
    rfl (by rw [peek_length]; omega) fun x h1 h2 => hdone x h1 (by
      rw [peek_length] at h2
      omega)
  generalize hr : putBack g (ideal g) (g.block address) _ _ _ = second at hsecond ⊢
  have hthird : (eraseOthers g (ideal g) address size second).1 = true := by
    unfold eraseOthers
    rw [if_pos hsecond]
    exact eraseLoop_ideal _
  refine putBack_ideal hthird (by rw [peek_length]; omega) fun x h1 h2 => ?_
  rw [peek_length] at h2
  by_cases h3 : g.block address + g.blockSize ≤ x
  · exact eraseOthers_spec hops hsize hthird h3 (by omega)
  · rw [eraseOthers_frame hops hsize (Or.inl (by omega)),
      ← hr, putBack_frame hops (Or.inr (by rw [peek_length]; omega))]
    exact hdone x (by omega) (by omega)

end

/-! ## The neighbours -/

/-- The bytes in front of the range and behind it are those that are left of what has been
loaded of them. -/
def Restorable (g : Geometry) (load : Mem → Mem) (m : Mem) (address size : Nat) (buffer : Option Nat) :
    Prop :=
  let prolog := g.prologSize address
  let epilog := g.epilogSize address size
  left g (g.block address) (buffer.getD 0) (peek (load m) (g.block address) prolog)
      = peek m (g.block address) prolog
    ∧ left g (address + size) (buffer.getD 0 + prolog) (peek (load m) (address + size) epilog)
      = peek m (address + size) epilog

/-- An erase that succeeds, of bytes whose neighbours can be restored. -/
theorem nvErase_restored {g : Geometry} {ops : Ops} (hops : ops.Lawful g) {load : Mem → Mem} {m : Mem}
    {address size : Nat} {buffer : Option Nat}
    (hwork : ¬ (size = 0 ∨ isClean g m address size = true))
    (hres : Restorable g load m address size buffer)
    (hok : (nvErase g ops load m address size buffer).1 = true) :
    Holds (nvErase g ops load m address size buffer).2 address (List.replicate size g.emptyByte)
      ∧ ∀ x, x < address ∨ address + size ≤ x →
        (nvErase g ops load m address size buffer).2 x = m x := by
  obtain ⟨hP, hE⟩ := parts_spec g address (fun h => hwork (Or.inl h))
  obtain ⟨h1, h2⟩ := hres
  obtain ⟨-, hprolog, hrange, hepilog⟩ := nvErase_spec hops hwork hok
  refine ⟨hrange, fun x hx => ?_⟩
  rw [h1] at hprolog
  rw [h2] at hepilog
  by_cases hout : x < g.block address ∨ g.endBlock address size ≤ x
  · exact nvErase_frame hops hout
  obtain hx | hx := hx
  · have hget := holds_iff_peek.mp hprolog
    rw [peek_length] at hget
    exact peek_at hget (by omega) (by omega)
  · have hget := holds_iff_peek.mp hepilog
    rw [peek_length] at hget
    exact peek_at hget (by omega) (by omega)

/-- An erase keeps its neighbours exactly if it has nothing to do, has no buffer for them, or
can restore them. -/
theorem keepsNeighbours_iff (g : Geometry) (load : Mem → Mem) (m : Mem) (address size : Nat)
    (buffer : Option Nat) : KeepsNeighbours g load m address size buffer
      ↔ (size = 0 ∨ isClean g m address size = true)
        ∨ (g.prologSize address + g.epilogSize address size ≠ 0 ∧ buffer = none)
        ∨ Restorable g load m address size buffer := by
  by_cases hwork : size = 0 ∨ isClean g m address size = true
  · refine iff_of_true (fun ops hops _ => ?_) (Or.inl hwork)
    have hskip : nvErase g ops load m address size buffer = (true, m) := if_pos hwork
    rw [hskip]
    refine ⟨?_, fun _ _ => rfl⟩
    obtain rfl | hclean := hwork
    · exact holds_nil _ _
    · exact isClean_iff.mp hclean
  by_cases hbuf : g.prologSize address + g.epilogSize address size ≠ 0 ∧ buffer = none
  · refine iff_of_true (fun ops hops hok => ?_) (Or.inr (Or.inl hbuf))
    exact absurd hbuf (nvErase_spec hops hwork hok).1
  obtain ⟨hP, hE⟩ := parts_spec g address (fun h => hwork (Or.inl h))
  rw [or_iff_right hwork, or_iff_right hbuf]
  constructor
  · intro h
    have hok := @nvErase_ideal g m address size load buffer hwork hbuf
    obtain ⟨-, hprolog, -, hepilog⟩ := nvErase_spec (ideal_lawful g) hwork hok
    obtain ⟨-, hframe⟩ := h (ideal g) (ideal_lawful g) hok
    constructor
    · rw [← @Holds.peek_eq _ _ (g.prologSize address) _ hprolog (by simp)]
      exact peek_congr fun x h1 h2 => hframe x (Or.inl (by omega))
    · rw [← @Holds.peek_eq _ _ (g.epilogSize address size) _ hepilog (by simp)]
      exact peek_congr fun x h1 h2 => hframe x (Or.inr (by omega))
  · exact fun hres ops hops hok => nvErase_restored hops hwork hres hok

/-- Flash that is erased but for a byte in front of the range and one in it. -/
def dirty : Mem := fun x => if x = 8 ∨ x = 0x20 then 0 else 0xFF

/-- The byte at 8 is not programmed again, since the eight in front of it are erased ones. -/
theorem not_keepsNeighbours :
    ¬ KeepsNeighbours spiFlash id dirty 9 (0x1000 - 9) (some 0x100000) := by
  intro h
  have hwork : ¬ (0x1000 - 9 = 0 ∨ isClean spiFlash dirty 9 (0x1000 - 9) = true) := by
    rintro (h0 | hclean)
    · exact absurd h0 (by decide)
    · have hbyte := (isClean_iff.mp hclean).replicate_at (show 9 ≤ 0x20 by decide) (by decide)
      exact absurd hbyte (by decide)
  have hok := @nvErase_ideal spiFlash dirty 9 (0x1000 - 9) id (some 0x100000) hwork (by simp)
  obtain ⟨-, hprolog, -⟩ := nvErase_spec (ideal_lawful spiFlash) hwork hok
  have hbyte := (h (ideal spiFlash) (ideal_lawful spiFlash) hok).2 8 (by decide)
  have hleft : left spiFlash (spiFlash.block 9) 0x100000
      (peek dirty (spiFlash.block 9) (spiFlash.prologSize 9)) = List.replicate 9 0xFF := by decide
  simp only [Option.getD_some, id_eq, hleft] at hprolog
  have hgone := hprolog.replicate_at (show spiFlash.block 9 ≤ 8 by decide) (by decide)
  rw [hbyte] at hgone
  exact absurd hgone (by decide)

end BayTrail.NvFlash
