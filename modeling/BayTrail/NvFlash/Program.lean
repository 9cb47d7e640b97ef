import BayTrail.Lib.Bits

/-!
# Flash: compare and program

`IsProgrammableOrEqual` and `NvProgram` of NvramDxe.c. There is one memory for the flash and
the rest; addresses are counted from `FlashDeviceBase` on, modulo the size of the address
space, so that `BLOCK` rounds an address down to a multiple of the block size. A byte of the
flash is its content, whether it is loaded or comes from `Flash->Read`
(`FlashNotMemoryMapped`).

`FlashProgram` and `FlashEraseBlock` (FlashUpdate.c) wait for the chip and are parameters.
-/

namespace BayTrail.NvFlash

open BayTrail.Lib

/-! ## The flash -/

structure Geometry where
  /-- `FlashDeviceBase` -/
  base : Nat
  /-- `FlashBlockSize` -/
  blockSize : Nat
  blockSize_pos : 0 < blockSize
  /-- it is a `UINT32` -/
  blockSize_lt : blockSize < 2 ^ 32
  /-- `INT_SIZE` -/
  intSize : Nat
  intSize_pos : 0 < intSize
  /-- `FLASH_ERASE_POLARITY`: the value of an erased bit -/
  erasePolarity : Bool

/-- `FLASH_EMPTY_BYTE`. -/
def Geometry.emptyByte (g : Geometry) : UInt8 := if g.erasePolarity then 0xFF else 0

/-- `FlashProgram` and `FlashEraseBlock`: what they return, and the memory after them. -/
structure Ops where
  program : Mem → Nat → Bytes → Bool × Mem
  eraseBlock : Mem → Nat → Bool × Mem

/-- Each of them changes its own bytes only, and an erase that succeeds has erased them. -/
structure Ops.Lawful (g : Geometry) (ops : Ops) : Prop where
  program_frame : ∀ m p bs x, x < p ∨ p + bs.length ≤ x → (ops.program m p bs).2 x = m x
  erase_frame : ∀ m p x, x < p ∨ p + g.blockSize ≤ x → (ops.eraseBlock m p).2 x = m x
  erase_done : ∀ m p, (ops.eraseBlock m p).1 = true →
    ∀ x, p ≤ x → x < p + g.blockSize → (ops.eraseBlock m p).2 x = g.emptyByte

/-! ## IsProgrammableOrEqual -/

/-- `!((UINTN)p & (INT_SIZE-1))`. -/
def Geometry.aligned (g : Geometry) (p : Nat) : Bool := (g.base + p) % g.intSize == 0

/-- The test `(d&s)==0` on bytes. -/
def programmableByte (g : Geometry) (dest source : UInt8) : Bool :=
  if g.emptyByte = 0 then dest &&& ~~~source == 0 else ~~~dest &&& source == 0

/-- `~` on a `UINTN`. -/
def Geometry.complement (g : Geometry) (n : Nat) : Nat := 256 ^ g.intSize - 1 - n

/-- The same test on words. -/
def programmableWord (g : Geometry) (dest source : Nat) : Bool :=
  if g.emptyByte = 0 then dest &&& g.complement source == 0 else g.complement dest &&& source == 0

structure Verdict where
  programmable : Bool
  equal : Bool
  deriving DecidableEq, Repr

/-- The loop over words: `*pIsEqual` and the `Size` that is left, or nothing if it is left
early. `Source` is given by the bytes from there on. -/
def wordLoop (g : Geometry) (m : Mem) : Nat → Nat → Bytes → Bool → Option (Bool × Nat)
  | 0, _, source, equal => some (equal, source.length)
  | fuel + 1, dest, source, equal =>
    if source.length < g.intSize then some (equal, source.length)
    else
      let d := rd m g.intSize dest
      let s := leVal (source.take g.intSize)
      if programmableWord g d s then
        wordLoop g m fuel (dest + g.intSize) (source.drop g.intSize) (equal && d == s)
      else none

/-- The loop over bytes. -/
def byteLoop (g : Geometry) (m : Mem) : Nat → Bytes → Bool → Option Bool
  | _, [], equal => some equal
  | dest, s :: source, equal =>
    if programmableByte g (m dest) s then byteLoop g m (dest + 1) source (equal && m dest == s)
    else none

/-- `IsProgrammableOrEqual` for the `source` bytes at `pSource`. The loop over words has
pointers of its own: the loop over bytes starts at `pDest` and `pSource`. -/
def isProgrammableOrEqual (g : Geometry) (m : Mem) (pDest pSource : Nat) (source : Bytes) : Verdict :=
  let words :=
    if g.aligned pDest && g.aligned pSource then wordLoop g m source.length pDest source true
    else some (true, source.length)
  match words with
  | none => ⟨false, false⟩
  | some (equal, size) =>
    match byteLoop g m pDest (source.take size) equal with
    | none => ⟨false, false⟩
    | some equal => ⟨true, equal⟩

/-! ## NvProgram -/

/-- `NvProgram` for the `data` bytes at `pData`; `FlashProgram` is given the length as a
`UINT32`. -/
def nvProgram (g : Geometry) (ops : Ops) (m : Mem) (address pData : Nat) (data : Bytes) : Bool × Mem :=
  if data.length = 0 then (true, m)
  else
    let v := isProgrammableOrEqual g m address pData data
    if v.equal then (true, m)
    else if !v.programmable then (false, m)
    else
      let r := ops.program m address (data.take (data.length % 2 ^ 32))
      if r.1 then (peek r.2 address data.length == data, r.2) else r

/-! ## What they are for -/

/-- A byte can become another by programming: no bit goes back to the erased state. -/
def Reaches (g : Geometry) (dest source : UInt8) : Prop :=
  OneWay g.erasePolarity 8 dest.toNat source.toNat

def Programmable (g : Geometry) (m : Mem) (p : Nat) (data : Bytes) : Prop :=
  List.Forall₂ (Reaches g) (peek m p data.length) data

/-- The verdicts are right, and `NvProgram` keeps its word. -/
structure Faithful (g : Geometry) (m : Mem) (dest src : Nat) (data : Bytes) : Prop where
  equal : (isProgrammableOrEqual g m dest src data).equal = true ↔ Holds m dest data
  programmable : (isProgrammableOrEqual g m dest src data).programmable = true
    ↔ Programmable g m dest data
  program : ∀ ops : Ops, ops.Lawful g → (nvProgram g ops m dest src data).1 = true →
    Holds (nvProgram g ops m dest src data).2 dest data
      ∧ ∀ x, x < dest ∨ dest + data.length ≤ x → (nvProgram g ops m dest src data).2 x = m x

/-! ## One byte, one word -/

section

variable {g : Geometry} {m : Mem}

theorem Geometry.emptyByte_eq_zero (g : Geometry) : g.emptyByte = 0 ↔ g.erasePolarity = false := by
  unfold Geometry.emptyByte
  cases g.erasePolarity <;> decide

theorem programmableByte_iff (d s : UInt8) : programmableByte g d s = true ↔ Reaches g d s := by
  have hd : d.toNat < 2 ^ 8 := d.toNat_lt
  have hs : s.toNat < 2 ^ 8 := s.toNat_lt
  unfold programmableByte Reaches
  cases hp : g.erasePolarity with
  | false =>
    rw [if_pos (g.emptyByte_eq_zero.mpr hp), beq_iff_eq, ← UInt8.toNat_inj, UInt8.toNat_and,
      UInt8.toNat_not]
    exact land_complement_right hd hs
  | true =>
    rw [if_neg (by simp [g.emptyByte_eq_zero, hp]), beq_iff_eq, ← UInt8.toNat_inj, UInt8.toNat_and,
      UInt8.toNat_not]
    exact land_complement_left hd hs

theorem programmableWord_iff {ds ss : Bytes} (hd : ds.length = g.intSize) (hs : ss.length = g.intSize) :
    programmableWord g (leVal ds) (leVal ss) = true ↔ List.Forall₂ (Reaches g) ds ss := by
  have hpow : 256 ^ g.intSize = 2 ^ (8 * g.intSize) := by rw [Nat.pow_mul]
  have hd' : leVal ds < 2 ^ (8 * g.intSize) := by
    rw [← hpow, ← hd]
    exact leVal_lt ds
  have hs' : leVal ss < 2 ^ (8 * g.intSize) := by
    rw [← hpow, ← hs]
    exact leVal_lt ss
  have hiff := @oneWay_leVal g.erasePolarity ds ss (hd.trans hs.symm)
  rw [hd] at hiff
  refine Iff.trans ?_ hiff
  unfold programmableWord Geometry.complement
  rw [hpow]
  cases hp : g.erasePolarity with
  | false =>
    rw [if_pos (g.emptyByte_eq_zero.mpr hp), beq_iff_eq]
    exact land_complement_right hd' hs'
  | true =>
    rw [if_neg (by simp [g.emptyByte_eq_zero, hp]), beq_iff_eq]
    exact land_complement_left hd' hs'

/-! ## The loops -/

theorem programmable_nil (p : Nat) : Programmable g m p [] := List.Forall₂.nil

variable {p : Nat} {bs : Bytes}

theorem programmable_cons {b : UInt8} :
    Programmable g m p (b :: bs) ↔ Reaches g (m p) b ∧ Programmable g m (p + 1) bs :=
  List.forall₂_cons

theorem programmable_append {cs : Bytes} : Programmable g m p (bs ++ cs)
    ↔ Programmable g m p bs ∧ Programmable g m (p + bs.length) cs := by
  induction bs generalizing p with
  | nil => simp [programmable_nil]
  | cons b bs ih =>
    rw [List.cons_append, programmable_cons, programmable_cons, ih, List.length_cons, and_assoc,
      show p + 1 + bs.length = p + (bs.length + 1) by omega]

/-- The outcome of a loop that has looked at these bytes. -/
def Outcome (g : Geometry) (m : Mem) (p : Nat) (bs : Bytes) (equal : Bool) (res : Option Bool) : Prop :=
  match res with
  | none => ¬ Programmable g m p bs
  | some equal' => Programmable g m p bs ∧ (equal' = true ↔ equal = true ∧ Holds m p bs)

theorem byteLoop_outcome : ∀ {source : Bytes} {dest : Nat} {equal : Bool},
    Outcome g m dest source equal (byteLoop g m dest source equal) := by
  intro source
  induction source with
  | nil => exact fun {_ _} => ⟨programmable_nil _, by simp⟩
  | cons s source ih =>
    intro dest equal
    unfold byteLoop
    by_cases hb : programmableByte g (m dest) s = true
    · have hreach := (programmableByte_iff _ _).mp hb
      rw [if_pos hb]
      have IH := @ih (dest + 1) (equal && m dest == s)
      cases h : byteLoop g m (dest + 1) source (equal && m dest == s) with
      | none =>
        rw [h] at IH
        exact fun hp => IH (programmable_cons.mp hp).2
      | some e =>
        rw [h] at IH
        refine ⟨programmable_cons.mpr ⟨hreach, IH.1⟩, IH.2.trans ?_⟩
        rw [Bool.and_eq_true, beq_iff_eq, holds_cons, and_assoc]
    · rw [if_neg hb]
      exact fun hp => hb ((programmableByte_iff _ _).mpr (programmable_cons.mp hp).1)

/-- The loop over words looks at the whole words only. -/
theorem wordLoop_outcome : ∀ {fuel dest : Nat} {source : Bytes} {equal : Bool}, source.length ≤ fuel →
    let n := source.length - source.length % g.intSize
    Outcome g m dest (source.take n) equal ((wordLoop g m fuel dest source equal).map Prod.fst)
      ∧ ∀ res ∈ wordLoop g m fuel dest source equal, res.2 = source.length % g.intSize := by
  intro fuel
  induction fuel with
  | zero =>
    intro dest source equal h
    obtain rfl : source = [] := List.length_eq_zero_iff.mp (by omega)
    exact ⟨⟨programmable_nil _, by simp⟩, by simp [wordLoop]⟩
  | succ fuel ih =>
    intro dest source equal h
    unfold wordLoop
    by_cases hlt : source.length < g.intSize
    · rw [if_pos hlt, Nat.mod_eq_of_lt hlt, Nat.sub_self]
      exact ⟨⟨programmable_nil _, by simp⟩, by simp⟩
    have hpos := g.intSize_pos
    have hmod : (source.drop g.intSize).length % g.intSize = source.length % g.intSize := by
      rw [List.length_drop]
      exact (Nat.mod_eq_sub_mod (by omega)).symm
    have hle := Nat.mod_le (source.length - g.intSize) g.intSize
    have hlen : (source.drop g.intSize).length = source.length - g.intSize := List.length_drop
    obtain ⟨IH1, IH2⟩ := @ih (dest + g.intSize) (source.drop g.intSize)
      (equal && rd m g.intSize dest == leVal (source.take g.intSize)) (by omega)
    rw [hmod] at IH1 IH2
    -- the word in front, and the words behind it
    have hwordLen : (source.take g.intSize).length = g.intSize := by
      rw [List.length_take]
      omega
    have hsplit : source.take (source.length - source.length % g.intSize) = source.take g.intSize
        ++ (source.drop g.intSize).take ((source.drop g.intSize).length - source.length % g.intSize) := by
      rw [← List.take_add, hlen]
      congr 1
      rw [← hmod, hlen]
      omega
    have hword := programmableWord_iff (g := g) (peek_length m dest g.intSize) hwordLen
    have hprog : Programmable g m dest (source.take g.intSize)
        ↔ List.Forall₂ (Reaches g) (peek m dest g.intSize) (source.take g.intSize) := by
      unfold Programmable
      rw [hwordLen]
    have heq : rd m g.intSize dest = leVal (source.take g.intSize)
        ↔ Holds m dest (source.take g.intSize) := by
      unfold rd
      rw [leVal_inj (by rw [peek_length, hwordLen]), holds_iff_peek, hwordLen]
    simp only [if_neg hlt]
    rw [hsplit]
    by_cases hp : programmableWord g (rd m g.intSize dest) (leVal (source.take g.intSize)) = true
    · rw [if_pos hp]
      refine ⟨?_, IH2⟩
      revert IH1
      cases wordLoop g m fuel (dest + g.intSize) (source.drop g.intSize)
          (equal && rd m g.intSize dest == leVal (source.take g.intSize)) with
      | none =>
        intro IH1 hall
        refine IH1 ?_
        have := (programmable_append.mp hall).2
        rwa [hwordLen] at this
      | some res =>
        rintro ⟨h1, h2⟩
        refine ⟨programmable_append.mpr ⟨hprog.mpr (hword.mp hp), by rwa [hwordLen]⟩, h2.trans ?_⟩
        rw [Bool.and_eq_true, beq_iff_eq, heq, holds_append, hwordLen, and_assoc]
    · rw [if_neg hp]
      refine ⟨fun hall => hp ?_, by simp⟩
      exact hword.mpr (hprog.mp (programmable_append.mp hall).1)

/-! ## The verdict -/

/-- The bytes that `IsProgrammableOrEqual` looks at: behind whole words it looks at the first
bytes again. -/
def compared (g : Geometry) (dest src size : Nat) : Nat :=
  if (g.aligned dest && g.aligned src) = true ∧ g.intSize ≤ size then size - size % g.intSize else size

theorem Reaches.refl (b : UInt8) : Reaches g b b := fun _ _ h => h

theorem programmable_of_holds : ∀ {bs : Bytes} {p : Nat}, Holds m p bs → Programmable g m p bs := by
  intro bs
  induction bs with
  | nil => exact fun _ => programmable_nil _
  | cons b bs ih =>
    rintro p ⟨rfl, h⟩
    exact programmable_cons.mpr ⟨Reaches.refl _, ih h⟩

theorem Outcome.take {n k : Nat} {e e' : Bool} {res : Option Bool}
    (h : Outcome g m p (bs.take n) e (some e')) (hkn : k ≤ n) (h' : Outcome g m p (bs.take k) e' res) :
    Outcome g m p (bs.take n) e res := by
  have hsplit : bs.take n = bs.take k ++ (bs.drop k).take (n - k) := by
    rw [← List.take_add]
    congr 1
    omega
  have hprog : Programmable g m p (bs.take k) := by
    have := h.1
    rw [hsplit] at this
    exact (programmable_append.mp this).1
  have hholds : Holds m p (bs.take n) → Holds m p (bs.take k) := by
    intro hh
    rw [hsplit] at hh
    exact (holds_append.mp hh).1
  cases res with
  | none => exact absurd hprog h'
  | some e'' =>
    refine ⟨h.1, h'.2.trans ?_⟩
    rw [h.2]
    exact ⟨fun x => x.1, fun x => ⟨x, hholds x.2⟩⟩

theorem verdict_spec (dest src : Nat) (data : Bytes) :
    let v := isProgrammableOrEqual g m dest src data
    let c := compared g dest src data.length
    (v.programmable = true ↔ Programmable g m dest (data.take c))
      ∧ (v.equal = true ↔ Holds m dest (data.take c)) := by
  -- what follows from an outcome for these bytes
  have hfinal : ∀ {c : Nat} {res : Option Bool}, Outcome g m dest (data.take c) true res →
      let v : Verdict := match res with
        | none => ⟨false, false⟩
        | some equal => ⟨true, equal⟩
      (v.programmable = true ↔ Programmable g m dest (data.take c))
        ∧ (v.equal = true ↔ Holds m dest (data.take c)) := by
    intro c res h
    cases res with
    | none =>
      refine ⟨⟨fun hf => absurd hf (by simp), fun hp => absurd hp h⟩, fun hf => absurd hf (by simp),
        fun hh => absurd (programmable_of_holds hh) h⟩
    | some e => exact ⟨by simpa using h.1, by simpa using h.2⟩
  unfold isProgrammableOrEqual compared
  cases hal : (g.aligned dest && g.aligned src) with
  | false =>
    have hbytes : Outcome g m dest (data.take data.length) true
        (byteLoop g m dest (data.take data.length) true) := byteLoop_outcome
    simpa using hfinal hbytes
  | true =>
    obtain ⟨hw, hsize⟩ := @wordLoop_outcome g m data.length dest data true le_rfl
    have hmod := Nat.mod_lt data.length g.intSize_pos
    simp only [if_true, true_and]
    by_cases hle : g.intSize ≤ data.length
    · rw [if_pos hle]
      revert hw hsize
      cases wordLoop g m data.length dest data true with
      | none => exact fun hw _ => hfinal hw
      | some res =>
        intro hw hsize
        have hbytes : Outcome g m dest (data.take res.2) res.1
            (byteLoop g m dest (data.take res.2) res.1) := byteLoop_outcome
        have hres := hsize res rfl
        have hdiv := Nat.div_add_mod data.length g.intSize
        have hword := Nat.le_mul_of_pos_right g.intSize (Nat.div_pos hle g.intSize_pos)
        exact hfinal (hw.take (by omega) hbytes)
    · -- no word at all
      rw [if_neg hle]
      have hlen : data.length % g.intSize = data.length := Nat.mod_eq_of_lt (by omega)
      rw [hlen, Nat.sub_self, List.take_zero] at hw
      revert hw hsize
      cases wordLoop g m data.length dest data true with
      | none => exact fun hw _ => absurd (programmable_nil _) hw
      | some res =>
        intro hw hsize
        have he : res.1 = true := hw.2.mpr ⟨rfl, holds_nil _ _⟩
        have hbytes : Outcome g m dest (data.take res.2) res.1
            (byteLoop g m dest (data.take res.2) res.1) := byteLoop_outcome
        rw [he, hsize res rfl, hlen] at hbytes
        have hfin := hfinal hbytes
        rw [← he] at hfin
        simpa only [hsize res rfl, hlen, ← he] using hfin

/-! ## NvProgram -/

/-- What the loops do not look at makes no difference: it is equal, or can be programmed,
where the rest is. -/
structure Covered (g : Geometry) (m : Mem) (dest src : Nat) (data : Bytes) : Prop where
  equal : let c := compared g dest src data.length
    Holds m dest (data.take c) → Holds m (dest + c) (data.drop c)
  programmable : let c := compared g dest src data.length
    Programmable g m dest (data.take c) → Programmable g m (dest + c) (data.drop c)

theorem compared_le (g : Geometry) (dest src size : Nat) : compared g dest src size ≤ size := by
  unfold compared
  split
  · exact Nat.sub_le _ _
  · exact le_rfl

theorem take_compared_length (g : Geometry) (dest src : Nat) (data : Bytes) :
    (data.take (compared g dest src data.length)).length = compared g dest src data.length := by
  rw [List.length_take]
  exact Nat.min_eq_left (compared_le g dest src data.length)

/-- If the verdict on equality is right, `NvProgram` is. -/
theorem nvProgram_sound {ops : Ops} {dest src : Nat} {data : Bytes} (hops : ops.Lawful g)
    (hequal : (isProgrammableOrEqual g m dest src data).equal = true → Holds m dest data)
    (hok : (nvProgram g ops m dest src data).1 = true) :
    Holds (nvProgram g ops m dest src data).2 dest data
      ∧ ∀ x, x < dest ∨ dest + data.length ≤ x → (nvProgram g ops m dest src data).2 x = m x := by
  unfold nvProgram at hok ⊢
  by_cases h0 : data.length = 0
  · rw [if_pos h0, List.length_eq_zero_iff.mp h0]
    exact ⟨holds_nil _ _, fun _ _ => rfl⟩
  rw [if_neg h0] at hok ⊢
  simp only at hok ⊢
  by_cases he : (isProgrammableOrEqual g m dest src data).equal = true
  · rw [if_pos he]
    exact ⟨hequal he, fun _ _ => rfl⟩
  rw [if_neg he] at hok ⊢
  by_cases hp : (!(isProgrammableOrEqual g m dest src data).programmable) = true
  · rw [if_pos hp] at hok
    exact absurd hok (by simp)
  rw [if_neg hp] at hok ⊢
  have hframe := hops.program_frame m dest (data.take (data.length % 2 ^ 32))
  by_cases hr : (ops.program m dest (data.take (data.length % 2 ^ 32))).1 = true
  · -- the comparison after programming is of all bytes
    rw [if_pos hr] at hok ⊢
    refine ⟨holds_iff_peek.mpr (beq_iff_eq.mp hok), fun x hx => hframe x ?_⟩
    rw [List.length_take]
    omega
  · rw [if_neg hr] at hok
    exact absurd hok hr

/-- `IsProgrammableOrEqual` and `NvProgram` are right exactly if the bytes left out make no
difference. -/
theorem faithful_iff (g : Geometry) (m : Mem) (dest src : Nat) (data : Bytes) :
    Faithful g m dest src data ↔ Covered g m dest src data := by
  obtain ⟨hprog, hequal⟩ := verdict_spec (g := g) (m := m) dest src data
  have hlen := take_compared_length g dest src data
  have hsplit := List.take_append_drop (compared g dest src data.length) data
  -- the bytes as those that are looked at and the others
  have hholds : Holds m dest data ↔ Holds m dest (data.take (compared g dest src data.length))
      ∧ Holds m (dest + compared g dest src data.length) (data.drop (compared g dest src data.length)) := by
    conv_lhs => rw [← hsplit]
    rw [holds_append, hlen]
  have hprogs : Programmable g m dest data
      ↔ Programmable g m dest (data.take (compared g dest src data.length))
      ∧ Programmable g m (dest + compared g dest src data.length)
        (data.drop (compared g dest src data.length)) := by
    conv_lhs => rw [← hsplit]
    rw [programmable_append, hlen]
  constructor
  · intro F
    exact ⟨fun h => (hholds.mp (F.equal.mp (hequal.mpr h))).2,
      fun h => (hprogs.mp (F.programmable.mp (hprog.mpr h))).2⟩
  · intro C
    have he : (isProgrammableOrEqual g m dest src data).equal = true ↔ Holds m dest data := by
      rw [hequal, hholds]
      exact ⟨fun h => ⟨h, C.equal h⟩, fun h => h.1⟩
    refine ⟨he, ?_, fun ops hops hok => nvProgram_sound hops he.mp hok⟩
    rw [hprog, hprogs]
    exact ⟨fun h => ⟨h, C.programmable h⟩, fun h => h.1⟩

end

theorem spiFlash_blockSize_lt : 0x1000 < 2 ^ 32 := by decide

/-- A part with 4 KB blocks that erases to ones, on a machine of 64 bits. -/
def spiFlash : Geometry where
  base := 0
  blockSize := 0x1000
  blockSize_pos := Nat.zero_lt_succ _
  blockSize_lt := spiFlash_blockSize_lt
  intSize := 8
  intSize_pos := Nat.zero_lt_succ _
  erasePolarity := true

/-- Nine bytes, of which the first eight are erased ones, are taken to be in erased flash. -/
theorem not_faithful :
    ¬ Faithful spiFlash (fun _ => 0xFF) 0 0x10000 (List.replicate 8 0xFF ++ [0]) := by
  intro F
  have hholds := F.equal.mp (by decide)
  exact absurd (holds_append.mp hholds).2.1 (by decide)

end BayTrail.NvFlash
