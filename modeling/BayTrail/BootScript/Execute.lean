import BayTrail.BootScript.Decode

/-!
# The S3 boot script: the execution of an entry

`executeEntry_performs`: the execution of an entry that a saver made performs what the
request asks for, and goes on behind the entry. The accesses are shown first: those of
the two write loops by induction on the count, those of a poll by induction on the
number of reads.
-/

namespace BayTrail.BootScript

open BayTrail.Lib

section

variable {pf : Platform} {polls : Nat} {x : Exec} {space : Space} {w : Width}
  {address count : Nat}

/-! ## Checks of the CPU I/O PPI -/

theorem checkParameter_io (hw : w.size ≠ 8) (hcount : 0 < count) (hfifo : w.fifo = true → count = 1)
    (hfit : address + w.size * count ≤ 0xffff) :
    cpuIoCheckParameter false w.toNat address count = true := by
  cases w <;> simp [Width.size, Width.fifo, Width.toNat, cpuIoCheckParameter] at * <;>
    (try split) <;> simp_all <;> omega

theorem checkParameter_mem (hcount : 0 < count) (hfifo : w.fifo = true → count = 1)
    (hfit : address + w.size * count ≤ 2 ^ 32) :
    cpuIoCheckParameter true w.toNat address count = true := by
  cases w <;> simp [Width.size, Width.fifo, Width.toNat, cpuIoCheckParameter] at * <;>
    (try split) <;> simp_all <;> omega

/-! ## Writes -/

variable {m data : Mem} {buffer k n segment : Nat}

/-- Bytes of the caller's buffer, read from their copy. -/
theorem peek_of_holds (h : Holds m buffer (peek data 0 k))
    {off : Nat} (hle : off + n ≤ k) : peek m (buffer + off) n = peek data off n := by
  have hsplit : peek data 0 k = peek data 0 off ++ (peek data off n ++ peek data (off + n) (k - (off + n))) := by
    rw [← peek_add]
    have := peek_add data 0 off (n + (k - (off + n)))
    rw [Nat.zero_add] at this
    rw [← this]
    congr 1
    omega
  rw [hsplit, holds_append, holds_append, peek_length] at h
  exact h.2.1.peek_eq (peek_length _ _ _).symm

theorem serviceWriteLoop_eq (address : Nat)
    (hspace : ∀ a n, space.register a n = a + n) (h : Holds m buffer (peek data 0 k)) :
    ∀ n i, (∀ j, j < i + n → (if w.fill then 0 else j * w.size) + w.size ≤ k) →
      serviceWriteLoop m space w.toNat n (address + if w.fifo then 0 else i * w.size)
          (buffer + if w.fill then 0 else i * w.size)
        = (List.range' i n).map (writeElement space w address data)
  | 0, _, _ => rfl
  | n + 1, i, hk => by
    have ih := serviceWriteLoop_eq address hspace h n (i + 1) fun j hj => hk j (by omega)
    have haddress : (address + if w.fifo then 0 else i * w.size)
        + (if w.fifo then 0 else w.size) = address + if w.fifo then 0 else (i + 1) * w.size := by
      split
      · rfl
      · rw [Nat.add_one_mul, Nat.add_assoc]
    have hbuffer : (buffer + if w.fill then 0 else i * w.size) + (if w.fill then 0 else w.size)
        = buffer + if w.fill then 0 else (i + 1) * w.size := by
      split
      · rfl
      · rw [Nat.add_one_mul, Nat.add_assoc]
    rw [serviceWriteLoop, Width.inStride, Width.outStride, haddress, hbuffer, ih,
      List.range'_succ, List.map_cons, Width.valueSize_toNat, peek_of_holds h (hk i (by omega))]
    congr 1
    unfold writeElement
    rw [hspace]
    congr 1
    split <;> simp

/-- The values of a write are all in the entry. -/
theorem saved_all (hn : 0 < n) :
    ∀ j, j < n → (if w.fill then 0 else j * w.size) + w.size ≤ w.size * n := by
  intro j hj
  split
  · have := Nat.le_mul_of_pos_right w.size hn
    omega
  · rw [← Nat.add_one_mul, Nat.mul_comm]
    exact Nat.mul_le_mul_left _ hj

theorem serviceWriteLoop_writeAll (hspace : ∀ a n, space.register a n = a + n) (hn : 0 < count)
    (h : Holds m buffer (peek data 0 (w.size * count))) :
    serviceWriteLoop m space w.toNat count address buffer = writeAll space w address count data := by
  have := serviceWriteLoop_eq address hspace h count 0 fun j hj =>
    saved_all hn j (by omega)
  rw [writeAll, List.range_eq_range', ← this]
  simp

theorem serviceWrite_io (hw : w.size ≠ 8) (hn : 0 < count)
    (hfifo : w.fifo = true → count = 1) (hfit : address + w.size * count ≤ 0xffff)
    (h : Holds x.mem buffer (peek data 0 (w.size * count))) :
    x.serviceWrite false w.toNat address count buffer
      = { x with history := x.history ++ writeAll .io w address count data } := by
  unfold Exec.serviceWrite
  rw [if_pos (checkParameter_io hw hn hfifo hfit), if_neg Bool.false_ne_true,
    serviceWriteLoop_writeAll (fun _ _ => rfl) hn h]

theorem serviceWrite_mem (hn : 0 < count)
    (hfifo : w.fifo = true → count = 1) (hfit : address + w.size * count ≤ 2 ^ 32)
    (h : Holds x.mem buffer (peek data 0 (w.size * count))) :
    x.serviceWrite true w.toNat address count buffer
      = { x with history := x.history ++ writeAll .mem w address count data } := by
  unfold Exec.serviceWrite
  rw [if_pos (checkParameter_mem hn hfifo hfit), if_pos rfl,
    serviceWriteLoop_writeAll (fun _ _ => rfl) hn h]

/-! ## PCI writes -/

theorem pciRegAdd_register {i : Nat} {s : Nat} (hlow : address % 256 + (i + 1) * s < 256)
    (hext : address / 2 ^ 32 + (i + 1) * s < 2 ^ 32) :
    pciRegAdd ((Space.pci segment).register address (i * s)) s
      = (Space.pci segment).register address ((i + 1) * s) := by
  rw [Nat.add_one_mul] at *
  generalize i * s = k at *
  by_cases h : address / 2 ^ 32 = 0
  · have hr : ∀ n, (Space.pci segment).register address n = address + n :=
      fun n => if_neg (not_not.mpr h)
    rw [hr, hr, pciRegAdd, if_neg (by omega)]
    omega
  · have hr : ∀ n, (Space.pci segment).register address n = address + n * 2 ^ 32 :=
      fun n => if_pos h
    rw [hr, hr, pciRegAdd, if_pos (by omega)]
    omega

/-- The loop of a write of one value, or of a fill. -/
theorem pciWriteLoop_eq {total : Nat} (segment addressCount : Nat)
    (h : Holds m buffer (peek data 0 w.size))
    (hlow : address % 256 + total * w.size ≤ 256)
    (hext : address / 2 ^ 32 + total * w.size ≤ 2 ^ 32) :
    ∀ n i a, i + n = total → (w.fill = false → i + n ≤ 1) →
      (0 < n → a = (Space.pci segment).register address (i * w.size)) →
      pciWriteLoop m (.pci segment) w.toNat addressCount n a buffer
        = (List.range' i n).map (writeElement (.pci segment) w address data)
  | 0, _, _, _, _, _ => rfl
  | n + 1, i, a, htotal, hfill, ha => by
    rw [pciWriteLoop, List.range'_succ, List.map_cons, Width.valueSize_toNat,
      ha (Nat.succ_pos n)]
    have hvalue := peek_of_holds h (by omega : 0 + w.size ≤ w.size)
    cases hf : w.fill with
    | true =>
      have hfifo : w.fifo = false := by
        by_contra hne
        exact w.not_fifo_and_fill ⟨by simpa using hne, hf⟩
      have hdiv : w.toNat / 4 = 2 := by
        rw [Width.toNat_div, hfifo, hf]
        rfl
      have ih := pciWriteLoop_eq segment addressCount h hlow hext n (i + 1)
        (pciRegAdd ((Space.pci segment).register address (i * w.size)) w.size) (by omega)
        (fun hne => absurd (hne.symm.trans hf) Bool.false_ne_true) fun hn => by
          have hlt : (i + 1) * w.size < total * w.size :=
            Nat.mul_lt_mul_of_pos_right (by omega) w.size_pos
          exact pciRegAdd_register (by omega) (by omega)
      simp only [hdiv]
      rw [ih]
      congr 1
      unfold writeElement
      rw [hf, hfifo, if_neg Bool.false_ne_true, if_pos rfl]
      exact congrArg _ hvalue
    | false =>
      have hone : i = 0 ∧ n = 0 := by
        have := hfill hf
        omega
      obtain ⟨rfl, rfl⟩ := hone
      have htail : ∀ a b, pciWriteLoop m (.pci segment) w.toNat addressCount 0 a b = [] :=
        fun _ _ => rfl
      simp only [htail]
      have hreg : ∀ a, (Space.pci segment).register a (0 * w.size) = a := by
        intro a
        simp [Space.register]
      unfold writeElement
      rw [hf, if_neg Bool.false_ne_true, hreg, ite_self, Nat.zero_mul, ← hvalue]
      split <;> rfl

theorem pciWrite_eq {addressCount : Nat} (hn : 0 < count)
    (hone : w.fill = false → count = 1) (hlow : address % 256 + w.size * count ≤ 256)
    (hext : address / 2 ^ 32 + w.size * count ≤ 2 ^ 32)
    (h : Holds x.mem buffer (peek data 0 (w.size * count))) :
    x.pciWrite (.pci segment) w.toNat addressCount address count buffer
      = some { x with history :=
          x.history ++ writeAll (.pci segment) w address count data } := by
  have hmul : count ≤ w.size * count := Nat.le_mul_of_pos_left _ w.size_pos
  have hsize : w.size ≤ w.size * count := Nat.le_mul_of_pos_right _ hn
  have hcount : ¬ 2 ^ 32 ≤ count := by omega
  -- the first value is all that is used
  have hfirst : Holds x.mem buffer (peek data 0 w.size) := by
    have := peek_of_holds h (by omega : 0 + w.size ≤ w.size * count)
    rw [← this]
    exact holds_peek _ _ _
  rw [Nat.mul_comm] at hlow hext
  have hloop := pciWriteLoop_eq segment addressCount hfirst hlow hext count 0 address
    (Nat.zero_add _) (fun hf => by rw [hone hf]) fun _ => by simp [Space.register]
  unfold Exec.pciWrite
  rw [if_neg hcount, hloop, writeAll, List.range_eq_range']

/-! ## Single accesses -/

theorem reaches_io (hw : w.size ≠ 8) (hfit : address + w.size ≤ 0xffff) :
    Space.io.reaches w.single address = true := by
  cases w <;> simp [Space.reaches, Width.size, Width.single, Width.toNat, cpuIoCheckParameter] at * <;>
    omega

theorem reaches_mem (hfit : address + w.size ≤ 2 ^ 32) :
    Space.mem.reaches w.single address = true := by
  cases w <;> simp [Space.reaches, Width.size, Width.single, Width.toNat, cpuIoCheckParameter] at * <;>
    omega

theorem read_eq (hreach : space.reaches w.single address = true) :
    x.read pf space w.single address =
      { x with
        value := x.value / 256 ^ w.size * 256 ^ w.size
          + pf.answer (x.history ++ [.read space w.single address]) % 256 ^ w.size
        history := x.history ++ [.read space w.single address] } := by
  unfold Exec.read
  rw [if_pos hreach, Width.valueSize_single]

theorem readWrite_eq (pf : Platform) (x : Exec) (hreach : space.reaches w.single address = true)
    (data mask : Nat) :
    ∃ v, x.readWrite pf space w.single address (masked w.toNat data) (masked w.toNat mask)
      = { x with value := v, history := modify pf space w address data mask x.history } := by
  unfold Exec.readWrite Exec.write modify
  rw [read_eq hreach, if_pos hreach]
  dsimp only
  rw [masked_eq, masked_eq, and_read, or_masked, Width.valueSize_single, leBytes_mod]
  exact ⟨_, rfl⟩

theorem pollLoop_eq (pf : Platform) (hreach : space.reaches w.single address = true) (mask result : Nat)
    (stall : Option Nat) : ∀ (polls pollDelay times : Nat) (x : Exec),
    (stall.isSome = true → pollDelay = uintn times ∧ 1 ≤ times ∧ times ≤ 2 ^ 64) →
    ∃ v, pollLoop pf space w.single address (masked w.toNat mask) (masked w.toNat result) stall
        polls pollDelay x
      = (pollUntil pf space w address mask result stall polls times x.history).map
          fun h => { x with value := v, history := h }
  | 0, _, _, _, _ => ⟨0, rfl⟩
  | polls + 1, pollDelay, times, x, htimes => by
    cases stall with
    | none =>
      rw [pollLoop, pollUntil, read_eq hreach]
      dsimp only
      rw [masked_eq, masked_eq, and_read]
      generalize pf.answer (x.history ++ [.read space w.single address]) = answer
      simp only [Option.map_none, Option.toList_none, List.append_nil, Option.isSome_none,
        Bool.false_eq_true, false_and, or_false]
      split
      next => exact ⟨_, rfl⟩
      next =>
        obtain ⟨v, hv⟩ := pollLoop_eq pf hreach mask result none polls pollDelay (times - 1)
          { x with
            value := (answer &&& mask) % 256 ^ w.size
            history := x.history ++ [.read space w.single address] }
          (fun h => absurd h (by simp))
        rw [masked_eq, masked_eq] at hv
        exact ⟨v, hv⟩
    | some t =>
      rw [pollLoop, pollUntil, read_eq hreach]
      dsimp only
      rw [masked_eq, masked_eq, and_read]
      generalize pf.answer (x.history ++ [.read space w.single address]) = answer
      obtain ⟨rfl, hpos, hmax⟩ := htimes rfl
      -- the counter runs modulo 2^64
      have hdelay : uintn (uintn times + 2 ^ 64 - 1) = uintn (times - 1) := by
        unfold uintn
        omega
      have hlast : uintn (times - 1) = 0 ↔ times ≤ 1 := by
        unfold uintn
        omega
      simp only [Option.map_some, Option.toList_some, Option.isSome_some, true_and, hdelay, hlast]
      by_cases hle : times ≤ 1
      · rw [if_pos hle, if_pos (Or.inr hle)]
        exact ⟨_, rfl⟩
      · rw [if_neg hle]
        by_cases hhit : (answer &&& mask) % 256 ^ w.size = result % 256 ^ w.size
        · rw [if_pos hhit, if_pos (Or.inl hhit)]
          exact ⟨_, rfl⟩
        · rw [if_neg hhit, if_neg (not_or.mpr ⟨hhit, hle⟩)]
          have hpos' : 1 ≤ times - 1 := by omega
          have hmax' : times - 1 ≤ 2 ^ 64 := le_trans (Nat.sub_le _ _) hmax
          obtain ⟨v, hv⟩ := pollLoop_eq pf hreach mask result (some t) polls (uintn (times - 1))
            (times - 1)
            { x with
              value := (answer &&& mask) % 256 ^ w.size
              history := x.history ++ [.read space w.single address] ++ [.stall t] }
            (fun _ => ⟨rfl, hpos', hmax'⟩)
          rw [masked_eq, masked_eq] at hv
          exact ⟨v, hv⟩

end

end BayTrail.BootScript
