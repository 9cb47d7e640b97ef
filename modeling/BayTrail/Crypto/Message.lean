import BayTrail.Crypto.Rounds
import BayTrail.SecureFlash.Capsule

/-!
# Messages in pieces

However a message is cut into pieces, the digest is that of the whole message with its padding, taken block by
block: one bit, zeros, and the length in bits modulo 2^64 at the end of the last block.
-/

namespace BayTrail.Crypto

open Lib SecureFlash

variable {small : Bool} {md : Sha256State} {a : Absorbed Chain UInt8} {n : Nat} {inp : Bytes}

/-! ## The pieces -/

/-- A state keeps what has been absorbed of a message, `n` bytes so far. -/
structure Keeps (md : Sha256State) (a : Absorbed Chain UInt8) (n : Nat) : Prop where
  state : md.state = a.chain
  isOpen : a.rest.length < 64
  curlen : md.curlen = a.rest.length
  buf : peek md.buf 0 md.curlen = a.rest
  length : md.length + BitVec.ofNat 64 (md.curlen * 8) = BitVec.ofNat 64 (n * 8)

theorem keeps_init (ctx : Sha256State) : Keeps (sha256Init ctx) ⟨firstChain, []⟩ 0 :=
  ⟨rfl, Nat.zero_lt_succ 63, rfl, rfl, rfl⟩

/-- A round of the loop takes some of the input. -/
theorem processBody_keeps (h : Keeps md a n) (hinp : inp ≠ []) : ∃ md' k, 0 < k ∧ k ≤ inp.length
    ∧ processBody small (md, inp) = pure (.again (md', inp.drop k))
    ∧ Keeps md' (a.absorb 64 (sha256Compress small) (inp.take k)) (n + k) := by
  have hlen : 0 < inp.length := List.length_pos_of_ne_nil hinp
  have hopen := h.isOpen
  have hcurlen := h.curlen
  unfold processBody
  dsimp only
  rw [if_neg hinp]
  by_cases hwhole : md.curlen = 0 ∧ 64 ≤ inp.length
  · obtain ⟨hzero, hle⟩ := hwhole
    have hrest : a.rest = [] := List.length_eq_zero_iff.mp (hcurlen.symm.trans hzero)
    have htake : (inp.take 64).length = 64 := List.length_take_of_le hle
    refine ⟨_, 64, by omega, hle, if_pos ⟨hzero, hle⟩, ?_⟩
    rw [Absorbed.absorb_full (by rw [hrest, htake]; rfl) (List.ne_nil_of_length_pos (by omega)), hrest]
    refine ⟨congrArg (sha256Compress small · _) h.state, Nat.zero_lt_succ 63, hzero, congrArg (peek md.buf 0) hzero, ?_⟩
    have hbits := h.length
    rw [hzero] at hbits ⊢
    rw [Nat.add_mul, BitVec.ofNat_add, ← hbits]
    simp
  · rw [if_neg hwhole]
    -- as many bytes as there is room for
    obtain ⟨k, hk⟩ : ∃ k, min inp.length (64 - md.curlen) = k := ⟨_, rfl⟩
    rw [hk]
    have htake : (inp.take k).length = k := List.length_take_of_le (by omega)
    have hpeek := peek_poke_end md.buf md.curlen (inp.take k)
    rw [htake, h.buf] at hpeek
    have hbits : md.length + BitVec.ofNat 64 ((md.curlen + k) * 8) = BitVec.ofNat 64 ((n + k) * 8) := by
      rw [Nat.add_mul, Nat.add_mul, BitVec.ofNat_add, BitVec.ofNat_add, ← h.length, BitVec.add_assoc]
    by_cases hfills : md.curlen + k = 64
    · refine ⟨_, k, by omega, by omega, if_pos hfills, ?_⟩
      rw [Absorbed.absorb_full (by omega) (List.ne_nil_of_length_pos (by omega))]
      rw [hfills] at hpeek hbits
      refine ⟨?_, Nat.zero_lt_succ 63, rfl, rfl, ?_⟩
      · rw [hpeek, h.state]
      · rw [← hbits]
        simp
    · refine ⟨_, k, by omega, by omega, if_neg hfills, ?_⟩
      rw [Absorbed.absorb_open (by omega)]
      have hlength : (a.rest ++ inp.take k).length = md.curlen + k := by rw [List.length_append, htake, hcurlen]
      exact ⟨h.state, lt_of_eq_of_lt hlength (by omega), hlength.symm, hpeek, hbits⟩

/-- A piece is absorbed. -/
theorem process_keeps (h : Keeps md a n) (inp : Bytes) : ∃ md', (sha256Process small md inp).Returns (0, md')
    ∧ Keeps md' (a.absorb 64 (sha256Compress small) inp) (n + inp.length) := by
  have hloop : ∃ md', (Run.loop (processBody small) (md, inp)).Returns md'
      ∧ Keeps md' (a.absorb 64 (sha256Compress small) inp) (n + inp.length) := by
    -- what is left of the input leads from what has been absorbed to the same end
    refine Run.loop_measure (P := fun s => ∃ a' n', Keeps s.1 a' n' ∧ n' + s.2.length = n + inp.length
        ∧ a'.absorb 64 (sha256Compress small) s.2 = a.absorb 64 (sha256Compress small) inp)
      (fun s => s.2.length) (fun s hs => ?_) ⟨a, n, h, rfl, rfl⟩
    obtain ⟨md', inp'⟩ := s
    obtain ⟨a', n', hkeeps, hcount, habsorb⟩ := hs
    by_cases hinp : inp' = []
    · subst hinp
      refine Or.inl ⟨md', ?_, ?_⟩
      · rw [processBody]
        exact Run.returns_pure.mpr rfl
      · rw [← habsorb, ← hcount]
        exact hkeeps
    · obtain ⟨md'', k, hk, hle, hbody, hkeeps⟩ := processBody_keeps hkeeps hinp
      dsimp only at hcount habsorb ⊢
      refine Or.inr ⟨(md'', inp'.drop k), ?_, ⟨_, _, hkeeps, ?_, ?_⟩, ?_⟩
      · rw [hbody]
        exact Run.returns_pure.mpr rfl
      · rw [List.length_drop]
        omega
      · rw [← habsorb, ← Absorbed.absorb_append, List.take_append_drop]
      · rw [List.length_drop]
        omega
  obtain ⟨md', hreturns, hkeeps⟩ := hloop
  refine ⟨md', ?_, hkeeps⟩
  rw [sha256Process, if_neg (by have := h.curlen; have := h.isOpen; omega)]
  exact hreturns.bind (Run.returns_pure.mpr rfl)

/-- All the pieces are. -/
theorem pieces_keep (small : Bool) (h : Keeps md a n) (pieces : List Bytes) :
    ∃ md', (pieces.foldlM (fun md piece => do
        let r ← sha256Process small md piece
        pure r.2) md : Run Sha256State).Returns md'
      ∧ Keeps md' (a.absorb 64 (sha256Compress small) pieces.flatten) (n + pieces.flatten.length) := by
  induction pieces generalizing md a n with
  | nil => exact ⟨md, Run.returns_pure.mpr rfl, h⟩
  | cons piece pieces ih =>
    obtain ⟨md₁, hfirst, h₁⟩ := process_keeps h piece
    obtain ⟨md', hrest, h'⟩ := ih h₁
    refine ⟨md', ?_, ?_⟩
    · rw [List.foldlM_cons]
      exact Run.Returns.bind (hfirst.bind (Run.returns_pure.mpr rfl)) hrest
    · rw [List.flatten_cons, Absorbed.absorb_append, List.length_append, ← Nat.add_assoc]
      exact h'

/-! ## The end of the message -/

/-- What follows a message of `n` bytes: the zeros go up to byte 56 of a block. -/
def padding (n : Nat) : Bytes :=
  0x80 :: (List.replicate ((119 - n % 64) % 64) 0 ++ putBe64 (BitVec.ofNat 64 (n * 8)))

/-- The message and its padding are whole blocks. -/
theorem padded_length (m : Bytes) : (m ++ padding m.length).length % 64 = 0 := by
  simp [padding, putBe64]
  omega

theorem zeroFill_eq (b : Mem) (c n : Nat) : zeroFill b c n = poke b c (List.replicate n 0) := by
  induction n generalizing b c with
  | zero => rw [zeroFill, List.replicate_zero, poke_nil]
  | succ n ih =>
    rw [zeroFill, ih]
    exact (poke_append b c [0] (List.replicate n 0)).symm

/-- The one bit with zeros behind it, and the block that they belong to. -/
theorem peek_bit (b : Mem) (c z : Nat) (bs : Bytes) (hc : c + 1 + z + bs.length = 64) :
    peek (poke (zeroFill (poke b c [0x80]) (c + 1) z) (c + 1 + z) bs) 0 64
      = peek b 0 c ++ 0x80 :: (List.replicate z 0 ++ bs) := by
  have hlength : (0x80 :: (List.replicate z 0 ++ bs)).length = 64 - c := by
    rw [List.length_cons, List.length_append, List.length_replicate]
    omega
  have hend := peek_poke_end b c (0x80 :: (List.replicate z 0 ++ bs))
  rw [hlength, Nat.add_sub_cancel' (show c ≤ 64 by omega), ← List.singleton_append, poke_append, poke_append,
    List.length_singleton, List.length_replicate] at hend
  rw [zeroFill_eq, hend]
  rfl

/-- The last blocks. -/
theorem done_keeps (h : Keeps md a n) (hc : a.rest.length = n % 64) :
    sha256Done small md = some (output (a.absorb 64 (sha256Compress small) (padding n)).chain) := by
  have hopen := h.isOpen
  have hcurlen : md.curlen = n % 64 := h.curlen.trans hc
  unfold sha256Done
  dsimp only
  rw [if_neg (by omega), h.length, padding, ← hcurlen]
  generalize hbits : putBe64 (BitVec.ofNat 64 (n * 8)) = bits
  have hlength : bits.length = 8 := by rw [← hbits]; rfl
  by_cases hroom : 56 < md.curlen + 1
  · rw [if_pos hroom]
    -- the one bit and zeros fill this block, zeros and the length the next
    have hsplit : 0x80 :: (List.replicate ((119 - md.curlen) % 64) 0 ++ bits)
        = (0x80 :: List.replicate (64 - (md.curlen + 1)) 0) ++ (List.replicate 56 0 ++ bits) := by
      rw [show (119 - md.curlen) % 64 = 64 - (md.curlen + 1) + 56 by omega, List.replicate_add, List.append_assoc,
        List.cons_append]
    have hfull := peek_bit md.buf md.curlen (64 - (md.curlen + 1)) [] (by rw [List.length_nil]; omega)
    rw [poke_nil, h.buf, List.append_nil] at hfull
    have hlast : ∀ b, peek (poke (zeroFill b 0 56) 56 bits) 0 64 = List.replicate 56 0 ++ bits := by
      intro b
      have hend := peek_poke_end (poke b 0 (List.replicate 56 0)) 56 bits
      have hzeros := peek_poke_end b 0 (List.replicate 56 0)
      rw [List.length_replicate] at hzeros
      rw [hlength, hzeros] at hend
      rw [zeroFill_eq, hend]
      rfl
    rw [hsplit, Absorbed.absorb_append,
      Absorbed.absorb_full (by rw [List.length_cons, List.length_replicate]; omega) (List.cons_ne_nil _ _),
      Absorbed.absorb_full (by simp [hlength]) (List.ne_nil_of_length_pos (by simp)),
      hfull, hlast, h.state]
    rfl
  · rw [if_neg hroom]
    -- the one bit, the zeros and the length fill this block
    have hzeros : (119 - md.curlen) % 64 = 56 - (md.curlen + 1) := by omega
    have hlast := peek_bit md.buf md.curlen (56 - (md.curlen + 1)) bits (by omega)
    rw [show md.curlen + 1 + (56 - (md.curlen + 1)) = 56 by omega, h.buf] at hlast
    rw [hzeros, Absorbed.absorb_full (by simp [hlength]; omega) (List.cons_ne_nil _ _), hlast, h.state]

/-- The digest of a message: all the blocks of the padded message, from the first values. -/
def digest (m : Bytes) : Bytes := output ((blocks 64 (m ++ padding m.length)).foldl compressSmall firstChain)

theorem output_length (state : Chain) : (output state).length = 32 := by
  simp [output, putBe32, List.length_flatMap]

theorem vector_returns (small : Bool) (ctx : Sha256State) (pieces : List Bytes) :
    (sha256Vector small ctx pieces).Returns (some (digest pieces.flatten)) := by
  obtain ⟨md, hreturns, h⟩ := pieces_keep small (keeps_init ctx) pieces
  rw [Nat.zero_add] at h
  refine hreturns.bind (Run.returns_pure.mpr ?_)
  have hrest : ((⟨firstChain, []⟩ : Absorbed Chain UInt8).absorb 64 (sha256Compress small)
      pieces.flatten).rest.length = pieces.flatten.length % 64 := by
    rw [Absorbed.absorb_blocks (show 0 < 64 by omega), List.length_drop]
    omega
  rw [done_keeps h hrest, ← Absorbed.absorb_append, Absorbed.absorb_whole (show 0 < 64 by omega) (padded_length _),
    sha256Compress_eq]
  rfl

/-- In either build, in however many pieces a message comes and whatever was in `ctx`, `sha256_vector` leaves the
digest of the whole message. -/
theorem sha256_vector_digest (small : Bool) (ctx : Sha256State) (pieces : List Bytes) :
    (sha256Vector small ctx pieces).Returns (some (digest pieces.flatten)) ∧ (digest pieces.flatten).length = 32 :=
  ⟨vector_returns small ctx pieces, output_length _⟩

end BayTrail.Crypto
