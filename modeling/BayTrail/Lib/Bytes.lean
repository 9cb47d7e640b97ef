import Mathlib.Data.List.Pairwise
import Mathlib.Data.UInt
import Mathlib.Algebra.Order.BigOperators.Group.List
import Mathlib.Tactic.Ring

/-!
# Byte memory

A byte-addressed memory is a total function from addresses to bytes. `peek`
and `poke` move byte strings out of and into it, `Holds m p bs` says that the
bytes `bs` stand at address `p`, and `leBytes`/`leVal` are the little-endian
encoding of naturals. Everything a verified byte-level program needs from its
memory is a *frame* fact (a write leaves what it does not touch) or a
*read-back* fact (a write is read back), and both are stated on `Holds`.
-/

namespace BayTrail.Lib

/-- A byte string. -/
abbrev Bytes := List UInt8

/-- A byte-addressed memory. -/
abbrev Mem := Nat → UInt8

/-- The `n` bytes from address `p` on. -/
def peek (m : Mem) : Nat → Nat → Bytes
  | _, 0 => []
  | p, n + 1 => m p :: peek m (p + 1) n

/-- The memory after the bytes `bs` have been stored at address `p`. -/
def poke (m : Mem) (p : Nat) (bs : Bytes) : Mem :=
  fun a => if p ≤ a then (bs[a - p]?).getD (m a) else m a

/-- The bytes `bs` stand at address `p`. -/
def Holds (m : Mem) : Nat → Bytes → Prop
  | _, [] => True
  | p, b :: bs => m p = b ∧ Holds m (p + 1) bs

@[simp] theorem peek_length (m : Mem) : ∀ p n, (peek m p n).length = n
  | _, 0 => rfl
  | p, n + 1 => by simp [peek, peek_length m (p + 1) n]

theorem peek_add (m : Mem) : ∀ p a b, peek m p (a + b) = peek m p a ++ peek m (p + a) b
  | p, 0, b => by simp [peek]
  | p, a + 1, b => by
    rw [show a + 1 + b = (a + b) + 1 by omega]
    simp only [peek, List.cons_append, peek_add m (p + 1) a b]
    rw [show p + 1 + a = p + (a + 1) by omega]

variable {m m' : Mem} {p q n w : Nat} {bs cs : Bytes} {b : UInt8}

theorem peek_congr : ∀ {p n}, (∀ a, p ≤ a → a < p + n → m a = m' a) →
    peek m p n = peek m' p n
  | _, 0, _ => rfl
  | p, n + 1, h => by
    simp only [peek]
    rw [h p (by omega) (by omega), peek_congr (fun a h1 h2 => h a (by omega) (by omega))]

theorem peek_shift (m : Mem) (k : Nat) : ∀ p n, peek (fun a => m (k + a)) p n = peek m (k + p) n
  | _, 0 => rfl
  | p, n + 1 => by simp only [peek, peek_shift m k (p + 1) n, Nat.add_assoc]

/-- Memories with equal byte strings agree there. -/
theorem peek_at : ∀ {n p a : Nat}, peek m p n = peek m' p n → p ≤ a → a < p + n → m a = m' a
  | 0, _, _, _, h1, h2 => absurd h2 (by omega)
  | n + 1, p, a, h, h1, h2 => by
    obtain ⟨h0, ht⟩ := List.cons.inj h
    by_cases ha : a = p
    · rw [ha, h0]
    · exact peek_at ht (by omega) (by omega)

theorem peek_eq_peek :
    peek m p n = peek m' q n ↔ ∀ i, i < n → m (p + i) = m' (q + i) := by
  rw [← Nat.add_zero p, ← Nat.add_zero q, ← peek_shift, ← peek_shift]
  simp only [Nat.add_zero]
  exact ⟨fun h i hi => peek_at h (Nat.zero_le i) (by omega),
    fun h => peek_congr fun i _ hi => h i (by omega)⟩

theorem poke_of_out {a : Nat} (h : a < p ∨ p + bs.length ≤ a) :
    poke m p bs a = m a := by
  unfold poke
  split
  · rw [List.getElem?_eq_none (by omega)]; rfl
  · rfl

@[simp] theorem poke_nil (m : Mem) (p : Nat) : poke m p [] = m := by
  funext a
  exact poke_of_out (by simp; omega)

/-- Storing a byte string in two halves is storing it at once. -/
theorem poke_append (m : Mem) (p : Nat) (xs ys : Bytes) :
    poke m p (xs ++ ys) = poke (poke m p xs) (p + xs.length) ys := by
  funext a
  unfold poke
  by_cases h1 : p + xs.length ≤ a
  · rw [if_pos (by omega), if_pos h1, List.getElem?_append_right (by omega), if_pos (by omega),
      List.getElem?_eq_none (show xs.length ≤ a - p by omega),
      show a - p - xs.length = a - (p + xs.length) by omega]
    rfl
  · rw [if_neg h1]
    by_cases h2 : p ≤ a
    · rw [if_pos h2, if_pos h2, List.getElem?_append_left (by omega)]
    · rw [if_neg h2, if_neg h2]

/-! ## `Holds` -/

@[simp] theorem holds_nil (m : Mem) (p : Nat) : Holds m p [] := trivial

@[simp] theorem holds_cons :
    Holds m p (b :: bs) ↔ m p = b ∧ Holds m (p + 1) bs := Iff.rfl

theorem holds_append : ∀ {p : Nat} {xs ys : Bytes},
    Holds m p (xs ++ ys) ↔ Holds m p xs ∧ Holds m (p + xs.length) ys
  | p, [], ys => by simp
  | p, x :: xs, ys => by
    simp only [List.cons_append, holds_cons, holds_append (p := p + 1), List.length_cons,
      and_assoc]
    rw [show p + 1 + xs.length = p + (xs.length + 1) by omega]

theorem holds_iff_peek : ∀ {p : Nat} {bs : Bytes},
    Holds m p bs ↔ peek m p bs.length = bs
  | _, [] => by simp [peek]
  | p, b :: bs => by
    simp only [holds_cons, List.length_cons, peek, List.cons.injEq, holds_iff_peek (p := p + 1)]

theorem Holds.peek_eq {m : Mem} {p n : Nat} {bs : Bytes} (h : Holds m p bs)
    (hn : n = bs.length) : peek m p n = bs := by
  subst hn; exact holds_iff_peek.mp h

theorem holds_peek (m : Mem) (p n : Nat) : Holds m p (peek m p n) :=
  holds_iff_peek.mpr (by rw [peek_length])

theorem holds_iff_get : ∀ {p : Nat} {bs : Bytes},
    Holds m p bs ↔ ∀ i (h : i < bs.length), m (p + i) = bs[i]
  | _, [] => by simp
  | p, b :: bs => by
    rw [holds_cons, holds_iff_get (p := p + 1)]
    constructor
    · rintro ⟨h0, ht⟩ i hi
      cases i with
      | zero => simpa using h0
      | succ i =>
        have := ht i (by simpa using hi)
        rw [show p + (i + 1) = p + 1 + i by omega]
        simpa using this
    · intro h
      refine ⟨h 0 (Nat.succ_pos _), fun i hi => ?_⟩
      have := h (i + 1) (by simpa using hi)
      rw [show p + 1 + i = p + (i + 1) by omega]
      simpa using this

/-- What stands at an address is decided by the bytes of that range alone. -/
theorem Holds.congr (h : Holds m p bs)
    (heq : ∀ a, p ≤ a → a < p + bs.length → m' a = m a) : Holds m' p bs := by
  rw [holds_iff_get] at h ⊢
  intro i hi
  rw [heq _ (by omega) (by omega)]
  exact h i hi

theorem holds_poke (m : Mem) (p : Nat) (bs : Bytes) : Holds (poke m p bs) p bs := by
  rw [holds_iff_get]
  intro i hi
  simp [poke, hi]

/-- Bytes stored behind others. -/
theorem peek_poke_end (m : Mem) (n : Nat) (bs : Bytes) : peek (poke m n bs) 0 (n + bs.length) = peek m 0 n ++ bs := by
  have hbefore : peek (poke m n bs) 0 n = peek m 0 n := peek_congr fun a _ ha => poke_of_out (Or.inl (by omega))
  have hat : peek (poke m n bs) n bs.length = bs := (holds_poke m n bs).peek_eq rfl
  rw [peek_add, hbefore, Nat.zero_add, hat]

/-- Storing what stands there already changes nothing. -/
theorem Holds.poke_eq (h : Holds m p bs) : poke m p bs = m := by
  funext a
  by_cases ha : p ≤ a ∧ a < p + bs.length
  · have hi : a - p < bs.length := by omega
    have hget := holds_iff_get.mp h (a - p) hi
    rw [show p + (a - p) = a by omega] at hget
    unfold poke
    rw [if_pos ha.1, List.getElem?_eq_getElem hi, hget]
    rfl
  · exact poke_of_out (by omega)

/-- The second of two stores to one place is all that is left. -/
theorem poke_poke (h : bs.length ≤ cs.length) :
    poke (poke m p bs) p cs = poke m p cs := by
  funext a
  by_cases ha : p ≤ a ∧ a < p + cs.length
  · have hi : a - p < cs.length := by omega
    unfold poke
    rw [if_pos ha.1, if_pos ha.1, if_pos ha.1, List.getElem?_eq_getElem hi]
    rfl
  · rw [poke_of_out (by omega), poke_of_out (by omega), poke_of_out (by omega)]

/-- The frame rule of `poke`: what is disjoint from the write still stands. -/
theorem Holds.poke_of_disjoint (h : Holds m q cs)
    (hd : q + cs.length ≤ p ∨ p + bs.length ≤ q) : Holds (poke m p bs) q cs :=
  h.congr fun _ h1 h2 => poke_of_out (by omega)

/-- What has been copied is what stood at the source. -/
theorem poke_peek_at {m m' : Mem} {p q n i : Nat} (hi : i < n) :
    poke m q (peek m' p n) (q + i) = m' (p + i) := by
  have hi' : i < (peek m' p n).length := by rwa [peek_length]
  rw [holds_iff_get.mp (holds_poke m q (peek m' p n)) i hi',
    ← holds_iff_get.mp (holds_peek m' p n) i hi']

/-- A copied byte string stands at the target. -/
theorem Holds.copy (h : Holds m' p bs)
    (hn : bs.length ≤ n) : Holds (poke m q (peek m' p n)) q bs := by
  rw [holds_iff_get] at h ⊢
  intro i hi
  rw [poke_peek_at (by omega)]
  exact h i hi

theorem Holds.replicate_mono {k : Nat}
    (h : Holds m p (List.replicate n b)) (h1 : p ≤ q) (h2 : q + k ≤ p + n) :
    Holds m q (List.replicate k b) := by
  rw [holds_iff_get] at h ⊢
  intro i hi
  simp only [List.length_replicate, List.getElem_replicate] at h hi ⊢
  have := h (q - p + i) (by omega)
  rwa [show p + (q - p + i) = q + i by omega] at this

theorem Holds.replicate_at
    (h : Holds m p (List.replicate n b)) (h1 : p ≤ q) (h2 : q < p + n) : m q = b := by
  have := (h.replicate_mono (k := 1) h1 (by omega))
  simpa using this

/-! ## Little-endian numbers -/

/-- The `w` low bytes of `n`, least significant first. -/
def leBytes : Nat → Nat → Bytes
  | 0, _ => []
  | w + 1, n => UInt8.ofNat n :: leBytes w (n / 256)

/-- The number whose bytes are given, least significant first. -/
def leVal : Bytes → Nat
  | [] => 0
  | b :: bs => b.toNat + 256 * leVal bs

@[simp] theorem leBytes_length : ∀ w n, (leBytes w n).length = w
  | 0, _ => rfl
  | w + 1, n => by simp [leBytes, leBytes_length w]

theorem leVal_leBytes : ∀ w n, leVal (leBytes w n) = n % 256 ^ w
  | 0, n => by simp [leBytes, leVal, Nat.mod_one]
  | w + 1, n => by
    rw [leBytes, leVal, leVal_leBytes w, UInt8.toNat_ofNat', Nat.pow_succ 256 w,
      Nat.mul_comm (256 ^ w) 256, Nat.mod_mul]

theorem leVal_lt : ∀ bs : Bytes, leVal bs < 256 ^ bs.length
  | [] => by simp [leVal]
  | b :: bs => by
    have hb := b.toNat_lt
    have ih := leVal_lt bs
    rw [leVal, List.length_cons, Nat.pow_succ]
    omega

/-- Encoding is injective on byte strings of one length. -/
theorem leBytes_leVal : ∀ bs : Bytes, leBytes bs.length (leVal bs) = bs
  | [] => rfl
  | b :: bs => by
    have hb := b.toNat_lt
    rw [List.length_cons, leBytes, leVal]
    congr 1
    · apply UInt8.toNat_inj.mp
      rw [UInt8.toNat_ofNat']
      omega
    · rw [show (b.toNat + 256 * leVal bs) / 256 = leVal bs by omega]
      exact leBytes_leVal bs

/-- Only the low `w` bytes count. -/
theorem leBytes_mod (w n : Nat) : leBytes w (n % 256 ^ w) = leBytes w n := by
  have h := leBytes_leVal (leBytes w n)
  rwa [leBytes_length, leVal_leBytes] at h

/-- The `w`-byte little-endian number at address `p`. -/
def rd (m : Mem) (w p : Nat) : Nat := leVal (peek m p w)

theorem rd_lt (m : Mem) (w p : Nat) : rd m w p < 256 ^ w := by
  have := leVal_lt (peek m p w)
  rwa [peek_length] at this

theorem leBytes_rd (m : Mem) (w p : Nat) : leBytes w (rd m w p) = peek m p w := by
  have h := leBytes_leVal (peek m p w)
  rwa [peek_length] at h

theorem rd_congr (h : ∀ a, p ≤ a → a < p + w → m a = m' a) :
    rd m w p = rd m' w p := by
  unfold rd; rw [peek_congr h]

/-- A number that has been stored is read back, cut to its width. -/
theorem Holds.rd_eq (h : Holds m p (leBytes w n)) :
    rd m w p = n % 256 ^ w := by
  unfold rd
  rw [h.peek_eq (by simp), leVal_leBytes]

theorem Holds.rd_eq_of_lt (h : Holds m p (leBytes w n))
    (hn : n < 256 ^ w) : rd m w p = n := by
  rw [h.rd_eq, Nat.mod_eq_of_lt hn]

end BayTrail.Lib
