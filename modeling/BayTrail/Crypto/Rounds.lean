import BayTrail.Crypto.Sha256

/-!
# The rounds of SHA-256, small and fast

The fast code moves no registers, it names them anew in each round, and it makes the words of the message schedule
as it goes. From any state and any block it computes what the small code computes.
-/

namespace BayTrail.Crypto

open Lib

variable (k x : Word) (S state : Chain) (buf : Bytes)

theorem f0_eq_maj (x y z : Word) : f0 x y z = maj x y z := by
  rw [f0, maj, BitVec.or_comm, BitVec.and_comm z]

/-- `P` on the registers that stand in the places by then is a round on the places. -/
theorem turned_pRound (t : Nat) : turned t (pRound (standing t) k x S) = rnd k x (turned t S) := by
  rw [pRound, turned_setReg, turned_setReg, rnd]
  simp only [get_turned, f0_eq_maj]

/-! ## The words of the message schedule -/

variable {i m n : Nat}

theorem filled_short (h : n ≤ 16) : filled buf n = loaded buf := by
  rw [filled, Nat.sub_eq_zero_of_le h]
  rfl

theorem filled_succ (h : 16 ≤ n) : filled buf (n + 1) = expand (filled buf n) n := by
  rw [filled, Nat.succ_sub h, List.range'_1_concat, List.foldl_append, Nat.add_sub_cancel' h]
  rfl

/-- A word that is there stays. -/
theorem filled_stays (hi : i < n) (hm : n ≤ m) : (filled buf m).getD i 0 = (filled buf n).getD i 0 := by
  induction m, hm using Nat.le_induction with
  | base => rfl
  | succ m hm ih =>
    by_cases h : 16 ≤ m
    · rw [filled_succ buf h, expand, List.getD_eq_getElem?_getD, List.getElem?_set_ne (by omega),
        ← List.getD_eq_getElem?_getD, ih]
    · rw [filled_short buf (by omega)] at ih ⊢
      exact ih

/-- After so many rounds of the fast code: the words so far, and the registers as if all words had been there. -/
theorem fast_rounds (hn : n ≤ 64) :
    (List.range n).foldl (fun (s : List Word × Chain) i =>
        let W := if 16 ≤ i then expand s.1 i else s.1
        (W, pRound (standing i) (fastK.getD i 0) (W.getD i 0) s.2)) (loaded buf, state)
      = (filled buf n,
        (List.range n).foldl (fun S i => pRound (standing i) (fastK.getD i 0) ((filled buf 64).getD i 0) S) state) := by
  induction n with
  | zero =>
    rw [filled_short buf (Nat.zero_le 16)]
    rfl
  | succ n ih =>
    -- the word that this round uses is not written again
    have hW : (if 16 ≤ n then expand (filled buf n) n else filled buf n) = filled buf (n + 1) := by
      split
      · rename_i h
        exact (filled_succ buf h).symm
      · rename_i h
        rw [filled_short buf (by omega), filled_short buf (by omega)]
    rw [List.range_succ, List.foldl_append, List.foldl_append, ih (by omega)]
    dsimp only [List.foldl_cons, List.foldl_nil]
    rw [hW, filled_stays buf (Nat.lt_succ_self n) hn]

/-- The fast code computes what the small code does. -/
theorem compressFast_eq : compressFast state buf = compressSmall state buf := by
  have hK : fastK = K := by decide
  unfold compressFast compressSmall
  dsimp only
  rw [fast_rounds state buf (Nat.le_refl 64), hK]
  have hround := turned_rounds (fun t S => turned_pRound (K.getD t 0) ((filled buf 64).getD t 0) S t) state 64
  -- the registers have turned round eight times
  rw [hround, turned_round 8]

/-- Both builds compress in the same way. -/
theorem sha256Compress_eq (small : Bool) : sha256Compress small = compressSmall := by
  cases small with
  | true => rfl
  | false =>
    funext state buf
    exact compressFast_eq state buf

end BayTrail.Crypto
