import BayTrail.Terminal.Serial

/-!
# UTF-8

The decoding of a stream. What is not well-formed is skipped byte by byte, so that a well-formed
character counts whatever stands in front of it. `Whole` says of the bytes that a call finds in the raw
FIFO that each character is there as a whole and that nothing malformed takes a part of one with it: the
call makes of them what the decoding does.
-/

namespace BayTrail.Terminal

/-! ## The reference -/

/-- A byte that continues a character: `10nnnnnn`. -/
def Tail (b : UInt8) : Prop := 0x80 ≤ b.toNat ∧ b.toNat < 0xC0

instance (b : UInt8) : Decidable (Tail b) := inferInstanceAs (Decidable (_ ∧ _))

/-- How many bytes follow the first one of a character of three bytes at most. -/
def following (a : UInt8) : Option Nat :=
  if a.toNat < 0x80 then some 0
  else if a.toNat < 0xC0 then none
  else if a.toNat < 0xE0 then some 1
  else if a.toNat < 0xF0 then some 2
  else none

/-- `110nnnnn 10nnnnnn` -/
def scalarOfTwo (a b : UInt8) : Nat := a.toNat % 32 * 64 + b.toNat % 64

/-- `1110nnnn 10nnnnnn 10nnnnnn` -/
def scalarOfThree (a b c : UInt8) : Nat := a.toNat % 16 * 4096 + b.toNat % 64 * 64 + c.toNat % 64

def twoAt (a : UInt8) : List UInt8 → Option (UInt16 × Nat)
  | b :: _ => if Tail b ∧ 0x80 ≤ scalarOfTwo a b then some (UInt16.ofNat (scalarOfTwo a b), 2) else none
  | [] => none

/-- Surrogates are no characters. -/
def threeAt (a : UInt8) : List UInt8 → Option (UInt16 × Nat)
  | b :: c :: _ =>
    if Tail b ∧ Tail c ∧ 0x800 ≤ scalarOfThree a b c ∧ (scalarOfThree a b c < 0xD800 ∨ 0xE000 ≤ scalarOfThree a b c) then
      some (UInt16.ofNat (scalarOfThree a b c), 3)
    else none
  | _ => none

/-- The well-formed character that the bytes begin with, and how many they are. -/
def charAt : List UInt8 → Option (UInt16 × Nat)
  | [] => none
  | a :: l =>
    match following a with
    | some 0 => some (a.toUInt16, 1)
    | some 1 => twoAt a l
    | some 2 => threeAt a l
    | _ => none

/-- The characters behind so many bytes. -/
def decodeFrom : Nat → List UInt8 → List UInt16
  | _, [] => []
  | k + 1, _ :: l => decodeFrom k l
  | 0, a :: l =>
    match charAt (a :: l) with
    | some r => r.1 :: decodeFrom (r.2 - 1) l
    | none => decodeFrom 0 l

/-- The characters of a stream. -/
def decode (l : List UInt8) : List UInt16 := decodeFrom 0 l

/-! ## Bytes in the raw FIFO -/

/-- Bytes in the raw FIFO when the stream goes on with `later`. -/
inductive Whole (later : List UInt8) : List UInt8 → Prop where
  | nil : Whole later []
  | char {l : List UInt8} {c : UInt16} {n : Nat} : charAt l = some (c, n) → Whole later (l.drop n) → Whole later l
  /-- A byte that no character begins with. The call ends. -/
  | stray {a : UInt8} {l : List UInt8} : following a = none → Whole later (a :: l)
  /-- The FIFO ends before the character does, and the stream does not go on with the rest of it. -/
  | divided {a : UInt8} {p : List UInt8} {n : Nat} : following a = some n → p.length < n → (∀ b ∈ p, Tail b) →
      charAt (a :: p ++ later) = none → Whole later (a :: p)
  /-- Something else follows, which is lost with the bytes in front of it; no character begins with it. -/
  | broken {a x : UInt8} {p l : List UInt8} {n : Nat} : following a = some n → p.length < n → (∀ b ∈ p, Tail b) → ¬ Tail x →
      charAt (x :: l ++ later) = none → Whole later (a :: p ++ x :: l)

section

variable {l later : List UInt8} {a b x : UInt8} {c : UInt16} {n : Nat}

theorem forall_byte {P : UInt8 → Prop} (h : ∀ n < 256, P (UInt8.ofNat n)) (a : UInt8) : P a :=
  UInt8.ofNat_toNat (x := a) ▸ h a.toNat a.toNat_lt

/-- The tests of `ExtractUtf8CharFromRawBuffer`. -/
theorem isTail_iff (b : UInt8) : b &&& 0xc0 = 0x80 ↔ Tail b :=
  forall_byte (P := fun b => b &&& 0xc0 = 0x80 ↔ Tail b) (by decide +kernel) b

theorem isOne_iff (a : UInt8) : a &&& 0x80 = 0 ↔ following a = some 0 :=
  forall_byte (P := fun a => a &&& 0x80 = 0 ↔ following a = some 0) (by decide +kernel) a

theorem isTwo_iff (a : UInt8) : a &&& 0xe0 = 0xc0 ↔ following a = some 1 :=
  forall_byte (P := fun a => a &&& 0xe0 = 0xc0 ↔ following a = some 1) (by decide +kernel) a

theorem isThree_iff (a : UInt8) : a &&& 0xf0 = 0xe0 ↔ following a = some 2 :=
  forall_byte (P := fun a => a &&& 0xf0 = 0xe0 ↔ following a = some 2) (by decide +kernel) a

theorem Tail.following_none (h : Tail b) : following b = none := by
  unfold following
  obtain ⟨h1, h2⟩ := h
  rw [if_neg (by omega), if_pos h2]

theorem toNat_low (a b : UInt8) : ((a <<< 6) ||| (b &&& 0x3f)).toNat = a.toNat % 4 * 64 + b.toNat % 64 := by
  have hb : b.toNat &&& 63 = b.toNat % 2 ^ 6 := Nat.and_two_pow_sub_one_eq_mod b.toNat 6
  have ha : a.toNat <<< 6 % 2 ^ 8 = (a.toNat % 4) <<< 6 := by
    rw [Nat.shiftLeft_eq, Nat.shiftLeft_eq]
    omega
  have hor := Nat.shiftLeft_add_eq_or_of_lt (Nat.mod_lt b.toNat (show 0 < 2 ^ 6 by decide)) (a.toNat % 4)
  simp only [UInt8.toNat_or, UInt8.toNat_shiftLeft, UInt8.toNat_and, UInt8.reduceToNat, Nat.reduceMod]
  rw [hb, ha, ← hor, Nat.shiftLeft_eq]

theorem toNat_highOfTwo (a : UInt8) : ((a >>> 2) &&& 0x07).toNat = a.toNat / 4 % 8 := by
  have ha : a.toNat >>> 2 &&& 7 = a.toNat >>> 2 % 2 ^ 3 := Nat.and_two_pow_sub_one_eq_mod _ 3
  simp only [UInt8.toNat_and, UInt8.toNat_shiftRight, UInt8.reduceToNat, Nat.reduceMod]
  rw [ha, Nat.shiftRight_eq_div_pow]
  rfl

theorem toNat_highOfThree (a b : UInt8) : ((a <<< 4) ||| ((b >>> 2) &&& 0x0f)).toNat = a.toNat % 16 * 16 + b.toNat / 4 % 16 := by
  have hb : b.toNat >>> 2 &&& 15 = b.toNat >>> 2 % 2 ^ 4 := Nat.and_two_pow_sub_one_eq_mod _ 4
  have ha : a.toNat <<< 4 % 2 ^ 8 = (a.toNat % 16) <<< 4 := by
    rw [Nat.shiftLeft_eq, Nat.shiftLeft_eq]
    omega
  have hor := Nat.shiftLeft_add_eq_or_of_lt (Nat.mod_lt (b.toNat >>> 2) (show 0 < 2 ^ 4 by decide)) (a.toNat % 16)
  simp only [UInt8.toNat_or, UInt8.toNat_shiftLeft, UInt8.toNat_and, UInt8.toNat_shiftRight, UInt8.reduceToNat, Nat.reduceMod]
  rw [hb, ha, ← hor, Nat.shiftLeft_eq, Nat.shiftRight_eq_div_pow]

theorem unicodeOfBytes_eq (lo hi : UInt8) : unicodeOfBytes lo hi = UInt16.ofNat (hi.toNat * 256 + lo.toNat) := by
  have hlo := lo.toNat_lt
  have hhi := hi.toNat_lt
  have hor := Nat.shiftLeft_add_eq_or_of_lt (show lo.toNat < 2 ^ 8 from hlo) hi.toNat
  apply UInt16.toNat.inj
  unfold unicodeOfBytes
  simp only [UInt16.toNat_or, UInt16.toNat_shiftLeft, UInt8.toNat_toUInt16, UInt16.reduceToNat, Nat.reduceMod, UInt16.toNat_ofNat']
  rw [Nat.mod_eq_of_lt (show hi.toNat <<< 8 < 2 ^ 16 by rw [Nat.shiftLeft_eq]; omega), Nat.or_comm, ← hor, Nat.shiftLeft_eq]
  omega

theorem convert_two (a b d : UInt8) : convertUtf8ToUnicode ⟨b, a, d⟩ 2 = UInt16.ofNat (scalarOfTwo a b) := by
  show unicodeOfBytes ((a <<< 6) ||| (b &&& 0x3f)) ((a >>> 2) &&& 0x07) = _
  rw [unicodeOfBytes_eq, toNat_low, toNat_highOfTwo]
  refine congrArg UInt16.ofNat ?_
  unfold scalarOfTwo
  omega

theorem convert_three (a b c : UInt8) : convertUtf8ToUnicode ⟨c, b, a⟩ 3 = UInt16.ofNat (scalarOfThree a b c) := by
  show unicodeOfBytes ((b <<< 6) ||| (c &&& 0x3f)) ((a <<< 4) ||| ((b >>> 2) &&& 0x0f)) = _
  rw [unicodeOfBytes_eq, toNat_low, toNat_highOfThree]
  refine congrArg UInt16.ofNat ?_
  unfold scalarOfThree
  omega

/-! ## The decoding -/

theorem decodeFrom_eq (k : Nat) (l : List UInt8) : decodeFrom k l = decode (l.drop k) := by
  induction k generalizing l with
  | zero => rfl
  | succ k ih =>
    cases l with
    | nil => rfl
    | cons a l => exact ih l

theorem decode_skip (h : charAt (a :: l) = none) : decode (a :: l) = decode l := by
  rw [decode, decodeFrom, h]
  rfl

theorem charAt_cons : charAt (a :: l) = match following a with
    | some 0 => some (a.toUInt16, 1)
    | some 1 => twoAt a l
    | some 2 => threeAt a l
    | _ => none := rfl

theorem charAt_none (h : following a = none) : charAt (a :: l) = none := by rw [charAt_cons, h]

/-- What a first byte may announce. -/
theorem following_cases (a : UInt8) : following a = some 0 ∨ following a = some 1 ∨ following a = some 2 ∨ following a = none := by
  unfold following
  split_ifs <;> simp

variable {r : UInt16 × Nat} {p : List UInt8}

theorem twoAt_some (h : twoAt a l = some r) :
    ∃ b l', l = b :: l' ∧ Tail b ∧ r = (UInt16.ofNat (scalarOfTwo a b), 2) := by
  cases l with
  | nil => cases h
  | cons b l' =>
    obtain ⟨hb, hr⟩ := Option.ite_none_right_eq_some.mp h
    exact ⟨b, l', rfl, hb.1, (Option.some.inj hr).symm⟩

theorem threeAt_some (h : threeAt a l = some r) :
    ∃ b c l', l = b :: c :: l' ∧ Tail b ∧ Tail c ∧ r = (UInt16.ofNat (scalarOfThree a b c), 3) := by
  cases l with
  | nil => cases h
  | cons b l' =>
    cases l' with
    | nil => cases h
    | cons c l' =>
      obtain ⟨hc, hr⟩ := Option.ite_none_right_eq_some.mp h
      exact ⟨b, c, l', rfl, hc.1, hc.2.1, (Option.some.inj hr).symm⟩

/-- More bytes do not change the character that there is. -/
theorem charAt_append (h : charAt l = some r) : charAt (l ++ later) = some r := by
  cases l with
  | nil => cases h
  | cons a l =>
    rw [List.cons_append, charAt_cons]
    rw [charAt_cons] at h
    rcases following_cases a with ha | ha | ha | ha <;> rw [ha] at h ⊢
    · exact h
    · obtain ⟨b, l', rfl, -⟩ := twoAt_some h
      exact h
    · obtain ⟨b, c, l', rfl, -⟩ := threeAt_some h
      exact h
    · exact h

/-- A character counts, and what follows it. -/
theorem decode_char (h : charAt l = some (c, n)) : decode l = c :: decode (l.drop n) := by
  cases l with
  | nil => cases h
  | cons a l =>
    have hn : n = n - 1 + 1 := by
      rw [charAt_cons] at h
      rcases following_cases a with ha | ha | ha | ha <;> rw [ha] at h
      · cases h
        rfl
      · obtain ⟨b, l', -, -, hr⟩ := twoAt_some h
        cases hr
        rfl
      · obtain ⟨b, c', l', -, -, -, hr⟩ := threeAt_some h
        cases hr
        rfl
      · cases h
    rw [decode, decodeFrom, h, hn, List.drop_succ_cons, ← decodeFrom_eq]
    rfl

/-! ## What a call does -/

theorem extract_cons : extract (a :: l) = match following a with
    | some 0 => (some a.toUInt16, l)
    | some 1 => ((continuation l).1.map fun b => convertUtf8ToUnicode ⟨b, a, 0⟩ 2, (continuation l).2)
    | some 2 => extractThreeFrom a l
    | _ => (none, l) := by
  rw [extract]
  simp only [isOne_iff, isTwo_iff, isThree_iff]
  rcases following_cases a with ha | ha | ha | ha <;> rw [ha] <;> rfl

theorem continuation_tail (h : Tail b) : continuation (b :: l) = (some b, l) := by
  rw [continuation, if_pos ((isTail_iff b).mpr h)]

theorem continuation_other (h : ¬ Tail x) : continuation (x :: l) = (none, l) := by
  rw [continuation, if_neg fun he => h ((isTail_iff x).mp he)]

theorem extract_char (h : charAt l = some (c, n)) : extract l = (some c, l.drop n) := by
  cases l with
  | nil => cases h
  | cons a l =>
    rw [charAt_cons] at h
    rw [extract_cons]
    rcases following_cases a with ha | ha | ha | ha <;> rw [ha] at h ⊢
    · cases h
      rfl
    · obtain ⟨b, l', rfl, hb, hr⟩ := twoAt_some h
      cases hr
      simp only [continuation_tail hb, Option.map_some, convert_two]
      rfl
    · obtain ⟨b, c', l', rfl, hb, hc, hr⟩ := threeAt_some h
      cases hr
      simp only [extractThreeFrom, continuation_tail hb, continuation_tail hc, Option.map_some, convert_three]
      rfl
    · cases h

theorem extract_stray (h : following a = none) : extract (a :: l) = (none, l) := by rw [extract_cons, h]

/-- Of a character that is announced, so many bytes are there at most. -/
theorem announced (ha : following a = some n) (hp : p.length < n) :
    (following a = some 1 ∧ p = []) ∨ (following a = some 2 ∧ (p = [] ∨ ∃ b, p = [b])) := by
  rcases following_cases a with h | h | h | h <;> rw [h] at ha
  · cases ha
    omega
  · cases ha
    exact Or.inl ⟨h, List.length_eq_zero_iff.mp (by omega)⟩
  · cases ha
    refine Or.inr ⟨h, ?_⟩
    cases p with
    | nil => exact Or.inl rfl
    | cons b p => exact Or.inr ⟨b, congrArg _ (List.length_eq_zero_iff.mp (by rw [List.length_cons] at hp; omega))⟩
  · cases ha

theorem extract_divided (ha : following a = some n) (hp : p.length < n) (htail : ∀ b ∈ p, Tail b) :
    extract (a :: p) = (none, []) := by
  rw [extract_cons]
  rcases announced ha hp with ⟨h, rfl⟩ | ⟨h, rfl | ⟨b, rfl⟩⟩ <;> rw [h]
  · rfl
  · rfl
  · simp only [extractThreeFrom, continuation_tail (htail b (List.mem_singleton_self b))]
    rfl

theorem extract_broken (ha : following a = some n) (hp : p.length < n) (htail : ∀ b ∈ p, Tail b) (hx : ¬ Tail x) :
    extract (a :: p ++ x :: l) = (none, l) := by
  rw [List.cons_append, extract_cons]
  rcases announced ha hp with ⟨h, rfl⟩ | ⟨h, rfl | ⟨b, rfl⟩⟩ <;> rw [h]
  · simp only [List.nil_append, continuation_other hx, Option.map_none]
  · simp only [List.nil_append, extractThreeFrom, continuation_other hx]
  · simp only [List.cons_append, List.nil_append, extractThreeFrom, continuation_tail (htail b (List.mem_singleton_self b)),
      continuation_other hx, Option.map_none]

theorem charAt_broken (ha : following a = some n) (hp : p.length < n) (hx : ¬ Tail x) :
    charAt (a :: p ++ x :: l) = none := by
  rw [List.cons_append, charAt_cons]
  rcases announced ha hp with ⟨h, rfl⟩ | ⟨h, rfl | ⟨b, rfl⟩⟩ <;> rw [h]
  · exact if_neg fun he => hx he.1
  · cases l with
    | nil => rfl
    | cons c l => exact if_neg fun he => hx he.1
  · exact if_neg fun he => hx he.2.1

theorem decode_tails (htail : ∀ b ∈ p, Tail b) : decode (p ++ l) = decode l := by
  induction p with
  | nil => rfl
  | cons b p ih =>
    rw [List.cons_append, decode_skip (charAt_none (htail b (List.mem_cons_self)).following_none)]
    exact ih fun b hb => htail b (List.mem_cons_of_mem _ hb)

theorem charAt_le (h : charAt l = some (c, n)) : n ≤ l.length := by
  cases l with
  | nil => cases h
  | cons a l =>
    rw [charAt_cons] at h
    rcases following_cases a with ha | ha | ha | ha <;> rw [ha] at h
    · cases h
      simp
    · obtain ⟨b, l', rfl, -, hr⟩ := twoAt_some h
      cases hr
      simp
    · obtain ⟨b, c', l', rfl, -, -, hr⟩ := threeAt_some h
      cases hr
      simp
    · cases h

/-- The call makes of the bytes what the decoding does. -/
theorem Whole.decode_eq (h : Whole later l) : decode (l ++ later) = (drain l).1 ++ decode ((drain l).2 ++ later) := by
  induction h with
  | nil => rfl
  | char hchar _ ih =>
    have hextract := extract_char hchar
    rw [drain_some (congrArg Prod.fst hextract), hextract, decode_char (charAt_append hchar),
      List.drop_append_of_le_length (charAt_le hchar), ih]
    rfl
  | @stray a l ha =>
    have hextract : extract (a :: l) = (none, l) := extract_stray ha
    rw [drain_none (congrArg Prod.fst hextract), hextract, List.cons_append, decode_skip (charAt_none ha)]
    rfl
  | @divided a p n ha hp htail hnone =>
    have hextract := extract_divided ha hp htail
    have hskip : decode (a :: p ++ later) = decode (p ++ later) := decode_skip hnone
    rw [drain_none (congrArg Prod.fst hextract), hextract, hskip, decode_tails htail]
    rfl
  | @broken a x p l n ha hp htail hx hnone =>
    have hextract : extract (a :: p ++ x :: l) = (none, l) := extract_broken ha hp htail hx
    have hfirst : decode (a :: p ++ x :: (l ++ later)) = decode (p ++ x :: (l ++ later)) := decode_skip (charAt_broken ha hp hx)
    have hother : decode (x :: (l ++ later)) = decode (l ++ later) := decode_skip hnone
    have hlater : a :: p ++ x :: l ++ later = a :: p ++ x :: (l ++ later) := by simp
    rw [drain_none (congrArg Prod.fst hextract), hextract, hlater, hfirst, decode_tails htail, hother]
    rfl

end

end BayTrail.Terminal
