import BayTrail.Flash.Defs

/-!
# The flash driver: what is withheld

Programming bits commutes with programming other bits and with itself. So what the flash
will be once the withheld signatures are restored is a function of each byte and of the
list of areas (`settle`), in which the order of the list does not count and which
programming passes through.
-/

namespace BayTrail.Flash

open BayTrail.Lib

section

variable {pt : Part} {areas areas' : List UpdatedArea} {v : UpdatedArea} {a : Nat} {x d : UInt8}

/-! ## Settling a byte -/

/-- The byte of the signature that belongs to address `a`. -/
def signatureAt (pt : Part) (v : UpdatedArea) (a : Nat) : UInt8 :=
  if v.signature ≤ a ∧ a < v.signature + 4 then bufferOf fvSignature (a - v.signature) else pt.empty

/-- What is still to be programmed at `a` for the area. -/
def owed (pt : Part) (v : UpdatedArea) (a : Nat) : UInt8 :=
  if v.restoreSignature then signatureAt pt v a else pt.empty

/-- The byte `x` at `a` with all that is owed. -/
def settle (pt : Part) (areas : List UpdatedArea) (a : Nat) (x : UInt8) : UInt8 :=
  areas.foldl (fun x v => pt.program x (owed pt v a)) x

@[simp] theorem settle_nil : settle pt [] a x = x := rfl

theorem settle_cons : settle pt (v :: areas) a x = settle pt areas a (pt.program x (owed pt v a)) :=
  rfl

theorem settle_append :
    settle pt (areas ++ areas') a x = settle pt areas' a (settle pt areas a x) :=
  List.foldl_append ..

theorem settle_program : settle pt areas a (pt.program x d) = pt.program (settle pt areas a x) d := by
  induction areas generalizing x with
  | nil => rfl
  | cons v areas ih => rw [settle_cons, settle_cons, pt.program_comm, ih]

theorem settle_cons' : settle pt (v :: areas) a x = pt.program (settle pt areas a x) (owed pt v a) :=
  settle_program

theorem settle_perm (h : areas.Perm areas') : settle pt areas a x = settle pt areas' a x := by
  induction h generalizing x with
  | nil => rfl
  | cons v _ ih => rw [settle_cons, settle_cons, ih]
  | swap u v l => rw [settle_cons, settle_cons, settle_cons, settle_cons, pt.program_comm]
  | trans _ _ ih1 ih2 => rw [ih1, ih2]

/-- Nothing owed changes the byte. -/
theorem settle_eq (h : ∀ v ∈ areas, pt.program x (owed pt v a) = x) : settle pt areas a x = x := by
  induction areas with
  | nil => rfl
  | cons v areas ih =>
    rw [settle_cons, h v (by simp)]
    exact ih fun u hu => h u (List.mem_cons_of_mem _ hu)

theorem owed_of_out (h : ¬ (v.signature ≤ a ∧ a < v.signature + 4)) : owed pt v a = pt.empty := by
  unfold owed signatureAt
  rw [if_neg h, ite_self]

theorem owed_of_not (h : v.restoreSignature = false) : owed pt v a = pt.empty := by
  unfold owed
  rw [h]
  rfl

theorem owed_of_restore (h : v.restoreSignature = true) : owed pt v a = signatureAt pt v a := by
  unfold owed
  rw [if_pos h]

/-- The signature is the same for two areas that start at the same place. -/
theorem signatureAt_congr {u : UpdatedArea} (h : u.start = v.start) :
    signatureAt pt u a = signatureAt pt v a := by
  unfold signatureAt UpdatedArea.signature
  rw [h]

/-! ## Removal -/

theorem removeArea_perm {i : Nat} (h : areas[i]? = some v) :
    areas.Perm (v :: removeArea areas i) := by
  obtain ⟨hi, rfl⟩ := List.getElem?_eq_some_iff.mp h
  obtain ⟨front, last, rfl⟩ := List.eq_nil_or_concat' areas |>.resolve_left (by
    rintro rfl
    simp at hi)
  have hlast : (front ++ [last]).getLast? = some last := by simp
  unfold removeArea
  rw [hlast]
  dsimp only
  rw [List.length_append, List.length_singleton] at hi
  by_cases hlt : i < front.length
  · -- the last one takes the place of the removed one
    rw [List.set_append_left _ _ hlt, List.dropLast_concat, List.getElem_append_left hlt]
    have hsplit := List.set_eq_take_append_cons_drop (l := front) (i := i) (a := last)
    rw [if_pos hlt] at hsplit
    rw [hsplit]
    have hfront : front = front.take i ++ front[i] :: front.drop (i + 1) := by simp
    calc (front ++ [last]).Perm (last :: front) := List.perm_append_singleton _ _
      _ = last :: (front.take i ++ front[i] :: front.drop (i + 1)) := by rw [← hfront]
      _ |>.Perm (last :: front[i] :: (front.take i ++ front.drop (i + 1))) :=
          List.perm_middle.cons _
      _ |>.Perm (front[i] :: last :: (front.take i ++ front.drop (i + 1))) := List.Perm.swap _ _ _
      _ |>.Perm (front[i] :: (front.take i ++ last :: front.drop (i + 1))) :=
          List.perm_middle.symm.cons _
  · have hie : i = front.length := by omega
    subst hie
    rw [List.set_append_right _ _ (Nat.le_refl _), Nat.sub_self]
    simp

theorem mem_of_mem_removeArea {i : Nat} (hv : v ∈ removeArea areas i) : v ∈ areas := by
  unfold removeArea at hv
  split at hv
  next => exact hv
  next u hu =>
    have := List.mem_of_mem_dropLast hv
    rcases List.mem_or_eq_of_mem_set this with h | rfl
    · exact h
    · exact List.mem_of_getLast? hu

end

/-! ## The flash part, byte by byte -/

section

variable {pt : Part} {m data : Mem} {p q n a : Nat}

theorem flashProgram_add (pt : Part) (m data : Mem) (p q n k : Nat) :
    flashProgram pt (flashProgram pt m p data q n) (p + n) data (q + n) k
      = flashProgram pt m p data q (n + k) := by
  funext b
  unfold flashProgram
  by_cases h1 : p ≤ b ∧ b < p + n
  · rw [if_neg (by omega), if_pos h1, if_pos (by omega)]
  · by_cases h2 : p + n ≤ b ∧ b < p + n + k
    · rw [if_pos h2, if_neg h1, if_pos (by omega)]
      congr 2
      omega
    · rw [if_neg h2, if_neg h1, if_neg (by omega)]

theorem flashProgram_zero : flashProgram pt m p data q 0 = m := by
  funext b
  unfold flashProgram
  rw [if_neg (by omega)]

theorem programLoop_eq : ∀ (n : Nat) (m : Mem) (p q : Nat),
    programLoop pt data n m p q = flashProgram pt m p data q (n * flashBlockSize)
  | 0, m, p, q => by
    rw [Nat.zero_mul, flashProgram_zero]
    rfl
  | n + 1, m, p, q => by
    rw [programLoop, programLoop_eq n, flashProgram_add, Nat.add_one_mul, Nat.add_comm]

/-- The blocks of a write make one piece. -/
theorem writeBytes_eq : writeBytes pt m p n data = flashProgram pt m p data 0 n := by
  unfold writeBytes
  simp only [programLoop_eq]
  by_cases hp : block p ≠ p
  · simp only [if_pos hp]
    by_cases hn : n ≤ flashBlockSize - (p - block p)
    · -- the write ends in its first block
      rw [Nat.min_eq_right hn, Nat.sub_self, Nat.zero_div, Nat.zero_mul, Nat.sub_self,
        if_neg (not_not.mpr rfl), flashProgram_zero]
    · rw [Nat.min_eq_left (by omega)]
      generalize hk : flashBlockSize - (p - block p) = k at *
      have hnext : block p + flashBlockSize = p + k := by
        unfold block flashBlockSize at *
        omega
      rw [hnext]
      have hfirst := flashProgram_add pt m data p 0 k ((n - k) / flashBlockSize * flashBlockSize)
      rw [Nat.zero_add] at hfirst
      rw [hfirst]
      split
      next =>
        have hrest := flashProgram_add pt m data p 0
          (k + (n - k) / flashBlockSize * flashBlockSize)
          (n - k - (n - k) / flashBlockSize * flashBlockSize)
        rw [Nat.zero_add, ← Nat.add_assoc] at hrest
        rw [hrest]
        congr 1
        have := Nat.div_mul_le_self (n - k) flashBlockSize
        omega
      next hrest =>
        congr 1
        have := Nat.div_mul_le_self (n - k) flashBlockSize
        omega
  · simp only [if_neg hp, Nat.sub_zero, Nat.zero_add]
    split
    next =>
      have hrest := flashProgram_add pt m data p 0 (n / flashBlockSize * flashBlockSize)
        (n - n / flashBlockSize * flashBlockSize)
      rw [Nat.zero_add] at hrest
      rw [hrest]
      congr 1
      have := Nat.div_mul_le_self n flashBlockSize
      omega
    next =>
      congr 1
      have := Nat.div_mul_le_self n flashBlockSize
      omega

theorem isClean_iff : isClean pt m p n = true ↔ ∀ b, p ≤ b → b < p + n → m b = pt.empty := by
  unfold isClean
  simp only [List.all_eq_true, List.mem_range, beq_iff_eq]
  constructor
  · intro h b h1 h2
    have := h (b - p) (by omega)
    rwa [show p + (b - p) = b by omega] at this
  · intro h k hk
    exact h (p + k) (by omega) (by omega)

theorem eraseLoop_eq : ∀ (n : Nat) (m : Mem) (p : Nat),
    eraseLoop pt n m p = fun a => if p ≤ a ∧ a < p + n * flashBlockSize then pt.empty else m a
  | 0, m, p => by
    funext b
    rw [Nat.zero_mul, if_neg (by omega)]
    rfl
  | n + 1, m, p => by
    rw [eraseLoop, eraseLoop_eq n]
    funext b
    rw [Nat.add_one_mul]
    have hblock : (if isClean pt m p flashBlockSize then m else flashEraseBlock pt m p) b
        = if p ≤ b ∧ b < p + flashBlockSize then pt.empty else m b := by
      split
      next hclean =>
        split
        next hb => exact isClean_iff.mp hclean b hb.1 hb.2
        next => rfl
      next => rfl
    rw [hblock]
    by_cases h1 : p + flashBlockSize ≤ b ∧ b < p + flashBlockSize + n * flashBlockSize
    · rw [if_pos h1, if_pos (by omega)]
    · rw [if_neg h1]
      by_cases h2 : p ≤ b ∧ b < p + flashBlockSize
      · rw [if_pos h2, if_pos (by omega)]
      · rw [if_neg h2, if_neg (by omega)]

theorem updateLoop_eq : ∀ (n : Nat) (m : Mem) (p q : Nat), updateLoop data n m p q
      = fun a => if p ≤ a ∧ a < p + n * flashBlockSize then data (q + (a - p)) else m a
  | 0, m, p, q => by
    funext b
    rw [Nat.zero_mul, if_neg (by omega)]
    rfl
  | n + 1, m, p, q => by
    rw [updateLoop, updateLoop_eq n]
    funext b
    rw [Nat.add_one_mul]
    unfold flashWriteBlock
    by_cases h1 : p + flashBlockSize ≤ b ∧ b < p + flashBlockSize + n * flashBlockSize
    · have hq : q + flashBlockSize + (b - (p + flashBlockSize)) = q + (b - p) := by omega
      rw [if_pos h1, if_pos (by omega), hq]
    · rw [if_neg h1]
      by_cases h2 : p ≤ b ∧ b < p + flashBlockSize
      · rw [if_pos h2, if_pos (by omega)]
      · rw [if_neg h2, if_neg (by omega)]

end

end BayTrail.Flash
