import BayTrail.Nvram.Checked

/-!
# The NVRAM store: reading an arbitrary image

Nothing is known of the bytes of the store here. A record that `NvIsVariable` looks at can
stand so near to the end that its header does not fit, its `extsize` can point out of the
store, its name need not end, its GUID index need not be one of a slot, and its name and
extended header may together be larger than the record. `Tame` says that none of this is
the case for the records that the iterators come by, and it is exactly then that all the
read routines keep to the store and `NvGetData` finds a size (`readsInside_iff_tame`).
-/

namespace BayTrail.Nvram

open BayTrail.Lib

/-! ## The condition -/

/-- The flags, the size and the `next` field are those of a record. -/
def headerOk (s : StoreInfo) (p : Nat) : Bool :=
  flagsAt s.mem p != flashEmptyByte && flagsAt s.mem p &&& ~~~allFlags == 0 && sizeOk s p
    && nextOk s p

/-- The `extsize` of the record stays in the store. -/
def ExtInside (s : StoreInfo) (p : Nat) : Prop :=
  rd s.mem 2 (nvGetExtSize s.mem p) ≤ p + sizeAt s.mem p
    ∧ p + sizeAt s.mem p < s.nvramSize + rd s.mem 2 (nvGetExtSize s.mem p)

/-- What `NvIsVariable` reads of a record at `p` is inside. -/
def Legible (s : StoreInfo) (p : Nat) : Prop :=
  p + 4 ≤ s.nvramSize ∧ (sigAt s.mem p = nvarSignature → p + sizeofNvar ≤ s.nvramSize
    ∧ (headerOk s p = true → hasFlag s.mem p flagExtHeder = true → ExtInside s p))

/-- The positions that a walk over the records passes. Behind a first record that is none
there is no walk. -/
inductive Walked (s : StoreInfo) : Nat → Prop
  | first : Walked s s.pFirstVar
  | next {p : Nat} (hw : Walked s p) (hfirst : nvIsVariable s s.pFirstVar = true)
      (hsize : sizeOk s p = true) (hlt : p + sizeAt s.mem p < s.pEndOfVars) :
      Walked s (p + sizeAt s.mem p)

/-- The positions that the chain of the record at `p` leads to. -/
inductive Chained (s : StoreInfo) (p : Nat) : Nat → Prop
  | head : Chained s p p
  | next {q : Nat} (hc : Chained s p q) (hvar : nvIsVariable s q = true)
      (hnext : nextAt s.mem q ≠ flashEmptyNext) : Chained s p (q + nextAt s.mem q)

/-- The name ends inside. -/
def NameEnds (s : StoreInfo) (p : Nat) : Prop :=
  if hasFlag s.mem p flagAsciiName then
    ∃ k, nvGetName s.mem p + k < s.nvramSize ∧ s.mem (nvGetName s.mem p + k) = 0
  else ∃ k, nvGetName s.mem p + 2 * k + 2 ≤ s.nvramSize ∧ rd s.mem 2 (nvGetName s.mem p + 2 * k) = 0

/-- The GUID is inside, in the record or in its slot. -/
def GuidInside (s : StoreInfo) (p : Nat) : Prop :=
  if hasFlag s.mem p flagGuid then p + sizeofNvar + sizeofGuid ≤ s.nvramSize
  else sizeofGuid * ((s.mem (p + sizeofNvar)).toNat + 1) ≤ s.nvramSize

/-- A record that the iterators yield. -/
structure Live (s : StoreInfo) (p : Nat) : Prop where
  first : nvIsVariable s s.pFirstVar = true
  walked : Walked s p
  variable_ : nvIsVariable s p = true
  valid : nvIsValid s.mem p = true

/-- The image has none of the faults that the read routines do not look for. -/
structure Tame (s : StoreInfo) : Prop where
  walk : ∀ p, Walked s p → Legible s p ∧ (nvIsVariable s s.pFirstVar = true → p + 6 ≤ s.nvramSize)
  chain : ∀ p q, Live s p → Chained s p q → Legible s q
  name : ∀ p, Live s p → NameEnds s p
  guid : ∀ p, Live s p → GuidInside s p
  /-- name and extended header of the record with the data leave a size that is not negative -/
  data : ∀ p e q, Live s p → nameEndC s p = some e → nvGetDataNvarC s p = some (some q) →
    dataOffset s q (e - nvGetName s.mem p) + extSizeAt s q ≤ sizeAt s.mem q

/-! ## The property -/

/-- The records that `NvGetFirstValid` and `NvGetNextValid` yield. -/
inductive Yielded (s : StoreInfo) : Nat → Prop
  | first {p : Nat} (h : nvGetFirstValidC s = some (some p)) : Yielded s p
  | next {p q : Nat} (hy : Yielded s p) (h : nvGetNextValidC s p = some (some q)) : Yielded s q

/-- The read routines end, read no byte outside of the store, and compute no negative size:
the iterators, and for every record that they yield its chain, its extended header, its
name and its data. -/
structure ReadsInside (s : StoreInfo) : Prop where
  firstValid : nvGetFirstValidC s ≠ none
  nextValid : ∀ p, Yielded s p → nvGetNextValidC s p ≠ none
  nextVariable : ∀ key runtime, nvGetNextVariableNvarC s key runtime ≠ none
  dataNvar : ∀ p, Yielded s p → nvGetDataNvarC s p ≠ none
  ext : ∀ p q, Yielded s p → (q = p ∨ nvGetDataNvarC s p = some (some q)) →
    nvCalculateNvarChecksumC s q ≠ none
      ∧ (hasFlag s.mem q flagExtHeder = true → extFlagsByteC s q ≠ none)
  name : ∀ p bufferSize, Yielded s p → nvGetNameFromNvarC s p bufferSize ≠ none
  data : ∀ p e, Yielded s p → nameEndC s p = some e → nvGetDataC s p (e - nvGetName s.mem p) ≠ none

section

variable {s : StoreInfo} {p q w : Nat}

/-! ## Accesses -/

theorem access_add (p k : Nat) : access s w ((p : Int) + (k : Int))
    = if p + k + w ≤ s.nvramSize then some (rd s.mem w (p + k)) else none := by
  unfold access
  by_cases h : p + k + w ≤ s.nvramSize
  · rw [if_pos (by omega), if_pos h]
    congr 1
  · rw [if_neg (by omega), if_neg h]

theorem access_cast (p : Nat) : access s w (p : Int)
    = if p + w ≤ s.nvramSize then some (rd s.mem w p) else none := by
  have := access_add (s := s) (w := w) p 0
  simpa using this

theorem rd_one (m : Mem) (a : Nat) : (rd m 1 a).toUInt8 = m a := by
  simp [rd, peek, leVal]

/-- The byte of the extended flags is read where `extsize` points. -/
theorem extFlagsByteC_eq (hp : p + sizeAt s.mem p ≤ s.nvramSize) (hsz : sizeofNvar < sizeAt s.mem p) :
    (ExtInside s p → extFlagsByteC s p = some (rd s.mem 1 (nvGetExtFlags s.mem p)))
      ∧ (¬ ExtInside s p → extFlagsByteC s p = none) := by
  unfold sizeofNvar at hsz
  have h1 : access s 2 ((p : Int) + (sizeOffset : Nat)) = some (sizeAt s.mem p) := by
    rw [access_add, if_pos (by unfold sizeOffset; omega)]
    rfl
  have h2 : access s 2 ((p : Int) + (sizeAt s.mem p : Nat) - 2)
      = some (rd s.mem 2 (nvGetExtSize s.mem p)) := by
    unfold access nvGetExtSize
    rw [if_pos (by omega)]
    congr 2
    omega
  unfold extFlagsByteC ExtInside nvGetExtFlags
  rw [h1, Option.bind_some, h2, Option.bind_some]
  unfold access nvGetExtSize
  constructor
  · intro h
    rw [if_pos (by omega)]
    congr 2
    omega
  · intro h
    rw [if_neg (by omega)]

/-! ## Validation routines -/

/-- The checksum of a record whose header fits is computed if its `extsize` stays inside. -/
theorem nvCalculateNvarChecksumC_eq (hp : p + sizeAt s.mem p ≤ s.nvramSize)
    (hsz : sizeofNvar < sizeAt s.mem p) (hext : hasFlag s.mem p flagExtHeder = true → ExtInside s p) :
    nvCalculateNvarChecksumC s p = some (nvCalculateNvarChecksum s.mem p) := by
  unfold nvCalculateNvarChecksumC nvCalculateNvarChecksum
  rw [access_add, if_pos (by unfold nextOffset sizeofNvar at *; omega), Option.bind_some]
  cases hf : hasFlag s.mem p flagExtHeder with
  | false => rfl
  | true =>
    have hbody : access s (sizeAt s.mem p - sizeofNvar) ((p : Int) + (sizeofNvar : Nat))
        = some (rd s.mem (sizeAt s.mem p - sizeofNvar) (p + sizeofNvar)) := by
      rw [access_add, if_pos (by omega)]
    rw [(extFlagsByteC_eq hp hsz).1 (hext hf), Option.bind_some, rd_one, hbody]
    simp only [Bool.not_true, Bool.false_or, Bool.false_eq_true, if_false, beq_iff_eq, Option.map_some]
    by_cases hz : s.mem (nvGetExtFlags s.mem p) &&& extFlagChecksum = 0
    · rw [if_pos hz, if_pos hz]
    · rw [if_neg hz, if_neg hz]

/-- What `NvIsVariable` asks of the extended header. -/
def checksumOk (s : StoreInfo) (p : Nat) : Bool :=
  !hasFlag s.mem p flagExtHeder || s.mem (nvGetExtFlags s.mem p) &&& extFlagChecksum == 0
    || !hasFlag s.mem p flagValid || nvCalculateNvarChecksum s.mem p == 0

theorem nvIsVariable_split : nvIsVariable s p
    = (sigAt s.mem p == nvarSignature && headerOk s p && checksumOk s p) := by
  unfold nvIsVariable headerOk nextOk checksumOk
  simp only [Bool.and_assoc]

theorem nvIsVariable_headerOk (h : nvIsVariable s p = true) :
    sigAt s.mem p = nvarSignature ∧ headerOk s p = true := by
  rw [nvIsVariable_split, Bool.and_eq_true, Bool.and_eq_true, beq_iff_eq] at h
  exact h.1

/-- `NvIsVariable` keeps to the store exactly where what it reads is inside. -/
theorem nvIsVariableC_eq (hend : s.pEndOfVars ≤ s.nvramSize) (p : Nat) :
    (Legible s p → nvIsVariableC s p = some (nvIsVariable s p))
      ∧ (¬ Legible s p → nvIsVariableC s p = none) := by
  unfold nvIsVariableC Legible
  rw [access_cast, access_add, access_add]
  by_cases h4 : p + 4 ≤ s.nvramSize
  case neg =>
    rw [if_neg h4]
    exact ⟨fun h => absurd h.1 h4, fun _ => rfl⟩
  rw [if_pos h4, Option.bind_some]
  change (_ → (if sigAt s.mem p ≠ nvarSignature then _ else _) = _)
    ∧ (_ → (if sigAt s.mem p ≠ nvarSignature then _ else _) = _)
  by_cases hsig : sigAt s.mem p = nvarSignature
  case neg =>
    have hfalse : nvIsVariable s p = false := by
      cases hv : nvIsVariable s p with
      | false => rfl
      | true => exact absurd (nvIsVariable_headerOk hv).1 hsig
    rw [if_pos hsig, hfalse]
    exact ⟨fun _ => rfl, fun h => absurd ⟨h4, fun he => absurd he hsig⟩ h⟩
  rw [if_neg (not_not.mpr hsig)]
  by_cases h10 : p + sizeofNvar ≤ s.nvramSize
  case neg =>
    rw [if_neg (by unfold nextOffset sizeofNvar at *; omega), Option.bind_none]
    exact ⟨fun h => absurd (h.2 hsig).1 h10, fun _ => rfl⟩
  rw [if_pos (by unfold nextOffset sizeofNvar at *; omega), Option.bind_some,
    if_pos (show p + sizeOffset + 2 ≤ s.nvramSize by unfold sizeOffset sizeofNvar at *; omega),
    Option.bind_some, nvIsVariable_split, hsig, beq_self_eq_true, Bool.true_and]
  by_cases hflags : flagsAt s.mem p = flashEmptyByte ∨ flagsAt s.mem p &&& ~~~allFlags ≠ 0
  case pos =>
    have hno : headerOk s p = false := by
      unfold headerOk
      obtain h | h := hflags <;> simp [h]
    rw [if_pos hflags, hno]
    exact ⟨fun _ => rfl, fun h => absurd ⟨h4, fun _ => ⟨h10, fun he => absurd he (by simp)⟩⟩ h⟩
  have hheader : headerOk s p = (sizeOk s p && nextOk s p) := by
    obtain ⟨h1, h2⟩ := not_or.mp hflags
    unfold headerOk
    rw [bne_iff_ne.mpr h1, beq_iff_eq.mpr (not_not.mp h2), Bool.true_and, Bool.true_and]
  rw [if_neg hflags, hheader]
  cases hsz : sizeOk s p with
  | false => exact ⟨fun _ => rfl, fun h => absurd ⟨h4, fun _ => ⟨h10, fun he => absurd he (by simp)⟩⟩ h⟩
  | true =>
  cases hnx : nextOk s p with
  | false => exact ⟨fun _ => rfl, fun h => absurd ⟨h4, fun _ => ⟨h10, fun he => absurd he (by simp)⟩⟩ h⟩
  | true =>
  obtain ⟨hmin, hmax⟩ := sizeOk_bounds hsz
  unfold checksumOk
  cases hf : hasFlag s.mem p flagExtHeder with
  | false =>
    exact ⟨fun _ => rfl, fun h => absurd ⟨h4, fun _ => ⟨h10, fun _ he => absurd he (by simp)⟩⟩ h⟩
  | true =>
    obtain ⟨hin, hout⟩ := extFlagsByteC_eq (s := s) (p := p) (by omega) hmin
    constructor
    · intro h
      have hext := (h.2 rfl).2 rfl rfl
      rw [hin hext]
      simp only [Bool.not_true, Bool.false_eq_true, if_false, Bool.false_or, Bool.and_true,
        Option.bind_some, rd_one]
      by_cases hz : s.mem (nvGetExtFlags s.mem p) &&& extFlagChecksum = 0
      · rw [if_pos hz, beq_iff_eq.mpr hz]
        rfl
      rw [if_neg hz, beq_eq_false_iff_ne.mpr hz]
      cases hv : hasFlag s.mem p flagValid with
      | false => rfl
      | true =>
        rw [nvCalculateNvarChecksumC_eq (by omega) hmin fun _ => hext]
        rfl
    · intro h
      rw [hout fun hext => h ⟨h4, fun _ => ⟨h10, fun _ _ => hext⟩⟩]
      rfl

theorem nvIsVariableC_some {b : Bool} (hend : s.pEndOfVars ≤ s.nvramSize)
    (h : nvIsVariableC s p = some b) : Legible s p ∧ nvIsVariable s p = b := by
  by_cases hl : Legible s p
  · rw [(nvIsVariableC_eq hend p).1 hl] at h
    exact ⟨hl, Option.some.inj h⟩
  · rw [(nvIsVariableC_eq hend p).2 hl] at h
    exact absurd h (by simp)

theorem nvIsVariableC_true (hend : s.pEndOfVars ≤ s.nvramSize) (h : nvIsVariableC s p = some true) :
    sizeOk s p = true ∧ p < s.pEndOfVars ∧ sizeofNvar < sizeAt s.mem p
      ∧ p + sizeAt s.mem p ≤ s.pEndOfVars := by
  have hs := nvIsVariable_sizeOk (nvIsVariableC_some hend h).2
  obtain ⟨h1, h2⟩ := sizeOk_bounds hs
  exact ⟨hs, by omega, h1, h2⟩

/-! ## The walk

A step goes up by the size of a record, so that the fuel of the loops, which is that of one
step for each byte, never runs out, and more of it changes nothing. -/

theorem skipInvalidLoopC_fuel : ∀ {n n' p : Nat}, s.pEndOfVars ≤ p + n → s.pEndOfVars ≤ p + n' →
    skipInvalidLoopC s (n + 1) p = skipInvalidLoopC s (n' + 1) p := by
  intro n
  induction n with
  | zero =>
    intro n' p hn _
    unfold skipInvalidLoopC
    rw [if_pos (by omega), if_pos (by omega)]
  | succ n ih =>
    intro n' p hn hn'
    unfold skipInvalidLoopC
    by_cases hp : s.pEndOfVars ≤ p
    · rw [if_pos hp, if_pos hp]
    rw [if_neg hp, if_neg hp]
    congr 1
    funext found
    cases found with
    | true => rfl
    | false =>
      simp only [Bool.false_eq_true, if_false]
      unfold access
      split
      · rename_i hacc
        rw [Option.bind_some, Option.bind_some]
        cases hs : sizeOk s p with
        | false => rfl
        | true =>
          have hsz : 0 < rd s.mem 2 ((p : Int) + (sizeOffset : Nat)).toNat := by
            have := (sizeOk_bounds hs).1
            change sizeofNvar < rd s.mem 2 (p + sizeOffset) at this
            rw [show ((p : Int) + (sizeOffset : Nat)).toNat = p + sizeOffset by omega]
            omega
          obtain ⟨k, rfl⟩ : ∃ k, n' = k + 1 := ⟨n' - 1, by omega⟩
          simp only [if_true]
          exact ih (by omega) (by omega)
      · rfl

theorem skipInvalidLoopC_some : ∀ {n p : Nat}, skipInvalidLoopC s n p = some (some q) →
    p ≤ q ∧ nvIsVariableC s q = some true := by
  intro n
  induction n with
  | zero => exact fun h => absurd h (by simp [skipInvalidLoopC])
  | succ n ih =>
    intro p h
    unfold skipInvalidLoopC at h
    split at h
    · exact absurd h (by simp)
    obtain ⟨found, hv, h⟩ := Option.bind_eq_some_iff.mp h
    cases found with
    | true =>
      simp only [if_true, Option.some.injEq] at h
      subst h
      exact ⟨le_rfl, hv⟩
    | false =>
      simp only [Bool.false_eq_true, if_false] at h
      obtain ⟨size, -, h⟩ := Option.bind_eq_some_iff.mp h
      split at h
      · obtain ⟨hle, hq⟩ := ih h
        exact ⟨by omega, hq⟩
      · exact absurd h (by simp)

theorem nvGetNextNvarC_some (hend : s.pEndOfVars ≤ s.nvramSize)
    (h : nvGetNextNvarC s p = some (some q)) : p < q ∧ nvIsVariableC s q = some true := by
  unfold nvGetNextNvarC at h
  split at h
  · exact absurd h (by simp)
  obtain ⟨found, hv, h⟩ := Option.bind_eq_some_iff.mp h
  cases found with
  | true =>
    have hsz := (nvIsVariableC_true hend hv).2.2.1
    obtain ⟨hle, hq⟩ := skipInvalidLoopC_some h
    exact ⟨by omega, hq⟩
  | false =>
    obtain ⟨hle, hq⟩ := skipInvalidLoopC_some h
    have hne : p ≠ q := by
      intro he
      rw [he, hq] at hv
      exact absurd hv (by simp)
    exact ⟨by omega, hq⟩

theorem nextValidLoopC_fuel (hend : s.pEndOfVars ≤ s.nvramSize) : ∀ {n n' p : Nat},
    s.pEndOfVars ≤ p + n → s.pEndOfVars ≤ p + n' →
    nextValidLoopC s (n + 1) p = nextValidLoopC s (n' + 1) p := by
  intro n
  induction n with
  | zero =>
    intro n' p hn _
    have h : nvGetNextNvarC s p = some none := by
      unfold nvGetNextNvarC
      rw [if_pos (by omega)]
    unfold nextValidLoopC
    rw [h]
    rfl
  | succ n ih =>
    intro n' p hn hn'
    unfold nextValidLoopC
    cases hnext : nvGetNextNvarC s p with
    | none => rfl
    | some r =>
      cases r with
      | none => rfl
      | some q =>
        obtain ⟨hlt, hq⟩ := nvGetNextNvarC_some hend hnext
        have hqe := (nvIsVariableC_true hend hq).2.1
        rw [Option.bind_some, Option.bind_some]
        simp only
        obtain ⟨k, rfl⟩ : ∃ k, n' = k + 1 := ⟨n' - 1, by omega⟩
        split
        · rfl
        · exact ih (by omega) (by omega)

/-- The first live record from `p` on. -/
def scanC (s : StoreInfo) (p : Nat) : Option (Option Nat) :=
  (skipInvalidLoopC s (s.pEndOfVars + 1) p).bind fun next =>
    match next with
    | none => some none
    | some q => if nvIsValid s.mem q then some (some q) else nvGetNextValidC s q

theorem scanC_end (h : s.pEndOfVars ≤ p) : scanC s p = some none := by
  unfold scanC skipInvalidLoopC
  rw [if_pos h]
  rfl

/-- Behind a record the search goes on with the next position. -/
theorem nvGetNextValidC_eq (hend : s.pEndOfVars ≤ s.nvramSize) (hv : nvIsVariableC s p = some true) :
    nvGetNextValidC s p = scanC s (p + sizeAt s.mem p) := by
  have hlt := (nvIsVariableC_true hend hv).2.1
  have hnext : nvGetNextNvarC s p = skipInvalidLoopC s (s.pEndOfVars + 1) (p + sizeAt s.mem p) := by
    unfold nvGetNextNvarC
    rw [if_neg (by omega), hv]
    rfl
  unfold scanC
  rw [← hnext, show nvGetNextValidC s p = nextValidLoopC s (s.pEndOfVars + 1) p from rfl, nextValidLoopC]
  cases hq : nvGetNextNvarC s p with
  | none => rfl
  | some r =>
    cases r with
    | none => rfl
    | some q =>
      have hpq := (nvGetNextNvarC_some hend hq).1
      rw [Option.bind_some, Option.bind_some]
      simp only
      split
      · rfl
      · obtain ⟨k, hk⟩ : ∃ k, s.pEndOfVars = k + 1 := ⟨s.pEndOfVars - 1, by omega⟩
        unfold nvGetNextValidC
        rw [hk]
        exact nextValidLoopC_fuel hend (by omega) (by omega)

/-- The search at a position, by what `NvIsVariable` says there. -/
theorem scanC_step (hend : s.pEndOfVars ≤ s.nvramSize) (hp : p < s.pEndOfVars) :
    (nvIsVariableC s p = none → scanC s p = none)
      ∧ (nvIsVariableC s p = some true → scanC s p =
          if nvIsValid s.mem p then some (some p) else scanC s (p + sizeAt s.mem p))
      ∧ (nvIsVariableC s p = some false → scanC s p =
          if p + 6 ≤ s.nvramSize then
            if sizeOk s p then scanC s (p + sizeAt s.mem p) else some none
          else none) := by
  refine ⟨fun h => ?_, fun h => ?_, fun h => ?_⟩
  · unfold scanC skipInvalidLoopC
    rw [if_neg (by omega), h]
    rfl
  · have hself : scanC s p = if nvIsValid s.mem p then some (some p) else nvGetNextValidC s p := by
      unfold scanC skipInvalidLoopC
      rw [if_neg (by omega), h]
      rfl
    rw [hself, nvGetNextValidC_eq hend h]
  · unfold scanC
    rw [show skipInvalidLoopC s (s.pEndOfVars + 1) p
        = (access s 2 ((p : Int) + (sizeOffset : Nat))).bind fun size =>
          if sizeOk s p then skipInvalidLoopC s s.pEndOfVars (p + size) else some none by
      rw [skipInvalidLoopC, if_neg (by omega), h]
      rfl]
    rw [access_add]
    by_cases h6 : p + 6 ≤ s.nvramSize
    · rw [if_pos (by unfold sizeOffset; omega), if_pos h6, Option.bind_some]
      cases hs : sizeOk s p with
      | false => rfl
      | true =>
        have hsz := (sizeOk_bounds hs).1
        obtain ⟨k, hk⟩ : ∃ k, s.pEndOfVars = k + 1 := ⟨s.pEndOfVars - 1, by omega⟩
        have hfuel : skipInvalidLoopC s s.pEndOfVars (p + sizeAt s.mem p)
            = skipInvalidLoopC s (s.pEndOfVars + 1) (p + sizeAt s.mem p) := by
          rw [hk]
          exact skipInvalidLoopC_fuel (by omega) (by omega)
        simp only [if_true]
        rw [← hfuel]
        rfl
    · rw [if_neg (by unfold sizeOffset; omega), if_neg h6]
      rfl

theorem Live.checked (hend : s.pEndOfVars ≤ s.nvramSize) (l : Live s p) (hl : Legible s p) :
    nvIsVariableC s p = some true := by
  rw [(nvIsVariableC_eq hend p).1 hl, l.variable_]

theorem Live.lt (l : Live s p) : p < s.pEndOfVars := by
  have := nvIsVariable_bounds l.variable_
  omega

/-- On a tame image the search from a position of the walk ends, with a live record or
none. -/
theorem Tame.scan (T : Tame s) (hend : s.pEndOfVars ≤ s.nvramSize)
    (hfirst : nvIsVariable s s.pFirstVar = true) : ∀ (n : Nat) {p : Nat}, s.pEndOfVars ≤ p + n →
    (p < s.pEndOfVars → Walked s p) →
    ∃ r, scanC s p = some r ∧ ∀ q, r = some q → Live s q ∧ p ≤ q := by
  intro n
  induction n with
  | zero =>
    intro p hn _
    exact ⟨none, scanC_end (by omega), fun q h => absurd h (by simp)⟩
  | succ n ih =>
    intro p hn hw
    by_cases hp : s.pEndOfVars ≤ p
    · exact ⟨none, scanC_end hp, fun q h => absurd h (by simp)⟩
    have hwp := hw (by omega)
    obtain ⟨hleg, h6⟩ := T.walk p hwp
    have hv := (nvIsVariableC_eq hend p).1 hleg
    obtain ⟨-, htrue, hfalse⟩ := scanC_step hend (show p < s.pEndOfVars by omega)
    have hnext : sizeOk s p = true →
        ∃ r, scanC s (p + sizeAt s.mem p) = some r ∧ ∀ q, r = some q → Live s q ∧ p ≤ q := by
      intro hs
      have hmin := (sizeOk_bounds hs).1
      obtain ⟨r, hr, hlive⟩ := ih (p := p + sizeAt s.mem p) (by omega) (Walked.next hwp hfirst hs)
      refine ⟨r, hr, fun q hq => ?_⟩
      obtain ⟨h1, h2⟩ := hlive q hq
      exact ⟨h1, by omega⟩
    cases hb : nvIsVariable s p with
    | true =>
      rw [htrue (by rw [hv, hb])]
      cases hval : nvIsValid s.mem p with
      | true =>
        refine ⟨some p, rfl, fun q hq => ?_⟩
        obtain rfl := Option.some.inj hq
        exact ⟨⟨hfirst, hwp, hb, hval⟩, le_rfl⟩
      | false => exact hnext (nvIsVariable_sizeOk hb)
    | false =>
      rw [hfalse (by rw [hv, hb]), if_pos (h6 hfirst)]
      cases hs : sizeOk s p with
      | true => exact hnext hs
      | false => exact ⟨none, rfl, fun q h => absurd h (by simp)⟩

theorem Tame.nextValid (T : Tame s) (hend : s.pEndOfVars ≤ s.nvramSize) (l : Live s p) :
    ∃ r, nvGetNextValidC s p = some r ∧ ∀ q, r = some q → Live s q ∧ p < q := by
  have hs := nvIsVariable_sizeOk l.variable_
  have hmin := (sizeOk_bounds hs).1
  rw [nvGetNextValidC_eq hend (l.checked hend (T.walk p l.walked).1)]
  obtain ⟨r, hr, hlive⟩ := T.scan hend l.first s.pEndOfVars (p := p + sizeAt s.mem p) (by omega)
    (Walked.next l.walked l.first hs)
  refine ⟨r, hr, fun q hq => ?_⟩
  obtain ⟨h1, h2⟩ := hlive q hq
  exact ⟨h1, by omega⟩

/-- The first live record is that of the search from the first record on. -/
theorem nvGetFirstValidC_eq (hend : s.pEndOfVars ≤ s.nvramSize)
    (hv : nvIsVariableC s s.pFirstVar = some true) : nvGetFirstValidC s = scanC s s.pFirstVar := by
  rw [(scanC_step hend (nvIsVariableC_true hend hv).2.1).2.1 hv, ← nvGetNextValidC_eq hend hv]
  unfold nvGetFirstValidC
  rw [hv]
  rfl

theorem Tame.firstValid (T : Tame s) (hend : s.pEndOfVars ≤ s.nvramSize) :
    ∃ r, nvGetFirstValidC s = some r ∧ ∀ q, r = some q → Live s q := by
  have hv := (nvIsVariableC_eq hend s.pFirstVar).1 (T.walk _ Walked.first).1
  cases hb : nvIsVariable s s.pFirstVar with
  | true =>
    rw [nvGetFirstValidC_eq hend (by rw [hv, hb])]
    obtain ⟨r, hr, hlive⟩ := T.scan hend hb s.pEndOfVars (p := s.pFirstVar) (by omega)
      fun _ => Walked.first
    exact ⟨r, hr, fun q hq => (hlive q hq).1⟩
  | false =>
    refine ⟨none, ?_, fun q h => absurd h (by simp)⟩
    unfold nvGetFirstValidC
    rw [hv, hb]
    rfl

theorem Tame.live (T : Tame s) (hend : s.pEndOfVars ≤ s.nvramSize) (hy : Yielded s p) : Live s p := by
  induction hy with
  | first h =>
    obtain ⟨r, hr, hlive⟩ := T.firstValid hend
    exact hlive _ (Option.some.inj (hr.symm.trans h))
  | next _ h ih =>
    obtain ⟨r, hr, hlive⟩ := T.nextValid hend ih
    exact (hlive _ (Option.some.inj (hr.symm.trans h))).1

/-- Where the iterators keep to the store, the search from each position of the walk does,
and what it finds is yielded. -/
theorem Walked.scan (hend : s.pEndOfVars ≤ s.nvramSize) (hfirst : nvIsVariable s s.pFirstVar = true)
    (h1 : nvGetFirstValidC s ≠ none) (h2 : ∀ p, Yielded s p → nvGetNextValidC s p ≠ none)
    (hw : Walked s p) : scanC s p ≠ none ∧ p < s.pEndOfVars
      ∧ ∀ q, scanC s p = some (some q) → Yielded s q := by
  induction hw with
  | first =>
    have hv : nvIsVariableC s s.pFirstVar = some true := by
      cases hc : nvIsVariableC s s.pFirstVar with
      | none =>
        refine absurd ?_ h1
        unfold nvGetFirstValidC
        rw [hc]
        rfl
      | some b => rw [← (nvIsVariableC_some hend hc).2, hfirst]
    rw [← nvGetFirstValidC_eq hend hv]
    exact ⟨h1, (nvIsVariableC_true hend hv).2.1, fun q hq => Yielded.first hq⟩
  | @next p hw _ hsize hlt ih =>
    obtain ⟨hscan, hp, hy⟩ := ih
    obtain ⟨hnone, htrue, hfalse⟩ := scanC_step hend hp
    cases hc : nvIsVariableC s p with
    | none => exact absurd (hnone hc) hscan
    | some b =>
      cases b with
      | true =>
        have hnext := nvGetNextValidC_eq hend hc
        cases hval : nvIsValid s.mem p with
        | true =>
          have hyp : Yielded s p := hy p (by rw [htrue hc, if_pos hval])
          rw [← hnext]
          exact ⟨h2 p hyp, hlt, fun q hq => Yielded.next hyp hq⟩
        | false =>
          rw [htrue hc, if_neg (by simp [hval])] at hscan hy
          exact ⟨hscan, hlt, hy⟩
      | false =>
        rw [hfalse hc] at hscan hy
        split at hscan
        · rename_i h6
          rw [if_pos h6, if_pos hsize] at hy
          exact ⟨hscan, hlt, hy⟩
        · exact absurd rfl hscan

section

variable (hend : s.pEndOfVars ≤ s.nvramSize) (h1 : nvGetFirstValidC s ≠ none)
  (h2 : ∀ p, Yielded s p → nvGetNextValidC s p ≠ none)
include hend h1 h2

theorem Walked.legible (hw : Walked s p) :
    Legible s p ∧ (nvIsVariable s s.pFirstVar = true → p + 6 ≤ s.nvramSize) := by
  by_cases hfirst : nvIsVariable s s.pFirstVar = true
  · obtain ⟨hscan, hp, -⟩ := hw.scan hend hfirst h1 h2
    obtain ⟨hnone, -, hfalse⟩ := scanC_step hend hp
    cases hc : nvIsVariableC s p with
    | none => exact absurd (hnone hc) hscan
    | some b =>
      refine ⟨(nvIsVariableC_some hend hc).1, fun _ => ?_⟩
      cases b with
      | true =>
        have := nvIsVariableC_true hend hc
        unfold sizeofNvar at this
        omega
      | false =>
        rw [hfalse hc] at hscan
        split at hscan
        · assumption
        · exact absurd rfl hscan
  · refine ⟨?_, fun h => absurd h hfirst⟩
    cases hw with
    | first =>
      cases hc : nvIsVariableC s s.pFirstVar with
      | some b => exact (nvIsVariableC_some hend hc).1
      | none =>
        refine absurd ?_ h1
        unfold nvGetFirstValidC
        rw [hc]
        rfl
    | next _ hf _ _ => exact absurd hf hfirst

theorem Live.yielded (l : Live s p) : Yielded s p := by
  obtain ⟨-, hp, hy⟩ := l.walked.scan hend l.first h1 h2
  refine hy p ?_
  rw [(scanC_step hend hp).2.1 (l.checked hend (l.walked.legible hend h1 h2).1), if_pos l.valid]

end

/-! ## The chain of a variable -/

theorem nextOk_of_variable (h : nvIsVariable s p = true) : nextAt s.mem p = flashEmptyNext
    ∨ sizeAt s.mem p ≤ nextAt s.mem p ∧ p + nextAt s.mem p ≤ s.pEndOfVars := by
  have := (nvIsVariable_headerOk h).2
  unfold headerOk nextOk at this
  simp only [Bool.and_eq_true, Bool.or_eq_true, beq_iff_eq, decide_eq_true_eq] at this
  exact this.2

/-- A chain of legible records goes up and ends. -/
theorem dataNvarLoopC_ne_none (hend : s.pEndOfVars ≤ s.nvramSize)
    (hleg : ∀ q, Chained s p q → Legible s q) : ∀ {n q : Nat} {last : Option Nat}, Chained s p q →
    s.pEndOfVars ≤ q + n → dataNvarLoopC s (n + 1) last q ≠ none := by
  intro n
  induction n with
  | zero =>
    intro q last hc hq
    have hv : nvIsVariable s q = false := by
      cases hb : nvIsVariable s q with
      | false => rfl
      | true =>
        have := nvIsVariable_bounds hb
        omega
    unfold dataNvarLoopC
    rw [(nvIsVariableC_eq hend q).1 (hleg q hc), hv]
    simp
  | succ n ih =>
    intro q last hc hq
    unfold dataNvarLoopC
    rw [(nvIsVariableC_eq hend q).1 (hleg q hc), Option.bind_some]
    cases hb : nvIsVariable s q with
    | false => simp
    | true =>
      simp only [Bool.not_true, Bool.false_eq_true, if_false]
      by_cases hnext : nextAt s.mem q = flashEmptyNext
      · rw [if_pos hnext]
        simp
      · rw [if_neg hnext]
        have hsz := (nvIsVariable_bounds hb).1
        obtain ⟨hge, -⟩ := (nextOk_of_variable hb).resolve_left hnext
        exact ih (Chained.next hc hb hnext) (by omega)

theorem dataNvarLoopC_some {r : Nat} (hend : s.pEndOfVars ≤ s.nvramSize) :
    ∀ {n : Nat} {q : Nat} {last : Option Nat}, Chained s p q →
    (∀ l, last = some l → Chained s p l ∧ nvIsVariableC s l = some true) →
    dataNvarLoopC s n last q = some (some r) → Chained s p r ∧ nvIsVariableC s r = some true := by
  intro n
  induction n with
  | zero => exact fun _ _ h => absurd h (by simp [dataNvarLoopC])
  | succ n ih =>
    intro q last hc hlast h
    unfold dataNvarLoopC at h
    obtain ⟨found, hv, h⟩ := Option.bind_eq_some_iff.mp h
    cases found with
    | false => exact hlast r (Option.some.inj h)
    | true =>
      simp only [Bool.not_true, Bool.false_eq_true, if_false] at h
      split at h
      · obtain rfl := Option.some.inj (Option.some.inj h)
        exact ⟨hc, hv⟩
      · rename_i hnext
        refine ih (Chained.next hc (nvIsVariableC_some hend hv).2 hnext) ?_ h
        intro l hl
        obtain rfl := Option.some.inj hl
        exact ⟨hc, hv⟩

/-- The record with the data is one of the chain. -/
theorem nvGetDataNvarC_some {r : Nat} (hend : s.pEndOfVars ≤ s.nvramSize)
    (h : nvGetDataNvarC s p = some (some r)) : Chained s p r ∧ nvIsVariableC s r = some true :=
  dataNvarLoopC_some (q := p) hend Chained.head (fun l hl => absurd hl (by simp)) h

/-- A walk along the chain that keeps to the store looks at all its positions. -/
theorem Chained.legible (hend : s.pEndOfVars ≤ s.nvramSize) (h : nvGetDataNvarC s p ≠ none)
    (hc : Chained s p q) : Legible s q := by
  have hloop : ∃ n last, dataNvarLoopC s n last q ≠ none := by
    induction hc with
    | head => exact ⟨_, _, h⟩
    | @next q hc hvar hnext ih =>
      obtain ⟨n, last, hn⟩ := ih
      cases n with
      | zero => exact absurd rfl hn
      | succ n =>
        unfold dataNvarLoopC at hn
        cases hv : nvIsVariableC s q with
        | none =>
          rw [hv] at hn
          exact absurd rfl hn
        | some b =>
          rw [hv, ← (nvIsVariableC_some hend hv).2, hvar, Option.bind_some] at hn
          simp only [Bool.not_true, Bool.false_eq_true, if_false, if_neg hnext] at hn
          exact ⟨n, some q, hn⟩
  obtain ⟨n, last, hn⟩ := hloop
  cases n with
  | zero => exact absurd rfl hn
  | succ n =>
    unfold dataNvarLoopC at hn
    cases hv : nvIsVariableC s q with
    | none =>
      rw [hv] at hn
      exact absurd rfl hn
    | some b => exact (nvIsVariableC_some hend hv).1

/-! ## Names and GUIDs -/

theorem asciiEndC_ne_none : ∀ {n p : Nat}, asciiEndC s n p ≠ none ↔
    ∃ k, k < n ∧ p + k < s.nvramSize ∧ s.mem (p + k) = 0 := by
  intro n
  induction n with
  | zero => exact fun {p} => iff_of_false (fun h => h rfl) (by rintro ⟨k, hk, -⟩; omega)
  | succ n ih =>
    intro p
    unfold asciiEndC
    rw [access_cast]
    by_cases hp : p + 1 ≤ s.nvramSize
    case neg =>
      rw [if_neg hp]
      exact iff_of_false (fun h => h rfl) (by rintro ⟨k, -, hk, -⟩; omega)
    rw [if_pos hp, Option.bind_some]
    have hrd : rd s.mem 1 p = 0 ↔ s.mem p = 0 := by
      simp only [rd, peek, leVal, Nat.mul_zero, Nat.add_zero]
      exact UInt8.toNat_inj (b := 0)
    by_cases h0 : s.mem p = 0
    · rw [if_pos (hrd.mpr h0)]
      exact iff_of_true (by simp) ⟨0, by omega, by omega, h0⟩
    rw [if_neg (fun h => h0 (hrd.mp h)), ih]
    constructor
    · rintro ⟨k, h1, h2, h3⟩
      exact ⟨k + 1, by omega, by omega, by rwa [show p + (k + 1) = p + 1 + k by omega]⟩
    · rintro ⟨k, h1, h2, h3⟩
      cases k with
      | zero => exact absurd h3 h0
      | succ k => exact ⟨k, by omega, by omega, by rwa [show p + 1 + k = p + (k + 1) by omega]⟩

theorem unicodeEndC_ne_none : ∀ {n p : Nat}, unicodeEndC s n p ≠ none ↔
    ∃ k, k < n ∧ p + 2 * k + 2 ≤ s.nvramSize ∧ rd s.mem 2 (p + 2 * k) = 0 := by
  intro n
  induction n with
  | zero => exact fun {p} => iff_of_false (fun h => h rfl) (by rintro ⟨k, hk, -⟩; omega)
  | succ n ih =>
    intro p
    unfold unicodeEndC
    rw [access_cast]
    by_cases hp : p + 2 ≤ s.nvramSize
    case neg =>
      rw [if_neg hp]
      exact iff_of_false (fun h => h rfl) (by rintro ⟨k, -, hk, -⟩; omega)
    rw [if_pos hp, Option.bind_some]
    by_cases h0 : rd s.mem 2 p = 0
    · rw [if_pos h0]
      exact iff_of_true (by simp) ⟨0, by omega, by omega, h0⟩
    rw [if_neg h0, ih]
    constructor
    · rintro ⟨k, h1, h2, h3⟩
      exact ⟨k + 1, by omega, by omega, by rwa [show p + 2 * (k + 1) = p + 2 + 2 * k by omega]⟩
    · rintro ⟨k, h1, h2, h3⟩
      cases k with
      | zero => exact absurd h3 h0
      | succ k =>
        exact ⟨k, by omega, by omega, by rwa [show p + 2 + 2 * k = p + 2 * (k + 1) by omega]⟩

theorem nameEndC_ne_none : nameEndC s p ≠ none ↔ NameEnds s p := by
  unfold nameEndC NameEnds
  split
  · rw [asciiEndC_ne_none]
    exact ⟨fun ⟨k, _, h⟩ => ⟨k, h⟩, fun ⟨k, h1, h2⟩ => ⟨k, by omega, h1, h2⟩⟩
  · rw [unicodeEndC_ne_none]
    exact ⟨fun ⟨k, _, h⟩ => ⟨k, h⟩, fun ⟨k, h1, h2⟩ => ⟨k, by omega, h1, h2⟩⟩

theorem guidC_ne_none (hp : p + sizeofNvar < s.nvramSize) : guidC s p ≠ none ↔ GuidInside s p := by
  unfold guidC GuidInside
  split
  · rw [access_add]
    by_cases h : p + sizeofNvar + sizeofGuid ≤ s.nvramSize
    · rw [if_pos h]
      exact iff_of_true (by simp) h
    · rw [if_neg h]
      exact iff_of_false (fun hn => hn rfl) h
  · rw [access_add, if_pos (by omega), Option.bind_some]
    have hrd : rd s.mem 1 (p + sizeofNvar) = (s.mem (p + sizeofNvar)).toNat := by
      simp only [rd, peek, leVal, Nat.mul_zero, Nat.add_zero]
    rw [hrd]
    unfold access sizeofGuid
    by_cases h : 16 * ((s.mem (p + sizeofNvar)).toNat + 1) ≤ s.nvramSize
    · rw [if_pos (by omega)]
      exact iff_of_true (by simp) h
    · rw [if_neg (by omega)]
      exact iff_of_false (fun hn => hn rfl) h

/-- A comparison with a name that has no zero in it stops at the end of the stored one. -/
theorem nameEqC_ne_none {w : Nat} {nameEqC : Nat → List UInt16 → Option (Option Nat)}
    (hnil : ∀ p, nameEqC p [] = (access s w (p : Int)).map fun c => if c = 0 then some (p + w) else none)
    (hcons : ∀ p c cs, nameEqC p (c :: cs)
      = (access s w (p : Int)).bind fun b => if b = c.toNat then nameEqC (p + w) cs else some none) :
    ∀ {cs : List UInt16} {p : Nat}, 0 ∉ cs →
      (∃ k, p + w * k + w ≤ s.nvramSize ∧ rd s.mem w (p + w * k) = 0) → nameEqC p cs ≠ none := by
  intro cs
  induction cs with
  | nil =>
    rintro p - ⟨k, hk, -⟩
    rw [hnil, access_cast, if_pos (by omega)]
    simp
  | cons c cs ih =>
    rintro p h0 ⟨k, hk, hz⟩
    rw [hcons, access_cast, if_pos (by omega), Option.bind_some]
    by_cases he : rd s.mem w p = c.toNat
    · rw [if_pos he]
      refine ih (fun h => h0 (List.mem_cons_of_mem _ h)) ?_
      cases k with
      | zero => exact absurd (he.symm.trans hz) (toNat_ne_zero h0)
      | succ k =>
        have hk' : p + w * (k + 1) = p + w + w * k := by
          rw [Nat.mul_succ]
          omega
        rw [hk'] at hk hz
        exact ⟨k, hk, hz⟩
    · rw [if_neg he]
      simp

/-- The fields in front of the name of a record are inside. -/
theorem Live.inside (hend : s.pEndOfVars ≤ s.nvramSize) (l : Live s p) :
    p + sizeofNvar < s.nvramSize := by
  have := nvIsVariable_bounds l.variable_
  omega

theorem nvVarEqC_ne_none (hp : p + sizeofNvar < s.nvramSize) (hname : NameEnds s p)
    (hguid : GuidInside s p) (key : Name × Guid) : nvVarEqC s p key ≠ none := by
  unfold nvVarEqC
  rw [access_add, if_pos (by unfold nextOffset sizeofNvar at *; omega), Option.bind_some, access_add,
    if_pos (by omega), Option.bind_some]
  have hcmp : (if hasFlag s.mem p flagAsciiName then asciiNameEqC s (nvGetName s.mem p) key.1.chars
      else unicodeNameEqC s (nvGetName s.mem p) key.1.chars) ≠ none := by
    unfold NameEnds at hname
    split
    · rename_i hf
      rw [if_pos hf] at hname
      obtain ⟨k, hk, hz⟩ := hname
      refine nameEqC_ne_none (fun _ => rfl) (fun _ _ _ => rfl) key.1.nonzero ⟨k, by omega, ?_⟩
      simp [rd, peek, leVal, hz]
    · rename_i hf
      rw [if_neg hf] at hname
      obtain ⟨k, hk, hz⟩ := hname
      exact nameEqC_ne_none (fun _ => rfl) (fun _ _ _ => rfl) key.1.nonzero ⟨k, by omega, hz⟩
  obtain ⟨r, hr⟩ := Option.ne_none_iff_exists'.mp hcmp
  rw [hr, Option.bind_some]
  cases r with
  | none => simp
  | some e =>
    obtain ⟨g, hg⟩ := Option.ne_none_iff_exists'.mp ((guidC_ne_none hp).mpr hguid)
    simp only [hg]
    simp

/-! ## The iteration by name -/

section

variable (T : Tame s) (hend : s.pEndOfVars ≤ s.nvramSize)
include T hend

theorem Tame.varEq (l : Live s p)
    (key : Name × Guid) : ∃ r, nvVarEqC s p key = some r :=
  Option.ne_none_iff_exists'.mp (nvVarEqC_ne_none (l.inside hend) (T.name p l) (T.guid p l) key)

theorem Tame.findVariableLoop (key : Name × Guid) :
    ∀ {n : Nat} {cur : Option Nat}, (∀ p, cur = some p → Live s p ∧ s.pEndOfVars ≤ p + n) →
    ∃ r, findVariableLoopC s key (n + 1) cur = some r ∧ ∀ x, r = some x → Live s x.1 := by
  intro n
  induction n with
  | zero =>
    intro cur hcur
    cases cur with
    | none => exact ⟨none, rfl, fun x h => absurd h (by simp)⟩
    | some p =>
      obtain ⟨hl, hp⟩ := hcur p rfl
      exact absurd hl.lt (by omega)
  | succ n ih =>
    intro cur hcur
    cases cur with
    | none => exact ⟨none, rfl, fun x h => absurd h (by simp)⟩
    | some p =>
      obtain ⟨hl, hp⟩ := hcur p rfl
      obtain ⟨found, hfound⟩ := T.varEq hend hl key
      unfold findVariableLoopC
      rw [hfound, Option.bind_some]
      cases found with
      | some nameSize =>
        refine ⟨_, rfl, fun x hx => ?_⟩
        obtain rfl := Option.some.inj hx
        exact hl
      | none =>
        obtain ⟨r, hr, hlive⟩ := T.nextValid hend hl
        simp only
        rw [hr, Option.bind_some]
        refine ih fun q hq => ?_
        obtain ⟨h1, h2⟩ := hlive q hq
        exact ⟨h1, by omega⟩

theorem Tame.findVariable (key : Name × Guid) :
    ∃ r, nvFindVariableC s key = some r ∧ ∀ x, r = some x → Live s x.1 := by
  obtain ⟨first, hf, hlive⟩ := T.firstValid hend
  unfold nvFindVariableC
  rw [hf, Option.bind_some]
  exact T.findVariableLoop hend key fun p hp => ⟨hlive p hp, by omega⟩

theorem Tame.runtimeLoop :
    ∀ {n : Nat} {cur : Option Nat}, (∀ p, cur = some p → Live s p ∧ s.pEndOfVars ≤ p + n) →
    runtimeLoopC s (n + 1) cur ≠ none := by
  intro n
  induction n with
  | zero =>
    intro cur hcur
    cases cur with
    | none => simp [runtimeLoopC]
    | some p =>
      obtain ⟨hl, hp⟩ := hcur p rfl
      exact absurd hl.lt (by omega)
  | succ n ih =>
    intro cur hcur
    cases cur with
    | none => simp [runtimeLoopC]
    | some p =>
      obtain ⟨hl, hp⟩ := hcur p rfl
      unfold runtimeLoopC
      split
      · simp
      · obtain ⟨r, hr, hlive⟩ := T.nextValid hend hl
        rw [hr, Option.bind_some]
        refine ih fun q hq => ?_
        obtain ⟨h1, h2⟩ := hlive q hq
        exact ⟨h1, by omega⟩

theorem Tame.currentNvar
    (hlast : ∀ p, s.pLastReturned = some p → Live s p) (key : Name × Guid) :
    ∃ r, currentNvarC s key = some r ∧ ∀ p, r = some p → Live s p := by
  obtain ⟨found, hfound, hlive⟩ := T.findVariable hend key
  have hfind : ∃ r, (nvFindVariableC s key).map (Option.map Prod.fst) = some r
      ∧ ∀ p, r = some p → Live s p := by
    refine ⟨found.map Prod.fst, by rw [hfound]; rfl, fun p hp => ?_⟩
    obtain ⟨x, hx, rfl⟩ := Option.map_eq_some_iff.mp hp
    exact hlive x hx
  unfold currentNvarC
  cases hp : s.pLastReturned with
  | none => exact hfind
  | some p =>
    have hl := hlast p hp
    obtain ⟨r, hr⟩ := T.varEq hend hl key
    simp only [hl.checked hend (T.walk p hl.walked).1, hr, Option.bind_some, if_true, Option.map_some]
    cases r with
    | none => exact hfind
    | some _ =>
      refine ⟨some p, rfl, fun q hq => ?_⟩
      obtain rfl := Option.some.inj hq
      exact hl

theorem Tame.nextVariable
    (hlast : ∀ p, s.pLastReturned = some p → Live s p) (key : Name × Guid) (runtime : Bool) :
    nvGetNextVariableNvarC s key runtime ≠ none := by
  have hfinish : ∀ start : Option Nat, (∀ p, start = some p → Live s p) →
      (if runtime then runtimeLoopC s (s.pEndOfVars + 1) start else some start) ≠ none := by
    intro start hstart
    split
    · exact T.runtimeLoop hend fun p hp => ⟨hstart p hp, by omega⟩
    · simp
  unfold nvGetNextVariableNvarC
  simp only
  split
  · obtain ⟨first, hf, hlive⟩ := T.firstValid hend
    rw [hf, Option.bind_some, Ne, Option.map_eq_none_iff]
    exact hfinish first hlive
  · obtain ⟨current, hc, hlive⟩ := T.currentNvar hend hlast key
    rw [hc, Option.bind_some]
    cases current with
    | none => simp
    | some p =>
      simp only
      split
      · simp
      · obtain ⟨next, hn, hnext⟩ := T.nextValid hend (hlive p rfl)
        rw [hn, Option.bind_some, Ne, Option.map_eq_none_iff]
        exact hfinish next fun q hq => (hnext q hq).1

/-! ## The two directions -/

theorem Tame.dataNvar (l : Live s p) :
    nvGetDataNvarC s p ≠ none :=
  dataNvarLoopC_ne_none hend (fun q => T.chain p q l) Chained.head (by omega)

end

theorem extInside_of_legible (hleg : Legible s p) (hv : nvIsVariable s p = true)
    (hf : hasFlag s.mem p flagExtHeder = true) : ExtInside s p := by
  obtain ⟨hsig, hhead⟩ := nvIsVariable_headerOk hv
  exact (hleg.2 hsig).2 hhead hf

theorem nvGetDataC_eq {q e : Nat} (hq : q + sizeAt s.mem q ≤ s.nvramSize)
    (hmin : sizeofNvar < sizeAt s.mem q) (hd : nvGetDataNvarC s p = some (some q)) :
    nvGetDataC s p e ≠ none ↔ dataOffset s q e + extSizeAt s q ≤ sizeAt s.mem q := by
  unfold sizeofNvar at hmin
  have hsize : access s 2 ((q : Int) + (sizeOffset : Nat)) = some (sizeAt s.mem q) := by
    rw [access_add, if_pos (by unfold sizeOffset; omega)]
    rfl
  have hext : (if hasFlag s.mem q flagExtHeder then
      (access s 2 ((q : Int) + (sizeOffset : Nat))).bind fun size => access s 2 (q + size - 2)
      else some 0) = some (extSizeAt s q) := by
    unfold extSizeAt
    split
    · rw [hsize, Option.bind_some]
      unfold access nvGetExtSize
      rw [if_pos (by omega)]
      congr 2
      omega
    · rfl
  unfold nvGetDataC
  rw [hd, Option.bind_some]
  simp only
  rw [hext, Option.bind_some, hsize, Option.bind_some]
  split
  · rename_i h
    exact iff_of_true (by simp) h
  · rename_i h
    exact iff_of_false (fun hn => hn rfl) h

/-- The read routines keep to the store and find a size for the data exactly on tame
images. -/
theorem readsInside_iff_tame (hend : s.pEndOfVars ≤ s.nvramSize)
    (hlast : ∀ p, s.pLastReturned = some p → Yielded s p) : ReadsInside s ↔ Tame s := by
  constructor
  · intro R
    have hy : ∀ p, Live s p → Yielded s p := fun p l => l.yielded hend R.firstValid R.nextValid
    have hname : ∀ p, Live s p → nameEndC s p ≠ none ∧ guidC s p ≠ none := by
      intro p l
      have hacc : access s 4 ((p : Int) + (nextOffset : Nat)) = some (rd s.mem 4 (p + nextOffset)) := by
        have hp := l.inside hend
        rw [access_add, if_pos (by unfold nextOffset sizeofNvar at *; omega)]
      have hall : ∀ bufferSize, nvGetNameFromNvarC s p bufferSize ≠ none :=
        fun bufferSize => R.name p bufferSize (hy p l)
      unfold nvGetNameFromNvarC at hall
      rw [hacc] at hall
      cases he : nameEndC s p with
      | none =>
        rw [he] at hall
        exact absurd rfl (hall 0)
      | some e =>
        refine ⟨by simp, fun hg => hall (2 * e) ?_⟩
        -- a buffer that is large enough
        rw [he, hg, Option.bind_some, Option.bind_some]
        simp only
        rw [if_neg (by split <;> omega)]
        rfl
    refine ⟨fun p hw => hw.legible hend R.firstValid R.nextValid, fun p q l hc => ?_,
      fun p l => nameEndC_ne_none.mp (hname p l).1,
      fun p l => (guidC_ne_none (l.inside hend)).mp (hname p l).2, fun p e q l he hd => ?_⟩
    · exact hc.legible hend (R.dataNvar p (hy p l))
    · obtain ⟨-, -, hmin, hmax⟩ := nvIsVariableC_true hend (nvGetDataNvarC_some hend hd).2
      exact (nvGetDataC_eq (by omega) hmin hd).mp (R.data p e (hy p l) he)
  · intro T
    have hl : ∀ p, Yielded s p → Live s p := fun p => T.live hend
    constructor
    case firstValid =>
      obtain ⟨r, hr, -⟩ := T.firstValid hend
      simp [hr]
    case nextValid =>
      intro p hy
      obtain ⟨r, hr, -⟩ := T.nextValid hend (hl p hy)
      simp [hr]
    case nextVariable => exact T.nextVariable hend fun p hp => hl p (hlast p hp)
    case dataNvar => exact fun p hy => T.dataNvar hend (hl p hy)
    case ext =>
      intro p q hy hq
      have hv : nvIsVariableC s q = some true := by
        obtain rfl | hd := hq
        · exact (hl q hy).checked hend (T.walk q (hl q hy).walked).1
        · exact (nvGetDataNvarC_some hend hd).2
      obtain ⟨-, -, hmin, hmax⟩ := nvIsVariableC_true hend hv
      obtain ⟨hleg, hvar⟩ := nvIsVariableC_some hend hv
      have hin := extInside_of_legible hleg hvar
      refine ⟨?_, fun hf => ?_⟩
      · rw [nvCalculateNvarChecksumC_eq (by omega) hmin hin]
        simp
      · rw [(extFlagsByteC_eq (by omega) hmin).1 (hin hf)]
        simp
    case name =>
      intro p bufferSize hy
      have l := hl p hy
      have hp := l.inside hend
      obtain ⟨e, he⟩ := Option.ne_none_iff_exists'.mp (nameEndC_ne_none.mpr (T.name p l))
      obtain ⟨g, hg⟩ := Option.ne_none_iff_exists'.mp ((guidC_ne_none hp).mpr (T.guid p l))
      unfold nvGetNameFromNvarC
      rw [access_add, if_pos (by unfold nextOffset sizeofNvar at *; omega), Option.bind_some, he,
        Option.bind_some, hg]
      simp only
      generalize (if hasFlag s.mem p flagAsciiName then 2 * (e - nvGetName s.mem p)
        else e - nvGetName s.mem p) = nameSize
      by_cases hbuf : bufferSize < nameSize
      · rw [if_pos hbuf]
        simp
      · rw [if_neg hbuf]
        simp
    case data =>
      intro p e hy he
      have l := hl p hy
      obtain ⟨r, hr⟩ := Option.ne_none_iff_exists'.mp (T.dataNvar hend l)
      cases r with
      | none =>
        unfold nvGetDataC
        rw [hr]
        simp
      | some q =>
        obtain ⟨-, -, hmin, hmax⟩ := nvIsVariableC_true hend (nvGetDataNvarC_some hend hr).2
        exact (nvGetDataC_eq (by omega) hmin hr).mpr (T.data p e q l he hr)

end

/-! ## What the driver makes of an image -/

/-- The two assumptions hold of what `NvInitInfoBuffer` makes of any image. -/
theorem nvInitInfoBuffer_end {mem : Mem} {size headerSize : Nat} {flags : StoreFlags}
    (h : headerSize ≤ size) :
    (nvInitInfoBuffer mem size headerSize flags).pEndOfVars
        ≤ (nvInitInfoBuffer mem size headerSize flags).nvramSize
      ∧ (nvInitInfoBuffer mem size headerSize flags).pLastReturned = none := by
  unfold nvInitInfoBuffer
  simp only
  split
  · exact ⟨h, rfl⟩
  · split
    · exact ⟨le_rfl, rfl⟩
    · exact ⟨h, rfl⟩

/-! ## A record with an extended header -/

/-- An image of 64 bytes with one record: header, GUID index 0, the name `A`, and an extended header of two
bytes whose `extsize` is given. -/
def extended (extSize : Nat) : StoreInfo :=
  let record := leBytes 4 nvarSignature ++ leBytes 2 15 ++ leBytes 3 flashEmptyNext
    ++ [flagValid ||| flagAsciiName ||| flagExtHeder, 0, 0x41, 0] ++ leBytes 2 extSize
  nvInitInfoBuffer (fun a => (record[a]?).getD flashEmptyByte) 64 0 ⟨true, false, false⟩

theorem tame_extended : Tame (extended 2) := by
  have hwalk : ∀ p, Walked (extended 2) p → p = 0 ∨ p = 15 := by
    intro p hw
    induction hw with
    | first => exact Or.inl (by decide +kernel)
    | next _ _ hsize _ ih =>
      rcases ih with rfl | rfl
      · exact Or.inr (by decide +kernel)
      · exact absurd hsize (by decide +kernel)
  have hlive : ∀ p, Live (extended 2) p → p = 0 := fun p l =>
    (hwalk p l.walked).resolve_right fun h => absurd l.variable_ (by rw [h]; decide +kernel)
  have hchain : ∀ q, Chained (extended 2) 0 q → q = 0 := by
    intro q hc
    induction hc with
    | head => rfl
    | next _ _ hnext ih =>
      rw [ih] at hnext
      exact absurd hnext (by decide +kernel)
  have hlegible : Legible (extended 2) 0 ∧ Legible (extended 2) 15 := by
    unfold Legible ExtInside
    decide +kernel
  constructor
  · intro p hw
    rcases hwalk p hw with rfl | rfl
    · exact ⟨hlegible.1, by decide +kernel⟩
    · exact ⟨hlegible.2, by decide +kernel⟩
  · intro p q l hc
    rw [hlive p l] at hc
    rw [hchain q hc]
    exact hlegible.1
  · intro p l
    rw [hlive p l]
    exact ⟨1, by decide +kernel, by decide +kernel⟩
  · intro p l
    rw [hlive p l]
    unfold GuidInside
    decide +kernel
  · intro p e q l
    have hdata : nvGetDataNvarC (extended 2) 0 = some (some 0) := by decide +kernel
    have hname : nameEndC (extended 2) 0 = some 13 := by decide +kernel
    rw [hlive p l, hdata, hname]
    rintro ⟨⟩ ⟨⟩
    decide +kernel

theorem readsInside_extended : ReadsInside (extended 2) :=
  (readsInside_iff_tame (s := extended 2) (by decide +kernel)
    (fun p h => absurd h.symm (Option.some_ne_none p))).mpr tame_extended

theorem extended_facts : nvGetFirstValidC (extended 5) = some (some 0) ∧ nameEndC (extended 5) 0 = some 13
    ∧ nvGetDataC (extended 5) 0 (13 - nvGetName (extended 5).mem 0) = none
    ∧ nvGetData (extended 5) 0 2 = some (13, 2 ^ 64 - 3) := by
  decide +kernel

/-- The extended header says five bytes: `NvIsVariable` accepts the record, and its data are 2 to the 64th less
three bytes. -/
theorem not_readsInside : ¬ ∀ (mem : Mem) (size headerSize : Nat), headerSize ≤ size →
    ReadsInside (nvInitInfoBuffer mem size headerSize ⟨true, false, false⟩) := by
  intro H
  obtain ⟨hfirst, hname, hdata, -⟩ := extended_facts
  exact (H _ 64 0 (by decide)).data 0 13 (Yielded.first hfirst) hname hdata

end BayTrail.Nvram
