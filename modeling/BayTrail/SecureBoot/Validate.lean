import BayTrail.SecureBoot.SignatureDatabase

/-!
# ValidateSignatureList

The check of a signature database that is written, over the memory in which it stands, and
when its verdict is that of the format. The loop follows `SignatureListSize` from list to
list; it never looks at `SignatureSize`, and a tail that is no list ends it.
-/

namespace BayTrail.SecureBoot.Validate

open BayTrail.Lib

/-! ## Structures -/

def gEfiCertRsa2048Guid : Bytes := [0xe8, 0x66, 0x57, 0x3c, 0x9c, 0x26, 0x34, 0x4e,
  0xaa, 0x14, 0xed, 0x77, 0x6e, 0x85, 0xb3, 0xb6]
def gEfiCertRsa2048Sha256Guid : Bytes := [0x90, 0x61, 0xb3, 0xe2, 0x9b, 0x87, 0x3d, 0x4a,
  0xad, 0x8d, 0xf2, 0xe7, 0xbb, 0xa3, 0x27, 0x84]
def gEfiCertRsa2048Sha1Guid : Bytes := [0x4f, 0x44, 0xf8, 0x67, 0x43, 0x87, 0xf1, 0x48,
  0xa3, 0x28, 0x1e, 0xaa, 0xb8, 0x73, 0x60, 0x80]

def mSignatureSupport : List Bytes := [gEfiCertX509Sha256Guid, gEfiCertX509Sha384Guid,
  gEfiCertX509Sha512Guid, gEfiCertSha256Guid, gEfiCertX509Guid, gEfiCertRsa2048Guid,
  gEfiCertRsa2048Sha256Guid, gEfiCertRsa2048Sha1Guid]

def nvramSize : Nat := 0x20000

inductive Status where
  | success | securityViolation
  deriving DecidableEq, Repr

section

variable (m : Mem) (p : Nat)

def signatureType : Bytes := peek m p sizeofGuid
def signatureListSize : Nat := rd m 4 (p + 16)
def signatureHeaderSize : Nat := rd m 4 (p + 20)
def signatureSize : Nat := rd m 4 (p + 24)

end

/-! ## ValidateSignatureList -/

/-- The loop: `SigList` with the bytes that are left, and the status so far. -/
def validateLoop (m : Mem) (sigList dataSize : Nat) (status : Status) : Status :=
  if 0 < dataSize ∧ signatureListSize m sigList ≤ dataSize then
    if signatureType m sigList ∉ mSignatureSupport then .securityViolation
    else if signatureListSize m sigList < 0x4c ∨ nvramSize < signatureListSize m sigList then
      .securityViolation
    else if signatureHeaderSize m sigList ≠ 0 then .securityViolation
    else validateLoop m (sigList + signatureListSize m sigList)
      (dataSize - signatureListSize m sigList) .success
  else status
termination_by dataSize

def validateSignatureList (m : Mem) (data dataSize : Nat) : Status :=
  if data = 0 ∨ dataSize = 0 then .securityViolation
  else validateLoop m data dataSize .securityViolation

/-! ## The format -/

/-- What `SignatureSize` is for a type, where the type fixes it: the owner and a hash, a key,
or the hash of a certificate with a time. -/
def signatureSizes : List (Bytes × Nat) :=
  [(gEfiCertSha256Guid, sizeofGuid + 32), (gEfiCertRsa2048Guid, sizeofGuid + 256),
    (gEfiCertRsa2048Sha256Guid, sizeofGuid + 256), (gEfiCertRsa2048Sha1Guid, sizeofGuid + 256),
    (gEfiCertX509Sha256Guid, sizeofGuid + 32 + sizeofEfiTime),
    (gEfiCertX509Sha384Guid, sizeofGuid + 48 + sizeofEfiTime),
    (gEfiCertX509Sha512Guid, sizeofGuid + 64 + sizeofEfiTime)]

/-- The size that the type requires. -/
def RightSize (type : Bytes) (size : Nat) : Prop :=
  sizeofGuid < size ∧ ∀ s ∈ signatureSizes, type = s.1 → size = s.2

/-- A list of a supported type. The types that are supported have no header. -/
structure Supported (l : SignatureList) : Prop where
  type : l.type ∈ mSignatureSupport
  header : l.header = []
  size : RightSize l.type l.signatureSize
  fits : l.signatureSize < 2 ^ 32

/-- A concatenation of lists of supported types. -/
def WellFormed (bs : Bytes) : Prop :=
  ∃ lists : List SignatureList, (∀ l ∈ lists, Supported l) ∧ bs = lists.flatMap SignatureList.bytes

/-! ## The lists of a byte string -/

/-- The lists that `SignatureListSize` leads to, and the bytes left behind the last one. -/
def listsFrom (m : Mem) (p n : Nat) : List Nat × Nat :=
  if sizeofSignatureList ≤ signatureListSize m p ∧ signatureListSize m p ≤ n then
    let rest := listsFrom m (p + signatureListSize m p) (n - signatureListSize m p)
    (p :: rest.1, rest.2)
  else ([], n)
termination_by n
decreasing_by unfold sizeofSignatureList at *; omega

section

variable (m : Mem) (q : Nat)

/-- A type that is supported, without a header. -/
def Known : Prop := signatureType m q ∈ mSignatureSupport ∧ signatureHeaderSize m q = 0

/-- The bounds on a list. -/
def InBounds : Prop := 0x4c ≤ signatureListSize m q ∧ signatureListSize m q ≤ nvramSize

/-- The signatures have the size of the type, and fill the list. -/
def Filled : Prop := RightSize (signatureType m q) (signatureSize m q) ∧
  signatureSize m q ∣ signatureListSize m q - sizeofSignatureList

instance : Decidable (Known m q) := inferInstanceAs (Decidable (_ ∧ _))
instance : Decidable (InBounds m q) := inferInstanceAs (Decidable (_ ∧ _))
instance (type : Bytes) (size : Nat) : Decidable (RightSize type size) :=
  inferInstanceAs (Decidable (_ ∧ _))
instance : Decidable (Filled m q) := inferInstanceAs (Decidable (_ ∧ _))

end

/-- The strings on which verdict and format differ: the empty one; a well-formed one with a
list out of bounds; and one whose lists have good headers, but not the signatures of their
type, or behind which stands a tail that is too short for the list it would begin. -/
def Misjudged (m : Mem) (p n : Nat) : Prop :=
  let lists := (listsFrom m p n).1
  let left := (listsFrom m p n).2
  n = 0 ∨
  (left = 0 ∧ (∀ q ∈ lists, Known m q ∧ Filled m q) ∧ ∃ q ∈ lists, ¬ InBounds m q) ∨
  (lists ≠ [] ∧ (∀ q ∈ lists, Known m q ∧ InBounds m q) ∧
    (left = 0 ∧ (∃ q ∈ lists, ¬ Filled m q) ∨
      left ≠ 0 ∧ left < signatureListSize m (p + (n - left))))

/-! ## What the loop accepts -/

section

variable {m : Mem} {p n : Nat}

theorem listsFrom_list (h1 : sizeofSignatureList ≤ signatureListSize m p)
    (h2 : signatureListSize m p ≤ n) :
    listsFrom m p n = (p :: (listsFrom m (p + signatureListSize m p) (n - signatureListSize m p)).1,
      (listsFrom m (p + signatureListSize m p) (n - signatureListSize m p)).2) := by
  rw [listsFrom, if_pos ⟨h1, h2⟩]

theorem listsFrom_stop (h : ¬ (sizeofSignatureList ≤ signatureListSize m p ∧ signatureListSize m p ≤ n)) :
    listsFrom m p n = ([], n) := by
  rw [listsFrom, if_neg h]

/-- The lists and what is left make up the string. -/
theorem listsFrom_left_le (m : Mem) (p n : Nat) : (listsFrom m p n).2 ≤ n := by
  induction n using Nat.strong_induction_on generalizing p with
  | _ n ih =>
    by_cases h : sizeofSignatureList ≤ signatureListSize m p ∧ signatureListSize m p ≤ n
    · rw [listsFrom_list h.1 h.2]
      have hlt : n - signatureListSize m p < n := by
        have := h.1
        unfold sizeofSignatureList at this
        omega
      exact le_trans (ih _ hlt _) (Nat.sub_le _ _)
    · rw [listsFrom_stop h]

/-- The loop goes through all the lists, and ends where no further one begins. -/
theorem validateLoop_success (m : Mem) (p n : Nat) (status : Status) :
    validateLoop m p n status = .success ↔
      (∀ q ∈ (listsFrom m p n).1, Known m q ∧ InBounds m q) ∧
      ((listsFrom m p n).2 = 0 ∨
        (listsFrom m p n).2 < signatureListSize m (p + (n - (listsFrom m p n).2))) ∧
      ((listsFrom m p n).1 = [] → status = .success) := by
  induction n using Nat.strong_induction_on generalizing p status with
  | _ n ih =>
    rw [validateLoop]
    by_cases hfits : sizeofSignatureList ≤ signatureListSize m p ∧ signatureListSize m p ≤ n
    · have h28 : 28 ≤ signatureListSize m p := hfits.1
      have hle := hfits.2
      rw [if_pos ⟨by omega, hle⟩, listsFrom_list hfits.1 hle]
      simp only [List.forall_mem_cons, List.cons_ne_nil, false_implies, and_true]
      have hend : p + signatureListSize m p + (n - signatureListSize m p
          - (listsFrom m (p + signatureListSize m p) (n - signatureListSize m p)).2)
          = p + (n - (listsFrom m (p + signatureListSize m p) (n - signatureListSize m p)).2) := by
        have := listsFrom_left_le m (p + signatureListSize m p) (n - signatureListSize m p)
        omega
      -- the tests on this list, in the order of the source
      by_cases htype : signatureType m p ∈ mSignatureSupport
      · rw [if_neg (by simpa using htype)]
        by_cases hsize : signatureListSize m p < 0x4c ∨ nvramSize < signatureListSize m p
        · rw [if_pos hsize]
          have : ¬ InBounds m p := fun hb => by
            obtain ⟨hb1, hb2⟩ := hb
            omega
          simp [this]
        · rw [if_neg hsize]
          have hbounds : InBounds m p := ⟨by omega, by omega⟩
          by_cases hhdr : signatureHeaderSize m p = 0
          · rw [if_neg (by simpa using hhdr), ih _ (by omega), hend]
            have hknown : Known m p := ⟨htype, hhdr⟩
            simp [hknown, hbounds]
          · rw [if_pos hhdr]
            simp [Known, hhdr]
      · rw [if_pos htype]
        simp [Known, htype]
    · rw [listsFrom_stop hfits]
      simp only [List.not_mem_nil, false_implies, implies_true, true_and, forall_const, Nat.sub_self,
        Nat.add_zero]
      by_cases hgo : 0 < n ∧ signatureListSize m p ≤ n
      · -- a size that is smaller than a list: it is out of bounds
        have hsmall : signatureListSize m p < 28 := by
          unfold sizeofSignatureList at hfits
          omega
        rw [if_pos hgo, if_pos (Or.inl (show signatureListSize m p < 0x4c by omega)), ite_self]
        have : ¬ (n = 0 ∨ n < signatureListSize m p) := by omega
        simp [this]
      · rw [if_neg hgo]
        have : n = 0 ∨ n < signatureListSize m p := by omega
        simp [this]

theorem validateSignatureList_success {data : Nat} (hdata : data ≠ 0) :
    validateSignatureList m data n = .success ↔
      (listsFrom m data n).1 ≠ [] ∧ (∀ q ∈ (listsFrom m data n).1, Known m q ∧ InBounds m q) ∧
      ((listsFrom m data n).2 = 0 ∨
        (listsFrom m data n).2 < signatureListSize m (data + (n - (listsFrom m data n).2))) := by
  unfold validateSignatureList
  by_cases hn : n = 0
  · subst hn
    rw [if_pos (Or.inr rfl), listsFrom_stop (by unfold sizeofSignatureList; omega)]
    simp
  · rw [if_neg (by simp [hdata, hn]), validateLoop_success]
    constructor
    · rintro ⟨hall, hend, hne⟩
      exact ⟨fun h => Status.noConfusion (hne h), hall, hend⟩
    · rintro ⟨hne, hall, hend⟩
      exact ⟨hall, hend, fun h => absurd h hne⟩

end

/-! ## What the format accepts -/

section

variable {m : Mem} {p n : Nat}
variable {l : SignatureList} {size : Nat}

/-- The fields of a list that stands in memory. -/
theorem holds_list (hl : Supported l) (h : Holds m p l.bytes) :
    signatureType m p = l.type ∧ signatureListSize m p = l.listSize ∧
      signatureHeaderSize m p = 0 ∧ signatureSize m p = l.signatureSize := by
  unfold SignatureList.bytes at h
  rw [hl.header] at h
  simp only [holds_append, List.length_append, leBytes_length, l.type_length] at h
  obtain ⟨⟨⟨⟨⟨htype, hlist⟩, hheader⟩, hsize⟩, -⟩, -⟩ := h
  exact ⟨htype.peek_eq l.type_length.symm, hlist.rd_eq_of_lt l.total,
    hheader.rd_eq_of_lt (by simp), hsize.rd_eq_of_lt hl.fits⟩

theorem signatures_length : ∀ {signatures : List SignatureData},
    (∀ s ∈ signatures, s.bytes.length = size) →
    (signatures.flatMap SignatureData.bytes).length = size * signatures.length
  | [], _ => by simp
  | s :: rest, h => by
    rw [List.flatMap_cons, List.length_append, h s (by simp),
      signatures_length fun s hs => h s (List.mem_cons_of_mem _ hs), List.length_cons, Nat.mul_succ,
      Nat.add_comm]

theorem list_bytes_length (l : SignatureList) : l.bytes.length = l.listSize := by
  unfold SignatureList.bytes SignatureList.listSize
  rw [List.length_append, signatures_length fun s hs => (l.sized s hs).2]
  simp only [List.length_append, leBytes_length, l.type_length]
  unfold sizeofGuid sizeofSignatureList
  omega

theorem holds_filled (hl : Supported l) (h : Holds m p l.bytes) :
    Known m p ∧ Filled m p := by
  obtain ⟨htype, hlist, hheader, hsize⟩ := holds_list hl h
  refine ⟨⟨htype ▸ hl.type, hheader⟩, ?_⟩
  unfold Filled
  rw [htype, hsize, hlist]
  refine ⟨hl.size, ?_⟩
  unfold SignatureList.listSize
  rw [hl.header]
  simp

/-- Encoded lists are read back: the walk finds each of them, and nothing else. -/
theorem listsFrom_encoded : ∀ {lists : List SignatureList} {p n : Nat},
    (∀ l ∈ lists, Supported l) → Holds m p (lists.flatMap SignatureList.bytes) →
    n = (lists.flatMap SignatureList.bytes).length →
    (listsFrom m p n).2 = 0 ∧ ∀ q ∈ (listsFrom m p n).1, Known m q ∧ Filled m q
  | [], p, n, _, _, hn => by
    rw [listsFrom_stop (by unfold sizeofSignatureList; simp at hn; omega)]
    exact ⟨hn, by simp⟩
  | l :: rest, p, n, hall, h, hn => by
    have hl := hall l (by simp)
    rw [List.flatMap_cons, holds_append, list_bytes_length] at h
    rw [List.flatMap_cons, List.length_append, list_bytes_length] at hn
    obtain ⟨hhead, htail⟩ := h
    have hsize := (holds_list hl hhead).2.1
    have h28 : sizeofSignatureList ≤ l.listSize := by
      unfold SignatureList.listSize
      omega
    rw [← hsize] at hn htail h28
    obtain ⟨hleft, hrest⟩ := listsFrom_encoded (fun l' hl' => hall l' (List.mem_cons_of_mem _ hl')) htail
      (show n - signatureListSize m p = _ by omega)
    rw [listsFrom_list h28 (by omega)]
    refine ⟨hleft, fun q hq => ?_⟩
    rcases List.mem_cons.mp hq with rfl | hq
    · exact holds_filled hl hhead
    · exact hrest q hq

/-- The `k` signatures of the size `size` from `p` on. -/
def signaturesAt (m : Mem) (p size k : Nat) : List SignatureData :=
  (List.range k).map fun i =>
    ⟨peek m (p + size * i) sizeofGuid, peek m (p + size * i + sizeofGuid) (size - sizeofGuid)⟩

theorem signaturesAt_bytes (hsize : sizeofGuid < size) (k : Nat) :
    (signaturesAt m p size k).flatMap SignatureData.bytes = peek m p (size * k) := by
  induction k with
  | zero => rfl
  | succ k ih =>
    have hone : peek m (p + size * k) sizeofGuid ++ peek m (p + size * k + sizeofGuid) (size - sizeofGuid)
        = peek m (p + size * k) size := by
      rw [← peek_add, Nat.add_sub_cancel' hsize.le]
    unfold signaturesAt at ih ⊢
    rw [List.range_succ, List.map_append, List.flatMap_append, ih, Nat.mul_succ, peek_add]
    simp [SignatureData.bytes, hone]

theorem signaturesAt_sized {k : Nat} (hsize : sizeofGuid < size) :
    ∀ s ∈ signaturesAt m p size k, s.owner.length = sizeofGuid ∧ s.bytes.length = size := by
  intro s hs
  obtain ⟨i, -, rfl⟩ := List.mem_map.mp hs
  refine ⟨peek_length _ _ _, ?_⟩
  simp only [SignatureData.bytes, List.length_append, peek_length]
  omega

/-- The bytes of a list are those from which its fields were read. -/
theorem list_bytes_eq (htype : l.type = signatureType m p) (hheader : l.header = [])
    (hzero : signatureHeaderSize m p = 0) (hsize : l.signatureSize = signatureSize m p)
    (hlist : l.listSize = signatureListSize m p) (hsigs : l.signatures.flatMap SignatureData.bytes
      = peek m (p + sizeofSignatureList) (signatureListSize m p - sizeofSignatureList)) :
    l.bytes = peek m p (signatureListSize m p) := by
  have h28 : sizeofSignatureList ≤ signatureListSize m p := by
    rw [← hlist]
    unfold SignatureList.listSize
    omega
  have hnone : leBytes 4 ([] : Bytes).length = peek m (p + 20) 4 := by
    rw [← leBytes_rd]
    exact congrArg (leBytes 4) hzero.symm
  unfold SignatureList.bytes
  rw [htype, hheader, hsize, hlist, hsigs, hnone, List.append_nil]
  obtain ⟨k, hk⟩ := Nat.exists_eq_add_of_le h28
  unfold signatureListSize signatureSize signatureType at *
  rw [leBytes_rd, leBytes_rd, hk, Nat.add_sub_cancel_left]
  unfold sizeofSignatureList sizeofGuid
  have hhead : peek m p 28 = peek m p 16 ++ peek m (p + 16) 4 ++ peek m (p + 20) 4 ++ peek m (p + 24) 4 := by
    show peek m p (16 + 4 + 4 + 4) = _
    rw [peek_add, peek_add, peek_add]
  rw [peek_add, hhead]

/-- A header that passes, with the right sizes behind it, is a list. -/
theorem exists_list (hknown : Known m p) (hfilled : Filled m p)
    (h28 : sizeofSignatureList ≤ signatureListSize m p) :
    ∃ l : SignatureList, Supported l ∧ l.bytes = peek m p (signatureListSize m p) := by
  obtain ⟨htype, hheader⟩ := hknown
  obtain ⟨⟨hsize, htable⟩, k, hk⟩ := hfilled
  have hlen : (signaturesAt m (p + 28) (signatureSize m p) k).length = k := by simp [signaturesAt]
  have htotal : sizeofSignatureList + ([] : Bytes).length + signatureSize m p
      * (signaturesAt m (p + 28) (signatureSize m p) k).length = signatureListSize m p := by
    rw [hlen, List.length_nil]
    omega
  have hdigest : ∀ alg : HashAlg, signatureType m p = alg.certType →
      signatureSize m p = sizeofGuid + alg.digestSize := by
    intro alg halg
    cases alg with
    | sha1 =>
      -- SHA-1 digests are not supported
      rw [halg] at htype
      exact absurd htype (by decide)
    | sha256 => exact htable (gEfiCertSha256Guid, 48) (by decide) halg
  have hhash : ∀ t ∈ certHashTypes, signatureType m p = t.1 →
      signatureSize m p = sizeofGuid + t.2 + sizeofEfiTime := by
    intro t ht heq
    have hmem : ∀ t ∈ certHashTypes, (t.1, sizeofGuid + t.2 + sizeofEfiTime) ∈ signatureSizes := by decide
    exact htable _ (hmem t ht) heq
  have hlt : signatureListSize m p < 2 ^ 32 := rd_lt m 4 _
  refine ⟨⟨signatureType m p, [], signatureSize m p, signaturesAt m (p + 28) (signatureSize m p) k,
    peek_length _ _ _, hsize, hdigest, hhash, signaturesAt_sized hsize, htotal.trans_lt hlt⟩,
    ⟨htype, rfl, ⟨hsize, htable⟩, rd_lt m 4 _⟩, ?_⟩
  refine list_bytes_eq rfl rfl hheader rfl htotal ?_
  rw [hk]
  exact signaturesAt_bytes hsize k

/-- A byte string is well formed when the walk leaves nothing and finds nothing wrong. -/
theorem wellFormed_iff (m : Mem) (p n : Nat) : WellFormed (peek m p n) ↔
    (listsFrom m p n).2 = 0 ∧ ∀ q ∈ (listsFrom m p n).1, Known m q ∧ Filled m q := by
  constructor
  · rintro ⟨lists, hall, hbytes⟩
    refine listsFrom_encoded hall (hbytes ▸ holds_peek m p n) ?_
    rw [← hbytes, peek_length]
  · intro h
    induction n using Nat.strong_induction_on generalizing p with
    | _ n ih =>
      by_cases hfits : sizeofSignatureList ≤ signatureListSize m p ∧ signatureListSize m p ≤ n
      · rw [listsFrom_list hfits.1 hfits.2] at h
        obtain ⟨hleft, hall⟩ := h
        obtain ⟨⟨hknown, hfilled⟩, hrest⟩ := List.forall_mem_cons.mp hall
        obtain ⟨l, hl, hbytes⟩ := exists_list hknown hfilled hfits.1
        have hlt : n - signatureListSize m p < n := by
          have := hfits.1
          unfold sizeofSignatureList at this
          omega
        obtain ⟨lists, hlists, htail⟩ := ih _ hlt _ ⟨hleft, hrest⟩
        refine ⟨l :: lists, List.forall_mem_cons.mpr ⟨hl, hlists⟩, ?_⟩
        rw [List.flatMap_cons, hbytes, ← htail, ← peek_add, Nat.add_sub_cancel' hfits.2]
      · rw [listsFrom_stop hfits] at h
        obtain rfl : n = 0 := h.1
        exact ⟨[], by simp, rfl⟩

end

/-! ## The verdict -/

/-- The verdict is that of the format, on every string that is not among these. -/
theorem accepts_wellFormed_iff (m : Mem) {data : Nat} (hdata : data ≠ 0) (n : Nat) :
    (validateSignatureList m data n = .success ↔ WellFormed (peek m data n)) ↔ ¬ Misjudged m data n := by
  rw [validateSignatureList_success hdata, wellFormed_iff]
  unfold Misjudged
  have hempty : n = 0 → (listsFrom m data n).1 = [] ∧ (listsFrom m data n).2 = 0 := by
    rintro rfl
    rw [listsFrom_stop (by unfold sizeofSignatureList; omega)]
    exact ⟨rfl, rfl⟩
  have hnil : (listsFrom m data n).1 = [] → (listsFrom m data n).2 = n := by
    intro h
    by_cases hfits : sizeofSignatureList ≤ signatureListSize m data ∧ signatureListSize m data ≤ n
    · rw [listsFrom_list hfits.1 hfits.2] at h
      exact absurd h (List.cons_ne_nil _ _)
    · rw [listsFrom_stop hfits]
  generalize (listsFrom m data n).1 = lists at hempty hnil ⊢
  generalize (listsFrom m data n).2 = left at hempty hnil ⊢
  constructor
  · rintro ⟨hacc, hwf⟩ (rfl | ⟨hleft, hall, q, hq, hout⟩ | ⟨hne, hall, hbad⟩)
    · -- the empty string
      obtain ⟨rfl, rfl⟩ := hempty rfl
      exact (hwf ⟨rfl, by simp⟩).1 rfl
    · exact hout ((hwf ⟨hleft, hall⟩).2.1 q hq).2
    · have hend : left = 0 ∨ left < signatureListSize m (data + (n - left)) :=
        hbad.imp And.left And.right
      obtain ⟨hleft, hfilled⟩ := hacc ⟨hne, hall, hend⟩
      rcases hbad with ⟨-, q, hq, hnot⟩ | ⟨hpos, -⟩
      · exact hnot (hfilled q hq).2
      · exact hpos hleft
  · intro hnot
    constructor
    · rintro ⟨hne, hall, hend⟩
      have hright : left = 0 ∧ ∀ q ∈ lists, Filled m q := by
        by_contra hbad
        refine hnot (Or.inr (Or.inr ⟨hne, hall, ?_⟩))
        by_cases hleft : left = 0
        · have : ∃ q ∈ lists, ¬ Filled m q := by
            by_contra hno
            push Not at hno
            exact hbad ⟨hleft, hno⟩
          exact Or.inl ⟨hleft, this⟩
        · exact Or.inr ⟨hleft, hend.resolve_left hleft⟩
      exact ⟨hright.1, fun q hq => ⟨(hall q hq).1, hright.2 q hq⟩⟩
    · rintro ⟨hleft, hall⟩
      have hn : n ≠ 0 := fun h => hnot (Or.inl h)
      refine ⟨fun h => hn (hnil h ▸ hleft), fun q hq => ⟨(hall q hq).1, ?_⟩, Or.inl hleft⟩
      by_contra hout
      exact hnot (Or.inr (Or.inl ⟨hleft, hall, q, hq, hout⟩))

/-- A list of 76 bytes that claims to hold SHA-256 digests, with this `SignatureSize`. -/
def digestList (size : Nat) : Bytes :=
  gEfiCertSha256Guid ++ leBytes 4 76 ++ leBytes 4 0 ++ leBytes 4 size ++ List.replicate 48 0

def digestListAt (size : Nat) : Mem := poke (fun _ => 0) 0x1000 (digestList size)

theorem accepts_wellFormed_digest : (validateSignatureList (digestListAt 48) 0x1000 76 = .success ↔
    WellFormed (peek (digestListAt 48) 0x1000 76)) ↔ ¬ Misjudged (digestListAt 48) 0x1000 76 :=
  accepts_wellFormed_iff _ (by decide) _

/-- The walk over the one list. -/
theorem listsFrom_digestList {size : Nat} (hsize : signatureListSize (digestListAt size) 0x1000 = 76) :
    listsFrom (digestListAt size) 0x1000 76 = ([0x1000], 0) := by
  rw [listsFrom_list (by rw [hsize]; decide) (by rw [hsize]), hsize,
    listsFrom_stop (by unfold sizeofSignatureList; omega)]

/-- Signatures of no size are accepted. -/
theorem not_accepts_wellFormed : ¬ ∀ (m : Mem) (data n : Nat), data ≠ 0 →
    (validateSignatureList m data n = .success ↔ WellFormed (peek m data n)) := by
  intro h
  have hlists := listsFrom_digestList (show signatureListSize (digestListAt 0) 0x1000 = 76 by decide +kernel)
  have hiff := h (digestListAt 0) 0x1000 76 (by decide)
  rw [validateSignatureList_success (by decide), wellFormed_iff, hlists] at hiff
  have hpass : Known (digestListAt 0) 0x1000 ∧ InBounds (digestListAt 0) 0x1000 := by decide +kernel
  have hnot : ¬ Filled (digestListAt 0) 0x1000 := by decide +kernel
  exact hnot ((hiff.mp ⟨by simp, by simpa using hpass, Or.inl rfl⟩).2 0x1000 (by simp)).2

end BayTrail.SecureBoot.Validate
