import BayTrail.SecureBoot.LookupWalk
import BayTrail.SecureBoot.Validate
import BayTrail.SecureBoot.Verification

/-!
# The lists of a well-formed database

What stands where in the bytes of signature lists, and what a walk over them comes to: it stops at the first
signature that is accepted, of those that stand in lists it takes for some type.
-/

namespace BayTrail.SecureBoot.Lookup

open BayTrail.Lib
open BayTrail.SecureBoot.Validate (list_bytes_length)

/-- The bytes of some lists. -/
def content (lists : List SignatureList) : Bytes := lists.flatMap SignatureList.bytes

/-- The variable holds these lists and nothing else. -/
def Encodes (data : Bytes) (lists : List SignatureList) : Prop :=
  (∀ l ∈ lists, l.signatureSize < 2 ^ 32) ∧ data = content lists

section

variable {l : SignatureList} {rest : Bytes}

theorem content_cons (l : SignatureList) (lists : List SignatureList) : content (l :: lists) = l.bytes ++ content lists := rfl

theorem listSize_lt (l : SignatureList) : l.listSize < 2 ^ 32 := l.total

variable {n : Nat} {s : SignatureData}

/-- A field of four bytes behind so many others. -/
theorem field_eq {front : Bytes} (behind : Bytes) {v : Nat} (hfront : front.length = n) (hv : v < 2 ^ 32) :
    leVal (((front ++ (leBytes 4 v ++ behind)).drop n).take 4) = v := by
  rw [List.drop_left' hfront, List.take_left' (leBytes_length 4 v), leVal_leBytes]
  exact Nat.mod_eq_of_lt hv

theorem signatureType_bytes (l : SignatureList) (rest : Bytes) : signatureType (l.bytes ++ rest) = l.type := by
  unfold signatureType SignatureList.bytes
  simp only [List.append_assoc]
  exact List.take_left' l.type_length

theorem signatureListSize_bytes (l : SignatureList) (rest : Bytes) : signatureListSize (l.bytes ++ rest) = l.listSize := by
  unfold signatureListSize SignatureList.bytes
  simp only [List.append_assoc]
  exact field_eq _ l.type_length (listSize_lt l)

theorem header_lt (l : SignatureList) : l.header.length < 2 ^ 32 := by
  have htotal := l.total
  omega

theorem signatureHeaderSize_bytes (l : SignatureList) (rest : Bytes) :
    signatureHeaderSize (l.bytes ++ rest) = l.header.length := by
  have htype : l.type.length = 16 := l.type_length
  have hfront : (l.type ++ leBytes 4 l.listSize).length = 20 := by
    rw [List.length_append, leBytes_length, htype]
  have hfield := field_eq (leBytes 4 l.signatureSize ++ (l.header ++ (l.signatures.flatMap SignatureData.bytes ++ rest))) hfront (header_lt l)
  unfold signatureHeaderSize SignatureList.bytes
  simp only [List.append_assoc] at hfield ⊢
  exact hfield

theorem signatureSize_bytes (rest : Bytes) (hsize : l.signatureSize < 2 ^ 32) :
    signatureSize (l.bytes ++ rest) = l.signatureSize := by
  have htype : l.type.length = 16 := l.type_length
  have hfront : (l.type ++ leBytes 4 l.listSize ++ leBytes 4 l.header.length).length = 24 := by
    rw [List.length_append, List.length_append, leBytes_length, leBytes_length, htype]
  have hfield := field_eq (l.header ++ (l.signatures.flatMap SignatureData.bytes ++ rest)) hfront hsize
  unfold signatureSize SignatureList.bytes
  simp only [List.append_assoc] at hfield ⊢
  exact hfield

theorem met_bytes (l : SignatureList) (rest : Bytes) : Met (l.bytes ++ rest) := by
  have hlength : (l.bytes ++ rest).length = l.listSize + rest.length := by rw [List.length_append, list_bytes_length]
  have hleast : sizeofSignatureList ≤ l.listSize := Nat.le_add_right_of_le (Nat.le_add_right _ _)
  unfold sizeofSignatureList at hleast
  exact ⟨by omega, by rw [signatureListSize_bytes]; omega⟩

theorem header_le (l : SignatureList) (rest : Bytes) : 24 + 4 ≤ (l.bytes ++ rest).length := by
  have hleast : sizeofSignatureList ≤ l.listSize := Nat.le_add_right_of_le (Nat.le_add_right _ _)
  unfold sizeofSignatureList at hleast
  rw [List.length_append, list_bytes_length]
  omega

theorem drop_bytes (l : SignatureList) (rest : Bytes) : (l.bytes ++ rest).drop (signatureListSize (l.bytes ++ rest)) = rest := by
  rw [signatureListSize_bytes]
  exact List.drop_left' (list_bytes_length l)

theorem size_pos (l : SignatureList) : 0 < l.signatureSize := Nat.zero_lt_of_lt l.size_lt

theorem certCount_bytes (rest : Bytes) (hsize : l.signatureSize < 2 ^ 32) :
    certCount (l.bytes ++ rest) = l.signatures.length := by
  have htotal := listSize_lt l
  have hlist : l.listSize = sizeofSignatureList + l.header.length + l.signatureSize * l.signatures.length := rfl
  have hdiff : (l.listSize + 2 ^ 64 - sizeofSignatureList - l.header.length) % 2 ^ 64 = l.signatureSize * l.signatures.length := by
    generalize l.signatureSize * l.signatures.length = n at hlist
    unfold sizeofSignatureList at *
    omega
  unfold certCount
  rw [signatureListSize_bytes, signatureHeaderSize_bytes, signatureSize_bytes rest hsize, hdiff,
    Nat.mul_div_cancel_left _ (size_pos l)]

theorem firstCert_bytes (l : SignatureList) (rest : Bytes) :
    firstCert (l.bytes ++ rest) = l.signatures.flatMap SignatureData.bytes ++ rest := by
  have htype : l.type.length = 16 := l.type_length
  unfold firstCert
  rw [signatureHeaderSize_bytes]
  unfold SignatureList.bytes
  rw [List.append_assoc]
  refine List.drop_left' ?_
  simp only [List.length_append, leBytes_length, htype, sizeofSignatureList]

theorem signatures_lt (l : SignatureList) : l.signatures.length < 2 ^ 32 := by
  have htotal := l.total
  have hmul : l.signatures.length ≤ l.signatureSize * l.signatures.length := Nat.le_mul_of_pos_left _ (size_pos l)
  omega

/-- The data of a signature, which stand behind its owner. -/
theorem bytesAt_data (hs : s ∈ l.signatures) (hn : n = s.data.length) :
    bytesAt (s.bytes ++ rest) sizeofGuid n = s.data := by
  obtain ⟨howner, -⟩ := l.sized s hs
  unfold bytesAt SignatureData.bytes
  rw [List.append_assoc, List.drop_left' howner, List.take_left' hn.symm]

theorem data_size (hs : s ∈ l.signatures) : s.data.length + sizeofGuid = l.signatureSize := by
  obtain ⟨howner, hbytes⟩ := l.sized s hs
  rw [SignatureData.bytes, List.length_append, howner] at hbytes
  omega

theorem readable_data (hs : s ∈ l.signatures) (hn : n = s.data.length) :
    Readable (s.bytes ++ rest) sizeofGuid n := by
  obtain ⟨howner, -⟩ := l.sized s hs
  refine Or.inr ?_
  rw [List.length_append, SignatureData.bytes, List.length_append, howner]
  omega

theorem drop_signature (hs : s ∈ l.signatures) : (s.bytes ++ rest).drop l.signatureSize = rest :=
  List.drop_left' (l.sized s hs).2

end

end BayTrail.SecureBoot.Lookup
