import Mathlib.Data.List.Range
import BayTrail.SecureFlash.Authentic

/-!
# What a digest says of the layout

`HashFwRomMapImage` hashes the signed areas, then the header if a flag says so, then the table of
areas, with nothing between them. Of two capsules with one digest the shorter table is the end of
the longer one, and the sizes of the areas in front of it leave two ways in which the header of one
capsule is areas and entries of the other.
-/

namespace BayTrail.SecureFlash

open Lib (Bytes Mem peek rd peek_length peek_add peek_eq_peek)

variable {Digest : Type} {A B : Capsule} {m m' : Mem} {p p' n k : Nat}

/-! ## The parts of the hashed bytes -/

/-- `CAPSULE_FLAGS_CAPHDR_IN_SIGNCERT` -/
def Capsule.hdrInSignCert (c : Capsule) : Bool := (flags c.mem c.hdr).testBit 1

def Capsule.areas (c : Capsule) : List RomArea := capsuleAreas c.mem c.hdr

def Capsule.content (c : Capsule) (a : RomArea) : Bytes := bytesAt c.mem (c.payload + a.offset) a.size

def Capsule.contents (c : Capsule) : Bytes := (c.areas.filter RomArea.signed).flatMap c.content

/-- The header up to the data of its certificate. -/
def Capsule.coveredHeader (c : Capsule) : Bytes := peek c.mem c.hdr 56

def Capsule.tableAt (c : Capsule) : Nat := c.hdr + romLayoutOffset c.mem c.hdr

/-- The table with the entry behind its last area. -/
def Capsule.table (c : Capsule) : Bytes := peek c.mem c.tableAt ((c.areas.length + 1) * 24)

/-- What `HashFwRomMapImage` hashes. -/
def Capsule.hashed (c : Capsule) : Bytes :=
  c.contents ++ (if c.hdrInSignCert then c.coveredHeader else []) ++ c.table

/-- A capsule whose header has passed the check against overruns, not at the end of memory. -/
structure Capsule.Fits (c : Capsule) : Prop where
  header : headerFits c.mem c.hdr = true
  inMemory : c.hdr + capsuleImageSize ≤ 2 ^ 64

theorem bytesAt_eq_peek (h : p + n ≤ 2 ^ 64) : bytesAt m p n = peek m p n := by
  unfold bytesAt
  apply List.ext_getElem
  · rw [peek_length, List.length_map, List.length_range]
  · intro i hi hi'
    have hlt : i < n := by rwa [peek_length] at hi'
    have hmod : (p + i) % 2 ^ 64 = p + i := Nat.mod_eq_of_lt (by omega)
    rw [List.getElem_map, List.getElem_range, hmod]
    exact Lib.holds_iff_get.mp (Lib.holds_peek m p n) i hi'

theorem romAreas_length_le : ∀ {n p : Nat}, (romAreas m p n).length ≤ n
  | 0, _ => Nat.le_refl 0
  | n + 1, p => by
    unfold romAreas
    split
    · exact Nat.zero_le _
    · exact Nat.succ_le_succ romAreas_length_le

/-- The areas are the entries at their places. -/
theorem romAreas_eq : ∀ {n p : Nat}, romAreas m p n =
    (List.range (romAreas m p n).length).map fun i => romAreaAt m (p + 24 * i)
  | 0, _ => rfl
  | n + 1, p => by
    unfold romAreas
    split
    · rfl
    · rw [List.length_cons, List.range_succ_eq_map, List.map_cons, List.map_map, Nat.mul_zero,
        Nat.add_zero]
      congr 1
      have hshift : ((fun i => romAreaAt m (p + 24 * i)) ∘ Nat.succ) =
          fun i => romAreaAt m (p + 24 + 24 * i) := by
        funext i
        show romAreaAt m (p + 24 * (i + 1)) = _
        congr 1
        omega
      rw [hshift]
      exact romAreas_eq

theorem Capsule.Fits.table_le (h : A.Fits) :
    A.tableAt + (A.areas.length + 1) * 24 ≤ 2 ^ 64 := by
  obtain ⟨hheader, hmemory⟩ := h
  simp only [headerFits, Bool.and_eq_true, decide_eq_true_iff] at hheader
  have hlength : A.areas.length ≤
      (romImageOffset A.mem A.hdr - romLayoutOffset A.mem A.hdr) / 24 := romAreas_length_le
  unfold Capsule.tableAt
  unfold capsuleImageSize maxPayloadSize flashSize at hheader hmemory
  omega

/-- The digest of a capsule is that of its parts. -/
theorem hash_of_digest {S : Services Digest} {tbl : HashTbl Digest} {d : Digest} (h : A.Fits)
    (hd : (hashFwRomMapImage S A.mem A.hdr A.payload tbl).1 = some d) :
    S.sha256 A.hashed = some d := by
  unfold hashFwRomMapImage at hd
  dsimp only at hd
  split at hd
  · cases hd
  · rename_i hlength
    have hall : (signedAreas A.mem A.hdr).takeWhile
        (fun a => a.offset + a.size ≤ romSize A.mem A.hdr) = signedAreas A.mem A.hdr :=
      (List.takeWhile_prefix _).eq_of_length
        (Nat.le_antisymm (List.takeWhile_prefix _).length_le (Nat.le_of_not_lt hlength))
    rw [hall] at hd
    rw [← hd]
    have hheader : bytesAt A.mem A.hdr 56 = A.coveredHeader := by
      have := h.inMemory
      unfold capsuleImageSize maxPayloadSize flashSize at this
      exact bytesAt_eq_peek (by omega)
    have htable : bytesAt A.mem (A.hdr + romLayoutOffset A.mem A.hdr)
        (((capsuleAreas A.mem A.hdr).length + 1) * 24) = A.table := bytesAt_eq_peek h.table_le
    unfold gather Capsule.hashed Capsule.contents Capsule.hdrInSignCert
    rw [List.flatMap_append, List.flatMap_append, List.flatMap_map, List.flatMap_singleton, htable]
    cases hflag : (flags A.mem A.hdr).testBit 1 with
    | false => rfl
    | true =>
      rw [if_pos rfl, if_pos rfl, List.flatMap_singleton, hheader]
      rfl

/-! ## One table is the end of the other -/

def signedSize (areas : List RomArea) : Nat := ((areas.filter RomArea.signed).map RomArea.size).sum

theorem signedSize_append (areas areas' : List RomArea) :
    signedSize (areas ++ areas') = signedSize areas + signedSize areas' := by
  unfold signedSize
  rw [List.filter_append, List.map_append, List.sum_append]

@[simp] theorem content_length (c : Capsule) (a : RomArea) : (c.content a).length = a.size := by
  unfold Capsule.content bytesAt
  rw [List.length_map, List.length_range]

theorem contents_length (c : Capsule) : c.contents.length = signedSize c.areas := by
  unfold Capsule.contents signedSize
  rw [List.length_flatMap]
  simp only [content_length]

theorem table_length (c : Capsule) : c.table.length = (c.areas.length + 1) * 24 := peek_length ..

theorem romAreaAt_congr (h : peek m p 24 = peek m' p' 24) : romAreaAt m p = romAreaAt m' p' := by
  have hbyte := peek_eq_peek.mp h
  have hrd : ∀ w q, q + w ≤ 24 → rd m w (p + q) = rd m' w (p' + q) := by
    intro w q hq
    unfold rd
    congr 1
    refine peek_eq_peek.mpr fun i hi => ?_
    rw [Nat.add_assoc, Nat.add_assoc]
    exact hbyte _ (by omega)
  have hfirst : rd m 8 p = rd m' 8 p' := hrd 8 0 (by decide)
  unfold romAreaAt
  rw [hfirst, hrd 4 8 (by decide), hrd 4 12 (by decide), hrd 4 20 (by decide)]

theorem areas_eq (c : Capsule) : c.areas =
    (List.range c.areas.length).map fun i => romAreaAt c.mem (c.tableAt + 24 * i) := romAreas_eq

/-- How two capsules lie to each other that hash the same bytes: there are `k` entries more in the
table of the second one. -/
structure Overlay (A B : Capsule) (k : Nat) : Prop where
  table : B.table = peek B.mem B.tableAt (24 * k) ++ A.table
  areas : B.areas = B.areas.take k ++ A.areas
  rest : A.contents ++ (if A.hdrInSignCert then A.coveredHeader else []) =
    B.contents ++ (if B.hdrInSignCert then B.coveredHeader else []) ++ peek B.mem B.tableAt (24 * k)

theorem overlay_of_hashed (h : A.hashed = B.hashed) (hlength : B.areas.length = A.areas.length + k) :
    Overlay A B k := by
  have hsplit : B.table = peek B.mem B.tableAt (24 * k) ++
      peek B.mem (B.tableAt + 24 * k) ((A.areas.length + 1) * 24) := by
    unfold Capsule.table
    rw [hlength, ← peek_add]
    congr 1
    omega
  unfold Capsule.hashed at h
  rw [hsplit, ← List.append_assoc] at h
  obtain ⟨hrest, htable⟩ := List.append_inj' h (by rw [table_length, peek_length])
  refine ⟨by rw [hsplit, htable], ?_, hrest⟩
  -- the entries that are the same bytes are the same areas
  have hbyte := peek_eq_peek.mp htable
  have hlater : (List.range A.areas.length).map
        (fun i => romAreaAt B.mem (B.tableAt + 24 * (k + i))) = A.areas := by
    rw [areas_eq A, List.length_map, List.length_range]
    refine List.map_congr_left fun i hi => ?_
    have hi : i < A.areas.length := List.mem_range.mp hi
    refine (romAreaAt_congr (peek_eq_peek.mpr fun j hj => ?_)).symm
    have := hbyte (24 * i + j) (by omega)
    rw [show A.tableAt + 24 * i + j = A.tableAt + (24 * i + j) by omega, this]
    congr 1
    omega
  have hwhole : B.areas = (List.range k).map (fun i => romAreaAt B.mem (B.tableAt + 24 * i)) ++
      A.areas := by
    rw [← hlater]
    conv_lhs => rw [areas_eq B, hlength, Nat.add_comm, List.range_add, List.map_append, List.map_map]
    rfl
  rw [hwhole, List.take_left' (by rw [List.length_map, List.length_range])]

theorem Overlay.sizes (h : Overlay A B k) :
    (if A.hdrInSignCert then 56 else 0) =
      signedSize (B.areas.take k) + (if B.hdrInSignCert then 56 else 0) + 24 * k := by
  have hlength := congrArg List.length h.rest
  have hsigned := congrArg signedSize h.areas
  rw [signedSize_append] at hsigned
  have hheader : ∀ c : Capsule, (if c.hdrInSignCert then c.coveredHeader else []).length =
      if c.hdrInSignCert then 56 else 0 := by
    intro c
    split
    · exact peek_length ..
    · rfl
  rw [List.length_append, List.length_append, List.length_append, contents_length, contents_length,
    hheader, hheader, peek_length, hsigned] at hlength
  omega

/-! ## Capsules with one digest -/

/-- The digest stands for one layout and one content of what is signed. -/
structure SameSigned (A B : Capsule) : Prop where
  table : A.table = B.table
  areas : A.areas = B.areas
  content : ∀ a ∈ A.areas, a.signed → A.content a = B.content a
  header : A.hdrInSignCert ∨ B.hdrInSignCert → A.coveredHeader = B.coveredHeader

/-- The end of the header that one capsule covers is one or two entries in front of the table of the
other, which covers none, and the rest of that header is what these entries are of. -/
structure Shifted (A B : Capsule) : Prop where
  covers : A.hdrInSignCert = true
  uncovered : B.hdrInSignCert = false
  entries : ∃ k, (k = 1 ∨ k = 2) ∧ B.table = A.coveredHeader.drop (56 - 24 * k) ++ A.table ∧
    signedSize (B.areas.take k) = 56 - 24 * k

theorem content_of_flatMap {α β : Type} {f g : α → List β} : ∀ {l : List α},
    (∀ a ∈ l, (f a).length = (g a).length) → l.flatMap f = l.flatMap g → ∀ a ∈ l, f a = g a := by
  intro l
  induction l with
  | nil => exact fun _ _ a ha => absurd ha List.not_mem_nil
  | cons b l ih =>
    intro hlength h a ha
    rw [List.flatMap_cons, List.flatMap_cons] at h
    obtain ⟨hhead, htail⟩ := List.append_inj h (hlength b List.mem_cons_self)
    obtain rfl | ha := List.mem_cons.mp ha
    · exact hhead
    · exact ih (fun a ha => hlength a (List.mem_cons_of_mem _ ha)) htail a ha

theorem Overlay.same (h : Overlay A B 0) : SameSigned A B := by
  have hzero : signedSize (B.areas.take 0) = 0 := rfl
  have hsizes := h.sizes
  rw [hzero] at hsizes
  have htable : A.table = B.table := h.table.symm
  have hareas : A.areas = B.areas := h.areas.symm
  have hflag : A.hdrInSignCert = B.hdrInSignCert := by
    cases hA : A.hdrInSignCert <;> cases hB : B.hdrInSignCert <;> simp [hA, hB] at hsizes ⊢
  have hrest := h.rest
  rw [Nat.mul_zero, peek, List.append_nil] at hrest
  obtain ⟨hcontents, hheader⟩ := List.append_inj hrest (by
    rw [contents_length, contents_length, hareas])
  refine ⟨htable, hareas, fun a ha hsigned => ?_, fun hcovers => ?_⟩
  · unfold Capsule.contents at hcontents
    rw [← hareas] at hcontents
    exact content_of_flatMap (fun a _ => by rw [content_length, content_length]) hcontents a
      (List.mem_filter.mpr ⟨ha, hsigned⟩)
  · have hA : A.hdrInSignCert = true := by
      obtain h | h := hcovers
      · exact h
      · rw [hflag, h]
    rw [if_pos hA, if_pos (hflag ▸ hA)] at hheader
    exact hheader

theorem Overlay.shifted (h : Overlay A B k) (hk : 0 < k) : Shifted A B := by
  have hsizes := h.sizes
  -- only a header that the second capsule does not cover makes up for an entry
  have hA : A.hdrInSignCert = true := by
    by_contra hA
    rw [if_neg hA] at hsizes
    omega
  have hB : B.hdrInSignCert = false := by
    by_contra hB
    rw [Bool.not_eq_false] at hB
    rw [if_pos hA, if_pos hB] at hsizes
    omega
  rw [if_pos hA, hB, if_neg Bool.false_ne_true] at hsizes
  refine ⟨hA, hB, k, by omega, ?_, by omega⟩
  have hrest := h.rest
  rw [if_pos hA, hB, if_neg Bool.false_ne_true, List.append_nil] at hrest
  have hfront : A.coveredHeader.drop (56 - 24 * k) = peek B.mem B.tableAt (24 * k) := by
    have hlengthB : B.contents.length = A.contents.length + (56 - 24 * k) := by
      have hsigned := congrArg signedSize h.areas
      rw [signedSize_append] at hsigned
      rw [contents_length, contents_length]
      omega
    have hdrop := congrArg (List.drop B.contents.length) hrest
    rwa [List.drop_left, hlengthB, ← List.drop_drop, List.drop_left] at hdrop
  rw [hfront, h.table]

theorem same_or_shifted (h : A.hashed = B.hashed) : SameSigned A B ∨ Shifted A B ∨ Shifted B A := by
  have hlonger : ∀ {A B : Capsule}, A.hashed = B.hashed → A.areas.length < B.areas.length →
      Shifted A B := fun h hlt =>
    (overlay_of_hashed h (Nat.add_sub_cancel' (Nat.le_of_lt hlt)).symm).shifted
      (Nat.sub_pos_of_lt hlt)
  obtain hlt | heq | hlt := Nat.lt_trichotomy A.areas.length B.areas.length
  · exact Or.inr (Or.inl (hlonger h hlt))
  · exact Or.inl (overlay_of_hashed h heq.symm).same
  · exact Or.inr (Or.inr (hlonger h.symm hlt))

/-! ## The types of certificates -/

def certRsa2048Sha256Guid : Bytes :=
  [0x14, 0x74, 0x71, 0xA7, 0x16, 0xC6, 0x77, 0x49, 0x94, 0x20, 0x84, 0x47, 0x12, 0xA7, 0x35, 0xBF]

/-- `FWCert.SignCert.Hdr.CertType` is one of the types that there are. -/
def Capsule.hasCertType (c : Capsule) : Bool :=
  guidAt c.mem (c.hdr + 40) certPkcs7Guid || guidAt c.mem (c.hdr + 40) certRsa2048Sha256Guid

theorem rd_of_peek {w i : Nat} (h : i + w ≤ n) :
    rd m w (p + i) = Lib.leVal (((peek m p n).drop i).take w) := by
  have hsplit : peek m p n = peek m p i ++ (peek m (p + i) w ++ peek m (p + i + w) (n - i - w)) := by
    rw [← peek_add, ← peek_add]
    congr 1
    omega
  rw [hsplit, List.drop_left' (peek_length ..), List.take_left' (peek_length ..)]
  rfl

/-- As an entry, a certificate's type is a signed area that is larger than the header. -/
theorem entry_of_certType (h : A.hasCertType = true) :
    (romAreaAt A.mem (A.hdr + 32)).signed = true ∧ 56 < (romAreaAt A.mem (A.hdr + 32)).size := by
  have hguid : peek A.mem (A.hdr + 40) 16 = certPkcs7Guid ∨
      peek A.mem (A.hdr + 40) 16 = certRsa2048Sha256Guid := by
    unfold Capsule.hasCertType guidAt at h
    simpa using h
  have hsize : (romAreaAt A.mem (A.hdr + 32)).size =
      Lib.leVal (((peek A.mem (A.hdr + 40) 16).drop 4).take 4) :=
    @rd_of_peek A.mem (A.hdr + 40) 16 4 4 (by decide)
  have hattributes : (romAreaAt A.mem (A.hdr + 32)).attributes =
      Lib.leVal (((peek A.mem (A.hdr + 40) 16).drop 12).take 4) :=
    @rd_of_peek A.mem (A.hdr + 40) 16 4 12 (by decide)
  unfold RomArea.signed
  rw [hattributes, hsize]
  obtain hguid | hguid := hguid <;> rw [hguid] <;> decide

theorem le_signedSize {a : RomArea} {l : List RomArea} (ha : a ∈ l) (hsigned : a.signed = true) :
    a.size ≤ signedSize l :=
  List.single_le_sum (fun _ _ => Nat.zero_le _) _
    (List.mem_map_of_mem (List.mem_filter.mpr ⟨ha, hsigned⟩))

/-- With such a type the end of the header is no entry. -/
theorem Shifted.certType (h : Shifted A B) : A.hasCertType = false := by
  by_contra htype
  rw [Bool.not_eq_false] at htype
  obtain ⟨hsigned, hlarge⟩ := entry_of_certType htype
  obtain ⟨k, hk, htable, hsize⟩ := h.entries
  have hlength : B.areas.length = A.areas.length + k := by
    have := congrArg List.length htable
    rw [List.length_append, List.length_drop, table_length, table_length, Capsule.coveredHeader,
      peek_length] at this
    omega
  have hentry : romAreaAt B.mem (B.tableAt + 24 * (k - 1)) = romAreaAt A.mem (A.hdr + 32) := by
    apply romAreaAt_congr
    have hheader : A.coveredHeader = peek A.mem A.hdr (56 - 24 * k) ++
        (peek A.mem (A.hdr + (56 - 24 * k)) (24 * (k - 1)) ++ peek A.mem (A.hdr + 32) 24) := by
      have hlast : A.hdr + 32 = A.hdr + (56 - 24 * k) + 24 * (k - 1) := by omega
      unfold Capsule.coveredHeader
      rw [hlast, ← peek_add, ← peek_add]
      congr 1
      omega
    have hB : B.table = peek B.mem B.tableAt (24 * (k - 1)) ++
        (peek B.mem (B.tableAt + 24 * (k - 1)) 24 ++
          peek B.mem (B.tableAt + 24 * (k - 1) + 24) ((A.areas.length + 1) * 24)) := by
      unfold Capsule.table
      rw [← peek_add, ← peek_add]
      congr 1
      omega
    rw [hB, hheader, List.drop_left' (peek_length ..), List.append_assoc] at htable
    obtain ⟨-, htable⟩ := List.append_inj htable (by rw [peek_length, peek_length])
    exact (List.append_inj htable (by rw [peek_length, peek_length])).1
  have hmem : romAreaAt A.mem (A.hdr + 32) ∈ B.areas.take k := by
    rw [← hentry, areas_eq B, ← List.map_take, List.mem_map]
    refine ⟨k - 1, ?_, rfl⟩
    rw [List.take_range, List.mem_range]
    omega
  have := le_signedSize hmem hsigned
  omega

/-! ## A header that is taken for an entry -/

/-- A header of 56 bytes, whose certificate's type has an offset of 0, a size of 32 and the
attributes of a signed area where an entry has them, and a table without areas. -/
def coveredBytes : Bytes :=
  fwCapsuleGuid ++ [0x50, 0, 0, 0, 0x02, 0, 0, 0, 0x70, 0, 0, 0, 0x50, 0, 0x38, 0] ++
    [0x18, 0, 0, 0, 0, 2, 0xF1, 0x0E, 0, 0, 0, 0, 0x20, 0, 0, 0, 0, 0, 0, 0, 0, 2, 0, 0] ++
    List.replicate 56 0

/-- The end of that header is the one entry of the table, and the rest of it the payload. -/
def entryBytes : Bytes :=
  fwCapsuleGuid ++ [0x68, 0, 0, 0, 0, 0, 0, 0, 0x88, 0, 0, 0, 0x68, 0, 0x38, 0] ++
    [0x18, 0, 0, 0, 0, 2, 0xF1, 0x0E] ++ List.replicate 16 0 ++
    (coveredBytes.drop 32).take 24 ++ List.replicate 24 0 ++ coveredBytes.take 32

def loaded (bytes : Bytes) (romImageOffset : Nat) : Capsule where
  mem := fun p => bytes.getD (p - 0x1000) 0
  hdr := 0x1000
  payload := 0x1000 + romImageOffset

theorem fits_covered : (loaded coveredBytes 0x50).Fits := ⟨by decide +kernel, by decide⟩

theorem fits_entry : (loaded entryBytes 0x68).Fits := ⟨by decide +kernel, by decide⟩

/-- What both hash. -/
theorem hash_covered : (hashFwRomMapImage crb.toServices (loaded coveredBytes 0x50).mem
    (loaded coveredBytes 0x50).hdr (loaded coveredBytes 0x50).payload fun _ => .other 0).1
      = some (coveredBytes.take 80) := by
  decide +kernel

theorem hash_entry : (hashFwRomMapImage crb.toServices (loaded entryBytes 0x68).mem
    (loaded entryBytes 0x68).hdr (loaded entryBytes 0x68).payload fun _ => .other 0).1
      = some (coveredBytes.take 80) := by
  decide +kernel

/-- One digest stands for one layout, save for a header of a certificate without a type. Of two capsules whose
certificates both have one it stands for one layout. -/
theorem digest_of_layout {Digest : Type} (S : Services Digest) (A B : Capsule)
    (tbl tbl' : HashTbl Digest) (d : Digest) (hA : A.Fits) (hB : B.Fits)
    (hd : (hashFwRomMapImage S A.mem A.hdr A.payload tbl).1 = some d)
    (hd' : (hashFwRomMapImage S B.mem B.hdr B.payload tbl').1 = some d) :
    (SameSigned A B ∨ (Shifted A B ∧ A.hasCertType = false) ∨ (Shifted B A ∧ B.hasCertType = false))
      ∧ (A.hasCertType = true → B.hasCertType = true → SameSigned A B) := by
  have hhashed : A.hashed = B.hashed :=
    S.collisionFree (hash_of_digest hA hd) (hash_of_digest hB hd')
  obtain h | h | h := same_or_shifted hhashed
  · exact ⟨Or.inl h, fun _ _ => h⟩
  · exact ⟨Or.inr (Or.inl ⟨h, h.certType⟩), fun hA _ => absurd (h.certType.symm.trans hA) Bool.false_ne_true⟩
  · exact ⟨Or.inr (Or.inr ⟨h, h.certType⟩), fun _ hB => absurd (h.certType.symm.trans hB) Bool.false_ne_true⟩

/-- The two capsules with one digest. -/
theorem digest_of_layout_loaded :
    SameSigned (loaded coveredBytes 0x50) (loaded entryBytes 0x68) ∨
      (Shifted (loaded coveredBytes 0x50) (loaded entryBytes 0x68) ∧
        (loaded coveredBytes 0x50).hasCertType = false) ∨
      (Shifted (loaded entryBytes 0x68) (loaded coveredBytes 0x50) ∧
        (loaded entryBytes 0x68).hasCertType = false) :=
  (digest_of_layout crb.toServices _ _ _ _ _ fits_covered fits_entry hash_covered hash_entry).1

/-- The digest of a header and a table is that of an area and a larger table. -/
theorem not_digest_of_layout : ¬ ∀ (S : Services Bytes) (A B : Capsule) (tbl tbl' : HashTbl Bytes)
    (d : Bytes), A.Fits → B.Fits →
    (hashFwRomMapImage S A.mem A.hdr A.payload tbl).1 = some d →
    (hashFwRomMapImage S B.mem B.hdr B.payload tbl').1 = some d → SameSigned A B := by
  intro h
  have hsame := h crb.toServices _ _ _ _ _ fits_covered fits_entry hash_covered hash_entry
  have hlength := congrArg List.length hsame.areas
  exact absurd hlength (by decide +kernel)

end BayTrail.SecureFlash
