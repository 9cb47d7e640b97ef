import BayTrail.SecureFlash.Checked

/-!
# What the hash touches

Of the functions of `CapsuleValidate`, the search for the header and the hash of the image: they return
what the functions without checks compute, and what has to hold of the buffer is stated for each.
-/

namespace BayTrail.SecureFlash.Checked

open Lib (Mem rd)
open Lib.Run (returns_pure returns_bind returns_require_bind loop_done loop_again)

variable {Digest β : Type} {S : Services Digest} {m : Mem} {capsule hdr payload p n : Nat} {b : β}

/-! ## Checks -/

theorem touch_bind {f : Unit → Lib.Run β} :
    (touch capsule p n >>= f).Returns b ↔ InBuffer capsule p n ∧ (f ()).Returns b := returns_require_bind

/-- A check of what is in the buffer. -/
theorem touch_inside (h : InBuffer capsule p n) {f : Unit → Lib.Run β} :
    (touch capsule p n >>= f).Returns b ↔ (f ()).Returns b := touch_bind.trans (and_iff_right h)

theorem difference_bind {x y : Nat} {f : Nat → Lib.Run β} :
    (difference x y >>= f).Returns b ↔ y ≤ x ∧ (f (x - y)).Returns b := by
  rw [returns_bind]
  constructor
  · intro ⟨d, hd, hf⟩
    obtain ⟨hle, hd⟩ := returns_require_bind.mp hd
    cases returns_pure.mp hd
    exact ⟨hle, hf⟩
  · intro ⟨hle, hf⟩
    exact ⟨x - y, returns_require_bind.mpr ⟨hle, returns_pure.mpr rfl⟩, hf⟩

theorem capsuleImageSize_eq : capsuleImageSize = 5259264 := rfl
theorem maxPayloadSize_eq : maxPayloadSize = 5242880 := rfl
theorem hashTblSize_eq : hashTblSize = 40960 := rfl

/-! ## The search for the header -/

/-- What is looked at in one place. -/
theorem ffsAt_returns {found : Bool} (hp : InBuffer capsule p 64) :
    (ffsAt m capsule p).Returns found ↔ fwCapFfsAt m p = found := by
  obtain ⟨hle, hend⟩ := hp
  have hhere : ∀ n, n ≤ 64 → InBuffer capsule p n := fun n h => ⟨hle, by omega⟩
  have hinside : ∀ i n, i + n ≤ 64 → InBuffer capsule (p + i) n := fun i n h => ⟨by omega, by omega⟩
  -- the word is part of the GUID
  have hword : guidAt m p fwCapFfsGuid = true → rd m 4 p = signature := by
    intro h
    have hrd := @rd_of_peek m p 16 4 0 (by decide)
    rw [Nat.add_zero, of_decide_eq_true h] at hrd
    rw [hrd]
    decide
  unfold ffsAt fwCapFfsAt
  rw [touch_inside (hhere 4 (by decide))]
  by_cases hsignature : rd m 4 p = signature
  · rw [if_neg (fun hne => hne hsignature), touch_inside (hhere 16 (by decide))]
    cases hguid : guidAt m p fwCapFfsGuid with
    | false => exact returns_pure
    | true =>
      rw [Bool.not_true, if_neg Bool.false_ne_true, touch_inside (hinside 28 16 (by decide))]
      cases hsection : guidAt m (p + 28) fwCapSectionGuid with
      | false => exact returns_pure
      | true =>
        rw [Bool.not_true, if_neg Bool.false_ne_true, touch_inside (hinside 20 4 (by decide)),
          touch_inside (hinside 60 4 (by decide))]
        by_cases hsize : rd m 3 (p + 20) < headerSize m (p + 44) + 44
        · rw [if_pos hsize, decide_eq_false (by omega)]
          exact returns_pure
        · rw [if_neg hsize, decide_eq_true (by omega), touch_inside (hinside 44 16 (by decide))]
          exact returns_pure
  · rw [if_pos hsignature, Bool.eq_false_iff.mpr (fun h => hsignature (hword h))]
    exact returns_pure

/-- The search goes down to the capsule. -/
theorem findLoop_returns (hn : 4 * n + 44 ≤ maxPayloadSize) :
    (Lib.Run.loop (findRound m capsule) (capsule + 4 * n)).Returns (SecureFlash.findCapHdrFFS m capsule n) := by
  have hinside : ∀ k, k ≤ n → InBuffer capsule (capsule + 4 * k) 64 := by
    intro k hk
    rw [maxPayloadSize_eq] at hn
    unfold InBuffer
    rw [capsuleImageSize_eq]
    omega
  induction n with
  | zero =>
    have hfound := (ffsAt_returns (m := m) (hinside 0 (Nat.le_refl 0))).mpr rfl
    rw [Nat.mul_zero, Nat.add_zero] at hfound ⊢
    refine loop_done (hfound.bind ?_)
    unfold SecureFlash.findCapHdrFFS
    cases hat : fwCapFfsAt m capsule with
    | true =>
      rw [if_pos rfl, if_pos rfl]
      exact returns_pure.mpr rfl
    | false =>
      rw [if_neg Bool.false_ne_true, if_pos rfl, if_neg Bool.false_ne_true]
      exact returns_pure.mpr rfl
  | succ n ih =>
    have hfound := (ffsAt_returns (m := m) (hinside (n + 1) (Nat.le_refl _))).mpr rfl
    unfold SecureFlash.findCapHdrFFS
    cases hat : fwCapFfsAt m (capsule + 4 * (n + 1)) with
    | true =>
      refine loop_done (hfound.bind ?_)
      rw [hat, if_pos rfl, if_pos rfl]
      exact returns_pure.mpr rfl
    | false =>
      rw [if_neg Bool.false_ne_true]
      have hstep : capsule + 4 * (n + 1) - 4 = capsule + 4 * n := by omega
      refine loop_again (hfound.bind ?_) (hstep ▸ ih (by omega) (fun k hk => hinside k (by omega)))
      rw [hat, if_neg Bool.false_ne_true, if_neg (by omega)]
      exact returns_pure.mpr rfl

variable (m capsule) in
theorem findCapHdrFFS_returns :
    (findCapHdrFFS m capsule).Returns (SecureFlash.findCapHdrFFS m capsule ((maxPayloadSize - 44) / 4)) := by
  have hstart : capsule + maxPayloadSize - 44 = capsule + 4 * ((maxPayloadSize - 44) / 4) := by
    rw [maxPayloadSize_eq]
    omega
  unfold findCapHdrFFS
  rw [hstart]
  exact findLoop_returns (by decide)

/-! ## The table of areas -/

/-- What is asked of a header: it begins in the payload at most, the table lies in its 16k, and the image
behind it in the buffer. -/
structure Placed (m : Mem) (capsule hdr payload : Nat) : Prop where
  hdr_le : capsule ≤ hdr
  hdr_end : hdr ≤ capsule + maxPayloadSize
  offset_le : romImageOffset m hdr ≤ 0x4000
  layout_le : romLayoutOffset m hdr ≤ romImageOffset m hdr
  payload_le : capsule ≤ payload
  payload_end : payload + romSize m hdr ≤ capsule + capsuleImageSize

/-- A field of the header. -/
theorem Placed.inside (h : Placed m capsule hdr payload) {i : Nat} (hi : i + n ≤ 0x4000) :
    InBuffer capsule (hdr + i) n := by
  have := h.hdr_le
  have := h.hdr_end
  unfold InBuffer
  rw [maxPayloadSize_eq] at *
  rw [capsuleImageSize_eq]
  omega

/-- How many entries there is place for. -/
def places (m : Mem) (hdr : Nat) : Nat := (romImageOffset m hdr - romLayoutOffset m hdr) / 24

theorem Placed.entry (h : Placed m capsule hdr payload) {i k : Nat} (hi : i < places m hdr) (hk : k + n ≤ 24) :
    InBuffer capsule (entryAt m hdr i + k) n := by
  have := h.offset_le
  have := h.layout_le
  have hplaces : 24 * places m hdr ≤ romImageOffset m hdr - romLayoutOffset m hdr := Nat.mul_div_le _ 24
  unfold entryAt
  rw [show hdr + romLayoutOffset m hdr + 24 * i + k = hdr + (romLayoutOffset m hdr + 24 * i + k) by omega]
  exact h.inside (by omega)

theorem entryAt_succ (m : Mem) (hdr i : Nat) : entryAt m hdr (i + 1) = entryAt m hdr i + 24 := by
  unfold entryAt
  omega

/-- The first loop counts the entries and the signed ones. -/
theorem countLoop_returns (h : Placed m capsule hdr payload) {i c : Nat} (hn : i + n = places m hdr) :
    (Lib.Run.loop (countRound m capsule hdr (places m hdr)) (i, c)).Returns
      (i + (romAreas m (entryAt m hdr i) n).length, c + ((romAreas m (entryAt m hdr i) n).filter RomArea.signed).length) := by
  induction n generalizing i c with
  | zero =>
    refine loop_done ?_
    unfold countRound romAreas
    rw [if_neg (by dsimp only; omega)]
    exact returns_pure.mpr rfl
  | succ n ih =>
    have hi : i < places m hdr := by omega
    by_cases hsize : (romAreaAt m (entryAt m hdr i)).size = 0
    · refine loop_done ?_
      unfold countRound romAreas
      rw [if_pos hi, if_pos hsize]
      refine (touch_inside (h.entry hi (by decide))).mpr ?_
      rw [if_pos hsize]
      exact returns_pure.mpr rfl
    · have hrest := ih (i := i + 1) (c := if (romAreaAt m (entryAt m hdr i)).signed then c + 1 else c) (by omega)
      rw [entryAt_succ] at hrest
      have hvalue : (i + (romAreas m (entryAt m hdr i) (n + 1)).length,
          c + ((romAreas m (entryAt m hdr i) (n + 1)).filter RomArea.signed).length) =
          (i + 1 + (romAreas m (entryAt m hdr i + 24) n).length,
            (if (romAreaAt m (entryAt m hdr i)).signed then c + 1 else c)
              + ((romAreas m (entryAt m hdr i + 24) n).filter RomArea.signed).length) := by
        rw [romAreas, if_neg hsize, List.length_cons, List.filter_cons]
        refine Prod.ext (by dsimp only; omega) ?_
        dsimp only
        split
        · rw [List.length_cons]
          omega
        · rfl
      rw [hvalue]
      refine loop_again ?_ hrest
      unfold countRound
      rw [if_pos hi]
      refine (touch_inside (h.entry hi (by decide))).mpr ?_
      rw [if_neg hsize]
      refine (touch_inside (h.entry hi (by decide))).mpr ?_
      exact returns_pure.mpr rfl

/-- The range of an area. -/
def areaRange (payload : Nat) (a : RomArea) : Nat × Nat := (payload + a.offset, a.size)

/-- The area is in the payload. -/
def fits (romSize : Nat) (a : RomArea) : Bool := a.offset + a.size ≤ romSize

/-- A write to the scratch arrays. -/
theorem setElem_bind {maxHashElem numElem : Nat} (hnum : numElem < maxHashElem) (hmax : maxHashElem ≤ 684)
    {f : Unit → Lib.Run β} : (setElem maxHashElem numElem >>= f).Returns b ↔ (f ()).Returns b := by
  refine returns_require_bind.trans (and_iff_right ?_)
  rw [hashTblSize_eq]
  omega

section ranges

variable {romSize maxHashElem bound i : Nat} {chunks : List (Nat × Nat)}

theorem addrLoop_last (h : bound ≤ i) :
    (Lib.Run.loop (addrRound m capsule hdr payload romSize bound maxHashElem) (i, chunks)).Returns (some (i, chunks)) := by
  refine loop_done ?_
  unfold addrRound
  rw [if_neg (fun hlt => Nat.not_lt.mpr h hlt.1)]
  exact returns_pure.mpr rfl

/-- The second loop takes the ranges of all signed areas, if all are in the payload. -/
theorem addrLoop_returns (h : Placed m capsule hdr payload) (hn : i + n = places m hdr) (hmax : maxHashElem ≤ 684)
    (hroom : chunks.length + ((romAreas m (entryAt m hdr i) n).filter RomArea.signed).length < maxHashElem)
    (hbound : bound = i + (romAreas m (entryAt m hdr i) n).length) :
    (Lib.Run.loop (addrRound m capsule hdr payload romSize bound maxHashElem) (i, chunks)).Returns
      (if ((romAreas m (entryAt m hdr i) n).filter RomArea.signed).all (fits romSize) then
        some (bound, chunks ++ ((romAreas m (entryAt m hdr i) n).filter RomArea.signed).map (areaRange payload))
      else none) := by
  induction n generalizing i chunks with
  | zero =>
    have hbound : bound = i := hbound
    rw [romAreas, List.filter_nil, List.all_nil, if_pos rfl, List.map_nil, List.append_nil, hbound]
    exact addrLoop_last (Nat.le_refl i)
  | succ n ih =>
    by_cases hsize : (romAreaAt m (entryAt m hdr i)).size = 0
    · rw [romAreas, if_pos hsize] at hbound ⊢
      have hbound : bound = i := hbound
      rw [List.filter_nil, List.all_nil, if_pos rfl, List.map_nil, List.append_nil, hbound]
      exact addrLoop_last (Nat.le_refl i)
    · have hi : i < places m hdr := by omega
      rw [romAreas, if_neg hsize, ← entryAt_succ, List.filter_cons] at hroom
      rw [romAreas, if_neg hsize, ← entryAt_succ, List.length_cons] at hbound
      rw [romAreas, if_neg hsize, ← entryAt_succ, List.filter_cons]
      have hround : ∀ next, (addrRound m capsule hdr payload romSize bound maxHashElem (i, chunks)).Returns next ↔
          (if !(romAreaAt m (entryAt m hdr i)).signed then .again (i + 1, chunks)
          else if romSize < (romAreaAt m (entryAt m hdr i)).offset
              ∨ romSize < (romAreaAt m (entryAt m hdr i)).offset + (romAreaAt m (entryAt m hdr i)).size then .done none
          else .again (i + 1, chunks ++ [areaRange payload (romAreaAt m (entryAt m hdr i))])) = next := by
        intro next
        unfold addrRound
        rw [if_pos ⟨show i < bound by omega, show chunks.length < maxHashElem by omega⟩]
        dsimp only
        rw [touch_inside (h.entry hi (by decide)), if_neg hsize, touch_inside (h.entry hi (by decide))]
        split
        · exact returns_pure
        · rw [touch_inside (h.entry hi (by decide))]
          split
          · exact returns_pure
          · rw [setElem_bind (show chunks.length < maxHashElem by omega) hmax]
            exact returns_pure
      cases hsigned : (romAreaAt m (entryAt m hdr i)).signed with
      | false =>
        rw [hsigned, if_neg Bool.false_ne_true] at hroom
        rw [if_neg Bool.false_ne_true]
        refine loop_again ((hround _).mpr ?_) (ih (by omega) hroom (by omega))
        rw [hsigned, Bool.not_false, if_pos rfl]
      | true =>
        rw [hsigned, if_pos rfl, List.length_cons] at hroom
        rw [if_pos rfl, List.all_cons, List.map_cons]
        cases hfits : fits romSize (romAreaAt m (entryAt m hdr i)) with
        | true =>
          have hfits := of_decide_eq_true hfits
          have hroom' : (chunks ++ [areaRange payload (romAreaAt m (entryAt m hdr i))]).length
              + ((romAreas m (entryAt m hdr (i + 1)) n).filter RomArea.signed).length < maxHashElem := by
            rw [List.length_append, List.length_singleton]
            omega
          have hrest := ih (i := i + 1) (by omega) hroom' (by omega)
          rw [List.append_assoc, List.singleton_append] at hrest
          refine loop_again ((hround _).mpr ?_) hrest
          rw [hsigned, Bool.not_true, if_neg Bool.false_ne_true, if_neg (by omega)]
        | false =>
          have hfits := of_decide_eq_false hfits
          rw [Bool.false_and, if_neg Bool.false_ne_true]
          refine loop_done ((hround _).mpr ?_)
          rw [hsigned, Bool.not_true, if_neg Bool.false_ne_true, if_pos (by omega)]

end ranges

/-! ## The hash -/

/-- All signed areas are in the payload. -/
def areasFit (m : Mem) (hdr : Nat) : Bool := (signedAreas m hdr).all (fits (romSize m hdr))

/-- The table, and an entry behind it. -/
def tableRange (m : Mem) (hdr : Nat) : Nat × Nat :=
  (hdr + romLayoutOffset m hdr, ((capsuleAreas m hdr).length + 1) * 24)

def hashedRanges (m : Mem) (hdr payload : Nat) : List (Nat × Nat) :=
  (signedAreas m hdr).map (areaRange payload) ++ (if (flags m hdr).testBit 1 then [(hdr, 56)] else []) ++ [tableRange m hdr]

/-- The digest of the image; none if an area is not in the payload. -/
def digest (S : Services Digest) (m : Mem) (hdr payload : Nat) : Option Digest :=
  if areasFit m hdr then S.sha256 (gather m (hashedRanges m hdr payload)) else none

theorem digest_eq (S : Services Digest) (m : Mem) (hdr payload : Nat) (tbl : HashTbl Digest) :
    (SecureFlash.hashFwRomMapImage S m hdr payload tbl).1 = digest S m hdr payload := by
  unfold SecureFlash.hashFwRomMapImage digest
  dsimp only
  cases hfit : areasFit m hdr with
  | true =>
    have hall : (signedAreas m hdr).takeWhile (fun a => a.offset + a.size ≤ romSize m hdr) = signedAreas m hdr :=
      List.takeWhile_eq_self_iff.mpr fun a ha => List.all_eq_true.mp hfit a ha
    rw [hall, if_neg (Nat.lt_irrefl _), if_pos rfl]
    rfl
  | false =>
    have hne : (signedAreas m hdr).takeWhile (fun a => a.offset + a.size ≤ romSize m hdr) ≠ signedAreas m hdr := by
      intro hall
      refine Bool.eq_false_iff.mp hfit (List.all_eq_true.mpr fun a ha => ?_)
      exact List.takeWhile_eq_self_iff.mp hall a ha
    have hfront := List.takeWhile_prefix (l := signedAreas m hdr) (fun a => a.offset + a.size ≤ romSize m hdr)
    have hlt : ((signedAreas m hdr).takeWhile (fun a => a.offset + a.size ≤ romSize m hdr)).length <
        (signedAreas m hdr).length :=
      Nat.lt_of_le_of_ne hfront.length_le fun heq => hne (hfront.eq_of_length heq)
    rw [if_pos hlt, if_neg Bool.false_ne_true]

/-- The table is read behind its end, and may lie at the end of the buffer. -/
def TableInside (m : Mem) (capsule hdr : Nat) : Prop := InBuffer capsule (tableRange m hdr).1 (tableRange m hdr).2

def HashSafe (m : Mem) (capsule hdr : Nat) : Prop := areasFit m hdr = true → TableInside m capsule hdr

/-- All ranges but the table are in the buffer. -/
theorem hashRanges_returns (h : Placed m capsule hdr payload) (hfit : areasFit m hdr = true) {o : Option Digest} :
    (hashRanges S m capsule (hashedRanges m hdr payload)).Returns o ↔
      TableInside m capsule hdr ∧ S.sha256 (gather m (hashedRanges m hdr payload)) = o := by
  refine returns_require_bind.trans (and_congr ⟨fun hall => ?_, fun htable => ?_⟩ returns_pure)
  · exact hall _ (List.mem_append_right _ (List.mem_singleton.mpr rfl))
  · intro chunk hchunk
    rcases List.mem_append.mp hchunk with hchunk | hchunk
    · rcases List.mem_append.mp hchunk with harea | hheader
      · obtain ⟨a, ha, rfl⟩ := List.mem_map.mp harea
        have hin := of_decide_eq_true (List.all_eq_true.mp hfit a ha)
        have := h.payload_le
        have := h.payload_end
        exact ⟨by unfold areaRange; omega, by unfold areaRange; omega⟩
      · split at hheader
        · obtain rfl := List.mem_singleton.mp hheader
          exact h.inside (show 0 + 56 ≤ 0x4000 by decide)
        · cases hheader
    · obtain rfl := List.mem_singleton.mp hchunk
      exact htable

theorem signed_length_le (h : Placed m capsule hdr payload) : (signedAreas m hdr).length ≤ 682 := by
  have := h.offset_le
  have hareas : (capsuleAreas m hdr).length ≤ places m hdr := romAreas_length_le
  have hplaces : places m hdr ≤ 682 := by
    unfold places
    omega
  have hfilter : (signedAreas m hdr).length ≤ (capsuleAreas m hdr).length := List.length_filter_le _ _
  omega

theorem hashFwRomMapImage_returns (h : Placed m capsule hdr payload) {o : Option Digest} :
    (hashFwRomMapImage S m capsule hdr payload (romSize m hdr)).Returns o ↔
      HashSafe m capsule hdr ∧ digest S m hdr payload = o := by
  have hsigned := signed_length_le h
  have hentry : entryAt m hdr 0 = hdr + romLayoutOffset m hdr := rfl
  have hcount := countLoop_returns h (i := 0) (c := 0) (Nat.zero_add (places m hdr))
  have hcount : (Lib.Run.loop (countRound m capsule hdr (places m hdr)) (0, 0)).Returns
      ((capsuleAreas m hdr).length, (signedAreas m hdr).length) := by
    rw [Nat.zero_add, Nat.zero_add] at hcount
    exact hcount
  have haddr : (Lib.Run.loop (addrRound m capsule hdr payload (romSize m hdr) (capsuleAreas m hdr).length
      ((signedAreas m hdr).length + 2)) (0, [])).Returns
      (if areasFit m hdr then some ((capsuleAreas m hdr).length, (signedAreas m hdr).map (areaRange payload)) else none) :=
    addrLoop_returns h (Nat.zero_add (places m hdr)) (by omega)
      (show 0 + (signedAreas m hdr).length < (signedAreas m hdr).length + 2 by omega) (Nat.zero_add _).symm
  have hbind : (hashFwRomMapImage S m capsule hdr payload (romSize m hdr)).Returns o ↔
      (if areasFit m hdr then hashRest S m capsule hdr ((signedAreas m hdr).length + 2) (capsuleAreas m hdr).length
        ((signedAreas m hdr).map (areaRange payload)) else pure none).Returns o := by
    unfold hashFwRomMapImage
    rw [difference_bind, and_iff_right h.layout_le, returns_bind]
    constructor
    · intro ⟨counted, hcounted, hrest⟩
      cases hcounted.unique hcount
      obtain ⟨found, hfound, hrest⟩ := returns_bind.mp hrest
      cases hfound.unique haddr
      cases hfit : areasFit m hdr with
      | true =>
        rw [hfit, if_pos rfl] at hrest
        dsimp only at hrest
        rwa [List.length_map, if_neg (by omega)] at hrest
      | false =>
        rw [hfit, if_neg Bool.false_ne_true] at hrest
        exact hrest
    · intro hrest
      refine ⟨_, hcount, haddr.bind ?_⟩
      cases hfit : areasFit m hdr with
      | true =>
        rw [hfit, if_pos rfl] at hrest
        rw [if_pos rfl]
        dsimp only
        rwa [List.length_map, if_neg (by omega)]
      | false =>
        rw [hfit, if_neg Bool.false_ne_true] at hrest
        exact hrest
  rw [hbind]
  unfold HashSafe digest
  cases hfit : areasFit m hdr with
  | false =>
    rw [if_neg Bool.false_ne_true, if_neg Bool.false_ne_true, returns_pure]
    exact (and_iff_right fun hne => nomatch hne).symm
  | true =>
    rw [if_pos rfl, if_pos rfl]
    simp only [forall_const]
    rw [← hashRanges_returns h hfit]
    unfold hashRest hashedRanges
    rw [touch_inside (h.inside (by decide))]
    dsimp only
    cases hflag : (flags m hdr).testBit 1 with
    | true =>
      rw [if_pos rfl, if_pos rfl, setElem_bind (by rw [List.length_map]; omega) (by omega), List.length_map,
        if_neg (by omega), setElem_bind (by omega) (by omega), List.append_assoc]
      rfl
    | false =>
      rw [if_neg Bool.false_ne_true, if_neg Bool.false_ne_true, setElem_bind (by rw [List.length_map]; omega) (by omega),
        List.append_nil]
      rfl

end BayTrail.SecureFlash.Checked
