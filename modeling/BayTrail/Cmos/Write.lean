import BayTrail.Cmos.Register

/-!
# Token writes

What `cmosWrite` leaves, by the register of the token: one that is not checksummed, one that is,
and the two of the checksum, which are written with `CMOS_FORCE_NO_CHECKSUM`.
-/

namespace BayTrail.Cmos

variable {mgr : Mgr} {st st' : State} {r token : Nat} {value : BitVec 8}
  {writeSum : State → BitVec 16 → State}

/-! ## Tokens -/

theorem find_token (h : token ∈ mgr.tokenTable) :
    ∃ i, cmosFindToken mgr token = some i ∧ (mgr.tokenTable[i]?).getD 0 = token := by
  have hsome : (mgr.tokenTable.findIdx? (· = token)).isSome := by
    rw [List.findIdx?_isSome]
    exact List.any_eq_true.mpr ⟨token, h, decide_eq_true rfl⟩
  obtain ⟨i, hi⟩ := Option.isSome_iff_exists.mp hsome
  refine ⟨i, hi, ?_⟩
  obtain ⟨hlt, heq, -⟩ := List.findIdx?_eq_some_iff_getElem.mp hi
  rw [List.getElem?_eq_getElem hlt]
  exact of_decide_eq_true heq

theorem find_no_token (h : token ∉ mgr.tokenTable) : cmosFindToken mgr token = none := by
  unfold cmosFindToken
  rw [List.findIdx?_eq_none_iff]
  intro x hx
  exact decide_eq_false fun heq => h (heq ▸ hx)

theorem cmosWriteWith_token (hmin : minTokenValue ≤ token) (h : token ∈ mgr.tokenTable) :
    cmosWriteWith mgr writeSum st token value = cmosWriteEncodedToken mgr writeSum st token value := by
  obtain ⟨i, hfind, hget⟩ := find_token h
  unfold minTokenValue at hmin
  unfold cmosWriteWith minTokenValue
  rw [if_neg (by omega), if_neg (by omega), hfind]
  dsimp only
  rw [hget]

theorem cmosRead_token (hmin : minTokenValue ≤ token) (h : token ∈ mgr.tokenTable) :
    cmosRead mgr st token value =
      (.success, decodeParameter (cmosReadRegister mgr st (cmosAddress token) value) token) := by
  obtain ⟨i, hfind, hget⟩ := find_token h
  unfold minTokenValue at hmin
  unfold cmosRead minTokenValue
  rw [if_neg (by omega), if_neg (by omega), hfind]
  dsimp only
  rw [hget]

/-! ## One register -/

/-- The register is one that `CalculateUpdatedCheckSum` takes to be in the checksum. -/
def counted (mgr : Mgr) (address : Nat) : Bool :=
  !(address = searchTable address mgr.behindNoChecksumTable mgr.noChecksumTable ∨
    address = searchTable address mgr.behindUnmanagedTable mgr.unmanagedTable)

section WriteRegister

variable {store : State → BitVec 8 → State} {old bits parameter : BitVec 8}

theorem writeRegister_forced (hstore : ∀ st v, (store st v).status = st.status)
    (hforce : st.status .forceNoChecksum = true) :
    writeRegister mgr writeSum store old st r bits parameter
      = store st (old &&& ~~~ bits ||| parameter) := by
  simp [writeRegister, hforce, hstore]

theorem writeRegister_uncounted (hstore : ∀ st v, (store st v).status = st.status)
    (hforce : st.status .forceNoChecksum = false) (hcounted : counted mgr r = false) :
    writeRegister mgr writeSum store old st r bits parameter
      = store (st.clear .addressIsChecksummed) (old &&& ~~~ bits ||| parameter) := by
  have hsearch : r = searchTable r mgr.behindNoChecksumTable mgr.noChecksumTable ∨
      r = searchTable r mgr.behindUnmanagedTable mgr.unmanagedTable := by
    unfold counted at hcounted
    rwa [Bool.not_eq_false', decide_eq_true_iff] at hcounted
  simp [writeRegister, calculateUpdatedCheckSum, hforce, hstore, hsearch]

theorem writeRegister_counted (hstore : ∀ st v, (store st v).status = st.status)
    (hforce : st.status .forceNoChecksum = false) (hcounted : counted mgr r = true) :
    writeRegister mgr writeSum store old st r bits parameter =
      (writeSum ((store (st.set .addressIsChecksummed) (old &&& ~~~ bits ||| parameter)).set
          .forceNoChecksum)
        (readChecksum mgr st 0 - old.setWidth 16
          + (old &&& ~~~ bits ||| parameter).setWidth 16)).clear .forceNoChecksum := by
  have hsearch : ¬ (r = searchTable r mgr.behindNoChecksumTable mgr.noChecksumTable ∨
      r = searchTable r mgr.behindUnmanagedTable mgr.unmanagedTable) := by
    unfold counted at hcounted
    rwa [Bool.not_eq_true', decide_eq_false_iff_not] at hcounted
  simp [writeRegister, calculateUpdatedCheckSum, hforce, hstore, hsearch]

end WriteRegister

theorem storeAt_status (v : BitVec 8) (l : Option Location) : (storeAt v st l).status = st.status := by
  cases l with
  | none => rfl
  | some l => exact store_status l v

/-! ## The checksum -/

/-- The checksum's two tokens are of eight bits each, in registers of their own. -/
structure ChecksumTokens (mgr : Mgr) : Prop where
  low_mem : mgr.cmosChecksumLow ∈ mgr.tokenTable
  high_mem : mgr.cmosChecksumHigh ∈ mgr.tokenTable
  low_size : size mgr.cmosChecksumLow = 8
  high_size : size mgr.cmosChecksumHigh = 8
  low_offset : bitOffset mgr.cmosChecksumLow = 0
  high_offset : bitOffset mgr.cmosChecksumHigh = 0
  ne : cmosAddress mgr.cmosChecksumLow ≠ cmosAddress mgr.cmosChecksumHigh

/-- Accesses of either kind end at the place, without an error. -/
structure At (mgr : Mgr) (st : State) (r : Nat) (l : Location) : Prop where
  reads : location mgr st .readType r = some l
  writes : location mgr st .writeType r = some l

variable {l low high : Location}

theorem At.congr (h : At mgr st r l) (hloc : location mgr st' = location mgr st) :
    At mgr st' r l := ⟨hloc ▸ h.reads, hloc ▸ h.writes⟩

/-- Where the two bytes of the checksum are. -/
structure ChecksumAt (mgr : Mgr) (st : State) (low high : Location) : Prop where
  atLow : At mgr st (cmosAddress mgr.cmosChecksumLow) low
  atHigh : At mgr st (cmosAddress mgr.cmosChecksumHigh) high
  ne : low ≠ high

theorem ChecksumAt.congr (h : ChecksumAt mgr st low high)
    (hloc : location mgr st' = location mgr st) : ChecksumAt mgr st' low high :=
  ⟨h.atLow.congr hloc, h.atHigh.congr hloc, h.ne⟩

theorem minTokenValue_le (h : size token = 8) : minTokenValue ≤ token := by
  unfold size at h
  unfold minTokenValue
  omega

theorem sizeMask_byte (h : size token = 8) : sizeMask token = 0xff#8 := by
  unfold sizeMask
  rw [h]
  rfl

theorem and_byte (v : BitVec 8) : v &&& 0xff#8 = v := BitVec.and_allOnes

theorem decode_byte (hsize : size token = 8) (hoffset : bitOffset token = 0) (v : BitVec 8) :
    decodeParameter v token = v := by
  unfold decodeParameter
  rw [sizeMask_byte hsize, hoffset, BitVec.ushiftRight_zero, and_byte]

/-- A write to a token of a whole byte, when it does not come to the checksum. -/
theorem write_byte_forced (hmem : token ∈ mgr.tokenTable) (hsize : size token = 8)
    (hoffset : bitOffset token = 0) (hl : At mgr st (cmosAddress token) l)
    (hforce : st.status .forceNoChecksum = true) (v : BitVec 8) :
    (cmosWriteWith mgr writeSum st token v).2 = st.store v l := by
  have hoverflow : bitFieldOverflow v token = false := by
    unfold bitFieldOverflow
    rw [sizeMask_byte hsize]
    simp
  have hstore : ∀ st v, (storeAt v st (some l)).status = st.status := fun st v => store_status l v
  rw [cmosWriteWith_token (minTokenValue_le hsize) hmem]
  unfold cmosWriteEncodedToken setClobberBits encodeParameter
  rw [hoverflow, if_neg Bool.false_ne_true, hoffset, sizeMask_byte hsize]
  obtain ⟨hnone, -⟩ | ⟨old, -, hrun⟩ := cmosWriteRegister_cases mgr st (cmosAddress token) writeSum
    (0xff#8 <<< 0) (v <<< 0)
  · exact absurd (hnone.symm.trans hl.writes) nofun
  · rw [hrun, hl.writes, writeRegister_forced hstore hforce]
    simp [storeAt]

theorem readChecksum_eq (hsum : ChecksumTokens mgr)
    (hat : ChecksumAt mgr st low high) (x : BitVec 16) :
    readChecksum mgr st x = (st.get high).setWidth 16 <<< 8 ||| (st.get low).setWidth 16 := by
  unfold readChecksum
  rw [cmosRead_token (minTokenValue_le hsum.high_size) hsum.high_mem,
    cmosRead_token (minTokenValue_le hsum.low_size) hsum.low_mem]
  dsimp only
  rw [decode_byte hsum.high_size hsum.high_offset, decode_byte hsum.low_size hsum.low_offset,
    cmosReadRegister_eq hat.atHigh.reads, cmosReadRegister_eq hat.atLow.reads]

theorem writeChecksum_eq (hsum : ChecksumTokens mgr)
    (hat : ChecksumAt mgr st low high) (c : BitVec 16) :
    writeChecksum mgr st c =
      (((st.set .forceNoChecksum).store (c.setWidth 8) low).store ((c >>> 8).setWidth 8) high).clear
        .forceNoChecksum := by
  have hset : ChecksumAt mgr (st.set .forceNoChecksum) low high :=
    hat.congr (location_set (Or.inl rfl))
  unfold writeChecksum
  dsimp only
  rw [write_byte_forced hsum.low_mem hsum.low_size hsum.low_offset hset.atLow (by simp),
    write_byte_forced hsum.high_mem hsum.high_size hsum.high_offset
      (hset.atHigh.congr (location_store ..)) (by simp)]

/-! ## One write -/

/-- The value that a write leaves in a register. -/
def newValue (old : BitVec 8) (token : Nat) (value : BitVec 8) : BitVec 8 :=
  old &&& ~~~ setClobberBits token ||| encodeParameter value token

/-- The checksum after a byte has been replaced. -/
def updatedSum (mgr : Mgr) (st : State) (old new : BitVec 8) : BitVec 16 :=
  readChecksum mgr st 0 - old.setWidth 16 + new.setWidth 16

/-- A write to a register that is not checksummed leaves everything but that register. -/
theorem write_uncounted (hmin : minTokenValue ≤ token) (hmem : token ∈ mgr.tokenTable)
    (hforce : st.status .forceNoChecksum = false) (hcounted : counted mgr (cmosAddress token) = false)
    (hfits : bitFieldOverflow value token = false) :
    ∃ st', cmosWrite mgr st token value = (.success, st') ∧ Routed st st' ∧
      (∀ l, location mgr st .writeType (cmosAddress token) ≠ some l → st'.get l = st.get l) ∧
      (∀ l, At mgr st (cmosAddress token) l →
        st'.get l = newValue (st.get l) token value) := by
  unfold cmosWrite
  rw [cmosWriteWith_token hmin hmem]
  unfold cmosWriteEncodedToken
  rw [hfits, if_neg Bool.false_ne_true]
  obtain ⟨hnone, hrun⟩ | ⟨old, hold, hrun⟩ := cmosWriteRegister_cases mgr st (cmosAddress token)
    (writeChecksum mgr) (setClobberBits token) (encodeParameter value token)
  · refine ⟨_, rfl, hrun.symm ▸ Routed.refl st, fun l _ => by rw [hrun], fun l hl => ?_⟩
    exact absurd (hnone.symm.trans hl.writes) nofun
  · rw [writeRegister_uncounted (fun st v => storeAt_status v _) hforce hcounted] at hrun
    refine ⟨_, rfl, ?_⟩
    rw [hrun]
    refine ⟨?_, fun l hl => ?_, fun l hl => ?_⟩
    · constructor <;> rw [storeAt_status] <;> rfl
    · cases hw : location mgr st .writeType (cmosAddress token) with
      | none => exact get_clear l
      | some l' =>
        show (State.store _ _ l').get l = _
        rw [get_store, if_neg (fun heq : l = l' => hl (by rw [hw, heq])), get_clear]
    · rw [hl.writes]
      show (State.store _ _ l).get l = _
      rw [get_store, if_pos rfl, hold l hl.reads]
      rfl

/-- A write to a register that is checksummed brings the checksum up to date. -/
theorem write_counted (hsum : ChecksumTokens mgr)
    (hat : ChecksumAt mgr st low high) (hmin : minTokenValue ≤ token)
    (hmem : token ∈ mgr.tokenTable) (hforce : st.status .forceNoChecksum = false)
    (hcounted : counted mgr (cmosAddress token) = true) (hl : At mgr st (cmosAddress token) l)
    (hfits : bitFieldOverflow value token = false) :
    ∃ st', cmosWrite mgr st token value = (.success, st') ∧ Routed st st' ∧
      ∀ l', st'.get l' =
        if l' = high then (updatedSum mgr st (st.get l) (newValue (st.get l) token value) >>> 8).setWidth 8
        else if l' = low then (updatedSum mgr st (st.get l) (newValue (st.get l) token value)).setWidth 8
        else if l' = l then newValue (st.get l) token value else st.get l' := by
  unfold cmosWrite
  rw [cmosWriteWith_token hmin hmem]
  unfold cmosWriteEncodedToken
  rw [hfits, if_neg Bool.false_ne_true]
  obtain ⟨hnone, -⟩ | ⟨old, hold, hrun⟩ := cmosWriteRegister_cases mgr st (cmosAddress token)
    (writeChecksum mgr) (setClobberBits token) (encodeParameter value token)
  · exact absurd (hnone.symm.trans hl.writes) nofun
  · rw [writeRegister_counted (fun st v => storeAt_status v _) hforce hcounted, hl.writes,
      hold l hl.reads] at hrun
    have hat' : ChecksumAt mgr (((st.set .addressIsChecksummed).store
        (newValue (st.get l) token value) l).set .forceNoChecksum) low high := by
      refine hat.congr ?_
      rw [location_set (Or.inl rfl), location_store, location_set (Or.inr rfl)]
    change _ = (writeChecksum mgr (((st.set .addressIsChecksummed).store
      (newValue (st.get l) token value) l).set .forceNoChecksum)
      (updatedSum mgr st (st.get l) (newValue (st.get l) token value))).clear _ at hrun
    rw [writeChecksum_eq hsum hat'] at hrun
    refine ⟨_, rfl, ?_⟩
    rw [hrun]
    refine ⟨?_, fun l' => ?_⟩
    · constructor <;> simp [hforce]
    · rw [get_clear, get_clear, get_store, get_store, get_set, get_set, get_store, get_set]

end BayTrail.Cmos
