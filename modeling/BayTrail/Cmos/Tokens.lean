import BayTrail.Cmos.Write

/-!
# Tokens as variables

A token keeps the value of its last write, whatever is written to other tokens; the two of the
checksum apart, which change with the others.
-/

namespace BayTrail.Cmos

variable {mgr : Mgr} {st st' : State} {token other : Nat} {value old : BitVec 8}

/-! ## Bits of a register -/

/-- The bits of a token are in one register. -/
def InRegister (token : Nat) : Prop := 0 < size token ∧ bitOffset token + size token ≤ 8

theorem getLsbD_sizeMask (h : InRegister token) (i : Nat) :
    (sizeMask token).getLsbD i = decide (i < size token) := by
  unfold sizeMask
  rw [BitVec.getLsbD_ushiftRight, show (0xff#8) = BitVec.allOnes 8 from rfl, BitVec.getLsbD_allOnes]
  have := h.2
  apply decide_eq_decide.mpr
  omega

theorem getLsbD_of_fits (h : InRegister token) (hfits : bitFieldOverflow value token = false) (i : Nat)
    (hi : size token ≤ i) : value.getLsbD i = false := by
  have hzero : value &&& ~~~ sizeMask token = 0 := by simpa [bitFieldOverflow] using hfits
  by_cases h8 : i < 8
  · have hbit : (value &&& ~~~ sizeMask token).getLsbD i = false := by
      rw [hzero]
      exact BitVec.getLsbD_zero
    rw [BitVec.getLsbD_and, BitVec.getLsbD_not, getLsbD_sizeMask h,
      decide_eq_false (Nat.not_lt.mpr hi)] at hbit
    simpa [h8] using hbit
  · exact BitVec.getLsbD_of_ge value i (Nat.not_lt.mp h8)

/-- The bits of the token are those of the value, and the others are those of before. -/
theorem getLsbD_newValue (h : InRegister token) (hfits : bitFieldOverflow value token = false)
    {i : Nat} (hi : i < 8) :
    (newValue old token value).getLsbD i =
      if bitOffset token ≤ i ∧ i < bitOffset token + size token then
        value.getLsbD (i - bitOffset token)
      else old.getLsbD i := by
  unfold newValue setClobberBits encodeParameter
  rw [BitVec.getLsbD_or, BitVec.getLsbD_and, BitVec.getLsbD_not, BitVec.getLsbD_shiftLeft,
    BitVec.getLsbD_shiftLeft, getLsbD_sizeMask h]
  by_cases hlow : bitOffset token ≤ i
  · by_cases hhigh : i < bitOffset token + size token
    · have hin : i - bitOffset token < size token := by omega
      simp [hi, hlow, hhigh, hin, Nat.not_lt.mpr hlow]
    · have hout : value.getLsbD (i - bitOffset token) = false :=
        getLsbD_of_fits h hfits _ (by omega)
      have hin : ¬ i - bitOffset token < size token := by omega
      simp [hi, hhigh, hin, hout]
  · have hlow' : i < bitOffset token := Nat.not_le.mp hlow
    simp [hi, hlow, hlow']

theorem getLsbD_decode (h : InRegister token) (v : BitVec 8) (i : Nat) :
    (decodeParameter v token).getLsbD i =
      (decide (i < size token) && v.getLsbD (bitOffset token + i)) := by
  unfold decodeParameter
  rw [BitVec.getLsbD_and, BitVec.getLsbD_ushiftRight, getLsbD_sizeMask h, Bool.and_comm]

/-- What has been written is read. -/
theorem decode_newValue (h : InRegister token) (hfits : bitFieldOverflow value token = false) :
    decodeParameter (newValue old token value) token = value := by
  apply BitVec.eq_of_getLsbD_eq
  intro i _
  rw [getLsbD_decode h]
  by_cases hi : i < size token
  · have hlt : bitOffset token + i < 8 := by have := h.2; omega
    rw [decide_eq_true hi, Bool.true_and, getLsbD_newValue h hfits hlt, if_pos (by omega),
      Nat.add_sub_cancel_left]
  · rw [decide_eq_false hi, Bool.false_and, getLsbD_of_fits h hfits i (Nat.not_lt.mp hi)]

/-- The bits of two tokens of one register do not overlap. -/
def Disjoint (token other : Nat) : Prop :=
  cmosAddress token = cmosAddress other →
    bitOffset token + size token ≤ bitOffset other ∨ bitOffset other + size other ≤ bitOffset token

/-- Another token of the register is read as before. -/
theorem decode_other (h : InRegister token) (hother : InRegister other)
    (hfits : bitFieldOverflow value token = false)
    (hdisjoint : bitOffset token + size token ≤ bitOffset other ∨
      bitOffset other + size other ≤ bitOffset token) :
    decodeParameter (newValue old token value) other = decodeParameter old other := by
  apply BitVec.eq_of_getLsbD_eq
  intro i _
  rw [getLsbD_decode hother, getLsbD_decode hother]
  by_cases hi : i < size other
  · have hlt : bitOffset other + i < 8 := by have := hother.2; omega
    rw [getLsbD_newValue h hfits hlt, if_neg (by omega)]
  · rw [decide_eq_false hi, Bool.false_and, Bool.false_and]

/-! ## Tables -/

/-- The tokens of the table are in registers that are reached, each at a place of its own, and
do not overlap. -/
structure Tokens (mgr : Mgr) (st : State) : Prop where
  inRegister : ∀ token ∈ mgr.tokenTable, InRegister token
  disjoint : ∀ token ∈ mgr.tokenTable, ∀ other ∈ mgr.tokenTable, token ≠ other → Disjoint token other
  reached : ∀ token ∈ mgr.tokenTable, ∃ l, At mgr st (cmosAddress token) l
  distinct : ∀ token ∈ mgr.tokenTable, ∀ other ∈ mgr.tokenTable, ∀ l,
    At mgr st (cmosAddress token) l → At mgr st (cmosAddress other) l →
    cmosAddress token = cmosAddress other
  checksum : ChecksumTokens mgr
  forceNoChecksum : st.status .forceNoChecksum = false

theorem Tokens.congr (h : Tokens mgr st) (hrouted : Routed st st') : Tokens mgr st' := by
  have hloc : location mgr st' = location mgr st := hrouted.location
  have hback : ∀ {r l}, At mgr st' r l → At mgr st r l := fun hl => hl.congr hloc.symm
  constructor
  · exact h.inRegister
  · exact h.disjoint
  · intro token htoken
    obtain ⟨l, hl⟩ := h.reached token htoken
    exact ⟨l, hl.congr hloc⟩
  · intro token htoken other hother l hl hl'
    exact h.distinct token htoken other hother l (hback hl) (hback hl')
  · exact h.checksum
  · exact hrouted.forceNoChecksum.trans h.forceNoChecksum

theorem InRegister.minTokenValue_le (h : InRegister token) : minTokenValue ≤ token := by
  have := h.1
  unfold size at this
  unfold minTokenValue
  omega

theorem Tokens.checksumAt (h : Tokens mgr st) : ∃ low high, ChecksumAt mgr st low high := by
  obtain ⟨low, hlow⟩ := h.reached _ h.checksum.low_mem
  obtain ⟨high, hhigh⟩ := h.reached _ h.checksum.high_mem
  refine ⟨low, high, hlow, hhigh, ?_⟩
  rintro rfl
  exact h.checksum.ne (h.distinct _ h.checksum.low_mem _ h.checksum.high_mem low hlow hhigh)

/-- The token is not in one of the two registers of the checksum. -/
def Plain (mgr : Mgr) (token : Nat) : Prop :=
  cmosAddress token ≠ cmosAddress mgr.cmosChecksumLow ∧
  cmosAddress token ≠ cmosAddress mgr.cmosChecksumHigh

/-- The value that a token has. -/
def tokenValue (mgr : Mgr) (st : State) (token : Nat) : BitVec 8 :=
  decodeParameter (cmosReadRegister mgr st (cmosAddress token) 0) token

theorem Tokens.read (h : Tokens mgr st) (htoken : token ∈ mgr.tokenTable) (x : BitVec 8) :
    cmosRead mgr st token x = (.success, tokenValue mgr st token) := by
  obtain ⟨l, hl⟩ := h.reached token htoken
  rw [cmosRead_token (h.inRegister token htoken).minTokenValue_le htoken, tokenValue,
    cmosReadRegister_eq hl.reads, cmosReadRegister_eq hl.reads]

/-- A write that is not refused sets the token, and leaves the others. -/
theorem Tokens.write (h : Tokens mgr st) (htoken : token ∈ mgr.tokenTable) (hplain : Plain mgr token)
    (hfits : bitFieldOverflow value token = false) :
    ∃ st', cmosWrite mgr st token value = (.success, st') ∧ Routed st st' ∧
      ∀ other ∈ mgr.tokenTable, Plain mgr other →
        tokenValue mgr st' other = if other = token then value else tokenValue mgr st other := by
  obtain ⟨l, hl⟩ := h.reached token htoken
  obtain ⟨low, high, hat⟩ := h.checksumAt
  have hmin := (h.inRegister token htoken).minTokenValue_le
  -- of a plain token's register only the bits of the token change
  obtain ⟨st', hrun, hrouted, hget⟩ : ∃ st', cmosWrite mgr st token value = (.success, st') ∧
      Routed st st' ∧ ∀ other ∈ mgr.tokenTable, Plain mgr other → ∀ l',
        At mgr st (cmosAddress other) l' →
        st'.get l' = if l' = l then newValue (st.get l) token value else st.get l' := by
    cases hcounted : counted mgr (cmosAddress token)
    · obtain ⟨st', hrun, hrouted, hne, heq⟩ :=
        write_uncounted hmin htoken h.forceNoChecksum hcounted hfits
      refine ⟨st', hrun, hrouted, fun other _ _ l' hl' => ?_⟩
      by_cases hll : l' = l
      · rw [if_pos hll, hll]
        exact heq l hl
      · rw [if_neg hll]
        exact hne l' fun hw => hll (Option.some.inj (hw.symm.trans hl.writes))
    · obtain ⟨st', hrun, hrouted, hget⟩ :=
        write_counted h.checksum hat hmin htoken h.forceNoChecksum hcounted hl hfits
      refine ⟨st', hrun, hrouted, fun other hother hplain' l' hl' => ?_⟩
      have hlow : l' ≠ low := by
        rintro rfl
        exact hplain'.1 (h.distinct _ hother _ h.checksum.low_mem l' hl' hat.atLow)
      have hhigh : l' ≠ high := by
        rintro rfl
        exact hplain'.2 (h.distinct _ hother _ h.checksum.high_mem l' hl' hat.atHigh)
      rw [hget, if_neg hhigh, if_neg hlow]
  refine ⟨st', hrun, hrouted, fun other hother hplain' => ?_⟩
  obtain ⟨l', hl'⟩ := h.reached other hother
  have hloc : location mgr st' = location mgr st := hrouted.location
  unfold tokenValue
  rw [cmosReadRegister_eq (hl'.congr hloc).reads, cmosReadRegister_eq hl'.reads,
    hget other hother hplain' l' hl']
  by_cases heq : other = token
  · subst heq
    obtain rfl : l' = l := Option.some.inj (hl'.reads.symm.trans hl.reads)
    rw [if_pos rfl, if_pos rfl]
    exact decode_newValue (h.inRegister other hother) hfits
  · rw [if_neg heq]
    by_cases hll : l' = l
    · subst hll
      have haddress := h.distinct token htoken other hother l' hl hl'
      rw [if_pos rfl]
      exact decode_other (h.inRegister token htoken) (h.inRegister other hother) hfits
        (h.disjoint token htoken other hother (fun hh => heq hh.symm) haddress)
    · rw [if_neg hll]

/-! ## Runs -/

/-- The write is to a plain token, or to no token, or to a register by its number that is not
one of a token. -/
def WriteOk (mgr : Mgr) (st : State) (cmosToken : Nat) : Prop :=
  if minTokenValue ≤ cmosToken then cmosToken ∈ mgr.tokenTable → Plain mgr cmosToken
  else ∀ cell, cmosBank .writeType cmosToken mgr.cmosBank = some cell →
    ∀ token ∈ mgr.tokenTable, ¬ At mgr st (cmosAddress token) (.register cell)

/-- States that writes lead to, with the value of the last successful write to each token, or the
value it had at the start. -/
inductive Run (Ok : Mgr → State → Nat → Prop) (mgr : Mgr) (st₀ : State) :
    State → (Nat → BitVec 8) → Prop
  | start : Run Ok mgr st₀ st₀ (tokenValue mgr st₀)
  | write {st : State} {last : Nat → BitVec 8} (cmosToken : Nat) (value : BitVec 8)
      (hrun : Run Ok mgr st₀ st last) (hok : Ok mgr st cmosToken) :
      Run Ok mgr st₀ (cmosWrite mgr st cmosToken value).2
        (if (cmosWrite mgr st cmosToken value).1 = .success then
          fun token => if token = cmosToken then value else last token
        else last)

/-- Writes to a register by its number do nothing, or change the register. -/
theorem write_number (hmin : ¬ minTokenValue ≤ token) :
    (cmosWrite mgr st token value).2 = st ∨
    ∃ cell, cmosBank .writeType token mgr.cmosBank = some cell ∧
      (cmosWrite mgr st token value).2 = st.store value (.register cell) := by
  have hlt : token < minTokenValue := Nat.not_le.mp hmin
  unfold cmosWrite cmosWriteWith
  rw [if_pos hlt]
  cases hbank : cmosBank .writeType token mgr.cmosBank with
  | none =>
    left
    split_ifs <;> rfl
  | some cell =>
    split_ifs
    · exact Or.inr ⟨cell, rfl, rfl⟩
    · exact Or.inl rfl
    · exact Or.inl rfl
    · exact Or.inr ⟨cell, rfl, rfl⟩

theorem Tokens.write_number (h : Tokens mgr st) (hmin : ¬ minTokenValue ≤ token) (value : BitVec 8)
    (hok : ∀ cell, cmosBank .writeType token mgr.cmosBank = some cell →
      ∀ token ∈ mgr.tokenTable, ¬ At mgr st (cmosAddress token) (.register cell)) :
    Routed st (cmosWrite mgr st token value).2 ∧ ∀ other ∈ mgr.tokenTable,
      tokenValue mgr (cmosWrite mgr st token value).2 other = tokenValue mgr st other := by
  obtain heq | ⟨cell, hcell, heq⟩ := @Cmos.write_number mgr st token value hmin
  · rw [heq]
    exact ⟨Routed.refl st, fun _ _ => rfl⟩
  · rw [heq]
    refine ⟨⟨rfl, rfl, rfl, rfl⟩, fun other hother => ?_⟩
    obtain ⟨l, hl⟩ := h.reached other hother
    have hl' : At mgr (st.store value (.register cell)) (cmosAddress other) l :=
      hl.congr (location_store ..)
    unfold tokenValue
    rw [cmosReadRegister_eq hl'.reads, cmosReadRegister_eq hl.reads, get_store, if_neg]
    rintro rfl
    exact hok cell hcell other hother hl

theorem write_refused (hmin : minTokenValue ≤ token) (h : token ∈ mgr.tokenTable)
    (hoverflow : bitFieldOverflow value token = true) :
    cmosWrite mgr st token value = (.invalidParameter, st) := by
  unfold cmosWrite
  rw [cmosWriteWith_token hmin h, cmosWriteEncodedToken, if_pos hoverflow]

theorem write_unknown (hmin : minTokenValue ≤ token) (h : token ∉ mgr.tokenTable) :
    cmosWrite mgr st token value = (.invalidParameter, st) := by
  unfold minTokenValue at hmin
  unfold cmosWrite cmosWriteWith minTokenValue
  rw [if_neg (by omega), if_neg (by omega), find_no_token h]

theorem Run.values {st₀ : State} {last : Nat → BitVec 8} (h₀ : Tokens mgr st₀)
    (h : Run WriteOk mgr st₀ st last) :
    Tokens mgr st ∧ ∀ token ∈ mgr.tokenTable, Plain mgr token → tokenValue mgr st token = last token := by
  induction h with
  | start => exact ⟨h₀, fun _ _ _ => rfl⟩
  | write cmosToken value hrun hok ih =>
    obtain ⟨h, hvalues⟩ := ih
    unfold WriteOk at hok
    by_cases hmin : minTokenValue ≤ cmosToken
    · rw [if_pos hmin] at hok
      by_cases hmem : cmosToken ∈ mgr.tokenTable
      · cases hfits : bitFieldOverflow value cmosToken
        · obtain ⟨st', heq, hrouted, hnew⟩ := h.write hmem (hok hmem) hfits
          rw [heq]
          refine ⟨h.congr hrouted, fun token htoken hplain => ?_⟩
          rw [hnew token htoken hplain, if_pos rfl]
          split
          · rfl
          · exact hvalues token htoken hplain
        · rw [write_refused hmin hmem hfits]
          exact ⟨h, hvalues⟩
      · rw [write_unknown hmin hmem]
        exact ⟨h, hvalues⟩
    · rw [if_neg hmin] at hok
      have hne : ∀ token ∈ mgr.tokenTable, token ≠ cmosToken := by
        rintro token htoken rfl
        exact hmin (h.inRegister token htoken).minTokenValue_le
      obtain ⟨hrouted, hsame⟩ := h.write_number hmin value hok
      refine ⟨h.congr hrouted, fun token htoken hplain => ?_⟩
      rw [hsame token htoken, hvalues token htoken hplain]
      split
      · exact (if_neg (hne token htoken)).symm
      · rfl

/-- A token owns its bits: reads return the last value written, and values that do
not fit are refused. -/
structure Variables (mgr : Mgr) (st : State) (last : Nat → BitVec 8) : Prop where
  read : ∀ token ∈ mgr.tokenTable, Plain mgr token → ∀ x,
    cmosRead mgr st token x = (.success, last token)
  write : ∀ token ∈ mgr.tokenTable, Plain mgr token → ∀ value,
    bitFieldOverflow value token = false → (cmosWrite mgr st token value).1 = .success
  refused : ∀ token ∈ mgr.tokenTable, ∀ value, bitFieldOverflow value token = true →
    cmosWrite mgr st token value = (.invalidParameter, st)

theorem variables_of_run {st₀ : State} {last : Nat → BitVec 8} (h₀ : Tokens mgr st₀)
    (h : Run WriteOk mgr st₀ st last) : Variables mgr st last := by
  obtain ⟨htokens, hvalues⟩ := h.values h₀
  constructor
  · intro token htoken hplain x
    rw [htokens.read htoken, hvalues token htoken hplain]
  · intro token htoken hplain value hfits
    obtain ⟨st', heq, -, -⟩ := htokens.write htoken hplain hfits
    rw [heq]
  · intro token htoken value hoverflow
    exact write_refused (htokens.inRegister token htoken).minTokenValue_le htoken hoverflow

/-! ## A board -/

/-- The checksum at 0x40, a register of two tokens at 0x46, and the bits of the manager's status
at 0x47. -/
def sampleMgr : Mgr where
  cmosBank := [⟨0, 0, 0, 127, some readWriteStandardRange⟩]
  tokenTable := [0x8200, 0x8208, 0x1230, 0x3231, 0x1238, 0x1239, 0x123A, 0x123B]
  noChecksumTable := [0x40, 0x41]
  behindNoChecksumTable := 6
  unmanagedTable := [0x42, 0x43, 0x44, 0x45, 0x47]
  behindUnmanagedTable := 0
  firstCmosRegister := 0x40
  lastCmosRegister := 0x47
  firstManagedCmosAddress := 0x40
  maxManagedCmosAddress := 128
  cmosChecksumLow := 0x8208
  cmosChecksumHigh := 0x8200
  cmosMgrBatteryBad := 0x1238
  cmosMgrChecksumBad := 0x1239
  cmosMgrDefaultsLoaded := 0x123A
  cmosMgrFirstBootDetected := 0x123B
  isDxePhase := true
  unset := fun _ => 0

def sampleState : State := ⟨(· = .isUsable), fun _ => 0, fun _ => 0⟩

variable {banks : List Bank} {r : Nat}

/-- The registers of the standard range are where they are. -/
theorem standard_at (hbanks : mgr.cmosBank = ⟨0, 0, 0, 127, some readWriteStandardRange⟩ :: banks)
    (hphysical : st.status .optimalDefaultsEnabled = false) (h : r ≤ 127) :
    At mgr st r (.register (0x7000 + r)) := by
  have hlocation : ∀ type, location mgr st type r = some (.register (0x7000 + r)) := by
    intro type
    have hbuffer : useBufferAccess mgr st r = false := by
      unfold useBufferAccess
      rw [hphysical, Bool.false_and]
    unfold location
    rw [hbuffer, if_neg Bool.false_ne_true, hbanks, cmosBank, if_pos ⟨Nat.zero_le r, h⟩]
    show (if 0x7f < r then none else some _).map _ = _
    rw [if_neg (Nat.not_lt.mpr h)]
    rfl
  exact ⟨hlocation _, hlocation _⟩

theorem standard_distinct {r' : Nat} {l : Location}
    (hbanks : mgr.cmosBank = ⟨0, 0, 0, 127, some readWriteStandardRange⟩ :: banks)
    (hphysical : st.status .optimalDefaultsEnabled = false) (h : r ≤ 127) (h' : r' ≤ 127)
    (hl : At mgr st r l) (hl' : At mgr st r' l) : r = r' := by
  have hr := hl.reads.symm.trans (standard_at hbanks hphysical h).reads
  have hr' := hl'.reads.symm.trans (standard_at hbanks hphysical h').reads
  have := Location.register.inj (Option.some.inj (hr.symm.trans hr'))
  omega

theorem sample_address : ∀ token ∈ sampleMgr.tokenTable, cmosAddress token ≤ 127 := by decide

theorem tokens_sample : Tokens sampleMgr sampleState where
  inRegister := by unfold InRegister; decide
  disjoint := by unfold Disjoint; decide
  reached := fun token htoken => ⟨_, standard_at rfl rfl (sample_address token htoken)⟩
  distinct := fun token htoken other hother l hl hl' =>
    standard_distinct rfl rfl (sample_address token htoken) (sample_address other hother) hl hl'
  checksum := ⟨by decide, by decide, by decide, by decide, by decide, by decide, by decide⟩
  forceNoChecksum := rfl

/-- Two tokens of one register are written. -/
theorem variables_sample :
    Variables sampleMgr
      (cmosWrite sampleMgr (cmosWrite sampleMgr sampleState 0x3231 5).2 0x1230 1).2
      (fun token => if token = 0x1230 then 1 else if token = 0x3231 then 5 else
        tokenValue sampleMgr sampleState token) := by
  have hfirst := Run.write 0x3231 5 (@Run.start WriteOk sampleMgr sampleState)
    (fun _ => by unfold Plain; decide)
  exact variables_of_run tokens_sample (Run.write 0x1230 1 hfirst (fun _ => by unfold Plain; decide))

/-- Writing a token writes the checksum, whose bytes are tokens too. -/
theorem not_variables :
    ¬ ∀ mgr st₀ st last, Tokens mgr st₀ →
      Run (fun mgr _ token => token ∈ mgr.tokenTable) mgr st₀ st last →
      ∀ token ∈ mgr.tokenTable, ∀ x, cmosRead mgr st token x = (.success, last token) := by
  intro h
  have hrun := Run.write 0x3231 5
    (@Run.start (fun mgr _ token => token ∈ mgr.tokenTable) sampleMgr sampleState) (by decide)
  have := h sampleMgr sampleState _ _ tokens_sample hrun 0x8208 (by decide) 0
  exact absurd this (by decide)

end BayTrail.Cmos
