import BayTrail.Nvram.Write

/-!
# The NVRAM store: adding a record

`CreateVariableEx` and `UpdateVariable` both add one record at the end of the
log. `RecordBlock` says what such a block of calls does when all of it takes
effect and when it is cut, and `Appended s s' r` is what an added record means
for the store. The outcome of `CreateVariableEx` is then one of three: nothing
happened, a broken record was added, or the new header record was.
-/

namespace BayTrail.Nvram

open BayTrail.Lib

/-- The flash that a record of `n` bytes at the end of the log will occupy is erased,
and so is a record header behind it. -/
def Clear (s : StoreInfo) (n : Nat) : Prop :=
  ∀ a, s.pEndOfVars ≤ a → a < s.pEndOfVars + n + sizeofNvar → s.mem a = flashEmptyByte

theorem clear_of_erased {s : StoreInfo} {n : Nat}
    (h : ∀ i < n + sizeofNvar, s.mem (s.pEndOfVars + i) = flashEmptyByte) : Clear s n := by
  intro a h1 h2
  rw [← Nat.add_sub_cancel' h1]
  exact h _ (by omega)

/-- A block of calls that programs the record `r` at `e`; the calls in `slot` go
to the GUID table. -/
structure RecordBlock (m : Mem) (e : Nat) (r : Raw) (slot steps : List Step) : Prop where
  done : Holds (applySteps m steps) e r.bytes
  cut : ∀ k, 1 ≤ k → k < steps.length →
    Holds (applySteps m (steps.take k)) e (nvarHeader r.size r.flags)
  within : ∀ st ∈ steps, (e ≤ st.addr ∧ st.addr + st.data.length ≤ e + r.size) ∨ st ∈ slot
  pFail : ∀ st ∈ steps, e + 10 ≤ st.pFail
  first : steps.head?.map Step.pFail = some (e + 10)

section

variable {cfg : Config} {e : Nat} {pre : Bytes} {flags attr ef : UInt8} {auth : Bool}
  {mc : Bytes} {rest : List Bytes} {slot body : List Step} {size extSize : Nat} {m : Mem}

theorem record_block (hmc : mc.length = 8) (hrest : rest.length ≤ 1)
    (hx : extSize = extTailSize (authFieldsOf auth attr (mc :: rest)) cfg.checksum)
    (hsize : size = sizeofNvar + (pre.length + extSize)) (hs : size < 65536)
    (hef : ef = (if auth then attr else 0) ||| bit cfg.checksum extFlagChecksum)
    (hflag : (flags &&& flagExtHeder != 0) = (auth || cfg.checksum))
    (hbody : Writes (e + 10) pre body) (hin : Within body (e + 10) pre.length)
    (hslot : ∀ st ∈ slot, e + size ≤ st.addr) (hpf : ∀ st ∈ slot ++ body, e + 10 ≤ st.pFail)
    (hgap : cfg.checksum = true → m (e + size - 3) = flashEmptyByte) :
    let head := ⟨e, nvarHeader size flags, e + 10⟩ :: (slot ++ body)
    RecordBlock m e ⟨true, flashEmptyNext, flags,
        pre ++ extTail (authFieldsOf auth attr (mc :: rest)) cfg.checksum flags pre⟩ slot
      (head ++ extSteps cfg e (e + 10 + pre.length) size extSize ef auth (mc :: rest)
        (applySteps m head)) := by
  intro head
  have hsz : Raw.size ⟨true, flashEmptyNext, flags,
      pre ++ extTail (authFieldsOf auth attr (mc :: rest)) cfg.checksum flags pre⟩ = size := by
    rw [Raw.size, hsize, List.length_append, extTail_length, hx]
  have h10 : size = 10 + (pre.length + extSize) := hsize
  have hslotA : ∀ {q k}, q + k ≤ e + size → Avoid slot q k :=
    fun hq st hst => Or.inr (hq.trans (hslot st hst))
  obtain ⟨X, pF, hX, hXin⟩ := extSteps_split cfg (e + 10 + pre.length) hmc hrest hx
    (show e + 10 + pre.length + extSize = e + size by omega) ef (applySteps m head)
  refine ⟨?_, ?_, ?_, ?_, rfl⟩
  · rw [applySteps_append]
    refine record_holds hmc hrest hx hsize hs hef hflag hbody.after ?_ ?_ hgap
    · exact (hslotA (by omega)).append (hin.avoid (Or.inr le_rfl))
    · exact (hslotA (by omega)).append (hin.avoid (Or.inl le_rfl))
  · intro k hk1 hk2
    rw [hX, ← List.append_assoc] at hk2 ⊢
    -- the cut leaves out the signature, the only later call on the header
    rw [List.take_append_of_le_length (by simp at hk2 ⊢; omega)]
    obtain ⟨k, rfl⟩ : ∃ j, k = j + 1 := ⟨k - 1, by omega⟩
    rw [hsz]
    have havoid : Avoid (slot ++ body ++ X) e 10 :=
      ((hslotA (by omega)).append (hin.avoid (Or.inr le_rfl))).append
        (hXin.avoid (Or.inr (by omega)))
    exact (havoid.sublist fun st hst => List.mem_of_mem_take hst).holds (by simp) (holds_poke _ _ _)
  · intro st hst
    rw [hsz]
    rw [hX] at hst
    rcases List.mem_append.mp hst with h | h
    · rcases List.mem_cons.mp h with rfl | h
      · exact Or.inl ⟨le_rfl, by simp; omega⟩
      · rcases List.mem_append.mp h with h | h
        · exact Or.inr h
        · have := hin st h
          exact Or.inl ⟨by omega, by omega⟩
    · rcases List.mem_append.mp h with h | h
      · have := hXin st h
        exact Or.inl ⟨by omega, by omega⟩
      · obtain rfl := List.mem_singleton.mp h
        exact Or.inl ⟨le_rfl, by simp; omega⟩
  · intro st hst
    rcases List.mem_append.mp hst with h | h
    · rcases List.mem_cons.mp h with rfl | h
      · exact le_rfl
      · exact hpf st h
    · refine extSteps_pFail (by omega) (by omega) ?_ st h
      intro hany
      rw [hx]
      unfold extTailSize authFieldsOf
      cases auth <;> cases hc : cfg.checksum <;> simp_all

end

/-! ## What an added record means for the store -/

/-- `s'` is `s` with the record `r` added at the end of the log, and perhaps a GUID
at the end of the GUID table. -/
structure Appended (s s' : StoreInfo) (r : Rec) : Prop where
  room : s.pEndOfVars + r.size + sizeofGuid * (s.nextGuid + 1) + sizeofNvar ≤ s.nvramSize
  holds : Holds s'.mem s.pEndOfVars r.bytes
  end_ : s'.pEndOfVars = s.pEndOfVars + r.size
  size : s'.nvramSize = s.nvramSize
  first : s'.pFirstVar = s.pFirstVar
  flags : s'.flags = s.flags
  guid : s'.nextGuid = s.nextGuid ∨ s'.nextGuid = s.nextGuid + 1 ∧ s.nextGuid ≤ 255
  frame : ∀ a, a < s.pEndOfVars ∨ s.pEndOfVars + r.size ≤ a →
    a < s.guidSlot s.nextGuid ∨ s.guidSlot s.nextGuid + sizeofGuid ≤ a
      ∨ s'.nextGuid = s.nextGuid → s'.mem a = s.mem a

/-! ## Recovery -/

theorem firstProgrammed_erased {m : Mem} : ∀ {n p : Nat},
    (∀ a, p ≤ a → a < p + n → m a = flashEmptyByte) → firstProgrammed m n p = p + n
  | 0, _, _ => rfl
  | n + 1, p, h => by
    rw [firstProgrammed, if_pos (h p le_rfl (by omega)),
      firstProgrammed_erased fun a h1 h2 => h a (by omega) (by omega)]
    omega

/-- Nothing was programmed: the recovery leaves the store alone. -/
theorem recover_nothing {s : StoreInfo} {dataSize prevVar : Nat}
    (h : ∀ a, s.pEndOfVars ≤ a → a < s.pEndOfVars + 10 → s.mem a = flashEmptyByte)
    (hd : dataSize < flashEmptySize) :
    recoverFromFlashUpdateFailure s (s.pEndOfVars + 10) dataSize prevVar = s := by
  have hsz : sizeAt s.mem s.pEndOfVars = 65535 :=
    rd_erased fun a h1 h2 => h a (by unfold sizeOffset at h1; omega) (by unfold sizeOffset at h2; omega)
  unfold recoverFromFlashUpdateFailure
  rw [if_neg (by omega), if_neg (by rw [hsz]; exact ne_of_gt hd)]
  simp only [Nat.add_sub_cancel_left]
  rw [firstProgrammed_erased h, if_pos rfl]

/-- The header was programmed but not the signature: the recovery passes over the
broken record. -/
theorem recover_broken {s : StoreInfo} {p dataSize prevVar : Nat}
    (hp : s.pEndOfVars + 10 ≤ p) (hsize : sizeAt s.mem s.pEndOfVars = dataSize)
    (hsig : sigAt s.mem s.pEndOfVars ≠ nvarSignature) :
    recoverFromFlashUpdateFailure s p dataSize prevVar
      = { s with pEndOfVars := s.pEndOfVars + dataSize, lastVarSize := 0 } := by
  unfold recoverFromFlashUpdateFailure
  rw [if_neg (by omega), if_pos hsize, if_neg (fun hh => hsig hh.1)]

/-- The size and signature that the recovery finds after a cut. -/
theorem nvarHeader_read {m : Mem} {e size : Nat} {flags : UInt8}
    (h : Holds m e (nvarHeader size flags)) (hs : size < 65536) :
    sizeAt m e = size ∧ sigAt m e ≠ nvarSignature := by
  unfold nvarHeader at h
  rw [holds_append, holds_append, holds_append] at h
  obtain ⟨⟨⟨hsig, hsize⟩, -⟩, -⟩ := h
  rw [leBytes_length] at hsize
  refine ⟨hsize.rd_eq_of_lt hs, ?_⟩
  unfold sigAt
  rw [hsig.rd_eq_of_lt (by decide)]
  exact signature_ne.symm

/-! ## Cutting a block -/

theorem performed_eq (faults : Faults) (steps : List Step) :
    (brokenAt faults steps = none ∧ performed faults steps = steps) ∨
    ∃ k, faults = some k ∧ performed faults steps = steps.take k
      ∧ ∃ st, steps[k]? = some st ∧ brokenAt faults steps = some st.pFail := by
  cases faults with
  | none => exact Or.inl ⟨rfl, rfl⟩
  | some k =>
    by_cases hk : k < steps.length
    · exact Or.inr ⟨k, rfl, rfl, steps[k], by simp [hk], by simp [brokenAt, hk]⟩
    · refine Or.inl ⟨?_, List.take_of_length_le (by omega)⟩
      simp [brokenAt, List.getElem?_eq_none (by omega : steps.length ≤ k)]

/-- What a block changes: bytes of the record, and of the GUID table if it has
calls there. -/
theorem RecordBlock.frame {m : Mem} {e : Nat} {r : Raw} {slot steps A : List Step}
    (h : RecordBlock m e r slot steps) (hA : ∀ st ∈ A, st ∈ steps) {a : Nat}
    (ha : a < e ∨ e + r.size ≤ a)
    (hslot : ∀ st ∈ A, st ∈ slot → a < st.addr ∨ st.addr + st.data.length ≤ a) :
    applySteps m A a = m a := by
  refine applySteps_of_out fun st hst => ?_
  rcases h.within st (hA st hst) with hw | hw
  · omega
  · exact hslot st hst hw

/-! ## CreateVariableEx -/

theorem auth_bits {x : UInt32} (h : isAuth x = true) :
    x &&& authenticatedVariableAttributes = 0x10 ∨ x &&& authenticatedVariableAttributes = 0x20
      ∨ x &&& authenticatedVariableAttributes = 0x30 := by
  have hfin : ∀ n < 49, n &&& 48 = n → n ≠ 0 → n = 16 ∨ n = 32 ∨ n = 48 := by decide
  have hm : authenticatedVariableAttributes = 48 := by decide
  unfold isAuth at h
  rw [hm] at h ⊢
  have hn : (x &&& 48).toNat = x.toNat &&& 48 := by simp
  have hne : (x &&& 48).toNat ≠ 0 := by
    intro he
    rw [UInt32.toNat_inj.mp (show (x &&& 48).toNat = (0 : UInt32).toNat from he)] at h
    simp at h
  have := hfin (x &&& 48).toNat (by rw [hn]; exact Nat.lt_succ_of_le Nat.and_le_right)
    (by rw [hn, Nat.and_assoc]; rfl) hne
  rcases this with he | he | he
  · exact Or.inl (UInt32.toNat_inj.mp he)
  · exact Or.inr (Or.inl (UInt32.toNat_inj.mp he))
  · exact Or.inr (Or.inr (UInt32.toNat_inj.mp he))

/-- The authentication part of a new header record. -/
def createdAuth (attributes : UInt32) (ext : ExtSecFlags) : Option HdrAuth :=
  if h : isAuth attributes = true then
    some ⟨attributes &&& authenticatedVariableAttributes, auth_bits h, ext.mc, ext.keyHash, ext.len⟩
  else none

theorem createdAuth_isSome (attributes : UInt32) (ext : ExtSecFlags) :
    (createdAuth attributes ext).isSome = isAuth attributes := by
  unfold createdAuth
  split
  next h => simp [h]
  next h => simp [h]

theorem createdAuth_fields (attributes : UInt32) (ext : ExtSecFlags) :
    (createdAuth attributes ext).map HdrAuth.authFields
      = authFieldsOf (isAuth attributes) (attributes &&& authenticatedVariableAttributes).toUInt8
          [leBytes 8 ext.mc.toNat, ext.keyHash] := by
  unfold createdAuth authFieldsOf
  split
  next h => simp [HdrAuth.authFields]
  next h => simp

/-- The header record that `CreateVariableEx` adds under the plan `pl`. -/
def createdHeader (cfg : Config) (name : Name) (guid : Guid) (attributes : UInt32) (data : Bytes)
    (ext : ExtSecFlags) (pl : CreatePlan) : Header where
  valid := true
  rt := attributes &&& efiRuntimeAccess != 0
  hw := attributes &&& efiHardwareErrorRecord != 0
  cks := cfg.checksum
  auth := createdAuth attributes ext
  ref := if pl.fullGuid then .full guid else .index (UInt8.ofNat pl.guid)
  ascii := isAsciiName name
  name := name
  ascii_ok := id
  data := data

section

variable {cfg : Config} {s : StoreInfo} {name : Name} {guid : Guid} {attributes : UInt32}
  {data appendData : Bytes} {ext : ExtSecFlags} {oldVarGuid : Bool} {pl : CreatePlan}

/-- The calls of the block on the GUID table. -/
def createSlotSteps (s : StoreInfo) (guid : Guid) (pl : CreatePlan) : List Step :=
  if !pl.fullGuid && pl.guid = s.nextGuid then
    [⟨s.guidSlot s.nextGuid, guid.bytes, s.pEndOfVars + 10⟩]
  else []

/-- The calls of the block that program the contents of the record. -/
def createBodySteps (s : StoreInfo) (name : Name) (guid : Guid) (attributes : UInt32)
    (data appendData : Bytes) (pl : CreatePlan) : List Step :=
  let e := s.pEndOfVars
  let pName := e + 10 + (if pl.fullGuid then 16 else 1)
  (if pl.fullGuid then [⟨e + 10, guid.bytes, e + 10 + 16⟩]
   else [⟨e + 10, [UInt8.ofNat pl.guid], e + 10 + 1⟩])
    ++ nameSteps pName name
    ++ dataSteps (pName + nameBytesLength name) (isAppend attributes) appendData data

theorem createSteps_eq : createSteps cfg s name guid attributes data ext appendData pl
    = let e := s.pEndOfVars
      let head := ⟨e, nvarHeader pl.size pl.flags, e + 10⟩ ::
        (createSlotSteps s guid pl ++ createBodySteps s name guid attributes data appendData pl)
      head ++ extSteps cfg e
        (e + 10 + (if pl.fullGuid then 16 else 1) + nameBytesLength name
          + (if isAppend attributes then appendData.length else 0) + data.length)
        pl.size pl.extSize pl.extFlags (isAuth attributes)
        [leBytes 8 ext.mc.toNat, ext.keyHash] (applySteps s.mem head) := by
  have hhead : createHeadSteps s guid pl
        ++ nameSteps (s.pEndOfVars + 10 + (if pl.fullGuid then 16 else 1)) name
        ++ dataSteps (s.pEndOfVars + 10 + (if pl.fullGuid then 16 else 1) + nameBytesLength name)
          (isAppend attributes) appendData data
      = ⟨s.pEndOfVars, nvarHeader pl.size pl.flags, s.pEndOfVars + 10⟩ ::
        (createSlotSteps s guid pl ++ createBodySteps s name guid attributes data appendData pl) := by
    unfold createHeadSteps createSlotSteps createBodySteps
    cases pl.fullGuid <;> simp
  unfold createSteps
  simp only [hhead]

theorem nameBytesLength_eq (name : Name) :
    nameBytesLength name = nameSize (isAsciiName name) name := rfl

theorem createBodySteps_writes (cfg : Config) (s : StoreInfo) (name : Name) (guid : Guid)
    (attributes : UInt32) (data appendData : Bytes) (ext : ExtSecFlags) (pl : CreatePlan) :
    Writes (s.pEndOfVars + 10)
        (createdHeader cfg name guid attributes (joinData (isAppend attributes) appendData data)
          ext pl).contents
        (createBodySteps s name guid attributes data appendData pl)
      ∧ Within (createBodySteps s name guid attributes data appendData pl) (s.pEndOfVars + 10)
        (createdHeader cfg name guid attributes (joinData (isAppend attributes) appendData data)
          ext pl).contents.length := by
  set hd := createdHeader cfg name guid attributes (joinData (isAppend attributes) appendData data)
    ext pl with hhd
  set e := s.pEndOfVars
  have hreflen : hd.ref.bytes.length = if pl.fullGuid then 16 else 1 := by
    rw [GuidRef.bytes_length, hhd]
    unfold createdHeader
    cases pl.fullGuid <;> rfl
  set gsteps : List Step := if pl.fullGuid then [⟨e + 10, guid.bytes, e + 10 + 16⟩]
    else [⟨e + 10, [UInt8.ofNat pl.guid], e + 10 + 1⟩] with hg
  have href : Writes (e + 10) hd.ref.bytes gsteps
      ∧ Within gsteps (e + 10) hd.ref.bytes.length := by
    rw [hreflen, hg, hhd]
    unfold createdHeader
    cases pl.fullGuid with
    | true => exact ⟨writes_single _, within_cons le_rfl (by simp [guid.len]) within_nil⟩
    | false => exact ⟨writes_single _, within_cons le_rfl (by simp) within_nil⟩
  obtain ⟨hnw, hnin⟩ := nameSteps_writes (e + 10 + hd.ref.bytes.length) name
  obtain ⟨hdw, hdin⟩ := dataSteps_writes
    (e + 10 + hd.ref.bytes.length + nameSize (isAsciiName name) name)
    (isAppend attributes) appendData data
  have hsteps : createBodySteps s name guid attributes data appendData pl
      = gsteps ++ (nameSteps (e + 10 + hd.ref.bytes.length) name
        ++ dataSteps (e + 10 + hd.ref.bytes.length + nameSize (isAsciiName name) name)
          (isAppend attributes) appendData data) := by
    unfold createBodySteps
    rw [hreflen, List.append_assoc]
    rfl
  have hcont : hd.contents = hd.ref.bytes ++ (nameBytes (isAsciiName name) name
      ++ joinData (isAppend attributes) appendData data) := by
    unfold Header.contents Header.key
    rw [List.append_assoc]
    rfl
  have htail : Writes (e + 10 + hd.ref.bytes.length) (nameBytes (isAsciiName name) name
        ++ joinData (isAppend attributes) appendData data)
      (nameSteps (e + 10 + hd.ref.bytes.length) name
        ++ dataSteps (e + 10 + hd.ref.bytes.length + nameSize (isAsciiName name) name)
          (isAppend attributes) appendData data) := by
    refine hnw.append ?_ ?_
    · rw [nameBytes_length]; exact hdw
    · rw [nameBytes_length]; exact hdin
  have htin : Within (nameSteps (e + 10 + hd.ref.bytes.length) name
        ++ dataSteps (e + 10 + hd.ref.bytes.length + nameSize (isAsciiName name) name)
          (isAppend attributes) appendData data) (e + 10 + hd.ref.bytes.length)
      (nameBytes (isAsciiName name) name
        ++ joinData (isAppend attributes) appendData data).length := by
    rw [List.length_append, nameBytes_length]
    exact (hnin.mono le_rfl (by omega)).append (hdin.mono (by omega) (by omega))
  rw [hsteps, hcont]
  refine ⟨href.1.append htail htin, ?_⟩
  rw [List.length_append]
  exact (href.2.mono le_rfl (by omega)).append (htin.mono (by omega) (by omega))

theorem mem_createSlotSteps {st : Step} (h : st ∈ createSlotSteps s guid pl) :
    st = ⟨s.guidSlot s.nextGuid, guid.bytes, s.pEndOfVars + 10⟩ := by
  unfold createSlotSteps at h
  split at h
  · exact List.mem_singleton.mp h
  · exact absurd h (by simp)

theorem asciiNameSteps_pFail : ∀ {cs : List UInt16} {p : Nat},
    ∀ st ∈ asciiNameSteps p cs, p ≤ st.pFail
  | [], p, st, h => by
    obtain rfl := List.mem_singleton.mp h
    exact Nat.le_succ p
  | c :: cs, p, st, h => by
    rcases List.mem_cons.mp h with rfl | h
    · exact Nat.le_succ p
    · have := asciiNameSteps_pFail st h
      omega

theorem unicodeNameSteps_pFail : ∀ {cs : List UInt16} {p : Nat},
    ∀ st ∈ unicodeNameSteps p cs, p ≤ st.pFail
  | [], p, st, h => by
    obtain rfl := List.mem_singleton.mp h
    exact Nat.le_add_right p 2
  | c :: cs, p, st, h => by
    rcases List.mem_cons.mp h with rfl | h
    · exact Nat.le_add_right p 2
    · have := unicodeNameSteps_pFail st h
      omega

theorem dataSteps_pFail {p : Nat} {append : Bool} {old new : Bytes} :
    ∀ st ∈ dataSteps p append old new, p ≤ st.pFail := by
  intro st h
  unfold dataSteps at h
  cases append with
  | false =>
    obtain rfl := List.mem_singleton.mp h
    dsimp only
    omega
  | true =>
    rcases List.mem_append.mp h with h | h <;> obtain rfl := List.mem_singleton.mp h <;>
      dsimp only <;> omega

theorem createBodySteps_pFail :
    ∀ st ∈ createBodySteps s name guid attributes data appendData pl,
      s.pEndOfVars + 10 ≤ st.pFail := by
  intro st h
  unfold createBodySteps nameSteps at h
  rcases List.mem_append.mp h with h | h
  · rcases List.mem_append.mp h with h | h
    · split at h <;> obtain rfl := List.mem_singleton.mp h <;> dsimp only <;> omega
    · split at h
      · have := asciiNameSteps_pFail st h
        omega
      · have := unicodeNameSteps_pFail st h
        omega
  · have := dataSteps_pFail st h
    omega

/-! ### The GUID of the new record -/

theorem guidSearchLoop_eq (s : StoreInfo) (guid : Guid) : ∀ (n i : Nat), i ≤ guidSearchLoop s guid n i
    ∧ guidSearchLoop s guid n i ≤ i + n
    ∧ (guidSearchLoop s guid n i < i + n →
      peek s.mem (s.guidSlot (guidSearchLoop s guid n i)) sizeofGuid = guid.bytes)
  | 0, i => by simp [guidSearchLoop]
  | n + 1, i => by
    unfold guidSearchLoop
    split
    next h => exact ⟨le_rfl, by omega, fun _ => h⟩
    next h =>
      obtain ⟨h1, h2, h3⟩ := guidSearchLoop_eq s guid n (i + 1)
      exact ⟨by omega, by omega, fun hlt => h3 (by omega)⟩

theorem guidSearch_le : guidSearch s guid ≤ s.nextGuid := by
  have := (guidSearchLoop_eq s guid s.nextGuid 0).2.1
  unfold guidSearch
  omega

theorem guidSearch_found (h : guidSearch s guid < s.nextGuid) :
    peek s.mem (s.guidSlot (guidSearch s guid)) sizeofGuid = guid.bytes :=
  (guidSearchLoop_eq s guid s.nextGuid 0).2.2
    (by unfold guidSearch at h; omega)

/-! ### The plan -/

theorem createdHeader_isFull {d : Bytes} :
    (createdHeader cfg name guid attributes d ext pl).ref.isFull = pl.fullGuid := by
  unfold createdHeader
  cases pl.fullGuid <;> rfl

section

variable (hpl : pl = createPlan cfg s name guid attributes data.length appendData.length oldVarGuid)
  (happ : isAppend attributes = false → appendData = [])

include hpl in
theorem createPlan_flags {d : Bytes} :
    pl.flags = (createdHeader cfg name guid attributes d ext pl).flags := by
  unfold Header.flags Header.flagsWith
  rw [createdHeader_isFull]
  simp only [createdHeader, createdAuth_isSome]
  subst hpl
  rfl

include hpl in
theorem createPlan_extFlags : pl.extFlags
    = (if isAuth attributes then (attributes &&& authenticatedVariableAttributes).toUInt8 else 0)
      ||| bit cfg.checksum extFlagChecksum := by
  subst hpl
  rfl

include hpl in
theorem createPlan_extSize (ext : ExtSecFlags) : pl.extSize
    = extTailSize (authFieldsOf (isAuth attributes)
        (attributes &&& authenticatedVariableAttributes).toUInt8
        [leBytes 8 ext.mc.toNat, ext.keyHash]) cfg.checksum := by
  subst hpl
  unfold extTailSize authFieldsOf
  cases ha : isAuth attributes <;> cases hc : cfg.checksum <;>
    simp [createPlan, ha, hc, ext.len, hashSha256Len]

include hpl happ in
theorem createPlan_size (ext : ExtSecFlags) : pl.size = sizeofNvar
    + ((createdHeader cfg name guid attributes (joinData (isAppend attributes) appendData data)
        ext pl).contents.length + pl.extSize) := by
  have hj : (joinData (isAppend attributes) appendData data).length
      = appendData.length + data.length := by
    unfold joinData
    cases hap : isAppend attributes with
    | false => simp [happ hap]
    | true => simp
  unfold Header.contents
  rw [List.length_append, Header.key_length]
  rw [createdHeader_isFull]
  change pl.size = sizeofNvar + ((if pl.fullGuid then sizeofGuid else 1)
    + nameSize (isAsciiName name) name
    + (joinData (isAppend attributes) appendData data).length + pl.extSize)
  have hps : pl.size = sizeofNvar + appendData.length + (if pl.fullGuid then sizeofGuid else 1)
      + nameBytesLength name + (data.length + pl.extSize) := by
    subst hpl
    rfl
  rw [hj, hps, nameBytesLength_eq]
  omega

/-- The slot after the last one in use lies above the new record. -/
theorem guidSlot_above {size : Nat} (hspace : isEnoughSpace s size = true) :
    s.pEndOfVars + size + sizeofNvar ≤ s.guidSlot s.nextGuid
      ∧ s.guidSlot s.nextGuid + sizeofGuid * (s.nextGuid + 1) = s.nvramSize := by
  unfold isEnoughSpace at hspace
  have h := of_decide_eq_true hspace
  unfold StoreInfo.guidSlot
  unfold sizeofGuid at h ⊢
  constructor <;> omega

/-- Where the contents end. -/
theorem createSteps_contents {hd : Header}
    (hhd : hd = createdHeader cfg name guid attributes
      (joinData (isAppend attributes) appendData data) ext pl) :
    s.pEndOfVars + 10 + (if pl.fullGuid then 16 else 1) + nameBytesLength name
      + (if isAppend attributes then appendData.length else 0) + data.length
      = s.pEndOfVars + 10 + hd.contents.length := by
  unfold Header.contents
  rw [List.length_append, Header.key_length, hhd, createdHeader_isFull]
  change _ = s.pEndOfVars + 10 + ((if pl.fullGuid then sizeofGuid else 1)
    + nameSize (isAsciiName name) name + (joinData (isAppend attributes) appendData data).length)
  rw [nameBytesLength_eq]
  unfold joinData sizeofGuid
  cases isAppend attributes <;> simp <;> omega

include hpl happ in
/-- The block of `CreateVariableEx` programs the header record of the plan. -/
theorem createSteps_block (ext : ExtSecFlags) (hs : pl.size < 65536) (hspace : isEnoughSpace s pl.size = true)
    (hgap : cfg.checksum = true → s.mem (s.pEndOfVars + pl.size - 3) = flashEmptyByte) :
    RecordBlock s.mem s.pEndOfVars
      ((createdHeader cfg name guid attributes (joinData (isAppend attributes) appendData data)
        ext pl).raw flashEmptyNext)
      (createSlotSteps s guid pl)
      (createSteps cfg s name guid attributes data ext appendData pl) := by
  set hd := createdHeader cfg name guid attributes (joinData (isAppend attributes) appendData data)
    ext pl with hhd
  have hflags : pl.flags = hd.flags := createPlan_flags hpl
  have hsize := createPlan_size hpl happ ext
  rw [← hhd] at hsize
  have hxs := createPlan_extSize hpl ext
  obtain ⟨hbw, hbin⟩ := createBodySteps_writes cfg s name guid attributes data appendData ext pl
  rw [← hhd] at hbw hbin
  obtain ⟨hslot, -⟩ := guidSlot_above hspace
  have hext : (pl.flags &&& flagExtHeder != 0) = (isAuth attributes || cfg.checksum) := by
    have hx : (hd.flags &&& flagExtHeder != 0) = (hd.auth.isSome || hd.cks) :=
      hd.flags_test.2.2.2.2.1
    have ha : hd.auth.isSome = isAuth attributes := createdAuth_isSome attributes ext
    rw [ha] at hx
    rw [hflags]
    exact hx
  have hp1 := createSteps_contents (s := s) hhd
  rw [createSteps_eq]
  simp only [hp1]
  have hraw : hd.raw flashEmptyNext = ⟨true, flashEmptyNext, pl.flags,
      hd.contents ++ extTail (authFieldsOf (isAuth attributes)
        (attributes &&& authenticatedVariableAttributes).toUInt8
        [leBytes 8 ext.mc.toNat, ext.keyHash]) cfg.checksum pl.flags hd.contents⟩ := by
    unfold Header.raw
    rw [← createdAuth_fields, hflags]
    rfl
  rw [hraw]
  refine record_block (by simp) (by simp) hxs hsize hs (createPlan_extFlags hpl) hext hbw hbin
    ?_ ?_ hgap
  · intro st hst
    obtain rfl := mem_createSlotSteps hst
    dsimp only
    omega
  · intro st hst
    rcases List.mem_append.mp hst with h | h
    · obtain rfl := mem_createSlotSteps h
      exact le_rfl
    · exact createBodySteps_pFail st h

include hpl in
/-- A slot of the GUID table is used only while one byte can name it. -/
theorem createSlotSteps_ne (h : createSlotSteps s guid pl ≠ []) :
    pl.fullGuid = false ∧ pl.guid = s.nextGuid ∧ s.nextGuid ≤ 255 := by
  unfold createSlotSteps at h
  split at h
  next hc =>
    rw [Bool.and_eq_true, Bool.not_eq_true', decide_eq_true_eq] at hc
    refine ⟨hc.1, hc.2, ?_⟩
    have hfull := hc.1
    have hg := hc.2
    rw [hpl] at hfull hg
    simp only [createPlan, Bool.or_eq_false_iff, Bool.and_eq_false_iff, decide_eq_false_iff_not]
      at hfull hg
    omega
  next => exact absurd rfl h

include hpl in
theorem createPlan_guid_le (hn : s.nextGuid ≤ 256) (hfull : pl.fullGuid = false) :
    pl.guid ≤ 255 := by
  have hle : guidSearch s guid ≤ s.nextGuid := guidSearch_le
  rw [hpl] at hfull ⊢
  simp only [createPlan, Bool.or_eq_false_iff, Bool.and_eq_false_iff, decide_eq_false_iff_not]
    at hfull ⊢
  omega

theorem createNextGuid_eq (guid : Guid) {faults : Faults} (hf : faults ≠ some 0) :
    createNextGuid s pl faults
      = if createSlotSteps s guid pl = [] then s.nextGuid else s.nextGuid + 1 := by
  unfold createNextGuid createSlotSteps
  by_cases hc : (!pl.fullGuid && decide (pl.guid = s.nextGuid)) = true
  · simp [hc, hf]
  · simp [hc]

end

/-- What was written once stands if every other call keeps clear of it. -/
theorem holds_of_step_mem {st0 : Step} : ∀ {steps : List Step} {m : Mem},
    (∀ st ∈ steps, st = st0 ∨ st.addr + st.data.length ≤ st0.addr
      ∨ st0.addr + st0.data.length ≤ st.addr) → st0 ∈ steps →
    Holds (applySteps m steps) st0.addr st0.data
  | [], _, _, h => absurd h (by simp)
  | x :: xs, m, hall, h => by
    rw [applySteps_cons]
    by_cases hin : st0 ∈ xs
    · exact holds_of_step_mem (fun st hst => hall st (List.mem_cons_of_mem _ hst)) hin
    · have hx : st0 = x := by
        rcases List.mem_cons.mp h with h | h
        · exact h
        · exact absurd h hin
      have havoid : Avoid xs st0.addr st0.data.length := by
        intro st hst
        rcases hall st (List.mem_cons_of_mem _ hst) with hq | hq
        · exact absurd (hq ▸ hst) hin
        · exact hq
      rw [← hx]
      exact havoid.holds le_rfl (holds_poke _ _ _)

section

variable (hpl : pl = createPlan cfg s name guid attributes data.length appendData.length oldVarGuid)
  (happ : isAppend attributes = false → appendData = [])

include hpl happ in
/-- The block of `CreateVariableEx`: the header, the contents, the extended header, and
last the signature. -/
theorem createSteps_parts (ext : ExtSecFlags) :
    ∃ X pFail, createSteps cfg s name guid attributes data ext appendData pl
        = (⟨s.pEndOfVars, nvarHeader pl.size pl.flags, s.pEndOfVars + 10⟩ ::
            (createSlotSteps s guid pl ++ createBodySteps s name guid attributes data appendData pl))
          ++ (X ++ [⟨s.pEndOfVars, leBytes 4 nvarSignature, pFail⟩])
      ∧ Within X (s.pEndOfVars + 10 + (createdHeader cfg name guid attributes
          (joinData (isAppend attributes) appendData data) ext pl).contents.length) pl.extSize := by
  set hd := createdHeader cfg name guid attributes
    (joinData (isAppend attributes) appendData data) ext pl with hhd
  have hsize := createPlan_size hpl happ ext
  rw [← hhd] at hsize
  unfold sizeofNvar at hsize
  have hend : s.pEndOfVars + 10 + hd.contents.length + pl.extSize = s.pEndOfVars + pl.size := by
    omega
  rw [createSteps_eq]
  simp only [createSteps_contents (s := s) hhd]
  obtain ⟨X, pF, hX, hXin⟩ := extSteps_split cfg _ (by simp) (by simp)
    (createPlan_extSize hpl ext) hend pl.extFlags
    (applySteps s.mem (⟨s.pEndOfVars, nvarHeader pl.size pl.flags, s.pEndOfVars + 10⟩ ::
      (createSlotSteps s guid pl ++ createBodySteps s name guid attributes data appendData pl)))
  exact ⟨X, pF, by rw [hX], hXin⟩

include hpl happ in
/-- The block writes to the new record and to the GUID table. -/
theorem createSteps_within (ext : ExtSecFlags) :
    ∀ st ∈ createSteps cfg s name guid attributes data ext appendData pl,
      (s.pEndOfVars ≤ st.addr ∧ st.addr + st.data.length ≤ s.pEndOfVars + pl.size)
        ∨ st ∈ createSlotSteps s guid pl := by
  intro st hst
  have hsize := createPlan_size hpl happ ext
  unfold sizeofNvar at hsize
  obtain ⟨-, hbin⟩ := createBodySteps_writes cfg s name guid attributes data appendData ext pl
  obtain ⟨X, pF, hX, hXin⟩ := createSteps_parts hpl happ ext
  rw [hX] at hst
  rcases List.mem_append.mp hst with h | h
  · rcases List.mem_cons.mp h with rfl | h
    · exact Or.inl ⟨le_rfl, by simp; omega⟩
    · rcases List.mem_append.mp h with h | h
      · exact Or.inr h
      · have := hbin st h
        exact Or.inl ⟨by omega, by omega⟩
  · rcases List.mem_append.mp h with h | h
    · have := hXin st h
      exact Or.inl ⟨by omega, by omega⟩
    · obtain rfl := List.mem_singleton.mp h
      exact Or.inl ⟨le_rfl, by simp; omega⟩

include hpl happ in
/-- What the block changes, wherever it is left. -/
theorem createSteps_frame (ext : ExtSecFlags) {A : List Step}
    (hA : ∀ st ∈ A, st ∈ createSteps cfg s name guid attributes data ext appendData pl) {a : Nat}
    (ha : a < s.pEndOfVars ∨ s.pEndOfVars + pl.size ≤ a)
    (hg : a < s.guidSlot s.nextGuid ∨ s.guidSlot s.nextGuid + sizeofGuid ≤ a
      ∨ createSlotSteps s guid pl = []) :
    applySteps s.mem A a = s.mem a := by
  refine applySteps_of_out fun st hst => ?_
  rcases createSteps_within hpl happ ext st (hA st hst) with hw | hw
  · omega
  · have hne : createSlotSteps s guid pl ≠ [] := List.ne_nil_of_mem hw
    obtain rfl := mem_createSlotSteps hw
    rw [guid.len]
    unfold sizeofGuid at hg
    dsimp only
    rcases hg with hg | hg | hg
    · exact Or.inl hg
    · exact Or.inr hg
    · exact absurd hg hne

include hpl happ in
/-- The front of the record that the block leaves, of any size: the size field has 16
bits. -/
theorem createSteps_front (ext : ExtSecFlags) (hspace : isEnoughSpace s pl.size = true) :
    let m := applySteps s.mem (createSteps cfg s name guid attributes data ext appendData pl)
    Holds m s.pEndOfVars (leBytes 4 nvarSignature ++ (leBytes 2 pl.size ++ (leBytes 3 flashEmptyNext
        ++ (pl.flags :: (createdHeader cfg name guid attributes
          (joinData (isAppend attributes) appendData data) ext pl).contents)))) := by
  intro m
  set e := s.pEndOfVars with he
  set hd := createdHeader cfg name guid attributes
    (joinData (isAppend attributes) appendData data) ext pl with hhd
  have hsize := createPlan_size hpl happ ext
  rw [← hhd] at hsize
  unfold sizeofNvar at hsize
  obtain ⟨hslot, -⟩ := guidSlot_above hspace
  obtain ⟨hbw, hbin⟩ := createBodySteps_writes cfg s name guid attributes data appendData ext pl
  rw [← hhd, ← he] at hbw hbin
  obtain ⟨X, pF, hX, hXin⟩ := createSteps_parts hpl happ ext
  rw [← hhd, ← he] at hXin
  have hslotA : Avoid (createSlotSteps s guid pl) e 10 := by
    intro st hst
    obtain rfl := mem_createSlotSteps hst
    right
    dsimp only
    omega
  set mid := createSlotSteps s guid pl ++ createBodySteps s name guid attributes data appendData pl
  have hhead : Holds (applySteps s.mem ((⟨e, nvarHeader pl.size pl.flags, e + 10⟩ :: mid) ++ X)) e
      (nvarHeader pl.size pl.flags) := by
    rw [List.cons_append, applySteps_cons]
    exact ((hslotA.append (hbin.avoid (Or.inr le_rfl))).append
      (hXin.avoid (Or.inr (by omega)))).holds (by simp) (holds_poke _ _ _)
  have hbody : Holds (applySteps s.mem ((⟨e, nvarHeader pl.size pl.flags, e + 10⟩ :: mid) ++ X))
      (e + 10) hd.contents := by
    rw [List.cons_append, applySteps_cons]
    exact (hbw.after.keep (hXin.avoid (Or.inr (by omega)))) _
  have hm : m = poke (applySteps s.mem ((⟨e, nvarHeader pl.size pl.flags, e + 10⟩ :: mid) ++ X)) e
      (leBytes 4 nvarSignature) := by
    change applySteps s.mem _ = _
    rw [hX, ← List.append_assoc, applySteps_append, applySteps_cons, applySteps_nil]
    rfl
  unfold nvarHeader at hhead
  rw [hm, holds_append]
  refine ⟨holds_poke _ _ _, Holds.poke_of_disjoint ?_ (Or.inr (by simp))⟩
  simp only [List.append_assoc, holds_append, holds_cons, leBytes_length] at hhead ⊢
  obtain ⟨-, hsz, hnext, hfl, -⟩ := hhead
  exact ⟨hsz, hnext, hfl, hbody⟩

include hpl happ in
/-- The new record refers to its GUID, found in the table or stored in the next slot. -/
theorem createSteps_ref (ext : ExtSecFlags) (hspace : isEnoughSpace s pl.size = true)
    (hn : s.nextGuid ≤ 256) :
    let s' : StoreInfo := { s with
      mem := applySteps s.mem (createSteps cfg s name guid attributes data ext appendData pl) }
    let hd := createdHeader cfg name guid attributes
      (joinData (isAppend attributes) appendData data) ext pl
    hd.ref.resolve s' = guid.bytes ∧ ∀ j, hd.ref = .index j → j.toNat < createNextGuid s pl none := by
  intro s' hd
  obtain ⟨hslot1, hslot2⟩ := guidSlot_above hspace
  have href : hd.ref = if pl.fullGuid then .full guid else .index (UInt8.ofNat pl.guid) := rfl
  rw [href]
  cases hfull : pl.fullGuid with
  | true => exact ⟨rfl, fun j hj => absurd hj (by simp)⟩
  | false =>
    have hle : pl.guid ≤ s.nextGuid := by rw [hpl]; exact guidSearch_le
    have h255 : pl.guid ≤ 255 := createPlan_guid_le hpl hn hfull
    have hslot : (UInt8.ofNat pl.guid).toNat = pl.guid := by
      rw [UInt8.toNat_ofNat', Nat.mod_eq_of_lt (by omega)]
    simp only [Bool.false_eq_true, if_false, GuidRef.resolve, hslot]
    constructor
    · by_cases hlt : pl.guid < s.nextGuid
      · -- found in the table, which stands
        have hfound : peek s.mem (s.guidSlot pl.guid) sizeofGuid = guid.bytes := by
          rw [hpl] at hlt ⊢
          exact guidSearch_found hlt
        have hnone : createSlotSteps s guid pl = [] := by
          unfold createSlotSteps
          simp [show pl.guid ≠ s.nextGuid by omega]
        rw [← hfound]
        refine peek_congr fun a h1 h2 => ?_
        refine createSteps_frame hpl happ ext (fun _ h => h) (Or.inr ?_) (Or.inr (Or.inr hnone))
        change s.guidSlot pl.guid ≤ a at h1
        unfold StoreInfo.guidSlot at *
        unfold sizeofGuid at *
        omega
      · -- stored in the slot after the last one in use
        have heq : pl.guid = s.nextGuid := by omega
        rw [heq]
        have hmem : (⟨s.guidSlot s.nextGuid, guid.bytes, s.pEndOfVars + 10⟩ : Step)
            ∈ createSlotSteps s guid pl := by
          unfold createSlotSteps
          simp [hfull, heq]
        have hall : ∀ st ∈ createSteps cfg s name guid attributes data ext appendData pl,
            st = ⟨s.guidSlot s.nextGuid, guid.bytes, s.pEndOfVars + 10⟩
              ∨ st.addr + st.data.length ≤ s.guidSlot s.nextGuid
              ∨ s.guidSlot s.nextGuid + guid.bytes.length ≤ st.addr := by
          intro st hst
          rcases createSteps_within hpl happ ext st hst with hw | hw
          · exact Or.inr (Or.inl (by omega))
          · exact Or.inl (mem_createSlotSteps hw)
        have hin : (⟨s.guidSlot s.nextGuid, guid.bytes, s.pEndOfVars + 10⟩ : Step)
            ∈ createSteps cfg s name guid attributes data ext appendData pl := by
          rw [createSteps_eq]
          exact List.mem_append_left _ (List.mem_cons_of_mem _ (List.mem_append_left _ hmem))
        exact (holds_of_step_mem (m := s.mem) hall hin).peek_eq guid.len.symm
    · intro j hj
      rw [← GuidRef.index.inj hj, hslot]
      unfold createNextGuid
      by_cases heq : pl.guid = s.nextGuid
      · simp [hfull, heq]
      · simp only [hfull, heq, Bool.not_false, decide_false, Bool.and_false, Bool.false_and,
          Bool.false_eq_true, if_false]
        omega

end

/-- A cut before the signature leaves a broken record behind. -/
theorem RecordBlock.broken (prevVar : Nat) {k p' g : Nat} {raw : Raw} {slot steps : List Step}
    (hblock : RecordBlock s.mem s.pEndOfVars raw slot steps)
    (hguid : g = s.nextGuid ∨ g = s.nextGuid + 1 ∧ s.nextGuid ≤ 255) (hs : raw.size < flashEmptySize)
    (hspace : isEnoughSpace s raw.size = true) (hk : k + 1 < steps.length)
    (hp' : s.pEndOfVars + 10 ≤ p')
    (hframe : ∀ a, a < s.pEndOfVars ∨ s.pEndOfVars + raw.size ≤ a →
      a < s.guidSlot s.nextGuid ∨ s.guidSlot s.nextGuid + sizeofGuid ≤ a ∨ g = s.nextGuid →
      applySteps s.mem (steps.take (k + 1)) a = s.mem a) :
    ∃ body, sizeofNvar + body.length = raw.size ∧ Appended s
      (recoverFromFlashUpdateFailure { s with mem := applySteps s.mem (steps.take (k + 1)), nextGuid := g }
        p' raw.size prevVar) (.broken raw.flags body) := by
  have hcut := hblock.cut (k + 1) (by omega) hk
  obtain ⟨hsz, hsg⟩ := nvarHeader_read hcut (lt_trans hs (by decide))
  rw [recover_broken (s := { s with mem := applySteps s.mem (steps.take (k + 1)), nextGuid := g })
    hp' hsz hsg]
  have h10 : 10 ≤ raw.size := Nat.le_add_right _ _
  set body := peek (applySteps s.mem (steps.take (k + 1))) (s.pEndOfVars + 10) (raw.size - 10)
    with hbody
  have hbsize : sizeofNvar + body.length = raw.size := by
    rw [hbody, peek_length]
    unfold sizeofNvar
    omega
  have hbsize' : (Rec.broken raw.flags body).size = raw.size := hbsize
  refine ⟨body, hbsize, ⟨?_, ?_, by rw [hbsize'], rfl, rfl, rfl, hguid, ?_⟩⟩
  · rw [hbsize']
    exact of_decide_eq_true hspace
  · change Holds _ _ (Raw.bytes ⟨false, flashEmptyNext, raw.flags, body⟩)
    rw [unsigned_bytes _ hbsize.symm, holds_append, nvarHeader_length]
    exact ⟨hcut, holds_peek _ _ _⟩
  · rw [hbsize']
    exact hframe

/-- What one run of `CreateVariableEx` can do to a store with a clean free area:
nothing, add a broken record, or add the new header record. -/
theorem createVariableEx_cases (i : Interface) (ext : ExtSecFlags) (device : Faults)
    (happ : isAppend attributes = false → appendData = []) (hn : s.nextGuid ≤ 256)
    (hpl : pl = createPlan cfg s name guid attributes data.length appendData.length oldVarGuid)
    (hsafe : isEnoughSpace s pl.size = true → pl.size < flashEmptySize ∧ Clear s pl.size) :
    let res := createVariableEx cfg i s name guid attributes data oldVarGuid ext appendData device
    let hd := createdHeader cfg name guid attributes
      (joinData (isAppend attributes) appendData data) ext pl
    (res.1 ≠ .success ∧ res.2 = s) ∨
    (res.1 = .deviceError ∧ ∃ body, sizeofNvar + body.length = pl.size
      ∧ Appended s res.2 (.broken pl.flags body)) ∨
    (res.1 = .success ∧ Appended s res.2 (.header hd flashEmptyNext)
      ∧ hd.ref.resolve res.2 = guid.bytes
      ∧ ∀ j, hd.ref = .index j → j.toNat < res.2.nextGuid) := by
  intro res hd
  by_cases hspace : isEnoughSpace s pl.size = true
  swap
  · left
    have : res = (.outOfResources, s) := by
      simp [res, createVariableEx, ← hpl, hspace]
    rw [this]
    exact ⟨by simp, rfl⟩
  obtain ⟨hs, hfree⟩ := hsafe hspace
  have hs' : pl.size < 65536 := lt_trans hs (by decide)
  have hbig : ¬ 2 ^ 64 ≤ pl.size := by omega
  have hroom : s.pEndOfVars + pl.size + sizeofGuid * (s.nextGuid + 1) + sizeofNvar ≤ s.nvramSize :=
    of_decide_eq_true hspace
  obtain ⟨hslot1, hslot2⟩ := guidSlot_above hspace
  have hpsize := createPlan_size hpl happ ext
  have herased : ∀ a, s.pEndOfVars ≤ a → a < s.pEndOfVars + pl.size → s.mem a = flashEmptyByte := by
    intro a h1 h2
    exact hfree a h1 (by omega)
  have hp10 : 10 ≤ pl.size := by rw [hpsize]; exact Nat.le_add_right _ _
  have hblock := createSteps_block hpl happ ext hs' hspace
    (fun _ => herased _ (by unfold sizeofNvar at *; omega) (by omega))
  set steps := createSteps cfg s name guid attributes data ext appendData pl with hsteps
  set faults := effective i s.mem steps device with hfaults
  have hres : res = (brokenAt faults steps).elim
      (.success, { s with
        mem := applySteps s.mem (performed faults steps)
        nextGuid := createNextGuid s pl faults
        pEndOfVars := s.pEndOfVars + pl.size
        lastVarSize := pl.size % 65536 })
      fun p => (.deviceError, recoverFromFlashUpdateFailure
        { s with mem := applySteps s.mem (performed faults steps)
                 nextGuid := createNextGuid s pl faults } p pl.size s.pEndOfVars) := by
    simp only [res, createVariableEx, ← hpl, if_neg hbig, hspace, Bool.not_true,
      Bool.false_eq_true, if_false, ← hsteps, ← hfaults]
    cases brokenAt faults steps <;> rfl
  have hrsize : (hd.raw flashEmptyNext).size = pl.size := by
    have hx := createPlan_extSize hpl ext
    rw [Raw.size]
    change sizeofNvar + (hd.contents ++ extTail (hd.auth.map HdrAuth.authFields) hd.cks
      (hd.flagsWith true) hd.contents).length = pl.size
    rw [List.length_append, extTail_length, hpsize, hx]
    change _ + (_ + extTailSize ((createdAuth attributes ext).map HdrAuth.authFields) cfg.checksum) = _
    rw [createdAuth_fields]
  -- both a cut and a whole run leave the rest of the memory alone
  have hframe : ∀ A : List Step, (∀ st ∈ A, st ∈ steps) → faults ≠ some 0 →
      ∀ a, a < s.pEndOfVars ∨ s.pEndOfVars + pl.size ≤ a →
        a < s.guidSlot s.nextGuid ∨ s.guidSlot s.nextGuid + sizeofGuid ≤ a
          ∨ createNextGuid s pl faults = s.nextGuid → applySteps s.mem A a = s.mem a := by
    intro A hA hf a ha hg
    refine createSteps_frame hpl happ ext hA ha ?_
    rw [createNextGuid_eq guid hf] at hg
    by_cases hne : createSlotSteps s guid pl = []
    · exact Or.inr (Or.inr hne)
    · rw [if_neg hne] at hg
      omega
  have hguid : ∀ f : Faults, f ≠ some 0 → createNextGuid s pl f = s.nextGuid
      ∨ createNextGuid s pl f = s.nextGuid + 1 ∧ s.nextGuid ≤ 255 := by
    intro f hf
    rw [createNextGuid_eq guid hf]
    by_cases hne : createSlotSteps s guid pl = []
    · rw [if_pos hne]; exact Or.inl rfl
    · rw [if_neg hne]; exact Or.inr ⟨rfl, (createSlotSteps_ne hpl hne).2.2⟩
  rcases performed_eq faults steps with ⟨hb, hp⟩ | ⟨k, hk, hp, st, hst, hb⟩
  · -- every call took effect
    right; right
    have hf : faults ≠ some 0 := by
      intro he
      rw [he] at hb
      have hfirst := hblock.first
      cases hs0 : steps with
      | nil => rw [hs0] at hfirst; simp at hfirst
      | cons x xs => rw [hs0] at hb; simp [brokenAt] at hb
    rw [hb, hp, Option.elim_none] at hres
    rw [hres]
    refine ⟨rfl, ⟨?_, hblock.done, ?_, rfl, rfl, rfl, hguid _ hf, ?_⟩, ?_, ?_⟩
    · rw [show (Rec.header hd flashEmptyNext).size = pl.size from hrsize]
      exact hroom
    · rw [show (Rec.header hd flashEmptyNext).size = pl.size from hrsize]
    · rw [show (Rec.header hd flashEmptyNext).size = pl.size from hrsize]
      exact hframe steps (fun _ h => h) hf
    · exact (createSteps_ref hpl happ ext hspace hn).1
    · have hsame : createNextGuid s pl faults = createNextGuid s pl none :=
        (createNextGuid_eq guid hf).trans (createNextGuid_eq guid (by simp)).symm
      change ∀ j, hd.ref = .index j → j.toNat < createNextGuid s pl faults
      rw [hsame]
      exact (createSteps_ref hpl happ ext hspace hn).2
  · -- the block was left at call `k`
    have hst' : st ∈ steps := List.mem_of_getElem? hst
    rw [hb, hp, Option.elim_some] at hres
    cases k with
    | zero =>
      left
      have hpf : st.pFail = s.pEndOfVars + 10 := by
        have hfirst := hblock.first
        rw [List.head?_eq_getElem?, hst] at hfirst
        simpa using hfirst
      have hg : createNextGuid s pl faults = s.nextGuid := by simp [createNextGuid, hk]
      have hrec : recoverFromFlashUpdateFailure s (s.pEndOfVars + 10) pl.size s.pEndOfVars = s :=
        recover_nothing (fun a h1 h2 => herased a h1 (by omega)) hs
      rw [hres, hpf, hg]
      exact ⟨by simp, hrec⟩
    | succ k =>
      right; left
      have hf : faults ≠ some 0 := by rw [hk]; simp
      have hklt : k + 1 < steps.length := (List.getElem?_eq_some_iff.mp hst).1
      obtain ⟨body, hbody, hbroken⟩ := hblock.broken s.pEndOfVars (hguid _ hf) (by rw [hrsize]; exact hs)
        (by rw [hrsize]; exact hspace) hklt (hblock.pFail st hst') (by
          rw [hrsize]
          exact hframe (steps.take (k + 1)) (fun _ h => List.mem_of_mem_take h) hf)
      rw [hrsize] at hbody hbroken
      rw [hres, createPlan_flags hpl]
      exact ⟨rfl, body, hbody, hbroken⟩

end

end BayTrail.Nvram
