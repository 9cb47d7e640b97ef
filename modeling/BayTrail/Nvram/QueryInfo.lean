import BayTrail.Nvram.Bounds
import BayTrail.Nvram.Collect
import BayTrail.Nvram.Crash

/-!
# The NVRAM store: `QueryVariableInfo`

`QueryVariableInfo` reports the bytes between `pEndOfVars` and the next GUID slot, and
as the largest variable what remains of them after a record header and a whole GUID.
`CreateVariableEx` needs a record header more for `IsEnoughSpace`, and for an
authenticated variable 43 bytes of extended header that the report leaves out. Where a
name and data of the reported size always fit is said exactly by `Accounted`.
-/

namespace BayTrail.Nvram

open BayTrail.Lib

/-! ## QueryVariableInfo -/

/-- `ALL_VARIABLE_ATTRIBUTES`. -/
def allVariableAttributes : UInt32 :=
  efiNonVolatile ||| efiBootserviceAccess ||| efiRuntimeAccess ||| efiHardwareErrorRecord
    ||| authenticatedVariableAttributes ||| efiAppendWrite

/-- `VarStoreInfo.NvInfo` and `VarStoreInfo.MemInfo`. -/
structure Stores where
  nvInfo : StoreInfo
  memInfo : StoreInfo

/-- The store and the interface for a new variable. -/
def Stores.info (st : Stores) (attributes : UInt32) : StoreInfo :=
  if attributes &&& efiNonVolatile != 0 then st.nvInfo else st.memInfo

def storeInterface (attributes : UInt32) : Interface :=
  if attributes &&& efiNonVolatile != 0 then .nv else .mem

structure VariableInfo where
  maximumVariableStorageSize : Nat
  remainingVariableStorageSize : Nat
  maximumVariableSize : Nat
  deriving DecidableEq

/-- `QueryVariableInfo` with all pointers given; `none` is `EFI_INVALID_PARAMETER`. The
differences are `UINT64`s, and the test `(INTN)MaxVarSize<0` is one of the top bit. -/
def queryVariableInfo (st : Stores) (attributes : UInt32) : Option VariableInfo :=
  if attributes == 0 || attributes &&& ~~~allVariableAttributes != 0
      || (attributes &&& efiRuntimeAccess != 0 && attributes &&& efiBootserviceAccess == 0) then
    none
  else
    let info := st.info attributes
    let remaining :=
      uintnSub (uintnSub info.nvramSize (sizeofGuid * (info.nextGuid + 1))) info.pEndOfVars
    let maxVarSize :=
      uintnSub (if remaining < maxNvramVariableSize then remaining else maxNvramVariableSize)
        (sizeofNvar + sizeofGuid)
    some ⟨info.nvramSize, remaining, if 2 ^ 63 ≤ maxVarSize then 0 else maxVarSize⟩

/-! ## Creating a variable -/

/-- A call that `DxeSetVariable` takes for the creation of a variable: it is in neither
store, has a name, and there is something to store. -/
structure Creates (st : Stores) (attributes : UInt32) (key : Key) (data : Bytes) : Prop where
  nv : nvFindVariable st.nvInfo key.1 key.2 = none
  mem : nvFindVariable st.memInfo key.1 key.2 = none
  name : key.1.chars ≠ []
  kept : isDelete attributes data = false

/-- Every new variable whose name and data occupy no more than what has been reported finds
the space that `CreateVariable` asks for. -/
def Honest (cfg : Config) (st : Stores) (attributes : UInt32) (r : VariableInfo) : Prop :=
  ∀ (key : Key) (data : Bytes) (ext : ExtSecFlags) (device : Faults), Creates st attributes key data →
    nameBytesLength key.1 + data.length ≤ min r.maximumVariableSize r.remainingVariableStorageSize →
    (createVariable cfg (storeInterface attributes) (st.info attributes) key.1 key.2 attributes data
      false ext device).1 ≠ .outOfResources

/-- `CopyVarStoreToMemStore` with no variable to be skipped. -/
def collected (cfg : Config) (info : StoreInfo) (preserved : Bool) : CopyResult :=
  copyVarStore cfg .mem info (initVolatileStore info.nvramSize cfg.headerLength info.flags)
    (skipSpecificNvar none) preserved {}

/-- The two collections that a call can ask for. -/
def firstPass (cfg : Config) (info : StoreInfo) : CopyResult := collected cfg info false

def secondPass (cfg : Config) (info : StoreInfo) : CopyResult :=
  collected cfg (firstPass cfg info).source true

def createStatus (cfg : Config) (attributes : UInt32) (key : Key) (data : Bytes) (ext : ExtSecFlags)
    (i : Interface) (info : StoreInfo) : Status :=
  (createVariable cfg i info key.1 key.2 attributes data false ext none).1

/-- `DxeSetVariable` from `CreateVariable` on: a variable that does not fit is tried again
in the store as collected, and then in one with the preserved variables only. The
allocator, the flash and `UpdateVarstore` are taken to do their work, and the store to be
one that `CheckStore` leaves alone. -/
def dxeCreate (cfg : Config) (st : Stores) (attributes : UInt32) (key : Key) (data : Bytes)
    (ext : ExtSecFlags) : Status :=
  let info := st.info attributes
  let create := createStatus cfg attributes key data ext
  let first := create (storeInterface attributes) info
  if first ≠ .outOfResources then first
  else if (firstPass cfg info).status ≠ .success then first
  else
    let second := create .mem (firstPass cfg info).target
    if second ≠ .outOfResources then second
    else if (secondPass cfg info).status ≠ .success then second
    else create .mem (secondPass cfg info).target

/-- The same of the whole `DxeSetVariable`. -/
def HonestSet (cfg : Config) (st : Stores) (attributes : UInt32) (r : VariableInfo) : Prop :=
  ∀ (key : Key) (data : Bytes) (ext : ExtSecFlags), Creates st attributes key data →
    nameBytesLength key.1 + data.length ≤ min r.maximumVariableSize r.remainingVariableStorageSize →
    dxeCreate cfg st attributes key data ext ≠ .outOfResources

/-! ## When the report is honest -/

/-- The size of the extended header of a new record. -/
def createExtSize (cfg : Config) (attributes : UInt32) : Nat :=
  (if isAuth attributes then 1 + 8 + hashSha256Len + 2 else 0)
    + (if cfg.checksum then (if isAuth attributes then 1 else 4) else 0)

/-- What a new record of the store takes besides header, name and data. -/
def recordOverhead (cfg : Config) (info : StoreInfo) (attributes : UInt32) : Nat :=
  (if info.nextGuid ≤ 255 then 1 else sizeofGuid) + createExtSize cfg attributes

/-- There is room for a new variable whose name and data take `n` bytes. -/
def HasRoom (cfg : Config) (info : StoreInfo) (attributes : UInt32) (n : Nat) : Prop :=
  info.pEndOfVars + (sizeofNvar + recordOverhead cfg info attributes + n)
    + sizeofGuid * (info.nextGuid + 1) + sizeofNvar ≤ info.nvramSize

/-- A name of one character and, if the data is not appended, one byte. -/
def leastSize (attributes : UInt32) : Nat := if isAppend attributes then 2 else 3

/-- The reported size of the largest variable. What remains is taken for huge if the GUID
table has grown into the records. -/
def largestReported (info : StoreInfo) : Nat :=
  let used := info.pEndOfVars + sizeofGuid * (info.nextGuid + 1)
  (if used ≤ info.nvramSize then min (info.nvramSize - used) maxNvramVariableSize
    else maxNvramVariableSize) - (sizeofNvar + sizeofGuid)

/-- Nothing can be created with the attributes; or what the report calls remaining is not
negative, and it is too little for any variable, or the overhead fits the six bytes that
a `sizeof(EFI_GUID)` leaves over, or the 16-bit limit leaves enough. -/
def Accounted (cfg : Config) (info : StoreInfo) (attributes : UInt32) : Prop :=
  attributes &&& efiBootserviceAccess = 0 ∨
    info.pEndOfVars + sizeofGuid * (info.nextGuid + 1) ≤ info.nvramSize ∧
      let remaining := info.nvramSize - sizeofGuid * (info.nextGuid + 1) - info.pEndOfVars
      remaining < sizeofNvar + sizeofGuid + leastSize attributes
        ∨ remaining ≤ maxNvramVariableSize ∧ recordOverhead cfg info attributes ≤ 6
        ∨ maxNvramVariableSize < remaining
          ∧ maxNvramVariableSize - 6 + recordOverhead cfg info attributes ≤ remaining

/-- A collection leaves room for a variable of the size. -/
def Regained (cfg : Config) (info : StoreInfo) (attributes : UInt32) (n : Nat) : Prop :=
  (firstPass cfg info).status = .success ∧ (HasRoom cfg (firstPass cfg info).target attributes n ∨
    (secondPass cfg info).status = .success ∧ HasRoom cfg (secondPass cfg info).target attributes n)

/-- The numbers of a store are numbers of their types: offsets in an address space, and a
count that is an `INT16`. -/
structure Representable (info : StoreInfo) : Prop where
  end_ : info.pEndOfVars < 2 ^ 62
  size : info.nvramSize < 2 ^ 62
  guid : info.nextGuid < 2 ^ 15

section

variable {cfg : Config} {i : Interface} {s info : StoreInfo} {attributes : UInt32}
variable {name : Name} {guid : Guid} {data : Bytes} {ext : ExtSecFlags} {device : Faults} {n : Nat}
  {st : Stores} {r : VariableInfo} {key : Key}

/-- `CreateVariable` is short of resources only for want of space. -/
theorem createVariable_outOfResources :
    (createVariable cfg i s name guid attributes data false ext device).1 = .outOfResources ↔
      2 ^ 64 ≤ (createPlan cfg s name guid attributes data.length 0 false).size
        ∨ isEnoughSpace s (createPlan cfg s name guid attributes data.length 0 false).size = false := by
  generalize hsz : (createPlan cfg s name guid attributes data.length 0 false).size = size
  unfold createVariable createVariableEx
  simp only [show List.length ([] : Bytes) = 0 from rfl, hsz]
  by_cases h1 : 2 ^ 64 ≤ size
  · rw [if_pos h1]
    exact iff_of_true rfl (Or.inl h1)
  rw [if_neg h1]
  cases h2 : isEnoughSpace s size with
  | false => exact iff_of_true rfl (Or.inr rfl)
  | true =>
    simp only [Bool.not_true, Bool.false_eq_true, if_false]
    refine iff_of_false ?_ (by simpa using h1)
    generalize brokenAt _ _ = b
    cases b with
    | none => simp
    | some p => simp

/-- The size of a new record. -/
theorem createPlan_size_eq (cfg : Config) (s : StoreInfo) (name : Name) (guid : Guid)
    (attributes : UInt32) (n : Nat) :
    (createPlan cfg s name guid attributes n 0 false).size
      = sizeofNvar + (if 255 < s.nextGuid ∧ s.nextGuid ≤ guidSearch s guid then sizeofGuid else 1)
        + (nameBytesLength name + n) + createExtSize cfg attributes := by
  unfold createExtSize
  simp only [createPlan, Bool.false_or, Bool.and_eq_true, decide_eq_true_eq]
  omega

theorem isDelete_false (h : isDelete attributes data = false) :
    attributes &&& efiBootserviceAccess ≠ 0 ∧ (isAppend attributes = false → data ≠ []) := by
  unfold isDelete at h
  simp only [Bool.or_eq_false_iff, Bool.and_eq_false_imp, Bool.not_eq_true', beq_eq_false_iff_ne,
    List.isEmpty_eq_false_iff] at h
  exact ⟨h.2, h.1⟩

/-- Some byte string of the width is not in the list. -/
theorem exists_bytes_not_mem {w : Nat} (l : List Bytes) (hl : l.length < 256 ^ w) :
    ∃ bs : Bytes, bs.length = w ∧ bs ∉ l := by
  by_contra hno
  have hall : ∀ n, leBytes w n ∈ l := by
    intro n
    by_contra hn
    exact hno ⟨leBytes w n, leBytes_length w n, hn⟩
  have hnd : ((List.range (l.length + 1)).map (leBytes w)).Nodup := by
    refine List.Nodup.map_on (fun a ha b hb he => ?_) List.nodup_range
    have h1 := List.mem_range.mp ha
    have h2 := List.mem_range.mp hb
    have hv := congrArg leVal he
    rw [leVal_leBytes, leVal_leBytes, Nat.mod_eq_of_lt (by omega), Nat.mod_eq_of_lt (by omega)] at hv
    exact hv
  have hsub : (List.range (l.length + 1)).map (leBytes w) ⊆ l := by
    intro bs hbs
    obtain ⟨n, -, rfl⟩ := List.mem_map.mp hbs
    exact hall n
  have hlen := (hnd.subperm hsub).length_le
  simp only [List.length_map, List.length_range] at hlen
  omega

/-- The search ends at `NextGuid` if no slot holds the GUID. -/
theorem guidSearch_fresh
    (hg : ∀ j, j < s.nextGuid → peek s.mem (s.guidSlot j) sizeofGuid ≠ guid.bytes) :
    guidSearch s guid = s.nextGuid := by
  have hloop : ∀ n j, j + n ≤ s.nextGuid → guidSearchLoop s guid n j = j + n := by
    intro n
    induction n with
    | zero => exact fun _ _ => rfl
    | succ n ih =>
      intro j hj
      unfold guidSearchLoop
      rw [if_neg (hg j (by omega)), ih (j + 1) (by omega)]
      omega
  have := hloop s.nextGuid 0 (by omega)
  unfold guidSearch
  omega

/-- There is a GUID that no record and no slot of the stores has. -/
theorem fresh_guid (l : List StoreInfo) (hl : l.length < 2 ^ 32) (hrep : ∀ s ∈ l, Representable s) :
    ∃ guid : Guid, ∀ s ∈ l, (∀ name : Name, nvFindVariable s name guid = none)
      ∧ guidSearch s guid = s.nextGuid := by
  let used := fun s : StoreInfo => (List.range s.pEndOfVars).map (nvGetGuid s)
    ++ (List.range s.nextGuid).map fun j => peek s.mem (s.guidSlot j) sizeofGuid
  have hlen : (l.flatMap used).length ≤ l.length * 2 ^ 63 := by
    rw [List.length_flatMap]
    refine (List.sum_le_card_nsmul _ (2 ^ 63) fun n hn => ?_).trans (by simp)
    obtain ⟨s, hs, rfl⟩ := List.mem_map.mp hn
    have h1 := (hrep s hs).end_
    have h2 := (hrep s hs).guid
    simp only [used, List.length_append, List.length_map, List.length_range]
    omega
  obtain ⟨bs, hbs, hno⟩ := exists_bytes_not_mem (w := 16) (l.flatMap used) (by omega)
  refine ⟨⟨bs, hbs⟩, fun s hs => ?_⟩
  have hno' : bs ∉ used s := fun h => hno (List.mem_flatMap.mpr ⟨s, hs, h⟩)
  simp only [used, List.mem_append, List.mem_map, List.mem_range, not_or, not_exists, not_and] at hno'
  exact ⟨fun _ => nvFindVariable_fresh hno'.1, guidSearch_fresh hno'.2⟩

/-! ## Room for a variable -/

theorem HasRoom.mono {n' : Nat} (h : HasRoom cfg s attributes n) (hle : n' ≤ n) :
    HasRoom cfg s attributes n' := by
  unfold HasRoom at *
  omega

/-- The room is enough whatever the GUID, and what is needed if the GUID is new. -/
theorem HasRoom.create (h : HasRoom cfg s attributes (nameBytesLength name + data.length))
    (hs : s.nvramSize < 2 ^ 62) :
    (createVariable cfg i s name guid attributes data false ext device).1 ≠ .outOfResources := by
  have hplan : (createPlan cfg s name guid attributes data.length 0 false).size
      ≤ sizeofNvar + recordOverhead cfg s attributes + (nameBytesLength name + data.length) := by
    rw [createPlan_size_eq]
    unfold recordOverhead sizeofGuid
    split <;> split <;> omega
  unfold HasRoom at h
  rw [Ne, createVariable_outOfResources, not_or, Bool.not_eq_false]
  refine ⟨by omega, ?_⟩
  unfold isEnoughSpace
  rw [decide_eq_true_eq]
  omega

theorem hasRoom_of_create (hg : guidSearch s guid = s.nextGuid)
    (h : (createVariable cfg i s name guid attributes data false ext device).1 ≠ .outOfResources) :
    HasRoom cfg s attributes (nameBytesLength name + data.length) := by
  rw [Ne, createVariable_outOfResources, not_or, Bool.not_eq_false] at h
  have hspace := h.2
  unfold isEnoughSpace at hspace
  rw [createPlan_size_eq, hg, decide_eq_true_eq] at hspace
  unfold HasRoom recordOverhead
  by_cases hfull : s.nextGuid ≤ 255
  · rw [if_pos hfull]
    rw [if_neg (by omega)] at hspace
    omega
  · rw [if_neg hfull]
    rw [if_pos (by omega)] at hspace
    omega

theorem Stores.info_mem (st : Stores) (attributes : UInt32) :
    st.info attributes ∈ [st.nvInfo, st.memInfo] := by
  unfold Stores.info
  split <;> simp

theorem Stores.info_representable (st : Stores) (attributes : UInt32)
    (hn : Representable st.nvInfo) (hm : Representable st.memInfo) :
    Representable (st.info attributes) := by
  unfold Stores.info
  split <;> assumption

/-- The smaller of the two figures. -/
theorem queryVariableInfo_min (hs : Representable (st.info attributes))
    (hq : queryVariableInfo st attributes = some r) :
    min r.maximumVariableSize r.remainingVariableStorageSize
      = largestReported (st.info attributes) := by
  have h1 := hs.end_
  have h2 := hs.size
  have h3 := hs.guid
  unfold queryVariableInfo at hq
  split at hq
  · exact absurd hq (by simp)
  obtain rfl := Option.some.inj hq
  generalize st.info attributes = info at h1 h2 h3
  simp only
  have hused : info.pEndOfVars + sizeofGuid * (info.nextGuid + 1) < 2 ^ 63 := by
    unfold sizeofGuid
    omega
  unfold largestReported
  simp only
  generalize hu : info.pEndOfVars + sizeofGuid * (info.nextGuid + 1) = used at hused
  have hrem : uintnSub (uintnSub info.nvramSize (sizeofGuid * (info.nextGuid + 1))) info.pEndOfVars
      = if used ≤ info.nvramSize then info.nvramSize - used
        else 2 ^ 64 + info.nvramSize - used := by
    rw [← hu]
    unfold uintnSub sizeofGuid
    split <;> omega
  have hmax : ∀ x : Nat, x ≤ maxNvramVariableSize →
      (if 2 ^ 63 ≤ uintnSub x (sizeofNvar + sizeofGuid) then 0
        else uintnSub x (sizeofNvar + sizeofGuid)) = x - (sizeofNvar + sizeofGuid) := by
    intro x hx
    unfold uintnSub sizeofNvar sizeofGuid
    unfold maxNvramVariableSize at hx
    split <;> omega
  have hmin : ∀ x : Nat, (if x < maxNvramVariableSize then x else maxNvramVariableSize)
      = min x maxNvramVariableSize := by
    intro x
    split <;> omega
  rw [hrem, hmin, hmax _ (Nat.min_le_right _ _)]
  unfold maxNvramVariableSize sizeofNvar sizeofGuid
  by_cases hfit : used ≤ info.nvramSize
  · rw [if_pos hfit, if_pos hfit]
    omega
  · -- the difference has wrapped, and is far beyond the 16-bit limit
    rw [if_neg hfit, if_neg hfit]
    omega

/-! ## New variables of each size -/

theorem two_le_nameBytesLength (h : name.chars ≠ []) : 2 ≤ nameBytesLength name := by
  have := List.length_pos_of_ne_nil h
  unfold nameBytesLength
  split <;> omega

/-- The name of one character that the smallest new variable has. -/
theorem shortName_nonzero : (0 : UInt16) ∉ [65] := by decide

def shortName : Name := ⟨[65], shortName_nonzero⟩

/-- For each size from the least one on there is a new variable, with a GUID that the
stores have not seen. -/
theorem exists_creates (st : Stores) (l : List StoreInfo) (hl : l.length < 2 ^ 32)
    (hrep : ∀ s ∈ l, Representable s) (hn : st.nvInfo ∈ l) (hm : st.memInfo ∈ l)
    (hbs : attributes &&& efiBootserviceAccess ≠ 0) (hleast : leastSize attributes ≤ n) :
    ∃ (key : Key) (data : Bytes), Creates st attributes key data
      ∧ nameBytesLength key.1 + data.length = n ∧ ∀ s ∈ l, guidSearch s key.2 = s.nextGuid := by
  obtain ⟨guid, hfresh⟩ := fresh_guid l hl hrep
  have hname : nameBytesLength shortName = 2 := by decide
  have hn2 : 2 ≤ n := by
    unfold leastSize at hleast
    split at hleast <;> omega
  have hdel : isDelete attributes (List.replicate (n - 2) 0) = false := by
    have hd : (!isAppend attributes && (List.replicate (n - 2) (0 : UInt8)).isEmpty) = false := by
      cases happ : isAppend attributes with
      | true => rfl
      | false =>
        unfold leastSize at hleast
        rw [happ] at hleast
        simp only [Bool.false_eq_true, if_false] at hleast
        rw [Bool.not_false, Bool.true_and, List.isEmpty_eq_false_iff]
        intro he
        have := congrArg List.length he
        simp only [List.length_replicate, List.length_nil] at this
        omega
    unfold isDelete
    rw [hd, Bool.false_or]
    exact beq_eq_false_iff_ne.mpr hbs
  refine ⟨(shortName, guid), List.replicate (n - 2) 0,
    ⟨(hfresh _ hn).1 _, (hfresh _ hm).1 _, List.cons_ne_nil _ _, hdel⟩, ?_, fun s hs => (hfresh s hs).2⟩
  rw [hname, List.length_replicate]
  omega

/-- Name and data of a new variable are of the least size at least. -/
theorem Creates.least (hc : Creates st attributes key data) :
    leastSize attributes ≤ nameBytesLength key.1 + data.length := by
  have hn := two_le_nameBytesLength hc.name
  unfold leastSize
  cases happ : isAppend attributes with
  | true =>
    simp only [if_true]
    omega
  | false =>
    have := List.length_pos_of_ne_nil ((isDelete_false hc.kept).2 happ)
    simp only [Bool.false_eq_true, if_false]
    omega

/-- What is accounted for leaves room for all that is reported. -/
theorem accounted_iff (hs : Representable s) : Accounted cfg s attributes ↔
    attributes &&& efiBootserviceAccess = 0 ∨ largestReported s < leastSize attributes
      ∨ HasRoom cfg s attributes (largestReported s) := by
  have h1 : s.nvramSize < 2 ^ 62 := hs.size
  have hleast : 2 ≤ leastSize attributes ∧ leastSize attributes ≤ 3 := by
    unfold leastSize
    split <;> omega
  unfold Accounted HasRoom largestReported maxNvramVariableSize sizeofNvar sizeofGuid
  refine or_congr_right ?_
  simp only
  split <;> omega

/-- The report is honest of `CreateVariable` exactly when all that a record takes is
accounted for. -/
theorem honest_iff_accounted (hn : Representable st.nvInfo)
    (hm : Representable st.memInfo) (hq : queryVariableInfo st attributes = some r) :
    Honest cfg st attributes r ↔ Accounted cfg (st.info attributes) attributes := by
  have hs := st.info_representable attributes hn hm
  have hmin := queryVariableInfo_min hs hq
  rw [accounted_iff hs]
  constructor
  · intro hon
    by_cases hbs : attributes &&& efiBootserviceAccess = 0
    · exact Or.inl hbs
    by_cases hleast : leastSize attributes ≤ largestReported (st.info attributes)
    · obtain ⟨key, data, hc, hlen, hg⟩ := exists_creates st [st.nvInfo, st.memInfo] (by simp)
        (by simp [hn, hm]) (by simp) (by simp) hbs hleast
      have hroom := hasRoom_of_create (hg _ (by simpa using st.info_mem attributes))
        (hon key data .zero none hc (by omega))
      rw [hlen] at hroom
      exact Or.inr (Or.inr hroom)
    · exact Or.inr (Or.inl (by omega))
  · intro ha key data ext device hc hsize
    have hle := hc.least
    obtain hbs | hlow | hroom := ha
    · exact absurd hbs (isDelete_false hc.kept).1
    · exact absurd hlow (by omega)
    · exact (hroom.mono (by omega)).create hs.size

/-- A creation is short of resources if it is so in the store and in each collection of it
that succeeds. -/
theorem dxeCreate_cases :
    dxeCreate cfg st attributes key data ext ≠ .outOfResources ↔
      createStatus cfg attributes key data ext (storeInterface attributes) (st.info attributes)
          ≠ .outOfResources
        ∨ (firstPass cfg (st.info attributes)).status = .success
          ∧ (createStatus cfg attributes key data ext .mem (firstPass cfg (st.info attributes)).target
                ≠ .outOfResources
            ∨ (secondPass cfg (st.info attributes)).status = .success
              ∧ createStatus cfg attributes key data ext .mem
                  (secondPass cfg (st.info attributes)).target ≠ .outOfResources) := by
  unfold dxeCreate
  simp only
  generalize createStatus cfg attributes key data ext (storeInterface attributes) (st.info attributes)
    = first
  generalize createStatus cfg attributes key data ext .mem (firstPass cfg (st.info attributes)).target
    = second
  generalize createStatus cfg attributes key data ext .mem (secondPass cfg (st.info attributes)).target
    = third
  generalize (firstPass cfg (st.info attributes)).status = st1
  generalize (secondPass cfg (st.info attributes)).status = st2
  split_ifs <;> tauto

/-- The report is honest of `SetVariable` exactly when that is so or a collection makes up
for what is missing. -/
theorem honestSet_iff {st : Stores} {r : VariableInfo} (hn : Representable st.nvInfo)
    (hm : Representable st.memInfo) (h1 : Representable (firstPass cfg (st.info attributes)).target)
    (h2 : Representable (secondPass cfg (st.info attributes)).target)
    (hq : queryVariableInfo st attributes = some r) :
    HonestSet cfg st attributes r ↔ Accounted cfg (st.info attributes) attributes
      ∨ Regained cfg (st.info attributes) attributes (largestReported (st.info attributes)) := by
  have hmem := st.info_mem attributes
  have hs := st.info_representable attributes hn hm
  have hmin := queryVariableInfo_min hs hq
  constructor
  · intro hon
    rw [accounted_iff hs]
    by_cases hbs : attributes &&& efiBootserviceAccess = 0
    · exact Or.inl (Or.inl hbs)
    by_cases hleast : leastSize attributes ≤ largestReported (st.info attributes)
    · -- a call for the largest size with a GUID new to all the stores is the worst one
      obtain ⟨key, data, hc, hlen, hg⟩ := exists_creates st
        [st.nvInfo, st.memInfo, (firstPass cfg (st.info attributes)).target,
          (secondPass cfg (st.info attributes)).target] (by simp)
        (by simp [hn, hm, h1, h2]) (by simp) (by simp) hbs hleast
      have hcall := hon key data .zero hc (by omega)
      rw [← hlen]
      obtain h | ⟨hst, h | ⟨hst', h⟩⟩ := dxeCreate_cases.mp hcall
      · exact Or.inl (Or.inr (Or.inr (hasRoom_of_create (hg _ (by
          simp only [List.mem_cons] at hmem ⊢
          tauto)) h)))
      · exact Or.inr ⟨hst, Or.inl (hasRoom_of_create (hg _ (by simp)) h)⟩
      · exact Or.inr ⟨hst, Or.inr ⟨hst', hasRoom_of_create (hg _ (by simp)) h⟩⟩
    · exact Or.inl (Or.inr (Or.inl (by omega)))
  · intro h key data ext hc hsize
    refine dxeCreate_cases.mpr ?_
    obtain ha | ⟨hst, hroom | ⟨hst', hroom⟩⟩ := h
    · exact Or.inl ((honest_iff_accounted hn hm hq).mpr ha key data ext none hc hsize)
    · exact Or.inr ⟨hst, Or.inl ((hroom.mono (by omega)).create h1.size)⟩
    · exact Or.inr ⟨hst, Or.inr ⟨hst', (hroom.mono (by omega)).create h2.size⟩⟩

/-! ## Authenticated variables -/

/-- `EFI_VARIABLE_NON_VOLATILE`, `_BOOTSERVICE_ACCESS` and
`_TIME_BASED_AUTHENTICATED_WRITE_ACCESS`. -/
def authAttributes : UInt32 := 0x23

/-- A variable has been deleted in a store of 512 bytes. -/
def deletedStores : Stores :=
  ⟨(storeSet plain .nv (storeSet plain .nv (blank 96 512) { oneByte nameA with data := List.replicate 60 1 } none).2
    { oneByte nameA with data := [] } none).2, blank 0 512⟩

/-- The extended header that is not reported has room when the variable is collected. -/
theorem honestSet_deleted : HonestSet plain deletedStores authAttributes ⟨512, 311, 285⟩ := by
  have hfit : Regained plain (deletedStores.info authAttributes) authAttributes
      (largestReported (deletedStores.info authAttributes)) := by
    unfold Regained HasRoom
    decide +kernel
  exact (honestSet_iff ⟨by decide +kernel, by decide +kernel, by decide +kernel⟩ ⟨by decide, by decide, by decide⟩
    ⟨by decide +kernel, by decide +kernel, by decide +kernel⟩
    ⟨by decide +kernel, by decide +kernel, by decide +kernel⟩ (by decide +kernel)).mpr (Or.inr hfit)

def smallStores : Stores := ⟨blank 96 512, blank 0 512⟩

theorem smallStores_facts :
    queryVariableInfo smallStores authAttributes = some ⟨512, 400, 374⟩
    ∧ dxeCreate plain smallStores authAttributes (nameA, guidZero) (List.replicate 372 0) .zero
      = .outOfResources := by
  decide +kernel

/-- Of the 400 bytes of an empty store 374 are reported for one variable, and with 43 bytes
of extended header it needs 428. -/
theorem not_honestSet : ¬ ∀ (cfg : Config) (h size : Nat) (st : Stores) (M : Contents)
    (attributes : UInt32) (r : VariableInfo), Run cfg h size (Safe cfg) st.nvInfo M →
    Representable st.nvInfo → Representable st.memInfo →
    queryVariableInfo st attributes = some r → HonestSet cfg st attributes r := by
  intro H
  obtain ⟨hq, hfail⟩ := smallStores_facts
  refine H plain 96 512 smallStores _ authAttributes _ Run.blank ?_ ?_ hq (nameA, guidZero)
    (List.replicate 372 0) .zero ⟨nvFindVariable_blank _ _ _, nvFindVariable_blank _ _ _, ?_, ?_⟩ ?_ hfail
  · exact ⟨by decide, by decide, by decide⟩
  · exact ⟨by decide, by decide, by decide⟩
  · exact List.cons_ne_nil _ _
  · decide +kernel
  · decide +kernel

end

end BayTrail.Nvram
