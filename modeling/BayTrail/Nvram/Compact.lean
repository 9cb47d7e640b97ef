import BayTrail.Nvram.Iterate

/-!
# The NVRAM store: what a garbage collection copies

A copy re-encodes a variable as one header record: the chain is collapsed, the GUID
index is looked up in the new table, and the extended header is rebuilt. `Copied`
is the invariant of the copy loop. It says which variables of the source the target
holds, and that the target occupies no more than the records `Q` of these variables
do in the source and no more GUID slots than the indexes `I` they use there, which is
why there is room for each of them.
-/

namespace BayTrail.Nvram

open BayTrail.Lib

/-! ## Creating in memory -/

theorem effective_mem : ∀ (steps : List Step) (m : Mem) (device : Faults),
    effective .mem m steps device = none
  | [], _, _ => rfl
  | st :: steps, m, device => by
    unfold effective
    rw [if_neg (by simp), effective_mem steps]
    rfl

section

variable {cfg : Config} {s : StoreInfo} {k : Key} {attributes : UInt32} {data appendData : Bytes}
  {oldVarGuid : Bool} {pl : CreatePlan}

/-- `MemProgram` never fails. -/
theorem createVariableEx_mem
    (hpl : pl = createPlan cfg s k.1 k.2 attributes data.length appendData.length oldVarGuid)
    (hbig : pl.size < 2 ^ 64) (hspace : isEnoughSpace s pl.size = true) (ext : ExtSecFlags)
    (device : Faults) :
    createVariableEx cfg .mem s k.1 k.2 attributes data oldVarGuid ext appendData device
      = (.success, { s with
          mem := applySteps s.mem (createSteps cfg s k.1 k.2 attributes data ext appendData pl)
          nextGuid := createNextGuid s pl none
          pEndOfVars := s.pEndOfVars + pl.size
          lastVarSize := pl.size % 65536 }) := by
  unfold createVariableEx
  simp only [← hpl, effective_mem, performed, brokenAt]
  rw [if_neg (by omega), if_neg (by simp [hspace])]

/-! ## The GUID table -/

/-- A GUID that is not found is in none of the slots. -/
theorem guidSearchLoop_miss {guid : Guid} : ∀ {n i j : Nat}, i ≤ j → j < guidSearchLoop s guid n i →
    peek s.mem (s.guidSlot j) sizeofGuid ≠ guid.bytes
  | 0, i, j, h1, h2 => by
    unfold guidSearchLoop at h2
    omega
  | n + 1, i, j, h1, h2 => by
    unfold guidSearchLoop at h2
    split at h2
    next h => omega
    next h =>
      by_cases hj : j = i
      · rw [hj]
        exact h
      · exact guidSearchLoop_miss (by omega) h2

theorem guidSearch_miss {guid : Guid} {j : Nat} (hj : j < guidSearch s guid) :
    peek s.mem (s.guidSlot j) sizeofGuid ≠ guid.bytes :=
  guidSearchLoop_miss (Nat.zero_le _) hj

end

/-! ## CopyVariable -/

/-- What the attributes of a stored variable say. -/
theorem attributes_test : ∀ rt nv hw : Bool, ∀ a ∈ ([0, 0x10, 0x20, 0x30] : List UInt32),
    let x := efiBootserviceAccess ||| (if rt then efiRuntimeAccess else 0)
      ||| (if nv then efiNonVolatile else 0) ||| (if hw then efiHardwareErrorRecord else 0) ||| a
    isAuth x = (a != 0) ∧ isAppend x = false ∧ keptAttributes nv x = x := by
  intro rt nv hw a ha
  simp only [List.mem_cons, List.not_mem_nil, or_false] at ha
  rcases ha with rfl | rfl | rfl | rfl <;> cases rt <;> cases nv <;> cases hw <;>
    exact ⟨rfl, rfl, rfl⟩

theorem Header.attributes_test (hd : Header) (nv : Bool) :
    isAuth (hd.attributes nv) = hd.auth.isSome ∧ isAppend (hd.attributes nv) = false
      ∧ keptAttributes nv (hd.attributes nv) = hd.attributes nv := by
  unfold Header.attributes
  cases ha : hd.auth with
  | none =>
    obtain ⟨h1, h2, h3⟩ := Nvram.attributes_test hd.rt nv hd.hw 0 (by simp)
    exact ⟨h1, h2, h3⟩
  | some a =>
    have hmem : a.attr ∈ ([0, 0x10, 0x20, 0x30] : List UInt32) := by
      rcases a.attr_ok with h | h | h <;> simp [h]
    obtain ⟨h1, h2, h3⟩ := Nvram.attributes_test hd.rt nv hd.hw a.attr hmem
    refine ⟨h1.trans ?_, h2, h3⟩
    rcases a.attr_ok with h | h | h <;> rw [h] <;> rfl

/-- The flags that are handed to `CreateVariable` for the copy. -/
def copiedExt (s : StoreInfo) (p : Nat) (hd : Header) : ExtSecFlags :=
  if hd.auth.isSome then getVarAuthExtFlags s p ExtSecFlags.zero else ExtSecFlags.zero

section

variable {h : Nat} {s : StoreInfo} {D A T : List Rec} {p q : Nat} {hd : Header} {rf : Rec} {k : Key}

/-- `CopyVariable` reads the variable and creates it in the target. -/
theorem Store.copyVariable_eq (S : Store h s D A T)
    (hv : VarAt (placed h (D ++ (A ++ T))) p hd q rf) (hk : hd.Named s k) {bufferSize : Nat}
    (hbuf : rf.payload.length ≤ bufferSize) (cfg : Config) (i : Interface) (dst : StoreInfo)
    (device : Faults) :
    copyVariable cfg i bufferSize s dst k device
      = createVariable cfg i dst k.1 k.2 (hd.attributes s.flags.nonVolatile) rf.payload
          hd.ref.isFull (copiedExt s p hd) device := by
  have hfind := S.find hv hk
  obtain ⟨-, -, hget, hholds⟩ := S.data_at hv
  obtain ⟨hval, n, hm, -⟩ := hv
  have hA := S.mem_walked hm hval
  have hat := S.logAt.mem_at hA
  have hfit := S.logAt.fits _ hA
  have hvar : nvIsVariable s p = true := nvIsVariable_eq hat hfit
  have hattr := nvGetAttributesFromNvar_eq hat (lt_trans hfit.size_lt (by decide))
  obtain ⟨-, -, -, hauth, -, hfull, -⟩ := hd.flags_test
  have hnot : ¬ bufferSize < rf.payload.length := by omega
  have hpeek : peek s.mem (q + rf.dataOffset) rf.payload.length = rf.payload :=
    hholds.peek_eq rfl
  unfold copyVariable nvGetVariableFromNvar copiedExt hasFlag
  rw [hfind]
  simp only [hvar, hget, hattr, hnot, flagsAt_header hat, hauth, hfull, hpeek, Bool.not_true,
    Bool.false_eq_true, if_false, ne_eq, not_true_eq_false]

/-- The value that is created is the value of the variable. -/
theorem Store.copied_value (S : Store h s D A T)
    (hv : VarAt (placed h (D ++ (A ++ T))) p hd q rf) :
    createdValue s.flags.nonVolatile (hd.attributes s.flags.nonVolatile) rf.payload
      (copiedExt s p hd) = hd.value s rf := by
  obtain ⟨h1, -, h3⟩ := hd.attributes_test s.flags.nonVolatile
  unfold createdValue Header.value copiedExt
  rw [h1, h3]
  cases ha : hd.auth with
  | none =>
    obtain ⟨hval, n, hm, hc⟩ := hv
    obtain ⟨q', rf', hc', -, hcount⟩ := S.chains p hd n hm hval
    obtain ⟨-, rfl⟩ := chain_unique (fun _ _ _ => placed_unique) hc hc'
    rw [ha] at hcount
    have : rf.count = none := by simpa using hcount
    simp [this]
  | some a =>
    obtain ⟨hcount, hhash⟩ := S.authExtFlags hv ha ExtSecFlags.zero
    simp [hcount, hhash]

end

/-! ## The size of the copy -/

/-- The size of a variable that is stored in one record. -/
def compactSize (hd : Header) (data : Bytes) : Nat :=
  sizeofNvar + hd.ref.bytes.length + nameBytesLength hd.name + data.length
    + extTailSize (hd.auth.map HdrAuth.authFields) hd.cks

/-- What a garbage collection needs of a variable: the name, in Unicode, fits the buffer
it is read to, and name and data fit one record. -/
def Collectable (s : StoreInfo) (hd : Header) (rf : Rec) : Prop :=
  2 * (hd.name.chars.length + 1) ≤ s.nvramSize ∧ compactSize hd rf.payload < flashEmptySize

/-- The records of a variable are not smaller than its copy. -/
theorem compactSize_le {hd : Header} {n h p q : Nat} {L : List Rec} {rf : Rec}
    (hm : (p, Rec.header hd n) ∈ placed h L) (hc : Chain (placed h L) p (.header hd n) q rf) :
    compactSize hd rf.payload ≤ (Rec.header hd n).size + (if q = p then 0 else rf.size) := by
  have hname : nameBytesLength hd.name ≤ nameSize hd.ascii hd.name := by
    unfold nameBytesLength nameSize
    cases hasc : hd.ascii with
    | true => simp [hd.ascii_ok hasc]
    | false =>
      simp only [Bool.false_eq_true, if_false]
      split <;> omega
  have hhd : (Rec.header hd n).size = sizeofNvar + (hd.ref.bytes.length + nameSize hd.ascii hd.name
      + hd.data.length + extTailSize (hd.auth.map HdrAuth.authFields) hd.cks) := by
    simp only [Rec.size, Rec.raw, Header.raw, Raw.size, Header.contents, Header.key,
      List.length_append, nameBytes_length, extTail_length]
  have hpay := rf.payload_lt
  unfold compactSize
  by_cases hqp : q = p
  · rw [if_pos hqp, hhd]
    have hrf : rf = .header hd n := placed_unique (hqp ▸ hc.mem hm) hm
    rw [hrf]
    simp only [Rec.payload]
    omega
  · rw [if_neg hqp, hhd]
    omega

/-- `CreateVariableEx` is handed a variable that takes one record of that size. -/
theorem copyPlan_size {cfg : Config} {dst : StoreInfo} {hd : Header} {k : Key} {data : Bytes}
    {nv : Bool} {pl : CreatePlan}
    (hpl : pl = createPlan cfg dst k.1 k.2 (hd.attributes nv) data.length 0 hd.ref.isFull)
    (hname : hd.name = k.1) (hcks : hd.cks = cfg.checksum) (hfull : pl.fullGuid = hd.ref.isFull) :
    pl.size = compactSize hd data := by
  have hauth := (hd.attributes_test nv).1
  have hext : (if hd.auth.isSome then 1 + 8 + hashSha256Len + 2 else 0)
      + (if cfg.checksum then (if hd.auth.isSome then 1 else 4) else 0)
      = extTailSize (hd.auth.map HdrAuth.authFields) hd.cks := by
    rw [← hcks]
    unfold extTailSize
    cases ha : hd.auth with
    | none => cases hd.cks <;> rfl
    | some a =>
      have hlen : a.keyHash.length = 32 := a.len
      cases hd.cks <;> simp [HdrAuth.authFields, hlen, hashSha256Len]
  have hsize : pl.size = sizeofNvar + 0 + (if pl.fullGuid then sizeofGuid else 1)
      + nameBytesLength k.1 + (data.length
        + ((if hd.auth.isSome then 1 + 8 + hashSha256Len + 2 else 0)
          + (if cfg.checksum then (if hd.auth.isSome then 1 else 4) else 0))) := by
    rw [hpl]
    simp only [createPlan, hauth]
  rw [hsize, hext, hfull, ← hname]
  unfold compactSize
  rw [hd.ref.bytes_length]
  omega

/-! ## The invariant of the copy -/

/-- `x` is a record of a variable whose header is before `b`. -/
def UsedBefore (P : List (Nat × Rec)) (b : Nat) (x : Nat × Rec) : Prop :=
  ∃ p hd q rf n, VarAt P p hd q rf ∧ (p, Rec.header hd n) ∈ P ∧ p < b
    ∧ (x = (p, .header hd n) ∨ x = (q, rf))

/-- The target `dst` with the log `B` holds the `kept` variables of the log `P` of `src`
whose headers are before `b`; `Q` are their records and `I` their GUID indexes. -/
structure Copied (h : Nat) (src : StoreInfo) (P : List (Nat × Rec)) (kept : Key → Prop) (b : Nat)
    (dst : StoreInfo) (B : List Rec) (Q : List (Nat × Rec)) (I : List UInt8) : Prop where
  store : Store h dst [] B []
  head : headSigned B = true
  size : dst.nvramSize = src.nvramSize
  flags : dst.flags = src.flags
  reads : ∀ k v, Reads dst (placed h ([] ++ (B ++ []))) k v ↔
    ∃ p hd q rf, VarAt P p hd q rf ∧ p < b ∧ hd.Named src k ∧ kept k ∧ v = hd.value src rf
  used : ∀ x ∈ Q, x ∈ P ∧ UsedBefore P b x
  nodup : Q.Nodup
  room : dst.pEndOfVars ≤ h + (Q.map fun x => x.2.size).sum
  slots : dst.nextGuid = I.length
  slot : ∀ j i, I[j]? = some i →
    GuidRef.resolve dst (.index (UInt8.ofNat j)) = GuidRef.resolve src (.index i)
  inUse : I.Nodup
  refs : ∀ i ∈ I, ∃ p hd q rf, VarAt P p hd q rf ∧ p < b ∧ hd.ref = .index i
  clear : ∀ a, dst.pEndOfVars ≤ a → a + sizeofGuid * dst.nextGuid < dst.nvramSize →
    dst.mem a = flashEmptyByte

section

variable {cfg : Config} {h : Nat} {src dst : StoreInfo} {D A T B : List Rec} {kept : Key → Prop}
  {b b' : Nat}
  {Q : List (Nat × Rec)} {I : List UInt8} {p q n : Nat} {hd : Header} {rf : Rec} {k : Key}
variable {P : List (Nat × Rec)}

theorem UsedBefore.mono {x : Nat × Rec} (hx : UsedBefore P b x)
    (hb : b ≤ b') : UsedBefore P b' x := by
  obtain ⟨p, hd, q, rf, n, hv, hm, hlt, hor⟩ := hx
  exact ⟨p, hd, q, rf, n, hv, hm, by omega, hor⟩

/-- Variables that are not kept are passed over. -/
theorem Copied.skip (C : Copied h src P kept b dst B Q I) (hb : b ≤ b')
    (hgap : ∀ p hd q rf k, VarAt P p hd q rf → b ≤ p → p < b' → hd.Named src k → ¬ kept k) :
    Copied h src P kept b' dst B Q I :=
  { C with
    reads := by
      intro k v
      rw [C.reads]
      constructor
      · rintro ⟨p, hd, q, rf, hv, hlt, hk, hkept, he⟩
        exact ⟨p, hd, q, rf, hv, by omega, hk, hkept, he⟩
      · rintro ⟨p, hd, q, rf, hv, hlt, hk, hkept, he⟩
        refine ⟨p, hd, q, rf, hv, ?_, hk, hkept, he⟩
        by_contra hle
        exact hgap p hd q rf k hv (by omega) hlt hk hkept
    used := fun x hx => ⟨(C.used x hx).1, (C.used x hx).2.mono hb⟩
    refs := by
      intro i hi
      obtain ⟨p, hd, q, rf, hv, hlt, hr⟩ := C.refs i hi
      exact ⟨p, hd, q, rf, hv, by omega, hr⟩ }

/-- The records of a variable. -/
def varRecs (p n : Nat) (hd : Header) (q : Nat) (rf : Rec) : List (Nat × Rec) :=
  (p, .header hd n) :: if q = p then [] else [(q, rf)]

section

variable (S : Store h src D A T) (C : Copied h src (placed h (D ++ (A ++ T))) kept b dst B Q I)
  (hv : VarAt (placed h (D ++ (A ++ T))) p hd q rf)
  (hm : (p, Rec.header hd n) ∈ placed h (D ++ (A ++ T))) (hb : b ≤ p)

include hv hm in
/-- The chain of a variable, and its last record when there is more than one. -/
theorem varRecs_mem : Chain (placed h (D ++ (A ++ T))) p (.header hd n) q rf
    ∧ ∀ x ∈ varRecs p n hd q rf, x ∈ placed h (D ++ (A ++ T))
      ∧ (x = (p, .header hd n) ∨ x = (q, rf)) ∧ p ≤ x.1 := by
  obtain ⟨-, n', hm', hc⟩ := hv
  obtain ⟨-, rfl⟩ := Rec.header.inj (placed_unique hm hm')
  refine ⟨hc, fun x hx => ?_⟩
  rcases List.mem_cons.mp hx with rfl | hx
  · exact ⟨hm, Or.inl rfl, le_rfl⟩
  · split at hx
    next => exact absurd hx (by simp)
    next =>
      obtain rfl := List.mem_singleton.mp hx
      exact ⟨hc.mem hm, Or.inr rfl, hc.le⟩

include S C hv hm hb in
/-- The records of the next variable are new. -/
theorem Copied.nodup_next : (Q ++ varRecs p n hd q rf).Nodup := by
  obtain ⟨hc, -⟩ := varRecs_mem hv hm
  have hheader : (p, Rec.header hd n) ∉ Q := by
    intro hx
    obtain ⟨-, p0, hd0, q0, rf0, n0, hv0, hm0, hlt, he | he⟩ := C.used _ hx
    · have := (Prod.mk.inj he).1
      omega
    · obtain ⟨rfl, rfl⟩ := Prod.mk.inj he
      obtain ⟨-, n1, hm1, hc0⟩ := hv0
      rcases hc0.data_or with ⟨rfl, -⟩ | hd'
      · omega
      · exact absurd hd' (by simp [Rec.isData])
  have hdata : q ≠ p → (q, rf) ∉ Q := by
    intro hqp hx
    have hisd : rf.isData = true := by
      rcases hc.data_or with ⟨he, -⟩ | hd'
      · exact absurd he hqp
      · exact hd'
    obtain ⟨-, p0, hd0, q0, rf0, n0, hv0, hm0, hlt, he | he⟩ := C.used _ hx
    · rw [(Prod.mk.inj he).2] at hisd
      exact absurd hisd (by simp [Rec.isData])
    · obtain ⟨rfl, rfl⟩ := Prod.mk.inj he
      have := S.ends _ _ _ _ _ _ _ hv hv0
      omega
  refine List.Nodup.append C.nodup ?_ ?_
  · unfold varRecs
    split
    next => simp
    next hqp => simp [Ne.symm hqp]
  · intro x hx hx'
    unfold varRecs at hx'
    rcases List.mem_cons.mp hx' with rfl | hx'
    · exact hheader hx
    · split at hx'
      next => exact absurd hx' (by simp)
      next hqp =>
        obtain rfl := List.mem_singleton.mp hx'
        exact hdata hqp hx

include S C hv hm hb in
/-- There is room for the next variable: the records so far end in the source where one
of them was added, with a slot of the GUID table to spare. -/
theorem Copied.space : isEnoughSpace dst (compactSize hd rf.payload) = true := by
  obtain ⟨hc, hrecs⟩ := varRecs_mem hv hm
  have hnodup := C.nodup_next S hv hm hb
  have hin : ∀ x ∈ Q ++ varRecs p n hd q rf, x ∈ placed h (D ++ (A ++ T)) := by
    intro x hx
    rcases List.mem_append.mp hx with hx | hx
    · exact (C.used x hx).1
    · exact (hrecs x hx).1
  obtain ⟨⟨e, r⟩, hlast, hmax⟩ := exists_last Rec.bytes (Q := Q ++ varRecs p n hd q rf)
    (by simp [varRecs])
  have hP := hin _ hlast
  have hpe : p ≤ e := by
    have h1 := hmax (p, .header hd n) (List.mem_append_right _ (List.mem_cons_self ..))
    have h2 := (Rec.header hd n).size_pos
    simp only [Rec.bytes_length] at h1
    by_contra hlt
    have h3 := place_sep hP hm (by omega)
    rw [Rec.bytes_length] at h3
    omega
  have hsum := sum_le_of_nodup (e := e + r.size) (p := h)
    (by have := (place_bounds hP).1; omega) hnodup
    (fun x hx => ⟨hin x hx, by simpa using hmax x hx⟩)
  have hnew : ((varRecs p n hd q rf).map fun x => (Rec.bytes x.2).length).sum
      = (Rec.header hd n).size + (if q = p then 0 else rf.size) := by
    unfold varRecs
    split <;> simp
  have hsizes : ∀ l : List (Nat × Rec), (l.map fun x => (Rec.bytes x.2).length).sum
      = (l.map fun x => x.2.size).sum := fun l => by simp
  rw [List.map_append, List.sum_append, hnew, hsizes] at hsum
  have hcompact := compactSize_le hm hc
  have hroom := C.room
  obtain ⟨hsp1, hsp2⟩ := S.spare e r hP
  refine decide_eq_true ?_
  rw [C.size, C.slots]
  by_cases hI : I = []
  · rw [hI]
    simp only [List.length_nil]
    unfold sizeofGuid at *
    omega
  · -- the largest of the distinct indexes
    have hbig : ∃ i ∈ I, I.length ≤ i.toNat + 1 := by
      by_contra hno
      have hlt : ∀ i ∈ I, i.toNat < I.length - 1 := by
        intro i hi
        by_contra hge
        exact hno ⟨i, hi, by omega⟩
      have := length_le_of_nodup C.inUse hlt
      have := List.length_pos_iff.mpr hI
      omega
    obtain ⟨i, hi, hlen⟩ := hbig
    obtain ⟨p0, hd0, q0, rf0, hv0, hlt, href⟩ := C.refs i hi
    obtain ⟨hval0, n0, hm0, -⟩ := hv0
    have := hsp2 p0 hd0 n0 i hm0 hval0 href (by omega)
    unfold sizeofGuid at *
    omega

/-! ### The GUID of the copy -/

theorem resolve_slot {s : StoreInfo} {j : Nat} (hj : j < 256) :
    GuidRef.resolve s (.index (UInt8.ofNat j)) = peek s.mem (s.guidSlot j) sizeofGuid := by
  unfold GuidRef.resolve
  simp only
  rw [UInt8.toNat_ofNat', Nat.mod_eq_of_lt hj]

include C in
theorem Copied.slots_le : I.length ≤ 256 :=
  length_le_of_nodup C.inUse fun i _ => i.toNat_lt

include C in
/-- A GUID that is looked up in vain belongs to an index that is not in use. -/
theorem Copied.new_index (hk : hd.Named src k) {i : UInt8} (hi : hd.ref = .index i)
    (hmiss : dst.nextGuid ≤ guidSearch dst k.2) : i ∉ I := by
  intro hmem
  obtain ⟨j, hj⟩ := List.mem_iff_getElem?.mp hmem
  have hlt : j < I.length := (List.getElem?_eq_some_iff.mp hj).1
  have hslot := C.slot j i hj
  have h256 := C.slots_le
  rw [resolve_slot (by omega), ← hi, hk.2] at hslot
  exact guidSearch_miss (by have := C.slots; omega) hslot

include C in
/-- The copy refers to its GUID the way the variable did. -/
theorem Copied.fullGuid (hk : hd.Named src k) {attributes : UInt32} {m : Nat} :
    (createPlan cfg dst k.1 k.2 attributes m 0 hd.ref.isFull).fullGuid = hd.ref.isFull := by
  simp only [createPlan]
  cases href : hd.ref with
  | full g => rfl
  | index i =>
    simp only [GuidRef.isFull, Bool.false_or, Bool.and_eq_false_iff, decide_eq_false_iff_not]
    by_contra hno
    push Not at hno
    obtain ⟨hfull, hmiss⟩ := hno
    have hnew : (i :: I).Nodup := List.nodup_cons.mpr ⟨C.new_index hk href hmiss, C.inUse⟩
    have hle := length_le_of_nodup hnew fun i _ => i.toNat_lt
    have hslots := C.slots
    rw [List.length_cons] at hle
    omega

/-! ### One variable more -/

include S C hv hm hb in
/-- The copy of a variable that fits one record succeeds and keeps the invariant. -/
theorem Copied.step (hk : hd.Named src k) (hkept : kept k) (hcks : hd.cks = cfg.checksum)
    (hfit : compactSize hd rf.payload < flashEmptySize) {ext : ExtSecFlags}
    (hext : createdValue src.flags.nonVolatile (hd.attributes src.flags.nonVolatile) rf.payload ext
      = hd.value src rf) (hb' : p < b')
    (hgap : ∀ p' hd' q' rf', VarAt (placed h (D ++ (A ++ T))) p' hd' q' rf' → p' < b' →
      p' < b ∨ p' = p) (device : Faults) :
    let res := createVariable cfg .mem dst k.1 k.2 (hd.attributes src.flags.nonVolatile)
      rf.payload hd.ref.isFull ext device
    res.1 = .success ∧ ∃ B' Q' I',
      Copied h src (placed h (D ++ (A ++ T))) kept b' res.2 B' Q' I' := by
  intro res
  obtain ⟨-, happend, -⟩ := hd.attributes_test src.flags.nonVolatile
  set attributes := hd.attributes src.flags.nonVolatile with hattributes
  set pl := createPlan cfg dst k.1 k.2 attributes rf.payload.length ([] : Bytes).length
    hd.ref.isFull with hpl
  have hfull : pl.fullGuid = hd.ref.isFull := C.fullGuid hk
  have hsize : pl.size = compactSize hd rf.payload := copyPlan_size hpl hk.1 hcks hfull
  have hspace : isEnoughSpace dst pl.size = true := by
    rw [hsize]
    exact C.space S hv hm hb
  have hroom : dst.pEndOfVars + pl.size + sizeofGuid * (dst.nextGuid + 1) + sizeofNvar
      ≤ dst.nvramSize := of_decide_eq_true hspace
  have hlt : pl.size < flashEmptySize := by rw [hsize]; exact hfit
  have hclear : Clear dst pl.size := by
    intro a h1 h2
    refine C.clear a h1 ?_
    unfold sizeofGuid at *
    omega
  have hnone : ∀ v, ¬ Reads dst (placed h ([] ++ (B ++ []))) k v := by
    intro v hr
    obtain ⟨p', hd', q', rf', ⟨hval', n', hm', -⟩, hlt', hk', -⟩ := (C.reads k v).mp hr
    have := S.unique p' hd' n' p hd n hm' hval' hm hv.1 (hk'.1.trans hk.1.symm)
      (hk'.2.trans hk.2.symm)
    omega
  have hst : res = _ := createVariableEx_mem hpl
    (lt_trans hlt (by decide)) hspace ext device
  have hok : res.1 = .success := by rw [hst]
  have hnext : res.2.nextGuid = createNextGuid dst pl none := by rw [hst]
  set hd' := createdHeader cfg k.1 k.2 attributes (joinData (isAppend attributes) [] rf.payload) ext
    pl with hhd
  obtain ⟨H, hres, hguid⟩ : Appended dst res.2 (.header hd' flashEmptyNext)
      ∧ hd'.ref.resolve res.2 = k.2.bytes
      ∧ ∀ j, hd'.ref = .index j → j.toNat < res.2.nextGuid := by
    rcases createVariableEx_cases .mem ext device (fun _ => rfl) C.store.guid256 hpl
      (fun _ => ⟨hlt, hclear⟩) with ⟨hno, -⟩ | ⟨hno, -⟩ | ⟨-, hyes⟩
    · exact absurd hok hno
    · exact absurd (hok.symm.trans hno) (by simp)
    · exact hyes
  obtain ⟨S', hreads⟩ := C.store.created hpl (fun _ => rfl) hhd H hres hguid hnone hlt hclear C.head
  have hsz : (Rec.header hd' flashEmptyNext).size = pl.size := createdHeader_size hpl (fun _ => rfl) ext
  have hjoin : joinData (isAppend attributes) [] rf.payload = rf.payload := by
    rw [happend]
    rfl
  -- the slots that were in use stand
  have hslots := C.slots
  have h256 := C.slots_le
  have hstand : ∀ j i, I[j]? = some i →
      GuidRef.resolve res.2 (.index (UInt8.ofNat j)) = GuidRef.resolve src (.index i) := by
    intro j i hj
    have hjl : j < I.length := (List.getElem?_eq_some_iff.mp hj).1
    rw [← C.slot j i hj]
    refine H.resolve fun i' hi' => ?_
    rw [← GuidRef.index.inj hi', UInt8.toNat_ofNat', Nat.mod_eq_of_lt (by omega)]
    omega
  have hindexed : ∃ I' : List UInt8, res.2.nextGuid = I'.length ∧ I'.Nodup
      ∧ (∀ j i, I'[j]? = some i →
        GuidRef.resolve res.2 (.index (UInt8.ofNat j)) = GuidRef.resolve src (.index i))
      ∧ ∀ i ∈ I', i ∈ I ∨ hd.ref = .index i := by
    rw [hnext]
    unfold createNextGuid
    rw [hfull]
    have hg : pl.guid = guidSearch dst k.2 := rfl
    cases href : hd.ref with
    | full g =>
      simp only [GuidRef.isFull, Bool.not_true, Bool.false_and, Bool.false_eq_true, if_false]
      exact ⟨I, hslots, C.inUse, hstand, fun i hi => Or.inl hi⟩
    | index i =>
      by_cases hmiss : pl.guid = dst.nextGuid
      swap
      · simp only [hmiss, decide_false, Bool.and_false, Bool.false_and, Bool.false_eq_true, if_false]
        exact ⟨I, hslots, C.inUse, hstand, fun i hi => Or.inl hi⟩
      · have hnew := C.new_index hk href (by omega)
        simp only [GuidRef.isFull, hmiss, Bool.not_false, decide_true, Bool.and_true, ne_eq,
          reduceCtorEq, not_false_eq_true, if_true]
        refine ⟨I ++ [i], by simp [hslots], ?_, ?_, ?_⟩
        · refine List.Nodup.append C.inUse (by simp) fun x hx hx' => ?_
          rw [List.mem_singleton.mp hx'] at hx
          exact hnew hx
        · intro j i' hj
          by_cases hjl : j < I.length
          · exact hstand j i' (by rwa [List.getElem?_append_left hjl] at hj)
          · have hj0 : j = I.length ∧ i' = i := by
              rw [List.getElem?_append_right (by omega)] at hj
              obtain ⟨h0, he⟩ := List.getElem?_eq_some_iff.mp hj
              have h0' : j - I.length = 0 := by simpa using h0
              exact ⟨by omega, by simpa [h0'] using he.symm⟩
            obtain ⟨rfl, rfl⟩ := hj0
            have hr : hd'.ref = .index (UInt8.ofNat pl.guid) := by
              change (if pl.fullGuid then GuidRef.full k.2 else _) = _
              rw [hfull, href]
              rfl
            rw [hr, hmiss, hslots] at hres
            rw [hres, ← hk.2, href]
        · intro i' hi'
          rcases List.mem_append.mp hi' with hi' | hi'
          · exact Or.inl hi'
          · rw [List.mem_singleton.mp hi']
            exact Or.inr rfl
  obtain ⟨I', hlen', hnodup', hslot', hrefs'⟩ := hindexed
  obtain ⟨hc, hrecs⟩ := varRecs_mem hv hm
  refine ⟨hok, B ++ [.header hd' flashEmptyNext], Q ++ varRecs p n hd q rf, I',
    { store := S', head := ?_, size := H.size.trans C.size, flags := H.flags.trans C.flags,
      reads := ?_, used := ?_, nodup := C.nodup_next S hv hm hb, room := ?_, slots := hlen',
      slot := hslot', inUse := hnodup', refs := ?_, clear := ?_ }⟩
  · cases hB : B with
    | nil => rfl
    | cons x xs =>
      have := C.head
      rw [hB] at this
      exact this
  · intro j v
    rw [hreads, hjoin, C.flags, hext]
    constructor
    · rintro (⟨rfl, rfl⟩ | ⟨-, hr⟩)
      · exact ⟨p, hd, q, rf, hv, hb', hk, hkept, rfl⟩
      · obtain ⟨p', hd2, q', rf', hv', hlt', hrest⟩ := (C.reads j v).mp hr
        exact ⟨p', hd2, q', rf', hv', by omega, hrest⟩
    · rintro ⟨p', hd2, q', rf', hv', hlt', hk', hkept', rfl⟩
      obtain ⟨hval', n', hm', hc'⟩ := id hv'
      rcases hgap p' hd2 q' rf' hv' hlt' with hlt' | rfl
      · refine Or.inr ⟨?_, (C.reads j _).mpr ⟨p', hd2, q', rf', hv', hlt', hk', hkept', rfl⟩⟩
        rintro rfl
        have := S.unique p' hd2 n' p hd n hm' hval' hm hv.1 (hk'.1.trans hk.1.symm)
          (hk'.2.trans hk.2.symm)
        omega
      · obtain ⟨rfl, rfl⟩ := Rec.header.inj (placed_unique hm' hm)
        obtain ⟨-, rfl⟩ := chain_unique (fun _ _ _ => placed_unique) hc' hc
        exact Or.inl ⟨hk'.key_eq hk, rfl⟩
  · intro x hx
    rcases List.mem_append.mp hx with hx | hx
    · exact ⟨(C.used x hx).1, (C.used x hx).2.mono (by omega)⟩
    · obtain ⟨h1, h2, -⟩ := hrecs x hx
      exact ⟨h1, p, hd, q, rf, n, hv, hm, hb', h2⟩
  · have hend := H.end_
    have hroomC := C.room
    have hcompact := compactSize_le hm hc
    have hnew : ((varRecs p n hd q rf).map fun x => x.2.size).sum
        = (Rec.header hd n).size + (if q = p then 0 else rf.size) := by
      unfold varRecs
      split <;> simp
    rw [hend, hsz, hsize, List.map_append, List.sum_append, hnew]
    omega
  · intro i hi
    rcases hrefs' i hi with hi | hi
    · obtain ⟨p', hd2, q', rf', hv', hlt', hr⟩ := C.refs i hi
      exact ⟨p', hd2, q', rf', hv', by omega, hr⟩
    · exact ⟨p, hd, q, rf, hv, hb', hi⟩
  · intro a h1 h2
    rw [H.end_] at h1
    rw [H.size] at h2
    have hg := H.guid
    rw [H.frame a (Or.inr (by omega)) ?_]
    · refine C.clear a (by omega) ?_
      unfold sizeofGuid at *
      omega
    · unfold StoreInfo.guidSlot
      unfold sizeofGuid at *
      omega

end

end

end BayTrail.Nvram
