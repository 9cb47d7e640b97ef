import BayTrail.Nvram.Overwrite

/-!
# The NVRAM store: create, update and delete as operations on variables

Each mutator of the store either leaves every variable as it was and does not
return success, or has its effect on the one variable it is about. The store keeps
its invariant in both cases.
-/

namespace BayTrail.Nvram

open BayTrail.Lib

/-- The attributes that a store keeps, read back from it. -/
def keptAttributes (nonVolatile : Bool) (attributes : UInt32) : UInt32 :=
  efiBootserviceAccess
    ||| (if attributes &&& efiRuntimeAccess != 0 then efiRuntimeAccess else 0)
    ||| (if nonVolatile then efiNonVolatile else 0)
    ||| (if attributes &&& efiHardwareErrorRecord != 0 then efiHardwareErrorRecord else 0)
    ||| (attributes &&& authenticatedVariableAttributes)

section

variable {h : Nat} {s s' : StoreInfo} {D A T D' A' T' : List Rec}

theorem Store.readBack_congr (S : Store h s D A T) (S' : Store h s' D' A' T') {k : Key}
    (hr : ∀ v, Reads s' (placed h (D' ++ (A' ++ T'))) k v ↔
      Reads s (placed h (D ++ (A ++ T))) k v) : readBack s' k = readBack s k := by
  by_cases hk : ∃ v, Reads s (placed h (D ++ (A ++ T))) k v
  · obtain ⟨v, hv⟩ := hk
    rw [S.readBack_some hv, S'.readBack_some ((hr v).mpr hv)]
  · rw [S.readBack_none fun v hv => hk ⟨v, hv⟩,
      S'.readBack_none fun v hv => hk ⟨v, (hr v).mp hv⟩]

theorem Store.readBack_changed (S : Store h s D A T) (S' : Store h s' D' A' T') {k : Key} {v' : Value}
    (hr : ∀ j v, Reads s' (placed h (D' ++ (A' ++ T'))) j v ↔
      (j = k ∧ v = v') ∨ (j ≠ k ∧ Reads s (placed h (D ++ (A ++ T))) j v)) (j : Key) :
    readBack s' j = if j = k then some (v'.attributes, v'.data) else readBack s j := by
  split
  next hj => exact S'.readBack_some ((hr j v').mpr (Or.inl ⟨hj, rfl⟩))
  next hj => exact S.readBack_congr S' fun v => by simp [hr, hj]

theorem Store.readBack_removed (S : Store h s D A T) (S' : Store h s' D' A' T') {k : Key}
    (hr : ∀ j v, Reads s' (placed h (D' ++ (A' ++ T'))) j v ↔
      j ≠ k ∧ Reads s (placed h (D ++ (A ++ T))) j v) (j : Key) :
    readBack s' j = if j = k then none else readBack s j := by
  split
  next hj => exact S'.readBack_none fun v hv => ((hr j v).mp hv).1 hj
  next hj => exact S.readBack_congr S' fun v => by simp [hr, hj]

/-- Nothing is found behind the log of a store that `IsStoreOk` accepts. -/
theorem Store.tail_nil (S : Store h s D A T) (hok : isStoreOk s = true) : T = [] := by
  cases T with
  | nil => rfl
  | cons z T =>
    have hz : (s.pEndOfVars, z) ∈ placed h (D ++ (A ++ z :: T)) := S.mem_parts.mpr (by simp)
    have hs := S.sizes z (mem_of_mem_place hz)
    have hh : Holds s.mem s.pEndOfVars z.bytes := holds_of_mem_place S.holds hz
    have hat : RawAt s.mem s.pEndOfVars z.raw := by
      refine Raw.at_of_holds hh (lt_trans hs.2 (by decide)) ?_
      change z.next < 16777216
      rcases S.links _ _ hz with hn | ⟨-, hn, -⟩
      · rw [hn]
        decide
      · exact lt_trans hn (by decide)
    unfold isStoreOk at hok
    simp only [Bool.and_eq_true, beq_iff_eq] at hok
    have hsz : z.size = flashEmptySize := hat.size.symm.trans hok.1.2
    exact absurd hs.2 (by omega)

theorem Store.found (S : Store h s D A T) {k : Key} {p n : Nat}
    (hf : nvFindVariable s k.1 k.2 = some (p, n)) :
    ∃ hd q rf, VarAt (placed h (D ++ (A ++ T))) p hd q rf ∧ hd.Named s k
      ∧ n = nameSize hd.ascii hd.name := by
  by_cases hk : ∃ v, Reads s (placed h (D ++ (A ++ T))) k v
  · obtain ⟨v, p', hd, q, rf, hv, hnamed, -⟩ := hk
    rw [S.find hv hnamed] at hf
    obtain ⟨rfl, rfl⟩ := Prod.mk.inj (Option.some.inj hf)
    exact ⟨hd, q, rf, hv, hnamed, rfl⟩
  · rw [S.find_none fun v hv => hk ⟨v, hv⟩] at hf
    exact absurd hf (by simp)

theorem Store.not_found (S : Store h s D A T) {k : Key}
    (hf : nvFindVariable s k.1 k.2 = none) (v : Value) :
    ¬ Reads s (placed h (D ++ (A ++ T))) k v := by
  rintro ⟨p, hd, q, rf, hv, hnamed, -⟩
  rw [S.find hv hnamed] at hf
  exact absurd hf (by simp)

/-- A record that is no header changes no variable. -/
theorem Store.append_dead (S : Store h s D A []) {r : Rec} (H : Appended s s' r)
    (hclear : Clear s r.size) (hgt : sizeofNvar < r.size) (hlt : r.size < flashEmptySize)
    (hnext : r.next = flashEmptyNext) (hno : ∀ hd n, r ≠ .header hd n) :
    Store h s' D (A ++ [r]) [] ∧ ∀ k v, Reads s' (placed h (D ++ (A ++ [r] ++ []))) k v ↔
      Reads s (placed h (D ++ (A ++ []))) k v := by
  have hlive : r.live = none := by
    cases r with
    | header hd n => exact absurd rfl (hno hd n)
    | data d n => rfl
    | broken f b => rfl
  have R : Addable s s' (placed h (D ++ (A ++ []))) A r :=
    { size_gt := hgt, size_lt := hlt, next := hnext
      head := by simp [hlive]
      guid := fun hd n i he => absurd he (hno hd n)
      fresh := by simp [hlive]
      count := by simp [hlive] }
  refine ⟨S.append hclear H R, fun k v => ?_⟩
  rw [S.append_reads H R]
  simp [hlive]

theorem broken_next (flags : UInt8) (body : Bytes) :
    (Rec.broken flags body).next = flashEmptyNext := rfl

/-! ## CreateVariableEx -/

/-- The value of a variable that has been created. -/
def createdValue (nonVolatile : Bool) (attributes : UInt32) (data : Bytes) (ext : ExtSecFlags) :
    Value where
  attributes := keptAttributes nonVolatile attributes
  data := data
  count := if isAuth attributes then some ext.mc else none
  keyHash := if isAuth attributes then some ext.keyHash else none

theorem createdHeader_value (cfg : Config) (k : Key) (attributes : UInt32) (data : Bytes)
    (ext : ExtSecFlags) (pl : CreatePlan) (s : StoreInfo) :
    (createdHeader cfg k.1 k.2 attributes data ext pl).value s
        (.header (createdHeader cfg k.1 k.2 attributes data ext pl) flashEmptyNext)
      = createdValue s.flags.nonVolatile attributes data ext := by
  unfold Header.value createdValue keptAttributes Header.attributes
  simp only [Rec.count, Rec.payload, createdHeader, createdAuth]
  by_cases ha : isAuth attributes = true
  · simp [ha]
  · have h0 : attributes &&& authenticatedVariableAttributes = 0 := by
      unfold isAuth at ha
      simpa using ha
    simp [ha, h0]

section

variable {cfg : Config} {k : Key} {attributes : UInt32} {data appendData : Bytes}
  {oldVarGuid : Bool}
variable {pl : CreatePlan}

theorem createdHeader_size
    (hpl : pl = createPlan cfg s k.1 k.2 attributes data.length appendData.length oldVarGuid)
    (happ : isAppend attributes = false → appendData = []) (ext : ExtSecFlags) :
    (Rec.header (createdHeader cfg k.1 k.2 attributes
      (joinData (isAppend attributes) appendData data) ext pl) flashEmptyNext).size = pl.size := by
  set hd := createdHeader cfg k.1 k.2 attributes (joinData (isAppend attributes) appendData data)
    ext pl
  change sizeofNvar + (hd.contents ++ extTail (hd.auth.map HdrAuth.authFields) hd.cks
    (hd.flagsWith true) hd.contents).length = pl.size
  rw [List.length_append, extTail_length, createPlan_size hpl happ ext, createPlan_extSize hpl ext]
  change _ + (_ + extTailSize ((createdAuth attributes ext).map HdrAuth.authFields) cfg.checksum) = _
  rw [createdAuth_fields]

/-- A header record holds a name and a GUID at least. -/
theorem createPlan_size_gt
    (hpl : pl = createPlan cfg s k.1 k.2 attributes data.length appendData.length oldVarGuid) :
    sizeofNvar < pl.size := by
  have hpos : 0 < nameBytesLength k.1 := by
    unfold nameBytesLength
    split <;> omega
  rw [hpl]
  simp only [createPlan]
  omega

/-- The store with the header record of a new variable. -/
theorem Store.created (S : Store h s D A [])
    (hpl : pl = createPlan cfg s k.1 k.2 attributes data.length appendData.length oldVarGuid)
    (happ : isAppend attributes = false → appendData = []) {ext : ExtSecFlags} {hd : Header}
    (hhd : hd = createdHeader cfg k.1 k.2 attributes
      (joinData (isAppend attributes) appendData data) ext pl)
    (H : Appended s s' (.header hd flashEmptyNext)) (hres : hd.ref.resolve s' = k.2.bytes)
    (hguid : ∀ j, hd.ref = .index j → j.toNat < s'.nextGuid)
    (hnone : ∀ v, ¬ Reads s (placed h (D ++ (A ++ []))) k v)
    (hlt : pl.size < flashEmptySize) (hclear : Clear s pl.size) (hhead : headSigned A = true) :
    Store h s' D (A ++ [.header hd flashEmptyNext]) [] ∧
      ∀ j v, Reads s' (placed h (D ++ (A ++ [.header hd flashEmptyNext] ++ []))) j v ↔
        (j = k ∧ v = createdValue s.flags.nonVolatile attributes
          (joinData (isAppend attributes) appendData data) ext)
        ∨ (j ≠ k ∧ Reads s (placed h (D ++ (A ++ []))) j v) := by
  have hsz : (Rec.header hd flashEmptyNext).size = pl.size := by
    rw [hhd]
    exact createdHeader_size hpl happ ext
  have hgt := createPlan_size_gt hpl
  have hlive : (Rec.header hd flashEmptyNext).live = some hd := by rw [hhd]; rfl
  have hname : hd.name = k.1 := by rw [hhd]; rfl
  have hnamed : hd.Named s' k := ⟨hname, hres⟩
  have R : Addable s s' (placed h (D ++ (A ++ []))) A (.header hd flashEmptyNext) :=
    { size_gt := by rw [hsz]; exact hgt
      size_lt := by rw [hsz]; exact hlt
      next := rfl
      head := fun _ => hhead
      guid := by
        intro hd' n j he hj
        obtain ⟨rfl, -⟩ := Rec.header.inj he
        exact hguid j hj
      fresh := by
        intro hd' hl p hd2 n hm hv hnm hrs
        obtain rfl := Option.some.inj (hlive.symm.trans hl)
        obtain ⟨q, rf, hc, -, -⟩ := S.chains p hd2 n hm hv
        exact hnone _ ⟨p, hd2, q, rf, ⟨hv, n, hm, hc⟩, ⟨hnm.trans hname, hrs.trans hres⟩, rfl⟩
      count := by
        intro hd' hl
        obtain rfl := Option.some.inj (hlive.symm.trans hl)
        simp [Rec.count] }
  refine ⟨S.append (by rw [hsz]; exact hclear) H R, fun j v => ?_⟩
  rw [S.append_reads H R]
  have hval : hd.value s' (.header hd flashEmptyNext)
      = createdValue s.flags.nonVolatile attributes
        (joinData (isAppend attributes) appendData data) ext := by
    rw [hhd, createdHeader_value, H.flags]
  constructor
  · rintro (hr | ⟨hd', hl, hj, rfl⟩)
    · refine Or.inr ⟨?_, hr⟩
      rintro rfl
      exact hnone v hr
    · obtain rfl := Option.some.inj (hlive.symm.trans hl)
      exact Or.inl ⟨hj.key_eq hnamed, hval⟩
  · rintro (⟨rfl, rfl⟩ | ⟨-, hr⟩)
    · exact Or.inr ⟨hd, hlive, hnamed, hval.symm⟩
    · exact Or.inl hr

/-- `CreateVariableEx` on a variable that is not there. -/
theorem Store.create (S : Store h s D A []) (cfg : Config) (i : Interface) (attributes : UInt32)
    (data appendData : Bytes) (oldVarGuid : Bool) (ext : ExtSecFlags) (device : Faults)
    (happ : isAppend attributes = false → appendData = [])
    (hnone : ∀ v, ¬ Reads s (placed h (D ++ (A ++ []))) k v)
    (hsafe : let size := (createPlan cfg s k.1 k.2 attributes data.length appendData.length
        oldVarGuid).size
      isEnoughSpace s size = true → size < flashEmptySize ∧ Clear s size ∧ headSigned A = true) :
    let res := createVariableEx cfg i s k.1 k.2 attributes data oldVarGuid ext appendData device
    res.2.flags = s.flags ∧ ∃ A', Store h res.2 D A' [] ∧
      ((res.1 ≠ .success ∧ ∀ j v, Reads res.2 (placed h (D ++ (A' ++ []))) j v ↔
          Reads s (placed h (D ++ (A ++ []))) j v) ∨
       (res.1 = .success ∧ ∀ j v, Reads res.2 (placed h (D ++ (A' ++ []))) j v ↔
          (j = k ∧ v = createdValue s.flags.nonVolatile attributes
            (joinData (isAppend attributes) appendData data) ext)
          ∨ (j ≠ k ∧ Reads s (placed h (D ++ (A ++ []))) j v))) := by
  intro res
  set pl := createPlan cfg s k.1 k.2 attributes data.length appendData.length oldVarGuid with hpl
  set hd := createdHeader cfg k.1 k.2 attributes (joinData (isAppend attributes) appendData data)
    ext pl with hhd
  rcases createVariableEx_cases i ext device happ S.guid256 hpl
    (fun hspace => ⟨(hsafe hspace).1, (hsafe hspace).2.1⟩) with
    ⟨hst, hsame⟩ | ⟨hst, body, hbody, H⟩ | ⟨hst, H, hres, hguid⟩
  · rw [hsame]
    exact ⟨rfl, A, S, Or.inl ⟨hst, fun _ _ => Iff.rfl⟩⟩
  · -- a broken record
    have hspace : isEnoughSpace s pl.size = true := by
      have := H.room
      rw [show (Rec.broken pl.flags body).size = pl.size from hbody] at this
      exact decide_eq_true this
    obtain ⟨hlt, hclear, -⟩ := hsafe hspace
    have hsz : (Rec.broken pl.flags body).size = pl.size := hbody
    have hgt := createPlan_size_gt hpl
    obtain ⟨S', hr⟩ := S.append_dead H (by rw [hsz]; exact hclear) (by rw [hsz]; exact hgt)
      (by rw [hsz]; exact hlt) (broken_next _ _) (by simp)
    exact ⟨H.flags, _, S', Or.inl ⟨by rw [hst]; simp, hr⟩⟩
  · -- the new header
    have hsz : (Rec.header hd flashEmptyNext).size = pl.size := createdHeader_size hpl happ ext
    have hspace : isEnoughSpace s pl.size = true := by
      have := H.room
      rw [hsz] at this
      exact decide_eq_true this
    obtain ⟨hlt, hclear, hhead⟩ := hsafe hspace
    obtain ⟨S', hreads⟩ := S.created hpl happ hhd H hres hguid hnone hlt hclear hhead
    exact ⟨H.flags, _, S', Or.inr ⟨hst, hreads⟩⟩

end

/-! ## DeleteVariable -/

section

variable {k : Key} {p q : Nat} {hd : Header} {rf : Rec}

/-- `DeleteVariable` on the header of a variable. -/
theorem Store.delete (S : Store h s D A []) (i : Interface) (device : Faults)
    (hv : VarAt (placed h (D ++ (A ++ []))) p hd q rf) (hk : hd.Named s k) :
    let res := deleteVariable i s p device
    res.2.flags = s.flags ∧ ∃ A', Store h res.2 D A' [] ∧
      ((res.1 ≠ .success ∧ ∀ j v, Reads res.2 (placed h (D ++ (A' ++ []))) j v ↔
          Reads s (placed h (D ++ (A ++ []))) j v) ∨
       (res.1 = .success ∧ ∀ j v, Reads res.2 (placed h (D ++ (A' ++ []))) j v ↔
          j ≠ k ∧ Reads s (placed h (D ++ (A ++ []))) j v)) := by
  intro res
  rcases deleteVariable_cases i s p device with he | he
  · rw [show res = _ from he]
    exact ⟨rfl, A, S, Or.inl ⟨by simp, fun _ _ => Iff.rfl⟩⟩
  · obtain ⟨hval, n, hm, -⟩ := hv
    obtain ⟨A1, A2, rfl, hp⟩ := walked_split (S.mem_walked hm hval)
    have W := rewritten_killed S hp hval
    rw [show res = _ from he]
    exact ⟨rfl, _, S.kill W, Or.inr ⟨rfl, fun j v => S.kill_reads W hval hk⟩⟩

/-! ## UpdateVariable -/

variable {cfg : Config} {attributes : UInt32} {data : Bytes} {final : Option Nat}

/-- The unlinked record is not part of the store. -/
theorem Store.unlinked (S : Store h s D A []) {s1 : StoreInfo} {d : DataRec} (hA : A ≠ [])
    (H : Appended s s1 (.data d flashEmptyNext))
    (hclear : Clear s (Rec.data d flashEmptyNext).size)
    (hgt : sizeofNvar < (Rec.data d flashEmptyNext).size)
    (hlt : (Rec.data d flashEmptyNext).size < flashEmptySize) (l : Nat) :
    Store h { s1 with pEndOfVars := s.pEndOfVars, lastVarSize := l } D A [.data d flashEmptyNext]
      ∧ ∀ j v, Reads { s1 with pEndOfVars := s.pEndOfVars, lastVarSize := l }
          (placed h (D ++ (A ++ [.data d flashEmptyNext]))) j v ↔
        Reads s (placed h (D ++ (A ++ []))) j v := by
  obtain ⟨S1, hr⟩ := S.append_dead H hclear hgt hlt rfl (by simp)
  have hP := S.placed_append (.data d flashEmptyNext)
  constructor
  · refine S1.retract hA (by rw [H.end_]) rfl ?_ ?_
    · intro a x hx hn
      rw [hP] at hx
      rcases mem_snoc.mp hx with hx | ⟨-, rfl⟩
      · have h1 := S.mem_lt_end hx
        have h2 := x.size_pos
        rcases S.links a x hx with h0 | ⟨-, -, hin, -⟩
        · exact absurd h0 hn
        · exact ne_of_lt (hin (by omega))
      · exact absurd rfl hn
    · intro p hd q rf hv
      rw [hP] at hv
      rcases (S.varAt_append rfl rfl).mp hv with hv | ⟨hl, -⟩
      · exact ne_of_lt (S.varAt_final hv)
      · exact absurd hl (by simp [Rec.live])
  · intro j v
    rw [← hr j v, List.append_nil]
    exact reads_congr rfl rfl rfl

section

variable {s1 : StoreInfo} {d : DataRec} (S : Store h s D A []) (H : Appended s s1 (.data d flashEmptyNext))
  (hclear : Clear s (Rec.data d flashEmptyNext).size) (hgt : sizeofNvar < (Rec.data d flashEmptyNext).size)
include S H hclear hgt

/-- The log with the new record linked to the end of the variable's chain. -/
theorem Store.relinked (hlt : (Rec.data d flashEmptyNext).size < flashEmptySize)
    (hv : VarAt (placed h (D ++ (A ++ []))) p hd q rf)
    (hcount : d.auth.isSome = hd.auth.isSome) (hdist : s.pEndOfVars - q < flashEmptyNext) :
    ∃ A1 A2, A = A1 ++ rf :: A2 ∧
      Relinked h s1 (poke s1.mem (q + nextOffset) (leBytes 3 (s.pEndOfVars - q))) D A1
        (A2 ++ [.data d flashEmptyNext]) p hd q rf s.pEndOfVars (.data d flashEmptyNext) := by
  set r := Rec.data d flashEmptyNext with hr
  obtain ⟨S1, hread⟩ := S.append_dead H hclear hgt hlt rfl (by simp [hr])
  have hq := S.varAt_final hv
  have hP := S.placed_append r
  have hvar : ∀ p' hd' q' rf', VarAt (placed h (D ++ (A ++ [])) ++ [(s.pEndOfVars, r)]) p' hd' q' rf'
      ↔ VarAt (placed h (D ++ (A ++ []))) p' hd' q' rf'
        ∨ (r.live = some hd' ∧ p' = s.pEndOfVars ∧ q' = s.pEndOfVars ∧ rf' = r) :=
    fun _ _ _ _ => S.varAt_append rfl rfl
  obtain ⟨A1, A2, hA, hqA⟩ := walked_split (S.data_at hv).2.1
  have hsplit : A ++ [r] = A1 ++ rf :: (A2 ++ [r]) := by simp [hA]
  have hsig : rf.signed = true := by
    obtain ⟨-, n, -, hc⟩ := hv
    rcases hc.data_or with ⟨-, rfl⟩ | hd'
    · rfl
    · exact isData_signed hd'
  rw [hsplit] at S1 hP
  exact ⟨A1, A2, hA,
    { store := S1
      rewritten := rewritten_next S1 (by rw [H.first]; exact hqA) hsig _
      var := by rw [hP]; exact (hvar _ _ _ _).mpr (Or.inl hv)
      lt := hq
      dist := hdist
      mem := by rw [hP]; simp
      data := rfl
      last := rfl
      count := hcount
      fresh := by
        intro p' hd' q' rf' hv'
        rw [hP] at hv'
        rcases (hvar _ _ _ _).mp hv' with hv' | ⟨hl, -⟩
        · exact ne_of_lt (S.varAt_final hv')
        · exact absurd hl (by simp [hr, Rec.live]) }⟩

/-- The record is linked to the end of the variable's chain. -/
theorem Store.linked (hlt : (Rec.data d flashEmptyNext).size < flashEmptySize)
    (hv : VarAt (placed h (D ++ (A ++ []))) p hd q rf) (hk : hd.Named s k)
    (hcount : d.auth.isSome = hd.auth.isSome) (hdist : s.pEndOfVars - q < flashEmptyNext) :
    let s2 := { s1 with mem := poke s1.mem (q + nextOffset) (leBytes 3 (s.pEndOfVars - q)) }
    ∃ A', Store h s2 D A' [] ∧ ∀ j v, Reads s2 (placed h (D ++ (A' ++ []))) j v ↔
      (j = k ∧ v = hd.value s (.data d flashEmptyNext))
        ∨ (j ≠ k ∧ Reads s (placed h (D ++ (A ++ []))) j v) := by
  intro s2
  obtain ⟨-, hread⟩ := S.append_dead H hclear hgt hlt rfl (by simp)
  obtain ⟨A1, A2, hA, R⟩ := S.relinked H hclear hgt hlt hv hcount hdist
  have hnamed : hd.Named s1 k := by
    obtain ⟨hval, n, hm, -⟩ := hv
    exact ⟨hk.1, (H.resolve fun i hi => S.guids p hd n i hm hval hi).trans hk.2⟩
  have hvalue : hd.value s1 (.data d flashEmptyNext) = hd.value s (.data d flashEmptyNext) := by
    unfold Header.value
    rw [H.flags]
  have hsplit : A ++ [Rec.data d flashEmptyNext] = A1 ++ rf :: (A2 ++ [.data d flashEmptyNext]) := by
    simp [hA]
  rw [hsplit] at hread
  refine ⟨_, R.store_new, fun j v => ?_⟩
  rw [show s2 = { s1 with mem := s2.mem } from rfl, R.reads hnamed, hvalue, hread]

end

/-- `UpdateVariable` on a stored variable. On success the variable has the new data
and keeps its attributes and key hash; its count is the new one unless nothing was
written. -/
theorem Store.update (S : Store h s D A []) (i : Interface) (ext : ExtSecFlags) (device : Faults)
    (hv : VarAt (placed h (D ++ (A ++ []))) p hd q rf) (hk : hd.Named s k)
    (hfinal : final = none ∨ final = some q)
    (hsafe : let size := (updatePlan cfg attributes rf.payload.length data.length).size
      Programs cfg s p attributes rf.payload data → sizeofNvar < size ∧ size < flashEmptySize
        ∧ Clear s size ∧ s.pEndOfVars - q < flashEmptyNext) :
    let res := updateVariable cfg i s p (nameSize hd.ascii hd.name) attributes data final ext device
    res.store.flags = s.flags ∧ ∃ A' T', Store h res.store D A' T' ∧
      ((res.status ≠ .success ∧ ∀ j v, Reads res.store (placed h (D ++ (A' ++ T'))) j v ↔
          Reads s (placed h (D ++ (A ++ []))) j v) ∨
       (res.status = .success ∧ T' = [] ∧ ∃ v', v'.attributes = (hd.value s rf).attributes
          ∧ v'.data = joinData (isAppend attributes) rf.payload data
          ∧ v'.keyHash = (hd.value s rf).keyHash
          ∧ (v'.count = (if isAuth attributes then some ext.mc else none) ∨ v' = hd.value s rf)
          ∧ ∀ j v, Reads res.store (placed h (D ++ (A' ++ T'))) j v ↔
            (j = k ∧ v = v') ∨ (j ≠ k ∧ Reads s (placed h (D ++ (A ++ []))) j v))) := by
  intro res
  set pl := updatePlan cfg attributes rf.payload.length data.length with hpl
  set r := Rec.data (updatedData cfg attributes rf.payload data ext) flashEmptyNext with hr
  set s1 := updated cfg s attributes rf.payload data ext pl with hs1
  have hA : A ≠ [] := List.ne_nil_of_mem (mem_of_mem_place (S.data_at hv).2.1)
  rcases updateVariable_cases i ext device S hv hfinal hpl
    (fun hprog => ⟨(hsafe hprog).2.1, (hsafe hprog).2.2.1⟩) with
    ⟨hst, hsame, -⟩ | ⟨hau, ⟨hst, hsame, -, happ, hdata⟩ | ⟨hprog, hrest⟩⟩
  · rw [show res.store = s from hsame]
    exact ⟨rfl, A, [], S, Or.inl ⟨hst, fun _ _ => Iff.rfl⟩⟩
  · -- the data were there already
    rw [show res.store = s from hsame]
    refine ⟨rfl, A, [], S, Or.inr ⟨hst, rfl, hd.value s rf, rfl, ?_, rfl, Or.inr rfl, ?_⟩⟩
    · rw [happ, ← hdata]
      rfl
    · intro j v
      have hread : Reads s (placed h (D ++ (A ++ []))) k (hd.value s rf) :=
        ⟨p, hd, q, rf, hv, hk, rfl⟩
      by_cases hj : j = k
      · subst hj
        simp only [true_and, ne_eq, not_true_eq_false, false_and, or_false]
        exact ⟨fun h1 => S.reads_unique h1 hread, fun he => he ▸ hread⟩
      · simp [hj]
  · obtain ⟨hgt, hlt, hclear, hdist⟩ := hsafe hprog
    rcases hrest with ⟨hst, -, body, hbody, H⟩ | ⟨hrsize, H, hlink⟩
    · -- a broken record
      have hsz : (Rec.broken pl.flags body).size = pl.size := hbody
      obtain ⟨S', hr'⟩ := S.append_dead H (by rw [hsz]; exact hclear) (by rw [hsz]; exact hgt)
        (by rw [hsz]; exact hlt) (broken_next _ _) (by simp)
      exact ⟨H.flags, _, [], S', Or.inl ⟨by rw [hst]; simp, hr'⟩⟩
    · have hgt' : sizeofNvar < r.size := by rw [hrsize]; exact hgt
      have hlt' : r.size < flashEmptySize := by rw [hrsize]; exact hlt
      have hclear' : Clear s r.size := by rw [hrsize]; exact hclear
      rcases hlink with ⟨hst, -, hstore⟩ | ⟨hst, -, hstore⟩
      · -- a record that nothing refers to
        obtain ⟨S', hr'⟩ := S.unlinked hA H hclear' hgt' hlt' s1.lastVarSize
        rw [show res.store = _ from hstore]
        exact ⟨H.flags, A, [r], S', Or.inl ⟨by rw [hst]; simp, hr'⟩⟩
      · -- the new record at the end of the chain
        obtain ⟨A', S', hread⟩ := S.linked (k := k) H hclear' hgt' hlt' hv hk
          (by rw [updatedData_isSome, hau]) hdist
        rw [show res.store = _ from hstore]
        refine ⟨H.flags, A', [], S', Or.inr ⟨hst, rfl, hd.value s r, rfl, rfl, rfl, Or.inl rfl, ?_⟩⟩
        exact hread

end

end

end BayTrail.Nvram
