import BayTrail.Nvram.CopyStore
import BayTrail.Nvram.Crash

/-!
# The NVRAM store: when a garbage collection preserves the variables

A variable that is not `Collectable` is lost. Either its name does not fit the buffer
and ends the copy, or its copy has a size that the 16-bit field of the record cannot
say: the log that a walk sees then has a record there that is shorter than what was
written. What follows in the copy loop adds to the store (`Extends`) and repairs
neither.
-/

namespace BayTrail.Nvram

open BayTrail.Lib

/-! ## What the calls leave alone -/

/-- `s'` is `s` with more behind its log and its GUID table. -/
structure Extends (s s' : StoreInfo) : Prop where
  first : s'.pFirstVar = s.pFirstVar
  size : s'.nvramSize = s.nvramSize
  flags : s'.flags = s.flags
  end_ : s.pEndOfVars ≤ s'.pEndOfVars
  guid : s.nextGuid ≤ s'.nextGuid
  log : ∀ a, a < s.pEndOfVars → s'.mem a = s.mem a
  table : ∀ i, i < s.nextGuid →
    peek s'.mem (s.guidSlot i) sizeofGuid = peek s.mem (s.guidSlot i) sizeofGuid

theorem Extends.refl (s : StoreInfo) : Extends s s :=
  ⟨rfl, rfl, rfl, le_rfl, le_rfl, fun _ _ => rfl, fun _ _ => rfl⟩

theorem Extends.trans {s s' s'' : StoreInfo} (h : Extends s s') (h' : Extends s' s'') :
    Extends s s'' where
  first := h'.first.trans h.first
  size := h'.size.trans h.size
  flags := h'.flags.trans h.flags
  end_ := h.end_.trans h'.end_
  guid := h.guid.trans h'.guid
  log := fun a ha => (h'.log a (lt_of_lt_of_le ha h.end_)).trans (h.log a ha)
  table := by
    intro i hi
    have hslot : s'.guidSlot i = s.guidSlot i := by
      unfold StoreInfo.guidSlot
      rw [h.size]
    have := h'.table i (lt_of_lt_of_le hi h.guid)
    rw [hslot] at this
    exact this.trans (h.table i hi)

theorem le_firstProgrammed (m : Mem) : ∀ n p, p ≤ firstProgrammed m n p
  | 0, p => le_rfl
  | n + 1, p => by
    unfold firstProgrammed
    split
    next => exact le_trans (Nat.le_succ p) (le_firstProgrammed m n (p + 1))
    next => exact le_rfl

/-- The recovery moves `pEndOfVars` forward only. -/
theorem recover_extends (s : StoreInfo) (endOfVars dataSize prevVar : Nat) :
    Extends s (recoverFromFlashUpdateFailure s endOfVars dataSize prevVar) := by
  unfold recoverFromFlashUpdateFailure
  have hle := le_firstProgrammed s.mem (endOfVars - s.pEndOfVars) s.pEndOfVars
  split
  next => exact Extends.refl s
  next =>
    split
    next =>
      split
      next => exact ⟨rfl, rfl, rfl, le_rfl, le_rfl, fun _ _ => rfl, fun _ _ => rfl⟩
      next => exact ⟨rfl, rfl, rfl, Nat.le_add_right _ _, le_rfl, fun _ _ => rfl, fun _ _ => rfl⟩
    next =>
      dsimp only
      split
      next => exact Extends.refl s
      next => exact ⟨rfl, rfl, rfl, hle, le_rfl, fun _ _ => rfl, fun _ _ => rfl⟩

/-- `CreateVariableEx` writes behind the log and the GUID table, however it ends. -/
theorem createVariableEx_extends (cfg : Config) (i : Interface) (s : StoreInfo) (name : Name)
    (guid : Guid) (attributes : UInt32) (data : Bytes) (oldVarGuid : Bool) (ext : ExtSecFlags)
    {appendData : Bytes} (happ : isAppend attributes = false → appendData = []) (device : Faults) :
    Extends s
      (createVariableEx cfg i s name guid attributes data oldVarGuid ext appendData device).2 := by
  set pl := createPlan cfg s name guid attributes data.length appendData.length oldVarGuid with hpl
  unfold createVariableEx
  simp only [← hpl]
  split
  next => exact Extends.refl s
  next hbig =>
    split
    next => exact Extends.refl s
    next hspace =>
      have hspace' : isEnoughSpace s pl.size = true := by simpa using hspace
      obtain ⟨hslot, htop⟩ := guidSlot_above hspace'
      set steps := createSteps cfg s name guid attributes data ext appendData pl
      set faults := effective i s.mem steps device
      have hguid : s.nextGuid ≤ createNextGuid s pl faults := by
        unfold createNextGuid
        split <;> omega
      have hsub : ∀ st ∈ performed faults steps, st ∈ steps := by
        intro st hst
        rcases performed_eq faults steps with ⟨-, hp⟩ | ⟨k, -, hp, -⟩
        · rwa [hp] at hst
        · rw [hp] at hst
          exact List.mem_of_mem_take hst
      have hframe : ∀ {a}, a < s.pEndOfVars ∨ s.pEndOfVars + pl.size ≤ a →
          a < s.guidSlot s.nextGuid ∨ s.guidSlot s.nextGuid + sizeofGuid ≤ a →
          applySteps s.mem (performed faults steps) a = s.mem a := fun ha hg =>
        createSteps_frame hpl happ ext hsub ha (hg.imp_right Or.inl)
      have hX : ∀ e last, s.pEndOfVars ≤ e →
          Extends s { s with mem := applySteps s.mem (performed faults steps)
                             nextGuid := createNextGuid s pl faults
                             pEndOfVars := e
                             lastVarSize := last } := by
        intro e last he
        refine ⟨rfl, rfl, rfl, he, hguid, fun a ha => hframe (Or.inl ha) (Or.inl (by omega)), ?_⟩
        intro i hi
        refine peek_congr fun a h1 h2 => ?_
        unfold StoreInfo.guidSlot at *
        unfold sizeofGuid at *
        exact hframe (Or.inr (by omega)) (Or.inr (by omega))
      split
      next => exact hX _ _ (Nat.le_add_right _ _)
      next => exact (hX s.pEndOfVars s.lastVarSize le_rfl).trans (recover_extends _ _ _ _)

section

variable {cfg : Config} {filter : Filter} {preserved : Bool}

theorem copyVariable_extends (i : Interface) (bufferSize : Nat) (s dst : StoreInfo) (key : Key)
    (device : Faults) :
    Extends dst (copyVariable cfg i bufferSize s dst key device).2 := by
  unfold copyVariable
  split
  next => exact Extends.refl dst
  next =>
    dsimp only
    split
    next => exact Extends.refl dst
    next => exact createVariableEx_extends _ _ _ _ _ _ _ _ _ (fun _ => rfl) _

/-- What has been copied stays. -/
theorem copyLoop_extends (i : Interface) (device : Nat → Faults) : ∀ (fuel j : Nat)
    (s dst : StoreInfo) (key : Key),
    Extends dst (copyLoop cfg i filter preserved device fuel j s dst key).target := by
  intro fuel
  induction fuel with
  | zero => exact fun _ _ dst _ => Extends.refl dst
  | succ fuel ih =>
    intro j s dst key
    rw [copyLoop]
    dsimp only
    split
    next => exact Extends.refl dst
    next =>
      split
      next => exact ih _ _ _ _
      next =>
        have hcopy : Extends dst (copyVariable cfg i s.nvramSize
            (nvGetNextVariableName s s.nvramSize key false).store dst
            (nvGetNextVariableName s s.nvramSize key false).key (device j)).2 :=
          copyVariable_extends i _ _ _ _ _
        split
        next => exact hcopy
        next => exact hcopy.trans (ih _ _ _ _)

end

/-! ## The record of a variable that is too large -/

/-- One parse of a run of records decides where the next record of any other begins. -/
theorem parse_next {m : Mem} : ∀ {xs ys : List Rec} {p : Nat},
    (∀ x ∈ placed p xs, sizeAt m x.1 = x.2.size) → (∀ y ∈ placed p ys, sizeAt m y.1 = y.2.size) →
    logSize xs < logSize ys → ∃ y, (p + logSize xs, y) ∈ placed p ys
  | [], [], p, _, _, hlt => absurd hlt (lt_irrefl _)
  | [], y :: ys, p, _, _, _ => ⟨y, List.mem_cons_self ..⟩
  | x :: xs, [], p, _, _, hlt => absurd hlt (Nat.not_lt_zero _)
  | x :: xs, y :: ys, p, hx, hy, hlt => by
    have hsize : x.size = y.size :=
      (hx (p, x) (List.mem_cons_self ..)).symm.trans (hy (p, y) (List.mem_cons_self ..))
    simp only [placed_cons, List.mem_cons, forall_eq_or_imp] at hx hy
    rw [hsize] at hx
    rw [logSize_cons, logSize_cons, hsize] at hlt
    obtain ⟨z, hz⟩ := parse_next hx.2 hy.2 (Nat.lt_of_add_lt_add_left hlt)
    refine ⟨z, ?_⟩
    rw [logSize_cons, hsize, ← Nat.add_assoc, placed_cons]
    exact List.mem_cons_of_mem _ hz

/-- A stored name can be read in one way. -/
theorem name_unique {m : Mem} {p : Nat} {ascii : Bool} {a b : Name}
    (ha : Holds m p (nameBytes ascii a)) (hb : Holds m p (nameBytes ascii b))
    (hasca : ascii = true → isAsciiName a = true) (hascb : ascii = true → isAsciiName b = true) :
    a = b := by
  have hext : a.chars = b.chars → a = b := by
    cases a
    cases b
    simp
  apply hext
  unfold nameBytes at ha hb
  cases ascii with
  | true =>
    have hlt : ∀ {c : Name}, isAsciiName c = true → ∀ d ∈ c.chars, d.toNat < 256 := by
      intro c hc
      unfold isAsciiName at hc
      simpa using hc
    simp only [if_true] at ha hb
    have h1 := asciiNameEq_eq ha (hlt (hasca rfl)) a.nonzero a.nonzero
    have h2 := asciiNameEq_eq hb (hlt (hascb rfl)) b.nonzero a.nonzero
    rw [if_pos rfl] at h1
    by_contra hne
    rw [h1, if_neg hne] at h2
    exact absurd h2 (by simp)
  | false =>
    simp only [Bool.false_eq_true, if_false] at ha hb
    have h1 := unicodeNameEq_eq ha a.nonzero a.nonzero
    have h2 := unicodeNameEq_eq hb b.nonzero a.nonzero
    rw [if_pos rfl] at h1
    by_contra hne
    rw [h1, if_neg hne] at h2
    exact absurd h2 (by simp)

section

variable {h : Nat} {t : StoreInfo} {D A T : List Rec} {e : Nat} {y : Rec}

theorem Store.recAt (S : Store h t D A T) (hm : (e, y) ∈ placed h (D ++ (A ++ T))) :
    RecAt t.mem e y := by
  obtain ⟨-, hsize⟩ := S.sizes y (mem_of_mem_place hm)
  have hbytes : Holds t.mem e (Rec.bytes y) := holds_of_mem_place S.holds hm
  refine Raw.at_of_holds hbytes (lt_trans hsize (by decide)) ?_
  change y.next < 16777216
  rcases S.links e y hm with hn | ⟨-, hn, -⟩
  · rw [hn]
    decide
  · exact lt_trans hn (by decide)

/-- What a walk makes of a header record whose size field was cut to 16 bits: a header of
that size, with the same name and GUID. -/
theorem Store.header_of_front (S : Store h t D A T) {size : Nat} {hd : Header}
    (hval : hd.valid = true)
    (hfront : Holds t.mem e (leBytes 4 nvarSignature ++ (leBytes 2 size
      ++ (leBytes 3 flashEmptyNext ++ (hd.flags :: hd.contents)))))
    (hm : (e, y) ∈ placed h (D ++ (A ++ T))) :
    ∃ hd', y = .header hd' flashEmptyNext ∧ hd'.valid = true ∧ hd'.name = hd.name
      ∧ hd'.ref.resolve t = hd.ref.resolve t ∧ hd'.size flashEmptyNext = size % 65536
      ∧ hd'.key.length = hd.key.length := by
  have hat := S.recAt hm
  simp only [holds_append, holds_cons, leBytes_length] at hfront
  obtain ⟨hsig, hsize, hnext, hflags, hcont⟩ := hfront
  have hsig' : sigAt t.mem e = nvarSignature := hsig.rd_eq_of_lt (by decide)
  have hsize' : sizeAt t.mem e = size % 65536 := hsize.rd_eq
  have hnext' : nextAt t.mem e = flashEmptyNext := hnext.rd_eq_of_lt (by decide)
  have hflags' : flagsAt t.mem e = hd.flags := hflags
  obtain ⟨htv, -, -, -, -, htf, hta, htd, -⟩ := hd.flags_test
  have hyflags : y.raw.flags = hd.flags := hat.flags.symm.trans hflags'
  cases y with
  | broken flags body =>
    have := hat.signed_iff.mp hsig'
    exact absurd this (by simp [Rec.raw])
  | data d n =>
    obtain ⟨-, hdata, -⟩ := dataFlags_test d.auth.isSome d.cks
    rw [← hyflags] at htd
    rw [show (Rec.data d n).raw.flags = dataFlags d.auth.isSome d.cks from rfl, hdata] at htd
    exact absurd htd (by simp)
  | header hd' n =>
    obtain ⟨htv', -, -, -, -, htf', hta', -⟩ := hd'.flags_test
    have hsame : hd'.flags = hd.flags := hyflags
    simp only [hsame] at htv' htf' hta'
    have hv : hd'.valid = hd.valid := htv'.symm.trans htv
    have hf : hd'.ref.isFull = hd.ref.isFull := htf'.symm.trans htf
    have ha : hd'.ascii = hd.ascii := hta'.symm.trans hta
    have hn : n = flashEmptyNext := hat.next.symm.trans hnext'
    have hcont' := holds_contents hat
    unfold Header.contents Header.key at hcont hcont'
    rw [List.append_assoc, holds_append, holds_append] at hcont hcont'
    have hlen : hd'.ref.bytes.length = hd.ref.bytes.length := by
      rw [GuidRef.bytes_length, GuidRef.bytes_length, hf]
    rw [hlen, ha] at hcont'
    have hname : hd'.name = hd.name :=
      name_unique hcont'.2.1 hcont.2.1 (fun h => hd'.ascii_ok (ha.trans h)) hd.ascii_ok
    have hbytes : hd'.ref.bytes = hd.ref.bytes :=
      (hcont'.1.peek_eq rfl).symm.trans (hcont.1.peek_eq hlen)
    refine ⟨hd', by rw [hn], hv.trans hval, hname, ?_, ?_, ?_⟩
    · cases hr : hd.ref with
      | full g =>
        cases hr' : hd'.ref with
        | full g' =>
          rw [hr, hr'] at hbytes
          exact hbytes
        | index i' => simp [hr, hr', GuidRef.isFull] at hf
      | index i =>
        cases hr' : hd'.ref with
        | full g' => simp [hr, hr', GuidRef.isFull] at hf
        | index i' =>
          rw [hr, hr'] at hbytes
          rw [(List.cons.inj hbytes).1]
    · rw [← hn]
      exact hat.size.symm.trans hsize'
    · rw [Header.key_length, Header.key_length, hf, ha, hname]

end

section

variable {cfg : Config} {h : Nat} {src dst : StoreInfo} {D A T B : List Rec} {kept : Key → Prop}
  {b : Nat} {Q : List (Nat × Rec)} {I : List UInt8} {p q n : Nat} {hd : Header} {rf : Rec} {k : Key}

/-- The copy of a variable that is too large for one record succeeds, and no matter what is
copied behind it, a walk over the target finds less data. -/
theorem Copied.too_large (S : Store h src D A T)
    (C : Copied h src (placed h (D ++ (A ++ T))) kept b dst B Q I)
    (hv : VarAt (placed h (D ++ (A ++ T))) p hd q rf)
    (hm : (p, Rec.header hd n) ∈ placed h (D ++ (A ++ T))) (hb : b ≤ p) (hk : hd.Named src k)
    (hcks : hd.cks = cfg.checksum) (hlarge : flashEmptySize ≤ compactSize hd rf.payload)
    (ext : ExtSecFlags) (device : Faults) :
    let res := createVariable cfg .mem dst k.1 k.2 (hd.attributes src.flags.nonVolatile)
      rf.payload hd.ref.isFull ext device
    res.1 = .success ∧ ∀ t B' T', Extends res.2 t → Store h t [] B' T' →
      ∃ v, Reads t (placed h ([] ++ (B' ++ T'))) k v ∧ v.data.length < rf.payload.length := by
  intro res
  obtain ⟨-, happend, -⟩ := hd.attributes_test src.flags.nonVolatile
  set attributes := hd.attributes src.flags.nonVolatile with hattributes
  set pl := createPlan cfg dst k.1 k.2 attributes rf.payload.length ([] : Bytes).length
    hd.ref.isFull with hpl
  have happ : isAppend attributes = false → ([] : Bytes) = [] := fun _ => rfl
  have hfull : pl.fullGuid = hd.ref.isFull := C.fullGuid hk
  have hsize : pl.size = compactSize hd rf.payload := copyPlan_size hpl hk.1 hcks hfull
  have hspace : isEnoughSpace dst pl.size = true := by
    rw [hsize]
    exact C.space S hv hm hb
  have hsmall : pl.size < 2 ^ 64 := by
    obtain ⟨hc, -⟩ := varRecs_mem hv hm
    have h1 := compactSize_le hm hc
    have h2 := (S.sizes _ (mem_of_mem_place hm)).2
    have h3 := (S.sizes _ (mem_of_mem_place (hc.mem hm))).2
    unfold flashEmptySize at h2 h3
    rw [hsize]
    split at h1 <;> omega
  have hres : res = _ := createVariableEx_mem hpl hsmall hspace ext device
  refine ⟨by rw [hres], fun t B' T' X St => ?_⟩
  rw [hres] at X
  set hd' := createdHeader cfg k.1 k.2 attributes (joinData (isAppend attributes) [] rf.payload) ext
    pl with hhd
  set e := dst.pEndOfVars with he
  -- the front of the record, and its GUID
  have hpsize := createPlan_size hpl happ ext
  rw [← hhd] at hpsize
  have hcontents := createSteps_front hpl happ ext hspace
  rw [show pl.flags = hd'.flags from createPlan_flags hpl, ← hhd] at hcontents
  have hlen : e + (leBytes 4 nvarSignature ++ (leBytes 2 pl.size ++ (leBytes 3 flashEmptyNext
      ++ (hd'.flags :: hd'.contents)))).length ≤ e + pl.size := by
    simp only [List.length_append, leBytes_length, List.length_cons]
    unfold sizeofNvar at hpsize
    omega
  have hfront : Holds t.mem e (leBytes 4 nvarSignature ++ (leBytes 2 pl.size
      ++ (leBytes 3 flashEmptyNext ++ (hd'.flags :: hd'.contents)))) :=
    hcontents.congr fun a _ h2 => X.log a (lt_of_lt_of_le h2 hlen)
  obtain ⟨hguid, hindex⟩ := createSteps_ref hpl happ ext hspace C.store.guid256
  rw [← hhd] at hguid hindex
  have hresolve : hd'.ref.resolve t = k.2.bytes := by
    rw [← hguid]
    cases hr : hd'.ref with
    | full g => rfl
    | index i =>
      have hsl : t.guidSlot i.toNat = dst.guidSlot i.toNat := by
        unfold StoreInfo.guidSlot
        rw [X.size]
      have := X.table i.toNat (hindex i hr)
      unfold GuidRef.resolve
      simp only
      rw [hsl]
      exact this
  -- the walk gets to the record
  have hfirst : dst.pFirstVar = h := by
    have := C.store.first
    simpa using this
  have hend : e = h + logSize B := by rw [he, C.store.end_, hfirst]
  have htend : t.pEndOfVars = h + logSize B' := by
    have h1 := St.first
    have h2 := St.end_
    rw [logSize_nil] at h1
    omega
  have hgrow : e + pl.size ≤ t.pEndOfVars := X.end_
  have hp10 : 10 ≤ pl.size := by rw [hpsize]; exact Nat.le_add_right _ _
  have hbefore : ∀ x ∈ placed h B, sizeAt t.mem x.1 = x.2.size := by
    intro x hx
    have hbd := (place_bounds hx).2
    have h10 : 10 ≤ x.2.size := Nat.le_add_right _ _
    have hsz : sizeAt dst.mem x.1 = x.2.size :=
      recAt_size (C.store.recAt (y := x.2) (e := x.1) (by simpa using hx))
    rw [← hsz]
    refine rd_congr fun a h1 h2 => ?_
    rw [Rec.bytes_length] at hbd
    have ha : a < e := by
      rw [hend]
      unfold logSize
      unfold sizeOffset at *
      omega
    refine (X.log a (lt_of_lt_of_le ha (Nat.le_add_right _ _))).trans ?_
    refine createSteps_frame hpl happ ext (fun _ hst => hst) (Or.inl ha) (Or.inl ?_)
    have := (guidSlot_above hspace).1
    omega
  obtain ⟨y, hy⟩ : ∃ y, (h + logSize B, y) ∈ placed h (B' ++ T') := parse_next hbefore
    (fun y hy => recAt_size (St.recAt (y := y.2) (e := y.1) (by simpa using hy)))
    (by rw [logSize_append]; omega)
  rw [← hend] at hy
  obtain ⟨hd2, rfl, hval2, hname2, hres2, hsize2, hkey2⟩ := St.header_of_front (show hd'.valid = true from rfl) hfront hy
  have hs2 := (St.sizes _ (mem_of_mem_place hy)).2
  have hn2 : (Rec.header hd2 flashEmptyNext).next = flashEmptyNext := rfl
  refine ⟨_, ⟨e, hd2, e, .header hd2 flashEmptyNext, ⟨hval2, _, hy, Chain.last hn2⟩,
    ⟨hname2, hres2.trans hresolve⟩, rfl⟩, ?_⟩
  -- and finds less data there
  change hd2.data.length < rf.payload.length
  change hd2.size flashEmptyNext < flashEmptySize at hs2
  have hjoin : joinData (isAppend attributes) [] rf.payload = rf.payload := by
    rw [happend]
    rfl
  have hcl : hd'.contents.length = hd'.key.length + rf.payload.length := by
    unfold Header.contents
    rw [List.length_append]
    change _ + (joinData (isAppend attributes) [] rf.payload).length = _
    rw [hjoin]
  have hext : pl.extSize ≤ 44 := by
    rw [hpl]
    simp only [createPlan, hashSha256Len]
    split <;> split <;> omega
  have hz : sizeofNvar + (hd2.key.length + hd2.data.length) ≤ hd2.size flashEmptyNext := by
    unfold Header.size Raw.size Header.raw Header.contents
    simp only [List.length_append]
    omega
  unfold flashEmptySize at *
  unfold sizeofNvar at *
  omega

end

/-! ## When the copy is complete -/

section

variable {cfg : Config} {h : Nat} {src dst : StoreInfo} {D A T : List Rec}

section

variable (S : Store h src D A T) (U : Uniform cfg A) (hsize : dst.nvramSize = src.nvramSize)
  (hflags : dst.flags = src.flags)
include S U hsize hflags

/-- A copy that preserves the variables has met collectable ones only. -/
theorem Store.collectable_of_copy
    (hh : cfg.headerLength = h) {env : CopyEnv} (hbuf : env.buffer = true)
    (htmp : env.tmpBuffer = true)
    (hcopy : IsCopy h src (placed h (D ++ (A ++ T)))
      (copyVarStore cfg .mem src dst (fun _ _ => false) false env)) {p : Nat} {hd : Header} {q : Nat}
    {rf : Rec} (hv : VarAt (placed h (D ++ (A ++ T))) p hd q rf) : Collectable src hd rf := by
  rw [copyVarStore_mem hbuf htmp] at hcopy
  have hkept : ∀ k, Kept cfg (fun _ _ => false) false src k := fun _ => rfl
  have hsteady : Filter.Steady (fun _ _ => false) src := fun _ _ => rfl
  rcases copyLoop_reaches S U hsteady env.vars (src.pEndOfVars + 1) (j := 0)
    (show A = [] ++ A from rfl) S.logAt.fuel S.goesOn_start
    (S.copied_start hsize hflags hh (Kept cfg (fun _ _ => false) false src)) with
    ⟨-, -, -, hpass, -⟩ | ⟨A1, us, hd0, n0, rest, q0, rf0, k0, x, key, dst0, B, Q, I, fuel, j, hA,
      hus, hv0, hk0, hno, hgo, C, hr⟩
  · -- the copy has passed every variable
    obtain ⟨hval, n, hm, -⟩ := id hv
    have hle := (place_bounds (S.mem_walked hm hval)).1
    obtain ⟨h1, h2⟩ := hpass p hd q rf (hd.name, guidAt src p) hv
      (by rw [logSize_nil]; exact hle)
      ⟨rfl, (nvGetGuid_eq (S.recAt hm)).symm⟩
    exact ⟨h1, h2 (hkept _)⟩
  · -- it has met one that is not
    exfalso
    rw [hr] at hcopy
    obtain ⟨hval, n, hm, hc⟩ := id hv0
    set p0 := src.pFirstVar + logSize A1 + logSize us with hp0
    have hmA : (p0, Rec.header hd0 n0) ∈ placed src.pFirstVar A := by
      have hp : p0 = src.pFirstVar + logSize (A1 ++ us) := by
        rw [logSize_append]
        omega
      rw [hA, ← List.append_assoc, hp]
      exact mem_place_mid _ _ _ _
    have hm0 := S.mem_log hmA
    have hat := S.logAt.mem_at hmA
    have hin := (S.logAt.fits _ hmA).inside
    have hroom := S.room
    obtain ⟨hcks, -⟩ := U hd0 n0 (mem_of_mem_place hmA) hval
    set s : StoreInfo := { src with pLastReturned := x } with hs
    have hlen : hd0.name.chars.length < s.nvramSize := by
      have hname := hd0.name_lt n0
      have := (S.spare _ _ hm0).1
      change _ < src.nvramSize
      unfold nameSize at hname
      split at hname <;> omega
    have hnext := nextName_some (s := s) hgo hval hus hat hlen
    by_cases hfit : 2 * (hd0.name.chars.length + 1) ≤ src.nvramSize
    · -- too large for one record
      have hlarge : flashEmptySize ≤ compactSize hd0 rf0.payload := by
        by_contra hlt
        exact hno ⟨hfit, fun _ => by omega⟩
      rw [if_neg (show ¬ s.nvramSize < _ by rw [hs]; simp only; omega), ← hp0] at hnext
      set s' : StoreInfo := { src with pLastReturned := some p0 } with hs'
      have hkey : k0 = (hd0.name, guidAt s p0) := by
        refine hk0.key_eq (?_ : hd0.Named src _)
        exact ⟨rfl, (nvGetGuid_eq (s := src) hat).symm⟩
      have hbuf0 : rf0.payload.length ≤ src.nvramSize := by
        have h1 := rf0.payload_lt
        have h2 := (S.spare _ _ (hc.mem hm)).1
        omega
      have hcopied := (S.returned (some p0)).copyVariable_eq (s := s')
        hv0 ⟨hk0.1, hk0.2⟩ hbuf0 cfg .mem dst0 (env.vars j)
      obtain ⟨hok, hlost⟩ := C.too_large S hv0 hm0 (Nat.le_add_right _ _) hk0 hcks hlarge
        (copiedExt s' p0 hd0) (env.vars j)
      rw [← hkey] at hnext
      have hgoes : copyLoop cfg .mem (fun _ _ => false) false env.vars (fuel + 1) j s dst0 key
          = copyLoop cfg .mem (fun _ _ => false) false env.vars fuel (j + 1) s'
              (copyVariable cfg .mem src.nvramSize s' dst0 k0 (env.vars j)).2 k0 :=
        copyLoop_copy hnext rfl (by rw [hcopied]; exact hok)
      rw [hgoes, hcopied] at hcopy
      obtain ⟨B', T', St, hreads⟩ := hcopy.wellFormed
      obtain ⟨v, hread, hless⟩ := hlost _ B' T' (copyLoop_extends .mem env.vars fuel (j + 1) s' _ k0) St
      have hsrc : Reads src (placed h (D ++ (A ++ T))) k0 (hd0.value src rf0) :=
        ⟨p0, hd0, q0, rf0, hv0, hk0, rfl⟩
      have := S.reads_unique ((hreads k0 v).mp hread) hsrc
      rw [this] at hless
      exact lt_irrefl _ hless
    · -- the name ends the copy
      rw [if_pos (show s.nvramSize < _ by rw [hs]; simp only; omega)] at hnext
      have hst := hcopy.status
      rw [copyLoop_end hnext (by simp)] at hst
      exact absurd hst (by simp)

/-- A garbage collection preserves the variables exactly when all of them are collectable. -/
theorem Store.copy_iff
    (hh : cfg.headerLength = h) {env : CopyEnv} (hbuf : env.buffer = true)
    (htmp : env.tmpBuffer = true) :
    IsCopy h src (placed h (D ++ (A ++ T)))
        (copyVarStore cfg .mem src dst (fun _ _ => false) false env)
      ↔ ∀ p hd q rf, VarAt (placed h (D ++ (A ++ T))) p hd q rf → Collectable src hd rf :=
  ⟨fun hcopy _ _ _ _ hv => S.collectable_of_copy U hsize hflags hh hbuf htmp hcopy hv,
    S.copy U hsize hflags hh hbuf htmp⟩

end

end

/-! ## A small store -/

/-- The store of 290 bytes after one variable with one byte of data has been created. -/
def holdingOne (name : Name) : StoreInfo :=
  (createVariable plain .mem (blank 96 290) name guidZero 7 [1] false .zero none).2

theorem holdingOne_store (name : Name) (hascii : isAsciiName name = true) (hne : name.chars ≠ [])
    (hlen : name.chars.length ≤ 155) :
    ∃ hd, hd.name = name ∧ hd.ascii = true ∧ hd.valid = true ∧ hd.data = [1] ∧ hd.auth = none
      ∧ hd.ref.isFull = false ∧ (holdingOne name).nvramSize = 290
      ∧ (holdingOne name).flags = { nonVolatile := true }
      ∧ Store 96 (holdingOne name) [] [.header hd flashEmptyNext] []
      ∧ Uniform plain [.header hd flashEmptyNext] := by
  have S0 : Store 96 (blank 96 290) [] [] [] := store_empty rfl rfl rfl (by decide) fun _ _ _ => rfl
  set pl := createPlan plain (blank 96 290) name guidZero 7 ([1] : Bytes).length
    ([] : Bytes).length false with hpl
  have hsize : pl.size = 13 + name.chars.length := by
    have : nameBytesLength name = name.chars.length + 1 := by
      unfold nameBytesLength
      rw [if_pos hascii]
    rw [hpl]
    change sizeofNvar + 0 + 1 + nameBytesLength name + (1 + 0) = _
    unfold sizeofNvar
    omega
  have hspace : isEnoughSpace (blank 96 290) pl.size = true := by
    refine decide_eq_true ?_
    change 96 + pl.size + 16 * (0 + 1) + 10 ≤ 290
    omega
  have hlt : pl.size < flashEmptySize := by
    unfold flashEmptySize
    omega
  set hd := createdHeader plain name guidZero 7 (joinData (isAppend 7) [] [1]) .zero pl with hhd
  have hsuccess : (createVariableEx plain .mem (blank 96 290) name guidZero 7 [1] false .zero []
      none).1 = .success := by
    rw [createVariableEx_mem (k := (name, guidZero)) hpl (by omega) hspace]
  obtain ⟨H, hguid, hindex⟩ : Appended (blank 96 290) (holdingOne name) (.header hd flashEmptyNext)
      ∧ hd.ref.resolve (holdingOne name) = guidZero.bytes
      ∧ ∀ j, hd.ref = .index j → j.toNat < (holdingOne name).nextGuid := by
    rcases createVariableEx_cases (s := blank 96 290) .mem .zero none (fun _ => rfl) (by decide) hpl
      (fun _ => ⟨hlt, fun _ _ _ => rfl⟩) with ⟨hno, -⟩ | ⟨hno, -⟩ | ⟨-, hyes⟩
    · exact absurd hsuccess hno
    · exact absurd (hsuccess.symm.trans hno) (by simp)
    · exact hyes
  obtain ⟨S, -⟩ := S0.created (k := (name, guidZero)) hpl (fun _ => rfl) hhd H hguid hindex
    (by rintro v ⟨p, hd, q, rf, ⟨-, n, hm, -⟩, -⟩; exact absurd hm (by simp)) hlt
    (fun _ _ _ => rfl) rfl
  refine ⟨hd, rfl, hascii, rfl, rfl, rfl, rfl, H.size, H.flags, S, fun hd' n hm _ => ?_⟩
  obtain ⟨rfl, -⟩ := Rec.header.inj (List.mem_singleton.mp hm)
  exact ⟨rfl, hne⟩

/-- The variable of such a store. -/
theorem varAt_single {hd : Header} (hval : hd.valid = true) :
    VarAt (placed 96 ([] ++ ([Rec.header hd flashEmptyNext] ++ []))) 96 hd 96
      (.header hd flashEmptyNext) :=
  ⟨hval, flashEmptyNext, List.mem_cons_self .., Chain.last rfl⟩

/-- That store after an update of the variable. -/
def updatedOne : UpdateResult :=
  updateVariable plain .mem (holdingOne nameA) 96 (nameSize true nameA) 7 [2] none .zero none

/-- The variable is now a header record and a data record. -/
theorem updatedOne_store : ∃ hd n d, hd.name = nameA ∧ hd.auth = none ∧ hd.ref.isFull = false
    ∧ (Rec.header hd n).payload = [1] ∧ (Rec.data d flashEmptyNext).payload = [2]
    ∧ updatedOne.store.nvramSize = 290 ∧ updatedOne.store.flags = { nonVolatile := true }
    ∧ Store 96 updatedOne.store [] [.header hd n, .data d flashEmptyNext] []
    ∧ Uniform plain [.header hd n, .data d flashEmptyNext] := by
  obtain ⟨hd, hname, hascii, hval, hdata, hauth, hfull, hsize, hflags, S, U⟩ :=
    holdingOne_store nameA (by decide) (by decide) (by decide)
  have hclear : Clear (holdingOne nameA) 11 := clear_of_erased (by decide +kernel)
  have hsuccess : updatedOne.status = .success := by decide +kernel
  have hcall : updatedOne = updateVariable plain .mem (holdingOne nameA) 96
      (nameSize hd.ascii hd.name) 7 [2] none .zero none := by
    rw [hname, hascii]
    rfl
  rw [hcall] at hsuccess ⊢
  have hpl : (updatePlan plain 7 (Rec.header hd flashEmptyNext).payload.length 1).size = 11 := by
    rw [Rec.payload, hdata]
    rfl
  have hv := varAt_single hval
  rcases updateVariable_cases .mem .zero none S hv (Or.inl rfl)
    (show _ = updatePlan plain 7 _ ([2] : Bytes).length from rfl)
    fun _ => ⟨hpl ▸ by decide, hpl ▸ hclear⟩ with
    ⟨hno, -⟩ | ⟨-, ⟨-, -, -, -, hsame⟩ | ⟨-, ⟨hno, -⟩ | ⟨hrsize, H, ⟨hno, -⟩ | ⟨-, -, hstore⟩⟩⟩⟩
  · exact absurd hsuccess hno
  · rw [Rec.payload, hdata] at hsame
    exact absurd hsame (by decide)
  · exact absurd (hsuccess.symm.trans hno) (by decide)
  · exact absurd (hsuccess.symm.trans hno) (by decide)
  · have hsz := hrsize.trans hpl
    obtain ⟨A1, A2, hA, R⟩ := S.relinked H (hsz ▸ hclear) (hsz ▸ by decide) (hsz ▸ by decide) hv
      (by rw [hauth]; rfl) (by decide +kernel)
    cases A1 with
    | cons => simp at hA
    | nil =>
      obtain ⟨-, rfl⟩ := List.cons.inj hA
      rw [hstore]
      exact ⟨hd, _, _, hname, hauth, hfull, hdata, rfl, hsize, hflags, R.store_new,
        by simpa [Uniform] using U⟩

/-- A garbage collection makes one record of the two. -/
theorem copy_iff_chain : ∃ A, IsCopy 96 updatedOne.store (placed 96 ([] ++ (A ++ [])))
    (copyVarStore plain .mem updatedOne.store (blank 96 290) (fun _ _ => false) false {}) := by
  obtain ⟨hd, n, d, hname, hauth, hfull, hdata, hdata', hsize, hflags, S, U⟩ := updatedOne_store
  refine ⟨_, (S.copy_iff U hsize.symm hflags.symm rfl rfl rfl).mpr ?_⟩
  rintro p hd' q rf ⟨hval, m, hm, hc⟩
  have hrf := mem_of_mem_place (hc.mem hm)
  have hhd := mem_of_mem_place hm
  simp only [List.nil_append, List.append_nil, List.mem_cons, List.not_mem_nil, or_false,
    Rec.header.injEq, reduceCtorEq] at hrf hhd
  obtain ⟨rfl, rfl⟩ := hhd
  have hpayload : rf.payload.length = 1 := by
    rcases hrf with rfl | rfl
    · rw [hdata]
      rfl
    · rw [hdata']
      rfl
  have hcks := (U hd' _ (List.mem_cons_self ..) hval).1
  refine ⟨by rw [hname, hsize]; decide, ?_⟩
  unfold compactSize
  rw [hd'.ref.bytes_length, hfull, hname, hauth, hcks, hpayload]
  decide

def longName : Name := ⟨List.replicate 150 0x41, by simp⟩

/-- The Unicode form of the name does not fit `TmpName`. -/
theorem not_copy : ¬ ∀ (cfg : Config) (h : Nat) (src dst : StoreInfo) (D A T : List Rec)
    (env : CopyEnv), Store h src D A T → Uniform cfg A → dst.nvramSize = src.nvramSize →
    dst.flags = src.flags → cfg.headerLength = h → env.buffer = true → env.tmpBuffer = true →
    IsCopy h src (placed h (D ++ (A ++ T)))
      (copyVarStore cfg .mem src dst (fun _ _ => false) false env) := by
  intro H
  obtain ⟨hd, hname, -, hval, -, -, -, hsize, hflags, S, U⟩ :=
    holdingOne_store longName (by simp [isAsciiName, longName]) (by simp [longName])
      (by simp [longName])
  have hcopy := H plain 96 _ (blank 96 290) _ _ _ {} S U hsize.symm hflags.symm rfl rfl rfl
  obtain ⟨hfit, -⟩ := S.collectable_of_copy U hsize.symm hflags.symm rfl rfl rfl hcopy
    (varAt_single hval)
  rw [hname, hsize] at hfit
  simp [longName] at hfit

end BayTrail.Nvram
