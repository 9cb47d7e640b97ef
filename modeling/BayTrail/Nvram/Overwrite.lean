import BayTrail.Nvram.Mutate

/-!
# The NVRAM store: overwriting and deleting

`UpdateVariable` adds a data-only record and then makes the last record of the
variable's chain point to it; a cut between the two leaves a record that nothing
refers to. `DeleteVariable` clears the validity bit of the header. The outcomes of
both are told apart here, and each of them is one of the changes of the log that
keep the invariant.
-/

namespace BayTrail.Nvram

open BayTrail.Lib

/-! ## Programming one field of a record -/

variable {m : Mem} {r : Raw}

/-- The `next` field is programmed. -/
theorem Raw.holds_next {q : Nat} (d : Nat) (h : Holds m q r.bytes) :
    Holds (poke m (q + nextOffset) (leBytes 3 d)) q (Raw.bytes { r with next := d }) := by
  unfold Raw.bytes at h ⊢
  rw [holds_append, holds_append, holds_append] at h ⊢
  simp only [leBytes_length] at h ⊢
  obtain ⟨hsig, hsize, -, hrest⟩ := h
  refine ⟨hsig.poke_of_disjoint (Or.inl ?_), hsize.poke_of_disjoint (Or.inl ?_),
    holds_poke _ _ _, hrest.poke_of_disjoint (Or.inr ?_)⟩
  · rw [leBytes_length]
    exact Nat.add_le_add_left (by decide) q
  · rw [leBytes_length]
    exact le_rfl
  · rw [leBytes_length]
    exact le_rfl

/-- The `flags` field is programmed. -/
theorem Raw.holds_flags {q : Nat} (f : UInt8) (h : Holds m q r.bytes) :
    Holds (poke m (q + flagOffset) [f]) q (Raw.bytes { r with flags := f }) := by
  unfold Raw.bytes at h ⊢
  rw [holds_append, holds_append, holds_append, holds_cons] at h ⊢
  simp only [leBytes_length] at h ⊢
  obtain ⟨hsig, hsize, hnext, -, hbody⟩ := h
  refine ⟨hsig.poke_of_disjoint (Or.inl ?_), hsize.poke_of_disjoint (Or.inl ?_),
    hnext.poke_of_disjoint (Or.inl ?_), (holds_poke _ _ [f]).1,
    hbody.poke_of_disjoint (Or.inr le_rfl)⟩
  · rw [leBytes_length]
    exact Nat.add_le_add_left (by decide) q
  · rw [leBytes_length, Nat.add_assoc]
    exact Nat.add_le_add_left (by decide) q
  · rw [leBytes_length]
    exact le_rfl

section

variable {h : Nat} {s : StoreInfo} {D A A1 A2 : List Rec} {p q : Nat} {x rf : Rec} {hd : Header}
  {n : Nat}

/-- A walked record splits the walked part. -/
theorem walked_split (hm : (q, x) ∈ placed s.pFirstVar A) :
    ∃ A1 A2, A = A1 ++ x :: A2 ∧ q = s.pFirstVar + logSize A1 :=
  place_split hm

theorem Store.holds_at {T : List Rec} (S : Store h s D A T) (hm : (q, x) ∈ placed s.pFirstVar A) :
    Holds s.mem q x.bytes :=
  holds_of_mem_place S.logAt.holds hm

/-- Programming the `next` field of a signed record of the walked part. -/
theorem rewritten_next (S : Store h s D (A1 ++ x :: A2) [])
    (hq : q = s.pFirstVar + logSize A1) (hs : x.signed = true) (d : Nat) :
    Rewritten h s (poke s.mem (q + nextOffset) (leBytes 3 d)) D A1 A2 q x (x.setNext d) := by
  have hm : (q, x) ∈ placed s.pFirstVar (A1 ++ x :: A2) := by
    rw [hq]
    exact mem_place_mid _ _ _ _
  have hgt := (S.sizes x (by simp)).1
  constructor
  case addr => exact hq
  case size => simp
  case signed => simp
  case live => simp
  case ref =>
    intro hd' n' he
    cases x with
    | header hd n => exact ⟨hd, n, rfl, by rw [(Rec.header.inj he).1]⟩
    | data d' n => exact absurd he (by simp [Rec.setNext])
    | broken f b => exact absurd he (by simp [Rec.setNext])
  case holds =>
    unfold Rec.bytes
    rw [Rec.setNext_raw hs]
    exact Raw.holds_next d (S.holds_at hm)
  case frame =>
    intro a ha
    refine poke_of_out ?_
    rw [leBytes_length]
    unfold sizeofNvar at hgt
    unfold nextOffset
    omega

/-- Clearing the validity bit of a header of the walked part. -/
theorem rewritten_killed (S : Store h s D (A1 ++ .header hd n :: A2) [])
    (hq : q = s.pFirstVar + logSize A1) (hv : hd.valid = true) :
    Rewritten h s (poke s.mem (q + flagOffset) [flagsAt s.mem q ^^^ flagValid]) D A1 A2 q
      (.header hd n) (.header hd.killed n) := by
  have hm : (q, Rec.header hd n) ∈ placed s.pFirstVar (A1 ++ .header hd n :: A2) := by
    rw [hq]
    exact mem_place_mid _ _ _ _
  have hgt := (S.sizes (.header hd n) (by simp)).1
  have hflags : flagsAt s.mem q ^^^ flagValid = hd.killed.flags := by
    rw [flagsAt_header (S.logAt.mem_at hm), Header.flags, hv]
    exact headerFlags_invert _ _ _ _ _ _
  constructor
  case addr => exact hq
  case size => rfl
  case signed => rfl
  case live => exact Or.inl rfl
  case ref =>
    intro hd' n' he
    exact ⟨hd, n, rfl, by rw [← (Rec.header.inj he).1]; rfl⟩
  case holds =>
    rw [hflags]
    exact Raw.holds_flags hd.killed.flags (S.holds_at hm)
  case frame =>
    intro a ha
    refine poke_of_out ?_
    unfold sizeofNvar at hgt
    unfold flagOffset
    simp only [List.length_singleton]
    omega

/-! ## DeleteVariable -/

/-- `DeleteVariable` clears the validity bit or does nothing. -/
theorem deleteVariable_cases (i : Interface) (s : StoreInfo) (var : Nat) (device : Faults) :
    deleteVariable i s var device = (.deviceError, s) ∨
    deleteVariable i s var device = (.success,
      { s with mem := poke s.mem (var + flagOffset) [flagsAt s.mem var ^^^ flagValid] }) := by
  unfold deleteVariable
  simp only
  set steps : List Step := [⟨var + flagOffset, [flagsAt s.mem var ^^^ flagValid], var⟩] with hsteps
  rcases performed_eq (effective i s.mem steps device) steps with ⟨hb, hp⟩ | ⟨k, -, hp, st, hst, hb⟩
  · right
    rw [hb, hp]
    rfl
  · left
    obtain ⟨hk, -⟩ := List.getElem?_eq_some_iff.mp hst
    obtain rfl : k = 0 := by simpa [hsteps] using hk
    rw [hb, hp]
    rfl

/-! ## UpdateVariable -/

/-- The data-only record that `UpdateVariable` adds. -/
def updatedData (cfg : Config) (attributes : UInt32) (oldData data : Bytes) (ext : ExtSecFlags) :
    DataRec where
  auth := if isAuth attributes then some ext.mc else none
  cks := cfg.checksum
  data := joinData (isAppend attributes) oldData data

section

variable {cfg : Config} {attributes : UInt32} {oldData data : Bytes} {ext : ExtSecFlags}
  {pl : UpdatePlan}

theorem updatedData_authFields : (updatedData cfg attributes oldData data ext).authFields
    = authFieldsOf (isAuth attributes) 0 [leBytes 8 ext.mc.toNat] := by
  unfold DataRec.authFields updatedData authFieldsOf
  cases isAuth attributes <;> simp

theorem updatedData_isSome :
    (updatedData cfg attributes oldData data ext).auth.isSome = isAuth attributes := by
  unfold updatedData
  cases isAuth attributes <;> rfl

theorem joinData_length (append : Bool) (oldData data : Bytes) :
    (joinData append oldData data).length
      = (if append then oldData.length else 0) + data.length := by
  unfold joinData
  cases append <;> simp

variable (hpl : pl = updatePlan cfg attributes oldData.length data.length)

include hpl in
theorem updatePlan_flags : pl.flags = dataFlags (isAuth attributes) cfg.checksum := by
  subst hpl
  rfl

include hpl in
theorem updatePlan_extSize (ext : ExtSecFlags) : pl.extSize
    = extTailSize (authFieldsOf (isAuth attributes) 0 [leBytes 8 ext.mc.toNat]) cfg.checksum := by
  subst hpl
  unfold extTailSize authFieldsOf
  cases ha : isAuth attributes <;> cases hc : cfg.checksum <;> simp [updatePlan, ha, hc]

include hpl in
theorem updatePlan_size : pl.size
    = sizeofNvar + ((joinData (isAppend attributes) oldData data).length + pl.extSize) := by
  rw [joinData_length]
  subst hpl
  simp only [updatePlan]
  omega

include hpl in
/-- The block of `UpdateVariable` programs the data-only record of the plan. -/
theorem updateSteps_block (ext : ExtSecFlags) (hs : pl.size < 65536)
    (hgap : cfg.checksum = true → s.mem (s.pEndOfVars + pl.size - 3) = flashEmptyByte) :
    RecordBlock s.mem s.pEndOfVars
      ((updatedData cfg attributes oldData data ext).raw flashEmptyNext) []
      (updateSteps cfg s attributes oldData data ext pl) := by
  have hraw : (updatedData cfg attributes oldData data ext).raw flashEmptyNext
      = ⟨true, flashEmptyNext, pl.flags, joinData (isAppend attributes) oldData data
        ++ extTail (authFieldsOf (isAuth attributes) 0 [leBytes 8 ext.mc.toNat]) cfg.checksum
          pl.flags (joinData (isAppend attributes) oldData data)⟩ := by
    unfold DataRec.raw
    rw [updatedData_authFields, updatedData_isSome, updatePlan_flags hpl]
    rfl
  have hp1 : s.pEndOfVars + 10 + (if isAppend attributes then oldData.length else 0) + data.length
      = s.pEndOfVars + 10 + (joinData (isAppend attributes) oldData data).length := by
    rw [joinData_length, Nat.add_assoc]
  have hef : pl.extFlags = (if isAuth attributes then 0 else 0) ||| bit cfg.checksum extFlagChecksum := by
    rw [hpl]
    unfold updatePlan bit
    cases cfg.checksum <;> simp
  have hext : (pl.flags &&& flagExtHeder != 0) = (isAuth attributes || cfg.checksum) := by
    rw [updatePlan_flags hpl]
    exact (dataFlags_test (isAuth attributes) cfg.checksum).2.2.1
  obtain ⟨hw, hin⟩ := dataSteps_writes (s.pEndOfVars + 10) (isAppend attributes) oldData data
  rw [hraw]
  unfold updateSteps
  simp only [hp1]
  exact record_block (by simp) (by simp) (updatePlan_extSize hpl ext)
    (updatePlan_size hpl) hs hef hext hw hin (by simp) dataSteps_pFail hgap

end

/-- A record that is signed but not linked: the recovery goes back before it. -/
theorem recover_unlinked {s : StoreInfo} {p dataSize prevVar : Nat} (hp : s.pEndOfVars + 10 ≤ p)
    (hsize : sizeAt s.mem s.pEndOfVars = dataSize) (hsig : sigAt s.mem s.pEndOfVars = nvarSignature)
    (hprev : nvGetDataNvar s prevVar ≠ some s.pEndOfVars) :
    recoverFromFlashUpdateFailure s p dataSize prevVar
      = { s with lastVarSize := dataSize % 65536 } := by
  unfold recoverFromFlashUpdateFailure
  rw [if_neg (by omega), if_pos hsize, if_pos ⟨hsig, hprev⟩]

theorem LogAt.of_frame {xs : List Rec} {m : Mem} (hlog : LogAt s p xs)
    (hend : s.pEndOfVars = p + logSize xs)
    (hm : ∀ a, p ≤ a → a < p + logSize xs → m a = s.mem a) : LogAt { s with mem := m } p xs :=
  ⟨hlog.holds.congr hm, hlog.le, Or.inl hend, hlog.fits⟩

/-- `NvAttribEq` compares the attributes that a header keeps as flags. -/
theorem nvAttribEq_auth {attributes : UInt32} (hat : RecAt s.mem p (.header hd n))
    (ha : nvAttribEq s p attributes = true) : isAuth attributes = hd.auth.isSome := by
  obtain ⟨-, -, -, hau, -⟩ := hd.flags_test
  unfold nvAttribEq hasFlag at ha
  rw [flagsAt_header hat, hau] at ha
  simp only [Bool.and_eq_true, beq_iff_eq] at ha
  exact ha.2.symm

/-- The data of a variable is found from its header or from the cached pointer. -/
theorem Store.data_from (S : Store h s D A []) {f : Option Nat}
    (hv : VarAt (placed h (D ++ (A ++ []))) p hd q rf) (hf : f = none ∨ f = some q) :
    nvGetData s (f.getD p) (nameSize hd.ascii hd.name)
      = some (q + rf.dataOffset, rf.payload.length) := by
  obtain ⟨-, hqm, hget, -⟩ := S.data_at hv
  rcases hf with rfl | rfl
  · exact hget
  · obtain ⟨-, n, -, hc⟩ := hv
    have hsig : rf.signed = true := by
      rcases hc.data_or with ⟨-, rfl⟩ | hd'
      · rfl
      · exact isData_signed hd'
    have hdn : nvGetDataNvar s q = some q :=
      nvGetDataNvar_eq S.logAt (Chain.last hc.final) hqm hsig
    refine (nvGetData_eq hdn (S.logAt.mem_at hqm)
      (lt_trans (S.logAt.fits _ hqm).size_lt (by decide)) hsig ?_).1
    intro hd' n' he
    rcases hc.data_or with ⟨-, h'⟩ | h'
    · obtain ⟨rfl, -⟩ := Rec.header.inj (h'.symm.trans he)
      rfl
    · rw [he] at h'
      exact absurd h' (by simp [Rec.isData])

section

variable {cfg : Config} {attributes : UInt32} {data : Bytes} {ext : ExtSecFlags}
  {pl : UpdatePlan} {final : Option Nat}

/-- The store once the new record has been programmed. -/
def updated (cfg : Config) (s : StoreInfo) (attributes : UInt32) (oldData data : Bytes)
    (ext : ExtSecFlags) (pl : UpdatePlan) : StoreInfo :=
  { s with
    mem := applySteps s.mem (updateSteps cfg s attributes oldData data ext pl)
    pEndOfVars := s.pEndOfVars + pl.size
    lastVarSize := pl.size % 65536 }

theorem updated_appended (ext : ExtSecFlags) {oldData : Bytes} (hclear : Clear s pl.size)
    (hpl : pl = updatePlan cfg attributes oldData.length data.length)
    (hs : pl.size < flashEmptySize) (hspace : isEnoughSpace s pl.size = true) :
    RecordBlock s.mem s.pEndOfVars
      ((updatedData cfg attributes oldData data ext).raw flashEmptyNext) []
      (updateSteps cfg s attributes oldData data ext pl)
    ∧ (Rec.data (updatedData cfg attributes oldData data ext) flashEmptyNext).size = pl.size
    ∧ Appended s (updated cfg s attributes oldData data ext pl)
      (.data (updatedData cfg attributes oldData data ext) flashEmptyNext) := by
  have hsize := updatePlan_size hpl
  have h10 : 10 ≤ pl.size := by
    rw [hsize]
    exact Nat.le_add_right _ _
  have hblock := updateSteps_block (s := s) hpl ext (lt_trans hs (by decide)) fun _ =>
    hclear _ (by omega) (by omega)
  have hrsize : (Rec.data (updatedData cfg attributes oldData data ext) flashEmptyNext).size
      = pl.size := by
    change sizeofNvar + (joinData (isAppend attributes) oldData data ++ extTail
      (updatedData cfg attributes oldData data ext).authFields cfg.checksum _ _).length = pl.size
    rw [List.length_append, extTail_length, updatedData_authFields, hsize,
      updatePlan_extSize hpl ext]
  refine ⟨hblock, hrsize, ⟨?_, hblock.done, ?_, rfl, rfl, rfl, Or.inl rfl, ?_⟩⟩
  · rw [hrsize]
    exact of_decide_eq_true hspace
  · rw [hrsize]
    rfl
  · intro a ha _
    exact hblock.frame (fun _ hst => hst) ha (by simp)

theorem linkStep_pFail {oldData : Bytes} {last : Nat}
    (hpl : pl = updatePlan cfg attributes oldData.length data.length) :
    s.pEndOfVars + 10 ≤ (linkStep cfg s attributes oldData data pl last).pFail := by
  subst hpl
  simp only [linkStep, updatePlan]
  unfold sizeofNvar
  cases cfg.checksum <;> cases isAuth attributes <;>
    simp only [Bool.false_eq_true, if_false, if_true] <;> omega

/-- When the link is not programmed, the recovery stays before the new record. -/
theorem updated_unlinked (p' : Nat) {last : Nat} {raw : Raw} {steps : List Step}
    (hblock : RecordBlock s.mem s.pEndOfVars raw [] steps) (hs : raw.size < flashEmptySize)
    (hnext : raw.next = flashEmptyNext) (hsigned : raw.signed = true)
    (hp' : s.pEndOfVars + 10 ≤ p') (hq : last < s.pEndOfVars)
    (hdn : nvGetDataNvar { s with mem := applySteps s.mem steps } last = some last) :
    recoverFromFlashUpdateFailure { s with mem := applySteps s.mem steps } p' raw.size last
      = { s with mem := applySteps s.mem steps, lastVarSize := raw.size % 65536 } := by
  have hat : RawAt (applySteps s.mem steps) s.pEndOfVars raw :=
    Raw.at_of_holds hblock.done (lt_trans hs (by decide)) (by rw [hnext]; decide)
  refine recover_unlinked (s := { s with mem := applySteps s.mem steps }) hp' hat.size
    (hat.signed_iff.mpr hsigned) ?_
  rw [hdn]
  exact fun he => absurd (Option.some.inj he) (ne_of_lt hq)

/-- `UpdateVariable` gets as far as programming a record. -/
def Programs (cfg : Config) (s : StoreInfo) (oldVar : Nat) (attributes : UInt32)
    (oldData data : Bytes) : Prop :=
  nvAttribEq s oldVar attributes = true
    ∧ ¬ (!isAppend attributes && oldData = data
      && (!cfg.checksum || hasFlag s.mem oldVar flagExtHeder)) = true
    ∧ isEnoughSpace s (updatePlan cfg attributes oldData.length data.length).size = true

/-- What one run of `UpdateVariable` on a stored variable can do: nothing, add a
broken record, add the new record without linking it, or all of it. -/
theorem updateVariable_cases (i : Interface) (ext : ExtSecFlags) (device : Faults)
    (S : Store h s D A [])
    (hv : VarAt (placed h (D ++ (A ++ []))) p hd q rf) (hfinal : final = none ∨ final = some q)
    (hpl : pl = updatePlan cfg attributes rf.payload.length data.length)
    (hsafe : Programs cfg s p attributes rf.payload data →
      pl.size < flashEmptySize ∧ Clear s pl.size) :
    let res := updateVariable cfg i s p (nameSize hd.ascii hd.name) attributes data final ext device
    let r := Rec.data (updatedData cfg attributes rf.payload data ext) flashEmptyNext
    let s1 := updated cfg s attributes rf.payload data ext pl
    (res.status ≠ .success ∧ res.store = s ∧ res.finalDataNvar = final) ∨
    (isAuth attributes = hd.auth.isSome ∧
      ((res.status = .success ∧ res.store = s ∧ res.finalDataNvar = final
        ∧ isAppend attributes = false ∧ rf.payload = data) ∨
      (Programs cfg s p attributes rf.payload data ∧
        ((res.status = .deviceError ∧ res.finalDataNvar = final ∧ ∃ body,
          sizeofNvar + body.length = pl.size ∧ Appended s res.store (.broken pl.flags body)) ∨
        (r.size = pl.size ∧ Appended s s1 r ∧
          ((res.status = .deviceError ∧ res.finalDataNvar = final
            ∧ res.store = { s1 with pEndOfVars := s.pEndOfVars }) ∨
          (res.status = .success ∧ res.finalDataNvar = some s.pEndOfVars
            ∧ res.store = { s1 with
                mem := poke s1.mem (q + nextOffset) (leBytes 3 (s.pEndOfVars - q)) }))))))) := by
  intro res r s1
  obtain ⟨hdn, hqm, hget0, hholds⟩ := S.data_at hv
  have hget := S.data_from hv hfinal
  have hq := S.varAt_final hv
  obtain ⟨hval, n, hm, hc⟩ := id hv
  have hA := S.mem_walked hm hval
  have hpeek : peek s.mem (q + rf.dataOffset) rf.payload.length = rf.payload := hholds.peek_eq rfl
  by_cases ha : nvAttribEq s p attributes = true
  swap
  · left
    have : res = ⟨.invalidParameter, s, final⟩ := by simp [res, updateVariable, ha]
    rw [this]
    exact ⟨by simp, rfl, rfl⟩
  have hau := nvAttribEq_auth (S.logAt.mem_at hA) ha
  by_cases heq : (!isAppend attributes && rf.payload = data
      && (!cfg.checksum || hasFlag s.mem p flagExtHeder)) = true
  · refine Or.inr ⟨hau, Or.inl ?_⟩
    have : res = ⟨.success, s, final⟩ := by
      simp only [res, updateVariable, ha, hget, Option.getD_some, hpeek]
      rw [if_neg (by simp), if_pos heq]
    rw [this]
    simp only [Bool.and_eq_true, Bool.not_eq_true', decide_eq_true_eq] at heq
    exact ⟨rfl, rfl, rfl, heq.1.1, heq.1.2⟩
  by_cases hspace : isEnoughSpace s pl.size = true
  swap
  · left
    have : res = ⟨.outOfResources, s, final⟩ := by
      simp only [res, updateVariable, ha, hget, Option.getD_some, hpeek, ← hpl]
      rw [if_neg (by simp), if_neg heq, if_pos (by simpa using hspace)]
    rw [this]
    exact ⟨by simp, rfl, rfl⟩
  have hprog : Programs cfg s p attributes rf.payload data := ⟨ha, heq, hpl ▸ hspace⟩
  obtain ⟨hs, hclear⟩ := hsafe hprog
  obtain ⟨hblock, hrsize, happ⟩ :=
    updated_appended ext hclear hpl hs hspace
  set record := updateSteps cfg s attributes rf.payload data ext pl with hrecord
  have hbelow : ∀ a, a < s.pEndOfVars → applySteps s.mem record a = s.mem a := fun a ha =>
    hblock.frame (fun _ hst => hst) (Or.inl ha) (by simp)
  -- the walks over the log are the same once the record has been programmed
  have hlog1 : LogAt { s with mem := applySteps s.mem record } s.pFirstVar A :=
    S.logAt.of_frame S.end_ fun a _ h2 => hbelow a (by rw [S.end_]; exact h2)
  have hcA := S.chain_walked hc (place_bounds hA).1 hq
  have hsig : rf.signed = true := by
    rcases hc.data_or with ⟨-, rfl⟩ | hd'
    · rfl
    · exact isData_signed hd'
  have hdn1 : nvGetDataNvar { s with mem := applySteps s.mem record } p = some q :=
    nvGetDataNvar_eq hlog1 hcA hA rfl
  have hdn2 : nvGetDataNvar { s with mem := applySteps s.mem record } q = some q :=
    nvGetDataNvar_eq hlog1 (Chain.last hc.final) hqm hsig
  have hlast : (final.orElse fun _ =>
      nvGetDataNvar { s with mem := applySteps s.mem record } p).getD 0 = q := by
    rcases hfinal with rfl | rfl
    · rw [Option.orElse_none, hdn1]
      rfl
    · rfl
  set link := linkStep cfg s attributes rf.payload data pl q with hlink
  set steps := record ++ [link] with hsteps
  set faults := effective i s.mem steps device with hfaults
  have hres : res = (brokenAt faults steps).elim
      ⟨.success, { s with
        mem := applySteps s.mem (performed faults steps)
        pEndOfVars := s.pEndOfVars + pl.size
        lastVarSize := pl.size % 65536 }, some s.pEndOfVars⟩
      fun p' => ⟨.deviceError, recoverFromFlashUpdateFailure
        { s with mem := applySteps s.mem (performed faults steps) } p' pl.size
        (if faults = some record.length then q else p), final⟩ := by
    simp only [res, updateVariable, ha, hget, Option.getD_some, hpeek, ← hpl, ← hrecord, hlast,
      ← hlink, ← hsteps, ← hfaults]
    rw [if_neg (by simp), if_neg heq, if_neg (by simp [hspace])]
    cases brokenAt faults steps <;> rfl
  rcases performed_eq faults steps with ⟨hb, hp⟩ | ⟨k, hk, hp, st, hst, hb⟩
  · -- every call took effect
    refine Or.inr ⟨hau, Or.inr ⟨hprog, Or.inr ⟨hrsize, happ, Or.inr ?_⟩⟩⟩
    rw [hb, hp, Option.elim_none] at hres
    rw [hres]
    refine ⟨rfl, rfl, ?_⟩
    simp only [hsteps, applySteps_append, applySteps_cons, applySteps_nil]
    rfl
  · rw [hb, hp, Option.elim_some] at hres
    have hraw : Raw.size ((updatedData cfg attributes rf.payload data ext).raw flashEmptyNext)
        = pl.size := hrsize
    have hklt : k < record.length + 1 := by
      have := (List.getElem?_eq_some_iff.mp hst).1
      simpa [hsteps] using this
    by_cases hkr : k < record.length
    · have hst' : record[k]? = some st := by rwa [hsteps, List.getElem?_append_left hkr] at hst
      have htake : steps.take k = record.take k := List.take_append_of_le_length (by omega)
      rw [htake] at hres
      cases k with
      | zero =>
        -- nothing was programmed
        left
        have hpf : st.pFail = s.pEndOfVars + 10 := by
          have hfirst := hblock.first
          rw [List.head?_eq_getElem?, hst'] at hfirst
          simpa using hfirst
        rw [hres, hpf]
        exact ⟨by simp, recover_nothing (s := s)
          (fun a h1 h2 => hclear a h1 (by unfold sizeofNvar; omega)) hs, rfl⟩
      | succ k =>
        -- the header was programmed, the signature was not
        obtain ⟨body, hbody, hbroken⟩ := hblock.broken
          (if faults = some record.length then q else p) (Or.inl rfl) (by rw [hraw]; exact hs)
          (by rw [hraw]; exact hspace) hkr (hblock.pFail st (List.mem_of_getElem? hst'))
          fun a ha _ => hblock.frame (fun _ hst => List.mem_of_mem_take hst) ha (by simp)
        rw [hraw] at hbody hbroken
        have hflags : pl.flags = ((updatedData cfg attributes rf.payload data ext).raw
            flashEmptyNext).flags := by
          rw [updatePlan_flags hpl]
          change _ = dataFlags (updatedData cfg attributes rf.payload data ext).auth.isSome _
          rw [updatedData_isSome]
          rfl
        refine Or.inr ⟨hau, Or.inr ⟨hprog, Or.inl ⟨by rw [hres], by rw [hres], body, hbody, ?_⟩⟩⟩
        rw [hres, hflags]
        exact hbroken
    · -- the link was not programmed
      refine Or.inr ⟨hau, Or.inr ⟨hprog, Or.inr ⟨hrsize, happ, Or.inl ?_⟩⟩⟩
      obtain rfl : k = record.length := by omega
      have hst' : st = link := by
        rw [hsteps, List.getElem?_append_right le_rfl] at hst
        simpa using hst.symm
      have htake : steps.take record.length = record := by simp [hsteps]
      have hstay := updated_unlinked link.pFail hblock (by rw [hraw]; exact hs) rfl rfl
        (linkStep_pFail hpl) hq hdn2
      rw [hraw] at hstay
      rw [htake, if_pos hk, hst', hstay] at hres
      rw [hres]
      exact ⟨rfl, rfl, rfl⟩

end

end

end BayTrail.Nvram
