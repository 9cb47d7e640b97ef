import BayTrail.Nvram.Crash

/-!
# The NVRAM store: a store nobody damaged passes `IsStoreOk`

`IsStoreOk` looks at the last record, at the erased bytes behind it and at the next
free slot of the GUID table. `Worked s` says that successful operations alone have
led from an empty store to `s`, and `Tidy` is what they keep: every record is
signed, `LastVarSize` is the size of the last one, and all the flash between
`pEndOfVars` and the GUIDs in use is erased.

`IsEnoughSpace` counts the GUID slots with the `NextGuid` of before the operation. A
new variable that brings a new GUID may therefore end inside the slot that is the
next one afterwards, and `IsStoreOk` takes the record's own bytes for a GUID there.
`LeavesRoom` excludes this, and the records that no walk can step over.
-/

namespace BayTrail.Nvram

open BayTrail.Lib

/-- The stores that a flash of `size` bytes comes to by successful operations that
are `ok`. -/
inductive Worked (cfg : Config) (h size : Nat) (ok : StoreInfo → Request → Prop) :
    StoreInfo → Prop
  | blank : Worked cfg h size ok (blank h size)
  | set {s : StoreInfo} (r : Request) (device : Faults) (hrun : Worked cfg h size ok s)
      (hok : ok s r) (hst : (storeSet cfg .nv s r device).1 = .success) :
      Worked cfg h size ok (storeSet cfg .nv s r device).2

/-- What the operation needs of the store for `IsStoreOk` to accept what it leaves. The
record has a size that a `VAR_SIZE_TYPE` can hold and a walk can step by, it is within
reach of the `next` field, and one whose GUID is new ends below the slot that is free
next. -/
def LeavesRoom (cfg : Config) (s : StoreInfo) (r : Request) : Prop :=
  isDelete r.attributes r.data = false →
  match nvFindVariable s r.key.1 r.key.2 with
  | none =>
    let pl := createPlan cfg s r.key.1 r.key.2 r.attributes r.data.length 0 false
    isEnoughSpace s pl.size = true → pl.size < flashEmptySize
      ∧ (pl.fullGuid = false → pl.guid = s.nextGuid →
        s.pEndOfVars + pl.size + sizeofGuid * (s.nextGuid + 2) ≤ s.nvramSize)
  | some (p, nameSize) =>
    let old := storedData s p nameSize
    let size := (updatePlan cfg r.attributes old.length r.data.length).size
    Programs cfg s p r.attributes old r.data → sizeofNvar < size ∧ size < flashEmptySize
      ∧ s.pEndOfVars - (nvGetDataNvar s p).getD 0 < flashEmptyNext

/-- The invariant of such a store, with `A` for its log. -/
structure Tidy (h : Nat) (s : StoreInfo) (A : List Rec) : Prop where
  store : Store h s [] A []
  signed : ∀ r ∈ A, r.signed = true
  last : s.lastVarSize = 0 ∨ ∃ A0 r, A = A0 ++ [r] ∧ s.lastVarSize = r.size
  free : ∀ a, s.pEndOfVars ≤ a → a + sizeofGuid * s.nextGuid < s.nvramSize →
    s.mem a = flashEmptyByte
  spare : s.pEndOfVars + sizeofGuid * (s.nextGuid + 1) ≤ s.nvramSize

section

variable {cfg : Config} {h : Nat} {s s' : StoreInfo} {A : List Rec} {r : Rec}
variable {size q p : Nat} {A1 A2 : List Rec} {x x' rf : Rec} {i : Interface} {attributes : UInt32}
  {data : Bytes} {ext : ExtSecFlags} {device : Faults} {hd : Header}

theorem tidy_blank (hs : h + sizeofNvar + sizeofGuid ≤ size) :
    Tidy h (blank h size) [] where
  store := store_empty rfl rfl rfl hs fun _ _ _ => rfl
  signed := by simp
  last := Or.inl rfl
  free := fun _ _ _ => rfl
  spare := by
    simp only [blank]
    unfold sizeofGuid sizeofNvar at *
    omega

/-- `IsStoreOk` accepts a tidy store. -/
theorem Tidy.isStoreOk (t : Tidy h s A) : isStoreOk s = true := by
  have hspare := t.spare
  have hlast : (s.lastVarSize == 0 || nvIsVariable s (s.pEndOfVars - s.lastVarSize)) = true := by
    rcases t.last with h0 | ⟨A0, r, rfl, hl⟩
    · simp [h0]
    · have hmem : (s.pFirstVar + logSize A0, r) ∈ placed s.pFirstVar (A0 ++ [r]) := by
        rw [placed_snoc]
        simp
      have hend := t.store.end_
      rw [logSize_snoc] at hend
      have hat : s.pEndOfVars - s.lastVarSize = s.pFirstVar + logSize A0 := by omega
      have hlog := t.store.logAt
      rw [hat, nvIsVariable_eq (hlog.mem_at hmem) (hlog.fits _ hmem), t.signed r (by simp)]
      simp
  have hsig : rd s.mem 4 s.pEndOfVars = flashEmptySignature :=
    rd_erased fun a h1 h2 => t.free a h1 (by unfold sizeofGuid at *; omega)
  have hsize : sizeAt s.mem s.pEndOfVars = flashEmptySize :=
    rd_erased fun a h1 h2 => t.free a (by omega) (by unfold sizeofGuid sizeOffset at *; omega)
  have hslot : rd s.mem 4 (s.guidSlot s.nextGuid) = flashEmptySignature := by
    refine rd_erased fun a h1 h2 => t.free a ?_ ?_
    · unfold StoreInfo.guidSlot sizeofGuid at *
      omega
    · unfold StoreInfo.guidSlot sizeofGuid at *
      omega
  unfold Nvram.isStoreOk
  rw [hlast, hsig, hsize, hslot]
  rfl

/-- The flash that a record is about to be programmed to is erased. -/
theorem Tidy.clear (t : Tidy h s A) (hspace : isEnoughSpace s size = true) :
    Clear s size := by
  have hroom : s.pEndOfVars + size + sizeofGuid * (s.nextGuid + 1) + sizeofNvar ≤ s.nvramSize :=
    of_decide_eq_true hspace
  intro a h1 h2
  refine t.free a h1 ?_
  unfold sizeofGuid at *
  omega

theorem Tidy.headSigned (t : Tidy h s A) : headSigned A = true := by
  cases A with
  | nil => rfl
  | cons x xs => exact t.signed x (List.mem_cons_self ..)

/-- A record is added, with room for a GUID above it. -/
theorem Tidy.append (t : Tidy h s A) (H : Appended s s' r) (S' : Store h s' [] (A ++ [r]) [])
    (hsig : r.signed = true) (hl : s'.lastVarSize = r.size)
    (hroom : s'.nextGuid = s.nextGuid
      ∨ s.pEndOfVars + r.size + sizeofGuid * (s'.nextGuid + 1) ≤ s.nvramSize) :
    Tidy h s' (A ++ [r]) := by
  have hend := H.end_
  have hsize := H.size
  have hold := H.room
  refine ⟨S', ?_, Or.inr ⟨A, r, rfl, hl⟩, ?_, ?_⟩
  · intro x hx
    rcases List.mem_append.mp hx with hx | hx
    · exact t.signed x hx
    · rw [List.mem_singleton.mp hx]
      exact hsig
  · intro a h1 h2
    rw [H.frame a (Or.inr (by omega)) ?_]
    · refine t.free a (by omega) ?_
      rcases H.guid with hg | ⟨hg, -⟩ <;> rw [hg, hsize] at h2 <;> unfold sizeofGuid at * <;> omega
    · rcases H.guid with hg | ⟨hg, -⟩
      · exact Or.inr (Or.inr hg)
      · -- the new GUID lies above
        refine Or.inl ?_
        rw [hg, hsize] at h2
        unfold StoreInfo.guidSlot sizeofGuid at *
        omega
  · rw [hend, hsize]
    rcases hroom with hg | hg
    · rw [hg]
      omega
    · exact hg

/-! ## One operation -/

/-- The last record of a list with one record replaced. -/
theorem last_replaced {A0 : List Rec} (hsize : x'.size = x.size)
    (he : A1 ++ x :: A2 = A0 ++ [r]) : ∃ B0 r', A1 ++ x' :: A2 = B0 ++ [r'] ∧ r'.size = r.size := by
  rcases List.eq_nil_or_concat A2 with rfl | ⟨B, y, rfl⟩
  · obtain ⟨-, hx⟩ := List.append_inj' he rfl
    rw [← (List.cons.inj hx).1]
    exact ⟨A1, x', rfl, hsize⟩
  · rw [List.concat_eq_append] at he ⊢
    have he' : (A1 ++ x :: B) ++ [y] = A0 ++ [r] := by simpa using he
    obtain ⟨-, hy⟩ := List.append_inj' he' rfl
    rw [← (List.cons.inj hy).1]
    exact ⟨A1 ++ x' :: B, y, by simp, rfl⟩

/-- A record is rewritten in place. -/
theorem Tidy.rewrite {m' : Mem}
    (t : Tidy h s (A1 ++ x :: A2)) (W : Rewritten h s m' [] A1 A2 q x x')
    (S' : Store h { s with mem := m' } [] (A1 ++ x' :: A2) []) :
    Tidy h { s with mem := m' } (A1 ++ x' :: A2) := by
  refine ⟨S', ?_, ?_, ?_, t.spare⟩
  · intro y hy
    simp only [List.mem_append, List.mem_cons] at hy
    rcases hy with hy | rfl | hy
    · exact t.signed y (by simp [hy])
    · rw [W.signed]
      exact t.signed x (by simp)
    · exact t.signed y (by simp [hy])
  · rcases t.last with h0 | ⟨A0, r, he, hl⟩
    · exact Or.inl h0
    · obtain ⟨B0, r', he', hsz⟩ := last_replaced W.size he
      exact Or.inr ⟨B0, r', he', by rw [hsz]; exact hl⟩
  · intro a h1 h2
    have hend := t.store.end_
    have haddr := W.addr
    rw [logSize_append, logSize_cons] at hend
    rw [show ({ s with mem := m' } : StoreInfo).mem a = s.mem a from
      W.frame a (Or.inr (by simp only at h1; omega))]
    exact t.free a h1 h2

/-- What `CreateVariableEx` leaves in `LastVarSize` and `NextGuid` on success. -/
theorem createVariableEx_success {name : Name} {guid : Guid} {appendData : Bytes} {oldVarGuid : Bool} {pl : CreatePlan}
    (hpl : pl = createPlan cfg s name guid attributes data.length appendData.length oldVarGuid)
    (hst : (createVariableEx cfg i s name guid attributes data oldVarGuid ext appendData
      device).1 = .success) :
    let s' := (createVariableEx cfg i s name guid attributes data oldVarGuid ext appendData device).2
    isEnoughSpace s pl.size = true ∧ s'.lastVarSize = pl.size % 65536
      ∧ (s'.nextGuid = s.nextGuid
        ∨ s'.nextGuid = s.nextGuid + 1 ∧ pl.fullGuid = false ∧ pl.guid = s.nextGuid) := by
  unfold createVariableEx at hst ⊢
  simp only [← hpl] at hst ⊢
  by_cases hbig : 2 ^ 64 ≤ pl.size
  · rw [if_pos hbig] at hst
    exact absurd hst (by simp)
  rw [if_neg hbig] at hst ⊢
  by_cases hspace : isEnoughSpace s pl.size = true
  swap
  · rw [if_pos (by simpa using hspace)] at hst
    exact absurd hst (by simp)
  rw [if_neg (by simp [hspace])] at hst ⊢
  generalize brokenAt _ _ = b at hst ⊢
  cases b with
  | some p => exact absurd hst (by simp)
  | none =>
    refine ⟨hspace, rfl, ?_⟩
    simp only [createNextGuid]
    split
    next hc =>
      simp only [Bool.and_eq_true, Bool.not_eq_true', decide_eq_true_eq] at hc
      exact Or.inr ⟨rfl, hc.1.1, hc.1.2⟩
    next => exact Or.inl rfl

/-- A variable has been created. -/
theorem Tidy.create (t : Tidy h s A) {r : Request}
    (hfind : nvFindVariable s r.key.1 r.key.2 = none)
    (hroom : let pl := createPlan cfg s r.key.1 r.key.2 r.attributes r.data.length 0 false
      isEnoughSpace s pl.size = true → pl.size < flashEmptySize
        ∧ (pl.fullGuid = false → pl.guid = s.nextGuid →
          s.pEndOfVars + pl.size + sizeofGuid * (s.nextGuid + 2) ≤ s.nvramSize))
    (hst : (createVariable cfg i s r.key.1 r.key.2 r.attributes r.data false r.ext device).1
      = .success) :
    ∃ A', Tidy h (createVariable cfg i s r.key.1 r.key.2 r.attributes r.data false r.ext device).2
      A' := by
  unfold createVariable at hst ⊢
  set pl := createPlan cfg s r.key.1 r.key.2 r.attributes r.data.length
    ([] : Bytes).length false with hpl
  obtain ⟨hspace, hl, hguid⟩ := createVariableEx_success hpl hst
  obtain ⟨hlt, hslot⟩ := hroom hspace
  have happ : isAppend r.attributes = false → ([] : Bytes) = [] := fun _ => rfl
  rcases createVariableEx_cases i r.ext device happ t.store.guid256 hpl
    (fun _ => ⟨hlt, t.clear hspace⟩) with ⟨hne, -⟩ | ⟨hne, -⟩ | ⟨-, H, hres, hidx⟩
  · exact absurd hst hne
  · rw [hst] at hne
    exact absurd hne (by simp)
  · obtain ⟨S', -⟩ := t.store.created hpl happ rfl H hres hidx (t.store.not_found hfind) hlt
      (t.clear hspace) t.headSigned
    have hsz := createdHeader_size hpl happ r.ext
    refine ⟨_, t.append H S' rfl ?_ ?_⟩
    · rw [hl, hsz]
      exact Nat.mod_eq_of_lt (lt_trans hlt (by decide))
    · rw [hsz]
      rcases hguid with hg | ⟨hg, hfull, hnew⟩
      · exact Or.inl hg
      · refine Or.inr ?_
        rw [hg]
        exact hslot hfull hnew

/-- A variable has been deleted. -/
theorem Tidy.delete (t : Tidy h s A) (hv : VarAt (placed h ([] ++ (A ++ []))) p hd q rf) :
    ∃ A', Tidy h (deleteVariable i s p device).2 A' := by
  rcases deleteVariable_cases i s p device with he | he
  · rw [he]
    exact ⟨A, t⟩
  · obtain ⟨hval, n, hm, -⟩ := hv
    obtain ⟨A1, A2, rfl, hp⟩ := walked_split (t.store.mem_walked hm hval)
    have W := rewritten_killed t.store hp hval
    rw [he]
    exact ⟨_, t.rewrite W (t.store.kill W)⟩

/-- A variable has been updated or appended to. -/
theorem Tidy.update (t : Tidy h s A) {final : Option Nat}
    (hv : VarAt (placed h ([] ++ (A ++ []))) p hd q rf) (hfinal : final = none ∨ final = some q)
    (hroom : let size := (updatePlan cfg attributes rf.payload.length data.length).size
      Programs cfg s p attributes rf.payload data → sizeofNvar < size ∧ size < flashEmptySize
        ∧ s.pEndOfVars - q < flashEmptyNext)
    (hst : (updateVariable cfg i s p (nameSize hd.ascii hd.name) attributes data final ext
      device).status = .success) :
    ∃ A', Tidy h (updateVariable cfg i s p (nameSize hd.ascii hd.name) attributes data final ext
      device).store A' := by
  set pl := updatePlan cfg attributes rf.payload.length data.length with hpl
  rcases updateVariable_cases i ext device t.store hv hfinal hpl
    (fun hprog => ⟨(hroom hprog).2.1, t.clear (hpl ▸ hprog.2.2)⟩) with
    ⟨hne, -, -⟩ | ⟨hau, ⟨-, hsame, -, -⟩ | ⟨hprog, hrest⟩⟩
  · exact absurd hst hne
  · rw [hsame]
    exact ⟨A, t⟩
  obtain ⟨hgt, hlt, hdist⟩ := hroom hprog
  rcases hrest with ⟨hne, -⟩ | ⟨hrsize, H, ⟨hne, -⟩ | ⟨-, -, hstore⟩⟩
  · rw [hst] at hne
    exact absurd hne (by simp)
  · rw [hst] at hne
    exact absurd hne (by simp)
  -- the new record, and then the link to it
  have hclear : Clear s (Rec.data (updatedData cfg attributes rf.payload data ext)
      flashEmptyNext).size := by
    rw [hrsize]
    exact t.clear hprog.2.2
  have hgt' := hrsize.symm ▸ hgt
  have hlt' := hrsize.symm ▸ hlt
  obtain ⟨S1, -⟩ := t.store.append_dead H hclear hgt' hlt' rfl (by simp)
  have t1 : Tidy h (updated cfg s attributes rf.payload data ext pl)
      (A ++ [.data (updatedData cfg attributes rf.payload data ext) flashEmptyNext]) := by
    refine t.append H S1 rfl ?_ (Or.inl rfl)
    rw [hrsize]
    exact Nat.mod_eq_of_lt (lt_trans hlt (by decide))
  obtain ⟨A1, A2, rfl, R⟩ := t.store.relinked H hclear hgt' hlt' hv
    (by rw [updatedData_isSome, hau]) hdist
  rw [hstore]
  rw [List.append_assoc, List.cons_append] at t1
  exact ⟨_, t1.rewrite R.rewritten R.store_new⟩

theorem Tidy.set (t : Tidy h s A) {r : Request} (hroom : LeavesRoom cfg s r)
    (hst : (storeSet cfg .nv s r device).1 = .success) :
    ∃ A', Tidy h (storeSet cfg .nv s r device).2 A' := by
  unfold storeSet at hst ⊢
  rw [if_neg (by simp [t.isStoreOk])] at hst ⊢
  unfold storeOps at hst ⊢
  cases hfind : nvFindVariable s r.key.1 r.key.2 with
  | none =>
    simp only [hfind] at hst ⊢
    cases hdel : isDelete r.attributes r.data with
    | true =>
      rw [hdel, if_pos rfl] at hst
      exact absurd hst (by simp)
    | false =>
      have hs := hroom hdel
      rw [hfind] at hs
      rw [hdel, if_neg (by simp)] at hst
      exact t.create hfind hs hst
  | some x =>
    obtain ⟨p, n⟩ := x
    obtain ⟨hd, q, rf, hv, -, rfl⟩ := t.store.found hfind
    obtain ⟨hold, hdn⟩ := t.store.stored hv
    simp only [hfind] at hst ⊢
    cases hdel : isDelete r.attributes r.data with
    | true =>
      rw [if_pos rfl]
      exact t.delete hv
    | false =>
      have hs := hroom hdel
      rw [hfind] at hs
      simp only [hold, hdn, Option.getD_some] at hs
      rw [hdel, if_neg (by simp)] at hst
      have hfinal : (if r.cached then nvGetDataNvar s p else none) = none
          ∨ (if r.cached then nvGetDataNvar s p else none) = some q := by
        rw [hdn]
        cases r.cached
        · exact Or.inl rfl
        · exact Or.inr rfl
      exact t.update hv hfinal hs hst

/-! ## Runs -/

theorem isStoreOk_blank (h size : Nat) : isStoreOk (blank h size) = true := by
  have herased : ∀ w p, rd (blank h size).mem w p = rd (fun _ => flashEmptyByte) w p :=
    fun _ _ => rfl
  unfold isStoreOk sizeAt
  rw [herased, herased, herased, rd_erased fun _ _ _ => rfl, rd_erased fun _ _ _ => rfl,
    rd_erased fun _ _ _ => rfl]
  rfl

theorem Worked.run {ok : StoreInfo → Request → Prop} (W : Worked cfg h size ok s) :
    ∃ M, Run cfg h size ok s M := by
  induction W with
  | blank => exact ⟨_, Run.blank⟩
  | set r device _ hok _ ih =>
    obtain ⟨M, R⟩ := ih
    exact ⟨_, R.set r device hok⟩

theorem Worked.tidy (hsize : h + sizeofNvar + sizeofGuid ≤ size)
    (W : Worked cfg h size (LeavesRoom cfg) s) : ∃ A, Tidy h s A := by
  induction W with
  | blank => exact ⟨[], tidy_blank hsize⟩
  | set r device _ hok hst ih =>
    obtain ⟨A, t⟩ := ih
    exact t.set hok hst

/-- Successful operations that leave room for it leave a store that `IsStoreOk` accepts,
however full it is. -/
theorem isStoreOk_of_worked {size : Nat} (W : Worked cfg h size (LeavesRoom cfg) s) :
    isStoreOk s = true := by
  by_cases hsize : h + sizeofNvar + sizeofGuid ≤ size
  · obtain ⟨A, t⟩ := W.tidy hsize
    exact t.isStoreOk
  · obtain ⟨M, R⟩ := W.run
    rw [(R.of_small (by omega)).1]
    exact isStoreOk_blank h size

/-- One byte in an empty store of 4096 bytes leaves room. -/
theorem leavesRoom_blank : LeavesRoom plain (Nvram.blank 96 4096) (oneByte nameA) := by
  intro _
  rw [nvFindVariable_blank]
  exact fun _ => ⟨by decide, fun _ _ => by decide⟩

theorem isStoreOk_of_worked_blank :
    isStoreOk (storeSet plain .nv (Nvram.blank 96 4096) (oneByte nameA) none).2 = true :=
  isStoreOk_of_worked (Worked.set (oneByte nameA) none Worked.blank leavesRoom_blank
    (by decide +kernel))

/-! ## A record in the next GUID slot -/

/-- Create the variable with 377 bytes of data, so that the record fills an empty store of
512 bytes to the last byte that `IsEnoughSpace` grants. -/
def filling : Request :=
  { key := (nameA, guidZero), attributes := 3, data := List.replicate 377 0, ext := .zero,
    cached := false }

theorem filling_facts : (storeSet plain .nv (blank 96 512) filling none).1 = .success
    ∧ isStoreOk (storeSet plain .nv (blank 96 512) filling none).2 = false := by
  decide +kernel

/-- The record stands in what is the next free GUID slot once the GUID of the variable has
been stored. -/
theorem not_isStoreOk_of_worked : ¬ ∀ (cfg : Config) (h size : Nat) (s : StoreInfo),
    Worked cfg h size (fun _ _ => True) s → isStoreOk s = true := by
  intro H
  obtain ⟨hst, hbad⟩ := filling_facts
  have hok := H plain 96 512 _ (Worked.blank.set filling none trivial hst)
  rw [hbad] at hok
  exact absurd hok (by simp)

end

end BayTrail.Nvram
