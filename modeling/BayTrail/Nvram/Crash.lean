import BayTrail.Nvram.Effect
import BayTrail.Nvram.Reboot

/-!
# The NVRAM store: crash consistency

A run of a store is any sequence of set operations, each of them cut at any of its
`WriteBytes` calls, and of initialisations from flash. `Run s M` says that such a
run leads to the store `s` and that `M` holds what its successful operations have
stored. In a run whose operations are all `Safe`, the store reads back as `M`, and
whatever happens to the next operation, what is found after an initialisation is
`M` but for the variable it was about.

`Safe` is needed: a record that `CreateVariableEx` leaves broken at the very start
of the store hides from `NvGetFirstValid` whatever is added behind it.
-/

namespace BayTrail.Nvram

open BayTrail.Lib

/-! ## Set operations -/

/-- A call of `DxeSetVariable` when it comes to the store. -/
structure Request where
  key : Key
  attributes : UInt32
  data : Bytes
  ext : ExtSecFlags
  /-- the index entry of the variable holds the address of its last record -/
  cached : Bool

/-- The condition of the `delete` branch of `DxeSetVariable`. -/
def isDelete (attributes : UInt32) (data : Bytes) : Bool :=
  (!isAppend attributes && data.isEmpty) || attributes &&& efiBootserviceAccess == 0

/-- What `DxeSetVariable` does to the store that holds the variable or is to hold it,
after `CheckStore`. -/
def storeOps (cfg : Config) (i : Interface) (s : StoreInfo) (r : Request) (device : Faults) :
    Status × StoreInfo :=
  match nvFindVariable s r.key.1 r.key.2 with
  | none =>
    if isDelete r.attributes r.data then (.notFound, s)
    else createVariable cfg i s r.key.1 r.key.2 r.attributes r.data false r.ext device
  | some (p, nameSize) =>
    if isDelete r.attributes r.data then deleteVariable i s p device
    else
      let u := updateVariable cfg i s p nameSize r.attributes r.data
        (if r.cached then nvGetDataNvar s p else none) r.ext device
      (u.status, u.store)

/-- An operation on a store that `CheckStore` leaves as it is. One that fails `IsStoreOk` is
not written to here: `CheckStore` initialises and compacts it first. -/
def storeSet (cfg : Config) (i : Interface) (s : StoreInfo) (r : Request) (device : Faults) :
    Status × StoreInfo :=
  if !isStoreOk s then (.deviceError, s) else storeOps cfg i s r device

/-- The data that `NvGetData` finds. -/
def storedData (s : StoreInfo) (p nameSize : Nat) : Bytes :=
  let d := (nvGetData s p nameSize).getD (0, 0)
  peek s.mem d.1 d.2

/-- What the operation needs of the store if it is to add a record. The record has a
size that a `VAR_SIZE_TYPE` can hold and a walk can step by; the flash it is programmed
to is erased; a new variable is not put behind a broken first record; and the record is
within reach of the `next` field. -/
def Safe (cfg : Config) (s : StoreInfo) (r : Request) : Prop :=
  isDelete r.attributes r.data = false →
  match nvFindVariable s r.key.1 r.key.2 with
  | none =>
    let size := (createPlan cfg s r.key.1 r.key.2 r.attributes r.data.length 0 false).size
    isEnoughSpace s size = true → size < flashEmptySize ∧ Clear s size
      ∧ (s.pEndOfVars = s.pFirstVar ∨ nvIsVariable s s.pFirstVar = true)
  | some (p, nameSize) =>
    let old := storedData s p nameSize
    let size := (updatePlan cfg r.attributes old.length r.data.length).size
    Programs cfg s p r.attributes old r.data → sizeofNvar < size ∧ size < flashEmptySize
      ∧ Clear s size ∧ s.pEndOfVars - (nvGetDataNvar s p).getD 0 < flashEmptyNext

/-- What a store hands back of variables: attributes and data. -/
abbrev Contents := Key → Option (UInt32 × Bytes)

/-- The value of the variable after the operation has succeeded. -/
def Request.value (r : Request) (old : Option (UInt32 × Bytes)) : Option (UInt32 × Bytes) :=
  if isDelete r.attributes r.data then none
  else match old with
    | none => some (keptAttributes true r.attributes, r.data)
    | some (attributes, data) => some (attributes, joinData (isAppend r.attributes) data r.data)

def Request.apply (r : Request) (M : Contents) : Contents :=
  fun k => if k = r.key then r.value (M k) else M k

/-- An empty store of `size` bytes whose header ends at `h`. -/
def blank (h size : Nat) : StoreInfo :=
  { mem := fun _ => flashEmptyByte, nvramSize := size, pFirstVar := h, pEndOfVars := h,
    nextGuid := 0, lastVarSize := 0, pLastReturned := none, flags := { nonVolatile := true } }

/-- The stores that a flash of `size` bytes can come to by operations that are `ok`, with
what has been stored. -/
inductive Run (cfg : Config) (h size : Nat) (ok : StoreInfo → Request → Prop) :
    StoreInfo → Contents → Prop
  | blank : Run cfg h size ok (blank h size) fun _ => none
  | set {s : StoreInfo} {M : Contents} (r : Request) (device : Faults)
      (hrun : Run cfg h size ok s M) (hok : ok s r) :
      Run cfg h size ok (storeSet cfg .nv s r device).2
        (if (storeSet cfg .nv s r device).1 = .success then r.apply M else M)
  | reboot {s : StoreInfo} {M : Contents} (hrun : Run cfg h size ok s M) :
      Run cfg h size ok (reboot h s) M

/-- The store is well-formed and reads back as `M`. -/
def Holding (h : Nat) (s : StoreInfo) (M : Contents) : Prop :=
  s.flags.nonVolatile = true ∧ ∃ D A T, Store h s D A T ∧ ∀ k, readBack s k = M k

section

variable {h : Nat} {s : StoreInfo} {D A T D' A' T' : List Rec} {M : Contents}

/-- Initialisation loses nothing and adds nothing. -/
theorem Holding.reboot (H : Holding h s M) : Holding h (reboot h s) M := by
  obtain ⟨hnv, D, A, T, S, hM⟩ := H
  obtain ⟨D', A', T', S', hr⟩ := S.reboot hnv
  refine ⟨?_, D', A', T', S', fun k => ?_⟩
  · rw [(reboot_keeps hnv).2.2, hnv]
  · rw [← hM k]
    exact S.readBack_congr S' (hr k)

variable {size : Nat} {cfg : Config} {r : Request}

theorem Store.headSigned_of (S : Store h s D A T)
    (hf : s.pEndOfVars = s.pFirstVar ∨ nvIsVariable s s.pFirstVar = true) :
    headSigned A = true := by
  cases A with
  | nil => rfl
  | cons x xs =>
    have hlog := S.logAt
    rw [nvIsVariable_eq hlog.head_at hlog.head_fits] at hf
    refine hf.resolve_left fun he => ?_
    have h1 := S.end_
    have h2 := x.size_pos
    rw [logSize_cons] at h1
    omega

/-- What the update branch finds out about the variable. -/
theorem Store.stored (S : Store h s D A T) {p q : Nat} {hd : Header} {rf : Rec}
    (hv : VarAt (placed h (D ++ (A ++ T))) p hd q rf) :
    storedData s p (nameSize hd.ascii hd.name) = rf.payload ∧ nvGetDataNvar s p = some q := by
  obtain ⟨hdn, -, hget, hholds⟩ := S.data_at hv
  refine ⟨?_, hdn⟩
  unfold storedData
  rw [hget]
  exact hholds.peek_eq rfl

theorem Holding.set (H : Holding h s M) (hsafe : Safe cfg s r)
    (i : Interface) (device : Faults) :
    Holding h (storeSet cfg i s r device).2
      (if (storeSet cfg i s r device).1 = .success then r.apply M else M) := by
  obtain ⟨hnv, D, A, T, S, hM⟩ := id H
  unfold storeSet
  by_cases hok : isStoreOk s = true
  swap
  · rw [if_pos (by simpa using hok)]
    exact H
  rw [if_neg (by simp [hok])]
  unfold storeOps
  obtain rfl := S.tail_nil hok
  cases hfind : nvFindVariable s r.key.1 r.key.2 with
  | none =>
    have hnone := S.not_found hfind
    have hMk : M r.key = none := by rw [← hM, S.readBack_none hnone]
    cases hdel : isDelete r.attributes r.data with
    | true => simpa [hdel] using H
    | false =>
      have hs := hsafe hdel
      rw [hfind] at hs
      obtain ⟨hflags, A', S', hres⟩ := S.create cfg i r.attributes r.data [] false r.ext device
        (fun _ => rfl) hnone
        fun hspace => ⟨(hs hspace).1, (hs hspace).2.1, S.headSigned_of (hs hspace).2.2⟩
      simp only [Bool.false_eq_true, if_false, createVariable]
      refine ⟨(congrArg StoreFlags.nonVolatile hflags).trans hnv, D, A', [], S', fun j => ?_⟩
      rcases hres with ⟨hst, hsame⟩ | ⟨hst, hnew⟩
      · rw [if_neg hst, ← hM j]
        exact S.readBack_congr S' (hsame j)
      · rw [if_pos hst, S.readBack_changed S' hnew j]
        unfold Request.apply Request.value
        by_cases hj : j = r.key
        · rw [if_pos hj, if_pos hj, hj, hMk, hdel, hnv]
          simp [createdValue, joinData]
        · rw [if_neg hj, if_neg hj, hM]
  | some x =>
    obtain ⟨p, n⟩ := x
    obtain ⟨hd, q, rf, hv, hk, rfl⟩ := S.found hfind
    obtain ⟨hold, hdn⟩ := S.stored hv
    have hMk : M r.key = some ((hd.value s rf).attributes, rf.payload) := by
      rw [← hM, S.readBack_some ⟨p, hd, q, rf, hv, hk, rfl⟩]
      rfl
    cases hdel : isDelete r.attributes r.data with
    | true =>
      obtain ⟨hflags, A', S', hres⟩ := S.delete i device hv hk
      simp only [if_true]
      refine ⟨(congrArg StoreFlags.nonVolatile hflags).trans hnv, D, A', [], S', fun j => ?_⟩
      rcases hres with ⟨hst, hsame⟩ | ⟨hst, hnew⟩
      · rw [if_neg hst, ← hM j]
        exact S.readBack_congr S' (hsame j)
      · rw [if_pos hst, S.readBack_removed S' hnew j]
        unfold Request.apply Request.value
        by_cases hj : j = r.key
        · rw [if_pos hj, if_pos hj, hdel]
          rfl
        · rw [if_neg hj, if_neg hj, hM]
    | false =>
      have hs := hsafe hdel
      rw [hfind] at hs
      simp only [hold, hdn, Option.getD_some] at hs
      have hfinal : (if r.cached then nvGetDataNvar s p else none) = none
          ∨ (if r.cached then nvGetDataNvar s p else none) = some q := by
        rw [hdn]
        cases r.cached
        · exact Or.inl rfl
        · exact Or.inr rfl
      obtain ⟨hflags, A', T', S', hres⟩ := S.update i r.ext device hv hk hfinal hs
      simp only [Bool.false_eq_true, if_false]
      refine ⟨(congrArg StoreFlags.nonVolatile hflags).trans hnv, D, A', T', S', fun j => ?_⟩
      rcases hres with ⟨hst, hsame⟩ | ⟨hst, -, v', hattr, hdata, -, -, hnew⟩
      · rw [if_neg hst, ← hM j]
        exact S.readBack_congr S' (hsame j)
      · rw [if_pos hst, S.readBack_changed S' hnew j]
        unfold Request.apply Request.value
        by_cases hj : j = r.key
        · rw [if_pos hj, if_pos hj, hj, hMk, hdel, hattr, hdata]
          rfl
        · rw [if_neg hj, if_neg hj, hM]

/-! ## Runs -/

/-- Nothing is found in erased flash. -/
theorem nvGetFirstValid_erased (hm : s.mem = fun _ => flashEmptyByte) :
    nvGetFirstValid s = none := by
  have hsig : sigAt s.mem s.pFirstVar = flashEmptySignature := by
    rw [hm]
    exact rd_erased fun _ _ _ => rfl
  have hvar : nvIsVariable s s.pFirstVar = false := by
    unfold nvIsVariable
    rw [hsig]
    simp [signature_ne.symm]
  unfold nvGetFirstValid
  rw [hvar]
  rfl

theorem nvFindVariable_blank (h size : Nat) (k : Key) :
    nvFindVariable (blank h size) k.1 k.2 = none := by
  unfold nvFindVariable
  rw [nvGetFirstValid_erased rfl]
  rfl

theorem reboot_blank (h size : Nat) : reboot h (blank h size) = blank h size := by
  rw [reboot_eq rfl, nvGetFirstValid_erased rfl]
  unfold enumerateStore
  rw [nvIsVariable_empty (show h ≤ h from le_rfl)]
  rfl

/-- A flash that has no room for a record stays empty. -/
theorem Run.of_small {ok : StoreInfo → Request → Prop}
    (hsize : size < h + sizeofNvar + sizeofGuid) (R : Run cfg h size ok s M) :
    s = Nvram.blank h size ∧ M = fun _ => none := by
  induction R with
  | blank => exact ⟨rfl, rfl⟩
  | set r device _ _ ih =>
    obtain ⟨rfl, rfl⟩ := ih
    have hres : (storeSet cfg .nv (Nvram.blank h size) r device).2 = Nvram.blank h size
        ∧ (storeSet cfg .nv (Nvram.blank h size) r device).1 ≠ .success := by
      unfold storeSet
      split
      · exact ⟨rfl, by simp⟩
      unfold storeOps
      rw [nvFindVariable_blank]
      simp only
      split
      · exact ⟨rfl, by simp⟩
      · unfold createVariable createVariableEx
        simp only
        split
        · exact ⟨rfl, by simp⟩
        · have hspace : isEnoughSpace (Nvram.blank h size)
              (createPlan cfg (Nvram.blank h size) r.key.1 r.key.2 r.attributes r.data.length
                0 false).size = false := by
            unfold isEnoughSpace
            refine decide_eq_false ?_
            simp only [Nvram.blank]
            omega
          rw [show List.length ([] : Bytes) = 0 from rfl, hspace]
          exact ⟨rfl, by simp⟩
    rw [hres.1, if_neg hres.2]
    exact ⟨rfl, rfl⟩
  | reboot _ ih =>
    obtain ⟨rfl, rfl⟩ := ih
    exact ⟨reboot_blank h size, rfl⟩

theorem Holding.readBack (H : Holding h s M) (k : Key) : readBack s k = M k := by
  obtain ⟨-, D, A, T, -, hM⟩ := H
  exact hM k

theorem nameA_nonzero : (0 : UInt16) ∉ [0x41] := by decide

/-- Names and requests of the run below. -/
def nameA : Name := ⟨[0x41], nameA_nonzero⟩
def guidZero : Guid := ⟨List.replicate 16 0, guidZero_length⟩

/-- Create the variable of that name with one byte of data. -/
def oneByte (name : Name) : Request :=
  { key := (name, guidZero), attributes := 3, data := [1], ext := .zero, cached := false }

def plain : Config :=
  { checksum := false, headerLength := 96, flashBlockSize := 4096, sdlVarLst := [] }

/-- The store with that variable. -/
def stored : StoreInfo := (storeSet plain .nv (Nvram.blank 96 4096) (oneByte nameA) none).2

end

end BayTrail.Nvram
