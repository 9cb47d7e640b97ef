import BayTrail.Cmos.Checksum

/-!
# The defaults of the CMOS manager

`LoadOptimalDefaults` writes the buffer of defaults into the registers. The buffer has a place for
every register of the managed range; the loader takes one place for every register that is
managed.
-/

namespace BayTrail.Cmos

variable {mgr : Mgr} {st : State} {r i optimalDefaultCount : Nat} {l : Location}

/-! ## The loader -/

/-- What the search of `UnmanagedTable` finds of a register. -/
def unmanaged (mgr : Mgr) (address : Nat) : Bool :=
  address = searchTable address mgr.behindUnmanagedTable mgr.unmanagedTable

/-- The registers that are not checksummed are skipped. -/
def recoversOnlyChecksummed (st : State) : Bool :=
  st.status .badChecksum && st.status .recoverOnlyChecksummed

/-- The loop of `LoadOptimalDefaults`, with the registers it stores into and what it stores. No
write is an error: `CmosPhysicalReadWrite` drops those of the banks. -/
def loadRegisters (mgr : Mgr) (optimalDefaultCount : Nat) :
    List Nat → Nat → List Nat → List Nat → State → List (Nat × BitVec 8) × State
  | [], _, _, _, st => ([], st)
  | curRegister :: registers, defaultIndex, unmanagedTable, noChecksumTable, st =>
    if optimalDefaultCount ≤ defaultIndex then ([], st)
    else
      let unmanagedTable := unmanagedTable.dropWhile (· < curRegister)
      if curRegister = unmanagedTable.head?.getD mgr.behindUnmanagedTable then
        -- `--DefaultIndex`, and the loop's step takes it back
        loadRegisters mgr optimalDefaultCount registers defaultIndex unmanagedTable noChecksumTable
          st
      else
        let noChecksumTable := if recoversOnlyChecksummed st then
          noChecksumTable.dropWhile (· < curRegister) else noChecksumTable
        if recoversOnlyChecksummed st ∧
            curRegister = noChecksumTable.head?.getD mgr.behindNoChecksumTable then
          loadRegisters mgr optimalDefaultCount registers (defaultIndex + 1) unmanagedTable
            noChecksumTable st
        else
          let curValue := st.optimalDefaultTable defaultIndex
          let st := cmosWriteRegister mgr (writeChecksum mgr) st curRegister 0xff#8 curValue
          let (stores, st) := loadRegisters mgr optimalDefaultCount registers (defaultIndex + 1)
            unmanagedTable noChecksumTable st
          ((curRegister, curValue) :: stores, st)

/-- What `LoadOptimalDefaults` does before its loop. -/
def beginLoading (mgr : Mgr) (st : State) : State :=
  let st := cmosManagerSetClearStatus mgr (· = .optimalDefaultsEnabled) false st
  let st := cmosManagerSetClearStatus mgr (· = .forceNoChecksum) true st
  if st.status .firstBootDetected then cmosManagerSetClearStatus mgr (· = .badChecksum) false st
  else st

/-- What `LoadOptimalDefaults` does behind its loop. -/
def endLoading (mgr : Mgr) (savedStatus : Bool) (st : State) : Status × State :=
  let (status, st) :=
    if st.status .errorLoadingDefaults then (Status.unsupported, st)
    else
      let (st, newChecksum) := calculateChecksum mgr st
      let st := writeChecksum mgr st newChecksum
      (Status.success, cmosManagerSetClearStatus mgr (· = .badChecksum) false st)
  let st := { st with
    status := fun f => st.status f || decide (f = .optimalDefaultsEnabled) && savedStatus }
  let st := cmosManagerSetClearStatus mgr (· = .forceNoChecksum) false st
  (status, cmosManagerSetClearStatus mgr (· = .defaultsLoaded) true st)

/-- `LoadOptimalDefaults`, with the registers that it stores into. -/
def loadOptimalDefaults (mgr : Mgr) (optimalDefaultCount : Nat) (st : State) :
    Status × List (Nat × BitVec 8) × State :=
  let savedStatus := st.status .optimalDefaultsEnabled
  let (stores, st) := loadRegisters mgr optimalDefaultCount mgr.managedRegisters 1
    mgr.unmanagedTable mgr.noChecksumTable (beginLoading mgr st)
  let (status, st) := endLoading mgr savedStatus st
  (status, stores, st)

/-- The registers that are stored into. -/
def stores (mgr : Mgr) (optimalDefaultCount : Nat) (st : State) : List (Nat × BitVec 8) :=
  (loadOptimalDefaults mgr optimalDefaultCount st).2.1

/-! ## What a write leaves -/

/-- The place is none that a write to the register ends at, whichever way it goes. -/
structure Beside (mgr : Mgr) (l : Location) (register : Nat) : Prop where
  cell : ∀ cell, cmosBank .writeType register mgr.cmosBank = some cell → l ≠ .register cell
  buffer : bufferRefuses mgr register = false → l ≠ .default (bufferIndex mgr register)

theorem Beside.location (h : Beside mgr l r) : location mgr st .writeType r ≠ some l := by
  intro heq
  unfold Cmos.location at heq
  split at heq
  · split at heq
    · cases heq
    · rename_i hrefuses
      exact h.buffer (Bool.eq_false_iff.mpr hrefuses) (Option.some.inj heq).symm
  · obtain ⟨cell, hcell, hl⟩ := Option.map_eq_some_iff.mp heq
    exact h.cell cell hcell hl.symm

/-- The register that a token is a part of, or that it is the number of. -/
def tokenRegister (cmosToken : Nat) : Nat :=
  if cmosToken < minTokenValue then cmosToken else cmosAddress cmosToken

section Frame

variable {writeSum : State → BitVec 16 → State} {token : Nat}
variable {store : State → BitVec 8 → State}

theorem writeRegister_get (hsum : ∀ st c, (writeSum st c).get l = st.get l)
    (hstore : ∀ st v, (store st v).get l = st.get l) (old bits parameter : BitVec 8) :
    (writeRegister mgr writeSum store old st r bits parameter).get l = st.get l := by
  have hupdated : ∀ new, (calculateUpdatedCheckSum mgr st r old new).1.get l = st.get l := by
    intro new
    unfold calculateUpdatedCheckSum
    split
    · exact get_clear l
    · exact get_set l
  unfold writeRegister
  dsimp only
  by_cases hforce : st.status .forceNoChecksum = true
  · rw [hforce, Bool.not_true, if_neg Bool.false_ne_true]
    split
    · rw [get_clear, hsum, get_set, hstore]
    · exact hstore st _
  · rw [Bool.not_eq_true] at hforce
    rw [hforce, Bool.not_false, if_pos rfl]
    split
    · rw [get_clear, hsum, get_set, hstore, hupdated]
    · rw [hstore, hupdated]

theorem writeRegister_stores
    (hsum : ∀ st c, (writeSum st c).get l = st.get l) (hstore : ∀ st v, (store st v).get l = v)
    (old bits parameter : BitVec 8) :
    (writeRegister mgr writeSum store old st r bits parameter).get l
      = old &&& ~~~ bits ||| parameter := by
  unfold writeRegister
  dsimp only
  split <;> split
  · rw [get_clear, hsum, get_set, hstore]
  · rw [hstore]
  · rw [get_clear, hsum, get_set, hstore]
  · rw [hstore]

theorem cmosWriteRegister_get (hsum : ∀ st c, (writeSum st c).get l = st.get l)
    (h : Beside mgr l r) (bits parameter : BitVec 8) :
    (cmosWriteRegister mgr writeSum st r bits parameter).get l = st.get l := by
  obtain ⟨-, heq⟩ | ⟨old, -, heq⟩ := cmosWriteRegister_cases mgr st r writeSum bits parameter
  · rw [heq]
  · rw [heq]
    apply writeRegister_get hsum
    intro st' v
    cases hl : location mgr st .writeType r with
    | none => rfl
    | some l' =>
      show (st'.store v l').get l = _
      rw [get_store, if_neg]
      rintro rfl
      exact h.location hl

theorem poke_get {cell : Nat} (hcell : cmosBank .writeType r mgr.cmosBank = some cell)
    (h : Beside mgr l r) (v : BitVec 8) :
    ({ st with cells := poke st.cells cell v } : State).get l = st.get l := by
  show (st.store v (.register cell)).get l = _
  rw [get_store, if_neg (h.cell cell hcell)]

theorem cmosWriteWith_get (hsum : ∀ st c, (writeSum st c).get l = st.get l)
    (h : Beside mgr l (tokenRegister token)) (value : BitVec 8) :
    (cmosWriteWith mgr writeSum st token value).2.get l = st.get l := by
  unfold tokenRegister at h
  by_cases hmin : token < minTokenValue
  · rw [if_pos hmin] at h
    unfold cmosWriteWith
    rw [if_pos hmin]
    cases hcell : cmosBank .writeType token mgr.cmosBank with
    | none =>
      dsimp only
      split_ifs <;> rfl
    | some cell =>
      dsimp only
      split_ifs
      · exact poke_get hcell h value
      · rfl
      · rfl
      · exact poke_get hcell h value
  · rw [if_neg hmin] at h
    have hle : minTokenValue ≤ token := Nat.not_lt.mp hmin
    by_cases hmem : token ∈ mgr.tokenTable
    · rw [cmosWriteWith_token hle hmem]
      unfold cmosWriteEncodedToken
      split
      · rfl
      · exact cmosWriteRegister_get hsum h _ _
    · have hnumber : ¬ token ≤ 0xe := by
        unfold minTokenValue at hle
        omega
      unfold cmosWriteWith
      rw [if_neg hnumber, if_neg hmin, find_no_token hmem]

end Frame

/-- The registers that the manager writes for itself. -/
def Mgr.ownRegisters (mgr : Mgr) : List Nat :=
  cmosDiagnosticStatusRegister :: tokenRegister mgr.cmosChecksumLow ::
    tokenRegister mgr.cmosChecksumHigh :: mgr.statusTokens.map fun entry => tokenRegister entry.2

/-- The place is none of those. -/
def Aside (mgr : Mgr) (l : Location) : Prop := ∀ register ∈ mgr.ownRegisters, Beside mgr l register

section Own

variable (h : Aside mgr l)

include h

theorem Aside.low : Beside mgr l (tokenRegister mgr.cmosChecksumLow) :=
  h _ (List.mem_cons_of_mem _ List.mem_cons_self)

theorem Aside.high : Beside mgr l (tokenRegister mgr.cmosChecksumHigh) :=
  h _ (List.mem_cons_of_mem _ (List.mem_cons_of_mem _ List.mem_cons_self))

theorem Aside.token {entry : Flag × Nat} (hentry : entry ∈ mgr.statusTokens) :
    Beside mgr l (tokenRegister entry.2) :=
  h _ (List.mem_cons_of_mem _ (List.mem_cons_of_mem _ (List.mem_cons_of_mem _
    (List.mem_map.mpr ⟨entry, hentry, rfl⟩))))

end Own

theorem writeChecksum_get (hlow : Beside mgr l (tokenRegister mgr.cmosChecksumLow))
    (hhigh : Beside mgr l (tokenRegister mgr.cmosChecksumHigh)) (st : State) (c : BitVec 16) :
    (writeChecksum mgr st c).get l = st.get l := by
  unfold writeChecksum
  dsimp only
  rw [get_clear, cmosWriteWith_get (fun _ _ => rfl) hhigh, cmosWriteWith_get (fun _ _ => rfl) hlow,
    get_set]

theorem bankWrite_get (h : Beside mgr l r) (v : BitVec 8) :
    (bankWrite mgr st r v).get l = st.get l := by
  unfold bankWrite
  cases hcell : cmosBank .writeType r mgr.cmosBank with
  | none => rfl
  | some cell => exact poke_get hcell h v

theorem synchronize_get (h : Aside mgr l) (bitMap : Flag → Bool) (set : Bool) :
    (synchronizeLegacyStatusRegisters mgr bitMap set st).get l = st.get l := by
  have hbit : ∀ bit st, (synchronizeBit mgr bit set st).get l = st.get l :=
    fun bit st => bankWrite_get (h _ List.mem_cons_self) _
  unfold synchronizeLegacyStatusRegisters
  dsimp only
  split <;> split
  · rw [hbit, hbit]
  · rw [hbit]
  · rw [hbit]
  · rfl

theorem status_get (st : State) (status : Flag → Bool) :
    ({ st with status := status } : State).get l = st.get l := by
  cases l <;> rfl

theorem setClearStatus_get (h : Aside mgr l) (bitMap : Flag → Bool) (set : Bool) :
    (cmosManagerSetClearStatus mgr bitMap set st).get l = st.get l := by
  have hfold : ∀ (entries : List (Flag × Nat)) (st' : State), (∀ e ∈ entries, e ∈ mgr.statusTokens) →
      (entries.foldl (fun st entry => if bitMap entry.1 then (cmosWrite mgr st entry.2 1).2 else st)
        st').get l = st'.get l := by
    intro entries
    induction entries with
    | nil => exact fun _ _ => rfl
    | cons entry entries ih =>
      intro st' hmem
      rw [List.foldl_cons, ih _ fun e he => hmem e (List.mem_cons_of_mem _ he)]
      split
      · exact cmosWriteWith_get (writeChecksum_get h.low h.high)
          (h.token (hmem entry List.mem_cons_self)) 1
      · rfl
  unfold cmosManagerSetClearStatus
  dsimp only
  have hbits : ∀ st', st'.get l = st.get l →
      (if bitMap .badChecksum || bitMap .badBattery then
        synchronizeLegacyStatusRegisters mgr bitMap set st' else st').get l = st.get l := by
    intro st' hst'
    split
    · rw [synchronize_get h, hst']
    · exact hst'
  apply hbits
  split
  · split
    · rw [hfold _ _ fun _ he => he, status_get]
    · exact status_get ..
  · exact status_get ..

/-- The end of `LoadOptimalDefaults` writes the manager's own registers. -/
theorem endLoading_get (h : Aside mgr l) (savedStatus : Bool) :
    (endLoading mgr savedStatus st).2.get l = st.get l := by
  unfold endLoading
  dsimp only
  rw [setClearStatus_get h, setClearStatus_get h, status_get]
  split
  · rfl
  · show (cmosManagerSetClearStatus mgr _ _ (writeChecksum mgr (calculateChecksum mgr st).1 _)).get l
      = _
    rw [setClearStatus_get h, writeChecksum_get h.low h.high]
    exact setClearStatus_get h _ _

/-! ## What is loaded -/

/-- What holds in the loop: the registers themselves are written, and the checksum is not. -/
structure Loading (st : State) : Prop where
  physical : st.status .optimalDefaultsEnabled = false
  forced : st.status .forceNoChecksum = true

theorem clear_status (bitMap : Flag → Bool) :
    (cmosManagerSetClearStatus mgr bitMap false st).status = fun f => st.status f && !bitMap f := by
  unfold cmosManagerSetClearStatus
  dsimp only
  split
  · exact synchronize_status bitMap false
  · rfl

theorem set_forceNoChecksum :
    cmosManagerSetClearStatus mgr (· = .forceNoChecksum) true st =
      { st with status := fun f => st.status f || f = .forceNoChecksum } := by
  unfold cmosManagerSetClearStatus Mgr.statusTokens
  simp

theorem loading_begin : Loading (beginLoading mgr st) := by
  unfold beginLoading
  dsimp only
  split
  · constructor <;> rw [clear_status, set_forceNoChecksum, clear_status] <;> simp
  · constructor <;> rw [set_forceNoChecksum, clear_status] <;> simp

theorem bankWrite_table (v : BitVec 8) :
    (bankWrite mgr st r v).optimalDefaultTable = st.optimalDefaultTable := by
  unfold bankWrite
  split <;> rfl

theorem synchronize_table (bitMap : Flag → Bool) (set : Bool) :
    (synchronizeLegacyStatusRegisters mgr bitMap set st).optimalDefaultTable
      = st.optimalDefaultTable := by
  unfold synchronizeLegacyStatusRegisters
  dsimp only
  split <;> split <;> simp [synchronizeBit, bankWrite_table]

theorem clear_table (bitMap : Flag → Bool) :
    (cmosManagerSetClearStatus mgr bitMap false st).optimalDefaultTable = st.optimalDefaultTable := by
  unfold cmosManagerSetClearStatus
  dsimp only
  split
  · exact synchronize_table bitMap false
  · rfl

theorem begin_table : (beginLoading mgr st).optimalDefaultTable = st.optimalDefaultTable := by
  unfold beginLoading
  dsimp only
  split
  · rw [clear_table, set_forceNoChecksum]
    exact clear_table _
  · rw [set_forceNoChecksum]
    exact clear_table _

theorem byte_taken (v old : BitVec 8) : old &&& ~~~ 0xff#8 ||| v = v := by
  have : ~~~ 0xff#8 = 0#8 := by decide
  rw [this, BitVec.and_zero, BitVec.zero_or]

/-- A register takes the whole value. -/
theorem write_loading (h : Loading st) (v : BitVec 8) :
    cmosWriteRegister mgr (writeChecksum mgr) st r 0xff#8 v = bankWrite mgr st r v := by
  have hbuffer : useBufferAccess mgr st r = false := by
    unfold useBufferAccess
    rw [h.physical, Bool.false_and]
  unfold cmosWriteRegister
  rw [hbuffer, if_neg Bool.false_ne_true]
  unfold cmosPhysicalWrite
  rw [writeRegister_forced (fun _ _ => bankWrite_status) h.forced, byte_taken]

/-- The registers that the loop stores into, each with the place of its default. -/
def plan (mgr : Mgr) (optimalDefaultCount : Nat) (recovers : Bool) : List Nat → Nat → List (Nat × Nat)
  | [], _ => []
  | register :: registers, defaultIndex =>
    if optimalDefaultCount ≤ defaultIndex then []
    else if unmanaged mgr register then plan mgr optimalDefaultCount recovers registers defaultIndex
    else if recovers && notChecksummed mgr register then
      plan mgr optimalDefaultCount recovers registers (defaultIndex + 1)
    else
      (register, defaultIndex) :: plan mgr optimalDefaultCount recovers registers (defaultIndex + 1)

/-- The stores of a plan, one after the other. -/
def carryOut (mgr : Mgr) (defaults : Nat → BitVec 8) (entries : List (Nat × Nat)) (st : State) : State :=
  entries.foldl (fun st entry => bankWrite mgr st entry.1 (defaults entry.2)) st

theorem Loading.bankWrite (h : Loading st) (v : BitVec 8) : Loading (bankWrite mgr st r v) :=
  ⟨by rw [bankWrite_status, h.physical], by rw [bankWrite_status, h.forced]⟩

/-- The loop carries out the plan: the searches go on where they stopped, as those of
`CalculateChecksum` do. -/
theorem loadRegisters_eq {registers : List Nat} (hsorted : registers.Pairwise (· < ·)) :
    ∀ {i : Nat} {unmanagedTable noChecksumTable : List Nat} {st : State}, Loading st →
    (∀ r ∈ registers, unmanagedTable.dropWhile (· < r) = mgr.unmanagedTable.dropWhile (· < r)) →
    (∀ r ∈ registers, noChecksumTable.dropWhile (· < r) = mgr.noChecksumTable.dropWhile (· < r)) →
    loadRegisters mgr optimalDefaultCount registers i unmanagedTable noChecksumTable st =
      ((plan mgr optimalDefaultCount (recoversOnlyChecksummed st) registers i).map
          fun entry => (entry.1, st.optimalDefaultTable entry.2),
        carryOut mgr st.optimalDefaultTable
          (plan mgr optimalDefaultCount (recoversOnlyChecksummed st) registers i) st) := by
  induction registers with
  | nil => exact fun _ _ _ => rfl
  | cons r registers ih =>
    intro i unmanagedTable noChecksumTable st hst hunmanaged hnoChecksum
    obtain ⟨hlt, hsorted⟩ := List.pairwise_cons.mp hsorted
    have hun := hunmanaged r List.mem_cons_self
    have hno := hnoChecksum r List.mem_cons_self
    have hunmanaged' : ∀ r' ∈ registers, (unmanagedTable.dropWhile (· < r)).dropWhile (· < r')
        = mgr.unmanagedTable.dropWhile (· < r') := by
      intro r' hr'
      rw [hun, dropWhile_lt (Nat.le_of_lt (hlt r' hr'))]
    have hrest : ∀ r' ∈ registers, noChecksumTable.dropWhile (· < r')
        = mgr.noChecksumTable.dropWhile (· < r') := fun r' hr' =>
      hnoChecksum r' (List.mem_cons_of_mem _ hr')
    have hnoChecksum' : ∀ r' ∈ registers, (noChecksumTable.dropWhile (· < r)).dropWhile (· < r')
        = mgr.noChecksumTable.dropWhile (· < r') := by
      intro r' hr'
      rw [hno, dropWhile_lt (Nat.le_of_lt (hlt r' hr'))]
    have hsearch : (unmanagedTable.dropWhile (· < r)).head?.getD mgr.behindUnmanagedTable
        = searchTable r mgr.behindUnmanagedTable mgr.unmanagedTable := by
      rw [hun, head_dropWhile]
    have hsearch' : (noChecksumTable.dropWhile (· < r)).head?.getD mgr.behindNoChecksumTable
        = searchTable r mgr.behindNoChecksumTable mgr.noChecksumTable := by
      rw [hno, head_dropWhile]
    unfold loadRegisters plan
    by_cases hcount : optimalDefaultCount ≤ i
    · rw [if_pos hcount, if_pos hcount]
      rfl
    rw [if_neg hcount, if_neg hcount]
    dsimp only
    rw [hsearch]
    by_cases hu : unmanaged mgr r = true
    · rw [if_pos (of_decide_eq_true hu), if_pos hu]
      exact ih hsorted hst hunmanaged' hrest
    rw [if_neg (fun heq => hu (decide_eq_true heq)), if_neg hu]
    have hwritten : Loading (Cmos.bankWrite mgr st r (st.optimalDefaultTable i)) := hst.bankWrite _
    have hkeeps : recoversOnlyChecksummed (Cmos.bankWrite mgr st r (st.optimalDefaultTable i))
        = recoversOnlyChecksummed st := by
      unfold recoversOnlyChecksummed
      rw [bankWrite_status]
    rw [write_loading hst]
    cases hrecovers : recoversOnlyChecksummed st with
    | false =>
      -- `NoChecksumTable` is not looked at
      rw [if_neg (fun h => Bool.false_ne_true h.1), Bool.false_and, if_neg Bool.false_ne_true,
        if_neg Bool.false_ne_true, ih hsorted hwritten hunmanaged' hrest, bankWrite_table, hkeeps,
        hrecovers]
      rfl
    | true =>
      rw [if_pos rfl, hsearch', Bool.true_and]
      by_cases hn : notChecksummed mgr r = true
      · rw [if_pos ⟨rfl, of_decide_eq_true hn⟩, if_pos hn, ih hsorted hst hunmanaged' hnoChecksum',
          hrecovers]
      · rw [if_neg (fun h => hn (decide_eq_true h.2)), if_neg hn,
          ih hsorted hwritten hunmanaged' hnoChecksum', bankWrite_table, hkeeps, hrecovers]
        rfl

/-- The place that the loader has come to at a register: it takes none for those that are not
managed. -/
def defaultIndex (mgr : Mgr) (register : Nat) : Nat :=
  1 + (List.range' mgr.firstManagedRegister (register - mgr.firstManagedRegister)).countP
    fun r => !unmanaged mgr r

/-- The managed registers for which the table is long enough. -/
structure Loaded (mgr : Mgr) (optimalDefaultCount r : Nat) : Prop where
  inRange : r ∈ mgr.managedRegisters
  managed : unmanaged mgr r = false
  default : defaultIndex mgr r < optimalDefaultCount

section Plan

variable {recovers : Bool} {registers front back : List Nat} {d : Nat}

theorem split_of_mem_plan :
    ∀ {i : Nat}, (r, d) ∈ plan mgr optimalDefaultCount recovers registers i →
    ∃ front back, registers = front ++ r :: back ∧
      d = i + front.countP (fun r => !unmanaged mgr r) ∧ unmanaged mgr r = false ∧
      d < optimalDefaultCount ∧ (recovers && notChecksummed mgr r) = false := by
  induction registers with
  | nil => exact fun h => absurd h List.not_mem_nil
  | cons q registers ih =>
    intro i h
    unfold plan at h
    -- behind the head the place is counted on from it
    have hlater : ∀ {j}, (r, d) ∈ plan mgr optimalDefaultCount recovers registers j →
        j = i + [q].countP (fun r => !unmanaged mgr r) →
        ∃ front back, q :: registers = front ++ r :: back ∧
          d = i + front.countP (fun r => !unmanaged mgr r) ∧ unmanaged mgr r = false ∧
          d < optimalDefaultCount ∧ (recovers && notChecksummed mgr r) = false := by
      intro j hmem hj
      obtain ⟨front, back, hsplit, hd, hrest⟩ := ih hmem
      refine ⟨q :: front, back, by rw [hsplit]; rfl, ?_, hrest⟩
      rw [← List.singleton_append, List.countP_append, hd, hj, Nat.add_assoc]
    split_ifs at h with hcount hu hskip
    · exact absurd h List.not_mem_nil
    · exact hlater h (by simp [hu])
    · exact hlater h (by simp [hu])
    · obtain heq | hmem := List.mem_cons.mp h
      · obtain ⟨rfl, rfl⟩ := Prod.mk.inj heq
        exact ⟨[], registers, rfl, rfl, Bool.eq_false_iff.mpr hu, Nat.not_le.mp hcount,
          Bool.eq_false_iff.mpr hskip⟩
      · exact hlater hmem (by simp [hu])

theorem mem_plan_of_split (hmanaged : unmanaged mgr r = false)
    (hskip : (recovers && notChecksummed mgr r) = false) :
    ∀ {i : Nat}, i + front.countP (fun r => !unmanaged mgr r) < optimalDefaultCount →
    (r, i + front.countP fun r => !unmanaged mgr r) ∈
      plan mgr optimalDefaultCount recovers (front ++ r :: back) i := by
  induction front with
  | nil =>
    intro i hcount
    have hcount : ¬ optimalDefaultCount ≤ i := Nat.not_le.mpr hcount
    rw [List.nil_append, plan, if_neg hcount, hmanaged,
      if_neg Bool.false_ne_true, hskip, if_neg Bool.false_ne_true]
    exact List.mem_cons_self
  | cons q front ih =>
    intro i hcount
    have hcons : (q :: front).countP (fun r => !unmanaged mgr r)
        = front.countP (fun r => !unmanaged mgr r) + if unmanaged mgr q then 0 else 1 := by
      cases hq : unmanaged mgr q <;> simp [hq]
    rw [hcons] at hcount ⊢
    have hle : ¬ optimalDefaultCount ≤ i := by omega
    rw [List.cons_append, plan, if_neg hle]
    by_cases hq : unmanaged mgr q = true
    · rw [if_pos hq] at hcount ⊢
      rw [if_pos hq]
      exact ih hcount
    · rw [if_neg hq] at hcount ⊢
      rw [if_neg hq]
      have hadd : i + (front.countP (fun r => !unmanaged mgr r) + 1)
          = i + 1 + front.countP fun r => !unmanaged mgr r := by omega
      rw [hadd] at hcount ⊢
      split
      · exact ih hcount
      · exact List.mem_cons_of_mem _ (ih hcount)

theorem front_of_managed (h : mgr.managedRegisters = front ++ r :: back) :
    front = List.range' mgr.firstManagedRegister (r - mgr.firstManagedRegister) := by
  unfold Mgr.managedRegisters at h
  obtain ⟨k, -, hfront, hback⟩ := List.range'_eq_append_iff.mp h
  obtain ⟨hr, -, -⟩ := List.range'_eq_cons_iff.mp hback.symm
  rw [hfront, ← hr, Nat.add_sub_cancel_left, Nat.mul_one]

theorem mem_plan : (r, d) ∈ plan mgr optimalDefaultCount recovers mgr.managedRegisters 1 ↔
    Loaded mgr optimalDefaultCount r ∧ (recovers && notChecksummed mgr r) = false ∧
      d = defaultIndex mgr r := by
  constructor
  · intro h
    obtain ⟨front, back, hsplit, hd, hmanaged, hcount, hskip⟩ := split_of_mem_plan h
    have hd : d = defaultIndex mgr r := by
      unfold defaultIndex
      rw [hd, front_of_managed hsplit]
    refine ⟨⟨?_, hmanaged, hd ▸ hcount⟩, hskip, hd⟩
    rw [hsplit]
    exact List.mem_append_right _ List.mem_cons_self
  · rintro ⟨hloaded, hskip, rfl⟩
    obtain ⟨front, back, hsplit⟩ := List.append_of_mem hloaded.inRange
    have hcount := hloaded.default
    unfold defaultIndex at hcount ⊢
    rw [← front_of_managed hsplit] at hcount ⊢
    rw [hsplit]
    exact mem_plan_of_split hloaded.managed hskip hcount

end Plan

variable {cell : Nat} {x : BitVec 8}

/-- Everything that is stored into a cell is one value, and something is, or it was there. -/
theorem carryOut_cell {defaults : Nat → BitVec 8} :
    ∀ {entries : List (Nat × Nat)} {st : State},
    (∀ entry ∈ entries, cmosBank .writeType entry.1 mgr.cmosBank = some cell →
      defaults entry.2 = x) →
    (st.cells cell = x ∨ ∃ entry ∈ entries, cmosBank .writeType entry.1 mgr.cmosBank = some cell) →
    (carryOut mgr defaults entries st).cells cell = x := by
  intro entries
  induction entries with
  | nil =>
    rintro st - (h | ⟨entry, hentry, -⟩)
    · exact h
    · exact absurd hentry List.not_mem_nil
  | cons entry entries ih =>
    intro st hvalue hreached
    have hrest : ∀ e ∈ entries, cmosBank .writeType e.1 mgr.cmosBank = some cell →
        defaults e.2 = x := fun e he => hvalue e (List.mem_cons_of_mem _ he)
    show (carryOut mgr defaults entries
      (bankWrite mgr st entry.1 (defaults entry.2))).cells cell = x
    apply ih hrest
    unfold bankWrite
    cases hcell : cmosBank .writeType entry.1 mgr.cmosBank with
    | none =>
      dsimp only
      obtain h | ⟨e, he, hecell⟩ := hreached
      · exact Or.inl h
      · obtain rfl | he := List.mem_cons.mp he
        · rw [hcell] at hecell
          cases hecell
        · exact Or.inr ⟨e, he, hecell⟩
    | some cell' =>
      by_cases heq : cell' = cell
      · subst heq
        refine Or.inl ?_
        show poke st.cells cell' _ cell' = x
        rw [poke, if_pos rfl, hvalue entry List.mem_cons_self hcell]
      · obtain h | ⟨e, he, hecell⟩ := hreached
        · refine Or.inl ?_
          show poke st.cells cell' _ cell = x
          rw [poke, if_neg (Ne.symm heq), h]
        · obtain rfl | he := List.mem_cons.mp he
          · rw [hcell] at hecell
            exact absurd (Option.some.inj hecell) heq
          · exact Or.inr ⟨e, he, hecell⟩

/-! ## Places and registers -/

theorem loadLoop_eq : loadRegisters mgr optimalDefaultCount mgr.managedRegisters 1
      mgr.unmanagedTable mgr.noChecksumTable (beginLoading mgr st) =
    ((plan mgr optimalDefaultCount (recoversOnlyChecksummed (beginLoading mgr st))
        mgr.managedRegisters 1).map fun entry => (entry.1, st.optimalDefaultTable entry.2),
      carryOut mgr st.optimalDefaultTable
        (plan mgr optimalDefaultCount (recoversOnlyChecksummed (beginLoading mgr st))
          mgr.managedRegisters 1) (beginLoading mgr st)) := by
  have hsorted : mgr.managedRegisters.Pairwise (· < ·) := List.pairwise_lt_range'
  rw [loadRegisters_eq hsorted loading_begin (fun _ _ => rfl) (fun _ _ => rfl), begin_table]

theorem stores_eq : stores mgr optimalDefaultCount st =
    (plan mgr optimalDefaultCount (recoversOnlyChecksummed (beginLoading mgr st))
      mgr.managedRegisters 1).map fun entry => (entry.1, st.optimalDefaultTable entry.2) := by
  unfold stores loadOptimalDefaults
  dsimp only
  rw [loadLoop_eq]

theorem mem_stores : (r, x) ∈ stores mgr optimalDefaultCount st ↔
    Loaded mgr optimalDefaultCount r ∧
      (recoversOnlyChecksummed (beginLoading mgr st) && notChecksummed mgr r) = false ∧
      x = st.optimalDefaultTable (defaultIndex mgr r) := by
  rw [stores_eq, List.mem_map]
  constructor
  · rintro ⟨⟨r', d⟩, hmem, heq⟩
    obtain ⟨rfl, rfl⟩ := Prod.mk.inj heq
    obtain ⟨hloaded, hskip, hd⟩ := mem_plan.mp hmem
    exact ⟨hloaded, hskip, congrArg _ hd⟩
  · rintro ⟨hloaded, hskip, rfl⟩
    exact ⟨(r, defaultIndex mgr r), mem_plan.mpr ⟨hloaded, hskip, rfl⟩, rfl⟩

/-- Below no register that is loaded is one that is not managed, and the buffer knows the
register. -/
def Aligned (mgr : Mgr) (optimalDefaultCount : Nat) : Prop :=
  ∀ r, Loaded mgr optimalDefaultCount r → bufferRefuses mgr r = false ∧
    ∀ u, mgr.firstManagedRegister ≤ u → u < r → unmanaged mgr u = false

theorem defaultIndex_eq (hrange : r ∈ mgr.managedRegisters) (hrefuses : bufferRefuses mgr r = false) :
    defaultIndex mgr r = bufferIndex mgr r ↔
      ∀ u, mgr.firstManagedRegister ≤ u → u < r → unmanaged mgr u = false := by
  have hfirst : mgr.firstManagedRegister = mgr.firstCmosRegister := by
    have hlast : mgr.lastManagedRegister < 256 := Nat.mod_lt _ (by decide)
    obtain ⟨hle, hlt⟩ := List.mem_range'_1.mp hrange
    have hnot : ¬ r < mgr.firstCmosRegister := by
      intro h
      rw [bufferRefuses, decide_eq_true h] at hrefuses
      cases hrefuses
    unfold Mgr.firstManagedRegister at hlt ⊢
    omega
  unfold defaultIndex bufferIndex
  rw [Nat.add_comm, Nat.add_right_cancel_iff, ← hfirst]
  have hlength := List.countP_eq_length (l :=
      List.range' mgr.firstManagedRegister (r - mgr.firstManagedRegister))
    (p := fun r => !unmanaged mgr r)
  rw [List.length_range'] at hlength
  rw [hlength]
  constructor
  · intro h u hle hlt
    have := h u (List.mem_range'_1.mpr ⟨hle, by omega⟩)
    simpa using this
  · intro h u hu
    obtain ⟨hle, hlt⟩ := List.mem_range'_1.mp hu
    rw [h u hle (by omega)]
    rfl

/-- The default of a register is written into the buffer: the checksum goes to other places. -/
theorem buffer_written (hbuffer : useBufferAccess mgr st r = true)
    (hrefuses : bufferRefuses mgr r = false) (hlow : r ≠ tokenRegister mgr.cmosChecksumLow)
    (hhigh : r ≠ tokenRegister mgr.cmosChecksumHigh) (value : BitVec 8) :
    (cmosWriteRegister mgr (writeChecksum mgr) st r 0xff#8 value).optimalDefaultTable
      (bufferIndex mgr r) = value := by
  have hbeside : ∀ q, r ≠ q → Beside mgr (.default (bufferIndex mgr r)) q := by
    intro q hne
    refine ⟨fun _ _ => nofun, fun hq heq => ?_⟩
    have hr : ¬ r < mgr.firstCmosRegister := by
      intro h
      rw [bufferRefuses, decide_eq_true h] at hrefuses
      cases hrefuses
    have hq : ¬ q < mgr.firstCmosRegister := by
      intro h
      rw [bufferRefuses, decide_eq_true h] at hq
      cases hq
    have := Location.default.inj heq
    unfold bufferIndex at this
    omega
  unfold cmosWriteRegister cmosBufferWrite
  rw [if_pos hbuffer, hrefuses, if_neg Bool.false_ne_true]
  dsimp only
  refine (writeRegister_stores (l := .default (bufferIndex mgr r))
    (writeChecksum_get (hbeside _ hlow) (hbeside _ hhigh)) (fun st v => ?_) _ _ _).trans (byte_taken value _)
  show poke _ _ v _ = v
  rw [poke, if_pos rfl]

/-- The buffer and the loader agree: what is stored into a register was written for it, and every
register that has a default gets one. -/
structure Loads (mgr : Mgr) (optimalDefaultCount : Nat) : Prop where
  /-- a value that is written in buffer mode is the value that is stored -/
  written : ∀ st r value x, useBufferAccess mgr st r = true →
    r ≠ tokenRegister mgr.cmosChecksumLow → r ≠ tokenRegister mgr.cmosChecksumHigh →
    (r, x) ∈ stores mgr optimalDefaultCount
      (cmosWriteRegister mgr (writeChecksum mgr) st r 0xff#8 value) → x = value
  /-- no register gets the default of another -/
  own : ∀ st r x, (r, x) ∈ stores mgr optimalDefaultCount st →
    bufferRefuses mgr r = false ∧ x = st.optimalDefaultTable (bufferIndex mgr r)
  stored : ∀ st r, Loaded mgr optimalDefaultCount r →
    (recoversOnlyChecksummed (beginLoading mgr st) && notChecksummed mgr r) = false →
    ∃ x, (r, x) ∈ stores mgr optimalDefaultCount st
  /-- what is stored is in the register in the end, if its cell is no other's -/
  kept : ∀ st r x cell, (r, x) ∈ stores mgr optimalDefaultCount st →
    cmosBank .writeType r mgr.cmosBank = some cell →
    (∀ q ∈ mgr.managedRegisters, cmosBank .writeType q mgr.cmosBank = some cell → q = r) →
    Aside mgr (.register cell) →
    (loadOptimalDefaults mgr optimalDefaultCount st).2.2.cells cell = x

theorem kept_of_store (h : (r, x) ∈ stores mgr optimalDefaultCount st)
    (hcell : cmosBank .writeType r mgr.cmosBank = some cell)
    (hown : ∀ q ∈ mgr.managedRegisters, cmosBank .writeType q mgr.cmosBank = some cell → q = r)
    (haside : Aside mgr (.register cell)) :
    (loadOptimalDefaults mgr optimalDefaultCount st).2.2.cells cell = x := by
  obtain ⟨hloaded, hskip, hx⟩ := mem_stores.mp h
  have hend : (loadOptimalDefaults mgr optimalDefaultCount st).2.2.get (.register cell) =
      (carryOut mgr st.optimalDefaultTable
        (plan mgr optimalDefaultCount (recoversOnlyChecksummed (beginLoading mgr st))
          mgr.managedRegisters 1) (beginLoading mgr st)).get (.register cell) := by
    unfold loadOptimalDefaults
    dsimp only
    rw [endLoading_get haside, loadLoop_eq]
  refine Eq.trans hend (carryOut_cell ?_ (Or.inr ⟨(r, defaultIndex mgr r), ?_, hcell⟩))
  · rintro ⟨q, d⟩ hmem hq
    obtain ⟨hq', -, rfl⟩ := mem_plan.mp hmem
    obtain rfl := hown q hq'.inRange hq
    exact hx.symm
  · exact mem_plan.mpr ⟨hloaded, hskip, rfl⟩

/-- A buffer that has a value in the place of a register alone. -/
def singleDefault (mgr : Mgr) (register : Nat) : State where
  status := fun _ => false
  cells := fun _ => 0
  optimalDefaultTable := fun i => if i = defaultIndex mgr register then 1 else 0

theorem single_stored (h : Loaded mgr optimalDefaultCount r) :
    (r, 1) ∈ stores mgr optimalDefaultCount (singleDefault mgr r) := by
  have hrecovers : recoversOnlyChecksummed (beginLoading mgr (singleDefault mgr r)) = false := by
    have hfirst : (beginLoading mgr (singleDefault mgr r)).status .badChecksum = false := by
      unfold beginLoading
      dsimp only
      split
      · rw [clear_status, set_forceNoChecksum, clear_status]
        rfl
      · rw [set_forceNoChecksum, clear_status]
        rfl
    rw [recoversOnlyChecksummed, hfirst, Bool.false_and]
  refine mem_stores.mpr ⟨h, ?_, ?_⟩
  · rw [hrecovers, Bool.false_and]
  · exact (if_pos rfl).symm

/-- The loader agrees with the buffer exactly if what is not managed lies above what is loaded. -/
theorem loadOptimalDefaults_agrees (mgr : Mgr) (optimalDefaultCount : Nat) :
    Loads mgr optimalDefaultCount ↔ Aligned mgr optimalDefaultCount := by
  constructor
  · intro h r hloaded
    obtain ⟨hrefuses, hvalue⟩ := h.own _ r 1 (single_stored hloaded)
    refine ⟨hrefuses, (defaultIndex_eq hloaded.inRange hrefuses).mp ?_⟩
    -- the only place with a value is the loader's
    by_contra hne
    have hzero : (singleDefault mgr r).optimalDefaultTable (bufferIndex mgr r) = 0 :=
      if_neg (Ne.symm hne)
    rw [hzero] at hvalue
    cases hvalue
  · intro h
    have hown : ∀ st r x, (r, x) ∈ stores mgr optimalDefaultCount st →
        bufferRefuses mgr r = false ∧ x = st.optimalDefaultTable (bufferIndex mgr r) := by
      intro st r x hmem
      obtain ⟨hloaded, -, hx⟩ := mem_stores.mp hmem
      obtain ⟨hrefuses, hbelow⟩ := h r hloaded
      refine ⟨hrefuses, ?_⟩
      rw [hx, (defaultIndex_eq hloaded.inRange hrefuses).mpr hbelow]
    constructor
    · intro st r value x hbuffer hlow hhigh hmem
      obtain ⟨hrefuses, hx⟩ := hown _ r x hmem
      rw [hx, buffer_written hbuffer hrefuses hlow hhigh]
    · exact hown
    · exact fun st r hloaded hskip => ⟨_, mem_stores.mpr ⟨hloaded, hskip, rfl⟩⟩
    · exact fun st r x cell => kept_of_store

/-- Register 0x46 is the third that has a default, and the seventh in the buffer. -/
theorem not_loadOptimalDefaults_agrees : ¬ ∀ mgr optimalDefaultCount,
    mgr.unmanagedTable.Pairwise (· ≤ ·) → Loads mgr optimalDefaultCount := by
  intro h
  let st : State := ⟨(· = .optimalDefaultsEnabled), fun _ => 0, fun _ => 0⟩
  have hmem : (0x46, 0) ∈ stores sampleMgr 4
      (cmosWriteRegister sampleMgr (writeChecksum sampleMgr) st 0x46 0xff#8 0x5a) := by
    decide +kernel
  have hvalue := (h sampleMgr 4 (by decide)).written st 0x46 0x5a 0 (by decide) (by decide)
    (by decide) hmem
  exact absurd hvalue (by decide)

end BayTrail.Cmos
