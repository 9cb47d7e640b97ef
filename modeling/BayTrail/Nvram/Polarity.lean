import BayTrail.Nvram.Collect
import BayTrail.Nvram.Crash

/-!
# The NVRAM store: record checksums on either kind of flash

The mutators are modelled for flash that erases to ones, which is what the board has. The
record checksum is looked at here for both values of `FLASH_ERASE_POLARITY`. What the two
have in common is the block of `WriteBytes` calls that adds a record; `NvGetData` and
`NvGetDataNvar`, which read the old data and find the record to link, go by the polarity
too, so that what they find is an argument.
-/

namespace BayTrail.Nvram

open BayTrail.Lib

/-! ## Adding a record -/

/-- `FLASH_EMPTY_BYTE`. -/
def emptyByteOf (polarity : Bool) : UInt8 := if polarity then 0xFF else 0

/-- The record header as programmed first. -/
def nvarHeaderOf (polarity : Bool) (size : Nat) (flags : UInt8) : Bytes :=
  List.replicate 4 (emptyByteOf polarity) ++ leBytes 2 size
    ++ List.replicate 3 (emptyByteOf polarity) ++ [flags]

/-- The extended header, the checksum and the signature. -/
def extStepsOf (polarity : Bool) (cfg : Config) (e p1 size extSize : Nat) (extFlags : UInt8)
    (auth : Bool) (authBytes : List Bytes) (m : Mem) : List Step :=
  let head := extHeadSteps cfg e p1 size extSize extFlags auth authBytes
  let pEnd :=
    if cfg.checksum then p1 + extSize else if auth then e + size - 2 else p1
  head
    ++ (if cfg.checksum then
          [⟨p1 + extSize - 3,
            [nvCalculateNvarChecksum (applySteps m head) e + emptyByteOf polarity], p1 + extSize⟩]
        else [])
    ++ [⟨e, leBytes 4 nvarSignature, pEnd⟩]

def createStepsOf (polarity : Bool) (cfg : Config) (s : StoreInfo) (name : Name) (guid : Guid)
    (attributes : UInt32) (data : Bytes) (ext : ExtSecFlags) (appendData : Bytes) (pl : CreatePlan) :
    List Step :=
  let e := s.pEndOfVars
  let p1 := e + 10 + (if pl.fullGuid then 16 else 1) + nameBytesLength name
    + (if isAppend attributes then appendData.length else 0) + data.length
  let head := ⟨e, nvarHeaderOf polarity pl.size pl.flags, e + 10⟩ ::
    (createSlotSteps s guid pl ++ createBodySteps s name guid attributes data appendData pl)
  head ++ extStepsOf polarity cfg e p1 pl.size pl.extSize pl.extFlags (isAuth attributes)
    [leBytes 8 ext.mc.toNat, ext.keyHash] (applySteps s.mem head)

/-- `CreateVariableEx` where it succeeds: there is space, and no call fails. -/
def createVariableExOf (polarity : Bool) (cfg : Config) (s : StoreInfo) (name : Name) (guid : Guid)
    (attributes : UInt32) (data : Bytes) (oldVarGuid : Bool) (ext : ExtSecFlags) (appendData : Bytes) :
    Option StoreInfo :=
  let pl := createPlan cfg s name guid attributes data.length appendData.length oldVarGuid
  if 2 ^ 64 ≤ pl.size ∨ isEnoughSpace s pl.size = false then none
  else some { s with
    mem := applySteps s.mem (createStepsOf polarity cfg s name guid attributes data ext appendData pl)
    nextGuid := createNextGuid s pl none
    pEndOfVars := s.pEndOfVars + pl.size
    lastVarSize := pl.size % 65536 }

def updateStepsOf (polarity : Bool) (cfg : Config) (s : StoreInfo) (attributes : UInt32)
    (oldData data : Bytes) (ext : ExtSecFlags) (pl : UpdatePlan) : List Step :=
  let e := s.pEndOfVars
  let p1 := e + 10 + (if isAppend attributes then oldData.length else 0) + data.length
  let body := ⟨e, nvarHeaderOf polarity pl.size pl.flags, e + 10⟩ ::
    dataSteps (e + 10) (isAppend attributes) oldData data
  body ++ extStepsOf polarity cfg e p1 pl.size pl.extSize pl.extFlags (isAuth attributes)
    [leBytes 8 ext.mc.toNat] (applySteps s.mem body)

/-- `UpdateVariable` where it succeeds and has something to write: `oldData` is the data that
`NvGetData` gives, and `last` the record that is linked to the new one. -/
def updateVariableOf (polarity : Bool) (cfg : Config) (s : StoreInfo) (attributes : UInt32)
    (oldData data : Bytes) (ext : ExtSecFlags) (last : Nat) : Option StoreInfo :=
  let pl := updatePlan cfg attributes oldData.length data.length
  if isEnoughSpace s pl.size = false then none
  else some { s with
    mem := applySteps s.mem (updateStepsOf polarity cfg s attributes oldData data ext pl
      ++ [linkStep cfg s attributes oldData data pl last])
    pEndOfVars := s.pEndOfVars + pl.size
    lastVarSize := pl.size % 65536 }

/-- The calls that add a record of `size` bytes. `CopyVariable` is a `CreateVariable` of what
it has read. -/
inductive Adds (polarity : Bool) (cfg : Config) (s : StoreInfo) : Nat → StoreInfo → Prop
  | create {name guid attributes data oldVarGuid ext appendData s'}
      (append : isAppend attributes = false → appendData = [])
      (success : createVariableExOf polarity cfg s name guid attributes data oldVarGuid ext appendData
        = some s') :
      Adds polarity cfg s
        (createPlan cfg s name guid attributes data.length appendData.length oldVarGuid).size s'
  | update {attributes oldData data ext last s'} (linked : last + sizeofNvar ≤ s.pEndOfVars)
      (success : updateVariableOf polarity cfg s attributes oldData data ext last = some s') :
      Adds polarity cfg s (updatePlan cfg attributes oldData.length data.length).size s'

/-- The models of the writers add a record where they succeed, on flash that erases to ones.
An update may have nothing to write; the record that it links is one in front of the end. -/
structure WritersAdd (cfg : Config) : Prop where
  create : ∀ {i s name guid attributes data oldVarGuid ext appendData device s'},
    (isAppend attributes = false → appendData = []) →
    createVariableEx cfg i s name guid attributes data oldVarGuid ext appendData device
      = (.success, s') →
    Adds true cfg s
      (createPlan cfg s name guid attributes data.length appendData.length oldVarGuid).size s'
  copy : ∀ {i bufferSize src dst dst' key device},
    copyVariable cfg i bufferSize src dst key device = (.success, dst') →
    ∃ size, Adds true cfg dst size dst'
  update : ∀ {i s oldVar nameSize attributes data final ext device s' final'},
    (∀ m, (final.orElse fun _ => nvGetDataNvar { s with mem := m } oldVar).getD 0 + sizeofNvar
      ≤ s.pEndOfVars) →
    updateVariable cfg i s oldVar nameSize attributes data final ext device = ⟨.success, s', final'⟩ →
    s' = s ∨ ∃ size, Adds true cfg s size s'

/-- What the record at `p` gets written later: the link to a newer record, and the inverse of
its validity bit. -/
inductive Bookkeeping where
  | link (next : Nat)
  | invalidate

def Bookkeeping.apply (p : Nat) (m : Mem) : Bookkeeping → Mem
  | .link next => poke m (p + nextOffset) (leBytes 3 next)
  | .invalidate => poke m (p + flagOffset) [flagsAt m p ^^^ flagValid]

/-- The record at `p` has a checksum, and it is right as long as the record is valid, whatever
is done to its link and its validity. -/
def Verifies (m : Mem) (p : Nat) : Prop :=
  ∀ updates : List Bookkeeping, let m' := updates.foldl (Bookkeeping.apply p) m
    hasFlag m' p flagExtHeder = true ∧ m' (nvGetExtFlags m' p) &&& extFlagChecksum ≠ 0
      ∧ (hasFlag m' p flagValid = true → nvCalculateNvarChecksum m' p = 0)

/-! ## Flash that erases to ones -/

section

variable {cfg : Config} {s : StoreInfo} {name : Name} {guid : Guid} {attributes : UInt32}
  {data oldData appendData : Bytes} {ext : ExtSecFlags} {oldVarGuid : Bool}

theorem createStepsOf_true (pl : CreatePlan) :
    createStepsOf true cfg s name guid attributes data ext appendData pl
      = createSteps cfg s name guid attributes data ext appendData pl := by
  rw [createSteps_eq]
  rfl

theorem updateStepsOf_true (pl : UpdatePlan) :
    updateStepsOf true cfg s attributes oldData data ext pl
      = updateSteps cfg s attributes oldData data ext pl := rfl

theorem createVariableEx_adds {i : Interface} {device : Faults} {s' : StoreInfo}
    (happ : isAppend attributes = false → appendData = [])
    (h : createVariableEx cfg i s name guid attributes data oldVarGuid ext appendData device
      = (.success, s')) :
    Adds true cfg s
      (createPlan cfg s name guid attributes data.length appendData.length oldVarGuid).size s' := by
  suffices hok : createVariableExOf true cfg s name guid attributes data oldVarGuid ext appendData = some s'
    from Adds.create happ hok
  unfold createVariableEx at h
  unfold createVariableExOf
  generalize createPlan cfg s name guid attributes data.length appendData.length oldVarGuid = pl at h ⊢
  simp only at h ⊢
  split at h
  · exact absurd (congrArg Prod.fst h) (by simp)
  rename_i hbig
  split at h
  · exact absurd (congrArg Prod.fst h) (by simp)
  rename_i hspace
  rw [if_neg (by simpa using ⟨by omega, by simpa using hspace⟩), createStepsOf_true]
  have hpos : createSteps cfg s name guid attributes data ext appendData pl ≠ [] := by
    rw [createSteps_eq]
    exact List.cons_ne_nil _ _
  generalize createSteps cfg s name guid attributes data ext appendData pl = steps at h hpos ⊢
  generalize effective i s.mem steps device = faults at h
  obtain ⟨hnone, hall⟩ | ⟨k, -, -, st, -, hsome⟩ := performed_eq faults steps
  · have hfirst : faults ≠ some 0 := by
      rintro rfl
      obtain ⟨st, rest, rfl⟩ := List.exists_cons_of_ne_nil hpos
      exact absurd hnone (by simp [brokenAt])
    rw [hnone, hall, createNextGuid_eq guid hfirst, ← createNextGuid_eq guid (show none ≠ some 0 by simp)]
      at h
    exact congrArg some (congrArg Prod.snd h)
  · rw [hsome] at h
    exact absurd (congrArg Prod.fst h) (by simp)

theorem writersAdd (cfg : Config) : WritersAdd cfg where
  create := createVariableEx_adds
  copy {i bufferSize src dst dst' key device} h := by
    unfold copyVariable at h
    split at h
    · exact absurd (congrArg Prod.fst h) (by simp)
    · simp only at h
      split at h
      · rename_i hne
        exact absurd (congrArg Prod.fst h) hne
      · exact ⟨_, createVariableEx_adds (fun _ => rfl) h⟩
  update {i s oldVar nameSize attributes data final ext device s' final'} hlinked h := by
    unfold updateVariable at h
    split at h
    · exact absurd (congrArg UpdateResult.status h) (by simp)
    simp only at h
    split at h
    · exact Or.inl (congrArg UpdateResult.store h).symm
    split at h
    · exact absurd (congrArg UpdateResult.status h) (by simp)
    rename_i hspace
    generalize peek s.mem ((nvGetData s (final.getD oldVar) nameSize).getD (0, 0)).1
      ((nvGetData s (final.getD oldVar) nameSize).getD (0, 0)).2 = oldData at h hspace
    have hlast := hlinked (applySteps s.mem (updateSteps cfg s attributes oldData data ext
      (updatePlan cfg attributes oldData.length data.length)))
    generalize (final.orElse fun _ => nvGetDataNvar { s with
      mem := applySteps s.mem (updateSteps cfg s attributes oldData data ext
        (updatePlan cfg attributes oldData.length data.length)) } oldVar).getD 0 = last at h hlast
    suffices hok : updateVariableOf true cfg s attributes oldData data ext last = some s'
      from Or.inr ⟨_, Adds.update hlast hok⟩
    unfold updateVariableOf
    generalize updatePlan cfg attributes oldData.length data.length = pl at h hspace ⊢
    simp only [updateStepsOf_true]
    rw [if_neg (by simpa using hspace)]
    generalize updateSteps cfg s attributes oldData data ext pl
      ++ [linkStep cfg s attributes oldData data pl last] = steps at h ⊢
    generalize effective i s.mem steps device = faults at h
    obtain ⟨hnone, hall⟩ | ⟨k, -, -, st, -, hsome⟩ := performed_eq faults steps
    · rw [hnone, hall] at h
      exact congrArg some (congrArg UpdateResult.store h)
    · rw [hsome] at h
      exact absurd (congrArg UpdateResult.status h) (by simp)

end

/-! ## Sealed records -/

/-- The bytes of the record at `p` that the checksum is about, for these flags: `x` is its
`ExtSize`. -/
structure Sealed (m : Mem) (p size x : Nat) (flags : UInt8) : Prop where
  sizeField : sizeAt m p = size
  extSizeField : rd m 2 (p + size - 2) = x
  two_le : 2 ≤ x
  room : sizeofNvar + x ≤ size
  checksum : m (p + size - x) &&& extFlagChecksum ≠ 0
  sum : 0 - ((peek m (p + sizeofNvar) (size - sizeofNvar)).sum + (peek m (p + sizeOffset) 2).sum
    + flags) = 0

section

variable {m m' : Mem} {p size x : Nat} {flags : UInt8}

/-- The link and the flags are not among them. -/
theorem Sealed.congr (h : Sealed m p size x flags)
    (hsize : ∀ a, p + sizeOffset ≤ a → a < p + nextOffset → m' a = m a)
    (hbody : ∀ a, p + sizeofNvar ≤ a → a < p + size → m' a = m a) : Sealed m' p size x flags := by
  have h1 := h.two_le
  have h2 := h.room
  unfold sizeOffset nextOffset at hsize
  unfold sizeofNvar at hbody h2
  refine ⟨?_, ?_, h1, h2, ?_, ?_⟩
  · rw [← h.sizeField]
    exact rd_congr fun a ha hb => hsize a ha (by unfold sizeOffset at hb; omega)
  · rw [← h.extSizeField]
    exact rd_congr fun a ha hb => hbody a (by omega) (by omega)
  · rw [hbody _ (by omega) (by omega)]
    exact h.checksum
  · have hall : peek m' (p + sizeofNvar) (size - sizeofNvar) = peek m (p + sizeofNvar) (size - sizeofNvar) :=
      peek_congr fun a ha hb => hbody a ha (by unfold sizeofNvar at hb; omega)
    have hfield : peek m' (p + sizeOffset) 2 = peek m (p + sizeOffset) 2 :=
      peek_congr fun a ha hb => hsize a ha (by unfold sizeOffset at hb; omega)
    rw [hall, hfield]
    exact h.sum

theorem Sealed.extFlags (h : Sealed m p size x flags) : nvGetExtFlags m p = p + size - x := by
  have h1 := h.two_le
  have h2 := h.room
  unfold sizeofNvar at h2
  unfold nvGetExtFlags nvGetExtSize
  rw [h.sizeField, h.extSizeField]
  omega

theorem flags_invert (f : UInt8) :
    ((f ^^^ flagValid) ^^^ flagValid = f)
      ∧ ((f ^^^ flagValid) &&& flagExtHeder = f &&& flagExtHeder)
      ∧ (f &&& flagValid ≠ 0 → (f ^^^ flagValid) &&& flagValid = 0) := by
  obtain ⟨b⟩ := f
  simp only [← UInt8.toBitVec_inj, flagValid, flagExtHeder, ne_eq]
  revert b
  decide

/-- A sealed record verifies. -/
theorem Sealed.verifies (h : Sealed m p size x flags) (hflags : flagsAt m p = flags)
    (hext : flags &&& flagExtHeder ≠ 0) (hvalid : flags &&& flagValid ≠ 0) : Verifies m p := by
  intro updates
  obtain ⟨hback, hsame, hnot⟩ := flags_invert flags
  -- each of them leaves the record sealed, with the flags as they were or invalid
  suffices hinv : ∀ (us : List Bookkeeping) (m : Mem), Sealed m p size x flags →
      (flagsAt m p = flags ∨ flagsAt m p = flags ^^^ flagValid) →
      let m' := us.foldl (Bookkeeping.apply p) m
      Sealed m' p size x flags ∧ (flagsAt m' p = flags ∨ flagsAt m' p = flags ^^^ flagValid) by
    obtain ⟨hs, hf⟩ := hinv updates m h (Or.inl hflags)
    simp only at hs hf ⊢
    generalize updates.foldl (Bookkeeping.apply p) m = m' at hs hf ⊢
    have hx : hasFlag m' p flagExtHeder = true := by
      unfold hasFlag
      obtain hf | hf := hf
      · rw [hf]
        simpa using hext
      · rw [hf, hsame]
        simpa using hext
    have hck : m' (nvGetExtFlags m' p) &&& extFlagChecksum ≠ 0 := by
      rw [hs.extFlags]
      exact hs.checksum
    refine ⟨hx, hck, fun hv => ?_⟩
    obtain hf | hf := hf
    · unfold nvCalculateNvarChecksum
      rw [hx, if_neg (by simpa using hck), hs.sizeField, hf]
      exact hs.sum
    · unfold hasFlag at hv
      rw [hf, hnot hvalid] at hv
      exact absurd hv (by decide)
  intro us
  induction us with
  | nil => exact fun m hs hf => ⟨hs, hf⟩
  | cons u us ih =>
    intro m hs hf
    refine ih (u.apply p m) ?_ ?_
    · cases u with
      | link next =>
        refine hs.congr (fun a ha hb => poke_of_out ?_) (fun a ha hb => poke_of_out ?_)
        · exact Or.inl hb
        · rw [leBytes_length]
          unfold sizeofNvar at ha
          unfold nextOffset
          exact Or.inr (by omega)
      | invalidate =>
        refine hs.congr (fun a ha hb => poke_of_out ?_) (fun a ha hb => poke_of_out ?_)
        · unfold flagOffset
          unfold nextOffset at hb
          exact Or.inl (by omega)
        · exact Or.inr ha
    · cases u with
      | link next =>
        have hkeep : flagsAt (Bookkeeping.apply p m (.link next)) p = flagsAt m p :=
          poke_of_out (Or.inr (by rw [leBytes_length]; exact le_rfl))
        rw [hkeep]
        exact hf
      | invalidate =>
        have hnew : flagsAt (Bookkeeping.apply p m .invalidate) p = flagsAt m p ^^^ flagValid :=
          (holds_poke m (p + flagOffset) [flagsAt m p ^^^ flagValid]).1
        rw [hnew]
        obtain hf | hf := hf
        · exact Or.inr (by rw [hf])
        · exact Or.inl (by rw [hf, hback])

end

/-! ## The writers seal their records -/

section

variable {polarity : Bool} {cfg : Config} {e size extSize n : Nat} {flags ef : UInt8} {auth : Bool}
  {mc : Bytes} {rest : List Bytes} {m1 : Mem}

/-- The checksum and the signature of a record that ends at `pEnd`. -/
def sealSteps (polarity : Bool) (e pEnd : Nat) (sum : UInt8) : List Step :=
  [⟨pEnd - 3, [sum + emptyByteOf polarity], pEnd⟩, ⟨e, leBytes 4 nvarSignature, pEnd⟩]

theorem sealSteps_at {m : Mem} {pEnd a : Nat} {sum : UInt8} (ha : e + 4 ≤ a) :
    applySteps m (sealSteps polarity e pEnd sum) a
      = if a = pEnd - 3 then sum + emptyByteOf polarity else m a := by
  have hsig : applySteps m (sealSteps polarity e pEnd sum) a
      = poke m (pEnd - 3) [sum + emptyByteOf polarity] a :=
    poke_of_out (Or.inr (by rw [leBytes_length]; exact ha))
  rw [hsig]
  split
  · rename_i hat
    rw [hat]
    exact (holds_poke m (pEnd - 3) [sum + emptyByteOf polarity]).1
  · exact poke_of_out (by rw [List.length_singleton]; omega)

section

variable (hc : cfg.checksum = true) (hmc : mc.length = 8) (hrest : rest.length ≤ 1)
  (hx : extSize = (if auth then mc.length + rest.flatten.length else 0) + 4)
include hc hmc hrest hx

/-- The checksum is computed while its byte is erased, and adjusted by that: afterwards it is
right. -/
theorem extStepsOf_sealed
    (hsize : size = sizeofNvar + (n + extSize)) (hs : size < 65536)
    (hext : flags &&& flagExtHeder ≠ 0) (hef : ef &&& extFlagChecksum ≠ 0)
    (hm : sizeAt m1 e = size) (hflags : flagsAt m1 e = flags)
    (hgap : m1 (e + size - 3) = emptyByteOf polarity) :
    let m' := applySteps m1 (extStepsOf polarity cfg e (e + 10 + n) size extSize ef auth (mc :: rest) m1)
    Sealed m' e size extSize flags ∧ flagsAt m' e = flags := by
  have h10 : size = 10 + (n + extSize) := hsize
  obtain ⟨hwF, hwS, hin, hgapA⟩ := extHeadSteps_writes cfg e (e + 10 + n) size extSize ef hmc hrest
    (by simp [hc]) (by rw [hc]; exact hx) (by omega)
  have hsteps : extStepsOf polarity cfg e (e + 10 + n) size extSize ef auth (mc :: rest) m1
      = extHeadSteps cfg e (e + 10 + n) size extSize ef auth (mc :: rest)
        ++ sealSteps polarity e (e + size) (nvCalculateNvarChecksum (applySteps m1
          (extHeadSteps cfg e (e + 10 + n) size extSize ef auth (mc :: rest))) e) := by
    unfold extStepsOf sealSteps
    simp only [hc, if_true, List.append_assoc, List.singleton_append,
      show e + 10 + n + extSize = e + size by omega]
  simp only
  rw [hsteps, applySteps_append]
  -- the memory in which the checksum is computed
  have hF := (hwF m1).1
  have hS := hwS m1
  have hgapA := (hgapA hc).byte (m := m1) le_rfl (Nat.lt_succ_self _)
  have hfront : ∀ a, a < e + 10 + n → _ = m1 a := fun a ha =>
    (hin.avoid (q := a) (k := 1) (Or.inr (by omega))).byte (m := m1) le_rfl (by omega)
  generalize applySteps m1 (extHeadSteps cfg e (e + 10 + n) size extSize ef auth (mc :: rest)) = mH
    at hF hS hgapA hfront ⊢
  have hE : mH (e + size - 3) = emptyByteOf polarity := by
    rw [← hgap, show e + size - 3 = e + 10 + n + extSize - 3 by omega]
    exact hgapA
  have hsizeH : sizeAt mH e = size := by
    rw [← hm]
    exact rd_congr fun a ha hb => hfront a (by unfold sizeOffset at hb; omega)
  have hflagsH : flagsAt mH e = flags := (hfront _ (by unfold flagOffset; omega)).trans hflags
  have hextH : rd mH 2 (e + size - 2) = extSize := by
    rw [show e + size - 2 = e + 10 + n + extSize - 2 by omega]
    exact hS.rd_eq_of_lt (by omega)
  have hcalc : nvCalculateNvarChecksum mH e = 0 - ((peek mH (e + sizeofNvar) (size - sizeofNvar)).sum
      + (peek mH (e + sizeOffset) 2).sum + flags) := by
    have hpos : nvGetExtFlags mH e = e + 10 + n := by
      unfold nvGetExtFlags nvGetExtSize
      rw [hsizeH, hextH]
      omega
    have hno : ¬ ((!hasFlag mH e flagExtHeder || mH (nvGetExtFlags mH e) &&& extFlagChecksum == 0)
        = true) := by
      rw [hpos, hF]
      unfold hasFlag
      rw [hflagsH]
      simpa using ⟨hext, hef⟩
    unfold nvCalculateNvarChecksum
    rw [if_neg hno, hsizeH, hflagsH]
  generalize nvCalculateNvarChecksum mH e = sum at hcalc ⊢
  -- the checksum and the signature
  have hmem := fun a => @sealSteps_at polarity e mH (e + size) a sum
  generalize applySteps mH (sealSteps polarity e (e + size) sum) = m' at hmem ⊢
  have hother : ∀ a, e + 4 ≤ a → a ≠ e + size - 3 → m' a = mH a := by
    intro a ha hne
    rw [hmem a ha, if_neg hne]
  have hflags' : flagsAt m' e = flags :=
    (hother _ (by unfold flagOffset; omega) (by unfold flagOffset; omega)).trans hflagsH
  refine ⟨⟨?_, ?_, by omega, by unfold sizeofNvar; omega, ?_, ?_⟩, hflags'⟩
  · rw [← hsizeH]
    exact rd_congr fun a ha hb => hother a (by unfold sizeOffset at ha; omega)
      (by unfold sizeOffset at hb; omega)
  · rw [← hextH]
    exact rd_congr fun a ha hb => hother a (by omega) (by omega)
  · rw [show e + size - extSize = e + 10 + n by omega, hother _ (by omega) (by omega), hF]
    exact hef
  · -- the body in front of the checksum, the checksum, and `ExtSize`
    have hsplit : ∀ m : Mem, (peek m (e + sizeofNvar) (size - sizeofNvar)).sum
        = (peek m (e + 10) (size - 13)).sum + m (e + size - 3) + (peek m (e + size - 2) 2).sum := by
      intro m
      rw [show size - sizeofNvar = size - 13 + (1 + 2) by unfold sizeofNvar; omega, peek_add, peek_add,
        show e + sizeofNvar + (size - 13) = e + size - 3 by unfold sizeofNvar; omega,
        show e + size - 3 + 1 = e + size - 2 by omega]
      simp only [List.sum_append, peek, List.sum_cons, List.sum_nil, sizeofNvar]
      grind
    have hfront' : peek m' (e + 10) (size - 13) = peek mH (e + 10) (size - 13) :=
      peek_congr fun a ha hb => hother a (by omega) (by omega)
    have hback' : peek m' (e + size - 2) 2 = peek mH (e + size - 2) 2 :=
      peek_congr fun a ha hb => hother a (by omega) (by omega)
    have hfield' : peek m' (e + sizeOffset) 2 = peek mH (e + sizeOffset) 2 :=
      peek_congr fun a ha hb => hother a (by unfold sizeOffset at ha; omega)
        (by unfold sizeOffset at hb; omega)
    have hnew : m' (e + size - 3) = sum + emptyByteOf polarity := by
      rw [hmem _ (by omega), if_pos rfl]
    rw [hsplit, hfront', hback', hfield', hnew]
    rw [hsplit, hE] at hcalc
    rw [hcalc]
    grind

/-- These calls leave what is between the signature and the extended header. -/
theorem extStepsOf_front {p1 a : Nat} {m : Mem}
    (hend : p1 + extSize = e + size) (h1 : e + 4 ≤ a) (h2 : a < p1) :
    applySteps m1 (extStepsOf polarity cfg e p1 size extSize ef auth (mc :: rest) m) a = m1 a := by
  obtain ⟨-, -, hin, -⟩ := extHeadSteps_writes cfg e p1 size extSize ef hmc hrest
    (by simp [hc]) (by rw [hc]; exact hx) hend
  refine applySteps_of_out fun st hst => ?_
  unfold extStepsOf at hst
  rw [hc, if_pos rfl, List.append_assoc] at hst
  obtain hst | hst := List.mem_append.mp hst
  · have := hin st hst
    omega
  · obtain rfl | hst := List.mem_cons.mp hst
    · exact Or.inl (show a < p1 + extSize - 3 by omega)
    · obtain rfl := List.mem_singleton.mp hst
      exact Or.inr (by simp only [leBytes_length]; omega)

end

/-- The header as it is programmed first. -/
theorem nvarHeaderOf_read {m : Mem} (h : Holds m e (nvarHeaderOf polarity size flags)) (hs : size < 65536) :
    sizeAt m e = size ∧ flagsAt m e = flags := by
  unfold nvarHeaderOf at h
  rw [holds_append, holds_append, holds_append] at h
  obtain ⟨⟨⟨-, hsize⟩, -⟩, hflags⟩ := h
  rw [List.length_replicate] at hsize
  simp only [List.length_append, List.length_replicate, leBytes_length] at hflags
  exact ⟨hsize.rd_eq_of_lt hs, hflags.1⟩

@[simp] theorem nvarHeaderOf_length : (nvarHeaderOf polarity size flags).length = 10 := by
  simp [nvarHeaderOf]

variable {s s' : StoreInfo} {name : Name} {guid : Guid} {attributes : UInt32}
  {data oldData appendData : Bytes} {ext : ExtSecFlags} {oldVarGuid : Bool} {last : Nat}

/-- The flags of a new record that has a checksum. -/
theorem createPlan_sealed (hc : cfg.checksum = true) :
    let pl := createPlan cfg s name guid attributes data.length appendData.length oldVarGuid
    pl.flags &&& flagExtHeder ≠ 0 ∧ pl.flags &&& flagValid ≠ 0 := by
  intro pl
  have hflags : pl.flags = (createdHeader cfg name guid attributes [] ExtSecFlags.zero pl).flags :=
    createPlan_flags rfl
  set hd := createdHeader cfg name guid attributes [] ExtSecFlags.zero pl
  have htest := hd.flags_test
  have hvalid : (hd.flags &&& flagValid != 0) = true := htest.1
  have hext : (hd.flags &&& flagExtHeder != 0) = (hd.auth.isSome || hd.cks) := htest.2.2.2.2.1
  have hcks : hd.cks = true := hc
  rw [hcks, Bool.or_true] at hext
  rw [hflags]
  exact ⟨by simpa using hext, by simpa using hvalid⟩

/-- The calls for the header, the GUID, the name and the data of a new record. -/
def createFrontSteps (polarity : Bool) (s : StoreInfo) (name : Name) (guid : Guid)
    (attributes : UInt32) (data appendData : Bytes) (pl : CreatePlan) : List Step :=
  ⟨s.pEndOfVars, nvarHeaderOf polarity pl.size pl.flags, s.pEndOfVars + 10⟩ ::
    (createSlotSteps s guid pl ++ createBodySteps s name guid attributes data appendData pl)

/-- They write the header and the contents, and leave the place of the extended header. -/
theorem createFrontSteps_writes {pl : CreatePlan} {contents : Bytes}
    (hcontents : (createdHeader cfg name guid attributes (joinData (isAppend attributes) appendData data)
      ext pl).contents = contents) (hspace : isEnoughSpace s pl.size = true)
    (hsize : pl.size = sizeofNvar + (contents.length + pl.extSize)) :
    let m := applySteps s.mem (createFrontSteps polarity s name guid attributes data appendData pl)
    Holds m s.pEndOfVars (nvarHeaderOf polarity pl.size pl.flags)
      ∧ Holds m (s.pEndOfVars + 10) contents
      ∧ ∀ a, s.pEndOfVars + 10 + contents.length ≤ a → a < s.pEndOfVars + pl.size → m a = s.mem a := by
  obtain ⟨hslot, -⟩ := guidSlot_above hspace
  obtain ⟨hbw, hbin⟩ := createBodySteps_writes cfg s name guid attributes data appendData ext pl
  rw [hcontents] at hbw hbin
  have h10 : pl.size = 10 + (contents.length + pl.extSize) := hsize
  have havoid : ∀ {q k : Nat}, q + k ≤ s.pEndOfVars + 10 ∨ s.pEndOfVars + 10 + contents.length ≤ q →
      q + k ≤ s.pEndOfVars + pl.size → Avoid (createSlotSteps s guid pl
        ++ createBodySteps s name guid attributes data appendData pl) q k := by
    intro q k hq hk
    refine Avoid.append (fun st hst => ?_) (hbin.avoid (by omega))
    obtain rfl := mem_createSlotSteps hst
    exact Or.inr (by dsimp only; omega)
  intro m
  refine ⟨(havoid (q := s.pEndOfVars) (k := 10) (Or.inl le_rfl) (by omega)).holds (by simp)
    (holds_poke _ _ _), hbw.after (A := _ :: createSlotSteps s guid pl) s.mem, fun a h1 h2 => ?_⟩
  refine ((havoid (q := a) (k := 1) (Or.inr h1) (by omega)).byte le_rfl (by omega)).trans ?_
  exact poke_of_out (Or.inr (by simp only [nvarHeaderOf_length]; omega))

theorem createVariableExOf_sealed (hc : cfg.checksum = true)
    (happ : isAppend attributes = false → appendData = [])
    (h : createVariableExOf polarity cfg s name guid attributes data oldVarGuid ext appendData = some s')
    (hs : (createPlan cfg s name guid attributes data.length appendData.length oldVarGuid).size < 65536)
    (hgap : s.mem (s.pEndOfVars + (createPlan cfg s name guid attributes data.length appendData.length
      oldVarGuid).size - 3) = emptyByteOf polarity) : Verifies s'.mem s.pEndOfVars := by
  unfold createVariableExOf at h
  generalize hpl : createPlan cfg s name guid attributes data.length appendData.length oldVarGuid = pl
    at h hs hgap
  simp only at h
  split at h
  · exact absurd h (by simp)
  rename_i hroom
  obtain rfl := Option.some.inj h
  have hspace : isEnoughSpace s pl.size = true := by simpa using (not_or.mp hroom).2
  have hsize := createPlan_size hpl.symm happ ext
  have hp1 := createSteps_contents (s := s) (rfl : createdHeader cfg name guid attributes
    (joinData (isAppend attributes) appendData data) ext pl = _)
  obtain ⟨hhead, -, hgap'⟩ := @createFrontSteps_writes polarity cfg s name guid attributes data
    appendData ext pl _ rfl hspace hsize
  generalize createdHeader cfg name guid attributes (joinData (isAppend attributes) appendData data)
    ext pl = hd at hsize hp1 hgap'
  have hxs : pl.extSize = (if isAuth attributes then (leBytes 8 ext.mc.toNat).length
      + [ext.keyHash].flatten.length else 0) + 4 := by
    rw [← hpl]
    cases ha : isAuth attributes <;> simp [createPlan, ha, hc, ext.len, hashSha256Len]
  have hef : pl.extFlags &&& extFlagChecksum ≠ 0 := by
    rw [createPlan_extFlags hpl.symm, hc]
    exact beq_eq_false_iff_ne.mp (or_checksum_test _)
  obtain ⟨hext, hvalid⟩ : pl.flags &&& flagExtHeder ≠ 0 ∧ pl.flags &&& flagValid ≠ 0 := by
    rw [← hpl]
    exact createPlan_sealed hc
  have h10 : pl.size = 10 + (hd.contents.length + pl.extSize) := hsize
  have hplace := (hgap' (s.pEndOfVars + pl.size - 3) (by omega) (by omega)).trans hgap
  unfold createStepsOf
  simp only [hp1]
  rw [applySteps_append]
  change Verifies (applySteps (applySteps s.mem (createFrontSteps polarity s name guid attributes data
    appendData pl)) (extStepsOf _ _ _ _ _ _ _ _ _ (applySteps s.mem (createFrontSteps polarity s name
      guid attributes data appendData pl)))) s.pEndOfVars
  generalize applySteps s.mem (createFrontSteps polarity s name guid attributes data appendData pl) = m1
    at hhead hplace ⊢
  obtain ⟨hsz, hfl⟩ := nvarHeaderOf_read hhead hs
  obtain ⟨hsealed, hflags'⟩ := extStepsOf_sealed hc (leBytes_length 8 _) (by simp) hxs hsize hs hext hef
    hsz hfl hplace
  exact hsealed.verifies hflags' hext hvalid

theorem updateVariableOf_sealed (hc : cfg.checksum = true) (hlinked : last + sizeofNvar ≤ s.pEndOfVars)
    (h : updateVariableOf polarity cfg s attributes oldData data ext last = some s')
    (hs : (updatePlan cfg attributes oldData.length data.length).size < 65536)
    (hgap : s.mem (s.pEndOfVars + (updatePlan cfg attributes oldData.length data.length).size - 3)
      = emptyByteOf polarity) : Verifies s'.mem s.pEndOfVars := by
  unfold updateVariableOf at h
  generalize hpl : updatePlan cfg attributes oldData.length data.length = pl at h hs hgap
  simp only at h
  split at h
  · exact absurd h (by simp)
  obtain rfl := Option.some.inj h
  have hsize := updatePlan_size hpl.symm
  obtain ⟨hdw, hdin⟩ := dataSteps_writes (s.pEndOfVars + 10) (isAppend attributes) oldData data
  have hp1 : s.pEndOfVars + 10 + (if isAppend attributes then oldData.length else 0) + data.length
      = s.pEndOfVars + 10 + (joinData (isAppend attributes) oldData data).length := by
    rw [joinData_length]
    omega
  have hxs : pl.extSize = (if isAuth attributes then (leBytes 8 ext.mc.toNat).length
      + ([] : List Bytes).flatten.length else 0) + 4 := by
    rw [← hpl]
    cases ha : isAuth attributes <;> simp [updatePlan, ha, hc]
  have hef : pl.extFlags &&& extFlagChecksum ≠ 0 := by
    rw [← hpl]
    simp only [updatePlan, hc, if_true]
    decide
  obtain ⟨hvalid, -, hext, -⟩ := dataFlags_test (isAuth attributes) cfg.checksum
  rw [← updatePlan_flags hpl.symm] at hvalid hext
  rw [hc, Bool.or_true] at hext
  have h10 : pl.size = 10 + ((joinData (isAppend attributes) oldData data).length + pl.extSize) := hsize
  -- the header, and the place of the checksum
  unfold updateStepsOf
  simp only [hp1]
  rw [applySteps_append, applySteps_append]
  have hhead : Holds (applySteps s.mem (⟨s.pEndOfVars, nvarHeaderOf polarity pl.size pl.flags,
      s.pEndOfVars + 10⟩ :: dataSteps (s.pEndOfVars + 10) (isAppend attributes) oldData data))
      s.pEndOfVars (nvarHeaderOf polarity pl.size pl.flags) :=
    (hdin.avoid (q := s.pEndOfVars) (k := 10) (Or.inr le_rfl)).holds (by simp) (holds_poke _ _ _)
  have hplace : applySteps s.mem (⟨s.pEndOfVars, nvarHeaderOf polarity pl.size pl.flags,
      s.pEndOfVars + 10⟩ :: dataSteps (s.pEndOfVars + 10) (isAppend attributes) oldData data)
      (s.pEndOfVars + pl.size - 3) = emptyByteOf polarity := by
    rw [applySteps_cons, (hdin.avoid (q := s.pEndOfVars + pl.size - 3) (k := 1) (Or.inl (by omega))).byte
      le_rfl (by omega), ← hgap]
    exact poke_of_out (Or.inr (by simp only [nvarHeaderOf_length]; omega))
  generalize applySteps s.mem (⟨s.pEndOfVars, nvarHeaderOf polarity pl.size pl.flags,
    s.pEndOfVars + 10⟩ :: dataSteps (s.pEndOfVars + 10) (isAppend attributes) oldData data) = m1
    at hhead hplace ⊢
  obtain ⟨hsz, hfl⟩ := nvarHeaderOf_read hhead hs
  obtain ⟨hsealed, hflags'⟩ := extStepsOf_sealed hc (leBytes_length 8 _) (by simp) hxs hsize hs
    (by simpa using hext) hef hsz hfl hplace
  -- the link is written into a record in front of it
  have hlink : ∀ (m : Mem) (a : Nat), s.pEndOfVars ≤ a →
      applySteps m [linkStep cfg s attributes oldData data pl last] a = m a := by
    intro m a ha
    refine poke_of_out (Or.inr ?_)
    unfold linkStep nextOffset
    simp only [leBytes_length]
    unfold sizeofNvar at hlinked
    omega
  have hkept := hsealed.congr (fun a ha _ => hlink _ a (by omega)) (fun a ha _ => hlink _ a (by omega))
  exact hkept.verifies ((hlink _ _ (Nat.le_add_right _ _)).trans hflags') (by simpa using hext)
    (by simpa using hvalid)

end

/-! ## The checksums of a store -/

/-- A record of less than 64 KB, whose checksum is written to an erased byte, verifies; the
writers add such records. -/
theorem adds_verifies {polarity : Bool} {cfg : Config} (hc : cfg.checksum = true) :
    (∀ s s' size, Adds polarity cfg s size s' → size < 65536 →
      s.mem (s.pEndOfVars + size - 3) = emptyByteOf polarity → Verifies s'.mem s.pEndOfVars)
      ∧ WritersAdd cfg := by
  refine ⟨fun s s' size h hs hgap => ?_, writersAdd cfg⟩
  cases h with
  | create happ hok => exact createVariableExOf_sealed hc happ hok hs hgap
  | update hlinked hok => exact updateVariableOf_sealed hc hlinked hok hs hgap

def checked : Config :=
  { checksum := true, headerLength := 96, flashBlockSize := 4096, sdlVarLst := [] }

/-- An empty store of 128 KB. -/
def emptyStore (polarity : Bool) : StoreInfo :=
  { blank 96 0x20000 with mem := fun _ => emptyByteOf polarity }

/-- A variable on flash that erases to zeros. -/
theorem adds_verifies_zero : ∃ s', createVariableExOf false checked (emptyStore false) nameA guidZero 7
    [1, 2, 3] false .zero [] = some s' ∧ Verifies s'.mem 96 := by
  have hsome : (createVariableExOf false checked (emptyStore false) nameA guidZero 7
      [1, 2, 3] false .zero []).isSome = true := by
    unfold createVariableExOf
    rw [if_neg (by decide)]
    rfl
  obtain ⟨s', hs'⟩ := Option.isSome_iff_exists.mp hsome
  have hadds := Adds.create (fun _ => rfl) hs'
  have hverifies := (@adds_verifies false checked rfl).1 (emptyStore false) s' _ hadds (by decide) rfl
  exact ⟨s', hs', hverifies⟩

/-! ## Large records -/

/-- As much data as the interface takes, for a record of 65536 and 16 bytes; its first three
bytes read as an extended header at the end of the first 16. -/
def bulky : Bytes := [1, 3, 0] ++ List.replicate 65532 0

theorem bulky_length : bulky.length = 65535 := by
  unfold bulky
  rw [List.length_append, List.length_replicate]
  rfl

/-- What stands in those 16 bytes behind the signature. -/
def bulkyFront : Bytes := [16, 0, 0xFF, 0xFF, 0xFF, 0x93, 0, 0x41, 0, 1, 3, 0]

theorem bulky_plan : createPlan checked (emptyStore true) nameA guidZero 7 bulky.length
    ([] : Bytes).length false = ⟨65552, 4, 0x93, 1, 0, false⟩ := by
  rw [bulky_length]
  rfl

theorem bulky_front {s' : StoreInfo} (h : createVariableExOf true checked (emptyStore true) nameA
    guidZero 7 bulky false .zero [] = some s') : Holds s'.mem 100 bulkyFront := by
  unfold createVariableExOf at h
  rw [bulky_plan] at h
  simp only at h
  rw [if_neg (by decide)] at h
  obtain rfl := Option.some.inj h
  have hgeneral : ∀ tail : Bytes, (createdHeader checked nameA guidZero 7
      (joinData (isAppend 7) [] ([1, 3, 0] ++ tail)) .zero ⟨65552, 4, 0x93, 1, 0, false⟩).contents
      = [0, 0x41, 0, 1, 3, 0] ++ tail := fun _ => rfl
  have hlen : ([0, 0x41, 0, 1, 3, 0] ++ List.replicate 65532 (0 : UInt8)).length = 65538 := by
    rw [List.length_append, List.length_replicate]
    rfl
  obtain ⟨hhead, hbody, -⟩ := @createFrontSteps_writes true checked (emptyStore true) nameA guidZero 7
    bulky [] .zero ⟨65552, 4, 0x93, 1, 0, false⟩ _ (hgeneral _) (by decide) (by rw [hlen]; rfl)
  have hsplit : nvarHeaderOf true 65552 0x93
      = List.replicate 4 0xFF ++ [16, 0, 0xFF, 0xFF, 0xFF, 0x93] := by decide
  rw [hsplit, holds_append] at hhead
  have hfront : Holds _ 100 bulkyFront := holds_append.mpr ⟨hhead.2, (holds_append.mp hbody).1⟩
  unfold createStepsOf
  simp only
  rw [applySteps_append]
  refine hfront.congr fun x h1 h2 => ?_
  have hlen : bulkyFront.length = 12 := rfl
  have hend : (emptyStore true).pEndOfVars = 96 := rfl
  have hdata : ((emptyStore true).pEndOfVars + 10 + if false = true then 16 else 1) + nameBytesLength nameA
      + (if isAppend 7 = true then ([] : Bytes).length else 0) = 109 := rfl
  refine extStepsOf_front rfl (leBytes_length 8 _) (by simp) (by rfl) ?_ (by omega) ?_
  · rw [hdata, hend, bulky_length]
  · rw [hdata, bulky_length]
    omega

/-- The size of the record is stored modulo 65536, and the checksum is written behind the
bytes that it is computed from. -/
theorem not_verifies : ¬ ∀ (polarity : Bool) (cfg : Config) (s s' : StoreInfo) (size : Nat),
    cfg.checksum = true → Adds polarity cfg s size s' →
    (∀ a, s.pEndOfVars ≤ a → a < s.pEndOfVars + size → s.mem a = emptyByteOf polarity) →
    nvCalculateNvarChecksum s'.mem s.pEndOfVars = 0 := by
  intro h
  have hsome : (createVariableExOf true checked (emptyStore true) nameA guidZero 7 bulky false .zero
      []).isSome = true := by
    unfold createVariableExOf
    rw [bulky_plan, if_neg (by decide)]
    rfl
  obtain ⟨s', hs'⟩ := Option.isSome_iff_exists.mp hsome
  have hzero := h true checked (emptyStore true) s' _ rfl (Adds.create (fun _ => rfl) hs') fun _ _ _ => rfl
  -- the checksum goes by the first 16 bytes
  have hpeek := holds_iff_peek.mp (bulky_front hs')
  have hsame : ∀ a, 100 ≤ a → a < 112 → s'.mem a = poke (fun _ => 0) 100 bulkyFront a := by
    intro a h1 h2
    refine peek_at (n := 12) (p := 100) ?_ h1 h2
    exact hpeek.trans ((holds_poke _ 100 bulkyFront).peek_eq rfl).symm
  have hsize : sizeAt s'.mem 96 = 16 := by
    have hrd : sizeAt s'.mem 96 = sizeAt (poke (fun _ => 0) 100 bulkyFront) 96 :=
      rd_congr fun a h1 h2 => hsame a h1 (by unfold sizeOffset at h2; omega)
    rw [hrd]
    decide
  have hflags : flagsAt s'.mem 96 = 0x93 := (hsame 105 (by decide) (by decide)).trans (by decide)
  have hext : nvGetExtFlags s'.mem 96 = 109 := by
    have hrd : rd s'.mem 2 110 = rd (poke (fun _ => 0) 100 bulkyFront) 2 110 :=
      rd_congr fun a h1 h2 => hsame a (by omega) (by omega)
    unfold nvGetExtFlags nvGetExtSize
    rw [hsize, hrd]
    decide
  have hck : s'.mem 109 = 1 := (hsame 109 (by decide) (by decide)).trans (by decide)
  have hbody : peek s'.mem (96 + sizeofNvar) 6 = peek (poke (fun _ => 0) 100 bulkyFront) 106 6 :=
    peek_congr fun a h1 h2 => hsame a (by unfold sizeofNvar at h1; omega)
      (by unfold sizeofNvar at h2; omega)
  have hfield : peek s'.mem (96 + sizeOffset) 2 = peek (poke (fun _ => 0) 100 bulkyFront) 100 2 :=
    peek_congr fun a h1 h2 => hsame a h1 (by unfold sizeOffset at h2; omega)
  have hcalc : nvCalculateNvarChecksum s'.mem 96 = 0x18 := by
    unfold nvCalculateNvarChecksum hasFlag
    rw [hext, hck, hflags, hsize, if_neg (by decide)]
    show 0 - ((peek s'.mem (96 + sizeofNvar) 6).sum + (peek s'.mem (96 + sizeOffset) 2).sum + 0x93) = 0x18
    rw [hbody, hfield]
    decide
  rw [show (emptyStore true).pEndOfVars = 96 from rfl, hcalc] at hzero
  exact absurd hzero (by decide)

end BayTrail.Nvram
