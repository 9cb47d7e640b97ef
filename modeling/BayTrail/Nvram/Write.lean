import BayTrail.Nvram.Record

/-!
# The NVRAM store: what a block of `WriteBytes` calls leaves in the flash

`Writes p bs steps` says that a block leaves `bs` at `p` whatever was there, and
`Avoid steps p n` that it does not touch the `n` bytes at `p`. Blocks compose by
these two. `record_holds` is the composition both `CreateVariableEx` and
`UpdateVariable` rest on: header first, then the contents, then the extended
header with its checksum, and the signature last.
-/

namespace BayTrail.Nvram

open BayTrail.Lib

/-- No call of the block touches the `n` bytes at `p`. -/
def Avoid (steps : List Step) (p n : Nat) : Prop :=
  ∀ st ∈ steps, st.addr + st.data.length ≤ p ∨ p + n ≤ st.addr

/-- All calls of the block stay within the `n` bytes at `p`. -/
def Within (steps : List Step) (p n : Nat) : Prop :=
  ∀ st ∈ steps, p ≤ st.addr ∧ st.addr + st.data.length ≤ p + n

/-- The block leaves `bs` at `p`. -/
def Writes (p : Nat) (bs : Bytes) (steps : List Step) : Prop :=
  ∀ m, Holds (applySteps m steps) p bs

variable {A B : List Step} {p n : Nat} {xs ys : Bytes}

@[simp] theorem applySteps_nil (m : Mem) : applySteps m [] = m := rfl

@[simp] theorem applySteps_cons (m : Mem) (st : Step) (steps : List Step) :
    applySteps m (st :: steps) = applySteps (st.apply m) steps := rfl

theorem applySteps_append (m : Mem) (A B : List Step) :
    applySteps m (A ++ B) = applySteps (applySteps m A) B := by
  unfold applySteps
  exact List.foldl_append

/-- A byte that no call touches keeps its value. -/
theorem applySteps_of_out : ∀ {steps : List Step} {m : Mem} {a : Nat},
    (∀ st ∈ steps, a < st.addr ∨ st.addr + st.data.length ≤ a) → applySteps m steps a = m a
  | [], _, _, _ => rfl
  | st :: steps, m, a, h => by
    rw [applySteps_cons, applySteps_of_out fun st' hs => h st' (List.mem_cons_of_mem _ hs)]
    exact poke_of_out (h st (List.mem_cons_self ..))

theorem Avoid.append (hA : Avoid A p n) (hB : Avoid B p n) : Avoid (A ++ B) p n := by
  intro st hst
  rcases List.mem_append.mp hst with h | h
  · exact hA st h
  · exact hB st h

theorem Avoid.sublist (h : Avoid A p n) (hs : ∀ st ∈ B, st ∈ A) : Avoid B p n :=
  fun st hst => h st (hs st hst)

theorem Avoid.byte (h : Avoid A p n) {m : Mem} {a : Nat} (h1 : p ≤ a) (h2 : a < p + n) :
    applySteps m A a = m a :=
  applySteps_of_out fun st hst => by
    have := h st hst
    omega

theorem Avoid.holds (h : Avoid A p n) {m : Mem} (hn : xs.length ≤ n) (hm : Holds m p xs) :
    Holds (applySteps m A) p xs :=
  hm.congr fun _ h1 h2 => h.byte h1 (by omega)

variable {q k next : Nat} {body : Bytes}

theorem Within.avoid (h : Within A p n) (hd : p + n ≤ q ∨ q + k ≤ p) :
    Avoid A q k := by
  intro st hst
  have := h st hst
  omega

theorem Within.append (hA : Within A p n) (hB : Within B p n) : Within (A ++ B) p n := by
  intro st hst
  rcases List.mem_append.mp hst with h | h
  · exact hA st h
  · exact hB st h

theorem Within.mono (h : Within A q k) (h1 : p ≤ q) (h2 : q + k ≤ p + n) :
    Within A p n := by
  intro st hst
  have := h st hst
  omega

theorem within_nil : Within [] p n := fun _ h => absurd h (by simp)

theorem within_cons {st : Step} (h1 : p ≤ st.addr) (h2 : st.addr + st.data.length ≤ p + n)
    (h : Within A p n) : Within (st :: A) p n := by
  intro st' hst
  rcases List.mem_cons.mp hst with rfl | hst
  · exact ⟨h1, h2⟩
  · exact h st' hst

theorem writes_single (st : Step) : Writes st.addr st.data [st] :=
  fun m => holds_poke m st.addr st.data

/-- What a block has written stands while a later block avoids it. -/
theorem Writes.keep (h : Writes p xs A) (hB : Avoid B p xs.length) : Writes p xs (A ++ B) := by
  intro m
  rw [applySteps_append]
  exact hB.holds le_rfl (h m)

theorem Writes.after (h : Writes p xs B) : Writes p xs (A ++ B) := by
  intro m
  rw [applySteps_append]
  exact h _

theorem Writes.both (hx : Writes p xs A) (hy : Writes (p + xs.length) ys A) :
    Writes p (xs ++ ys) A :=
  fun m => holds_append.mpr ⟨hx m, hy m⟩

/-- Two blocks side by side, the lower one first. -/
theorem Writes.append (hx : Writes p xs A) (hy : Writes (p + xs.length) ys B)
    (hB : Within B (p + xs.length) ys.length) : Writes p (xs ++ ys) (A ++ B) :=
  Writes.both (hx.keep (hB.avoid (Or.inr le_rfl))) hy.after

/-! ## Name and data -/

theorem asciiNameSteps_writes : ∀ (cs : List UInt16) (p : Nat),
    Writes p (cs.map (·.toUInt8) ++ [0]) (asciiNameSteps p cs)
      ∧ Within (asciiNameSteps p cs) p (cs.length + 1)
  | [], p => ⟨writes_single _, within_cons (le_refl p) (by simp) within_nil⟩
  | c :: cs, p => by
    obtain ⟨hw, hin⟩ := asciiNameSteps_writes cs (p + 1)
    refine ⟨?_, within_cons (le_refl p) (by simp) (hin.mono (by omega) (by simp; omega))⟩
    exact (writes_single ⟨p, [c.toUInt8], p + 1⟩).append hw (by simpa using hin)

theorem unicodeNameSteps_writes : ∀ (cs : List UInt16) (p : Nat),
    Writes p (cs.flatMap (fun c => leBytes 2 c.toNat) ++ [0, 0]) (unicodeNameSteps p cs)
      ∧ Within (unicodeNameSteps p cs) p (2 * (cs.length + 1))
  | [], p => ⟨writes_single _, within_cons (le_refl p) (by simp) within_nil⟩
  | c :: cs, p => by
    obtain ⟨hw, hin⟩ := unicodeNameSteps_writes cs (p + 2)
    refine ⟨?_, within_cons (le_refl p) (by simp) (hin.mono (by omega) (by simp; omega))⟩
    rw [List.flatMap_cons, List.append_assoc]
    refine (writes_single ⟨p, leBytes 2 c.toNat, p + 2⟩).append hw ?_
    exact hin.mono (by simp) (by simp; omega)

theorem nameSteps_writes (p : Nat) (name : Name) :
    Writes p (nameBytes (isAsciiName name) name) (nameSteps p name)
      ∧ Within (nameSteps p name) p (nameSize (isAsciiName name) name) := by
  unfold nameSteps nameBytes nameSize
  cases isAsciiName name
  · exact unicodeNameSteps_writes name.chars p
  · exact asciiNameSteps_writes name.chars p

/-- The data of a record: with `EFI_VARIABLE_APPEND_WRITE` the old data comes
first. -/
def joinData (append : Bool) (oldData data : Bytes) : Bytes :=
  (if append then oldData else []) ++ data

theorem dataSteps_writes (p : Nat) (append : Bool) (oldData data : Bytes) :
    Writes p (joinData append oldData data) (dataSteps p append oldData data)
      ∧ Within (dataSteps p append oldData data) p (joinData append oldData data).length := by
  unfold dataSteps joinData
  cases append with
  | false => exact ⟨writes_single _, within_cons (le_refl p) (by simp) within_nil⟩
  | true =>
    refine ⟨?_, ?_⟩
    · refine (writes_single ⟨p, oldData, p + oldData.length⟩).append (writes_single _) ?_
      exact within_cons (le_refl _) (by simp) within_nil
    · refine within_cons (le_refl p) (by simp) (within_cons ?_ ?_ within_nil)
      · exact Nat.le_add_right _ _
      · simp only [if_true, List.length_append]
        omega

/-! ## The extended header -/

/-- The authentication fields are programmed as a count or time stamp and, in a
header record, a key hash. -/
def authFieldsOf (auth : Bool) (attr : UInt8) (authBytes : List Bytes) : Option AuthFields :=
  if auth then some ⟨attr, authBytes.flatten⟩ else none

/-- The pieces that are programmed before the checksum. -/
theorem extHeadSteps_writes (cfg : Config) (e p1 size extSize : Nat) (ef : UInt8) {auth : Bool}
    {mc : Bytes} {rest : List Bytes} (hmc : mc.length = 8) (hrest : rest.length ≤ 1)
    (hx : (auth || cfg.checksum) = true)
    (hsize : extSize = (if auth then mc.length + rest.flatten.length else 0)
      + (if cfg.checksum then 4 else 3)) (hend : p1 + extSize = e + size) :
    Writes p1 (ef :: (if auth then mc ++ rest.flatten else []))
        (extHeadSteps cfg e p1 size extSize ef auth (mc :: rest))
      ∧ Writes (p1 + extSize - 2) (leBytes 2 extSize)
        (extHeadSteps cfg e p1 size extSize ef auth (mc :: rest))
      ∧ Within (extHeadSteps cfg e p1 size extSize ef auth (mc :: rest)) p1 extSize
      ∧ (cfg.checksum = true →
        Avoid (extHeadSteps cfg e p1 size extSize ef auth (mc :: rest)) (p1 + extSize - 3) 1) := by
  unfold extHeadSteps
  cases auth with
  | false =>
    have hc : cfg.checksum = true := by simpa using hx
    simp only [hc, Bool.false_eq_true, if_false, if_true] at hsize ⊢
    subst hsize
    have hA : Within [⟨p1, [ef], p1 + (0 + 4)⟩] p1 1 := within_cons (le_refl p1) (by simp) within_nil
    refine ⟨(writes_single ⟨p1, [ef], p1 + (0 + 4)⟩).after (A := [_]), ?_, ?_, ?_⟩
    · exact (writes_single ⟨p1 + (0 + 4) - 2, leBytes 2 (0 + 4), p1 + (0 + 4)⟩).keep
        (hA.avoid (Or.inl (show p1 + 1 ≤ p1 + (0 + 4) - 2 by omega)))
    · exact within_cons (by simp) (by simp) (hA.mono le_rfl (by omega))
    · intro _ st hst
      simp only [List.mem_cons, List.not_mem_nil, or_false] at hst
      rcases hst with rfl | rfl <;> simp
  | true =>
    simp only [if_true] at hsize ⊢
    have h2 : e + size - 2 = p1 + extSize - 2 := by omega
    rw [h2]
    have hsz : Within [⟨p1 + extSize - 2, leBytes 2 extSize, p1 + extSize - 2⟩]
        (p1 + extSize - 2) 2 := within_cons (le_refl _) (by simp) within_nil
    -- `extflags` and the authentication fields side by side
    have hA : ∀ hs : List Bytes, hs.length ≤ 1 →
        let A : List Step := ⟨p1, [ef], p1⟩ :: ⟨p1 + 1, mc, p1 + 1⟩ :: hs.map fun h => ⟨p1 + 9, h, p1 + 9⟩
        Writes p1 (ef :: (mc ++ hs.flatten)) A ∧ Within A p1 (1 + (mc.length + hs.flatten.length)) := by
      intro hs hlen
      have hmid : Within [⟨p1 + 1, mc, p1 + 1⟩] (p1 + 1) mc.length :=
        within_cons (le_refl _) le_rfl within_nil
      match hs, hlen with
      | [], _ =>
        refine ⟨?_, within_cons (le_refl _) (by simp) (hmid.mono (by omega) (by simp; omega))⟩
        simpa using (writes_single ⟨p1, [ef], p1⟩).append (writes_single ⟨p1 + 1, mc, p1 + 1⟩) hmid
      | [kh], _ =>
        have hkh : Within [⟨p1 + 9, kh, p1 + 9⟩] (p1 + 9) kh.length :=
          within_cons (le_refl _) le_rfl within_nil
        have h9 : p1 + 1 + mc.length = p1 + 9 := by omega
        have htail : Writes (p1 + 1) (mc ++ kh) [⟨p1 + 1, mc, p1 + 1⟩, ⟨p1 + 9, kh, p1 + 9⟩] := by
          refine (writes_single ⟨p1 + 1, mc, p1 + 1⟩).append ?_ ?_
          · simp only [h9]; exact writes_single _
          · simp only [h9]; exact hkh
        have hin : Within [⟨p1 + 1, mc, p1 + 1⟩, ⟨p1 + 9, kh, p1 + 9⟩] (p1 + 1) (mc ++ kh).length :=
          within_cons (le_refl _) (by simp)
            (hkh.mono (by omega) (by rw [List.length_append]; omega))
        refine ⟨?_, within_cons (le_refl _) (by simp)
          (hin.mono (by omega) (by simp; omega))⟩
        simpa using (writes_single ⟨p1, [ef], p1⟩).append htail hin
    obtain ⟨hw, hin⟩ := hA rest hrest
    have hroom : p1 + (1 + (mc.length + rest.flatten.length))
        + (if cfg.checksum then 1 else 0) = p1 + extSize - 2 := by
      cases hc : cfg.checksum <;> simp only [hc, Bool.false_eq_true, if_false, if_true] at hsize ⊢ <;>
        omega
    refine ⟨hw.keep (hsz.avoid (Or.inr ?_)), (writes_single _).after, ?_, ?_⟩
    · simp only [List.length_cons, List.length_append]
      omega
    · refine Within.append (hin.mono le_rfl ?_) (hsz.mono (by omega) (by omega))
      omega
    · intro hc
      rw [hc, if_pos rfl] at hroom
      exact Avoid.append (hin.avoid (Or.inl (by omega))) (hsz.avoid (Or.inr (by omega)))

/-! ## A whole record -/

/-- A record before its signature is programmed: the header as it is programmed
first, and the body. -/
theorem unsigned_bytes (size : Nat) {flags : UInt8}
    (h : size = sizeofNvar + body.length) :
    Raw.bytes ⟨false, flashEmptyNext, flags, body⟩ = nvarHeader size flags ++ body := by
  simp [Raw.bytes, Raw.size, Raw.signature, nvarHeader, h]

@[simp] theorem nvarHeader_length (size : Nat) (flags : UInt8) :
    (nvarHeader size flags).length = 10 := by
  simp [nvarHeader]

/-- Programming the signature signs the record. -/
theorem sign_holds {m : Mem} {e : Nat} {flags : UInt8}
    (h : Holds m e (Raw.bytes ⟨false, next, flags, body⟩)) :
    Holds (poke m e (leBytes 4 nvarSignature)) e (Raw.bytes ⟨true, next, flags, body⟩) := by
  unfold Raw.bytes at h ⊢
  rw [holds_append] at h ⊢
  refine ⟨holds_poke _ _ _, ?_⟩
  rw [leBytes_length] at h ⊢
  exact h.2.poke_of_disjoint (Or.inr (by simp))

theorem or_checksum_test (x : UInt8) : ((x ||| extFlagChecksum) &&& extFlagChecksum == 0) = false := by
  have h : (x ||| extFlagChecksum) &&& extFlagChecksum = extFlagChecksum := by
    unfold extFlagChecksum
    apply UInt8.toBitVec_inj.mp
    ext i
    rcases i with _ | i <;> simp
  rw [h]
  rfl

/-- The checksum of a record whose checksum byte is still erased. -/
theorem nvCalculateNvarChecksum_erased {m : Mem} {e : Nat} {flags ef : UInt8} {sg : Bool}
    {pre fields : Bytes} {size : Nat}
    (h : RawAt m e ⟨sg, next, flags, pre ++ extBytes ef fields (some flashEmptyByte)⟩)
    (hsize : size = sizeofNvar + (pre.length + (fields.length + 4))) (hs : size < 65536)
    (hflag : (flags &&& flagExtHeder != 0) = true) (hef : (ef &&& extFlagChecksum == 0) = false) :
    nvCalculateNvarChecksum m e + flashEmptyByte
      = checksumByte size flags (pre ++ (ef :: (fields ++ leBytes 2 (fields.length + 4)))) := by
  have hrs : Raw.size ⟨sg, next, flags, pre ++ extBytes ef fields (some flashEmptyByte)⟩ = size := by
    simp [Raw.size, hsize]
  obtain ⟨hx, -, hval, -⟩ := h.ext rfl (hrs ▸ hs)
  have hsz : peek m (e + sizeOffset) 2 = leBytes 2 size := by
    rw [← hrs, ← h.size, sizeAt, leBytes_rd]
  unfold nvCalculateNvarChecksum hasFlag
  rw [h.flags, hflag, hx, hval, hef, h.peek_body, hsz]
  simp only [Bool.not_true, Bool.or_self, Bool.false_eq_true, if_false, extBytes,
    Option.toList_some, List.length_singleton, checksumByte, List.sum_append, List.sum_cons,
    List.sum_nil]
  grind

section

variable {cfg : Config} {e : Nat} {pre : Bytes} {flags attr ef : UInt8} {auth : Bool}
  {mc : Bytes} {rest : List Bytes} {mid : List Step} {size extSize : Nat} {m : Mem}

/-- A record with an extended header, part by part, before it is signed. -/
theorem extended_holds {m : Mem} {ef : UInt8} {fields : Bytes} {cks : Option UInt8}
    (hx : extSize = fields.length + cks.toList.length + 3)
    (hsize : size = sizeofNvar + (pre.length + extSize)) (hhdr : Holds m e (nvarHeader size flags))
    (hpre : Holds m (e + 10) pre) (hF : Holds m (e + 10 + pre.length) (ef :: fields))
    (hck : Holds m (e + size - 2 - cks.toList.length) cks.toList)
    (hS : Holds m (e + size - 2) (leBytes 2 extSize)) :
    Holds m e (Raw.bytes ⟨false, flashEmptyNext, flags, pre ++ extBytes ef fields cks⟩) := by
  have h10 : size = 10 + (pre.length + extSize) := hsize
  rw [unsigned_bytes size (by rw [hsize, hx, List.length_append, extBytes_length]), holds_append,
    holds_append, nvarHeader_length]
  unfold extBytes
  rw [← List.cons_append, holds_append, holds_append, ← hx, List.length_cons]
  refine ⟨hhdr, hpre, hF, ?_, ?_⟩
  · rwa [show e + 10 + pre.length + (fields.length + 1) = e + size - 2 - cks.toList.length by omega]
  · rwa [show e + 10 + pre.length + (fields.length + 1) + cks.toList.length = e + size - 2 by omega]

/-- The record that a block leaves: header, then the contents, then the extended
header, and last the signature. -/
theorem record_holds (hmc : mc.length = 8) (hrest : rest.length ≤ 1)
    (hx : extSize = extTailSize (authFieldsOf auth attr (mc :: rest)) cfg.checksum)
    (hsize : size = sizeofNvar + (pre.length + extSize)) (hs : size < 65536)
    (hef : ef = (if auth then attr else 0) ||| bit cfg.checksum extFlagChecksum)
    (hflag : (flags &&& flagExtHeder != 0) = (auth || cfg.checksum))
    (hmid : Writes (e + 10) pre mid) (hmidE : Avoid mid e 10)
    (hmidX : Avoid mid (e + 10 + pre.length) extSize)
    (hgap : cfg.checksum = true → m (e + size - 3) = flashEmptyByte) {pFail : Nat} :
    let m1 := applySteps m (⟨e, nvarHeader size flags, pFail⟩ :: mid)
    Holds (applySteps m1 (extSteps cfg e (e + 10 + pre.length) size extSize ef auth (mc :: rest) m1))
      e (Raw.bytes ⟨true, flashEmptyNext, flags,
        pre ++ extTail (authFieldsOf auth attr (mc :: rest)) cfg.checksum flags pre⟩) := by
  intro m1
  have hhdr : Holds m1 e (nvarHeader size flags) :=
    hmidE.holds (by simp) (holds_poke _ _ _)
  have hpre : Holds m1 (e + 10) pre := hmid _
  have hsz10 : size = 10 + (pre.length + extSize) := hsize
  set p1 := e + 10 + pre.length with hp1
  cases hany : (auth || cfg.checksum) with
  | false =>
    obtain ⟨ha, hc⟩ := Bool.or_eq_false_iff.mp hany
    have htail : extTail (authFieldsOf auth attr (mc :: rest)) cfg.checksum flags pre = [] := by
      simp [extTail, authFieldsOf, ha, hc]
    have hx0 : extSize = 0 := by simp [hx, extTailSize, authFieldsOf, ha, hc]
    rw [htail, List.append_nil]
    simp only [extSteps, extHeadSteps, ha, hc, Bool.false_eq_true, if_false, List.nil_append,
      applySteps_cons, applySteps_nil]
    refine sign_holds ?_
    rw [unsigned_bytes size (by rw [hsize, hx0]; rfl), holds_append, nvarHeader_length]
    exact ⟨hhdr, hpre⟩
  | true =>
    set fields := if auth then mc ++ rest.flatten else [] with hfields
    have hattr : ((authFieldsOf auth attr (mc :: rest)).map AuthFields.attr).getD 0
        = if auth then attr else 0 := by
      unfold authFieldsOf; cases auth <;> rfl
    have hfl : ((authFieldsOf auth attr (mc :: rest)).map AuthFields.fields).getD [] = fields := by
      rw [hfields]; unfold authFieldsOf; cases auth <;> rfl
    have hsome : ((authFieldsOf auth attr (mc :: rest)).isSome || cfg.checksum) = true := by
      rw [← hany]; unfold authFieldsOf; cases auth <;> rfl
    have hxlen : extSize = fields.length + (if cfg.checksum then 4 else 3) := by
      rw [hx]
      unfold extTailSize
      rw [hfl, if_neg]
      intro hh
      rw [Bool.and_eq_true] at hh
      revert hsome
      cases hq : authFieldsOf auth attr (mc :: rest) <;> simp_all
    obtain ⟨hwF, hwS, hin, hgapA⟩ := extHeadSteps_writes cfg e p1 size extSize ef hmc hrest hany
      (by rw [hxlen, hfields]; cases auth <;> simp) (by omega)
    set H := extHeadSteps cfg e p1 size extSize ef auth (mc :: rest) with hH
    have hhdr2 : Holds (applySteps m1 H) e (nvarHeader size flags) :=
      (hin.avoid (q := e) (k := 10) (Or.inr (by omega))).holds (by simp) hhdr
    have hpre2 : Holds (applySteps m1 H) (e + 10) pre :=
      (hin.avoid (q := e + 10) (k := pre.length) (Or.inr (by omega))).holds le_rfl hpre
    have hF := hwF m1
    have hS := hwS m1
    rw [show p1 + extSize = e + size by omega] at hS
    cases hc : cfg.checksum with
    | false =>
      have htail : extTail (authFieldsOf auth attr (mc :: rest)) false flags pre
          = extBytes ef fields none := by
        rw [hc] at hef hsome
        unfold extTail
        rw [hattr, hfl, hef]
        rw [Bool.or_false] at hsome
        obtain ⟨a, ha⟩ := Option.isSome_iff_exists.mp hsome
        simp [ha, bit]
      rw [htail]
      simp only [extSteps, hc, Bool.false_eq_true, if_false, List.append_nil]
      rw [applySteps_append, applySteps_cons, applySteps_nil]
      exact sign_holds (extended_holds (by simp [hxlen, hc]) hsize hhdr2 hpre2 hF (holds_nil _ _) hS)
    | true =>
      have hef' : ef = (if auth then attr else 0) ||| extFlagChecksum := by rw [hef, hc]; rfl
      rw [hc] at hxlen
      simp only [if_true] at hxlen
      have hsize' : size = sizeofNvar + (pre.length + (fields.length + 4)) := by
        rw [hsize, hxlen]
      have hplace : p1 + extSize - 3 = e + size - 3 := by omega
      -- the checksum byte is still erased when the checksum is computed
      have hgapF : applySteps m1 H (e + size - 3) = flashEmptyByte := by
        rw [← hplace, (hgapA hc).byte le_rfl (by omega)]
        have h1 : m1 (p1 + extSize - 3) = poke m e (nvarHeader size flags) (p1 + extSize - 3) :=
          hmidX.byte (by omega) (by omega)
        rw [h1, poke_of_out (Or.inr (by rw [nvarHeader_length]; omega)), hplace]
        exact hgap hc
      have herased : Holds (applySteps m1 H) e (Raw.bytes ⟨false, flashEmptyNext, flags,
          pre ++ extBytes ef fields (some flashEmptyByte)⟩) :=
        extended_holds hxlen hsize hhdr2 hpre2 hF ⟨hgapF, holds_nil _ _⟩ hS
      have hck := nvCalculateNvarChecksum_erased
        (Raw.at_of_holds herased (by rw [Raw.size]; simp [← hsize', hs]) (show flashEmptyNext < _ by decide)) hsize' hs
        (by rw [hflag, hany]) (by rw [hef']; exact or_checksum_test _)
      have htail : extTail (authFieldsOf auth attr (mc :: rest)) true flags pre
          = extBytes ef fields (some (checksumByte size flags
            (pre ++ (ef :: (fields ++ leBytes 2 (fields.length + 4)))))) := by
        unfold extTail
        rw [hattr, hfl, hsize', hef']
        simp
      rw [htail, ← hck]
      set c := nvCalculateNvarChecksum (applySteps m1 H) e + flashEmptyByte with hcdef
      have hsteps : applySteps m1 (extSteps cfg e p1 size extSize ef auth (mc :: rest) m1)
          = poke (poke (applySteps m1 H) (e + size - 3) [c]) e (leBytes 4 nvarSignature) := by
        simp only [extSteps, hc, if_true, ← hH, applySteps_append, applySteps_cons,
          applySteps_nil, ← hcdef, Step.apply, hplace]
      rw [hsteps]
      have hkeep : ∀ {q : Nat} {bs : Bytes}, Holds (applySteps m1 H) q bs →
          q + bs.length ≤ e + size - 3 ∨ e + size - 3 + 1 ≤ q →
          Holds (poke (applySteps m1 H) (e + size - 3) [c]) q bs :=
        fun hh hd => hh.poke_of_disjoint hd
      refine sign_holds (extended_holds hxlen hsize (hkeep hhdr2 (Or.inl ?_)) (hkeep hpre2 (Or.inl ?_))
        (hkeep hF (Or.inl ?_)) (holds_poke _ _ [c]) (hkeep hS (Or.inr (by omega))))
      · rw [nvarHeader_length]
        omega
      · omega
      · rw [List.length_cons]
        omega

/-- The calls of `extSteps` before the signature stay in the extended header. -/
theorem extSteps_split (cfg : Config) (p1 : Nat) (hmc : mc.length = 8) (hrest : rest.length ≤ 1)
    (hx : extSize = extTailSize (authFieldsOf auth attr (mc :: rest)) cfg.checksum)
    (hend : p1 + extSize = e + size) (ef : UInt8) (m : Mem) :
    ∃ X pFail, extSteps cfg e p1 size extSize ef auth (mc :: rest) m
        = X ++ [⟨e, leBytes 4 nvarSignature, pFail⟩] ∧ Within X p1 extSize := by
  refine ⟨_, _, rfl, ?_⟩
  cases hany : (auth || cfg.checksum) with
  | false =>
    obtain ⟨ha, hc⟩ := Bool.or_eq_false_iff.mp hany
    simp only [extHeadSteps, ha, hc, Bool.false_eq_true, if_false, List.append_nil]
    exact within_nil
  | true =>
    have hxlen : extSize = (if auth then mc.length + rest.flatten.length else 0)
        + (if cfg.checksum then 4 else 3) := by
      rw [hx]
      unfold extTailSize authFieldsOf
      cases auth <;> cases hc : cfg.checksum <;> simp_all
    obtain ⟨-, -, hin, -⟩ := extHeadSteps_writes cfg e p1 size extSize ef hmc hrest hany hxlen hend
    refine Within.append hin ?_
    split
    next hc =>
      rw [if_pos hc] at hxlen
      exact within_cons (show p1 ≤ p1 + extSize - 3 by omega)
        (show p1 + extSize - 3 + 1 ≤ _ by omega) within_nil
    next => exact within_nil

/-- Every call of the block passes a `p` beyond the header to the recovery. -/
theorem extSteps_pFail {p1 : Nat} (hp1 : e + 10 ≤ p1) (hsize : p1 + extSize = e + size)
    (hx : (auth || cfg.checksum) = true → 2 ≤ extSize) :
    ∀ st ∈ extSteps cfg e p1 size extSize ef auth (mc :: rest) m, e + 10 ≤ st.pFail := by
  intro st hst
  simp only [extSteps, extHeadSteps] at hst
  cases auth <;> cases hc : cfg.checksum <;>
    simp only [hc, Bool.false_eq_true, if_false, if_true, List.nil_append, List.append_nil,
      List.cons_append, List.mem_append, List.mem_cons, List.mem_map, List.not_mem_nil,
      or_false, or_assoc, Bool.or_true, Bool.or_false, forall_true_left] at hst hx
  · rcases hst with rfl; exact hp1
  · rcases hst with rfl | rfl | rfl | rfl <;> (try dsimp only) <;> omega
  · rcases hst with rfl | rfl | ⟨k, -, rfl⟩ | rfl | rfl <;> (try dsimp only) <;> omega
  · rcases hst with rfl | rfl | ⟨k, -, rfl⟩ | rfl | rfl | rfl <;> (try dsimp only) <;> omega

end

end BayTrail.Nvram
