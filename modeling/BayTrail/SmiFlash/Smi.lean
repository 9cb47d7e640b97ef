import BayTrail.SmiFlash.Confined

/-!
# The handlers of secure flash, and all of them

`loadFwImage_mem` and `setFlUpdMethod_mem` say that the accesses are those of the functions of the
update driver: the memory behind them is the one these leave. The capsule buffer is memory of the
driver's own; it lies outside SMRAM.
-/

namespace BayTrail.SmiFlash

open Lib
open SecureFlash

variable {Digest : Type} {P : Platform Digest} {B : Board} {m : Mem} {s : State Digest}
  {v : Variables} {p hdr data : Nat} {checked : List (Nat × Nat)}

/-! ## The accesses are those of the driver -/

theorem loadFwImage_mem : (loadFwImage P s p).mem = runLog s.mem (loadFwImageLog P s.mem p) := by
  unfold loadFwImage loadFwImageLog bufAddr blockSize blockAddr funcBlockSize
  by_cases h : P.buffer = 0 ∨ p = 0
  · rw [if_pos h, if_pos h]
    rfl
  · rw [if_neg h, if_neg h]
    dsimp only [runLog_cons, Access.apply]
    generalize poke s.mem (p + 16) [1] = m
    by_cases hblock : (!P.validateMemoryBuffer p 24) = true
    · rw [if_pos hblock, if_pos hblock]
      rfl
    · rw [if_neg hblock, if_neg hblock]
      by_cases hbuf : (!P.validateMemoryBuffer (rd m 8 p) (rd m 4 (p + 12))) = true
      · rw [if_pos hbuf, if_pos hbuf]
        rfl
      · rw [if_neg hbuf, if_neg hbuf]
        by_cases hsize : capsuleImageSize < rd m 4 (p + 8) + rd m 4 (p + 12)
        · rw [if_pos hsize, if_pos hsize]
          rfl
        · rw [if_neg hsize, if_neg hsize]
          rfl

theorem setFlashUpdateVar_mem :
    (setFlashUpdateVar v m p).2 = runLog m (setFlashUpdateVarLog v m p) := by
  unfold setFlashUpdateVar setFlashUpdateVarLog
  split
  · rfl
  · rfl

theorem takeCapsule_mem {s' : State Digest} (h : takeCapsule P s p = some s') :
    s'.mem = runLog s.mem (takeCapsuleLog P s.mem p) := by
  unfold takeCapsule at h
  unfold takeCapsuleLog
  dsimp only at h ⊢
  split at h
  · rename_i hmailbox
    rw [if_pos hmailbox]
    obtain rfl := Option.some.inj h
    rfl
  · rename_i hmailbox
    rw [if_neg hmailbox]
    split at h
    · exact nomatch h
    · rename_i hok
      rw [if_neg hok]
      split at h
      · rename_i hbuffer
        rw [if_pos hbuffer]
        obtain rfl := Option.some.inj h
        rfl
      · rename_i hbuffer
        rw [if_neg hbuffer]
        split at h
        · exact nomatch h
        · rename_i hsize
          rw [if_neg hsize]
          obtain rfl := Option.some.inj h
          rfl

theorem acceptCapsule_mem {payload : Nat} :
    (acceptCapsule P v s p hdr payload).2.mem =
      runLog s.mem (acceptCapsuleLog P v s.mem p hdr) := by
  have hcopy : poke s.mem (p + 21) (leBytes 4 (imageSize s.mem hdr)) =
      poke s.mem (p + 21) (peek s.mem (hdr + 24) 4) := by
    unfold imageSize
    rw [leBytes_rd]
  unfold acceptCapsule acceptCapsuleLog
  by_cases hop : rd s.mem 1 p = flRuntime
  · rw [if_pos hop, if_pos hop]
    rfl
  · rw [if_neg hop, if_neg hop]
    dsimp only
    rw [hcopy, runLog_cons]
    dsimp only [Access.apply]
    split
    · rw [setFlashUpdateVar_mem]
    · rfl

theorem validateMethod_mem :
    (validateMethod P v s p).2.mem = runLog s.mem (validateMethodLog P v s p) := by
  unfold validateMethod validateMethodLog
  rw [runLog_append]
  cases htake : takeCapsule P s p with
  | none =>
    -- what has been checked before the failure is not written
    have hlog : ∀ x ∈ takeCapsuleLog P s.mem p, ∃ q n, x = .checked q n := by
      unfold takeCapsule at htake
      unfold takeCapsuleLog
      dsimp only at htake ⊢
      intro x hx
      split at hx
      · exact absurd hx List.not_mem_nil
      · rename_i hmailbox
        rw [if_neg hmailbox] at htake
        split at hx
        · exact absurd hx List.not_mem_nil
        · rename_i hok
          rw [if_neg hok] at htake
          split at hx
          · exact ⟨_, _, List.mem_singleton.mp hx⟩
          · rename_i hbuffer
            rw [if_neg hbuffer] at htake
            split at hx
            · exact ⟨_, _, List.mem_singleton.mp hx⟩
            · rename_i hsize
              rw [if_neg hsize] at htake
              cases htake
    have hsame : runLog s.mem (takeCapsuleLog P s.mem p) = s.mem := by
      funext a
      refine runLog_of_misses (fun x hx => ?_) _
      obtain ⟨q, n, rfl⟩ := hlog x hx
      trivial
    rw [hsame]
    rfl
  | some t =>
    rw [← takeCapsule_mem htake]
    unfold validatedLog
    dsimp only
    by_cases hnull : t.pFwCapsule = 0
    · rw [if_pos hnull, if_pos hnull]
      rfl
    · rw [if_neg hnull, if_neg hnull]
      cases hvalid : (capsuleValidate P.toServices t.mem t.pFwCapsule t.hashTbl).1 with
      | none => rfl
      | some c => exact acceptCapsule_mem

theorem runMethod_mem : (runMethod P v s p).2.mem = runLog s.mem (runMethodLog P v s p) := by
  unfold runMethod runMethodLog
  by_cases hvalidate : rd s.mem 1 p = flCapsule ∨ rd s.mem 1 p = flRuntime
  · rw [if_pos hvalidate, if_pos hvalidate]
    exact validateMethod_mem
  · rw [if_neg hvalidate, if_neg hvalidate]
    by_cases hrecovery : rd s.mem 1 p = flRecovery
    · rw [if_pos hrecovery, if_pos hrecovery]
      exact setFlashUpdateVar_mem
    · rw [if_neg hrecovery, if_neg hrecovery]
      rfl

theorem setFlUpdMethod_mem :
    (setFlUpdMethod P v s p).mem = runLog s.mem (setFlUpdMethodLog P v s p) := by
  unfold setFlUpdMethod setFlUpdMethodLog
  by_cases hok : (!P.validateMemoryBuffer p 36) = true
  · rw [if_pos hok, if_pos hok]
    rfl
  · rw [if_neg hok, if_neg hok]
    dsimp only
    have hmethod : (if policyAllows P s.mem p then runMethod P v s p else (false, s)).2.mem =
        runLog s.mem (if policyAllows P s.mem p then runMethodLog P v s p else []) := by
      by_cases hpolicy : policyAllows P s.mem p = true
      · rw [if_pos hpolicy, if_pos hpolicy]
        exact runMethod_mem
      · rw [if_neg hpolicy, if_neg hpolicy]
        rfl
    generalize (if policyAllows P s.mem p then runMethod P v s p else (false, s)) = done at hmethod
    obtain ⟨ok, t⟩ := done
    rw [runLog_cons, runLog_append]
    dsimp only [Access.apply] at hmethod ⊢
    rw [← hmethod]
    cases ok with
    | true => rfl
    | false => rfl

/-! ## They are confined -/

/-- The capsule buffer. -/
def capsuleBuffer (P : Platform Digest) (a : Nat) : Prop :=
  P.buffer ≤ a ∧ a < P.buffer + capsuleImageSize

theorem own_capsuleBuffer {q n : Nat} (h1 : P.buffer ≤ q) (h2 : q + n ≤ P.buffer + capsuleImageSize) :
    Own (capsuleBuffer P) q n := fun i hi => ⟨by omega, by omega⟩

theorem findCapHdrFFS_bounds : ∀ n, findCapHdrFFS m p n = some hdr →
    p ≤ hdr ∧ hdr ≤ p + 4 * n + 44 := by
  intro n
  induction n with
  | zero =>
    intro h
    rw [findCapHdrFFS] at h
    obtain ⟨-, h⟩ := Option.ite_none_right_eq_some.mp h
    obtain rfl := Option.some.inj h
    omega
  | succ n ih =>
    intro h
    rw [findCapHdrFFS] at h
    split at h
    · obtain rfl := Option.some.inj h
      omega
    · obtain ⟨h1, h2⟩ := ih h
      omega

theorem locate_bounds {payload : Nat} (h : locate m p = some (hdr, payload)) :
    p ≤ hdr ∧ hdr ≤ p + maxPayloadSize := by
  unfold locate at h
  split at h
  · dsimp only at h
    split at h
    · cases h
    · cases h
      omega
  · obtain ⟨x, hx, heq⟩ := Option.map_eq_some_iff.mp h
    cases heq
    obtain ⟨h1, h2⟩ := findCapHdrFFS_bounds _ hx
    have hsize : 4 * ((maxPayloadSize - 44) / 4) + 44 ≤ maxPayloadSize := by decide
    omega

/-- The header of a validated capsule begins in the place for its payload. -/
theorem capsuleValidate_hdr {S : Services Digest} {tbl : HashTbl Digest} {c : Capsule}
    (h : (capsuleValidate S m p tbl).1 = some c) : p ≤ c.hdr ∧ c.hdr ≤ p + maxPayloadSize := by
  by_cases hp : p = 0
  · rw [capsuleValidate_none (.inl hp)] at h
    cases h
  · cases hloc : locate m p with
    | none =>
      rw [capsuleValidate_none (.inr hloc)] at h
      cases h
    | some place =>
      obtain ⟨hdr, payload⟩ := place
      rw [capsuleValidate_some hp hloc] at h
      split at h
      · obtain ⟨-, heq⟩ := Option.ite_none_right_eq_some.mp h
        cases heq
        exact locate_bounds hloc
      · cases h

theorem confined_setFlashUpdateVarLog (h : (p, 36) ∈ checked) :
    Confined P.validateMemoryBuffer (capsuleBuffer P) checked (setFlashUpdateVarLog v m p) := by
  unfold setFlashUpdateVarLog
  split
  · exact .nil
  · exact .store (inside_of_mem h (by omega) (by simp)) .nil

theorem confined_acceptCapsuleLog (h : (p, 36) ∈ checked) (h1 : P.buffer ≤ hdr)
    (h2 : hdr ≤ P.buffer + maxPayloadSize) :
    Confined P.validateMemoryBuffer (capsuleBuffer P) checked (acceptCapsuleLog P v m p hdr) := by
  have hsize : maxPayloadSize + 28 ≤ capsuleImageSize := by decide
  unfold acceptCapsuleLog
  split
  · exact .nil
  · refine .copy (inside_of_mem h (by omega) (by omega))
      (.inr (own_capsuleBuffer (by omega) (by omega))) ?_
    split
    · exact confined_setFlashUpdateVarLog h
    · exact .nil

theorem confined_takeCapsuleLog :
    Confined P.validateMemoryBuffer (capsuleBuffer P) checked (takeCapsuleLog P m p) := by
  unfold takeCapsuleLog
  generalize rd m 8 (p + 5) = mailbox
  generalize rd m 4 (p + 21) = size
  dsimp only
  by_cases hmailbox : mailbox = 0
  · rw [if_pos hmailbox]
    exact .nil
  · rw [if_neg hmailbox]
    by_cases hok : P.validateMemoryBuffer mailbox size = true
    · rw [hok, Bool.not_true, if_neg Bool.false_ne_true]
      refine .checked hok ?_
      by_cases hbuffer : P.buffer = 0
      · rw [if_pos hbuffer]
        exact .nil
      · rw [if_neg hbuffer]
        by_cases hsize : capsuleImageSize < size
        · rw [if_pos hsize]
          exact .nil
        · rw [if_neg hsize]
          exact .copy (.inr (own_capsuleBuffer le_rfl (by omega)))
            (inside_of_mem List.mem_cons_self le_rfl le_rfl) .nil
    · rw [Bool.eq_false_of_not_eq_true hok, Bool.not_false, if_pos rfl]
      exact .nil

theorem takeCapsule_pFwCapsule {s' : State Digest} (hbuffer : P.buffer ≠ 0)
    (h : takeCapsule P s p = some s') : s'.pFwCapsule = P.buffer := by
  unfold takeCapsule at h
  dsimp only at h
  rw [if_neg hbuffer] at h
  split at h
  · cases h
    rfl
  · split at h
    · cases h
    · split at h
      · cases h
      · cases h
        rfl

theorem confined_validateMethodLog (hbuffer : P.buffer ≠ 0) (h : (p, 36) ∈ checked) :
    Confined P.validateMemoryBuffer (capsuleBuffer P) checked (validateMethodLog P v s p) := by
  have hmem := checkedBy_mono (takeCapsuleLog P s.mem p) _ h
  unfold validateMethodLog
  refine confined_append.mpr ⟨confined_takeCapsuleLog, ?_⟩
  generalize checkedBy checked (takeCapsuleLog P s.mem p) = checked at hmem
  cases htake : takeCapsule P s p with
  | none => exact .nil
  | some t =>
    have hcapsule := takeCapsule_pFwCapsule hbuffer htake
    dsimp only
    unfold validatedLog
    by_cases hnull : t.pFwCapsule = 0
    · rw [if_pos hnull]
      exact .nil
    · rw [if_neg hnull]
      cases hvalid : (capsuleValidate P.toServices t.mem t.pFwCapsule t.hashTbl).1 with
      | none => exact .nil
      | some c =>
        obtain ⟨h1, h2⟩ := capsuleValidate_hdr hvalid
        rw [hcapsule] at h1 h2
        exact confined_acceptCapsuleLog hmem h1 h2

theorem confined_runMethodLog (hbuffer : P.buffer ≠ 0) (h : (p, 36) ∈ checked) :
    Confined P.validateMemoryBuffer (capsuleBuffer P) checked (runMethodLog P v s p) := by
  unfold runMethodLog
  split
  · exact confined_validateMethodLog hbuffer h
  · split
    · exact confined_setFlashUpdateVarLog h
    · exact .nil

theorem confined_answerLog {handle : Nat} {error : UInt8} (h : (p, 36) ∈ checked) :
    Confined P.validateMemoryBuffer (capsuleBuffer P) checked (answerLog p handle error) :=
  .store (inside_of_mem h (by omega) (by simp))
    (.store (inside_of_mem h (by omega) (by simp)) .nil)

theorem confined_setFlUpdMethodLog (hbuffer : P.buffer ≠ 0) :
    Confined P.validateMemoryBuffer (capsuleBuffer P) [] (setFlUpdMethodLog P v s p) := by
  have hmem : (p, 36) ∈ [(p, 36)] := List.mem_singleton_self _
  unfold setFlUpdMethodLog
  by_cases hok : P.validateMemoryBuffer p 36 = true
  · rw [hok, Bool.not_true, if_neg Bool.false_ne_true]
    dsimp only
    refine .checked hok (confined_append.mpr ⟨?_, ?_⟩)
    · split
      · exact confined_runMethodLog hbuffer hmem
      · exact .nil
    · have hmem' := checkedBy_mono
        (if policyAllows P s.mem p then runMethodLog P v s p else []) _ hmem
      generalize checkedBy [(p, 36)] (if policyAllows P s.mem p then runMethodLog P v s p else []) =
        checked at hmem' ⊢
      generalize (if policyAllows P s.mem p then runMethod P v s p else (false, s)) = done
      by_cases hdone : done.1 = true
      · rw [if_pos hdone]
        exact confined_answerLog hmem'
      · rw [if_neg hdone]
        exact confined_answerLog hmem'
  · rw [Bool.eq_false_of_not_eq_true hok, Bool.not_false, if_pos rfl]
    exact .nil

theorem confined_getFlUpdPolicy :
    Confined P.validateMemoryBuffer (capsuleBuffer P) [] (getFlUpdPolicy P p) := by
  unfold getFlUpdPolicy
  split
  · rename_i hok
    have hin : ∀ {q n : Nat}, p ≤ q → q + n ≤ p + 259 →
        Inside (capsuleBuffer P) [(p, 259)] q n := inside_of_mem (List.mem_singleton_self _)
    refine .checked hok (.store (hin le_rfl ?_) (.store (hin (by omega) ?_)
      (.store (hin (by omega) ?_) (.store (hin (by omega) ?_) .nil))))
    · show p + 2 ≤ p + 259
      omega
    · rw [List.length_replicate]
      omega
    · rw [List.length_take]
      omega
    · exact le_rfl
  · exact .nil

/-- The first store of `LoadFwImage` comes before the check. -/
theorem confined_loadFwImageLog (hbuffer : P.buffer ≠ 0) :
    Confined P.validateMemoryBuffer (capsuleBuffer P) [] (loadFwImageLog P m p) ↔
      (p = 0 ∨ capsuleBuffer P (p + 16)) := by
  unfold loadFwImageLog
  by_cases hp : p = 0
  · rw [if_pos (.inr hp)]
    exact ⟨fun _ => .inl hp, fun _ => .nil⟩
  · rw [if_neg (not_or.mpr ⟨hbuffer, hp⟩), or_iff_right hp]
    dsimp only
    generalize poke m (p + 16) [1] = m'
    rw [confined_store]
    constructor
    · rintro ⟨⟨r, hr, -⟩ | hown, -⟩
      · exact absurd hr List.not_mem_nil
      · exact hown 0 Nat.one_pos
    · intro hown
      refine ⟨.inr fun i hi => ?_, ?_⟩
      · obtain rfl : i = 0 := Nat.lt_one_iff.mp hi
        exact hown
      · split
        · exact .nil
        · rename_i hok
          refine .checked (by simpa using hok) ?_
          split
          · exact .nil
          · rename_i hbuf
            refine .checked (by simpa using hbuf) ?_
            split
            · exact .nil
            · rename_i hsize
              exact .copy (.inr (own_capsuleBuffer (by omega) (by omega)))
                (inside_of_mem List.mem_cons_self le_rfl le_rfl)
                (.store (confined_errorStore (List.mem_cons_of_mem _ (List.mem_singleton_self _)))
                  .nil)

/-! ## Every command -/

/-- What is asked of a command: `LoadFwImage` gets no block, or one with its `ErrorCode` in the
capsule buffer; and the length given to `GetFlashInfo` leaves no room behind the blocks. -/
structure Proper (P : Platform Digest) (B : Board) (m : Mem) (data p : Nat) : Prop where
  load : data = 0x1d → p = 0 ∨ capsuleBuffer P (p + 16)
  info : data = 0x25 → InfoProper P (capsuleBuffer P) B m p

theorem confined_smi (hbuffer : P.buffer ≠ 0) :
    Confined P.validateMemoryBuffer (capsuleBuffer P) [] (smi P B v s data p) ↔
      Proper P B s.mem data p := by
  unfold smi
  by_cases hload : data = 0x1d
  · rw [if_pos hload, confined_loadFwImageLog hbuffer]
    exact ⟨fun h => ⟨fun _ => h, fun hinfo => by omega⟩, fun h => h.load hload⟩
  · rw [if_neg hload]
    by_cases hpolicy : data = 0x1e
    · rw [if_pos hpolicy]
      exact ⟨fun _ => ⟨fun h => absurd h hload, fun h => by omega⟩, fun _ => confined_getFlUpdPolicy⟩
    · rw [if_neg hpolicy]
      by_cases hset : data = 0x1f
      · rw [if_pos hset]
        exact ⟨fun _ => ⟨fun h => absurd h hload, fun h => by omega⟩,
          fun _ => confined_setFlUpdMethodLog hbuffer⟩
      · rw [if_neg hset]
        unfold smiFlashHandler
        by_cases hinfo : data = 0x25
        · rw [if_pos hinfo, confined_infoBlockHandler]
          exact ⟨fun h => ⟨fun h' => absurd h' hload, fun _ => h⟩, fun h => h.info hinfo⟩
        · rw [if_neg hinfo]
          exact ⟨fun _ => ⟨fun h => absurd h hload, fun h => absurd h hinfo⟩,
            fun _ => confined_funcBlockHandler⟩

/-- The driver registers its handlers only if it has a buffer. Confined accesses leave SMRAM as it is,
if nothing in it passes `AmiValidateMemoryBuffer`. -/
theorem confined_iff_proper (hbuffer : P.buffer ≠ 0) :
    (Confined P.validateMemoryBuffer (capsuleBuffer P) [] (smi P B v s data p) ↔
      Proper P B s.mem data p) ∧
    (Proper P B s.mem data p → ∀ a, (∀ q n, P.validateMemoryBuffer q n = true → a < q ∨ q + n ≤ a) →
      ¬ capsuleBuffer P a → runLog s.mem (smi P B v s data p) a = s.mem a) ∧
    (loadFwImage P s p).mem = runLog s.mem (loadFwImageLog P s.mem p) ∧
    (setFlUpdMethod P v s p).mem = runLog s.mem (setFlUpdMethodLog P v s p) :=
  ⟨confined_smi hbuffer, fun hproper _ hvalid ha => ((confined_smi hbuffer).mpr hproper).frame s.mem
    (fun _ hr => absurd hr List.not_mem_nil) hvalid ha, loadFwImage_mem, setFlUpdMethod_mem⟩

/-! ## A board -/

def crbBoard : Board where
  romLayout := []
  numberOfNcb := 0
  pools := true
  projectTagLength := 8
  flashPartNumber := none
  oemActivationBlock := ⟨0, 0⟩
  crbPreBb := ⟨0x4E0000, 0x500000⟩
  crbMicrocode := ⟨0x50000, 0xC0000⟩
  flashError := false

/-- A block in flash is read to the caller's memory, SMRAM stays as it is. -/
theorem confined_readFlash_crb :
    let accesses := smi crb crbBoard ⟨true, none, true⟩ recoveryState 0x21 0x1000
    (Confined crb.validateMemoryBuffer (capsuleBuffer crb) [] accesses ↔
      Proper crb crbBoard recoveryState.mem 0x21 0x1000) ∧
    (Proper crb crbBoard recoveryState.mem 0x21 0x1000 →
      ∀ a, (∀ q n, crb.validateMemoryBuffer q n = true → a < q ∨ q + n ≤ a) →
        ¬ capsuleBuffer crb a → runLog recoveryState.mem accesses a = recoveryState.mem a) ∧
    (loadFwImage crb recoveryState 0x1000).mem
      = runLog recoveryState.mem (loadFwImageLog crb recoveryState.mem 0x1000) ∧
    (setFlUpdMethod crb ⟨true, none, true⟩ recoveryState 0x1000).mem
      = runLog recoveryState.mem (setFlUpdMethodLog crb ⟨true, none, true⟩ recoveryState 0x1000) :=
  confined_iff_proper (by decide)

/-- A `FUNC_BLOCK` in SMRAM. -/
theorem not_confined : ¬ ∀ B v s data p,
    Confined crb.validateMemoryBuffer (capsuleBuffer crb) [] (smi crb B v s data p) := by
  intro h
  have hproper := (confined_smi (by decide)).mp
    (h crbBoard ⟨true, none, true⟩ recoveryState 0x1d 0x7E000000)
  obtain hnull | ⟨-, hbuffer⟩ := hproper.load rfl
  · exact absurd hnull (by decide)
  · exact absurd hbuffer (by decide)

end BayTrail.SmiFlash
