import BayTrail.Flash.Deferred

/-!
# The flash driver: runs of the protocol

`Agrees` is the invariant: flash holds what has been written, but for the signatures that the list of updated areas says
are withheld. A call that meets its condition keeps it and gives the caller's buffer back (`call_agrees`), whatever the
call is; so every run of such calls does, from a driver that withholds nothing (`deferred_of_run`), and a read
shows what has been written (`flashDriverReadExt_agrees`).
-/

namespace BayTrail.Flash

open BayTrail.Lib

section

variable {pt : Part} {romLayout : List RomArea} {s : Driver} {m : Mem} {p n : Nat}

/-! ## Runs -/

/-- A call that meets the condition, with what has been logically written. -/
def Step (pt : Part) (romLayout : List RomArea) (x y : Driver × Mem) : Prop :=
  ∃ c : Call, c.Clean pt romLayout x.1 ∧ y = (x.1.call pt romLayout c, logical pt x.2 c)

theorem call_agrees (h : Agrees pt s m) {c : Call} (hc : c.Clean pt romLayout s) :
    Agrees pt (s.call pt romLayout c) (logical pt m c) ∧ s.KeepsBuffer pt romLayout c := by
  cases c with
  | enable => exact ⟨h, trivial⟩
  | disable => exact ⟨disable_agrees h, trivial⟩
  | erase p n => exact ⟨flashDriverEraseExt_agrees h hc, trivial⟩
  | write p n b => exact flashDriverWriteExt_agrees h hc
  | update p n b => exact flashDriverUpdateExt_agrees h hc

theorem run_agrees {x y : Driver × Mem} (h : Agrees pt x.1 x.2)
    (hrun : Relation.ReflTransGen (Step pt romLayout) x y) : Agrees pt y.1 y.2 := by
  induction hrun with
  | refl => exact h
  | tail _ hstep ih =>
    obtain ⟨c, hc, rfl⟩ := hstep
    exact (call_agrees ih hc).1

/-! ## Reads -/

/-- The condition on a read. -/
structure ReadClean (pt : Part) (s : Driver) (p size : Nat) : Prop where
  /-- no signature that is owed is read, but at the start of its volume -/
  owed : ∀ v ∈ s.updatedArea, v.restoreSignature = true →
    s.writeEnableStatus = 0 ∨ size < attributesOffset ∨ v.start ≠ p →
    ∀ a, v.signature ≤ a → a < v.signature + 4 → ¬ (p ≤ a ∧ a < p + size)
  /-- a noted volume that is read from its start has a signature that is owed, and the
  flash can take it -/
  start : s.writeEnableStatus ≠ 0 → attributesOffset ≤ size → (∃ v ∈ s.updatedArea, v.start = p) →
    ∃ v ∈ s.updatedArea, v.start = p ∧ v.restoreSignature = true ∧
      ∀ a, v.signature ≤ a → a < v.signature + 4 →
        pt.program (s.flash a) (signatureAt pt v a) = signatureAt pt v a

theorem flashDriverReadExt_agrees (h : Agrees pt s m) (hc : ReadClean pt s p n) (buffer : Mem)
    {k : Nat} (hk : k < n) : flashDriverReadExt s p n buffer k = m (p + k) := by
  have hread : poke buffer 0 (peek s.flash p n) k = s.flash (p + k) := by
    have := @poke_peek_at buffer s.flash p 0 n k hk
    rwa [Nat.zero_add] at this
  have hk' := h (p + k)
  -- where no signature of another volume is owed
  have hplain : (∀ v ∈ s.updatedArea, v.restoreSignature = true → v.start = p →
      ¬ (v.signature ≤ p + k ∧ p + k < v.signature + 4)) → s.flash (p + k) = m (p + k) := by
    intro hstart
    rw [← hk']
    refine (settle_eq fun v hv => ?_).symm
    cases hres : v.restoreSignature with
    | false => rw [owed_of_not hres, pt.empty_program]
    | true =>
      rw [owed_of_out, pt.empty_program]
      intro hsig
      by_cases hv' : v.start = p
      · exact hstart v hv hres hv' hsig
      · exact hc.owed v hv hres (Or.inr (Or.inr hv')) (p + k) hsig.1 hsig.2
          ⟨Nat.le_add_right _ _, by omega⟩
  unfold flashDriverReadExt afterRead
  by_cases hstatus : s.writeEnableStatus = 0
  · rw [if_pos hstatus, hread]
    refine hplain fun v hv hres _ hsig => ?_
    exact hc.owed v hv hres (Or.inl hstatus) (p + k) hsig.1 hsig.2
      ⟨Nat.le_add_right _ _, by omega⟩
  · rw [if_neg hstatus]
    split
    next hfix =>
      simp only [Bool.and_eq_true, List.any_eq_true, decide_eq_true_eq] at hfix
      obtain ⟨hex, hsize⟩ := hfix
      obtain ⟨v, hv, hvp, hvr, htake⟩ := hc.start hstatus hsize hex
      by_cases hin : signatureOffset ≤ k ∧ k < signatureOffset + 4
      · -- the signature: it is owed, and the flash can take it
        have hsig : v.signature ≤ p + k ∧ p + k < v.signature + 4 := by
          unfold UpdatedArea.signature
          omega
        have hbyte : poke (poke buffer 0 (peek s.flash p n)) signatureOffset fvSignature k
            = signatureAt pt v (p + k) := by
          have hpoke := holds_iff_get.mp
            (holds_poke (poke buffer 0 (peek s.flash p n)) signatureOffset fvSignature)
            (k - signatureOffset) (by change k - signatureOffset < 4; omega)
          have hidx' : signatureOffset + (k - signatureOffset) = k := by omega
          rw [hidx'] at hpoke
          rw [hpoke]
          unfold signatureAt bufferOf UpdatedArea.signature
          rw [if_pos (by unfold UpdatedArea.signature at hsig; exact hsig), hvp]
          have hsub : p + k - (p + signatureOffset) = k - signatureOffset := by omega
          rw [hsub, List.getD_eq_getElem?_getD, List.getElem?_eq_getElem
            (by change k - signatureOffset < 4; omega)]
          rfl
        obtain ⟨own, hown⟩ := List.getElem?_of_mem hv
        rw [hbyte, ← hk', settle_perm (removeArea_perm hown), settle_cons, owed_of_restore hvr,
          htake _ hsig.1 hsig.2]
        refine (settle_eq fun u hu => ?_).symm
        have hu' := mem_of_mem_removeArea hu
        cases hres : u.restoreSignature with
        | false => rw [owed_of_not hres, pt.empty_program]
        | true =>
          rw [owed_of_restore hres]
          by_cases hup : u.start = p
          · rw [signatureAt_congr (hup.trans hvp.symm), program_self]
          · have hout : ¬ (u.signature ≤ p + k ∧ p + k < u.signature + 4) := fun hsig' =>
              hc.owed u hu' hres (Or.inr (Or.inr hup)) (p + k) hsig'.1 hsig'.2
                ⟨Nat.le_add_right _ _, by omega⟩
            rw [signatureAt_out hout, pt.empty_program]
      · rw [poke_of_out (by
          have hlen : fvSignature.length = 4 := rfl
          rw [hlen]
          omega), hread]
        refine hplain fun u hu hres hup hsig => hin ?_
        unfold UpdatedArea.signature at hsig
        rw [hup] at hsig
        omega
    next hfix =>
      rw [hread]
      refine hplain fun v hv hres hvp hsig => ?_
      simp only [Bool.and_eq_true, List.any_eq_true, decide_eq_true_eq, not_and, Nat.not_le] at hfix
      exact hc.owed v hv hres (Or.inr (Or.inl (hfix ⟨v, hv, hvp⟩))) (p + k) hsig.1 hsig.2
        ⟨Nat.le_add_right _ _, by omega⟩


end

/-! ## The protocol -/

/-- In every run of calls that meet the condition, a further such call leaves the caller's
buffer as it was, a read returns what has been logically written, and the end of the
outermost enable leaves exactly that in the flash. -/
theorem deferred_of_run (pt : Part) (romLayout : List RomArea) {s₀ s : Driver} {m : Mem}
    (h₀ : s₀.updatedArea = [])
    (hrun : Relation.ReflTransGen (Step pt romLayout) (s₀, s₀.flash) (s, m)) :
    (∀ c : Call, c.Clean pt romLayout s → s.KeepsBuffer pt romLayout c)
    ∧ (∀ p n buffer, ReadClean pt s p n → ∀ k, k < n →
        flashDriverReadExt s p n buffer k = m (p + k))
    ∧ (s.writeEnableStatus = 1 → (s.call pt romLayout .disable).flash = m) := by
  have hagrees : Agrees pt s m := by
    refine run_agrees (fun a => ?_) hrun
    dsimp only
    rw [h₀, settle_nil]
  exact ⟨fun c hc => (call_agrees hagrees hc).2,
    fun p n buffer hc k hk => flashDriverReadExt_agrees hagrees hc buffer hk,
    disable_settles hagrees⟩

/-- A NOR flash: empty bytes are all ones, and programming clears bits. -/
def norPart : Part where
  empty := 0xFF
  program o d := o &&& d
  program_empty d := by
    rw [UInt8.and_comm]
    exact UInt8.and_neg_one
  empty_program _ := UInt8.and_neg_one
  program_comm o d e := by rw [UInt8.and_assoc, UInt8.and_comm d e, UInt8.and_assoc]
  program_idem o d := by rw [UInt8.and_assoc, UInt8.and_self]

/-- One volume of a block. -/
def oneVolume : List RomArea := [⟨0x1000, 0x1000, true⟩]

/-- A flash of one byte repeated, closed. -/
def closed (b : UInt8) : Driver := ⟨fun _ => b, [], 0⟩

/-- Calls in a row, with what has been logically written. -/
def runCalls (pt : Part) (romLayout : List RomArea) (calls : List Call) (s : Driver) :
    Driver × Mem :=
  calls.foldl (fun x c => (x.1.call pt romLayout c, logical pt x.2 c)) (s, s.flash)

/-- The first block of a volume of two. -/
def firstBlock : Mem := poke (poke (fun _ => 7) fvLengthOffset (leBytes 8 0x2000)) signatureOffset fvSignature

/-- The signature is withheld, and programmed at the end. -/
theorem deferred_of_run_erase :
    let x := runCalls norPart oneVolume
      [.enable, .erase 0x1000 0x1000, .write 0x1000 0x1000 firstBlock] (closed 7)
    x.1.updatedArea.map UpdatedArea.restoreSignature = [true]
      ∧ (x.1.call norPart oneVolume .disable).flash = x.2 := by
  intro x
  have hheader : isFvHeader 0x1000 firstBlock = true := by decide
  have hrun : Relation.ReflTransGen (Step norPart oneVolume) (closed 7, (closed 7).flash)
      (x.1, x.2) := by
    refine .tail (.tail (.tail .refl ⟨.enable, trivial, rfl⟩) ⟨.erase 0x1000 0x1000, ?_, rfl⟩)
      ⟨.write 0x1000 0x1000 firstBlock, fun _ => ⟨⟨?_, ?_, ?_⟩, ?_⟩, rfl⟩
    · exact fun _ v hv => absurd hv List.not_mem_nil
    · intro _ own hown
      obtain rfl := Option.some.inj (show some 0 = some own from hown)
      decide
    · exact fun h => absurd (hheader.symm.trans h) (by decide)
    · intro v hv hne
      exact absurd (by rw [List.mem_singleton.mp hv]; rfl) hne
    · exact fun h => absurd (hheader.symm.trans h) (by decide)
  obtain ⟨-, -, hdisable⟩ := deferred_of_run norPart oneVolume (s := x.1) (m := x.2) rfl hrun
  exact ⟨rfl, hdisable rfl⟩

/-- An area that is erased twice is noted twice, and a write of other data only drops one
of the two: the other one puts a signature in the caller's buffer. -/
theorem not_deferred_of_run : ¬ ∀ (pt : Part) (romLayout : List RomArea) (s₀ : Driver)
    (calls : List Call), s₀.updatedArea = [] → ∀ c : Call,
    (runCalls pt romLayout calls s₀).1.KeepsBuffer pt romLayout c := by
  intro h
  have hbuf := h norPart oneVolume (closed 0)
    [.enable, .erase 0x1000 0x1000, .erase 0x1000 0x1000] rfl (.write 0x1000 0x1000 fun _ => 0)
  have hbyte : (0x5F : UInt8) = 0 := congrFun hbuf signatureOffset
  exact absurd hbyte (by decide)

end BayTrail.Flash
