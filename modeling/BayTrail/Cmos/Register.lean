import BayTrail.Cmos.Access

/-!
# Registers of the CMOS manager

Where an access to a register ends, and what a write leaves of the other registers.
-/

namespace BayTrail.Cmos

variable {mgr : Mgr} {st st' : State} {f g : Flag} {r : Nat} {type : AccessType}

/-! ## Places -/

inductive Location where
  | register (cell : Nat)
  | default (i : Nat)
  deriving DecidableEq

/-- Where an access to a register ends, if not in an error. -/
def location (mgr : Mgr) (st : State) (type : AccessType) (address : Nat) : Option Location :=
  if useBufferAccess mgr st address then
    if bufferRefuses mgr address then none else some (.default (bufferIndex mgr address))
  else (cmosBank type address mgr.cmosBank).map .register

def State.get (st : State) : Location → BitVec 8
  | .register cell => st.cells cell
  | .default i => st.optimalDefaultTable i

def State.store (st : State) (value : BitVec 8) : Location → State
  | .register cell => { st with cells := poke st.cells cell value }
  | .default i => { st with optimalDefaultTable := poke st.optimalDefaultTable i value }

@[simp] theorem store_status (l : Location) (value : BitVec 8) :
    (st.store value l).status = st.status := by
  cases l <;> rfl

theorem get_store (l l' : Location) (value : BitVec 8) :
    (st.store value l).get l' = if l' = l then value else st.get l' := by
  cases l <;> cases l' <;> simp [State.store, State.get, poke]

@[simp] theorem get_set (l : Location) : (st.set f).get l = st.get l := by
  cases l <;> rfl

@[simp] theorem get_clear (l : Location) : (st.clear f).get l = st.get l := by
  cases l <;> rfl

@[simp] theorem status_set : (st.set f).status g = (g = f || st.status g) := rfl

@[simp] theorem status_clear : (st.clear f).status g = (g ≠ f && st.status g) := rfl

/-! ## Routing -/

/-- Accesses go the same ways, with the same care for the checksum. -/
structure Routed (st st' : State) : Prop where
  optimalDefaultsEnabled :
    st'.status .optimalDefaultsEnabled = st.status .optimalDefaultsEnabled
  isUsable : st'.status .isUsable = st.status .isUsable
  recoverOnlyChecksummed :
    st'.status .recoverOnlyChecksummed = st.status .recoverOnlyChecksummed
  forceNoChecksum : st'.status .forceNoChecksum = st.status .forceNoChecksum

theorem Routed.refl (st : State) : Routed st st := ⟨rfl, rfl, rfl, rfl⟩

theorem Routed.trans {st'' : State} (h : Routed st st') (h' : Routed st' st'') : Routed st st'' :=
  ⟨h'.1.trans h.1, h'.2.trans h.2, h'.3.trans h.3, h'.4.trans h.4⟩

theorem useBufferAccess_congr (hopt : st'.status .optimalDefaultsEnabled
      = st.status .optimalDefaultsEnabled) (husable : st'.status .isUsable = st.status .isUsable)
    (hrecover : st'.status .recoverOnlyChecksummed = st.status .recoverOnlyChecksummed) :
    useBufferAccess mgr st' = useBufferAccess mgr st := by
  funext address
  unfold useBufferAccess
  rw [hopt, husable, hrecover]

theorem location_congr (h : useBufferAccess mgr st' = useBufferAccess mgr st) :
    location mgr st' = location mgr st := by
  funext type address
  unfold location
  rw [h]

theorem Routed.location (h : Routed st st') : location mgr st' = location mgr st :=
  location_congr (useBufferAccess_congr h.1 h.2 h.3)

/-- With `CMOS_FORCE_NO_CHECKSUM` or `CMOS_ADDRESS_IS_CHECKSUMMED` set or cleared, accesses go where
they went. -/
theorem location_set (h : f = .forceNoChecksum ∨ f = .addressIsChecksummed) :
    location mgr (st.set f) = location mgr st := by
  apply location_congr
  apply useBufferAccess_congr <;> obtain rfl | rfl := h <;> rfl

theorem location_store (l : Location) (value : BitVec 8) :
    location mgr (st.store value l) = location mgr st := by
  apply location_congr
  apply useBufferAccess_congr <;> rw [store_status]

/-! ## Reading and writing -/

theorem cmosReadRegister_eq {l : Location} (h : location mgr st .readType r = some l)
    (parameter : BitVec 8) : cmosReadRegister mgr st r parameter = st.get l := by
  unfold location at h
  unfold cmosReadRegister
  split at h
  · rename_i hbuffer
    rw [if_pos hbuffer]
    split at h
    · exact absurd h nofun
    · rename_i hrefuses
      rw [if_neg hrefuses]
      obtain rfl := Option.some.inj h
      rfl
  · rename_i hbuffer
    rw [if_neg hbuffer]
    unfold bankRead
    cases hbank : cmosBank .readType r mgr.cmosBank with
    | none =>
      rw [hbank] at h
      exact absurd h nofun
    | some cell =>
      rw [hbank] at h
      obtain rfl := Option.some.inj h
      rfl

/-- What is stored at the end of a write to a register. -/
def storeAt (value : BitVec 8) (st : State) : Option Location → State
  | none => st
  | some l => st.store value l

/-- A write either is refused, or goes on with some old value of the register: the one that is
read, when reading it is no error. -/
theorem cmosWriteRegister_cases (mgr : Mgr) (st : State) (r : Nat)
    (writeChecksum : State → BitVec 16 → State) (bits parameter : BitVec 8) :
    (location mgr st .writeType r = none ∧
      cmosWriteRegister mgr writeChecksum st r bits parameter = st) ∨
    ∃ old, (∀ l, location mgr st .readType r = some l → old = st.get l) ∧
      cmosWriteRegister mgr writeChecksum st r bits parameter =
        writeRegister mgr writeChecksum (fun st' v => storeAt v st' (location mgr st .writeType r))
          old st r bits parameter := by
  unfold cmosWriteRegister
  by_cases hbuffer : useBufferAccess mgr st r
  · rw [if_pos hbuffer]
    unfold cmosBufferWrite
    by_cases hrefuses : bufferRefuses mgr r
    · refine Or.inl ⟨?_, if_pos hrefuses⟩
      unfold location
      rw [if_pos hbuffer, if_pos hrefuses]
    · have hloc : ∀ type, location mgr st type r = some (.default (bufferIndex mgr r)) := by
        intro type
        unfold location
        rw [if_pos hbuffer, if_neg hrefuses]
      rw [if_neg hrefuses, hloc]
      refine Or.inr ⟨_, fun l hl => ?_, rfl⟩
      rw [hloc] at hl
      obtain rfl := Option.some.inj hl
      rfl
  · have hloc : ∀ type, location mgr st type r = (cmosBank type r mgr.cmosBank).map .register := by
      intro type
      unfold location
      rw [if_neg hbuffer]
    rw [if_neg hbuffer]
    refine Or.inr ⟨bankRead mgr st r, fun l hl => ?_, ?_⟩
    · rw [← cmosReadRegister_eq hl 0]
      unfold cmosReadRegister
      rw [if_neg hbuffer]
    · unfold cmosPhysicalWrite
      congr 1
      funext st' value
      rw [hloc]
      unfold bankWrite
      cases cmosBank .writeType r mgr.cmosBank <;> rfl

end BayTrail.Cmos
