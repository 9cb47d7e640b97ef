import BayTrail.Usb.Stop

/-!
# Addresses of USB devices

An address is taken exactly by the entries of a device, from its detection until the last of
them is gone: `Kept`, with one detection that may be pending. Steps that only let go of entries
keep it (`Kept.shrink`); those of a detection are in `Usb.Detect`.
-/

namespace BayTrail.Usb

variable {s s' : State} {i j hub port : Nat} {O : Entry → Prop} {pending : Option Nat}

/-! ## The bookkeeping -/

/-- Addresses and entries agree. `pending` is an address that a device has been given before its
first entry; at the ports of `O` addresses have been taken back from entries that are still to
be given to the device. -/
structure Kept (O : Entry → Prop) (pending : Option Nat) (s : State) : Prop where
  numbered : ∀ i ∈ indices, (s.devInfo i).validStruc = true ∨ (s.devInfo i).devPresent = true →
    (s.devInfo i).hubDeviceNumber ≠ 0 ∨
      ((s.devInfo i).devDummy = true ∧ (s.devInfo i).deviceType ≠ .hub)
  range : ∀ i, Live s i → (s.devInfo i).deviceAddress < 64
  addressed : ∀ i, Present s i → (s.devInfo i).deviceAddress ≠ 0
  taken : ∀ i, Live s i → Free s (s.devInfo i).deviceAddress → O (s.devInfo i)
  inUse : ∀ X, 1 ≤ X → X < 64 → ¬ Free s X →
    pending = some X ∨ ∃ i, Present s i ∧ (s.devInfo i).deviceAddress = X
  apart : ∀ i j, Live s i → Live s j → (s.devInfo i).deviceAddress = (s.devInfo j).deviceAddress →
    SamePort (s.devInfo i) (s.devInfo j)
  common : ∀ i j, Present s i → Present s j → SamePort (s.devInfo i) (s.devInfo j) →
    pending ≠ some (s.devInfo i).deviceAddress → pending ≠ some (s.devInfo j).deviceAddress →
    (s.devInfo i).deviceAddress = (s.devInfo j).deviceAddress

theorem Kept.live (h : Kept O pending s) (hpresent : Present s i) : Live s i :=
  ⟨hpresent.toListed, h.addressed i hpresent⟩

theorem Kept.hubsNumbered (h : Kept O pending s) : HubsNumbered s := by
  intro i hlisted
  obtain hne | ⟨hdummy, -⟩ := h.numbered i hlisted.mem (.inl hlisted.valid)
  · exact hne
  · rw [hlisted.notDummy] at hdummy
    exact absurd hdummy Bool.false_ne_true

/-- What two entries need to have in common for the addresses. -/
structure SameAddress (e e' : Entry) : Prop where
  address : e'.deviceAddress = e.deviceAddress
  hub : e'.hubDeviceNumber = e.hubDeviceNumber
  port : e'.hubPortNumber = e.hubPortNumber

theorem SameAddress.refl (e : Entry) : SameAddress e e := ⟨rfl, rfl, rfl⟩

theorem SameAddress.samePort {e₁ e₂ e₁' e₂' : Entry} (h₁ : SameAddress e₁ e₁')
    (h₂ : SameAddress e₂ e₂') : SamePort e₁' e₂' ↔ SamePort e₁ e₂ := by
  unfold SamePort Entry.At
  rw [h₁.hub, h₁.port, h₂.hub, h₂.port]

/-- From `s` to `s'` entries are only lost, and the address of the last one is free. -/
structure Shrinks (s s' : State) : Prop where
  live : ∀ i, Live s' i → Live s i ∧ SameAddress (s.devInfo i) (s'.devInfo i)
  present : ∀ i, Present s' i → Present s i ∧ SameAddress (s.devInfo i) (s'.devInfo i)
  last : ∀ X < 64, ¬ Free s' X → (∃ i, Present s i ∧ (s.devInfo i).deviceAddress = X) →
    ∃ i, Present s' i ∧ (s'.devInfo i).deviceAddress = X
  free : ∀ X < 64, Free s' X → Free s X ∨ ∀ i, Live s' i → (s'.devInfo i).deviceAddress ≠ X
  keep : ∀ X < 64, Free s X → Free s' X
  numbered : ∀ i ∈ indices, (s'.devInfo i).validStruc = true ∨ (s'.devInfo i).devPresent = true →
    ((s.devInfo i).validStruc = true ∨ (s.devInfo i).devPresent = true) ∧
    (s'.devInfo i).hubDeviceNumber = (s.devInfo i).hubDeviceNumber ∧
    (s'.devInfo i).devDummy = (s.devInfo i).devDummy ∧
    (s'.devInfo i).deviceType = (s.devInfo i).deviceType

/-- Losing entries keeps the agreement. -/
theorem Kept.shrink (h : Kept O pending s)
    (hO : ∀ e e', SameAddress e e' → O e → O e') (hs : Shrinks s s') : Kept O pending s' where
  numbered i hmem hflag := by
    obtain ⟨hflag', hhub, hdummy, htype⟩ := hs.numbered i hmem hflag
    rw [hhub, hdummy, htype]
    exact h.numbered i hmem hflag'
  range i hlive := by
    obtain ⟨hlive', hsame⟩ := hs.live i hlive
    rw [hsame.address]
    exact h.range i hlive'
  addressed i hpresent := by
    obtain ⟨hpresent', hsame⟩ := hs.present i hpresent
    rw [hsame.address]
    exact h.addressed i hpresent'
  taken i hlive hfree := by
    obtain ⟨hlive', hsame⟩ := hs.live i hlive
    have hlt : (s'.devInfo i).deviceAddress < 64 := hsame.address ▸ h.range i hlive'
    obtain hfree' | hnone := hs.free _ hlt hfree
    · exact hO _ _ hsame (h.taken i hlive' (hsame.address ▸ hfree'))
    · exact absurd rfl (hnone i hlive)
  inUse X hpos hlt hnot := by
    obtain hpending | hused := h.inUse X hpos hlt fun hfree => hnot (hs.keep X hlt hfree)
    · exact .inl hpending
    · exact .inr (hs.last X hlt hnot hused)
  apart i j hi hj heq := by
    obtain ⟨hi', hsi⟩ := hs.live i hi
    obtain ⟨hj', hsj⟩ := hs.live j hj
    rw [hsi.address, hsj.address] at heq
    exact (hsi.samePort hsj).mpr (h.apart i j hi' hj' heq)
  common i j hi hj hport hpi hpj := by
    obtain ⟨hi', hsi⟩ := hs.present i hi
    obtain ⟨hj', hsj⟩ := hs.present j hj
    rw [hsi.address] at hpi ⊢
    rw [hsj.address] at hpj ⊢
    exact h.common i j hi' hj' ((hsi.samePort hsj).mp hport) hpi hpj

/-- A stop loses entries. -/
theorem Kept.shrinks_of_stops (h : Kept O pending s) {B : Nat → Prop}
    (hs : Stops B (fun _ => False) s s') : Shrinks s s' where
  live i hlive := by
    rw [hs.eq_of_address hlive.address_ne]
    exact ⟨hs.live_of hlive, SameAddress.refl _⟩
  present i hpresent := by
    rw [hs.eq_of_present hpresent.present]
    exact ⟨hs.present_of hpresent, SameAddress.refl _⟩
  last X hX hnot := by
    rintro ⟨i, hpresent, rfl⟩
    obtain heq | ⟨-, -, hgone⟩ := hs.entry i
    · exact ⟨i, hpresent.congr heq, congrArg _ heq⟩
    · exact absurd ((hs.free _ hX).mpr (.inr ⟨i, h.live hpresent, rfl, hgone.address⟩)) hnot
  free X hX hfree := by
    obtain hfree | ⟨i, hlive, rfl, hzero⟩ := (hs.free X hX).mp hfree
    · exact .inl hfree
    · refine .inr fun j hj haddr => ?_
      -- the entries with the address of one that is gone are gone
      have heq := hs.eq_of_address hj.address_ne
      have hlivej := hs.live_of hj
      have hsame := h.apart j i hlivej hlive (by rw [← haddr, heq])
      exact hj.address_ne (hs.whole i j hlive hzero hlivej.toListed hsame id).address
  keep X hX hfree := (hs.free X hX).mpr (.inl hfree)
  numbered i _ hflag := by
    obtain heq | ⟨hlisted, -, hgone⟩ := hs.entry i
    · rw [heq] at hflag ⊢
      exact ⟨hflag, rfl, rfl, rfl⟩
    · exact ⟨.inl hlisted.valid, hgone.hub, hgone.dummy, hgone.type⟩

/-! ## Detection -/

/-- The device that is detected is at the port of the entry. -/
def AtTemp (s : State) (e : Entry) : Prop := e.At s.temp.hubDeviceNumber s.temp.hubPortNumber

/-- A detection is under way. -/
structure Detecting (s : State) (d : Detection) : Prop where
  kept : Kept (AtTemp s) (some s.temp.deviceAddress) s
  pos : 1 ≤ s.temp.deviceAddress
  lt : s.temp.deviceAddress < 64
  taken : ¬ Free s s.temp.deviceAddress
  own : ∀ i, Live s i → (s.devInfo i).deviceAddress = s.temp.deviceAddress → AtTemp s (s.devInfo i)
  hub : s.temp.hubDeviceNumber ≠ 0
  configured : d.devConfigured = true →
    ∃ i, Present s i ∧ (s.devInfo i).deviceAddress = s.temp.deviceAddress
  returned : ∀ i, Live s i → Free s (s.devInfo i).deviceAddress →
    ∃ j, Live s j ∧ (s.devInfo j).deviceAddress = s.temp.deviceAddress
  units : ∀ i, d.unitsOf = some i →
    Present s i ∧ (s.devInfo i).deviceAddress = s.temp.deviceAddress

/-- The entry is one of the device that is detected. -/
structure Own (s : State) (e : Entry) : Prop where
  valid : e.validStruc = true
  present : e.devPresent = true
  notDummy : e.devDummy = false
  address : e.deviceAddress = s.temp.deviceAddress
  at_temp : AtTemp s e

/-- `s'` is `s` with entry `j` given to the device. The address that the entry had is free, or
another entry still has it. -/
structure Placed (s : State) (j : Nat) (s' : State) : Prop where
  mem : j ∈ indices
  own : Own s (s'.devInfo j)
  other : ∀ i, i ≠ j → s'.devInfo i = s.devInfo i
  address : s'.temp.deviceAddress = s.temp.deviceAddress
  hub : s'.temp.hubDeviceNumber = s.temp.hubDeviceNumber
  port : s'.temp.hubPortNumber = s.temp.hubPortNumber
  here : Present s j → AtTemp s (s.devInfo j)
  free : ∀ X < 64, Free s' X → Free s X ∨
    (Present s j ∧ X = (s.devInfo j).deviceAddress ∧ X ≠ s.temp.deviceAddress)
  keep : ∀ X < 64, Free s X → Free s' X
  released : Present s j → (s.devInfo j).deviceAddress = s.temp.deviceAddress ∨
    Free s' (s.devInfo j).deviceAddress ∨
    ∃ i, i ≠ j ∧ Present s i ∧ (s.devInfo i).deviceAddress = (s.devInfo j).deviceAddress

section
variable {d d' : Detection}

theorem Placed.present_own (h : Placed s j s') : Present s' j :=
  ⟨⟨h.mem, h.own.valid, h.own.notDummy⟩, h.own.present⟩

theorem Placed.atTemp (h : Placed s j s') (e : Entry) : AtTemp s' e ↔ AtTemp s e := by
  unfold AtTemp
  rw [h.hub, h.port]

/-- Entries other than the one that is given away are as they were. -/
theorem Placed.live_other (h : Placed s j s') (hlive : Live s' i) (hne : i ≠ j) : Live s i :=
  hlive.congr (h.other i hne).symm

theorem Placed.present_other (h : Placed s j s') (hpresent : Present s' i) (hne : i ≠ j) :
    Present s i :=
  hpresent.congr (h.other i hne).symm

/-- Giving an entry to the device keeps the agreement. -/
theorem Detecting.placed (h : Detecting s d) (hp : Placed s j s')
    (hunits : ∀ i, d'.unitsOf = some i → i = j ∨ d.unitsOf = some i) : Detecting s' d' := by
  have hown := hp.own
  have hnot : ¬ Free s' s.temp.deviceAddress := by
    intro hfree
    obtain hfree | ⟨-, -, hne⟩ := hp.free _ h.lt hfree
    · exact h.taken hfree
    · exact hne rfl
  have hlivej : Live s' j := ⟨hp.present_own.toListed, by
    rw [hown.address]
    exact Nat.one_le_iff_ne_zero.mp h.pos⟩
  -- an entry whose address has been taken back is at the port
  have htaken : ∀ i, i ≠ j → Live s' i → Free s' (s'.devInfo i).deviceAddress →
      AtTemp s (s'.devInfo i) := by
    intro i hne hlive hfree
    have hlive' := hp.live_other hlive hne
    rw [hp.other i hne] at hfree ⊢
    obtain hfree | ⟨hpresent, heq, -⟩ := hp.free _ (h.kept.range i hlive') hfree
    · exact h.kept.taken i hlive' hfree
    · have hsame := h.kept.apart i j hlive' (h.kept.live hpresent) heq
      have hhere := hp.here hpresent
      exact ⟨hsame.1.trans hhere.1, hsame.2.trans hhere.2⟩
  have hkept : Kept (AtTemp s') (some s'.temp.deviceAddress) s' := by
    rw [hp.address]
    constructor
    · intro i hmem hflag
      by_cases hij : i = j
      · subst hij
        rw [hown.at_temp.1]
        exact .inl h.hub
      · rw [hp.other i hij] at hflag ⊢
        exact h.kept.numbered i hmem hflag
    · intro i hlive
      by_cases hij : i = j
      · subst hij
        rw [hown.address]
        exact h.lt
      · rw [hp.other i hij]
        exact h.kept.range i (hp.live_other hlive hij)
    · intro i hpresent
      by_cases hij : i = j
      · subst hij
        exact hlivej.address_ne
      · rw [hp.other i hij]
        exact h.kept.addressed i (hp.present_other hpresent hij)
    · intro i hlive hfree
      rw [hp.atTemp]
      by_cases hij : i = j
      · subst hij
        exact hown.at_temp
      · exact htaken i hij hlive hfree
    · intro X hpos hX hnotX
      obtain hpending | ⟨i, hpresent, rfl⟩ :=
        h.kept.inUse X hpos hX fun hfree => hnotX (hp.keep X hX hfree)
      · exact .inl hpending
      · by_cases hij : i = j
        · subst hij
          obtain heq | hfree | ⟨k, hne, hk, heq⟩ := hp.released hpresent
          · exact .inl (congrArg some heq.symm)
          · exact absurd hfree hnotX
          · exact .inr ⟨k, hk.congr (hp.other k hne), by rw [hp.other k hne, heq]⟩
        · exact .inr ⟨i, hpresent.congr (hp.other i hij), by rw [hp.other i hij]⟩
    · intro i k hi hk heq
      -- entries with the address of the device are at its port
      have hport : ∀ i, Live s' i → (s'.devInfo i).deviceAddress = s.temp.deviceAddress →
          AtTemp s (s'.devInfo i) := by
        intro i hlive haddr
        by_cases hij : i = j
        · subst hij
          exact hown.at_temp
        · rw [hp.other i hij] at haddr ⊢
          exact h.own i (hp.live_other hlive hij) haddr
      by_cases hij : i = j
      · subst hij
        have hk' := hport k hk (heq ▸ hown.address)
        exact ⟨hown.at_temp.1.trans hk'.1.symm, hown.at_temp.2.trans hk'.2.symm⟩
      · by_cases hkj : k = j
        · subst hkj
          have hi' := hport i hi (heq.trans hown.address)
          exact ⟨hi'.1.trans hown.at_temp.1.symm, hi'.2.trans hown.at_temp.2.symm⟩
        · rw [hp.other i hij, hp.other k hkj] at heq ⊢
          exact h.kept.apart i k (hp.live_other hi hij) (hp.live_other hk hkj) heq
    · intro i k hi hk hsame hpi hpk
      by_cases hij : i = j
      · subst hij
        exact absurd (congrArg some hown.address.symm) hpi
      · by_cases hkj : k = j
        · subst hkj
          exact absurd (congrArg some hown.address.symm) hpk
        · rw [hp.other i hij] at hsame hpi ⊢
          rw [hp.other k hkj] at hsame hpk ⊢
          exact h.kept.common i k (hp.present_other hi hij) (hp.present_other hk hkj) hsame hpi hpk
  refine ⟨hkept, ?_, ?_, ?_, ?_, ?_, ?_, ?_, ?_⟩
  · rw [hp.address]
    exact h.pos
  · rw [hp.address]
    exact h.lt
  · rw [hp.address]
    exact hnot
  · intro i hlive haddr
    rw [hp.address] at haddr
    rw [hp.atTemp]
    by_cases hij : i = j
    · subst hij
      exact hown.at_temp
    · rw [hp.other i hij] at haddr ⊢
      exact h.own i (hp.live_other hlive hij) haddr
  · rw [hp.hub]
    exact h.hub
  · intro _
    exact ⟨j, hp.present_own, hown.address.trans hp.address.symm⟩
  · intro _ _ _
    exact ⟨j, hlivej, hown.address.trans hp.address.symm⟩
  · intro i hi
    by_cases hij : i = j
    · subst hij
      exact ⟨hp.present_own, hown.address.trans hp.address.symm⟩
    · obtain ⟨hpresent, haddr⟩ := h.units i ((hunits i hi).resolve_left hij)
      exact ⟨hpresent.congr (hp.other i hij), by rw [hp.other i hij, haddr, hp.address]⟩

/-- Losing entries keeps the agreement, if the device keeps its own. -/
theorem Detecting.shrink (h : Detecting s d) (hs : Shrinks s s') (htemp : s'.temp = s.temp)
    (hunits : d'.unitsOf = none) (hconfigured : d'.devConfigured = d.devConfigured)
    (hown : ∀ i, Live s i → (s.devInfo i).deviceAddress = s.temp.deviceAddress →
      s'.devInfo i = s.devInfo i)
    (htaken : ¬ Free s' s.temp.deviceAddress) : Detecting s' d' := by
  have hatTemp : AtTemp s' = AtTemp s := by
    unfold AtTemp
    rw [htemp]
  have hO : ∀ e e', SameAddress e e' → AtTemp s e → AtTemp s e' := by
    intro e e' hsame hat
    exact ⟨hsame.hub.trans hat.1, hsame.port.trans hat.2⟩
  constructor
  · rw [hatTemp, htemp]
    exact h.kept.shrink hO hs
  · rw [htemp]
    exact h.pos
  · rw [htemp]
    exact h.lt
  · rw [htemp]
    exact htaken
  · intro i hlive haddr
    obtain ⟨hlive', hsame⟩ := hs.live i hlive
    rw [htemp, hsame.address] at haddr
    rw [hatTemp]
    exact hO _ _ hsame (h.own i hlive' haddr)
  · rw [htemp]
    exact h.hub
  · intro hd
    obtain ⟨i, hpresent, haddr⟩ := h.configured (hconfigured ▸ hd)
    have heq := hown i (h.kept.live hpresent) haddr
    exact ⟨i, hpresent.congr heq, by rw [heq, haddr, htemp]⟩
  · intro i hlive hfree
    obtain ⟨hlive', hsame⟩ := hs.live i hlive
    have hlt : (s'.devInfo i).deviceAddress < 64 := hsame.address ▸ h.kept.range i hlive'
    obtain hfree' | hnone := hs.free _ hlt hfree
    · obtain ⟨j, hj, haddr⟩ := h.returned i hlive' (hsame.address ▸ hfree')
      have heq := hown j hj haddr
      exact ⟨j, hj.congr heq, by rw [heq, haddr, htemp]⟩
    · exact absurd rfl (hnone i hlive)
  · intro i hi
    rw [hunits] at hi
    exact absurd hi nofun

end

end BayTrail.Usb
