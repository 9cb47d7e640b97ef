import BayTrail.Usb.Detect
import Mathlib.Combinatorics.Pigeonhole
import Mathlib.Order.Interval.Finset.Nat

/-!
# Runs of USB devices

Whatever the driver does with a device is a step on the device table and the address map. `Kept` is what holds
between detections, and `Detecting` what holds during one. A step that meets its condition keeps them
(`runKept_step`), so they hold in every state of a run (`runKept_of_run`). Then an address is taken exactly while
a present device has it, devices have one address exactly if they are at one port, and there is a free address
(`Kept.bookkeeping`). A whole `USB_DetectNewDevice` is such steps (`detectNewDevice_leads`).
-/

namespace BayTrail.Usb

variable {s s' : State} {d : Detection} {i j fuel hub : Nat} {event : Event}

/-! ## Aborted children -/

/-- Hub addresses that `USB_AbortConnectHubChildren` comes to. -/
inductive Under (s : State) (hub : Nat) : Nat → Prop
  | self : Under s hub hub
  | next {i : Nat} (hunder : Under s hub (s.devInfo i).hubDeviceNumber) (hmem : i ∈ indices)
      (hflag : (s.devInfo i).validStruc = true ∨ (s.devInfo i).devPresent = true)
      (htype : (s.devInfo i).deviceType = .hub) : Under s hub (s.devInfo i).deviceAddress

theorem Under.trans {hub' hub'' : Nat} (h : Under s hub hub') (h' : Under s hub' hub'') :
    Under s hub hub'' := by
  induction h' with
  | self => exact h
  | next _ hmem hflag htype ih => exact .next ih hmem hflag htype

/-- `e'` is `e` without its device. -/
structure Dropped (e e' : Entry) : Prop extends SameAddress e e' where
  absent : e'.devPresent = false
  valid : e'.validStruc = true → e.validStruc = true
  dummy : e'.devDummy = e.devDummy
  type : e'.deviceType = e.deviceType

theorem Dropped.trans {e e' e'' : Entry} (h : Dropped e e') (h' : Dropped e' e'') :
    Dropped e e'' :=
  ⟨⟨h'.address.trans h.address, h'.hub.trans h.hub, h'.port.trans h.port⟩, h'.absent,
    fun hv => h.valid (h'.valid hv), h'.dummy.trans h.dummy, h'.type.trans h.type⟩

/-- Only entries of hubs of `U` have lost their devices. -/
structure Drops (U : Nat → Prop) (s s' : State) : Prop where
  temp : s'.temp = s.temp
  map : s'.deviceAddressMap = s.deviceAddressMap
  detection : s'.detection = s.detection
  entry : ∀ i, s'.devInfo i = s.devInfo i ∨
    (i ∈ indices ∧ U (s.devInfo i).hubDeviceNumber ∧
      ((s.devInfo i).validStruc = true ∨ (s.devInfo i).devPresent = true) ∧
      Dropped (s.devInfo i) (s'.devInfo i))

section
variable {U : Nat → Prop} {s'' : State}

theorem Drops.refl (s : State) : Drops U s s := ⟨rfl, rfl, rfl, fun _ => .inl rfl⟩

theorem Drops.trans (h : Drops U s s') (h' : Drops U s' s'') : Drops U s s'' := by
  refine ⟨h'.temp.trans h.temp, h'.map.trans h.map, h'.detection.trans h.detection, fun i => ?_⟩
  obtain heq | ⟨hmem, hU, hflag, hdropped⟩ := h.entry i
  · obtain heq' | ⟨hmem, hU, hflag, hdropped⟩ := h'.entry i
    · exact .inl (heq'.trans heq)
    · rw [heq] at hU hflag hdropped
      exact .inr ⟨hmem, hU, hflag, hdropped⟩
  · obtain heq' | ⟨-, -, -, hdropped'⟩ := h'.entry i
    · rw [heq']
      exact .inr ⟨hmem, hU, hflag, hdropped⟩
    · exact .inr ⟨hmem, hU, hflag, hdropped.trans hdropped'⟩

/-- Without its devices nothing more is under a hub. -/
theorem Under.of_dropped {hub' : Nat} (hunder : Under s' hub hub')
    (h : ∀ i, s'.devInfo i = s.devInfo i ∨ Dropped (s.devInfo i) (s'.devInfo i)) :
    Under s hub hub' := by
  induction hunder with
  | self => exact .self
  | @next i _ hmem hflag htype ih =>
    obtain heq | hdropped := h i
    · rw [heq] at ih hflag htype ⊢
      exact .next ih hmem hflag htype
    · rw [hdropped.hub] at ih
      rw [hdropped.type] at htype
      rw [hdropped.absent] at hflag
      rw [hdropped.address]
      exact .next ih hmem (.inl (hdropped.valid (hflag.resolve_right nofun))) htype

theorem Drops.under (h : Drops U s s') {hub' : Nat} (hunder : Under s' hub hub') :
    Under s hub hub' := by
  refine hunder.of_dropped fun i => ?_
  obtain heq | ⟨-, -, -, hdropped⟩ := h.entry i
  · exact .inl heq
  · exact .inr hdropped

end

/-- The recursion keeps to entries under its hub. -/
theorem abortConnectHubChildren_drops (fuel : Nat) : ∀ s hub s',
    abortConnectHubChildren fuel s hub = some s' → Drops (Under s hub) s s' := by
  induction fuel with
  | zero => exact fun _ _ _ hrun => absurd hrun nofun
  | succ fuel ih =>
    intro s₀ hub s' hrun
    have hloop : ∀ (l : List Nat), (∀ i ∈ l, i ∈ indices) → ∀ s,
        (∀ hub', Under s hub hub' → Under s₀ hub hub') →
        l.foldlM (fun s i =>
          let e := s.devInfo i
          if e.hubDeviceNumber = hub && (e.validStruc || e.devPresent) then
            let s := s.set i { e with
              devPresent := false
              validStruc := e.validStruc && e.massDevRegd }
            if e.deviceType = .hub then abortConnectHubChildren fuel s e.deviceAddress else some s
          else some s) s = some s' → Drops (Under s₀ hub) s s' := by
      intro l
      induction l with
      | nil =>
        intro _ s _ hrun
        obtain rfl := Option.some.inj hrun
        exact Drops.refl s
      | cons i l ihl =>
        intro hmem s hU hrun
        rw [List.foldlM_cons] at hrun
        obtain ⟨s₁, hfirst, hrest⟩ := Option.bind_eq_some_iff.mp hrun
        have hstep : Drops (Under s₀ hub) s s₁ := by
          dsimp only at hfirst
          split at hfirst
          · rename_i hcond
            rw [Bool.and_eq_true, Bool.or_eq_true, decide_eq_true_eq] at hcond
            obtain ⟨hhub, hflag⟩ := hcond
            have hunder : Under s hub (s.devInfo i).hubDeviceNumber := hhub ▸ .self
            have hset : Drops (Under s₀ hub) s (s.set i { s.devInfo i with
                devPresent := false
                validStruc := (s.devInfo i).validStruc && (s.devInfo i).massDevRegd }) := by
              refine ⟨rfl, rfl, rfl, fun j => ?_⟩
              by_cases hj : j = i
              · subst hj
                rw [devInfo_set, if_pos rfl]
                exact .inr ⟨hmem j (.head l), hU _ hunder, hflag, ⟨rfl, rfl, rfl⟩, rfl,
                  fun hv => (Bool.and_eq_true _ _ ▸ hv).1, rfl, rfl⟩
              · rw [devInfo_set, if_neg hj]
                exact .inl rfl
            split at hfirst
            · rename_i htype
              have hnext : Under s hub (s.devInfo i).deviceAddress :=
                .next hunder (hmem i (.head l)) hflag htype
              have hchildren := ih _ _ _ hfirst
              refine hset.trans ⟨hchildren.temp, hchildren.map, hchildren.detection, fun j => ?_⟩
              obtain heq | ⟨hj, hj', hjflag, hdropped⟩ := hchildren.entry j
              · exact .inl heq
              · exact .inr ⟨hj, hU _ (hnext.trans (hset.under hj')), hjflag, hdropped⟩
            · obtain rfl := Option.some.inj hfirst
              exact hset
          · obtain rfl := Option.some.inj hfirst
            exact Drops.refl s
        exact hstep.trans (ihl (fun j hj => hmem j (.tail i hj)) s₁
          (fun hub' h => hU hub' (hstep.under h)) hrest)
    exact hloop indices (fun _ => id) s₀ (fun _ => id) hrun

/-! ## Aborted devices -/

/-- What is asked of an entry that is aborted: another entry of the device stays, or the entry is
not registered and no other has the address; and if it is that of a hub, nothing is behind it. -/
structure CanAbort (s : State) (i : Nat) : Prop where
  last : Present s i →
    (∃ j, j ≠ i ∧ Present s j ∧ (s.devInfo j).deviceAddress = (s.devInfo i).deviceAddress) ∨
    ((s.devInfo i).massDevRegd = false ∧
      ∀ j ∈ indices, j ≠ i → (s.devInfo j).deviceAddress ≠ (s.devInfo i).deviceAddress)
  alone : (s.devInfo i).deviceType = .hub → ∀ j, j ≠ i → Present s j →
    ¬ Under s (s.devInfo i).deviceAddress (s.devInfo j).hubDeviceNumber

/-- What an abort leaves of an entry, before it goes to the children. -/
structure AbortsEntry (s : State) (i : Nat) (s' : State) : Prop where
  temp : s'.temp = s.temp
  detection : s'.detection = s.detection
  other : ∀ j, j ≠ i → s'.devInfo j = s.devInfo j
  dropped : ∃ e, Dropped (s.devInfo i) e ∧
    (s'.devInfo i = e ∧ s'.deviceAddressMap = s.deviceAddressMap ∨
      s'.devInfo i = { e with deviceAddress := 0 } ∧
      s'.deviceAddressMap = setBit s.deviceAddressMap (s.devInfo i).deviceAddress ∧
      ∀ j ∈ indices, j ≠ i → (s.devInfo j).deviceAddress ≠ (s.devInfo i).deviceAddress)

def dropEntry (e : Entry) : Entry :=
  { e with devPresent := false, validStruc := e.validStruc && e.massDevRegd }

theorem dropped_dropEntry (e : Entry) : Dropped e (dropEntry e) :=
  ⟨⟨rfl, rfl, rfl⟩, rfl, fun hv => (Bool.and_eq_true _ _ ▸ hv).1, rfl, rfl⟩

theorem abortsEntry_drop : AbortsEntry s i (s.set i (dropEntry (s.devInfo i))) := by
  refine ⟨rfl, rfl, fun j hne => ?_, _, dropped_dropEntry _, .inl ⟨?_, rfl⟩⟩
  · rw [devInfo_set, if_neg hne]
  · rw [devInfo_set, if_pos rfl]

/-- The address is returned unless another entry has it. -/
theorem abortsEntry_free (hne : (s.devInfo i).deviceAddress ≠ 0) :
    AbortsEntry s i (freeDeviceAddress (s.set i (dropEntry (s.devInfo i))) i) ∧
      ((∀ j ∈ indices, j ≠ i → (s.devInfo j).deviceAddress ≠ (s.devInfo i).deviceAddress) →
        ((freeDeviceAddress (s.set i (dropEntry (s.devInfo i))) i).devInfo i).deviceAddress = 0) := by
  have haddr : (dropEntry (s.devInfo i)).deviceAddress = (s.devInfo i).deviceAddress := rfl
  unfold freeDeviceAddress
  split
  · rename_i hany
    refine ⟨abortsEntry_drop, fun hnone => ?_⟩
    obtain ⟨j, hj, hcond⟩ := List.any_eq_true.mp hany
    simp only [devInfo_set, Bool.and_eq_true, decide_eq_true_eq, if_true] at hcond
    obtain ⟨hji, heq⟩ := hcond
    rw [if_neg hji, haddr] at heq
    exact absurd heq (hnone j hj hji)
  · rename_i hany
    have hnone : ∀ j ∈ indices, j ≠ i →
        (s.devInfo j).deviceAddress ≠ (s.devInfo i).deviceAddress := by
      intro j hj hji heq
      refine hany (List.any_eq_true.mpr ⟨j, hj, ?_⟩)
      simp [hji, heq, haddr]
    refine ⟨⟨by simp, by simp, fun j hji => ?_, _, dropped_dropEntry _, .inr ⟨?_, ?_, hnone⟩⟩,
      fun _ => ?_⟩
    · rw [devInfo_returnAddress, if_neg hji, devInfo_set, if_neg hji]
    · rw [devInfo_returnAddress, if_pos rfl, devInfo_set, if_pos rfl]
    · unfold returnAddress
      rw [if_pos (by simpa [haddr] using hne)]
      simp [haddr]
    · rw [devInfo_returnAddress, if_pos rfl]

/-- An abort of an entry and of its children loses entries. -/
theorem Kept.shrinks_of_abort (h : Kept (fun _ => False) none s) {s₁ : State} {U : Nat → Prop}
    (hentry : AbortsEntry s i s₁) (hdrops : Drops U s₁ s')
    (hlast : Present s i →
      (∃ j, j ≠ i ∧ Present s j ∧ (s.devInfo j).deviceAddress = (s.devInfo i).deviceAddress) ∨
      (s₁.devInfo i).deviceAddress = 0)
    (halone : ∀ j, j ≠ i → Present s j → ¬ U (s.devInfo j).hubDeviceNumber) : Shrinks s s' := by
  obtain ⟨e, he, hcase⟩ := hentry.dropped
  have hother : ∀ j, j ≠ i → s'.devInfo j = s.devInfo j ∨ Dropped (s.devInfo j) (s'.devInfo j) := by
    intro j hne
    rw [← hentry.other j hne]
    obtain heq | ⟨-, -, -, hdropped⟩ := hdrops.entry j
    · exact .inl heq
    · exact .inr hdropped
  have hpresent : ∀ j, j ≠ i → Present s j → s'.devInfo j = s.devInfo j := by
    intro j hne hj
    obtain heq | ⟨-, hU, -, -⟩ := hdrops.entry j
    · rw [heq, hentry.other j hne]
    · rw [hentry.other j hne] at hU
      exact absurd hU (halone j hne hj)
  -- what is left of the entry itself
  have hi : Dropped { s.devInfo i with deviceAddress := (s₁.devInfo i).deviceAddress } (s'.devInfo i) := by
    have h₁ : Dropped { s.devInfo i with deviceAddress := (s₁.devInfo i).deviceAddress } (s₁.devInfo i) := by
      obtain ⟨heq, -⟩ | ⟨heq, -, -⟩ := hcase
      all_goals
        rw [heq]
        exact ⟨⟨rfl, he.hub, he.port⟩, he.absent, he.valid, he.dummy, he.type⟩
    obtain heq | ⟨-, -, -, hdropped⟩ := hdrops.entry i
    · rw [heq]
      exact h₁
    · exact h₁.trans hdropped
  have hfree : ∀ X < 64, Free s' X → Free s X ∨
      (X = (s.devInfo i).deviceAddress ∧ (s'.devInfo i).deviceAddress = 0 ∧
        ∀ j ∈ indices, j ≠ i → (s.devInfo j).deviceAddress ≠ (s.devInfo i).deviceAddress) := by
    intro X hX hfree
    unfold Free at hfree
    rw [hdrops.map] at hfree
    obtain ⟨-, hmap⟩ | ⟨heq, hmap, hnone⟩ := hcase
    · rw [hmap] at hfree
      exact .inl hfree
    · rw [hmap, getLsbD_setBit _ _ hX] at hfree
      obtain hfree | hX := hfree
      · exact .inl hfree
      · exact .inr ⟨hX, by rw [hi.address, heq], hnone⟩
  have hkeep : ∀ X < 64, Free s X → Free s' X := by
    intro X hX hfree
    unfold Free
    rw [hdrops.map]
    obtain ⟨-, hmap⟩ | ⟨-, hmap, -⟩ := hcase
    · rw [hmap]
      exact hfree
    · rw [hmap, getLsbD_setBit _ _ hX]
      exact .inl hfree
  constructor
  · intro k hlive
    by_cases hk : k = i
    · subst hk
      refine ⟨⟨⟨hlive.mem, hi.valid hlive.valid, hi.dummy ▸ hlive.notDummy⟩, ?_⟩, ?_, hi.hub, hi.port⟩
      all_goals
        obtain ⟨heq, -⟩ | ⟨heq, -, -⟩ := hcase
        · have haddr : (s'.devInfo k).deviceAddress = (s.devInfo k).deviceAddress := by
            rw [hi.address, heq, he.address]
          first
            | exact haddr
            | exact haddr ▸ hlive.address_ne
        · exact absurd (by rw [hi.address, heq]) hlive.address_ne
    · obtain heq | hdropped := hother k hk
      · rw [heq]
        exact ⟨hlive.congr heq.symm, SameAddress.refl _⟩
      · exact ⟨⟨⟨hlive.mem, hdropped.valid hlive.valid, hdropped.dummy ▸ hlive.notDummy⟩,
          hdropped.address ▸ hlive.address_ne⟩, hdropped.toSameAddress⟩
  · intro k hk
    by_cases hki : k = i
    · subst hki
      exact absurd (hi.absent.symm.trans hk.present) Bool.false_ne_true
    · obtain heq | hdropped := hother k hki
      · rw [heq]
        exact ⟨hk.congr heq.symm, SameAddress.refl _⟩
      · exact absurd (hdropped.absent.symm.trans hk.present) Bool.false_ne_true
  · rintro X hX hnot ⟨k, hk, rfl⟩
    by_cases hki : k = i
    · subst hki
      obtain ⟨j, hne, hj, haddr⟩ | hzero := hlast hk
      · exact ⟨j, hj.congr (hpresent j hne hj), by rw [hpresent j hne hj, haddr]⟩
      · obtain ⟨heq, -⟩ | ⟨-, hmap, -⟩ := hcase
        · rw [heq, he.address] at hzero
          exact absurd hzero (h.addressed k hk)
        · refine absurd ?_ hnot
          unfold Free
          rw [hdrops.map, hmap, getLsbD_setBit _ _ hX]
          exact .inr rfl
    · exact ⟨k, hk.congr (hpresent k hki hk), by rw [hpresent k hki hk]⟩
  · intro X hX hXfree
    obtain hXs | ⟨rfl, hzero, hnone⟩ := hfree X hX hXfree
    · exact .inl hXs
    · refine .inr fun k hlive haddr => ?_
      by_cases hki : k = i
      · subst hki
        exact hlive.address_ne hzero
      · refine hnone k hlive.mem hki (Eq.trans ?_ haddr)
        obtain heq | hdropped := hother k hki
        · rw [heq]
        · exact hdropped.address.symm
  · exact hkeep
  · intro k _ hflag
    by_cases hki : k = i
    · subst hki
      rw [hi.absent] at hflag
      exact ⟨.inl (hi.valid (hflag.resolve_right nofun)), hi.hub, hi.dummy, hi.type⟩
    · obtain heq | hdropped := hother k hki
      · rw [heq] at hflag ⊢
        exact ⟨hflag, rfl, rfl, rfl⟩
      · rw [hdropped.absent] at hflag
        exact ⟨.inl (hdropped.valid (hflag.resolve_right nofun)), hdropped.hub, hdropped.dummy,
          hdropped.type⟩

/-- An abort only takes entries away, that of the device and those behind a hub, and the addresses they had alone. -/
theorem Kept.abort (h : Kept (fun _ => False) none s) (hmem : i ∈ indices) (hcan : CanAbort s i)
    (hrun : abortConnectDev fuel s i = some s') : Shrinks s s' ∧ s'.detection = s.detection := by
  have hdrop : { s.devInfo i with
      devPresent := false
      validStruc := (s.devInfo i).validStruc && (s.devInfo i).massDevRegd } =
      dropEntry (s.devInfo i) := rfl
  unfold abortConnectDev at hrun
  dsimp only at hrun
  rw [hdrop] at hrun
  split at hrun
  · rename_i hzero
    obtain rfl := Option.some.inj hrun
    rw [Bool.and_eq_true, decide_eq_true_eq] at hzero
    refine ⟨h.shrinks_of_abort (U := fun _ => False) abortsEntry_drop (Drops.refl _)
      (fun hp => absurd hzero.2 (h.addressed i hp)) (fun _ _ _ => id), rfl⟩
  · rename_i hnot
    obtain ⟨s₁, hs₁, hentry, hlast⟩ : ∃ s₁,
        (if (s.devInfo i).massDevRegd then s.set i (dropEntry (s.devInfo i))
          else freeDeviceAddress (s.set i (dropEntry (s.devInfo i))) i) = s₁ ∧ AbortsEntry s i s₁ ∧
        (Present s i →
          (∃ j, j ≠ i ∧ Present s j ∧ (s.devInfo j).deviceAddress = (s.devInfo i).deviceAddress) ∨
          (s₁.devInfo i).deviceAddress = 0) := by
      refine ⟨_, rfl, ?_⟩
      cases hregd : (s.devInfo i).massDevRegd
      · have hne : (s.devInfo i).deviceAddress ≠ 0 := by
          rw [hregd] at hnot
          simpa using hnot
        obtain ⟨hentry, hfree⟩ := abortsEntry_free hne
        refine ⟨hentry, fun hp => ?_⟩
        obtain hother | ⟨-, hnone⟩ := hcan.last hp
        · exact .inl hother
        · exact .inr (hfree hnone)
      · refine ⟨abortsEntry_drop, fun hp => ?_⟩
        obtain hother | ⟨hregd', -⟩ := hcan.last hp
        · exact .inl hother
        · rw [hregd] at hregd'
          exact absurd hregd'.symm Bool.false_ne_true
    rw [hs₁] at hrun
    split at hrun
    · rename_i htype
      have hdrops := abortConnectHubChildren_drops fuel _ _ _ hrun
      refine ⟨h.shrinks_of_abort hentry hdrops hlast ?_, hdrops.detection.trans hentry.detection⟩
      intro j hne hj hunder
      obtain ⟨e, he, ⟨heq, hmap⟩ | ⟨heq, -, -⟩⟩ := hentry.dropped
      · -- the children are those of the address
        have hunder := hunder.of_dropped (s := s) fun k => by
          by_cases hk : k = i
          · subst hk
            exact .inr (heq ▸ he)
          · exact .inl (hentry.other k hk)
        rw [heq, he.address] at hunder
        exact hcan.alone htype j hne hj hunder
      · -- nothing is at hub 0
        have hzero : ∀ hub, Under s₁ 0 hub → hub = 0 := by
          intro hub hunder
          induction hunder with
          | self => rfl
          | @next k _ hk hflag htype' ih =>
            have hnumbered : (s.devInfo k).validStruc = true ∨ (s.devInfo k).devPresent = true →
                (s.devInfo k).hubDeviceNumber = 0 → (s.devInfo k).deviceType ≠ .hub := by
              intro hflag hhub
              obtain hne | ⟨-, hne⟩ := h.numbered k hk hflag
              · exact absurd hhub hne
              · exact hne
            by_cases hki : k = i
            · subst hki
              rw [heq] at hflag htype' ih
              rw [he.absent] at hflag
              exact absurd (he.type.symm.trans htype')
                (hnumbered (.inl (he.valid (hflag.resolve_right nofun))) (he.hub.symm.trans ih))
            · rw [hentry.other k hki] at hflag htype' ih
              exact absurd htype' (hnumbered hflag ih)
        rw [heq] at hunder
        exact absurd (hzero _ hunder) (h.hubsNumbered j hj.toListed)
    · obtain rfl := Option.some.inj hrun
      exact ⟨h.shrinks_of_abort (U := fun _ => False) hentry (Drops.refl _) hlast
        (fun _ _ _ => id), hentry.detection⟩

/-! ## Flags -/

theorem shrinks_changeFlags (hlast : ∀ j, event = .unregister j → ¬ Present s i) :
    Shrinks s (s.set i (changeFlags (s.devInfo i) event)) := by
  have hkey : SameAddress (s.devInfo i) (changeFlags (s.devInfo i) event) ∧
      (changeFlags (s.devInfo i) event).devDummy = (s.devInfo i).devDummy ∧
      (changeFlags (s.devInfo i) event).deviceType = (s.devInfo i).deviceType ∧
      (changeFlags (s.devInfo i) event).devPresent = (s.devInfo i).devPresent ∧
      ((changeFlags (s.devInfo i) event).validStruc = true → (s.devInfo i).validStruc = true) := by
    cases event
    case unlock => exact ⟨⟨rfl, rfl, rfl⟩, rfl, rfl, rfl, fun hv => (Bool.and_eq_true _ _ ▸ hv).1⟩
    case unregister => exact ⟨⟨rfl, rfl, rfl⟩, rfl, rfl, rfl, nofun⟩
    all_goals exact ⟨⟨rfl, rfl, rfl⟩, rfl, rfl, rfl, id⟩
  have hvalid : Present s i → (changeFlags (s.devInfo i) event).validStruc = true := by
    intro hp
    cases event with
    | unregister j => exact absurd hp (hlast j rfl)
    | unlock => simp [changeFlags, hp.valid, hp.present]
    | _ => exact hp.valid
  obtain ⟨hsame, hdummy, htype, hpresent, hsub⟩ := hkey
  have hother : ∀ k, k ≠ i → (s.set i (changeFlags (s.devInfo i) event)).devInfo k = s.devInfo k := by
    intro k hk
    rw [devInfo_set, if_neg hk]
  have hself : (s.set i (changeFlags (s.devInfo i) event)).devInfo i =
      changeFlags (s.devInfo i) event := by
    rw [devInfo_set, if_pos rfl]
  constructor
  · intro k hlive
    by_cases hk : k = i
    · subst hk
      rw [hself]
      obtain ⟨⟨hmem, hv, hd⟩, hne⟩ := hlive
      rw [hself] at hv hd hne
      exact ⟨⟨⟨hmem, hsub hv, hdummy ▸ hd⟩, hsame.address ▸ hne⟩, hsame⟩
    · rw [hother k hk]
      exact ⟨hlive.congr (hother k hk).symm, SameAddress.refl _⟩
  · intro k hp
    by_cases hk : k = i
    · subst hk
      rw [hself]
      obtain ⟨⟨hmem, hv, hd⟩, hpr⟩ := hp
      rw [hself] at hv hd hpr
      exact ⟨⟨⟨hmem, hsub hv, hdummy ▸ hd⟩, hpresent ▸ hpr⟩, hsame⟩
    · rw [hother k hk]
      exact ⟨hp.congr (hother k hk).symm, SameAddress.refl _⟩
  · rintro X _ _ ⟨k, hp, haddr⟩
    refine ⟨k, ?_⟩
    by_cases hk : k = i
    · subst hk
      rw [hself, hsame.address]
      refine ⟨⟨⟨hp.mem, ?_, ?_⟩, ?_⟩, haddr⟩
      · rw [hself]
        exact hvalid hp
      · rw [hself, hdummy]
        exact hp.notDummy
      · rw [hself, hpresent]
        exact hp.present
    · rw [hother k hk]
      exact ⟨hp.congr (hother k hk), haddr⟩
  · exact fun _ _ => .inl
  · exact fun _ _ => id
  · intro k _ hflag
    by_cases hk : k = i
    · subst hk
      rw [hself] at hflag ⊢
      rw [hpresent] at hflag
      exact ⟨hflag.imp hsub id, hsame.hub, hdummy, htype⟩
    · rw [hother k hk] at hflag ⊢
      exact ⟨hflag, rfl, rfl, rfl⟩

/-! ## Detections as steps -/

/-- The states that steps lead to from `s`. -/
def Leads (fuel : Nat) (s s' : State) : Prop := ∃ events : List Event, events.foldlM (step fuel) s = some s'

theorem Leads.refl (s : State) : Leads fuel s s := ⟨[], rfl⟩

theorem Leads.trans {s'' : State} (h : Leads fuel s s') (h' : Leads fuel s' s'') :
    Leads fuel s s'' := by
  obtain ⟨events, hrun⟩ := h
  obtain ⟨events', hrun'⟩ := h'
  refine ⟨events ++ events', ?_⟩
  rw [List.foldlM_append, hrun]
  exact hrun'

theorem leads_step (event : Event) (h : step fuel s event = some s') : Leads fuel s s' := by
  refine ⟨[event], ?_⟩
  rw [List.foldlM_cons, h]
  rfl

theorem createLogicalUnit_detection {lun : Nat} (h : createLogicalUnit s i lun = some s') :
    s'.detection = s.detection := by
  unfold createLogicalUnit at h
  split at h
  · exact absurd h nofun
  · obtain ⟨j, -, rfl⟩ := Option.map_eq_some_iff.mp h
    dsimp only
    split <;> rfl

theorem createLogicalUnits_leads (luns : List Nat) : ∀ s, s.detection = some d → d.unitsOf = some i →
    Leads fuel s (createLogicalUnits s i luns) ∧
      (createLogicalUnits s i luns).detection = some d := by
  induction luns with
  | nil => exact fun s hd _ => ⟨Leads.refl s, hd⟩
  | cons lun luns ih =>
    intro s hd hunits
    unfold createLogicalUnits
    cases hunit : createLogicalUnit s i lun with
    | none => exact ⟨Leads.refl s, hd⟩
    | some s₁ =>
      have hd₁ := (createLogicalUnit_detection hunit).trans hd
      obtain ⟨hleads, hd'⟩ := ih s₁ hd₁ hunits
      refine ⟨(leads_step (.logicalUnit lun) ?_).trans hleads, hd'⟩
      unfold step
      rw [hd]
      dsimp only
      rw [hunits]
      exact hunit

theorem detectUnits_leads (maxLun : Nat) (hd : s.detection = some d) :
    Leads fuel s (detectUnits s d maxLun) ∧ (detectUnits s d maxLun).detection = some d := by
  unfold detectUnits
  cases hunits : d.unitsOf with
  | none => exact ⟨Leads.refl s, hd⟩
  | some i => exact createLogicalUnits_leads _ s hd hunits

theorem configureInterfaces_leads {d' : Detection} (itfs : List Interface) : ∀ s d,
    s.detection = some d → configureInterfaces fuel s d itfs = some (s', d') →
    Leads fuel s s' ∧ s'.detection = some d' := by
  induction itfs with
  | nil =>
    intro s d hd hrun
    obtain ⟨rfl, rfl⟩ := Prod.mk.inj (Option.some.inj hrun)
    exact ⟨Leads.refl s, hd⟩
  | cons itf itfs ih =>
    intro s d hd hrun
    unfold configureInterfaces at hrun
    obtain ⟨s₁, hdetect, hrun⟩ := Option.bind_eq_some_iff.mp hrun
    obtain ⟨d₁, hd₁, hrun⟩ := Option.bind_eq_some_iff.mp hrun
    have hfirst : Leads fuel s s₁ := leads_step (.interface itf) (by
      unfold step
      rw [hd]
      exact hdetect)
    obtain ⟨hleads, hd₂⟩ : Leads fuel s₁ (detectUnits s₁ d₁ itf.maxLun) ∧ _ :=
      detectUnits_leads itf.maxLun hd₁
    dsimp only at hrun
    split at hrun
    · obtain ⟨rfl, rfl⟩ := Prod.mk.inj (Option.some.inj hrun)
      exact ⟨hfirst.trans hleads, hd₂⟩
    · obtain ⟨hrest, hd'⟩ := ih _ d₁ hd₂ hrun
      exact ⟨hfirst.trans (hleads.trans hrest), hd'⟩

theorem configureDevices_leads {d' : Detection} (configs : List (List Interface)) : ∀ s d,
    s.detection = some d → configureDevices fuel s d configs = some (s', d') →
    Leads fuel s s' ∧ s'.detection = some d' := by
  induction configs with
  | nil =>
    intro s d hd hrun
    obtain ⟨rfl, rfl⟩ := Prod.mk.inj (Option.some.inj hrun)
    exact ⟨Leads.refl s, hd⟩
  | cons config configs ih =>
    intro s d hd hrun
    unfold configureDevices at hrun
    obtain ⟨⟨s₁, d₁⟩, hconfig, hrun⟩ := Option.bind_eq_some_iff.mp hrun
    obtain ⟨hfirst, hd₁⟩ := configureInterfaces_leads config s d hd hconfig
    dsimp only at hrun
    split at hrun
    · obtain ⟨rfl, rfl⟩ := Prod.mk.inj (Option.some.inj hrun)
      exact ⟨hfirst, hd₁⟩
    · obtain ⟨hrest, hd'⟩ := ih s₁ d₁ hd₁ hrun
      exact ⟨hfirst.trans hrest, hd'⟩

/-- `USB_DetectNewDevice` takes the steps of a detection. -/
theorem detectNewDevice_leads {port speed : Nat} {device : Device} (hd : s.detection = none)
    (hrun : detectNewDevice fuel s hub port speed device = some s') : Leads fuel s s' := by
  have hstart : Leads fuel s
      (startDetection s hub port speed device.answers device.vendorId device.deviceId) :=
    leads_step (.start hub port speed device.answers device.vendorId device.deviceId) (by
      unfold step
      rw [hd])
  unfold detectNewDevice at hrun
  dsimp only at hrun
  split at hrun
  · obtain rfl := Option.some.inj hrun
    exact hstart
  · rename_i d hd₁
    obtain ⟨⟨s₁, d₁⟩, hdevices, hrun⟩ := Option.bind_eq_some_iff.mp hrun
    obtain ⟨hleads, hd'⟩ := configureDevices_leads device.configs _ d hd₁ hdevices
    refine hstart.trans (hleads.trans (leads_step .complete ?_))
    unfold step
    rw [hd']
    exact hrun

/-! ## Runs -/

/-- What `AmiUsbDriverEntryPoint` leaves of the table and the map: only the entries that the host controller protocol uses
for itself may be valid. -/
structure Initial (s : State) : Prop where
  detection : s.detection = none
  map : s.deviceAddressMap = ~~~1#64
  entry : ∀ i ∈ indices, if (s.devInfo i).devDummy then (s.devInfo i).deviceType ≠ .hub
    else (s.devInfo i).validStruc = false ∧ (s.devInfo i).devPresent = false

/-- States that steps lead to from an initial one; `Can` is what holds of each step. -/
inductive Run (Can : State → Event → Prop) : State → Prop
  | initial {s : State} (h : Initial s) : Run Can s
  | step {s s' : State} {fuel : Nat} {event : Event} (hrun : Run Can s) (hcan : Can s event)
      (hstep : step fuel s event = some s') : Run Can s'

/-- What is asked of a step. -/
def CanStep (s : State) : Event → Prop
  | .start hubAddr _ _ _ _ _ => hubAddr ≠ 0
  | .interface itf => CanConfigure s itf
  | .logicalUnit lun => ∀ d i, s.detection = some d → d.unitsOf = some i →
      ∀ j, getProperDeviceInfoStructure s (s.devInfo i) lun = some j → CanAdd s j
  | .complete => ∀ d, s.detection = some d → CanComplete s d
  | .abort i => CanAbort s i
  | .unregister i => ¬ Present s i
  | _ => True

/-- What holds in a run: between detections, and during one. -/
def RunKept (s : State) : Prop :=
  (s.detection = none → Kept (fun _ => False) none s) ∧ ∀ d, s.detection = some d → Detecting s d

/-- An entry that a step leaves present was so before, at the same port with the same address,
or is one of the device that is being detected. -/
def KeepsAddresses (s s' : State) : Prop :=
  ∀ i, Present s' i → (Present s i ∧ SameAddress (s.devInfo i) (s'.devInfo i)) ∨
    (s'.detection ≠ none ∧ AtTemp s' (s'.devInfo i))

theorem runKept_none (hd : s.detection = none) (h : Kept (fun _ => False) none s) : RunKept s :=
  ⟨fun _ => h, fun _ hd' => absurd (hd.symm.trans hd') nofun⟩

theorem runKept_some (hd : s.detection = some d) (h : Detecting s d) : RunKept s :=
  ⟨fun hd' => absurd (hd'.symm.trans hd) nofun, fun d' hd' => by
    obtain rfl := Option.some.inj (hd.symm.trans hd')
    exact h⟩

theorem runKept_initial (h : Initial s) : RunKept s := by
  have hlisted : ∀ i, ¬ Listed s i := by
    intro i hlisted
    have hentry := h.entry i hlisted.mem
    rw [hlisted.notDummy, if_neg Bool.false_ne_true, hlisted.valid] at hentry
    exact absurd hentry.1 nofun
  refine runKept_none h.detection ⟨?_, ?_, ?_, ?_, ?_, ?_, ?_⟩
  · intro i hmem hflag
    have hentry := h.entry i hmem
    cases hdummy : (s.devInfo i).devDummy
    · rw [hdummy, if_neg Bool.false_ne_true] at hentry
      rw [hentry.1, hentry.2] at hflag
      exact absurd hflag (by simp)
    · rw [hdummy, if_pos rfl] at hentry
      exact .inr ⟨rfl, hentry⟩
  · exact fun i hi => absurd hi.toListed (hlisted i)
  · exact fun i hi => absurd hi.toListed (hlisted i)
  · exact fun i hi => absurd hi.toListed (hlisted i)
  · intro X hpos hX hnot
    refine absurd ?_ hnot
    unfold Free
    rw [h.map, BitVec.getLsbD_not, BitVec.getLsbD_one]
    simp
    omega
  · exact fun i _ hi => absurd hi.toListed (hlisted i)
  · exact fun i _ hi => absurd hi.toListed (hlisted i)

theorem keeps_of_goes (h : Goes s s') (hd : s'.detection ≠ none) : KeepsAddresses s s' := by
  intro i hp
  obtain hsame | hat := h.moves i hp
  · exact .inl hsame
  · refine .inr ⟨hd, ?_⟩
    unfold AtTemp
    rw [h.hub, h.port]
    exact hat

theorem keeps_of_eq (h : s'.devInfo = s.devInfo) : KeepsAddresses s s' := by
  intro i hp
  refine .inl ⟨hp.congr (congrFun h i).symm, ?_⟩
  rw [h]
  exact SameAddress.refl _

/-- Entries are lost, and nothing else happens. -/
theorem runKept_shrink (h : RunKept s) (hd : s.detection = none) (hs : Shrinks s s')
    (hd' : s'.detection = s.detection) : RunKept s' ∧ KeepsAddresses s s' :=
  ⟨runKept_none (hd'.trans hd) ((h.1 hd).shrink (fun _ _ _ => id) hs),
    fun i hp => .inl (hs.present i hp)⟩

/-- The step lemma: between detections a step keeps `Kept`, and during one `Detecting`; their start and end lead from one
to the other. -/
theorem runKept_step (h : RunKept s) (hcan : CanStep s event)
    (hstep : step fuel s event = some s') : RunKept s' ∧ KeepsAddresses s s' := by
  cases hd : s.detection with
  | none =>
    have hkept := h.1 hd
    cases event with
    | start hubAddr hubPort speed answers vendorId deviceId =>
      unfold step at hstep
      rw [hd] at hstep
      have heq := (Option.some.inj hstep).symm
      have hkeeps : KeepsAddresses s s' := keeps_of_eq (by
        rw [heq]
        unfold startDetection
        split <;> rfl)
      obtain ⟨hd', hkept'⟩ | ⟨d, hd', h'⟩ := hkept.startDetection hcan hd heq
      · exact ⟨runKept_none hd' hkept', hkeeps⟩
      · exact ⟨runKept_some hd' h', hkeeps⟩
    | disconnect hubAddr hcPort =>
      unfold step at hstep
      rw [hd] at hstep
      have hstops := (stopDevice_stops fuel s _ _ s' hkept.hubsNumbered hstep).1
      exact runKept_shrink h hd (hkept.shrinks_of_stops hstops) hstops.detection
    | abort i =>
      unfold step at hstep
      rw [hd] at hstep
      dsimp only at hstep
      split at hstep
      · rename_i hmem
        obtain ⟨hshrinks, hd'⟩ := hkept.abort hmem hcan hstep
        exact runKept_shrink h hd hshrinks hd'
      · exact absurd hstep nofun
    | lock i =>
      unfold step at hstep
      rw [hd] at hstep
      obtain rfl := Option.some.inj hstep
      exact runKept_shrink h hd (shrinks_changeFlags nofun) rfl
    | unlock i =>
      unfold step at hstep
      rw [hd] at hstep
      obtain rfl := Option.some.inj hstep
      exact runKept_shrink h hd (shrinks_changeFlags nofun) rfl
    | register i =>
      unfold step at hstep
      rw [hd] at hstep
      obtain rfl := Option.some.inj hstep
      exact runKept_shrink h hd (shrinks_changeFlags nofun) rfl
    | unregister i =>
      unfold step at hstep
      rw [hd] at hstep
      obtain rfl := Option.some.inj hstep
      exact runKept_shrink h hd (shrinks_changeFlags fun _ _ => hcan) rfl
    | _ =>
      unfold step at hstep
      rw [hd] at hstep
      exact absurd hstep nofun
  | some d =>
    have hdetecting := h.2 d hd
    cases event with
    | interface itf =>
      unfold step at hstep
      rw [hd] at hstep
      obtain ⟨d', hd', h', hgoes⟩ := hdetecting.detectInterface hcan hstep
      exact ⟨runKept_some hd' h', keeps_of_goes hgoes (by simp [hd'])⟩
    | logicalUnit lun =>
      unfold step at hstep
      rw [hd] at hstep
      obtain ⟨i, hunits, hrun⟩ := Option.bind_eq_some_iff.mp hstep
      obtain ⟨hd', h', hgoes⟩ := hdetecting.createLogicalUnit hunits (hcan d i hd hunits) hrun
      rw [hd] at hd'
      exact ⟨runKept_some hd' h', keeps_of_goes hgoes (by simp [hd'])⟩
    | complete =>
      unfold step at hstep
      rw [hd] at hstep
      obtain ⟨hd', hkept, heq⟩ := hdetecting.complete (hcan d hd) (Option.some.inj hstep).symm
      exact ⟨runKept_none hd' hkept, keeps_of_eq heq⟩
    | _ =>
      unfold step at hstep
      rw [hd] at hstep
      exact absurd hstep nofun

theorem runKept_of_run (h : Run CanStep s) : RunKept s := by
  induction h with
  | initial h => exact runKept_initial h
  | step _ hcan hstep ih => exact (runKept_step ih hcan hstep).1

/-! ## Addresses -/

/-- The addresses whose bits are clear are those of present devices; an address is that of the
device at one port; and one more device can have an address. -/
structure Bookkeeping (s : State) : Prop where
  taken : ∀ X, 1 ≤ X → X < 64 →
    (¬ Free s X ↔ ∃ i, Present s i ∧ (s.devInfo i).deviceAddress = X)
  ports : ∀ i j, Present s i → Present s j →
    ((s.devInfo i).deviceAddress = (s.devInfo j).deviceAddress ↔
      SamePort (s.devInfo i) (s.devInfo j))
  free : ∃ address, freeAddress s.deviceAddressMap = some address

/-- There are fewer entries than addresses. -/
theorem Kept.exists_free (h : Kept (fun _ => False) none s) :
    ∃ address, freeAddress s.deviceAddressMap = some address := by
  by_contra hnone
  have hall : ∀ X ∈ Finset.Icc 1 63, ¬ Free s X := by
    intro X hX hfree
    rw [Finset.mem_Icc] at hX
    have hmem : X ∈ List.range' 1 63 := List.mem_range'_1.mpr ⟨hX.1, by omega⟩
    have hsome : (freeAddress s.deviceAddressMap).isSome := List.find?_isSome.mpr ⟨X, hmem, hfree⟩
    exact hnone (Option.isSome_iff_exists.mp hsome)
  have hused : ∀ X ∈ Finset.Icc 1 63, ∃ i, Present s i ∧ (s.devInfo i).deviceAddress = X := by
    intro X hX
    have hX' := Finset.mem_Icc.mp hX
    obtain hpending | hused := h.inUse X hX'.1 (by omega) (hall X hX)
    · exact absurd hpending nofun
    · exact hused
  choose! entry hentry using hused
  have hmaps : ∀ X ∈ Finset.Icc 1 63, entry X ∈ Finset.Icc 1 54 := by
    intro X hX
    have hmem := (hentry X hX).1.mem
    unfold indices at hmem
    rw [List.mem_range'_1] at hmem
    rw [Finset.mem_Icc]
    have hmax : maxDevices = 55 := rfl
    omega
  obtain ⟨X, hX, Y, hY, hne, heq⟩ := Finset.exists_ne_map_eq_of_card_lt_of_maps_to
    (by simp) hmaps
  have haddr := (hentry X hX).2
  rw [heq, (hentry Y hY).2] at haddr
  exact hne haddr.symm

theorem Kept.bookkeeping (h : Kept (fun _ => False) none s) : Bookkeeping s where
  taken X hpos hX := by
    constructor
    · intro hnot
      obtain hpending | hused := h.inUse X hpos hX hnot
      · exact absurd hpending nofun
      · exact hused
    · rintro ⟨i, hp, rfl⟩ hfree
      exact h.taken i (h.live hp) hfree
  ports i j hi hj :=
    ⟨fun heq => h.apart i j (h.live hi) (h.live hj) heq, fun hport =>
      h.common i j hi hj hport nofun nofun⟩
  free := h.exists_free

/-- The addresses in runs whose steps each keep them. `USB_DetectNewDevice` takes steps of a run. -/
theorem addresses_of_run (h : Run CanStep s) :
    (s.detection = none → Bookkeeping s) ∧
      (∀ fuel event s', CanStep s event → step fuel s event = some s' → KeepsAddresses s s') ∧
      ∀ fuel hub port speed device s', s.detection = none →
        detectNewDevice fuel s hub port speed device = some s' → Leads fuel s s' :=
  ⟨fun hd => ((runKept_of_run h).1 hd).bookkeeping, fun _ _ _ hcan hstep =>
    (runKept_step (runKept_of_run h) hcan hstep).2, fun _ _ _ _ _ _ => detectNewDevice_leads⟩

/-! A keyboard with a second interface, in an empty table. -/

def emptyState : State where
  devInfo _ := emptyEntry
  temp := emptyEntry
  deviceAddressMap := ~~~1#64
  detection := none

def keyboard (interfaceNum : Nat) (outcome : Outcome) : Interface where
  interfaceNum := interfaceNum
  baseClass := baseClassHid
  driver := some .hid
  outcome := outcome
  hubNumPorts := 0
  skippedPort := none
  maxLun := 0

def startKeyboard : Event := .start 0x81 1 1 true 0x46d 0xc31c

theorem initial_emptyState : Initial emptyState := ⟨rfl, rfl, fun _ _ => ⟨rfl, rfl⟩⟩

theorem run_get {Can : State → Event → Prop} (hrun : Run Can s) (hcan : Can s event)
    (h : (step fuel s event).isSome = true) : Run Can ((step fuel s event).get h) :=
  .step hrun hcan (Option.some_get h).symm

theorem canGet_of_invalid (h : (s.devInfo i).validStruc = false) : CanGet s i :=
  ⟨fun hp => absurd (h.symm.trans hp.valid) Bool.false_ne_true,
    fun hvalid => absurd (h.symm.trans hvalid) Bool.false_ne_true⟩

theorem addresses_keyboard : ∃ s, Run CanStep s ∧ s.detection = none ∧ Present s 1 ∧ Present s 2 ∧
    (s.devInfo 1).deviceAddress = 1 ∧ Bookkeeping s := by
  let s₁ := (step 1 emptyState startKeyboard).get (by decide +kernel)
  have h₁ : Run CanStep s₁ :=
    run_get (.initial initial_emptyState) (show 0x81 ≠ 0 by decide) (by decide +kernel)
  let s₂ := (step 1 s₁ (.interface (keyboard 0 .configured))).get (by decide +kernel)
  have h₂ : Run CanStep s₂ := by
    have hcan : CanStep s₁ (.interface (keyboard 0 .configured)) := by
      show CanConfigure s₁ (keyboard 0 .configured)
      refine ⟨fun _ _ => nofun, fun i _ hget => canGet_of_invalid ?_⟩
      have hi : getProperDeviceInfoStructure (identify s₁ (keyboard 0 .configured))
          (identify s₁ (keyboard 0 .configured)).temp 0 = some 1 := by decide +kernel
      obtain rfl := Option.some.inj (hi.symm.trans hget)
      decide +kernel
    exact run_get h₁ hcan (by decide +kernel)
  let s₃ := (step 1 s₂ (.interface (keyboard 1 .configured))).get (by decide +kernel)
  have h₃ : Run CanStep s₃ := by
    have hcan : CanStep s₂ (.interface (keyboard 1 .configured)) := by
      show CanConfigure s₂ (keyboard 1 .configured)
      refine ⟨fun _ _ => nofun, fun i _ hget => canGet_of_invalid ?_⟩
      have hi : getProperDeviceInfoStructure (identify s₂ (keyboard 1 .configured))
          (identify s₂ (keyboard 1 .configured)).temp 0 = some 2 := by decide +kernel
      obtain rfl := Option.some.inj (hi.symm.trans hget)
      decide +kernel
    exact run_get h₂ hcan (by decide +kernel)
  have hcomplete : ∀ i ∈ indices, (s₃.devInfo i).validStruc = true →
      (s₃.devInfo i).deviceAddress = s₃.temp.deviceAddress := by decide +kernel
  let s₄ := (step 1 s₃ .complete).get (by decide +kernel)
  have h₄ : Run CanStep s₄ := by
    have hcan : CanStep s₃ .complete := by
      intro d hd
      have hd' : s₃.detection = some { devConfigured := true, unitsOf := some 2 } := by
        decide +kernel
      obtain rfl := Option.some.inj (hd'.symm.trans hd)
      exact fun i hi _ => hcomplete i hi.mem hi.valid
    exact run_get h₃ hcan (by decide +kernel)
  have hnone : s₄.detection = none := by decide +kernel
  exact ⟨s₄, h₄, hnone, ⟨⟨by decide +kernel, by decide +kernel, by decide +kernel⟩, by decide +kernel⟩,
    ⟨⟨by decide +kernel, by decide +kernel, by decide +kernel⟩, by decide +kernel⟩, by decide +kernel,
    (addresses_of_run h₄).1 hnone⟩

/-- A device whose only interface is not configured leaves its entry, and its address is free. -/
theorem not_addresses : ¬ ∀ s, Run (fun _ _ => True) s → s.detection = none → Bookkeeping s := by
  intro h
  let s₁ := (step 1 emptyState startKeyboard).get (by decide +kernel)
  have h₁ : Run (fun _ _ => True) s₁ :=
    run_get (.initial initial_emptyState) trivial (by decide +kernel)
  let s₂ := (step 1 s₁ (.interface (keyboard 0 (.failed .hid)))).get (by decide +kernel)
  have h₂ : Run (fun _ _ => True) s₂ := run_get h₁ trivial (by decide +kernel)
  let s₃ := (step 1 s₂ .complete).get (by decide +kernel)
  have h₃ : Run (fun _ _ => True) s₃ := run_get h₂ trivial (by decide +kernel)
  have hpresent : Present s₃ 1 :=
    ⟨⟨by decide +kernel, by decide +kernel, by decide +kernel⟩, by decide +kernel⟩
  have haddress : (s₃.devInfo 1).deviceAddress = 1 := by decide +kernel
  have hfree : s₃.deviceAddressMap.getLsbD 1 = true := by decide +kernel
  have htaken := (h s₃ h₃ (by decide +kernel)).taken 1 le_rfl (by decide)
  exact htaken.mpr ⟨1, hpresent, haddress⟩ hfree

end BayTrail.Usb
