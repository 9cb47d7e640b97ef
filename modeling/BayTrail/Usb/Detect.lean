import BayTrail.Usb.Address

/-!
# Detected devices

The steps of a detection give entries to one device, at one address, and take the address back
if no interface of it is configured. `Detecting` is what holds meanwhile: `Kept` with the device's
address pending, which is taken, and by its own entries alone. Each step has a condition
(`CanGet`, `CanConfigure`, `CanAdd`) under which it stays so, and `CanComplete` leads back to `Kept`.
-/

namespace BayTrail.Usb

variable {s s' s'' : State} {d d' : Detection} {i j fuel hub port : Nat} {itf : Interface}

/-! ## Entries that move -/

/-- An entry that is present was so before, with its address, or is now at the port. -/
def Moves (hub port : Nat) (s s' : State) : Prop :=
  ∀ i, Present s' i → (Present s i ∧ SameAddress (s.devInfo i) (s'.devInfo i)) ∨
    (s'.devInfo i).At hub port

theorem Moves.of_eq (h : s'.devInfo = s.devInfo) : Moves hub port s s' := by
  intro i hpresent
  refine .inl ⟨hpresent.congr (congrFun h i).symm, ?_⟩
  rw [h]
  exact SameAddress.refl _

theorem Moves.trans (h : Moves hub port s s') (h' : Moves hub port s' s'') :
    Moves hub port s s'' := by
  intro i hpresent
  obtain ⟨hpresent', hsame'⟩ | hat := h' i hpresent
  · obtain ⟨hpresent'', hsame⟩ | hat := h i hpresent'
    · exact .inl ⟨hpresent'', hsame'.address.trans hsame.address, hsame'.hub.trans hsame.hub,
        hsame'.port.trans hsame.port⟩
    · exact .inr ⟨hsame'.hub.trans hat.1, hsame'.port.trans hat.2⟩
  · exact .inr hat

theorem Shrinks.moves (h : Shrinks s s') : Moves hub port s s' :=
  fun i hpresent => .inl (h.present i hpresent)

theorem Placed.moves (h : Placed s j s') :
    Moves s.temp.hubDeviceNumber s.temp.hubPortNumber s s' := by
  intro i hpresent
  by_cases hij : i = j
  · subst hij
    exact .inr h.own.at_temp
  · refine .inl ⟨h.present_other hpresent hij, ?_⟩
    rw [h.other i hij]
    exact SameAddress.refl _

/-! ## The temporary entry -/

/-- The temporary entry is for the same device at the same address. -/
structure SameTemp (s s' : State) : Prop where
  devInfo : s'.devInfo = s.devInfo
  map : s'.deviceAddressMap = s.deviceAddressMap
  address : s'.temp.deviceAddress = s.temp.deviceAddress
  hub : s'.temp.hubDeviceNumber = s.temp.hubDeviceNumber
  port : s'.temp.hubPortNumber = s.temp.hubPortNumber

theorem SameTemp.shrinks (h : SameTemp s s') : Shrinks s s' := by
  have hfree : ∀ X, Free s' X ↔ Free s X := by
    intro X
    unfold Free
    rw [h.map]
  constructor
  · intro i hlive
    refine ⟨hlive.congr (congrFun h.devInfo i).symm, ?_⟩
    rw [h.devInfo]
    exact SameAddress.refl _
  · intro i hpresent
    refine ⟨hpresent.congr (congrFun h.devInfo i).symm, ?_⟩
    rw [h.devInfo]
    exact SameAddress.refl _
  · rintro X _ _ ⟨i, hpresent, haddr⟩
    exact ⟨i, hpresent.congr (congrFun h.devInfo i), by rw [h.devInfo, haddr]⟩
  · intro X _ hX
    exact .inl ((hfree X).mp hX)
  · intro X _ hX
    exact (hfree X).mpr hX
  · intro i _ hflag
    rw [h.devInfo] at hflag ⊢
    exact ⟨hflag, rfl, rfl, rfl⟩

theorem Detecting.sameTemp (h : Detecting s d) (hs : SameTemp s s') : Detecting s' d := by
  have hatTemp : AtTemp s' = AtTemp s := by
    unfold AtTemp
    rw [hs.hub, hs.port]
  have hlive : ∀ i, Live s' i → Live s i := fun i hi => hi.congr (congrFun hs.devInfo i).symm
  have hpresent : ∀ i, Present s i → Present s' i := fun i hi => hi.congr (congrFun hs.devInfo i)
  have hfree : Free s' = Free s := by
    unfold Free
    rw [hs.map]
  constructor
  · rw [hatTemp, hs.address]
    refine h.kept.shrink (fun e e' hsame hat => ?_) hs.shrinks
    exact ⟨hsame.hub.trans hat.1, hsame.port.trans hat.2⟩
  · rw [hs.address]
    exact h.pos
  · rw [hs.address]
    exact h.lt
  · rw [hs.address, hfree]
    exact h.taken
  · intro i hi
    rw [hatTemp, hs.devInfo, hs.address]
    exact h.own i (hlive i hi)
  · rw [hs.hub]
    exact h.hub
  · intro hd
    obtain ⟨i, hi, haddr⟩ := h.configured hd
    exact ⟨i, hpresent i hi, by rw [hs.devInfo, hs.address, haddr]⟩
  · intro i hi
    rw [hfree, hs.devInfo, hs.address]
    intro hX
    obtain ⟨j, hj, haddr⟩ := h.returned i (hlive i hi) hX
    exact ⟨j, hj.congr (congrFun hs.devInfo j), haddr⟩
  · intro i hi
    obtain ⟨hi', haddr⟩ := h.units i hi
    exact ⟨hpresent i hi', by rw [hs.devInfo, hs.address, haddr]⟩

theorem sameTemp_identify : SameTemp s (identify s itf) := by
  unfold identify
  cases itf.driver <;> exact ⟨rfl, rfl, rfl, rfl, rfl⟩

/-! ## Lookups -/

variable {lun : Nat} {e : Entry} {result pending : Option Nat} {O : Entry → Prop}

/-- The entry for a device is one of the table, free or of the device. -/
theorem getProper_spec {dev : Entry}
    (h : getProperDeviceInfoStructure s dev lun = some i) :
    i ∈ indices ∧ (s.devInfo i).devDummy = false ∧
      ((s.devInfo i).devPresent = true → (s.devInfo i).validStruc = true →
        (s.devInfo i).At dev.hubDeviceNumber dev.hubPortNumber) := by
  unfold getProperDeviceInfoStructure at h
  split at h
  · rename_i k hfind
    obtain rfl := Option.some.inj h
    have hprop := List.find?_some hfind
    refine ⟨List.mem_of_find?_eq_some hfind, ?_⟩
    simp only [isAbandoned, Bool.and_eq_true, Bool.not_eq_true', Bool.and_eq_false_imp,
      Bool.or_eq_false_iff, decide_eq_false_iff_not, not_not] at hprop
    exact ⟨hprop.1.1.1, fun hpresent _ => hprop.1.2 hpresent⟩
  · have hprop := List.find?_some h
    refine ⟨List.mem_of_find?_eq_some h, ?_⟩
    simp only [Bool.and_eq_true, Bool.not_eq_true'] at hprop
    refine ⟨hprop.1, fun _ hvalid => ?_⟩
    rw [hprop.2] at hvalid
    exact absurd hvalid Bool.false_ne_true

/-! ## Stops on the way -/

theorem Detecting.stops (h : Detecting s d) {B : Nat → Prop} (hs : Stops B (fun _ => False) s s')
    (hB : ¬ B s.temp.hubDeviceNumber) : Detecting s' { d with unitsOf := none } := by
  have hown : ∀ i, Live s i → (s.devInfo i).deviceAddress = s.temp.deviceAddress →
      s'.devInfo i = s.devInfo i := by
    intro i hlive haddr
    obtain heq | ⟨-, hhub, -⟩ := hs.entry i
    · exact heq
    · rw [(h.own i hlive haddr).1] at hhub
      exact absurd hhub hB
  refine h.shrink (h.kept.shrinks_of_stops hs) hs.temp rfl rfl hown ?_
  rw [hs.free _ h.lt]
  rintro (hfree | ⟨i, hlive, haddr, hzero⟩)
  · exact h.taken hfree
  · rw [hown i hlive haddr] at hzero
    exact hlive.address_ne hzero

/-! ## Entries that are given -/

theorem own_connectEntry {temp : Entry} (haddress : temp.deviceAddress = s.temp.deviceAddress)
    (hhub : temp.hubDeviceNumber = s.temp.hubDeviceNumber)
    (hport : temp.hubPortNumber = s.temp.hubPortNumber) (hdummy : e.devDummy = false) :
    Own s (connectEntry temp e) := by
  unfold connectEntry
  split
  · exact ⟨rfl, rfl, hdummy, haddress, hhub, hport⟩
  · exact ⟨rfl, rfl, rfl, haddress, hhub, hport⟩

/-- The entries of the device may change in what does not matter for addresses. -/
theorem Detecting.update (h : Detecting s d) (hmem : j ∈ indices)
    (hj : Own s (s.devInfo j)) (he : Own s e) (hunits : ∀ i, d'.unitsOf = some i → i = j ∨ d.unitsOf = some i) :
    Detecting (s.set j e) d' := by
  refine h.placed (j := j) ⟨hmem, ?_, ?_, rfl, rfl, rfl, fun _ => hj.at_temp, fun X _ => .inl,
    fun X _ => id, fun _ => .inl hj.address⟩ hunits
  · rw [devInfo_set, if_pos rfl]
    exact ⟨he.valid, he.present, he.notDummy, he.address, he.at_temp⟩
  · intro i hne
    rw [devInfo_set, if_neg hne]

theorem moves_set (he : AtTemp s e) :
    Moves s.temp.hubDeviceNumber s.temp.hubPortNumber s (s.set j e) := by
  intro i hpresent
  by_cases hij : i = j
  · subst hij
    rw [devInfo_set, if_pos rfl]
    exact .inr he
  · have heq : (s.set j e).devInfo i = s.devInfo i := by
      rw [devInfo_set, if_neg hij]
    refine .inl ⟨hpresent.congr heq.symm, ?_⟩
    rw [heq]
    exact SameAddress.refl _

/-- What is asked of an entry that an interface is to get: it is not yet one of the device, and
if it is that of a hub, the device is not behind this hub. -/
structure CanGet (s : State) (i : Nat) : Prop where
  notOwn : Present s i → (s.devInfo i).deviceAddress ≠ s.temp.deviceAddress
  notBelow : (s.devInfo i).validStruc = true → (s.devInfo i).deviceDriver = some .hub →
    ¬ Below s (s.devInfo i).deviceAddress s.temp.hubDeviceNumber

/-- A free entry is given to the device. -/
theorem place_free (hget : getProperDeviceInfoStructure s s.temp 0 = some i)
    (hvalid : (s.devInfo i).validStruc = false) :
    Placed s i (s.set i (connectEntry s.temp (s.devInfo i))) := by
  obtain ⟨hmem, hdummy, -⟩ := getProper_spec hget
  have hnot : ¬ Present s i := by
    intro hpresent
    rw [hpresent.valid] at hvalid
    exact absurd hvalid.symm Bool.false_ne_true
  refine ⟨hmem, ?_, ?_, rfl, rfl, rfl, fun hp => absurd hp hnot, fun _ _ => .inl, fun _ _ => id,
    fun hp => absurd hp hnot⟩
  · rw [devInfo_set, if_pos rfl]
    exact own_connectEntry rfl rfl rfl hdummy
  · intro j hne
    rw [devInfo_set, if_neg hne]

theorem devInfo_takeOver : (takeOver s i).devInfo j =
    if j = i then
      connectEntry s.temp
        (if (s.devInfo i).devPresent then { s.devInfo i with deviceAddress := 0 } else s.devInfo i)
    else s.devInfo j := by
  unfold takeOver
  cases (s.devInfo i).devPresent
  · simp
  · simp only [if_true, devInfo_set, temp_returnAddress, devInfo_returnAddress]
    split <;> rfl

@[simp] theorem temp_takeOver : (takeOver s i).temp = s.temp := by
  unfold takeOver
  cases (s.devInfo i).devPresent <;> simp

theorem free_takeOver {X : Nat} (hX : X < 64) : Free (takeOver s i) X ↔
    Free s X ∨ ((s.devInfo i).devPresent = true ∧ (s.devInfo i).deviceAddress ≠ 0 ∧
      X = (s.devInfo i).deviceAddress) := by
  unfold takeOver
  cases (s.devInfo i).devPresent
  · simp [Free]
  · rw [if_pos rfl, and_iff_right rfl]
    exact free_returnAddress hX

/-- The entry of a device that is taken over, once it has been stopped. -/
theorem Detecting.place_abandoned (h : Detecting s d) (hmem : i ∈ indices)
    (hdummy : (s.devInfo i).devDummy = false)
    (hvalid : (s.devInfo i).devPresent = true → (s.devInfo i).validStruc = true)
    (hhere : Present s i → AtTemp s (s.devInfo i))
    (hnot : Present s i → (s.devInfo i).deviceAddress ≠ s.temp.deviceAddress) :
    Placed s i (takeOver (s.set i { s.devInfo i with deviceDriver := none }) i) := by
  have hentry : (s.set i { s.devInfo i with deviceDriver := none }).devInfo i =
      { s.devInfo i with deviceDriver := none } := by
    rw [devInfo_set, if_pos rfl]
  have hpresent : (s.devInfo i).devPresent = true → Present s i := fun hp =>
    ⟨⟨hmem, hvalid hp, hdummy⟩, hp⟩
  have hfree : ∀ X < 64,
      Free (takeOver (s.set i { s.devInfo i with deviceDriver := none }) i) X ↔
        Free s X ∨ ((s.devInfo i).devPresent = true ∧ (s.devInfo i).deviceAddress ≠ 0 ∧
          X = (s.devInfo i).deviceAddress) := by
    intro X hX
    rw [free_takeOver hX, hentry]
    rfl
  refine ⟨hmem, ?_, ?_, ?_, ?_, ?_, hhere, ?_, ?_, ?_⟩
  · rw [devInfo_takeOver, if_pos rfl]
    refine own_connectEntry rfl rfl rfl ?_
    split <;> simp [hdummy]
  · intro j hne
    rw [devInfo_takeOver, if_neg hne, devInfo_set, if_neg hne]
  · rw [temp_takeOver, temp_set]
  · rw [temp_takeOver, temp_set]
  · rw [temp_takeOver, temp_set]
  · intro X hX hXfree
    obtain hXs | ⟨hp, -, rfl⟩ := (hfree X hX).mp hXfree
    · exact .inl hXs
    · exact .inr ⟨hpresent hp, rfl, hnot (hpresent hp)⟩
  · intro X hX hXs
    exact (hfree X hX).mpr (.inl hXs)
  · intro hp
    have hlt := h.kept.range i (h.kept.live hp)
    exact .inr (.inl ((hfree _ hlt).mpr (.inr ⟨hp.present, h.kept.addressed i hp, rfl⟩)))

/-! ## Interfaces -/

/-- `s'` is a state of the same detection, with no more entries moved than to its port. -/
structure Goes (s s' : State) : Prop where
  moves : Moves s.temp.hubDeviceNumber s.temp.hubPortNumber s s'
  hub : s'.temp.hubDeviceNumber = s.temp.hubDeviceNumber
  port : s'.temp.hubPortNumber = s.temp.hubPortNumber

theorem Goes.refl (s : State) : Goes s s := ⟨Moves.of_eq rfl, rfl, rfl⟩

theorem Goes.trans (h : Goes s s') (h' : Goes s' s'') : Goes s s'' :=
  ⟨h.moves.trans (by rw [← h.hub, ← h.port]; exact h'.moves), h'.hub.trans h.hub,
    h'.port.trans h.port⟩

theorem SameTemp.goes (h : SameTemp s s') : Goes s s' := ⟨Moves.of_eq h.devInfo, h.hub, h.port⟩

theorem Placed.goes (h : Placed s j s') : Goes s s' := ⟨h.moves, h.hub, h.port⟩

theorem Below.sameTemp (h : SameTemp s s') {hub' : Nat} (hbelow : Below s' hub hub') :
    Below s hub hub' := by
  induction hbelow with
  | self => exact .self
  | @next i _ hlisted hdriver ih =>
    rw [h.devInfo] at ih hdriver ⊢
    exact .next ih (hlisted.congr (congrFun h.devInfo i).symm) hdriver

/-- `USB_ConfigureDevice` gives an entry to the device, or changes nothing. -/
theorem Detecting.configureDevice (h : Detecting s d) {found : Option Nat}
    (hcan : ∀ i, getProperDeviceInfoStructure s s.temp 0 = some i → CanGet s i)
    (hrun : Usb.configureDevice fuel s = some (found, s')) :
    Detecting s' { d with unitsOf := none } ∧ Goes s s' ∧
      ∀ i, found = some i → i ∈ indices ∧ Own s' (s'.devInfo i) := by
  have hnothing : Detecting s { d with unitsOf := none } :=
    ⟨h.kept, h.pos, h.lt, h.taken, h.own, h.hub, h.configured, h.returned, nofun⟩
  unfold Usb.configureDevice at hrun
  split at hrun
  · obtain ⟨rfl, rfl⟩ := Prod.mk.inj (Option.some.inj hrun)
    exact ⟨hnothing, Goes.refl s, nofun⟩
  · rename_i i hget
    obtain ⟨hmem, hdummy, hhere⟩ := getProper_spec hget
    have hcan := hcan i hget
    split at hrun
    · rename_i hvalid
      obtain ⟨s₂, hdisconnect, heq⟩ := Option.map_eq_some_iff.mp hrun
      obtain ⟨rfl, rfl⟩ := Prod.mk.inj heq
      -- the temporary entry takes the flags of the one that is found
      have htemp : SameTemp s { s with temp := s.temp.addFlags (s.devInfo i) } :=
        ⟨rfl, rfl, rfl, rfl, rfl⟩
      have h₀ := h.sameTemp htemp
      obtain ⟨s₁, rfl, hstops⟩ :=
        stops_disconnect (stopDevice_stops fuel) h₀.kept.hubsNumbered hdisconnect
      -- no stop comes to the port of the device
      have hstops := hstops (B := (· ≠ s.temp.hubDeviceNumber)) (O := fun _ => False) (by
        rintro hdriver hub hbelow rfl
        exact hcan.notBelow hvalid hdriver (hbelow.sameTemp htemp))
      have h₁ := h₀.stops hstops (fun hne => hne rfl)
      have hpresent : (s₁.devInfo i).devPresent = true → s₁.devInfo i = s.devInfo i :=
        hstops.eq_of_present
      have hplaced := h₁.place_abandoned (i := i) hmem
        (by
          obtain heq | ⟨-, -, hgone⟩ := hstops.entry i
          · rw [heq]
            exact hdummy
          · exact hgone.dummy.trans hdummy)
        (fun hp => by
          rw [hpresent hp]
          exact hvalid)
        (fun hp => by
          have heq := hpresent hp.present
          have hport := hhere (heq ▸ hp.present) hvalid
          unfold AtTemp
          rw [heq, hstops.temp]
          exact hport)
        (fun hp => by
          have heq := hpresent hp.present
          have hne := hcan.notOwn (hp.congr heq.symm)
          rw [heq, hstops.temp]
          exact hne)
      have hgoes : Goes s s₁ := htemp.goes.trans
        ⟨(h₀.kept.shrinks_of_stops hstops).moves, by rw [hstops.temp], by rw [hstops.temp]⟩
      refine ⟨h₁.placed hplaced nofun, hgoes.trans hplaced.goes, ?_⟩
      rintro _ hi
      obtain rfl := Option.some.inj hi
      obtain ⟨hv, hp, hd, ha, hat⟩ := hplaced.own
      exact ⟨hmem, hv, hp, hd, ha.trans hplaced.address.symm, (hplaced.atTemp _).mpr hat⟩
    · rename_i hvalid
      split at hrun
      · obtain ⟨rfl, rfl⟩ := Prod.mk.inj (Option.some.inj hrun)
        exact ⟨hnothing, Goes.refl s, nofun⟩
      · obtain ⟨rfl, rfl⟩ := Prod.mk.inj (Option.some.inj hrun)
        have hplaced := place_free hget (Bool.not_eq_true _ ▸ hvalid)
        refine ⟨h.placed hplaced nofun, hplaced.goes, ?_⟩
        rintro _ hi
        obtain rfl := Option.some.inj hi
        obtain ⟨hv, hp, hd, ha, hat⟩ := hplaced.own
        exact ⟨hmem, hv, hp, hd, ha.trans hplaced.address.symm, (hplaced.atTemp _).mpr hat⟩

/-- What is asked of an interface: its driver does not move the device to an entry for hot plug. -/
structure CanConfigure (s : State) (itf : Interface) : Prop where
  notHotplug : ∀ which, itf.driver ≠ none → itf.outcome ≠ .hotplug which
  get : ∀ i, itf.driver ≠ none →
    getProperDeviceInfoStructure (identify s itf) (identify s itf).temp 0 = some i → CanGet s i

theorem CanGet.sameTemp (h : CanGet s i) (hs : SameTemp s s') : CanGet s' i where
  notOwn hpresent := by
    rw [hs.devInfo, hs.address]
    exact h.notOwn (hpresent.congr (congrFun hs.devInfo i).symm)
  notBelow := by
    rw [hs.devInfo, hs.hub]
    exact fun hvalid hdriver hbelow => h.notBelow hvalid hdriver (hbelow.sameTemp hs)

theorem Detecting.driverConfigure (h : Detecting s d) {type : DeviceType}
    (hnot : ∀ which, itf.outcome ≠ .hotplug which) (hmem : i ∈ indices) (hown : Own s (s.devInfo i))
    (hrun : Usb.driverConfigure itf type s i = (result, s')) :
    Detecting s' { d with unitsOf := none } ∧ Goes s s' ∧
      ∀ j, result = some j → j ∈ indices ∧ Own s' (s'.devInfo j) := by
  have hset : ∀ e, Own s e → Detecting (s.set i e) { d with unitsOf := none } ∧
      Goes s (s.set i e) ∧ Own (s.set i e) ((s.set i e).devInfo i) := by
    intro e he
    refine ⟨h.update hmem hown he nofun, ⟨moves_set he.at_temp, rfl, rfl⟩, ?_⟩
    rw [devInfo_set, if_pos rfl]
    exact ⟨he.valid, he.present, he.notDummy, he.address, he.at_temp⟩
  unfold Usb.driverConfigure at hrun
  cases houtcome : itf.outcome with
  | configured =>
    rw [houtcome] at hrun
    obtain ⟨rfl, rfl⟩ := Prod.mk.inj hrun
    have he : Own s (if type = .hub then
        { s.devInfo i with
          deviceType := type
          hubNumPorts := itf.hubNumPorts
          skippedPort := itf.skippedPort }
        else { s.devInfo i with deviceType := type }) := by
      split <;> exact ⟨hown.valid, hown.present, hown.notDummy, hown.address, hown.at_temp⟩
    obtain ⟨hdetecting, hgoes, hown'⟩ := hset _ he
    refine ⟨hdetecting, hgoes, ?_⟩
    rintro _ hj
    obtain rfl := Option.some.inj hj
    exact ⟨hmem, hown'⟩
  | failed deviceType =>
    rw [houtcome] at hrun
    obtain ⟨rfl, rfl⟩ := Prod.mk.inj hrun
    obtain ⟨hdetecting, hgoes, -⟩ := hset { s.devInfo i with deviceType := deviceType }
      ⟨hown.valid, hown.present, hown.notDummy, hown.address, hown.at_temp⟩
    exact ⟨hdetecting, hgoes, nofun⟩
  | hotplug which => exact absurd houtcome (hnot which)

/-- `USBIdentifyAndConfigureDevice` gives at most one entry to the device. -/
theorem Detecting.identifyAndConfigureDevice (h : Detecting s d)
    (hcan : CanConfigure s itf)
    (hrun : Usb.identifyAndConfigureDevice fuel s itf = some (result, s')) :
    Detecting s' { d with unitsOf := none } ∧ Goes s s' ∧
      ∀ i, result = some i → i ∈ indices ∧ Own s' (s'.devInfo i) := by
  have htemp : SameTemp s (identify s itf) := sameTemp_identify
  have h₀ := h.sameTemp htemp
  unfold Usb.identifyAndConfigureDevice at hrun
  cases hdriver : itf.driver with
  | none =>
    rw [hdriver] at hrun
    obtain ⟨rfl, rfl⟩ := Prod.mk.inj (Option.some.inj hrun)
    exact ⟨⟨h₀.kept, h₀.pos, h₀.lt, h₀.taken, h₀.own, h₀.hub, h₀.configured, h₀.returned, nofun⟩,
      htemp.goes, nofun⟩
  | some type =>
    rw [hdriver] at hrun
    have hsome : itf.driver ≠ none := by simp [hdriver]
    obtain ⟨⟨found, s₁⟩, hconfigure, heq⟩ := Option.map_eq_some_iff.mp hrun
    obtain ⟨h₁, hgoes, hfound⟩ := h₀.configureDevice
      (fun i hget => (hcan.get i hsome hget).sameTemp htemp) hconfigure
    cases found with
    | none =>
      obtain ⟨rfl, rfl⟩ := Prod.mk.inj heq
      exact ⟨h₁, htemp.goes.trans hgoes, nofun⟩
    | some i =>
      obtain ⟨hmem, hown⟩ := hfound i rfl
      have hown' : Own s₁ { s₁.devInfo i with deviceDriver := some type } :=
        ⟨hown.valid, hown.present, hown.notDummy, hown.address, hown.at_temp⟩
      have h₂ : Detecting _ { d with unitsOf := none } := h₁.update hmem hown hown' nofun
      have hown₂ : Own (s₁.set i { s₁.devInfo i with deviceDriver := some type })
          ((s₁.set i { s₁.devInfo i with deviceDriver := some type }).devInfo i) := by
        rw [devInfo_set, if_pos rfl]
        exact ⟨hown.valid, hown.present, hown.notDummy, hown.address, hown.at_temp⟩
      obtain ⟨h₃, hgoes', hresult⟩ :=
        h₂.driverConfigure (fun which => hcan.notHotplug which hsome) hmem hown₂ heq
      have hset : Goes s₁ (s₁.set i { s₁.devInfo i with deviceDriver := some type }) :=
        ⟨moves_set hown'.at_temp, rfl, rfl⟩
      exact ⟨h₃, htemp.goes.trans (hgoes.trans (hset.trans hgoes')), hresult⟩

theorem Detecting.detectInterface (h : Detecting s d) (hcan : CanConfigure s itf)
    (hrun : Usb.detectInterface fuel s d itf = some s') :
    ∃ d', s'.detection = some d' ∧ Detecting s' d' ∧ Goes s s' := by
  obtain ⟨⟨result, s₁⟩, hidentify, heq⟩ := Option.map_eq_some_iff.mp hrun
  obtain ⟨h₁, hgoes, hresult⟩ := h.identifyAndConfigureDevice hcan hidentify
  cases result with
  | none =>
    subst heq
    have htemp : SameTemp s₁ { s₁ with detection := some { d with unitsOf := none } } :=
      ⟨rfl, rfl, rfl, rfl, rfl⟩
    exact ⟨_, rfl, h₁.sameTemp htemp, hgoes.trans htemp.goes⟩
  | some i =>
    subst heq
    obtain ⟨hmem, hown⟩ := hresult i rfl
    have htemp : SameTemp s₁
        { s₁ with detection := some { devConfigured := true, unitsOf := some i } } :=
      ⟨rfl, rfl, rfl, rfl, rfl⟩
    have hpresent : Present s₁ i := ⟨⟨hmem, hown.valid, hown.notDummy⟩, hown.present⟩
    have h₂ : Detecting s₁ { devConfigured := true, unitsOf := some i } := by
      refine ⟨h₁.kept, h₁.pos, h₁.lt, h₁.taken, h₁.own, h₁.hub, fun _ => ⟨i, hpresent, hown.address⟩,
        h₁.returned, ?_⟩
      intro j hj
      obtain rfl := Option.some.inj hj
      exact ⟨hpresent, hown.address⟩
    exact ⟨_, rfl, h₂.sameTemp htemp, hgoes.trans htemp.goes⟩

/-! ## Logical units -/

/-- What is asked of a present entry that a further logical unit gets: the address it has is the
device's, has been taken back, or is that of another entry too. -/
def CanAdd (s : State) (j : Nat) : Prop :=
  Present s j → (s.devInfo j).deviceAddress = s.temp.deviceAddress ∨
    Free s (s.devInfo j).deviceAddress ∨
    ∃ i, i ≠ j ∧ Present s i ∧ (s.devInfo i).deviceAddress = (s.devInfo j).deviceAddress

/-- An entry that is not valid before and after does not count. -/
theorem Detecting.setInvalid (h : Detecting s d) (hmem : j ∈ indices)
    (hj : (s.devInfo j).validStruc = false) (he : e.validStruc = false)
    (hhub : e.hubDeviceNumber = s.temp.hubDeviceNumber) :
    Detecting (s.set j e) d ∧ Goes s (s.set j e) := by
  have hother : ∀ i, Listed (s.set j e) i → i ≠ j := by
    rintro i hlisted rfl
    have hvalid := hlisted.valid
    rw [devInfo_set, if_pos rfl, he] at hvalid
    exact Bool.false_ne_true hvalid
  have heq : ∀ i, i ≠ j → (s.set j e).devInfo i = s.devInfo i := by
    intro i hne
    rw [devInfo_set, if_neg hne]
  have hback : ∀ i, Listed s i → (s.set j e).devInfo i = s.devInfo i := by
    intro i hlisted
    refine heq i ?_
    rintro rfl
    rw [hlisted.valid] at hj
    exact Bool.false_ne_true hj.symm
  refine ⟨⟨⟨?_, ?_, ?_, ?_, ?_, ?_, ?_⟩, h.pos, h.lt, h.taken, ?_, h.hub, ?_, ?_, ?_⟩, ?_, rfl, rfl⟩
  · intro i hi hflag
    by_cases hij : i = j
    · rw [hij, devInfo_set, if_pos rfl, hhub]
      exact .inl h.hub
    · rw [heq i hij] at hflag ⊢
      exact h.kept.numbered i hi hflag
  · intro i hlive
    have hi := heq i (hother i hlive.toListed)
    rw [hi]
    exact h.kept.range i (hlive.congr hi.symm)
  · intro i hpresent
    have hi := heq i (hother i hpresent.toListed)
    rw [hi]
    exact h.kept.addressed i (hpresent.congr hi.symm)
  · intro i hlive
    have hi := heq i (hother i hlive.toListed)
    rw [hi]
    exact h.kept.taken i (hlive.congr hi.symm)
  · intro X hpos hX hnot
    obtain hpending | ⟨i, hpresent, haddr⟩ := h.kept.inUse X hpos hX hnot
    · exact .inl hpending
    · have hi := hback i hpresent.toListed
      exact .inr ⟨i, hpresent.congr hi, by rw [hi, haddr]⟩
  · intro i k hlive hlivek
    have hi := heq i (hother i hlive.toListed)
    have hk := heq k (hother k hlivek.toListed)
    rw [hi, hk]
    exact h.kept.apart i k (hlive.congr hi.symm) (hlivek.congr hk.symm)
  · intro i k hpresent hpresentk
    have hi := heq i (hother i hpresent.toListed)
    have hk := heq k (hother k hpresentk.toListed)
    rw [hi, hk]
    exact h.kept.common i k (hpresent.congr hi.symm) (hpresentk.congr hk.symm)
  · intro i hlive
    have hi := heq i (hother i hlive.toListed)
    rw [hi]
    exact h.own i (hlive.congr hi.symm)
  · intro hd
    obtain ⟨i, hpresent, haddr⟩ := h.configured hd
    have hi := hback i hpresent.toListed
    exact ⟨i, hpresent.congr hi, by rw [hi, haddr, temp_set]⟩
  · intro i hlive hfree
    have hi := heq i (hother i hlive.toListed)
    rw [hi] at hfree
    obtain ⟨k, hk, haddr⟩ := h.returned i (hlive.congr hi.symm) hfree
    have hk' := hback k hk.toListed
    exact ⟨k, hk.congr hk', by rw [hk', haddr, temp_set]⟩
  · intro i hi
    obtain ⟨hpresent, haddr⟩ := h.units i hi
    have hi' := hback i hpresent.toListed
    exact ⟨hpresent.congr hi', by rw [hi', haddr, temp_set]⟩
  · intro i hpresent
    have hi := heq i (hother i hpresent.toListed)
    refine .inl ⟨hpresent.congr hi.symm, ?_⟩
    rw [hi]
    exact SameAddress.refl _

theorem Detecting.createLogicalUnit (h : Detecting s d) (hunits : d.unitsOf = some i)
    (hcan : ∀ j, getProperDeviceInfoStructure s (s.devInfo i) lun = some j → CanAdd s j)
    (hrun : Usb.createLogicalUnit s i lun = some s') :
    s'.detection = s.detection ∧ Detecting s' d ∧ Goes s s' := by
  obtain ⟨hpresent, haddr⟩ := h.units i hunits
  have hat := h.own i (h.kept.live hpresent) haddr
  unfold Usb.createLogicalUnit at hrun
  split at hrun
  · exact absurd hrun nofun
  · obtain ⟨j, hget, rfl⟩ := Option.map_eq_some_iff.mp hrun
    obtain ⟨hmem, hdummy, hhere⟩ := getProper_spec hget
    have hplaced : ∀ e, Own s e → Detecting (s.set j e) d ∧ Goes s (s.set j e) := by
      intro e he
      have hp : Placed s j (s.set j e) := by
        refine ⟨hmem, ?_, ?_, rfl, rfl, rfl, ?_, fun _ _ => .inl, fun _ _ => id, hcan j hget⟩
        · rw [devInfo_set, if_pos rfl]
          exact ⟨he.valid, he.present, he.notDummy, he.address, he.at_temp⟩
        · intro k hne
          rw [devInfo_set, if_neg hne]
        · intro hj
          have hport := hhere hj.present hj.valid
          exact ⟨hport.1.trans hat.1, hport.2.trans hat.2⟩
      exact ⟨h.placed hp fun _ => .inr, hp.goes⟩
    dsimp only
    split
    · cases hvalid : (s.devInfo j).validStruc
      · -- a registered entry that is not valid is no entry either way
        exact ⟨rfl, h.setInvalid hmem hvalid rfl hat.1⟩
      · exact ⟨rfl, hplaced _ ⟨rfl, rfl, hdummy, haddr, hat⟩⟩
    · exact ⟨rfl, hplaced _ ⟨hpresent.valid, hpresent.present, hpresent.notDummy, haddr, hat⟩⟩

/-! ## Start and end -/

theorem freeAddress_spec {map : BitVec 64} {address : Nat} (h : freeAddress map = some address) :
    1 ≤ address ∧ address < 64 ∧ map.getLsbD address = true := by
  have hmem := List.mem_of_find?_eq_some h
  rw [List.mem_range'_1] at hmem
  exact ⟨hmem.1, by omega, List.find?_some h⟩

/-- What is kept of the same entries, with another map of the addresses and another address
that has been given: what is left is to be said of the old state. -/
theorem Kept.of_devInfo {O' : Entry → Prop} {pending' : Option Nat} (h : Kept O pending s)
    (hdevInfo : s'.devInfo = s.devInfo)
    (htaken : ∀ i, Live s i → Free s' (s.devInfo i).deviceAddress → O' (s.devInfo i))
    (hinUse : ∀ X, 1 ≤ X → X < 64 → ¬ Free s' X →
      pending' = some X ∨ ∃ i, Present s i ∧ (s.devInfo i).deviceAddress = X)
    (hcommon : ∀ i j, Present s i → Present s j → SamePort (s.devInfo i) (s.devInfo j) →
      pending' ≠ some (s.devInfo i).deviceAddress → pending' ≠ some (s.devInfo j).deviceAddress →
      (s.devInfo i).deviceAddress = (s.devInfo j).deviceAddress) : Kept O' pending' s' := by
  have hlive : ∀ i, Live s' i → Live s i := fun i hi => hi.congr (congrFun hdevInfo i).symm
  have hpresent : ∀ i, Present s' i → Present s i := fun i hi => hi.congr (congrFun hdevInfo i).symm
  constructor <;> rw [hdevInfo]
  · exact h.numbered
  · exact fun i hi => h.range i (hlive i hi)
  · exact fun i hi => h.addressed i (hpresent i hi)
  · exact fun i hi => htaken i (hlive i hi)
  · intro X hpos hX hnot
    obtain hpending | ⟨i, hi, haddr⟩ := hinUse X hpos hX hnot
    · exact .inl hpending
    · exact .inr ⟨i, hi.congr (congrFun hdevInfo i), haddr⟩
  · exact fun i j hi hj => h.apart i j (hlive i hi) (hlive j hj)
  · exact fun i j hi hj => hcommon i j (hpresent i hi) (hpresent j hj)

theorem Kept.congr_devInfo (h : Kept O pending s)
    (hdevInfo : s'.devInfo = s.devInfo) (hmap : s'.deviceAddressMap = s.deviceAddressMap) :
    Kept O pending s' := by
  have hfree : Free s' = Free s := by
    unfold Free
    rw [hmap]
  exact h.of_devInfo hdevInfo (hfree ▸ h.taken) (hfree ▸ h.inUse) h.common

/-- The start of a detection: the device has an address, or nothing is different. -/
theorem Kept.startDetection (h : Kept (fun _ => False) none s) {speed vendorId deviceId : Nat}
    {answers : Bool} (hhub : hub ≠ 0) (hdetection : s.detection = none)
    (heq : s' = Usb.startDetection s hub port speed answers vendorId deviceId) :
    (s'.detection = none ∧ Kept (fun _ => False) none s') ∨
      ∃ d, s'.detection = some d ∧ Detecting s' d := by
  unfold Usb.startDetection at heq
  split at heq
  · rename_i address hfind
    obtain ⟨hpos, hlt, hfree⟩ := freeAddress_spec hfind
    have hmap : ∀ X < 64, Free s' X ↔ Free s X ∧ X ≠ address := by
      intro X hX
      rw [heq]
      exact getLsbD_clearBit _ _ hX
    have hdevInfo : s'.devInfo = s.devInfo := by rw [heq]
    have hd : s'.detection = some { devConfigured := false, unitsOf := none } := by rw [heq]
    have haddress : s'.temp.deviceAddress = address := by rw [heq]
    have hlive : ∀ i, Live s' i → Live s i := fun i hi => hi.congr (congrFun hdevInfo i).symm
    -- no entry has the address, as it was free
    have hnone : ∀ i, Live s i → (s.devInfo i).deviceAddress ≠ address := by
      rintro i hi rfl
      exact h.taken i hi hfree
    have htaken : ∀ i, Live s' i → ¬ Free s' (s'.devInfo i).deviceAddress := by
      intro i hi hX
      rw [hdevInfo, hmap _ (h.range i (hlive i hi))] at hX
      exact h.taken i (hlive i hi) hX.1
    refine .inr ⟨_, hd, ⟨?_, ?_, ?_, ?_, ?_, ?_, nofun, ?_, nofun⟩⟩
    · rw [haddress]
      refine h.of_devInfo hdevInfo (fun i hi hX => ?_) (fun X hXpos hX hnot => ?_)
        fun i j hi hj hsame _ _ => h.common i j hi hj hsame nofun nofun
      · rw [hmap _ (h.range i hi)] at hX
        exact absurd hX.1 (h.taken i hi)
      · by_cases hXa : X = address
        · exact .inl (congrArg some hXa.symm)
        · exact (h.inUse X hXpos hX fun hXs => hnot ((hmap X hX).mpr ⟨hXs, hXa⟩)).imp_left nofun
    · rw [haddress]
      exact hpos
    · rw [haddress]
      exact hlt
    · rw [haddress, hmap _ hlt]
      exact fun hX => hX.2 rfl
    · intro i hi haddr
      rw [haddress, hdevInfo] at haddr
      exact absurd haddr (hnone i (hlive i hi))
    · rw [heq]
      exact hhub
    · intro i hi hX
      exact absurd hX (htaken i hi)
  · subst heq
    exact .inl ⟨hdetection, h.congr_devInfo rfl rfl⟩

/-- What is asked at the end of a detection: a device of which an interface is configured has
taken over all entries at its port, one of which none is has no entries. -/
def CanComplete (s : State) (d : Detection) : Prop :=
  if d.devConfigured then
    ∀ i, Live s i → AtTemp s (s.devInfo i) → (s.devInfo i).deviceAddress = s.temp.deviceAddress
  else ∀ i, Live s i → (s.devInfo i).deviceAddress ≠ s.temp.deviceAddress

/-- The end of a detection. Either the address goes back into the map, and no entry has it, or the
entries at the port of the device all have it. -/
theorem Detecting.complete (h : Detecting s d) (hcan : CanComplete s d)
    (heq : s' = completeDetection s d) :
    s'.detection = none ∧ Kept (fun _ => False) none s' ∧ s'.devInfo = s.devInfo := by
  have hsome : ∀ {X : Nat}, s.temp.deviceAddress ≠ X → some s.temp.deviceAddress ≠ some X :=
    fun hne heq => hne (Option.some.inj heq)
  unfold completeDetection at heq
  unfold CanComplete at hcan
  cases hconfigured : d.devConfigured
  · rw [hconfigured] at heq hcan
    have hne : s.temp.deviceAddress ≠ 0 := Nat.one_le_iff_ne_zero.mp h.pos
    rw [if_pos (by simp [hne])] at heq
    have hdevInfo : s'.devInfo = s.devInfo := by rw [heq]
    have hmap : ∀ X < 64, Free s' X ↔ Free s X ∨ X = s.temp.deviceAddress := by
      intro X hX
      rw [heq]
      exact getLsbD_setBit _ _ hX
    have hcan : ∀ i, Live s i → (s.devInfo i).deviceAddress ≠ s.temp.deviceAddress := hcan
    refine ⟨by rw [heq], h.kept.of_devInfo hdevInfo (fun i hi hX => ?_) (fun X hpos hX hnot => ?_)
      (fun i j hi hj hsame _ _ => ?_), hdevInfo⟩
    · rw [hmap _ (h.kept.range i hi)] at hX
      obtain hX | hX := hX
      · obtain ⟨j, hj, haddr⟩ := h.returned i hi hX
        exact hcan j hj haddr
      · exact hcan i hi hX
    · rw [hmap X hX] at hnot
      obtain hpending | hX := h.kept.inUse X hpos hX fun hXs => hnot (.inl hXs)
      · exact absurd (Option.some.inj hpending).symm fun hXa => hnot (.inr hXa)
      · exact .inr hX
    · exact h.kept.common i j hi hj hsame (hsome (hcan i (h.kept.live hi)).symm)
        (hsome (hcan j (h.kept.live hj)).symm)
  · rw [hconfigured] at heq hcan
    rw [if_neg (by simp)] at heq
    have hdevInfo : s'.devInfo = s.devInfo := by rw [heq]
    have hmap : Free s' = Free s := by rw [heq]; rfl
    have hcan : ∀ i, Live s i → AtTemp s (s.devInfo i) →
        (s.devInfo i).deviceAddress = s.temp.deviceAddress := hcan
    refine ⟨by rw [heq], h.kept.of_devInfo hdevInfo (fun i hi hX => ?_) (fun X hpos hX hnot => ?_)
      (fun i j hi hj hsame _ _ => ?_), hdevInfo⟩
    · rw [hmap] at hX
      have hat := h.kept.taken i hi hX
      rw [hcan i hi hat] at hX
      exact h.taken hX
    · rw [hmap] at hnot
      obtain hpending | hX := h.kept.inUse X hpos hX hnot
      · obtain ⟨i, hi, haddr⟩ := h.configured hconfigured
        exact .inr ⟨i, hi, by rw [haddr, Option.some.inj hpending]⟩
      · exact .inr hX
    · -- at the port of the device all have its address, elsewhere none has
      by_cases hat : AtTemp s (s.devInfo i)
      · have hat' : AtTemp s (s.devInfo j) := ⟨hsame.1.symm.trans hat.1, hsame.2.symm.trans hat.2⟩
        rw [hcan i (h.kept.live hi) hat, hcan j (h.kept.live hj) hat']
      · have hat' : ¬ AtTemp s (s.devInfo j) := fun hat' =>
          hat ⟨hsame.1.trans hat'.1, hsame.2.trans hat'.2⟩
        exact h.kept.common i j hi hj hsame
          (hsome fun he => hat (h.own i (h.kept.live hi) he.symm))
          (hsome fun he => hat' (h.own j (h.kept.live hj) he.symm))

end BayTrail.Usb
