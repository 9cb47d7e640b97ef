import BayTrail.Usb.Device

/-!
# Stopped devices

What `USB_StopDevice` leaves: every entry is as it was or without an address, the addresses that
are gone are free, and no entry at a port keeps its address when another loses it. `Stops` relates the
states in front and behind; it is closed under composition, one entry that is left is such a step, and the
recursion over the ports of a hub follows by induction on the fuel.
-/

namespace BayTrail.Usb

variable {s s' s'' : State} {i j hub port : Nat} {e e' : Entry}

/-! ## The map -/

/-- The address can be given. -/
def Free (s : State) (address : Nat) : Prop := s.deviceAddressMap.getLsbD address = true

variable {b X : Nat} {stop : State → Nat → Nat → Option State}

theorem getLsbD_setBit (map : BitVec 64) (address : Nat) (hb : b < 64) :
    (setBit map address).getLsbD b = true ↔ map.getLsbD b = true ∨ b = address := by
  unfold setBit
  rw [BitVec.getLsbD_or, BitVec.getLsbD_shiftLeft, BitVec.getLsbD_one, Bool.or_eq_true]
  have hone : (decide (b < 64) && !decide (b < address) && (decide (0 < 64) && decide (b - address = 0)))
      = true ↔ b = address := by
    simp [hb]
    omega
  rw [hone]

theorem getLsbD_clearBit (map : BitVec 64) (address : Nat) (hb : b < 64) :
    (clearBit map address).getLsbD b = true ↔ map.getLsbD b = true ∧ b ≠ address := by
  unfold clearBit
  rw [BitVec.getLsbD_and, BitVec.getLsbD_not, BitVec.getLsbD_shiftLeft, BitVec.getLsbD_one,
    Bool.and_eq_true]
  have hone : (decide (b < 64) &&
      !(decide (b < 64) && !decide (b < address) && (decide (0 < 64) && decide (b - address = 0))))
      = true ↔ b ≠ address := by
    simp [hb]
    omega
  rw [hone]

/-! ## Entries -/

/-- The entry is one of the table that the loops take for valid. -/
structure Listed (s : State) (i : Nat) : Prop where
  mem : i ∈ indices
  valid : (s.devInfo i).validStruc = true
  notDummy : (s.devInfo i).devDummy = false

/-- A valid entry with an address. -/
structure Live (s : State) (i : Nat) : Prop extends Listed s i where
  address_ne : (s.devInfo i).deviceAddress ≠ 0

/-- The entry of a present device. -/
structure Present (s : State) (i : Nat) : Prop extends Listed s i where
  present : (s.devInfo i).devPresent = true

def Entry.At (e : Entry) (hub port : Nat) : Prop := e.hubDeviceNumber = hub ∧ e.hubPortNumber = port

/-- The devices of two entries are at the same port. -/
def SamePort (e e' : Entry) : Prop := e.At e'.hubDeviceNumber e'.hubPortNumber

theorem isAt_iff : e.isAt hub port = true ↔
    e.validStruc = true ∧ e.devDummy = false ∧ e.At hub port := by
  unfold Entry.isAt Entry.At
  simp [and_assoc]

@[simp] theorem devInfo_set : (s.set i e).devInfo j = if j = i then e else s.devInfo j :=
  Function.update_apply ..

@[simp] theorem temp_set : (s.set i e).temp = s.temp := rfl

@[simp] theorem detection_set : (s.set i e).detection = s.detection := rfl

@[simp] theorem deviceAddressMap_set : (s.set i e).deviceAddressMap = s.deviceAddressMap := rfl

theorem set_self (s : State) (i : Nat) : s.set i (s.devInfo i) = s := by
  unfold State.set
  rw [Function.update_eq_self]

/-! ## Returned addresses -/

@[simp] theorem temp_returnAddress : (returnAddress s i).temp = s.temp := by
  unfold returnAddress
  split <;> rfl

@[simp] theorem detection_returnAddress : (returnAddress s i).detection = s.detection := by
  unfold returnAddress
  split <;> rfl

theorem devInfo_returnAddress : (returnAddress s i).devInfo j =
    if j = i then { s.devInfo i with deviceAddress := 0 } else s.devInfo j := by
  unfold returnAddress
  split
  · exact devInfo_set
  · rename_i h
    have hzero : (s.devInfo i).deviceAddress = 0 := not_not.mp h
    by_cases hj : j = i
    · subst hj
      rw [if_pos rfl, ← hzero]
    · rw [if_neg hj]

/-- The map, when an entry returns its address. -/
theorem free_returnAddress (hX : X < 64) : Free (returnAddress s i) X ↔
    Free s X ∨ ((s.devInfo i).deviceAddress ≠ 0 ∧ X = (s.devInfo i).deviceAddress) := by
  unfold returnAddress
  split
  · rename_i h
    rw [and_iff_right h]
    exact getLsbD_setBit _ _ hX
  · rename_i h
    rw [or_iff_left (fun h' => h h'.1)]

/-! ## What a stop leaves -/

/-- The entry has neither an address nor a device. -/
structure Left (e : Entry) : Prop where
  address : e.deviceAddress = 0
  absent : e.devPresent = false

/-- `e'` is what is left of `e`. -/
structure Gone (e e' : Entry) : Prop extends Left e' where
  noDriver : e'.deviceDriver = none
  valid : e'.validStruc = true → e.validStruc = true
  dummy : e'.devDummy = e.devDummy
  hub : e'.hubDeviceNumber = e.hubDeviceNumber
  port : e'.hubPortNumber = e.hubPortNumber
  type : e'.deviceType = e.deviceType

theorem Gone.trans {e'' : Entry} (h : Gone e e') (h' : Gone e' e'') : Gone e e'' :=
  ⟨h'.toLeft, h'.noDriver, fun hv => h.valid (h'.valid hv), h'.dummy.trans h.dummy,
    h'.hub.trans h.hub, h'.port.trans h.port, h'.type.trans h.type⟩

/-- Hubs that a stop at hub `hub` comes to. -/
inductive Below (s : State) (hub : Nat) : Nat → Prop
  | self : Below s hub hub
  | next {i : Nat} (hbelow : Below s hub (s.devInfo i).hubDeviceNumber) (hlisted : Listed s i)
      (hdriver : (s.devInfo i).deviceDriver = some .hub) : Below s hub (s.devInfo i).deviceAddress

theorem Below.trans {hub' hub'' : Nat} (h : Below s hub hub') (h' : Below s hub' hub'') :
    Below s hub hub'' := by
  induction h' with
  | self => exact h
  | next _ hlisted hdriver ih => exact .next ih hlisted hdriver

/-- What is left between two states by stops at hubs of `B`. At the ports of `O` the stop may
still be under way. -/
structure Stops (B : Nat → Prop) (O : Entry → Prop) (s s' : State) : Prop where
  temp : s'.temp = s.temp
  detection : s'.detection = s.detection
  entry : ∀ i, s'.devInfo i = s.devInfo i ∨
    (Listed s i ∧ B (s.devInfo i).hubDeviceNumber ∧ Gone (s.devInfo i) (s'.devInfo i))
  free : ∀ X < 64, Free s' X ↔
    Free s X ∨ ∃ i, Live s i ∧ (s.devInfo i).deviceAddress = X ∧ (s'.devInfo i).deviceAddress = 0
  whole : ∀ i j, Live s i → (s'.devInfo i).deviceAddress = 0 → Listed s j →
    SamePort (s.devInfo j) (s.devInfo i) → ¬ O (s.devInfo i) → Left (s'.devInfo j)

section
variable {B : Nat → Prop} {O : Entry → Prop}

theorem Stops.refl (s : State) : Stops B O s s where
  temp := rfl
  detection := rfl
  entry _ := .inl rfl
  free X _ := by
    refine ⟨.inl, ?_⟩
    rintro (h | ⟨i, hlive, -, hzero⟩)
    · exact h
    · exact absurd hzero hlive.address_ne
  whole _ _ hlive hzero _ _ _ := absurd hzero hlive.address_ne

theorem Stops.left (h : Stops B O s s') (hleft : Left (s.devInfo i)) : Left (s'.devInfo i) := by
  obtain heq | ⟨-, -, hgone⟩ := h.entry i
  · rw [heq]
    exact hleft
  · exact hgone.toLeft

theorem Stops.listed_of (h : Stops B O s s') (hlisted : Listed s' i) : Listed s i := by
  obtain heq | ⟨hlisted', -, -⟩ := h.entry i
  · exact ⟨hlisted.mem, heq ▸ hlisted.valid, heq ▸ hlisted.notDummy⟩
  · exact hlisted'

/-- An entry that still has an address is as it was. -/
theorem Stops.eq_of_address (h : Stops B O s s') (hne : (s'.devInfo i).deviceAddress ≠ 0) :
    s'.devInfo i = s.devInfo i := by
  obtain heq | ⟨-, -, hgone⟩ := h.entry i
  · exact heq
  · exact absurd hgone.address hne

theorem Stops.eq_of_present (h : Stops B O s s') (hpresent : (s'.devInfo i).devPresent = true) :
    s'.devInfo i = s.devInfo i := by
  obtain heq | ⟨-, -, hgone⟩ := h.entry i
  · exact heq
  · rw [hgone.absent] at hpresent
    exact absurd hpresent Bool.false_ne_true

theorem Stops.live_of (h : Stops B O s s') (hlive : Live s' i) : Live s i := by
  have heq := h.eq_of_address hlive.address_ne
  exact ⟨h.listed_of hlive.toListed, heq ▸ hlive.address_ne⟩

theorem Stops.present_of (h : Stops B O s s') (hpresent : Present s' i) : Present s i := by
  have heq := h.eq_of_present hpresent.present
  exact ⟨h.listed_of hpresent.toListed, heq ▸ hpresent.present⟩

theorem Listed.congr (h : Listed s i) (heq : s'.devInfo i = s.devInfo i) : Listed s' i :=
  ⟨h.mem, heq ▸ h.valid, heq ▸ h.notDummy⟩

theorem Live.congr (h : Live s i) (heq : s'.devInfo i = s.devInfo i) : Live s' i :=
  ⟨h.toListed.congr heq, heq ▸ h.address_ne⟩

theorem Present.congr (h : Present s i) (heq : s'.devInfo i = s.devInfo i) : Present s' i :=
  ⟨h.toListed.congr heq, heq ▸ h.present⟩

/-- What an address loses in two stops it loses in one of them. -/
theorem Stops.trans (h : Stops B O s s') (h' : Stops B O s' s'') : Stops B O s s'' where
  temp := h'.temp.trans h.temp
  detection := h'.detection.trans h.detection
  entry i := by
    obtain heq | ⟨hlisted, hB, hgone⟩ := h.entry i
    · obtain heq' | ⟨hlisted', hB', hgone'⟩ := h'.entry i
      · exact .inl (heq'.trans heq)
      · rw [heq] at hB' hgone'
        exact .inr ⟨h.listed_of hlisted', hB', hgone'⟩
    · obtain heq' | ⟨-, -, hgone'⟩ := h'.entry i
      · rw [heq']
        exact .inr ⟨hlisted, hB, hgone⟩
      · exact .inr ⟨hlisted, hB, hgone.trans hgone'⟩
  free X hX := by
    rw [h'.free X hX, h.free X hX, or_assoc]
    refine or_congr_right ⟨?_, ?_⟩
    · rintro (⟨i, hlive, haddr, hzero⟩ | ⟨i, hlive, haddr, hzero⟩)
      · refine ⟨i, hlive, haddr, ?_⟩
        obtain heq' | ⟨-, -, hgone'⟩ := h'.entry i
        · rw [heq', hzero]
        · exact hgone'.address
      · exact ⟨i, h.live_of hlive, h.eq_of_address hlive.address_ne ▸ haddr, hzero⟩
    · rintro ⟨i, hlive, haddr, hzero⟩
      obtain heq | ⟨-, -, hgone⟩ := h.entry i
      · exact .inr ⟨i, hlive.congr heq, heq ▸ haddr, hzero⟩
      · exact .inl ⟨i, hlive, haddr, hgone.address⟩
  whole i j hlive hzero hj hsame hO := by
    obtain heq | ⟨-, -, hgone⟩ := h.entry i
    · obtain heqj | ⟨-, -, hgonej⟩ := h.entry j
      · refine h'.whole i j (hlive.congr heq) hzero (hj.congr heqj) ?_ ?_
        · rw [heq, heqj]
          exact hsame
        · rw [heq]
          exact hO
      · exact h'.left hgonej.toLeft
    · exact h'.left (h.whole i j hlive hgone.address hj hsame hO)

theorem Stops.mono {B' : Nat → Prop} {O' : Entry → Prop} (h : Stops B O s s')
    (hB : ∀ hub, B hub → B' hub) (hO : ∀ e, O e → O' e) : Stops B' O' s s' where
  temp := h.temp
  detection := h.detection
  entry i := by
    obtain heq | ⟨hlisted, hhub, hgone⟩ := h.entry i
    · exact .inl heq
    · exact .inr ⟨hlisted, hB _ hhub, hgone⟩
  free := h.free
  whole i j hlive hzero hj hsame hnot := h.whole i j hlive hzero hj hsame fun ho => hnot (hO _ ho)

/-- A stop takes hubs away, and adds none. -/
theorem Stops.below (h : Stops B O s s') {hub' : Nat} (hbelow : Below s' hub hub') :
    Below s hub hub' := by
  induction hbelow with
  | self => exact .self
  | @next i _ hlisted hdriver ih =>
    obtain heq | ⟨-, -, hgone⟩ := h.entry i
    · rw [heq] at ih hdriver ⊢
      exact .next ih (h.listed_of hlisted) hdriver
    · rw [hgone.noDriver] at hdriver
      exact absurd hdriver nofun

end

/-! ## One entry -/

theorem devInfo_leaveEntry : (leaveEntry s i).devInfo j =
    if j = i then
      { s.devInfo i with
        deviceAddress := 0
        devPresent := false
        validStruc := (s.devInfo i).validStruc && ((s.devInfo i).devBus || (s.devInfo i).massDevRegd) }
    else s.devInfo j := by
  unfold leaveEntry
  simp only [devInfo_set, devInfo_returnAddress, if_true]
  split <;> rfl

theorem free_leaveEntry (hX : X < 64) : Free (leaveEntry s i) X ↔
    Free s X ∨ ((s.devInfo i).deviceAddress ≠ 0 ∧ X = (s.devInfo i).deviceAddress) :=
  free_returnAddress hX

/-- The driver of an entry is taken away, and the entry is left. -/
theorem stops_leave {B : Nat → Prop} {O : Entry → Prop} (hlisted : Listed s i)
    (hB : B (s.devInfo i).hubDeviceNumber) (hO : O (s.devInfo i)) :
    Stops B O s (leaveEntry (s.set i { s.devInfo i with deviceDriver := none }) i) ∧
      Left ((leaveEntry (s.set i { s.devInfo i with deviceDriver := none }) i).devInfo i) := by
  have hleft : Gone (s.devInfo i)
      ((leaveEntry (s.set i { s.devInfo i with deviceDriver := none }) i).devInfo i) := by
    rw [devInfo_leaveEntry, if_pos rfl, devInfo_set, if_pos rfl]
    exact ⟨⟨rfl, rfl⟩, rfl, fun _ => hlisted.valid, rfl, rfl, rfl, rfl⟩
  have hother : ∀ j, j ≠ i →
      (leaveEntry (s.set i { s.devInfo i with deviceDriver := none }) i).devInfo j = s.devInfo j := by
    intro j hj
    rw [devInfo_leaveEntry, if_neg hj, devInfo_set, if_neg hj]
  refine ⟨⟨?_, ?_, ?_, ?_, ?_⟩, hleft.toLeft⟩
  · unfold leaveEntry
    simp
  · unfold leaveEntry
    simp
  · intro j
    by_cases hj : j = i
    · subst hj
      exact .inr ⟨hlisted, hB, hleft⟩
    · exact .inl (hother j hj)
  · intro X hX
    rw [free_leaveEntry hX, devInfo_set, if_pos rfl]
    refine or_congr_right ⟨?_, ?_⟩
    · rintro ⟨hne, hXi⟩
      exact ⟨i, ⟨hlisted, hne⟩, hXi.symm, hleft.address⟩
    · rintro ⟨j, hlive, haddr, hzero⟩
      by_cases hj : j = i
      · subst hj
        exact ⟨hlive.address_ne, haddr.symm⟩
      · rw [hother j hj] at hzero
        exact absurd hzero hlive.address_ne
  · intro j k hlive hzero _ _ hnot
    by_cases hj : j = i
    · subst hj
      exact absurd hO hnot
    · rw [hother j hj] at hzero
      exact absurd hzero hlive.address_ne

theorem Gone.entry_eq (h : Gone e e') (hvalid : e'.validStruc = false) :
    { e' with
      devPresent := false
      validStruc := e'.validStruc && (e'.devBus || e'.massDevRegd) } = e' := by
  have habsent := h.absent
  cases e'
  simp_all

theorem leave_of_gone (hgone : Gone e (s.devInfo i)) (hvalid : (s.devInfo i).validStruc = false) :
    leaveEntry (s.set i { s.devInfo i with deviceDriver := none }) i = s := by
  have hdriver : { s.devInfo i with deviceDriver := none } = s.devInfo i := by
    rw [← hgone.noDriver]
  rw [hdriver, set_self]
  unfold leaveEntry returnAddress
  rw [if_neg (not_not.mpr hgone.address)]
  dsimp only
  rw [hgone.entry_eq hvalid, set_self]

/-! ## The recursion -/

/-- Hubs and host controllers have numbers from 1 on. -/
def HubsNumbered (s : State) : Prop := ∀ i, Listed s i → (s.devInfo i).hubDeviceNumber ≠ 0

theorem Stops.hubsNumbered {B : Nat → Prop} {O : Entry → Prop} (h : Stops B O s s')
    (hhubs : HubsNumbered s) : HubsNumbered s' := by
  intro i hlisted
  have hne := hhubs i (h.listed_of hlisted)
  obtain heq | ⟨-, -, hgone⟩ := h.entry i
  · rw [heq]
    exact hne
  · rw [hgone.hub]
    exact hne

/-- What a stop of the ports of one hub does, as the recursion has it. -/
def StopsPort (stop : State → Nat → Nat → Option State) : Prop :=
  ∀ s hub port s', HubsNumbered s → stop s hub port = some s' →
    Stops (Below s hub) (fun _ => False) s s' ∧
    ∀ i, Listed s i → (s.devInfo i).At hub port → Left (s'.devInfo i)

/-- A stop at hub 0 finds nothing. -/
theorem StopsPort.zero (h : StopsPort stop)
    (hhubs : HubsNumbered s) (hrun : stop s 0 port = some s') {B : Nat → Prop} {O : Entry → Prop} :
    Stops B O s s' := by
  have hbelow : ∀ hub, Below s 0 hub → hub = 0 := by
    intro hub hbelow
    induction hbelow with
    | self => rfl
    | next _ hlisted _ ih => exact absurd ih (hhubs _ hlisted)
  have hstops := (h s 0 port s' hhubs hrun).1
  refine ⟨hstops.temp, hstops.detection, ?_, hstops.free, ?_⟩
  · intro i
    obtain heq | ⟨hlisted, hB, -⟩ := hstops.entry i
    · exact .inl heq
    · exact absurd (hbelow _ hB) (hhubs i hlisted)
  · intro i j hlive hzero hj hsame _
    exact hstops.whole i j hlive hzero hj hsame id

/-- The ports of a hub, one after the other; the address of the hub may be gone on the way. -/
theorem stops_ports (h : StopsPort stop)
    {B : Nat → Prop} {O : Entry → Prop} {address : Nat} (ports : List Nat) :
    ∀ s s', HubsNumbered s → (∀ hub, Below s address hub → B hub) →
      ((s.devInfo i).deviceAddress = address ∨ (s.devInfo i).deviceAddress = 0) →
      ports.foldlM (fun s port => stop s (s.devInfo i).deviceAddress port) s = some s' →
      Stops B O s s' := by
  induction ports with
  | nil =>
    intro s s' _ _ _ hrun
    obtain rfl := Option.some.inj hrun
    exact Stops.refl s
  | cons port ports ih =>
    intro s s' hhubs hB haddr hrun
    rw [List.foldlM_cons] at hrun
    obtain ⟨s₁, hfirst, hrest⟩ := Option.bind_eq_some_iff.mp hrun
    have hstops : Stops B O s s₁ := by
      obtain haddr | haddr := haddr
      · rw [haddr] at hfirst
        exact (h s address port s₁ hhubs hfirst).1.mono hB (fun _ => False.elim)
      · rw [haddr] at hfirst
        exact h.zero hhubs hfirst
    refine hstops.trans (ih s₁ s' (hstops.hubsNumbered hhubs) ?_ ?_ hrest)
    · intro hub hbelow
      exact hB hub (hstops.below hbelow)
    · obtain heq | ⟨-, -, hgone⟩ := hstops.entry i
      · rw [heq]
        exact haddr
      · exact .inr hgone.address

/-- The disconnect function of the driver of an entry. -/
theorem stops_disconnect (h : StopsPort stop)
    (hhubs : HubsNumbered s) (hrun : disconnectDevice stop s i = some s') :
    ∃ s₁, s' = s₁.set i { s₁.devInfo i with deviceDriver := none } ∧
      ∀ {B : Nat → Prop} {O : Entry → Prop},
        ((s.devInfo i).deviceDriver = some .hub →
          ∀ hub, Below s (s.devInfo i).deviceAddress hub → B hub) → Stops B O s s₁ := by
  unfold disconnectDevice at hrun
  obtain ⟨s₁, hports, rfl⟩ := Option.map_eq_some_iff.mp hrun
  refine ⟨s₁, rfl, ?_⟩
  intro B O hB
  split at hports
  · rename_i hdriver
    exact stops_ports h _ s s₁ hhubs (hB hdriver) (.inl rfl) hports
  · obtain rfl := Option.some.inj hports
    exact Stops.refl s

/-- One turn of the loop of `USB_StopDevice`. -/
theorem stops_entry (h : StopsPort stop)
    {B : Nat → Prop} (hhubs : HubsNumbered s) (hB : ∀ hub', Below s hub hub' → B hub')
    (hmem : i ∈ indices)
    (hrun : (if (s.devInfo i).isAt hub port then
      (disconnectDevice stop s i).map (leaveEntry · i) else some s) = some s') :
    Stops B (·.At hub port) s s' ∧
      (Listed s i → (s.devInfo i).At hub port → Left (s'.devInfo i)) := by
  split at hrun
  · rename_i hat
    obtain ⟨hvalid, hdummy, hat⟩ := isAt_iff.mp hat
    have hlisted : Listed s i := ⟨hmem, hvalid, hdummy⟩
    have hbelow : Below s hub (s.devInfo i).hubDeviceNumber := hat.1 ▸ .self
    obtain ⟨s₂, hdisconnect, rfl⟩ := Option.map_eq_some_iff.mp hrun
    obtain ⟨s₁, rfl, hstops⟩ := stops_disconnect h hhubs hdisconnect
    have hstops : Stops B (·.At hub port) s s₁ := hstops fun hdriver hub' hbelow' =>
      hB hub' ((Below.next hbelow hlisted hdriver).trans hbelow')
    have hat₁ : (s₁.devInfo i).At hub port := by
      obtain heq | ⟨-, -, hgone⟩ := hstops.entry i
      · rw [heq]
        exact hat
      · exact ⟨hgone.hub.trans hat.1, hgone.port.trans hat.2⟩
    -- the nested stops may have left the entry already
    cases hvalid₁ : (s₁.devInfo i).validStruc
    · obtain heq | ⟨-, -, hgone⟩ := hstops.entry i
      · rw [heq, hvalid] at hvalid₁
        exact absurd hvalid₁.symm Bool.false_ne_true
      · rw [leave_of_gone hgone hvalid₁]
        exact ⟨hstops, fun _ _ => hgone.toLeft⟩
    · have hdummy₁ : (s₁.devInfo i).devDummy = false := by
        obtain heq | ⟨-, -, hgone⟩ := hstops.entry i
        · rw [heq]
          exact hdummy
        · exact hgone.dummy.trans hdummy
      have hleave := stops_leave (B := B) (O := (·.At hub port)) ⟨hmem, hvalid₁, hdummy₁⟩
        (by rw [hat₁.1, ← hat.1]; exact hB _ hbelow) hat₁
      exact ⟨hstops.trans hleave.1, fun _ _ => hleave.2⟩
  · rename_i hnot
    obtain rfl := Option.some.inj hrun
    refine ⟨Stops.refl s, fun hlisted hat => ?_⟩
    exact absurd (isAt_iff.mpr ⟨hlisted.valid, hlisted.notDummy, hat⟩) hnot

/-- What `USB_StopDevice` leaves: it comes to hubs below its own, and leaves every entry at its
port. -/
theorem stopDevice_stops (fuel : Nat) : StopsPort (stopDevice fuel) := by
  induction fuel with
  | zero => exact fun _ _ _ _ _ hrun => absurd hrun nofun
  | succ fuel ih =>
    intro s₀ hub port s' hhubs₀ hrun
    have hloop : ∀ (l : List Nat), (∀ i ∈ l, i ∈ indices) → ∀ s, HubsNumbered s →
        (∀ hub', Below s hub hub' → Below s₀ hub hub') →
        l.foldlM (fun s count =>
          if (s.devInfo count).isAt hub port then
            (disconnectDevice (stopDevice fuel) s count).map (leaveEntry · count)
          else some s) s = some s' →
        Stops (Below s₀ hub) (·.At hub port) s s' ∧
          ∀ i ∈ l, Listed s i → (s.devInfo i).At hub port → Left (s'.devInfo i) := by
      intro l
      induction l with
      | nil =>
        intro _ s _ _ hrun
        obtain rfl := Option.some.inj hrun
        exact ⟨Stops.refl s, nofun⟩
      | cons i l ihl =>
        intro hmem s hhubs hB hrun
        rw [List.foldlM_cons] at hrun
        obtain ⟨s₁, hfirst, hrest⟩ := Option.bind_eq_some_iff.mp hrun
        obtain ⟨hstops, hleft⟩ := stops_entry ih hhubs hB (hmem i (.head l)) hfirst
        obtain ⟨hstops', hleft'⟩ := ihl (fun j hj => hmem j (.tail i hj)) s₁
          (hstops.hubsNumbered hhubs) (fun hub' h => hB hub' (hstops.below h)) hrest
        refine ⟨hstops.trans hstops', fun j hj hlisted hat => ?_⟩
        obtain rfl | hj := List.mem_cons.mp hj
        · exact hstops'.left (hleft hlisted hat)
        · obtain heq | ⟨-, -, hgone⟩ := hstops.entry j
          · exact hleft' j hj (hlisted.congr heq) (by rw [heq]; exact hat)
          · exact hstops'.left hgone.toLeft
    obtain ⟨hstops, hleft⟩ := hloop indices (fun _ => id) s₀ hhubs₀ (fun _ => id) hrun
    have hleft : ∀ i, Listed s₀ i → (s₀.devInfo i).At hub port → Left (s'.devInfo i) :=
      fun i hlisted hat => hleft i hlisted.mem hlisted hat
    refine ⟨⟨hstops.temp, hstops.detection, hstops.entry, hstops.free, ?_⟩, hleft⟩
    intro i j hlive hzero hj hsame _
    by_cases hat : (s₀.devInfo i).At hub port
    · exact hleft j hj ⟨hsame.1.trans hat.1, hsame.2.trans hat.2⟩
    · exact hstops.whole i j hlive hzero hj hsame hat

end BayTrail.Usb
