import BayTrail.Usb.KeyBuffer

/-!
# Key events

`UsbKbdDataHandler` of `UsbKbd.c`, for a keyboard whose buffers `USBKBDConfigureDevice` has
created, and what a sequence of reports does to its two key buffers: the codes of the keys
that are pressed, and the events of keys that are released and pressed.
-/

namespace BayTrail.Usb.Kbd

open BayTrail.Lib

/-- `USB_KEY`. -/
structure UsbKey where
  keyCode : UInt8
  press : Bool
  deriving DecidableEq, Repr

/-- The eight bytes of a report. -/
structure Report where
  modifier : UInt8
  reserved : UInt8
  keys : List UInt8
  six : keys.length = 6

/-- `KeyCodeBuffer` and `UsbKeyBuffer` of `DEV_INFO`. -/
structure Keyboard where
  keyCodeBuffer : KeyBuffer UInt8
  usbKeyBuffer : KeyBuffer UsbKey

def created : Keyboard := ⟨initKeyBuffer 0, initKeyBuffer ⟨0, false⟩⟩

/-- The usages of the modifier bits that are set. -/
def modifierCodes (modifier : UInt8) : List UInt8 :=
  ((List.range 8).filter modifier.toNat.testBit).map fun i => 0xE0 + UInt8.ofNat i

/-- The loop over the key codes: they are added to `WorkSpace`, unless the input overruns. -/
def scanKeys : List UInt8 → List UInt8 → Option (List UInt8)
  | [], workSpace => some workSpace
  | c :: keys, workSpace =>
    if c = 0 then some workSpace
    else if c = 1 then none
    else scanKeys keys (workSpace ++ [c])

def Keyboard.event (kb : Keyboard) (key : UsbKey) : Keyboard := { kb with usbKeyBuffer := insertKey kb.usbKeyBuffer key }

/-- One key of the key code buffer. -/
def releaseRound (workSpace : List UInt8) (s : Keyboard × Option Nat) : Run (Next (Keyboard × Option Nat) Keyboard) := do
  let key ← getNextKey s.1.keyCodeBuffer s.2
  match key with
  | none => pure (.done s.1)
  | some key =>
    let keyCode := s.1.keyCodeBuffer.buffer key
    if keyCode ∈ workSpace then pure (.again (s.1, some key))
    else do
      let keyCodeBuffer ← removeKey s.1.keyCodeBuffer key
      pure (.again (Keyboard.event { s.1 with keyCodeBuffer := keyCodeBuffer } ⟨keyCode, false⟩, some key))

/-- The loop over `WorkSpace`. -/
def pressLoop : List UInt8 → Keyboard → Run Keyboard
  | [], kb => pure kb
  | c :: workSpace, kb =>
    if c = 0 then pure kb
    else do
      let key ← findKey kb.keyCodeBuffer c
      if key.isSome then pressLoop workSpace kb
      else pressLoop workSpace (Keyboard.event { kb with keyCodeBuffer := insertKey kb.keyCodeBuffer c } ⟨c, true⟩)

def usbKbdDataHandler (kb : Keyboard) (report : Report) : Run Keyboard :=
  match scanKeys report.keys (modifierCodes report.modifier) with
  | none => pure (kb.event ⟨1, true⟩)
  | some workSpace => do
    let kb ← Run.loop (releaseRound workSpace) (kb, none)
    pressLoop workSpace kb

/-! ## What a report says -/

/-- The key codes in front of the first zero. -/
def Report.scanned (report : Report) : List UInt8 := report.keys.takeWhile (· ≠ 0)

/-- `WorkSpace`. -/
def Report.workSpace (report : Report) : List UInt8 := modifierCodes report.modifier ++ report.scanned

/-- The keys that are pressed in a report, in any of its positions. -/
def Report.Pressed (report : Report) (c : UInt8) : Prop := c ∈ modifierCodes report.modifier ∨ (c ∈ report.keys ∧ c ≠ 0)

/-- The keyboard has more keys to report than the report has room for. -/
def Report.Overrun (report : Report) : Prop := 1 ∈ report.keys

/-- The codes behind a zero say nothing new. -/
def Report.Unbroken (report : Report) : Prop :=
  1 ∈ report.scanned ∨ ∀ c ∈ report.keys, c ≠ 0 → c ∈ report.scanned ∨ c ∈ modifierCodes report.modifier

/-- The keys in the buffer become those of the report, each change with its event. -/
structure Balanced (kb kb' : Keyboard) (report : Report) : Prop where
  pressed : ∀ c, c ∈ kb'.keyCodeBuffer.contents ↔ report.Pressed c
  events : ∃ left joined : List UInt8, left.Nodup ∧ joined.Nodup
    ∧ (∀ c, c ∈ left ↔ c ∈ kb.keyCodeBuffer.contents ∧ ¬ report.Pressed c)
    ∧ (∀ c, c ∈ joined ↔ report.Pressed c ∧ c ∉ kb.keyCodeBuffer.contents)
    ∧ kb'.usbKeyBuffer.contents
      = latest (kb.usbKeyBuffer.contents ++ (left.map (⟨·, false⟩) ++ joined.map (⟨·, true⟩)))

/-- What happens to a keyboard. -/
inductive Step where
  /-- a report arrives -/
  | report (report : Report)
  /-- an event is taken out of `UsbKeyBuffer` -/
  | getKey

/-- Every report of a sequence is handled, and keeps the keys and their events. -/
def AllBalanced : Keyboard → List Step → Prop
  | _, [] => True
  | kb, .getKey :: steps => AllBalanced { kb with usbKeyBuffer := getKey kb.usbKeyBuffer } steps
  | kb, .report report :: steps => ∃ kb', (usbKbdDataHandler kb report).Returns kb'
      ∧ (¬ report.Overrun → Balanced kb kb' report)
      ∧ (report.Overrun → kb'.keyCodeBuffer.contents = kb.keyCodeBuffer.contents) ∧ AllBalanced kb' steps

/-! ## The two loops -/

/-- The codes in one buffer, and of the events so far the latest ones in the other. -/
structure Carries (kb : Keyboard) (codes : List UInt8) (events : List UsbKey) : Prop where
  keyCodes : Queued kb.keyCodeBuffer codes
  usbKeys : Queued kb.usbKeyBuffer (latest events)
  distinct : codes.Nodup

section

variable {kb : Keyboard} {codes done todo workSpace : List UInt8} {events : List UsbKey} {key : Option Nat} {report : Report}
  {c x : UInt8}

theorem Carries.event (h : Carries kb codes events) (e : UsbKey) : Carries (kb.event e) codes (events ++ [e]) := by
  refine ⟨h.keyCodes, ?_, h.distinct⟩
  rw [← latest_append]
  exact insertKey_queued h.usbKeys e

/-- The place of the walk: behind so many keys. -/
def Behind (kb : Keyboard) (key : Option Nat) (j : Nat) : Prop :=
  key = some (slotBefore kb.keyCodeBuffer j) ∨ (key = none ∧ j = 0)

theorem slotBefore_succ (kb : Keyboard) (j : Nat) :
    slotBefore kb.keyCodeBuffer (j + 1) = (kb.keyCodeBuffer.tail + j) % maxKey := by
  simp only [slotBefore, maxKey]
  omega

theorem releaseRound_done (h : Carries kb done events) (hkey : Behind kb key done.length) :
    (releaseRound workSpace (kb, key)).Returns (.done kb) := by
  have hnext := getNextKey_returns h.keyCodes le_rfl hkey
  rw [if_neg (Nat.lt_irrefl _)] at hnext
  exact hnext.bind (Run.returns_pure.mpr rfl)

theorem releaseRound_kept (h : Carries kb (done ++ x :: todo) events) (hkey : Behind kb key done.length) (hx : x ∈ workSpace) :
    ∃ key', (releaseRound workSpace (kb, key)).Returns (.again (kb, key')) ∧ Behind kb key' (done ++ [x]).length := by
  have hlt : done.length < (done ++ x :: todo).length := by simp
  have hnext := getNextKey_returns h.keyCodes hlt.le hkey
  rw [if_pos hlt] at hnext
  have hat := h.keyCodes.at hlt
  rw [List.getElem_append_right le_rfl] at hat
  simp only [Nat.sub_self, List.getElem_cons_zero] at hat
  refine ⟨some ((kb.keyCodeBuffer.tail + done.length) % maxKey), hnext.bind ?_, Or.inl ?_⟩
  · simp only [hat, if_pos hx]
    exact Run.returns_pure.mpr rfl
  · rw [List.length_append, List.length_singleton, slotBefore_succ]

theorem releaseRound_left (h : Carries kb (done ++ x :: todo) events) (hkey : Behind kb key done.length) (hx : x ∉ workSpace) :
    ∃ kb' key', (releaseRound workSpace (kb, key)).Returns (.again (kb', key')) ∧ Behind kb' key' done.length
      ∧ Carries kb' (done ++ todo) (events ++ [⟨x, false⟩]) := by
  have hlt : done.length < (done ++ x :: todo).length := by simp
  have hnext := getNextKey_returns h.keyCodes hlt.le hkey
  rw [if_pos hlt] at hnext
  have hat := h.keyCodes.at hlt
  rw [List.getElem_append_right le_rfl] at hat
  simp only [Nat.sub_self, List.getElem_cons_zero] at hat
  obtain ⟨b, hremove, hqueued, htail⟩ := removeKey_returns h.keyCodes hlt
  have herase : (done ++ x :: todo).eraseIdx done.length = done ++ todo := by
    rw [List.eraseIdx_append_of_length_le le_rfl, Nat.sub_self, List.eraseIdx_zero, List.tail_cons]
  rw [herase] at hqueued
  have hdistinct : (done ++ todo).Nodup := by
    have hsub : (done ++ todo).Sublist (done ++ x :: todo) := (List.sublist_cons_self x todo).append_left done
    exact h.distinct.sublist hsub
  have hcarries : Carries { kb with keyCodeBuffer := b } (done ++ todo) events := ⟨hqueued, h.usbKeys, hdistinct⟩
  refine ⟨_, some ((kb.keyCodeBuffer.tail + done.length) % maxKey), hnext.bind ?_, Or.inl ?_, hcarries.event ⟨x, false⟩⟩
  · simp only [hat, if_neg hx]
    exact hremove.bind (Run.returns_pure.mpr rfl)
  · -- the slot of the key is in front of the keys that have moved on
    show some _ = some ((b.tail + done.length + maxKey - 1) % maxKey)
    rw [htail]
    simp only [Option.some.injEq, maxKey]
    omega

/-- Every key that is not in `WorkSpace` is removed. -/
theorem releaseLoop_returns (workSpace : List UInt8) (h : Carries kb (done ++ todo) events) (hkey : Behind kb key done.length) :
    ∃ kb', (Run.loop (releaseRound workSpace) (kb, key)).Returns kb' ∧
      Carries kb' (done ++ todo.filter (· ∈ workSpace)) (events ++ (todo.filter (· ∉ workSpace)).map (⟨·, false⟩)) := by
  induction todo generalizing kb done events key with
  | nil =>
    rw [List.append_nil] at h
    refine ⟨kb, Run.loop_done (releaseRound_done h hkey), ?_⟩
    simpa using h
  | cons x todo ih =>
    by_cases hx : x ∈ workSpace
    · obtain ⟨key', hround, hkey'⟩ := releaseRound_kept h hkey hx
      have hmoved : Carries kb ((done ++ [x]) ++ todo) events := by rwa [List.append_assoc]
      obtain ⟨kb', hloop, hcarries⟩ := ih hmoved hkey'
      refine ⟨kb', Run.loop_again hround hloop, ?_⟩
      rw [List.filter_cons_of_pos (by simpa using hx), List.filter_cons_of_neg (by simpa using hx), List.append_cons]
      exact hcarries
    · obtain ⟨kb', key', hround, hkey', hcarries⟩ := releaseRound_left h hkey hx
      obtain ⟨kb'', hloop, hcarries'⟩ := ih hcarries hkey'
      refine ⟨kb'', Run.loop_again hround hloop, ?_⟩
      rw [List.filter_cons_of_neg (by simpa using hx), List.filter_cons_of_pos (by simpa using hx), List.map_cons, List.append_cons]
      exact hcarries'

/-- The keys of a list that are not yet among these, each once. -/
def newKeys : List UInt8 → List UInt8 → List UInt8
  | _, [] => []
  | codes, c :: keys => if c ∈ codes then newKeys codes keys else c :: newKeys (codes ++ [c]) keys

theorem mem_newKeys : c ∈ newKeys codes todo ↔ c ∈ todo ∧ c ∉ codes := by
  induction todo generalizing codes with
  | nil => simp [newKeys]
  | cons x todo ih =>
    rw [newKeys]
    split
    · next hx =>
      rw [ih, List.mem_cons]
      refine ⟨fun hc => ⟨Or.inr hc.1, hc.2⟩, fun hc => ⟨hc.1.resolve_left fun he => hc.2 (he ▸ hx), hc.2⟩⟩
    · next hx =>
      rw [List.mem_cons, ih, List.mem_cons, List.mem_append, List.mem_singleton]
      by_cases hcx : c = x
      · simp [hcx, hx]
      · simp [hcx]

theorem nodup_newKeys : (newKeys codes todo).Nodup := by
  induction todo generalizing codes with
  | nil => exact .nil
  | cons x todo ih =>
    rw [newKeys]
    split
    · exact ih
    · refine List.nodup_cons.mpr ⟨fun hx => ?_, ih⟩
      exact (mem_newKeys.mp hx).2 (List.mem_append_right _ (List.mem_singleton_self x))

/-- Every key of `WorkSpace` that is not yet pressed is added. -/
theorem pressLoop_returns (h : Carries kb codes events) (hzero : 0 ∉ todo)
    (hroom : (codes ++ newKeys codes todo).length < maxKey) :
    ∃ kb', (pressLoop todo kb).Returns kb' ∧
      Carries kb' (codes ++ newKeys codes todo) (events ++ (newKeys codes todo).map (⟨·, true⟩)) := by
  induction todo generalizing kb codes events with
  | nil =>
    refine ⟨kb, Run.returns_pure.mpr rfl, ?_⟩
    simpa [newKeys] using h
  | cons c todo ih =>
    have hc : c ≠ 0 := fun he => hzero (he ▸ List.mem_cons_self ..)
    have hzero' : 0 ∉ todo := fun hmem => hzero (List.mem_cons_of_mem _ hmem)
    obtain ⟨r, hr, hfound⟩ := findKey_returns h.keyCodes c
    rw [newKeys] at hroom ⊢
    rw [pressLoop, if_neg hc]
    by_cases hmem : c ∈ codes
    · rw [if_pos hmem] at hroom ⊢
      obtain ⟨kb', hreturns, hcarries⟩ := ih h hzero' hroom
      refine ⟨kb', hr.bind ?_, hcarries⟩
      rwa [if_pos (hfound.mpr hmem)]
    · rw [if_neg hmem] at hroom ⊢
      have hinsert := insertKey_queued h.keyCodes c
      rw [latest_of_lt (by rw [List.length_append, List.length_cons] at hroom; rw [List.length_append, List.length_singleton]; omega)]
        at hinsert
      have hdistinct : (codes ++ [c]).Nodup := by
        rw [List.nodup_append]
        exact ⟨h.distinct, List.nodup_singleton c, fun a ha b hb hab => hmem (List.mem_singleton.mp hb ▸ hab ▸ ha)⟩
      have hcarries : Carries { kb with keyCodeBuffer := insertKey kb.keyCodeBuffer c } (codes ++ [c]) events :=
        ⟨hinsert, h.usbKeys, hdistinct⟩
      obtain ⟨kb', hreturns, hcarries'⟩ := ih (hcarries.event ⟨c, true⟩) hzero' (by rwa [← List.append_cons])
      refine ⟨kb', hr.bind ?_, ?_⟩
      · rwa [if_neg fun hsome => hmem (hfound.mp hsome)]
      · rw [List.map_cons, List.append_cons codes, List.append_cons events]
        exact hcarries'

/-! ## A report -/

variable {keys : List UInt8}

theorem mem_takeWhile {p : UInt8 → Bool} (h : c ∈ keys.takeWhile p) : c ∈ keys ∧ p c = true :=
  ⟨(List.takeWhile_prefix p).subset h, List.all_eq_true.mp (List.all_takeWhile) c h⟩

theorem scanKeys_eq : scanKeys keys workSpace
    = if 1 ∈ keys.takeWhile (· ≠ 0) then none else some (workSpace ++ keys.takeWhile (· ≠ 0)) := by
  induction keys generalizing workSpace with
  | nil => simp [scanKeys]
  | cons c keys ih =>
    rw [scanKeys]
    by_cases hzero : c = 0
    · simp [hzero]
    · rw [if_neg hzero, List.takeWhile_cons_of_pos (by simpa using hzero)]
      by_cases hone : c = 1
      · rw [if_pos hone, if_pos (hone ▸ List.mem_cons_self ..)]
      · rw [if_neg hone, ih, List.append_assoc, List.singleton_append]
        simp only [List.mem_cons, Ne.symm hone, false_or]

theorem modifierCodes_ge (hc : c ∈ modifierCodes report.modifier) : 0xE0 ≤ c := by
  obtain ⟨i, hi, rfl⟩ := List.mem_map.mp hc
  have hall : ∀ i ∈ List.range 8, (0xE0 : UInt8) ≤ 0xE0 + UInt8.ofNat i := by decide
  exact hall i (List.mem_of_mem_filter hi)

theorem zero_not_mem_workSpace : 0 ∉ report.workSpace := by
  intro hmem
  rcases List.mem_append.mp hmem with hmem | hmem
  · exact absurd (modifierCodes_ge hmem) (by decide)
  · exact absurd (mem_takeWhile hmem).2 (by decide)

theorem length_workSpace : report.workSpace.length ≤ 14 := by
  have hmodifiers : (modifierCodes report.modifier).length ≤ 8 := by
    rw [modifierCodes, List.length_map]
    exact List.length_filter_le ..
  have hkeys : report.scanned.length ≤ 6 := report.six ▸ (List.takeWhile_prefix _).length_le
  rw [Report.workSpace, List.length_append]
  omega

/-- The codes after a report that is not taken for an overrun. -/
def codesAfter (codes : List UInt8) (report : Report) : List UInt8 :=
  codes.filter (· ∈ report.workSpace) ++ newKeys (codes.filter (· ∈ report.workSpace)) report.workSpace

theorem mem_codesAfter : c ∈ codesAfter codes report ↔ c ∈ report.workSpace := by
  rw [codesAfter, List.mem_append, mem_newKeys]
  by_cases hc : c ∈ codes.filter (· ∈ report.workSpace)
  · simp only [hc, true_or, true_iff]
    simpa using (List.mem_filter.mp hc).2
  · simp only [hc, false_or, not_false_eq_true, and_true]

theorem nodup_codesAfter (h : codes.Nodup) : (codesAfter codes report).Nodup := by
  refine List.nodup_append.mpr ⟨h.filter _, nodup_newKeys, fun a ha b hb hab => ?_⟩
  exact (mem_newKeys.mp hb).2 (hab ▸ ha)

theorem handler_overrun (h : Carries kb codes events) (hone : 1 ∈ report.scanned) :
    ∃ kb', (usbKbdDataHandler kb report).Returns kb' ∧ Carries kb' codes (events ++ [⟨1, true⟩]) := by
  refine ⟨kb.event ⟨1, true⟩, ?_, h.event _⟩
  simp only [usbKbdDataHandler, scanKeys_eq]
  rw [Report.scanned] at hone
  simp only [if_pos hone]
  exact Run.returns_pure.mpr rfl

theorem handler_keys (h : Carries kb codes events) (hone : 1 ∉ report.scanned) :
    ∃ kb', (usbKbdDataHandler kb report).Returns kb' ∧ Carries kb' (codesAfter codes report)
      (events ++ ((codes.filter (· ∉ report.workSpace)).map (⟨·, false⟩)
        ++ (newKeys (codes.filter (· ∈ report.workSpace)) report.workSpace).map (⟨·, true⟩))) := by
  have hstart : Carries kb ([] ++ codes) events := h
  obtain ⟨kb', hrelease, hkept⟩ := releaseLoop_returns report.workSpace hstart (Or.inr ⟨rfl, rfl⟩)
  rw [List.nil_append] at hkept
  have hroom : (codesAfter codes report).length < maxKey := by
    have hsub : codesAfter codes report ⊆ report.workSpace := fun c hc => mem_codesAfter.mp hc
    have hsub := (nodup_codesAfter h.distinct).subperm hsub
    exact Nat.lt_of_le_of_lt (hsub.length_le.trans length_workSpace) (by decide)
  obtain ⟨kb'', hpress, hcarries⟩ := pressLoop_returns hkept zero_not_mem_workSpace hroom
  refine ⟨kb'', ?_, by rwa [List.append_assoc] at hcarries⟩
  simp only [usbKbdDataHandler, scanKeys_eq]
  rw [Report.scanned] at hone
  simp only [if_neg hone]
  exact hrelease.bind hpress

theorem pressed_iff (h : report.Unbroken) (hone : 1 ∉ report.scanned) : report.Pressed c ↔ c ∈ report.workSpace := by
  rw [Report.Pressed, Report.workSpace, List.mem_append]
  constructor
  · rintro (hc | ⟨hc, hzero⟩)
    · exact Or.inl hc
    · exact ((h.resolve_left hone) c hc hzero).symm
  · rintro (hc | hc)
    · exact Or.inl hc
    · obtain ⟨hmem, hne⟩ := mem_takeWhile hc
      exact Or.inr ⟨hmem, by simpa using hne⟩

theorem Overrun.scanned (h : report.Unbroken) (hone : report.Overrun) : 1 ∈ report.scanned := by
  rcases h with h | h
  · exact h
  · refine (h 1 hone (by decide)).resolve_right fun hmem => absurd (modifierCodes_ge hmem) (by decide)

/-- The step of a run. -/
theorem handler_balanced (h : Carries kb codes events) (hunbroken : report.Unbroken) :
    ∃ kb' codes' events', (usbKbdDataHandler kb report).Returns kb' ∧ Carries kb' codes' events'
      ∧ (¬ report.Overrun → Balanced kb kb' report)
      ∧ (report.Overrun → kb'.keyCodeBuffer.contents = kb.keyCodeBuffer.contents) := by
  by_cases hone : 1 ∈ report.scanned
  · obtain ⟨kb', hreturns, hcarries⟩ := handler_overrun h hone
    refine ⟨kb', _, _, hreturns, hcarries, fun hno => absurd (mem_takeWhile hone).1 hno, fun _ => ?_⟩
    rw [hcarries.keyCodes.contents, h.keyCodes.contents]
  · obtain ⟨kb', hreturns, hcarries⟩ := handler_keys h hone
    refine ⟨kb', _, _, hreturns, hcarries, fun _ => ⟨fun c => ?_, ?_⟩, fun hover => absurd (Overrun.scanned hunbroken hover) hone⟩
    · rw [hcarries.keyCodes.contents, mem_codesAfter, pressed_iff hunbroken hone]
    · refine ⟨codes.filter (· ∉ report.workSpace), newKeys (codes.filter (· ∈ report.workSpace)) report.workSpace,
        h.distinct.filter _, nodup_newKeys, fun c => ?_, fun c => ?_, ?_⟩
      · rw [List.mem_filter, h.keyCodes.contents, pressed_iff hunbroken hone, decide_eq_true_eq]
      · rw [mem_newKeys, h.keyCodes.contents, pressed_iff hunbroken hone, List.mem_filter, decide_eq_true_eq]
        exact ⟨fun hc => ⟨hc.1, fun hmem => hc.2 ⟨hmem, hc.1⟩⟩, fun hc => ⟨hc.1, fun hmem => hc.2 hmem.1⟩⟩
      · rw [hcarries.usbKeys.contents, h.usbKeys.contents, latest_append]

theorem Carries.getKey (h : Carries kb codes events) :
    ∃ events', Carries { kb with usbKeyBuffer := Kbd.getKey kb.usbKeyBuffer } codes events' := by
  have hqueued := getKey_queued h.usbKeys
  refine ⟨(latest events).tail, h.keyCodes, ?_, h.distinct⟩
  rwa [latest_of_lt hqueued.room]

theorem allBalanced_of_carries (h : Carries kb codes events) {steps : List Step}
    (hunbroken : ∀ report, .report report ∈ steps → report.Unbroken) : AllBalanced kb steps := by
  induction steps generalizing kb codes events with
  | nil => trivial
  | cons step steps ih =>
    have hsteps : ∀ report, .report report ∈ steps → report.Unbroken := fun report hr => hunbroken report (List.mem_cons_of_mem _ hr)
    cases step with
    | report report =>
      obtain ⟨kb', codes', events', hreturns, hcarries, hbalanced, hover⟩ := handler_balanced h (hunbroken report (List.mem_cons_self ..))
      exact ⟨kb', hreturns, hbalanced, hover, ih hcarries hsteps⟩
    | getKey =>
      obtain ⟨events', hcarries⟩ := h.getKey
      exact ih hcarries hsteps

theorem carries_created : Carries created [] [] := ⟨queued_init _, queued_init _, .nil⟩

end

/-! ## Runs of reports -/

/-- In every sequence of reports without news behind a zero, the keys are those of the last report and each
change of them has its event. -/
theorem key_events (steps : List Step) (hunbroken : ∀ report, .report report ∈ steps → report.Unbroken) :
    AllBalanced created steps :=
  allBalanced_of_carries carries_created hunbroken

/-- Two keys, and then one of them. -/
theorem key_events_two : AllBalanced created [.report ⟨2, 0, [4, 5, 0, 0, 0, 0], rfl⟩, .getKey, .report ⟨0, 0, [5, 0, 0, 0, 0, 0], rfl⟩] := by
  refine key_events _ fun report hr => ?_
  rcases List.mem_cons.mp hr with hr | hr
  · obtain rfl := Step.report.inj hr
    refine Or.inr fun c hc hzero => Or.inl ?_
    have hmem : c = 4 ∨ c = 5 := by simpa [hzero] using hc
    simpa [Report.scanned] using hmem
  · rcases List.mem_cons.mp hr with hr | hr
    · cases hr
    · obtain rfl := Step.report.inj (List.mem_singleton.mp hr)
      refine Or.inr fun c hc hzero => Or.inl ?_
      have hmem : c = 5 := by simpa [hzero] using hc
      simpa [Report.scanned] using hmem

/-- A key behind a zero is not seen. -/
theorem not_key_events : ¬ ∀ steps : List Step, AllBalanced created steps := by
  intro hall
  obtain ⟨kb', hreturns, hbalanced, -⟩ := hall [.report ⟨0, 0, [0, 4, 0, 0, 0, 0], rfl⟩]
  have hscanned : 1 ∉ (⟨0, 0, [0, 4, 0, 0, 0, 0], rfl⟩ : Report).scanned := by decide
  obtain ⟨kb'', hreturns', hcarries⟩ := handler_keys carries_created hscanned
  obtain rfl := Option.some.inj (hreturns.unique hreturns')
  have hone : (1 : UInt8) ∉ [0, 4, 0, 0, 0, 0] := by decide
  have hpressed := ((hbalanced hone).pressed 4).mpr (Or.inr (by decide))
  rw [hcarries.keyCodes.contents, mem_codesAfter] at hpressed
  exact absurd hpressed (by decide)

end BayTrail.Usb.Kbd
