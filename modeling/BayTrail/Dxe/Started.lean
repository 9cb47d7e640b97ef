import BayTrail.Dxe.DispatcherRuns

/-!
# No driver is started twice

The runs of the dispatcher, and what can be relied on in all of them: the queue is never corrupted, a driver
is in one state at a time and is started once at most, and drivers have their turns in the order in which
they get on the queue, those that are to run before or after another one on their side of it.
-/

namespace BayTrail.Dxe

open BayTrail.Lib BayTrail.Lib.Hanging

variable {d d' : Dispatcher} {e e' : DriverEntry} {s : DriverState} {started : List Nat} {i j : Nat}

/-! ## Firmware volumes -/

/-- What the files of a volume are relied on for: their names are new, and the a priori file lists none twice
and none the dependency expression of which cannot be read or asks for a request. -/
structure FirmwareVolume.Proper (fv : FirmwareVolume) (d : Dispatcher) : Prop where
  names : (fv.drivers.map FvFile.name).Nodup
  fresh : ∀ f ∈ fv.drivers, ∀ e ∈ d.discovered, e.fileName ≠ f.name
  apriori_nodup : fv.apriori.Nodup
  apriori_dependent : ∀ f ∈ fv.drivers, f.name ∈ fv.apriori → f.depex.state = .dependent

theorem added_inState (handle : Nat) (f : FvFile) : (coreAddToDriverList handle f).InState f.depex.state :=
  read_inState ⟨rfl, rfl, rfl, rfl, rfl, rfl, rfl⟩ f.depex

theorem added_name (handle : Nat) (f : FvFile) :
    (coreAddToDriverList handle f).fileName = f.name ∧ (coreAddToDriverList handle f).fvHandle = handle :=
  read_name _ f.depex

/-- The drivers of a new volume are put on the list. -/
theorem sound_added (h : d.Sound started) {fv : FirmwareVolume} (hproper : fv.Proper d) (fvNameGuid : Bytes) :
    ({ d with
        fvHandleList := d.fvHandleList ++ [⟨fv.handle, fvNameGuid⟩]
        discovered := d.discovered ++ fv.drivers.map (coreAddToDriverList fv.handle) } : Dispatcher).Sound started := by
  have hold : ∀ {j e}, d.discovered[j]? = some e →
      (d.discovered ++ fv.drivers.map (coreAddToDriverList fv.handle))[j]? = some e := fun hj => by
    rw [List.getElem?_append_left (List.getElem?_eq_some_iff.mp hj).1, hj]
  have hnames : (fv.drivers.map (coreAddToDriverList fv.handle)).map DriverEntry.fileName = fv.drivers.map FvFile.name := by
    rw [List.map_map]
    exact List.map_congr_left fun f _ => (added_name fv.handle f).1
  refine ⟨?_, fun e he => ?_, fun e he => ?_, h.queue_nodup, fun j => ⟨fun hj => ?_, fun hj => ?_⟩, h.started_nodup, fun j hj => ?_⟩
  · rw [List.map_append, hnames, List.nodup_append]
    refine ⟨h.names, hproper.names, fun a ha b hb heq => ?_⟩
    obtain ⟨e, he, rfl⟩ := List.mem_map.mp ha
    obtain ⟨f, hf, rfl⟩ := List.mem_map.mp hb
    exact hproper.fresh f hf e he heq
  · rcases List.mem_append.mp he with he | he
    · obtain ⟨k, hk, heq⟩ := h.handles e he
      exact ⟨k, List.mem_append_left _ hk, heq⟩
    · obtain ⟨f, -, rfl⟩ := List.mem_map.mp he
      exact ⟨_, List.mem_append_right _ List.mem_cons_self, (added_name fv.handle f).2.symm⟩
  · rcases List.mem_append.mp he with he | he
    · exact h.states e he
    · obtain ⟨f, -, rfl⟩ := List.mem_map.mp he
      exact ⟨_, added_inState fv.handle f⟩
  · obtain ⟨e, he, hs⟩ := (h.queue_iff j).mp hj
    exact ⟨e, hold he, hs⟩
  · obtain ⟨e, he, hs⟩ := hj
    rw [List.getElem?_append] at he
    split at he
    · exact (h.queue_iff j).mpr ⟨e, he, hs⟩
    · -- no new driver is scheduled yet
      obtain ⟨f, -, rfl⟩ := List.mem_map.mp (List.mem_of_getElem? he)
      exact absurd ((added_inState fv.handle f).unique hs) (state_ne_scheduled f.depex)
  · obtain ⟨e, he, hs⟩ := h.started_done j hj
    exact ⟨e, hold he, hs⟩

/-- The drivers that an a priori file lists are put on the queue. -/
theorem sound_apriori {handle : Nat} : ∀ {names : List Bytes} {d : Dispatcher}, d.Sound started → names.Nodup →
    (∀ name ∈ names, ∀ (i : Nat) (e : DriverEntry), d.discovered[i]? = some e → e.fileName = name → e.fvHandle = handle → e.InState .dependent) →
    ∃ d', names.foldlM (Dispatcher.scheduleApriori handle) d = some d' ∧ d'.Sound started ∧ d.scheduledQueue <+: d'.scheduledQueue
  | [], d, h, _, _ => ⟨d, rfl, h, List.prefix_rfl⟩
  | name :: names, d, h, hnodup, hdep => by
    obtain ⟨hname, hnodup⟩ := List.nodup_cons.mp hnodup
    have hrest := fun name' hmem => hdep name' (List.mem_cons_of_mem _ hmem)
    rw [List.foldlM_cons, Option.bind_eq_bind]
    cases hfind : d.discovered.findIdx? fun e => e.fileName == name && handle == e.fvHandle with
    | none =>
      rw [Dispatcher.scheduleApriori, hfind, Option.bind_some]
      exact sound_apriori h hnodup hrest
    | some i =>
      obtain ⟨e, hi, hq⟩ := found_of_findIdx hfind
      obtain ⟨hq₁, hq₂⟩ := Bool.and_eq_true_iff.mp hq
      have hs := hdep name List.mem_cons_self i e hi (beq_iff_eq.mp hq₁) (beq_iff_eq.mp hq₂).symm
      have hschedule := schedule_eq (h.orderly.waiting hi hs.dependent)
      rw [Dispatcher.scheduleApriori, hfind]
      dsimp only
      rw [hschedule, Option.bind_some]
      obtain ⟨d', hd', hsound, hprefix⟩ := sound_apriori (h.enqueue_one hi hs) hnodup fun name' hmem j e' hj hname' hhandle => by
        obtain ⟨x, hx, rfl⟩ := enqueue_entry hj
        by_cases hji : j = i
        · -- the driver just scheduled has another name
          obtain rfl := Option.some.inj (hi.symm.trans (hji ▸ hx))
          rw [if_pos (List.mem_singleton.mpr hji)] at hname'
          exact absurd (hname'.symm.trans (beq_iff_eq.mp hq₁)) fun heq => hname (heq ▸ hmem)
        · have hne : j ∉ [i] := fun hmem => hji (List.mem_singleton.mp hmem)
          rw [if_neg hne] at hname' hhandle ⊢
          exact hrest name' hmem j x hx hname' hhandle
      exact ⟨d', hd', hsound, (List.prefix_append _ _).trans hprefix⟩

theorem sound_notify (h : d.Sound started) (fv : FirmwareVolume)
    (hproper : d.isNew fv = true → fv.dispatchable = true → fv.Proper d) :
    ∃ d', coreFwVolEventProtocolNotify d fv = some d' ∧ d'.Sound started ∧ d.scheduledQueue <+: d'.scheduledQueue := by
  unfold coreFwVolEventProtocolNotify
  cases hnew : d.isNew fv with
  | false => exact ⟨d, rfl, h, List.prefix_rfl⟩
  | true =>
    rw [if_pos rfl]
    dsimp only
    cases hdisp : fv.dispatchable with
    | false =>
      refine ⟨_, rfl, ⟨h.names, fun e he => ?_, h.states, h.queue_nodup, h.queue_iff, h.started_nodup, h.started_done⟩, List.prefix_rfl⟩
      obtain ⟨k, hk, heq⟩ := h.handles e he
      exact ⟨k, List.mem_append_left _ hk, heq⟩
    | true =>
      have hfv := hproper hnew hdisp
      rw [if_pos rfl]
      refine sound_apriori (sound_added h hfv _) hfv.apriori_nodup fun name hname i e he hen heh => ?_
      rw [List.getElem?_append] at he
      split at he
      · -- the other drivers are from other volumes
        obtain ⟨k, hk, heq⟩ := h.handles e (List.mem_of_getElem? he)
        rw [Dispatcher.isNew, Bool.and_eq_true, Bool.not_eq_true', List.any_eq_false] at hnew
        exact absurd (beq_iff_eq.mpr (heq.trans heh)) (hnew.1 k hk)
      · obtain ⟨f, hf, rfl⟩ := List.mem_map.mp (List.mem_of_getElem? he)
        have hstate := added_inState fv.handle f
        rwa [hfv.apriori_dependent f hf ((added_name fv.handle f).1 ▸ hen ▸ hname)] at hstate

/-! ## Runs -/

/-- What may happen: a volume is found, a driver asks for one or trusts it, or the dispatcher looks at a
driver or lets the next one have its turn. -/
inductive Event where
  | notify (fv : FirmwareVolume)
  | schedule (fvHandle : Nat) (driverName : Bytes)
  | trust (fvHandle : Nat) (driverName : Bytes)
  | visit (p : Platform) (again : Section) (i : Nat)
  | drain (load : LoadStatus)

def Event.Proper (d : Dispatcher) : Event → Prop
  | .notify fv => d.isNew fv = true → fv.dispatchable = true → fv.Proper d
  | _ => True

/-- The dispatcher after an event, and the driver that had its turn and whether it was started. -/
def Dispatcher.step (d : Dispatcher) : Event → Option (Dispatcher × Option (Nat × Bool))
  | .notify fv => (coreFwVolEventProtocolNotify d fv).map fun d => (d, none)
  | .schedule fvHandle driverName => some (coreSchedule d fvHandle driverName, none)
  | .trust fvHandle driverName => (coreTrust d fvHandle driverName).map fun d => (d, none)
  | .visit p again i => (d.visit p again i).map fun r => (r.1, none)
  | .drain load => some (d.drain load)

def Dispatcher.run (d : Dispatcher) : List Event → Option (Dispatcher × List (Nat × Bool))
  | [] => some (d, [])
  | ev :: evs => do
    let (d, turn) ← d.step ev
    let (d, turns) ← d.run evs
    return (d, turn.toList ++ turns)

/-- Volumes are as they should be whenever one is found. -/
def ProperRun (d : Dispatcher) : List Event → Prop
  | [] => True
  | ev :: evs => ev.Proper d ∧ ∀ d' turn, d.step ev = some (d', turn) → ProperRun d' evs

theorem startedIn_append (a b : List (Nat × Bool)) : startedIn (a ++ b) = startedIn a ++ startedIn b := by
  rw [startedIn, List.filter_append, List.map_append]
  rfl

/-- Every event is dealt with, and no driver is passed on the queue. -/
theorem sound_step (h : d.Sound started) (ev : Event) (hproper : ev.Proper d) :
    ∃ d' turn, d.step ev = some (d', turn) ∧ d'.Sound (started ++ startedIn turn.toList)
      ∧ d.scheduledQueue <+: turn.toList.map Prod.fst ++ d'.scheduledQueue := by
  have hquiet : started ++ startedIn (Option.toList none) = started := List.append_nil started
  cases ev with
  | notify fv =>
    obtain ⟨d', hd', hsound, hprefix⟩ := sound_notify h fv hproper
    exact ⟨d', none, by rw [Dispatcher.step, hd', Option.map_some], by rw [hquiet]; exact hsound, hprefix⟩
  | schedule fvHandle driverName =>
    refine ⟨_, none, rfl, by rw [hquiet]; exact sound_coreSchedule h fvHandle driverName, ?_⟩
    unfold coreSchedule
    split <;> exact List.prefix_rfl
  | trust fvHandle driverName =>
    obtain ⟨d', hd', hsound, hprefix⟩ := sound_coreTrust h fvHandle driverName
    exact ⟨d', none, by rw [Dispatcher.step, hd', Option.map_some], by rw [hquiet]; exact hsound, hprefix⟩
  | visit p again i =>
    obtain ⟨d', ready, hd', hsound, hprefix, -⟩ := sound_visit h p again i
    exact ⟨d', none, by rw [Dispatcher.step, hd', Option.map_some], by rw [hquiet]; exact hsound, hprefix⟩
  | drain load =>
    obtain ⟨hsound, hqueue⟩ := sound_drain h load
    exact ⟨_, _, rfl, hsound, hqueue ▸ List.prefix_rfl⟩

theorem sound_run : ∀ {evs : List Event} {d : Dispatcher} {started : List Nat}, d.Sound started → ProperRun d evs →
    ∃ d' turns, d.run evs = some (d', turns) ∧ d'.Sound (started ++ startedIn turns)
      ∧ d.scheduledQueue <+: turns.map Prod.fst ++ d'.scheduledQueue
  | [], d, started, h, _ => ⟨d, [], rfl, by rw [show startedIn [] = [] from rfl, List.append_nil]; exact h, List.prefix_rfl⟩
  | ev :: evs, d, started, h, hproper => by
    obtain ⟨d₁, turn, hstep, h₁, hprefix₁⟩ := sound_step h ev hproper.1
    obtain ⟨d₂, turns, hrun, h₂, hprefix₂⟩ := sound_run h₁ (hproper.2 d₁ turn hstep)
    refine ⟨d₂, turn.toList ++ turns, ?_, ?_, ?_⟩
    · rw [Dispatcher.run, hstep, Option.bind_eq_bind, Option.bind_some]
      dsimp only
      rw [hrun]
      rfl
    · rw [startedIn_append, ← List.append_assoc]
      exact h₂
    · rw [List.map_append, List.append_assoc]
      exact hprefix₁.trans ((List.prefix_append_right_inj _).mpr hprefix₂)

theorem sound_empty : ({} : Dispatcher).Sound [] where
  names := List.nodup_nil
  handles _ he := absurd he List.not_mem_nil
  states _ he := absurd he List.not_mem_nil
  queue_nodup := List.nodup_nil
  queue_iff _ := ⟨fun hj => absurd hj List.not_mem_nil, fun hj => by
    obtain ⟨e, he, -⟩ := hj
    cases he⟩
  started_nodup := List.nodup_nil
  started_done _ hj := absurd hj List.not_mem_nil

/-- Whatever happens the dispatcher goes on with a queue in order: each driver is in one state, the queue is
that of the scheduled ones, and none was started more than once. -/
theorem started_once (evs : List Event) (hproper : ProperRun {} evs) :
    ∃ d turns, ({} : Dispatcher).run evs = some (d, turns)
      ∧ (∀ e ∈ d.discovered, ∃ s, e.InState s)
      ∧ d.scheduledQueue.Nodup ∧ (∀ j, j ∈ d.scheduledQueue ↔ ∃ e, d.discovered[j]? = some e ∧ e.InState .scheduled)
      ∧ (startedIn turns).Nodup ∧ ∀ j ∈ startedIn turns, ∃ e, d.discovered[j]? = some e ∧ e.InState .initialized := by
  obtain ⟨d, turns, hrun, h, -⟩ := sound_run sound_empty hproper
  exact ⟨d, turns, hrun, h.states, h.queue_nodup, h.queue_iff, h.started_nodup, h.started_done⟩

/-- A volume with a driver that is always ready and one that is to run before it. -/
def twoDrivers : FirmwareVolume where
  handle := 1
  fvName := none
  dispatchable := true
  files :=
    [⟨List.replicate 16 1, .driver, .found (poke (fun _ => 0) 0 [EFI_DEP_TRUE, EFI_DEP_END]) 2, false, false⟩,
      ⟨List.replicate 16 2, .driver, .found (poke (fun _ => 1) 0 [EFI_DEP_BEFORE]) 18, false, false⟩]
  apriori := []

theorem twoDrivers_proper : twoDrivers.Proper {} :=
  ⟨by decide, fun _ _ _ he => absurd he List.not_mem_nil, List.nodup_nil, fun _ _ h => absurd h List.not_mem_nil⟩

theorem started_once_two :
    ∃ d turns, ({} : Dispatcher).run [.notify twoDrivers, .visit ⟨fun _ => false, false, fun _ => true⟩ .notFound 0,
        .drain .success, .drain .success] = some (d, turns) ∧ (startedIn turns).Nodup := by
  obtain ⟨d, turns, hrun, -, -, -, hnodup, -⟩ := started_once
    [.notify twoDrivers, .visit ⟨fun _ => false, false, fun _ => true⟩ .notFound 0, .drain .success, .drain .success]
    ⟨fun _ _ => twoDrivers_proper, fun _ _ _ => ⟨trivial, fun _ _ _ => ⟨trivial, fun _ _ _ => ⟨trivial, fun _ _ _ => trivial⟩⟩⟩⟩
  exact ⟨d, turns, hrun, hnodup⟩

/-! ## Before and after -/

variable {p : Platform} {again : Section}

/-- What a visit has looked at waits for what it waited for, if it still does. -/
theorem looked_entry (hs : e.InState s) (hi : d.discovered[i]? = some e)
    (he' : (d.looked p again i e).discovered[i]? = some e') :
    e'.fileName = e.fileName ∧ (e'.before = false → e.before = false) ∧ (e'.after = false → e.after = false) := by
  obtain ⟨s₁, hs₁, -, -, hname, -⟩ := reread_inState hs again
  have hsides : ∀ side : DriverEntry → Bool, (side = DriverEntry.before ∨ side = DriverEntry.after) →
      side (if e.depexProtocolError then coreGetDepexSectionAndPreProccess e again else e) = false → side e = false := by
    intro side hside hfalse
    cases hun : e.depexProtocolError with
    | false =>
      rw [hun] at hfalse
      exact hfalse
    | true =>
      obtain ⟨hb, ha⟩ := hs.aside (of_decide_eq_true (hs.unread.symm.trans hun))
      rcases hside with rfl | rfl
      · exact hb
      · exact ha
  unfold Dispatcher.looked at he'
  dsimp only at he'
  rw [List.getElem?_set_self (List.getElem?_eq_some_iff.mp hi).1] at he'
  generalize (if e.depexProtocolError then coreGetDepexSectionAndPreProccess e again else e) = e₁ at hs₁ hname hsides he'
  obtain rfl := Option.some.inj he'
  obtain ⟨-, hname₂, -, hbefore, hafter, -⟩ := isSchedulable_inState hs₁ p d.room
  split
  · exact ⟨hname₂.trans hname, fun h => hsides _ (Or.inl rfl) (hbefore.symm.trans h), fun h => hsides _ (Or.inr rfl) (hafter.symm.trans h)⟩
  · exact ⟨hname, hsides _ (Or.inl rfl), hsides _ (Or.inr rfl)⟩

/-- Looking at a driver that is on no side of another one changes nothing about who waits for whom. -/
theorem hangs_looked {side : DriverEntry → Bool} {x y : Nat}
    (hi : d.discovered[i]? = some e) (he' : (d.looked p again i e).discovered[i]? = some e')
    (hname : e'.fileName = e.fileName) (hside : side e = false) (hside' : side e' = false) :
    (d.looked p again i e).hangs side x y = d.hangs side x y := by
  have hother : ∀ {k}, k ≠ i → (d.looked p again i e).discovered[k]? = d.discovered[k]? := fun hk =>
    List.getElem?_set_ne (Ne.symm hk)
  rw [Bool.eq_iff_iff, hangs_iff, hangs_iff]
  by_cases hy : y = i
  · -- neither of them waits
    subst hy
    constructor
    · rintro ⟨-, x, -, hx, hs, -⟩
      obtain rfl := Option.some.inj (he'.symm.trans hx)
      exact absurd (hside'.symm.trans hs) Bool.false_ne_true
    · rintro ⟨-, x, -, hx, hs, -⟩
      obtain rfl := Option.some.inj (hi.symm.trans hx)
      exact absurd (hside.symm.trans hs) Bool.false_ne_true
  · rw [hother hy]
    by_cases hx : x = i
    · subst hx
      rw [hi, he']
      constructor
      · rintro ⟨t, w, ht, hw, hs, hdep, hne, hn⟩
        obtain rfl := Option.some.inj ht
        exact ⟨e, w, rfl, hw, hs, hdep, hne, hname.symm.trans hn⟩
      · rintro ⟨t, w, ht, hw, hs, hdep, hne, hn⟩
        obtain rfl := Option.some.inj ht
        exact ⟨e', w, rfl, hw, hs, hdep, hne, hname.trans hn⟩
    · rw [hother hx]

/-- The driver `y` is to be put before or after the driver `x`. -/
def Dispatcher.HangsOn (d : Dispatcher) (x y : Nat) : Prop :=
  d.hangs DriverEntry.before x y = true ∨ d.hangs DriverEntry.after x y = true

/-- A driver that is found to be ready gets on the queue with exactly what waits for it, and for that in turn, each
once and on its side; and they all have their turns in that order after what is on the queue. -/
theorem before_and_after {evs : List Event} {turns : List (Nat × Bool)} {p : Platform} {again : Section}
    (hproper : ProperRun {} evs) (hrun : ({} : Dispatcher).run evs = some (d, turns)) (hvisit : d.visit p again i = some (d', true)) :
    ∃ seg : List Nat, d'.scheduledQueue = d.scheduledQueue ++ seg ∧ seg.Nodup
      ∧ (∀ x, x ∈ seg ↔ Relation.ReflTransGen d.HangsOn i x)
      ∧ (∀ x ∈ seg, ∀ y, (d.hangs DriverEntry.before x y = true → [y, x].Sublist seg)
        ∧ (d.hangs DriverEntry.after x y = true → [x, y].Sublist seg))
      ∧ ∀ evs', ProperRun d' evs' → ∃ d'' turns', d'.run evs' = some (d'', turns')
        ∧ d.scheduledQueue ++ seg <+: turns'.map Prod.fst ++ d''.scheduledQueue := by
  obtain ⟨d₀, turns₀, hrun₀, hd, -⟩ := sound_run sound_empty hproper
  obtain ⟨rfl, rfl⟩ := Prod.mk.inj (Option.some.inj (hrun₀.symm.trans hrun))
  cases hi : d₀.discovered[i]? with
  | none =>
    unfold Dispatcher.visit at hvisit
    rw [hi] at hvisit
    cases hvisit
  | some e =>
    obtain ⟨s, hs⟩ := hd.state hi
    obtain ⟨hlooked, hno | ⟨hyes, e', he', hs', hb, ha⟩⟩ := visit_eq hd p again hi
    · cases hno.symm.trans hvisit
    · obtain ⟨rfl, -⟩ := Prod.mk.inj (Option.some.inj (hyes.symm.trans hvisit))
      obtain ⟨hname, hb₀, ha₀⟩ := looked_entry hs hi he'
      have hbefore : ∀ x y, (d₀.looked p again i e).hangs DriverEntry.before x y = d₀.hangs DriverEntry.before x y :=
        fun x y => hangs_looked hi he' hname (hb₀ hb) hb
      have hafter : ∀ x y, (d₀.looked p again i e).hangs DriverEntry.after x y = d₀.hangs DriverEntry.after x y :=
        fun x y => hangs_looked hi he' hname (ha₀ ha) ha
      have hsides := sides hlooked.orderly
      have hroot := depth_root he' hb ha
      have hlen : (d₀.looked p again i e).discovered.length = d₀.discovered.length := List.length_set
      have hN : ∀ x m, Depth (d₀.looked p again i e).target x m → m < d₀.discovered.length + 1 := fun x m hx => hlen ▸ depth_lt hx
      obtain ⟨d₁, ready, hd₁, hsound₁, -⟩ := sound_visit hd p again i
      obtain ⟨rfl, -⟩ := Prod.mk.inj (Option.some.inj (hyes.symm.trans hd₁))
      have hleft : ∀ x ∈ (d₀.looked p again i e).line (d₀.discovered.length + 1) i, ∀ y, d₀.hangs DriverEntry.before x y = true →
          [y, x].Sublist ((d₀.looked p again i e).line (d₀.discovered.length + 1) i) := fun x hx y hy =>
        left_before hsides hN hroot (Nat.le_refl _) hx (mem_waiters.mpr ((hbefore x y).trans hy))
      have hright : ∀ x ∈ (d₀.looked p again i e).line (d₀.discovered.length + 1) i, ∀ y, d₀.hangs DriverEntry.after x y = true →
          [x, y].Sublist ((d₀.looked p again i e).line (d₀.discovered.length + 1) i) := fun x hx y hy =>
        right_after hsides hN hroot (Nat.le_refl _) hx (mem_waiters.mpr ((hafter x y).trans hy))
      refine ⟨(d₀.looked p again i e).line (d₀.discovered.length + 1) i, rfl, nodup_walk hsides hroot,
        fun x => ⟨fun hx => ?_, fun hx => ?_⟩, fun x hx y => ⟨hleft x hx y, hright x hx y⟩, fun evs' hevs' => ?_⟩
      · refine Relation.ReflTransGen.mono (fun y z hz => ?_) _ _ (reaches_of_mem hx)
        rw [mem_waiters, mem_waiters, hbefore, hafter] at hz
        exact hz
      · -- what hangs on a driver of the line is in the line
        induction hx with
        | refl => exact mem_walk_self hN hroot (Nat.le_refl _)
        | tail _ hyz hy =>
          rcases hyz with hyz | hyz
          · exact (hleft _ hy _ hyz).subset List.mem_cons_self
          · exact (hright _ hy _ hyz).subset (List.mem_cons_of_mem _ List.mem_cons_self)
      · obtain ⟨d'', turns', hrun', -, hprefix⟩ := sound_run hsound₁ hevs'
        exact ⟨d'', turns', hrun', hprefix⟩

/-- The driver that is to run before the other one is queued in front of it. -/
theorem before_and_after_two :
    ∃ d turns d', ({} : Dispatcher).run [.notify twoDrivers] = some (d, turns)
      ∧ d.visit ⟨fun _ => false, false, fun _ => true⟩ .notFound 0 = some (d', true) ∧ [1, 0].Sublist d'.scheduledQueue := by
  have hvisit : ((({} : Dispatcher).run [.notify twoDrivers]).bind fun r =>
      r.1.visit ⟨fun _ => false, false, fun _ => true⟩ .notFound 0).map Prod.snd = some true := by decide
  have hhangs : ∀ r ∈ ({} : Dispatcher).run [.notify twoDrivers], r.1.hangs DriverEntry.before 0 1 = true := by decide
  obtain ⟨⟨d', ready⟩, hbind, hready⟩ := Option.map_eq_some_iff.mp hvisit
  obtain ⟨⟨d, turns⟩, hrun, hd'⟩ := Option.bind_eq_some_iff.mp hbind
  obtain rfl : ready = true := hready
  refine ⟨d, turns, d', hrun, hd', ?_⟩
  have hproper : ProperRun {} [.notify twoDrivers] := ⟨fun _ _ => twoDrivers_proper, fun _ _ _ => trivial⟩
  obtain ⟨seg, hqueue, -, hmem, hsides, -⟩ := before_and_after hproper hrun hd'
  rw [hqueue]
  exact ((hsides 0 ((hmem 0).mpr .refl) 1).1 (hhangs _ hrun)).trans (List.sublist_append_right _ _)

end BayTrail.Dxe
