import BayTrail.Dxe.Scheduling

/-!
# Runs of the dispatcher

Whatever drivers do while they run, and in whatever order volumes are found, requests made and rounds of
the dispatcher run: each driver is in one state, the queue holds those that are scheduled, once each, and
none is started twice.
-/

namespace BayTrail.Dxe

open BayTrail.Lib BayTrail.Lib.Hanging

/-! ## States of a driver -/

inductive DriverState where
  | unread | dependent | unrequested | scheduled | untrusted | initialized
  deriving DecidableEq

/-- The flags are those of this state. A driver whose dependency expression could not be read is on no side
of another one, and none is on both. -/
structure DriverEntry.InState (e : DriverEntry) (s : DriverState) : Prop where
  unread : e.depexProtocolError = decide (s = .unread)
  dependent : e.dependent = decide (s = .dependent)
  unrequested : e.unrequested = decide (s = .unrequested)
  scheduled : e.scheduled = decide (s = .scheduled)
  untrusted : e.untrusted = decide (s = .untrusted)
  initialized : e.initialized = decide (s = .initialized)
  sides : ¬ (e.before = true ∧ e.after = true)
  aside : s = .unread → e.before = false ∧ e.after = false

variable {d d' : Dispatcher} {e e' : DriverEntry} {s s' : DriverState} {started queue : List Nat} {i j room : Nat} {seg : List Nat}
  {p : Platform} {again : Section}

theorem DriverEntry.InState.unique (h : e.InState s) (h' : e.InState s') : s = s' := by
  cases s with
  | unread => exact (of_decide_eq_true (h'.unread.symm.trans h.unread)).symm
  | dependent => exact (of_decide_eq_true (h'.dependent.symm.trans h.dependent)).symm
  | unrequested => exact (of_decide_eq_true (h'.unrequested.symm.trans h.unrequested)).symm
  | scheduled => exact (of_decide_eq_true (h'.scheduled.symm.trans h.scheduled)).symm
  | untrusted => exact (of_decide_eq_true (h'.untrusted.symm.trans h.untrusted)).symm
  | initialized => exact (of_decide_eq_true (h'.initialized.symm.trans h.initialized)).symm

theorem DriverEntry.InState.schedule (h : e.InState .dependent) : e.schedule.InState .scheduled :=
  ⟨h.unread, rfl, h.unrequested, rfl, h.untrusted, h.initialized, h.sides, fun h => DriverState.noConfusion h⟩

/-- The states a dependency expression leads to. -/
def Section.state : Section → DriverState
  | .protocolError => .unread
  | .notFound => .dependent
  | .found depex _ => if depex 0 = EFI_DEP_SOR then .unrequested else .dependent

/-- An entry in no state, or one the dependency expression of which could not be read. -/
structure DriverEntry.Blank (e : DriverEntry) : Prop where
  dependent : e.dependent = false
  unrequested : e.unrequested = false
  scheduled : e.scheduled = false
  untrusted : e.untrusted = false
  initialized : e.initialized = false
  before : e.before = false
  after : e.after = false

theorem DriverEntry.InState.blank (h : e.InState .unread) : e.Blank :=
  ⟨h.dependent, h.unrequested, h.scheduled, h.untrusted, h.initialized, (h.aside rfl).1, (h.aside rfl).2⟩

theorem read_name (e : DriverEntry) (again : Section) : (coreGetDepexSectionAndPreProccess e again).fileName = e.fileName
    ∧ (coreGetDepexSectionAndPreProccess e again).fvHandle = e.fvHandle := by
  cases again with
  | protocolError => exact ⟨rfl, rfl⟩
  | notFound => exact ⟨rfl, rfl⟩
  | found depex depexSize =>
    unfold coreGetDepexSectionAndPreProccess corePreProcessDepex
    dsimp only
    split <;> split <;> split <;> (try split) <;> exact ⟨rfl, rfl⟩

/-- A driver that is on neither side. -/
theorem not_sides (h6 : e.before = false) : ¬ (e.before = true ∧ e.after = true) := fun hc =>
  absurd (h6.symm.trans hc.1) Bool.false_ne_true

theorem read_inState (h : e.Blank) (again : Section) : (coreGetDepexSectionAndPreProccess e again).InState again.state := by
  obtain ⟨h1, h2, h3, h4, h5, h6, h7⟩ := h
  cases again with
  | protocolError => exact ⟨rfl, h1, h2, h3, h4, h5, not_sides h6, fun _ => ⟨h6, h7⟩⟩
  | notFound => exact ⟨rfl, rfl, h2, h3, h4, h5, not_sides h6, fun h => DriverState.noConfusion h⟩
  | found depex depexSize =>
    unfold coreGetDepexSectionAndPreProccess corePreProcessDepex Section.state
    dsimp only
    by_cases hsor : depex 0 = EFI_DEP_SOR
    · rw [hsor]
      simp only [if_true, show ¬ EFI_DEP_SOR = EFI_DEP_BEFORE by decide, show ¬ EFI_DEP_SOR = EFI_DEP_AFTER by decide, if_false,
        h6, h7, Bool.or_self, Bool.false_eq_true]
      exact ⟨rfl, h1, rfl, h3, h4, h5, not_sides rfl, fun h => DriverState.noConfusion h⟩
    · simp only [if_neg hsor]
      by_cases hbefore : depex 0 = EFI_DEP_BEFORE
      · simp only [if_pos hbefore, Bool.true_or, if_true]
        exact ⟨rfl, rfl, h2, h3, h4, h5, fun hc => absurd (h7.symm.trans hc.2) Bool.false_ne_true, fun h => DriverState.noConfusion h⟩
      · by_cases hafter : depex 0 = EFI_DEP_AFTER
        · simp only [if_neg hbefore, if_pos hafter, Bool.or_true, if_true]
          exact ⟨rfl, rfl, h2, h3, h4, h5, not_sides h6, fun h => DriverState.noConfusion h⟩
        · simp only [if_neg hbefore, if_neg hafter, h6, h7, Bool.or_self, Bool.false_eq_true, if_false]
          exact ⟨rfl, rfl, h2, h3, h4, h5, not_sides rfl, fun h => DriverState.noConfusion h⟩

/-! ## What holds of the dispatcher at all times -/

/-- Names are different, every volume a driver is from is known, each driver is in one state, those that are
scheduled are on the queue, once each, and those that were started are done with. -/
structure Dispatcher.Sound (d : Dispatcher) (started : List Nat) : Prop where
  names : (d.discovered.map DriverEntry.fileName).Nodup
  handles : ∀ e ∈ d.discovered, ∃ k ∈ d.fvHandleList, k.handle = e.fvHandle
  states : ∀ e ∈ d.discovered, ∃ s, e.InState s
  queue_nodup : d.scheduledQueue.Nodup
  queue_iff : ∀ j, j ∈ d.scheduledQueue ↔ ∃ e, d.discovered[j]? = some e ∧ e.InState .scheduled
  started_nodup : started.Nodup
  started_done : ∀ j ∈ started, ∃ e, d.discovered[j]? = some e ∧ e.InState .initialized

theorem Dispatcher.Sound.state (h : d.Sound started) (hi : d.discovered[i]? = some e) : ∃ s, e.InState s :=
  h.states e (List.mem_of_getElem? hi)

theorem Dispatcher.Sound.orderly (h : d.Sound started) : d.Orderly where
  names := h.names
  apart hj := by
    obtain ⟨s, hs⟩ := h.state hj
    exact hs.sides
  waiting hj hdep hmem := by
    obtain ⟨e', he', hs⟩ := (h.queue_iff _).mp hmem
    obtain rfl := Option.some.inj (hj.symm.trans he')
    exact absurd (hdep.symm.trans hs.dependent) Bool.noConfusion

/-- One driver changes its state, and is on the queue after that if it is scheduled. -/
theorem Dispatcher.Sound.update (h : d.Sound started) (room : Nat) (hi : d.discovered[i]? = some e) (hs : e.InState s) (hs' : e'.InState s')
    (hname : e'.fileName = e.fileName) (hhandle : e'.fvHandle = e.fvHandle) (hdone : s ≠ .initialized ∨ s' = .initialized)
    (hnodup : queue.Nodup) (hqueue : ∀ j, j ∈ queue ↔ if j = i then s' = .scheduled else j ∈ d.scheduledQueue) :
    ({ d with discovered := d.discovered.set i e', scheduledQueue := queue, room := room } : Dispatcher).Sound started := by
  have hlt := (List.getElem?_eq_some_iff.mp hi).1
  have hat : (d.discovered.set i e')[i]? = some e' := List.getElem?_set_self hlt
  have hother : ∀ {j}, j ≠ i → (d.discovered.set i e')[j]? = d.discovered[j]? := fun hj => List.getElem?_set_ne (Ne.symm hj)
  refine ⟨?_, fun x hx => ?_, fun x hx => ?_, hnodup, fun j => ?_, h.started_nodup, fun j hj => ?_⟩
  · have hmap : (d.discovered.set i e').map DriverEntry.fileName = d.discovered.map DriverEntry.fileName := by
      refine List.ext_getElem? fun j => ?_
      rw [List.getElem?_map, List.getElem?_map]
      by_cases hj : j = i
      · rw [hj, hat, hi]
        exact congrArg some hname
      · rw [hother hj]
    exact hmap ▸ h.names
  · rcases List.mem_or_eq_of_mem_set hx with hx | rfl
    · exact h.handles x hx
    · obtain ⟨k, hk, heq⟩ := h.handles e (List.mem_of_getElem? hi)
      exact ⟨k, hk, heq.trans hhandle.symm⟩
  · rcases List.mem_or_eq_of_mem_set hx with hx | rfl
    · exact h.states x hx
    · exact ⟨s', hs'⟩
  · rw [hqueue j]
    by_cases hj : j = i
    · rw [if_pos hj, hj, hat]
      exact ⟨fun heq => ⟨e', rfl, heq ▸ hs'⟩, fun ⟨x, hx, hsx⟩ => (hs'.unique (Option.some.inj hx ▸ hsx))⟩
    · rw [if_neg hj, hother hj]
      exact h.queue_iff j
  · obtain ⟨x, hx, hsx⟩ := h.started_done j hj
    by_cases hji : j = i
    · rw [hji] at hx ⊢
      obtain rfl := Option.some.inj (hi.symm.trans hx)
      refine ⟨e', hat, ?_⟩
      rcases hdone with hdone | rfl
      · exact absurd (hs.unique hsx) hdone
      · exact hs'
    · exact ⟨x, (hother hji).trans hx, hsx⟩

/-- A driver that changes but for the queue. -/
theorem Dispatcher.Sound.change (h : d.Sound started) (room : Nat) (hi : d.discovered[i]? = some e) (hs : e.InState s) (hs' : e'.InState s')
    (hname : e'.fileName = e.fileName) (hhandle : e'.fvHandle = e.fvHandle) (hdone : s ≠ .initialized ∨ s' = .initialized)
    (hqueue : s = .scheduled ↔ s' = .scheduled) :
    ({ d with discovered := d.discovered.set i e', room := room } : Dispatcher).Sound started := by
  refine h.update room hi hs hs' hname hhandle hdone h.queue_nodup fun j => ?_
  by_cases hj : j = i
  · rw [if_pos hj, hj, h.queue_iff, ← hqueue]
    exact ⟨fun ⟨x, hx, hsx⟩ => hs.unique (Option.some.inj (hi.symm.trans hx) ▸ hsx), fun heq => ⟨e, hi, heq ▸ hs⟩⟩
  · rw [if_neg hj]

theorem enqueue_one (hi : d.discovered[i]? = some e) :
    d.enqueue [i] = { d with discovered := d.discovered.set i e.schedule, scheduledQueue := d.scheduledQueue ++ [i] } := by
  have hset : d.discovered.mapIdx (fun j e => if j ∈ [i] then e.schedule else e) = d.discovered.set i e.schedule := by
    refine List.ext_getElem? fun j => ?_
    rw [List.getElem?_mapIdx]
    by_cases hj : j = i
    · rw [hj, hi, List.getElem?_set_self (List.getElem?_eq_some_iff.mp hi).1]
      exact congrArg some (if_pos (List.mem_singleton.mpr rfl))
    · rw [List.getElem?_set_ne (Ne.symm hj)]
      cases d.discovered[j]? with
      | none => rfl
      | some x => exact congrArg some (if_neg fun hmem => hj (List.mem_singleton.mp hmem))
  unfold Dispatcher.enqueue
  rw [hset]

/-- A waiting driver is put on the queue. -/
theorem Dispatcher.Sound.enqueue_one (h : d.Sound started) (hi : d.discovered[i]? = some e) (hs : e.InState .dependent) :
    (d.enqueue [i]).Sound started := by
  have hnot : i ∉ d.scheduledQueue := h.orderly.waiting hi hs.dependent
  rw [BayTrail.Dxe.enqueue_one hi]
  refine h.update d.room hi hs hs.schedule rfl rfl (Or.inl fun h => DriverState.noConfusion h) ?_ fun j => ?_
  · exact List.nodup_append.mpr ⟨h.queue_nodup, List.nodup_singleton i,
      fun a ha b hb heq => hnot (List.mem_singleton.mp hb ▸ heq ▸ ha)⟩
  · rw [List.mem_append, List.mem_singleton]
    by_cases hj : j = i
    · rw [if_pos hj]
      exact iff_of_true (Or.inr hj) rfl
    · rw [if_neg hj]
      exact ⟨fun hmem => hmem.resolve_right hj, Or.inl⟩

/-- Waiting drivers are put on the queue. -/
theorem Dispatcher.Sound.enqueue : ∀ {seg : List Nat} {d : Dispatcher}, d.Sound started → seg.Nodup →
    (∀ j ∈ seg, ∃ e, d.discovered[j]? = some e ∧ e.InState .dependent) → (d.enqueue seg).Sound started
  | [], d, h, _, _ => by
    rw [enqueue_nil]
    exact h
  | i :: seg, d, h, hnodup, hdep => by
    obtain ⟨hi, hseg⟩ := List.nodup_cons.mp hnodup
    obtain ⟨e, he, hs⟩ := hdep i List.mem_cons_self
    have hcons : d.enqueue (i :: seg) = (d.enqueue [i]).enqueue seg := by
      rw [enqueue_append]
      rfl
    rw [hcons]
    refine Dispatcher.Sound.enqueue (h.enqueue_one he hs) hseg fun j hj => ?_
    obtain ⟨x, hx, hsx⟩ := hdep j (List.mem_cons_of_mem _ hj)
    have hne : j ∉ [i] := fun hmem => hi ((List.mem_singleton.mp hmem) ▸ hj)
    refine ⟨x, ?_, hsx⟩
    rw [enqueue_get, hx, Option.map_some, if_neg hne]

/-! ## Services -/

theorem modify_eq_set {f : DriverEntry → DriverEntry} (hi : d.discovered[i]? = some e) :
    d.discovered.modify i f = d.discovered.set i (f e) := by
  refine List.ext_getElem? fun j => ?_
  rw [List.getElem?_modify]
  by_cases hj : i = j
  · rw [← hj, hi, List.getElem?_set_self (List.getElem?_eq_some_iff.mp hi).1]
    exact congrArg some (if_pos rfl)
  · rw [List.getElem?_set_ne hj]
    cases d.discovered[j]? with
    | none => rfl
    | some x => exact congrArg some (if_neg hj)

/-- The driver that a search finds. -/
theorem found_of_findIdx {q : DriverEntry → Bool} (h : d.discovered.findIdx? q = some i) :
    ∃ e, d.discovered[i]? = some e ∧ q e = true := by
  obtain ⟨hlt, hq, -⟩ := List.findIdx?_eq_some_iff_getElem.mp h
  exact ⟨_, List.getElem?_eq_getElem hlt, hq⟩

theorem sound_coreSchedule (h : d.Sound started) (fvHandle : Nat) (driverName : Bytes) :
    (coreSchedule d fvHandle driverName).Sound started := by
  unfold coreSchedule
  split
  · exact h
  · rename_i i hfind
    obtain ⟨e, hi, hq⟩ := found_of_findIdx hfind
    obtain ⟨s, hs⟩ := h.state hi
    obtain rfl : s = .unrequested := by
      rw [Bool.and_eq_true, Bool.and_eq_true] at hq
      exact of_decide_eq_true (hs.unrequested.symm.trans hq.1.2)
    rw [modify_eq_set hi]
    have hs' : ({ e with unrequested := false, dependent := true } : DriverEntry).InState .dependent :=
      ⟨hs.unread, rfl, rfl, hs.scheduled, hs.untrusted, hs.initialized, hs.sides, fun h => DriverState.noConfusion h⟩
    exact h.change d.room hi hs hs' rfl rfl
      (Or.inl fun h => DriverState.noConfusion h) (iff_of_false (fun h => DriverState.noConfusion h) fun h => DriverState.noConfusion h)

theorem sound_coreTrust (h : d.Sound started) (fvHandle : Nat) (driverName : Bytes) :
    ∃ d', coreTrust d fvHandle driverName = some d' ∧ d'.Sound started ∧ d.scheduledQueue <+: d'.scheduledQueue := by
  unfold coreTrust
  split
  · exact ⟨d, rfl, h, List.prefix_rfl⟩
  · rename_i i hfind
    obtain ⟨e, hi, hq⟩ := found_of_findIdx hfind
    obtain ⟨s, hs⟩ := h.state hi
    obtain rfl : s = .untrusted := by
      rw [Bool.and_eq_true, Bool.and_eq_true] at hq
      exact of_decide_eq_true (hs.untrusted.symm.trans hq.1.2)
    have hnot : i ∉ d.scheduledQueue := fun hmem => by
      obtain ⟨e', he', hs'⟩ := (h.queue_iff i).mp hmem
      obtain rfl := Option.some.inj (hi.symm.trans he')
      cases hs.unique hs'
    unfold insertTailList
    rw [if_neg hnot, modify_eq_set hi]
    refine ⟨_, rfl, ?_, List.prefix_append _ _⟩
    have hs' : ({ e with untrusted := false, scheduled := true } : DriverEntry).InState .scheduled :=
      ⟨hs.unread, hs.dependent, hs.unrequested, rfl, rfl, hs.initialized, hs.sides, fun h => DriverState.noConfusion h⟩
    refine h.update d.room hi hs hs' rfl rfl
      (Or.inl fun h => DriverState.noConfusion h) ?_ fun j => ?_
    · exact List.nodup_append.mpr ⟨h.queue_nodup, List.nodup_singleton i,
        fun a ha b hb heq => hnot (List.mem_singleton.mp hb ▸ heq ▸ ha)⟩
    · rw [List.mem_append, List.mem_singleton]
      by_cases hj : j = i
      · rw [if_pos hj]
        exact iff_of_true (Or.inr hj) rfl
      · rw [if_neg hj]
        exact ⟨fun hmem => hmem.resolve_right hj, Or.inl⟩

/-! ## Rounds -/

/-- The drivers that were started in these turns. -/
def startedIn (turns : List (Nat × Bool)) : List Nat := (turns.filter fun t => t.2).map Prod.fst

theorem Dispatcher.Sound.start (h : d.Sound started) (hi : d.discovered[i]? = some e) (hs : e.InState .initialized)
    (hnot : i ∉ started) : d.Sound (started ++ [i]) where
  names := h.names
  handles := h.handles
  states := h.states
  queue_nodup := h.queue_nodup
  queue_iff := h.queue_iff
  started_nodup := List.nodup_append.mpr ⟨h.started_nodup, List.nodup_singleton i,
    fun a ha b hb heq => hnot (List.mem_singleton.mp hb ▸ heq ▸ ha)⟩
  started_done j hj := by
    rcases List.mem_append.mp hj with hj | hj
    · exact h.started_done j hj
    · rw [List.mem_singleton.mp hj]
      exact ⟨e, hi, hs⟩

/-- A driver is done with after its turn, or not trusted, and is not started then. -/
theorem dispatch_inState (hs : e.InState .scheduled) (load : LoadStatus) :
    ∃ s', (e.dispatch load).1.InState s' ∧ s' ≠ .scheduled ∧ ((e.dispatch load).2 = true → s' = .initialized)
      ∧ (e.dispatch load).1.fileName = e.fileName ∧ (e.dispatch load).1.fvHandle = e.fvHandle := by
  have hdone : ∀ handle, ({ e with imageHandle := handle, scheduled := false, initialized := true } : DriverEntry).InState .initialized :=
    fun _ => ⟨hs.unread, hs.dependent, hs.unrequested, rfl, hs.untrusted, rfl, hs.sides, fun h => DriverState.noConfusion h⟩
  unfold DriverEntry.dispatch
  split
  · cases load with
    | success => exact ⟨.initialized, hdone _, DriverState.noConfusion, fun _ => rfl, rfl, rfl⟩
    | securityViolation =>
      exact ⟨.untrusted, ⟨hs.unread, hs.dependent, hs.unrequested, rfl, rfl, hs.initialized, hs.sides, fun h => DriverState.noConfusion h⟩,
        DriverState.noConfusion, fun h => absurd h Bool.false_ne_true, rfl, rfl⟩
    | failed => exact ⟨.initialized, hdone _, DriverState.noConfusion, fun h => absurd h Bool.false_ne_true, rfl, rfl⟩
  · exact ⟨.initialized, hdone _, DriverState.noConfusion, fun _ => rfl, rfl, rfl⟩

/-- The driver in front has its turn: it leaves the queue, and is started then or not. -/
theorem sound_drain (h : d.Sound started) (load : LoadStatus) :
    (d.drain load).1.Sound (started ++ startedIn (d.drain load).2.toList)
      ∧ d.scheduledQueue = (d.drain load).2.toList.map Prod.fst ++ (d.drain load).1.scheduledQueue := by
  unfold Dispatcher.drain
  cases hq : d.scheduledQueue with
  | nil =>
    dsimp only
    refine ⟨?_, hq.symm⟩
    rw [show startedIn (Option.toList none) = [] from rfl, List.append_nil]
    exact h
  | cons i queue =>
    obtain ⟨e, hi, hs⟩ := (h.queue_iff i).mp (hq ▸ List.mem_cons_self)
    obtain ⟨s', hs', hne, hstarted, hname, hhandle⟩ := dispatch_inState hs load
    have hnodup := h.queue_nodup
    rw [hq] at hnodup
    obtain ⟨hnot, hnodup⟩ := List.nodup_cons.mp hnodup
    have hsound := h.update d.room hi hs hs' hname hhandle (Or.inl fun h => DriverState.noConfusion h) hnodup fun j => by
      rw [hq, List.mem_cons]
      by_cases hj : j = i
      · rw [if_pos hj, hj]
        exact iff_of_false hnot hne
      · rw [if_neg hj]
        exact ⟨Or.inr, fun hmem => hmem.resolve_left hj⟩
    dsimp only
    rw [hi]
    dsimp only
    refine ⟨?_, rfl⟩
    cases hst : (e.dispatch load).2 with
    | false =>
      rw [show startedIn (Option.toList (some (i, false))) = [] from rfl, List.append_nil]
      exact hsound
    | true =>
      obtain rfl := hstarted hst
      refine hsound.start (List.getElem?_set_self (List.getElem?_eq_some_iff.mp hi).1) hs' fun hmem => ?_
      -- what was started is not scheduled
      obtain ⟨e', he', hs₁⟩ := h.started_done i hmem
      obtain rfl := Option.some.inj (hi.symm.trans he')
      cases hs.unique hs₁

/-- The evaluation of a driver leaves all of it but the memory of the expression. -/
theorem isSchedulable_inState (hs : e.InState s) (p : Platform) (room : Nat) :
    (coreIsSchedulable p e room).2.1.InState s ∧ (coreIsSchedulable p e room).2.1.fileName = e.fileName
      ∧ (coreIsSchedulable p e room).2.1.fvHandle = e.fvHandle ∧ (coreIsSchedulable p e room).2.1.before = e.before
      ∧ (coreIsSchedulable p e room).2.1.after = e.after ∧ (coreIsSchedulable p e room).2.1.beforeAfterGuid = e.beforeAfterGuid := by
  unfold coreIsSchedulable
  split
  · exact ⟨hs, rfl, rfl, rfl, rfl, rfl⟩
  · split
    · exact ⟨hs, rfl, rfl, rfl, rfl, rfl⟩
    · exact ⟨⟨hs.unread, hs.dependent, hs.unrequested, hs.scheduled, hs.untrusted, hs.initialized, hs.sides, hs.aside⟩,
        rfl, rfl, rfl, rfl, rfl⟩

theorem aside_of_schedulable {room : Nat} (h : (coreIsSchedulable p e room).1 = true) : e.before = false ∧ e.after = false := by
  unfold coreIsSchedulable at h
  split at h
  · cases h
  · rename_i hside
    rw [Bool.or_eq_true, not_or, Bool.not_eq_true, Bool.not_eq_true] at hside
    exact ⟨hside.2, hside.1⟩

/-- The dispatcher with the entry that a visit has looked at. -/
def Dispatcher.looked (d : Dispatcher) (p : Platform) (again : Section) (i : Nat) (e : DriverEntry) : Dispatcher :=
  let e := if e.depexProtocolError then coreGetDepexSectionAndPreProccess e again else e
  let r := if e.dependent then (coreIsSchedulable p e d.room).2 else (e, d.room)
  { d with discovered := d.discovered.set i r.1, room := r.2 }

theorem state_ne_scheduled (again : Section) : again.state ≠ .scheduled := by
  unfold Section.state
  split
  · exact DriverState.noConfusion
  · exact DriverState.noConfusion
  · split <;> exact DriverState.noConfusion

/-- What a visit finds in an entry, before it evaluates anything. -/
theorem reread_inState (hs : e.InState s) (again : Section) :
    ∃ s', (if e.depexProtocolError then coreGetDepexSectionAndPreProccess e again else e).InState s'
      ∧ (s ≠ .initialized ∨ s' = .initialized) ∧ (s = .scheduled ↔ s' = .scheduled)
      ∧ (if e.depexProtocolError then coreGetDepexSectionAndPreProccess e again else e).fileName = e.fileName
      ∧ (if e.depexProtocolError then coreGetDepexSectionAndPreProccess e again else e).fvHandle = e.fvHandle := by
  by_cases hun : s = .unread
  · subst hun
    rw [if_pos (show e.depexProtocolError = true from hs.unread)]
    refine ⟨again.state, read_inState hs.blank again, Or.inl fun h => DriverState.noConfusion h, iff_of_false (fun h => DriverState.noConfusion h) ?_,
      (read_name e again).1, (read_name e again).2⟩
    exact state_ne_scheduled again
  · rw [if_neg (by rw [hs.unread, decide_eq_false hun]; exact Bool.false_ne_true)]
    exact ⟨s, hs, (em (s = .initialized)).symm, Iff.rfl, rfl, rfl⟩

/-- A driver that is on no side of another one waits for none. -/
theorem depth_root (hi : d.discovered[i]? = some e) (hb : e.before = false) (ha : e.after = false) : Depth d.target i 0 := by
  refine .root ?_
  rw [Dispatcher.target, hi]
  dsimp only
  rw [hb, ha]
  rfl

/-- A driver that waits and is on no side of another one is scheduled with all that waits for it. -/
theorem visit_eq (h : d.Sound started) (p : Platform) (again : Section) (hi : d.discovered[i]? = some e) :
    (d.looked p again i e).Sound started ∧ (d.visit p again i = some (d.looked p again i e, false)
      ∨ d.visit p again i = some ((d.looked p again i e).enqueue ((d.looked p again i e).line (d.discovered.length + 1) i), true)
        ∧ ∃ e', (d.looked p again i e).discovered[i]? = some e' ∧ e'.InState .dependent ∧ e'.before = false ∧ e'.after = false) := by
  obtain ⟨s, hs⟩ := h.state hi
  have hlt := (List.getElem?_eq_some_iff.mp hi).1
  obtain ⟨s₁, hs₁, hdone, hqueue, hname, hhandle⟩ := reread_inState hs again
  unfold Dispatcher.visit Dispatcher.looked
  rw [hi]
  dsimp only
  generalize (if e.depexProtocolError then coreGetDepexSectionAndPreProccess e again else e) = e₁ at hs₁ hname hhandle
  cases hdep : e₁.dependent with
  | false =>
    simp only [Bool.false_eq_true, if_false]
    exact ⟨h.change d.room hi hs hs₁ hname hhandle hdone hqueue, Or.inl trivial⟩
  | true =>
    simp only [if_true]
    obtain ⟨hs₂, hname₂, hhandle₂, hbefore, hafter, -⟩ := isSchedulable_inState hs₁ p d.room
    have hsound := h.change (coreIsSchedulable p e₁ d.room).2.2 hi hs hs₂ (hname₂.trans hname) (hhandle₂.trans hhandle) hdone hqueue
    refine ⟨hsound, ?_⟩
    cases hready : (coreIsSchedulable p e₁ d.room).1 with
    | false =>
      simp only [Bool.false_eq_true, if_false]
      exact Or.inl trivial
    | true =>
      simp only [if_true]
      obtain ⟨hb, ha⟩ := aside_of_schedulable hready
      obtain rfl : s₁ = .dependent := of_decide_eq_true (hs₁.dependent.symm.trans hdep)
      have hat : (d.discovered.set i (coreIsSchedulable p e₁ d.room).2.1)[i]? = some (coreIsSchedulable p e₁ d.room).2.1 :=
        List.getElem?_set_self hlt
      rw [insertOnScheduledQueue_eq hsound.orderly (depth_root hat (hbefore.trans hb) (hafter.trans ha)) (Nat.le_succ _)
        ⟨_, hat, hs₂.dependent⟩, List.length_set]
      exact Or.inr ⟨rfl, _, hat, hs₂, hbefore.trans hb, hafter.trans ha⟩

/-- All that is put on the queue with a driver waits. -/
theorem line_waits {fuel : Nat} (hi : ∃ e, d.discovered[i]? = some e ∧ e.dependent = true) (hj : j ∈ d.line fuel i) :
    ∃ e, d.discovered[j]? = some e ∧ e.dependent = true := by
  have hwaits : ∀ {side x}, j ∈ d.waiters side x → ∃ e, d.discovered[j]? = some e ∧ e.dependent = true := fun hx => by
    obtain ⟨-, e, -, he, -, hdep, -⟩ := hangs_iff.mp (mem_waiters.mp hx)
    exact ⟨e, he, hdep⟩
  rcases (reaches_of_mem hj).cases_tail with rfl | ⟨x, -, hx | hx⟩
  · exact hi
  · exact hwaits hx
  · exact hwaits hx

theorem sound_visit (h : d.Sound started) (p : Platform) (again : Section) (i : Nat) :
    ∃ d' ready, d.visit p again i = some (d', ready) ∧ d'.Sound started ∧ d.scheduledQueue <+: d'.scheduledQueue
      ∧ (ready = true → i ∈ d'.scheduledQueue) := by
  cases hi : d.discovered[i]? with
  | none =>
    refine ⟨d, false, ?_, h, List.prefix_rfl, fun h => absurd h Bool.false_ne_true⟩
    unfold Dispatcher.visit
    rw [hi]
  | some e =>
    obtain ⟨hlooked, hvisit | ⟨hvisit, e', he', hs', hb, ha⟩⟩ := visit_eq h p again hi
    · exact ⟨_, false, hvisit, hlooked, List.prefix_rfl, fun h => absurd h Bool.false_ne_true⟩
    · refine ⟨_, true, hvisit, hlooked.enqueue (nodup_walk (sides hlooked.orderly) (depth_root he' hb ha)) fun j hj => ?_,
        List.prefix_append _ _, fun _ => List.mem_append_right _ (mem_walk.mpr (Or.inr (Or.inl rfl)))⟩
      obtain ⟨x, hx, hdep⟩ := line_waits ⟨e', he', hs'.dependent⟩ hj
      obtain ⟨s, hs⟩ := hlooked.state hx
      exact ⟨x, hx, (of_decide_eq_true (hs.dependent.symm.trans hdep) : s = .dependent) ▸ hs⟩

end BayTrail.Dxe
