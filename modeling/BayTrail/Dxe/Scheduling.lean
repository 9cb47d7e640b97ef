import BayTrail.Dxe.Dispatcher
import BayTrail.Lib.Hanging

/-!
# Drivers before and after others

A driver that is found to be ready is scheduled together with everything that waits for it. As long as no
two drivers have the same name that comes to an end, and each of them gets on the queue once, at its side.
-/

namespace BayTrail.Dxe

open BayTrail.Lib BayTrail.Lib.Hanging

variable {d : Dispatcher} {e e' : DriverEntry} {side : DriverEntry → Bool} {seg acc : List Nat} {i j k x y fuel : Nat}

/-! ## Scheduling several drivers -/

/-- The dispatcher after these drivers have been put on the queue. -/
def Dispatcher.enqueue (d : Dispatcher) (seg : List Nat) : Dispatcher :=
  { d with
    discovered := d.discovered.mapIdx fun j e => if j ∈ seg then e.schedule else e
    scheduledQueue := d.scheduledQueue ++ seg }

@[simp]
theorem enqueue_queue : (d.enqueue seg).scheduledQueue = d.scheduledQueue ++ seg := rfl

@[simp]
theorem enqueue_length : (d.enqueue seg).discovered.length = d.discovered.length := List.length_mapIdx

theorem enqueue_get : (d.enqueue seg).discovered[j]? = d.discovered[j]?.map fun e => if j ∈ seg then e.schedule else e :=
  List.getElem?_mapIdx

theorem enqueue_nil : d.enqueue [] = d := by
  have hmap : d.discovered.mapIdx (fun j e => if j ∈ ([] : List Nat) then e.schedule else e) = d.discovered := by
    refine List.ext_getElem? fun j => ?_
    rw [List.getElem?_mapIdx]
    cases d.discovered[j]? with
    | none => rfl
    | some e => exact congrArg some (if_neg List.not_mem_nil)
  unfold Dispatcher.enqueue
  rw [hmap, List.append_nil]

theorem enqueue_append : (d.enqueue seg).enqueue acc = d.enqueue (seg ++ acc) := by
  have hmap : ((d.enqueue seg).discovered.mapIdx fun j e => if j ∈ acc then e.schedule else e)
      = d.discovered.mapIdx fun j e => if j ∈ seg ++ acc then e.schedule else e := by
    refine List.ext_getElem? fun j => ?_
    rw [List.getElem?_mapIdx, List.getElem?_mapIdx, enqueue_get, Option.map_map]
    refine congrArg (fun f => Option.map f d.discovered[j]?) (funext fun e => ?_)
    by_cases hseg : j ∈ seg
    · by_cases hacc : j ∈ acc
      · simp [hseg, hacc, DriverEntry.schedule]
      · simp [hseg, hacc]
    · simp [hseg]
  unfold Dispatcher.enqueue at hmap ⊢
  rw [hmap, List.append_assoc]

/-- A driver that is not on the queue gets there. -/
theorem schedule_eq (h : i ∉ d.scheduledQueue) : d.schedule i = some (d.enqueue [i]) := by
  have hmap : d.discovered.modify i DriverEntry.schedule = d.discovered.mapIdx fun j e => if j ∈ [i] then e.schedule else e := by
    refine List.ext_getElem? fun j => ?_
    rw [List.getElem?_modify, List.getElem?_mapIdx]
    by_cases hij : i = j
    · simp [hij]
    · simp [hij, Ne.symm hij]
  unfold Dispatcher.schedule insertTailList Dispatcher.enqueue
  rw [if_neg h, Option.map_some, hmap]

/-! ## What hangs on what -/

/-- The driver that another one waits for. -/
def Dispatcher.target (d : Dispatcher) (j : Nat) : Option Nat :=
  match d.discovered[j]? with
  | none => none
  | some e =>
    if e.before || e.after then
      (d.discovered.findIdx? fun t => t.fileName == e.beforeAfterGuid).filter fun i => j != i
    else none

/-- The drivers that are to be put before, or after, the one at `i`. -/
def Dispatcher.waiters (d : Dispatcher) (side : DriverEntry → Bool) (i : Nat) : List Nat :=
  (List.range d.discovered.length).filter fun j => d.hangs side i j

theorem hangs_iff : d.hangs side i j = true ↔ ∃ t e, d.discovered[i]? = some t ∧ d.discovered[j]? = some e
    ∧ side e = true ∧ e.dependent = true ∧ j ≠ i ∧ t.fileName = e.beforeAfterGuid := by
  unfold Dispatcher.hangs
  cases hi : d.discovered[i]? with
  | none => simp
  | some t =>
    cases hj : d.discovered[j]? with
    | none => simp
    | some e => simp [and_assoc]

theorem mem_waiters : j ∈ d.waiters side i ↔ d.hangs side i j = true := by
  rw [Dispatcher.waiters, List.mem_filter, List.mem_range]
  refine ⟨fun h => h.2, fun h => ⟨?_, h⟩⟩
  obtain ⟨-, e, -, he, -⟩ := hangs_iff.mp h
  exact (List.getElem?_eq_some_iff.mp he).1

/-- What scheduling relies on: names are different, no driver is to be on both sides of another, and what is
on the queue does not wait. -/
structure Dispatcher.Orderly (d : Dispatcher) : Prop where
  names : (d.discovered.map DriverEntry.fileName).Nodup
  apart : ∀ {j : Nat} {e : DriverEntry}, d.discovered[j]? = some e → ¬ (e.before = true ∧ e.after = true)
  waiting : ∀ {j : Nat} {e : DriverEntry}, d.discovered[j]? = some e → e.dependent = true → j ∉ d.scheduledQueue

theorem Dispatcher.Orderly.name_inj (h : d.Orderly) (hi : d.discovered[i]? = some e) (hj : d.discovered[j]? = some e')
    (hname : e.fileName = e'.fileName) : i = j := by
  have hlt : i < (d.discovered.map DriverEntry.fileName).length := by
    rw [List.length_map]
    exact (List.getElem?_eq_some_iff.mp hi).1
  refine (List.getElem?_inj hlt h.names).mp ?_
  rw [List.getElem?_map, List.getElem?_map, hi, hj]
  exact congrArg some hname

theorem target_of_hangs (h : d.Orderly) (hside : ∀ e, side e = true → (e.before || e.after) = true) (hh : d.hangs side i j = true) :
    d.target j = some i := by
  obtain ⟨t, e, hi, hj, hs, -, hne, hname⟩ := hangs_iff.mp hh
  have hfind : d.discovered.findIdx? (fun t => t.fileName == e.beforeAfterGuid) = some i := by
    cases hf : d.discovered.findIdx? fun t => t.fileName == e.beforeAfterGuid with
    | none =>
      have hnone := List.findIdx?_eq_none_iff.mp hf t (List.mem_of_getElem? hi)
      rw [hname, beq_self_eq_true] at hnone
      cases hnone
    | some k =>
      obtain ⟨hk, hat, -⟩ := List.findIdx?_eq_some_iff_getElem.mp hf
      exact congrArg some (h.name_inj (List.getElem?_eq_getElem hk) hi ((beq_iff_eq.mp hat).trans hname.symm))
  rw [Dispatcher.target, hj]
  dsimp only
  rw [if_pos (hside e hs), hfind, Option.filter_some, if_pos (bne_iff_ne.mpr hne)]

theorem target_lt (h : d.target j = some i) : i < d.discovered.length := by
  unfold Dispatcher.target at h
  split at h
  · cases h
  · split at h
    · have hfind := (Option.filter_eq_some_iff.mp h).1
      exact (List.findIdx?_eq_some_iff_getElem.mp hfind).1
    · cases h

/-- There are no more levels than drivers. -/
theorem depth_lt (h : Depth d.target i k) : k < d.discovered.length + 1 := by
  cases h with
  | root => exact Nat.succ_pos _
  | hangs hp hx => exact Nat.succ_lt_succ (hx.lt (fun _ _ => target_lt) (target_lt hp))

theorem sides (h : d.Orderly) : Sides d.target (d.waiters DriverEntry.before) (d.waiters DriverEntry.after) where
  left_parent hy := target_of_hangs h (fun e he => by rw [he]; rfl) (mem_waiters.mp hy)
  right_parent hy := target_of_hangs h (fun e he => by rw [he]; exact Bool.or_true _) (mem_waiters.mp hy)
  left_nodup _ := List.nodup_range.filter _
  right_nodup _ := List.nodup_range.filter _
  apart hl hr := by
    obtain ⟨-, e, -, he, hbefore, -⟩ := hangs_iff.mp (mem_waiters.mp hl)
    obtain ⟨-, e', -, he', hafter, -⟩ := hangs_iff.mp (mem_waiters.mp hr)
    obtain rfl := Option.some.inj (he.symm.trans he')
    exact h.apart he ⟨hbefore, hafter⟩

/-! ## What stays the same -/

theorem enqueue_entry (h : (d.enqueue seg).discovered[j]? = some e) :
    ∃ e', d.discovered[j]? = some e' ∧ e = if j ∈ seg then e'.schedule else e' := by
  rw [enqueue_get] at h
  obtain ⟨e', he', rfl⟩ := Option.map_eq_some_iff.mp h
  exact ⟨e', he', rfl⟩

theorem enqueue_names : (d.enqueue seg).discovered.map DriverEntry.fileName = d.discovered.map DriverEntry.fileName := by
  refine List.ext_getElem? fun j => ?_
  rw [List.getElem?_map, List.getElem?_map, enqueue_get, Option.map_map]
  refine congrArg (fun f => Option.map f d.discovered[j]?) (funext fun e => ?_)
  show (if j ∈ seg then e.schedule else e).fileName = e.fileName
  split <;> rfl

theorem find_names (l : List DriverEntry) (guid : Bytes) :
    (l.findIdx? fun t => t.fileName == guid) = (l.map DriverEntry.fileName).findIdx? fun name => name == guid :=
  (List.findIdx?_map (f := DriverEntry.fileName) (p := fun name => name == guid)).symm

theorem target_enqueue : (d.enqueue seg).target = d.target := by
  funext j
  unfold Dispatcher.target
  rw [enqueue_get]
  cases d.discovered[j]? with
  | none => rfl
  | some e =>
    rw [Option.map_some]
    dsimp only
    rw [find_names, find_names, enqueue_names]
    split <;> rfl

/-- A driver waits for another one as before, unless it has been scheduled. -/
theorem hangs_enqueue :
    (d.enqueue seg).hangs side i j = true ↔ d.hangs side i j = true ∧ j ∉ seg := by
  rw [hangs_iff, hangs_iff]
  constructor
  · rintro ⟨t, e, ht, he, hs, hdep, hne, hname⟩
    obtain ⟨t', ht', rfl⟩ := enqueue_entry ht
    obtain ⟨e', he', rfl⟩ := enqueue_entry he
    by_cases hj : j ∈ seg
    · rw [if_pos hj] at hdep
      cases hdep
    · rw [if_neg hj] at hs hdep hname
      refine ⟨⟨t', e', ht', he', hs, hdep, hne, ?_⟩, hj⟩
      rw [← hname]
      split <;> rfl
  · rintro ⟨⟨t, e, ht, he, hs, hdep, hne, hname⟩, hj⟩
    refine ⟨if i ∈ seg then t.schedule else t, e, ?_, ?_, hs, hdep, hne, ?_⟩
    · rw [enqueue_get, ht]
      rfl
    · rw [enqueue_get, he, Option.map_some, if_neg hj]
    · rw [← hname]
      split <;> rfl

theorem waiters_enqueue (h : ∀ y ∈ d.waiters side x, y ∉ seg) :
    (d.enqueue seg).waiters side x = d.waiters side x := by
  unfold Dispatcher.waiters
  rw [enqueue_length]
  refine List.filter_congr fun y _ => Bool.eq_iff_iff.mpr ?_
  rw [hangs_enqueue]
  exact ⟨fun hy => hy.1, fun hy => ⟨hy, h y (mem_waiters.mpr hy)⟩⟩

theorem orderly_enqueue (h : d.Orderly) : (d.enqueue seg).Orderly where
  names := by
    rw [enqueue_names]
    exact h.names
  apart hj hside := by
    obtain ⟨e', he', rfl⟩ := enqueue_entry hj
    refine h.apart he' ?_
    split at hside <;> exact hside
  waiting hj hdep := by
    obtain ⟨e', he', rfl⟩ := enqueue_entry hj
    rw [enqueue_queue, List.mem_append, not_or]
    split at hdep
    · cases hdep
    · rename_i hnot
      exact ⟨h.waiting he' hdep, hnot⟩

/-! ## The recursion -/

/-- The drivers that are scheduled with the one at `i`, in order. -/
def Dispatcher.line (d : Dispatcher) (fuel i : Nat) : List Nat :=
  walk (d.waiters DriverEntry.before) (d.waiters DriverEntry.after) fuel i

/-- Drivers that have been scheduled elsewhere make no difference. -/
theorem line_enqueue (h : d.Orderly) (hapart : ∀ y, Under d.target i y → y ∉ seg) :
    (d.enqueue seg).line fuel i = d.line fuel i := by
  refine walk_congr (sides h) fun x hx => ⟨?_, ?_⟩
  · exact waiters_enqueue fun y hy => hapart y (.hangs ((sides h).left_parent hy) hx)
  · exact waiters_enqueue fun y hy => hapart y (.hangs ((sides h).right_parent hy) hx)

/-- What the recursion does with one driver: `insert` puts it on the queue with all that waits for it. -/
def Inserts (d : Dispatcher) (fuel : Nat) (insert : Dispatcher → Nat → Option Dispatcher) (j : Nat) : Prop :=
  ∀ acc, (∀ y, Under d.target j y → y ∉ acc) → insert (d.enqueue acc) j = some (d.enqueue (acc ++ d.line fuel j))

/-- A loop over drivers, of which those that wait on one side are put on the queue. -/
theorem loop_waiters (fuel : Nat) (insert : Dispatcher → Nat → Option Dispatcher) (h : d.Orderly) (hi : Depth d.target i k)
    (hparent : ∀ j, d.hangs side i j = true → d.target j = some i)
    (hinsert : ∀ j, d.hangs side i j = true → Inserts d fuel insert j) : ∀ (js acc : List Nat), js.Nodup →
      (∀ j ∈ js, d.hangs side i j = true → ∀ y, Under d.target j y → y ∉ acc) →
      js.foldlM (fun d j => if d.hangs side i j then insert d j else some d) (d.enqueue acc)
        = some (d.enqueue (acc ++ (js.filter fun j => d.hangs side i j).flatMap (d.line fuel)))
  | [], acc, _, _ => by
    rw [List.filter_nil, List.flatMap_nil, List.append_nil]
    rfl
  | j :: js, acc, hnodup, hacc => by
    obtain ⟨hj, hjs⟩ := List.nodup_cons.mp hnodup
    rw [List.foldlM_cons]
    by_cases hh : d.hangs side i j = true
    · have hnot := hacc j List.mem_cons_self hh
      rw [if_pos (hangs_enqueue.mpr ⟨hh, hnot j .refl⟩), hinsert j hh acc hnot, Option.bind_eq_bind, Option.bind_some,
        loop_waiters fuel insert h hi hparent hinsert js _ hjs, List.filter_cons_of_pos hh, List.flatMap_cons, List.append_assoc]
      intro j' hj' hh' y hy
      rw [List.mem_append, not_or]
      refine ⟨hacc j' (List.mem_cons_of_mem _ hj') hh' y hy, fun hmem => hj ?_⟩
      -- nothing is below two of them
      have heq := (under_of_mem (sides h) hmem).unique hy (.hangs (hparent j hh) hi) (.hangs (hparent j' hh') hi)
      exact heq ▸ hj'
    · rw [if_neg (fun hc => hh (hangs_enqueue.mp hc).1), Option.bind_eq_bind, Option.bind_some,
        loop_waiters fuel insert h hi hparent hinsert js acc hjs (fun j' hj' => hacc j' (List.mem_cons_of_mem _ hj')),
        List.filter_cons_of_neg hh]

/-- A driver is put on the queue with all that waits for it. -/
theorem insertOnScheduledQueue_eq : ∀ {fuel : Nat} {d : Dispatcher} {i k : Nat}, d.Orderly → Depth d.target i k →
    d.discovered.length ≤ fuel + k → (∃ e, d.discovered[i]? = some e ∧ e.dependent = true) →
    insertOnScheduledQueue fuel d i = some (d.enqueue (d.line fuel i))
  | 0, d, i, k, _, hi, hfuel, hdep => by
    obtain ⟨e, he, -⟩ := hdep
    have hlt := hi.lt (fun _ _ => target_lt) (List.getElem?_eq_some_iff.mp he).1
    omega
  | fuel + 1, d, i, k, h, hi, hfuel, hdep => by
    obtain ⟨e, he, hdep⟩ := hdep
    -- what waits for this driver is one level further down
    have hinsert : ∀ j, d.target j = some i → ∀ e, d.discovered[j]? = some e → e.dependent = true →
        Inserts d fuel (insertOnScheduledQueue fuel) j := by
      intro j hp e he hdep acc hacc
      have hj : (d.enqueue acc).discovered[j]? = some e := by
        rw [enqueue_get, he, Option.map_some, if_neg (hacc j .refl)]
      rw [insertOnScheduledQueue_eq (k := k + 1) (orderly_enqueue h) (by rw [target_enqueue]; exact .hangs hp hi)
        (by rw [enqueue_length]; omega) ⟨e, hj, hdep⟩, line_enqueue h hacc, enqueue_append]
    have hbefore : ∀ j, d.hangs DriverEntry.before i j = true → d.target j = some i := fun j hj =>
      (sides h).left_parent (mem_waiters.mpr hj)
    have hafter : ∀ j, d.hangs DriverEntry.after i j = true → d.target j = some i := fun j hj =>
      (sides h).right_parent (mem_waiters.mpr hj)
    have hloop₁ := loop_waiters fuel (insertOnScheduledQueue fuel) h hi hbefore
      (fun j hj => by
        obtain ⟨-, e, -, he, -, hdep, -⟩ := hangs_iff.mp hj
        exact hinsert j (hbefore j hj) e he hdep)
      (List.range d.discovered.length) [] List.nodup_range (fun _ _ _ _ _ => List.not_mem_nil)
    rw [enqueue_nil, List.nil_append] at hloop₁
    have hnot : ∀ j, d.target j = some i → i ∉ d.line fuel j := fun j hp => not_mem_walk_child (sides h) hp hi
    have hqueue : i ∉ (d.enqueue ((d.waiters DriverEntry.before i).flatMap (d.line fuel))).scheduledQueue := by
      rw [enqueue_queue, List.mem_append, not_or]
      refine ⟨h.waiting he hdep, fun hmem => ?_⟩
      obtain ⟨j, hj, hmem⟩ := List.mem_flatMap.mp hmem
      exact hnot j ((sides h).left_parent hj) hmem
    have hloop₂ := loop_waiters fuel (insertOnScheduledQueue fuel) h hi hafter
      (fun j hj => by
        obtain ⟨-, e, -, he, -, hdep, -⟩ := hangs_iff.mp hj
        exact hinsert j (hafter j hj) e he hdep)
      (List.range d.discovered.length) ((d.waiters DriverEntry.before i).flatMap (d.line fuel) ++ [i]) List.nodup_range
      (fun j _ hj y hy => by
        rw [List.mem_append, List.mem_singleton, not_or]
        refine ⟨fun hmem => ?_, ?_⟩
        · obtain ⟨j', hj', hmem⟩ := List.mem_flatMap.mp hmem
          have hp' := (sides h).left_parent hj'
          -- a driver is on one side only
          have heq := (under_of_mem (sides h) hmem).unique hy (.hangs hp' hi) (.hangs (hafter j hj) hi)
          exact (sides h).apart hj' (heq ▸ mem_waiters.mpr hj)
        · rintro rfl
          exact absurd (hy.depth_le (.hangs (hafter j hj) hi) hi) (Nat.not_succ_le_self _))
    rw [insertOnScheduledQueue, hloop₁, Option.bind_eq_bind, Option.bind_some]
    have hschedule := schedule_eq hqueue
    rw [enqueue_append] at hschedule
    unfold Dispatcher.waiters at hschedule hloop₂
    rw [hschedule, Option.bind_some, enqueue_length, hloop₂, List.append_assoc]
    rfl

end BayTrail.Dxe
