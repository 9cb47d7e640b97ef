import BayTrail.Terminal.NotifyWalk

/-!
# Keys are delivered

`TerminalCheckKeyNotify` ends, and calls the records that match, exactly if the callbacks do not go
on registering records that match, and no record stays skipped. The timer is right exactly if every
unregistration leaves another one to poll.
-/

namespace BayTrail.Terminal.Notify

open BayTrail.Lib

variable {ι ν φ : Type} [DecidableEq ι] [DecidableEq ν]

section

variable {pool : Pool ν} {callbacks : Callbacks ι ν φ} {key : KeyData} {s s' : Notifications ι ν φ} {w w' w'' : Walk ι ν φ}
  {r x : KeyWaitingRecord ν φ} {front back new : List (KeyWaitingRecord ν φ)} {meanwhile m : List Occurrence}

/-- The walk, from any place on. -/
def walkFrom (pool : Pool ν) (callbacks : Callbacks ι ν φ) (key : KeyData) : Walk ι ν φ → Run (Walk ι ν φ) :=
  Run.loop fun w => Run.ofOption (walkRound pool callbacks key w)

/-! ## The walk ends -/

/-- A record that is still to be called. -/
def pending (key : KeyData) (r : KeyWaitingRecord ν φ) : Bool := keyMatch r.context key && !r.callbackStatus

/-- A call that leaves no new record that matches brings the walk closer to its end. -/
theorem pending_callRecord (h : Walking pool callbacks key s w front (r :: back) meanwhile) (hcalls : Calls key w r)
    (hsettles : ∀ x ∈ (callRecord pool callbacks w r).state.records, keyMatch x.context key = true → x.number < w.state.requests) :
    (callRecord pool callbacks w r).state.records.countP (pending key) < w.state.records.countP (pending key) := by
  obtain ⟨-, m, new, hedited, -⟩ := callRecord_cases pool callbacks h.sound h.place.records
  have hnew : new.countP (pending key) = 0 := by
    rw [List.countP_eq_zero]
    intro x hx hpending
    have hmem : x ∈ (callRecord pool callbacks w r).state.records := hedited.records ▸ List.mem_append_right _ hx
    have hlt := hsettles x hmem (Bool.and_eq_true_iff.mp hpending).1
    exact absurd hlt (Nat.not_lt.mpr (hedited.late x hx))
  have hmarked : pending key (marked r) = false := Bool.and_false _
  have hr : pending key r = true := by simp [pending, hcalls.matching, hcalls.unmarked]
  calc (callRecord pool callbacks w r).state.records.countP (pending key)
      = (remaining m (setStatus w.state r).records).countP (pending key) := by rw [hedited.records, List.countP_append, hnew, Nat.add_zero]
    _ ≤ (setStatus w.state r).records.countP (pending key) := List.filter_sublist.countP_le
    _ < w.state.records.countP (pending key) := by
      rw [setStatus_records h.sound h.place.records, h.place.records, List.countP_append, List.countP_append,
        List.countP_cons_of_pos hr, List.countP_cons_of_neg (by simp [hmarked])]
      omega

variable {n : Nat}

/-- The induction is on the calls that may still register records, then on the records that are still to be called, then on
those that the walk has not come to. -/
theorem Walking.ends (hsettles : ∀ w r, Reached pool callbacks key s w → Calls key w r → n ≤ w.calls →
      ∀ x ∈ (callRecord pool callbacks w r).state.records, keyMatch x.context key = true → x.number < w.state.requests)
    (h : Walking pool callbacks key s w front back meanwhile) :
    ∃ w' front' meanwhile', (walkFrom pool callbacks key w).Returns w' ∧ Walking pool callbacks key s w' front' [] meanwhile' := by
  induction hk : n - w.calls using Nat.strong_induction_on generalizing w front back meanwhile with
  | _ k ihk =>
    induction hc : w.state.records.countP (pending key) using Nat.strong_induction_on generalizing w front back meanwhile with
    | _ c ihc =>
      induction back generalizing w front with
      | nil =>
        exact ⟨w, front, meanwhile, Run.loop_done (Run.returns_ofOption.mpr (walkRound_done h.place)), h⟩
      | cons r back ihb =>
        by_cases hr : keyMatch r.context key = true ∧ r.callbackStatus = false
        · have hcalls := h.calls hr.1 hr.2
          have hround := walkRound_calls pool callbacks hcalls
          obtain ⟨front', back', meanwhile', h'⟩ := h.called hcalls
          have hends : ∃ w' front' meanwhile', (walkFrom pool callbacks key (callRecord pool callbacks w r)).Returns w'
              ∧ Walking pool callbacks key s w' front' [] meanwhile' := by
            have hcount : (callRecord pool callbacks w r).calls = w.calls + 1 := rfl
            by_cases hlate : n ≤ w.calls
            · have hlt := pending_callRecord h hcalls (hsettles w r h.reached hcalls hlate)
              exact ihc _ (hc ▸ hlt) h' (by rw [hcount]; omega) rfl
            · exact ihk (n - (w.calls + 1)) (by omega) h' rfl
          obtain ⟨w', front'', meanwhile'', hreturns, hend⟩ := hends
          exact ⟨w', front'', meanwhile'', Run.loop_again (Run.returns_ofOption.mpr hround) hreturns, hend⟩
        · obtain ⟨w', hround, hcalls, hstate, h'⟩ := h.passed hr
          obtain ⟨w'', front', meanwhile', hreturns, hend⟩ := ihb h' (hcalls ▸ hk) (hstate ▸ hc)
          exact ⟨w'', front', meanwhile', Run.loop_again (Run.returns_ofOption.mpr hround) hreturns, hend⟩

/-! ## What a walk that ends has done -/

theorem walkRound_end (h : walkRound pool callbacks key w = some (.done w')) : w' = w ∧ w.terminalKeyIn = none := by
  unfold walkRound at h
  split at h
  · next hnone => exact ⟨(Next.done.inj (Option.some.inj h)).symm, hnone⟩
  · obtain ⟨r, -, hr⟩ := Option.map_eq_some_iff.mp h
    split at hr
    · cases hr
    · cases hr

theorem Walking.atEnd (h : Walking pool callbacks key s w front back meanwhile) (hend : w.terminalKeyIn = none) : back = [] := by
  cases back with
  | nil => rfl
  | cons r back => exact nomatch hend.symm.trans h.place.here

theorem Walking.round (h : Walking pool callbacks key s w front back meanwhile)
    (hround : walkRound pool callbacks key w = some (.again w')) :
    ∃ front' back' meanwhile', Walking pool callbacks key s w' front' back' meanwhile' := by
  cases back with
  | nil => exact nomatch hround.symm.trans (walkRound_done h.place)
  | cons r back =>
    by_cases hr : keyMatch r.context key = true ∧ r.callbackStatus = false
    · have hcalls := h.calls hr.1 hr.2
      obtain rfl := Next.again.inj (Option.some.inj (hround.symm.trans (walkRound_calls pool callbacks hcalls)))
      exact h.called hcalls
    · obtain ⟨w'', hround', -, -, h'⟩ := h.passed hr
      obtain rfl := Next.again.inj (Option.some.inj (hround.symm.trans hround'))
      exact ⟨_, _, _, h'⟩

theorem Reached.walking (hready : Ready s) (h : Reached pool callbacks key s w) :
    ∃ front back meanwhile, Walking pool callbacks key s w front back meanwhile := by
  induction h with
  | start => exact ⟨_, _, _, hready.walking⟩
  | again _ hround ih =>
    obtain ⟨front, back, meanwhile, hwalking⟩ := ih
    exact hwalking.round hround

theorem walking_of_returns (hreturns : (walkFrom pool callbacks key w).Returns w') :
    (∃ front back meanwhile, Walking pool callbacks key s w front back meanwhile) →
      ∃ front meanwhile, Walking pool callbacks key s w' front [] meanwhile := by
  refine Run.loop_induction (P := fun w w' => (∃ front back meanwhile, Walking pool callbacks key s w front back meanwhile) →
    ∃ front meanwhile, Walking pool callbacks key s w' front [] meanwhile) ?_ ?_ hreturns
  · intro w w' hdone ⟨front, back, meanwhile, h⟩
    obtain ⟨rfl, hend⟩ := walkRound_end (Run.returns_ofOption.mp hdone)
    obtain rfl := h.atEnd hend
    exact ⟨front, meanwhile, h⟩
  · intro w w₁ w' hagain ih ⟨front, back, meanwhile, h⟩
    exact ih (h.round (Run.returns_ofOption.mp hagain))

/-- Every place that a walk reaches leads to its one end. -/
theorem Reached.returns (h : Reached pool callbacks key s w) (hreturns : (walkFrom pool callbacks key ⟨s, s.links.head?, 0⟩).Returns w') :
    (walkFrom pool callbacks key w).Returns w' := by
  induction h with
  | start => exact hreturns
  | again _ hround ih =>
    rcases Run.returns_loop.mp ih with ⟨w₁, hagain, hrest⟩ | hdone
    · obtain rfl := Next.again.inj (Option.some.inj (hround.symm.trans (Run.returns_ofOption.mp hagain)))
      exact hrest
    · exact nomatch hround.symm.trans (Run.returns_ofOption.mp hdone)

theorem calls_le (hready : Ready s) (h : Reached pool callbacks key s w) (hreturns : (walkFrom pool callbacks key w).Returns w') :
    w.calls ≤ w'.calls := by
  refine Run.loop_induction (P := fun w w' => Reached pool callbacks key s w → w.calls ≤ w'.calls) ?_ ?_ hreturns h
  · intro w w' hdone _
    exact (walkRound_end (Run.returns_ofOption.mp hdone)).1 ▸ le_rfl
  · intro w w₁ w' hagain ih hreached
    have hround := Run.returns_ofOption.mp hagain
    refine le_trans ?_ (ih (hreached.again hround))
    obtain ⟨front, back, meanwhile, hwalking⟩ := hreached.walking hready
    cases back with
    | nil => exact nomatch hround.symm.trans (walkRound_done hwalking.place)
    | cons r back =>
      by_cases hr : keyMatch r.context key = true ∧ r.callbackStatus = false
      · obtain rfl := Next.again.inj (Option.some.inj (hround.symm.trans (walkRound_calls pool callbacks (hwalking.calls hr.1 hr.2))))
        exact Nat.le_succ _
      · obtain ⟨w'', hround', hcalls, -, -⟩ := hwalking.passed hr
        obtain rfl := Next.again.inj (Option.some.inj (hround.symm.trans hround'))
        exact hcalls.ge

theorem checkKeyNotify_returns : (checkKeyNotify pool callbacks key s).Returns s' ↔
    ∃ w, (walkFrom pool callbacks key ⟨s, s.links.head?, 0⟩).Returns w ∧ (if w.calls = 0 then w.state else clearStatus w.state) = s' := by
  rw [checkKeyNotify, Run.returns_bind]
  exact exists_congr fun w => and_congr_right fun _ => Run.returns_pure

/-- The state that a walk leaves. -/
theorem Walking.left (h : Walking pool callbacks key s w front [] meanwhile)
    (hs' : (if w.calls = 0 then w.state else clearStatus w.state) = s') :
    s'.history = w.state.history ∧ Sound s' ∧ ∀ r ∈ s'.records, r.callbackStatus = false := by
  split at hs'
  · next hzero =>
    subst hs'
    refine ⟨rfl, h.sound, fun r hr => ?_⟩
    have hcount := h.counts r hr
    rw [List.count_eq_zero.mpr (h.uncalled hzero r.number)] at hcount
    cases hstatus : r.callbackStatus with
    | false => rfl
    | true => rw [hstatus] at hcount; cases hcount
  · subst hs'
    refine ⟨rfl, ⟨?_, ?_, ?_, h.sound.past, ?_, h.sound.orderly⟩, ?_⟩
    · have hlinks := h.sound.links
      simpa [Notifications.links, clearStatus, Function.comp_def] using hlinks
    · have hnumbers := h.sound.numbers
      simpa [clearStatus, Function.comp_def] using hnumbers
    · intro r hr
      obtain ⟨x, hx, rfl⟩ := List.mem_map.mp hr
      exact h.sound.early x hx
    · intro r hr
      obtain ⟨x, hx, rfl⟩ := List.mem_map.mp hr
      exact h.sound.present x hx
    · intro r hr
      obtain ⟨x, hx, rfl⟩ := List.mem_map.mp hr
      rfl

/-! ## Delivery -/

theorem edit_unmarked (hunmarked : ∀ r ∈ s.records, r.callbackStatus = false) (pool : Pool ν) (e : Edit ι ν φ) :
    ∀ r ∈ (Notify.edit pool s e).records, r.callbackStatus = false := by
  rcases edit_cases pool s e with ⟨requests, heq, -, -⟩ | ⟨dev, link, keyData, callback, -, heq, -⟩
    | ⟨dev, front, r, back, -, hrecords, heq⟩
  · rw [heq]
    exact hunmarked
  · rw [heq]
    intro r hr
    rcases List.mem_append.mp hr with hr | hr
    · exact hunmarked r hr
    · rw [List.mem_singleton.mp hr]
  · rw [heq]
    intro x hx
    refine hunmarked x (hrecords ▸ ?_)
    rcases List.mem_append.mp hx with hx | hx
    · exact List.mem_append_left _ hx
    · exact List.mem_append_right _ (List.mem_cons_of_mem _ hx)

theorem Reachable.ready (h : Reachable pool s) : Ready s := by
  induction h with
  | start =>
    refine ⟨⟨.nil, .nil, ?_, ?_, ?_, ?_⟩, ?_⟩
    · exact fun r hr => absurd hr List.not_mem_nil
    · exact fun n hn => absurd hn List.not_mem_nil
    · exact fun r hr => absurd hr List.not_mem_nil
    · intro n l m heq
      have hnil : ([] : List Occurrence) = l ++ .called n :: m := heq
      simp at hnil
    · exact fun r hr => absurd hr List.not_mem_nil
  | edit e _ ih => exact ⟨ih.sound.edit pool e, edit_unmarked ih.unmarked pool e⟩
  | key _ hreturns ih =>
    obtain ⟨w, hwalk, hs'⟩ := checkKeyNotify_returns.mp hreturns
    obtain ⟨front, meanwhile, h⟩ := walking_of_returns hwalk ⟨_, _, _, ih.walking⟩
    obtain ⟨-, hsound, hunmarked⟩ := h.left hs'
    exact ⟨hsound, hunmarked⟩

theorem delivers_of_recovers (hready : Ready s) (hsettles : Settles pool callbacks key s) (hrecovers : Recovers pool callbacks key s) :
    Delivers pool callbacks key s := by
  obtain ⟨n, hsettles⟩ := hsettles
  obtain ⟨w, front, meanwhile, hreturns, h⟩ := hready.walking.ends hsettles
  obtain ⟨hhistory, hsound, hunmarked⟩ := h.left rfl
  refine ⟨_, meanwhile, checkKeyNotify_returns.mpr ⟨w, hreturns, rfl⟩, ?_, ?_, ?_, hunmarked⟩
  · exact hhistory.trans h.history
  · intro r hr hmatch hpresent
    obtain ⟨x, hx, hn⟩ := h.kept r hr hpresent
    have hearly : x.number < s.requests := hn ▸ hready.sound.early r hr
    have hcount := h.counts x hx
    cases hstatus : x.callbackStatus with
    | true => rwa [hstatus, hn] at hcount
    | false =>
      -- it is behind the walk, so it was skipped
      obtain ⟨r', hr', hn', hcontext⟩ := h.old x hx hearly
      obtain rfl := hready.sound.eq_of_number hr hr' (hn.symm.trans hn'.symm)
      have hfront : x ∈ front := by
        have hmem := h.place.records ▸ hx
        rwa [List.append_nil] at hmem
      obtain ⟨w₀, r₀, x₀, hreached, hskips, hx₀, honward⟩ := h.skipped x hfront (hcontext ▸ hmatch) hstatus hearly
      exact absurd hx₀.symm (hrecovers w₀ r₀ x₀ w hreached hskips honward h.place.here x hx)
  · exact fun n l m heq => hsound.orderly n l m heq

/-- A walk that ends leaves no new record behind any call after its last one. -/
theorem settles_of_returns (hready : Ready s) (hreturns : (walkFrom pool callbacks key ⟨s, s.links.head?, 0⟩).Returns w) :
    Settles pool callbacks key s := by
  refine ⟨w.calls + 1, fun w' r hreached hcalls hlate => ?_⟩
  have hle := calls_le hready hreached (hreached.returns hreturns)
  omega

/-- The record is behind the walk, and is not called. -/
def Passed (w : Walk ι ν φ) (n : Nat) : Prop :=
  ∃ front back, At w front back ∧ ∀ x ∈ w.state.records, x.number = n → x ∈ front ∧ x.callbackStatus = false

theorem Skips.passed (h : Skips pool callbacks key s w r x) (hsound : Sound (callRecord pool callbacks w r).state) :
    Passed (callRecord pool callbacks w r) x.number := by
  obtain ⟨front, y, back, hrecords, hlink, -, hx⟩ := h.reused
  have hlinks := hsound.links
  rw [Notifications.links, hrecords] at hlinks
  have hvalid : r.link ∈ (callRecord pool callbacks w r).state.links := by
    rw [Notifications.links, hrecords, ← hlink]
    exact List.mem_map_of_mem (List.mem_append_right _ (List.mem_cons_self ..))
  have hnext : (callRecord pool callbacks w r).terminalKeyIn = pNext r.link (callRecord pool callbacks w r).state.records :=
    if_pos (validateKeyRecord_iff.mpr hvalid)
  refine ⟨front ++ [y], back, ⟨by rw [hrecords]; simp, ?_⟩, fun z hz hn => ?_⟩
  · rw [hnext, hrecords, ← hlink, pNext_eq hlinks]
  · have hmem : x ∈ (callRecord pool callbacks w r).state.records := hrecords ▸ List.mem_append_left _ hx
    obtain rfl := hsound.eq_of_number hz hmem hn
    exact ⟨List.mem_append_left _ hx, h.unmarked⟩

/-- A walk that goes on does not come to a record that it has passed. -/
theorem Passed.again (h : Passed w n) (hwalking : ∃ front back meanwhile, Walking pool callbacks key s w front back meanwhile)
    (hn : n < s.requests) (hround : walkRound pool callbacks key w = some (.again w'))
    (hstay : ∀ r, Calls key w r → r.link ∈ w'.state.links) : Passed w' n := by
  obtain ⟨front₀, back₀, meanwhile, hwalking⟩ := hwalking
  obtain ⟨front, back, hplace, hpassed⟩ := h
  have hsound := hwalking.sound
  cases back with
  | nil => exact nomatch hround.symm.trans (walkRound_done hplace)
  | cons r back =>
    by_cases hr : keyMatch r.context key = true ∧ r.callbackStatus = false
    · have hcalls : Calls key w r := ⟨(hplace.found hsound).1, (hplace.found hsound).2, hr.1, hr.2⟩
      obtain rfl := Next.again.inj (Option.some.inj (hround.symm.trans (walkRound_calls pool callbacks hcalls)))
      obtain ⟨-, m, new, hedited, hcases⟩ := callRecord_cases pool callbacks hsound hplace.records
      have hnodup := hsound.numbers.of_map
      rw [hplace.records] at hnodup
      have hback : ∀ x ∈ r :: back, x.number ≠ n := by
        intro x hx hxn
        have hfront := (hpassed x (hplace.records ▸ List.mem_append_right _ hx) hxn).1
        exact (List.nodup_append.mp hnodup).2.2 x hfront x hx rfl
      have hnew : ∀ x ∈ new, x.number ≠ n := by
        intro x hx hxn
        have hlate : w.state.requests ≤ x.number := hedited.late x hx
        have hle := hwalking.requests
        omega
      have hfront : ∀ x ∈ front, x.number = n → x.callbackStatus = false := fun x hx hxn =>
        (hpassed x (hplace.records ▸ List.mem_append_left _ hx) hxn).2
      rcases hcases with hplace' | ⟨new₁, y, new₂, rfl, -, hplace'⟩ | ⟨hrestart, -⟩
      · refine ⟨_, _, hplace', fun x hx hxn => ?_⟩
        rw [hplace'.records] at hx
        rcases List.mem_append.mp hx with hx | hx
        · rcases List.mem_append.mp hx with hx | hx
          · exact ⟨List.mem_append_left _ hx, hfront x (List.mem_of_mem_filter hx) hxn⟩
          · rw [List.mem_singleton.mp hx] at hxn
            exact absurd hxn (hback r (List.mem_cons_self ..))
        · rcases List.mem_append.mp hx with hx | hx
          · exact absurd hxn (hback x (List.mem_cons_of_mem _ (List.mem_of_mem_filter hx)))
          · exact absurd hxn (hnew x hx)
      · refine ⟨_, _, hplace', fun x hx hxn => ?_⟩
        rw [hplace'.records, List.append_assoc, List.append_assoc, List.singleton_append] at hx
        rcases List.mem_append.mp hx with hx | hx
        · refine ⟨List.mem_append_left _ hx, ?_⟩
          rcases List.mem_append.mp (List.mem_of_mem_filter hx) with hx | hx
          · exact hfront x hx hxn
          · rcases List.mem_cons.mp hx with rfl | hx
            · exact absurd hxn (hback r (List.mem_cons_self ..))
            · exact absurd hxn (hback x (List.mem_cons_of_mem _ hx))
        · exact absurd hxn (hnew x hx)
      · exact absurd (hstay r hcalls) hrestart
    · obtain ⟨w'', hround', hstate, -, hplace'⟩ := walkRound_passed pool callbacks hplace hsound hr
      obtain rfl := Next.again.inj (Option.some.inj (hround.symm.trans hround'))
      refine ⟨_, _, hplace', fun x hx hxn => ?_⟩
      obtain ⟨hfront, hunmarked⟩ := hpassed x (hstate ▸ hx) hxn
      exact ⟨List.mem_append_left _ hfront, hunmarked⟩

theorem Onward.passed (hready : Ready s) (hn : n < s.requests) (hreached : Reached pool callbacks key s w)
    (h : Passed w n) (honward : Onward pool callbacks key w w') : Reached pool callbacks key s w' ∧ Passed w' n := by
  induction honward with
  | refl => exact ⟨hreached, h⟩
  | again _ hround hstay ih =>
    exact ⟨ih.1.again hround, ih.2.again (ih.1.walking hready) hn hround hstay⟩

theorem recovers_of_delivers (hready : Ready s) (h : Delivers pool callbacks key s) : Recovers pool callbacks key s := by
  obtain ⟨s', meanwhile, hreturns, hdelivered⟩ := h
  obtain ⟨wEnd, hwalk, hs'⟩ := checkKeyNotify_returns.mp hreturns
  intro w r x w' hreached hskips honward hend y hy hn
  -- the walk ends at `w'`, and the record is in the list but not called
  have hcall := hreached.again (walkRound_calls pool callbacks hskips.calls)
  obtain ⟨front₁, back₁, meanwhile₁, h₁⟩ := hcall.walking hready
  obtain ⟨hreached', front, back, hplace, hpassed⟩ :=
    Onward.passed hready hskips.early hcall (hskips.passed h₁.sound) honward
  obtain ⟨front', back', meanwhile', h'⟩ := hreached'.walking hready
  obtain rfl := h'.atEnd hend
  have hlast : w' = wEnd := by
    have hdone : (walkFrom pool callbacks key w').Returns w' := Run.loop_done (Run.returns_ofOption.mpr (walkRound_done h'.place))
    exact Option.some.inj (hdone.unique (hreached'.returns hwalk))
  subst hlast
  have hhistory : s'.history = w'.state.history := (h'.left hs').1
  have hmeanwhile : meanwhile = meanwhile' := List.append_cancel_left (hdelivered.history.symm.trans (hhistory.trans h'.history))
  subst hmeanwhile
  have hcount := h'.counts y hy
  rw [(hpassed y hy hn).2] at hcount
  -- it has been registered since before the key
  obtain ⟨x', hx', hxn, hcontext⟩ := h₁.old x (by obtain ⟨f, z, b, hrec, -, -, hx⟩ := hskips.reused; exact hrec ▸ List.mem_append_left _ hx)
    hskips.early
  have hpresent : .unregistered x'.number ∉ meanwhile := by
    intro hgone
    refine h'.sound.present y hy ?_
    rw [h'.history, hn, ← hxn]
    exact List.mem_append_right _ hgone
  have honce := hdelivered.once x' hx' (hcontext ▸ hskips.matching) hpresent
  rw [hxn, ← hn, hcount] at honce
  cases honce

theorem delivers_iff (hready : Ready s) :
    Delivers pool callbacks key s ↔ Settles pool callbacks key s ∧ Recovers pool callbacks key s := by
  constructor
  · intro h
    refine ⟨?_, recovers_of_delivers hready h⟩
    obtain ⟨s', meanwhile, hreturns, -⟩ := h
    obtain ⟨w, hwalk, -⟩ := checkKeyNotify_returns.mp hreturns
    exact settles_of_returns hready hwalk
  · intro ⟨hsettles, hrecovers⟩
    exact delivers_of_recovers hready hsettles hrecovers

/-! ## The timer -/

omit [DecidableEq ν] in
theorem exists_update {active : ι → Bool} {dev : ι} :
    (∃ dev', Function.update active dev false dev' = true) ↔ ∃ other, other ≠ dev ∧ active other = true := by
  refine exists_congr fun other => ?_
  by_cases h : other = dev
  · simp [h]
  · simp [h]

/-- One call keeps the timer right exactly under the condition. -/
theorem polled_edit (hsound : Sound s) (hpolled : Polled s) (pool : Pool ν) (e : Edit ι ν φ) :
    Polled (Notify.edit pool s e) ↔ LeavesPolled s e := by
  rcases edit_cases pool s e with ⟨requests, heq, -, hnone⟩ | ⟨dev, link, keyData, callback, -, heq, hreg⟩
    | ⟨dev, front, r, back, rfl, hrecords, heq⟩
  · rw [heq]
    refine iff_of_true hpolled ?_
    cases e with
    | register => trivial
    | unRegister dev handle =>
      intro link hlink hmem
      exact absurd hmem (hnone dev link (hlink ▸ rfl))
  · rw [heq]
    refine iff_of_true (iff_of_true ⟨dev, Function.update_self ..⟩ (List.append_ne_nil_of_right_ne_nil _ (List.cons_ne_nil _ _))) ?_
    cases e with
    | register => trivial
    | unRegister dev' handle => exact absurd rfl (hreg dev' handle)
  · rw [heq]
    have hlinks := hsound.links
    rw [Notifications.links, hrecords, List.map_append, List.map_cons] at hlinks
    have hnodup := List.nodup_cons.mp (List.perm_middle.nodup_iff.mp hlinks)
    have hr : r.link ∈ s.links := by
      rw [Notifications.links, hrecords]
      exact List.mem_map_of_mem (List.mem_append_right _ (List.mem_cons_self ..))
    have hothers : (∃ link', link' ≠ r.link ∧ link' ∈ s.links) ↔ front ++ back ≠ [] := by
      rw [Notifications.links, hrecords]
      constructor
      · rintro ⟨link', hne, hmem⟩ hnil
        obtain ⟨rfl, rfl⟩ := List.append_eq_nil_iff.mp hnil
        exact hne (List.mem_singleton.mp hmem)
      · intro hne
        obtain ⟨x, hx⟩ := List.exists_mem_of_ne_nil _ hne
        refine ⟨x.link, fun he => hnodup.1 ?_, ?_⟩
        · rw [← he, ← List.map_append]
          exact List.mem_map_of_mem hx
        · refine List.mem_map_of_mem ?_
          rcases List.mem_append.mp hx with hx | hx
          · exact List.mem_append_left _ hx
          · exact List.mem_append_right _ (List.mem_cons_of_mem _ hx)
    have hleaves : LeavesPolled s (.unRegister dev (some r.link)) ↔
        ((∃ other, other ≠ dev ∧ s.active other = true) ↔ ∃ link', link' ≠ r.link ∧ link' ∈ s.links) :=
      ⟨fun h => h r.link rfl hr, fun h link hlink _ => Option.some.inj hlink ▸ h⟩
    rw [hleaves, hothers, ← exists_update]
    rfl

theorem allPolled_iff (hsound : Sound s) (hpolled : Polled s) (l : List (Edit ι ν φ)) : AllPolled pool s l ↔ AllLeavePolled pool s l := by
  induction l generalizing s with
  | nil => exact Iff.rfl
  | cons e l ih =>
    rw [AllPolled, AllLeavePolled, polled_edit hsound hpolled pool e]
    exact and_congr_right fun h => ih (hsound.edit pool e) ((polled_edit hsound hpolled pool e).mpr h)

/-! ## Callbacks that register nothing -/

theorem edits_subset (l : List (Edit ι ν φ)) (hl : ∀ e ∈ l, ∃ dev handle, e = .unRegister dev handle) :
    (edits pool s l).records ⊆ s.records := by
  induction l generalizing s with
  | nil => exact fun x hx => hx
  | cons e l ih =>
    have hstep : (Notify.edit pool s e).records ⊆ s.records := by
      obtain ⟨dev, handle, rfl⟩ := hl e (List.mem_cons_self ..)
      rcases edit_cases pool s (.unRegister dev handle) with ⟨requests, heq, -, -⟩ | ⟨-, -, -, -, -, -, hreg⟩
        | ⟨dev', front, r, back, -, hrecords, heq⟩
      · rw [heq]
        exact fun x hx => hx
      · exact absurd rfl (hreg dev handle)
      · rw [heq, hrecords]
        exact (List.sublist_cons_self r back).append_left front |>.subset
    exact List.Subset.trans (ih fun e' he => hl e' (List.mem_cons_of_mem _ he)) hstep

/-- Every key is delivered if the callbacks only unregister. -/
theorem delivers_of_unregistering (hready : Ready s)
    (hcallbacks : ∀ callback context n, ∀ e ∈ callbacks callback context n, ∃ dev handle, e = .unRegister dev handle) :
    Settles pool callbacks key s ∧ Recovers pool callbacks key s := by
  have hsubset : ∀ w r, (callRecord pool callbacks w r).state.records ⊆ (setStatus w.state r).records :=
    fun w r => edits_subset _ (hcallbacks r.callback r.context w.calls)
  have hsound : ∀ w r, Reached pool callbacks key s w → Calls key w r → Sound (setStatus w.state r) := by
    intro w r hreached hcalls
    obtain ⟨front, back, meanwhile, h⟩ := hreached.walking hready
    cases back with
    | nil => exact nomatch hcalls.here.symm.trans h.place.here
    | cons r' back =>
      obtain rfl := h.place.calls h.sound hcalls
      exact h.sound.setStatus h.place.records
  constructor
  · refine ⟨0, fun w r hreached hcalls _ x hx _ => ?_⟩
    exact (hsound w r hreached hcalls).early x (hsubset w r hx)
  · intro w r x w' hreached hskips
    obtain ⟨front, y, back, hrecords, hlink, hne, -⟩ := hskips.reused
    have hy : y ∈ (setStatus w.state r).records := hsubset w r (hrecords ▸ List.mem_append_right _ (List.mem_cons_self ..))
    have hr : marked r ∈ (setStatus w.state r).records :=
      List.mem_map.mpr ⟨r, List.mem_of_find?_eq_some hskips.calls.found, if_pos rfl⟩
    have heq := (hsound w r hreached hskips.calls).eq_of_link hy hr hlink
    exact absurd (congrArg (·.number) heq) hne

end

/-! ## Delivery and polling -/

/-- A key reaches every record exactly if the callbacks settle and the walk recovers from what it skips, and the timer is right
throughout a run exactly if each unregistration leaves another one to poll. -/
theorem key_notifications (pool : Pool ν) (callbacks : Callbacks ι ν φ) (key : KeyData) (s : Notifications ι ν φ)
    (hs : Reachable pool s) (l : List (Edit ι ν φ)) :
    (Delivers pool callbacks key s ↔ Settles pool callbacks key s ∧ Recovers pool callbacks key s)
      ∧ (AllPolled pool (unregistered : Notifications ι ν φ) l ↔ AllLeavePolled pool unregistered l) := by
  have hstart : Reachable pool (unregistered : Notifications ι ν φ) := .start
  refine ⟨delivers_iff hs.ready, allPolled_iff hstart.ready.sound ?_ l⟩
  refine iff_of_false ?_ (fun h => h rfl)
  rintro ⟨dev, hdev⟩
  cases hdev

/-- A pool that hands out the lowest address that is not in use. -/
def lowest : Pool Nat where
  allocatePool _ inUse := (List.range (inUse.length + 1)).find? (· ∉ inUse)
  unused _ inUse a h := by simpa using List.find?_some h

/-- A key without shift and toggle states. -/
def plainKey : KeyData := ⟨0, 0x61, 0, 0⟩

def registers : Edit Unit Nat Unit := .register () (some plainKey) (some ()) true

/-- Two records, of which each callback unregisters the first one. -/
theorem key_notifications_once :
    Delivers lowest (fun _ _ _ => [.unRegister () (some 0)]) plainKey
        (Notify.edit lowest (Notify.edit lowest unregistered registers) registers)
      ∧ AllPolled lowest unregistered [registers, .unRegister () (some 0)] := by
  have hs : Reachable lowest (Notify.edit lowest (Notify.edit lowest unregistered registers) registers) :=
    .edit registers (.edit registers .start)
  obtain ⟨hdelivers, hpolled⟩ := key_notifications lowest (fun _ _ _ => [.unRegister () (some 0)]) plainKey _ hs
    [registers, .unRegister () (some 0)]
  refine ⟨hdelivers.mpr (delivers_of_unregistering hs.ready fun _ _ _ e he => ?_), hpolled.mpr ⟨trivial, ?_, trivial⟩⟩
  · exact ⟨(), some 0, List.mem_singleton.mp he⟩
  · intro link hlink _
    obtain rfl := Option.some.inj hlink
    have hlinks : (Notify.edit lowest unregistered registers).links = [0] := by rfl
    refine iff_of_false (fun ⟨other, hne, _⟩ => hne rfl) (fun ⟨link', hne, hmem⟩ => ?_)
    rw [hlinks] at hmem
    exact hne (List.mem_singleton.mp hmem)

/-- Two registrations. -/
def twoRecords : Notifications Unit Nat Unit :=
  ⟨[⟨0, plainKey, (), false, 0⟩, ⟨1, plainKey, (), false, 1⟩], fun _ => true, 2, [.registered 0, .registered 1]⟩

/-- Of two records the one in front unregisters itself and registers again, at the address that it had. Of two registrations
one is taken back. -/
theorem not_key_notifications :
    (¬ ∀ (callbacks : Callbacks Unit Nat Unit) key s, Reachable lowest s → Delivers lowest callbacks key s)
      ∧ ¬ ∀ l : List (Edit Unit Nat Unit), AllPolled lowest unregistered l := by
  have htwo : Notify.edit lowest (Notify.edit lowest unregistered registers) registers = twoRecords := by rfl
  constructor
  · intro hall
    have hs : Reachable lowest twoRecords := htwo ▸ .edit registers (.edit registers .start)
    have hcalls : Calls plainKey ⟨twoRecords, some 0, 0⟩ ⟨0, plainKey, (), false, 0⟩ := ⟨rfl, rfl, by decide, rfl⟩
    have hafter : callRecord lowest (fun _ _ _ => [.unRegister () (some 0), registers]) ⟨twoRecords, some 0, 0⟩ ⟨0, plainKey, (), false, 0⟩
        = ⟨⟨[⟨1, plainKey, (), false, 1⟩, ⟨0, plainKey, (), false, 2⟩], fun _ => true, 3,
          [.registered 0, .registered 1, .called 0, .unregistered 0, .registered 2]⟩, none, 1⟩ := by rfl
    have hskips : Skips lowest (fun _ _ _ => [.unRegister () (some 0), registers]) plainKey twoRecords ⟨twoRecords, some 0, 0⟩
        ⟨0, plainKey, (), false, 0⟩ ⟨1, plainKey, (), false, 1⟩ := by
      refine ⟨hcalls, ⟨[⟨1, plainKey, (), false, 1⟩], ⟨0, plainKey, (), false, 2⟩, [], ?_, rfl, by decide, List.mem_singleton_self _⟩,
        by decide, by decide, rfl⟩
      rw [hafter]
      rfl
    have hrecovers := recovers_of_delivers hs.ready (hall (fun _ _ _ => [.unRegister () (some 0), registers]) plainKey _ hs)
    have hstart : Reached lowest (fun _ _ _ => [.unRegister () (some 0), registers]) plainKey twoRecords ⟨twoRecords, some 0, 0⟩ := .start
    refine hrecovers _ _ _ _ hstart hskips .refl (by rw [hafter]) ⟨1, plainKey, (), false, 1⟩ ?_ rfl
    rw [hafter]
    exact List.mem_cons_self ..
  · intro hall
    obtain ⟨-, -, hpolled, -⟩ := hall [registers, registers, .unRegister () (some 0)]
    have hone : Notify.edit lowest twoRecords (.unRegister () (some 0))
        = ⟨[⟨1, plainKey, (), false, 1⟩], fun _ => false, 2, [.registered 0, .registered 1, .unregistered 0]⟩ := by rfl
    rw [htwo, hone] at hpolled
    obtain ⟨dev, hdev⟩ := hpolled.mpr (List.cons_ne_nil _ _)
    cases hdev

end BayTrail.Terminal.Notify
