import BayTrail.Terminal.NotifyEdits

/-!
# The walk over the records

What a round of `TerminalCheckKeyNotify` does, and what holds after any number of rounds:
`Walking` says which records are called, and that those the walk has left behind are
called or skipped.
-/

namespace BayTrail.Terminal.Notify

open BayTrail.Lib

variable {ι ν φ : Type} [DecidableEq ι] [DecidableEq ν]

/-- The record that is being called. -/
def marked (r : KeyWaitingRecord ν φ) : KeyWaitingRecord ν φ := { r with callbackStatus := true }

section

variable {s : Notifications ι ν φ} {r : KeyWaitingRecord ν φ} {front back new : List (KeyWaitingRecord ν φ)}
  {meanwhile : List Occurrence} {pool : Pool ν} {callbacks : Callbacks ι ν φ} {key : KeyData} {w w' : Walk ι ν φ}

omit [DecidableEq ι] in
theorem setStatus_records (h : Sound s) (hrecords : s.records = front ++ r :: back) :
    (setStatus s r).records = front ++ marked r :: back := by
  have hlinks := h.links
  rw [Notifications.links, hrecords, List.map_append, List.map_cons] at hlinks
  have hnodup := List.nodup_cons.mp (List.perm_middle.nodup_iff.mp hlinks)
  have hother : ∀ l : List (KeyWaitingRecord ν φ), (∀ x ∈ l, x ∈ front ++ back) →
      (l.map fun x => if x.link = r.link then { x with callbackStatus := true } else x) = l := by
    intro l hl
    refine (List.map_congr_left fun x hx => if_neg fun he => hnodup.1 ?_).trans (List.map_id l)
    rw [← List.map_append, ← he]
    exact List.mem_map_of_mem (hl x hx)
  show s.records.map _ = _
  rw [hrecords, List.map_append, List.map_cons, if_pos rfl, hother front fun x hx => List.mem_append_left _ hx,
    hother back fun x hx => List.mem_append_right _ hx]
  rfl

omit [DecidableEq ι] in
/-- The status is not what the list is kept in order by. -/
theorem Sound.setStatus (h : Sound s) (hrecords : s.records = front ++ r :: back) : Sound (setStatus s r) := by
  have hr : r ∈ s.records := hrecords ▸ List.mem_append_right _ (List.mem_cons_self ..)
  have hset := setStatus_records h hrecords
  have hkept : ∀ x ∈ (Notify.setStatus s r).records, ∃ y ∈ s.records, y.number = x.number := by
    intro x hx
    rw [hset] at hx
    rw [hrecords]
    rcases List.mem_append.mp hx with hx | hx
    · exact ⟨x, List.mem_append_left _ hx, rfl⟩
    · rcases List.mem_cons.mp hx with rfl | hx
      · exact ⟨r, List.mem_append_right _ (List.mem_cons_self ..), rfl⟩
      · exact ⟨x, List.mem_append_right _ (List.mem_cons_of_mem _ hx), rfl⟩
  constructor
  · have hlinks := h.links
    rw [Notifications.links, hrecords] at hlinks
    rw [Notifications.links, hset]
    simpa [marked] using hlinks
  · have hnumbers := h.numbers
    rw [hrecords] at hnumbers
    rw [hset]
    simpa [marked] using hnumbers
  · intro x hx
    obtain ⟨y, hy, hn⟩ := hkept x hx
    exact hn ▸ h.early y hy
  · intro n hn
    rcases List.mem_append.mp hn with hn | hn
    · exact h.past n hn
    · cases List.mem_singleton.mp hn
  · intro x hx hgone
    obtain ⟨y, hy, hn⟩ := hkept x hx
    rcases List.mem_append.mp hgone with hgone | hgone
    · exact h.present y hy (hn ▸ hgone)
    · cases List.mem_singleton.mp hgone
  · refine h.orderly.snoc fun n he => ?_
    obtain rfl := Occurrence.called.inj he
    exact h.present r hr

/-- The place of the walk: behind these records and in front of those. -/
structure At (w : Walk ι ν φ) (front back : List (KeyWaitingRecord ν φ)) : Prop where
  records : w.state.records = front ++ back
  here : w.terminalKeyIn = (back.map (·.link)).head?

/-- What a call does: the record is still in the list, or another one is at its address, or the walk starts again. -/
theorem callRecord_cases (pool : Pool ν) (callbacks : Callbacks ι ν φ) (h : Sound w.state) (hrecords : w.state.records = front ++ r :: back) :
    Sound (callRecord pool callbacks w r).state ∧ ∃ meanwhile new,
      Edited (setStatus w.state r) (callRecord pool callbacks w r).state meanwhile new
      ∧ (At (callRecord pool callbacks w r) (remaining meanwhile front ++ [marked r]) (remaining meanwhile back ++ new)
        ∨ (∃ new₁ y new₂, new = new₁ ++ y :: new₂ ∧ y.link = r.link
          ∧ At (callRecord pool callbacks w r) (remaining meanwhile (front ++ marked r :: back) ++ (new₁ ++ [y])) new₂)
        ∨ (r.link ∉ (callRecord pool callbacks w r).state.links
          ∧ At (callRecord pool callbacks w r) [] (callRecord pool callbacks w r).state.records)) := by
  have hset := setStatus_records h hrecords
  have hsound := h.setStatus hrecords
  obtain ⟨hsound', meanwhile, new, hedited⟩ :=
    (Edited.refl (setStatus w.state r)).edits hsound pool (callbacks r.callback r.context w.calls)
  refine ⟨hsound', meanwhile, new, hedited, ?_⟩
  have hall : (callRecord pool callbacks w r).state.records = remaining meanwhile (front ++ marked r :: back) ++ new := by
    rw [← hset]
    exact hedited.records
  have hlinks : (callRecord pool callbacks w r).state.links.Nodup := hsound'.links
  by_cases hvalid : r.link ∈ (callRecord pool callbacks w r).state.links
  · have hnext : (callRecord pool callbacks w r).terminalKeyIn = pNext r.link (callRecord pool callbacks w r).state.records :=
      if_pos (validateKeyRecord_iff.mpr hvalid)
    by_cases hgone : .unregistered r.number ∈ meanwhile
    · -- the record that has the link is one of the new ones
      refine Or.inr (Or.inl ?_)
      obtain ⟨y, hy, hlink⟩ := List.mem_map.mp hvalid
      have hnew : y ∈ new := by
        rw [hall] at hy
        refine (List.mem_append.mp hy).resolve_left fun hold => ?_
        obtain ⟨hmem, hkept⟩ := List.mem_filter.mp hold
        rw [← hset] at hmem
        have hr : marked r ∈ (setStatus w.state r).records := hset ▸ List.mem_append_right _ (List.mem_cons_self ..)
        rw [hsound.eq_of_link hmem hr hlink] at hkept
        exact of_decide_eq_true hkept hgone
      obtain ⟨new₁, new₂, hsplit⟩ := List.append_of_mem hnew
      rw [hsplit, List.append_cons new₁, ← List.append_assoc] at hall
      refine ⟨new₁, y, new₂, hsplit, hlink, hall, ?_⟩
      rw [← List.append_assoc, ← List.append_cons] at hall
      rw [Notifications.links, hall] at hlinks
      rw [hnext, hall, ← hlink, pNext_eq hlinks]
    · refine Or.inl ?_
      have hmarked : remaining meanwhile (front ++ marked r :: back) = remaining meanwhile front ++ marked r :: remaining meanwhile back := by
        rw [remaining_append]
        exact congrArg _ (List.filter_cons_of_pos (decide_eq_true hgone))
      rw [hmarked, List.append_assoc, List.cons_append] at hall
      refine ⟨by rw [List.append_assoc]; exact hall, ?_⟩
      rw [Notifications.links, hall] at hlinks
      rw [hnext, hall]
      exact pNext_eq hlinks
  · exact Or.inr (Or.inr ⟨hvalid, rfl, if_neg fun hv => hvalid (validateKeyRecord_iff.mp hv)⟩)

omit [DecidableEq ι] in
theorem At.found {back : List (KeyWaitingRecord ν φ)} (h : At w front (r :: back)) (hsound : Sound w.state) :
    w.terminalKeyIn = some r.link ∧ w.state.records.find? (·.link = r.link) = some r := by
  have hlinks := hsound.links
  rw [Notifications.links, h.records] at hlinks
  exact ⟨h.here, by rw [h.records]; exact find_link hlinks⟩

omit [DecidableEq ι] in
theorem At.calls (h : At w front (r :: back)) (hsound : Sound w.state) {x : KeyWaitingRecord ν φ} (hx : Calls key w x) : x = r := by
  obtain ⟨hhere, hfound⟩ := h.found hsound
  have hlink : x.link = r.link := Option.some.inj (hx.here.symm.trans hhere)
  have hat := hx.found
  rw [hlink, hfound] at hat
  exact (Option.some.inj hat).symm

/-- The rounds: the end, a record that is passed, a record that is called. -/
theorem walkRound_done (h : At w front []) : walkRound pool callbacks key w = some (.done w) := by
  rw [walkRound, h.here]
  rfl

theorem walkRound_passed (pool : Pool ν) (callbacks : Callbacks ι ν φ) (h : At w front (r :: back)) (hsound : Sound w.state)
    (hr : ¬ (keyMatch r.context key = true ∧ r.callbackStatus = false)) :
    ∃ w', walkRound pool callbacks key w = some (.again w') ∧ w'.state = w.state ∧ w'.calls = w.calls ∧ At w' (front ++ [r]) back := by
  obtain ⟨hhere, hfound⟩ := h.found hsound
  have hlinks := hsound.links
  rw [Notifications.links, h.records] at hlinks
  refine ⟨{ w with terminalKeyIn := pNext r.link w.state.records }, ?_, rfl, rfl, ?_, ?_⟩
  · rw [walkRound, hhere]
    simp only [hfound, Option.map_some]
    rw [if_neg (by simpa using hr)]
  · rw [List.append_assoc]
    exact h.records
  · show pNext r.link w.state.records = _
    rw [h.records, pNext_eq hlinks]

theorem walkRound_calls (pool : Pool ν) (callbacks : Callbacks ι ν φ) (h : Calls key w r) : walkRound pool callbacks key w = some (.again (callRecord pool callbacks w r)) := by
  rw [walkRound, h.here]
  simp only [h.found, Option.map_some]
  rw [if_pos (by simp [h.matching, h.unmarked])]

end

/-! ## What holds of a walk -/

section

variable {pool : Pool ν} {callbacks : Callbacks ι ν φ} {key : KeyData} {s : Notifications ι ν φ} {w w' : Walk ι ν φ}
  {r : KeyWaitingRecord ν φ} {front back : List (KeyWaitingRecord ν φ)} {meanwhile : List Occurrence}

/-- The walk has skipped the record with this number, and not started again since. -/
def SkippedBefore (pool : Pool ν) (callbacks : Callbacks ι ν φ) (key : KeyData) (s : Notifications ι ν φ) (w : Walk ι ν φ)
    (n : Nat) : Prop :=
  ∃ w₀ r x, Reached pool callbacks key s w₀ ∧ Skips pool callbacks key s w₀ r x ∧ x.number = n
    ∧ Onward pool callbacks key (callRecord pool callbacks w₀ r) w

structure Walking (pool : Pool ν) (callbacks : Callbacks ι ν φ) (key : KeyData) (s : Notifications ι ν φ) (w : Walk ι ν φ)
    (front back : List (KeyWaitingRecord ν φ)) (meanwhile : List Occurrence) : Prop where
  reached : Reached pool callbacks key s w
  sound : Sound w.state
  place : At w front back
  history : w.state.history = s.history ++ meanwhile
  requests : s.requests ≤ w.state.requests
  counts : ∀ r ∈ w.state.records, meanwhile.count (.called r.number) = if r.callbackStatus then 1 else 0
  late : ∀ n, w.state.requests ≤ n → .called n ∉ meanwhile
  uncalled : w.calls = 0 → ∀ n, .called n ∉ meanwhile
  old : ∀ r ∈ w.state.records, r.number < s.requests → ∃ x ∈ s.records, x.number = r.number ∧ x.context = r.context
  kept : ∀ r ∈ s.records, .unregistered r.number ∉ meanwhile → ∃ x ∈ w.state.records, x.number = r.number
  skipped : ∀ r ∈ front, keyMatch r.context key = true → r.callbackStatus = false → r.number < s.requests →
    SkippedBefore pool callbacks key s w r.number

/-- A walk starts with records none of which is marked. -/
structure Ready (s : Notifications ι ν φ) : Prop where
  sound : Sound s
  unmarked : ∀ r ∈ s.records, r.callbackStatus = false

theorem Ready.walking (h : Ready s) : Walking pool callbacks key s ⟨s, s.links.head?, 0⟩ [] s.records [] where
  reached := .start
  sound := h.sound
  place := ⟨rfl, rfl⟩
  history := (List.append_nil _).symm
  requests := le_rfl
  counts r hr := by rw [h.unmarked r hr]; rfl
  late _ _ := List.not_mem_nil
  uncalled _ _ := List.not_mem_nil
  old r hr _ := ⟨r, hr, rfl, rfl⟩
  kept r hr _ := ⟨r, hr, rfl⟩
  skipped _ hr := absurd hr List.not_mem_nil

theorem SkippedBefore.again {n : Nat} (h : SkippedBefore pool callbacks key s w n)
    (hround : walkRound pool callbacks key w = some (.again w')) (hstay : ∀ r, Calls key w r → r.link ∈ w'.state.links) :
    SkippedBefore pool callbacks key s w' n := by
  obtain ⟨w₀, r, x, hreached, hskips, hn, honward⟩ := h
  exact ⟨w₀, r, x, hreached, hskips, hn, honward.again hround hstay⟩

/-- A record that is not called is left behind. -/
theorem Walking.passed (h : Walking pool callbacks key s w front (r :: back) meanwhile)
    (hr : ¬ (keyMatch r.context key = true ∧ r.callbackStatus = false)) :
    ∃ w', walkRound pool callbacks key w = some (.again w') ∧ w'.calls = w.calls ∧ w'.state = w.state
      ∧ Walking pool callbacks key s w' (front ++ [r]) back meanwhile := by
  obtain ⟨w', hround, hstate, hcalls, hplace⟩ := walkRound_passed pool callbacks h.place h.sound hr
  refine ⟨w', hround, hcalls, hstate, ?_⟩
  constructor
  · exact h.reached.again hround
  · exact hstate ▸ h.sound
  · exact hplace
  · exact hstate ▸ h.history
  · exact hstate ▸ h.requests
  · exact hstate ▸ h.counts
  · exact hstate ▸ h.late
  · exact hcalls ▸ h.uncalled
  · exact hstate ▸ h.old
  · exact hstate ▸ h.kept
  · intro x hx hmatch hunmarked hearly
    rcases List.mem_append.mp hx with hx | hx
    · refine (h.skipped x hx hmatch hunmarked hearly).again hround fun y hy => ?_
      obtain rfl := h.place.calls h.sound hy
      exact absurd ⟨hy.matching, hy.unmarked⟩ hr
    · rw [List.mem_singleton.mp hx] at hmatch hunmarked
      exact absurd ⟨hmatch, hunmarked⟩ hr

/-! ## A call -/

variable {x : KeyWaitingRecord ν φ} {m : List Occurrence} {new : List (KeyWaitingRecord ν φ)}

theorem Walking.calls (h : Walking pool callbacks key s w front (r :: back) meanwhile) (hmatch : keyMatch r.context key = true)
    (hunmarked : r.callbackStatus = false) : Calls key w r :=
  ⟨(h.place.found h.sound).1, (h.place.found h.sound).2, hmatch, hunmarked⟩

/-- A record behind a call is the one that was called, one of the others, or a new one. -/
theorem Walking.cases (h : Walking pool callbacks key s w front (r :: back) meanwhile)
    (hedited : Edited (setStatus w.state r) (callRecord pool callbacks w r).state m new)
    (hx : x ∈ (callRecord pool callbacks w r).state.records) :
    x = marked r ∨ (x ∈ w.state.records ∧ x.number ≠ r.number) ∨ (x ∈ new ∧ w.state.requests ≤ x.number ∧ x.callbackStatus = false) := by
  have hset := setStatus_records h.sound h.place.records
  have hnumbers := (h.sound.setStatus h.place.records).numbers
  rw [hedited.records] at hx
  rcases List.mem_append.mp hx with hx | hx
  · obtain ⟨hx, -⟩ := List.mem_filter.mp hx
    by_cases hn : x.number = r.number
    · refine Or.inl (List.inj_on_of_nodup_map hnumbers hx ?_ hn)
      rw [hset]
      exact List.mem_append_right _ (List.mem_cons_self ..)
    · refine Or.inr (Or.inl ⟨?_, hn⟩)
      rw [hset] at hx
      rw [h.place.records]
      rcases List.mem_append.mp hx with hx | hx
      · exact List.mem_append_left _ hx
      · rcases List.mem_cons.mp hx with rfl | hx
        · exact absurd rfl hn
        · exact List.mem_append_right _ (List.mem_cons_of_mem _ hx)
  · exact Or.inr (Or.inr ⟨hx, hedited.late x hx, hedited.unmarked x hx⟩)

theorem count_called (hm : ∀ n, .called n ∉ m) (k n : Nat) :
    (meanwhile ++ .called k :: m).count (.called n) = meanwhile.count (.called n) + if k = n then 1 else 0 := by
  rw [List.count_append, List.count_cons, List.count_eq_zero.mpr (hm n), Nat.zero_add]
  simp

theorem mem_called (hm : ∀ n, .called n ∉ m) {k n : Nat} (h : Occurrence.called n ∈ meanwhile ++ .called k :: m) :
    .called n ∈ meanwhile ∨ n = k := by
  rcases List.mem_append.mp h with h | h
  · exact Or.inl h
  · rcases List.mem_cons.mp h with h | h
    · exact Or.inr (Occurrence.called.inj h)
    · exact absurd h (hm n)

/-- A call, wherever it leads. -/
theorem Walking.called_at (h : Walking pool callbacks key s w front (r :: back) meanwhile) (hcalls : Calls key w r)
    (hsound : Sound (callRecord pool callbacks w r).state)
    (hedited : Edited (setStatus w.state r) (callRecord pool callbacks w r).state m new)
    {front' back' : List (KeyWaitingRecord ν φ)} (hplace : At (callRecord pool callbacks w r) front' back')
    (hskipped : ∀ x ∈ front', keyMatch x.context key = true → x.callbackStatus = false → x.number < s.requests →
      SkippedBefore pool callbacks key s (callRecord pool callbacks w r) x.number) :
    Walking pool callbacks key s (callRecord pool callbacks w r) front' back' (meanwhile ++ .called r.number :: m) := by
  have hr : r ∈ w.state.records := h.place.records ▸ List.mem_append_right _ (List.mem_cons_self ..)
  have hrequests : w.state.requests ≤ (callRecord pool callbacks w r).state.requests := hedited.requests
  constructor
  · exact h.reached.again (walkRound_calls pool callbacks hcalls)
  · exact hsound
  · exact hplace
  · rw [hedited.history]
    show w.state.history ++ [.called r.number] ++ m = _
    rw [h.history, List.append_assoc, List.append_assoc, List.singleton_append]
  · exact h.requests.trans hrequests
  · intro x hx
    rw [count_called hedited.uncalled]
    rcases h.cases hedited hx with rfl | ⟨hx, hn⟩ | ⟨-, hlate, hunmarked⟩
    · have hcount := h.counts r hr
      rw [hcalls.unmarked] at hcount
      simp only [marked, if_true]
      rw [hcount]
      rfl
    · rw [if_neg (Ne.symm hn), Nat.add_zero]
      exact h.counts x hx
    · have hne : r.number ≠ x.number := (Nat.lt_of_lt_of_le (h.sound.early r hr) hlate).ne
      rw [if_neg hne, hunmarked, List.count_eq_zero.mpr (h.late x.number hlate)]
      rfl
  · intro n hn hmem
    rcases mem_called hedited.uncalled hmem with hmem | rfl
    · exact h.late n (hrequests.trans hn) hmem
    · exact absurd (h.sound.early r hr) (Nat.not_lt.mpr (hrequests.trans hn))
  · exact fun hzero => absurd hzero (Nat.succ_ne_zero _)
  · intro x hx hearly
    rcases h.cases hedited hx with rfl | ⟨hx, -⟩ | ⟨-, hlate, -⟩
    · exact h.old r hr hearly
    · exact h.old x hx hearly
    · exact absurd hearly (Nat.not_lt.mpr (h.requests.trans hlate))
  · intro x hx hpresent
    obtain ⟨y, hy, hn⟩ := h.kept x hx fun hmem => hpresent (List.mem_append_left _ hmem)
    have hgone : .unregistered x.number ∉ m := fun hmem => hpresent (List.mem_append_right _ (List.mem_cons_of_mem _ hmem))
    rw [hedited.records, setStatus_records h.sound h.place.records]
    rw [h.place.records] at hy
    have hmarked : ∃ z ∈ front ++ marked r :: back, z.number = y.number := by
      rcases List.mem_append.mp hy with hy | hy
      · exact ⟨y, List.mem_append_left _ hy, rfl⟩
      · rcases List.mem_cons.mp hy with rfl | hy
        · exact ⟨marked y, List.mem_append_right _ (List.mem_cons_self ..), rfl⟩
        · exact ⟨y, List.mem_append_right _ (List.mem_cons_of_mem _ hy), rfl⟩
    obtain ⟨z, hz, hzn⟩ := hmarked
    have hzx : z.number = x.number := hzn.trans hn
    exact ⟨z, List.mem_append_left _ (List.mem_filter.mpr ⟨hz, decide_eq_true (hzx ▸ hgone)⟩), hzx⟩
  · exact hskipped

theorem Walking.called (h : Walking pool callbacks key s w front (r :: back) meanwhile) (hcalls : Calls key w r) :
    ∃ front' back' meanwhile', Walking pool callbacks key s (callRecord pool callbacks w r) front' back' meanwhile' := by
  obtain ⟨hsound, m, new, hedited, hcases⟩ := callRecord_cases pool callbacks h.sound h.place.records
  have hr : r ∈ w.state.records := h.place.records ▸ List.mem_append_right _ (List.mem_cons_self ..)
  have hround := walkRound_calls pool callbacks hcalls
  rcases hcases with hplace | ⟨new₁, y, new₂, rfl, hlink, hplace⟩ | ⟨-, hplace⟩
  · refine ⟨_, _, _, h.called_at hcalls hsound hedited hplace fun x hx hmatch hunmarked hearly => ?_⟩
    rcases List.mem_append.mp hx with hx | hx
    · refine (h.skipped x (List.mem_of_mem_filter hx) hmatch hunmarked hearly).again hround fun z hz => ?_
      obtain rfl := h.place.calls h.sound hz
      rw [Notifications.links, hplace.records]
      exact List.mem_map.mpr ⟨marked z, List.mem_append_left _ (List.mem_append_right _ (List.mem_singleton_self _)), rfl⟩
    · rw [List.mem_singleton.mp hx] at hunmarked
      cases hunmarked
  · -- what stands in front of the record that has taken the address is skipped
    refine ⟨_, _, _, h.called_at hcalls hsound hedited hplace fun x hx hmatch hunmarked hearly => ?_⟩
    have hylate : w.state.requests ≤ y.number := hedited.late y (List.mem_append_right _ (List.mem_cons_self ..))
    have hne : y.number ≠ r.number := (Nat.lt_of_lt_of_le (h.sound.early r hr) hylate).ne'
    have hfront : x ∈ remaining m (front ++ marked r :: back) ++ new₁ := by
      rw [← List.append_assoc] at hx
      refine (List.mem_append.mp hx).resolve_right fun hxy => ?_
      rw [List.mem_singleton.mp hxy] at hearly
      exact absurd hearly (Nat.not_lt.mpr (h.requests.trans hylate))
    refine ⟨w, r, x, h.reached, ⟨hcalls, ⟨_, y, new₂, ?_, hlink, hne, hfront⟩, hearly, hmatch, hunmarked⟩, rfl, .refl⟩
    rw [hplace.records]
    simp only [List.append_assoc, List.singleton_append]
  · exact ⟨_, _, _, h.called_at hcalls hsound hedited hplace fun x hx => absurd hx List.not_mem_nil⟩

end

end BayTrail.Terminal.Notify
