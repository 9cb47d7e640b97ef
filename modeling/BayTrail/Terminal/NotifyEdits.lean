import BayTrail.Terminal.Notify

/-!
# Registrations while a key is delivered

What any sequence of registrations and unregistrations does to the list: some of its records
are gone, and new ones follow. `Sound` is what holds of the list at all times, `Edited` says
what has changed since.
-/

namespace BayTrail.Terminal.Notify

open BayTrail.Lib

variable {ι ν φ : Type}

/-- No call follows the unregistration of its record. -/
def Orderly (history : List Occurrence) : Prop := ∀ n l m, history = l ++ .called n :: m → .unregistered n ∉ l

structure Sound (s : Notifications ι ν φ) : Prop where
  links : s.links.Nodup
  numbers : (s.records.map (·.number)).Nodup
  early : ∀ r ∈ s.records, r.number < s.requests
  past : ∀ n, .unregistered n ∈ s.history → n < s.requests
  present : ∀ r ∈ s.records, .unregistered r.number ∉ s.history
  orderly : Orderly s.history

/-- The records that none of these events unregisters. -/
def remaining (meanwhile : List Occurrence) (records : List (KeyWaitingRecord ν φ)) : List (KeyWaitingRecord ν φ) :=
  records.filter fun r => .unregistered r.number ∉ meanwhile

/-- Since `s`, this has happened, and these records are new. -/
structure Edited (s s' : Notifications ι ν φ) (meanwhile : List Occurrence) (new : List (KeyWaitingRecord ν φ)) : Prop where
  records : s'.records = remaining meanwhile s.records ++ new
  history : s'.history = s.history ++ meanwhile
  uncalled : ∀ n, .called n ∉ meanwhile
  late : ∀ r ∈ new, s.requests ≤ r.number
  unmarked : ∀ r ∈ new, r.callbackStatus = false
  requests : s.requests ≤ s'.requests

variable {s s' : Notifications ι ν φ} {meanwhile : List Occurrence} {new records front back : List (KeyWaitingRecord ν φ)}
  {r x y : KeyWaitingRecord ν φ} {link : ν} {n : Nat}

/-! ## The list and its links -/

/-- The numbers tell records apart. -/
theorem Sound.eq_of_number (h : Sound s) (hx : x ∈ s.records) (hy : y ∈ s.records) (hn : x.number = y.number) : x = y :=
  List.inj_on_of_nodup_map h.numbers hx hy hn

theorem Sound.eq_of_link (h : Sound s) (hx : x ∈ s.records) (hy : y ∈ s.records) (hl : x.link = y.link) : x = y :=
  List.inj_on_of_nodup_map h.links hx hy hl

theorem remaining_append (records' : List (KeyWaitingRecord ν φ)) :
    remaining meanwhile (records ++ records') = remaining meanwhile records ++ remaining meanwhile records' := List.filter_append ..

theorem remaining_snoc (e : Occurrence) : remaining (meanwhile ++ [e]) records = remaining [e] (remaining meanwhile records) := by
  rw [remaining, remaining, remaining, List.filter_filter]
  refine List.filter_congr fun r _ => ?_
  rw [Bool.and_comm]
  simp only [List.mem_append, not_or, Bool.decide_and]

theorem remaining_registered : remaining [.registered n] records = records := by
  rw [remaining, List.filter_eq_self]
  intro r _
  simp

/-- Without the one record that is unregistered. -/
theorem Sound.remaining_eq (h : Sound s) (hrecords : s.records = front ++ r :: back) :
    remaining [.unregistered r.number] s.records = front ++ back := by
  have hnumbers := h.numbers
  rw [hrecords] at hnumbers ⊢
  rw [List.map_append, List.map_cons] at hnumbers
  have hnodup := List.nodup_cons.mp (List.perm_middle.nodup_iff.mp hnumbers)
  have hkept : ∀ l : List (KeyWaitingRecord ν φ), (∀ x ∈ l, x ∈ front ++ back) → remaining [.unregistered r.number] l = l := by
    intro l hl
    rw [remaining, List.filter_eq_self]
    intro x hx
    have hne : x.number ≠ r.number := by
      intro he
      refine hnodup.1 ?_
      rw [← List.map_append, ← he]
      exact List.mem_map_of_mem (hl x hx)
    simpa using hne
  rw [remaining_append, hkept front fun x hx => List.mem_append_left _ hx]
  rw [remaining, List.filter_cons_of_neg (by simp)]
  exact congrArg (front ++ ·) (hkept back fun x hx => List.mem_append_right _ hx)

theorem Edited.refl (s : Notifications ι ν φ) : Edited s s [] [] := by
  refine ⟨?_, (List.append_nil _).symm, fun n hn => (nomatch hn), fun r hr => (nomatch hr), fun r hr => (nomatch hr), le_rfl⟩
  rw [List.append_nil, remaining, List.filter_eq_self.mpr fun r _ => by simp]

section

variable [DecidableEq ν]

theorem find_link (hnodup : ((front ++ r :: back).map (·.link)).Nodup) : (front ++ r :: back).find? (·.link = r.link) = some r := by
  have hfront : ∀ x ∈ front, ¬ x.link = r.link := by
    rw [List.map_append, List.map_cons] at hnodup
    intro x hx he
    exact (List.nodup_append.mp hnodup).2.2 x.link (List.mem_map_of_mem hx) r.link (List.mem_cons_self ..) he
  rw [List.find?_append, List.find?_eq_none.mpr fun x hx => by simpa using hfront x hx]
  simp

theorem pNext_eq (hnodup : ((front ++ r :: back).map (·.link)).Nodup) :
    pNext r.link (front ++ r :: back) = (back.map (·.link)).head? := by
  induction front with
  | nil => rw [List.nil_append, pNext, if_pos rfl]
  | cons x front ih =>
    rw [List.cons_append, List.map_cons, List.nodup_cons] at hnodup
    have hne : ¬ x.link = r.link := fun he => hnodup.1 (he ▸ List.mem_map_of_mem (List.mem_append_right _ (List.mem_cons_self ..)))
    rw [List.cons_append, pNext, if_neg hne, ih hnodup.2]

theorem validateKeyRecord_iff : validateKeyRecord link s = true ↔ link ∈ s.links := by
  simp [validateKeyRecord, Notifications.links]

theorem deleteLoop_none : deleteLoop link records = none ↔ link ∉ records.map (·.link) := by
  induction records with
  | nil => simp [deleteLoop]
  | cons x records ih =>
    rw [deleteLoop, List.map_cons, List.mem_cons, not_or]
    split
    · next hx => simp [hx]
    · next hx => rw [Option.map_eq_none_iff, ih, and_iff_right (Ne.symm hx)]

/-- The loop takes the record with the link out of the list. -/
theorem deleteLoop_some {d : KeyWaitingRecord ν φ × List (KeyWaitingRecord ν φ)} (h : deleteLoop link records = some d) :
    ∃ front back, records = front ++ d.1 :: back ∧ d.2 = front ++ back ∧ d.1.link = link := by
  induction records generalizing d with
  | nil => cases h
  | cons x records ih =>
    rw [deleteLoop] at h
    split at h
    · next hx =>
      cases h
      exact ⟨[], records, rfl, rfl, hx⟩
    · next hx =>
      obtain ⟨d', hd', rfl⟩ := Option.map_eq_some_iff.mp h
      obtain ⟨front, back, hrecords, hrest, hlink⟩ := ih hd'
      exact ⟨x :: front, back, by rw [hrecords]; rfl, by rw [hrest]; rfl, hlink⟩

end

/-! ## One call of the two functions -/

theorem Orderly.snoc {history : List Occurrence} {e : Occurrence} (h : Orderly history)
    (he : ∀ n, e = .called n → .unregistered n ∉ history) : Orderly (history ++ [e]) := by
  intro n l m heq
  rcases List.eq_nil_or_concat m with rfl | ⟨m, e', rfl⟩
  · obtain ⟨rfl, hlast⟩ := List.append_inj' heq rfl
    exact he n (List.singleton_inj.mp hlast)
  · rw [List.concat_eq_append, ← List.cons_append, ← List.append_assoc] at heq
    exact h n l m (List.append_inj' heq rfl).1

section

variable [DecidableEq ι] [DecidableEq ν]

/-- What a call of one of the two functions does: nothing, a record more, or a record less. -/
theorem edit_cases (pool : Pool ν) (s : Notifications ι ν φ) (e : Edit ι ν φ) :
    (∃ requests, edit pool s e = { s with requests := requests } ∧ s.requests ≤ requests ∧
      (∀ dev link, e = .unRegister dev (some link) → link ∉ s.links))
    ∨ (∃ dev link keyData callback, link ∉ s.links ∧ edit pool s e =
        { records := s.records ++ [⟨link, keyData, callback, false, s.requests⟩], active := Function.update s.active dev true,
          requests := s.requests + 1, history := s.history ++ [.registered s.requests] }
      ∧ ∀ dev handle, e ≠ .unRegister dev handle)
    ∨ ∃ dev front r back, e = .unRegister dev (some r.link) ∧ s.records = front ++ r :: back ∧ edit pool s e =
        { s with records := front ++ back, active := Function.update s.active dev false,
                 history := s.history ++ [.unregistered r.number] } := by
  cases e with
  | register dev keyData callback notifyHandle =>
    have hreg : ∀ (dev' : ι) (handle : Option ν), Edit.register dev keyData callback notifyHandle ≠ .unRegister dev' handle :=
      fun _ _ he => nomatch he
    rw [edit]
    unfold registerKeyNotify
    split
    · split
      · exact Or.inl ⟨s.requests + 1, rfl, Nat.le_succ _, fun dev' link he => nomatch he⟩
      · next link halloc =>
        exact Or.inr (Or.inl ⟨dev, link, _, _, pool.unused _ _ _ halloc, rfl, hreg⟩)
    · exact Or.inl ⟨s.requests, rfl, le_rfl, fun dev' link he => nomatch he⟩
  | unRegister dev handle =>
    rw [edit]
    unfold unRegisterKeyNotify
    cases handle with
    | none => exact Or.inl ⟨s.requests, rfl, le_rfl, fun dev' link he => nomatch he⟩
    | some link =>
      cases hdelete : deleteLoop link s.records with
      | none =>
        refine Or.inl ⟨s.requests, by simp only [hdelete], le_rfl, fun dev' link' he => ?_⟩
        cases he
        exact deleteLoop_none.mp hdelete
      | some d =>
        obtain ⟨front, back, hrecords, hrest, rfl⟩ := deleteLoop_some hdelete
        refine Or.inr (Or.inr ⟨dev, front, d.1, back, rfl, hrecords, ?_⟩)
        simp only [hdelete, hrest]

theorem Sound.edit (h : Sound s) (pool : Pool ν) (e : Edit ι ν φ) : Sound (edit pool s e) := by
  rcases edit_cases pool s e with ⟨requests, heq, hle, -⟩ | ⟨dev, link, keyData, callback, hlink, heq, -⟩
    | ⟨dev, front, r, back, -, hrecords, heq⟩
  · rw [heq]
    exact ⟨h.links, h.numbers, fun r hr => (h.early r hr).trans_le hle, fun n hn => (h.past n hn).trans_le hle, h.present, h.orderly⟩
  · rw [heq]
    constructor
    · rw [Notifications.links, List.map_append, List.nodup_append]
      refine ⟨h.links, List.nodup_singleton _, fun a ha b hb hab => ?_⟩
      obtain rfl : a = link := hab.trans (List.mem_singleton.mp hb)
      exact hlink ha
    · rw [List.map_append, List.nodup_append]
      refine ⟨h.numbers, List.nodup_singleton _, fun a ha b hb hab => ?_⟩
      obtain ⟨r, hr, rfl⟩ := List.mem_map.mp ha
      have hlt := h.early r hr
      rw [hab, List.mem_singleton.mp hb] at hlt
      exact Nat.lt_irrefl _ hlt
    · intro r hr
      rcases List.mem_append.mp hr with hr | hr
      · exact Nat.lt_succ_of_lt (h.early r hr)
      · rw [List.mem_singleton.mp hr]
        exact Nat.lt_succ_self _
    · intro n hn
      rcases List.mem_append.mp hn with hn | hn
      · exact Nat.lt_succ_of_lt (h.past n hn)
      · exact nomatch List.mem_singleton.mp hn
    · intro r hr hgone
      rcases List.mem_append.mp hgone with hgone | hgone
      · rcases List.mem_append.mp hr with hr | hr
        · exact h.present r hr hgone
        · rw [List.mem_singleton.mp hr] at hgone
          exact Nat.lt_irrefl _ (h.past _ hgone)
      · exact nomatch List.mem_singleton.mp hgone
    · exact h.orderly.snoc fun n he => nomatch he
  · rw [heq]
    have hsub : (front ++ back).Sublist s.records := hrecords ▸ (List.sublist_cons_self r back).append_left front
    have hr : r ∈ s.records := hrecords ▸ List.mem_append_right _ (List.mem_cons_self ..)
    constructor
    · exact h.links.sublist (hsub.map _)
    · exact h.numbers.sublist (hsub.map _)
    · exact fun x hx => h.early x (hsub.subset hx)
    · intro n hn
      rcases List.mem_append.mp hn with hn | hn
      · exact h.past n hn
      · obtain rfl := Occurrence.unregistered.inj (List.mem_singleton.mp hn)
        exact h.early r hr
    · intro x hx hgone
      rcases List.mem_append.mp hgone with hgone | hgone
      · exact h.present x (hsub.subset hx) hgone
      · have hnumber := Occurrence.unregistered.inj (List.mem_singleton.mp hgone)
        obtain rfl := h.eq_of_number (hsub.subset hx) hr hnumber
        have hnodup := h.numbers.of_map
        rw [hrecords] at hnodup
        exact (List.nodup_cons.mp (List.perm_middle.nodup_iff.mp hnodup)).1 hx
    · exact h.orderly.snoc fun n he => nomatch he

/-! ## Any sequence of them -/

theorem Edited.edit (h : Edited s s' meanwhile new) (hs' : Sound s') (pool : Pool ν) (e : Edit ι ν φ) :
    ∃ meanwhile' new', Edited s (edit pool s' e) meanwhile' new' := by
  rcases edit_cases pool s' e with ⟨requests, heq, hle, -⟩ | ⟨dev, link, keyData, callback, -, heq, -⟩
    | ⟨dev, front, r, back, -, hrecords, heq⟩
  · rw [heq]
    exact ⟨meanwhile, new, { h with requests := h.requests.trans hle }⟩
  · rw [heq]
    refine ⟨meanwhile ++ [.registered s'.requests], new ++ [⟨link, keyData, callback, false, s'.requests⟩], ?_⟩
    constructor
    · rw [remaining_snoc, remaining_registered, ← List.append_assoc, ← h.records]
    · rw [← List.append_assoc, ← h.history]
    · intro n hn
      rcases List.mem_append.mp hn with hn | hn
      · exact h.uncalled n hn
      · exact nomatch List.mem_singleton.mp hn
    · intro r hr
      rcases List.mem_append.mp hr with hr | hr
      · exact h.late r hr
      · rw [List.mem_singleton.mp hr]
        exact h.requests
    · intro r hr
      rcases List.mem_append.mp hr with hr | hr
      · exact h.unmarked r hr
      · rw [List.mem_singleton.mp hr]
    · exact h.requests.trans (Nat.le_succ _)
  · rw [heq]
    have hsub : remaining [.unregistered r.number] new ⊆ new := List.filter_subset_self ..
    refine ⟨meanwhile ++ [.unregistered r.number], remaining [.unregistered r.number] new, ?_⟩
    constructor
    · rw [remaining_snoc, ← remaining_append, ← h.records]
      exact (hs'.remaining_eq hrecords).symm
    · rw [← List.append_assoc, ← h.history]
    · intro n hn
      rcases List.mem_append.mp hn with hn | hn
      · exact h.uncalled n hn
      · exact nomatch List.mem_singleton.mp hn
    · exact fun x hx => h.late x (hsub hx)
    · exact fun x hx => h.unmarked x (hsub hx)
    · exact h.requests

theorem Edited.edits (h : Edited s s' meanwhile new) (hs' : Sound s') (pool : Pool ν) (l : List (Edit ι ν φ)) :
    Sound (edits pool s' l) ∧ ∃ meanwhile' new', Edited s (edits pool s' l) meanwhile' new' := by
  induction l generalizing s' meanwhile new with
  | nil => exact ⟨hs', meanwhile, new, h⟩
  | cons e l ih =>
    obtain ⟨meanwhile', new', h'⟩ := h.edit hs' pool e
    exact ih h' (hs'.edit pool e)

end

end BayTrail.Terminal.Notify
