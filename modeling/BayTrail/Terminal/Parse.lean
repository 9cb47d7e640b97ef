import BayTrail.Terminal.Escape

/-!
# The reference parse

What the keys of a stream of characters are, with the moments at which the timer fires. At an escape
character the characters behind it are taken until they spell a sequence of the table, do not begin one, or
the timer fires; in the last two cases they are parsed afresh behind the key of the escape character.
-/

namespace BayTrail.Terminal

inductive Token where
  | char (c : UInt16)
  | timeout
  deriving DecidableEq

/-- The key of a lone escape character. -/
def escKey : Key := ⟨EFI_SCAN_ESC, 0⟩

section

variable (table : Table) (pad : UInt8)

/-- The key at an escape character, `w` being the characters behind it so far, and what is to be parsed then. -/
def escape (w : List UInt16) : List Token → Option (Key × List Token)
  | [] => none
  | .timeout :: ts => some (escKey, w.map .char ++ ts)
  | .char c :: ts =>
    match (sequences pad table).lookup (w ++ [c]) with
    | some k => some (k, ts)
    | none =>
      if w ++ [c] ∈ openings pad table then escape (w ++ [c]) ts
      else some (escKey, (w ++ [c]).map .char ++ ts)

/-- The first key, and what is to be parsed then. The timer says nothing where no escape character waits. -/
def nextKey : List Token → Option (Key × List Token)
  | [] => none
  | .timeout :: ts => nextKey ts
  | .char c :: ts => if c = ASCII_ESC then escape table pad [] ts else some (⟨0, c⟩, ts)

/-- The keys of the tokens up to some of them. -/
inductive Parses : List Token → List Key → List Token → Prop where
  | refl (ts : List Token) : Parses ts [] ts
  | step {ts ts' rest : List Token} {k : Key} {keys : List Key} :
      nextKey table pad ts = some (k, ts') → Parses ts' keys rest → Parses ts (k :: keys) rest

end

section

variable {table t next : Table} {pad : UInt8} {w p : List UInt16} {c : UInt16} {k : Key} {ts ts' later rest : List Token}
  {keys : List Key}

theorem escape_append (h : escape table pad w ts = some (k, ts')) :
    escape table pad w (ts ++ later) = some (k, ts' ++ later) := by
  induction ts generalizing w with
  | nil => cases h
  | cons token ts ih =>
    cases token with
    | timeout =>
      cases h
      rw [List.cons_append, escape, List.append_assoc]
    | char c =>
      rw [escape] at h
      rw [List.cons_append, escape]
      cases hlookup : (sequences pad table).lookup (w ++ [c]) with
      | some k' =>
        rw [hlookup] at h
        cases h
        rfl
      | none =>
        rw [hlookup] at h
        simp only at h ⊢
        by_cases hopen : w ++ [c] ∈ openings pad table
        · rw [if_pos hopen] at h ⊢
          exact ih h
        · rw [if_neg hopen] at h ⊢
          cases h
          rw [List.append_assoc]

/-- A key that is decided stays so when more arrives. -/
theorem nextKey_append (h : nextKey table pad ts = some (k, ts')) : nextKey table pad (ts ++ later) = some (k, ts' ++ later) := by
  induction ts with
  | nil => cases h
  | cons token ts ih =>
    cases token with
    | timeout => exact ih h
    | char c =>
      rw [nextKey] at h
      rw [List.cons_append, nextKey]
      by_cases hesc : c = ASCII_ESC
      · rw [if_pos hesc] at h ⊢
        exact escape_append h
      · rw [if_neg hesc] at h ⊢
        cases h
        rfl

theorem Parses.append (h : Parses table pad ts keys rest) : Parses table pad (ts ++ later) keys (rest ++ later) := by
  induction h with
  | refl ts => exact .refl _
  | step hnext _ ih => exact .step (nextKey_append hnext) ih

theorem Parses.snoc (h : Parses table pad ts keys rest) (hnext : nextKey table pad rest = some (k, ts')) :
    Parses table pad ts (keys ++ [k]) ts' := by
  induction h with
  | refl ts => exact .step hnext (.refl _)
  | step hfirst _ ih => exact .step hfirst (ih hnext)

/-- What is left behind some keys is one and the same. -/
theorem Parses.rest_unique {rest' : List Token} (h : Parses table pad ts keys rest) (h' : Parses table pad ts keys rest') :
    rest = rest' := by
  induction h with
  | refl ts =>
    cases h'
    rfl
  | step hnext _ ih =>
    cases h' with
    | step hnext' h' =>
      cases hnext.symm.trans hnext'
      exact ih h'

/-! ## A state of the table -/

/-- The entry for a character: a key, or another state. -/
def entry (pad : UInt8) : Table → UInt16 → Option (Key ⊕ Table)
  | .endMarker, _ => none
  | .key c keyPad k rest, inputChar => if c = inputChar ∧ admits keyPad pad then some (.inl k) else entry pad rest inputChar
  | .state c keyPad next rest, inputChar =>
    if c = inputChar ∧ admits keyPad pad then some (.inr next) else entry pad rest inputChar

theorem entry_of_not_mem (h : c ∉ firsts pad t) : entry pad t c = none := by
  induction t with
  | endMarker => rfl
  | key c' keyPad k rest ih =>
    rw [firsts, List.mem_append, not_or] at h
    have hne : ¬ (c' = c ∧ admits keyPad pad = true) := by
      rintro ⟨rfl, hadmits⟩
      exact h.1 (by rw [if_pos hadmits]; exact List.mem_singleton_self c')
    rw [entry, if_neg hne, ih h.2]
  | state c' keyPad next rest _ ih =>
    rw [firsts, List.mem_append, not_or] at h
    have hne : ¬ (c' = c ∧ admits keyPad pad = true) := by
      rintro ⟨rfl, hadmits⟩
      exact h.1 (by rw [if_pos hadmits]; exact List.mem_singleton_self c')
    rw [entry, if_neg hne, ih h.2]

/-- A sequence begins with a character that an entry is for. -/
theorem sequences_firsts (h : (p, k) ∈ sequences pad t) : ∃ c p', p = c :: p' ∧ c ∈ firsts pad t := by
  induction t generalizing p with
  | endMarker => cases h
  | key c keyPad k' rest ih =>
    rcases List.mem_append.mp h with h | h
    · split at h
      · rename_i hadmits
        cases List.mem_singleton.mp h
        exact ⟨c, [], rfl, List.mem_append_left _ (by rw [if_pos hadmits]; exact List.mem_singleton_self c)⟩
      · cases h
    · obtain ⟨c', p', rfl, hc⟩ := ih h
      exact ⟨c', p', rfl, List.mem_append_right _ hc⟩
  | state c keyPad next rest _ ih =>
    rcases List.mem_append.mp h with h | h
    · split at h
      · rename_i hadmits
        obtain ⟨q, -, hq⟩ := List.mem_map.mp h
        cases hq
        exact ⟨c, q.1, rfl, List.mem_append_left _ (by rw [if_pos hadmits]; exact List.mem_singleton_self c)⟩
      · cases h
    · obtain ⟨c', p', rfl, hc⟩ := ih h
      exact ⟨c', p', rfl, List.mem_append_right _ hc⟩

/-- What the entry for its first character makes of a sequence. -/
def Leads (pad : UInt8) (t : Table) (c : UInt16) (p : List UInt16) (k : Key) : Prop :=
  (entry pad t c = some (.inl k) ∧ p = []) ∨ ∃ next, entry pad t c = some (.inr next) ∧ (p, k) ∈ sequences pad next

/-- The sequences of an unambiguous state are those of the entries for their first characters. -/
theorem mem_sequences (hun : unambiguous pad t = true) : (c :: p, k) ∈ sequences pad t ↔ Leads pad t c p k := by
  unfold Leads
  induction t with
  | endMarker => exact iff_of_false (fun h => nomatch h) (by rintro (⟨h, -⟩ | ⟨_, h, -⟩) <;> cases h)
  | key c' keyPad k' rest ih =>
    simp only [unambiguous, Bool.and_eq_true, Bool.or_eq_true, Bool.not_eq_true', decide_eq_true_eq] at hun
    rw [sequences, List.mem_append, ih hun.2, entry]
    by_cases hc : c' = c ∧ admits keyPad pad = true
    · -- the entry is for this character, and no other one is
      obtain ⟨rfl, hadmits⟩ := hc
      rw [if_pos hadmits, if_pos ⟨rfl, hadmits⟩,
        entry_of_not_mem (hun.1.resolve_left fun h => absurd (hadmits.symm.trans h) (by decide))]
      constructor
      · rintro (h | ⟨h, -⟩ | ⟨_, h, -⟩)
        · cases List.mem_singleton.mp h
          exact Or.inl ⟨rfl, rfl⟩
        · cases h
        · cases h
      · rintro (⟨h, rfl⟩ | ⟨_, h, -⟩)
        · cases h
          exact Or.inl (List.mem_singleton_self _)
        · cases h
    · rw [if_neg hc]
      refine or_iff_right fun h => hc ?_
      split at h
      · rename_i hadmits
        cases List.mem_singleton.mp h
        exact ⟨rfl, hadmits⟩
      · cases h
  | state c' keyPad next rest _ ih =>
    simp only [unambiguous, Bool.and_eq_true, Bool.or_eq_true, Bool.not_eq_true', decide_eq_true_eq] at hun
    rw [sequences, List.mem_append, ih hun.2, entry]
    by_cases hc : c' = c ∧ admits keyPad pad = true
    · obtain ⟨rfl, hadmits⟩ := hc
      rw [if_pos hadmits, if_pos ⟨rfl, hadmits⟩,
        entry_of_not_mem (hun.1.1.resolve_left fun h => absurd (hadmits.symm.trans h) (by decide))]
      constructor
      · rintro (h | ⟨h, -⟩ | ⟨_, h, -⟩)
        · obtain ⟨q, hq, he⟩ := List.mem_map.mp h
          cases he
          exact Or.inr ⟨next, rfl, hq⟩
        · cases h
        · cases h
      · rintro (⟨h, -⟩ | ⟨_, h, hp⟩)
        · cases h
        · cases h
          exact Or.inl (List.mem_map.mpr ⟨(p, k), hp, rfl⟩)
    · rw [if_neg hc]
      refine or_iff_right fun h => hc ?_
      split at h
      · rename_i hadmits
        obtain ⟨q, -, he⟩ := List.mem_map.mp h
        cases he
        exact ⟨rfl, hadmits⟩
      · cases h

/-- So are the openings. -/
theorem mem_openings (hun : unambiguous pad t = true) :
    c :: w ∈ openings pad t ↔ ∃ next, entry pad t c = some (.inr next) ∧ (w = [] ∨ w ∈ openings pad next) := by
  induction t with
  | endMarker => exact iff_of_false (fun h => nomatch h) (by rintro ⟨_, h, -⟩; cases h)
  | key c' keyPad k' rest ih =>
    simp only [unambiguous, Bool.and_eq_true, Bool.or_eq_true, Bool.not_eq_true', decide_eq_true_eq] at hun
    rw [openings, ih hun.2, entry]
    by_cases hc : c' = c ∧ admits keyPad pad = true
    · obtain ⟨rfl, hadmits⟩ := hc
      rw [if_pos ⟨rfl, hadmits⟩, entry_of_not_mem (hun.1.resolve_left fun h => absurd (hadmits.symm.trans h) (by decide))]
      exact iff_of_false (by rintro ⟨_, h, -⟩; cases h) (by rintro ⟨_, h, -⟩; cases h)
    · rw [if_neg hc]
  | state c' keyPad next rest _ ih =>
    simp only [unambiguous, Bool.and_eq_true, Bool.or_eq_true, Bool.not_eq_true', decide_eq_true_eq] at hun
    rw [openings, List.mem_append, ih hun.2, entry]
    by_cases hc : c' = c ∧ admits keyPad pad = true
    · obtain ⟨rfl, hadmits⟩ := hc
      rw [if_pos hadmits, if_pos ⟨rfl, hadmits⟩,
        entry_of_not_mem (hun.1.1.resolve_left fun h => absurd (hadmits.symm.trans h) (by decide))]
      constructor
      · rintro (h | ⟨_, h, -⟩)
        · rcases List.mem_cons.mp h with h | h
          · cases h
            exact ⟨next, rfl, Or.inl rfl⟩
          · obtain ⟨w', hw, he⟩ := List.mem_map.mp h
            cases he
            exact ⟨next, rfl, Or.inr hw⟩
        · cases h
      · rintro ⟨_, h, hw⟩
        cases h
        rcases hw with rfl | hw
        · exact Or.inl List.mem_cons_self
        · exact Or.inl (List.mem_cons_of_mem _ (List.mem_map.mpr ⟨w, hw, rfl⟩))
    · rw [if_neg hc]
      refine or_iff_right fun h => hc ?_
      split at h
      · rename_i hadmits
        rcases List.mem_cons.mp h with h | h
        · cases h
          exact ⟨rfl, hadmits⟩
        · obtain ⟨w', -, he⟩ := List.mem_map.mp h
          cases he
          exact ⟨rfl, hadmits⟩
      · cases h

theorem nil_not_mem_sequences : ([], k) ∉ sequences pad t := by
  intro h
  obtain ⟨c, p', hp, -⟩ := sequences_firsts h
  cases hp

/-- The table that an entry leads to has what the whole one has, and one level less. -/
theorem entry_state (h : entry pad t c = some (.inr next)) (hun : unambiguous pad t = true) (hnz : t.nonzero = true) :
    unambiguous pad next = true ∧ next.nonzero = true ∧ next.depth + 1 ≤ t.depth := by
  induction t with
  | endMarker => cases h
  | key c' keyPad k' rest ih =>
    simp only [unambiguous, Table.nonzero, Bool.and_eq_true] at hun hnz
    rw [entry] at h
    split at h
    · cases h
    · exact ih h hun.2 hnz.2
  | state c' keyPad next' rest _ ih =>
    simp only [unambiguous, Table.nonzero, Bool.and_eq_true] at hun hnz
    rw [entry] at h
    rw [Table.depth]
    split at h
    · cases h
      exact ⟨hun.1.2, hnz.1.2, le_max_left _ _⟩
    · obtain ⟨h1, h2, h3⟩ := ih h hun.2 hnz.2
      exact ⟨h1, h2, h3.trans (le_max_right _ _)⟩

/-- The table stands in the state `t` behind the characters `w`. -/
structure At (table : Table) (pad : UInt8) (w : List UInt16) (t : Table) : Prop where
  seq : ∀ p k, (w ++ p, k) ∈ sequences pad table ↔ (p, k) ∈ sequences pad t
  opening : ∀ p, p ≠ [] → (w ++ p ∈ openings pad table ↔ p ∈ openings pad t)
  unambiguous : unambiguous pad t = true
  nonzero : t.nonzero = true
  depth : w.length + t.depth ≤ table.depth

theorem At.start (hun : BayTrail.Terminal.unambiguous pad table = true) (hnz : table.nonzero = true) : At table pad [] table where
  seq := fun _ _ => Iff.rfl
  opening := fun _ _ => Iff.rfl
  unambiguous := hun
  nonzero := hnz
  depth := by rw [List.length_nil, Nat.zero_add]

/-- An entry for the next character leads to the state behind it. -/
theorem At.follow (h : At table pad w t) (hentry : entry pad t c = some (.inr next)) : At table pad (w ++ [c]) next := by
  obtain ⟨hun, hnz, hdepth⟩ := entry_state hentry h.unambiguous h.nonzero
  refine ⟨fun p k => ?_, fun p hp => ?_, hun, hnz, ?_⟩
  · rw [List.append_assoc, List.singleton_append, h.seq, mem_sequences h.unambiguous, Leads, hentry]
    constructor
    · rintro (⟨he, -⟩ | ⟨_, he, hp⟩)
      · cases he
      · cases he
        exact hp
    · exact fun hp => Or.inr ⟨next, rfl, hp⟩
  · rw [List.append_assoc, List.singleton_append, h.opening _ (by simp), mem_openings h.unambiguous, hentry]
    constructor
    · rintro ⟨_, he, hw⟩
      cases he
      exact hw.resolve_left hp
    · exact fun hw => ⟨next, rfl, Or.inr hw⟩
  · have hle := h.depth
    rw [List.length_append, List.length_singleton]
    omega

variable {l : List (List UInt16 × Key)}

/-- A key that the table has for the characters. -/
theorem lookup_eq_some_of_unique (hmem : (w, k) ∈ l) (hunique : ∀ k', (w, k') ∈ l → k' = k) :
    l.lookup w = some k := by
  cases h : l.lookup w with
  | none => exact absurd (List.lookup_eq_none_iff.mp h _ hmem) (by simp)
  | some k' =>
    obtain ⟨l₁, l₂, rfl, -⟩ := List.lookup_eq_some_iff.mp h
    rw [hunique k' (by simp)]

theorem lookup_eq_none_of_forall (h : ∀ k, (w, k) ∉ l) : l.lookup w = none := by
  rw [List.lookup_eq_none_iff]
  intro q hq
  rw [bne_iff_ne]
  rintro rfl
  exact h q.2 hq

/-- The next character as the reference reads it. -/
theorem At.lookup_key (h : At table pad w t) (hentry : entry pad t c = some (.inl k)) :
    (sequences pad table).lookup (w ++ [c]) = some k := by
  refine lookup_eq_some_of_unique ?_ fun k' hk' => ?_
  · rw [h.seq, mem_sequences h.unambiguous]
    exact Or.inl ⟨hentry, rfl⟩
  · rw [h.seq, mem_sequences h.unambiguous, Leads, hentry] at hk'
    rcases hk' with ⟨he, -⟩ | ⟨_, he, -⟩
    · cases he
      rfl
    · cases he

theorem At.lookup_other (h : At table pad w t) (hentry : ∀ k, entry pad t c ≠ some (.inl k)) :
    (sequences pad table).lookup (w ++ [c]) = none := by
  refine lookup_eq_none_of_forall fun k hk => ?_
  rw [h.seq, mem_sequences h.unambiguous] at hk
  rcases hk with ⟨he, -⟩ | ⟨next, -, hnil⟩
  · exact hentry k he
  · exact nil_not_mem_sequences hnil

theorem At.mem_openings_iff (h : At table pad w t) : w ++ [c] ∈ openings pad table ↔ ∃ next, entry pad t c = some (.inr next) := by
  rw [h.opening [c] (by simp), mem_openings h.unambiguous]
  exact exists_congr fun next => and_iff_left (Or.inl rfl)

end

end BayTrail.Terminal
