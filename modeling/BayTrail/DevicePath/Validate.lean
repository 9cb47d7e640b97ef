import BayTrail.DevicePath.Path

/-!
# IsValidDevicePath

When it comes to an end, and what it has seen if it accepts the path.
-/

namespace BayTrail.DevicePath

open BayTrail.Lib
open Lib.Run (returns_pure returns_bind ends_pure)

/-! ## Headers -/

def IsEndType (type : UInt8) : Prop := type = END_DEVICE_PATH ∨ type = END_DEVICE_PATH1

instance (type : UInt8) : Decidable (IsEndType type) := inferInstanceAs (Decidable (_ ∨ _))

/-- The length in the header at this position. -/
def HasLength (m : Buffer) (p l : Nat) : Prop :=
  ∃ lo hi, m.bytes[p + 2]? = some lo ∧ m.bytes[p + 3]? = some hi ∧ lo.toNat + hi.toNat * 256 = l

/-- A node of this length that is no end node. -/
def NodeAt (m : Buffer) (p l : Nat) : Prop := ∃ t, m.bytes[p]? = some t ∧ ¬ IsEndType t ∧ HasLength m p l

/-- An end node with this sub type. -/
def EndAt (m : Buffer) (p : Nat) (subType : UInt8) : Prop :=
  ∃ t, m.bytes[p]? = some t ∧ IsEndType t ∧ m.bytes[p + 1]? = some subType

section headers

variable {m : Buffer} {p l l' : Nat} {s : UInt8}

theorem returns_nodeLength : (nodeLength m p).Returns l ↔ HasLength m p l := by
  simp only [nodeLength, returns_bind, returns_pure, returns_byte, HasLength]
  grind

theorem returns_isEndNode {b : Bool} : (isEndNode m p).Returns b ↔ ∃ t, m.bytes[p]? = some t ∧ b = decide (IsEndType t) := by
  simp only [isEndNode, returns_bind, returns_pure, returns_byte]
  refine exists_congr fun t => and_congr_right fun _ => ?_
  rw [eq_comm, show decide (IsEndType t) = _ from Bool.decide_or _ _]

theorem returns_isEndEntire {b : Bool} : (isEndEntire m p).Returns b ↔
    (∃ t, m.bytes[p]? = some t ∧ ¬ IsEndType t ∧ b = false)
    ∨ ∃ s, EndAt m p s ∧ b = decide (s = END_ENTIRE_SUBTYPE) := by
  simp only [isEndEntire, returns_bind, returns_isEndNode, EndAt]
  constructor
  · rintro ⟨e, ⟨t, ht, rfl⟩, h⟩
    by_cases hend : IsEndType t
    · simp only [hend, decide_true, if_true, returns_bind, returns_pure, returns_byte] at h
      obtain ⟨s, hs, rfl⟩ := h
      exact Or.inr ⟨s, ⟨t, ht, hend, hs⟩, rfl⟩
    · simp only [hend, decide_false, Bool.false_eq_true, if_false, returns_pure] at h
      exact Or.inl ⟨t, ht, hend, h.symm⟩
  · rintro (⟨t, ht, hend, rfl⟩ | ⟨s, ⟨t, ht, hend, hs⟩, rfl⟩)
    · exact ⟨false, ⟨t, ht, (decide_eq_false hend).symm⟩, returns_pure.mpr rfl⟩
    · exact ⟨true, ⟨t, ht, (decide_eq_true hend).symm⟩, (returns_bind.mpr ⟨s, returns_byte.mpr hs, returns_pure.mpr rfl⟩)⟩

theorem isEndEntire_true : (isEndEntire m p).Returns true ↔ EndAt m p END_ENTIRE_SUBTYPE := by
  refine returns_isEndEntire.trans ⟨?_, fun hend => Or.inr ⟨_, hend, rfl⟩⟩
  rintro (⟨-, -, -, hfalse⟩ | ⟨s, hend, hs⟩)
  · cases hfalse
  · exact of_decide_eq_true hs.symm ▸ hend

theorem isEndEntire_false {t : UInt8} (ht : m.bytes[p]? = some t) : (isEndEntire m p).Returns false ↔
    (IsEndType t → ∃ s, m.bytes[p + 1]? = some s ∧ s ≠ END_ENTIRE_SUBTYPE) := by
  refine returns_isEndEntire.trans ⟨fun h hend => ?_, fun h => ?_⟩
  · rcases h with ⟨t', ht', hnot, -⟩ | ⟨s, ⟨-, -, -, hs⟩, hne⟩
    · cases ht.symm.trans ht'
      exact absurd hend hnot
    · exact ⟨s, hs, of_decide_eq_false hne.symm⟩
  · by_cases hend : IsEndType t
    · obtain ⟨s, hs, hne⟩ := h hend
      exact Or.inr ⟨s, ⟨t, ht, hend, hs⟩, (decide_eq_false hne).symm⟩
    · exact Or.inl ⟨t, ht, hend, rfl⟩

theorem HasLength.unique (h : HasLength m p l) (h' : HasLength m p l') : l = l' :=
  Option.some.inj ((returns_nodeLength.mpr h).unique (returns_nodeLength.mpr h'))

theorem NodeAt.not_end (h : NodeAt m p l) : ¬ EndAt m p s := by
  obtain ⟨t, ht, hnot, -⟩ := h
  rintro ⟨t', ht', hend, -⟩
  obtain rfl := Option.some.inj (ht.symm.trans ht')
  exact hnot hend

theorem NodeAt.isEndNode (h : NodeAt m p l) : (isEndNode m p).Returns false := by
  obtain ⟨t, ht, hnot, -⟩ := h
  exact returns_isEndNode.mpr ⟨t, ht, (decide_eq_false hnot).symm⟩

theorem NodeAt.nodeLength (h : NodeAt m p l) : (nodeLength m p).Returns l := by
  obtain ⟨-, -, -, hlen⟩ := h
  exact returns_nodeLength.mpr hlen

theorem EndAt.isEndNode (h : EndAt m p s) : (isEndNode m p).Returns true := by
  obtain ⟨t, ht, hend, -⟩ := h
  exact returns_isEndNode.mpr ⟨t, ht, (decide_eq_true hend).symm⟩

theorem EndAt.subType (h : EndAt m p s) : (byte m (p + 1)).Returns s := by
  obtain ⟨-, -, -, hs⟩ := h
  exact returns_byte.mpr hs

end headers

/-! ## The validator's walk -/

/-- A node that it steps over: of a known type, no end of the path, and within the largest size. -/
def ValidNode (m : Buffer) (p l : Nat) : Prop :=
  ∃ t, m.bytes[p]? = some t ∧ t ∈ devicePathTypes ∧ (IsEndType t → ∃ s, m.bytes[p + 1]? = some s ∧ s ≠ END_ENTIRE_SUBTYPE)
    ∧ HasLength m p l ∧ p + l ≤ maxDpSize

/-- What it comes to from the start. -/
inductive Visited (m : Buffer) : Nat → Prop
  | start : Visited m 0
  | node {p l : Nat} : Visited m p → ValidNode m p l → Visited m (p + l)

/-- From here it comes to this end of the path. -/
inductive ValidTo (m : Buffer) (e : Nat) : Nat → Prop
  | stop : EndAt m e END_ENTIRE_SUBTYPE → ValidTo m e e
  | node {p l : Nat} : ValidNode m p l → ValidTo m e (p + l) → ValidTo m e p

section validator

variable {m : Buffer} {p l e : Nat}

theorem validRound_node (h : ValidNode m p l) : (validRound m (p, p)).Returns (.again (p + l, p + l)) := by
  obtain ⟨t, ht, htype, hsub, hlen, hsize⟩ := h
  refine ((isEndEntire_false ht).mpr hsub).bind ((returns_nodeLength.mpr hlen).bind (Run.Returns.bind (returns_byte.mpr ht) ?_))
  rw [if_neg (not_or.mpr ⟨not_not.mpr htype, Nat.not_lt.mpr hsize⟩)]
  exact returns_pure.mpr rfl

theorem validRound_returns {next : Next (Nat × Nat) Bool} (h : (validRound m (p, p)).Returns next) :
    (EndAt m p END_ENTIRE_SUBTYPE ∧ next = .done true) ∨ next = .done false
    ∨ ∃ l, ValidNode m p l ∧ next = .again (p + l, p + l) := by
  rw [validRound, returns_bind] at h
  obtain ⟨entire, hentire, h⟩ := h
  cases entire with
  | true => exact Or.inl ⟨isEndEntire_true.mp hentire, (returns_pure.mp h).symm⟩
  | false =>
    simp only [Bool.false_eq_true, if_false, returns_bind, returns_nodeLength, returns_byte] at h
    obtain ⟨l, hlen, t, ht, h⟩ := h
    by_cases hbad : t ∉ devicePathTypes ∨ maxDpSize < p + l
    · rw [if_pos hbad, returns_pure] at h
      exact Or.inr (Or.inl h.symm)
    · rw [if_neg hbad, returns_pure] at h
      refine Or.inr (Or.inr ⟨l, ⟨t, ht, ?_, (isEndEntire_false ht).mp hentire, hlen, ?_⟩, h.symm⟩)
      · exact Classical.not_not.mp fun h => hbad (Or.inl h)
      · exact Nat.not_lt.mp fun h => hbad (Or.inr h)

theorem validRound_ends (m : Buffer) (s : Nat × Nat) : (validRound m s).Ends := by
  have hbyte : ∀ p, (byte m p).Ends := fun p => Run.ends_ofOption _
  have hend : (isEndNode m s.1).Ends := (hbyte _).bind fun _ _ => ends_pure _
  have hentire : (isEndEntire m s.1).Ends := by
    refine hend.bind fun e _ => ?_
    cases e with
    | true => exact (hbyte _).bind fun _ _ => ends_pure _
    | false => exact ends_pure _
  have hlength : (nodeLength m s.1).Ends := (hbyte _).bind fun _ _ => (hbyte _).bind fun _ _ => ends_pure _
  refine hentire.bind fun e _ => ?_
  cases e with
  | true => exact ends_pure _
  | false =>
    refine hlength.bind fun l _ => (hbyte _).bind fun t _ => ?_
    split
    · exact ends_pure _
    · exact ends_pure _

/-- It accepts a path only at its end. -/
theorem isValidDevicePath_true (h : (isValidDevicePath m 0).Returns true) : ∃ e, ValidTo m e 0 := by
  have hloop : ∀ p, (Run.loop (validRound m) (p, p)).Returns true → ∃ e, ValidTo m e p := by
    intro p h
    refine Run.loop_induction (P := fun s r => s.1 = s.2 → r = true → ∃ e, ValidTo m e s.1) ?_ ?_ h rfl rfl
    · intro s r hround hs hr
      obtain ⟨p, q⟩ := s
      obtain rfl : p = q := hs
      rcases validRound_returns hround with ⟨hend, -⟩ | hfalse | ⟨l, -, hagain⟩
      · exact ⟨p, .stop hend⟩
      · cases hfalse
        cases hr
      · cases hagain
    · intro s s' r hround ih hs hr
      obtain ⟨p, q⟩ := s
      obtain rfl : p = q := hs
      rcases validRound_returns hround with ⟨-, hdone⟩ | hfalse | ⟨l, hnode, hagain⟩
      · cases hdone
      · cases hfalse
      · cases hagain
        obtain ⟨e, he⟩ := ih rfl hr
        exact ⟨e, .node hnode he⟩
  exact hloop 0 h

theorem ValidTo.returns (h : ValidTo m e p) : (Run.loop (validRound m) (p, p)).Returns true := by
  induction h with
  | stop hend =>
    refine Run.loop_done (Run.Returns.bind (isEndEntire_true.mpr hend) ?_)
    exact returns_pure.mpr rfl
  | node hnode _ ih => exact Run.loop_again (validRound_node hnode) ih

theorem ValidTo.le (h : ValidTo m e p) : p ≤ e := by
  induction h with
  | stop => exact Nat.le_refl _
  | node _ _ ih => omega

theorem ValidTo.le_maxDpSize (h : ValidTo m e p) (hp : p ≤ maxDpSize) : e ≤ maxDpSize := by
  induction h with
  | stop => exact hp
  | node hnode _ ih =>
    obtain ⟨-, -, -, -, -, hsize⟩ := hnode
    exact ih hsize

/-- It goes round and round at a node without a length, and comes to an end without one. -/
theorem isValidDevicePath_ends : (isValidDevicePath m 0).Ends ↔ ¬ ∃ p, Visited m p ∧ ValidNode m p 0 := by
  constructor
  · rintro hends ⟨p, hp, hzero⟩
    refine Run.not_ends_of_again (validRound_node hzero) ?_
    clear hzero
    induction hp with
    | start => exact hends
    | node _ hnode ih => exact ih.again (validRound_node hnode)
  · intro hno
    have hloop : ∀ n p, maxDpSize - p < n → p ≤ maxDpSize → Visited m p → (Run.loop (validRound m) (p, p)).Ends := by
      intro n
      induction n with
      | zero => intro p hn; omega
      | succ n ih =>
        intro p hn hp hvisited
        refine Run.ends_loop (validRound_ends m (p, p)) fun s' hround => ?_
        rcases validRound_returns hround with ⟨-, hdone⟩ | hdone | ⟨l, hnode, hagain⟩
        · cases hdone
        · cases hdone
        · cases hagain
          have hl : l ≠ 0 := by
            rintro rfl
            exact hno ⟨p, hvisited, hnode⟩
          obtain ⟨-, -, -, -, -, hsize⟩ := id hnode
          exact ih (p + l) (by omega) hsize (.node hvisited hnode)
    exact hloop (maxDpSize + 1) 0 (by omega) (Nat.zero_le _) .start

end validator

end BayTrail.DevicePath
