import BayTrail.Bds.LoadOption
import BayTrail.DevicePath.Validate

/-!
# IsBootOptionValid

Where its three loops come to: over the description, over the first path, and over the whole list of
paths.
-/

namespace BayTrail.Bds

open BayTrail.Lib BayTrail.DevicePath
open Lib.Run (returns_pure returns_bind loop_done loop_again)

/-- A 16-bit number at this position. -/
def HasWord (m : Buffer) (p x : Nat) : Prop :=
  ∃ lo hi, m.bytes[p]? = some lo ∧ m.bytes[p + 1]? = some hi ∧ lo.toNat + hi.toNat * 256 = x

section words

variable {m : Buffer} {p x y : Nat}

theorem returns_read16 : (read16 m p).Returns x ↔ HasWord m p x := by
  simp only [read16, returns_bind, returns_pure, returns_byte, HasWord]
  grind

theorem HasWord.unique (h : HasWord m p x) (h' : HasWord m p y) : x = y :=
  Option.some.inj ((returns_read16.mpr h).unique (returns_read16.mpr h'))

theorem HasWord.le (h : HasWord m p x) : p + 2 ≤ m.bytes.length := by
  obtain ⟨lo, hi, -, hhi, -⟩ := h
  exact (List.getElem?_eq_some_iff.mp hhi).1

theorem exists_hasWord (h : p + 2 ≤ m.bytes.length) : ∃ x, HasWord m p x :=
  ⟨_, _, _, List.getElem?_eq_getElem (by omega), List.getElem?_eq_getElem (by omega), rfl⟩

theorem HasWord.lt (h : HasWord m p x) : x < 65536 := by
  obtain ⟨lo, hi, -, -, rfl⟩ := h
  have := lo.toNat_lt
  have := hi.toNat_lt
  omega

end words

/-! ## The description -/

/-- From here the loop over the description comes to this character: the terminator, or one that is not in
front of the end. -/
inductive ScansTo (m : Buffer) (endOfDescription c : Nat) : Nat → Prop
  | stop {x : Nat} : HasWord m c x → ¬ (x ≠ 0 ∧ c < endOfDescription) → ScansTo m endOfDescription c c
  | char {p x : Nat} : HasWord m p x → x ≠ 0 → p < endOfDescription → ScansTo m endOfDescription c (p + 2) →
      ScansTo m endOfDescription c p

/-- From here the terminator is at this character. -/
inductive Terminated (m : Buffer) (c : Nat) : Nat → Prop
  | stop : HasWord m c 0 → Terminated m c c
  | char {p x : Nat} : HasWord m p x → x ≠ 0 → Terminated m c (p + 2) → Terminated m c p

section description

variable {m : Buffer} {endOfDescription c c' p : Nat}

theorem charRound_stop {x : Nat} (h : HasWord m c x) (hstop : ¬ (x ≠ 0 ∧ c < endOfDescription)) :
    (charRound m endOfDescription c).Returns (.done c) := by
  refine (returns_read16.mpr h).bind ?_
  rw [if_neg hstop]
  exact returns_pure.mpr rfl

theorem charRound_char {x : Nat} (h : HasWord m p x) (hx : x ≠ 0) (hp : p < endOfDescription) :
    (charRound m endOfDescription p).Returns (.again (p + 2)) := by
  refine (returns_read16.mpr h).bind ?_
  rw [if_pos ⟨hx, hp⟩]
  exact returns_pure.mpr rfl

theorem ScansTo.returns (h : ScansTo m endOfDescription c p) :
    (Run.loop (charRound m endOfDescription) p).Returns c := by
  induction h with
  | stop hx hstop => exact loop_done (charRound_stop hx hstop)
  | char hx hne hp _ ih => exact loop_again (charRound_char hx hne hp) ih

theorem ScansTo.unique (h : ScansTo m endOfDescription c p) (h' : ScansTo m endOfDescription c' p) : c = c' :=
  Option.some.inj (h.returns.unique h'.returns)

variable (endOfDescription) in
/-- There is enough behind the description for the loop to stop. -/
theorem exists_scansTo (hend : endOfDescription + 3 ≤ m.bytes.length) (hp : p ≤ endOfDescription + 1) :
    ∃ c, ScansTo m endOfDescription c p := by
  obtain ⟨n, hn⟩ : ∃ n, endOfDescription + 2 - p ≤ n := ⟨_, Nat.le_refl _⟩
  induction n generalizing p with
  | zero => omega
  | succ n ih =>
    obtain ⟨x, hx⟩ := exists_hasWord (m := m) (p := p) (by omega)
    by_cases hagain : x ≠ 0 ∧ p < endOfDescription
    · obtain ⟨c, hc⟩ := ih (p := p + 2) (by omega) (by omega)
      exact ⟨c, .char hx hagain.1 hagain.2 hc⟩
    · exact ⟨p, .stop hx hagain⟩

theorem Terminated.le (h : Terminated m c p) : p ≤ c := by
  induction h with
  | stop => exact Nat.le_refl _
  | char _ _ _ ih => omega

/-- A terminator in front of the end is what the loop finds. -/
theorem Terminated.scansTo (h : Terminated m c p) (hc : c < endOfDescription) : ScansTo m endOfDescription c p := by
  induction h with
  | stop hx => exact .stop hx fun h => h.1 rfl
  | char hx hne hrest ih =>
    have := hrest.le
    exact .char hx hne (by omega) ih

theorem ScansTo.terminated (h : ScansTo m endOfDescription c p) (hc : c < endOfDescription) : Terminated m c p := by
  induction h with
  | @stop x hx hstop =>
    obtain rfl : x = 0 := by omega
    exact .stop hx
  | char hx hne _ _ ih => exact .char hx hne ih

end description

/-! ## The first path -/

/-- A node that the validator rejects: of an unknown type, or beyond the largest size. -/
def Rejected (m : Buffer) (p : Nat) : Prop :=
  ∃ t l, m.bytes[p]? = some t ∧ (IsEndType t → ∃ s, m.bytes[p + 1]? = some s ∧ s ≠ END_ENTIRE_SUBTYPE) ∧ HasLength m p l
    ∧ (t ∉ devicePathTypes ∨ maxDpSize < p + l)

/-- From here the validator comes to the end of the path, or to a node that it rejects. -/
inductive ValidStops (m : Buffer) : Nat → Prop
  | entire {p : Nat} : EndAt m p END_ENTIRE_SUBTYPE → ValidStops m p
  | rejected {p : Nat} : Rejected m p → ValidStops m p
  | node {p l : Nat} : ValidNode m p l → ValidStops m (p + l) → ValidStops m p

section firstPath

variable {m : Buffer} {p : Nat}

theorem validRound_rejected (h : Rejected m p) : (validRound m (p, p)).Returns (.done false) := by
  obtain ⟨t, l, ht, hsub, hlen, hbad⟩ := h
  refine ((isEndEntire_false ht).mpr hsub).bind ((returns_nodeLength.mpr hlen).bind (Run.Returns.bind (returns_byte.mpr ht) ?_))
  rw [if_pos hbad]
  exact returns_pure.mpr rfl

theorem validRound_false (h : (validRound m (p, p)).Returns (.done false)) : Rejected m p := by
  rw [validRound, returns_bind] at h
  obtain ⟨entire, hentire, h⟩ := h
  cases entire with
  | true => cases returns_pure.mp h
  | false =>
    simp only [Bool.false_eq_true, if_false, returns_bind, returns_nodeLength, returns_byte] at h
    obtain ⟨l, hlen, t, ht, h⟩ := h
    by_cases hbad : t ∉ devicePathTypes ∨ maxDpSize < p + l
    · exact ⟨t, l, ht, (isEndEntire_false ht).mp hentire, hlen, hbad⟩
    · rw [if_neg hbad, returns_pure] at h
      cases h

/-- It returns exactly if its walk stops. -/
theorem isValidDevicePath_returns : (∃ b, (isValidDevicePath m 0).Returns b) ↔ ValidStops m 0 := by
  constructor
  · rintro ⟨b, h⟩
    refine Run.loop_induction (P := fun s _ => s.1 = s.2 → ValidStops m s.1) ?_ ?_ h rfl
    · intro s b hround hs
      obtain ⟨p, q⟩ := s
      obtain rfl : p = q := hs
      rcases validRound_returns hround with ⟨hend, -⟩ | hfalse | ⟨l, -, hagain⟩
      · exact .entire hend
      · cases hfalse
        exact .rejected (validRound_false hround)
      · cases hagain
    · intro s s' b hround ih hs
      obtain ⟨p, q⟩ := s
      obtain rfl : p = q := hs
      rcases validRound_returns hround with ⟨-, hdone⟩ | hdone | ⟨l, hnode, hagain⟩
      · cases hdone
      · cases hdone
      · cases hagain
        exact .node hnode (ih rfl)
  · have hloop : ∀ p, ValidStops m p → ∃ b, (Run.loop (validRound m) (p, p)).Returns b := by
      intro p h
      induction h with
      | entire hend => exact ⟨true, (ValidTo.stop hend).returns⟩
      | rejected hbad => exact ⟨false, loop_done (validRound_rejected hbad)⟩
      | node hnode _ ih =>
        obtain ⟨b, hb⟩ := ih
        exact ⟨b, loop_again (validRound_node hnode) hb⟩
    exact hloop 0

end firstPath

/-! ## The list of paths -/

/-- A node with this much left of the list that ends the loop over the list. -/
inductive ListStops (m : Buffer) : Nat → Nat → Prop
  | longer {p left l : Nat} : HasLength m p l → left < l → ListStops m p left
  | rest {p left l : Nat} : HasLength m p l → l < left → left - l < headerSize → ListStops m p left
  | last {p left : Nat} {b : Bool} : HasLength m p left → (isEndEntire m p).Returns b → ListStops m p left
  | node {p left l : Nat} : HasLength m p l → l + headerSize ≤ left → ListStops m (p + l) (left - l) → ListStops m p left

/-- From here the nodes are as long as what is left of the list, and the last one ends it. -/
inductive ListTo (m : Buffer) : Nat → Nat → Prop
  | last {p : Nat} : EndAt m p END_ENTIRE_SUBTYPE → HasLength m p headerSize → ListTo m p headerSize
  | node {p left l : Nat} : HasLength m p l → l + headerSize ≤ left → ListTo m (p + l) (left - l) → ListTo m p left

/-- A list of well-formed nodes: of a known type, and not shorter than a header. -/
inductive NodeList (m : Buffer) : Nat → Nat → Prop
  | last {p : Nat} : EndAt m p END_ENTIRE_SUBTYPE → HasLength m p headerSize → NodeList m p headerSize
  | node {p left l : Nat} {t : UInt8} : m.bytes[p]? = some t → t ∈ devicePathTypes → HasLength m p l → headerSize ≤ l →
      l + headerSize ≤ left → NodeList m (p + l) (left - l) → NodeList m p left

section list

variable {m : Buffer} {p left : Nat}

theorem listRound_node {l : Nat} (h : HasLength m p l) (hl : l + headerSize ≤ left) :
    (listRound m (p, left)).Returns (.again (p + l, left - l)) := by
  refine (returns_nodeLength.mpr h).bind ?_
  rw [if_neg (by omega), if_neg (by omega)]
  exact returns_pure.mpr rfl

theorem listRound_returns {next : Next (Nat × Nat) Bool} (h : (listRound m (p, left)).Returns next) :
    ∃ l, HasLength m p l ∧
      ((left < l ∧ next = .done false) ∨ (l < left ∧ left - l < headerSize ∧ next = .done false)
        ∨ (left = l ∧ ∃ b, (isEndEntire m p).Returns b ∧ next = .done (b && l = headerSize))
        ∨ l + headerSize ≤ left ∧ next = .again (p + l, left - l)) := by
  rw [listRound, returns_bind] at h
  obtain ⟨l, hl, h⟩ := h
  refine ⟨l, returns_nodeLength.mp hl, ?_⟩
  have hpos : 0 < headerSize := by decide
  by_cases hover : left < l
  · rw [if_pos hover, returns_pure] at h
    exact Or.inl ⟨hover, h.symm⟩
  rw [if_neg hover] at h
  by_cases hrest : left - l < headerSize
  · rw [if_pos hrest] at h
    by_cases hzero : left - l ≠ 0
    · rw [if_pos hzero, returns_pure] at h
      exact Or.inr (Or.inl ⟨by omega, hrest, h.symm⟩)
    · rw [if_neg hzero, returns_bind] at h
      obtain ⟨b, hb, h⟩ := h
      exact Or.inr (Or.inr (Or.inl ⟨by omega, b, hb, (returns_pure.mp h).symm⟩))
  · rw [if_neg hrest, returns_pure] at h
    exact Or.inr (Or.inr (Or.inr ⟨by omega, h.symm⟩))

theorem listRound_last {b : Bool} (h : HasLength m p left) (hb : (isEndEntire m p).Returns b) :
    (listRound m (p, left)).Returns (.done (b && left = headerSize)) := by
  refine (returns_nodeLength.mpr h).bind ?_
  have hpos : 0 < headerSize := by decide
  rw [if_neg (Nat.lt_irrefl _), if_pos (by omega), if_neg (by omega)]
  exact hb.bind (returns_pure.mpr rfl)

/-- The loop returns exactly if the walk stops. -/
theorem listLoop_returns : (∃ b, (Run.loop (listRound m) (p, left)).Returns b) ↔ ListStops m p left := by
  constructor
  · rintro ⟨b, h⟩
    refine Run.loop_induction (P := fun s _ => ListStops m s.1 s.2) ?_ ?_ h
    · rintro ⟨p, left⟩ b hround
      obtain ⟨l, hl, h⟩ := listRound_returns hround
      rcases h with ⟨hover, -⟩ | ⟨hlt, hrest, -⟩ | ⟨rfl, b, hb, -⟩ | ⟨-, hagain⟩
      · exact .longer hl hover
      · exact .rest hl hlt hrest
      · exact .last hl hb
      · cases hagain
    · rintro ⟨p, left⟩ s' b hround ih
      obtain ⟨l, hl, h⟩ := listRound_returns hround
      rcases h with ⟨-, hdone⟩ | ⟨-, -, hdone⟩ | ⟨-, b, -, hdone⟩ | ⟨hle, hagain⟩
      · cases hdone
      · cases hdone
      · cases hdone
      · cases hagain
        exact .node hl hle ih
  · intro h
    have hpos : 0 < headerSize := by decide
    induction h with
    | longer hl hover =>
      refine ⟨false, loop_done ((returns_nodeLength.mpr hl).bind ?_)⟩
      rw [if_pos hover]
      exact returns_pure.mpr rfl
    | rest hl hlt hrest =>
      refine ⟨false, loop_done ((returns_nodeLength.mpr hl).bind ?_)⟩
      rw [if_neg (by omega), if_pos hrest, if_pos (by omega)]
      exact returns_pure.mpr rfl
    | last hl hb => exact ⟨_, loop_done (listRound_last hl hb)⟩
    | node hl hle _ ih =>
      obtain ⟨b, hb⟩ := ih
      exact ⟨b, loop_again (listRound_node hl hle) hb⟩

theorem listLoop_true : (Run.loop (listRound m) (p, left)).Returns true ↔ ListTo m p left := by
  constructor
  · intro h
    refine Run.loop_induction (P := fun s b => b = true → ListTo m s.1 s.2) ?_ ?_ h rfl
    · rintro ⟨p, left⟩ b hround hb
      obtain ⟨l, hl, h⟩ := listRound_returns hround
      rcases h with ⟨-, hdone⟩ | ⟨-, -, hdone⟩ | ⟨rfl, entire, hentire, hdone⟩ | ⟨-, hagain⟩
      · cases hdone
        cases hb
      · cases hdone
        cases hb
      · cases hdone
        rw [Bool.and_eq_true, decide_eq_true_eq] at hb
        obtain ⟨rfl, rfl⟩ := hb
        exact .last (isEndEntire_true.mp hentire) hl
      · cases hagain
    · rintro ⟨p, left⟩ s' b hround ih hb
      obtain ⟨l, hl, h⟩ := listRound_returns hround
      rcases h with ⟨-, hdone⟩ | ⟨-, -, hdone⟩ | ⟨-, b, -, hdone⟩ | ⟨hle, hagain⟩
      · cases hdone
      · cases hdone
      · cases hdone
      · cases hagain
        exact .node hl hle (ih hb)
  · intro h
    induction h with
    | last hend hl => exact loop_done (listRound_last hl (isEndEntire_true.mpr hend))
    | node hl hle _ ih => exact loop_again (listRound_node hl hle) ih

theorem NodeList.listTo (h : NodeList m p left) : ListTo m p left := by
  induction h with
  | last hend hl => exact .last hend hl
  | node _ _ hl _ hle _ ih => exact .node hl hle ih

/-- The last node of the list is in the buffer. -/
theorem ListTo.le (h : ListTo m p left) : p + left ≤ m.bytes.length := by
  induction h with
  | last hend hl =>
    obtain ⟨lo, hi, -, hhi, -⟩ := hl
    exact (List.getElem?_eq_some_iff.mp hhi).1
  | node _ hle _ ih => omega

/-- The first path of a well-formed list is what the validator accepts. -/
theorem NodeList.validTo (h : NodeList m p left) (hsize : p + left ≤ maxDpSize) : ∃ e, ValidTo m e p := by
  induction h with
  | last hend => exact ⟨_, .stop hend⟩
  | @node p left l t ht htype hl hfour hle hrest ih =>
    obtain ⟨e, he⟩ := ih (by omega)
    by_cases hentire : EndAt m p END_ENTIRE_SUBTYPE
    · exact ⟨p, .stop hentire⟩
    · refine ⟨e, .node ⟨t, ht, htype, fun hend => ?_, hl, by omega⟩ he⟩
      obtain ⟨lo, hi, hlo, -⟩ := hl
      have hlen := (List.getElem?_eq_some_iff.mp hlo).1
      refine ⟨_, List.getElem?_eq_getElem (show p + 1 < m.bytes.length by omega), fun hs => hentire ⟨t, ht, hend, ?_⟩⟩
      rw [List.getElem?_eq_getElem (show p + 1 < m.bytes.length by omega), hs]

end list

end BayTrail.Bds
