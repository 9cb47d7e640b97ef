import BayTrail.DevicePath.Protect

/-!
# DPIsOneOf within the bytes, and without

`DPIsOneOf` takes each end node of an instance for four bytes, whatever its length says. A round reads inside the bytes
as long as only nodes lead from its position to the end of the instance (`NodesTo`); it keeps that, and comes nearer to
the end, so the loop returns if the walk by four bytes comes to an end of the path (`InstancesEnd.dpIsOneOf`).
-/

namespace BayTrail.DevicePath

open BayTrail.Lib
open Lib.Run (returns_pure returns_bind loop_done loop_again)

/-! ## Rounds of DPIsOneOf -/

/-- From here only nodes lead to this position. -/
inductive NodesTo (m : Buffer) (x : Nat) : Nat → Prop
  | stop : NodesTo m x x
  | node {p l : Nat} : NodeAt m p l → NodesTo m x (p + l) → NodesTo m x p

section rounds

variable {q one : Buffer} {p pPath l : Nat} {s : UInt8} {exactMatch : Bool}

theorem sameNode_true (h : (sameNode q p one pPath).Returns true) :
    ∃ l, NodeAt one pPath l ∧ HasLength q p l ∧ (memCmp one pPath q p l).Returns 0 := by
  simp only [sameNode, returns_bind, returns_nodeLength] at h
  obtain ⟨l1, hl1, l2, hl2, h⟩ := h
  by_cases hlen : l1 = l2
  · subst hlen
    rw [if_pos rfl, returns_bind] at h
    obtain ⟨e, he, h⟩ := h
    obtain ⟨t, ht, rfl⟩ := returns_isEndNode.mp he
    by_cases hend : IsEndType t
    · simp [hend] at h
    · simp only [hend, decide_false, Bool.false_eq_true, if_false, returns_bind, returns_pure, decide_eq_true_eq] at h
      obtain ⟨r, hr, rfl⟩ := h
      exact ⟨l1, ⟨t, ht, hend, hl1⟩, hl2, hr⟩
  · rw [if_neg hlen] at h
    cases returns_pure.mp h

theorem sameNode_returns {l1 l2 : Nat} {b : Bool} (hone : HasLength one pPath l1) (hq : HasLength q p l2)
    (hend : (isEndNode one pPath).Returns b)
    (hcmp : l1 = l2 → b = false → ∃ r, (memCmp one pPath q p l2).Returns r) : ∃ b, (sameNode q p one pPath).Returns b := by
  by_cases hlen : l1 = l2
  · cases b with
    | true =>
      refine ⟨false, (returns_nodeLength.mpr hone).bind ((returns_nodeLength.mpr hq).bind ?_)⟩
      rw [if_pos hlen]
      exact hend.bind (returns_pure.mpr rfl)
    | false =>
      obtain ⟨r, hr⟩ := hcmp hlen rfl
      refine ⟨decide (r = 0), (returns_nodeLength.mpr hone).bind ((returns_nodeLength.mpr hq).bind ?_)⟩
      rw [if_pos hlen]
      exact hend.bind (hr.bind (returns_pure.mpr rfl))
  · refine ⟨false, (returns_nodeLength.mpr hone).bind ((returns_nodeLength.mpr hq).bind ?_)⟩
    rw [if_neg hlen]
    exact returns_pure.mpr rfl

variable {next : Next IsOneOf Bool}

theorem compareRound_returns (h : (isOneOfRound q one exactMatch (.compare pPath p)).Returns next) :
    (sameNode q p one pPath).Returns true
      ∧ (∃ l, NodeAt one pPath l ∧ HasLength q p l ∧ next = .again (.compare (pPath + l) (p + l)))
    ∨ (sameNode q p one pPath).Returns false
      ∧ ((isEndNode q p).Returns true ∧ (exactMatch = false ∨ (isEndNode one pPath).Returns true) ∧ next = .done true
        ∨ next = .again (.skip p)) := by
  rw [isOneOfRound, returns_bind] at h
  obtain ⟨same, hsame, h⟩ := h
  cases same with
  | true =>
    obtain ⟨l, hone, hq, -⟩ := sameNode_true hsame
    simp only [if_true, returns_bind, returns_pure] at h
    obtain ⟨l1, hl1, l2, hl2, rfl⟩ := h
    cases hl1.unique hone.nodeLength
    cases hl2.unique (returns_nodeLength.mpr hq)
    exact Or.inl ⟨hsame, l, hone, hq, rfl⟩
  | false =>
    refine Or.inr ⟨hsame, ?_⟩
    simp only [Bool.false_eq_true, if_false, returns_bind] at h
    obtain ⟨e, he, h⟩ := h
    cases e with
    | false => exact Or.inr (returns_pure.mp h).symm
    | true =>
      cases exactMatch with
      | false => exact Or.inl ⟨he, Or.inl rfl, (returns_pure.mp h).symm⟩
      | true =>
        simp only [Bool.not_true, Bool.false_eq_true, if_false, if_true, returns_bind] at h
        obtain ⟨e', he', h⟩ := h
        cases e' with
        | false => exact Or.inr (returns_pure.mp h).symm
        | true => exact Or.inl ⟨he, Or.inr he', (returns_pure.mp h).symm⟩

theorem skipRound_returns (h : (isOneOfRound q one exactMatch (.skip p)).Returns next) :
    EndAt q p END_ENTIRE_SUBTYPE ∧ next = .done false
    ∨ (∃ s, EndAt q p s ∧ s ≠ END_ENTIRE_SUBTYPE ∧ next = .again (.compare 0 (p + headerSize)))
    ∨ ∃ l, NodeAt q p l ∧ next = .again (.skip (p + l)) := by
  rw [isOneOfRound, returns_bind] at h
  obtain ⟨e, he, h⟩ := h
  obtain ⟨t, ht, rfl⟩ := returns_isEndNode.mp he
  by_cases hend : IsEndType t
  · simp only [hend, decide_true, if_true, returns_bind, returns_byte] at h
    obtain ⟨s, hs, h⟩ := h
    by_cases hentire : s = END_ENTIRE_SUBTYPE
    · subst hentire
      exact Or.inl ⟨⟨t, ht, hend, hs⟩, (returns_pure.mp h).symm⟩
    · rw [if_neg hentire, returns_pure] at h
      exact Or.inr (Or.inl ⟨s, ⟨t, ht, hend, hs⟩, hentire, h.symm⟩)
  · simp only [hend, decide_false, Bool.false_eq_true, if_false, returns_bind, returns_nodeLength, returns_pure] at h
    obtain ⟨l, hl, rfl⟩ := h
    exact Or.inr (Or.inr ⟨l, ⟨t, ht, hend, hl⟩, rfl⟩)

theorem skipRound_node (h : NodeAt q p l) : (isOneOfRound q one exactMatch (.skip p)).Returns (.again (.skip (p + l))) :=
  h.isEndNode.bind (h.nodeLength.bind (returns_pure.mpr rfl))

theorem skipRound_next (h : EndAt q p s) (hs : s ≠ END_ENTIRE_SUBTYPE) :
    (isOneOfRound q one exactMatch (.skip p)).Returns (.again (.compare 0 (p + headerSize))) := by
  refine h.isEndNode.bind (h.subType.bind ?_)
  rw [if_neg hs]
  exact returns_pure.mpr rfl

theorem skipRound_stop (h : EndAt q p END_ENTIRE_SUBTYPE) : (isOneOfRound q one exactMatch (.skip p)).Returns (.done false) :=
  h.isEndNode.bind (h.subType.bind (returns_pure.mpr rfl))

end rounds

/-! ## It returns if all it reads is there -/

section sufficient

variable {q one : Buffer} {p pPath l x : Nat} {s : UInt8} {exactMatch : Bool}

theorem NodesTo.le (h : NodesTo one x p) : p ≤ x := by
  induction h with
  | stop => exact Nat.le_refl _
  | node _ _ ih => omega

/-- The end is no node: another node stands in between, and it has a length. -/
theorem NodesTo.step (h : NodesTo one x p) (hx : (isEndNode one x).Returns true) (hnode : NodeAt one p l) :
    NodesTo one x (p + l) ∧ l ≠ 0 := by
  induction h with
  | stop => cases hx.unique hnode.isEndNode
  | @node p l' hnode' hrest ih =>
    obtain rfl : l' = l := Option.some.inj (hnode'.nodeLength.unique hnode.nodeLength)
    refine ⟨hrest, ?_⟩
    rintro rfl
    exact (ih hnode).2 rfl

theorem FirstEnds.nodes (h : FirstEnds one) :
    ∃ x, NodesTo one x 0 ∧ (isEndNode one x).Returns true ∧ x + headerSize ≤ one.bytes.length := by
  obtain ⟨x, hrun, hx⟩ := h
  have hloop := Run.loop_induction (P := fun p x => NodesTo one x p ∧ (isEndNode one x).Returns true) ?_ ?_ hrun
  · exact ⟨x, hloop.1, hloop.2, hx⟩
  · intro p x hround
    rw [endNodeRound, returns_bind] at hround
    obtain ⟨e, he, hround⟩ := hround
    cases e with
    | true =>
      cases returns_pure.mp hround
      exact ⟨.stop, he⟩
    | false =>
      simp [returns_bind] at hround
  · intro p p' x hround ih
    rw [endNodeRound, returns_bind] at hround
    obtain ⟨e, he, hround⟩ := hround
    cases e with
    | true => cases returns_pure.mp hround
    | false =>
      simp only [Bool.false_eq_true, if_false, returns_bind, returns_pure, returns_nodeLength] at hround
      obtain ⟨l, hl, hp'⟩ := hround
      cases hp'
      obtain ⟨t, ht, hend⟩ := returns_isEndNode.mp he
      exact ⟨.node ⟨t, ht, of_decide_eq_false hend.symm, hl⟩ ih.1, ih.2⟩

section one

variable (hx : (isEndNode one x).Returns true) (hlen : x + headerSize ≤ one.bytes.length)

include hx in
theorem NodesTo.isEndNode (h : NodesTo one x pPath) :
    (∃ l, NodeAt one pPath l) ∨ (DevicePath.isEndNode one pPath).Returns true := by
  cases h with
  | stop => exact Or.inr hx
  | node hnode => exact Or.inl ⟨_, hnode⟩

include hx hlen in
theorem sameNode_at_node (hone : NodesTo one x pPath) (hq : NodeAt q p l) (hp : p + l ≤ q.bytes.length) :
    ∃ b, (sameNode q p one pPath).Returns b := by
  obtain ⟨l1, hl1⟩ := exists_hasLength (m := one) (p := pPath) (by have := hone.le; omega)
  have hql := returns_nodeLength.mp hq.nodeLength
  rcases hone.isEndNode hx with ⟨l1', hnode⟩ | hend
  · refine sameNode_returns hl1 hql hnode.isEndNode fun heq _ => ?_
    cases hl1.unique (returns_nodeLength.mp hnode.nodeLength)
    have hle := (hone.step hx hnode).1.le
    obtain ⟨r, hr, -⟩ := memCmp_returns one q pPath p l (by omega) hp
    exact ⟨r, hr⟩
  · exact sameNode_returns hl1 hql hend fun _ hfalse => by cases hfalse

include hx hlen in
theorem sameNode_at_end (hone : NodesTo one x pPath) (hq : EndAt q p s) (hp : p + headerSize ≤ q.bytes.length)
    (hword : ∀ l, HasLength q p l → 8 ≤ l → p + 8 ≤ q.bytes.length) : (sameNode q p one pPath).Returns false := by
  obtain ⟨l1, hl1⟩ := exists_hasLength (m := one) (p := pPath) (by have := hone.le; omega)
  obtain ⟨l2, hl2⟩ := exists_hasLength hp
  -- of a node and the end node the first byte differs
  have hcmp : ∀ l, NodeAt one pPath l → HasLength q p l → ∃ r, (memCmp one pPath q p l).Returns r ∧ r ≠ 0 := by
    intro l hnode hl
    obtain ⟨hrest, hzero⟩ := hone.step hx hnode
    obtain ⟨t, ht, hnot, -⟩ := hnode
    obtain ⟨t', ht', hend, -⟩ := hq
    refine memCmp_differ ht ht' ?_ hzero fun h8 => ⟨?_, hword l hl h8⟩
    · rintro rfl
      exact hnot hend
    · have := hrest.le
      omega
  have hsome : ∃ b, (sameNode q p one pPath).Returns b := by
    rcases hone.isEndNode hx with ⟨l, hnode⟩ | hend
    · refine sameNode_returns hl1 hl2 hnode.isEndNode fun heq _ => ?_
      cases hl1.unique (returns_nodeLength.mp hnode.nodeLength)
      obtain ⟨r, hr, -⟩ := hcmp l2 (heq ▸ hnode) hl2
      exact ⟨r, hr⟩
    · exact sameNode_returns hl1 hl2 hend fun _ hfalse => by cases hfalse
  obtain ⟨b, hb⟩ := hsome
  cases b with
  | false => exact hb
  | true =>
    obtain ⟨l, hnode, hl, hzero⟩ := sameNode_true hb
    obtain ⟨r, hr, hne⟩ := hcmp l hnode hl
    cases hr.unique hzero
    exact absurd rfl hne

include hx in
/-- At an end node it returns or skips it. -/
theorem compareLoop_at_end (hone : NodesTo one x pPath) (hq : EndAt q p s)
    (hsame : (sameNode q p one pPath).Returns false)
    (hskip : ∃ b, (Run.loop (isOneOfRound q one exactMatch) (.skip p)).Returns b) :
    ∃ b, (Run.loop (isOneOfRound q one exactMatch) (.compare pPath p)).Returns b := by
  obtain ⟨b, hb⟩ := hskip
  cases exactMatch with
  | false => exact ⟨true, loop_done (hsame.bind (hq.isEndNode.bind (returns_pure.mpr rfl)))⟩
  | true =>
    rcases hone.isEndNode hx with ⟨l, hnode⟩ | hend
    · exact ⟨b, loop_again (hsame.bind (hq.isEndNode.bind (hnode.isEndNode.bind (returns_pure.mpr rfl)))) hb⟩
    · exact ⟨true, loop_done (hsame.bind (hq.isEndNode.bind (hend.bind (returns_pure.mpr rfl))))⟩

include hx hlen in
theorem isOneOfLoop_returns {e i start : Nat} (h : InstancesTo q e i start p) (hp : start ≤ p)
    (he : e + headerSize ≤ q.bytes.length) (hword : ∀ l, HasLength q e l → 8 ≤ l → e + 8 ≤ q.bytes.length)
    (hone : NodesTo one x 0) :
    (∀ pPath, NodesTo one x pPath → ∃ b, (Run.loop (isOneOfRound q one exactMatch) (.compare pPath p)).Returns b)
    ∧ ∃ b, (Run.loop (isOneOfRound q one exactMatch) (.skip p)).Returns b := by
  induction h with
  | stop hend =>
    have hskip : ∃ b, (Run.loop (isOneOfRound q one exactMatch) (.skip e)).Returns b :=
      ⟨false, loop_done (skipRound_stop hend)⟩
    exact ⟨fun pPath hpath => compareLoop_at_end hx hpath hend (sameNode_at_end hx hlen hpath hend he hword) hskip, hskip⟩
  | @node _ p l hnode hrest ih =>
    have hle := hrest.le (by omega)
    obtain ⟨hcompare, b, hb⟩ := ih (by omega)
    have hskip : (Run.loop (isOneOfRound q one exactMatch) (.skip p)).Returns b := loop_again (skipRound_node hnode) hb
    refine ⟨fun pPath hpath => ?_, b, hskip⟩
    obtain ⟨same, hsame⟩ := sameNode_at_node hx hlen hpath hnode (by omega)
    cases same with
    | false => exact ⟨b, loop_again (hsame.bind (hnode.isEndNode.bind (returns_pure.mpr rfl))) hskip⟩
    | true =>
      obtain ⟨l', hnode', hl', -⟩ := sameNode_true hsame
      obtain rfl := hl'.unique (returns_nodeLength.mp hnode.nodeLength)
      obtain ⟨b', hb'⟩ := hcompare (pPath + l') (hpath.step hx hnode').1
      exact ⟨b', loop_again (hsame.bind (hnode'.nodeLength.bind (hnode.nodeLength.bind (returns_pure.mpr rfl)))) hb'⟩
  | @next _ p s hend hs hrest ih =>
    have hle := hrest.le (Nat.le_refl _)
    simp only [headerSize] at hle he
    obtain ⟨hcompare, -⟩ := ih (Nat.le_refl _)
    obtain ⟨b, hb⟩ := hcompare 0 hone
    have hskip : ∃ b, (Run.loop (isOneOfRound q one exactMatch) (.skip p)).Returns b := ⟨b, loop_again (skipRound_next hend hs) hb⟩
    refine ⟨fun pPath hpath => compareLoop_at_end hx hpath hend ?_ hskip, hskip⟩
    -- another end node is behind this one
    exact sameNode_at_end hx hlen hpath hend (by simp only [headerSize]; omega) fun _ _ _ => by omega

end one

theorem InstancesEnd.dpIsOneOf (h : InstancesEnd q) (hone : FirstEnds one) (exactMatch : Bool) :
    ∃ b, (dpIsOneOf q one exactMatch).Returns b := by
  obtain ⟨e, i, hwalk, he, hword⟩ := h
  obtain ⟨x, hnodes, hx, hlen⟩ := hone.nodes
  exact (isOneOfLoop_returns hx hlen hwalk (Nat.le_refl _) he hword hnodes).1 0 hnodes

end sufficient

end BayTrail.DevicePath
