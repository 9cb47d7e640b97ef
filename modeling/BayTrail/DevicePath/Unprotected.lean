import BayTrail.DevicePath.Protected

/-!
# What the validator does not protect

For a path with a walk over its instances that does not end, there is another path with which
`DPIsOneOf` does not return: it has a node that is nowhere in the first one.
-/

namespace BayTrail.DevicePath

open BayTrail.Lib
open Lib.Run (returns_pure returns_bind returns_loop)

/-! ## MemCmp returns zero of equal bytes only -/

section memCmp

variable {m1 m2 : Buffer} {p1 p2 : Nat}

/-- Both have the same byte there. -/
def SameByte (m1 : Buffer) (p1 : Nat) (m2 : Buffer) (p2 i : Nat) : Prop :=
  ∃ b, m1.bytes[p1 + i]? = some b ∧ m2.bytes[p2 + i]? = some b

theorem memCmpHead_same {r i i' : Nat} (h : (memCmpHead m1 p1 m2 p2 r i).Returns i') :
    ∀ j, i ≤ j → j < i' → SameByte m1 p1 m2 p2 j := by
  induction r generalizing i with
  | zero =>
    obtain rfl := returns_pure.mp h
    omega
  | succ r ih =>
    simp only [memCmpHead, returns_bind, returns_byte] at h
    obtain ⟨d, hd, s, hs, h⟩ := h
    by_cases heq : d = s
    · subst heq
      rw [if_pos rfl] at h
      intro j hij hj
      by_cases hji : j = i
      · exact ⟨d, hji ▸ hd, hji ▸ hs⟩
      · exact ih h j (by omega) hj
    · rw [if_neg heq, returns_pure] at h
      omega

theorem memCmpWords_same {n i i' : Nat} (h : (memCmpWords m1 p1 m2 p2 n i).Returns i') :
    ∀ j, i ≤ j → j < i' → SameByte m1 p1 m2 p2 j := by
  induction n generalizing i with
  | zero =>
    obtain rfl := returns_pure.mp h
    omega
  | succ n ih =>
    simp only [memCmpWords, returns_bind, returns_bytes] at h
    obtain ⟨d, ⟨hlen, hd⟩, s, ⟨-, hs⟩, h⟩ := h
    by_cases heq : d = s
    · subst heq
      rw [if_pos rfl] at h
      intro j hij hj
      by_cases hji : j < i + 8
      · have hbyte := List.getElem?_eq_getElem (show j - i < d.length by omega)
        have hj1 := hd.get hbyte
        have hj2 := hs.get hbyte
        rw [Nat.add_assoc, show i + (j - i) = j by omega] at hj1 hj2
        exact ⟨_, hj1, hj2⟩
      · exact ih h j (by omega) hj
    · rw [if_neg heq, returns_pure] at h
      omega

theorem memCmpTail_same {n i : Nat} (h : (memCmpTail m1 p1 m2 p2 n i).Returns 0) :
    ∀ j, i ≤ j → j < i + n → SameByte m1 p1 m2 p2 j := by
  induction n generalizing i with
  | zero => omega
  | succ n ih =>
    simp only [memCmpTail, returns_bind, returns_byte] at h
    obtain ⟨d, hd, s, hs, h⟩ := h
    by_cases heq : d = s
    · subst heq
      rw [if_pos rfl] at h
      intro j hij hj
      by_cases hji : j = i
      · exact ⟨d, hji ▸ hd, hji ▸ hs⟩
      · exact ih h j (by omega) (by omega)
    · rw [if_neg heq, returns_pure, toInt8_sub_eq_zero] at h
      exact absurd h heq

theorem memCmp_same {count : Nat} (h : (memCmp m1 p1 m2 p2 count).Returns 0) :
    ∀ j < count, SameByte m1 p1 m2 p2 j := by
  -- in front of the tail all bytes are the same
  have htail {i : Nat} (hi : ∀ j < i, SameByte m1 p1 m2 p2 j) (h : (memCmpTail m1 p1 m2 p2 (count - i) i).Returns 0) :
      ∀ j < count, SameByte m1 p1 m2 p2 j := by
    intro j hj
    by_cases hji : j < i
    · exact hi j hji
    · exact memCmpTail_same h j (by omega) (by omega)
  have hwords {i i' : Nat} (hi : ∀ j < i, SameByte m1 p1 m2 p2 j)
      (h : (memCmpWords m1 p1 m2 p2 ((count - i) / 8) i).Returns i') : ∀ j < i', SameByte m1 p1 m2 p2 j := by
    intro j hj
    by_cases hji : j < i
    · exact hi j hji
    · exact memCmpWords_same h j (by omega) hj
  rw [memCmp] at h
  split at h
  · rw [returns_bind] at h
    obtain ⟨i', hwhole, h⟩ := h
    refine htail ?_ h
    rw [memCmpWhole] at hwhole
    split at hwhole
    · rw [returns_bind] at hwhole
      obtain ⟨i, hhead, hwhole⟩ := hwhole
      exact hwords (fun j hj => memCmpHead_same hhead j (Nat.zero_le _) hj) hwhole
    · rw [returns_bind] at hwhole
      obtain ⟨i, hhead, hwhole⟩ := hwhole
      obtain rfl := returns_pure.mp hhead
      exact hwords (fun j hj => absurd hj (Nat.not_lt_zero j)) hwhole
  · rw [returns_bind] at h
    obtain ⟨i, hzero, h⟩ := h
    obtain rfl := returns_pure.mp hzero
    exact htail (fun j hj => absurd hj (Nat.not_lt_zero j)) h

end memCmp

/-! ## A node that is nowhere -/

/-- Three of its bytes, and their distances, tell the node. -/
structure Fresh (q : Buffer) (n : Node) : Prop where
  six_le : 6 ≤ n.length
  fresh : ∀ x, ¬ ∀ j < 6, SameByte (Buffer.mk 0 n.bytes) 0 q x j

/-- Of three bytes there are more than places in the buffer. -/
theorem exists_fresh (q : Buffer) (hq : q.bytes.length < 2 ^ 24) {l : Nat} (hl : 6 ≤ l) (hl' : l < 65536) :
    ∃ n : Node, n.length = l ∧ Fresh q n := by
  -- the number that the three bytes at a place are
  let number (x : Nat) : Nat :=
    (q.bytes[x + 1]?.getD 0).toNat + 256 * (q.bytes[x + 4]?.getD 0).toNat + 65536 * (q.bytes[x + 5]?.getD 0).toNat
  obtain ⟨k, hk, hnot⟩ : ∃ k ∈ Finset.range (q.bytes.length + 1), k ∉ (Finset.range q.bytes.length).image number := by
    refine Finset.exists_mem_notMem_of_card_lt_card (Nat.lt_of_le_of_lt Finset.card_image_le ?_)
    simp
  have hk : k < 2 ^ 24 := by
    have := Finset.mem_range.mp hk
    omega
  have hbyte (a : Nat) (ha : a < 256) : (UInt8.ofNat a).toNat = a := UInt8.toNat_ofNat_of_lt' (show a < 256 from ha)
  refine ⟨⟨1, UInt8.ofNat (k % 256), UInt8.ofNat (k / 256 % 256) :: UInt8.ofNat (k / 65536) :: List.replicate (l - 6) 0,
    by decide, by decide, by simp [headerSize]; omega⟩, by simp [Node.length, headerSize]; omega, ?_, ?_⟩
  · simp [Node.length, headerSize]
  · intro x h
    refine hnot (Finset.mem_image.mpr ⟨x, Finset.mem_range.mpr ?_, ?_⟩)
    · obtain ⟨b, -, hb⟩ := h 0 (by decide)
      exact (List.getElem?_eq_some_iff.mp hb).1
    · obtain ⟨b1, h1, hq1⟩ := h 1 (by decide)
      obtain ⟨b4, h4, hq4⟩ := h 4 (by decide)
      obtain ⟨b5, h5, hq5⟩ := h 5 (by decide)
      simp only [Node.bytes, Nat.zero_add, List.getElem?_cons_succ, List.getElem?_cons_zero, Option.some.injEq] at h1 h4 h5
      show (q.bytes[x + 1]?.getD 0).toNat + 256 * (q.bytes[x + 4]?.getD 0).toNat
        + 65536 * (q.bytes[x + 5]?.getD 0).toNat = k
      rw [hq1, hq4, hq5, ← h1, ← h4, ← h5]
      simp only [Option.getD_some]
      rw [hbyte _ (by omega), hbyte _ (by omega), hbyte _ (by omega)]
      omega

/-- The node at this place of the other path is not the same as any. -/
theorem Fresh.sameNode {q one : Buffer} {n : Node} {p pPath : Nat} (h : Fresh q n) (hone : Holds one pPath n.bytes) :
    ¬ (sameNode q p one pPath).Returns true := by
  intro hsame
  obtain ⟨l, hnode, -, hcmp⟩ := sameNode_true hsame
  obtain rfl := hnode.nodeLength.unique hone.nodeLength_node |> Option.some.inj
  refine h.fresh p fun j hj => ?_
  obtain ⟨b, hb, hb'⟩ := memCmp_same hcmp j (Nat.lt_of_lt_of_le hj h.six_le)
  have hget := List.getElem?_eq_getElem (show j < n.bytes.length from Nat.lt_of_lt_of_le hj h.six_le)
  have := hone.get hget
  exact ⟨b, by simpa using hget.trans (this.symm.trans hb), hb'⟩

theorem Holds.nodeAt {m : Buffer} {p : Nat} {n : Node} (h : Holds m p n.bytes) : NodeAt m p n.length :=
  ⟨n.type, h.type_node, n.type_ne_end, returns_nodeLength.mp h.nodeLength_node⟩

/-! ## The walk over the instances ends -/

/-- Bytes, a node and an end node: the other path. -/
def followed (front : List UInt8) (n : Node) : Buffer := ⟨0, front ++ (n.bytes ++ endNode END_ENTIRE_SUBTYPE)⟩

section necessary

variable {q : Buffer} {n : Node} {front : List UInt8}

theorem holds_followed : Holds (followed front n) front.length (n.bytes ++ endNode END_ENTIRE_SUBTYPE) := by
  have h := holds_append.mp (holds_self 0 (front ++ (n.bytes ++ endNode END_ENTIRE_SUBTYPE)))
  rw [Nat.zero_add] at h
  exact h.2

theorem followed_node : Holds (followed front n) front.length n.bytes := (holds_append.mp holds_followed).1

/-- Nodes that lead to the node lead to the end. -/
theorem firstEnds_followed (h : NodesTo (followed front n) front.length 0) : FirstEnds (followed front n) := by
  have hend : Holds (followed front n) (front.length + n.length) (endNode END_ENTIRE_SUBTYPE) := (holds_append.mp holds_followed).2
  have hloop : ∀ p, NodesTo (followed front n) front.length p →
      (dpGetEndNode (followed front n) p).Returns (front.length + n.length) := by
    intro p h
    induction h with
    | stop => exact Run.loop_again (endNodeRound_node followed_node) (Run.loop_done (endNodeRound_end hend))
    | node hnode _ ih => exact Run.loop_again (hnode.isEndNode.bind (hnode.nodeLength.bind (returns_pure.mpr rfl))) ih
  refine ⟨front.length + n.length, hloop 0 h, ?_⟩
  simp [followed, endNode, headerSize]
  omega

/-- What is still to be walked from a state of `DPIsOneOf`, when the path compared with is at its start. -/
def WalksOn (q : Buffer) : IsOneOf → Prop
  | .compare pPath p => pPath = 0 → ∀ start, ∃ e i, InstancesTo q e i start p
  | .skip p => ∀ start, ∃ e i, InstancesTo q e i start p

/-- With a path of that node alone, `DPIsOneOf` is the walk over the instances. -/
theorem instancesTo_of_dpIsOneOf (hfresh : Fresh q n) {b : Bool} (h : (dpIsOneOf q (followed [] n) true).Returns b) :
    ∃ e i, InstancesTo q e i 0 0 := by
  have hfirst : Holds (followed [] n) 0 n.bytes := followed_node
  refine Run.loop_induction (P := fun s _ => WalksOn q s) ?_ ?_ h rfl 0
  · intro s b hround
    cases s with
    | compare pPath p =>
      rintro rfl
      rcases compareRound_returns hround with ⟨hsame, -⟩ | ⟨-, ⟨-, hend, -⟩ | hagain⟩
      · exact absurd hsame (hfresh.sameNode hfirst)
      · rcases hend with hend | hend
        · cases hend
        · cases hend.unique hfirst.isEndNode_node
      · cases hagain
    | skip p =>
      intro start
      rcases skipRound_returns hround with ⟨hend, -⟩ | ⟨s, -, -, hagain⟩ | ⟨l, -, hagain⟩
      · exact ⟨p, start, .stop hend⟩
      · cases hagain
      · cases hagain
  · intro s s' b hround ih
    cases s with
    | compare pPath p =>
      rintro rfl
      rcases compareRound_returns hround with ⟨hsame, -⟩ | ⟨-, ⟨-, -, hdone⟩ | hagain⟩
      · exact absurd hsame (hfresh.sameNode hfirst)
      · cases hdone
      · cases hagain
        exact ih
    | skip p =>
      intro start
      rcases skipRound_returns hround with ⟨-, hdone⟩ | ⟨s, hend, hs, hagain⟩ | ⟨l, hnode, hagain⟩
      · cases hdone
      · cases hagain
        obtain ⟨e, i, hrest⟩ := ih rfl (p + headerSize)
        exact ⟨e, i, .next hend hs hrest⟩
      · cases hagain
        obtain ⟨e, i, hrest⟩ := ih start
        exact ⟨e, i, .node hnode hrest⟩

/-! ## The end node itself is there -/

/-- A node in front of an end node does not reach into it: its length would be the end node's type. -/
theorem NodeAt.le_end {e p l : Nat} (h : NodeAt q p l) (hend : EndAt q e END_ENTIRE_SUBTYPE) (hp : p < e) (hl : p + l ≤ e) :
    p + headerSize ≤ e := by
  obtain ⟨-, -, -, lo, hi, hlo, hhi, hlen⟩ := h
  obtain ⟨t, ht, htype, hsub⟩ := hend
  have hbig : 127 ≤ t.toNat := by
    rcases htype with rfl | rfl
    · decide
    · decide
  refine Nat.le_of_not_lt fun hlt => ?_
  simp only [headerSize] at hlt
  obtain h1 | h2 | h3 : p + 3 = e ∨ p + 2 = e ∨ p + 1 = e := by omega
  · rw [h1, ht] at hhi
    obtain rfl := Option.some.inj hhi
    omega
  · rw [h2, ht] at hlo
    obtain rfl := Option.some.inj hlo
    omega
  · rw [show p + 2 = e + 1 by omega, hsub] at hlo
    obtain rfl := Option.some.inj hlo
    have : END_ENTIRE_SUBTYPE.toNat = 255 := rfl
    omega

theorem InstancesTo.last {e i start p : Nat} (h : InstancesTo q e i start p) : start = i ∨ InstancesTo q e i i i := by
  induction h with
  | stop => exact Or.inl rfl
  | node _ _ ih => exact ih
  | next _ _ hrest ih =>
    rcases ih with rfl | hlast
    · exact Or.inr hrest
    · exact Or.inr hlast

theorem InstancesTo.endAt {e i start p : Nat} (h : InstancesTo q e i start p) : EndAt q e END_ENTIRE_SUBTYPE := by
  induction h with
  | stop hend => exact hend
  | node _ _ ih => exact ih
  | next _ _ _ ih => exact ih

/-- The nodes of the last instance. -/
def lastNodes (q : Buffer) (e i : Nat) : List UInt8 := (q.bytes.drop i).take (e - i)

section last

variable {e i start p l : Nat} (hend : EndAt q e END_ENTIRE_SUBTYPE)

include hend in
theorem length_lastNodes : (lastNodes q e i).length = e - i := by
  obtain ⟨t, ht, -⟩ := hend
  have := (List.getElem?_eq_some_iff.mp ht).1
  simp [lastNodes]
  omega

include hend in
theorem byte_lastNodes {j : Nat} (hi : i ≤ j) (hj : j < e) : (followed (lastNodes q e i) n).bytes[j - i]? = q.bytes[j]? := by
  have hlen := length_lastNodes (i := i) hend
  rw [followed, List.getElem?_append_left (by omega), lastNodes, List.getElem?_take_of_lt (by omega), List.getElem?_drop]
  congr 1
  omega

include hend in
theorem NodeAt.lastNodes (h : NodeAt q p l) (hi : i ≤ p) (hp : p < e) (hl : p + l ≤ e) :
    NodeAt (followed (lastNodes q e i) n) (p - i) l := by
  have hle := h.le_end hend hp hl
  simp only [headerSize] at hle
  obtain ⟨t, ht, htype, lo, hi', hlo, hhi, hlen⟩ := h
  refine ⟨t, ?_, htype, lo, hi', ?_, ?_, hlen⟩
  · rwa [byte_lastNodes hend hi (by omega)]
  · rwa [show p - i + 2 = p + 2 - i by omega, byte_lastNodes hend (by omega) (by omega)]
  · rwa [show p - i + 3 = p + 3 - i by omega, byte_lastNodes hend (by omega) (by omega)]

include hend in
theorem InstancesTo.lastNodes (h : InstancesTo q e i start p) (hstart : start = i) (hp : i ≤ p) :
    NodesTo (followed (lastNodes q e i) n) (e - i) (p - i) := by
  induction h with
  | stop => exact .stop
  | @node start p l hnode hrest ih =>
    have hle := (hrest.le (by omega)).2.2
    have hne : p ≠ e := by
      rintro rfl
      exact hnode.not_end hend
    have hrest := ih hstart (by omega)
    rw [show p + l - i = p - i + l by omega] at hrest
    exact .node (hnode.lastNodes hend hp (by omega) hle) hrest
  | next _ _ hrest =>
    have hle := (hrest.le (Nat.le_refl _)).1
    simp only [headerSize] at hle
    omega

include hend in
/-- Of the last instance the nodes are the same. -/
theorem sameNode_lastNodes (h : NodeAt q p l) (hi : i ≤ p) (hp : p < e) (hl : p + l ≤ e) :
    (sameNode q p (followed (lastNodes q e i) n) (p - i)).Returns true := by
  have hnode := h.lastNodes (n := n) hend hi hp hl
  have hq : p + l ≤ q.bytes.length := by
    obtain ⟨t, ht, -⟩ := hend
    have := (List.getElem?_eq_some_iff.mp ht).1
    omega
  have hlen := length_lastNodes (i := i) hend
  have hone : p - i + l ≤ (followed (lastNodes q e i) n).bytes.length := by
    rw [followed, List.length_append, hlen]
    omega
  obtain ⟨r, hr, hzero⟩ := memCmp_returns _ _ _ _ _ hone hq
  have hsame : r = 0 := by
    refine hzero.mpr (List.ext_getElem? fun j => ?_)
    rcases Nat.lt_or_ge j l with hj | hj
    · rw [List.getElem?_take_of_lt hj, List.getElem?_take_of_lt hj, List.getElem?_drop, List.getElem?_drop,
        show p - i + j = p + j - i by omega, byte_lastNodes hend (by omega) (by omega)]
    · rw [List.getElem?_eq_none (by simp; omega), List.getElem?_eq_none (by simp; omega)]
  refine hnode.nodeLength.bind (h.nodeLength.bind ?_)
  rw [if_pos rfl]
  exact hnode.isEndNode.bind (hr.bind (returns_pure.mpr (decide_eq_true hsame)))

include hend in
/-- With a path of the last instance's nodes and a node that is nowhere, the node is compared with the end
node: the loop gets there from every instance in front. -/
theorem sameNode_last (hfresh : Fresh q n) (hfront : NodesTo (followed (lastNodes q e i) n) (e - i) 0)
    (h : InstancesTo q e i start p) (hp : start ≤ p) :
    (∀ pPath b, NodesTo (followed (lastNodes q e i) n) (e - i) pPath → (start = i → pPath = p - i) →
      (Run.loop (isOneOfRound q (followed (lastNodes q e i) n) true) (.compare pPath p)).Returns b →
      ∃ same, (sameNode q e (followed (lastNodes q e i) n) (e - i)).Returns same)
    ∧ (start ≠ i → ∀ b, (Run.loop (isOneOfRound q (followed (lastNodes q e i) n) true) (.skip p)).Returns b →
      ∃ same, (sameNode q e (followed (lastNodes q e i) n) (e - i)).Returns same) := by
  have hfollow : Holds (followed (lastNodes q e i) n) (e - i) n.bytes := length_lastNodes (i := i) hend ▸ followed_node
  -- the other path has a node wherever it is compared
  have hnodes {pPath : Nat} (h : NodesTo (followed (lastNodes q e i) n) (e - i) pPath) :
      ∃ l, NodeAt (followed (lastNodes q e i) n) pPath l := by
    cases h with
    | stop => exact ⟨n.length, hfollow.nodeAt⟩
    | node hnode => exact ⟨_, hnode⟩
  induction h with
  | stop =>
    refine ⟨fun pPath b _ hpath hrun => ?_, fun hne => absurd rfl hne⟩
    rw [hpath rfl] at hrun
    rcases returns_loop.mp hrun with ⟨s', hround, -⟩ | hround
    · rcases compareRound_returns hround with ⟨hsame, -⟩ | ⟨hsame, -⟩
      · exact ⟨true, hsame⟩
      · exact ⟨false, hsame⟩
    · rcases compareRound_returns hround with ⟨hsame, -⟩ | ⟨hsame, -⟩
      · exact ⟨true, hsame⟩
      · exact ⟨false, hsame⟩
  | @node start p l hnode hrest ih =>
    obtain ⟨hcompare, hskip⟩ := ih (by omega)
    have hle := hrest.le (by omega)
    have hne : p ≠ e := by
      rintro rfl
      exact hnode.not_end hend
    have hskip (hstart : start ≠ i) {b : Bool}
        (hrun : (Run.loop (isOneOfRound q (followed (lastNodes q e i) n) true) (.skip p)).Returns b) :
        ∃ same, (sameNode q e (followed (lastNodes q e i) n) (e - i)).Returns same := by
      rcases returns_loop.mp hrun with ⟨s', hround, hrun⟩ | hround
      · cases hround.unique (skipRound_node hnode)
        exact hskip hstart b hrun
      · cases hround.unique (skipRound_node hnode)
    refine ⟨fun pPath b hpath hstart hrun => ?_, fun hstart b hrun => hskip hstart hrun⟩
    rcases returns_loop.mp hrun with ⟨s', hround, hrun⟩ | hround
    · rcases compareRound_returns hround with ⟨hsame, l', hone, hl', hs'⟩ | ⟨hsame, ⟨-, -, hs'⟩ | hs'⟩
      · -- the node is the same: not the last one of the other path
        cases hs'
        obtain rfl := hl'.unique (returns_nodeLength.mp hnode.nodeLength)
        refine hcompare (pPath + l') b ?_ (fun h => by rw [hstart h]; omega) hrun
        cases hpath with
        | stop => exact absurd hsame (hfresh.sameNode hfollow)
        | node hone' hpath =>
          cases hone'.nodeLength.unique hone.nodeLength
          exact hpath
      · cases hs'
      · cases hs'
        refine hskip (fun h => ?_) hrun
        subst h
        rw [hstart rfl] at hsame
        cases hsame.unique (sameNode_lastNodes hend hnode hp (by omega) hle.2.2)
    · rcases compareRound_returns hround with ⟨-, l', -, -, hs'⟩ | ⟨-, ⟨hq, -, -⟩ | hs'⟩
      · cases hs'
      · cases hq.unique hnode.isEndNode
      · cases hs'
  | @next start p s hinstance hs hrest ih =>
    obtain ⟨hcompare, -⟩ := ih (Nat.le_refl _)
    have hle := (hrest.le (Nat.le_refl _)).1
    simp only [headerSize] at hle
    have hskip {b : Bool} (hrun : (Run.loop (isOneOfRound q (followed (lastNodes q e i) n) true) (.skip p)).Returns b) :
        ∃ same, (sameNode q e (followed (lastNodes q e i) n) (e - i)).Returns same := by
      rcases returns_loop.mp hrun with ⟨s', hround, hrun⟩ | hround
      · cases hround.unique (skipRound_next hinstance hs)
        exact hcompare 0 b hfront (fun h => by simp only [headerSize] at h ⊢; omega) hrun
      · cases hround.unique (skipRound_next hinstance hs)
    refine ⟨fun pPath b hpath _ hrun => ?_, fun _ b hrun => hskip hrun⟩
    rcases returns_loop.mp hrun with ⟨s', hround, hrun'⟩ | hround
    · rcases compareRound_returns hround with ⟨hsame, l, hone, -, hs'⟩ | ⟨-, ⟨-, -, hs'⟩ | hs'⟩
      · -- a node is never the same as an end node
        obtain ⟨l', hone', -, hcmp⟩ := sameNode_true hsame
        cases hone'.nodeLength.unique hone.nodeLength
        by_cases hzero : l = 0
        · subst hzero
          cases hs'
          exact absurd hrun.ends (Run.not_ends_of_again hround)
        · obtain ⟨b, hb, hb'⟩ := memCmp_same hcmp 0 (Nat.pos_of_ne_zero hzero)
          obtain ⟨t, ht, hnot, -⟩ := hone
          obtain ⟨t', ht', htype, -⟩ := hinstance
          rw [Nat.add_zero] at hb hb'
          cases ht.symm.trans hb
          cases ht'.symm.trans hb'
          exact absurd htype hnot
      · cases hs'
      · cases hs'
        exact hskip hrun'
    · rcases compareRound_returns hround with ⟨-, l', -, -, hs'⟩ | ⟨-, ⟨-, hend', -⟩ | hs'⟩
      · cases hs'
      · obtain ⟨l, hone⟩ := hnodes hpath
        rcases hend' with h | h
        · cases h
        · cases h.unique hone.isEndNode
      · cases hs'

end last

variable {one : Buffer} {same : Bool}

theorem sameNode_memCmp {p pPath l : Nat} (h : (sameNode q p one pPath).Returns same)
    (hone : NodeAt one pPath l) (hq : HasLength q p l) : ∃ r, (memCmp one pPath q p l).Returns r := by
  rw [sameNode, returns_bind] at h
  obtain ⟨l1, hl1, h⟩ := h
  cases hl1.unique hone.nodeLength
  rw [returns_bind] at h
  obtain ⟨l2, hl2, h⟩ := h
  cases hl2.unique (returns_nodeLength.mpr hq)
  rw [if_pos rfl, returns_bind] at h
  obtain ⟨b, hb, h⟩ := h
  cases hb.unique hone.isEndNode
  simp only [Bool.false_eq_true, if_false, returns_bind] at h
  obtain ⟨r, hr, -⟩ := h
  exact ⟨r, hr⟩

theorem sameNode_hasLength {p pPath : Nat} (h : (sameNode q p one pPath).Returns same) :
    ∃ l, HasLength q p l := by
  rw [sameNode, returns_bind] at h
  obtain ⟨l1, -, h⟩ := h
  rw [returns_bind] at h
  obtain ⟨l2, hl2, -⟩ := h
  exact ⟨l2, returns_nodeLength.mp hl2⟩

theorem HasLength.lt {p l : Nat} (h : HasLength q p l) : l < 65536 := by
  obtain ⟨lo, hi, -, -, rfl⟩ := h
  have := lo.toNat_lt
  have := hi.toNat_lt
  omega

/-- If it returns with every other path, all that it could read is there. -/
theorem instancesEnd_of_dpIsOneOf (hq : q.bytes.length < 2 ^ 24)
    (h : ∀ one, FirstEnds one → ∀ exactMatch, ∃ b, (dpIsOneOf q one exactMatch).Returns b) : InstancesEnd q := by
  obtain ⟨n, -, hfresh⟩ := exists_fresh q hq (l := 8) (by decide) (by decide)
  obtain ⟨b, hb⟩ := h (followed [] n) (firstEnds_followed .stop) true
  obtain ⟨e, i, hwalk⟩ := instancesTo_of_dpIsOneOf hfresh hb
  have hlast : InstancesTo q e i i i := by
    rcases hwalk.last with hi | hlast
    · exact hi ▸ hwalk
    · exact hlast
  have hend := hwalk.endAt
  -- a node of this length behind the nodes of the last instance
  have hcompared : ∀ l, 6 ≤ l → l < 65536 → ∃ one same, (sameNode q e one (e - i)).Returns same ∧ NodeAt one (e - i) l := by
    intro l hl hl'
    obtain ⟨n, hlen, hfresh⟩ := exists_fresh q hq hl hl'
    have hfront := hlast.lastNodes (n := n) hend rfl (Nat.le_refl _)
    rw [Nat.sub_self] at hfront
    have hlength := length_lastNodes (i := i) hend
    obtain ⟨b, hb⟩ := h (followed (lastNodes q e i) n) (firstEnds_followed (hlength ▸ hfront)) true
    obtain ⟨same, hsame⟩ := (sameNode_last hend hfresh hfront hwalk (Nat.le_refl _)).1 0 b hfront (fun h => by omega) hb
    have hnode : Holds (followed (lastNodes q e i) n) (e - i) n.bytes := hlength ▸ followed_node
    exact ⟨_, same, hsame, hlen ▸ hnode.nodeAt⟩
  refine ⟨e, i, hwalk, ?_, fun l hl h8 => ?_⟩
  · obtain ⟨one, same, hsame, -⟩ := hcompared 8 (by decide) (by decide)
    obtain ⟨l, lo, hi, -, hhi, -⟩ := sameNode_hasLength hsame
    exact (List.getElem?_eq_some_iff.mp hhi).1
  · obtain ⟨one, same, hsame, hone⟩ := hcompared l (by omega) hl.lt
    obtain ⟨r, hr⟩ := sameNode_memCmp hsame hone hl
    obtain ⟨t, ht, hnot, -⟩ := hone
    obtain ⟨t', ht', htype, -⟩ := hend
    refine memCmp_differ_le ht ht' ?_ h8 hr
    rintro rfl
    exact hnot htype

end necessary

/-! ## What is protected -/

section protects

variable {m : Buffer} {e e' p : Nat}

theorem ValidNode.not_entire {l : Nat} (h : ValidNode m p l) : ¬ EndAt m p END_ENTIRE_SUBTYPE := by
  obtain ⟨t, ht, -, hsub, -⟩ := h
  rintro ⟨t', ht', hend, hs⟩
  cases ht.symm.trans ht'
  obtain ⟨s, hs', hne⟩ := hsub hend
  exact hne (Option.some.inj (hs'.symm.trans hs))

theorem ValidTo.unique (h : ValidTo m e p) (h' : ValidTo m e' p) : e = e' := by
  induction h with
  | stop hend =>
    cases h' with
    | stop => rfl
    | node hnode => exact absurd hend hnode.not_entire
  | node hnode _ ih =>
    cases h' with
    | stop hend => exact absurd hend hnode.not_entire
    | node hnode' hrest =>
      obtain ⟨-, -, -, -, hlen, -⟩ := hnode
      obtain ⟨-, -, -, -, hlen', -⟩ := hnode'
      cases hlen.unique hlen'
      exact ih hrest

/-- The validator keeps the others from harm exactly if no node without a length is in its way, and the
path that it accepts is whole and ends for those that take an end node for four bytes. -/
theorem isValidDevicePath_protects_iff (m : Buffer) : Protects m ↔ Protected m := by
  rw [Protects, Protected, isValidDevicePath_ends]
  refine and_congr_right fun _ => ⟨fun h e he => ?_, fun h htrue => ?_⟩
  · obtain ⟨e', he', hsafe⟩ := h he.returns
    obtain rfl := he.unique he'
    have hlength : e + headerSize ≤ m.bytes.length := by
      obtain ⟨l, hl⟩ := hsafe.dpCopy
      rw [dpCopy, returns_bind] at hl
      obtain ⟨n, hn, hl⟩ := hl
      cases hn.unique hsafe.dpLength
      have hle := bytes_le hl (by simp [headerSize])
      rw [Buffer.upTo, List.length_take] at hle
      omega
    refine ⟨hlength, instancesEnd_of_dpIsOneOf ?_ hsafe.dpIsOneOf⟩
    have hmax := he.le_maxDpSize (Nat.zero_le _)
    rw [length_upTo hlength]
    simp only [maxDpSize, headerSize] at hmax ⊢
    omega
  · obtain ⟨e, he⟩ := isValidDevicePath_true htrue
    obtain ⟨hlength, hinstances⟩ := h e he
    have hq := length_upTo hlength
    have hdp := lengthLoop_valid he
    obtain ⟨e', i, hwalk, he', -⟩ := id hinstances
    obtain ⟨x, s, hrun, -, hxe, -⟩ := hwalk.end_node (Nat.le_refl _)
    have hend : HasEnd _ := ⟨_, hdp, hq.ge⟩
    have hfirst : FirstEnds _ := ⟨x, hrun, by omega⟩
    refine ⟨e, he, hdp, ?_, fun other hother => ⟨dpCmp_returns hend hother, dpCmp_returns hother hend⟩,
      hwalk.dpGetLastNode none, ⟨x, hrun⟩, fun all hall exactMatch => hall.dpIsOneOf hfirst exactMatch,
      fun one hone exactMatch => hinstances.dpIsOneOf hone exactMatch, hwalk.instances he'⟩
    exact ⟨_, hdp.bind (bytes_of_le (by omega))⟩

/-- A node with a known type and no length: the validator stays at it. -/
theorem not_isValidDevicePath_protects : ¬ ∀ m, Protects m := by
  intro h
  have hno := (isValidDevicePath_ends (m := Buffer.mk 0 [1, 1, 0, 0])).mp (h _).1
  refine hno ⟨0, .start, 1, rfl, by decide, ?_, ⟨0, 0, rfl, rfl, rfl⟩, by decide⟩
  intro hend
  exact absurd hend (by decide)

end protects

end BayTrail.DevicePath
