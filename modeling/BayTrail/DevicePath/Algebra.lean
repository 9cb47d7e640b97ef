import BayTrail.DevicePath.Walk

/-!
# The algebra of device paths

What the functions that build paths make of well-formed ones, and what the comparing ones tell: one lemma
for each function, about any buffer that starts with the encoding of its operands. The laws follow, as an
encoding determines its path.
-/

namespace BayTrail.DevicePath

open BayTrail.Lib
open Lib.Run (returns_pure loop_done loop_again)

/-- Memory for a new path. -/
def Buffer.new (bytes : List UInt8) : Buffer := ⟨0, bytes⟩

theorem holds_new (l : List UInt8) : Holds (Buffer.new l) 0 l := holds_self 0 l

variable {m m1 m2 m3 : Buffer} {p q r : Path} {n : Node}

/-! ## Adding -/

theorem dpCopy_path (h : Holds m 0 p.encode) : (dpCopy m).Returns p.encode :=
  (dpLength_path h).bind (h.returns_bytes rfl)

theorem dpAdd_path (h1 : Holds m1 0 p.encode) (h2 : Holds m2 0 q.encode) :
    (dpAdd (some m1) (some m2)).Returns (p.append q).encode := by
  refine (dpLength_path h1).bind ((frontLength_path p).bind ((dpLength_path h2).bind ?_))
  refine (h1.front.returns_bytes rfl).bind ((h2.returns_bytes rfl).bind ?_)
  rw [returns_pure, Path.encode_append]

theorem Path.append_empty (p : Path) : p.append empty = p := by
  refine encode_inj ?_
  rw [encode_append]
  rfl

theorem Path.append_assoc (p q r : Path) : (p.append q).append r = p.append (q.append r) := by
  refine encode_inj ?_
  simp only [encode_append, front_append, List.append_assoc]

theorem dpAddNode_path (h1 : Holds m1 0 p.encode) (h2 : Holds m2 0 n.bytes) :
    (dpAddNode (some m1) (some m2)).Returns (p.append (Path.single [n])).encode := by
  refine (dpLength_path h1).bind ((frontLength_path p).bind (h2.nodeLength_node.bind ?_))
  refine (h1.front.returns_bytes rfl).bind ((h2.returns_bytes rfl).bind ?_)
  rw [returns_pure, Path.encode_append, Path.encode_single, encodeNodes_cons, encodeNodes_nil, List.append_nil,
    List.append_assoc]
  rfl

/-! ## Cutting -/

/-- The last node goes if there is one in front of it. -/
theorem dpCut_path {ns : List Node} (hns : ns ≠ []) (h : Holds m 0 (Path.single (ns ++ [n])).encode) :
    (dpCut m).Returns (some (Path.single ns).encode) := by
  have hlast := dpGetLastNode_nodes h
  have hlen : (encodeNodes ns).length ≠ 0 := by
    cases ns with
    | nil => contradiction
    | cons k ns => simp [Node.length, headerSize]
  refine hlast.bind (Run.Returns.bind (Run.returns_ofOption.mpr rfl) ?_)
  rw [if_neg hlen]
  rw [Path.encode_single, encodeNodes_append, List.append_assoc, holds_append] at h
  exact (h.1.returns_bytes rfl).bind (returns_pure.mpr rfl)

/-! ## Instances -/

namespace Path

/-- The second path's instances follow those of the first. -/
def addInstance (p q : Path) : Path := ⟨p.first, p.others ++ q.instances⟩

theorem encode_addInstance (p q : Path) :
    (p.addInstance q).encode = p.front ++ endNode END_INSTANCE_SUBTYPE ++ q.encode := by
  obtain ⟨is, js⟩ := p
  induction js generalizing is with
  | nil => exact encode_cons is q.first q.others
  | cons j js ih =>
    calc ((mk is (j :: js)).addInstance q).encode
        = encodeNodes is ++ endNode END_INSTANCE_SUBTYPE ++ ((mk j js).addInstance q).encode :=
          encode_cons is j (js ++ q.instances)
      _ = (mk is (j :: js)).front ++ endNode END_INSTANCE_SUBTYPE ++ q.encode := by
          rw [ih]
          simp [front, encodeFront]

end Path

theorem dpAddInstance_path (h1 : Holds m1 0 p.encode) (h2 : Holds m2 0 q.encode) :
    (dpAddInstance (some m1) m2).Returns (p.addInstance q).encode := by
  refine (dpLength_path h1).bind ((dpLength_path h2).bind ((h1.returns_bytes rfl).bind ?_))
  refine (frontLength_path p).bind ((h2.returns_bytes rfl).bind (returns_pure.mpr ?_))
  rw [Path.encode_addInstance]
  congr 1
  simp [Path.encode, endNode]

/-- Where the next instance of a path at this position begins. -/
def Path.next (p : Path) (pos : Nat) : Option Nat :=
  if p.others = [] then none else some (pos + (encodeNodes p.first).length + headerSize)

variable {pos : Nat} {is os : List Node}

theorem dpNextInstance_path (h : Holds m pos p.encode) :
    (dpNextInstance m pos).Returns ((Path.single p.first).encode, p.next pos) := by
  -- the end node of the first instance
  obtain ⟨s, rest, hencode, hs⟩ : ∃ s rest, p.encode = encodeNodes p.first ++ endNode s ++ rest
      ∧ (s = END_ENTIRE_SUBTYPE ↔ p.others = []) := by
    obtain ⟨is, js⟩ := p
    cases js with
    | nil => exact ⟨END_ENTIRE_SUBTYPE, [], by rw [List.append_nil]; rfl, iff_of_true rfl rfl⟩
    | cons j js => exact ⟨END_INSTANCE_SUBTYPE, _, Path.encode_cons is j js, iff_of_false (by decide) nofun⟩
  rw [hencode, holds_append] at h
  have hsize : pos + (encodeNodes p.first).length + headerSize - pos = (encodeNodes p.first ++ endNode s).length := by
    rw [List.length_append, endNode]
    simp only [List.length_cons, List.length_nil, headerSize]
    omega
  refine (dpGetEndNode_nodes h.1).bind ((h.1.returns_bytes hsize).bind ?_)
  refine Run.Returns.bind (returns_byte.mpr (holds_append.mp h.1).2.subType_end) (returns_pure.mpr ?_)
  refine Prod.ext ?_ ?_
  · rw [hsize]
    simp [Path.encode_single, endNode, headerSize]
  · simp [Path.next, hs]

/-- `DPNextInstance` to the end of the path, and `DPAddInstance` of all that it returns. -/
def splitRound (m : Buffer) (s : Nat × Option (List UInt8)) : Run (Next (Nat × Option (List UInt8)) (List UInt8)) := do
  let piece ← dpNextInstance m s.1
  let joined ← dpAddInstance (s.2.map Buffer.new) (Buffer.new piece.1)
  match piece.2 with
  | none => return .done joined
  | some next => return .again (next, some joined)

def splitAndJoin (m : Buffer) : Run (List UInt8) := Run.loop (splitRound m) (0, none)

/-- A piece more, and the rest of the path is the instances behind it. -/
theorem splitLoop_path {js : List (List Node)} {acc : Option (List UInt8)}
    (h : Holds m pos (Path.mk is js).encode)
    (hacc : (dpAddInstance (acc.map Buffer.new) (Buffer.new (Path.single is).encode)).Returns p.encode) :
    (Run.loop (splitRound m) (pos, acc)).Returns (Path.mk p.first (p.others ++ js)).encode := by
  induction js generalizing pos is acc p with
  | nil =>
    rw [List.append_nil]
    exact loop_done ((dpNextInstance_path h).bind (hacc.bind (returns_pure.mpr rfl)))
  | cons j js ih =>
    refine loop_again ((dpNextInstance_path h).bind (hacc.bind (returns_pure.mpr rfl))) ?_
    rw [Path.encode_cons, holds_append, List.length_append, ← Nat.add_assoc] at h
    have hjoin := dpAddInstance_path (holds_new p.encode) (holds_new (Path.single j).encode)
    have hjoined := ih h.2 (show (dpAddInstance ((some p.encode).map Buffer.new) _).Returns _ from hjoin)
    rwa [Path.addInstance, List.append_assoc] at hjoined

/-! ## Comparing -/

theorem dpCmp_path (h1 : Holds m1 0 p.encode) (h2 : Holds m2 0 q.encode) :
    ∃ c, (dpCmp (some m1) (some m2)).Returns c ∧ (c = 0 ↔ p = q) := by
  by_cases hlen : q.encode.length = p.encode.length
  · obtain ⟨c, hrun, hc⟩ := memCmp_spec h1 h2 _ rfl hlen
    refine ⟨c, (dpLength_path h1).bind ((dpLength_path h2).bind ?_), hc.trans ⟨Path.encode_inj, congrArg _⟩⟩
    rwa [if_neg (not_not.mpr hlen)]
  · refine ⟨-1, (dpLength_path h1).bind ((dpLength_path h2).bind ?_), iff_of_false (by decide) ?_⟩
    · rw [if_pos hlen]
      exact returns_pure.mpr rfl
    · rintro rfl
      exact hlen rfl

/-- The instance is the other, or only a beginning of it. -/
def Matches (exactMatch : Bool) (is os : List Node) : Prop := if exactMatch then is = os else is <+: os

theorem matches_nil {exactMatch : Bool} : Matches exactMatch [] os ↔ (exactMatch = true → os = []) := by
  cases exactMatch <;> simp [Matches, eq_comm]

theorem not_matches_cons_nil {exactMatch : Bool} {k : Node} : ¬ Matches exactMatch (k :: is) [] := by
  cases exactMatch <;> simp [Matches]

theorem matches_cons {exactMatch : Bool} {k o : Node} :
    Matches exactMatch (k :: is) (o :: os) ↔ k = o ∧ Matches exactMatch is os := by
  cases exactMatch <;> simp [Matches, List.cons_prefix_cons]

section isOneOf

variable {all one : Buffer} {exactMatch : Bool} {pPath pAll : Nat} {k o : Node} {s s' : UInt8}

theorem sameNode_end (hall : Holds all pAll (endNode s)) (hone : Holds one pPath (endNode s')) :
    (sameNode all pAll one pPath).Returns false := by
  refine hone.nodeLength_end.bind (hall.nodeLength_end.bind ?_)
  rw [if_pos rfl]
  exact hone.isEndNode_end.bind (returns_pure.mpr rfl)

theorem sameNode_node_end (hall : Holds all pAll k.bytes) (hone : Holds one pPath (endNode s')) :
    (sameNode all pAll one pPath).Returns false := by
  refine hone.nodeLength_end.bind (hall.nodeLength_node.bind ?_)
  split
  · exact hone.isEndNode_end.bind (returns_pure.mpr rfl)
  · exact returns_pure.mpr rfl

/-- A node is no end node, whatever their lengths. -/
theorem sameNode_end_node (hall : Holds all pAll (endNode s)) (hone : Holds one pPath o.bytes) :
    (sameNode all pAll one pPath).Returns false := by
  refine hone.nodeLength_node.bind (hall.nodeLength_end.bind ?_)
  by_cases hlen : o.length = headerSize
  · obtain ⟨c, hrun, hc⟩ := memCmp_spec hone hall headerSize hlen rfl
    have hne : c ≠ 0 := by
      intro h
      have htype : o.type = END_DEVICE_PATH := (List.cons.inj (hc.mp h)).1
      exact o.type_ne_end (Or.inl htype)
    rw [if_pos hlen]
    exact hone.isEndNode_node.bind (hrun.bind (returns_pure.mpr (decide_eq_false hne)))
  · rw [if_neg hlen]
    exact returns_pure.mpr rfl

theorem sameNode_node (hall : Holds all pAll k.bytes) (hone : Holds one pPath o.bytes) :
    (sameNode all pAll one pPath).Returns (k = o : Bool) := by
  refine hone.nodeLength_node.bind (hall.nodeLength_node.bind ?_)
  by_cases hlen : o.length = k.length
  · obtain ⟨c, hrun, hc⟩ := memCmp_spec hone hall k.length hlen rfl
    have hc : c = 0 ↔ k = o := hc.trans ⟨fun h => (Node.bytes_inj h).symm, fun h => h ▸ rfl⟩
    rw [if_pos hlen]
    exact hone.isEndNode_node.bind (hrun.bind (returns_pure.mpr (decide_eq_decide.mpr hc)))
  · rw [if_neg hlen]
    refine returns_pure.mpr (decide_eq_false ?_).symm
    rintro rfl
    exact hlen rfl

variable {b : Bool}

/-- The nodes left of this instance are skipped, and the next instance is compared from the start. -/
theorem skipLoop_nodes (is : List Node) (hall : Holds all pAll (encodeNodes is))
    (hrest : (Run.loop (isOneOfRound all one exactMatch) (.skip (pAll + (encodeNodes is).length))).Returns b) :
    (Run.loop (isOneOfRound all one exactMatch) (.skip pAll)).Returns b := by
  induction is generalizing pAll with
  | nil => exact hrest
  | cons k is ih =>
    rw [encodeNodes_cons, holds_append] at hall
    refine loop_again (hall.1.isEndNode_node.bind (hall.1.nodeLength_node.bind (returns_pure.mpr rfl))) ?_
    refine ih hall.2 ?_
    simpa [Nat.add_assoc] using hrest

/-- One instance: it matches, or all of it is skipped. -/
theorem compareLoop_nodes {is os : List Node} (hall : Holds all pAll (encodeNodes is ++ endNode s))
    (hone : Holds one pPath (encodeNodes os ++ endNode s')) (hmatch : Matches exactMatch is os → b = true)
    (hskip : ¬ Matches exactMatch is os →
      (Run.loop (isOneOfRound all one exactMatch) (.skip (pAll + (encodeNodes is).length))).Returns b) :
    (Run.loop (isOneOfRound all one exactMatch) (.compare pPath pAll)).Returns b := by
  induction is generalizing os pPath pAll with
  | nil =>
    have hsame : (sameNode all pAll one pPath).Returns false := by
      cases os with
      | nil => exact sameNode_end hall hone
      | cons o os => exact sameNode_end_node hall (holds_append.mp (holds_append.mp hone).1).1
    have hend : (isEndNode one pPath).Returns (os = [] : Bool) := by
      cases os with
      | nil => exact hone.isEndNode_end
      | cons o os => exact (holds_append.mp (holds_append.mp hone).1).1.isEndNode_node
    by_cases hm : Matches exactMatch [] os
    · obtain rfl := hmatch hm
      refine loop_done (hsame.bind (Holds.isEndNode_end hall |>.bind ?_))
      cases exactMatch with
      | false => exact returns_pure.mpr rfl
      | true =>
        obtain rfl := matches_nil.mp hm rfl
        exact hend.bind (returns_pure.mpr rfl)
    · refine loop_again (hsame.bind (Holds.isEndNode_end hall |>.bind ?_)) (hskip hm)
      rw [matches_nil, Classical.not_imp] at hm
      obtain ⟨rfl, hos⟩ := hm
      rw [decide_eq_false hos] at hend
      exact hend.bind (returns_pure.mpr rfl)
  | cons k is ih =>
    rw [encodeNodes_cons, List.append_assoc, holds_append] at hall
    obtain ⟨hk, hall⟩ := hall
    -- from a node that differs on, the instance is skipped
    have hdiffer (hsame : (sameNode all pAll one pPath).Returns false) (hm : ¬ Matches exactMatch (k :: is) os) :
        (Run.loop (isOneOfRound all one exactMatch) (.compare pPath pAll)).Returns b := by
      refine loop_again (hsame.bind (hk.isEndNode_node.bind (returns_pure.mpr rfl))) ?_
      refine skipLoop_nodes (k :: is) ?_ (hskip hm)
      rw [encodeNodes_cons, holds_append]
      exact ⟨hk, (holds_append.mp hall).1⟩
    cases os with
    | nil => exact hdiffer (sameNode_node_end hk hone) not_matches_cons_nil
    | cons o os =>
      rw [encodeNodes_cons, List.append_assoc, holds_append] at hone
      obtain ⟨ho, hone⟩ := hone
      have hsame := sameNode_node hk ho
      by_cases hko : k = o
      · subst hko
        rw [decide_eq_true rfl] at hsame
        refine loop_again (hsame.bind (ho.nodeLength_node.bind (hk.nodeLength_node.bind (returns_pure.mpr rfl)))) ?_
        refine ih hall hone (fun hm => hmatch (matches_cons.mpr ⟨rfl, hm⟩)) fun hm => ?_
        simpa [Nat.add_assoc] using hskip (fun h => hm (matches_cons.mp h).2)
      · rw [decide_eq_false hko] at hsame
        exact hdiffer hsame fun h => hko (matches_cons.mp h).1

theorem dpIsOneOf_path (hall : Holds all 0 p.encode) (hone : Holds one 0 q.encode)
    (hb : b = true ↔ ∃ i ∈ p.instances, Matches exactMatch i q.first) : (dpIsOneOf all one exactMatch).Returns b := by
  -- the first instance of the one, and its end
  obtain ⟨s, hone⟩ : ∃ s, Holds one 0 (encodeNodes q.first ++ endNode s) := by
    obtain ⟨os, ls⟩ := q
    cases ls with
    | nil => exact ⟨_, hone⟩
    | cons l ls =>
      rw [Path.encode_cons, holds_append] at hone
      exact ⟨_, hone.1⟩
  have hloop : ∀ (js : List (List Node)) (is : List Node) (pAll : Nat), Holds all pAll (Path.mk is js).encode →
      (b = true ↔ ∃ i ∈ is :: js, Matches exactMatch i q.first) →
      (Run.loop (isOneOfRound all one exactMatch) (.compare 0 pAll)).Returns b := by
    intro js
    induction js with
    | nil =>
      intro is pAll hall hb
      have hall : Holds all pAll (encodeNodes is ++ endNode END_ENTIRE_SUBTYPE) := hall
      have hend := (holds_append.mp hall).2
      refine compareLoop_nodes hall hone (fun hm => hb.mpr ⟨is, List.mem_singleton.mpr rfl, hm⟩) fun hm => ?_
      have hfalse : b = false := by simpa [hm] using hb
      rw [hfalse]
      refine loop_done (hend.isEndNode_end.bind (Run.Returns.bind (returns_byte.mpr hend.subType_end) ?_))
      exact returns_pure.mpr rfl
    | cons j js ih =>
      intro is pAll hall hb
      rw [Path.encode_cons, holds_append, List.length_append, ← Nat.add_assoc] at hall
      obtain ⟨hall, hrest⟩ := hall
      have hend := (holds_append.mp hall).2
      refine compareLoop_nodes hall hone (fun hm => hb.mpr ⟨is, List.mem_cons_self, hm⟩) fun hm => ?_
      refine loop_again (hend.isEndNode_end.bind (Run.Returns.bind (returns_byte.mpr hend.subType_end) ?_))
        (ih j _ hrest (by simpa [hm] using hb))
      exact returns_pure.mpr rfl
  exact hloop p.others p.first 0 hall hb

end isOneOf

/-! ## The laws -/

/-- Of well-formed paths, of any number of instances and nodes: `DPNextInstance` takes the first instance off,
and what it splits `DPAddInstance` joins again; `DPAddNode` and `DPAdd` put a node and a path behind the last
instance, `DPCut` takes off what `DPAddNode` added, `DPAdd` is associative with the empty path as its unit,
`DPCmp` tells the equal ones, and `DPIsOneOf` whether an instance is the first one of the other path, or a
beginning of it. -/
theorem devicePath_algebra (h1 : Holds m1 0 p.encode) (h2 : Holds m2 0 q.encode) (h3 : Holds m3 0 r.encode)
    (hn : Holds m 0 n.bytes) :
    (dpNextInstance m1 0).Returns ((Path.single p.first).encode, p.next 0)
    ∧ (splitAndJoin m1).Returns p.encode
    ∧ (dpAddNode (some m1) (some m)).Returns (p.append (Path.single [n])).encode
    ∧ (p.first ≠ [] → p.others = [] →
        (dpAddNode (some m1) (some m) >>= fun added => dpCut (Buffer.new added)).Returns (some p.encode))
    ∧ (dpAdd (some m1) (some m2)).Returns (p.append q).encode
    ∧ (∃ sum, (dpAdd (some m1) (some m2) >>= fun front => dpAdd (some (Buffer.new front)) (some m3)).Returns sum
        ∧ (dpAdd (some m2) (some m3) >>= fun back => dpAdd (some m1) (some (Buffer.new back))).Returns sum)
    ∧ (p = Path.empty → (dpAdd (some m1) (some m2)).Returns q.encode)
    ∧ (q = Path.empty → (dpAdd (some m1) (some m2)).Returns p.encode)
    ∧ (∃ c, (dpCmp (some m1) (some m2)).Returns c ∧ (c = 0 ↔ p = q))
    ∧ ∀ exactMatch, ∃ b, (dpIsOneOf m1 m2 exactMatch).Returns b
        ∧ (b = true ↔ ∃ i ∈ p.instances, if exactMatch then i = q.first else i <+: q.first) := by
  refine ⟨dpNextInstance_path h1, ?_, dpAddNode_path h1 hn, fun hfirst hothers => ?_, dpAdd_path h1 h2, ?_, ?_, ?_,
    dpCmp_path h1 h2, fun exactMatch => ?_⟩
  · exact splitLoop_path (p := Path.single p.first) h1 (dpCopy_path (holds_new _))
  · obtain ⟨is, js⟩ := p
    obtain rfl : js = [] := hothers
    exact (dpAddNode_path h1 hn).bind (dpCut_path (n := n) hfirst (holds_new _))
  · refine ⟨(p.append (q.append r)).encode, ?_, (dpAdd_path h2 h3).bind (dpAdd_path h1 (holds_new _))⟩
    rw [← Path.append_assoc]
    exact (dpAdd_path h1 h2).bind (dpAdd_path (holds_new _) h3)
  · rintro rfl
    exact dpAdd_path h1 h2
  · rintro rfl
    rw [← Path.append_empty p]
    exact dpAdd_path h1 h2
  · classical
    refine ⟨decide (∃ i ∈ p.instances, Matches exactMatch i q.first), dpIsOneOf_path h1 h2 decide_eq_true_iff, ?_⟩
    exact decide_eq_true_iff

def pciNode (device : UInt8) : Node := ⟨1, 1, [0, device], by decide, by decide, by simp [headerSize]⟩

/-- A device below a PCI bridge, and the same device below another one. -/
def twoBridges : Path := ⟨[pciNode 28, pciNode 0], [[pciNode 29, pciNode 0]]⟩

theorem devicePath_algebra_twoBridges :
    let bridges := Buffer.new twoBridges.encode
    let device := Buffer.new (Path.single [pciNode 2]).encode
    let port := Buffer.new (Path.single [pciNode 3, pciNode 4]).encode
    (splitAndJoin bridges).Returns twoBridges.encode
    ∧ (dpAdd (some bridges) (some device)).Returns (twoBridges.append (Path.single [pciNode 2])).encode
    ∧ ∃ sum, (dpAdd (some bridges) (some device) >>= fun front => dpAdd (some (Buffer.new front)) (some port)).Returns sum
        ∧ (dpAdd (some device) (some port) >>= fun back => dpAdd (some bridges) (some (Buffer.new back))).Returns sum :=
  have laws := devicePath_algebra (holds_new twoBridges.encode) (holds_new (Path.single [pciNode 2]).encode)
    (holds_new (Path.single [pciNode 3, pciNode 4]).encode) (holds_new (pciNode 1).bytes)
  ⟨laws.2.1, laws.2.2.2.2.1, laws.2.2.2.2.2.1⟩

/-! ## End nodes of the other type -/

/-- The bytes of a path whose end nodes are of the types that `isEndNode` takes, in any mixture. -/
inductive Encodes : List UInt8 → Path → Prop
  | single {t : UInt8} (ht : t = END_DEVICE_PATH ∨ t = END_DEVICE_PATH1) (ns : List Node) :
      Encodes (encodeNodes ns ++ [t, END_ENTIRE_SUBTYPE, 4, 0]) (Path.single ns)
  | cons {t : UInt8} (ht : t = END_DEVICE_PATH ∨ t = END_DEVICE_PATH1) (ns : List Node) {bs : List UInt8} {p : Path}
      (h : Encodes bs p) : Encodes (encodeNodes ns ++ [t, END_INSTANCE_SUBTYPE, 4, 0] ++ bs) ⟨ns, p.first :: p.others⟩

def otherEnd : List UInt8 := (pciNode 0).bytes ++ [END_DEVICE_PATH1, END_ENTIRE_SUBTYPE, 4, 0]

/-- `DPAdd` takes the end node of its second operand, and `DPCut` writes one of its own. -/
theorem otherEnd_facts :
    (dpAdd (some (Buffer.new otherEnd)) (some (Buffer.new Path.empty.encode))).Returns (Path.single [pciNode 0]).encode
    ∧ (dpAddNode (some (Buffer.new otherEnd)) (some (Buffer.new (pciNode 1).bytes))
        >>= fun added => dpCut (Buffer.new added)).Returns (some (Path.single [pciNode 0]).encode) :=
  ⟨⟨10, by decide +kernel⟩, ⟨10, by decide +kernel⟩⟩

/-- A path with an end node of type `END_DEVICE_PATH1` does not come back as it was. -/
theorem not_devicePath_algebra : ¬ ∀ (m m' : Buffer) (p : Path) (bs : List UInt8) (n : Node), Encodes bs p →
    Holds m 0 bs → Holds m' 0 n.bytes →
    (dpAdd (some m) (some (Buffer.new Path.empty.encode))).Returns bs
    ∧ (p.first ≠ [] → p.others = [] →
        (dpAddNode (some m) (some m') >>= fun added => dpCut (Buffer.new added)).Returns (some bs)) := by
  intro h
  have hencodes : Encodes otherEnd (Path.single [pciNode 0]) := Encodes.single (Or.inr rfl) [pciNode 0]
  have hadd := (h _ _ _ _ (pciNode 1) hencodes (holds_new otherEnd) (holds_new _)).1
  have heq : otherEnd = (Path.single [pciNode 0]).encode := Option.some.inj (hadd.unique otherEnd_facts.1)
  exact absurd heq (by decide)

end BayTrail.DevicePath
