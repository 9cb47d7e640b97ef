import BayTrail.DevicePath.Path

/-!
# The walkers over well-formed paths

Each walker is a loop whose round looks at one node. On the bytes of a path a round goes from one node to the next
(`lengthRound_node` and its like), and by induction on the nodes the loop comes to the end of the path: what
`DPLength`, `DPGetEndNode` and `DPGetLastNode` answer is what the list of nodes says. `MemCmp` compares by words and
bytes, but by what it has compared so far (`AgreeTo`) it is the equality of the two lists of bytes.
-/

namespace BayTrail.DevicePath

open BayTrail.Lib
open Lib.Run (returns_pure loop_done loop_again)

variable {m : Buffer} {p : Nat}

/-! ## DPLength -/

variable {n : Node} {ns : List Node} {q : Path} {s : UInt8}

theorem lengthRound_node (h : Holds m p n.bytes) (size : Nat) :
    (lengthRound m (p, size)).Returns (.again (p + n.length, size + n.length)) := by
  refine h.isEndEntire_node.bind (h.nodeLength_node.bind (Run.Returns.bind (returns_byte.mpr h.type_node) ?_))
  have hnot : ¬ (n.type = 0 ∨ n.length = 0) := by
    have := n.type_ne_zero
    have := n.length_pos
    grind
  rw [if_neg hnot]
  exact returns_pure.mpr rfl

theorem lengthRound_instance (h : Holds m p (endNode END_INSTANCE_SUBTYPE)) (size : Nat) :
    (lengthRound m (p, size)).Returns (.again (p + headerSize, size + headerSize)) := by
  refine h.isEndEntire_end.bind (h.nodeLength_end.bind (Run.Returns.bind (returns_byte.mpr h.1) ?_))
  exact returns_pure.mpr rfl

theorem lengthRound_entire (h : Holds m p (endNode END_ENTIRE_SUBTYPE)) (size : Nat) :
    (lengthRound m (p, size)).Returns (.done (size + headerSize)) :=
  h.isEndEntire_end.bind (returns_pure.mpr rfl)

theorem lengthLoop_nodes (h : Holds m p (encodeNodes ns)) {size r : Nat}
    (hrest : (Run.loop (lengthRound m) (p + (encodeNodes ns).length, size + (encodeNodes ns).length)).Returns r) :
    (Run.loop (lengthRound m) (p, size)).Returns r := by
  induction ns generalizing p size with
  | nil => exact hrest
  | cons n ns ih =>
    rw [encodeNodes_cons, holds_append] at h
    refine loop_again (lengthRound_node h.1 size) (ih h.2 ?_)
    simpa [Nat.add_assoc] using hrest

theorem lengthLoop_path (h : Holds m p q.encode) (size : Nat) :
    (Run.loop (lengthRound m) (p, size)).Returns (size + q.encode.length) := by
  obtain ⟨is, js⟩ := q
  induction js generalizing is p size with
  | nil =>
    rw [show (Path.mk is []).encode = _ from Path.encode_single is, holds_append] at h
    refine lengthLoop_nodes h.1 (loop_done ?_)
    convert lengthRound_entire h.2 (size + (encodeNodes is).length) using 2
    simp [Path.length_encode, Path.front, encodeFront, Nat.add_assoc]
  | cons j js ih =>
    rw [Path.encode_cons, holds_append, holds_append] at h
    obtain ⟨⟨hnodes, hend⟩, hrest⟩ := h
    refine lengthLoop_nodes hnodes (loop_again (lengthRound_instance hend _) ?_)
    have hrest : Holds m (p + (encodeNodes is).length + headerSize) (Path.mk j js).encode := by
      simpa [endNode, headerSize, Nat.add_assoc] using hrest
    convert ih (size + (encodeNodes is).length + headerSize) j hrest using 1
    rw [Path.encode_cons, List.length_append, List.length_append, endNode]
    simp only [List.length_cons, List.length_nil, headerSize]
    omega

theorem dpLength_path (h : Holds m 0 q.encode) : (dpLength m 0).Returns q.encode.length := by
  simpa [dpLength] using lengthLoop_path h 0

theorem frontLength_path (q : Path) : (frontLength q.encode.length).Returns q.front.length := by
  simp [frontLength, Path.length_encode]

theorem Holds.front (h : Holds m p q.encode) : Holds m p q.front := (holds_append.mp h).1

/-! ## The end of an instance -/

theorem endNodeRound_node (h : Holds m p n.bytes) : (endNodeRound m p).Returns (.again (p + n.length)) :=
  h.isEndNode_node.bind (h.nodeLength_node.bind (returns_pure.mpr rfl))

theorem endNodeRound_end (h : Holds m p (endNode s)) : (endNodeRound m p).Returns (.done p) :=
  h.isEndNode_end.bind (returns_pure.mpr rfl)

theorem dpGetEndNode_nodes (h : Holds m p (encodeNodes ns ++ endNode s)) :
    (dpGetEndNode m p).Returns (p + (encodeNodes ns).length) := by
  rw [dpGetEndNode]
  induction ns generalizing p with
  | nil => exact loop_done (endNodeRound_end h)
  | cons n ns ih =>
    rw [encodeNodes_cons, List.append_assoc, holds_append] at h
    refine loop_again (endNodeRound_node h.1) ?_
    simpa [Nat.add_assoc] using ih h.2

/-! ## The last node -/

theorem lastNodeRound_node (h : Holds m p n.bytes) (last : Option Nat) :
    (lastNodeRound m (p, last)).Returns (.again (p + n.length, some p)) :=
  h.isEndNode_node.bind (h.nodeLength_node.bind (returns_pure.mpr rfl))

theorem lastNodeRound_end (h : Holds m p (endNode s)) (last : Option Nat) :
    (lastNodeRound m (p, last)).Returns (.done last) :=
  h.isEndNode_end.bind (returns_pure.mpr rfl)

/-- The last node of an instance that has one is behind the others. -/
theorem dpGetLastNode_nodes (h : Holds m 0 (encodeNodes (ns ++ [n]) ++ endNode s)) :
    (dpGetLastNode m 0).Returns (some (encodeNodes ns).length) := by
  have hloop : ∀ (ns : List Node) (p : Nat) (last : Option Nat), Holds m p (encodeNodes (ns ++ [n]) ++ endNode s) →
      (Run.loop (lastNodeRound m) (p, last)).Returns (some (p + (encodeNodes ns).length)) := by
    intro ns
    induction ns with
    | nil =>
      intro p last h
      simp only [List.nil_append, encodeNodes_cons, encodeNodes_nil, List.append_nil, holds_append] at h
      exact loop_again (lastNodeRound_node h.1 last) (loop_done (lastNodeRound_end h.2 _))
    | cons k ns ih =>
      intro p last h
      rw [List.cons_append, encodeNodes_cons, List.append_assoc, holds_append] at h
      refine loop_again (lastNodeRound_node h.1 last) ?_
      simpa [Nat.add_assoc] using ih _ (some p) h.2
  simpa [dpGetLastNode] using hloop ns 0 none h

/-! ## MemCmp -/

section memCmp

variable {m1 m2 : Buffer} {p1 p2 : Nat} {l1 l2 : List UInt8}

/-- The bytes in front of this position agree. -/
def AgreeTo (l1 l2 : List UInt8) (i : Nat) : Prop := l1.take i = l2.take i

variable {i n : Nat}

theorem AgreeTo.succ (h : AgreeTo l1 l2 i) {b : UInt8} (h1 : l1[i]? = some b) (h2 : l2[i]? = some b) :
    AgreeTo l1 l2 (i + 1) := by
  rw [AgreeTo, List.take_add_one, List.take_add_one, h, h1, h2]

theorem AgreeTo.add (h : AgreeTo l1 l2 i) (hword : (l1.drop i).take n = (l2.drop i).take n) :
    AgreeTo l1 l2 (i + n) := by
  rw [AgreeTo, List.take_add, List.take_add, h, hword]

theorem memCmpHead_spec (h1 : Holds m1 p1 l1) (h2 : Holds m2 p2 l2) {r : Nat} (hr1 : i + r ≤ l1.length)
    (hr2 : i + r ≤ l2.length) (h : AgreeTo l1 l2 i) :
    ∃ i', (memCmpHead m1 p1 m2 p2 r i).Returns i' ∧ i' ≤ i + r ∧ AgreeTo l1 l2 i' := by
  induction r generalizing i with
  | zero => exact ⟨i, returns_pure.mpr rfl, Nat.le_refl _, h⟩
  | succ r ih =>
    have hd := List.getElem?_eq_getElem (show i < l1.length by omega)
    have hs := List.getElem?_eq_getElem (show i < l2.length by omega)
    by_cases heq : l1[i] = l2[i]
    · obtain ⟨i', hrun, hle, h'⟩ := ih (by omega) (by omega) (h.succ hd (heq ▸ hs))
      refine ⟨i', ?_, by omega, h'⟩
      refine Run.Returns.bind (returns_byte.mpr (h1.get hd)) (Run.Returns.bind (returns_byte.mpr (h2.get hs)) ?_)
      rwa [if_pos heq]
    · refine ⟨i, ?_, by omega, h⟩
      refine Run.Returns.bind (returns_byte.mpr (h1.get hd)) (Run.Returns.bind (returns_byte.mpr (h2.get hs)) ?_)
      rw [if_neg heq]
      exact returns_pure.mpr rfl

theorem Holds.word {m : Buffer} {p : Nat} {l : List UInt8} (h : Holds m p l) (hle : i + n ≤ l.length) :
    (bytes m (p + i) n).Returns ((l.drop i).take n) := by
  have hsplit : l = l.take i ++ ((l.drop i).take n ++ (l.drop i).drop n) := by simp
  rw [hsplit, holds_append, holds_append, List.length_take, Nat.min_eq_left (by omega)] at h
  exact h.2.1.returns_bytes (by simp; omega)

theorem memCmpWords_spec (h1 : Holds m1 p1 l1) (h2 : Holds m2 p2 l2) (hn1 : i + 8 * n ≤ l1.length)
    (hn2 : i + 8 * n ≤ l2.length) (h : AgreeTo l1 l2 i) :
    ∃ i', (memCmpWords m1 p1 m2 p2 n i).Returns i' ∧ i' ≤ i + 8 * n ∧ AgreeTo l1 l2 i' := by
  induction n generalizing i with
  | zero => exact ⟨i, returns_pure.mpr rfl, Nat.le_refl _, h⟩
  | succ n ih =>
    have hd := h1.word (i := i) (n := 8) (by omega)
    have hs := h2.word (i := i) (n := 8) (by omega)
    by_cases heq : (l1.drop i).take 8 = (l2.drop i).take 8
    · obtain ⟨i', hrun, hle, h'⟩ := ih (by omega) (by omega) (h.add heq)
      refine ⟨i', hd.bind (hs.bind ?_), by omega, h'⟩
      rwa [if_pos heq]
    · refine ⟨i, hd.bind (hs.bind ?_), by omega, h⟩
      rw [if_neg heq]
      exact returns_pure.mpr rfl

theorem toInt8_sub_eq_zero {d s : UInt8} : d.toInt8.toInt - s.toInt8.toInt = 0 ↔ d = s := by
  rw [Int.sub_eq_zero, Int8.toInt_inj]
  exact ⟨fun h => by simpa using congrArg Int8.toUInt8 h, congrArg UInt8.toInt8⟩

theorem memCmpTail_spec (h1 : Holds m1 p1 l1) (h2 : Holds m2 p2 l2) (hn1 : i + n = l1.length)
    (hn2 : i + n = l2.length) (h : AgreeTo l1 l2 i) :
    ∃ r, (memCmpTail m1 p1 m2 p2 n i).Returns r ∧ (r = 0 ↔ l1 = l2) := by
  induction n generalizing i with
  | zero =>
    refine ⟨0, returns_pure.mpr rfl, iff_of_true rfl ?_⟩
    rwa [AgreeTo, List.take_of_length_le (by omega), List.take_of_length_le (by omega)] at h
  | succ n ih =>
    have hd := List.getElem?_eq_getElem (show i < l1.length by omega)
    have hs := List.getElem?_eq_getElem (show i < l2.length by omega)
    by_cases heq : l1[i] = l2[i]
    · obtain ⟨r, hrun, hr⟩ := ih (by omega) (by omega) (h.succ hd (heq ▸ hs))
      refine ⟨r, ?_, hr⟩
      refine Run.Returns.bind (returns_byte.mpr (h1.get hd)) (Run.Returns.bind (returns_byte.mpr (h2.get hs)) ?_)
      rwa [if_pos heq]
    · refine ⟨_, Run.Returns.bind (returns_byte.mpr (h1.get hd)) (Run.Returns.bind (returns_byte.mpr (h2.get hs)) ?_),
        (toInt8_sub_eq_zero (d := l1[i]) (s := l2[i])).trans ⟨fun h => absurd h heq, ?_⟩⟩
      · rw [if_neg heq]
        exact returns_pure.mpr rfl
      · rintro rfl
        rfl

theorem memCmpWhole_spec (h1 : Holds m1 p1 l1) (h2 : Holds m2 p2 l2) {count : Nat} (hcount : 8 ≤ count)
    (hc1 : l1.length = count) (hc2 : l2.length = count) :
    ∃ i, (memCmpWhole m1 p1 m2 p2 count).Returns i ∧ i ≤ count ∧ AgreeTo l1 l2 i := by
  have hstart : AgreeTo l1 l2 0 := rfl
  rw [memCmpWhole]
  -- how far the head goes does not matter
  by_cases halign : (m1.addr + p1) % 8 ≠ 0 ∧ (m1.addr + p1) % 8 = (m2.addr + p2) % 8
  · obtain ⟨i, hhead, hi, hagree⟩ :=
      memCmpHead_spec h1 h2 (r := 8 - (m1.addr + p1) % 8) (i := 0) (by omega) (by omega) hstart
    obtain ⟨i', hwords, hi', hagree'⟩ := memCmpWords_spec h1 h2 (n := (count - i) / 8) (i := i) (by omega) (by omega) hagree
    rw [if_pos halign]
    exact ⟨i', hhead.bind hwords, by omega, hagree'⟩
  · obtain ⟨i, hwords, hi, hagree⟩ := memCmpWords_spec h1 h2 (n := (count - 0) / 8) (i := 0) (by omega) (by omega) hstart
    rw [if_neg halign]
    exact ⟨i, Run.Returns.bind (returns_pure.mpr rfl) hwords, by omega, hagree⟩

/-- Of bytes that can be read it tells whether they are the same. -/
theorem memCmp_spec (h1 : Holds m1 p1 l1) (h2 : Holds m2 p2 l2) (count : Nat) (hc1 : l1.length = count)
    (hc2 : l2.length = count) : ∃ r, (memCmp m1 p1 m2 p2 count).Returns r ∧ (r = 0 ↔ l1 = l2) := by
  have hstart : AgreeTo l1 l2 0 := rfl
  by_cases hcount : 8 ≤ count
  · obtain ⟨i, hwhole, hi, hagree⟩ := memCmpWhole_spec h1 h2 hcount hc1 hc2
    obtain ⟨r, htail, hr⟩ := memCmpTail_spec h1 h2 (n := count - i) (i := i) (by omega) (by omega) hagree
    rw [memCmp, if_pos hcount]
    exact ⟨r, hwhole.bind htail, hr⟩
  · obtain ⟨r, htail, hr⟩ := memCmpTail_spec h1 h2 (n := count) (i := 0) (by omega) (by omega) hstart
    rw [memCmp, if_neg hcount]
    exact ⟨r, Run.Returns.bind (returns_pure.mpr rfl) htail, hr⟩

end memCmp

end BayTrail.DevicePath
