import BayTrail.DevicePath.Validate
import BayTrail.DevicePath.Walk

/-!
# What the validator protects

A path that it has accepted is cut off behind its end node, and given to the functions that walk over
it. They must not read more.
-/

namespace BayTrail.DevicePath

open BayTrail.Lib
open Lib.Run (returns_pure loop_done loop_again)

/-! ## The property -/

/-- The first bytes of a buffer. -/
def Buffer.upTo (m : Buffer) (n : Nat) : Buffer := ⟨m.addr, m.bytes.take n⟩

/-- `DPNextInstance` until it returns no pointer any more. -/
def instancesRound (m : Buffer) (p : Nat) : Run (Next Nat Unit) := do
  let piece ← dpNextInstance m p
  match piece.2 with
  | none => return .done ()
  | some next => return .again next

/-- The other path of a comparison: its first instance has an end. -/
def FirstEnds (one : Buffer) : Prop := ∃ x, (dpGetEndNode one 0).Returns x ∧ x + headerSize ≤ one.bytes.length

/-- The other path of a comparison: it can be read as far as it is long. -/
def HasEnd (other : Buffer) : Prop := ∃ l, (dpLength other 0).Returns l ∧ l ≤ other.bytes.length

/-- From here, in the instance that starts at `start`, the walk over the nodes of all instances comes to
this end of the path. The last instance starts at `i`. An end node of an instance is four bytes, whatever
length it says. -/
inductive InstancesTo (m : Buffer) (e i : Nat) : Nat → Nat → Prop
  | stop : EndAt m e END_ENTIRE_SUBTYPE → InstancesTo m e i i e
  | node {start p l : Nat} : NodeAt m p l → InstancesTo m e i start (p + l) → InstancesTo m e i start p
  | next {start p : Nat} {s : UInt8} : EndAt m p s → s ≠ END_ENTIRE_SUBTYPE →
      InstancesTo m e i (p + headerSize) (p + headerSize) → InstancesTo m e i start p

/-- The walk over the instances comes to an end, the whole end node is there, and if it says that it is
eight bytes or longer then so are the eight that `MemCmp` reads at once. -/
def InstancesEnd (m : Buffer) : Prop :=
  ∃ e i, InstancesTo m e i 0 0 ∧ e + headerSize ≤ m.bytes.length
    ∧ ∀ l, HasLength m e l → 8 ≤ l → e + 8 ≤ m.bytes.length

/-- All that the functions do within these bytes. -/
structure Safe (m : Buffer) (length : Nat) : Prop where
  dpLength : (dpLength m 0).Returns length
  dpCopy : ∃ l, (dpCopy m).Returns l
  dpCmp : ∀ other, HasEnd other → (∃ c, (dpCmp (some m) (some other)).Returns c) ∧ ∃ c, (dpCmp (some other) (some m)).Returns c
  dpGetLastNode : ∃ last, (dpGetLastNode m 0).Returns last
  dpGetEndNode : ∃ x, (dpGetEndNode m 0).Returns x
  dpIsOneOf_one : ∀ all, InstancesEnd all → ∀ exactMatch, ∃ b, (dpIsOneOf all m exactMatch).Returns b
  dpIsOneOf : ∀ one, FirstEnds one → ∀ exactMatch, ∃ b, (dpIsOneOf m one exactMatch).Returns b
  dpNextInstance : (Run.loop (instancesRound m) 0).Returns ()

/-- The validator comes to an end, and a path that it accepts is safe within its bytes. -/
def Protects (m : Buffer) : Prop :=
  (isValidDevicePath m 0).Ends ∧
    ((isValidDevicePath m 0).Returns true → ∃ e, ValidTo m e 0 ∧ Safe (m.upTo (e + headerSize)) (e + headerSize))

/-! ## What it depends on -/

/-- No node without a length is in the validator's way, and where it finds the end the buffer holds the
whole end node, and the walk over the instances ends as well. -/
def Protected (m : Buffer) : Prop :=
  (¬ ∃ p, Visited m p ∧ ValidNode m p 0)
    ∧ ∀ e, ValidTo m e 0 → e + headerSize ≤ m.bytes.length ∧ InstancesEnd (m.upTo (e + headerSize))

/-! ## Reading within the bytes -/

section reading

variable {m : Buffer} {p n l : Nat} {s : UInt8}

theorem bytes_upTo {i : Nat} (h : i < n) : (m.upTo n).bytes[i]? = m.bytes[i]? := List.getElem?_take_of_lt h

theorem length_upTo (h : n ≤ m.bytes.length) : (m.upTo n).bytes.length = n := by
  rw [Buffer.upTo, List.length_take, Nat.min_eq_left h]

theorem HasLength.upTo (h : HasLength m p l) (hp : p + headerSize ≤ n) : HasLength (m.upTo n) p l := by
  obtain ⟨lo, hi, hlo, hhi, hl⟩ := h
  have hp : p + 4 ≤ n := hp
  exact ⟨lo, hi, by rwa [bytes_upTo (by omega)], by rwa [bytes_upTo (by omega)], hl⟩

theorem EndAt.upTo (h : EndAt m p s) (hp : p + headerSize ≤ n) : EndAt (m.upTo n) p s := by
  obtain ⟨t, ht, hend, hs⟩ := h
  have hp : p + 4 ≤ n := hp
  exact ⟨t, by rwa [bytes_upTo (by omega)], hend, by rwa [bytes_upTo (by omega)]⟩

/-- Bytes of the buffer can be copied. -/
theorem bytes_of_le (h : p + n ≤ m.bytes.length) : (bytes m p n).Returns ((m.bytes.drop p).take n) := by
  have hword := (holds_self m.addr m.bytes).word h
  rwa [Nat.zero_add] at hword

theorem bytes_le {l : List UInt8} (h : (bytes m p n).Returns l) (hn : n ≠ 0) : p + n ≤ m.bytes.length := by
  obtain ⟨hlen, hholds⟩ := returns_bytes.mp h
  have hlast := List.getElem?_eq_getElem (show n - 1 < l.length by omega)
  have := (List.getElem?_eq_some_iff.mp (hholds.get hlast)).1
  omega

theorem exists_hasLength (h : p + headerSize ≤ m.bytes.length) : ∃ l, HasLength m p l := by
  have h : p + 4 ≤ m.bytes.length := h
  exact ⟨_, _, _, List.getElem?_eq_getElem (by omega), List.getElem?_eq_getElem (by omega), rfl⟩

end reading

/-! ## MemCmp of a node and an end node -/

section memCmp

variable {m1 m2 : Buffer} {p1 p2 count : Nat} {d s : UInt8}

section

variable (h1 : m1.bytes[p1]? = some d) (h2 : m2.bytes[p2]? = some s) (hne : d ≠ s)
include h1 h2 hne

theorem memCmpHead_differ (r : Nat) :
    (memCmpHead m1 p1 m2 p2 r 0).Returns 0 := by
  cases r with
  | zero => exact returns_pure.mpr rfl
  | succ r =>
    refine Run.Returns.bind (returns_byte.mpr h1) (Run.Returns.bind (returns_byte.mpr h2) ?_)
    rw [if_neg hne]
    exact returns_pure.mpr rfl

/-- Wherever the words are aligned, it begins at the first byte. -/
theorem memCmpWhole_differ {i : Nat} :
    (memCmpWhole m1 p1 m2 p2 count).Returns i ↔ (memCmpWords m1 p1 m2 p2 (count / 8) 0).Returns i := by
  have hbegin {x : Run Nat} (hx : x.Returns 0) :
      (x >>= fun i => memCmpWords m1 p1 m2 p2 ((count - i) / 8) i).Returns i
        ↔ (memCmpWords m1 p1 m2 p2 (count / 8) 0).Returns i := by
    rw [Run.returns_bind]
    constructor
    · rintro ⟨i', hi', h⟩
      cases hi'.unique hx
      exact h
    · exact fun h => ⟨0, hx, h⟩
  rw [memCmpWhole]
  split
  · exact hbegin (memCmpHead_differ h1 h2 hne _)
  · exact hbegin (returns_pure.mpr rfl)

/-- The first word of both is read, and it differs. -/
theorem memCmpWords_differ {n i : Nat} :
    (memCmpWords m1 p1 m2 p2 (n + 1) 0).Returns i ↔ i = 0 ∧ p1 + 8 ≤ m1.bytes.length ∧ p2 + 8 ≤ m2.bytes.length := by
  have hdiffer {w1 w2 : List UInt8} (hw1 : (bytes m1 p1 8).Returns w1) (hw2 : (bytes m2 p2 8).Returns w2) : w1 ≠ w2 := by
    rintro rfl
    obtain ⟨hlen, hholds⟩ := returns_bytes.mp hw1
    have hfirst := List.getElem?_eq_getElem (show 0 < w1.length by omega)
    have hd := hholds.get hfirst
    have hs := (returns_bytes.mp hw2).2.get hfirst
    rw [Nat.add_zero] at hd hs
    exact hne (Option.some.inj (h1.symm.trans (hd.trans (hs.symm.trans h2))))
  simp only [memCmpWords, Run.returns_bind, Nat.add_zero]
  constructor
  · rintro ⟨w1, hw1, w2, hw2, h⟩
    rw [if_neg (hdiffer hw1 hw2), returns_pure] at h
    exact ⟨h.symm, bytes_le hw1 (by decide), bytes_le hw2 (by decide)⟩
  · rintro ⟨rfl, hle1, hle2⟩
    have hw1 := bytes_of_le hle1
    have hw2 := bytes_of_le hle2
    refine ⟨_, hw1, _, hw2, ?_⟩
    rw [if_neg (hdiffer hw1 hw2)]
    exact returns_pure.mpr rfl

theorem memCmpTail_differ (hcount : count ≠ 0) :
    ∃ r, (memCmpTail m1 p1 m2 p2 count 0).Returns r ∧ r ≠ 0 := by
  obtain ⟨n, rfl⟩ := Nat.exists_eq_succ_of_ne_zero hcount
  refine ⟨_, Run.Returns.bind (returns_byte.mpr h1) (Run.Returns.bind (returns_byte.mpr h2) ?_),
    fun h => hne (toInt8_sub_eq_zero.mp h)⟩
  rw [if_neg hne]
  exact returns_pure.mpr rfl

/-- A difference in the first byte is found, if the words that are read for it can be read. -/
theorem memCmp_differ (hcount : count ≠ 0)
    (hword : 8 ≤ count → p1 + 8 ≤ m1.bytes.length ∧ p2 + 8 ≤ m2.bytes.length) :
    ∃ r, (memCmp m1 p1 m2 p2 count).Returns r ∧ r ≠ 0 := by
  obtain ⟨r, htail, hr⟩ := memCmpTail_differ h1 h2 hne hcount
  rw [memCmp]
  by_cases hwords : 8 ≤ count
  · obtain ⟨n, hn⟩ : ∃ n, count / 8 = n + 1 := ⟨count / 8 - 1, by omega⟩
    have hwhole : (memCmpWhole m1 p1 m2 p2 count).Returns 0 := by
      rw [memCmpWhole_differ h1 h2 hne, hn, memCmpWords_differ h1 h2 hne]
      exact ⟨rfl, hword hwords⟩
    rw [if_pos hwords]
    exact ⟨r, hwhole.bind htail, hr⟩
  · rw [if_neg hwords]
    exact ⟨r, Run.Returns.bind (returns_pure.mpr rfl) htail, hr⟩

theorem memCmp_differ_le (hcount : 8 ≤ count)
    {r : Int} (h : (memCmp m1 p1 m2 p2 count).Returns r) : p2 + 8 ≤ m2.bytes.length := by
  obtain ⟨n, hn⟩ : ∃ n, count / 8 = n + 1 := ⟨count / 8 - 1, by omega⟩
  rw [memCmp, if_pos hcount, Run.returns_bind] at h
  obtain ⟨i, hwhole, -⟩ := h
  rw [memCmpWhole_differ h1 h2 hne, hn, memCmpWords_differ h1 h2 hne] at hwhole
  exact hwhole.2.2

end

variable (m1 p1 m2 p2 count) in
/-- Bytes that can be read are compared. -/
theorem memCmp_returns (hle1 : p1 + count ≤ m1.bytes.length) (hle2 : p2 + count ≤ m2.bytes.length) :
    ∃ r, (memCmp m1 p1 m2 p2 count).Returns r ∧ (r = 0 ↔ (m1.bytes.drop p1).take count = (m2.bytes.drop p2).take count) :=
  memCmp_spec (returns_bytes.mp (bytes_of_le hle1)).2 (returns_bytes.mp (bytes_of_le hle2)).2 count
    (returns_bytes.mp (bytes_of_le hle1)).1 (returns_bytes.mp (bytes_of_le hle2)).1

end memCmp

/-! ## The walkers within the bytes -/

section walkers

variable {m q : Buffer} {e i start p : Nat}

theorem lengthLoop_valid (h : ValidTo m e p) :
    (Run.loop (lengthRound (m.upTo (e + headerSize))) (p, p)).Returns (e + headerSize) := by
  induction h with
  | stop hend =>
    have hend := hend.upTo (Nat.le_refl _)
    exact loop_done (Run.Returns.bind (isEndEntire_true.mpr hend) (returns_pure.mpr rfl))
  | @node p l hnode hrest ih =>
    by_cases hl : l = 0
    · -- no path comes to its end over such a node
      subst hl
      exact ih
    have hle := hrest.le
    obtain ⟨t, ht, htype, hsub, hlen, -⟩ := hnode
    have hlen := hlen.upTo (n := e + headerSize) (by omega)
    have ht : (m.upTo (e + headerSize)).bytes[p]? = some t := by rwa [bytes_upTo (by omega)]
    have hentire := (isEndEntire_false ht).mpr (by rwa [bytes_upTo (by simp [headerSize]; omega)])
    have hzero : t ≠ 0 := by
      rintro rfl
      exact absurd htype (by decide)
    refine loop_again ?_ ih
    refine hentire.bind ((returns_nodeLength.mpr hlen).bind (Run.Returns.bind (returns_byte.mpr ht) ?_))
    rw [if_neg (not_or.mpr ⟨hzero, hl⟩)]
    exact returns_pure.mpr rfl

theorem InstancesTo.le (h : InstancesTo q e i start p) (hp : start ≤ p) : start ≤ i ∧ i ≤ e ∧ p ≤ e := by
  induction h with
  | stop => exact ⟨Nat.le_refl _, hp, Nat.le_refl _⟩
  | node _ _ ih =>
    have := ih (by omega)
    omega
  | next _ _ _ ih =>
    have := ih (Nat.le_refl _)
    simp only [headerSize] at this
    omega

/-- From anywhere in an instance its end is found, and the walk goes on behind it. -/
theorem InstancesTo.end_node (h : InstancesTo q e i start p) (hp : start ≤ p) :
    ∃ x s, (dpGetEndNode q p).Returns x ∧ p ≤ x ∧ x ≤ e ∧ EndAt q x s
      ∧ (s = END_ENTIRE_SUBTYPE ∨ InstancesTo q e i (x + headerSize) (x + headerSize)) := by
  induction h with
  | stop hend =>
    exact ⟨e, _, loop_done (hend.isEndNode.bind (returns_pure.mpr rfl)), Nat.le_refl _, Nat.le_refl _, hend, Or.inl rfl⟩
  | node hnode _ ih =>
    obtain ⟨x, s, hrun, hle, hrest⟩ := ih (by omega)
    refine ⟨x, s, loop_again (hnode.isEndNode.bind (hnode.nodeLength.bind (returns_pure.mpr rfl))) hrun, by omega, hrest⟩
  | next hend hs hrest =>
    have hle := hrest.le (Nat.le_refl _)
    simp only [headerSize] at hle
    exact ⟨_, _, loop_done (hend.isEndNode.bind (returns_pure.mpr rfl)), Nat.le_refl _, by omega, hend, Or.inr hrest⟩

theorem InstancesTo.dpGetLastNode (h : InstancesTo q e i start p) (last : Option Nat) :
    ∃ o, (Run.loop (lastNodeRound q) (p, last)).Returns o := by
  induction h generalizing last with
  | stop hend => exact ⟨last, loop_done (hend.isEndNode.bind (returns_pure.mpr rfl))⟩
  | @node _ p _ hnode _ ih =>
    obtain ⟨o, ho⟩ := ih (some p)
    exact ⟨o, loop_again (hnode.isEndNode.bind (hnode.nodeLength.bind (returns_pure.mpr rfl))) ho⟩
  | next hend => exact ⟨last, loop_done (hend.isEndNode.bind (returns_pure.mpr rfl))⟩

/-- One instance is copied, up to its end node. -/
theorem InstancesTo.dpNextInstance (h : InstancesTo q e i p p) (he : e + headerSize ≤ q.bytes.length) :
    ∃ piece next, (dpNextInstance q p).Returns (piece, next)
      ∧ (next = none ∨ ∃ p', next = some p' ∧ p < p' ∧ InstancesTo q e i p' p') := by
  obtain ⟨x, s, hrun, hpx, hxe, hend, hrest⟩ := h.end_node (Nat.le_refl _)
  have hcopy : p + (x + headerSize - p) ≤ q.bytes.length := by
    simp only [headerSize] at he ⊢
    omega
  refine ⟨_, _, hrun.bind ((bytes_of_le hcopy).bind (hend.subType.bind (returns_pure.mpr rfl))), ?_⟩
  by_cases hs : s = END_ENTIRE_SUBTYPE
  · exact Or.inl (if_pos hs)
  · refine Or.inr ⟨x + headerSize, if_neg hs, ?_, hrest.resolve_left hs⟩
    simp only [headerSize]
    omega

theorem InstancesTo.instances (h : InstancesTo q e i 0 0) (he : e + headerSize ≤ q.bytes.length) :
    (Run.loop (instancesRound q) 0).Returns () := by
  have hloop : ∀ n p, e - p < n → InstancesTo q e i p p → (Run.loop (instancesRound q) p).Returns () := by
    intro n
    induction n with
    | zero => intro p hn; omega
    | succ n ih =>
      intro p hn h
      obtain ⟨piece, next, hrun, hnext⟩ := h.dpNextInstance he
      rcases hnext with rfl | ⟨p', rfl, hlt, h'⟩
      · exact loop_done (hrun.bind (returns_pure.mpr rfl))
      · have hle := h'.le (Nat.le_refl _)
        exact loop_again (hrun.bind (returns_pure.mpr rfl)) (ih p' (by omega) h')
  exact hloop (e + 1) 0 (by omega) h

theorem dpCmp_returns {other : Buffer} (hq : HasEnd q) (hother : HasEnd other) : ∃ c, (dpCmp (some q) (some other)).Returns c := by
  obtain ⟨l, hlen, hl⟩ := hq
  obtain ⟨l', hlen', hl'⟩ := hother
  by_cases heq : l' = l
  · subst heq
    obtain ⟨c, hrun, -⟩ := memCmp_returns q other 0 0 l' (by omega) (by omega)
    refine ⟨c, hlen.bind (hlen'.bind ?_)⟩
    rwa [if_neg (not_not.mpr rfl)]
  · refine ⟨-1, hlen.bind (hlen'.bind ?_)⟩
    rw [if_pos heq]
    exact returns_pure.mpr rfl

end walkers

end BayTrail.DevicePath
