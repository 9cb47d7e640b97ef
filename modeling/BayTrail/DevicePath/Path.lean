import BayTrail.DevicePath.Defs

/-!
# Well-formed device paths

A device path is a list of instances, an instance is a list of nodes. What is in memory for one: its
nodes' bytes, behind each instance an end node, that of the last one with the other sub type.
-/

namespace BayTrail.DevicePath

open BayTrail.Lib

/-! ## Nodes and paths -/

/-- A node that is no end node. Its length with the header is a 16-bit number. -/
structure Node where
  type : UInt8
  subType : UInt8
  data : List UInt8
  type_ne_zero : type ≠ 0
  type_ne_end : ¬ (type = END_DEVICE_PATH ∨ type = END_DEVICE_PATH1)
  length_lt : data.length + headerSize < 65536
  deriving DecidableEq

namespace Node

def length (n : Node) : Nat := n.data.length + headerSize

/-- The header and the data. -/
def bytes (n : Node) : List UInt8 :=
  n.type :: n.subType :: UInt8.ofNat (n.length % 256) :: UInt8.ofNat (n.length / 256) :: n.data

@[simp]
theorem length_bytes (n : Node) : n.bytes.length = n.length := rfl

theorem length_pos (n : Node) : 0 < n.length := Nat.succ_pos _

theorem length_eq (n : Node) :
    (UInt8.ofNat (n.length % 256)).toNat + (UInt8.ofNat (n.length / 256)).toNat * 256 = n.length := by
  have hlt : n.length < 65536 := n.length_lt
  rw [UInt8.toNat_ofNat_of_lt' (show n.length % 256 < 256 from Nat.mod_lt _ (by decide)),
    UInt8.toNat_ofNat_of_lt' (show n.length / 256 < 256 by omega)]
  omega

theorem bytes_inj {n n' : Node} (h : n.bytes = n'.bytes) : n = n' := by
  cases n
  cases n'
  simp only [bytes, List.cons.injEq] at h
  obtain ⟨rfl, rfl, -, -, rfl⟩ := h
  rfl

end Node

/-- The first instance and what follows it. -/
@[ext]
structure Path where
  first : List Node
  others : List (List Node)
  deriving DecidableEq

namespace Path

def instances (p : Path) : List (List Node) := p.first :: p.others

/-- A path of one instance. -/
def single (ns : List Node) : Path := ⟨ns, []⟩

/-- The path without a node. -/
def empty : Path := single []

/-- The nodes of the second path follow those of the first: its first instance continues the last. -/
def appendFrom (is : List Node) : List (List Node) → Path → Path
  | [], q => ⟨is ++ q.first, q.others⟩
  | j :: js, q => ⟨is, (appendFrom j js q).instances⟩

def append (p q : Path) : Path := appendFrom p.first p.others q

end Path

/-! ## Their bytes -/

/-- An end node. -/
def endNode (subType : UInt8) : List UInt8 := [END_DEVICE_PATH, subType, 4, 0]

def encodeNodes (ns : List Node) : List UInt8 := ns.flatMap Node.bytes

@[simp]
theorem encodeNodes_nil : encodeNodes [] = [] := rfl

@[simp]
theorem encodeNodes_cons (n : Node) (ns : List Node) : encodeNodes (n :: ns) = n.bytes ++ encodeNodes ns := rfl

@[simp]
theorem encodeNodes_append (ns ns' : List Node) : encodeNodes (ns ++ ns') = encodeNodes ns ++ encodeNodes ns' :=
  List.flatMap_append

/-- All up to the end node of the last instance. -/
def encodeFront : List Node → List (List Node) → List UInt8
  | is, [] => encodeNodes is
  | is, j :: js => encodeNodes is ++ endNode END_INSTANCE_SUBTYPE ++ encodeFront j js

def Path.front (p : Path) : List UInt8 := encodeFront p.first p.others

def Path.encode (p : Path) : List UInt8 := p.front ++ endNode END_ENTIRE_SUBTYPE

theorem Path.encode_single (ns : List Node) : (single ns).encode = encodeNodes ns ++ endNode END_ENTIRE_SUBTYPE := rfl

theorem Path.encode_cons (is j : List Node) (js : List (List Node)) :
    (Path.mk is (j :: js)).encode = encodeNodes is ++ endNode END_INSTANCE_SUBTYPE ++ (Path.mk j js).encode := by
  simp [Path.encode, Path.front, encodeFront]

theorem Path.length_encode (p : Path) : p.encode.length = p.front.length + headerSize := by
  simp [Path.encode, endNode, headerSize]

theorem Path.front_append (p q : Path) : (p.append q).front = p.front ++ q.front := by
  obtain ⟨is, js⟩ := p
  induction js generalizing is with
  | nil =>
    obtain ⟨ks, ls⟩ := q
    cases ls <;> simp [append, appendFrom, front, encodeFront]
  | cons j js ih =>
    calc encodeNodes is ++ endNode END_INSTANCE_SUBTYPE ++ (append ⟨j, js⟩ q).front
        = encodeNodes is ++ endNode END_INSTANCE_SUBTYPE ++ ((Path.mk j js).front ++ q.front) := by rw [ih j]
      _ = (Path.mk is (j :: js)).front ++ q.front := by simp [front, encodeFront]

theorem Path.encode_append (p q : Path) : (p.append q).encode = p.front ++ q.encode := by
  simp [Path.encode, Path.front_append]

/-! ## The bytes determine the path -/

variable {l : List UInt8} {b : UInt8}

/-- A list of nodes ends where an end node begins. -/
theorem encodeNodes_inj {ns ns' : List Node} {s s' : UInt8} {k : List UInt8}
    (h : encodeNodes ns ++ (endNode s ++ l) = encodeNodes ns' ++ (endNode s' ++ k)) :
    ns = ns' ∧ s = s' ∧ l = k := by
  induction ns generalizing ns' with
  | nil =>
    cases ns' with
    | nil => simpa [endNode] using h
    | cons n ns' =>
      have htype := n.type_ne_end
      simp only [encodeNodes_nil, encodeNodes_cons, endNode, Node.bytes, List.nil_append, List.cons_append,
        List.cons.injEq] at h
      exact absurd (Or.inl h.1.symm) htype
  | cons n ns ih =>
    cases ns' with
    | nil =>
      have htype := n.type_ne_end
      simp only [encodeNodes_nil, encodeNodes_cons, endNode, Node.bytes, List.nil_append, List.cons_append,
        List.cons.injEq] at h
      exact absurd (Or.inl h.1) htype
    | cons n' ns' =>
      simp only [encodeNodes_cons, List.append_assoc] at h
      -- the headers agree, hence the lengths
      have hlength : n.length = n'.length := by
        have h := h
        simp only [Node.bytes, List.cons_append, List.cons.injEq] at h
        rw [← n.length_eq, ← n'.length_eq, h.2.2.1, h.2.2.2.1]
      obtain ⟨hn, h⟩ := List.append_inj h (by simpa using hlength)
      obtain ⟨rfl, rest⟩ := ih h
      exact ⟨by rw [Node.bytes_inj hn], rest⟩

theorem Path.encode_inj {p q : Path} (h : p.encode = q.encode) : p = q := by
  obtain ⟨is, js⟩ := p
  obtain ⟨ks, ls⟩ := q
  induction js generalizing is ks ls with
  | nil =>
    cases ls with
    | nil =>
      have h : encodeNodes is ++ (endNode END_ENTIRE_SUBTYPE ++ []) = encodeNodes ks ++ (endNode END_ENTIRE_SUBTYPE ++ []) := by
        simpa [encode, front, encodeFront] using h
      obtain ⟨rfl, -⟩ := encodeNodes_inj h
      rfl
    | cons l ls =>
      rw [encode_cons] at h
      have h := encodeNodes_inj (l := []) (by simpa [encode, front, encodeFront] using h)
      exact absurd h.2.1 (by decide)
  | cons j js ih =>
    cases ls with
    | nil =>
      rw [encode_cons] at h
      have h := encodeNodes_inj (k := []) (by simpa [encode, front, encodeFront] using h)
      exact absurd h.2.1 (by decide)
    | cons l ls =>
      rw [encode_cons, encode_cons, List.append_assoc, List.append_assoc] at h
      obtain ⟨rfl, -, h⟩ := encodeNodes_inj h
      have hrest := ih _ _ _ h
      rw [Path.mk.injEq] at hrest
      rw [hrest.1, hrest.2]

/-! ## Where a path is in memory -/

/-- These bytes are at this position. -/
def Holds (m : Buffer) : Nat → List UInt8 → Prop
  | _, [] => True
  | p, b :: l => m.bytes[p]? = some b ∧ Holds m (p + 1) l

@[simp]
theorem holds_nil (m : Buffer) (p : Nat) : Holds m p [] := trivial

@[simp]
theorem holds_cons {m : Buffer} {p : Nat} :
    Holds m p (b :: l) ↔ m.bytes[p]? = some b ∧ Holds m (p + 1) l := Iff.rfl

@[simp]
theorem holds_append {m : Buffer} {p : Nat} {l' : List UInt8} :
    Holds m p (l ++ l') ↔ Holds m p l ∧ Holds m (p + l.length) l' := by
  induction l generalizing p with
  | nil => simp
  | cons b l ih => simp [ih, and_assoc, Nat.add_assoc, Nat.add_comm 1]

theorem Holds.get {m : Buffer} {p : Nat} (h : Holds m p l) {i : Nat}
    (hi : l[i]? = some b) : m.bytes[p + i]? = some b := by
  induction l generalizing p i with
  | nil => simp at hi
  | cons a l ih =>
    cases i with
    | zero => simpa [← hi] using h.1
    | succ i =>
      have := ih h.2 (i := i) (by simpa using hi)
      rwa [Nat.add_assoc, Nat.add_comm 1] at this

/-- A buffer begins with its bytes. -/
theorem holds_self (a : Nat) (l : List UInt8) : Holds ⟨a, l⟩ 0 l := by
  have hdrop : ∀ (front back : List UInt8), Holds ⟨a, front ++ back⟩ front.length back := by
    intro front back
    induction back generalizing front with
    | nil => trivial
    | cons b back ih =>
      refine ⟨by simp, ?_⟩
      simpa using ih (front ++ [b])
  exact hdrop [] l

@[simp]
theorem returns_byte {m : Buffer} {p : Nat} : (byte m p).Returns b ↔ m.bytes[p]? = some b := by
  simp [byte]

theorem returns_bytes {m : Buffer} {p n : Nat} :
    (bytes m p n).Returns l ↔ l.length = n ∧ Holds m p l := by
  induction n generalizing p l with
  | zero =>
    rw [bytes, Run.returns_pure]
    cases l <;> simp
  | succ n ih =>
    simp only [bytes, Run.returns_bind, Run.returns_pure, returns_byte, ih]
    constructor
    · rintro ⟨b, hb, rest, ⟨rfl, hrest⟩, rfl⟩
      exact ⟨rfl, hb, hrest⟩
    · rintro ⟨hn, h⟩
      obtain ⟨b, rest, rfl⟩ := List.exists_cons_of_length_eq_add_one hn
      exact ⟨b, h.1, rest, ⟨by simpa using hn, h.2⟩, rfl⟩

theorem Holds.returns_bytes {m : Buffer} {p n : Nat} (h : Holds m p l) (hn : n = l.length) :
    (DevicePath.bytes m p n).Returns l := DevicePath.returns_bytes.mpr ⟨hn.symm, h⟩

/-! ## Reading nodes -/

section reading

variable {m : Buffer} {p : Nat} {n : Node} {s : UInt8}

theorem Holds.nodeLength_node (h : Holds m p n.bytes) : (nodeLength m p).Returns n.length := by
  simp only [Node.bytes, holds_cons] at h
  simp only [nodeLength, Run.returns_bind, Run.returns_pure, returns_byte]
  exact ⟨_, h.2.2.1, _, h.2.2.2.1, n.length_eq⟩

theorem Holds.type_node (h : Holds m p n.bytes) : m.bytes[p]? = some n.type := h.1

theorem Holds.isEndNode_node (h : Holds m p n.bytes) : (isEndNode m p).Returns false := by
  simp only [isEndNode, Run.returns_bind, Run.returns_pure, returns_byte]
  exact ⟨_, h.type_node, by simpa using n.type_ne_end⟩

theorem Holds.isEndEntire_node (h : Holds m p n.bytes) : (isEndEntire m p).Returns false := by
  simp only [isEndEntire, Run.returns_bind]
  exact ⟨false, h.isEndNode_node, by simp⟩

theorem Holds.nodeLength_end (h : Holds m p (endNode s)) : (nodeLength m p).Returns headerSize := by
  simp only [endNode, holds_cons] at h
  simp only [nodeLength, Run.returns_bind, Run.returns_pure, returns_byte]
  exact ⟨_, h.2.2.1, _, h.2.2.2.1, rfl⟩

theorem Holds.subType_end (h : Holds m p (endNode s)) : m.bytes[p + 1]? = some s := h.2.1

theorem Holds.isEndNode_end (h : Holds m p (endNode s)) : (isEndNode m p).Returns true := by
  simp only [isEndNode, Run.returns_bind, Run.returns_pure, returns_byte]
  exact ⟨_, h.1, rfl⟩

theorem Holds.isEndEntire_end (h : Holds m p (endNode s)) :
    (isEndEntire m p).Returns (s = END_ENTIRE_SUBTYPE : Bool) := by
  simp only [isEndEntire, Run.returns_bind]
  refine ⟨true, h.isEndNode_end, ?_⟩
  simp only [if_true, Run.returns_bind, Run.returns_pure, returns_byte]
  exact ⟨s, h.subType_end, rfl⟩

end reading

end BayTrail.DevicePath
