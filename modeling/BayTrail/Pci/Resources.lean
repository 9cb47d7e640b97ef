import Mathlib.Algebra.Ring.Nat
import Mathlib.Data.List.Induction
import Mathlib.Data.List.Nodup
import Mathlib.Data.List.Perm.Basic

/-!
# Root bridge resources

`CreateRootResDsc` and `ApplyAcpiResources` of `PciBus.c`: the requests of a root bridge
become resource descriptors for the host bridge, and the descriptors that come back are
matched with the requests. The matching goes by the kind of the space and the length only.
-/

namespace BayTrail.Pci

/-! ## Structures -/

/-- `MRES_TYPE`, without `rtBus`. -/
inductive ResType where
  | io16 | io32 | mmio32 | mmio32p | mmio64 | mmio64p
  deriving DecidableEq

def ResType.all : List ResType := [.io16, .io32, .mmio32, .mmio32p, .mmio64, .mmio64p]

/-- The value of the enumeration. -/
def ResType.index : ResType → Nat
  | .io16 => 1
  | .io32 => 2
  | .mmio32 => 3
  | .mmio32p => 4
  | .mmio64 => 5
  | .mmio64p => 6

/-- `PCI_BAR_TYPE`. -/
inductive BarType where
  | unused | bus | io16 | io32 | mmio32 | mmio32pf | mmio64 | mmio64pf | io | mem | memPf
  deriving DecidableEq

/-- The type of the bar for a type of resources, `ResType+1`. -/
def ResType.barType : ResType → BarType
  | .io16 => .io16
  | .io32 => .io32
  | .mmio32 => .mmio32
  | .mmio32p => .mmio32pf
  | .mmio64 => .mmio64
  | .mmio64p => .mmio64pf

/-- `PCI_BAR`. -/
structure Bar where
  type : BarType
  base : Nat
  length : Nat
  gran : Nat

/-- `PCI_BRG_EXT`: `Res`, and the lengths of `Align[..].ExtraRes`. A bar is unused or of the
type of its place. -/
structure BrgExt where
  res : ResType → Bar
  extraRes : ResType → Nat
  typed : ∀ i, (res i).type = .unused ∨ (res i).type = i.barType

def spcTypeMem : Nat := 0
def spcTypeIo : Nat := 1
def memCepf : Nat := 3

/-- `ASLR_QWORD_ASD`: `_MEM` and `_RW` are in `TFlags`. -/
structure Descriptor where
  type : Nat
  gFlags : Nat := 0
  mem : Nat := 0
  rw : Nat := 0
  gra : Nat
  min : Nat := 0
  max : Nat := 0
  len : Nat
  deriving DecidableEq

/-! ## CreateRootResDsc -/

/-- The length of memory is a number of pages. -/
def pageAlign (len : Nat) : Nat :=
  if len &&& 0xFFF ≠ 0 then ((len ||| 0xFFF) + 1) % 2 ^ 64 else len

section

variable (ext : BrgExt)

def BrgExt.requested (i : ResType) : Bool :=
  (ext.res i).type ≠ .unused && (ext.res i).length ≠ 0

/-- The length that is asked for, in a space of a type. -/
def BrgExt.requestLength (spc : Nat) (i : ResType) : Nat :=
  let len := ((ext.res i).length + ext.extraRes i) % 2 ^ 64
  if spc = spcTypeMem then pageAlign len else len

/-- The `switch`, with nothing for its `default`. -/
def descriptorOf : BarType → Option Descriptor
  | .io16 => some { type := spcTypeIo, gra := 16, len := 0 }
  | .io32 => some { type := spcTypeIo, gra := 32, len := 0 }
  | .mmio32pf => some { type := spcTypeMem, mem := memCepf, rw := 1, gra := 32, len := 0 }
  | .mmio32 => some { type := spcTypeMem, rw := 1, gra := 32, len := 0 }
  | .mmio64pf => some { type := spcTypeMem, mem := memCepf, rw := 1, gra := 64, len := 0 }
  | .mmio64 => some { type := spcTypeMem, rw := 1, gra := 64, len := 0 }
  | _ => none

def createDescriptor (i : ResType) : Option Descriptor :=
  if ext.requested i then
    (descriptorOf (ext.res i).type).map fun rd =>
      { rd with gFlags := 0x0C, max := (ext.res i).gran, len := ext.requestLength rd.type i }
  else none

/-- `CreateRootResDsc`: the descriptors in front of the end tag. -/
def createRootResDsc : List Descriptor := ResType.all.filterMap (createDescriptor ext)

/-! ## ApplyAcpiResources -/

/-- The types from `s` to `e`. -/
def candidates (spc : Nat) : List ResType :=
  if spc = spcTypeIo then [.io16, .io32]
  else if spc = spcTypeMem then [.mmio32, .mmio32p, .mmio64, .mmio64p]
  else []

/-- The bar is not assigned yet, and fits. -/
def BrgExt.fits (d : Descriptor) (i : ResType) : Bool :=
  (ext.res i).base = 0 && (ext.res i).length ≠ 0 && ext.requestLength d.type i ≤ d.len

/-- The loop over the bars. -/
def findBar (d : Descriptor) : Option ResType := (candidates d.type).find? (ext.fits d)

end

def BrgExt.setBase (ext : BrgExt) (i : ResType) (base : Nat) : BrgExt where
  res j := if j = i then { ext.res j with base := base } else ext.res j
  extraRes := ext.extraRes
  typed j := by
    have := ext.typed j
    split <;> assumption

/-- What is done for one descriptor. -/
def applyDescriptor (ext : BrgExt) (d : Descriptor) : BrgExt :=
  match findBar ext d with
  | some i => ext.setBase i d.min
  | none => ext

def applyAcpiResources (ext : BrgExt) : List Descriptor → BrgExt
  | [] => ext
  | d :: ds => applyAcpiResources (applyDescriptor ext d) ds

/-- The bars that the descriptors are used for. -/
def uses (ext : BrgExt) : List Descriptor → List (Option ResType)
  | [] => []
  | d :: ds => findBar ext d :: uses (applyDescriptor ext d) ds

/-! ## Grants -/

/-- The type that a descriptor is for: its space, width and prefetchability. -/
def Descriptor.resType (d : Descriptor) : Option ResType :=
  if d.type = spcTypeIo then
    if d.gra = 16 then some .io16 else if d.gra = 32 then some .io32 else none
  else if d.type = spcTypeMem then
    if d.gra = 32 then some (if d.mem = memCepf then .mmio32p else .mmio32)
    else if d.gra = 64 then some (if d.mem = memCepf then .mmio64p else .mmio64)
    else none
  else none

/-- The descriptors grant one window for each request, in any order; there may be
descriptors of other spaces among them. -/
structure Grants (ext : BrgExt) (ds : List Descriptor) : Prop where
  known : ∀ d ∈ ds, d.type = spcTypeIo ∨ d.type = spcTypeMem → d.resType ≠ none
  perm : (ds.filterMap Descriptor.resType).Perm
    ((createRootResDsc ext).filterMap Descriptor.resType)

/-- Every window goes to the request that it is granted for. -/
structure Applied (ext : BrgExt) (ds : List Descriptor) : Prop where
  uses : uses ext ds = ds.map Descriptor.resType
  base : ∀ i, ext.requested i = true → ∃ d ∈ ds, d.resType = some i
    ∧ ((applyAcpiResources ext ds).res i).base = d.min

/-- Every window is wide enough for its request, which has no base yet; and no bar in front
of it in the same space takes it: one that is as short has had its own window, not at zero,
before. -/
def Matching (ext : BrgExt) (ds : List Descriptor) : Prop :=
  ∀ front d rest i, ds = front ++ d :: rest → d.resType = some i →
    (ext.res i).base = 0 ∧ ext.requestLength d.type i ≤ d.len ∧
    ∀ j ∈ candidates d.type, j.index < i.index → (ext.res j).base = 0 → (ext.res j).length ≠ 0 →
      ext.requestLength d.type j ≤ d.len → ∃ d' ∈ front, d'.resType = some j ∧ d'.min ≠ 0

/-! ## Which bar is found -/

variable {ext : BrgExt} {d : Descriptor} {ds : List Descriptor} {i j : ResType}

/-- The first element with a property, in a list that ascends by some measure. -/
theorem find?_eq_some_of_ascending {α : Type} (f : α → Nat) (p : α → Bool) {a : α} :
    ∀ {l : List α}, l.Pairwise (fun x y => f x < f y) →
      (l.find? p = some a ↔ a ∈ l ∧ p a = true ∧ ∀ b ∈ l, f b < f a → p b = false)
  | [], _ => by simp
  | x :: l, h => by
    obtain ⟨hx, hl⟩ := List.pairwise_cons.mp h
    rw [List.find?_cons]
    cases hp : p x with
    | true =>
      dsimp only
      rw [Option.some.injEq]
      constructor
      · rintro rfl
        refine ⟨by simp, hp, fun b hb hlt => ?_⟩
        rcases List.mem_cons.mp hb with rfl | hb
        · exact absurd hlt (Nat.lt_irrefl _)
        · exact absurd (hx b hb) (by omega)
      · rintro ⟨ha, -, hfirst⟩
        rcases List.mem_cons.mp ha with rfl | ha
        · rfl
        · exact absurd (hp.symm.trans (hfirst x (by simp) (hx a ha))) (by simp)
    | false =>
      dsimp only
      rw [find?_eq_some_of_ascending f p hl]
      constructor
      · rintro ⟨ha, hpa, hfirst⟩
        refine ⟨List.mem_cons_of_mem _ ha, hpa, fun b hb hlt => ?_⟩
        rcases List.mem_cons.mp hb with rfl | hb
        · exact hp
        · exact hfirst b hb hlt
      · rintro ⟨ha, hpa, hfirst⟩
        rcases List.mem_cons.mp ha with rfl | ha
        · exact absurd (hp.symm.trans hpa) (by simp)
        · exact ⟨ha, hpa, fun b hb hlt => hfirst b (List.mem_cons_of_mem _ hb) hlt⟩

theorem candidates_ascending (spc : Nat) :
    (candidates spc).Pairwise (fun x y => x.index < y.index) := by
  unfold candidates
  split
  · decide
  · split
    · decide
    · exact List.Pairwise.nil

theorem findBar_eq_some : findBar ext d = some i ↔ i ∈ candidates d.type ∧ ext.fits d i = true ∧
    ∀ j ∈ candidates d.type, j.index < i.index → ext.fits d j = false :=
  find?_eq_some_of_ascending _ _ (candidates_ascending _)

theorem fits_iff : ext.fits d i = true ↔
    (ext.res i).base = 0 ∧ (ext.res i).length ≠ 0 ∧ ext.requestLength d.type i ≤ d.len := by
  unfold BrgExt.fits
  simp [and_assoc]

theorem mem_candidates (h : d.resType = some i) : i ∈ candidates d.type := by
  unfold Descriptor.resType at h
  unfold candidates
  split at h
  next hio =>
    rw [if_pos hio]
    split at h
    · obtain rfl := Option.some.inj h
      decide
    · split at h
      · obtain rfl := Option.some.inj h
        decide
      · exact absurd h (by simp)
  next hio =>
    rw [if_neg hio]
    split at h
    next hmem =>
      rw [if_pos hmem]
      split at h
      · obtain rfl := Option.some.inj h
        split <;> decide
      · split at h
        · obtain rfl := Option.some.inj h
          split <;> decide
        · exact absurd h (by simp)
    next => exact absurd h (by simp)

/-- A descriptor of another space is for no bar. -/
theorem findBar_none (hds : Grants ext ds) (hd : d ∈ ds) (h : d.resType = none)
    (ext' : BrgExt) : findBar ext' d = none := by
  have hspc : ¬ (d.type = spcTypeIo ∨ d.type = spcTypeMem) := fun hspc => hds.known d hd hspc h
  unfold findBar candidates
  rw [if_neg (fun h => hspc (Or.inl h)), if_neg (fun h => hspc (Or.inr h))]
  rfl

/-! ## The requests -/

theorem createDescriptor_resType (h : ext.requested i = true) :
    ∃ d, createDescriptor ext i = some d ∧ d.resType = some i := by
  have htype : (ext.res i).type = i.barType := by
    refine (ext.typed i).resolve_left fun hunused => ?_
    unfold BrgExt.requested at h
    rw [hunused] at h
    simp at h
  unfold createDescriptor
  rw [if_pos h, htype]
  cases i <;> exact ⟨_, rfl, rfl⟩

theorem createRootResDsc_resType (ext : BrgExt) :
    (createRootResDsc ext).filterMap Descriptor.resType
      = ResType.all.filter ext.requested := by
  unfold createRootResDsc
  rw [List.filterMap_filterMap, ← List.filterMap_eq_filter]
  refine List.filterMap_congr fun i _ => ?_
  unfold Option.guard
  cases h : ext.requested i with
  | true =>
    obtain ⟨d, hd, htype⟩ := createDescriptor_resType h
    dsimp only
    rw [hd, if_pos h]
    exact htype
  | false =>
    have hno : ¬ ext.requested i = true := by simp [h]
    unfold createDescriptor
    rw [if_neg hno, if_neg hno]
    rfl

theorem ResType.mem_all (i : ResType) : i ∈ ResType.all := by
  cases i <;> decide

theorem Grants.mem_iff (h : Grants ext ds) :
    (∃ d ∈ ds, d.resType = some i) ↔ ext.requested i = true := by
  rw [← List.mem_filterMap, h.perm.mem_iff, createRootResDsc_resType, List.mem_filter]
  exact ⟨And.right, fun hi => ⟨ResType.mem_all i, hi⟩⟩

theorem Grants.nodup (h : Grants ext ds) : (ds.filterMap Descriptor.resType).Nodup := by
  rw [h.perm.nodup_iff, createRootResDsc_resType]
  exact List.Nodup.filter _ (by decide)

variable {front rest : List Descriptor}

/-- A window is granted once. -/
theorem Grants.unique (h : Grants ext ds) (hds : ds = front ++ d :: rest)
    (hd : d.resType = some i) : ∀ d' ∈ front, d'.resType ≠ some i := by
  intro d' hd' heq
  have hnodup := h.nodup
  rw [hds, List.filterMap_append, List.filterMap_cons, hd] at hnodup
  exact List.disjoint_of_nodup_append hnodup (List.mem_filterMap.mpr ⟨d', hd', heq⟩) (by simp)

/-! ## The bases -/

theorem requestLength_applyDescriptor (ext : BrgExt) (d : Descriptor) (spc : Nat) (i : ResType) :
    (applyDescriptor ext d).requestLength spc i = ext.requestLength spc i
      ∧ ((applyDescriptor ext d).res i).length = (ext.res i).length := by
  unfold applyDescriptor
  cases findBar ext d with
  | none => exact ⟨rfl, rfl⟩
  | some j =>
    have hlength : ((ext.setBase j d.min).res i).length = (ext.res i).length := by
      unfold BrgExt.setBase
      dsimp only
      split <;> rfl
    unfold BrgExt.requestLength
    dsimp only
    rw [hlength]
    exact ⟨rfl, rfl⟩

theorem requestLength_apply (spc : Nat) (i : ResType) : ∀ (ds : List Descriptor) (ext : BrgExt),
    (applyAcpiResources ext ds).requestLength spc i = ext.requestLength spc i
      ∧ ((applyAcpiResources ext ds).res i).length = (ext.res i).length
  | [], _ => ⟨rfl, rfl⟩
  | d :: ds, ext => by
    obtain ⟨h1, h2⟩ := requestLength_apply spc i ds (applyDescriptor ext d)
    obtain ⟨h3, h4⟩ := requestLength_applyDescriptor ext d spc i
    exact ⟨h1.trans h3, h2.trans h4⟩

/-- A bar keeps its base as long as no descriptor is used for it. -/
theorem base_kept : ∀ (ds : List Descriptor) (ext : BrgExt), some i ∉ uses ext ds →
    ((applyAcpiResources ext ds).res i).base = (ext.res i).base
  | [], _, _ => rfl
  | d :: ds, ext, h => by
    unfold uses at h
    rw [List.mem_cons, not_or] at h
    have hrest := base_kept ds (applyDescriptor ext d) h.2
    unfold applyAcpiResources
    rw [hrest]
    unfold applyDescriptor
    cases hbar : findBar ext d with
    | none => rfl
    | some j =>
      have hne : i ≠ j := fun he => h.1 (by rw [hbar, he])
      unfold BrgExt.setBase
      dsimp only
      rw [if_neg hne]

theorem uses_length : ∀ (ext : BrgExt) (ds : List Descriptor), (uses ext ds).length = ds.length
  | _, [] => rfl
  | ext, d :: ds => by rw [uses, List.length_cons, uses_length, List.length_cons]

theorem uses_append (front rest : List Descriptor) : ∀ ext,
    uses ext (front ++ rest) = uses ext front ++ uses (applyAcpiResources ext front) rest := by
  induction front with
  | nil => exact fun _ => rfl
  | cons d front ih =>
    intro ext
    unfold applyAcpiResources
    rw [List.cons_append, uses, uses, ih, List.cons_append]

theorem apply_append (front rest : List Descriptor) : ∀ ext,
    applyAcpiResources ext (front ++ rest)
      = applyAcpiResources (applyAcpiResources ext front) rest := by
  induction front with
  | nil => exact fun _ => rfl
  | cons d front ih =>
    intro ext
    rw [List.cons_append, applyAcpiResources, applyAcpiResources, ih]

/-- The base is that of the window, when each descriptor is used for its own request and
none for the same. -/
theorem base_of_uses (huses : uses ext ds = ds.map Descriptor.resType)
    (hds : ds = front ++ d :: rest) (hd : d.resType = some i)
    (hrest : ∀ d' ∈ rest, d'.resType ≠ some i) :
    ((applyAcpiResources ext ds).res i).base = d.min := by
  subst hds
  rw [uses_append, List.map_append, uses, List.map_cons] at huses
  obtain ⟨-, hcons⟩ := List.append_inj huses (by rw [uses_length, List.length_map])
  obtain ⟨hbar, hrest'⟩ := List.cons.inj hcons
  have hnot : some i ∉ uses (applyDescriptor (applyAcpiResources ext front) d) rest := by
    rw [hrest']
    intro hmem
    obtain ⟨d', hd', heq⟩ := List.mem_map.mp hmem
    exact hrest d' hd' heq
  rw [apply_append, applyAcpiResources, base_kept _ _ hnot]
  unfold applyDescriptor
  rw [hbar, hd]
  unfold BrgExt.setBase
  exact congrArg Bar.base (if_pos rfl)

/-- The base of a bar after some descriptors, each of them used for its own request. -/
theorem base_cases (hds : Grants ext ds) (hsplit : ds = front ++ rest)
    (huses : uses ext front = front.map Descriptor.resType) (i : ResType) :
    (∃ d ∈ front, d.resType = some i
      ∧ ((applyAcpiResources ext front).res i).base = d.min) ∨
    ((∀ d ∈ front, d.resType ≠ some i)
      ∧ ((applyAcpiResources ext front).res i).base = (ext.res i).base) := by
  by_cases hmem : some i ∈ front.map Descriptor.resType
  · obtain ⟨d, hd, htype⟩ := List.mem_map.mp hmem
    obtain ⟨before, after, rfl⟩ := List.append_of_mem hd
    refine Or.inl ⟨d, hd, htype, base_of_uses huses rfl htype fun d' hd' htype' => ?_⟩
    obtain ⟨between, after', rfl⟩ := List.append_of_mem hd'
    have hsplit' : ds = (before ++ d :: between) ++ d' :: (after' ++ rest) := by
      rw [hsplit]
      simp
    exact hds.unique hsplit' htype' d (by simp) htype
  · refine Or.inr ⟨fun d hd htype => hmem (List.mem_map.mpr ⟨d, hd, htype⟩), base_kept _ _ ?_⟩
    rw [huses]
    exact hmem

/-! ## The matching -/

/-- One descriptor, after those in front of it have been used for their own requests. -/
theorem findBar_iff (hds : Grants ext ds)
    (hsplit : ds = front ++ d :: rest)
    (huses : uses ext front = front.map Descriptor.resType) (hd : d.resType = some i)
    (hfree : ∀ d' ∈ front, ∀ j, d'.resType = some j → (ext.res j).base = 0) :
    findBar (applyAcpiResources ext front) d = some i ↔
      (ext.res i).base = 0 ∧ ext.requestLength d.type i ≤ d.len ∧
      ∀ j ∈ candidates d.type, j.index < i.index → (ext.res j).base = 0 → (ext.res j).length ≠ 0 →
        ext.requestLength d.type j ≤ d.len → ∃ d' ∈ front, d'.resType = some j ∧ d'.min ≠ 0 := by
  have hmem : d ∈ ds := hsplit ▸ List.mem_append_right _ (List.mem_cons_self ..)
  have hlength : (ext.res i).length ≠ 0 := by
    have hreq := hds.mem_iff.mp ⟨d, hmem, hd⟩
    unfold BrgExt.requested at hreq
    simp only [Bool.and_eq_true, decide_eq_true_eq] at hreq
    exact hreq.2
  have hbase : ((applyAcpiResources ext front).res i).base = (ext.res i).base := by
    rcases base_cases hds hsplit huses i with ⟨d', hd', htype, -⟩ | ⟨-, h⟩
    · exact absurd htype (hds.unique hsplit hd d' hd')
    · exact h
  rw [findBar_eq_some, fits_iff, hbase, (requestLength_apply _ _ _ _).1,
    (requestLength_apply 0 i front ext).2]
  constructor
  · rintro ⟨-, ⟨h1, -, h3⟩, hfirst⟩
    refine ⟨h1, h3, fun j hj hlt hzero hlen hle => ?_⟩
    have hnot := hfirst j hj hlt
    rw [← Bool.not_eq_true, fits_iff, (requestLength_apply _ _ _ _).1,
      (requestLength_apply 0 j front ext).2] at hnot
    rcases base_cases hds hsplit huses j with ⟨d', hd', htype, hb⟩ | ⟨-, hb⟩
    · exact ⟨d', hd', htype, fun hmin => hnot ⟨hb.trans hmin, hlen, hle⟩⟩
    · exact absurd ⟨hb.trans hzero, hlen, hle⟩ hnot
  · rintro ⟨h1, h3, hfirst⟩
    refine ⟨mem_candidates hd, ⟨h1, hlength, h3⟩, fun j hj hlt => ?_⟩
    rw [← Bool.not_eq_true, fits_iff, (requestLength_apply _ _ _ _).1,
      (requestLength_apply 0 j front ext).2]
    rintro ⟨hzero, hlen, hle⟩
    rcases base_cases hds hsplit huses j with ⟨d', hd', htype, hb⟩ | ⟨hnone, hb⟩
    · obtain ⟨d'', hd'', htype', hmin⟩ := hfirst j hj hlt (hfree d' hd' j htype) hlen hle
      obtain rfl : d'' = d' := by
        obtain ⟨before, after, rfl⟩ := List.append_of_mem hd'
        rcases List.mem_append.mp hd'' with h | h
        · exact absurd htype' (hds.unique (show ds = before ++ d' :: (after ++ d :: rest) by
            rw [hsplit]
            simp) htype d'' h)
        · rcases List.mem_cons.mp h with h | h
          · exact h
          · obtain ⟨between, after', rfl⟩ := List.append_of_mem h
            exact absurd htype (hds.unique (show ds = (before ++ d' :: between) ++ d'' ::
              (after' ++ d :: rest) by rw [hsplit]; simp) htype' d' (by simp))
      exact hmin (hb.symm.trans hzero)
    · obtain ⟨d'', hd'', htype', -⟩ := hfirst j hj hlt (hb.symm.trans hzero) hlen hle
      exact hnone d'' hd'' htype'

theorem matching_of_uses (hds : Grants ext ds) (huses : uses ext ds = ds.map Descriptor.resType) :
    Matching ext ds := by
  -- by induction on what stands in front of the descriptor
  have hstep : ∀ n front d rest i, front.length = n → ds = front ++ d :: rest →
      d.resType = some i → uses ext front = front.map Descriptor.resType
        ∧ findBar (applyAcpiResources ext front) d = some i := by
    intro n front d rest i _ hsplit hd
    rw [hsplit, uses_append, List.map_append, uses, List.map_cons] at huses
    obtain ⟨hfront, hcons⟩ := List.append_inj huses (by rw [uses_length, List.length_map])
    exact ⟨hfront, (List.cons.inj hcons).1.trans hd⟩
  have hfree : ∀ front d rest i, ds = front ++ d :: rest → d.resType = some i →
      (ext.res i).base = 0 := by
    intro front d rest i hsplit hd
    obtain ⟨hfront, hbar⟩ := hstep _ front d rest i rfl hsplit hd
    have hbase : ((applyAcpiResources ext front).res i).base = 0 :=
      (fits_iff.mp (findBar_eq_some.mp hbar).2.1).1
    rcases base_cases hds hsplit hfront i with ⟨d', hd', htype, -⟩ | ⟨-, h⟩
    · exact absurd htype (hds.unique hsplit hd d' hd')
    · exact h.symm.trans hbase
  intro front d rest i hsplit hd
  obtain ⟨hfront, hbar⟩ := hstep _ front d rest i rfl hsplit hd
  refine (findBar_iff hds hsplit hfront hd fun d' hd' j htype => ?_).mp hbar
  obtain ⟨before, after, rfl⟩ := List.append_of_mem hd'
  exact hfree before d' (after ++ d :: rest) j (by rw [hsplit]; simp) htype

theorem uses_of_matching (hds : Grants ext ds) (h : Matching ext ds) :
    ∀ front rest, ds = front ++ rest → uses ext front = front.map Descriptor.resType := by
  intro front
  induction front using List.reverseRecOn with
  | nil => exact fun _ _ => rfl
  | append_singleton front d ih =>
    intro rest hsplit
    rw [List.append_assoc, List.singleton_append] at hsplit
    have hfront := ih (d :: rest) hsplit
    rw [uses_append, hfront, List.map_append, uses, uses, List.map_cons, List.map_nil]
    congr 2
    cases hd : d.resType with
    | none => exact findBar_none hds (hsplit ▸ by simp) hd _
    | some i =>
      refine (findBar_iff hds hsplit hfront hd fun d' hd' j htype => ?_).mpr
        (h front d rest i hsplit hd)
      obtain ⟨before, after, rfl⟩ := List.append_of_mem hd'
      exact (h before d' (after ++ d :: rest) j (by rw [hsplit]; simp) htype).1

/-- Every window reaches its own request if and only if no other bar takes it. -/
theorem applied_iff (hds : Grants ext ds) : Applied ext ds ↔ Matching ext ds := by
  constructor
  · exact fun h => matching_of_uses hds h.uses
  · intro h
    have huses := uses_of_matching hds h ds [] (List.append_nil ds).symm
    refine ⟨huses, fun i hi => ?_⟩
    obtain ⟨d, hd, htype⟩ := hds.mem_iff.mpr hi
    rcases base_cases hds (List.append_nil ds).symm huses i with ⟨d', hd', htype', hb⟩ | ⟨hnone, -⟩
    · exact ⟨d', hd', htype', hb⟩
    · exact absurd htype (hnone d hd)

/-! ## Two requests of memory -/

/-- A request of 4 KiB of memory below 4 GiB, and of as much above. -/
def twoRequests : BrgExt where
  res i := if i = .mmio32 then ⟨.mmio32, 0, 0x1000, 0xFFF⟩
    else if i = .mmio64 then ⟨.mmio64, 0, 0x1000, 0xFFF⟩ else ⟨.unused, 0, 0, 0⟩
  extraRes _ := 0
  typed i := by cases i <;> decide

def lowWindow : Descriptor :=
  { type := spcTypeMem, rw := 1, gra := 32, min := 0x80000000, len := 0x1000 }

def highWindow : Descriptor :=
  { type := spcTypeMem, rw := 1, gra := 64, min := 0x100000000, len := 0x1000 }

theorem grants_inOrder : Grants twoRequests [lowWindow, highWindow] where
  known := by decide
  perm := by decide

theorem applied_inOrder :
    Applied twoRequests [lowWindow, highWindow] ↔ Matching twoRequests [lowWindow, highWindow] :=
  applied_iff grants_inOrder

/-- In the other order each window goes to the other request. -/
theorem not_applied : ¬ ∀ (ext : BrgExt) (ds : List Descriptor), Grants ext ds → Applied ext ds := by
  intro h
  have happlied := h twoRequests [highWindow, lowWindow] ⟨by decide, by decide⟩
  obtain ⟨d, hd, htype, hbase⟩ := happlied.base .mmio32 (by decide)
  have hswapped : ((applyAcpiResources twoRequests [highWindow, lowWindow]).res .mmio32).base
      = 0x100000000 := by decide
  rw [hswapped] at hbase
  rcases List.mem_cons.mp hd with rfl | hd
  · exact absurd htype (by decide)
  · rw [List.mem_singleton.mp hd] at hbase
    exact absurd hbase (by decide)

end BayTrail.Pci
