import BayTrail.Compat.ItemList

/-!
# T_ITEM_LIST is a sequence

As long as there is a slot where the code takes one to be, and what is copied is not longer than a pointer.
`Sound` says that the items fit in the array of the list; every call that meets its condition keeps it
and does to the contents what it does to a list (`step_meets`), and so does every run.
-/

namespace BayTrail.Compat

open BayTrail.Lib

/-! ## The array of a list -/

/-- There are as many slots as the counts say: a copy may have fewer than its initial count. -/
structure Sound (l : ItemList) : Prop where
  none : l.items = none → l.itemCount = 0
  some : ∀ a, l.items = some a → l.itemCount ≤ a.length ∧ a.length ≤ l.initialCount ∧ l.initialCount * pointerSize ≤ maxAlloc

theorem Sound.le {l : ItemList} (h : Sound l) : l.itemCount ≤ l.slots.length := by
  cases hitems : l.items with
  | none => simp [h.none hitems]
  | some a =>
    have := (h.some a hitems).1
    simpa [ItemList.slots, hitems] using this

theorem Sound.length_contents {l : ItemList} (h : Sound l) : l.contents.length = l.itemCount := by
  rw [ItemList.contents, List.length_take, Nat.min_eq_left h.le]

variable {a : List Nat} {n i : Nat} {s : Lists}

theorem Sound.of_some {l : ItemList} (hitems : l.items = Option.some a) (hcount : l.itemCount ≤ a.length)
    (hinitial : a.length ≤ l.initialCount) (halloc : l.initialCount * pointerSize ≤ maxAlloc) : Sound l :=
  ⟨fun h => absurd (h.symm.trans hitems) nofun, fun b h => by
    obtain rfl := Option.some.inj (hitems.symm.trans h)
    exact ⟨hcount, hinitial, halloc⟩⟩

theorem slots_of_some {l : ItemList} (h : l.items = some a) : l.slots = a := by rw [ItemList.slots, h, Option.getD_some]

theorem toIntn_of_le (h : n ≤ maxAlloc) : toIntn n = n := if_pos (Nat.lt_of_le_of_lt h (by decide))

/-- A new array: of this many slots, with the items in front. -/
theorem reallocItemLst_new {avail : Nat → Bool} {l : ItemList} (hsize : reallocSize l = n * pointerSize) (hn : l.itemCount < n)
    (hle : l.itemCount ≤ l.slots.length) :
    reallocItemLst avail l = some (.outOfResources, l) ∨
      ∃ l', reallocItemLst avail l = some (.success, l') ∧ l'.itemCount = l.itemCount ∧ l'.contents = l.contents ∧ Sound l'
        ∧ l.itemCount < l'.slots.length := by
  have hdiv : n * pointerSize / pointerSize = n := Nat.mul_div_cancel n (by decide)
  have hne : n * pointerSize ≠ 0 := by simp only [pointerSize]; omega
  rw [reallocItemLst, hsize]
  simp only [hdiv, if_neg hne]
  by_cases hmalloc : mallocZ avail 0 (n * pointerSize) = true
  · right
    have halloc : n * pointerSize ≤ maxAlloc := by
      rw [mallocZ, Bool.and_eq_true, decide_eq_true_eq] at hmalloc
      exact hmalloc.2
    rw [hmalloc, if_neg (by decide), if_neg (by omega)]
    have hlen : (l.slots.take l.itemCount ++ List.replicate (n - l.itemCount) 0).length = n := by
      rw [List.length_append, List.length_take, List.length_replicate]
      omega
    have hsound : Sound { l with
        items := some (l.slots.take l.itemCount ++ List.replicate (n - l.itemCount) 0), initialCount := n } :=
      Sound.of_some rfl (Nat.le_trans (Nat.le_of_lt hn) (Nat.le_of_eq hlen.symm)) (Nat.le_of_eq hlen) halloc
    refine ⟨_, rfl, rfl, ?_, hsound, ?_⟩
    · show (l.slots.take l.itemCount ++ _).take l.itemCount = l.slots.take l.itemCount
      rw [List.take_append_of_le_length (by rw [List.length_take]; omega), List.take_take, Nat.min_self]
    · show l.itemCount < (l.slots.take l.itemCount ++ _).length
      rw [hlen]
      exact hn
  · left
    rw [Bool.not_eq_true] at hmalloc
    rw [hmalloc]
    rfl

/-- Where there is room, there is a slot behind the items then. -/
theorem reallocItemLst_spec (avail : Nat → Bool) {l : ItemList} (h : Sound l) (hroom : HasRoom l) :
    reallocItemLst avail l = some (.outOfResources, l) ∨
      ∃ l', reallocItemLst avail l = some (.success, l') ∧ l'.itemCount = l.itemCount ∧ l'.contents = l.contents ∧ Sound l'
        ∧ l.itemCount < l'.slots.length := by
  cases hitems : l.items with
  | none =>
    have hcount := h.none hitems
    by_cases hzero : l.initialCount = 0
    · exact reallocItemLst_new (n := lstInitCount) (if_pos hzero) (by rw [hcount]; decide) h.le
    · -- the size wraps, but not to zero
      simp only [HasRoom, hitems] at hroom
      have hmod := hroom.resolve_left hzero
      refine reallocItemLst_new (n := l.initialCount % 2 ^ 61) ?_ (by omega) h.le
      rw [reallocSize, if_neg hzero, if_pos (by rw [hitems]; rfl)]
      simp only [pointerSize]
      omega
  | some a =>
    obtain ⟨hcount, hinitial, halloc⟩ := h.some a hitems
    simp only [HasRoom, hitems] at hroom
    simp only [pointerSize, maxAlloc] at halloc
    by_cases hzero : l.initialCount = 0
    · exact reallocItemLst_new (n := lstInitCount) (if_pos hzero) (by rw [show l.itemCount = 0 by omega]; decide) h.le
    · have hsize : reallocSize l = if l.initialCount - 1 < l.itemCount then (l.initialCount + lstInitCount) * pointerSize else 0 := by
        rw [reallocSize, if_neg hzero, if_neg (by rw [hitems]; exact Bool.false_ne_true), toIntn_of_le (by simp only [maxAlloc]; omega),
          toIntn_of_le (by simp only [maxAlloc]; omega)]
        by_cases hfull : l.initialCount - 1 < l.itemCount
        · rw [if_pos hfull, if_pos (by omega)]
          exact Nat.mod_eq_of_lt (by simp only [lstInitCount, pointerSize]; omega)
        · rw [if_neg hfull, if_neg (by omega)]
      by_cases hfull : l.initialCount - 1 < l.itemCount
      · rw [if_pos hfull] at hsize
        exact reallocItemLst_new hsize (by simp only [lstInitCount]; omega) h.le
      · rw [if_neg hfull] at hsize
        refine Or.inr ⟨l, ?_, rfl, rfl, h, ?_⟩
        · rw [reallocItemLst]
          simp only [hsize, if_true]
        · rw [slots_of_some hitems]
          omega

/-! ## One call -/

section calls

variable {avail : Nat → Bool} {l : ItemList} {pRes itemIndex : Nat}

/-- An item more, in an array with that many slots. -/
theorem Sound.grow (h : Sound l) (hlt : l.itemCount < l.slots.length) {items : List Nat} (hlen : items.length = l.slots.length) :
    Sound { l with items := Option.some items, itemCount := l.itemCount + 1 } := by
  cases hitems : l.items with
  | none =>
    simp only [ItemList.slots, hitems, Option.getD_none, List.length_nil] at hlt
    omega
  | some a =>
    obtain ⟨-, hinitial, halloc⟩ := h.some a hitems
    rw [slots_of_some hitems] at hlen hlt
    have hcount : l.itemCount + 1 ≤ items.length := by omega
    have hle : items.length ≤ l.initialCount := by omega
    exact Sound.of_some rfl hcount hle halloc

variable (avail) in
theorem appendItemLst_spec (h : Sound l) (hroom : HasRoom l) (pRes : Nat) :
    appendItemLst avail l pRes = some (.outOfResources, l) ∨
      ∃ l', appendItemLst avail l pRes = some (.success, l') ∧ l'.contents = l.contents ++ [pRes] ∧ Sound l' := by
  rcases reallocItemLst_spec avail h hroom with hr | ⟨r, hr, hcount, hcontents, hsound, hlt⟩
  · left
    simp only [appendItemLst, hr, Option.bind_eq_bind, Option.bind_some]
    rfl
  · right
    rw [← hcount] at hlt
    refine ⟨{ r with items := some (r.slots.set r.itemCount pRes), itemCount := r.itemCount + 1 }, ?_, ?_,
      hsound.grow hlt List.length_set⟩
    · simp only [appendItemLst, hr, Option.bind_eq_bind, Option.bind_some, setAt_of_lt hlt]
      rfl
    · show (r.slots.set r.itemCount pRes).take (r.itemCount + 1) = l.contents ++ [pRes]
      rw [List.take_add_one, List.getElem?_set_self hlt, List.take_set_of_le (Nat.le_refl _), ← hcontents]
      rfl

theorem insertItemLst_invalid (hcount : l.itemCount = 0) (hindex : 0 < itemIndex) :
    insertItemLst avail l pRes itemIndex = some (.invalidParameter, l) := by
  rw [insertItemLst, if_pos ⟨hcount, by omega⟩]
  rfl

variable (avail) in
theorem insertItemLst_spec (h : Sound l) (hroom : HasRoom l) (hindex : itemIndex ≤ l.itemCount) (pRes : Nat) :
    insertItemLst avail l pRes itemIndex = some (.outOfResources, l) ∨
      ∃ l', insertItemLst avail l pRes itemIndex = some (.success, l') ∧ l'.contents = l.contents.insertIdx itemIndex pRes ∧ Sound l' := by
  have hvalid : ¬ (l.itemCount = 0 ∧ l.itemCount < itemIndex) := by omega
  rcases reallocItemLst_spec avail h hroom with hr | ⟨r, hr, hcount, hcontents, hsound, hlt⟩
  · left
    simp only [insertItemLst, if_neg hvalid, hr, Option.bind_eq_bind, Option.bind_some]
    rfl
  · right
    rw [← hcount] at hlt hindex
    obtain ⟨items, hshift, hlen, htake⟩ := exists_shiftUp_insert hindex hlt pRes
    have hintn : 0 ≤ toIntn itemIndex := by
      rw [toIntn]
      split
      · omega
      · -- the index is in the array, and that is in the memory
        cases hitems : r.items with
        | none =>
          have := hsound.none hitems
          omega
        | some a =>
          obtain ⟨hle, hinitial, halloc⟩ := hsound.some a hitems
          simp only [pointerSize, maxAlloc] at halloc
          omega
    refine ⟨{ r with items := some (items.set itemIndex pRes), itemCount := r.itemCount + 1 }, ?_, ?_,
      hsound.grow hlt (by rw [List.length_set, hlen])⟩
    · have hset : setAt items itemIndex pRes = some (items.set itemIndex pRes) := setAt_of_lt (by omega) pRes
      simp only [insertItemLst, if_neg hvalid, hr, Option.bind_eq_bind, Option.bind_some, shiftItems, if_pos hintn, hshift, hset]
      rfl
    · rw [← hcontents]
      exact htake

theorem deleteItemLst_invalid {h : Heap} {freeData : Bool} (hindex : l.itemCount ≤ itemIndex) :
    deleteItemLst h l itemIndex freeData = some (.invalidParameter, l, h) := by
  rw [deleteItemLst, if_pos (Or.inr hindex)]
  rfl

theorem deleteItemLst_spec (hs : Sound l) (hindex : itemIndex < l.itemCount) (h : Heap) (freeData : Bool) :
    ∃ l' h', deleteItemLst h l itemIndex freeData = some (.success, l', h') ∧ l'.contents = l.contents.eraseIdx itemIndex ∧ Sound l' := by
  have hle := hs.le
  obtain ⟨items, hshift, hlen, htake⟩ := exists_shiftDown_erase hindex hle
  have hitem := List.getElem?_eq_getElem (show itemIndex < l.slots.length by omega)
  refine ⟨{ l with items := some items, itemCount := l.itemCount - 1 }, if freeData then h.free l.slots[itemIndex] else h, ?_, htake, ?_⟩
  · simp only [deleteItemLst, if_neg (show ¬ (l.itemCount = 0 ∨ l.itemCount ≤ itemIndex) by omega), hitem, hshift,
      Option.bind_eq_bind, Option.bind_some]
    rfl
  · cases hitems : l.items with
    | none =>
      have := hs.none hitems
      omega
    | some a =>
      obtain ⟨hcount, hinitial, halloc⟩ := hs.some a hitems
      rw [slots_of_some hitems] at hlen
      have hle : l.itemCount - 1 ≤ items.length := by omega
      have hmax : items.length ≤ l.initialCount := by omega
      exact Sound.of_some rfl hle hmax halloc

theorem clearItemLst_spec (hs : Sound l) (h : Heap) (freeData : Bool) :
    ∃ l' h', clearItemLst h l freeData = some (l', h') ∧ l'.contents = [] ∧ Sound l' := by
  have hle := hs.le
  rw [clearItemLst, if_neg (by omega)]
  exact ⟨_, _, rfl, rfl, fun _ => rfl, nofun⟩

end calls

/-! ## Copies -/

section copies

variable {beyond : Nat → Nat → UInt8} {avail : Nat → Bool}
variable {p : Nat} {b : List UInt8} {h : Heap}

theorem Heap.block_alloc (h : Heap) (bytes : List UInt8) (hp : h.block p = some b) :
    (h.alloc bytes).block p = some b := by
  have hne : p ≠ h.next := by
    rintro rfl
    rw [h.fresh _ (Nat.le_refl _)] at hp
    cases hp
  exact (if_neg hne).trans hp

/-- A block that is read as far as a pointer is long. -/
theorem readItem_prefix (hp : h.block p = some b) (hb : b.length ≤ pointerSize) :
    b <+: readItem beyond h p := by
  rw [List.prefix_iff_getElem?]
  intro i hi
  rw [readItem, hp, Option.getD_some, List.getElem?_map, List.getElem?_range (by omega), Option.map_some,
    List.getElem?_eq_getElem hi, Option.getD_some]

/-- `h` has all blocks of `h0`. -/
def Heap.Keeps (h0 h : Heap) : Prop := ∀ p b, h0.block p = some b → h.block p = some b

variable (beyond) in
/-- All blocks stay, and each item has one that begins like its own: those are as they have been at first. -/
theorem copyItems_spec {h0 : Heap} {k : Nat} {ps : List Nat} (hps : CanCopy avail h0 k ps) (hkeep : h0.Keeps h) :
    ∃ ps' h', copyItems beyond avail k h ps = (.success, ps', h') ∧ h.Keeps h' ∧ List.Forall₂ (SameData h0 h') ps ps' := by
  induction ps generalizing k h with
  | nil => exact ⟨[], h, rfl, fun _ _ hp => hp, .nil⟩
  | cons p ps ih =>
    have hrest : CanCopy avail h0 (k + 1) ps := by
      intro i q hq hne
      rw [Nat.add_right_comm, Nat.add_assoc]
      exact hps (i + 1) q hq hne
    by_cases hzero : p = 0
    · obtain ⟨ps', h', hrun, hkeep', hsame⟩ := ih hrest hkeep
      refine ⟨0 :: ps', h', ?_, hkeep', .cons (Or.inl ⟨hzero, rfl⟩) hsame⟩
      rw [copyItems, if_pos hzero, hrun]
    · obtain ⟨havail, b, hb, hle⟩ := hps 0 p rfl hzero
      have halloc : mallocZ avail k pointerSize = true := by
        rw [mallocZ, show avail k = true from havail]
        rfl
      have hnext : h0.Keeps (h.alloc (readItem beyond h p)) := fun q b hq => h.block_alloc _ (hkeep q b hq)
      obtain ⟨ps', h', hrun, hkeep', hsame⟩ := ih hrest hnext
      refine ⟨h.next :: ps', h', ?_, fun q b hq => hkeep' q b (h.block_alloc _ hq), .cons ?_ hsame⟩
      · rw [copyItems, if_neg hzero, if_pos halloc, hrun]
      · have hnew : (h.alloc (readItem beyond h p)).block h.next = some (readItem beyond h p) := if_pos rfl
        exact Or.inr ⟨hzero, Nat.ne_of_gt h.next_pos, b, _, hb, hkeep' _ _ hnew, readItem_prefix (hkeep p b hb) hle⟩

variable (beyond) in
theorem copyItemLst_spec (havail : avail 0 = true) {l : ItemList} (hs : Sound l)
    (hcopy : l.itemCount = 0 ∨ (avail 1 = true ∧ CanCopy avail h 2 l.contents)) :
    ∃ l' h', copyItemLst beyond avail h l = some (.success, some l', h') ∧ Sound l' ∧ List.Forall₂ (SameData h h') l.contents l'.contents := by
  have hlist : mallocZ avail 0 itemListSize = true := by
    rw [mallocZ, havail]
    rfl
  by_cases hzero : l.itemCount = 0
  · refine ⟨{ initialCount := l.initialCount, itemCount := l.itemCount, items := none }, h, ?_, ⟨fun _ => hzero, nofun⟩, ?_⟩
    · simp only [copyItemLst, hlist, if_pos hzero]
      rfl
    · simp only [ItemList.contents, hzero, List.take_zero]
      exact .nil
  · obtain ⟨havail1, hcan⟩ := hcopy.resolve_left hzero
    cases hitems : l.items with
    | none => exact absurd (hs.none hitems) hzero
    | some a =>
      obtain ⟨hcount, hinitial, halloc⟩ := hs.some a hitems
      have hslots := slots_of_some hitems
      simp only [pointerSize, maxAlloc] at halloc
      -- the size of the new array does not wrap
      have hsize : l.itemCount * pointerSize % 2 ^ 64 = l.itemCount * pointerSize :=
        Nat.mod_eq_of_lt (by simp only [pointerSize]; omega)
      have harray : mallocZ avail 1 (l.itemCount * pointerSize) = true := by
        rw [mallocZ, havail1, Bool.true_and, decide_eq_true_eq]
        simp only [pointerSize, maxAlloc]
        omega
      have hbound : ¬ (l.slots.length < l.itemCount ∨ l.itemCount * pointerSize / pointerSize < l.itemCount) := by
        rw [Nat.mul_div_cancel _ (by decide), hslots]
        omega
      obtain ⟨ps', h', hrun, -, hsame⟩ := copyItems_spec beyond hcan fun _ _ hb => hb
      have hlen : ps'.length = l.itemCount := by rw [← hsame.length_eq, hs.length_contents]
      refine ⟨{ initialCount := l.initialCount, itemCount := l.itemCount, items := some ps' }, h', ?_, ?_, ?_⟩
      · simp only [ItemList.contents] at hrun
        simp only [copyItemLst, hlist, hsize, harray, if_neg hzero, if_neg hbound, hrun]
        rfl
      · exact Sound.of_some rfl (Nat.le_of_eq hlen.symm) (by rw [hlen]; exact Nat.le_trans hcount hinitial)
          (by simp only [pointerSize, maxAlloc]; exact halloc)
      · have hall : ItemList.contents { initialCount := l.initialCount, itemCount := l.itemCount, items := some ps' } = ps' :=
          List.take_of_length_le (Nat.le_of_eq hlen)
        rw [hall]
        exact hsame

theorem copyItemLst_outOfResources (havail : avail 0 = false) (h : Heap) (l : ItemList) :
    copyItemLst beyond avail h l = some (.outOfResources, none, h) := by
  simp only [copyItemLst, mallocZ, havail]
  rfl

end copies

/-! ## Runs -/

def AllSound (s : Lists) : Prop := ∀ l ∈ s.lists, Sound l

theorem AllSound.bounded (h : AllSound s) : Bounded s := fun l hl => (h l hl).le

theorem AllSound.initial (h : Heap) (counts : List Nat) : AllSound (Lists.initial h counts) := by
  intro l hl
  obtain ⟨n, -, rfl⟩ := List.mem_map.mp hl
  exact ⟨fun _ => rfl, nofun⟩

/-- One list is another one then. -/
theorem AllSound.set (h : AllSound s) (i : Nat) {l : ItemList} (hl : Sound l) (heap : Heap) :
    AllSound { lists := s.lists.set i l, heap := heap } := fun _ hl' => (List.mem_or_eq_of_mem_set hl').elim (h _) fun heq => heq ▸ hl

theorem sequences_set (s : Lists) (i : Nat) (l : ItemList) (heap : Heap) :
    Lists.sequences { lists := s.lists.set i l, heap := heap } = s.sequences.set i l.contents := List.map_set

theorem getElem?_sequences {l : ItemList} (hl : s.lists[i]? = some l) : s.sequences[i]? = some l.contents := by
  rw [Lists.sequences, List.getElem?_map, hl, Option.map_some]

theorem set_self {l : ItemList} (hl : s.lists[i]? = some l) : s.lists.set i l = s.lists := by
  obtain ⟨hi, rfl⟩ := List.getElem?_eq_some_iff.mp hl
  exact List.set_getElem_self hi

/-- Every call that can be done right is. -/
theorem step_meets (beyond : Nat → Nat → UInt8) {c : Call} (hs : AllSound s) (hc : Holds s c) :
    ∃ status s', step beyond s c = some (status, s') ∧ Meets s c status s' ∧ AllSound s' := by
  obtain ⟨op, avail⟩ := c
  cases op with
  | append i pRes =>
    obtain ⟨l, hl, hroom⟩ := hc
    have hsound := hs l (List.mem_of_getElem? hl)
    rcases appendItemLst_spec avail hsound hroom pRes with hr | ⟨l', hr, hcontents, hl'⟩
    · refine ⟨.outOfResources, s, ?_, ⟨_, getElem?_sequences hl, Or.inr ⟨rfl, rfl⟩⟩, hs⟩
      simp only [step, hl, hr, Option.bind_eq_bind, Option.bind_some, set_self hl]
      rfl
    · refine ⟨.success, _, ?_, ⟨_, getElem?_sequences hl, Or.inl ⟨rfl, ?_⟩⟩, hs.set i hl' s.heap⟩
      · simp only [step, hl, hr, Option.bind_eq_bind, Option.bind_some]
        rfl
      · rw [sequences_set, hcontents]
  | insert i pRes itemIndex =>
    obtain ⟨l, hl, hc⟩ := hc
    have hsound := hs l (List.mem_of_getElem? hl)
    have hlen := hsound.length_contents
    rcases hc with ⟨hcount, hindex⟩ | ⟨hindex, hroom⟩
    · refine ⟨.invalidParameter, s, ?_, ⟨_, getElem?_sequences hl, ?_⟩, hs⟩
      · simp only [step, hl, insertItemLst_invalid hcount hindex, Option.bind_eq_bind, Option.bind_some, set_self hl]
        rfl
      · rw [if_neg (by omega)]
        exact ⟨rfl, rfl⟩
    · rcases insertItemLst_spec avail hsound hroom hindex pRes with hr | ⟨l', hr, hcontents, hl'⟩
      · refine ⟨.outOfResources, s, ?_, ⟨_, getElem?_sequences hl, ?_⟩, hs⟩
        · simp only [step, hl, hr, Option.bind_eq_bind, Option.bind_some, set_self hl]
          rfl
        · rw [if_pos (by omega)]
          exact Or.inr ⟨rfl, rfl⟩
      · refine ⟨.success, _, ?_, ⟨_, getElem?_sequences hl, ?_⟩, hs.set i hl' s.heap⟩
        · simp only [step, hl, hr, Option.bind_eq_bind, Option.bind_some]
          rfl
        · rw [if_pos (by omega), sequences_set, hcontents]
          exact Or.inl ⟨rfl, rfl⟩
  | delete i itemIndex freeData =>
    obtain ⟨l, hl⟩ := hc
    have hsound := hs l (List.mem_of_getElem? hl)
    have hlen := hsound.length_contents
    by_cases hindex : itemIndex < l.itemCount
    · obtain ⟨l', h', hr, hcontents, hl'⟩ := deleteItemLst_spec hsound hindex s.heap freeData
      refine ⟨.success, _, ?_, ⟨_, getElem?_sequences hl, ?_⟩, hs.set i hl' h'⟩
      · simp only [step, hl, hr, Option.bind_eq_bind, Option.bind_some]
        rfl
      · rw [if_pos (by omega), sequences_set, hcontents]
        exact ⟨rfl, rfl⟩
    · refine ⟨.invalidParameter, s, ?_, ⟨_, getElem?_sequences hl, ?_⟩, hs⟩
      · simp only [step, hl, deleteItemLst_invalid (Nat.le_of_not_lt hindex), Option.bind_eq_bind, Option.bind_some, set_self hl]
        rfl
      · rw [if_neg (by omega)]
        exact ⟨rfl, rfl⟩
  | copy i =>
    obtain ⟨l, hl, hc⟩ := hc
    have hsound := hs l (List.mem_of_getElem? hl)
    cases havail : avail 0 with
    | false =>
      refine ⟨.outOfResources, s, ?_, ⟨_, getElem?_sequences hl, Or.inr ⟨rfl, rfl⟩⟩, hs⟩
      simp only [step, hl, copyItemLst_outOfResources havail, Option.bind_eq_bind, Option.bind_some, Option.toList_none, List.append_nil]
      rfl
    | true =>
      have hcopy := hc.resolve_left fun h => Bool.false_ne_true (h.symm.trans havail)
      obtain ⟨l', h', hr, hl', hsame⟩ := copyItemLst_spec beyond havail hsound hcopy
      refine ⟨.success, { lists := s.lists ++ [l'], heap := h' }, ?_, ⟨_, getElem?_sequences hl, Or.inl ⟨rfl, l'.contents, ?_, hsame⟩⟩, ?_⟩
      · simp only [step, hl, hr, Option.bind_eq_bind, Option.bind_some]
        rfl
      · exact List.map_append
      · intro m hm
        rcases List.mem_append.mp hm with hm | hm
        · exact hs m hm
        · rw [List.mem_singleton.mp hm]
          exact hl'
  | clear i freeData =>
    obtain ⟨l, hl⟩ := hc
    have hsound := hs l (List.mem_of_getElem? hl)
    obtain ⟨l', h', hr, hcontents, hl'⟩ := clearItemLst_spec hsound s.heap freeData
    refine ⟨.success, _, ?_, ⟨rfl, ?_⟩, hs.set i hl' h'⟩
    · simp only [step, hl, hr, Option.bind_eq_bind, Option.bind_some]
      rfl
    · rw [sequences_set, hcontents]

theorem AllSound.correct {beyond : Nat → Nat → UInt8} {cs : List Call} (hs : AllSound s) (hcs : AllHold beyond s cs) :
    Correct beyond s cs := by
  induction cs generalizing s with
  | nil => exact hs.bounded
  | cons c cs ih =>
    obtain ⟨status, s', hstep, hmeets, hs'⟩ := step_meets beyond hs hcs.1
    exact ⟨hs.bounded, status, s', hstep, hmeets, ih hs' (hcs.2 status s' hstep)⟩

/-- In every run whose calls find room, know their items and copy none that is longer than a pointer, the lists are
sequences. -/
theorem itemLists_are_sequences (beyond : Nat → Nat → UInt8) (h : Heap) (counts : List Nat) (cs : List Call)
    (hcs : AllHold beyond (Lists.initial h counts) cs) : Correct beyond (Lists.initial h counts) cs :=
  (AllSound.initial h counts).correct hcs

/-- One block, at one. -/
def oneBlock (bytes : List UInt8) : Heap where
  block p := if p = 1 then some bytes else none
  next := 2
  fresh p hp := if_neg (by omega)
  next_pos := Nat.two_pos

/-- The block is appended, and the list is copied. -/
def copied : List Call := [⟨.append 0 1, fun _ => true⟩, ⟨.copy 0, fun _ => true⟩]

theorem itemLists_are_sequences_copied :
    AllHold (fun _ _ => 0) (Lists.initial (oneBlock [7]) [3]) copied ∧ Correct (fun _ _ => 0) (Lists.initial (oneBlock [7]) [3]) copied := by
  have hcs : AllHold (fun _ _ => 0) (Lists.initial (oneBlock [7]) [3]) copied := by
    refine ⟨⟨_, rfl, Or.inr (by decide)⟩, fun status s' hstep => ?_⟩
    cases hstep
    refine ⟨⟨_, rfl, Or.inr (Or.inr ⟨rfl, ?_⟩)⟩, fun _ _ _ => trivial⟩
    intro i p hp hne
    cases i with
    | zero =>
      cases hp
      exact ⟨rfl, [7], rfl, by decide⟩
    | succ i => cases hp
  exact ⟨hcs, itemLists_are_sequences _ _ _ _ hcs⟩

/-- The copy has a slot for each item, and the initial count of the original: the next item is behind the slots. -/
theorem not_itemLists_are_sequences :
    ¬ ∀ cs, Correct (fun _ _ => 0) (Lists.initial (oneBlock [7]) [0]) cs := by
  intro h
  obtain ⟨-, _, _, happend, -, h⟩ := h [⟨.append 0 0, fun _ => true⟩, ⟨.copy 0, fun _ => true⟩, ⟨.append 1 0, fun _ => true⟩]
  cases happend
  obtain ⟨-, _, _, hcopy, -, h⟩ := h
  cases hcopy
  obtain ⟨-, _, _, happend, -⟩ := h
  cases happend

end BayTrail.Compat
