import BayTrail.Bds.Option
import BayTrail.Bds.SortLinks

/-!
# SortList and the number of its merges

`SortList` goes over the list with runs of doubling length until a pass has made at most one merge
(`sortList_passes`). `NoMerges`, which counts them, has 32 bits, the other counters have 64: the sort is right for
every length for which no pass has a number of merges that is more than one, but not in 32 bits
(`sortsAll_of_counts`), and no list that the memory can hold comes near one (`sortList_sorts`). The comparisons of
boot options are total orders.
-/

namespace BayTrail.Bds.DList

open BayTrail.Lib

/-- Every list of so many nodes is sorted, with its links, in every order. -/
def SortsAll (n : Nat) : Prop :=
  ∀ (ν : Type) [DecidableEq ν] (compare : ν → ν → Int) (h : Links ν) (d : ListEnds ν) (l : List ν),
    l.length = n → Linked h d l → TotalOrder (before compare) →
    ∃ h' d' l', (sortList compare h d).Returns (h', d') ∧ Linked h' d' l' ∧ Sorts compare l l'

/-- No number of merges is taken for zero or one. -/
def Counts (n : Nat) : Prop := ∀ k, 1 < merges n k → 1 < merges n k % 2 ^ 32

variable {ν : Type} {n k : Nat} {l : List ν} {h : Links ν} {d : ListEnds ν}

theorem merges_le_one : merges n k ≤ 1 ↔ n ≤ 2 ^ (k + 1) := by
  have hpos : 0 < 2 ^ (k + 1) := Nat.two_pow_pos _
  rw [merges, ← Nat.lt_succ_iff, Nat.div_lt_iff_lt_mul hpos]
  omega

theorem sortsAll_of_counts (hcounts : Counts n) : SortsAll n := by
  intro ν _ compare h d l hn hl hle
  by_cases hlong : 1 < l.length
  · obtain ⟨h', d', hreturns, hl'⟩ := sortList_passes compare hl hlong
    refine ⟨h', d', _, hreturns, hl', ?_⟩
    -- the last pass has only one merge
    have hlast : IsLast l.length (lastPass l.length hl.length_lt) := Nat.find_spec ⟨63, isLast_63 hl.length_lt⟩
    have hone : merges l.length (lastPass l.length hl.length_lt) ≤ 1 := by
      by_contra hmore
      have hmod := hcounts (lastPass l.length hl.length_lt) (hn ▸ Nat.lt_of_not_le hmore)
      rw [← hn] at hmod
      exact Nat.not_le.mpr hmod hlast
    obtain ⟨hruns, horder⟩ := passes_spec hle (lastPass l.length hl.length_lt + 1) l
    have hperm := passes_perm compare (lastPass l.length hl.length_lt + 1) l
    exact ⟨hperm, hruns.sorted (by rw [hperm.length_eq]; exact merges_le_one.mp hone), horder⟩
  · have hsize : d.size ≤ 1 := by
      rw [UInt64.le_iff_toNat_le, hl.size]
      exact Nat.not_lt.mp hlong
    refine ⟨h, d, l, ?_, hl, .refl l, (sortedRuns_one l).sorted (Nat.not_lt.mp hlong), fun _ _ => rfl⟩
    rw [sortList, if_pos hsize]
    exact Run.returns_pure.mpr rfl

/-- Up to two to the thirty-third nodes, but two, are sorted. -/
theorem sortsAll_of_le (hn : n ≤ 2 ^ 33 - 2) : SortsAll n := by
  refine sortsAll_of_counts fun k hk => ?_
  have hpow : 2 ≤ 2 ^ (k + 1) := Nat.le_self_pow (Nat.succ_ne_zero k) 2
  have hlt : merges n k < 2 ^ 32 := by
    rw [merges, Nat.div_lt_iff_lt_mul (Nat.two_pow_pos _)]
    omega
  rwa [Nat.mod_eq_of_lt hlt]

/-! ## The comparisons of boot options -/

/-- A group header is in front of the options of its group. -/
def headerRank (option : BootOption) : Nat := if option.groupHeader then 0 else 1

/-- Comparing by one number after the other. -/
def lexicographic (keys : List (BootOption → Nat)) (option1 option2 : BootOption) : Int :=
  match keys with
  | [] => 0
  | key :: keys =>
    if key option1 < key option2 then -1
    else if key option1 > key option2 then 1
    else lexicographic keys option1 option2

def compareTagThenPriority (option1 option2 : BootOption) : Int :=
  if option1.tag < option2.tag then -1
  else if option1.tag > option2.tag then 1
  else if option1.groupHeader ≠ option2.groupHeader then if option1.groupHeader then -1 else 1
  else if option1.priority < option2.priority then -1
  else if option1.priority > option2.priority then 1
  else 0

def comparePriorityThenBootOptionNumber (option1 option2 : BootOption) : Int :=
  if option1.priority < option2.priority then -1
  else if option1.priority > option2.priority then 1
  else if option1.bootOptionNumber < option2.bootOptionNumber then -1
  else if option1.bootOptionNumber > option2.bootOptionNumber then 1
  else if option1.groupHeader ≠ option2.groupHeader then if option1.groupHeader then -1 else 1
  else 0

section comparison

variable {option1 option2 : BootOption} {keys : List (BootOption → Nat)}

theorem totalOrder_lexicographic (keys : List (BootOption → Nat)) (optionOf : ν → BootOption) :
    TotalOrder (before fun p q => lexicographic keys (optionOf p) (optionOf q)) := by
  induction keys with
  | nil => exact ⟨fun _ _ _ _ _ => rfl, fun _ _ => rfl⟩
  | cons key keys ih =>
    have hbefore : ∀ a b, before (fun p q => lexicographic (key :: keys) (optionOf p) (optionOf q)) a b = true ↔
        key (optionOf a) < key (optionOf b) ∨ key (optionOf a) = key (optionOf b)
          ∧ before (fun p q => lexicographic keys (optionOf p) (optionOf q)) a b = true := by
      intro a b
      rcases Nat.lt_trichotomy (key (optionOf a)) (key (optionOf b)) with h | h | h
      · simp [before, lexicographic, h]
      · simp [before, lexicographic, h]
      · simp [before, lexicographic, h, Nat.lt_asymm h, h.ne']
    constructor
    · intro a b c hab hbc
      rw [hbefore] at hab hbc ⊢
      rcases hab with hab | ⟨hab, hab'⟩
      · rcases hbc with hbc | ⟨hbc, -⟩ <;> omega
      · rcases hbc with hbc | ⟨hbc, hbc'⟩
        · omega
        · exact Or.inr ⟨hab.trans hbc, ih.trans a b c hab' hbc'⟩
    · intro a b
      rw [Bool.or_eq_true, hbefore, hbefore]
      have htotal := ih.total a b
      rw [Bool.or_eq_true] at htotal
      rcases Nat.lt_trichotomy (key (optionOf a)) (key (optionOf b)) with h | h | h
      · exact Or.inl (Or.inl h)
      · exact htotal.imp (fun h' => Or.inr ⟨h, h'⟩) fun h' => Or.inr ⟨h.symm, h'⟩
      · exact Or.inr (Or.inl h)

theorem headerRank_lexicographic : lexicographic (headerRank :: keys) option1 option2
    = if option1.groupHeader ≠ option2.groupHeader then if option1.groupHeader then -1 else 1 else lexicographic keys option1 option2 := by
  rw [lexicographic, headerRank, headerRank]
  cases option1.groupHeader <;> cases option2.groupHeader <;> rfl

theorem compareTagThenPriority_eq : compareTagThenPriority option1 option2
    = lexicographic [fun option => option.tag.toNat, headerRank, fun option => option.priority.toNat] option1 option2 := by
  rw [lexicographic, headerRank_lexicographic]
  rfl

theorem comparePriorityThenBootOptionNumber_eq : comparePriorityThenBootOptionNumber option1 option2
    = lexicographic [fun option => option.priority.toNat, fun option => option.bootOptionNumber.toNat, headerRank] option1 option2 := by
  rw [lexicographic, lexicographic, headerRank_lexicographic]
  rfl

end comparison

theorem totalOrder_bootOptions (optionOf : ν → BootOption) :
    TotalOrder (before fun p q => compareTagThenPriority (optionOf p) (optionOf q))
    ∧ TotalOrder (before fun p q => comparePriorityThenBootOptionNumber (optionOf p) (optionOf q)) := by
  simp only [compareTagThenPriority_eq, comparePriorityThenBootOptionNumber_eq]
  exact ⟨totalOrder_lexicographic _ optionOf, totalOrder_lexicographic _ optionOf⟩

/-! ## Lists in memory -/

/-- The two links of a node. -/
def sizeofDlink : Nat := 16

/-- `SizeOfMemorySpace` of the CPU, in bits. -/
def sizeOfMemorySpace : Nat := 36

/-- `SortList` is a stable sort of every list that the memory can hold, by any total order, and the two comparisons
of boot options are such orders. -/
theorem sortList_sorts (n : Nat) (hmemory : n * sizeofDlink ≤ 2 ^ sizeOfMemorySpace) : SortsAll n
    ∧ ∀ (ν : Type) (optionOf : ν → BootOption),
      TotalOrder (before fun p q => compareTagThenPriority (optionOf p) (optionOf q))
      ∧ TotalOrder (before fun p q => comparePriorityThenBootOptionNumber (optionOf p) (optionOf q)) := by
  refine ⟨sortsAll_of_le ?_, fun _ => totalOrder_bootOptions⟩
  unfold sizeofDlink sizeOfMemorySpace at hmemory
  omega

/-- A memory full of nodes. -/
theorem sortList_sorts_full : SortsAll (2 ^ 32) := (sortList_sorts (2 ^ 32) (by decide)).1

end BayTrail.Bds.DList
