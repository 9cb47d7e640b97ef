import Mathlib.Algebra.Ring.Nat

/-!
# Maps of regions

A map of addresses as a list of regions that follow one another without a gap. A range is changed
by cutting the regions at its ends, and regions with equal values are merged afterwards; what an
address is mapped to is followed through both.
-/

namespace BayTrail.Lib

/-- The addresses from `base` to `last`, and what they are mapped to. -/
structure Region (α : Type) where
  base : Nat
  last : Nat
  val : α

namespace Region

variable {α : Type} {lo hi : Nat} {xs ys rs : List (Region α)} {r : Region α} {a : Nat} {v w : α}

/-- The regions follow one another from `lo` up to `hi`. -/
def Tiles : Nat → Nat → List (Region α) → Prop
  | lo, hi, [] => lo = hi
  | lo, hi, r :: rs => r.base = lo ∧ r.base ≤ r.last ∧ Tiles (r.last + 1) hi rs

/-- What an address is mapped to. -/
def At (rs : List (Region α)) (a : Nat) (v : α) : Prop := ∃ r ∈ rs, r.base ≤ a ∧ a ≤ r.last ∧ r.val = v

/-! ## Lists of regions -/

theorem at_nil : ¬ At ([] : List (Region α)) a v := fun ⟨_, hr, _⟩ => List.not_mem_nil hr

theorem at_cons : At (r :: rs) a v ↔ (r.base ≤ a ∧ a ≤ r.last ∧ r.val = v) ∨ At rs a v := by
  unfold At
  simp only [List.mem_cons, or_and_right, exists_or, exists_eq_left]

theorem at_singleton : At [r] a v ↔ r.base ≤ a ∧ a ≤ r.last ∧ r.val = v := by
  rw [at_cons]
  exact or_iff_left at_nil

theorem at_append : At (xs ++ ys) a v ↔ At xs a v ∨ At ys a v := by
  unfold At
  simp only [List.mem_append, or_and_right, exists_or]

theorem at_reverse : At rs.reverse a v ↔ At rs a v := by
  unfold At
  simp only [List.mem_reverse]

theorem tiles_append : ∀ {lo : Nat} {xs : List (Region α)},
    Tiles lo hi (xs ++ ys) ↔ ∃ m, Tiles lo m xs ∧ Tiles m hi ys
  | lo, [] => ⟨fun h => ⟨lo, rfl, h⟩, fun ⟨_, hm, h⟩ => by rwa [show lo = _ from hm]⟩
  | lo, r :: xs => by
    show (r.base = lo ∧ r.base ≤ r.last ∧ Tiles (r.last + 1) hi (xs ++ ys)) ↔ _
    rw [tiles_append]
    constructor
    · exact fun ⟨h1, h2, m, h3, h4⟩ => ⟨m, ⟨h1, h2, h3⟩, h4⟩
    · exact fun ⟨m, ⟨h1, h2, h3⟩, h4⟩ => ⟨h1, h2, m, h3, h4⟩

theorem Tiles.le : ∀ {lo : Nat} {rs : List (Region α)}, Tiles lo hi rs → lo ≤ hi
  | _, [], h => Nat.le_of_eq h
  | _, r :: rs, ⟨h1, h2, h3⟩ => by
    have hle := Tiles.le h3
    omega

/-- Where a region is. -/
theorem Tiles.mem : ∀ {lo : Nat} {rs : List (Region α)}, Tiles lo hi rs → r ∈ rs →
    lo ≤ r.base ∧ r.base ≤ r.last ∧ r.last < hi
  | _, [], _, hr => absurd hr List.not_mem_nil
  | lo, r' :: rs, ⟨h1, h2, h3⟩, hr => by
    cases List.mem_cons.mp hr with
    | inl heq =>
      have hle := Tiles.le h3
      rw [heq]
      omega
    | inr hmem =>
      have hrest := Tiles.mem h3 hmem
      omega

theorem Tiles.at_bounds (h : Tiles lo hi rs) (ha : At rs a v) : lo ≤ a ∧ a < hi := by
  obtain ⟨r, hr, h1, h2, -⟩ := ha
  have hmem := h.mem hr
  omega

/-- A region that does not begin behind another one does not stand behind it. -/
theorem Tiles.index_le : ∀ {lo : Nat} {rs : List (Region α)} {i k : Nat} {x y : Region α}, Tiles lo hi rs →
    rs[i]? = some x → rs[k]? = some y → x.base ≤ y.last → i ≤ k
  | _, _, 0, _, _, _, _, _, _, _ => Nat.zero_le _
  | _, [], i + 1, _, _, _, _, hx, _, _ => by cases hx
  | _, r :: rs, i + 1, 0, x, y, ⟨h1, h2, h3⟩, hx, hy, hle => by
    cases hy
    have hbounds := h3.mem (List.mem_of_getElem? hx)
    omega
  | _, r :: rs, i + 1, k + 1, x, y, ⟨_, _, h3⟩, hx, hy, hle => Nat.succ_le_succ (Tiles.index_le h3 hx hy hle)

/-- An address is mapped to one value. -/
theorem Tiles.at_unique : ∀ {lo : Nat} {rs : List (Region α)}, Tiles lo hi rs → At rs a v → At rs a w → v = w
  | _, [], _, hv, _ => absurd hv at_nil
  | lo, r :: rs, ⟨h1, h2, h3⟩, hv, hw => by
    rw [at_cons] at hv hw
    rcases hv with ⟨-, hv2, hv3⟩ | hv
    · rcases hw with ⟨-, -, hw3⟩ | hw
      · exact hv3.symm.trans hw3
      · have hbounds := Tiles.at_bounds h3 hw
        omega
    · rcases hw with ⟨-, hw2, -⟩ | hw
      · have hbounds := Tiles.at_bounds h3 hv
        omega
      · exact Tiles.at_unique h3 hv hw

/-- Every address is mapped. -/
theorem Tiles.at_exists : ∀ {lo : Nat} {rs : List (Region α)}, Tiles lo hi rs → lo ≤ a → a < hi → ∃ v, At rs a v
  | lo, [], h, h1, h2 => by
    have h : lo = hi := h
    omega
  | lo, r :: rs, ⟨h1, h2, h3⟩, ha1, ha2 => by
    by_cases ha : a ≤ r.last
    · exact ⟨r.val, at_cons.mpr (Or.inl ⟨by omega, ha, rfl⟩)⟩
    · obtain ⟨v, hv⟩ := Tiles.at_exists h3 (by omega) ha2
      exact ⟨v, at_cons.mpr (Or.inr hv)⟩

/-! ## Merging -/

section merge

variable [DecidableEq α]

/-- A region behind others, the last of which stands first in the list: it is merged with it if
they have the same value. -/
def mergeBack (rev : List (Region α)) (r : Region α) : List (Region α) :=
  match rev with
  | [] => [r]
  | adj :: rest => if adj.val = r.val then { r with base := adj.base } :: rest else r :: adj :: rest

/-- The first of what has been merged, the last region first, with those behind it. -/
def mergeForward (rev post : List (Region α)) : List (Region α) :=
  match rev, post with
  | r :: rest, adj :: post =>
    if r.val = adj.val then rest.reverse ++ { r with last := adj.last } :: post
    else rest.reverse ++ r :: adj :: post
  | rev, post => rev.reverse ++ post

/-- The regions in the middle are merged with those around them. -/
def cleanup (pre mid post : List (Region α)) : List (Region α) := mergeForward (mid.foldl mergeBack pre.reverse) post

/-- A range is the two parts of it. -/
theorem range_join {b m l a : Nat} {P : Prop} (h1 : b ≤ m) (h2 : m < l) :
    (b ≤ a ∧ a ≤ l ∧ P) ↔ (m + 1 ≤ a ∧ a ≤ l ∧ P) ∨ (b ≤ a ∧ a ≤ m ∧ P) := by
  constructor
  · intro ⟨h3, h4, hP⟩
    by_cases ha : a ≤ m
    · exact Or.inr ⟨h3, ha, hP⟩
    · exact Or.inl ⟨by omega, h4, hP⟩
  · intro h
    rcases h with ⟨h3, h4, hP⟩ | ⟨h3, h4, hP⟩
    · exact ⟨by omega, h4, hP⟩
    · exact ⟨h3, by omega, hP⟩

/-- A region that is put behind others is merged with the one in front of it or not; what is mapped
is the same. -/
theorem mergeBack_spec {rev : List (Region α)} {m : Nat} (h : Tiles lo m rev.reverse) (hbase : r.base = m)
    (hlast : r.base ≤ r.last) :
    Tiles lo (r.last + 1) (mergeBack rev r).reverse ∧ ∀ a v, At (mergeBack rev r) a v ↔ At (r :: rev) a v := by
  cases rev with
  | nil =>
    have hlo : lo = m := h
    exact ⟨⟨hbase.trans hlo.symm, hlast, rfl⟩, fun a v => Iff.rfl⟩
  | cons adj rest =>
    have hstep : mergeBack (adj :: rest) r =
        if adj.val = r.val then { r with base := adj.base } :: rest else r :: adj :: rest := rfl
    rw [List.reverse_cons] at h
    obtain ⟨m', hrest, hadj1, hadj2, hadj3⟩ := tiles_append.mp h
    have hadj3 : adj.last + 1 = m := hadj3
    by_cases heq : adj.val = r.val
    · rw [hstep, if_pos heq]
      constructor
      · rw [List.reverse_cons]
        exact tiles_append.mpr ⟨m', hrest, hadj1, show adj.base ≤ r.last by omega, rfl⟩
      · intro a v
        rw [at_cons, at_cons, at_cons, heq, ← or_assoc, hbase, ← hadj3]
        exact or_congr_left (range_join hadj2 (show adj.last < r.last by omega))
    · rw [hstep, if_neg heq]
      constructor
      · rw [List.reverse_cons, List.reverse_cons]
        exact tiles_append.mpr ⟨m, h, hbase, hlast, rfl⟩
      · exact fun a v => Iff.rfl

theorem foldl_mergeBack_spec : ∀ {mid rev : List (Region α)} {m : Nat}, Tiles lo m rev.reverse → Tiles m hi mid →
    Tiles lo hi (mid.foldl mergeBack rev).reverse
    ∧ ∀ a v, At (mid.foldl mergeBack rev) a v ↔ At rev a v ∨ At mid a v
  | [], rev, m, h, hmid => by
    rw [← show m = hi from hmid]
    exact ⟨h, fun a v => (or_iff_left at_nil).symm⟩
  | r :: mid, rev, m, h, ⟨h1, h2, h3⟩ => by
    obtain ⟨htiles, hat⟩ := mergeBack_spec h h1 h2
    obtain ⟨htiles', hat'⟩ := foldl_mergeBack_spec htiles h3
    refine ⟨htiles', fun a v => ?_⟩
    show At (mid.foldl mergeBack (mergeBack rev r)) a v ↔ _
    rw [hat', hat, at_cons, at_cons, ← or_assoc]
    exact or_congr_left or_comm

theorem mergeForward_spec {rev post : List (Region α)} {m : Nat} (h : Tiles lo m rev.reverse) (hpost : Tiles m hi post) :
    Tiles lo hi (mergeForward rev post) ∧ ∀ a v, At (mergeForward rev post) a v ↔ At rev a v ∨ At post a v := by
  have hplain : Tiles lo hi (rev.reverse ++ post) ∧ ∀ a v, At (rev.reverse ++ post) a v ↔ At rev a v ∨ At post a v :=
    ⟨tiles_append.mpr ⟨m, h, hpost⟩, fun a v => by rw [at_append, at_reverse]⟩
  cases rev with
  | nil => exact hplain
  | cons r rest =>
    cases post with
    | nil => exact hplain
    | cons adj post =>
      have hstep : mergeForward (r :: rest) (adj :: post) =
          if r.val = adj.val then rest.reverse ++ { r with last := adj.last } :: post
          else rest.reverse ++ r :: adj :: post := rfl
      rw [List.reverse_cons, List.append_assoc] at hplain
      by_cases heq : r.val = adj.val
      · rw [List.reverse_cons] at h
        obtain ⟨m', hrest, hr1, hr2, hr3⟩ := tiles_append.mp h
        have hr3 : r.last + 1 = m := hr3
        obtain ⟨hadj1, hadj2, hadj3⟩ := hpost
        rw [hstep, if_pos heq]
        constructor
        · exact tiles_append.mpr ⟨m', hrest, hr1, show r.base ≤ adj.last by omega, hadj3⟩
        · intro a v
          have hjoin : (r.base ≤ a ∧ a ≤ adj.last ∧ r.val = v) ↔
              (r.base ≤ a ∧ a ≤ r.last ∧ r.val = v) ∨ (adj.base ≤ a ∧ a ≤ adj.last ∧ adj.val = v) := by
            rw [← heq, hadj1, ← hr3, or_comm]
            exact range_join hr2 (by omega)
          rw [at_append, at_reverse, at_cons, at_cons, at_cons]
          show At rest a v ∨ (r.base ≤ a ∧ a ≤ adj.last ∧ r.val = v) ∨ At post a v ↔ _
          rw [hjoin]
          simp only [or_assoc, or_left_comm]
      · rw [hstep, if_neg heq]
        exact hplain

theorem cleanup_spec {pre mid post : List (Region α)} (h : Tiles lo hi (pre ++ (mid ++ post))) :
    Tiles lo hi (cleanup pre mid post) ∧ ∀ a v, At (cleanup pre mid post) a v ↔ At (pre ++ (mid ++ post)) a v := by
  obtain ⟨m, hpre, hrest⟩ := tiles_append.mp h
  obtain ⟨m', hmid, hpost⟩ := tiles_append.mp hrest
  have hrev : Tiles lo m pre.reverse.reverse := by rwa [List.reverse_reverse]
  obtain ⟨htiles, hat⟩ := foldl_mergeBack_spec hrev hmid
  obtain ⟨htiles', hat'⟩ := mergeForward_spec htiles hpost
  refine ⟨htiles', fun a v => ?_⟩
  unfold cleanup
  rw [hat', hat, at_append, at_append, at_reverse, or_assoc]

end merge

/-! ## Changing a range -/

/-- The regions up to the one with the address `l`, and those behind it. -/
def searchEnd (l : Nat) : List (Region α) → Option (List (Region α) × List (Region α))
  | [] => none
  | r :: rs =>
    if r.base ≤ l ∧ l ≤ r.last then some ([r], rs)
    else (searchEnd l rs).map fun found => (r :: found.1, found.2)

/-- The regions in front of the one with the address `b`, those from it to the one with the address
`l`, and those behind it. -/
def search (b l : Nat) : List (Region α) → Option (List (Region α) × List (Region α) × List (Region α))
  | [] => none
  | r :: rs =>
    if r.base ≤ b ∧ b ≤ r.last then (searchEnd l (r :: rs)).map fun found => ([], found.1, found.2)
    else (search b l rs).map fun found => (r :: found.1, found.2.1, found.2.2)

/-- What of the regions is in front of the range. -/
def bottom (b : Nat) : List (Region α) → List (Region α)
  | r :: _ => if r.base < b then [{ r with last := b - 1 }] else []
  | [] => []

/-- What of the regions is behind the range. -/
def top (l : Nat) (mid : List (Region α)) : List (Region α) :=
  match mid.getLast? with
  | some r => if l < r.last then [{ r with base := l + 1 }] else []
  | none => []

/-- What of the regions is in the range, changed. -/
def clip (b l : Nat) (f : α → α) (mid : List (Region α)) : List (Region α) :=
  mid.map fun r => ⟨max b r.base, min l r.last, f r.val⟩

/-- The regions with those of the range changed. -/
def convert [DecidableEq α] (b l : Nat) (f : α → α) (pre mid post : List (Region α)) : List (Region α) :=
  cleanup (pre ++ bottom b mid) (clip b l f mid) (top l mid ++ post)

/-- The regions of a search are those that the range begins and ends in, and those between them. -/
structure Found (lo hi b l : Nat) (rs pre mid post : List (Region α)) (m m' : Nat) : Prop where
  split : rs = pre ++ (mid ++ post)
  front : Tiles lo m pre
  middle : Tiles m m' mid
  back : Tiles m' hi post
  first : ∃ r rest, mid = r :: rest ∧ r.base ≤ b ∧ b ≤ r.last
  final : ∃ front r, mid = front ++ [r] ∧ r.base ≤ l ∧ l ≤ r.last

theorem searchEnd_spec {l : Nat} : ∀ {lo : Nat} {rs mid post : List (Region α)}, Tiles lo hi rs →
    searchEnd l rs = some (mid, post) →
    rs = mid ++ post ∧ (∃ m, Tiles lo m mid ∧ Tiles m hi post)
    ∧ (∃ r rest, rs = r :: rest ∧ ∃ rest', mid = r :: rest') ∧ ∃ front r, mid = front ++ [r] ∧ r.base ≤ l ∧ l ≤ r.last
  | lo, [], mid, post, _, h => by cases h
  | lo, r :: rs, mid, post, ⟨h1, h2, h3⟩, h => by
    unfold searchEnd at h
    by_cases hin : r.base ≤ l ∧ l ≤ r.last
    · rw [if_pos hin] at h
      cases h
      exact ⟨rfl, ⟨r.last + 1, ⟨h1, h2, rfl⟩, h3⟩, ⟨r, _, rfl, [], rfl⟩, [], r, rfl, hin⟩
    · rw [if_neg hin] at h
      obtain ⟨found, hfound, heq⟩ := Option.map_eq_some_iff.mp h
      cases heq
      obtain ⟨hsplit, ⟨m, hmid, hpost⟩, -, front, r', hfront, hr'⟩ := searchEnd_spec h3 hfound
      refine ⟨?_, ⟨m, ⟨h1, h2, hmid⟩, hpost⟩, ⟨r, rs, rfl, found.1, rfl⟩, r :: front, r', ?_, hr'⟩
      · rw [List.cons_append, ← hsplit]
      · rw [hfront]
        rfl

theorem search_spec {b l : Nat} : ∀ {lo : Nat} {rs pre mid post : List (Region α)}, Tiles lo hi rs →
    search b l rs = some (pre, mid, post) → ∃ m m', Found lo hi b l rs pre mid post m m'
  | lo, [], pre, mid, post, _, h => by cases h
  | lo, r :: rs, pre, mid, post, h0, h => by
    have htiles := h0
    obtain ⟨h1, h2, h3⟩ := h0
    unfold search at h
    by_cases hin : r.base ≤ b ∧ b ≤ r.last
    · rw [if_pos hin] at h
      obtain ⟨found, hfound, heq⟩ := Option.map_eq_some_iff.mp h
      cases heq
      obtain ⟨hsplit, ⟨m, hmid, hpost⟩, ⟨r', rest, hr', rest', hrest'⟩, hfinal⟩ := searchEnd_spec htiles hfound
      cases hr'
      exact ⟨lo, m, hsplit, rfl, hmid, hpost, ⟨r, rest', hrest', hin⟩, hfinal⟩
    · rw [if_neg hin] at h
      obtain ⟨found, hfound, heq⟩ := Option.map_eq_some_iff.mp h
      cases heq
      obtain ⟨m, m', hspec⟩ := search_spec h3 hfound
      exact ⟨m, m', by rw [List.cons_append, ← hspec.split], ⟨h1, h2, hspec.front⟩, hspec.middle, hspec.back, hspec.first,
        hspec.final⟩

theorem searchEnd_some {l : Nat} : ∀ {lo : Nat} {rs : List (Region α)}, Tiles lo hi rs → lo ≤ l → l < hi →
    (searchEnd l rs).isSome = true
  | lo, [], h, h1, h2 => by
    have h : lo = hi := h
    omega
  | lo, r :: rs, ⟨h1, h2, h3⟩, hlo, hhi => by
    unfold searchEnd
    by_cases hin : r.base ≤ l ∧ l ≤ r.last
    · rw [if_pos hin]
      rfl
    · rw [if_neg hin, Option.isSome_map]
      exact searchEnd_some h3 (by omega) hhi

/-- A search in a map finds all ranges of it. -/
theorem search_some {b l : Nat} (hbl : b ≤ l) : ∀ {lo : Nat} {rs : List (Region α)}, Tiles lo hi rs → lo ≤ b → l < hi →
    (search b l rs).isSome = true
  | lo, [], h, h1, h2 => by
    have h : lo = hi := h
    omega
  | lo, r :: rs, h, hlo, hhi => by
    have htiles := h
    obtain ⟨h1, h2, h3⟩ := h
    unfold search
    by_cases hin : r.base ≤ b ∧ b ≤ r.last
    · rw [if_pos hin, Option.isSome_map]
      exact searchEnd_some htiles (by omega) hhi
    · rw [if_neg hin, Option.isSome_map]
      exact search_some hbl h3 (by omega) hhi

section convert

variable {b l m m' : Nat} {pre mid post : List (Region α)}

section

variable (h : Found lo hi b l rs pre mid post m m')
include h

/-- The range lies in the regions that have been found. -/
theorem Found.range : m ≤ b ∧ l < m' := by
  obtain ⟨r, rest, hmid, hr1, hr2⟩ := h.first
  obtain ⟨front, r', hmid', hr1', hr2'⟩ := h.final
  have hfirst := h.middle.mem (show r ∈ mid by rw [hmid]; exact List.mem_cons_self)
  have hfinal := h.middle.mem (show r' ∈ mid by rw [hmid']; exact List.mem_append_right _ (List.mem_singleton_self r'))
  omega

/-- The regions that have been found meet the range. -/
theorem Found.meets (hr : r ∈ mid) : r.base ≤ l ∧ b ≤ r.last := by
  obtain ⟨r1, rest, hmid1, hr1, hr1'⟩ := h.first
  obtain ⟨front, r2, hmid2, hr2, hr2'⟩ := h.final
  have hmiddle := h.middle
  constructor
  · rw [hmid2] at hr hmiddle
    obtain ⟨m2, hfront, hbase, hle, hend⟩ := tiles_append.mp hmiddle
    rcases List.mem_append.mp hr with hr | hr
    · have hbounds := hfront.mem hr
      omega
    · rw [List.mem_singleton.mp hr]
      exact hr2
  · rw [hmid1] at hr hmiddle
    obtain ⟨hbase, hle, hrest⟩ := hmiddle
    rcases List.mem_cons.mp hr with hr | hr
    · rw [hr]
      exact hr1'
    · have hbounds := hrest.mem hr
      omega

theorem at_bottom : At (bottom b mid) a v ↔ a < b ∧ At mid a v := by
  obtain ⟨r, rest, hmid, hr1, hr2⟩ := h.first
  have hmiddle := h.middle
  rw [hmid] at hmiddle ⊢
  obtain ⟨h1, h2, h3⟩ := hmiddle
  unfold bottom
  dsimp only
  rw [at_cons]
  have hrest : At rest a v → b < a := fun ha => by
    have hbounds := h3.at_bounds ha
    omega
  by_cases hlt : r.base < b
  · rw [if_pos hlt, at_singleton]
    constructor
    · intro ⟨h4, h5, h6⟩
      have h5 : a ≤ b - 1 := h5
      exact ⟨by omega, Or.inl ⟨h4, by omega, h6⟩⟩
    · intro ⟨h4, h5⟩
      rcases h5 with ⟨h5, -, h6⟩ | h5
      · exact ⟨h5, show a ≤ b - 1 by omega, h6⟩
      · have hlate := hrest h5
        omega
  · rw [if_neg hlt]
    refine iff_of_false at_nil fun ⟨h4, h5⟩ => ?_
    rcases h5 with ⟨h5, -, -⟩ | h5
    · omega
    · have hlate := hrest h5
      omega

theorem at_top : At (top l mid) a v ↔ l < a ∧ At mid a v := by
  obtain ⟨front, r, hmid, hr1, hr2⟩ := h.final
  have hmiddle := h.middle
  rw [hmid] at hmiddle ⊢
  obtain ⟨m'', hfront, h1, h2, h3⟩ := tiles_append.mp hmiddle
  unfold top
  rw [List.getLast?_append, List.getLast?_singleton, Option.some_or, at_append, at_singleton]
  dsimp only
  have hearly : At front a v → a < l := fun ha => by
    have hbounds := hfront.at_bounds ha
    omega
  by_cases hlt : l < r.last
  · rw [if_pos hlt, at_singleton]
    constructor
    · intro ⟨h4, h5, h6⟩
      have h4 : l + 1 ≤ a := h4
      exact ⟨by omega, Or.inr ⟨by omega, h5, h6⟩⟩
    · intro ⟨h4, h5⟩
      rcases h5 with h5 | ⟨-, h5, h6⟩
      · have hlate := hearly h5
        omega
      · exact ⟨show l + 1 ≤ a by omega, h5, h6⟩
  · rw [if_neg hlt]
    refine iff_of_false at_nil fun ⟨h4, h5⟩ => ?_
    rcases h5 with h5 | ⟨-, h5, -⟩
    · have hlate := hearly h5
      omega
    · omega

end

theorem at_clip {f : α → α} : At (clip b l f mid) a v ↔ (b ≤ a ∧ a ≤ l) ∧ ∃ w, At mid a w ∧ f w = v := by
  unfold At clip
  constructor
  · intro ⟨r', hr', h1, h2, h3⟩
    obtain ⟨r, hr, rfl⟩ := List.mem_map.mp hr'
    have h1 : max b r.base ≤ a := h1
    have h2 : a ≤ min l r.last := h2
    exact ⟨by omega, r.val, ⟨r, hr, by omega, by omega, rfl⟩, h3⟩
  · intro ⟨hin, w, ⟨r, hr, h1, h2, h3⟩, hw⟩
    refine ⟨_, List.mem_map.mpr ⟨r, hr, rfl⟩, ?_, ?_, ?_⟩
    · show max b r.base ≤ a
      omega
    · show a ≤ min l r.last
      omega
    · show f r.val = v
      rw [h3, hw]

theorem tiles_bottom (h : Found lo hi b l rs pre mid post m m') : Tiles m b (bottom b mid) := by
  obtain ⟨r, rest, hmid, hr1, hr2⟩ := h.first
  have hmiddle := h.middle
  rw [hmid] at hmiddle ⊢
  obtain ⟨h1, h2, h3⟩ := hmiddle
  unfold bottom
  dsimp only
  by_cases hlt : r.base < b
  · rw [if_pos hlt]
    exact ⟨h1, show r.base ≤ b - 1 by omega, show b - 1 + 1 = b by omega⟩
  · rw [if_neg hlt]
    exact show m = b by omega

theorem tiles_top (h : Found lo hi b l rs pre mid post m m') : Tiles (l + 1) m' (top l mid) := by
  obtain ⟨front, r, hmid, hr1, hr2⟩ := h.final
  have hmiddle := h.middle
  rw [hmid] at hmiddle ⊢
  obtain ⟨m'', hfront, h1, h2, h3⟩ := tiles_append.mp hmiddle
  have h3 : r.last + 1 = m' := h3
  unfold top
  rw [List.getLast?_append, List.getLast?_singleton, Option.some_or]
  dsimp only
  by_cases hlt : l < r.last
  · rw [if_pos hlt]
    exact ⟨rfl, show l + 1 ≤ r.last by omega, h3⟩
  · rw [if_neg hlt]
    exact show l + 1 = m' by omega

/-- Behind the first region only the last one is cut. -/
theorem tiles_clip_rest {f : α → α} : ∀ {front : List (Region α)} {m : Nat}, Tiles m m' (front ++ [r]) → b ≤ m →
    r.base ≤ l → l ≤ r.last → Tiles m (l + 1) (clip b l f (front ++ [r]))
  | [], m, ⟨h1, h2, h3⟩, hb, hl1, hl2 => by
    refine ⟨show max b r.base = m by omega, show max b r.base ≤ min l r.last by omega, ?_⟩
    exact show min l r.last + 1 = l + 1 by omega
  | x :: front, m, ⟨h1, h2, h3⟩, hb, hl1, hl2 => by
    have hr := h3.mem (List.mem_append_right _ (List.mem_singleton_self r))
    have hlast : min l x.last = x.last := by omega
    refine ⟨show max b x.base = m by omega, show max b x.base ≤ min l x.last by omega, ?_⟩
    show Tiles (min l x.last + 1) (l + 1) (clip b l f (front ++ [r]))
    rw [hlast]
    exact tiles_clip_rest h3 (by omega) hl1 hl2

theorem tiles_clip {f : α → α} (h : Found lo hi b l rs pre mid post m m') (hbl : b ≤ l) :
    Tiles b (l + 1) (clip b l f mid) := by
  obtain ⟨r, rest, hmid, hr1, hr2⟩ := h.first
  obtain ⟨front, r', hmid', hr1', hr2'⟩ := h.final
  have hmiddle := h.middle
  cases front with
  | nil =>
    rw [hmid'] at hmid
    cases hmid
    rw [hmid']
    refine ⟨show max b r.base = b by omega, show max b r.base ≤ min l r.last by omega, ?_⟩
    exact show min l r.last + 1 = l + 1 by omega
  | cons x front =>
    rw [hmid'] at hmid hmiddle
    cases hmid
    rw [hmid']
    obtain ⟨h1, h2, h3⟩ := hmiddle
    have hr := h3.mem (List.mem_append_right _ (List.mem_singleton_self r'))
    have hlast : min l r.last = r.last := by omega
    refine ⟨show max b r.base = b by omega, show max b r.base ≤ min l r.last by omega, ?_⟩
    show Tiles (min l r.last + 1) (l + 1) (clip b l f (front ++ [r']))
    rw [hlast]
    exact tiles_clip_rest h3 (by omega) hr1' hr2'

/-- A range that is changed: its addresses are mapped to the changed values, and the others to what
they were. -/
theorem convert_spec [DecidableEq α] {f : α → α} (h : Found lo hi b l rs pre mid post m m') (hbl : b ≤ l) :
    Tiles lo hi (convert b l f pre mid post)
    ∧ ∀ a v, At (convert b l f pre mid post) a v ↔
      ((b ≤ a ∧ a ≤ l) ∧ ∃ w, At rs a w ∧ f w = v) ∨ (¬ (b ≤ a ∧ a ≤ l) ∧ At rs a v) := by
  have htiles : Tiles lo hi ((pre ++ bottom b mid) ++ (clip b l f mid ++ (top l mid ++ post))) :=
    tiles_append.mpr ⟨b, tiles_append.mpr ⟨m, h.front, tiles_bottom h⟩,
      tiles_append.mpr ⟨l + 1, tiles_clip h hbl, tiles_append.mpr ⟨m', tiles_top h, h.back⟩⟩⟩
  obtain ⟨htiles', hat⟩ := cleanup_spec htiles
  refine ⟨htiles', fun a v => ?_⟩
  obtain ⟨hrange1, hrange2⟩ := h.range
  have hpre : At pre a v → a < b := fun ha => by
    have hbounds := h.front.at_bounds ha
    omega
  have hpost : At post a v → l < a := fun ha => by
    have hbounds := h.back.at_bounds ha
    omega
  have hmid : ∀ w, b ≤ a → a ≤ l → (At rs a w ↔ At mid a w) := by
    intro w hb hl
    rw [h.split, at_append, at_append]
    constructor
    · intro ha
      rcases ha with ha | ha | ha
      · have hbounds := h.front.at_bounds ha
        omega
      · exact ha
      · have hbounds := h.back.at_bounds ha
        omega
    · exact fun ha => Or.inr (Or.inl ha)
  unfold convert
  rw [hat, at_append, at_append, at_append, at_append, at_bottom h, at_clip, at_top h]
  by_cases hin : b ≤ a ∧ a ≤ l
  · have hclip : (∃ w, At rs a w ∧ f w = v) ↔ ∃ w, At mid a w ∧ f w = v :=
      exists_congr fun w => and_congr_left fun _ => hmid w hin.1 hin.2
    rw [hclip]
    constructor
    · intro ha
      rcases ha with (ha | ha) | ha | ha | ha
      · have hearly := hpre ha
        omega
      · omega
      · exact Or.inl ha
      · omega
      · have hlate := hpost ha
        omega
    · intro ha
      rcases ha with ha | ha
      · exact Or.inr (Or.inl ha)
      · exact absurd hin ha.1
  · rw [h.split, at_append, at_append]
    constructor
    · intro ha
      rcases ha with (ha | ha) | ha | ha | ha
      · exact Or.inr ⟨hin, Or.inl ha⟩
      · exact Or.inr ⟨hin, Or.inr (Or.inl ha.2)⟩
      · exact absurd ha.1 hin
      · exact Or.inr ⟨hin, Or.inr (Or.inl ha.2)⟩
      · exact Or.inr ⟨hin, Or.inr (Or.inr ha)⟩
    · intro ha
      rcases ha with ha | ⟨-, ha | ha | ha⟩
      · exact absurd ha.1 hin
      · exact Or.inl (Or.inl ha)
      · by_cases hb : a < b
        · exact Or.inl (Or.inr ⟨hb, ha⟩)
        · exact Or.inr (Or.inr (Or.inl ⟨by omega, ha⟩))
      · exact Or.inr (Or.inr (Or.inr ha))

end convert

end Region

end BayTrail.Lib
