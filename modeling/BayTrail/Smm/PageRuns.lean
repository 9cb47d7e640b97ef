import BayTrail.Smm.Pages

/-!
# Runs of the page services

Each request changes the set of the free pages as it should, and the list of their nodes stays in order
and merged: each of `SmmAllocatePages`, `SmmFreePages` and `SmmAddMemoryRegion` has one lemma about a list
that `Represents` a set, and a run is one request after the other. Pages are never given out twice without
having been freed.
-/

namespace BayTrail.Smm.Pages

open BayTrail.Lib BayTrail.Lib.Interval

variable {map : List Interval} {free free' : Set Nat} {n a p memory maxAddress : Nat} {x : Interval} {front back : List Interval}
  {q : Request} {qs : List Request}

/-! ## Lists and sets -/

theorem mem_pagesFrom : p ∈ pagesFrom a n ↔ a ≤ p ∧ p < a + n := Iff.rfl

/-- The pages of a node. -/
theorem Represents.mem (h : Represents map free) (hx : x ∈ map) : 0 < x.first ∧ 0 < x.count ∧ x.past < 2 ^ 52 := by
  obtain ⟨hfirst, hpos, -⟩ := h.separated.mem hx
  have hlast := h.bounded (x.past - 1) ((h.covers _).mpr ⟨x, hx, by unfold past; omega, by unfold past; omega⟩)
  unfold past at hlast ⊢
  omega

/-- Free pages that follow one another are in one node. -/
theorem Represents.one (h : Represents map free) (hn : 0 < n) (hfree : pagesFrom a n ⊆ free) :
    ∃ x ∈ map, x.first ≤ a ∧ a + n ≤ x.past :=
  h.separated.one hn fun p h1 h2 => (h.covers p).mp (hfree ⟨h1, h2⟩)

theorem Represents.subset (h : Represents map free) (hx : x ∈ map) (hfirst : x.first ≤ a) (hpast : a + n ≤ x.past) :
    pagesFrom a n ⊆ free := fun p ⟨h1, h2⟩ => (h.covers p).mpr ⟨x, hx, by omega, by omega⟩

/-- Pages are taken out of a node. -/
theorem represents_carve (h : Represents (front ++ x :: back) free) (hn : 0 < n) (hfirst : x.first ≤ a) (hpast : a + n ≤ x.past) :
    Represents (front ++ (carve x a n ++ back)) (free \ pagesFrom a n) where
  separated := separated_carve hn hfirst hpast h.separated
  bounded p hp := h.bounded p hp.1
  covers p := by
    rw [covers_carved hfirst hpast h.separated, ← h.covers]
    exact Iff.rfl

/-! ## Allocation -/

/-- The pages end in front of the maximum. -/
theorem ends_iff : a * EFI_PAGE_SIZE ≤ maxAddress + 1 ↔ a ≤ (maxAddress + 1) / EFI_PAGE_SIZE :=
  (Nat.le_div_iff_mul_le (by decide)).symm

/-- The last pages of a node that end in front of the maximum are taken. -/
theorem internalAllocPagesOnOneNode_eq (hx : 0 < x.first) (hpast : x.past < 2 ^ 52) (hmax : maxAddress < 2 ^ 64)
    (hn : 0 < n) (hcount : n ≤ x.count) (hend : x.first + n ≤ (maxAddress + 1) / EFI_PAGE_SIZE) :
    ∃ a, internalAllocPagesOnOneNode x n maxAddress = (a * EFI_PAGE_SIZE, carve x a n) ∧ x.first ≤ a ∧ a + n ≤ x.past
      ∧ a + n ≤ (maxAddress + 1) / EFI_PAGE_SIZE
      ∧ ∀ b, b + n ≤ x.past → b + n ≤ (maxAddress + 1) / EFI_PAGE_SIZE → b ≤ a := by
  have htop : uintn (maxAddress + 1 + (2 ^ 64 - address x)) / EFI_PAGE_SIZE = (maxAddress + 1) / EFI_PAGE_SIZE - x.first := by
    unfold uintn address past at *
    unfold EFI_PAGE_SIZE at *
    omega
  unfold internalAllocPagesOnOneNode carve
  rw [htop]
  dsimp only
  generalize (maxAddress + 1) / EFI_PAGE_SIZE = limit at hend
  unfold past at *
  refine ⟨x.first + min (limit - x.first) x.count - n, ?_, by omega, by omega, by omega, fun b h1 h2 => by omega⟩
  have hbottom : uintn (min (limit - x.first) x.count + (2 ^ 64 - n)) = min (limit - x.first) x.count - n := by
    unfold uintn
    omega
  rw [hbottom]
  have htop' : n ≤ min (limit - x.first) x.count ∧ min (limit - x.first) x.count ≤ x.count := by omega
  generalize min (limit - x.first) x.count = top at htop'
  have haddress : uintn (address x + pagesToSize (top - n)) = (x.first + top - n) * EFI_PAGE_SIZE := by
    unfold uintn address pagesToSize uintn EFI_PAGE_SIZE
    omega
  rw [haddress]
  refine congrArg _ (congrArg₂ _ ?_ ?_)
  · refine if_congr (by omega) ?_ rfl
    rw [show x.first + top - n - x.first = top - n by omega]
  · refine if_congr (by omega) ?_ rfl
    rw [show x.first + top - n + n = x.first + top by omega, show x.first + x.count - (x.first + top) = x.count - top by omega]

theorem smmAllocatePages_any (h : Represents map free) (hn : 0 < n) (hmax : maxAddress < 2 ^ 64) :
    (internalAllocMaxAddress map n maxAddress = none ∧ ∀ a, ¬ Fits free n maxAddress a)
    ∨ ∃ a map', internalAllocMaxAddress map n maxAddress = some (a * EFI_PAGE_SIZE, map')
      ∧ IsGreatest {a | Fits free n maxAddress a} a ∧ Represents map' (free \ pagesFrom a n) := by
  have hfit : ∀ y ∈ map, n ≤ y.count → (n ≤ y.count
      && decide (uintn (address y + pagesToSize n + (2 ^ 64 - 1)) ≤ maxAddress)) =
        decide (y.first + n ≤ (maxAddress + 1) / EFI_PAGE_SIZE) := by
    intro y hy hcount
    obtain ⟨hfirst, hpos, hpast⟩ := h.mem hy
    rw [decide_eq_true hcount, Bool.true_and]
    refine decide_eq_decide.mpr ?_
    rw [← ends_iff]
    unfold past at hpast
    unfold uintn address pagesToSize uintn EFI_PAGE_SIZE
    omega
  unfold internalAllocMaxAddress
  cases hsplit : splitLast (fun pages => n ≤ pages.count
      && uintn (address pages + pagesToSize n + (2 ^ 64 - 1)) ≤ maxAddress) map with
  | none =>
    refine Or.inl ⟨rfl, fun a ⟨hfree, hend⟩ => ?_⟩
    obtain ⟨y, hy, hfirst, hpast⟩ := h.one hn hfree
    have hnot := splitLast_none hsplit y hy
    have hcount : n ≤ y.count := by unfold past at hpast; omega
    rw [hfit y hy hcount, decide_eq_false_iff_not] at hnot
    rw [ends_iff] at hend
    omega
  | some found =>
    obtain ⟨front, x, back⟩ := found
    obtain ⟨rfl, hx, hback⟩ := splitLast_some hsplit
    have hmem : x ∈ front ++ x :: back := List.mem_append_right _ List.mem_cons_self
    have hcount : n ≤ x.count := of_decide_eq_true (Bool.and_eq_true_iff.mp hx).1
    rw [hfit x hmem hcount, decide_eq_true_eq] at hx
    obtain ⟨hfirst, hpos, hpast⟩ := h.mem hmem
    obtain ⟨a, halloc, ha, hend, hlimit, hgreatest⟩ := internalAllocPagesOnOneNode_eq hfirst hpast hmax hn hcount hx
    refine Or.inr ⟨a, front ++ (carve x a n ++ back), ?_, ⟨⟨h.subset hmem ha hend, ends_iff.mpr hlimit⟩, fun b ⟨hfree, hblimit⟩ => ?_⟩,
      represents_carve h hn ha hend⟩
    · rw [Option.map_some]
      dsimp only
      rw [halloc]
    · -- what lies in a node behind does not end in front of the maximum
      obtain ⟨y, hy, hyfirst, hypast⟩ := h.one hn hfree
      rw [ends_iff] at hblimit
      rcases List.mem_append.mp hy with hin | hin
      · have hlast := ((separated_append.mp h.separated).1.mem hin).2.2
        have hnext := (separated_append.mp h.separated).2.1
        omega
      · rcases List.mem_cons.mp hin with rfl | hin
        · exact hgreatest b hypast hblimit
        · have hnot := hback y hin
          have hycount : n ≤ y.count := by unfold past at hypast; omega
          rw [hfit y hy hycount, decide_eq_false_iff_not] at hnot
          omega

theorem smmAllocatePages_address (h : Represents map free) (hn : 0 < n) (haligned : memory % EFI_PAGE_SIZE = 0)
    (hend : memory + n * EFI_PAGE_SIZE < 2 ^ 64) :
    (internalAllocAddress map n memory = (none, map) ∧ ¬ pagesFrom (memory / EFI_PAGE_SIZE) n ⊆ free)
    ∨ pagesFrom (memory / EFI_PAGE_SIZE) n ⊆ free ∧ ∃ map', internalAllocAddress map n memory = (some memory, map')
      ∧ Represents map' (free \ pagesFrom (memory / EFI_PAGE_SIZE) n) := by
  have hsize : uintn (memory + pagesToSize n) = memory + n * EFI_PAGE_SIZE := by
    unfold uintn pagesToSize uintn
    unfold EFI_PAGE_SIZE at *
    omega
  unfold internalAllocAddress
  rw [if_neg (by omega), hsize]
  dsimp only
  cases hsplit : splitLast (fun pages => address pages ≤ memory) map with
  | none =>
    refine Or.inl ⟨rfl, fun hfree => ?_⟩
    obtain ⟨y, hy, hfirst, hpast⟩ := h.one hn hfree
    have hnot := of_decide_eq_false (splitLast_none hsplit y hy)
    unfold address EFI_PAGE_SIZE at hnot
    unfold EFI_PAGE_SIZE at *
    omega
  | some found =>
    obtain ⟨front, x, back⟩ := found
    obtain ⟨rfl, hx, hback⟩ := splitLast_some hsplit
    have hx : address x ≤ memory := of_decide_eq_true hx
    have hmem : x ∈ front ++ x :: back := List.mem_append_right _ List.mem_cons_self
    obtain ⟨hfirst, hpos, hpast⟩ := h.mem hmem
    have hpastAddress : uintn (address x + pagesToSize x.count) = x.past * EFI_PAGE_SIZE := by
      unfold past at hpast ⊢
      unfold uintn address pagesToSize uintn EFI_PAGE_SIZE
      omega
    dsimp only
    rw [hpastAddress]
    by_cases hshort : x.past * EFI_PAGE_SIZE < memory + n * EFI_PAGE_SIZE
    · rw [if_pos hshort]
      refine Or.inl ⟨rfl, fun hfree => ?_⟩
      obtain ⟨y, hy, hyfirst, hypast⟩ := h.one hn hfree
      unfold EFI_PAGE_SIZE at *
      rcases List.mem_append.mp hy with hin | hin
      · have hlast := ((separated_append.mp h.separated).1.mem hin).2.2
        have hnext := (separated_append.mp h.separated).2.1
        unfold address EFI_PAGE_SIZE at hx
        omega
      · rcases List.mem_cons.mp hin with rfl | hin
        · omega
        · have hnot := of_decide_eq_false (hback y hin)
          unfold address EFI_PAGE_SIZE at hnot
          omega
    · rw [if_neg hshort]
      unfold address at hx
      have hlimit' : (memory + n * EFI_PAGE_SIZE + 1) / EFI_PAGE_SIZE = memory / EFI_PAGE_SIZE + n := by
        unfold EFI_PAGE_SIZE at *
        omega
      have hfirst' : x.first ≤ memory / EFI_PAGE_SIZE := (Nat.le_div_iff_mul_le (by decide)).mpr hx
      have hpast' : memory / EFI_PAGE_SIZE + n ≤ x.past := by
        unfold EFI_PAGE_SIZE at *
        omega
      have hcount : n ≤ x.count := by
        unfold past at hpast'
        omega
      obtain ⟨a, halloc, ha, hend', hlimit, hgreatest⟩ := internalAllocPagesOnOneNode_eq hfirst hpast hend hn hcount (by omega)
      -- the pages that are asked for are the last ones that may be taken
      have heq : a = memory / EFI_PAGE_SIZE := by
        have hle := hgreatest (memory / EFI_PAGE_SIZE) hpast' (by omega)
        omega
      subst heq
      refine Or.inr ⟨h.subset hmem ha hend', _, ?_, represents_carve h hn ha hend'⟩
      rw [halloc]
      dsimp only
      rw [Nat.div_mul_cancel (Nat.dvd_of_mod_eq_zero haligned)]

/-! ## Release -/

theorem locateNode_spec : ∀ {map rev rev' rest : List Interval}, locateNode memory rev map = (rev', rest) →
    rev'.reverse ++ rest = rev.reverse ++ map ∧ (∀ y ∈ rest.head?, memory < address y)
      ∧ ∀ y ∈ rev', y ∈ rev ∨ address y ≤ memory
  | [], rev, rev', rest, h => by
    cases h
    exact ⟨rfl, fun y hy => (nomatch hy), fun y hy => Or.inl hy⟩
  | z :: map, rev, rev', rest, h => by
    unfold locateNode at h
    by_cases hlt : memory < address z
    · rw [if_pos hlt] at h
      cases h
      exact ⟨rfl, fun y hy => by cases hy; exact hlt, fun y hy => Or.inl hy⟩
    · rw [if_neg hlt] at h
      obtain ⟨hsplit, hnext, hbefore⟩ := locateNode_spec h
      refine ⟨?_, hnext, fun y hy => ?_⟩
      · rw [hsplit, List.reverse_cons, List.append_assoc]
        rfl
      · rcases hbefore y hy with hin | hle
        · rcases List.mem_cons.mp hin with rfl | hin
          · exact Or.inr (Nat.le_of_not_lt hlt)
          · exact Or.inl hin
        · exact Or.inr hle

/-- The end of the last interval, which stands first. -/
theorem pastAll_reverse (lo : Nat) (rev : List Interval) : pastAll lo rev.reverse = (rev.head?.map past).getD lo := by
  cases rev with
  | nil => rfl
  | cons y rest =>
    unfold pastAll
    rw [List.reverse_cons, List.foldl_append]
    rfl

/-- Pages are freed if none of them is free, and if they begin with a page. -/
theorem smmFreePages_spec (h : Represents map free) (hpos : 0 < memory) (hn : 0 < n) (hend : memory + n * EFI_PAGE_SIZE < 2 ^ 64) :
    (memory % EFI_PAGE_SIZE = 0 ∧ Disjoint free (pagesFrom (memory / EFI_PAGE_SIZE) n)
      ∧ ∃ map', smmFreePages memory n map = (.success, map') ∧ Represents map' (free ∪ pagesFrom (memory / EFI_PAGE_SIZE) n))
    ∨ smmFreePages memory n map = (.invalidParameter, map)
      ∧ ¬ (memory % EFI_PAGE_SIZE = 0 ∧ Disjoint free (pagesFrom (memory / EFI_PAGE_SIZE) n)) := by
  unfold smmFreePages
  by_cases haligned : memory % EFI_PAGE_SIZE = 0
  · rw [if_neg (fun hne => hne haligned)]
    obtain ⟨a, ha⟩ : ∃ a, memory / EFI_PAGE_SIZE = a := ⟨_, rfl⟩
    have hmemory : memory = a * EFI_PAGE_SIZE := by rw [← ha, Nat.div_mul_cancel (Nat.dvd_of_mod_eq_zero haligned)]
    rw [ha]
    subst hmemory
    have hbound : 0 < a ∧ a + n < 2 ^ 52 := by
      unfold EFI_PAGE_SIZE at hpos hend
      omega
    have hsize : uintn (a * EFI_PAGE_SIZE + pagesToSize n) = (a + n) * EFI_PAGE_SIZE := by
      unfold uintn pagesToSize uintn EFI_PAGE_SIZE
      omega
    cases hlocate : locateNode (a * EFI_PAGE_SIZE) [] map with
    | mk rev rest =>
      obtain ⟨hsplit, hnext, hbefore⟩ := locateNode_spec hlocate
      have hsplit : map = rev.reverse ++ rest := hsplit.symm
      subst hsplit
      have hbefore : ∀ y ∈ rev, y.first ≤ a := fun y hy =>
        Nat.le_of_mul_le_mul_right ((hbefore y hy).resolve_left fun hin => (nomatch hin)) (by decide)
      have hnext : ∀ y ∈ rest.head?, a < y.first := fun y hy => Nat.lt_of_mul_lt_mul_right (hnext y hy)
      have hmem : ∀ y ∈ rev, y ∈ rev.reverse ++ rest := fun y hy => List.mem_append_left _ (List.mem_reverse.mpr hy)
      dsimp only
      -- a page in the range that is free refuses the request
      have hrefuse : ∀ p, p ∈ free → a ≤ p → p < a + n → ¬ (a * EFI_PAGE_SIZE % EFI_PAGE_SIZE = 0 ∧ Disjoint free (pagesFrom a n)) :=
        fun p hp h1 h2 hdisjoint => Set.disjoint_left.mp hdisjoint.2 hp ⟨h1, h2⟩
      by_cases hover : overlapsNext (a * EFI_PAGE_SIZE) n rest = true
      · rw [if_pos hover]
        cases rest with
        | nil => cases hover
        | cons z rest =>
          have hlt : address z < uintn (a * EFI_PAGE_SIZE + pagesToSize n) := of_decide_eq_true hover
          rw [hsize] at hlt
          have hz : z ∈ rev.reverse ++ z :: rest := List.mem_append_right _ List.mem_cons_self
          have hzpos := (h.mem hz).2.1
          have hzfree := (h.covers z.first).mpr ⟨z, hz, Nat.le_refl _, by unfold past; omega⟩
          exact Or.inr ⟨rfl, hrefuse z.first hzfree (Nat.le_of_lt (hnext z rfl)) (Nat.lt_of_mul_lt_mul_right hlt)⟩
      · rw [if_neg hover]
        by_cases hunder : overlapsPrevious (a * EFI_PAGE_SIZE) rev = true
        · rw [if_pos hunder]
          cases rev with
          | nil => cases hunder
          | cons y rev =>
            have hlt : a * EFI_PAGE_SIZE < uintn (address y + pagesToSize y.count) := of_decide_eq_true hunder
            obtain ⟨hyfirst, hypos, hypast⟩ := h.mem (hmem y List.mem_cons_self)
            have hlt : a < y.past := by
              unfold past at hypast ⊢
              unfold uintn address pagesToSize uintn EFI_PAGE_SIZE at hlt
              omega
            have hfree := (h.covers a).mpr ⟨y, hmem y List.mem_cons_self, hbefore y List.mem_cons_self, hlt⟩
            exact Or.inr ⟨rfl, hrefuse a hfree (Nat.le_refl a) (by omega)⟩
        · rw [if_neg hunder]
          obtain ⟨hfront, hback⟩ := separated_append.mp h.separated
          have hlast : pastAll 0 rev.reverse ≤ a := by
            rw [pastAll_reverse]
            cases rev with
            | nil => exact Nat.zero_le a
            | cons y rev =>
              obtain ⟨hyfirst, hypos, hypast⟩ := h.mem (hmem y List.mem_cons_self)
              have hle : ¬ a * EFI_PAGE_SIZE < uintn (address y + pagesToSize y.count) := fun hlt => hunder (decide_eq_true hlt)
              change y.past ≤ a
              unfold past at hypast ⊢
              unfold uintn address pagesToSize uintn EFI_PAGE_SIZE at hle
              omega
          have hbehind : Separated (a + n - 1) rest := by
            cases rest with
            | nil => trivial
            | cons z rest =>
              have hle : ¬ address z < uintn (a * EFI_PAGE_SIZE + pagesToSize n) := fun hlt => hover (decide_eq_true hlt)
              rw [hsize] at hle
              have hge := Nat.le_of_mul_le_mul_right (Nat.le_of_not_lt hle) (show 0 < EFI_PAGE_SIZE by decide)
              exact ⟨by omega, hback.2⟩
          have hdisjoint : Disjoint free (pagesFrom a n) := by
            refine Set.disjoint_left.mpr fun p hp hin => ?_
            obtain ⟨h1, h2⟩ := mem_pagesFrom.mp hin
            rcases covers_append.mp ((h.covers p).mp hp) with hcovers | hcovers
            · have hbounds := hfront.covers_bounds hcovers
              omega
            · have hbounds := hbehind.covers_bounds hcovers
              omega
          refine Or.inl ⟨haligned, hdisjoint, _, rfl, ?_, fun p hp => ?_, fun p => ?_⟩
          · exact separated_insert hn hfront hbound.1 hlast hbehind
          · rcases hp with hp | hp
            · exact h.bounded p hp
            · have hrange := mem_pagesFrom.mp hp
              omega
          · rw [covers_insert, ← h.covers]
            exact Iff.rfl
  · rw [if_pos haligned]
    exact Or.inr ⟨rfl, fun hboth => haligned hboth.1⟩

/-! ## Runs -/

theorem allocate_means (h : Represents map free) {type : AllocateType} {runtime : Bool}
    (hsane : (Request.allocate type runtime n memory).Sane) {result : EfiStatus × Nat × List Interval}
    (hr : smmAllocatePages type runtime n memory map = result) :
    ∃ free', (Request.allocate type runtime n memory).Means free (result.1, result.2.1) free' ∧ Represents result.2.2 free' := by
  obtain ⟨hn, hn', hmemory, hend⟩ := hsane
  unfold smmAllocatePages at hr
  unfold Request.Means
  cases runtime with
  | false =>
    subst hr
    exact ⟨free, ⟨rfl, rfl⟩, h⟩
  | true =>
    have htrue : ¬ true = false := by decide
    simp only [if_neg htrue]
    rw [if_neg (show ¬ (!true) = true by decide)] at hr
    by_cases hlong : 2 ^ 52 < n
    · rw [if_pos hlong] at hr
      subst hr
      by_cases htype : type = .address
      · have hend := hend htype
        unfold EFI_PAGE_SIZE at hend
        omega
      · simp only [if_neg htype]
        -- there are not so many pages
        refine ⟨free, Or.inr ⟨trivial, rfl, fun a hfits => ?_⟩, h⟩
        have hlast := h.bounded (a + n - 1) (hfits.1 ⟨by omega, by omega⟩)
        omega
    · rw [if_neg hlong] at hr
      have hany : ∀ maxAddress, maxAddress < 2 ^ 64 → (internalAllocMaxAddress map n maxAddress).elim
            (EfiStatus.outOfResources, 2 ^ 64 - 1, map) (fun r => (.success, r)) = result →
          ∃ free', ((∃ a, (result.1, result.2.1) = (.success, a * EFI_PAGE_SIZE) ∧ IsGreatest {a | Fits free n maxAddress a} a
              ∧ free' = free \ pagesFrom a n)
            ∨ (result.1 = .outOfResources ∧ free' = free ∧ ∀ a, ¬ Fits free n maxAddress a)) ∧ Represents result.2.2 free' := by
        intro maxAddress hmax hr
        rcases smmAllocatePages_any h hn hmax with ⟨hnone, hnot⟩ | ⟨a, map', hsome, hgreatest, hrep⟩
        · rw [hnone] at hr
          subst hr
          exact ⟨free, Or.inr ⟨rfl, rfl, hnot⟩, h⟩
        · rw [hsome] at hr
          subst hr
          exact ⟨_, Or.inl ⟨a, rfl, hgreatest, rfl⟩, hrep⟩
      cases type with
      | anyPages => exact hany (2 ^ 64 - 1) (by decide) hr
      | maxAddress => exact hany memory hmemory hr
      | address =>
        dsimp only at hr
        simp only [if_pos]
        by_cases haligned : memory % EFI_PAGE_SIZE = 0
        · rcases smmAllocatePages_address h hn haligned (hend rfl) with ⟨hnone, hnot⟩ | ⟨hfree, map', hsome, hrep⟩
          · rw [hnone] at hr
            subst hr
            exact ⟨free, Or.inr ⟨rfl, rfl, fun hboth => hnot hboth.2⟩, h⟩
          · rw [hsome] at hr
            dsimp only at hr
            rw [if_neg (fun hne => hne rfl)] at hr
            subst hr
            exact ⟨_, Or.inl ⟨rfl, haligned, hfree, rfl⟩, hrep⟩
        · have hnone : internalAllocAddress map n memory = (none, map) := if_pos haligned
          rw [hnone] at hr
          subst hr
          exact ⟨free, Or.inr ⟨rfl, rfl, fun hboth => haligned hboth.1⟩, h⟩

theorem free_means (h : Represents map free) (hsane : (Request.free memory n).Sane) :
    ∃ free', (Request.free memory n).Means free ((smmFreePages memory n map).1, memory) free'
      ∧ Represents (smmFreePages memory n map).2 free' := by
  rcases smmFreePages_spec h hsane.1 hsane.2.1 hsane.2.2 with ⟨haligned, hdisjoint, map', hok, hrep⟩ | ⟨hfail, hnot⟩
  · rw [hok]
    exact ⟨_, Or.inl ⟨rfl, haligned, hdisjoint, rfl⟩, hrep⟩
  · rw [hfail]
    exact ⟨free, Or.inr ⟨rfl, rfl, hnot⟩, h⟩

/-- The region is freed from its first whole page on to its last one. -/
theorem addRegion_means (h : Represents map free) {memBase memLength attributes : Nat}
    (hsane : (Request.addRegion memBase memLength attributes).Sane) :
    ∃ free', (Request.addRegion memBase memLength attributes).Means free (.success, memBase) free'
      ∧ Represents (smmAddMemoryRegion memBase memLength attributes map) free' := by
  obtain ⟨hpos, hend, hpages⟩ := hsane
  unfold smmAddMemoryRegion Request.Means
  by_cases hattributes : attributes &&& notUsable = 0
  · rw [if_neg (fun hne => hne hattributes)]
    have haligned : alignedMemBase memBase = (memBase + (EFI_PAGE_SIZE - 1)) / EFI_PAGE_SIZE * EFI_PAGE_SIZE := by
      unfold alignedMemBase uintn
      rw [Nat.mod_eq_of_lt]
      unfold EFI_PAGE_SIZE at hpages ⊢
      omega
    have hcount : uintn (memLength + (2 ^ 64 - uintn (alignedMemBase memBase + (2 ^ 64 - memBase)))) / EFI_PAGE_SIZE =
        (memBase + memLength) / EFI_PAGE_SIZE - (memBase + (EFI_PAGE_SIZE - 1)) / EFI_PAGE_SIZE := by
      rw [haligned]
      unfold uintn EFI_PAGE_SIZE at *
      omega
    dsimp only
    rw [hcount, haligned]
    have hdiv : (memBase + (EFI_PAGE_SIZE - 1)) / EFI_PAGE_SIZE * EFI_PAGE_SIZE / EFI_PAGE_SIZE =
        (memBase + (EFI_PAGE_SIZE - 1)) / EFI_PAGE_SIZE := Nat.mul_div_cancel _ (by decide)
    have hsum : (memBase + memLength) / EFI_PAGE_SIZE * EFI_PAGE_SIZE ≤ memBase + memLength := Nat.div_mul_le_self _ _
    have hfirst : 0 < (memBase + (EFI_PAGE_SIZE - 1)) / EFI_PAGE_SIZE := by
      unfold EFI_PAGE_SIZE
      omega
    generalize (memBase + (EFI_PAGE_SIZE - 1)) / EFI_PAGE_SIZE = first at hpages hdiv hfirst
    generalize (memBase + memLength) / EFI_PAGE_SIZE = last at hpages hsum
    have hlast : first * EFI_PAGE_SIZE + (last - first) * EFI_PAGE_SIZE < 2 ^ 64 := by
      rw [← Nat.add_mul, Nat.add_sub_cancel' (Nat.le_of_lt hpages)]
      omega
    have hspec := smmFreePages_spec h (Nat.mul_pos hfirst (by decide)) (Nat.sub_pos_of_lt hpages) hlast
    rw [hdiv] at hspec
    rcases hspec with ⟨-, hdisjoint, map', hok, hrep⟩ | ⟨hfail, hnot⟩
    · rw [hok]
      exact ⟨_, Or.inl ⟨hattributes, hdisjoint, rfl⟩, hrep⟩
    · rw [hfail]
      exact ⟨free, Or.inr ⟨rfl, fun hboth => hnot ⟨Nat.mul_mod_left _ _, hboth.2⟩⟩, h⟩
  · rw [if_pos hattributes]
    exact ⟨free, Or.inr ⟨rfl, fun hboth => hattributes hboth.1⟩, h⟩

theorem perform_means (h : Represents map free) (hsane : q.Sane) :
    ∃ free', q.Means free ((q.perform map).1, (q.perform map).2.1) free' ∧ Represents (q.perform map).2.2 free' := by
  cases q with
  | allocate type runtime n memory => exact allocate_means h hsane rfl
  | free memory n => exact free_means h hsane
  | addRegion memBase memLength attributes => exact addRegion_means h hsane

theorem run_meant : ∀ (qs : List Request) {map : List Interval} {free : Set Nat}, Represents map free → (∀ q ∈ qs, q.Sane) →
    ∃ free', Meant free qs (run qs map).1 free' ∧ Represents (run qs map).2 free'
  | [], _, free, h, _ => ⟨free, .nil, h⟩
  | q :: qs, map, free, h, hsane => by
    obtain ⟨hfirst, hrest⟩ := List.forall_mem_cons.mp hsane
    obtain ⟨free', hmeans, h'⟩ := perform_means h hfirst
    obtain ⟨free'', hmeant, h''⟩ := run_meant qs h' hrest
    exact ⟨free'', .cons hmeans hmeant, h''⟩

theorem represents_nil : Represents [] ∅ := ⟨trivial, fun _ hp => (nomatch hp), fun _ => iff_of_false (fun hp => hp) covers_nil⟩

/-- Every run of the page services is one of the set of the free pages, and leaves the list of what the set has become. -/
theorem pages_refine (qs : List Request) (hsane : ∀ q ∈ qs, q.Sane) :
    ∃ free, Meant ∅ qs (run qs []).1 free ∧ Represents (run qs []).2 free :=
  run_meant qs represents_nil hsane

/-- A region of 64 KB, of which two pages are given out and freed again. -/
def twoPages : List Request :=
  [.addRegion 0x70000000 0x10000 0, .allocate .anyPages true 2 0, .free 0x7000e000 2]

theorem pages_refine_once : ∃ free, Meant ∅ twoPages (run twoPages []).1 free ∧ Represents (run twoPages []).2 free := by
  refine pages_refine twoPages fun q hq => ?_
  rcases List.mem_cons.mp hq with rfl | hq
  · exact ⟨by decide, by decide, by decide⟩
  · rcases List.mem_cons.mp hq with rfl | hq
    · exact ⟨by decide, by decide, by decide, fun ht => (nomatch ht)⟩
    · cases List.mem_singleton.mp hq
      exact ⟨by decide, by decide, by decide⟩

/-! ## Owners -/

/-- The request gives the page back, or brings it in. -/
def Request.Gives (p : Nat) : Request → Prop
  | .free memory n => p ∈ pagesFrom (memory / EFI_PAGE_SIZE) n
  | .addRegion memBase memLength _ => memBase ≤ p * EFI_PAGE_SIZE ∧ p * EFI_PAGE_SIZE < memBase + memLength
  | .allocate _ _ _ _ => False

/-- The request has been granted the page. -/
def Request.Granted (p : Nat) (result : EfiStatus × Nat) : Request → Prop
  | .allocate _ _ n _ => result.1 = .success ∧ p ∈ pagesFrom (result.2 / EFI_PAGE_SIZE) n
  | _ => False

/-- A page that is not free stays so until it is given back, and is not granted until then. -/
theorem means_taken {result : EfiStatus × Nat} (hq : q.Means free result free') (hp : p ∉ free) (hkeep : ¬ q.Gives p) :
    p ∉ free' ∧ ¬ q.Granted p result := by
  cases q with
  | allocate type runtime n memory =>
    unfold Request.Means at hq
    dsimp only at hq
    have htaken : ∀ a, pagesFrom a n ⊆ free → p ∉ free \ pagesFrom a n ∧ p ∉ pagesFrom a n :=
      fun a hfree => ⟨fun hin => hp hin.1, fun hin => hp (hfree hin)⟩
    split at hq
    · exact ⟨hq.2 ▸ hp, fun hg => EfiStatus.noConfusion (hq.1.symm.trans hg.1)⟩
    · split at hq
      · rcases hq with ⟨rfl, -, hfree, rfl⟩ | ⟨hfail, rfl, -⟩
        · exact ⟨(htaken _ hfree).1, fun hg => (htaken _ hfree).2 hg.2⟩
        · exact ⟨hp, fun hg => EfiStatus.noConfusion (hfail.symm.trans hg.1)⟩
      · rcases hq with ⟨a, rfl, hgreatest, rfl⟩ | ⟨hfail, rfl, -⟩
        · have hfree := hgreatest.1.1
          refine ⟨(htaken a hfree).1, fun hg => (htaken a hfree).2 ?_⟩
          have hin := hg.2
          rwa [Nat.mul_div_cancel a (show 0 < EFI_PAGE_SIZE by decide)] at hin
        · exact ⟨hp, fun hg => EfiStatus.noConfusion (hfail.symm.trans hg.1)⟩
  | free memory n =>
    refine ⟨?_, fun hg => hg⟩
    rcases hq with ⟨-, -, -, rfl⟩ | ⟨-, rfl, -⟩
    · exact fun hin => hin.elim hp hkeep
    · exact hp
  | addRegion memBase memLength attributes =>
    refine ⟨?_, fun hg => hg⟩
    rcases hq with ⟨-, -, rfl⟩ | ⟨rfl, -⟩
    · refine fun hin => hin.elim hp fun hrange => hkeep ?_
      obtain ⟨h1, h2⟩ := mem_pagesFrom.mp hrange
      constructor
      · unfold EFI_PAGE_SIZE at h1 ⊢
        omega
      · unfold EFI_PAGE_SIZE at h1 h2 ⊢
        omega
    · exact hp

theorem meant_taken {results : List (EfiStatus × Nat)} (hrun : Meant free qs results free') (hp : p ∉ free)
    (hkeep : ∀ q ∈ qs, ¬ q.Gives p) : p ∉ free' ∧ ∀ z ∈ qs.zip results, ¬ z.1.Granted p z.2 := by
  induction hrun with
  | nil => exact ⟨hp, fun z hz => (nomatch hz)⟩
  | cons hq hrun ih =>
    obtain ⟨hfirst, hrest⟩ := List.forall_mem_cons.mp hkeep
    obtain ⟨hp', hnot⟩ := means_taken hq hp hfirst
    obtain ⟨hp'', hnots⟩ := ih hp' hrest
    exact ⟨hp'', List.forall_mem_cons.mpr ⟨hnot, hnots⟩⟩

/-- A page that has been granted is not granted again before it is given back. -/
theorem pages_exclusive (before after : List Request) (type : AllocateType) (runtime : Bool) (n memory a p : Nat)
    (hbefore : ∀ q ∈ before, q.Sane) (hsane : (Request.allocate type runtime n memory).Sane) (hafter : ∀ q ∈ after, q.Sane)
    {map : List Interval}
    (hgranted : smmAllocatePages type runtime n memory (run before []).2 = (.success, a, map))
    (hp : p ∈ pagesFrom (a / EFI_PAGE_SIZE) n) (hkeep : ∀ q ∈ after, ¬ q.Gives p) :
    ∀ z ∈ after.zip (run after map).1, ¬ z.1.Granted p z.2 := by
  obtain ⟨free, -, h⟩ := run_meant before represents_nil hbefore
  obtain ⟨free', hmeans, h'⟩ := allocate_means h hsane hgranted
  obtain ⟨free'', hmeant, -⟩ := run_meant after h' hafter
  refine (meant_taken hmeant ?_ hkeep).2
  unfold Request.Means at hmeans
  dsimp only at hmeans
  split at hmeans
  · cases hmeans.1
  · split at hmeans
    · rcases hmeans with ⟨heq, -, -, rfl⟩ | ⟨hfail, -, -⟩
      · cases heq
        exact fun hin => hin.2 hp
      · cases hfail
    · rcases hmeans with ⟨b, heq, -, rfl⟩ | ⟨hfail, -, -⟩
      · cases heq
        rw [Nat.mul_div_cancel b (show 0 < EFI_PAGE_SIZE by decide)] at hp
        exact fun hin => hin.2 hp
      · cases hfail

theorem pages_exclusive_once :
    (run [.allocate .anyPages true 1 0]
        (smmAllocatePages .anyPages true 2 0 (run [.addRegion 0x70000000 0x10000 0] []).2).2.2).1 = [(.success, 0x7000d000)]
      ∧ ¬ (Request.allocate .anyPages true 1 0).Granted 0x7000f (.success, 0x7000d000) := by
  have hbefore : (Request.addRegion 0x70000000 0x10000 0).Sane := ⟨by decide, by decide, by decide⟩
  have hafter : ∀ n, 0 < n → n < 2 ^ 64 → (Request.allocate .anyPages true n 0).Sane :=
    fun n hn hn' => ⟨hn, hn', by decide, fun ht => (nomatch ht)⟩
  have hgranted : smmAllocatePages .anyPages true 2 0 (run [.addRegion 0x70000000 0x10000 0] []).2 =
    (.success, 0x7000e000, (smmAllocatePages .anyPages true 2 0 (run [.addRegion 0x70000000 0x10000 0] []).2).2.2) := rfl
  refine ⟨rfl, ?_⟩
  -- the page 0x7000f is one of the two that are still granted
  have hnot := pages_exclusive [.addRegion 0x70000000 0x10000 0] [.allocate .anyPages true 1 0] .anyPages true 2 0 0x7000e000 0x7000f
    (List.forall_mem_singleton.mpr hbefore) (hafter 2 (by decide) (by decide))
    (List.forall_mem_singleton.mpr (hafter 1 (by decide) (by decide))) hgranted ⟨by decide, by decide⟩
    (List.forall_mem_singleton.mpr fun h => h)
  exact hnot (.allocate .anyPages true 1 0, .success, 0x7000d000) (List.mem_singleton.mpr rfl)

end BayTrail.Smm.Pages
