import BayTrail.Bds.DList
import BayTrail.Bds.SortList

/-!
# SortList sorts

The links of `SortList` follow the passes over the list: each pass leaves the list that
merging its runs in pairs gives. The sort stops with the first pass whose number of merges,
in 32 bits, is at most one.
-/

namespace BayTrail.Bds.DList

open BayTrail.Lib

variable {ν : Type} {compare : ν → ν → Int} {h : Links ν} {d : ListEnds ν} {l : List ν} {s : Merge ν}
  {out ps qs : List ν} {e x : ν}
variable {n qSize : Nat}

/-- The first run ends where the second one starts. -/
theorem runLoop_chain {next : ν → Option ν} (pSize : Nat) {p : ν} (hl : Chain next (some p) l none) (hne : l ≠ []) :
    runLoop next n p pSize = (pSize + min n l.length, (l.drop n).head?) := by
  induction n generalizing p pSize l with
  | zero => rw [runLoop, Nat.zero_min, Nat.add_zero, List.drop_zero, ← hl.head]
  | succ n ih =>
    cases l with
    | nil => exact absurd rfl hne
    | cons x l =>
      obtain ⟨hx, hrest⟩ := hl
      cases Option.some.inj hx
      rw [runLoop, hrest.head]
      cases l with
      | nil => simp
      | cons y l =>
        have := ih (pSize + 1) (by rw [hrest.head] at hrest; exact hrest) (List.cons_ne_nil y l)
        simp only [List.head?_cons, this, List.length_cons, List.drop_succ_cons, Prod.mk.injEq, and_true]
        omega

/-! ## Two runs -/

/-- In the middle of a merge, the list that is built and what is left of the two runs. -/
structure Merging (s : Merge ν) (out ps qs : List ν) : Prop where
  built : Linked s.links s.mergeList out
  first : ∃ r, Chain s.links.next s.p ps r
  second : Chain s.links.next s.q qs none
  nodup : (out ++ (ps ++ qs)).Nodup
  room : (out ++ (ps ++ qs)).length < 2 ^ 64
  pSize : s.pSize = ps.length

/-- What a merge leaves: the runs in the list that is built, and the rest from `q` on. -/
structure Merged (compare : ν → ν → Int) (out ps qs : List ν) (qSize : Nat) (s : Merge ν) : Prop where
  built : Linked s.links s.mergeList (out ++ ps.merge (qs.take qSize) (before compare))
  rest : Chain s.links.next s.q (qs.drop qSize) none

theorem Merged.first (h : Merged compare (out ++ [x]) ps qs qSize s)
    (hmerge : (x :: ps).merge (qs.take qSize) (before compare) = x :: ps.merge (qs.take qSize) (before compare)) :
    Merged compare out (x :: ps) qs qSize s := by
  refine ⟨?_, h.rest⟩
  rw [hmerge, List.append_cons]
  exact h.built

theorem Merged.second (h : Merged compare (out ++ [x]) ps qs qSize s)
    (hmerge : ps.merge (x :: qs.take qSize) (before compare) = x :: ps.merge (qs.take qSize) (before compare)) :
    Merged compare out ps (x :: qs) (qSize + 1) s := by
  refine ⟨?_, h.rest⟩
  rw [List.take_succ_cons, hmerge, List.append_cons]
  exact h.built

/-- Both runs are at their ends. -/
theorem Merging.merged (hm : Merging s out [] qs) (hdone : s.qSize = 0 ∨ qs = []) : Merged compare out [] qs s.qSize s := by
  have htake : qs.take s.qSize = [] := List.take_eq_nil_iff.mpr hdone
  have hdrop : qs.drop s.qSize = qs := by
    have := List.take_append_drop s.qSize qs
    rwa [htake, List.nil_append] at this
  refine ⟨?_, by rw [hdrop]; exact hm.second⟩
  rw [htake, List.nil_merge, List.append_nil]
  exact hm.built

section add

variable [DecidableEq ν]

theorem dListAdd_first (hhead : d.head = none) : dListAdd h d e
    = some (⟨Function.update h.next e none, Function.update h.prev e d.tail⟩, ⟨some e, some e, d.size + 1⟩) := by
  rw [dListAdd, hhead]
  rfl

theorem dListAdd_last {t : ν} (hhead : d.head.isNone = false) (htail : d.tail = some t) : dListAdd h d e
    = some (⟨Function.update (Function.update h.next e none) t (some e), Function.update h.prev e d.tail⟩,
      ⟨d.head, some e, d.size + 1⟩) := by
  rw [dListAdd, hhead, htail]
  rfl

theorem dListAdd_linked (hl : Linked h d l) (he : e ∉ l) (hroom : l.length + 1 < 2 ^ 64) :
    ∃ r, dListAdd h d e = some r ∧ Linked r.1 r.2 (l ++ [e]) ∧ ∀ x, x ∉ l → x ≠ e → r.1.next x = h.next x := by
  have hnodup : (l ++ [e]).Nodup := by
    rw [List.nodup_append]
    refine ⟨hl.nodup, List.nodup_singleton e, fun x hx y hy hxy => he ?_⟩
    rwa [← List.mem_singleton.mp hy, ← hxy]
  have hsize : (d.size + 1).toNat = (l ++ [e]).length := by
    rw [UInt64.toNat_add, hl.size, List.length_append, List.length_singleton]
    exact Nat.mod_eq_of_lt hroom
  have hback : Back (Function.update h.prev e d.tail) none (l ++ [e]) := by
    refine back_snoc.mpr ⟨hl.backward.congr fun x hx => ?_, ?_⟩
    · have hxe : x ≠ e := fun hxe => he (hxe ▸ hx)
      exact Function.update_of_ne hxe ..
    · rw [Function.update_self, hl.tail, Option.or_none]
  rcases List.eq_nil_or_concat l with rfl | ⟨front, t, hlast⟩
  · have hhead : d.head = none := hl.forward
    refine ⟨_, dListAdd_first hhead, ⟨hnodup, ⟨rfl, ?_⟩, hback, rfl, hsize⟩, fun x _ hx => ?_⟩
    · exact Function.update_self ..
    · exact Function.update_of_ne hx ..
  · rw [List.concat_eq_append] at hlast
    have htail : d.tail = some t := by rw [hl.tail, hlast, List.getLast?_concat]
    have hsome : d.head.isNone = false := by
      rw [hl.forward.head, hlast]
      cases front <;> rfl
    have ht : t ∈ l := by simp [hlast]
    have hte : t ≠ e := fun hte => he (hte ▸ ht)
    obtain ⟨r, hfront, hr⟩ := chain_append.mp (hlast ▸ hl.forward)
    obtain ⟨rfl, -⟩ := hr
    refine ⟨_, dListAdd_last hsome htail, ⟨hnodup, ?_, hback, by simp, hsize⟩, fun x hx hxe => ?_⟩
    · -- only the last link has changed
      rw [hlast, List.append_assoc]
      refine chain_append.mpr ⟨some t, hfront.congr fun x hx => ?_, rfl, ?_, ?_⟩
      · have hxl : x ∈ l := by simp [hlast, hx]
        have hxt : x ≠ t := fun hxt => by
          have := hl.nodup
          rw [hlast, List.nodup_append] at this
          exact this.2.2 x hx t (List.mem_singleton_self t) hxt
        have hxe : x ≠ e := fun hxe => he (hxe ▸ hxl)
        exact (Function.update_of_ne hxt ..).trans (Function.update_of_ne hxe ..)
      · exact Function.update_self ..
      · simp only [Function.update_of_ne hte.symm, Function.update_self, chain_nil]
    · have hxt : x ≠ t := fun hxt => hx (hxt ▸ ht)
      exact (Function.update_of_ne hxt ..).trans (Function.update_of_ne hxe ..)

/-- A node that is left is added to the list that is built: the links of the others stay. -/
theorem Merging.added (hm : Merging s out ps qs) (hperm : (out ++ (ps ++ qs)).Perm (out ++ (x :: rest))) :
    ∃ a, dListAdd s.links s.mergeList x = some a ∧ Linked a.1 a.2 (out ++ [x])
      ∧ (∀ y ∈ rest, a.1.next y = s.links.next y)
      ∧ ((out ++ [x]) ++ rest).Nodup ∧ ((out ++ [x]) ++ rest).length < 2 ^ 64 := by
  have hnodup := hperm.nodup_iff.mp hm.nodup
  have hroom := hm.room
  rw [hperm.length_eq] at hroom
  obtain ⟨hnout, hnrest, hdisjoint⟩ := List.nodup_append.mp hnodup
  rw [List.nodup_cons] at hnrest
  have hx : x ∉ out := fun hx => hdisjoint x hx x (List.mem_cons_self ..) rfl
  have hlen : out.length + 1 < 2 ^ 64 := by
    simp only [List.length_append, List.length_cons] at hroom
    omega
  obtain ⟨a, hadd, hlinked, hframe⟩ := dListAdd_linked hm.built hx hlen
  rw [List.append_assoc]
  exact ⟨a, hadd, hlinked, fun y hy => hframe y (fun hout => hdisjoint y hout y (List.mem_cons_of_mem _ hy) rfl)
    (fun hyx => hnrest.1 (hyx ▸ hy)), hnodup, hroom⟩

theorem takeP_merging (hm : Merging s out (x :: ps) qs) :
    ∃ s', (takeP s).Returns (.again s') ∧ Merging s' (out ++ [x]) ps qs ∧ s'.qSize = s.qSize := by
  obtain ⟨r, hp, hfirst⟩ := hm.first
  obtain ⟨a, hadd, hlinked, hsame, hnodup, hroom⟩ := hm.added (.refl _)
  refine ⟨{ s with links := a.1, mergeList := a.2, p := s.links.next x, pSize := s.pSize - 1 }, ?_,
    ⟨hlinked, ⟨r, hfirst.congr fun y hy => hsame y (List.mem_append_left _ hy)⟩,
    hm.second.congr fun y hy => hsame y (List.mem_append_right _ hy), hnodup, hroom, ?_⟩, rfl⟩
  · exact (Run.returns_ofOption.mpr hp).bind ((Run.returns_ofOption.mpr hadd).bind (Run.returns_pure.mpr rfl))
  · simp [hm.pSize]

theorem takeQ_merging (hm : Merging s out ps (x :: qs)) :
    ∃ s', (takeQ s).Returns (.again s') ∧ Merging s' (out ++ [x]) ps qs ∧ s'.qSize = s.qSize - 1 := by
  obtain ⟨hq, hsecond⟩ := hm.second
  obtain ⟨r, hfirst⟩ := hm.first
  obtain ⟨a, hadd, hlinked, hsame, hnodup, hroom⟩ := hm.added (List.perm_middle.append_left out)
  refine ⟨{ s with links := a.1, mergeList := a.2, q := s.links.next x, qSize := s.qSize - 1 }, ?_,
    ⟨hlinked, ⟨r, hfirst.congr fun y hy => hsame y (List.mem_append_left _ hy)⟩,
    hsecond.congr fun y hy => hsame y (List.mem_append_right _ hy), hnodup, hroom, hm.pSize⟩, rfl⟩
  exact (Run.returns_ofOption.mpr hq).bind ((Run.returns_ofOption.mpr hadd).bind (Run.returns_pure.mpr rfl))

theorem comparedTake_eq {y : ν} (hp : s.p = some x) (hq : s.q = some y) :
    comparedTake compare s = if compare x y > 0 then takeQ s else takeP s := by
  rw [comparedTake, hp, hq]
  rfl

/-- The first run is merged with as many nodes of the rest as there are in the second. -/
theorem mergeLoop_merged (compare : ν → ν → Int) (hm : Merging s out ps qs) :
    ∃ s', (Run.loop (mergeRound compare) s).Returns s' ∧ Merged compare out ps qs s.qSize s' := by
  induction hn : ps.length + s.qSize using Nat.strong_induction_on generalizing s out ps qs with
  | _ n ih =>
    have hp := hm.pSize
    -- each round takes a node of one of the runs
    have hfirst : ∀ x ps', ps = x :: ps' → mergeRound compare s = takeP s →
        (x :: ps').merge (qs.take s.qSize) (before compare) = x :: ps'.merge (qs.take s.qSize) (before compare) →
        ∃ s', (Run.loop (mergeRound compare) s).Returns s' ∧ Merged compare out ps qs s.qSize s' := by
      intro x ps' hps hround hmerge
      subst hps
      obtain ⟨s', htake, hm', hsize⟩ := takeP_merging hm
      rw [List.length_cons] at hn
      obtain ⟨s'', hreturns, hmerged⟩ := ih _ (by rw [hsize]; omega) hm' rfl
      rw [hsize] at hmerged
      exact ⟨s'', Run.loop_again (by rwa [hround]) hreturns, hmerged.first hmerge⟩
    have hsecond : ∀ y qs' k, qs = y :: qs' → s.qSize = k + 1 → mergeRound compare s = takeQ s →
        ps.merge (y :: qs'.take k) (before compare) = y :: ps.merge (qs'.take k) (before compare) →
        ∃ s', (Run.loop (mergeRound compare) s).Returns s' ∧ Merged compare out ps qs s.qSize s' := by
      intro y qs' k hqs hk hround hmerge
      subst hqs
      obtain ⟨s', htake, hm', hsize⟩ := takeQ_merging hm
      rw [hk, Nat.add_sub_cancel] at hsize
      obtain ⟨s'', hreturns, hmerged⟩ := ih _ (by rw [hsize]; omega) hm' rfl
      rw [hsize] at hmerged
      exact ⟨s'', Run.loop_again (by rwa [hround]) hreturns, hk ▸ hmerged.second hmerge⟩
    rcases Nat.eq_zero_or_eq_succ_pred s.qSize with hzero | hk
    · cases ps with
      | nil =>
        have hstop : ¬ (s.pSize > 0 ∨ (s.qSize > 0 ∧ s.q.isSome)) := by
          rw [hp, hzero]
          simp
        exact ⟨s, Run.loop_done (by rw [mergeRound, if_neg hstop]; exact Run.returns_pure.mpr rfl), hm.merged (Or.inl hzero)⟩
      | cons x ps =>
        rw [List.length_cons] at hp
        refine hfirst x ps rfl ?_ (by rw [hzero, List.take_zero, List.merge_right, List.merge_right])
        rw [mergeRound, if_pos (Or.inl (by omega)), if_neg (by omega), if_pos (Or.inl hzero)]
    · cases qs with
      | nil =>
        have hq : s.q = none := hm.second
        cases ps with
        | nil =>
          have hstop : ¬ (s.pSize > 0 ∨ (s.qSize > 0 ∧ s.q.isSome)) := by
            rw [hp, hq]
            simp
          exact ⟨s, Run.loop_done (by rw [mergeRound, if_neg hstop]; exact Run.returns_pure.mpr rfl), hm.merged (Or.inr rfl)⟩
        | cons x ps =>
          rw [List.length_cons] at hp
          refine hfirst x ps rfl ?_ (by rw [List.take_nil, List.merge_right, List.merge_right])
          rw [mergeRound, if_pos (Or.inl (by omega)), if_neg (by omega), if_pos (Or.inr (by rw [hq]; rfl))]
      | cons y qs =>
        have hq : s.q = some y := hm.second.1
        have hpos : s.qSize > 0 := by omega
        cases ps with
        | nil =>
          refine hsecond y qs _ rfl hk ?_ (by rw [List.nil_merge, List.nil_merge])
          rw [List.length_nil] at hp
          rw [mergeRound, if_pos (Or.inr ⟨hpos, by rw [hq]; rfl⟩), if_pos hp]
        | cons x ps =>
          obtain ⟨r, hpx, -⟩ := hm.first
          rw [List.length_cons] at hp
          have hround : mergeRound compare s = comparedTake compare s := by
            rw [mergeRound, if_pos (Or.inl (by omega)), if_neg (by omega), if_neg (by rw [hq]; simp; omega)]
          rw [comparedTake_eq hpx hq] at hround
          by_cases hxy : compare x y > 0
          · rw [if_pos hxy] at hround
            refine hsecond y qs _ rfl hk hround (List.cons_merge_cons_neg _ _ _ ?_)
            simpa [before] using hxy
          · rw [if_neg hxy] at hround
            refine hfirst x ps rfl hround ?_
            rw [hk, List.take_succ_cons]
            exact List.cons_merge_cons_pos _ _ _ (by simpa [before] using hxy)

end add

/-! ## A pass -/

/-- The list that a pass builds, and the nodes that are not yet in it. -/
structure Passing (s : Pass ν) (out left : List ν) : Prop where
  built : Linked s.links s.mergeList out
  chain : Chain s.links.next s.p left none
  nodup : (out ++ left).Nodup
  room : (out ++ left).length < 2 ^ 64

section pass

variable [DecidableEq ν] {s : Pass ν} {left : List ν} {inSize : Nat}

/-- One round merges the next two runs. -/
theorem passRound_passing (compare : ν → ν → Int) (inSize : Nat) (hp : Passing s out left) (hne : left ≠ []) :
    ∃ s', (passRound compare inSize s).Returns (.again s')
      ∧ Passing s' (out ++ (left.take inSize).merge ((left.drop inSize).take inSize) (before compare)) (left.drop (2 * inSize))
      ∧ s'.noMerges = s.noMerges + 1 := by
  obtain ⟨x, hx⟩ : ∃ x, s.p = some x := by
    obtain ⟨x, l, rfl⟩ := List.exists_cons_of_ne_nil hne
    exact ⟨x, hp.chain.1⟩
  have hchain := hp.chain
  rw [hx] at hchain
  have hrun := runLoop_chain (n := inSize) 0 hchain hne
  rw [Nat.zero_add] at hrun
  obtain ⟨r, hfirst, hsecond⟩ := chain_append.mp ((List.take_append_drop inSize left).symm ▸ hchain)
  have hmerging : Merging ⟨s.links, s.mergeList, some x, (left.drop inSize).head?, min inSize left.length, inSize⟩
      out (left.take inSize) (left.drop inSize) := by
    refine ⟨hp.built, ⟨r, hfirst⟩, ?_, ?_, ?_, List.length_take.symm⟩
    · rwa [← hsecond.head]
    · rw [List.take_append_drop]
      exact hp.nodup
    · rw [List.take_append_drop]
      exact hp.room
  obtain ⟨m, hreturns, hmerged⟩ := mergeLoop_merged compare hmerging
  have hperm : (out ++ (left.take inSize).merge ((left.drop inSize).take inSize) (before compare) ++ left.drop (2 * inSize)).Perm
      (out ++ left) := by
    have hmerge : ((left.take inSize).merge ((left.drop inSize).take inSize) (before compare)).Perm
        (left.take inSize ++ (left.drop inSize).take inSize) := List.merge_perm_append _
    have hsplit : left.take inSize ++ (left.drop inSize).take inSize ++ left.drop (2 * inSize) = left := by
      rw [List.append_assoc, Nat.two_mul, ← List.drop_drop, List.take_append_drop, List.take_append_drop]
    have happend := (hmerge.append_right (left.drop (2 * inSize))).append_left out
    rwa [hsplit, ← List.append_assoc] at happend
  refine ⟨⟨m.links, m.mergeList, m.q, s.noMerges + 1⟩, ?_, ⟨hmerged.built, ?_, hperm.nodup_iff.mpr hp.nodup, ?_⟩, rfl⟩
  · simp only [passRound, hx, hrun]
    exact hreturns.bind (Run.returns_pure.mpr rfl)
  · have hrest := hmerged.rest
    rwa [List.drop_drop, ← Nat.two_mul] at hrest
  · rw [hperm.length_eq]
    exact hp.room

theorem passLoop_passing (hsize : 0 < inSize) {n : Nat} (hp : Passing s out left) (hn : left.length ≤ n) :
    ∃ s', (Run.loop (passRound compare inSize) s).Returns s'
      ∧ Linked s'.links s'.mergeList (out ++ (mergePass compare inSize n left).2)
      ∧ s'.noMerges = s.noMerges + UInt32.ofNat (mergePass compare inSize n left).1 := by
  have hnil : ∀ {s : Pass ν} {out : List ν} (n : Nat), Passing s out [] →
      ∃ s', (Run.loop (passRound compare inSize) s).Returns s' ∧ Linked s'.links s'.mergeList (out ++ (mergePass compare inSize n []).2)
        ∧ s'.noMerges = s.noMerges + UInt32.ofNat (mergePass compare inSize n []).1 := by
    intro s out n hp
    have hend : s.p = none := hp.chain
    refine ⟨s, Run.loop_done ?_, ?_, ?_⟩
    · simp only [passRound, hend]
      exact Run.returns_pure.mpr rfl
    · rw [mergePass_nil, List.append_nil]
      exact hp.built
    · rw [mergePass_nil]
      simp
  induction n generalizing s out left with
  | zero =>
    obtain rfl := List.eq_nil_of_length_eq_zero (Nat.le_zero.mp hn)
    exact hnil 0 hp
  | succ n ih =>
    cases left with
    | nil => exact hnil (n + 1) hp
    | cons x l =>
      obtain ⟨s', hround, hp', hcount⟩ := passRound_passing compare inSize hp (List.cons_ne_nil x l)
      obtain ⟨s'', hreturns, hlinked, hmerges⟩ := ih hp' (by rw [List.length_drop]; omega)
      refine ⟨s'', Run.loop_again hround hreturns, ?_, ?_⟩
      · rw [List.append_assoc] at hlinked
        exact hlinked
      · rw [hmerges, hcount, mergePass, UInt32.ofNat_add, UInt32.add_assoc, UInt32.add_comm 1]
        rfl

end pass

/-! ## The sort -/

/-- Pass `k` is the last one: `NoMerges` has 32 bits. -/
def IsLast (n k : Nat) : Prop := merges n k % 2 ^ 32 ≤ 1

instance (n : Nat) : DecidablePred (IsLast n) := fun _ => inferInstanceAs (Decidable (_ ≤ _))

theorem isLast_63 (hn : n < 2 ^ 64) : IsLast n 63 := by
  have hle : merges n 63 ≤ 1 := Nat.le_of_lt_succ ((Nat.div_lt_iff_lt_mul (Nat.two_pow_pos _)).mpr (by omega))
  exact (Nat.mod_le _ _).trans hle

section sort

variable [DecidableEq ν] {s : Sorting ν} {k : Nat}

theorem sortRound_passes (hl : Linked s.links s.mergeList (passes compare k l)) (hsize : s.inSize.toNat = 2 ^ k)
    (hroom : l.length < 2 ^ 64) :
    ∃ h' d', Linked h' d' (passes compare (k + 1) l) ∧
      (sortRound compare s).Returns (if IsLast l.length k then .done (h', d') else .again ⟨h', d', s.inSize * 2⟩) := by
  have hlength := (passes_perm compare k l).length_eq
  have hp : Passing ⟨s.links, dListInit, s.mergeList.head, 0⟩ [] (passes compare k l) :=
    ⟨linked_nil _, hl.forward, hl.nodup, by rw [List.nil_append, hlength]; exact hroom⟩
  obtain ⟨r, hreturns, hlinked, hmerges⟩ := passLoop_passing (Nat.two_pow_pos k) hp hlength.le
  rw [List.nil_append] at hlinked
  rw [passes_count, UInt32.zero_add] at hmerges
  have hlast : r.noMerges ≤ 1 ↔ IsLast l.length k := by
    rw [UInt32.le_iff_toNat_le, hmerges, UInt32.toNat_ofNat']
    rfl
  refine ⟨r.links, r.mergeList, hlinked, ?_⟩
  rw [← hsize] at hreturns
  refine hreturns.bind ?_
  by_cases hdone : IsLast l.length k
  · rw [if_pos hdone, if_pos (hlast.mpr hdone)]
    exact Run.returns_pure.mpr rfl
  · rw [if_neg hdone, if_neg fun h => hdone (hlast.mp h)]
    exact Run.returns_pure.mpr rfl

/-- The sort runs to its last pass. -/
theorem sortLoop_passes {last : Nat} (hlast : IsLast l.length last) (hfirst : ∀ k < last, ¬ IsLast l.length k) (h63 : last ≤ 63)
    (hroom : l.length < 2 ^ 64) (hk : k ≤ last) (hl : Linked s.links s.mergeList (passes compare k l)) (hsize : s.inSize.toNat = 2 ^ k) :
    ∃ h' d', (Run.loop (sortRound compare) s).Returns (h', d') ∧ Linked h' d' (passes compare (last + 1) l) := by
  induction hn : last - k generalizing k s with
  | zero =>
    obtain rfl : k = last := by omega
    obtain ⟨h', d', hl', hreturns⟩ := sortRound_passes hl hsize hroom
    rw [if_pos hlast] at hreturns
    exact ⟨h', d', Run.loop_done hreturns, hl'⟩
  | succ n ih =>
    obtain ⟨h', d', hl', hreturns⟩ := sortRound_passes hl hsize hroom
    rw [if_neg (hfirst k (by omega))] at hreturns
    have hdouble : (s.inSize * 2).toNat = 2 ^ (k + 1) := by
      have hlt : 2 ^ (k + 1) < 2 ^ 64 := Nat.pow_lt_pow_right (by omega) (by omega)
      rw [UInt64.toNat_mul, hsize, Nat.pow_succ] at *
      exact Nat.mod_eq_of_lt hlt
    obtain ⟨h'', d'', hreturns', hl''⟩ := ih (k := k + 1) (s := ⟨h', d', s.inSize * 2⟩) (by omega) hl' hdouble (by omega)
    exact ⟨h'', d'', Run.loop_again hreturns hreturns', hl''⟩

/-- The first pass that is the last one. -/
def lastPass (n : Nat) (hn : n < 2 ^ 64) : Nat := Nat.find ⟨63, isLast_63 hn⟩

/-- Whatever the comparison is, the sort ends, with the list after its passes. -/
theorem sortList_passes (compare : ν → ν → Int) (hl : Linked h d l) (hlong : 1 < l.length) :
    ∃ h' d', (sortList compare h d).Returns (h', d') ∧ Linked h' d' (passes compare (lastPass l.length hl.length_lt + 1) l) := by
  have hsize : ¬ d.size ≤ 1 := by
    rw [UInt64.le_iff_toNat_le, hl.size]
    exact Nat.not_le.mpr hlong
  rw [sortList, if_neg hsize]
  exact sortLoop_passes (s := ⟨h, d, 1⟩) (Nat.find_spec ⟨63, isLast_63 hl.length_lt⟩) (fun k hk => Nat.find_min _ hk)
    (Nat.find_le (isLast_63 hl.length_lt)) hl.length_lt (Nat.zero_le _) hl rfl

end sort

end BayTrail.Bds.DList
