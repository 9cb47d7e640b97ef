import BayTrail.Recovery.FileName

/-!
# What a recovery pattern matches

`Matches` is what a pattern says: `*` is any string, `?` any character, and `.` any run of spaces where names
are padded. `FileCompare` takes something else for a match (`Begins`): it is content with the beginning of a
name, gives all spaces to a period, and finds nothing at the end of the name but the end of the pattern.
-/

namespace BayTrail.Recovery

open Lib (Run)

/-- A period of the pattern stands for spaces. -/
def IsPeriod (padded : Bool) (c : UInt8) : Prop := c = char8 '.' ∧ padded = true

/-- The character stands for itself, in upper or lower case. -/
def IsPlain (padded : Bool) (c : UInt8) : Prop := c ≠ char8 '*' ∧ c ≠ char8 '?' ∧ ¬ IsPeriod padded c

/-- The pattern matches the whole name, of which padding at the end does not count. -/
inductive Matches (padded : Bool) : List UInt8 → List UInt8 → Prop where
  | nil : Matches padded [] []
  | padding {n : List UInt8} (hpadded : padded = true) (hspaces : ∀ c ∈ n, c = char8 ' ') : Matches padded [] n
  | star {p n : List UInt8} (s : List UInt8) (h : Matches padded p n) : Matches padded (char8 '*' :: p) (s ++ n)
  | one {p n : List UInt8} (ch : UInt8) (h : Matches padded p n) : Matches padded (char8 '?' :: p) (ch :: n)
  | period {p n : List UInt8} {c : UInt8} (k : Nat) (hc : IsPeriod padded c) (h : Matches padded p n) :
      Matches padded (c :: p) (List.replicate k (char8 ' ') ++ n)
  | plain {p n : List UInt8} {c ch : UInt8} (hc : IsPlain padded c) (hch : toupper ch = toupper c) (h : Matches padded p n) :
      Matches padded (c :: p) (ch :: n)

/-- The pattern matches a beginning of the name in such a way that each of its characters meets one of the name,
and each period all spaces. -/
inductive Begins (padded : Bool) : List UInt8 → List UInt8 → Prop where
  | nil (n : List UInt8) : Begins padded [] n
  | star {p n s : List UInt8} (hne : s ++ n ≠ []) (h : Begins padded p n) : Begins padded (char8 '*' :: p) (s ++ n)
  | one {p n : List UInt8} (ch : UInt8) (h : Begins padded p n) : Begins padded (char8 '?' :: p) (ch :: n)
  | period {p n : List UInt8} {c : UInt8} (hne : n ≠ []) (hc : IsPeriod padded c)
      (h : Begins padded p (n.dropWhile (· = char8 ' '))) : Begins padded (c :: p) n
  | plain {p n : List UInt8} {c ch : UInt8} (hc : IsPlain padded c) (hch : toupper ch = toupper c) (h : Begins padded p n) :
      Begins padded (c :: p) (ch :: n)

/-- A string without the NUL at its end. -/
structure CString where
  chars : List UInt8
  nonzero : 0 ∉ chars

/-- The cells of the string. -/
def CString.cells (s : CString) : List UInt8 := s.chars ++ [0]

/-- The patterns of a list. An empty list has none. -/
def CString.patterns (s : CString) : List (List UInt8) := if s.chars = [] then [] else s.chars.splitOn (char8 ',')

/-- The patterns that are tried: an empty one at the beginning is not. -/
def CString.tried (s : CString) : List (List UInt8) :=
  if s.chars = [] then []
  else (if s.chars.head? = some (char8 ',') then s.chars.tail else s.chars).splitOn (char8 ',')

section

variable {padded : Bool} {p n junk : List UInt8} {len : UInt32}

/-! ## FileCompare -/

/-- The name stands in front of its NUL, and is no longer than its length says. -/
def Fits (n : List UInt8) (len : UInt32) : Prop := 0 ∉ n ∧ n.length ≤ len.toNat

/-- What a comparison finds, for each name. -/
def Compares (compare : List UInt8 → UInt32 → Option Bool) (P : List UInt8 → Prop) : Prop :=
  ∀ n junk len, Fits n len → ∃ b, compare (n ++ 0 :: junk) len = some b ∧ (b = true ↔ P n)

variable {c d e : UInt8} {l more : List UInt8}

theorem Fits.tail (h : Fits (c :: n) len) : Fits n (len - 1) := by
  obtain ⟨hzero, hlen⟩ := h
  rw [List.length_cons] at hlen
  refine ⟨fun hmem => hzero (List.mem_cons_of_mem c hmem), ?_⟩
  have hone : (1 : UInt32) ≤ len := UInt32.le_iff_toNat_le.mpr (show 1 ≤ len.toNat by omega)
  rw [UInt32.toNat_sub_of_le _ _ hone]
  show n.length ≤ len.toNat - 1
  omega

theorem Fits.head_ne (h : Fits (c :: n) len) : c ≠ 0 := by
  rintro rfl
  exact h.1 List.mem_cons_self

theorem strlen_append (hzero : 0 ∉ n) : strlen (n ++ 0 :: junk) = some n.length := by
  induction n with
  | nil => rfl
  | cons c n ih =>
    rw [List.mem_cons, not_or] at hzero
    rw [List.cons_append, strlen, if_neg (Ne.symm hzero.1), ih hzero.2]
    rfl

theorem strlen_none (hzero : 0 ∉ n) : strlen n = none := by
  induction n with
  | nil => rfl
  | cons c n ih =>
    rw [List.mem_cons, not_or] at hzero
    rw [strlen, if_neg (Ne.symm hzero.1), ih hzero.2]
    rfl

variable {compare : List UInt8 → UInt32 → Option Bool} {P : List UInt8 → Prop}

theorem compareFromEach_eq (hcompare : Compares compare P) :
    Compares (compareFromEach compare) fun n => ∃ s n', n = s ++ n' ∧ P n' := by
  intro n junk len hfits
  induction n generalizing len with
  | nil =>
    obtain ⟨b, hb, hP⟩ := hcompare [] junk len hfits
    refine ⟨b, ?_, hP.trans ⟨fun h => ⟨[], [], rfl, h⟩, ?_⟩⟩
    · rw [List.nil_append, compareFromEach, if_pos rfl]
      exact hb
    · rintro ⟨s, n', hn, h⟩
      obtain ⟨-, rfl⟩ := List.append_eq_nil_iff.mp hn.symm
      exact h
  | cons c n ih =>
    obtain ⟨b, hb, hP⟩ := hcompare (c :: n) junk len hfits
    obtain ⟨b', hb', hP'⟩ := ih _ hfits.tail
    refine ⟨b || b', ?_, ?_⟩
    · rw [List.cons_append] at hb ⊢
      rw [compareFromEach, if_neg hfits.head_ne, hb]
      cases b
      · exact hb'
      · rfl
    · rw [Bool.or_eq_true, hP, hP']
      constructor
      · rintro (h | ⟨s, n', rfl, h⟩)
        · exact ⟨[], c :: n, rfl, h⟩
        · exact ⟨c :: s, n', rfl, h⟩
      · rintro ⟨s, n', hn, h⟩
        cases s with
        | nil =>
          rw [List.nil_append] at hn
          exact Or.inl (hn ▸ h)
        | cons d s => exact Or.inr ⟨s, n', (List.cons.inj hn).2, h⟩

theorem skipSpaces_eq (junk : List UInt8) (hfits : Fits n len) :
    ∃ len', skipSpaces (n ++ 0 :: junk) len = some (n.dropWhile (· = char8 ' ') ++ 0 :: junk, len')
      ∧ Fits (n.dropWhile (· = char8 ' ')) len' := by
  induction n generalizing len with
  | nil => exact ⟨len, if_neg (by decide), hfits⟩
  | cons c n ih =>
    rw [List.cons_append, skipSpaces, List.dropWhile_cons]
    by_cases hc : c = char8 ' '
    · rw [if_pos hc, if_pos (decide_eq_true hc)]
      exact ih hfits.tail
    · rw [if_neg hc, if_neg (by simpa using hc)]
      exact ⟨len, rfl, hfits⟩

theorem passIf_eq (q : UInt8 → Bool) (junk : List UInt8) (hcompare : Compares compare P) (hfits : Fits (c :: n) len) :
    ∃ b, passIf q compare (c :: n ++ 0 :: junk) len = some b ∧ (b = true ↔ q c = true ∧ P n) := by
  rw [List.cons_append, passIf]
  by_cases hq : q c = true
  · obtain ⟨b, hb, hP⟩ := hcompare n junk _ hfits.tail
    rw [if_pos hq]
    exact ⟨b, hb, hP.trans (and_iff_right hq).symm⟩
  · rw [if_neg hq]
    exact ⟨false, rfl, iff_of_false (by decide) fun h => hq h.1⟩

/-- What the rules make of the first character of a pattern, where the name has one. -/
theorem begins_cons : Begins padded (c :: p) (d :: n) ↔
    (c = char8 '*' ∧ ∃ s n', d :: n = s ++ n' ∧ Begins padded p n')
    ∨ (c = char8 '?' ∧ Begins padded p n)
    ∨ (IsPeriod padded c ∧ Begins padded p ((d :: n).dropWhile (· = char8 ' ')))
    ∨ (IsPlain padded c ∧ toupper d = toupper c ∧ Begins padded p n) := by
  constructor
  · intro h
    generalize hname : d :: n = name at h
    cases h with
    | star hne h => exact Or.inl ⟨rfl, _, _, rfl, h⟩
    | one ch h =>
      cases hname
      exact Or.inr (Or.inl ⟨rfl, h⟩)
    | period hne hc h =>
      subst hname
      exact Or.inr (Or.inr (Or.inl ⟨hc, h⟩))
    | plain hc hch h =>
      cases hname
      exact Or.inr (Or.inr (Or.inr ⟨hc, hch, h⟩))
  · rintro (⟨rfl, s, n', hn, h⟩ | ⟨rfl, h⟩ | ⟨hc, h⟩ | ⟨hc, hch, h⟩)
    · rw [hn]
      exact .star (hn ▸ List.cons_ne_nil d n) h
    · exact .one d h
    · exact .period (List.cons_ne_nil d n) hc h
    · exact .plain hc hch h

theorem not_begins_nil : ¬ Begins padded (c :: p) [] := by
  intro h
  generalize hname : ([] : List UInt8) = name at h
  cases h with
  | star hne h => exact hne hname.symm
  | one ch h => cases hname
  | period hne hc h => exact hne hname.symm
  | plain hc hch h => cases hname

/-- The `switch` on a character that is not the end of the pattern. -/
theorem compareChar_eq (hcompare : Compares compare (Begins padded p)) (hend : c ≠ char8 ',' ∧ c ≠ 0)
    (hfits : Fits (d :: n) len) :
    ∃ b, compareChar padded c compare (d :: n ++ 0 :: junk) len = some b ∧ (b = true ↔ Begins padded (c :: p) (d :: n)) := by
  rw [begins_cons, compareChar, if_neg (not_or.mpr hend)]
  by_cases hstar : c = char8 '*'
  · subst hstar
    rw [if_pos rfl]
    obtain ⟨b, hb, hP⟩ := compareFromEach_eq hcompare (d :: n) junk len hfits
    refine ⟨b, hb, hP.trans ⟨fun h => Or.inl ⟨rfl, h⟩, ?_⟩⟩
    rintro (⟨-, h⟩ | ⟨h, -⟩ | ⟨h, -⟩ | ⟨h, -⟩)
    · exact h
    · exact absurd h (by decide)
    · exact absurd h.1 (by decide)
    · exact absurd rfl h.1
  · rw [if_neg hstar]
    by_cases hone : c = char8 '?'
    · subst hone
      rw [if_pos rfl]
      obtain ⟨b, hb, hP⟩ := passIf_eq (· ≠ 0) junk hcompare hfits
      refine ⟨b, hb, hP.trans ⟨fun h => Or.inr (Or.inl ⟨rfl, h.2⟩), ?_⟩⟩
      rintro (⟨h, -⟩ | ⟨-, h⟩ | ⟨h, -⟩ | ⟨h, -⟩)
      · exact absurd h (by decide)
      · exact ⟨decide_eq_true hfits.head_ne, h⟩
      · exact absurd h.1 (by decide)
      · exact absurd rfl h.2.1
    · rw [if_neg hone]
      by_cases hperiod : IsPeriod padded c
      · rw [if_pos (show c = char8 '.' ∧ padded = true from hperiod)]
        obtain ⟨len', hskip, hfits'⟩ := skipSpaces_eq junk hfits
        obtain ⟨b, hb, hP⟩ := hcompare _ junk len' hfits'
        refine ⟨b, by rw [hskip]; exact hb, hP.trans ⟨fun h => Or.inr (Or.inr (Or.inl ⟨hperiod, h⟩)), ?_⟩⟩
        rintro (⟨h, -⟩ | ⟨h, -⟩ | ⟨-, h⟩ | ⟨h, -⟩)
        · exact absurd h hstar
        · exact absurd h hone
        · exact h
        · exact absurd hperiod h.2.2
      · rw [if_neg (show ¬ (c = char8 '.' ∧ padded = true) from hperiod)]
        obtain ⟨b, hb, hP⟩ := passIf_eq (fun ch => toupper ch = toupper c) junk hcompare hfits
        refine ⟨b, hb, hP.trans ?_⟩
        rw [decide_eq_true_iff]
        constructor
        · exact fun h => Or.inr (Or.inr (Or.inr ⟨⟨hstar, hone, hperiod⟩, h⟩))
        · rintro (⟨h, -⟩ | ⟨h, -⟩ | ⟨h, -⟩ | ⟨-, h⟩)
          · exact absurd h hstar
          · exact absurd h hone
          · exact absurd h hperiod
          · exact h

theorem strlen_tail {k : Nat} (hc : c ≠ 0) (h : strlen (c :: l) = some k) :
    k ≠ 0 ∧ ∃ j, strlen l = some j := by
  rw [strlen, if_neg hc, Option.map_eq_some_iff] at h
  obtain ⟨j, hj, rfl⟩ := h
  exact ⟨Nat.succ_ne_zero j, j, hj⟩

/-- A pattern ends at a comma or at the NUL. -/
theorem fileCompare_eq (padded : Bool) (hp : ∀ c ∈ p, c ≠ char8 ',' ∧ c ≠ 0)
    (he : e = char8 ',' ∨ e = 0) (hstr : ∃ k, strlen (p ++ e :: more) = some k) : Compares (fileCompare padded (p ++ e :: more)) (Begins padded p) := by
  induction p with
  | nil =>
    intro n junk len hfits
    obtain ⟨k, hk⟩ := hstr
    rw [List.nil_append] at hk ⊢
    refine ⟨true, ?_, iff_of_true rfl (.nil n)⟩
    simp only [fileCompare, strlen_append hfits.1, hk, Option.bind_eq_bind, Option.bind_some]
    by_cases hend : n.length = 0 ∨ len = 0
    · rw [if_pos hend]
      refine congrArg some (decide_eq_true ?_)
      rcases he with rfl | rfl
      · exact Or.inr rfl
      · rw [strlen, if_pos rfl] at hk
        exact Or.inl (Option.some.inj hk).symm
    · rw [if_neg hend, compareChar, if_pos he]
  | cons c p ih =>
    obtain ⟨k, hk⟩ := hstr
    have hc := hp c List.mem_cons_self
    rw [List.cons_append] at hk
    obtain ⟨hk0, hstr⟩ := strlen_tail hc.2 hk
    have hcompare := ih (fun d hd => hp d (List.mem_cons_of_mem c hd)) hstr
    intro n junk len hfits
    simp only [List.cons_append, fileCompare, strlen_append hfits.1, hk, Option.bind_eq_bind, Option.bind_some]
    cases n with
    | nil =>
      rw [if_pos (show ([] : List UInt8).length = 0 ∨ len = 0 from Or.inl rfl)]
      exact ⟨false, congrArg some (decide_eq_false (not_or.mpr ⟨hk0, hc.1⟩)), iff_of_false (by decide) not_begins_nil⟩
    | cons d n =>
      have hlen : ¬ ((d :: n).length = 0 ∨ len = 0) := by
        rintro (h | rfl)
        · exact Nat.succ_ne_zero _ h
        · exact Nat.not_succ_le_zero _ hfits.2
      rw [if_neg hlen]
      exact compareChar_eq hcompare hc hfits

/-! ## FileSearch -/

theorem skipPattern_eq (hp : ∀ c ∈ p, c ≠ char8 ',' ∧ c ≠ 0) (he : e = char8 ',' ∨ e = 0) :
    skipPattern (p ++ e :: more) = some (e :: more) := by
  induction p with
  | nil =>
    rw [List.nil_append, skipPattern, if_neg]
    rintro ⟨hcomma, hzero⟩
    exact he.elim hcomma hzero
  | cons c p ih =>
    rw [List.cons_append, skipPattern, if_pos (hp c List.mem_cons_self)]
    exact ih fun d hd => hp d (List.mem_cons_of_mem c hd)

/-- The rest of the list behind a comma in front of it. -/
def behindComma (l : List UInt8) : List UInt8 := if l.head? = some (char8 ',') then l.tail else l

theorem skipComma_eq (l : List UInt8) : skipComma (l ++ [0]) = some (behindComma l ++ [0]) := by
  cases l with
  | nil => rfl
  | cons c l =>
    unfold behindComma
    rw [List.cons_append, skipComma, List.head?_cons]
    by_cases hc : c = char8 ','
    · rw [if_pos hc, if_pos (congrArg some hc)]
      rfl
    · rw [if_neg hc, if_neg fun h => hc (Option.some.inj h)]
      rfl

/-- The first pattern of a list, and the others if there are any. -/
theorem splitOn_cases (l : List UInt8) : (char8 ',' ∉ l ∧ l.splitOn (char8 ',') = [l])
    ∨ ∃ p as, l = p ++ char8 ',' :: as ∧ char8 ',' ∉ p ∧ l.splitOn (char8 ',') = p :: as.splitOn (char8 ',') := by
  by_cases hmem : char8 ',' ∈ l
  · obtain ⟨p, as, hl, hp⟩ := List.eq_append_cons_of_mem hmem
    refine Or.inr ⟨p, as, hl, hp, ?_⟩
    rw [hl]
    refine List.splitOnP_append_cons_of_forall_mem (p := (· == char8 ',')) (fun c hc => beq_eq_false_iff_ne.mpr ?_) (char8 ',')
      (beq_self_eq_true (char8 ',')) as
    rintro rfl
    exact hp hc
  · refine Or.inl ⟨hmem, List.splitOnP_eq_singleton fun c hc => beq_eq_false_iff_ne.mpr ?_⟩
    rintro rfl
    exact hmem hc

theorem behindComma_subset (hzero : 0 ∉ l) : 0 ∉ behindComma l := by
  unfold behindComma
  split
  · exact fun h => hzero (List.mem_of_mem_tail h)
  · exact hzero

theorem ends_of_not_mem (hcomma : char8 ',' ∉ l) (hzero : 0 ∉ l) : ∀ c ∈ l, c ≠ char8 ',' ∧ c ≠ 0 :=
  fun _ hc => ⟨fun h => hcomma (h ▸ hc), fun h => hzero (h ▸ hc)⟩

theorem search_returns (padded : Bool) (junk : List UInt8) (hzero : 0 ∉ l) (hfits : Fits n len) :
    ∃ b, (Run.loop (tryPattern padded (n ++ 0 :: junk) len) (l ++ [0])).Returns b
      ∧ (b = true ↔ ∃ p ∈ (behindComma l).splitOn (char8 ','), Begins padded p n) := by
  -- a round ends in front of the next comma, which is nearer to the end
  induction hk : l.length using Nat.strong_induction_on generalizing l with
  | _ k ih =>
    subst hk
    have hzero' := behindComma_subset hzero
    have hskip : (Run.ofOption (skipComma (l ++ [0]))).Returns (behindComma l ++ [0]) := Run.returns_ofOption.mpr (skipComma_eq l)
    rcases splitOn_cases (behindComma l) with ⟨hcomma, hsplit⟩ | ⟨p, as, hl, hcomma, hsplit⟩
    · -- the last pattern
      have hends := ends_of_not_mem hcomma hzero'
      obtain ⟨b, hb, hP⟩ := fileCompare_eq padded hends (Or.inr rfl) ⟨_, strlen_append hzero'⟩ n junk len hfits
      refine ⟨b, Run.loop_done (hskip.bind ((Run.returns_ofOption.mpr hb).bind ?_)), ?_⟩
      · cases b
        · exact (Run.returns_ofOption.mpr (skipPattern_eq hends (Or.inr rfl))).bind (Run.returns_pure.mpr rfl)
        · exact Run.returns_pure.mpr rfl
      · rw [hsplit, hP]
        simp
    · have hzero_p : 0 ∉ p := fun h => hzero' (hl ▸ List.mem_append_left _ h)
      have hzero_as : 0 ∉ as := fun h => hzero' (hl ▸ List.mem_append_right _ (List.mem_cons_of_mem _ h))
      have hends := ends_of_not_mem hcomma hzero_p
      have hcells : behindComma l ++ [0] = p ++ char8 ',' :: (as ++ [0]) := by rw [hl, List.append_assoc, List.cons_append]
      have hlength : strlen (p ++ char8 ',' :: (as ++ [0])) = some (behindComma l).length := by
        rw [← hcells]
        exact strlen_append hzero'
      obtain ⟨b, hb, hP⟩ := fileCompare_eq padded hends (Or.inl rfl) ⟨_, hlength⟩ n junk len hfits
      rw [← hcells] at hb
      have hlt : (char8 ',' :: as).length < l.length := by
        have hlen := congrArg List.length hl
        unfold behindComma at hlen hl
        rw [List.length_append] at hlen
        by_cases hhead : l.head? = some (char8 ',')
        · rw [if_pos hhead, List.length_tail] at hlen
          rw [List.length_cons] at hlen ⊢
          omega
        · rw [if_neg hhead] at hlen hl
          have hne : p ≠ [] := by
            rintro rfl
            exact hhead (by rw [hl]; rfl)
          have := List.length_pos_iff.mpr hne
          omega
      obtain ⟨b', hloop, hP'⟩ := ih _ hlt (l := char8 ',' :: as)
        (fun h => (List.mem_cons.mp h).elim (by decide) hzero_as) rfl
      have hbehind : behindComma (char8 ',' :: as) = as := rfl
      rw [hbehind] at hP'
      rw [hsplit, List.exists_mem_cons_iff, ← hP, ← hP']
      cases b with
      | true =>
        refine ⟨true, Run.loop_done (hskip.bind ((Run.returns_ofOption.mpr hb).bind (Run.returns_pure.mpr rfl))), ?_⟩
        exact iff_of_true rfl (Or.inl rfl)
      | false =>
        refine ⟨b', Run.loop_again (hskip.bind ((Run.returns_ofOption.mpr hb).bind ?_)) hloop, ?_⟩
        · refine (Run.returns_ofOption.mpr ((congrArg skipPattern hcells).trans (skipPattern_eq hends (Or.inl rfl)))).bind ?_
          exact Run.returns_pure.mpr rfl
        · rw [or_iff_right (by decide)]

end

/-! ## A name of a given length -/

/-- `FileNameLength` characters of a directory entry. -/
structure NameField where
  cells : List UInt8
  fits : cells.length < 2 ^ 32

def NameField.length (f : NameField) : UInt32 := UInt32.ofNat f.cells.length

/-- The name: a NUL ends it. -/
def NameField.text (f : NameField) : List UInt8 := f.cells.takeWhile (· ≠ 0)

theorem NameField.length_toNat (f : NameField) : f.length.toNat = f.cells.length := Nat.mod_eq_of_lt f.fits

theorem NameField.text_of_nul {f : NameField} (hzero : 0 ∈ f.cells) :
    ∃ junk, f.cells = f.text ++ 0 :: junk ∧ Fits f.text f.length := by
  obtain ⟨n, junk, hcells, hn⟩ := List.eq_append_cons_of_mem hzero
  have htext : f.text = n := by
    unfold NameField.text
    have hne : ∀ c ∈ n, decide (c ≠ 0) = true := by
      intro c hc
      refine decide_eq_true ?_
      rintro rfl
      exact hn hc
    rw [hcells, List.takeWhile_append_of_pos hne, List.takeWhile_cons, if_neg (by decide), List.append_nil]
  refine ⟨junk, by rw [htext]; exact hcells, by rwa [htext], ?_⟩
  have hlen := congrArg List.length hcells
  rw [List.length_append] at hlen
  rw [htext, f.length_toNat]
  omega

/-- The search ends, with no access to other characters than those of the list and of the name, and it succeeds if and
only if the name matches one of the patterns. -/
def Exact (s : CString) (f : NameField) (padded : Bool) : Prop :=
  ∃ b, (fileSearch s.cells f.cells padded f.length).Returns b ∧ (b = true ↔ ∃ p ∈ s.patterns, Matches padded p f.text)

/-- A pattern that matches is taken for one that does, and no other. -/
def Agrees (s : CString) (n : List UInt8) (padded : Bool) : Prop :=
  (∃ p ∈ s.patterns, Matches padded p n) ↔ n ≠ [] ∧ ∃ p ∈ s.tried, Begins padded p n

section

variable {s : CString} {f : NameField} {padded : Bool} {n junk : List UInt8} {len : UInt32}

theorem CString.tried_eq (h : s.chars ≠ []) : s.tried = (behindComma s.chars).splitOn (char8 ',') := if_neg h

theorem CString.head_cells (h : s.chars ≠ []) : ∃ c, s.cells.head? = some c ∧ c ≠ 0 := by
  obtain ⟨c, l, hchars⟩ := List.exists_cons_of_ne_nil h
  refine ⟨c, by rw [CString.cells, hchars]; rfl, ?_⟩
  rintro rfl
  exact s.nonzero (hchars ▸ List.mem_cons_self)

/-- With its NUL within reach the name is searched for as `Begins` has it. -/
theorem fileSearch_returns (s : CString) (padded : Bool) (junk : List UInt8) (hfits : Fits n len) :
    ∃ b, (fileSearch s.cells (n ++ 0 :: junk) padded len).Returns b
      ∧ (b = true ↔ n ≠ [] ∧ ∃ p ∈ s.tried, Begins padded p n) := by
  by_cases hs : s.chars = []
  · have hcells : s.cells = [0] := by rw [CString.cells, hs, List.nil_append]
    refine ⟨false, ?_, iff_of_false (by decide) ?_⟩
    · rw [hcells]
      exact (Run.returns_ofOption.mpr rfl).bind (Run.returns_pure.mpr rfl)
    · rintro ⟨-, p, hp, -⟩
      rw [CString.tried, if_pos hs] at hp
      cases hp
  · obtain ⟨c, hhead, hc⟩ := CString.head_cells hs
    unfold fileSearch
    simp only [Run.returns_bind, Run.returns_ofOption, hhead, Option.some.injEq, exists_eq_left', if_neg hc]
    cases n with
    | nil => exact ⟨false, ⟨0, rfl, Run.returns_pure.mpr rfl⟩, iff_of_false (by decide) fun h => h.1 rfl⟩
    | cons d n =>
      obtain ⟨b, hloop, hb⟩ := search_returns padded junk s.nonzero hfits
      have hlen : len ≠ 0 := by
        rintro rfl
        exact Nat.not_succ_le_zero _ hfits.2
      refine ⟨b, ⟨d, rfl, ?_⟩, ?_⟩
      · rw [if_neg hfits.head_ne, if_neg hlen]
        exact hloop
      · rw [hb, CString.tried_eq hs]
        exact (and_iff_right (List.cons_ne_nil d n)).symm

/-- Without a NUL the first `Strlen` leaves the name. -/
theorem not_fileSearch_returns {b : Bool} (hs : s.chars ≠ []) (hzero : 0 ∉ f.cells) :
    ¬ (fileSearch s.cells f.cells padded f.length).Returns b := by
  obtain ⟨c, hhead, hc⟩ := CString.head_cells hs
  unfold fileSearch
  simp only [Run.returns_bind, Run.returns_ofOption, hhead, Option.some.injEq, exists_eq_left', if_neg hc]
  rintro ⟨d, hd, hreturns⟩
  have hmem : d ∈ f.cells := List.mem_of_head? hd
  have hlen : f.length ≠ 0 := by
    intro h
    have hlength := f.length_toNat
    rw [h] at hlength
    exact absurd (List.length_eq_zero_iff.mp hlength.symm) (List.ne_nil_of_mem hmem)
  have hd : d ≠ 0 := by
    rintro rfl
    exact hzero hmem
  rw [if_neg hd, if_neg hlen, Run.returns_loop] at hreturns
  have hround : ∀ next, ¬ (tryPattern padded f.cells f.length s.cells).Returns next := by
    intro next hnext
    obtain ⟨ptr, -, hnext⟩ := Run.returns_bind.mp hnext
    obtain ⟨matched, hmatched, -⟩ := Run.returns_bind.mp hnext
    rw [Run.returns_ofOption] at hmatched
    cases ptr with
    | nil => cases hmatched
    | cons ch1 ptr =>
      simp only [fileCompare, strlen_none hzero] at hmatched
      cases hmatched
  rcases hreturns with ⟨_, hnext, -⟩ | hnext
  · exact hround _ hnext
  · exact hround _ hnext

end

/-- The search is exact for an empty list of patterns, and for a name with its NUL among its characters, if what is
taken for a match is one. -/
theorem fileSearch_exact (s : CString) (f : NameField) (padded : Bool) :
    Exact s f padded ↔ s.chars = [] ∨ 0 ∈ f.cells ∧ Agrees s f.text padded := by
  by_cases hs : s.chars = []
  · refine iff_of_true ⟨false, ?_, iff_of_false (by decide) ?_⟩ (Or.inl hs)
    · rw [CString.cells, hs]
      exact (Run.returns_ofOption.mpr rfl).bind (Run.returns_pure.mpr rfl)
    · rintro ⟨p, hp, -⟩
      rw [CString.patterns, if_pos hs] at hp
      cases hp
  · rw [or_iff_right hs]
    by_cases hzero : 0 ∈ f.cells
    · rw [and_iff_right hzero]
      obtain ⟨junk, hcells, hfits⟩ := NameField.text_of_nul hzero
      obtain ⟨b, hreturns, hb⟩ := fileSearch_returns s padded junk hfits
      rw [← hcells] at hreturns
      constructor
      · rintro ⟨b', hreturns', hb'⟩
        cases hreturns.unique hreturns'
        exact hb'.symm.trans hb
      · exact fun hagrees => ⟨b, hreturns, hb.trans hagrees.symm⟩
    · refine iff_of_false ?_ fun h => hzero h.1
      rintro ⟨b, hreturns, -⟩
      exact not_fileSearch_returns hs hzero hreturns

/-- The pattern `A` is found in the name `AB`. -/
theorem not_fileSearch_exact : ¬ ∀ (s : CString) (f : NameField) (padded : Bool), Exact s f padded := by
  intro h
  obtain ⟨b, hreturns, hb⟩ := h ⟨[char8 'A'], by decide⟩ ⟨[char8 'A', char8 'B', 0], by decide⟩ false
  have hfound : (fileSearch [char8 'A', 0] [char8 'A', char8 'B', 0] false 3).Returns true := ⟨2, by decide⟩
  cases hreturns.unique hfound
  obtain ⟨p, hp, hmatches⟩ := hb.mp rfl
  have hpatterns : CString.patterns ⟨[char8 'A'], by decide⟩ = [[char8 'A']] := rfl
  have htext : NameField.text ⟨[char8 'A', char8 'B', 0], by decide⟩ = [char8 'A', char8 'B'] := rfl
  rw [hpatterns, List.mem_singleton] at hp
  rw [htext] at hmatches
  -- only the rule for a plain character is for `A`, and none for the `B` behind it
  generalize hname : [char8 'A', char8 'B'] = n at hmatches
  cases hmatches with
  | nil => cases hp
  | padding hpadded _ => cases hpadded
  | star _ _ => exact absurd (List.cons.inj hp).1 (by decide)
  | one _ _ => exact absurd (List.cons.inj hp).1 (by decide)
  | period _ hc _ => cases hc.2
  | plain _ _ hrest =>
    obtain ⟨-, rfl⟩ := List.cons.inj hp
    obtain ⟨-, rfl⟩ := List.cons.inj hname
    cases hrest with
    | padding hpadded _ => cases hpadded

end BayTrail.Recovery
