import BayTrail.Nvram.Store

/-!
# The NVRAM store: initialisation from flash

`NvInitInfoBuffer` and `EnumerateStore` find the store again from its bytes alone.
The first live header becomes `pFirstVar`; the last signed record, with one broken
record behind it, becomes the end of the variables. `Store.reboot` says that
whatever these two make of a well-formed log, the invariant and the variables
come out as they were.
-/

namespace BayTrail.Nvram

open BayTrail.Lib

section

variable {h : Nat} {s : StoreInfo} {p q : Nat} {r : Rec} {xs : List Rec}

/-! ## The record loop of `EnumerateStore` -/

/-- The GUID index counted for a record. -/
def guidMax (g : Nat) (r : Rec) : Nat :=
  match r with
  | .header hd _ => match hd.ref with
    | .index i => max g i.toNat
    | .full _ => g
  | _ => g

theorem le_guidMax (g : Nat) (r : Rec) : g ≤ guidMax g r := by
  unfold guidMax
  split
  · split
    · exact le_max_left _ _
    · exact le_rfl
  · exact le_rfl

theorem enumerateLoop_guid {m : Mem} (h : RecAt m p r) (hs : r.signed = true) (g : Nat) :
    (if flagsAt m p &&& (flagDataOnly ||| flagGuid) = 0 then
      max g (m (p + sizeofNvar)).toNat else g) = guidMax g r := by
  cases r with
  | broken flags body => exact absurd hs (by simp [Rec.signed])
  | data d n =>
    obtain ⟨-, -, -, hnot, -⟩ := dataFlags_test d.auth.isSome d.cks
    have hflags : flagsAt m p = dataFlags d.auth.isSome d.cks := h.flags
    rw [hflags, if_neg hnot]
    rfl
  | header hd n =>
    obtain ⟨-, -, -, -, -, -, -, -, -, hg, -⟩ := hd.flags_test
    rw [flagsAt_header h]
    have hc := holds_contents h
    unfold Header.contents Header.key at hc
    rw [List.append_assoc, holds_append] at hc
    unfold guidMax
    cases href : hd.ref with
    | index i =>
      rw [href] at hc hg
      have hi : m (p + sizeofNvar) = i := hc.1.1
      rw [if_pos (hg.mpr rfl), hi]
      simp only [href]
    | full gd =>
      rw [href] at hg
      rw [if_neg fun he => absurd (hg.mp he) (by simp [GuidRef.isFull])]
      simp only [href]

/-- The loop ends at the last signed record, with the largest index met. -/
theorem enumerateLoop_eq : ∀ {n : Nat} {xs : List Rec} {r : Rec} {p g l : Nat},
    LogAt s p (r :: xs) → r.signed = true → xs.length < n →
    ∃ us y vs, r :: xs = us ++ y :: vs ∧ y.signed = true ∧ (∀ v ∈ vs, v.signed = false)
      ∧ (enumerateLoop s n g l p).2 = p + logSize us
      ∧ g ≤ (enumerateLoop s n g l p).1
      ∧ (∀ hd k i, Rec.header hd k ∈ us ++ [y] → hd.ref = .index i →
          i.toNat ≤ (enumerateLoop s n g l p).1)
      ∧ ((enumerateLoop s n g l p).1 = g ∨ ∃ hd k i, Rec.header hd k ∈ us ++ [y]
          ∧ hd.ref = .index i ∧ (enumerateLoop s n g l p).1 = i.toNat)
  | 0, _, _, _, _, _, _, _, hn => absurd hn (Nat.not_lt_zero _)
  | n + 1, xs, r, p, g, l, hlog, hs, hn => by
    have hmax : (r.next = r.next) ∧ ∀ hd k i, r = .header hd k → hd.ref = .index i →
        i.toNat ≤ guidMax g r := by
      refine ⟨rfl, ?_⟩
      rintro hd k i rfl hi
      simp only [guidMax, hi]
      exact le_max_right _ _
    have hor : guidMax g r = g ∨ ∃ hd k i, r = .header hd k ∧ hd.ref = .index i
        ∧ guidMax g r = i.toNat := by
      unfold guidMax
      split
      next hd k =>
        split
        next i hi =>
          rcases max_choice g i.toNat with hm | hm
          · exact Or.inl hm
          · exact Or.inr ⟨hd, k, i, rfl, hi, hm⟩
        next => exact Or.inl rfl
      next => exact Or.inl rfl
    unfold enumerateLoop
    rw [enumerateLoop_guid hlog.head_at hs, nvGetNextNvar_eq hlog]
    cases hfind : ((placed (p + r.size) xs).find? fun x => x.2.signed).map Prod.fst with
    | none =>
      refine ⟨[], r, xs, rfl, hs, unfound hfind, by simp, le_guidMax g r, ?_, ?_⟩
      · intro hd k i hm hi
        exact hmax.2 hd k i (List.mem_singleton.mp hm).symm hi
      · refine hor.imp_right ?_
        rintro ⟨hd, k, i, rfl, hi, he⟩
        exact ⟨hd, k, i, by simp, hi, he⟩
    | some q =>
      obtain ⟨us, y, rest, rfl, rfl, hy, hus⟩ := find_split hfind
      have hlog' : LogAt s (p + r.size + logSize us) (y :: rest) := hlog.tail.drop
      obtain ⟨us', y', vs, hsplit, hy', hvs, hlast, hge, hall, hex⟩ :=
        enumerateLoop_eq (n := n) (g := guidMax g r) (l := p) hlog' hy (by simp at hn; omega)
      have hnohd : ∀ hd k, Rec.header hd k ∉ us := by
        intro hd k hm
        exact absurd (hus _ hm) (by simp [Rec.signed])
      refine ⟨r :: (us ++ us'), y', vs, by simp [hsplit], hy', hvs, ?_, ?_, ?_, ?_⟩
      · rw [hlast, logSize_cons, logSize_append]
        omega
      · exact (le_guidMax g r).trans hge
      · intro hd k i hm hi
        simp only [List.cons_append, List.append_assoc, List.mem_cons, List.mem_append] at hm
        rcases hm with he | hm | hm
        · exact (hmax.2 hd k i he.symm hi).trans hge
        · exact absurd hm (hnohd hd k)
        · exact hall hd k i (by simpa using hm) hi
      · rcases hex with he | ⟨hd, k, i, hm, hi, he⟩
        · rcases hor with h0 | ⟨hd, k, i, rfl, hi, h0⟩
          · exact Or.inl (he.trans h0)
          · exact Or.inr ⟨hd, k, i, by simp, hi, he.trans h0⟩
        · refine Or.inr ⟨hd, k, i, ?_, hi, he⟩
          simp only [List.cons_append, List.append_assoc, List.mem_cons, List.mem_append] at hm ⊢
          exact Or.inr (Or.inr (by simpa using hm))

/-! ## The log as the initialisation cuts it -/

theorem live_signed (hl : r.live.isSome = true) : r.signed = true := by
  cases r <;> simp_all [Rec.live, Rec.signed]

theorem live_of_unsigned (hs : r.signed = false) : r.live = none := by
  cases r <;> simp_all [Rec.live, Rec.signed]

theorem isSome_false (hl : r.live.isSome = false) : r.live = none := by simpa using hl

variable {D A T : List Rec} {s' : StoreInfo}

/-- The walk ends behind the log in an area of which it is told the size only. -/
theorem Store.logAt_area (S : Store h s D A T) {s0 : StoreInfo}
    (hm : s0.mem = s.mem) (he : s0.pEndOfVars = s.nvramSize) : LogAt s0 h (D ++ (A ++ T)) := by
  have hroom := S.room
  refine ⟨by rw [hm]; exact S.holds, by rw [he]; omega, Or.inr ?_, ?_⟩
  · rw [hm]
    refine rd_erased fun a h1 h2 => S.erased a ?_ ?_
    · unfold sizeOffset at h1
      omega
    · unfold sizeOffset at h2
      unfold sizeofNvar
      omega
  · rintro ⟨p, r⟩ hr
    obtain ⟨hs1, hs2⟩ := S.sizes r (mem_of_mem_place hr)
    have hb := (place_bounds hr).2
    rw [Rec.bytes_length] at hb
    unfold logSize at hroom
    refine ⟨hs1, hs2, show p + r.size ≤ s0.pEndOfVars by rw [he]; omega, ?_⟩
    rcases S.links p r hr with hn | ⟨h0, hlt, -, x, hx, -⟩
    · exact Or.inl hn
    · have hsep := place_sep hr hx (by omega)
      have hbx := (place_bounds hx).2
      rw [Rec.bytes_length] at hsep hbx
      exact Or.inr ⟨show r.size ≤ r.next by omega, show p + r.next ≤ _ by rw [he]; omega, hlt⟩

/-- The same log under another division: what the invariant asks of the division
alone. -/
theorem Store.redivide {D' A' T' : List Rec} (S : Store h s D A T)
    (hL : D ++ (A ++ T) = D' ++ (A' ++ T')) (hm : s'.mem = s.mem)
    (hsize : s'.nvramSize = s.nvramSize)
    (hfirst : s'.pFirstVar = h + logSize D') (hend : s'.pEndOfVars = s'.pFirstVar + logSize A')
    (hD : ∀ x ∈ D', x.live = none)
    (hT : (∀ x ∈ T', x.signed = false) ∨ A' = [] ∧ ∀ x ∈ T', x.live = none)
    (hDA : D' ≠ [] → headSigned D' = true ∧ A' ≠ [] ∧ headSigned A' = true)
    (hA : A' ≠ [] → headSigned A' = true)
    (hguid : ∀ hd n i, Rec.header hd n ∈ A' → hd.ref = .index i → i.toNat < s'.nextGuid)
    (hnext : s'.nextGuid ≤ max s.nextGuid 1)
    (h256 : s'.nextGuid ≤ 256) : Store h s' D' A' T' := by
  have hres : ∀ g : GuidRef, g.resolve s' = g.resolve s := by
    intro g
    cases g with
    | index i => simp only [GuidRef.resolve, StoreInfo.guidSlot, hm, hsize]
    | full g => rfl
  have hTlive : ∀ x ∈ T', x.live = none := by
    rcases hT with hT | ⟨-, hT⟩
    · exact fun x hx => live_of_unsigned (hT x hx)
    · exact hT
  have hdead : ∀ x ∈ D' ++ T', x.live = none := by
    intro x hx
    rcases List.mem_append.mp hx with hx | hx
    · exact hD x hx
    · exact hTlive x hx
  -- a signed record behind the end exists only where nothing is walked
  have hin : ∀ q x, (q, x) ∈ placed h (D' ++ (A' ++ T')) → x.signed = true →
      q < s'.pEndOfVars ∨ A' = [] ∧ ∀ x ∈ T', x.live = none := by
    intro q x hx hs
    rw [placed, place_append, place_append, List.mem_append, List.mem_append] at hx
    have hpos := x.bytes_pos
    unfold logSize at hfirst hend
    rcases hx with hx | hx | hx
    · have := (place_bounds hx).2
      exact Or.inl (by omega)
    · have := (place_bounds hx).2
      exact Or.inl (by omega)
    · refine hT.imp (fun hT => ?_) id
      rw [hT x (mem_of_mem_place hx)] at hs
      exact absurd hs (by simp)
  constructor
  case holds => rw [hm, ← hL]; exact S.holds
  case first => exact hfirst
  case end_ => exact hend
  case sizes => rw [← hL]; exact S.sizes
  case links =>
    intro p r hr
    rw [← hL] at hr
    rcases S.links p r hr with hn | ⟨h0, hlt, -, x, hx, hd⟩
    · exact Or.inl hn
    · rw [hL] at hx
      refine Or.inr ⟨h0, hlt, fun hp => ?_, x, hx, hd⟩
      have hs : x.signed = true := by cases x <;> simp_all [Rec.isData, Rec.signed]
      rcases hin _ _ hx hs with h1 | ⟨hA0, -⟩
      · exact h1
      · -- then nothing lies before the end
        exfalso
        have hD0 : D' = [] := by
          by_contra hne
          exact (hDA hne).2.1 hA0
        have := (place_bounds hr).1
        rw [hend, hfirst, hA0, hD0, logSize_nil] at hp
        omega
  case dead => exact hdead
  case dead_head => exact hDA
  case tail =>
    rcases hT with hT | ⟨hA0, -⟩
    · exact Or.inl fun hd n hm => absurd (hT _ hm) (by simp [Rec.signed])
    · exact Or.inr (by simp [hA0])
  case head =>
    by_cases hA0 : A' = []
    · exact Or.inr (by simp [hA0])
    · exact Or.inl (hA hA0)
  case walkedGuids => exact hguid
  case unique =>
    rw [← hL]
    intro p hd n p' hd' n' h1 h2 h3 h4 h5 h6
    rw [hres, hres] at h6
    exact S.unique p hd n p' hd' n' h1 h2 h3 h4 h5 h6
  case chains =>
    rw [← hL]
    intro p hd n h1 hv
    obtain ⟨q, rf, hc, -, hcount⟩ := S.chains p hd n h1 hv
    refine ⟨q, rf, hc, ?_, hcount⟩
    have hs : rf.signed = true := by
      rcases hc.data_or with ⟨-, rfl⟩ | hd'
      · rfl
      · cases rf <;> simp_all [Rec.isData, Rec.signed]
    have hq := hc.mem h1
    rw [hL] at hq h1
    rcases hin q rf hq hs with h2 | ⟨hA0, -⟩
    · exact h2
    · have hl : (Rec.header hd n).live = none := by
        have hmem := mem_of_mem_place h1
        rw [hA0, List.nil_append] at hmem
        exact hdead _ hmem
      simp [Rec.live, hv] at hl
  case ends => rw [← hL]; exact S.ends
  case room =>
    rw [← hL, hsize]
    have := S.room
    unfold sizeofGuid at *
    omega
  case erased =>
    rw [← hL, hm]
    exact S.erased
  case guid256 => exact h256
  case spare =>
    rw [← hL, hsize]
    exact S.spare

/-! ## Initialisation -/

/-- What the driver makes of a store from its bytes. -/
def reboot (h : Nat) (s : StoreInfo) : StoreInfo :=
  enumerateStore (nvInitInfoBuffer s.mem s.nvramSize h s.flags)

/-- No record fits into an empty range. -/
theorem nvIsVariable_empty {s : StoreInfo} (he : s.pEndOfVars ≤ p) : nvIsVariable s p = false := by
  have hs : sizeOk s p = false := by
    unfold sizeOk
    by_cases hsz : sizeofNvar < sizeAt s.mem p
    · have : ¬ p + sizeAt s.mem p ≤ s.pEndOfVars := by omega
      simp [this]
    · simp [hsz]
  simp [nvIsVariable, hs]

/-- The information buffer before the first variable is looked for. -/
def area (h : Nat) (s : StoreInfo) : StoreInfo :=
  { mem := s.mem, nvramSize := s.nvramSize, pFirstVar := h, pEndOfVars := s.nvramSize,
    nextGuid := 0, lastVarSize := 0, pLastReturned := none, flags := s.flags }

theorem reboot_eq (hnv : s.flags.nonVolatile = true) : reboot h s =
    enumerateStore (match nvGetFirstValid (area h s) with
      | some p => { area h s with pFirstVar := p }
      | none => { area h s with pEndOfVars := h }) := by
  unfold reboot nvInitInfoBuffer
  simp only [hnv, Bool.not_true, Bool.false_eq_true, if_false]
  rfl

/-- An initialisation that finds no live header finds an empty store. -/
theorem reboot_none (hnv : s.flags.nonVolatile = true) (hnone : nvGetFirstValid (area h s) = none) :
    reboot h s = { area h s with pEndOfVars := h } := by
  rw [reboot_eq hnv, hnone]
  unfold enumerateStore
  rw [nvIsVariable_empty (show h ≤ h from le_rfl)]
  rfl

theorem Store.none_live (S : Store h s D A T)
    (hnone : nvGetFirstValid (area h s) = none) : ∀ x ∈ D ++ (A ++ T), x.live = none := by
  have hlog : LogAt (area h s) (area h s).pFirstVar (D ++ (A ++ T)) := S.logAt_area rfl rfl
  rw [nvGetFirstValid_eq hlog] at hnone
  cases hh : headSigned (D ++ (A ++ T)) with
  | true =>
    rw [hh, if_pos rfl] at hnone
    exact fun x hx => isSome_false (unfound (f := fun r => r.live.isSome) hnone x hx)
  | false =>
    have hD0 : D = [] := by
      by_contra hne
      rw [headSigned_append hne] at hh
      rw [(S.dead_head hne).1] at hh
      exact absurd hh (by simp)
    subst hD0
    intro x hx
    rcases List.mem_append.mp (by simpa using hx) with hx | hx
    · rcases S.head with h1 | h1
      · have hA0 : A ≠ [] := List.ne_nil_of_mem hx
        rw [List.nil_append, headSigned_append hA0, h1] at hh
        exact absurd hh (by simp)
      · exact h1 x hx
    · exact S.dead x (by simp [hx])

/-- A store without variables comes out empty. -/
theorem Store.reboot_empty (S : Store h s D A T)
    (hnv : s.flags.nonVolatile = true) (hnone : nvGetFirstValid (area h s) = none) :
    Store h (reboot h s) [] [] (D ++ (A ++ T)) := by
  rw [reboot_none hnv hnone]
  exact S.redivide rfl rfl rfl rfl rfl (by simp) (Or.inr ⟨rfl, S.none_live hnone⟩) (by simp)
    (by simp) (by simp) (Nat.zero_le _) (Nat.zero_le _)

theorem LogAt.of_eq (hlog : LogAt s p xs) (hm : s'.mem = s.mem)
    (he : s'.pEndOfVars = s.pEndOfVars) : LogAt s' p xs :=
  ⟨by rw [hm]; exact hlog.holds, by rw [he]; exact hlog.le, by rw [hm, he]; exact hlog.stop,
    by rw [he]; exact hlog.fits⟩

/-- `n` is the largest GUID index in the header records, or 0. -/
def TopGuid (xs : List Rec) (n : Nat) : Prop :=
  (∀ hd k i, Rec.header hd k ∈ xs → hd.ref = .index i → i.toNat ≤ n)
    ∧ (n = 0 ∨ ∃ hd k i, Rec.header hd k ∈ xs ∧ hd.ref = .index i ∧ n = i.toNat)

theorem TopGuid.unique {n n' : Nat} (h1 : TopGuid xs n) (h2 : TopGuid xs n') : n = n' := by
  have hle : ∀ {a b : Nat}, TopGuid xs a → TopGuid xs b → a ≤ b := by
    intro a b ha hb
    rcases ha.2 with h0 | ⟨hd, k, i, hm, hi, he⟩
    · omega
    · rw [he]
      exact hb.1 hd k i hm hi
  exact Nat.le_antisymm (hle h1 h2) (hle h2 h1)

/-- What `EnumerateStore` makes of a log that ends in the signed record `y` and the
unsigned records `vs`, with `n` for the largest GUID index. -/
def enumerated (s : StoreInfo) (us : List Rec) (y : Rec) (vs : List Rec) (n : Nat) : StoreInfo :=
  let e := s.pFirstVar + logSize (us ++ [y])
  match vs with
  | [] => { s with nextGuid := n + 1, lastVarSize := y.size, pEndOfVars := e }
  | z :: _ =>
    if e + z.size + sizeofGuid * (n + 1) + sizeofGuid ≤ s.nvramSize then
      { s with nextGuid := n + 1, lastVarSize := (y.size + z.size) % 65536, pEndOfVars := e + z.size }
    else { s with nextGuid := n + 1, lastVarSize := y.size, pEndOfVars := e }

theorem enumerateStore_enumerated (hlog : LogAt s s.pFirstVar (r :: xs)) (hs : r.signed = true)
    (hstop : sizeAt s.mem (s.pFirstVar + logSize (r :: xs)) = flashEmptySize) :
    ∃ us y vs n, r :: xs = us ++ y :: vs ∧ y.signed = true ∧ (∀ v ∈ vs, v.signed = false)
      ∧ TopGuid (us ++ [y]) n ∧ enumerateStore s = enumerated s us y vs n := by
  obtain ⟨us, y, vs, hsplit, hy, hvs, hlast, -, hall, hex⟩ :=
    enumerateLoop_eq (n := s.pEndOfVars + 1) (p := s.pFirstVar) (g := 0) (l := s.pFirstVar)
      hlog hs hlog.tail.fuel
  set res := enumerateLoop s (s.pEndOfVars + 1) 0 s.pFirstVar s.pFirstVar with hres
  have hlogy : LogAt s (s.pFirstVar + logSize us) (y :: vs) := by
    rw [hsplit] at hlog
    exact hlog.drop
  have hsize : sizeAt s.mem (s.pFirstVar + logSize us) = y.size := hlogy.head_at.size
  have hend : s.pFirstVar + logSize us + y.size = s.pFirstVar + logSize (us ++ [y]) := by
    rw [logSize_append, logSize_cons, logSize_nil]
    omega
  refine ⟨us, y, vs, res.1, hsplit, hy, hvs, ⟨hall, hex⟩, ?_⟩
  unfold enumerateStore enumerated
  rw [nvIsVariable_eq hlog.head_at hlog.head_fits, hs]
  simp only [Bool.not_true, Bool.false_eq_true, if_false, ← hres, hlast, hsize]
  cases vs with
  | nil =>
    have hff : sizeAt s.mem (s.pFirstVar + logSize us + y.size) = flashEmptySize := by
      rw [hsplit] at hstop
      rw [hend]
      exact hstop
    rw [hff, hend]
    simp
  | cons z zs =>
    have hz := hlogy.tail.head_fits.size_lt
    have htail : sizeAt s.mem (s.pFirstVar + logSize us + y.size) = z.size :=
      hlogy.tail.head_at.size
    rw [htail, hend]
    simp only [bne_iff_ne, ne_eq, decide_eq_true_eq, Bool.and_eq_true, (ne_of_lt hz : z.size ≠ _),
      not_false_eq_true, true_and]

/-- An initialisation that finds a live header enumerates the log from there. -/
theorem Store.reboot_some (S : Store h s D A T)
    (hnv : s.flags.nonVolatile = true) {q : Nat} (hsome : nvGetFirstValid (area h s) = some q) :
    ∃ ds r rest us y vs n, D ++ (A ++ T) = ds ++ r :: rest ∧ r.live.isSome = true
      ∧ (∀ x ∈ ds, x.live = none) ∧ headSigned (D ++ (A ++ T)) = true
      ∧ r :: rest = us ++ y :: vs ∧ y.signed = true ∧ (∀ v ∈ vs, v.signed = false)
      ∧ TopGuid (us ++ [y]) n
      ∧ reboot h s = enumerated { area h s with pFirstVar := h + logSize ds } us y vs n := by
  have hlog : LogAt (area h s) (area h s).pFirstVar (D ++ (A ++ T)) := S.logAt_area rfl rfl
  rw [nvGetFirstValid_eq hlog] at hsome
  cases hh : headSigned (D ++ (A ++ T)) with
  | false => rw [hh] at hsome; exact absurd hsome (by simp)
  | true =>
    rw [hh, if_pos rfl] at hsome
    obtain ⟨ds, r, rest, hL, rfl, hr, hds⟩ :=
      find_split (f := fun r => r.live.isSome) hsome
    set s1 : StoreInfo := { area h s with pFirstVar := h + logSize ds } with hs1
    have hlog1 : LogAt s1 s1.pFirstVar (r :: rest) := by
      rw [hL] at hlog
      exact hlog.drop.of_eq rfl rfl
    have hroom := S.room
    have hstop : sizeAt s1.mem (s1.pFirstVar + logSize (r :: rest)) = flashEmptySize := by
      have hstop := hlog.stop
      rw [hL, logSize_append, ← Nat.add_assoc] at hstop
      refine hstop.resolve_left fun he => ?_
      rw [hL, logSize_append] at hroom
      change s.nvramSize = h + logSize ds + logSize (r :: rest) at he
      unfold sizeofNvar at hroom
      omega
    obtain ⟨us, y, vs, n, hsplit, hy, hvs, htop, hres⟩ :=
      enumerateStore_enumerated hlog1 (live_signed hr) hstop
    refine ⟨ds, r, rest, us, y, vs, n, hL, hr, fun x hx => isSome_false (hds x hx), rfl, hsplit, hy,
      hvs, htop, ?_⟩
    rw [← hres, reboot_eq hnv, nvGetFirstValid_eq hlog, hh, if_pos rfl, hsome]
    rfl

/-- What the enumeration makes of the log: some of the unsigned records at its end are
walked, the others are not. -/
theorem enumerated_eq (s : StoreInfo) (us : List Rec) (y : Rec) (vs : List Rec) (n : Nat) :
    ∃ ws ts l, vs = ws ++ ts ∧ enumerated s us y vs n = { s with
      nextGuid := n + 1
      lastVarSize := l
      pEndOfVars := s.pFirstVar + logSize (us ++ y :: ws) } := by
  unfold enumerated
  cases vs with
  | nil => exact ⟨[], [], y.size, rfl, rfl⟩
  | cons z zs =>
    simp only
    split
    · refine ⟨[z], zs, (y.size + z.size) % 65536, rfl, ?_⟩
      have hlen : logSize (us ++ [y, z]) = logSize (us ++ [y]) + z.size := by
        simp only [logSize_append, logSize_cons, logSize_nil]
        omega
      rw [hlen, Nat.add_assoc]
    · exact ⟨[], z :: zs, y.size, rfl, rfl⟩

/-- A store with variables comes out with all of them. -/
theorem Store.reboot_found (S : Store h s D A T)
    (hnv : s.flags.nonVolatile = true) {q : Nat} (hsome : nvGetFirstValid (area h s) = some q) :
    ∃ D' A' T', Store h (reboot h s) D' A' T' ∧ D ++ (A ++ T) = D' ++ (A' ++ T') := by
  obtain ⟨ds, r, rest, us, y, vs, n, hL, hr, hdead, hh, hsplit0, -, hvs, ⟨hall, hex⟩, hreb⟩ :=
    S.reboot_some hnv hsome
  obtain ⟨ws, ts, l, rfl, hres⟩ :=
    enumerated_eq { area h s with pFirstVar := h + logSize ds } us y vs n
  have hsplit : r :: rest = us ++ y :: (ws ++ ts) := hsplit0
  have hunsigned : ∀ v ∈ ws ++ ts, v.signed = false := hvs
  have hL' : D ++ (A ++ T) = ds ++ (us ++ y :: ws ++ ts) := by
    rw [hL, hsplit]
    simp
  -- the headers of the new walked part were walked before
  have hwalk : ∀ hd k, Rec.header hd k ∈ us ++ [y] → Rec.header hd k ∈ A := by
    intro hd k hm
    have hlA : ∀ hd' k', Rec.header hd' k' ∈ T → False := by
      intro hd' k' hT
      rcases S.tail with h1 | h1
      · exact h1 _ _ hT
      · have hrL : r ∈ D ++ (A ++ T) := by rw [hL]; simp
        have hrl : r.live = none := by
          rcases List.mem_append.mp hrL with h2 | h2
          · exact S.dead r (List.mem_append_left _ h2)
          · rcases List.mem_append.mp h2 with h2 | h2
            · exact h1 r h2
            · exact S.dead r (List.mem_append_right _ h2)
        rw [hrl] at hr
        exact absurd hr (by simp)
    have hrA : (h + logSize ds, r) ∈ placed s.pFirstVar A := by
      have hmem : (h + logSize ds, r) ∈ placed h (D ++ (A ++ T)) := by
        rw [hL]
        exact mem_place_mid _ _ _ _
      obtain ⟨hd0, hl0⟩ := Option.isSome_iff_exists.mp hr
      obtain ⟨hv0, n0, rfl⟩ := Rec.eq_header_of_live hl0
      exact S.mem_walked hmem hv0
    have hle : s.pFirstVar ≤ h + logSize ds := (place_bounds hrA).1
    obtain ⟨a, ha⟩ : ∃ a, (a, Rec.header hd k) ∈ placed (h + logSize ds) (r :: rest) := by
      rw [hsplit, show us ++ y :: (ws ++ ts) = us ++ [y] ++ (ws ++ ts) by simp]
      obtain ⟨xs1, xs2, he⟩ := List.append_of_mem hm
      rw [he, List.append_assoc, List.cons_append]
      exact ⟨_, mem_place_mid _ _ _ _⟩
    have hmem : (a, Rec.header hd k) ∈ placed h (D ++ (A ++ T)) := by
      rw [hL, placed, place_append]
      exact List.mem_append_right _ ha
    have hge := (place_bounds ha).1
    rcases S.mem_parts.mp hmem with h1 | h1 | h1
    · have h2 := (place_bounds h1).2
      have h3 := (Rec.header hd k).bytes_pos
      have h4 := S.first
      unfold logSize at h4 hle hge
      omega
    · exact mem_of_mem_place h1
    · exact absurd (mem_of_mem_place h1) (hlA hd k)
  have hidx : ∀ hd k i, Rec.header hd k ∈ us ++ [y] → hd.ref = .index i →
      i.toNat < s.nextGuid := fun hd k i hm hi => S.walkedGuids hd k i (hwalk hd k hm) hi
  have hheadA : headSigned (us ++ y :: ws) = true := by
    have : headSigned (r :: rest) = true := live_signed hr
    rw [hsplit, show us ++ y :: (ws ++ ts) = (us ++ y :: ws) ++ ts by simp,
      headSigned_append (by simp)] at this
    exact this
  refine ⟨ds, us ++ y :: ws, ts, ?_, hL'⟩
  rw [hreb, hres]
  refine S.redivide hL' rfl rfl rfl rfl hdead
    (Or.inl fun x hx => hunsigned x (List.mem_append_right _ hx)) ?_ (fun _ => hheadA) ?_
    ?_ ?_
  · intro hne
    refine ⟨?_, by simp, hheadA⟩
    rwa [hL, headSigned_append hne] at hh
  · intro hd k i hm hi
    have hm' : Rec.header hd k ∈ us ++ [y] := by
      simp only [List.mem_append, List.mem_cons, List.not_mem_nil, or_false] at hm ⊢
      rcases hm with hm | hm | hm
      · exact Or.inl hm
      · exact Or.inr hm
      · exact absurd (hunsigned _ (List.mem_append_left _ hm)) (by simp [Rec.signed])
    exact Nat.lt_succ_of_le (hall hd k i hm' hi)
  · rcases hex with hn | ⟨hd, k, i, hm, hi, hn⟩
    · change n + 1 ≤ _
      omega
    · have := hidx hd k i hm hi
      change n + 1 ≤ _
      omega
  · change n + 1 ≤ 256
    rcases hex with hn | ⟨hd, k, i, hm, hi, hn⟩
    · omega
    · have := i.toNat_lt
      omega

theorem enumerateStore_keeps (s : StoreInfo) : (enumerateStore s).mem = s.mem
    ∧ (enumerateStore s).nvramSize = s.nvramSize ∧ (enumerateStore s).flags = s.flags := by
  unfold enumerateStore
  split
  · exact ⟨rfl, rfl, rfl⟩
  · dsimp only
    split <;> exact ⟨rfl, rfl, rfl⟩

/-- The initialisation reads the flash only. -/
theorem reboot_keeps (hnv : s.flags.nonVolatile = true) : (reboot h s).mem = s.mem
    ∧ (reboot h s).nvramSize = s.nvramSize ∧ (reboot h s).flags = s.flags := by
  rw [reboot_eq hnv]
  obtain ⟨h1, h2, h3⟩ := enumerateStore_keeps (match nvGetFirstValid (area h s) with
    | some p => { area h s with pFirstVar := p }
    | none => { area h s with pEndOfVars := h })
  rw [h1, h2, h3]
  split <;> exact ⟨rfl, rfl, rfl⟩

/-- The initialisation keeps the invariant and divides the same log anew. -/
theorem Store.reboot_log (S : Store h s D A T)
    (hnv : s.flags.nonVolatile = true) :
    ∃ D' A' T', Store h (reboot h s) D' A' T' ∧ D ++ (A ++ T) = D' ++ (A' ++ T') := by
  cases hf : nvGetFirstValid (area h s) with
  | none => exact ⟨[], [], _, S.reboot_empty hnv hf, rfl⟩
  | some q => exact S.reboot_found hnv hf

/-- The initialisation keeps the invariant and every variable, and reads nothing
into the store that was not there. -/
theorem Store.reboot (S : Store h s D A T) (hnv : s.flags.nonVolatile = true) :
    ∃ D' A' T', Store h (reboot h s) D' A' T' ∧ ∀ k v,
      Reads (Nvram.reboot h s) (placed h (D' ++ (A' ++ T'))) k v ↔
        Reads s (placed h (D ++ (A ++ T))) k v := by
  obtain ⟨hm, hsize, hflags⟩ := reboot_keeps (h := h) hnv
  obtain ⟨D', A', T', S', hL⟩ := S.reboot_log hnv
  refine ⟨D', A', T', S', fun k v => ?_⟩
  rw [← hL]
  exact reads_congr hm hsize hflags

end

end BayTrail.Nvram
