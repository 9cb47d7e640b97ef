import BayTrail.Nvram.Compact

/-!
# The NVRAM store: garbage collection

The copy loop visits the live headers one after the other, and each variable that is
kept goes to the target by `Copied.step`. A well-formed store whose variables are all
`Collectable` is copied as a whole.
-/

namespace BayTrail.Nvram

open BayTrail.Lib

/-- The records of one build: they have a checksum or not as `NvramChecksumSupport` says,
and no variable has an empty name. -/
def Uniform (cfg : Config) (A : List Rec) : Prop :=
  ∀ hd n, Rec.header hd n ∈ A → hd.valid = true → hd.cks = cfg.checksum ∧ hd.name.chars ≠ []

/-- The filters look at the variables, not at `pLastReturned`. -/
def Filter.Steady (filter : Filter) (s : StoreInfo) : Prop :=
  ∀ x key, filter { s with pLastReturned := x } key = filter s key

/-- The variables that a copy does not skip. -/
def Kept (cfg : Config) (filter : Filter) (preserved : Bool) (s : StoreInfo) (key : Key) : Prop :=
  (filter s key || preserved && varNotInPreserveList cfg key) = false

section

variable {h : Nat} {src : StoreInfo} {D A T : List Rec} {key : Key} {x : Option Nat}

/-! ## One step of the loop -/

section

variable {cfg : Config} {i : Interface} {filter : Filter} {preserved : Bool}
  {device : Nat → Faults} {fuel j size : Nat} {s s' dst : StoreInfo} {k : Key}

/-- A variable that is skipped. -/
theorem copyLoop_skip
    (hnext : nvGetNextVariableName s s.nvramSize key false = ⟨.success, size, k, s'⟩)
    (hskip : (filter s' k || preserved && varNotInPreserveList cfg k) = true) :
    copyLoop cfg i filter preserved device (fuel + 1) j s dst key
      = copyLoop cfg i filter preserved device fuel j s' dst k := by
  rw [copyLoop]
  simp only [hnext, ne_eq, not_true_eq_false, if_false, hskip, if_true]

/-- A variable that is copied. -/
theorem copyLoop_copy
    (hnext : nvGetNextVariableName s s.nvramSize key false = ⟨.success, size, k, s'⟩)
    (hkeep : (filter s' k || preserved && varNotInPreserveList cfg k) = false)
    (hok : (copyVariable cfg i s.nvramSize s' dst k (device j)).1 = .success) :
    copyLoop cfg i filter preserved device (fuel + 1) j s dst key
      = copyLoop cfg i filter preserved device fuel (j + 1) s'
          (copyVariable cfg i s.nvramSize s' dst k (device j)).2 k := by
  rw [copyLoop]
  simp only [hnext, ne_eq, not_true_eq_false, if_false, hkeep, hok, false_and, Bool.false_eq_true]

/-- An iteration that ends the copy. -/
theorem copyLoop_end {st : Status}
    (hnext : nvGetNextVariableName s s.nvramSize key false = ⟨st, size, k, s'⟩)
    (hst : st ≠ .success) :
    copyLoop cfg i filter preserved device (fuel + 1) j s dst key
      = ⟨if st = .notFound then .success else st, false, s', dst⟩ := by
  rw [copyLoop]
  simp only [hnext, ne_eq, hst, not_false_eq_true, if_true]

end

variable {b p q : Nat} {us rest : List Rec} {hd : Header} {P : List (Nat × Rec)} {rf : Rec}
  {env : CopyEnv}

/-- The next name, when the iteration has reached a live header. -/
theorem nextName_some {s : StoreInfo} {n : Nat}
    (hgo : GoesOn s key b (us ++ .header hd n :: rest)) (hv : hd.valid = true)
    (hus : ∀ u ∈ us, u.live.isSome = false)
    (hat : RecAt s.mem (b + logSize us) (.header hd n))
    (hlen : hd.name.chars.length < s.nvramSize) :
    nvGetNextVariableName s s.nvramSize key false
      = if s.nvramSize < 2 * (hd.name.chars.length + 1) then
          ⟨.bufferTooSmall, 2 * (hd.name.chars.length + 1), key, s⟩
        else ⟨.success, 2 * (hd.name.chars.length + 1), (hd.name, guidAt s (b + logSize us)),
          { s with pLastReturned := some (b + logSize us) }⟩ := by
  have hfind : ((placed b (us ++ .header hd n :: rest)).find? fun x => x.2.live.isSome).map Prod.fst
      = some (b + logSize us) := by
    have hnone : (placed b us).find? (fun x => x.2.live.isSome) = none :=
      List.find?_eq_none.mpr fun x hx => by simp [hus x.2 (mem_of_mem_place hx)]
    rw [placed, place_append, List.find?_append, hnone, Option.none_or, place_cons,
      List.find?_cons_of_pos (by simp [Rec.live, hv])]
    rfl
  unfold GoesOn at hgo
  rw [hfind] at hgo
  unfold nvGetNextVariableName
  rw [hgo]
  simp only
  unfold nvGetNameFromNvar
  rw [nameAt_eq hat hlen]

/-- The next name, when no live header is left. -/
theorem nextName_none {s : StoreInfo} {size : Nat} {xs : List Rec} (hgo : GoesOn s key b xs)
    (hxs : ∀ u ∈ xs, u.live.isSome = false) :
    nvGetNextVariableName s size key false
      = ⟨.notFound, size, key, { s with pLastReturned := none }⟩ := by
  have hnone : (placed b xs).find? (fun x => x.2.live.isSome) = none :=
    List.find?_eq_none.mpr fun x hx => by simp [hxs x.2 (mem_of_mem_place hx)]
  unfold GoesOn at hgo
  rw [hnone] at hgo
  unfold nvGetNextVariableName
  rw [hgo]
  rfl

/-- Where the next live header is, if there is one. -/
theorem next_live (xs : List Rec) : (∀ u ∈ xs, u.live.isSome = false)
    ∨ ∃ us hd n rest, xs = us ++ .header hd n :: rest ∧ hd.valid = true
      ∧ ∀ u ∈ us, u.live.isSome = false := by
  induction xs with
  | nil => exact Or.inl (by simp)
  | cons y ys ih =>
    cases hy : y.live with
    | some hd =>
      obtain ⟨hv, n, rfl⟩ := Rec.eq_header_of_live hy
      exact Or.inr ⟨[], hd, n, ys, rfl, hv, by simp⟩
    | none =>
      rcases ih with ih | ⟨us, hd, n, rest, rfl, hv, hus⟩
      · refine Or.inl fun u hu => ?_
        rcases List.mem_cons.mp hu with rfl | hu
        · simp [hy]
        · exact ih u hu
      · refine Or.inr ⟨y :: us, hd, n, rest, rfl, hv, fun u hu => ?_⟩
        rcases List.mem_cons.mp hu with rfl | hu
        · simp [hy]
        · exact hus u hu

/-! ## The loop -/

variable {cfg : Config} {filter : Filter} {preserved : Bool}

theorem VarAt.le (hv : VarAt P p hd q rf) : p ≤ q := by
  obtain ⟨-, n, -, hc⟩ := hv
  exact hc.le

/-- The headers before the end of `us` are those before its start when nothing in `us` is
live. -/
theorem Store.gap (S : Store h src D A T) {A1 : List Rec} (hA : A = A1 ++ (us ++ rest))
    (hus : ∀ u ∈ us, u.live.isSome = false)
    (hv : VarAt (placed h (D ++ (A ++ T))) p hd q rf)
    (hlt : p < src.pFirstVar + logSize A1 + logSize us) : p < src.pFirstVar + logSize A1 := by
  obtain ⟨hval, n, hm, -⟩ := hv
  have hmA := S.mem_walked hm hval
  rw [hA, placed, place_append, place_append, List.mem_append, List.mem_append] at hmA
  have hpos := (Rec.header hd n).bytes_pos
  rcases hmA with h1 | h1 | h1
  · have := (place_bounds h1).2
    unfold logSize
    omega
  · have := hus _ (mem_of_mem_place h1)
    simp [Rec.live, hval] at this
  · have := (place_bounds h1).1
    unfold logSize at hlt
    omega

/-- What the loop needs of a variable that it meets. -/
def Passable (cfg : Config) (filter : Filter) (preserved : Bool) (s : StoreInfo) (k : Key)
    (hd : Header) (rf : Rec) : Prop :=
  2 * (hd.name.chars.length + 1) ≤ s.nvramSize
    ∧ (Kept cfg filter preserved s k → compactSize hd rf.payload < flashEmptySize)

/-- The rest of the loop copies every variable that is kept and not yet copied, up to the
first that is not passable. -/
theorem copyLoop_reaches (S : Store h src D A T) (U : Uniform cfg A)
    (hsteady : filter.Steady src) (device : Nat → Faults) :
    ∀ (fuel : Nat) {A1 A2 : List Rec} {dst : StoreInfo} {B : List Rec} {Q : List (Nat × Rec)}
      {I : List UInt8} {x : Option Nat} {key : Key} {j : Nat}, A = A1 ++ A2 → A2.length < fuel →
    GoesOn { src with pLastReturned := x } key (src.pFirstVar + logSize A1) A2 →
    Copied h src (placed h (D ++ (A ++ T))) (Kept cfg filter preserved src)
      (src.pFirstVar + logSize A1) dst B Q I →
    let r := copyLoop cfg .mem filter preserved device fuel j { src with pLastReturned := x } dst key
    (r.status = .success ∧ r.saveOnlyPreservedVars = false
      ∧ r.source = { src with pLastReturned := none }
      ∧ (∀ p hd q rf k, VarAt (placed h (D ++ (A ++ T))) p hd q rf →
          src.pFirstVar + logSize A1 ≤ p → hd.Named src k →
          Passable cfg filter preserved src k hd rf)
      ∧ ∃ B' Q' I',
        Copied h src (placed h (D ++ (A ++ T))) (Kept cfg filter preserved src) src.pEndOfVars
          r.target B' Q' I') ∨
    ∃ A1 us hd n rest q rf k x key dst B Q I fuel j, A = A1 ++ (us ++ Rec.header hd n :: rest)
      ∧ (∀ u ∈ us, u.live.isSome = false)
      ∧ VarAt (placed h (D ++ (A ++ T))) (src.pFirstVar + logSize A1 + logSize us) hd q rf
      ∧ hd.Named src k ∧ ¬ Passable cfg filter preserved src k hd rf
      ∧ GoesOn { src with pLastReturned := x } key (src.pFirstVar + logSize A1)
          (us ++ Rec.header hd n :: rest)
      ∧ Copied h src (placed h (D ++ (A ++ T))) (Kept cfg filter preserved src)
          (src.pFirstVar + logSize A1) dst B Q I
      ∧ r = copyLoop cfg .mem filter preserved device (fuel + 1) j
          { src with pLastReturned := x } dst key := by
  intro fuel
  induction fuel with
  | zero => exact fun _ hf => absurd hf (Nat.not_lt_zero _)
  | succ fuel ih =>
    intro A1 A2 dst B Q I x key j hA hf hgo C
    have hend := S.end_
    intro r
    rcases next_live A2 with hnone | ⟨us, hd, n, rest, rfl, hval, hus⟩
    · -- the end of the log
      have hr : r = ⟨.success, false, { src with pLastReturned := none }, dst⟩ :=
        copyLoop_end (nextName_none hgo hnone) (by simp)
      have hlast : ∀ p hd q rf, VarAt (placed h (D ++ (A ++ T))) p hd q rf → p < src.pEndOfVars →
          p < src.pFirstVar + logSize A1 := by
        intro p hd q rf hv hlt
        refine S.gap (show A = A1 ++ (A2 ++ []) by simpa using hA) hnone hv ?_
        rw [hend, hA, logSize_append] at hlt
        omega
      rw [hr]
      refine Or.inl ⟨rfl, rfl, rfl, ?_, B, Q, I, C.skip ?_ ?_⟩
      · intro p hd q rf k hv hb
        have hle := hv.le
        have := hlast p hd q rf hv (lt_of_le_of_lt hle (S.varAt_final hv))
        omega
      · rw [hend, hA, logSize_append]
        omega
      · intro p hd q rf k hv hb hlt
        have := hlast p hd q rf hv hlt
        omega
    · -- the next variable, at `p`
      have Sx := S.returned x
      set s : StoreInfo := { src with pLastReturned := x } with hs
      set b := src.pFirstVar + logSize A1 with hbdef
      set p := b + logSize us with hp
      have hA' : A = (A1 ++ us) ++ Rec.header hd n :: rest := by rw [hA, List.append_assoc]
      have hpfirst : p = src.pFirstVar + logSize (A1 ++ us) := by
        rw [logSize_append]
        omega
      have hmA : (p, Rec.header hd n) ∈ placed src.pFirstVar A := by
        rw [hA', hpfirst]
        exact mem_place_mid _ _ _ _
      have hm := S.mem_log hmA
      obtain ⟨q, rf, hc, -, -⟩ := S.chains p hd n hm hval
      have hv : VarAt (placed h (D ++ (A ++ T))) p hd q rf := ⟨hval, n, hm, hc⟩
      have hat := S.logAt.mem_at hmA
      have hsize := (S.logAt.fits _ hmA).inside
      obtain ⟨hcks, hne⟩ := U hd n (mem_of_mem_place hmA) hval
      have hinside : p + (Rec.header hd n).size + sizeofNvar ≤ src.nvramSize := by
        have := (S.spare _ _ hm).1
        omega
      have hlen : hd.name.chars.length < src.nvramSize := by
        have hname := hd.name_lt n
        unfold nameSize at hname
        split at hname <;> omega
      set k : Key := (hd.name, guidAt s p) with hkdef
      have hk : hd.Named src k := ⟨rfl, (nvGetGuid_eq (s := src) hat).symm⟩
      by_cases hpass : Passable cfg filter preserved src k hd rf
      swap
      · exact Or.inr ⟨A1, us, hd, n, rest, q, rf, k, x, key, dst, B, Q, I, fuel, j, hA, hus, hv, hk,
          hpass, hgo, C, rfl⟩
      obtain ⟨hfit, hcompact⟩ := id hpass
      have hnext := nextName_some (s := s) hgo hval hus hat hlen
      rw [if_neg (show ¬ s.nvramSize < _ by rw [hs]; simp only; omega), ← hp] at hnext
      set s' : StoreInfo := { src with pLastReturned := some p } with hs'
      have hgo' : GoesOn s' k (p + (Rec.header hd n).size) rest :=
        (S.returned (some p)).goesOn_after hA' hpfirst ⟨hk.1, hk.2⟩ hne rfl
      have hb' : p + (Rec.header hd n).size
          = src.pFirstVar + logSize (A1 ++ us ++ [.header hd n]) := by
        rw [logSize_snoc]
        omega
      have hrest : A = (A1 ++ us ++ [.header hd n]) ++ rest := by rw [hA']; simp
      have hgap : ∀ p' hd' q' rf', VarAt (placed h (D ++ (A ++ T))) p' hd' q' rf' →
          p' < p + (Rec.header hd n).size → p' < b ∨ p' = p := by
        intro p' hd' q' rf' hv' hlt
        by_cases hpp : p' < p
        · exact Or.inl (S.gap hA hus hv' hpp)
        · right
          by_contra hne'
          obtain ⟨-, n', hm', -⟩ := hv'
          have := place_sep hm hm' (by omega)
          rw [Rec.bytes_length] at this
          omega
      have hpos := (Rec.header hd n).size_pos
      have hf' : rest.length < fuel := by
        simp only [List.length_append, List.length_cons] at hf
        omega
      have hskip : (filter s' k || preserved && varNotInPreserveList cfg k)
          = (filter src k || preserved && varNotInPreserveList cfg k) := by
        rw [hs', hsteady]
      -- what the rest of the loop finds passable, with the variable at `p`
      have hpassed : (∀ p' hd' q' rf' k', VarAt (placed h (D ++ (A ++ T))) p' hd' q' rf' →
            src.pFirstVar + logSize (A1 ++ us ++ [.header hd n]) ≤ p' → hd'.Named src k' →
            Passable cfg filter preserved src k' hd' rf') →
          ∀ p' hd' q' rf' k', VarAt (placed h (D ++ (A ++ T))) p' hd' q' rf' →
            b ≤ p' → hd'.Named src k' → Passable cfg filter preserved src k' hd' rf' := by
        intro hlater p' hd' q' rf' k' hv' hb1 hk'
        by_cases hlt : p' < p + (Rec.header hd n).size
        · rcases hgap p' hd' q' rf' hv' hlt with hlt' | rfl
          · omega
          · obtain ⟨-, n', hm', hc'⟩ := hv'
            obtain ⟨rfl, rfl⟩ := Rec.header.inj (placed_unique hm' hm)
            obtain ⟨-, rfl⟩ := chain_unique (fun _ _ _ => placed_unique) hc' hc
            rw [hk'.key_eq hk]
            exact hpass
        · exact hlater p' hd' q' rf' k' hv' (by rw [← hb']; omega) hk'
      by_cases hkept : (filter src k || preserved && varNotInPreserveList cfg k) = true
      · -- skipped
        have hr : r = copyLoop cfg .mem filter preserved device fuel j s' dst k :=
          copyLoop_skip hnext (hskip.trans hkept)
        have C' : Copied h src (placed h (D ++ (A ++ T))) (Kept cfg filter preserved src)
            (p + (Rec.header hd n).size) dst B Q I := by
          refine C.skip (by omega) fun p' hd' q' rf' k' hv' hb1 hlt hk' hkept' => ?_
          rcases hgap p' hd' q' rf' hv' hlt with hlt' | rfl
          · omega
          · obtain ⟨-, n', hm', -⟩ := hv'
            obtain ⟨rfl, -⟩ := Rec.header.inj (placed_unique hm' hm)
            rw [hk'.key_eq hk] at hkept'
            exact absurd hkept (by rw [show _ = false from hkept']; simp)
        rw [hb'] at hgo' C'
        rw [hr]
        exact (ih hrest hf' hgo' C').imp_left fun ⟨h1, h2, h3, h4, h5⟩ =>
          ⟨h1, h2, h3, hpassed h4, h5⟩
      · -- copied
        have hkept' : Kept cfg filter preserved src k := by simpa [Kept] using hkept
        have hbuf : rf.payload.length ≤ src.nvramSize := by
          have h1 := rf.payload_lt
          have h2 := (S.spare _ _ (hc.mem hm)).1
          omega
        have hcopy := (S.returned (some p)).copyVariable_eq (s := s')
          hv ⟨hk.1, hk.2⟩ hbuf cfg .mem dst (device j)
        obtain ⟨hok, B', Q', I', C'⟩ := C.step S hv hm (by omega) hk hkept' hcks
          (hcompact hkept')
          ((S.returned (some p)).copied_value (s := s') hv) (show p < p + (Rec.header hd n).size by omega) hgap (device j)
        have hr : r = copyLoop cfg .mem filter preserved device fuel (j + 1) s'
            (copyVariable cfg .mem src.nvramSize s' dst k (device j)).2 k :=
          copyLoop_copy hnext (hskip.trans hkept') (by rw [hcopy]; exact hok)
        rw [hcopy] at hr
        rw [hb'] at hgo' C'
        rw [hr]
        exact (ih hrest hf' hgo' C').imp_left fun ⟨h1, h2, h3, h4, h5⟩ =>
          ⟨h1, h2, h3, hpassed h4, h5⟩

/-! ## CopyVarStore -/

/-- What a reader finds out about a variable: attributes and data, and for an
authenticated variable its count or time stamp and its key hash. -/
def observe (s : StoreInfo) (k : Key) : Option (UInt32 × Bytes × Option (UInt64 × Bytes)) :=
  (nvFindVariable s k.1 k.2).bind fun found =>
    let r := nvGetVariableFromNvar s (some found.1) found.2 maxNvramVariableSize
    let ext := getVarAuthExtFlags s found.1 ExtSecFlags.zero
    if r.status = .success then
      some (r.attributes, r.data,
        if hasFlag s.mem found.1 flagAuthWrite then some (ext.mc, ext.keyHash) else none)
    else none

/-- The count and the key hash of a value. -/
def Value.auth (v : Value) : Option (UInt64 × Bytes) :=
  v.count.bind fun mc => v.keyHash.map fun hash => (mc, hash)

theorem Store.observe_some (S : Store h src D A T) {k : Key} {v : Value}
    (hr : Reads src (placed h (D ++ (A ++ T))) k v) :
    observe src k = some (v.attributes, v.data, v.auth) := by
  have hback := S.readBack_some hr
  obtain ⟨p, hd, q, rf, hv, hk, rfl⟩ := hr
  have hfind := S.find hv hk
  have hat : ∃ n, RecAt src.mem p (.header hd n) := by
    obtain ⟨hval, n, hm, -⟩ := hv
    exact ⟨n, S.logAt.mem_at (S.mem_walked hm hval)⟩
  obtain ⟨n, hat⟩ := hat
  obtain ⟨-, -, -, hauth, -⟩ := hd.flags_test
  have hflag : hasFlag src.mem p flagAuthWrite = hd.auth.isSome := by
    unfold hasFlag
    rw [flagsAt_header hat, hauth]
  unfold readBack nvGetVariable at hback
  rw [hfind] at hback
  simp only at hback
  unfold observe
  rw [hfind, Option.bind_some]
  simp only
  split at hback
  next hst =>
    obtain ⟨ha, hd'⟩ := Prod.mk.inj (Option.some.inj hback)
    rw [if_pos hst, ha, hd', hflag]
    cases hau : hd.auth with
    | none => simp [Value.auth, Header.value, hau]
    | some a =>
      obtain ⟨hcount, hhash⟩ := S.authExtFlags hv hau ExtSecFlags.zero
      simp [Value.auth, Header.value, hau, hcount, hhash]
  next => exact absurd hback (by simp)

theorem Store.observe_none (S : Store h src D A T) {k : Key}
    (hk : ∀ v, ¬ Reads src (placed h (D ++ (A ++ T))) k v) : observe src k = none := by
  unfold observe
  rw [S.find_none hk]
  rfl

/-- A record of a variable. -/
def IsUsed (P : List (Nat × Rec)) (x : Nat × Rec) : Prop := ∃ b, UsedBefore P b x

open Classical in
/-- The bytes that the records of the variables take in the log. -/
noncomputable def liveSize (P : List (Nat × Rec)) : Nat :=
  ((P.filter fun x => decide (IsUsed P x)).map fun x => x.2.size).sum

theorem sum_le_liveSize {Q : List (Nat × Rec)} (hnodup : Q.Nodup)
    (hQ : ∀ x ∈ Q, x ∈ P ∧ IsUsed P x) : (Q.map fun x => x.2.size).sum ≤ liveSize P := by
  classical
  have hsub : Q ⊆ P.filter fun x => decide (IsUsed P x) := fun x hx =>
    List.mem_filter.mpr ⟨(hQ x hx).1, decide_eq_true (hQ x hx).2⟩
  obtain ⟨l, hperm, hsl⟩ := hnodup.subperm hsub
  rw [← (hperm.map _).sum_nat]
  unfold liveSize
  convert (hsl.map fun x => x.2.size).sum_le_sum fun _ _ => Nat.zero_le _

/-- The copy of a store: a well-formed store with the same variables, in no more room
than these took in the source. -/
structure IsCopy (h : Nat) (src : StoreInfo) (P : List (Nat × Rec)) (r : CopyResult) : Prop where
  status : r.status = .success
  wellFormed : ∃ B T', Store h r.target [] B T' ∧
    ∀ k v, Reads r.target (placed h ([] ++ (B ++ T'))) k v ↔ Reads src P k v
  same : ∀ k, observe r.target k = observe src k
  log : r.target.pEndOfVars ≤ h + liveSize P
  table : r.target.nextGuid ≤ src.nextGuid

/-- The target as `CopyVarStore` prepares it. -/
def prepared (cfg : Config) (src dst : StoreInfo) : StoreInfo :=
  { dst with
    mem := poke (poke dst.mem 0 (List.replicate dst.nvramSize flashEmptyByte)) 0
      (peek src.mem 0 cfg.headerLength)
    pFirstVar := cfg.headerLength
    pEndOfVars := cfg.headerLength
    lastVarSize := 0
    pLastReturned := none
    nextGuid := 0 }

theorem copyVarStore_mem {dst : StoreInfo} (hbuf : env.buffer = true)
    (htmp : env.tmpBuffer = true) :
    copyVarStore cfg .mem src dst filter preserved env
      = copyLoop cfg .mem filter preserved env.vars (src.pEndOfVars + 1) 0 src
          (prepared cfg src dst) noName := by
  unfold copyVarStore copyVariables
  simp only [hbuf, htmp, eraseBytes, effective_mem, Bool.not_true, Bool.false_eq_true, if_false,
    ne_eq, not_true_eq_false]
  rfl

/-- Nothing has been copied yet. -/
theorem Store.copied_start (S : Store h src D A T) {dst : StoreInfo} (hsize : dst.nvramSize = src.nvramSize)
    (hflags : dst.flags = src.flags) (hh : cfg.headerLength = h) (kept : Key → Prop) :
    Copied h src (placed h (D ++ (A ++ T))) kept (src.pFirstVar + logSize []) (prepared cfg src dst)
      [] [] [] := by
  have hroom := S.room
  have hclear : ∀ a, h ≤ a → a < dst.nvramSize → (prepared cfg src dst).mem a = flashEmptyByte := by
    intro a h1 h2
    have hout : 0 + (peek src.mem 0 cfg.headerLength).length ≤ a := by
      rw [peek_length]
      omega
    change poke (poke dst.mem 0 (List.replicate dst.nvramSize flashEmptyByte)) 0
      (peek src.mem 0 cfg.headerLength) a = _
    rw [poke_of_out (Or.inr hout)]
    exact (holds_poke dst.mem 0 _).replicate_at (Nat.zero_le _) (by omega)
  have hstore : Store h (prepared cfg src dst) [] [] [] := by
    refine store_empty hh hh rfl ?_ fun a h1 h2 => hclear a h1 ?_
    · change _ ≤ dst.nvramSize
      unfold sizeofGuid at *
      omega
    · unfold sizeofGuid at *
      omega
  refine { store := hstore, head := rfl, size := hsize, flags := hflags, reads := ?_, used := by simp,
           nodup := by simp, room := ?_, slots := rfl, slot := by simp, inUse := by simp,
           refs := by simp, clear := ?_ }
  · intro k v
    constructor
    · rintro ⟨p, hd, q, rf, ⟨-, n, hm, -⟩, -⟩
      exact absurd hm (by simp)
    · rintro ⟨p, hd, q, rf, ⟨hval, n, hm, -⟩, hlt, -⟩
      have := (place_bounds (S.mem_walked hm hval)).1
      rw [logSize_nil] at hlt
      omega
  · change cfg.headerLength ≤ _
    simp [hh]
  · intro a h1 h2
    have h1' : cfg.headerLength ≤ a := h1
    have h2' : a + sizeofGuid * 0 < dst.nvramSize := h2
    exact hclear a (by omega) (by omega)

/-- The iteration starts at the first record. -/
theorem Store.goesOn_start (S : Store h src D A T) :
    GoesOn { src with pLastReturned := src.pLastReturned } noName (src.pFirstVar + logSize []) A := by
  simpa using (S.returned src.pLastReturned).goesOn_first rfl

/-- A store whose variables are all collectable is copied. -/
theorem Store.copy (S : Store h src D A T) (U : Uniform cfg A) {dst : StoreInfo}
    (hsize : dst.nvramSize = src.nvramSize) (hflags : dst.flags = src.flags)
    (hh : cfg.headerLength = h) (hbuf : env.buffer = true)
    (htmp : env.tmpBuffer = true)
    (hcol : ∀ p hd q rf, VarAt (placed h (D ++ (A ++ T))) p hd q rf → Collectable src hd rf) :
    IsCopy h src (placed h (D ++ (A ++ T)))
      (copyVarStore cfg .mem src dst (fun _ _ => false) false env) := by
  rw [copyVarStore_mem hbuf htmp]
  have hfuel : A.length < src.pEndOfVars + 1 := S.logAt.fuel
  have hsteady : Filter.Steady (fun _ _ => false) src := fun _ _ => rfl
  -- no variable stops the loop
  obtain ⟨hst, -, -, -, B, Q, I, C⟩ := (copyLoop_reaches S U hsteady env.vars (src.pEndOfVars + 1) (j := 0)
    (show A = [] ++ A from rfl) hfuel S.goesOn_start
    (S.copied_start hsize hflags hh (Kept cfg (fun _ _ => false) false src))).resolve_right
      fun ⟨_, _, hd, _, _, q, rf, _, _, _, _, _, _, _, _, _, _, _, hv, _, hno, _⟩ =>
        hno ⟨(hcol _ hd q rf hv).1, fun _ => (hcol _ hd q rf hv).2⟩
  set r := copyLoop cfg .mem (fun _ _ => false) false env.vars (src.pEndOfVars + 1) 0 src
    (prepared cfg src dst) noName with hr
  have hreads : ∀ k v, Reads r.target (placed h ([] ++ (B ++ []))) k v
      ↔ Reads src (placed h (D ++ (A ++ T))) k v := by
    intro k v
    rw [C.reads]
    constructor
    · rintro ⟨p, hd, q, rf, hv, -, hk, -, he⟩
      exact ⟨p, hd, q, rf, hv, hk, he⟩
    · rintro ⟨p, hd, q, rf, hv, hk, he⟩
      refine ⟨p, hd, q, rf, hv, ?_, hk, rfl, he⟩
      obtain ⟨hval, n, hm, -⟩ := hv
      have h1 := (place_bounds (S.mem_walked hm hval)).2
      have h2 := S.end_
      have h3 := (Rec.header hd n).bytes_pos
      unfold logSize at h2
      omega
  refine ⟨hst, ⟨B, [], C.store, hreads⟩, fun k => ?_, ?_, ?_⟩
  · by_cases hk : ∃ v, Reads src (placed h (D ++ (A ++ T))) k v
    · obtain ⟨v, hv⟩ := hk
      rw [S.observe_some hv, C.store.observe_some ((hreads k v).mpr hv)]
    · rw [S.observe_none fun v hv => hk ⟨v, hv⟩,
        C.store.observe_none fun v hv => hk ⟨v, (hreads k v).mp hv⟩]
  · have := sum_le_liveSize C.nodup fun x hx => ⟨(C.used x hx).1, _, (C.used x hx).2⟩
    have := C.room
    omega
  · rw [C.slots]
    refine length_le_of_nodup C.inUse fun i hi => ?_
    obtain ⟨p, hd, q, rf, ⟨hval, n, hm, -⟩, -, href⟩ := C.refs i hi
    exact S.guids p hd n i hm hval href

end

end BayTrail.Nvram
