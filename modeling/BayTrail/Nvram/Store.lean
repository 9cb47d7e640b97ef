import BayTrail.Nvram.Walk

/-!
# The NVRAM store: the well-formed store and the map it stands for

`Store h s D A T` is the invariant of a store. Its log starts at `h`, the end of the
header, and consists of three parts: the records `D` before `pFirstVar`, the
records `A` that the driver walks, and the records `T` from `pEndOfVars` on, which
only a failed write leaves there. Everything the driver finds in a log that keeps
the invariant is a function of the variables in it: `Reads s P k v` says that the
variable `k` is stored with the value `v`, and `readBack` returns just that.
-/

namespace BayTrail.Nvram

open BayTrail.Lib

/-- What names a variable. -/
abbrev Key := Name × Guid

/-- What a store keeps of a variable. -/
structure Value where
  attributes : UInt32
  data : Bytes
  count : Option UInt64
  keyHash : Option Bytes
  deriving DecidableEq

/-- The monotonic count or time stamp in a record. -/
def Rec.count : Rec → Option UInt64
  | header h _ => h.auth.map HdrAuth.mc
  | data d _ => d.auth
  | broken _ _ => none

/-- A live header `hd` at `p` whose data is in the record `rf` at `q`. -/
def VarAt (P : List (Nat × Rec)) (p : Nat) (hd : Header) (q : Nat) (rf : Rec) : Prop :=
  hd.valid = true ∧ ∃ n, (p, Rec.header hd n) ∈ P ∧ Chain P p (.header hd n) q rf

/-- The header is that of the variable `k`. -/
def Header.Named (hd : Header) (s : StoreInfo) (k : Key) : Prop :=
  hd.name = k.1 ∧ hd.ref.resolve s = k.2.bytes

def Header.value (hd : Header) (s : StoreInfo) (rf : Rec) : Value where
  attributes := hd.attributes s.flags.nonVolatile
  data := rf.payload
  count := rf.count
  keyHash := hd.auth.map HdrAuth.keyHash

/-- The variable `k` is stored with the value `v`. -/
def Reads (s : StoreInfo) (P : List (Nat × Rec)) (k : Key) (v : Value) : Prop :=
  ∃ p hd q rf, VarAt P p hd q rf ∧ hd.Named s k ∧ v = hd.value s rf

theorem GuidRef.resolve_congr {s s' : StoreInfo} (hm : s'.mem = s.mem)
    (hsize : s'.nvramSize = s.nvramSize) (g : GuidRef) : g.resolve s' = g.resolve s := by
  cases g with
  | index i => simp only [GuidRef.resolve, StoreInfo.guidSlot, hm, hsize]
  | full g => rfl

/-- What the variables are depends on the flash alone. -/
theorem reads_congr {s s' : StoreInfo} {P : List (Nat × Rec)} (hm : s'.mem = s.mem)
    (hsize : s'.nvramSize = s.nvramSize) (hflags : s'.flags = s.flags) {k : Key} {v : Value} :
    Reads s' P k v ↔ Reads s P k v := by
  unfold Reads Header.Named Header.value
  simp only [GuidRef.resolve_congr hm hsize, hflags]

structure Store (h : Nat) (s : StoreInfo) (D A T : List Rec) : Prop where
  holds : Holds s.mem h (layout Rec.bytes (D ++ (A ++ T)))
  first : s.pFirstVar = h + logSize D
  end_ : s.pEndOfVars = s.pFirstVar + logSize A
  sizes : ∀ r ∈ D ++ (A ++ T), sizeofNvar < r.size ∧ r.size < flashEmptySize
  links : ∀ p r, (p, r) ∈ placed h (D ++ (A ++ T)) → r.next = flashEmptyNext ∨
    (0 < r.next ∧ r.next < flashEmptyNext ∧ (p < s.pEndOfVars → p + r.next < s.pEndOfVars)
      ∧ ∃ x, (p + r.next, x) ∈ placed h (D ++ (A ++ T)) ∧ x.isData = true)
  /-- no live header outside of `A` -/
  dead : ∀ r ∈ D ++ T, r.live = none
  dead_head : D ≠ [] → headSigned D = true ∧ A ≠ [] ∧ headSigned A = true
  /-- headers stay behind `pEndOfVars` in a store without variables only -/
  tail : (∀ hd n, Rec.header hd n ∉ T) ∨ ∀ r ∈ A, r.live = none
  /-- behind an unsigned first record nothing is found -/
  head : headSigned A = true ∨ ∀ r ∈ A, r.live = none
  walkedGuids : ∀ hd n i, Rec.header hd n ∈ A → hd.ref = .index i → i.toNat < s.nextGuid
  unique : ∀ p hd n p' hd' n', (p, Rec.header hd n) ∈ placed h (D ++ (A ++ T)) →
    hd.valid = true → (p', Rec.header hd' n') ∈ placed h (D ++ (A ++ T)) → hd'.valid = true →
    hd.name = hd'.name → hd.ref.resolve s = hd'.ref.resolve s → p = p'
  chains : ∀ p hd n, (p, Rec.header hd n) ∈ placed h (D ++ (A ++ T)) → hd.valid = true →
    ∃ q rf, Chain (placed h (D ++ (A ++ T))) p (.header hd n) q rf ∧ q < s.pEndOfVars
      ∧ rf.count.isSome = hd.auth.isSome
  ends : ∀ p hd q rf p' hd' rf', VarAt (placed h (D ++ (A ++ T))) p hd q rf →
    VarAt (placed h (D ++ (A ++ T))) p' hd' q rf' → p = p'
  room : h + logSize (D ++ (A ++ T)) + sizeofNvar + sizeofGuid * max s.nextGuid 1 ≤ s.nvramSize
  /-- the walk over the whole area stops behind the log -/
  erased : ∀ a, h + logSize (D ++ (A ++ T)) ≤ a → a < h + logSize (D ++ (A ++ T)) + sizeofNvar →
    s.mem a = flashEmptyByte
  guid256 : s.nextGuid ≤ 256
  /-- each record was added with a slot of the GUID table to spare -/
  spare : ∀ p r, (p, r) ∈ placed h (D ++ (A ++ T)) →
    p + r.size + sizeofGuid + sizeofNvar ≤ s.nvramSize
      ∧ ∀ p' hd n i, (p', Rec.header hd n) ∈ placed h (D ++ (A ++ T)) → hd.valid = true →
        hd.ref = .index i → p' < p →
        p + r.size + sizeofGuid * (i.toNat + 2) + sizeofNvar ≤ s.nvramSize

section

variable {h : Nat} {s : StoreInfo} {D A T : List Rec}

/-- A store without records. -/
theorem store_empty (hfirst : s.pFirstVar = h) (hend : s.pEndOfVars = h) (hguid : s.nextGuid = 0)
    (hroom : h + sizeofNvar + sizeofGuid ≤ s.nvramSize)
    (herased : ∀ a, h ≤ a → a < h + sizeofNvar → s.mem a = flashEmptyByte) :
    Store h s [] [] [] := by
  constructor
  case room =>
    simp only [List.append_nil, logSize_nil, hguid]
    unfold sizeofGuid at *
    omega
  case erased => simpa using herased
  all_goals simp [hfirst, hend, hguid, headSigned, VarAt]

theorem bytes_pos_all (xs : List Rec) : ∀ x ∈ xs, 0 < (Rec.bytes x).length := fun x _ => x.bytes_pos

variable {p q : Nat} {rf : Rec} {hd : Header} {k : Key} {v : Value}

/-- One record per address. -/
theorem placed_unique {xs : List Rec} {x y : Rec} (hx : (q, x) ∈ placed p xs)
    (hy : (q, y) ∈ placed p xs) : x = y :=
  place_unique (bytes_pos_all xs) hx hy

section

variable (S : Store h s D A T)
include S

variable {r : Rec}

/-- The three parts of the log, by address. -/
theorem Store.mem_parts {p : Nat} :
    (p, r) ∈ placed h (D ++ (A ++ T)) ↔ (p, r) ∈ placed h D ∨ (p, r) ∈ placed s.pFirstVar A
      ∨ (p, r) ∈ placed s.pEndOfVars T := by
  rw [placed, place_append, place_append, List.mem_append, List.mem_append, S.end_, S.first]

theorem Store.mem_log {p : Nat}
    (hm : (p, r) ∈ placed s.pFirstVar A) : (p, r) ∈ placed h (D ++ (A ++ T)) :=
  S.mem_parts.mpr (Or.inr (Or.inl hm))

/-- A live header is in the part that the driver walks. -/
theorem Store.mem_walked {p n : Nat} {hd : Header}
    (hm : (p, Rec.header hd n) ∈ placed h (D ++ (A ++ T))) (hv : hd.valid = true) :
    (p, Rec.header hd n) ∈ placed s.pFirstVar A := by
  have hlive : (Rec.header hd n).live = some hd := by simp [Rec.live, hv]
  rcases S.mem_parts.mp hm with hD | hA | hT
  · have := S.dead _ (List.mem_append_left _ (mem_of_mem_place hD))
    rw [hlive] at this
    exact absurd this (by simp)
  · exact hA
  · have := S.dead _ (List.mem_append_right _ (mem_of_mem_place hT))
    rw [hlive] at this
    exact absurd this (by simp)

theorem Store.guids (p : Nat) (hd : Header) (n : Nat) (i : UInt8)
    (hm : (p, Rec.header hd n) ∈ placed h (D ++ (A ++ T))) (hv : hd.valid = true)
    (hi : hd.ref = .index i) : i.toNat < s.nextGuid :=
  S.walkedGuids hd n i (mem_of_mem_place (S.mem_walked hm hv)) hi

/-- The records between `pFirstVar` and `pEndOfVars` are the walked ones. -/
theorem Store.mem_between {p : Nat}
    (hm : (p, r) ∈ placed h (D ++ (A ++ T))) (h1 : s.pFirstVar ≤ p) (h2 : p < s.pEndOfVars) :
    (p, r) ∈ placed s.pFirstVar A := by
  have hpos := r.bytes_pos
  rcases S.mem_parts.mp hm with hD | hA | hT
  · have hb := (place_bounds hD).2
    have := S.first
    unfold logSize at this
    omega
  · exact hA
  · have := (place_bounds hT).1
    omega

theorem Store.logAt : LogAt s s.pFirstVar A := by
  have hh := S.holds
  rw [layout_append, layout_append, holds_append, holds_append] at hh
  refine ⟨?_, S.end_.symm.le, Or.inl S.end_, ?_⟩
  · rw [S.first]
    exact hh.2.1
  · rintro ⟨p, r⟩ hm
    have hmem := S.mem_log hm
    obtain ⟨hs1, hs2⟩ := S.sizes r (mem_of_mem_place hmem)
    have hb := (place_bounds hm).2
    have hend := S.end_
    have hlen : (Rec.bytes r).length = r.size := Rec.bytes_length r
    unfold logSize at hend
    refine ⟨hs1, hs2, show p + r.size ≤ s.pEndOfVars by omega, ?_⟩
    rcases S.links p r hmem with hn | ⟨hpos, hlt, hin, x, hx, -⟩
    · exact Or.inl hn
    · have hsep := place_sep hmem hx (by omega)
      have hpe : p < s.pEndOfVars := by omega
      exact Or.inr ⟨show r.size ≤ r.next by omega, (hin hpe).le, hlt⟩

/-- A chain that starts in the walked part and ends before `pEndOfVars` stays in it. -/
theorem Store.chain_walked {p q : Nat} {rf : Rec}
    (hc : Chain (placed h (D ++ (A ++ T))) p r q rf) (h1 : s.pFirstVar ≤ p)
    (h2 : q < s.pEndOfVars) : Chain (placed s.pFirstVar A) p r q rf := by
  induction hc with
  | last hn => exact Chain.last hn
  | link hn hm hd ht ih =>
    have hle := ht.le
    exact Chain.link hn (S.mem_between hm (by omega) (by omega)) hd (ih (by omega) h2)

end

theorem chain_unique {P : List (Nat × Rec)}
    (hP : ∀ a x y, (a, x) ∈ P → (a, y) ∈ P → x = y) {q' : Nat} {r rf' : Rec}
    (h1 : Chain P p r q rf) (h2 : Chain P p r q' rf') : q = q' ∧ rf = rf' := by
  induction h1 with
  | last hn =>
    cases h2 with
    | last _ => exact ⟨rfl, rfl⟩
    | link hn' _ _ _ => exact absurd hn hn'
  | link hn hm hd ht ih =>
    cases h2 with
    | last hn' => exact absurd hn' hn
    | link _ hm' _ ht' =>
      obtain rfl := hP _ _ _ hm hm'
      exact ih ht'

/-- The final record of a variable. -/
theorem Store.varAt_final (S : Store h s D A T)
    (hv : VarAt (placed h (D ++ (A ++ T))) p hd q rf) : q < s.pEndOfVars := by
  obtain ⟨hval, n, hm, hc⟩ := hv
  obtain ⟨q', rf', hc', hq', -⟩ := S.chains p hd n hm hval
  obtain ⟨rfl, -⟩ := chain_unique (fun _ _ _ => placed_unique) hc hc'
  exact hq'

/-- There is one value for a key. -/
theorem Store.reads_unique (S : Store h s D A T) {v' : Value}
    (h1 : Reads s (placed h (D ++ (A ++ T))) k v) (h2 : Reads s (placed h (D ++ (A ++ T))) k v') :
    v = v' := by
  obtain ⟨p, hd, q, rf, ⟨hval, n, hm, hc⟩, ⟨hname, hres⟩, rfl⟩ := h1
  obtain ⟨p', hd', q', rf', ⟨hval', n', hm', hc'⟩, ⟨hname', hres'⟩, rfl⟩ := h2
  obtain rfl := S.unique p hd n p' hd' n' hm hval hm' hval' (hname.trans hname'.symm)
    (hres.trans hres'.symm)
  obtain ⟨rfl, rfl⟩ := Rec.header.inj (placed_unique hm hm')
  obtain ⟨rfl, rfl⟩ := chain_unique (fun _ _ _ => placed_unique) hc hc'
  rfl

/-! ## Reading -/

/-- `NvFindVariable` finds the header of a stored variable. -/
theorem Store.find (S : Store h s D A T)
    (hv : VarAt (placed h (D ++ (A ++ T))) p hd q rf) (hk : hd.Named s k) :
    nvFindVariable s k.1 k.2 = some (p, nameSize hd.ascii hd.name) := by
  obtain ⟨hval, n, hm, hc⟩ := hv
  have hA := S.mem_walked hm hval
  have hhead : headSigned A = true := by
    rcases S.head with hh | hh
    · exact hh
    · have := hh _ (mem_of_mem_place hA)
      simp [Rec.live, hval] at this
  rw [nvFindVariable_eq S.logAt hhead]
  have hself : (Rec.header hd n).matchSize s k.1 k.2 = some (nameSize hd.ascii hd.name) := by
    rw [Rec.matchSize_header hval, if_pos ⟨hk.1.symm, hk.2⟩]
  cases hf : (placed s.pFirstVar A).findSome? fun x =>
      (x.2.matchSize s k.1 k.2).map (Prod.mk x.1) with
  | none =>
    have := List.findSome?_eq_none_iff.mp hf _ hA
    simp [hself] at this
  | some b =>
    obtain ⟨⟨p', r'⟩, hm', hb⟩ := List.exists_of_findSome?_eq_some hf
    obtain ⟨sz, hsz, rfl⟩ := Option.map_eq_some_iff.mp hb
    obtain ⟨hd', hlive, hmatch⟩ := Option.bind_eq_some_iff.mp hsz
    obtain ⟨hval', n', rfl⟩ := Rec.eq_header_of_live hlive
    split at hmatch
    next hc' =>
      obtain rfl := S.unique p hd n p' hd' n' hm hval (S.mem_log hm') hval'
        (hk.1.trans hc'.1) (hk.2.trans hc'.2.symm)
      obtain ⟨rfl, -⟩ := Rec.header.inj (placed_unique hA hm')
      rw [← Option.some.inj hmatch]
    next => exact absurd hmatch (by simp)

theorem Store.find_none (S : Store h s D A T)
    (hk : ∀ v, ¬ Reads s (placed h (D ++ (A ++ T))) k v) : nvFindVariable s k.1 k.2 = none := by
  cases hh : headSigned A with
  | false =>
    unfold nvFindVariable
    rw [nvGetFirstValid_eq S.logAt, hh]
    rfl
  | true =>
    rw [nvFindVariable_eq S.logAt hh, List.findSome?_eq_none_iff]
    rintro ⟨p, r⟩ hm
    rw [Option.map_eq_none_iff]
    unfold Rec.matchSize
    rw [Option.bind_eq_none_iff]
    intro hd hlive
    obtain ⟨hval, n, rfl⟩ := Rec.eq_header_of_live hlive
    refine if_neg fun hc => ?_
    obtain ⟨q, rf, hch, -⟩ := S.chains p hd n (S.mem_log hm) hval
    exact hk _ ⟨p, hd, q, rf, ⟨hval, n, S.mem_log hm, hch⟩, ⟨hc.1.symm, hc.2⟩, rfl⟩

/-- What the driver reads of a stored variable: the record of its data, found by
`NvGetDataNvar`, and the data in it. -/
theorem Store.data_at (S : Store h s D A T)
    (hv : VarAt (placed h (D ++ (A ++ T))) p hd q rf) :
    nvGetDataNvar s p = some q ∧ (q, rf) ∈ placed s.pFirstVar A
      ∧ nvGetData s p (nameSize hd.ascii hd.name) = some (q + rf.dataOffset, rf.payload.length)
      ∧ Holds s.mem (q + rf.dataOffset) rf.payload := by
  have hq := S.varAt_final hv
  obtain ⟨hval, n, hm, hc⟩ := hv
  have hA := S.mem_walked hm hval
  have hcA := S.chain_walked hc (place_bounds hA).1 hq
  have hdn := nvGetDataNvar_eq S.logAt hcA hA rfl
  have hqm := hcA.mem hA
  have hsig : rf.signed = true := by
    rcases hc.data_or with ⟨-, rfl⟩ | hd'
    · rfl
    · cases rf <;> simp_all [Rec.isData, Rec.signed]
  have hfit := S.logAt.fits _ hqm
  obtain ⟨h1, h2⟩ := nvGetData_eq (n := nameSize hd.ascii hd.name) hdn
    (S.logAt.mem_at hqm) (lt_trans hfit.size_lt (by decide)) hsig (by
      intro hd' n' he
      rcases hc.data_or with ⟨-, h'⟩ | h'
      · obtain ⟨rfl, -⟩ := Rec.header.inj (h'.symm.trans he)
        rfl
      · rw [he] at h'
        exact absurd h' (by simp [Rec.isData]))
  exact ⟨hdn, hqm, h1, h2⟩

/-- What a caller reads back through `NvGetVariable` with a large enough buffer. -/
def readBack (s : StoreInfo) (k : Key) : Option (UInt32 × Bytes) :=
  let r := nvGetVariable s k.1 k.2 maxNvramVariableSize
  if r.status = .success then some (r.attributes, r.data) else none

theorem Store.readBack_some (S : Store h s D A T)
    (hr : Reads s (placed h (D ++ (A ++ T))) k v) :
    readBack s k = some (v.attributes, v.data) := by
  obtain ⟨p, hd, q, rf, hv, hk, rfl⟩ := hr
  obtain ⟨hdn, hqm, hget, hholds⟩ := S.data_at hv
  have hfind := S.find hv hk
  obtain ⟨hval, n, hm, hc⟩ := hv
  have hA := S.mem_walked hm hval
  have hat := S.logAt.mem_at hA
  have hfit := S.logAt.fits _ hA
  have hvar : nvIsVariable s p = true := nvIsVariable_eq hat hfit
  have hattr := nvGetAttributesFromNvar_eq hat (lt_trans hfit.size_lt (by decide))
  have hlen : rf.payload.length ≤ maxNvramVariableSize := by
    have h1 := (S.logAt.fits _ hqm).size_lt
    have h2 : rf.payload.length ≤ rf.size := by
      cases rf with
      | header hd' n' =>
        simp only [Rec.payload, Rec.size, Rec.raw, Header.raw, Raw.size, Header.contents,
          List.length_append]
        omega
      | data d n' =>
        simp only [Rec.payload, Rec.size, Rec.raw, DataRec.raw, Raw.size, List.length_append]
        omega
      | broken f b => simp [Rec.payload]
    unfold flashEmptySize at h1
    unfold maxNvramVariableSize
    simp only at h1
    omega
  have hroom : ¬ maxNvramVariableSize < rf.payload.length := by omega
  unfold readBack nvGetVariable nvGetVariableFromNvar
  rw [hfind]
  simp only [hvar, hget, hattr, hroom, Bool.not_true, Bool.false_eq_true, if_false, if_true]
  rw [hholds.peek_eq rfl]
  rfl

theorem Store.readBack_none (S : Store h s D A T)
    (hk : ∀ v, ¬ Reads s (placed h (D ++ (A ++ T))) k v) : readBack s k = none := by
  unfold readBack nvGetVariable
  rw [S.find_none hk]
  rfl

end

end BayTrail.Nvram
