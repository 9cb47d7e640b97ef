import BayTrail.Nvram.Append
import BayTrail.Nvram.Store

/-!
# The NVRAM store: what a mutation keeps

The ways in which an operation changes the log: a record is added, the last
record of a chain is linked to a new one, the validity bit of a header is
cleared, or a record that no chain reaches is left behind `pEndOfVars`. Each of
them keeps the invariant of the store, and each lemma says what the variables
are afterwards.
-/

namespace BayTrail.Nvram

open BayTrail.Lib

section

variable {h : Nat} {s s' : StoreInfo} {D A : List Rec} {r : Rec}

theorem placed_snoc (p : Nat) (xs : List Rec) (r : Rec) :
    placed p (xs ++ [r]) = placed p xs ++ [(p + logSize xs, r)] := by
  rw [placed, place_append]
  rfl

theorem logSize_snoc (xs : List Rec) (r : Rec) : logSize (xs ++ [r]) = logSize xs + r.size := by
  rw [logSize_append, logSize_cons, logSize_nil, Nat.add_zero]

theorem Store.log_end (S : Store h s D A []) : h + logSize (D ++ (A ++ [])) = s.pEndOfVars := by
  rw [S.end_, S.first, List.append_nil, logSize_append, Nat.add_assoc]

/-- The GUIDs that are in use stand when a record is added. -/
theorem Appended.resolve (H : Appended s s' r) {g : GuidRef}
    (hg : ∀ i, g = .index i → i.toNat < s.nextGuid) : g.resolve s' = g.resolve s := by
  cases g with
  | full g => rfl
  | index i =>
    have hi := hg i rfl
    have hroom := H.room
    unfold GuidRef.resolve StoreInfo.guidSlot
    rw [H.size]
    refine peek_congr fun a h1 h2 => H.frame a (Or.inr ?_) (Or.inr (Or.inl ?_))
    · unfold sizeofGuid sizeofNvar at *
      omega
    · unfold StoreInfo.guidSlot
      unfold sizeofGuid sizeofNvar at *
      omega

/-- The walk still stops behind the new record. -/
theorem Appended.erased (H : Appended s s' r) (hf : Clear s r.size) {a : Nat}
    (h1 : s'.pEndOfVars ≤ a) (h2 : a < s'.pEndOfVars + sizeofNvar) :
    s'.mem a = flashEmptyByte := by
  rw [H.end_] at h1 h2
  have hroom := H.room
  rw [H.frame a (Or.inr h1) (Or.inl ?_)]
  · exact hf a (by omega) h2
  · unfold StoreInfo.guidSlot
    unfold sizeofGuid sizeofNvar at *
    omega

/-- What a record must be to be added: of a size the walk can step by, the end of its
chain, and, when it is a header, found behind a signed first record and not yet
there. -/
structure Addable (s s' : StoreInfo) (P : List (Nat × Rec)) (A : List Rec) (r : Rec) : Prop where
  size_gt : sizeofNvar < r.size
  size_lt : r.size < flashEmptySize
  next : r.next = flashEmptyNext
  head : r.live.isSome = true → headSigned A = true
  guid : ∀ hd n i, r = .header hd n → hd.ref = .index i → i.toNat < s'.nextGuid
  fresh : ∀ hd, r.live = some hd → ∀ p hd' n, (p, Rec.header hd' n) ∈ P → hd'.valid = true →
    hd'.name = hd.name → hd'.ref.resolve s ≠ hd.ref.resolve s'
  count : ∀ hd, r.live = some hd → r.count.isSome = hd.auth.isSome

theorem mem_snoc {P : List (Nat × Rec)} {e p : Nat} {x : Rec} :
    (p, x) ∈ P ++ [(e, r)] ↔ (p, x) ∈ P ∨ (p = e ∧ x = r) := by
  simp [List.mem_append]

theorem Store.mem_lt_end (S : Store h s D A []) {p : Nat} {x : Rec}
    (hm : (p, x) ∈ placed h (D ++ (A ++ []))) : p + x.size ≤ s.pEndOfVars := by
  have h1 := (place_bounds hm).2
  have h2 := S.log_end
  unfold logSize at h2
  rw [Rec.bytes_length] at h1
  omega

theorem Rec.size_pos (r : Rec) : 0 < r.size := Raw.size_pos _

/-- The variables after a record has been added. -/
theorem Store.varAt_append (S : Store h s D A []) {e : Nat} (he : e = s.pEndOfVars)
    (hnext : r.next = flashEmptyNext) {p q : Nat} {hd : Header} {rf : Rec} :
    VarAt (placed h (D ++ (A ++ [])) ++ [(e, r)]) p hd q rf ↔
      VarAt (placed h (D ++ (A ++ []))) p hd q rf ∨ (r.live = some hd ∧ p = e ∧ q = e ∧ rf = r) := by
  constructor
  · rintro ⟨hv, n, hm, hc⟩
    rcases mem_snoc.mp hm with hm | ⟨rfl, rfl⟩
    · left
      obtain ⟨q', rf', hc', -, -⟩ := S.chains p hd n hm hv
      have hc'' : Chain (placed h (D ++ (A ++ [])) ++ [(e, r)]) p (.header hd n) q' rf' :=
        Chain.mono (fun a x hx _ => List.mem_append_left _ hx) hc'
      have huniq : ∀ a x y, (a, x) ∈ placed h (D ++ (A ++ [])) ++ [(e, r)] →
          (a, y) ∈ placed h (D ++ (A ++ [])) ++ [(e, r)] → x = y := by
        intro a x y hx hy
        have hxp := x.size_pos
        have hyp := y.size_pos
        rcases mem_snoc.mp hx with hx' | ⟨hx1, hx2⟩ <;>
          rcases mem_snoc.mp hy with hy' | ⟨hy1, hy2⟩
        · exact placed_unique hx' hy'
        · have := S.mem_lt_end hx'
          omega
        · have := S.mem_lt_end hy'
          omega
        · rw [hx2, hy2]
      obtain ⟨rfl, rfl⟩ := chain_unique huniq hc hc''
      exact ⟨hv, n, hm, hc'⟩
    · right
      have hq := hc.final
      cases hc with
      | last _ => exact ⟨by simp [Rec.live, hv], rfl, rfl, rfl⟩
      | link hn _ _ _ => exact absurd hnext hn
  · rintro (⟨hv, n, hm, hc⟩ | ⟨hl, rfl, rfl, rfl⟩)
    · exact ⟨hv, n, List.mem_append_left _ hm,
        hc.mono fun a x hx _ => List.mem_append_left _ hx⟩
    · obtain ⟨hv, n, rfl⟩ := Rec.eq_header_of_live hl
      exact ⟨hv, n, mem_snoc.mpr (Or.inr ⟨rfl, rfl⟩), Chain.last hnext⟩

theorem Store.placed_append (S : Store h s D A []) (r : Rec) :
    placed h (D ++ (A ++ [r] ++ [])) = placed h (D ++ (A ++ [])) ++ [(s.pEndOfVars, r)] := by
  have hE := S.log_end
  rw [List.append_nil] at hE
  rw [List.append_nil, List.append_nil, ← List.append_assoc, placed_snoc, hE]

/-- A record is added at the end of the log. -/
theorem Store.append (S : Store h s D A []) (hf : Clear s r.size) (H : Appended s s' r)
    (R : Addable s s' (placed h (D ++ (A ++ []))) A r) : Store h s' D (A ++ [r]) [] := by
  have hE := S.log_end
  have hP := S.placed_append r
  have hE' : h + logSize (D ++ (A ++ [r] ++ [])) = s'.pEndOfVars := by
    rw [List.append_nil, ← List.append_assoc, logSize_snoc, H.end_]
    rw [List.append_nil] at hE
    omega
  have hres : ∀ p hd n, (p, Rec.header hd n) ∈ placed h (D ++ (A ++ [])) → hd.valid = true →
      hd.ref.resolve s' = hd.ref.resolve s := fun p hd n hm hv =>
    H.resolve fun i hi => S.guids p hd n i hm hv hi
  have hg : s.nextGuid ≤ s'.nextGuid := by have := H.guid; omega
  have hroom := H.room
  have hend := H.end_
  constructor
  case holds =>
    rw [List.append_nil, ← List.append_assoc, layout_append, holds_append]
    have hold := S.holds
    rw [List.append_nil] at hold hE
    refine ⟨hold.congr fun a h1 h2 => H.frame a (Or.inl ?_) (Or.inl ?_), ?_⟩
    · unfold logSize at hE
      omega
    · unfold logSize at hE
      unfold StoreInfo.guidSlot
      unfold sizeofGuid sizeofNvar at *
      omega
    · unfold logSize at hE
      rw [hE]
      simpa using H.holds
  case first => rw [H.first, S.first]
  case end_ =>
    rw [H.end_, H.first, S.end_, logSize_snoc]
    omega
  case sizes =>
    intro x hx
    rw [List.append_nil, ← List.append_assoc, List.mem_append, List.mem_singleton] at hx
    rcases hx with hx | rfl
    · exact S.sizes x (by rwa [List.append_nil])
    · exact ⟨R.size_gt, R.size_lt⟩
  case links =>
    intro p x hx
    rw [hP] at hx ⊢
    rcases mem_snoc.mp hx with hx | ⟨rfl, rfl⟩
    · rcases S.links p x hx with hn | ⟨h0, hlt, hin, y, hy, hd⟩
      · exact Or.inl hn
      · have hpe := S.mem_lt_end hx
        have hpos := x.size_pos
        exact Or.inr ⟨h0, hlt, fun _ => by have := hin (by omega); omega, y,
          List.mem_append_left _ hy, hd⟩
    · exact Or.inl R.next
  case dead => simpa using S.dead
  case dead_head =>
    intro hD
    obtain ⟨h1, h2, h3⟩ := S.dead_head hD
    exact ⟨h1, by simp, by rw [headSigned_append h2]; exact h3⟩
  case tail => exact Or.inl (by simp)
  case head =>
    cases hl : r.live with
    | none =>
      by_cases hA : A = []
      · right
        subst hA
        simpa using hl
      · rw [headSigned_append hA]
        refine S.head.imp_right fun hh x hx => ?_
        rcases List.mem_append.mp hx with hx | hx
        · exact hh x hx
        · rw [List.mem_singleton.mp hx]
          exact hl
    | some hd =>
      left
      have hA := R.head (by rw [hl]; rfl)
      cases A with
      | nil =>
        obtain ⟨-, n, rfl⟩ := Rec.eq_header_of_live hl
        rfl
      | cons x xs => exact hA
  case walkedGuids =>
    intro hd n i hm hi
    rcases List.mem_append.mp hm with hm | hm
    · exact lt_of_lt_of_le (S.walkedGuids hd n i hm hi) hg
    · exact R.guid hd n i (List.mem_singleton.mp hm).symm hi
  case unique =>
    intro p hd n p' hd' n' hm hv hm' hv' hname hr
    rw [hP] at hm hm'
    rcases mem_snoc.mp hm with hm | ⟨rfl, he⟩ <;> rcases mem_snoc.mp hm' with hm' | ⟨rfl, he'⟩
    · rw [hres p hd n hm hv, hres p' hd' n' hm' hv'] at hr
      exact S.unique p hd n p' hd' n' hm hv hm' hv' hname hr
    · rw [hres p hd n hm hv] at hr
      exact absurd hr (R.fresh hd' (by rw [← he']; simp [Rec.live, hv']) p hd n hm hv hname)
    · rw [hres p' hd' n' hm' hv'] at hr
      exact absurd hr.symm
        (R.fresh hd (by rw [← he]; simp [Rec.live, hv]) p' hd' n' hm' hv' hname.symm)
    · rfl
  case chains =>
    intro p hd n hm hv
    rw [hP] at hm ⊢
    rcases mem_snoc.mp hm with hm | ⟨rfl, he⟩
    · obtain ⟨q, rf, hc, hq, hcount⟩ := S.chains p hd n hm hv
      exact ⟨q, rf, hc.mono fun a x hx _ => List.mem_append_left _ hx, by omega, hcount⟩
    · have hl : r.live = some hd := by rw [← he]; simp [Rec.live, hv]
      have hpos := R.size_gt
      refine ⟨s.pEndOfVars, r, ?_, by omega, R.count hd hl⟩
      rw [he]
      exact Chain.last R.next
  case ends =>
    intro p hd q rf p' hd' rf' hv hv'
    rw [hP] at hv hv'
    have hpos := r.size_pos
    rcases (S.varAt_append rfl R.next).mp hv with hw | ⟨-, hp, hq, -⟩ <;>
      rcases (S.varAt_append rfl R.next).mp hv' with hw' | ⟨-, hp', hq', -⟩
    · exact S.ends p hd q rf p' hd' rf' hw hw'
    · have := S.varAt_final hw
      omega
    · have := S.varAt_final hw'
      omega
    · rw [hp, hp']
  case room =>
    rw [hE', H.size]
    have := H.guid
    unfold sizeofGuid sizeofNvar at *
    omega
  case erased =>
    rw [hE']
    exact fun a h1 h2 => H.erased hf h1 h2
  case guid256 =>
    have := H.guid
    have := S.guid256
    omega
  case spare =>
    intro p x hx
    rw [hP] at hx
    have hpe : p ≤ s.pEndOfVars := by
      rcases mem_snoc.mp hx with hx | ⟨rfl, -⟩
      · have := S.mem_lt_end hx
        omega
      · exact le_rfl
    have hroom := H.room
    rw [H.size]
    constructor
    · rcases mem_snoc.mp hx with hx | ⟨rfl, rfl⟩
      · exact (S.spare p x hx).1
      · unfold sizeofGuid at *
        omega
    · intro p' hd n i hm hv hi hlt
      rw [hP] at hm
      rcases mem_snoc.mp hm with hold | ⟨rfl, -⟩
      · rcases mem_snoc.mp hx with hx | ⟨rfl, rfl⟩
        · exact (S.spare p x hx).2 p' hd n i hold hv hi hlt
        · have := S.guids p' hd n i hold hv hi
          unfold sizeofGuid at *
          omega
      · exact absurd hlt (by omega)

/-- Adding a record adds a variable when it is a live header, and none otherwise. -/
theorem Store.append_reads (S : Store h s D A []) (H : Appended s s' r)
    (R : Addable s s' (placed h (D ++ (A ++ []))) A r) {k : Key} {v : Value} :
    Reads s' (placed h (D ++ (A ++ [r] ++ []))) k v ↔
      Reads s (placed h (D ++ (A ++ []))) k v
        ∨ ∃ hd, r.live = some hd ∧ hd.Named s' k ∧ v = hd.value s' r := by
  have hP := S.placed_append r
  have hval : ∀ (hd : Header) (rf : Rec), hd.value s' rf = hd.value s rf := by
    intro hd rf
    unfold Header.value
    rw [H.flags]
  have hnamed : ∀ p hd n, (p, Rec.header hd n) ∈ placed h (D ++ (A ++ [])) → hd.valid = true →
      (hd.Named s' k ↔ hd.Named s k) := by
    intro p hd n hm hv
    unfold Header.Named
    rw [H.resolve fun i hi => S.guids p hd n i hm hv hi]
  unfold Reads
  rw [hP]
  constructor
  · rintro ⟨p, hd, q, rf, hv, hk, rfl⟩
    rcases (S.varAt_append rfl R.next).mp hv with hv' | ⟨hl, rfl, rfl, rfl⟩
    · obtain ⟨hvalid, n, hm, -⟩ := id hv'
      exact Or.inl ⟨p, hd, q, rf, hv', (hnamed p hd n hm hvalid).mp hk, hval hd rf⟩
    · exact Or.inr ⟨hd, hl, hk, rfl⟩
  · rintro (⟨p, hd, q, rf, hv, hk, rfl⟩ | ⟨hd, hl, hk, rfl⟩)
    · obtain ⟨hvalid, n, hm, -⟩ := id hv
      exact ⟨p, hd, q, rf, (S.varAt_append rfl R.next).mpr (Or.inl hv),
        (hnamed p hd n hm hvalid).mpr hk, (hval hd rf).symm⟩
    · exact ⟨s.pEndOfVars, hd, s.pEndOfVars, r,
        (S.varAt_append rfl R.next).mpr (Or.inr ⟨hl, rfl, rfl, rfl⟩), hk, rfl⟩

/-! ## Replacing a record -/

/-- The log `P'` is `P` with the record at `q` replaced by `x'`. -/
def Replaced (P P' : List (Nat × Rec)) (q : Nat) (x' : Rec) : Prop :=
  ∀ a y, (a, y) ∈ P' ↔ (a = q ∧ y = x') ∨ (a ≠ q ∧ (a, y) ∈ P)

/-- A record of the walked part that is replaced by one of its size in the flash. -/
structure Rewritten (h : Nat) (s : StoreInfo) (m' : Mem) (D A1 A2 : List Rec) (q : Nat)
    (x x' : Rec) : Prop where
  addr : q = s.pFirstVar + logSize A1
  size : x'.size = x.size
  signed : x'.signed = x.signed
  live : x'.live = none ∨ x'.live = x.live
  ref : ∀ hd n, x' = .header hd n → ∃ hd0 n0, x = .header hd0 n0 ∧ hd0.ref = hd.ref
  holds : Holds m' q x'.bytes
  frame : ∀ a, a < q ∨ q + x.size ≤ a → m' a = s.mem a

variable {m' : Mem} {A1 A2 : List Rec} {q : Nat} {x x' : Rec}

section

variable (S : Store h s D (A1 ++ x :: A2) []) (W : Rewritten h s m' D A1 A2 q x x')
include S W

theorem Rewritten.addr_layout : q = h + (layout Rec.bytes (D ++ A1)).length := by
  have h1 := W.addr
  have h2 := S.first
  rw [layout_append, List.length_append]
  unfold logSize at h1 h2
  omega

theorem Rewritten.mem_log : (q, x) ∈ placed h (D ++ (A1 ++ x :: A2 ++ [])) := by
  refine S.mem_log ?_
  rw [W.addr]
  exact mem_place_mid _ _ _ _

theorem Rewritten.replaced :
    Replaced (placed h (D ++ (A1 ++ x :: A2 ++ []))) (placed h (D ++ (A1 ++ x' :: A2 ++ []))) q
      x' := by
  intro a y
  have hq := W.addr_layout S
  rw [hq, List.append_nil, List.append_nil, ← List.append_assoc, ← List.append_assoc]
  refine mem_place_replace (bytes_pos_all _) x.bytes_pos ?_
  rw [Rec.bytes_length, Rec.bytes_length, W.size]

theorem Rewritten.resolve {g : GuidRef}
    (hg : ∀ i, g = .index i → i.toNat < s.nextGuid) :
    g.resolve { s with mem := m' } = g.resolve s := by
  cases g with
  | full g => rfl
  | index i =>
    have hi := hg i rfl
    have hroom := S.room
    have hend := S.log_end
    have hqe : q + x.size ≤ s.pEndOfVars := by
      have h1 := W.addr
      have h2 := S.end_
      rw [logSize_append, logSize_cons] at h2
      omega
    unfold GuidRef.resolve StoreInfo.guidSlot
    refine peek_congr fun a h1 h2 => W.frame a (Or.inr ?_)
    simp only at h1 h2
    unfold sizeofGuid sizeofNvar at *
    omega

/-- The live headers of the new log were live headers of the old one. -/
theorem Rewritten.header {p n : Nat} {hd : Header}
    (hm : (p, Rec.header hd n) ∈ placed h (D ++ (A1 ++ x' :: A2 ++ []))) (hv : hd.valid = true) :
    ∃ n', (p, Rec.header hd n') ∈ placed h (D ++ (A1 ++ x :: A2 ++ [])) := by
  rcases (W.replaced S p _).mp hm with ⟨rfl, he⟩ | ⟨-, hm⟩
  · have hl : x'.live = some hd := by rw [← he]; simp [Rec.live, hv]
    rcases W.live with hnone | hsame
    · rw [hnone] at hl
      exact absurd hl (by simp)
    · obtain ⟨-, n', rfl⟩ := Rec.eq_header_of_live (hsame ▸ hl)
      exact ⟨n', W.mem_log S⟩
  · exact ⟨n, hm⟩

/-- Replacing a record keeps the invariant if the chains are kept. -/
theorem Store.replace
    (hlinks : ∀ p r, (p, r) ∈ placed h (D ++ (A1 ++ x' :: A2 ++ [])) → r.next = flashEmptyNext ∨
      (0 < r.next ∧ r.next < flashEmptyNext ∧ (p < s.pEndOfVars → p + r.next < s.pEndOfVars)
        ∧ ∃ y, (p + r.next, y) ∈ placed h (D ++ (A1 ++ x' :: A2 ++ [])) ∧ y.isData = true))
    (hchains : ∀ p hd n, (p, Rec.header hd n) ∈ placed h (D ++ (A1 ++ x' :: A2 ++ [])) →
      hd.valid = true → ∃ q rf, Chain (placed h (D ++ (A1 ++ x' :: A2 ++ []))) p (.header hd n) q rf
        ∧ q < s.pEndOfVars ∧ rf.count.isSome = hd.auth.isSome)
    (hends : ∀ p hd q rf p' hd' rf', VarAt (placed h (D ++ (A1 ++ x' :: A2 ++ []))) p hd q rf →
      VarAt (placed h (D ++ (A1 ++ x' :: A2 ++ []))) p' hd' q rf' → p = p') :
    Store h { s with mem := m' } D (A1 ++ x' :: A2) [] := by
  have hlen : (Rec.bytes x').length = (Rec.bytes x).length := by
    rw [Rec.bytes_length, Rec.bytes_length, W.size]
  have hlog : logSize (A1 ++ x' :: A2) = logSize (A1 ++ x :: A2) := layout_length_replace hlen
  have hall : logSize (D ++ (A1 ++ x' :: A2 ++ [])) = logSize (D ++ (A1 ++ x :: A2 ++ [])) := by
    rw [List.append_nil, List.append_nil, logSize_append D, logSize_append D, hlog]
  have hq := W.addr_layout S
  have hE := S.log_end
  have hqe : q + x.size ≤ s.pEndOfVars := by
    have h1 := W.addr
    have h2 := S.end_
    rw [logSize_append, logSize_cons] at h2
    omega
  have hsg : ∀ ys zs, headSigned (ys ++ x' :: zs) = headSigned (ys ++ x :: zs) := by
    intro ys zs
    cases ys with
    | nil => exact W.signed
    | cons y ys => rfl
  constructor
  case holds =>
    have hold := S.holds
    rw [List.append_nil, ← List.append_assoc] at hold ⊢
    refine holds_layout_replace hold hlen ?_ ?_
    · rw [← hq]
      exact W.holds
    · intro a ha _
      rw [← hq, Rec.bytes_length] at ha
      exact W.frame a ha
  case first => exact S.first
  case end_ =>
    rw [hlog]
    exact S.end_
  case sizes =>
    intro r hr
    rw [List.append_nil] at hr
    have hold := S.sizes
    rw [List.append_nil] at hold
    simp only [List.mem_append, List.mem_cons] at hr hold
    rcases hr with hr | hr | rfl | hr
    · exact hold r (Or.inl hr)
    · exact hold r (Or.inr (Or.inl hr))
    · rw [W.size]
      exact hold x (Or.inr (Or.inr (Or.inl rfl)))
    · exact hold r (Or.inr (Or.inr (Or.inr hr)))
  case links => exact hlinks
  case dead => exact S.dead
  case dead_head =>
    intro hD
    obtain ⟨h1, -, h3⟩ := S.dead_head hD
    exact ⟨h1, by simp, by rw [hsg]; exact h3⟩
  case tail => exact Or.inl (by simp)
  case head =>
    rw [hsg]
    refine S.head.imp_right fun hh r hr => ?_
    simp only [List.mem_append, List.mem_cons] at hr hh
    rcases hr with hr | rfl | hr
    · exact hh r (Or.inl hr)
    · rcases W.live with hn | hs
      · exact hn
      · rw [hs]
        exact hh x (Or.inr (Or.inl rfl))
    · exact hh r (Or.inr (Or.inr hr))
  case walkedGuids =>
    intro hd n i hm hi
    have hold := S.walkedGuids
    simp only [List.mem_append, List.mem_cons] at hm hold
    rcases hm with hm | he | hm
    · exact hold hd n i (Or.inl hm) hi
    · obtain ⟨hd0, n0, rfl, hr⟩ := W.ref hd n he.symm
      exact hold hd0 n0 i (Or.inr (Or.inl rfl)) (hr.trans hi)
    · exact hold hd n i (Or.inr (Or.inr hm)) hi
  case unique =>
    intro p hd n p' hd' n' hm hv hm' hv' hname hr
    obtain ⟨k, hk⟩ := W.header S hm hv
    obtain ⟨k', hk'⟩ := W.header S hm' hv'
    rw [W.resolve S fun i hi => S.guids p hd k i hk hv hi,
      W.resolve S fun i hi => S.guids p' hd' k' i hk' hv' hi] at hr
    exact S.unique p hd k p' hd' k' hk hv hk' hv' hname hr
  case chains => exact hchains
  case ends => exact hends
  case room =>
    rw [hall]
    exact S.room
  case erased =>
    rw [hall]
    intro a h1 h2
    rw [← S.erased a h1 h2]
    exact W.frame a (Or.inr (by omega))
  case guid256 => exact S.guid256
  case spare =>
    intro p r hr
    have hold : ∃ r0, (p, r0) ∈ placed h (D ++ (A1 ++ x :: A2 ++ [])) ∧ r0.size = r.size := by
      rcases (W.replaced S p r).mp hr with ⟨rfl, rfl⟩ | ⟨-, hr⟩
      · exact ⟨x, W.mem_log S, W.size.symm⟩
      · exact ⟨r, hr, rfl⟩
    obtain ⟨r0, hr0, hsz⟩ := hold
    rw [← hsz]
    refine ⟨(S.spare p r0 hr0).1, fun p' hd n i hm hv hi hlt => ?_⟩
    obtain ⟨n', hm'⟩ := W.header S hm hv
    exact (S.spare p r0 hr0).2 p' hd n' i hm' hv hi hlt

end

/-! ## Deleting a header -/

/-- The record after `DeleteVariable`. -/
def Header.killed (hd : Header) : Header := { hd with valid := false }

section Kill

variable {p n : Nat} {hd : Header} {k : Key}

theorem kill_data {P P' : List (Nat × Rec)} (hu : ∀ a x y, (a, x) ∈ P → (a, y) ∈ P → x = y)
    (hR : Replaced P P' p (.header hd.killed n)) (hm : (p, Rec.header hd n) ∈ P) :
    ∀ a y, y.isData = true → ((a, y) ∈ P ↔ (a, y) ∈ P') := by
  intro a y hy
  rw [hR]
  constructor
  · intro h
    refine Or.inr ⟨?_, h⟩
    rintro rfl
    rw [hu _ _ _ h hm] at hy
    exact absurd hy (by simp [Rec.isData])
  · rintro (⟨-, rfl⟩ | ⟨-, h⟩)
    · exact absurd hy (by simp [Rec.isData])
    · exact h

/-- The variables after a deletion: all the others. -/
theorem kill_varAt {P P' : List (Nat × Rec)} (hu : ∀ a x y, (a, x) ∈ P → (a, y) ∈ P → x = y)
    (hR : Replaced P P' p (.header hd.killed n)) (hm : (p, Rec.header hd n) ∈ P)
    (p2 : Nat) (hd2 : Header) (q2 : Nat) (rf2 : Rec) :
    VarAt P' p2 hd2 q2 rf2 ↔ p2 ≠ p ∧ VarAt P p2 hd2 q2 rf2 := by
  have hdata := kill_data hu hR hm
  constructor
  · rintro ⟨hv, n2, hm2, hc⟩
    rcases (hR _ _).mp hm2 with ⟨-, he⟩ | ⟨hne, hm2⟩
    · rw [(Rec.header.inj he).1] at hv
      exact absurd hv (by simp [Header.killed])
    · exact ⟨hne, hv, n2, hm2, hc.mono fun a y ha hy => (hdata a y hy).mpr ha⟩
  · rintro ⟨hne, hv, n2, hm2, hc⟩
    exact ⟨hv, n2, (hR _ _).mpr (Or.inr ⟨hne, hm2⟩),
      hc.mono fun a y ha hy => (hdata a y hy).mp ha⟩

/-- Clearing the validity bit of a header keeps the invariant. -/
theorem Store.kill (S : Store h s D (A1 ++ .header hd n :: A2) [])
    (W : Rewritten h s m' D A1 A2 p (.header hd n) (.header hd.killed n)) :
    Store h { s with mem := m' } D (A1 ++ .header hd.killed n :: A2) [] := by
  have hR := W.replaced S
  have hm := W.mem_log S
  have hvar := kill_varAt (fun _ _ _ => placed_unique) hR hm
  refine S.replace W ?_ ?_ ?_
  · intro a r hr
    have hold : ∃ r0, (a, r0) ∈ placed h (D ++ (A1 ++ .header hd n :: A2 ++ [])) ∧ r0.next = r.next := by
      rcases (hR _ _).mp hr with ⟨rfl, rfl⟩ | ⟨-, hr⟩
      · exact ⟨_, hm, rfl⟩
      · exact ⟨r, hr, rfl⟩
    obtain ⟨r0, hr0, hn⟩ := hold
    rw [← hn]
    refine (S.links a r0 hr0).imp_right ?_
    rintro ⟨h0, hlt, hin, y, hy, hd'⟩
    exact ⟨h0, hlt, hin, y, (kill_data (fun _ _ _ => placed_unique) hR hm _ y hd').mp hy, hd'⟩
  · intro p2 hd2 n2 hm2 hv2
    rcases (hR _ _).mp hm2 with ⟨-, he⟩ | ⟨hne, hm2⟩
    · rw [(Rec.header.inj he).1] at hv2
      exact absurd hv2 (by simp [Header.killed])
    · obtain ⟨q2, rf2, hc, hq, hcount⟩ := S.chains p2 hd2 n2 hm2 hv2
      exact ⟨q2, rf2,
        hc.mono fun a y ha hy => (kill_data (fun _ _ _ => placed_unique) hR hm a y hy).mp ha,
        hq, hcount⟩
  · intro p2 hd2 q2 rf2 p3 hd3 rf3 h2 h3
    exact S.ends _ _ _ _ _ _ _ ((hvar _ _ _ _).mp h2).2 ((hvar _ _ _ _).mp h3).2

theorem Header.Named.key_eq {hd : Header} {j k : Key} (h1 : hd.Named s j) (h2 : hd.Named s k) :
    j = k := by
  obtain ⟨j1, j2⟩ := j
  obtain ⟨k1, k2⟩ := k
  have hb := h1.2.symm.trans h2.2
  cases j2
  cases k2
  simp only at hb
  subst hb
  rw [show j1 = k1 from h1.1.symm.trans h2.1]

/-- Deleting a variable removes it and nothing else. -/
theorem Store.kill_reads (S : Store h s D (A1 ++ .header hd n :: A2) [])
    (W : Rewritten h s m' D A1 A2 p (.header hd n) (.header hd.killed n)) (hval : hd.valid = true)
    (hk : hd.Named s k) {j : Key} {v : Value} :
    Reads { s with mem := m' } (placed h (D ++ (A1 ++ .header hd.killed n :: A2 ++ []))) j v ↔
      j ≠ k ∧ Reads s (placed h (D ++ (A1 ++ .header hd n :: A2 ++ []))) j v := by
  have hR := W.replaced S
  have hm := W.mem_log S
  have hvar := kill_varAt (fun _ _ _ => placed_unique) hR hm
  have hnamed : ∀ p2 hd2 n2, (p2, Rec.header hd2 n2) ∈ placed h (D ++ (A1 ++ .header hd n :: A2 ++ [])) →
      hd2.valid = true → (hd2.Named { s with mem := m' } j ↔ hd2.Named s j) := by
    intro p2 hd2 n2 hm2 hv2
    unfold Header.Named
    rw [W.resolve S fun i hi => S.guids p2 hd2 n2 i hm2 hv2 hi]
  constructor
  · rintro ⟨p2, hd2, q2, rf2, hv2, hj, rfl⟩
    obtain ⟨hne, hv2'⟩ := (hvar _ _ _ _).mp hv2
    obtain ⟨hval2, n2, hm2, -⟩ := id hv2'
    have hj' := (hnamed p2 hd2 n2 hm2 hval2).mp hj
    refine ⟨?_, p2, hd2, q2, rf2, hv2', hj', rfl⟩
    rintro rfl
    exact hne (S.unique p2 hd2 n2 p hd n hm2 hval2 hm hval (hj'.1.trans hk.1.symm)
      (hj'.2.trans hk.2.symm))
  · rintro ⟨hjk, p2, hd2, q2, rf2, hv2, hj, rfl⟩
    obtain ⟨hval2, n2, hm2, -⟩ := id hv2
    refine ⟨p2, hd2, q2, rf2, (hvar _ _ _ _).mpr ⟨?_, hv2⟩, (hnamed p2 hd2 n2 hm2 hval2).mpr hj, rfl⟩
    rintro rfl
    obtain ⟨rfl, -⟩ := Rec.header.inj (placed_unique hm2 hm)
    exact hjk (hj.key_eq hk)

end Kill

/-! ## Linking the last record of a chain to a new one -/

def Rec.setNext (r : Rec) (d : Nat) : Rec :=
  match r with
  | header hd _ => header hd d
  | data dr _ => data dr d
  | broken flags body => broken flags body

theorem Rec.setNext_next {r : Rec} (hs : r.signed = true) (d : Nat) : (r.setNext d).next = d := by
  cases r with
  | header hd n => rfl
  | data dr n => rfl
  | broken flags body => exact absurd hs (by simp [Rec.signed])

@[simp] theorem Rec.setNext_live (r : Rec) (d : Nat) : (r.setNext d).live = r.live := by
  cases r <;> rfl

@[simp] theorem Rec.setNext_isData (r : Rec) (d : Nat) : (r.setNext d).isData = r.isData := by
  cases r <;> rfl

@[simp] theorem Rec.setNext_signed (r : Rec) (d : Nat) : (r.setNext d).signed = r.signed := by
  cases r <;> rfl

@[simp] theorem Rec.setNext_size (r : Rec) (d : Nat) : (r.setNext d).size = r.size := by
  cases r <;> rfl

theorem Rec.setNext_raw {r : Rec} (hs : r.signed = true) (d : Nat) :
    (r.setNext d).raw = { r.raw with next := d } := by
  cases r with
  | header hd n => rfl
  | data dr n => rfl
  | broken flags body => exact absurd hs (by simp [Rec.signed])

theorem isData_signed (hd : r.isData = true) : r.signed = true := by
  cases r <;> simp_all [Rec.isData, Rec.signed]

section Relink

variable {P P' : List (Nat × Rec)} {e p : Nat} {rf : Rec} {hd : Header}

/-- The chain that ended at `q` now ends at the record `x` at `e`. -/
theorem Chain.extend (hqe : q < e)
    (hd : e - q ≠ flashEmptyNext) (hR : Replaced P P' q (rf.setNext (e - q)))
    (hsig : rf.signed = true) (hx : (e, x) ∈ P) (hxd : x.isData = true)
    (hxn : x.next = flashEmptyNext) {p : Nat} {r : Rec} (hc : Chain P p r q rf)
    (hm : (p, r) ∈ P) (hpos : ∀ a y, (a, y) ∈ P → y.next ≠ flashEmptyNext → 0 < y.next) :
    ∃ r', (p, r') ∈ P' ∧ Chain P' p r' e x ∧ (r' = r ∨ r' = r.setNext (e - q)) := by
  have hx' : (e, x) ∈ P' := (hR _ _).mpr (Or.inr ⟨by omega, hx⟩)
  induction hc with
  | @last p r _ =>
    refine ⟨_, (hR _ _).mpr (Or.inl ⟨rfl, rfl⟩), ?_, Or.inr rfl⟩
    have hn := Rec.setNext_next hsig (e - p)
    refine Chain.link (by rw [hn]; exact hd) ?_ hxd ?_
    · rw [hn, show p + (e - p) = e by omega]
      exact hx'
    · rw [hn, show p + (e - p) = e by omega]
      exact Chain.last hxn
  | @link p r r2 q rf hn hm2 hd2 ht ih =>
    obtain ⟨r2', hm2', hc2, hr2⟩ := ih hqe hd hR hsig hm2
    have hlt := ht.le
    have h0 := hpos p r hm hn
    refine ⟨r, (hR _ _).mpr (Or.inr ⟨by omega, hm⟩), Chain.link hn hm2' ?_ hc2, Or.inl rfl⟩
    rcases hr2 with rfl | rfl
    · exact hd2
    · simpa using hd2

theorem relink_others (hu : ∀ a x y, (a, x) ∈ P → (a, y) ∈ P → x = y)
    (hR : Replaced P P' q (rf.setNext (e - q))) (hrf : (q, rf) ∈ P)
    (hrn : rf.next = flashEmptyNext) {p2 q2 : Nat} {hd2 : Header} {rf2 : Rec} (hne : q2 ≠ q)
    (hv : VarAt P p2 hd2 q2 rf2) : VarAt P' p2 hd2 q2 rf2 := by
  obtain ⟨hval, n2, hm2, hc⟩ := hv
  have hl : ∀ y, (q, y) ∈ P → y.next = flashEmptyNext := fun y hy => hu _ _ _ hy hrf ▸ hrn
  refine ⟨hval, n2, (hR _ _).mpr (Or.inr ⟨?_, hm2⟩),
    hc.avoid (fun a y ha _ hn => (hR _ _).mpr (Or.inr ⟨hn, ha⟩)) hl hne⟩
  rintro rfl
  cases hc with
  | last _ => exact hne rfl
  | link hn _ _ _ => exact hn (hl _ hm2)

end Relink

section RelinkStore

variable {e p : Nat} {x y : Rec} {hd : Header} {k : Key}

/-- The last record `x` of the variable `hd` is linked to the data-only record `y`,
which no variable ends in. -/
structure Relinked (h : Nat) (s : StoreInfo) (m' : Mem) (D A1 A2 : List Rec) (p : Nat) (hd : Header)
    (q : Nat) (x : Rec) (e : Nat) (y : Rec) : Prop where
  store : Store h s D (A1 ++ x :: A2) []
  rewritten : Rewritten h s m' D A1 A2 q x (x.setNext (e - q))
  var : VarAt (placed h (D ++ (A1 ++ x :: A2 ++ []))) p hd q x
  lt : q < e
  dist : e - q < flashEmptyNext
  mem : (e, y) ∈ placed h (D ++ (A1 ++ x :: A2 ++ []))
  data : y.isData = true
  last : y.next = flashEmptyNext
  count : y.count.isSome = hd.auth.isSome
  fresh : ∀ p' hd' q' rf', VarAt (placed h (D ++ (A1 ++ x :: A2 ++ []))) p' hd' q' rf' → q' ≠ e

namespace Relinked

variable (R : Relinked h s m' D A1 A2 p hd q x e y)

include R

theorem final_mem : (q, x) ∈ placed h (D ++ (A1 ++ x :: A2 ++ [])) := by
  obtain ⟨-, n, hm, hc⟩ := R.var
  exact hc.mem hm

theorem final_signed : x.signed = true := by
  obtain ⟨-, n, -, hc⟩ := R.var
  rcases hc.data_or with ⟨-, rfl⟩ | hd'
  · rfl
  · exact isData_signed hd'

theorem final_next : x.next = flashEmptyNext := by
  obtain ⟨-, n, -, hc⟩ := R.var
  exact hc.final

theorem var_new : VarAt (placed h (D ++ (A1 ++ x.setNext (e - q) :: A2 ++ []))) p hd e y := by
  obtain ⟨hv, n, hm, hc⟩ := R.var
  have hpos : ∀ a z, (a, z) ∈ placed h (D ++ (A1 ++ x :: A2 ++ [])) → z.next ≠ flashEmptyNext →
      0 < z.next := by
    intro a z hz hn
    rcases R.store.links a z hz with h0 | ⟨h0, -⟩
    · exact absurd h0 hn
    · exact h0
  obtain ⟨r', hm', hc', hr'⟩ := Chain.extend R.lt (ne_of_lt R.dist)
    (R.rewritten.replaced R.store) R.final_signed R.mem R.data R.last hc hm hpos
  rcases hr' with rfl | rfl
  · exact ⟨hv, n, hm', hc'⟩
  · exact ⟨hv, e - q, hm', hc'⟩

/-- The variables after the link: the updated one ends in the new record. -/
theorem varAt (p2 : Nat) (hd2 : Header) (q2 : Nat) (rf2 : Rec) :
    VarAt (placed h (D ++ (A1 ++ x.setNext (e - q) :: A2 ++ []))) p2 hd2 q2 rf2 ↔
      (p2 = p ∧ hd2 = hd ∧ q2 = e ∧ rf2 = y) ∨
      (p2 ≠ p ∧ VarAt (placed h (D ++ (A1 ++ x :: A2 ++ []))) p2 hd2 q2 rf2) := by
  have hrep := R.rewritten.replaced R.store
  constructor
  · intro hv
    obtain ⟨hval, n2, hm2, hc2⟩ := id hv
    by_cases hp : p2 = p
    · left
      subst hp
      obtain ⟨-, n3, hm3, hc3⟩ := R.var_new
      obtain ⟨rfl, rfl⟩ := Rec.header.inj (placed_unique hm2 hm3)
      obtain ⟨rfl, rfl⟩ := chain_unique (fun _ _ _ => placed_unique) hc2 hc3
      exact ⟨rfl, rfl, rfl, rfl⟩
    · right
      obtain ⟨n3, hm3⟩ := R.rewritten.header R.store hm2 hval
      obtain ⟨q3, rf3, hc3, -, -⟩ := R.store.chains p2 hd2 n3 hm3 hval
      have hold : VarAt (placed h (D ++ (A1 ++ x :: A2 ++ []))) p2 hd2 q3 rf3 :=
        ⟨hval, n3, hm3, hc3⟩
      have hne : q3 ≠ q := fun he => hp (R.store.ends _ _ _ _ _ _ _ (he ▸ hold) R.var)
      obtain ⟨-, n4, hm4, hc4⟩ := relink_others (fun _ _ _ => placed_unique) hrep R.final_mem
        R.final_next hne hold
      obtain ⟨-, rfl⟩ := Rec.header.inj (placed_unique hm2 hm4)
      obtain ⟨rfl, rfl⟩ := chain_unique (fun _ _ _ => placed_unique) hc2 hc4
      exact ⟨hp, hold⟩
  · rintro (⟨rfl, rfl, rfl, rfl⟩ | ⟨hp, hv⟩)
    · exact R.var_new
    · have hne : q2 ≠ q := fun he => hp (R.store.ends _ _ _ _ _ _ _ (he ▸ hv) R.var)
      exact relink_others (fun _ _ _ => placed_unique) hrep R.final_mem R.final_next hne hv

theorem store_new : Store h { s with mem := m' } D (A1 ++ x.setNext (e - q) :: A2) [] := by
  have S := R.store
  have hrep := R.rewritten.replaced S
  have hend : e < s.pEndOfVars := by
    have h1 := S.mem_lt_end R.mem
    have h2 := y.size_pos
    omega
  refine S.replace R.rewritten ?_ ?_ ?_
  · intro a r hr
    rcases (hrep _ _).mp hr with ⟨rfl, rfl⟩ | ⟨hne, hr⟩
    · rw [Rec.setNext_next R.final_signed]
      have hlt := R.lt
      refine Or.inr ⟨by omega, R.dist, fun _ => by omega, y, (hrep _ _).mpr (Or.inr ?_), R.data⟩
      rw [show a + (e - a) = e by omega]
      exact ⟨by omega, R.mem⟩
    · refine (S.links a r hr).imp_right ?_
      rintro ⟨h0, hlt, hin, z, hz, hd'⟩
      refine ⟨h0, hlt, hin, ?_⟩
      by_cases hq : a + r.next = q
      · refine ⟨x.setNext (e - q), (hrep _ _).mpr (Or.inl ⟨hq, rfl⟩), ?_⟩
        rw [hq] at hz
        obtain rfl := placed_unique hz R.final_mem
        simpa using hd'
      · exact ⟨z, (hrep _ _).mpr (Or.inr ⟨hq, hz⟩), hd'⟩
  · intro p2 hd2 n2 hm2 hv2
    by_cases hp : p2 = p
    · subst hp
      obtain ⟨-, n3, hm3, hc3⟩ := R.var_new
      obtain ⟨rfl, rfl⟩ := Rec.header.inj (placed_unique hm2 hm3)
      exact ⟨e, y, hc3, hend, R.count⟩
    · obtain ⟨n3, hm3⟩ := R.rewritten.header S hm2 hv2
      obtain ⟨q3, rf3, hc3, hq3, hcount⟩ := S.chains p2 hd2 n3 hm3 hv2
      have hv3 := (R.varAt p2 hd2 q3 rf3).mpr (Or.inr ⟨hp, hv2, n3, hm3, hc3⟩)
      obtain ⟨-, n4, hm4, hc4⟩ := hv3
      obtain ⟨-, rfl⟩ := Rec.header.inj (placed_unique hm2 hm4)
      exact ⟨q3, rf3, hc4, hq3, hcount⟩
  · intro p2 hd2 q2 rf2 p3 hd3 rf3 h2 h3
    rcases (R.varAt _ _ _ _).mp h2 with ⟨h2p, -, h2q, -⟩ | ⟨-, h2'⟩ <;>
      rcases (R.varAt _ _ _ _).mp h3 with ⟨h3p, -, h3q, -⟩ | ⟨-, h3'⟩
    · rw [h2p, h3p]
    · exact absurd h2q (R.fresh _ _ _ _ h3')
    · exact absurd h3q (R.fresh _ _ _ _ h2')
    · exact S.ends _ _ _ _ _ _ _ h2' h3'

/-- Linking gives the variable the new data and leaves the others alone. -/
theorem reads (hk : hd.Named s k) {j : Key} {v : Value} :
    Reads { s with mem := m' } (placed h (D ++ (A1 ++ x.setNext (e - q) :: A2 ++ []))) j v ↔
      (j = k ∧ v = hd.value s y) ∨
      (j ≠ k ∧ Reads s (placed h (D ++ (A1 ++ x :: A2 ++ []))) j v) := by
  have S := R.store
  have hnamed : ∀ p2 hd2 n2, (p2, Rec.header hd2 n2) ∈ placed h (D ++ (A1 ++ x :: A2 ++ [])) →
      hd2.valid = true → (hd2.Named { s with mem := m' } j ↔ hd2.Named s j) := by
    intro p2 hd2 n2 hm2 hv2
    unfold Header.Named
    rw [R.rewritten.resolve S fun i hi => S.guids p2 hd2 n2 i hm2 hv2 hi]
  obtain ⟨hval, n, hm, -⟩ := R.var
  constructor
  · rintro ⟨p2, hd2, q2, rf2, hv2, hj, rfl⟩
    rcases (R.varAt _ _ _ _).mp hv2 with ⟨rfl, rfl, rfl, rfl⟩ | ⟨hp, hv2⟩
    · exact Or.inl ⟨((hnamed _ _ _ hm hval).mp hj).key_eq hk, rfl⟩
    · obtain ⟨hval2, n2, hm2, -⟩ := id hv2
      have hj' := (hnamed _ _ _ hm2 hval2).mp hj
      refine Or.inr ⟨?_, p2, hd2, q2, rf2, hv2, hj', rfl⟩
      rintro rfl
      exact hp (S.unique p2 hd2 n2 p hd n hm2 hval2 hm hval (hj'.1.trans hk.1.symm)
        (hj'.2.trans hk.2.symm))
  · rintro (⟨rfl, rfl⟩ | ⟨hjk, p2, hd2, q2, rf2, hv2, hj, rfl⟩)
    · exact ⟨p, hd, e, y, R.var_new, (hnamed _ _ _ hm hval).mpr hk, rfl⟩
    · obtain ⟨hval2, n2, hm2, -⟩ := id hv2
      refine ⟨p2, hd2, q2, rf2, (R.varAt _ _ _ _).mpr (Or.inr ⟨?_, hv2⟩),
        (hnamed _ _ _ hm2 hval2).mpr hj, rfl⟩
      rintro rfl
      obtain ⟨rfl, -⟩ := Rec.header.inj (placed_unique hm2 hm)
      exact hjk (hj.key_eq hk)

end Relinked

end RelinkStore

/-! ## A record that no chain reaches -/

/-- The last record is given up: the walk ends before it. -/
theorem Store.retract {y : Rec} {e : Nat} (S : Store h s D (A ++ [y]) []) (hA : A ≠ [])
    (he : e + y.size = s.pEndOfVars) (hdata : y.isData = true)
    (hlink : ∀ a r, (a, r) ∈ placed h (D ++ (A ++ [y] ++ [])) → r.next ≠ flashEmptyNext →
      a + r.next ≠ e)
    (hfresh : ∀ p hd q rf, VarAt (placed h (D ++ (A ++ [y] ++ []))) p hd q rf → q ≠ e)
    {lastVarSize : Nat} :
    Store h { s with pEndOfVars := e, lastVarSize := lastVarSize } D A [y] := by
  have hL : D ++ (A ++ [y]) = D ++ (A ++ [y] ++ []) := by rw [List.append_nil]
  have hlive : y.live = none := by cases y <;> simp_all [Rec.isData, Rec.live]
  have hend := S.end_
  rw [logSize_snoc] at hend
  have hpos := y.size_pos
  have hye : (e, y) ∈ placed h (D ++ (A ++ [y] ++ [])) := by
    refine S.mem_log ?_
    rw [placed_snoc]
    exact List.mem_append_right _ (by simp; omega)
  have hbelow : ∀ a r, (a, r) ∈ placed h (D ++ (A ++ [y] ++ [])) → a ≤ e := by
    intro a r hr
    by_contra hlt
    have h1 := place_sep hye hr (by omega)
    have h2 := S.mem_lt_end hr
    have h3 := r.size_pos
    rw [Rec.bytes_length] at h1
    omega
  constructor
  case holds => rw [hL]; exact S.holds
  case first => exact S.first
  case end_ => simp only; omega
  case sizes => rw [hL]; exact S.sizes
  case links =>
    rw [hL]
    intro a r hr
    rcases S.links a r hr with hn | ⟨h0, hlt, hin, z, hz, hd'⟩
    · exact Or.inl hn
    · have h1 := hlink a r hr (ne_of_lt hlt)
      have h2 := hbelow _ _ hz
      exact Or.inr ⟨h0, hlt, fun _ => by simp only; omega, z, hz, hd'⟩
  case dead =>
    intro r hr
    rcases List.mem_append.mp hr with hr | hr
    · exact S.dead r (by simpa using hr)
    · rw [List.mem_singleton.mp hr]
      exact hlive
  case dead_head =>
    intro hD
    obtain ⟨h1, -, h3⟩ := S.dead_head hD
    exact ⟨h1, hA, by rwa [headSigned_append hA] at h3⟩
  case tail =>
    refine Or.inl fun hd n hm => ?_
    rw [← List.mem_singleton.mp hm] at hdata
    exact absurd hdata (by simp [Rec.isData])
  case head =>
    have hh := S.head
    rw [headSigned_append hA] at hh
    exact hh.imp_right fun hall r hr => hall r (List.mem_append_left _ hr)
  case walkedGuids => exact fun hd n i hm hi => S.walkedGuids hd n i (List.mem_append_left _ hm) hi
  case unique => rw [hL]; exact S.unique
  case chains =>
    rw [hL]
    intro p hd n hm hv
    obtain ⟨q, rf, hc, hq, hcount⟩ := S.chains p hd n hm hv
    have h1 := hfresh p hd q rf ⟨hv, n, hm, hc⟩
    have h2 := hbelow _ _ (hc.mem hm)
    exact ⟨q, rf, hc, by simp only; omega, hcount⟩
  case ends => rw [hL]; exact S.ends
  case room => rw [hL]; exact S.room
  case erased => rw [hL]; exact S.erased
  case guid256 => exact S.guid256
  case spare => rw [hL]; exact S.spare

end

end BayTrail.Nvram
