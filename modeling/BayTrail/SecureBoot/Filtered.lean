import BayTrail.SecureBoot.Filter

/-!
# What FindInSignatureDb leaves of a payload

Whatever `ValidateSignatureList` accepts is a sequence of lists with a tail that is no list
(`Accepted.bytes_eq`), and the loops take it so, whether or not the signatures have the size
of their type. The passes over the payload are one (`passAll_eq`): a list in which nothing of
the database is found stays, a list whose only signature is found goes, and any other
ends outside of the payload, because `SigNewSize` then counts bytes that are no longer there.
A tail behind the payload stays behind what is left. From this follows when the payload is
filtered as an append needs it (`filters_iff`).
-/

namespace BayTrail.SecureBoot.Filter

open BayTrail.Lib
open BayTrail.SecureBoot.Validate

/-! ## Entries -/

section

variable (m : Mem) (q : Nat)

/-- How many signatures `SignatureSize` gives. -/
def countAt : Nat := (signatureListSize m q - sizeofSignatureList) / signatureSize m q

/-- The signatures of the list at `q`, each with its owner. -/
def itemsAt : List Bytes :=
  (List.range (countAt m q)).map fun i =>
    peek m (q + sizeofSignatureList + signatureSize m q * i) (signatureSize m q)

theorem itemsAt_sized : ∀ s ∈ itemsAt m q, s.length = signatureSize m q := by
  intro s hs
  obtain ⟨i, -, rfl⟩ := List.mem_map.mp hs
  exact peek_length _ _ _

theorem itemsAt_short : signatureSize m q = 0 ∧ itemsAt m q = []
    ∨ (signatureListSize m q - sizeofSignatureList) % signatureSize m q < signatureSize m q := by
  by_cases hzero : signatureSize m q = 0
  · refine Or.inl ⟨hzero, ?_⟩
    unfold itemsAt countAt
    rw [hzero, Nat.div_zero]
    rfl
  · exact Or.inr (Nat.mod_lt _ (Nat.pos_of_ne_zero hzero))

theorem itemsAt_total : signatureSize m q * (itemsAt m q).length
      + (signatureListSize m q - sizeofSignatureList) % signatureSize m q
    = signatureListSize m q - sizeofSignatureList := by
  unfold itemsAt countAt
  rw [List.length_map, List.length_range]
  exact Nat.div_add_mod _ _

theorem listAt_total : sizeofSignatureList + (signatureSize m q * (itemsAt m q).length
    + (peek m (q + sizeofSignatureList + signatureSize m q * countAt m q)
      ((signatureListSize m q - sizeofSignatureList) % signatureSize m q)).length) < 2 ^ 32 := by
  have hlt := rd_lt m 4 (q + 16)
  rw [peek_length, itemsAt_total]
  unfold signatureListSize sizeofSignatureList
  omega

/-- The list at `q`. -/
def listAt : RawList where
  type := signatureType m q
  signatureSize := signatureSize m q
  signatures := itemsAt m q
  slack := peek m (q + sizeofSignatureList + signatureSize m q * countAt m q)
    ((signatureListSize m q - sizeofSignatureList) % signatureSize m q)
  type_length := peek_length _ _ _
  sized := itemsAt_sized m q
  short := by
    rw [peek_length]
    exact itemsAt_short m q
  fits := rd_lt m 4 _
  total := listAt_total m q

end

/-- The lists of a buffer. -/
def listsIn (b : Buf) : List RawList := (listsFrom b.mem b.base b.size).1.map (listAt b.mem)

/-- The bytes behind them. -/
def tailOf (b : Buf) : Bytes :=
  peek b.mem (b.base + (b.size - (listsFrom b.mem b.base b.size).2)) (listsFrom b.mem b.base b.size).2

/-- The entries of some lists: each signature with the type of its list. -/
def entriesOf (lists : List RawList) : List (Bytes × Bytes) :=
  lists.flatMap fun l => l.signatures.map (l.type, ·)

def entriesIn (b : Buf) : List (Bytes × Bytes) := entriesOf (listsIn b)

/-- What `ValidateSignatureList` accepts. -/
structure Accepted (b : Buf) : Prop where
  valid : validateSignatureList b.mem b.base b.size = .success
  fits : b.base + b.size < 2 ^ 64

/-- The database with these bytes behind it is accepted, and lacks no entry of the payload. -/
def Completes (db b : Buf) (bs : Bytes) : Prop :=
  ∀ c : Buf, c.base ≠ 0 → c.bytes = db.bytes ++ bs →
    validateSignatureList c.mem c.base c.size = .success ∧ ∀ e ∈ entriesIn b, e ∈ entriesIn c

/-- `b'` holds what of `b` is not in the database. -/
structure Filtered (db b b' : Buf) : Prop where
  base : b'.base = b.base
  wellFormed : WellFormed b'.bytes
  entries : entriesIn b' = (entriesIn b).filter (· ∉ entriesIn db)
  appended : Completes db b b'.bytes

/-- The run for an append ends, without an access or a division that must not be, and filters. -/
def Filters (db b : Buf) : Prop :=
  ∃ enough, ∀ fuel, enough ≤ fuel → ∃ outcome b',
    findInSignatureDb fuel true (some db) b = .ok (outcome, b') ∧ Filtered db b b'

/-- The signatures have the size of the type, and fill the list. -/
def RawList.Filled (l : RawList) : Prop := RightSize l.type l.signatureSize ∧ l.signatureSize ∣ l.bodySize

/-- The list has a single signature, and the database has it as well, with its owner. -/
def Stored (db : Buf) (l : RawList) : Prop := l.Single ∧ ∀ s ∈ l.signatures, (l.type, s) ∈ entriesIn db

instance (db : Buf) : DecidablePred (Stored db) := fun l => inferInstanceAs (Decidable (l.Single ∧ _))

/-- A signature of the list is in the database, if one leaves its owner out of account. -/
def Matched (db : Buf) (l : RawList) : Prop :=
  ∃ s ∈ l.signatures, ∃ e ∈ entriesIn db,
    e.1 = l.type ∧ e.2.length = s.length ∧ e.2.drop sizeofGuid = s.drop sizeofGuid

/-- The append can be filtered. -/
structure Filterable (db b : Buf) : Prop where
  /-- no list of the database has a `SignatureSize` of 0 -/
  divisible : ∀ d ∈ listsIn db, d.signatureSize ≠ 0
  /-- a tail of the database is long enough for the size of a list -/
  readable : tailOf db = [] ∨ 20 ≤ (tailOf db).length
  /-- the payload has no tail -/
  whole : tailOf b = []
  /-- its lists are stored ones, and well-formed ones of which the database has nothing -/
  lists : ∀ l ∈ listsIn b, Stored db l ∨ l.Filled ∧ ¬ Matched db l
  /-- what is appended is not read as a part of the tail of the database -/
  appended : tailOf db = [] ∨ Completes db b (encode ((listsIn b).filter (¬ Stored db ·)))

/-! ## Reading lists back -/

section

variable {m : Mem} {lists : List RawList} {b : Buf} {bs : Bytes}

theorem RawList.ext_fields {l l' : RawList} (h1 : l.type = l'.type) (h2 : l.signatureSize = l'.signatureSize)
    (h3 : l.signatures = l'.signatures) (h4 : l.slack = l'.slack) : l = l' := by
  cases l
  cases l'
  simp only at h1 h2 h3 h4
  subst h1 h2 h3 h4
  rfl

/-- The fields of a list that stands in memory. -/
theorem holds_head {l : RawList} {q : Nat} (h : Holds m q l.bytes) :
    signatureType m q = l.type ∧ signatureListSize m q = l.listSize ∧
      signatureHeaderSize m q = 0 ∧ signatureSize m q = l.signatureSize := by
  unfold RawList.bytes RawList.head at h
  simp only [holds_append, List.length_append, leBytes_length, l.type_length] at h
  obtain ⟨⟨⟨⟨htype, hlist⟩, hheader⟩, hsize⟩, -⟩ := h
  exact ⟨htype.peek_eq l.type_length.symm, hlist.rd_eq_of_lt l.total,
    hheader.rd_eq_of_lt (by decide), hsize.rd_eq_of_lt l.fits⟩

theorem inBounds_iff {l : RawList} {q : Nat} (h : Holds m q l.bytes) : Known m q ∧ InBounds m q ↔
    l.type ∈ mSignatureSupport ∧ 0x4c ≤ l.listSize ∧ l.listSize ≤ nvramSize := by
  obtain ⟨htype, hlist, hheader, -⟩ := holds_head h
  unfold Known InBounds
  rw [htype, hlist, hheader]
  simp

/-- Signatures that stand one behind the other. -/
theorem peek_items {size : Nat} : ∀ {signatures : List Bytes} {p : Nat}, (∀ s ∈ signatures, s.length = size) →
    Holds m p signatures.flatten →
    (List.range signatures.length).map (fun i => peek m (p + size * i) size) = signatures
  | [], _, _, _ => rfl
  | s :: rest, p, hsized, h => by
    have hs := hsized s List.mem_cons_self
    rw [List.flatten_cons, holds_append, hs] at h
    have ih := peek_items (fun s' hs' => hsized s' (List.mem_cons_of_mem _ hs')) h.2
    rw [List.length_cons, List.range_succ_eq_map, List.map_cons, List.map_map, Nat.mul_zero, Nat.add_zero,
      h.1.peek_eq hs.symm]
    refine congrArg (s :: ·) (Eq.trans (List.map_congr_left fun i _ => ?_) ih)
    simp only [Function.comp_apply, Nat.succ_eq_add_one, Nat.mul_add, Nat.mul_one]
    rw [Nat.add_assoc, Nat.add_comm (size * i)]

/-- A list that stands in memory is read back. -/
theorem listAt_eq {l : RawList} {q : Nat} (h : Holds m q l.bytes) : listAt m q = l := by
  obtain ⟨htype, hlist, -, hsize⟩ := holds_head h
  have hbody : signatureListSize m q - sizeofSignatureList = l.signatureSize * l.signatures.length + l.slack.length := by
    rw [hlist]
    exact Nat.add_sub_cancel_left _ _
  have hparts : countAt m q = l.signatures.length ∧
      (signatureListSize m q - sizeofSignatureList) % signatureSize m q = l.slack.length := by
    unfold countAt
    rw [hbody, hsize]
    obtain ⟨hzero, hnil⟩ | hslack := l.short
    · rw [hzero, hnil]
      simp
    · rw [Nat.mul_add_div (by omega), Nat.div_eq_of_lt hslack, Nat.mul_add_mod, Nat.mod_eq_of_lt hslack]
      exact ⟨rfl, rfl⟩
  unfold RawList.bytes at h
  rw [holds_append, l.head_length, holds_append, flatten_length l.sized] at h
  refine RawList.ext_fields htype hsize ?_ ?_
  · change itemsAt m q = l.signatures
    unfold itemsAt
    rw [hparts.1, hsize]
    exact peek_items l.sized h.2.1
  · change peek m (q + sizeofSignatureList + signatureSize m q * countAt m q) _ = l.slack
    rw [hparts.2, hparts.1, hsize]
    exact h.2.2.peek_eq rfl

/-- The walk does not go into a tail. -/
theorem listsFrom_torn {p : Nat} (htorn : Torn bs) (h : Holds m p bs) : listsFrom m p bs.length = ([], bs.length) := by
  refine listsFrom_stop fun hstop => ?_
  obtain hshort | hcut := htorn
  · have := hstop.1
    have := hstop.2
    unfold sizeofSignatureList at *
    omega
  · have hfield : signatureListSize m p = sizeField bs := rd_sizeField h hcut.1
    have := hcut.2
    omega

/-- The walk finds the lists, and the tail behind them. -/
theorem listsFrom_map {α : Type} (f : Nat → α) (g : RawList → α) (hfg : ∀ q l, Holds m q l.bytes → f q = g l)
    (htorn : Torn bs) : ∀ {lists : List RawList} {p : Nat}, Holds m p (encode lists ++ bs) →
      (listsFrom m p (encode lists ++ bs).length).1.map f = lists.map g ∧
        (listsFrom m p (encode lists ++ bs).length).2 = bs.length
  | [], p, h => by
    rw [encode_nil, List.nil_append] at h ⊢
    rw [listsFrom_torn htorn h]
    exact ⟨rfl, rfl⟩
  | l :: rest, p, h => by
    rw [encode_cons, List.append_assoc, holds_append, l.bytes_length] at h
    have hsize := (holds_head h.1).2.1
    have h28 : sizeofSignatureList ≤ l.listSize := Nat.le_add_right _ _
    have hlen : (encode (l :: rest) ++ bs).length = l.listSize + (encode rest ++ bs).length := by
      rw [encode_cons, List.append_assoc, List.length_append, l.bytes_length]
    obtain ⟨ihlists, ihleft⟩ := listsFrom_map f g hfg htorn h.2
    rw [listsFrom_list (hsize ▸ h28) (by omega), hsize, hlen, Nat.add_sub_cancel_left]
    refine ⟨?_, ihleft⟩
    rw [List.map_cons, List.map_cons, hfg p l h.1, ihlists]

theorem standing_of_bytes (hb : b.bytes = encode lists ++ bs) :
    b.size = (encode lists ++ bs).length ∧ Holds b.mem b.base (encode lists ++ bs) := by
  refine ⟨?_, hb ▸ holds_peek _ _ _⟩
  rw [← hb]
  exact (peek_length _ _ _).symm

section

variable (hb : b.bytes = encode lists ++ bs) (htorn : Torn bs)
include hb htorn

/-- A property of the places of a buffer that is one of its lists. -/
theorem forall_listsFrom {f : Nat → Prop} {g : RawList → Prop} (hfg : ∀ q l, Holds b.mem q l.bytes → (f q ↔ g l)) :
    (∀ q ∈ (listsFrom b.mem b.base b.size).1, f q) ↔ ∀ l ∈ lists, g l := by
  obtain ⟨hsize, hholds⟩ := standing_of_bytes hb
  have hmap := (listsFrom_map f g (fun q l h => propext (hfg q l h)) htorn hholds).1
  rw [hsize, ← List.forall_mem_map (P := fun p => p), hmap, List.forall_mem_map]

theorem listsIn_eq : listsIn b = lists ∧ (listsFrom b.mem b.base b.size).2 = bs.length := by
  obtain ⟨hsize, hholds⟩ := standing_of_bytes hb
  unfold listsIn
  rw [hsize]
  have hwalk := listsFrom_map (listAt b.mem) id (fun q l => listAt_eq) htorn hholds
  rwa [List.map_id] at hwalk

/-- The format asks for lists of supported types that their signatures fill, and no tail. -/
theorem wellFormed_encoded : WellFormed b.bytes ↔
    bs = [] ∧ ∀ l ∈ lists, l.type ∈ mSignatureSupport ∧ l.Filled := by
  have hgood : ∀ (q : Nat) (l : RawList), Holds b.mem q l.bytes →
      (Known b.mem q ∧ Validate.Filled b.mem q ↔ l.type ∈ mSignatureSupport ∧ l.Filled) := by
    intro q l h
    obtain ⟨htype, hlist, hheader, hsize⟩ := holds_head h
    unfold Known Validate.Filled RawList.Filled
    rw [htype, hlist, hheader, hsize, show l.listSize - sizeofSignatureList = l.bodySize from
      Nat.add_sub_cancel_left _ _]
    simp
  unfold Buf.bytes
  rw [wellFormed_iff, forall_listsFrom hb htorn hgood, (listsIn_eq hb htorn).2, List.length_eq_zero_iff]

/-- The check asks for lists of supported types within the bounds. -/
theorem validate_encoded (hbase : b.base ≠ 0) (hnil : bs = []) :
    validateSignatureList b.mem b.base b.size = .success ↔
      lists ≠ [] ∧ ∀ l ∈ lists, l.type ∈ mSignatureSupport ∧ 0x4c ≤ l.listSize ∧ l.listSize ≤ nvramSize := by
  obtain ⟨hlists, hleft⟩ := listsIn_eq hb htorn
  have hne : (listsFrom b.mem b.base b.size).1 ≠ [] ↔ lists ≠ [] := by
    rw [ne_eq, ne_eq, ← hlists]
    exact not_congr List.map_eq_nil_iff.symm
  rw [hnil, List.length_nil] at hleft
  rw [validateSignatureList_success hbase, forall_listsFrom hb htorn fun q l => inBounds_iff, hne, hleft]
  simp

end

/-- The bytes from which a list was read. -/
theorem listAt_bytes {q : Nat} (hheader : signatureHeaderSize m q = 0)
    (h28 : sizeofSignatureList ≤ signatureListSize m q) : (listAt m q).bytes = peek m q (signatureListSize m q) := by
  have hitems : ∀ k, ((List.range k).map fun i =>
      peek m (q + sizeofSignatureList + signatureSize m q * i) (signatureSize m q)).flatten
        = peek m (q + sizeofSignatureList) (signatureSize m q * k) := by
    intro k
    induction k with
    | zero => rfl
    | succ k ih =>
      rw [List.range_succ, List.map_append, List.flatten_append, ih, Nat.mul_succ, peek_add]
      simp
  have hsize : (listAt m q).listSize = signatureListSize m q := by
    have htotal := itemsAt_total m q
    unfold RawList.listSize RawList.bodySize listAt
    rw [peek_length, htotal, Nat.add_sub_cancel' h28]
  have hhead : (listAt m q).head = peek m q sizeofSignatureList := by
    unfold RawList.head
    rw [hsize, ← hheader]
    unfold listAt signatureListSize signatureSize signatureHeaderSize signatureType
    rw [leBytes_rd, leBytes_rd, leBytes_rd]
    unfold sizeofSignatureList sizeofGuid
    change _ = peek m q (16 + 4 + 4 + 4)
    rw [peek_add, peek_add, peek_add]
  obtain ⟨n, hn⟩ := Nat.exists_eq_add_of_le h28
  unfold RawList.bytes
  rw [hhead]
  unfold listAt itemsAt countAt
  rw [hitems, ← peek_add, Nat.div_add_mod, ← peek_add, Nat.add_sub_cancel' h28]

/-- Bytes in which the walk finds headers without a header of their own are these lists and
what is left. -/
theorem peek_lists (m : Mem) (p n : Nat) (h : ∀ q ∈ (listsFrom m p n).1, signatureHeaderSize m q = 0) :
    peek m p n = encode ((listsFrom m p n).1.map (listAt m))
      ++ peek m (p + (n - (listsFrom m p n).2)) (listsFrom m p n).2 := by
  induction n using Nat.strong_induction_on generalizing p with
  | _ n ih =>
    by_cases hfits : sizeofSignatureList ≤ signatureListSize m p ∧ signatureListSize m p ≤ n
    · rw [listsFrom_list hfits.1 hfits.2] at h ⊢
      obtain ⟨hheader, hrest⟩ := List.forall_mem_cons.mp h
      have hlt : n - signatureListSize m p < n := by
        have := hfits.1
        unfold sizeofSignatureList at this
        omega
      have hleft := listsFrom_left_le m (p + signatureListSize m p) (n - signatureListSize m p)
      rw [List.map_cons, encode_cons, List.append_assoc, listAt_bytes hheader hfits.1,
        show p + (n - (listsFrom m (p + signatureListSize m p) (n - signatureListSize m p)).2)
          = p + signatureListSize m p + (n - signatureListSize m p
            - (listsFrom m (p + signatureListSize m p) (n - signatureListSize m p)).2) by omega,
        ← ih _ hlt _ hrest, ← peek_add, Nat.add_sub_cancel' hfits.2]
    · rw [listsFrom_stop hfits, Nat.sub_self, Nat.add_zero]
      rfl

theorem Accepted.base_ne (h : Accepted b) : b.base ≠ 0 := by
  intro hzero
  have hvalid := h.valid
  unfold validateSignatureList at hvalid
  rw [if_pos (Or.inl hzero)] at hvalid
  exact Status.noConfusion hvalid

theorem Accepted.size_ne (h : Accepted b) : b.size ≠ 0 := by
  intro hzero
  have hvalid := h.valid
  unfold validateSignatureList at hvalid
  rw [if_pos (Or.inr hzero)] at hvalid
  exact Status.noConfusion hvalid

/-- What is accepted is a sequence of lists, and a tail. -/
theorem Accepted.bytes_eq (h : Accepted b) : b.bytes = encode (listsIn b) ++ tailOf b ∧ Torn (tailOf b) := by
  obtain ⟨-, hall, hend⟩ := (validateSignatureList_success h.base_ne).mp h.valid
  refine ⟨peek_lists b.mem b.base b.size fun q hq => (hall q hq).1.2, ?_⟩
  have hlen : (tailOf b).length = (listsFrom b.mem b.base b.size).2 := peek_length _ _ _
  by_cases h20 : (tailOf b).length < 20
  · exact Or.inl h20
  · have hfield : signatureListSize b.mem (b.base + (b.size - (listsFrom b.mem b.base b.size).2))
        = sizeField (tailOf b) := rd_sizeField (holds_peek _ _ _) (by omega)
    refine Or.inr ⟨by omega, ?_⟩
    rw [← hfield, hlen]
    omega

theorem Accepted.supported (h : Accepted b) :
    ∀ l ∈ listsIn b, l.type ∈ mSignatureSupport ∧ 0x4c ≤ l.listSize ∧ l.listSize ≤ nvramSize := by
  obtain ⟨-, hall, -⟩ := (validateSignatureList_success h.base_ne).mp h.valid
  obtain ⟨hbytes, htorn⟩ := h.bytes_eq
  exact (forall_listsFrom hbytes htorn fun q l => inBounds_iff).mp hall

end

/-! ## The passes -/

/-- The lists without those for which `P` holds, if each of these has a single signature. -/
def sift (P : RawList → Prop) [DecidablePred P] (lists : List RawList) : Option (List RawList) :=
  if ∀ l ∈ lists, P l → l.Single then some (lists.filter (¬ P ·)) else none

/-- A list of the payload is hit by a signature of the database. -/
def Found (dbLists : List RawList) (l : RawList) : Prop :=
  ∃ d ∈ dbLists, ∃ t ∈ d.signatures, Hit d.type t l

section

variable {P Q : RawList → Prop} [DecidablePred P] [DecidablePred Q] {lists : List RawList}

instance (dbLists : List RawList) : DecidablePred (Found dbLists) :=
  fun l => inferInstanceAs (Decidable (∃ d ∈ dbLists, ∃ t ∈ d.signatures, Hit d.type t l))

theorem sift_congr {P Q : RawList → Prop} [hP : DecidablePred P] [hQ : DecidablePred Q]
    (h : ∀ l, P l ↔ Q l) : sift P lists = sift Q lists := by
  obtain rfl : P = Q := funext fun l => propext (h l)
  obtain rfl : hP = hQ := Subsingleton.elim _ _
  rfl

theorem sift_false (lists : List RawList) : sift (fun _ => False) lists = some lists := by
  unfold sift
  rw [if_pos (by simp), List.filter_eq_self.mpr (by simp)]

/-- Two passes are one. -/
theorem sift_bind : (sift P lists).bind (sift Q) = sift (fun l => P l ∨ Q l) lists := by
  unfold sift
  by_cases hP : ∀ l ∈ lists, P l → l.Single
  · rw [if_pos hP, Option.bind_some]
    have hboth : (∀ l ∈ lists.filter (¬ P ·), Q l → l.Single) ↔ ∀ l ∈ lists, P l ∨ Q l → l.Single := by
      constructor
      · intro h l hl hPQ
        by_cases hPl : P l
        · exact hP l hl hPl
        · exact h l (List.mem_filter.mpr ⟨hl, by simpa using hPl⟩) (hPQ.resolve_left hPl)
      · intro h l hl hQ
        exact h l (List.mem_filter.mp hl).1 (Or.inr hQ)
    by_cases hQ : ∀ l ∈ lists, P l ∨ Q l → l.Single
    · rw [if_pos (hboth.mpr hQ), if_pos hQ, List.filter_filter]
      refine congrArg some (List.filter_congr fun l _ => ?_)
      simp [Bool.and_comm]
    · rw [if_neg (hQ ∘ hboth.mp), if_neg hQ]
  · rw [if_neg hP, if_neg fun h => hP fun l hl hPl => h l hl (Or.inl hPl)]
    rfl

theorem passLists_eq (type item : Bytes) : ∀ lists : List RawList,
    passLists type item lists = sift (Hit type item) lists
  | [] => rfl
  | l :: rest => by
    rw [passLists, passLists_eq type item rest]
    unfold sift
    simp only [List.forall_mem_cons]
    by_cases hhit : Hit type item l
    · rw [if_pos hhit, List.filter_cons_of_neg (by simpa using hhit)]
      by_cases hone : l.Single
      · simp [hone]
      · simp [hone, hhit]
    · rw [if_neg hhit, List.filter_cons_of_pos (by simpa using hhit), apply_ite (Option.map (l :: ·))]
      simp [hhit]

theorem passItems_eq (type : Bytes) : ∀ (todo : List Bytes) (lists : List RawList),
    passItems type todo lists = sift (fun l => ∃ t ∈ todo, Hit type t l) lists
  | [], lists => (sift_false lists).symm.trans (sift_congr (by simp))
  | t :: todo, lists => by
    rw [passItems, passLists_eq, funext (passItems_eq type todo), sift_bind]
    exact sift_congr fun l => by simp

/-- All the passes are one. -/
theorem passAll_eq : ∀ (dbLists lists : List RawList), passAll dbLists lists = sift (Found dbLists) lists
  | [], lists => (sift_false lists).symm.trans (sift_congr (by simp [Found]))
  | d :: rest, lists => by
    rw [passAll, passItems_eq, funext (passAll_eq rest), sift_bind]
    exact sift_congr fun l => by simp [Found]

end

/-! ## What is found -/

section

variable {db b : Buf} {l : RawList} {lists : List RawList}

theorem mem_entriesOf {e : Bytes × Bytes} :
    e ∈ entriesOf lists ↔ ∃ l ∈ lists, ∃ s ∈ l.signatures, (l.type, s) = e := by
  simp [entriesOf]

/-- An entry that is in the database is found. -/
theorem found_of_mem {s : Bytes} (hs : s ∈ l.signatures) (hmem : (l.type, s) ∈ entriesIn db) :
    Found (listsIn db) l := by
  obtain ⟨d, hd, t, ht, heq⟩ := mem_entriesOf.mp hmem
  obtain ⟨htype, rfl⟩ := Prod.mk.inj heq
  exact ⟨d, hd, t, ht, Or.inr ⟨htype.symm, (l.sized t hs).symm, t, hs, rfl⟩⟩

theorem found_of_stored (h : Stored db l) : Found (listsIn db) l := by
  obtain ⟨s, hs⟩ := List.length_eq_one_iff.mp h.1.2
  have hmem : s ∈ l.signatures := by simp [hs]
  exact found_of_mem hmem (h.2 s hmem)

/-- A signature that matches is found, whoever owns it. -/
theorem found_of_matched (h : Matched db l) : Found (listsIn db) l := by
  obtain ⟨s, hs, e, he, htype, hlen, hdata⟩ := h
  obtain ⟨d, hd, t, ht, rfl⟩ := mem_entriesOf.mp he
  exact ⟨d, hd, t, ht, Or.inr ⟨htype.symm, ((l.sized s hs).symm.trans hlen.symm), s, hs, hdata.symm⟩⟩

/-- In a list that has signatures of a size, what is found matches. -/
theorem matched_of_found (h : Found (listsIn db) l) (hsize : l.signatureSize ≠ 0) :
    ∃ s ∈ l.signatures, ∃ e ∈ entriesIn db,
      e.1 = l.type ∧ e.2.length = s.length ∧ e.2.drop sizeofGuid = s.drop sizeofGuid := by
  obtain ⟨d, hd, t, ht, hhit⟩ := h
  obtain ⟨htype, hlen, s, hs, hdata⟩ := hhit.resolve_left hsize
  exact ⟨s, hs, (d.type, t), mem_entriesOf.mpr ⟨d, hd, t, ht, rfl⟩, htype.symm,
    hlen.symm.trans (l.sized s hs).symm, hdata.symm⟩

/-- In a payload that can be filtered, the lists that are found are those that are stored. -/
theorem found_iff_stored (h : Stored db l ∨ l.Filled ∧ ¬ Matched db l) : Found (listsIn db) l ↔ Stored db l := by
  refine ⟨fun hfound => h.resolve_right fun hkept => hkept.2 (matched_of_found hfound ?_), found_of_stored⟩
  have hsize : sizeofGuid < l.signatureSize := hkept.1.1.1
  omega

/-- Dropping the lists drops the entries. -/
theorem entriesOf_filter (h : ∀ l ∈ lists, Found (listsIn db) l → ∀ s ∈ l.signatures, (l.type, s) ∈ entriesIn db) :
    entriesOf (lists.filter (¬ Found (listsIn db) ·)) = (entriesOf lists).filter (· ∉ entriesIn db) := by
  induction lists with
  | nil => rfl
  | cons l rest ih =>
    have ih := ih fun l' hl' => h l' (List.mem_cons_of_mem _ hl')
    have hl := h l List.mem_cons_self
    unfold entriesOf at ih ⊢
    rw [List.flatMap_cons, List.filter_append, ← ih]
    by_cases hfound : Found (listsIn db) l
    · have hnone : (l.signatures.map (l.type, ·)).filter (· ∉ entriesIn db) = [] := by
        rw [List.filter_eq_nil_iff]
        intro e he
        obtain ⟨s, hs, rfl⟩ := List.mem_map.mp he
        simpa using hl hfound s hs
      rw [List.filter_cons_of_neg (by simpa using hfound), hnone, List.nil_append]
    · have hsame : (l.signatures.map (l.type, ·)).filter (· ∉ entriesIn db) = l.signatures.map (l.type, ·) := by
        rw [List.filter_eq_self]
        intro e he
        obtain ⟨s, hs, rfl⟩ := List.mem_map.mp he
        simpa using fun hmem => hfound (found_of_mem hs hmem)
      rw [List.filter_cons_of_pos (by simpa using hfound), hsame, List.flatMap_cons]

end

/-! ## The run -/

section

variable {db b b' : Buf} {bs : Bytes} {fuel : Nat} {outcome : Outcome}

theorem ends_of_bytes (hb : b.bytes = bs) (hfits : b.base + b.size < 2 ^ 64) : Ends b b.base bs := by
  subst hb
  have hlen : b.bytes.length = b.size := peek_length _ _ _
  exact ⟨⟨le_rfl, by omega, holds_peek _ _ _⟩, by omega, hfits⟩

theorem Ends.bytes_eq (h : Ends b b.base bs) : b.bytes = bs := by
  have hlast := h.last
  exact h.holds.peek_eq (by omega)

theorem findInSignatureDb_eq (hdb : Accepted db) (hb : Accepted b) :
    findInSignatureDb fuel true (some db) b
      = (dbLoop fuel db fuel db.base (encode (listsIn db) ++ tailOf db).length b >>=
          fun b => .ok (if b.size = 0 then .alreadyStarted else .success, b)) := by
  rw [← hdb.bytes_eq.1, show db.bytes.length = db.size from peek_length _ _ _]
  exact if_pos ⟨hdb.size_ne, rfl, hb.valid⟩

/-- A run that ends. -/
theorem findInSignatureDb_ok (hdb : Accepted db) (hb : Accepted b)
    (hrun : findInSignatureDb fuel true (some db) b = .ok (outcome, b')) :
    (∀ d ∈ listsIn db, d.signatureSize ≠ 0) ∧ (tailOf db = [] ∨ Cut (tailOf db)) ∧
      (tailOf b ≠ [] → Truncated b') := by
  obtain ⟨hdbBytes, hdbTorn⟩ := hdb.bytes_eq
  obtain ⟨hbytes, htorn⟩ := hb.bytes_eq
  rw [findInSignatureDb_eq hdb hb] at hrun
  obtain ⟨b1, hloop, hrun⟩ := bind_ok hrun
  obtain ⟨-, rfl⟩ := Prod.mk.inj (Except.ok.inj hrun)
  obtain ⟨hsizes, htail, hleft⟩ := dbLoop_ok fuel hdbTorn (ends_of_bytes hdbBytes hdb.fits) hloop
  exact ⟨hsizes, htail, fun hne => hleft ⟨_, _, ends_of_bytes hbytes hb.fits, hne, htorn⟩⟩

/-- The run for an append of a payload without a tail, told on the lists. -/
theorem findInSignatureDb_spec (hdb : Accepted db) (hb : Accepted b)
    (hsizes : ∀ d ∈ listsIn db, d.signatureSize ≠ 0) (htail : tailOf db = [] ∨ Cut (tailOf db))
    (hwhole : tailOf b = []) (hfuel : (listsIn db).length + (listsIn b).length < fuel) :
    match sift (Found (listsIn db)) (listsIn b) with
    | some lists' => ∃ outcome b', findInSignatureDb fuel true (some db) b = .ok (outcome, b') ∧
        b'.base = b.base ∧ b'.bytes = encode lists'
    | none => ∃ e, findInSignatureDb fuel true (some db) b = .error e := by
  obtain ⟨hdbBytes, -⟩ := hdb.bytes_eq
  obtain ⟨hbytes, -⟩ := hb.bytes_eq
  rw [hwhole, List.append_nil] at hbytes
  have hloop := dbLoop_spec fuel htail hsizes (ends_of_bytes hdbBytes hdb.fits)
    (show (listsIn db).length < fuel by omega) (show (listsIn b).length < fuel by omega)
    (ends_of_bytes hbytes hb.fits)
  rw [passAll_eq] at hloop
  rw [findInSignatureDb_eq hdb hb]
  revert hloop
  cases sift (Found (listsIn db)) (listsIn b) with
  | none =>
    rintro ⟨e, he⟩
    rw [he]
    exact ⟨e, rfl⟩
  | some lists' =>
    rintro ⟨b', hloop, hbase, hends⟩
    rw [hloop]
    exact ⟨_, b', rfl, hbase, hends.bytes_eq⟩

/-- The entries of a buffer that holds some lists. -/
theorem entriesIn_eq {lists : List RawList} (hb : b.bytes = encode lists) : entriesIn b = entriesOf lists := by
  have hnil : b.bytes = encode lists ++ [] := hb.trans (List.append_nil _).symm
  unfold entriesIn
  rw [(listsIn_eq hnil (Or.inl (by decide))).1]

/-- What is left behind a tail is not well formed. -/
theorem Truncated.not_wellFormed (h : Truncated b) : ¬ WellFormed b.bytes := by
  obtain ⟨lists, bs, hends, hne, htorn⟩ := h
  rw [wellFormed_encoded hends.bytes_eq htorn]
  exact fun hwf => hne hwf.1

/-- Behind a database without a tail, the lists of the payload that are not found are read as
they are, and complete it. -/
theorem completes_of_lists (hdb : Accepted db) (hb : Accepted b) (htail : tailOf db = [])
    (h : ∀ l ∈ listsIn b, Found (listsIn db) l → ∀ s ∈ l.signatures, (l.type, s) ∈ entriesIn db) :
    Completes db b (encode ((listsIn b).filter (¬ Found (listsIn db) ·))) := by
  intro c hc hbytes
  obtain ⟨hdbBytes, -⟩ := hdb.bytes_eq
  rw [htail, List.append_nil] at hdbBytes
  have henc : c.bytes = encode (listsIn db ++ (listsIn b).filter (¬ Found (listsIn db) ·)) := by
    rw [hbytes, hdbBytes]
    exact List.flatMap_append.symm
  have hne : listsIn db ≠ [] := by
    intro hnil
    have hlen : db.bytes.length = db.size := peek_length _ _ _
    rw [hdbBytes, hnil] at hlen
    exact hdb.size_ne hlen.symm
  refine ⟨(validate_encoded (henc.trans (List.append_nil _).symm) (Or.inl (by decide)) hc rfl).mpr
    ⟨by simp [hne], fun l hl => ?_⟩, fun e he => ?_⟩
  · exact (List.mem_append.mp hl).elim (hdb.supported l) fun hl => hb.supported l (List.mem_filter.mp hl).1
  · -- what is not behind the database is in it
    rw [entriesIn_eq henc, entriesOf, List.flatMap_append]
    by_cases hmem : e ∈ entriesIn db
    · exact List.mem_append_left _ hmem
    · refine List.mem_append_right _ ?_
      rw [← entriesOf, entriesOf_filter h]
      exact List.mem_filter.mpr ⟨he, by simpa using hmem⟩

/-- What a run needs of a payload that it filters. -/
theorem filterable_of_filters (hdb : Accepted db) (hb : Accepted b) (h : Filters db b) : Filterable db b := by
  obtain ⟨enough, hruns⟩ := h
  obtain ⟨outcome, b', hrun, hfiltered⟩ :=
    hruns (enough + (listsIn db).length + (listsIn b).length + 1) (by omega)
  obtain ⟨hsizes, htail, hleft⟩ := findInSignatureDb_ok hdb hb hrun
  have hwhole : tailOf b = [] := by
    by_contra hne
    exact (hleft hne).not_wellFormed hfiltered.wellFormed
  have hspec := findInSignatureDb_spec hdb hb hsizes htail hwhole
    (show (listsIn db).length + (listsIn b).length < enough + (listsIn db).length + (listsIn b).length + 1 by omega)
  rw [hrun] at hspec
  unfold sift at hspec
  by_cases hone : ∀ l ∈ listsIn b, Found (listsIn db) l → l.Single
  swap
  · rw [if_neg hone] at hspec
    exact absurd hspec (by simp)
  rw [if_pos hone] at hspec
  obtain ⟨_, _, heq, -, hbytes'⟩ := hspec
  obtain ⟨-, rfl⟩ := Prod.mk.inj (Except.ok.inj heq)
  have hentries := hfiltered.entries
  rw [entriesIn_eq hbytes'] at hentries
  have hgood := ((wellFormed_encoded (hbytes'.trans (List.append_nil _).symm) (Or.inl (by decide))).mp
    hfiltered.wellFormed).2
  -- what is found is stored: its entry would be gone, although it is not in the database
  have hstored : ∀ l ∈ listsIn b, Found (listsIn db) l → Stored db l := by
    intro l hl hfound
    refine ⟨hone l hl hfound, fun s hs => ?_⟩
    by_contra hnot
    have hkept : (l.type, s) ∈ entriesOf ((listsIn b).filter (¬ Found (listsIn db) ·)) := by
      rw [hentries]
      exact List.mem_filter.mpr ⟨mem_entriesOf.mpr ⟨l, hl, s, hs, rfl⟩, by simpa using hnot⟩
    obtain ⟨l', hl', s', hs', heq⟩ := mem_entriesOf.mp hkept
    obtain ⟨htype, rfl⟩ := Prod.mk.inj heq
    have hsingle := hone l hl hfound
    have hpos : l.signatureSize ≠ 0 := by
      have := hsingle.1
      unfold sizeofGuid at this
      omega
    obtain ⟨only, honly⟩ := List.length_eq_one_iff.mp hsingle.2
    obtain ⟨a, ha, e, he, hetype, helen, hedata⟩ := matched_of_found hfound hpos
    rw [honly, List.mem_singleton] at ha hs
    subst ha hs
    have hfound' : Found (listsIn db) l' :=
      found_of_matched ⟨_, hs', e, he, hetype.trans htype.symm, helen, hedata⟩
    simpa [hfound'] using (List.mem_filter.mp hl').2
  refine ⟨hsizes, htail.imp_right And.left, hwhole, fun l hl => ?_, Or.inr ?_⟩
  · by_cases hfound : Found (listsIn db) l
    · exact Or.inl (hstored l hl hfound)
    · exact Or.inr ⟨(hgood l (List.mem_filter.mpr ⟨hl, by simpa using hfound⟩)).2,
        fun hmatched => hfound (found_of_matched hmatched)⟩
  · have hsame : (listsIn b).filter (¬ Stored db ·) = (listsIn b).filter (¬ Found (listsIn db) ·) :=
      List.filter_congr fun l hl => by
        simp only [decide_eq_decide]
        exact not_congr ⟨found_of_stored, hstored l hl⟩
    rw [hsame, ← hbytes']
    exact hfiltered.appended

/-- The payload is filtered exactly when its lists are stored ones, with a single signature
that the database has with its owner, and well-formed ones of which the database has
nothing. -/
theorem filters_iff (hdb : Accepted db) (hb : Accepted b) : Filters db b ↔ Filterable db b := by
  refine ⟨filterable_of_filters hdb hb, fun h => ?_⟩
  refine ⟨(listsIn db).length + (listsIn b).length + 1, fun fuel hfuel => ?_⟩
  have htail : tailOf db = [] ∨ Cut (tailOf db) :=
    h.readable.imp_right fun h20 => hdb.bytes_eq.2.resolve_left (by omega)
  have hfound : ∀ l ∈ listsIn b, (Found (listsIn db) l ↔ Stored db l) := fun l hl => found_iff_stored (h.lists l hl)
  have hspec := findInSignatureDb_spec hdb hb h.divisible htail h.whole
    (show (listsIn db).length + (listsIn b).length < fuel by omega)
  rw [sift, if_pos fun l hl hf => ((hfound l hl).mp hf).1] at hspec
  obtain ⟨outcome, b', hrun, hbase, hleft⟩ := hspec
  have howned : ∀ l ∈ listsIn b, Found (listsIn db) l → ∀ s ∈ l.signatures, (l.type, s) ∈ entriesIn db :=
    fun l hl hf => ((hfound l hl).mp hf).2
  refine ⟨outcome, b', hrun, hbase, ?_, ?_, ?_⟩
  · rw [wellFormed_encoded (hleft.trans (List.append_nil _).symm) (Or.inl (by decide))]
    refine ⟨rfl, fun l hl => ?_⟩
    obtain ⟨hl, hkept⟩ := List.mem_filter.mp hl
    have hnot : ¬ Stored db l := fun hs => by simp [(hfound l hl).mpr hs] at hkept
    exact ⟨(hb.supported l hl).1, ((h.lists l hl).resolve_left hnot).1⟩
  · rw [entriesIn_eq hleft]
    exact entriesOf_filter howned
  · rw [hleft]
    obtain hnone | hcompletes := h.appended
    · exact completes_of_lists hdb hb hnone howned
    · have hsame : (listsIn b).filter (¬ Stored db ·) = (listsIn b).filter (¬ Found (listsIn db) ·) :=
        List.filter_congr fun l hl => by
          simp only [decide_eq_decide]
          exact not_congr (hfound l hl).symm
      rwa [hsame] at hcompletes

end

/-! ## Digests -/

/-- The signature of a SHA-256 digest that is one byte over and over. -/
def digestData (x : UInt8) : Bytes := List.replicate 16 0 ++ List.replicate 32 x

theorem digestData_sized (xs : List UInt8) : ∀ s ∈ xs.map digestData, s.length = 48 := by
  intro s hs
  obtain ⟨x, -, rfl⟩ := List.mem_map.mp hs
  simp [digestData]

theorem digests_total {xs : List UInt8} (h : xs.length ≤ 2) :
    sizeofSignatureList + (48 * (xs.map digestData).length + ([] : Bytes).length) < 2 ^ 32 := by
  rw [List.length_map, List.length_nil]
  unfold sizeofSignatureList
  omega

theorem digests_short : ([] : Bytes).length < 48 := by decide

theorem digests_fits : 48 < 2 ^ 32 := by decide

def digests (xs : List UInt8) (h : xs.length ≤ 2) : RawList where
  type := gEfiCertSha256Guid
  signatureSize := 48
  signatures := xs.map digestData
  slack := []
  type_length := rfl
  sized := digestData_sized xs
  short := Or.inr digests_short
  fits := digests_fits
  total := digests_total h

def digestBuf (xs : List UInt8) (h : xs.length ≤ 2) : Buf :=
  ⟨poke (fun _ => 0) 0x1000 (encode [digests xs h]), 0x1000, (encode [digests xs h]).length⟩

theorem digestBuf_bytes (xs : List UInt8) (h : xs.length ≤ 2) :
    (digestBuf xs h).bytes = encode [digests xs h] ++ [] :=
  (holds_iff_peek.mp (holds_poke _ _ _)).trans (List.append_nil _).symm

theorem digestBuf_accepted (xs : List UInt8) (h : xs.length ≤ 2) (hpos : xs ≠ []) : Accepted (digestBuf xs h) := by
  have hlist : (digests xs h).listSize = 28 + 48 * xs.length := by
    simp [RawList.listSize, RawList.bodySize, digests, sizeofSignatureList]
  have hlen : 1 ≤ xs.length := List.length_pos_iff.mpr hpos
  refine ⟨?_, ?_⟩
  · rw [validate_encoded (digestBuf_bytes xs h) (Or.inl (by decide)) (by decide : (0x1000 : Nat) ≠ 0) rfl]
    refine ⟨List.cons_ne_nil _ _, fun l hl => ?_⟩
    obtain rfl := List.mem_singleton.mp hl
    rw [hlist]
    refine ⟨show gEfiCertSha256Guid ∈ mSignatureSupport by decide, by omega, ?_⟩
    unfold nvramSize
    omega
  · simp only [digestBuf, encode_cons, encode_nil, List.append_nil, RawList.bytes_length, hlist]
    omega

theorem digestBuf_lists (xs : List UInt8) (h : xs.length ≤ 2) : listsIn (digestBuf xs h) = [digests xs h] :=
  (listsIn_eq (digestBuf_bytes xs h) (Or.inl (by decide))).1

theorem filters_iff_digest : Filters (digestBuf [1] (by decide)) (digestBuf [1] (by decide)) ↔
    Filterable (digestBuf [1] (by decide)) (digestBuf [1] (by decide)) :=
  filters_iff (digestBuf_accepted _ _ (by decide)) (digestBuf_accepted _ _ (by decide))

/-- The first of two digests is taken out, and the walk goes on behind the second one. -/
theorem not_filters : ¬ ∀ db b : Buf, Accepted db → Accepted b → Filters db b := by
  intro h
  have hdb := digestBuf_accepted [1] (by decide) (by decide)
  have hb := digestBuf_accepted [1, 0] (by decide) (by decide)
  have hlists := (filterable_of_filters hdb hb (h _ _ hdb hb)).lists (digests [1, 0] (by decide))
    (by rw [digestBuf_lists]; exact List.mem_singleton.mpr rfl)
  have hfound : Found [digests [1] (by decide)] (digests [1, 0] (by decide)) := by decide
  rw [← digestBuf_lists [1] (by decide)] at hfound
  exact absurd ((found_iff_stored hlists).mp hfound).1.2 (by decide)

end BayTrail.SecureBoot.Filter
