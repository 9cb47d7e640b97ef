import BayTrail.BootScript.Resume

/-!
# Positions in the boot script

A position is the `UniqueIndex` of an entry, so it stays what it is while entries are put
in front of the one it denotes. For every position that has been returned: when an insertion
at it is what the protocol asks for, and that comparing two of them is.
-/

namespace BayTrail.BootScript

open BayTrail.Lib

/-! ## What positions mean -/

/-- The entry at position `p` is the next one behind the gap between `pre` and `post`, or the
last one in front of it. -/
def Next (before : Bool) (pre post : List Entry) (p : Nat) : Prop :=
  if before then ∃ e, post.head? = some e ∧ e.uniqueIndex = p
  else ∃ e, pre.getLast? = some e ∧ e.uniqueIndex = p

/-- An insertion at `p` puts the entry right before or after the one there, and returns the
position of the new one; one that fails leaves the table and the position alone. -/
def InsertMeans (env : Env) (pad : Mem) (s : State) (es : List Entry) (before : Bool) (p : Nat)
    (r : Request) : Prop :=
  let done := saveStateInsert env pad s before (some p) r
  (done.1 = .success → ∃ pre post e x, es = pre ++ post ∧ Next before pre post p
    ∧ Tiled done.2.2.info (pre ++ e :: post) ∧ done.2.1 = some e.uniqueIndex
    ∧ opCodeFuncs pad r = .ok x ∧ e.body = x.header ++ x.data) ∧
  (done.1 ≠ .success → Tiled done.2.2.info es ∧ done.2.1 = some p)

/-- The entry at `p` comes before the one at `q`. -/
def Earlier (es : List Entry) (p q : Nat) : Prop := [p, q].Sublist (es.map Entry.uniqueIndex)

/-- A comparison tells the order of the entries, which is that in which they are executed. -/
structure CompareMeans (s : State) (es : List Entry) (p q : Nat) : Prop where
  same : p = q → (saveStateCompare s p q).1 = .success ∧ (saveStateCompare s p q).2.1 = some 0
  earlier : Earlier es p q →
    (saveStateCompare s p q).1 = .success ∧ (saveStateCompare s p q).2.1 = some (-1)
  later : Earlier es q p →
    (saveStateCompare s p q).1 = .success ∧ (saveStateCompare s p q).2.1 = some 1
  total : p = q ∨ Earlier es p q ∨ Earlier es q p
  executed : Earlier es p q → ∀ pf polls fuel value status x,
    executeLoop pf polls fuel 0 ⟨s.info.mem, value, [], []⟩ = some (status, x) →
    ∀ a b d e, (a, d) ∈ place Entry.bytes 0 es → (b, e) ∈ place Entry.bytes 0 es →
      d.uniqueIndex = p → e.uniqueIndex = q → a ∈ x.walk → b ∈ x.walk → [a, b].Sublist x.walk

/-- The saver takes the request, and there is room for its entry or a larger table. -/
def Saves (env : Env) (pad : Mem) (s : State) (r : Request) : Prop :=
  ∃ x, opCodeFuncs pad r = .ok x ∧ (roomyTable env s.info (uintn (x.size + sizeofInfo))).isSome

/-- The entry at the position 0 is the first one of the table, or the last one. -/
def AtEdge (es : List Entry) (before : Bool) : Prop :=
  if before then ∃ e, es.head? = some e ∧ e.uniqueIndex = 0
  else ∃ e, es.getLast? = some e ∧ e.uniqueIndex = 0

/-! ## Runs -/

/-- The position that a call returns. -/
def State.returned (env : Env) (s : State) : Call → Option Nat
  | .insert pad b p r =>
    if (saveStateInsert env pad s b p r).1 = .success then (saveStateInsert env pad s b p r).2.1
    else none
  | .label pad b c p l =>
    if (saveStateLabel env pad s b c p l).1 = .success then (saveStateLabel env pad s b c p l).2.1
    else none
  | _ => none

/-- A label is not looked for in a table without entries, where it seems to be. -/
def Call.Searches (s : State) : Call → Prop
  | .label _ _ _ _ (some l) =>
    s.info.numTableEntries = 0 → labelLoop s.info.mem l (labelSize l) 1 0 = none
  | _ => True

/-- The states of runs from a new table, with the positions returned so far. -/
inductive Reached : State → List Nat → Prop
  | new {env : Env} {info : TableInfo} (h : newTable env = some info) :
      Reached ⟨info, clearInsertInfo⟩ []
  | step {s : State} {ps : List Nat} (h : Reached s ps) (env : Env) (c : Call) (hshort : c.Short)
      (hcount : s.info.numTableEntries < 2 ^ 32) (hsearch : c.Searches s) :
      Reached (s.call env c) ((s.returned env c).toList ++ ps)

/-! ## The table -/

section

variable {s : State} {es es' : List Entry} {env : Env} {pad : Mem} {p : Nat}
variable {info : TableInfo} {e e' : Entry} {m : Mem} {post pre pre' post' : List Entry}
  {before b : Bool} {n q width address a : Nat} {r : Request} {space : Space} {pos : Option Nat}

theorem Tiled.index_lt (T : Tiled info es) (he : e ∈ es) :
    e.uniqueIndex < info.numTableEntries := by
  have hmem : e.uniqueIndex ∈ List.range es.length := T.indices.subset (List.mem_map_of_mem he)
  rw [T.count]
  exact List.mem_range.mp hmem

/-- The bytes say what the entries are. -/
theorem layout_injective : ∀ {es es' : List Entry} {p : Nat}, Holds m p (layout Entry.bytes es) →
    Holds m p (layout Entry.bytes es') → es.length = es'.length → es = es'
  | [], [], _, _, _, _ => rfl
  | [], _ :: _, _, _, _, h => absurd h (by simp)
  | _ :: _, [], _, _, _, h => absurd h (by simp)
  | e :: es, e' :: es', p, hm, hm', h => by
    rw [layout_cons, holds_append] at hm hm'
    have hindex : e.uniqueIndex = e'.uniqueIndex :=
      (uniqueIndexAt_eq hm.1).symm.trans (uniqueIndexAt_eq hm'.1)
    have hlength : e.length = e'.length := (lengthAt_eq hm.1).symm.trans (lengthAt_eq hm'.1)
    have hbody : e.body = e'.body := by
      have hsame : e.body.length = e'.body.length := Nat.add_left_cancel hlength
      rw [← (holds_body hm.1).peek_eq rfl, ← (holds_body hm'.1).peek_eq rfl, hsame]
    obtain rfl : e = e' := by
      cases e
      cases e'
      simp_all
    rw [layout_injective hm.2 hm'.2 (by simpa using h)]

theorem Tiled.unique (T : Tiled info es) (T' : Tiled info es') : es = es' :=
  layout_injective T.holds T'.holds (T.count.symm.trans T'.count)

/-! ## Searching -/

/-- The search ends at the first entry with the index. -/
theorem insertLoop_found (ins : InsertInfo) :
    ∀ {pre : List Entry} {i p : Nat}, Holds m p (layout Entry.bytes (pre ++ e :: post)) →
      e.uniqueIndex = ins.position → (∀ d ∈ pre, d.uniqueIndex ≠ ins.position) →
      insertLoop m ins (pre ++ e :: post).length i p = some (i + pre.length,
        p + logSize (if ins.beforeOrAfter then pre else pre ++ [e]))
  | [], i, p, hm, he, _ => by
    rw [List.nil_append, layout_cons, holds_append] at hm
    rw [List.nil_append, List.length_cons, insertLoop, uniqueIndexAt_eq hm.1, if_pos he, lengthAt_eq hm.1]
    cases ins.beforeOrAfter <;> simp [logSize]
  | d :: pre, i, p, hm, he, hpre => by
    rw [List.cons_append, layout_cons, holds_append] at hm
    have ih := insertLoop_found ins (i := i + 1) hm.2 he fun d' hd' => hpre d' (List.mem_cons_of_mem _ hd')
    rw [List.cons_append, List.length_cons, insertLoop, uniqueIndexAt_eq hm.1, if_neg (hpre d (by simp)),
      lengthAt_eq hm.1, ← Entry.bytes_length, ih, List.length_cons]
    refine congrArg some (Prod.ext (by dsimp only; omega) ?_)
    cases ins.beforeOrAfter <;> simp [logSize, Nat.add_assoc]

/-- The one entry with an index splits the table. -/
theorem Tiled.split (T : Tiled info es) (he : e ∈ es) :
    ∃ pre post, es = pre ++ e :: post ∧ (∀ d ∈ pre, d.uniqueIndex ≠ e.uniqueIndex) ∧
      ∀ d ∈ post, d.uniqueIndex ≠ e.uniqueIndex := by
  obtain ⟨pre, post, rfl⟩ := List.append_of_mem he
  have hnodup := T.nodup
  rw [List.map_append, List.map_cons, List.nodup_append] at hnodup
  obtain ⟨-, hpost, hdisj⟩ := hnodup
  refine ⟨pre, post, rfl, fun d hd => ?_, fun d hd heq => ?_⟩
  · exact hdisj _ (List.mem_map_of_mem hd) _ (List.mem_cons_self ..)
  · exact (List.nodup_cons.mp hpost).1 (heq ▸ List.mem_map_of_mem hd)

/-- The position can be searched for. -/
def Findable (ins : InsertInfo) (es : List Entry) : Prop :=
  ins.isItInsert = true → ins.position = atBeginning ∨ ∃ e ∈ es, e.uniqueIndex = ins.position

theorem Tiled.insertPosition_isSome (T : Tiled info es) {ins : InsertInfo}
    (h : ins.position = atBeginning ∨ ∃ e ∈ es, e.uniqueIndex = ins.position) (size : Nat) :
    (insertPositionInBootScript info ins size).isSome := by
  unfold insertPositionInBootScript
  rw [Option.isSome_map]
  by_cases hpos : ins.position = atBeginning
  · rw [if_neg (not_not.mpr hpos)]
    rfl
  · obtain ⟨e, he, hindex⟩ := h.resolve_left hpos
    obtain ⟨pre, post, rfl, hpre, -⟩ := T.split he
    rw [if_pos hpos, T.count, insertLoop_found ins T.holds hindex fun d hd => hindex ▸ hpre d hd]
    rfl

/-- An entry is saved when there is room for it. -/
theorem saveEntry_success (T : Tiled s.info es) {x : Saved} (hx : x.Consistent) (hshort : x.Short)
    (hfind : Findable s.insert es) : (saveEntry env s x).1 = .success ↔
      (roomyTable env s.info (uintn (x.size + sizeofInfo))).isSome := by
  unfold Saved.Short at hshort
  have hsize : uintn (x.size + sizeofInfo) < 2 ^ 32 := by
    have hsum : x.size = x.header.length + x.data.length := by
      rw [hx, uintn_of_lt (by unfold sizeofInfo at hshort; omega)]
    rw [hsum, uintn_of_lt (by unfold sizeofInfo at *; omega)]
    omega
  have hbottom : s.info.tableBottom ≠ 0 := Nat.pos_iff_ne_zero.mp T.nonzero
  unfold saveEntry allocTableEntry
  simp only [hbottom, if_false]
  cases hroomy : roomyTable env s.info (uintn (x.size + sizeofInfo)) with
  | none => simp
  | some info =>
    obtain ⟨T', -⟩ := T.roomy hsize hroomy
    simp only [Option.isSome_some, iff_true]
    cases hplace : (if s.insert.isItInsert then
        insertPositionInBootScript info s.insert (uintn (x.size + sizeofInfo))
      else some (info.tablePtr, info.mem)) with
    | some found => rfl
    | none =>
      exfalso
      cases hins : s.insert.isItInsert with
      | false =>
        rw [hins] at hplace
        exact absurd hplace (by simp)
      | true =>
        rw [hins, if_pos rfl] at hplace
        have := T'.insertPosition_isSome (hfind hins) (uintn (x.size + sizeofInfo))
        rw [hplace] at this
        exact absurd this (by simp)

/-! ## Insertion -/

theorem lastPosition_eq (hpos : 0 < s.info.numTableEntries) (hlt : s.info.numTableEntries < 2 ^ 64) :
    lastPosition s = s.info.numTableEntries - 1 := by
  unfold lastPosition uintn
  rw [show s.info.numTableEntries + 2 ^ 64 - 1 = s.info.numTableEntries - 1 + 2 ^ 64 by omega,
    Nat.add_mod_right, Nat.mod_eq_of_lt (by omega)]

/-- What is noted of a position that denotes an entry: 0 is taken for no position. -/
def insertInfoAt (s : State) (before : Bool) (p : Nat) : InsertInfo :=
  if p = 0 then (if before then ⟨true, true, atBeginning⟩ else ⟨false, false, s.insert.position⟩)
  else ⟨true, before, p⟩

theorem insertInfoFor_eq (h : p < s.info.numTableEntries) :
    insertInfoFor s before (some p) = some (insertInfoAt s before p) := by
  unfold insertInfoFor insertInfoAt
  rw [Option.getD_some]
  by_cases hp : p = 0
  · rw [if_pos hp, if_pos hp]
    cases before <;> rfl
  · rw [if_neg hp, if_neg hp, if_neg (by omega)]

theorem insertInfoAt_findable (hp : ∃ e ∈ es, e.uniqueIndex = p) :
    Findable (insertInfoAt s before p) es := by
  unfold insertInfoAt
  intro hins
  by_cases h0 : p = 0
  · rw [if_pos h0] at hins ⊢
    cases before with
    | true => exact Or.inl rfl
    | false => exact absurd hins (by simp)
  · rw [if_neg h0]
    exact Or.inr hp

/-- The gap for the new entry is the one next to the position, unless that is 0: then it is
an end of the table. -/
theorem next_iff (hp : p < atBeginning)
    (h : Placed (insertInfoAt s before p) pre post) :
    Next before pre post p ↔ p ≠ 0 ∨ AtEdge (pre ++ post) before := by
  unfold Placed insertInfoAt at h
  by_cases h0 : p = 0
  · subst h0
    unfold Next AtEdge
    cases before with
    | true =>
      obtain rfl : pre = [] := by simpa using h
      simp
    | false =>
      obtain rfl : post = [] := by simpa using h
      simp
  · rw [if_neg h0] at h
    simp only [Bool.true_eq_false, if_false, if_neg hp.ne] at h
    exact ⟨fun _ => Or.inl h0, fun _ => h⟩

/-- A new entry is in one place. -/
theorem gap_unique
    (h : pre ++ e :: post = pre' ++ e' :: post') (hsame : pre ++ post = pre' ++ post')
    (hold : ∀ d ∈ pre ++ post, d.uniqueIndex < n) (he : e.uniqueIndex = n) (he' : e'.uniqueIndex = n) :
    pre = pre' ∧ post = post' := by
  have hfirst : ∀ d ∈ pre, ¬ d.uniqueIndex = n := fun d hd =>
    (hold d (List.mem_append_left _ hd)).ne
  have hfirst' : ∀ d ∈ pre', ¬ d.uniqueIndex = n := fun d hd =>
    (hold d (hsame ▸ List.mem_append_left _ hd)).ne
  obtain ⟨hpre, -, hpost⟩ := split_first h he he' hfirst hfirst'
  exact ⟨hpre, hpost⟩

/-- An insertion that is made means what it says if the position is not 0, or denotes the entry
at the end in question; one that fails, if the position is the last one. -/
theorem insertMeans_iff (env : Env) (pad : Mem) (before : Bool) (T : Tiled s.info es)
    (hp : ∃ e ∈ es, e.uniqueIndex = p) (hr : sizeofInfo + r.entrySize < 2 ^ 32)
    (hcount : s.info.numTableEntries < 2 ^ 32) : InsertMeans env pad s es before p r ↔
      (Saves env pad s r → p ≠ 0 ∨ AtEdge es before) ∧
      (¬ Saves env pad s r → p + 1 = s.info.numTableEntries) := by
  have hlt : p < s.info.numTableEntries := by
    obtain ⟨e, he, rfl⟩ := hp
    exact T.index_lt he
  have hbegin : p < atBeginning := by
    unfold atBeginning
    omega
  have hinsert : saveStateInsert env pad s before (some p) r =
      ((saveStateWrite env pad { s with insert := insertInfoAt s before p } r).1,
        some (lastPosition (saveStateWrite env pad { s with insert := insertInfoAt s before p } r).2),
        { (saveStateWrite env pad { s with insert := insertInfoAt s before p } r).2 with
          insert := clearInsertInfo }) := by
    unfold saveStateInsert
    rw [insertInfoFor_eq hlt]
    rfl
  -- a call that fails returns the last position
  have hfail : ∀ {t : State}, Tiled t.info es → (some (lastPosition t) = some p ↔
      p + 1 = s.info.numTableEntries) := by
    intro t Tt
    have hsame : t.info.numTableEntries = s.info.numTableEntries := Tt.count.trans T.count.symm
    rw [lastPosition_eq (by omega) (by omega), hsame, Option.some.injEq]
    omega
  unfold InsertMeans
  rw [hinsert]
  unfold saveStateWrite
  cases hx : opCodeFuncs pad r with
  | error status =>
    have hsaves : ¬ Saves env pad s r := by
      rintro ⟨x, hok, -⟩
      rw [hx] at hok
      exact absurd hok (by simp)
    have hstatus : status ≠ .success := by
      rw [opCodeFuncs_error hx]
      simp
    have := hfail (t := { s with insert := insertInfoAt s before p }) T
    simp only [hstatus, false_implies, ne_eq, not_false_eq_true, true_implies, true_and, this, hsaves]
    exact ⟨fun h => h.2, fun h => ⟨T, h⟩⟩
  | ok x =>
    have hsized := opCodeFuncs_sized hx
    have hshort : x.Short := by
      have := hsized.size
      unfold Saved.Short
      omega
    have hsaves : Saves env pad s r ↔ (saveEntry env { s with insert := insertInfoAt s before p } x).1
        = .success := by
      rw [saveEntry_success (s := { s with insert := insertInfoAt s before p }) T hsized.consistent hshort
        (insertInfoAt_findable hp)]
      constructor
      · rintro ⟨x', hok, hroom⟩
        obtain rfl := Except.ok.inj (hx.symm.trans hok)
        exact hroom
      · exact fun hroom => ⟨x, hx, hroom⟩
    obtain ⟨-, ⟨hstatus, T'⟩ | ⟨hstatus, pre, post, e, rfl, hplaced, hindex, hbody, T'⟩⟩ :=
      saveEntry_cases (s := { s with insert := insertInfoAt s before p }) env T hsized.consistent hshort hcount
    · have hnot : ¬ Saves env pad s r := by
        rw [hsaves, hstatus]
        simp
      have := hfail T'
      simp only [hstatus, reduceCtorEq, false_implies, ne_eq, not_false_eq_true, true_implies, true_and, this,
        hnot]
      exact ⟨fun h => h.2, fun h => ⟨T', h⟩⟩
    · have hdone : Saves env pad s r := hsaves.mpr hstatus
      have hlast : lastPosition (saveEntry env { s with insert := insertInfoAt s before p } x).2
          = s.info.numTableEntries := by
        have hnew := T'.count
        rw [List.length_append, List.length_cons, ← Nat.add_assoc, ← List.length_append, ← T.count] at hnew
        rw [lastPosition_eq (by omega) (by omega), hnew, Nat.add_sub_cancel]
      simp only [hstatus, true_implies, ne_eq, not_true, false_implies, and_true, hdone]
      rw [← next_iff hbegin hplaced]
      constructor
      · rintro ⟨pre', post', e', x', hes, hnext, hT, hpos, -, -⟩
        have hindex' : e'.uniqueIndex = s.info.numTableEntries := by
          rw [hlast] at hpos
          exact (Option.some.inj hpos).symm
        obtain ⟨rfl, rfl⟩ := gap_unique (T'.unique hT) hes (fun d hd => T.index_lt hd) hindex hindex'
        exact hnext
      · intro hnext
        exact ⟨pre, post, e, x, rfl, hnext, T', by rw [hlast, hindex], rfl, hbody⟩

/-! ## Comparison -/

theorem earlier_iff : Earlier es p q ↔ ∃ pre d mid e post,
    es = pre ++ d :: (mid ++ e :: post) ∧ d.uniqueIndex = p ∧ e.uniqueIndex = q := by
  unfold Earlier
  constructor
  · intro h
    obtain ⟨l, hl, hmap⟩ := List.sublist_map_iff.mp h
    obtain ⟨d, e, rfl, rfl, rfl⟩ : ∃ d e, l = [d, e] ∧ p = d.uniqueIndex ∧ q = e.uniqueIndex := by
      match l, hmap with
      | [d, e], hmap =>
        simp only [List.map_cons, List.map_nil, List.cons.injEq, and_true] at hmap
        exact ⟨d, e, rfl, hmap.1, hmap.2⟩
    obtain ⟨r1, r2, rfl, hd, he⟩ := List.cons_sublist_iff.mp hl
    obtain ⟨pre, mid, rfl⟩ := List.append_of_mem hd
    obtain ⟨mid', post, rfl⟩ := List.append_of_mem (List.singleton_sublist.mp he)
    exact ⟨pre, d, mid ++ mid', e, post, by simp, rfl, rfl⟩
  · rintro ⟨pre, d, mid, e, post, rfl, rfl, rfl⟩
    refine List.sublist_map_iff.mpr ⟨[d, e], ?_, rfl⟩
    refine List.Sublist.trans ?_ (List.sublist_append_right _ _)
    exact ((List.singleton_sublist.mpr (by simp)).cons_cons d)

/-- Two entries are the same, or one comes before the other. -/
theorem earlier_total (hp : ∃ e ∈ es, e.uniqueIndex = p) (hq : ∃ e ∈ es, e.uniqueIndex = q) :
    p = q ∨ Earlier es p q ∨ Earlier es q p := by
  obtain ⟨d, hd, rfl⟩ := hp
  obtain ⟨e, he, rfl⟩ := hq
  obtain ⟨pre, post, rfl⟩ := List.append_of_mem hd
  obtain hpre | hpost := List.mem_append.mp he
  · obtain ⟨front, mid, rfl⟩ := List.append_of_mem hpre
    exact Or.inr (Or.inr (earlier_iff.mpr ⟨front, e, mid, d, post, by simp, rfl, rfl⟩))
  · obtain rfl | hpost := List.mem_cons.mp hpost
    · exact Or.inl rfl
    · obtain ⟨mid, back, rfl⟩ := List.append_of_mem hpost
      exact Or.inr (Or.inl (earlier_iff.mpr ⟨pre, d, mid, e, back, rfl, rfl, rfl⟩))

/-- The entry with an index is found where it begins. -/
theorem Tiled.find (T : Tiled info es)
    (hes : es = pre ++ e :: post) (inserting : Bool) :
    insertPositionInBootScript info ⟨inserting, true, e.uniqueIndex⟩ 0 = some (logSize pre, info.mem) := by
  have hmem : e ∈ es := by
    rw [hes]
    simp
  have hbegin : e.uniqueIndex ≠ atBeginning := by
    have := e.index_lt
    unfold atBeginning
    omega
  have hpre : ∀ d ∈ pre, d.uniqueIndex ≠ e.uniqueIndex := by
    have hnodup := T.nodup
    rw [hes, List.map_append, List.map_cons, List.nodup_append] at hnodup
    exact fun d hd => hnodup.2.2 _ (List.mem_map_of_mem hd) _ (List.mem_cons_self ..)
  have hholds := T.holds
  rw [hes] at hholds
  unfold insertPositionInBootScript
  rw [if_pos hbegin, T.count, hes, insertLoop_found ⟨inserting, true, e.uniqueIndex⟩ hholds rfl hpre]
  simp

/-- The verdict is that on the places of the entries. -/
theorem Tiled.compare (T : Tiled s.info es) {d : Entry}
    (hd : es = pre ++ d :: post) (he : es = pre' ++ e :: post') :
    (saveStateCompare s d.uniqueIndex e.uniqueIndex).1 = .success ∧
      (saveStateCompare s d.uniqueIndex e.uniqueIndex).2.1 = some (if logSize pre = logSize pre' then 0
        else if logSize pre < logSize pre' then -1 else 1) := by
  have hdmem : d ∈ es := by
    rw [hd]
    simp
  have hemem : e ∈ es := by
    rw [he]
    simp
  have h1 := T.index_lt hdmem
  have h2 := T.index_lt hemem
  unfold saveStateCompare
  rw [if_neg (by omega)]
  simp only [T.find hd, T.find he]
  exact ⟨trivial, trivial⟩

theorem logSize_lt (pre mid : List Entry) (d : Entry) : logSize pre < logSize (pre ++ d :: mid) := by
  rw [logSize_append, logSize_cons]
  have hpos := d.bytes_pos
  rw [Entry.bytes_length] at hpos
  omega

/-! ## The order of execution -/

@[simp] theorem Exec.serviceWrite_walk (x : Exec) (mmio : Bool) (width address count buffer : Nat) :
    (x.serviceWrite mmio width address count buffer).walk = x.walk := by
  unfold Exec.serviceWrite
  split <;> rfl

@[simp] theorem Exec.read_walk (pf : Platform) (x : Exec) (space : Space) (width address : Nat) :
    (x.read pf space width address).walk = x.walk := by
  unfold Exec.read
  split <;> rfl

@[simp] theorem Exec.write_walk (x : Exec) (space : Space) (width address : Nat) :
    (x.write space width address).walk = x.walk := by
  unfold Exec.write
  split <;> rfl

@[simp] theorem Exec.readWrite_walk (pf : Platform) (x : Exec) (space : Space)
    (width address value mask : Nat) : (x.readWrite pf space width address value mask).walk = x.walk := by
  unfold Exec.readWrite
  simp

theorem Exec.pciWrite_walk {x x' : Exec} {addressCount count buffer : Nat}
    (h : x.pciWrite space width addressCount address count buffer = some x') : x'.walk = x.walk := by
  unfold Exec.pciWrite at h
  split at h
  · exact absurd h (by simp)
  · obtain rfl := Option.some.inj h
    rfl

theorem pollLoop_walk {pf : Platform} {mask result : Nat} {stall : Option Nat} :
    ∀ {polls pollDelay : Nat} {x x' : Exec},
      pollLoop pf space width address mask result stall polls pollDelay x = some x' → x'.walk = x.walk
  | 0, _, _, _, h => absurd h (by simp [pollLoop])
  | polls + 1, pollDelay, x, x', h => by
    unfold pollLoop at h
    cases stall with
    | none =>
      simp only at h
      split at h
      · obtain rfl := Option.some.inj h
        simp
      · rw [pollLoop_walk h]
        simp
    | some t =>
      simp only at h
      split at h
      · obtain rfl := Option.some.inj h
        simp
      · split at h
        · obtain rfl := Option.some.inj h
          simp
        · rw [pollLoop_walk h]
          simp

/-- An entry does not touch the walk, and the next one is behind it. -/
def Outcome.Follows (o : Outcome) (p : Nat) (x : Exec) : Prop :=
  match o with
  | .next p' x' => p < p' ∧ x'.walk = x.walk
  | .stop _ x' => x'.walk = x.walk

section

variable {pf : Platform} {polls : Nat} {x : Exec} {o : Outcome}

theorem Outcome.follows_next {next : Nat} {x' : Exec} (h : some (Outcome.next next x') = some o)
    (hnext : p < next) (hwalk : x'.walk = x.walk) : o.Follows p x := by
  obtain rfl := Option.some.inj h
  exact ⟨hnext, hwalk⟩

theorem Outcome.follows_map {next : Nat} {f : Option Exec} (h : f.map (Outcome.next next) = some o)
    (hnext : p < next) (hwalk : ∀ x', f = some x' → x'.walk = x.walk) : o.Follows p x := by
  obtain ⟨x', hx', rfl⟩ := Option.map_eq_some_iff.mp h
  exact ⟨hnext, hwalk x' hx'⟩

theorem executeEntry_follows (h : executeEntry pf polls x p = some o) : o.Follows p x := by
  unfold executeEntry at h
  extract_lets type width port field pci at h
  -- the PCI PPI of a segment may not be there
  have hpci : ∀ {segment next}, pci segment next = some o → (∀ space, next space = some o → o.Follows p x) →
      o.Follows p x := by
    intro segment next h hnext
    dsimp only [pci] at h
    generalize pf.pciCfgPpi segment = space at h
    cases space with
    | none =>
      obtain rfl := Option.some.inj h
      rfl
    | some space => exact hnext space h
  split at h
  next => exact Outcome.follows_next h (by omega) (by simp)
  next => exact Outcome.follows_next h (by omega) (by simp)
  next => exact Outcome.follows_map h (by omega) fun _ => pollLoop_walk
  next => exact Outcome.follows_map h (by omega) fun _ => pollLoop_walk
  next => exact Outcome.follows_next h (by omega) (by simp)
  next => exact Outcome.follows_next h (by omega) (by simp)
  next => exact Outcome.follows_map h (by omega) fun _ => pollLoop_walk
  next => exact Outcome.follows_map h (by omega) fun _ => pollLoop_walk
  next => exact hpci h fun _ h => Outcome.follows_map h (by omega) fun _ => Exec.pciWrite_walk
  next => exact Outcome.follows_map h (by omega) fun _ => Exec.pciWrite_walk
  next => exact hpci h fun _ h => Outcome.follows_next h (by omega) (by simp)
  next => exact Outcome.follows_next h (by omega) (by simp)
  next => exact hpci h fun _ h => Outcome.follows_map h (by omega) fun _ => pollLoop_walk
  next => exact Outcome.follows_map h (by omega) fun _ => pollLoop_walk
  next => exact Outcome.follows_map h (by omega) fun _ => pollLoop_walk
  next => exact Outcome.follows_next h (by omega) rfl
  next => exact Outcome.follows_next h (by omega) rfl
  next => exact Outcome.follows_next h (by omega) rfl
  next => exact Outcome.follows_next h (by omega) rfl
  next => exact Outcome.follows_next h (by omega) rfl
  next => exact Outcome.follows_next h (by omega) rfl
  next =>
    obtain rfl := Option.some.inj h
    rfl
  next =>
    obtain rfl := Option.some.inj h
    rfl

/-- Entries are looked for at ascending places. -/
theorem executeLoop_ascending {status : Status} : ∀ {fuel p : Nat} {x x' : Exec},
    executeLoop pf polls fuel p x = some (status, x') →
    ∃ tail, x'.walk = x.walk ++ tail ∧ tail.Pairwise (· < ·) ∧ ∀ a ∈ tail, p ≤ a
  | 0, _, _, _, h => absurd h (by simp [executeLoop])
  | fuel + 1, p, x, x', h => by
    unfold executeLoop at h
    simp only at h
    cases ho : executeEntry pf polls { x with walk := x.walk ++ [p] } (p + sizeofInfo) with
    | none =>
      rw [ho] at h
      exact absurd h (by simp)
    | some o =>
      rw [ho] at h
      have hfollows := executeEntry_follows ho
      cases o with
      | stop st y =>
        obtain ⟨-, rfl⟩ := Prod.mk.inj (Option.some.inj h)
        exact ⟨[p], hfollows, List.pairwise_singleton _ _, by simp⟩
      | next q y =>
        obtain ⟨hlt, hwalk⟩ := hfollows
        obtain ⟨tail, hx', hsorted, hge⟩ := executeLoop_ascending h
        have hbehind : ∀ a ∈ tail, p < a := fun a ha => by
          have := hge a ha
          omega
        refine ⟨p :: tail, ?_, List.pairwise_cons.mpr ⟨hbehind, hsorted⟩, ?_⟩
        · rw [hx', hwalk]
          simp
        · intro a ha
          obtain rfl | ha := List.mem_cons.mp ha
          · exact le_rfl
          · exact (hbehind a ha).le

end

/-- Of an ascending list two elements are in their order. -/
theorem pair_sublist {b : Nat} : ∀ {l : List Nat}, l.Pairwise (· < ·) → a ∈ l → b ∈ l → a < b →
    [a, b].Sublist l
  | [], _, ha, _, _ => absurd ha List.not_mem_nil
  | c :: l, hl, ha, hb, hlt => by
    obtain ⟨hc, hl⟩ := List.pairwise_cons.mp hl
    obtain rfl | ha' := List.mem_cons.mp ha
    · obtain rfl | hb' := List.mem_cons.mp hb
      · omega
      · exact (List.singleton_sublist.mpr hb').cons_cons a
    · obtain rfl | hb' := List.mem_cons.mp hb
      · have := hc a ha'
        omega
      · exact (pair_sublist hl ha' hb' hlt).cons c

theorem Tiled.place_eq (T : Tiled info es)
    (hes : es = pre ++ e :: post) (ha : (a, e') ∈ Lib.place Entry.bytes 0 es)
    (hindex : e'.uniqueIndex = e.uniqueIndex) : a = logSize pre := by
  obtain ⟨pre', post', hes', rfl⟩ := place_split ha
  have hfirst : ∀ {pre post : List Entry} {d : Entry}, es = pre ++ d :: post →
      ∀ c ∈ pre, ¬ c.uniqueIndex = d.uniqueIndex := by
    intro pre post d h
    have hnodup := T.nodup
    rw [h, List.map_append, List.map_cons, List.nodup_append] at hnodup
    exact fun c hc => hnodup.2.2 _ (List.mem_map_of_mem hc) _ (List.mem_cons_self ..)
  obtain ⟨rfl, -, -⟩ := split_first (P := fun c : Entry => c.uniqueIndex = e.uniqueIndex)
    (hes'.symm.trans hes) hindex rfl (fun c hc => hindex ▸ hfirst hes' c hc) (hfirst hes)
  exact Nat.zero_add _

/-- Comparing positions that denote entries. -/
theorem Tiled.compareMeans (T : Tiled s.info es) (hp : ∃ e ∈ es, e.uniqueIndex = p)
    (hq : ∃ e ∈ es, e.uniqueIndex = q) : CompareMeans s es p q := by
  refine ⟨?_, ?_, ?_, earlier_total hp hq, ?_⟩
  · rintro rfl
    obtain ⟨e, he, rfl⟩ := hp
    obtain ⟨pre, post, hes⟩ := List.append_of_mem he
    have := T.compare hes hes
    rwa [if_pos rfl] at this
  · intro h
    obtain ⟨pre, d, mid, e, post, hes, rfl, rfl⟩ := earlier_iff.mp h
    have hlt := logSize_lt pre mid d
    have := T.compare hes (show es = (pre ++ d :: mid) ++ e :: post by rw [hes]; simp)
    rwa [if_neg hlt.ne, if_pos hlt] at this
  · intro h
    obtain ⟨pre, d, mid, e, post, hes, rfl, rfl⟩ := earlier_iff.mp h
    have hlt := logSize_lt pre mid d
    have := T.compare (show es = (pre ++ d :: mid) ++ e :: post by rw [hes]; simp) hes
    rwa [if_neg hlt.ne', if_neg hlt.not_gt] at this
  · intro h pf polls fuel value status x hrun a b d e ha hb hd he haw hbw
    obtain ⟨pre, d', mid, e', post, hes, rfl, rfl⟩ := earlier_iff.mp h
    obtain rfl := T.place_eq hes ha hd
    obtain rfl := T.place_eq (show es = (pre ++ d' :: mid) ++ e' :: post by rw [hes]; simp) hb he
    obtain ⟨tail, hwalk, hsorted, -⟩ := executeLoop_ascending hrun
    rw [hwalk, List.nil_append] at haw hbw ⊢
    exact pair_sublist hsorted haw hbw (logSize_lt pre mid d')

/-! ## Positions that have been returned -/

/-- The entry that a saver has put into the table has the last position. -/
theorem saveEntry_returned (env : Env) (T : Tiled s.info es) {x : Saved} (hx : Sized x n)
    (hn : sizeofInfo + n < 2 ^ 32) (hcount : s.info.numTableEntries < 2 ^ 32)
    (h : (saveEntry env s x).1 = .success) : ∃ es' e, Tiled (saveEntry env s x).2.info es' ∧ e ∈ es' ∧
      e.uniqueIndex = lastPosition (saveEntry env s x).2 := by
  have hshort : x.Short := by
    have := hx.size
    unfold Saved.Short
    omega
  obtain ⟨-, ⟨hstatus, -⟩ | ⟨-, pre, post, e, rfl, -, hindex, -, T'⟩⟩ :=
    saveEntry_cases env T hx.consistent hshort hcount
  · exact absurd (hstatus.symm.trans h) (by simp)
  · refine ⟨_, e, T', by simp, ?_⟩
    have hnew := T'.count
    rw [List.length_append, List.length_cons, ← Nat.add_assoc, ← List.length_append, ← T.count] at hnew
    rw [lastPosition_eq (by omega) (by omega), hnew, hindex, Nat.add_sub_cancel]

/-- The search finds an entry, or nothing: the terminator is no label. -/
theorem labelLoop_mem {label : Mem} {size index : Nat} : ∀ {es : List Entry} {p : Nat},
    Holds m p (layout Entry.bytes es) → Holds m (p + logSize es + sizeofInfo) (leBytes 2 tableEndOpCode) →
    labelLoop m label size (es.length + 1) p = some index → ∃ e ∈ es, e.uniqueIndex = index
  | [], p, _, hend, h => by
    have htype : rd m 2 (p + sizeofInfo) = tableEndOpCode := hend.rd_eq_of_lt (by decide)
    unfold labelLoop at h
    rw [htype, if_neg (by unfold tableEndOpCode; omega)] at h
    exact absurd h (by simp [labelLoop])
  | e :: es, p, hm, hend, h => by
    rw [layout_cons, holds_append] at hm
    rw [List.length_cons, labelLoop] at h
    split at h
    next =>
      refine ⟨e, by simp, ?_⟩
      rw [uniqueIndexAt_eq hm.1] at h
      exact Option.some.inj h
    next =>
      rw [lengthAt_eq hm.1] at h
      rw [Entry.bytes_length] at hm
      rw [logSize_cons, ← Nat.add_assoc] at hend
      obtain ⟨e', he', hindex⟩ := labelLoop_mem hm.2 hend h
      exact ⟨e', List.mem_cons_of_mem _ he', hindex⟩

theorem saveStateInsert_returned (T : Tiled s.info es)
    (hr : sizeofInfo + r.entrySize < 2 ^ 32) (hcount : s.info.numTableEntries < 2 ^ 32)
    (h : (saveStateInsert env pad s b pos r).1 = .success)
    (hp : (saveStateInsert env pad s b pos r).2.1 = some p) :
    ∃ es' e, Tiled (saveStateInsert env pad s b pos r).2.2.info es' ∧ e ∈ es' ∧ e.uniqueIndex = p := by
  unfold saveStateInsert at h hp ⊢
  cases hins : insertInfoFor s b pos with
  | none =>
    rw [hins] at h
    exact absurd h (by simp)
  | some ins =>
    rw [hins] at h hp
    simp only at h hp ⊢
    obtain ⟨-, -, rfl⟩ := Option.map_eq_some_iff.mp hp
    unfold saveStateWrite at h ⊢
    cases hx : opCodeFuncs pad r with
    | error status =>
      rw [hx] at h
      rw [opCodeFuncs_error hx] at h
      exact absurd h (by simp)
    | ok x =>
      rw [hx] at h
      exact saveEntry_returned (s := { s with insert := ins }) env T (opCodeFuncs_sized hx) hr hcount h

theorem saveStateLabel_returned {c : Bool} {l : Option Mem} (T : Tiled s.info es)
    (hcount : s.info.numTableEntries < 2 ^ 32) (hsearch : (Call.label pad b c pos l).Searches s)
    (h : (saveStateLabel env pad s b c pos l).1 = .success)
    (hp : (saveStateLabel env pad s b c pos l).2.1 = some p) :
    ∃ es' e, Tiled (saveStateLabel env pad s b c pos l).2.2.info es' ∧ e ∈ es' ∧ e.uniqueIndex = p := by
  cases l with
  | none => exact absurd h (by simp [saveStateLabel])
  | some label =>
    have hsize : labelSize label ≤ labelMaxSize + 1 := by
      have := labelSizeLoop_le label (labelMaxSize + 1) 0
      rwa [Nat.zero_add] at this
    unfold saveStateLabel at h hp ⊢
    simp only at h hp ⊢
    split at h
    next => exact absurd h (by simp)
    next hlabel =>
      rw [if_neg hlabel] at hp ⊢
      cases hfound : labelLoop s.info.mem label (labelSize label) (s.info.numTableEntries + 1) 0 with
      | some index =>
        rw [hfound] at h hp
        simp only at h hp ⊢
        split at h
        next hpos =>
          rw [if_pos hpos] at hp ⊢
          obtain rfl := Option.some.inj hp
          have hne : es ≠ [] := by
            rintro rfl
            have hzero : s.info.numTableEntries = 0 := T.count
            rw [hzero] at hfound
            exact absurd ((hsearch hzero).symm.trans hfound) (by simp)
          have hend : Holds s.info.mem (0 + logSize es + sizeofInfo) (leBytes 2 tableEndOpCode) := by
            rw [Nat.zero_add, ← T.ptr]
            exact T.terminated hne
          rw [T.count] at hfound
          obtain ⟨e, he, hindex⟩ := labelLoop_mem T.holds hend hfound
          exact ⟨es, e, T, he, hindex⟩
        next => exact absurd h (by simp)
      | none =>
        rw [hfound] at h hp
        simp only at h hp ⊢
        split at h
        next => exact absurd h (by simp)
        next hcreate =>
          rw [if_neg hcreate] at hp ⊢
          split at h
          next => exact absurd h (by simp)
          next hvalid =>
            rw [if_neg hvalid] at hp ⊢
            cases hins : insertInfoFor s b pos with
            | none =>
              rw [hins] at h
              exact absurd h (by simp)
            | some ins =>
              rw [hins] at h hp
              simp only at h hp ⊢
              have hdone : (saveEntry env { s with insert := ins } (labelEntry pad label (labelSize label))).1
                  = .success := by
                by_contra hne
                rw [if_neg hne] at h
                exact hne h
              rw [if_pos hdone] at hp ⊢
              obtain ⟨-, -, rfl⟩ := Option.map_eq_some_iff.mp hp
              have hshort : sizeofInfo + (8 + labelSize label) < 2 ^ 32 := by
                unfold sizeofInfo labelMaxSize at *
                omega
              exact saveEntry_returned (s := { s with insert := ins }) env T (labelEntry_sized pad label _) hshort
                hcount hdone

/-- In every state of a run each position that has been returned denotes an entry. -/
theorem Reached.denotes {ps : List Nat} (h : Reached s ps) :
    ∃ es, Tiled s.info es ∧ ∀ p ∈ ps, ∃ e ∈ es, e.uniqueIndex = p := by
  induction h with
  | new h => exact ⟨[], newTable_tiled h, by simp⟩
  | @step t ps _ env c hshort hcount hsearch ih =>
    obtain ⟨es, T, hold⟩ := ih
    obtain ⟨es', T', hsub⟩ := ShortStep.keeps T ⟨env, c, hshort, hcount, rfl⟩
    refine ⟨es', T', fun p hp => ?_⟩
    obtain hnew | hp := List.mem_append.mp hp
    · -- the position that the call has returned
      have hreturned : ∃ es'' e, Tiled (t.call env c).info es'' ∧ e ∈ es'' ∧ e.uniqueIndex = p := by
        cases c with
        | insert pad b pos r =>
          simp only [State.returned] at hnew
          split at hnew
          next hok => exact saveStateInsert_returned T hshort hcount hok (Option.mem_toList.mp hnew)
          next => exact absurd hnew (by simp)
        | label pad b create pos l =>
          simp only [State.returned] at hnew
          split at hnew
          next hok => exact saveStateLabel_returned T hcount hsearch hok (Option.mem_toList.mp hnew)
          next => exact absurd hnew (by simp)
        | write | compare | close => exact absurd hnew (by simp [State.returned])
      obtain ⟨es'', e, T'', he, hindex⟩ := hreturned
      exact ⟨e, T''.unique T' ▸ he, hindex⟩
    · obtain ⟨e, he, hindex⟩ := hold p hp
      exact ⟨e, hsub.subset he, hindex⟩

/-- In every state of a run, each position that has been returned denotes an entry, and
comparing two of them tells their order. An insertion at one of them that is made is where it
should be if the position is not 0, or denotes the entry at the end in question; one that
fails leaves the position alone if that is the last one. -/
theorem positions_mean {ps : List Nat} (h : Reached s ps) : ∃ es, Tiled s.info es ∧
    (∀ p ∈ ps, ∃ e ∈ es, e.uniqueIndex = p) ∧ (∀ p ∈ ps, ∀ q ∈ ps, CompareMeans s es p q) ∧
    (∀ p ∈ ps, ∀ env pad before r, sizeofInfo + r.entrySize < 2 ^ 32 → s.info.numTableEntries < 2 ^ 32 →
      (InsertMeans env pad s es before p r ↔ (Saves env pad s r → p ≠ 0 ∨ AtEdge es before) ∧
        (¬ Saves env pad s r → p + 1 = s.info.numTableEntries))) := by
  obtain ⟨es, T, hdenotes⟩ := h.denotes
  refine ⟨es, T, hdenotes, fun p hp q hq => T.compareMeans (hdenotes p hp) (hdenotes q hq), ?_⟩
  intro p hp env pad before r hr hcount
  exact insertMeans_iff env pad before T (hdenotes p hp) hr hcount

/-- A first entry, at a position that is returned, and a second one. -/
def firstCall : Call := .insert (fun _ => 0) false (some 0) (.stall 1)
def firstState : State := zeroState.call zeroEnv firstCall
def secondState : State := firstState.call zeroEnv (stallCall 2)

theorem zeroState_reached : Reached zeroState [] := Reached.new (show newTable zeroEnv = some zeroState.info from rfl)

theorem secondState_reached : Reached secondState [0] := by
  have hfirst := zeroState_reached.step zeroEnv firstCall (show sizeofInfo + 16 < 2 ^ 32 by decide) (by decide)
    trivial
  have hreturned : zeroState.returned zeroEnv firstCall = some 0 := by decide +kernel
  rw [hreturned] at hfirst
  have hcount : firstState.info.numTableEntries < 2 ^ 32 := by decide +kernel
  exact hfirst.step zeroEnv (stallCall 2) (show sizeofInfo + 16 < 2 ^ 32 by decide) hcount trivial

theorem positions_mean_second : ∃ es, Tiled secondState.info es ∧
    (∀ p ∈ [0], ∃ e ∈ es, e.uniqueIndex = p) ∧ (∀ p ∈ [0], ∀ q ∈ [0], CompareMeans secondState es p q) ∧
    (∀ p ∈ [0], ∀ env pad before r, sizeofInfo + r.entrySize < 2 ^ 32 →
      secondState.info.numTableEntries < 2 ^ 32 →
      (InsertMeans env pad secondState es before p r ↔ (Saves env pad secondState r → p ≠ 0 ∨ AtEdge es before) ∧
        (¬ Saves env pad secondState r → p + 1 = secondState.info.numTableEntries))) :=
  positions_mean secondState_reached

/-- Behind the first of two entries means behind the second one. -/
theorem not_positions_mean : ¬ ∀ s ps, Reached s ps → ∃ es, Tiled s.info es ∧
    ∀ p ∈ ps, ∀ env pad before r, sizeofInfo + r.entrySize < 2 ^ 32 → s.info.numTableEntries < 2 ^ 32 →
      InsertMeans env pad s es before p r := by
  intro h
  obtain ⟨es, T, hmeans⟩ := h secondState [0] secondState_reached
  have hcount : secondState.info.numTableEntries = 2 := by decide +kernel
  have hlen : es.length = 2 := T.count.symm.trans hcount
  obtain ⟨d, e, rfl⟩ := List.length_eq_two.mp hlen
  have hzero : d.uniqueIndex = 0 := by
    have hindex : uniqueIndexAt secondState.info.mem 0 = 0 := by decide +kernel
    have hholds := T.holds
    rw [layout_cons, holds_append] at hholds
    exact (uniqueIndexAt_eq hholds.1).symm.trans hindex
  have hsaves : Saves zeroEnv (fun _ => 0) secondState (.stall 3) :=
    ⟨fixedEntry (typeStruct (fun _ => 0) 0x07 [3]), rfl, by decide +kernel⟩
  have hmean := hmeans 0 (by simp) zeroEnv (fun _ => 0) false (.stall 3) (by decide) (by rw [hcount]; decide)
  rw [insertMeans_iff zeroEnv (fun _ => 0) false T ⟨d, by simp, hzero⟩ (by decide) (by rw [hcount]; decide)]
    at hmean
  obtain ⟨c, hc, hlast⟩ := (hmean.1 hsaves).resolve_left (by simp)
  -- the last entry is not the one at 0
  obtain rfl : e = c := by simpa using hc
  have hnodup := T.nodup
  rw [List.map_cons, List.map_cons, hzero, hlast] at hnodup
  exact absurd hnodup (by simp)

end

end BayTrail.BootScript
