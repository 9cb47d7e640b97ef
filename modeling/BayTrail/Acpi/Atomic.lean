import BayTrail.Acpi.Database
import Mathlib.Data.Multiset.ZeroCons

/-!
# Calls of SetAcpiTable that fail

The function appends the new table before it looks at the handle, and takes a table off before
it has what it needs to put the rest of it back. A call that fails has changed nothing only if
it fails in front of all that.
-/

namespace BayTrail.Acpi

/-! ## What a failure is to leave -/

/-- The same tables, with their handles and versions, and the same `AcpiLength`. -/
def Same (a b : Db) : Prop := a.entries.Perm b.entries ∧ a.acpiLength = b.acpiLength

/-- The first table with the handle, and those around it. -/
structure Located (entries : List Item) (handle : Nat) (front : List Item) (e : Item)
    (back : List Item) : Prop where
  split : entries = front ++ e :: back
  first : ∀ e' ∈ front, e'.header ≠ handle
  header : e.header = handle

/-- The entry that is put back for what is left of the table. -/
def leftOver (env : Env) (version : Nat) (e : Item) : List Item :=
  if multyVer version e ≠ 0 ∧ env.appends = true then [{ e with version := multyVer version e }] else []

/-- The end of the function finds what it needs. -/
def Ends (env : Env) (correctFacp : Bool) (entries : List Item) : Prop :=
  (correctFacp = true → updateFacp env.forceAcpi1 entries = true) ∧
  (env.published = true → env.publishes = true)

/-- Once the table is taken off nothing fails. -/
structure Removes (env : Env) (correctFacp : Bool) (version : Nat) (e : Item) (front back : List Item) :
    Prop where
  item : multyVer version e ≠ 0 → env.itemAllocates = true ∧ env.notifies = true
  ends : Ends env correctFacp (front ++ back ++ leftOver env version e)

/-- No version at all is removed: the table is put back as it was, and its length as well. -/
structure PutBack (env : Env) (version : Nat) (e : Item) (back : List Item) : Prop where
  none : version = 0
  multy : multyVer version e ≠ 0
  item : env.itemAllocates = true
  appends : env.appends = true
  length : if env.notifies then ∀ next ∈ back.head?, next.table.length % 2 ^ 32 = e.table.length % 2 ^ 32
    else e.table.length % 2 ^ 32 = 0

/-- The call fails before it changes anything, or it does not fail. -/
def Unbroken (env : Env) (req : Request) (db : Db) : Prop :=
  match req.table with
  | none => req.handle ≠ 0 → ∀ front e back, Located db.entries req.handle front e back →
      refuses false req.version e = false →
      Removes env false req.version e front back ∨ PutBack env req.version e back
  | some table => ∀ handle correctFacp,
      resolve db.entries table req.version req.handle = some (handle, correctFacp) → env.allocates = true →
      let new : Item := ⟨req.version, env.address, table⟩
      let entries := db.entries ++ [new]
      if handle = 0 then Ends env correctFacp entries
      else (∃ e ∈ entries, e.header = handle) ∧ ∀ front e back, Located entries handle front e back →
        e = new ∨ refuses true req.version e = false ∧ Removes env correctFacp req.version e front back

/-! ## Lists with one element more, or another one -/

section

variable {env : Env} {req : Request} {db : Db} {e : Item} {front back entries old : List Item}
  {version handle handle' : Nat} {table : Table} {correctFacp : Bool}

theorem perm_middle_iff {a : Item} : (front ++ e :: back).Perm (front ++ a :: back) ↔ e = a := by
  constructor
  · intro h
    have hperm : (e :: (front ++ back)).Perm (a :: (front ++ back)) :=
      List.perm_middle.symm.trans (h.trans List.perm_middle)
    have := Multiset.coe_eq_coe.mpr hperm
    rw [← Multiset.cons_coe, ← Multiset.cons_coe, Multiset.cons_inj_left] at this
    exact this
  · rintro rfl
    exact List.Perm.refl _

/-- Without one of them the tables are the old ones if it is the new one. -/
theorem perm_old_iff {new : Item} (h : old ++ [new] = front ++ e :: back) :
    (front ++ back).Perm old ↔ e = new := by
  have hperm : (new :: old).Perm (e :: (front ++ back)) := by
    refine (List.perm_append_singleton _ _).symm.trans ?_
    rw [h]
    exact List.perm_middle
  constructor
  · intro hold
    have := Multiset.coe_eq_coe.mpr (hperm.trans (hold.cons e))
    rw [← Multiset.cons_coe, ← Multiset.cons_coe, Multiset.cons_inj_left] at this
    exact this.symm
  · rintro rfl
    exact hperm.symm.cons_inv

theorem not_perm_of_length {a b : List Item} (h : a.length ≠ b.length) : ¬ a.Perm b :=
  fun hperm => h hperm.length_eq

/-! ## Removing a table -/

theorem located_or (entries : List Item) (handle : Nat) :
    (∃ front e back, Located entries handle front e back) ∨ ∀ e ∈ entries, e.header ≠ handle := by
  induction entries with
  | nil => exact Or.inr (by simp)
  | cons a rest ih =>
    by_cases ha : a.header = handle
    · exact Or.inl ⟨[], a, rest, rfl, by simp, ha⟩
    · obtain ⟨front, e, back, h⟩ | hnone := ih
      · refine Or.inl ⟨a :: front, e, back, by rw [h.split]; rfl, ?_, h.header⟩
        intro e' he'
        obtain rfl | he' := List.mem_cons.mp he'
        · exact ha
        · exact h.first e' he'
      · exact Or.inr (List.forall_mem_cons.mpr ⟨ha, hnone⟩)

/-- The versions that are left are those that were there if no version is removed. -/
theorem multyVer_eq (h : multyVer version e ≠ 0) : version ≠ e.version ∧
    (multyVer version e = e.version ↔ version = 0) := by
  have hboth : version ≠ e.version ∧ version ≠ tableNotRemovable := by
    by_contra hnot
    exact h (if_neg hnot)
  refine ⟨hboth.1, ?_⟩
  rw [multyVer, if_pos hboth]
  constructor
  · intro heq
    have : e.version ^^^ (e.version ^^^ version) = 0 := by rw [heq, Nat.xor_self]
    rwa [← Nat.xor_assoc, Nat.xor_self, Nat.zero_xor] at this
  · rintro rfl
    exact Nat.xor_zero _

/-- What is taken off and put on again. -/
theorem length_same {len a b : Nat} (hlen : len < 2 ^ 32) :
    ((len + 2 ^ 32 - a % 2 ^ 32) % 2 ^ 32 + b) % 2 ^ 32 = len ↔ b % 2 ^ 32 = a % 2 ^ 32 := by
  omega

/-- `AcpiLength` without the table. -/
def lengthWithout (version : Nat) (e : Item) (acpiLength : Nat) : Nat :=
  if version ≠ versionNone then (acpiLength + 2 ^ 32 - e.table.length % 2 ^ 32) % 2 ^ 32 else acpiLength

/-- `AcpiLength` with what is taken for the length of the table that is put back. -/
def lengthWith (env : Env) (version : Nat) (e : Item) (front back : List Item) (acpiLength : Nat) : Nat :=
  (lengthWithout version e acpiLength
    + (((front ++ back ++ leftOver env version e)[front.length]?.map (·.table.length)).getD env.behind))
  % 2 ^ 32

/-- The ways in which a removal that is not refused goes. -/
inductive Removal (env : Env) (version : Nat) (e : Item) (front back : List Item) (db : Db) :
    Bool × Db → Prop
  | whole (h : multyVer version e = 0) :
      Removal env version e front back db (true, ⟨front ++ back, lengthWithout version e db.acpiLength⟩)
  | noItem (h : multyVer version e ≠ 0) (hitem : env.itemAllocates = false) :
      Removal env version e front back db (false, ⟨front ++ back, lengthWithout version e db.acpiLength⟩)
  | notNotified (h : multyVer version e ≠ 0) (hitem : env.itemAllocates = true) (hnotifies : env.notifies = false) :
      Removal env version e front back db
        (false, ⟨front ++ back ++ leftOver env version e, lengthWithout version e db.acpiLength⟩)
  | part (h : multyVer version e ≠ 0) (hitem : env.itemAllocates = true) (hnotifies : env.notifies = true) :
      Removal env version e front back db
        (true, ⟨front ++ back ++ leftOver env version e, lengthWith env version e front back db.acpiLength⟩)

theorem removeTable_removal (h : Located db.entries handle front e back) {adding : Bool}
    (hrefuses : refuses adding version e = false) :
    Removal env version e front back db (removeTable env adding version handle db) := by
  rw [removeTable_eq h.split h.first h.header adding, hrefuses, if_neg Bool.false_ne_true]
  dsimp only
  by_cases hmulty : multyVer version e = 0
  · rw [if_pos hmulty]
    exact .whole hmulty
  · rw [if_neg hmulty]
    have hleft : (if env.appends then front ++ back ++ [{ e with version := multyVer version e }]
        else front ++ back) = front ++ back ++ leftOver env version e := by
      unfold leftOver
      cases env.appends <;> simp [hmulty]
    rw [hleft]
    cases hitem : env.itemAllocates with
    | false => exact .noItem hmulty hitem
    | true =>
      cases hnotifies : env.notifies with
      | false => exact .notNotified hmulty hitem hnotifies
      | true => exact .part hmulty hitem hnotifies

theorem leftOver_whole (h : multyVer version e = 0) : leftOver env version e = [] :=
  if_neg fun hboth => hboth.1 h

theorem finish_iff (length : Nat) : finish env correctFacp ⟨entries, length⟩ = true ↔ Ends env correctFacp entries := by
  unfold finish Ends
  cases correctFacp <;> cases env.published <;> cases updateFacp env.forceAcpi1 entries <;> simp

theorem removes_whole (h : multyVer version e = 0) :
    Removes env correctFacp version e front back ↔ Ends env correctFacp (front ++ back) := by
  have hnil := @leftOver_whole env e version h
  constructor
  · intro hr
    have hends := hr.ends
    rwa [hnil, List.append_nil] at hends
  · intro hends
    exact ⟨fun hne => absurd h hne, by rwa [hnil, List.append_nil]⟩

theorem removes_part (hitem : env.itemAllocates = true) (hnotifies : env.notifies = true) :
    Removes env correctFacp version e front back ↔
      Ends env correctFacp (front ++ back ++ leftOver env version e) :=
  ⟨fun hr => hr.ends, fun hends => ⟨fun _ => ⟨hitem, hnotifies⟩, hends⟩⟩

theorem not_removes (h : multyVer version e ≠ 0) (hfails : env.itemAllocates = false ∨ env.notifies = false) :
    ¬ Removes env correctFacp version e front back := by
  intro hr
  obtain ⟨hitem, hnotifies⟩ := hr.item h
  rw [hitem, hnotifies] at hfails
  simp at hfails

/-- The first table with the handle is one table. -/
theorem Located.unique {front' back' : List Item} {e' : Item} (h : Located entries handle front e back)
    (h' : Located entries handle front' e' back') : front = front' ∧ e = e' ∧ back = back' := by
  obtain ⟨rfl, hfirst, hheader⟩ := h
  obtain ⟨hsplit, hfirst', hheader'⟩ := h'
  induction front generalizing front' with
  | nil =>
    cases front' with
    | nil =>
      obtain ⟨rfl, rfl⟩ := List.cons.inj hsplit
      exact ⟨rfl, rfl, rfl⟩
    | cons a front' =>
      obtain ⟨rfl, -⟩ := List.cons.inj hsplit
      exact absurd hheader (hfirst' _ List.mem_cons_self)
  | cons a front ih =>
    cases front' with
    | nil =>
      obtain ⟨rfl, -⟩ := List.cons.inj hsplit
      exact absurd hheader' (hfirst _ List.mem_cons_self)
    | cons a' front' =>
      obtain ⟨rfl, htail⟩ := List.cons.inj hsplit
      obtain ⟨rfl, hrest⟩ := ih (fun x hx => hfirst x (List.mem_cons_of_mem _ hx)) htail
        fun x hx => hfirst' x (List.mem_cons_of_mem _ hx)
      exact ⟨rfl, hrest⟩

/-! ## Calls without a table -/

/-- The tables are those that were there if the one that is put back has all its versions. -/
theorem perm_leftOver_iff (hmulty : multyVer version e ≠ 0) :
    (front ++ back ++ leftOver env version e).Perm (front ++ e :: back) ↔ version = 0 ∧ env.appends = true := by
  unfold leftOver
  cases happends : env.appends with
  | false =>
    rw [if_neg (by simp), List.append_nil]
    exact ⟨fun h => absurd h (not_perm_of_length (by simp)), fun h => absurd h.2 (by simp)⟩
  | true =>
    rw [if_pos ⟨hmulty, rfl⟩]
    have hback : (front ++ back ++ [{ e with version := multyVer version e }]).Perm
        (front ++ { e with version := multyVer version e } :: back) :=
      (List.perm_append_singleton _ _).trans List.perm_middle.symm
    have hmiddle : (front ++ back ++ [{ e with version := multyVer version e }]).Perm (front ++ e :: back) ↔
        (front ++ { e with version := multyVer version e } :: back).Perm (front ++ e :: back) :=
      ⟨hback.symm.trans, hback.trans⟩
    rw [hmiddle, perm_middle_iff, ← (multyVer_eq hmulty).2]
    constructor
    · intro heq
      exact ⟨congrArg Item.version heq, rfl⟩
    · rintro ⟨heq, -⟩
      rw [heq]

/-- What stands at the index by then. -/
theorem other_same (hmulty : multyVer version e ≠ 0) (happends : env.appends = true) :
    ((((front ++ back ++ leftOver env version e)[front.length]?.map (·.table.length)).getD env.behind)
      % 2 ^ 32 = e.table.length % 2 ^ 32) ↔
    ∀ next ∈ back.head?, next.table.length % 2 ^ 32 = e.table.length % 2 ^ 32 := by
  unfold leftOver
  rw [if_pos ⟨hmulty, happends⟩, List.append_assoc, List.getElem?_append_right (Nat.le_refl _), Nat.sub_self]
  cases back with
  | nil => simp
  | cons next back => simp

/-- A call that takes versions off a table. -/
theorem remove_unchanged_iff (hlt : db.acpiLength < 2 ^ 32) (hsplit : db.entries = front ++ e :: back)
    {r : Bool × Db} (h : Removal env version e front back db r) :
    ((r.1 = true → finish env false r.2 = false) → Same r.2 db) ↔
      Removes env false version e front back ∨ PutBack env version e back := by
  -- no version: the length is taken off
  have hlength : version = 0 → lengthWithout version e db.acpiLength
      = (db.acpiLength + 2 ^ 32 - e.table.length % 2 ^ 32) % 2 ^ 32 := by
    rintro rfl
    exact if_pos (by decide)
  have hshort : ¬ (front ++ back).Perm db.entries := by
    rw [hsplit]
    exact not_perm_of_length (by simp)
  cases h with
  | whole hmulty =>
    have hput : ¬ PutBack env version e back := fun hp => hp.multy hmulty
    rw [removes_whole hmulty, or_iff_left hput, ← finish_iff (lengthWithout version e db.acpiLength)]
    cases finish env false ⟨front ++ back, lengthWithout version e db.acpiLength⟩ with
    | true => simp
    | false => simpa using fun hsame : Same _ db => hshort hsame.1
  | noItem hmulty hitem =>
    have hput : ¬ PutBack env version e back := fun hp => by
      rw [hp.item] at hitem
      exact absurd hitem (by simp)
    have hneither := not_or.mpr ⟨@not_removes env e front back version false hmulty (Or.inl hitem), hput⟩
    refine iff_of_false (fun hsame => hshort (hsame ?_).1) hneither
    exact fun h => absurd h Bool.false_ne_true
  | notNotified hmulty hitem hnotifies =>
    rw [or_iff_right (not_removes hmulty (Or.inr hnotifies))]
    simp only [Bool.false_eq_true, false_implies, true_implies, Same]
    rw [hsplit, perm_leftOver_iff hmulty]
    constructor
    · rintro ⟨⟨hzero, happends⟩, hsame⟩
      rw [hlength hzero] at hsame
      refine ⟨hzero, hmulty, hitem, happends, ?_⟩
      rw [hnotifies, if_neg Bool.false_ne_true]
      omega
    · intro hp
      have hlen := hp.length
      rw [hnotifies, if_neg Bool.false_ne_true] at hlen
      rw [hlength hp.none]
      exact ⟨⟨hp.none, hp.appends⟩, by omega⟩
  | part hmulty hitem hnotifies =>
    rw [removes_part hitem hnotifies, ← finish_iff (lengthWith env version e front back db.acpiLength)]
    cases finish env false ⟨front ++ back ++ leftOver env version e,
      lengthWith env version e front back db.acpiLength⟩ with
    | true => simp
    | false =>
      simp only [Bool.false_eq_true, false_or, true_implies, Same, lengthWith]
      rw [hsplit, perm_leftOver_iff hmulty]
      constructor
      · rintro ⟨⟨hzero, happends⟩, hsame⟩
        rw [hlength hzero, length_same hlt, other_same hmulty happends] at hsame
        exact ⟨hzero, hmulty, hitem, happends, by rwa [hnotifies, if_pos rfl]⟩
      · intro hp
        have hlen := hp.length
        rw [hnotifies, if_pos rfl] at hlen
        rw [hlength hp.none, length_same hlt, other_same hmulty hp.appends]
        exact ⟨⟨hp.none, hp.appends⟩, hlen⟩

/-! ## Calls with a table -/

/-- The function goes on with a table that is not the FACS. -/
theorem signature_of_resolve {cf : Bool} (h : resolve entries table version handle = some (handle', cf)) :
    table.signature ≠ facsSig := by
  intro hfacs
  unfold resolve at h
  rw [if_pos hfacs] at h
  exact absurd h (by simp)

theorem not_refuses_new (h : table.signature ≠ facsSig) (address : Nat) :
    refuses true version ⟨version, address, table⟩ = false := by
  simp [refuses, h]

/-- What the new table has added to the length is taken off again with it. -/
theorem lengthWithout_new (hlt : db.acpiLength < 2 ^ 32) :
    lengthWithout version ⟨version, env.address, table⟩ (appendTable env table version db).acpiLength
      = db.acpiLength := by
  unfold lengthWithout appendTable
  dsimp only
  split
  · omega
  · rfl

/-- A call that has appended a table and takes one off. -/
theorem add_unchanged_iff (hlt : db.acpiLength < 2 ^ 32)
    (hsplit : db.entries ++ [⟨version, env.address, table⟩] = front ++ e :: back) {r : Bool × Db}
    (h : Removal env version e front back (appendTable env table version db) r) :
    ((r.1 = true → finish env correctFacp r.2 = false) → Same r.2 db) ↔
      e = ⟨version, env.address, table⟩ ∨ Removes env correctFacp version e front back := by
  have hold := perm_old_iff hsplit
  have hcount : front.length + back.length = db.entries.length := by
    have := congrArg List.length hsplit
    simp only [List.length_append, List.length_cons, List.length_nil] at this
    omega
  -- a table of several versions is another one
  have hother : multyVer version e ≠ 0 → e ≠ ⟨version, env.address, table⟩ := by
    rintro hmulty rfl
    exact (multyVer_eq hmulty).1 rfl
  have hput : multyVer version e ≠ 0 → ¬ (front ++ back ++ leftOver env version e).Perm db.entries := by
    intro hmulty hperm
    unfold leftOver at hperm
    split at hperm
    · refine not_perm_of_length ?_ hperm
      simp only [List.length_append, List.length_singleton, hcount]
      exact Nat.succ_ne_self _
    · rw [List.append_nil] at hperm
      exact hother hmulty (hold.mp hperm)
  cases h with
  | whole hmulty =>
    rw [removes_whole hmulty, ← finish_iff (lengthWithout version e (appendTable env table version db).acpiLength)]
    cases finish env correctFacp ⟨front ++ back,
      lengthWithout version e (appendTable env table version db).acpiLength⟩ with
    | true => simp
    | false =>
      simp only [Bool.false_eq_true, or_false, true_implies, Same]
      constructor
      · exact fun hsame => hold.mp hsame.1
      · rintro rfl
        exact ⟨hold.mpr rfl, lengthWithout_new hlt⟩
  | noItem hmulty hitem =>
    refine iff_of_false (fun hsame => hother hmulty (hold.mp (hsame ?_).1)) ?_
    · exact fun h => absurd h Bool.false_ne_true
    · exact not_or.mpr ⟨hother hmulty, not_removes hmulty (Or.inl hitem)⟩
  | notNotified hmulty hitem hnotifies =>
    refine iff_of_false (fun hsame => hput hmulty (hsame ?_).1) ?_
    · exact fun h => absurd h Bool.false_ne_true
    · exact not_or.mpr ⟨hother hmulty, not_removes hmulty (Or.inr hnotifies)⟩
  | part hmulty hitem hnotifies =>
    rw [or_iff_right (hother hmulty), removes_part hitem hnotifies,
      ← finish_iff (lengthWith env version e front back (appendTable env table version db).acpiLength)]
    cases finish env correctFacp ⟨front ++ back ++ leftOver env version e,
      lengthWith env version e front back (appendTable env table version db).acpiLength⟩ with
    | true => simp
    | false =>
      refine iff_of_false (fun hsame => hput hmulty (hsame ?_).1) Bool.false_ne_true
      exact fun _ => rfl

/-! ## The function -/

theorem setAcpiTable_delete (htable : req.table = none) (hhandle : req.handle ≠ 0) :
    let r := removeTable env false req.version req.handle db
    setAcpiTable env req db = (r.1 && finish env false r.2, r.2) := by
  unfold setAcpiTable
  rw [htable]
  dsimp only
  rw [if_neg hhandle]
  generalize removeTable env false req.version req.handle db = r
  obtain ⟨ok, db⟩ := r
  cases ok <;> rfl

theorem setAcpiTable_replace (htable : req.table = some table)
    (hresolve : resolve db.entries table req.version req.handle = some (handle, correctFacp))
    (hallocates : env.allocates = true) (hhandle : handle ≠ 0) :
    let r := removeTable env true req.version handle (appendTable env table req.version db)
    setAcpiTable env req db = (r.1 && finish env correctFacp r.2, r.2) := by
  unfold setAcpiTable
  rw [htable]
  dsimp only
  rw [hresolve]
  dsimp only
  rw [hallocates, Bool.not_true, if_neg Bool.false_ne_true, if_neg hhandle]
  generalize removeTable env true req.version handle (appendTable env table req.version db) = r
  obtain ⟨ok, db⟩ := r
  cases ok <;> rfl

theorem setAcpiTable_append (htable : req.table = some table)
    (hresolve : resolve db.entries table req.version req.handle = some (0, correctFacp))
    (hallocates : env.allocates = true) :
    setAcpiTable env req db = (finish env correctFacp (appendTable env table req.version db),
      appendTable env table req.version db) := by
  unfold setAcpiTable
  rw [htable]
  dsimp only
  rw [hresolve]
  dsimp only
  rw [hallocates, Bool.not_true, if_neg Bool.false_ne_true, if_pos rfl]

theorem same_refl (db : Db) : Same db db := ⟨List.Perm.refl _, rfl⟩

theorem delete_unchanged_iff (hlt : db.acpiLength < 2 ^ 32) (htable : req.table = none) :
    ((setAcpiTable env req db).1 = false → Same (setAcpiTable env req db).2 db) ↔ Unbroken env req db := by
  unfold Unbroken
  rw [htable]
  dsimp only
  by_cases hhandle : req.handle = 0
  · have hrun : setAcpiTable env req db = (false, db) := by
      unfold setAcpiTable
      rw [htable]
      exact if_pos hhandle
    rw [hrun]
    exact iff_of_true (fun _ => same_refl db) fun hne => absurd hhandle hne
  rw [setAcpiTable_delete htable hhandle]
  dsimp only
  rw [Bool.and_eq_false_imp]
  obtain ⟨front, e, back, hlocated⟩ | hnone := located_or db.entries req.handle
  · cases hrefuses : refuses false req.version e with
    | true =>
      rw [removeTable_eq hlocated.split hlocated.first hlocated.header, if_pos hrefuses]
      refine iff_of_true (fun _ => same_refl db) fun _ front' e' back' hlocated' hrefuses' => ?_
      obtain ⟨-, rfl, -⟩ := hlocated.unique hlocated'
      rw [hrefuses] at hrefuses'
      exact absurd hrefuses'.symm Bool.false_ne_true
    | false =>
      rw [remove_unchanged_iff hlt hlocated.split (removeTable_removal hlocated hrefuses)]
      constructor
      · intro h _ front' e' back' hlocated' _
        obtain ⟨rfl, rfl, rfl⟩ := hlocated.unique hlocated'
        exact h
      · exact fun h => h hhandle front e back hlocated hrefuses
  · rw [removeTable_none hnone]
    refine iff_of_true (fun _ => same_refl db) fun _ front e back hlocated => ?_
    exact absurd hlocated.header (hnone e (hlocated.split ▸ by simp))

/-- A call that replaces a table. -/
theorem replace_unchanged_iff (hlt : db.acpiLength < 2 ^ 32) (hfacs : table.signature ≠ facsSig) :
    let new : Item := ⟨version, env.address, table⟩
    let r := removeTable env true version handle (appendTable env table version db)
    ((r.1 = true → finish env correctFacp r.2 = false) → Same r.2 db) ↔
      (∃ e ∈ db.entries ++ [new], e.header = handle) ∧
      ∀ front e back, Located (db.entries ++ [new]) handle front e back →
        e = new ∨ refuses true version e = false ∧ Removes env correctFacp version e front back := by
  intro new r
  have hchanged : ¬ Same (appendTable env table version db) db :=
    fun h => not_perm_of_length (by simp [appendTable]) h.1
  obtain ⟨front, e, back, hlocated⟩ | hnone := located_or (appendTable env table version db).entries handle
  · have hmem : e ∈ db.entries ++ [new] := by
      have : db.entries ++ [new] = front ++ e :: back := hlocated.split
      rw [this]
      simp
    have hone : (∀ front' e' back', Located (db.entries ++ [new]) handle front' e' back' →
          e' = new ∨ refuses true version e' = false ∧ Removes env correctFacp version e' front' back') ↔
        (e = new ∨ refuses true version e = false ∧ Removes env correctFacp version e front back) := by
      constructor
      · exact fun h => h front e back hlocated
      · intro h front' e' back' hlocated'
        obtain ⟨rfl, rfl, rfl⟩ := hlocated.unique hlocated'
        exact h
    rw [and_iff_right ⟨e, hmem, hlocated.header⟩, hone]
    cases hrefuses : refuses true version e with
    | true =>
      have hr : r = (false, appendTable env table version db) := by
        show removeTable env true version handle (appendTable env table version db) = _
        rw [removeTable_eq hlocated.split hlocated.first hlocated.header, if_pos hrefuses]
      rw [hr]
      refine iff_of_false (fun h => hchanged (h fun h => absurd h Bool.false_ne_true)) ?_
      rintro (rfl | ⟨h, -⟩)
      · rw [not_refuses_new hfacs] at hrefuses
        exact absurd hrefuses Bool.false_ne_true
      · exact absurd h.symm Bool.false_ne_true
    | false =>
      rw [add_unchanged_iff hlt hlocated.split (removeTable_removal hlocated hrefuses)]
      simp only [true_and]
      exact Iff.rfl
  · have hr : r = (false, appendTable env table version db) := removeTable_none hnone
    rw [hr]
    refine iff_of_false (fun h => hchanged (h fun h => absurd h Bool.false_ne_true)) ?_
    rintro ⟨⟨e, he, hheader⟩, -⟩
    exact hnone e he hheader

theorem add_unbroken_iff (hlt : db.acpiLength < 2 ^ 32) (htable : req.table = some table) :
    ((setAcpiTable env req db).1 = false → Same (setAcpiTable env req db).2 db) ↔ Unbroken env req db := by
  unfold Unbroken
  rw [htable]
  dsimp only
  cases hresolve : resolve db.entries table req.version req.handle with
  | none =>
    have hrun : setAcpiTable env req db = (false, db) := by
      unfold setAcpiTable
      rw [htable]
      dsimp only
      rw [hresolve]
    rw [hrun]
    exact iff_of_true (fun _ => same_refl db) (by simp)
  | some found =>
    obtain ⟨handle, correctFacp⟩ := found
    cases hallocates : env.allocates with
    | false =>
      have hrun : setAcpiTable env req db = (false, db) := by
        unfold setAcpiTable
        rw [htable]
        dsimp only
        rw [hresolve]
        dsimp only
        rw [hallocates]
        rfl
      rw [hrun]
      exact iff_of_true (fun _ => same_refl db) (by simp)
    | true =>
      -- the condition is about this handle
      have hfound : ∀ P : Nat → Bool → Prop, (∀ h cf, some (handle, correctFacp) = some (h, cf) →
          true = true → P h cf) ↔ P handle correctFacp := by
        intro P
        constructor
        · exact fun h => h handle correctFacp rfl rfl
        · rintro h _ _ heq -
          cases heq
          exact h
      rw [hfound]
      by_cases hhandle : handle = 0
      · subst hhandle
        rw [if_pos rfl, setAcpiTable_append htable hresolve hallocates,
          ← finish_iff (appendTable env table req.version db).acpiLength]
        show (finish env correctFacp (appendTable env table req.version db) = false → _) ↔
          finish env correctFacp (appendTable env table req.version db) = true
        have hchanged : ¬ Same (appendTable env table req.version db) db :=
          fun h => not_perm_of_length (by simp [appendTable]) h.1
        cases finish env correctFacp (appendTable env table req.version db) with
        | true => simp
        | false => simpa using hchanged
      · rw [if_neg hhandle, setAcpiTable_replace htable hresolve hallocates hhandle]
        dsimp only
        rw [Bool.and_eq_false_imp]
        exact replace_unchanged_iff hlt (signature_of_resolve hresolve)

/-- A call that fails leaves the tables and the length as they were. -/
theorem setAcpiTable_unchanged_iff (hlt : db.acpiLength < 2 ^ 32) :
    ((setAcpiTable env req db).1 = false → Same (setAcpiTable env req db).2 db) ↔ Unbroken env req db := by
  cases htable : req.table with
  | none => exact delete_unchanged_iff hlt htable
  | some table => exact add_unbroken_iff hlt htable

end

/-- Versions are removed of a table that is not there. -/
theorem setAcpiTable_unchanged_missing :
    (setAcpiTable (plentyEnv 0x2000) ⟨none, 4, 0x3000⟩ ⟨[⟨6, 0x1000, ssdt 100⟩], 100⟩).1 = false ∧
    Same (setAcpiTable (plentyEnv 0x2000) ⟨none, 4, 0x3000⟩ ⟨[⟨6, 0x1000, ssdt 100⟩], 100⟩).2
      ⟨[⟨6, 0x1000, ssdt 100⟩], 100⟩ := by
  have hfails : (setAcpiTable (plentyEnv 0x2000) ⟨none, 4, 0x3000⟩ ⟨[⟨6, 0x1000, ssdt 100⟩], 100⟩).1 = false := by
    decide
  refine ⟨hfails, (setAcpiTable_unchanged_iff (by decide)).mpr ?_ hfails⟩
  intro _ front e back hlocated
  have hmem : e ∈ [(⟨6, 0x1000, ssdt 100⟩ : Item)] := by
    have hsplit : [(⟨6, 0x1000, ssdt 100⟩ : Item)] = front ++ e :: back := hlocated.split
    rw [hsplit]
    simp
  have hheader := hlocated.header
  rw [List.mem_singleton.mp hmem] at hheader
  exact absurd hheader (by decide)

/-- A table is to replace one that is not there: the call fails, and both are there by then. -/
theorem not_setAcpiTable_unchanged :
    ¬ ∀ (env : Env) (req : Request) (db : Db), db.acpiLength < 2 ^ 32 →
      (setAcpiTable env req db).1 = false → Same (setAcpiTable env req db).2 db := by
  intro h
  have hsame := h (plentyEnv 0x2000) ⟨some (ssdt 200), 4, 0x3000⟩ ⟨[⟨6, 0x1000, ssdt 100⟩], 100⟩
    (by decide) (by decide)
  exact absurd hsame.2 (by decide)

end BayTrail.Acpi
