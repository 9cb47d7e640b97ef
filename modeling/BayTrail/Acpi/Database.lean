import Mathlib.Data.List.Nodup
import Mathlib.Algebra.BigOperators.Group.List.Basic
import Mathlib.Data.Nat.Bitwise

/-!
# The ACPI table database

`AcpiSupportSetAcpiTable`, `AcpiInstallAcpiTable` and `AcpiUninstallAcpiTable` of
`AcpiCore.c`. Of a table there is the signature, the length and what no function of the
database writes: checksum, OEM identification and the pointers of the FACP are left out.
-/

namespace BayTrail.Acpi

/-! ## Structures -/

def versionNone : Nat := 1
def version10B : Nat := 2
def version20 : Nat := 4
def version30 : Nat := 8
def version40 : Nat := 16
def versionX : Nat := 28
def tableNotRemovable : Nat := 0xFFFFFFFE

def facpSig : Nat := 0x50434146
def facsSig : Nat := 0x53434146
def dsdtSig : Nat := 0x54445344

structure Table where
  signature : Nat
  length : Nat
  content : List (BitVec 8)

/-- `ACPI_TBL_ITEM`: `AcpiTblVer`, and `BtHeaderPtr` with what stands there. -/
structure Item where
  version : Nat
  header : Nat
  table : Table

/-- `ACPI_DB`. -/
structure Db where
  entries : List Item
  acpiLength : Nat

/-- What a call finds around it. -/
structure Env where
  /-- where the copy of the table is allocated -/
  address : Nat
  /-- the allocations for the new table and its entry succeed -/
  allocates : Bool
  /-- the allocation for the entry of what is left of a table succeeds -/
  itemAllocates : Bool
  /-- and so do its insertion and the notification -/
  appends : Bool
  notifies : Bool
  /-- the length of what a stale entry points at -/
  behind : Nat
  /-- `gPublishedOnReadyToBoot`, and `PublishTbl` succeeds -/
  published : Bool
  publishes : Bool
  /-- `gForceAcpi1` -/
  forceAcpi1 : Bool

structure Request where
  table : Option Table
  version : Nat
  handle : Nat

/-! ## Searching -/

/-- `FindAcpiTblByHandle`. -/
def findAcpiTblByHandle (entries : List Item) (handle : Nat) : Option Nat :=
  entries.findIdx? (·.header = handle)

/-- `GetBtTable`. -/
def getBtTable (entries : List Item) (sig version : Nat) : Option Item :=
  entries.find? fun e => e.table.signature = sig && e.version &&& version ≠ 0

/-- `UpdateFacp` succeeds. -/
def updateFacp (forceAcpi1 : Bool) (entries : List Item) : Bool :=
  entries.any (fun e => e.table.signature = facpSig && e.version = version10B)
  && entries.any (·.table.signature = dsdtSig)
  && (forceAcpi1 || entries.any fun e => e.table.signature = facpSig && e.version ≠ version10B)

/-! ## AcpiSupportSetAcpiTable -/

/-- The start of the function, for a table: `*Handle` and `CorrectFacp`, if it goes on. -/
def resolve (entries : List Item) (table : Table) (version handle : Nat) : Option (Nat × Bool) :=
  if table.signature = facsSig then none
  else if table.signature = facpSig then
    if handle = 0 then
      match getBtTable entries facpSig versionX with
      | none => none
      | some e => if version ≤ e.version then none else some (e.header, true)
    else some (handle, false)
  else if table.signature = dsdtSig then
    if handle = 0 then
      let xtDsdtVer := ((getBtTable entries dsdtSig versionX).map Item.version).getD 0
      let dsdtVer := ((getBtTable entries dsdtSig version10B).map Item.version).getD 0
      if version = version10B ∧ dsdtVer ≠ 0 then none
      else if dsdtVer < version ∧ xtDsdtVer < version then
        some (if xtDsdtVer ≠ 0 then
          ((getBtTable entries dsdtSig versionX).map Item.header).getD 0 else 0, true)
      else none
    else some (handle, true)
  else some (handle, false)

/-- The table is appended to the list. -/
def appendTable (env : Env) (table : Table) (version : Nat) (db : Db) : Db where
  entries := db.entries ++ [⟨version, env.address, table⟩]
  acpiLength := if version ≠ versionNone then (db.acpiLength + table.length) % 2 ^ 32
    else db.acpiLength

/-- `MultyVer`: the versions that are left, zero when all of the table is removed. -/
def multyVer (version : Nat) (e : Item) : Nat :=
  if version ≠ e.version ∧ version ≠ tableNotRemovable then e.version ^^^ version else 0

def oneVersion (version : Nat) : Bool :=
  version = version10B || version = version20 || version = version30 || version = version40

/-- A table with this handle is not removed: it does not exist, is one that stays, or is of
another version. -/
def refuses (adding : Bool) (version : Nat) (e : Item) : Bool :=
  e.table.signature = facsSig
  || (e.table.signature = facpSig || e.table.signature = dsdtSig) && !adding
  || (version ≠ e.version && version ≠ tableNotRemovable) && oneVersion e.version

/-- The part of the function for `*Handle` other than zero. -/
def removeTable (env : Env) (adding : Bool) (version handle : Nat) (db : Db) : Bool × Db :=
  match findAcpiTblByHandle db.entries handle with
  | none => (false, db)
  | some tblNum =>
    match db.entries[tblNum]? with
    | none => (false, db)
    | some e =>
      if refuses adding version e then (false, db)
      else
        let length := if version ≠ versionNone then
          (db.acpiLength + 2 ^ 32 - e.table.length % 2 ^ 32) % 2 ^ 32 else db.acpiLength
        let entries := db.entries.eraseIdx tblNum
        if multyVer version e = 0 then (true, ⟨entries, length⟩)
        else if !env.itemAllocates then (false, ⟨entries, length⟩)
        else
          let entries := if env.appends then entries ++ [{ e with version := multyVer version e }]
            else entries
          if !env.notifies then (false, ⟨entries, length⟩)
          else
            -- the index is that of the entry that has been deleted
            let other := (entries[tblNum]?.map (·.table.length)).getD env.behind
            (true, ⟨entries, (length + other) % 2 ^ 32⟩)

/-- The end of the function. -/
def finish (env : Env) (correctFacp : Bool) (db : Db) : Bool :=
  if correctFacp && !updateFacp env.forceAcpi1 db.entries then false
  else !env.published || env.publishes

/-- `AcpiSupportSetAcpiTable`: whether it is a success, and the database. On success
`*Handle` is the address of the table. -/
def setAcpiTable (env : Env) (req : Request) (db : Db) : Bool × Db :=
  match req.table with
  | none =>
    if req.handle = 0 then (false, db)
    else
      match removeTable env false req.version req.handle db with
      | (false, db) => (false, db)
      | (true, db) => (finish env false db, db)
  | some table =>
    match resolve db.entries table req.version req.handle with
    | none => (false, db)
    | some (handle, correctFacp) =>
      if !env.allocates then (false, db)
      else
        let db := appendTable env table req.version db
        if handle = 0 then (finish env correctFacp db, db)
        else
          match removeTable env true req.version handle db with
          | (false, db) => (false, db)
          | (true, db) => (finish env correctFacp db, db)

/-- `AcpiInstallAcpiTable`; before the tables have been published once, they are published
here. -/
def installAcpiTable (env : Env) (table : Table) (size : Nat) (db : Db) : Bool × Db :=
  if size ≠ table.length then (false, db)
  else
    match setAcpiTable env ⟨some table, tableNotRemovable, 0⟩ db with
    | (false, db) => (false, db)
    | (true, db) => (env.published || env.forceAcpi1 || env.publishes, db)

/-- `AcpiUninstallAcpiTable`. -/
def uninstallAcpiTable (env : Env) (tableKey : Nat) (db : Db) : Bool × Db :=
  setAcpiTable env ⟨none, tableNotRemovable, tableKey⟩ db

/-! ## What the calls are for -/

/-- `AcpiTblVer` is one that `PublishTbl` does not skip. -/
def Item.published (e : Item) : Bool := version10B ≤ e.version

/-- The sum of the lengths of the tables that are published. -/
def lengthSum (entries : List Item) : Nat :=
  ((entries.filter Item.published).map (·.table.length)).sum

/-- What is left of a table without some versions. -/
def Item.without (version : Nat) (e : Item) : List Item :=
  if version = tableNotRemovable ∨ e.version &&& (e.version ^^^ version) = 0 then []
  else [{ e with version := e.version &&& (e.version ^^^ version) }]

/-- The tables after the versions of one of them have been removed. -/
def without (version handle : Nat) (live : List Item) : List Item :=
  live.flatMap fun e => if e.header = handle then e.without version else [e]

/-- The tables after a call that succeeds. -/
def expected (env : Env) (req : Request) (db : Db) (live : List Item) : List Item :=
  match req.table with
  | none => without req.version req.handle live
  | some table =>
    let handle := ((resolve db.entries table req.version req.handle).map Prod.fst).getD 0
    without req.version handle live ++ [⟨req.version, env.address, table⟩]

/-! ## Consistent databases -/

structure Consistent (db : Db) : Prop where
  header : ∀ e ∈ db.entries, e.header ≠ 0
  nodup : (db.entries.map Item.header).Nodup
  version : ∀ e ∈ db.entries, e.version ≠ 0
  length : db.acpiLength = lengthSum db.entries
  length_lt : lengthSum db.entries < 2 ^ 32

/-- Memory that is allocated is not that of a table. -/
def Env.Fresh (env : Env) (db : Db) : Prop :=
  env.address ≠ 0 ∧ ∀ e ∈ db.entries, e.header ≠ env.address

/-- The removal of versions of a table, with the tables behind it: all of the table goes
and was counted as it is taken off; or what is left is put back, is still published, and the
next table is as long. -/
structure RemovalOk (env : Env) (version : Nat) (e : Item) (back : List Item) : Prop where
  whole : multyVer version e = 0 → version = e.version ∨ e.published = true
  part : multyVer version e ≠ 0 → env.itemAllocates = true ∧ env.appends = true ∧
    env.notifies = true ∧ e.published = true ∧ version ≠ versionNone ∧
    e.version &&& version = version ∧ version10B ≤ multyVer version e ∧
    ∀ next ∈ back.head?, next.table.length = e.table.length

/-- The end of the function is reached and is a success. -/
def FinishOk (env : Env) (req : Request) (db : Db) (correctFacp : Bool) : Prop :=
  (correctFacp = true → updateFacp env.forceAcpi1 (expected env req db db.entries) = true) ∧
  (env.published = true → env.publishes = true)

/-- Once a call changes the database it does so to its end, and the lengths are as the code
takes them to be. -/
def Safe (env : Env) (req : Request) (db : Db) : Prop :=
  match req.table with
  | none => ∀ front e back, db.entries = front ++ e :: back → e.header = req.handle →
      refuses false req.version e = false →
      RemovalOk env req.version e back ∧ FinishOk env req db false
  | some table => ∀ handle correctFacp,
      resolve db.entries table req.version req.handle = some (handle, correctFacp) →
      env.allocates = true →
      req.version ≠ 0 ∧ lengthSum db.entries + table.length < 2 ^ 32 ∧
      FinishOk env req db correctFacp ∧
      (handle ≠ 0 → ∃ front e back, db.entries = front ++ e :: back ∧ e.header = handle ∧
        refuses true req.version e = false ∧
        RemovalOk env req.version e (back ++ [⟨req.version, env.address, table⟩]))

/-! ## Lengths -/

variable {env : Env} {req : Request} {db : Db} {e : Item} {front back entries live : List Item}
  {version handle : Nat} {table : Table}

/-- What a table counts for. -/
def Item.counted (e : Item) : Nat := if e.published then e.table.length else 0

theorem lengthSum_append (a b : List Item) : lengthSum (a ++ b) = lengthSum a + lengthSum b := by
  unfold lengthSum
  rw [List.filter_append, List.map_append, List.sum_append]

theorem lengthSum_cons (e : Item) (a : List Item) : lengthSum (e :: a) = e.counted + lengthSum a := by
  unfold lengthSum Item.counted
  rw [List.filter_cons]
  split
  · rw [List.map_cons, List.sum_cons]
  · rw [Nat.zero_add]

variable {a b : List Item} {adding : Bool}

theorem lengthSum_perm (h : a.Perm b) : lengthSum a = lengthSum b :=
  ((h.filter _).map _).sum_eq

/-- A table that is not counted has no versions, or is kept from the operating system. -/
theorem published_iff (h : e.version ≠ 0) : e.published = true ↔ e.version ≠ versionNone := by
  unfold Item.published
  rw [decide_eq_true_iff, show version10B = 2 from rfl, show versionNone = 1 from rfl]
  omega

/-! ## Finding a table -/

/-- No other table has the handle. -/
theorem header_ne (hnodup : ((front ++ e :: back).map Item.header).Nodup) :
    ∀ e' ∈ front ++ back, e'.header ≠ e.header := by
  intro e' he' heq
  have hperm : ((front ++ e :: back).map Item.header).Perm
      ((e :: (front ++ back)).map Item.header) := List.perm_middle.map _
  have := hperm.nodup_iff.mp hnodup
  rw [List.map_cons, List.nodup_cons] at this
  exact this.1 (List.mem_map.mpr ⟨e', he', heq⟩)

theorem first_ne (hnodup : (db.entries.map Item.header).Nodup) (hsplit : db.entries = front ++ e :: back) :
    ∀ e' ∈ front, e'.header ≠ e.header :=
  fun e' he' => header_ne (hsplit ▸ hnodup) e' (List.mem_append_left _ he')

theorem find_eq (hfront : ∀ e' ∈ front, e'.header ≠ e.header) :
    findAcpiTblByHandle (front ++ e :: back) e.header = some front.length := by
  unfold findAcpiTblByHandle
  rw [List.findIdx?_eq_some_iff_getElem]
  refine ⟨by simp, ?_, fun k hk => ?_⟩
  · simp
  · rw [List.getElem_append_left hk]
    simpa using hfront _ (List.getElem_mem hk)

theorem find_none (h : ∀ e ∈ entries, e.header ≠ handle) :
    findAcpiTblByHandle entries handle = none := by
  unfold findAcpiTblByHandle
  rw [List.findIdx?_eq_none_iff]
  simpa using h

/-! ## Removing a table -/

/-- The tables of other handles are left as they are. -/
theorem without_of_ne (h : ∀ e ∈ live, e.header ≠ handle) : without version handle live = live := by
  unfold without
  induction live with
  | nil => rfl
  | cons e live ih =>
    rw [List.flatMap_cons, ih fun e' he' => h e' (List.mem_cons_of_mem _ he'),
      if_neg (h e List.mem_cons_self)]
    rfl

theorem without_append (a b : List Item) :
    without version handle (a ++ b) = without version handle a ++ without version handle b :=
  List.flatMap_append ..

theorem without_split (hnodup : ((front ++ e :: back).map Item.header).Nodup) :
    without version e.header (front ++ e :: back) = front ++ e.without version ++ back := by
  have hne := header_ne hnodup
  rw [List.append_cons, without_append, without_append,
    without_of_ne fun e' he' => hne e' (List.mem_append_left _ he'),
    without_of_ne (fun e' he' => hne e' (List.mem_append_right _ he') : ∀ e' ∈ back, _)]
  unfold without
  rw [List.flatMap_singleton, if_pos rfl]

theorem multyVer_without (h : e.version &&& version = version) :
    e.version &&& (e.version ^^^ version) = e.version ^^^ version := by
  refine Nat.eq_of_testBit_eq fun i => ?_
  have hi := congrArg (Nat.testBit · i) h
  simp only [Nat.testBit_and, Nat.testBit_xor] at hi ⊢
  cases hv : e.version.testBit i <;> cases hm : version.testBit i <;> simp_all

/-- What is left of the table, by its versions. -/
theorem without_eq (h : multyVer version e ≠ 0 → e.version &&& version = version) :
    e.without version = if multyVer version e = 0 then []
      else [{ e with version := multyVer version e }] := by
  unfold Item.without
  by_cases hboth : version ≠ e.version ∧ version ≠ tableNotRemovable
  · have hmulty : multyVer version e = e.version ^^^ version := if_pos hboth
    have hne : e.version ^^^ version ≠ 0 := fun hz => hboth.1 (Nat.xor_eq_zero_iff.mp hz).symm
    rw [hmulty] at h ⊢
    rw [multyVer_without (h hne), if_neg hne, if_neg]
    rintro (hc | hc)
    · exact hboth.2 hc
    · exact hne hc
  · have hmulty : multyVer version e = 0 := if_neg hboth
    rw [if_pos hmulty, if_pos]
    by_cases hall : version = tableNotRemovable
    · exact Or.inl hall
    · have : version = e.version := by
        by_contra hne
        exact hboth ⟨hne, hall⟩
      rw [this, Nat.xor_self, Nat.and_zero]
      exact Or.inr rfl

/-- The table that is removed is the first one with the handle. -/
theorem removeTable_eq (hsplit : db.entries = front ++ e :: back)
    (hfirst : ∀ e' ∈ front, e'.header ≠ handle) (hheader : e.header = handle) (adding : Bool) :
    removeTable env adding version handle db =
      if refuses adding version e then (false, db)
      else
        let length := if version ≠ versionNone then
          (db.acpiLength + 2 ^ 32 - e.table.length % 2 ^ 32) % 2 ^ 32 else db.acpiLength
        if multyVer version e = 0 then (true, ⟨front ++ back, length⟩)
        else if !env.itemAllocates then (false, ⟨front ++ back, length⟩)
        else
          let entries := if env.appends then
            front ++ back ++ [{ e with version := multyVer version e }] else front ++ back
          if !env.notifies then (false, ⟨entries, length⟩)
          else
            (true, ⟨entries, (length + ((entries[front.length]?.map (·.table.length)).getD
              env.behind)) % 2 ^ 32⟩) := by
  subst hheader
  have herase : (front ++ e :: back).eraseIdx front.length = front ++ back := by
    rw [List.eraseIdx_append_of_length_le (Nat.le_refl _), Nat.sub_self]
    rfl
  unfold removeTable
  rw [hsplit, find_eq hfirst]
  dsimp only
  rw [List.getElem?_append_right (Nat.le_refl _), Nat.sub_self, List.getElem?_cons_zero, herase]

/-- The index is by then that of the next table, or of what is left of this one. -/
theorem other_length {rest : Item} (hrest : rest.table = e.table)
    (hnext : ∀ next ∈ back.head?, next.table.length = e.table.length) :
    ((front ++ back ++ [rest])[front.length]?.map (·.table.length)).getD env.behind
      = e.table.length := by
  rw [List.append_assoc, List.getElem?_append_right (Nat.le_refl _), Nat.sub_self]
  cases back with
  | nil =>
    show rest.table.length = _
    rw [hrest]
  | cons next back => exact hnext next rfl

/-- The database is consistent when one entry is replaced by what is left of it. -/
theorem Consistent.replaced (hdb : Consistent db) (hsplit : db.entries = front ++ e :: back)
    (rest : List Item) {entries' : List Item} {length : Nat}
    (hrest : ∀ r ∈ rest, r.header = e.header ∧ r.version ≠ 0) (hone : rest.length ≤ 1)
    (hperm : entries'.Perm (front ++ rest ++ back))
    (hlength : length = lengthSum front + lengthSum rest + lengthSum back)
    (hle : lengthSum rest ≤ e.counted) : Consistent ⟨entries', length⟩ := by
  have hsum : lengthSum entries' = lengthSum front + lengthSum rest + lengthSum back := by
    rw [lengthSum_perm hperm, lengthSum_append, lengthSum_append]
  have hmem : ∀ e' ∈ entries', e' ∈ db.entries ∨ e' ∈ rest := by
    intro e' he'
    have := hperm.mem_iff.mp he'
    rw [hsplit]
    simp only [List.mem_append, List.mem_cons] at this ⊢
    tauto
  have he : e ∈ db.entries := hsplit ▸ by simp
  have hsublist : ((front ++ rest ++ back).map Item.header).Sublist
      ((front ++ e :: back).map Item.header) := by
    rw [List.append_assoc, List.map_append, List.map_append, List.map_append, List.map_cons]
    refine (List.Sublist.refl _).append ?_
    match rest, hrest, hone with
    | [], _, _ => exact List.sublist_cons_self ..
    | [r], hrest, _ =>
      rw [List.map_singleton, (hrest r List.mem_cons_self).1]
      exact List.Sublist.refl _
  constructor
  · intro e' he'
    obtain h | h := hmem e' he'
    · exact hdb.header e' h
    · rw [(hrest e' h).1]
      exact hdb.header e he
  · exact (hperm.map _).nodup_iff.mpr (hsublist.nodup (hsplit ▸ hdb.nodup))
  · intro e' he'
    obtain h | h := hmem e' he'
    · exact hdb.version e' h
    · exact (hrest e' h).2
  · exact hlength.trans hsum.symm
  · have hlt := hdb.length_lt
    rw [hsplit, lengthSum_append, lengthSum_cons] at hlt
    show lengthSum entries' < 2 ^ 32
    rw [hsum]
    omega

/-- A removal that goes to its end. -/
theorem removeTable_ok (hdb : Consistent db) (hsplit : db.entries = front ++ e :: back) (hrefuses : refuses adding version e = false)
    (hok : RemovalOk env version e back) :
    ∃ db', removeTable env adding version e.header db = (true, db') ∧ Consistent db' ∧
      db'.entries.Perm (without version e.header db.entries) := by
  have he : e ∈ db.entries := hsplit ▸ by simp
  have hver := hdb.version e he
  have hlt := hdb.length_lt
  have hlen := hdb.length
  rw [hsplit, lengthSum_append, lengthSum_cons] at hlen hlt
  rw [hsplit, without_split (hsplit ▸ hdb.nodup), without_eq fun h => (hok.part h).2.2.2.2.2.1,
    removeTable_eq hsplit (first_ne hdb.nodup hsplit) rfl, hrefuses, if_neg Bool.false_ne_true]
  by_cases hmulty : multyVer version e = 0
  · -- all of the table goes, and its length is taken off when it was counted
    have hcounted : e.counted = if version ≠ versionNone then e.table.length else 0 := by
      unfold Item.counted
      obtain heq | hpub := hok.whole hmulty
      · rw [heq]
        simp only [published_iff hver]
      · rw [hpub, if_pos rfl, if_pos]
        rintro rfl
        have : e.version ^^^ versionNone = 0 := by
          rwa [multyVer, if_pos ⟨fun h => (published_iff hver).mp hpub h.symm, by decide⟩] at hmulty
        exact (published_iff hver).mp hpub (Nat.xor_eq_zero_iff.mp this)
    dsimp only
    rw [if_pos hmulty, if_pos hmulty, List.append_nil]
    refine ⟨_, rfl, hdb.replaced hsplit [] (by simp) (by simp) (by simp) ?_
      (Nat.zero_le _), List.Perm.refl _⟩
    rw [show lengthSum [] = 0 from rfl, Nat.add_zero, hlen, hcounted]
    rw [hcounted] at hlt
    split <;> omega
  · obtain ⟨hitem, happends, hnotifies, hpub, hnone, -, hleft, hnext⟩ := hok.part hmulty
    have hcounted : e.counted = e.table.length := if_pos hpub
    have hpub' : Item.published { e with version := multyVer version e } = true :=
      decide_eq_true hleft
    have hleft' : lengthSum [{ e with version := multyVer version e }] = e.table.length := by
      rw [lengthSum_cons, Item.counted, hpub', if_pos rfl]
      rfl
    have hother := @other_length env e front back { e with version := multyVer version e } rfl hnext
    have hperm : (front ++ back ++ [{ e with version := multyVer version e }]).Perm
        (front ++ [{ e with version := multyVer version e }] ++ back) := by
      rw [List.append_assoc, List.append_assoc]
      exact List.perm_append_comm.append_left front
    dsimp only
    rw [if_neg hmulty, if_neg hmulty, hitem, happends, hnotifies, if_pos hnone, if_pos rfl, hother]
    refine ⟨_, rfl, hdb.replaced hsplit [{ e with version := multyVer version e }]
      ?_ (by simp) hperm ?_ (Nat.le_of_eq (hleft'.trans hcounted.symm)), hperm⟩
    · rintro r hr
      rw [List.mem_singleton.mp hr]
      exact ⟨rfl, hmulty⟩
    · rw [hleft', hlen, hcounted]
      rw [hcounted] at hlt
      omega

/-! ## One call -/

theorem updateFacp_perm (h : a.Perm b) (forceAcpi1 : Bool) :
    updateFacp forceAcpi1 a = updateFacp forceAcpi1 b := by
  unfold updateFacp
  rw [h.any_eq, h.any_eq, h.any_eq]

theorem finish_ok {correctFacp : Bool} (hok : FinishOk env req db correctFacp)
    {db' : Db} (hperm : db'.entries.Perm (expected env req db db.entries)) :
    finish env correctFacp db' = true := by
  unfold finish
  rw [updateFacp_perm hperm]
  obtain ⟨hfacp, hpublishes⟩ := hok
  cases hc : correctFacp <;> cases hp : env.published <;> simp_all

/-- The new table is consistent with the others. -/
theorem Consistent.appendTable (hdb : Consistent db) (hfresh : env.Fresh db) (hversion : version ≠ 0)
    (hlt : lengthSum db.entries + table.length < 2 ^ 32) :
    Consistent (appendTable env table version db) := by
  have hcounted : Item.counted ⟨version, env.address, table⟩
      = if version ≠ versionNone then table.length else 0 := by
    unfold Item.counted
    simp only [published_iff (show Item.version ⟨version, env.address, table⟩ ≠ 0 from hversion)]
  have hsum : lengthSum (db.entries ++ [⟨version, env.address, table⟩])
      = lengthSum db.entries + if version ≠ versionNone then table.length else 0 := by
    rw [lengthSum_append, lengthSum_cons, hcounted]
    rfl
  constructor
  · intro e he
    obtain he | he := List.mem_append.mp he
    · exact hdb.header e he
    · rw [List.mem_singleton.mp he]
      exact hfresh.1
  · show ((db.entries ++ [_]).map Item.header).Nodup
    rw [List.map_append, List.map_singleton, List.nodup_append]
    refine ⟨hdb.nodup, List.nodup_singleton _, ?_⟩
    rintro _ hx _ hy rfl
    obtain ⟨e, he, heq⟩ := List.mem_map.mp hx
    exact hfresh.2 e he (heq.trans (List.mem_singleton.mp hy))
  · intro e he
    obtain he | he := List.mem_append.mp he
    · exact hdb.version e he
    · rw [List.mem_singleton.mp he]
      exact hversion
  · show (if _ then _ else _) = lengthSum (db.entries ++ [_])
    rw [hsum, hdb.length]
    split
    · exact Nat.mod_eq_of_lt hlt
    · exact (Nat.add_zero _).symm
  · show lengthSum (db.entries ++ [_]) < _
    rw [hsum]
    split <;> omega

/-- What a call does to a database, and to the tables that are to be there. -/
structure Does (env : Env) (req : Request) (db : Db) (result : Bool × Db) : Prop where
  consistent : Consistent result.2
  success : result.1 = true → result.2.entries.Perm (expected env req db db.entries)
  failure : result.1 = false → result.2 = db

theorem does_failure (hdb : Consistent db) : Does env req db (false, db) :=
  ⟨hdb, fun h => absurd h Bool.false_ne_true, fun _ => rfl⟩

theorem removeTable_none (h : ∀ e ∈ db.entries, e.header ≠ handle) :
    removeTable env adding version handle db = (false, db) := by
  unfold removeTable
  rw [find_none h]

theorem setAcpiTable_remove (hdb : Consistent db) (htable : req.table = none)
    (hsafe : Safe env req db) : Does env req db (setAcpiTable env req db) := by
  unfold setAcpiTable
  unfold Safe at hsafe
  rw [htable] at hsafe ⊢
  dsimp only at hsafe ⊢
  split
  · exact does_failure hdb
  · by_cases hlive : ∃ e ∈ db.entries, e.header = req.handle
    · obtain ⟨e, he, hheader⟩ := hlive
      obtain ⟨front, back, hsplit⟩ := List.append_of_mem he
      cases hrefuses : refuses false req.version e
      · obtain ⟨hok, hfinish⟩ := hsafe front e back hsplit hheader hrefuses
        obtain ⟨db', hrun, hdb', hperm⟩ := removeTable_ok hdb hsplit hrefuses hok
        have hexpected : db'.entries.Perm (expected env req db db.entries) := by
          unfold expected
          rw [htable, ← hheader]
          exact hperm
        rw [← hheader, hrun]
        dsimp only
        rw [finish_ok hfinish hexpected]
        exact ⟨hdb', fun _ => hexpected, fun h => absurd h.symm Bool.false_ne_true⟩
      · rw [← hheader, removeTable_eq hsplit (first_ne hdb.nodup hsplit) rfl, if_pos hrefuses]
        exact does_failure hdb
    · rw [removeTable_none fun e he hh => hlive ⟨e, he, hh⟩]
      exact does_failure hdb

theorem setAcpiTable_add (hdb : Consistent db) (hfresh : env.Fresh db)
    (htable : req.table = some table) (hsafe : Safe env req db) :
    Does env req db (setAcpiTable env req db) := by
  unfold setAcpiTable
  unfold Safe at hsafe
  rw [htable] at hsafe ⊢
  dsimp only at hsafe ⊢
  cases hresolve : resolve db.entries table req.version req.handle with
  | none => exact does_failure hdb
  | some found =>
    obtain ⟨handle, correctFacp⟩ := found
    dsimp only
    cases hallocates : env.allocates
    · exact does_failure hdb
    · obtain ⟨hversion, hlt, hfinish, hreplace⟩ := hsafe handle correctFacp hresolve hallocates
      have hadd := hdb.appendTable hfresh hversion hlt
      have hexpected : expected env req db db.entries
          = without req.version handle db.entries ++ [⟨req.version, env.address, table⟩] := by
        unfold expected
        rw [htable]
        dsimp only
        rw [hresolve]
        rfl
      simp only [Bool.not_true, Bool.false_eq_true, if_false]
      by_cases hhandle : handle = 0
      · have hentries : (appendTable env table req.version db).entries
            = expected env req db db.entries := by
          rw [hexpected, without_of_ne fun e he hh => hdb.header e he (hh.trans hhandle)]
          rfl
        rw [if_pos hhandle, finish_ok hfinish (hentries ▸ List.Perm.refl _)]
        exact ⟨hadd, fun _ => hentries ▸ List.Perm.refl _, fun h => absurd h.symm Bool.false_ne_true⟩
      · obtain ⟨front, e, back, hsplit, hheader, hrefuses, hok⟩ := hreplace hhandle
        have hsplit' : (appendTable env table req.version db).entries
            = front ++ e :: (back ++ [⟨req.version, env.address, table⟩]) := by
          show db.entries ++ [_] = _
          rw [hsplit, List.append_assoc, List.cons_append]
        obtain ⟨db', hrun, hdb', hperm⟩ := removeTable_ok hadd hsplit' hrefuses hok
        have hnew : ∀ e' ∈ [(⟨req.version, env.address, table⟩ : Item)], e'.header ≠ e.header := by
          intro e' he' hh
          rw [List.mem_singleton.mp he'] at hh
          exact hfresh.2 e (hsplit ▸ by simp) hh.symm
        have hperm' : db'.entries.Perm (expected env req db db.entries) := by
          rw [hexpected, ← hheader, ← without_of_ne hnew, ← without_append]
          exact hperm
        rw [if_neg hhandle, ← hheader, hrun]
        dsimp only
        rw [finish_ok hfinish hperm']
        exact ⟨hdb', fun _ => hperm', fun h => absurd h.symm Bool.false_ne_true⟩

theorem setAcpiTable_does (hdb : Consistent db) (hfresh : env.Fresh db) (hsafe : Safe env req db) :
    Does env req db (setAcpiTable env req db) := by
  cases htable : req.table with
  | none => exact setAcpiTable_remove hdb htable hsafe
  | some table => exact setAcpiTable_add hdb hfresh htable hsafe

/-! ## Runs -/

inductive Call where
  | set (req : Request)
  | install (table : Table) (size : Nat)
  | uninstall (tableKey : Nat)

def Call.run (env : Env) : Call → Db → Bool × Db
  | set req, db => setAcpiTable env req db
  | install table size, db => installAcpiTable env table size db
  | uninstall tableKey, db => uninstallAcpiTable env tableKey db

def Call.request : Call → Request
  | set req => req
  | install table _ => ⟨some table, tableNotRemovable, 0⟩
  | uninstall tableKey => ⟨none, tableNotRemovable, tableKey⟩

/-- What is needed of a call. `AcpiInstallAcpiTable` goes on when it has been given the size of
the table, and it may publish the tables itself. -/
def Call.Ok (env : Env) (call : Call) (db : Db) : Prop :=
  match call with
  | set req => Safe env req db
  | install table size => size = table.length → Safe env ⟨some table, tableNotRemovable, 0⟩ db ∧
      (env.published = false → env.forceAcpi1 = false → env.publishes = true)
  | uninstall tableKey => Safe env ⟨none, tableNotRemovable, tableKey⟩ db

/-- A database that calls lead to, and the tables with the handles that were returned for
them; `Ok` is what holds of each call. -/
inductive Run (Ok : Env → Call → Db → Prop) : Db → List Item → Prop
  | start {db : Db} (hdb : Consistent db) : Run Ok db db.entries
  | call {db : Db} {live : List Item} (env : Env) (c : Call) (hrun : Run Ok db live) (hfresh : env.Fresh db)
      (hok : Ok env c db) :
      Run Ok (c.run env db).2 (if (c.run env db).1 then expected env c.request db live else live)

/-- The length is the sum of what is published, each table is found by its handle and by no
other, and none is lost or there twice. -/
structure Accounted (db : Db) (live : List Item) : Prop where
  length : db.acpiLength = lengthSum db.entries
  tables : db.entries.Perm live
  nodup : (db.entries.map Item.header).Nodup
  found : ∀ e ∈ live, ∃ i, findAcpiTblByHandle db.entries e.header = some i ∧ db.entries[i]? = some e
  deleted : ∀ handle, (∀ e ∈ live, e.header ≠ handle) → findAcpiTblByHandle db.entries handle = none

theorem call_does {c : Call} (hdb : Consistent db) (hfresh : env.Fresh db) (hok : c.Ok env db) :
    Does env c.request db (c.run env db) := by
  cases c with
  | set req => exact setAcpiTable_does hdb hfresh hok
  | uninstall tableKey => exact setAcpiTable_does hdb hfresh hok
  | install table size =>
    show Does env _ db (installAcpiTable env table size db)
    unfold installAcpiTable
    split
    · exact does_failure hdb
    · rename_i hsize
      obtain ⟨hsafe, hpublishes⟩ := hok (not_not.mp hsize)
      have hdoes := setAcpiTable_does hdb hfresh hsafe
      cases hset : setAcpiTable env ⟨some table, tableNotRemovable, 0⟩ db with
      | mk success db' =>
        rw [hset] at hdoes
        cases success
        · exact hdoes
        · have hpub : (env.published || env.forceAcpi1 || env.publishes) = true := by
            cases hp : env.published
            · cases hf : env.forceAcpi1
              · exact hpublishes hp hf
              · rfl
            · rfl
          dsimp only
          rw [hpub]
          exact hdoes

theorem expected_perm {live' : List Item} (h : live.Perm live') :
    (expected env req db live).Perm (expected env req db live') := by
  unfold expected without
  split
  · exact h.flatMap_right _
  · exact (h.flatMap_right _).append_right _

theorem Run.invariant (h : Run (fun env c db => c.Ok env db) db live) :
    Consistent db ∧ db.entries.Perm live := by
  induction h with
  | start hdb => exact ⟨hdb, List.Perm.refl _⟩
  | call env c _ hfresh hok ih =>
    obtain ⟨hdb, hperm⟩ := ih
    have hdoes := call_does hdb hfresh hok
    refine ⟨hdoes.consistent, ?_⟩
    split
    · next hsuccess => exact (hdoes.success hsuccess).trans (expected_perm hperm)
    · next hfailure =>
      rw [hdoes.failure (Bool.eq_false_iff.mpr hfailure)]
      exact hperm

theorem Consistent.accounted (hdb : Consistent db) (hperm : db.entries.Perm live) :
    Accounted db live where
  length := hdb.length
  tables := hperm
  nodup := hdb.nodup
  found := by
    intro e he
    obtain ⟨front, back, hsplit⟩ := List.append_of_mem (hperm.mem_iff.mpr he)
    have hne := header_ne (hsplit ▸ hdb.nodup)
    rw [hsplit]
    refine ⟨front.length, find_eq fun e' he' => hne e' (List.mem_append_left _ he'), ?_⟩
    rw [List.getElem?_append_right (Nat.le_refl _), Nat.sub_self, List.getElem?_cons_zero]
  deleted := by
    intro handle hlive
    exact find_none fun e he => hlive e (hperm.mem_iff.mp he)

/-- The database after calls that each are safe. -/
theorem accounted_of_safe (h : Run (fun env c db => c.Ok env db) db live) : Accounted db live :=
  h.invariant.1.accounted h.invariant.2

/-- Memory enough, and no tables published yet. -/
def plentyEnv (address : Nat) : Env :=
  ⟨address, true, true, true, true, 0, false, true, false⟩

def ssdt (length : Nat) : Table := ⟨0x54445353, length, []⟩

theorem consistent_empty : Consistent ⟨[], 0⟩ :=
  ⟨by decide, by decide, by decide, rfl, by decide⟩

/-- A table of two versions that loses one of them. -/
theorem accounted_one_left :
    Accounted ⟨[⟨2, 0x1000, ssdt 100⟩], 100⟩ [⟨2, 0x1000, ssdt 100⟩] := by
  have hadd : Run (fun env c db => c.Ok env db) ⟨[⟨6, 0x1000, ssdt 100⟩], 100⟩
      [⟨6, 0x1000, ssdt 100⟩] :=
    Run.call (plentyEnv 0x1000) (.set ⟨some (ssdt 100), 6, 0⟩) (.start consistent_empty)
      ⟨by decide, by decide⟩ fun handle correctFacp hresolve _ => by
        cases hresolve
        exact ⟨by decide, by decide, ⟨by decide, by decide⟩, fun h => absurd rfl h⟩
  refine accounted_of_safe (Run.call (plentyEnv 0x2000) (.set ⟨none, 4, 0x1000⟩) hadd
    ⟨by decide, by decide⟩ ?_)
  intro front e back hsplit _ _
  cases front with
  | nil =>
    obtain ⟨rfl, rfl⟩ := List.cons.inj hsplit
    exact ⟨⟨by decide, fun _ => ⟨rfl, rfl, rfl, rfl, by decide, rfl, by decide, by simp⟩⟩,
      by decide, by decide⟩
  | cons _ front => simp at hsplit

/-- A table of 100 bytes loses a version, with one of 200 bytes behind it: the length is then
400 for what takes 300. -/
theorem not_accounted :
    ¬ ∀ db live, Run (fun _ _ _ => True) db live → Accounted db live := by
  intro h
  have hfirst : Run (fun _ _ _ => True) ⟨[⟨6, 0x1000, ssdt 100⟩], 100⟩ [⟨6, 0x1000, ssdt 100⟩] :=
    Run.call (plentyEnv 0x1000) (.set ⟨some (ssdt 100), 6, 0⟩) (.start consistent_empty)
      ⟨by decide, by decide⟩ trivial
  have hsecond : Run (fun _ _ _ => True)
      ⟨[⟨6, 0x1000, ssdt 100⟩, ⟨6, 0x2000, ssdt 200⟩], 300⟩
      [⟨6, 0x1000, ssdt 100⟩, ⟨6, 0x2000, ssdt 200⟩] :=
    Run.call (plentyEnv 0x2000) (.set ⟨some (ssdt 200), 6, 0⟩) hfirst ⟨by decide, by decide⟩ trivial
  have hthird : Run (fun _ _ _ => True)
      ⟨[⟨6, 0x2000, ssdt 200⟩, ⟨2, 0x1000, ssdt 100⟩], 400⟩
      [⟨2, 0x1000, ssdt 100⟩, ⟨6, 0x2000, ssdt 200⟩] :=
    Run.call (plentyEnv 0x3000) (.set ⟨none, 4, 0x1000⟩) hsecond ⟨by decide, by decide⟩ trivial
  exact absurd (h _ _ hthird).length (by decide)

end BayTrail.Acpi
