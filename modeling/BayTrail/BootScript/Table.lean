import BayTrail.BootScript.Savers
import BayTrail.Lib.Log

/-!
# The S3 boot script: what the table looks like

`Tiled s es` says that the table consists of the entries `es`, one right behind the
other, with `TablePtr` at their end and room for the terminator. Every way to save an
entry puts it between two of them, wherever that is: the entries in front stay where
they are, and those behind move by its length. So the entries of an earlier state are
always a sublist of those of a later one.
-/

namespace BayTrail.BootScript

open BayTrail.Lib

/-! ## Entries -/

/-- An entry of the table. -/
structure Entry where
  uniqueIndex : Nat
  body : Bytes
  index_lt : uniqueIndex < 2 ^ 32
  short : sizeofInfo + body.length < 2 ^ 32

namespace Entry

/-- `Length`. -/
def length (e : Entry) : Nat := sizeofInfo + e.body.length

def bytes (e : Entry) : Bytes := leBytes 4 e.uniqueIndex ++ (leBytes 4 e.length ++ e.body)

@[simp] theorem bytes_length (e : Entry) : e.bytes.length = e.length := by
  unfold bytes length sizeofInfo
  simp only [List.length_append, leBytes_length]
  omega

theorem bytes_pos (e : Entry) : 0 < e.bytes.length := by
  rw [bytes_length]
  exact Nat.add_pos_left (by decide) _

end Entry

/-- The bytes that the entries take. -/
abbrev logSize (es : List Entry) : Nat := (layout Entry.bytes es).length

section

variable {m : Mem} {p : Nat} {e : Entry} 

theorem logSize_append (xs ys : List Entry) : logSize (xs ++ ys) = logSize xs + logSize ys := by
  unfold logSize
  rw [layout_append, List.length_append]

theorem logSize_cons (x : Entry) (xs : List Entry) : logSize (x :: xs) = x.length + logSize xs := by
  unfold logSize
  rw [layout_cons, List.length_append, Entry.bytes_length]

theorem uniqueIndexAt_eq (h : Holds m p e.bytes) : uniqueIndexAt m p = e.uniqueIndex :=
  (holds_append.mp h).1.rd_eq_of_lt e.index_lt

theorem lengthAt_eq (h : Holds m p e.bytes) : lengthAt m p = e.length := by
  have h2 := (holds_append.mp h).2
  rw [leBytes_length] at h2
  exact (holds_append.mp h2).1.rd_eq_of_lt e.short

theorem holds_body (h : Holds m p e.bytes) : Holds m (p + sizeofInfo) e.body := by
  have h2 := (holds_append.mp h).2
  rw [leBytes_length] at h2
  have h3 := (holds_append.mp h2).2
  rwa [leBytes_length] at h3

end

/-! ## The invariant -/

structure Tiled (s : TableInfo) (es : List Entry) : Prop where
  holds : Holds s.mem 0 (layout Entry.bytes es)
  ptr : s.tablePtr = logSize es
  count : s.numTableEntries = es.length
  inside : s.tablePtr + sizeofInfo + sizeofTableEnd ≤ s.tableSize
  indices : (es.map Entry.uniqueIndex).Perm (List.range es.length)
  nonzero : 0 < s.tableBottom
  fits : s.tableBottom + s.tableSize ≤ 2 ^ 52
  /-- `NewTable` writes no terminator -/
  terminated : es ≠ [] → Holds s.mem (s.tablePtr + sizeofInfo) (leBytes 2 tableEndOpCode)

section

variable {s s' : TableInfo} {es : List Entry} {env : Env} {ins : InsertInfo} {size : Nat}

/-- The indices are distinct. -/
theorem Tiled.nodup (T : Tiled s es) : (es.map Entry.uniqueIndex).Nodup :=
  T.indices.nodup_iff.mpr List.nodup_range

theorem newTable_tiled (h : newTable env = some s) : Tiled s [] := by
  unfold newTable at h
  obtain ⟨b, -, rfl⟩ := Option.map_eq_some_iff.mp h
  exact ⟨trivial, rfl, rfl, show 0 + sizeofInfo + sizeofTableEnd ≤ initTableSize * 2 by decide, List.Perm.refl _, b.nonzero, b.fits, fun h => absurd rfl h⟩

/-! ## Growth -/

variable {n : Nat} {pre post : List Entry}

theorem uintn_of_lt (h : n < 2 ^ 64) : uintn n = n := Nat.mod_eq_of_lt h

/-- A table with the same entries in more room. -/
theorem Tiled.move (T : Tiled s es) (b : Block n) (hn : s.tableSize ≤ n) (closed : Bool) :
    Tiled { s with
      tableBottom := b.bottom
      mem := poke b.mem 0 (peek s.mem 0 s.tableSize)
      tableSize := n
      wasClosed := closed } es := by
  have hcopy : ∀ a, a < s.tableSize → poke b.mem 0 (peek s.mem 0 s.tableSize) a = s.mem a := by
    intro a ha
    have := @poke_peek_at b.mem s.mem 0 0 _ a ha
    rwa [Nat.zero_add] at this
  have hin := T.inside
  refine ⟨T.holds.congr fun a _ h2 => ?_, T.ptr, T.count, le_trans hin hn, T.indices, b.nonzero,
    b.fits, fun hne => (T.terminated hne).congr fun a _ h2 => ?_⟩
  · have := T.ptr
    exact hcopy a (by unfold logSize at this; omega)
  · rw [leBytes_length] at h2
    exact hcopy a (by unfold sizeofTableEnd at hin; omega)

/-- There is room for the entry, in the table or in a larger copy of it. -/
theorem Tiled.roomy (T : Tiled s es) (hsize : size < 2 ^ 32) (h : roomyTable env s size = some s') :
    Tiled s' es ∧ s'.tablePtr + size + sizeofInfo + sizeofTableEnd ≤ s'.tableSize := by
  have hin := T.inside
  have hfits := T.fits
  unfold sizeofInfo sizeofTableEnd at *
  unfold roomyTable at h
  split at h
  next =>
    split at h
    next => exact absurd h (by simp)
    next =>
      unfold growTable at h
      dsimp only at h
      generalize htemp : uintn (s.tableSize + initTableSize * (size / initTableSize + 1)) = temp at h
      have hmore : s.tableSize + size < temp ∧ temp < 2 ^ 53 := by
        rw [← htemp]
        unfold initTableSize
        rw [uintn_of_lt (by omega)]
        omega
      split at h
      next =>
        generalize hnew : efiPagesToSize (efiSizeToPages temp + 1) = new at h
        have hpages : temp ≤ new := by
          rw [← hnew]
          unfold efiPagesToSize efiSizeToPages efiPageSize
          rw [uintn_of_lt (by omega)]
          omega
        obtain ⟨b, -, rfl⟩ := Option.map_eq_some_iff.mp h
        refine ⟨T.move b (by omega) s.wasClosed, ?_⟩
        dsimp only
        omega
      next =>
        obtain ⟨b, -, rfl⟩ := Option.map_eq_some_iff.mp h
        refine ⟨T.move b (by omega) s.wasClosed, ?_⟩
        dsimp only
        omega
  next hfull =>
    obtain rfl := Option.some.inj h
    refine ⟨T, ?_⟩
    unfold tableFull sizeofInfo sizeofTableEnd at hfull
    rw [uintn_of_lt (by omega), uintn_of_lt (by omega)] at hfull
    have := of_decide_eq_false (Bool.eq_false_iff.mpr hfull)
    omega

/-! ## The place of a new entry -/

/-- The entries in front of the new one and those behind it. -/
def Placed (ins : InsertInfo) (pre post : List Entry) : Prop :=
  if ins.isItInsert = false then post = []
  else if ins.position = atBeginning then pre = []
  else if ins.beforeOrAfter then ∃ e, post.head? = some e ∧ e.uniqueIndex = ins.position
  else ∃ e, pre.getLast? = some e ∧ e.uniqueIndex = ins.position

/-- The search finds the first entry with the index. -/
theorem insertLoop_eq {m : Mem} : ∀ {es : List Entry} {i p : Nat} {found : Nat × Nat},
    Holds m p (layout Entry.bytes es) → insertLoop m ins es.length i p = some found →
    ∃ pre e post, es = pre ++ e :: post ∧ e.uniqueIndex = ins.position
      ∧ found = (i + pre.length, p + logSize (if ins.beforeOrAfter then pre else pre ++ [e]))
  | [], i, p, found, _, h => absurd h (by simp [insertLoop])
  | e :: es, i, p, found, hm, h => by
    rw [layout_cons, holds_append] at hm
    rw [List.length_cons, insertLoop, uniqueIndexAt_eq hm.1, lengthAt_eq hm.1] at h
    split at h
    next heq =>
      obtain rfl := Option.some.inj h
      refine ⟨[], e, es, rfl, heq, ?_⟩
      cases ins.beforeOrAfter
      · simp [logSize]
      · simp
    next =>
      rw [← Entry.bytes_length] at h
      obtain ⟨pre, e', post, rfl, hindex, rfl⟩ := insertLoop_eq hm.2 h
      refine ⟨e :: pre, e', post, rfl, hindex, ?_⟩
      have hlen : e.bytes.length + logSize (if ins.beforeOrAfter then pre else pre ++ [e'])
          = logSize (if ins.beforeOrAfter then e :: pre else e :: pre ++ [e']) := by
        cases ins.beforeOrAfter <;> simp [logSize]
      rw [List.length_cons, ← hlen]
      exact Prod.ext (by dsimp only; omega) (Nat.add_assoc _ _ _)

/-- Room for `size` bytes at `p`, with what was behind `p` moved out of the way. -/
theorem shifted {m : Mem}
    (hm : Holds m 0 (layout Entry.bytes (pre ++ post))) :
    let m' := poke m (logSize pre + size) (peek m (logSize pre) (logSize post))
    Holds m' 0 (layout Entry.bytes pre) ∧ Holds m' (logSize pre + size) (layout Entry.bytes post) := by
  rw [layout_append, holds_append, Nat.zero_add] at hm
  exact ⟨hm.1.poke_of_disjoint (Or.inl (by unfold logSize; omega)), hm.2.copy le_rfl⟩

theorem Tiled.insertPosition (T : Tiled s es) (hins : ins.isItInsert = true) {p : Nat} {m : Mem}
    (hsize : size ≠ 0) (h : insertPositionInBootScript s ins size = some (p, m)) :
    ∃ pre post, es = pre ++ post ∧ Placed ins pre post ∧ p = logSize pre
      ∧ Holds m 0 (layout Entry.bytes pre) ∧ Holds m (p + size) (layout Entry.bytes post) := by
  unfold insertPositionInBootScript at h
  obtain ⟨⟨i, q⟩, hfound, hq⟩ := Option.map_eq_some_iff.mp h
  -- the split, and that the number found says whether there is something to move
  obtain ⟨pre, post, rfl, hplaced, rfl, hi⟩ : ∃ pre post, es = pre ++ post ∧ Placed ins pre post
      ∧ q = logSize pre ∧ (i = s.numTableEntries → post = []) := by
    have hplace : ∀ {pre post}, Placed ins pre post ↔
        if ins.position = atBeginning then pre = []
        else if ins.beforeOrAfter then ∃ e, post.head? = some e ∧ e.uniqueIndex = ins.position
        else ∃ e, pre.getLast? = some e ∧ e.uniqueIndex = ins.position := by
      unfold Placed
      simp [hins]
    split at hfound
    next hpos =>
      rw [T.count] at hfound
      obtain ⟨pre, e, post, rfl, hindex, he⟩ := insertLoop_eq T.holds hfound
      obtain ⟨rfl, rfl⟩ := Prod.mk.inj he
      cases hb : ins.beforeOrAfter with
      | true =>
        refine ⟨pre, e :: post, rfl, ?_, by simp, ?_⟩
        · rw [hplace, if_neg hpos, if_pos hb]
          exact ⟨e, rfl, hindex⟩
        · rw [T.count]
          simp
      | false =>
        refine ⟨pre ++ [e], post, by simp, ?_, by simp, ?_⟩
        · rw [hplace, if_neg hpos, if_neg (by simp [hb])]
          exact ⟨e, by simp, hindex⟩
        · rw [T.count]
          simp
    next hpos =>
      obtain ⟨rfl, rfl⟩ := Prod.mk.inj (Option.some.inj hfound)
      refine ⟨[], es, rfl, hplace.mpr (if_pos (not_not.mp hpos) ▸ rfl), rfl, fun hi => ?_⟩
      rw [T.count] at hi
      exact List.length_eq_zero_iff.mp hi.symm
  have hlen : s.tablePtr - logSize pre = logSize post := by
    rw [T.ptr, logSize_append]
    omega
  refine ⟨pre, post, rfl, hplaced, ?_⟩
  simp only [hlen] at hq
  by_cases hmove : size ≠ 0 ∧ i ≠ s.numTableEntries
  · rw [if_pos hmove] at hq
    obtain ⟨rfl, rfl⟩ := Prod.mk.inj hq
    exact ⟨rfl, shifted T.holds⟩
  · rw [if_neg hmove] at hq
    obtain ⟨rfl, rfl⟩ := Prod.mk.inj hq
    have hpost : post = [] := hi (by
      by_contra hne
      exact hmove ⟨hsize, hne⟩)
    subst hpost
    refine ⟨rfl, ?_, trivial⟩
    have := T.holds
    rwa [List.append_nil] at this

/-- The place of a new entry, and the bytes with room for it there. -/
theorem Tiled.place (T : Tiled s es) {p : Nat} {m : Mem} (hsize : size ≠ 0)
    (h : (if ins.isItInsert then insertPositionInBootScript s ins size
      else some (s.tablePtr, s.mem)) = some (p, m)) :
    ∃ pre post, es = pre ++ post ∧ Placed ins pre post ∧ p = logSize pre
      ∧ Holds m 0 (layout Entry.bytes pre) ∧ Holds m (p + size) (layout Entry.bytes post) := by
  split at h
  next hins => exact T.insertPosition hins hsize h
  next hins =>
    obtain ⟨rfl, rfl⟩ := Prod.mk.inj (Option.some.inj h)
    exact ⟨es, [], by simp, by simp [Placed, hins], T.ptr, T.holds, trivial⟩

/-! ## Saving an entry -/

/-- The bytes of an entry that has been written to room made for it. -/
theorem Tiled.written (T : Tiled s es) (hes : es = pre ++ post) {e : Entry}
    (he : e.uniqueIndex = s.numTableEntries) {m : Mem} (hpre : Holds m 0 (layout Entry.bytes pre))
    (hpost : Holds m (logSize pre + e.length) (layout Entry.bytes post))
    (hroom : s.tablePtr + e.length + sizeofInfo + sizeofTableEnd ≤ s.tableSize) :
    Tiled { s with
      mem := poke (poke (poke m (logSize pre) (leBytes 4 s.numTableEntries ++ leBytes 4 e.length))
        (s.tablePtr + e.length + sizeofInfo) (leBytes 2 tableEndOpCode))
        (logSize pre + sizeofInfo) e.body
      tablePtr := s.tablePtr + e.length
      numTableEntries := s.numTableEntries + 1 } (pre ++ e :: post) := by
  have hptr : s.tablePtr = logSize pre + logSize post := by
    rw [T.ptr, hes, logSize_append]
  have hlen : e.length = sizeofInfo + e.body.length := rfl
  have h8 : (leBytes 4 s.numTableEntries ++ leBytes 4 e.length).length = sizeofInfo := by simp [sizeofInfo]
  have h2 : (leBytes 2 tableEndOpCode).length = sizeofTableEnd := by simp [sizeofTableEnd]
  set m1 := poke m (logSize pre) (leBytes 4 s.numTableEntries ++ leBytes 4 e.length) with hm1
  set m2 := poke m1 (s.tablePtr + e.length + sizeofInfo) (leBytes 2 tableEndOpCode) with hm2
  have hpre' : Holds (poke m2 (logSize pre + sizeofInfo) e.body) 0 (layout Entry.bytes pre) := by
    refine Holds.poke_of_disjoint (Holds.poke_of_disjoint (hpre.poke_of_disjoint ?_) ?_) ?_ <;>
      exact Or.inl (by unfold logSize at *; omega)
  have hinfo : Holds (poke m2 (logSize pre + sizeofInfo) e.body) (logSize pre)
      (leBytes 4 s.numTableEntries ++ leBytes 4 e.length) :=
    ((holds_poke _ _ _).poke_of_disjoint (Or.inl (by omega))).poke_of_disjoint (Or.inl (by omega))
  have hpost' : Holds (poke m2 (logSize pre + sizeofInfo) e.body) (logSize pre + e.length)
      (layout Entry.bytes post) := by
    refine Holds.poke_of_disjoint (Holds.poke_of_disjoint (hpost.poke_of_disjoint ?_) ?_) ?_
    · exact Or.inr (by omega)
    · exact Or.inl (by unfold logSize at *; omega)
    · exact Or.inr (by omega)
  refine ⟨?_, ?_, ?_, hroom, ?_, T.nonzero, T.fits, fun _ => ?_⟩
  · rw [layout_append, layout_cons, holds_append, holds_append, Nat.zero_add, Entry.bytes_length]
    refine ⟨hpre', ?_, hpost'⟩
    have hbytes : e.bytes = (leBytes 4 s.numTableEntries ++ leBytes 4 e.length) ++ e.body := by
      rw [Entry.bytes, he, List.append_assoc]
    rw [hbytes, holds_append, h8]
    exact ⟨hinfo, holds_poke _ _ _⟩
  · rw [logSize_append, logSize_cons]
    dsimp only
    omega
  · have := T.count
    rw [hes, List.length_append] at this
    simp only [List.length_append, List.length_cons]
    omega
  · have hperm := T.indices
    rw [hes] at hperm
    have hcount := T.count
    rw [hes] at hcount
    have hlen : (pre ++ e :: post).length = (pre ++ post).length + 1 := by simp; omega
    rw [hlen, List.range_succ, List.map_append, List.map_cons, he, hcount]
    refine List.perm_middle.trans (List.Perm.trans ?_ (List.perm_append_singleton _ _).symm)
    rw [← List.map_append]
    exact hperm.cons _
  · exact (holds_poke _ _ _).poke_of_disjoint (Or.inr (by omega))

end

/-- What the size of a saver's entry is. -/
def Saved.Consistent (x : Saved) : Prop := x.size = uintn (x.header.length + x.data.length)

/-- The entry is shorter than 4 GiB. -/
def Saved.Short (x : Saved) : Prop := sizeofInfo + x.header.length + x.data.length < 2 ^ 32

section

variable {s : State} {es : List Entry} {env : Env} {x : Saved}

/-- A saver leaves the entries alone, or puts one more among them. -/
theorem saveEntry_cases (env : Env) (T : Tiled s.info es) (hx : x.Consistent) (hshort : x.Short)
    (hn : s.info.numTableEntries < 2 ^ 32) :
    let r := saveEntry env s x
    r.2.insert = s.insert ∧
      ((r.1 = .outOfResources ∧ Tiled r.2.info es) ∨
        (r.1 = .success ∧ ∃ pre post e, es = pre ++ post ∧ Placed s.insert pre post
          ∧ e.uniqueIndex = s.info.numTableEntries ∧ e.body = x.header ++ x.data
          ∧ Tiled r.2.info (pre ++ e :: post))) := by
  intro r
  unfold Saved.Short at hshort
  have hsize : x.size = x.header.length + x.data.length := by
    rw [hx, uintn_of_lt (by unfold sizeofInfo at hshort; omega)]
  have hsize' : uintn (x.size + sizeofInfo) = sizeofInfo + (x.header ++ x.data).length := by
    rw [hsize, List.length_append, uintn_of_lt (by unfold sizeofInfo at *; omega)]
    omega
  have hbottom : s.info.tableBottom ≠ 0 := Nat.pos_iff_ne_zero.mp T.nonzero
  have hr : r = saveEntry env s x := rfl
  unfold saveEntry allocTableEntry at hr
  simp only [hbottom, if_false, hsize'] at hr
  cases hroomy : roomyTable env s.info (sizeofInfo + (x.header ++ x.data).length) with
  | none =>
    rw [hroomy] at hr
    rw [hr]
    exact ⟨rfl, Or.inl ⟨rfl, T⟩⟩
  | some info =>
    obtain ⟨T', hroom⟩ := T.roomy (by rw [List.length_append]; omega) hroomy
    rw [hroomy] at hr
    simp only at hr
    cases hplace : (if s.insert.isItInsert then
        insertPositionInBootScript info s.insert (sizeofInfo + (x.header ++ x.data).length)
      else some (info.tablePtr, info.mem)) with
    | none =>
      rw [hplace] at hr
      rw [hr]
      exact ⟨rfl, Or.inl ⟨rfl, T'⟩⟩
    | some found =>
      obtain ⟨p, m⟩ := found
      have hcount : info.numTableEntries = s.info.numTableEntries := T'.count.trans T.count.symm
      obtain ⟨pre, post, hes, hpl, rfl, hpre, hpost⟩ := T'.place (by unfold sizeofInfo; omega) hplace
      rw [hplace] at hr
      simp only at hr
      set e : Entry := ⟨info.numTableEntries, x.header ++ x.data, by rw [hcount]; exact hn,
        by rw [List.length_append]; omega⟩ with he
      have W := T'.written (e := e) hes rfl hpre hpost hroom
      rw [hr]
      refine ⟨rfl, Or.inr ⟨rfl, pre, post, e, hes, hpl, hcount, rfl, ?_⟩⟩
      simp only
      rw [← poke_append]
      exact W

end

end BayTrail.BootScript
