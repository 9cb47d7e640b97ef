import BayTrail.Dbe.Search

/-!
# The index arrays stay in order

`Sound` says that each index array lists the live records, ascending by its key. A record that is inserted goes where
the binary search ends (`dbeInsert_spec`), one that is deleted is found by its key and taken out of each array
(`dbeDelete_spec`), and a search answers by the neighbours in the order (`dbeLocateKey_spec`). So a call keeps `Sound` and
does what is asked of it (`step_meets`), and so does each call of a run (`Sound.correct`), as long as the
comparisons are right where the searches look, and nobody deletes what stands behind the entries.
-/

namespace BayTrail.Dbe

open BayTrail.Lib
open BayTrail.Compat (pointerSize maxAlloc)

section lists

variable {α β : Type} {R S : α → β → Prop} {as : List α} {bs : List β}

theorem forall₂_imp_of_mem (h : List.Forall₂ R as bs) (hRS : ∀ a ∈ as, ∀ b ∈ bs, R a b → S a b) : List.Forall₂ S as bs := by
  induction h with
  | nil => exact .nil
  | cons hab hrest ih =>
    refine .cons (hRS _ List.mem_cons_self _ List.mem_cons_self hab) (ih fun a ha b hb => ?_)
    exact hRS a (List.mem_cons_of_mem _ ha) b (List.mem_cons_of_mem _ hb)

theorem forall₂_getElem? (h : List.Forall₂ R as bs) {i : Nat} {a : α} (ha : as[i]? = some a) : ∃ b, bs[i]? = some b ∧ R a b := by
  induction h generalizing i with
  | nil => cases ha
  | cons hab hrest ih =>
    cases i with
    | zero =>
      cases ha
      exact ⟨_, rfl, hab⟩
    | succ i => exact ih ha

end lists

/-! ## One index array -/

section entries

variable {m : Mem} {f : KeyField} {live part : List Nat} {count : Nat}

theorem getElem?_take (h : count ≤ part.length) : ∀ i < (part.take count).length, part[i]? = (part.take count)[i]? := by
  intro i hi
  rw [List.length_take_of_le h] at hi
  rw [List.getElem?_take_of_lt hi]

theorem insertEntry_spec {record : Nat} (hcount : count < part.length) (hpart : Indexes m f live (part.take count))
    (hnear : ∀ p ∈ probed (recordKey m f) (recordKey m f record) (part.take count) (count + 1) 0 (count - 1),
      Near m f.size (record + f.offset) (p + f.offset)) :
    ∃ part', insertEntry m count record f part = some part' ∧ part'.length = part.length
      ∧ Indexes m f (record :: live) (part'.take (count + 1)) := by
  have hlen := List.length_take_of_le (Nat.le_of_lt hcount)
  have hsorted := sorted_iff.mpr hpart.2
  obtain ⟨r, hrun, -, -, hplace⟩ := dbeBinSearch_spec (recordKey m f record) (offsetRRCmp m f record) hsorted
    (getElem?_take (Nat.le_of_lt hcount)) (by rw [hlen]; exact fun p hp => sign_keyCmp (hnear p hp))
  rw [hlen] at hrun
  generalize hi : (if 0 ≤ r.2 then r.1 + 1 else r.1) = i at hplace
  have hle : i ≤ count := hlen ▸ hplace.1
  obtain ⟨items, hshift, hlength, htake⟩ := exists_shiftUp_insert hle hcount record
  refine ⟨items.set i record, ?_, by rw [List.length_set, hlength], ?_⟩
  · have hset : setAt items i record = some (items.set i record) := setAt_of_lt (by omega) record
    simp only [insertEntry, hrun, Option.bind_eq_bind, Option.bind_some, hi, hshift, hset]
  · rw [htake]
    exact ⟨(List.perm_insertIdx record _ hplace.1).trans (hpart.1.cons record), sorted_iff.mp (hplace.sorted hsorted)⟩

theorem insertEntries_spec (record : Nat) {fs : List KeyField} {parts : List (List Nat)}
    (h : List.Forall₂ (fun f part => (count < part.length ∧ Indexes m f live (part.take count)) ∧
      ∀ p ∈ probed (recordKey m f) (recordKey m f record) (part.take count) (count + 1) 0 (count - 1),
        Near m f.size (record + f.offset) (p + f.offset)) fs parts) :
    ∃ parts', insertEntries m count record fs parts = some parts' ∧ parts'.map List.length = parts.map List.length
      ∧ List.Forall₂ (fun f part => Indexes m f (record :: live) (part.take (count + 1))) fs parts' := by
  induction h with
  | nil => exact ⟨[], rfl, rfl, .nil⟩
  | cons hpart hrest ih =>
    obtain ⟨part', hrun, hlen, hindexes⟩ := insertEntry_spec hpart.1.1 hpart.1.2 hpart.2
    obtain ⟨parts', hruns, hlens, hall⟩ := ih
    refine ⟨part' :: parts', ?_, ?_, .cons hindexes hall⟩
    · simp only [insertEntries, hrun, hruns, Option.bind_eq_bind, Option.bind_some]
      rfl
    · rw [List.map_cons, List.map_cons, hlen, hlens]

theorem dbeDelIndexKeyEntry_spec {data : Nat} (hcount : count ≤ part.length) (hfits : part.length * pointerSize ≤ maxAlloc)
    (hpart : Indexes m f live (part.take count)) (hdata : data ∈ live) :
    ∃ part', dbeDelIndexKeyEntry count data part = some (some part') ∧ part'.length = part.length
      ∧ Indexes m f (live.erase data) (part'.take (count - 1)) := by
  have hlen := List.length_take_of_le hcount
  have hmem : data ∈ part.take count := hpart.1.mem_iff.mpr hdata
  have hlt := List.idxOf_lt_length_of_mem hmem
  have hget := List.getElem?_eq_getElem hlt
  rw [List.getElem_idxOf hlt, ← getElem?_take hcount _ hlt] at hget
  generalize hi : (part.take count).idxOf data = i at hlt hget
  rw [hlen] at hlt
  simp only [pointerSize, maxAlloc] at hfits
  have hbytes : pointerSize * (count + 2 ^ 64 - i - 1) % 2 ^ 64 / pointerSize = count - 1 - i := by
    simp only [pointerSize]
    omega
  obtain ⟨items, hshift, hlength, htake⟩ := exists_shiftDown_erase hlt hcount
  refine ⟨items, ?_, hlength, ?_⟩
  · simp only [dbeDelIndexKeyEntry, hi, hget, Option.bind_eq_bind, Option.bind_some, hbytes, hshift]
    exact if_neg fun hne => hne rfl
  · rw [htake, ← hi, ← List.erase_eq_eraseIdx_of_idxOf rfl]
    exact ⟨hpart.1.erase data, hpart.2.sublist List.erase_sublist⟩

theorem deleteEntries_spec {data : Nat} {fs : List KeyField} {parts : List (List Nat)} (hdata : data ∈ live)
    (h : List.Forall₂ (fun f part => (count ≤ part.length ∧ part.length * pointerSize ≤ maxAlloc) ∧ Indexes m f live (part.take count)) fs parts) :
    ∃ parts', deleteEntries count data parts = some (true, parts') ∧ parts'.map List.length = parts.map List.length
      ∧ List.Forall₂ (fun f part => Indexes m f (live.erase data) (part.take (count - 1))) fs parts' := by
  induction h with
  | nil => exact ⟨[], rfl, rfl, .nil⟩
  | cons hpart hrest ih =>
    obtain ⟨part', hrun, hlen, hindexes⟩ := dbeDelIndexKeyEntry_spec hpart.1.1 hpart.1.2 hpart.2 hdata
    obtain ⟨parts', hruns, hlens, hall⟩ := ih
    refine ⟨part' :: parts', ?_, ?_, .cons hindexes hall⟩
    · simp only [deleteEntries, hrun, hruns, Option.bind_eq_bind, Option.bind_some]
      rfl
    · rw [List.map_cons, List.map_cons, hlen, hlens]

/-- The slot behind the entries holds something else. -/
theorem dbeDelIndexKeyEntry_none {data p : Nat} (hcount : count ≤ part.length) (hdata : data ∉ part.take count) (hp : part[count]? = some p)
    (hne : p ≠ data) : dbeDelIndexKeyEntry count data part = some none := by
  have hi : (part.take count).idxOf data = count := (List.idxOf_eq_length_iff.mpr hdata).trans (List.length_take_of_le hcount)
  simp only [dbeDelIndexKeyEntry, hi, hp, Option.bind_eq_bind, Option.bind_some, if_pos hne]
  rfl

end entries

/-! ## Runs -/

/-- Behind the entries there is a slot, unless there are none at all. -/
structure Sound (fs : List KeyField) (w : World) : Prop where
  keyField : w.db.keyField = some fs
  keyCount : w.db.keyCount = fs.length
  keyCount_lt : fs.length < 2 ^ 64
  recordCount : w.db.recordCount = w.live.length
  spare : w.db.recordCount < w.db.initialCount ∨ (w.db.initialCount = 0 ∧ w.db.recordCount = 0)
  parts : ∀ part ∈ w.db.indexArray, part.length = w.db.initialCount
  fits : w.db.initialCount * pointerSize * w.db.keyCount ≤ maxAlloc
  ordered : Ordered fs w

theorem Made.sound {fs : List KeyField} {w : World} (h : Made fs w) : Sound fs w where
  keyField := h.keyField
  keyCount := h.keyCount
  keyCount_lt := h.keyCount_lt
  recordCount := by rw [h.recordCount, h.live, List.length_nil]
  spare := by
    rw [h.recordCount]
    omega
  parts := h.parts
  fits := h.fits
  ordered := by
    have hempty : ∀ f part, Indexes w.mem f w.live (entries w.db part) := by
      intro f part
      rw [h.live, entries, h.recordCount, List.take_zero]
      exact ⟨.nil, .nil⟩
    rw [Ordered, List.forall₂_iff_get]
    exact ⟨h.keyCount.symm, fun _ _ _ => hempty _ _⟩

section steps

variable {fs : List KeyField} {w : World} {m : Mem}

theorem Sound.ordered_of_kept (h : Sound fs w) (hkept : KeysKept fs w m) : Ordered fs { w with mem := m } := by
  refine forall₂_imp_of_mem h.ordered fun f hf part _ hpart => ⟨hpart.1, hpart.2.imp_of_mem fun {p q} hp hq hle => ?_⟩
  rw [hkept f hf p (hpart.1.mem_iff.mp hp), hkept f hf q (hpart.1.mem_iff.mp hq)]
  exact hle

/-- What other code writes to the memory is of no consequence, as long as it keeps the keys. -/
theorem Sound.kept (h : Sound fs w) (hkept : KeysKept fs w m) : Sound fs { w with mem := m } :=
  { h with ordered := h.ordered_of_kept hkept }

theorem Sound.recordCount_le (h : Sound fs w) : w.db.recordCount ≤ w.db.initialCount := by
  rcases h.spare with hlt | ⟨hinitial, hcount⟩
  · exact Nat.le_of_lt hlt
  · omega

theorem Sound.initialCount_fits (h : Sound fs w) (hfs : fs ≠ []) : w.db.initialCount * pointerSize ≤ maxAlloc := by
  have hpos : 0 < w.db.keyCount := by
    rw [h.keyCount]
    exact List.length_pos_of_ne_nil hfs
  exact Nat.le_trans (Nat.le_mul_of_pos_right _ hpos) h.fits

theorem Sound.part_fits (h : Sound fs w) {part : List Nat} (hpart : part ∈ w.db.indexArray) : part.length * pointerSize ≤ maxAlloc := by
  have hne : fs ≠ [] := by
    rintro rfl
    have := List.length_pos_of_mem hpart
    rw [show w.db.indexArray.length = 0 from h.keyCount] at this
    omega
  rw [h.parts part hpart]
  exact h.initialCount_fits hne

/-- A larger index array, with the same entries: then there is room for another one. -/
theorem dbeReallocIndexArray_spec (h : Sound fs w) (hfs : fs ≠ []) (hinitial : w.db.initialCount ≠ 0) (hgrows : Grows w.db) (avail : Bool) :
    dbeReallocIndexArray avail w.db = some (.outOfResources, w.db)
      ∨ ∃ db, dbeReallocIndexArray avail w.db = some (.success, db) ∧ Sound fs { w with db := db } ∧ db.recordCount = w.db.recordCount
        ∧ db.recordCount + 1 < db.initialCount ∧ db.indexArray.map (entries w.db) = w.db.indexArray.map (entries w.db) := by
  have hlt := h.spare.resolve_right fun h => hinitial h.1
  have hfits := h.initialCount_fits hfs
  have htotal := h.fits
  rw [Grows] at hgrows
  simp only [pointerSize, maxAlloc] at hfits htotal
  have hnew : w.db.initialCount * 2 % 2 ^ 64 = w.db.initialCount * 2 := Nat.mod_eq_of_lt (by omega)
  have hsize : w.db.initialCount * 2 * pointerSize * w.db.keyCount = 2 * (w.db.initialCount * 8 * w.db.keyCount) := by
    simp only [pointerSize, Nat.mul_comm w.db.initialCount 2, Nat.mul_assoc]
  have hmod : w.db.initialCount * 2 * pointerSize * w.db.keyCount % 2 ^ 64 = w.db.initialCount * 2 * pointerSize * w.db.keyCount := by
    rw [hsize]
    exact Nat.mod_eq_of_lt (by omega)
  simp only [dbeReallocIndexArray, hnew, hmod]
  by_cases havail : avail = false ∨ maxAlloc < w.db.initialCount * 2 * pointerSize * w.db.keyCount
  · rw [if_pos havail]
    exact Or.inl rfl
  · right
    rw [if_neg havail, if_neg (by omega)]
    have hentries : ∀ part ∈ w.db.indexArray, entries w.db (part ++ List.replicate (w.db.initialCount * 2 - w.db.initialCount) 0) = entries w.db part := by
      intro part hpart
      have := h.parts part hpart
      exact List.take_append_of_le_length (by omega)
    refine ⟨_, rfl, ?_, rfl, by simp only; omega, ?_⟩
    · refine { h with keyCount := ?_, spare := Or.inl (by simp only; omega), parts := ?_, fits := ?_, ordered := ?_ }
      · simp only [Database.keyCount, List.length_map]
        exact h.keyCount
      · intro part hpart
        obtain ⟨old, hold, rfl⟩ := List.mem_map.mp hpart
        rw [List.length_append, List.length_replicate, h.parts old hold]
        simp only
        omega
      · simp only [Database.keyCount, List.length_map]
        exact Nat.le_of_not_lt fun h => havail (Or.inr h)
      · rw [Ordered, List.forall₂_map_right_iff]
        refine forall₂_imp_of_mem h.ordered fun f _ part hpart hindexes => ?_
        have heq := hentries part hpart
        rw [entries] at heq
        rw [entries, heq]
        exact hindexes
    · rw [List.map_map]
      exact List.map_congr_left hentries

variable {parts parts' : List (List Nat)} {data keyNo : Nat}

/-- The parts of another index array are as long as those of this one. -/
theorem forall_length {n : Nat} (hlens : parts'.map List.length = parts.map List.length)
    (h : ∀ part ∈ parts, part.length = n) : ∀ part ∈ parts', part.length = n := by
  intro part hpart
  obtain ⟨old, hold, heq⟩ := List.mem_map.mp (hlens ▸ List.mem_map_of_mem hpart)
  rw [← heq, h old hold]

theorem length_eq_of_map_length (hlens : parts'.map List.length = parts.map List.length) :
    parts'.length = parts.length := by
  rw [← List.length_map (f := List.length), hlens, List.length_map]

/-- With a slot left behind the next one. -/
theorem insertEntries_sound (record : Nat) (h : Sound fs w) (hroom : w.db.recordCount + 1 < w.db.initialCount)
    (hnear : List.Forall₂ (fun f part => ∀ p ∈ looksAt w.db (recordKey w.mem f) (recordKey w.mem f record) part,
      Near w.mem f.size (record + f.offset) (p + f.offset)) fs w.db.indexArray) :
    ∃ parts, insertEntries w.mem w.db.recordCount record fs w.db.indexArray = some parts
      ∧ Sound fs { db := { w.db with indexArray := parts, recordCount := w.db.recordCount + 1 }, live := record :: w.live, mem := w.mem } := by
  have hall : List.Forall₂ (fun f part => Indexes w.mem f w.live (entries w.db part) ∧
      ∀ p ∈ looksAt w.db (recordKey w.mem f) (recordKey w.mem f record) part, Near w.mem f.size (record + f.offset) (p + f.offset)) fs w.db.indexArray :=
    List.forall₂_iff_get.mpr ⟨hnear.length_eq, fun i h1 h2 => ⟨h.ordered.get h1 h2, hnear.get h1 h2⟩⟩
  obtain ⟨parts, hrun, hlens, hindexes⟩ := insertEntries_spec record <|
    forall₂_imp_of_mem hall fun f _ part hpart hf => ⟨⟨by rw [h.parts part hpart]; omega, hf.1⟩, hf.2⟩
  refine ⟨parts, hrun, ?_⟩
  refine { h with keyCount := ?_, recordCount := ?_, spare := Or.inl hroom, parts := forall_length hlens h.parts, fits := ?_, ordered := hindexes }
  · exact (length_eq_of_map_length hlens).trans h.keyCount
  · rw [h.recordCount, List.length_cons]
  · simp only [Database.keyCount, length_eq_of_map_length hlens]
    exact h.fits

theorem dbeInsert_spec {record : Nat} {avail : Bool} (h : Sound fs w) (hrecord : record ≠ 0)
    (hholds : (Grows w.db ∧ avail = false) ∨ (fs ≠ [] ∧ w.db.initialCount ≠ 0 ∧ List.Forall₂ (fun f part =>
      ∀ p ∈ looksAt w.db (recordKey w.mem f) (recordKey w.mem f record) part, Near w.mem f.size (record + f.offset) (p + f.offset)) fs w.db.indexArray)) :
    dbeInsert w.mem avail w.db record = some (.outOfResources, w.db)
      ∨ ∃ db, dbeInsert w.mem avail w.db record = some (.success, db) ∧ Sound fs { db := db, live := record :: w.live, mem := w.mem } := by
  rcases hholds with ⟨hgrows, rfl⟩ | ⟨hfs, hinitial, hnear⟩
  · left
    have hnone : dbeReallocIndexArray false w.db = some (.outOfResources, w.db) := by
      rw [dbeReallocIndexArray]
      exact if_pos (Or.inl rfl)
    simp only [dbeInsert, if_neg hrecord, if_pos hgrows, hnone, Option.bind_eq_bind, Option.bind_some]
    rfl
  · by_cases hgrows : Grows w.db
    · rcases dbeReallocIndexArray_spec h hfs hinitial hgrows avail with hnone | ⟨db, hrun, hsound, hcount, hroom, hentries⟩
      · left
        simp only [dbeInsert, if_neg hrecord, if_pos hgrows, hnone, Option.bind_eq_bind, Option.bind_some]
        rfl
      · right
        -- the searches look at the same entries in the larger array
        have hnear' : List.Forall₂ (fun f part => ∀ p ∈ looksAt db (recordKey w.mem f) (recordKey w.mem f record) part,
            Near w.mem f.size (record + f.offset) (p + f.offset)) fs db.indexArray := by
          simp only [looksAt, entries, hcount] at hnear ⊢
          refine (List.forall₂_map_right_iff (f := List.take w.db.recordCount) (R := fun f l => ∀ p ∈ probed (recordKey w.mem f)
            (recordKey w.mem f record) l (w.db.recordCount + 1) 0 (w.db.recordCount - 1), Near w.mem f.size (record + f.offset) (p + f.offset))).mp ?_
          rw [show db.indexArray.map (List.take w.db.recordCount) = w.db.indexArray.map (List.take w.db.recordCount) from hentries]
          exact List.forall₂_map_right_iff.mpr hnear
        obtain ⟨parts, hparts, hsound'⟩ := insertEntries_sound record hsound hroom hnear'
        refine ⟨{ db with indexArray := parts, recordCount := db.recordCount + 1 }, ?_, hsound'⟩
        have hfield : db.keyField = some fs := hsound.keyField
        simp only at hparts
        simp only [dbeInsert, if_neg hrecord, if_pos hgrows, hrun, Option.bind_eq_bind, Option.bind_some, hfield, hparts]
        rfl
    · right
      have hlt := h.spare.resolve_right fun h => hinitial h.1
      have hfits := h.initialCount_fits hfs
      simp only [pointerSize, maxAlloc] at hfits
      have hroom : w.db.recordCount + 1 < w.db.initialCount := by
        rw [Grows] at hgrows
        omega
      obtain ⟨parts, hparts, hsound'⟩ := insertEntries_sound _ h hroom hnear
      refine ⟨_, ?_, hsound'⟩
      simp only [dbeInsert, if_neg hrecord, if_neg hgrows, Option.bind_eq_bind, Option.bind_some, h.keyField, hparts]
      rfl

theorem dbeDelete_spec (h : Sound fs w) (hdata : data ∈ w.live) :
    ∃ db, dbeDelete w.db data = some (.success, db) ∧ Sound fs { db := db, live := w.live.erase data, mem := w.mem } := by
  have hpos := List.length_pos_of_mem hdata
  have hcount := h.recordCount
  have hle := h.recordCount_le
  obtain ⟨parts, hrun, hlens, hindexes⟩ := deleteEntries_spec hdata <| forall₂_imp_of_mem h.ordered fun f _ part hpart hf =>
    ⟨⟨by rw [h.parts part hpart]; exact hle, h.part_fits hpart⟩, hf⟩
  refine ⟨{ w.db with indexArray := parts, recordCount := w.db.recordCount - 1 }, ?_, ?_⟩
  · simp only [dbeDelete, if_neg (show w.db.recordCount ≠ 0 by omega), hrun, Option.bind_eq_bind, Option.bind_some]
    rfl
  · refine { h with keyCount := ?_, recordCount := ?_, spare := ?_, parts := forall_length hlens h.parts, fits := ?_, ordered := hindexes }
    · exact (length_eq_of_map_length hlens).trans h.keyCount
    · rw [hcount, List.length_erase_of_mem hdata]
    · simp only
      omega
    · simp only [Database.keyCount, length_eq_of_map_length hlens]
      exact h.fits

/-- A record that is not in the database. -/
theorem dbeDelete_invalid (h : Sound fs w) (hdata : data ∉ w.live)
    (hholds : w.db.recordCount = 0 ∨ ∃ part p, w.db.indexArray[0]? = some part ∧ part[w.db.recordCount]? = some p ∧ p ≠ data) :
    dbeDelete w.db data = some (.invalidParameter, w.db) := by
  by_cases hzero : w.db.recordCount = 0
  · rw [dbeDelete, if_pos hzero]
    rfl
  · obtain ⟨part, p, hpart, hp, hne⟩ := hholds.resolve_left hzero
    obtain ⟨f, hf⟩ : ∃ f, fs[0]? = some f := by
      have hlt : 0 < w.db.keyCount := (List.getElem?_eq_some_iff.mp hpart).1
      rw [h.keyCount] at hlt
      exact ⟨fs[0], List.getElem?_eq_getElem hlt⟩
    obtain ⟨part', hpart', hindexes⟩ := forall₂_getElem? h.ordered hf
    obtain rfl := Option.some.inj (hpart.symm.trans hpart')
    have hle : w.db.recordCount ≤ part.length := (h.parts part (List.mem_of_getElem? hpart)) ▸ h.recordCount_le
    have hnone := dbeDelIndexKeyEntry_none hle (fun hmem => hdata (hindexes.1.mem_iff.mp hmem)) hp hne
    cases harray : w.db.indexArray with
    | nil =>
      rw [harray] at hpart
      cases hpart
    | cons first rest =>
      rw [harray] at hpart
      cases hpart
      simp only [dbeDelete, if_neg hzero, harray, deleteEntries, hnone, Option.bind_eq_bind, Option.bind_some]
      exact congrArg (fun array => some (Status.invalidParameter, { w.db with indexArray := array })) harray.symm

theorem dbeLocateKey_invalid (keyValue : Nat) (h : Sound fs w) (hfs : fs ≠ []) (hkeyNo : fs[keyNo]? = none) :
    dbeLocateKey w.mem w.db keyNo keyValue = some (.invalidParameter, none) := by
  have hpos := List.length_pos_of_ne_nil hfs
  have hlt := h.keyCount_lt
  have hle := List.getElem?_eq_none_iff.mp hkeyNo
  simp only [dbeLocateKey, h.keyField, h.keyCount]
  exact if_pos (by omega)

theorem dbeLocateKey_spec (keyValue : Nat) {f : KeyField} (h : Sound fs w) (hf : fs[keyNo]? = some f)
    (hnear : ∀ part, w.db.indexArray[keyNo]? = some part →
      ∀ p ∈ looksAt w.db (recordKey w.mem f) (unsignedKey w.mem f.size keyValue) part, Near w.mem f.size keyValue (p + f.offset)) :
    ∃ part r, w.db.indexArray[keyNo]? = some part ∧ dbeLocateKey w.mem w.db keyNo keyValue = some (if r.2 = 0 then .success else .notFound, some r)
      ∧ Located (recordKey w.mem f) (unsignedKey w.mem f.size keyValue) (entries w.db part) r
      ∧ (r.2 = 0 ↔ ∃ p ∈ w.live, recordKey w.mem f p = unsignedKey w.mem f.size keyValue) := by
  obtain ⟨part, hpart, hindexes⟩ := forall₂_getElem? h.ordered hf
  have hkeyNo : keyNo < fs.length := (List.getElem?_eq_some_iff.mp hf).1
  have hle : w.db.recordCount ≤ part.length := (h.parts part (List.mem_of_getElem? hpart)) ▸ h.recordCount_le
  have hlen := List.length_take_of_le hle
  have hlt := h.keyCount_lt
  obtain ⟨r, hrun, hlocated, hfound, -⟩ := dbeBinSearch_spec (unsignedKey w.mem f.size keyValue) (offsetKRCmp w.mem f keyValue)
    (sorted_iff.mpr hindexes.2) (getElem?_take hle) (by
      rw [entries, hlen]
      exact fun p hp => sign_keyCmp (hnear part hpart p hp))
  refine ⟨part, r, hpart, ?_, hlocated, ?_⟩
  · rw [entries, hlen] at hrun
    simp only [dbeLocateKey, h.keyField, h.keyCount]
    rw [if_neg (by omega)]
    simp only [hf, hpart, Option.bind_eq_bind, Option.bind_some, hrun]
    rfl
  · rw [hfound]
    exact exists_congr fun p => and_congr_left fun _ => hindexes.1.mem_iff

/-- Every call that can be done right is. -/
theorem step_meets {c : Call} (hs : Sound fs w) (hc : Holds fs w c) : ∃ r w', step w c = some (r, w') ∧ Meets fs w c r w' ∧ Sound fs w' := by
  obtain ⟨op, mem, avail⟩ := c
  obtain ⟨hkept, hc⟩ := hc
  have h := hs.kept hkept
  cases op with
  | insert record =>
    by_cases hrecord : record = 0
    · refine ⟨⟨.invalidParameter, none⟩, _, ?_, ?_, h⟩
      · simp only [step, dbeInsert, if_pos hrecord, Option.bind_eq_bind]
        rfl
      · show if record = 0 then _ else _
        rw [if_pos hrecord]
        exact ⟨rfl, rfl, rfl⟩
    · rcases dbeInsert_spec h hrecord (hc.resolve_left hrecord) with hrun | ⟨db, hrun, hsound⟩
      · refine ⟨⟨.outOfResources, none⟩, _, ?_, ?_, h⟩
        · simp only at hrun
          simp only [step, hrun, Option.bind_eq_bind, Option.bind_some]
          rfl
        · show if record = 0 then _ else _
          rw [if_neg hrecord]
          exact Or.inr ⟨rfl, rfl, rfl⟩
      · refine ⟨⟨.success, none⟩, _, ?_, ?_, hsound⟩
        · simp only at hrun
          simp only [step, hrun, Option.bind_eq_bind, Option.bind_some]
          rfl
        · show if record = 0 then _ else _
          rw [if_neg hrecord]
          exact Or.inl ⟨rfl, rfl⟩
  | delete data freeData =>
    by_cases hdata : data ∈ w.live
    · obtain ⟨db, hrun, hsound⟩ := dbeDelete_spec h hdata
      refine ⟨⟨.success, none⟩, _, ?_, ?_, hsound⟩
      · simp only at hrun
        simp only [step, hrun, Option.bind_eq_bind, Option.bind_some]
        rfl
      · show if data ∈ w.live then _ else _
        rw [if_pos hdata]
        exact ⟨rfl, rfl⟩
    · have hrun := dbeDelete_invalid h hdata (hc.resolve_left hdata)
      refine ⟨⟨.invalidParameter, none⟩, _, ?_, ?_, h⟩
      · simp only at hrun
        simp only [step, hrun, Option.bind_eq_bind, Option.bind_some]
        rfl
      · show if data ∈ w.live then _ else _
        rw [if_neg hdata]
        exact ⟨rfl, rfl, rfl⟩
  | locate keyNo keyValue =>
    obtain ⟨hfs, hnear⟩ := hc
    cases hf : fs[keyNo]? with
    | none =>
      have hrun := dbeLocateKey_invalid keyValue h hfs hf
      refine ⟨⟨.invalidParameter, none⟩, _, ?_, ?_, h⟩
      · simp only at hrun
        simp only [step, hrun, Option.bind_eq_bind, Option.bind_some]
        rfl
      · refine ⟨rfl, ?_⟩
        simp only [hf]
    | some f =>
      obtain ⟨part, r, hpart, hrun, hlocated, hfound⟩ := dbeLocateKey_spec keyValue h hf (hnear f · hf)
      refine ⟨⟨if r.2 = 0 then .success else .notFound, some r⟩, _, ?_, ?_, h⟩
      · simp only at hrun
        simp only [step, hrun, Option.bind_eq_bind, Option.bind_some]
        rfl
      · refine ⟨rfl, ?_⟩
        simp only [hf]
        refine ⟨part, r, hpart, rfl, hlocated, ?_⟩
        rw [← hfound]
        by_cases hzero : r.2 = 0
        · rw [if_pos hzero]
          exact ⟨fun _ => hzero, fun _ => rfl⟩
        · rw [if_neg hzero]
          exact ⟨nofun, fun h => absurd h hzero⟩

end steps

theorem Sound.correct {fs : List KeyField} {w : World} {cs : List Call} (hs : Sound fs w) (hcs : AllHold fs w cs) : Correct fs w cs := by
  induction cs generalizing w with
  | nil => exact hs.ordered
  | cons c cs ih =>
    obtain ⟨r, w', hstep, hmeets, hs'⟩ := step_meets hs hcs.1
    exact ⟨hs.ordered, r, w', hstep, hmeets, ih hs' (hcs.2 r w' hstep)⟩

/-- In every run the index arrays are in order, and every call answers right, if no search compares keys that are half
their range apart, and nobody deletes what the slot behind the entries holds. -/
theorem database_ordered (fs : List KeyField) (w : World) (hw : Made fs w) (cs : List Call) (hcs : AllHold fs w cs) : Correct fs w cs :=
  hw.sound.correct hcs

/-- A record at two, its key is zero, and one at four, with this key. -/
def twoRecords (lo hi : UInt8) : Mem := fun a => if a = 4 then lo else if a = 5 then hi else 0

/-- Room for three records with keys of two bytes. -/
def threeSlots (m : Mem) : World :=
  { db := { initialCount := 4, recordCount := 0, keyField := some [⟨0, 2⟩], indexArray := [[0, 0, 0, 0]] }, live := [], mem := m }

theorem threeSlots_made (m : Mem) : Made [⟨0, 2⟩] (threeSlots m) where
  keyField := rfl
  keyCount := rfl
  keyCount_lt := by decide
  recordCount := rfl
  live := rfl
  parts := by
    intro part hpart
    rw [List.mem_singleton.mp hpart]
    rfl
  fits := show 4 * pointerSize * 1 ≤ maxAlloc by decide

/-- The database with these two entries. -/
def withEntries (count : Nat) (part : List Nat) : Database :=
  { initialCount := 4, recordCount := count, keyField := some [⟨0, 2⟩], indexArray := [part] }

theorem step_first (m : Mem) : step (threeSlots m) ⟨.insert 2, m, true⟩
    = some (⟨.success, none⟩, { db := withEntries 1 [2, 0, 0, 0], live := [2], mem := m }) := by
  have hrun : dbeInsert m true (threeSlots m).db 2 = some (.success, withEntries 1 [2, 0, 0, 0]) := by
    have hgrows : ¬ Grows (threeSlots m).db := by
      show ¬ (4 + 2 ^ 64 - 1) % 2 ^ 64 = 0
      decide
    rw [dbeInsert, if_neg (by decide), if_neg hgrows]
    rfl
  simp only [step, hrun, Option.bind_eq_bind, Option.bind_some]
  rfl

def insertBoth (m : Mem) : List Call := [⟨.insert 2, m, true⟩, ⟨.insert 4, m, true⟩]

theorem database_ordered_near :
    (Made [⟨0, 2⟩] (threeSlots (twoRecords 1 1)) ∧ AllHold [⟨0, 2⟩] (threeSlots (twoRecords 1 1)) (insertBoth (twoRecords 1 1)))
      ∧ Correct [⟨0, 2⟩] (threeSlots (twoRecords 1 1)) (insertBoth (twoRecords 1 1)) := by
  have hcs : AllHold [⟨0, 2⟩] (threeSlots (twoRecords 1 1)) (insertBoth (twoRecords 1 1)) := by
    refine ⟨⟨fun _ _ _ _ => rfl, Or.inr (Or.inr ⟨List.cons_ne_nil _ _, by decide, .cons nofun .nil⟩)⟩, fun r w' hstep => ?_⟩
    rw [step_first] at hstep
    cases hstep
    refine ⟨⟨fun _ _ _ _ => rfl, Or.inr (Or.inr ⟨List.cons_ne_nil _ _, by decide, .cons (fun p hp => ?_) .nil⟩)⟩, fun _ _ _ => trivial⟩
    -- the search looks at the first record, and its key is near
    rw [List.mem_singleton.mp hp, Near, if_pos (Or.inl rfl)]
    decide
  exact ⟨⟨threeSlots_made _, hcs⟩, database_ordered _ _ (threeSlots_made _) _ hcs⟩

/-- The keys are zero and 8001h: the difference is negative as a signed number, and the larger one goes in front. -/
theorem not_database_ordered :
    ¬ ∀ (fs : List KeyField) (w : World), Made fs w → ∀ cs : List Call, (∀ c ∈ cs, c.mem = w.mem) → Correct fs w cs := by
  intro h
  obtain ⟨-, r, w', hfirst, -, h⟩ := h _ _ (threeSlots_made (twoRecords 1 0x80)) (insertBoth (twoRecords 1 0x80)) (by
    intro c hc
    rcases List.mem_cons.mp hc with rfl | hc
    · rfl
    · rw [List.mem_singleton.mp hc]
      rfl)
  rw [step_first] at hfirst
  cases hfirst
  obtain ⟨-, r, w', hsecond, -, hordered⟩ := h
  have hrun : dbeInsert (twoRecords 1 0x80) true (withEntries 1 [2, 0, 0, 0]) 4 = some (.success, withEntries 2 [4, 2, 0, 0]) := by
    decide +kernel
  simp only [step, hrun, Option.bind_eq_bind, Option.bind_some] at hsecond
  cases hsecond
  cases hordered with
  | cons hindexes _ =>
    have hle := (List.pairwise_cons.mp hindexes.2).1 2 List.mem_cons_self
    exact absurd hle (by decide)

end BayTrail.Dbe
