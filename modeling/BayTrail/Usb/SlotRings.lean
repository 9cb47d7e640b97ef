import BayTrail.Usb.Endpoints
import Mathlib.Tactic.Ring

/-!
# Endpoints within a slot

The configuration of the endpoints of a device touches its own slot only, for the buffers of which the
walk ends inside, in which no endpoint has the context index 0, and with one isochronous endpoint at
most: the first one takes the memory that has been provided, and leaves the address of its ring there.
-/

namespace BayTrail.Usb.Endpoints

open BayTrail.Lib

variable {c : Controller} {d : Device c} {slotId : UInt8} {slot : Nat} {s : Setup} {e e' : Endpoint} {es : List Endpoint}
  {items : List Item} {x : Segment} {rings : Int → TrbRing}

/-! ## The slot -/

theorem getSlotId_eq (d : Device c) : (getSlotId c d.devMiscInfo).toNat = d.slot := by
  have hsize : 0 < c.slotSize := Nat.mul_pos (by decide) c.sized
  have hdiv : (d.devMiscInfo - c.deviceContext) / c.slotSize = d.slot - 1 := by
    rw [d.here, Nat.add_sub_cancel_left, Nat.mul_div_cancel _ hsize]
  have hpos := d.pos
  have hle := Nat.le_trans d.le c.few
  unfold getSlotId
  rw [hdiv, UInt8.toNat_add, UInt8.toNat_ofNat']
  change ((d.slot - 1) % 256 + 1) % 256 = d.slot
  omega

/-- The context of the device is among those of the controller. -/
theorem devMiscInfo_within (d : Device c) :
    ¬ d.devMiscInfo < c.deviceContext ∧ ¬ d.devMiscInfo > c.deviceContext + c.slotSize * c.maxSlots := by
  have hle : (d.slot - 1) * c.slotSize ≤ c.slotSize * c.maxSlots := by
    rw [Nat.mul_comm]
    exact Nat.mul_le_mul_left _ (Nat.le_trans (Nat.sub_le _ _) d.le)
  rw [d.here]
  omega

/-! ## The indices of an endpoint -/

theorem dci_lt (e : Endpoint) : e.dci.toNat < 32 := by
  have hand : (e.bEndpointAddr &&& 0xf).toNat ≤ 15 := by
    rw [UInt8.toNat_and]
    exact Nat.and_le_right
  unfold Endpoint.dci
  split
  · rw [UInt8.toNat_add, UInt8.toNat_mul]
    change ((e.bEndpointAddr &&& 0xf).toNat * 2 % 256 + 1) % 256 < 32
    omega
  · rw [UInt8.toNat_add, UInt8.toNat_mul]
    change ((e.bEndpointAddr &&& 0xf).toNat * 2 % 256 + 0) % 256 < 32
    omega

theorem dci_pos (h : e.dci ≠ 0) : 0 < e.dci.toNat :=
  Nat.pos_of_ne_zero fun hzero => h (UInt8.toNat_inj.mp hzero)

/-- The ring of an endpoint that is not the one of index 0. -/
theorem endpointRing_index (hslot : slotId.toNat = slot) (h : e.dci ≠ 0) :
    (endpointRing slotId x e).1 = ((slot : Int) - 1) * 32 + e.dci.toNat - 1 := by
  have hpos := dci_pos h
  have hsub : (e.dci - 1).toNat = e.dci.toNat - 1 := UInt8.toNat_sub_of_le _ _ (UInt8.le_iff_toNat_le.mpr hpos)
  unfold endpointRing
  split
  · dsimp only
    rw [ringIndex, hslot]
    omega
  · dsimp only
    rw [ringIndex, hslot, hsub]
    omega

/-- For the index 0 the ring is one of a slot in front, or of one behind. -/
theorem endpointRing_own (hslot : slotId.toNat = slot) : OwnRing slot (endpointRing slotId x e).1 ↔ e.dci ≠ 0 := by
  constructor
  · intro h hzero
    unfold endpointRing ringIndex OwnRing at h
    rw [hzero, hslot] at h
    have hlast : ((0 : UInt8) - 1).toNat = 255 := rfl
    have hfirst : (0 : UInt8).toNat = 0 := rfl
    split at h <;> dsimp only at h <;> omega
  · intro h
    have hpos := dci_pos h
    have hlt := dci_lt e
    rw [endpointRing_index hslot h]
    unfold OwnRing
    omega

/-! ## Writes -/

/-- No endpoint has the index 0, and the memory for isochronous transfers is enough. -/
structure Suits (xferRing : Segment) (es : List Endpoint) : Prop where
  numbers : ∀ e ∈ es, e.dci ≠ 0
  isoc : es.countP Endpoint.isIsoc ≤ if xferRing = .isoc then 1 else 0

theorem suits_nil : Suits x [] := ⟨fun _ h => (nomatch h), Nat.zero_le _⟩

theorem suits_cons (index : Int) : Suits x (e :: es) ↔
    e.dci ≠ 0 ∧ (e.isIsoc = true → x = .isoc) ∧ Suits (if e.isIsoc then .trbRing index else x) es := by
  constructor
  · intro ⟨hnumbers, hisoc⟩
    refine ⟨hnumbers e List.mem_cons_self, fun h => ?_, fun e' he' => hnumbers e' (List.mem_cons_of_mem e he'), ?_⟩
    · rw [List.countP_cons, if_pos h] at hisoc
      by_contra hx
      rw [if_neg hx] at hisoc
      omega
    · rw [List.countP_cons] at hisoc
      split at hisoc
      · rename_i h
        rw [if_pos h]
        -- the one that may be is this one
        split at hisoc <;> omega
      · rename_i h
        rw [if_neg h]
        exact hisoc
  · intro ⟨hdci, hx, hnumbers, hisoc⟩
    refine ⟨List.forall_mem_cons.mpr ⟨hdci, hnumbers⟩, ?_⟩
    rw [List.countP_cons]
    by_cases h : e.isIsoc = true
    · rw [if_pos h] at hisoc ⊢
      rw [if_pos (hx h)]
      have hzero : es.countP Endpoint.isIsoc ≤ 0 := hisoc
      omega
    · rw [if_neg h] at hisoc ⊢
      exact hisoc

theorem own_isoc {size : Nat} (h : 64 < size) : Own slot (.trbs x size) ↔ x = .isoc := by
  cases x with
  | xfrTrbs index => exact iff_of_false (fun ⟨_, hle⟩ => by omega) (fun hx => nomatch hx)
  | isoc => exact iff_of_true trivial rfl
  | trbRing index => exact iff_of_false (fun h => h) (fun hx => nomatch hx)

theorem own_enableEndpoint (hslot : slotId.toNat = slot) : (∀ w ∈ (enableEndpoint d slotId s e).written, Own slot w) ↔
    (∀ w ∈ s.written, Own slot w) ∧ e.dci ≠ 0 ∧ (e.isIsoc = true → s.xferRing = .isoc) := by
  have hring := endpointRing_own (x := s.xferRing) (e := e) hslot
  have htrbs : Own slot (.trbs (endpointRing slotId s.xferRing e).2.1 (endpointRing slotId s.xferRing e).2.2) ↔
      if e.isIsoc then s.xferRing = .isoc else e.dci ≠ 0 := by
    rw [← hring]
    unfold endpointRing
    split
    · exact own_isoc (show 64 < 8192 by decide)
    · exact and_iff_left (Nat.le_refl 64)
  have hentry : Own slot (.context (e.dci.toNat + 1)) := Nat.succ_lt_succ (dci_lt e)
  have hfirst : Own slot (.context 0) := Nat.zero_lt_succ 32
  have hsecond : Own slot (.context 1) := Nat.succ_lt_succ (Nat.zero_lt_succ 31)
  have hmem : (∀ w ∈ (enableEndpoint d slotId s e).written, Own slot w) ↔
      (∀ w ∈ s.written, Own slot w) ∧ Own slot (.ring (endpointRing slotId s.xferRing e).1)
        ∧ Own slot (.trbs (endpointRing slotId s.xferRing e).2.1 (endpointRing slotId s.xferRing e).2.2) := by
    change (∀ w ∈ (s.written ++ [_, _]) ++ [_, _, _], Own slot w) ↔ _
    simp only [List.forall_mem_append, List.forall_mem_cons]
    have hnil : ∀ w ∈ ([] : List Written), Own slot w := fun w hw => (nomatch hw)
    constructor
    · intro ⟨⟨hs, hr, ht, _⟩, _⟩
      exact ⟨hs, hr, ht⟩
    · intro ⟨hs, hr, ht⟩
      exact ⟨⟨hs, hr, ht, hnil⟩, hfirst, hsecond, hentry, hnil⟩
  rw [hmem, htrbs]
  change _ ∧ OwnRing slot _ ∧ _ ↔ _
  rw [hring]
  by_cases h : e.isIsoc = true
  · simp only [h, if_true, true_implies]
  · simp only [h, if_neg, not_false_eq_true, false_implies, and_true, Bool.false_eq_true, and_self]

theorem own_foldl (hslot : slotId.toNat = slot) : ∀ (items : List Item) (s : Setup),
    (∀ w ∈ (items.foldl (enableItem d slotId) s).written, Own slot w) ↔
      (∀ w ∈ s.written, Own slot w) ∧ Suits s.xferRing (endpoints items)
  | [], s => (and_iff_left suits_nil).symm
  | .interface bBaseClass :: items, s => own_foldl hslot items { s with isHub := bBaseClass = 9 }
  | .other :: items, s => own_foldl hslot items s
  | .endpoint e :: items, s => by
    have ih := own_foldl hslot items (enableEndpoint d slotId s e)
    rw [own_enableEndpoint hslot] at ih
    change (∀ w ∈ (items.foldl (enableItem d slotId) (enableEndpoint d slotId s e)).written, Own slot w) ↔
      (∀ w ∈ s.written, Own slot w) ∧ Suits s.xferRing (e :: endpoints items)
    rw [ih, suits_cons (endpointRing slotId s.xferRing e).1, and_assoc, and_assoc]
    rfl

/-! ## Rings of others -/

theorem others_foldl (hslot : slotId.toNat = slot) {index : Int} (hindex : ¬ OwnRing slot index) : ∀ (items : List Item) (s : Setup),
    (∀ e ∈ endpoints items, e.dci ≠ 0) → (items.foldl (enableItem d slotId) s).rings index = s.rings index
  | [], _, _ => rfl
  | .interface bBaseClass :: items, s, h => others_foldl hslot hindex items { s with isHub := bBaseClass = 9 } h
  | .other :: items, s, h => others_foldl hslot hindex items s h
  | .endpoint e :: items, s, h => by
    have hne : index ≠ (endpointRing slotId s.xferRing e).1 := fun heq =>
      hindex (heq ▸ (endpointRing_own hslot).mpr (h e List.mem_cons_self))
    refine (others_foldl hslot hindex items (enableEndpoint d slotId s e) fun e' he' => h e' (List.mem_cons_of_mem e he')).trans ?_
    exact Function.update_of_ne hne _ _

/-! ## What is enabled -/

theorem testBit_addContextFlags (flags : UInt32) (e : Endpoint) {i : Nat} (hi : i < 32) :
    (flags ||| 1 <<< e.dci.toUInt32).toNat.testBit i = (flags.toNat.testBit i || decide (e.dci.toNat = i)) := by
  have hlt := dci_lt e
  have hshift : ((1 : UInt32) <<< e.dci.toUInt32).toNat = 1 <<< e.dci.toNat % 2 ^ 32 := by
    rw [UInt32.toNat_shiftLeft, UInt8.toNat_toUInt32, Nat.mod_eq_of_lt hlt]
    rfl
  rw [UInt32.toNat_or, Nat.testBit_or, hshift, Nat.testBit_mod_two_pow, Nat.testBit_shiftLeft]
  by_cases h : e.dci.toNat = i
  · rw [h]
    simp [hi]
  · simp only [h, decide_false, Bool.or_false]
    by_cases hle : e.dci.toNat ≤ i
    · have hbit : Nat.testBit 1 (i - e.dci.toNat) = false := by
        rw [Bool.eq_false_iff, ne_eq, Nat.testBit_one_eq_true_iff_self_eq_zero]
        omega
      rw [hbit, Bool.and_false, Bool.and_false, Bool.or_false]
    · have hge : decide (i ≥ e.dci.toNat) = false := decide_eq_false hle
      rw [hge, Bool.false_and, Bool.and_false, Bool.or_false]

/-- The ring that is made for an endpoint is its own, if the memory for isochronous transfers is there. -/
theorem endpointRing_eq (hslot : slotId.toNat = slot) (h : e.dci ≠ 0) (hx : e.isIsoc = true → x = .isoc) :
    endpointRing slotId x e = (ringNumber slot e, (ringOf slot e).base, (ringOf slot e).size) := by
  have hindex : (endpointRing slotId x e).1 = ringNumber slot e := endpointRing_index hslot h
  unfold endpointRing ringOf at *
  by_cases hisoc : e.isIsoc = true
  · rw [if_pos hisoc] at hindex
    rw [if_pos hisoc, if_pos hisoc, hx hisoc]
    exact Prod.ext hindex rfl
  · rw [if_neg hisoc] at hindex
    rw [if_neg hisoc, if_neg hisoc]
    dsimp only at hindex ⊢
    rw [hindex]

/-- One more endpoint: its flag, its number and its ring are added. -/
theorem enabled_enableEndpoint (hslot : slotId.toNat = slot) (he : e.dci ≠ 0) (hx : e.isIsoc = true → s.xferRing = .isoc)
    (h : Enabled slot rings es s) : Enabled slot rings (es ++ [e]) (enableEndpoint d slotId s e) := by
  have hring := endpointRing_eq hslot he hx
  have hrings : (enableEndpoint d slotId s e).rings = Function.update s.rings (ringNumber slot e) (ringOf slot e) := by
    change Function.update s.rings (endpointRing slotId s.xferRing e).1 _ = _
    rw [hring]
    unfold ringOf
    split <;> rfl
  have hptr : ((enableEndpoint d slotId s e).epContexts (e.dci.toNat + 1)).trDequeuePtr = (ringOf slot e).base := by
    change (Function.update s.epContexts _ _ _).trDequeuePtr = _
    rw [Function.update_self, hring]
    rfl
  constructor
  · intro i hi
    change (s.addContextFlags ||| 1 <<< e.dci.toUInt32).toNat.testBit i = true ↔ _
    rw [testBit_addContextFlags _ _ hi, Bool.or_eq_true, decide_eq_true_eq, h.flags i hi, or_assoc]
    simp only [List.mem_append, List.mem_singleton, or_and_right, exists_or, exists_eq_left]
  · intro e' he'
    change e'.dci ≤ if e.dci > s.contextEntries then e.dci else s.contextEntries
    rcases List.mem_append.mp he' with hold | hnew
    · have hle := h.entries e' hold
      split
      · rename_i hgt
        exact UInt8.le_trans hle (UInt8.le_of_lt hgt)
      · exact hle
    · cases List.mem_singleton.mp hnew
      split
      · exact UInt8.le_refl _
      · rename_i hle
        exact UInt8.not_lt.mp hle
  · change (if e.dci > s.contextEntries then e.dci else s.contextEntries) = 0 ∨ ∃ e' ∈ es ++ [e],
      e'.dci = if e.dci > s.contextEntries then e.dci else s.contextEntries
    split
    · exact Or.inr ⟨e, List.mem_append_right _ List.mem_cons_self, rfl⟩
    · exact h.last.imp_right fun ⟨e', he', heq⟩ => ⟨e', List.mem_append_left _ he', heq⟩
  · intro index
    rw [hrings, List.reverse_concat, List.find?_cons]
    by_cases hindex : ringNumber slot e = index
    · rw [decide_eq_true hindex, ← hindex, Function.update_self]
      rfl
    · rw [decide_eq_false hindex, Function.update_of_ne (Ne.symm hindex), h.rings index]
  · intro e' he'
    by_cases hdci : e'.dci = e.dci
    · -- an endpoint that shares the index shares the context and the ring
      have hnumber : ringNumber slot e' = ringNumber slot e := by rw [ringNumber, ringNumber, hdci]
      rw [hdci, hptr, hnumber, hrings, Function.update_self]
    · have hold : e' ∈ es := (List.mem_append.mp he').resolve_right fun hnew => hdci (by rw [List.mem_singleton.mp hnew])
      have hnat : e'.dci.toNat ≠ e.dci.toNat := fun heq => hdci (UInt8.toNat_inj.mp heq)
      have hnumber : ringNumber slot e' ≠ ringNumber slot e := by
        unfold ringNumber
        omega
      rw [hrings, Function.update_of_ne hnumber, ← h.leads e' hold]
      change (Function.update s.epContexts _ _ _).trDequeuePtr = _
      rw [Function.update_of_ne (by omega)]

theorem enabled_foldl (hslot : slotId.toNat = slot) : ∀ (items : List Item) (es : List Endpoint) (s : Setup),
    Enabled slot rings es s → Suits s.xferRing (endpoints items) →
    Enabled slot rings (es ++ endpoints items) (items.foldl (enableItem d slotId) s)
  | [], es, s, h, _ => by
    change Enabled slot rings (es ++ []) s
    rw [List.append_nil]
    exact h
  | .interface bBaseClass :: items, es, s, h, hsuits =>
    enabled_foldl hslot items es { s with isHub := bBaseClass = 9 } ⟨h.flags, h.entries, h.last, h.rings, h.leads⟩ hsuits
  | .other :: items, es, s, h, hsuits => enabled_foldl hslot items es s h hsuits
  | .endpoint e :: items, es, s, h, hsuits => by
    obtain ⟨hdci, hx, hrest⟩ := (suits_cons (endpointRing slotId s.xferRing e).1).mp hsuits
    have ih := enabled_foldl hslot items (es ++ [e]) (enableEndpoint d slotId s e) (enabled_enableEndpoint hslot hdci hx h) hrest
    rw [← List.append_cons] at ih
    exact ih

theorem enabled_clearInput (rings : Int → TrbRing) (x : Segment) : Enabled slot rings [] (clearInput rings x) where
  flags i hi := by
    change Nat.testBit 1 i = true ↔ i = 0 ∨ ∃ e ∈ ([] : List Endpoint), e.dci.toNat = i
    rw [Nat.testBit_one_eq_true_iff_self_eq_zero]
    exact ⟨Or.inl, fun h => h.resolve_right fun ⟨_, he, _⟩ => (nomatch he)⟩
  entries _ he := (nomatch he)
  last := Or.inl rfl
  rings _ := rfl
  leads _ he := (nomatch he)

theorem isHub_foldl : ∀ (items : List Item) (s : Setup),
    (items.foldl (enableItem d slotId) s).isHub = describesHub s.isHub items
  | [], _ => rfl
  | .interface bBaseClass :: items, s => isHub_foldl items { s with isHub := bBaseClass = 9 }
  | .endpoint e :: items, s => isHub_foldl items (enableEndpoint d slotId s e)
  | .other :: items, s => isHub_foldl items s

/-! ## The walk -/

section walk

variable {parseIf : Bool} {desc : List UInt8} {total pos : Nat} {s' : Setup} {p : Nat × Setup}

/-- A descriptor ends the walk, or it is enabled. -/
theorem itemRound_eq (hpos : pos < total) {len : UInt8} (hlen : desc[pos]? = some len) :
    itemRound d slotId parseIf desc total (pos, s) =
      if len = 0 ∨ total < pos + len.toNat then some (.done s)
      else (itemAt (superSpeed d) parseIf desc pos len.toNat).map fun i => .again (pos + len.toNat, enableItem d slotId s i) := by
  unfold itemRound
  dsimp only
  rw [if_pos hpos, hlen, Option.bind_eq_bind, Option.bind_some]
  refine if_congr Iff.rfl rfl ?_
  cases itemAt (superSpeed d) parseIf desc pos len.toNat with
  | none => rfl
  | some i => rfl

theorem itemRound_none (hpos : pos < total) (hlen : desc[pos]? = none) :
    itemRound d slotId parseIf desc total (pos, s) = none := by
  unfold itemRound
  dsimp only
  rw [if_pos hpos, hlen]
  rfl

theorem itemRound_past (hpos : ¬ pos < total) : itemRound d slotId parseIf desc total (pos, s) = some (.done s) := if_neg hpos

theorem itemRound_done (h : itemRound d slotId parseIf desc total (pos, s) = some (.done s')) :
    s = s' ∧ Walks (superSpeed d) parseIf desc total pos [] := by
  by_cases hpos : pos < total
  · cases hlen : desc[pos]? with
    | none =>
      rw [itemRound_none hpos hlen] at h
      cases h
    | some len =>
      rw [itemRound_eq hpos hlen] at h
      split at h
      · rename_i hend
        cases h
        exact ⟨rfl, .last hpos hlen hend⟩
      · obtain ⟨i, -, hagain⟩ := Option.map_eq_some_iff.mp h
        cases hagain
  · rw [itemRound_past hpos] at h
    cases h
    exact ⟨rfl, .past (Nat.le_of_not_lt hpos)⟩

theorem itemRound_again (h : itemRound d slotId parseIf desc total (pos, s) = some (.again p)) :
    pos < total ∧ ∃ len : UInt8, desc[pos]? = some len ∧ ¬ (len = 0 ∨ total < pos + len.toNat)
      ∧ ∃ i, itemAt (superSpeed d) parseIf desc pos len.toNat = some i ∧ (pos + len.toNat, enableItem d slotId s i) = p := by
  by_cases hpos : pos < total
  · cases hlen : desc[pos]? with
    | none =>
      rw [itemRound_none hpos hlen] at h
      cases h
    | some len =>
      rw [itemRound_eq hpos hlen] at h
      split at h
      · cases h
      · rename_i hend
        obtain ⟨i, hitem, hagain⟩ := Option.map_eq_some_iff.mp h
        cases hagain
        exact ⟨hpos, len, rfl, hend, i, hitem, rfl⟩
  · rw [itemRound_past hpos] at h
    cases h

/-- The loop goes through the descriptors of the buffer, and enables them one after another. -/
theorem returns_walk : (Run.loop (fun s => Run.ofOption (itemRound d slotId parseIf desc total s)) (pos, s)).Returns s' ↔
    ∃ items, Walks (superSpeed d) parseIf desc total pos items ∧ items.foldl (enableItem d slotId) s = s' := by
  constructor
  · refine Run.loop_induction (P := fun (p : Nat × Setup) s' => ∃ items, Walks (superSpeed d) parseIf desc total p.1 items
      ∧ items.foldl (enableItem d slotId) p.2 = s') ?_ ?_
    · intro ⟨pos, s⟩ s' h
      obtain ⟨rfl, hwalks⟩ := itemRound_done (Run.returns_ofOption.mp h)
      exact ⟨[], hwalks, rfl⟩
    · intro ⟨pos, s⟩ p s' h ih
      obtain ⟨hpos, len, hlen, hend, i, hitem, rfl⟩ := itemRound_again (Run.returns_ofOption.mp h)
      obtain ⟨items, hwalks, hfold⟩ := ih
      exact ⟨i :: items, .item hpos hlen hend hitem hwalks, hfold⟩
  · intro ⟨items, hwalks, hfold⟩
    induction hwalks generalizing s with
    | past hpast =>
      have hround : itemRound d slotId parseIf desc total (_, s) = _ := itemRound_past (Nat.not_lt_of_le hpast)
      cases hfold
      exact Run.loop_done (Run.returns_ofOption.mpr hround)
    | last hpos hlen hend =>
      have hround : itemRound d slotId parseIf desc total (_, s) = _ := (itemRound_eq hpos hlen).trans (if_pos hend)
      cases hfold
      exact Run.loop_done (Run.returns_ofOption.mpr hround)
    | item hpos hlen hend hitem hwalks ih =>
      have hround : itemRound d slotId parseIf desc total (_, s) = _ := (itemRound_eq hpos hlen).trans (if_neg hend)
      rw [hitem] at hround
      exact Run.loop_again (Run.returns_ofOption.mpr hround) (ih hfold)

end walk

/-! ## Hubs -/

section hub

variable {hubDesc : Option HubDesc} {s' : Setup}

theorem updateHub_exists : (∃ s', updateHub d hubDesc s = some s') ↔ (s.isHub = true → hubDesc ≠ none) := by
  unfold updateHub
  cases hhub : s.isHub with
  | false => simp
  | true =>
    cases hubDesc with
    | none => simp
    | some h => simp

/-- The slot context is all that is written for a hub. -/
theorem updateHub_some (h : updateHub d hubDesc s = some s') :
    s'.addContextFlags = s.addContextFlags ∧ s'.contextEntries = s.contextEntries ∧ s'.epContexts = s.epContexts
      ∧ s'.rings = s.rings ∧ (s'.written = s.written ∨ s'.written = s.written ++ [.context 1]) := by
  unfold updateHub at h
  split at h
  · obtain ⟨desc, -, h⟩ := Option.map_eq_some_iff.mp h
    split at h
    · cases h
      exact ⟨rfl, rfl, rfl, rfl, Or.inr rfl⟩
    · cases h
      exact ⟨rfl, rfl, rfl, rfl, Or.inl rfl⟩
  · cases h
    exact ⟨rfl, rfl, rfl, rfl, Or.inl rfl⟩

theorem own_updateHub (h : updateHub d hubDesc s = some s') :
    (∀ w ∈ s'.written, Own slot w) ↔ ∀ w ∈ s.written, Own slot w := by
  obtain ⟨-, -, -, -, hw | hw⟩ := updateHub_some h
  · rw [hw]
  · have hsecond : Own slot (.context 1) := Nat.succ_lt_succ (Nat.zero_lt_succ 31)
    rw [hw, List.forall_mem_append]
    exact and_iff_left (List.forall_mem_singleton.mpr hsecond)

theorem enabled_updateHub (h : updateHub d hubDesc s = some s') (he : Enabled slot rings es s) : Enabled slot rings es s' := by
  obtain ⟨hflags, hentries, hcontexts, hrings, -⟩ := updateHub_some h
  obtain ⟨hf, he, hl, hr, hp⟩ := he
  constructor
  · rw [hflags]
    exact hf
  · rw [hentries]
    exact he
  · rw [hentries]
    exact hl
  · rw [hrings]
    exact hr
  · rw [hcontexts, hrings]
    exact hp

end hub

/-! ## The function -/

section

variable {h : Host} {desc : List UInt8}

/-- The buffer holds what the walk reads, and describes endpoints that fit the slot. -/
def Suited (d : Device c) (h : Host) (xferRing : Segment) (desc : List UInt8) : Prop :=
  h.ready = true → h.validates 9 = true → ∃ form, totalLength desc = some form
    ∧ ∀ total parseIf, form = some (total, parseIf) → h.validates total = true →
      ∃ items, Walks (superSpeed d) parseIf desc (min total (maxControlDataSize - 1)) 0 items
        ∧ Suits xferRing (endpoints items) ∧ (describesHub false items = true → h.hubDesc ≠ none)

theorem staysInside_refused (hrefused : (!h.ready || !h.validates 9) = true) : StaysInside d h rings x desc := by
  refine ⟨false, none, ?_, fun s hs => (nomatch hs), fun hs => (nomatch hs)⟩
  unfold enableEndpoints
  dsimp only
  rw [if_pos hrefused]
  exact Run.returns_pure.mpr rfl

/-- What the function comes to behind its checks. -/
theorem enableEndpoints_checked {r : Bool × Option Setup} (hready : h.ready = true) (hvalid : h.validates 9 = true) :
    (enableEndpoints d h rings x desc).Returns r ↔
      ∃ form, totalLength desc = some form ∧
        ((form = none ∧ r = (false, none)) ∨ ∃ total parseIf, form = some (total, parseIf) ∧
          ((h.validates total = false ∧ r = (false, none)) ∨ (h.validates total = true ∧ ∃ items s,
            Walks (superSpeed d) parseIf desc (min total (maxControlDataSize - 1)) 0 items
            ∧ updateHub d h.hubDesc (items.foldl (enableItem d (getSlotId c d.devMiscInfo)) (clearInput rings x)) = some s
            ∧ r = (h.configured, some s)))) := by
  obtain ⟨hlow, hhigh⟩ := devMiscInfo_within d
  have hchecked : (!h.ready || !h.validates 9) = false := by rw [hready, hvalid]; rfl
  unfold enableEndpoints
  dsimp only
  rw [hchecked, if_neg Bool.false_ne_true, Run.returns_bind]
  refine exists_congr fun form => and_congr Run.returns_ofOption ?_
  cases form with
  | none =>
    dsimp only
    rw [Run.returns_pure, eq_comm]
    refine ⟨fun hr => Or.inl ⟨rfl, hr⟩, fun hr => ?_⟩
    obtain ⟨-, hr⟩ | ⟨_, _, hf, -⟩ := hr
    · exact hr
    · cases hf
  | some f =>
    obtain ⟨total, parseIf⟩ := f
    dsimp only
    cases htotal : h.validates total with
    | false =>
      rw [if_pos (by simp), Run.returns_pure, eq_comm]
      refine ⟨fun hr => Or.inr ⟨total, parseIf, rfl, Or.inl ⟨htotal, hr⟩⟩, fun hr => ?_⟩
      obtain ⟨_, _, hf, hr⟩ := hr.resolve_left fun hr => Option.some_ne_none _ hr.1
      cases hf
      exact (hr.resolve_right fun hr => Bool.false_ne_true (htotal.symm.trans hr.1)).2
    | true =>
      have hinside : (!true || decide (d.devMiscInfo < c.deviceContext)
          || decide (d.devMiscInfo > c.deviceContext + c.slotSize * c.maxSlots)) = false := by
        simp [hlow, hhigh]
      rw [hinside, if_neg Bool.false_ne_true]
      simp only [Run.returns_bind, returns_walk, Run.returns_ofOption, Run.returns_pure]
      constructor
      · rintro ⟨s, ⟨items, hwalks, rfl⟩, s', hhub, hr⟩
        exact Or.inr ⟨total, parseIf, rfl, Or.inr ⟨htotal, items, s', hwalks, hhub, hr.symm⟩⟩
      · intro hr
        obtain ⟨_, _, hf, hr⟩ := hr.resolve_left fun hr => Option.some_ne_none _ hr.1
        cases hf
        obtain ⟨-, items, s, hwalks, hhub, hr⟩ := hr.resolve_left fun hr => Bool.false_ne_true (hr.1.symm.trans htotal)
        exact ⟨_, ⟨items, hwalks, rfl⟩, s, hhub, hr.symm⟩

theorem own_clearInput : ∀ w ∈ (clearInput rings x).written, Own slot w := by
  intro w hw
  obtain ⟨i, hi, rfl⟩ := List.mem_map.mp hw
  exact List.mem_range.mp hi

theorem suited_of_staysInside (hstays : StaysInside d h rings x desc) : Suited d h x desc := by
  intro hready hvalid
  obtain ⟨success, setup, hret, hkeeps, -⟩ := hstays
  obtain ⟨form, hform, hcases⟩ := (enableEndpoints_checked hready hvalid).mp hret
  refine ⟨form, hform, fun total parseIf hf htotal => ?_⟩
  obtain ⟨_, _, hf', hcases⟩ := hcases.resolve_left fun hr => by
    rw [hf] at hr
    exact (nomatch hr.1)
  rw [hf] at hf'
  cases hf'
  obtain ⟨-, items, s, hwalks, hhub, hr⟩ := hcases.resolve_left fun hr => Bool.false_ne_true (hr.1.symm.trans htotal)
  have hwrites := (own_updateHub hhub).mp (hkeeps s (Prod.ext_iff.mp hr).2).writes
  have hsome := updateHub_exists.mp ⟨s, hhub⟩
  rw [isHub_foldl] at hsome
  exact ⟨items, hwalks, ((own_foldl (getSlotId_eq d) items _).mp hwrites).2, hsome⟩

theorem staysInside_of_suited (hsuited : Suited d h x desc) : StaysInside d h rings x desc := by
  by_cases hchecked : h.ready = true ∧ h.validates 9 = true
  · obtain ⟨hready, hvalid⟩ := hchecked
    obtain ⟨form, hform, hsuits⟩ := hsuited hready hvalid
    cases form with
    | none => exact ⟨false, none, (enableEndpoints_checked hready hvalid).mpr ⟨none, hform, Or.inl ⟨rfl, rfl⟩⟩, fun s hs => (nomatch hs), fun hs => (nomatch hs)⟩
    | some f =>
      obtain ⟨total, parseIf⟩ := f
      cases htotal : h.validates total with
      | false =>
        exact ⟨false, none, (enableEndpoints_checked hready hvalid).mpr ⟨_, hform, Or.inr ⟨total, parseIf, rfl, Or.inl ⟨htotal, rfl⟩⟩⟩,
          fun s hs => (nomatch hs), fun hs => (nomatch hs)⟩
      | true =>
        obtain ⟨items, hwalks, hfit, hhub⟩ := hsuits total parseIf rfl htotal
        have hslot := getSlotId_eq d
        obtain ⟨s, hs⟩ : ∃ s, updateHub d h.hubDesc
            (items.foldl (enableItem d (getSlotId c d.devMiscInfo)) (clearInput rings x)) = some s := by
          refine updateHub_exists.mpr ?_
          rw [isHub_foldl]
          exact hhub
        refine ⟨h.configured, some s, (enableEndpoints_checked hready hvalid).mpr ⟨_, hform, Or.inr ⟨total, parseIf, rfl,
          Or.inr ⟨htotal, items, s, hwalks, hs, rfl⟩⟩⟩, fun s' hs' => ?_, fun _ => ?_⟩
        · cases hs'
          refine ⟨(own_updateHub hs).mpr ((own_foldl hslot items _).mpr ⟨own_clearInput, hfit⟩), fun index hindex => ?_⟩
          rw [(updateHub_some hs).2.2.2.1]
          exact others_foldl hslot hindex items _ hfit.numbers
        · have henabled := enabled_foldl (d := d) hslot items [] _ (enabled_clearInput rings x) hfit
          exact ⟨s, items, rfl, ⟨total, parseIf, hform, hwalks⟩, enabled_updateHub hs henabled⟩
  · refine staysInside_refused ?_
    rw [Bool.or_eq_true, Bool.not_eq_true', Bool.not_eq_true']
    rcases not_and_or.mp hchecked with hready | hvalid
    · exact Or.inl (Bool.not_eq_true _ ▸ hready)
    · exact Or.inr (Bool.not_eq_true _ ▸ hvalid)

/-- The configuration of the endpoints of a device ends, reads the buffer only, and touches nothing but the
slot of the device, for exactly those descriptors. -/
theorem enableEndpoints_stays_inside (d : Device c) (h : Host) (rings : Int → TrbRing) (xferRing : Segment) (desc : List UInt8) :
    StaysInside d h rings xferRing desc ↔ Suited d h xferRing desc :=
  ⟨suited_of_staysInside, staysInside_of_suited⟩

end

end BayTrail.Usb.Endpoints
