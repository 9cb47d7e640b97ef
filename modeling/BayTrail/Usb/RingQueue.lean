import BayTrail.Usb.Ring
import Mathlib.Data.List.Basic
import Mathlib.Data.Int.ModEq

/-!
# xHCI: a transfer ring is a queue

The TRBs queued in a ring are counted from its initialisation on, over all laps. Number `a`
is at index `a % m` for a ring of `m` TRBs and a link TRB, and is handed over with the
cycle bit of its lap. The controller is at a number `C`, and the TRBs that have been handed
over are those below a number `F`. Those from `C` to `F` are in the ring as they were built,
and the TRB at `F` has the cycle bit of the lap before, which is where the controller stops.
What the driver writes meanwhile is at numbers from `F` on, and below `C + m` if there is
room for the transfer.
-/

namespace BayTrail.Usb.Xhci

/-! ## Laps -/

/-- The cycle bit of the lap of number `a`. -/
def cyc (m a : Nat) : Bool := a / m % 2 == 0

section

variable {m a b : Nat}

theorem cyc_add (hm : 0 < m) (a : Nat) : cyc m (a + m) = !cyc m a := by
  unfold cyc
  rw [Nat.add_div_right a hm]
  by_cases h : a / m % 2 = 0
  · rw [show (a / m).succ % 2 = 1 by omega, h]
    rfl
  · rw [show (a / m).succ % 2 = 0 by omega, show a / m % 2 = 1 by omega]
    rfl

theorem cyc_same (h : a / m = b / m) : cyc m a = cyc m b := by
  unfold cyc
  rw [h]

/-- Numbers of one lap. -/
theorem div_eq_of_lap (ha : a % m = 0) (hab : a ≤ b) (hb : b < a + m) :
    b / m = a / m := by
  have h1 := Nat.div_add_mod a m
  refine Nat.div_eq_of_lt_le ?_ ?_
  · rw [Nat.mul_comm]
    omega
  · rw [Nat.add_mul, Nat.mul_comm, Nat.one_mul]
    omega

theorem cyc_succ (h : (a + 1) % m ≠ 0) : cyc m (a + 1) = cyc m a := by
  refine cyc_same ?_
  rw [Nat.succ_div, if_neg (fun hd => h (Nat.mod_eq_zero_of_dvd hd)), Nat.add_zero]

theorem cyc_wrap (hm : 0 < m) (h : (a + 1) % m = 0) : cyc m (a + 1) = !cyc m a := by
  have hlap : a + 1 - m + m = a + 1 := by
    have := Nat.le_of_dvd (Nat.succ_pos a) (Nat.dvd_of_mod_eq_zero h)
    omega
  rw [← hlap, cyc_add hm]
  congr 1
  refine (cyc_same (div_eq_of_lap ?_ (by omega) (by omega))).symm
  rw [← Nat.add_mod_right, hlap]
  exact h

/-- Two numbers less than a lap apart have different indices. -/
theorem slot_ne (hab : a < b) (hb : b < a + m) : a % m ≠ b % m := by
  intro h
  have h1 := (Nat.modEq_iff_dvd' (by omega)).mp (show Nat.ModEq m a b from h)
  exact absurd (Nat.le_of_dvd (by omega) h1) (by omega)

theorem mod_succ (hm : 0 < m) : (a + 1) % m ≠ 0 → (a + 1) % m = a % m + 1 := by
  intro h
  rw [Nat.add_mod] at h ⊢
  by_cases h1 : m = 1
  · subst h1
    exact absurd (Nat.mod_one _) h
  rw [Nat.mod_eq_of_lt (show 1 < m by omega)] at h ⊢
  have hlt := Nat.mod_lt a hm
  by_cases he : a % m + 1 = m
  · rw [he, Nat.mod_self] at h
    exact absurd rfl h
  · exact Nat.mod_eq_of_lt (by omega)

theorem mod_wrap (hm : 0 < m) (h : (a + 1) % m = 0) : a % m + 1 = m := by
  have hlt := Nat.mod_lt a hm
  by_contra hne
  rw [Nat.add_mod] at h
  by_cases h1 : m = 1
  · omega
  rw [Nat.mod_eq_of_lt (show 1 < m by omega), Nat.mod_eq_of_lt (by omega)] at h
  omega

/-- A number less than a lap on is in the next lap exactly if its index is lower. -/
theorem cyc_cross (hm : 0 < m) (hab : a ≤ b) (hb : b < a + m) :
    (b % m < a % m → cyc m b = !cyc m a) ∧ (¬ b % m < a % m → cyc m b = cyc m a) := by
  have h1 := Nat.div_add_mod a m
  have h2 := Nat.mod_lt a hm
  generalize ha : a / m = q at h1
  generalize hr : a % m = r at h1 h2
  rw [Nat.mul_comm] at h1
  have hdiv := Nat.div_add_mod b m
  by_cases hlap : b < q * m + m
  · have hq : b / m = q := Nat.div_eq_of_lt_le (by omega)
      (by rw [Nat.add_mul, Nat.one_mul]; exact hlap)
    rw [hq, Nat.mul_comm] at hdiv
    exact ⟨fun h => by omega, fun _ => cyc_same (hq.trans ha.symm)⟩
  · have hq : b / m = q + 1 := by
      refine Nat.div_eq_of_lt_le ?_ ?_
      · rw [Nat.add_mul, Nat.one_mul]
        omega
      · rw [Nat.add_mul, Nat.add_mul, Nat.one_mul]
        omega
    rw [hq, Nat.mul_comm, Nat.add_mul, Nat.one_mul] at hdiv
    refine ⟨fun _ => ?_, fun h => by omega⟩
    rw [← cyc_add hm]
    refine cyc_same ?_
    rw [hq, Nat.add_div_right a hm, ha]

/-! ## Positions -/

/-- Pointer and cycle bit are those of number `a`; at the start of a lap they can still be
those of the link TRB. -/
def At (m ptr : Nat) (bit : Bool) (a : Nat) : Prop :=
  (ptr = a % m ∧ bit = cyc m a) ∨ (ptr = m ∧ a % m = 0 ∧ 0 < a ∧ bit = !cyc m a)

/-- Behind a TRB the pointer is at the next one or at the link. -/
theorem at_succ (hm : 0 < m) (a : Nat) : At m (a % m + 1) (cyc m a) (a + 1) := by
  by_cases h : (a + 1) % m = 0
  · right
    exact ⟨mod_wrap hm h, h, Nat.succ_pos a, by rw [cyc_wrap hm h, Bool.not_not]⟩
  · left
    exact ⟨(mod_succ hm h).symm, (cyc_succ h).symm⟩

end

/-! ## What the controller sees -/

/-- The TRBs from number `C` to number `F` are the ones waiting, and the next is not handed
over. The link TRB is handed over where it stands between them. -/
structure Holds (m : Nat) (mem : RingMem) (C F : Nat) (waiting : List Body) : Prop where
  length : F = C + waiting.length
  room : F ≤ C + m
  slots : ∀ j (hj : j < waiting.length), mem ((C + j) % m) = ⟨waiting[j], cyc m (C + j)⟩
  plain : ∀ b ∈ waiting, b.trbType ≠ .link
  gate : (mem (F % m)).cycleBit = !cyc m F
  linkType : (mem m).body.trbType = .link
  link : ∀ a, C ≤ a → a < F → a % m = 0 → 0 < a → (mem m).cycleBit = !cyc m a

section

variable {m : Nat} {mem : RingMem} {C F ptr : Nat} {bit : Bool} {b : Body} 

theorem Holds.head (H : Holds m mem C F (b :: bs)) : mem (C % m) = ⟨b, cyc m C⟩ :=
  H.slots 0 (Nat.succ_pos _)

theorem Holds.tail (H : Holds m mem C F (b :: bs)) : Holds m mem (C + 1) F bs where
  length := by
    have := H.length
    simp only [List.length_cons] at this
    omega
  room := by
    have := H.room
    omega
  slots := by
    intro j hj
    have := H.slots (j + 1) (by simp only [List.length_cons]; omega)
    rw [show C + 1 + j = C + (j + 1) by omega]
    simpa using this
  plain := fun x hx => H.plain x (List.mem_cons_of_mem _ hx)
  gate := H.gate
  linkType := H.linkType
  link := fun a h1 h2 => H.link a (by omega) h2

/-- At the link the controller goes on where the link is handed over, and is where it would
be in either case. -/
theorem Holds.at_link (H : Holds m mem C F bs) (hat : At m ptr bit C) (hptr : ptr = m)
    (hm : 0 < m) : C % m = 0 ∧ bit = !cyc m C ∧ (bs ≠ [] → (mem m).cycleBit = bit) := by
  obtain ⟨rfl, -⟩ | ⟨-, h0, hpos, rfl⟩ := hat
  · exact absurd hptr (by have := Nat.mod_lt C hm; omega)
  · refine ⟨h0, rfl, fun hne => ?_⟩
    have := List.length_pos_of_ne_nil hne
    exact H.link C le_rfl (by have := H.length; omega) h0 hpos

/-- The controller sees what is waiting. -/
theorem Holds.visible (hm : 0 < m) : ∀ {bs : List Body} {C ptr : Nat} {bit : Bool} {fuel : Nat},
    Holds m mem C F bs → At m ptr bit C → 2 * bs.length + 2 ≤ fuel →
    Xhci.visible mem fuel ptr bit = bs := by
  -- at a TRB, which is not the link
  have hplain : ∀ {bs : List Body} {C fuel : Nat}, Holds m mem C F bs →
      (∀ b bs', bs = b :: bs' → Xhci.visible mem fuel (C % m + 1) (cyc m C) = bs') →
      Xhci.visible mem (fuel + 1) (C % m) (cyc m C) = bs := by
    intro bs C fuel H hrest
    unfold Xhci.visible
    cases bs with
    | nil =>
      have hF : F = C := by simpa using H.length
      have hgate := H.gate
      rw [hF] at hgate
      rw [hgate, if_pos (by simp)]
    | cons b bs =>
      rw [H.head, if_neg (by simp), if_neg (H.plain b (List.mem_cons_self ..)), hrest b bs rfl]
  intro bs
  induction bs with
  | nil =>
    intro C ptr bit fuel H hat hfuel
    obtain ⟨fuel, rfl⟩ : ∃ k, fuel = k + 2 := ⟨fuel - 2, by omega⟩
    obtain ⟨rfl, rfl⟩ | ⟨rfl, h0, -, rfl⟩ := hat
    · exact hplain H fun _ _ h => absurd h (by simp)
    · unfold Xhci.visible
      split
      · rfl
      · rw [if_pos H.linkType, Bool.not_not]
        have := @hplain [] C fuel H fun _ _ h => absurd h (by simp)
        rwa [h0] at this
  | cons b bs ih =>
    intro C ptr bit fuel H hat hfuel
    simp only [List.length_cons] at hfuel
    have hrest : ∀ fuel, 2 * bs.length + 2 ≤ fuel → ∀ b' bs', b :: bs = b' :: bs' →
        Xhci.visible mem fuel (C % m + 1) (cyc m C) = bs' := by
      intro fuel hf b' bs' he
      obtain ⟨rfl, rfl⟩ := List.cons.inj he
      exact ih (H.tail) (at_succ hm C) hf
    obtain ⟨fuel, rfl⟩ : ∃ k, fuel = k + 2 := ⟨fuel - 2, by omega⟩
    obtain ⟨rfl, rfl⟩ | ⟨rfl, h0, hpos, rfl⟩ := hat
    · exact hplain H (hrest _ (by omega))
    · have hlink := (H.at_link (Or.inr ⟨rfl, h0, hpos, rfl⟩) rfl hm).2.2 (List.cons_ne_nil _ _)
      unfold Xhci.visible
      rw [hlink, if_neg (by simp), if_pos H.linkType, Bool.not_not]
      have := @hplain (b :: bs) C fuel H (hrest _ (by omega))
      rwa [h0] at this

/-- The controller takes the head. -/
theorem Holds.taken (hm : 0 < m) (H : Holds m mem C F bs) (hat : At m ptr bit C)
    (hcycle : (mem ptr).cycleBit = bit) (hlink : (mem ptr).body.trbType ≠ .link) :
    ∃ b bs', bs = b :: bs' ∧ (mem ptr).body = b ∧ At m (ptr + 1) bit (C + 1) := by
  obtain ⟨rfl, rfl⟩ | ⟨rfl, -⟩ := hat
  · cases bs with
    | nil =>
      have hF : F = C := by simpa using H.length
      have hgate := H.gate
      rw [hF, hcycle] at hgate
      exact absurd hgate (by simp)
    | cons b bs => exact ⟨b, bs, rfl, by rw [H.head], at_succ hm C⟩
  · exact absurd H.linkType hlink

theorem Holds.followed (hm : 0 < m) (H : Holds m mem C F bs) (hat : At m ptr bit C)
    (hcycle : (mem ptr).cycleBit = bit) (hlink : (mem ptr).body.trbType = .link) :
    At m 0 (!bit) C := by
  obtain ⟨rfl, rfl⟩ | ⟨rfl, h0, -, rfl⟩ := hat
  · cases bs with
    | nil =>
      have hF : F = C := by simpa using H.length
      have hgate := H.gate
      rw [hF, hcycle] at hgate
      exact absurd hgate (by simp)
    | cons b bs =>
      rw [H.head] at hlink
      exact absurd hlink (H.plain b (List.mem_cons_self ..))
  · left
    exact ⟨h0.symm, by rw [Bool.not_not]⟩

end

/-! ## What the driver writes

`Ready E mem F ws post`: the writes `ws` go to TRBs at numbers from `F` to `E` and to the
link, they hand over TRBs that are complete, and leave a memory and a number for which
`post` holds. -/

/-- The TRB, or the link, that the write goes to. -/
def Op.Touches (m F E : Nat) : Op → Prop
  | .fields i _ => ∃ a, F ≤ a ∧ a < E ∧ i = a % m
  | .cycle i bit => (∃ a, F ≤ a ∧ a < E ∧ i = a % m)
      ∨ i = m ∧ ∃ a, F ≤ a ∧ a < E ∧ a % m = 0 ∧ bit = !cyc m a
  | .chain i _ => i = m

/-- The TRBs are complete in the memory. -/
structure Built (m : Nat) (mem : RingMem) (F : Nat) (hands : List Body) : Prop where
  slots : ∀ j (hj : j < hands.length), mem ((F + j) % m) = ⟨hands[j], cyc m (F + j)⟩
  plain : ∀ b ∈ hands, b.trbType ≠ .link
  link : ∀ a, F ≤ a → a < F + hands.length → a % m = 0 → 0 < a → (mem m).cycleBit = !cyc m a

def Ready (m E : Nat) : RingMem → Nat → List Write → (RingMem → Nat → Prop) → Prop
  | mem, F, [], post => post mem F
  | mem, F, w :: ws, post =>
    let mem' := w.op.apply mem
    let F' := F + w.hands.length
    w.op.Touches m F E ∧ F' ≤ E ∧ Built m mem' F w.hands ∧ (mem' (F' % m)).cycleBit = !cyc m F'
      ∧ Ready m E mem' F' ws post

section

variable {m E F C : Nat} {mem : RingMem} {ws ws' : List Write} {bs : List Body}
  {post post' : RingMem → Nat → Prop}

theorem Ready.append : ∀ {mem : RingMem} {F : Nat} {ws : List Write},
    Ready m E mem F ws (fun mem F => Ready m E mem F ws' post) → Ready m E mem F (ws ++ ws') post := by
  intro mem F ws
  induction ws generalizing mem F with
  | nil => exact fun h => h
  | cons w ws ih => exact fun ⟨h1, h2, h3, h4, h5⟩ => ⟨h1, h2, h3, h4, ih h5⟩

theorem Ready.mono (hpost : ∀ mem F, post mem F → post' mem F) : ∀ {mem : RingMem} {F : Nat}
    {ws : List Write}, Ready m E mem F ws post → Ready m E mem F ws post' := by
  intro mem F ws
  induction ws generalizing mem F with
  | nil => exact fun h => hpost _ _ h
  | cons w ws ih => exact fun ⟨h1, h2, h3, h4, h5⟩ => ⟨h1, h2, h3, h4, ih h5⟩

theorem Ready.ends : ∀ {mem : RingMem} {F : Nat} {ws : List Write}, Ready m E mem F ws post →
    ∃ mem' F', post mem' F' := by
  intro mem F ws
  induction ws generalizing mem F with
  | nil => exact fun h => ⟨_, _, h⟩
  | cons w ws ih => exact fun ⟨_, _, _, _, h⟩ => ih h

theorem built_nil : Built m mem F [] :=
  ⟨fun _ h => absurd h (by simp), fun _ h => absurd h (by simp), fun a h1 h2 => absurd h2 (by simpa using h1)⟩

/-- A write of the driver leaves what is waiting alone. -/
theorem Op.apply_waiting {op : Op} (hm : 0 < m) (ht : op.Touches m F E) (hE : E ≤ C + m)
    {a : Nat} (h1 : C ≤ a) (h2 : a < F) : op.apply mem (a % m) = mem (a % m) := by
  have hslot : ∀ x, F ≤ x → x < E → a % m ≠ x % m := fun x hx1 hx2 => slot_ne (by omega) (by omega)
  have hlast : a % m ≠ m := (Nat.mod_lt a hm).ne
  cases op with
  | fields i body =>
    obtain ⟨x, hx1, hx2, rfl⟩ := ht
    exact Function.update_of_ne (hslot x hx1 hx2) _ _
  | cycle i bit =>
    obtain ⟨x, hx1, hx2, rfl⟩ | ⟨rfl, -⟩ := ht
    · exact Function.update_of_ne (hslot x hx1 hx2) _ _
    · exact Function.update_of_ne hlast _ _
  | chain i flag =>
    obtain rfl := ht
    exact Function.update_of_ne hlast _ _

theorem Op.apply_link (mem : RingMem) {op : Op} (hm : 0 < m) (ht : op.Touches m F E) :
    (op.apply mem m).body.trbType = (mem m).body.trbType
      ∧ ((op.apply mem m).cycleBit = (mem m).cycleBit
        ∨ ∃ a, F ≤ a ∧ a < E ∧ a % m = 0) := by
  have hslot : ∀ x, m ≠ x % m := fun x => (Nat.mod_lt x hm).ne'
  cases op with
  | fields i body =>
    obtain ⟨x, -, -, rfl⟩ := ht
    rw [Op.apply, Function.update_of_ne (hslot x)]
    exact ⟨rfl, Or.inl rfl⟩
  | cycle i bit =>
    obtain ⟨x, -, -, rfl⟩ | ⟨rfl, a, h1, h2, h3, -⟩ := ht
    · rw [Op.apply, Function.update_of_ne (hslot x)]
      exact ⟨rfl, Or.inl rfl⟩
    · rw [Op.apply, Function.update_self]
      exact ⟨rfl, Or.inr ⟨a, h1, h2, h3⟩⟩
  | chain i flag =>
    obtain rfl := ht
    rw [Op.apply, Function.update_self]
    exact ⟨rfl, Or.inl rfl⟩

/-- A write that is ready hands its TRBs over, and the controller sees no more of it. -/
theorem Holds.write {w : Write} (hm : 0 < m) (H : Holds m mem C F bs) (hE : E ≤ C + m)
    (hr : Ready m E mem F (w :: ws) post) :
    Holds m (w.op.apply mem) C (F + w.hands.length) (bs ++ w.hands) := by
  obtain ⟨ht, hFE, hbuilt, hgate, -⟩ := hr
  have hlen := H.length
  obtain ⟨htype, hcycle⟩ := Op.apply_link mem hm ht
  constructor
  case length =>
    rw [List.length_append]
    omega
  case room => omega
  case slots =>
    intro j hj
    by_cases hjb : j < bs.length
    · rw [List.getElem_append_left hjb, Op.apply_waiting hm ht hE (by omega) (by omega)]
      exact H.slots j hjb
    · have hj' : j - bs.length < w.hands.length := by
        rw [List.length_append] at hj
        omega
      have := hbuilt.slots (j - bs.length) hj'
      rw [List.getElem_append_right (by omega)]
      rwa [show F + (j - bs.length) = C + j by omega] at this
  case plain =>
    intro b hb
    obtain h | h := List.mem_append.mp hb
    · exact H.plain b h
    · exact hbuilt.plain b h
  case gate => exact hgate
  case linkType => rw [htype, H.linkType]
  case link =>
    intro a h1 h2 h3 h4
    by_cases ha : a < F
    · obtain he | ⟨x, hx1, hx2, hx3⟩ := hcycle
      · rw [he]
        exact H.link a h1 ha h3 h4
      · -- the next link stands a lap behind this one
        refine absurd h3 fun h3 => ?_
        have hne := slot_ne (m := m) (show a < x by omega) (by omega)
        exact hne (h3.trans hx3.symm)
    · exact hbuilt.link a (by omega) h2 h3 h4

end

/-! ## The driver between calls -/

/-- The driver is at number `A`. That is `F`, with the cycle bits of the lap before in all
TRBs from there on, or a call has been left at a TRB that does not pass the validation. -/
structure Rest (valid : Nat → Bool) (m : Nat) (mem : RingMem) (r : TrbRing) (F A : Nat) : Prop where
  size : r.size = m + 1
  le : F ≤ A
  at_ : At m r.queuePtr r.cycleBit A
  link : (mem m).cycleBit = !r.cycleBit
  gate : (mem (F % m)).cycleBit = !cyc m F
  next : (mem (A % m)).cycleBit = !cyc m A
  free : (A = F ∧ ∀ a, F ≤ a → a < F + m → (mem (a % m)).cycleBit = !cyc m a) ∨ valid (A % m) = false

/-- The memory with the cycle bit of the link TRB as it is in the lap of `a`. -/
def linked (m : Nat) (mem : RingMem) (a : Nat) : RingMem :=
  Function.update mem m { mem m with cycleBit := !cyc m a }

/-- The write that hands the link TRB over. -/
def activate (m : Nat) (r : TrbRing) : List Write :=
  if r.queuePtr = m then [⟨.cycle m r.cycleBit, []⟩] else []

section

variable {valid : Nat → Bool} {m E F a : Nat} {mem : RingMem} {r : TrbRing} {b : Body}
  {bs : List Body} {ws : List Write} {post : RingMem → Nat → Prop}

theorem linked_slot (hm : 0 < m) (x : Nat) : linked m mem a (x % m) = mem (x % m) :=
  Function.update_of_ne (Nat.mod_lt x hm).ne _ _

theorem linked_link : (linked m mem a m).cycleBit = !cyc m a := by
  unfold linked
  rw [Function.update_self]

/-- What `XHCI_AdvanceEnqueuePtr` does at number `a`. -/
theorem advanceEnqueuePtr_eq (hm : 0 < m) (hsize : r.size = m + 1)
    (hat : At m r.queuePtr r.cycleBit a) : advanceEnqueuePtr valid r =
      if valid (a % m) then
        (⟨m + 1, a % m + 1, cyc m a⟩, activate m r ++ [⟨.fields (a % m) {}, []⟩], some (a % m))
      else (⟨m + 1, a % m, cyc m a⟩, activate m r, none) := by
  obtain ⟨size, ptr, bit⟩ := r
  obtain rfl : size = m + 1 := hsize
  unfold advanceEnqueuePtr activate TrbRing.lastTrb
  rw [Nat.add_sub_cancel]
  obtain ⟨hptr, hbit⟩ | ⟨hptr, h0, -, hbit⟩ := hat
  · have hne : ¬ a % m = m := (Nat.mod_lt a hm).ne
    simp only at hptr hbit
    subst hptr hbit
    simp only [if_neg hne]
  · simp only at hptr hbit
    subst hptr hbit
    simp only [if_true, Bool.not_not, h0]

/-- The link TRB is handed over when the driver goes on behind it. -/
theorem ready_activate (hm : 0 < m) (hat : At m r.queuePtr r.cycleBit a)
    (hlink : (mem m).cycleBit = !r.cycleBit) (hF : F ≤ a) (haE : a < E)
    (hgate : (mem (F % m)).cycleBit = !cyc m F) (hpost : post (linked m mem a) F) :
    Ready m E mem F (activate m r) post := by
  unfold activate
  obtain ⟨hptr, hbit⟩ | ⟨hptr, h0, -, hbit⟩ := hat
  · rw [if_neg (by rw [hptr]; exact (Nat.mod_lt a hm).ne)]
    have : linked m mem a = mem := by
      unfold linked
      rw [← hbit, ← hlink]
      exact Function.update_eq_self m mem
    rwa [this] at hpost
  · rw [if_pos hptr, hbit]
    refine ⟨Or.inr ⟨rfl, a, hF, haE, h0, rfl⟩, by simpa using (by omega : F ≤ E), built_nil, ?_, hpost⟩
    exact (congrArg Trb.cycleBit (linked_slot hm F)).trans hgate

/-- Filling in a TRB that is not handed over. -/
theorem ready_fields (hF : F ≤ a) (haE : a < E) (hgate : (mem (F % m)).cycleBit = !cyc m F)
    (hrest : Ready m E (Function.update mem (a % m) { mem (a % m) with body := b }) F ws post) :
    Ready m E mem F (⟨.fields (a % m) b, []⟩ :: ws) post := by
  refine ⟨⟨a, hF, haE, rfl⟩, by simpa using (by omega : F ≤ E), built_nil, ?_, hrest⟩
  show (Function.update mem (a % m) _ (F % m)).cycleBit = _
  by_cases h : F % m = a % m
  · rw [h, Function.update_self, ← h]
    exact hgate
  · rw [Function.update_of_ne h]
    exact hgate

/-- The memory after the TRB of number `a` has been cleared and filled in. -/
def filled (m : Nat) (mem : RingMem) (a : Nat) (b : Body) : RingMem :=
  Function.update (linked m mem a) (a % m) { mem (a % m) with body := b }

theorem filled_self : filled m mem a b (a % m) = { mem (a % m) with body := b } :=
  Function.update_self ..

theorem filled_of_ne (hm : 0 < m) {x : Nat} (h : x % m ≠ a % m) : filled m mem a b (x % m) = mem (x % m) := by
  unfold filled
  rw [Function.update_of_ne h, linked_slot hm]

theorem filled_link (hm : 0 < m) : (filled m mem a b m).cycleBit = !cyc m a := by
  unfold filled
  rw [Function.update_of_ne (Nat.mod_lt a hm).ne', linked_link]

theorem filled_cycle (hm : 0 < m) (x : Nat) : (filled m mem a b (x % m)).cycleBit = (mem (x % m)).cycleBit := by
  by_cases h : x % m = a % m
  · rw [h, filled_self]
  · rw [filled_of_ne hm h]

/-- A TRB is allocated, cleared and filled in. -/
theorem ready_trb (hm : 0 < m) (hat : At m r.queuePtr r.cycleBit a)
    (hlink : (mem m).cycleBit = !r.cycleBit) (hF : F ≤ a) (haE : a < E)
    (hgate : (mem (F % m)).cycleBit = !cyc m F) (hrest : Ready m E (filled m mem a b) F ws post) :
    Ready m E mem F (activate m r ++ [⟨.fields (a % m) {}, []⟩] ++ (⟨.fields (a % m) b, []⟩ :: ws)) post := by
  rw [List.append_assoc]
  refine Ready.append (ready_activate hm hat hlink hF haE hgate ?_)
  have hgate1 : (linked m mem a (F % m)).cycleBit = !cyc m F := by rw [linked_slot hm, hgate]
  refine ready_fields hF haE hgate1 (ready_fields hF haE ?_ ?_)
  · show (Function.update (linked m mem a) (a % m) _ (F % m)).cycleBit = _
    by_cases h : F % m = a % m
    · rw [h, Function.update_self, ← h, hgate1]
    · rw [Function.update_of_ne h, hgate1]
  · rw [Function.update_self, Function.update_idem, linked_slot hm]
    exact hrest

end

/-! ## The transfers -/

/-- Where a call leaves the driver. -/
def Left (valid : Nat → Bool) (m E : Nat) (r : TrbRing) (mem : RingMem) (F : Nat) : Prop :=
  ∃ A, (A = F ∨ A < E) ∧ Rest valid m mem r F A

/-- The driver is at number `F` with nothing queued. -/
structure Clear (m : Nat) (mem : RingMem) (r : TrbRing) (F : Nat) : Prop where
  size : r.size = m + 1
  at_ : At m r.queuePtr r.cycleBit F
  link : (mem m).cycleBit = !r.cycleBit
  free : ∀ a, F ≤ a → a < F + m → (mem (a % m)).cycleBit = !cyc m a

section

variable {valid : Nat → Bool} {m E F A : Nat} {mem : RingMem} {r : TrbRing} {b : Body}
  {bs : List Body}

theorem Clear.gate (hm : 0 < m) (c : Clear m mem r F) : (mem (F % m)).cycleBit = !cyc m F :=
  c.free F le_rfl (by omega)

theorem Clear.rest (valid : Nat → Bool) (hm : 0 < m) (c : Clear m mem r F) : Rest valid m mem r F F :=
  ⟨c.size, le_rfl, c.at_, c.link, c.gate hm, c.gate hm, Or.inl ⟨rfl, c.free⟩⟩

/-- A call that is left at a TRB has only handed the link TRB over. -/
theorem Rest.advance (hm : 0 < m) (R : Rest valid m mem r F A) :
    Rest valid m (linked m mem A) ⟨m + 1, A % m, cyc m A⟩ F A where
  size := rfl
  le := R.le
  at_ := Or.inl ⟨rfl, rfl⟩
  link := linked_link
  gate := by rw [linked_slot hm, R.gate]
  next := by rw [linked_slot hm, R.next]
  free := by
    obtain ⟨h, hfree⟩ | h := R.free
    · refine Or.inl ⟨h, fun a h1 h2 => ?_⟩
      rw [linked_slot hm, hfree a h1 h2]
    · exact Or.inr h

/-- A TRB that does not pass the validation holds up all calls. -/
theorem ready_stuck (hm : 0 < m) (R : Rest valid m mem r F A) (hA : A < E) :
    Ready m E mem F (activate m r) fun mem' F' =>
      F' = F ∧ Left valid m E ⟨m + 1, A % m, cyc m A⟩ mem' F :=
  ready_activate hm R.at_ R.link R.le hA R.gate ⟨rfl, A, Or.inr hA, R.advance hm⟩

/-- Each TRB of the calls that hand them over one by one. -/
theorem ready_singles (hm : 0 < m) : ∀ {bs : List Body} {r : TrbRing} {mem : RingMem} {F : Nat},
    Clear m mem r F → F + bs.length ≤ E → (∀ b ∈ bs, b.trbType ≠ .link) →
    Ready m E mem F (queueSingles valid r bs).2 (Left valid m E (queueSingles valid r bs).1) := by
  intro bs
  induction bs with
  | nil => exact fun c _ _ => ⟨_, Or.inl rfl, c.rest valid hm⟩
  | cons b bs ih =>
    intro r mem F c hE hplain
    simp only [List.length_cons] at hE
    have hgate := c.gate hm
    unfold queueSingles
    rw [advanceEnqueuePtr_eq hm c.size c.at_]
    cases hv : valid (F % m) with
    | false =>
      have hstuck := ready_stuck (E := E) hm (c.rest valid hm) (by omega)
      refine hstuck.mono fun mem' F' h => ?_
      rw [h.1]
      exact h.2
    | true =>
      simp only [if_true]
      refine ready_trb hm c.at_ c.link le_rfl (by omega) hgate ?_
      -- the cycle bit of the TRB hands it over
      have hmem : (Op.cycle (F % m) (cyc m F)).apply (filled m mem F b)
          = Function.update (filled m mem F b) (F % m) ⟨b, cyc m F⟩ := by
        rw [Op.apply, filled_self]
      have hlink : (Function.update (filled m mem F b) (F % m) ⟨b, cyc m F⟩ m).cycleBit = !cyc m F := by
        rw [Function.update_of_ne (Nat.mod_lt F hm).ne', filled_link hm]
      have hfree : ∀ a, F + 1 ≤ a → a < F + 1 + m →
          (Function.update (filled m mem F b) (F % m) ⟨b, cyc m F⟩ (a % m)).cycleBit = !cyc m a := by
        intro a h1 h2
        by_cases ha : a < F + m
        · rw [Function.update_of_ne (slot_ne (show F < a by omega) ha).symm, filled_cycle hm]
          exact c.free a (by omega) ha
        · obtain rfl : a = F + m := by omega
          rw [Nat.add_mod_right, Function.update_self, cyc_add hm, Bool.not_not]
      refine ⟨Or.inl ⟨F, le_rfl, by omega, rfl⟩, by simp only [List.length_cons, List.length_nil]; omega,
        ?_, ?_, ?_⟩
      · constructor
        case slots =>
          intro j hj
          obtain rfl : j = 0 := by simpa using hj
          rw [hmem, Nat.add_zero, Function.update_self]
          rfl
        case plain =>
          intro x hx
          obtain rfl := List.mem_singleton.mp hx
          exact hplain _ (List.mem_cons_self ..)
        case link =>
          intro a h1 h2 _ _
          obtain rfl : a = F := by
            simp only [List.length_cons, List.length_nil] at h2
            omega
          rw [hmem, hlink]
      · rw [hmem]
        exact hfree (F + 1) le_rfl (by omega)
      · rw [hmem]
        exact ih ⟨rfl, at_succ hm F, hlink, hfree⟩ (by simp only [List.length_cons, List.length_nil]; omega)
          fun x hx => hplain x (List.mem_cons_of_mem _ hx)

/-- The driver has queued `done` from number `F` on, and has set all cycle bits but the
first. -/
structure Mid (m : Nat) (mem : RingMem) (r : TrbRing) (F : Nat) (done : List Body) : Prop where
  size : r.size = m + 1
  at_ : At m r.queuePtr r.cycleBit (F + done.length)
  bit : done ≠ [] → r.cycleBit = cyc m (F + (done.length - 1))
  link : (mem m).cycleBit = !r.cycleBit
  first : ∀ h : 0 < done.length, mem (F % m) = ⟨done[0], !cyc m F⟩
  slots : ∀ j (hj : j < done.length), 0 < j → mem ((F + j) % m) = ⟨done[j], cyc m (F + j)⟩
  free : ∀ a, F + done.length ≤ a → a < F + m → (mem (a % m)).cycleBit = !cyc m a

theorem Clear.mid (c : Clear m mem r F) : Mid m mem r F [] :=
  ⟨c.size, c.at_, fun h => absurd rfl h, c.link, fun h => absurd h (by simp), fun _ h => absurd h (by simp),
    c.free⟩

variable {done bodies : List Body}

theorem Mid.gate (hm : 0 < m) (M : Mid m mem r F done) :
    (mem (F % m)).cycleBit = !cyc m F := by
  cases done with
  | nil => exact M.free F le_rfl (by omega)
  | cons b bs => rw [M.first (Nat.succ_pos _)]

/-- The next TRB of the chain; `mem'` has its cycle bit, unless it is the first. -/
theorem Mid.snoc (hm : 0 < m) {done : List Body} (M : Mid m mem r F done)
    (hlen : done.length < m) : Mid m
      (Function.update (filled m mem (F + done.length) b) ((F + done.length) % m)
        ⟨b, if done = [] then !cyc m F else cyc m (F + done.length)⟩)
      ⟨m + 1, (F + done.length) % m + 1, cyc m (F + done.length)⟩ F (done ++ [b]) := by
  have hlow : ∀ j, j < done.length → (F + j) % m ≠ (F + done.length) % m := fun j hj =>
    slot_ne (by omega) (by omega)
  constructor
  case size => rfl
  case at_ =>
    rw [List.length_append]
    exact at_succ hm _
  case bit =>
    intro _
    rw [List.length_append]
    rfl
  case link =>
    rw [Function.update_of_ne (Nat.mod_lt _ hm).ne', filled_link hm]
  case first =>
    intro _
    cases done with
    | nil =>
      simp only [List.length_nil, Nat.add_zero, if_true]
      rw [Function.update_self]
      rfl
    | cons d ds =>
      have h0 := hlow 0 (Nat.succ_pos _)
      rw [Nat.add_zero] at h0
      rw [Function.update_of_ne h0, filled_of_ne hm h0, M.first (Nat.succ_pos _)]
      rfl
  case slots =>
    intro j hj hpos
    by_cases hjd : j < done.length
    · rw [Function.update_of_ne (hlow j hjd), filled_of_ne hm (hlow j hjd), M.slots j hjd hpos,
        List.getElem_append_left hjd]
    · obtain rfl : j = done.length := by
        rw [List.length_append, List.length_singleton] at hj
        omega
      rw [Function.update_self, if_neg (List.ne_nil_of_length_pos hpos), List.getElem_append_right le_rfl]
      simp
  case free =>
    intro a h1 h2
    rw [List.length_append, List.length_singleton] at h1
    rw [Function.update_of_ne (slot_ne (show F + done.length < a by omega) (by omega)).symm,
      filled_cycle hm]
    exact M.free a (by omega) h2

/-- What the inner loop hands back. -/
def Chained (valid : Nat → Bool) (m E F : Nat) (bodies : List Body)
    (res : TrbRing × List Write × Option (Nat × Nat)) (mem : RingMem) (F' : Nat) : Prop :=
  F' = F ∧ match res.2.2 with
    | none => Left valid m E res.1 mem F
    | some (first, last) => bodies ≠ [] ∧ first = F % m ∧ last = (F + (bodies.length - 1)) % m
        ∧ Mid m mem res.1 F bodies

theorem ready_chain (hm : 0 < m) : ∀ {bs done : List Body} {r : TrbRing} {mem : RingMem} (last : Nat),
    Mid m mem r F done → (done ≠ [] → last = (F + (done.length - 1)) % m) →
    done.length + bs.length ≤ m → F + (done.length + bs.length) ≤ E →
    Ready m E mem F (chainLoop valid (if done = [] then none else some (F % m)) last r bs).2.1
      (Chained valid m E F (done ++ bs)
        (chainLoop valid (if done = [] then none else some (F % m)) last r bs)) := by
  intro bs
  induction bs with
  | nil =>
    intro done r mem last M hlast hlen hE
    refine ⟨rfl, ?_⟩
    rw [List.append_nil]
    unfold chainLoop
    by_cases hd : done = []
    · subst hd
      exact ⟨F, Or.inl rfl, Clear.rest valid hm ⟨M.size, M.at_, M.link, M.free⟩⟩
    · rw [if_neg hd]
      exact ⟨hd, rfl, hlast hd, M⟩
  | cons b bs ih =>
    intro done r mem last M hlast hlen hE
    simp only [List.length_cons] at hlen hE
    have hgate := M.gate hm
    have hnext := M.free (F + done.length) le_rfl (by omega)
    unfold chainLoop
    rw [advanceEnqueuePtr_eq hm M.size M.at_]
    cases hv : valid ((F + done.length) % m) with
    | false =>
      have R : Rest valid m mem r F (F + done.length) :=
        ⟨M.size, by omega, M.at_, M.link, hgate, hnext, Or.inr hv⟩
      exact ready_stuck hm R (by omega)
    | true =>
      have hsnoc := M.snoc (b := b) hm (by omega)
      have happ : done ++ b :: bs = done ++ [b] ++ bs := by simp
      have hbit : (filled m mem (F + done.length) b ((F + done.length) % m)).cycleBit
          = !cyc m (F + done.length) := by rw [filled_cycle hm, hnext]
      have hne : (done ++ [b] = []) = False := by simp
      have IH := ih ((F + done.length) % m) hsnoc
        (fun _ => by rw [List.length_append, List.length_singleton]; rfl)
        (by rw [List.length_append, List.length_singleton]; omega)
        (by rw [List.length_append, List.length_singleton]; omega)
      rw [if_neg (List.append_ne_nil_of_right_ne_nil _ (List.cons_ne_nil _ _))] at IH
      simp only [if_true]
      rw [happ]
      refine ready_trb hm M.at_ M.link (by omega) (by omega) hgate ?_
      by_cases hd : done = []
      · -- the first TRB stays with the controller's back turned
        subst hd
        simp only [if_true, Option.getD_none, ne_eq, not_true_eq_false, if_false, List.nil_append,
          List.length_nil, Nat.add_zero] at IH hbit ⊢
        have hself : filled m mem F b (F % m) = ⟨b, !cyc m F⟩ := by
          rw [← hbit, filled_self]
        rw [← hself, Function.update_eq_self] at IH
        exact IH
      · simp only [if_neg hd, Option.getD_some] at IH ⊢
        have hpos := List.length_pos_of_ne_nil hd
        have hslot := slot_ne (m := m) (show F < F + done.length by omega) (by omega)
        have hmem : (Op.cycle ((F + done.length) % m) (cyc m (F + done.length))).apply
            (filled m mem (F + done.length) b) = Function.update (filled m mem (F + done.length) b)
              ((F + done.length) % m) ⟨b, cyc m (F + done.length)⟩ := by
          rw [Op.apply, filled_self]
        rw [if_pos hslot.symm]
        refine ⟨Or.inl ⟨F + done.length, by omega, by omega, rfl⟩, by simpa using (by omega : F ≤ E),
          built_nil, ?_, ?_⟩
        · rw [hmem]
          refine (congrArg Trb.cycleBit (Function.update_of_ne hslot _ _)).trans ?_
          rw [filled_of_ne hm hslot, hgate]
          rfl
        · rw [hmem]
          exact IH

/-- The cycle bit of the first TRB hands the chain of a round over. -/
theorem Mid.handed (hm : 0 < m) (M : Mid m mem r F bodies) (hne : bodies ≠ [])
    (hlen : bodies.length ≤ m) (mem' : RingMem)
    (hfirst : mem' (F % m) = ⟨bodies.get ⟨0, List.length_pos_of_ne_nil hne⟩, cyc m F⟩)
    (hslots : ∀ a, F < a → a < F + m → mem' (a % m) = mem (a % m))
    (hlink : (mem' m).cycleBit = (mem m).cycleBit) (hplain : ∀ b ∈ bodies, b.trbType ≠ .link) :
    Built m mem' F bodies ∧ Clear m mem' r (F + bodies.length) := by
  have hpos := List.length_pos_of_ne_nil hne
  have hbit := M.bit hne
  -- the TRBs of the chain, and the cycle bits of the lap behind them
  have hslot : ∀ j (hj : j < bodies.length), mem' ((F + j) % m) = ⟨bodies[j], cyc m (F + j)⟩ := by
    intro j hj
    obtain rfl | hj0 := Nat.eq_zero_or_pos j
    · exact hfirst
    · rw [hslots (F + j) (by omega) (by omega), M.slots j hj hj0]
  have hfree : ∀ a, F + bodies.length ≤ a → a < F + bodies.length + m →
      (mem' (a % m)).cycleBit = !cyc m a := by
    intro a h1 h2
    by_cases ha : a < F + m
    · rw [hslots a (by omega) ha]
      exact M.free a h1 ha
    · obtain ⟨j, rfl⟩ : ∃ j, a = F + j + m := ⟨a - F - m, by omega⟩
      rw [Nat.add_mod_right, hslot j (by omega), cyc_add hm, Bool.not_not]
  refine ⟨⟨hslot, hplain, fun a h1 h2 h3 _ => ?_⟩, M.size, M.at_, by rw [hlink, M.link], hfree⟩
  rw [hlink, M.link, hbit]
  congr 1
  exact cyc_same (div_eq_of_lap h3 (by omega) (by omega))

/-- The write of the cycle bit that hands a chain over. -/
theorem ready_hand (hm : 0 < m) (M : Mid m mem r F bodies) (hne : bodies ≠ [])
    (hlen : bodies.length ≤ m) (hE : F + bodies.length ≤ E) (hplain : ∀ b ∈ bodies, b.trbType ≠ .link)
    {ws : List Write} {post : RingMem → Nat → Prop}
    (hrest : ∀ mem', Clear m mem' r (F + bodies.length) → Ready m E mem' (F + bodies.length) ws post) :
    Ready m E mem F (⟨.cycle (F % m) (cyc m F), bodies⟩ :: ws) post := by
  have hpos := List.length_pos_of_ne_nil hne
  have hself : mem (F % m) = ⟨bodies[0], !cyc m F⟩ := M.first hpos
  obtain ⟨hbuilt, hclear⟩ := M.handed hm hne hlen ((Op.cycle (F % m) (cyc m F)).apply mem)
    (by
      rw [Op.apply, Function.update_self, hself]
      rfl)
    (fun a h1 h2 => Function.update_of_ne (slot_ne h1 h2).symm _ _)
    (congrArg Trb.cycleBit (Function.update_of_ne (Nat.mod_lt F hm).ne' _ _)) hplain
  exact ⟨Or.inl ⟨F, le_rfl, by omega, rfl⟩, hE, hbuilt, hclear.gate hm, hrest _ hclear⟩

/-- The chain flag of the link TRB takes no part in this. -/
theorem ready_flag {flag : Bool} (hFE : F ≤ E) (hm : 0 < m) (hgate : (mem (F % m)).cycleBit = !cyc m F)
    {ws : List Write} {post : RingMem → Nat → Prop}
    (hrest : Ready m E ((Op.chain m flag).apply mem) F ws post) :
    Ready m E mem F (⟨.chain m flag, []⟩ :: ws) post := by
  refine ⟨rfl, by simpa using hFE, built_nil, ?_, hrest⟩
  refine (congrArg Trb.cycleBit (Function.update_of_ne (Nat.mod_lt F hm).ne _ _)).trans hgate

theorem flagged_slot (hm : 0 < m) {flag : Bool} (x : Nat) :
    (Op.chain m flag).apply mem (x % m) = mem (x % m) :=
  Function.update_of_ne (Nat.mod_lt x hm).ne _ _

theorem flagged_link {flag : Bool} : ((Op.chain m flag).apply mem m).cycleBit = (mem m).cycleBit := by
  rw [Op.apply, Function.update_self]

theorem Clear.flag (hm : 0 < m) {flag : Bool} (c : Clear m mem r F) :
    Clear m ((Op.chain m flag).apply mem) r F :=
  ⟨c.size, c.at_, by rw [flagged_link, c.link], fun a h1 h2 => by rw [flagged_slot hm, c.free a h1 h2]⟩

theorem Mid.flag (flag : Bool) (hm : 0 < m) (M : Mid m mem r F done) :
    Mid m ((Op.chain m flag).apply mem) r F done :=
  ⟨M.size, M.at_, M.bit, by rw [flagged_link, M.link], fun h => by rw [flagged_slot hm, M.first h],
    fun j hj h => by rw [flagged_slot hm, M.slots j hj h], fun a h1 h2 => by rw [flagged_slot hm, M.free a h1 h2]⟩

/-- A round of a bulk transfer. -/
theorem ready_bulk (hm : 0 < m) {rung : Bool} (c : Clear m mem r F)
    (hlen : bodies.length ≤ m) (hE : F + bodies.length ≤ E) (hplain : ∀ b ∈ bodies, b.trbType ≠ .link)
    (hlast : valid m = true) :
    Ready m E mem F (queueChain valid rung r bodies).2
      (Left valid m E (queueChain valid rung r bodies).1) := by
  have hchain := @ready_chain valid m E F hm bodies [] r mem 0 c.mid
    (fun h => absurd rfl h) (by simpa using hlen) (by simpa using hE)
  rw [if_pos rfl, List.nil_append] at hchain
  unfold queueChain
  generalize hres : chainLoop valid none 0 r bodies = res at hchain
  obtain ⟨r', ws, pair⟩ := res
  cases pair with
  | none =>
    refine hchain.mono fun mem' F' h => ?_
    rw [h.1]
    exact h.2
  | some pair =>
    obtain ⟨first, last⟩ := pair
    obtain ⟨_, _, -, hne, rfl, rfl, hM⟩ := hchain.ends
    have hpos := List.length_pos_of_ne_nil hne
    have hsize : r'.lastTrb = m := by
      unfold TrbRing.lastTrb
      rw [hM.size]
      exact Nat.add_sub_cancel m 1
    obtain ⟨hcross, hsame⟩ := cyc_cross hm (show F ≤ F + (bodies.length - 1) by omega) (by omega)
    rw [← hM.bit hne] at hcross hsame
    simp only [hsize, hlast, Bool.not_true, Bool.false_eq_true, if_false]
    rw [List.append_assoc]
    -- what is done when the chain has been handed over
    have hdone : ∀ mem', Clear m mem' r' (F + bodies.length) →
        Ready m E mem' (F + bodies.length) (if rung = true then [⟨.chain m false, []⟩] else [])
          (Left valid m E r') := by
      intro mem' c'
      cases rung with
      | false => exact ⟨_, Or.inl rfl, c'.rest valid hm⟩
      | true => exact ready_flag hE hm (c'.gate hm) ⟨_, Or.inl rfl, (c'.flag hm).rest valid hm⟩
    refine Ready.append (hchain.mono fun mem' F' h => ?_)
    obtain ⟨rfl, -, -, -, M⟩ := h
    split
    · rename_i hlt
      have hbit := hcross hlt
      refine ready_flag (by omega) hm (M.gate hm) ?_
      have M' := M.flag true hm
      -- first the bit that the TRB has already, then the other
      have hkeep : (Op.cycle (F' % m) r'.cycleBit).apply ((Op.chain m true).apply mem')
          = (Op.chain m true).apply mem' := by
        rw [Op.apply, hbit, ← M'.gate hm]
        exact Function.update_eq_self _ _
      refine ⟨Or.inl ⟨F', le_rfl, by omega, rfl⟩, by simpa using (by omega : F' ≤ E), built_nil, ?_, ?_⟩
      · rw [hkeep]
        exact M'.gate hm
      · rw [hkeep, hbit, Bool.not_not]
        exact ready_hand hm M' hne hlen hE hplain hdone
    · rename_i hge
      rw [hsame hge]
      exact ready_hand hm M hne hlen hE hplain hdone

end

/-! ## Bulk data -/

/-- The TRBs cover `length` bytes from `dataPointer` on, one after the other, and none of
them spans a 64 KB boundary. -/
inductive Covers : Nat → Nat → List Body → Prop
  | nil {dataPointer : Nat} : Covers dataPointer 0 []
  | cons {dataPointer length : Nat} {b : Body} {bs : List Body} (hparam : b.param = dataPointer)
      (hpos : 0 < b.xferLength) (hle : b.xferLength ≤ 0x10000)
      (hbound : dataPointer % 0x10000 + b.xferLength ≤ 0x10000)
      (hrest : Covers (dataPointer + b.xferLength) length bs) :
      Covers dataPointer (b.xferLength + length) (b :: bs)

/-- A transfer descriptor: TRBs chained to the last one. -/
def IsTd : List Body → Prop
  | [] => False
  | [b] => b.chain = false
  | b :: bs => b.chain = true ∧ IsTd bs

section

variable (ver100 : Bool) (maxPktSize : Nat)

theorem Covers.append {dp n n' : Nat} {bs bs' : List Body} (h : Covers dp n bs)
    (h' : Covers (dp + n) n' bs') : Covers dp (n + n') (bs ++ bs') := by
  induction h with
  | nil => simpa using h'
  | cons hparam hpos hle hbound _ ih =>
    rw [Nat.add_assoc]
    refine .cons hparam hpos hle hbound (ih ?_)
    rwa [Nat.add_assoc]

variable {remaining : Nat}

/-- The size of a TRB. It is chained exactly if bytes remain behind it. -/
theorem bulk_size (dp : Nat) {td size : Nat} (h0 : remaining ≠ 0)
    (htd : td = if botTdMaxSize < remaining then botTdMaxSize else remaining)
    (hsize : size = if 0x10000 - dp % 0x10000 < td then 0x10000 - dp % 0x10000 else td) :
    0 < size ∧ size ≤ remaining ∧ dp % 0x10000 + size ≤ 0x10000
      ∧ (botTdMaxSize < remaining ∨ 0x10000 - dp % 0x10000 < td ↔ size < remaining) := by
  have hmod := Nat.mod_lt dp (show 0 < 0x10000 by decide)
  generalize dp % 0x10000 = off at hmod hsize ⊢
  unfold botTdMaxSize at htd ⊢
  split at htd <;> split at hsize <;> omega

/-- One turn of the inner loop. -/
theorem bulkLoop_succ (fuel dp : Nat) (h0 : remaining ≠ 0) :
    ∃ b : Body, b.param = dp ∧ 0 < b.xferLength ∧ b.xferLength ≤ remaining
      ∧ dp % 0x10000 + b.xferLength ≤ 0x10000 ∧ (b.chain = true ↔ b.xferLength < remaining)
      ∧ b.trbType ≠ .link
      ∧ bulkLoop ver100 maxPktSize (fuel + 1) dp remaining
        = b :: bulkLoop ver100 maxPktSize fuel (dp + b.xferLength) (remaining - b.xferLength) := by
  obtain ⟨hpos, hle, hbound, hchain⟩ := bulk_size dp h0 rfl rfl
  rw [bulkLoop, if_neg h0]
  refine ⟨_, rfl, hpos, hle, hbound, ?_, by simp, rfl⟩
  rw [← hchain, Bool.or_eq_true, decide_eq_true_iff, decide_eq_true_iff]

theorem bulkLoop_zero : ∀ fuel dp : Nat, bulkLoop ver100 maxPktSize fuel dp 0 = []
  | 0, _ => rfl
  | _ + 1, _ => if_pos rfl

theorem bulkLoop_covers : ∀ {fuel : Nat} (dp : Nat) {remaining : Nat}, remaining ≤ fuel →
    Covers dp remaining (bulkLoop ver100 maxPktSize fuel dp remaining) := by
  intro fuel
  induction fuel with
  | zero =>
    intro dp remaining h
    obtain rfl : remaining = 0 := by omega
    exact .nil
  | succ fuel ih =>
    intro dp remaining h
    by_cases h0 : remaining = 0
    · rw [h0, bulkLoop_zero]
      exact .nil
    obtain ⟨b, hparam, hpos, hle, hbound, -, -, heq⟩ := bulkLoop_succ ver100 maxPktSize
      fuel dp h0
    rw [heq]
    obtain ⟨rest, rfl⟩ : ∃ rest, remaining = b.xferLength + rest := ⟨remaining - b.xferLength, by omega⟩
    rw [Nat.add_sub_cancel_left]
    exact .cons hparam hpos (by omega) hbound (ih _ (by omega))

/-- The rounds of a bulk transfer cover the bytes that were asked for. -/
theorem bulkRounds_covers : ∀ {fuel : Nat} (dp : Nat) {remaining : Nat}, remaining ≤ fuel →
    Covers dp remaining ((bulkRounds fuel dp remaining).flatMap fun x =>
      bulkTrbs ver100 maxPktSize x.1 x.2) := by
  intro fuel
  induction fuel with
  | zero =>
    intro dp remaining h
    obtain rfl : remaining = 0 := by omega
    exact .nil
  | succ fuel ih =>
    intro dp remaining h
    unfold bulkRounds
    by_cases h0 : remaining = 0
    · rw [if_pos h0, h0]
      exact .nil
    rw [if_neg h0]
    simp only
    generalize hring : (if botMaxXfrSize < remaining then botMaxXfrSize else remaining) = ring
    have hring' : 0 < ring ∧ ring ≤ remaining := by
      rw [← hring]
      unfold botMaxXfrSize botTdMaxSize
      split <;> omega
    obtain ⟨rest, rfl⟩ : ∃ rest, remaining = ring + rest := ⟨remaining - ring, by omega⟩
    rw [Nat.add_sub_cancel_left, List.flatMap_cons]
    exact (bulkLoop_covers ver100 maxPktSize dp le_rfl).append (ih _ (by omega))

theorem bulkLoop_ne_nil {fuel : Nat} (dp : Nat) (h : remaining ≤ fuel) (h0 : remaining ≠ 0) :
    bulkLoop ver100 maxPktSize fuel dp remaining ≠ [] := by
  obtain ⟨fuel, rfl⟩ : ∃ k, fuel = k + 1 := ⟨fuel - 1, by omega⟩
  unfold bulkLoop
  rw [if_neg h0]
  exact List.cons_ne_nil _ _

/-- The TRBs of a round are one transfer descriptor. -/
theorem bulkLoop_isTd : ∀ {fuel : Nat} (dp : Nat) {remaining : Nat}, remaining ≤ fuel → remaining ≠ 0 →
    IsTd (bulkLoop ver100 maxPktSize fuel dp remaining) := by
  intro fuel
  induction fuel with
  | zero => exact fun _ _ h h0 => absurd h (by omega)
  | succ fuel ih =>
    intro dp remaining h h0
    obtain ⟨b, -, hpos, hle, -, hchain, -, heq⟩ := bulkLoop_succ ver100 maxPktSize
      fuel dp h0
    rw [heq]
    obtain hlast | hmore := Nat.eq_or_lt_of_le hle
    · rw [hlast, Nat.sub_self, bulkLoop_zero]
      show b.chain = false
      rw [← Bool.not_eq_true, hchain]
      omega
    · have hne := bulkLoop_ne_nil ver100 maxPktSize (dp + b.xferLength)
        (show remaining - b.xferLength ≤ fuel by omega) (by omega)
      have htd := ih (dp + b.xferLength) (show remaining - b.xferLength ≤ fuel by omega) (by omega)
      obtain ⟨b', bs, hbs⟩ := List.exists_cons_of_ne_nil hne
      rw [hbs] at htd ⊢
      exact ⟨hchain.mpr hmore, htd⟩

theorem bulkLoop_plain : ∀ {fuel dp remaining : Nat},
    ∀ b ∈ bulkLoop ver100 maxPktSize fuel dp remaining, b.trbType ≠ .link := by
  intro fuel
  induction fuel with
  | zero => exact fun b hb => absurd hb (by simp [bulkLoop])
  | succ fuel ih =>
    intro dp remaining b hb
    by_cases h0 : remaining = 0
    · rw [h0, bulkLoop_zero] at hb
      exact absurd hb (by simp)
    obtain ⟨b', -, -, -, -, -, hplain, heq⟩ := bulkLoop_succ ver100 maxPktSize
      fuel dp h0
    rw [heq] at hb
    obtain rfl | hb := List.mem_cons.mp hb
    · exact hplain
    · exact ih b hb

theorem Transfer.trbs_plain (t : Transfer) : ∀ b ∈ t.trbs, b.trbType ≠ .link := by
  cases t with
  | control ver100 request value index length bufPhyAddr =>
    intro b hb
    unfold Transfer.trbs controlTrbs at hb
    simp only [List.cons_append, List.mem_cons, List.mem_append, List.not_mem_nil, or_false] at hb
    obtain rfl | hb | rfl := hb
    · simp
    · split at hb
      · obtain rfl := List.mem_singleton.mp hb
        simp
      · exact absurd hb (by simp)
    · simp
  | bulk ver100 maxPktSize => exact bulkLoop_plain ver100 maxPktSize
  | interrupt =>
    intro b hb
    obtain rfl := List.mem_singleton.mp hb
    simp [interruptTrb]

end

/-! ## Runs -/

/-- There is room in the ring, by what the controller has not yet taken, for the TRBs of the
transfer. -/
def HasRoom (size : Nat) (q : Queue) (t : Transfer) : Prop :=
  q.waiting.length + t.trbs.length ≤ size - 1

section

variable {valid : Nat → Bool} {m E F A : Nat} {mem : RingMem} {r : TrbRing}

/-- No call comes past a TRB that does not pass the validation. -/
theorem ready_held (hm : 0 < m) (R : Rest valid m mem r F A) (hA : A < E)
    (hv : valid (A % m) = false) (t : Transfer) :
    Ready m E mem F (t.queue valid r).2 (Left valid m E (t.queue valid r).1) := by
  have hadv : advanceEnqueuePtr valid r = (⟨m + 1, A % m, cyc m A⟩, activate m r, none) := by
    rw [advanceEnqueuePtr_eq hm R.size R.at_, if_neg (by simp [hv])]
  have hstuck : Ready m E mem F (activate m r) (Left valid m E ⟨m + 1, A % m, cyc m A⟩) := by
    refine (ready_stuck hm R hA).mono fun mem' F' h => ?_
    rw [h.1]
    exact h.2
  have hnil : Left valid m E r mem F := ⟨A, Or.inr hA, R⟩
  have hsingles : ∀ bs, Ready m E mem F (queueSingles valid r bs).2
      (Left valid m E (queueSingles valid r bs).1) := by
    intro bs
    cases bs with
    | nil => exact hnil
    | cons b bs =>
      unfold queueSingles
      rw [hadv]
      exact hstuck
  have hchain : ∀ rung bs, Ready m E mem F (queueChain valid rung r bs).2
      (Left valid m E (queueChain valid rung r bs).1) := by
    intro rung bs
    cases bs with
    | nil => exact hnil
    | cons b bs =>
      unfold queueChain chainLoop
      rw [hadv]
      exact hstuck
  cases t with
  | control => exact hsingles _
  | interrupt => exact hsingles _
  | bulk _ _ _ _ rung => exact hchain rung _

theorem queue_nil {t : Transfer} (h : t.trbs = []) : t.queue valid r = (r, []) := by
  cases t with
  | control | interrupt => exact absurd h (List.cons_ne_nil _ _)
  | bulk =>
    unfold Transfer.queue
    simp only [h]
    rfl

/-- Whatever is queued, its writes are in order. -/
theorem ready_queue (hm : 0 < m) {E' : Nat} (hleft : Left valid m E' r mem F) (hE' : E' ≤ E)
    (t : Transfer) (hroom : F + t.trbs.length ≤ E) (hE : E ≤ F + m) (hlast : valid m = true) :
    Ready m E mem F (t.queue valid r).2 (Left valid m E (t.queue valid r).1) := by
  obtain ⟨A, hA, R⟩ := hleft
  obtain ⟨rfl, hfree⟩ | hv := R.free
  · have c : Clear m mem r A := ⟨R.size, R.at_, R.link, hfree⟩
    have hlen : t.trbs.length ≤ m := by omega
    cases t with
    | control => exact ready_singles hm c hroom (Transfer.trbs_plain _)
    | interrupt => exact ready_singles hm c hroom (Transfer.trbs_plain _)
    | bulk => exact ready_bulk hm c hlen hroom (Transfer.trbs_plain _) hlast
  · by_cases hAE : A < E
    · exact ready_held hm R hAE hv t
    · -- a full ring, and nothing to queue
      have hAF : A = F := hA.resolve_right (by omega)
      rw [queue_nil (List.length_eq_zero_iff.mp (by omega))]
      exact ⟨A, Or.inl hAF, R⟩

end

/-! ## The invariant -/

/-- The controller is at number `C`, the TRBs below number `F` have been handed over, and the
writes to come are in order up to number `E`. -/
structure Stands (m : Nat) (valid : Nat → Bool) (s : System) (q : Queue) (C F E : Nat) : Prop where
  holds : Holds m s.mem C F q.waiting
  at_ : At m s.dequeue s.ccs C
  le : E ≤ C + m
  ready : Ready m E s.mem F s.todo (Left valid m E s.ring)
  taken : s.taken = q.taken

def Inv (m : Nat) (valid : Nat → Bool) (s : System) (q : Queue) : Prop :=
  ∃ C F E, Stands m valid s q C F E

section

variable {m : Nat} {valid : Nat → Bool} {s : System} {q : Queue}

theorem cyc_first {a : Nat} (h : a < m) : cyc m a = true := by
  unfold cyc
  rw [Nat.div_eq_of_lt h]
  rfl

theorem inv_init (hm : 0 < m) : Inv m valid (System.init (m + 1)) ⟨[], []⟩ := by
  have hslot : ∀ x, (initRing (m + 1)).2 (x % m) = ⟨{}, false⟩ := by
    intro x
    simp only [initRing, Nat.add_sub_cancel]
    rw [Function.update_of_ne (Nat.mod_lt x hm).ne]
  have hlink : (initRing (m + 1)).2 m = ⟨{ trbType := .link }, false⟩ := by
    simp only [initRing, Nat.add_sub_cancel]
    rw [Function.update_self]
  have hfirst : ∀ a, a < m → ((initRing (m + 1)).2 (a % m)).cycleBit = !cyc m a := by
    intro a ha
    rw [hslot, cyc_first ha]
    rfl
  have hat : At m 0 true 0 := Or.inl ⟨(Nat.zero_mod m).symm, (cyc_first hm).symm⟩
  have hrest : Rest valid m (initRing (m + 1)).2 (initRing (m + 1)).1 0 0 :=
    ⟨rfl, le_rfl, hat, by rw [hlink]; rfl, hfirst 0 hm, hfirst 0 hm,
      Or.inl ⟨rfl, fun a _ ha => hfirst a (by omega)⟩⟩
  refine ⟨0, 0, m, ⟨rfl, by omega, fun j hj => absurd hj (by simp), fun b hb => absurd hb (by simp),
    hfirst 0 hm, ?_, fun a h1 h2 => absurd h2 (by omega)⟩, hat, by omega, ⟨0, Or.inl rfl, hrest⟩, rfl⟩
  show ((initRing (m + 1)).2 m).body.trbType = _
  rw [hlink]

/-- A transfer is queued where the unconsumed TRBs leave room for it. -/
theorem Inv.submit (hm : 0 < m) (hlast : valid m = true) {t : Transfer} (h : Inv m valid s q)
    (idle : s.todo = []) (hroom : q.waiting.length + t.trbs.length ≤ m) :
    Inv m valid (s.submit valid t) q := by
  obtain ⟨C, F, E, S⟩ := h
  have hleft := S.ready
  rw [idle] at hleft
  have hF := S.holds.length
  have hready := ready_queue hm hleft S.le t (show F + t.trbs.length ≤ C + m by omega) (by omega) hlast
  exact ⟨C, F, C + m, S.holds, S.at_, le_rfl, hready, S.taken⟩

theorem Inv.write (hm : 0 < m) {w : Write} {ws : List Write} (h : Inv m valid s q)
    (htodo : s.todo = w :: ws) : Inv m valid (s.write w ws) (q.hand w.hands) := by
  obtain ⟨C, F, E, S⟩ := h
  have hready := S.ready
  rw [htodo] at hready
  have hrest := hready.2.2.2.2
  exact ⟨C, F + w.hands.length, E, S.holds.write hm S.le hready, S.at_, S.le, hrest, S.taken⟩

theorem Inv.follow (hm : 0 < m) (h : Inv m valid s q) (hcycle : (s.mem s.dequeue).cycleBit = s.ccs)
    (hlink : (s.mem s.dequeue).body.trbType = .link) : Inv m valid s.fetch q := by
  obtain ⟨C, F, E, S⟩ := h
  have hat := S.holds.followed hm S.at_ hcycle hlink
  rw [System.fetch, if_pos hlink]
  exact ⟨C, F, E, S.holds, hat, S.le, S.ready, S.taken⟩

theorem Inv.fetch (hm : 0 < m) (h : Inv m valid s q) (hcycle : (s.mem s.dequeue).cycleBit = s.ccs)
    (hlink : (s.mem s.dequeue).body.trbType ≠ .link) : Inv m valid s.fetch q.take := by
  obtain ⟨C, F, E, S⟩ := h
  obtain ⟨b, bs, hq, hbody, hat⟩ := S.holds.taken hm S.at_ hcycle hlink
  have hholds := S.holds
  rw [hq] at hholds
  have htail : q.take.waiting = bs := by
    unfold Queue.take
    rw [hq]
    rfl
  have htaken : q.take.taken = q.taken ++ [b] := by
    unfold Queue.take
    rw [hq]
    rfl
  rw [System.fetch, if_neg hlink]
  refine ⟨C + 1, F, E, ?_, hat, by have := S.le; omega, S.ready, ?_⟩
  · rw [htail]
    exact hholds.tail
  · rw [htaken, ← S.taken, ← hbody]

/-- Set TR Dequeue Pointer takes the controller to where the driver goes on. -/
theorem Inv.recover (h : Inv m valid s q) (idle : s.todo = []) : Inv m valid s.recover q.drop := by
  obtain ⟨C, F, E, S⟩ := h
  have hleft := S.ready
  rw [idle] at hleft
  obtain ⟨A, -, R⟩ := hleft
  have hfree : (A = A ∧ ∀ a, A ≤ a → a < A + m → (s.mem (a % m)).cycleBit = !cyc m a)
      ∨ valid (A % m) = false := by
    obtain ⟨rfl, hfree⟩ | hv := R.free
    · exact Or.inl ⟨rfl, hfree⟩
    · exact Or.inr hv
  have R' : Rest valid m s.mem s.ring A A := ⟨R.size, le_rfl, R.at_, R.link, R.next, R.next, hfree⟩
  refine ⟨A, A, A + m, ⟨rfl, by omega, fun j hj => absurd hj (by simp [Queue.drop]),
    fun b hb => absurd hb (by simp [Queue.drop]), R.next, S.holds.linkType,
    fun a h1 h2 => absurd h2 (by omega)⟩, R.at_, le_rfl, ?_, S.taken⟩
  show Ready m (A + m) s.mem A s.todo _
  rw [idle]
  exact ⟨A, Or.inl rfl, R'⟩

theorem inv_of_run (hm : 0 < m) (hlast : valid m = true)
    (h : Run (m + 1) valid (HasRoom (m + 1)) s q) : Inv m valid s q := by
  induction h with
  | init => exact inv_init hm
  | submit t _ idle hok ih => exact ih.submit hm hlast idle hok
  | write _ htodo ih => exact ih.write hm htodo
  | follow _ hcycle hlink ih => exact ih.follow hm hcycle hlink
  | fetch _ hcycle hlink ih => exact ih.fetch hm hcycle hlink
  | recover _ idle ih => exact ih.recover idle

theorem Inv.agrees (hm : 0 < m) (h : Inv m valid s q) : Agrees s q := by
  obtain ⟨C, F, E, S⟩ := h
  obtain ⟨mem', F', A, -, R⟩ := S.ready.ends
  have hlen : q.waiting.length ≤ m := by
    have h1 := S.holds.length
    have h2 := S.holds.room
    omega
  exact ⟨S.taken, S.holds.visible hm S.at_ (by have := R.size; omega)⟩

end

/-! ## What is handed over -/

/-- What the writes of a call hand over. -/
def handed (ws : List Write) : List Body := ws.flatMap Write.hands

section

variable {valid : Nat → Bool}

theorem handed_append (ws ws' : List Write) : handed (ws ++ ws') = handed ws ++ handed ws' :=
  List.flatMap_append

/-- Only the cycle bit of a TRB, and not that of the link, hands anything over. -/
theorem advanceEnqueuePtr_hands {r r' : TrbRing} {ws : List Write} {i : Option Nat}
    (h : advanceEnqueuePtr valid r = (r', ws, i)) : ∀ w ∈ ws, w.hands = [] := by
  have hws : ∀ w ∈ (advanceEnqueuePtr valid r).2.1, w.hands = [] := by
    intro w hw
    unfold advanceEnqueuePtr at hw
    simp only at hw
    split at hw <;> split at hw <;> simp only [List.mem_append, List.mem_singleton, List.not_mem_nil,
      false_or] at hw
    · obtain rfl | rfl := hw <;> rfl
    · rw [hw]
    · rw [hw]
  rwa [h] at hws

theorem advanceEnqueuePtr_some (hvalid : ∀ i, valid i = true) (r : TrbRing) :
    ∃ r' ws i, advanceEnqueuePtr valid r = (r', ws, some i) := by
  unfold advanceEnqueuePtr
  simp only [hvalid, if_true]
  exact ⟨_, _, _, rfl⟩

theorem handed_nil {ws : List Write} (h : ∀ w ∈ ws, w.hands = []) : handed ws = [] :=
  List.flatMap_eq_nil_iff.mpr h

/-- What a call is to hand over of its TRBs: transfer descriptors that are complete, in the
order in which they were built, and all of them if no TRB fails the validation. -/
structure HandsOver (valid : Nat → Bool) (ws : List Write) (trbs : List Body) : Prop where
  complete : ∀ w ∈ ws, w.hands = [] ∨ IsTd w.hands
  inOrder : handed ws <+: trbs
  all : (∀ i, valid i = true) → handed ws = trbs

theorem queueSingles_handsOver : ∀ {bs : List Body} (r : TrbRing), (∀ b ∈ bs, b.chain = false) →
    HandsOver valid (queueSingles valid r bs).2 bs := by
  intro bs
  induction bs with
  | nil => exact fun r _ => ⟨fun w hw => absurd hw (by simp [queueSingles]), List.prefix_rfl, fun _ => rfl⟩
  | cons b bs ih =>
    intro r hchain
    unfold queueSingles
    split
    · rename_i r' ws h
      have hnil := advanceEnqueuePtr_hands h
      refine ⟨fun w hw => Or.inl (hnil w hw), ?_, fun hvalid => ?_⟩
      · show handed ws <+: _
        rw [handed_nil hnil]
        exact List.nil_prefix
      · obtain ⟨_, _, _, h'⟩ := advanceEnqueuePtr_some hvalid r
        exact absurd (h.symm.trans h') (by simp)
    · rename_i r' ws i h
      have hnil := advanceEnqueuePtr_hands h
      have IH := ih r' fun x hx => hchain x (List.mem_cons_of_mem _ hx)
      have hhanded : handed (ws ++ (⟨.fields i b, []⟩ :: ⟨.cycle i r'.cycleBit, [b]⟩ ::
          (queueSingles valid r' bs).2)) = b :: handed (queueSingles valid r' bs).2 := by
        rw [handed_append, handed_nil hnil]
        rfl
      constructor
      case complete =>
        intro w hw
        simp only [List.mem_append, List.mem_cons] at hw
        obtain hw | rfl | rfl | hw := hw
        · exact Or.inl (hnil w hw)
        · exact Or.inl rfl
        · exact Or.inr (hchain b (List.mem_cons_self ..))
        · exact IH.complete w hw
      case inOrder =>
        simp only
        rw [hhanded]
        exact List.cons_prefix_cons.mpr ⟨rfl, IH.inOrder⟩
      case all =>
        intro hvalid
        simp only
        rw [hhanded, IH.all hvalid]

/-- Nothing is handed over while a chain is built. -/
theorem chainLoop_hands : ∀ {bs : List Body} {first : Option Nat} {last : Nat} {r : TrbRing},
    ∀ w ∈ (chainLoop valid first last r bs).2.1, w.hands = [] := by
  intro bs
  induction bs with
  | nil => exact fun w hw => absurd hw (by simp [chainLoop])
  | cons b bs ih =>
    intro first last r w hw
    unfold chainLoop at hw
    split at hw
    · rename_i h
      exact advanceEnqueuePtr_hands h w hw
    · rename_i h
      simp only [List.mem_append, List.mem_cons] at hw
      obtain hw | (rfl | hw) | hw := hw
      · exact advanceEnqueuePtr_hands h w hw
      · rfl
      · split at hw
        · obtain rfl := List.mem_singleton.mp hw
          rfl
        · exact absurd hw (by simp)
      · exact ih w hw

theorem chainLoop_all (hvalid : ∀ i, valid i = true) : ∀ {bs : List Body} {first : Option Nat}
    {last : Nat} {r : TrbRing}, (chainLoop valid first last r bs).2.2 = none → first = none ∧ bs = [] := by
  intro bs
  induction bs with
  | nil => exact fun h => ⟨by simpa [chainLoop] using h, rfl⟩
  | cons b bs ih =>
    intro first last r h
    obtain ⟨r', ws, i, hadv⟩ := advanceEnqueuePtr_some hvalid r
    unfold chainLoop at h
    rw [hadv] at h
    exact absurd (ih h).1 (by simp)

theorem queueChain_handsOver {bodies : List Body} (rung : Bool) (r : TrbRing)
    (htd : bodies ≠ [] → IsTd bodies) : HandsOver valid (queueChain valid rung r bodies).2 bodies := by
  have hnil : ∀ w ∈ (chainLoop valid none 0 r bodies).2.1, w.hands = [] := chainLoop_hands
  have hne : (chainLoop valid none 0 r bodies).2.2 ≠ none → bodies ≠ [] := by
    rintro h rfl
    exact h rfl
  have hall : (∀ i, valid i = true) → (chainLoop valid none 0 r bodies).2.2 = none → bodies = [] :=
    fun hvalid h => (chainLoop_all hvalid h).2
  -- a call that hands nothing over
  have hnone : ∀ ws : List Write, (∀ w ∈ ws, w.hands = []) → ((∀ i, valid i = true) → bodies = []) →
      HandsOver valid ws bodies := by
    intro ws hws h
    refine ⟨fun w hw => Or.inl (hws w hw), ?_, fun hvalid => ?_⟩
    · rw [handed_nil hws]
      exact List.nil_prefix
    · rw [handed_nil hws, h hvalid]
  unfold queueChain
  generalize chainLoop valid none 0 r bodies = res at hnil hne hall
  obtain ⟨r', ws, pair⟩ := res
  cases pair with
  | none => exact hnone ws hnil fun hvalid => hall hvalid rfl
  | some pair =>
    obtain ⟨first, last⟩ := pair
    simp only
    split
    · rename_i hv
      exact hnone ws hnil fun hvalid => absurd hv (by simp [hvalid])
    · have htd' : IsTd bodies := htd (hne (by simp))
      -- before and behind the write that hands the chain over, nothing is
      have hpub : ∀ us vs : List Write, (∀ w ∈ us, w.hands = []) → (∀ w ∈ vs, w.hands = []) →
          ∀ op, HandsOver valid (us ++ ⟨op, bodies⟩ :: vs) bodies := by
        intro us vs hus hvs op
        have hhanded : handed (us ++ ⟨op, bodies⟩ :: vs) = bodies := by
          rw [handed_append, handed_nil hus]
          show bodies ++ handed vs = _
          rw [handed_nil hvs, List.append_nil]
        refine ⟨fun w hw => ?_, ?_, fun _ => hhanded⟩
        · obtain hw | hw := List.mem_append.mp hw
          · exact Or.inl (hus w hw)
          · obtain rfl | hw := List.mem_cons.mp hw
            · exact Or.inr htd'
            · exact Or.inl (hvs w hw)
        · exact ⟨[], by rw [hhanded, List.append_nil]⟩
      have hflag : ∀ w ∈ (if rung = true then [(⟨.chain r'.lastTrb false, []⟩ : Write)] else []),
          w.hands = [] := by
        intro w hw
        split at hw
        · obtain rfl := List.mem_singleton.mp hw
          rfl
        · exact absurd hw (by simp)
      split
      · have h := hpub (ws ++ [⟨.chain r'.lastTrb true, []⟩, ⟨.cycle first r'.cycleBit, []⟩]) _ ?_ hflag
          (.cycle first (!r'.cycleBit))
        · simpa only [List.append_assoc, List.cons_append, List.nil_append] using h
        · intro w hw
          simp only [List.mem_append, List.mem_cons, List.not_mem_nil, or_false] at hw
          obtain hw | rfl | rfl := hw
          · exact hnil w hw
          · rfl
          · rfl
      · have h := hpub ws _ hnil hflag (.cycle first r'.cycleBit)
        simpa only [List.append_assoc, List.cons_append, List.nil_append] using h

/-- The TRBs of a control transfer are a transfer descriptor each, and so is that of an
interrupt transfer; those of a bulk transfer are one. -/
theorem Transfer.handsOver (valid : Nat → Bool) (t : Transfer) (r : TrbRing) :
    HandsOver valid (t.queue valid r).2 t.trbs := by
  cases t with
  | control ver100 request value index length bufPhyAddr =>
    refine queueSingles_handsOver r fun b hb => ?_
    simp only [Transfer.trbs, controlTrbs, List.cons_append, List.mem_cons, List.mem_append, List.not_mem_nil, or_false] at hb
    obtain rfl | hb | rfl := hb
    · rfl
    · split at hb
      · obtain rfl := List.mem_singleton.mp hb
        rfl
      · exact absurd hb (by simp)
    · rfl
  | interrupt bufPhyAddr length =>
    refine queueSingles_handsOver r fun b hb => ?_
    obtain rfl := List.mem_singleton.mp hb
    rfl
  | bulk ver100 maxPktSize dataPointer ringDataSize rung =>
    refine queueChain_handsOver rung r fun hne => ?_
    refine bulkLoop_isTd ver100 maxPktSize dataPointer le_rfl fun h0 => hne ?_
    subst h0
    rfl

end

/-! ## The rings -/

/-- What is asked of a transfer ring: at every moment the controller has taken, and sees, the
TRBs of the queue; what is handed to it are complete transfer descriptors in their order;
and the rounds of a bulk transfer cover its bytes. -/
structure HandOver (size : Nat) (valid : Nat → Bool) (ok : Queue → Transfer → Prop) : Prop where
  agrees : ∀ s q, Run size valid ok s q → Agrees s q
  handsOver : ∀ (t : Transfer) r, HandsOver valid (t.queue valid r).2 t.trbs
  covers : ∀ ver100 maxPktSize dataPointer length, Covers dataPointer length
    ((bulkRounds length dataPointer length).flatMap fun x => bulkTrbs ver100 maxPktSize x.1 x.2)

/-- The rings hand over the transfer descriptors that are built in every run in which each
transfer is queued where there is room for it. -/
theorem handOver_of_room (size : Nat) (hsize : 2 ≤ size) (valid : Nat → Bool)
    (hlast : valid (size - 1) = true) : HandOver size valid (HasRoom size) where
  agrees := by
    obtain ⟨m, rfl⟩ : ∃ m, size = m + 1 := ⟨size - 1, by omega⟩
    intro s q h
    exact (inv_of_run (by omega) hlast h).agrees (by omega)
  handsOver := fun t r => t.handsOver valid r
  covers := fun ver100 maxPktSize dataPointer _ => bulkRounds_covers ver100 maxPktSize dataPointer le_rfl

theorem handOver_segment : 2 ≤ trbsPerSegment
    ∧ HandOver trbsPerSegment (fun _ => true) (HasRoom trbsPerSegment) :=
  ⟨by decide, handOver_of_room trbsPerSegment (by decide) (fun _ => true) rfl⟩

/-- All the writes of the call under way. -/
def System.perform (s : System) : System :=
  { s with mem := s.todo.foldl (fun mem w => w.op.apply mem) s.mem, todo := [] }

theorem Run.perform {size : Nat} {valid : Nat → Bool} {ok : Queue → Transfer → Prop} :
    ∀ {ws : List Write} {s : System} {q : Queue}, s.todo = ws → Run size valid ok s q →
    Run size valid ok s.perform (q.hand (handed ws)) := by
  intro ws
  induction ws with
  | nil =>
    intro s q htodo h
    have hs : s.perform = s := by
      unfold System.perform
      rw [htodo]
      cases s
      simp only at htodo
      rw [htodo]
      rfl
    have hq : q.hand (handed []) = q := by
      unfold Queue.hand
      rw [show handed [] = [] from rfl, List.append_nil]
    rwa [hs, hq]
  | cons w ws ih =>
    intro s q htodo h
    have hrun := @ih (s.write w ws) (q.hand w.hands) rfl (h.write htodo)
    have hs : (s.write w ws).perform = s.perform := by
      unfold System.perform
      rw [htodo]
      rfl
    have hq : (q.hand w.hands).hand (handed ws) = q.hand (handed (w :: ws)) := by
      unfold Queue.hand
      rw [List.append_assoc]
      rfl
    rwa [hs, hq] at hrun

/-- The state after interrupt transfers that are left because the endpoint is not seen
running. -/
def abandoned : Nat → System
  | 0 => System.init trbsPerSegment
  | n + 1 => ((abandoned n).submit (fun _ => true) (.interrupt 0x1000 8)).perform

theorem run_abandoned : ∀ n, Run trbsPerSegment (fun _ => true) (fun _ _ => True) (abandoned n)
    ⟨List.replicate n (interruptTrb 0x1000 8), []⟩ := by
  intro n
  induction n with
  | zero => exact .init
  | succ n ih =>
    have idle : (abandoned n).todo = [] := by
      cases n <;> rfl
    have hrun := (ih.submit (.interrupt 0x1000 8) idle trivial).perform rfl
    have hhanded := (Transfer.handsOver (fun _ => true) (.interrupt 0x1000 8)
      (abandoned n).ring).all fun _ => rfl
    have hq : (⟨List.replicate n (interruptTrb 0x1000 8), []⟩ : Queue).hand
        (handed ((Transfer.interrupt 0x1000 8).queue (fun _ => true) (abandoned n).ring).2)
        = ⟨List.replicate (n + 1) (interruptTrb 0x1000 8), []⟩ := by
      rw [hhanded, List.replicate_succ']
      rfl
    rw [← hq]
    exact hrun

theorem abandoned_visible : (abandoned 64).visible = [] := by
  decide +kernel

/-- With 64 transfers left in it the ring is taken for empty. -/
theorem not_handOver : ¬ HandOver trbsPerSegment (fun _ => true) (fun _ _ => True) := by
  intro h
  have hagrees := (h.agrees _ _ (run_abandoned 64)).2
  rw [abandoned_visible] at hagrees
  exact absurd (congrArg List.length hagrees) (by simp)

end BayTrail.Usb.Xhci
