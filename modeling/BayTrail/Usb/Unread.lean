import BayTrail.Usb.Queue

/-!
# Only the oldest items are dropped

As long as an item goes where nothing is to be read, and the one that it drops is of its size. `Keeps` is
the invariant: from the tail on the queue holds the unread items one behind the other, a wrap where one
would not fit. A call that fits keeps it (`keeps_put`, `call_meets`), so a run does.
-/

namespace BayTrail.Usb

variable {α : Type} {q : Queue α} {unread : List (List α)} {m : List α}

/-! ## Data -/

theorem length_readAt (data : Nat → α) (p n : Nat) : (readAt data p n).length = n := by rw [readAt, List.length_map, List.length_range]

theorem readAt_writeAt (data : Nat → α) (p : Nat) (d : List α) : readAt (writeAt data p d) p d.length = d := by
  refine List.ext_getElem (length_readAt _ _ _) fun i hi hi' => ?_
  simp only [readAt, List.getElem_map, List.getElem_range, writeAt]
  rw [if_pos (Nat.le_add_right p i), Nat.add_sub_cancel_left, List.getElem?_eq_getElem hi', Option.getD_some]

variable {p n maxsize p' tail : Nat}

/-- What is apart from the elements that are written stays. -/
theorem readAt_writeAt_apart {data : Nat → α} {h : Nat} {d : List α} (hapart : Apart p n h d.length) :
    readAt (writeAt data h d) p n = readAt data p n := by
  refine List.map_congr_left fun i hi => ?_
  have hlt := List.mem_range.mp hi
  rw [writeAt]
  rcases hapart with hle | hle
  · rw [if_neg (by omega)]
  · by_cases hh : h ≤ p + i
    · rw [if_pos hh, List.getElem?_eq_none (by omega), Option.getD_none]
    · exact if_neg hh

/-! ## Items -/

/-- Ranges that are apart do not end at the same place. -/
theorem next_ne {n' : Nat} (hn : 0 < n) (hn' : 0 < n') (hapart : Apart (start maxsize p n) n (start maxsize p' n') n') :
    next maxsize p n ≠ next maxsize p' n' := by
  rw [next, next]
  rcases hapart with h | h
  · split <;> split <;> omega
  · split <;> split <;> omega

theorem dropLast_places (maxsize tail : Nat) (unread : List (List α)) (m : List α) :
    (places maxsize tail (unread ++ [m])).dropLast = places maxsize tail unread := by
  induction unread generalizing tail with
  | nil => rfl
  | cons o rest ih =>
    have hne : places maxsize (next maxsize tail o.length) (rest ++ [m]) ≠ [] := by
      cases rest with
      | nil => exact List.cons_ne_nil _ _
      | cons _ _ => exact List.cons_ne_nil _ _
    rw [List.cons_append, places, places, List.dropLast_cons_of_ne_nil hne, ih]

/-- Where a consumer may stand: at each item, and at the end. -/
def tails (maxsize : Nat) : Nat → List (List α) → List Nat
  | tail, [] => [tail]
  | tail, m :: ms => tail :: tails maxsize (next maxsize tail m.length) ms

/-- The queue that the new item is in. -/
def put (q : Queue α) (m : List α) : Queue α :=
  let head := next q.maxsize q.head m.length
  { q with
    data := writeAt q.data (start q.maxsize q.head m.length) m
    head := head
    tail := if head = q.tail then (if q.maxsize ≤ q.tail + m.length then 0 else q.tail + m.length) else q.tail }

/-- The items behind this place, and the new one. -/
theorem reads_put (hreads : Reads q tail unread) (hle : start q.maxsize q.head m.length + m.length ≤ q.maxsize)
    (hapart : ∀ x ∈ places q.maxsize tail unread, Apart x.1 x.2 (start q.maxsize q.head m.length) m.length)
    (hne : ∀ t ∈ tails q.maxsize tail unread, t ≠ next q.maxsize q.head m.length) : Reads (put q m) tail (unread ++ [m]) := by
  induction unread generalizing tail with
  | nil =>
    obtain rfl : tail = q.head := hreads
    exact ⟨hne _ List.mem_cons_self, hle, readAt_writeAt _ _ _, rfl⟩
  | cons o rest ih =>
    obtain ⟨-, hfits, hread, hrest⟩ := hreads
    refine ⟨hne _ List.mem_cons_self, hfits, ?_, ih hrest (fun x hx => hapart x (List.mem_cons_of_mem _ hx)) fun t ht => hne t (List.mem_cons_of_mem _ ht)⟩
    exact (readAt_writeAt_apart (hapart _ List.mem_cons_self)).trans hread

/-- The head does not get where an item has ended. -/
theorem tails_ne (hm : m ≠ []) (hnonempty : ∀ o ∈ unread, o ≠ []) (hreads : Reads q tail unread)
    (hapart : ∀ x ∈ places q.maxsize tail unread, Apart x.1 x.2 (start q.maxsize q.head m.length) m.length)
    (htail : tail ≠ next q.maxsize q.head m.length) : ∀ t ∈ tails q.maxsize tail unread, t ≠ next q.maxsize q.head m.length := by
  induction unread generalizing tail with
  | nil =>
    intro t ht
    rw [List.mem_singleton.mp ht]
    exact htail
  | cons o rest ih =>
    obtain ⟨-, -, -, hrest⟩ := hreads
    intro t ht
    rcases List.mem_cons.mp ht with rfl | ht
    · exact htail
    · refine ih (fun o' ho' => hnonempty o' (List.mem_cons_of_mem _ ho')) hrest (fun x hx => hapart x (List.mem_cons_of_mem _ hx)) ?_ t ht
      exact next_ne (List.length_pos_of_ne_nil (hnonempty o List.mem_cons_self)) (List.length_pos_of_ne_nil hm)
        (hapart _ List.mem_cons_self)

theorem next_lt (hle : start maxsize p n + n ≤ maxsize) (hpos : 0 < maxsize) : next maxsize p n < maxsize := by
  rw [next]
  split <;> omega

theorem start_le (hn : n ≤ maxsize) : start maxsize p n + n ≤ maxsize := by
  rw [start]
  split <;> omega

/-- The items after the call. -/
def kept (q : Queue α) (unread : List (List α)) (m : List α) : List (List α) :=
  if next q.maxsize q.head m.length = q.tail then (unread ++ [m]).tail else unread ++ [m]

/-- One item more, or one for another. -/
theorem keeps_put (h : Keeps q unread) (hfits : Fits q unread m) :
    Keeps (put q m) (kept q unread m) ∧ Queued q unread m (put q m) (kept q unread m) := by
  have hpos : 0 < q.maxsize := by have := h.head; omega
  have hle := start_le (p := q.head) hfits.length
  have hnonempty : ∀ o ∈ unread ++ [m], o ≠ [] := by
    intro o ho
    rcases List.mem_append.mp ho with ho | ho
    · exact h.nonempty o ho
    · rw [List.mem_singleton.mp ho]
      exact hfits.nonempty
  by_cases hfull : next q.maxsize q.head m.length = q.tail
  · obtain ⟨holdest, hgap⟩ := hfits.drops hfull
    rw [kept, if_pos hfull]
    have htail : (put q m).tail = if q.maxsize ≤ q.tail + m.length then 0 else q.tail + m.length := if_pos hfull
    have htail_lt : (put q m).tail < q.maxsize := by
      rw [htail]
      split <;> omega
    -- behind the oldest item, which is of this size
    have hnext : (put q m).tail = next q.maxsize q.tail m.length := by
      have hstart : start q.maxsize q.tail m.length = q.tail := if_neg (by omega)
      rw [htail, next, hstart]
      split <;> split <;> omega
    have hdropped : Reads (put q m) (put q m).tail (unread ++ [m]).tail ∧
        ∀ x ∈ (places q.maxsize (put q m).tail (unread ++ [m]).tail).dropLast, Apart x.1 x.2 (start q.maxsize q.head m.length) m.length := by
      cases unread with
      | nil =>
        have hempty : q.tail = q.head := h.reads
        refine ⟨?_, nofun⟩
        rw [hnext, hempty]
        rfl
      | cons o rest =>
        obtain ⟨-, -, -, hrest⟩ := h.reads
        have hlen := holdest o rfl
        have hrest' := fun x hx => hfits.apart x (List.mem_cons_of_mem _ hx)
        rw [← hlen] at hnext
        rw [hnext]
        refine ⟨reads_put hrest hle hrest' ?_, ?_⟩
        · refine tails_ne hfits.nonempty (fun o' ho' => h.nonempty o' (List.mem_cons_of_mem _ ho')) hrest hrest' ?_
          exact next_ne (List.length_pos_of_ne_nil (h.nonempty o List.mem_cons_self)) (List.length_pos_of_ne_nil hfits.nonempty)
            (hfits.apart _ List.mem_cons_self)
        · rw [show (o :: rest ++ [m]).tail = rest ++ [m] from rfl, dropLast_places]
          exact hrest'
    refine ⟨⟨h.maxsize, next_lt hle hpos, htail_lt, fun o ho => hnonempty o (List.mem_of_mem_tail ho), hdropped.1⟩, fun _ => rfl,
      fun hne => absurd hfull hne, hdropped.2⟩
  · rw [kept, if_neg hfull]
    have htail : (put q m).tail = q.tail := if_neg hfull
    refine ⟨⟨h.maxsize, next_lt hle hpos, by rw [htail]; exact h.tail, hnonempty, ?_⟩, fun hf => absurd hf hfull, fun _ => rfl, ?_⟩
    · rw [htail]
      exact reads_put h.reads hle hfits.apart (tails_ne hfits.nonempty h.nonempty h.reads hfits.apart fun heq => hfull heq.symm)
    · rw [htail]
      show ∀ x ∈ (places q.maxsize q.tail (unread ++ [m])).dropLast, _
      rw [dropLast_places]
      exact hfits.apart

/-! ## Calls -/

theorem smiQueuePutMsg_eq (hfits : Fits q unread m) : smiQueuePutMsg true q m = some (put q m) := by
  have hle := start_le (p := q.head) hfits.length
  have hhead := hfits.head
  have htail := hfits.tail
  rw [smiQueuePutMsg, if_neg (by omega)]
  exact if_neg (show ¬ q.maxsize < start q.maxsize q.head m.length + m.length by omega)

/-- A pointer is an item of size one. -/
theorem smiQueuePut_eq (h : Keeps q unread) (d : α) : smiQueuePut q d = some (put q [d]) := by
  have hhead := h.head
  have htail := h.tail
  have hstart : start q.maxsize q.head 1 = q.head := if_neg (by omega)
  have hmod : (q.tail + 1) % q.maxsize = if q.maxsize ≤ q.tail + 1 then 0 else q.tail + 1 := by
    split
    · rw [show q.tail + 1 = q.maxsize by omega, Nat.mod_self]
    · exact Nat.mod_eq_of_lt (by omega)
  rw [smiQueuePut, if_neg (by omega)]
  simp only [Nat.mod_eq_of_lt hhead, put, next, List.length_singleton, hstart, hmod]

/-- The tail is only where the consumer begins. -/
theorem reads_tail (t : Nat) (h : Reads q tail unread) : Reads { q with tail := t } tail unread := by
  induction unread generalizing tail with
  | nil => exact h
  | cons o rest ih => exact ⟨h.1, h.2.1, h.2.2.1, ih h.2.2.2⟩

theorem Keeps.next {o : List α} {rest : List (List α)} (h : Keeps q (o :: rest)) :
    Keeps { q with tail := next q.maxsize q.tail o.length } rest := by
  obtain ⟨-, hin, -, hrest⟩ := h.reads
  have hhead := h.head
  exact ⟨h.maxsize, hhead, next_lt hin (by omega), fun o' ho' => h.nonempty o' (List.mem_cons_of_mem _ ho'), reads_tail _ hrest⟩

theorem queueRemoveMsg_eq {o : List α} {rest : List (List α)} (h : Keeps q (o :: rest)) (hlt : o.length < q.maxsize) :
    ∃ p, queueRemoveMsg q o.length = (some p, { q with tail := next q.maxsize q.tail o.length }) ∧ readAt q.data p o.length = o := by
  obtain ⟨hne, -, hread, -⟩ := h.reads
  refine ⟨start q.maxsize q.tail o.length, ?_, hread⟩
  rw [queueRemoveMsg, if_neg hne]
  by_cases hgap : q.maxsize < q.tail + o.length
  · have hstart : start q.maxsize q.tail o.length = 0 := if_pos hgap
    rw [if_pos hgap, next, hstart, Nat.zero_add, if_neg (by omega)]
  · have hstart : start q.maxsize q.tail o.length = q.tail := if_neg hgap
    rw [if_neg hgap, next, hstart]

theorem queueGet_eq {d : α} {rest : List (List α)} (h : Keeps q ([d] :: rest)) :
    queueGet q = (some d, { q with tail := next q.maxsize q.tail [d].length }) := by
  obtain ⟨hne, -, hread, -⟩ := h.reads
  have htail := h.tail
  have hstart : start q.maxsize q.tail 1 = q.tail := if_neg (by omega)
  rw [List.length_singleton, hstart] at hread
  have hdata : q.data q.tail = d := (List.cons.inj hread).1
  rw [queueGet, if_neg hne, List.length_singleton, next, hstart, hdata]

theorem queueGet_empty (h : Keeps q []) : queueGet q = (none, q) := if_pos h.reads

theorem queueRemoveMsg_empty (h : Keeps q []) (sz : Nat) : queueRemoveMsg q sz = (none, q) := if_pos h.reads

/-! ## Items of one size -/

/-- All items are of this size, and fill the queue without a gap. -/
structure Uniform (n : Nat) (q : Queue α) (unread : List (List α)) : Prop where
  pos : 0 < n
  maxsize : n ∣ q.maxsize
  head : n ∣ q.head
  tail : n ∣ q.tail
  length : ∀ m ∈ unread, m.length = n

/-- In a queue of whole items none begins so far behind that it does not fit. -/
theorem start_of_dvd (hmax : n ∣ maxsize) (hp : n ∣ p) (hlt : p < maxsize) : start maxsize p n = p := by
  obtain ⟨a, rfl⟩ := hmax
  obtain ⟨b, rfl⟩ := hp
  have hab : b < a := Nat.lt_of_mul_lt_mul_left hlt
  have hle : n * b + n ≤ n * a := by
    rw [← Nat.mul_succ]
    exact Nat.mul_le_mul_left n hab
  exact if_neg (by omega)

theorem dvd_next (hmax : n ∣ maxsize) (hp : n ∣ p) (hlt : p < maxsize) : n ∣ next maxsize p n := by
  rw [next, start_of_dvd hmax hp hlt]
  split
  · exact Nat.dvd_zero n
  · exact Nat.dvd_add hp (Nat.dvd_refl n)

/-- Whole items at different places are apart. -/
theorem apart_of_dvd (hp : n ∣ p) (hp' : n ∣ p') (hne : p ≠ p') : Apart p n p' n := by
  obtain ⟨a, rfl⟩ := hp
  obtain ⟨b, rfl⟩ := hp'
  rcases Nat.lt_or_gt_of_ne (fun h : a = b => hne (congrArg (n * ·) h)) with h | h
  · have := Nat.mul_le_mul_left n h
    rw [Nat.mul_succ] at this
    exact Or.inl this
  · have := Nat.mul_le_mul_left n h
    rw [Nat.mul_succ] at this
    exact Or.inr this

/-- No item is where the head is. -/
theorem places_of_dvd (hmax : n ∣ q.maxsize) (hhead : n ∣ q.head) (htail : n ∣ tail) (hlt : tail < q.maxsize)
    (hlen : ∀ m ∈ unread, m.length = n) (hreads : Reads q tail unread) :
    ∀ x ∈ places q.maxsize tail unread, Apart x.1 x.2 q.head n := by
  induction unread generalizing tail with
  | nil => nofun
  | cons o rest ih =>
    obtain ⟨hne, hin, -, hrest⟩ := hreads
    obtain rfl := hlen o List.mem_cons_self
    have hstart := start_of_dvd hmax htail hlt
    intro x hx
    rcases List.mem_cons.mp hx with rfl | hx
    · rw [hstart]
      exact apart_of_dvd htail hhead hne
    · exact ih (dvd_next hmax htail hlt) (next_lt hin (by omega)) (fun m hm => hlen m (List.mem_cons_of_mem _ hm)) hrest x hx

theorem Uniform.fits (hu : Uniform n q unread) (h : Keeps q unread) (hm : m.length = n) : Fits q unread m := by
  subst hm
  have hmaxsize := h.maxsize
  have hhead := h.head
  have htail := h.tail
  have hpos := hu.pos
  have hstart := start_of_dvd hu.maxsize hu.head hhead
  have hle : m.length ≤ q.maxsize := Nat.le_of_dvd (by omega) hu.maxsize
  have hbehind : ∀ p, m.length ∣ p → p < q.maxsize → p + m.length ≤ q.maxsize := by
    intro p hp hlt
    have hin := start_le (p := p) hle
    rwa [start_of_dvd hu.maxsize hp hlt] at hin
  have hhead' := hbehind q.head hu.head hhead
  have htail' := hbehind q.tail hu.tail htail
  refine ⟨List.ne_nil_of_length_pos hpos, by omega, by omega, hle, ?_, fun _ => ⟨fun oldest ho => ?_, htail'⟩⟩
  · rw [hstart]
    exact places_of_dvd hu.maxsize hu.head hu.tail htail hu.length h.reads
  · exact hu.length oldest (List.mem_of_mem_head? ho)

/-! ## Runs -/

/-- A queue of pointers has whole items. -/
theorem uniform_one (h : ∀ m ∈ unread, m.length = 1) : Uniform 1 q unread :=
  ⟨Nat.one_pos, Nat.one_dvd _, Nat.one_dvd _, Nat.one_dvd _, h⟩

/-- Every call that can be done right is. -/
theorem call_meets {op : Op α} (h : Keeps q unread) (hop : Holds q unread op) : ∃ q' unread', Meets q unread op q' unread' ∧ Keeps q' unread' := by
  cases op with
  | put d =>
    have hfits := (uniform_one hop).fits (m := [d]) h rfl
    obtain ⟨hkeeps, hqueued⟩ := keeps_put h hfits
    exact ⟨_, _, ⟨smiQueuePut_eq h d, hqueued⟩, hkeeps⟩
  | putMsg d valid =>
    obtain ⟨rfl, hfits⟩ := hop
    obtain ⟨hkeeps, hqueued⟩ := keeps_put h hfits
    exact ⟨_, _, ⟨smiQueuePutMsg_eq hfits, hqueued⟩, hkeeps⟩
  | get =>
    cases unread with
    | nil => exact ⟨q, [], ⟨queueGet_empty h, rfl, rfl⟩, h⟩
    | cons o rest =>
      obtain ⟨d, rfl⟩ := List.length_eq_one_iff.mp (hop o rfl)
      exact ⟨_, rest, ⟨⟨d, rfl, queueGet_eq h⟩, rfl⟩, h.next⟩
  | removeMsg sz =>
    cases unread with
    | nil => exact ⟨q, [], ⟨queueRemoveMsg_empty h sz, rfl, rfl⟩, h⟩
    | cons o rest =>
      obtain ⟨rfl, hlt⟩ := hop o rfl
      obtain ⟨p, hrun, hread⟩ := queueRemoveMsg_eq h hlt
      exact ⟨_, rest, ⟨⟨p, hrun, hread⟩, rfl⟩, h.next⟩

theorem Keeps.correct {ops : List (Op α)} (h : Keeps q unread) (hops : AllHold q unread ops) : Correct q unread ops := by
  induction ops generalizing q unread with
  | nil => exact h
  | cons op ops ih =>
    obtain ⟨q', unread', hmeets, hkeeps⟩ := call_meets h hops.1
    exact ⟨h, q', unread', hmeets, ih hkeeps (hops.2 q' unread' hmeets)⟩

/-- A message of this size, or the consumer of one. -/
def Whole (n maxsize : Nat) (op : Op α) : Prop :=
  match op with
  | .putMsg d valid => valid = true ∧ d.length = n
  | .removeMsg sz => sz = n ∧ sz < maxsize
  | _ => False

theorem Uniform.put (hu : Uniform n q unread) (h : Keeps q unread) (hm : m.length = n) : Uniform n (put q m) (kept q unread m) := by
  subst hm
  have hnext := dvd_next hu.maxsize hu.head h.head
  refine ⟨hu.pos, hu.maxsize, hnext, ?_, ?_⟩
  · show m.length ∣ if next q.maxsize q.head m.length = q.tail then (if q.maxsize ≤ q.tail + m.length then 0 else q.tail + m.length) else q.tail
    split
    · split
      · exact Nat.dvd_zero _
      · exact Nat.dvd_add hu.tail (Nat.dvd_refl _)
    · exact hu.tail
  · have hall : ∀ o ∈ unread ++ [m], o.length = m.length := by
      intro o ho
      rcases List.mem_append.mp ho with ho | ho
      · exact hu.length o ho
      · rw [List.mem_singleton.mp ho]
    intro o ho
    rw [kept] at ho
    split at ho
    · exact hall o (List.mem_of_mem_tail ho)
    · exact hall o ho

theorem Queued.eq_kept {q' : Queue α} {unread' : List (List α)} (h : Queued q unread m q' unread') : unread' = kept q unread m := by
  by_cases hfull : next q.maxsize q.head m.length = q.tail
  · rw [kept, if_pos hfull, h.1 hfull]
  · rw [kept, if_neg hfull, h.2.1 hfull]

/-- Messages of one size that fill the queue always fit. -/
theorem Uniform.allHold {ops : List (Op α)} (hu : Uniform n q unread) (h : Keeps q unread)
    (hops : ∀ op ∈ ops, Whole n q.maxsize op) : AllHold q unread ops := by
  induction ops generalizing q unread with
  | nil => trivial
  | cons op ops ih =>
    have hrest := fun op' hop' => hops op' (List.mem_cons_of_mem op hop')
    have hop := hops op List.mem_cons_self
    cases op with
    | put d => exact hop.elim
    | get => exact hop.elim
    | putMsg d valid =>
      obtain ⟨rfl, hlen⟩ := hop
      have hfits := hu.fits h hlen
      refine ⟨⟨rfl, hfits⟩, fun q' unread' hmeets => ?_⟩
      obtain ⟨hrun, hqueued⟩ := hmeets
      obtain rfl := Option.some.inj ((smiQueuePutMsg_eq hfits).symm.trans hrun)
      rw [hqueued.eq_kept]
      exact ih (hu.put h hlen) (keeps_put h hfits).1 hrest
    | removeMsg sz =>
      obtain ⟨rfl, hlt⟩ := hop
      refine ⟨fun o ho => ⟨hu.length o (List.mem_of_mem_head? ho), hlt⟩, fun q' unread' hmeets => ?_⟩
      cases unread with
      | nil =>
        obtain ⟨-, rfl, rfl⟩ := hmeets
        exact ih hu h hrest
      | cons o rest =>
        obtain ⟨⟨p, hrun, -⟩, rfl⟩ := hmeets
        obtain rfl := hu.length o List.mem_cons_self
        obtain ⟨_, hrun', -⟩ := queueRemoveMsg_eq h hlt
        obtain rfl := (Prod.mk.inj (hrun'.symm.trans hrun)).2
        have hnext := dvd_next hu.maxsize hu.tail h.tail
        exact ih ⟨hu.pos, hu.maxsize, hu.head, hnext, fun m hm => hu.length m (List.mem_cons_of_mem _ hm)⟩ h.next hrest

/-- An empty queue. -/
structure NoItems (q : Queue α) : Prop where
  maxsize : q.maxsize < 2 ^ 31
  head : q.head < q.maxsize
  tail : q.tail = q.head

theorem NoItems.keeps (h : NoItems q) : Keeps q [] := ⟨h.maxsize, h.head, h.tail ▸ h.head, nofun, h.tail⟩

/-- In every run whose messages go where nothing is to be read, and drop one of their own size if there is no room, all
items are read in their order, and only the oldest ones are dropped. Messages of one size that fill the queue
always do so. -/
theorem queue_drops_oldest (q : Queue α) (hq : NoItems q) (ops : List (Op α)) :
    (AllHold q [] ops → Correct q [] ops) ∧
      ∀ n, 0 < n → n ∣ q.maxsize → n ∣ q.head → (∀ op ∈ ops, Whole n q.maxsize op) → AllHold q [] ops := by
  refine ⟨hq.keeps.correct, fun n hn hmaxsize hhead => Uniform.allHold ?_ hq.keeps⟩
  exact ⟨hn, hmaxsize, hhead, hq.tail ▸ hhead, nofun⟩

/-- A queue of so many numbers, without items. -/
def emptyQueue (maxsize : Nat) : Queue Nat := { data := fun _ => 0, maxsize := maxsize, head := 0, tail := 0 }

/-- Three messages of which the queue holds two: the first one is dropped. -/
theorem queue_drops_oldest_fits : let ops : List (Op Nat) :=
      [.putMsg [1, 1] true, .putMsg [2, 2] true, .putMsg [3, 3] true, .removeMsg 2]
    (NoItems (emptyQueue 4) ∧ AllHold (emptyQueue 4) [] ops) ∧ Correct (emptyQueue 4) [] ops := by
  intro ops
  have hq : NoItems (emptyQueue 4) := ⟨by decide, by decide, rfl⟩
  have hwhole : ∀ op ∈ ops, Whole 2 4 op := by
    simp [ops, Whole]
  have hops := (queue_drops_oldest _ hq ops).2 2 (by decide) (by decide) (by decide) hwhole
  exact ⟨⟨hq, hops⟩, (queue_drops_oldest _ hq ops).1 hops⟩

/-- The third message does not fit behind the second one and overwrites the first one, but the tail stays. -/
theorem not_queue_drops_oldest :
    ¬ ∀ (q : Queue Nat) (ops : List (Op Nat)), NoItems q →
        (∀ op ∈ ops, ∃ d, op = .putMsg d true ∧ 0 < d.length ∧ d.length ≤ q.maxsize) → Correct q [] ops := by
  intro h
  have hops : ∀ op ∈ [Op.putMsg [1, 1, 1] true, .putMsg [2, 2, 2] true, .putMsg [3, 3, 3] true],
      ∃ d, op = .putMsg d true ∧ 0 < d.length ∧ d.length ≤ 8 := by
    intro op hop
    rcases List.mem_cons.mp hop with rfl | hop
    · exact ⟨_, rfl, by decide, by decide⟩
    · rcases List.mem_cons.mp hop with rfl | hop
      · exact ⟨_, rfl, by decide, by decide⟩
      · rw [List.mem_singleton.mp hop]
        exact ⟨_, rfl, by decide, by decide⟩
  obtain ⟨-, q1, u1, hfirst, -, q2, u2, hsecond, -, q3, u3, hthird, hkeeps⟩ := h (emptyQueue 8) _ ⟨by decide, by decide, rfl⟩ hops
  obtain ⟨hrun1, -, hu1, -⟩ := hfirst
  cases hrun1
  rw [hu1 (show ¬ next 8 0 3 = 0 by decide)] at hsecond
  obtain ⟨hrun2, -, hu2, -⟩ := hsecond
  cases hrun2
  rw [hu2 (show ¬ next 8 3 3 = 0 by decide)] at hthird
  obtain ⟨hrun3, -, hu3, -⟩ := hthird
  cases hrun3
  rw [hu3 (show ¬ next 8 6 3 = 0 by decide)] at hkeeps
  obtain ⟨-, -, hread, -⟩ := hkeeps.reads
  exact absurd hread (by decide)

end BayTrail.Usb
