import BayTrail.Lib.Fifo
import BayTrail.Lib.Run
import Mathlib.Data.UInt

/-!
# Key buffers

`KEY_BUFFER` with the functions of `UsbKbd.c` on it, and `GetKey` of `EfiUsbKb.c`. A key is
identified by the slot it is in: `Buffer` holds one pointer for each slot, and the pointers stay
where they are. `Queued b l` says that the keys `l` are in the buffer, the oldest one first.
-/

namespace BayTrail.Usb.Kbd

open BayTrail.Lib
open Lib.Run (returns_pure loop_done loop_again)

variable {α : Type}

/-- `MAX_KEY_ALLOWED`, the `MaxKey` of both buffers of a keyboard. -/
def maxKey : Nat := 32

structure KeyBuffer (α : Type) where
  buffer : Nat → α
  head : Nat
  tail : Nat

/-- `InitKeyBuffer`: every slot is zero. -/
def initKeyBuffer (zero : α) : KeyBuffer α := ⟨fun _ => zero, 0, 0⟩

def insertKey (b : KeyBuffer α) (key : α) : KeyBuffer α :=
  let head := (b.head + 1) % maxKey
  -- a full buffer drops its oldest key
  { buffer := write b.buffer b.head key, head := head, tail := if head = b.tail then (b.tail + 1) % maxKey else b.tail }

/-- One slot in `FindKey`. -/
def findRound [DecidableEq α] (b : KeyBuffer α) (key : α) (index : Nat) : Run (Next Nat (Option Nat)) :=
  if index = b.head then pure (.done none)
  else if b.buffer index = key then pure (.done (some index))
  else pure (.again ((index + 1) % maxKey))

def findKey [DecidableEq α] (b : KeyBuffer α) (key : α) : Run (Option Nat) := Run.loop (findRound b key) b.tail

/-- One slot in `GetNextKey`, with `KeyFound`. -/
def nextRound (b : KeyBuffer α) (key : Option Nat) (s : Nat × Bool) : Run (Next (Nat × Bool) (Option Nat)) :=
  if s.1 = b.head then
    -- a key that is not there any more is followed by the first one
    pure (.done (if s.2 = false ∧ b.tail ≠ b.head then some b.tail else none))
  else if key = none ∨ s.2 = true then pure (.done (some s.1))
  else pure (.again ((s.1 + 1) % maxKey, decide (key = some s.1)))

def getNextKey (b : KeyBuffer α) (key : Option Nat) : Run (Option Nat) := Run.loop (nextRound b key) (b.tail, false)

/-- One slot in the search of `RemoveKey`. -/
def slotRound (b : KeyBuffer α) (key : Nat) (index : Nat) : Run (Next Nat Nat) :=
  if index = b.head ∨ index = key then pure (.done index) else pure (.again ((index + 1) % maxKey))

/-- One slot takes the key of the slot before. -/
def shiftRound (tail : Nat) (s : Nat × (Nat → α)) : Run (Next (Nat × (Nat → α)) (Nat → α)) :=
  if s.1 = tail then pure (.done s.2)
  else
    let nextIndex := (s.1 + maxKey - 1) % maxKey
    pure (.again (nextIndex, write s.2 s.1 (s.2 nextIndex)))

def removeKey (b : KeyBuffer α) (key : Nat) : Run (KeyBuffer α) := do
  let index ← Run.loop (slotRound b key) b.tail
  if index = b.head then return b
  else do
    let buffer ← Run.loop (shiftRound b.tail) (index, b.buffer)
    return { b with buffer := buffer, tail := (b.tail + 1) % maxKey }

/-- `GetKey`, without the key that it copies. -/
def getKey (b : KeyBuffer α) : KeyBuffer α := if b.tail = b.head then b else { b with tail := (b.tail + 1) % maxKey }

/-- The keys in the buffer, the oldest one first. -/
def KeyBuffer.contents (b : KeyBuffer α) : List α := ring maxKey b.buffer b.tail ((b.head + maxKey - b.tail) % maxKey)

/-- The keys of a list that a buffer has room for. -/
def latest (l : List α) : List α := l.drop (l.length - (maxKey - 1))

structure Queued (b : KeyBuffer α) (l : List α) : Prop where
  tail : b.tail < maxKey
  head : b.head = (b.tail + l.length) % maxKey
  room : l.length < maxKey
  cells : ring maxKey b.buffer b.tail l.length = l

section

variable {b : KeyBuffer α} {l : List α} {key x : α} {i j : Nat}

theorem queued_init (zero : α) : Queued (initKeyBuffer zero) [] :=
  ⟨Nat.zero_lt_succ _, rfl, Nat.zero_lt_succ _, rfl⟩

theorem Queued.contents (h : Queued b l) : b.contents = l := by
  have htail := h.tail
  have hhead := h.head
  have hroom := h.room
  have hcount : (b.head + maxKey - b.tail) % maxKey = l.length := by
    simp only [maxKey] at *
    omega
  rw [KeyBuffer.contents, hcount, h.cells]

/-- The walk over the buffer ends behind the last key. -/
theorem Queued.index_eq_head (h : Queued b l) (hi : i ≤ l.length) : (b.tail + i) % maxKey = b.head ↔ i = l.length := by
  have hhead := h.head
  have hroom := h.room
  simp only [maxKey] at *
  omega

theorem Queued.at (h : Queued b l) (hi : i < l.length) : b.buffer ((b.tail + i) % maxKey) = l[i] := by
  have hcells := congrArg (·[i]?) h.cells
  simp only [ring, List.getElem?_map, List.getElem?_range hi, Option.map_some, List.getElem?_eq_getElem hi] at hcells
  exact Option.some.inj hcells

/-- A buffer is described by its slots. -/
theorem queued_of_at (htail : b.tail < maxKey) (hhead : b.head = (b.tail + l.length) % maxKey) (hroom : l.length < maxKey)
    (hat : ∀ i (h : i < l.length), b.buffer ((b.tail + i) % maxKey) = l[i]) : Queued b l := by
  refine ⟨htail, hhead, hroom, List.ext_getElem (by simp) fun i h1 h2 => ?_⟩
  rw [← hat i h2]
  simp [ring]

/-! ## The latest keys -/

theorem latest_of_lt (h : l.length < maxKey) : latest l = l := by
  have hzero : l.length - (maxKey - 1) = 0 := by
    simp only [maxKey] at *
    omega
  rw [latest, hzero, List.drop_zero]

theorem latest_append (l m : List α) : latest (latest l ++ m) = latest (l ++ m) := by
  have hsplit : latest l ++ m = (l ++ m).drop (l.length - (maxKey - 1)) :=
    (List.drop_append_of_le_length (Nat.sub_le ..)).symm
  rw [hsplit, latest, latest, List.drop_drop, List.length_drop, List.length_append]
  congr 1
  omega

theorem insertKey_queued (h : Queued b l) (key : α) : Queued (insertKey b key) (latest (l ++ [key])) := by
  have htail := h.tail
  have hroom := h.room
  have hcells : ring maxKey (write b.buffer b.head key) b.tail (l.length + 1) = l ++ [key] := by
    rw [h.head, ring_append hroom, h.cells]
  by_cases hfull : l.length + 1 = maxKey
  · have hhead : (b.head + 1) % maxKey = b.tail := by
      rw [h.head]
      simp only [maxKey] at *
      omega
    have hlatest : latest (l ++ [key]) = (l ++ [key]).tail := by
      rw [latest, List.length_append, List.length_singleton, hfull, show maxKey - (maxKey - 1) = 1 from rfl, List.drop_one]
    rw [ring_succ] at hcells
    rw [hlatest, insertKey, if_pos hhead, ← hcells, List.tail_cons]
    refine ⟨Nat.mod_lt _ (Nat.zero_lt_succ _), ?_, ?_, ?_⟩
    · rw [ring_length, h.head]
      simp only [maxKey] at *
      omega
    · rwa [ring_length]
    · rw [ring_length, ring_mod]
  · have hhead : (b.head + 1) % maxKey ≠ b.tail := by
      rw [h.head]
      simp only [maxKey] at *
      omega
    have hlen : (l ++ [key]).length < maxKey := by
      rw [List.length_append, List.length_singleton]
      omega
    rw [latest_of_lt hlen, insertKey, if_neg hhead]
    refine ⟨htail, ?_, hlen, ?_⟩
    · rw [List.length_append, List.length_singleton, h.head]
      simp only [maxKey] at *
      omega
    · rw [List.length_append, List.length_singleton]
      exact hcells

/-! ## Walks -/

/-- The key is found if it is in the buffer. -/
theorem findKey_returns [DecidableEq α] (h : Queued b l) (key : α) :
    ∃ r, (findKey b key).Returns r ∧ (r.isSome = true ↔ key ∈ l) := by
  have hloop : ∀ n i, i + n = l.length → ∃ r, (Run.loop (findRound b key) ((b.tail + i) % maxKey)).Returns r
      ∧ (r.isSome = true ↔ key ∈ l.drop i) := by
    intro n
    induction n with
    | zero =>
      intro i hi
      rw [Nat.add_zero] at hi
      refine ⟨none, loop_done ?_, ?_⟩
      · rw [findRound, if_pos ((h.index_eq_head hi.le).mpr hi)]
        exact returns_pure.mpr rfl
      · rw [List.drop_of_length_le hi.ge]
        simp
    | succ n ih =>
      intro i hi
      have hlt : i < l.length := by omega
      have hne : (b.tail + i) % maxKey ≠ b.head := fun he => hlt.ne ((h.index_eq_head hlt.le).mp he)
      rw [List.drop_eq_getElem_cons hlt, List.mem_cons]
      by_cases hkey : b.buffer ((b.tail + i) % maxKey) = key
      · refine ⟨some ((b.tail + i) % maxKey), loop_done ?_, ?_⟩
        · rw [findRound, if_neg hne, if_pos hkey]
          exact returns_pure.mpr rfl
        · rw [← h.at hlt, hkey]
          simp
      · obtain ⟨r, hr, hfound⟩ := ih (i + 1) (by omega)
        refine ⟨r, loop_again ?_ hr, ?_⟩
        · rw [findRound, if_neg hne, if_neg hkey, ← Nat.add_assoc, Nat.mod_add_mod]
          exact returns_pure.mpr rfl
        · rw [hfound, ← h.at hlt]
          exact ⟨Or.inr, fun hmem => hmem.resolve_left fun he => hkey he.symm⟩
  have := hloop l.length 0 (Nat.zero_add _)
  rwa [Nat.add_zero, Nat.mod_eq_of_lt h.tail] at this

/-- The slot in front of the `j`-th key. -/
def slotBefore (b : KeyBuffer α) (j : Nat) : Nat := (b.tail + j + maxKey - 1) % maxKey

theorem nextLoop_found (h : Queued b l) (hj : j ≤ l.length) :
    (Run.loop (nextRound b (some (slotBefore b j))) ((b.tail + j) % maxKey, true)).Returns
      (if j < l.length then some ((b.tail + j) % maxKey) else none) := by
  refine loop_done ?_
  by_cases hend : j = l.length
  · rw [nextRound, if_pos ((h.index_eq_head hj).mpr hend), if_neg (by simp), if_neg (by omega)]
    exact returns_pure.mpr rfl
  · rw [nextRound, if_neg fun he => hend ((h.index_eq_head hj).mp he), if_pos (Or.inr rfl), if_pos (by omega)]
    exact returns_pure.mpr rfl

theorem nextRound_again (h : Queued b l) (hi : i < l.length) (hj : j ≤ l.length) :
    (nextRound b (some (slotBefore b j)) ((b.tail + i) % maxKey, false)).Returns
      (.again ((b.tail + (i + 1)) % maxKey, decide (i + 1 = j))) := by
  have hne : (b.tail + i) % maxKey ≠ b.head := fun he => hi.ne ((h.index_eq_head hi.le).mp he)
  have hslot : slotBefore b j = (b.tail + i) % maxKey ↔ i + 1 = j := by
    have htail := h.tail
    have hroom := h.room
    simp only [slotBefore, maxKey] at *
    omega
  rw [nextRound, if_neg hne, if_neg (by simp), Nat.mod_add_mod, Nat.add_assoc]
  simp only [Option.some.injEq, hslot]
  exact returns_pure.mpr rfl

/-- The slot of the key is reached in front of the next one. -/
theorem nextLoop_search (h : Queued b l) (hj : j ≤ l.length) : ∀ n i, i + n + 1 = j →
    (Run.loop (nextRound b (some (slotBefore b j))) ((b.tail + i) % maxKey, false)).Returns
      (if j < l.length then some ((b.tail + j) % maxKey) else none) := by
  intro n
  induction n with
  | zero =>
    intro i hi
    rw [Nat.add_zero] at hi
    have hround := nextRound_again h (i := i) (by omega) hj
    rw [hi, decide_eq_true rfl] at hround
    exact loop_again hround (nextLoop_found h hj)
  | succ n ih =>
    intro i hi
    have hround := nextRound_again h (i := i) (by omega) hj
    rw [decide_eq_false (by omega)] at hround
    exact loop_again hround (ih (i + 1) (by omega))

/-- A slot in front of all keys is not reached. -/
theorem nextLoop_missed (h : Queued b l) (hpos : 0 < l.length) : ∀ n i, i + n = l.length →
    (Run.loop (nextRound b (some (slotBefore b 0))) ((b.tail + i) % maxKey, false)).Returns (some b.tail) := by
  intro n
  induction n with
  | zero =>
    intro i hi
    rw [Nat.add_zero] at hi
    have hempty : b.tail ≠ b.head := fun he => by
      have hzero := (h.index_eq_head (Nat.zero_le _)).mp ((Nat.mod_eq_of_lt h.tail).trans he)
      omega
    refine loop_done ?_
    rw [nextRound, if_pos ((h.index_eq_head hi.le).mpr hi), if_pos ⟨rfl, hempty⟩]
    exact returns_pure.mpr rfl
  | succ n ih =>
    intro i hi
    have hround := nextRound_again h (i := i) (j := 0) (by omega) (Nat.zero_le _)
    rw [decide_eq_false (by omega)] at hround
    exact loop_again hround (ih (i + 1) (by omega))

/-- The key behind the `j`-th one follows, also when that one has just been the first and is removed. -/
theorem getNextKey_returns (h : Queued b l) (hj : j ≤ l.length) {key : Option Nat}
    (hkey : key = some (slotBefore b j) ∨ (key = none ∧ j = 0)) :
    (getNextKey b key).Returns (if j < l.length then some ((b.tail + j) % maxKey) else none) := by
  have htail := h.tail
  have hroom := h.room
  have hzero : (b.tail + 0) % maxKey = b.tail := Nat.mod_eq_of_lt htail
  have hempty : b.tail = b.head ↔ 0 = l.length := by
    rw [← h.index_eq_head (Nat.zero_le _), hzero]
  rcases hkey with rfl | ⟨rfl, rfl⟩
  · have hstart : (b.tail, false) = ((b.tail + 0) % maxKey, false) := by rw [hzero]
    rw [getNextKey, hstart]
    rcases Nat.eq_zero_or_pos j with rfl | hpos
    · by_cases hnil : 0 < l.length
      · rw [if_pos hnil, hzero]
        have hmissed := nextLoop_missed h hnil l.length 0 (Nat.zero_add _)
        rwa [hzero] at hmissed
      · refine loop_done ?_
        rw [hzero, nextRound, if_pos (hempty.mpr (by omega)), if_neg (by simp [hempty.mpr (by omega)]), if_neg hnil]
        exact returns_pure.mpr rfl
    · exact nextLoop_search h hj (j - 1) 0 (by omega)
  · rw [getNextKey]
    refine loop_done ?_
    by_cases hnil : 0 = l.length
    · rw [nextRound, if_pos (hempty.mpr hnil), if_neg (by simp [hempty.mpr hnil]), if_neg (by omega)]
      exact returns_pure.mpr rfl
    · rw [nextRound, if_neg fun he => hnil (hempty.mp he), if_pos (Or.inl rfl), if_pos (by omega), hzero]
      exact returns_pure.mpr rfl

/-! ## Removing a key -/

theorem slotLoop_returns (h : Queued b l) (hj : j < l.length) : ∀ n i, i + n = j →
    (Run.loop (slotRound b ((b.tail + j) % maxKey)) ((b.tail + i) % maxKey)).Returns ((b.tail + j) % maxKey) := by
  intro n
  induction n with
  | zero =>
    intro i hi
    rw [Nat.add_zero] at hi
    refine loop_done ?_
    rw [slotRound, if_pos (Or.inr (by rw [hi])), hi]
    exact returns_pure.mpr rfl
  | succ n ih =>
    intro i hi
    have hhead : (b.tail + i) % maxKey ≠ b.head := fun he => by
      have := (h.index_eq_head (i := i) (by omega)).mp he
      omega
    have hslot : (b.tail + i) % maxKey ≠ (b.tail + j) % maxKey := fun he => by
      have hroom := h.room
      have := add_mod_inj (i := i) (by omega) (by omega) he
      omega
    refine loop_again ?_ (ih (i + 1) (by omega))
    rw [slotRound, if_neg (by simp [hhead, hslot]), Nat.mod_add_mod, Nat.add_assoc]
    exact returns_pure.mpr rfl

/-- The keys up to this place move on by one slot. -/
theorem shiftLoop_returns {tail : Nat} (htail : tail < maxKey) : ∀ i, i < maxKey → ∀ f : Nat → α, ∃ g,
    (Run.loop (shiftRound tail) ((tail + i) % maxKey, f)).Returns g ∧ ∀ k < maxKey,
      g ((tail + k) % maxKey) = if 1 ≤ k ∧ k ≤ i then f ((tail + (k - 1)) % maxKey) else f ((tail + k) % maxKey) := by
  intro i
  induction i with
  | zero =>
    intro _ f
    refine ⟨f, loop_done ?_, fun k _ => by rw [if_neg (by omega)]⟩
    rw [shiftRound, if_pos (by rw [Nat.add_zero, Nat.mod_eq_of_lt htail])]
    exact returns_pure.mpr rfl
  | succ i ih =>
    intro hi f
    have hne : (tail + (i + 1)) % maxKey ≠ tail := by
      simp only [maxKey] at *
      omega
    have hprev : ((tail + (i + 1)) % maxKey + maxKey - 1) % maxKey = (tail + i) % maxKey := by
      simp only [maxKey] at *
      omega
    obtain ⟨g, hg, hcells⟩ := ih (by omega) (write f ((tail + (i + 1)) % maxKey) (f ((tail + i) % maxKey)))
    refine ⟨g, loop_again ?_ hg, fun k hk => ?_⟩
    · rw [shiftRound, if_neg hne, hprev]
      exact returns_pure.mpr rfl
    · -- only the slot of this place has been written
      have hother : ∀ k < maxKey, k ≠ i + 1 → write f ((tail + (i + 1)) % maxKey) (f ((tail + i) % maxKey)) ((tail + k) % maxKey)
          = f ((tail + k) % maxKey) := fun k hk hki => write_of_ne fun he => hki (add_mod_inj hk hi he)
      rw [hcells k hk]
      by_cases hin : 1 ≤ k ∧ k ≤ i
      · rw [if_pos hin, if_pos (by omega), hother (k - 1) (by omega) (by omega)]
      · rw [if_neg hin]
        by_cases hki : k = i + 1
        · rw [hki, if_pos (by omega), write_self, Nat.add_sub_cancel]
        · rw [if_neg (by omega), hother k hk hki]

theorem removeKey_returns (h : Queued b l) (hj : j < l.length) :
    ∃ b', (removeKey b ((b.tail + j) % maxKey)).Returns b' ∧ Queued b' (l.eraseIdx j) ∧ b'.tail = (b.tail + 1) % maxKey := by
  have htail := h.tail
  have hhead := h.head
  have hroom := h.room
  have hne : (b.tail + j) % maxKey ≠ b.head := fun he => hj.ne ((h.index_eq_head hj.le).mp he)
  have hsearch := slotLoop_returns h hj j 0 (Nat.zero_add _)
  rw [Nat.add_zero, Nat.mod_eq_of_lt htail] at hsearch
  obtain ⟨g, hg, hcells⟩ := shiftLoop_returns htail j (by omega) b.buffer
  refine ⟨{ b with buffer := g, tail := (b.tail + 1) % maxKey }, ?_, queued_of_at ?_ ?_ ?_ fun i hi => ?_, rfl⟩
  · refine hsearch.bind ?_
    rw [if_neg hne]
    exact hg.bind (returns_pure.mpr rfl)
  · exact Nat.mod_lt _ (Nat.zero_lt_succ _)
  · rw [List.length_eraseIdx_of_lt hj, hhead]
    simp only [maxKey] at *
    omega
  · rw [List.length_eraseIdx_of_lt hj]
    omega
  · rw [List.length_eraseIdx_of_lt hj] at hi
    show g (((b.tail + 1) % maxKey + i) % maxKey) = _
    rw [Nat.mod_add_mod, show b.tail + 1 + i = b.tail + (i + 1) by omega, hcells (i + 1) (by omega), List.getElem_eraseIdx,
      Nat.add_sub_cancel]
    by_cases hij : i < j
    · rw [if_pos (by omega), dif_pos hij, h.at (by omega)]
    · rw [if_neg (by omega), dif_neg hij, h.at (by omega)]

theorem getKey_queued (h : Queued b l) : Queued (getKey b) l.tail := by
  have htail := h.tail
  have hempty := h.index_eq_head (Nat.zero_le _)
  rw [Nat.add_zero, Nat.mod_eq_of_lt htail] at hempty
  cases l with
  | nil => rwa [getKey, if_pos (hempty.mpr rfl)]
  | cons x l =>
    have hhead := h.head
    have hroom := h.room
    have hcells := h.cells
    rw [List.length_cons] at hhead hroom
    rw [List.length_cons, ring_succ, List.cons.injEq] at hcells
    rw [getKey, if_neg fun he => absurd (hempty.mp he) (by simp), List.tail_cons]
    refine ⟨Nat.mod_lt _ (Nat.zero_lt_succ _), ?_, by omega, ?_⟩
    · rw [hhead]
      simp only [maxKey] at *
      omega
    · rw [ring_mod]
      exact hcells.2

end

end BayTrail.Usb.Kbd
