import BayTrail.Bds.Valid
import BayTrail.DevicePath.Protect

/-!
# CreateBootOptionsFromNvramOption

It returns exactly if the option and the options nested in it fit into what is there for them.
-/

namespace BayTrail.Bds

open BayTrail.Lib BayTrail.DevicePath
open Lib.Run (returns_pure returns_bind)

/-! ## What fits -/

/-- A 32-bit number at this position. -/
def HasDword (m : Buffer) (p x : Nat) : Prop := ∃ lo hi, HasWord m p lo ∧ HasWord m (p + 2) hi ∧ lo + hi * 65536 = x

/-- No nested option begins here, or its size is larger than what is left. -/
def NestedStop (m : Buffer) (o e : Nat) : Prop :=
  e - o ≤ nestedHeaderSize ∨ (∃ signature, HasDword m o signature ∧ signature ≠ AMI_NESTED_BOOT_OPTION_SIGNATURE)
    ∨ HasDword m o AMI_NESTED_BOOT_OPTION_SIGNATURE ∧ ∃ size, HasDword m (o + 4) size ∧ e - o < size

/-- An option, or the list of options nested in one. -/
inductive Part where
  | option
  | nested

/-- From the first position to the second one: the description of the option has its terminator and the file
path list is not longer than the option, and if it is a group then so it is with each nested option. -/
inductive Fits (m : Buffer) : Part → Nat → Nat → Prop
  | plain {p e c f : Nat} : Terminated m c (p + loadOptionSize) → HasWord m (p + 4) f → c + 2 + f ≤ e →
      ¬ (c + 2 + f + 4 ≤ e ∧ HasDword m (c + 2 + f) AMI_GROUP_BOOT_OPTION_SIGNATURE) → Fits m .option p e
  | group {p e c f : Nat} : Terminated m c (p + loadOptionSize) → HasWord m (p + 4) f → c + 2 + f + 4 ≤ e →
      HasDword m (c + 2 + f) AMI_GROUP_BOOT_OPTION_SIGNATURE → Fits m .nested (c + 2 + f + 4) e → Fits m .option p e
  | stop {o e : Nat} : NestedStop m o e → Fits m .nested o e
  | next {o e size : Nat} : nestedHeaderSize < e - o → HasDword m o AMI_NESTED_BOOT_OPTION_SIGNATURE →
      HasDword m (o + 4) size → size ≤ e - o → Fits m .option (o + nestedHeaderSize) (o + size) →
      Fits m .nested (o + size) e → Fits m .nested o e

/-! ## Numbers -/

section numbers

variable {m : Buffer} {p x y e size : Nat}

theorem returns_read32 : (read32 m p).Returns x ↔ HasDword m p x := by
  simp only [read32, returns_bind, returns_pure, returns_read16, HasDword]
  grind

theorem HasDword.unique (h : HasDword m p x) (h' : HasDword m p y) : x = y :=
  Option.some.inj ((returns_read32.mpr h).unique (returns_read32.mpr h'))

theorem HasDword.le (h : HasDword m p x) : p + 4 ≤ m.bytes.length := by
  obtain ⟨-, hi, -, hhi, -⟩ := h
  exact hhi.le

theorem exists_hasDword (h : p + 4 ≤ m.bytes.length) : ∃ x, HasDword m p x := by
  obtain ⟨lo, hlo⟩ := exists_hasWord (m := m) (p := p) (by omega)
  obtain ⟨hi, hhi⟩ := exists_hasWord (m := m) (p := p + 2) (by omega)
  exact ⟨_, lo, hi, hlo, hhi, rfl⟩

theorem HasDword.lt (h : HasDword m p x) : x < 2 ^ 32 := by
  obtain ⟨lo, hi, hlo, hhi, rfl⟩ := h
  have := hlo.lt
  have := hhi.lt
  omega

/-- The option of this size ends here: with a size that has wrapped as well. -/
def EndsAt (p size e : Nat) : Prop := ((p : Int) + size) % 2 ^ 64 = e

theorem EndsAt.left (h : EndsAt p size e) (hx : x ≤ e) : toUintn ((p : Int) + size - x) = e - x := by
  rw [EndsAt] at h
  rw [toUintn]
  omega

/-- The difference is negative, and wraps. -/
theorem EndsAt.wraps (h : EndsAt p size e) (hx : e < x) (hlt : x < 2 ^ 64) : toUintn ((p : Int) + size - x) = e + 2 ^ 64 - x := by
  rw [EndsAt] at h
  rw [toUintn]
  omega

theorem endsAt_nested (o size : Nat) (h : o + size < 2 ^ 64) :
    EndsAt (o + nestedHeaderSize) (toUintn ((size : Int) - nestedHeaderSize)) (o + size) := by
  rw [EndsAt, toUintn]
  omega

end numbers

/-! ## The description -/

section wcslen

variable {m : Buffer} {p c k length : Nat}

theorem Terminated.wcslen (h : Terminated m c p) : ∃ length, (wcslen m p).Returns length ∧ c = p + 2 * length := by
  have hloop : ∀ q, Terminated m c q → ∀ k, q = p + 2 * k →
      ∃ length, (Run.loop (wcslenRound m p) k).Returns length ∧ c = p + 2 * length := by
    intro q h
    induction h with
    | stop hx =>
      intro k hk
      refine ⟨k, Run.loop_done (Run.Returns.bind (returns_read16.mpr (hk ▸ hx)) ?_), hk⟩
      rw [if_neg (not_not.mpr rfl)]
      exact returns_pure.mpr rfl
    | @char q x hx hne _ ih =>
      intro k hk
      obtain ⟨length, hrun, hc⟩ := ih (k + 1) (by omega)
      refine ⟨length, Run.loop_again (Run.Returns.bind (returns_read16.mpr (hk ▸ hx)) ?_) hrun, hc⟩
      rw [if_pos hne]
      exact returns_pure.mpr rfl
  exact hloop p h 0 rfl

theorem wcslen_terminated (h : (wcslen m p).Returns length) : Terminated m (p + 2 * length) p := by
  refine Run.loop_induction (P := fun k length => Terminated m (p + 2 * length) (p + 2 * k)) ?_ ?_ h
  · intro k length hround
    rw [wcslenRound, returns_bind] at hround
    obtain ⟨x, hx, hround⟩ := hround
    by_cases hzero : x ≠ 0
    · rw [if_pos hzero] at hround
      cases returns_pure.mp hround
    · rw [if_neg hzero] at hround
      cases returns_pure.mp hround
      obtain rfl := not_not.mp hzero
      exact .stop (returns_read16.mp hx)
  · intro k k' length hround ih
    rw [wcslenRound, returns_bind] at hround
    obtain ⟨x, hx, hround⟩ := hround
    by_cases hzero : x ≠ 0
    · rw [if_pos hzero] at hround
      cases returns_pure.mp hround
      exact .char (returns_read16.mp hx) hzero ih
    · rw [if_neg hzero] at hround
      cases returns_pure.mp hround

end wcslen

/-! ## It returns if all fits -/

section returns

variable {m : Buffer} {number : UInt16} {p e : Nat}
variable {s : Nested} {created : Created} {create : NvramOption → Run Created}

theorem copyOptionalData_returns (option : BootOption) (h : s.optionalData + s.optionalDataSize ≤ m.bytes.length) :
    ∃ created, (copyOptionalData m option s).Returns created :=
  ⟨_, (bytes_of_le h).bind (returns_pure.mpr rfl)⟩

/-- Only a copy of nothing does not need the memory. -/
theorem copyOptionalData_le {option : BootOption} (h : (copyOptionalData m option s).Returns created)
    (hs : s.optionalDataSize ≠ 0) : s.optionalData + s.optionalDataSize ≤ m.bytes.length := by
  rw [copyOptionalData, returns_bind] at h
  obtain ⟨data, hdata, -⟩ := h
  exact bytes_le hdata hs

/-- The fields in front of the optional data can be read exactly if the description has its terminator and the
list is there. -/
theorem readFront_returns {priority : UInt32} {front : Front} (h : (readFront m number p priority).Returns front) :
    ∃ c f, Terminated m c (p + loadOptionSize) ∧ HasWord m (p + 4) f ∧ front.optionalData = c + 2 + f := by
  simp only [readFront, returns_bind, returns_pure] at h
  obtain ⟨-, -, length, hlength, -, -, f, hf, -, -, rfl⟩ := h
  refine ⟨_, f, wcslen_terminated hlength, returns_read16.mp hf, ?_⟩
  show p + loadOptionSize + (length + 1) * 2 + f = p + loadOptionSize + 2 * length + 2 + f
  omega

variable (number) in
theorem exists_readFront {c f : Nat} (hterm : Terminated m c (p + loadOptionSize)) (hf : HasWord m (p + 4) f)
    (hle : c + 2 + f ≤ m.bytes.length) (priority : UInt32) :
    ∃ front, (readFront m number p priority).Returns front ∧ front.optionalData = c + 2 + f := by
  obtain ⟨length, hlength, rfl⟩ := hterm.wcslen
  simp only [loadOptionSize] at hle
  obtain ⟨a, ha⟩ := exists_hasDword (m := m) (p := p) (by omega)
  have hdescription := bytes_of_le (m := m) (p := p + loadOptionSize) (n := (length + 1) * 2) (by simp only [loadOptionSize]; omega)
  have hpaths := bytes_of_le (m := m) (p := p + loadOptionSize + (length + 1) * 2) (n := f) (by simp only [loadOptionSize]; omega)
  refine ⟨_, (returns_read32.mpr ha).bind (hlength.bind (hdescription.bind ((returns_read16.mpr hf).bind (hpaths.bind
    (returns_pure.mpr rfl))))), ?_⟩
  show p + loadOptionSize + (length + 1) * 2 + f = _
  omega

theorem nestedRound_stop (h : NestedStop m s.optionalData e)
    (hs : s.optionalData + s.optionalDataSize = e) : (nestedRound m create s).Returns (.done s) := by
  rw [nestedRound]
  by_cases hheader : nestedHeaderSize < s.optionalDataSize
  · rw [if_pos hheader]
    rcases h with h | ⟨signature, hsig, hne⟩ | ⟨hsig, size, hsize, hlt⟩
    · omega
    · refine (returns_read32.mpr hsig).bind ?_
      rw [if_pos hne]
      exact returns_pure.mpr rfl
    · refine (returns_read32.mpr hsig).bind ?_
      rw [if_neg (not_not.mpr rfl)]
      refine (returns_read32.mpr hsize).bind ?_
      rw [if_pos (by omega)]
      exact returns_pure.mpr rfl
  · rw [if_neg hheader]
    exact returns_pure.mpr rfl

theorem nestedRound_next {size : Nat}
    (hheader : nestedHeaderSize < s.optionalDataSize) (hsig : HasDword m s.optionalData AMI_NESTED_BOOT_OPTION_SIGNATURE)
    (hsize : HasDword m (s.optionalData + 4) size) (hle : size ≤ s.optionalDataSize)
    (hcreate : (create ⟨s.optionalData + nestedHeaderSize, toUintn ((size : Int) - nestedHeaderSize), s.created.priority⟩).Returns
      created) :
    (nestedRound m create s).Returns
      (.again ⟨s.optionalData + size, s.optionalDataSize - size, s.created.options ++ created.options, created.priority⟩) := by
  rw [nestedRound, if_pos hheader]
  refine (returns_read32.mpr hsig).bind ?_
  rw [if_neg (not_not.mpr rfl)]
  refine (returns_read32.mpr hsize).bind ?_
  rw [if_neg (Nat.not_lt.mpr hle)]
  exact hcreate.bind (returns_pure.mpr rfl)

/-- What a round of the loop has found. -/
theorem nestedRound_returns {next : Next Nested Nested}
    (h : (nestedRound m create s).Returns next) :
    (NestedStop m s.optionalData (s.optionalData + s.optionalDataSize) ∧ next = .done s)
    ∨ ∃ size created, nestedHeaderSize < s.optionalDataSize ∧ HasDword m s.optionalData AMI_NESTED_BOOT_OPTION_SIGNATURE
      ∧ HasDword m (s.optionalData + 4) size ∧ size ≤ s.optionalDataSize
      ∧ (create ⟨s.optionalData + nestedHeaderSize, toUintn ((size : Int) - nestedHeaderSize), s.created.priority⟩).Returns created
      ∧ next = .again ⟨s.optionalData + size, s.optionalDataSize - size, s.created.options ++ created.options, created.priority⟩ := by
  rw [nestedRound] at h
  by_cases hheader : nestedHeaderSize < s.optionalDataSize
  · rw [if_pos hheader, returns_bind] at h
    obtain ⟨signature, hsig, h⟩ := h
    have hsig := returns_read32.mp hsig
    by_cases hne : signature ≠ AMI_NESTED_BOOT_OPTION_SIGNATURE
    · rw [if_pos hne, returns_pure] at h
      exact Or.inl ⟨Or.inr (Or.inl ⟨signature, hsig, hne⟩), h.symm⟩
    · obtain rfl := not_not.mp hne
      rw [if_neg hne, returns_bind] at h
      obtain ⟨size, hsize, h⟩ := h
      have hsize := returns_read32.mp hsize
      by_cases hlt : s.optionalDataSize < size
      · rw [if_pos hlt, returns_pure] at h
        exact Or.inl ⟨Or.inr (Or.inr ⟨hsig, size, hsize, by omega⟩), h.symm⟩
      · rw [if_neg hlt, returns_bind] at h
        obtain ⟨created, hcreate, h⟩ := h
        exact Or.inr ⟨size, created, hheader, hsig, hsize, Nat.not_lt.mp hlt, hcreate, (returns_pure.mp h).symm⟩
  · rw [if_neg hheader, returns_pure] at h
    exact Or.inl ⟨Or.inl (by omega), h.symm⟩

/-- So many calls in each other are enough: for an option, or for what is nested in one. -/
def Enough (m : Buffer) (number : UInt16) (n : Nat) (p e : Nat) : Part → Prop
  | .option => ∀ size priority, EndsAt p size e →
      ∃ created, (Run.depth (createBody m number) n ⟨p, size, priority⟩).Returns created
  | .nested => p ≤ e → ∀ created, ∃ s, (Run.loop (nestedRound m (Run.depth (createBody m number) n)) ⟨p, e - p, created⟩).Returns s
      ∧ s.optionalData + s.optionalDataSize = e

theorem readOptionalData_plain (create : NvramOption → Run Created) (option : BootOption)
    (hle : s.optionalData + s.optionalDataSize ≤ m.bytes.length)
    (hplain : ¬ (4 ≤ s.optionalDataSize ∧ HasDword m s.optionalData AMI_GROUP_BOOT_OPTION_SIGNATURE)) :
    ∃ created, (readOptionalData m create option s).Returns created := by
  rw [readOptionalData]
  by_cases hfour : 4 ≤ s.optionalDataSize
  · obtain ⟨signature, hsig⟩ := exists_hasDword (m := m) (p := s.optionalData) (by omega)
    rw [if_pos hfour]
    by_cases hsimple : signature = AMI_SIMPLE_BOOT_OPTION_SIGNATURE
    · obtain ⟨created, hcreated⟩ := copyOptionalData_returns (m := m) { option with fwBootOption := true } (s := s.skip)
        (by simp only [Nested.skip]; omega)
      refine ⟨created, (returns_read32.mpr hsig).bind ?_⟩
      rwa [if_pos hsimple]
    · obtain ⟨created, hcreated⟩ := copyOptionalData_returns option hle
      refine ⟨created, (returns_read32.mpr hsig).bind ?_⟩
      rwa [if_neg hsimple, if_neg]
      rintro rfl
      exact hplain ⟨hfour, hsig⟩
  · rw [if_neg hfour]
    exact copyOptionalData_returns option hle

variable (number) in
theorem Fits.enough {part : Part} (h : Fits m part p e) (he : e ≤ m.bytes.length) (hlt : m.bytes.length < 2 ^ 62) :
    ∃ N, ∀ n, N ≤ n → Enough m number n p e part := by
  induction h with
  | @plain p e c f hterm hf hle hplain =>
    refine ⟨1, fun n hn => ?_⟩
    obtain ⟨n, rfl⟩ : ∃ k, n = k + 1 := ⟨n - 1, by omega⟩
    intro size priority hsize
    obtain ⟨front, hfront, hdata⟩ := exists_readFront number hterm hf (by omega) priority
    have hleft := hsize.left (x := front.optionalData) (by omega)
    obtain ⟨created, hcreated⟩ := readOptionalData_plain (m := m) (Run.depth (createBody m number) n) front.option
      (s := ⟨front.optionalData, e - front.optionalData, ⟨[], getNextBootOptionPriority priority⟩⟩) (by simp only; omega)
      (fun h => hplain ⟨by simp only at h; omega, hdata ▸ h.2⟩)
    refine ⟨created, hfront.bind ?_⟩
    simpa only [hleft] using hcreated
  | @group p e c f hterm hf hle hsig _ ih =>
    obtain ⟨N, hN⟩ := ih he
    refine ⟨N + 1, fun n hn => ?_⟩
    obtain ⟨n, rfl⟩ : ∃ k, n = k + 1 := ⟨n - 1, by omega⟩
    intro size priority hsize
    obtain ⟨front, hfront, hdata⟩ := exists_readFront number hterm hf (by omega) priority
    have hleft := hsize.left (x := front.optionalData) (by omega)
    obtain ⟨s, hloop, hs⟩ := hN n (by omega) (by omega) ⟨[], getNextBootOptionPriority priority⟩
    obtain ⟨created, hcreated⟩ := copyOptionalData_returns (m := m)
      { front.option with fwBootOption := true, groupHeader := true } (s := s) (by omega)
    refine ⟨created, hfront.bind ?_⟩
    simp only [hleft]
    rw [readOptionalData, if_pos (by simp only; omega)]
    refine (returns_read32.mpr (hdata ▸ hsig)).bind ?_
    rw [if_neg (by decide), if_pos rfl]
    refine Run.Returns.bind ?_ hcreated
    rw [Nested.skip, hdata]
    rwa [Nat.sub_sub]
  | @stop o e hstop =>
    refine ⟨0, fun n _ hle created => ⟨_, Run.loop_done (nestedRound_stop hstop (by simp only; omega)), by simp only; omega⟩⟩
  | @next o e size hheader hsig hsize hle _ _ ih ih' =>
    obtain ⟨N, hN⟩ := ih (by omega)
    obtain ⟨N', hN'⟩ := ih' he
    refine ⟨max N N', fun n hn hoe created => ?_⟩
    have hlt' := hsize.lt
    obtain ⟨first, hfirst⟩ := hN n (by omega) (toUintn ((size : Int) - nestedHeaderSize)) created.priority
      (endsAt_nested o size (by omega))
    obtain ⟨s, hloop, hs⟩ := hN' n (by omega) (by omega) ⟨created.options ++ first.options, first.priority⟩
    refine ⟨s, Run.loop_again (nestedRound_next hheader hsig hsize hle hfirst) ?_, hs⟩
    rwa [Nat.sub_sub]

end returns

/-! ## All fits if it returns -/

section fits

variable {m : Buffer} {number : UInt16} {p e : Nat}
variable {create : NvramOption → Run Created} {s r : Nested} {created : Created}

/-- The loop takes from what is left what it goes forward, and stays near the memory. -/
theorem nestedLoop_total (h : (Run.loop (nestedRound m create) s).Returns r) :
    r.optionalData + r.optionalDataSize = s.optionalData + s.optionalDataSize
      ∧ (r.optionalData = s.optionalData ∨ r.optionalData < m.bytes.length + 2 ^ 32) := by
  refine Run.loop_induction (P := fun s r => r.optionalData + r.optionalDataSize = s.optionalData + s.optionalDataSize
    ∧ (r.optionalData = s.optionalData ∨ r.optionalData < m.bytes.length + 2 ^ 32)) ?_ ?_ h
  · intro s r hround
    rcases nestedRound_returns hround with ⟨-, hdone⟩ | ⟨size, created, -, -, -, -, -, hagain⟩
    · cases hdone
      exact ⟨rfl, Or.inl rfl⟩
    · cases hagain
  · intro s s' r hround ih
    rcases nestedRound_returns hround with ⟨-, hdone⟩ | ⟨size, created, -, hsig, hsize, hle, -, hagain⟩
    · cases hdone
    · cases hagain
      have hin := hsig.le
      have hlt := hsize.lt
      simp only at ih
      omega

/-- The nested options fit if those that are created for them do. -/
theorem nestedLoop_fits
    (h : (Run.loop (nestedRound m create) s).Returns r) (he : s.optionalData + s.optionalDataSize ≤ m.bytes.length)
    (hlt : m.bytes.length < 2 ^ 62)
    (hcreate : ∀ p size priority created e, e ≤ m.bytes.length → EndsAt p size e →
      (create ⟨p, size, priority⟩).Returns created → Fits m .option p e) :
    Fits m .nested s.optionalData (s.optionalData + s.optionalDataSize) := by
  refine Run.loop_induction (P := fun s _ => s.optionalData + s.optionalDataSize ≤ m.bytes.length →
    Fits m .nested s.optionalData (s.optionalData + s.optionalDataSize)) ?_ ?_ h he
  · intro s r hround _
    rcases nestedRound_returns hround with ⟨hstop, -⟩ | ⟨size, created, -, -, -, -, -, hagain⟩
    · exact .stop hstop
    · cases hagain
  · intro s s' r hround ih he
    rcases nestedRound_returns hround with ⟨-, hdone⟩ | ⟨size, created, hheader, hsig, hsize, hle, hrun, hagain⟩
    · cases hdone
    · cases hagain
      have hoption := hcreate _ _ _ _ (s.optionalData + size) (by omega) (endsAt_nested _ size (by omega)) hrun
      have hrest := ih (by simp only; omega)
      simp only at hrest
      rw [show s.optionalData + size + (s.optionalDataSize - size) = s.optionalData + s.optionalDataSize by omega] at hrest
      exact .next (by omega) hsig hsize (by omega) hoption hrest

theorem Terminated.le_length {c : Nat} (h : Terminated m c p) : c + 2 ≤ m.bytes.length := by
  induction h with
  | stop hx => exact hx.le
  | char _ _ _ ih => exact ih

/-- With a size that has wrapped, more than there is would be copied at last. -/
theorem readOptionalData_not_returns {option : BootOption}
    (hs : s.optionalData < m.bytes.length + 2 ^ 32) (hbig : m.bytes.length + 2 ^ 33 < s.optionalDataSize) :
    ¬ (readOptionalData m create option s).Returns created := by
  have hcopy {option : BootOption} {t : Nested} (ht : s.optionalDataSize ≤ t.optionalDataSize + 2 ^ 32 + 4) :
      ¬ (copyOptionalData m option t).Returns created := fun h => by
    have := copyOptionalData_le h (by omega)
    omega
  intro h
  rw [readOptionalData, if_pos (by omega), returns_bind] at h
  obtain ⟨signature, -, h⟩ := h
  by_cases hsimple : signature = AMI_SIMPLE_BOOT_OPTION_SIGNATURE
  · rw [if_pos hsimple] at h
    exact hcopy (by simp only [Nested.skip]; omega) h
  · rw [if_neg hsimple] at h
    by_cases hgroup : signature = AMI_GROUP_BOOT_OPTION_SIGNATURE
    · rw [if_pos hgroup, returns_bind] at h
      obtain ⟨nested, hloop, h⟩ := h
      obtain ⟨htotal, hnear⟩ := nestedLoop_total hloop
      simp only [Nested.skip] at htotal hnear
      have := copyOptionalData_le h (by omega)
      omega
    · rw [if_neg hgroup] at h
      exact hcopy (by omega) h

theorem depth_fits {n size : Nat} {priority : UInt32} (he : e ≤ m.bytes.length) (hlt : m.bytes.length < 2 ^ 62)
    (hsize : EndsAt p size e) (h : (Run.depth (createBody m number) n ⟨p, size, priority⟩).Returns created) :
    Fits m .option p e := by
  induction n generalizing p e size priority created with
  | zero =>
    obtain ⟨fuel, h⟩ := h
    cases h
  | succ n ih =>
    have h : (createBody m number (Run.depth (createBody m number) n) ⟨p, size, priority⟩).Returns created := h
    rw [createBody, returns_bind] at h
    obtain ⟨front, hfront, h⟩ := h
    obtain ⟨c, f, hterm, hf, hdata⟩ := readFront_returns hfront
    have hc := hterm.le_length
    have hfLt := hf.lt
    by_cases hle : front.optionalData ≤ e
    · rw [hsize.left hle] at h
      by_cases hgroup : 4 ≤ e - front.optionalData ∧ HasDword m front.optionalData AMI_GROUP_BOOT_OPTION_SIGNATURE
      · obtain ⟨hfour, hsig⟩ := hgroup
        rw [readOptionalData, if_pos hfour, returns_bind] at h
        obtain ⟨signature, hsig', h⟩ := h
        cases (returns_read32.mp hsig').unique hsig
        rw [if_neg (by decide), if_pos rfl, returns_bind] at h
        obtain ⟨nested, hloop, -⟩ := h
        have hnested := nestedLoop_fits hloop (by simp only [Nested.skip]; omega) hlt
          fun p size priority created e he hsize hrun => ih he hsize hrun
        simp only [Nested.skip] at hnested
        rw [show front.optionalData + 4 + (e - front.optionalData - 4) = e by omega, hdata] at hnested
        exact .group hterm hf (by omega) (hdata ▸ hsig) hnested
      · exact .plain hterm hf (by omega) fun h => hgroup ⟨by omega, hdata ▸ h.2⟩
    · rw [hsize.wraps (x := front.optionalData) (by omega) (by omega)] at h
      exact absurd h (readOptionalData_not_returns (by simp only; omega) (by simp only; omega))

variable (number) in
/-- An option of this size is created exactly if all fits. -/
theorem createBootOptionsFromNvramOption_returns (he : e ≤ m.bytes.length) (hlt : m.bytes.length < 2 ^ 62) {size : Nat}
    (hsize : EndsAt p size e) (priority : UInt32) :
    (∃ created, (createBootOptionsFromNvramOption m number ⟨p, size, priority⟩).Returns created) ↔ Fits m .option p e := by
  constructor
  · rintro ⟨created, h⟩
    obtain ⟨n, hn⟩ := (Run.yields_recurse (createBody_monotone m number)).mp h
    exact depth_fits he hlt hsize hn
  · intro h
    obtain ⟨N, hN⟩ := h.enough number he hlt
    obtain ⟨created, hcreated⟩ := hN N (Nat.le_refl _) size priority hsize
    exact ⟨created, (Run.yields_recurse (createBody_monotone m number)).mpr ⟨N, hcreated⟩⟩

end fits

end BayTrail.Bds
