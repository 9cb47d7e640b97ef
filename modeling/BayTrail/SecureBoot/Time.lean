import BayTrail.Lib.Bytes

/-!
# Calendar time

`EFI_TIME` and `os_mktime` of `TimeWrapper.c`, whose result is a `long` of 32 bits.
-/

namespace BayTrail.SecureBoot

open BayTrail.Lib

/-- The fields of `EFI_TIME` that are looked at. -/
structure EfiTime where
  year : Nat
  month : Nat
  day : Nat
  hour : Nat
  minute : Nat
  second : Nat
  deriving DecidableEq

/-- `EFI_TIME` at the start of the bytes. -/
def efiTime (bs : Bytes) : EfiTime where
  year := leVal (bs.take 2)
  month := leVal ((bs.drop 2).take 1)
  day := leVal ((bs.drop 3).take 1)
  hour := leVal ((bs.drop 4).take 1)
  minute := leVal ((bs.drop 5).take 1)
  second := leVal ((bs.drop 6).take 1)

def isLeap (y : Nat) : Bool := y % 4 = 0 && (y % 100 ≠ 0 || y % 400 = 0)

/-- `CumulativeDays`. -/
def cumulativeDays (leap : Bool) (i : Nat) : Nat :=
  if leap then [0, 0, 31, 60, 91, 121, 152, 182, 213, 244, 274, 305, 335, 366].getD i 0
  else [0, 0, 31, 59, 90, 120, 151, 181, 212, 243, 273, 304, 334, 365].getD i 0

def secsPerHour : Nat := 60 * 60
def secsPerDay : Nat := 24 * secsPerHour

/-- The seconds of `n` years from 1970 on. -/
def yearsSeconds : Nat → Nat
  | 0 => 0
  | n + 1 => yearsSeconds n + cumulativeDays (isLeap (1970 + n)) 13 * secsPerDay

/-- The fields that `os_mktime` accepts. -/
def EfiTime.valid (t : EfiTime) : Bool :=
  1970 ≤ t.year && 1 ≤ t.month && t.month ≤ 12 && 1 ≤ t.day && t.day ≤ 31
  && t.hour ≤ 23 && t.minute ≤ 59 && t.second ≤ 60

/-- Seconds since 1970. -/
def EfiTime.seconds (t : EfiTime) : Nat :=
  yearsSeconds (t.year - 1970) + cumulativeDays (isLeap t.year) t.month * secsPerDay
    + (t.day - 1) * secsPerDay + t.hour * secsPerHour + t.minute * 60 + t.second

/-- An `INT32` of a wider number. -/
def toInt32 (n : Nat) : Int := Int.bmod n (2 ^ 32)

/-- `os_mktime`. The sums are of type `os_time_t`; that each of them wraps comes to the
same as that the last one does. -/
def osMktime (t : EfiTime) : Option Int := if t.valid then some (toInt32 t.seconds) else none

/-! ## The order of times -/

def monthDays (leap : Bool) (month : Nat) : Nat :=
  if month = 2 then (if leap then 29 else 28) else if month ∈ [4, 6, 9, 11] then 30 else 31

/-- A date and a time of the calendar. -/
structure EfiTime.Calendar (t : EfiTime) : Prop where
  year : 1900 ≤ t.year ∧ t.year ≤ 9999
  month : 1 ≤ t.month ∧ t.month ≤ 12
  day : 1 ≤ t.day ∧ t.day ≤ monthDays (isLeap t.year) t.month
  hour : t.hour ≤ 23
  minute : t.minute ≤ 59
  second : t.second ≤ 59

instance (t : EfiTime) : Decidable t.Calendar :=
  decidable_of_iff ((1900 ≤ t.year ∧ t.year ≤ 9999) ∧ (1 ≤ t.month ∧ t.month ≤ 12) ∧
      (1 ≤ t.day ∧ t.day ≤ monthDays (isLeap t.year) t.month) ∧ t.hour ≤ 23 ∧ t.minute ≤ 59 ∧ t.second ≤ 59)
    ⟨fun h => ⟨h.1, h.2.1, h.2.2.1, h.2.2.2.1, h.2.2.2.2.1, h.2.2.2.2.2⟩,
      fun h => ⟨h.year, h.month, h.day, h.hour, h.minute, h.second⟩⟩

/-- By the year, then by the month, and so on. -/
def EfiTime.Before (t u : EfiTime) : Prop :=
  t.year < u.year ∨ t.year = u.year ∧ (t.month < u.month ∨ t.month = u.month ∧
    (t.day < u.day ∨ t.day = u.day ∧ (t.hour < u.hour ∨ t.hour = u.hour ∧
      (t.minute < u.minute ∨ t.minute = u.minute ∧ t.second < u.second))))

instance (t u : EfiTime) : Decidable (t.Before u) :=
  inferInstanceAs (Decidable (_ ∨ _ ∧ (_ ∨ _ ∧ (_ ∨ _ ∧ (_ ∨ _ ∧ (_ ∨ _ ∧ _))))))

/-- The last second that an `os_time_t` counts. -/
def lastTime : EfiTime := ⟨2038, 1, 19, 3, 14, 7⟩

/-- The days of the year in front of the day, and the seconds of the day. -/
def EfiTime.dayOfYear (t : EfiTime) : Nat := cumulativeDays (isLeap t.year) t.month + (t.day - 1)
def EfiTime.secondOfDay (t : EfiTime) : Nat := t.hour * secsPerHour + t.minute * 60 + t.second

section

variable {t u : EfiTime}

theorem seconds_eq (t : EfiTime) :
    t.seconds = yearsSeconds (t.year - 1970) + t.dayOfYear * secsPerDay + t.secondOfDay := by
  unfold EfiTime.seconds EfiTime.dayOfYear EfiTime.secondOfDay
  rw [Nat.add_mul]
  omega

/-- A month ends where a later one begins, or before. -/
theorem cumulativeDays_add_le (leap : Bool) {month month' : Nat} (h1 : 1 ≤ month) (h : month < month')
    (h2 : month' ≤ 13) : cumulativeDays leap month + monthDays leap month ≤ cumulativeDays leap month' := by
  have htable : ∀ leap : Bool, ∀ month' ∈ List.range 14, ∀ month ∈ List.range month', 1 ≤ month →
      cumulativeDays leap month + monthDays leap month ≤ cumulativeDays leap month' := by decide
  exact htable leap month' (List.mem_range.mpr (by omega)) month (List.mem_range.mpr h) h1

/-- The days of a year are in front of the next one. -/
theorem EfiTime.Calendar.dayOfYear_lt (h : t.Calendar) : t.dayOfYear < cumulativeDays (isLeap t.year) 13 := by
  have hday := h.day
  have hmonth := cumulativeDays_add_le (isLeap t.year) h.month.1 (show t.month < 13 by have := h.month.2; omega)
    le_rfl
  unfold EfiTime.dayOfYear
  omega

theorem EfiTime.Calendar.secondOfDay_lt (h : t.Calendar) : t.secondOfDay < secsPerDay := by
  have hhour := h.hour
  have hminute := h.minute
  have hsecond := h.second
  unfold EfiTime.secondOfDay secsPerDay secsPerHour
  omega

theorem yearsSeconds_mono {n k : Nat} (h : n ≤ k) : yearsSeconds n ≤ yearsSeconds k := by
  induction k, h using Nat.le_induction with
  | base => exact le_rfl
  | succ k _ ih => exact le_trans ih (Nat.le_add_right _ _)

/-- A time of a year is in front of the next one. -/
theorem EfiTime.Calendar.seconds_lt (h : t.Calendar) (hyear : 1970 ≤ t.year) :
    t.seconds < yearsSeconds (t.year - 1970 + 1) := by
  have hdays := h.dayOfYear_lt
  have htime := h.secondOfDay_lt
  have hmul : (t.dayOfYear + 1) * secsPerDay ≤ cumulativeDays (isLeap t.year) 13 * secsPerDay :=
    Nat.mul_le_mul_right _ hdays
  rw [seconds_eq, yearsSeconds, Nat.add_sub_cancel' hyear]
  rw [Nat.add_mul, Nat.one_mul] at hmul
  omega

/-- The later day of a year begins when the earlier one is over. -/
theorem seconds_lt_of_day (ht : t.Calendar) (hyear : t.year = u.year) (h : t.dayOfYear < u.dayOfYear) :
    t.seconds < u.seconds := by
  have htime := ht.secondOfDay_lt
  have hmul : (t.dayOfYear + 1) * secsPerDay ≤ u.dayOfYear * secsPerDay := Nat.mul_le_mul_right _ h
  rw [Nat.add_mul, Nat.one_mul] at hmul
  rw [seconds_eq, seconds_eq, hyear]
  omega

/-- The seconds are in the order of the times. -/
theorem EfiTime.Before.seconds_lt (h : t.Before u) (ht : t.Calendar) (hu : u.Calendar) (hyear : 1970 ≤ t.year) :
    t.seconds < u.seconds := by
  obtain hlt | ⟨heq, hmonth⟩ := h
  · -- the year is over
    have hend := ht.seconds_lt hyear
    have hyears : yearsSeconds (t.year - 1970 + 1) ≤ yearsSeconds (u.year - 1970) := yearsSeconds_mono (by omega)
    rw [seconds_eq u]
    omega
  obtain hlt | ⟨hsame, hday⟩ := hmonth
  · -- the month is over
    refine seconds_lt_of_day ht heq ?_
    have hend := cumulativeDays_add_le (isLeap t.year) ht.month.1 hlt (by have := hu.month.2; omega)
    have hlast := ht.day
    unfold EfiTime.dayOfYear
    rw [← heq]
    omega
  obtain hlt | ⟨hsameDay, htime⟩ := hday
  · refine seconds_lt_of_day ht heq ?_
    have hfirst := ht.day.1
    unfold EfiTime.dayOfYear
    rw [heq, hsame]
    omega
  · -- the same day
    have hminute := ht.minute
    have hsecond := ht.second
    have hdays : t.dayOfYear = u.dayOfYear := by
      unfold EfiTime.dayOfYear
      rw [heq, hsame, hsameDay]
    rw [seconds_eq, seconds_eq, heq, hdays]
    unfold EfiTime.secondOfDay secsPerHour
    omega

theorem EfiTime.Before.trichotomy (t u : EfiTime) : t.Before u ∨ t = u ∨ u.Before t := by
  obtain ⟨y, mo, d, hr, mi, s⟩ := t
  obtain ⟨y', mo', d', hr', mi', s'⟩ := u
  unfold EfiTime.Before
  simp only [EfiTime.mk.injEq]
  omega

/-- What an `os_time_t` holds is not wrapped. -/
theorem osMktime_eq (h : t.Calendar) (hyear : 1970 ≤ t.year) (hlast : ¬ lastTime.Before t) :
    osMktime t = some (t.seconds : Int) := by
  have hcal : lastTime.Calendar := by decide
  have hle : t.seconds ≤ 2 ^ 31 - 1 := by
    have hend : lastTime.seconds = 2 ^ 31 - 1 := by decide +kernel
    obtain hlt | rfl | hgt := EfiTime.Before.trichotomy t lastTime
    · exact hend ▸ (hlt.seconds_lt h hcal hyear).le
    · exact hend.le
    · exact absurd hgt hlast
  have hmonthDays : monthDays (isLeap t.year) t.month ≤ 31 := by
    unfold monthDays
    split_ifs <;> omega
  have hvalid : t.valid = true := by
    obtain ⟨-, ⟨h1, h2⟩, ⟨h3, h4⟩, h5, h6, h7⟩ := h
    unfold EfiTime.valid
    simp only [Bool.and_eq_true, decide_eq_true_eq]
    omega
  unfold osMktime toInt32
  rw [if_pos hvalid, Int.bmod_eq_of_le (by omega) (by omega)]

/-- Up to what an `os_time_t` holds, the result is in the order of the times; a time before
1970 has none. -/
theorem osMktime_ordered (ht : t.Calendar) (hu : u.Calendar) (h : t.Before u) (hlast : ¬ lastTime.Before u) :
    (t.year < 1970 → osMktime t = none) ∧
    (1970 ≤ t.year → ∃ a b, osMktime t = some a ∧ osMktime u = some b ∧ a < b) := by
  constructor
  · intro hyear
    unfold osMktime EfiTime.valid
    rw [if_neg (by simp [hyear])]
  · intro hyear
    have hyear' : 1970 ≤ u.year := by
      unfold EfiTime.Before at h
      omega
    have hlast' : ¬ lastTime.Before t := by
      unfold EfiTime.Before at h hlast ⊢
      omega
    exact ⟨_, _, osMktime_eq ht hyear hlast', osMktime_eq hu hyear' hlast,
      Int.ofNat_lt.mpr (h.seconds_lt ht hu hyear)⟩

theorem osMktime_ordered_leapDay :
    ((⟨2000, 2, 29, 23, 59, 59⟩ : EfiTime).year < 1970 → osMktime ⟨2000, 2, 29, 23, 59, 59⟩ = none) ∧
    (1970 ≤ (⟨2000, 2, 29, 23, 59, 59⟩ : EfiTime).year → ∃ a b, osMktime ⟨2000, 2, 29, 23, 59, 59⟩ = some a ∧
      osMktime ⟨2000, 3, 1, 0, 0, 0⟩ = some b ∧ a < b) :=
  osMktime_ordered (t := ⟨2000, 2, 29, 23, 59, 59⟩) (u := ⟨2000, 3, 1, 0, 0, 0⟩) (by decide) (by decide)
    (by decide) (by decide)

/-- There are two times before 1970. -/
theorem not_osMktime_ordered : ¬ ∀ t u : EfiTime, t.Calendar → u.Calendar → t.Before u →
    ∃ a b, osMktime t = some a ∧ osMktime u = some b ∧ a < b := by
  intro h
  obtain ⟨a, b, ha, -, -⟩ := h ⟨1968, 1, 1, 0, 0, 0⟩ ⟨1969, 1, 1, 0, 0, 0⟩
    (by decide) (by decide) (by decide)
  have hnone : osMktime ⟨1968, 1, 1, 0, 0, 0⟩ = none := rfl
  exact absurd (hnone.symm.trans ha) (by simp)

end

end BayTrail.SecureBoot
