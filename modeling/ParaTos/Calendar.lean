/-
  ParaTos/Calendar.lean
  =====================
  **The Gregorian calendar.**

  Days are counted from the first of January 1970, forwards and backwards, and every
  year is a Gregorian one.  `Date.number` counts the day of a date and `dateOf` finds
  the date of a day; `dateOf_number` and `number_dateOf` say that they undo each other,
  and `before_of_lt` that a later day has a later date.

  A year is found by a guess that is wrong by one at most (`yearOf_spec`).
  Nothing here names a particular program.
-/
import Mathlib.Logic.Basic
import Mathlib.Algebra.Group.Nat.Defs
import Mathlib.Algebra.Group.Int.Defs

namespace ParaTos.Calendar

/-! ### Years -/

def isLeap (y : Int) : Bool := y % 4 == 0 && (y % 100 != 0 || y % 400 == 0)

/-- The day on which a year begins. -/
def yearStart (y : Int) : Int :=
  365 * (y - 1970) + (y - 1) / 4 - (y - 1) / 100 + (y - 1) / 400 - 477

def yearLength (leap : Bool) : Nat := if leap then 366 else 365

theorem yearStart_succ (y : Int) :
    yearStart (y + 1) = yearStart y + yearLength (isLeap y) := by
  simp only [yearStart, yearLength, isLeap, Bool.and_eq_true, Bool.or_eq_true, beq_iff_eq,
    bne_iff_ne]
  split <;> omega

theorem yearStart_lt {y y' : Int} (h : y < y') : yearStart y < yearStart y' := by
  simp only [yearStart]
  omega

theorem yearStart_le {y y' : Int} (h : y ≤ y') : yearStart y ≤ yearStart y' := by
  rcases Int.lt_or_eq_of_le h with h | rfl
  · exact Int.le_of_lt (yearStart_lt h)
  · exact Int.le_refl _

/-- The year of a day: 400 years have 146097 days, and where the guess from that is wrong
    the year is the one before or the one behind. -/
def yearOf (n : Int) : Int :=
  let guess := 1970 + n * 400 / 146097
  if n < yearStart guess then guess - 1
  else if yearStart (guess + 1) ≤ n then guess + 1
  else guess

/-- How far a year is from where 400 years of equal length would put it. -/
theorem yearStart_bounds (y : Int) :
    146097 * (y - 1970) - 506 ≤ 400 * yearStart y ∧
      400 * yearStart y ≤ 146097 * (y - 1970) + 589 := by
  simp only [yearStart]
  omega

theorem yearOf_spec (n : Int) : yearStart (yearOf n) ≤ n ∧ n < yearStart (yearOf n + 1) := by
  have hguess : 146097 * (n * 400 / 146097) ≤ 400 * n ∧
      400 * n < 146097 * (n * 400 / 146097) + 146097 := by omega
  simp only [yearOf]
  generalize n * 400 / 146097 = k at hguess ⊢
  split
  · rename_i h
    rw [Int.sub_add_cancel]
    have hbounds := yearStart_bounds (1970 + k - 1)
    exact ⟨by omega, h⟩
  · rename_i h
    split
    · rename_i h'
      have hbounds := yearStart_bounds (1970 + k + 1 + 1)
      exact ⟨h', by omega⟩
    · rename_i h'
      exact ⟨Int.not_lt.mp h, Int.not_le.mp h'⟩

theorem yearOf_eq {n y : Int} (hlo : yearStart y ≤ n) (hhi : n < yearStart (y + 1)) :
    yearOf n = y := by
  obtain ⟨hlo', hhi'⟩ := yearOf_spec n
  rcases Int.lt_trichotomy (yearOf n) y with h | h | h
  · have hle := yearStart_le (Int.add_one_le_of_lt h)
    omega
  · exact h
  · have hle := yearStart_le (Int.add_one_le_of_lt h)
    omega

/-! ### Months -/

/-- The day of the year on which a month begins; the months count from 0. -/
def monthStart (leap : Bool) (m : Nat) : Nat :=
  [0, 31, 59, 90, 120, 151, 181, 212, 243, 273, 304, 334].getD m 365 +
    if leap && 2 ≤ m then 1 else 0

def monthLength (leap : Bool) (m : Nat) : Nat := monthStart leap (m + 1) - monthStart leap m

/-- The month of a day of the year: how many months begin by then, apart from January. -/
def monthOf (leap : Bool) (r : Nat) : Nat :=
  (List.range 11).countP fun m => monthStart leap (m + 1) ≤ r

theorem monthStart_twelve (leap : Bool) : monthStart leap 12 = yearLength leap := by
  cases leap <;> rfl

theorem monthStart_lt {leap : Bool} {m m' : Nat} (h : m < m') (hm : m' ≤ 12) :
    monthStart leap m < monthStart leap m' := by
  have hall : ∀ m' < 13, ∀ m < m', monthStart leap m < monthStart leap m' := by
    cases leap <;> decide
  exact hall m' (Nat.lt_succ_of_le hm) m h

theorem monthStart_le {leap : Bool} {m m' : Nat} (h : m ≤ m') (hm : m' ≤ 12) :
    monthStart leap m ≤ monthStart leap m' := by
  rcases Nat.lt_or_eq_of_le h with h | rfl
  · exact Nat.le_of_lt (monthStart_lt h hm)
  · exact Nat.le_refl _

theorem monthLength_le (leap : Bool) {m : Nat} (hm : m < 12) : monthLength leap m ≤ 31 := by
  have hall : ∀ m < 12, monthLength leap m ≤ 31 := by
    cases leap <;> decide
  exact hall m hm

/-- A month ends where the next one begins. -/
theorem monthStart_succ (leap : Bool) {m : Nat} (hm : m < 12) :
    monthStart leap (m + 1) = monthStart leap m + monthLength leap m := by
  have hlt := @monthStart_lt leap m (m + 1) (Nat.lt_succ_self m) hm
  rw [monthLength]
  omega

theorem monthOf_spec {leap : Bool} {r : Nat} (hr : r < yearLength leap) :
    monthOf leap r < 12 ∧ monthStart leap (monthOf leap r) ≤ r ∧
      r < monthStart leap (monthOf leap r + 1) := by
  have hall : ∀ r < yearLength leap, monthOf leap r < 12 ∧
      monthStart leap (monthOf leap r) ≤ r ∧ r < monthStart leap (monthOf leap r + 1) := by
    cases leap <;> decide +kernel
  exact hall r hr

theorem monthOf_eq {leap : Bool} {r m : Nat} (hm : m < 12) (hlo : monthStart leap m ≤ r)
    (hhi : r < monthStart leap (m + 1)) : monthOf leap r = m := by
  have hyear : r < yearLength leap := by
    rw [← monthStart_twelve]
    exact Nat.lt_of_lt_of_le hhi (monthStart_le hm (Nat.le_refl 12))
  obtain ⟨hm', hlo', hhi'⟩ := monthOf_spec hyear
  rcases Nat.lt_trichotomy (monthOf leap r) m with h | h | h
  · have hle := @monthStart_le leap (monthOf leap r + 1) m h (Nat.le_of_lt hm)
    omega
  · exact h
  · have hle := @monthStart_le leap (m + 1) (monthOf leap r) h (Nat.le_of_lt hm')
    omega

/-! ### Dates -/

/-- A date; the months count from 0 and the days from 1. -/
structure Date where
  year : Int
  month : Nat
  day : Nat
deriving DecidableEq, Repr

namespace Date

/-- There is such a day in the calendar. -/
structure Valid (d : Date) : Prop where
  month : d.month < 12
  pos : 1 ≤ d.day
  day : d.day ≤ monthLength (isLeap d.year) d.month

instance (d : Date) : Decidable d.Valid :=
  decidable_of_iff (d.month < 12 ∧ 1 ≤ d.day ∧ d.day ≤ monthLength (isLeap d.year) d.month)
    ⟨fun h => ⟨h.1, h.2.1, h.2.2⟩, fun h => ⟨h.month, h.pos, h.day⟩⟩

/-- The number of its day. -/
def number (d : Date) : Int :=
  yearStart d.year + monthStart (isLeap d.year) d.month + d.day - 1

/-- One date comes before another. -/
def Before (d d' : Date) : Prop :=
  d.year < d'.year ∨ d.year = d'.year ∧
    (d.month < d'.month ∨ d.month = d'.month ∧ d.day < d'.day)

end Date

/-- The date of a day. -/
def dateOf (n : Int) : Date :=
  let y := yearOf n
  let r := (n - yearStart y).toNat
  let m := monthOf (isLeap y) r
  ⟨y, m, r - monthStart (isLeap y) m + 1⟩

theorem dateOf_valid (n : Int) : (dateOf n).Valid := by
  obtain ⟨hlo, hhi⟩ := yearOf_spec n
  rw [yearStart_succ] at hhi
  obtain ⟨hm, hlo', hhi'⟩ := @monthOf_spec (isLeap (yearOf n)) (n - yearStart (yearOf n)).toNat
    (by omega)
  rw [monthStart_succ _ hm] at hhi'
  refine ⟨hm, Nat.succ_le_succ (Nat.zero_le _), ?_⟩
  simp only [dateOf]
  omega

theorem number_dateOf (n : Int) : (dateOf n).number = n := by
  obtain ⟨hlo, hhi⟩ := yearOf_spec n
  rw [yearStart_succ] at hhi
  obtain ⟨-, hlo', -⟩ := @monthOf_spec (isLeap (yearOf n)) (n - yearStart (yearOf n)).toNat
    (by omega)
  simp only [dateOf, Date.number]
  omega

/-- The days of a year. -/
theorem Date.Valid.inYear {d : Date} (hd : d.Valid) :
    yearStart d.year ≤ d.number ∧ d.number < yearStart (d.year + 1) := by
  have hend := monthStart_succ (isLeap d.year) hd.month
  have hle := @monthStart_le (isLeap d.year) (d.month + 1) 12 hd.month (Nat.le_refl 12)
  rw [monthStart_twelve] at hle
  have hday := hd.day
  have hpos := hd.pos
  rw [yearStart_succ, Date.number]
  omega

theorem dateOf_number {d : Date} (hd : d.Valid) : dateOf d.number = d := by
  obtain ⟨y, m, day⟩ := d
  obtain ⟨hlo, hhi⟩ := hd.inYear
  have hyear : yearOf (Date.number ⟨y, m, day⟩) = y := yearOf_eq hlo hhi
  have hend := monthStart_succ (isLeap y) hd.month
  have hday := hd.day
  have hpos := hd.pos
  simp only at hend hday hpos
  have hrest : (Date.number ⟨y, m, day⟩ - yearStart y).toNat =
      monthStart (isLeap y) m + (day - 1) := by
    simp only [Date.number]
    omega
  have hmonth : monthOf (isLeap y) (monthStart (isLeap y) m + (day - 1)) = m :=
    monthOf_eq hd.month (Nat.le_add_right _ _) (by omega)
  simp only [dateOf, hyear, hrest, hmonth, Date.mk.injEq, true_and]
  omega

/-- A later day has a later date. -/
theorem before_of_lt {n n' : Int} (h : n < n') : (dateOf n).Before (dateOf n') := by
  have hn := number_dateOf n
  have hn' := number_dateOf n'
  have hd := dateOf_valid n
  have hd' := dateOf_valid n'
  generalize dateOf n = d at hn hd
  generalize dateOf n' = d' at hn' hd'
  obtain ⟨-, hhi⟩ := hd.inYear
  obtain ⟨hlo', -⟩ := hd'.inYear
  rcases Int.lt_trichotomy d.year d'.year with hyear | hyear | hyear
  · exact Or.inl hyear
  · refine Or.inr ⟨hyear, ?_⟩
    obtain ⟨hm, hpos, hday⟩ := hd
    obtain ⟨hm', hpos', hday'⟩ := hd'
    rw [Date.number, hyear] at hn
    rw [Date.number] at hn'
    rcases Nat.lt_trichotomy d.month d'.month with hmonth | hmonth | hmonth
    · exact Or.inl hmonth
    · rw [hmonth] at hn
      exact Or.inr ⟨hmonth, by omega⟩
    · -- the earlier date would be in a later month
      have hle := @monthStart_le (isLeap d'.year) (d'.month + 1) d.month hmonth (Nat.le_of_lt hm)
      have hend := monthStart_succ (isLeap d'.year) hm'
      omega
  · have hle := yearStart_le (Int.add_one_le_of_lt hyear)
    obtain ⟨hlo, -⟩ := hd.inYear
    obtain ⟨-, hhi'⟩ := hd'.inYear
    omega

/-- The days of a span of years. -/
theorem dateOf_year {n y y' : Int} (hlo : yearStart y ≤ n) (hhi : n < yearStart y') :
    y ≤ (dateOf n).year ∧ (dateOf n).year < y' := by
  obtain ⟨hlo', hhi'⟩ := yearOf_spec n
  have hyear : (dateOf n).year = yearOf n := rfl
  rw [hyear]
  constructor
  · apply Int.not_lt.mp
    intro h
    have hle := yearStart_le (Int.add_one_le_of_lt h)
    omega
  · apply Int.not_le.mp
    intro h
    have hle := yearStart_le h
    omega

example : dateOf 11016 = ⟨2000, 1, 29⟩ := by decide

end ParaTos.Calendar
