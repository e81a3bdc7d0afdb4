import Mathlib.Algebra.Order.Ring.Int
import Mathlib.Data.List.Basic

/-! gmtime_r and mktime of the C library in the repository. A time is a 32-bit time_t that is not
negative; localtime_r is gmtime_r. -/
namespace RtThread.Time

structure Tm where
  tmSec : Int
  tmMin : Int
  tmHour : Int
  tmMday : Int
  tmMon : Int
  tmYear : Int
  tmWday : Int
  deriving DecidableEq

def spm (i : Nat) : Nat := [0, 31, 59, 90, 120, 151, 181, 212, 243, 273, 304, 334, 365].getD i 0

def isleap (year : Nat) : Bool := year % 4 = 0 && (year % 100 ≠ 0 || year % 400 = 0)

def yearLength (year : Nat) : Nat := if isleap year then 366 else 365

/-- The loop over the years: the year of a day and its number in it. -/
def yearOf : Nat → Nat → Nat → Nat × Nat
  | 0, work, year => (year, work)
  | fuel + 1, work, year =>
    if yearLength year ≤ work then yearOf fuel (work - yearLength year) (year + 1) else (year, work)

/-- `for (i = 11; i && (__spm[i] > work); --i)`. -/
def monthOf (work : Nat) : Nat → Nat
  | 0 => 0
  | i + 1 => if work < spm (i + 1) then monthOf work i else i + 1

/-- The month and the day in it, of a day of a year. -/
def monthDay (leap : Bool) (work : Nat) : Nat × Nat :=
  let mday := if leap ∧ work = 59 then 2 else 1
  let work := if leap ∧ 58 < work then work - 1 else work
  let mon := monthOf work 11
  (mon, mday + work - spm mon)

/-- The years of `timep / SPD` days are fewer than its days. -/
def gmtimeR (timep : Nat) : Tm :=
  let work := timep % 86400
  let days := timep / 86400
  let (year, yday) := yearOf days days 1970
  let (mon, mday) := monthDay (isleap year) yday
  { tmSec := (work % 60 : Nat)
    tmMin := (work / 60 % 60 : Nat)
    tmHour := (work / 60 / 60 : Nat)
    tmMday := mday
    tmMon := mon
    tmYear := year - 1900
    tmWday := ((4 + days) % 7 : Nat) }

/-- Of fields in their ranges, where the adjustments that it begins with do nothing. -/
def mktime (t : Tm) : Int :=
  let years := t.tmYear - 70
  if t.tmYear < 70 then -1
  else
    let day := years * 365 + (years + 1) / 4
    let day :=
      if 131 ≤ years then
        let years := (years - 131) / 100
        let day := day - (years / 4 * 3 + 1)
        day - (if years % 4 = 3 then years % 4 - 1 else years % 4)
      else day
    let leap := isleap (t.tmYear + 1900).toNat && decide (1 < t.tmMon)
    let day := day + (spm t.tmMon.toNat + t.tmMday - 1 + if leap then 1 else 0)
    ((day * 24 + t.tmHour) * 60 + t.tmMin) * 60 + t.tmSec

/-- The days before a year, up to 2100. -/
def daysTo (year : Nat) : Nat := (year - 1970) * 365 + (year - 1969) / 4

theorem daysTo_succ {year : Nat} (first : 1970 ≤ year) (last : year < 2100) :
    daysTo (year + 1) = daysTo year + yearLength year := by
  have leap : isleap year = true ↔ year % 4 = 0 := by
    simp only [isleap, Bool.and_eq_true, Bool.or_eq_true, decide_eq_true_eq]
    lia
  unfold daysTo yearLength
  by_cases fourth : year % 4 = 0
  · rw [if_pos (leap.mpr fourth)]
    lia
  · rw [if_neg (fun h => fourth (leap.mp h))]
    lia

theorem yearOf_spec {fuel work year : Nat} (enough : work ≤ fuel) (first : 1970 ≤ year)
    (early : daysTo year + work < 47000) :
    1970 ≤ (yearOf fuel work year).1 ∧ (yearOf fuel work year).1 < 2100 ∧
      daysTo (yearOf fuel work year).1 + (yearOf fuel work year).2 = daysTo year + work ∧
      (yearOf fuel work year).2 < yearLength (yearOf fuel work year).1 := by
  have last : year < 2100 := by
    unfold daysTo at early
    lia
  have some_days : 365 ≤ yearLength year := by
    unfold yearLength
    split <;> lia
  induction fuel generalizing work year with
  | zero =>
    dsimp only [yearOf]
    exact ⟨first, last, rfl, by lia⟩
  | succ fuel ih =>
    simp only [yearOf]
    split
    · rename_i whole
      have next := daysTo_succ first last
      have rest : daysTo (year + 1) + (work - yearLength year) = daysTo year + work := by lia
      have later : year + 1 < 2100 := by
        unfold daysTo at rest early
        lia
      have more : 365 ≤ yearLength (year + 1) := by
        unfold yearLength
        split <;> lia
      rw [← rest]
      exact ih (by lia) (by lia) (by lia) later more
    · rename_i inside
      exact ⟨first, last, rfl, Nat.not_le.mp inside⟩

theorem monthDay_back : ∀ leap : Bool, ∀ work < 366, work < 365 + leap.toNat →
    (monthDay leap work).1 ≤ 11 ∧ 1 ≤ (monthDay leap work).2 ∧ (monthDay leap work).2 ≤ 31 ∧
      spm (monthDay leap work).1 + (monthDay leap work).2 - 1 +
        (if leap && decide (1 < (monthDay leap work).1) then 1 else 0) = work := by
  decide +kernel

theorem mktime_gmtimeR {t : Nat} (word : t < 2 ^ 31) : mktime (gmtimeR t) = t := by
  have few : t / 86400 < 24856 := by lia
  have start : daysTo 1970 = 0 := by decide
  have year_spec := yearOf_spec (Nat.le_refl (t / 86400)) (Nat.le_refl 1970) (by lia)
  rcases found : yearOf (t / 86400) (t / 86400) 1970 with ⟨year, yday⟩
  rw [found] at year_spec
  obtain ⟨first, last, days, inside⟩ := year_spec
  simp only [start, Nat.zero_add] at first last days inside
  have short : yday < 365 + (isleap year).toNat := by
    unfold yearLength at inside
    cases leap : isleap year <;> simp only [leap] at inside ⊢ <;> simpa using inside
  have bound : yday < 366 := by
    cases leap : isleap year <;> simp only [leap] at short <;> simp at short <;> lia
  have date_spec := monthDay_back (isleap year) yday bound short
  rcases date : monthDay (isleap year) yday with ⟨mon, mday⟩
  rw [date] at date_spec
  obtain ⟨_, day, _, back⟩ := date_spec
  simp only at day back
  have early : ¬(131 : Int) ≤ (year : Int) - 1900 - 70 := by
    unfold daysTo at days
    lia
  have late : ¬(year : Int) - 1900 < 70 := by lia
  have whole : ((year : Int) - 1900 + 1900).toNat = year := by lia
  have leap_day : decide (1 < (mon : Int)) = decide (1 < mon) := by
    rw [decide_eq_decide]
    lia
  simp only [gmtimeR, found, date, mktime, if_neg late, if_neg early, whole, leap_day, Int.toNat_natCast]
  unfold daysTo at days
  split at back <;> rename_i leap <;> simp only [leap] <;> simp <;> lia

end RtThread.Time
