import Mathlib.Algebra.BigOperators.Intervals
import RtThread.Time

/-! gmtime_r and mktime with all the fields of a struct tm, over the whole Gregorian calendar.
A time_t holds the seconds of every year that an int holds; the int arithmetic of the fields
wraps. -/
namespace RtThread.Calendar

open Time (spm isleap yearLength yearOf monthDay)

structure Tm extends Time.Tm where
  tmYday : Int
  tmIsdst : Int
  deriving DecidableEq

/-- int arithmetic. -/
def wrap (x : Int) : Int := Int.bmod x (2 ^ 32)

/-- __isleap of the int `t->tm_year + 1900`. -/
def Tm.leap (t : Tm) : Bool :=
  let year := wrap (t.tmYear + 1900)
  year % 4 = 0 && (year % 100 ≠ 0 || year % 400 = 0)

def gmtimeR (timep : Nat) (r : Tm) : Tm :=
  { Time.gmtimeR timep with
    tmYday := (yearOf (timep / 86400) (timep / 86400) 1970).2
    tmIsdst := r.tmIsdst }

/-- `if (x > unit) { y += x / unit; x %= unit; }`. -/
def carry (unit x y : Int) : Int × Int := if unit < x then (x % unit, wrap (y + x / unit)) else (x, y)

/-- The adjustments that mktime begins with. -/
def Tm.carried (t : Tm) : Tm :=
  let (sec, min) := carry 60 t.tmSec t.tmMin
  let (min, hour) := carry 60 min t.tmHour
  let (hour, mday) := carry 24 hour t.tmMday
  let (mon, year) := carry 12 t.tmMon t.tmYear
  { t with tmSec := sec, tmMin := min, tmHour := hour, tmMday := mday, tmMon := mon, tmYear := year }

/-- __spm[i]; a read outside of its 13 entries has no result. -/
def spmAt (i : Int) : Option Nat := if 0 ≤ i ∧ i < 13 then some (spm i.toNat) else none

/-- A turn of the loop over the days, `before` being `__spm[t->tm_mon]`. -/
def Tm.nextMonth (t : Tm) (before : Nat) : Tm :=
  let mday := (if t.tmMon = 1 ∧ t.leap then t.tmMday - 1 else t.tmMday) - before
  if 11 < t.tmMon + 1 then { t with tmMday := mday, tmMon := 0, tmYear := wrap (t.tmYear + 1) }
  else { t with tmMday := mday, tmMon := t.tmMon + 1 }

def dayLoop : Nat → Tm → Option Tm
  | fuel, t =>
    (spmAt (1 + t.tmMon)).bind (fun last =>
      if last < t.tmMday then
        match fuel with
        | 0 => none
        | fuel + 1 => (spmAt t.tmMon).bind (fun before => dayLoop fuel (t.nextMonth before))
      else some t)

/-- The days of the years since 1970. -/
def yearDays (years : Int) : Int :=
  let day := years * 365 + (years + 1) / 4
  if 131 ≤ years then
    let years := (years - 131) / 100
    let day := day - (years / 4 * 3 + 1)
    day - (if years % 4 = 3 then years % 4 - 1 else years % 4)
  else day

/-- What follows the loop; `years` has been read at the beginning. -/
def Tm.finish (t : Tm) (years : Int) : Option (Int × Tm) :=
  if t.tmYear < 70 then some (-1, t)
  else
    (spmAt t.tmMon).map (fun before : Nat =>
      let yday := wrap (before + t.tmMday - 1 + if t.leap ∧ 1 < t.tmMon then 1 else 0)
      let day := yearDays years + yday
      (((day * 24 + t.tmHour) * 60 + t.tmMin) * 60 + t.tmSec,
        { t with tmYday := yday, tmWday := (day + 4).tmod 7 }))

/-- The result and the struct tm as mktime leaves it. A day less than 32 is in every month, and
of two turns one takes 31 days off at least. -/
def mktime (t : Tm) : Option (Int × Tm) :=
  (dayLoop t.carried.tmMday.toNat t.carried).bind (fun u => u.finish (t.tmYear - 70))

/-- The Gregorian calendar: the days from 1970 to a year, from there to a month, and of a month. -/
def daysTo (year : Nat) : Nat := ∑ y ∈ Finset.Ico 1970 year, yearLength y

def monthStart (leap : Bool) (mon : Nat) : Nat := spm mon + if leap = true ∧ 1 < mon then 1 else 0

def monthLength (leap : Bool) (mon : Nat) : Nat := monthStart leap (mon + 1) - monthStart leap mon

def Tm.year (t : Tm) : Nat := (t.tmYear + 1900).toNat

/-- The fields of a date and a time from 1970 on. -/
structure Tm.Valid (t : Tm) : Prop where
  year : 70 ≤ t.tmYear
  mon : 0 ≤ t.tmMon ∧ t.tmMon < 12
  mday : 1 ≤ t.tmMday ∧ t.tmMday ≤ monthLength (isleap t.year) t.tmMon.toNat
  hour : 0 ≤ t.tmHour ∧ t.tmHour < 24
  min : 0 ≤ t.tmMin ∧ t.tmMin < 60
  sec : 0 ≤ t.tmSec ∧ t.tmSec < 60

variable {t d r : Tm} {year mon day n : Nat}

theorem isleap_iff : isleap year = true ↔ year % 4 = 0 ∧ (year % 100 ≠ 0 ∨ year % 400 = 0) := by
  simp only [isleap, Bool.and_eq_true, Bool.or_eq_true, decide_eq_true_eq]

theorem daysTo_succ (first : 1970 ≤ year) : daysTo (year + 1) = daysTo year + yearLength year :=
  Finset.sum_Ico_succ_top first yearLength

theorem yearDays_eq {years : Int} (some : 0 ≤ years) :
    yearDays years = years * 365 + ((years + 1969) / 4 - (years + 1969) / 100 + (years + 1969) / 400) - 477 := by
  unfold yearDays
  dsimp only
  split
  · split <;> lia
  · lia

/-- By induction on the year: the formula counts the leap days. -/
theorem daysTo_eq (first : 1970 ≤ year) : (daysTo year : Int) = yearDays (year - 1970) := by
  induction year, first using Nat.le_induction with
  | base => decide
  | succ year first ih =>
    rw [daysTo_succ first, Int.natCast_add, ih, yearDays_eq (by lia), yearDays_eq (by lia)]
    unfold yearLength
    by_cases leap : isleap year = true
    · rw [if_pos leap]
      have rule := isleap_iff.mp leap
      lia
    · rw [if_neg leap]
      have rule : ¬ (year % 4 = 0 ∧ (year % 100 ≠ 0 ∨ year % 400 = 0)) := fun h => leap (isleap_iff.mpr h)
      lia

theorem wrap_small {x : Int} (low : -2 ^ 31 ≤ x) (high : x < 2 ^ 31) : wrap x = x :=
  Int.bmod_eq_of_le (by lia) (by lia)

theorem leap_eq (known : 0 ≤ t.tmYear + 1900) (small : t.year < 2 ^ 31) : t.leap = isleap t.year := by
  unfold Tm.year at small ⊢
  obtain ⟨year, isYear⟩ := Int.eq_ofNat_of_zero_le known
  rw [isYear, Int.toNat_natCast] at small ⊢
  rw [Bool.eq_iff_iff, isleap_iff]
  simp only [Tm.leap, isYear, wrap_small (show -2 ^ 31 ≤ (year : Int) by lia) (by lia), Bool.and_eq_true,
    Bool.or_eq_true, decide_eq_true_eq]
  lia

theorem monthLength_le : ∀ leap : Bool, ∀ mon < 12, monthLength leap mon ≤ spm (mon + 1) := by
  decide

theorem spmAt_nat (inside : n < 13) : spmAt n = some (spm n) :=
  if_pos (by lia)

theorem carry_small {unit x y : Int} (small : x ≤ unit) : carry unit x y = (x, y) :=
  if_neg (by lia)

theorem carried_valid (valid : t.Valid) : t.carried = t := by
  have hour := valid.hour.2
  have min := valid.min.2
  have sec := valid.sec.2
  have mon := valid.mon.2
  simp (disch := omega) only [Tm.carried, carry_small]

def Tm.yday (t : Tm) : Nat := monthStart (isleap t.year) t.tmMon.toNat + t.tmMday.toNat - 1

theorem finish_valid (valid : t.Valid) (leap : 1 < t.tmMon → t.leap = isleap t.year) :
    dayLoop t.tmMday.toNat t = some t ∧ t.finish (t.tmYear - 70) =
      some (((((daysTo t.year + t.yday : Nat) * 24 + t.tmHour) * 60 + t.tmMin) * 60 + t.tmSec : Int),
        { t with tmYday := t.yday, tmWday := ((daysTo t.year + t.yday + 4) % 7 : Nat) }) := by
  have year := valid.year
  have known : ((t.year : Nat) : Int) = t.tmYear + 1900 := Int.toNat_of_nonneg (by lia)
  obtain ⟨mon, isMon⟩ := Int.eq_ofNat_of_zero_le valid.mon.1
  have twelve := valid.mon.2
  obtain ⟨first, last⟩ := valid.mday
  obtain ⟨mday, isMday⟩ := Int.eq_ofNat_of_zero_le (show 0 ≤ t.tmMday by lia)
  rw [isMon, Int.toNat_natCast] at last
  have within := monthLength_le (isleap t.year) mon (by lia)
  have few : ∀ n < 12, spm n ≤ 365 ∧ spm (n + 1) ≤ 365 := by decide
  have small := few mon (by lia)
  constructor
  · unfold dayLoop
    rw [isMon, show (1 + (mon : Int)) = ((mon + 1 : Nat) : Int) by lia, spmAt_nat (by lia)]
    exact if_neg (by lia)
  have days : (daysTo t.year : Int) = yearDays (t.tmYear - 70) := by
    rw [daysTo_eq (by lia), known]
    congr 1
    lia
  have yday : (spm mon + t.tmMday - 1 + if t.leap ∧ 1 < t.tmMon then 1 else 0) = t.yday := by
    have late : t.leap = true ∧ 1 < t.tmMon ↔ isleap t.year = true ∧ 1 < mon := by
      rw [and_congr_left (fun h => by rw [leap h]), isMon]
      exact and_congr Iff.rfl (by lia)
    unfold Tm.yday monthStart
    simp only [late]
    rw [isMon, isMday, Int.toNat_natCast, Int.toNat_natCast]
    split <;> lia
  have small_day : t.yday < 800 := by
    unfold Tm.yday monthStart
    rw [isMon, isMday, Int.toNat_natCast, Int.toNat_natCast]
    split <;> lia
  have entry : spmAt t.tmMon = some (spm mon) := isMon ▸ spmAt_nat (by lia)
  rw [Tm.finish, if_neg (by lia), entry, Option.map_some]
  simp only [yday, ← days, wrap_small (show -2 ^ 31 ≤ (t.yday : Int) by lia) (by lia)]
  rfl

theorem mktime_valid (valid : t.Valid) (small : t.year < 2 ^ 31) :
    mktime t = some (((((daysTo t.year + t.yday : Nat) * 24 + t.tmHour) * 60 + t.tmMin) * 60 + t.tmSec : Int),
      { t with tmYday := t.yday, tmWday := ((daysTo t.year + t.yday + 4) % 7 : Nat) }) := by
  have year := valid.year
  obtain ⟨stays, finished⟩ := finish_valid valid (fun _ => leap_eq (by lia) small)
  rw [mktime, carried_valid valid, stays, Option.bind_some, finished]

/-- On a date it is what the alarms use of it. -/
theorem mktime_toTime (valid : t.Valid) (small : t.year < 2 ^ 31) :
    (mktime t).map Prod.fst = some (Time.mktime t.toTm) := by
  have year := valid.year
  have days : (daysTo t.year : Int) = yearDays (t.tmYear - 70) := by
    have known : ((t.year : Nat) : Int) = t.tmYear + 1900 := Int.toNat_of_nonneg (by lia)
    rw [daysTo_eq (by lia), known]
    congr 1
    lia
  have day := valid.mday.1
  have late : (isleap t.year && decide (1 < t.tmMon)) = true ↔ isleap t.year = true ∧ 1 < t.tmMon.toNat := by
    rw [Bool.and_eq_true, decide_eq_true_iff]
    exact and_congr Iff.rfl (by lia)
  have yday : (t.yday : Int) = spm t.tmMon.toNat + t.tmMday - 1 +
      if isleap t.year && decide (1 < t.tmMon) then 1 else 0 := by
    unfold Tm.yday monthStart
    simp only [late]
    split <;> lia
  rw [mktime_valid valid small, Option.map_some, Time.mktime]
  simp only [if_neg (show ¬ t.tmYear < 70 by lia), Int.natCast_add, days, yday]
  rfl

end RtThread.Calendar
