import RtThread.Calendar

/-! mktime on fields out of their ranges. The turns of the day loop subtract the days before a
month where those of the month are meant: how far they lead away from the day is followed from
turn to turn. -/
namespace RtThread.Calendar

open Time (spm isleap yearLength)

/-- Fields that are not negative, of a year from 1970 on. -/
structure Tm.Given (t : Tm) : Prop where
  sec : 0 ≤ t.tmSec ∧ t.tmSec < 2 ^ 31
  min : 0 ≤ t.tmMin ∧ t.tmMin < 2 ^ 31
  hour : 0 ≤ t.tmHour ∧ t.tmHour < 2 ^ 31
  mday : 0 ≤ t.tmMday ∧ t.tmMday < 2 ^ 31
  mon : 0 ≤ t.tmMon ∧ t.tmMon < 2 ^ 31
  year : 70 ≤ t.tmYear ∧ t.tmYear < 2 ^ 31

/-- What `x > unit` carries on. -/
def carries (unit x : Int) : Int := if unit < x then x / unit else 0

def rest (unit x : Int) : Int := if unit < x then x % unit else x

def Tm.minutes (t : Tm) : Int := t.tmMin + carries 60 t.tmSec
def Tm.hours (t : Tm) : Int := t.tmHour + carries 60 t.minutes
def Tm.mdays (t : Tm) : Int := t.tmMday + carries 24 t.hours

/-- No unit is full exactly or overflows, the day that the hours carry into is one of the month,
and `tm_year + 1900` still says as an int whether the year is a leap year. -/
structure Tm.InStep (t : Tm) : Prop where
  sec : t.tmSec ≠ 60
  min : t.minutes ≠ 60 ∧ t.minutes < 2 ^ 31
  hour : t.hours ≠ 24 ∧ t.hours < 2 ^ 31
  mon : t.tmMon < 12
  mday : 1 ≤ t.mdays ∧ t.mdays ≤ monthLength (isleap t.year) t.tmMon.toNat
  leap : 1 < t.tmMon → t.leap = isleap t.year

/-- The day of the year that mktime counts. -/
def Tm.counted (t : Tm) : Int := spm t.tmMon.toNat + t.tmMday - 1 + if t.leap ∧ 1 < t.tmMon then 1 else 0

variable {t u : Tm} {n : Nat} {x y unit : Int}

end RtThread.Calendar
