import RtThread.Semaphore
import Mathlib.Data.BitVec

/-! The realtime clock of clock_time.c, and sem_timedwait, which waits until a time of it. A long
and an int have 32 bits, RT_TICK_PER_SECOND is 1000 and RT_USING_CPUTIME is not defined. -/
namespace RtThread.ClockTime

def toInt (x : Int) : Int := (x + 2 ^ 31) % 2 ^ 32 - 2 ^ 31

def toUnsigned (x : Int) : Int := x % 2 ^ 32

structure Timeval where
  tvSec : Int
  tvUsec : Int

structure Timespec where
  tvSec : Int
  tvNsec : Int
  deriving DecidableEq

def clockRealtime : Nat := 1

/-- `rtc` is the time that the device "rtc" has. -/
def clockTimeSystemInit (rtc : Option Int) (tick : BitVec 32) : Timeval :=
  let time := rtc.getD 0
  { tvUsec := toInt (tick.toNat % 1000 * 1000)
    tvSec := toInt (time - tick.toNat / 1000 - 1) }

/-- The case CLOCK_REALTIME of clock_gettime. -/
def realtime (timevalue : Timeval) (rtTick : BitVec 32) : Timespec :=
  let tick := toInt rtTick.toNat
  { tvSec := toInt (timevalue.tvSec + tick.tdiv 1000)
    tvNsec := toInt ((timevalue.tvUsec + tick.tmod 1000 * 1000) * 1000) }

def clockGettime (timevalue : Timeval) (clockid : Nat) (rtTick : BitVec 32) : Option Timespec :=
  if clockid = clockRealtime then some (realtime timevalue rtTick) else none

/-- With the result; it is -1 also where there is no RTC. -/
def clockSettime (timevalue : Timeval) (clockid : Nat) (tp : Timespec) (rtc : Option Int)
    (tick : BitVec 32) : Int × Timeval :=
  if clockid ≠ clockRealtime then (-1, timevalue)
  else
    let second := tp.tvSec
    (if rtc.isSome then 0 else -1,
      { tvUsec := toInt (1000000 - tick.toNat % 1000 * 1000)
        tvSec := toInt (second - tick.toNat / 1000 - 1) })

/-- `nsecond` and `second` of clock_time_to_tick. -/
def borrow (now time : Timespec) : Int × Int :=
  if toInt (time.tvNsec - now.tvNsec) < 0 then
    (toInt (1000000000 - (now.tvNsec - time.tvNsec)), toInt (time.tvSec - now.tvSec - 1))
  else (toInt (time.tvNsec - now.tvNsec), toInt (time.tvSec - now.tvSec))

/-- `now` is the time that clock_gettime gives. -/
def clockTimeToTick (now time : Timespec) : Int :=
  let (nsecond, second) := borrow now time
  -- The int product becomes an unsigned long when it is divided.
  let tick := toInt (second * 1000 + toUnsigned (nsecond * 1000) / 1000000000)
  if tick < 0 then 0 else tick

def semTimedwait (sem : Semaphore.State) (t : Tid) (now absTimeout : Timespec) :
    Option (Semaphore.State × List Semaphore.Event) :=
  Semaphore.rtSemTake sem t (clockTimeToTick now absTimeout)

def Timespec.nanoseconds (t : Timespec) : Int := t.tvSec * 1000000000 + t.tvNsec

def Timespec.Normal (t : Timespec) : Prop := 0 ≤ t.tvNsec ∧ t.tvNsec < 1000000000

def distance (now time : Timespec) : Int := time.nanoseconds - now.nanoseconds

def remainingTicks (now time : Timespec) : Int :=
  if distance now time ≤ 0 then 0 else distance now time / 1000000

structure Remaining (now time : Timespec) : Prop where
  ticks : clockTimeToTick now time = remainingTicks now time
  wait : ∀ sem t, semTimedwait sem t now time = Semaphore.rtSemTake sem t (remainingTicks now time)

/-- The product of the nanoseconds past the whole seconds fits in 32 bits; of a time that has
passed the product of the seconds does. -/
def Exact (now time : Timespec) : Prop :=
  if distance now time ≤ 0 then -2147483000000000 ≤ distance now time
  else distance now time % 1000000000 ≤ 4294967

/-- The fraction that clock_time_to_tick computes. -/
def fraction (nsecond : Int) : Int := toUnsigned (nsecond * 1000) / 1000000000

instance (t : Timespec) : Decidable t.Normal := inferInstanceAs (Decidable (_ ∧ _))

instance (now time : Timespec) : Decidable (Exact now time) := inferInstanceAs (Decidable (ite _ _ _))

theorem toInt_small {x : Int} (low : -2 ^ 31 ≤ x) (high : x < 2 ^ 31) : toInt x = x := by
  unfold toInt
  lia

section
variable {now time : Timespec} {n : Int}

theorem fraction_range (n : Int) : 0 ≤ fraction n ∧ fraction n ≤ 4 := by
  unfold fraction toUnsigned
  lia

theorem fraction_exact (low : 0 ≤ n) (high : n < 1000000000) : fraction n = n / 1000000 ↔ n ≤ 4294967 := by
  unfold fraction toUnsigned
  lia

theorem borrow_eq (isNow : now.Normal) (isTime : time.Normal) (near : |distance now time| < 2 ^ 31 * 1000000) :
    borrow now time = (distance now time % 1000000000, distance now time / 1000000000) := by
  have ⟨low, high⟩ := abs_lt.mp near
  unfold Timespec.Normal at isNow isTime
  unfold distance Timespec.nanoseconds at low high ⊢
  have direct : toInt (time.tvNsec - now.tvNsec) = time.tvNsec - now.tvNsec := toInt_small (by lia) (by lia)
  unfold borrow
  rw [direct]
  split
  · rw [toInt_small (by lia) (by lia), toInt_small (by lia) (by lia), Prod.mk.injEq]
    lia
  · rw [toInt_small (by lia) (by lia), Prod.mk.injEq]
    lia

theorem clockTimeToTick_exact (isNow : now.Normal) (isTime : time.Normal)
    (near : |distance now time| < 2 ^ 31 * 1000000) :
    clockTimeToTick now time = remainingTicks now time ↔ Exact now time := by
  unfold clockTimeToTick
  rw [borrow_eq isNow isTime near]
  dsimp only
  rw [← fraction]
  unfold remainingTicks Exact
  generalize distance now time = d at near
  have ⟨low, high⟩ := abs_lt.mp near
  have ⟨least, most⟩ := fraction_range (d % 1000000000)
  have exact := fraction_exact (n := d % 1000000000) (by lia) (by lia)
  have ticks : d / 1000000 = d / 1000000000 * 1000 + d % 1000000000 / 1000000 := by lia
  generalize fraction (d % 1000000000) = f at *
  by_cases passed : d ≤ 0
  · rw [if_pos passed, if_pos passed]
    unfold toInt
    split <;> lia
  · rw [if_neg passed, if_neg passed, toInt_small (by lia) (by lia), if_neg (by lia), ticks]
    lia

theorem clock_time_to_tick_remaining (isNow : now.Normal) (isTime : time.Normal)
    (near : |distance now time| < 2 ^ 31 * 1000000) : Remaining now time ↔ Exact now time := by
  rw [← clockTimeToTick_exact isNow isTime near]
  constructor
  · exact Remaining.ticks
  · intro exact
    constructor
    · exact exact
    · intro sem t
      rw [semTimedwait, exact]

end

theorem clock_time_to_tick_remaining_later : Remaining ⟨10, 999000000⟩ ⟨12, 3000000⟩ :=
  have isNow : Timespec.Normal ⟨10, 999000000⟩ := by decide
  have isTime : Timespec.Normal ⟨12, 3000000⟩ := by decide
  (clock_time_to_tick_remaining isNow isTime (by decide)).mpr (by decide)

/-- A wait of 5 ms does not wait. -/
theorem clock_time_to_tick_short : clockTimeToTick ⟨0, 0⟩ ⟨0, 5000000⟩ = 0 ∧
    remainingTicks ⟨0, 0⟩ ⟨0, 5000000⟩ = 5 ∧ ¬ Remaining ⟨0, 0⟩ ⟨0, 5000000⟩ := by
  have none : clockTimeToTick ⟨0, 0⟩ ⟨0, 5000000⟩ = 0 := by decide
  have five : remainingTicks ⟨0, 0⟩ ⟨0, 5000000⟩ = 5 := by decide
  refine ⟨none, five, fun remaining => ?_⟩
  have ticks := remaining.ticks
  lia

inductive Setting where
  | init (rtc : Option Int)
  | settime (tp : Timespec) (rtc : Option Int)

/-- The base time that a setting at the tick `t0` leaves. -/
def Setting.timevalue (s : Setting) (old : Timeval) (t0 : BitVec 32) : Timeval :=
  match s with
  | .init rtc => clockTimeSystemInit rtc t0
  | .settime tp rtc => (clockSettime old clockRealtime tp rtc t0).2

/-- The clock that is set at `t0` and read at `t1` and `t2`. -/
structure Realtime (s : Setting) (old : Timeval) (t0 t1 t2 : BitVec 32) (first second : Timespec) : Prop where
  normal : first.Normal ∧ second.Normal
  monotone : t1 ≤ t2 → first.nanoseconds ≤ second.nanoseconds
  elapsed : second.nanoseconds - first.nanoseconds = ((t2.toNat : Int) - t1.toNat) * 1000000
  settable : ∀ set rtc, s = .settime set rtc →
    (clockGettime (s.timevalue old t0) clockRealtime t0).map Timespec.tvSec = some set.tvSec

/-- The second and the millisecond that the base time is computed from. -/
def Setting.start : Setting → BitVec 32 → Int × Int
  | .init rtc, t0 => (rtc.getD 0, t0.toNat % 1000)
  | .settime tp _, t0 => (tp.tvSec, 1000 - t0.toNat % 1000)

/-- The tick as the int that it is read as, in its seconds and milliseconds. -/
def phase (t : BitVec 32) : Int × Int := ((toInt t.toNat).tdiv 1000, (toInt t.toNat).tmod 1000)

def Setting.second (s : Setting) (t0 t : BitVec 32) : Int :=
  (s.start t0).1 - t0.toNat / 1000 - 1 + (phase t).1

def Setting.milli (s : Setting) (t0 t : BitVec 32) : Int := (s.start t0).2 + (phase t).2

/-- No carry is needed at a read, and between the reads neither the sign of the tick changes nor
does the second leave a long. -/
structure InStep (s : Setting) (t0 t1 t2 : BitVec 32) : Prop where
  carry : ∀ t ∈ [t1, t2], 0 ≤ s.milli t0 t ∧ s.milli t0 t < 1000
  half : t1.toNat < 2 ^ 31 ↔ t2.toNat < 2 ^ 31
  second : (s.second t0 t1 + 2 ^ 31) / 2 ^ 32 = (s.second t0 t2 + 2 ^ 31) / 2 ^ 32

section
variable {s : Setting} {old : Timeval} {t t0 t1 t2 : BitVec 32} {x : Int}

theorem toInt_add (x y : Int) : toInt (toInt x + y) = toInt (x + y) := by
  unfold toInt
  lia

theorem truncated (x : Int) : x.tdiv 1000 * 1000 + x.tmod 1000 = x ∧ -1000 < x.tmod 1000 ∧ x.tmod 1000 < 1000 := by
  have whole := Int.tdiv_mul_add_tmod x 1000
  have small : (x.tmod 1000).natAbs < 1000 := by
    rw [Int.natAbs_tmod]
    exact Nat.mod_lt _ (by decide)
  lia

theorem realtime_eq (s : Setting) (old : Timeval) (t0 t : BitVec 32) :
    realtime (s.timevalue old t0) t = ⟨toInt (s.second t0 t), s.milli t0 t * 1000000⟩ := by
  have ⟨_, low, high⟩ := truncated (toInt t.toNat)
  cases s with
  | init rtc =>
    have usec : toInt (t0.toNat % 1000 * 1000) = (t0.toNat : Int) % 1000 * 1000 :=
      toInt_small (by omega) (by omega)
    simp only [realtime, Setting.timevalue, clockTimeSystemInit, Setting.second, Setting.milli, Setting.start,
      phase, toInt_add, usec, Timespec.mk.injEq, true_and]
    rw [toInt_small (by omega) (by omega)]
    omega
  | settime tp rtc =>
    have usec : toInt (1000000 - t0.toNat % 1000 * 1000) = 1000000 - (t0.toNat : Int) % 1000 * 1000 :=
      toInt_small (by omega) (by omega)
    simp only [realtime, Setting.timevalue, clockSettime, ne_eq, not_true_eq_false, if_false, Setting.second,
      Setting.milli, Setting.start, phase, toInt_add, usec, Timespec.mk.injEq, true_and]
    rw [toInt_small (by omega) (by omega)]
    omega

theorem realtime_normal : (realtime (s.timevalue old t0) t).Normal ↔ 0 ≤ s.milli t0 t ∧ s.milli t0 t < 1000 := by
  rw [realtime_eq]
  unfold Timespec.Normal
  dsimp only
  omega

theorem toInt_half (t : BitVec 32) :
    t.toNat < 2 ^ 31 ∧ toInt t.toNat = t.toNat ∨ 2 ^ 31 ≤ t.toNat ∧ toInt t.toNat = t.toNat - 2 ^ 32 := by
  have small := t.isLt
  unfold toInt
  lia

theorem milli_second (s : Setting) (t0 t : BitVec 32) : s.second t0 t * 1000 + s.milli t0 t =
    ((s.start t0).1 - t0.toNat / 1000 - 1) * 1000 + (s.start t0).2 + toInt t.toNat := by
  have ⟨whole, _⟩ := truncated (toInt t.toNat)
  unfold Setting.second Setting.milli phase
  omega

theorem toInt_eq (x : Int) : toInt x = x - 2 ^ 32 * ((x + 2 ^ 31) / 2 ^ 32) := by
  unfold toInt
  lia

theorem realtime_elapsed (s : Setting) (old : Timeval) (t0 t1 t2 : BitVec 32) :
    (realtime (s.timevalue old t0) t2).nanoseconds - (realtime (s.timevalue old t0) t1).nanoseconds =
      ((t2.toNat : Int) - t1.toNat) * 1000000 ↔
    (t1.toNat < 2 ^ 31 ↔ t2.toNat < 2 ^ 31) ∧
      (s.second t0 t1 + 2 ^ 31) / 2 ^ 32 = (s.second t0 t2 + 2 ^ 31) / 2 ^ 32 := by
  have first := milli_second s t0 t1
  have second := milli_second s t0 t2
  have half1 := toInt_half t1
  have half2 := toInt_half t2
  simp only [realtime_eq, Timespec.nanoseconds, toInt_eq (s.second t0 t1), toInt_eq (s.second t0 t2)]
  generalize (s.second t0 t1 + 2 ^ 31) / 2 ^ 32 = wraps1
  generalize (s.second t0 t2 + 2 ^ 31) / 2 ^ 32 = wraps2
  -- A change of sign takes 2^32 ticks away, a second that wraps 2^32 seconds.
  lia

theorem settime_settable (set : Timespec) (rtc : Option Int) (old : Timeval) (t0 : BitVec 32) :
    (clockGettime ((Setting.settime set rtc).timevalue old t0) clockRealtime t0).map Timespec.tvSec ≠
      some set.tvSec := by
  have ⟨whole, low, high⟩ := truncated (toInt t0.toNat)
  have half := toInt_half t0
  have sign : 0 ≤ toInt t0.toNat → 0 ≤ (toInt t0.toNat).tmod 1000 := Int.tmod_nonneg 1000
  simp only [clockGettime, if_true, Option.map_some, realtime_eq, Setting.second, Setting.start, phase, ne_eq,
    Option.some.injEq]
  rw [toInt_eq]
  omega

theorem realtime_in_step (s : Setting) (old : Timeval) (t0 t1 t2 : BitVec 32) (first second : Timespec)
    (read1 : clockGettime (s.timevalue old t0) clockRealtime t1 = some first)
    (read2 : clockGettime (s.timevalue old t0) clockRealtime t2 = some second) :
    Realtime s old t0 t1 t2 first second ↔ (∃ rtc, s = .init rtc) ∧ InStep s t0 t1 t2 := by
  cases Option.some.inj read1
  cases Option.some.inj read2
  constructor
  · rintro ⟨normal, _, elapsed, settable⟩
    have ⟨half, second⟩ := (realtime_elapsed s old t0 t1 t2).mp elapsed
    have carry : ∀ t ∈ [t1, t2], 0 ≤ s.milli t0 t ∧ s.milli t0 t < 1000 := by
      simpa only [List.forall_mem_cons, List.not_mem_nil, false_implies, implies_true, and_true,
        realtime_normal] using normal
    cases s with
    | init rtc => exact ⟨⟨rtc, rfl⟩, carry, half, second⟩
    | settime set rtc => exact absurd (settable set rtc rfl) (settime_settable set rtc old t0)
  · rintro ⟨⟨rtc, rfl⟩, carry, half, second⟩
    have elapsed := (realtime_elapsed (.init rtc) old t0 t1 t2).mpr ⟨half, second⟩
    constructor
    · simpa only [List.forall_mem_cons, List.not_mem_nil, false_implies, implies_true, and_true,
        realtime_normal] using carry
    · intro later
      bv_omega
    · exact elapsed
    · intro set rtc same
      cases same

end

theorem realtime_in_step_init :
    Realtime (.init (some 1000)) ⟨0, 0⟩ 2100 2200 3899 ⟨999, 300000000⟩ ⟨1000, 999000000⟩ := by
  have step : InStep (.init (some 1000)) 2100 2200 3899 := by
    constructor
    · simp only [List.forall_mem_cons, List.not_mem_nil, false_implies, implies_true, and_true]
      decide
    · decide
    · decide
  exact (realtime_in_step (.init (some 1000)) ⟨0, 0⟩ 2100 2200 3899 _ _ (by decide) (by decide)).mpr
    ⟨⟨some 1000, rfl⟩, step⟩

/-- The second 100 is set, and read as 99 with 10^9 nanoseconds. After an initialisation 500 ms into
a second there are more than 10^9 nanoseconds. -/
theorem realtime_off :
    clockGettime ((Setting.settime ⟨100, 0⟩ (some 0)).timevalue ⟨0, 0⟩ 1500) clockRealtime 1500 =
      some ⟨99, 1000000000⟩ ∧
    ¬ Realtime (.settime ⟨100, 0⟩ (some 0)) ⟨0, 0⟩ 1500 1500 1500 ⟨99, 1000000000⟩ ⟨99, 1000000000⟩ ∧
    clockGettime ((Setting.init none).timevalue ⟨0, 0⟩ 1500) clockRealtime 2700 = some ⟨0, 1200000000⟩ ∧
    ¬ Realtime (.init none) ⟨0, 0⟩ 1500 2700 2700 ⟨0, 1200000000⟩ ⟨0, 1200000000⟩ := by
  refine ⟨by decide, fun correct => ?_, by decide, fun correct => ?_⟩
  · exact absurd correct.normal.1.2 (by decide)
  · exact absurd correct.normal.1.2 (by decide)

end RtThread.ClockTime
