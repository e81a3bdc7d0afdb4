import Mathlib.Data.BitVec
import Mathlib.Algebra.Order.Group.Abs
import Mathlib.Algebra.Order.Ring.Int
import Mathlib.Logic.Function.Basic

/-! drv_pwm_set and drv_pwm_get of drv_pwm.c on the registers of a timer. Unsigned long has 32 bits. -/
namespace RtThread.Pwm

def maxPeriod : BitVec 32 := 65535
def minPeriod : BitVec 32 := 3
def minPulse : BitVec 32 := 2

def timClockdivisionDiv1 : BitVec 32 := 0x000
def timClockdivisionDiv2 : BitVec 32 := 0x100
def timClockdivisionDiv4 : BitVec 32 := 0x200

structure Configuration where
  channel : BitVec 32
  period : BitVec 32
  pulse : BitVec 32

/-- `late` for TIM9, TIM10 and TIM11, whose clock is taken from PCLK2. -/
structure Timer where
  late : Bool
  clockDivision : BitVec 32
  psc : BitVec 32
  arr : BitVec 32
  ccr : Nat → BitVec 32
  cnt : BitVec 32

structure Clocks where
  pclk1 : BitVec 32
  pclk2 : BitVec 32

/-- The index of the register of a HAL channel. -/
def compareRegister (channel : BitVec 32) : Nat :=
  if channel = 0x0 then 1 else if channel = 0x4 then 2 else if channel = 0x8 then 3 else 4

def halChannel (configuration : Configuration) : BitVec 32 := 0x04 * (configuration.channel - 1)

def timClock (clocks : Clocks) (htim : Timer) : BitVec 64 :=
  ((if htim.late then clocks.pclk2 else clocks.pclk1) * 2).setWidth 64

def drvPwmGet (clocks : Clocks) (htim : Timer) (configuration : Configuration) : Configuration :=
  let channel := halChannel configuration
  let clock := timClock clocks htim
  let clock :=
    if htim.clockDivision = timClockdivisionDiv2 then clock / 2
    else if htim.clockDivision = timClockdivisionDiv4 then clock / 4
    else clock
  let clock := clock / 1000000
  { configuration with
    period := (((htim.arr + 1) * (htim.psc + 1) * 1000).setWidth 64 / clock).setWidth 32
    pulse := (((htim.ccr (compareRegister channel) + 1) * (htim.psc + 1) * 1000).setWidth 64 / clock).setWidth 32 }

def drvPwmSet (clocks : Clocks) (htim : Timer) (configuration : Configuration) : Timer :=
  let channel := halChannel configuration
  let clock := timClock clocks htim / 1000000
  let period : BitVec 32 := (configuration.period.setWidth 64 * clock / 1000).setWidth 32
  let psc : BitVec 64 := (period / maxPeriod + 1).setWidth 64
  let period : BitVec 32 := (period.setWidth 64 / psc).setWidth 32
  let period := if period < minPeriod then minPeriod else period
  let pulse : BitVec 32 := (configuration.pulse.setWidth 64 * clock / psc / 1000).setWidth 32
  let pulse := if pulse < minPulse then minPulse else if pulse > period then period else pulse
  { htim with
    psc := (psc - 1).setWidth 32
    arr := period - 1
    ccr := Function.update htim.ccr (compareRegister channel) (pulse - 1)
    cnt := 0 }

/- Times below are multiplied by the clock in MHz: a count of the timer is then `stepOf` long. -/

def stepOf (htim : Timer) : Int := (htim.psc.toNat + 1) * 1000

def wantedPeriod (mhz : Nat) (htim : Timer) (requested : Configuration) : Int :=
  max (requested.period.toNat * mhz) (3 * stepOf htim)

def wantedPulse (mhz : Nat) (htim : Timer) (requested : Configuration) : Int :=
  min (max (requested.pulse.toNat * mhz) (2 * stepOf htim)) (wantedPeriod mhz htim requested)

/-- At most a step and a nanosecond apart. -/
def Near (mhz : Nat) (htim : Timer) (got : BitVec 32) (wanted : Int) : Prop :=
  |(got.toNat : Int) * mhz - wanted| ≤ stepOf htim + mhz

/-- The registers that drv_pwm_set has written are sound, and drv_pwm_get reads back what was asked for. -/
structure Agree (mhz : Nat) (clocks : Clocks) (htim : Timer) (requested : Configuration) : Prop where
  psc : (drvPwmSet clocks htim requested).psc.toNat < 2 ^ 16
  arr : (drvPwmSet clocks htim requested).arr.toNat < 2 ^ 16
  ccr : (drvPwmSet clocks htim requested).ccr (compareRegister (halChannel requested)) ≤
    (drvPwmSet clocks htim requested).arr
  period : Near mhz (drvPwmSet clocks htim requested)
    (drvPwmGet clocks (drvPwmSet clocks htim requested) requested).period
    (wantedPeriod mhz (drvPwmSet clocks htim requested) requested)
  pulse : Near mhz (drvPwmSet clocks htim requested)
    (drvPwmGet clocks (drvPwmSet clocks htim requested) requested).pulse
    (wantedPulse mhz (drvPwmSet clocks htim requested) requested)

/-- The clock of the timer is so many MHz, and the timer is as stm32_hw_pwm_init sets it up. -/
structure Runs (mhz : Nat) (clocks : Clocks) (htim : Timer) : Prop where
  clock : timClock clocks htim = BitVec.ofNat 64 (mhz * 1000000)
  least : 1 ≤ mhz
  most : mhz ≤ 168
  division : htim.clockDivision = timClockdivisionDiv1

/- The same computation on numbers. -/

def counts (mhz period : Nat) : Nat := period * mhz / 1000
def prescale (n : Nat) : Nat := n / 65535 + 1
def ticks (n : Nat) : Nat := max (n / prescale n) 3
def pulseTicks (mhz pulse n : Nat) : Nat := min (max (pulse * mhz / prescale n / 1000) 2) (ticks n)

/-- `a` is the number of whole steps in the time. -/
def Whole (len a time : Nat) : Prop := a * len ≤ time ∧ time < a * len + len

variable {mhz n len a b : Nat} {time other : Nat} {clocks : Clocks} {htim : Timer} {requested : Configuration}

theorem counts_lt (most : mhz ≤ 168) (period : BitVec 32) : counts mhz period.toNat < 721554506 := by
  have product : period.toNat * mhz ≤ 4294967295 * 168 := Nat.mul_le_mul (by omega) most
  unfold counts
  lia

theorem prescale_pos (n : Nat) : 0 < prescale n := Nat.succ_pos _

theorem ticks_le (n : Nat) : ticks n ≤ 65535 := by
  have fits : n / prescale n ≤ 65535 := by
    apply Nat.le_of_lt_succ
    rw [Nat.div_lt_iff_lt_mul (prescale_pos n)]
    unfold prescale
    lia
  exact Nat.max_le.mpr ⟨fits, by lia⟩

theorem clock_mhz (runs : Runs mhz clocks htim) : (timClock clocks htim / 1000000).toNat = mhz := by
  have most := runs.most
  rw [runs.clock, BitVec.toNat_udiv, BitVec.toNat_ofNat]
  change mhz * 1000000 % 2 ^ 64 / 1000000 = mhz
  lia

theorem product_lt (most : mhz ≤ 168) (time : BitVec 32) : time.toNat * mhz < 721554505561 := by
  have product : time.toNat * mhz ≤ 4294967295 * 168 := Nat.mul_le_mul (by omega) most
  lia

theorem product_toNat (clock : BitVec 64) (most : clock.toNat ≤ 168) (time : BitVec 32) :
    (time.setWidth 64 * clock).toNat = time.toNat * clock.toNat := by
  have small := product_lt most time
  have wide : time.toNat % 2 ^ 64 = time.toNat := Nat.mod_eq_of_lt (by omega)
  rw [BitVec.toNat_mul, BitVec.toNat_setWidth, wide, Nat.mod_eq_of_lt (by lia)]

theorem period_counts (clock : BitVec 64) (most : clock.toNat ≤ 168) (period : BitVec 32) :
    ((period.setWidth 64 * clock / 1000).setWidth 32 : BitVec 32).toNat = counts clock.toNat period.toNat := by
  have small : period.toNat * clock.toNat / 1000 < _ := counts_lt most period
  have thousand : (1000 : BitVec 64).toNat = 1000 := rfl
  rw [BitVec.toNat_setWidth, BitVec.toNat_udiv, product_toNat clock most, thousand, counts]
  exact Nat.mod_eq_of_lt (by lia)

theorem pulse_counts (clock psc : BitVec 64) (most : clock.toNat ≤ 168) (pulse : BitVec 32) :
    ((pulse.setWidth 64 * clock / psc / 1000).setWidth 32 : BitVec 32).toNat =
      pulse.toNat * clock.toNat / psc.toNat / 1000 := by
  have small := product_lt most pulse
  have less := Nat.div_le_self (pulse.toNat * clock.toNat) psc.toNat
  have thousand : (1000 : BitVec 64).toNat = 1000 := rfl
  rw [BitVec.toNat_setWidth, BitVec.toNat_udiv, BitVec.toNat_udiv, product_toNat clock most, thousand]
  exact Nat.mod_eq_of_lt (by lia)

theorem prescale_toNat (n : BitVec 32) (small : n.toNat < 721554506) :
    ((n / maxPeriod + 1).setWidth 64 : BitVec 64).toNat = prescale n.toNat := by
  have quotient : (n / maxPeriod).toNat = n.toNat / 65535 := BitVec.toNat_udiv
  unfold prescale
  bv_omega

theorem clampPeriod_toNat (n : BitVec 32) : (if n < minPeriod then minPeriod else n).toNat = max n.toNat 3 := by
  have least : minPeriod.toNat = 3 := rfl
  by_cases below : n < minPeriod
  · rw [if_pos below]
    bv_omega
  · rw [if_neg below]
    bv_omega

theorem clampPulse_toNat (n period : BitVec 32) (room : 3 ≤ period.toNat) :
    (if n < minPulse then minPulse else if n > period then period else n).toNat =
      min (max n.toNat 2) period.toNat := by
  have least : minPulse.toNat = 2 := rfl
  by_cases below : n < minPulse
  · rw [if_pos below]
    bv_omega
  · rw [if_neg below]
    by_cases above : n > period
    · rw [if_pos above]
      bv_omega
    · rw [if_neg above]
      bv_omega

theorem period_ticks {count : BitVec 32} {psc : BitVec 64} (prescaled : psc.toNat = prescale count.toNat) :
    (if (count.setWidth 64 / psc).setWidth 32 < minPeriod then minPeriod
      else (count.setWidth 64 / psc).setWidth 32).toNat = ticks count.toNat := by
  have few : count.toNat / prescale count.toNat ≤ count.toNat := Nat.div_le_self _ _
  rw [clampPeriod_toNat, BitVec.toNat_setWidth, BitVec.toNat_udiv, prescaled, BitVec.toNat_setWidth,
    Nat.mod_eq_of_lt (by omega : count.toNat < 2 ^ 64), Nat.mod_eq_of_lt (by omega)]
  rfl

structure Written (mhz : Nat) (requested : Configuration) (psc arr ccr : BitVec 32) : Prop where
  psc : psc.toNat + 1 = prescale (counts mhz requested.period.toNat)
  arr : arr.toNat + 1 = ticks (counts mhz requested.period.toNat)
  ccr : ccr.toNat + 1 = pulseTicks mhz requested.pulse.toNat (counts mhz requested.period.toNat)

theorem set_written (runs : Runs mhz clocks htim) (requested : Configuration) :
    Written mhz requested (drvPwmSet clocks htim requested).psc (drvPwmSet clocks htim requested).arr
      ((drvPwmSet clocks htim requested).ccr (compareRegister (halChannel requested))) := by
  obtain ⟨clock, is_clock⟩ : ∃ clock, clock = timClock clocks htim / 1000000 := ⟨_, rfl⟩
  have mhz_eq := clock_mhz runs
  rw [← is_clock] at mhz_eq
  have most : clock.toNat ≤ 168 := mhz_eq ▸ runs.most
  obtain ⟨n, is_n⟩ : ∃ n : BitVec 32, n = (requested.period.setWidth 64 * clock / 1000).setWidth 32 := ⟨_, rfl⟩
  have counted : n.toNat = counts mhz requested.period.toNat := by
    rw [is_n, period_counts clock most, mhz_eq]
  have small : n.toNat < 721554506 := counted ▸ counts_lt runs.most requested.period
  obtain ⟨psc, is_psc⟩ : ∃ psc : BitVec 64, psc = (n / maxPeriod + 1).setWidth 64 := ⟨_, rfl⟩
  have prescaled : psc.toNat = prescale n.toNat := by rw [is_psc, prescale_toNat n small]
  obtain ⟨period, is_period⟩ : ∃ period : BitVec 32, period = if (n.setWidth 64 / psc).setWidth 32 < minPeriod then
    minPeriod else (n.setWidth 64 / psc).setWidth 32 := ⟨_, rfl⟩
  have ticked : period.toNat = ticks n.toNat := by rw [is_period, period_ticks prescaled]
  have bounds : 3 ≤ period.toNat := ticked ▸ Nat.le_max_right _ _
  obtain ⟨pulse, is_pulse⟩ : ∃ pulse : BitVec 32,
      pulse = (requested.pulse.setWidth 64 * clock / psc / 1000).setWidth 32 :=
    ⟨_, rfl⟩
  have pulsed : pulse.toNat = requested.pulse.toNat * mhz / prescale n.toNat / 1000 := by
    rw [is_pulse, pulse_counts clock psc most, mhz_eq, prescaled]
  have clamped := clampPulse_toNat pulse period bounds
  have positive := prescale_pos n.toNat
  rw [drvPwmSet, ← is_clock, ← is_n, ← is_psc, ← is_period, ← is_pulse]
  simp only [Function.update_self]
  refine ⟨?_, ?_, ?_⟩
  · rw [← counted, ← prescaled]
    have low : psc.toNat ≤ 11011 := by
      rw [prescaled]
      unfold prescale
      lia
    rw [← prescaled] at positive
    bv_omega
  · rw [← counted, ← ticked]
    bv_omega
  · rw [pulsed, ticked] at clamped
    rw [← counted, pulseTicks, ← clamped]
    rw [ticked] at bounds
    have least : 2 ≤ (if pulse < minPulse then minPulse else if pulse > period then period else pulse).toNat := by
      rw [clamped]
      lia
    bv_omega

/-- What drv_pwm_get makes of two registers. -/
def nanoseconds (a psc : BitVec 32) (clock : BitVec 64) : BitVec 32 :=
  (((a + 1) * (psc + 1) * 1000).setWidth 64 / clock).setWidth 32

/-- A product of two registers and 1000 that is read back, cut off at 32 bits. -/
theorem readback (runs : Runs mhz clocks htim) {a p : BitVec 32} (low : a.toNat < 65535)
    (few : p.toNat + 1 ≤ 65536) :
    (nanoseconds a p (timClock clocks htim / 1000000)).toNat =
      (a.toNat + 1) * ((p.toNat + 1) * 1000) % 2 ^ 32 / mhz := by
  have product : (a.toNat + 1) * (p.toNat + 1) ≤ 65535 * 65536 := Nat.mul_le_mul (by lia) few
  have first : (a + 1).toNat = a.toNat + 1 := by bv_omega
  have second : (p + 1).toNat = p.toNat + 1 := by bv_omega
  have thousand : (1000 : BitVec 32).toNat = 1000 := rfl
  have less := Nat.div_le_self ((a.toNat + 1) * ((p.toNat + 1) * 1000) % 2 ^ 32) mhz
  have cut : (a.toNat + 1) * ((p.toNat + 1) * 1000) % 2 ^ 32 < 2 ^ 32 := Nat.mod_lt _ (by decide)
  rw [nanoseconds, BitVec.toNat_setWidth, BitVec.toNat_udiv, BitVec.toNat_setWidth, BitVec.toNat_mul,
    BitVec.toNat_mul, first, second, thousand, clock_mhz runs,
    Nat.mod_eq_of_lt (by lia : (a.toNat + 1) * (p.toNat + 1) < 2 ^ 32),
    Nat.mul_assoc, Nat.mod_eq_of_lt (by lia : _ < 2 ^ 64)]
  exact Nat.mod_eq_of_lt (by lia)

theorem whole_div (positive : 0 < len) (time : Nat) : Whole len (time / len) time := by
  have split := Nat.div_add_mod time len
  have rest := Nat.mod_lt time positive
  rw [Nat.mul_comm] at split
  constructor <;> lia

theorem whole_steps (positive : 0 < len) (a : Nat) : Whole len a (a * len) := ⟨Nat.le_refl _, by lia⟩

theorem whole_min (first : Whole len a time) (second : Whole len b other) :
    Whole len (min a b) (min time other) := by
  obtain ⟨low, high⟩ := first
  obtain ⟨low', high'⟩ := second
  rcases Nat.le_total a b with less | less
  · have order := Nat.mul_le_mul_right len less
    rw [Nat.min_eq_left less]
    constructor <;> lia
  · have order := Nat.mul_le_mul_right len less
    rw [Nat.min_eq_right less]
    constructor <;> lia

theorem whole_max (first : Whole len a time) (second : Whole len b other) :
    Whole len (max a b) (max time other) := by
  obtain ⟨low, high⟩ := first
  obtain ⟨low', high'⟩ := second
  rcases Nat.le_total a b with less | less
  · have order := Nat.mul_le_mul_right len less
    rw [Nat.max_eq_right less]
    constructor <;> lia
  · have order := Nat.mul_le_mul_right len less
    rw [Nat.max_eq_left less]
    constructor <;> lia

def stepLength (n : Nat) : Nat := prescale n * 1000

theorem stepLength_pos (n : Nat) : 0 < stepLength n := Nat.mul_pos (prescale_pos n) (by decide)

theorem ticks_whole (mhz period : Nat) : Whole (stepLength (counts mhz period)) (ticks (counts mhz period))
    (max (period * mhz) (3 * stepLength (counts mhz period))) := by
  have positive := stepLength_pos (counts mhz period)
  have nested : counts mhz period / prescale (counts mhz period) = period * mhz / stepLength (counts mhz period) := by
    rw [stepLength, Nat.mul_comm (prescale _), ← Nat.div_div_eq_div_mul]
    rfl
  rw [ticks, nested]
  exact whole_max (whole_div positive _) (whole_steps positive 3)

theorem pulseTicks_whole (mhz pulse period : Nat) :
    Whole (stepLength (counts mhz period)) (pulseTicks mhz pulse (counts mhz period))
      (min (max (pulse * mhz) (2 * stepLength (counts mhz period)))
        (max (period * mhz) (3 * stepLength (counts mhz period)))) := by
  have positive := stepLength_pos (counts mhz period)
  rw [pulseTicks, Nat.div_div_eq_div_mul]
  exact whole_min (whole_max (whole_div positive _) (whole_steps positive 2)) (ticks_whole mhz period)

theorem ticks_fit (n : Nat) : ticks n * stepLength n < 2 ^ 32 ↔ n < 4295016 := by
  have quotient := Nat.div_add_mod n (prescale n)
  have rest := Nat.mod_lt n (prescale_pos n)
  have product : n / prescale n * stepLength n = prescale n * (n / prescale n) * 1000 := by
    rw [stepLength, ← Nat.mul_assoc, Nat.mul_comm (n / prescale n)]
  rcases Nat.lt_or_ge n 65535 with small | large
  · have one : prescale n = 1 := by
      unfold prescale
      lia
    rw [ticks, stepLength, one, Nat.div_one]
    lia
  · have many : 3 ≤ n / prescale n := by
      rw [Nat.le_div_iff_mul_le (prescale_pos n)]
      unfold prescale
      lia
    rw [ticks, Nat.max_eq_left many, product]
    generalize whole : prescale n * (n / prescale n) = m at *
    rcases Nat.lt_or_ge n 4259775 with below | above
    · lia
    · rcases Nat.lt_or_ge n 4325310 with at66 | above66
      · have scale : prescale n = 66 := by
          unfold prescale
          lia
        rw [scale] at whole
        lia
      · have scale : prescale n ≤ n / 65535 + 1 := Nat.le_refl _
        lia

theorem near_of_fits {got : BitVec 32} {wanted : Nat} (runs : Runs mhz clocks htim)
    (is_step : (htim.psc.toNat + 1) * 1000 = len) (read : got.toNat = a * len % 2 ^ 32 / mhz)
    (whole : Whole len a wanted) (fits : a * len < 2 ^ 32) :
    Near mhz htim got wanted := by
  have positive := runs.least
  rw [Nat.mod_eq_of_lt fits] at read
  obtain ⟨low, high⟩ := whole_div positive (a * len)
  obtain ⟨least, most⟩ := whole
  rw [← read] at low high
  have step : stepOf htim = len := by
    rw [← is_step]
    simp [stepOf]
  rw [Near, step, abs_le]
  constructor <;> lia

theorem far_of_cut {got : BitVec 32} {wanted : Nat} (runs : Runs mhz clocks htim)
    (is_step : (htim.psc.toNat + 1) * 1000 = len) (few : len ≤ 11011000)
    (read : got.toNat = a * len % 2 ^ 32 / mhz) (whole : Whole len a wanted) (cut : 2 ^ 32 ≤ a * len) :
    ¬ Near mhz htim got wanted := by
  have positive := runs.least
  have clock := runs.most
  obtain ⟨low, high⟩ := whole_div positive (a * len % 2 ^ 32)
  obtain ⟨least, most⟩ := whole
  rw [← read] at low
  have step : stepOf htim = len := by
    rw [← is_step]
    simp [stepOf]
  rw [Near, step, abs_le]
  lia

theorem set_clock (clocks : Clocks) (htim : Timer) (requested : Configuration) :
    timClock clocks (drvPwmSet clocks htim requested) = timClock clocks htim := rfl

theorem get_eq (runs : Runs mhz clocks htim) (requested : Configuration) :
    let set := drvPwmSet clocks htim requested
    let clock := timClock clocks htim / 1000000
    drvPwmGet clocks set requested = { requested with
      period := nanoseconds set.arr set.psc clock
      pulse := nanoseconds (set.ccr (compareRegister (halChannel requested))) set.psc clock } := by
  have whole : (drvPwmSet clocks htim requested).clockDivision = timClockdivisionDiv1 := runs.division
  simp only [drvPwmGet, set_clock, whole]
  rfl

theorem wantedPeriod_eq (is_step : (htim.psc.toNat + 1) * 1000 = len) :
    wantedPeriod mhz htim requested = (max (requested.period.toNat * mhz) (3 * len) : Nat) := by
  rw [wantedPeriod, stepOf, ← is_step]
  lia

theorem wantedPulse_eq (is_step : (htim.psc.toNat + 1) * 1000 = len) :
    wantedPulse mhz htim requested =
      (min (max (requested.pulse.toNat * mhz) (2 * len)) (max (requested.period.toNat * mhz) (3 * len)) : Nat) := by
  rw [wantedPulse, wantedPeriod_eq is_step, stepOf, ← is_step]
  omega

/-- The periods up to 25.5 ms at 168 MHz. -/
theorem pwm_agree (runs : Runs mhz clocks htim) (requested : Configuration) :
    Agree mhz clocks htim requested ↔ requested.period.toNat * mhz < 4295016000 := by
  have after : Runs mhz clocks (drvPwmSet clocks htim requested) := ⟨runs.clock, runs.least, runs.most, runs.division⟩
  have small := counts_lt runs.most requested.period
  have limit := ticks_fit (counts mhz requested.period.toNat)
  have period_whole := ticks_whole mhz requested.period.toNat
  have pulse_whole := pulseTicks_whole mhz requested.pulse.toNat requested.period.toNat
  have short : pulseTicks mhz requested.pulse.toNat (counts mhz requested.period.toNat) ≤
      ticks (counts mhz requested.period.toNat) := Nat.min_le_right _ _
  have few : stepLength (counts mhz requested.period.toNat) ≤ 11011000 := by
    unfold stepLength prescale
    lia
  have bounded := ticks_le (counts mhz requested.period.toNat)
  have threshold : counts mhz requested.period.toNat < 4295016 ↔ requested.period.toNat * mhz < 4295016000 := by
    unfold counts
    lia
  obtain ⟨psc, arr, ccr⟩ := set_written runs requested
  have is_step : ((drvPwmSet clocks htim requested).psc.toNat + 1) * 1000 =
      stepLength (counts mhz requested.period.toNat) := by rw [psc, stepLength]
  have low : prescale (counts mhz requested.period.toNat) ≤ 11011 := by
    unfold prescale
    lia
  have period_read := readback after (a := (drvPwmSet clocks htim requested).arr) (by lia)
    (p := (drvPwmSet clocks htim requested).psc) (by lia)
  have pulse_read := readback after (p := (drvPwmSet clocks htim requested).psc)
    (a := (drvPwmSet clocks htim requested).ccr (compareRegister (halChannel requested))) (by lia) (by lia)
  rw [is_step, arr] at period_read
  rw [is_step, ccr] at pulse_read
  rw [← threshold, ← limit]
  constructor
  · intro agree
    by_contra cut
    refine far_of_cut after is_step few period_read period_whole (Nat.le_of_not_lt cut) ?_
    have near := agree.period
    rwa [get_eq runs requested, wantedPeriod_eq is_step] at near
  · intro fits
    have pulse_fits := Nat.lt_of_le_of_lt (Nat.mul_le_mul_right _ short) fits
    refine ⟨by lia, by lia, ?_, ?_, ?_⟩
    · rw [BitVec.le_def]
      lia
    · rw [get_eq runs requested, wantedPeriod_eq is_step]
      exact near_of_fits after is_step period_read period_whole fits
    · rw [get_eq runs requested, wantedPulse_eq is_step]
      exact near_of_fits after is_step pulse_read pulse_whole pulse_fits

/-- TIM2 of this board: PCLK1 is 42 MHz. -/
def boardClocks : Clocks := ⟨42000000, 84000000⟩

def boardTimer : Timer := ⟨false, timClockdivisionDiv1, 0, 0, fun _ => 0, 0⟩

theorem boardTimer_runs : Runs 84 boardClocks boardTimer := ⟨by decide, by decide, by decide, rfl⟩

/-- 1 ms with half of it as pulse. -/
theorem pwm_agree_short : Agree 84 boardClocks boardTimer ⟨1, 1000000, 500000⟩ :=
  (pwm_agree boardTimer_runs ⟨1, 1000000, 500000⟩).mpr (by decide)

/-- 100 ms: the product leaves the 32 bits, and a period of 48.9 ms is read back. -/
theorem pwm_disagrees : ¬ Agree 84 boardClocks boardTimer ⟨1, 100000000, 50000000⟩ ∧
    (drvPwmGet boardClocks (drvPwmSet boardClocks boardTimer ⟨1, 100000000, 50000000⟩)
      ⟨1, 100000000, 50000000⟩).period = 48869008 := by
  refine ⟨fun agree => ?_, by decide +kernel⟩
  have near := agree.period
  rw [Near, abs_le] at near
  exact absurd near.1 (by decide +kernel)

end RtThread.Pwm
