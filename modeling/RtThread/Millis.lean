import Mathlib.Data.BitVec

/-! The millisecond clocks that LVGL and the HAL read, and what their callers compute from
them. Both are the 32-bit tick of clock.c, converted. -/
namespace RtThread.Millis

def rtTickPerSecond : BitVec 32 := 1000

def lvPortTickGet (rtTick : BitVec 32) : BitVec 32 := rtTick * 1000 / rtTickPerSecond

def halGetTick (rtTick : BitVec 32) : BitVec 32 := rtTick * 1000 / rtTickPerSecond

def lvTickElaps (prevTick actTime : BitVec 32) : BitVec 32 :=
  if prevTick ≤ actTime then actTime - prevTick else 0xffffffff - prevTick + 1 + actTime

/-- `(HAL_GetTick() - tickstart) > Timeout`. -/
def timedOut (tickstart now timeout : BitVec 32) : Bool := timeout < now - tickstart

/-- How often the product has overflowed. -/
def overflows (rtTick : BitVec 32) : Nat := rtTick.toNat * 1000 / 2 ^ 32

def lost (n : Nat) : Nat := (n * 2 ^ 32 + 999) / 1000

/-- From the tick `t1` to the tick `t2`. -/
structure CountsTicks (t1 t2 : BitVec 32) : Prop where
  lvgl : lvPortTickGet t2 - lvPortTickGet t1 = t2 - t1
  hal : halGetTick t2 - halGetTick t1 = t2 - t1
  elaps : lvTickElaps (lvPortTickGet t1) (lvPortTickGet t2) = t2 - t1
  timeout : ∀ d, timedOut (halGetTick t1) (halGetTick t2) d = true ↔ d < t2 - t1

variable {t t1 t2 : BitVec 32} {m n : Nat}

theorem lvTickElaps_eq (t1 t2 : BitVec 32) : lvTickElaps t1 t2 = t2 - t1 := by
  unfold lvTickElaps
  split
  · rfl
  · bv_omega

theorem lost_strict (less : m < n) : lost m < lost n := by
  unfold lost
  omega

theorem lost_small (t : BitVec 32) : lost (overflows t) < 2 ^ 32 := by
  have small := t.isLt
  unfold lost overflows
  omega

theorem clock_toNat (t : BitVec 32) : (lvPortTickGet t).toNat + lost (overflows t) = t.toNat := by
  have small := t.isLt
  have thousand : (1000 : BitVec 32).toNat = 1000 := rfl
  simp only [lvPortTickGet, rtTickPerSecond, BitVec.toNat_udiv, BitVec.toNat_mul, thousand, lost, overflows]
  omega

theorem clock_difference (t1 t2 : BitVec 32) :
    lvPortTickGet t2 - lvPortTickGet t1 = t2 - t1 ↔ overflows t1 = overflows t2 := by
  have first := clock_toNat t1
  have second := clock_toNat t2
  have small := lost_small t1
  have small' := lost_small t2
  constructor
  · intro same
    by_contra differ
    rcases Nat.lt_or_gt_of_ne differ with less | more
    · have step := lost_strict less
      bv_omega
    · have step := lost_strict more
      bv_omega
  · intro same
    rw [same] at first
    bv_omega

theorem clocks_count_ticks (t1 t2 : BitVec 32) : CountsTicks t1 t2 ↔ overflows t1 = overflows t2 := by
  constructor
  · intro counts
    exact (clock_difference t1 t2).mp counts.lvgl
  · intro same
    have lvgl := (clock_difference t1 t2).mpr same
    have hal : halGetTick t2 - halGetTick t1 = t2 - t1 := lvgl
    refine ⟨lvgl, hal, ?_, ?_⟩
    · rw [lvTickElaps_eq, lvgl]
    · intro d
      rw [timedOut, hal, decide_eq_true_iff]

/-- The first tick after 71.6 minutes: the clocks are at 0 again, and a time-out of a second that
has just begun is over. -/
theorem clocks_jump_back : lvPortTickGet 4294967 = 4294967 ∧ lvPortTickGet 4294968 = 0 ∧
    ¬ CountsTicks 4294967 4294968 ∧ timedOut (halGetTick 4294967) (halGetTick 4294968) 1000 = true := by
  refine ⟨by decide, by decide, fun counts => ?_, by decide⟩
  have wrong := counts.lvgl
  revert wrong
  decide

end RtThread.Millis
