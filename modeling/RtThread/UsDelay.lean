import Mathlib.Data.BitVec
import Mathlib.Data.List.Basic

/-! rt_hw_us_delay of drv_common.c, and the counter of SysTick that it reads. -/
namespace RtThread.UsDelay

/-- SysTick->VAL counts down to 0 and on from SysTick->LOAD. -/
def countDown (load val : BitVec 32) : BitVec 32 := if val = 0 then load else val - 1

def valAfter (load val : BitVec 32) : Nat → BitVec 32
  | 0 => val
  | n + 1 => countDown load (valAfter load val n)

def delta (reload start now : BitVec 32) : BitVec 32 :=
  if now ≤ start then start - now else reload + start - now

def usTick (systemCoreClock : BitVec 32) : BitVec 32 := systemCoreClock / 1000000

/-- `gaps` are the steps that the counter makes before each time it is read. The result is their
number when the loop ends, `none` where it does not end with these readings. -/
def delayLoop (reload start target : BitVec 32) : BitVec 32 → Nat → List Nat → Option Nat
  | _, _, [] => none
  | val, steps, gap :: gaps =>
    let now := valAfter reload val gap
    if delta reload start now < target then delayLoop reload start target now (steps + gap) gaps
    else some (steps + gap)

/-- With SysTick->VAL as it is at the call. -/
def rtHwUsDelay (systemCoreClock load val us : BitVec 32) (gaps : List Nat) : Option Nat :=
  delayLoop load val (usTick systemCoreClock * us) val 0 gaps

structure Delays (systemCoreClock load val us : BitVec 32) : Prop where
  canEnd : ∃ n, rtHwUsDelay systemCoreClock load val us [n] = some n
  notShort : ∀ gaps n, rtHwUsDelay systemCoreClock load val us gaps = some n →
    us.toNat * (usTick systemCoreClock).toNat ≤ n

def longest (load val : BitVec 32) : Nat := if val = load then load.toNat else load.toNat - 1

variable {load val start target now us clock : BitVec 32} {m n s : Nat} {gaps : List Nat}

theorem valAfter_add (load val : BitVec 32) (m n : Nat) :
    valAfter load val (m + n) = valAfter load (valAfter load val m) n := by
  induction n with
  | zero => rfl
  | succ n ih =>
    change countDown load (valAfter load val (m + n)) = countDown load (valAfter load (valAfter load val m) n)
    rw [ih]

theorem valAfter_first (early : n ≤ val.toNat) : (valAfter load val n).toNat = val.toNat - n := by
  induction n with
  | zero => rfl
  | succ n ih =>
    have before := ih (by omega)
    simp only [valAfter, countDown]
    split <;> bv_omega

theorem valAfter_next (load val : BitVec 32) (m : Nat) :
    valAfter load val (val.toNat + 1 + m) = valAfter load load m := by
  have zero : valAfter load val val.toNat = 0 := by
    have reached : (valAfter load val val.toNat).toNat = _ := valAfter_first (Nat.le_refl val.toNat)
    bv_omega
  rw [valAfter_add]
  simp only [valAfter, zero, countDown, if_true]

theorem valAfter_le (inside : val ≤ load) : valAfter load val n ≤ load := by
  induction n with
  | zero => exact inside
  | succ n ih =>
    simp only [valAfter, countDown]
    split <;> bv_omega

theorem delta_le_steps (inside : val ≤ load) : (delta load val (valAfter load val n)).toNat ≤ n := by
  have within := valAfter_le (n := n) inside
  by_cases early : n ≤ val.toNat
  · have now : (valAfter load val n).toNat = _ := valAfter_first early
    unfold delta
    split <;> bv_omega
  · obtain ⟨m, rfl⟩ : ∃ m, n = val.toNat + 1 + m := ⟨n - (val.toNat + 1), by omega⟩
    rw [valAfter_next] at within ⊢
    by_cases once : m ≤ load.toNat
    · have now : (valAfter load load m).toNat = _ := valAfter_first once
      unfold delta
      split <;> bv_omega
    · unfold delta
      split <;> bv_omega

theorem delta_le_longest (inside : val ≤ load) (within : now ≤ load) :
    (delta load val now).toNat ≤ longest load val := by
  unfold delta longest
  split <;> split <;> bv_omega

theorem longest_reached (inside : val ≤ load) :
    ∃ n, (delta load val (valAfter load val n)).toNat = longest load val := by
  unfold longest
  split
  · rename_i top
    have zero : (valAfter load val val.toNat).toNat = _ := valAfter_first (Nat.le_refl val.toNat)
    refine ⟨val.toNat, ?_⟩
    unfold delta
    split <;> bv_omega
  · rename_i below
    -- The value before the one that the loop started with.
    have above : (valAfter load load (load.toNat - val.toNat - 1)).toNat = _ := valAfter_first (by omega)
    refine ⟨val.toNat + 1 + (load.toNat - val.toNat - 1), ?_⟩
    rw [valAfter_next]
    unfold delta
    split <;> bv_omega

/-- By induction on the readings: the loop ends at one that is late enough. -/
theorem delayLoop_some (ended : delayLoop load start target (valAfter load start s) s gaps = some n) :
    target ≤ delta load start (valAfter load start n) := by
  induction gaps generalizing s with
  | nil => cases ended
  | cons gap gaps ih =>
    simp only [delayLoop, ← valAfter_add] at ended
    split at ended
    · exact ih ended
    · rename_i late
      cases Option.some.inj ended
      exact BitVec.not_lt.mp late

theorem delayLoop_once (n : Nat) : delayLoop load val target val 0 [n] = some n ↔
    target ≤ delta load val (valAfter load val n) := by
  simp only [delayLoop, Nat.zero_add]
  split
  · rename_i early
    exact iff_of_false (Option.some_ne_none n ∘ Eq.symm) (BitVec.not_le.mpr early)
  · rename_i late
    exact iff_of_true rfl (BitVec.not_lt.mp late)

theorem us_delay_ends (small : us.toNat * (usTick clock).toNat < 2 ^ 32) (inside : val ≤ load) :
    Delays clock load val us ↔ us.toNat * (usTick clock).toNat ≤ longest load val := by
  have product : (usTick clock * us).toNat = us.toNat * (usTick clock).toNat := by
    rw [BitVec.toNat_mul, Nat.mul_comm, Nat.mod_eq_of_lt small]
  constructor
  · rintro ⟨⟨n, ended⟩, _⟩
    have late : usTick clock * us ≤ delta load val (valAfter load val n) := (delayLoop_once n).mp ended
    have most := delta_le_longest inside (valAfter_le (n := n) inside)
    rw [BitVec.le_def, product] at late
    exact Nat.le_trans late most
  · intro short
    constructor
    · obtain ⟨n, reached⟩ := longest_reached inside
      refine ⟨n, (delayLoop_once n).mpr ?_⟩
      rw [BitVec.le_def, product, reached]
      exact short
    · intro gaps n ended
      have late : usTick clock * us ≤ delta load val (valAfter load val n) := delayLoop_some (s := 0) ended
      rw [BitVec.le_def, product] at late
      exact Nat.le_trans late (delta_le_steps inside)

/-- 999 us at 168 MHz, with the tick of 1 ms. -/
theorem us_delay_ends_short : Delays 168000000 167999 5 999 :=
  (us_delay_ends (by decide) (by decide)).mpr (by decide)

/-- A whole tick: the loop does not end, whenever the counter is read. -/
theorem us_delay_hangs : ¬ Delays 168000000 167999 5 1000 ∧
    ∀ gaps, rtHwUsDelay 168000000 167999 5 1000 gaps = none := by
  have never : ∀ n, ¬ (usTick 168000000 * 1000 ≤ delta 167999 5 (valAfter 167999 5 n)) := by
    intro n late
    have inside : (5 : BitVec 32) ≤ 167999 := by decide
    have most := delta_le_longest inside (valAfter_le (n := n) inside)
    have least : 168000 ≤ (delta 167999 5 (valAfter 167999 5 n)).toNat := late
    have limit : longest 167999 5 = 167998 := by decide
    omega
  constructor
  · rintro ⟨⟨n, ended⟩, _⟩
    exact never n ((delayLoop_once n).mp ended)
  · intro gaps
    refine Option.eq_none_iff_forall_ne_some.mpr (fun n ended => never n ?_)
    exact delayLoop_some (s := 0) ended

end RtThread.UsDelay
