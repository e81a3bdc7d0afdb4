import RtThread.Run
import Mathlib.Data.BitVec

/-! drv_pulse_encoder.c: a timer in encoder mode counts the steps of a shaft, and the interrupt of
its update event counts how often the counter has wrapped. -/
namespace RtThread.PulseEncoder
open Transition

def autoReloadValue : BitVec 32 := 0x7fff

def timFlagUpdate : BitVec 32 := 0x01
def timFlagCc1 : BitVec 32 := 0x02
def timFlagCc2 : BitVec 32 := 0x04
def timFlagCc3 : BitVec 32 := 0x08
def timFlagCc4 : BitVec 32 := 0x10
def timFlagCom : BitVec 32 := 0x20
def timFlagTrigger : BitVec 32 := 0x40
def timFlagBreak : BitVec 32 := 0x80

/-- The registers CNT and SR of the timer and the bit DIR of CR1, and the rt_int32_t of the driver. -/
structure Device where
  cnt : BitVec 32
  sr : BitVec 32
  countingDown : Bool
  overUnderFlowcount : BitVec 32

def Device.flag (d : Device) (flag : BitVec 32) : Bool := d.sr &&& flag != 0

/-- The counter makes a step, whose edges may raise other flags. -/
def countUp (d : Device) (edges : BitVec 32) : Device :=
  let d := { d with countingDown := false, sr := d.sr ||| (edges &&& ~~~timFlagUpdate) }
  if d.cnt = autoReloadValue then { d with cnt := 0, sr := d.sr ||| timFlagUpdate }
  else { d with cnt := d.cnt + 1 }

def countDown (d : Device) (edges : BitVec 32) : Device :=
  let d := { d with countingDown := true, sr := d.sr ||| (edges &&& ~~~timFlagUpdate) }
  if d.cnt = 0 then { d with cnt := autoReloadValue, sr := d.sr ||| timFlagUpdate }
  else { d with cnt := d.cnt - 1 }

def clearIt (d : Device) (flag : BitVec 32) : Device :=
  if d.flag flag then { d with sr := d.sr &&& ~~~flag } else d

def pulseEncoderUpdateIsr (d : Device) : Device :=
  let d :=
    if d.flag timFlagUpdate then
      let d := { d with sr := d.sr &&& ~~~timFlagUpdate }
      if d.countingDown then { d with overUnderFlowcount := d.overUnderFlowcount - 1 }
      else { d with overUnderFlowcount := d.overUnderFlowcount + 1 }
    else d
  [timFlagCc1, timFlagCc2, timFlagCc3, timFlagCc4, timFlagBreak, timFlagTrigger, timFlagCom].foldl clearIt d

def pulseEncoderClearCount (d : Device) : Device := { d with overUnderFlowcount := 0, cnt := 0 }

def pulseEncoderGetCount (d : Device) : BitVec 32 :=
  (d.cnt.setWidth 16).signExtend 32 + d.overUnderFlowcount * autoReloadValue

inductive Action where
  | up (edges : BitVec 32)
  | down (edges : BitVec 32)
  | isr
  | clear
  deriving DecidableEq

inductive Event where
  | up | down | clear
  deriving DecidableEq

/-- The counter makes no step while the interrupt of a wrap is pending. -/
def step (d : Device) : Action → Option (Device × List Event)
  | .up edges => if d.flag timFlagUpdate then none else some (countUp d edges, [.up])
  | .down edges => if d.flag timFlagUpdate then none else some (countDown d edges, [.down])
  | .isr => some (pulseEncoderUpdateIsr d, [])
  | .clear => some (pulseEncoderClearCount d, [.clear])

/-- After pulse_encoder_init. -/
structure Start (d : Device) : Prop where
  cnt : d.cnt = 0
  update : d.flag timFlagUpdate = false
  count : d.overUnderFlowcount = 0

def machine : Machine Device Action Event where
  start := Start
  step := step

def Event.count : Int → Event → Int
  | n, .up => n + 1
  | n, .down => n - 1
  | _, .clear => 0

/-- The steps up less the steps down since the last clear. -/
def net (tr : List Event) : Int := tr.foldl Event.count 0

/-- The count is not cleared between a wrap and its interrupt. -/
def Guard (d : Device) (a : Action) : Prop := a = .clear → d.flag timFlagUpdate = false

/-- The wrap that the interrupt has yet to count. -/
def pending (d : Device) : Int :=
  if d.flag timFlagUpdate then (if d.countingDown then -1 else 1) else 0

/-- The counter goes through `autoReloadValue + 1` states. -/
structure Counts (n : Int) (d : Device) : Prop where
  cnt : (d.cnt.toNat : Int) = n % 32768
  wraps : d.overUnderFlowcount = BitVec.ofInt 32 (n / 32768 - pending d)

variable {d d' : Device} {n : Int} {tr es : List Event} {a : Action} {edges : BitVec 32}

theorem net_snoc (tr : List Event) (e : Event) : net (tr ++ [e]) = e.count (net tr) := by
  simp [net]

@[simp] theorem timFlagUpdate_bit : timFlagUpdate[0] = true := rfl

theorem flag_update (d : Device) : d.flag timFlagUpdate = d.sr[0] := by
  have bit : d.sr &&& 1#32 = if d.sr[0] then 1#32 else 0#32 := by
    apply BitVec.eq_of_getLsbD_eq
    intro i inside
    rcases Nat.eq_zero_or_pos i with rfl | positive
    · cases low : d.sr[0] <;> simp [low]
    · have other : (1#32).getLsbD i = false := by
        simp only [BitVec.getLsbD_one]
        simp [Nat.ne_of_gt positive]
      split <;> simp [other]
  change (d.sr &&& 1#32 != 0#32) = _
  rw [bit]
  cases d.sr[0] <;> rfl

theorem clearIt_kept (d : Device) {flag : BitVec 32} (other : flag[0] = false) :
    (clearIt d flag).cnt = d.cnt ∧ (clearIt d flag).overUnderFlowcount = d.overUnderFlowcount ∧
      (clearIt d flag).flag timFlagUpdate = d.flag timFlagUpdate := by
  rw [clearIt]
  split
  · refine ⟨rfl, rfl, ?_⟩
    simp [flag_update, other]
  · exact ⟨rfl, rfl, rfl⟩

theorem clearIts_kept (flags : List (BitVec 32)) (others : ∀ flag ∈ flags, flag[0] = false) (d : Device) :
    (flags.foldl clearIt d).cnt = d.cnt ∧ (flags.foldl clearIt d).overUnderFlowcount = d.overUnderFlowcount ∧
      (flags.foldl clearIt d).flag timFlagUpdate = d.flag timFlagUpdate := by
  induction flags generalizing d with
  | nil => exact ⟨rfl, rfl, rfl⟩
  | cons flag flags ih =>
    obtain ⟨cnt, wraps, update⟩ := ih (fun other here => others other (by simp [here])) (clearIt d flag)
    have first := clearIt_kept d (others flag (by simp))
    exact ⟨cnt.trans first.1, wraps.trans first.2.1, update.trans first.2.2⟩

theorem otherFlags_bit : ∀ flag ∈ [timFlagCc1, timFlagCc2, timFlagCc3, timFlagCc4, timFlagBreak, timFlagTrigger,
    timFlagCom], flag[0] = false := by
  simp [timFlagCc1, timFlagCc2, timFlagCc3, timFlagCc4, timFlagBreak, timFlagTrigger, timFlagCom]

theorem pending_settled (settled : d.flag timFlagUpdate = false) : pending d = 0 := by
  simp [pending, settled]

theorem up_counts (counts : Counts n d) (settled : d.flag timFlagUpdate = false) :
    Counts (n + 1) (countUp d edges) := by
  obtain ⟨cnt, wraps⟩ := counts
  rw [pending_settled settled] at wraps
  rw [flag_update] at settled
  rw [countUp]
  split
  · rename_i top
    have last : d.cnt.toNat = 32767 := congrArg BitVec.toNat top
    have wrapped : n / 32768 - 0 = (n + 1) / 32768 - 1 := by lia
    refine ⟨?_, ?_⟩
    · change ((0 : Nat) : Int) = _
      lia
    · simp [pending, flag_update, wraps, wrapped]
  · rename_i below
    have inside : d.cnt.toNat ≠ 32767 := fun last => below (BitVec.eq_of_toNat_eq last)
    have same : n / 32768 - 0 = (n + 1) / 32768 - 0 := by lia
    refine ⟨?_, ?_⟩
    · simp only
      bv_omega
    · simp [pending, flag_update, settled, wraps, same]

theorem down_counts (counts : Counts n d) (settled : d.flag timFlagUpdate = false) :
    Counts (n - 1) (countDown d edges) := by
  obtain ⟨cnt, wraps⟩ := counts
  rw [pending_settled settled] at wraps
  rw [flag_update] at settled
  rw [countDown]
  split
  · rename_i bottom
    have first : d.cnt.toNat = 0 := congrArg BitVec.toNat bottom
    have wrapped : n / 32768 - 0 = (n - 1) / 32768 - -1 := by lia
    refine ⟨?_, ?_⟩
    · change ((32767 : Nat) : Int) = _
      lia
    · simp [pending, flag_update, wraps, wrapped]
  · rename_i above
    have inside : d.cnt.toNat ≠ 0 := fun first => above (BitVec.eq_of_toNat_eq first)
    have same : n / 32768 - 0 = (n - 1) / 32768 - 0 := by lia
    refine ⟨?_, ?_⟩
    · simp only
      bv_omega
    · simp [pending, flag_update, settled, wraps, same]

theorem settled_counts (cnt : (d.cnt.toNat : Int) = n % 32768) (settled : d.flag timFlagUpdate = false)
    (wraps : d.overUnderFlowcount = BitVec.ofInt 32 (n / 32768)) :
    Counts n ([timFlagCc1, timFlagCc2, timFlagCc3, timFlagCc4, timFlagBreak, timFlagTrigger, timFlagCom].foldl
      clearIt d) := by
  have kept := clearIts_kept _ otherFlags_bit d
  refine ⟨by rw [kept.1]; exact cnt, ?_⟩
  rw [pending_settled (kept.2.2.trans settled), kept.2.1, Int.sub_zero]
  exact wraps

theorem isr_counts (counts : Counts n d) : Counts n (pulseEncoderUpdateIsr d) := by
  obtain ⟨cnt, wraps⟩ := counts
  simp only [pulseEncoderUpdateIsr]
  split
  · rename_i update
    rw [pending, if_pos update] at wraps
    split
    · rename_i down
      have counted : n / 32768 - -1 = n / 32768 + 1 := by lia
      rw [if_pos down, counted, BitVec.ofInt_add] at wraps
      refine settled_counts cnt (by simp [flag_update]) ?_
      rw [wraps]
      exact BitVec.add_sub_cancel _ _
    · rename_i up
      have counted : n / 32768 = n / 32768 - 1 + 1 := by lia
      rw [if_neg up] at wraps
      refine settled_counts cnt (by simp [flag_update]) ?_
      rw [wraps, counted, BitVec.ofInt_add]
      simp
  · rename_i settled
    have settled : d.flag timFlagUpdate = false := by simpa using settled
    rw [pending_settled settled, Int.sub_zero] at wraps
    exact settled_counts cnt settled wraps

theorem step_counts (counts : Counts (net tr) d) (allowed : Guard d a) (taken : step d a = some (d', es)) :
    Counts (net (tr ++ es)) d' := by
  cases a with
  | up edges =>
    simp only [step] at taken
    split at taken
    · cases taken
    · rename_i settled
      cases taken
      rw [net_snoc]
      exact up_counts counts (by simpa using settled)
  | down edges =>
    simp only [step] at taken
    split at taken
    · cases taken
    · rename_i settled
      cases taken
      rw [net_snoc]
      exact down_counts counts (by simpa using settled)
  | isr =>
    cases taken
    rw [List.append_nil]
    exact isr_counts counts
  | clear =>
    cases taken
    rw [net_snoc]
    have settled := pending_settled (d := pulseEncoderClearCount d) (allowed rfl)
    exact ⟨rfl, by rw [settled]; rfl⟩

theorem run_counts (run : RunWhere machine Guard tr d) : Counts (net tr) d := by
  apply run.invariant (I := fun tr d => Counts (net tr) d)
  · intro d start
    refine ⟨by rw [start.cnt]; rfl, ?_⟩
    rw [pending_settled start.update, start.count]
    rfl
  · intro tr d a d' es _ counts allowed taken
    exact step_counts counts allowed taken

theorem get_count (counts : Counts n d) (settled : d.flag timFlagUpdate = false) (low : -2 ^ 31 ≤ n)
    (high : n < 2 ^ 31) : (pulseEncoderGetCount d).toInt = n - n / 32768 := by
  obtain ⟨cnt, wraps⟩ := counts
  rw [pending_settled settled] at wraps
  have small : d.cnt.toNat ≤ 32767 := by lia
  have positive : (d.cnt.setWidth 16).msb = false := by
    rw [BitVec.msb_eq_false_iff_two_mul_lt, BitVec.toNat_setWidth]
    lia
  have reading : (d.cnt.setWidth 16).signExtend 32 = BitVec.ofInt 32 (n % 32768) := by
    rw [BitVec.signExtend_eq_setWidth_of_msb_false positive, ← cnt, BitVec.ofInt_natCast, BitVec.ofNat_toNat]
    apply BitVec.eq_of_toNat_eq
    simp only [BitVec.toNat_setWidth]
    lia
  have product : d.overUnderFlowcount * autoReloadValue = BitVec.ofInt 32 (n / 32768 * 32767) := by
    rw [wraps, BitVec.ofInt_mul, Int.sub_zero]
    rfl
  have whole : n % 32768 + n / 32768 * 32767 = n - n / 32768 := by lia
  rw [pulseEncoderGetCount, reading, product, ← BitVec.ofInt_add, whole, BitVec.toInt_ofInt]
  apply Int.bmod_eq_of_le_mul_two <;> lia

/-- The count is right as long as there is no wrap in it. -/
theorem encoder_counts (run : RunWhere machine Guard tr d) (settled : d.flag timFlagUpdate = false)
    (low : -2 ^ 31 ≤ net tr) (high : net tr < 2 ^ 31) :
    (pulseEncoderGetCount d).toInt = net tr ↔ 0 ≤ net tr ∧ net tr ≤ autoReloadValue.toNat := by
  have period : autoReloadValue.toNat = 32767 := rfl
  rw [get_count (run_counts run) settled low high, period]
  lia

def startDevice : Device := ⟨0, 0, false, 0⟩

theorem startDevice_start : Start startDevice := ⟨rfl, rfl, rfl⟩

def guardChecked (d : Device) (a : Action) : Bool := !(a == .clear && d.flag timFlagUpdate)

theorem guardChecked_sound (d : Device) (a : Action) (checked : guardChecked d a = true) : Guard d a := by
  rintro rfl
  simpa [guardChecked] using checked

/-- Up over the end of the period and back again, then twice up. -/
theorem encoder_counts_two : ∃ d, RunWhere machine Guard [.down, .up, .up, .up] d ∧
    (pulseEncoderGetCount d).toInt = 2 := by
  obtain ⟨d, run, settled⟩ := Run.shows (M := machine.restrict guardChecked) (s := startDevice) startDevice_start
    [.down timFlagCc1, .isr, .up timFlagCc2, .isr, .up timFlagCc1, .isr, .up timFlagCc2] [.down, .up, .up, .up]
    (fun d => !d.flag timFlagUpdate) (by decide +kernel)
  have guarded : RunWhere machine Guard [.down, .up, .up, .up] d :=
    RunWhere.ofRestrict (fun _ d a _ => guardChecked_sound d a) run
  have settled : d.flag timFlagUpdate = false := by simpa using settled
  exact ⟨d, guarded, (encoder_counts guarded settled (by decide) (by decide)).mpr (by decide)⟩

/-- One step down from 0 and its interrupt: the count is 0 again. -/
theorem encoder_miscounts : ∃ d, RunWhere machine Guard [.down] d ∧ d.flag timFlagUpdate = false ∧
    net [.down] = -1 ∧ (pulseEncoderGetCount d).toInt = 0 := by
  obtain ⟨d, run, found⟩ := Run.shows (M := machine.restrict guardChecked) (s := startDevice) startDevice_start
    [.down timFlagCc1, .isr] [.down]
    (fun d => !d.flag timFlagUpdate && decide ((pulseEncoderGetCount d).toInt = 0)) (by decide +kernel)
  have guarded : RunWhere machine Guard [.down] d :=
    RunWhere.ofRestrict (fun _ d a _ => guardChecked_sound d a) run
  simp only [Bool.and_eq_true, Bool.not_eq_true', decide_eq_true_eq] at found
  exact ⟨d, guarded, found.1, rfl, found.2⟩

end RtThread.PulseEncoder
