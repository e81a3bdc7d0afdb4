import Mathlib.Logic.Function.Basic
import RtThread.Run

/-! Transfers on an SPI bus (spi_core.c) with spixfer of the driver (drv_spi.c): any number of
threads and of devices with their chip selects, in any interleaving. Which HAL function moves
the data does not matter here, only whether it succeeds. -/
namespace RtThread.SpiBus
open Transition

def rtEok : Int := 0
def rtEio : Int := 8

/-- One of the three calls with its lengths. -/
inductive Call where
  | sendThenSend (sendLength1 sendLength2 : Nat)
  | sendThenRecv (sendLength recvLength : Nat)
  | transfer (length : Nat)
  deriving DecidableEq

structure Message where
  length : Nat
  csTake : Bool
  csRelease : Bool

def Call.two : Call → Bool
  | .transfer _ => false
  | _ => true

/-- The first message of a call, and the second one if there are two. -/
def Call.message : Call → Bool → Message
  | .sendThenSend n _, false => ⟨n, true, false⟩
  | .sendThenSend _ n, true => ⟨n, false, true⟩
  | .sendThenRecv n _, false => ⟨n, true, false⟩
  | .sendThenRecv _ n, true => ⟨n, false, true⟩
  | .transfer n, _ => ⟨n, true, true⟩

/-- What is returned after a message for which spixfer has returned `length`. -/
def Call.result (c : Call) (length : Nat) : Int :=
  if c.two then (if length = 0 then -rtEio else rtEok) else length

/-- Where a thread is in its call on the device `d`: in rt_mutex_take, in `configure`, at the
start of spixfer, in its loop with message_length left and message->length, or at __exit. -/
inductive Pc where
  | idle
  | take (d : Nat) (c : Call)
  | configure (d : Nat) (c : Call)
  | spixfer (d : Nat) (c : Call) (second : Bool)
  | loop (d : Nat) (c : Call) (second : Bool) (messageLength length : Nat)
  | exit (d : Nat) (result : Int)
  deriving DecidableEq

/-- `cs d` is the level of the chip select of `d`, high being true. `noCs`: RT_SPI_NO_CS. -/
structure State where
  lock : Option Nat
  owner : Option Nat
  noCs : Nat → Bool
  cs : Nat → Bool
  pc : Nat → Pc

inductive Action where
  | call (t d : Nat) (c : Call)
  | take (t : Nat) (ok : Bool)
  | configure (t : Nat) (ok : Bool)
  | enter (t : Nat)
  | chunk (t : Nat) (ok : Bool)
  | leave (t : Nat)
  | release (t : Nat)

inductive Event where
  | returned (t : Nat) (result : Int)

def State.goto (s : State) (t : Nat) (p : Pc) : State := { s with pc := Function.update s.pc t p }

def rtMutexTake (s : State) (t : Nat) (ok : Bool) : Option (State × List Event) :=
  match s.pc t with
  | .take d c =>
    if ok then
      if s.lock = none then
        let s := { s with lock := some t }
        if s.owner ≠ some d then some (s.goto t (.configure d c), [])
        else some (s.goto t (.spixfer d c false), [])
      else none
    else some (s.goto t .idle, [.returned t (c.result 0)])
  | _ => none

def configure (s : State) (t : Nat) (ok : Bool) : Option (State × List Event) :=
  match s.pc t with
  | .configure d c =>
    if ok then some ({ s with owner := some d }.goto t (.spixfer d c false), [])
    else some (s.goto t (.exit d (c.result 0)), [])
  | _ => none

def spixferEnter (s : State) (t : Nat) : Option (State × List Event) :=
  match s.pc t with
  | .spixfer d c second =>
    let message := c.message second
    let s := if message.csTake && !s.noCs d then { s with cs := Function.update s.cs d false } else s
    some (s.goto t (.loop d c second message.length message.length), [])
  | _ => none

/-- A pass of the loop in spixfer; `ok` is the answer of the HAL. -/
def spixferChunk (s : State) (t : Nat) (ok : Bool) : Option (State × List Event) :=
  match s.pc t with
  | .loop d c second messageLength length =>
    if messageLength = 0 then none
    else
      let messageLength := if messageLength > 65535 then messageLength - 65535 else 0
      some (s.goto t (.loop d c second messageLength (if ok then length else 0)), [])
  | _ => none

def spixferLeave (s : State) (t : Nat) : Option (State × List Event) :=
  match s.pc t with
  | .loop d c second 0 length =>
    let message := c.message second
    let s := if message.csRelease && !s.noCs d then { s with cs := Function.update s.cs d true } else s
    if length = 0 then some (s.goto t (.exit d (c.result 0)), [])
    else if c.two && !second then some (s.goto t (.spixfer d c true), [])
    else some (s.goto t (.exit d (c.result length)), [])
  | _ => none

def rtMutexRelease (s : State) (t : Nat) : Option (State × List Event) :=
  match s.pc t with
  | .exit _ result => some ({ s with lock := none }.goto t .idle, [.returned t result])
  | _ => none

def step (s : State) : Action → Option (State × List Event)
  | .call t d c => if s.pc t = .idle then some (s.goto t (.take d c), []) else none
  | .take t ok => rtMutexTake s t ok
  | .configure t ok => configure s t ok
  | .enter t => spixferEnter s t
  | .chunk t ok => spixferChunk s t ok
  | .leave t => spixferLeave s t
  | .release t => rtMutexRelease s t

/-- Attached devices, all with a chip select, and no call under way. -/
structure Start (s : State) : Prop where
  lock : s.lock = none
  noCs : ∀ d, s.noCs d = false
  cs : ∀ d, s.cs d = true
  pc : ∀ t, s.pc t = .idle

def machine : Machine State Action Event where
  start := Start
  step := step

/-- The device of a call that has the bus. -/
def Pc.device : Pc → Option Nat
  | .idle | .take _ _ => none
  | .configure d _ | .spixfer d _ _ | .loop d _ _ _ _ | .exit d _ => some d

structure Discipline (s : State) : Prop where
  free : s.lock = none → ∀ d, s.cs d = true
  alone : ∀ t d, (s.pc t).device = some d → ∀ e, e ≠ d → s.cs e = true

def FirstPasses (s : State) : Action → Prop
  | .call _ _ c => c.two = true → (c.message false).length ≠ 0
  | .chunk t ok => ∀ d c n length, s.pc t = .loop d c false n length → c.two = true → ok = true
  | _ => True

/-- The thread is between taking and releasing the chip select of `e`. -/
def Pc.selects (e : Nat) : Pc → Prop
  | .spixfer d _ true | .loop d _ _ _ _ => d = e
  | _ => False

/-- The first of two messages has not failed. -/
def Pc.Sound : Pc → Prop
  | .take _ c | .configure _ c | .spixfer _ c false => c.two = true → (c.message false).length ≠ 0
  | .spixfer _ c true => c.two = true
  | .loop _ c false _ length => c.two = true → length ≠ 0
  | .loop _ c true _ _ => c.two = true
  | _ => True

structure Inv (s : State) : Prop where
  noCs : ∀ d, s.noCs d = false
  holder : ∀ t, (∃ d, (s.pc t).device = some d) ↔ s.lock = some t
  low : ∀ d, s.cs d = false ↔ ∃ t, (s.pc t).selects d
  sound : ∀ t, (s.pc t).Sound

variable {s s' : State} {es : List Event} {t d : Nat} {c : Call} {p : Pc} {tr : List Event}

@[simp] theorem selects_idle : ¬ Pc.idle.selects d := id
@[simp] theorem selects_take {e : Nat} : ¬ (Pc.take e c).selects d := id
@[simp] theorem selects_configure {e : Nat} : ¬ (Pc.configure e c).selects d := id
@[simp] theorem selects_first {e : Nat} : ¬ (Pc.spixfer e c false).selects d := id
@[simp] theorem selects_second {e : Nat} : (Pc.spixfer e c true).selects d ↔ e = d := Iff.rfl
@[simp] theorem selects_loop {e n length : Nat} {second : Bool} :
    (Pc.loop e c second n length).selects d ↔ e = d := Iff.rfl
@[simp] theorem selects_exit {e : Nat} {result : Int} : ¬ (Pc.exit e result).selects d := id

theorem selects_device (selects : p.selects d) : p.device = some d := by
  cases p with
  | spixfer e c second =>
    cases second with
    | false => exact selects.elim
    | true => exact congrArg some selects
  | loop e c second n length => exact congrArg some selects
  | idle => exact selects.elim
  | take e c => exact selects.elim
  | configure e c => exact selects.elim
  | exit e result => exact selects.elim

theorem start_inv (start : Start s) : Inv s := by
  refine ⟨start.noCs, ?_, ?_, ?_⟩
  · intro t
    simp [start.pc, start.lock, Pc.device]
  · intro d
    simp [start.cs, start.pc]
  · intro t
    simp [start.pc, Pc.Sound]

theorem Inv.discipline (inv : Inv s) : Discipline s := by
  constructor
  · intro free d
    by_contra low
    obtain ⟨t, selects⟩ := (inv.low d).mp (by simpa using low)
    have held := (inv.holder t).mp ⟨d, selects_device selects⟩
    rw [free] at held
    cases held
  · intro t d runs e other
    by_contra low
    obtain ⟨u, selects⟩ := (inv.low e).mp (by simpa using low)
    have mine := (inv.holder t).mp ⟨d, runs⟩
    have theirs := (inv.holder u).mp ⟨e, selects_device selects⟩
    rw [mine] at theirs
    cases Option.some.inj theirs
    rw [selects_device selects] at runs
    exact other (Option.some.inj runs)

theorem Inv.only {u e : Nat} (inv : Inv s) (first : (s.pc t).device = some d) (second : (s.pc u).selects e) :
    u = t := by
  have mine := (inv.holder t).mp ⟨d, first⟩
  have theirs := (inv.holder u).mp ⟨e, selects_device second⟩
  rw [mine] at theirs
  exact (Option.some.inj theirs).symm

/-- The thread `t` goes on to `p`; the levels change as the selections of `t` do. -/
theorem Inv.move (inv : Inv s) (t : Nat) (p : Pc) (lock owner : Option Nat) (cs : Nat → Bool)
    (held : (∃ d, p.device = some d) ↔ lock = some t)
    (others : ∀ u, u ≠ t → (lock = some u ↔ s.lock = some u))
    (low : ∀ d, cs d = false ↔ p.selects d ∨ ∃ u, u ≠ t ∧ (s.pc u).selects d)
    (sound : p.Sound) : Inv ({ s with lock := lock, owner := owner, cs := cs }.goto t p) := by
  have self : ({ s with lock := lock, owner := owner, cs := cs }.goto t p).pc t = p := Function.update_self ..
  have rest : ∀ u, u ≠ t → ({ s with lock := lock, owner := owner, cs := cs }.goto t p).pc u = s.pc u :=
    fun u other => Function.update_of_ne other _ _
  refine ⟨inv.noCs, ?_, ?_, ?_⟩
  · intro u
    by_cases here : u = t
    · rw [here, self]
      exact held
    · rw [rest u here]
      exact (inv.holder u).trans (others u here).symm
  · intro d
    refine (low d).trans ⟨?_, ?_⟩
    · rintro (selects | ⟨u, other, selects⟩)
      · exact ⟨t, by rw [self]; exact selects⟩
      · exact ⟨u, by rw [rest u other]; exact selects⟩
    · rintro ⟨u, selects⟩
      by_cases here : u = t
      · rw [here, self] at selects
        exact Or.inl selects
      · rw [rest u here] at selects
        exact Or.inr ⟨u, here, selects⟩
  · intro u
    by_cases here : u = t
    · rw [here, self]
      exact sound
    · rw [rest u here]
      exact inv.sound u

theorem Inv.low_split (inv : Inv s) (t d : Nat) :
    s.cs d = false ↔ (s.pc t).selects d ∨ ∃ u, u ≠ t ∧ (s.pc u).selects d := by
  rw [inv.low d]
  constructor
  · rintro ⟨u, selects⟩
    by_cases here : u = t
    · exact Or.inl (here ▸ selects)
    · exact Or.inr ⟨u, here, selects⟩
  · rintro (selects | ⟨u, _, selects⟩)
    · exact ⟨t, selects⟩
    · exact ⟨u, selects⟩

theorem Inv.walk (inv : Inv s) (t : Nat) (p : Pc) (owner : Option Nat)
    (held : (∃ d, p.device = some d) ↔ ∃ d, (s.pc t).device = some d)
    (same : ∀ d, p.selects d ↔ (s.pc t).selects d) (sound : p.Sound) :
    Inv ({ s with owner := owner }.goto t p) := by
  refine inv.move t p s.lock owner s.cs (held.trans (inv.holder t)) (fun _ _ => Iff.rfl) ?_ sound
  intro d
  rw [same d]
  exact inv.low_split t d

theorem take_inv {ok : Bool} (inv : Inv s) (taken : rtMutexTake s t ok = some (s', es)) : Inv s' := by
  have sound := inv.sound t
  simp only [rtMutexTake] at taken
  split at taken
  · rename_i d c at_
    rw [at_] at sound
    split at taken
    · split at taken
      · rename_i free
        have move : ∀ p : Pc, p.device = some d → (∀ e, ¬ p.selects e) → p.Sound →
            Inv ({ s with lock := some t }.goto t p) := by
          intro p device unselected sound
          refine inv.move t p (some t) s.owner s.cs (by simp [device]) ?_ ?_ sound
          · intro u other
            simp [free, other.symm]
          · intro e
            rw [inv.low_split t e, at_]
            simp [unselected e]
        split at taken <;> cases Option.some.inj taken
        · exact move _ rfl (fun _ => id) sound
        · exact move _ rfl (fun _ => id) sound
      · cases taken
    · cases Option.some.inj taken
      exact inv.walk t .idle s.owner (by simp [at_, Pc.device]) (by simp [at_]) trivial
  · cases taken

theorem configure_inv {ok : Bool} (inv : Inv s) (taken : configure s t ok = some (s', es)) : Inv s' := by
  have sound := inv.sound t
  simp only [configure] at taken
  split at taken
  · rename_i d c at_
    rw [at_] at sound
    split at taken <;> cases Option.some.inj taken
    · exact inv.walk t _ (some d) (by simp [at_, Pc.device]) (by simp [at_]) sound
    · exact inv.walk t _ s.owner (by simp [at_, Pc.device]) (by simp [at_]) trivial
  · cases taken

theorem csTake_eq (c : Call) (second : Bool) : (c.message second).csTake = (!second || !c.two) := by
  cases c <;> cases second <;> rfl

theorem csRelease_eq (c : Call) (second : Bool) : (c.message second).csRelease = (second || !c.two) := by
  cases c <;> cases second <;> rfl

theorem enter_inv (inv : Inv s) (taken : spixferEnter s t = some (s', es)) : Inv s' := by
  have sound := inv.sound t
  simp only [spixferEnter] at taken
  split at taken
  · rename_i d c second at_
    rw [at_] at sound
    have held : (∃ e, (Pc.loop d c second (c.message second).length (c.message second).length).device = some e) ↔
        s.lock = some t := by
      rw [← inv.holder t, at_]
      rfl
    simp only [csTake_eq, inv.noCs, Bool.not_false, Bool.and_true] at taken
    cases second with
    | false =>
      cases Option.some.inj taken
      refine inv.move t _ s.lock s.owner _ held (fun _ _ => Iff.rfl) ?_ sound
      intro e
      by_cases here : e = d
      · simp [here]
      · rw [Function.update_of_ne here, inv.low_split t e, at_]
        simp [Ne.symm here]
    | true =>
      have two : c.two = true := sound
      simp only [two, Bool.not_true, Bool.or_false, Bool.false_eq_true, if_false] at taken
      cases Option.some.inj taken
      exact inv.walk t _ s.owner (by simp [at_, Pc.device]) (by simp [at_]) two
  · cases taken

theorem chunk_inv {ok : Bool} (inv : Inv s) (passes : FirstPasses s (.chunk t ok))
    (taken : spixferChunk s t ok = some (s', es)) : Inv s' := by
  have sound := inv.sound t
  simp only [spixferChunk] at taken
  split at taken
  · rename_i d c second n length at_
    rw [at_] at sound
    split at taken
    · cases taken
    · cases Option.some.inj taken
      refine inv.walk t _ s.owner (by simp [at_, Pc.device]) (by simp [at_]) ?_
      cases second with
      | false =>
        intro two
        rw [if_pos (passes d c n length at_ two)]
        exact sound two
      | true => exact sound
  · cases taken

theorem leave_inv (inv : Inv s) (taken : spixferLeave s t = some (s', es)) : Inv s' := by
  have sound := inv.sound t
  simp only [spixferLeave] at taken
  split at taken
  · rename_i d c second length at_
    rw [at_] at sound
    have exits : ∀ result, (second || !c.two) = true →
        Inv ({ s with cs := Function.update s.cs d true }.goto t (.exit d result)) := by
      intro result last
      refine inv.move t _ s.lock s.owner _ ?_ (fun _ _ => Iff.rfl) ?_ trivial
      · rw [← inv.holder t, at_]
        rfl
      · intro e
        by_cases here : e = d
        · have alone : ∀ u, u ≠ t → ¬ (s.pc u).selects d := fun u other selects =>
            other (inv.only (d := d) (by simp [at_, Pc.device]) selects)
          simpa [here] using alone
        · rw [Function.update_of_ne here, inv.low_split t e, at_]
          simp [Ne.symm here]
    simp only [csRelease_eq, inv.noCs, Bool.not_false, Bool.and_true] at taken
    cases last : (second || !c.two) with
    | true =>
      have notFirst : (c.two && !second) = false := by
        revert last
        cases c.two <;> cases second <;> simp
      simp only [last, notFirst, if_true, Bool.false_eq_true, if_false] at taken
      split at taken <;> cases Option.some.inj taken
      · exact exits _ last
      · exact exits _ last
    | false =>
      obtain ⟨first, two⟩ : second = false ∧ c.two = true := by
        revert last
        cases c.two <;> cases second <;> simp
      subst first
      simp only [two, Bool.not_true, Bool.or_false, Bool.false_eq_true, if_false, Bool.not_false, Bool.and_true,
        if_true, if_neg (sound two)] at taken
      cases Option.some.inj taken
      exact inv.walk t _ s.owner (by simp [at_, Pc.device]) (by simp [at_]) two
  · cases taken

theorem release_inv (inv : Inv s) (taken : rtMutexRelease s t = some (s', es)) : Inv s' := by
  simp only [rtMutexRelease] at taken
  split at taken
  · rename_i d result at_
    cases Option.some.inj taken
    have mine : s.lock = some t := (inv.holder t).mp ⟨d, by simp [at_, Pc.device]⟩
    refine inv.move t .idle none s.owner s.cs (by simp [Pc.device]) ?_ ?_ trivial
    · intro u other
      simp [mine, other.symm]
    · intro e
      rw [inv.low_split t e, at_]
      simp
  · cases taken

theorem step_inv {a : Action} (inv : Inv s) (passes : FirstPasses s a) (taken : step s a = some (s', es)) :
    Inv s' := by
  cases a with
  | call t d c =>
    simp only [step] at taken
    split at taken
    · rename_i at_
      cases Option.some.inj taken
      exact inv.walk t _ s.owner (by simp [at_, Pc.device]) (by simp [at_]) passes
    · cases taken
  | take t ok => exact take_inv inv taken
  | configure t ok => exact configure_inv inv taken
  | enter t => exact enter_inv inv taken
  | chunk t ok => exact chunk_inv inv passes taken
  | leave t => exact leave_inv inv taken
  | release t => exact release_inv inv taken

theorem run_inv (run : RunWhere machine FirstPasses tr s) : Inv s :=
  run.invariant (I := fun _ => Inv) (fun _ => start_inv) (fun _ _ _ _ _ _ inv passes taken => step_inv inv passes taken)

theorem failed_first (n : Nat) (s : State) (two : c.two = true) (at_ : s.pc t = .loop d c false n 0)
    (low : s.cs d = false) : ∃ as s' es, machine.exec s as = some (s', es) ∧ s'.lock = none ∧ s'.cs d = false := by
  induction n using Nat.strongRecOn generalizing s with
  | ind n ih =>
    by_cases done : n = 0
    · subst done
      have keeps : (c.message false).csRelease = false := by simp [csRelease_eq, two]
      refine ⟨[.leave t, .release t], { s.goto t (.exit d (c.result 0)) with lock := none }.goto t .idle,
        [.returned t (c.result 0)], ?_, rfl, low⟩
      simp [Machine.exec, machine, step, spixferLeave, rtMutexRelease, at_, keeps, State.goto]
    · obtain ⟨m, isM⟩ : ∃ m, m = s.goto t (.loop d c false (if n > 65535 then n - 65535 else 0) 0) := ⟨_, rfl⟩
      have less : (if n > 65535 then n - 65535 else 0) < n := by
        split <;> omega
      have chunk : machine.step s (.chunk t true) = some (m, []) := by
        simp [machine, step, spixferChunk, at_, done, isM]
      obtain ⟨as, s', es, rest, ends⟩ := ih _ less m (by simp [isM, State.goto]) (by rw [isM]; exact low)
      exact ⟨.chunk t true :: as, s', es, by simp [Machine.exec, chunk, rest], ends⟩

/-- As long as no first of two messages fails, the chip selects are high between the calls and
beside the one that runs; an error of the HAL in such a message leaves its one low. -/
theorem chip_selects_high (run : RunWhere machine FirstPasses tr s) : Discipline s ∧
    ∀ t d c n length m es, s.pc t = .loop d c false n length → c.two = true →
      step s (.chunk t false) = some (m, es) → ∃ as s' es', machine.exec m as = some (s', es') ∧ ¬ Discipline s' := by
  have inv := run_inv run
  refine ⟨inv.discipline, ?_⟩
  intro t d c n length m es at_ two taken
  have low : s.cs d = false := (inv.low d).mpr ⟨t, by simp [at_]⟩
  simp only [step, spixferChunk, at_] at taken
  split at taken
  · cases taken
  · cases Option.some.inj taken
    obtain ⟨as, s', es', done, free, still⟩ := failed_first (t := t) _
      (s.goto t (.loop d c false (if n > 65535 then n - 65535 else 0) 0)) two (Function.update_self ..) low
    refine ⟨as, s', es', done, fun discipline => ?_⟩
    rw [discipline.free free d] at still
    cases still

def attached : State := ⟨none, none, fun _ => false, fun _ => true, fun _ => .idle⟩

/-- No call has an empty first message, and the HAL fails at most in a transfer. -/
def plain (s : State) : Action → Bool
  | .call _ _ c => (c.message false).length ≠ 0
  | .chunk t ok =>
    ok || (match s.pc t with
      | .loop _ c _ _ _ => !c.two
      | _ => false)
  | _ => true

theorem plain_firstPasses {a : Action} (test : plain s a = true) : FirstPasses s a := by
  cases a with
  | call t d c =>
    intro _
    simpa [plain] using test
  | chunk t ok =>
    intro d c n length at_ two
    simpa [plain, at_, two] using test
  | take t ok => trivial
  | configure t ok => trivial
  | enter t => trivial
  | leave t => trivial
  | release t => trivial

/-- A transfer of two chunks fails while another thread waits to send and receive. -/
theorem chip_selects_high_two_threads : ∃ s, Discipline s ∧ s.lock = some 1 ∧ s.cs 7 = false := by
  obtain ⟨tr, s, run, found⟩ := Run.reaches (M := machine.restrict plain) (s := attached)
    ⟨rfl, fun _ => rfl, fun _ => rfl, fun _ => rfl⟩
    [.call 0 5 (.transfer 70000), .call 1 7 (.sendThenRecv 1 4), .take 0 true, .configure 0 true, .enter 0,
      .chunk 0 true, .chunk 0 false, .leave 0, .release 0, .take 1 true, .configure 1 true, .enter 1,
      .chunk 1 true, .leave 1]
    (fun s => decide (s.lock = some 1) && !s.cs 7) (by decide)
  have guarded : RunWhere machine FirstPasses tr s := .ofRestrict (fun _ _ _ _ => plain_firstPasses) run
  simp only [Bool.and_eq_true, decide_eq_true_eq, Bool.not_eq_true'] at found
  exact ⟨s, (chip_selects_high guarded).1, found.1, found.2⟩

/-- The first message of a call fails: the bus is free and the device still selected. -/
theorem chip_select_left_low : ¬ ∀ tr s, Run machine tr s → Discipline s := by
  intro discipline
  obtain ⟨tr, s, run, found⟩ := Run.reaches (M := machine) (s := attached)
    ⟨rfl, fun _ => rfl, fun _ => rfl, fun _ => rfl⟩
    [.call 0 5 (.sendThenRecv 1 4), .take 0 true, .configure 0 true, .enter 0, .chunk 0 false, .leave 0, .release 0]
    (fun s => decide (s.lock = none) && !s.cs 5) (by decide)
  simp only [Bool.and_eq_true, decide_eq_true_eq, Bool.not_eq_true'] at found
  rw [(discipline tr s run).free found.1 5] at found
  cases found.2

end RtThread.SpiBus
