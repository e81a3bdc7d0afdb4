import RtThread.Mailbox
import RtThread.MessageQueue

/-! Calls that wait in a loop and work out anew, each time they are woken, what is left of their
timeout. First what the loop does to a deadline, for any machine that has such calls, then the loops
of rt_mb_send_wait, rt_mb_recv, rt_mq_send_wait and rt_mq_recv. -/
namespace RtThread.Deadline
open Kernel Transition

/-- What a machine shows of its waiting calls. `kept s t`: thread `t` is in the loop, with so much
of its timeout left when it was suspended last, at the tick it read then. `call a` is the entry of a
thread with a timeout, `turn a` the thread that comes back from rt_schedule. `missing`: what `t`
waits for is not there. `refused` is the return with the error of an object that has nothing. -/
structure Waiting (S A E : Type) where
  machine : Machine S A E
  kernel : S → Kernel
  kept : S → Tid → Option (Int × Nat)
  call : A → Option (Tid × Int)
  turn : A → Option Tid
  missing : S → Tid → Prop
  refused : S → Tid → List E

variable {S A E : Type} {w : Waiting S A E} {s s' : S} {a : A} {t : Tid} {es : List E}

/-- The ticks since the last suspension. -/
def elapsed (tickDelta now : Nat) : Nat := (now + 2 ^ 32 - tickDelta) % 2 ^ 32

namespace Waiting

/-- The step suspends `t` with `left` ticks to wait, unless it waits forever. -/
def Suspends (w : Waiting S A E) (s s' : S) (t : Tid) (left : Int) (tickDelta : Nat) : Prop :=
  left ≠ 0 ∧ (0 < left → tickDelta = (w.kernel s).tick ∧ ((w.kernel s').thread t).stat = .suspend ∧
    ((w.kernel s').thread t).timer = ⟨left.toNat, true⟩)

/-- A step of `t` into or through its loop, with `timeout` left. -/
structure Section (w : Waiting S A E) (s s' : S) (t : Tid) (timeout : Int) : Prop where
  others : ∀ u, u ≠ t → w.kept s' u = w.kept s u
  tick : (w.kernel s').tick = (w.kernel s).tick
  suspends : ∀ left tickDelta, w.kept s' t = some (left, tickDelta) →
    left = timeout ∧ w.Suspends s s' t left tickDelta

/-- What is asked of the steps of a machine. -/
structure Lawful (w : Waiting S A E) : Prop where
  enter : ∀ {s a s' es t timeout}, w.machine.step s a = some (s', es) → w.call a = some (t, timeout) →
    w.kept s t = none ∧ w.Section s s' t timeout
  again : ∀ {s a s' es t left tickDelta}, w.machine.step s a = some (s', es) → w.turn a = some t →
    w.kept s t = some (left, tickDelta) →
    w.Section s s' t (remainingTime left tickDelta (w.kernel s).tick)
  behind : ∀ {s a s' es t}, w.machine.step s a = some (s', es) → w.turn a = some t → w.kept s t = none →
    w.kept s' = w.kept s ∧ (w.kernel s').tick = (w.kernel s).tick
  rest : ∀ {s a s' es}, w.machine.step s a = some (s', es) → w.call a = none → w.turn a = none →
    w.kept s' = w.kept s ∧
      ((w.kernel s').tick = (w.kernel s).tick ∨ (w.kernel s').tick = ((w.kernel s).tick + 1) % 2 ^ 32)
  expired : ∀ {s a t left tickDelta}, w.turn a = some t → w.kept s t = some (left, tickDelta) →
    ((w.kernel s).thread t).stat = .ready → ((w.kernel s).thread t).error = .eok → w.missing s t →
    remainingTime left tickDelta (w.kernel s).tick = 0 →
    ∃ s', w.machine.step s a = some (s', w.refused s t) ∧ w.kept s' t = none

/-- Less than 2^31 ticks have passed in the round. -/
def Soon (w : Waiting S A E) (s : S) (t : Tid) : Prop :=
  ∀ left tickDelta, w.kept s t = some (left, tickDelta) → elapsed tickDelta (w.kernel s).tick < 2 ^ 31

/-- `t` has come into its call with `timeout`, was suspended at tick `first`, and has been in the
call since, for any number of rounds and whatever else went on. -/
inductive Waits (w : Waiting S A E) (t : Tid) (timeout : Int) (first : Nat) : S → Prop where
  | enter {tr es : List E} {s s' : S} {a : A} : Run w.machine tr s → (w.kernel s).tick < 2 ^ 32 →
      first = (w.kernel s).tick → w.call a = some (t, timeout) → w.machine.step s a = some (s', es) →
      w.kept s' t ≠ none → Waits w t timeout first s'
  | on {es : List E} {s s' : S} {a : A} : Waits w t timeout first s → w.machine.step s a = some (s', es) →
      (w.turn a = some t → w.Soon s t) → w.kept s' t ≠ none → Waits w t timeout first s'

/-- A finite wait with one deadline: the tick of each suspension and what is left then add up to
the tick of the first one and the timeout. -/
structure OneDeadline (w : Waiting S A E) : Prop where
  deadline : ∀ {t} {timeout : Int} {first s}, 0 < timeout → timeout < (rtTickMax / 2 : Nat) →
    w.Waits t timeout first s → ∃ left tickDelta, w.kept s t = some (left, tickDelta) ∧ 0 < left ∧
      left ≤ timeout ∧ ((tickDelta : Int) + left) % 2 ^ 32 = ((first : Int) + timeout) % 2 ^ 32
  first : ∀ {t} {timeout : Int} {s a s' es left tickDelta}, 0 < timeout → timeout < (rtTickMax / 2 : Nat) →
    w.call a = some (t, timeout) → w.machine.step s a = some (s', es) → w.kept s' t = some (left, tickDelta) →
    left = timeout ∧ tickDelta = (w.kernel s).tick ∧ ((w.kernel s').thread t).stat = .suspend ∧
      ((w.kernel s').thread t).timer = ⟨timeout.toNat, true⟩
  again : ∀ {t} {timeout : Int} {first s a s' es left tickDelta}, 0 < timeout → timeout < (rtTickMax / 2 : Nat) →
    w.Waits t timeout first s → w.turn a = some t → w.Soon s t → w.machine.step s a = some (s', es) →
    w.kept s' t = some (left, tickDelta) → 0 < left ∧ tickDelta = (w.kernel s).tick ∧
      ((w.kernel s').thread t).stat = .suspend ∧ ((w.kernel s').thread t).timer = ⟨left.toNat, true⟩
  ends : ∀ {t} {timeout : Int} {first s a left tickDelta}, 0 < timeout → timeout < (rtTickMax / 2 : Nat) →
    w.Waits t timeout first s → w.turn a = some t → w.Soon s t → w.kept s t = some (left, tickDelta) →
    ((w.kernel s).thread t).stat = .ready → ((w.kernel s).thread t).error = .eok → w.missing s t →
    left ≤ elapsed tickDelta (w.kernel s).tick →
    ∃ s', w.machine.step s a = some (s', w.refused s t) ∧ w.kept s' t = none

end Waiting

variable {left timeout : Int} {tickDelta now first : Nat}

theorem section_out (others : ∀ u, u ≠ t → w.kept s' u = w.kept s u) (tick : (w.kernel s').tick = (w.kernel s).tick)
    (out : w.kept s' t = none) : w.Section s s' t timeout := by
  refine ⟨others, tick, ?_⟩
  intro left tickDelta kept
  rw [out] at kept
  cases kept

theorem elapsed_tick (delta : tickDelta < 2 ^ 32) (tick : now < 2 ^ 32) :
    ((elapsed tickDelta now : Nat) : Int) = ((now : Int) - tickDelta) % 2 ^ 32 := by
  unfold elapsed
  lia

/-- The subtraction in the loop does not wrap: what is left is cut off at 0, or ends when the
timeout before did. -/
theorem remaining_cases (positive : 0 < left) (small : left < (rtTickMax / 2 : Nat))
    (delta : tickDelta < 2 ^ 32) (tick : now < 2 ^ 32) (soon : elapsed tickDelta now < 2 ^ 31) :
    (left ≤ elapsed tickDelta now ∧ remainingTime left tickDelta now = 0) ∨
      (elapsed tickDelta now < left ∧ 0 < remainingTime left tickDelta now ∧
        remainingTime left tickDelta now ≤ left ∧
        ((now : Int) + remainingTime left tickDelta now) % 2 ^ 32 = ((tickDelta : Int) + left) % 2 ^ 32) := by
  have passed := elapsed_tick delta tick
  have rest : remainingTime left tickDelta now = max 0 (left - elapsed tickDelta now) := by
    rw [remainingTime, if_pos positive]
    change max 0 (Int.bmod (left - (elapsed tickDelta now : Nat)) (2 ^ 32)) = _
    rw [Int.bmod_eq_of_le] <;> simp only [rtTickMax] at small <;> lia
  rw [rest]
  by_cases past : left ≤ elapsed tickDelta now
  · left
    exact ⟨past, by lia⟩
  · right
    exact ⟨by lia, by lia, by lia, by lia⟩

/-- What holds of a finite wait all the time. -/
structure Waiting.OnTime (w : Waiting S A E) (t : Tid) (timeout : Int) (first : Nat) (s : S)
    (left : Int) (tickDelta : Nat) : Prop where
  kept : w.kept s t = some (left, tickDelta)
  positive : 0 < left
  most : left ≤ timeout
  deadline : ((tickDelta : Int) + left) % 2 ^ 32 = ((first : Int) + timeout) % 2 ^ 32
  delta : tickDelta < 2 ^ 32
  tick : (w.kernel s).tick < 2 ^ 32

section
variable (lawful : w.Lawful)
include lawful

theorem step_cases (taken : w.machine.step s a = some (s', es)) (t : Tid) :
    ((∃ timeout, w.call a = some (t, timeout)) ∨ w.turn a = some t ∨ w.kept s' t = w.kept s t) ∧
      ((w.kernel s').tick = (w.kernel s).tick ∨ (w.kernel s').tick = ((w.kernel s).tick + 1) % 2 ^ 32) := by
  cases call : w.call a with
  | some caller =>
    obtain ⟨u, timeout⟩ := caller
    have entered := (lawful.enter taken call).2
    refine ⟨?_, Or.inl entered.tick⟩
    by_cases self : t = u
    · exact Or.inl ⟨timeout, by rw [self]⟩
    · exact Or.inr (Or.inr (entered.others t self))
  | none =>
    cases turn : w.turn a with
    | none =>
      obtain ⟨same, tick⟩ := lawful.rest taken call turn
      exact ⟨Or.inr (Or.inr (congrFun same t)), tick⟩
    | some u =>
      cases kept : w.kept s u with
      | none =>
        obtain ⟨same, tick⟩ := lawful.behind taken turn kept
        exact ⟨Or.inr (Or.inr (congrFun same t)), Or.inl tick⟩
      | some pair =>
        have round := lawful.again taken turn kept
        refine ⟨?_, Or.inl round.tick⟩
        by_cases self : t = u
        · exact Or.inr (Or.inl (by rw [self]))
        · exact Or.inr (Or.inr (round.others t self))

theorem tick_small (tick : (w.kernel s).tick < 2 ^ 32) (taken : w.machine.step s a = some (s', es)) :
    (w.kernel s').tick < 2 ^ 32 := by
  rcases (step_cases lawful taken 0).2 with same | next <;> lia

theorem again_onTime (small : timeout < (rtTickMax / 2 : Nat)) (onTime : w.OnTime t timeout first s left tickDelta)
    (turn : w.turn a = some t) (soon : w.Soon s t) (taken : w.machine.step s a = some (s', es))
    {left' : Int} {tickDelta' : Nat} (kept : w.kept s' t = some (left', tickDelta')) :
    w.OnTime t timeout first s' left' tickDelta' ∧ w.Suspends s s' t left' tickDelta' := by
  obtain ⟨rest, suspends⟩ := (lawful.again taken turn onTime.kept).suspends _ _ kept
  obtain ⟨some_left, armed⟩ := suspends
  have most := onTime.most
  rcases remaining_cases onTime.positive (by lia) onTime.delta onTime.tick (soon _ _ onTime.kept) with
    ⟨_, zero⟩ | ⟨_, positive, less, deadline⟩
  · exact absurd (rest.trans zero) some_left
  · rw [← rest] at positive less deadline
    obtain ⟨now, _⟩ := armed positive
    refine ⟨⟨kept, positive, by lia, ?_, ?_, tick_small lawful onTime.tick taken⟩, some_left, armed⟩
    · rw [now, deadline, onTime.deadline]
    · rw [now]
      exact onTime.tick

theorem waits_onTime (positive : 0 < timeout) (small : timeout < (rtTickMax / 2 : Nat))
    (waits : w.Waits t timeout first s) : ∃ left tickDelta, w.OnTime t timeout first s left tickDelta := by
  induction waits with
  | enter _ tick at_first call taken stays =>
    obtain ⟨⟨left, tickDelta⟩, kept⟩ := Option.ne_none_iff_exists'.mp stays
    obtain ⟨rfl, _, armed⟩ := (lawful.enter taken call).2.suspends _ _ kept
    obtain ⟨now, _⟩ := armed positive
    exact ⟨left, tickDelta, kept, positive, le_refl _, by rw [now, at_first], by rw [now]; exact tick,
      tick_small lawful tick taken⟩
  | @on es s s' a _ taken soon stays ih =>
    obtain ⟨left, tickDelta, onTime⟩ := ih
    obtain ⟨⟨left', tickDelta'⟩, kept⟩ := Option.ne_none_iff_exists'.mp stays
    by_cases turn : w.turn a = some t
    · exact ⟨left', tickDelta', (again_onTime lawful small onTime turn (soon turn) taken kept).1⟩
    · have same : w.kept s' t = w.kept s t := by
        rcases (step_cases lawful taken t).1 with ⟨timeout', call⟩ | again | same
        · have idle := (lawful.enter taken call).1
          rw [onTime.kept] at idle
          cases idle
        · exact absurd again turn
        · exact same
      exact ⟨left, tickDelta, same.trans onTime.kept, onTime.positive, onTime.most, onTime.deadline,
        onTime.delta, tick_small lawful onTime.tick taken⟩

theorem oneDeadline : w.OneDeadline where
  deadline := by
    intro t timeout first s positive small waits
    obtain ⟨left, tickDelta, onTime⟩ := waits_onTime lawful positive small waits
    exact ⟨left, tickDelta, onTime.kept, onTime.positive, onTime.most, onTime.deadline⟩
  first := by
    intro t timeout s a s' es left tickDelta positive _ call taken kept
    obtain ⟨rfl, _, armed⟩ := (lawful.enter taken call).2.suspends _ _ kept
    exact ⟨rfl, armed positive⟩
  again := by
    intro t timeout first s a s' es left tickDelta positive small waits turn soon taken kept
    obtain ⟨left', tickDelta', onTime⟩ := waits_onTime lawful positive small waits
    obtain ⟨onTime', _, armed⟩ := again_onTime lawful small onTime turn soon taken kept
    exact ⟨onTime'.positive, armed onTime'.positive⟩
  ends := by
    intro t timeout first s a left tickDelta positive small waits turn soon kept ready clean missing past
    obtain ⟨left', tickDelta', onTime⟩ := waits_onTime lawful positive small waits
    cases kept.symm.trans onTime.kept
    have most := onTime.most
    refine lawful.expired turn kept ready clean missing ?_
    rcases remaining_cases onTime.positive (by lia) onTime.delta onTime.tick (soon _ _ kept) with
      ⟨_, zero⟩ | ⟨before, _⟩
    · exact zero
    · lia

end

/-! The kernel's part of a section. -/

section
variable {k k' : Kernel} {h : ListHead} {o : Nat} {flag : IpcFlag}

theorem resume_tick (k : Kernel) (t : Tid) : (k.rtThreadResume t).1.tick = k.tick := by
  unfold rtThreadResume
  split
  · rfl
  · simp [resumeUnlink, rtTimerStop]

theorem listResume_tick (k : Kernel) (h : ListHead) : (k.rtIpcListResume h).tick = k.tick := by
  unfold rtIpcListResume
  split
  · rfl
  · exact resume_tick ..

theorem resumeAllLoop_tick {fuel : Nat} (woken : resumeAllLoop h fuel k = some k') : k'.tick = k.tick := by
  induction fuel generalizing k with
  | zero =>
    unfold resumeAllLoop at woken
    split at woken
    · cases Option.some.inj woken
      rfl
    · contradiction
  | succ fuel ih =>
    unfold resumeAllLoop at woken
    split at woken
    · cases Option.some.inj woken
      rfl
    · rw [ih woken, resume_tick, modify_tick]

theorem expire_tick (expired : k.timerExpire t = some k') : k'.tick = k.tick := by
  unfold timerExpire at expired
  split at expired
  · obtain ⟨_, rfl⟩ := timeoutWake_some _ _ expired
    simp [rtTimerStop]
  · contradiction

theorem blocked (ready : (k.thread t).stat = .ready)
    (started : (k.rtIpcListSuspend (.wait o) t flag).startWaitTimer t timeout = some k') :
    k'.tick = k.tick ∧ (0 < timeout → (k'.thread t).stat = .suspend ∧ (k'.thread t).timer = ⟨timeout.toNat, true⟩) := by
  have parked := ipcSuspend_self (o := o) ready flag
  have tick : (k.rtIpcListSuspend (.wait o) t flag).tick = k.tick := by
    cases flag <;> simp [rtIpcListSuspend, suspend_ready k t ready, rtTimerStop]
  unfold startWaitTimer at started
  split at started
  · rw [rtTimerStart_some _ _ started]
    exact ⟨by simp [rtTimerSetTime, tick], fun _ => by simp [rtTimerSetTime, parked, Thread.parked]⟩
  · rename_i forever
    cases Option.some.inj started
    exact ⟨tick, fun positive => absurd positive forever⟩

theorem section_blocked (others : ∀ u, u ≠ t → w.kept s' u = w.kept s u)
    (ready : ((w.kernel s).thread t).stat = .ready)
    (started : ((w.kernel s).rtIpcListSuspend (.wait o) t flag).startWaitTimer t timeout = some (w.kernel s'))
    (kept : w.kept s' t = some (timeout, tickDelta)) (some_time : timeout ≠ 0)
    (now : 0 < timeout → tickDelta = (w.kernel s).tick) : w.Section s s' t timeout := by
  obtain ⟨tick, armed⟩ := blocked ready started
  refine ⟨others, tick, ?_⟩
  intro left tickDelta' kept'
  cases kept.symm.trans kept'
  exact ⟨rfl, some_time, fun positive => ⟨now positive, armed positive⟩⟩

end

def mailbox (n : Nat) : Waiting Mailbox.State Mailbox.Action Mailbox.Event where
  machine := Mailbox.machine n
  kernel := Mailbox.State.kernel
  kept s t :=
    match s.call t with
    | .idle => none
    | .sending _ timeout tickDelta | .receiving timeout tickDelta => some (timeout, tickDelta)
  call
    | .send t _ timeout | .recv t timeout => some (t, timeout)
    | _ => none
  turn
    | .wake t => some t
    | _ => none
  missing s t :=
    match s.call t with
    | .idle => False
    | .sending .. => s.entry = s.size
    | .receiving .. => s.entry = 0
  refused s t :=
    match s.call t with
    | .receiving .. => [.recvFailed t .etimeout]
    | _ => [.sendFailed t .efull]

namespace Mail
open Mailbox

variable {n : Nat} {s s' : State} {a : Action} {es : List Event} {c : Call} {value : Mail}

theorem round_idle (call : s'.call = Function.update s.call t .idle) (tick : s'.kernel.tick = s.kernel.tick) :
    (mailbox n).Section s s' t timeout := by
  refine section_out ?_ tick ?_
  · intro u other
    simp only [mailbox, call, Function.update_of_ne other]
  · simp only [mailbox, call, Function.update_self]

theorem round_block {o : Nat} (tickDelta : Nat) (some_time : timeout ≠ 0)
    (taken : block s t o timeout c = some (s', es))
    (keeps : ∀ s : State, s.call t = c → (mailbox n).kept s t = some (timeout, tickDelta))
    (now : 0 < timeout → tickDelta = s.kernel.tick) : (mailbox n).Section s s' t timeout := by
  obtain ⟨ready, _, k, started, rfl⟩ := block_cases taken
  refine section_blocked ?_ ready started (keeps _ (Function.update_self ..)) some_time now
  intro u other
  simp only [mailbox, State.goto, Function.update_of_ne other]

theorem setError_round {e : Err} (inner : (mailbox n).Section (setError s t e) s' t timeout) :
    (mailbox n).Section s s' t timeout :=
  ⟨inner.others, inner.tick, inner.suspends⟩

theorem sendLoop_round (taken : sendLoop s t value timeout tickDelta = some (s', es)) :
    (mailbox n).Section s s' t timeout := by
  unfold sendLoop at taken
  split at taken
  · refine setError_round (e := .eok) ?_
    split at taken
    · cases Option.some.inj taken
      exact round_idle rfl rfl
    · rename_i some_time
      exact round_block (if 0 < timeout then s.kernel.tick else tickDelta) some_time taken
        (fun s call => by simp only [mailbox, call]; rfl) (fun positive => if_pos positive)
  · simp only [storeMail] at taken
    split at taken <;> cases Option.some.inj taken
    · exact round_idle rfl (listResume_tick ..)
    · exact round_idle rfl rfl

theorem recvLoop_round (taken : recvLoop s t timeout tickDelta = some (s', es)) :
    (mailbox n).Section s s' t timeout := by
  unfold recvLoop at taken
  split at taken
  · refine setError_round (e := .eok) ?_
    split at taken
    · cases Option.some.inj taken
      exact round_idle rfl rfl
    · rename_i some_time
      exact round_block (if 0 < timeout then s.kernel.tick else tickDelta) some_time taken
        (fun s call => by simp only [mailbox, call]; rfl) (fun positive => if_pos positive)
  · cases Option.some.inj taken
    exact round_idle rfl (listResume_tick ..)

theorem sendLoop_expired (t : Tid) (value : Mail) (tickDelta : Nat) (full : s.entry = s.size) :
    ∃ s', sendLoop s t value 0 tickDelta = some (s', [.sendFailed t .efull]) ∧ s'.call t = .idle := by
  refine ⟨(setError s t .eok).goto t .idle, ?_, Function.update_self ..⟩
  rw [sendLoop, if_pos full, if_pos rfl]

theorem recvLoop_expired (t : Tid) (tickDelta : Nat) (empty : s.entry = 0) :
    ∃ s', recvLoop s t 0 tickDelta = some (s', [.recvFailed t .etimeout]) ∧ s'.call t = .idle := by
  refine ⟨(setError (setError s t .eok) t .etimeout).goto t .idle, ?_, Function.update_self ..⟩
  rw [recvLoop, if_pos empty, if_pos rfl]

theorem kept_idle (idle : s.call t = .idle) : (mailbox n).kept s t = none := by
  simp only [mailbox, idle]

theorem round_same (idle : s.call t = .idle) : (mailbox n).Section s s t timeout :=
  round_idle (by rw [← idle, Function.update_eq_self]) rfl

theorem send_round (taken : rtMbSendWait s t value timeout = some (s', es)) :
    (mailbox n).kept s t = none ∧ (mailbox n).Section s s' t timeout := by
  unfold rtMbSendWait at taken
  split at taken
  · contradiction
  · rename_i idle
    simp only [ne_eq, not_not] at idle
    refine ⟨kept_idle idle, ?_⟩
    split at taken
    · cases Option.some.inj taken
      exact round_same idle
    · exact sendLoop_round taken

theorem recv_round (taken : rtMbRecv s t timeout = some (s', es)) :
    (mailbox n).kept s t = none ∧ (mailbox n).Section s s' t timeout := by
  unfold rtMbRecv at taken
  split at taken
  · contradiction
  · rename_i idle
    simp only [ne_eq, not_not] at idle
    refine ⟨kept_idle idle, ?_⟩
    split at taken
    · cases Option.some.inj taken
      exact round_same idle
    · exact recvLoop_round taken

theorem resume_round {left : Int} (kept : (mailbox n).kept s t = some (left, tickDelta))
    (taken : resumeCall s t = some (s', es)) :
    (mailbox n).Section s s' t (remainingTime left tickDelta s.kernel.tick) := by
  simp only [resumeCall] at taken
  split at taken
  · contradiction
  · cases call : s.call t with
    | idle => simp only [call] at taken; contradiction
    | sending value timeout delta =>
      simp only [mailbox, call, Option.some.injEq] at kept
      cases kept
      simp only [call] at taken
      split at taken
      · cases Option.some.inj taken
        exact round_idle rfl rfl
      · exact sendLoop_round taken
    | receiving timeout delta =>
      simp only [mailbox, call, Option.some.injEq] at kept
      cases kept
      simp only [call] at taken
      split at taken
      · cases Option.some.inj taken
        exact round_idle rfl rfl
      · exact recvLoop_round taken

theorem lawful (n : Nat) : (mailbox n).Lawful where
  enter := by
    intro s a s' es t timeout taken call
    cases a with
    | send u value timeout' => cases call; exact send_round taken
    | recv u timeout' => cases call; exact recv_round taken
    | _ => cases call
  again := by
    intro s a s' es t left tickDelta taken turn kept
    cases a with
    | wake u => cases turn; exact resume_round kept taken
    | _ => cases turn
  behind := by
    intro s a s' es t taken turn kept
    cases a with
    | wake u =>
      cases turn
      simp only [mailbox] at kept
      change resumeCall s t = some (s', es) at taken
      simp only [resumeCall] at taken
      split at taken
      · contradiction
      · cases call : s.call t <;> simp only [call] at kept taken <;> contradiction
    | _ => cases turn
  rest := by
    intro s a s' es taken call turn
    cases a with
    | send u value timeout => cases call
    | recv u timeout => cases call
    | wake u => cases turn
    | timeout u =>
      obtain ⟨k, expired, same⟩ := Option.map_eq_some_iff.mp taken
      cases same
      exact ⟨rfl, Or.inl (expire_tick expired)⟩
    | tick =>
      cases Option.some.inj taken
      exact ⟨rfl, Or.inr rfl⟩
    | reset =>
      obtain ⟨k, woken, same⟩ := Option.map_eq_some_iff.mp taken
      cases same
      obtain ⟨k', first, second⟩ := Option.bind_eq_some_iff.mp woken
      exact ⟨rfl, Or.inl ((resumeAllLoop_tick second).trans (resumeAllLoop_tick first))⟩
  expired := by
    intro s a t left tickDelta turn kept ready clean missing past
    cases a with
    | wake u =>
      cases turn
      change (s.kernel.thread t).stat = .ready at ready
      change (s.kernel.thread t).error = .eok at clean
      change remainingTime left tickDelta s.kernel.tick = 0 at past
      simp only [mailbox] at kept missing
      change ∃ s', resumeCall s t = _ ∧ _
      cases call : s.call t with
      | idle => simp only [call] at kept; cases kept
      | sending value timeout delta =>
        simp only [call, Option.some.injEq] at kept missing
        cases kept
        obtain ⟨s', done, idle⟩ := sendLoop_expired t value tickDelta missing
        refine ⟨s', ?_, kept_idle idle⟩
        simp only [resumeCall, ready, clean, call, past, done, mailbox, ne_eq, not_true, if_false]
      | receiving timeout delta =>
        simp only [call, Option.some.injEq] at kept missing
        cases kept
        obtain ⟨s', done, idle⟩ := recvLoop_expired t tickDelta missing
        refine ⟨s', ?_, kept_idle idle⟩
        simp only [resumeCall, ready, clean, call, past, done, mailbox, ne_eq, not_true, if_false]
    | _ => cases turn

end Mail

def messageQueue (n : Nat) : Waiting MessageQueue.State MessageQueue.Action MessageQueue.Event where
  machine := MessageQueue.machine n
  kernel := MessageQueue.State.kernel
  kept s t :=
    match s.call t with
    | .sendWait _ timeout tickDelta | .recvWait _ timeout tickDelta => some (timeout, tickDelta)
    | _ => none
  call
    | .send t _ timeout | .recv t _ timeout => some (t, timeout)
    | _ => none
  turn
    | .run t => some t
    | _ => none
  missing s t :=
    match s.call t with
    | .sendWait .. => s.msgQueueFree = none
    | .recvWait .. => s.entry = 0
    | _ => False
  refused s t :=
    match s.call t with
    | .recvWait .. => [.recvFailed t .etimeout]
    | _ => [.sendFailed t .efull]

namespace Message
open MessageQueue

variable {n size : Nat} {s s' : State} {a : Action} {es : List Event} {c : Call} {bytes : List Byte}

def Call.waits : Call → Bool
  | .sendWait .. | .recvWait .. => true
  | _ => false

theorem kept_out (out : Call.waits (s.call t) = false) : (messageQueue n).kept s t = none := by
  simp only [messageQueue]
  cases call : s.call t <;> first | rfl | (rw [call] at out; cases out)

theorem round_out (call : s'.call = Function.update s.call t c) (out : Call.waits c = false)
    (tick : s'.kernel.tick = s.kernel.tick) : (messageQueue n).Section s s' t timeout := by
  refine section_out ?_ tick (kept_out (by rw [call, Function.update_self]; exact out))
  intro u other
  simp only [messageQueue, call, Function.update_of_ne other]

theorem round_block {o : Nat} (tickDelta : Nat) (some_time : timeout ≠ 0)
    (taken : block s t o timeout c = some (s', es))
    (keeps : ∀ s : State, s.call t = c → (messageQueue n).kept s t = some (timeout, tickDelta))
    (now : 0 < timeout → tickDelta = s.kernel.tick) : (messageQueue n).Section s s' t timeout := by
  obtain ⟨ready, _, k, started, rfl⟩ := block_cases taken
  refine section_blocked ?_ ready started (keeps _ (Function.update_self ..)) some_time now
  intro u other
  simp only [messageQueue, State.goto, Function.update_of_ne other]

theorem setError_round {e : Err} (inner : (messageQueue n).Section (setError s t e) s' t timeout) :
    (messageQueue n).Section s s' t timeout :=
  ⟨inner.others, inner.tick, inner.suspends⟩

theorem sendLoop_round (taken : sendLoop s t bytes timeout tickDelta = some (s', es)) :
    (messageQueue n).Section s s' t timeout := by
  unfold sendLoop at taken
  split at taken
  · refine setError_round (e := .eok) ?_
    split at taken
    · cases Option.some.inj taken
      exact round_out rfl rfl rfl
    · rename_i some_time
      exact round_block (if 0 < timeout then s.kernel.tick else tickDelta) some_time taken
        (fun s call => by simp only [messageQueue, call]; rfl) (fun positive => if_pos positive)
  · cases Option.some.inj taken
    exact round_out rfl rfl rfl

theorem recvLoop_round (taken : recvLoop s t size timeout tickDelta = some (s', es)) :
    (messageQueue n).Section s s' t timeout := by
  unfold recvLoop at taken
  split at taken
  · refine setError_round (e := .eok) ?_
    split at taken
    · cases Option.some.inj taken
      exact round_out rfl rfl rfl
    · rename_i some_time
      exact round_block (if 0 < timeout then s.kernel.tick else tickDelta) some_time taken
        (fun s call => by simp only [messageQueue, call]; rfl) (fun positive => if_pos positive)
  · obtain ⟨msg, _, same⟩ := Option.map_eq_some_iff.mp taken
    cases same
    exact round_out rfl rfl rfl

theorem sendLoop_expired (t : Tid) (bytes : List Byte) (tickDelta : Nat) (full : s.msgQueueFree = none) :
    ∃ s', sendLoop s t bytes 0 tickDelta = some (s', [.sendFailed t .efull]) ∧ s'.call t = .idle := by
  refine ⟨(setError s t .eok).goto t .idle, ?_, Function.update_self ..⟩
  simp only [sendLoop, full]
  rfl

theorem recvLoop_expired (t : Tid) (size tickDelta : Nat) (empty : s.entry = 0) : ∃ s',
    recvLoop s t size 0 tickDelta = some (s', [.recvFailed t .etimeout]) ∧ s'.call t = .idle := by
  refine ⟨(setError (setError s t .eok) t .etimeout).goto t .idle, ?_, Function.update_self ..⟩
  rw [recvLoop, if_pos empty, if_pos rfl]

theorem kept_idle (idle : s.call t = .idle) : (messageQueue n).kept s t = none :=
  kept_out (by rw [idle]; rfl)

theorem round_same (idle : s.call t = .idle) : (messageQueue n).Section s s t timeout :=
  round_out (c := .idle) (by rw [← idle, Function.update_eq_self]) rfl rfl

theorem send_round (taken : rtMqSendWait s t bytes timeout = some (s', es)) :
    (messageQueue n).kept s t = none ∧ (messageQueue n).Section s s' t timeout := by
  unfold rtMqSendWait at taken
  split at taken
  · contradiction
  · rename_i fresh
    have idle : s.call t = .idle := by
      by_contra busy
      exact fresh (Or.inl busy)
    refine ⟨kept_idle idle, ?_⟩
    split at taken
    · cases Option.some.inj taken
      exact round_same idle
    · split at taken
      · cases Option.some.inj taken
        exact round_same idle
      · exact sendLoop_round taken

theorem recv_round (taken : rtMqRecv s t size timeout = some (s', es)) :
    (messageQueue n).kept s t = none ∧ (messageQueue n).Section s s' t timeout := by
  unfold rtMqRecv at taken
  split at taken
  · contradiction
  · rename_i fresh
    have idle : s.call t = .idle := by
      by_contra busy
      exact fresh (Or.inl busy)
    refine ⟨kept_idle idle, ?_⟩
    split at taken
    · cases Option.some.inj taken
      exact round_same idle
    · exact recvLoop_round taken

theorem linked_frame {u : Tid} {e : Event} : (linked s u e).1.call = s.call ∧
    (linked s u e).1.kernel.tick = s.kernel.tick := by
  unfold linked
  split
  · exact ⟨rfl, listResume_tick ..⟩
  · exact ⟨rfl, rfl⟩

theorem linkFront_frame (msg : Nat) (bytes : List Byte) :
    (linkFront s t msg bytes).1.call = Function.update s.call t .idle ∧
      (linkFront s t msg bytes).1.kernel.tick = s.kernel.tick :=
  linked_frame

theorem linkBack_frame (msg : Nat) (bytes : List Byte) :
    (linkBack s t msg bytes).1.call = Function.update s.call t .idle ∧
      (linkBack s t msg bytes).1.kernel.tick = s.kernel.tick :=
  linked_frame

theorem run_behind (out : Call.waits (s.call t) = false) (taken : runCall s t = some (s', es)) :
    (messageQueue n).kept s' = (messageQueue n).kept s ∧ s'.kernel.tick = s.kernel.tick := by
  have frame : ∀ c, Call.waits c = false → s'.call = Function.update s.call t c →
      (messageQueue n).kept s' = (messageQueue n).kept s := by
    intro c idle call
    funext u
    by_cases self : u = t
    · rw [self, kept_out out, kept_out (by rw [call, Function.update_self]; exact idle)]
    · simp only [messageQueue, call, Function.update_of_ne self]
  cases call : s.call t with
  | idle => simp only [runCall, call] at taken; contradiction
  | sendWait _ _ _ => rw [call] at out; cases out
  | recvWait _ _ _ => rw [call] at out; cases out
  | filling urgent msg bytes copied =>
    simp only [runCall, call] at taken
    split at taken
    · cases Option.some.inj taken
      exact ⟨frame _ rfl rfl, rfl⟩
    · split at taken
      · have same : (linkFront s t msg bytes).1 = s' := congrArg Prod.fst (Option.some.inj taken)
        obtain ⟨calls, tick⟩ := linkFront_frame (s := s) (t := t) msg bytes
        rw [same] at calls tick
        exact ⟨frame .idle rfl calls, tick⟩
      · have same : (linkBack s t msg bytes).1 = s' := congrArg Prod.fst (Option.some.inj taken)
        obtain ⟨calls, tick⟩ := linkBack_frame (s := s) (t := t) msg bytes
        rw [same] at calls tick
        exact ⟨frame .idle rfl calls, tick⟩
  | draining msg size got =>
    simp only [runCall, call] at taken
    split at taken <;> cases Option.some.inj taken
    · exact ⟨frame _ rfl rfl, rfl⟩
    · exact ⟨frame _ rfl rfl, listResume_tick ..⟩

theorem run_round {left : Int} (kept : (messageQueue n).kept s t = some (left, tickDelta))
    (taken : runCall s t = some (s', es)) :
    (messageQueue n).Section s s' t (remainingTime left tickDelta s.kernel.tick) := by
  cases call : s.call t with
  | idle => rw [kept_idle call] at kept; cases kept
  | filling _ _ _ _ => rw [kept_out (by rw [call]; rfl)] at kept; cases kept
  | draining _ _ _ => rw [kept_out (by rw [call]; rfl)] at kept; cases kept
  | sendWait bytes timeout delta =>
    simp only [messageQueue, call, Option.some.injEq] at kept
    cases kept
    simp only [runCall, call] at taken
    split at taken
    · contradiction
    · split at taken
      · cases Option.some.inj taken
        exact round_out rfl rfl rfl
      · exact sendLoop_round taken
  | recvWait size timeout delta =>
    simp only [messageQueue, call, Option.some.injEq] at kept
    cases kept
    simp only [runCall, call] at taken
    split at taken
    · contradiction
    · split at taken
      · cases Option.some.inj taken
        exact round_out rfl rfl rfl
      · exact recvLoop_round taken

theorem releaseAll_frame {fuel : Nat} (released : releaseAll fuel s = some s') :
    s'.call = s.call ∧ s'.kernel = s.kernel := by
  induction fuel generalizing s with
  | zero =>
    unfold releaseAll at released
    split at released
    · cases Option.some.inj released
      exact ⟨rfl, rfl⟩
    · contradiction
  | succ fuel ih =>
    unfold releaseAll at released
    split at released
    · cases Option.some.inj released
      exact ⟨rfl, rfl⟩
    · exact ih (s := releaseHead s _) released

theorem urgent_frame (taken : rtMqUrgent s t bytes = some (s', es)) :
    (messageQueue n).kept s' = (messageQueue n).kept s ∧ s'.kernel.tick = s.kernel.tick := by
  unfold rtMqUrgent at taken
  split at taken
  · contradiction
  · rename_i fresh
    have idle : s.call t = .idle := by
      by_contra busy
      exact fresh (Or.inl busy)
    split at taken
    · cases Option.some.inj taken
      exact ⟨rfl, rfl⟩
    · split at taken <;> cases Option.some.inj taken
      · exact ⟨rfl, rfl⟩
      · refine ⟨?_, rfl⟩
        funext u
        by_cases self : u = t
        · rw [self, kept_idle idle, kept_out (by simp [takeFree, State.goto, Call.waits])]
        · simp only [messageQueue, takeFree, State.goto, Function.update_of_ne self]

theorem lawful (n : Nat) : (messageQueue n).Lawful where
  enter := by
    intro s a s' es t timeout taken call
    cases a with
    | send u bytes timeout' => cases call; exact send_round taken
    | recv u size timeout' => cases call; exact recv_round taken
    | _ => cases call
  again := by
    intro s a s' es t left tickDelta taken turn kept
    cases a with
    | run u => cases turn; exact run_round kept taken
    | _ => cases turn
  behind := by
    intro s a s' es t taken turn kept
    cases a with
    | run u =>
      cases turn
      refine run_behind ?_ taken
      simp only [messageQueue] at kept
      cases call : s.call t <;> simp only [call] at kept <;> first | rfl | contradiction
    | _ => cases turn
  rest := by
    intro s a s' es taken call turn
    cases a with
    | send u bytes timeout => cases call
    | recv u size timeout => cases call
    | run u => cases turn
    | urgent u bytes =>
      obtain ⟨kept, tick⟩ := urgent_frame (n := n) taken
      exact ⟨kept, Or.inl tick⟩
    | timeout u =>
      obtain ⟨k, expired, same⟩ := Option.map_eq_some_iff.mp taken
      cases same
      exact ⟨rfl, Or.inl (expire_tick expired)⟩
    | tick =>
      cases Option.some.inj taken
      exact ⟨rfl, Or.inr rfl⟩
    | reset =>
      obtain ⟨k, woken, done⟩ := Option.bind_eq_some_iff.mp taken
      obtain ⟨k', first, second⟩ := Option.bind_eq_some_iff.mp woken
      obtain ⟨m, released, same⟩ := Option.map_eq_some_iff.mp done
      cases same
      obtain ⟨calls, kernel⟩ := releaseAll_frame released
      refine ⟨?_, Or.inl ?_⟩
      · funext u
        simp only [messageQueue, calls]
      · change m.kernel.tick = s.kernel.tick
        rw [kernel]
        exact (resumeAllLoop_tick second).trans (resumeAllLoop_tick first)
  expired := by
    intro s a t left tickDelta turn kept ready clean missing past
    cases a with
    | run u =>
      cases turn
      change (s.kernel.thread t).stat = .ready at ready
      change (s.kernel.thread t).error = .eok at clean
      change remainingTime left tickDelta s.kernel.tick = 0 at past
      simp only [messageQueue] at kept missing
      change ∃ s', runCall s t = _ ∧ _
      cases call : s.call t with
      | sendWait bytes timeout delta =>
        simp only [call, Option.some.injEq] at kept missing
        cases kept
        obtain ⟨s', done, idle⟩ := sendLoop_expired t bytes tickDelta missing
        refine ⟨s', ?_, kept_idle idle⟩
        simp only [runCall, ready, clean, call, past, done, messageQueue, ne_eq, not_true, if_false]
      | recvWait size timeout delta =>
        simp only [call, Option.some.injEq] at kept missing
        cases kept
        obtain ⟨s', done, idle⟩ := recvLoop_expired t size tickDelta missing
        refine ⟨s', ?_, kept_idle idle⟩
        simp only [runCall, ready, clean, call, past, done, messageQueue, ne_eq, not_true, if_false]
      | _ => simp only [call] at kept; cases kept
    | _ => cases turn

end Message

/-- The four calls, over every run of a mailbox and of a message queue. -/
theorem timed_waits_keep_deadline :
    (∀ n, (mailbox n).OneDeadline) ∧ ∀ n, (messageQueue n).OneDeadline :=
  ⟨fun n => oneDeadline (Mail.lawful n), fun n => oneDeadline (Message.lawful n)⟩

end RtThread.Deadline
