import RtThread.TimerCheck

/-! RT_TIMER_FLAG_ACTIVATED and the timer list. Here rt_timer_check goes pass by pass, and calls
come at any time but between its passes: from threads, and from a timeout function in each of its
passes. Unlike a run of `machine`, timers may have any time and change between one-shot and
periodic. -/
namespace RtThread.Timer
open Transition

/-- rt_timer_control with RT_TIMER_CTRL_SET_ONESHOT or RT_TIMER_CTRL_SET_PERIODIC. -/
def rtTimerSetPeriodic (s : State) (t : Nat) (periodic : Bool) : Option State :=
  if (s.timer t).attached then some (s.setTimer t { s.timer t with periodic := periodic }) else none

/-- rt_timer_control with RT_TIMER_CTRL_GET_STATE. -/
def rtTimerGetState (s : State) (t : Nat) : Bool := (s.timer t).activated

/-- `checking`: with `current_tick`, before the test of the loop. `callback`: in the timeout
function of a timer. -/
inductive Place where
  | idle
  | checking (currentTick : BitVec 32)
  | callback (t : Nat)
  deriving DecidableEq

structure Flow where
  timers : State
  place : Place

inductive FlowAction where
  | call (call : Call)
  | setPeriodic (t : Nat) (periodic : Bool)
  | tick (tick : BitVec 32)
  | check
  | pass
  | finish

/-- A pass up to the call of the timeout function, or the end of rt_timer_check. -/
def Flow.pass (f : Flow) (currentTick : BitVec 32) : Flow × List Event :=
  match f.timers.lastRow with
  | [] => (⟨f.timers, .idle⟩, [])
  | t :: _ =>
    if currentTick - (f.timers.timer t).timeoutTick < halfTickMax then
      (⟨f.timers.takeOff t, .callback t⟩, [.expired t])
    else (⟨f.timers, .idle⟩, [])

/-- Interrupts are off while rt_timer_check runs. -/
def Flow.step (f : Flow) : FlowAction → Option (Flow × List Event)
  | .call call =>
    match f.place with
    | .checking _ => none
    | _ => (f.timers.call call).map (fun r => (⟨r.1, f.place⟩, r.2))
  | .setPeriodic t periodic =>
    match f.place with
    | .checking _ => none
    | _ => (rtTimerSetPeriodic f.timers t periodic).map (fun s => (⟨s, f.place⟩, []))
  | .tick tick =>
    match f.place with
    | .idle => some (⟨{ f.timers with rtTick := tick }, .idle⟩, [])
    | _ => none
  | .check =>
    match f.place with
    | .idle => some (⟨f.timers, .checking f.timers.rtTick⟩, [])
    | _ => none
  | .pass =>
    match f.place with
    | .checking currentTick => some (f.pass currentTick)
    | _ => none
  | .finish =>
    match f.place with
    | .callback t => (restart f.timers t).map (fun r => (⟨r.1, .checking r.1.rtTick⟩, r.2))
    | _ => none

def flow (level : Nat) : Machine Flow FlowAction Event where
  start f := Start level f.timers ∧ f.place = .idle
  step := Flow.step

/-- The timeout function does not leave its own timer, periodic and running before, one-shot and
running. -/
def Flow.Guard (f : Flow) : FlowAction → Prop
  | .finish =>
    match f.place with
    | .callback t => t ∈ f.timers.pending → (f.timers.timer t).activated = true → (f.timers.timer t).periodic = true
    | _ => True
  | _ => True

instance (f : Flow) (a : FlowAction) : Decidable (f.Guard a) := by
  unfold Flow.Guard
  split
  · split <;> infer_instance
  · infer_instance

/-- A timer that is activated is in the list or, while its timeout function runs, in the temporary
one. -/
structure Told (s : State) : Prop where
  nonempty : s.rows ≠ []
  nested : Skip.Nested s.rows
  distinct : s.lastRow.Nodup
  listed : ∀ t ∈ s.lastRow, (s.timer t).attached = true ∧ (s.timer t).activated = true
  off : ∀ t ∈ s.pending, t ∉ s.lastRow ∧ (s.timer t).attached = true
  single : s.pending.Nodup
  flag : ∀ t, (s.timer t).attached = true → (s.timer t).activated = true → t ∈ s.lastRow ∨ t ∈ s.pending

/-- The temporary list holds at most the timer whose function runs. -/
def Flow.Held (f : Flow) : Prop :=
  match f.place with
  | .callback t => f.timers.pending.Sublist [t]
  | _ => f.timers.pending = []

variable {level : Nat} {s s' : State} {f f' : Flow} {t u : Nat} {a : FlowAction} {tr es : List Event} {timer : RtTimer}

theorem Told.setTimer (told : Told s)
    (running : timer.attached = true → timer.activated = true →
      (s.timer t).attached = true ∧ (s.timer t).activated = true)
    (listed : t ∈ s.lastRow → timer.attached = true ∧ timer.activated = true)
    (held : t ∈ s.pending → timer.attached = true) : Told (s.setTimer t timer) := by
  have here : (s.setTimer t timer).timer t = timer := State.setTimer_self
  have same : ∀ u, u ≠ t → (s.setTimer t timer).timer u = s.timer u := fun _ => State.setTimer_other
  refine ⟨told.nonempty, told.nested, told.distinct, ?_, ?_, told.single, ?_⟩
  · intro u inside
    by_cases self : u = t
    · rw [self, here]
      exact listed (self ▸ inside)
    · rw [same u self]
      exact told.listed u inside
  · intro u waits
    refine ⟨(told.off u waits).1, ?_⟩
    by_cases self : u = t
    · rw [self, here]
      exact held (self ▸ waits)
    · rw [same u self]
      exact (told.off u waits).2
  · intro u attached activated
    by_cases self : u = t
    · rw [self, here] at attached activated
      obtain ⟨old, old'⟩ := running attached activated
      exact self ▸ told.flag t old old'
    · rw [same u self] at attached activated
      exact told.flag u attached activated

theorem Told.drop (told : Told s) (t : Nat) (timer : RtTimer) (inactive : timer.activated = false) :
    Told ((s.remove t).setTimer t timer) ∧ t ∉ ((s.remove t).setTimer t timer).lastRow ∧
      t ∉ ((s.remove t).setTimer t timer).pending := by
  have row : ((s.remove t).setTimer t timer).lastRow = s.lastRow.erase t := State.lastRow_remove
  have held : ((s.remove t).setTimer t timer).pending = s.pending.erase t := rfl
  have here : ((s.remove t).setTimer t timer).timer t = timer := State.setTimer_self
  have same : ∀ u, u ≠ t → ((s.remove t).setTimer t timer).timer u = s.timer u := fun _ => State.setTimer_other
  have away : t ∉ s.lastRow.erase t := fun inside => (told.distinct.mem_erase_iff.mp inside).1 rfl
  have away' : t ∉ s.pending.erase t := fun waits => (told.single.mem_erase_iff.mp waits).1 rfl
  refine ⟨⟨?_, Skip.nested_erase told.nested t, row ▸ told.distinct.erase t, ?_, ?_, held ▸ told.single.erase t, ?_⟩,
    row ▸ away, held ▸ away'⟩
  · simpa [State.remove, State.setTimer] using told.nonempty
  · intro u inside
    rw [row, told.distinct.mem_erase_iff] at inside
    rw [same u inside.1]
    exact told.listed u inside.2
  · intro u waits
    rw [held, told.single.mem_erase_iff] at waits
    rw [row, same u waits.1]
    exact ⟨fun inside => (told.off u waits.2).1 (List.mem_of_mem_erase inside), (told.off u waits.2).2⟩
  · intro u attached activated
    have other : u ≠ t := by
      rintro rfl
      rw [here, inactive] at activated
      cases activated
    rw [same u other] at attached activated
    rw [row, held, List.mem_erase_of_ne other, List.mem_erase_of_ne other]
    exact told.flag u attached activated

theorem Told.link (told : Told s) (away : t ∉ s.lastRow) (away' : t ∉ s.pending)
    (attached : (s.timer t).attached = true) (linked : s.link t = some s') :
    Told s' ∧ s'.pending = s.pending ∧ t ∈ s'.lastRow := by
  obtain ⟨m, A, B, result, split, row, _, nested, nonempty, _, pending, timers⟩ :=
    link_row told.nonempty told.nested told.distinct away
  cases Option.some.inj (result.symm.trans linked)
  have perm : s'.lastRow.Perm (t :: s.lastRow) := by
    rw [row, split]
    exact List.perm_middle
  have here : s'.timer t = { s.timer t with activated := true } := by
    rw [timers, Function.update_self]
  have same : ∀ u, u ≠ t → s'.timer u = s.timer u := by
    intro u other
    rw [timers, Function.update_of_ne other]
  refine ⟨⟨nonempty, nested, perm.nodup_iff.mpr (List.nodup_cons.mpr ⟨away, told.distinct⟩), ?_, ?_,
    pending ▸ told.single, ?_⟩, pending, perm.mem_iff.mpr List.mem_cons_self⟩
  · intro u inside
    by_cases self : u = t
    · rw [self, here]
      exact ⟨attached, rfl⟩
    · rw [same u self]
      exact told.listed u ((List.mem_cons.mp (perm.mem_iff.mp inside)).resolve_left self)
  · intro u waits
    rw [pending] at waits
    have other : u ≠ t := fun self => away' (self ▸ waits)
    rw [same u other]
    refine ⟨fun inside => ?_, (told.off u waits).2⟩
    exact (told.off u waits).1 ((List.mem_cons.mp (perm.mem_iff.mp inside)).resolve_left other)
  · intro u running running'
    by_cases self : u = t
    · exact Or.inl (self ▸ perm.mem_iff.mpr List.mem_cons_self)
    · rw [same u self] at running running'
      rw [pending]
      exact (told.flag u running running').imp_left (fun inside => perm.mem_iff.mpr (List.mem_cons_of_mem t inside))

theorem Told.start (told : Told s) (started : rtTimerStart s t = some s') :
    Told s' ∧ s'.pending = s.pending.erase t ∧ t ∈ s'.lastRow := by
  simp only [rtTimerStart] at started
  split at started
  · rename_i attached
    split at started
    · obtain ⟨dropped, away, away'⟩ := told.drop t
        { s.timer t with activated := false, timeoutTick := s.rtTick + (s.timer t).initTick } rfl
      exact dropped.link away away' (by simpa [State.setTimer] using attached) started
    · contradiction
  · contradiction

theorem Told.call {call : Call} (told : Told s) (done : s.call call = some (s', es)) :
    Told s' ∧ s'.pending.Sublist s.pending := by
  cases call with
  | init t time periodic =>
    obtain ⟨m, inited, same⟩ := Option.map_eq_some_iff.mp done
    cases same
    simp only [rtTimerInit] at inited
    split at inited
    · contradiction
    · rename_i detached
      cases Option.some.inj inited
      refine ⟨told.setTimer (fun _ active => by cases active) ?_ (fun _ => rfl), List.Sublist.refl _⟩
      exact fun inside => absurd (told.listed t inside).1 detached
  | setTime t time =>
    obtain ⟨m, set, same⟩ := Option.map_eq_some_iff.mp done
    cases same
    simp only [rtTimerSetTime] at set
    split at set
    · cases Option.some.inj set
      exact ⟨told.setTimer (fun old old' => ⟨old, old'⟩) (told.listed t) (fun waits => (told.off t waits).2),
        List.Sublist.refl _⟩
    · contradiction
  | start t =>
    obtain ⟨m, started, same⟩ := Option.map_eq_some_iff.mp done
    cases same
    obtain ⟨told', pending, _⟩ := told.start started
    exact ⟨told', pending ▸ List.erase_sublist⟩
  | stop t =>
    obtain ⟨m, stopped, same⟩ := Option.map_eq_some_iff.mp done
    cases same
    simp only [rtTimerStop] at stopped
    split at stopped
    · split at stopped
      · cases Option.some.inj stopped
        exact ⟨(told.drop _ _ rfl).1, List.erase_sublist⟩
      · cases Option.some.inj stopped
        exact ⟨told, List.Sublist.refl _⟩
    · contradiction
  | detach t =>
    obtain ⟨m, detached, same⟩ := Option.map_eq_some_iff.mp done
    cases same
    simp only [rtTimerDetach] at detached
    split at detached
    · cases Option.some.inj detached
      exact ⟨(told.drop _ _ rfl).1, List.erase_sublist⟩
    · contradiction

theorem Told.setPeriodic {periodic : Bool} (told : Told s) (set : rtTimerSetPeriodic s t periodic = some s') :
    Told s' ∧ s'.pending = s.pending := by
  simp only [rtTimerSetPeriodic] at set
  split at set
  · cases Option.some.inj set
    exact ⟨told.setTimer (fun old old' => ⟨old, old'⟩) (told.listed t) (fun waits => (told.off t waits).2), rfl⟩
  · contradiction

theorem Told.hold (told : Told s) (idle : s.pending = []) (away : t ∉ s.lastRow) (attached : timer.attached = true) :
    Told { s.setTimer t timer with pending := [t] } := by
  have here : (s.setTimer t timer).timer t = timer := State.setTimer_self
  have same : ∀ u, u ≠ t → (s.setTimer t timer).timer u = s.timer u := fun _ => State.setTimer_other
  refine ⟨told.nonempty, told.nested, told.distinct, ?_, ?_, List.nodup_singleton t, ?_⟩
  · intro u inside
    have other : u ≠ t := fun self => away (self ▸ inside)
    exact (same u other).symm ▸ told.listed u inside
  · intro u waits
    rw [List.mem_singleton.mp waits]
    exact ⟨away, here.symm ▸ attached⟩
  · intro u running running'
    by_cases self : u = t
    · exact Or.inr (List.mem_singleton.mpr self)
    · change ((s.setTimer t timer).timer u).attached = true at running
      change ((s.setTimer t timer).timer u).activated = true at running'
      rw [same u self] at running running'
      have inside := told.flag u running running'
      rw [idle] at inside
      exact Or.inl (inside.resolve_right List.not_mem_nil)

theorem Told.takeOff (told : Told s) (idle : s.pending = []) (inside : t ∈ s.lastRow) :
    Told (s.takeOff t) ∧ (s.takeOff t).pending = [t] := by
  have attached := (told.listed t inside).1
  obtain ⟨dropped, away, _⟩ := told.drop t { s.timer t with activated := false } rfl
  have whole : s.takeOff t = { ((s.remove t).setTimer t { s.timer t with activated := false }).setTimer t
      (if (s.timer t).periodic then s.timer t else { s.timer t with activated := false }) with pending := [t] } := by
    simp [State.takeOff, State.setTimer, State.remove, idle, Function.update_idem]
  rw [whole]
  refine ⟨dropped.hold (by simp [State.setTimer, State.remove, idle]) away ?_, rfl⟩
  split <;> exact attached

theorem Told.release (told : Told s) (held : s.pending.Sublist [t]) (away : t ∉ s.lastRow) (timer : RtTimer)
    (inactive : timer.activated = false) : Told ({ s with pending := [] }.setTimer t timer) := by
  have here : ({ s with pending := [] }.setTimer t timer).timer t = timer := State.setTimer_self
  have same : ∀ u, u ≠ t → ({ s with pending := [] }.setTimer t timer).timer u = s.timer u :=
    fun _ => State.setTimer_other
  refine ⟨told.nonempty, told.nested, told.distinct, ?_, fun u waits => absurd waits List.not_mem_nil,
    List.nodup_nil, ?_⟩
  · intro u inside
    have other : u ≠ t := fun self => away (self ▸ inside)
    exact (same u other).symm ▸ told.listed u inside
  · intro u running running'
    have other : u ≠ t := by
      rintro rfl
      rw [here, inactive] at running'
      cases running'
    rw [same u other] at running running'
    rcases told.flag u running running' with inside | waits
    · exact Or.inl inside
    · exact absurd (List.mem_singleton.mp (held.subset waits)) other

theorem Told.restart (told : Told s) (held : s.pending.Sublist [t])
    (kept : t ∈ s.pending → (s.timer t).activated = true → (s.timer t).periodic = true)
    (done : restart s t = some (s', es)) : Told s' ∧ s'.pending = [] := by
  unfold Timer.restart at done
  rcases List.sublist_singleton.mp held with none | holds
  · rw [if_pos (by simp [none])] at done
    cases Option.some.inj done
    exact ⟨told, none⟩
  · rw [if_neg (by simp [holds])] at done
    have waits : t ∈ s.pending := by simp [holds]
    have away := (told.off t waits).1
    have dropped : s.pending.erase t = [] := by simp [holds]
    simp only [dropped] at done
    split at done
    · obtain ⟨m, started, same⟩ := Option.map_eq_some_iff.mp done
      cases same
      obtain ⟨told', pending, _⟩ := (told.release held away { s.timer t with activated := false } rfl).start started
      exact ⟨told', by rw [pending]; rfl⟩
    · rename_i still
      cases Option.some.inj done
      have inactive : (s.timer t).activated = false := by
        by_contra running
        simp only [Bool.not_eq_false] at running
        exact still ⟨kept waits running, running⟩
      have free := told.release held away _ inactive
      rw [State.setTimer, Function.update_eq_self] at free
      exact ⟨free, rfl⟩

theorem start_told (start : (flow level).start f) : Told f.timers ∧ f.Held := by
  obtain ⟨fresh, idle⟩ := start
  have linked := (start_idle fresh).linked
  have detached := fresh.2.2.2
  refine ⟨⟨linked.nonempty, linked.nested, linked.distinct, linked.active, linked.pending, linked.single, ?_⟩, ?_⟩
  · intro t attached
    rw [detached t] at attached
    cases attached
  · rw [Flow.Held, idle]
    exact fresh.2.2.1

theorem flow_step (told : Told f.timers) (held : f.Held) (guard : f.Guard a) (taken : f.step a = some (f', es)) :
    Told f'.timers ∧ f'.Held := by
  obtain ⟨s, place⟩ := f
  cases place with
  | idle =>
    cases a with
    | call call =>
      obtain ⟨r, done, same⟩ := Option.map_eq_some_iff.mp taken
      cases same
      obtain ⟨told', sub⟩ := told.call done
      exact ⟨told', List.sublist_nil.mp (held ▸ sub)⟩
    | setPeriodic t periodic =>
      obtain ⟨m, set, same⟩ := Option.map_eq_some_iff.mp taken
      cases same
      obtain ⟨told', pending⟩ := told.setPeriodic set
      exact ⟨told', pending.trans held⟩
    | tick tick =>
      cases Option.some.inj taken
      exact ⟨⟨told.nonempty, told.nested, told.distinct, told.listed, told.off, told.single, told.flag⟩, held⟩
    | check =>
      cases Option.some.inj taken
      exact ⟨told, held⟩
    | pass => cases taken
    | finish => cases taken
  | checking currentTick =>
    cases a with
    | pass =>
      have same := Option.some.inj taken
      unfold Flow.pass at same
      split at same
      · cases same
        exact ⟨told, held⟩
      · rename_i t rest row
        split at same <;> cases same
        · obtain ⟨told', pending⟩ := told.takeOff held (t := t) (by rw [row]; exact List.mem_cons_self)
          refine ⟨told', ?_⟩
          change (s.takeOff t).pending.Sublist [t]
          rw [pending]
        · exact ⟨told, held⟩
    | call _ => cases taken
    | setPeriodic _ _ => cases taken
    | tick _ => cases taken
    | check => cases taken
    | finish => cases taken
  | callback u =>
    cases a with
    | call call =>
      obtain ⟨r, done, same⟩ := Option.map_eq_some_iff.mp taken
      cases same
      obtain ⟨told', sub⟩ := told.call done
      exact ⟨told', sub.trans held⟩
    | setPeriodic t periodic =>
      obtain ⟨m, set, same⟩ := Option.map_eq_some_iff.mp taken
      cases same
      obtain ⟨told', pending⟩ := told.setPeriodic set
      refine ⟨told', ?_⟩
      change m.pending.Sublist [u]
      rw [pending]
      exact held
    | finish =>
      obtain ⟨r, done, same⟩ := Option.map_eq_some_iff.mp taken
      cases same
      exact told.restart held guard done
    | tick _ => cases taken
    | check => cases taken
    | pass => cases taken

theorem flow_told (run : RunWhere (flow level) Flow.Guard tr f) : Told f.timers ∧ f.Held :=
  run.invariant (I := fun _ f => Told f.timers ∧ f.Held) (fun _ start => start_told start)
    (fun _ _ _ _ _ _ inv guard taken => flow_step inv.1 inv.2 guard taken)

/-- RT_TIMER_FLAG_ACTIVATED is what the list says. -/
def Truthful (s : State) : Prop :=
  ∀ t, (s.timer t).attached = true → (rtTimerGetState s t = true ↔ t ∈ s.lastRow)

theorem timer_flag_truthful (run : RunWhere (flow level) Flow.Guard tr f) (idle : f.place = .idle) :
    Truthful f.timers := by
  obtain ⟨told, held⟩ := flow_told run
  rw [Flow.Held, idle] at held
  intro t attached
  constructor
  · intro running
    rcases told.flag t attached running with inside | waits
    · exact inside
    · rw [held] at waits
      cases waits
  · intro inside
    exact (told.listed t inside).2

/-- A timer that its function makes one-shot, and another one that starts itself again. -/
theorem timer_flag_truthful_rearmed : ∃ tr f, RunWhere (flow 2) Flow.Guard tr f ∧ f.timers.lastRow = [1] ∧
    rtTimerGetState f.timers 0 = false ∧ rtTimerGetState f.timers 1 = true ∧ Truthful f.timers := by
  obtain ⟨tr, f, run, found⟩ := Run.reaches (M := (flow 2).restrict (fun f a => decide (f.Guard a)))
    (s := ⟨⟨0, 0, fun _ => ⟨false, 0, 0, false, false⟩, List.replicate 2 [], []⟩, .idle⟩)
    ⟨⟨by decide, rfl, rfl, fun _ => rfl⟩, rfl⟩
    [.call (.init 0 1 true), .call (.init 1 1 false), .call (.start 0), .call (.start 1), .tick 1, .check,
      .pass, .setPeriodic 0 false, .call (.stop 0), .finish, .pass, .call (.start 1), .finish, .pass]
    (fun f => decide (f.place = .idle ∧ f.timers.lastRow = [1] ∧ rtTimerGetState f.timers 0 = false ∧
      rtTimerGetState f.timers 1 = true)) (by decide +kernel)
  obtain ⟨idle, row, off, on⟩ := of_decide_eq_true found
  have guarded : RunWhere (flow 2) Flow.Guard tr f :=
    RunWhere.ofRestrict (fun _ _ _ _ allowed => of_decide_eq_true allowed) run
  exact ⟨tr, f, guarded, row, off, on, timer_flag_truthful guarded idle⟩

/-- Where the guard fails the timer stays activated and is in no list. -/
theorem finish_strays (told : Told f.timers) (held : f.Held) (wild : ¬f.Guard .finish)
    (taken : f.step .finish = some (f', es)) : ∃ t, (f'.timers.timer t).attached = true ∧
      rtTimerGetState f'.timers t = true ∧ t ∉ f'.timers.lastRow ∧ f'.timers.pending = [] := by
  obtain ⟨s, place⟩ := f
  cases place with
  | idle => cases taken
  | checking currentTick => cases taken
  | callback t =>
    have waits : t ∈ s.pending := by
      by_contra away
      exact wild (fun waits => absurd waits away)
    have running : (s.timer t).activated = true := by
      by_contra inactive
      exact wild (fun _ running => absurd running inactive)
    have oneshot : ¬(s.timer t).periodic = true := fun periodic => wild (fun _ _ => periodic)
    have holds : s.pending = [t] := by
      rcases List.sublist_singleton.mp held with none | holds
      · rw [none] at waits
        cases waits
      · exact holds
    obtain ⟨r, done, same⟩ := Option.map_eq_some_iff.mp taken
    cases same
    simp only [Timer.restart, holds, List.isEmpty_cons, oneshot, Bool.false_eq_true, false_and, if_false] at done
    cases Option.some.inj done
    exact ⟨t, (told.off t waits).2, running, (told.off t waits).1, by simp⟩

/-- A periodic timer whose function makes it one-shot. -/
theorem timer_flag_stale : ∃ tr f, Run (flow 2) tr f ∧ f.place = .idle ∧ ¬Truthful f.timers := by
  obtain ⟨tr, f, run, found⟩ := Run.reaches (M := flow 2)
    (s := ⟨⟨0, 0, fun _ => ⟨false, 0, 0, false, false⟩, List.replicate 2 [], []⟩, .idle⟩)
    ⟨⟨by decide, rfl, rfl, fun _ => rfl⟩, rfl⟩
    [.call (.init 0 1 true), .call (.start 0), .tick 1, .check, .pass, .setPeriodic 0 false, .finish, .pass]
    (fun f => decide (f.place = .idle ∧ (f.timers.timer 0).attached = true ∧ rtTimerGetState f.timers 0 = true ∧
      0 ∉ f.timers.lastRow)) (by decide +kernel)
  obtain ⟨idle, attached, stale, away⟩ := of_decide_eq_true found
  exact ⟨tr, f, run, idle, fun truthful => away ((truthful 0 attached).mp stale)⟩

/-! rt_timer_check in one piece is a run of its passes. -/

theorem calls_flow (level : Nat) (place : Place) {calls : List Call}
    (other : ∀ currentTick, place ≠ .checking currentTick) (done : s.calls calls = some (s', es)) :
    ∃ as, (flow level).exec ⟨s, place⟩ as = some (⟨s', place⟩, es) := by
  induction calls generalizing s es with
  | nil =>
    cases Option.some.inj done
    exact ⟨[], rfl⟩
  | cons call rest ih =>
    unfold State.calls at done
    split at done
    · obtain ⟨⟨m, shown⟩, called, tail⟩ := Option.bind_eq_some_iff.mp done
      obtain ⟨⟨last, later⟩, gone, same⟩ := Option.map_eq_some_iff.mp tail
      cases same
      obtain ⟨as, run⟩ := ih gone
      refine ⟨[.call call] ++ as, Machine.exec_append ?_ run⟩
      have stepped : Flow.step ⟨s, place⟩ (.call call) = some (⟨m, place⟩, shown) := by
        cases place with
        | checking currentTick => exact absurd rfl (other currentTick)
        | idle => simp [Flow.step, called]
        | callback u => simp [Flow.step, called]
      simp [Machine.exec, flow, stepped]
    · exact ih done

theorem expire_flow (level : Nat) {calls : List Call} {rest : List Nat} (row : s.lastRow = t :: rest)
    (due : s.rtTick - (s.timer t).timeoutTick < halfTickMax) (done : expire s t calls = some (s', es)) :
    ∃ as, (flow level).exec ⟨s, .checking s.rtTick⟩ as = some (⟨s', .checking s'.rtTick⟩, es) := by
  obtain ⟨⟨m, shown⟩, called, tail⟩ := Option.bind_eq_some_iff.mp done
  obtain ⟨⟨last, later⟩, restarted, same⟩ := Option.map_eq_some_iff.mp tail
  cases same
  obtain ⟨as, run⟩ := calls_flow level (.callback t) (fun _ => Place.noConfusion) called
  have passed : (flow level).exec ⟨s, .checking s.rtTick⟩ [.pass] =
      some (⟨s.takeOff t, .callback t⟩, [.expired t]) := by
    simp [Machine.exec, flow, Flow.step, Flow.pass, row, due]
  have finished : (flow level).exec ⟨m, .callback t⟩ [.finish] = some (⟨last, .checking last.rtTick⟩, later) := by
    simp [Machine.exec, flow, Flow.step, restarted]
  exact ⟨_, Machine.exec_append (Machine.exec_append passed run) finished⟩

theorem last_pass (level : Nat) (none : ∀ t rest, s.lastRow = t :: rest →
    ¬s.rtTick - (s.timer t).timeoutTick < halfTickMax) :
    (flow level).exec ⟨s, .checking s.rtTick⟩ [.pass] = some (⟨s, .idle⟩, []) := by
  cases row : s.lastRow with
  | nil => simp [Machine.exec, flow, Flow.step, Flow.pass, row]
  | cons t rest => simp [Machine.exec, flow, Flow.step, Flow.pass, row, none t rest row]

theorem checkLoop_flow (level : Nat) {fuel : Nat} {script : List (List Call)}
    (done : checkLoop fuel script s = some (s', es)) :
    ∃ as, (flow level).exec ⟨s, .checking s.rtTick⟩ as = some (⟨s', .idle⟩, es) := by
  induction fuel generalizing s script es with
  | zero =>
    unfold checkLoop at done
    split at done
    · rename_i row
      cases Option.some.inj done
      exact ⟨[.pass], last_pass level (by rw [row]; rintro _ _ ⟨⟩)⟩
    · rename_i t rest row
      split at done
      · contradiction
      · rename_i later
        cases Option.some.inj done
        exact ⟨[.pass], last_pass level (by rw [row]; rintro _ _ ⟨⟩; exact later)⟩
  | succ fuel ih =>
    unfold checkLoop at done
    split at done
    · rename_i row
      cases Option.some.inj done
      exact ⟨[.pass], last_pass level (by rw [row]; rintro _ _ ⟨⟩)⟩
    · rename_i t rest row
      split at done
      · rename_i due
        obtain ⟨⟨m, shown⟩, expired, tail⟩ := Option.bind_eq_some_iff.mp done
        obtain ⟨⟨last, later⟩, gone, same⟩ := Option.map_eq_some_iff.mp tail
        cases same
        obtain ⟨as, first⟩ := expire_flow level row due expired
        obtain ⟨bs, second⟩ := ih gone
        exact ⟨as ++ bs, Machine.exec_append first second⟩
      · rename_i later
        cases Option.some.inj done
        exact ⟨[.pass], last_pass level (by rw [row]; rintro _ _ ⟨⟩; exact later)⟩

theorem timer_check_flow {script : List (List Call)} (done : rtTimerCheck s script = some (s', es)) :
    ∃ as, (flow level).exec ⟨s, .idle⟩ as = some (⟨s', .idle⟩, es) := by
  obtain ⟨as, run⟩ := checkLoop_flow level done
  have entered : (flow level).exec ⟨s, .idle⟩ [.check] = some (⟨s, .checking s.rtTick⟩, []) := rfl
  exact ⟨_, Machine.exec_append entered run⟩

end RtThread.Timer
