import Mathlib.Data.List.Basic
import Mathlib.Logic.Function.Basic
import RtThread.Run

/-! rt_workqueue: the worker thread, and the threads that submit and cancel work. A step is
one interrupt-disabled section, one test made with interrupts enabled, or, for
rt_workqueue_cancel_all_work, what is done with the scheduler locked. No item is delayed. -/
namespace RtThread.WorkQueue
open Transition

inductive Err where
  | eok | ebusy
  deriving DecidableEq

/-- What a submitter has still to do: rt_thread_resume, or its second half. -/
inductive Call where
  | idle | resuming | resumeTested
  deriving DecidableEq

/-- Where the worker is. From `crashed` on it would use an empty list as an item. -/
inductive Pc where
  | testing
  | suspending
  | asleep
  | dequeuing
  | fetched (work : Nat)
  | running (work : Nat)
  | completing
  | crashed
  deriving DecidableEq

/-- `suspended` says that the worker's `stat` is RT_THREAD_SUSPEND. -/
structure State where
  workList : List Nat
  workCurrent : Option Nat
  pending : Nat → Bool
  suspended : Bool
  pc : Pc
  call : Nat → Call

inductive Event where
  | submitted (work : Nat)
  | executed (work : Nat)
  | cancelled (work : Nat)
  | cancelledAll (works : List Nat)
  | dequeuedNothing
  deriving DecidableEq

/-- `worker` is the next step of the worker thread; `block` and `unblock` are what the work
function does to its thread; `resume` is the next step of a submitter's rt_thread_resume. -/
inductive Action where
  | worker
  | block
  | unblock
  | dowork (t work : Nat)
  | critical (t work : Nat)
  | cancel (t work : Nat)
  | cancelAll (t : Nat)
  | resume (t : Nat)

/-- rt_list_remove and rt_list_insert_after at the tail. -/
def State.append (s : State) (work : Nat) : State :=
  { s with workList := s.workList.erase work ++ [work] }

/-- The resume that is due where no work is current. -/
def State.startResume (s : State) (t : Nat) : State :=
  if s.workCurrent = none then { s with call := Function.update s.call t .resuming } else s

def workqueueSubmitWork (s : State) (t work : Nat) : State × Err :=
  if s.pending work then (s, .ebusy)
  else if s.workCurrent = some work then (s, .ebusy)
  else
    let s := { s.append work with pending := Function.update s.pending work true }
    (s.startResume t, .eok)

def rtWorkqueueDowork (s : State) (t work : Nat) : State × Err :=
  workqueueSubmitWork s t work

/-- It neither reads nor sets RT_WORK_STATE_PENDING. -/
def rtWorkqueueCriticalWork (s : State) (t work : Nat) : State × Err :=
  if s.workCurrent = some work then (s, .ebusy)
  else ((s.append work).startResume t, .eok)

def workqueueCancelWork (s : State) (work : Nat) : State × Err :=
  if s.workCurrent = some work then (s, .ebusy)
  else ({ s with
    workList := s.workList.erase work
    pending := Function.update s.pending work false }, .eok)

def rtWorkqueueCancelWork (s : State) (work : Nat) : State × Err :=
  workqueueCancelWork s work

/-- The flags of the items stay as they are. -/
def rtWorkqueueCancelAllWork (s : State) : State :=
  { s with workList := [] }

/-- rt_thread_resume: the test of `stat`, then the section that inserts the thread. -/
def rtThreadResume (s : State) (t : Nat) : Option State :=
  match s.call t with
  | .idle => none
  | .resuming =>
    some { s with call := Function.update s.call t (if s.suspended then .resumeTested else .idle) }
  | .resumeTested =>
    some { s with suspended := false, call := Function.update s.call t .idle }

/-- `_workqueue_thread_entry`, one step. -/
def workqueueThreadEntry (s : State) : State × List Event :=
  match s.pc with
  | .testing => ({ s with pc := if s.workList = [] then .suspending else .dequeuing }, [])
  | .suspending => ({ s with suspended := true, pc := .asleep }, [])
  | .asleep => ({ s with pc := .dequeuing }, [])
  | .dequeuing =>
    match s.workList with
    | [] => ({ s with pc := .crashed }, [.dequeuedNothing])
    | work :: rest =>
      ({ s with
        workList := rest
        workCurrent := some work
        pending := Function.update s.pending work false
        pc := .fetched work }, [])
  | .fetched work => ({ s with pc := .running work }, [.executed work])
  | .running _ => ({ s with workCurrent := none, pc := .completing }, [])
  | .completing => ({ s with pc := .testing }, [])
  | .crashed => (s, [])

def Pc.isRunning : Pc → Bool
  | .running _ => true
  | _ => false

/-- A call that returns, with its event where it is not refused. -/
def answer (r : State × Err) (e : Event) : Option (State × List Event) :=
  some (r.1, if r.2 = .eok then [e] else [])

def step (s : State) : Action → Option (State × List Event)
  | .worker => if s.suspended then none else some (workqueueThreadEntry s)
  | .block => if s.pc.isRunning then some ({ s with suspended := true }, []) else none
  | .unblock => if s.pc.isRunning then some ({ s with suspended := false }, []) else none
  | .dowork t work =>
    if s.call t = .idle then answer (rtWorkqueueDowork s t work) (.submitted work) else none
  | .critical t work =>
    if s.call t = .idle then answer (rtWorkqueueCriticalWork s t work) (.submitted work) else none
  | .cancel t work =>
    if s.call t = .idle then answer (rtWorkqueueCancelWork s work) (.cancelled work) else none
  | .cancelAll t =>
    if s.call t = .idle then some (rtWorkqueueCancelAllWork s, [.cancelledAll s.workList]) else none
  | .resume t => (rtThreadResume s t).map (fun s' => (s', []))

structure Start (s : State) : Prop where
  workList : s.workList = []
  workCurrent : s.workCurrent = none
  pending : ∀ work, s.pending work = false
  suspended : s.suspended = false
  pc : s.pc = .testing
  call : ∀ t, s.call t = .idle

def machine : Machine State Action Event where
  start := Start
  step := step

/-- Whether a submission of `work` is outstanding, after one more event; `none` for an event
that a queue running what was submitted cannot show. -/
def Event.apply (work : Nat) : Event → Bool → Option Bool
  | .submitted w, outstanding =>
    if w = work then (if outstanding then none else some true) else some outstanding
  | .executed w, outstanding =>
    if w = work then (if outstanding then some false else none) else some outstanding
  | .cancelled w, outstanding => some (if w = work then false else outstanding)
  | .cancelledAll ws, outstanding => some (if work ∈ ws then false else outstanding)
  | .dequeuedNothing, outstanding => some outstanding

def replay (work : Nat) (tr : List Event) : Option Bool :=
  tr.foldlM (fun outstanding e => e.apply work outstanding) false

theorem replay_snoc {work : Nat} {tr : List Event} {before : Bool} (shown : replay work tr = some before)
    (e : Event) : replay work (tr ++ [e]) = e.apply work before :=
  replay_one shown e

/-- All that one step can do. -/
inductive Moves (s : State) : Action → State → List Event → Prop where
  | refused {a : Action} : Moves s a s []
  | foundEmpty : s.pc = .testing → s.workList = [] → Moves s .worker { s with pc := .suspending } []
  | foundWork : s.pc = .testing → s.workList ≠ [] → Moves s .worker { s with pc := .dequeuing } []
  | suspended : s.pc = .suspending → Moves s .worker { s with suspended := true, pc := .asleep } []
  | woke : s.pc = .asleep → s.suspended = false → Moves s .worker { s with pc := .dequeuing } []
  | dequeuedNothing : s.pc = .dequeuing → s.workList = [] →
      Moves s .worker { s with pc := .crashed } [.dequeuedNothing]
  | dequeued {work : Nat} {rest : List Nat} : s.pc = .dequeuing → s.workList = work :: rest →
      Moves s .worker { s with
        workList := rest
        workCurrent := some work
        pending := Function.update s.pending work false
        pc := .fetched work } []
  | executed {work : Nat} : s.pc = .fetched work →
      Moves s .worker { s with pc := .running work } [.executed work]
  | finished {work : Nat} : s.pc = .running work → s.suspended = false →
      Moves s .worker { s with workCurrent := none, pc := .completing } []
  | completed : s.pc = .completing → Moves s .worker { s with pc := .testing } []
  | blocked {a : Action} {b : Bool} : s.pc.isRunning = true → Moves s a { s with suspended := b } []
  | dowork {t work : Nat} : s.pending work = false → s.workCurrent ≠ some work →
      Moves s (.dowork t work)
        ({ s.append work with pending := Function.update s.pending work true }.startResume t)
        [.submitted work]
  | critical {t work : Nat} : s.workCurrent ≠ some work →
      Moves s (.critical t work) ((s.append work).startResume t) [.submitted work]
  | cancelled {t work : Nat} : s.workCurrent ≠ some work →
      Moves s (.cancel t work) { s with
        workList := s.workList.erase work
        pending := Function.update s.pending work false } [.cancelled work]
  | cancelledAll {t : Nat} :
      Moves s (.cancelAll t) { s with workList := [] } [.cancelledAll s.workList]
  | resumeFound {t : Nat} : s.call t = .resuming → s.suspended = true →
      Moves s (.resume t) { s with call := Function.update s.call t .resumeTested } []
  | resumeDropped {t : Nat} : s.call t = .resuming → s.suspended = false →
      Moves s (.resume t) { s with call := Function.update s.call t .idle } []
  | resumed {t : Nat} : s.call t = .resumeTested →
      Moves s (.resume t) { s with suspended := false, call := Function.update s.call t .idle } []

theorem moves_worker {s : State} (awake : s.suspended = false) :
    Moves s .worker (workqueueThreadEntry s).1 (workqueueThreadEntry s).2 := by
  cases pc : s.pc with
  | testing =>
    by_cases empty : s.workList = []
    · simpa only [workqueueThreadEntry, pc, if_pos empty] using Moves.foundEmpty pc empty
    · simpa only [workqueueThreadEntry, pc, if_neg empty] using Moves.foundWork pc empty
  | suspending => simpa only [workqueueThreadEntry, pc] using Moves.suspended pc
  | asleep => simpa only [workqueueThreadEntry, pc] using Moves.woke pc awake
  | dequeuing =>
    cases queued : s.workList with
    | nil => simpa only [workqueueThreadEntry, pc, queued] using Moves.dequeuedNothing pc queued
    | cons work rest => simpa only [workqueueThreadEntry, pc, queued] using Moves.dequeued pc queued
  | fetched work => simpa only [workqueueThreadEntry, pc] using Moves.executed pc
  | running work => simpa only [workqueueThreadEntry, pc] using Moves.finished pc awake
  | completing => simpa only [workqueueThreadEntry, pc] using Moves.completed pc
  | crashed => simpa only [workqueueThreadEntry, pc] using Moves.refused

theorem moves_resume {s s' : State} {t : Nat} (taken : rtThreadResume s t = some s') :
    Moves s (.resume t) s' [] := by
  cases call : s.call t with
  | idle => simp [rtThreadResume, call] at taken
  | resuming =>
    cases suspended : s.suspended with
    | true =>
      simp only [rtThreadResume, call, suspended, if_true, Option.some.injEq] at taken
      subst taken
      exact suspended ▸ Moves.resumeFound call suspended
    | false =>
      simp only [rtThreadResume, call, suspended, Bool.false_eq_true, if_false,
        Option.some.injEq] at taken
      subst taken
      exact suspended ▸ Moves.resumeDropped call suspended
  | resumeTested =>
    simp only [rtThreadResume, call, Option.some.injEq] at taken
    subst taken
    exact .resumed call

theorem moves_submit {s : State} {t work : Nat} :
    Moves s (.dowork t work) (rtWorkqueueDowork s t work).1
      (if (rtWorkqueueDowork s t work).2 = .eok then [.submitted work] else []) := by
  simp only [rtWorkqueueDowork, workqueueSubmitWork]
  split
  · exact .refused
  · rename_i clear
    split
    · exact .refused
    · rename_i other
      exact .dowork (by simpa using clear) other

/-- The inversion lemma of `step`. -/
theorem moves {s s' : State} {a : Action} {es : List Event} (taken : step s a = some (s', es)) :
    Moves s a s' es := by
  cases a with
  | worker =>
    simp only [step] at taken
    split at taken
    · contradiction
    · rename_i awake
      have moved := moves_worker (s := s) (by simpa using awake)
      rwa [Option.some.inj taken] at moved
  | block =>
    simp only [step] at taken
    split at taken
    · rename_i running
      cases taken
      exact .blocked running
    · contradiction
  | unblock =>
    simp only [step] at taken
    split at taken
    · rename_i running
      cases taken
      exact .blocked running
    · contradiction
  | dowork t work =>
    simp only [step] at taken
    split at taken
    · cases taken
      exact moves_submit
    · contradiction
  | critical t work =>
    simp only [step, rtWorkqueueCriticalWork] at taken
    split at taken
    · split at taken
      · cases taken
        exact .refused
      · rename_i other
        cases taken
        exact .critical other
    · contradiction
  | cancel t work =>
    simp only [step, rtWorkqueueCancelWork, workqueueCancelWork] at taken
    split at taken
    · split at taken
      · cases taken
        exact .refused
      · rename_i other
        cases taken
        exact .cancelled other
    · contradiction
  | cancelAll t =>
    simp only [step] at taken
    split at taken
    · cases taken
      exact .cancelledAll
    · contradiction
  | resume t =>
    obtain ⟨next, resumed, same⟩ := Option.map_eq_some_iff.mp taken
    cases same
    exact moves_resume resumed

@[simp] theorem startResume_workList (s : State) (t : Nat) : (s.startResume t).workList = s.workList := by
  simp only [State.startResume]; split <;> rfl

@[simp] theorem startResume_workCurrent (s : State) (t : Nat) :
    (s.startResume t).workCurrent = s.workCurrent := by
  simp only [State.startResume]; split <;> rfl

@[simp] theorem startResume_pending (s : State) (t : Nat) : (s.startResume t).pending = s.pending := by
  simp only [State.startResume]; split <;> rfl

@[simp] theorem startResume_suspended (s : State) (t : Nat) : (s.startResume t).suspended = s.suspended := by
  simp only [State.startResume]; split <;> rfl

@[simp] theorem startResume_pc (s : State) (t : Nat) : (s.startResume t).pc = s.pc := by
  simp only [State.startResume]; split <;> rfl

theorem startResume_call {s : State} {t : Nat} (none : s.workCurrent = none) :
    (s.startResume t).call t ≠ .idle := by
  simp [State.startResume, none]

def Pc.work : Pc → Option Nat
  | .fetched work | .running work => some work
  | _ => none

/-- What holds in every run. -/
structure Sound (s : State) : Prop where
  nodup : s.workList.Nodup
  current : s.workCurrent = s.pc.work
  notQueued : ∀ w, s.pc.work = some w → w ∉ s.workList
  blocked : s.suspended = true → s.pc = .asleep ∨ s.pc.isRunning = true

theorem nodup_append {l : List Nat} (nodup : l.Nodup) (w : Nat) : (l.erase w ++ [w]).Nodup := by
  refine List.nodup_append.mpr ⟨nodup.erase w, by simp, ?_⟩
  rintro v kept _ last rfl
  cases List.mem_singleton.mp last
  exact (nodup.mem_erase_iff.mp kept).1 rfl

theorem mem_append {l : List Nat} (nodup : l.Nodup) {v w : Nat} :
    v ∈ l.erase w ++ [w] ↔ v ∈ l ∨ v = w := by
  rw [List.mem_append, nodup.mem_erase_iff, List.mem_singleton]
  grind

theorem Sound.submitted {s : State} (sound : Sound s) {t w : Nat} {pending : Nat → Bool}
    (other : s.workCurrent ≠ some w) :
    Sound ({ s.append w with pending := pending }.startResume t) where
  nodup := by simpa [State.append] using nodup_append sound.nodup w
  current := by simpa [State.append] using sound.current
  notQueued v held := by
    simp only [startResume_pc, State.append] at held
    simp only [startResume_workList, State.append, mem_append sound.nodup]
    rintro (queued | rfl)
    · exact sound.notQueued v held queued
    · exact other (sound.current.trans held)
  blocked := by simpa [State.append] using sound.blocked

theorem Sound.step {s s' : State} {a : Action} {es : List Event} (sound : Sound s)
    (moved : Moves s a s' es) : Sound s' := by
  cases moved with
  | refused => exact sound
  | foundEmpty pc | foundWork pc | suspended pc | completed pc | dequeuedNothing pc =>
    constructor
    · exact sound.nodup
    · simpa [Pc.work, pc] using sound.current
    · simp [Pc.work]
    · have := sound.blocked
      simp_all [Pc.isRunning]
  | woke pc awake =>
    constructor
    · exact sound.nodup
    · simpa [Pc.work, pc] using sound.current
    · simp [Pc.work]
    · simp [awake]
  | @dequeued work rest pc queued =>
    have nodup := sound.nodup
    rw [queued, List.nodup_cons] at nodup
    constructor
    · exact nodup.2
    · rfl
    · rintro w held
      cases held
      exact nodup.1
    · have := sound.blocked
      simp_all [Pc.isRunning]
  | executed pc =>
    constructor
    · exact sound.nodup
    · simpa [Pc.work, pc] using sound.current
    · simpa [Pc.work, pc] using sound.notQueued
    · simp [Pc.isRunning]
  | finished pc awake =>
    constructor
    · exact sound.nodup
    · rfl
    · simp [Pc.work]
    · simp [awake]
  | blocked running =>
    constructor
    · exact sound.nodup
    · exact sound.current
    · exact sound.notQueued
    · exact fun _ => Or.inr running
  | dowork clear other => exact sound.submitted other
  | critical other => exact sound.submitted other
  | cancelled other =>
    constructor
    · exact sound.nodup.erase _
    · exact sound.current
    · exact fun w held queued => sound.notQueued w held (List.mem_of_mem_erase queued)
    · exact sound.blocked
  | cancelledAll =>
    constructor
    · exact List.nodup_nil
    · exact sound.current
    · exact fun _ _ => List.not_mem_nil
    · exact sound.blocked
  | resumeFound | resumeDropped => exact ⟨sound.nodup, sound.current, sound.notQueued, sound.blocked⟩
  | resumed =>
    constructor
    · exact sound.nodup
    · exact sound.current
    · exact sound.notQueued
    · simp

theorem start_sound {s : State} (start : Start s) : Sound s where
  nodup := by simp [start.workList]
  current := by simp [start.workCurrent, start.pc, Pc.work]
  notQueued := by simp [start.pc, Pc.work]
  blocked := by simp [start.suspended]

/-- The worker is suspended for want of work, or about to suspend itself. -/
def State.Resting (s : State) : Prop :=
  s.pc = .suspending ∨ s.pc = .asleep ∧ s.suspended = true

/-- A worker at rest with work to do has still a resume to come. -/
def Woken (s : State) : Prop :=
  s.workList ≠ [] → s.Resting → ∃ t, s.call t ≠ .idle

/-- No call of rt_thread_resume ends between the worker's emptiness test and its suspension,
with an item in the list and no other resume to come. -/
def ResumeKept (s : State) (t : Nat) : Prop :=
  s.pc = .suspending → s.workList ≠ [] → ∃ u, u ≠ t ∧ s.call u ≠ .idle

theorem Sound.resting_current {s : State} (sound : Sound s) (resting : s.Resting) :
    s.workCurrent = none := by
  rw [sound.current]
  rcases resting with pc | ⟨pc, _⟩ <;> simp [pc, Pc.work]

theorem Woken.step {s s' : State} {a : Action} {es : List Event} (woken : Woken s) (sound : Sound s)
    (kept : ∀ t, a = .resume t → ResumeKept s t) (moved : Moves s a s' es) : Woken s' := by
  intro work resting
  cases moved with
  | refused => exact woken work resting
  | foundEmpty pc empty => exact absurd empty work
  | suspended pc => exact woken work (.inl pc)
  | foundWork | woke | dequeuedNothing | dequeued | executed | finished | completed =>
    simp [State.Resting] at resting
  | blocked running =>
    rcases resting with pc | ⟨pc, _⟩ <;> simp_all [Pc.isRunning]
  | @dowork t w _ _ | @critical t w _ =>
    have before : s.Resting := by simpa [State.Resting, State.append] using resting
    exact ⟨t, startResume_call (sound.resting_current before)⟩
  | cancelled =>
    apply woken
    · rintro empty
      simp [empty] at work
    · exact resting
  | cancelledAll => exact absurd rfl work
  | @resumeFound t _ _ => exact ⟨t, by simp⟩
  | @resumeDropped t _ awake =>
    rcases resting with pc | ⟨_, asleep⟩
    · obtain ⟨u, other, busy⟩ := kept t rfl pc work
      exact ⟨u, by simpa [other] using busy⟩
    · simp [awake] at asleep
  | @resumed t _ =>
    rcases resting with pc | ⟨_, asleep⟩
    · obtain ⟨u, other, busy⟩ := kept t rfl pc work
      exact ⟨u, by simpa [other] using busy⟩
    · simp at asleep

theorem start_woken {s : State} (start : Start s) : Woken s :=
  fun work => absurd start.workList work

/-- Work that waits while the worker sleeps and nobody is about to wake it. -/
structure Lost (s : State) : Prop where
  work : s.workList ≠ []
  idle : s.workCurrent = none
  suspended : s.suspended = true
  noResume : ∀ t, s.call t = .idle

theorem Woken.notLost {s : State} (woken : Woken s) (sound : Sound s) : ¬ Lost s := by
  rintro ⟨work, idle, suspended, noResume⟩
  have asleep : s.pc = .asleep := by
    rcases sound.blocked suspended with asleep | running
    · exact asleep
    · rw [sound.current] at idle
      cases pc : s.pc <;> simp_all [Pc.isRunning, Pc.work]
  obtain ⟨t, busy⟩ := woken work (.inr ⟨asleep, suspended⟩)
  exact busy (noResume t)

theorem run_sound {tr : List Event} {s : State} (run : Run machine tr s) : Sound s :=
  run.always (fun _ => start_sound) (fun _ _ _ _ sound taken => sound.step (moves taken))

/-- Where a resume is not kept, the worker's next step loses the work. -/
theorem resume_dropped_loses {s : State} {t : Nat} (sound : Sound s) (busy : s.call t = .resuming)
    (dropped : ¬ ResumeKept s t) :
    ∃ s' s'', step s (.resume t) = some (s', []) ∧ step s' .worker = some (s'', []) ∧ Lost s'' := by
  simp only [ResumeKept, not_forall, not_exists, not_and, not_not] at dropped
  obtain ⟨pc, work, others⟩ := dropped
  have awake : s.suspended = false := by
    have := sound.blocked
    simp_all [Pc.isRunning]
  refine ⟨{ s with call := Function.update s.call t .idle },
    { s with call := Function.update s.call t .idle, suspended := true, pc := .asleep }, ?_, ?_, ?_⟩
  · simp [step, rtThreadResume, busy, awake]
  · simp [step, workqueueThreadEntry, awake, pc]
  refine ⟨work, sound.resting_current (.inl pc), rfl, ?_⟩
  intro u
  by_cases same : u = t
  · simp [same]
  · simpa [same] using others u same

/-- In every run in which no such resume is dropped, no work is lost. -/
theorem work_wakes_worker {tr : List Event} {s : State}
    (run : RunWhere machine (fun s a => ∀ t, a = .resume t → ResumeKept s t) tr s) : ¬ Lost s := by
  have woken := run.invariant (I := fun _ s => Woken s) (fun _ => start_woken)
    (fun _ _ _ _ _ before woken kept taken => woken.step (run_sound before) kept (moves taken))
  exact woken.notLost (run_sound run.run)

def initial : State := ⟨[], none, fun _ => false, false, .testing, fun _ => .idle⟩

theorem initial_start : machine.start initial :=
  ⟨rfl, rfl, fun _ => rfl, rfl, rfl, fun _ => rfl⟩

/-- No rt_thread_resume ends between the test and the suspension. -/
def resumeChecked (s : State) : Action → Bool
  | .resume _ => s.pc != .suspending
  | _ => true

theorem resumeChecked_sound {s : State} {a : Action} (checked : resumeChecked s a = true) :
    ∀ t, a = .resume t → ResumeKept s t := by
  rintro t rfl pc
  simp [resumeChecked, pc] at checked

theorem work_wakes_worker_one : ∃ s, ¬ Lost s ∧ s.pc = .running 7 := by
  obtain ⟨s, run, pc⟩ := Run.shows (M := machine.restrict resumeChecked) (s := initial) initial_start
    [.worker, .worker, .dowork 0 7, .resume 0, .resume 0, .worker, .worker, .worker]
    [.submitted 7, .executed 7] (fun s => s.pc == .running 7) (by decide)
  exact ⟨s, work_wakes_worker (RunWhere.ofRestrict (fun _ _ _ _ => resumeChecked_sound) run),
    by simpa using pc⟩

/-- The worker finds the list empty, is preempted by a submission whose resume finds it ready,
and suspends itself. -/
theorem wakeup_lost : ∃ tr s, Run machine tr s ∧ Lost s := by
  have ran : machine.exec initial [.worker, .dowork 0 7, .resume 0, .worker] = some
      (⟨[7], none, Function.update (fun _ => false) 7 true, true, .asleep,
        Function.update (Function.update (fun _ => .idle) 0 .resuming) 0 .idle⟩, [.submitted 7]) := rfl
  refine ⟨_, _, (Run.start initial_start).exec ran, List.cons_ne_nil _ _, rfl, rfl, ?_⟩
  intro t
  by_cases same : t = 0
  · simp [same]
  · simp [same]

/-- The worker takes an item out of the list next, without another look at it. -/
def State.Due (s : State) : Prop :=
  s.pc = .dequeuing ∨ s.pc = .asleep ∧ s.suspended = false

/-- No resume is dropped or comes after its item is gone, no cancellation empties the list of
a worker that has been woken, and no queued item is submitted again over a clear flag. -/
def Guard (s : State) : Action → Prop
  | .resume t =>
    ResumeKept s t ∧
      (s.call t = .resumeTested → s.pc = .asleep → s.suspended = true → s.workList ≠ [])
  | .dowork _ work => work ∈ s.workList → s.pending work = true
  | .critical _ work => work ∉ s.workList
  | .cancel _ work => s.Due → s.workList ≠ [work]
  | .cancelAll _ => ¬ s.Due
  | _ => True

def Fed (s : State) : Prop := s.Due → s.workList ≠ []

theorem erase_ne_nil {l : List Nat} {w : Nat} (work : l ≠ []) (more : l ≠ [w]) : l.erase w ≠ [] := by
  cases l with
  | nil => exact absurd rfl work
  | cons v rest =>
    cases rest with
    | nil =>
      have other : v ≠ w := fun same => more (by rw [same])
      simp [other]
    | cons u rest =>
      rw [List.erase_cons]
      split <;> simp

theorem Fed.step {s s' : State} {a : Action} {es : List Event} (fed : Fed s) (sound : Sound s)
    (allowed : Guard s a) (moved : Moves s a s' es) : Fed s' := by
  intro due
  cases moved with
  | refused => exact fed due
  | foundWork pc work => exact work
  | woke pc awake => exact fed (.inr ⟨pc, awake⟩)
  | foundEmpty | suspended | dequeuedNothing | dequeued | executed | finished | completed =>
    simp [State.Due] at due
  | blocked running => rcases due with pc | ⟨pc, _⟩ <;> simp_all [Pc.isRunning]
  | dowork | critical => simp [State.append]
  | cancelled =>
    have before : s.Due := by simpa [State.Due] using due
    exact erase_ne_nil (fed before) (allowed before)
  | cancelledAll =>
    have before : s.Due := by simpa [State.Due] using due
    exact absurd before allowed
  | resumeFound | resumeDropped => exact fed due
  | resumed call =>
    cases asleep : s.suspended with
    | true =>
      rcases sound.blocked asleep with pc | running
      · exact allowed.2 call pc asleep
      · rcases due with pc | ⟨pc, _⟩ <;> simp_all [Pc.isRunning]
    | false =>
      apply fed
      rcases due with pc | ⟨pc, _⟩
      · exact .inl pc
      · exact .inr ⟨pc, asleep⟩

/-- A submission of the item is outstanding. -/
def State.Owed (s : State) (work : Nat) : Prop :=
  work ∈ s.workList ∨ s.pc = .fetched work

instance (s : State) (work : Nat) : Decidable (s.Owed work) :=
  inferInstanceAs (Decidable (_ ∨ _))

/-- The trace is one of a queue that owes exactly what the state owes. -/
def Replayed (tr : List Event) (s : State) : Prop :=
  .dequeuedNothing ∉ tr ∧ ∀ w, replay w tr = some (decide (s.Owed w))

theorem Replayed.silent {tr : List Event} {s s' : State} (shown : Replayed tr s)
    (same : ∀ w, s'.Owed w ↔ s.Owed w) : Replayed (tr ++ []) s' := by
  rw [List.append_nil]
  exact ⟨shown.1, fun w => by rw [shown.2 w]; simp [same w]⟩

theorem Replayed.shows {tr : List Event} {s s' : State} {e : Event} (shown : Replayed tr s)
    (something : e ≠ .dequeuedNothing)
    (next : ∀ w, e.apply w (decide (s.Owed w)) = some (decide (s'.Owed w))) : Replayed (tr ++ [e]) s' := by
  refine ⟨?_, fun w => (replay_snoc (shown.2 w) e).trans (next w)⟩
  simpa [shown.1] using something.symm

theorem Replayed.submitted {tr : List Event} {s s' : State} {v : Nat} (shown : Replayed tr s)
    (sound : Sound s) (fresh : v ∉ s.workList) (other : s.workCurrent ≠ some v)
    (list : s'.workList = s.workList.erase v ++ [v]) (pc : s'.pc = s.pc) :
    Replayed (tr ++ [.submitted v]) s' := by
  apply shown.shows (by simp)
  intro w
  have owed : s'.Owed w ↔ s.Owed w ∨ w = v := by
    simp only [State.Owed, list, pc, mem_append sound.nodup]
    grind
  by_cases same : v = w
  · subst same
    have before : ¬ s.Owed v := by
      rintro (queued | fetched)
      · exact fresh queued
      · exact other (by rw [sound.current, fetched, Pc.work])
    simp [Event.apply, before, owed]
  · simp [Event.apply, same, owed, Ne.symm same]

theorem Replayed.step {tr es : List Event} {s s' : State} {a : Action} (shown : Replayed tr s)
    (sound : Sound s) (fed : Fed s) (allowed : Guard s a) (moved : Moves s a s' es) :
    Replayed (tr ++ es) s' := by
  cases moved with
  | refused | resumeFound | resumeDropped | resumed | blocked => exact shown.silent (fun _ => Iff.rfl)
  | foundEmpty pc | foundWork pc | suspended pc | woke pc | finished pc | completed pc =>
    exact shown.silent (fun w => by simp [State.Owed, pc])
  | dequeuedNothing pc empty => exact absurd empty (fed (.inl pc))
  | dequeued pc queued =>
    exact shown.silent (fun w => by simp [State.Owed, pc, queued]; grind)
  | @executed v pc =>
    apply shown.shows (by simp)
    intro w
    have gone : v ∉ s.workList := sound.notQueued v (by rw [pc, Pc.work])
    by_cases same : v = w
    · subst same
      simp [Event.apply, State.Owed, pc, gone]
    · simp [Event.apply, State.Owed, pc, same]
  | @dowork t v clear other =>
    refine shown.submitted sound ?_ other (by simp [State.append]) (by simp [State.append])
    intro queued
    simp [allowed queued] at clear
  | critical other => exact shown.submitted sound allowed other (by simp [State.append]) (by simp [State.append])
  | @cancelled t v other =>
    apply shown.shows (by simp)
    intro w
    have held : s.pc ≠ .fetched v := by
      intro fetched
      exact other (by rw [sound.current, fetched, Pc.work])
    by_cases same : v = w
    · subst same
      simp [Event.apply, State.Owed, sound.nodup.mem_erase_iff, held]
    · have kept : w ∈ s.workList.erase v ↔ w ∈ s.workList := by
        rw [sound.nodup.mem_erase_iff, and_iff_right (Ne.symm same)]
      simp only [Event.apply, if_neg same]
      exact congrArg some (decide_eq_decide.mpr (or_congr_left kept.symm))
  | cancelledAll =>
    apply shown.shows (by simp)
    intro w
    by_cases queued : w ∈ s.workList
    · have held : s.pc ≠ .fetched w := fun fetched => sound.notQueued w (by rw [fetched, Pc.work]) queued
      simp [Event.apply, State.Owed, queued, held]
    · simp [Event.apply, State.Owed, queued]

/-- What holds in every run that meets the guard. -/
structure Live (s : State) : Prop where
  sound : Sound s
  woken : Woken s
  fed : Fed s
  going : s.pc ≠ .crashed

theorem Guard.kept {s : State} {a : Action} (allowed : Guard s a) (t : Nat) (resume : a = .resume t) :
    ResumeKept s t := by
  subst resume
  exact allowed.1

theorem Live.step {s s' : State} {a : Action} {es : List Event} (live : Live s) (allowed : Guard s a)
    (taken : step s a = some (s', es)) : Live s' := by
  have moved := moves taken
  refine ⟨live.sound.step moved, live.woken.step live.sound allowed.kept moved,
    live.fed.step live.sound allowed moved, ?_⟩
  have going := live.going
  cases moved with
  | dequeuedNothing pc empty => exact absurd empty (live.fed (.inl pc))
  | dowork | critical => simpa [State.append] using going
  | _ => simp_all

theorem Live.worker {s s' : State} {es : List Event} (live : Live s)
    (taken : WorkQueue.step s .worker = some (s', es)) : Live s' :=
  live.step (a := .worker) trivial taken

/-- A step of the worker, of a resume that is on its way, or of what the work function waits for. -/
def Action.drives : Action → Bool
  | .worker | .unblock | .resume _ => true
  | _ => false

/-- Such steps alone get the item executed. -/
def Leads (s : State) (work : Nat) : Prop :=
  ∃ as s' es, (∀ a ∈ as, a.drives = true) ∧ machine.exec s as = some (s', es) ∧ .executed work ∈ es

theorem Leads.back {s s' : State} {w : Nat} {a : Action} {es : List Event} (drives : a.drives = true)
    (taken : step s a = some (s', es)) (leads : Leads s' w) : Leads s w := by
  obtain ⟨as, last, shown, all, done, executed⟩ := leads
  refine ⟨a :: as, last, es ++ shown, ?_, ?_, List.mem_append_right es executed⟩
  · simpa [drives] using all
  · have taken : machine.step s a = some (s', es) := taken
    simp [Machine.exec, taken, done]

theorem Leads.now {s s' : State} {w : Nat} {a : Action} (drives : a.drives = true)
    (taken : step s a = some (s', [.executed w])) : Leads s w := by
  refine ⟨[a], s', [.executed w], by simpa using drives, ?_, List.mem_singleton.mpr rfl⟩
  have taken : machine.step s a = some (s', [.executed w]) := taken
  simp [Machine.exec, taken]

section
variable {work : Nat} {l : List Nat} (dequeues : ∀ s, Live s → s.pc = .dequeuing → s.suspended = false →
  s.workList = l → Leads s work)
include dequeues

end

def guardChecked (s : State) : Action → Bool
  | .resume t =>
    s.pc != .suspending &&
      !(s.call t == .resumeTested && s.pc == .asleep && s.suspended && s.workList.isEmpty)
  | .dowork _ work => !s.workList.contains work
  | .critical _ work => !s.workList.contains work
  | .cancel _ work => s.workList != [work]
  | .cancelAll _ => s.pc.isRunning
  | _ => true

theorem guardChecked_sound {s : State} {a : Action} (checked : guardChecked s a = true) : Guard s a := by
  cases a with
  | resume t =>
    simp only [guardChecked, Bool.and_eq_true, bne_iff_ne] at checked
    refine ⟨fun pc => absurd pc checked.1, fun call pc asleep => ?_⟩
    simpa [call, pc, asleep] using checked.2
  | dowork t work =>
    intro queued
    simp [guardChecked, queued] at checked
  | critical t work => simpa [guardChecked, Guard] using checked
  | cancel t work =>
    intro _
    simpa [guardChecked] using checked
  | cancelAll t =>
    rintro (pc | ⟨pc, _⟩) <;> simp [guardChecked, pc, Pc.isRunning] at checked
  | _ => trivial

/-- A worker that is due with an empty list takes the list's head for an item. -/
theorem due_empty_dequeues_nothing {s : State} (sound : Sound s) (due : s.Due) (empty : s.workList = []) :
    ∃ as s', machine.exec s as = some (s', [.dequeuedNothing]) ∧ s'.pc = .crashed := by
  rcases due with pc | ⟨pc, awake⟩
  · have awake : s.suspended = false := by
      have := sound.blocked
      simp_all [Pc.isRunning]
    refine ⟨[.worker], { s with pc := .crashed }, ?_, rfl⟩
    simp [Machine.exec, machine, step, awake, workqueueThreadEntry, pc, empty]
  · refine ⟨[.worker, .worker], { s with pc := .crashed }, ?_, rfl⟩
    simp [Machine.exec, machine, step, awake, workqueueThreadEntry, pc, empty]

end RtThread.WorkQueue
