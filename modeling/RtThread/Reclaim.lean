import Mathlib.Data.List.Induction
import RtThread.Parked
import RtThread.Preempt

/-! Threads made by rt_thread_create, up to the time when the idle thread gives their stacks and
objects back (thread.c, idle.c). The node of a thread serves the ready lists, the wait lists and
rt_thread_defunct. -/
namespace RtThread.Reclaim
open Kernel Transition

/-- `alive t`: there is a thread object at `t`. The address of one that has been freed may be used
again. -/
structure State where
  kernel : Kernel
  alive : Tid → Bool

/-- `defunct` is the insertion into rt_thread_defunct. -/
inductive Event where
  | created (t : Tid)
  | defunct (t : Tid)
  | stackFreed (t : Tid)
  | objectFreed (t : Tid)
  deriving DecidableEq

def Event.thread : Event → Tid
  | .created t | .defunct t | .stackFreed t | .objectFreed t => t

/-- `block` is made by the current thread, `delete` by another one than `t`. `release` and `releaseAll`
are the wake-ups of ipc.c, before the rt_schedule that some of its functions make. `reclaim` is a turn of
the loop in rt_thread_idle_excute. -/
inductive Action where
  | schedulerStart
  | create (t : Tid) (priority : Nat)
  | startup (t : Tid)
  | block (o : Nat) (flag : IpcFlag) (time : Int)
  | release (o : Nat)
  | releaseAll (o : Nat)
  | schedule
  | expire (t : Tid)
  | delete (t : Tid)
  | exit
  | reclaim

def rtThreadCreate (s : State) (t : Tid) (priority : Nat) : Option (State × List Event) :=
  if s.alive t ∨ ¬priority < rtThreadPriorityMax then none
  else
    some (⟨s.kernel.modify t (fun _ => rtThreadInit priority false), Function.update s.alive t true⟩, [.created t])

def deleteOther (s : State) (t : Tid) : Option (State × List Event) :=
  if s.alive t ∧ s.kernel.currentThread ≠ some t then
    (s.kernel.rtThreadDelete t).map (fun k =>
      ({ s with kernel := k }, if (s.kernel.thread t).stat = .close then [] else [.defunct t]))
  else none

def exitCurrent (s : State) (t : Tid) : Option (State × List Event) :=
  s.kernel.rtThreadExit.map (fun k =>
    ({ s with kernel := k }, if (s.kernel.thread t).systemObject then [] else [.defunct t]))

/-- The first thread of rt_thread_defunct. -/
def reclaimFirst (s : State) (t : Tid) : State × List Event :=
  (⟨s.kernel.rtListRemove t, Function.update s.alive t false⟩, [.stackFreed t, .objectFreed t])

/-- The loop. A turn takes a thread off the list, so its length at entry is enough fuel. -/
def idleLoop : Nat → State → Option (State × List Event)
  | fuel, s =>
    match s.kernel.list .defunct with
    | [] => some (s, [])
    | t :: _ =>
      match fuel with
      | 0 => none
      | fuel + 1 => (idleLoop fuel (reclaimFirst s t).1).map (fun r => (r.1, (reclaimFirst s t).2 ++ r.2))

def rtThreadIdleExcute (s : State) : Option (State × List Event) :=
  idleLoop (s.kernel.list .defunct).length s

/-- rt_system_startup starts the idle thread before the scheduler; it neither blocks nor exits. -/
def step (idle : Tid) (s : State) : Action → Option (State × List Event)
  | .schedulerStart =>
    if s.kernel.currentThread = none ∧ (s.kernel.thread idle).stat = .ready then
      s.kernel.rtSystemSchedulerStart.map (fun k => ({ s with kernel := k }, []))
    else none
  | .create t priority => rtThreadCreate s t priority
  | .startup t => if s.alive t then (s.kernel.rtThreadStartup t).map (fun k => ({ s with kernel := k }, [])) else none
  | .block o flag time =>
    if s.kernel.currentThread = some idle then none
    else (threadStep s.kernel (.block o flag time)).map (fun k => ({ s with kernel := k }, []))
  | .release o => some ({ s with kernel := s.kernel.rtIpcListResume (.wait o) }, [])
  | .releaseAll o => (s.kernel.rtIpcListResumeAll (.wait o)).map (fun k => ({ s with kernel := k }, []))
  | .schedule =>
    if s.kernel.currentThread = none then none
    else s.kernel.rtSchedule.map (fun k => ({ s with kernel := k }, []))
  | .expire t =>
    if s.kernel.currentThread = none then none
    else ((s.kernel.timerExpire t).bind rtSchedule).map (fun k => ({ s with kernel := k }, []))
  | .delete t => deleteOther s t
  | .exit =>
    match s.kernel.currentThread with
    | none => none
    | some t => if t = idle then none else exitCurrent s t
  | .reclaim =>
    match s.kernel.list .defunct with
    | [] => none
    | t :: _ => some (reclaimFirst s t)

/-- After rt_system_scheduler_init: no thread has been created, or started. -/
structure Start (idle : Tid) (s : State) : Prop where
  threads : ThreadStart s.kernel
  fixed : ∀ t, s.alive t = true → (s.kernel.thread t).systemObject = true
  timer : ∀ t, (s.kernel.thread t).timer.activated = false
  idleAlive : s.alive idle = true
  unlocked : s.kernel.schedulerLockNest = 0

def machine (idle : Tid) : Machine State Action Event where
  start := Start idle
  step := step idle

/-- What has become of a thread object. -/
inductive Life where
  | absent
  | live
  | defunct
  | stackFreed
  deriving DecidableEq

/-- The only order in which the events of thread `t` may come. -/
def track (t : Tid) (l : Life) (e : Event) : Option Life :=
  if e.thread = t then
    match l, e with
    | .absent, .created _ => some .live
    | .live, .defunct _ => some .defunct
    | .defunct, .stackFreed _ => some .stackFreed
    | .stackFreed, .objectFreed _ => some .absent
    | _, _ => none
  else some l

/-- The object of a created thread, as the state has it. -/
def State.life (s : State) (t : Tid) : Life :=
  if s.alive t && !(s.kernel.thread t).systemObject then
    if (s.kernel.thread t).stat = .close then .defunct else .live
  else .absent

structure Inv (idle : Tid) (s : State) : Prop where
  ready : ReadyInv s.kernel
  parked : Parked s.kernel
  defunct : ∀ t, t ∈ s.kernel.list .defunct ↔ s.life t = .defunct
  once : (s.kernel.list .defunct).Nodup
  timer : ∀ t, (s.kernel.thread t).timer.activated = true → (s.kernel.thread t).stat = .suspend
  absent : ∀ t, s.alive t = false → (s.kernel.thread t).stat = .init ∨ (s.kernel.thread t).stat = .close
  idleReady : s.kernel.currentThread ≠ none → (s.kernel.thread idle).stat = .ready
  idleFixed : s.alive idle = true ∧ (s.kernel.thread idle).systemObject = true
  unlocked : s.kernel.schedulerLockNest = 0

/-- The running thread is a ready one. -/
def Runs (s : State) : Prop := ∀ u, s.kernel.currentThread = some u → (s.kernel.thread u).stat = .ready

variable {idle : Tid} {s s' : State} {k k' m : Kernel} {t u : Tid} {es tr : List Event}

/-- A part of a call changes `t` and takes its node off the lists. -/
structure Touch (k k' : Kernel) (t : Tid) : Prop where
  others : ∀ u, u ≠ t → k'.thread u = k.thread u
  list : k'.list .defunct = (k.list .defunct).filter (· ≠ t)
  lock : k'.schedulerLockNest = k.schedulerLockNest
  systemObject : (k'.thread t).systemObject = (k.thread t).systemObject

/-- The threads are what the events have made of them. -/
def Moves (s s' : State) (es : List Event) : Prop := ∀ t, es.foldlM (track t) (s.life t) = some (s'.life t)

/-- A step after which every thread object is as before. -/
structure Kept (idle : Tid) (s s' : State) : Prop where
  inv : Inv idle s'
  runs : Runs s'
  life : ∀ t, s'.life t = s.life t

theorem Kept.trans {m : State} (first : Kept idle s m) (second : Kept idle m s') : Kept idle s s' :=
  ⟨second.inv, second.runs, fun t => (second.life t).trans (first.life t)⟩

theorem Kept.moves (kept : Kept idle s s') : Moves s s' [] := fun t => congrArg some (kept.life t).symm

theorem track_other {e : Event} {l : Life} (other : e.thread ≠ t) : track t l e = some l := if_neg other

theorem moves_one {e : Event} (others : ∀ u, u ≠ e.thread → s'.life u = s.life u)
    (self : track e.thread (s.life e.thread) e = some (s'.life e.thread)) : Moves s s' [e] := by
  intro u
  rw [List.foldlM_cons]
  refine (bind_pure _).trans ?_
  by_cases own : u = e.thread
  · rw [own]
    exact self
  · rw [track_other (Ne.symm own), others u own]

theorem life_same (alive : s'.alive u = s.alive u) (thread : s'.kernel.thread u = s.kernel.thread u) :
    s'.life u = s.life u := by
  simp only [State.life, alive, thread]

theorem scheduleRemove_lock (k : Kernel) (t : Tid) :
    (k.rtScheduleRemoveThread t).schedulerLockNest = k.schedulerLockNest := by
  simp only [rtScheduleRemoveThread]
  split <;> rfl

theorem scheduleRemove_current (k : Kernel) (t : Tid) :
    (k.rtScheduleRemoveThread t).currentThread = k.currentThread := by
  simp only [rtScheduleRemoveThread]
  split <;> rfl

theorem scheduleInsert_current (k : Kernel) (t : Tid) :
    (k.rtScheduleInsertThread t).currentThread = k.currentThread := rfl

theorem resume_touch (suspended : (k.thread t).stat = .suspend) : Touch k (k.rtThreadResume t).1 t := by
  rw [resume_suspended k t suspended]
  refine ⟨fun u other => by simp [resumeUnlink, rtTimerStop, other], ?_, rfl, by simp [resumeUnlink, rtTimerStop]⟩
  simp [resumeUnlink, rtTimerStop]

theorem schedule_lock (scheduled : k.rtSchedule = some k') : k'.schedulerLockNest = k.schedulerLockNest := by
  unfold rtSchedule at scheduled
  split at scheduled
  · split at scheduled
    · contradiction
    · split at scheduled <;> cases Option.some.inj scheduled <;> rfl
  · cases Option.some.inj scheduled
    rfl

theorem Touch.schedule (touch : Touch k m t) (scheduled : m.rtSchedule = some k') : Touch k k' t := by
  obtain ⟨thread, list, _⟩ := schedule_frame m scheduled
  exact ⟨fun u other => by rw [thread, touch.others u other], by rw [list, touch.list],
    (schedule_lock scheduled).trans touch.lock, by rw [thread, touch.systemObject]⟩

theorem Touch.life (touch : Touch s.kernel k t) (before : (s.kernel.thread t).stat ≠ .close)
    (after : (k.thread t).stat ≠ .close) (u : Tid) : State.life { s with kernel := k } u = s.life u := by
  by_cases self : u = t
  · subst self
    simp only [State.life, touch.systemObject, before, after, if_false]
  · exact life_same rfl (touch.others u self)

theorem Touch.runs (touch : Touch s.kernel k t) (runs : Runs s) (suspended : (s.kernel.thread t).stat = .suspend)
    (current : k.currentThread = s.kernel.currentThread) : Runs { s with kernel := k } := by
  intro u isCurrent
  have running := runs u (current.symm.trans isCurrent)
  have other : u ≠ t := by
    rintro rfl
    rw [running] at suspended
    cases suspended
  change (k.thread u).stat = .ready
  rw [touch.others u other]
  exact running

/-- rt_schedule makes a started thread current. -/
theorem schedule_runs (ready : ReadyInv k) (unlocked : k.schedulerLockNest = 0) (scheduled : k.rtSchedule = some k') :
    Runs { s with kernel := k' } := by
  obtain ⟨_, u, p, current, queued⟩ := Preempt.schedule_current unlocked scheduled
  intro v isCurrent
  cases (show k'.currentThread = some v from isCurrent).symm.trans current
  change (k'.thread u).stat = .ready
  rw [(schedule_frame k scheduled).1]
  exact ((ready.queue.member u p).mp queued).1

theorem reclaim_life (other : u ≠ t) : (reclaimFirst s t).1.life u = s.life u := by
  simp only [State.life, reclaimFirst, Function.update_of_ne other]
  rfl

namespace Inv

theorem present (inv : Inv idle s) (started : (s.kernel.thread t).stat ≠ .init)
    (open_ : (s.kernel.thread t).stat ≠ .close) : s.alive t = true := by
  by_contra gone
  rcases inv.absent t (by simpa using gone) with init | close
  · exact started init
  · exact open_ close

theorem notDefunct (inv : Inv idle s) (open_ : (s.kernel.thread t).stat ≠ .close) : t ∉ s.kernel.list .defunct := by
  rw [inv.defunct, State.life, if_neg open_]
  split <;> decide

/-- `t` goes on, with its node off rt_thread_defunct. -/
theorem touch (inv : Inv idle s) (touch : Touch s.kernel k t) (ready : ReadyInv k) (parked : Parked k)
    (alive : s.alive t = true) (current : k.currentThread ≠ none → s.kernel.currentThread ≠ none)
    (stat : (k.thread t).stat = .ready ∨
      (k.thread t).stat = .suspend ∧ (t = idle → s.kernel.currentThread = none))
    (timer : (k.thread t).timer.activated = true → (k.thread t).stat = .suspend) :
    Inv idle { s with kernel := k } where
  ready := ready
  parked := parked
  defunct u := by
    change u ∈ k.list .defunct ↔ _
    rw [touch.list]
    by_cases self : u = t
    · subst self
      have going : (k.thread u).stat ≠ .close := by
        rcases stat with is | ⟨is, _⟩ <;> rw [is] <;> decide
      simp only [State.life, going, if_false, List.mem_filter, ne_eq, not_true, decide_false, Bool.false_eq_true,
        and_false, false_iff]
      split <;> decide
    · have old := inv.defunct u
      simp only [State.life] at old ⊢
      rw [touch.others u self]
      simpa [self] using old
  once := by
    change (k.list .defunct).Nodup
    rw [touch.list]
    exact inv.once.filter _
  timer u active := by
    by_cases self : u = t
    · subst self
      exact timer active
    · change (k.thread u).timer.activated = true at active
      change (k.thread u).stat = .suspend
      rw [touch.others u self] at active ⊢
      exact inv.timer u active
  absent u gone := by
    have other : u ≠ t := by
      rintro rfl
      exact absurd (alive.symm.trans gone) (by decide)
    change (k.thread u).stat = .init ∨ (k.thread u).stat = .close
    rw [touch.others u other]
    exact inv.absent u gone
  idleReady running := by
    change (k.thread idle).stat = .ready
    by_cases self : idle = t
    · rcases stat with is | ⟨_, stopped⟩
      · rw [self, is]
      · exact absurd (stopped self.symm) (current running)
    · rw [touch.others idle self]
      exact inv.idleReady (current running)
  idleFixed := by
    refine ⟨inv.idleFixed.1, ?_⟩
    change (k.thread idle).systemObject = true
    by_cases self : idle = t
    · rw [self, touch.systemObject, ← self]
      exact inv.idleFixed.2
    · rw [touch.others idle self]
      exact inv.idleFixed.2
  unlocked := touch.lock.trans inv.unlocked

theorem startup (inv : Inv idle s) (alive : s.alive t = true)
    (started : s.kernel.rtThreadStartup t = some k) : Kept idle s { s with kernel := k } := by
  have ready := inv.ready.startup started
  have parked := inv.parked.shrinks (startup_shrinks inv.parked started)
  unfold rtThreadStartup at started
  split at started
  · rename_i fresh
    let placed := (s.kernel.setPriority t (s.kernel.thread t).initPriority).modify t
      (fun th => { th with stat := .suspend, statSignal := 0 })
    have suspended : (placed.thread t).stat = .suspend := by simp [placed]
    have moved := resume_touch suspended
    have touch : Touch s.kernel (placed.rtThreadResume t).1 t := by
      refine ⟨fun u other => ?_, moved.list, moved.lock, moved.systemObject.trans ?_⟩
      · rw [moved.others u other]
        simp [placed, setPriority, other]
      · simp [placed, setPriority]
    have current : (placed.rtThreadResume t).1.currentThread = s.kernel.currentThread := by
      rw [resume_suspended _ _ suspended]
      rfl
    have base : (placed.rtThreadResume t).1.thread t = (placed.thread t).awake := resume_self suspended
    change (if (placed.rtThreadResume t).1.currentThread.isSome then _ else _) = some k at started
    split at started
    · rename_i running
      have thread := (schedule_frame _ started).1
      have awake : k.thread t = (placed.thread t).awake := by rw [thread, base]
      have now : (k.thread t).stat = .ready := by
        rw [awake]
        rfl
      refine ⟨inv.touch (touch.schedule started) ready parked alive ?_ (Or.inl now) ?_, ?_,
        (touch.schedule started).life (by rw [fresh]; decide) (by rw [now]; decide)⟩
      · rw [current] at running
        exact fun _ => Option.isSome_iff_ne_none.mp running
      · intro active
        rw [awake] at active
        cases active
      · obtain ⟨_, list, group, _⟩ := schedule_frame _ started
        exact schedule_runs (ready.same thread.symm list.symm group.symm) (touch.lock.trans inv.unlocked) started
    · rename_i stopped
      cases Option.some.inj started
      have now : ((placed.rtThreadResume t).1.thread t).stat = .ready := by
        rw [base]
        rfl
      rw [current] at stopped
      refine ⟨inv.touch touch ready parked alive (by rw [current]; exact id) (Or.inl now) ?_, ?_,
        touch.life (by rw [fresh]; decide) (by rw [now]; decide)⟩
      · intro active
        rw [base] at active
        cases active
      · intro u isCurrent
        rw [show (placed.rtThreadResume t).1.currentThread = some u from isCurrent] at current
        rw [← current] at stopped
        simp at stopped
  · contradiction

theorem block {o : Nat} {flag : IpcFlag} {time : Int} (inv : Inv idle s) (other : s.kernel.currentThread ≠ some idle)
    (blocked : threadStep s.kernel (.block o flag time) = some k) : Kept idle s { s with kernel := k } := by
  have whole := step_ready inv.ready blocked
  obtain ⟨t, caller, done⟩ := Option.bind_eq_some_iff.mp blocked
  obtain ⟨m, started, scheduled⟩ := Option.bind_eq_some_iff.mp done
  obtain ⟨current, ready⟩ := (Option.filter_eq_some_iff ..).mp caller
  simp only [decide_eq_true_eq] at ready
  obtain ⟨timer, same⟩ := startWaitTimer_some started
  have suspended := ipcSuspend_self (o := o) ready flag
  have thread : m.thread t = { (s.kernel.thread t).parked with timer := timer } := by
    rw [same, modify_self, suspended]
  have touch : Touch s.kernel m t := by
    refine ⟨fun u u_other => ?_, ?_, ?_, by rw [thread]; rfl⟩
    · rw [same, modify_other _ _ _ _ u_other, ipcSuspend_other ready flag u_other]
    · rw [same]
      cases flag <;> simp [rtIpcListSuspend, suspend_ready _ t ready, rtTimerStop]
    · rw [same]
      cases flag <;> simp only [rtIpcListSuspend, suspend_ready _ t ready] <;> exact scheduleRemove_lock _ t
  have parked : Parked m := by
    intro q u here
    have members : u = t ∨ u ∈ s.kernel.list (.wait q) := by
      rw [same, modify_list] at here
      by_cases self : q = o
      · subst self
        exact (ipcSuspend_mem ready flag).mp here
      · rw [ipcSuspend_list_other ready flag self] at here
        exact Or.inr (List.mem_of_mem_filter here)
    by_cases self : u = t
    · rw [self, thread]
      rfl
    · rw [touch.others u self]
      exact inv.parked q u (members.resolve_left self)
  have queue : ReadyInv m := (inv.ready.ipcListSuspend o t flag).startWaitTimer started
  have notIdle : t ≠ idle := by
    rintro rfl
    exact other current
  have alive : s.alive t = true := inv.present (by rw [ready]; decide) (by rw [ready]; decide)
  have waits : (k.thread t).stat = .suspend := by
    rw [(schedule_frame m scheduled).1, thread]
    rfl
  exact ⟨inv.touch (touch.schedule scheduled) whole (parked.shrinks (schedule_shrinks scheduled)) alive
      (fun _ => by rw [current]; exact Option.some_ne_none t) (Or.inr ⟨waits, fun self => absurd self notIdle⟩)
      (fun _ => waits),
    schedule_runs queue (touch.lock.trans inv.unlocked) scheduled,
    (touch.schedule scheduled).life (by rw [ready]; decide) (by rw [waits]; decide)⟩

/-- rt_ipc_list_resume_all notes the error before it wakes the thread. -/
theorem fail (inv : Inv idle s) (runs : Runs s) (suspended : (s.kernel.thread t).stat = .suspend) (e : Err) :
    Kept idle s { s with kernel := s.kernel.modify t (fun th => { th with error := e }) } := by
  have same : ((s.kernel.modify t (fun th => { th with error := e })).thread t).stat = .suspend := by
    rw [modify_self]
    exact suspended
  have out := inv.notDefunct (t := t) (by rw [suspended]; decide)
  have touch : Touch s.kernel (s.kernel.modify t (fun th => { th with error := e })) t :=
    ⟨fun u other => modify_other _ _ _ _ other, (WaitInv.filter_absent _ out).symm, rfl, by rw [modify_self]⟩
  have stopped : t = idle → s.kernel.currentThread = none := by
    rintro rfl
    by_contra running
    rw [inv.idleReady running] at suspended
    cases suspended
  refine ⟨inv.touch touch (inv.ready.modifyFrame (fun _ => ⟨rfl, rfl, rfl, rfl⟩))
    (inv.parked.shrinks (modify_shrinks ⟨rfl, rfl⟩)) ?_ id (Or.inr ⟨same, stopped⟩) (fun _ => same),
    touch.runs runs suspended rfl, touch.life (by rw [suspended]; decide) (by rw [same]; decide)⟩
  exact inv.present (by rw [suspended]; decide) (by rw [suspended]; decide)

theorem resume (inv : Inv idle s) (runs : Runs s) (suspended : (s.kernel.thread t).stat = .suspend) :
    Kept idle s { s with kernel := (s.kernel.rtThreadResume t).1 } := by
  have awake : ((s.kernel.rtThreadResume t).1.thread t).stat = .ready := by
    rw [resume_self suspended]
    rfl
  have same : (s.kernel.rtThreadResume t).1.currentThread = s.kernel.currentThread := by
    rw [resume_suspended _ _ suspended]
    exact scheduleInsert_current _ t
  refine ⟨inv.touch (resume_touch suspended) (inv.ready.resume t) (inv.parked.shrinks (resume_shrinks _ t)) ?_
    (by rw [same]; exact id) (Or.inl awake) ?_, (resume_touch suspended).runs runs suspended same,
    (resume_touch suspended).life (by rw [suspended]; decide) (by rw [awake]; decide)⟩
  · exact inv.present (by rw [suspended]; decide) (by rw [suspended]; decide)
  · intro active
    rw [resume_self suspended] at active
    cases active

theorem release (inv : Inv idle s) (runs : Runs s) (o : Nat) :
    Kept idle s { s with kernel := s.kernel.rtIpcListResume (.wait o) } := by
  unfold rtIpcListResume
  split
  · exact ⟨inv, runs, fun _ => rfl⟩
  · rename_i list
    exact inv.resume runs (inv.parked o _ (by rw [list]; exact List.mem_cons_self))

/-- Induction on the turns left. -/
theorem releaseAll {o fuel : Nat} (inv : Inv idle s) (runs : Runs s)
    (woken : resumeAllLoop (.wait o) fuel s.kernel = some k) : Kept idle s { s with kernel := k } := by
  induction fuel generalizing s with
  | zero =>
    unfold resumeAllLoop at woken
    split at woken
    · cases Option.some.inj woken
      exact ⟨inv, runs, fun _ => rfl⟩
    · contradiction
  | succ fuel ih =>
    unfold resumeAllLoop at woken
    split at woken
    · cases Option.some.inj woken
      exact ⟨inv, runs, fun _ => rfl⟩
    · rename_i t rest list
      have suspended := inv.parked o t (by rw [list]; exact List.mem_cons_self)
      have failed := inv.fail runs suspended .error
      have resumed := failed.inv.resume failed.runs (t := t) (by rw [modify_self]; exact suspended)
      exact (failed.trans resumed).trans (ih resumed.inv resumed.runs woken)

theorem schedule (inv : Inv idle s) (running : s.kernel.currentThread ≠ none)
    (scheduled : s.kernel.rtSchedule = some k) : Kept idle s { s with kernel := k } := by
  obtain ⟨thread, list, _⟩ := schedule_frame _ scheduled
  have same : ∀ u, State.life { s with kernel := k } u = s.life u := fun u => life_same rfl (by rw [thread])
  have parked := inv.parked.shrinks (schedule_shrinks scheduled)
  refine ⟨⟨inv.ready.schedule scheduled, parked, ?_, ?_, ?_, ?_, ?_, ?_, ?_⟩,
    schedule_runs inv.ready inv.unlocked scheduled, same⟩
  · intro u
    rw [same, ← inv.defunct u, list]
  · rw [list]
    exact inv.once
  · rw [thread]
    exact inv.timer
  · rw [thread]
    exact inv.absent
  · rw [thread]
    exact fun _ => inv.idleReady running
  · rw [thread]
    exact inv.idleFixed
  · exact (schedule_lock scheduled).trans inv.unlocked

theorem schedulerStart (inv : Inv idle s) (idleReady : (s.kernel.thread idle).stat = .ready)
    (started : s.kernel.rtSystemSchedulerStart = some k) : Kept idle s { s with kernel := k } := by
  obtain ⟨⟨p, best⟩, choice, rfl⟩ := Option.map_eq_some_iff.mp started
  obtain ⟨_, _, _, found, _, ready, _⟩ := highestReady_best inv.ready idleReady
  cases choice.symm.trans found
  refine ⟨⟨inv.ready.same rfl rfl rfl, inv.parked, inv.defunct, inv.once, inv.timer, inv.absent, fun _ => idleReady,
    inv.idleFixed, inv.unlocked⟩, ?_, fun _ => rfl⟩
  intro u current
  cases Option.some.inj current
  exact ready

theorem expire (inv : Inv idle s) (running : s.kernel.currentThread ≠ none)
    (expired : s.kernel.timerExpire t = some m) (scheduled : m.rtSchedule = some k) :
    Kept idle s { s with kernel := k } := by
  have shrinks := timerExpire_shrinks expired
  obtain ⟨active, suspended, self, others, _⟩ := timerExpire_some expired
  rw [timerExpire, if_pos active] at expired
  have woken := (inv.ready.timerStop t).timeoutWake expired
  obtain ⟨_, whole⟩ := timeoutWake_some _ _ expired
  have touch : Touch s.kernel m t := by
    refine ⟨others, by rw [whole]; simp [rtTimerStop], by rw [whole]; rfl, ?_⟩
    rw [self]
    rfl
  have final := (schedule_frame _ scheduled).1
  have awake : (k.thread t).stat = .ready := by
    rw [final, self]
    rfl
  refine ⟨inv.touch (touch.schedule scheduled) (woken.schedule scheduled)
    ((inv.parked.shrinks shrinks).shrinks (schedule_shrinks scheduled)) ?_ (fun _ => running) (Or.inl awake) ?_,
    schedule_runs woken (touch.lock.trans inv.unlocked) scheduled,
    (touch.schedule scheduled).life (by rw [suspended]; decide) (by rw [awake]; decide)⟩
  · exact inv.present (by rw [suspended]; decide) (by rw [suspended]; decide)
  · intro still
    rw [final, self] at still
    cases still

/-- A thread is closed and its node goes to rt_thread_defunct, unless it is a static one. -/
theorem retire (inv : Inv idle s) (alive : s.alive t = true) (notIdle : t ≠ idle) (ready : ReadyInv k)
    (parked : Parked k) (others : ∀ u, u ≠ t → k.thread u = s.kernel.thread u)
    (list : k.list .defunct = if (s.kernel.thread t).systemObject then (s.kernel.list .defunct).filter (· ≠ t)
      else t :: (s.kernel.list .defunct).filter (· ≠ t))
    (lock : k.schedulerLockNest = s.kernel.schedulerLockNest)
    (systemObject : (k.thread t).systemObject = (s.kernel.thread t).systemObject)
    (current : k.currentThread ≠ none → s.kernel.currentThread ≠ none)
    (closed : (k.thread t).stat = .close) (timer : (k.thread t).timer.activated = false) :
    Inv idle { s with kernel := k } where
  ready := ready
  parked := parked
  defunct u := by
    change u ∈ k.list .defunct ↔ _
    rw [list]
    by_cases self : u = t
    · subst self
      simp only [State.life, alive, systemObject, closed]
      cases (s.kernel.thread u).systemObject <;> simp
    · have old := inv.defunct u
      simp only [State.life] at old ⊢
      rw [others u self]
      split <;> simpa [self] using old
  once := by
    change (k.list .defunct).Nodup
    rw [list]
    split
    · exact inv.once.filter _
    · exact List.nodup_cons.mpr ⟨by simp, inv.once.filter _⟩
  timer u active := by
    change (k.thread u).timer.activated = true at active
    change (k.thread u).stat = .suspend
    by_cases self : u = t
    · rw [self, timer] at active
      cases active
    · rw [others u self] at active ⊢
      exact inv.timer u active
  absent u gone := by
    change (k.thread u).stat = .init ∨ (k.thread u).stat = .close
    by_cases self : u = t
    · rw [self]
      exact Or.inr closed
    · rw [others u self]
      exact inv.absent u gone
  idleReady running := by
    change (k.thread idle).stat = .ready
    rw [others idle notIdle.symm]
    exact inv.idleReady (current running)
  idleFixed := by
    refine ⟨inv.idleFixed.1, ?_⟩
    change (k.thread idle).systemObject = true
    rw [others idle notIdle.symm]
    exact inv.idleFixed.2
  unlocked := lock.trans inv.unlocked

theorem delete (inv : Inv idle s) (alive : s.alive t = true) (going : (s.kernel.thread t).stat ≠ .close)
    (deleted : s.kernel.rtThreadDelete t = some k) : Inv idle { s with kernel := k } ∧
      (s.kernel.thread t).systemObject = false ∧ (k.thread t).stat = .close ∧
      (k.thread t).systemObject = (s.kernel.thread t).systemObject ∧ k.currentThread = s.kernel.currentThread ∧
      ∀ u, u ≠ t → k.thread u = s.kernel.thread u := by
  have ready := inv.ready.delete deleted
  have parked := inv.parked.shrinks (delete_shrinks inv.parked deleted)
  unfold rtThreadDelete at deleted
  split at deleted
  · contradiction
  · rename_i dynamic
    have notIdle : t ≠ idle := by
      rintro rfl
      exact dynamic inv.idleFixed.2
    have out := inv.notDefunct going
    let base := if (s.kernel.thread t).stat ≠ .init then s.kernel.rtScheduleRemoveThread t else s.kernel
    have thread : base.thread = s.kernel.thread := by
      simp only [base]
      split <;> simp
    have list : base.list .defunct = (s.kernel.list .defunct).filter (· ≠ t) := by
      simp only [base]
      split
      · simp
      · exact (WaitInv.filter_absent _ out).symm
    have frame : base.currentThread = s.kernel.currentThread ∧
        base.schedulerLockNest = s.kernel.schedulerLockNest := by
      simp only [base]
      split
      · exact ⟨scheduleRemove_current _ t, scheduleRemove_lock _ t⟩
      · exact ⟨rfl, rfl⟩
    have same : k = ((base.rtTimerStop t).closeThread t).rtListInsertAfter .defunct t := (Option.some.inj deleted).symm
    have others : ∀ u, u ≠ t → k.thread u = s.kernel.thread u := by
      intro u other
      rw [same]
      simp [closeThread, rtTimerStop, other, thread]
    have self : k.thread t = { s.kernel.thread t with
        stat := .close, statSignal := 0, timer := { (s.kernel.thread t).timer with activated := false } } := by
      rw [same]
      simp [closeThread, rtTimerStop, thread]
    have current : k.currentThread = s.kernel.currentThread := by
      rw [same]
      exact frame.1
    refine ⟨inv.retire alive notIdle ready parked others ?_ ?_ (by rw [self]) (by rw [current]; exact id)
      (by rw [self]) (by rw [self]), by simpa using dynamic, by rw [self], by rw [self], current, others⟩
    · rw [if_neg dynamic, same]
      simp [rtListInsertAfter, closeThread, rtTimerStop, list]
    · rw [same]
      exact frame.2

theorem exit (inv : Inv idle s) (runs : Runs s) (current : s.kernel.currentThread = some t) (notIdle : t ≠ idle)
    (exited : s.kernel.rtThreadExit = some k) : Inv idle { s with kernel := k } ∧ Runs { s with kernel := k } ∧
      (k.thread t).stat = .close ∧ s.alive t = true ∧ (s.kernel.thread t).stat = .ready ∧
      ((k.thread t).systemObject = (s.kernel.thread t).systemObject) ∧
      ∀ u, u ≠ t → k.thread u = s.kernel.thread u := by
  have ready := inv.ready.exit exited
  have parked := inv.parked.shrinks (exit_shrinks exited)
  have running := runs t current
  have alive := inv.present (by rw [running]; decide) (by rw [running]; decide)
  simp only [rtThreadExit, current] at exited
  let base := ((s.kernel.rtScheduleRemoveThread t).closeThread t).rtTimerStop t
  let m := if (base.thread t).systemObject then base else base.rtListInsertAfter .defunct t
  have scheduled : m.rtSchedule = some k := exited
  have self : base.thread t = { s.kernel.thread t with
      stat := .close, statSignal := 0, timer := { (s.kernel.thread t).timer with activated := false } } := by
    simp [base, closeThread, rtTimerStop]
  have thread : m.thread = base.thread := by
    simp only [m]
    split <;> rfl
  have final : k.thread = base.thread := (schedule_frame m scheduled).1.trans thread
  have others : ∀ u, u ≠ t → k.thread u = s.kernel.thread u := by
    intro u other
    rw [final]
    simp [base, closeThread, rtTimerStop, other]
  have lock : m.schedulerLockNest = s.kernel.schedulerLockNest := by
    simp only [m]
    split <;> exact scheduleRemove_lock _ t
  have queue : ReadyInv m := by
    obtain ⟨thread', list, group, _⟩ := schedule_frame m scheduled
    exact ready.same thread'.symm list.symm group.symm
  refine ⟨inv.retire alive notIdle ready parked others ?_ ((schedule_lock scheduled).trans lock) ?_
      (fun _ => by rw [current]; exact Option.some_ne_none t) ?_ ?_,
    schedule_runs queue (lock.trans inv.unlocked) scheduled, by rw [final, self], alive, running,
    by rw [final, self], others⟩
  · rw [(schedule_frame m scheduled).2.1]
    simp only [m, self]
    split <;> simp [base, rtListInsertAfter, closeThread, rtTimerStop]
  · rw [final, self]
  · rw [final, self]
  · rw [final, self]

theorem reclaim {rest : List Tid} (inv : Inv idle s) (head : s.kernel.list .defunct = t :: rest) :
    Inv idle (reclaimFirst s t).1 ∧ s.life t = .defunct ∧ (s.kernel.thread t).stat = .close ∧
      ((reclaimFirst s t).1.kernel.list .defunct = rest) ∧
      (∀ h, t ∉ (reclaimFirst s t).1.kernel.list h) ∧
      ((reclaimFirst s t).1.kernel.thread t).timer.activated = false := by
  have was := (inv.defunct t).mp (by rw [head]; exact List.mem_cons_self)
  have closed : (s.kernel.thread t).stat = .close := by
    simp only [State.life] at was
    split at was
    · split at was
      · assumption
      · cases was
    · cases was
  have once := inv.once
  rw [head] at once
  have left : (s.kernel.list .defunct).filter (· ≠ t) = rest := by
    rw [head, List.filter_cons_of_neg (by simp)]
    exact WaitInv.filter_absent _ (List.nodup_cons.mp once).1
  have notIdle : t ≠ idle := by
    rintro rfl
    rw [State.life, inv.idleFixed.2, Bool.not_true, Bool.and_false, if_neg Bool.false_ne_true] at was
    cases was
  have ready : ReadyInv (s.kernel.rtListRemove t) :=
    ⟨inv.ready.queue.listRemove (by rw [closed]; decide), inv.ready.initial, inv.ready.mask⟩
  have parked : Parked (s.kernel.rtListRemove t) := inv.parked.shrinks (.unlink (fun _ => rfl) (fun _ _ => rfl))
  refine ⟨⟨ready, parked, ?_, ?_, inv.timer, ?_, inv.idleReady, ?_, inv.unlocked⟩, was, closed, left,
    fun h here => by simp [reclaimFirst] at here, ?_⟩
  · intro u
    change u ∈ (s.kernel.list .defunct).filter (· ≠ t) ↔ _
    by_cases self : u = t
    · subst self
      simp [State.life, reclaimFirst]
    · rw [reclaim_life self, ← inv.defunct u]
      simp [self]
  · exact inv.once.filter _
  · intro u gone
    by_cases self : u = t
    · rw [self]
      exact Or.inr closed
    · exact inv.absent u (by simpa [reclaimFirst, self] using gone)
  · refine ⟨?_, inv.idleFixed.2⟩
    simp only [reclaimFirst, Function.update_of_ne notIdle.symm]
    exact inv.idleFixed.1
  · change (s.kernel.thread t).timer.activated = false
    by_contra active
    have suspended := inv.timer t (by simpa using active)
    rw [closed] at suspended
    cases suspended

theorem create {priority : Nat} (inv : Inv idle s) (gone : s.alive t = false) (small : priority < rtThreadPriorityMax) :
    Inv idle ⟨s.kernel.modify t (fun _ => rtThreadInit priority false), Function.update s.alive t true⟩ := by
  have idleOther : idle ≠ t := by
    rintro rfl
    rw [inv.idleFixed.1] at gone
    cases gone
  have stat := inv.absent t gone
  have asleep : ¬(s.kernel.thread t).stat = .ready ∧ (s.kernel.thread t).stat ≠ .suspend := by
    rcases stat with is | is <;> rw [is] <;> decide
  have outDefunct : t ∉ s.kernel.list .defunct := by
    simp [inv.defunct, State.life, gone]
  have outReady : ∀ p, t ∉ s.kernel.list (.ready p) :=
    fun p here => asleep.1 ((inv.ready.queue.member t p).mp here).1
  have outWait := inv.parked.out asleep.2
  have others : ∀ u, u ≠ t →
        (s.kernel.modify t (fun _ => rtThreadInit priority false)).thread u = s.kernel.thread u :=
    fun u other => modify_other _ _ _ _ other
  refine ⟨⟨⟨?_, inv.ready.queue.group, ?_, inv.ready.queue.nodup⟩, ?_, ?_⟩, ?_, ?_, inv.once, ?_, ?_, ?_, ?_,
    inv.unlocked⟩
  · intro u
    by_cases self : u = t
    · rw [self, modify_self]
      exact small
    · rw [others u self]
      exact inv.ready.queue.priority u
  · intro u p
    by_cases self : u = t
    · rw [self, modify_self]
      exact iff_of_false (outReady p) (by simp [rtThreadInit])
    · rw [others u self]
      exact inv.ready.queue.member u p
  · intro u
    by_cases self : u = t
    · rw [self, modify_self]
      exact small
    · rw [others u self]
      exact inv.ready.initial u
  · intro u
    by_cases self : u = t
    · rw [self, modify_self]
      exact Or.inr ⟨rfl, Or.inl rfl⟩
    · rw [others u self]
      exact inv.ready.mask u
  · intro o u here
    rw [others u (ne_of_mem_of_not_mem here (outWait o))]
    exact inv.parked o u here
  · intro u
    by_cases self : u = t
    · subst self
      simpa [State.life, rtThreadInit] using outDefunct
    · have old := inv.defunct u
      simp only [State.life, Function.update_of_ne self] at old ⊢
      rw [others u self]
      exact old
  · intro u active
    by_cases self : u = t
    · rw [self, modify_self] at active
      cases active
    · rw [others u self] at active ⊢
      exact inv.timer u active
  · intro u absent
    by_cases self : u = t
    · rw [self, modify_self]
      exact Or.inl rfl
    · rw [others u self]
      exact inv.absent u (by simpa [self] using absent)
  · intro running
    rw [others idle idleOther]
    exact inv.idleReady running
  · refine ⟨?_, by rw [others idle idleOther]; exact inv.idleFixed.2⟩
    change Function.update s.alive t true idle = true
    rw [Function.update_of_ne idleOther]
    exact inv.idleFixed.1

end Inv

theorem life_live (alive : s.alive t = true) (dynamic : (s.kernel.thread t).systemObject = false)
    (going : (s.kernel.thread t).stat ≠ .close) : s.life t = .live := by
  simp [State.life, alive, dynamic, going]

theorem life_defunct (alive : s.alive t = true) (dynamic : (s.kernel.thread t).systemObject = false)
    (closed : (s.kernel.thread t).stat = .close) : s.life t = .defunct := by
  simp [State.life, alive, dynamic, closed]

theorem life_static (static : (s.kernel.thread t).systemObject = true) : s.life t = .absent := by
  simp [State.life, static]

theorem life_gone (gone : s.alive t = false) : s.life t = .absent := by
  simp [State.life, gone]

/-- What a step keeps, and what its events say. -/
structure Next (idle : Tid) (s s' : State) (es : List Event) : Prop where
  inv : Inv idle s'
  runs : Runs s'
  moves : Moves s s' es

theorem Kept.next (kept : Kept idle s s') : Next idle s s' [] := ⟨kept.inv, kept.runs, kept.moves⟩

/-- The first rt_thread_delete closes the thread, and the ones after it do nothing. -/
theorem delete_next (inv : Inv idle s) (runs : Runs s) (taken : deleteOther s t = some (s', es)) :
    Next idle s s' es ∧ (s.life t = .live ∧ es = [.defunct t] ∧ s'.life t = .defunct ∨
      s.life t = .defunct ∧ es = [] ∧ s' = s) := by
  unfold deleteOther at taken
  split at taken
  · rename_i allowed
    obtain ⟨alive, other⟩ := allowed
    obtain ⟨k, deleted, same⟩ := Option.map_eq_some_iff.mp taken
    cases same
    by_cases closed : (s.kernel.thread t).stat = .close
    · have dynamic : (s.kernel.thread t).systemObject = false := by
        by_contra static
        rw [rtThreadDelete, if_pos (by simpa using static)] at deleted
        cases deleted
      rw [rtThreadDelete, if_neg (by simp [dynamic]), if_pos closed] at deleted
      cases Option.some.inj deleted
      rw [if_pos closed]
      exact ⟨Kept.next ⟨inv, runs, fun _ => rfl⟩, Or.inr ⟨life_defunct alive dynamic closed, rfl, rfl⟩⟩
    · obtain ⟨inv', dynamic, closed', object, current, others⟩ := inv.delete alive closed deleted
      rw [if_neg closed]
      have before := life_live alive dynamic closed
      have after : State.life { s with kernel := k } t = .defunct := life_defunct alive (object.trans dynamic) closed'
      refine ⟨⟨inv', ?_, ?_⟩, Or.inl ⟨before, rfl, after⟩⟩
      · intro u isCurrent
        have was := current.symm.trans isCurrent
        have apart : u ≠ t := by
          rintro rfl
          exact other was
        rw [others u apart]
        exact runs u was
      · refine moves_one (fun u apart => life_same rfl (others u apart)) ?_
        change track t (s.life t) _ = some (State.life { s with kernel := k } t)
        rw [before, after]
        simp [track, Event.thread]
  · cases taken

theorem exit_next (inv : Inv idle s) (runs : Runs s) (current : s.kernel.currentThread = some t) (notIdle : t ≠ idle)
    (taken : exitCurrent s t = some (s', es)) :
    Next idle s s' es ∧ (s.life t = .live ∧ es = [.defunct t] ∧ s'.life t = .defunct ∨
      (s.kernel.thread t).systemObject = true) := by
  obtain ⟨k, exited, same⟩ := Option.map_eq_some_iff.mp taken
  cases same
  obtain ⟨inv', runs', closed, alive, running, object, others⟩ := inv.exit runs current notIdle exited
  by_cases static : (s.kernel.thread t).systemObject = true
  · rw [if_pos static]
    refine ⟨Kept.next ⟨inv', runs', fun u => ?_⟩, Or.inr static⟩
    by_cases self : u = t
    · rw [self, life_static static]
      exact life_static (object.trans static)
    · exact life_same rfl (others u self)
  · rw [if_neg static]
    have dynamic : (s.kernel.thread t).systemObject = false := by simpa using static
    have before := life_live alive dynamic (by rw [running]; decide)
    have after : State.life { s with kernel := k } t = .defunct := life_defunct alive (object.trans dynamic) closed
    refine ⟨⟨inv', runs', ?_⟩, Or.inl ⟨before, rfl, after⟩⟩
    refine moves_one (fun u apart => life_same rfl (others u apart)) ?_
    change track t (s.life t) _ = some (State.life { s with kernel := k } t)
    rw [before, after]
    simp [track, Event.thread]

theorem reclaim_next {rest : List Tid} (inv : Inv idle s) (runs : Runs s) (head : s.kernel.list .defunct = t :: rest) :
    Next idle s (reclaimFirst s t).1 (reclaimFirst s t).2 := by
  obtain ⟨inv', was, closed, _⟩ := inv.reclaim head
  refine ⟨inv', runs, ?_⟩
  · intro u
    by_cases self : u = t
    · subst self
      rw [was, life_gone (s := (reclaimFirst s u).1) (by simp [reclaimFirst])]
      simp [reclaimFirst, track, Event.thread]
    · rw [reclaim_life self]
      simp [reclaimFirst, track, Event.thread, Ne.symm self]

theorem create_next {priority : Nat} (inv : Inv idle s) (runs : Runs s)
    (taken : rtThreadCreate s t priority = some (s', es)) : Next idle s s' es := by
  unfold rtThreadCreate at taken
  split at taken
  · cases taken
  · rename_i allowed
    obtain ⟨gone, small⟩ := not_or.mp allowed
    cases Option.some.inj taken
    have absent : s.alive t = false := by simpa using gone
    have others : ∀ u, u ≠ t →
        (s.kernel.modify t (fun _ => rtThreadInit priority false)).thread u = s.kernel.thread u :=
      fun u other => modify_other _ _ _ _ other
    refine ⟨inv.create absent (not_not.mp small), ?_, ?_⟩
    · intro u current
      have running := runs u current
      have other : u ≠ t := by
        rintro rfl
        have here := inv.present (t := u) (by rw [running]; decide) (by rw [running]; decide)
        exact absurd (here.symm.trans absent) (by decide)
      change ((s.kernel.modify t (fun _ => rtThreadInit priority false)).thread u).stat = .ready
      rw [others u other]
      exact running
    · refine moves_one (fun u other => life_same (Function.update_of_ne other _ _) (others u other)) ?_
      change track t (s.life t) _ = some (State.life _ t)
      rw [life_gone absent, life_live (by simp) (by simp [rtThreadInit]) (by simp [rtThreadInit])]
      simp [track, Event.thread]

theorem step_next {a : Action} (inv : Inv idle s) (runs : Runs s) (taken : step idle s a = some (s', es)) :
    Next idle s s' es := by
  cases a with
  | schedulerStart =>
    simp only [step] at taken
    split at taken
    · rename_i allowed
      obtain ⟨k, started, same⟩ := Option.map_eq_some_iff.mp taken
      cases same
      exact (inv.schedulerStart allowed.2 started).next
    · cases taken
  | create t priority => exact create_next inv runs taken
  | startup t =>
    simp only [step] at taken
    split at taken
    · rename_i alive
      obtain ⟨k, started, same⟩ := Option.map_eq_some_iff.mp taken
      cases same
      exact (inv.startup alive started).next
    · cases taken
  | block o flag time =>
    simp only [step] at taken
    split at taken
    · cases taken
    · rename_i other
      obtain ⟨k, blocked, same⟩ := Option.map_eq_some_iff.mp taken
      cases same
      exact (inv.block other blocked).next
  | release o =>
    cases Option.some.inj taken
    exact (inv.release runs o).next
  | releaseAll o =>
    obtain ⟨k, woken, same⟩ := Option.map_eq_some_iff.mp taken
    cases same
    exact (inv.releaseAll runs woken).next
  | schedule =>
    simp only [step] at taken
    split at taken
    · cases taken
    · rename_i running
      obtain ⟨k, scheduled, same⟩ := Option.map_eq_some_iff.mp taken
      cases same
      exact (inv.schedule running scheduled).next
  | expire t =>
    simp only [step] at taken
    split at taken
    · cases taken
    · rename_i running
      obtain ⟨k, done, same⟩ := Option.map_eq_some_iff.mp taken
      cases same
      obtain ⟨m, expired, scheduled⟩ := Option.bind_eq_some_iff.mp done
      exact (inv.expire running expired scheduled).next
  | delete t => exact (delete_next inv runs taken).1
  | exit =>
    simp only [step] at taken
    split at taken
    · cases taken
    · rename_i t current
      split at taken
      · cases taken
      · rename_i notIdle
        exact (exit_next inv runs current notIdle taken).1
  | reclaim =>
    simp only [step] at taken
    split at taken
    · cases taken
    · rename_i t rest head
      cases Option.some.inj taken
      exact reclaim_next inv runs head

theorem start_inv (start : Start idle s) : Inv idle s ∧ Runs s ∧ ∀ t, s.life t = .absent := by
  have threads := start.threads
  have none_created : ∀ t, s.life t = .absent := by
    intro t
    by_cases alive : s.alive t = true
    · exact life_static (start.fixed t alive)
    · exact life_gone (by simpa using alive)
  refine ⟨⟨start_ready threads, ?_, ?_, ?_, ?_, fun t _ => Or.inl (threads.stat t), ?_,
    ⟨start.idleAlive, start.fixed idle start.idleAlive⟩, start.unlocked⟩, ?_, none_created⟩
  · intro o u here
    rw [threads.lists] at here
    cases here
  · intro t
    rw [none_created, threads.lists]
    simp
  · rw [threads.lists]
    exact List.nodup_nil
  · intro t active
    rw [start.timer t] at active
    cases active
  · exact fun running => absurd threads.current running
  · intro u current
    rw [threads.current] at current
    cases current

theorem run_inv (run : Run (machine idle) tr s) :
    Inv idle s ∧ Runs s ∧ ∀ t, tr.foldlM (track t) .absent = some (s.life t) := by
  refine run.invariant
    (I := fun tr s => Inv idle s ∧ Runs s ∧ ∀ t, tr.foldlM (track t) .absent = some (s.life t)) ?_ ?_
  · intro s start
    obtain ⟨inv, runs, absent⟩ := start_inv start
    exact ⟨inv, runs, fun t => congrArg some (absent t).symm⟩
  · rintro tr s a s' es ⟨inv, runs, shown⟩ taken
    have next := step_next inv runs taken
    exact ⟨next.inv, next.runs, fun t => (replay_on (shown t) es).trans (next.moves t)⟩

/-- Induction on the list: each turn frees its first thread. -/
theorem idleLoop_empties {n : Nat} (inv : Inv idle s) (runs : Runs s) (turns : (s.kernel.list .defunct).length = n) :
    ∃ s', idleLoop n s = some (s', (s.kernel.list .defunct).flatMap (fun t => [.stackFreed t, .objectFreed t])) ∧
      (machine idle).exec s (List.replicate n .reclaim) =
        some (s', (s.kernel.list .defunct).flatMap (fun t => [.stackFreed t, .objectFreed t])) ∧
      s'.kernel.list .defunct = [] ∧
      ∀ t, s'.life t = if t ∈ s.kernel.list .defunct then .absent else s.life t := by
  induction n generalizing s with
  | zero =>
    have empty := List.length_eq_zero_iff.mp turns
    exact ⟨s, by simp [idleLoop, empty], by simp [Machine.exec, empty], empty, fun t => by simp [empty]⟩
  | succ n ih =>
    obtain ⟨t, rest, list⟩ := List.exists_cons_of_length_eq_add_one turns
    obtain ⟨inv', _, _, left, _⟩ := inv.reclaim list
    have next := reclaim_next inv runs list
    obtain ⟨s', loop, exec, empty, life⟩ := ih inv' next.runs (by rw [left]; simpa [list] using turns)
    rw [left] at loop exec life
    have turn : (machine idle).step s .reclaim = some (reclaimFirst s t) := by
      simp only [machine, step, list]
    refine ⟨s', ?_, ?_, empty, ?_⟩
    · unfold idleLoop
      rw [list]
      simp only [loop, Option.map_some]
      rfl
    · rw [List.replicate_succ, Machine.exec, turn, Option.bind_some, exec, list]
      rfl
    · intro u
      rw [life u, list]
      by_cases self : u = t
      · subst self
        have gone : (reclaimFirst s u).1.life u = .absent := life_gone (by simp [reclaimFirst])
        simp [gone]
      · simp [self, reclaim_life self]

/-- rt_thread_exit comes to its end: the idle thread can go on. -/
theorem exit_goes (inv : Inv idle s) (current : s.kernel.currentThread = some t) (notIdle : t ≠ idle) :
    ∃ k', s.kernel.rtThreadExit = some k' := by
  let base := ((s.kernel.rtScheduleRemoveThread t).closeThread t).rtTimerStop t
  let m := if (base.thread t).systemObject then base else base.rtListInsertAfter .defunct t
  have retired : ReadyInv base := by
    have order : base = ((s.kernel.rtScheduleRemoveThread t).rtTimerStop t).closeThread t := by
      simp [base, closeThread, rtTimerStop, Kernel.modify]
    rw [order]
    exact inv.ready.retire t true (by simp)
  have ready : ReadyInv m := by
    simp only [m]
    split
    · exact retired
    · exact retired.insertAfter (fun _ => ListHead.noConfusion)
  have unlocked : m.schedulerLockNest = 0 := by
    refine Eq.trans ?_ ((scheduleRemove_lock s.kernel t).trans inv.unlocked)
    simp only [m]
    split <;> rfl
  have idleReady : (m.thread idle).stat = .ready := by
    have thread : m.thread idle = s.kernel.thread idle := by
      simp only [m]
      split <;> simp [base, closeThread, rtTimerStop, notIdle.symm]
    rw [thread]
    exact inv.idleReady (by rw [current]; exact Option.some_ne_none t)
  obtain ⟨p, best, _, choice, _⟩ := highestReady_best ready idleReady
  obtain ⟨k', scheduled, _⟩ := schedule_selects unlocked choice
  exact ⟨k', by simpa only [rtThreadExit, current] using scheduled⟩

theorem life_present (created : s.life t ≠ .absent) :
    s.alive t = true ∧ (s.kernel.thread t).systemObject = false := by
  constructor
  · by_contra gone
    exact created (life_gone (by simpa using gone))
  · by_contra static
    exact created (life_static (by simpa using static))

/-- The events of a thread, by kind. Induction on the history. -/
theorem tracked_counts {l : Life} (shown : tr.foldlM (track t) .absent = some l) :
    tr.count (.created t) = tr.count (.defunct t) + (if l = .live then 1 else 0) ∧
    tr.count (.defunct t) = tr.count (.stackFreed t) + (if l = .defunct then 1 else 0) ∧
    tr.count (.stackFreed t) = tr.count (.objectFreed t) + (if l = .stackFreed then 1 else 0) := by
  induction tr using List.reverseRecOn generalizing l with
  | nil =>
    cases Option.some.inj shown
    simp
  | append_singleton tr e ih =>
    obtain ⟨m, before, last⟩ : ∃ m, tr.foldlM (track t) .absent = some m ∧ track t m e = some l := by
      rw [List.foldlM_append] at shown
      obtain ⟨m, before, last⟩ := Option.bind_eq_some_iff.mp shown
      exact ⟨m, before, (bind_pure _).symm.trans last⟩
    have counts := ih before
    by_cases own : e.thread = t
    · unfold track at last
      rw [if_pos own] at last
      cases e <;> cases m <;> cases last <;> cases own <;> simpa [Event.thread] using counts
    · rw [track_other own] at last
      cases Option.some.inj last
      have apart : ∀ f : Event, f.thread = t → (tr ++ [e]).count f = tr.count f := by
        rintro f rfl
        rw [List.count_append, List.count_singleton, if_neg]
        · rfl
        · intro same
          exact own (congrArg Event.thread (eq_of_beq same))
      rw [apart _ rfl, apart _ rfl, apart _ rfl, apart _ rfl]
      exact counts

/-- What holds of the created threads after any history. `order` says that the events of each come one
after the other: an insertion into rt_thread_defunct, then the stack and the object. -/
structure Reclaimed (idle : Tid) (tr : List Event) (s : State) : Prop where
  order : ∀ t, tr.foldlM (track t) .absent = some (s.life t)
  counts : ∀ t, tr.count (.created t) = tr.count (.defunct t) + (if s.life t = .live then 1 else 0) ∧
    tr.count (.defunct t) = tr.count (.objectFreed t) + (if s.life t = .defunct then 1 else 0) ∧
    tr.count (.stackFreed t) = tr.count (.objectFreed t)
  listed : ∀ t, (s.kernel.list .defunct).count t = if s.life t = .defunct then 1 else 0
  delete : ∀ t, s.life t ≠ .absent → s.kernel.currentThread ≠ some t →
    ∃ s' es, deleteOther s t = some (s', es) ∧
    (s.life t = .live ∧ es = [.defunct t] ∧ s'.life t = .defunct ∨ s.life t = .defunct ∧ es = [] ∧ s' = s)
  exit : ∀ t, s.life t ≠ .absent → s.kernel.currentThread = some t →
    s.life t = .live ∧ ∃ s', exitCurrent s t = some (s', [.defunct t]) ∧ s'.life t = .defunct
  unlinked : ∀ t rest, s.kernel.list .defunct = t :: rest →
    (∀ h, t ∉ (s.kernel.rtListRemove t).list h) ∧ ((s.kernel.rtListRemove t).thread t).timer.activated = false
  excute : ∃ s', rtThreadIdleExcute s =
      some (s', (s.kernel.list .defunct).flatMap (fun t => [.stackFreed t, .objectFreed t])) ∧
    s'.kernel.list .defunct = [] ∧
    (∀ t, s'.life t = if s.life t = .defunct then .absent else s.life t) ∧
    Run (machine idle) (tr ++ (s.kernel.list .defunct).flatMap (fun t => [.stackFreed t, .objectFreed t])) s'

/-- Every thread that is deleted or exits is put on rt_thread_defunct once, and freed once, when nothing
links to it. -/
theorem defunct_threads_reclaimed_once (run : Run (machine idle) tr s) : Reclaimed idle tr s := by
  obtain ⟨inv, runs, shown⟩ := run_inv run
  refine ⟨shown, ?_, ?_, ?_, ?_, ?_, ?_⟩
  · intro t
    obtain ⟨created, defunct, freed⟩ := tracked_counts (shown t)
    have whole : s.life t ≠ .stackFreed := by
      simp only [State.life]
      split
      · split <;> decide
      · decide
    rw [if_neg whole, Nat.add_zero] at freed
    exact ⟨created, freed ▸ defunct, freed⟩
  · intro t
    split
    · rename_i here
      exact List.count_eq_one_of_mem inv.once ((inv.defunct t).mpr here)
    · rename_i away
      exact List.count_eq_zero_of_not_mem (fun here => away ((inv.defunct t).mp here))
  · intro t created other
    obtain ⟨alive, dynamic⟩ := life_present created
    have goes : ∃ k, s.kernel.rtThreadDelete t = some k := by
      rw [rtThreadDelete, if_neg (by simp [dynamic])]
      split <;> exact ⟨_, rfl⟩
    obtain ⟨k, deleted⟩ := goes
    have taken : deleteOther s t =
        some ({ s with kernel := k }, if (s.kernel.thread t).stat = .close then [] else [.defunct t]) := by
      rw [deleteOther, if_pos ⟨alive, other⟩, deleted, Option.map_some]
    exact ⟨_, _, taken, (delete_next inv runs taken).2⟩
  · intro t created current
    obtain ⟨alive, dynamic⟩ := life_present created
    have notIdle : t ≠ idle := by
      rintro rfl
      rw [inv.idleFixed.2] at dynamic
      cases dynamic
    obtain ⟨k, exited⟩ := exit_goes inv current notIdle
    have taken : exitCurrent s t = some ({ s with kernel := k }, [.defunct t]) := by
      simp [exitCurrent, exited, dynamic]
    rcases (exit_next inv runs current notIdle taken).2 with ⟨live, _, after⟩ | static
    · exact ⟨live, _, taken, after⟩
    · rw [dynamic] at static
      cases static
  · intro t rest head
    obtain ⟨_, _, _, _, out, idleTimer⟩ := inv.reclaim head
    exact ⟨out, idleTimer⟩
  · obtain ⟨s', loop, exec, empty, life⟩ := idleLoop_empties inv runs rfl
    refine ⟨s', loop, empty, ?_, run.exec exec⟩
    intro t
    rw [life t]
    simp only [inv.defunct]

def booted : State :=
  ⟨rtSystemSchedulerInit (fun _ => rtThreadInit 31 true), fun t => t == 0⟩

theorem booted_starts : Start 0 booted :=
  ⟨booted_start (fun _ => 31) (fun _ => true) (fun _ => by decide), fun _ _ => rfl, fun _ => rfl, rfl, rfl⟩

/-- Thread 1 is deleted twice while it waits, with its timer running; thread 2 exits. -/
def twoReclaimed : List Event :=
  [.created 1, .created 2, .defunct 1, .defunct 2, .stackFreed 2, .objectFreed 2, .stackFreed 1, .objectFreed 1]

theorem defunct_threads_reclaimed_once_twice : ∃ s,
    Run (machine 0) twoReclaimed s ∧ s.kernel.list .defunct = [] ∧ Reclaimed 0 twoReclaimed s := by
  obtain ⟨s, run, empty⟩ := Run.shows (M := machine 0) booted_starts
    [.create 1 5, .startup 0, .schedulerStart, .create 2 6, .startup 1, .block 0 .prio 10, .startup 2, .delete 1,
      .delete 1, .exit, .reclaim, .reclaim]
    twoReclaimed (fun s => decide (s.kernel.list .defunct = [])) (by decide +kernel)
  exact ⟨s, run, of_decide_eq_true empty, defunct_threads_reclaimed_once run⟩

end RtThread.Reclaim
