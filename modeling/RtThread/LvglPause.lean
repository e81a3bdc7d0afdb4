import RtThread.Preempt

/-! eth_camera_pause_lvgl and eth_camera_resume_lvgl around a capture, with all else that
threads and interrupts do to the lvgl thread and to each other. A step is one
interrupt-disabled section, or one test of `stat` made with interrupts enabled. -/
namespace RtThread.LvglPause
open Kernel Transition

/-- Where the camera thread is. `saved` is the lvgl thread as the pause found it, if it did
suspend it; the code does not keep this. -/
inductive Phase where
  | away
  | pausing
  | capturing (saved : Option Thread)
  | resuming (saved : Option Thread)
  | unlinked (saved : Option Thread)
  deriving DecidableEq

/-- Between the two calls, or inside the second one. -/
def Phase.paused : Phase → Bool
  | .capturing _ | .resuming _ | .unlinked _ => true
  | _ => false

/-- In the middle of one of the two calls. -/
def Phase.calling : Phase → Bool
  | .pausing | .resuming _ | .unlinked _ => true
  | _ => false

structure State where
  kernel : Kernel
  phase : Phase
  sLvglTid : Option Tid

/-- One step of the camera thread from the phase `phase` on. -/
structure Event where
  phase : Phase
  before : Kernel
  after : Kernel

/-- `suspend`, `unlink` and `insert` are the sections of rt_thread_suspend and
rt_thread_resume called on another thread than lvgl, which only the camera does. -/
inductive Action where
  | camera
  | schedule
  | sleep (tick : Nat)
  | slept
  | block (object : Nat) (flag : IpcFlag) (time : Int)
  | yield
  | wake (object : Nat) (error : Bool)
  | expire (t : Tid)
  | priority (t : Tid) (priority : Nat)
  | suspend (t : Tid)
  | unlink (t : Tid)
  | insert (t : Tid)
  deriving DecidableEq

def State.stat (s : State) (t : Tid) : Stat := (s.kernel.thread t).stat

/-- The next step of the camera thread: `rt_thread_find` has found `lvgl`. -/
def cameraStep (lvgl : Tid) (s : State) : State :=
  match s.phase with
  | .away =>
    let s := if s.sLvglTid = none then { s with sLvglTid := some lvgl } else s
    if s.stat lvgl ≠ .ready then { s with phase := .capturing none } else { s with phase := .pausing }
  | .pausing =>
    { s with
      phase := .capturing (some (s.kernel.thread lvgl))
      kernel := Preempt.suspendSection s.kernel lvgl }
  | .capturing saved =>
    if s.stat lvgl ≠ .suspend then { s with phase := .away } else { s with phase := .resuming saved }
  | .resuming saved => { s with phase := .unlinked saved, kernel := s.kernel.resumeUnlink lvgl }
  | .unlinked _ => { s with phase := .away, kernel := s.kernel.rtScheduleInsertThread lvgl }

/-- The thread that executes code, outside of the two calls. -/
def acting (cam : Tid) (s : State) : Option Tid :=
  s.kernel.currentThread.filter (fun u => s.stat u = .ready && (u ≠ cam || !s.phase.calling))

/-- The section of rt_thread_sleep. -/
def sleepSection (k : Kernel) (t : Tid) (tick : Nat) : Option Kernel :=
  ((k.rtThreadSuspend t).1.rtTimerSetTime t tick).rtTimerStart t

def blockSection (k : Kernel) (t : Tid) (o : Nat) (flag : IpcFlag) (time : Int) : Option Kernel :=
  ((k.modify t (fun th => { th with error := .eok })).rtIpcListSuspend (.wait o) t flag).startWaitTimer t time

/-- rt_thread_yield up to its rt_schedule. -/
def yieldSection (k : Kernel) (t : Tid) : Kernel :=
  let ready := ListHead.ready (k.thread t).currentPriority
  if (k.thread t).stat = .ready ∧ k.neighboursDiffer t ready then
    (k.rtListRemove t).rtListInsertBefore ready t
  else k

/-- rt_ipc_list_resume, or with `error` a turn of the loop of rt_ipc_list_resume_all. -/
def wakeSection (k : Kernel) (o : Nat) (error : Bool) : Kernel :=
  match k.list (.wait o) with
  | [] => k
  | t :: _ =>
    ((if error then k.modify t (fun th => { th with error := .error }) else k).rtThreadResume t).1

/-- What the other threads, the tick and other handlers do to the kernel. -/
def kernelStep (cam lvgl : Tid) (s : State) : Action → Option Kernel
  | .camera => none
  | .schedule => s.kernel.rtSchedule
  | .sleep tick => (acting cam s).bind (fun u => sleepSection s.kernel u tick)
  | .slept => (acting cam s).map (fun u => s.kernel.sleepReturn u)
  | .block o flag time => (acting cam s).bind (fun u => blockSection s.kernel u o flag time)
  | .yield => (acting cam s).map (fun u => yieldSection s.kernel u)
  | .wake o error => some (wakeSection s.kernel o error)
  | .expire t => s.kernel.timerExpire t
  | .priority t priority => some (s.kernel.rtThreadChangePriority t priority)
  | .suspend t => if t = lvgl then none else some (Preempt.suspendSection s.kernel t)
  | .unlink t => if t = lvgl then none else some (s.kernel.resumeUnlink t)
  | .insert t => if t = lvgl then none else some (s.kernel.rtScheduleInsertThread t)

def step (cam lvgl : Tid) (s : State) : Action → Option (State × List Event)
  | .camera =>
    if s.kernel.currentThread = some cam ∧ s.stat cam = .ready then
      let s' := cameraStep lvgl s
      some (s', [⟨s.phase, s.kernel, s'.kernel⟩])
    else none
  | a => (kernelStep cam lvgl s a).map (fun k => ({ s with kernel := k }, []))

/-- Outside of the two calls. A thread that is ready has its timer stopped. -/
structure Start (cam lvgl : Tid) (s : State) : Prop where
  two : cam ≠ lvgl
  away : s.phase = .away
  stopped : s.stat lvgl = .ready → (s.kernel.thread lvgl).timer.activated = false

def machine (cam lvgl : Tid) : Machine State Action Event where
  start := Start cam lvgl
  step := step cam lvgl

/-- What matters of a thread is the same in both. -/
structure Same (k k' : Kernel) (t : Tid) : Prop where
  thread : k'.thread t = k.thread t
  list : ∀ h, t ∈ k'.list h ↔ t ∈ k.list h

/-- The thread is ready again, as it was when it was suspended, its priority apart, which
others may have changed. -/
structure Restored (saved : Thread) (k : Kernel) (t : Tid) : Prop where
  thread : k.thread t = { saved with
    currentPriority := (k.thread t).currentPriority, numberMask := (k.thread t).numberMask }
  ready : (k.thread t).stat = .ready
  list : ∀ h, t ∈ k.list h ↔ h = .ready (k.thread t).currentPriority

/-- The resume does nothing to a thread the pause has not suspended, and restores one that
it has. -/
def Event.Neutral (lvgl : Tid) (e : Event) : Prop :=
  match e.phase with
  | .unlinked (some saved) => Restored saved e.after lvgl
  | .capturing _ | .resuming _ | .unlinked none => Same e.before e.after lvgl
  | .away | .pausing => True

/-- The lvgl thread does not run during the capture, and the resume is neutral. -/
structure Neutral (lvgl : Tid) (tr : List Event) (s : State) : Prop where
  still : s.phase.paused = true → s.kernel.currentThread ≠ some lvgl
  neutral : ∀ e ∈ tr, e.Neutral lvgl

/-- A pause that suspends the lvgl thread finds it still ready then. After one that finds
it not ready, it does not become the thread to run before the resume, and when the resume
tests it, it has become ready by itself. -/
def Guard (lvgl : Tid) (s : State) : Action → Prop
  | .camera =>
    match s.phase with
    | .pausing => s.stat lvgl = .ready
    | .capturing none => s.stat lvgl ≠ .suspend
    | _ => True
  | .schedule => s.phase = .capturing none → s.kernel.schedulerLockNest = 0 →
      s.kernel.highestReady.map (fun r => r.2) ≠ some lvgl
  | _ => True

variable {k k' m : Kernel} {t u l cam lvgl : Tid} {saved : Thread} {s s' : State} {a : Action}
  {tr es : List Event}

/-- A change of the kernel that leaves `l` alone. -/
structure Aside (k k' : Kernel) (l : Tid) : Prop extends Same k k' l where
  current : k'.currentThread = k.currentThread

theorem Aside.refl (k : Kernel) (l : Tid) : Aside k k l := ⟨⟨rfl, fun _ => Iff.rfl⟩, rfl⟩

theorem Aside.trans (first : Aside k m l) (second : Aside m k' l) : Aside k k' l :=
  ⟨⟨second.thread.trans first.thread, fun h => (second.list h).trans (first.list h)⟩,
    second.current.trans first.current⟩

theorem aside_modify (other : l ≠ t) (f : Thread → Thread) : Aside k (k.modify t f) l :=
  ⟨⟨modify_other k t l f other, fun _ => Iff.rfl⟩, rfl⟩

theorem aside_unlinks (unlinks : Preempt.Unlinks k k' t) (other : l ≠ t) : Aside k k' l := by
  refine ⟨⟨unlinks.others l other, ?_⟩, unlinks.current⟩
  intro h
  rw [unlinks.list h]
  simp [other]

theorem aside_links {h : ListHead} (links : Preempt.Links k k' t h) (other : l ≠ t) : Aside k k' l := by
  refine ⟨⟨links.others l other, ?_⟩, links.current⟩
  intro g
  by_cases here : g = h
  · rw [here, links.self.mem_iff]
    simp [other]
  · rw [links.rest g here]

theorem aside_suspendSection (other : l ≠ t) : Aside k (Preempt.suspendSection k t) l :=
  aside_unlinks (Preempt.suspendSection_unlinks k t).1 other

theorem aside_resumeUnlink (other : l ≠ t) : Aside k (k.resumeUnlink t) l :=
  aside_unlinks (Preempt.resumeUnlink_unlinks k t).1 other

theorem aside_scheduleInsert (other : l ≠ t) : Aside k (k.rtScheduleInsertThread t) l :=
  aside_links (Preempt.scheduleInsert_links k t).1 other

theorem aside_suspend (other : l ≠ t) : Aside k (k.rtThreadSuspend t).1 l := by
  simp only [rtThreadSuspend]
  split
  · exact .refl k l
  · exact aside_suspendSection other

theorem aside_resume (other : l ≠ t) : Aside k (k.rtThreadResume t).1 l := by
  simp only [rtThreadResume]
  split
  · exact .refl k l
  · exact (aside_resumeUnlink other).trans (aside_scheduleInsert other)

theorem aside_sleep {tick : Nat} (other : l ≠ t) (slept : sleepSection k t tick = some k') : Aside k k' l := by
  rw [rtTimerStart_some _ _ slept]
  exact ((aside_suspend other).trans (aside_modify other _)).trans (aside_modify other _)

theorem aside_block {o : Nat} {flag : IpcFlag} {time : Int} (other : l ≠ t)
    (blocked : blockSection k t o flag time = some k') : Aside k k' l := by
  obtain ⟨timer, rfl⟩ := startWaitTimer_some blocked
  have suspended := (aside_modify (k := k) other (fun th => { th with error := .eok })).trans
    (aside_suspend other)
  have waiting := suspended.trans (aside_links (Preempt.ipcSuspend_links _ t o flag).1 other)
  exact waiting.trans (aside_modify other _)

theorem aside_yield (other : l ≠ t) : Aside k (yieldSection k t) l := by
  simp only [yieldSection]
  split
  · exact (aside_unlinks (Preempt.listRemove_unlinks k t) other).trans
      (aside_links (Preempt.insertBefore_links _ t _) other)
  · exact .refl k l

theorem aside_sleepReturn (other : l ≠ t) : Aside k (k.sleepReturn t) l := by
  simp only [sleepReturn]
  split
  · exact aside_modify other _
  · exact .refl k l

theorem aside_wake {o : Nat} (error : Bool) (absent : l ∉ k.list (.wait o)) :
    Aside k (wakeSection k o error) l := by
  simp only [wakeSection]
  split
  · exact .refl k l
  · rename_i t rest waiting
    have other : l ≠ t := by
      rintro rfl
      exact absent (by simp [waiting])
    split
    · exact (aside_modify other _).trans (aside_resume other)
    · exact aside_resume other

theorem aside_expire (other : l ≠ t) (expired : k.timerExpire t = some k') : Aside k k' l := by
  simp only [timerExpire] at expired
  split at expired
  · obtain ⟨-, rfl⟩ := timeoutWake_some _ _ expired
    have stopped := (aside_modify (k := k) other
      (fun th => { th with timer := { th.timer with activated := false } })).trans
        (aside_modify other (fun th => { th with error := .etimeout }))
    exact (stopped.trans (aside_unlinks (Preempt.listRemove_unlinks _ t) other)).trans
      (aside_scheduleInsert other)
  · contradiction

theorem aside_priority (p : Nat) (other : l ≠ t) : Aside k (k.rtThreadChangePriority t p) l := by
  have removed : Aside k (k.rtScheduleRemoveThread t) l := by
    refine ⟨⟨by simp, fun h => by simp [other]⟩, ?_⟩
    simp only [rtScheduleRemoveThread]
    split <;> rfl
  simp only [rtThreadChangePriority]
  split
  · exact (removed.trans (aside_modify other _)).trans (aside_scheduleInsert other)
  · exact aside_modify other _

theorem acting_some (found : acting cam s = some u) :
    s.kernel.currentThread = some u ∧ (s.kernel.thread u).stat = .ready := by
  obtain ⟨current, may⟩ := Option.filter_eq_some_iff.mp found
  simp only [Bool.and_eq_true, decide_eq_true_eq] at may
  exact ⟨current, may.1⟩

/-- The lvgl thread while the pause keeps it suspended: on no list, so that nothing but the
resume can find it. -/
structure Frozen (saved : Thread) (k : Kernel) (l : Tid) : Prop where
  ready : saved.stat = .ready
  stopped : saved.timer.activated = false
  thread : k.thread l = { saved with
    stat := .suspend, currentPriority := (k.thread l).currentPriority, numberMask := (k.thread l).numberMask }
  off : ∀ h, l ∉ k.list h
  still : k.currentThread ≠ some l

theorem Frozen.suspended (frozen : Frozen saved k l) : (k.thread l).stat = .suspend := by
  rw [frozen.thread]

theorem Frozen.timer (frozen : Frozen saved k l) : (k.thread l).timer.activated = false := by
  rw [frozen.thread]
  exact frozen.stopped

theorem Frozen.aside (frozen : Frozen saved k l) (aside : Aside k k' l) : Frozen saved k' l := by
  refine ⟨frozen.ready, frozen.stopped, ?_, ?_, ?_⟩
  · rw [aside.thread]
    exact frozen.thread
  · intro h
    rw [aside.list h]
    exact frozen.off h
  · rw [aside.current]
    exact frozen.still

theorem Frozen.schedule (frozen : Frozen saved k l) (scheduled : k.rtSchedule = some k') :
    Frozen saved k' l := by
  obtain ⟨thread, list, -, -⟩ := schedule_frame k scheduled
  refine ⟨frozen.ready, frozen.stopped, ?_, ?_, ?_⟩
  · rw [thread]
    exact frozen.thread
  · rw [list]
    exact frozen.off
  · by_cases unlocked : k.schedulerLockNest = 0
    · obtain ⟨-, u, p, current, queued⟩ := Preempt.schedule_current unlocked scheduled
      rw [current]
      rintro ⟨⟩
      exact frozen.off _ queued
    · simp only [rtSchedule, if_neg unlocked] at scheduled
      cases scheduled
      exact frozen.still

theorem Frozen.priority (frozen : Frozen saved k l) (t : Tid) (p : Nat) :
    Frozen saved (k.rtThreadChangePriority t p) l := by
  by_cases self : l = t
  · subst self
    have held : k.rtThreadChangePriority l p = k.setPriority l p := by
      simp [rtThreadChangePriority, frozen.suspended]
    rw [held]
    refine ⟨frozen.ready, frozen.stopped, ?_, frozen.off, frozen.still⟩
    have thread := frozen.thread
    simp only [setPriority, modify_self]
    rw [thread]
  · exact frozen.aside (aside_priority p self)

theorem Frozen.kernelStep (frozen : Frozen saved s.kernel lvgl) (taken : kernelStep cam lvgl s a = some k) :
    Frozen saved k lvgl := by
  have other : ∀ {u}, acting cam s = some u → lvgl ≠ u := by
    rintro u found rfl
    exact frozen.still (acting_some found).1
  cases a with
  | camera => contradiction
  | schedule => exact frozen.schedule taken
  | sleep tick =>
    obtain ⟨u, found, slept⟩ := Option.bind_eq_some_iff.mp taken
    exact frozen.aside (aside_sleep (other found) slept)
  | slept =>
    obtain ⟨u, found, rfl⟩ := Option.map_eq_some_iff.mp taken
    exact frozen.aside (aside_sleepReturn (other found))
  | block o flag time =>
    obtain ⟨u, found, blocked⟩ := Option.bind_eq_some_iff.mp taken
    exact frozen.aside (aside_block (other found) blocked)
  | yield =>
    obtain ⟨u, found, rfl⟩ := Option.map_eq_some_iff.mp taken
    exact frozen.aside (aside_yield (other found))
  | wake o error =>
    cases taken
    exact frozen.aside (aside_wake error (frozen.off _))
  | expire t =>
    have elsewhere : lvgl ≠ t := by
      rintro rfl
      simp [LvglPause.kernelStep, timerExpire, frozen.timer] at taken
    exact frozen.aside (aside_expire elsewhere taken)
  | priority t p =>
    cases taken
    exact frozen.priority t p
  | suspend t =>
    obtain ⟨elsewhere, result⟩ := Option.ite_none_left_eq_some.mp taken
    cases result
    exact frozen.aside (aside_suspendSection (Ne.symm elsewhere))
  | unlink t =>
    obtain ⟨elsewhere, result⟩ := Option.ite_none_left_eq_some.mp taken
    cases result
    exact frozen.aside (aside_resumeUnlink (Ne.symm elsewhere))
  | insert t =>
    obtain ⟨elsewhere, result⟩ := Option.ite_none_left_eq_some.mp taken
    cases result
    exact frozen.aside (aside_scheduleInsert (Ne.symm elsewhere))

/-- A ready thread has its timer stopped. -/
def Stopped (k : Kernel) (l : Tid) : Prop :=
  (k.thread l).stat = .ready → (k.thread l).timer.activated = false

theorem Stopped.aside (stopped : Stopped k l) (aside : Aside k k' l) : Stopped k' l := by
  unfold Stopped
  rw [aside.thread]
  exact stopped

theorem Stopped.modify {f : Thread → Thread} (stopped : Stopped k l) (t : Tid)
    (stat : ∀ th, (f th).stat = th.stat) (timer : ∀ th, (f th).timer = th.timer) :
    Stopped (k.modify t f) l := by
  by_cases self : l = t
  · subst self
    unfold Stopped
    rw [modify_self, stat, timer]
    exact stopped
  · exact stopped.aside (aside_modify self f)

theorem Stopped.resume (stopped : Stopped k l) (t : Tid) : Stopped (k.rtThreadResume t).1 l := by
  by_cases self : l = t
  · subst self
    simp only [rtThreadResume]
    split
    · exact stopped
    · intro _
      simp [resumeUnlink, rtTimerStop]
  · exact stopped.aside (aside_resume self)

theorem Stopped.kernelStep (stopped : Stopped s.kernel lvgl) (taken : kernelStep cam lvgl s a = some k) :
    Stopped k lvgl := by
  cases a with
  | camera => contradiction
  | schedule =>
    unfold Stopped
    rw [(schedule_frame _ taken).1]
    exact stopped
  | sleep tick =>
    obtain ⟨u, found, slept⟩ := Option.bind_eq_some_iff.mp taken
    by_cases self : lvgl = u
    · subst self
      rw [rtTimerStart_some _ _ slept]
      intro ready
      simp [rtThreadSuspend, (acting_some found).2, rtTimerStop, rtTimerSetTime] at ready
    · exact stopped.aside (aside_sleep self slept)
  | slept =>
    obtain ⟨u, found, rfl⟩ := Option.map_eq_some_iff.mp taken
    simp only [sleepReturn]
    split
    · exact stopped.modify u (fun _ => rfl) (fun _ => rfl)
    · exact stopped
  | block o flag time =>
    obtain ⟨u, found, blocked⟩ := Option.bind_eq_some_iff.mp taken
    by_cases self : lvgl = u
    · subst self
      obtain ⟨timer, rfl⟩ := startWaitTimer_some blocked
      intro ready
      have suspended := (Preempt.ipcSuspend_links (s.kernel.modify lvgl (fun th => { th with error := .eok }))
        lvgl o flag).2
      rw [modify_self, suspended] at ready
      simp [rtThreadSuspend, (acting_some found).2, rtTimerStop] at ready
    · exact stopped.aside (aside_block self blocked)
  | yield =>
    obtain ⟨u, found, rfl⟩ := Option.map_eq_some_iff.mp taken
    unfold Stopped LvglPause.yieldSection
    simp only
    split
    · exact stopped
    · exact stopped
  | wake o error =>
    cases taken
    simp only [wakeSection]
    split
    · exact stopped
    · rename_i t rest waiting
      split
      · have marked := stopped.modify (f := fun th => { th with error := .error }) t (fun _ => rfl) (fun _ => rfl)
        exact marked.resume t
      · exact stopped.resume t
  | expire t =>
    by_cases self : lvgl = t
    · subst self
      simp only [LvglPause.kernelStep, timerExpire] at taken
      split at taken
      · obtain ⟨-, rfl⟩ := timeoutWake_some _ _ taken
        intro _
        simp [rtTimerStop]
      · contradiction
    · exact stopped.aside (aside_expire self taken)
  | priority t p =>
    cases taken
    by_cases self : lvgl = t
    · subst self
      simp only [rtThreadChangePriority]
      split
      · rename_i ready
        intro _
        simpa [setPriority] using stopped ready
      · exact stopped.modify lvgl (fun _ => rfl) (fun _ => rfl)
    · exact stopped.aside (aside_priority p self)
  | suspend t =>
    obtain ⟨elsewhere, result⟩ := Option.ite_none_left_eq_some.mp taken
    cases result
    exact stopped.aside (aside_suspendSection (Ne.symm elsewhere))
  | unlink t =>
    obtain ⟨elsewhere, result⟩ := Option.ite_none_left_eq_some.mp taken
    cases result
    exact stopped.aside (aside_resumeUnlink (Ne.symm elsewhere))
  | insert t =>
    obtain ⟨elsewhere, result⟩ := Option.ite_none_left_eq_some.mp taken
    cases result
    exact stopped.aside (aside_scheduleInsert (Ne.symm elsewhere))

/-- What is known in each phase of a run that meets the guard. -/
def Held (lvgl : Tid) (s : State) : Prop :=
  match s.phase with
  | .capturing (some saved) | .resuming (some saved) | .unlinked (some saved) => Frozen saved s.kernel lvgl
  | .capturing none => s.kernel.currentThread ≠ some lvgl
  | .resuming none | .unlinked none => False
  | .away | .pausing => True

structure Inv (cam lvgl : Tid) (tr : List Event) (s : State) : Prop where
  two : cam ≠ lvgl
  stopped : Stopped s.kernel lvgl
  held : Held lvgl s
  neutral : ∀ e ∈ tr, e.Neutral lvgl

/-- rt_thread_suspend takes a ready thread off every list. -/
theorem suspendSection_frozen (stopped : Stopped k l) (ready : (k.thread l).stat = .ready)
    (elsewhere : k.currentThread ≠ some l) :
    Frozen (k.thread l) (Preempt.suspendSection k l) l := by
  obtain ⟨unlinks, -⟩ := Preempt.suspendSection_unlinks k l
  refine ⟨ready, stopped ready, ?_, ?_, ?_⟩
  · simp [Preempt.suspendSection, rtTimerStop, ← stopped ready]
  · intro h
    rw [unlinks.list h]
    simp
  · rw [unlinks.current]
    exact elsewhere

theorem Frozen.resumeUnlink (frozen : Frozen saved k l) :
    Same k (k.resumeUnlink l) l ∧ Frozen saved (k.resumeUnlink l) l := by
  obtain ⟨unlinks, -⟩ := Preempt.resumeUnlink_unlinks k l
  have same : Same k (k.resumeUnlink l) l := by
    constructor
    · simp [Kernel.resumeUnlink, rtTimerStop, ← frozen.timer]
    · intro h
      rw [unlinks.list h]
      simp [frozen.off h]
  exact ⟨same, frozen.aside ⟨same, unlinks.current⟩⟩

theorem Frozen.restored (frozen : Frozen saved k l) : Restored saved (k.rtScheduleInsertThread l) l := by
  have links := (Preempt.scheduleInsert_links k l).1
  constructor
  · rw [scheduleInsert_self, frozen.thread, ← frozen.ready]
  · simp
  · intro h
    rw [scheduleInsert_self]
    by_cases here : h = .ready (k.thread l).currentPriority
    · simp [here]
    · simp [here, frozen.off h]

theorem Same.refl (k : Kernel) (l : Tid) : Same k k l := ⟨rfl, fun _ => Iff.rfl⟩

theorem Frozen.isStopped (frozen : Frozen saved k l) : Stopped k l := fun _ => frozen.timer

theorem camera_inv (inv : Inv cam lvgl tr s) (current : s.kernel.currentThread = some cam)
    (guard : Guard lvgl s .camera) :
    Held lvgl (cameraStep lvgl s) ∧ Stopped (cameraStep lvgl s).kernel lvgl ∧
      Event.Neutral lvgl ⟨s.phase, s.kernel, (cameraStep lvgl s).kernel⟩ := by
  have elsewhere : s.kernel.currentThread ≠ some lvgl := by
    rw [current]
    rintro ⟨⟩
    exact inv.two rfl
  have held := inv.held
  have stopped := inv.stopped
  obtain ⟨kernel, phase, handle⟩ := s
  cases phase with
  | away =>
    cases handle with
    | none | some =>
      simp only [cameraStep, if_true, reduceCtorEq, if_false]
      split
      · exact ⟨elsewhere, stopped, trivial⟩
      · exact ⟨trivial, stopped, trivial⟩
  | pausing =>
    have frozen := suspendSection_frozen stopped guard elsewhere
    exact ⟨frozen, frozen.isStopped, trivial⟩
  | capturing saved =>
    simp only [cameraStep]
    split
    · exact ⟨trivial, stopped, .refl kernel lvgl⟩
    · cases saved with
      | none =>
        rename_i suspended
        exact absurd (not_not.mp suspended) guard
      | some saved => exact ⟨held, stopped, .refl kernel lvgl⟩
  | resuming saved =>
    cases saved with
    | none => exact held.elim
    | some saved =>
      obtain ⟨same, frozen⟩ := Frozen.resumeUnlink held
      exact ⟨frozen, frozen.isStopped, same⟩
  | unlinked saved =>
    cases saved with
    | none => exact held.elim
    | some saved =>
      refine ⟨trivial, ?_, Frozen.restored held⟩
      intro _
      simpa [cameraStep] using Frozen.timer held

/-- Only rt_schedule changes the current thread. -/
theorem kernelStep_current (taken : kernelStep cam lvgl s a = some k) (other : a ≠ .schedule) :
    k.currentThread = s.kernel.currentThread := by
  have next : ∀ t : Tid, t + 1 ≠ t := fun t => Nat.succ_ne_self t
  cases a with
  | camera => contradiction
  | schedule => exact absurd rfl other
  | sleep tick =>
    obtain ⟨u, -, slept⟩ := Option.bind_eq_some_iff.mp taken
    exact (aside_sleep (next u) slept).current
  | slept =>
    obtain ⟨u, -, rfl⟩ := Option.map_eq_some_iff.mp taken
    exact (aside_sleepReturn (next u)).current
  | block o flag time =>
    obtain ⟨u, -, blocked⟩ := Option.bind_eq_some_iff.mp taken
    exact (aside_block (next u) blocked).current
  | yield =>
    obtain ⟨u, -, rfl⟩ := Option.map_eq_some_iff.mp taken
    exact (aside_yield (next u)).current
  | wake o error =>
    cases taken
    simp only [wakeSection]
    split
    · rfl
    · rename_i t rest waiting
      split
      · exact ((aside_modify (next t) _).trans (aside_resume (next t))).current
      · exact (aside_resume (next t)).current
  | expire t => exact (aside_expire (next t) taken).current
  | priority t p =>
    cases taken
    exact (aside_priority p (next t)).current
  | suspend t =>
    obtain ⟨-, result⟩ := Option.ite_none_left_eq_some.mp taken
    cases result
    exact (aside_suspendSection (next t)).current
  | unlink t =>
    obtain ⟨-, result⟩ := Option.ite_none_left_eq_some.mp taken
    cases result
    exact (aside_resumeUnlink (next t)).current
  | insert t =>
    obtain ⟨-, result⟩ := Option.ite_none_left_eq_some.mp taken
    cases result
    exact (aside_scheduleInsert (next t)).current

/-- rt_schedule makes no other thread current than the one it finds. -/
theorem schedule_elsewhere (scheduled : k.rtSchedule = some k') (elsewhere : k.currentThread ≠ some l)
    (found : k.schedulerLockNest = 0 → k.highestReady.map (fun r => r.2) ≠ some l) :
    k'.currentThread ≠ some l := by
  simp only [rtSchedule] at scheduled
  split at scheduled
  · rename_i unlocked
    split at scheduled
    · contradiction
    · rename_i p next best
      split at scheduled
      · cases scheduled
        simpa [best] using found unlocked
      · cases scheduled
        exact elsewhere
  · cases scheduled
    exact elsewhere

theorem kernel_inv (inv : Inv cam lvgl tr s) (guard : Guard lvgl s a)
    (taken : kernelStep cam lvgl s a = some k) : Inv cam lvgl tr { s with kernel := k } := by
  refine ⟨inv.two, inv.stopped.kernelStep taken, ?_, inv.neutral⟩
  have held := inv.held
  obtain ⟨kernel, phase, handle⟩ := s
  cases phase with
  | away | pausing => trivial
  | resuming saved | unlinked saved =>
    cases saved with
    | none => exact held.elim
    | some saved => exact Frozen.kernelStep held taken
  | capturing saved =>
    cases saved with
    | none =>
      by_cases schedule : a = .schedule
      · subst schedule
        exact schedule_elsewhere taken held (guard rfl)
      · change k.currentThread ≠ some lvgl
        rw [kernelStep_current taken schedule]
        exact held
    | some saved => exact Frozen.kernelStep held taken

theorem step_inv (inv : Inv cam lvgl tr s) (guard : Guard lvgl s a)
    (taken : step cam lvgl s a = some (s', es)) : Inv cam lvgl (tr ++ es) s' := by
  by_cases camera : a = .camera
  · subst camera
    simp only [step, Option.ite_none_right_eq_some, Option.some.injEq, Prod.mk.injEq] at taken
    obtain ⟨⟨current, -⟩, rfl, rfl⟩ := taken
    obtain ⟨held, stopped, neutral⟩ := camera_inv inv current guard
    refine ⟨inv.two, stopped, held, ?_⟩
    intro e member
    rcases List.mem_append.mp member with old | new
    · exact inv.neutral e old
    · rw [List.mem_singleton.mp new]
      exact neutral
  · have others : (kernelStep cam lvgl s a).map (fun k => (({ s with kernel := k } : State), ([] : List Event))) =
        some (s', es) := by
      cases a with
      | camera => exact absurd rfl camera
      | _ => exact taken
    obtain ⟨k, moved, result⟩ := Option.map_eq_some_iff.mp others
    cases result
    rw [List.append_nil]
    exact kernel_inv inv guard moved

/-- The pause is neutral in every run that meets the guard. -/
theorem pause_neutral (run : RunWhere (machine cam lvgl) (Guard lvgl) tr s) : Neutral lvgl tr s := by
  have inv : Inv cam lvgl tr s := by
    apply run.invariant (I := Inv cam lvgl)
    · intro s start
      refine ⟨start.two, start.stopped, ?_, by simp⟩
      simp only [Held, start.away]
    · intro tr s a s' es _ inv guard taken
      exact step_inv inv guard taken
  refine ⟨?_, inv.neutral⟩
  intro paused
  have held := inv.held
  obtain ⟨kernel, phase, handle⟩ := s
  cases phase with
  | away | pausing => contradiction
  | resuming saved | unlinked saved =>
    cases saved with
    | none => exact held.elim
    | some saved => exact Frozen.still held
  | capturing saved =>
    cases saved with
    | none => exact held
    | some saved => exact Frozen.still held

theorem camera_step (current : s.kernel.currentThread = some cam) (ready : s.stat cam = .ready) :
    step cam lvgl s .camera =
      some (cameraStep lvgl s, [⟨s.phase, s.kernel, (cameraStep lvgl s).kernel⟩]) := if_pos ⟨current, ready⟩

theorem resume_disturbs (two : cam ≠ lvgl) (capturing : s.phase = .capturing none)
    (asleep : s.stat lvgl = .suspend) (current : s.kernel.currentThread = some cam)
    (ready : s.stat cam = .ready) :
    ∃ s' es, (machine cam lvgl).exec s [.camera, .camera, .camera] = some (s', es) ∧
      s'.stat lvgl = .ready ∧ ∃ e ∈ es, ¬ e.Neutral lvgl := by
  obtain ⟨k, phase, handle⟩ := s
  cases capturing
  obtain ⟨m, isM⟩ : ∃ m, m = k.resumeUnlink lvgl := ⟨_, rfl⟩
  obtain ⟨unlinks, stat⟩ := Preempt.resumeUnlink_unlinks k lvgl
  rw [← isM] at unlinks stat
  have tested : cameraStep lvgl ⟨k, .capturing none, handle⟩ = ⟨k, .resuming none, handle⟩ :=
    if_neg (not_not.mpr asleep)
  have taken : cameraStep lvgl ⟨k, .resuming none, handle⟩ = ⟨m, .unlinked none, handle⟩ := by
    rw [isM]
    rfl
  have first : step cam lvgl ⟨k, .capturing none, handle⟩ .camera = _ := camera_step current ready
  have second : step cam lvgl ⟨k, .resuming none, handle⟩ .camera = _ := camera_step current ready
  have stillReady : (m.thread cam).stat = .ready := by
    rw [unlinks.others cam two]
    exact ready
  have third : step cam lvgl ⟨m, .unlinked none, handle⟩ .camera = _ :=
    camera_step (unlinks.current.trans current) stillReady
  rw [tested] at first
  rw [taken] at second
  refine ⟨⟨m.rtScheduleInsertThread lvgl, .away, handle⟩,
    [⟨.capturing none, k, k⟩, ⟨.resuming none, k, m⟩, ⟨.unlinked none, m, m.rtScheduleInsertThread lvgl⟩],
    ?_, ?_, ⟨.unlinked none, m, m.rtScheduleInsertThread lvgl⟩, by simp, ?_⟩
  · simp only [Machine.exec, machine, first, second, third, Option.bind_some, Option.map_some]
    rfl
  · simp [State.stat]
  · intro same
    have thread : (m.rtScheduleInsertThread lvgl).thread lvgl = m.thread lvgl := Same.thread same
    rw [scheduleInsert_self] at thread
    have stats := congrArg Thread.stat thread
    have suspended : (m.thread lvgl).stat = .suspend := stat.trans asleep
    rw [suspended] at stats
    contradiction

/-- The lvgl thread 0, the camera thread 1 and another thread, with their priorities in
the order of the board's; the first of them runs. -/
def board : State where
  kernel := { startedThreads (fun t => [11, 15, 20].getD t 31) 3 with currentThread := some 0 }
  phase := .away
  sLvglTid := none

theorem board_start : Start 1 0 board := ⟨by decide, rfl, by decide⟩

/-- A guard that implies the one above and that can be computed. -/
def guardChecked (lvgl : Tid) (s : State) : Action → Bool
  | .camera =>
    match s.phase with
    | .pausing => s.stat lvgl = .ready
    | .capturing none => s.stat lvgl ≠ .suspend
    | _ => true
  | .schedule => s.phase ≠ .capturing none || s.kernel.highestReady.map (fun r => r.2) ≠ some lvgl
  | _ => true

theorem guardChecked_sound (checked : guardChecked lvgl s a = true) : Guard lvgl s a := by
  cases a with
  | camera =>
    simp only [guardChecked, Guard] at checked ⊢
    split at checked
    · simpa using checked
    · simpa using checked
    · trivial
  | schedule =>
    intro capturing _
    simpa [guardChecked, capturing] using checked
  | _ => trivial

/-- The camera thread, at a raised priority, suspends the ready lvgl thread, waits for its
frame and resumes it. -/
theorem pause_neutral_raised :
    ∃ tr s, Neutral 0 tr s ∧ s.phase = .away ∧ s.sLvglTid = some 0 ∧ 0 ∈ s.kernel.list (.ready 11) := by
  obtain ⟨tr, s, run, found⟩ := Run.reaches (M := (machine 1 0).restrict (guardChecked 0)) board_start
    [.priority 1 5, .schedule, .camera, .camera, .block 0 .prio 100, .schedule, .wake 0 false, .schedule,
      .camera, .camera, .camera]
    (fun s => decide (s.phase = .away ∧ s.sLvglTid = some 0 ∧ 0 ∈ s.kernel.list (.ready 11))) (by decide +kernel)
  exact ⟨tr, s, pause_neutral (.ofRestrict (fun _ _ _ _ => guardChecked_sound) run), of_decide_eq_true found⟩

/-- The lvgl thread sleeps when the camera thread comes to run, as it does at its lower
priority. The resume ends the sleep; or the sleep ends and the thread runs during the capture. -/
theorem pause_disturbs :
    (∃ tr s, Run (machine 1 0) tr s ∧ s.stat 0 = .ready ∧ ¬ ∀ e ∈ tr, e.Neutral 0) ∧
      ∃ tr s, Run (machine 1 0) tr s ∧ s.phase.paused = true ∧ s.kernel.currentThread = some 0 := by
  constructor
  · obtain ⟨tr, s, run, found⟩ := Run.reaches (M := machine 1 0) board_start
      [.sleep 5, .schedule, .camera]
      (fun s => decide (s.phase = .capturing none ∧ s.stat 0 = .suspend ∧
        s.kernel.currentThread = some 1 ∧ s.stat 1 = .ready)) (by decide)
    obtain ⟨capturing, asleep, current, ready⟩ := of_decide_eq_true found
    obtain ⟨s', es, done, woken, e, member, disturbed⟩ :=
      resume_disturbs (by decide) capturing asleep current ready
    refine ⟨_, s', run.exec (M := machine 1 0) done, woken, ?_⟩
    intro neutral
    exact disturbed (neutral e (List.mem_append_right tr member))
  · obtain ⟨tr, s, run, found⟩ := Run.reaches (M := machine 1 0) board_start
      [.sleep 5, .schedule, .camera, .expire 0, .schedule]
      (fun s => decide (s.phase.paused = true ∧ s.kernel.currentThread = some 0)) (by decide)
    exact ⟨tr, s, run, of_decide_eq_true found⟩

end RtThread.LvglPause
