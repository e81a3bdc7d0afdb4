import Mathlib.Algebra.Order.Ring.Int
import Mathlib.Logic.Function.Basic
import Mathlib.Data.List.Basic

/-! Threads, the ready queue and the wait lists of the kernel (thread.c, scheduler.c
and the list functions at the top of ipc.c). An intrusive list is the list of the
threads met from its head on; a thread's `tlist` node is in a list when the thread
occurs there. Object handles are typed, so the object class assertions are not
repeated; every other RT_ASSERT is, and a failed one never returns. -/
namespace RtThread

abbrev Tid := Nat

inductive Err where
  | eok | error | etimeout | efull | einval | eintr
  deriving DecidableEq

/-- The values of `stat & RT_THREAD_STAT_MASK`. -/
inductive Stat where
  | init | ready | suspend | running | close
  deriving DecidableEq

/-- The built-in one-shot timer of a thread, as far as thread.c and ipc.c use it. -/
structure ThreadTimer where
  initTick : Nat
  activated : Bool
  deriving DecidableEq

structure Thread where
  stat : Stat
  statSignal : BitVec 4
  error : Err
  currentPriority : Nat
  initPriority : Nat
  numberMask : BitVec 32
  eventSet : BitVec 32
  eventInfo : BitVec 8
  timer : ThreadTimer
  systemObject : Bool
  deriving DecidableEq

/-- The heads a `tlist` node can be linked under. -/
inductive ListHead where
  | ready (priority : Nat)
  | wait (object : Nat)
  | defunct
  deriving DecidableEq

structure Kernel where
  thread : Tid → Thread
  list : ListHead → List Tid
  readyPriorityGroup : BitVec 32
  currentThread : Option Tid
  currentPriority : Nat
  schedulerLockNest : Int
  tick : Nat

def rtThreadPriorityMax : Nat := 32
def rtTickMax : Nat := 0xffffffff

/-- RT_ALIGN and RT_ALIGN_DOWN of rtdef.h for RT_ALIGN_SIZE, on an rt_size_t. -/
def rtAlignSize : Nat := 4
def rtAlign (size : Nat) : Nat := (size + (rtAlignSize - 1)) % 2 ^ 32 / rtAlignSize * rtAlignSize
def rtAlignDown (size : Nat) : Nat := size / rtAlignSize * rtAlignSize

/-- Subtraction of two rt_size_t. -/
def sub32 (a b : Nat) : Nat := (a + 2 ^ 32 - b) % 2 ^ 32

namespace Kernel

def modify (k : Kernel) (t : Tid) (f : Thread → Thread) : Kernel :=
  { k with thread := Function.update k.thread t (f (k.thread t)) }

/-- The fields _rt_thread_init sets. -/
def rtThreadInit (priority : Nat) (static : Bool) : Thread where
  stat := .init
  statSignal := 0
  error := .eok
  currentPriority := priority
  initPriority := priority
  numberMask := 0
  eventSet := 0
  eventInfo := 0
  timer := ⟨0, false⟩
  systemObject := static

/-- rt_system_scheduler_init, with the thread objects given. -/
def rtSystemSchedulerInit (thread : Tid → Thread) : Kernel where
  thread := thread
  list := fun _ => []
  readyPriorityGroup := 0
  currentThread := none
  currentPriority := rtThreadPriorityMax - 1
  schedulerLockNest := 0
  tick := 0

/- rt_list_remove on a node that is in no list leaves every list as it is. -/
def rtListRemove (k : Kernel) (t : Tid) : Kernel :=
  { k with list := fun h => (k.list h).filter (· ≠ t) }

def rtListInsertBefore (k : Kernel) (h : ListHead) (t : Tid) : Kernel :=
  { k with list := Function.update k.list h (k.list h ++ [t]) }

def rtListInsertAfter (k : Kernel) (h : ListHead) (t : Tid) : Kernel :=
  { k with list := Function.update k.list h (t :: k.list h) }

/-- Position of the lowest set bit plus one, 0 for the value 0 (RBIT, CLZ, ADDS 1). -/
def rtFfs (v : BitVec 32) : Nat :=
  match (List.range 32).find? (fun i => v.getLsbD i) with
  | some i => i + 1
  | none => 0

/- Reading entry -1 of the priority table, or taking a thread out of an empty
list, has no defined result: `none`. -/
def highestReady (k : Kernel) : Option (Nat × Tid) :=
  match rtFfs k.readyPriorityGroup with
  | 0 => none
  | p + 1 => (k.list (.ready p)).head?.map (fun t => (p, t))

def rtSystemSchedulerStart (k : Kernel) : Option Kernel :=
  k.highestReady.map (fun r => { k with currentThread := some r.2 })

def rtSchedule (k : Kernel) : Option Kernel :=
  if k.schedulerLockNest = 0 then
    match k.highestReady with
    | none => none
    | some (p, toThread) =>
      if some toThread ≠ k.currentThread then
        some { k with currentPriority := p, currentThread := some toThread }
      else some k
  else some k

def rtScheduleInsertThread (k : Kernel) (t : Tid) : Kernel :=
  let k := k.modify t (fun th => { th with stat := .ready })
  let k := k.rtListInsertBefore (.ready (k.thread t).currentPriority) t
  { k with readyPriorityGroup := k.readyPriorityGroup ||| (k.thread t).numberMask }

def rtScheduleRemoveThread (k : Kernel) (t : Tid) : Kernel :=
  let k := k.rtListRemove t
  if k.list (.ready (k.thread t).currentPriority) = [] then
    { k with readyPriorityGroup := k.readyPriorityGroup &&& ~~~ (k.thread t).numberMask }
  else k

/- The three timer calls on `thread->thread_timer`. -/
def rtTimerStop (k : Kernel) (t : Tid) : Kernel :=
  k.modify t (fun th => { th with timer := { th.timer with activated := false } })

def rtTimerSetTime (k : Kernel) (t : Tid) (time : Nat) : Kernel :=
  k.modify t (fun th => { th with timer := { th.timer with initTick := time } })

def rtTimerStart (k : Kernel) (t : Tid) : Option Kernel :=
  if (k.thread t).timer.initTick < rtTickMax / 2 then
    some (k.modify t (fun th => { th with timer := { th.timer with activated := true } }))
  else none

def rtThreadSuspend (k : Kernel) (t : Tid) : Kernel × Err :=
  if (k.thread t).stat ≠ .ready then (k, .error)
  else
    let k := k.rtScheduleRemoveThread t
    let k := k.modify t (fun th => { th with stat := .suspend })
    (k.rtTimerStop t, .eok)

/-- The interrupt-disabled section of rt_thread_resume that precedes the insertion. -/
def resumeUnlink (k : Kernel) (t : Tid) : Kernel :=
  (k.rtListRemove t).rtTimerStop t

def rtThreadResume (k : Kernel) (t : Tid) : Kernel × Err :=
  if (k.thread t).stat ≠ .suspend then (k, .error)
  else ((k.resumeUnlink t).rtScheduleInsertThread t, .eok)

/-- rt_thread_timeout up to its call of rt_schedule. -/
def timeoutWake (k : Kernel) (t : Tid) : Option Kernel :=
  if (k.thread t).stat = .suspend then
    let k := k.modify t (fun th => { th with error := .etimeout })
    let k := k.rtListRemove t
    some (k.rtScheduleInsertThread t)
  else none

def rtThreadTimeout (k : Kernel) (t : Tid) : Option Kernel :=
  (k.timeoutWake t).bind rtSchedule

/-- Expiry of a thread's timer: rt_timer_check takes the one-shot timer off the
timer list, clears its flag and calls rt_thread_timeout. -/
def timerExpire (k : Kernel) (t : Tid) : Option Kernel :=
  if (k.thread t).timer.activated then (k.rtTimerStop t).timeoutWake t else none

def setPriority (k : Kernel) (t : Tid) (priority : Nat) : Kernel :=
  k.modify t (fun th => { th with
    currentPriority := priority, numberMask := 1#32 <<< priority })

/-- rt_thread_control with RT_THREAD_CTRL_CHANGE_PRIORITY. -/
def rtThreadChangePriority (k : Kernel) (t : Tid) (priority : Nat) : Kernel :=
  if (k.thread t).stat = .ready then
    ((k.rtScheduleRemoveThread t).setPriority t priority).rtScheduleInsertThread t
  else k.setPriority t priority

def rtThreadStartup (k : Kernel) (t : Tid) : Option Kernel :=
  if (k.thread t).stat = .init then
    let k := k.setPriority t (k.thread t).initPriority
    let k := k.modify t (fun th => { th with stat := .suspend, statSignal := 0 })
    let k := (k.rtThreadResume t).1
    if k.currentThread.isSome then k.rtSchedule else some k
  else none

def closeThread (k : Kernel) (t : Tid) : Kernel :=
  k.modify t (fun th => { th with stat := .close, statSignal := 0 })

def rtThreadDetach (k : Kernel) (t : Tid) : Option Kernel :=
  if (k.thread t).systemObject then
    if (k.thread t).stat = .close then some k
    else
      let k := if (k.thread t).stat ≠ .init then k.rtScheduleRemoveThread t else k
      some ((k.rtTimerStop t).closeThread t)
  else none

def rtThreadDelete (k : Kernel) (t : Tid) : Option Kernel :=
  if (k.thread t).systemObject then none
  else if (k.thread t).stat = .close then some k
  else
    let k := if (k.thread t).stat ≠ .init then k.rtScheduleRemoveThread t else k
    some (((k.rtTimerStop t).closeThread t).rtListInsertAfter .defunct t)

def rtThreadExit (k : Kernel) : Option Kernel :=
  match k.currentThread with
  | none => none
  | some t =>
    let k := ((k.rtScheduleRemoveThread t).closeThread t).rtTimerStop t
    let k := if (k.thread t).systemObject then k else k.rtListInsertAfter .defunct t
    k.rtSchedule

/- A node's two neighbours differ exactly when its list holds another node. -/
def neighboursDiffer (k : Kernel) (t : Tid) (h : ListHead) : Bool :=
  t ∈ k.list h && 2 ≤ (k.list h).length

def rtThreadYield (k : Kernel) : Option Kernel :=
  match k.currentThread with
  | none => none
  | some t =>
    let ready := ListHead.ready (k.thread t).currentPriority
    if (k.thread t).stat = .ready ∧ k.neighboursDiffer t ready then
      ((k.rtListRemove t).rtListInsertBefore ready t).rtSchedule
    else some k

/-- rt_thread_sleep up to and including its rt_schedule. -/
def rtThreadSleep (k : Kernel) (tick : Nat) : Option Kernel :=
  match k.currentThread with
  | none => none
  | some t =>
    let k := (k.rtThreadSuspend t).1
    ((k.rtTimerSetTime t tick).rtTimerStart t).bind rtSchedule

/-- The rest of rt_thread_sleep, run once the thread is scheduled again. -/
def sleepReturn (k : Kernel) (t : Tid) : Kernel :=
  if (k.thread t).error = .etimeout then k.modify t (fun th => { th with error := .eok }) else k

inductive IpcFlag where
  | fifo | prio
  deriving DecidableEq

/-- The RT_IPC_FLAG_PRIO search: before the first thread of lower priority. -/
def insertByPriority (k : Kernel) (t : Tid) : List Tid → List Tid
  | [] => [t]
  | s :: rest =>
    if (k.thread t).currentPriority < (k.thread s).currentPriority then t :: s :: rest
    else s :: insertByPriority k t rest

def rtIpcListSuspend (k : Kernel) (h : ListHead) (t : Tid) (flag : IpcFlag) : Kernel :=
  let k := (k.rtThreadSuspend t).1
  match flag with
  | .fifo => k.rtListInsertBefore h t
  | .prio => { k with list := Function.update k.list h (k.insertByPriority t (k.list h)) }

def rtIpcListResume (k : Kernel) (h : ListHead) : Kernel :=
  match k.list h with
  | [] => k
  | t :: _ => (k.rtThreadResume t).1

/-- The loop of rt_ipc_list_resume_all. Each turn takes the first thread off the
list, so the length of the list at entry is enough fuel; running out of it is the
endless loop of a thread that cannot be resumed. -/
def resumeAllLoop (h : ListHead) : Nat → Kernel → Option Kernel
  | fuel, k =>
    match k.list h with
    | [] => some k
    | t :: _ =>
      match fuel with
      | 0 => none
      | fuel + 1 =>
        resumeAllLoop h fuel ((k.modify t (fun th => { th with error := .error })).rtThreadResume t).1

def rtIpcListResumeAll (k : Kernel) (h : ListHead) : Option Kernel :=
  resumeAllLoop h (k.list h).length k

/-- `if (time > 0)`: set and start the timer of the thread that has just been suspended. -/
def startWaitTimer (k : Kernel) (t : Tid) (time : Int) : Option Kernel :=
  if 0 < time then (k.rtTimerSetTime t time.toNat).rtTimerStart t else some k

/-- `if (tick != RT_WAITING_FOREVER)`, which is -1: the same. -/
def startTimer (k : Kernel) (t : Tid) (tick : Int) : Option Kernel :=
  if tick ≠ -1 then (k.rtTimerSetTime t tick.toNat).rtTimerStart t else some k

/-- What is left of a timeout when the waiter runs again, `tickDelta` being the tick it
read before the wait: an rt_int32_t less an rt_uint32_t, cut off at 0. -/
def remainingTime (timeout : Int) (tickDelta now : Nat) : Int :=
  if 0 < timeout then
    max 0 (Int.bmod (timeout - ((now + 2 ^ 32 - tickDelta) % 2 ^ 32 : Nat)) (2 ^ 32))
  else timeout

/-- A system in which the threads 0, ..., n - 1 have been started before the scheduler. -/
def startedThreads (priority : Tid → Nat) (n : Nat) : Kernel :=
  (List.range n).foldl (fun k t => (k.rtThreadStartup t).getD k)
    (rtSystemSchedulerInit (fun t => rtThreadInit (priority t) true))

/- What each primitive leaves alone, and the one thing it changes. -/

variable (k : Kernel) (t u : Tid) (h g : ListHead) (f : Thread → Thread)

@[simp] theorem modify_list : (k.modify t f).list = k.list := rfl
@[simp] theorem modify_group : (k.modify t f).readyPriorityGroup = k.readyPriorityGroup := rfl
@[simp] theorem modify_tick : (k.modify t f).tick = k.tick := rfl
@[simp] theorem modify_self : (k.modify t f).thread t = f (k.thread t) := by simp [modify]

theorem modify_apply : (k.modify t f).thread u = if u = t then f (k.thread t) else k.thread u := by
  simp [modify, Function.update_apply]

@[simp] theorem modify_other (other : u ≠ t) : (k.modify t f).thread u = k.thread u := by
  simp [modify, Function.update_of_ne other]

@[simp] theorem listRemove_thread : (k.rtListRemove t).thread = k.thread := rfl
@[simp] theorem listRemove_group :
    (k.rtListRemove t).readyPriorityGroup = k.readyPriorityGroup := rfl
@[simp] theorem listRemove_tick : (k.rtListRemove t).tick = k.tick := rfl
@[simp] theorem listRemove_list : (k.rtListRemove t).list h = (k.list h).filter (· ≠ t) := rfl

@[simp] theorem insertBefore_thread : (k.rtListInsertBefore h t).thread = k.thread := rfl
@[simp] theorem insertBefore_group :
    (k.rtListInsertBefore h t).readyPriorityGroup = k.readyPriorityGroup := rfl
@[simp] theorem insertBefore_tick : (k.rtListInsertBefore h t).tick = k.tick := rfl
@[simp] theorem insertBefore_self : (k.rtListInsertBefore h t).list h = k.list h ++ [t] := by
  simp [rtListInsertBefore]
@[simp] theorem insertBefore_other (other : g ≠ h) :
    (k.rtListInsertBefore h t).list g = k.list g := by
  simp [rtListInsertBefore, Function.update_of_ne other]

@[simp] theorem insertAfter_thread : (k.rtListInsertAfter h t).thread = k.thread := rfl
@[simp] theorem insertAfter_group :
    (k.rtListInsertAfter h t).readyPriorityGroup = k.readyPriorityGroup := rfl
@[simp] theorem insertAfter_other (other : g ≠ h) :
    (k.rtListInsertAfter h t).list g = k.list g := by
  simp [rtListInsertAfter, Function.update_of_ne other]

@[simp] theorem scheduleRemove_thread : (k.rtScheduleRemoveThread t).thread = k.thread := by
  simp only [rtScheduleRemoveThread]; split <;> rfl
@[simp] theorem scheduleRemove_tick : (k.rtScheduleRemoveThread t).tick = k.tick := by
  simp only [rtScheduleRemoveThread]; split <;> rfl
@[simp] theorem scheduleRemove_list :
    (k.rtScheduleRemoveThread t).list h = (k.list h).filter (· ≠ t) := by
  simp only [rtScheduleRemoveThread]; split <;> rfl

theorem scheduleRemove_group :
    (k.rtScheduleRemoveThread t).readyPriorityGroup =
      if (k.list (.ready (k.thread t).currentPriority)).filter (· ≠ t) = [] then
        k.readyPriorityGroup &&& ~~~ (k.thread t).numberMask
      else k.readyPriorityGroup := by
  exact apply_ite Kernel.readyPriorityGroup _ _ _

@[simp] theorem scheduleInsert_self :
    (k.rtScheduleInsertThread t).thread t = { k.thread t with stat := .ready } := by
  simp [rtScheduleInsertThread]
@[simp] theorem scheduleInsert_thread_other (other : u ≠ t) :
    (k.rtScheduleInsertThread t).thread u = k.thread u := by
  simp [rtScheduleInsertThread, other]
@[simp] theorem scheduleInsert_tick : (k.rtScheduleInsertThread t).tick = k.tick := by
  simp [rtScheduleInsertThread]
@[simp] theorem scheduleInsert_list_self :
    (k.rtScheduleInsertThread t).list (.ready (k.thread t).currentPriority) =
      k.list (.ready (k.thread t).currentPriority) ++ [t] := by
  simp [rtScheduleInsertThread]
@[simp] theorem scheduleInsert_list_other (other : g ≠ .ready (k.thread t).currentPriority) :
    (k.rtScheduleInsertThread t).list g = k.list g := by
  simp [rtScheduleInsertThread, other]
@[simp] theorem scheduleInsert_group :
    (k.rtScheduleInsertThread t).readyPriorityGroup =
      k.readyPriorityGroup ||| (k.thread t).numberMask := by
  simp [rtScheduleInsertThread]

theorem suspend_ready (ready : (k.thread t).stat = .ready) :
    (k.rtThreadSuspend t).1 =
      ((k.rtScheduleRemoveThread t).modify t (fun th => { th with stat := .suspend })).rtTimerStop t := by
  simp [rtThreadSuspend, ready]

theorem resume_suspended (suspended : (k.thread t).stat = .suspend) :
    (k.rtThreadResume t).1 = (k.resumeUnlink t).rtScheduleInsertThread t := by
  simp [rtThreadResume, suspended]

theorem timeoutWake_some {k' : Kernel} (woken : k.timeoutWake t = some k') :
    (k.thread t).stat = .suspend ∧
      k' = ((k.modify t (fun th => { th with error := .etimeout })).rtListRemove t).rtScheduleInsertThread t := by
  simp only [timeoutWake] at woken
  split at woken
  · rename_i suspended
    exact ⟨suspended, (Option.some.inj woken).symm⟩
  · contradiction

theorem rtTimerStart_some {k' : Kernel} (started : k.rtTimerStart t = some k') :
    k' = k.modify t (fun th => { th with timer := { th.timer with activated := true } }) := by
  simp only [rtTimerStart] at started
  split at started
  · exact (Option.some.inj started).symm
  · contradiction

theorem schedule_frame {k' : Kernel} (scheduled : k.rtSchedule = some k') :
    k'.thread = k.thread ∧ k'.list = k.list ∧ k'.readyPriorityGroup = k.readyPriorityGroup ∧
      k'.tick = k.tick := by
  simp only [rtSchedule] at scheduled
  split at scheduled
  · split at scheduled
    · contradiction
    · split at scheduled <;> cases Option.some.inj scheduled <;> exact ⟨rfl, rfl, rfl, rfl⟩
  · cases Option.some.inj scheduled
    exact ⟨rfl, rfl, rfl, rfl⟩

end Kernel

end RtThread
