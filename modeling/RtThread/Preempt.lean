import Mathlib.Data.List.Perm.Basic
import RtThread.Run
import RtThread.Wait

/-! rt_thread_suspend and rt_thread_resume under preemption (thread.c, scheduler.c,
ipc.c). A step is one interrupt-disabled section, or one test of `stat` made with
interrupts enabled. What runs is the innermost interrupt handler, or else the current
thread; between any two of its steps an interrupt may come and the current thread
may change. -/
namespace RtThread.Preempt
open Transition Kernel

/-- Where a thread or handler stands inside a call. After a `blocked` thread has called
rt_schedule it is `returning`, once it is current again. -/
inductive Pc where
  | idle
  | suspendTested (t : Tid)
  | resumeTested (t : Tid)
  | resumeUnlinked (t : Tid)
  | blocked
  | returning
  deriving DecidableEq

/-- `waitsOn` records on which object a thread blocks: until the object or its timeout
wakes it, or rt_thread_resume is called on it. The code has no such field. -/
structure State where
  kernel : Kernel
  interrupts : List Pc
  pc : Tid → Pc
  waitsOn : Tid → Option Nat

def State.running (s : State) : Pc :=
  match s.interrupts with
  | p :: _ => p
  | [] => (s.kernel.currentThread.map s.pc).getD .idle

def State.goto (s : State) (p : Pc) : State :=
  match s.interrupts with
  | _ :: rest => { s with interrupts := p :: rest }
  | [] =>
    match s.kernel.currentThread with
    | some u => { s with pc := Function.update s.pc u p }
    | none => s

def State.stat (s : State) (t : Tid) : Stat := (s.kernel.thread t).stat

/-- The interrupt-disabled section of rt_thread_suspend. -/
def suspendSection (k : Kernel) (t : Tid) : Kernel :=
  ((k.rtScheduleRemoveThread t).modify t (fun th => { th with stat := .suspend })).rtTimerStop t

inductive Action where
  | interrupt
  | leave
  | suspend (t : Tid)
  | resume (t : Tid)
  | proceed
  | block (object : Nat) (flag : IpcFlag) (time : Int)
  | wake (object : Nat) (error : Bool)
  | expire (t : Tid)
  | yield
  | schedule

def proceed (s : State) : Option State :=
  match s.running with
  | .idle => none
  | .suspendTested t => some { s.goto .idle with kernel := suspendSection s.kernel t }
  | .resumeTested t => some { s.goto (.resumeUnlinked t) with kernel := s.kernel.resumeUnlink t }
  | .resumeUnlinked t => some { s.goto .idle with kernel := s.kernel.rtScheduleInsertThread t }
  | .blocked => s.kernel.rtSchedule.map (fun k => { s.goto .returning with kernel := k })
  | .returning => some (s.goto .idle)

/-- The section of a blocking IPC call of the current thread that puts it on the wait list. -/
def block (s : State) (o : Nat) (flag : IpcFlag) (time : Int) : Option State :=
  match s.kernel.currentThread with
  | none => none
  | some u =>
    let k := s.kernel.modify u (fun th => { th with error := .eok })
    ((k.rtIpcListSuspend (.wait o) u flag).startWaitTimer u time).map (fun k =>
      { s.goto .blocked with kernel := k, waitsOn := Function.update s.waitsOn u (some o) })

/-- rt_ipc_list_resume, or with `error` a turn of the loop of rt_ipc_list_resume_all. -/
def wake (s : State) (o : Nat) (error : Bool) : State :=
  match s.kernel.list (.wait o) with
  | [] => s
  | t :: _ =>
    let k := if error then s.kernel.modify t (fun th => { th with error := .error }) else s.kernel
    { s with kernel := k.rtIpcListResume (.wait o), waitsOn := Function.update s.waitsOn t none }

/-- rt_thread_yield up to its rt_schedule. -/
def yieldSection (k : Kernel) : Kernel :=
  match k.currentThread with
  | none => k
  | some u =>
    let ready := ListHead.ready (k.thread u).currentPriority
    if (k.thread u).stat = .ready ∧ k.neighboursDiffer u ready then
      (k.rtListRemove u).rtListInsertBefore ready u
    else k

/-- A step of the system with `n` IPC objects. Threads block only outside of handlers,
and timers expire inside of one. -/
def step (n : Nat) (s : State) : Action → Option State
  | .interrupt => some { s with interrupts := .idle :: s.interrupts }
  | .leave =>
    match s.interrupts with
    | .idle :: rest => some { s with interrupts := rest }
    | _ => none
  | .suspend t =>
    if s.running = .idle then
      if s.stat t ≠ .ready then some s else some (s.goto (.suspendTested t))
    else none
  | .resume t =>
    if s.running = .idle then
      let s := { s with waitsOn := Function.update s.waitsOn t none }
      if s.stat t ≠ .suspend then some s else some (s.goto (.resumeTested t))
    else none
  | .proceed => proceed s
  | .block o flag time =>
    if s.interrupts = [] ∧ s.running = .idle ∧ o < n then block s o flag time else none
  | .wake o error => if s.running = .idle then some (wake s o error) else none
  | .expire t =>
    match s.interrupts with
    | .idle :: _ => ((s.kernel.timerExpire t).bind rtSchedule).map (fun k =>
        { s with kernel := k, waitsOn := Function.update s.waitsOn t none })
    | _ => none
  | .yield => if s.running = .idle then some { s with kernel := yieldSection s.kernel } else none
  | .schedule =>
    if s.running = .idle then s.kernel.rtSchedule.map (fun k => { s with kernel := k }) else none

/-- The started threads are ready, one of them runs, and nothing waits. -/
structure Start (s : State) : Prop where
  once : ∀ p, (s.kernel.list (.ready p)).Nodup
  ready : ∀ p t, t ∈ s.kernel.list (.ready p) → s.stat t = .ready ∧ (s.kernel.thread t).currentPriority = p
  wait : ∀ o, s.kernel.list (.wait o) = []
  defunct : s.kernel.list .defunct = []
  small : ∀ t, (s.kernel.thread t).currentPriority < rtThreadPriorityMax
  current : ∀ u, s.kernel.currentThread = some u → s.stat u = .ready
  unlocked : s.kernel.schedulerLockNest = 0
  outside : s.interrupts = [] ∧ ∀ t, s.pc t = .idle
  free : ∀ t, s.waitsOn t = none

def machine (n : Nat) : Machine State Action Unit where
  start := Start
  step s a := (step n s a).map (fun s => (s, []))

/-- Every thread is linked once at most, and a blocked one on the list of its object. -/
structure Membership (s : State) : Prop where
  once : ∀ h, (s.kernel.list h).Nodup
  one : ∀ t h g, t ∈ s.kernel.list h → t ∈ s.kernel.list g → h = g
  waits : ∀ t o, s.waitsOn t = some o → t ∈ s.kernel.list (.wait o)

def linked (n : Nat) (k : Kernel) (t : Tid) : Bool :=
  (List.range rtThreadPriorityMax).any (fun p => t ∈ k.list (.ready p)) ||
    (List.range n).any (fun o => t ∈ k.list (.wait o))

/-- The thread has not moved since it was tested, as far as that matters: when
rt_thread_suspend or rt_thread_resume unlinks it, it does not block on an object, and
when rt_thread_resume inserts it, it is on no list. -/
def undisturbed (n : Nat) (s : State) : Action → Bool
  | .proceed =>
    match s.running with
    | .suspendTested t | .resumeTested t => (s.waitsOn t).isNone
    | .resumeUnlinked t => !linked n s.kernel t
    | _ => true
  | _ => true

structure Inv (n : Nat) (s : State) : Prop extends Membership s where
  ready : ∀ t p, t ∈ s.kernel.list (.ready p) → s.stat t = .ready ∧ (s.kernel.thread t).currentPriority = p
  waiting : ∀ t o, t ∈ s.kernel.list (.wait o) → s.stat t = .suspend ∧ o < n ∧
    (s.pc t = .blocked ∨ (s.pc t = .returning ∧ s.kernel.currentThread ≠ some t))
  defunct : s.kernel.list .defunct = []
  small : ∀ t, (s.kernel.thread t).currentPriority < rtThreadPriorityMax
  live : ∀ u, s.kernel.currentThread = some u → s.stat u = .ready ∨ s.stat u = .suspend
  unlocked : s.kernel.schedulerLockNest = 0

variable {n : Nat} {s s' : State} {k k' : Kernel} {t u : Tid} {h : ListHead} {p : Pc}

@[simp] theorem goto_kernel : (s.goto p).kernel = s.kernel := by
  unfold State.goto
  split
  · rfl
  · split <;> rfl

@[simp] theorem goto_waitsOn : (s.goto p).waitsOn = s.waitsOn := by
  unfold State.goto
  split
  · rfl
  · split <;> rfl

theorem goto_pc (t : Tid) : (s.goto p).pc t = s.pc t ∨
    ((s.goto p).pc t = p ∧ s.interrupts = [] ∧ s.kernel.currentThread = some t) := by
  unfold State.goto
  split
  · exact Or.inl rfl
  · rename_i none
    split
    · rename_i u current
      by_cases self : t = u
      · subst self
        exact Or.inr ⟨Function.update_self .., none, current⟩
      · exact Or.inl (Function.update_of_ne self ..)
    · exact Or.inl rfl

theorem running_pc (none : s.interrupts = []) (current : s.kernel.currentThread = some t) :
    s.running = s.pc t := by
  simp [State.running, none, current]

/-- `t` leaves every list. -/
structure Unlinks (k k' : Kernel) (t : Tid) : Prop where
  list : ∀ h, k'.list h = (k.list h).filter (· ≠ t)
  others : ∀ u, u ≠ t → k'.thread u = k.thread u
  priority : (k'.thread t).currentPriority = (k.thread t).currentPriority
  current : k'.currentThread = k.currentThread
  lock : k'.schedulerLockNest = k.schedulerLockNest

/-- `t` is linked under `h`. -/
structure Links (k k' : Kernel) (t : Tid) (h : ListHead) : Prop where
  self : (k'.list h).Perm (t :: k.list h)
  rest : ∀ g, g ≠ h → k'.list g = k.list g
  others : ∀ u, u ≠ t → k'.thread u = k.thread u
  priority : (k'.thread t).currentPriority = (k.thread t).currentPriority
  current : k'.currentThread = k.currentThread
  lock : k'.schedulerLockNest = k.schedulerLockNest

/-- rt_schedule makes a thread of the ready queue current. -/
theorem schedule_current (unlocked : k.schedulerLockNest = 0) (scheduled : k.rtSchedule = some k') :
    k'.schedulerLockNest = k.schedulerLockNest ∧
      ∃ u p, k'.currentThread = some u ∧ u ∈ k.list (.ready p) := by
  unfold rtSchedule at scheduled
  rw [if_pos unlocked] at scheduled
  split at scheduled
  · cases scheduled
  · rename_i p best found
    have queued : best ∈ k.list (.ready p) := by
      unfold highestReady at found
      split at found
      · cases found
      · obtain ⟨t, head, pair⟩ := Option.map_eq_some_iff.mp found
        cases pair
        exact List.mem_of_head? head
    split at scheduled
    · cases Option.some.inj scheduled
      exact ⟨rfl, best, p, rfl, queued⟩
    · rename_i same
      cases Option.some.inj scheduled
      exact ⟨rfl, best, p, (not_not.mp same).symm, queued⟩

theorem suspendSection_unlinks (k : Kernel) (t : Tid) :
    Unlinks k (suspendSection k t) t ∧ ((suspendSection k t).thread t).stat = .suspend := by
  have same : (k.rtScheduleRemoveThread t).currentThread = k.currentThread ∧
      (k.rtScheduleRemoveThread t).schedulerLockNest = k.schedulerLockNest := by
    simp only [rtScheduleRemoveThread]
    split <;> exact ⟨rfl, rfl⟩
  refine ⟨⟨?_, ?_, ?_, same.1, same.2⟩, ?_⟩
  · intro h
    simp [suspendSection, rtTimerStop]
  · intro u other
    simp [suspendSection, rtTimerStop, other]
  · simp [suspendSection, rtTimerStop]
  · simp [suspendSection, rtTimerStop]

theorem resumeUnlink_unlinks (k : Kernel) (t : Tid) :
    Unlinks k (k.resumeUnlink t) t ∧ ((k.resumeUnlink t).thread t).stat = (k.thread t).stat := by
  refine ⟨⟨?_, ?_, ?_, rfl, rfl⟩, ?_⟩
  · intro h
    simp [resumeUnlink, rtTimerStop]
  · intro u other
    simp [resumeUnlink, rtTimerStop, other]
  · simp [resumeUnlink, rtTimerStop]
  · simp [resumeUnlink, rtTimerStop]

theorem listRemove_unlinks (k : Kernel) (t : Tid) : Unlinks k (k.rtListRemove t) t :=
  ⟨fun _ => rfl, fun _ _ => rfl, rfl, rfl, rfl⟩

theorem insertBefore_links (k : Kernel) (t : Tid) (h : ListHead) : Links k (k.rtListInsertBefore h t) t h := by
  refine ⟨?_, ?_, fun _ _ => rfl, rfl, rfl, rfl⟩
  · rw [insertBefore_self]
    exact List.perm_append_singleton t (k.list h)
  · intro g other
    exact insertBefore_other k t h g other

theorem scheduleInsert_links (k : Kernel) (t : Tid) :
    Links k (k.rtScheduleInsertThread t) t (.ready (k.thread t).currentPriority) ∧
      ((k.rtScheduleInsertThread t).thread t).stat = .ready := by
  refine ⟨⟨?_, ?_, ?_, ?_, rfl, rfl⟩, by simp⟩
  · rw [scheduleInsert_list_self]
    exact List.perm_append_singleton t _
  · intro g other
    exact scheduleInsert_list_other k t g other
  · intro u other
    exact scheduleInsert_thread_other k t u other
  · simp

theorem insertByPriority_perm (k : Kernel) (t : Tid) (l : List Tid) : (k.insertByPriority t l).Perm (t :: l) := by
  induction l with
  | nil => exact List.Perm.refl _
  | cons a rest ih =>
    unfold insertByPriority
    split
    · exact List.Perm.refl _
    · exact (ih.cons a).trans (List.Perm.swap t a rest)

theorem ipcSuspend_links (k : Kernel) (t : Tid) (o : Nat) (flag : IpcFlag) :
    Links (k.rtThreadSuspend t).1 (k.rtIpcListSuspend (.wait o) t flag) t (.wait o) ∧
      ((k.rtIpcListSuspend (.wait o) t flag).thread t).stat = ((k.rtThreadSuspend t).1.thread t).stat := by
  cases flag with
  | fifo => exact ⟨insertBefore_links _ t (.wait o), rfl⟩
  | prio =>
    refine ⟨⟨?_, ?_, fun _ _ => rfl, rfl, rfl, rfl⟩, rfl⟩
    · simp only [rtIpcListSuspend, Function.update_self]
      exact insertByPriority_perm _ t _
    · intro g other
      simp only [rtIpcListSuspend, Function.update_of_ne other]

namespace Inv

theorem goto (inv : Inv n s) (free : s.running ≠ .blocked) (p : Pc) : Inv n (s.goto p) := by
  refine ⟨⟨?_, ?_, ?_⟩, ?_, ?_, ?_, ?_, ?_, ?_⟩
  · simpa using inv.once
  · simpa using inv.one
  · simpa using inv.waits
  · simpa [State.stat] using inv.ready
  · intro t o inside
    rw [goto_kernel] at inside ⊢
    obtain ⟨suspended, known, place⟩ := inv.waiting t o inside
    refine ⟨by simpa [State.stat] using suspended, known, ?_⟩
    rcases goto_pc (s := s) (p := p) t with same | ⟨_, none, current⟩
    · rw [same]
      exact place
    · rcases place with blocked | ⟨_, elsewhere⟩
      · exact absurd ((running_pc none current).trans blocked) free
      · exact absurd current elsewhere
  · simpa using inv.defunct
  · simpa using inv.small
  · simpa [State.stat] using inv.live
  · simpa using inv.unlocked

theorem current_unlinked (inv : Inv n s) (current : s.kernel.currentThread = some t)
    (outside : s.pc t ≠ .blocked) (o : Nat) : t ∉ s.kernel.list (.wait o) := by
  intro inside
  rcases (inv.waiting t o inside).2.2 with blocked | ⟨_, elsewhere⟩
  · exact outside blocked
  · exact elsewhere current

theorem frame (inv : Inv n s) (list : k.list = s.kernel.list)
    (same : ∀ u, (k.thread u).stat = s.stat u ∧
      (k.thread u).currentPriority = (s.kernel.thread u).currentPriority)
    (current : k.currentThread = s.kernel.currentThread)
    (lock : k.schedulerLockNest = s.kernel.schedulerLockNest) : Inv n { s with kernel := k } := by
  refine ⟨⟨?_, ?_, ?_⟩, ?_, ?_, ?_, ?_, ?_, ?_⟩
  · simpa only [list] using inv.once
  · simpa only [list] using inv.one
  · simpa only [list] using inv.waits
  · simpa only [State.stat, list, same] using inv.ready
  · simpa only [State.stat, list, same, current] using inv.waiting
  · simpa only [list] using inv.defunct
  · simpa only [same] using inv.small
  · simpa only [State.stat, current, same] using inv.live
  · simpa only [lock] using inv.unlocked

theorem modify {f : Thread → Thread} (inv : Inv n s)
    (keeps : ∀ th, (f th).stat = th.stat ∧ (f th).currentPriority = th.currentPriority) :
    Inv n { s with kernel := s.kernel.modify t f } := by
  refine inv.frame rfl ?_ rfl rfl
  intro u
  by_cases self : u = t
  · subst self
    simpa [State.stat] using keeps _
  · simp [State.stat, self]

theorem unlink (inv : Inv n s) (unlinks : Unlinks s.kernel k t)
    (stat : (k.thread t).stat = s.stat t ∨ (k.thread t).stat = .suspend) :
    Inv n { s with kernel := k, waitsOn := Function.update s.waitsOn t none } ∧ ∀ h, t ∉ k.list h := by
  have kept : ∀ u h, u ∈ k.list h → u ∈ s.kernel.list h ∧ u ≠ t := by
    intro u h inside
    rw [unlinks.list h, List.mem_filter, decide_eq_true_eq] at inside
    exact inside
  refine ⟨⟨⟨?_, ?_, ?_⟩, ?_, ?_, ?_, ?_, ?_, ?_⟩, fun h inside => (kept t h inside).2 rfl⟩
  · intro h
    change (k.list h).Nodup
    rw [unlinks.list h]
    exact (inv.once h).filter _
  · intro u h g first second
    exact inv.one u h g (kept u h first).1 (kept u g second).1
  · intro u o blocked
    change Function.update s.waitsOn t none u = some o at blocked
    by_cases self : u = t
    · subst self
      simp at blocked
    · rw [Function.update_of_ne self] at blocked
      change u ∈ k.list (.wait o)
      rw [unlinks.list, List.mem_filter]
      exact ⟨inv.waits u o blocked, by simpa using self⟩
  · intro u p inside
    obtain ⟨old, other⟩ := kept u _ inside
    simpa only [State.stat, unlinks.others u other] using inv.ready u p old
  · intro u o inside
    obtain ⟨old, other⟩ := kept u _ inside
    simpa only [State.stat, unlinks.others u other, unlinks.current] using inv.waiting u o old
  · change k.list .defunct = []
    rw [unlinks.list, inv.defunct]
    rfl
  · intro u
    by_cases self : u = t
    · subst self
      simpa only [unlinks.priority] using inv.small u
    · simpa only [unlinks.others u self] using inv.small u
  · intro u current
    have before := inv.live u (unlinks.current ▸ current)
    by_cases self : u = t
    · subst self
      rcases stat with same | suspended
      · simpa only [State.stat, same] using before
      · exact Or.inr suspended
    · simpa only [State.stat, unlinks.others u self] using before
  · simpa only [unlinks.lock] using inv.unlocked

theorem link (inv : Inv n s) (absent : ∀ h, t ∉ s.kernel.list h) (links : Links s.kernel k t h)
    (place : (h = .ready (s.kernel.thread t).currentPriority ∧ (k.thread t).stat = .ready) ∨
      ∃ o, h = .wait o ∧ o < n ∧ (k.thread t).stat = .suspend ∧ s.pc t = .blocked) :
    Inv n { s with kernel := k } := by
  have places : ∀ u g, u ∈ k.list g → (u = t ∧ g = h) ∨ (u ≠ t ∧ u ∈ s.kernel.list g) := by
    intro u g inside
    by_cases here : g = h
    · subst here
      rcases List.mem_cons.mp (links.self.mem_iff.mp inside) with rfl | old
      · exact Or.inl ⟨rfl, rfl⟩
      · exact Or.inr ⟨fun self => absent g (self ▸ old), old⟩
    · rw [links.rest g here] at inside
      exact Or.inr ⟨fun self => absent g (self ▸ inside), inside⟩
  have grown : ∀ u g, u ∈ s.kernel.list g → u ∈ k.list g := by
    intro u g inside
    by_cases here : g = h
    · subst here
      exact links.self.mem_iff.mpr (List.mem_cons_of_mem t inside)
    · rwa [links.rest g here]
  refine ⟨⟨?_, ?_, ?_⟩, ?_, ?_, ?_, ?_, ?_, ?_⟩
  · intro g
    change (k.list g).Nodup
    by_cases here : g = h
    · subst here
      exact links.self.nodup_iff.mpr (List.nodup_cons.mpr ⟨absent g, inv.once g⟩)
    · rw [links.rest g here]
      exact inv.once g
  · intro u g g' first second
    rcases places u g first with ⟨rfl, rfl⟩ | ⟨other, old⟩
    · rcases places u g' second with ⟨_, rfl⟩ | ⟨other, _⟩
      · rfl
      · exact absurd rfl other
    · rcases places u g' second with ⟨self, _⟩ | ⟨_, old'⟩
      · exact absurd self other
      · exact inv.one u g g' old old'
  · intro u o blocked
    exact grown u _ (inv.waits u o blocked)
  · intro u p inside
    rcases places u _ inside with ⟨rfl, here⟩ | ⟨other, old⟩
    · rcases place with ⟨queue, stat⟩ | ⟨o, queue, _⟩
      · rw [← here] at queue
        cases queue
        exact ⟨stat, links.priority⟩
      · rw [← here] at queue
        cases queue
    · simpa only [State.stat, links.others u other] using inv.ready u p old
  · intro u o inside
    rcases places u _ inside with ⟨rfl, here⟩ | ⟨other, old⟩
    · rcases place with ⟨queue, _⟩ | ⟨o', queue, known, stat, blocked⟩
      · rw [← here] at queue
        cases queue
      · rw [← here] at queue
        cases queue
        exact ⟨stat, known, Or.inl blocked⟩
    · simpa only [State.stat, links.others u other, links.current] using inv.waiting u o old
  · have away : ListHead.defunct ≠ h := by
      rcases place with ⟨rfl, _⟩ | ⟨o, rfl, _⟩ <;> exact ListHead.noConfusion
    change k.list .defunct = []
    rw [links.rest _ away]
    exact inv.defunct
  · intro u
    by_cases self : u = t
    · subst self
      simpa only [links.priority] using inv.small u
    · simpa only [links.others u self] using inv.small u
  · intro u current
    by_cases self : u = t
    · subst self
      rcases place with ⟨_, stat⟩ | ⟨_, _, _, stat, _⟩
      · exact Or.inl stat
      · exact Or.inr stat
    · simpa only [State.stat, links.others u self] using inv.live u (links.current ▸ current)
  · simpa only [links.lock] using inv.unlocked

theorem unlink_free (inv : Inv n s) (free : s.waitsOn t = none) (unlinks : Unlinks s.kernel k t)
    (stat : (k.thread t).stat = s.stat t ∨ (k.thread t).stat = .suspend) :
    Inv n { s with kernel := k } ∧ ∀ h, t ∉ k.list h := by
  have same : Function.update s.waitsOn t none = s.waitsOn := by rw [← free, Function.update_eq_self]
  have result := inv.unlink unlinks stat
  rwa [same] at result

theorem waitFor {o : Nat} (inv : Inv n s) (inside : t ∈ s.kernel.list (.wait o)) :
    Inv n { s with waitsOn := Function.update s.waitsOn t (some o) } := by
  refine ⟨⟨inv.once, inv.one, ?_⟩, inv.ready, inv.waiting, inv.defunct, inv.small, inv.live, inv.unlocked⟩
  intro u o' blocked
  change Function.update s.waitsOn t (some o) u = some o' at blocked
  by_cases self : u = t
  · subst self
    rw [Function.update_self] at blocked
    cases blocked
    exact inside
  · rw [Function.update_of_ne self] at blocked
    exact inv.waits u o' blocked

theorem forget (inv : Inv n s) (t : Tid) : Inv n { s with waitsOn := Function.update s.waitsOn t none } := by
  refine ⟨⟨inv.once, inv.one, ?_⟩, inv.ready, inv.waiting, inv.defunct, inv.small, inv.live, inv.unlocked⟩
  intro u o blocked
  change Function.update s.waitsOn t none u = some o at blocked
  by_cases self : u = t
  · subst self
    simp at blocked
  · rw [Function.update_of_ne self] at blocked
    exact inv.waits u o blocked

/-- The scheduler picks a ready thread, so that it never picks one that waits. -/
theorem schedule (inv : Inv n s) (scheduled : s.kernel.rtSchedule = some k)
    (pcs : ∀ t, s'.pc t = s.pc t ∨ s'.pc t = .returning) (kernel : s'.kernel = k)
    (waitsOn : s'.waitsOn = s.waitsOn) : Inv n s' := by
  obtain ⟨thread, list, _⟩ := schedule_frame _ scheduled
  obtain ⟨lock, u, p, current, queued⟩ := schedule_current inv.unlocked scheduled
  refine ⟨⟨?_, ?_, ?_⟩, ?_, ?_, ?_, ?_, ?_, ?_⟩
  · simpa only [kernel, list] using inv.once
  · simpa only [kernel, list] using inv.one
  · simpa only [kernel, list, waitsOn] using inv.waits
  · simpa only [State.stat, kernel, list, thread] using inv.ready
  · intro t o inside
    rw [kernel, list] at inside
    obtain ⟨suspended, known, place⟩ := inv.waiting t o inside
    refine ⟨by simpa only [State.stat, kernel, thread] using suspended, known, ?_⟩
    have elsewhere : s'.kernel.currentThread ≠ some t := by
      rw [kernel, current]
      intro self
      cases self
      cases inv.one _ _ _ queued inside
    rcases pcs t with same | returning
    · rw [same]
      rcases place with blocked | ⟨returning, _⟩
      · exact Or.inl blocked
      · exact Or.inr ⟨returning, elsewhere⟩
    · exact Or.inr ⟨returning, elsewhere⟩
  · simpa only [kernel, list] using inv.defunct
  · simpa only [kernel, thread] using inv.small
  · intro v selected
    rw [kernel, current] at selected
    cases selected
    left
    simpa only [State.stat, kernel, thread] using (inv.ready u p queued).1
  · rw [kernel, lock]
    exact inv.unlocked

theorem requeue (inv : Inv n s) (unlinks : Unlinks s.kernel k t) (stat : (k.thread t).stat = s.stat t) :
    Inv n { s with kernel := k.rtScheduleInsertThread t, waitsOn := Function.update s.waitsOn t none } := by
  obtain ⟨gone, absent⟩ := inv.unlink unlinks (Or.inl stat)
  obtain ⟨links, ready⟩ := scheduleInsert_links k t
  exact gone.link absent links (Or.inl ⟨rfl, ready⟩)

theorem wake (inv : Inv n s) (o : Nat) (error : Bool) : Inv n (wake s o error) := by
  unfold Preempt.wake
  split
  · exact inv
  · rename_i t rest waiting
    obtain ⟨k, isK⟩ : ∃ k, k =
      if error then s.kernel.modify t (fun th => { th with error := .error }) else s.kernel := ⟨_, rfl⟩
    have framed : Inv n { s with kernel := k } := by
      rw [isK]
      cases error with
      | false => exact inv
      | true => exact inv.modify (f := fun th => { th with error := .error }) (fun _ => ⟨rfl, rfl⟩)
    have list : k.list (.wait o) = t :: rest := by
      rw [isK, ← waiting]
      split <;> rfl
    have suspended : (k.thread t).stat = .suspend := (framed.waiting t o (by simp [list])).1
    have resumed : k.rtIpcListResume (.wait o) = (k.resumeUnlink t).rtScheduleInsertThread t := by
      rw [rtIpcListResume, list]
      exact resume_suspended k t suspended
    obtain ⟨unlinks, stat⟩ := resumeUnlink_unlinks k t
    have result := framed.requeue unlinks stat
    rw [← isK]
    simp only [resumed]
    exact result

theorem expire (inv : Inv n s) (expired : (s.kernel.timerExpire t).bind rtSchedule = some k) :
    Inv n { s with kernel := k, waitsOn := Function.update s.waitsOn t none } := by
  obtain ⟨m, woken, scheduled⟩ := Option.bind_eq_some_iff.mp expired
  unfold timerExpire at woken
  split at woken
  · obtain ⟨_, isM⟩ := timeoutWake_some _ _ woken
    obtain ⟨q, isQ⟩ : ∃ q, q = (s.kernel.rtTimerStop t).modify t (fun th => { th with error := .etimeout }) :=
      ⟨_, rfl⟩
    have framed : Inv n { s with kernel := q } := by
      have stopped := inv.modify (t := t) (f := fun th => { th with timer := { th.timer with activated := false } })
        (fun _ => ⟨rfl, rfl⟩)
      rw [isQ]
      exact stopped.modify (f := fun th => { th with error := .etimeout }) (fun _ => ⟨rfl, rfl⟩)
    have queued := framed.requeue (listRemove_unlinks q t) rfl
    rw [isQ, ← isM] at queued
    exact queued.schedule scheduled (fun _ => Or.inl rfl) rfl rfl
  · cases woken

theorem yield (inv : Inv n s) : Inv n { s with kernel := yieldSection s.kernel } := by
  unfold yieldSection
  split
  · exact inv
  · rename_i u current
    simp only
    split
    · rename_i ready
      have free : s.waitsOn u = none := by
        cases held : s.waitsOn u with
        | none => rfl
        | some o =>
          have suspended := (inv.waiting u o (inv.waits u o held)).1
          rw [State.stat, ready.1] at suspended
          cases suspended
      obtain ⟨gone, absent⟩ := inv.unlink_free free (listRemove_unlinks s.kernel u) (Or.inl rfl)
      exact gone.link absent (insertBefore_links _ u _) (Or.inl ⟨rfl, ready.1⟩)
    · exact inv

/-- rt_thread_suspend in a blocking call. A thread that a handler has suspended already runs
on until the next rt_schedule, and is on no list. -/
theorem suspendSelf (inv : Inv n s) (live : s.stat u = .ready ∨ s.stat u = .suspend)
    (off : ∀ o, u ∉ s.kernel.list (.wait o)) :
    Inv n { s with kernel := (s.kernel.rtThreadSuspend u).1, waitsOn := Function.update s.waitsOn u none } ∧
      (∀ h, u ∉ (s.kernel.rtThreadSuspend u).1.list h) ∧
      ((s.kernel.rtThreadSuspend u).1.thread u).stat = .suspend := by
  rcases live with ready | already
  · obtain ⟨unlinks, stat⟩ := suspendSection_unlinks s.kernel u
    have same : (s.kernel.rtThreadSuspend u).1 = suspendSection s.kernel u := suspend_ready _ u ready
    rw [same]
    obtain ⟨gone, absent⟩ := inv.unlink unlinks (Or.inr stat)
    exact ⟨gone, absent, stat⟩
  · have same : (s.kernel.rtThreadSuspend u).1 = s.kernel := by
      have stat : (s.kernel.thread u).stat = .suspend := already
      simp [rtThreadSuspend, stat]
    rw [same]
    refine ⟨inv.forget u, ?_, already⟩
    intro h inside
    cases h with
    | ready p =>
      have ready := (inv.ready u p inside).1
      rw [already] at ready
      cases ready
    | wait o => exact off o inside
    | defunct => simp [inv.defunct] at inside

theorem block {o : Nat} {flag : IpcFlag} {time : Int} (inv : Inv n s) (outside : s.interrupts = [])
    (idle : s.running = .idle) (known : o < n) (taken : block s o flag time = some s') : Inv n s' := by
  unfold Preempt.block at taken
  split at taken
  · cases taken
  rename_i u current
  obtain ⟨q, isQ⟩ : ∃ q, q = s.kernel.modify u (fun th => { th with error := .eok }) := ⟨_, rfl⟩
  simp only [← isQ] at taken
  obtain ⟨k, timed, rfl⟩ := Option.map_eq_some_iff.mp taken
  have pc : s.pc u = .idle := (running_pc outside current).symm.trans idle
  have blocked : (s.goto .blocked).pc u = .blocked := by simp [State.goto, outside, current]
  have off := inv.current_unlinked current (by simp [pc])
  have framed : Inv n { s.goto .blocked with kernel := q } := by
    have moved := (inv.goto (by simp [idle]) .blocked).modify (t := u)
      (f := fun th => { th with error := .eok }) (fun _ => ⟨rfl, rfl⟩)
    rwa [goto_kernel, ← isQ] at moved
  obtain ⟨gone, absent, stat⟩ := framed.suspendSelf (u := u) (framed.live u (by rw [isQ]; exact current))
    (by rw [isQ]; exact off)
  obtain ⟨links, same⟩ := ipcSuspend_links q u o flag
  have waiting := gone.link absent links (Or.inr ⟨o, rfl, known, same.trans stat, blocked⟩)
  obtain ⟨timer, rfl⟩ := startWaitTimer_some timed
  have started := waiting.modify (t := u) (f := fun th => { th with timer := timer }) (fun _ => ⟨rfl, rfl⟩)
  have inside : u ∈ (q.rtIpcListSuspend (.wait o) u flag).list (.wait o) :=
    links.self.mem_iff.mpr List.mem_cons_self
  have result := started.waitFor (t := u) (o := o) inside
  rw [Function.update_idem, goto_waitsOn] at result
  exact result

theorem setInterrupts (inv : Inv n s) (interrupts : List Pc) : Inv n { s with interrupts := interrupts } :=
  ⟨⟨inv.once, inv.one, inv.waits⟩, inv.ready, inv.waiting, inv.defunct, inv.small, inv.live, inv.unlocked⟩

theorem linked_iff (inv : Inv n s) : linked n s.kernel t = true ↔ ∃ h, t ∈ s.kernel.list h := by
  simp only [linked, Bool.or_eq_true, List.any_eq_true, List.mem_range, decide_eq_true_eq]
  constructor
  · rintro (⟨p, _, inside⟩ | ⟨o, _, inside⟩)
    · exact ⟨_, inside⟩
    · exact ⟨_, inside⟩
  · rintro ⟨h, inside⟩
    cases h with
    | ready p =>
      have small := inv.small t
      rw [(inv.ready t p inside).2] at small
      exact Or.inl ⟨p, small, inside⟩
    | wait o => exact Or.inr ⟨o, (inv.waiting t o inside).2.1, inside⟩
    | defunct => simp [inv.defunct] at inside

theorem proceed (inv : Inv n s) (quiet : undisturbed n s .proceed = true) (taken : proceed s = some s') :
    Inv n s' := by
  unfold Preempt.proceed at taken
  unfold undisturbed at quiet
  cases running : s.running with
  | idle => simp [running] at taken
  | suspendTested t =>
    simp only [running, Option.isNone_iff_eq_none, Option.some.injEq] at quiet taken
    obtain ⟨unlinks, stat⟩ := suspendSection_unlinks s.kernel t
    have moved := inv.goto (by simp [running]) .idle
    rw [← taken]
    exact (moved.unlink_free (by simpa using quiet) (by simpa using unlinks) (Or.inr stat)).1
  | resumeTested t =>
    simp only [running, Option.isNone_iff_eq_none, Option.some.injEq] at quiet taken
    obtain ⟨unlinks, stat⟩ := resumeUnlink_unlinks s.kernel t
    have moved := inv.goto (by simp [running]) (.resumeUnlinked t)
    rw [← taken]
    refine (moved.unlink_free (by simpa using quiet) (by simpa using unlinks) (Or.inl ?_)).1
    simpa [State.stat] using stat
  | resumeUnlinked t =>
    simp only [running, Bool.not_eq_true', Option.some.injEq] at quiet taken
    have absent : ∀ h, t ∉ s.kernel.list h := by
      intro h inside
      rw [inv.linked_iff.mpr ⟨h, inside⟩] at quiet
      cases quiet
    obtain ⟨links, ready⟩ := scheduleInsert_links s.kernel t
    have moved := inv.goto (by simp [running]) .idle
    rw [← taken]
    exact moved.link (by simpa using absent) (by simpa using links) (Or.inl ⟨by simp, ready⟩)
  | blocked =>
    simp only [running] at taken
    obtain ⟨k, scheduled, rfl⟩ := Option.map_eq_some_iff.mp taken
    refine inv.schedule scheduled ?_ rfl goto_waitsOn
    intro t
    rcases goto_pc (s := s) (p := .returning) t with same | ⟨returning, _⟩
    · exact Or.inl same
    · exact Or.inr returning
  | returning =>
    simp only [running, Option.some.injEq] at taken
    rw [← taken]
    exact inv.goto (by simp [running]) .idle

end Inv

/-- Every step keeps the invariant, unless a thread has moved since it was tested. -/
theorem step_inv {a : Action} (inv : Inv n s) (quiet : undisturbed n s a = true)
    (taken : step n s a = some s') : Inv n s' := by
  cases a with
  | interrupt =>
    cases Option.some.inj taken
    exact inv.setInterrupts _
  | leave =>
    simp only [step] at taken
    split at taken
    · cases Option.some.inj taken
      exact inv.setInterrupts _
    · cases taken
  | suspend t =>
    simp only [step] at taken
    split at taken
    · rename_i idle
      split at taken <;> cases Option.some.inj taken
      · exact inv
      · exact inv.goto (by simp [idle]) _
    · cases taken
  | resume t =>
    simp only [step] at taken
    split at taken
    · rename_i idle
      split at taken <;> cases Option.some.inj taken
      · exact inv.forget t
      · refine (inv.forget t).goto ?_ _
        change s.running ≠ .blocked
        simp [idle]
    · cases taken
  | proceed => exact inv.proceed quiet taken
  | block o flag time =>
    simp only [step] at taken
    split at taken
    · rename_i allowed
      exact inv.block allowed.1 allowed.2.1 allowed.2.2 taken
    · cases taken
  | wake o error =>
    simp only [step] at taken
    split at taken
    · cases Option.some.inj taken
      exact inv.wake o error
    · cases taken
  | expire t =>
    simp only [step] at taken
    split at taken
    · obtain ⟨k, expired, rfl⟩ := Option.map_eq_some_iff.mp taken
      exact inv.expire expired
    · cases taken
  | yield =>
    simp only [step] at taken
    split at taken
    · cases Option.some.inj taken
      exact inv.yield
    · cases taken
  | schedule =>
    simp only [step] at taken
    split at taken
    · obtain ⟨k, scheduled, rfl⟩ := Option.map_eq_some_iff.mp taken
      exact inv.schedule scheduled (fun _ => Or.inl rfl) rfl rfl
    · cases taken

theorem disturbed_breaks (inv : Inv n s) (disturbed : undisturbed n s .proceed = false)
    (taken : proceed s = some s') : ¬ Membership s' := by
  intro member
  unfold proceed at taken
  unfold undisturbed at disturbed
  cases running : s.running with
  | suspendTested t =>
    simp only [running, Option.isNone_eq_false_iff, Option.some.injEq] at disturbed taken
    obtain ⟨o, held⟩ := Option.isSome_iff_exists.mp disturbed
    have inside := member.waits t o (by rw [← taken]; simpa using held)
    rw [← taken] at inside
    simp [(suspendSection_unlinks s.kernel t).1.list] at inside
  | resumeTested t =>
    simp only [running, Option.isNone_eq_false_iff, Option.some.injEq] at disturbed taken
    obtain ⟨o, held⟩ := Option.isSome_iff_exists.mp disturbed
    have inside := member.waits t o (by rw [← taken]; simpa using held)
    rw [← taken] at inside
    simp [(resumeUnlink_unlinks s.kernel t).1.list] at inside
  | resumeUnlinked t =>
    simp only [running, Bool.not_eq_false', Option.some.injEq] at disturbed taken
    obtain ⟨h, inside⟩ := inv.linked_iff.mp disturbed
    obtain ⟨links, _⟩ := scheduleInsert_links s.kernel t
    rw [← taken] at member
    by_cases here : h = .ready (s.kernel.thread t).currentPriority
    · subst here
      have twice := links.self.nodup_iff.mp (member.once _)
      exact (List.nodup_cons.mp twice).1 inside
    · have queued := links.self.mem_iff.mpr List.mem_cons_self
      rw [← links.rest h here] at inside
      exact here (member.one t h _ inside queued)
  | idle => simp [running] at disturbed
  | blocked => simp [running] at disturbed
  | returning => simp [running] at disturbed

theorem step_exact {a : Action} (inv : Inv n s) (taken : step n s a = some s') :
    Membership s' ↔ undisturbed n s a = true := by
  constructor
  · intro member
    by_contra disturbed
    rw [Bool.not_eq_true] at disturbed
    cases a with
    | proceed => exact disturbed_breaks inv disturbed taken member
    | _ => simp [undisturbed] at disturbed
  · intro quiet
    exact (step_inv inv quiet taken).toMembership

theorem start_inv (start : Start s) : Inv n s := by
  refine ⟨⟨?_, ?_, ?_⟩, fun t p => start.ready p t, ?_, start.defunct, start.small,
    fun u current => Or.inl (start.current u current), start.unlocked⟩
  · intro h
    cases h with
    | ready p => exact start.once p
    | wait o => simp [start.wait o]
    | defunct => simp [start.defunct]
  · have only : ∀ t h, t ∈ s.kernel.list h → h = .ready (s.kernel.thread t).currentPriority := by
      intro t h inside
      cases h with
      | ready p => rw [(start.ready p t inside).2]
      | wait o => simp [start.wait o] at inside
      | defunct => simp [start.defunct] at inside
    intro t h g first second
    rw [only t h first, only t g second]
  · intro t o held
    simp [start.free t] at held
  · intro t o inside
    simp [start.wait o] at inside

/-- In every run in which no thread moves between test and section, the lists are in order;
and they stay so exactly as long as that goes on. -/
theorem membership_undisturbed {tr : List Unit} (run : Run ((machine n).restrict (undisturbed n)) tr s) :
    Membership s ∧ ∀ a s', step n s a = some s' → (Membership s' ↔ undisturbed n s a = true) := by
  have inv : Inv n s := by
    refine run.always (I := Inv n) (fun _ => start_inv) ?_
    intro s a s' es inv taken
    obtain ⟨quiet, taken⟩ := restrict_step.mp taken
    obtain ⟨_, result, pair⟩ := Option.map_eq_some_iff.mp taken
    cases pair
    exact step_inv inv quiet result
  exact ⟨inv.toMembership, fun a s' => step_exact inv⟩

/-- Threads 0 and 1 have the same priority, both are ready and 0 runs. -/
def twoThreads : State where
  kernel := {
    thread := fun _ => ⟨.ready, 0, .eok, 10, 10, 1#32 <<< 10, 0, 0, ⟨0, false⟩, true⟩
    list := fun h => if h = .ready 10 then [0, 1] else []
    readyPriorityGroup := 1#32 <<< 10
    currentThread := some 0
    currentPriority := 10
    schedulerLockNest := 0
    tick := 0 }
  interrupts := []
  pc := fun _ => .idle
  waitsOn := fun _ => none

theorem twoThreads_start : Start twoThreads := by
  refine ⟨?_, ?_, fun _ => rfl, rfl, ?_, fun _ _ => rfl, rfl, ⟨rfl, fun _ => rfl⟩, fun _ => rfl⟩
  · intro p
    by_cases here : p = 10 <;> simp [twoThreads, here]
  · intro p t inside
    by_cases here : p = 10
    · exact ⟨rfl, here.symm⟩
    · simp [twoThreads, here] at inside
  · intro t
    change 10 < rtThreadPriorityMax
    decide

/-- Thread 1 blocks, and thread 0 resumes it. -/
theorem membership_undisturbed_resume :
    ∃ s, s.kernel.list (.ready 10) = [0, 1] ∧ s.kernel.list (.wait 0) = [] ∧ Membership s ∧
      ∀ a s', step 1 s a = some s' → (Membership s' ↔ undisturbed 1 s a = true) := by
  obtain ⟨tr, s, run, found⟩ := Run.reaches (M := (machine 1).restrict (undisturbed 1)) twoThreads_start
    [.yield, .schedule, .block 0 .fifo 5, .proceed, .resume 1, .proceed, .proceed]
    (fun s => decide (s.kernel.list (.ready 10) = [0, 1] ∧ s.kernel.list (.wait 0) = [])) (by decide)
  obtain ⟨ready, wait⟩ := of_decide_eq_true found
  exact ⟨s, ready, wait, membership_undisturbed run⟩

/-- A handler ends the time slice of thread 0 after it has tested thread 1, which then blocks
before thread 0 goes on. -/
theorem membership_broken : ¬ ∀ tr s, Run (machine 1) tr s → Membership s := by
  intro holds
  obtain ⟨tr, s, run, found⟩ := Run.reaches (M := machine 1) twoThreads_start
    [.suspend 1, .interrupt, .yield, .schedule, .leave, .block 0 .fifo 5, .proceed, .proceed]
    (fun s => decide (s.waitsOn 1 = some 0 ∧ 1 ∉ s.kernel.list (.wait 0))) (by decide)
  obtain ⟨blocked, absent⟩ := of_decide_eq_true found
  exact absent ((holds tr s run).waits 1 0 blocked)

end RtThread.Preempt
