import RtThread.Run
import RtThread.Wait

/-! Wait queues: rt_wqueue_wait of any threads and rt_wqueue_wakeup, over every order of their
interrupt-disabled sections. The nodes lie on the stacks of the waiters: a node is its thread. -/
namespace RtThread.Waitqueue
open Kernel Transition

def rtTickPerSecond : Int := 1000

/-- RT_WAITING_FOREVER is -1. -/
def rtTickFromMillisecond (ms : Int) : Int :=
  if ms < 0 then -1
  else rtTickPerSecond * (ms / 1000) + (rtTickPerSecond * (ms % 1000) + 999) / 1000

/-- Where a thread is in rt_wqueue_wait: in rt_schedule or just back from it, or past the section
that clears the flag. -/
inductive Place where
  | idle
  | waiting
  | leaving
  deriving DecidableEq

/-- `wakeupFlag` is RT_WQ_FLAG_WAKEUP. `owed`: no wait has come since a wakeup that found the queue
empty; the code does not keep it. -/
structure State where
  kernel : Kernel
  wakeupFlag : Bool
  waitingList : List Tid
  place : Tid → Place
  owed : Bool

/-- `passed` is a wait that does not suspend, `signalled` a wakeup that finds the queue empty,
`spent` one that takes a waiter which rt_thread_resume does not have to resume. -/
inductive Event where
  | suspended (t : Tid)
  | passed (t : Tid)
  | expired (t : Tid)
  | signalled
  | resumed (t : Tid)
  | spent (t : Tid)
  deriving DecidableEq

inductive Action where
  | wait (t : Tid) (condition : Bool) (msec : Int)
  | clear (t : Tid)
  | remove (t : Tid)
  | expire (t : Tid)
  | wakeup

def wqueueDefaultWake (_ : Tid) : Int := 0

/-- rt_wqueue_wait up to its rt_schedule. -/
def rtWqueueWait (s : State) (t : Tid) (condition : Bool) (msec : Int) : Option (State × List Event) :=
  let tick := rtTickFromMillisecond msec
  if s.place t ≠ .idle ∨ (s.kernel.thread t).stat ≠ .ready then none
  else if condition ∨ tick = 0 then some ({ s with owed := false }, [.passed t])
  else if s.wakeupFlag then
    some ({ s with wakeupFlag := false, place := Function.update s.place t .leaving, owed := false },
      [.passed t])
  else
    let k := (s.kernel.rtThreadSuspend t).1
    (startTimer k t tick).map (fun k =>
      ({ s with
        kernel := k
        waitingList := s.waitingList ++ [t]
        place := Function.update s.place t .waiting
        owed := false }, [.suspended t]))

/-- The section behind rt_schedule. -/
def clearFlag (s : State) (t : Tid) : Option State :=
  if s.place t = .waiting ∧ (s.kernel.thread t).stat = .ready then
    some { s with wakeupFlag := false, place := Function.update s.place t .leaving }
  else none

def rtWqueueRemove (s : State) (t : Tid) : State :=
  { s with waitingList := s.waitingList.filter (· ≠ t) }

def rtWqueueWakeup (s : State) : State × List Event :=
  let s := { s with wakeupFlag := true }
  if s.waitingList = [] then ({ s with owed := true }, [.signalled])
  else
    match s.waitingList.find? (fun t => wqueueDefaultWake t = 0) with
    | none => (s, [])
    | some t =>
      let (k, result) := s.kernel.rtThreadResume t
      (rtWqueueRemove { s with kernel := k } t, [if result = .eok then .resumed t else .spent t])

def step (s : State) : Action → Option (State × List Event)
  | .wait t condition msec => rtWqueueWait s t condition msec
  | .clear t => (clearFlag s t).map (fun s => (s, []))
  | .remove t =>
    if s.place t = .leaving then
      some ({ rtWqueueRemove s t with place := Function.update s.place t .idle }, [])
    else none
  | .expire t => (s.kernel.timerExpire t).map (fun k => ({ s with kernel := k }, [.expired t]))
  | .wakeup => some (rtWqueueWakeup s)

/-- After rt_wqueue_init, nobody being inside a call. -/
structure Start (s : State) : Prop where
  flag : s.wakeupFlag = false
  list : s.waitingList = []
  idle : ∀ t, s.place t = .idle
  owed : s.owed = false

def machine : Machine State Action Event where
  start := Start
  step := step

/-- What wakeups and waits are to be: the suspended waiters, and whether the next wait is to pass. -/
structure Duty where
  asleep : List Tid
  owed : Bool

/-- `none` for a wakeup that resumes no waiter although one is suspended, and for a wait that
suspends although it is to pass. -/
def Event.apply (d : Duty) : Event → Option Duty
  | .suspended t => if d.owed then none else some { d with asleep := d.asleep ++ [t] }
  | .passed _ => some { d with owed := false }
  | .expired t => some { d with asleep := d.asleep.filter (· ≠ t) }
  | .signalled => if d.asleep = [] then some { d with owed := true } else none
  | .resumed t => if t ∈ d.asleep then some { d with asleep := d.asleep.filter (· ≠ t) } else none
  | .spent _ => if d.asleep = [] then some d else none

def replay (tr : List Event) : Option Duty := tr.foldlM (fun d e => e.apply d) ⟨[], false⟩

def Suspended (s : State) (t : Tid) : Prop := s.place t = .waiting ∧ (s.kernel.thread t).stat = .suspend

/-- A wakeup finds a suspended waiter first in the queue if any waiter is suspended; a waiter that
clears the flag does not clear it of a wakeup which found the queue empty. -/
def Guard (s : State) : Action → Prop
  | .wakeup => ∀ t, s.waitingList.head? = some t → (∃ u, Suspended s u) → Suspended s t
  | .clear _ => s.owed = false
  | _ => True

variable {s s' : State} {tr es : List Event} {a : Action} {t u : Tid} {d : Duty}

structure Inv (tr : List Event) (s : State) : Prop where
  flag : s.owed = true → s.wakeupFlag = true
  listed : ∀ t, Suspended s t → t ∈ s.waitingList
  queued : ∀ t ∈ s.waitingList, (s.kernel.thread t).stat = .suspend → s.place t = .waiting
  duty : ∃ d, replay tr = some d ∧ d.owed = s.owed ∧ ∀ t, t ∈ d.asleep ↔ Suspended s t

theorem replay_snoc (shown : replay tr = some d) (e : Event) : replay (tr ++ [e]) = e.apply d :=
  replay_one shown e

theorem start_inv (start : Start s) : Inv [] s := by
  have nobody : ∀ t, ¬Suspended s t := by
    intro t suspended
    have waiting := suspended.1
    rw [start.idle t] at waiting
    cases waiting
  refine ⟨?_, fun t h => absurd h (nobody t), ?_, ⟨[], false⟩, rfl, start.owed.symm, ?_⟩
  · intro owed
    rw [start.owed] at owed
    cases owed
  · intro t listed
    rw [start.list] at listed
    cases listed
  · intro t
    simp [nobody t]

theorem suspended_congr (place : s'.place t = s.place t)
    (stat : (s'.kernel.thread t).stat = (s.kernel.thread t).stat) : Suspended s' t ↔ Suspended s t := by
  simp only [Suspended, place, stat]

theorem startTimer_some {k k' : Kernel} {tick : Int} (ready : (k.thread t).stat = .ready)
    (started : startTimer (k.rtThreadSuspend t).1 t tick = some k') :
    (k'.thread t).stat = .suspend ∧ ∀ u, u ≠ t → k'.thread u = k.thread u := by
  simp only [startTimer, suspend_ready k t ready] at started
  split at started
  · rw [rtTimerStart_some _ _ started]
    refine ⟨by simp [rtTimerSetTime, rtTimerStop], ?_⟩
    intro u other
    simp [rtTimerSetTime, rtTimerStop, other]
  · rw [← Option.some.inj started]
    refine ⟨by simp [rtTimerStop], ?_⟩
    intro u other
    simp [rtTimerStop, other]

theorem wait_cases {condition : Bool} {msec : Int}
    (taken : rtWqueueWait s t condition msec = some (s', es)) :
    s.place t = .idle ∧ (s.kernel.thread t).stat = .ready ∧
      ((s' = { s with owed := false } ∧ es = [.passed t]) ∨
      (s' = { s with wakeupFlag := false, place := Function.update s.place t .leaving, owed := false } ∧
        es = [.passed t]) ∨
      (s.wakeupFlag = false ∧ es = [.suspended t] ∧ ∃ k,
        startTimer (s.kernel.rtThreadSuspend t).1 t (rtTickFromMillisecond msec) = some k ∧
        s' = { s with
          kernel := k
          waitingList := s.waitingList ++ [t]
          place := Function.update s.place t .waiting
          owed := false })) := by
  simp only [rtWqueueWait] at taken
  split at taken
  · contradiction
  · rename_i enabled
    simp only [not_or, not_not] at enabled
    refine ⟨enabled.1, enabled.2, ?_⟩
    split at taken
    · cases Option.some.inj taken
      exact Or.inl ⟨rfl, rfl⟩
    · split at taken
      · cases Option.some.inj taken
        exact Or.inr (Or.inl ⟨rfl, rfl⟩)
      · rename_i unset
        obtain ⟨k, started, result⟩ := Option.map_eq_some_iff.mp taken
        cases result
        exact Or.inr (Or.inr ⟨Bool.eq_false_iff.mpr unset, rfl, k, started, rfl⟩)

theorem wait_inv {condition : Bool} {msec : Int} (inv : Inv tr s)
    (taken : rtWqueueWait s t condition msec = some (s', es)) : Inv (tr ++ es) s' := by
  obtain ⟨d, shown, owed, asleep⟩ := inv.duty
  obtain ⟨idle, ready, ⟨rfl, rfl⟩ | ⟨rfl, rfl⟩ | ⟨unset, rfl, k, started, rfl⟩⟩ := wait_cases taken
  · exact ⟨by simp, inv.listed, inv.queued, ⟨d.asleep, false⟩, replay_snoc shown _, rfl, asleep⟩
  · have same : ∀ u, Suspended { s with
        wakeupFlag := false, place := Function.update s.place t .leaving, owed := false } u ↔
        Suspended s u := by
      intro u
      by_cases here : u = t
      · subst here
        simp [Suspended, ready]
      · exact suspended_congr (by simp [here]) rfl
    refine ⟨by simp, ?_, ?_, ⟨d.asleep, false⟩, replay_snoc shown _, rfl, ?_⟩
    · exact fun u h => inv.listed u ((same u).mp h)
    · intro u listed suspended
      have place := inv.queued u listed suspended
      exact ((same u).mpr ⟨place, suspended⟩).1
    · exact fun u => (asleep u).trans (same u).symm
  · obtain ⟨parked, others⟩ := startTimer_some ready started
    have due : d.owed = false := by
      rw [owed]
      by_contra set
      have flag := inv.flag (by simpa using set)
      rw [unset] at flag
      cases flag
    have now : ∀ u, Suspended { s with
        kernel := k
        waitingList := s.waitingList ++ [t]
        place := Function.update s.place t .waiting
        owed := false } u ↔ Suspended s u ∨ u = t := by
      intro u
      by_cases here : u = t
      · subst here
        simp [Suspended, parked]
      · rw [suspended_congr (s := s) (by simp [here]) (by simp [others u here])]
        simp [here]
    refine ⟨by simp, ?_, ?_, ⟨d.asleep ++ [t], false⟩, ?_, rfl, ?_⟩
    · intro u suspended
      rcases (now u).mp suspended with old | rfl
      · exact List.mem_append_left _ (inv.listed u old)
      · exact List.mem_append_right _ (List.mem_singleton_self u)
    · intro u listed suspended
      by_cases here : u = t
      · subst here
        simp
      · have before : u ∈ s.waitingList := by simpa [here] using listed
        rw [others u here] at suspended
        simpa [here] using inv.queued u before suspended
    · rw [replay_snoc shown, Event.apply, due]
      simp
    · intro u
      rw [now, List.mem_append, asleep, List.mem_singleton]

theorem clear_inv (inv : Inv tr s) (kept : s.owed = false) (taken : clearFlag s t = some s') :
    Inv tr s' := by
  simp only [clearFlag] at taken
  split at taken
  · rename_i enabled
    obtain ⟨_, ready⟩ := enabled
    cases taken
    obtain ⟨d, shown, owed, asleep⟩ := inv.duty
    have same : ∀ u, Suspended { s with
        wakeupFlag := false, place := Function.update s.place t .leaving } u ↔ Suspended s u := by
      intro u
      by_cases here : u = t
      · subst here
        simp [Suspended, ready]
      · exact suspended_congr (by simp [here]) rfl
    refine ⟨?_, fun u h => inv.listed u ((same u).mp h), ?_, d, shown, owed, ?_⟩
    · intro set
      rw [kept] at set
      cases set
    · intro u listed suspended
      exact ((same u).mpr ⟨inv.queued u listed suspended, suspended⟩).1
    · exact fun u => (asleep u).trans (same u).symm
  · contradiction

theorem Inv.awaken {e : Event} (inv : Inv tr s) (flag : s'.owed = true → s'.wakeupFlag = true)
    (owed : s'.owed = s.owed) (place : s'.place = s.place) (ready : (s'.kernel.thread t).stat ≠ .suspend)
    (others : ∀ u, u ≠ t → s'.kernel.thread u = s.kernel.thread u)
    (sub : ∀ u ∈ s'.waitingList, u ∈ s.waitingList)
    (kept : ∀ u ∈ s.waitingList, u ≠ t → u ∈ s'.waitingList)
    (removes : ∀ d, (∀ u, u ∈ d.asleep ↔ Suspended s u) →
      e.apply d = some { d with asleep := d.asleep.filter (· ≠ t) }) : Inv (tr ++ [e]) s' := by
  obtain ⟨d, shown, due, asleep⟩ := inv.duty
  have now : ∀ u, Suspended s' u ↔ Suspended s u ∧ u ≠ t := by
    intro u
    by_cases here : u = t
    · subst here
      simp [Suspended, ready]
    · rw [suspended_congr (s := s) (by rw [place]) (by rw [others u here])]
      simp [here]
  refine ⟨flag, ?_, ?_, { d with asleep := d.asleep.filter (· ≠ t) }, ?_, by rw [owed]; exact due, ?_⟩
  · intro u suspended
    obtain ⟨before, other⟩ := (now u).mp suspended
    exact kept u (inv.listed u before) other
  · intro u listed suspended
    by_cases here : u = t
    · subst here
      exact absurd suspended ready
    · rw [others u here] at suspended
      rw [place]
      exact inv.queued u (sub u listed) suspended
  · rw [replay_snoc shown, removes d asleep]
  · intro u
    simp only [List.mem_filter, decide_eq_true_eq]
    rw [asleep, now]

theorem expire_inv {k : Kernel} (inv : Inv tr s) (expired : s.kernel.timerExpire t = some k) :
    Inv (tr ++ [.expired t]) { s with kernel := k } := by
  obtain ⟨_, _, self, others, _, _⟩ := timerExpire_some expired
  exact inv.awaken inv.flag rfl rfl (by simp [self, Thread.awake]) others (fun _ h => h)
    (fun _ h _ => h) (fun _ _ => rfl)

theorem remove_inv (inv : Inv tr s) (place : s.place t = .leaving) :
    Inv tr { rtWqueueRemove s t with place := Function.update s.place t .idle } := by
  obtain ⟨d, shown, due, asleep⟩ := inv.duty
  have same : ∀ u, Suspended { rtWqueueRemove s t with place := Function.update s.place t .idle } u ↔
      Suspended s u := by
    intro u
    by_cases here : u = t
    · subst here
      simp [Suspended, place]
    · exact suspended_congr (by simp [here]) rfl
  refine ⟨inv.flag, ?_, ?_, d, shown, due, fun u => (asleep u).trans (same u).symm⟩
  · intro u suspended
    have before := (same u).mp suspended
    have other : u ≠ t := by
      rintro rfl
      have waiting := before.1
      rw [place] at waiting
      cases waiting
    exact List.mem_filter.mpr ⟨inv.listed u before, by simpa using other⟩
  · intro u listed suspended
    obtain ⟨before, other⟩ := List.mem_filter.mp listed
    simp only [decide_eq_true_eq] at other
    simpa [other] using inv.queued u before suspended

theorem find_default (l : List Tid) : l.find? (fun t => wqueueDefaultWake t = 0) = l.head? := by
  cases l <;> rfl

theorem wakeup_cases (taken : rtWqueueWakeup s = (s', es)) :
    (s.waitingList = [] ∧ s' = { s with wakeupFlag := true, owed := true } ∧ es = [.signalled]) ∨
    ∃ t, s.waitingList.head? = some t ∧
      (((s.kernel.thread t).stat = .suspend ∧ es = [.resumed t] ∧
        s' = rtWqueueRemove { s with wakeupFlag := true, kernel := (s.kernel.rtThreadResume t).1 } t) ∨
      ((s.kernel.thread t).stat ≠ .suspend ∧ es = [.spent t] ∧
        s' = rtWqueueRemove { s with wakeupFlag := true } t)) := by
  simp only [rtWqueueWakeup, find_default] at taken
  cases list : s.waitingList with
  | nil =>
    simp only [list, if_true] at taken
    cases taken
    exact Or.inl ⟨rfl, rfl, rfl⟩
  | cons t rest =>
    simp only [list, reduceCtorEq, if_false, List.head?_cons] at taken
    refine Or.inr ⟨t, rfl, ?_⟩
    by_cases suspended : (s.kernel.thread t).stat = .suspend
    · have result : (s.kernel.rtThreadResume t).2 = .eok := by simp [rtThreadResume, suspended]
      rw [result, if_pos rfl] at taken
      cases taken
      exact Or.inl ⟨suspended, rfl, by simp⟩
    · have result : s.kernel.rtThreadResume t = (s.kernel, .error) := by simp [rtThreadResume, suspended]
      simp only [result, reduceCtorEq, if_false] at taken
      cases taken
      exact Or.inr ⟨suspended, rfl, by simp⟩

theorem wakeup_inv (inv : Inv tr s) (guard : Guard s .wakeup) (taken : rtWqueueWakeup s = (s', es)) :
    Inv (tr ++ es) s' := by
  have kept : ∀ t, ∀ u ∈ s.waitingList, u ≠ t → u ∈ s.waitingList.filter (· ≠ t) := by
    intro t u listed other
    exact List.mem_filter.mpr ⟨listed, by simpa using other⟩
  obtain ⟨empty, rfl, rfl⟩ | ⟨t, first, ⟨suspended, rfl, rfl⟩ | ⟨ready, rfl, rfl⟩⟩ := wakeup_cases taken
  · obtain ⟨d, shown, due, asleep⟩ := inv.duty
    have nobody : d.asleep = [] := by
      apply List.eq_nil_iff_forall_not_mem.mpr
      intro u sleeps
      have listed := inv.listed u ((asleep u).mp sleeps)
      rw [empty] at listed
      cases listed
    refine ⟨fun _ => rfl, inv.listed, inv.queued, { d with owed := true }, ?_, rfl, asleep⟩
    rw [replay_snoc shown, Event.apply, if_pos nobody]
  · have waiting := inv.queued t (List.mem_of_mem_head? first) suspended
    refine inv.awaken (t := t) (fun _ => rfl) rfl rfl ?_ (fun u other => resume_other suspended other)
      (fun u h => (List.mem_filter.mp h).1) (kept t) ?_
    · simp [rtWqueueRemove, resume_self suspended, Thread.awake]
    · intro d asleep
      exact if_pos ((asleep t).mpr ⟨waiting, suspended⟩)
  · refine inv.awaken (t := t) (fun _ => rfl) rfl rfl ready (fun _ _ => rfl)
      (fun u h => (List.mem_filter.mp h).1) (kept t) ?_
    intro d asleep
    have nobody : d.asleep = [] := by
      apply List.eq_nil_iff_forall_not_mem.mpr
      intro u sleeps
      exact ready (guard t first ⟨u, (asleep u).mp sleeps⟩).2
    obtain ⟨_, owed⟩ := d
    cases nobody
    rfl

theorem step_inv (inv : Inv tr s) (guard : Guard s a) (taken : step s a = some (s', es)) :
    Inv (tr ++ es) s' := by
  cases a with
  | wait t condition msec => exact wait_inv inv taken
  | clear t =>
    obtain ⟨r, cleared, result⟩ := Option.map_eq_some_iff.mp taken
    cases result
    rw [List.append_nil]
    exact clear_inv inv guard cleared
  | remove t =>
    simp only [step] at taken
    split at taken
    · rename_i leaving
      cases taken
      rw [List.append_nil]
      exact remove_inv inv leaving
    · contradiction
  | expire t =>
    obtain ⟨k, expired, result⟩ := Option.map_eq_some_iff.mp taken
    cases result
    exact expire_inv inv expired
  | wakeup => exact wakeup_inv inv guard (Option.some.inj taken)

theorem run_inv (run : RunWhere machine Guard tr s) : Inv tr s := by
  apply RunWhere.invariant (I := Inv) (fun _ start => start_inv start) ?_ run
  intro tr s a s' es _ inv guard taken
  exact step_inv inv guard taken

theorem wakeup_resumes_iff (inv : Inv tr s) (somebody : ∃ t, Suspended s t) :
    (∃ t, Suspended s t ∧ ((rtWqueueWakeup s).1.kernel.thread t).stat = .ready) ↔ Guard s .wakeup := by
  obtain ⟨w, waits⟩ := somebody
  obtain ⟨empty, _, _⟩ | ⟨t, first, ⟨suspended, _, after⟩ | ⟨ready, _, after⟩⟩ :=
    wakeup_cases (show rtWqueueWakeup s = ((rtWqueueWakeup s).1, (rtWqueueWakeup s).2) from rfl)
  · have listed := inv.listed w waits
    rw [empty] at listed
    cases listed
  · have waiting : Suspended s t := ⟨inv.queued t (List.mem_of_mem_head? first) suspended, suspended⟩
    constructor
    · intro _ u head _
      rw [first] at head
      cases head
      exact waiting
    · exact fun _ => ⟨t, waiting, by simp [after, rtWqueueRemove, resume_self suspended, Thread.awake]⟩
  · constructor
    · rintro ⟨u, asleep, woken⟩
      rw [after] at woken
      have still : (s.kernel.thread u).stat = .suspend := asleep.2
      rw [show (s.kernel.thread u).stat = .ready from woken] at still
      cases still
    · exact fun guard => absurd (guard t first ⟨w, waits⟩).2 ready

/-- No wakeup of the history is lost: each has resumed a waiter if one was suspended, and after one
that found the queue empty the next wait does not suspend. -/
structure Kept (tr : List Event) (s : State) : Prop where
  history : ∃ d, replay tr = some d ∧ (∀ t, t ∈ d.asleep ↔ Suspended s t) ∧
    (d.owed = true → ∀ t condition msec s' es,
      step s (.wait t condition msec) = some (s', es) → es = [.passed t])
  wakeup : (∃ t, Suspended s t) →
    ((∃ t, Suspended s t ∧ ((rtWqueueWakeup s).1.kernel.thread t).stat = .ready) ↔ Guard s .wakeup)

theorem wakeups_kept (run : RunWhere machine Guard tr s) : Kept tr s := by
  have inv := run_inv run
  obtain ⟨d, shown, due, asleep⟩ := inv.duty
  refine ⟨⟨d, shown, asleep, ?_⟩, wakeup_resumes_iff inv⟩
  intro owed t condition msec s' es taken
  have set : s.wakeupFlag = true := inv.flag (by rw [← due, owed])
  obtain ⟨_, _, ⟨_, rfl⟩ | ⟨_, rfl⟩ | ⟨unset, _⟩⟩ := wait_cases taken
  · rfl
  · rfl
  · rw [set] at unset
    cases unset

def startState : State := ⟨startedThreads (fun _ => 10) 3, false, [], fun _ => .idle, false⟩

theorem startState_start : Start startState := ⟨rfl, rfl, fun _ => rfl, rfl⟩

def suspendedChecked (s : State) (t : Tid) : Bool :=
  decide (s.place t = .waiting) && decide ((s.kernel.thread t).stat = .suspend)

def guardChecked (s : State) : Action → Bool
  | .wakeup => s.waitingList.head?.all (suspendedChecked s)
  | .clear _ => !s.owed
  | _ => true

theorem guardChecked_sound (s : State) (a : Action) (checked : guardChecked s a = true) : Guard s a := by
  cases a with
  | wakeup =>
    intro t first _
    simpa [guardChecked, first, suspendedChecked, Suspended] using checked
  | clear t => simpa [guardChecked, Guard] using checked
  | _ => trivial

def keptTrace : List Event :=
  [.suspended 0, .suspended 1, .resumed 0, .expired 1, .signalled, .passed 2]

/-- One waiter is resumed and one times out, and a wakeup with nobody left lets the next wait pass. -/
theorem wakeups_kept_passing : ∃ s, Kept keptTrace s ∧ s.place 2 = .leaving := by
  obtain ⟨s, run, passing⟩ := Run.shows (M := machine.restrict guardChecked) (s := startState)
    startState_start
    [.wait 0 false (-1), .wait 1 false 5, .wakeup, .clear 0, .remove 0, .expire 1, .clear 1,
      .remove 1, .wakeup, .wait 2 false (-1)]
    keptTrace (fun s => decide (s.place 2 = .leaving)) (by decide +kernel)
  have guarded : RunWhere machine Guard keptTrace s :=
    RunWhere.ofRestrict (fun _ s a _ => guardChecked_sound s a) run
  exact ⟨s, wakeups_kept guarded, of_decide_eq_true passing⟩

def clearedTrace : List Event := [.suspended 0, .resumed 0, .signalled, .suspended 1]
def behindTrace : List Event := [.suspended 0, .suspended 1, .expired 0, .spent 0]

/-- A woken waiter clears the flag of a wakeup that came behind its own; and a wakeup takes a waiter
that has timed out while another one is suspended. -/
theorem wakeups_lost :
    (∃ s, Run machine clearedTrace s ∧ replay clearedTrace = none) ∧
    (∃ s, Run machine behindTrace s ∧ replay behindTrace = none ∧ Suspended s 1) := by
  constructor
  · obtain ⟨s, run, _⟩ := Run.shows (M := machine) (s := startState) startState_start
      [.wait 0 false (-1), .wakeup, .wakeup, .clear 0, .wait 1 false (-1)]
      clearedTrace (fun _ => true) (by decide +kernel)
    exact ⟨s, run, by decide⟩
  · obtain ⟨s, run, found⟩ := Run.shows (M := machine) (s := startState) startState_start
      [.wait 0 false 5, .wait 1 false (-1), .expire 0, .wakeup]
      behindTrace (fun s => suspendedChecked s 1) (by decide +kernel)
    exact ⟨s, run, by decide, by simpa [suspendedChecked, Suspended] using found⟩

end RtThread.Waitqueue
