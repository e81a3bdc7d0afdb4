import RtThread.EventSet

/-! The two copies of the receiving logic of an event set, one in rt_event_send for the threads
that wait and one in rt_event_recv. What a send does to the waiters is what they would have got
by calling rt_event_recv one after the other, in the order of the wait list. -/
namespace RtThread.EventAgree
open Kernel Transition EventSet

/-- An event, and the arguments of the last call of rt_event_recv by each thread. -/
structure Asking where
  event : State
  asked : Tid → BitVec 32 × BitVec 8

def Asking.note (s : Asking) : Action → Tid → BitVec 32 × BitVec 8
  | .recv t bits option _ => Function.update s.asked t (bits, option)
  | _ => s.asked

def step (s : Asking) (a : Action) : Option (Asking × List Event) :=
  (EventSet.step s.event a).map (fun r => (⟨r.1, s.note a⟩, r.2))

def machine : Machine Asking Action Event where
  start s := Start s.event
  step := step

/-- Each thread in its turn calls rt_event_recv with its arguments, and does not wait. -/
def recvEach (asked : Tid → BitVec 32 × BitVec 8) : List Tid → State → Option (State × List Event)
  | [], q => some (q, [])
  | t :: rest, q =>
    (rtEventRecv q t (asked t).1 (asked t).2 0).bind (fun r =>
      (recvEach asked rest r.1).map (fun last => (last.1, r.2 ++ last.2)))

/-- The set of the event when rt_event_send has met the waiters `L`. -/
def setAt (s : State) (bits : BitVec 32) (L : List Tid) : BitVec 32 :=
  (scanWaiters L s.kernel (s.set ||| bits)).2.1

/-- Whenever the call of `t` returns, it returns RT_EOK with these bits. -/
def Observes (s : State) (t : Tid) (bits : BitVec 32) : Prop :=
  ∀ as r, Action.wake t ∉ as → EventSet.machine.exec s as = some r →
    ∃ s', recvReturn r.1 t = some (s', [.received t bits])

/-- The turn of the waiter `t` behind `L`, in the send of `bits` and in the execution of the calls,
which stands at `q`. -/
structure Turn (s : Asking) (bits : BitVec 32) (L : List Tid) (t : Tid) (q : State) : Prop where
  before : q.set = setAt s.event bits L
  resumed : ((rtEventSend s.event bits).1.kernel.thread t).stat = .ready → ∃ got,
    Observes (rtEventSend s.event bits).1 t got ∧
    ∀ time, ∃ q', rtEventRecv q t (s.asked t).1 (s.asked t).2 time = some (q', [.received t got]) ∧
      q'.set = setAt s.event bits (L ++ [t])
  passed : ((rtEventSend s.event bits).1.kernel.thread t).stat ≠ .ready →
    ∃ q', rtEventRecv q t (s.asked t).1 (s.asked t).2 0 = some (q', [.failed t .etimeout]) ∧
      q'.set = setAt s.event bits (L ++ [t])

structure Inv (s : Asking) : Prop where
  event : EventSet.Inv s.event
  asks : ∀ t ∈ s.event.kernel.list (.wait 0), (s.asked t).1 ≠ 0 ∧
    (s.event.kernel.thread t).eventSet = (s.asked t).1 ∧ (s.event.kernel.thread t).eventInfo = (s.asked t).2

/-- Threads that can call rt_event_recv. -/
def Idle (q : State) (ws : List Tid) : Prop :=
  ∀ t ∈ ws, q.waiting t = false ∧ (q.kernel.thread t).stat = .ready

variable {s s' q : State} {es : List Event} {t u : Tid} {k : Kernel} {th : Thread} {bits set : BitVec 32}
  {option : BitVec 8} {time : Int} {L ws : List Tid} {asked : Tid → BitVec 32 × BitVec 8}

/-- A waiter is woken with the bits that rt_event_recv returns. -/
theorem saved_agrees (met : satisfies th.eventInfo th.eventSet set = some true) :
    savedBits th set = set &&& th.eventSet := by
  unfold satisfies at met
  unfold savedBits
  split
  · rename_i all
    rw [if_pos all] at met
    rw [BitVec.and_comm]
    exact (of_decide_eq_true (Option.some.inj met)).symm
  · exact BitVec.and_comm _ _

theorem clear_agrees : clearBits option (set &&& bits) set = clearBits option bits set := by
  unfold clearBits
  split
  · ext i inside
    simp
    grind
  · rfl

/-- What a call of rt_event_recv leaves as it is. -/
structure Frame (q q' : State) : Prop where
  waiting : q'.waiting = q.waiting
  stat : ∀ u, (q'.kernel.thread u).stat = (q.kernel.thread u).stat

theorem recv_satisfied (idle : q.waiting t = false ∧ (q.kernel.thread t).stat = .ready) (some_ : bits ≠ 0)
    (met : satisfies option bits q.set = some true) (time : Int) :
    ∃ q', rtEventRecv q t bits option time = some (q', [.received t (q.set &&& bits)]) ∧
      q'.set = clearBits option bits q.set ∧ Frame q q' := by
  have enabled : ¬ (q.waiting t = true ∨ (q.kernel.thread t).stat ≠ .ready) := by simp [idle]
  refine ⟨{ q with
    kernel := fillInfo (q.kernel.modify t (fun th => { th with error := .eok })) t (q.set &&& bits) option
    set := clearBits option bits q.set }, ?_, rfl, rfl, ?_⟩
  · simp only [rtEventRecv, if_neg enabled, if_neg some_, met]
  · intro u
    by_cases here : u = t <;> simp [fillInfo, here]

theorem recv_unsatisfied (idle : q.waiting t = false ∧ (q.kernel.thread t).stat = .ready) (some_ : bits ≠ 0)
    (missing : satisfies option bits q.set = some false) :
    ∃ q', rtEventRecv q t bits option 0 = some (q', [.failed t .etimeout]) ∧ q'.set = q.set ∧ Frame q q' := by
  have enabled : ¬ (q.waiting t = true ∨ (q.kernel.thread t).stat ≠ .ready) := by simp [idle]
  refine ⟨{ q with
    kernel := (q.kernel.modify t (fun th => { th with error := .eok })).modify t
      (fun th => { th with error := .etimeout }) }, ?_, rfl, rfl, ?_⟩
  · simp only [rtEventRecv, if_neg enabled, if_neg some_, missing, if_pos]
  · intro u
    by_cases here : u = t <;> simp [here]

theorem Idle.frame (idle : Idle q ws) {q' : State} (frame : Frame q q') : Idle q' ws := by
  intro t here
  rw [frame.waiting, frame.stat]
  exact idle t here

/-- The waiters of the list, as the send finds them. -/
structure Waiters (asked : Tid → BitVec 32 × BitVec 8) (k : Kernel) (set : BitVec 32) (ws : List Tid) : Prop where
  nodup : ws.Nodup
  suspended : ∀ t ∈ ws, (k.thread t).stat = .suspend
  asks : ∀ t ∈ ws, (asked t).1 ≠ 0 ∧ (k.thread t).eventSet = (asked t).1 ∧ (k.thread t).eventInfo = (asked t).2
  valid : ∀ t ∈ ws, satisfies (k.thread t).eventInfo (k.thread t).eventSet set ≠ none

theorem scan_append {M : List Tid} (done : (scanWaiters L k set).2.2 = .eok) :
    scanWaiters (L ++ M) k set = scanWaiters M (scanWaiters L k set).1 (scanWaiters L k set).2.1 := by
  induction L generalizing k set with
  | nil => rfl
  | cons t rest ih =>
    rw [List.cons_append]
    cases met : satisfies (k.thread t).eventInfo (k.thread t).eventSet set with
    | none => simp only [scanWaiters, met] at done; cases done
    | some found =>
      cases found with
      | false =>
        simp only [scanWaiters, met] at done ⊢
        exact ih done
      | true =>
        simp only [scanWaiters, met] at done ⊢
        exact ih done

theorem Waiters.tail (waiters : Waiters asked k set (t :: ws)) : Waiters asked k set ws :=
  ⟨(List.nodup_cons.mp waiters.nodup).2, fun u here => waiters.suspended u (List.mem_cons_of_mem t here),
    fun u here => waiters.asks u (List.mem_cons_of_mem t here),
    fun u here => waiters.valid u (List.mem_cons_of_mem t here)⟩

theorem Waiters.wake (waiters : Waiters asked k set (t :: ws)) (set' : BitVec 32) :
    Waiters asked (wakeWaiter k t set) set' ws := by
  obtain ⟨absent, nodup⟩ := List.nodup_cons.mp waiters.nodup
  have same : ∀ u ∈ ws, (wakeWaiter k t set).thread u = k.thread u := by
    intro u here
    refine wakeWaiter_other (waiters.suspended t List.mem_cons_self) ?_
    rintro rfl
    exact absent here
  refine ⟨nodup, ?_, ?_, ?_⟩ <;> intro u here <;> rw [same u here]
  · exact waiters.tail.suspended u here
  · exact waiters.tail.asks u here
  · exact satisfies_valid (waiters.tail.valid u here)

theorem recv_agrees (waiters : Waiters asked k set (t :: ws)) (same : q.set = set) (idle : Idle q (t :: ws)) :
    (satisfies (k.thread t).eventInfo (k.thread t).eventSet set = some true ∧ ∀ time, ∃ q',
      rtEventRecv q t (asked t).1 (asked t).2 time = some (q', [.received t (savedBits (k.thread t) set)]) ∧
      q'.set = clearBits (k.thread t).eventInfo (savedBits (k.thread t) set) set ∧ Frame q q') ∨
    (satisfies (k.thread t).eventInfo (k.thread t).eventSet set = some false ∧ ∃ q',
      rtEventRecv q t (asked t).1 (asked t).2 0 = some (q', [.failed t .etimeout]) ∧ q'.set = set ∧ Frame q q') := by
  obtain ⟨some_, sameSet, sameInfo⟩ := waiters.asks t List.mem_cons_self
  have idle' := idle t List.mem_cons_self
  subst same
  cases met : satisfies (k.thread t).eventInfo (k.thread t).eventSet q.set with
  | none => exact absurd met (waiters.valid t List.mem_cons_self)
  | some found =>
    cases found with
    | true =>
      left
      rw [saved_agrees met, clear_agrees, sameSet, sameInfo]
      rw [sameSet, sameInfo] at met
      exact ⟨rfl, fun time => recv_satisfied idle' some_ met time⟩
    | false =>
      right
      rw [sameSet, sameInfo] at met
      exact ⟨rfl, recv_unsatisfied idle' some_ met⟩

theorem Frame.trans {q' q'' : State} (first : Frame q q') (second : Frame q' q'') : Frame q q'' :=
  ⟨second.waiting.trans first.waiting, fun u => (second.stat u).trans (first.stat u)⟩

theorem recvEach_cons {q' q'' : State} {es' : List Event}
    (called : rtEventRecv q t (asked t).1 (asked t).2 0 = some (q', es))
    (rest : recvEach asked ws q' = some (q'', es')) : recvEach asked (t :: ws) q = some (q'', es ++ es') := by
  simp [recvEach, called, rest]

theorem scan_agrees (waiters : Waiters asked k set ws) (same : q.set = set) (idle : Idle q ws) :
    (scanWaiters ws k set).2.2 = .eok ∧ ∃ q' es, recvEach asked ws q = some (q', es) ∧
      q'.set = (scanWaiters ws k set).2.1 ∧ Frame q q' := by
  induction ws generalizing k set q with
  | nil => exact ⟨rfl, q, [], rfl, same, rfl, fun _ => rfl⟩
  | cons t rest ih =>
    have idleTail : Idle q rest := fun u here => idle u (List.mem_cons_of_mem t here)
    rcases recv_agrees waiters same idle with ⟨met, calls⟩ | ⟨missing, q', called, kept, frame⟩
    · obtain ⟨q', called, cleared, frame⟩ := calls 0
      obtain ⟨done, q'', es, rest_, agrees, frame'⟩ := ih (waiters.wake _) cleared (idleTail.frame frame)
      simp only [scanWaiters, met]
      exact ⟨done, q'', _, recvEach_cons called rest_, agrees, frame.trans frame'⟩
    · obtain ⟨done, q'', es, rest_, agrees, frame'⟩ := ih waiters.tail kept (idleTail.frame frame)
      simp only [scanWaiters, missing]
      exact ⟨done, q'', _, recvEach_cons called rest_, agrees, frame.trans frame'⟩

theorem Waiters.split (waiters : Waiters asked k set (L ++ ws)) : Waiters asked k set L ∧
    Waiters asked (scanWaiters L k set).1 (scanWaiters L k set).2.1 ws := by
  induction L generalizing k set with
  | nil => exact ⟨⟨List.nodup_nil, by simp, by simp, by simp⟩, waiters⟩
  | cons t rest ih =>
    have first : Waiters asked k set (t :: rest) := by
      obtain ⟨nodup, suspended, asks, valid⟩ := waiters
      refine ⟨(List.nodup_append.mp nodup).1, fun u here => suspended u ?_, fun u here => asks u ?_,
        fun u here => valid u ?_⟩ <;> exact List.mem_append_left ws here
    refine ⟨first, ?_⟩
    cases met : satisfies (k.thread t).eventInfo (k.thread t).eventSet set with
    | none => exact absurd met (waiters.valid t List.mem_cons_self)
    | some found =>
      cases found <;> simp only [scanWaiters, met]
      · exact (ih waiters.tail).2
      · exact (ih (Waiters.wake waiters _)).2

theorem scan_away (waiters : Waiters asked k set ws) (away : u ∉ ws) :
    (scanWaiters ws k set).1.thread u = k.thread u := by
  induction ws generalizing k set with
  | nil => rfl
  | cons t rest ih =>
    obtain ⟨other, away'⟩ := not_or.mp (mt List.mem_cons.mpr away)
    cases met : satisfies (k.thread t).eventInfo (k.thread t).eventSet set with
    | none => exact absurd met (waiters.valid t List.mem_cons_self)
    | some found =>
      cases found <;> simp only [scanWaiters, met]
      · exact ih waiters.tail away'
      · rw [ih (waiters.wake _) away', wakeWaiter_other (waiters.suspended t List.mem_cons_self) other]

/-- The thread has been woken with these bits, and has not run yet. -/
structure Woken (s : State) (t : Tid) (bits : BitVec 32) : Prop where
  waiting : s.waiting t = true
  ready : (s.kernel.thread t).stat = .ready
  error : (s.kernel.thread t).error = .eok
  saved : (s.kernel.thread t).eventSet = bits

theorem wakeWaiter_saved (set : BitVec 32) (parked : (k.thread t).stat = .suspend) :
    ((wakeWaiter k t set).thread t).error = (k.thread t).error ∧
      ((wakeWaiter k t set).thread t).eventSet = savedBits (k.thread t) set := by
  have parked' : ((k.modify t (fun th => { th with eventSet := savedBits th set })).thread t).stat = .suspend := by
    simpa using parked
  simp [wakeWaiter, resume_self parked', Thread.awake]

theorem scan_turn {R : List Tid} (waiters : Waiters asked k set (L ++ t :: R)) (same : q.set = set)
    (idle : Idle q (L ++ t :: R)) : ∃ q' es, recvEach asked L q = some (q', es) ∧
      q'.set = (scanWaiters L k set).2.1 ∧
      (((scanWaiters (L ++ t :: R) k set).1.thread t).stat = .ready ∧
        ((scanWaiters (L ++ t :: R) k set).1.thread t).error = (k.thread t).error ∧
        (∀ time, ∃ q'', rtEventRecv q' t (asked t).1 (asked t).2 time =
            some (q'', [.received t ((scanWaiters (L ++ t :: R) k set).1.thread t).eventSet]) ∧
          q''.set = (scanWaiters (L ++ [t]) k set).2.1) ∨
      ((scanWaiters (L ++ t :: R) k set).1.thread t).stat ≠ .ready ∧
        ∃ q'', rtEventRecv q' t (asked t).1 (asked t).2 0 = some (q'', [.failed t .etimeout]) ∧
          q''.set = (scanWaiters (L ++ [t]) k set).2.1) := by
  obtain ⟨before, here⟩ := waiters.split
  have idleL : Idle q L := fun u inside => idle u (List.mem_append_left _ inside)
  obtain ⟨done, q', es, called, agrees, frame⟩ := scan_agrees before same idleL
  have idle' : Idle q' (t :: R) := fun u inside => idle.frame frame u (List.mem_append_right L inside)
  have absent : t ∉ L := by
    intro inside
    exact (List.nodup_append.mp waiters.nodup).2.2 t inside t List.mem_cons_self rfl
  have absent' : t ∉ R := (List.nodup_cons.mp here.nodup).1
  have untouched := scan_away before absent
  have parked := here.suspended t List.mem_cons_self
  refine ⟨q', es, called, agrees, ?_⟩
  rw [scan_append done, scan_append done]
  rcases recv_agrees here agrees idle' with ⟨met, calls⟩ | ⟨missing, q'', failed, kept, _⟩
  · left
    simp only [scanWaiters, met]
    rw [scan_away (here.wake _) absent']
    obtain ⟨error, saved⟩ := wakeWaiter_saved (scanWaiters L k set).2.1 parked
    refine ⟨wakeWaiter_ready parked, by rw [error, untouched], fun time => ?_⟩
    obtain ⟨q'', received, cleared, _⟩ := calls time
    exact ⟨q'', by rw [received, saved], cleared⟩
  · right
    simp only [scanWaiters, missing]
    rw [scan_away here.tail absent', parked]
    exact ⟨by simp, q'', failed, kept⟩

/-- What a step does to a thread. -/
inductive Touch (s s' : State) (a : Action) (u : Tid) : Prop where
  | kept : (∀ bits option time, a ≠ .recv u bits option time) → s'.kernel.thread u = s.kernel.thread u →
      s'.waiting u = s.waiting u → Touch s s' a u
  | woken : (s.kernel.thread u).stat = .suspend → (s'.kernel.thread u).stat = .ready → Touch s s' a u
  | called {bits : BitVec 32} {option : BitVec 8} {time : Int} : a = .recv u bits option time →
      s.waiting u = false → (s'.waiting u = true → bits ≠ 0 ∧ (s'.kernel.thread u).eventSet = bits ∧
        (s'.kernel.thread u).eventInfo = option) → Touch s s' a u
  | returned : a = .wake u → s'.waiting u = false → Touch s s' a u

theorem block_threads {k' : Kernel} {flag : IpcFlag} (ready : (k.thread t).stat = .ready)
    (started : (k.rtIpcListSuspend (.wait 0) t flag).startWaitTimer t time = some k') :
    (∀ u, u ≠ t → k'.thread u = k.thread u) ∧ (k'.thread t).eventSet = (k.thread t).eventSet ∧
      (k'.thread t).eventInfo = (k.thread t).eventInfo := by
  obtain ⟨timer, rfl⟩ := startWaitTimer_some started
  refine ⟨?_, ?_⟩
  · intro u other
    simp [ipcSuspend_other ready flag other, other]
  · simp [ipcSuspend_self ready flag, Thread.parked]

theorem recv_others (taken : rtEventRecv s t bits option time = some (s', es)) (other : u ≠ t) :
    s'.kernel.thread u = s.kernel.thread u ∧ s'.waiting u = s.waiting u := by
  simp only [rtEventRecv] at taken
  split at taken
  · cases taken
  · rename_i enabled
    simp only [not_or, not_not] at enabled
    split at taken
    · cases Option.some.inj taken
      exact ⟨rfl, rfl⟩
    · split at taken
      · cases taken
      · cases Option.some.inj taken
        simp [fillInfo, other]
      · split at taken
        · cases Option.some.inj taken
          simp [other]
        · obtain ⟨k, started, done⟩ := Option.map_eq_some_iff.mp taken
          cases done
          have same := (block_threads (by simpa [fillInfo] using enabled.2) started).1 u other
          simp [same, fillInfo, other]

theorem recv_self (taken : rtEventRecv s t bits option time = some (s', es)) : s.waiting t = false ∧
    (s'.waiting t = true → bits ≠ 0 ∧ (s'.kernel.thread t).eventSet = bits ∧
      (s'.kernel.thread t).eventInfo = option) := by
  simp only [rtEventRecv] at taken
  split at taken
  · cases taken
  · rename_i enabled
    simp only [not_or, not_not, Bool.not_eq_true] at enabled
    obtain ⟨idle, ready⟩ := enabled
    refine ⟨idle, ?_⟩
    have never : s.waiting t ≠ true := by simp [idle]
    split at taken
    · cases Option.some.inj taken
      exact fun waits => absurd waits never
    · rename_i some_
      split at taken
      · cases taken
      · cases Option.some.inj taken
        exact fun waits => absurd waits never
      · split at taken
        · cases Option.some.inj taken
          exact fun waits => absurd waits never
        · obtain ⟨k, started, done⟩ := Option.map_eq_some_iff.mp taken
          cases done
          obtain ⟨sameSet, sameInfo⟩ := (block_threads (by simpa [fillInfo] using ready) started).2
          exact fun _ => ⟨some_, by simp [sameSet, fillInfo], by simp [sameInfo, fillInfo]⟩

theorem step_cases {a : Action} (inv : EventSet.Inv s) (taken : EventSet.step s a = some (s', es)) (u : Tid) :
    Touch s s' a u := by
  cases a with
  | send bits =>
    obtain ⟨waiting, _, others, each⟩ := send_spec inv (Option.some.inj taken)
    by_cases here : u ∈ s.kernel.list (.wait 0)
    · rcases each u here with ready | ⟨same, _⟩
      · exact .woken (inv.wait.suspended u here) ready
      · exact .kept (by simp) same (by rw [waiting])
    · exact .kept (by simp) (others u here) (by rw [waiting])
  | recv t bits option time =>
    by_cases here : u = t
    · subst here
      obtain ⟨idle, blocks⟩ := recv_self taken
      exact .called rfl idle blocks
    · obtain ⟨same, waiting⟩ := recv_others taken here
      refine .kept ?_ same waiting
      rintro bits option time called
      cases called
      exact here rfl
  | wake t =>
    simp only [EventSet.step, recvReturn] at taken
    split at taken
    · cases Option.some.inj taken
      by_cases here : u = t
      · subst here
        exact .returned rfl (Function.update_self ..)
      · exact .kept (by simp) rfl (Function.update_of_ne here ..)
    · cases taken
  | timeout t =>
    obtain ⟨k, expired, result⟩ := Option.map_eq_some_iff.mp taken
    cases result
    obtain ⟨_, suspended, self, others, _⟩ := timerExpire_some expired
    by_cases here : u = t
    · subst here
      exact .woken suspended (by rw [self]; rfl)
    · exact .kept (by simp) (others u here) rfl
  | reset =>
    obtain ⟨k, done, result⟩ := Option.map_eq_some_iff.mp taken
    cases result
    obtain ⟨k', done', _, _, _, woken, others, _⟩ := inv.wait.resumeAll inv.wait
    cases Option.some.inj (done.symm.trans done')
    by_cases here : u ∈ s.kernel.list (.wait 0)
    · exact .woken (inv.wait.suspended u here) (by rw [woken u here]; rfl)
    · exact .kept (by simp) (others u here) rfl

theorem step_inv {s s' : Asking} {a : Action} (inv : Inv s) (taken : step s a = some (s', es)) : Inv s' := by
  obtain ⟨⟨event, shown⟩, moved, result⟩ := Option.map_eq_some_iff.mp taken
  cases result
  have inv' := EventSet.step_inv inv.event moved
  refine ⟨inv', ?_⟩
  intro u here
  obtain ⟨waits, suspended⟩ := (inv'.wait.listed u).mp here
  simp only at suspended waits ⊢
  rcases step_cases inv.event moved u with ⟨other, same, waiting⟩ | ⟨_, ready⟩ | ⟨rfl, _, blocks⟩ | ⟨_, gone⟩
  · have listed : u ∈ s.event.kernel.list (.wait 0) :=
      (inv.event.wait.listed u).mpr ⟨waiting ▸ waits, same ▸ suspended⟩
    have noted : s.note a u = s.asked u := by
      cases a with
      | recv t bits option time =>
        refine Function.update_of_ne ?_ _ _
        rintro rfl
        exact other bits option time rfl
      | _ => rfl
    rw [noted, same]
    exact inv.asks u listed
  · rw [ready] at suspended
    cases suspended
  · obtain ⟨some_, sameSet, sameInfo⟩ := blocks waits
    simp only [Asking.note, Function.update_self]
    exact ⟨some_, sameSet, sameInfo⟩
  · rw [gone] at waits
    cases waits

theorem run_inv {s : Asking} {tr : List Event} (run : Run machine tr s) : Inv s := by
  refine run.always (I := Inv) ?_ (fun _ _ _ _ inv taken => step_inv inv taken)
  intro s start
  exact ⟨EventSet.start_inv start, by simp [Start.list start]⟩

theorem Woken.step {a : Action} (inv : EventSet.Inv s) (woken : Woken s t bits)
    (taken : EventSet.step s a = some (s', es)) (other : a ≠ .wake t) : Woken s' t bits := by
  rcases step_cases inv taken t with ⟨_, same, waiting⟩ | ⟨suspended, _⟩ | ⟨_, idle, _⟩ | ⟨returns, _⟩
  · exact ⟨by rw [waiting, woken.waiting], by rw [same, woken.ready], by rw [same, woken.error],
      by rw [same, woken.saved]⟩
  · rw [woken.ready] at suspended
    cases suspended
  · rw [woken.waiting] at idle
    cases idle
  · exact absurd returns other

theorem Woken.returns (woken : Woken s t bits) : ∃ s', recvReturn s t = some (s', [.received t bits]) := by
  refine ⟨{ s with waiting := Function.update s.waiting t false }, ?_⟩
  simp only [recvReturn]
  rw [if_pos ⟨woken.waiting, woken.ready⟩, if_pos woken.error, woken.saved]

theorem Woken.observes (inv : EventSet.Inv s) (woken : Woken s t bits) : Observes s t bits := by
  intro as r never done
  induction as generalizing s r with
  | nil =>
    cases Option.some.inj done
    exact woken.returns
  | cons a rest ih =>
    obtain ⟨other, never'⟩ := not_or.mp (mt List.mem_cons.mpr never)
    obtain ⟨⟨mid, shown⟩, taken, tail⟩ := Option.bind_eq_some_iff.mp done
    obtain ⟨last, finished, rfl⟩ := Option.map_eq_some_iff.mp tail
    exact ih (EventSet.step_inv inv taken) (woken.step inv taken (Ne.symm other)) last never' finished

theorem scan_idle (missing : ∀ t ∈ ws, Unsatisfied (k.thread t) set) : scanWaiters ws k set = (k, set, .eok) := by
  induction ws with
  | nil => rfl
  | cons t rest ih =>
    have first : satisfies (k.thread t).eventInfo (k.thread t).eventSet set = some false :=
      missing t List.mem_cons_self
    simp only [scanWaiters, first]
    exact ih fun u here => missing u (List.mem_cons_of_mem t here)

theorem send_waiting (s : State) (bits : BitVec 32) : (rtEventSend s bits).1.waiting = s.waiting := by
  unfold rtEventSend
  split <;> rfl

theorem send_scan (inv : EventSet.Inv s) (bits : BitVec 32) :
    (rtEventSend s bits).1.kernel = (scanWaiters (s.kernel.list (.wait 0)) s.kernel (s.set ||| bits)).1 ∧
      (rtEventSend s bits).1.set = setAt s bits (s.kernel.list (.wait 0)) := by
  unfold setAt rtEventSend
  split
  · rename_i nothing
    have same : s.set ||| bits = s.set := by
      rw [nothing]
      exact BitVec.or_zero
    rw [same, scan_idle inv.missing]
    exact ⟨rfl, rfl⟩
  · exact ⟨rfl, rfl⟩

theorem Inv.waiters {s : Asking} (inv : Inv s) (bits : BitVec 32) :
    Waiters s.asked s.event.kernel (s.event.set ||| bits) (s.event.kernel.list (.wait 0)) := by
  refine ⟨inv.event.wait.nodup, inv.event.wait.suspended, inv.asks, ?_⟩
  intro t here
  exact satisfies_valid (by rw [inv.event.missing t here]; simp)

/-- A send and the calls of rt_event_recv by its waiters, in their order, from the same set. -/
theorem event_paths_agree {s : Asking} {tr : List Event} (run : Run machine tr s) (bits : BitVec 32)
    (set : q.set = s.event.set ||| bits) (idle : Idle q (s.event.kernel.list (.wait 0))) :
    (∃ q' es, recvEach s.asked (s.event.kernel.list (.wait 0)) q = some (q', es) ∧
      (rtEventSend s.event bits).1.set = q'.set) ∧
    ∀ L t R, s.event.kernel.list (.wait 0) = L ++ t :: R →
      ∃ q' es, recvEach s.asked L q = some (q', es) ∧ Turn s bits L t q' := by
  have inv := run_inv run
  have waiters := inv.waiters bits
  obtain ⟨kernel, whole⟩ := send_scan inv.event bits
  constructor
  · obtain ⟨_, q', es, called, agrees, _⟩ := scan_agrees waiters set idle
    exact ⟨q', es, called, by rw [whole, agrees]; rfl⟩
  · intro L t R order
    have listed : t ∈ s.event.kernel.list (.wait 0) := by simp [order]
    have pending := inv.event.wait.pending t listed
    have sent : EventSet.Inv (rtEventSend s.event bits).1 := send_inv inv.event rfl
    have waits : (rtEventSend s.event bits).1.waiting t = true := by
      rw [send_waiting]
      exact ((inv.event.wait.listed t).mp listed).1
    rw [order] at waiters idle kernel
    obtain ⟨q', es, called, before, turn⟩ := scan_turn waiters set idle
    refine ⟨q', es, called, before, ?_, ?_⟩
    · intro ready
      rw [kernel] at ready
      rcases turn with ⟨_, error, calls⟩ | ⟨stays, _⟩
      · refine ⟨_, Woken.observes sent ⟨waits, ?_, ?_, rfl⟩, ?_⟩
        · rw [kernel, ready]
        · rw [kernel, error, pending]
        · rw [kernel]
          exact calls
      · exact absurd ready stays
    · intro stays
      rw [kernel] at stays
      rcases turn with ⟨ready, _⟩ | ⟨_, failed⟩
      · exact absurd ready stays
      · exact failed

/-- Threads 0, 1 and 2 wait for bit 0, for bits 1 and 2 with CLEAR, and for both of bits 0 and 1.
The second one takes bit 1, so that the third one is left. -/
theorem event_paths_agree_taken : ∃ tr s, Run machine tr s ∧ s.event.kernel.list (.wait 0) = [0, 1, 2] ∧
    (rtEventSend s.event 3).1.set = 1 ∧ (rtEventSend s.event 3).1.kernel.list (.wait 0) = [2] ∧
    ∃ q q' es, q.set = 3 ∧ recvEach s.asked [0, 1] q = some (q', es) ∧ Turn s 3 [0, 1] 2 q' := by
  have start : machine.start ⟨⟨startedThreads (fun _ => 10) 3, 0, .fifo, fun _ => false⟩, fun _ => (0, 0)⟩ :=
    ⟨rfl, by decide, fun _ => rfl⟩
  obtain ⟨tr, s, run, found⟩ := Run.reaches start
    [.recv 0 1 2 (-1), .recv 1 6 6 (-1), .recv 2 3 5 (-1)]
    (fun s => decide (s.event.kernel.list (.wait 0) = [0, 1, 2] ∧ s.event.set = 0 ∧
      (rtEventSend s.event 3).1.set = 1 ∧ (rtEventSend s.event 3).1.kernel.list (.wait 0) = [2])) (by decide)
  obtain ⟨order, nothing, left, list⟩ := of_decide_eq_true found
  let q : State := ⟨startedThreads (fun _ => 10) 3, 3, .fifo, fun _ => false⟩
  have idle : Idle q (s.event.kernel.list (.wait 0)) := by
    rw [order]
    exact fun t here => ⟨rfl, by revert t; decide⟩
  obtain ⟨_, turns⟩ := event_paths_agree run 3 (show q.set = s.event.set ||| 3 by rw [nothing]; rfl) idle
  obtain ⟨q', es, called, turn⟩ := turns [0, 1] 2 [] order
  exact ⟨tr, s, run, order, left, list, q, q', es, rfl, called, turn⟩

end RtThread.EventAgree
