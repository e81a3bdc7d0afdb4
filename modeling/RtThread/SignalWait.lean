import RtThread.Semaphore
import RtThread.Signal

/-! What rt_signal_wait of the thread `t` returns, against rt_thread_kill of any callers, the timer of the
thread and other resumes of it. Other IPC calls of the thread are seen by the thread->error they leave. -/
namespace RtThread.SignalWait
open Kernel Transition Signal

/-- sig_pending and si_list of the thread. -/
structure Signals where
  pending : BitVec 32
  list : List Siginfo
  deriving DecidableEq

def signals (s : State) : Signals := ⟨s.sigPending, s.siList⟩

/-- `entered` is a call of rt_signal_wait, with the signals then pending, and `elapsed` is
rt_thread_timeout; at `pending sig` rt_thread_kill has set the bit. -/
inductive Event where
  | entered (set : BitVec 32) (timeout : Int) (pending : BitVec 32)
  | pending (sig : Nat)
  | elapsed
  | returned (e : Err) (si : Option Siginfo) (before after : Signals)
  deriving DecidableEq

/-- `ipc e`: a call of the thread for another object has ended and has left `e` in thread->error.
`resume` is an rt_thread_resume from elsewhere. -/
inductive Action where
  | signal (a : Signal.Action)
  | ipc (e : Err)
  | resume

def returns (s s' : State) : Signal.Event → Option Event
  | .waited e si => some (.returned e si (signals s) (signals s'))
  | _ => none

def shown (s s' : State) (es : List Signal.Event) : Signal.Action → List Event
  | .append c true => (s.emitting c).toList.map .pending
  | .expire => [.elapsed]
  | .wait set _ timeout => .entered set timeout s.sigPending :: es.filterMap (returns s s')
  | .waitEnd => es.filterMap (returns s s')
  | _ => []

def step (t : Tid) (s : State) : Action → Option (State × List Event)
  | .signal a => (Signal.step t s a).map (fun r => (r.1, shown s r.1 r.2 a))
  | .ipc e =>
    if s.waiting = none ∧ (s.kernel.thread t).stat = .ready then
      some ({ s with kernel := s.kernel.modify t (fun th => { th with error := e }) }, [])
    else none
  | .resume => some ({ s with kernel := (s.kernel.rtThreadResume t).1 }, [])

/-- Nobody is inside a call; the earlier calls have left any kernel behind. -/
structure Start (s : State) : Prop where
  signal : Signal.Start s
  waiting : s.waiting = none

def machine (t : Tid) : Machine State Action Event where
  start := Start
  step := step t

inductive Fate where
  | undecided | signalled | elapsed
  deriving DecidableEq

/-- The last rt_signal_wait and what came first to it: a pending signal of its set, or the end of its
time, which a timeout of 0 has at once and RT_WAITING_FOREVER never. -/
structure Call where
  set : BitVec 32
  timeout : Int
  fate : Fate

def follow (call : Call) : Event → Call
  | .entered set timeout pending =>
    ⟨set, timeout, if pending &&& set ≠ 0 then .signalled else if timeout = 0 then .elapsed else .undecided⟩
  | .pending sig =>
    if call.fate = .undecided ∧ sigMask sig &&& call.set ≠ 0 then { call with fate := .signalled } else call
  | .elapsed => if call.fate = .undecided ∧ call.timeout ≠ -1 then { call with fate := .elapsed } else call
  | .returned _ _ _ _ => call

def lastCall (tr : List Event) : Call := tr.foldl follow ⟨0, 0, .undecided⟩

/-- The node of a pending signal of the set, which is copied to `si`, and its bit are taken away. -/
def Removed (set : BitVec 32) (si : Option Siginfo) (before after : Signals) : Prop :=
  ∃ node front back, si = some node ∧ sigMask node.siSigno &&& set ≠ 0 ∧
    sigMask node.siSigno &&& before.pending ≠ 0 ∧ before.list = front ++ node :: back ∧
    after = ⟨before.pending &&& ~~~sigMask node.siSigno, front ++ back⟩

/-- RT_EOK and -RT_ETIMEOUT are told as they are. -/
def Truthful (before : List Event) : Event → Prop
  | .returned .etimeout _ _ _ => (lastCall before).fate = .elapsed
  | .returned .eok si old new => Removed (lastCall before).set si old new
  | _ => True

/-- Where the thread is resumed in its rt_signal_wait, a signal of the set is pending. -/
def Due (t : Tid) (s : State) : Prop :=
  (s.kernel.thread t).stat = .suspend → ∀ set, s.waiting = some set → s.sigPending &&& set ≠ 0

/-- thread->error is no -RT_ETIMEOUT when rt_signal_wait suspends; the thread is resumed when a signal
of the set is pending, and its time ends while none is. And rt_thread_kill adds no second node. -/
def Guard (t : Tid) (s : State) : Action → Prop
  | .signal (.append c allocated) => Signal.Guard t s (.append c allocated)
  | .signal (.wait set _ timeout) =>
    s.sigPending &&& set = 0 → timeout ≠ 0 → (s.kernel.thread t).error ≠ .etimeout
  | .signal (.deliver _) => s.sigPending &&& s.sigMask ≠ 0 → Due t s
  | .signal .expire => ∀ set, s.waiting = some set → s.sigPending &&& set = 0
  | .resume => Due t s
  | _ => True

variable {t : Tid} {s s' : State} {tr es : List Event} {shown_ : List Signal.Event} {set : BitVec 32}

theorem lastCall_append : lastCall (tr ++ es) = es.foldl follow (lastCall tr) := List.foldl_append ..

theorem common_bit {a b : BitVec 32} :
    a &&& b ≠ 0 ↔ ∃ i, i < 32 ∧ a.getLsbD i = true ∧ b.getLsbD i = true := by
  constructor
  · intro common
    by_contra apart
    push Not at apart
    apply common
    apply BitVec.eq_of_getLsbD_eq
    intro i inside
    change (a &&& b).getLsbD i = (0#32).getLsbD i
    rw [BitVec.getLsbD_and, BitVec.getLsbD_zero, Bool.and_eq_false_iff]
    cases here : a.getLsbD i with
    | false => exact Or.inl rfl
    | true => exact Or.inr (Bool.eq_false_iff.mpr (apart i inside here))
  · rintro ⟨i, inside, left, right⟩ empty
    have here := congrArg (fun v => v.getLsbD i) empty
    simp [left, right] at here

theorem sigMask_inside {sig : Nat} (small : sig < 32) : sigMask sig &&& set ≠ 0 ↔ set.getLsbD sig = true := by
  have bit : ∀ i, i < 32 → (sigMask sig).getLsbD i = decide (i = sig) := by
    intro i inside
    simpa [sigMask] using mask_or 0#32 (p := sig) inside
  rw [common_bit]
  constructor
  · rintro ⟨i, inside, same, member⟩
    rw [bit i inside, decide_eq_true_eq] at same
    exact same ▸ member
  · intro member
    exact ⟨sig, small, by simp [bit sig small], member⟩

theorem takeMatched_found {siList : List Siginfo} {node : Siginfo} (member : node ∈ siList)
    (inside : sigMask node.siSigno &&& set ≠ 0) : ∃ found rest, takeMatched set siList = some (found, rest) := by
  induction siList with
  | nil => cases member
  | cons first others ih =>
    simp only [takeMatched]
    split
    · exact ⟨_, _, rfl⟩
    · rename_i outside
      rcases List.mem_cons.mp member with rfl | later
      · exact absurd inside outside
      · obtain ⟨found, rest, deeper⟩ := ih later
        exact ⟨found, first :: rest, by rw [deeper]; rfl⟩

theorem matched_due (listed : Listed s.sigPending s.siList) (due : s.sigPending &&& set ≠ 0) :
    ∃ node rest, takeMatched set s.siList = some (node, rest) := by
  obtain ⟨sig, small, pending, inside⟩ := common_bit.mp due
  obtain ⟨node, member, rfl⟩ := List.mem_map.mp ((listed.bits sig small).mp pending)
  exact takeMatched_found member ((sigMask_inside small).mpr inside)

theorem waitDone_removed (listed : Listed s.sigPending s.siList) (due : s.sigPending &&& set ≠ 0) :
    ∃ si s', waitDone s set = (s', [.waited .eok si]) ∧ Removed set si (signals s) (signals s') ∧
      Listed s'.sigPending s'.siList ∧ s'.emitting = s.emitting ∧ s'.waiting = s.waiting := by
  obtain ⟨node, rest, found⟩ := matched_due listed due
  obtain ⟨inside, front, back, whole, rfl⟩ := takeMatched_some found
  have small := listed.small node.siSigno (by simp [whole])
  have pending := (listed.bits _ small).mpr (by simp [whole])
  have left := listed
  rw [whole] at left
  refine ⟨some node, { s with
      siList := front ++ back, sigPending := s.sigPending &&& ~~~sigMask node.siSigno },
    by simp only [waitDone, found], ?_, left.take, rfl, rfl⟩
  exact ⟨node, front, back, rfl, inside, (sigMask_inside small).mpr pending, whole, rfl⟩

theorem waitDone_empty (listed : Listed s.sigPending s.siList) (none_ : s.sigPending &&& set = 0) :
    waitDone s set = (s, [.waited .eok none]) := by
  cases found : takeMatched set s.siList with
  | none => rw [waitDone, found]
  | some taken =>
    obtain ⟨inside, front, back, whole, _⟩ := takeMatched_some found
    have small := listed.small taken.1.siSigno (by simp [whole])
    have pending := (listed.bits _ small).mpr (by simp [whole])
    have both := congrArg (fun v => v.getLsbD taken.1.siSigno) none_
    simp [pending, (sigMask_inside small).mp inside] at both

theorem setStat_thread (f : BitVec 4 → BitVec 4) : (setStat t s f).kernel.thread t =
    { s.kernel.thread t with statSignal := f (s.kernel.thread t).statSignal } := by
  simp [setStat]

/-- The thread as it is when it gets to its rt_schedule. -/
theorem parks {timeout : Int} {k : Kernel} (ready : (s.kernel.thread t).stat = .ready)
    (started : (setStat t { s with kernel := (s.kernel.rtThreadSuspend t).1, waiting := some set }
      (· ||| rtThreadStatSignalWait)).kernel.startTimer t timeout = some k) :
    (k.thread t).stat = .suspend ∧ (k.thread t).error = (s.kernel.thread t).error ∧
      (k.thread t).statSignal &&& rtThreadStatSignalWait ≠ 0 ∧
      ((k.thread t).timer.activated = true → timeout ≠ -1) := by
  have flag : ∀ v : BitVec 4, (v ||| rtThreadStatSignalWait) &&& rtThreadStatSignalWait ≠ 0 := by decide
  have flagged : (k.thread t).statSignal = (s.kernel.thread t).statSignal ||| rtThreadStatSignalWait ∧
      (k.thread t).stat = .suspend ∧ (k.thread t).error = (s.kernel.thread t).error ∧
      ((k.thread t).timer.activated = true → timeout ≠ -1) := by
    simp only [startTimer] at started
    split at started
    · rename_i finite
      rw [rtTimerStart_some _ _ started]
      simp [rtTimerSetTime, setStat, suspend_ready s.kernel t ready, rtTimerStop, finite]
    · cases started
      simp [setStat, suspend_ready s.kernel t ready, rtTimerStop]
  obtain ⟨statSignal, stat, error, timer⟩ := flagged
  exact ⟨stat, error, statSignal ▸ flag _, timer⟩

theorem wait_cases {siNull : Bool} {timeout : Int}
    (taken : rtSignalWait t s set siNull timeout = some (s', shown_)) :
    s.waiting = none ∧ (s.kernel.thread t).stat = .ready ∧
    (s' = s ∧ shown_ = [.waited .einval none] ∨
      s.sigPending &&& set ≠ 0 ∧ waitDone s set = (s', shown_) ∨
      s.sigPending &&& set = 0 ∧ timeout = 0 ∧ s' = s ∧ shown_ = [.waited .etimeout none] ∨
      s.sigPending &&& set = 0 ∧ timeout ≠ 0 ∧ shown_ = [] ∧
        ∃ k, s' = { s with kernel := k, waiting := some set } ∧ (k.thread t).stat = .suspend ∧
          (k.thread t).error = (s.kernel.thread t).error ∧
          (k.thread t).statSignal &&& rtThreadStatSignalWait ≠ 0 ∧
          ((k.thread t).timer.activated = true → timeout ≠ -1)) := by
  simp only [rtSignalWait] at taken
  split at taken
  · contradiction
  · rename_i free
    simp only [not_or, not_not] at free
    refine ⟨free.1, free.2, ?_⟩
    split at taken
    · cases taken
      exact Or.inl ⟨rfl, rfl⟩
    · split at taken
      · rename_i due
        exact Or.inr (Or.inl ⟨due, Option.some.inj taken⟩)
      · rename_i none_
        split at taken
        · rename_i zero
          cases taken
          exact Or.inr (Or.inr (Or.inl ⟨not_not.mp none_, zero, rfl, rfl⟩))
        · rename_i timed
          obtain ⟨k, started, result⟩ := Option.map_eq_some_iff.mp taken
          cases result
          exact Or.inr (Or.inr (Or.inr ⟨not_not.mp none_, timed, rfl, k, rfl, parks free.2 started⟩))

structure Waits (t : Tid) (tr : List Event) (s : State) (set : BitVec 32) : Prop where
  entered : (lastCall tr).set = set
  flag : (s.kernel.thread t).statSignal &&& rtThreadStatSignalWait ≠ 0
  timed : (s.kernel.thread t).timer.activated = true → (lastCall tr).timeout ≠ -1
  suspended : (s.kernel.thread t).stat = .suspend → (s.kernel.thread t).error ≠ .etimeout ∧
    (lastCall tr).fate = if s.sigPending &&& set = 0 then .undecided else .signalled
  woken : (s.kernel.thread t).stat ≠ .suspend →
    if (s.kernel.thread t).error = .etimeout then (lastCall tr).fate = .elapsed else s.sigPending &&& set ≠ 0

structure Inv (t : Tid) (tr : List Event) (s : State) : Prop where
  listed : Listed s.sigPending s.siList
  emitting : ∀ c sig, s.emitting c = some sig → sig < 32
  waits : ∀ set, s.waiting = some set → Waits t tr s set
  truthful : Each Truthful tr

theorem start_inv (start : Start s) : Inv t [] s := by
  have signal := Signal.start_inv start.signal
  exact ⟨signal.listed, signal.emitting, by simp [start.waiting], .nil⟩

theorem Inv.quiet (inv : Inv t tr s) (listed : Listed s'.sigPending s'.siList)
    (emitting : s'.emitting = s.emitting)
    (waits : ∀ set, s'.waiting = some set → Waits t tr s' set) : Inv t (tr ++ []) s' := by
  rw [List.append_nil]
  exact ⟨listed, emitting ▸ inv.emitting, waits, inv.truthful⟩

theorem Waits.keep (waits : Waits t tr s set) (pending : s'.sigPending = s.sigPending) {v : BitVec 4}
    (thread : s'.kernel.thread t = { s.kernel.thread t with statSignal := v })
    (flag : v &&& rtThreadStatSignalWait = (s.kernel.thread t).statSignal &&& rtThreadStatSignalWait) :
    Waits t tr s' set := by
  refine ⟨waits.entered, ?_, ?_, ?_, ?_⟩
  · rw [thread, flag]
    exact waits.flag
  · rw [thread]
    exact waits.timed
  · rw [thread, pending]
    exact waits.suspended
  · rw [thread, pending]
    exact waits.woken

theorem Waits.wake (waits : Waits t tr s set) (pending : s'.sigPending = s.sigPending) {v : BitVec 4}
    (thread : s'.kernel.thread t = { (s.kernel.thread t).awake with statSignal := v })
    (flag : v &&& rtThreadStatSignalWait = (s.kernel.thread t).statSignal &&& rtThreadStatSignalWait)
    (suspended : (s.kernel.thread t).stat = .suspend) (due : s.sigPending &&& set ≠ 0) :
    Waits t tr s' set := by
  have clean := (waits.suspended suspended).1
  refine ⟨waits.entered, ?_, ?_, ?_, fun _ => ?_⟩
  · rw [thread, flag]
    exact waits.flag
  · simp [thread, Thread.awake]
  · simp [thread, Thread.awake]
  · rw [thread, pending]
    exact (if_neg clean).mpr due

theorem resume_inv (inv : Inv t tr s) (due : Due t s) :
    Inv t (tr ++ []) { s with kernel := (s.kernel.rtThreadResume t).1 } := by
  refine inv.quiet inv.listed rfl fun set waiting => ?_
  have waits := inv.waits set waiting
  by_cases suspended : (s.kernel.thread t).stat = .suspend
  · exact waits.wake rfl (resume_self suspended) rfl suspended (due suspended set waiting)
  · have same : (s.kernel.rtThreadResume t).1 = s.kernel := by simp [rtThreadResume, suspended]
    rw [same]
    exact waits

theorem deliver_inv {self : Bool} (inv : Inv t tr s) (due : s.sigPending &&& s.sigMask ≠ 0 → Due t s) :
    Inv t (tr ++ []) (signalDeliver t s self) := by
  have signal : ∀ v : BitVec 4, (v ||| rtThreadStatSignal) &&& rtThreadStatSignalWait =
      v &&& rtThreadStatSignalWait := by decide
  have both : ∀ v : BitVec 4, (v ||| (rtThreadStatSignal ||| rtThreadStatSignalPending)) &&&
      rtThreadStatSignalWait = v &&& rtThreadStatSignalWait := by decide
  have entry : ∀ v : BitVec 4, ((v ||| (rtThreadStatSignal ||| rtThreadStatSignalPending)) &&&
      ~~~rtThreadStatSignalPending) &&& rtThreadStatSignalWait = v &&& rtThreadStatSignalWait := by decide
  simp only [signalDeliver]
  split
  · exact inv.quiet inv.listed rfl inv.waits
  · rename_i open_
    split
    · rename_i suspended
      refine inv.quiet inv.listed rfl fun set waiting => ?_
      refine (inv.waits set waiting).wake rfl ?_ (both _) suspended (due open_ suspended set waiting)
      rw [setStat_thread, resume_self suspended]
      rfl
    · split
      · refine inv.quiet inv.listed rfl fun set waiting => ?_
        exact (inv.waits set waiting).keep rfl (setStat_thread _) (signal _)
      · split
        · refine inv.quiet inv.listed rfl fun set waiting => ?_
          exact (inv.waits set waiting).keep rfl (setStat_thread _) (entry _)
        · exact inv.quiet inv.listed rfl inv.waits

/-- While the thread waits, rt_thread_handle_sig handles nothing. -/
theorem handle_inv {cleanState : Bool} (inv : Inv t tr s)
    (taken : rtThreadHandleSig t s cleanState = (s', shown_)) : Inv t (tr ++ []) s' := by
  have signal : ∀ v : BitVec 4, (v &&& ~~~rtThreadStatSignal) &&& rtThreadStatSignalWait =
      v &&& rtThreadStatSignalWait := by decide
  simp only [rtThreadHandleSig] at taken
  split at taken
  · cases taken
    split
    · exact inv.quiet inv.listed rfl inv.waits
    · refine inv.quiet inv.listed rfl fun set waiting => ?_
      exact (inv.waits set waiting).keep rfl (setStat_thread _) (signal _)
  · rename_i entered
    simp only [not_or, not_not] at entered
    obtain ⟨listed, emitting, waiting⟩ := round_listed inv.listed taken
    refine inv.quiet listed emitting fun set inside => ?_
    exact absurd entered.2 (inv.waits set (waiting ▸ inside)).flag

theorem return_inv (inv : Inv t tr s) (taken : handlerReturn t s = some (s', shown_)) : Inv t (tr ++ []) s' := by
  simp only [handlerReturn] at taken
  split at taken
  · contradiction
  · rename_i free
    split at taken
    · contradiction
    · rename_i cleanState frames _
      obtain ⟨listed, emitting, waiting⟩ := round_listed (s := { s with
        kernel := s.kernel.modify t (fun th => { th with error := .eintr }), frames := frames })
        inv.listed (Option.some.inj taken)
      refine inv.quiet listed emitting fun set inside => ?_
      rw [waiting] at inside
      exact absurd (inside.symm.trans (not_not.mp free)) (by simp)

theorem kill_inv {c : Nat} {sig : Int} (inv : Inv t tr s) (taken : rtThreadKill s c sig = some (s', shown_)) :
    Inv t (tr ++ []) s' := by
  have kept : s'.waiting = s.waiting ∧ s'.sigPending = s.sigPending ∧ s'.kernel = s.kernel := by
    simp only [rtThreadKill] at taken
    split at taken
    · contradiction
    · split at taken
      · cases taken
        exact ⟨rfl, rfl, rfl⟩
      · split at taken <;> cases taken <;> exact ⟨rfl, rfl, rfl⟩
  obtain ⟨waiting, pending, kernel⟩ := kept
  have before : Signal.Inv [] s := ⟨inv.listed, inv.emitting, by simp⟩
  have signal := Signal.kill_inv before taken
  rw [List.append_nil]
  refine ⟨signal.listed, signal.emitting, fun set inside => ?_, inv.truthful⟩
  exact (inv.waits set (waiting ▸ inside)).keep pending (by rw [kernel]) rfl

theorem lastCall_pending (sig : Nat) : lastCall (tr ++ [.pending sig]) =
    if (lastCall tr).fate = .undecided ∧ sigMask sig &&& (lastCall tr).set ≠ 0 then
      { lastCall tr with fate := .signalled } else lastCall tr :=
  lastCall_append

theorem lastCall_elapsed : lastCall (tr ++ [.elapsed]) =
    if (lastCall tr).fate = .undecided ∧ (lastCall tr).timeout ≠ -1 then
      { lastCall tr with fate := .elapsed } else lastCall tr :=
  lastCall_append

theorem lastCall_entered (tr : List Event) (set : BitVec 32) (timeout : Int) (pending : BitVec 32) :
    lastCall (tr ++ [.entered set timeout pending]) = ⟨set, timeout,
      if pending &&& set ≠ 0 then .signalled else if timeout = 0 then .elapsed else .undecided⟩ :=
  lastCall_append

theorem or_common {a b c : BitVec 32} : (a ||| b) &&& c = 0 ↔ a &&& c = 0 ∧ b &&& c = 0 := by
  rw [← not_iff_not, not_and_or]
  change (a ||| b) &&& c ≠ 0 ↔ a &&& c ≠ 0 ∨ b &&& c ≠ 0
  simp only [common_bit, BitVec.getLsbD_or, Bool.or_eq_true]
  constructor
  · rintro ⟨i, inside, left | right, member⟩
    · exact Or.inl ⟨i, inside, left, member⟩
    · exact Or.inr ⟨i, inside, right, member⟩
  · rintro (⟨i, inside, left, member⟩ | ⟨i, inside, right, member⟩)
    · exact ⟨i, inside, Or.inl left, member⟩
    · exact ⟨i, inside, Or.inr right, member⟩

theorem Waits.pending {sig : Nat} (waits : Waits t tr s set) (kernel : s'.kernel = s.kernel)
    (pending : s'.sigPending = s.sigPending ||| sigMask sig) : Waits t (tr ++ [.pending sig]) s' set := by
  obtain ⟨entered, flag, timed, suspended, woken⟩ := waits
  have apart := or_common (a := s.sigPending) (b := sigMask sig) (c := set)
  refine ⟨?_, kernel ▸ flag, ?_, fun asleep => ?_, fun awake => ?_⟩
  · rw [lastCall_pending]
    split
    · exact entered
    · exact entered
  · rw [kernel, lastCall_pending]
    split
    · exact timed
    · exact timed
  · rw [kernel] at asleep ⊢
    obtain ⟨clean, told⟩ := suspended asleep
    refine ⟨clean, ?_⟩
    rw [lastCall_pending, entered, pending]
    by_cases before : s.sigPending &&& set = 0
    · rw [if_pos before] at told
      by_cases inside : sigMask sig &&& set = 0
      · rw [if_neg (fun both => both.2 inside), told, if_pos (apart.mpr ⟨before, inside⟩)]
      · rw [if_pos ⟨told, inside⟩, if_neg (fun none_ => inside (apart.mp none_).2)]
    · rw [if_neg before] at told
      rw [if_neg (by simp [told]), told, if_neg (fun none_ => before (apart.mp none_).1)]
  · rw [kernel] at awake ⊢
    have told := woken awake
    by_cases timedOut : (s.kernel.thread t).error = .etimeout
    · rw [if_pos timedOut] at told ⊢
      rw [lastCall_pending, if_neg (by simp [told]), told]
    · rw [if_neg timedOut] at told ⊢
      rw [pending]
      exact fun none_ => told (apart.mp none_).1

theorem append_inv {c : Nat} {allocated : Bool} (inv : Inv t tr s)
    (guard : Signal.Guard t s (.append c allocated)) (taken : killAppend s c allocated = some (s', shown_)) :
    Inv t (tr ++ shown s s' shown_ (.append c allocated)) s' := by
  have before : Signal.Inv [] s := ⟨inv.listed, inv.emitting, by simp⟩
  have signal := Signal.append_inv before guard taken
  obtain ⟨sig, emits, result⟩ := Option.map_eq_some_iff.mp taken
  cases result
  cases allocated with
  | false =>
    simp only [shown, List.append_nil]
    refine ⟨inv.listed, signal.emitting, fun set waiting => ?_, inv.truthful⟩
    exact (inv.waits set waiting).keep rfl rfl rfl
  | true =>
    simp only [shown, emits, Option.toList_some, List.map_cons, List.map_nil]
    refine ⟨signal.listed, signal.emitting, fun set waiting => ?_, each_snoc.mpr ⟨inv.truthful, trivial⟩⟩
    exact (inv.waits set waiting).pending rfl rfl

theorem expire_inv {k : Kernel} (inv : Inv t tr s)
    (quiet : ∀ set, s.waiting = some set → s.sigPending &&& set = 0)
    (expired : s.kernel.timerExpire t = some k) : Inv t (tr ++ [.elapsed]) { s with kernel := k } := by
  obtain ⟨active, suspended, self, _⟩ := timerExpire_some expired
  refine ⟨inv.listed, inv.emitting, fun set waiting => ?_, each_snoc.mpr ⟨inv.truthful, trivial⟩⟩
  obtain ⟨entered, flag, timed, told, _⟩ := inv.waits set waiting
  have undecided : (lastCall tr).fate = .undecided := by
    rw [(told suspended).2, if_pos (quiet set waiting)]
  have decided : lastCall (tr ++ [.elapsed]) = { lastCall tr with fate := .elapsed } := by
    rw [lastCall_elapsed, if_pos ⟨undecided, timed active⟩]
  refine ⟨by rw [decided]; exact entered, ?_, ?_, ?_, fun _ => ?_⟩
  · simpa [self, Thread.awake] using flag
  · simp [self, Thread.awake]
  · simp [self, Thread.awake]
  · simp [self, decided]

theorem wait_inv {siNull : Bool} {timeout : Int} (inv : Inv t tr s)
    (clean : s.sigPending &&& set = 0 → timeout ≠ 0 → (s.kernel.thread t).error ≠ .etimeout)
    (taken : rtSignalWait t s set siNull timeout = some (s', shown_)) :
    Inv t (tr ++ shown s s' shown_ (.wait set siNull timeout)) s' := by
  obtain ⟨free, ready, outcome⟩ := wait_cases taken
  have entered := lastCall_entered tr set timeout s.sigPending
  have called : Each Truthful (tr ++ [.entered set timeout s.sigPending]) := each_snoc.mpr ⟨inv.truthful, trivial⟩
  simp only [shown]
  rw [List.append_cons]
  obtain ⟨rfl, rfl⟩ | ⟨due, done⟩ | ⟨none_, rfl, rfl, rfl⟩ |
    ⟨none_, timed, rfl, k, rfl, stat, error, flag, finite⟩ := outcome
  · exact ⟨inv.listed, inv.emitting, by simp [free], each_snoc.mpr ⟨called, trivial⟩⟩
  · obtain ⟨si, after, removes, removed, listed, emitting, waiting⟩ := waitDone_removed inv.listed due
    cases removes.symm.trans done
    refine ⟨listed, emitting ▸ inv.emitting, by simp [waiting, free], each_snoc.mpr ⟨called, ?_⟩⟩
    simp only [Truthful, entered]
    exact removed
  · refine ⟨inv.listed, inv.emitting, by simp [free], each_snoc.mpr ⟨called, ?_⟩⟩
    simp only [Truthful, entered]
    rw [if_neg (not_not.mpr none_), if_pos trivial]
  · rw [List.filterMap_nil, List.append_nil]
    refine ⟨inv.listed, inv.emitting, ?_, called⟩
    rintro _ ⟨rfl⟩
    refine ⟨by rw [entered], flag, by rw [entered]; exact finite, fun _ => ⟨?_, ?_⟩, ?_⟩
    · rw [error]
      exact clean none_ timed
    · rw [entered, if_neg (not_not.mpr none_), if_neg timed, if_pos none_]
    · exact fun awake => absurd stat awake

theorem waitEnd_inv (inv : Inv t tr s) (taken : waitEnd t s = some (s', shown_)) :
    Inv t (tr ++ shown s s' shown_ .waitEnd) s' := by
  simp only [waitEnd] at taken
  split at taken
  · contradiction
  · rename_i ready
    obtain ⟨set, waiting, result⟩ := Option.map_eq_some_iff.mp taken
    have waits := inv.waits set waiting
    have told := waits.woken (by simp [not_not.mp ready])
    split at result
    · rename_i timedOut
      cases result
      refine ⟨inv.listed, inv.emitting, by simp [setStat], each_snoc.mpr ⟨inv.truthful, ?_⟩⟩
      rw [setStat_thread] at timedOut
      rwa [if_pos timedOut] at told
    · rename_i other
      rw [setStat_thread] at other
      rw [if_neg other] at told
      obtain ⟨si, after, removes, removed, listed, emitting, idle⟩ := waitDone_removed
        (s := setStat t { s with waiting := none } (· &&& ~~~rtThreadStatSignalWait)) inv.listed told
      cases removes.symm.trans result
      refine ⟨listed, emitting ▸ inv.emitting, by simp [idle, setStat], each_snoc.mpr ⟨inv.truthful, ?_⟩⟩
      simp only [Truthful, waits.entered]
      exact removed

theorem step_inv {a : Action} (inv : Inv t tr s) (guard : Guard t s a) (taken : step t s a = some (s', es)) :
    Inv t (tr ++ es) s' := by
  cases a with
  | resume =>
    cases taken
    exact resume_inv inv guard
  | ipc e =>
    simp only [step] at taken
    split at taken
    · rename_i idle
      cases taken
      exact inv.quiet inv.listed rfl (by simp [idle.1])
    · contradiction
  | signal a =>
    obtain ⟨⟨after, shown_⟩, acted, result⟩ := Option.map_eq_some_iff.mp taken
    cases result
    cases a with
    | kill c sig => exact kill_inv inv acted
    | append c allocated => exact append_inv inv guard acted
    | deliver self =>
      cases acted
      exact deliver_inv inv guard
    | mask signo | unmask signo =>
      cases acted
      exact inv.quiet inv.listed rfl fun set waiting => (inv.waits set waiting).keep rfl rfl rfl
    | install signo handler =>
      cases acted
      simp only [rtSignalInstall]
      split
      · exact inv.quiet inv.listed rfl fun set waiting => (inv.waits set waiting).keep rfl rfl rfl
      · exact inv.quiet inv.listed rfl inv.waits
    | wait set siNull timeout => exact wait_inv inv guard acted
    | expire =>
      obtain ⟨k, expired, result⟩ := Option.map_eq_some_iff.mp acted
      cases result
      exact expire_inv inv guard expired
    | waitEnd => exact waitEnd_inv inv acted
    | handle cleanState => exact handle_inv inv (Option.some.inj acted)
    | handled => exact return_inv inv acted

theorem run_inv (run : RunWhere (machine t) (Guard t) tr s) : Inv t tr s :=
  run.invariant (I := Inv t) (fun _ start => start_inv start)
    (fun _ _ _ _ _ _ inv guard taken => step_inv inv guard taken)

/-- While the error is clean at each suspension and each wake-up is due. -/
theorem wait_truthful (run : RunWhere (machine t) (Guard t) tr s) : Each Truthful tr := (run_inv run).truthful

/-- What the end of rt_signal_wait tells comes from thread->error alone. -/
theorem waitEnd_told (waiting : s.waiting = some set) (ready : (s.kernel.thread t).stat = .ready)
    (listed : Listed s.sigPending s.siList) :
    ((s.kernel.thread t).error = .etimeout → ∃ s' old new, step t s (.signal .waitEnd) =
      some (s', [.returned .etimeout none old new])) ∧
    ((s.kernel.thread t).error ≠ .etimeout → s.sigPending &&& set = 0 → ∃ s' old new,
      step t s (.signal .waitEnd) = some (s', [.returned .eok none old new])) := by
  constructor
  · intro timedOut
    simp [step, Signal.step, waitEnd, ready, waiting, setStat_thread, timedOut, shown, returns]
  · intro other none_
    have empty := waitDone_empty (s := setStat t { s with waiting := none } (· &&& ~~~rtThreadStatSignalWait))
      listed none_
    simp [step, Signal.step, waitEnd, ready, waiting, setStat_thread, other, empty, shown, returns]

theorem resume_tells_eok (inv : Inv t tr s) (waiting : s.waiting = some set)
    (suspended : (s.kernel.thread t).stat = .suspend) (none_ : s.sigPending &&& set = 0) :
    ∃ s' old new, (machine t).exec s [.resume, .signal .waitEnd] = some (s', [.returned .eok none old new]) ∧
      ¬ Each Truthful (tr ++ [.returned .eok none old new]) := by
  have self := resume_self suspended
  have clean := ((inv.waits set waiting).suspended suspended).1
  obtain ⟨s', old, new, ended⟩ := (waitEnd_told (t := t)
    (s := { s with kernel := (s.kernel.rtThreadResume t).1 }) waiting (by rw [self]; rfl) inv.listed).2
    (by rw [self]; exact clean) none_
  refine ⟨s', old, new, ?_, fun each => ?_⟩
  · simp only [Machine.exec, machine]
    rw [show step t s .resume = some ({ s with kernel := (s.kernel.rtThreadResume t).1 }, []) from rfl,
      Option.bind_some, ended]
    rfl
  · obtain ⟨node, _, _, found, _⟩ := (each_snoc.mp each).2
    cases found

/-- The end of the time hides a signal of the set that is pending and has not been delivered. -/
theorem expire_tells_timeout {k : Kernel} (inv : Inv t tr s) (waiting : s.waiting = some set)
    (expired : s.kernel.timerExpire t = some k) (due : s.sigPending &&& set ≠ 0) :
    ∃ s' old new, (machine t).exec s [.signal .expire, .signal .waitEnd] =
        some (s', [.elapsed, .returned .etimeout none old new]) ∧
      ¬ Each Truthful (tr ++ [.elapsed] ++ [.returned .etimeout none old new]) := by
  obtain ⟨_, suspended, self, _⟩ := timerExpire_some expired
  obtain ⟨s', old, new, ended⟩ := (waitEnd_told (t := t) (s := { s with kernel := k }) waiting
    (by rw [self]; rfl) inv.listed).1 (by rw [self])
  refine ⟨s', old, new, ?_, fun each => ?_⟩
  · simp only [Machine.exec, machine]
    rw [show step t s (.signal .expire) = some ({ s with kernel := k }, [.elapsed]) by
      simp [step, Signal.step, expired, shown], Option.bind_some, ended]
    rfl
  · have told := (each_snoc.mp each).2
    have signalled := ((inv.waits set waiting).suspended suspended).2
    rw [if_neg due] at signalled
    simp [Truthful, lastCall_elapsed, signalled] at told

def guardChecked (t : Tid) (s : State) : Action → Bool
  | .signal (.append c allocated) => Signal.guardChecked s (.append c allocated)
  | .signal (.wait _ _ _) => decide ((s.kernel.thread t).error ≠ .etimeout)
  | .signal (.deliver _) | .resume => s.waiting.all (fun set => decide (s.sigPending &&& set ≠ 0))
  | .signal .expire => s.waiting.all (fun set => decide (s.sigPending &&& set = 0))
  | _ => true

theorem guardChecked_sound {a : Action} (checked : guardChecked t s a = true) : Guard t s a := by
  cases a with
  | ipc e => trivial
  | resume =>
    intro _ set waiting
    simpa [guardChecked, waiting] using checked
  | signal a =>
    cases a with
    | append c allocated => exact Signal.guardChecked_sound (t := t) s (.append c allocated) checked
    | wait set siNull timeout => exact fun _ _ => of_decide_eq_true checked
    | deliver self =>
      intro _ _ set waiting
      simpa [guardChecked, waiting] using checked
    | expire =>
      intro set waiting
      simpa [guardChecked, waiting] using checked
    | _ => trivial

/-- After earlier calls that have left the kernel `k`. -/
def booted (k : Kernel) : State := { startState with kernel := k }

theorem booted_start (k : Kernel) : Start (booted k) := ⟨⟨rfl, rfl, fun _ => rfl⟩, rfl⟩

def truthfulTrace : List Event :=
  [.entered (1#32 <<< 7) 5 0, .elapsed, .returned .etimeout none ⟨0, []⟩ ⟨0, []⟩,
    .entered (1#32 <<< 7) 5 0, .pending 7,
    .returned .eok (some ⟨7, siUser, 0⟩) ⟨1#32 <<< 7, [⟨7, siUser, 0⟩]⟩ ⟨0, []⟩]

/-- A wait that times out and one that gets its signal. -/
theorem wait_truthful_both : ∃ s, Each Truthful truthfulTrace ∧ Run (machine 1) truthfulTrace s := by
  obtain ⟨s, run, _⟩ := Run.shows (M := (machine 1).restrict (guardChecked 1)) (booted_start startState.kernel)
    [.signal (.unmask 7), .signal (.wait (1#32 <<< 7) false 5), .signal .expire, .signal .waitEnd,
      .signal (.wait (1#32 <<< 7) false 5), .signal (.kill 0 7), .signal (.append 0 true),
      .signal (.deliver false), .signal .waitEnd]
    truthfulTrace (fun _ => true) (by decide +kernel)
  have guarded := RunWhere.ofRestrict (fun _ _ _ _ => guardChecked_sound) run
  exact ⟨s, wait_truthful guarded, guarded.run⟩

def staleTrace : List Event :=
  [.entered (1#32 <<< 7) (-1) 0, .pending 7,
    .returned .etimeout none ⟨1#32 <<< 7, [⟨7, siUser, 0⟩]⟩ ⟨1#32 <<< 7, [⟨7, siUser, 0⟩]⟩]

def staleCalls : List Action :=
  [.signal (.unmask 7), .signal (.wait (1#32 <<< 7) false (-1)), .signal (.kill 0 7), .signal (.append 0 true),
    .signal (.deliver false), .signal .waitEnd]

/-- A rt_sem_take of the thread has timed out; its rt_signal_wait forever then gets the signal, and
returns -RT_ETIMEOUT. -/
theorem wait_reports_stale : ∃ q s, Run (Semaphore.machine 0) [.returned 1 .etimeout] q ∧
    (machine 1).exec (booted q.kernel) staleCalls = some (s, staleTrace) ∧
    Start (booted q.kernel) ∧ ¬ Each Truthful staleTrace := by
  have start : Semaphore.Start 0 ⟨startState.kernel, 0, .fifo, fun _ => false⟩ :=
    ⟨rfl, by decide, by decide, fun _ => rfl⟩
  obtain ⟨q, timedOut, found⟩ := Run.shows (M := Semaphore.machine 0) start [.take 1 5, .timeout 1, .wake 1]
    [.returned 1 .etimeout] (fun q => ((machine 1).exec (booted q.kernel) staleCalls).any
      (fun r : State × List Event => decide (r.2 = staleTrace))) (by decide +kernel)
  obtain ⟨⟨s, trace⟩, done, same⟩ := (Option.any_eq_true _ _).mp found
  cases of_decide_eq_true same
  refine ⟨q, s, timedOut, done, booted_start _, fun each => ?_⟩
  have ended : Each Truthful ([Event.entered (1#32 <<< 7) (-1) 0, .pending 7] ++ [_]) := each
  have told : (lastCall [Event.entered (1#32 <<< 7) (-1) 0, .pending 7]).fate = .elapsed := (each_snoc.mp ended).2
  exact absurd told (by decide)

end RtThread.SignalWait
