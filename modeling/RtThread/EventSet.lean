import RtThread.Run
import RtThread.Wait

/-! Event sets: rt_event_send, rt_event_recv and rt_event_control over every order of
their interrupt-disabled sections. A send walks the wait list once, and a waiter that
asked for RT_EVENT_FLAG_CLEAR takes its bits away from the waiters behind it. -/
namespace RtThread.EventSet
open Kernel Transition

def rtEventFlagAnd : BitVec 8 := 0x01
def rtEventFlagOr : BitVec 8 := 0x02
def rtEventFlagClear : BitVec 8 := 0x04

/-- One event, its wait list being `.wait 0`. `waiting t`: thread `t` is in the
rt_schedule call of rt_event_recv. -/
structure State where
  kernel : Kernel
  set : BitVec 32
  flag : IpcFlag
  waiting : Tid → Bool

/-- `received t bits` is a receive that returns RT_EOK with `*recved = bits`. -/
inductive Event where
  | sent (bits : BitVec 32) (e : Err)
  | received (t : Tid) (bits : BitVec 32)
  | failed (t : Tid) (e : Err)
  | reset

inductive Action where
  | send (bits : BitVec 32)
  | recv (t : Tid) (bits : BitVec 32) (option : BitVec 8) (timeout : Int)
  | wake (t : Tid)
  | timeout (t : Tid)
  | reset

/-- The test both calls make: do the bits `set` of the event satisfy a thread that
asks for `bits` with `option`. `none` if it asks for neither AND nor OR. -/
def satisfies (option : BitVec 8) (bits set : BitVec 32) : Option Bool :=
  if option &&& rtEventFlagAnd ≠ 0 then some (bits &&& set = bits)
  else if option &&& rtEventFlagOr ≠ 0 then some (bits &&& set ≠ 0)
  else none

def clearBits (option : BitVec 8) (bits set : BitVec 32) : BitVec 32 :=
  if option &&& rtEventFlagClear ≠ 0 then set &&& ~~~ bits else set

/-- The bits a waiter is woken with: an OR waiter keeps only those it has got. -/
def savedBits (th : Thread) (set : BitVec 32) : BitVec 32 :=
  if th.eventInfo &&& rtEventFlagAnd ≠ 0 then th.eventSet else th.eventSet &&& set

def wakeWaiter (k : Kernel) (t : Tid) (set : BitVec 32) : Kernel :=
  ((k.modify t (fun th => { th with eventSet := savedBits th set })).rtThreadResume t).1

/-- The loop of rt_event_send over the rest of the wait list, with the event's set
passed along. The thread met is unlinked after the next node has been read. -/
def scanWaiters : List Tid → Kernel → BitVec 32 → Kernel × BitVec 32 × Err
  | [], k, set => (k, set, .eok)
  | t :: rest, k, set =>
    let th := k.thread t
    match satisfies th.eventInfo th.eventSet set with
    | none => (k, set, .einval)
    | some false => scanWaiters rest k set
    | some true =>
      scanWaiters rest (wakeWaiter k t set) (clearBits th.eventInfo (savedBits th set) set)

def rtEventSend (s : State) (bits : BitVec 32) : State × List Event :=
  if bits = 0 then (s, [.sent bits .error])
  else
    let r := scanWaiters (s.kernel.list (.wait 0)) s.kernel (s.set ||| bits)
    ({ s with kernel := r.1, set := r.2.1 }, [.sent bits r.2.2])

def fillInfo (k : Kernel) (t : Tid) (bits : BitVec 32) (option : BitVec 8) : Kernel :=
  k.modify t (fun th => { th with eventSet := bits, eventInfo := option })

def rtEventRecv (s : State) (t : Tid) (bits : BitVec 32) (option : BitVec 8) (timeout : Int) :
    Option (State × List Event) :=
  if s.waiting t ∨ (s.kernel.thread t).stat ≠ .ready then none
  else if bits = 0 then some (s, [.failed t .error])
  else
    let k := s.kernel.modify t (fun th => { th with error := .eok })
    match satisfies option bits s.set with
    | none => none
    | some true =>
      some ({ s with
        kernel := fillInfo k t (s.set &&& bits) option, set := clearBits option bits s.set },
        [.received t (s.set &&& bits)])
    | some false =>
      if timeout = 0 then
        some ({ s with kernel := k.modify t (fun th => { th with error := .etimeout }) },
          [.failed t .etimeout])
      else
        (((fillInfo k t bits option).rtIpcListSuspend (.wait 0) t s.flag).startWaitTimer t timeout).map
          (fun k => ({ s with kernel := k, waiting := Function.update s.waiting t true }, []))

/-- The end of rt_event_recv after rt_schedule has come back to the caller. -/
def recvReturn (s : State) (t : Tid) : Option (State × List Event) :=
  if s.waiting t ∧ (s.kernel.thread t).stat = .ready then
    let th := s.kernel.thread t
    some ({ s with waiting := Function.update s.waiting t false },
      [if th.error = .eok then .received t th.eventSet else .failed t th.error])
  else none

/-- rt_event_control with RT_IPC_CMD_RESET. -/
def rtEventReset (s : State) : Option (State × List Event) :=
  (s.kernel.rtIpcListResumeAll (.wait 0)).map (fun k => ({ s with kernel := k, set := 0 }, [.reset]))

def step (s : State) : Action → Option (State × List Event)
  | .send bits => some (rtEventSend s bits)
  | .recv t bits option timeout => rtEventRecv s t bits option timeout
  | .wake t => recvReturn s t
  | .timeout t => (s.kernel.timerExpire t).map (fun k => ({ s with kernel := k }, []))
  | .reset => rtEventReset s

/-- After rt_event_init, with no thread inside a call. -/
structure Start (s : State) : Prop where
  set : s.set = 0
  list : s.kernel.list (.wait 0) = []
  idle : ∀ t, s.waiting t = false

def machine : Machine State Action Event where
  start := Start
  step := step

/-- The waiting condition of a thread is one of the two, and is not met by `set`. -/
def Unsatisfied (th : Thread) (set : BitVec 32) : Prop :=
  satisfies th.eventInfo th.eventSet set = some false

structure Inv (s : State) : Prop where
  wait : WaitInv s.kernel 0 (fun t => s.waiting t = true)
  missing : ∀ t ∈ s.kernel.list (.wait 0), Unsatisfied (s.kernel.thread t) s.set

def Within (small big : BitVec 32) : Prop := small &&& big = small

theorem within_refl (set : BitVec 32) : Within set set := BitVec.and_self

theorem within_trans {a b c : BitVec 32} (first : Within a b) (second : Within b c) : Within a c := by
  unfold Within at *
  rw [← first, BitVec.and_assoc, second]

theorem clearBits_within (option : BitVec 8) (bits set : BitVec 32) :
    Within (clearBits option bits set) set := by
  unfold clearBits
  split
  · rw [Within, BitVec.and_comm, ← BitVec.and_assoc, BitVec.and_self]
  · exact within_refl set

theorem unsatisfied_within {th : Thread} {small big : BitVec 32} (within : Within small big)
    (missing : Unsatisfied th big) : Unsatisfied th small := by
  unfold Unsatisfied satisfies at *
  split at missing
  · rename_i all
    rw [if_pos all]
    simp only [Option.some.injEq, decide_eq_false_iff_not] at missing ⊢
    intro met
    apply missing
    calc th.eventSet &&& big = th.eventSet &&& small &&& big := by rw [met]
      _ = th.eventSet &&& small := by rw [BitVec.and_assoc, within]
      _ = th.eventSet := met
  · rename_i some
    rw [if_neg some]
    split at missing
    · rename_i any
      rw [if_pos any]
      simp only [Option.some.injEq, decide_eq_false_iff_not, not_not, ne_eq] at missing ⊢
      calc th.eventSet &&& small = th.eventSet &&& big &&& small := by
            rw [BitVec.and_assoc, BitVec.and_comm big, within]
        _ = 0 := by simp [missing]
    · cases missing

variable {k : Kernel} {set : BitVec 32} {s s' : State} {es : List Event} {t : Tid}

theorem satisfies_valid {option : BitVec 8} {bits old new : BitVec 32}
    (valid : satisfies option bits old ≠ none) : satisfies option bits new ≠ none := by
  unfold satisfies at *
  split
  · simp
  · split
    · simp
    · simp_all

theorem wakeWaiter_other {u : Tid} (suspended : (k.thread t).stat = .suspend) (other : u ≠ t) :
    (wakeWaiter k t set).thread u = k.thread u := by
  have parked : ((k.modify t (fun th => { th with eventSet := savedBits th set })).thread t).stat =
      .suspend := by simpa using suspended
  simp [wakeWaiter, resume_other parked other, other]

theorem wakeWaiter_ready (suspended : (k.thread t).stat = .suspend) :
    ((wakeWaiter k t set).thread t).stat = .ready := by
  have parked : ((k.modify t (fun th => { th with eventSet := savedBits th set })).thread t).stat =
      .suspend := by simpa using suspended
  simp [wakeWaiter, resume_self parked, Thread.awake]

theorem wakeWaiter_wait {W : Tid → Prop} (inv : WaitInv k 0 W)
    (suspended : (k.thread t).stat = .suspend) : WaitInv (wakeWaiter k t set) 0 W := by
  have saved : WaitInv (k.modify t (fun th => { th with eventSet := savedBits th set })) 0 W :=
    inv.modify rfl (inv.pending t)
  exact saved.resume (by simpa using suspended)

/-- One walk over the waiters `ws`: the set only shrinks, and each of them is woken or
is left as it was, unsatisfied by the set at the end. -/
theorem scan_spec {W : Tid → Prop} (ws : List Tid) (k : Kernel) (set : BitVec 32)
    (inv : WaitInv k 0 W) (nodup : ws.Nodup) (suspended : ∀ t ∈ ws, (k.thread t).stat = .suspend)
    (valid : ∀ t ∈ ws, satisfies (k.thread t).eventInfo (k.thread t).eventSet set ≠ none) :
    let r := scanWaiters ws k set
    r.2.2 = .eok ∧ WaitInv r.1 0 W ∧ Within r.2.1 set ∧
      (∀ u, u ∉ ws → r.1.thread u = k.thread u) ∧
      ∀ u ∈ ws, (r.1.thread u).stat = .ready ∨
        r.1.thread u = k.thread u ∧ Unsatisfied (k.thread u) r.2.1 := by
  induction ws generalizing k set with
  | nil => exact ⟨rfl, inv, within_refl set, fun _ _ => rfl, by simp⟩
  | cons t rest ih =>
    obtain ⟨absent, nodup'⟩ := List.nodup_cons.mp nodup
    have distinct : ∀ u ∈ rest, u ≠ t := by rintro u here rfl; exact absent here
    have restSuspended : ∀ u ∈ rest, (k.thread u).stat = .suspend :=
      fun u here => suspended u (List.mem_cons_of_mem t here)
    cases met : satisfies (k.thread t).eventInfo (k.thread t).eventSet set with
    | none => exact absurd met (valid t List.mem_cons_self)
    | some found =>
      cases found with
      | false =>
        obtain ⟨done, wait, within, others, each⟩ := ih k set inv nodup' restSuspended
          (fun u here => valid u (List.mem_cons_of_mem t here))
        simp only [scanWaiters, met]
        refine ⟨done, wait, within, fun u away => others u (fun h => away (List.mem_cons_of_mem t h)), ?_⟩
        intro u here
        rcases List.mem_cons.mp here with rfl | tail
        · exact Or.inr ⟨others u absent, unsatisfied_within within met⟩
        · exact each u tail
      | true =>
        have parked := suspended t List.mem_cons_self
        have same : ∀ u ∈ rest, (wakeWaiter k t set).thread u = k.thread u :=
          fun u here => wakeWaiter_other parked (distinct u here)
        have shrunk := clearBits_within (k.thread t).eventInfo (savedBits (k.thread t) set) set
        obtain ⟨done, wait, within, others, each⟩ := ih (wakeWaiter k t set)
          (clearBits (k.thread t).eventInfo (savedBits (k.thread t) set) set)
          (wakeWaiter_wait inv parked) nodup' (fun u here => by rw [same u here]; exact restSuspended u here)
          (fun u here => by
            rw [same u here]
            exact satisfies_valid (valid u (List.mem_cons_of_mem t here)))
        simp only [scanWaiters, met]
        refine ⟨done, wait, within_trans within shrunk, ?_, ?_⟩
        · intro u away
          simp only [List.mem_cons, not_or] at away
          rw [others u away.2, wakeWaiter_other parked away.1]
        · intro u here
          rcases List.mem_cons.mp here with rfl | tail
          · left
            rw [others u absent]
            exact wakeWaiter_ready parked
          · simpa only [same u tail] using each u tail

theorem start_inv (start : Start s) : Inv s := by
  refine ⟨⟨by simp [start.list], ?_, by simp [start.list], ?_⟩, by simp [start.list]⟩
  · intro t; simp [start.list, start.idle]
  · intro t h; simp [start.idle] at h

theorem send_spec {bits : BitVec 32} (inv : Inv s) (taken : rtEventSend s bits = (s', es)) :
    s'.waiting = s.waiting ∧ WaitInv s'.kernel 0 (fun t => s'.waiting t = true) ∧
      (∀ u, u ∉ s.kernel.list (.wait 0) → s'.kernel.thread u = s.kernel.thread u) ∧
      ∀ u ∈ s.kernel.list (.wait 0), (s'.kernel.thread u).stat = .ready ∨
        s'.kernel.thread u = s.kernel.thread u ∧ Unsatisfied (s.kernel.thread u) s'.set := by
  simp only [rtEventSend] at taken
  split at taken
  · cases taken
    exact ⟨rfl, inv.wait, fun _ _ => rfl, fun u here => Or.inr ⟨rfl, inv.missing u here⟩⟩
  · cases taken
    have valid : ∀ t ∈ s.kernel.list (.wait 0),
        satisfies (s.kernel.thread t).eventInfo (s.kernel.thread t).eventSet (s.set ||| bits) ≠ none := by
      intro t here
      exact satisfies_valid (by rw [inv.missing t here]; simp)
    obtain ⟨_, wait, _, others, each⟩ := scan_spec (s.kernel.list (.wait 0)) s.kernel (s.set ||| bits)
      inv.wait inv.wait.nodup inv.wait.suspended valid
    exact ⟨rfl, wait, others, each⟩

theorem send_inv {bits : BitVec 32} (inv : Inv s) (taken : rtEventSend s bits = (s', es)) : Inv s' := by
  obtain ⟨same, wait, others, each⟩ := send_spec inv taken
  refine ⟨wait, ?_⟩
  intro t here
  obtain ⟨waits, suspended⟩ := (wait.listed t).mp here
  have listed : t ∈ s.kernel.list (.wait 0) := by
    by_contra away
    rw [others t away] at suspended
    exact away ((inv.wait.listed t).mpr ⟨same ▸ waits, suspended⟩)
  rcases each t listed with ready | ⟨same, missing⟩
  · rw [suspended] at ready
    cases ready
  · rw [← same] at missing
    exact missing

theorem Inv.shrink (inv : Inv s) (wait : WaitInv s'.kernel 0 (fun t => s'.waiting t = true))
    (within : Within s'.set s.set)
    (same : ∀ t ∈ s'.kernel.list (.wait 0), t ∈ s.kernel.list (.wait 0) ∧
      s'.kernel.thread t = s.kernel.thread t) : Inv s' := by
  refine ⟨wait, fun t here => ?_⟩
  obtain ⟨listed, thread⟩ := same t here
  rw [thread]
  exact unsatisfied_within within (inv.missing t listed)

theorem fillInfo_wait {W : Tid → Prop} (t : Tid) (bits : BitVec 32) (option : BitVec 8)
    (inv : WaitInv k 0 W) : WaitInv (fillInfo k t bits option) 0 W := inv.modify rfl (inv.pending t)

theorem block_inv {bits : BitVec 32} {option : BitVec 8} {timeout : Int} {k : Kernel} (inv : Inv s)
    (ready : (s.kernel.thread t).stat = .ready)
    (cleared : WaitInv (s.kernel.modify t (fun th => { th with error := .eok })) 0
      (fun t => s.waiting t = true))
    (missing : satisfies option bits s.set = some false)
    (started : ((fillInfo (s.kernel.modify t (fun th => { th with error := .eok })) t bits
      option).rtIpcListSuspend (.wait 0) t s.flag).startWaitTimer t timeout = some k) :
    Inv { s with kernel := k, waiting := Function.update s.waiting t true } := by
  have filled := fillInfo_wait t bits option cleared
  have readyFilled : ((fillInfo (s.kernel.modify t (fun th => { th with error := .eok })) t bits
      option).thread t).stat = .ready := by simpa [fillInfo] using ready
  obtain ⟨wait, _, others⟩ := filled.blockReady readyFilled (by simp [fillInfo]) started
  refine ⟨wait.congr ?_, ?_⟩
  · intro u
    by_cases hu : u = t <;> simp [hu]
  · intro u here
    obtain ⟨waits, suspended⟩ := (wait.listed u).mp here
    by_cases hu : u = t
    · subst hu
      obtain ⟨timer, result⟩ := startWaitTimer_some started
      have parked := ipcSuspend_self (o := 0) readyFilled s.flag
      have request : (k.thread u).eventInfo = option ∧ (k.thread u).eventSet = bits := by
        rw [result, modify_self, parked]
        simp [Thread.parked, fillInfo]
      simpa [Unsatisfied, request] using missing
    · have same : k.thread u = s.kernel.thread u := by simp [others u hu, fillInfo, hu]
      simp only [same] at suspended ⊢
      exact inv.missing u ((inv.wait.listed u).mpr ⟨waits.resolve_left hu, suspended⟩)

theorem recv_inv {bits : BitVec 32} {option : BitVec 8} {timeout : Int} (inv : Inv s)
    (taken : rtEventRecv s t bits option timeout = some (s', es)) : Inv s' := by
  simp only [rtEventRecv] at taken
  split at taken
  · contradiction
  · rename_i enabled
    simp only [not_or, not_not, Bool.not_eq_true] at enabled
    obtain ⟨idle, ready⟩ := enabled
    have away : t ∉ s.kernel.list (.wait 0) := inv.wait.absent ready
    have distinct : ∀ u ∈ s.kernel.list (.wait 0), u ≠ t := by rintro u here rfl; exact away here
    have cleared : WaitInv (s.kernel.modify t (fun th => { th with error := .eok })) 0
        (fun t => s.waiting t = true) := inv.wait.modify rfl (fun _ => rfl)
    split at taken
    · cases Option.some.inj taken
      exact inv
    · split at taken
      · contradiction
      · cases Option.some.inj taken
        refine inv.shrink (fillInfo_wait t _ _ cleared) (clearBits_within option bits s.set) ?_
        intro u here
        exact ⟨here, by simp [fillInfo, distinct u here]⟩
      · rename_i missing
        split at taken
        · cases Option.some.inj taken
          have failed : WaitInv ((s.kernel.modify t (fun th => { th with error := .eok })).modify t
              (fun th => { th with error := .etimeout })) 0 (fun t => s.waiting t = true) :=
            cleared.modify rfl (fun here => absurd here away)
          refine inv.shrink failed (within_refl _) ?_
          intro u here
          exact ⟨here, by simp [distinct u here]⟩
        · obtain ⟨k, started, done⟩ := Option.map_eq_some_iff.mp taken
          cases done
          exact block_inv inv ready cleared missing started

theorem return_inv (inv : Inv s) (taken : recvReturn s t = some (s', es)) : Inv s' := by
  simp only [recvReturn] at taken
  split at taken
  · rename_i enabled
    cases Option.some.inj taken
    refine ⟨(inv.wait.leave enabled.2).congr ?_, inv.missing⟩
    intro u
    by_cases hu : u = t <;> simp [hu]
  · contradiction

theorem timeout_inv {k : Kernel} (inv : Inv s) (expired : s.kernel.timerExpire t = some k) :
    Inv { s with kernel := k } := by
  obtain ⟨_, _, _, others, lists, _⟩ := timerExpire_some expired
  refine inv.shrink (inv.wait.expire expired) (within_refl _) ?_
  intro u here
  simp only [lists, List.mem_filter, decide_eq_true_eq] at here
  exact ⟨here.1, others u here.2⟩

theorem reset_inv (inv : Inv s) (taken : rtEventReset s = some (s', es)) : Inv s' := by
  obtain ⟨k, done, result⟩ := Option.map_eq_some_iff.mp taken
  cases result
  obtain ⟨k', done', wait, _, empty, _⟩ := inv.wait.resumeAll inv.wait
  cases Option.some.inj (done.symm.trans done')
  exact ⟨wait, by simp [empty]⟩

theorem step_inv {a : Action} (inv : Inv s) (taken : step s a = some (s', es)) : Inv s' := by
  cases a with
  | send bits => exact send_inv inv (Option.some.inj taken)
  | recv t bits option timeout => exact recv_inv inv taken
  | wake t => exact return_inv inv taken
  | timeout t =>
    obtain ⟨k, expired, result⟩ := Option.map_eq_some_iff.mp taken
    cases result
    exact timeout_inv inv expired
  | reset => exact reset_inv inv taken

theorem run_inv {tr : List Event} (run : Run machine tr s) : Inv s :=
  run.always (I := Inv) (fun _ start => start_inv start) (fun _ _ _ _ inv taken => step_inv inv taken)

/-- The wait list holds the callers that are suspended, and no bits that are set now
satisfy one of them. -/
theorem event_no_lost_wakeup {tr : List Event} {s : State} (run : Run machine tr s) :
    ∀ t, (t ∈ s.kernel.list (.wait 0) ↔ s.waiting t = true ∧ (s.kernel.thread t).stat = .suspend) ∧
      (s.waiting t = true ∧ (s.kernel.thread t).stat = .suspend →
        Unsatisfied (s.kernel.thread t) s.set) := by
  have inv := run_inv run
  intro t
  exact ⟨inv.wait.listed t, fun suspended => inv.missing t ((inv.wait.listed t).mpr suspended)⟩

/-- Threads 0, 1 and 2 wait for bit 0 with CLEAR, for bits 0 and 1, and for bit 0; the
first one takes the bit that is sent. -/
theorem event_no_lost_wakeup_cleared :
    ∃ s : State, s.set = 0 ∧ s.kernel.list (.wait 0) = [1, 2] ∧
      Unsatisfied (s.kernel.thread 1) s.set ∧ Unsatisfied (s.kernel.thread 2) s.set := by
  let s₀ : State := ⟨startedThreads (fun _ => 10) 3, 0, .fifo, fun _ => false⟩
  have start : Start s₀ := ⟨rfl, by decide, fun _ => rfl⟩
  obtain ⟨tr, s, run, found⟩ := Run.reaches (M := machine) start
    [.recv 0 1 6 5, .recv 1 3 1 (-1), .recv 2 1 2 7, .send 1, .wake 0]
    (fun s => decide (s.set = 0) && decide (s.kernel.list (.wait 0) = [1, 2])) (by decide)
  simp only [Bool.and_eq_true, decide_eq_true_eq] at found
  have waiters := event_no_lost_wakeup run
  refine ⟨s, found.1, found.2, ?_, ?_⟩
  · exact (waiters 1).2 ((waiters 1).1.mp (by simp [found.2]))
  · exact (waiters 2).2 ((waiters 2).1.mp (by simp [found.2]))

end RtThread.EventSet
