import RtThread.EventSet
import RtThread.Mailbox
import RtThread.MemPool
import RtThread.MessageQueue
import RtThread.Mutex
import RtThread.Semaphore
import RtThread.Waitqueue

/-! RT_ASSERT(timer->init_tick < RT_TICK_MAX / 2) in rt_timer_start, for the calls that set and start
the timer of their thread. The statements are about callers that do all that the other assertions
ask for: there a section is `none` where this one fails. -/
namespace RtThread.TimerAssert
open Kernel Transition

def rtInt32Max : Int := 0x7fffffff

def RtInt32 (n : Int) : Prop := -0x80000000 ≤ n ∧ n ≤ rtInt32Max

/-- Waitqueue has the value as it is compared with RT_WAITING_FOREVER; this is the rt_tick_t. -/
def tickFromMillisecond (ms : Int) : Nat := (Waitqueue.rtTickFromMillisecond ms % 2 ^ 32).toNat

def rtThreadMdelay (k : Kernel) (ms : Int) : Option Kernel := k.rtThreadSleep (tickFromMillisecond ms)

/-- The interrupt-disabled section of rt_thread_sleep. -/
def sleepSection (k : Kernel) (t : Tid) (tick : Nat) : Option Kernel :=
  ((k.rtThreadSuspend t).1.rtTimerSetTime t tick).rtTimerStart t

/-- A caller that is woken and finds nothing, RT_TICK_MAX / 2 + 2 ticks after its timeout has
passed: what is left of the timeout wraps to RT_TICK_MAX / 2. -/
def Overslept (timeout : Int) (tickDelta now : Nat) : Prop :=
  0 < timeout ∧ (((now + 2 ^ 32 - tickDelta) % 2 ^ 32 : Nat) : Int) = (timeout + 0x80000001) % 2 ^ 32

variable {k : Kernel} {t : Tid} {time timeout : Int} {tickDelta now : Nat}

theorem timerStart_none (tick : Nat) :
    (k.rtTimerSetTime t tick).rtTimerStart t = none ↔ rtTickMax / 2 ≤ tick := by
  simp only [Kernel.rtTimerStart, rtTimerSetTime, modify_self]
  split
  · rename_i less
    exact iff_of_false (Option.some_ne_none _) (by lia)
  · rename_i less
    exact iff_of_true rfl (by lia)

theorem startWaitTimer_none (int : RtInt32 time) : k.startWaitTimer t time = none ↔ time = rtInt32Max := by
  obtain ⟨low, high⟩ := int
  simp only [rtInt32Max] at high ⊢
  unfold startWaitTimer
  split
  · rw [timerStart_none, rtTickMax]
    lia
  · exact iff_of_false (Option.some_ne_none _) (by lia)

theorem remaining_int : RtInt32 timeout → RtInt32 (remainingTime timeout tickDelta now) := by
  rintro ⟨low, high⟩
  simp only [RtInt32, rtInt32Max, remainingTime, Int.bmod] at high ⊢
  split <;> lia

theorem remaining_max (int : RtInt32 timeout) :
    remainingTime timeout tickDelta now = rtInt32Max ↔ Overslept timeout tickDelta now := by
  obtain ⟨low, high⟩ := int
  simp only [rtInt32Max, remainingTime, Overslept, Int.bmod] at high ⊢
  have elapsed : (now + 2 ^ 32 - tickDelta) % 2 ^ 32 < 2 ^ 32 := Nat.mod_lt _ (by decide)
  generalize (now + 2 ^ 32 - tickDelta) % 2 ^ 32 = e at elapsed ⊢
  split
  · rename_i positive
    simp only [positive, true_and]
    lia
  · rename_i negative
    simp only [negative, false_and, iff_false]
    lia

theorem tickFromMillisecond_max {ms : Int} (int : RtInt32 ms) :
    rtTickMax / 2 ≤ tickFromMillisecond ms ↔ ms < 0 ∨ ms = rtInt32Max := by
  obtain ⟨low, high⟩ := int
  simp only [rtInt32Max, rtTickMax, tickFromMillisecond, Waitqueue.rtTickFromMillisecond,
    Waitqueue.rtTickPerSecond] at high ⊢
  split <;> lia

theorem mdelay_section {ms : Int} (current : k.currentThread = some t) :
    rtThreadMdelay k ms = (sleepSection k t (tickFromMillisecond ms)).bind rtSchedule := by
  simp only [rtThreadMdelay, rtThreadSleep, current]
  rfl

theorem mdelay_none {ms : Int} (int : RtInt32 ms) :
    sleepSection k t (tickFromMillisecond ms) = none ↔ ms < 0 ∨ ms = rtInt32Max := by
  rw [sleepSection, timerStart_none, tickFromMillisecond_max int]

theorem semTake_none {s : Semaphore.State} (int : RtInt32 time) (idle : s.waiting t = false)
    (ready : (s.kernel.thread t).stat = .ready) :
    Semaphore.rtSemTake s t time = none ↔ s.value = 0 ∧ time = rtInt32Max := by
  simp only [Semaphore.rtSemTake, idle, Bool.false_eq_true, if_false, ready, ne_eq, not_true]
  split
  · rename_i some_value
    simp
    lia
  · rename_i none_value
    have zero : s.value = 0 := by lia
    split
    · rename_i now
      simp [now, rtInt32Max]
    · rw [Option.map_eq_none_iff, startWaitTimer_none int]
      simp [zero]

theorem mutexTake_none {tr : List Mutex.Event} {s : Mutex.State} {m : Nat} (int : RtInt32 time)
    (run : Run Mutex.machine tr s) (running : Mutex.running s t = true) :
    Mutex.rtMutexTake s t m time = none ↔
      (s.mutex m).owner ≠ some t ∧ (s.mutex m).value = 0 ∧ time = rtInt32Max := by
  simp only [Mutex.rtMutexTake, running, if_true]
  split
  · rename_i own
    split <;> simp [own]
  · rename_i other
    split
    · rename_i free
      split <;> simp <;> lia
    · rename_i taken
      have zero : (s.mutex m).value = 0 := by lia
      split
      · rename_i now
        simp [now, rtInt32Max]
      · split
        · rename_i orphan
          rcases (Mutex.run_inv run).shape m with free | owned
          · exact absurd free.1 (by lia)
          · exact absurd orphan owned.2.1
        · rename_i owner owns
          rw [Option.map_eq_none_iff, startWaitTimer_none int]
          simp [zero, other]

theorem eventRecv_none {s : EventSet.State} {bits : BitVec 32} {option : BitVec 8} (int : RtInt32 timeout)
    (idle : s.waiting t = false) (ready : (s.kernel.thread t).stat = .ready)
    (asks : option &&& (EventSet.rtEventFlagAnd ||| EventSet.rtEventFlagOr) ≠ 0) :
    EventSet.rtEventRecv s t bits option timeout = none ↔
      bits ≠ 0 ∧ EventSet.satisfies option bits s.set = some false ∧ timeout = rtInt32Max := by
  simp only [EventSet.rtEventRecv, idle, ready, Bool.false_eq_true, ne_eq, not_true, or_self, if_false]
  split
  · rename_i nothing
    simp [nothing]
  · rename_i something
    split
    · rename_i neither
      exfalso
      simp only [EventSet.satisfies] at neither
      split at neither
      · cases neither
      · rename_i no_and
        split at neither
        · cases neither
        · rename_i no_or
          refine asks ?_
          simp only [ne_eq, not_not] at no_and no_or
          rw [BitVec.and_or_distrib_left, no_and, no_or]
          rfl
    · rename_i met
      simp [met]
    · rename_i unmet
      split
      · rename_i now
        simp [now, rtInt32Max]
      · rw [Option.map_eq_none_iff, startWaitTimer_none int]
        exact ⟨fun most => ⟨something, unmet, most⟩, fun all => all.2.2⟩

/-! Calls that wait in a loop: the test before it, a round of it, and what is behind rt_schedule. -/

section
variable {α : Type} {refused failed : α} {enter loop block done : Option α} {missing : Prop}

theorem entry_none [Decidable missing] {fails : Prop} (spec : loop = none ↔ fails ∧ timeout = rtInt32Max) :
    (if missing ∧ timeout = 0 then some refused else loop) = none ↔ fails ∧ timeout = rtInt32Max := by
  split
  · rename_i now
    simp [now.2, rtInt32Max]
  · exact spec

theorem round_none [Decidable missing] (blocks : block = none ↔ timeout = rtInt32Max) (goes : ¬missing → done ≠ none) :
    (if missing then if timeout = 0 then some refused else block else done) = none ↔
      missing ∧ timeout = rtInt32Max := by
  split
  · rename_i lacks
    split
    · rename_i now
      simp [now, rtInt32Max]
    · simp only [lacks, true_and, blocks]
  · rename_i there
    simp only [there, false_and, iff_false]
    exact goes there

theorem woken_none {e : Err} (int : RtInt32 timeout)
    (spec : loop = none ↔ missing ∧ remainingTime timeout tickDelta now = rtInt32Max) :
    (if e ≠ .eok then some failed else loop) = none ↔ e = .eok ∧ missing ∧ Overslept timeout tickDelta now := by
  split
  · rename_i error
    simp [error]
  · rename_i clean
    rw [spec, remaining_max int, not_not.mp clean]
    simp

end

theorem mailBlock_none {s : Mailbox.State} {o : Nat} {c : Mailbox.Call} (int : RtInt32 timeout)
    (ready : (s.kernel.thread t).stat = .ready) :
    Mailbox.block (Mailbox.setError s t .eok) t o timeout c = none ↔ timeout = rtInt32Max := by
  rw [Mailbox.block, if_neg (by simp [Mailbox.setError, ready]), Option.map_eq_none_iff, startWaitTimer_none int]

theorem mailSend_none {s : Mailbox.State} {value : Mailbox.Mail} (int : RtInt32 timeout)
    (ready : (s.kernel.thread t).stat = .ready) :
    Mailbox.sendLoop s t value timeout tickDelta = none ↔ s.entry = s.size ∧ timeout = rtInt32Max :=
  round_none (mailBlock_none int ready) (fun _ => Option.some_ne_none _)

theorem mailRecv_none {s : Mailbox.State} (int : RtInt32 timeout) (ready : (s.kernel.thread t).stat = .ready) :
    Mailbox.recvLoop s t timeout tickDelta = none ↔ s.entry = 0 ∧ timeout = rtInt32Max :=
  round_none (mailBlock_none int ready) (fun _ => Option.some_ne_none _)

theorem messageBlock_none {s : MessageQueue.State} {o : Nat} {c : MessageQueue.Call} (int : RtInt32 timeout)
    (ready : (s.kernel.thread t).stat = .ready) :
    MessageQueue.block (MessageQueue.setError s t .eok) t o timeout c = none ↔ timeout = rtInt32Max := by
  rw [MessageQueue.block, if_neg (by simp [MessageQueue.setError, ready]), Option.map_eq_none_iff,
    startWaitTimer_none int]

theorem messageSend_none {s : MessageQueue.State} {bytes : List MessageQueue.Byte} (int : RtInt32 timeout)
    (ready : (s.kernel.thread t).stat = .ready) :
    MessageQueue.sendLoop s t bytes timeout tickDelta = none ↔ s.msgQueueFree = none ∧ timeout = rtInt32Max := by
  unfold MessageQueue.sendLoop
  split
  · rename_i full
    split
    · rename_i now
      simp [now, rtInt32Max]
    · simp only [messageBlock_none int ready, full, true_and]
  · rename_i room
    simp [room]

theorem messageRecv_none {s : MessageQueue.State} {size : Nat} (int : RtInt32 timeout)
    (ready : (s.kernel.thread t).stat = .ready) (head : s.entry ≠ 0 → s.msgQueueHead ≠ none) :
    MessageQueue.recvLoop s t size timeout tickDelta = none ↔ s.entry = 0 ∧ timeout = rtInt32Max := by
  refine round_none (messageBlock_none int ready) (fun some_message => ?_)
  simp [MessageQueue.popHead, head some_message]

theorem poolAlloc_none {s : MemPool.State} (int : RtInt32 time) (ready : (s.kernel.thread t).stat = .ready)
    (defined : s.blockFreeCount ≠ 0 → s.blockList ≠ 0) :
    MemPool.allocLoop s t time tickDelta = none ↔ s.blockFreeCount = 0 ∧ time = rtInt32Max := by
  refine round_none ?_ (fun some_block => ?_)
  · rw [if_neg (by simp [ready]), Option.map_eq_none_iff, startWaitTimer_none int]
  · simp [MemPool.takeBlock, defined some_block]

/-- The sections that start the timer of their caller, each with the state before it: the first one of
every call and, of a call that waits in a loop, the one behind rt_schedule. -/
inductive TimedSection
  | semTake (s : Semaphore.State) (t : Tid) (time : Int)
  | mutexTake (s : Mutex.State) (t : Tid) (m : Nat) (time : Int)
  | eventRecv (s : EventSet.State) (t : Tid) (bits : BitVec 32) (option : BitVec 8) (timeout : Int)
  | mbSendWait (s : Mailbox.State) (t : Tid) (value : Mailbox.Mail) (timeout : Int)
  | mbSendOn (s : Mailbox.State) (t : Tid) (value : Mailbox.Mail) (timeout : Int) (tickDelta : Nat)
  | mbRecv (s : Mailbox.State) (t : Tid) (timeout : Int)
  | mbRecvOn (s : Mailbox.State) (t : Tid) (timeout : Int) (tickDelta : Nat)
  | mqSendWait (s : MessageQueue.State) (t : Tid) (bytes : List MessageQueue.Byte) (timeout : Int)
  | mqSendOn (s : MessageQueue.State) (t : Tid) (bytes : List MessageQueue.Byte) (timeout : Int) (tickDelta : Nat)
  | mqRecv (s : MessageQueue.State) (t : Tid) (size : Nat) (timeout : Int)
  | mqRecvOn (s : MessageQueue.State) (t : Tid) (size : Nat) (timeout : Int) (tickDelta : Nat)
  | mpAlloc (s : MemPool.State) (t : Tid) (time : Int)
  | mpAllocOn (s : MemPool.State) (t : Tid) (time : Int) (beforeSleep : Nat)
  | mdelay (k : Kernel) (t : Tid) (ms : Int)

namespace TimedSection

/-- A running thread that is outside of any call, or is back from rt_schedule, with arguments that
pass the other assertions, at objects in a state that they reach. -/
def Admissible : TimedSection → Prop
  | semTake s t time => RtInt32 time ∧ s.waiting t = false ∧ (s.kernel.thread t).stat = .ready
  | mutexTake s t _ time => RtInt32 time ∧ (∃ tr, Run Mutex.machine tr s) ∧ Mutex.running s t = true
  | eventRecv s t _ option timeout => RtInt32 timeout ∧ s.waiting t = false ∧ (s.kernel.thread t).stat = .ready ∧
      option &&& (EventSet.rtEventFlagAnd ||| EventSet.rtEventFlagOr) ≠ 0
  | mbSendWait s t _ timeout => RtInt32 timeout ∧ s.call t = .idle ∧ (s.kernel.thread t).stat = .ready
  | mbSendOn s t value timeout tickDelta => RtInt32 timeout ∧ s.call t = .sending value timeout tickDelta ∧
      (s.kernel.thread t).stat = .ready
  | mbRecv s t timeout => RtInt32 timeout ∧ s.call t = .idle ∧ (s.kernel.thread t).stat = .ready
  | mbRecvOn s t timeout tickDelta => RtInt32 timeout ∧ s.call t = .receiving timeout tickDelta ∧
      (s.kernel.thread t).stat = .ready
  | mqSendWait s t bytes timeout => RtInt32 timeout ∧ s.call t = .idle ∧ (s.kernel.thread t).stat = .ready ∧
      bytes ≠ []
  | mqSendOn s t bytes timeout tickDelta => RtInt32 timeout ∧ s.call t = .sendWait bytes timeout tickDelta ∧
      (s.kernel.thread t).stat = .ready
  | mqRecv s t size timeout => RtInt32 timeout ∧ (∃ n tr, Run (MessageQueue.machine n) tr s) ∧
      s.call t = .idle ∧ (s.kernel.thread t).stat = .ready ∧ size ≠ 0
  | mqRecvOn s t size timeout tickDelta => RtInt32 timeout ∧ (∃ n tr, Run (MessageQueue.machine n) tr s) ∧
      s.call t = .recvWait size timeout tickDelta ∧ (s.kernel.thread t).stat = .ready
  | mpAlloc s t time => RtInt32 time ∧ (∃ all tr, Run (MemPool.machine all) tr s) ∧ s.wait t = none ∧
      (s.kernel.thread t).stat = .ready
  | mpAllocOn s t time beforeSleep => RtInt32 time ∧ (∃ all tr, Run (MemPool.machine all) tr s) ∧
      s.wait t = some (time, beforeSleep) ∧ (s.kernel.thread t).stat = .ready
  | mdelay k t ms => RtInt32 ms ∧ k.currentThread = some t

/-- The section ends without a failed assertion. -/
def Asserts : TimedSection → Prop
  | semTake s t time => Semaphore.rtSemTake s t time ≠ none
  | mutexTake s t m time => Mutex.rtMutexTake s t m time ≠ none
  | eventRecv s t bits option timeout => EventSet.rtEventRecv s t bits option timeout ≠ none
  | mbSendWait s t value timeout => Mailbox.rtMbSendWait s t value timeout ≠ none
  | mbSendOn s t _ _ _ | mbRecvOn s t _ _ => Mailbox.resumeCall s t ≠ none
  | mbRecv s t timeout => Mailbox.rtMbRecv s t timeout ≠ none
  | mqSendWait s t bytes timeout => MessageQueue.rtMqSendWait s t bytes timeout ≠ none
  | mqSendOn s t _ _ _ | mqRecvOn s t _ _ _ => MessageQueue.runCall s t ≠ none
  | mqRecv s t size timeout => MessageQueue.rtMqRecv s t size timeout ≠ none
  | mpAlloc s t time => MemPool.rtMpAlloc s t time ≠ none
  | mpAllocOn s t _ _ => MemPool.allocReturn s t ≠ none
  | mdelay k t ms => ∃ k', sleepSection k t (tickFromMillisecond ms) = some k' ∧ rtThreadMdelay k ms = rtSchedule k'

/-- The caller is to be suspended with RT_TICK_MAX / 2 ticks to wait, or more. -/
def Overlong : TimedSection → Prop
  | semTake s _ time => s.value = 0 ∧ time = rtInt32Max
  | mutexTake s t m time => (s.mutex m).owner ≠ some t ∧ (s.mutex m).value = 0 ∧ time = rtInt32Max
  | eventRecv s _ bits option timeout =>
      bits ≠ 0 ∧ EventSet.satisfies option bits s.set = some false ∧ timeout = rtInt32Max
  | mbSendWait s _ _ timeout => s.entry = s.size ∧ timeout = rtInt32Max
  | mbSendOn s t _ timeout tickDelta => (s.kernel.thread t).error = .eok ∧ s.entry = s.size ∧
      Overslept timeout tickDelta s.kernel.tick
  | mbRecv s _ timeout => s.entry = 0 ∧ timeout = rtInt32Max
  | mbRecvOn s t timeout tickDelta => (s.kernel.thread t).error = .eok ∧ s.entry = 0 ∧
      Overslept timeout tickDelta s.kernel.tick
  | mqSendWait s _ bytes timeout => bytes.length ≤ s.msgSize ∧ s.msgQueueFree = none ∧ timeout = rtInt32Max
  | mqSendOn s t _ timeout tickDelta => (s.kernel.thread t).error = .eok ∧ s.msgQueueFree = none ∧
      Overslept timeout tickDelta s.kernel.tick
  | mqRecv s _ _ timeout => s.entry = 0 ∧ timeout = rtInt32Max
  | mqRecvOn s t _ timeout tickDelta => (s.kernel.thread t).error = .eok ∧ s.entry = 0 ∧
      Overslept timeout tickDelta s.kernel.tick
  | mpAlloc s _ time => s.blockFreeCount = 0 ∧ time = rtInt32Max
  | mpAllocOn s t time beforeSleep => (s.kernel.thread t).error = .eok ∧ s.blockFreeCount = 0 ∧
      Overslept time beforeSleep s.kernel.tick
  | mdelay _ _ ms => ms < 0 ∨ ms = rtInt32Max

end TimedSection

theorem queue_head {n : Nat} {tr : List MessageQueue.Event} {s : MessageQueue.State}
    (run : Run (MessageQueue.machine n) tr s) : s.entry ≠ 0 → s.msgQueueHead ≠ none := by
  obtain ⟨frees, queued, d, store, _⟩ := MessageQueue.run_inv run
  intro some_message no_head
  have chain := store.pool.queueChain
  rw [no_head, Linked.Chain.none_iff] at chain
  exact some_message (by rw [store.entry, chain]; rfl)

theorem pool_block {all : List Nat} {tr : List MemPool.Event} {s : MemPool.State}
    (run : Run (MemPool.machine all) tr s) : s.blockFreeCount ≠ 0 → s.blockList ≠ 0 := by
  obtain ⟨frees, store⟩ := (MemPool.run_inv run).store
  intro some_block zero
  have chain := store.chain
  rw [zero, MemPool.link, if_pos rfl, Linked.Chain.none_iff] at chain
  exact some_block (by rw [← store.count, chain]; rfl)

open TimedSection in
/-- Which sections pass it, for every call. -/
theorem timer_assertion_holds (c : TimedSection) (admissible : c.Admissible) : c.Asserts ↔ ¬ c.Overlong := by
  cases c with
  | semTake s t time =>
    obtain ⟨int, idle, ready⟩ := admissible
    exact not_congr (semTake_none int idle ready)
  | mutexTake s t m time =>
    obtain ⟨int, ⟨tr, run⟩, running⟩ := admissible
    exact not_congr (mutexTake_none int run running)
  | eventRecv s t bits option timeout =>
    obtain ⟨int, idle, ready, asks⟩ := admissible
    exact not_congr (eventRecv_none int idle ready asks)
  | mbSendWait s t value timeout =>
    obtain ⟨int, idle, ready⟩ := admissible
    refine not_congr ?_
    rw [Mailbox.rtMbSendWait, if_neg (not_not.mpr idle)]
    exact entry_none (mailSend_none int ready)
  | mbSendOn s t value timeout tickDelta =>
    obtain ⟨int, call, ready⟩ := admissible
    refine not_congr ?_
    simp only [Mailbox.resumeCall, call, ready, ne_eq, not_true, if_false]
    exact woken_none int (mailSend_none (remaining_int int) ready)
  | mbRecv s t timeout =>
    obtain ⟨int, idle, ready⟩ := admissible
    refine not_congr ?_
    rw [Mailbox.rtMbRecv, if_neg (not_not.mpr idle)]
    exact entry_none (mailRecv_none int ready)
  | mbRecvOn s t timeout tickDelta =>
    obtain ⟨int, call, ready⟩ := admissible
    refine not_congr ?_
    simp only [Mailbox.resumeCall, call, ready, ne_eq, not_true, if_false]
    exact woken_none int (mailRecv_none (remaining_int int) ready)
  | mqSendWait s t bytes timeout =>
    obtain ⟨int, idle, ready, some_bytes⟩ := admissible
    refine not_congr ?_
    rw [MessageQueue.rtMqSendWait, if_neg (by simp [idle, some_bytes])]
    split
    · rename_i large
      simp only [Overlong, Nat.not_le_of_lt large, false_and]
      exact iff_of_false (Option.some_ne_none _) id
    · rename_i fits
      refine (entry_none (messageSend_none int ready)).trans ?_
      simp only [Overlong, Nat.le_of_not_lt fits, true_and]
  | mqSendOn s t bytes timeout tickDelta =>
    obtain ⟨int, call, ready⟩ := admissible
    refine not_congr ?_
    simp only [MessageQueue.runCall, call, ready, ne_eq, not_true, if_false]
    exact woken_none int (messageSend_none (remaining_int int) ready)
  | mqRecv s t size timeout =>
    obtain ⟨int, ⟨n, tr, run⟩, idle, ready, some_size⟩ := admissible
    refine not_congr ?_
    rw [MessageQueue.rtMqRecv, if_neg (by simp [idle, some_size])]
    exact entry_none (messageRecv_none int ready (queue_head run))
  | mqRecvOn s t size timeout tickDelta =>
    obtain ⟨int, ⟨n, tr, run⟩, call, ready⟩ := admissible
    refine not_congr ?_
    simp only [MessageQueue.runCall, call, ready, ne_eq, not_true, if_false]
    exact woken_none int (messageRecv_none (remaining_int int) ready (queue_head run))
  | mpAlloc s t time =>
    obtain ⟨int, ⟨all, tr, run⟩, idle, ready⟩ := admissible
    refine not_congr ?_
    simp only [Overlong, MemPool.rtMpAlloc, idle]
    exact poolAlloc_none int ready (pool_block run)
  | mpAllocOn s t time beforeSleep =>
    obtain ⟨int, ⟨all, tr, run⟩, waits, ready⟩ := admissible
    refine not_congr ?_
    simp only [MemPool.allocReturn, waits, ready, ne_eq, not_true, if_false]
    exact woken_none int (poolAlloc_none (remaining_int int) ready (pool_block run))
  | mdelay k t ms =>
    obtain ⟨int, current⟩ := admissible
    rw [Asserts, Overlong, mdelay_section current, ← mdelay_none (k := k) (t := t) int]
    constructor
    · rintro ⟨k', ended, _⟩ failed
      rw [failed] at ended
      cases ended
    · intro passes
      obtain ⟨k', ended⟩ := Option.ne_none_iff_exists'.mp passes
      exact ⟨k', ended, by rw [ended, Option.bind_some]⟩

/-- One tick less passes. -/
theorem timer_assertion_holds_short : ∃ s t, (TimedSection.semTake s t (rtInt32Max - 1)).Admissible ∧
    (TimedSection.semTake s t (rtInt32Max - 1)).Asserts := by
  let s : Semaphore.State := ⟨startedThreads (fun _ => 5) 1, 0, .fifo, fun _ => false⟩
  have admissible : (TimedSection.semTake s 0 (rtInt32Max - 1)).Admissible :=
    ⟨⟨by decide, by decide⟩, rfl, by decide⟩
  exact ⟨s, 0, admissible, (timer_assertion_holds _ admissible).mpr (fun longest => absurd longest.2 (by decide))⟩

/-- The longest timeout there is, and a delay that the clock's functions take for one without end. -/
theorem timer_assertion_broken :
    (∃ tr s, Run (Semaphore.machine 0) tr s ∧ ∃ t time, RtInt32 time ∧ s.waiting t = false ∧
      (s.kernel.thread t).stat = .ready ∧ Semaphore.rtSemTake s t time = none) ∧
    ∃ (k : Kernel) (t : Tid) (ms : Int), k.currentThread = some t ∧ RtInt32 ms ∧
      sleepSection k t (tickFromMillisecond ms) = none := by
  constructor
  · let s : Semaphore.State := ⟨startedThreads (fun _ => 5) 1, 0, .fifo, fun _ => false⟩
    have start : (Semaphore.machine 0).start s := ⟨rfl, by decide, by decide, fun _ => rfl⟩
    exact ⟨[], s, .start start, 0, rtInt32Max, ⟨by decide, by decide⟩, rfl, by decide, by decide⟩
  · exact ⟨{ startedThreads (fun _ => 5) 2 with currentThread := some 0 }, 0, -1, rfl, ⟨by decide, by decide⟩,
      by decide⟩

end RtThread.TimerAssert
