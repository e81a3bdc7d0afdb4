import Mathlib.Data.List.Induction
import RtThread.Run
import RtThread.Ring
import RtThread.Kernel

/-! Data queues: rt_data_queue_push, rt_data_queue_pop, rt_data_queue_reset and
rt_data_queue_len over every order of their interrupt-disabled sections and of the tests
made outside of these. Poppers wait on `.wait 0`, pushers on `.wait 1`. The calls of
evt_notify, made outside of the sections, are left out. -/
namespace RtThread

structure DataItem where
  dataPtr : BitVec 32
  dataSize : BitVec 32
  deriving DecidableEq

/-- The fields of struct rt_data_queue, the two wait lists apart. -/
structure DataQueue where
  queue : Nat → DataItem
  size : Nat
  lwm : Nat
  getIndex : Nat
  putIndex : Nat
  isEmpty : Bool
  isFull : Bool

namespace DataQueue
open Kernel Transition

/-- `index += 1; if (index == size) index = 0` on a field of 15 bits. -/
def advance (index size : Nat) : Nat :=
  let index := (index + 1) % 2 ^ 15
  if index = size then 0 else index

/-- rt_data_queue_init, with the memory it got. -/
def rtDataQueueInit (queue : Nat → DataItem) (size lwm : Nat) : DataQueue where
  queue := queue
  size := size
  lwm := lwm
  getIndex := 0
  putIndex := 0
  isEmpty := true
  isFull := false

/-- The end of rt_data_queue_push, once there is room. -/
def store (d : DataQueue) (item : DataItem) : DataQueue :=
  let putIndex := advance d.putIndex d.size
  { d with
    queue := Function.update d.queue d.putIndex item
    putIndex := putIndex
    isEmpty := false
    isFull := if putIndex = d.getIndex then true else d.isFull }

/-- The end of rt_data_queue_pop, once there is an item; the item is `d.queue d.getIndex`. -/
def fetch (d : DataQueue) : DataQueue :=
  let getIndex := advance d.getIndex d.size
  { d with
    getIndex := getIndex
    isFull := false
    isEmpty := if d.putIndex = getIndex then true else d.isEmpty }

def clear (d : DataQueue) : DataQueue :=
  { d with getIndex := 0, putIndex := 0, isEmpty := true, isFull := false }

/-- The interrupt-disabled section of rt_data_queue_len: an int, cut down to an rt_int16_t
and returned as an rt_uint16_t. -/
def lenSection (d : DataQueue) : Nat :=
  let len : Int :=
    if d.getIndex < d.putIndex then (d.putIndex : Int) - d.getIndex
    else (d.size : Int) + d.putIndex - d.getIndex
  (len.bmod (2 ^ 16) % 2 ^ 16).toNat

def rtDataQueueLen (d : DataQueue) : Nat := if d.isEmpty then 0 else d.lenSection

/-- Where a caller is: outside of a call, in the rt_schedule call of one, before the
section of rt_data_queue_len, or in rt_data_queue_reset before the test of the list of
`.wait list` or between this test and the section that follows it. -/
inductive Call where
  | idle
  | pushing (item : DataItem) (timeout : Int)
  | popping (timeout : Int)
  | measuring
  | resetting (list : Nat)
  | waking (list : Nat)
  deriving DecidableEq

structure State where
  kernel : Kernel
  queue : DataQueue
  call : Tid → Call

inductive Event where
  | pushed (t : Tid) (item : DataItem)
  | pushWaits (t : Tid)
  | pushFailed (t : Tid) (e : Err)
  | popped (t : Tid) (item : DataItem)
  | popWaits (t : Tid)
  | popFailed (t : Tid) (e : Err)
  | full (t : Tid)
  | empty (t : Tid)
  | len (t : Tid) (value : Nat)
  | reset
  deriving DecidableEq

/-- `stale` is the section of rt_data_queue_reset on a list that is empty by then. -/
inductive Action where
  | push (t : Tid) (item : DataItem) (timeout : Int)
  | pop (t : Tid) (timeout : Int)
  | len (t : Tid)
  | reset (t : Tid)
  | resume (t : Tid)
  | stale (t : Tid) (kernel : Kernel)
  | timeout (t : Tid)

def State.goto (s : State) (t : Tid) (c : Call) : State :=
  { s with call := Function.update s.call t c }

/-- Suspend the caller at the end of `.wait list` and note where it is. -/
def block (s : State) (t : Tid) (list : Nat) (timeout : Int) (c : Call) (e : Event) :
    Option (State × List Event) :=
  if (s.kernel.thread t).stat ≠ .ready then none
  else
    let k := s.kernel.modify t (fun th => { th with error := .eok })
    ((k.rtIpcListSuspend (.wait list) t .fifo).startWaitTimer t timeout).map (fun k =>
      ({ s.goto t c with kernel := k }, [e]))

/-- From the test of the while loop on. -/
def pushLoop (s : State) (t : Tid) (item : DataItem) (timeout : Int) : Option (State × List Event) :=
  if s.queue.isFull then
    if timeout = 0 then some (s.goto t .idle, [.full t])
    else block s t 1 timeout (.pushing item timeout) (.pushWaits t)
  else
    some ({ s.goto t .idle with
      queue := s.queue.store item
      kernel := s.kernel.rtIpcListResume (.wait 0) }, [.pushed t item])

def popLoop (s : State) (t : Tid) (timeout : Int) : Option (State × List Event) :=
  if s.queue.isEmpty then
    if timeout = 0 then some (s.goto t .idle, [.empty t])
    else block s t 0 timeout (.popping timeout) (.popWaits t)
  else
    let item := s.queue.queue s.queue.getIndex
    let queue := s.queue.fetch
    some ({ s.goto t .idle with
      queue := queue
      kernel := if queue.rtDataQueueLen ≤ queue.lwm then s.kernel.rtIpcListResume (.wait 1)
        else s.kernel }, [.popped t item])

/- A caller that does not block may be an interrupt handler, which then counts as a
caller of its own. -/
def rtDataQueuePush (s : State) (t : Tid) (item : DataItem) (timeout : Int) :
    Option (State × List Event) :=
  if s.call t ≠ .idle then none else pushLoop s t item timeout

def rtDataQueuePop (s : State) (t : Tid) (timeout : Int) : Option (State × List Event) :=
  if s.call t ≠ .idle then none else popLoop s t timeout

/-- rt_data_queue_len up to its section. -/
def lenTest (s : State) (t : Tid) : Option (State × List Event) :=
  if s.call t ≠ .idle then none
  else if s.queue.isEmpty then some (s, [.len t 0])
  else some (s.goto t .measuring, [])

/-- The first section of rt_data_queue_reset. -/
def rtDataQueueReset (s : State) (t : Tid) : Option (State × List Event) :=
  if s.call t ≠ .idle then none
  else some ({ s.goto t (.resetting 0) with queue := s.queue.clear }, [.reset])

/-- `while (!rt_list_isempty(..))` in rt_data_queue_reset, which has no section of its own. -/
def resetTest (s : State) (t : Tid) (list : Nat) : State :=
  if s.kernel.list (.wait list) ≠ [] then s.goto t (.waking list)
  else if list = 0 then s.goto t (.resetting 1)
  else s.goto t .idle

/-- The body of this loop. -/
def resetWake (s : State) (t : Tid) (list : Nat) : Option State :=
  match s.kernel.list (.wait list) with
  | [] => none
  | w :: _ =>
    let k := s.kernel.modify w (fun th => { th with error := .error })
    some { s.goto t (.resetting list) with kernel := (k.rtThreadResume w).1 }

/- The same on an empty list. The list head is taken for the node of a thread: the word
written as its error lies behind the queue structure, and what is read as its type is the
low byte of `queue`, a multiple of 4 and no thread, on the pop list and that of `size` on the
push list. Its state is read from behind the structure too; whatever the kernel makes
of it, the fields of the queue are not written. -/
def resetStale (s : State) (t : Tid) (kernel : Kernel) : Option State :=
  if s.call t = .waking 1 ∧ s.kernel.list (.wait 1) = [] ∧ s.queue.size % 2 ^ 7 = 1 then
    some { s.goto t (.resetting 1) with kernel := kernel }
  else none

/-- The next section or test of a caller inside a call. A woken thread tests its error
field first. -/
def resumeCall (s : State) (t : Tid) : Option (State × List Event) :=
  let th := s.kernel.thread t
  match s.call t with
  | .idle => none
  | .pushing item timeout =>
    if th.stat ≠ .ready then none
    else if th.error ≠ .eok then some (s.goto t .idle, [.pushFailed t th.error])
    else pushLoop s t item timeout
  | .popping timeout =>
    if th.stat ≠ .ready then none
    else if th.error ≠ .eok then some (s.goto t .idle, [.popFailed t th.error])
    else popLoop s t timeout
  | .measuring => some (s.goto t .idle, [.len t s.queue.lenSection])
  | .resetting list => some (resetTest s t list, [])
  | .waking list => (resetWake s t list).map (fun s => (s, []))

def step (s : State) : Action → Option (State × List Event)
  | .push t item timeout => rtDataQueuePush s t item timeout
  | .pop t timeout => rtDataQueuePop s t timeout
  | .len t => lenTest s t
  | .reset t => rtDataQueueReset s t
  | .resume t => resumeCall s t
  | .stale t kernel => (resetStale s t kernel).map (fun s => (s, []))
  | .timeout t => (s.kernel.timerExpire t).map (fun k => ({ s with kernel := k }, []))

/-- After rt_data_queue_init of a queue of `n` items, with no thread inside a call. -/
structure Start (n : Nat) (s : State) : Prop where
  positive : 1 ≤ n
  bound : n ≤ 32768
  init : ∃ queue lwm, s.queue = rtDataQueueInit queue n lwm
  poppers : s.kernel.list (.wait 0) = []
  pushers : s.kernel.list (.wait 1) = []
  idle : ∀ t, s.call t = .idle

def machine (n : Nat) : Machine State Action Event where
  start := Start n
  step := step

/-- What an event means to a FIFO of capacity `n` with the items `q`; `none` if it cannot
happen there. -/
def Event.apply (n : Nat) (q : List DataItem) : Event → Option (List DataItem)
  | .pushed _ item => if q.length < n then some (q ++ [item]) else none
  | .popped _ item => if q.head? = some item then some q.tail else none
  | .full _ | .pushWaits _ => if q.length = n then some q else none
  | .empty _ | .popWaits _ => if q = [] then some q else none
  | .len _ value => if value = q.length then some q else none
  | .pushFailed .. | .popFailed .. => some q
  | .reset => some []

def replay (n : Nat) (tr : List Event) : Option (List DataItem) := tr.foldlM (Event.apply n) []

def pushedItem : Event → Option DataItem
  | .pushed _ item => some item
  | _ => none

def poppedItem : Event → Option DataItem
  | .popped _ item => some item
  | _ => none

/-- The events after the last reset. -/
def sinceReset (tr : List Event) : List Event :=
  tr.foldl (fun acc e => if e = .reset then [] else acc ++ [e]) []

/-- The queue `d` is a FIFO of capacity `n` that went through `tr` and holds `q`. -/
structure Refines (n : Nat) (tr : List Event) (d : DataQueue) (q : List DataItem) : Prop where
  replayed : replay n tr = some q
  capacity : q.length ≤ n
  empty : d.isEmpty = true ↔ q.length = 0
  full : d.isFull = true ↔ q.length = n
  len : d.rtDataQueueLen = q.length
  once : (sinceReset tr).filterMap pushedItem = (sinceReset tr).filterMap poppedItem ++ q

/-- The section of rt_data_queue_len does not find the queue emptied since the test. -/
def LenInTime (s : State) : Action → Prop
  | .resume t => s.call t = .measuring → s.queue.isEmpty = false
  | _ => True

def Event.isLen : Event → Bool
  | .len .. => true
  | _ => false

/-- The fields of `d`, a queue of `n` items, when it holds `q`. -/
structure Holds (n : Nat) (d : DataQueue) (q : List DataItem) : Prop where
  sized : d.size = n
  bound : n ≤ 32768
  output : d.getIndex < n
  input : d.putIndex = (d.getIndex + q.length) % n
  fits : q.length ≤ n
  empty : d.isEmpty = true ↔ q.length = 0
  full : d.isFull = true ↔ q.length = n
  items : Ring.window d.queue n d.getIndex q.length = q

variable {n : Nat} {d : DataQueue} {q : List DataItem} {tr es : List Event} {s s' : State} {t : Tid}
  {item : DataItem} {timeout : Int}

/- The abstract FIFO. -/

theorem replay_append : replay n (tr ++ es) = (replay n tr).bind (fun q => es.foldlM (Event.apply n) q) :=
  List.foldlM_append

theorem sinceReset_append (tr : List Event) (e : Event) :
    sinceReset (tr ++ [e]) = if e = .reset then [] else sinceReset tr ++ [e] := by
  simp [sinceReset]

theorem replay_once (replayed : replay n tr = some q) :
    (sinceReset tr).filterMap pushedItem = (sinceReset tr).filterMap poppedItem ++ q := by
  induction tr using List.reverseRecOn generalizing q with
  | nil =>
    cases Option.some.inj replayed
    rfl
  | append_singleton tr e ih =>
    rw [replay_append] at replayed
    obtain ⟨before, earlier, last⟩ := Option.bind_eq_some_iff.mp replayed
    have old := ih earlier
    simp only [List.foldlM_cons, List.foldlM_nil, Option.bind_eq_bind, Option.bind_eq_some_iff,
      Option.pure_def, Option.some.injEq, exists_eq_right] at last
    cases e with
    | pushed t item =>
      simp only [Event.apply, Option.ite_none_right_eq_some, Option.some.injEq] at last
      simp [sinceReset_append, pushedItem, poppedItem, old, ← last.2]
    | popped t item =>
      simp only [Event.apply, Option.ite_none_right_eq_some, Option.some.injEq] at last
      obtain ⟨rest, rfl⟩ := List.head?_eq_some_iff.mp last.1
      simp [sinceReset_append, pushedItem, poppedItem, old, ← last.2]
    | reset =>
      cases Option.some.inj last
      simp [sinceReset_append]
    | pushFailed | popFailed =>
      cases Option.some.inj last
      simp [sinceReset_append, List.filterMap_cons, pushedItem, poppedItem, old]
    | pushWaits | popWaits | full | empty | len =>
      simp only [Event.apply, Option.ite_none_right_eq_some, Option.some.injEq] at last
      simp [sinceReset_append, List.filterMap_cons, pushedItem, poppedItem, old, ← last.2]

/- The fields of the queue. -/

theorem advance_eq {index : Nat} (inside : index < n) (bound : n ≤ 32768) :
    advance index n = (index + 1) % n := by
  have next := Ring.next_eq_mod n inside
  simp only [advance]
  by_cases last : index + 1 = 2 ^ 15
  · have : n = 32768 := by lia
    subst this
    simp [last]
  · have small : (index + 1) % 2 ^ 15 = index + 1 := Nat.mod_eq_of_lt (by lia)
    rw [small, ← next]
    split <;> split <;> lia

theorem init_holds (queue : Nat → DataItem) (lwm : Nat) (positive : 1 ≤ n) (bound : n ≤ 32768) :
    Holds n (rtDataQueueInit queue n lwm) [] where
  sized := rfl
  bound := bound
  output := positive
  input := by simp [rtDataQueueInit]
  fits := Nat.zero_le n
  empty := by simp [rtDataQueueInit]
  full := by
    simp only [rtDataQueueInit, List.length_nil]
    constructor
    · simp
    · lia
  items := rfl

theorem Holds.clear (holds : Holds n d q) : Holds n d.clear [] := by
  have start := init_holds d.queue d.lwm (Nat.lt_of_le_of_lt (Nat.zero_le _) holds.output) holds.bound
  simpa only [DataQueue.clear, rtDataQueueInit, holds.sized] using start

theorem Holds.store (holds : Holds n d q) (room : q.length < n) (item : DataItem) :
    Holds n (d.store item) (q ++ [item]) := by
  have inside : d.putIndex < n := by
    rw [holds.input]
    exact Nat.mod_lt _ (by lia)
  have next : advance d.putIndex d.size = (d.getIndex + (q.length + 1)) % n := by
    rw [holds.sized, advance_eq inside holds.bound, holds.input, Nat.mod_add_mod, Nat.add_assoc]
  have meet : (d.getIndex + (q.length + 1)) % n = d.getIndex ↔ q.length + 1 = n := by
    have output := holds.output
    rw [Ring.mod_wrap n (by lia)]
    split <;> lia
  have partly : d.isFull = false := by
    rw [← Bool.not_eq_true, holds.full]
    lia
  constructor
  · exact holds.sized
  · exact holds.bound
  · exact holds.output
  · simpa only [DataQueue.store, List.length_append, List.length_singleton] using next
  · simp only [List.length_append, List.length_singleton]
    lia
  · simp [DataQueue.store]
  · simp [DataQueue.store, next, meet, partly]
  · have grown := Ring.window_push d.queue n d.getIndex room item
    rw [← holds.input, holds.items] at grown
    simpa only [DataQueue.store, List.length_append, List.length_singleton] using grown

theorem Holds.fetch (holds : Holds n d (item :: q)) :
    d.queue d.getIndex = item ∧ Holds n d.fetch q := by
  have fits : q.length + 1 ≤ n := holds.fits
  have output := holds.output
  have next : advance d.getIndex d.size = (d.getIndex + 1) % n := by
    rw [holds.sized, advance_eq output holds.bound]
  have input : d.putIndex = ((d.getIndex + 1) % n + q.length) % n := by
    rw [holds.input, Nat.mod_add_mod, List.length_cons]
    congr 1
    lia
  have meet : d.putIndex = (d.getIndex + 1) % n ↔ q.length = 0 := by
    have inside : (d.getIndex + 1) % n < n := Nat.mod_lt _ (by lia)
    rw [input, Ring.mod_wrap n (by lia)]
    split <;> lia
  have some : d.isEmpty = false := by
    rw [← Bool.not_eq_true, holds.empty]
    simp
  have popped := holds.items
  rw [List.length_cons, Ring.window_pop d.queue n d.getIndex output] at popped
  obtain ⟨head, rest⟩ := List.cons.inj popped
  refine ⟨head, ?_⟩
  constructor
  · exact holds.sized
  · exact holds.bound
  · simp only [DataQueue.fetch, next]
    exact Nat.mod_lt _ (by lia)
  · simpa only [DataQueue.fetch, next] using input
  · lia
  · simp [DataQueue.fetch, next, meet, some]
  · simp only [DataQueue.fetch]
    constructor
    · simp
    · lia
  · simpa only [DataQueue.fetch, next] using rest

theorem uint16_int16 {x : Int} {len : Nat} (value : x = len) (small : len < 2 ^ 16) :
    (x.bmod (2 ^ 16) % 2 ^ 16).toNat = len := by
  have same : x.bmod (2 ^ 16) % 2 ^ 16 = x % 2 ^ 16 := Int.bmod_emod
  lia

theorem Holds.lenSection (holds : Holds n d q) :
    d.lenSection = if q.length = 0 then n else q.length := by
  have bound := holds.bound
  have output := holds.output
  have fits := holds.fits
  have input := holds.input
  rw [Ring.mod_wrap n (by lia)] at input
  apply uint16_int16
  · rw [holds.sized]
    by_cases none : q.length = 0
    · simp only [none, if_true] at input ⊢
      split at input <;> split <;> lia
    · simp only [none, if_false] at input ⊢
      split at input <;> split <;> lia
  · split <;> lia

theorem Holds.len (holds : Holds n d q) : d.rtDataQueueLen = q.length := by
  simp only [rtDataQueueLen, holds.lenSection, holds.empty]
  split <;> simp_all

/-- From a queue that holds `q`, the events lead to what it holds in `s'`; those of
rt_data_queue_len count only if `exact`. -/
def Took (n : Nat) (q : List DataItem) (s' : State) (es : List Event) (exact : Prop) : Prop :=
  ∃ q', Holds n s'.queue q' ∧ (es.filter (fun e => !e.isLen)).foldlM (Event.apply n) q = some q' ∧
    (exact → es.foldlM (Event.apply n) q = some q')

theorem took_silent {exact : Prop} (holds : Holds n s'.queue q) : Took n q s' [] exact :=
  ⟨q, holds, rfl, fun _ => rfl⟩

theorem took_event {q' : List DataItem} {e : Event} {exact : Prop} (holds : Holds n s'.queue q')
    (noLen : e.isLen = false) (applied : e.apply n q = some q') : Took n q s' [e] exact := by
  refine ⟨q', holds, ?_, fun _ => ?_⟩
  · simp [noLen, applied]
  · simp [applied]

theorem took_len {value : Nat} {exact : Prop} (holds : Holds n s'.queue q)
    (right : exact → value = q.length) : Took n q s' [.len t value] exact := by
  refine ⟨q, holds, ?_, fun here => ?_⟩
  · simp [Event.isLen]
  · simp [Event.apply, right here]

theorem block_took {list : Nat} {c : Call} {e : Event} {exact : Prop} (holds : Holds n s.queue q)
    (taken : block s t list timeout c e = some (s', es)) (noLen : e.isLen = false)
    (applied : e.apply n q = some q) : Took n q s' es exact := by
  simp only [block] at taken
  split at taken
  · contradiction
  · obtain ⟨k, -, result⟩ := Option.map_eq_some_iff.mp taken
    cases result
    exact took_event holds noLen applied

theorem push_took {exact : Prop} (holds : Holds n s.queue q)
    (taken : pushLoop s t item timeout = some (s', es)) : Took n q s' es exact := by
  simp only [pushLoop] at taken
  split at taken
  · rename_i isFull
    have full := holds.full.mp isFull
    split at taken
    · cases taken
      exact took_event holds rfl (if_pos full)
    · exact block_took holds taken rfl (if_pos full)
  · rename_i notFull
    have room : q.length < n := by
      have fits := holds.fits
      have differ := mt holds.full.mpr notFull
      lia
    cases taken
    exact took_event (holds.store room item) rfl (if_pos room)

theorem pop_took {exact : Prop} (holds : Holds n s.queue q)
    (taken : popLoop s t timeout = some (s', es)) : Took n q s' es exact := by
  simp only [popLoop] at taken
  split at taken
  · rename_i isEmpty
    have empty : q = [] := List.length_eq_zero_iff.mp (holds.empty.mp isEmpty)
    split at taken
    · cases taken
      exact took_event holds rfl (if_pos empty)
    · exact block_took holds taken rfl (if_pos empty)
  · rename_i notEmpty
    cases taken
    cases q with
    | nil => exact absurd (holds.empty.mpr rfl) notEmpty
    | cons item rest =>
      obtain ⟨head, left⟩ := holds.fetch
      exact took_event left rfl (if_pos (by rw [head]; rfl))

theorem resume_took (holds : Holds n s.queue q) (taken : resumeCall s t = some (s', es)) :
    Took n q s' es (LenInTime s (.resume t)) := by
  simp only [resumeCall] at taken
  split at taken
  · contradiction
  · split at taken
    · contradiction
    · split at taken
      · cases taken
        exact took_event holds rfl rfl
      · exact push_took holds taken
  · split at taken
    · contradiction
    · split at taken
      · cases taken
        exact took_event holds rfl rfl
      · exact pop_took holds taken
  · rename_i measuring
    cases taken
    apply took_len holds
    intro inTime
    have some : q.length ≠ 0 := by
      apply mt holds.empty.mpr
      simp [inTime measuring]
    simp [holds.lenSection, some]
  · cases taken
    apply took_silent
    simp only [resetTest]
    split
    · exact holds
    · split <;> exact holds
  · obtain ⟨left, woken, result⟩ := Option.map_eq_some_iff.mp taken
    cases result
    simp only [resetWake] at woken
    split at woken
    · contradiction
    · cases woken
      exact took_silent holds

theorem step_took (holds : Holds n s.queue q) {a : Action} (taken : step s a = some (s', es)) :
    Took n q s' es (LenInTime s a) := by
  cases a with
  | push t item timeout =>
    simp only [step, rtDataQueuePush] at taken
    split at taken
    · contradiction
    · exact push_took holds taken
  | pop t timeout =>
    simp only [step, rtDataQueuePop] at taken
    split at taken
    · contradiction
    · exact pop_took holds taken
  | len t =>
    simp only [step, lenTest] at taken
    split at taken
    · contradiction
    · split at taken
      · rename_i isEmpty
        cases taken
        exact took_len holds (fun _ => (holds.empty.mp isEmpty).symm)
      · cases taken
        exact took_silent holds
  | reset t =>
    simp only [step, rtDataQueueReset] at taken
    split at taken
    · contradiction
    · cases taken
      exact took_event holds.clear rfl rfl
  | resume t => exact resume_took holds taken
  | stale t kernel =>
    obtain ⟨left, stale, result⟩ := Option.map_eq_some_iff.mp taken
    cases result
    simp only [resetStale] at stale
    split at stale
    · cases stale
      exact took_silent holds
    · contradiction
  | timeout t =>
    obtain ⟨k, -, result⟩ := Option.map_eq_some_iff.mp taken
    cases result
    exact took_silent holds

theorem start_holds (start : Start n s) : Holds n s.queue [] := by
  obtain ⟨queue, lwm, init⟩ := start.init
  rw [init]
  exact init_holds queue lwm start.positive start.bound

theorem Holds.refines (holds : Holds n d q) (replayed : replay n tr = some q) : Refines n tr d q :=
  ⟨replayed, holds.fits, holds.empty, holds.full, holds.len, replay_once replayed⟩

theorem run_inv (run : Run (machine n) tr s) :
    ∃ q, Holds n s.queue q ∧ replay n (tr.filter (fun e => !e.isLen)) = some q := by
  apply run.invariant (I := fun tr s =>
    ∃ q, Holds n s.queue q ∧ replay n (tr.filter (fun e => !e.isLen)) = some q)
  · intro s start
    exact ⟨[], start_holds start, rfl⟩
  · rintro tr s a s' es ⟨q, holds, replayed⟩ taken
    obtain ⟨q', after, moved, -⟩ := step_took holds taken
    refine ⟨q', after, ?_⟩
    rw [List.filter_append, replay_append, replayed]
    exact moved

/-- In every run the queue is a FIFO of capacity `n`, the results of rt_data_queue_len apart. -/
theorem fifo_of_run (run : Run (machine n) tr s) :
    ∃ q, Refines n (tr.filter (fun e => !e.isLen)) s.queue q := by
  obtain ⟨q, holds, replayed⟩ := run_inv run
  exact ⟨q, holds.refines replayed⟩

/-- When no section of rt_data_queue_len finds the queue emptied since the test in front of
it, the queue is a FIFO of capacity `n` with exact flags and lengths. -/
theorem data_queue_refines (run : RunWhere (machine n) LenInTime tr s) :
    ∃ q, Refines n tr s.queue q := by
  have inv : ∃ q, Holds n s.queue q ∧ replay n tr = some q := by
    apply run.invariant (I := fun tr s => ∃ q, Holds n s.queue q ∧ replay n tr = some q)
    · intro s start
      exact ⟨[], start_holds start, rfl⟩
    · rintro tr s a s' es - ⟨q, holds, replayed⟩ inTime taken
      obtain ⟨q', after, -, moved⟩ := step_took holds taken
      refine ⟨q', after, ?_⟩
      rw [replay_append, replayed]
      exact moved inTime
  obtain ⟨q, holds, replayed⟩ := inv
  exact ⟨q, holds.refines replayed⟩

/-- Three threads of one priority and a queue of `n` items. -/
def threeCallers (n lwm : Nat) : State where
  kernel := startedThreads (fun _ => 10) 3
  queue := rtDataQueueInit (fun _ => ⟨0, 0⟩) n lwm
  call := fun _ => .idle

theorem threeCallers_start (n lwm : Nat) (positive : 1 ≤ n) (bound : n ≤ 32768) :
    Start n (threeCallers n lwm) where
  positive := positive
  bound := bound
  init := ⟨_, lwm, rfl⟩
  poppers := by rfl
  pushers := by rfl
  idle := fun _ => rfl

/-- A guard that `LenInTime` follows from and that can be computed. -/
def lenChecked (s : State) : Action → Bool
  | .resume t => s.call t ≠ .measuring || !s.queue.isEmpty
  | _ => true

theorem lenChecked_sound {a : Action} (checked : lenChecked s a = true) : LenInTime s a := by
  cases a with
  | resume t =>
    intro measuring
    simpa [lenChecked, measuring] using checked
  | _ => trivial

/-- Thread 2 waits for room in the full queue while thread 1 measures it; at the end
poppers wait, are thrown out by a reset or time out, and one more item is pushed. -/
theorem data_queue_refines_two_items :
    ∃ tr, ∃ s : State, (∃ q, Refines 2 tr s.queue q) ∧ s.queue.rtDataQueueLen = 1 := by
  obtain ⟨tr, s, run, found⟩ := Run.reaches (M := (machine 2).restrict lenChecked)
    (threeCallers_start 2 1 (by decide) (by decide))
    [.push 0 ⟨2, 2⟩ 0, .push 0 ⟨3, 3⟩ 0, .push 2 ⟨4, 4⟩ 5, .len 1, .resume 1, .pop 0 0, .resume 2, .pop 0 7,
      .reset 0, .pop 1 7, .pop 2 7, .resume 0, .resume 0, .timeout 2, .resume 0, .resume 1, .resume 2,
      .push 1 ⟨5, 5⟩ (-1)]
    (fun s => decide (s.queue.rtDataQueueLen = 1)) (by decide +kernel)
  exact ⟨tr, s, data_queue_refines (.ofRestrict (fun _ _ _ _ => lenChecked_sound) run),
    of_decide_eq_true found⟩

/-- The only item is popped between the test and the section of rt_data_queue_len, which
then returns the capacity. -/
theorem len_overtaken :
    ∃ s, Run (machine 4) [.pushed 0 ⟨1, 1⟩, .popped 2 ⟨1, 1⟩, .len 1 4] s ∧ s.queue.isEmpty = true ∧
      ¬ ∃ q, Refines 4 [.pushed 0 ⟨1, 1⟩, .popped 2 ⟨1, 1⟩, .len 1 4] s.queue q := by
  obtain ⟨s, run, isEmpty⟩ := Run.shows (M := machine 4)
    (threeCallers_start 4 1 (by decide) (by decide))
    [.push 0 ⟨1, 1⟩ 0, .len 1, .pop 2 0, .resume 1] [.pushed 0 ⟨1, 1⟩, .popped 2 ⟨1, 1⟩, .len 1 4]
    (fun s => s.queue.isEmpty) (by decide)
  refine ⟨s, run, isEmpty, ?_⟩
  rintro ⟨q, refines⟩
  have replayed := refines.replayed
  contradiction

/-- Whenever the queue has been emptied since the test, the length returned is wrong. -/
theorem late_len (run : Run (machine n) tr s) (measuring : s.call t = .measuring)
    (late : s.queue.isEmpty = true) :
    ∃ s', step s (.resume t) = some (s', [.len t n]) ∧ s'.queue.rtDataQueueLen ≠ n := by
  obtain ⟨q, holds, -⟩ := run_inv run
  have none := holds.empty.mp late
  refine ⟨s.goto t .idle, ?_, ?_⟩
  · simp only [step, resumeCall, measuring, holds.lenSection, none, if_true]
  · have output := holds.output
    simp only [State.goto, holds.len]
    lia

end DataQueue

end RtThread
