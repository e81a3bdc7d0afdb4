import RtThread.Run
import RtThread.Linked
import RtThread.Wake

/-! Message queues: rt_mq_send_wait, rt_mq_urgent, rt_mq_recv and rt_mq_control over
every order of their interrupt-disabled sections. A message is copied byte by byte
between the two sections of a call, while the caller holds its node. Receivers wait on
`.wait 0`, senders on `.wait 1`; the node of index `i` is the `i`-th one of the pool. -/
namespace RtThread.MessageQueue
open Kernel Transition Linked

def rtMqEntryMax : Nat := 0xffff

abbrev Byte := BitVec 8

/-- Where a caller is. `filling` and `draining` hold the node `msg`: the first has
stored `copied` of its bytes, the second has read `got`. -/
inductive Call where
  | idle
  | sendWait (bytes : List Byte) (timeout : Int) (tickDelta : Nat)
  | filling (urgent : Bool) (msg : Nat) (bytes : List Byte) (copied : Nat)
  | recvWait (size : Nat) (timeout : Int) (tickDelta : Nat)
  | draining (msg : Nat) (size : Nat) (got : List Byte)
  deriving DecidableEq

structure State where
  kernel : Kernel
  next : Nat → Option Nat
  data : Nat → Nat → Byte
  msgSize : Nat
  maxMsgs : Nat
  entry : Nat
  msgQueueHead : Option Nat
  msgQueueTail : Option Nat
  msgQueueFree : Option Nat
  flag : IpcFlag
  call : Tid → Call

/-- `sent` and `urgent` are shown when the message is linked, `popped` when it leaves the
queue and `received` when the receive returns. `overflow` is the -RT_EFULL return that
comes after the message has been linked. -/
inductive Event where
  | sent (t : Tid) (bytes : List Byte)
  | urgent (t : Tid) (bytes : List Byte)
  | overflow (t : Tid)
  | sendFailed (t : Tid) (e : Err)
  | popped (t : Tid)
  | received (t : Tid) (size : Nat) (bytes : List Byte)
  | recvFailed (t : Tid) (e : Err)
  | reset

/-- `run t` is the next step of the call that `t` is in. -/
inductive Action where
  | send (t : Tid) (bytes : List Byte) (timeout : Int)
  | urgent (t : Tid) (bytes : List Byte)
  | recv (t : Tid) (size : Nat) (timeout : Int)
  | run (t : Tid)
  | timeout (t : Tid)
  | tick
  | reset

def State.goto (s : State) (t : Tid) (c : Call) : State :=
  { s with call := Function.update s.call t c }

def setError (s : State) (t : Tid) (e : Err) : State :=
  { s with kernel := s.kernel.modify t (fun th => { th with error := e }) }

def block (s : State) (t : Tid) (o : Nat) (timeout : Int) (c : Call) : Option (State × List Event) :=
  if (s.kernel.thread t).stat ≠ .ready then none
  else
    ((s.kernel.rtIpcListSuspend (.wait o) t s.flag).startWaitTimer t timeout).map (fun k =>
      ({ s.goto t c with kernel := k }, []))

/-- Move the free list pointer past `msg`. A send then closes the node it holds. -/
def takeFree (s : State) (t : Tid) (urgent : Bool) (msg : Nat) (bytes : List Byte) : State :=
  { s.goto t (.filling urgent msg bytes 0) with
    msgQueueFree := s.next msg
    next := if urgent then s.next else Function.update s.next msg none }

def sendLoop (s : State) (t : Tid) (bytes : List Byte) (timeout : Int) (tickDelta : Nat) :
    Option (State × List Event) :=
  match s.msgQueueFree with
  | none =>
    let s := setError s t .eok
    if timeout = 0 then some (s.goto t .idle, [.sendFailed t .efull])
    else block s t 1 timeout
      (.sendWait bytes timeout (if 0 < timeout then s.kernel.tick else tickDelta))
  | some msg => some (takeFree s t false msg bytes, [])

/- `RT_ASSERT(size != 0)`; the size of a message is the length of the buffer given. -/
def rtMqSendWait (s : State) (t : Tid) (bytes : List Byte) (timeout : Int) :
    Option (State × List Event) :=
  if s.call t ≠ .idle ∨ bytes = [] then none
  else if s.msgSize < bytes.length then some (s, [.sendFailed t .error])
  else if s.msgQueueFree = none ∧ timeout = 0 then some (s, [.sendFailed t .efull])
  else sendLoop s t bytes timeout 0

def rtMqUrgent (s : State) (t : Tid) (bytes : List Byte) : Option (State × List Event) :=
  if s.call t ≠ .idle ∨ bytes = [] then none
  else if s.msgSize < bytes.length then some (s, [.sendFailed t .error])
  else match s.msgQueueFree with
  | none => some (s, [.sendFailed t .efull])
  | some msg => some (takeFree s t true msg bytes, [])

/-- The common end of both sends, the message being linked already. -/
def linked (s : State) (t : Tid) (e : Event) : State × List Event :=
  if s.entry < rtMqEntryMax then
    ({ s with entry := s.entry + 1, kernel := s.kernel.rtIpcListResume (.wait 0) }, [e])
  else (s, [.overflow t])

def linkBack (s : State) (t : Tid) (msg : Nat) (bytes : List Byte) : State × List Event :=
  linked { s.goto t .idle with
    next := s.msgQueueTail.elim s.next (fun last => Function.update s.next last (some msg))
    msgQueueTail := some msg
    msgQueueHead := s.msgQueueHead.or (some msg) } t (.sent t bytes)

def linkFront (s : State) (t : Tid) (msg : Nat) (bytes : List Byte) : State × List Event :=
  linked { s.goto t .idle with
    next := Function.update s.next msg s.msgQueueHead
    msgQueueHead := some msg
    msgQueueTail := s.msgQueueTail.or (some msg) } t (.urgent t bytes)

/-- `none` where the code would follow a null head. -/
def popHead (s : State) (t : Tid) (size : Nat) : Option (State × List Event) :=
  s.msgQueueHead.map (fun msg =>
    ({ s.goto t (.draining msg size []) with
      msgQueueHead := s.next msg
      msgQueueTail := if s.msgQueueTail = some msg then none else s.msgQueueTail
      entry := if 0 < s.entry then s.entry - 1 else s.entry }, [.popped t]))

def recvLoop (s : State) (t : Tid) (size : Nat) (timeout : Int) (tickDelta : Nat) :
    Option (State × List Event) :=
  if s.entry = 0 then
    let s := setError s t .eok
    if timeout = 0 then some ((setError s t .etimeout).goto t .idle, [.recvFailed t .etimeout])
    else block s t 0 timeout
      (.recvWait size timeout (if 0 < timeout then s.kernel.tick else tickDelta))
  else popHead s t size

def rtMqRecv (s : State) (t : Tid) (size : Nat) (timeout : Int) : Option (State × List Event) :=
  if s.call t ≠ .idle ∨ size = 0 then none
  else if s.entry = 0 ∧ timeout = 0 then some (s, [.recvFailed t .etimeout])
  else recvLoop s t size timeout 0

/-- The second section of rt_mq_recv. -/
def putBack (s : State) (t : Tid) (msg size : Nat) (got : List Byte) : State × List Event :=
  ({ s.goto t .idle with
    next := Function.update s.next msg s.msgQueueFree
    msgQueueFree := some msg
    kernel := s.kernel.rtIpcListResume (.wait 1) }, [.received t size got])

def copyIn (s : State) (t : Tid) (urgent : Bool) (msg : Nat) (bytes : List Byte) (copied : Nat)
    (b : Byte) : State :=
  { s.goto t (.filling urgent msg bytes (copied + 1)) with
    data := Function.update s.data msg (Function.update (s.data msg) copied b) }

def runCall (s : State) (t : Tid) : Option (State × List Event) :=
  let th := s.kernel.thread t
  match s.call t with
  | .idle => none
  | .sendWait bytes timeout tickDelta =>
    if th.stat ≠ .ready then none
    else if th.error ≠ .eok then some (s.goto t .idle, [.sendFailed t th.error])
    else sendLoop s t bytes (remainingTime timeout tickDelta s.kernel.tick) tickDelta
  | .filling urgent msg bytes copied =>
    match bytes[copied]? with
    | some b => some (copyIn s t urgent msg bytes copied b, [])
    | none => some (if urgent then linkFront s t msg bytes else linkBack s t msg bytes)
  | .recvWait size timeout tickDelta =>
    if th.stat ≠ .ready then none
    else if th.error ≠ .eok then some (s.goto t .idle, [.recvFailed t th.error])
    else recvLoop s t size (remainingTime timeout tickDelta s.kernel.tick) tickDelta
  | .draining msg size got =>
    if got.length < min size s.msgSize then
      some (s.goto t (.draining msg size (got ++ [s.data msg got.length])), [])
    else some (putBack s t msg size got)

/-- One turn of the reset loop: the first message goes to the free list. -/
def releaseHead (s : State) (msg : Nat) : State :=
  { s with
    msgQueueHead := s.next msg
    msgQueueTail := if s.msgQueueTail = some msg then none else s.msgQueueTail
    next := Function.update s.next msg s.msgQueueFree
    msgQueueFree := some msg }

/-- The loop of the reset. It ends after as many turns as there are nodes; running out
of fuel is an endless loop. -/
def releaseAll : Nat → State → Option State
  | fuel, s =>
    match s.msgQueueHead with
    | none => some s
    | some msg =>
      match fuel with
      | 0 => none
      | fuel + 1 => releaseAll fuel (releaseHead s msg)

/-- rt_mq_control with RT_IPC_CMD_RESET. -/
def rtMqReset (s : State) : Option (State × List Event) :=
  ((s.kernel.rtIpcListResumeAll (.wait 0)).bind (fun k => k.rtIpcListResumeAll (.wait 1))).bind
    (fun k => (releaseAll s.maxMsgs { s with kernel := k }).map (fun s => ({ s with entry := 0 }, [.reset])))

def step (s : State) : Action → Option (State × List Event)
  | .send t bytes timeout => rtMqSendWait s t bytes timeout
  | .urgent t bytes => rtMqUrgent s t bytes
  | .recv t size timeout => rtMqRecv s t size timeout
  | .run t => runCall s t
  | .timeout t => (s.kernel.timerExpire t).map (fun k => ({ s with kernel := k }, []))
  | .tick => some ({ s with kernel := { s.kernel with tick := (s.kernel.tick + 1) % 2 ^ 32 } }, [])
  | .reset => rtMqReset s

/-- The loop of rt_mq_init that puts the nodes on the free list. -/
def initFree (next : Nat → Option Nat) : Nat → (Nat → Option Nat) × Option Nat
  | 0 => (next, none)
  | n + 1 =>
    let r := initFree next n
    (Function.update r.1 n r.2, some n)

/-- After rt_mq_init with `n` nodes, with no thread inside a call. -/
structure Start (n : Nat) (s : State) : Prop where
  maxMsgs : s.maxMsgs = n
  bound : n ≤ 65535
  pool : ∃ garbage, (s.next, s.msgQueueFree) = initFree garbage n
  entry : s.entry = 0
  head : s.msgQueueHead = none
  tail : s.msgQueueTail = none
  receivers : s.kernel.list (.wait 0) = []
  senders : s.kernel.list (.wait 1) = []
  idle : ∀ t, s.call t = .idle

def machine (n : Nat) : Machine State Action Event where
  start := Start n
  step := step

/-- The node a call holds between its two sections. -/
def Call.msg : Call → Option Nat
  | .filling _ msg _ _ => some msg
  | .draining msg _ _ => some msg
  | _ => none

def Call.isSending : Call → Bool
  | .sendWait .. => true
  | _ => false

def Call.isReceiving : Call → Bool
  | .recvWait .. => true
  | _ => false

def Sender (s : State) (t : Tid) : Prop := (s.call t).isSending = true
def Receiver (s : State) (t : Tid) : Prop := (s.call t).isReceiving = true

/-- What the queue is for: a deque of messages, with the message each receiver has
taken out and not returned yet. -/
structure Deque where
  queue : List (List Byte)
  taken : Tid → Option (List Byte)

/-- A receive of `size` bytes out of the message `m`: `min size msgSize` bytes, the
first of them those of `m`. -/
def Copied (msgSize size : Nat) (m got : List Byte) : Prop :=
  got.length = min size msgSize ∧ got.take m.length = m.take got.length

instance (msgSize size : Nat) (m got : List Byte) : Decidable (Copied msgSize size m got) :=
  inferInstanceAs (Decidable (_ ∧ _))

def Deque.step (msgSize : Nat) (d : Deque) : Event → Option Deque
  | .sent _ bytes => some { d with queue := d.queue ++ [bytes] }
  | .urgent _ bytes => some { d with queue := bytes :: d.queue }
  | .overflow _ => none
  | .popped t =>
    match d.queue with
    | [] => none
    | m :: rest => some ⟨rest, Function.update d.taken t (some m)⟩
  | .received t size got =>
    match d.taken t with
    | none => none
    | some m =>
      if Copied msgSize size m got then some { d with taken := Function.update d.taken t none } else none
  | .reset => some { d with queue := [] }
  | .sendFailed .. | .recvFailed .. => some d

/-- The deque after a history, `none` if no deque behaves that way. -/
def replay (msgSize : Nat) (tr : List Event) : Option Deque :=
  tr.foldlM (Deque.step msgSize) ⟨[], fun _ => none⟩

/-- The first bytes of a node are those of the message. -/
def Stored (data : Nat → Nat → Byte) (msg : Nat) (bytes : List Byte) : Prop :=
  ∀ i b, bytes[i]? = some b → data msg i = b

/-- What holds of a call that holds a node, `taken` being the message the deque says it
has taken out. -/
def CallOk (next : Nat → Option Nat) (data : Nat → Nat → Byte) (msgSize : Nat)
    (taken : Option (List Byte)) : Call → Prop
  | .filling urgent msg bytes copied =>
    (urgent = false → next msg = none) ∧ copied ≤ bytes.length ∧ Stored data msg (bytes.take copied)
  | .draining msg size got =>
    (∃ m, taken = some m ∧ Stored data msg m) ∧ Stored data msg got ∧ got.length ≤ min size msgSize
  | _ => True

def holders (call : Tid → Call) (t : Tid) : Option Nat := (call t).msg

/-- Nodes, messages and history, with the free list `frees`, the queue `queued` and the
deque `d` written out. The kernel is not part of it. -/
structure Store (n : Nat) (tr : List Event) (s : State) (frees queued : List Nat) (d : Deque) : Prop where
  sized : s.maxMsgs = n
  bound : n ≤ 65535
  pool : Pool s.next s.msgQueueHead s.msgQueueTail s.msgQueueFree (holders s.call) (· < s.maxMsgs)
    frees queued
  entry : s.entry = queued.length
  calls : ∀ t, CallOk s.next s.data s.msgSize (d.taken t) (s.call t)
  stored : List.Forall₂ (Stored s.data) queued d.queue
  replayed : replay s.msgSize tr = some d

def Inv (n : Nat) (tr : List Event) (s : State) : Prop :=
  ∃ frees queued d, Store n tr s frees queued d ∧
    Sides s.kernel (Receiver s) (Sender s) s.entry frees.length

variable {n r w : Nat} {tr : List Event} {s s' : State} {es : List Event} {t : Tid}
  {bytes got : List Byte} {msg size : Nat} {timeout : Int} {tickDelta : Nat} {frees queued : List Nat}
  {d d' : Deque} {c : Call}

theorem holders_update (call : Tid → Call) (t : Tid) (c : Call) :
    holders (Function.update call t c) = Function.update (holders call) t c.msg := by
  funext u
  by_cases hu : u = t <;> simp [holders, hu]

theorem replay_append {e : Event} (old : replay s.msgSize tr = some d)
    (next : d.step s.msgSize e = some d') : replay s.msgSize (tr ++ [e]) = some d' := by
  exact (replay_one old e).trans next

theorem CallOk.frame {next next' : Nat → Option Nat} {data data' : Nat → Nat → Byte}
    {taken : Option (List Byte)} (ok : CallOk next data size taken c)
    (same : ∀ m, c.msg = some m → next' m = next m ∧ data' m = data m) :
    CallOk next' data' size taken c := by
  cases c with
  | filling urgent m bytes copied =>
    obtain ⟨sameNext, sameData⟩ := same m rfl
    simpa only [CallOk, Stored, sameNext, sameData] using ok
  | draining m size got =>
    obtain ⟨_, sameData⟩ := same m rfl
    simpa only [CallOk, Stored, sameData] using ok
  | _ => trivial

theorem stored_frame {data data' : Nat → Nat → Byte} {q : List (List Byte)}
    (stored : List.Forall₂ (Stored data) queued q) (same : ∀ m ∈ queued, data' m = data m) :
    List.Forall₂ (Stored data') queued q := by
  induction stored with
  | nil => exact .nil
  | @cons m bytes _ _ first _ ih =>
    refine .cons ?_ (ih fun m here => same m (List.mem_cons_of_mem _ here))
    intro i b
    rw [same m List.mem_cons_self]
    exact first i b

theorem Store.kernel (store : Store n tr s frees queued d) (k : Kernel) :
    Store n tr { s with kernel := k } frees queued d :=
  ⟨store.sized, store.bound, store.pool, store.entry, store.calls, store.stored, store.replayed⟩

theorem Store.setError (store : Store n tr s frees queued d) (t : Tid) (e : Err) :
    Store n tr (setError s t e) frees queued d := store.kernel _

theorem Store.append {e : Event} (store : Store n tr s frees queued d)
    (next : d.step s.msgSize e = some d) : Store n (tr ++ [e]) s frees queued d :=
  ⟨store.sized, store.bound, store.pool, store.entry, store.calls, store.stored,
    replay_append store.replayed next⟩

theorem Store.goto (store : Store n tr s frees queued d) (free : (s.call t).msg = none)
    (plain : c.msg = none) : Store n tr (s.goto t c) frees queued d := by
  have same : holders (Function.update s.call t c) = holders s.call := by
    rw [holders_update, plain, ← show holders s.call t = none from free, Function.update_eq_self]
  refine ⟨store.sized, store.bound, ?_, store.entry, ?_, store.stored, store.replayed⟩
  · change Pool _ _ _ _ (holders (Function.update s.call t c)) _ _ _
    rw [same]
    exact store.pool
  · intro u
    by_cases hu : u = t
    · subst hu
      cases c <;> simp_all [State.goto, CallOk, Call.msg]
    · simpa [State.goto, hu] using store.calls u

theorem Store.take {rest : List Nat} (store : Store n tr s (msg :: rest) queued d)
    (free : (s.call t).msg = none) (urgent : Bool) (bytes : List Byte) :
    Store n tr (takeFree s t urgent msg bytes) rest queued d := by
  have pool := store.pool.take (t := t) free
  refine ⟨store.sized, store.bound, ?_, store.entry, ?_, store.stored, store.replayed⟩
  · change Pool (if urgent then s.next else Function.update s.next msg none) _ _ _
      (holders (Function.update s.call t (.filling urgent msg bytes 0))) _ _ _
    rw [holders_update]
    cases urgent
    · exact pool.frame (t := t) (by simp) none
    · exact pool
  · intro u
    by_cases hu : u = t
    · subst hu
      simp [takeFree, State.goto, CallOk, Stored]
      rintro rfl
      simp
    · have old := store.calls u
      simp only [takeFree, State.goto, Function.update_of_ne hu]
      refine old.frame (fun m held => ⟨?_, rfl⟩)
      have out := store.pool.heldOut u m held
      have other : m ≠ msg := by rintro rfl; simp at out
      split
      · rfl
      · rw [Function.update_of_ne other]

theorem Store.copyIn {urgent : Bool} {copied : Nat} {b : Byte} (store : Store n tr s frees queued d)
    (call : s.call t = .filling urgent msg bytes copied) (byte : bytes[copied]? = some b) :
    Store n tr (copyIn s t urgent msg bytes copied b) frees queued d := by
  have held : holders s.call t = some msg := by simp [holders, call, Call.msg]
  have out := store.pool.heldOut t msg held
  simp only [List.mem_append, not_or] at out
  obtain ⟨closed, _, done⟩ : CallOk s.next s.data s.msgSize (d.taken t) (.filling urgent msg bytes copied) :=
    call ▸ store.calls t
  obtain ⟨inside, value⟩ := List.getElem?_eq_some_iff.mp byte
  refine ⟨store.sized, store.bound, ?_, store.entry, ?_, ?_, store.replayed⟩
  · change Pool _ _ _ _ (holders (Function.update s.call t (.filling urgent msg bytes (copied + 1)))) _ _ _
    rw [holders_update, show (Call.filling urgent msg bytes (copied + 1)).msg = holders s.call t by
      simp [held, Call.msg], Function.update_eq_self]
    exact store.pool
  · intro u
    by_cases hu : u = t
    · subst hu
      simp only [MessageQueue.copyIn, State.goto, Function.update_self, CallOk]
      refine ⟨closed, inside, ?_⟩
      intro i x at_i
      rw [List.getElem?_take] at at_i
      by_cases last : i = copied
      · subst last
        simpa [byte] using at_i
      · have before : i < copied := by
          by_contra h
          rw [if_neg (by lia)] at at_i
          cases at_i
        rw [if_pos (by lia)] at at_i
        simp only [Function.update_self, Function.update_of_ne last]
        exact done i x (by rw [List.getElem?_take, if_pos before]; exact at_i)
    · have old := store.calls u
      simp only [MessageQueue.copyIn, State.goto, Function.update_of_ne hu]
      refine old.frame (fun m heldOther => ⟨rfl, ?_⟩)
      have other : m ≠ msg := by
        rintro rfl
        exact hu (store.pool.heldOnce u t m heldOther held)
      rw [Function.update_of_ne other]
  · refine stored_frame store.stored (fun m here => ?_)
    have other : m ≠ msg := by rintro rfl; exact out.2 here
    simp [MessageQueue.copyIn, other]

theorem Store.apart {u : Tid} {m : Nat} (store : Store n tr s frees queued d)
    (held : holders s.call t = some msg) (other : u ≠ t) (theirs : (s.call u).msg = some m) :
    m ≠ msg ∧ m ∉ frees ∧ m ∉ queued := by
  have out := store.pool.heldOut u m theirs
  simp only [List.mem_append, not_or] at out
  refine ⟨?_, out⟩
  rintro rfl
  exact other (store.pool.heldOnce u t m theirs held)

theorem Store.filled {urgent : Bool} {copied : Nat} (store : Store n tr s frees queued d)
    (call : s.call t = .filling urgent msg bytes copied) (whole : bytes[copied]? = none) :
    holders s.call t = some msg ∧ (urgent = false → s.next msg = none) ∧ Stored s.data msg bytes ∧
      s.entry < rtMqEntryMax := by
  have held : holders s.call t = some msg := by simp [holders, call, Call.msg]
  obtain ⟨closed, _, done⟩ : CallOk s.next s.data s.msgSize (d.taken t) (.filling urgent msg bytes copied) :=
    call ▸ store.calls t
  have short := store.pool.queue_lt held
  refine ⟨held, closed, ?_, ?_⟩
  · rwa [List.take_of_length_le (List.getElem?_eq_none_iff.mp whole)] at done
  · have sized := store.sized
    have bound := store.bound
    have entry := store.entry
    unfold rtMqEntryMax
    lia

theorem Store.linkBack {copied : Nat} (store : Store n tr s frees queued d)
    (call : s.call t = .filling false msg bytes copied) (whole : bytes[copied]? = none)
    (taken : linkBack s t msg bytes = (s', es)) :
    ∃ d', Store n (tr ++ es) s' frees (queued ++ [msg]) d' ∧ s'.call = Function.update s.call t .idle ∧
      s'.entry = s.entry + 1 ∧ s'.kernel = s.kernel.rtIpcListResume (.wait 0) := by
  obtain ⟨held, closed, done, small⟩ := store.filled call whole
  simp only [MessageQueue.linkBack, linked, State.goto, small, if_true] at taken
  cases taken
  refine ⟨{ d with queue := d.queue ++ [bytes] }, ⟨store.sized, store.bound, ?_, ?_, ?_, ?_, ?_⟩,
    rfl, rfl, rfl⟩
  · change Pool _ _ _ _ (holders (Function.update s.call t .idle)) _ _ _
    rw [holders_update]
    exact store.pool.pushBack held (closed rfl)
  · simp [store.entry]
  · intro u
    by_cases hu : u = t
    · subst hu
      simp [CallOk]
    · simp only [Function.update_of_ne hu]
      refine (store.calls u).frame (fun m theirs => ⟨?_, rfl⟩)
      obtain ⟨_, _, away⟩ := store.apart held hu theirs
      cases last : s.msgQueueTail with
      | none => rfl
      | some l =>
        have here : l ∈ queued := List.mem_of_getLast? (store.pool.last ▸ last)
        have other : m ≠ l := by rintro rfl; exact away here
        simp [other]
  · exact List.rel_append store.stored (.cons done .nil)
  · exact replay_append store.replayed rfl

theorem Store.linkFront {copied : Nat} (store : Store n tr s frees queued d)
    (call : s.call t = .filling true msg bytes copied) (whole : bytes[copied]? = none)
    (taken : linkFront s t msg bytes = (s', es)) :
    ∃ d', Store n (tr ++ es) s' frees (msg :: queued) d' ∧ s'.call = Function.update s.call t .idle ∧
      s'.entry = s.entry + 1 ∧ s'.kernel = s.kernel.rtIpcListResume (.wait 0) := by
  obtain ⟨held, _, done, small⟩ := store.filled call whole
  simp only [MessageQueue.linkFront, linked, State.goto, small, if_true] at taken
  cases taken
  refine ⟨{ d with queue := bytes :: d.queue }, ⟨store.sized, store.bound, ?_, ?_, ?_, ?_, ?_⟩,
    rfl, rfl, rfl⟩
  · change Pool _ _ _ _ (holders (Function.update s.call t .idle)) _ _ _
    rw [holders_update]
    exact store.pool.pushFront held
  · simp [store.entry]
  · intro u
    by_cases hu : u = t
    · subst hu
      simp [CallOk]
    · simp only [Function.update_of_ne hu]
      refine (store.calls u).frame (fun m theirs => ⟨?_, rfl⟩)
      rw [Function.update_of_ne (store.apart held hu theirs).1]
  · exact .cons done store.stored
  · exact replay_append store.replayed rfl

theorem Store.pop (store : Store n tr s frees queued d) (free : (s.call t).msg = none)
    (present : s.entry ≠ 0) (taken : popHead s t size = some (s', es)) :
    ∃ msg rest d', Store n (tr ++ es) s' frees rest d' ∧
      s'.call = Function.update s.call t (.draining msg size []) ∧
      s'.entry = s.entry - 1 ∧ s'.kernel = s.kernel := by
  obtain ⟨msg, head, result⟩ := Option.map_eq_some_iff.mp taken
  cases result
  have chain := store.pool.queueChain
  rw [head] at chain
  obtain ⟨rest, rfl⟩ := chain.some_inv
  have positive : 0 < s.entry := Nat.pos_of_ne_zero present
  have entry := store.entry
  have stored := store.stored
  cases queue : d.queue with
  | nil => rw [queue] at stored; cases stored
  | cons m q =>
    rw [queue] at stored
    obtain ⟨first, others⟩ := List.forall₂_cons.mp stored
    refine ⟨msg, rest, ⟨q, Function.update d.taken t (some m)⟩,
      ⟨store.sized, store.bound, ?_, ?_, ?_, others, ?_⟩, rfl, by simp [positive], rfl⟩
    · change Pool _ _ _ _ (holders (Function.update s.call t (.draining msg size []))) _ _ _
      rw [holders_update]
      exact store.pool.popFront free
    · simp [entry]
    · intro u
      by_cases hu : u = t
      · subst hu
        simp [State.goto, CallOk, Stored] at first ⊢
        exact first
      · simpa [State.goto, hu] using store.calls u
    · exact replay_append store.replayed (by simp [Deque.step, queue])

theorem Store.copyOut (store : Store n tr s frees queued d) (call : s.call t = .draining msg size got)
    (more : got.length < min size s.msgSize) :
    Store n tr (s.goto t (.draining msg size (got ++ [s.data msg got.length]))) frees queued d := by
  have held : holders s.call t = some msg := by simp [holders, call, Call.msg]
  obtain ⟨matching, sofar, _⟩ : CallOk s.next s.data s.msgSize (d.taken t) (.draining msg size got) :=
    call ▸ store.calls t
  refine ⟨store.sized, store.bound, ?_, store.entry, ?_, store.stored, store.replayed⟩
  · change Pool _ _ _ _ (holders (Function.update s.call t _)) _ _ _
    rw [holders_update, show (Call.draining msg size (got ++ [s.data msg got.length])).msg =
      holders s.call t by simp [held, Call.msg], Function.update_eq_self]
    exact store.pool
  · intro u
    by_cases hu : u = t
    · subst hu
      simp only [State.goto, Function.update_self, CallOk]
      refine ⟨matching, ?_, by simpa [Nat.succ_le_iff] using more⟩
      intro i b at_i
      rcases Nat.lt_trichotomy i got.length with before | rfl | after
      · exact sofar i b (by rwa [List.getElem?_append_left before] at at_i)
      · simpa using at_i
      · rw [List.getElem?_eq_none_iff.mpr (by simp; lia)] at at_i
        cases at_i
    · simpa [State.goto, hu] using store.calls u

theorem stored_agree {data : Nat → Nat → Byte} {m : List Byte} (first : Stored data msg m)
    (second : Stored data msg got) : got.take m.length = m.take got.length := by
  apply List.ext_getElem?
  intro i
  rw [List.getElem?_take, List.getElem?_take]
  by_cases inM : i < m.length <;> by_cases inGot : i < got.length
  · rw [if_pos inM, if_pos inGot, List.getElem?_eq_getElem inM, List.getElem?_eq_getElem inGot]
    rw [← first i _ (List.getElem?_eq_getElem inM), ← second i _ (List.getElem?_eq_getElem inGot)]
  · simp [inM, inGot]
  · simp [inM, inGot]
  · simp [inM, inGot]

theorem Store.putBack (store : Store n tr s frees queued d) (call : s.call t = .draining msg size got)
    (whole : ¬ got.length < min size s.msgSize) (taken : putBack s t msg size got = (s', es)) :
    ∃ d', Store n (tr ++ es) s' (msg :: frees) queued d' ∧ s'.call = Function.update s.call t .idle ∧
      s'.entry = s.entry ∧ s'.kernel = s.kernel.rtIpcListResume (.wait 1) := by
  have held : holders s.call t = some msg := by simp [holders, call, Call.msg]
  obtain ⟨⟨m, matching, message⟩, read, length⟩ :
    CallOk s.next s.data s.msgSize (d.taken t) (.draining msg size got) := call ▸ store.calls t
  have copied : Copied s.msgSize size m got :=
    ⟨Nat.le_antisymm length (Nat.le_of_not_lt whole), stored_agree message read⟩
  cases taken
  refine ⟨{ d with taken := Function.update d.taken t none },
    ⟨store.sized, store.bound, ?_, store.entry, ?_, store.stored, ?_⟩, rfl, rfl, rfl⟩
  · change Pool _ _ _ _ (holders (Function.update s.call t .idle)) _ _ _
    rw [holders_update]
    exact store.pool.giveBack held
  · intro u
    by_cases hu : u = t
    · subst hu
      simp [State.goto, CallOk]
    · simp only [State.goto, Function.update_of_ne hu]
      refine (store.calls u).frame (fun m theirs => ⟨?_, rfl⟩)
      rw [Function.update_of_ne (store.apart held hu theirs).1]
  · exact replay_append (s := s) store.replayed (by simp [Deque.step, matching, copied])

theorem releaseAll_spec (fuel : Nat) (s : State) (frees queued : List Nat)
    (pool : Pool s.next s.msgQueueHead s.msgQueueTail s.msgQueueFree (holders s.call) (· < s.maxMsgs)
      frees queued) (enough : queued.length ≤ fuel) :
    ∃ s' frees', releaseAll fuel s = some s' ∧ s'.msgQueueHead = none ∧
      Pool s'.next s'.msgQueueHead s'.msgQueueTail s'.msgQueueFree (holders s.call) (· < s.maxMsgs)
        frees' [] ∧
      (∀ m, m ∉ queued → s'.next m = s.next m) ∧
      s' = { s with
        next := s'.next, msgQueueHead := s'.msgQueueHead, msgQueueTail := s'.msgQueueTail,
        msgQueueFree := s'.msgQueueFree } := by
  induction queued generalizing s frees fuel with
  | nil =>
    have empty : s.msgQueueHead = none := by
      have chain := pool.queueChain
      cases head : s.msgQueueHead with
      | none => rfl
      | some msg => rw [head] at chain; cases chain
    refine ⟨s, frees, ?_, empty, pool, fun _ _ => rfl, rfl⟩
    unfold releaseAll
    rw [empty]
  | cons msg rest ih =>
    have head := pool.queueChain.cons_inv.1
    obtain ⟨fuel, rfl⟩ : ∃ f, fuel = f + 1 := ⟨fuel - 1, by simp at enough; lia⟩
    obtain ⟨s', frees', done, empty, pool', kept, same⟩ := ih fuel (releaseHead s msg) (msg :: frees)
      pool.recycle (by simpa using enough)
    refine ⟨s', frees', ?_, empty, pool', ?_, same⟩
    · unfold releaseAll
      rw [head]
      exact done
    · intro m away
      simp only [List.mem_cons, not_or] at away
      rw [kept m away.2]
      simp [releaseHead, away.1]

/-- What the wait lists are with `t` counted out, while it runs a section. -/
def Apart (s : State) (t : Tid) (r w : Nat) : Prop :=
  Sides s.kernel (Without t (Receiver s)) (Without t (Sender s)) r w

theorem Apart.out {k : Kernel} (sides : Sides k (Without t (Receiver s)) (Without t (Sender s)) r w)
    (moved : s'.call = Function.update s.call t c) (noReceiver : c.isReceiving = false)
    (noSender : c.isSending = false) : Sides k (Receiver s') (Sender s') r w := by
  refine sides.congr ?_ ?_ <;> intro u
  · by_cases hu : u = t <;> simp [Without, Receiver, moved, hu, noReceiver]
  · by_cases hu : u = t <;> simp [Without, Sender, moved, hu, noSender]

theorem apart_of_inv (sides : Sides s.kernel (Receiver s) (Sender s) r w)
    (noReceiver : (s.call t).isReceiving = false) (noSender : (s.call t).isSending = false) :
    Apart s t r w :=
  sides.enter (by simp [Receiver, noReceiver]) (by simp [Sender, noSender])

theorem Apart.setError (sides : Apart s t r w) (e : Err) : Apart (setError s t e) t r w :=
  Sides.setError sides e

theorem block_cases {o : Nat} (taken : block s t o timeout c = some (s', es)) :
    (s.kernel.thread t).stat = .ready ∧ es = [] ∧ ∃ k,
      (s.kernel.rtIpcListSuspend (.wait o) t s.flag).startWaitTimer t timeout = some k ∧
      s' = { s.goto t c with kernel := k } := by
  simp only [block] at taken
  split at taken
  · contradiction
  · rename_i ready
    obtain ⟨k, started, done⟩ := Option.map_eq_some_iff.mp taken
    cases done
    exact ⟨not_not.mp ready, rfl, k, started, rfl⟩

theorem failed_inv {e : Event} (store : Store n tr s frees queued d) (free : (s.call t).msg = none)
    (sides : Apart s t s.entry frees.length) (failure : d.step s.msgSize e = some d) :
    Inv n (tr ++ [e]) (s.goto t .idle) :=
  ⟨frees, queued, d, (store.goto free rfl).append failure, Apart.out sides rfl rfl rfl⟩

theorem sendBlock_inv (store : Store n tr s [] queued d) (free : (s.call t).msg = none)
    (sides : Apart s t s.entry w) (clean : (s.kernel.thread t).error = .eok)
    (taken : block s t 1 timeout (.sendWait bytes timeout tickDelta) = some (s', es)) :
    Inv n (tr ++ es) s' := by
  obtain ⟨ready, rfl, k, started, rfl⟩ := block_cases taken
  rw [List.append_nil]
  refine ⟨[], queued, d, (store.goto free rfl).kernel k, ?_⟩
  refine (Sides.blockSender sides ready clean started).congr ?_ ?_ <;> intro u
  · by_cases hu : u = t <;> simp [Without, Receiver, State.goto, Call.isReceiving, hu]
  · by_cases hu : u = t <;> simp [Without, Sender, State.goto, Call.isSending, hu]

theorem recvBlock_inv (store : Store n tr s frees queued d) (free : (s.call t).msg = none)
    (sides : Apart s t r frees.length) (empty : s.entry = 0) (clean : (s.kernel.thread t).error = .eok)
    (taken : block s t 0 timeout (.recvWait size timeout tickDelta) = some (s', es)) :
    Inv n (tr ++ es) s' := by
  obtain ⟨ready, rfl, k, started, rfl⟩ := block_cases taken
  rw [List.append_nil]
  refine ⟨frees, queued, d, (store.goto free rfl).kernel k, ?_⟩
  change Sides k _ _ s.entry frees.length
  rw [empty]
  refine (Sides.blockReceiver sides ready clean started).congr ?_ ?_ <;> intro u
  · by_cases hu : u = t <;> simp [Without, Receiver, State.goto, Call.isReceiving, hu]
  · by_cases hu : u = t <;> simp [Without, Sender, State.goto, Call.isSending, hu]

theorem sendLoop_inv (store : Store n tr s frees queued d) (free : (s.call t).msg = none)
    (sides : Apart s t s.entry (frees.length - 1))
    (taken : sendLoop s t bytes timeout tickDelta = some (s', es)) : Inv n (tr ++ es) s' := by
  have chain := store.pool.freeChain
  simp only [sendLoop] at taken
  split at taken
  · rename_i full
    rw [full, Chain.none_iff] at chain
    subst chain
    have cleared := sides.setError .eok
    split at taken
    · cases Option.some.inj taken
      exact failed_inv (store.setError t .eok) free cleared rfl
    · exact sendBlock_inv (store.setError t .eok) free cleared (by simp [setError]) taken
  · rename_i msg first
    rw [first] at chain
    obtain ⟨rest, rfl⟩ := chain.some_inv
    cases Option.some.inj taken
    rw [List.append_nil]
    exact ⟨rest, queued, d, store.take free false bytes, Apart.out sides rfl rfl rfl⟩

theorem recvLoop_inv (store : Store n tr s frees queued d) (free : (s.call t).msg = none)
    (sides : Apart s t (s.entry - 1) frees.length)
    (taken : recvLoop s t size timeout tickDelta = some (s', es)) : Inv n (tr ++ es) s' := by
  simp only [recvLoop] at taken
  split at taken
  · rename_i empty
    have cleared := sides.setError .eok
    split at taken
    · cases Option.some.inj taken
      have few : s.entry ≤ s.entry - 1 := by lia
      have weaker := (cleared.setError .etimeout).weaken few (Nat.le_refl _)
      exact failed_inv ((store.setError t .eok).setError t .etimeout) free weaker rfl
    · exact recvBlock_inv (store.setError t .eok) free cleared empty (by simp [setError]) taken
  · rename_i present
    obtain ⟨msg, rest, d', store', moved, entry, kernel⟩ := store.pop free present taken
    refine ⟨frees, rest, d', store', ?_⟩
    rw [kernel, entry]
    exact Apart.out sides moved rfl rfl

theorem send_inv (inv : Inv n tr s) (taken : rtMqSendWait s t bytes timeout = some (s', es)) :
    Inv n (tr ++ es) s' := by
  obtain ⟨frees, queued, d, store, sides⟩ := inv
  simp only [rtMqSendWait] at taken
  split at taken
  · contradiction
  · rename_i enabled
    simp only [not_or, not_not] at enabled
    have idle := enabled.1
    have free : (s.call t).msg = none := by simp [idle, Call.msg]
    have apart : Apart s t s.entry frees.length := apart_of_inv sides (by simp [idle, Call.isReceiving])
      (by simp [idle, Call.isSending])
    split at taken
    · cases Option.some.inj taken
      exact ⟨frees, queued, d, store.append rfl, sides⟩
    · split at taken
      · cases Option.some.inj taken
        exact ⟨frees, queued, d, store.append rfl, sides⟩
      · exact sendLoop_inv store free (apart.weaken (Nat.le_refl _) (Nat.sub_le _ _)) taken

theorem urgent_inv (inv : Inv n tr s) (taken : rtMqUrgent s t bytes = some (s', es)) :
    Inv n (tr ++ es) s' := by
  obtain ⟨frees, queued, d, store, sides⟩ := inv
  simp only [rtMqUrgent] at taken
  split at taken
  · contradiction
  · rename_i enabled
    simp only [not_or, not_not] at enabled
    have idle := enabled.1
    have free : (s.call t).msg = none := by simp [idle, Call.msg]
    have apart : Apart s t s.entry frees.length := apart_of_inv sides (by simp [idle, Call.isReceiving])
      (by simp [idle, Call.isSending])
    split at taken
    · cases Option.some.inj taken
      exact ⟨frees, queued, d, store.append rfl, sides⟩
    · split at taken
      · cases Option.some.inj taken
        exact ⟨frees, queued, d, store.append rfl, sides⟩
      · rename_i msg first
        have chain := store.pool.freeChain
        rw [first] at chain
        obtain ⟨rest, rfl⟩ := chain.some_inv
        cases Option.some.inj taken
        rw [List.append_nil]
        refine ⟨rest, queued, d, store.take free true bytes, ?_⟩
        exact Apart.out (apart.weaken (Nat.le_refl _) (by simp)) rfl rfl rfl

theorem recv_inv (inv : Inv n tr s) (taken : rtMqRecv s t size timeout = some (s', es)) :
    Inv n (tr ++ es) s' := by
  obtain ⟨frees, queued, d, store, sides⟩ := inv
  simp only [rtMqRecv] at taken
  split at taken
  · contradiction
  · rename_i enabled
    simp only [not_or, not_not] at enabled
    have idle := enabled.1
    have free : (s.call t).msg = none := by simp [idle, Call.msg]
    have apart : Apart s t s.entry frees.length := apart_of_inv sides (by simp [idle, Call.isReceiving])
      (by simp [idle, Call.isSending])
    split at taken
    · cases Option.some.inj taken
      exact ⟨frees, queued, d, store.append rfl, sides⟩
    · exact recvLoop_inv store free (apart.weaken (Nat.sub_le _ _) (Nat.le_refl _)) taken

theorem run_call_inv (inv : Inv n tr s) (taken : runCall s t = some (s', es)) : Inv n (tr ++ es) s' := by
  obtain ⟨frees, queued, d, store, sides⟩ := inv
  simp only [runCall] at taken
  cases call : s.call t with
  | idle => simp [call] at taken
  | sendWait bytes timeout tickDelta =>
    have free : (s.call t).msg = none := by simp [call, Call.msg]
    have sends : Sender s t := by simp [Sender, call, Call.isSending]
    simp only [call] at taken
    split at taken
    · contradiction
    · rename_i ready
      rw [not_not] at ready
      split at taken
      · rename_i failed
        cases Option.some.inj taken
        exact failed_inv store free (sides.enterFailed ready failed) rfl
      · exact sendLoop_inv store free (sides.enterSender sends ready) taken
  | recvWait size timeout tickDelta =>
    have free : (s.call t).msg = none := by simp [call, Call.msg]
    have receives : Receiver s t := by simp [Receiver, call, Call.isReceiving]
    simp only [call] at taken
    split at taken
    · contradiction
    · rename_i ready
      rw [not_not] at ready
      split at taken
      · rename_i failed
        cases Option.some.inj taken
        exact failed_inv store free (sides.enterFailed ready failed) rfl
      · exact recvLoop_inv store free (sides.enterReceiver receives ready) taken
  | filling urgent msg bytes copied =>
    have apart : Apart s t s.entry frees.length := apart_of_inv sides (by simp [call, Call.isReceiving])
      (by simp [call, Call.isSending])
    simp only [call] at taken
    cases byte : bytes[copied]? with
    | some b =>
      simp only [byte] at taken
      cases Option.some.inj taken
      rw [List.append_nil]
      exact ⟨frees, queued, d, store.copyIn call byte, Apart.out apart rfl rfl rfl⟩
    | none =>
      simp only [byte] at taken
      cases urgent with
      | true =>
        obtain ⟨d', store', moved, entry, kernel⟩ := store.linkFront call byte (Option.some.inj taken)
        refine ⟨frees, msg :: queued, d', store', ?_⟩
        rw [kernel, entry]
        exact Apart.out (Sides.wakeReceiver apart) moved rfl rfl
      | false =>
        obtain ⟨d', store', moved, entry, kernel⟩ := store.linkBack call byte (Option.some.inj taken)
        refine ⟨frees, queued ++ [msg], d', store', ?_⟩
        rw [kernel, entry]
        exact Apart.out (Sides.wakeReceiver apart) moved rfl rfl
  | draining msg size got =>
    have apart : Apart s t s.entry frees.length := apart_of_inv sides (by simp [call, Call.isReceiving])
      (by simp [call, Call.isSending])
    simp only [call] at taken
    split at taken
    · rename_i more
      cases Option.some.inj taken
      rw [List.append_nil]
      exact ⟨frees, queued, d, store.copyOut call more, Apart.out apart rfl rfl rfl⟩
    · rename_i whole
      obtain ⟨d', store', moved, entry, kernel⟩ := store.putBack call whole (Option.some.inj taken)
      refine ⟨msg :: frees, queued, d', store', ?_⟩
      rw [kernel, entry]
      exact Apart.out (Sides.wakeSender apart) moved rfl rfl

theorem reset_spec (inv : Inv n tr s) :
    ∃ s', rtMqReset s = some (s', [.reset]) ∧ s'.msgQueueHead = none ∧ Inv n (tr ++ [.reset]) s' := by
  obtain ⟨frees, queued, d, store, sides⟩ := inv
  have enough : queued.length ≤ s.maxMsgs := by
    obtain ⟨_, queueNodup, _⟩ := List.nodup_append.mp store.pool.nodup
    have inside : queued ⊆ List.range s.maxMsgs := fun m here =>
      List.mem_range.mpr ((store.pool.cover m).mpr (Or.inl (List.mem_append_right _ here)))
    simpa using (List.subperm_of_subset queueNodup inside).length_le
  obtain ⟨k, woken, _⟩ := sides.resumeAll 0 0
  obtain ⟨s', frees', done, empty, pool, kept, same⟩ :=
    releaseAll_spec s.maxMsgs { s with kernel := k } frees queued store.pool enough
  refine ⟨{ s' with entry := 0 }, ?_, empty, frees', [], { d with queue := [] }, ?_, ?_⟩
  · rw [rtMqReset, woken]
    change (releaseAll s.maxMsgs { s with kernel := k }).map _ = _
    rw [done]
    rfl
  · rw [same] at pool kept ⊢
    refine ⟨store.sized, store.bound, pool, rfl, ?_, .nil, replay_append (s := s) store.replayed rfl⟩
    intro t
    refine (store.calls t).frame (fun m held => ⟨kept m ?_, rfl⟩)
    have out := store.pool.heldOut t m held
    simp only [List.mem_append, not_or] at out
    exact out.2
  · rw [same]
    obtain ⟨k', woken', sides'⟩ := sides.resumeAll 0 frees'.length
    cases Option.some.inj (woken.symm.trans woken')
    exact sides'

theorem initFree_chain (garbage : Nat → Option Nat) (n : Nat) :
    Chain (initFree garbage n).1 (initFree garbage n).2 (List.range n).reverse := by
  induction n with
  | zero => exact .nil
  | succ n ih =>
    rw [List.range_succ, List.reverse_append]
    exact ih.push (by simp)

theorem start_inv (start : Start n s) : Inv n [] s := by
  obtain ⟨garbage, init⟩ := start.pool
  have chain := initFree_chain garbage n
  rw [← init] at chain
  refine ⟨(List.range n).reverse, [], ⟨[], fun _ => none⟩,
    ⟨start.maxMsgs, start.bound, ⟨chain, ?_, ?_, ?_, ?_, ?_, ?_⟩, ?_, ?_, .nil, rfl⟩, ?_⟩
  · rw [start.head]; exact .nil
  · simp [start.tail]
  · simp [List.nodup_range]
  · intro t m held; simp [holders, start.idle, Call.msg] at held
  · intro t u m held; simp [holders, start.idle, Call.msg] at held
  · intro m; simp [start.maxMsgs, holders, start.idle, Call.msg]
  · simp [start.entry]
  · intro t; simp [start.idle, CallOk]
  · have nobody : ∀ t, ¬ Receiver s t ∧ ¬ Sender s t := fun t => by
      simp [Receiver, Sender, start.idle, Call.isReceiving, Call.isSending]
    exact ⟨.initial start.receivers (fun t => (nobody t).1) _,
      .initial start.senders (fun t => (nobody t).2) _, fun t receives => absurd receives (nobody t).1⟩

theorem step_inv {a : Action} (inv : Inv n tr s) (taken : step s a = some (s', es)) :
    Inv n (tr ++ es) s' := by
  cases a with
  | send t bytes timeout => exact send_inv inv taken
  | urgent t bytes => exact urgent_inv inv taken
  | recv t size timeout => exact recv_inv inv taken
  | run t => exact run_call_inv inv taken
  | timeout t =>
    obtain ⟨k, expired, result⟩ := Option.map_eq_some_iff.mp taken
    cases result
    obtain ⟨frees, queued, d, store, sides⟩ := inv
    rw [List.append_nil]
    exact ⟨frees, queued, d, store.kernel k, sides.expire expired⟩
  | tick =>
    cases Option.some.inj taken
    obtain ⟨frees, queued, d, store, sides⟩ := inv
    rw [List.append_nil]
    exact ⟨frees, queued, d, store.kernel _, sides.tick _⟩
  | reset =>
    obtain ⟨s'', done, _, inv'⟩ := reset_spec inv
    cases Option.some.inj (taken.symm.trans done)
    exact inv'

theorem run_inv (run : Run (machine n) tr s) : Inv n tr s :=
  run.invariant (fun _ start => start_inv start) (fun _ _ _ _ _ inv taken => step_inv inv taken)

/-- A message queue of `n` nodes in a state `s` reached with history `tr`: `frees` and
`queued` are the two lists, and the history is one of the deque `d`. -/
structure Refines (n : Nat) (tr : List Event) (s : State) (frees queued : List Nat) (d : Deque) : Prop where
  freeList : Chain s.next s.msgQueueFree frees
  queue : Chain s.next s.msgQueueHead queued
  disjoint : (frees ++ queued).Nodup
  heldApart : ∀ t m, (s.call t).msg = some m → m ∉ frees ∧ m ∉ queued
  heldOnce : ∀ t u m, (s.call t).msg = some m → (s.call u).msg = some m → t = u
  cover : ∀ m, m < n ↔ m ∈ frees ∨ m ∈ queued ∨ ∃ t, (s.call t).msg = some m
  entry : s.entry = queued.length
  tail : s.msgQueueTail = queued.getLast?
  tailNull : s.msgQueueTail = none ↔ queued = []
  exact : ∀ t, Event.overflow t ∉ tr
  replayed : replay s.msgSize tr = some d
  stored : List.Forall₂ (Stored s.data) queued d.queue
  reset : ∃ s', step s .reset = some (s', [.reset]) ∧ s'.msgQueueHead = none

theorem replay_exact {msgSize : Nat} (tr : List Event) (d d' : Deque)
    (replayed : tr.foldlM (Deque.step msgSize) d = some d') : ∀ t, Event.overflow t ∉ tr := by
  induction tr generalizing d with
  | nil => simp
  | cons e rest ih =>
    rw [List.foldlM_cons] at replayed
    obtain ⟨middle, first, tail⟩ := Option.bind_eq_some_iff.mp replayed
    intro t here
    rcases List.mem_cons.mp here with rfl | later
    · cases first
    · exact ih middle tail t later

/-- Every interleaving of sends, urgent sends, receives, timeouts and resets is one of a
deque, and no node is lost or used twice. -/
theorem message_queue_refines {n : Nat} {tr : List Event} {s : State} (run : Run (machine n) tr s) :
    ∃ frees queued d, Refines n tr s frees queued d := by
  have inv := run_inv run
  obtain ⟨s', done, empty, _⟩ := reset_spec inv
  obtain ⟨frees, queued, d, store, _⟩ := inv
  have pool := store.pool
  refine ⟨frees, queued, d, pool.freeChain, pool.queueChain, pool.nodup, ?_, pool.heldOnce, ?_,
    store.entry, pool.last, ?_, replay_exact tr _ d store.replayed, store.replayed, store.stored,
    s', done, empty⟩
  · intro t m held
    simpa using pool.heldOut t m held
  · intro m
    rw [← store.sized, pool.cover, List.mem_append, or_assoc]
    rfl
  · rw [pool.last, List.getLast?_eq_none_iff]

/-- Two nodes: a message, an urgent one overtaking it, and a receive of the urgent one
that has not returned yet. -/
theorem message_queue_refines_urgent :
    ∃ tr s frees queued d, Refines 2 tr s frees queued d ∧ s.entry = 1 ∧ s.call 1 = .draining 0 1 [9] := by
  let init := initFree (fun _ => none) 2
  let s₀ : State := ⟨startedThreads (fun _ => 10) 2, init.1, fun _ _ => 0, 4, 2, 0, none, none, init.2,
    .fifo, fun _ => .idle⟩
  have start : Start 2 s₀ := ⟨rfl, by decide, ⟨fun _ => none, rfl⟩, rfl, rfl, rfl, by decide, by decide,
    fun _ => rfl⟩
  obtain ⟨tr, s, run, found⟩ := Run.reaches (M := machine 2) start
    [.send 0 [7, 8] 0, .run 0, .run 0, .run 0, .urgent 0 [9], .run 0, .run 0, .recv 1 1 0, .run 1]
    (fun s => decide (s.entry = 1) && decide (s.call 1 = .draining 0 1 [9])) (by decide)
  simp only [Bool.and_eq_true, decide_eq_true_eq] at found
  obtain ⟨frees, queued, d, refines⟩ := message_queue_refines run
  exact ⟨tr, s, frees, queued, d, refines, found⟩

end RtThread.MessageQueue
