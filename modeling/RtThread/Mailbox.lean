import RtThread.Run
import RtThread.Ring
import RtThread.Wake

/-! Mailboxes: rt_mb_send_wait, rt_mb_recv and rt_mb_control over every order of their
interrupt-disabled sections. Receivers wait on `.wait 0`, senders on `.wait 1`. A woken
caller tests its error field before it disables interrupts again; nobody writes the
field of a READY thread, so the test is the first thing of the next section here. -/
namespace RtThread.Mailbox
open Kernel Transition

def rtMbEntryMax : Nat := 0xffff

abbrev Mail := BitVec 32

/-- Where a thread is: outside of a call, or in the rt_schedule call of one, with its
arguments and the tick it read last. -/
inductive Call where
  | idle
  | sending (value : Mail) (timeout : Int) (tickDelta : Nat)
  | receiving (timeout : Int) (tickDelta : Nat)
  deriving DecidableEq

structure State where
  kernel : Kernel
  msgPool : Nat → Mail
  size : Nat
  entry : Nat
  inOffset : Nat
  outOffset : Nat
  flag : IpcFlag
  call : Tid → Call

/-- `overflow` is the -RT_EFULL return that comes after the value has been stored. -/
inductive Event where
  | sent (t : Tid) (value : Mail)
  | sendFailed (t : Tid) (e : Err)
  | overflow (t : Tid) (value : Mail)
  | received (t : Tid) (value : Mail)
  | recvFailed (t : Tid) (e : Err)
  | reset
  deriving DecidableEq

inductive Action where
  | send (t : Tid) (value : Mail) (timeout : Int)
  | recv (t : Tid) (timeout : Int)
  | wake (t : Tid)
  | timeout (t : Tid)
  | tick
  | reset

def State.goto (s : State) (t : Tid) (c : Call) : State :=
  { s with call := Function.update s.call t c }

/-- `++ offset; if (offset >= size) offset = 0` on an rt_uint16_t. -/
def advance (offset size : Nat) : Nat :=
  let offset := (offset + 1) % 2 ^ 16
  if size ≤ offset then 0 else offset

/-- The end of rt_mb_send_wait, once there is room. -/
def storeMail (s : State) (t : Tid) (value : Mail) : State × List Event :=
  let s := { s.goto t .idle with
    msgPool := Function.update s.msgPool s.inOffset value, inOffset := advance s.inOffset s.size }
  if s.entry < rtMbEntryMax then
    ({ s with entry := s.entry + 1, kernel := s.kernel.rtIpcListResume (.wait 0) }, [.sent t value])
  else (s, [.overflow t value])

/-- The end of rt_mb_recv, once there is a mail. -/
def fetchMail (s : State) (t : Tid) : State × List Event :=
  let value := s.msgPool s.outOffset
  ({ s.goto t .idle with
    outOffset := advance s.outOffset s.size
    entry := if 0 < s.entry then s.entry - 1 else s.entry
    kernel := s.kernel.rtIpcListResume (.wait 1) }, [.received t value])

/-- Suspend the caller on `.wait o` and note where it is. -/
def block (s : State) (t : Tid) (o : Nat) (timeout : Int) (c : Call) : Option (State × List Event) :=
  if (s.kernel.thread t).stat ≠ .ready then none
  else
    ((s.kernel.rtIpcListSuspend (.wait o) t s.flag).startWaitTimer t timeout).map (fun k =>
      ({ s.goto t c with kernel := k }, []))

def setError (s : State) (t : Tid) (e : Err) : State :=
  { s with kernel := s.kernel.modify t (fun th => { th with error := e }) }

/-- From the test of the while loop on. -/
def sendLoop (s : State) (t : Tid) (value : Mail) (timeout : Int) (tickDelta : Nat) :
    Option (State × List Event) :=
  if s.entry = s.size then
    let s := setError s t .eok
    if timeout = 0 then some (s.goto t .idle, [.sendFailed t .efull])
    else block s t 1 timeout
      (.sending value timeout (if 0 < timeout then s.kernel.tick else tickDelta))
  else some (storeMail s t value)

def recvLoop (s : State) (t : Tid) (timeout : Int) (tickDelta : Nat) : Option (State × List Event) :=
  if s.entry = 0 then
    let s := setError s t .eok
    if timeout = 0 then some ((setError s t .etimeout).goto t .idle, [.recvFailed t .etimeout])
    else block s t 0 timeout
      (.receiving timeout (if 0 < timeout then s.kernel.tick else tickDelta))
  else some (fetchMail s t)

/- A caller that does not block may be an interrupt handler, which then counts as a
caller of its own. -/
def rtMbSendWait (s : State) (t : Tid) (value : Mail) (timeout : Int) : Option (State × List Event) :=
  if s.call t ≠ .idle then none
  else if s.entry = s.size ∧ timeout = 0 then some (s, [.sendFailed t .efull])
  else sendLoop s t value timeout 0

def rtMbRecv (s : State) (t : Tid) (timeout : Int) : Option (State × List Event) :=
  if s.call t ≠ .idle then none
  else if s.entry = 0 ∧ timeout = 0 then some (s, [.recvFailed t .etimeout])
  else recvLoop s t timeout 0

/-- A blocked caller after rt_schedule has come back to it. -/
def resumeCall (s : State) (t : Tid) : Option (State × List Event) :=
  let th := s.kernel.thread t
  if th.stat ≠ .ready then none
  else match s.call t with
  | .idle => none
  | .sending value timeout tickDelta =>
    if th.error ≠ .eok then some (s.goto t .idle, [.sendFailed t th.error])
    else sendLoop s t value (remainingTime timeout tickDelta s.kernel.tick) tickDelta
  | .receiving timeout tickDelta =>
    if th.error ≠ .eok then some (s.goto t .idle, [.recvFailed t th.error])
    else recvLoop s t (remainingTime timeout tickDelta s.kernel.tick) tickDelta

/-- rt_mb_control with RT_IPC_CMD_RESET. -/
def rtMbReset (s : State) : Option (State × List Event) :=
  ((s.kernel.rtIpcListResumeAll (.wait 0)).bind (fun k => k.rtIpcListResumeAll (.wait 1))).map
    (fun k => ({ s with kernel := k, entry := 0, inOffset := 0, outOffset := 0 }, [.reset]))

def step (s : State) : Action → Option (State × List Event)
  | .send t value timeout => rtMbSendWait s t value timeout
  | .recv t timeout => rtMbRecv s t timeout
  | .wake t => resumeCall s t
  | .timeout t => (s.kernel.timerExpire t).map (fun k => ({ s with kernel := k }, []))
  | .tick => some ({ s with kernel := { s.kernel with tick := (s.kernel.tick + 1) % 2 ^ 32 } }, [])
  | .reset => rtMbReset s

/-- After rt_mb_init of a mailbox of `n` slots, with no thread inside a call. -/
structure Start (n : Nat) (s : State) : Prop where
  size : s.size = n
  positive : 1 ≤ n
  bound : n ≤ 65535
  entry : s.entry = 0
  inOffset : s.inOffset = 0
  outOffset : s.outOffset = 0
  receivers : s.kernel.list (.wait 0) = []
  senders : s.kernel.list (.wait 1) = []
  idle : ∀ t, s.call t = .idle

def machine (n : Nat) : Machine State Action Event where
  start := Start n
  step := step

def Call.isSending : Call → Bool
  | .sending .. => true
  | _ => false

def Call.isReceiving : Call → Bool
  | .receiving .. => true
  | _ => false

def Sender (s : State) (t : Tid) : Prop := (s.call t).isSending = true
def Receiver (s : State) (t : Tid) : Prop := (s.call t).isReceiving = true

def sentValue : Event → Option Mail
  | .sent _ value => some value
  | _ => none

def receivedValue : Event → Option Mail
  | .received _ value => some value
  | _ => none

/-- The events after the last reset. -/
def sinceReset (tr : List Event) : List Event :=
  tr.foldl (fun acc e => if e = .reset then [] else acc ++ [e]) []

def contents (s : State) : List Mail := Ring.window s.msgPool s.size s.outOffset s.entry

/-- The counters of a mailbox of `n` slots. -/
structure Counters (n size entry inOffset outOffset : Nat) : Prop where
  sized : size = n
  positive : 1 ≤ n
  bound : n ≤ 65535
  fits : entry ≤ size
  input : inOffset = (outOffset + entry) % size
  output : outOffset < size

/-- Since the last reset, the values sent are those received followed by `mails`. -/
def Delivered (tr : List Event) (mails : List Mail) : Prop :=
  (sinceReset tr).filterMap sentValue = (sinceReset tr).filterMap receivedValue ++ mails

structure Inv (n : Nat) (tr : List Event) (s : State) : Prop where
  counters : Counters n s.size s.entry s.inOffset s.outOffset
  sides : Sides s.kernel (Receiver s) (Sender s) s.entry (s.size - s.entry)
  delivered : Delivered tr (contents s)
  exact : ∀ t value, Event.overflow t value ∉ tr

variable {n r w : Nat} {tr : List Event} {s s' : State} {es : List Event} {t : Tid} {value : Mail}
  {timeout : Int} {tickDelta : Nat}

theorem sinceReset_append (tr : List Event) (e : Event) :
    sinceReset (tr ++ [e]) = if e = .reset then [] else sinceReset tr ++ [e] := by
  simp [sinceReset]

/-- Events about neither a mail nor a reset. -/
def Event.failure : Event → Bool
  | .sendFailed .. | .recvFailed .. => true
  | _ => false

theorem delivered_failure {e : Event} {mails : List Mail} (old : Delivered tr mails)
    (failure : e.failure = true) : Delivered (tr ++ [e]) mails := by
  cases e <;> simp_all [Event.failure, Delivered, sinceReset_append, sentValue, receivedValue,
    List.filterMap_cons]

theorem advance_eq {offset size : Nat} (inside : offset < size) (bound : size ≤ 65535) :
    advance offset size = (offset + 1) % size := by
  simp only [advance, Nat.mod_eq_of_lt (show offset + 1 < 2 ^ 16 by omega)]
  exact Ring.next_eq_mod size inside

theorem start_inv (start : Start n s) : Inv n [] s := by
  have size := start.size
  have positive := start.positive
  refine ⟨⟨size, positive, start.bound, ?_, ?_, ?_⟩, ?_, ?_, by simp⟩
  · simp [start.entry]
  · simp [start.inOffset, start.outOffset, start.entry]
  · rw [start.outOffset]; omega
  · have nobody : ∀ t, ¬ Receiver s t ∧ ¬ Sender s t := fun t => by
      simp [Receiver, Sender, start.idle, Call.isReceiving, Call.isSending]
    exact ⟨.initial start.receivers (fun t => (nobody t).1) _,
      .initial start.senders (fun t => (nobody t).2) _, fun t receives => absurd receives (nobody t).1⟩
  · simp [Delivered, sinceReset, contents, start.entry]

/-- The invariant inside a section run by `t`, which itself counts neither as a sender
nor as a receiver; `r` and `w` bound the mails and the free slots nobody comes for. -/
structure Inside (n : Nat) (tr : List Event) (s : State) (t : Tid) (r w : Nat) : Prop where
  counters : Counters n s.size s.entry s.inOffset s.outOffset
  sides : Sides s.kernel (Without t (Receiver s)) (Without t (Sender s)) r w
  delivered : Delivered tr (contents s)
  exact : ∀ t value, Event.overflow t value ∉ tr

theorem Inside.weaken {r' w' : Nat} (inv : Inside n tr s t r w) (receivers : r' ≤ r)
    (senders : w' ≤ w) : Inside n tr s t r' w' :=
  ⟨inv.counters, inv.sides.weaken receivers senders, inv.delivered, inv.exact⟩

theorem Inv.enter (inv : Inv n tr s) (idle : s.call t = .idle) :
    Inside n tr s t s.entry (s.size - s.entry) := by
  refine ⟨inv.counters, inv.sides.enter ?_ ?_, inv.delivered, inv.exact⟩
  · simp [Receiver, idle, Call.isReceiving]
  · simp [Sender, idle, Call.isSending]

theorem Inside.setError (inv : Inside n tr s t r w) (e : Err) :
    Inside n tr (setError s t e) t r w :=
  ⟨inv.counters, inv.sides.setError e, inv.delivered, inv.exact⟩

theorem receiver_out {c : Call} (moved : s'.call = Function.update s.call t c)
    (out : c.isReceiving = false) (u : Tid) : Without t (Receiver s) u ↔ Receiver s' u := by
  by_cases hu : u = t <;> simp [Without, Receiver, moved, hu, out]

theorem sender_out {c : Call} (moved : s'.call = Function.update s.call t c)
    (out : c.isSending = false) (u : Tid) : Without t (Sender s) u ↔ Sender s' u := by
  by_cases hu : u = t <;> simp [Without, Sender, moved, hu, out]

theorem receiver_in {c : Call} (moved : s'.call = Function.update s.call t c)
    (within : c.isReceiving = true) (u : Tid) : (u = t ∨ Without t (Receiver s) u) ↔ Receiver s' u := by
  by_cases hu : u = t <;> simp [Without, Receiver, moved, hu, within]

theorem sender_in {c : Call} (moved : s'.call = Function.update s.call t c)
    (within : c.isSending = true) (u : Tid) : (u = t ∨ Without t (Sender s) u) ↔ Sender s' u := by
  by_cases hu : u = t <;> simp [Without, Sender, moved, hu, within]

theorem Inside.leave {e : Event} (inv : Inside n tr s t s.entry (s.size - s.entry))
    (failure : e.failure = true) : Inv n (tr ++ [e]) (s.goto t .idle) := by
  refine ⟨inv.counters, inv.sides.congr (receiver_out rfl rfl) (sender_out rfl rfl),
    delivered_failure inv.delivered failure, ?_⟩
  intro u value
  simp only [List.mem_append, List.mem_singleton, not_or]
  refine ⟨inv.exact u value, ?_⟩
  rintro rfl
  cases failure

theorem store_inv (inv : Inside n tr s t s.entry (s.size - s.entry - 1)) (room : s.entry < s.size)
    (taken : storeMail s t value = (s', es)) : Inv n (tr ++ es) s' := by
  have counters := inv.counters
  have bound : s.size ≤ 65535 := by rw [counters.sized]; exact counters.bound
  have inside : s.inOffset < s.size := by
    rw [counters.input]; exact Nat.mod_lt _ (by omega)
  have small : s.entry < rtMbEntryMax := Nat.lt_of_lt_of_le room bound
  have next : advance s.inOffset s.size = (s.outOffset + (s.entry + 1)) % s.size := by
    rw [advance_eq inside bound, counters.input, Nat.mod_add_mod, Nat.add_assoc]
  simp only [storeMail, State.goto, small, if_true] at taken
  cases taken
  refine ⟨⟨counters.sized, counters.positive, counters.bound, room, next, counters.output⟩,
    inv.sides.wakeReceiver.congr (receiver_out rfl rfl) (sender_out rfl rfl), ?_, ?_⟩
  · have old := inv.delivered
    have grown : contents { s with msgPool := Function.update s.msgPool s.inOffset value, entry := s.entry + 1 } =
        contents s ++ [value] := by
      simp only [contents, counters.input]
      exact Ring.window_push s.msgPool s.size s.outOffset room value
    change Delivered _ (contents { s with
      msgPool := Function.update s.msgPool s.inOffset value, entry := s.entry + 1 })
    simp only [Delivered, grown, sinceReset_append] at old ⊢
    simp [List.filterMap_append, old, sentValue, receivedValue]
  · intro u v
    simp [inv.exact u v]

theorem fetch_inv (inv : Inside n tr s t (s.entry - 1) (s.size - s.entry)) (some : 0 < s.entry)
    (taken : fetchMail s t = (s', es)) : Inv n (tr ++ es) s' := by
  have counters := inv.counters
  have bound : s.size ≤ 65535 := by rw [counters.sized]; exact counters.bound
  have entry := counters.fits
  obtain ⟨left, more⟩ : ∃ left, s.entry = left + 1 := ⟨s.entry - 1, by omega⟩
  have next : advance s.outOffset s.size = (s.outOffset + 1) % s.size :=
    advance_eq counters.output bound
  simp only [fetchMail, State.goto, more, next, Nat.add_sub_cancel] at taken
  cases taken
  have inOffset : s.inOffset = ((s.outOffset + 1) % s.size + left) % s.size := by
    rw [counters.input, Nat.mod_add_mod, more]
    congr 1
    omega
  refine ⟨⟨counters.sized, counters.positive, counters.bound, ?_, inOffset, ?_⟩,
    (inv.sides.wakeSender.congr (receiver_out rfl rfl) (sender_out rfl rfl)).weaken ?_ ?_, ?_, ?_⟩
  · change left ≤ s.size; omega
  · exact Nat.mod_lt _ (by omega)
  · change left ≤ s.entry - 1; omega
  · change s.size - left ≤ s.size - s.entry + 1; omega
  · have old := inv.delivered
    have popped : contents s = s.msgPool s.outOffset ::
        contents { s with outOffset := (s.outOffset + 1) % s.size, entry := left } := by
      simp only [contents, more]
      exact Ring.window_pop s.msgPool s.size s.outOffset counters.output
    change Delivered _ (contents { s with outOffset := (s.outOffset + 1) % s.size, entry := left })
    simp only [Delivered, popped, sinceReset_append] at old ⊢
    simp [List.filterMap_append, old, sentValue, receivedValue]
  · intro u v
    simp [inv.exact u v]

theorem block_cases {o : Nat} {c : Call} (taken : block s t o timeout c = some (s', es)) :
    (s.kernel.thread t).stat = .ready ∧ es = [] ∧ ∃ k,
      (s.kernel.rtIpcListSuspend (.wait o) t s.flag).startWaitTimer t timeout = some k ∧
      s' = { s.goto t c with kernel := k } := by
  simp only [block] at taken
  split at taken
  · contradiction
  · rename_i ready
    obtain ⟨k, started, done⟩ := Option.map_eq_some_iff.mp taken
    cases done
    exact ⟨not_not.mp ready, rfl, k, started, rfl⟩

theorem sendBlock_inv (inv : Inside n tr s t s.entry w) (full : s.entry = s.size)
    (clean : (s.kernel.thread t).error = .eok)
    (taken : block s t 1 timeout (.sending value timeout tickDelta) = some (s', es)) :
    Inv n (tr ++ es) s' := by
  obtain ⟨ready, rfl, k, started, rfl⟩ := block_cases taken
  rw [List.append_nil]
  have sides := inv.sides.blockSender ready clean started
  refine ⟨inv.counters, ?_, inv.delivered, inv.exact⟩
  refine (sides.congr (receiver_out rfl rfl) (sender_in rfl rfl)).weaken (Nat.le_refl _) ?_
  change s.size - s.entry ≤ 0
  omega

theorem recvBlock_inv (inv : Inside n tr s t r (s.size - s.entry)) (empty : s.entry = 0)
    (clean : (s.kernel.thread t).error = .eok)
    (taken : block s t 0 timeout (.receiving timeout tickDelta) = some (s', es)) :
    Inv n (tr ++ es) s' := by
  obtain ⟨ready, rfl, k, started, rfl⟩ := block_cases taken
  rw [List.append_nil]
  have sides := inv.sides.blockReceiver ready clean started
  refine ⟨inv.counters, ?_, inv.delivered, inv.exact⟩
  refine (sides.congr (receiver_in rfl rfl) (sender_out rfl rfl)).weaken ?_ (Nat.le_refl _)
  change s.entry ≤ 0
  omega

theorem sendLoop_inv (inv : Inside n tr s t s.entry (s.size - s.entry - 1))
    (taken : sendLoop s t value timeout tickDelta = some (s', es)) : Inv n (tr ++ es) s' := by
  have fits := inv.counters.fits
  simp only [sendLoop] at taken
  split at taken
  · rename_i full
    have cleared := inv.setError .eok
    split at taken
    · cases Option.some.inj taken
      refine (cleared.weaken (Nat.le_refl _) ?_).leave rfl
      change s.size - s.entry ≤ s.size - s.entry - 1
      omega
    · exact sendBlock_inv cleared full (by simp [setError]) taken
  · exact store_inv inv (by omega) (Option.some.inj taken)

theorem recvLoop_inv (inv : Inside n tr s t (s.entry - 1) (s.size - s.entry))
    (taken : recvLoop s t timeout tickDelta = some (s', es)) : Inv n (tr ++ es) s' := by
  simp only [recvLoop] at taken
  split at taken
  · rename_i empty
    have cleared := inv.setError .eok
    split at taken
    · cases Option.some.inj taken
      refine ((cleared.setError .etimeout).weaken ?_ (Nat.le_refl _)).leave rfl
      change s.entry ≤ s.entry - 1
      omega
    · exact recvBlock_inv cleared empty (by simp [setError]) taken
  · exact fetch_inv inv (by omega) (Option.some.inj taken)

theorem goto_idle (idle : s.call t = .idle) : s.goto t .idle = s := by
  simp only [State.goto, ← idle, Function.update_eq_self]

theorem send_inv (inv : Inv n tr s) (taken : rtMbSendWait s t value timeout = some (s', es)) :
    Inv n (tr ++ es) s' := by
  simp only [rtMbSendWait] at taken
  split at taken
  · contradiction
  · rename_i idle
    rw [not_not] at idle
    split at taken
    · cases Option.some.inj taken
      simpa [goto_idle idle] using (inv.enter idle).leave (e := .sendFailed t .efull) rfl
    · exact sendLoop_inv ((inv.enter idle).weaken (Nat.le_refl _) (Nat.sub_le _ _)) taken

theorem recv_inv (inv : Inv n tr s) (taken : rtMbRecv s t timeout = some (s', es)) :
    Inv n (tr ++ es) s' := by
  simp only [rtMbRecv] at taken
  split at taken
  · contradiction
  · rename_i idle
    rw [not_not] at idle
    split at taken
    · cases Option.some.inj taken
      simpa [goto_idle idle] using (inv.enter idle).leave (e := .recvFailed t .etimeout) rfl
    · exact recvLoop_inv ((inv.enter idle).weaken (Nat.sub_le _ _) (Nat.le_refl _)) taken

theorem resume_inv (inv : Inv n tr s) (taken : resumeCall s t = some (s', es)) :
    Inv n (tr ++ es) s' := by
  simp only [resumeCall] at taken
  split at taken
  · contradiction
  · rename_i ready
    rw [not_not] at ready
    split at taken
    · contradiction
    · rename_i call
      have sends : Sender s t := by simp [Sender, call, Call.isSending]
      split at taken
      · rename_i failed
        cases Option.some.inj taken
        exact (Inside.mk inv.counters (inv.sides.enterFailed ready failed) inv.delivered inv.exact).leave rfl
      · exact sendLoop_inv ⟨inv.counters, inv.sides.enterSender sends ready, inv.delivered, inv.exact⟩ taken
    · rename_i call
      have receives : Receiver s t := by simp [Receiver, call, Call.isReceiving]
      split at taken
      · rename_i failed
        cases Option.some.inj taken
        exact (Inside.mk inv.counters (inv.sides.enterFailed ready failed) inv.delivered inv.exact).leave rfl
      · exact recvLoop_inv ⟨inv.counters, inv.sides.enterReceiver receives ready, inv.delivered, inv.exact⟩
          taken

theorem timeout_inv {k : Kernel} (inv : Inv n tr s) (expired : s.kernel.timerExpire t = some k) :
    Inv n tr { s with kernel := k } :=
  ⟨inv.counters, inv.sides.expire expired, inv.delivered, inv.exact⟩

theorem reset_inv (inv : Inv n tr s) (taken : rtMbReset s = some (s', es)) : Inv n (tr ++ es) s' := by
  obtain ⟨k, done, result⟩ := Option.map_eq_some_iff.mp taken
  cases result
  obtain ⟨k', done', sides⟩ := inv.sides.resumeAll 0 s.size
  cases Option.some.inj (done.symm.trans done')
  have counters := inv.counters
  have positive := counters.positive
  refine ⟨⟨counters.sized, positive, counters.bound, Nat.zero_le _, by simp, ?_⟩, sides,
    by simp [Delivered, sinceReset_append, contents], ?_⟩
  · change 0 < s.size
    rw [counters.sized]
    exact positive
  · intro u v
    simp [inv.exact u v]

theorem step_inv {a : Action} (inv : Inv n tr s) (taken : step s a = some (s', es)) :
    Inv n (tr ++ es) s' := by
  cases a with
  | send t value timeout => exact send_inv inv taken
  | recv t timeout => exact recv_inv inv taken
  | wake t => exact resume_inv inv taken
  | timeout t =>
    obtain ⟨k, expired, result⟩ := Option.map_eq_some_iff.mp taken
    cases result
    simpa using timeout_inv inv expired
  | tick =>
    cases Option.some.inj taken
    rw [List.append_nil]
    exact ⟨inv.counters, inv.sides.tick _, inv.delivered, inv.exact⟩
  | reset => exact reset_inv inv taken

theorem run_inv (run : Run (machine n) tr s) : Inv n tr s :=
  run.invariant (fun _ start => start_inv start) (fun _ _ _ _ _ inv taken => step_inv inv taken)

/-- The slots are written by successful sends only, each time outside of the unread ones. -/
def StoresFree (s s' : State) (es : List Event) : Prop :=
  s'.msgPool = s.msgPool ∨ ∃ t value, es = [.sent t value] ∧ s.entry < s.size ∧
    s'.msgPool = Function.update s.msgPool s.inOffset value ∧
    ∀ i < s.entry, (s.outOffset + i) % s.size ≠ s.inOffset

theorem sendLoop_stores (inv : Inv n tr s)
    (taken : sendLoop s t value timeout tickDelta = some (s', es)) : StoresFree s s' es := by
  have counters := inv.counters
  simp only [sendLoop] at taken
  split at taken
  · split at taken
    · cases Option.some.inj taken
      exact Or.inl rfl
    · obtain ⟨_, _, _, _, rfl⟩ := block_cases taken
      exact Or.inl rfl
  · have fits := counters.fits
    have room : s.entry < s.size := by omega
    have small : s.entry < rtMbEntryMax := by
      have bound := counters.bound
      have sized := counters.sized
      unfold rtMbEntryMax
      omega
    simp only [storeMail, State.goto, small, if_true] at taken
    cases Option.some.inj taken
    refine Or.inr ⟨t, value, rfl, room, rfl, ?_⟩
    intro i before
    rw [counters.input]
    exact Ring.slot_ne s.size s.outOffset before room

theorem recvLoop_stores (taken : recvLoop s t timeout tickDelta = some (s', es)) : StoresFree s s' es := by
  simp only [recvLoop] at taken
  split at taken
  · split at taken
    · cases Option.some.inj taken
      exact Or.inl rfl
    · obtain ⟨_, _, _, _, rfl⟩ := block_cases taken
      exact Or.inl rfl
  · cases Option.some.inj taken
    exact Or.inl rfl

theorem step_stores {a : Action} (inv : Inv n tr s) (taken : step s a = some (s', es)) :
    StoresFree s s' es := by
  cases a with
  | send t value timeout =>
    simp only [step, rtMbSendWait] at taken
    split at taken
    · contradiction
    · split at taken
      · cases Option.some.inj taken
        exact Or.inl rfl
      · exact sendLoop_stores inv taken
  | recv t timeout =>
    simp only [step, rtMbRecv] at taken
    split at taken
    · contradiction
    · split at taken
      · cases Option.some.inj taken
        exact Or.inl rfl
      · exact recvLoop_stores taken
  | wake t =>
    simp only [step, resumeCall] at taken
    split at taken
    · contradiction
    · split at taken
      · contradiction
      · split at taken
        · cases Option.some.inj taken
          exact Or.inl rfl
        · exact sendLoop_stores inv taken
      · split at taken
        · cases Option.some.inj taken
          exact Or.inl rfl
        · exact recvLoop_stores taken
  | timeout t =>
    obtain ⟨_, _, result⟩ := Option.map_eq_some_iff.mp taken
    cases result
    exact Or.inl rfl
  | tick =>
    cases Option.some.inj taken
    exact Or.inl rfl
  | reset =>
    obtain ⟨_, _, result⟩ := Option.map_eq_some_iff.mp taken
    cases result
    exact Or.inl rfl

/-- A mailbox of `n` slots as a bounded queue, in a state `s` reached with history `tr`. -/
structure BoundedFifo (n : Nat) (tr : List Event) (s : State) : Prop where
  size : s.size = n
  entry : s.entry ≤ s.size
  inOffset : s.inOffset = (s.outOffset + s.entry) % s.size
  inside : s.inOffset < s.size ∧ s.outOffset < s.size
  delivered : (sinceReset tr).filterMap sentValue =
    (sinceReset tr).filterMap receivedValue ++ contents s
  stores : ∀ a s' es, step s a = some (s', es) → StoresFree s s' es
  exact : ∀ t value, Event.overflow t value ∉ tr

/-- Every mailbox delivers what was sent, in order and once, in every interleaving. -/
theorem mailbox_refines_fifo {n : Nat} {tr : List Event} {s : State} (run : Run (machine n) tr s) :
    BoundedFifo n tr s := by
  have inv := run_inv run
  have counters := inv.counters
  have output := counters.output
  refine ⟨counters.sized, counters.fits, counters.input, ⟨?_, output⟩, inv.delivered,
    fun _ _ _ => step_stores inv, inv.exact⟩
  rw [counters.input]
  exact Nat.mod_lt _ (by omega)

/-- One slot: thread 0 blocks on the full box until thread 1 has read the first mail. -/
theorem mailbox_refines_fifo_one_slot :
    ∃ tr s, BoundedFifo 1 tr s ∧ contents s = [8] := by
  let s₀ : State := ⟨startedThreads (fun _ => 10) 2, fun _ => 0, 1, 0, 0, 0, .fifo, fun _ => .idle⟩
  have start : Start 1 s₀ := ⟨rfl, by decide, by decide, rfl, rfl, rfl, by decide, by decide, fun _ => rfl⟩
  obtain ⟨tr, s, run, found⟩ := Run.reaches (M := machine 1) start
    [.send 0 7 5, .send 0 8 5, .tick, .recv 1 0, .wake 0] (fun s => decide (contents s = [8])) (by decide)
  exact ⟨tr, s, mailbox_refines_fifo run, of_decide_eq_true found⟩

end RtThread.Mailbox
