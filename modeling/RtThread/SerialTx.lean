import RtThread.DataQueue

/-! Transmission by DMA of a serial device: any number of writers in _serial_dma_tx, and the
TX_DMADONE interrupt. The data queue is the one of rt_data_queue_push, with its wait lists. -/
namespace RtThread.SerialTx
open Transition Kernel

/-- Where a writer is: outside of a call, in rt_data_queue_push, before the test-and-set of
`activated`, or before its dma_transmit. -/
inductive Writer where
  | idle
  | pushing
  | pushed (item : DataItem)
  | activating (item : DataItem)
  deriving DecidableEq

/-- `dma` is the transfer that the device is making. -/
structure State where
  queue : DataQueue.State
  activated : Bool
  dma : Option DataItem
  writer : Tid → Writer

/-- `completed` is an interrupt: the transfer that has finished, and what was popped and is
reported to `tx_complete`. -/
inductive Event where
  | pushed (item : DataItem)
  | transmitted (item : DataItem)
  | completed (finished : DataItem) (reported : Option DataItem)
  deriving DecidableEq

inductive Action where
  | write (t : Tid) (item : DataItem)
  | resume (t : Tid)
  | activate (t : Tid)
  | transmit (t : Tid)
  | dmaDone

def State.goto (s : State) (t : Tid) (w : Writer) : State :=
  { s with writer := Function.update s.writer t w }

/-- RT_EEMPTY is `none`. -/
def rtDataQueuePeek (d : DataQueue) : Option DataItem :=
  if d.isEmpty then none else some (d.queue d.getIndex)

/-- Whether rt_data_queue_push has returned, and with what. -/
def pushReturn (s : State) (t : Tid) (r : DataQueue.State × List DataQueue.Event) : State × List Event :=
  let s := { s with queue := r.1 }
  match r.2 with
  | [.pushed _ item] => (s.goto t (.pushed item), [.pushed item])
  | [.pushWaits _] => (s.goto t .pushing, [])
  | _ => (s.goto t .idle, [])

/-- _serial_dma_tx, up to its activation; RT_WAITING_FOREVER is -1. -/
def serialDmaTx (s : State) (t : Tid) (item : DataItem) : Option (State × List Event) :=
  if s.writer t = .idle then
    (DataQueue.rtDataQueuePush s.queue t item (-1)).map (pushReturn s t)
  else none

/-- The interrupt-disabled section that follows, for a writer that has pushed. -/
def activateSection (s : State) (t : Tid) : Option State :=
  match s.writer t with
  | .pushed item =>
    some (if s.activated then s.goto t .idle else { s.goto t (.activating item) with activated := true })
  | _ => none

/-- The transfer of the writer's own buffer. -/
def dmaTransmit (s : State) (t : Tid) : Option (State × List Event) :=
  match s.writer t with
  | .activating item => some ({ s.goto t .idle with dma := some item }, [.transmitted item])
  | _ => none

/-- What rt_data_queue_pop has stored. -/
def poppedBy : List DataQueue.Event → Option DataItem
  | [.popped _ item] => some item
  | _ => none

/-- RT_SERIAL_EVENT_TX_DMADONE, after the transfer of `finished`. The handler pops as the
caller `isr`. -/
def rtHwSerialIsr (isr : Tid) (s : State) (finished : DataItem) : Option (State × List Event) :=
  (DataQueue.rtDataQueuePop s.queue isr 0).map (fun r =>
    let completed := Event.completed finished (poppedBy r.2)
    match rtDataQueuePeek r.1.queue with
    | some next => ({ s with queue := r.1, activated := true, dma := some next }, [completed, .transmitted next])
    | none => ({ s with queue := r.1, activated := false, dma := none }, [completed]))

def step (isr : Tid) (s : State) : Action → Option (State × List Event)
  | .write t item => if t = isr then none else serialDmaTx s t item
  | .resume t =>
    if s.writer t = .pushing then (DataQueue.resumeCall s.queue t).map (pushReturn s t) else none
  | .activate t => (activateSection s t).map (fun s => (s, []))
  | .transmit t => dmaTransmit s t
  | .dmaDone => s.dma.bind (rtHwSerialIsr isr s)

/-- After rt_serial_open with RT_DEVICE_FLAG_DMA_TX, the queue being one of `n` items. -/
structure Start (n : Nat) (s : State) : Prop where
  queue : DataQueue.Start n s.queue
  activated : s.activated = false
  dma : s.dma = none
  idle : ∀ t, s.writer t = .idle

def machine (n : Nat) (isr : Tid) : Machine State Action Event where
  start := Start n
  step := step isr

/-- A transmitter that does what is wanted: the buffers to come, and the one under way. -/
structure Line where
  waiting : List DataItem
  underway : Option DataItem

/-- `none` where a buffer is transmitted out of turn or during a transfer, or where another
one is reported than was finished. -/
def Event.apply : Event → Line → Option Line
  | .pushed item, l => some { l with waiting := l.waiting ++ [item] }
  | .transmitted item, l =>
    if l.underway = none ∧ l.waiting.head? = some item then some ⟨l.waiting.tail, some item⟩ else none
  | .completed finished reported, l =>
    if l.underway = some finished ∧ reported = some finished then some { l with underway := none } else none

def replay (tr : List Event) : Option Line := tr.foldlM (fun l e => e.apply l) ⟨[], none⟩

theorem replay_append {tr es : List Event} {l : Line} (shown : replay tr = some l) :
    replay (tr ++ es) = es.foldlM (fun l e => e.apply l) l :=
  replay_on shown es

/-- A writer that finds no transfer activated has its own buffer at the head of the queue. -/
def Guard (s : State) (a : Action) : Prop :=
  ∀ t item, a = .activate t → s.writer t = .pushed item → s.activated = false →
    rtDataQueuePeek s.queue.queue = some item

variable {n : Nat} {isr : Tid} {s s' : State} {q : List DataItem} {l : Line} {tr es : List Event}

theorem peek_holds {d : DataQueue} (holds : DataQueue.Holds n d q) : rtDataQueuePeek d = q.head? := by
  rw [rtDataQueuePeek]
  cases q with
  | nil => rw [if_pos (holds.empty.mpr rfl), List.head?_nil]
  | cons item rest =>
    have some_items : ¬ d.isEmpty = true := by simp [holds.empty]
    rw [if_neg some_items, holds.fetch.1, List.head?_cons]

/-- What rt_data_queue_push does at once, or once it is woken: it stores or it waits. -/
structure PushStep (n : Nat) (t : Tid) (item : DataItem) (q : List DataItem)
    (before : DataQueue.State) (r : DataQueue.State × List DataQueue.Event) : Prop where
  others : ∀ u, u ≠ t → r.1.call u = before.call u
  cases : r.2 = [.pushed t item] ∧ DataQueue.Holds n r.1.queue (q ++ [item]) ∨
    r.2 = [.pushWaits t] ∧ r.1.queue = before.queue ∧ r.1.call t = .pushing item (-1)

theorem pushLoop_step {b : DataQueue.State} {t : Tid} {item : DataItem}
    {r : DataQueue.State × List DataQueue.Event} (holds : DataQueue.Holds n b.queue q)
    (taken : DataQueue.pushLoop b t item (-1) = some r) : PushStep n t item q b r := by
  simp only [DataQueue.pushLoop] at taken
  split at taken
  · rw [if_neg (by decide), DataQueue.block] at taken
    split at taken
    · contradiction
    · obtain ⟨k, _, rfl⟩ := Option.map_eq_some_iff.mp taken
      constructor
      · intro u other
        simp [DataQueue.State.goto, other]
      · exact .inr ⟨rfl, rfl, by simp [DataQueue.State.goto]⟩
  · rename_i notFull
    have room : q.length < n := by
      have fits := holds.fits
      have differ := mt holds.full.mpr notFull
      lia
    cases taken
    constructor
    · intro u other
      simp [DataQueue.State.goto, other]
    · exact .inl ⟨rfl, holds.store room item⟩

/-- Where the transfer is: none activated, one activated and not begun, or one going on. -/
inductive Mode (s : State) : List DataItem → Line → Prop where
  | resting {q : List DataItem} : s.activated = false → s.dma = none →
      (∀ t item, s.writer t ≠ .activating item) →
      (∀ item, q.head? = some item → ∃ t, s.writer t = .pushed item) → Mode s q ⟨q, none⟩
  | starting {t : Tid} {item : DataItem} {rest : List DataItem} : s.activated = true → s.dma = none →
      s.writer t = .activating item → (∀ u other, s.writer u = .activating other → u = t) →
      Mode s (item :: rest) ⟨item :: rest, none⟩
  | busy {item : DataItem} {rest : List DataItem} : s.activated = true → s.dma = some item →
      (∀ t other, s.writer t ≠ .activating other) → Mode s (item :: rest) ⟨rest, some item⟩

structure Inv (n : Nat) (isr : Tid) (tr : List Event) (s : State) (q : List DataItem) (l : Line) : Prop where
  shown : replay tr = some l
  holds : DataQueue.Holds n s.queue.queue q
  mode : Mode s q l
  calls : ∀ t, s.writer t = .pushing → ∃ item, s.queue.call t = .pushing item (-1)
  handler : s.queue.call isr = .idle ∧ s.writer isr = .idle

theorem Mode.goto {t : Tid} {w : Writer} (mode : Mode s q l) (queue : DataQueue.State)
    (before : ∀ item, s.writer t ≠ .activating item) (after : ∀ item, w ≠ .activating item)
    (kept : ∀ item, s.activated = false → s.writer t = .pushed item → w = .pushed item) :
    Mode ({ s with queue := queue }.goto t w) q l := by
  cases mode with
  | resting rest dma none head =>
    refine .resting rest dma ?_ ?_
    · intro u item
      by_cases same : u = t
      · simpa [State.goto, same] using after item
      · simpa [State.goto, same] using none u item
    · intro item first
      obtain ⟨u, pushed⟩ := head item first
      refine ⟨u, ?_⟩
      by_cases same : u = t
      · subst same
        simpa [State.goto] using kept item rest pushed
      · simpa [State.goto, same] using pushed
  | @starting u item rest active dma activating only =>
    have other : u ≠ t := fun same => before item (same ▸ activating)
    refine .starting (t := u) active dma (by simpa [State.goto, other] using activating) ?_
    intro v y here
    by_cases same : v = t
    · subst same
      exact absurd (by simpa [State.goto] using here) (after y)
    · exact only v y (by simpa [State.goto, same] using here)
  | busy active dma none =>
    refine .busy active dma ?_
    intro u item
    by_cases same : u = t
    · simpa [State.goto, same] using after item
    · simpa [State.goto, same] using none u item

theorem Mode.push {t : Tid} {item : DataItem} (mode : Mode s q l) (pushed : s.writer t = .pushed item) :
    Mode s (q ++ [item]) { l with waiting := l.waiting ++ [item] } := by
  cases mode with
  | resting rest dma none head =>
    refine .resting rest dma none ?_
    intro first here
    cases q with
    | nil => exact ⟨t, by simpa [pushed] using here⟩
    | cons x q => exact head first (by simpa using here)
  | starting active dma activating only => exact .starting active dma activating only
  | busy active dma none => exact .busy active dma none

theorem Inv.push {t : Tid} {item : DataItem} {r : DataQueue.State × List DataQueue.Event}
    (inv : Inv n isr tr s q l) (other : t ≠ isr) (writer : s.writer t = .idle ∨ s.writer t = .pushing)
    (push : PushStep n t item q s.queue r) :
    ∃ q' l', Inv n isr (tr ++ (pushReturn s t r).2) (pushReturn s t r).1 q' l' := by
  obtain ⟨queue, shown⟩ := r
  obtain ⟨others, stored | waits⟩ := push
  all_goals replace others : ∀ u, u ≠ t → queue.call u = s.queue.call u := others
  · obtain ⟨rfl, holds⟩ := stored
    refine ⟨q ++ [item], { l with waiting := l.waiting ++ [item] }, ?_, holds, ?_, ?_, ?_⟩
    · simp [pushReturn, replay_append inv.shown, Event.apply]
    · have moved : Mode ({ s with queue := queue }.goto t (.pushed item)) q l := by
        apply inv.mode.goto
        · rcases writer with idle | pushing <;> simp [*]
        · simp
        · rcases writer with idle | pushing <;> simp [*]
      exact moved.push (t := t) (by simp [State.goto])
    · intro u pushing
      by_cases same : u = t
      · simp [pushReturn, State.goto, same] at pushing
      · simp only [pushReturn, State.goto, Function.update_of_ne same] at pushing ⊢
        rw [others u same]
        exact inv.calls u pushing
    · have distinct : isr ≠ t := Ne.symm other
      simpa [pushReturn, State.goto, distinct, others isr distinct] using inv.handler
  · obtain ⟨rfl, same_queue, call⟩ := waits
    replace same_queue : queue.queue = s.queue.queue := same_queue
    refine ⟨q, l, ?_, ?_, ?_, ?_, ?_⟩
    · simpa [pushReturn] using inv.shown
    · simpa [pushReturn, State.goto, same_queue] using inv.holds
    · refine inv.mode.goto queue ?_ (by simp) ?_
      · rcases writer with idle | pushing <;> simp [*]
      · rcases writer with idle | pushing <;> simp [*]
    · intro u pushing
      by_cases same : u = t
      · exact ⟨item, by simpa [pushReturn, State.goto, same] using call⟩
      · simp only [pushReturn, State.goto, Function.update_of_ne same] at pushing ⊢
        rw [others u same]
        exact inv.calls u pushing
    · have distinct : isr ≠ t := Ne.symm other
      simpa [pushReturn, State.goto, distinct, others isr distinct] using inv.handler

theorem Inv.failed {t : Tid} {e : Err} (inv : Inv n isr tr s q l) (other : t ≠ isr)
    (before : ∀ item, s.writer t ≠ .activating item ∧ s.writer t ≠ .pushed item) :
    let r := pushReturn s t (s.queue.goto t .idle, [.pushFailed t e])
    Inv n isr (tr ++ r.2) r.1 q l := by
  have distinct : isr ≠ t := Ne.symm other
  refine ⟨?_, inv.holds, ?_, ?_, ?_⟩
  · simpa [pushReturn] using inv.shown
  · exact inv.mode.goto _ (fun item => (before item).1) (by simp)
      (fun item _ pushed => absurd pushed (before item).2)
  · intro u pushing
    by_cases same : u = t
    · simp [pushReturn, State.goto, same] at pushing
    · have here := inv.calls u (by simpa [pushReturn, State.goto, same] using pushing)
      simpa [pushReturn, State.goto, DataQueue.State.goto, same] using here
  · simpa [pushReturn, State.goto, DataQueue.State.goto, distinct] using inv.handler

theorem Inv.activate {t : Tid} (inv : Inv n isr tr s q l) (allowed : Guard s (.activate t))
    (taken : activateSection s t = some s') : ∃ l', Inv n isr tr s' q l' := by
  simp only [activateSection] at taken
  split at taken
  · rename_i item pushed
    have distinct : isr ≠ t := by
      rintro rfl
      simp [inv.handler.2] at pushed
    cases Option.some.inj taken
    split
    · rename_i active
      refine ⟨l, inv.shown, inv.holds, ?_, ?_, ?_⟩
      · exact inv.mode.goto s.queue (by simp [pushed]) (by simp) (by simp [active])
      · intro u pushing
        by_cases same : u = t
        · simp [State.goto, same] at pushing
        · exact inv.calls u (by simpa [State.goto, same] using pushing)
      · simpa [State.goto, distinct] using inv.handler
    · rename_i inactive
      have inactive : s.activated = false := by simpa using inactive
      have head := allowed t item rfl pushed inactive
      rw [peek_holds inv.holds, List.head?_eq_some_iff] at head
      obtain ⟨rest, rfl⟩ := head
      cases mode : inv.mode with
      | starting active | busy active => simp [inactive] at active
      | resting _ dma none _ =>
        refine ⟨⟨item :: rest, .none⟩, inv.shown, inv.holds, ?_, ?_, ?_⟩
        · refine .starting (t := t) rfl dma (by simp [State.goto]) ?_
          intro u other here
          by_contra same
          exact none u other (by simpa [State.goto, same] using here)
        · intro u pushing
          by_cases same : u = t
          · simp [State.goto, same] at pushing
          · exact inv.calls u (by simpa [State.goto, same] using pushing)
        · simpa [State.goto, distinct] using inv.handler
  · contradiction

theorem Inv.transmit {t : Tid} (inv : Inv n isr tr s q l) (taken : dmaTransmit s t = some (s', es)) :
    ∃ l', Inv n isr (tr ++ es) s' q l' := by
  simp only [dmaTransmit] at taken
  split at taken
  · rename_i item activating
    have distinct : isr ≠ t := by
      rintro rfl
      simp [inv.handler.2] at activating
    cases Option.some.inj taken
    obtain ⟨shown, holds, mode, calls, handler⟩ := inv
    cases mode with
    | resting _ _ none | busy _ _ none => exact absurd activating (none t item)
    | @starting u _ rest active dma here only =>
      cases only t item activating
      cases here.symm.trans activating
      refine ⟨⟨rest, some item⟩, ?_, holds, ?_, ?_, ?_⟩
      · simp [replay_append shown, Event.apply]
      · refine .busy active rfl ?_
        intro u other here
        by_cases same : u = t
        · simp [State.goto, same] at here
        · exact same (only u other (by simpa [State.goto, same] using here))
      · intro u pushing
        by_cases same : u = t
        · simp [State.goto, same] at pushing
        · exact calls u (by simpa [State.goto, same] using pushing)
      · simpa [State.goto, distinct] using handler
  · contradiction

theorem pop_head {b : DataQueue.State} {item : DataItem} {rest : List DataItem}
    {r : DataQueue.State × List DataQueue.Event} (holds : DataQueue.Holds n b.queue (item :: rest))
    (taken : DataQueue.rtDataQueuePop b isr 0 = some r) :
    r.2 = [.popped isr item] ∧ DataQueue.Holds n r.1.queue rest ∧
      (∀ u, u ≠ isr → r.1.call u = b.call u) ∧ r.1.call isr = .idle := by
  have some_items : ¬ b.queue.isEmpty = true := by simp [holds.empty]
  obtain ⟨head, left⟩ := holds.fetch
  simp only [DataQueue.rtDataQueuePop] at taken
  split at taken
  · contradiction
  · rw [DataQueue.popLoop, if_neg some_items] at taken
    cases taken
    refine ⟨by rw [head], left, ?_, by simp [DataQueue.State.goto]⟩
    intro u other
    simp [DataQueue.State.goto, other]

theorem Inv.dmaDone {finished : DataItem} (inv : Inv n isr tr s q l) (under : s.dma = some finished)
    (taken : rtHwSerialIsr isr s finished = some (s', es)) : ∃ q' l', Inv n isr (tr ++ es) s' q' l' := by
  obtain ⟨shown, holds, mode, calls, handler⟩ := inv
  cases mode with
  | resting _ dma | starting _ dma => simp [under] at dma
  | @busy item rest active dma none =>
    cases dma.symm.trans under
    obtain ⟨r, popped, result⟩ := Option.map_eq_some_iff.mp taken
    obtain ⟨event, left, others, idle⟩ := pop_head holds popped
    have kept : ∀ t, s.writer t = .pushing → ∃ item, r.1.call t = .pushing item (-1) := by
      intro t pushing
      have distinct : t ≠ isr := by
        rintro rfl
        simp [handler.2] at pushing
      rw [others t distinct]
      exact calls t pushing
    have peek := peek_holds left
    cases rest with
    | nil =>
      simp only [peek, event, poppedBy, List.head?_nil] at result
      cases result
      refine ⟨[], ⟨[], .none⟩, ?_, left, ?_, kept, idle, handler.2⟩
      · simp [replay_append shown, Event.apply]
      · exact .resting rfl rfl none (by simp)
    | cons next rest =>
      simp only [peek, event, poppedBy, List.head?_cons] at result
      cases result
      refine ⟨next :: rest, ⟨rest, some next⟩, ?_, left, ?_, kept, idle, handler.2⟩
      · simp [replay_append shown, Event.apply]
      · exact .busy rfl rfl none

theorem Inv.step {a : Action} (inv : Inv n isr tr s q l) (allowed : Guard s a)
    (taken : SerialTx.step isr s a = some (s', es)) : ∃ q' l', Inv n isr (tr ++ es) s' q' l' := by
  cases a with
  | write t item =>
    simp only [SerialTx.step, serialDmaTx] at taken
    split at taken
    · contradiction
    · rename_i other
      split at taken
      · rename_i idle
        obtain ⟨r, pushed, result⟩ := Option.map_eq_some_iff.mp taken
        simp only [DataQueue.rtDataQueuePush] at pushed
        split at pushed
        · contradiction
        · have next := inv.push other (.inl idle) (pushLoop_step inv.holds pushed)
          rwa [result] at next
      · contradiction
  | resume t =>
    simp only [SerialTx.step] at taken
    split at taken
    · rename_i pushing
      obtain ⟨r, resumed, result⟩ := Option.map_eq_some_iff.mp taken
      obtain ⟨item, call⟩ := inv.calls t pushing
      have other : t ≠ isr := by
        rintro rfl
        simp [inv.handler.2] at pushing
      simp only [DataQueue.resumeCall, call] at resumed
      split at resumed
      · contradiction
      · split at resumed
        · cases resumed
          cases result
          exact ⟨q, l, inv.failed other (by simp [pushing])⟩
        · have next := inv.push other (.inr pushing) (pushLoop_step inv.holds resumed)
          rwa [result] at next
    · contradiction
  | activate t =>
    obtain ⟨next, activated, result⟩ := Option.map_eq_some_iff.mp taken
    cases result
    rw [List.append_nil]
    exact ⟨q, inv.activate allowed activated⟩
  | transmit t => exact ⟨q, inv.transmit taken⟩
  | dmaDone =>
    obtain ⟨finished, under, handled⟩ := Option.bind_eq_some_iff.mp taken
    exact inv.dmaDone under handled

/-- Every buffer pushed is transmitted once and in the order of the pushes, one transfer after
the other, and reported when its own has finished; while buffers wait, a transfer goes on, or
the writer of the oldest one is about to begin it. -/
structure TransmitsOnce (tr : List Event) (s : State) : Prop where
  line : ∃ l, replay tr = some l ∧ l.underway = s.dma ∧
    ∀ item, l.waiting.head? = some item →
      s.dma ≠ none ∨ ∃ t, s.writer t = .activating item ∨ s.writer t = .pushed item

theorem Inv.transmitsOnce (inv : Inv n isr tr s q l) : TransmitsOnce tr s := by
  obtain ⟨shown, _, mode, _, _⟩ := inv
  refine ⟨l, shown, ?_⟩
  cases mode with
  | resting rest dma none head =>
    refine ⟨dma.symm, fun item first => .inr ?_⟩
    obtain ⟨t, pushed⟩ := head item first
    exact ⟨t, .inr pushed⟩
  | @starting t item rest active dma activating only =>
    refine ⟨dma.symm, fun first here => .inr ⟨t, .inl ?_⟩⟩
    cases here
    exact activating
  | busy active dma none => exact ⟨dma.symm, fun _ _ => .inl (by simp [dma])⟩

theorem start_inv (start : Start n s) (isr : Tid) : Inv n isr [] s [] ⟨[], none⟩ where
  shown := rfl
  holds := DataQueue.start_holds start.queue
  mode := .resting start.activated start.dma (by simp [start.idle]) (by simp)
  calls := by simp [start.idle]
  handler := ⟨start.queue.idle isr, start.idle isr⟩

theorem run_inv (run : RunWhere (machine n isr) Guard tr s) : ∃ q l, Inv n isr tr s q l := by
  apply run.invariant (I := fun tr s => ∃ q l, Inv n isr tr s q l)
  · intro s start
    exact ⟨[], ⟨[], none⟩, start_inv start isr⟩
  · rintro tr s a s' es _ ⟨q, l, inv⟩ allowed taken
    exact inv.step allowed taken

/-- Where no writer overtakes another one between its push and its activation, and none comes
to the activation after its buffer is gone. -/
theorem transmits_once (run : RunWhere (machine n isr) Guard tr s) : TransmitsOnce tr s := by
  obtain ⟨q, l, inv⟩ := run_inv run
  exact inv.transmitsOnce

def guardChecked (s : State) : Action → Bool
  | .activate t =>
    match s.writer t with
    | .pushed item => s.activated || rtDataQueuePeek s.queue.queue == some item
    | _ => true
  | _ => true

theorem guardChecked_sound {a : Action} (checked : guardChecked s a = true) : Guard s a := by
  rintro t item rfl pushed inactive
  simpa [guardChecked, pushed, inactive] using checked

/-- Three threads, the device open for transmission by DMA. -/
def threeWriters : State where
  queue := DataQueue.threeCallers 8 4
  activated := false
  dma := none
  writer := fun _ => .idle

theorem threeWriters_start : Start 8 threeWriters where
  queue := DataQueue.threeCallers_start 8 4 (by decide) (by decide)
  activated := rfl
  dma := rfl
  idle := fun _ => rfl

def inTurn : List Event :=
  [.pushed ⟨1, 4⟩, .pushed ⟨2, 6⟩, .transmitted ⟨1, 4⟩, .completed ⟨1, 4⟩ (some ⟨1, 4⟩),
    .transmitted ⟨2, 6⟩]

theorem transmits_once_two : ∃ s, TransmitsOnce inTurn s ∧ s.dma = some ⟨2, 6⟩ := by
  obtain ⟨s, run, dma⟩ := Run.shows (M := (machine 8 9).restrict guardChecked) threeWriters_start
    [.write 0 ⟨1, 4⟩, .write 1 ⟨2, 6⟩, .activate 0, .transmit 0, .activate 1, .dmaDone] inTurn
    (fun s => s.dma == some ⟨2, 6⟩) (by decide)
  exact ⟨s, transmits_once (RunWhere.ofRestrict (fun _ _ _ _ => guardChecked_sound) run),
    by simpa using dma⟩

/-- A second writer comes between the push of the first and its activation: its buffer is
transmitted twice and reported as the other one, which is never transmitted. -/
def overtaken : List Event :=
  [.pushed ⟨1, 4⟩, .pushed ⟨2, 6⟩, .transmitted ⟨2, 6⟩, .completed ⟨2, 6⟩ (some ⟨1, 4⟩),
    .transmitted ⟨2, 6⟩, .completed ⟨2, 6⟩ (some ⟨2, 6⟩)]

theorem transmitted_twice : ∃ s, Run (machine 8 9) overtaken s ∧ ¬ TransmitsOnce overtaken s := by
  obtain ⟨s, run, _⟩ := Run.shows (M := machine 8 9) threeWriters_start
    [.write 0 ⟨1, 4⟩, .write 1 ⟨2, 6⟩, .activate 1, .transmit 1, .activate 0, .dmaDone, .dmaDone] overtaken
    (fun _ => true) (by decide)
  refine ⟨s, run, ?_⟩
  rintro ⟨l, shown, _⟩
  contradiction

/-- An activation outside of the guard leads to a transmission out of turn. -/
theorem activation_breaks {t : Tid} {item : DataItem} (inv : Inv n isr tr s q l)
    (pushed : s.writer t = .pushed item) (inactive : s.activated = false)
    (other : rtDataQueuePeek s.queue.queue ≠ some item) :
    ∃ s', (machine n isr).exec s [.activate t, .transmit t] = some (s', [.transmitted item]) ∧
      replay (tr ++ [.transmitted item]) = none := by
  refine ⟨{ s.goto t .idle with activated := true, dma := some item }, ?_, ?_⟩
  · simp [Machine.exec, machine, step, activateSection, dmaTransmit, State.goto, pushed, inactive]
  · rw [peek_holds inv.holds] at other
    cases mode : inv.mode with
    | starting active | busy active => simp [inactive] at active
    | resting => simp [replay_append inv.shown, Event.apply, other]

end RtThread.SerialTx
