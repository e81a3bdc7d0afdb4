import RtThread.RingBlock
import RtThread.Semaphore

/-! Asynchronous output of ulog: any number of callers of do_output and the thread ulog_async,
over the ring block buffer and the semaphore async_notice. -/
namespace RtThread.Ulog
open Transition RingBlock

/-- Where the thread is: before rt_rbb_blk_get, before the free of a block it has put out, before
the reset and before the take in ulog_async_waiting_log, or inside of rt_sem_take. -/
inductive Async where
  | getting
  | freeing (block : Nat)
  | resetting
  | taking
  | waiting
  deriving DecidableEq

/-- Where a caller of do_output is. -/
inductive Logger where
  | idle
  | putting (block : Nat)
  | releasing (block : Nat)
  deriving DecidableEq

/-- `putter` is history: who put the block last. -/
structure State where
  rbb : Rbb
  asyncNotice : Semaphore.State
  async : Async
  logger : Tid → Logger
  putter : Nat → Option Tid

inductive Action where
  | alloc (t : Tid) (size : Nat)
  | put (t : Tid)
  | release (t : Tid)
  | get
  | free
  | reset
  | take
  | wake

def State.goto (s : State) (t : Tid) (l : Logger) : State :=
  { s with logger := Function.update s.logger t l }

/-- rt_rbb_blk_alloc; without a block there is only a warning. -/
def outputAlloc (s : State) (t : Tid) (size : Nat) : Option State :=
  match s.logger t with
  | .idle => (rtRbbBlkAlloc s.rbb size).map (fun r =>
      match r.2 with
      | some block => { s with rbb := r.1 }.goto t (.putting block)
      | none => { s with rbb := r.1 })
  | _ => none

def outputPut (s : State) (t : Tid) : Option State :=
  match s.logger t with
  | .putting block => (rtRbbBlkPut s.rbb block).map (fun r =>
      { s with rbb := r, putter := Function.update s.putter block (some t) }.goto t (.releasing block))
  | _ => none

def outputRelease (s : State) (t : Tid) : Option State :=
  match s.logger t with
  | .releasing _ => some ({ s with asyncNotice := (Semaphore.rtSemRelease s.asyncNotice).1 }.goto t .idle)
  | _ => none

/-- The loop condition of ulog_async_output. -/
def asyncGet (s : State) : Option State :=
  match s.async, rtRbbBlkGet s.rbb with
  | .getting, (r, some block) => some { s with rbb := r, async := .freeing block }
  | .getting, (r, none) => some { s with rbb := r, async := .resetting }
  | _, _ => none

def asyncFree (s : State) : Option State :=
  match s.async with
  | .freeing block => (rtRbbBlkFree s.rbb block).map (fun r => { s with rbb := r, async := .getting })
  | _ => none

/-- ulog_async_waiting_log with RT_WAITING_FOREVER, of the thread `th`. -/
def asyncReset (s : State) : Option State :=
  match s.async with
  | .resetting => (Semaphore.rtSemReset s.asyncNotice 0).map (fun r =>
      { s with asyncNotice := r.1, async := .taking })
  | _ => none

def asyncTake (th : Tid) (s : State) : Option State :=
  match s.async with
  | .taking => (Semaphore.rtSemTake s.asyncNotice th (-1)).map (fun r =>
      { s with asyncNotice := r.1, async := if r.1.waiting th then .waiting else .getting })
  | _ => none

def asyncWake (th : Tid) (s : State) : Option State :=
  match s.async with
  | .waiting => (Semaphore.takeReturn s.asyncNotice th).map (fun r =>
      { s with asyncNotice := r.1, async := .getting })
  | _ => none

def step (th : Tid) (s : State) : Action → Option State
  | .alloc t size => outputAlloc s t size
  | .put t => outputPut s t
  | .release t => outputRelease s t
  | .get => asyncGet s
  | .free => asyncFree s
  | .reset => asyncReset s
  | .take => asyncTake th s
  | .wake => asyncWake th s

/-- After ulog_init. -/
structure Start (th : Tid) (s : State) : Prop where
  notice : Semaphore.Start 0 s.asyncNotice
  ready : (s.asyncNotice.kernel.thread th).stat = .ready
  async : s.async = .getting
  idle : ∀ t, s.logger t = .idle
  empty : s.rbb.blkList = []

def machine (th : Tid) : Machine State Action Unit where
  start := Start th
  step s a := (step th s a).map (fun s => (s, []))

/-- A block in the buffer that was put by `t`. -/
def Stored (s : State) (block : Nat) (t : Tid) : Prop :=
  block ∈ s.rbb.blkList ∧ (s.rbb.blkSet block).status = .put ∧ s.putter block = some t

/-- A log that its caller has announced. -/
def Announced (s : State) : Prop := ∃ block t, Stored s block t ∧ s.logger t ≠ .releasing block

/-- The thread is blocked on async_notice. -/
def Blocked (th : Tid) (s : State) : Prop :=
  s.async = .waiting ∧ (s.asyncNotice.kernel.thread th).stat = .suspend ∧ s.asyncNotice.value = 0

/-- No caller releases the notice of a log between the rt_rbb_blk_get that has found the buffer
empty and the reset. -/
def Guard (s : State) (a : Action) : Prop :=
  ∀ t block, a = .release t → s.logger t = .releasing block → s.async = .resetting → ¬ Stored s block t

/-- What an announced log tells of the thread. -/
def Told (th : Tid) (s : State) : Prop :=
  match s.async with
  | .getting => True
  | .freeing _ => True
  | .resetting => False
  | .taking => 0 < s.asyncNotice.value
  | .waiting => (s.asyncNotice.kernel.thread th).stat = .ready

structure Inv (th : Tid) (s : State) : Prop where
  notice : ∃ tr, Semaphore.Inv 0 tr s.asyncNotice
  waits : ∀ t, s.asyncNotice.waiting t = true ↔ t = th ∧ s.async = .waiting
  told : Announced s → Told th s

section Buffer
variable {r r' : Rbb} {size block i : Nat} {o : Option Nat}

theorem alloc_cases (taken : rtRbbBlkAlloc r size = some (r', o)) :
    (r' = r ∧ o = none) ∨ ∃ new p, r' = r.place new p size ∧ o = some new := by
  simp only [rtRbbBlkAlloc] at taken
  repeat' split at taken
  all_goals cases taken
  all_goals first | exact .inl ⟨rfl, rfl⟩ | exact .inr ⟨_, _, rfl, rfl⟩

theorem get_none (found : rtRbbBlkGet r = (r', none)) :
    r' = r ∧ ∀ i ∈ r.blkList, (r.blkSet i).status ≠ .put := by
  unfold rtRbbBlkGet at found
  split at found
  · cases found
  · rename_i absent
    cases found
    refine ⟨rfl, fun i listed => ?_⟩
    simpa using List.find?_eq_none.mp absent i listed

end Buffer

section Steps
variable {th : Tid} {s s' : State} {a : Action}

theorem inv_start (start : Start th s) : Inv th s := by
  refine ⟨⟨[], Semaphore.start_inv start.notice⟩, ?_, ?_⟩
  · intro t
    simp [start.notice.idle, start.async]
  · intro _
    simp only [Told, start.async]

theorem Inv.logs (inv : Inv th s) (notice : s'.asyncNotice = s.asyncNotice) (async : s'.async = s.async)
    (announced : Announced s' → Announced s) : Inv th s' := by
  refine ⟨notice ▸ inv.notice, ?_, ?_⟩
  · rw [notice, async]
    exact inv.waits
  · intro later
    have told := inv.told (announced later)
    simp only [Told] at told ⊢
    rw [notice, async]
    exact told

theorem Inv.alloc {t : Tid} {size : Nat} (inv : Inv th s) (taken : outputAlloc s t size = some s') :
    Inv th s' := by
  simp only [outputAlloc] at taken
  split at taken
  · rename_i idle
    obtain ⟨⟨r, o⟩, allocated, same⟩ := Option.map_eq_some_iff.mp taken
    rcases alloc_cases allocated with ⟨rfl, rfl⟩ | ⟨new, p, rfl, rfl⟩
    · cases same
      exact inv
    · cases same
      refine inv.logs rfl rfl ?_
      rintro ⟨block, u, ⟨listed, put, by_whom⟩, released⟩
      have other : block ≠ new := by
        rintro rfl
        simp [State.goto] at put
      have before : block ∈ s.rbb.blkList := by
        rcases List.mem_append.mp listed with before | here
        · exact before
        · exact absurd (List.mem_singleton.mp here) other
      simp only [State.goto, place_other other] at put
      refine ⟨block, u, ⟨before, put, by_whom⟩, ?_⟩
      by_cases here : u = t
      · simp [here, idle]
      · simpa [State.goto, here] using released
  · contradiction

theorem Inv.put {t : Tid} (inv : Inv th s) (taken : outputPut s t = some s') : Inv th s' := by
  simp only [outputPut] at taken
  split at taken
  · rename_i block putting
    obtain ⟨r, put, same⟩ := Option.map_eq_some_iff.mp taken
    simp only [rtRbbBlkPut] at put
    split at put
    · cases put
      cases same
      refine inv.logs rfl rfl ?_
      rintro ⟨other, u, ⟨listed, status, by_whom⟩, released⟩
      simp only [State.goto] at status by_whom released
      by_cases here : other = block
      · subst here
        rw [Function.update_self, Option.some.injEq] at by_whom
        subst by_whom
        simp at released
      · rw [setStatus_status, if_neg here] at status
        rw [Function.update_of_ne here] at by_whom
        refine ⟨other, u, ⟨listed, status, by_whom⟩, ?_⟩
        by_cases self_put : u = t
        · simp [self_put, putting]
        · simpa [self_put] using released
    · contradiction
  · contradiction

theorem release_tells {tr es : List Semaphore.Event} {notice : Semaphore.State} (inv : Inv th s)
    (sound : Semaphore.Inv 0 tr s.asyncNotice) (released : Semaphore.rtSemRelease s.asyncNotice = (notice, es))
    (late : s.async ≠ .resetting) : Told th { s with asyncNotice := notice } := by
  have woken (list : s.asyncNotice.kernel.list (.wait 0) = []) (waiting : s.async = .waiting) :
      (s.asyncNotice.kernel.thread th).stat = .ready := by
    have waits := (inv.waits th).mpr ⟨rfl, waiting⟩
    exact sound.wait.ready waits (by simp [list])
  rcases Semaphore.release_cases sound released with
    ⟨w, rest, list, _, suspended, rfl⟩ | ⟨list, room, _, rfl⟩ | ⟨list, full, _, rfl⟩
  · have waits := ((sound.wait.listed w).mp (by simp [list])).1
    obtain ⟨rfl, waiting⟩ := (inv.waits w).mp waits
    simp only [Told, waiting, Kernel.resume_self suspended, Thread.awake]
  · cases place : s.async with
    | getting => simp only [Told]
    | freeing block => simp only [Told]
    | resetting => exact absurd place late
    | taking =>
      simp only [Told]
      lia
    | waiting =>
      simp only [Told]
      exact woken list place
  · cases place : s.async with
    | getting => simp only [Told]
    | freeing block => simp only [Told]
    | resetting => exact absurd place late
    | taking =>
      simp only [Told, full]
      decide
    | waiting =>
      simp only [Told]
      exact woken list place

theorem Inv.release {t : Tid} (inv : Inv th s) (guard : Guard s (.release t))
    (taken : outputRelease s t = some s') : Inv th s' := by
  simp only [outputRelease] at taken
  split at taken
  · rename_i block releasing
    obtain ⟨tr, sound⟩ := inv.notice
    obtain ⟨notice, es, released⟩ : ∃ notice es, Semaphore.rtSemRelease s.asyncNotice = (notice, es) :=
      ⟨_, _, rfl⟩
    rw [released] at taken
    cases taken
    refine ⟨⟨_, Semaphore.release_inv sound released⟩, ?_, ?_⟩
    · have kept : notice.waiting = s.asyncNotice.waiting := by
        rcases Semaphore.release_cases sound released with
          ⟨_, _, _, _, _, rfl⟩ | ⟨_, _, _, rfl⟩ | ⟨_, _, _, rfl⟩ <;> rfl
      simp only [State.goto, kept]
      exact inv.waits
    · rintro ⟨other, u, stored, done⟩
      by_cases late : s.async = .resetting
      · -- the notice that is lost is no one's
        exfalso
        have earlier : Announced s → False := by
          intro announced
          have told := inv.told announced
          simp only [Told, late] at told
        refine earlier ⟨other, u, stored, ?_⟩
        by_cases here : u = t
        · rw [here, releasing]
          intro same
          injection same with same
          subst same here
          exact guard u block rfl releasing late stored
        · simpa [State.goto, here] using done
      · have told := release_tells inv sound released late
        exact told
  · contradiction

theorem Inv.get (inv : Inv th s) (taken : asyncGet s = some s') : Inv th s' := by
  simp only [asyncGet] at taken
  split at taken
  · rename_i r block getting _
    cases taken
    refine ⟨inv.notice, ?_, fun _ => trivial⟩
    simpa [getting] using inv.waits
  · rename_i r getting found
    cases taken
    obtain ⟨rfl, empty⟩ := get_none found
    refine ⟨inv.notice, ?_, ?_⟩
    · simpa [getting] using inv.waits
    · rintro ⟨block, t, stored, _⟩
      exact absurd stored.2.1 (empty block stored.1)
  · contradiction

theorem Inv.free (inv : Inv th s) (taken : asyncFree s = some s') : Inv th s' := by
  simp only [asyncFree] at taken
  split at taken
  · rename_i block freeing
    obtain ⟨r, _, same⟩ := Option.map_eq_some_iff.mp taken
    cases same
    refine ⟨inv.notice, ?_, fun _ => trivial⟩
    simpa [freeing] using inv.waits
  · contradiction

theorem Inv.reset (inv : Inv th s) (taken : asyncReset s = some s') : Inv th s' := by
  simp only [asyncReset] at taken
  split at taken
  · rename_i resetting
    obtain ⟨⟨notice, es⟩, done, same⟩ := Option.map_eq_some_iff.mp taken
    cases same
    obtain ⟨tr, sound⟩ := inv.notice
    refine ⟨⟨_, Semaphore.reset_inv sound done⟩, ?_, ?_⟩
    · obtain ⟨k, _, same⟩ := Option.map_eq_some_iff.mp done
      cases same
      simpa [resetting] using inv.waits
    · intro announced
      have told := inv.told announced
      simp only [Told, resetting] at told
  · contradiction

theorem Inv.take (inv : Inv th s) (taken : asyncTake th s = some s') : Inv th s' := by
  simp only [asyncTake] at taken
  split at taken
  · rename_i taking
    obtain ⟨⟨notice, es⟩, done, same⟩ := Option.map_eq_some_iff.mp taken
    cases same
    obtain ⟨tr, sound⟩ := inv.notice
    have idle (t : Tid) : s.asyncNotice.waiting t = false := by
      have := inv.waits t
      simpa [taking] using this
    refine ⟨⟨_, Semaphore.take_inv sound done⟩, ?_, ?_⟩
    · rcases (Semaphore.take_cases done).2 with ⟨_, after, _⟩ | ⟨after, _⟩ | ⟨_, _, _, k, _, after⟩
      · simp [after, idle]
      · simp [after, idle]
      · intro t
        by_cases here : t = th
        · simp [after, here]
        · simp [after, here, idle]
    · intro announced
      have positive : 0 < s.asyncNotice.value := by
        have told := inv.told announced
        simpa only [Told, taking] using told
      rcases (Semaphore.take_cases done).2 with ⟨_, after, _⟩ | ⟨after, _⟩ | ⟨zero, _⟩
      · simp [Told, after, idle]
      · simp [Told, after, idle]
      · lia
  · contradiction

theorem Inv.wake (inv : Inv th s) (taken : asyncWake th s = some s') : Inv th s' := by
  simp only [asyncWake] at taken
  split at taken
  · rename_i waiting
    obtain ⟨⟨notice, es⟩, done, same⟩ := Option.map_eq_some_iff.mp taken
    cases same
    obtain ⟨tr, sound⟩ := inv.notice
    obtain ⟨_, _, after, _⟩ := Semaphore.return_cases done
    refine ⟨⟨_, Semaphore.return_inv sound done⟩, ?_, fun _ => trivial⟩
    intro t
    by_cases here : t = th
    · simp [after, here]
    · have other := inv.waits t
      simp only [here, false_and, iff_false] at other
      simp [after, here, other]
  · contradiction

theorem inv_step {es : List Unit} (inv : Inv th s) (guard : Guard s a)
    (taken : (machine th).step s a = some (s', es)) : Inv th s' := by
  obtain ⟨r, stepped, same⟩ := Option.map_eq_some_iff.mp taken
  cases same
  cases a with
  | alloc t size => exact inv.alloc stepped
  | put t => exact inv.put stepped
  | release t => exact inv.release guard stepped
  | get => exact inv.get stepped
  | free => exact inv.free stepped
  | reset => exact inv.reset stepped
  | take => exact inv.take stepped
  | wake => exact inv.wake stepped

/-- As long as no log is announced between the last look into the buffer and the reset, the
thread is never blocked while there is an announced log. -/
theorem announced_not_blocked {tr : List Unit} (run : RunWhere (machine th) Guard tr s) :
    ¬ (Blocked th s ∧ Announced s) := by
  have inv : Inv th s := by
    refine run.invariant (I := fun _ s => Inv th s) (fun _ start => inv_start start) ?_
    exact fun _ s a s' es _ inv guard taken => inv_step inv guard taken
  rintro ⟨⟨waiting, suspended, _⟩, announced⟩
  have told := inv.told announced
  simp only [Told, waiting] at told
  rw [told] at suspended
  contradiction

end Steps

def booted : State where
  rbb := rtRbbInit 1000 100 (fun _ => ⟨.unused, 0, 0⟩) 2
  asyncNotice := ⟨Kernel.startedThreads (fun _ => 10) 2, 0, .fifo, fun _ => false⟩
  async := .getting
  logger := fun _ => .idle
  putter := fun _ => none

theorem booted_start : Start 0 booted := by
  refine ⟨⟨rfl, by decide, by decide, fun _ => rfl⟩, by decide, rfl, fun _ => rfl, rfl⟩

def guardChecked (s : State) : Action → Bool
  | .release t =>
    match s.logger t, s.async with
    | .releasing block, .resetting =>
      !(decide (block ∈ s.rbb.blkList) && decide ((s.rbb.blkSet block).status = .put) &&
        decide (s.putter block = some t))
    | _, _ => true
  | _ => true

theorem guardChecked_sound {s : State} {a : Action} (checked : guardChecked s a = true) : Guard s a := by
  rintro t block rfl releasing resetting ⟨listed, put, by_whom⟩
  simp [guardChecked, releasing, resetting, listed, put, by_whom] at checked

/-- A log that is announced while the thread is blocked, which wakes up. -/
theorem announced_not_blocked_woken :
    ∃ s, s.async = .waiting ∧ Announced s ∧ ¬ (Blocked 0 s ∧ Announced s) := by
  obtain ⟨tr, s, run, found⟩ := Run.reaches (M := (machine 0).restrict guardChecked) booted_start
    [.get, .reset, .take, .alloc 1 16, .put 1, .release 1]
    (fun s => decide (s.async = .waiting) && decide (0 ∈ s.rbb.blkList ∧ (s.rbb.blkSet 0).status = .put ∧
      s.putter 0 = some 1) && decide (s.logger 1 = .idle)) (by decide)
  simp only [Bool.and_eq_true, decide_eq_true_eq] at found
  refine ⟨s, found.1.1, ⟨0, 1, found.1.2, by simp [found.2]⟩, ?_⟩
  exact announced_not_blocked (RunWhere.ofRestrict (fun _ _ _ _ => guardChecked_sound) run)

/-- The log is put and announced when the thread has found the buffer empty: the reset takes
the notice away. -/
theorem notice_reset : ∃ tr s, Run (machine 0) tr s ∧ Blocked 0 s ∧ Announced s := by
  obtain ⟨tr, s, run, found⟩ := Run.reaches (M := machine 0) booted_start
    [.get, .alloc 1 16, .put 1, .release 1, .reset, .take]
    (fun s => decide (s.async = .waiting ∧ (s.asyncNotice.kernel.thread 0).stat = .suspend ∧
      s.asyncNotice.value = 0) && decide (0 ∈ s.rbb.blkList ∧ (s.rbb.blkSet 0).status = .put ∧
      s.putter 0 = some 1) && decide (s.logger 1 = .idle)) (by decide)
  simp only [Bool.and_eq_true, decide_eq_true_eq] at found
  exact ⟨tr, s, run, found.1.1, ⟨0, 1, found.1.2, by simp [found.2]⟩⟩

end RtThread.Ulog
