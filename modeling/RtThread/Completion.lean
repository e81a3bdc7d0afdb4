import RtThread.Run
import RtThread.Wait

/-! Completions: rt_completion_wait of one thread and rt_completion_done of any callers, over
every order of their interrupt-disabled sections and of the two reads outside of one. -/
namespace RtThread.Completion
open Kernel Transition

/-- Where the waiting thread is: in rt_schedule, or past its read of `thread->error`. -/
inductive Waiter where
  | idle
  | waiting
  | woken (result : Err)
  deriving DecidableEq

/-- `suspended_list` is `.wait 0`; `tested c`: caller `c` of rt_completion_done has found the
flag not set and has not yet entered its section. -/
structure State where
  kernel : Kernel
  completed : Bool
  waiter : Waiter
  tested : Nat → Bool

/-- `atOnce` and `returned` are results of rt_completion_wait, without and with a suspension. -/
inductive Event where
  | done
  | suspended
  | atOnce (e : Err)
  | returned (e : Err)
  deriving DecidableEq

inductive Action where
  | wait (timeout : Int)
  | read
  | clean
  | expire
  | test (c : Nat)
  | done (c : Nat)

/-- rt_completion_wait up to its rt_schedule. -/
def rtCompletionWait (t : Tid) (s : State) (timeout : Int) : Option (State × List Event) :=
  if s.waiter ≠ .idle then none
  else if s.completed then some ({ s with completed := false }, [.atOnce .eok])
  else if s.kernel.list (.wait 0) ≠ [] then none
  else if timeout = 0 then some (s, [.atOnce .etimeout])
  else if (s.kernel.thread t).stat ≠ .ready then none
  else
    let k := s.kernel.modify t (fun th => { th with error := .eok })
    let k := (k.rtThreadSuspend t).1
    let k := k.rtListInsertBefore (.wait 0) t
    (k.startWaitTimer t timeout).map (fun k => ({ s with kernel := k, waiter := .waiting }, [.suspended]))

/-- The thread runs again and reads its error. -/
def readError (t : Tid) (s : State) : Option State :=
  if s.waiter = .waiting ∧ (s.kernel.thread t).stat = .ready then
    some { s with waiter := .woken (s.kernel.thread t).error }
  else none

/-- The last section of rt_completion_wait. -/
def cleanFlag (s : State) : Option (State × List Event) :=
  match s.waiter with
  | .woken result => some ({ s with completed := false, waiter := .idle }, [.returned result])
  | _ => none

/-- The test of the flag before the section of rt_completion_done. -/
def testFlag (s : State) (c : Nat) : Option (State × List Event) :=
  if s.tested c then none
  else if s.completed then some (s, [.done])
  else some ({ s with tested := Function.update s.tested c true }, [])

def rtCompletionDone (s : State) (c : Nat) : Option (State × List Event) :=
  if s.tested c then
    some ({ s with
      kernel := s.kernel.rtIpcListResume (.wait 0)
      completed := true
      tested := Function.update s.tested c false }, [.done])
  else none

def step (t : Tid) (s : State) : Action → Option (State × List Event)
  | .wait timeout => rtCompletionWait t s timeout
  | .read => (readError t s).map (fun s => (s, []))
  | .clean => cleanFlag s
  | .expire => (s.kernel.timerExpire t).map (fun k => ({ s with kernel := k }, []))
  | .test c => testFlag s c
  | .done c => rtCompletionDone s c

/-- After rt_completion_init, nobody being inside a call. -/
structure Start (s : State) : Prop where
  completed : s.completed = false
  list : s.kernel.list (.wait 0) = []
  waiter : s.waiter = .idle
  tested : ∀ c, s.tested c = false

def machine (t : Tid) : Machine State Action Event where
  start := Start
  step := step t

/-- Whether a completion is still to be returned to a wait after an event: `none` for a wait that
suspends or fails at once although one is, and for a wait that succeeds although none is. -/
def Event.apply (owed : Bool) : Event → Option Bool
  | .done => some true
  | .suspended => if owed then none else some false
  | .atOnce e => if (e = .eok) = (owed = true) then some false else none
  | .returned e => if e = .eok then if owed then some false else none else some owed

def replay (tr : List Event) : Option Bool := tr.foldlM (fun owed e => e.apply owed) false

def TimedOut (t : Tid) (s : State) : Prop :=
  s.waiter = .woken .etimeout ∨
    s.waiter = .waiting ∧ (s.kernel.thread t).stat = .ready ∧ (s.kernel.thread t).error = .etimeout

/-- No section of rt_completion_done falls between the timeout of a wait and its last section. -/
def Guard (t : Tid) (s : State) (a : Action) : Prop := ∀ c, a = .done c → ¬TimedOut t s

variable {t : Tid} {s s' : State} {tr es : List Event} {a : Action} {c : Nat}

/-- What the place of the waiter says about the flag and the completion owed. -/
def Agrees (t : Tid) (s : State) (owed : Bool) : Prop :=
  match s.waiter with
  | .idle => s.completed = owed
  | .woken e => (e = .eok ∧ owed = true) ∨ (e = .etimeout ∧ owed = false ∧ s.completed = false)
  | .waiting =>
    s.kernel.list (.wait 0) = [t] ∧ owed = false ∧ s.completed = false ∨
    s.kernel.list (.wait 0) = [] ∧ ((s.kernel.thread t).error = .eok ∧ owed = true ∨
      (s.kernel.thread t).error = .etimeout ∧ owed = false ∧ s.completed = false)

structure Inv (t : Tid) (tr : List Event) (s : State) : Prop where
  wait : WaitInv s.kernel 0 (fun u => u = t ∧ s.waiter = .waiting)
  owed : ∃ owed, replay tr = some owed ∧ Agrees t s owed

theorem replay_snoc {owed : Bool} (shown : replay tr = some owed) (e : Event) :
    replay (tr ++ [e]) = e.apply owed :=
  replay_one shown e

theorem start_inv (start : Start s) : Inv t [] s := by
  refine ⟨⟨by simp [start.list], ?_, by simp [start.list], ?_⟩, false, rfl, ?_⟩
  · intro u
    simp [start.list, start.waiter]
  · intro u waits
    rw [start.waiter] at waits
    cases waits.2
  · simp only [Agrees, start.waiter, start.completed]

theorem Inv.list (inv : Inv t tr s) (idle : s.waiter ≠ .waiting) : s.kernel.list (.wait 0) = [] := by
  apply List.eq_nil_iff_forall_not_mem.mpr
  intro u listed
  exact idle ((inv.wait.listed u).mp listed).1.2

theorem wait_cases {timeout : Int} (taken : rtCompletionWait t s timeout = some (s', es)) :
    s.waiter = .idle ∧
      ((s.completed = true ∧ s' = { s with completed := false } ∧ es = [.atOnce .eok]) ∨
      (s.completed = false ∧ s' = s ∧ es = [.atOnce .etimeout]) ∨
      (s.completed = false ∧ (s.kernel.thread t).stat = .ready ∧ es = [.suspended] ∧ ∃ k,
        ((s.kernel.modify t (fun th => { th with error := .eok })).rtIpcListSuspend (.wait 0) t
          .fifo).startWaitTimer t timeout = some k ∧
        s' = { s with kernel := k, waiter := .waiting })) := by
  simp only [rtCompletionWait] at taken
  split at taken
  · contradiction
  · rename_i idle
    refine ⟨not_not.mp idle, ?_⟩
    split at taken
    · rename_i completed
      cases Option.some.inj taken
      exact Or.inl ⟨completed, rfl, rfl⟩
    · rename_i uncompleted
      have uncompleted := Bool.eq_false_iff.mpr uncompleted
      split at taken
      · contradiction
      · split at taken
        · cases Option.some.inj taken
          exact Or.inr (Or.inl ⟨uncompleted, rfl, rfl⟩)
        · split at taken
          · contradiction
          · rename_i ready
            obtain ⟨k, started, result⟩ := Option.map_eq_some_iff.mp taken
            cases result
            exact Or.inr (Or.inr ⟨uncompleted, not_not.mp ready, rfl, k, started, rfl⟩)

theorem wait_inv {timeout : Int} (inv : Inv t tr s)
    (taken : rtCompletionWait t s timeout = some (s', es)) : Inv t (tr ++ es) s' := by
  obtain ⟨idle, outcome⟩ := wait_cases taken
  obtain ⟨owed, shown, agrees⟩ := inv.owed
  simp only [Agrees, idle] at agrees
  obtain ⟨completed, rfl, rfl⟩ | ⟨uncompleted, rfl, rfl⟩ | ⟨uncompleted, ready, rfl, k, started, rfl⟩ :=
    outcome
  · have due : owed = true := agrees.symm.trans completed
    refine ⟨inv.wait, false, ?_, by simp [Agrees, idle]⟩
    rw [replay_snoc shown, due]
    rfl
  · have due : owed = false := agrees.symm.trans uncompleted
    refine ⟨inv.wait, false, ?_, by simp [Agrees, idle, uncompleted]⟩
    rw [replay_snoc shown, due]
    rfl
  · have due : owed = false := agrees.symm.trans uncompleted
    obtain ⟨wait, parked, _⟩ := inv.wait.blockTimed ready started
    have wait' : WaitInv k 0 (fun u => u = t ∧ Waiter.waiting = .waiting) :=
      wait.congr (fun u => by simp [idle])
    refine ⟨wait', false, ?_, ?_⟩
    · rw [replay_snoc shown, due]
      rfl
    · have member : ∀ u, u ∈ k.list (.wait 0) ↔ u = t := by
        intro u
        rw [wait'.listed]
        constructor
        · exact fun h => h.1.1
        · rintro rfl
          exact ⟨⟨rfl, rfl⟩, parked⟩
      have alone : k.list (.wait 0) = [t] := List.perm_singleton.mp
        ((List.perm_ext_iff_of_nodup wait'.nodup (List.nodup_singleton t)).mpr (by simpa using member))
      simp [Agrees, alone, uncompleted]

theorem Inv.off (inv : Inv t tr s) (ready : (s.kernel.thread t).stat = .ready) : s.kernel.list (.wait 0) = [] := by
  apply List.eq_nil_iff_forall_not_mem.mpr
  intro u listed
  obtain ⟨⟨rfl, _⟩, suspended⟩ := (inv.wait.listed u).mp listed
  rw [ready] at suspended
  cases suspended

theorem read_inv (inv : Inv t tr s) (taken : readError t s = some s') : Inv t tr s' := by
  simp only [readError] at taken
  split at taken
  · rename_i enabled
    obtain ⟨waiting, ready⟩ := enabled
    cases taken
    obtain ⟨owed, shown, agrees⟩ := inv.owed
    have empty := inv.off ready
    simp only [Agrees, waiting, empty] at agrees
    refine ⟨?_, owed, shown, ?_⟩
    · apply (inv.wait.leave ready).congr
      intro u
      simp [waiting]
    · rcases agrees with ⟨listed, _⟩ | ⟨_, agrees⟩
      · cases listed
      · exact agrees
  · contradiction

theorem clean_inv (inv : Inv t tr s) (taken : cleanFlag s = some (s', es)) : Inv t (tr ++ es) s' := by
  simp only [cleanFlag] at taken
  split at taken
  · rename_i e woken
    cases taken
    obtain ⟨owed, shown, agrees⟩ := inv.owed
    simp only [Agrees, woken] at agrees
    refine ⟨inv.wait.congr (fun u => by simp [woken]), false, ?_, rfl⟩
    rw [replay_snoc shown]
    obtain ⟨rfl, rfl⟩ | ⟨rfl, rfl, _⟩ := agrees <;> rfl
  · contradiction

theorem expire_inv {k : Kernel} (inv : Inv t tr s) (expired : s.kernel.timerExpire t = some k) :
    Inv t tr { s with kernel := k } := by
  obtain ⟨_, suspended, self, _, lists, _⟩ := timerExpire_some expired
  obtain ⟨owed, shown, agrees⟩ := inv.owed
  refine ⟨inv.wait.expire expired, owed, shown, ?_⟩
  cases place : s.waiter with
  | idle => simpa [Agrees, place] using agrees
  | woken e => simpa [Agrees, place] using agrees
  | waiting =>
    have listed : t ∈ s.kernel.list (.wait 0) := (inv.wait.listed t).mpr ⟨⟨rfl, place⟩, suspended⟩
    simp only [Agrees, place] at agrees ⊢
    obtain ⟨alone, rfl, uncompleted⟩ | ⟨empty, _⟩ := agrees
    · refine Or.inr ⟨?_, Or.inr ⟨by rw [self], rfl, uncompleted⟩⟩
      rw [lists, alone]
      simp
    · rw [empty] at listed
      cases listed

theorem test_inv (inv : Inv t tr s) (taken : testFlag s c = some (s', es)) : Inv t (tr ++ es) s' := by
  obtain ⟨owed, shown, agrees⟩ := inv.owed
  simp only [testFlag] at taken
  split at taken
  · contradiction
  · split at taken
    · rename_i completed
      cases taken
      refine ⟨inv.wait, true, replay_snoc shown _, ?_⟩
      cases place : s.waiter with
      | idle => simpa [Agrees, place] using completed
      | woken e =>
        have clean : e = .eok ∧ owed = true := by simpa [Agrees, place, completed] using agrees
        simpa [Agrees, place] using clean.1
      | waiting =>
        have clean : s.kernel.list (.wait 0) = [] ∧ (s.kernel.thread t).error = .eok ∧ owed = true := by
          simpa [Agrees, place, completed] using agrees
        simpa [Agrees, place] using ⟨clean.1, clean.2.1⟩
    · cases taken
      rw [List.append_nil]
      exact ⟨inv.wait, owed, shown, agrees⟩

theorem done_inv (inv : Inv t tr s) (guard : ¬TimedOut t s)
    (taken : rtCompletionDone s c = some (s', es)) : Inv t (tr ++ es) s' := by
  obtain ⟨owed, shown, agrees⟩ := inv.owed
  simp only [rtCompletionDone] at taken
  split at taken
  · cases taken
    cases list : s.kernel.list (.wait 0) with
    | nil =>
      refine ⟨?_, true, replay_snoc shown _, ?_⟩
      · simpa only [rtIpcListResume, list] using inv.wait
      · cases place : s.waiter with
        | idle => simp [Agrees]
        | woken e =>
          have untimed : e ≠ .etimeout := by
            rintro rfl
            exact guard (Or.inl place)
          have clean : e = .eok ∧ owed = true := by simpa [Agrees, place, untimed] using agrees
          simpa [Agrees] using clean.1
        | waiting =>
          have ready : (s.kernel.thread t).stat = .ready :=
            inv.wait.ready ⟨rfl, place⟩ (by simp [list])
          have untimed : (s.kernel.thread t).error ≠ .etimeout :=
            fun h => guard (Or.inr ⟨place, ready, h⟩)
          have clean : (s.kernel.thread t).error = .eok ∧ owed = true := by
            simpa [Agrees, place, list, untimed] using agrees
          simpa [Agrees, list, rtIpcListResume] using clean.1
    | cons u rest =>
      have listed : u ∈ s.kernel.list (.wait 0) := by simp [list]
      obtain ⟨⟨rfl, place⟩, suspended⟩ := (inv.wait.listed u).mp listed
      simp only [Agrees, place, list] at agrees
      obtain ⟨alone, rfl, _⟩ | ⟨empty, _⟩ := agrees
      · refine ⟨?_, true, replay_snoc shown _, ?_⟩
        · simpa only [rtIpcListResume, list] using inv.wait.resume suspended
        · have empty : (s.kernel.rtThreadResume u).1.list (.wait 0) = [] := by
            rw [resume_wait suspended, list, alone]
            simp
          have clean : ((s.kernel.rtThreadResume u).1.thread u).error = .eok := by
            rw [resume_self suspended]
            exact inv.wait.pending u listed
          simp [Agrees, place, rtIpcListResume, list, empty, clean]
      · cases empty
  · contradiction

theorem step_inv (inv : Inv t tr s) (guard : Guard t s a) (taken : step t s a = some (s', es)) :
    Inv t (tr ++ es) s' := by
  cases a with
  | wait timeout => exact wait_inv inv taken
  | read =>
    obtain ⟨r, read, result⟩ := Option.map_eq_some_iff.mp taken
    cases result
    rw [List.append_nil]
    exact read_inv inv read
  | clean => exact clean_inv inv taken
  | expire =>
    obtain ⟨k, expired, result⟩ := Option.map_eq_some_iff.mp taken
    cases result
    rw [List.append_nil]
    exact expire_inv inv expired
  | test c => exact test_inv inv taken
  | done c => exact done_inv inv (guard c rfl) taken

theorem run_inv (run : RunWhere (machine t) (Guard t) tr s) : Inv t tr s := by
  apply RunWhere.invariant (I := Inv t) (fun _ start => start_inv start) ?_ run
  intro tr s a s' es _ inv guard taken
  exact step_inv inv guard taken

/-- The history so far loses no completion and returns none twice; a completion that is owed is with
the wait in progress, which returns RT_EOK by its own steps, or makes the next wait return at once. The
assertion of rt_completion_wait holds. -/
structure Delivered (t : Tid) (tr : List Event) (s : State) : Prop where
  history : (replay tr).isSome = true
  empty : s.waiter = .idle → s.kernel.list (.wait 0) = []
  atOnce : s.waiter = .idle → replay tr = some true →
    ∀ timeout, ∃ s', step t s (.wait timeout) = some (s', [.atOnce .eok])
  read : s.waiter = .waiting → replay tr = some true →
    ∃ s', step t s .read = some (s', []) ∧ s'.waiter = .woken .eok
  returns : ∀ e, s.waiter = .woken e → replay tr = some (decide (e = .eok)) ∧
    ∃ s', step t s .clean = some (s', [.returned e])

theorem completion_delivered (run : RunWhere (machine t) (Guard t) tr s) : Delivered t tr s := by
  have inv := run_inv run
  obtain ⟨owed, shown, agrees⟩ := inv.owed
  refine ⟨by simp [shown], fun idle => inv.list (by simp [idle]), ?_, ?_, ?_⟩
  · intro idle due timeout
    simp only [Agrees, idle] at agrees
    cases Option.some.inj (shown.symm.trans due)
    exact ⟨{ s with completed := false }, by simp [step, rtCompletionWait, idle, agrees]⟩
  · intro waiting due
    simp only [Agrees, waiting] at agrees
    cases Option.some.inj (shown.symm.trans due)
    obtain ⟨_, none_owed, _⟩ | ⟨empty, ⟨clean, _⟩ | ⟨_, none_owed, _⟩⟩ := agrees
    · cases none_owed
    · have ready : (s.kernel.thread t).stat = .ready := inv.wait.ready ⟨rfl, waiting⟩ (by simp [empty])
      exact ⟨{ s with waiter := .woken .eok }, by simp [step, readError, waiting, ready, clean], rfl⟩
    · cases none_owed
  · intro e woken
    have cleaned : step t s .clean = some ({ s with completed := false, waiter := .idle }, [.returned e]) := by
      simp [step, cleanFlag, woken]
    simp only [Agrees, woken] at agrees
    obtain ⟨rfl, rfl⟩ | ⟨rfl, rfl, _⟩ := agrees <;> exact ⟨shown, _, cleaned⟩

def startState : State := ⟨startedThreads (fun _ => 10) 2, false, .idle, fun _ => false⟩

theorem startState_start : Start startState := ⟨rfl, by decide, rfl, fun _ => rfl⟩

def timedOutChecked (t : Tid) (s : State) : Bool :=
  decide (s.waiter = .woken .etimeout) ||
    (decide (s.waiter = .waiting) && decide ((s.kernel.thread t).stat = .ready) &&
      decide ((s.kernel.thread t).error = .etimeout))

def guardChecked (t : Tid) (s : State) : Action → Bool
  | .done _ => !timedOutChecked t s
  | _ => true

theorem guardChecked_sound (s : State) (a : Action) (checked : guardChecked t s a = true) :
    Guard t s a := by
  rintro c rfl timedOut
  have found : timedOutChecked t s = true := by
    simpa [timedOutChecked, TimedOut, or_assoc, and_assoc] using timedOut
  simp [guardChecked, found] at checked

def deliveredTrace : List Event :=
  [.suspended, .returned .etimeout, .done, .atOnce .eok, .suspended, .done, .returned .eok]

/-- A wait times out, a completion comes, and the next wait has it at once; then one is handed over. -/
theorem completion_delivered_both : ∃ s, Delivered 1 deliveredTrace s := by
  obtain ⟨s, run, _⟩ := Run.shows (M := (machine 1).restrict (guardChecked 1)) (s := startState)
    startState_start
    [.wait 10, .expire, .read, .clean, .test 0, .done 0, .wait 5, .wait 5, .test 0, .done 0, .read, .clean]
    deliveredTrace (fun _ => true) (by decide +kernel)
  have guarded : RunWhere (machine 1) (Guard 1) deliveredTrace s :=
    RunWhere.ofRestrict (fun _ s a _ => guardChecked_sound s a) run
  exact ⟨s, completion_delivered guarded⟩

/-- A completion between the timeout and the last section of a wait is gone. -/
theorem completion_lost : ∃ s, Run (machine 1) [.suspended, .done, .returned .etimeout, .suspended] s ∧
    replay [.suspended, .done, .returned .etimeout, .suspended] = none := by
  obtain ⟨s, run, _⟩ := Run.shows (M := machine 1) (s := startState) startState_start
    [.wait 10, .expire, .test 0, .done 0, .read, .clean, .wait 5]
    [.suspended, .done, .returned .etimeout, .suspended] (fun _ => true) (by decide +kernel)
  exact ⟨s, run, by decide⟩

end RtThread.Completion
