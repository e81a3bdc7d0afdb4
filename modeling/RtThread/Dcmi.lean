import RtThread.Semaphore
import RtThread.Waitqueue

/-! Captures of the camera (atk_mc2640_dcmi.c): atk_mc2640_dcmi_start, called again and again by one
thread, and the interrupts of the DCMI and of its DMA stream. The semaphore dcmi_sem is of no other use. -/
namespace RtThread.Dcmi
open Transition Kernel Semaphore

/-- Where the caller is in atk_mc2640_dcmi_start: the frame interrupt has been enabled, the DMA has been
started, it is in rt_sem_take, or it is about to stop the DMA. -/
inductive Phase where
  | idle | armed | captured | waiting
  | stopping (ok : Bool)
  deriving DecidableEq

/-- With g_atk_mc2640_dcmi_sta.frame_sem, and the enable bit of the frame interrupt. -/
structure State where
  sem : Semaphore.State
  frameSem : Bool
  frameIt : Bool
  phase : Phase

/-- `dma` is HAL_DCMI_Start_DMA. -/
inductive Event where
  | dma
  | frame
  | returned (ok : Bool)
  deriving DecidableEq

inductive Action where
  | start
  | startDma (ok : Bool)
  | take
  | wake
  | stop
  | frame
  | xferCplt
  | timeout

/-- The capture and its DMA stream are running. -/
def Phase.runs : Phase → Bool
  | .idle | .armed => false
  | _ => true

/-- How rt_sem_take has ended, or that it has not ended yet. -/
def taken : List Semaphore.Event → Phase
  | [] => .waiting
  | [.took _] => .stopping true
  | [.returned _ .eok] => .stopping true
  | _ => .stopping false

def atkMc2640DcmiStart (s : State) : Option (State × List Event) :=
  if s.phase = .idle then some ({ s with frameSem := false, frameIt := true, phase := .armed }, []) else none

def halDcmiStartDma (s : State) (ok : Bool) : Option (State × List Event) :=
  if s.phase = .armed then
    some (if ok then ({ s with phase := .captured }, [.dma]) else ({ s with phase := .idle }, [.returned false]))
  else none

def semTake (caller : Tid) (s : State) : Option (State × List Event) :=
  if s.phase = .captured then
    (rtSemTake s.sem caller (Waitqueue.rtTickFromMillisecond 3000)).map (fun r =>
      ({ s with sem := r.1, phase := taken r.2 }, []))
  else none

def semReturn (caller : Tid) (s : State) : Option (State × List Event) :=
  if s.phase = .waiting then
    (takeReturn s.sem caller).map (fun r => ({ s with sem := r.1, phase := taken r.2 }, []))
  else none

/-- The frame interrupt stays enabled. -/
def halDcmiStop (s : State) : Option (State × List Event) :=
  match s.phase with
  | .stopping ok => some ({ s with phase := .idle }, [.returned ok])
  | _ => none

/-- HAL_DCMI_IRQHandler for a frame, with HAL_DCMI_FrameEventCallback. -/
def frameEvent (s : State) : Option (State × List Event) :=
  if s.frameIt then some ({ s with sem := (rtSemRelease s.sem).1, frameSem := true, frameIt := false }, [.frame])
  else none

/-- DCMI_DMAXferCplt, where the last buffer of a frame has been transferred. -/
def dcmiDmaXferCplt (s : State) : Option (State × List Event) :=
  if s.phase.runs then some ({ s with frameIt := true }, []) else none

def step (caller : Tid) (s : State) : Action → Option (State × List Event)
  | .start => atkMc2640DcmiStart s
  | .startDma ok => halDcmiStartDma s ok
  | .take => semTake caller s
  | .wake => semReturn caller s
  | .stop => halDcmiStop s
  | .frame => frameEvent s
  | .xferCplt => dcmiDmaXferCplt s
  | .timeout => (s.sem.kernel.timerExpire caller).map (fun k => ({ s with sem := { s.sem with kernel := k } }, []))

/-- After rt_sem_init and atk_mc2640_dcmi_init. -/
structure Start (s : State) : Prop where
  sem : Semaphore.Start 0 s.sem
  phase : s.phase = .idle
  frameIt : s.frameIt = false

def machine (caller : Tid) : Machine State Action Event where
  start := Start
  step := step caller

/-- A frame event has occurred since the last HAL_DCMI_Start_DMA. -/
def framed (tr : List Event) : Bool :=
  tr.foldl (fun seen e => match e with
    | .dma => false
    | .frame => true
    | .returned _ => seen) false

/-- A capture that succeeds has got a frame event of its own. -/
def OwnFrame (before : List Event) (e : Event) : Prop := e = .returned true → framed before = true

/-- No token of an earlier frame is left when the DMA is started. -/
def Guard (s : State) : Action → Prop
  | .startDma _ => s.sem.value = 0
  | _ => True

variable {caller : Tid} {tr es : List Event} {s s' : State}

theorem framed_dma : framed (tr ++ [.dma]) = false := by simp [framed]

theorem framed_frame : framed (tr ++ [.frame]) = true := by simp [framed]

structure Inv (caller : Tid) (tr : List Event) (s : State) : Prop where
  sem : ∃ log, Semaphore.Inv 0 log s.sem
  callers : ∀ u, s.sem.waiting u = true ↔ u = caller ∧ s.phase = .waiting
  tokens : s.phase = .captured → 0 < s.sem.value → framed tr = true
  handed : s.phase = .waiting → granted s.sem caller = true → framed tr = true
  ending : s.phase = .stopping true → framed tr = true
  right : Each OwnFrame tr

theorem start_inv (start : Start s) : Inv caller [] s := by
  obtain ⟨sem, phase, -⟩ := start
  refine ⟨⟨[], Semaphore.start_inv sem⟩, fun u => ?_, ?_, ?_, ?_, .nil⟩
  · simp [sem.idle, phase]
  · simp [phase]
  · simp [phase]
  · simp [phase]

theorem dcmiStart_inv (inv : Inv caller tr s) (done : atkMc2640DcmiStart s = some (s', es)) :
    Inv caller (tr ++ es) s' := by
  simp only [atkMc2640DcmiStart] at done
  split at done
  · rename_i idle
    cases done
    rw [List.append_nil]
    refine ⟨inv.sem, fun u => ?_, ?_, ?_, ?_, inv.right⟩
    · simp [inv.callers, idle]
    · simp
    · simp
    · simp
  · cases done

theorem startDma_inv {ok : Bool} (inv : Inv caller tr s) (clear : s.sem.value = 0)
    (done : halDcmiStartDma s ok = some (s', es)) : Inv caller (tr ++ es) s' := by
  simp only [halDcmiStartDma] at done
  split at done
  · rename_i armed
    cases ok with
    | true =>
      cases done
      refine ⟨inv.sem, fun u => ?_, ?_, ?_, ?_, each_snoc.mpr ⟨inv.right, by simp [OwnFrame]⟩⟩
      · simp [inv.callers, armed]
      · simp [clear]
      · simp
      · simp
    | false =>
      cases done
      refine ⟨inv.sem, fun u => ?_, ?_, ?_, ?_, each_snoc.mpr ⟨inv.right, by simp [OwnFrame]⟩⟩
      · simp [inv.callers, armed]
      · simp
      · simp
      · simp
  · cases done

theorem semTake_inv (inv : Inv caller tr s) (done : semTake caller s = some (s', es)) :
    Inv caller (tr ++ es) s' := by
  simp only [semTake] at done
  split at done
  · rename_i captured
    obtain ⟨⟨sem, shown⟩, took, result⟩ := Option.map_eq_some_iff.mp done
    cases result
    obtain ⟨log, semInv⟩ := inv.sem
    have after := Semaphore.take_inv semInv took
    have nobody : ∀ u, s.sem.waiting u = false := fun u => by simpa [captured] using (inv.callers u).not
    rw [List.append_nil]
    obtain ⟨_, ⟨positive, rfl, rfl⟩ | ⟨rfl, rfl⟩ | ⟨zero, ready, rfl, k, started, rfl⟩⟩ := take_cases took
    · refine ⟨⟨_, after⟩, fun u => ?_, ?_, ?_, fun _ => inv.tokens captured positive, inv.right⟩
      · simp [nobody, taken]
      · simp [taken]
      · simp [taken]
    · refine ⟨⟨_, after⟩, fun u => ?_, ?_, ?_, ?_, inv.right⟩
      · simp [nobody, taken]
      · simp [taken]
      · simp [taken]
      · simp [taken]
    · have parked := (semInv.wait.blockTimed ready started).2.1
      refine ⟨⟨_, after⟩, fun u => ?_, ?_, fun _ owns => ?_, ?_, inv.right⟩
      · by_cases same : u = caller <;> simp [same, nobody, taken]
      · simp [taken]
      · exact absurd owns (by simp [granted, parked])
      · simp [taken]
  · cases done

theorem semReturn_inv (inv : Inv caller tr s) (done : semReturn caller s = some (s', es)) :
    Inv caller (tr ++ es) s' := by
  simp only [semReturn] at done
  split at done
  · rename_i waiting
    obtain ⟨⟨sem, shown⟩, back, result⟩ := Option.map_eq_some_iff.mp done
    cases result
    obtain ⟨log, semInv⟩ := inv.sem
    have after := Semaphore.return_inv semInv back
    obtain ⟨waits, ready, rfl, rfl⟩ := return_cases back
    rw [List.append_nil]
    have left : ∀ e, taken [.returned caller e] ≠ .captured ∧ taken [.returned caller e] ≠ .waiting := by
      intro e
      cases e <;> simp [taken]
    refine ⟨⟨_, after⟩, fun u => ?_, ?_, ?_, fun success => ?_, inv.right⟩
    · by_cases same : u = caller
      · simp [same, left]
      · simp [same, inv.callers, left]
    · simp [left]
    · simp [left]
    · have clean : (s.sem.kernel.thread caller).error = .eok := by
        cases error : (s.sem.kernel.thread caller).error <;> simp [taken, error] at success
        rfl
      exact inv.handed waiting (granted_iff.mpr ⟨waits, ready, clean⟩)
  · cases done

theorem stop_inv (inv : Inv caller tr s) (done : halDcmiStop s = some (s', es)) : Inv caller (tr ++ es) s' := by
  simp only [halDcmiStop] at done
  split at done
  · rename_i ok stopping
    cases done
    refine ⟨inv.sem, fun u => ?_, ?_, ?_, ?_, each_snoc.mpr ⟨inv.right, ?_⟩⟩
    · simp [inv.callers, stopping]
    · simp
    · simp
    · simp
    · rintro success
      cases success
      exact inv.ending stopping
  · cases done

theorem frame_inv (inv : Inv caller tr s) (done : frameEvent s = some (s', es)) : Inv caller (tr ++ es) s' := by
  simp only [frameEvent] at done
  split at done
  · cases done
    obtain ⟨log, semInv⟩ := inv.sem
    have same : (rtSemRelease s.sem).1.waiting = s.sem.waiting := by
      simp only [rtSemRelease]
      split
      · rfl
      · split <;> rfl
    refine ⟨⟨_, Semaphore.release_inv semInv rfl⟩, fun u => ?_, ?_, ?_, ?_, each_snoc.mpr ⟨inv.right, ?_⟩⟩
    · simp only [same, inv.callers]
    · exact fun _ _ => framed_frame
    · exact fun _ _ => framed_frame
    · exact fun _ => framed_frame
    · simp [OwnFrame]
  · cases done

theorem xferCplt_inv (inv : Inv caller tr s) (done : dcmiDmaXferCplt s = some (s', es)) :
    Inv caller (tr ++ es) s' := by
  simp only [dcmiDmaXferCplt] at done
  split at done
  · cases done
    rw [List.append_nil]
    exact ⟨inv.sem, inv.callers, inv.tokens, inv.handed, inv.ending, inv.right⟩
  · cases done

theorem timeout_inv {k : Kernel} (inv : Inv caller tr s) (expired : s.sem.kernel.timerExpire caller = some k) :
    Inv caller tr { s with sem := { s.sem with kernel := k } } := by
  obtain ⟨log, semInv⟩ := inv.sem
  obtain ⟨_, _, self, _⟩ := timerExpire_some expired
  refine ⟨⟨_, Semaphore.timeout_inv semInv expired⟩, inv.callers, inv.tokens, fun _ owns => ?_, inv.ending, inv.right⟩
  exact absurd owns (by simp [granted, self])

theorem step_inv {a : Action} (inv : Inv caller tr s) (allowed : Guard s a) (done : step caller s a = some (s', es)) :
    Inv caller (tr ++ es) s' := by
  cases a with
  | start => exact dcmiStart_inv inv done
  | startDma ok => exact startDma_inv inv allowed done
  | take => exact semTake_inv inv done
  | wake => exact semReturn_inv inv done
  | stop => exact stop_inv inv done
  | frame => exact frame_inv inv done
  | xferCplt => exact xferCplt_inv inv done
  | timeout =>
    obtain ⟨k, expired, result⟩ := Option.map_eq_some_iff.mp done
    cases result
    rw [List.append_nil]
    exact timeout_inv inv expired

theorem run_inv (run : RunWhere (machine caller) Guard tr s) : Inv caller tr s :=
  run.invariant (I := Inv caller) (fun _ start => start_inv start)
    (fun _ _ _ _ _ _ inv allowed done => step_inv inv allowed done)

/-- While every capture starts without a token. -/
theorem captures_own_frame (run : RunWhere (machine caller) Guard tr s) : Each OwnFrame tr := (run_inv run).right

def guardChecked (s : State) : Action → Bool
  | .startDma _ => s.sem.value == 0
  | _ => true

theorem guardChecked_sound {a : Action} (checked : guardChecked s a = true) : Guard s a := by
  cases a with
  | startDma ok => exact beq_iff_eq.mp checked
  | _ => trivial

def booted : State := ⟨⟨startedThreads (fun _ => 10) 2, 0, .prio, fun _ => false⟩, false, false, .idle⟩

theorem booted_start : Start booted := ⟨⟨rfl, by decide, by decide, fun _ => rfl⟩, rfl, rfl⟩

/-- A capture that times out, and one that gets its frame. -/
theorem captures_own_frame_second : ∃ s, Each OwnFrame [.dma, .returned false, .dma, .frame, .returned true] ∧
    Run (machine 1) [.dma, .returned false, .dma, .frame, .returned true] s := by
  obtain ⟨s, run, _⟩ := Run.shows (M := (machine 1).restrict guardChecked) booted_start
    [.start, .startDma true, .take, .timeout, .wake, .stop,
      .start, .startDma true, .take, .xferCplt, .frame, .wake, .stop]
    [.dma, .returned false, .dma, .frame, .returned true] (fun _ => true) (by decide +kernel)
  have guarded := RunWhere.ofRestrict (fun _ _ _ _ => guardChecked_sound) run
  exact ⟨s, captures_own_frame guarded, guarded.run⟩

/-- Where a capture starts with a token it may succeed at once. -/
theorem token_completes (inv : Inv caller tr s) (armed : s.phase = .armed) (token : 0 < s.sem.value) :
    (∃ s', (machine caller).exec s [.startDma true, .take, .stop] = some (s', [.dma, .returned true])) ∧
      ¬ Each OwnFrame (tr ++ [.dma] ++ [.returned true]) := by
  have idle : s.sem.waiting caller = false := by simpa [armed] using (inv.callers caller).not
  constructor
  · simp [Machine.exec, machine, step, halDcmiStartDma, armed, semTake, rtSemTake, idle, token, taken, halDcmiStop]
  · intro each
    have own := (each_snoc.mp each).2 rfl
    rw [framed_dma] at own
    cases own

/-- The frame comes after the wait has timed out and before the DMA is stopped: the next capture
takes its token. -/
theorem capture_takes_late_frame : ∃ tr s, Run (machine 1) tr s ∧ ¬ Each OwnFrame tr := by
  obtain ⟨s, run, _⟩ := Run.shows (M := machine 1) booted_start
    [.start, .startDma true, .take, .timeout, .wake, .frame, .stop, .start, .startDma true, .take, .stop]
    ([.dma, .frame, .returned false, .dma] ++ [.returned true]) (fun _ => true) (by decide +kernel)
  refine ⟨_, s, run, fun each => ?_⟩
  exact absurd ((each_snoc.mp each).2 rfl) (by decide)

end RtThread.Dcmi
