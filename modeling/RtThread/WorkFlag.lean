import RtThread.WorkQueue

/-! RT_WORK_STATE_PENDING and the list of rt_workqueue. rt_workqueue_critical_work links an item
and leaves its flag as it is; rt_workqueue_cancel_all_work unlinks the items and leaves theirs. -/
namespace RtThread.WorkQueue
open Transition

/-- The flag is set in exactly the items that are linked. -/
def Flagged (pending : Nat → Bool) (l : List Nat) : Prop :=
  ∀ w, pending w = true ↔ w ∈ l

theorem Flagged.unlinked {pending : Nat → Bool} {l : List Nat} (flagged : Flagged pending l)
    (nodup : l.Nodup) (work : Nat) : Flagged (Function.update pending work false) (l.erase work) := by
  intro w
  by_cases same : w = work
  · subst same
    simp [nodup.mem_erase_iff]
  · simp [same, nodup.mem_erase_iff, flagged w]

theorem Flagged.linked {pending : Nat → Bool} {l : List Nat} (flagged : Flagged pending l)
    (nodup : l.Nodup) (work : Nat) :
    Flagged (Function.update pending work true) (l.erase work ++ [work]) := by
  intro w
  by_cases same : w = work
  · simp [same]
  · simp [same, mem_append nodup, flagged w]

/-- No critical submission links an item whose flag is clear, and rt_workqueue_cancel_all_work
finds no item to unlink. -/
def FlagKept (s : State) : Action → Prop
  | .critical _ work => s.workCurrent ≠ some work → s.pending work = true
  | .cancelAll _ => s.workList = []
  | _ => True

theorem Flagged.step {s s' : State} {a : Action} {es : List Event} (flagged : Flagged s.pending s.workList)
    (sound : Sound s) (kept : FlagKept s a) (moved : Moves s a s' es) : Flagged s'.pending s'.workList := by
  cases moved with
  | refused | foundEmpty | foundWork | suspended | woke | dequeuedNothing | executed | finished
  | completed | blocked | resumeFound | resumeDropped | resumed => exact flagged
  | @dequeued work rest _ queued =>
    have rest_is : rest = s.workList.erase work := by rw [queued, List.erase_cons_head]
    simpa only [← rest_is] using flagged.unlinked sound.nodup work
  | @dowork t work _ _ =>
    simpa [State.append] using flagged.linked sound.nodup work
  | @critical t work other =>
    -- the flag that the call does not set is set already
    have same : Function.update s.pending work true = s.pending :=
      Function.update_eq_self_iff.mpr (kept other).symm
    simpa [State.append, same] using flagged.linked sound.nodup work
  | @cancelled t work _ => exact flagged.unlinked sound.nodup work
  | cancelledAll =>
    have empty : s.workList = [] := kept
    simpa only [empty] using flagged

/-- A step that breaks the condition breaks the equivalence. -/
theorem Flagged.kept {s s' : State} {a : Action} {es : List Event} (flagged : Flagged s.pending s.workList)
    (taken : WorkQueue.step s a = some (s', es)) (after : Flagged s'.pending s'.workList) : FlagKept s a := by
  cases a with
  | critical t work =>
    intro other
    simp only [WorkQueue.step, rtWorkqueueCriticalWork, if_neg other] at taken
    split at taken
    · cases taken
      simpa [State.append] using after work
    · contradiction
  | cancelAll t =>
    simp only [WorkQueue.step, rtWorkqueueCancelAllWork] at taken
    split at taken
    · cases taken
      apply List.eq_nil_iff_forall_not_mem.mpr
      intro w queued
      exact List.not_mem_nil ((after w).mp ((flagged w).mpr queued))
    · contradiction
  | _ => trivial

theorem start_flagged {s : State} (start : Start s) : Flagged s.pending s.workList := by
  intro w
  simp [start.pending, start.workList]

theorem run_flagged {tr : List Event} {s : State} (run : RunWhere machine FlagKept tr s) :
    Flagged s.pending s.workList :=
  run.invariant (I := fun _ s => Flagged s.pending s.workList) (fun _ => start_flagged)
    (fun _ _ _ _ _ before flagged kept taken => flagged.step (run_sound before) kept (moves taken))

theorem dowork_queued {s : State} (flagged : Flagged s.pending s.workList) (t : Nat) {work : Nat}
    (queued : work ∈ s.workList) : rtWorkqueueDowork s t work = (s, .ebusy) := by
  have pending := (flagged work).mpr queued
  simp [rtWorkqueueDowork, workqueueSubmitWork, pending]

theorem dowork_free {s : State} (flagged : Flagged s.pending s.workList) (t : Nat) {work : Nat}
    (free : work ∉ s.workList) (other : s.workCurrent ≠ some work) : (rtWorkqueueDowork s t work).2 = .eok := by
  have clear : s.pending work ≠ true := mt (flagged work).mp free
  simp [rtWorkqueueDowork, workqueueSubmitWork, clear, other]

/-- What the flag is for, in one state. -/
structure FlagRight (s : State) : Prop where
  pending : ∀ work, s.pending work = true ↔ work ∈ s.workList
  nodup : s.workList.Nodup
  queued : ∀ t work, work ∈ s.workList → rtWorkqueueDowork s t work = (s, .ebusy)
  free : ∀ t work, work ∉ s.workList → s.workCurrent ≠ some work → (rtWorkqueueDowork s t work).2 = .eok
  cancelled : ∀ t work, (rtWorkqueueCancelWork s work).2 = .eok →
    (rtWorkqueueDowork (rtWorkqueueCancelWork s work).1 t work).2 = .eok
  finished : ∀ t work s' es, s.pc = .running work → step s .worker = some (s', es) →
    (rtWorkqueueDowork s' t work).2 = .eok

theorem cancelled_free {s : State} (flagged : Flagged s.pending s.workList) (sound : Sound s) (t : Nat)
    {work : Nat} (cancelled : (rtWorkqueueCancelWork s work).2 = .eok) :
    (rtWorkqueueDowork (rtWorkqueueCancelWork s work).1 t work).2 = .eok := by
  simp only [rtWorkqueueCancelWork, workqueueCancelWork] at cancelled ⊢
  split at cancelled
  · contradiction
  · rename_i other
    simp only [if_neg other]
    apply dowork_free (flagged.unlinked sound.nodup work) t
    · simp [sound.nodup.mem_erase_iff]
    · exact other

theorem finished_free {s s' : State} {es : List Event} (flagged : Flagged s.pending s.workList)
    (sound : Sound s) (t : Nat) {work : Nat} (pc : s.pc = .running work)
    (taken : step s .worker = some (s', es)) : (rtWorkqueueDowork s' t work).2 = .eok := by
  have free : work ∉ s.workList := sound.notQueued work (by rw [pc, Pc.work])
  simp only [step, workqueueThreadEntry, pc] at taken
  split at taken
  · contradiction
  · cases taken
    exact dowork_free (s := { s with workCurrent := none, pc := .completing }) flagged t free (Option.some_ne_none work).symm

theorem pending_queued {tr : List Event} {s : State} (run : RunWhere machine FlagKept tr s) :
    FlagRight s := by
  have flagged := run_flagged run
  have sound := run_sound run.run
  constructor
  · exact flagged
  · exact sound.nodup
  · exact fun t work => dowork_queued flagged t
  · exact fun t work => dowork_free flagged t
  · exact fun t work => cancelled_free flagged sound t
  · exact fun t work s' es => finished_free flagged sound t

def flagChecked (s : State) : Action → Bool
  | .critical _ work => s.pending work
  | .cancelAll _ => s.workList.isEmpty
  | _ => true

theorem flagChecked_sound {s : State} {a : Action} (checked : flagChecked s a = true) : FlagKept s a := by
  cases a with
  | critical t work => exact fun _ => checked
  | cancelAll t => simpa [flagChecked, FlagKept] using checked
  | _ => trivial

theorem pending_queued_again : ∃ s, FlagRight s ∧ s.workList = [8, 7] := by
  obtain ⟨s, run, queued⟩ := Run.shows (M := machine.restrict flagChecked) (s := initial) initial_start
    [.worker, .worker, .dowork 0 7, .cancel 1 7, .dowork 1 7, .resume 0, .resume 0, .worker, .worker,
      .worker, .worker, .dowork 2 7, .dowork 3 8, .critical 4 7]
    [.submitted 7, .cancelled 7, .submitted 7, .executed 7, .submitted 7, .submitted 8, .submitted 7]
    (fun s => s.workList == [8, 7]) (by decide)
  exact ⟨s, pending_queued (RunWhere.ofRestrict (fun _ _ _ _ => flagChecked_sound) run),
    by simpa using queued⟩

/-- The flag is set and the item is not linked. -/
def Stranded (s : State) (work : Nat) : Prop :=
  s.pending work = true ∧ work ∉ s.workList

/-- A call that clears the flag of the item, or links the item. -/
def Action.frees (work : Nat) : Action → Bool
  | .cancel _ w | .critical _ w => w == work
  | _ => false

theorem Stranded.step {s s' : State} {a : Action} {es : List Event} {work : Nat} (stranded : Stranded s work)
    (sound : Sound s) (others : a.frees work = false) (moved : Moves s a s' es) : Stranded s' work := by
  obtain ⟨pending, unlinked⟩ := stranded
  cases moved with
  | @dequeued w rest _ queued =>
    rw [queued, List.mem_cons, not_or] at unlinked
    exact ⟨by simpa [unlinked.1] using pending, unlinked.2⟩
  | @dowork t w clear _ =>
    have other : work ≠ w := by
      rintro rfl
      simp [pending] at clear
    exact ⟨by simpa [other] using pending,
      by simp [State.append, mem_append sound.nodup, unlinked, other]⟩
  | @critical t w _ =>
    have other : work ≠ w := fun same => by simp [Action.frees, same] at others
    exact ⟨by simpa [State.append] using pending,
      by simp [State.append, mem_append sound.nodup, unlinked, other]⟩
  | @cancelled t w _ =>
    have other : work ≠ w := fun same => by simp [Action.frees, same] at others
    exact ⟨by simpa [other] using pending, fun queued => unlinked (List.mem_of_mem_erase queued)⟩
  | cancelledAll => exact ⟨pending, List.not_mem_nil⟩
  | _ => exact ⟨pending, unlinked⟩

theorem Stranded.refused {as : List Action} {s s' : State} {es : List Event} {work : Nat}
    (stranded : Stranded s work) (sound : Sound s) (others : ∀ a ∈ as, a.frees work = false)
    (done : machine.exec s as = some (s', es)) (t : Nat) : rtWorkqueueDowork s' t work = (s', .ebusy) := by
  induction as generalizing s es with
  | nil =>
    cases Option.some.inj done
    simp [rtWorkqueueDowork, workqueueSubmitWork, stranded.1]
  | cons a rest ih =>
    obtain ⟨⟨next, shown⟩, taken, tail⟩ := Option.bind_eq_some_iff.mp done
    obtain ⟨⟨last, later⟩, gone, same⟩ := Option.map_eq_some_iff.mp tail
    cases same
    have moved := moves taken
    obtain ⟨first, rest_others⟩ := List.forall_mem_cons.mp others
    exact ih (stranded.step sound first moved) (sound.step moved) rest_others gone

/-- A critical submission is linked over a clear flag and can be submitted again; an item that
rt_workqueue_cancel_all_work has unlinked is refused from then on. -/
theorem pending_wrong :
    (∃ tr s, Run machine tr s ∧ 7 ∈ s.workList ∧ s.pending 7 = false ∧ (rtWorkqueueDowork s 1 7).2 = .eok) ∧
      ∃ tr s, Run machine tr s ∧ s.workList = [] ∧ s.workCurrent = none ∧ s.pending 8 = true ∧
        ∀ as s' es t, (∀ a ∈ as, a.frees 8 = false) → machine.exec s as = some (s', es) →
          rtWorkqueueDowork s' t 8 = (s', .ebusy) := by
  constructor
  · obtain ⟨tr, s, run, both⟩ := Run.reaches (M := machine) (s := initial) initial_start [.critical 0 7]
      (fun s => s.workList == [7] && s.workCurrent == none && !s.pending 7) (by decide)
    simp only [Bool.and_eq_true, beq_iff_eq, Bool.not_eq_true'] at both
    obtain ⟨⟨queued, current⟩, clear⟩ := both
    exact ⟨tr, s, run, by simp [queued], clear,
      by simp [rtWorkqueueDowork, workqueueSubmitWork, clear, current]⟩
  · obtain ⟨tr, s, run, both⟩ := Run.reaches (M := machine) (s := initial) initial_start
      [.dowork 0 8, .cancelAll 1] (fun s => s.workList == [] && s.workCurrent == none && s.pending 8) (by decide)
    simp only [Bool.and_eq_true, beq_iff_eq] at both
    obtain ⟨⟨empty, current⟩, pending⟩ := both
    have stranded : Stranded s 8 := ⟨pending, by simp [empty]⟩
    exact ⟨tr, s, run, empty, current, pending,
      fun as s' es t others done => stranded.refused (run_sound run) others done t⟩

end RtThread.WorkQueue
