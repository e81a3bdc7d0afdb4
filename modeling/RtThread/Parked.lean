import RtThread.Ready
import RtThread.Wait

/-! What the calls of thread.c, and the wake-ups of ipc.c, do to the wait lists: threads leave them.
The one section that puts a thread on a list is the one of rt_ipc_list_suspend. -/
namespace RtThread.Kernel

/-- Waiters leave lists, and those that stay are as before. -/
structure Shrinks (k k' : Kernel) : Prop where
  list : ∀ o, (k'.list (.wait o)).Sublist (k.list (.wait o))
  same : ∀ o, ∀ u ∈ k'.list (.wait o), (k'.thread u).stat = (k.thread u).stat ∧
    (k'.thread u).currentPriority = (k.thread u).currentPriority

def Parked (k : Kernel) : Prop := ∀ o, ∀ u ∈ k.list (.wait o), (k.thread u).stat = .suspend

variable {k k' m : Kernel} {t : Tid} {p : Nat} {time : Int}

theorem Shrinks.trans (first : Shrinks k m) (second : Shrinks m k') : Shrinks k k' where
  list o := (second.list o).trans (first.list o)
  same o u here := by
    obtain ⟨stat, priority⟩ := first.same o u ((second.list o).subset here)
    obtain ⟨stat', priority'⟩ := second.same o u here
    exact ⟨stat'.trans stat, priority'.trans priority⟩

theorem Shrinks.frame (list : k'.list = k.list) (same : ∀ u, (k'.thread u).stat = (k.thread u).stat ∧
    (k'.thread u).currentPriority = (k.thread u).currentPriority) : Shrinks k k' :=
  ⟨fun o => by rw [list], fun _ u _ => same u⟩

theorem Shrinks.refl (k : Kernel) : Shrinks k k := .frame rfl (fun _ => ⟨rfl, rfl⟩)

theorem Shrinks.one (list : ∀ o, (k'.list (.wait o)).Sublist (k.list (.wait o)))
    (out : ∀ o, t ∉ k'.list (.wait o)) (others : ∀ u, u ≠ t → k'.thread u = k.thread u) : Shrinks k k' where
  list := list
  same o u here := by
    rw [others u (fun self => out o (self ▸ here))]
    exact ⟨rfl, rfl⟩

theorem Shrinks.unlink (list : ∀ o, k'.list (.wait o) = (k.list (.wait o)).filter (· ≠ t))
    (others : ∀ u, u ≠ t → k'.thread u = k.thread u) : Shrinks k k' :=
  .one (fun o => list o ▸ List.filter_sublist) (fun o => by simp [list o]) others

theorem Parked.shrinks (parked : Parked k) (shrinks : Shrinks k k') : Parked k' := by
  intro o u here
  rw [(shrinks.same o u here).1]
  exact parked o u ((shrinks.list o).subset here)

theorem Parked.out (parked : Parked k) (awake : (k.thread t).stat ≠ .suspend) : ∀ o, t ∉ k.list (.wait o) :=
  fun o here => awake (parked o t here)

theorem modify_shrinks {f : Thread → Thread} (same : (f (k.thread t)).stat = (k.thread t).stat ∧
    (f (k.thread t)).currentPriority = (k.thread t).currentPriority) : Shrinks k (k.modify t f) := by
  refine .frame rfl ?_
  intro u
  by_cases self : u = t
  · rw [self, modify_self]
    exact same
  · rw [modify_other _ _ _ _ self]
    exact ⟨rfl, rfl⟩

theorem schedule_shrinks (scheduled : k.rtSchedule = some k') : Shrinks k k' := by
  obtain ⟨threads, lists, _⟩ := schedule_frame _ scheduled
  exact .frame lists (fun u => by rw [threads]; exact ⟨rfl, rfl⟩)

theorem suspend_shrinks (k : Kernel) (t : Tid) : Shrinks k (k.rtThreadSuspend t).1 := by
  by_cases ready : (k.thread t).stat = .ready
  · rw [suspend_ready k t ready]
    exact .unlink (t := t) (fun o => by simp [rtTimerStop]) (fun u other => by simp [rtTimerStop, other])
  · simp only [rtThreadSuspend, if_pos ready]
    exact .refl _

theorem resume_shrinks (k : Kernel) (t : Tid) : Shrinks k (k.rtThreadResume t).1 := by
  by_cases suspended : (k.thread t).stat = .suspend
  · exact .unlink (resume_wait suspended) (fun u other => resume_other suspended other)
  · simp only [rtThreadResume, if_pos suspended]
    exact .refl _

theorem listResume_shrinks (k : Kernel) (h : ListHead) : Shrinks k (k.rtIpcListResume h) := by
  unfold rtIpcListResume
  split
  · exact .refl _
  · exact resume_shrinks ..

theorem resumeAllLoop_shrinks {h : ListHead} {fuel : Nat} (woken : resumeAllLoop h fuel k = some k') :
    Shrinks k k' := by
  induction fuel generalizing k with
  | zero =>
    unfold resumeAllLoop at woken
    split at woken
    · cases Option.some.inj woken
      exact .refl _
    · contradiction
  | succ fuel ih =>
    unfold resumeAllLoop at woken
    split at woken
    · cases Option.some.inj woken
      exact .refl _
    · exact (modify_shrinks ⟨rfl, rfl⟩).trans ((resume_shrinks _ _).trans (ih woken))

theorem timeoutWake_shrinks (woken : k.timeoutWake t = some k') : Shrinks k k' := by
  obtain ⟨_, rfl⟩ := timeoutWake_some _ _ woken
  exact .unlink (t := t) (fun o => by simp) (fun u other => by simp [other])

theorem timerExpire_shrinks (expired : k.timerExpire t = some k') : Shrinks k k' := by
  obtain ⟨_, _, _, others, lists, _⟩ := timerExpire_some expired
  exact .unlink lists others

theorem waitTimer_shrinks (started : k.startWaitTimer t time = some k') : Shrinks k k' := by
  obtain ⟨timer, rfl⟩ := startWaitTimer_some started
  exact modify_shrinks ⟨rfl, rfl⟩

theorem changePriority_shrinks (out : ∀ o, t ∉ k.list (.wait o)) : Shrinks k (k.rtThreadChangePriority t p) := by
  have list : ∀ o, ((k.rtThreadChangePriority t p).list (.wait o)).Sublist (k.list (.wait o)) := by
    intro o
    rw [changePriority_wait]
    split
    · exact List.filter_sublist
    · exact List.Sublist.refl _
  refine .one (t := t) list (fun o here => out o ((list o).subset here)) ?_
  intro u other
  unfold rtThreadChangePriority
  split <;> simp [setPriority, other]

/-- A thread leaves the lists for good, or was on none. -/
theorem retire_shrinks (parked : Parked k) (t : Tid) :
    Shrinks k
      (((if (k.thread t).stat ≠ .init then k.rtScheduleRemoveThread t else k).rtTimerStop t).closeThread t) := by
  split
  · refine .unlink (t := t) (fun o => by simp [closeThread, rtTimerStop]) ?_
    exact fun u other => by simp [closeThread, rtTimerStop, other]
  · rename_i fresh
    have out := parked.out (t := t) (by rw [not_not.mp fresh]; decide)
    exact .one (t := t) (fun o => List.Sublist.refl _) out (fun u other => by simp [closeThread, rtTimerStop, other])

theorem insertAfter_shrinks {h : ListHead} (away : ∀ o, h ≠ .wait o) : Shrinks k (k.rtListInsertAfter h t) where
  list o := by rw [insertAfter_other _ _ _ _ (fun same => away o same.symm)]
  same _ _ _ := ⟨rfl, rfl⟩

theorem startup_shrinks (parked : Parked k) (started : k.rtThreadStartup t = some k') : Shrinks k k' := by
  unfold rtThreadStartup at started
  split at started
  · rename_i fresh
    have out := parked.out (t := t) (by rw [fresh]; decide)
    have prepared : Shrinks k ((k.setPriority t (k.thread t).initPriority).modify t
        (fun th => { th with stat := .suspend, statSignal := 0 })) :=
      .one (t := t) (fun o => List.Sublist.refl _) out (fun u other => by simp [setPriority, other])
    have resumed := prepared.trans (resume_shrinks _ t)
    simp only at started
    split at started
    · exact resumed.trans (schedule_shrinks started)
    · exact Option.some.inj started ▸ resumed
  · contradiction

theorem exit_shrinks (done : k.rtThreadExit = some k') : Shrinks k k' := by
  unfold rtThreadExit at done
  split at done
  · contradiction
  · rename_i t _
    have closed : Shrinks k (((k.rtScheduleRemoveThread t).closeThread t).rtTimerStop t) :=
      .unlink (t := t) (fun o => by simp [closeThread, rtTimerStop])
        (fun u other => by simp [closeThread, rtTimerStop, other])
    simp only at done
    split at done
    · exact closed.trans (schedule_shrinks done)
    · exact closed.trans ((insertAfter_shrinks (fun _ => ListHead.noConfusion)).trans (schedule_shrinks done))

theorem yield_shrinks (done : k.rtThreadYield = some k') : Shrinks k k' := by
  unfold rtThreadYield at done
  split at done
  · contradiction
  · rename_i t _
    simp only at done
    split at done
    · have moved : Shrinks k ((k.rtListRemove t).rtListInsertBefore (.ready (k.thread t).currentPriority) t) := by
        refine .unlink (t := t) ?_ (fun _ _ => rfl)
        intro o
        rw [insertBefore_other _ _ _ _ (by simp), listRemove_list]
      exact moved.trans (schedule_shrinks done)
    · exact Option.some.inj done ▸ .refl _

theorem sleep_shrinks {tick : Nat} (done : k.rtThreadSleep tick = some k') : Shrinks k k' := by
  unfold rtThreadSleep at done
  split at done
  · contradiction
  · rename_i t _
    obtain ⟨m, started, scheduled⟩ := Option.bind_eq_some_iff.mp done
    rw [rtTimerStart_some _ _ started] at scheduled
    exact (suspend_shrinks k t).trans ((modify_shrinks ⟨rfl, rfl⟩).trans
      ((modify_shrinks ⟨rfl, rfl⟩).trans (schedule_shrinks scheduled)))

theorem detach_shrinks (parked : Parked k) (done : k.rtThreadDetach t = some k') : Shrinks k k' := by
  unfold rtThreadDetach at done
  split at done
  · split at done
    · exact Option.some.inj done ▸ .refl _
    · exact Option.some.inj done ▸ retire_shrinks parked t
  · contradiction

theorem delete_shrinks (parked : Parked k) (done : k.rtThreadDelete t = some k') : Shrinks k k' := by
  unfold rtThreadDelete at done
  split at done
  · contradiction
  · split at done
    · exact Option.some.inj done ▸ .refl _
    · exact Option.some.inj done ▸
        (retire_shrinks parked t).trans (insertAfter_shrinks (fun _ => ListHead.noConfusion))

theorem threadStep_shrinks {op : ThreadOp} (parked : Parked k) (change : ∀ t p, op ≠ .changePriority t p)
    (block : ∀ o flag time, op ≠ .block o flag time) (taken : threadStep k op = some k') : Shrinks k k' := by
  cases op with
  | schedulerStart =>
    obtain ⟨_, _, rfl⟩ := Option.map_eq_some_iff.mp taken
    exact .frame rfl (fun _ => ⟨rfl, rfl⟩)
  | startup t => exact startup_shrinks parked taken
  | suspend t => exact Option.some.inj taken ▸ suspend_shrinks k t
  | resume t => exact Option.some.inj taken ▸ resume_shrinks k t
  | yield => exact yield_shrinks taken
  | sleep tick =>
    obtain ⟨_, _, done⟩ := Option.bind_eq_some_iff.mp taken
    exact sleep_shrinks done
  | sleepReturn t =>
    cases Option.some.inj taken
    unfold sleepReturn
    split
    · exact modify_shrinks ⟨rfl, rfl⟩
    · exact .refl _
  | timeout t =>
    obtain ⟨_, woken, scheduled⟩ := Option.bind_eq_some_iff.mp taken
    exact (timeoutWake_shrinks woken).trans (schedule_shrinks scheduled)
  | changePriority t p => exact absurd rfl (change t p)
  | detach t => exact detach_shrinks parked taken
  | delete t => exact delete_shrinks parked taken
  | exit => exact exit_shrinks taken
  | block o flag time => exact absurd rfl (block o flag time)
  | schedule => exact schedule_shrinks taken

end RtThread.Kernel
