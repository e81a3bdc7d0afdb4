import Mathlib.Data.List.Nodup
import RtThread.Kernel
import RtThread.Run

/-! The ready queue over whole runs of thread operations. The lists under
`rt_thread_priority_table` are described against an arbitrary set `R` of queued
threads first, so that the states between a removal and the change of `stat`
have an invariant too; at operation boundaries `R` is the set of READY threads. -/
namespace RtThread
open Kernel Transition

theorem mask_or (g : BitVec 32) {p q : Nat} (hq : q < 32) :
    (g ||| 1#32 <<< p).getLsbD q = (g.getLsbD q || decide (q = p)) := by
  simp only [BitVec.getLsbD_or, BitVec.getLsbD_shiftLeft, BitVec.getLsbD_one, hq]
  by_cases h : q = p
  · simp [h]
  · have far : q < p ∨ q - p ≠ 0 := by lia
    rcases far with far | far <;> simp [h, far]

theorem mask_clear (g : BitVec 32) {p q : Nat} (hq : q < 32) :
    (g &&& ~~~ (1#32 <<< p)).getLsbD q = (g.getLsbD q && decide (q ≠ p)) := by
  have h := mask_or 0#32 (p := p) hq
  simp only [BitVec.zero_or, BitVec.getLsbD_zero, Bool.false_or] at h
  simp only [BitVec.getLsbD_and, BitVec.getLsbD_not, hq, h, decide_true, Bool.true_and, decide_not, ne_eq]

/-- The ready lists hold exactly the threads of `R`, once each and under their
priority, and the bitmap marks the non-empty lists. -/
structure QueueInv (k : Kernel) (R : Tid → Prop) : Prop where
  priority : ∀ t, (k.thread t).currentPriority < rtThreadPriorityMax
  group : ∀ p, p < rtThreadPriorityMax →
    (k.readyPriorityGroup.getLsbD p = true ↔ k.list (.ready p) ≠ [])
  member : ∀ t p, t ∈ k.list (.ready p) ↔ R t ∧ (k.thread t).currentPriority = p
  nodup : ∀ p, (k.list (.ready p)).Nodup

namespace QueueInv
variable {k : Kernel} {R : Tid → Prop} {t : Tid}

theorem congr {R' : Tid → Prop} (inv : QueueInv k R) (same : ∀ u, R u ↔ R' u) : QueueInv k R' :=
  { inv with member := fun u p => by rw [inv.member, same] }

theorem modify {f : Thread → Thread} (inv : QueueInv k R)
    (keep : (f (k.thread t)).currentPriority = (k.thread t).currentPriority) :
    QueueInv (k.modify t f) R := by
  have same : ∀ u, ((k.modify t f).thread u).currentPriority = (k.thread u).currentPriority := by
    intro u
    by_cases hu : u = t
    · subst hu; simpa using keep
    · simp [hu]
  exact ⟨fun u => by rw [same]; exact inv.priority u, inv.group,
    fun u p => by rw [same]; exact inv.member u p, inv.nodup⟩

theorem setPriority (inv : QueueInv k R) (out : ¬ R t) {p : Nat} (small : p < rtThreadPriorityMax) :
    QueueInv (k.setPriority t p) R := by
  refine ⟨?_, inv.group, ?_, inv.nodup⟩
  · intro u
    by_cases hu : u = t
    · subst hu; simpa [Kernel.setPriority] using small
    · simpa [Kernel.setPriority, hu] using inv.priority u
  · intro u q
    change u ∈ k.list (.ready q) ↔ _
    by_cases hu : u = t
    · subst hu
      have absent : u ∉ k.list (.ready q) := fun h => out ((inv.member u q).mp h).1
      simp [absent, out]
    · simpa [Kernel.setPriority, hu] using inv.member u q

theorem filter_out (inv : QueueInv k R) (out : ¬ R t) (p : Nat) :
    (k.list (.ready p)).filter (· ≠ t) = k.list (.ready p) := by
  apply List.filter_eq_self.mpr
  intro u hu
  have queued := ((inv.member u p).mp hu).1
  simp only [decide_eq_true_eq]
  intro same
  exact out (same ▸ queued)

theorem listRemove (inv : QueueInv k R) (out : ¬ R t) : QueueInv (k.rtListRemove t) R := by
  have same : ∀ p, (k.rtListRemove t).list (.ready p) = k.list (.ready p) := inv.filter_out out
  exact ⟨inv.priority, fun p hp => by rw [same]; exact inv.group p hp,
    fun u p => by rw [same]; exact inv.member u p, fun p => by rw [same]; exact inv.nodup p⟩

theorem insertAfter {h : ListHead} (inv : QueueInv k R) (away : ∀ p, h ≠ .ready p) :
    QueueInv (k.rtListInsertAfter h t) R := by
  have same : ∀ p, (k.rtListInsertAfter h t).list (.ready p) = k.list (.ready p) :=
    fun p => by simp [(away p).symm]
  exact ⟨inv.priority, fun p hp => by rw [same]; exact inv.group p hp,
    fun u p => by rw [same]; exact inv.member u p, fun p => by rw [same]; exact inv.nodup p⟩

/-- The bit is cleared exactly when the thread was the last of its list; a thread
that is not queued changes neither list nor bit. -/
theorem scheduleRemove (inv : QueueInv k R)
    (mask : (k.thread t).numberMask = 1#32 <<< (k.thread t).currentPriority ∨
      ((k.thread t).numberMask = 0#32 ∧ ¬ R t)) :
    QueueInv (k.rtScheduleRemoveThread t) (fun u => R u ∧ u ≠ t) := by
  refine ⟨by simpa using inv.priority, ?_, ?_, ?_⟩
  · intro p hp
    rw [scheduleRemove_list]
    have others : p ≠ (k.thread t).currentPriority →
        (k.list (.ready p)).filter (· ≠ t) = k.list (.ready p) := by
      intro hne
      apply List.filter_eq_self.mpr
      intro u hu
      simp only [decide_eq_true_eq]
      rintro rfl
      exact hne ((inv.member u p).mp hu).2.symm
    rw [scheduleRemove_group]
    split
    · rename_i last
      rcases mask with mask | ⟨mask, out⟩
      · rw [mask, mask_clear _ hp]
        by_cases hne : p = (k.thread t).currentPriority
        · subst hne; simpa using last
        · rw [others hne]; simpa [hne] using inv.group p hp
      · rw [mask, inv.filter_out out, BitVec.not_zero, BitVec.and_allOnes]
        exact inv.group p hp
    · rename_i more
      by_cases hne : p = (k.thread t).currentPriority
      · subst hne
        have nonempty : k.list (.ready (k.thread t).currentPriority) ≠ [] := by
          intro empty; simp [empty] at more
        have set := (inv.group _ hp).mpr nonempty
        simpa [set] using more
      · rw [others hne]; exact inv.group p hp
  · intro u p
    simp [scheduleRemove_list, inv.member u p]
    tauto
  · intro p
    rw [scheduleRemove_list]
    exact (inv.nodup p).filter _

theorem scheduleInsert (inv : QueueInv k R) (out : ¬ R t)
    (mask : (k.thread t).numberMask = 1#32 <<< (k.thread t).currentPriority) :
    QueueInv (k.rtScheduleInsertThread t) (fun u => R u ∨ u = t) := by
  have same : ∀ u, ((k.rtScheduleInsertThread t).thread u).currentPriority =
      (k.thread u).currentPriority := by
    intro u
    by_cases hu : u = t
    · subst hu; simp
    · simp [hu]
  have absent : ∀ p, t ∉ k.list (.ready p) := fun p h => out ((inv.member t p).mp h).1
  refine ⟨fun u => by rw [same]; exact inv.priority u, ?_, ?_, ?_⟩
  · intro p hp
    rw [scheduleInsert_group, mask, mask_or _ hp]
    by_cases hne : p = (k.thread t).currentPriority
    · subst hne; simp
    · simpa [hne] using inv.group p hp
  · intro u p
    rw [same]
    by_cases hne : p = (k.thread t).currentPriority
    · subst hne
      rw [scheduleInsert_list_self, List.mem_append, List.mem_singleton, inv.member]
      constructor
      · rintro (h | rfl)
        · exact ⟨Or.inl h.1, h.2⟩
        · exact ⟨Or.inr rfl, rfl⟩
      · rintro ⟨h | h, hp⟩
        · exact Or.inl ⟨h, hp⟩
        · exact Or.inr h
    · rw [scheduleInsert_list_other _ _ _ (by simpa using hne), inv.member]
      constructor
      · rintro ⟨h, hp⟩; exact ⟨Or.inl h, hp⟩
      · rintro ⟨h | rfl, hp⟩
        · exact ⟨h, hp⟩
        · exact absurd hp.symm hne
  · intro p
    by_cases hne : p = (k.thread t).currentPriority
    · subst hne
      rw [scheduleInsert_list_self, List.nodup_append]
      refine ⟨inv.nodup _, by simp, ?_⟩
      rintro u hu v hv rfl
      exact absent _ (List.mem_singleton.mp hv ▸ hu)
    · rw [scheduleInsert_list_other _ _ _ (by simpa using hne)]
      exact inv.nodup p

theorem requeue {p : Nat} (inv : QueueInv k R) (queued : t ∈ k.list (.ready p)) :
    QueueInv ((k.rtListRemove t).rtListInsertBefore (.ready p) t) R := by
  have here := (inv.member t p).mp queued
  have list : ∀ q, ((k.rtListRemove t).rtListInsertBefore (.ready p) t).list (.ready q) =
      if q = p then (k.list (.ready p)).filter (· ≠ t) ++ [t] else k.list (.ready q) := by
    intro q
    split
    · rename_i same
      rw [same, insertBefore_self, listRemove_list]
    · rename_i other
      rw [insertBefore_other _ _ _ _ (by simpa using other), listRemove_list]
      apply List.filter_eq_self.mpr
      intro u hu
      simp only [decide_eq_true_eq]
      rintro rfl
      exact other (((inv.member u q).mp hu).2.symm.trans here.2)
  refine ⟨inv.priority, ?_, ?_, ?_⟩
  · intro q hq
    rw [list]
    split
    · rename_i same
      have set := (inv.group p (same ▸ hq)).mpr (List.ne_nil_of_mem queued)
      simpa [same] using set
    · exact inv.group q hq
  · intro u q
    rw [list]
    split
    · rename_i same
      subst same
      have old := inv.member u q
      by_cases hu : u = t
      · subst hu; simpa using here
      · simpa [hu] using old
    · exact inv.member u q
  · intro q
    rw [list]
    split
    · rw [List.nodup_append]
      refine ⟨(inv.nodup p).filter _, by simp, ?_⟩
      rintro u hu v hv rfl
      simp only [List.mem_filter, decide_eq_true_eq] at hu
      exact hu.2 (List.mem_singleton.mp hv)
    · exact inv.nodup q

end QueueInv

/-- The invariant of the scheduler between operations. -/
structure ReadyInv (k : Kernel) : Prop where
  queue : QueueInv k (fun t => (k.thread t).stat = .ready)
  initial : ∀ t, (k.thread t).initPriority < rtThreadPriorityMax
  mask : ∀ t, (k.thread t).numberMask = 1#32 <<< (k.thread t).currentPriority ∨
    ((k.thread t).numberMask = 0#32 ∧ ((k.thread t).stat = .init ∨ (k.thread t).stat = .close))

namespace ReadyInv
variable {k k' : Kernel} {t : Tid}

theorem masked (inv : ReadyInv k) (started : (k.thread t).stat = .ready ∨ (k.thread t).stat = .suspend) :
    (k.thread t).numberMask = 1#32 <<< (k.thread t).currentPriority := by
  rcases inv.mask t with h | ⟨_, h | h⟩
  · exact h
  · rcases started with s | s <;> rw [s] at h <;> cases h
  · rcases started with s | s <;> rw [s] at h <;> cases h

theorem removable (inv : ReadyInv k) (t : Tid) :
    (k.thread t).numberMask = 1#32 <<< (k.thread t).currentPriority ∨
      ((k.thread t).numberMask = 0#32 ∧ ¬ (k.thread t).stat = .ready) := by
  rcases inv.mask t with h | ⟨h, h' | h'⟩
  · exact Or.inl h
  · exact Or.inr ⟨h, by simp [h']⟩
  · exact Or.inr ⟨h, by simp [h']⟩

/-- One thread changes: the others keep their fields, and the queue holds the old
READY threads with the changed one put in or left out by its new state. -/
theorem update (inv : ReadyInv k) (others : ∀ u, u ≠ t → k'.thread u = k.thread u)
    (initial : (k'.thread t).initPriority = (k.thread t).initPriority)
    (mask : (k'.thread t).numberMask = 1#32 <<< (k'.thread t).currentPriority ∨
      ((k'.thread t).numberMask = 0#32 ∧ ((k'.thread t).stat = .init ∨ (k'.thread t).stat = .close)))
    (queue : QueueInv k' (fun u => if u = t then (k'.thread t).stat = .ready
      else (k.thread u).stat = .ready)) : ReadyInv k' := by
  refine ⟨queue.congr ?_, ?_, ?_⟩
  · intro u
    by_cases hu : u = t
    · subst hu; simp
    · simp [hu, others u hu]
  · intro u
    by_cases hu : u = t
    · subst hu; rw [initial]; exact inv.initial u
    · rw [others u hu]; exact inv.initial u
  · intro u
    by_cases hu : u = t
    · subst hu; exact mask
    · rw [others u hu]; exact inv.mask u

theorem same (inv : ReadyInv k) (thread : k'.thread = k.thread) (list : k'.list = k.list)
    (group : k'.readyPriorityGroup = k.readyPriorityGroup) : ReadyInv k' := by
  obtain ⟨⟨a, b, c, d⟩, e, f⟩ := inv
  constructor
  · constructor <;> simpa only [thread, list, group]
  · simpa only [thread] using e
  · simpa only [thread] using f

theorem schedule (inv : ReadyInv k) (scheduled : k.rtSchedule = some k') : ReadyInv k' := by
  obtain ⟨thread, list, group, _⟩ := schedule_frame k scheduled
  exact inv.same thread list group

theorem modifyFrame {f : Thread → Thread} (inv : ReadyInv k)
    (keep : ∀ th, (f th).stat = th.stat ∧ (f th).currentPriority = th.currentPriority ∧
      (f th).initPriority = th.initPriority ∧ (f th).numberMask = th.numberMask) :
    ReadyInv (k.modify t f) := by
  obtain ⟨stat, priority, initial, mask⟩ := keep (k.thread t)
  apply inv.update (t := t)
  · intro u hu; simp [hu]
  · simpa using initial
  · simpa [stat, priority, mask] using inv.mask t
  · refine (inv.queue.modify priority).congr ?_
    intro u
    by_cases hu : u = t
    · subst hu; simp [stat]
    · simp [hu]

theorem timerStop (inv : ReadyInv k) (t : Tid) : ReadyInv (k.rtTimerStop t) :=
  inv.modifyFrame (fun _ => ⟨rfl, rfl, rfl, rfl⟩)

theorem timerStart (inv : ReadyInv k) (started : k.rtTimerStart t = some k') : ReadyInv k' := by
  rw [rtTimerStart_some k t started]
  exact inv.modifyFrame (fun _ => ⟨rfl, rfl, rfl, rfl⟩)

theorem suspend (inv : ReadyInv k) (t : Tid) : ReadyInv (k.rtThreadSuspend t).1 := by
  by_cases ready : (k.thread t).stat = .ready
  · rw [suspend_ready k t ready]
    apply ReadyInv.timerStop
    apply inv.update (t := t)
    · intro u hu; simp [hu]
    · simp
    · exact Or.inl (by simpa using inv.masked (Or.inl ready))
    · refine QueueInv.modify ((inv.queue.scheduleRemove (inv.removable t)).congr ?_) rfl
      intro u
      by_cases hu : u = t <;> simp [hu]
  · simpa [rtThreadSuspend, ready] using inv

theorem enqueue (inv : ReadyInv k) (waiting : ¬ (k.thread t).stat = .ready)
    (mask : (k.thread t).numberMask = 1#32 <<< (k.thread t).currentPriority) :
    ReadyInv ((k.rtListRemove t).rtScheduleInsertThread t) := by
  apply inv.update (t := t)
  · intro u hu; simp [hu]
  · simp
  · exact Or.inl (by simpa using mask)
  · refine ((inv.queue.listRemove waiting).scheduleInsert waiting mask).congr ?_
    intro u
    by_cases hu : u = t <;> simp [hu]

theorem resume (inv : ReadyInv k) (t : Tid) : ReadyInv (k.rtThreadResume t).1 := by
  by_cases suspended : (k.thread t).stat = .suspend
  · rw [resume_suspended k t suspended]
    have stopped := inv.timerStop t
    exact stopped.enqueue (by simp [rtTimerStop, suspended])
      (by simpa [rtTimerStop] using inv.masked (Or.inr suspended))
  · simpa [rtThreadResume, suspended] using inv

theorem timeoutWake (inv : ReadyInv k) (woken : k.timeoutWake t = some k') : ReadyInv k' := by
  obtain ⟨suspended, rfl⟩ := timeoutWake_some k t woken
  have marked : ReadyInv (k.modify t (fun th => { th with error := .etimeout })) :=
    inv.modifyFrame (fun _ => ⟨rfl, rfl, rfl, rfl⟩)
  exact marked.enqueue (by simp [suspended]) (by simpa using inv.masked (Or.inr suspended))

theorem changePriority (inv : ReadyInv k) (t : Tid) {p : Nat} (small : p < rtThreadPriorityMax) :
    ReadyInv (k.rtThreadChangePriority t p) := by
  by_cases ready : (k.thread t).stat = .ready
  · simp only [rtThreadChangePriority, ready, if_true]
    apply inv.update (t := t)
    · intro u hu; simp [setPriority, hu]
    · simp [setPriority]
    · exact Or.inl (by simp [setPriority])
    · have removed := (inv.queue.scheduleRemove (inv.removable t)).setPriority (t := t)
        (fun h => h.2 rfl) small
      refine (removed.scheduleInsert (fun h => h.2 rfl) (by simp [setPriority])).congr ?_
      intro u
      by_cases hu : u = t <;> simp [hu]
  · simp only [rtThreadChangePriority, ready, if_false]
    apply inv.update (t := t)
    · intro u hu; simp [setPriority, hu]
    · simp [setPriority]
    · exact Or.inl (by simp [setPriority])
    · refine (inv.queue.setPriority ready small).congr ?_
      intro u
      by_cases hu : u = t
      · subst hu; simp [setPriority]
      · simp [hu]

theorem startup (inv : ReadyInv k) (started : k.rtThreadStartup t = some k') : ReadyInv k' := by
  simp only [rtThreadStartup] at started
  split at started
  · rename_i init
    have waiting : ¬ (k.thread t).stat = .ready := by simp [init]
    have placed : ReadyInv ((k.setPriority t (k.thread t).initPriority).modify t
        (fun th => { th with stat := .suspend, statSignal := 0 })) := by
      apply inv.update (t := t)
      · intro u hu; simp [setPriority, hu]
      · simp [setPriority]
      · exact Or.inl (by simp [setPriority])
      · refine QueueInv.modify ((inv.queue.setPriority waiting (inv.initial t)).congr ?_) rfl
        intro u
        by_cases hu : u = t
        · subst hu; simp [waiting]
        · simp [hu]
    have resumed := placed.resume t
    split at started
    · exact resumed.schedule started
    · exact Option.some.inj started ▸ resumed
  · contradiction

/-- Leaving the scheduler for good: rt_thread_detach, rt_thread_delete and rt_thread_exit. -/
theorem retire (inv : ReadyInv k) (t : Tid) (removed : Bool)
    (idle : removed = false → ¬ (k.thread t).stat = .ready) :
    ReadyInv (((if removed then k.rtScheduleRemoveThread t else k).rtTimerStop t).closeThread t) := by
  have thread : (if removed then k.rtScheduleRemoveThread t else k).thread = k.thread := by
    cases removed <;> simp
  apply inv.update (t := t)
  · intro u hu; simp [closeThread, rtTimerStop, hu, thread]
  · simp [closeThread, rtTimerStop, thread]
  · rcases inv.mask t with h | ⟨h, _⟩
    · exact Or.inl (by simpa [closeThread, rtTimerStop, thread] using h)
    · exact Or.inr (by simpa [closeThread, rtTimerStop, thread] using h)
  · have queue : QueueInv (if removed then k.rtScheduleRemoveThread t else k)
        (fun u => (k.thread u).stat = .ready ∧ u ≠ t) := by
      cases removed with
      | true => exact inv.queue.scheduleRemove (inv.removable t)
      | false =>
        refine inv.queue.congr ?_
        intro u
        by_cases hu : u = t
        · subst hu; simp [idle rfl]
        · simp [hu]
    refine QueueInv.modify (QueueInv.modify (queue.congr ?_) rfl) rfl
    intro u
    by_cases hu : u = t <;> simp [hu, closeThread]

theorem insertAfter {h : ListHead} (inv : ReadyInv k) (away : ∀ p, h ≠ .ready p) :
    ReadyInv (k.rtListInsertAfter h t) :=
  ⟨inv.queue.insertAfter away, inv.initial, inv.mask⟩

theorem detach (inv : ReadyInv k) (done : k.rtThreadDetach t = some k') : ReadyInv k' := by
  simp only [rtThreadDetach] at done
  split at done
  · split at done
    · exact Option.some.inj done ▸ inv
    · have retired := inv.retire t (decide ((k.thread t).stat ≠ .init)) (by simp_all)
      simp only [decide_eq_true_eq] at retired
      exact Option.some.inj done ▸ retired
  · contradiction

theorem delete (inv : ReadyInv k) (done : k.rtThreadDelete t = some k') : ReadyInv k' := by
  simp only [rtThreadDelete] at done
  split at done
  · contradiction
  · split at done
    · exact Option.some.inj done ▸ inv
    · have retired := inv.retire t (decide ((k.thread t).stat ≠ .init)) (by simp_all)
      simp only [decide_eq_true_eq] at retired
      exact Option.some.inj done ▸ retired.insertAfter (fun _ => ListHead.noConfusion)

theorem exit (inv : ReadyInv k) (done : k.rtThreadExit = some k') : ReadyInv k' := by
  simp only [rtThreadExit] at done
  split at done
  · contradiction
  · rename_i t _
    have retired := inv.retire t true (by simp)
    have order : ((k.rtScheduleRemoveThread t).closeThread t).rtTimerStop t =
        ((k.rtScheduleRemoveThread t).rtTimerStop t).closeThread t := by
      simp [closeThread, rtTimerStop, Kernel.modify]
    rw [order] at done
    split at done
    · exact retired.schedule done
    · exact (retired.insertAfter (fun _ => ListHead.noConfusion)).schedule done

theorem yield (inv : ReadyInv k) (done : k.rtThreadYield = some k') : ReadyInv k' := by
  simp only [rtThreadYield] at done
  split at done
  · contradiction
  · split at done
    · rename_i t _ condition
      simp only [neighboursDiffer, Bool.and_eq_true, decide_eq_true_eq] at condition
      have moved : ReadyInv ((k.rtListRemove t).rtListInsertBefore
          (.ready (k.thread t).currentPriority) t) :=
        ⟨inv.queue.requeue condition.2.1, inv.initial, inv.mask⟩
      exact moved.schedule done
    · exact Option.some.inj done ▸ inv

theorem sleep {tick : Nat} (inv : ReadyInv k) (done : k.rtThreadSleep tick = some k') :
    ReadyInv k' := by
  simp only [rtThreadSleep] at done
  split at done
  · contradiction
  · rename_i t _
    obtain ⟨mid, started, scheduled⟩ := Option.bind_eq_some_iff.mp done
    have set : ReadyInv ((k.rtThreadSuspend t).1.rtTimerSetTime t tick) :=
      (inv.suspend t).modifyFrame (fun _ => ⟨rfl, rfl, rfl, rfl⟩)
    exact (set.timerStart started).schedule scheduled

theorem waitList (inv : ReadyInv k) (o : Nat) (waiting : List Tid) :
    ReadyInv { k with list := Function.update k.list (.wait o) waiting } := by
  obtain ⟨⟨a, b, c, d⟩, e, f⟩ := inv
  exact ⟨⟨a, by simpa, by simpa, by simpa⟩, e, f⟩

theorem ipcListSuspend (inv : ReadyInv k) (o : Nat) (t : Tid) (flag : IpcFlag) :
    ReadyInv (k.rtIpcListSuspend (.wait o) t flag) := by
  cases flag <;> exact (inv.suspend t).waitList o _

theorem startWaitTimer {time : Int} (inv : ReadyInv k) (started : k.startWaitTimer t time = some k') :
    ReadyInv k' := by
  simp only [Kernel.startWaitTimer] at started
  split at started
  · have set : ReadyInv (k.rtTimerSetTime t time.toNat) :=
      inv.modifyFrame (fun _ => ⟨rfl, rfl, rfl, rfl⟩)
    exact set.timerStart started
  · exact Option.some.inj started ▸ inv

end ReadyInv

/-- One call of the thread API, run without interruption. `block` is the part of a
blocking IPC call that suspends the caller on an object's wait list. -/
inductive ThreadOp where
  | schedulerStart
  | startup (t : Tid)
  | suspend (t : Tid)
  | resume (t : Tid)
  | yield
  | sleep (tick : Nat)
  | sleepReturn (t : Tid)
  | timeout (t : Tid)
  | changePriority (t : Tid) (priority : Nat)
  | detach (t : Tid)
  | delete (t : Tid)
  | exit
  | block (object : Nat) (flag : IpcFlag) (time : Int)
  | schedule

def currentReady (k : Kernel) : Option Tid :=
  k.currentThread.filter (fun t => (k.thread t).stat = .ready)

def threadStep (k : Kernel) : ThreadOp → Option Kernel
  | .schedulerStart => k.rtSystemSchedulerStart
  | .startup t => k.rtThreadStartup t
  | .suspend t => some (k.rtThreadSuspend t).1
  | .resume t => some (k.rtThreadResume t).1
  | .yield => k.rtThreadYield
  | .sleep tick => (currentReady k).bind (fun _ => k.rtThreadSleep tick)
  | .sleepReturn t => some (k.sleepReturn t)
  | .timeout t => k.rtThreadTimeout t
  | .changePriority t p =>
    if p < rtThreadPriorityMax then some (k.rtThreadChangePriority t p) else none
  | .detach t => k.rtThreadDetach t
  | .delete t => k.rtThreadDelete t
  | .exit => k.rtThreadExit
  | .block o flag time => (currentReady k).bind (fun t =>
      ((k.rtIpcListSuspend (.wait o) t flag).startWaitTimer t time).bind Kernel.rtSchedule)
  | .schedule => k.rtSchedule

/-- After rt_system_scheduler_init, with every thread object initialised and none started. -/
structure ThreadStart (k : Kernel) : Prop where
  lists : ∀ h, k.list h = []
  group : k.readyPriorityGroup = 0#32
  current : k.currentThread = none
  stat : ∀ t, (k.thread t).stat = .init
  mask : ∀ t, (k.thread t).numberMask = 0#32
  priority : ∀ t, (k.thread t).currentPriority = (k.thread t).initPriority
  initial : ∀ t, (k.thread t).initPriority < rtThreadPriorityMax

def threadMachine : Machine Kernel ThreadOp Unit where
  start := ThreadStart
  step k op := (threadStep k op).map (fun k' => (k', []))

theorem start_ready {k : Kernel} (start : ThreadStart k) : ReadyInv k := by
  refine ⟨⟨?_, ?_, ?_, ?_⟩, start.initial, ?_⟩
  · intro t; rw [start.priority]; exact start.initial t
  · intro p _; simp [start.group, start.lists]
  · intro t p; simp [start.lists, start.stat]
  · intro p; simp [start.lists]
  · intro t; exact Or.inr ⟨start.mask t, Or.inl (start.stat t)⟩

theorem step_ready {k k' : Kernel} {op : ThreadOp} (inv : ReadyInv k)
    (taken : threadStep k op = some k') : ReadyInv k' := by
  cases op with
  | schedulerStart =>
    simp only [threadStep, rtSystemSchedulerStart, Option.map_eq_some_iff] at taken
    obtain ⟨_, _, rfl⟩ := taken
    exact inv.same rfl rfl rfl
  | startup t => exact inv.startup taken
  | suspend t => exact Option.some.inj taken ▸ inv.suspend t
  | resume t => exact Option.some.inj taken ▸ inv.resume t
  | yield => exact inv.yield taken
  | sleep tick =>
    obtain ⟨_, _, done⟩ := Option.bind_eq_some_iff.mp taken
    exact inv.sleep done
  | sleepReturn t =>
    cases Option.some.inj taken
    simp only [sleepReturn]
    split
    · exact inv.modifyFrame (fun _ => ⟨rfl, rfl, rfl, rfl⟩)
    · exact inv
  | timeout t =>
    obtain ⟨_, woken, scheduled⟩ := Option.bind_eq_some_iff.mp taken
    exact (inv.timeoutWake woken).schedule scheduled
  | changePriority t p =>
    simp only [threadStep] at taken
    split at taken
    · rename_i small
      exact Option.some.inj taken ▸ inv.changePriority t small
    · contradiction
  | detach t => exact inv.detach taken
  | delete t => exact inv.delete taken
  | exit => exact inv.exit taken
  | block o flag time =>
    obtain ⟨t, _, done⟩ := Option.bind_eq_some_iff.mp taken
    obtain ⟨_, started, scheduled⟩ := Option.bind_eq_some_iff.mp done
    exact ((inv.ipcListSuspend o t flag).startWaitTimer started).schedule scheduled
  | schedule => exact inv.schedule taken

theorem run_ready {tr : List Unit} {k : Kernel} (run : Run threadMachine tr k) : ReadyInv k := by
  refine run.always (I := ReadyInv) (fun k start => start_ready start) ?_
  intro k op k' es inv taken
  simp only [threadMachine, Option.map_eq_some_iff, Prod.mk.injEq] at taken
  obtain ⟨_, step, rfl, _⟩ := taken
  exact step_ready inv step

theorem rtFfs_succ (v : BitVec 32) (p : Nat) :
    rtFfs v = p + 1 ↔ p < 32 ∧ v.getLsbD p = true ∧ ∀ q, q < p → v.getLsbD q = false := by
  unfold rtFfs
  split
  · rename_i i found
    rw [List.find?_range_eq_some] at found
    simp only [Bool.not_eq_true'] at found
    constructor
    · intro h
      have same : i = p := by lia
      exact same ▸ ⟨by simpa using found.2.1, found.1, found.2.2⟩
    · rintro ⟨_, bit, below⟩
      have hip : ¬ i < p := by
        intro lt; rw [below i lt] at found; simp at found
      have hpi : ¬ p < i := by
        intro lt; rw [found.2.2 p lt] at bit; cases bit
      lia
  · rename_i none
    constructor
    · intro h; lia
    · rintro ⟨small, bit, _⟩
      have := List.find?_eq_none.mp none p (by simpa using small)
      exact absurd bit this

/-- The scheduler's choice is the head of the list of the best priority in use. -/
theorem highestReady_best {k : Kernel} (inv : ReadyInv k) {t : Tid}
    (ready : (k.thread t).stat = .ready) :
    ∃ p best rest, k.highestReady = some (p, best) ∧ k.list (.ready p) = best :: rest ∧
      (k.thread best).stat = .ready ∧ (k.thread best).currentPriority = p ∧
      ∀ u, (k.thread u).stat = .ready → p ≤ (k.thread u).currentPriority := by
  have marked : ∀ u, (k.thread u).stat = .ready →
      k.readyPriorityGroup.getLsbD (k.thread u).currentPriority = true := by
    intro u hu
    apply (inv.queue.group _ (inv.queue.priority u)).mpr
    exact List.ne_nil_of_mem ((inv.queue.member u _).mpr ⟨hu, rfl⟩)
  cases found : rtFfs k.readyPriorityGroup with
  | zero =>
    exfalso
    have none : (List.range 32).find? (fun i => k.readyPriorityGroup.getLsbD i) = none := by
      unfold rtFfs at found
      split at found
      · lia
      · assumption
    exact List.find?_eq_none.mp none _ (List.mem_range.mpr (inv.queue.priority t)) (marked t ready)
  | succ p =>
    obtain ⟨small, bit, below⟩ := (rtFfs_succ _ p).mp found
    obtain ⟨best, rest, list⟩ := List.exists_cons_of_ne_nil ((inv.queue.group p small).mp bit)
    have here := (inv.queue.member best p).mp (by rw [list]; simp)
    refine ⟨p, best, rest, by simp [highestReady, found, list], list, here.1, here.2, ?_⟩
    intro u hu
    by_contra lower
    have clear := below _ (Nat.lt_of_not_le lower)
    rw [marked u hu] at clear
    cases clear

/-- The ready queue as rt_schedule relies on it. -/
structure ReadyQueue (k : Kernel) : Prop where
  bitmap : ∀ p, p < rtThreadPriorityMax →
    (k.readyPriorityGroup.getLsbD p = true ↔ k.list (.ready p) ≠ [])
  once : ∀ t, (k.thread t).stat = .ready →
    (k.thread t).currentPriority < rtThreadPriorityMax ∧
      ∀ p, (k.list (.ready p)).count t = if p = (k.thread t).currentPriority then 1 else 0
  only : ∀ t p, (k.thread t).stat ≠ .ready → t ∉ k.list (.ready p)
  selects : k.schedulerLockNest = 0 → (∃ t, (k.thread t).stat = .ready) →
    ∃ k' best rest, k.rtSchedule = some k' ∧ k'.currentThread = some best ∧
      k.list (.ready (k.thread best).currentPriority) = best :: rest ∧
      (k.thread best).stat = .ready ∧
      ∀ u, (k.thread u).stat = .ready →
        (k.thread best).currentPriority ≤ (k.thread u).currentPriority

theorem schedule_selects {k : Kernel} {p : Nat} {best : Tid} (unlocked : k.schedulerLockNest = 0)
    (choice : k.highestReady = some (p, best)) :
    ∃ k', k.rtSchedule = some k' ∧ k'.currentThread = some best := by
  simp only [rtSchedule, unlocked, if_true, choice]
  split
  · exact ⟨_, rfl, rfl⟩
  · rename_i same
    exact ⟨k, rfl, (not_not.mp same).symm⟩

/-- Every state reached by thread operations has a sound ready queue. -/
theorem ready_queue_sound {tr : List Unit} {k : Kernel} (run : Run threadMachine tr k) :
    ReadyQueue k := by
  have inv := run_ready run
  refine ⟨inv.queue.group, ?_, ?_, ?_⟩
  · intro t ready
    refine ⟨inv.queue.priority t, fun p => ?_⟩
    split
    · rename_i same
      exact List.count_eq_one_of_mem (inv.queue.nodup p) ((inv.queue.member t p).mpr ⟨ready, same.symm⟩)
    · rename_i other
      apply List.count_eq_zero_of_not_mem
      intro h
      exact other ((inv.queue.member t p).mp h).2.symm
  · intro t p idle h
    exact idle ((inv.queue.member t p).mp h).1
  · rintro unlocked ⟨t, ready⟩
    obtain ⟨p, best, rest, choice, list, stat, priority, least⟩ := highestReady_best inv ready
    obtain ⟨k', scheduled, current⟩ := schedule_selects unlocked choice
    subst priority
    exact ⟨k', best, rest, scheduled, current, list, stat, least⟩

theorem booted_start (priority : Tid → Nat) (static : Tid → Bool)
    (small : ∀ t, priority t < rtThreadPriorityMax) :
    ThreadStart (rtSystemSchedulerInit (fun t => rtThreadInit (priority t) (static t))) :=
  ⟨fun _ => rfl, rfl, rfl, fun _ => rfl, fun _ => rfl, fun _ => rfl, small⟩

/-- Two threads of priorities 10 and 4 are started; the run continues with the second. -/
theorem ready_queue_sound_two_started : ∃ k, ReadyQueue k ∧ k.currentThread = some 1 := by
  have start := booted_start (fun t => if t = 1 then 4 else 10) (fun _ => true) (fun t => by
    by_cases h : t = 1 <;> simp [h, rtThreadPriorityMax])
  obtain ⟨_, k, run, current⟩ := Run.reaches (M := threadMachine) start
    [.startup 0, .schedulerStart, .startup 1] (fun k => k.currentThread = some 1) (by decide)
  exact ⟨k, ready_queue_sound run, of_decide_eq_true current⟩

end RtThread
