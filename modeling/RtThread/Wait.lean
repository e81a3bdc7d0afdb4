import Mathlib.Data.List.Nodup
import RtThread.Kernel

/-! Wait lists of IPC objects. Each list operation of ipc.c is described by what it
does to one thread and to the lists under `.wait`; the invariant `WaitInv` then
says, for a set `W` of callers inside a blocking call, that exactly those still
suspended are on the list. Every object's proof uses it for its own lists. -/
namespace RtThread

def Thread.parked (th : Thread) : Thread :=
  { th with stat := .suspend, timer := { th.timer with activated := false } }

def Thread.awake (th : Thread) : Thread :=
  { th with stat := .ready, timer := { th.timer with activated := false } }

namespace Kernel
variable {k k' : Kernel} {t u : Tid} {o : Nat}

theorem mem_insertByPriority (l : List Tid) :
    u ∈ k.insertByPriority t l ↔ u = t ∨ u ∈ l := by
  induction l with
  | nil => simp [insertByPriority]
  | cons s rest ih =>
    simp only [insertByPriority]
    split
    · simp
    · simp only [List.mem_cons, ih]
      tauto

theorem nodup_insertByPriority {l : List Tid} (nodup : l.Nodup) (absent : t ∉ l) :
    (k.insertByPriority t l).Nodup := by
  induction l with
  | nil => simp [insertByPriority]
  | cons s rest ih =>
    simp only [List.mem_cons, not_or] at absent
    rw [List.nodup_cons] at nodup
    simp only [insertByPriority]
    split
    · simp [absent, nodup]
    · rw [List.nodup_cons, mem_insertByPriority]
      exact ⟨by rintro (h | h); exacts [absent.1 h.symm, nodup.1 h], ih nodup.2 absent.2⟩

theorem ipcSuspend_self (ready : (k.thread t).stat = .ready) (flag : IpcFlag) :
    (k.rtIpcListSuspend (.wait o) t flag).thread t = (k.thread t).parked := by
  cases flag <;> simp [rtIpcListSuspend, suspend_ready k t ready, rtTimerStop, Thread.parked]

theorem ipcSuspend_other (ready : (k.thread t).stat = .ready) (flag : IpcFlag) (other : u ≠ t) :
    (k.rtIpcListSuspend (.wait o) t flag).thread u = k.thread u := by
  cases flag <;> simp [rtIpcListSuspend, suspend_ready k t ready, rtTimerStop, other]

theorem ipcSuspend_mem (ready : (k.thread t).stat = .ready) (flag : IpcFlag) :
    u ∈ (k.rtIpcListSuspend (.wait o) t flag).list (.wait o) ↔ u = t ∨ u ∈ k.list (.wait o) := by
  cases flag
  · simp [rtIpcListSuspend, suspend_ready k t ready, rtTimerStop]
    tauto
  · simp [rtIpcListSuspend, suspend_ready k t ready, rtTimerStop, mem_insertByPriority]
    tauto

theorem ipcSuspend_nodup (ready : (k.thread t).stat = .ready) (flag : IpcFlag)
    (nodup : (k.list (.wait o)).Nodup) :
    ((k.rtIpcListSuspend (.wait o) t flag).list (.wait o)).Nodup := by
  have filtered := nodup.filter (fun u => decide (u ≠ t))
  cases flag
  · simp only [rtIpcListSuspend, suspend_ready k t ready, rtTimerStop, modify_list,
      insertBefore_self, scheduleRemove_list]
    exact List.nodup_append.mpr ⟨filtered, by simp, by simp⟩
  · simp only [rtIpcListSuspend, suspend_ready k t ready, rtTimerStop, modify_list,
      Function.update_self, scheduleRemove_list]
    exact nodup_insertByPriority filtered (by simp)

theorem ipcSuspend_list_other (ready : (k.thread t).stat = .ready) (flag : IpcFlag) {q : Nat}
    (other : q ≠ o) : (k.rtIpcListSuspend (.wait o) t flag).list (.wait q) =
      (k.list (.wait q)).filter (· ≠ t) := by
  cases flag <;> simp [rtIpcListSuspend, suspend_ready k t ready, rtTimerStop, other]

theorem startWaitTimer_some {time : Int} (started : k.startWaitTimer t time = some k') :
    ∃ timer, k' = k.modify t (fun th => { th with timer := timer }) := by
  simp only [startWaitTimer] at started
  split at started
  · rw [rtTimerStart_some _ _ started]
    exact ⟨⟨time.toNat, true⟩, by simp [rtTimerSetTime, modify]⟩
  · exact ⟨(k.thread t).timer, by rw [← Option.some.inj started]; simp [modify]⟩

theorem resume_self (suspended : (k.thread t).stat = .suspend) :
    (k.rtThreadResume t).1.thread t = (k.thread t).awake := by
  simp [resume_suspended k t suspended, resumeUnlink, rtTimerStop, Thread.awake]

theorem resume_other (suspended : (k.thread t).stat = .suspend) (other : u ≠ t) :
    (k.rtThreadResume t).1.thread u = k.thread u := by
  simp [resume_suspended k t suspended, resumeUnlink, rtTimerStop, other]

theorem resume_wait (suspended : (k.thread t).stat = .suspend) (o : Nat) :
    (k.rtThreadResume t).1.list (.wait o) = (k.list (.wait o)).filter (· ≠ t) := by
  simp [resume_suspended k t suspended, resumeUnlink, rtTimerStop]

theorem resume_tick (suspended : (k.thread t).stat = .suspend) :
    (k.rtThreadResume t).1.tick = k.tick := by
  simp [resume_suspended k t suspended, resumeUnlink, rtTimerStop]

theorem changePriority_frame (k : Kernel) (t u : Tid) (p : Nat) :
    ((k.rtThreadChangePriority t p).thread u).stat = (k.thread u).stat ∧
      ((k.rtThreadChangePriority t p).thread u).error = (k.thread u).error := by
  by_cases ready : (k.thread t).stat = .ready <;> by_cases hu : u = t <;>
    simp [rtThreadChangePriority, setPriority, ready, hu]

theorem changePriority_wait (k : Kernel) (t : Tid) (p o : Nat) :
    (k.rtThreadChangePriority t p).list (.wait o) =
      if (k.thread t).stat = .ready then (k.list (.wait o)).filter (· ≠ t) else k.list (.wait o) := by
  by_cases ready : (k.thread t).stat = .ready <;>
    simp [rtThreadChangePriority, setPriority, ready]

theorem timerExpire_some (expired : k.timerExpire t = some k') :
    (k.thread t).timer.activated = true ∧ (k.thread t).stat = .suspend ∧
      k'.thread t = { (k.thread t).awake with error := .etimeout } ∧
      (∀ u, u ≠ t → k'.thread u = k.thread u) ∧
      (∀ o, k'.list (.wait o) = (k.list (.wait o)).filter (· ≠ t)) ∧ k'.tick = k.tick := by
  simp only [timerExpire] at expired
  split at expired
  · rename_i active
    obtain ⟨suspended, rfl⟩ := timeoutWake_some _ _ expired
    refine ⟨active, by simpa [rtTimerStop] using suspended, ?_, ?_, ?_, ?_⟩
    · simp [rtTimerStop, Thread.awake]
    · intro u hu; simp [rtTimerStop, hu]
    · intro o; simp [rtTimerStop]
    · simp [rtTimerStop]
  · contradiction

theorem resumeAllLoop_spec {h : ListHead} (away : h = .wait o) (fuel : Nat) (k : Kernel)
    (enough : (k.list h).length ≤ fuel) (nodup : (k.list h).Nodup)
    (suspended : ∀ t ∈ k.list h, (k.thread t).stat = .suspend) :
    ∃ k', resumeAllLoop h fuel k = some k' ∧
      (∀ t, k'.thread t = if t ∈ k.list h then { (k.thread t).awake with error := .error }
        else k.thread t) ∧
      (∀ q, k'.list (.wait q) = (k.list (.wait q)).filter (· ∉ k.list h)) ∧ k'.tick = k.tick := by
  induction fuel generalizing k with
  | zero =>
    have empty : k.list h = [] := List.length_eq_zero_iff.mp (Nat.le_zero.mp enough)
    refine ⟨k, by simp [resumeAllLoop, empty], by simp [empty], by simp [empty], rfl⟩
  | succ fuel ih =>
    cases list : k.list h with
    | nil => exact ⟨k, by simp [resumeAllLoop, list], by simp, by simp, rfl⟩
    | cons t rest =>
      rw [list] at nodup
      obtain ⟨absent, nodup'⟩ := List.nodup_cons.mp nodup
      let marked := k.modify t (fun th => { th with error := .error })
      have parked : (marked.thread t).stat = .suspend := by
        simpa [marked] using suspended t (by simp [list])
      let next := (marked.rtThreadResume t).1
      have keep : rest.filter (· ≠ t) = rest := by
        apply List.filter_eq_self.mpr
        intro u hu
        simp only [decide_eq_true_eq]
        rintro rfl
        exact absent hu
      have nextList : next.list h = rest := by
        subst away
        simp only [next, resume_wait parked, marked, modify_list, list]
        simpa using keep
      have nextOther : ∀ u, u ≠ t → next.thread u = k.thread u := by
        intro u hu
        simp [next, resume_other parked hu, marked, hu]
      have nextSuspended : ∀ u ∈ next.list h, (next.thread u).stat = .suspend := by
        rw [nextList]
        intro u hu
        have hne : u ≠ t := by rintro rfl; exact absent hu
        rw [nextOther u hne]
        exact suspended u (by simp [list, hu])
      obtain ⟨k', done, threads, lists, tick⟩ := ih next
        (by rw [nextList]; simpa [list] using enough) (by rw [nextList]; exact nodup') nextSuspended
      refine ⟨k', by rw [resumeAllLoop, list]; exact done, ?_, ?_, ?_⟩
      · intro u
        rw [threads u, nextList]
        by_cases hu : u = t
        · subst hu
          simp [absent, next, resume_self parked, marked, Thread.awake]
        · rw [nextOther u hu]; simp [hu]
      · intro q
        rw [lists q, nextList]
        simp only [next, resume_wait parked, marked, modify_list, List.filter_filter]
        congr 1
        funext u
        simp [Bool.and_comm]
      · rw [tick]
        simp [next, resume_tick parked, marked]

theorem resumeAll_spec (k : Kernel) (o : Nat) (nodup : (k.list (.wait o)).Nodup)
    (suspended : ∀ t ∈ k.list (.wait o), (k.thread t).stat = .suspend) :
    ∃ k', k.rtIpcListResumeAll (.wait o) = some k' ∧
      (∀ t, k'.thread t = if t ∈ k.list (.wait o) then { (k.thread t).awake with error := .error }
        else k.thread t) ∧
      (∀ q, k'.list (.wait q) = (k.list (.wait q)).filter (· ∉ k.list (.wait o))) ∧ k'.tick = k.tick :=
  resumeAllLoop_spec rfl _ k (Nat.le_refl _) nodup suspended

end Kernel

/-- The wait list of object `o` against the set `W` of callers blocked on it: listed
are exactly those not woken yet, and their error field still says success. -/
structure WaitInv (k : Kernel) (o : Nat) (W : Tid → Prop) : Prop where
  nodup : (k.list (.wait o)).Nodup
  listed : ∀ t, t ∈ k.list (.wait o) ↔ W t ∧ (k.thread t).stat = .suspend
  pending : ∀ t, t ∈ k.list (.wait o) → (k.thread t).error = .eok
  live : ∀ t, W t → (k.thread t).stat = .suspend ∨ (k.thread t).stat = .ready

namespace WaitInv
open Kernel
variable {k k' : Kernel} {t : Tid} {o : Nat} {W W' : Tid → Prop}

theorem suspended (inv : WaitInv k o W) : ∀ t ∈ k.list (.wait o), (k.thread t).stat = .suspend :=
  fun t h => ((inv.listed t).mp h).2

theorem ready (inv : WaitInv k o W) (waits : W t) (absent : t ∉ k.list (.wait o)) :
    (k.thread t).stat = .ready := by
  rcases inv.live t waits with h | h
  · exact absurd ((inv.listed t).mpr ⟨waits, h⟩) absent
  · exact h

theorem absent (inv : WaitInv k o W) (ready : (k.thread t).stat = .ready) :
    t ∉ k.list (.wait o) := by
  intro h
  rw [inv.suspended t h] at ready
  cases ready

theorem filter_absent (l : List Tid) (absent : t ∉ l) : l.filter (· ≠ t) = l := by
  apply List.filter_eq_self.mpr
  intro u hu
  simp only [decide_eq_true_eq]
  rintro rfl
  exact absent hu

theorem congr (inv : WaitInv k o W) (same : ∀ u, W u ↔ W' u) : WaitInv k o W' :=
  ⟨inv.nodup, fun u => by rw [inv.listed, same], inv.pending, fun u h => inv.live u ((same u).mpr h)⟩

theorem update (inv : WaitInv k o W) (t : Tid)
    (others : ∀ u, u ≠ t → k'.thread u = k.thread u) (sameSet : ∀ u, u ≠ t → (W' u ↔ W u))
    (sameList : ∀ u, u ≠ t → (u ∈ k'.list (.wait o) ↔ u ∈ k.list (.wait o)))
    (nodup : (k'.list (.wait o)).Nodup)
    (self : t ∈ k'.list (.wait o) ↔ W' t ∧ (k'.thread t).stat = .suspend)
    (clean : t ∈ k'.list (.wait o) → (k'.thread t).error = .eok)
    (live : W' t → (k'.thread t).stat = .suspend ∨ (k'.thread t).stat = .ready) :
    WaitInv k' o W' := by
  refine ⟨nodup, ?_, ?_, ?_⟩
  · intro u
    by_cases hu : u = t
    · subst hu; exact self
    · rw [sameList u hu, sameSet u hu, others u hu]; exact inv.listed u
  · intro u h
    by_cases hu : u = t
    · subst hu; exact clean h
    · rw [others u hu]; exact inv.pending u ((sameList u hu).mp h)
  · intro u h
    by_cases hu : u = t
    · subst hu; exact live h
    · rw [others u hu]; exact inv.live u ((sameSet u hu).mp h)

theorem modify {f : Thread → Thread} (inv : WaitInv k o W) (stat : (f (k.thread t)).stat = (k.thread t).stat)
    (clean : t ∈ k.list (.wait o) → (f (k.thread t)).error = .eok) : WaitInv (k.modify t f) o W := by
  apply inv.update t
  · intro u hu; simp [hu]
  · exact fun _ _ => Iff.rfl
  · exact fun _ _ => Iff.rfl
  · exact inv.nodup
  · simpa [stat] using inv.listed t
  · simpa using clean
  · simpa [stat] using inv.live t

theorem park (inv : WaitInv k o W) (others : ∀ u, u ≠ t → k'.thread u = k.thread u)
    (suspended : (k'.thread t).stat = .suspend) (clean : (k'.thread t).error = .eok)
    (mem : ∀ u, u ∈ k'.list (.wait o) ↔ u = t ∨ u ∈ k.list (.wait o))
    (nodup : (k'.list (.wait o)).Nodup) : WaitInv k' o (fun u => u = t ∨ W u) := by
  apply inv.update t others
  · intro u hu; simp [hu]
  · intro u hu; simp [mem, hu]
  · exact nodup
  · simp [mem, suspended]
  · exact fun _ => clean
  · exact fun _ => Or.inl suspended

theorem block (inv : WaitInv k o W) (ready : (k.thread t).stat = .ready)
    (clean : (k.thread t).error = .eok) (flag : IpcFlag) :
    WaitInv (k.rtIpcListSuspend (.wait o) t flag) o (fun u => u = t ∨ W u) := by
  have self := ipcSuspend_self (o := o) ready flag
  apply inv.park
  · exact fun u hu => ipcSuspend_other ready flag hu
  · simp [self, Thread.parked]
  · simpa [self, Thread.parked] using clean
  · exact fun u => ipcSuspend_mem ready flag
  · exact ipcSuspend_nodup ready flag inv.nodup

theorem blockReady {time : Int} {flag : IpcFlag} (inv : WaitInv k o W)
    (ready : (k.thread t).stat = .ready) (clean : (k.thread t).error = .eok)
    (started : (k.rtIpcListSuspend (.wait o) t flag).startWaitTimer t time = some k') :
    WaitInv k' o (fun u => u = t ∨ W u) ∧ (k'.thread t).stat = .suspend ∧
      (∀ u, u ≠ t → k'.thread u = k.thread u) := by
  obtain ⟨timer, rfl⟩ := startWaitTimer_some started
  have parked := ipcSuspend_self (o := o) ready flag
  have blocked := inv.block ready clean flag
  refine ⟨blocked.modify rfl (fun h => blocked.pending t h), by simp [parked, Thread.parked], ?_⟩
  intro u hu
  simp [ipcSuspend_other ready flag hu, hu]

theorem blockTimed {time : Int} {flag : IpcFlag} (inv : WaitInv k o W)
    (ready : (k.thread t).stat = .ready)
    (started : ((k.modify t (fun th => { th with error := .eok })).rtIpcListSuspend (.wait o) t
      flag).startWaitTimer t time = some k') :
    WaitInv k' o (fun u => u = t ∨ W u) ∧ (k'.thread t).stat = .suspend ∧
      (∀ u, u ≠ t → k'.thread u = k.thread u) := by
  have cleared : WaitInv (k.modify t (fun th => { th with error := .eok })) o W :=
    inv.modify rfl (fun _ => rfl)
  obtain ⟨wait, parked, others⟩ := cleared.blockReady (by simpa using ready) (by simp) started
  exact ⟨wait, parked, fun u hu => by rw [others u hu, modify_other _ _ _ _ hu]⟩

theorem blockOther (inv : WaitInv k o W) (ready : (k.thread t).stat = .ready) (flag : IpcFlag)
    {q : Nat} (other : o ≠ q) (free : ¬ W t) :
    WaitInv (k.rtIpcListSuspend (.wait q) t flag) o W := by
  have list : (k.rtIpcListSuspend (.wait q) t flag).list (.wait o) = k.list (.wait o) := by
    rw [ipcSuspend_list_other ready flag other]
    exact filter_absent _ (inv.absent ready)
  apply inv.update t
  · exact fun u hu => ipcSuspend_other ready flag hu
  · exact fun u _ => Iff.rfl
  · intro u _; rw [list]
  · rw [list]; exact inv.nodup
  · rw [list]
    exact ⟨fun h => absurd h (inv.absent ready), fun h => absurd h.1 free⟩
  · rw [list]; exact fun h => absurd h (inv.absent ready)
  · exact fun h => absurd h free

theorem blockOtherTimed {time : Int} {flag : IpcFlag} {q : Nat} (inv : WaitInv k o W)
    (ready : (k.thread t).stat = .ready) (other : o ≠ q) (free : ¬ W t)
    (started : (k.rtIpcListSuspend (.wait q) t flag).startWaitTimer t time = some k') :
    WaitInv k' o W := by
  obtain ⟨timer, rfl⟩ := startWaitTimer_some started
  have blocked := inv.blockOther ready flag other free
  exact blocked.modify rfl (fun h => blocked.pending t h)

theorem changePriority (inv : WaitInv k o W) (t : Tid) (p : Nat) :
    WaitInv (k.rtThreadChangePriority t p) o W := by
  have list : (k.rtThreadChangePriority t p).list (.wait o) = k.list (.wait o) := by
    rw [changePriority_wait]
    split
    · rename_i ready
      exact filter_absent _ (inv.absent ready)
    · rfl
  refine ⟨by rw [list]; exact inv.nodup, ?_, ?_, ?_⟩
  · intro u; rw [list, (changePriority_frame k t u p).1]; exact inv.listed u
  · intro u h; rw [(changePriority_frame k t u p).2]; exact inv.pending u (by rwa [list] at h)
  · intro u h; rw [(changePriority_frame k t u p).1]; exact inv.live u h

theorem wake (inv : WaitInv k o W) (others : ∀ u, u ≠ t → k'.thread u = k.thread u)
    (list : k'.list (.wait o) = (k.list (.wait o)).filter (· ≠ t))
    (ready : (k'.thread t).stat = .ready) : WaitInv k' o W := by
  apply inv.update t others (fun _ _ => Iff.rfl)
  · intro u hu; simp [list, hu]
  · rw [list]; exact inv.nodup.filter _
  · simp [list, ready]
  · simp [list]
  · exact fun _ => Or.inr ready

theorem resume (inv : WaitInv k o W) (suspended : (k.thread t).stat = .suspend) :
    WaitInv (k.rtThreadResume t).1 o W :=
  inv.wake (fun _ hu => resume_other suspended hu) (resume_wait suspended o)
    (by simp [resume_self suspended, Thread.awake])

theorem expire (inv : WaitInv k o W) (expired : k.timerExpire t = some k') : WaitInv k' o W := by
  obtain ⟨_, _, self, others, lists, _⟩ := timerExpire_some expired
  exact inv.wake others (lists o) (by simp [self, Thread.awake])

theorem leave (inv : WaitInv k o W) (ready : (k.thread t).stat = .ready) :
    WaitInv k o (fun u => u ≠ t ∧ W u) := by
  apply inv.update t (fun _ _ => rfl)
  · intro u hu; simp [hu]
  · exact fun _ _ => Iff.rfl
  · exact inv.nodup
  · simp [inv.absent ready]
  · exact inv.pending t
  · exact fun h => absurd rfl h.1

theorem resumeAll {q : Nat} {V : Tid → Prop} (inv : WaitInv k o W) (woken : WaitInv k q V) :
    ∃ k', k.rtIpcListResumeAll (.wait q) = some k' ∧ WaitInv k' o W ∧ WaitInv k' q V ∧
      k'.list (.wait q) = [] ∧
      (∀ t, t ∈ k.list (.wait q) → k'.thread t = { (k.thread t).awake with error := .error }) ∧
      (∀ t, t ∉ k.list (.wait q) → k'.thread t = k.thread t) ∧ k'.tick = k.tick := by
  obtain ⟨k', done, threads, lists, tick⟩ := resumeAll_spec k q woken.nodup woken.suspended
  have keep : ∀ {p : Nat} {U : Tid → Prop}, WaitInv k p U → WaitInv k' p U := by
    intro p U old
    refine ⟨by rw [lists]; exact old.nodup.filter _, ?_, ?_, ?_⟩
    · intro t
      rw [lists, threads, List.mem_filter, old.listed]
      by_cases ht : t ∈ k.list (.wait q) <;> simp [ht, Thread.awake]
    · intro t ht
      rw [lists, List.mem_filter, decide_eq_true_eq] at ht
      rw [threads, if_neg ht.2]
      exact old.pending t ht.1
    · intro t ht
      rw [threads]
      split
      · exact Or.inr rfl
      · exact old.live t ht
  refine ⟨k', done, keep inv, keep woken, ?_, ?_, ?_, tick⟩
  · rw [lists]
    exact List.filter_eq_nil_iff.mpr (fun t ht => by simp [ht])
  · intro t ht; rw [threads, if_pos ht]
  · intro t ht; rw [threads, if_neg ht]

end WaitInv

end RtThread
