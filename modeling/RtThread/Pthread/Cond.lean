import RtThread.Semaphore
import Mathlib.Data.Fintype.Card

/-! A condition variable of the pthread layer: its semaphore, FIFO, and where each thread is inside
_pthread_cond_timedwait, which is not one step but three. -/
namespace RtThread.Pthread
open Kernel

/-- `unlocked`: between pthread_mutex_unlock and rt_sem_take; `back`: out of rt_sem_take with its
result, before pthread_mutex_lock has returned. -/
inductive Phase where
  | out
  | unlocked
  | suspended
  | back (result : Err)
  deriving DecidableEq

structure Cond (T : Type) where
  value : Nat
  queue : List T
  phase : T → Phase

namespace Cond
variable {T : Type} [DecidableEq T]

def set (c : Cond T) (t : T) (p : Phase) : Cond T := { c with phase := Function.update c.phase t p }

/-- After pthread_cond_init. -/
def init : Cond T := ⟨0, [], fun _ => .out⟩

/-- rt_sem_take of a waiting thread, up to its suspension. -/
def take (c : Cond T) (t : T) (timeout : Int) : Cond T :=
  if 0 < c.value then { c with value := c.value - 1 }.set t (.back .eok)
  else if timeout = 0 then c.set t (.back .etimeout)
  else { c with queue := c.queue ++ [t] }.set t .suspended

/-- rt_sem_trytake by a thread that does not wait. -/
def trytake (c : Cond T) : Option (Cond T) :=
  if 0 < c.value then some { c with value := c.value - 1 } else none

/-- rt_sem_release, which is all of pthread_cond_signal. -/
def release (c : Cond T) : Cond T :=
  match c.queue with
  | t :: rest => { c with queue := rest }.set t (.back .eok)
  | [] => if c.value < Semaphore.rtSemValueMax then { c with value := c.value + 1 } else c

/-- The timer of a suspended thread. -/
def expire (c : Cond T) (t : T) : Cond T :=
  { c with queue := c.queue.filter (· ≠ t) }.set t (.back .etimeout)

/-- The loop of pthread_cond_broadcast, `none` when the fuel runs out. -/
def broadcastLoop : Nat → Cond T → Option (Cond T)
  | 0, _ => none
  | fuel + 1, c =>
    match c.trytake with
    | none => broadcastLoop fuel c.release
    | some c => some c.release

def broadcast (c : Cond T) : Option (Cond T) := broadcastLoop (c.queue.length + 2) c

structure Inv (c : Cond T) : Prop where
  listed : ∀ t, t ∈ c.queue ↔ c.phase t = .suspended
  nodup : c.queue.Nodup
  free : 0 < c.value → c.queue = []
  bound : c.value ≤ Semaphore.rtSemValueMax

variable {c : Cond T} {t u : T} {p : Phase}

@[simp] theorem set_value (c : Cond T) (t : T) (p : Phase) : (c.set t p).value = c.value := rfl
@[simp] theorem set_queue (c : Cond T) (t : T) (p : Phase) : (c.set t p).queue = c.queue := rfl
@[simp] theorem set_phase (c : Cond T) (t u : T) (p : Phase) :
    (c.set t p).phase u = if u = t then p else c.phase u := by
  simp [set, Function.update_apply]

omit [DecidableEq T] in
theorem init_inv : Inv (init : Cond T) := ⟨by simp [init], by simp [init], by simp [init], by simp [init]⟩

omit [DecidableEq T] in
theorem Inv.absent (inv : Inv c) (runs : c.phase t ≠ .suspended) : t ∉ c.queue :=
  fun here => runs ((inv.listed t).mp here)

theorem Inv.set (inv : Inv c) (runs : c.phase t ≠ .suspended) (stays : p ≠ .suspended) :
    Inv (c.set t p) := by
  refine ⟨fun u => ?_, inv.nodup, inv.free, inv.bound⟩
  rw [set_queue, set_phase]
  by_cases hu : u = t
  · subst hu
    simp [inv.absent runs, stays]
  · simp [hu, inv.listed u]

omit [DecidableEq T] in
theorem Inv.lower (inv : Inv c) (positive : 0 < c.value) : Inv { c with value := c.value - 1 } :=
  ⟨inv.listed, inv.nodup, fun _ => inv.free positive, Nat.le_trans (Nat.sub_le _ _) inv.bound⟩

theorem Inv.take (inv : Inv c) (runs : c.phase t ≠ .suspended) (timeout : Int) :
    Inv (c.take t timeout) := by
  simp only [Cond.take]
  split
  · rename_i positive
    exact (inv.lower positive).set runs (by simp)
  · rename_i zero
    split
    · exact inv.set runs (by simp)
    · refine ⟨fun u => ?_, ?_, fun positive => absurd positive zero, inv.bound⟩
      · rw [set_queue, set_phase]
        by_cases hu : u = t
        · simp [hu]
        · simp [hu, inv.listed u]
      · rw [set_queue, List.nodup_append]
        refine ⟨inv.nodup, by simp, fun x here y last same => ?_⟩
        obtain rfl := List.mem_singleton.mp last
        exact inv.absent runs (same ▸ here)

theorem Inv.release (inv : Inv c) : Inv c.release := by
  simp only [Cond.release]
  split
  · rename_i w rest list
    have nodup := list ▸ inv.nodup
    refine ⟨fun u => ?_, (List.nodup_cons.mp nodup).2, fun positive => ?_, inv.bound⟩
    · rw [set_queue, set_phase]
      by_cases hu : u = w
      · subst hu
        simp [(List.nodup_cons.mp nodup).1]
      · have old := inv.listed u
        rw [list] at old
        simpa [hu] using old
    · simp [inv.free positive] at list
  · rename_i list
    split
    · rename_i room
      exact ⟨inv.listed, inv.nodup, fun _ => list, room⟩
    · exact inv

theorem Inv.expire (inv : Inv c) (t : T) : Inv (c.expire t) := by
  refine ⟨fun u => ?_, inv.nodup.filter _, fun positive => ?_, inv.bound⟩
  · simp only [Cond.expire, set_queue, set_phase, List.mem_filter, inv.listed]
    by_cases hu : u = t <;> simp [hu]
  · simp [Cond.expire, inv.free positive]

/-- Nobody is left in the queue, and there is a token. -/
def wakeAll (c : Cond T) : Cond T where
  value := max 1 c.value
  queue := []
  phase t := if c.phase t = .suspended then .back .eok else c.phase t

omit [DecidableEq T] in
theorem wakeAll_free (inv : Inv c) (positive : 0 < c.value) : c.wakeAll = c := by
  have nobody (t : T) : c.phase t ≠ .suspended := by
    rw [ne_eq, ← inv.listed t, inv.free positive]
    exact List.not_mem_nil
  obtain ⟨value, queue, phase⟩ := c
  simp only [wakeAll, Cond.mk.injEq]
  exact ⟨Nat.max_eq_right positive, (inv.free positive).symm, funext fun t => if_neg (nobody t)⟩

theorem wakeAll_release (inv : Inv c) (zero : c.value = 0) : c.release.wakeAll = c.wakeAll := by
  simp only [Cond.release]
  split
  · rename_i w rest list
    have first : c.phase w = .suspended := (inv.listed w).mp (by simp [list])
    simp only [wakeAll, set_value, set_phase, Cond.mk.injEq, true_and]
    funext u
    by_cases hu : u = w
    · simp [hu, first]
    · simp [hu]
  · simp [wakeAll, zero, Semaphore.rtSemValueMax]

theorem broadcastLoop_eq (inv : Inv c) (fuel : Nat)
    (enough : c.queue.length + (if 0 < c.value then 1 else 2) ≤ fuel) :
    broadcastLoop fuel c = some c.wakeAll := by
  induction fuel generalizing c with
  | zero => split at enough <;> lia
  | succ fuel ih =>
    by_cases positive : 0 < c.value
    · have empty := inv.free positive
      have bound := inv.bound
      rw [broadcastLoop, trytake, if_pos positive, wakeAll_free inv positive]
      have room : c.value - 1 < Semaphore.rtSemValueMax := by lia
      simp only [Cond.release, empty, room, if_true, Option.some.injEq]
      obtain ⟨value, queue, phase⟩ := c
      simp only [Cond.mk.injEq, and_true] at positive empty ⊢
      exact ⟨by lia, empty.symm⟩
    · have zero : c.value = 0 := by lia
      rw [broadcastLoop, trytake, if_neg positive]
      refine (ih inv.release ?_).trans (congrArg some (wakeAll_release inv zero))
      rw [if_neg positive] at enough
      cases list : c.queue with
      | nil => simpa [Cond.release, list, zero, Semaphore.rtSemValueMax] using by lia
      | cons w rest =>
        rw [list] at enough
        simpa [Cond.release, list, zero] using enough

/-- pthread_cond_broadcast ends, and does not depend on how many threads there are to wake. -/
theorem broadcast_eq (inv : Inv c) : c.broadcast = some c.wakeAll :=
  broadcastLoop_eq inv _ (by split <;> lia)

omit [DecidableEq T] in
theorem Inv.wakeAll (inv : Inv c) : Inv c.wakeAll := by
  refine ⟨fun t => ?_, by simp [Cond.wakeAll], by simp [Cond.wakeAll], ?_⟩
  · simp only [Cond.wakeAll, List.not_mem_nil, false_iff]
    split
    · simp
    · assumption
  · exact Nat.max_le.mpr ⟨by simp [Semaphore.rtSemValueMax], inv.bound⟩

end Cond

theorem suspend_fifo_list {k : Kernel} {t : Tid} {o : Nat} (ready : (k.thread t).stat = .ready) :
    (k.rtIpcListSuspend (.wait o) t .fifo).list (.wait o) = (k.list (.wait o)).filter (· ≠ t) ++ [t] := by
  simp only [rtIpcListSuspend, suspend_ready k t ready, rtTimerStop, modify_list, insertBefore_self,
    scheduleRemove_list]

/-- The condition variable shows what its semaphore and the threads in rt_sem_take are in. -/
structure Simulates (s : Semaphore.State) (c : Cond Tid) : Prop where
  value : c.value = s.value
  queue : c.queue = s.kernel.list (.wait 0)
  suspended : ∀ t, s.waiting t = true → (s.kernel.thread t).stat = .suspend → c.phase t = .suspended
  back : ∀ t, s.waiting t = true → (s.kernel.thread t).stat = .ready →
    c.phase t = .back (s.kernel.thread t).error

namespace Simulates
variable {v : Nat} {tr : List Semaphore.Event} {s s' : Semaphore.State} {c : Cond Tid} {t : Tid}
  {es : List Semaphore.Event}

/-- What is asked of the threads when one of them moves. -/
theorem move {value : Nat} {queue : List Tid} {p : Phase} (sim : Simulates s c) (t : Tid)
    (kept : ∀ u, u ≠ t → s'.waiting u = s.waiting u ∧ s'.kernel.thread u = s.kernel.thread u)
    (sameValue : value = s'.value) (sameQueue : queue = s'.kernel.list (.wait 0))
    (suspended : s'.waiting t = true → (s'.kernel.thread t).stat = .suspend → p = .suspended)
    (back : s'.waiting t = true → (s'.kernel.thread t).stat = .ready → p = .back (s'.kernel.thread t).error) :
    Simulates s' ((Cond.mk value queue c.phase).set t p) := by
  refine ⟨sameValue, sameQueue, fun u waits stat => ?_, fun u waits stat => ?_⟩
  all_goals
    rw [Cond.set_phase]
    by_cases hu : u = t
    · subst hu
      rw [if_pos rfl]
      first
        | exact suspended waits stat
        | exact back waits stat
    · rw [(kept u hu).1] at waits
      rw [(kept u hu).2] at stat
      rw [if_neg hu]
      first
        | exact sim.suspended u waits stat
        | exact (kept u hu).2 ▸ sim.back u waits stat

theorem take {time : Int} (sim : Simulates s c) (inv : Semaphore.Inv v tr s) (fifo : s.flag = .fifo)
    (taken : Semaphore.rtSemTake s t time = some (s', es)) : Simulates s' (c.take t time) := by
  have idle := (Semaphore.take_cases taken).1
  simp only [Semaphore.rtSemTake, idle, Bool.false_eq_true, if_false] at taken
  simp only [Cond.take, sim.value]
  split at taken
  · rename_i positive
    cases Option.some.inj taken
    rw [if_pos positive]
    exact sim.move t (fun u _ => ⟨rfl, rfl⟩) rfl sim.queue (by simp [idle]) (by simp [idle])
  · rename_i zero
    rw [if_neg zero]
    split at taken
    · rename_i at_once
      cases Option.some.inj taken
      rw [if_pos at_once]
      exact sim.move t (fun u _ => ⟨rfl, rfl⟩) sim.value sim.queue (by simp [idle]) (by simp [idle])
    · rename_i waits
      rw [if_neg waits]
      split at taken
      · contradiction
      · rename_i ready
        obtain ⟨k, started, done⟩ := Option.map_eq_some_iff.mp taken
        cases done
        rw [ne_eq, not_not] at ready
        obtain ⟨_, parked, others⟩ := inv.wait.blockTimed ready started
        refine sim.move t (fun u hu => ⟨by simp [hu], others u hu⟩) rfl ?_ (fun _ _ => rfl) ?_
        · obtain ⟨timer, rfl⟩ := startWaitTimer_some started
          have absent := WaitInv.filter_absent _ (inv.wait.absent ready)
          rw [modify_list, fifo, suspend_fifo_list (by simpa using ready), modify_list, absent, sim.queue]
        · intro _ stat
          simp [parked] at stat

theorem release (sim : Simulates s c) (inv : Semaphore.Inv v tr s) :
    Simulates (Semaphore.rtSemRelease s).1 c.release := by
  obtain ⟨w, rest, list, _, suspended, same⟩ | ⟨list, room, _, same⟩ | ⟨list, full, _, same⟩ :=
    Semaphore.release_cases inv (Prod.mk.eta (p := Semaphore.rtSemRelease s)).symm
  · have here : w ∈ s.kernel.list (.wait 0) := by simp [list]
    rw [same, Cond.release, sim.queue, list]
    refine sim.move w (fun u hu => ⟨rfl, resume_other suspended hu⟩) sim.value ?_ ?_ ?_
    · rw [resume_wait suspended, list, List.filter_cons_of_neg (by simp)]
      have nodup := list ▸ inv.wait.nodup
      exact (WaitInv.filter_absent rest (List.nodup_cons.mp nodup).1).symm
    · simp [resume_self suspended, Thread.awake]
    · simp [resume_self suspended, Thread.awake, inv.wait.pending w here]
  · rw [same]
    simp only [Cond.release, sim.queue, list, sim.value, room, if_true]
    exact ⟨rfl, list.symm ▸ rfl, sim.suspended, sim.back⟩
  · rw [same]
    simp only [Cond.release, sim.queue, list, sim.value, full, Nat.lt_irrefl, if_false]
    exact sim

theorem expire {k : Kernel} (sim : Simulates s c) (expired : s.kernel.timerExpire t = some k) :
    Simulates { s with kernel := k } (c.expire t) := by
  obtain ⟨_, _, self, others, lists, _⟩ := timerExpire_some expired
  refine sim.move t (fun u hu => ⟨rfl, others u hu⟩) sim.value ?_ ?_ ?_
  · rw [lists, sim.queue]
  · simp [self, Thread.awake]
  · simp [self]

end Simulates

end RtThread.Pthread
