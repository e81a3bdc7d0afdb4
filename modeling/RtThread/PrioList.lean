import RtThread.Parked
import RtThread.Priority

/-! The order of the wait lists with RT_IPC_FLAG_PRIO. A list is put in order when a thread comes to
it, and priorities change later: through rt_thread_control, and through a mutex whose owner waits for
something itself. Here are the calls of thread.c, of mutexes and of other IPC objects on one kernel. -/
namespace RtThread.PrioList
open Kernel Transition

/-- Wait list `o` is the one of mutex `o` or of another object with the same flag field. `arrival t`
is the time at which `t` came to the list it is in, by a `clock` of its own; the code keeps neither. -/
structure State where
  mutexes : Mutex.State
  arrival : Tid → Nat
  clock : Nat

namespace State

def kernel (s : State) : Kernel := s.mutexes.kernel
def flag (s : State) (o : Nat) : IpcFlag := (s.mutexes.mutex o).flag
def prio (s : State) (t : Tid) : Nat := (s.kernel.thread t).currentPriority
def waiters (s : State) (o : Nat) : List Tid := s.kernel.list (.wait o)

def withKernel (s : State) (k : Kernel) : State := { s with mutexes := { s.mutexes with kernel := k } }

def stamp (s : State) (t : Tid) : State :=
  { s with arrival := Function.update s.arrival t s.clock, clock := s.clock + 1 }

end State

/-- `woken o t`: a release of object `o` has taken `t` off its wait list. -/
inductive Event where
  | woken (o : Nat) (t : Tid)

/-- `block` and `release` are the parts of rt_sem_take and the like that suspend the caller and that
wake a waiter, `releaseAll` is the one of the reset and detach calls. A wake-up of rt_event_send is
the `resume` of a thread. -/
inductive Action where
  | thread (op : ThreadOp)
  | block (t : Tid) (o : Nat) (time : Int)
  | release (o : Nat)
  | releaseAll (o : Nat)
  | mutex (a : Mutex.Action)

def handed : Mutex.Event → Option Event
  | .handed t m => some (.woken m t)
  | _ => none

def caller : Mutex.Action → Option Tid
  | .take t _ _ => some t
  | _ => none

/-- A thread that calls rt_mutex_take may come to a list; nothing depends on the stamp of one that
does not. -/
def step (isMutex : Nat → Bool) (s : State) : Action → Option (State × List Event)
  | .thread op =>
    match op with
    | .block .. => none
    | op => (threadStep s.kernel op).map (fun k => (s.withKernel k, []))
  | .block t o time =>
    if isMutex o ∨ (s.kernel.thread t).stat ≠ .ready then none
    else ((s.kernel.rtIpcListSuspend (.wait o) t (s.flag o)).startWaitTimer t time).map (fun k =>
      ((s.stamp t).withKernel k, []))
  | .release o =>
    if isMutex o then none
    else some (s.withKernel (s.kernel.rtIpcListResume (.wait o)), (s.waiters o).head?.toList.map (.woken o))
  | .releaseAll o =>
    if isMutex o then none
    else (s.kernel.rtIpcListResumeAll (.wait o)).map (fun k => (s.withKernel k, []))
  | .mutex a =>
    if a.target.any (fun m => !isMutex m) then none
    else
      let s := (caller a).elim s s.stamp
      (Mutex.step s.mutexes a).map (fun r => ({ s with mutexes := r.1 }, r.2.filterMap handed))

/-- After the objects have been initialised, with no thread on a wait list. -/
structure Start (s : State) : Prop where
  mutex : ∀ m, ∃ flag, s.mutexes.mutex m = Mutex.rtMutexInit flag
  list : ∀ o, s.waiters o = []
  idle : ∀ t, s.mutexes.waiting t = none

def machine (isMutex : Nat → Bool) : Machine State Action Event where
  start := Start
  step := step isMutex

/-- By current priority, and by arrival where it is the same. -/
def Ahead (p a q b : Nat) : Prop := p < q ∨ p = q ∧ a < b

def Sorted (prio arrival : Tid → Nat) (l : List Tid) : Prop :=
  l.Pairwise (fun t u => Ahead (prio t) (arrival t) (prio u) (arrival u))

/-- With priority `p` thread `t` still has its place between the others of the list. -/
def Keeps (prio arrival : Tid → Nat) (l : List Tid) (t : Tid) (p : Nat) : Prop :=
  ∀ front back, l = front ++ t :: back →
    (∀ u ∈ front, Ahead (prio u) (arrival u) p (arrival t)) ∧
      ∀ u ∈ back, Ahead p (arrival t) (prio u) (arrival u)

def State.KeepsPlace (s : State) (t : Tid) (p : Nat) : Prop :=
  ∀ o, s.flag o = .prio → Keeps s.prio s.arrival (s.waiters o) t p

/-- A change of priority does not carry its thread past another waiter of a list that it is in: one
through rt_thread_control, and the one that rt_mutex_take makes before it suspends its caller. -/
def Guard (s : State) : Action → Prop
  | .thread (.changePriority t p) => s.KeepsPlace t p
  | .mutex (.take t m time) => ∀ owner, (s.mutexes.mutex m).owner = some owner → owner ≠ t →
      (s.mutexes.mutex m).value = 0 → time ≠ 0 → s.prio t < s.prio owner → s.KeepsPlace owner (s.prio t)
  | _ => True

variable {prio arrival : Tid → Nat} {l : List Tid} {t u : Tid} {p : Nat}

theorem Sorted.congr {prio' arrival' : Tid → Nat} (sorted : Sorted prio arrival l)
    (same : ∀ u ∈ l, prio' u = prio u ∧ arrival' u = arrival u) : Sorted prio' arrival' l := by
  refine List.Pairwise.imp_of_mem ?_ sorted
  intro a b ha hb ahead
  rw [(same a ha).1, (same a ha).2, (same b hb).1, (same b hb).2]
  exact ahead

theorem Sorted.nodup (sorted : Sorted prio arrival l) : l.Nodup := by
  refine List.Pairwise.imp ?_ sorted
  rintro a b (less | ⟨_, earlier⟩) rfl
  · exact Nat.lt_irrefl _ less
  · exact Nat.lt_irrefl _ earlier

/-- Exactly such a change of priority leaves the list in order. -/
theorem sorted_update (sorted : Sorted prio arrival l) :
    Sorted (Function.update prio t p) arrival l ↔ Keeps prio arrival l t p := by
  have split : ∀ front back, l = front ++ t :: back → t ∉ front ∧ t ∉ back := by
    intro front back same
    have nodup := sorted.nodup
    rw [same] at nodup
    obtain ⟨_, tail, apart⟩ := List.nodup_append.mp nodup
    exact ⟨fun here => apart t here t List.mem_cons_self rfl, (List.nodup_cons.mp tail).1⟩
  constructor
  · intro updated front back same
    obtain ⟨not_front, not_back⟩ := split front back same
    rw [same] at updated
    obtain ⟨_, tail, across⟩ := List.pairwise_append.mp updated
    constructor
    · intro u here
      have before := across u here t List.mem_cons_self
      rwa [Function.update_self, Function.update_of_ne (ne_of_mem_of_not_mem here not_front)] at before
    · intro u here
      have after := (List.pairwise_cons.mp tail).1 u here
      rwa [Function.update_self, Function.update_of_ne (ne_of_mem_of_not_mem here not_back)] at after
  · intro keeps
    by_cases inside : t ∈ l
    · obtain ⟨front, back, same⟩ := List.append_of_mem inside
      obtain ⟨not_front, not_back⟩ := split front back same
      obtain ⟨before, after⟩ := keeps front back same
      rw [same] at sorted ⊢
      obtain ⟨first, tail, across⟩ := List.pairwise_append.mp sorted
      have agree : ∀ u, u ≠ t → Function.update prio t p u = prio u := fun u other => Function.update_of_ne other _ _
      have front_agree : ∀ u ∈ front, Function.update prio t p u = prio u :=
        fun u here => agree u (ne_of_mem_of_not_mem here not_front)
      have back_agree : ∀ u ∈ back, Function.update prio t p u = prio u :=
        fun u here => agree u (ne_of_mem_of_not_mem here not_back)
      refine List.pairwise_append.mpr ⟨Sorted.congr first (fun u here => ⟨front_agree u here, rfl⟩),
        List.pairwise_cons.mpr
          ⟨?_, Sorted.congr (List.pairwise_cons.mp tail).2 (fun u here => ⟨back_agree u here, rfl⟩)⟩, ?_⟩
      · intro u here
        rw [Function.update_self, back_agree u here]
        exact after u here
      · intro a ha b hb
        rcases List.mem_cons.mp hb with rfl | hb'
        · rw [Function.update_self, front_agree a ha]
          exact before a ha
        · rw [front_agree a ha, back_agree b hb']
          exact across a ha b hb
    · exact sorted.congr (fun u here => ⟨Function.update_of_ne (ne_of_mem_of_not_mem here inside) _ _, rfl⟩)

/-- The search of rt_ipc_list_suspend puts the last to arrive in its place. -/
theorem sorted_insert {k : Kernel} (sorted : Sorted (fun u => (k.thread u).currentPriority) arrival l)
    (last : ∀ u ∈ l, arrival u < arrival t) :
    Sorted (fun u => (k.thread u).currentPriority) arrival (k.insertByPriority t l) := by
  induction l with
  | nil => exact List.pairwise_singleton _ _
  | cons s rest ih =>
    obtain ⟨first, tail⟩ := List.pairwise_cons.mp sorted
    unfold insertByPriority
    split
    · rename_i less
      refine List.pairwise_cons.mpr ⟨?_, sorted⟩
      intro u here
      rcases List.mem_cons.mp here with rfl | later
      · exact Or.inl less
      · rcases first u later with higher | ⟨same, _⟩
        · exact Or.inl (Nat.lt_trans less higher)
        · exact Or.inl (same ▸ less)
    · rename_i notLess
      refine List.pairwise_cons.mpr ⟨?_, ih tail (fun u here => last u (List.mem_cons_of_mem s here))⟩
      intro u here
      rcases (mem_insertByPriority rest).mp here with rfl | later
      · rcases Nat.lt_or_eq_of_le (Nat.le_of_not_lt notLess) with higher | same
        · exact Or.inl higher
        · exact Or.inr ⟨same, last s List.mem_cons_self⟩
      · exact first u later

/-- What holds at any time while the guard does. -/
structure Inv (s : State) : Prop where
  parked : Parked s.kernel
  sorted : ∀ o, s.flag o = .prio → Sorted s.prio s.arrival (s.waiters o)
  stamped : ∀ o, ∀ u ∈ s.waiters o, s.arrival u < s.clock

variable {s s' : State} {k : Kernel} {o : Nat} {es : List Event}

theorem Inv.shrink (inv : Inv s) (shrinks : Shrinks s.kernel s'.kernel) (flag : s'.flag = s.flag)
    (arrival : s'.arrival = s.arrival) (clock : s'.clock = s.clock) : Inv s' where
  parked := inv.parked.shrinks shrinks
  sorted o prio := by
    rw [flag] at prio
    refine Sorted.congr ((inv.sorted o prio).sublist (shrinks.list o)) ?_
    exact fun u here => ⟨(shrinks.same o u here).2, by rw [arrival]⟩
  stamped o u here := by
    rw [arrival, clock]
    exact inv.stamped o u ((shrinks.list o).subset here)

theorem Inv.stamp (inv : Inv s) (out : ∀ o, t ∉ s.waiters o) : Inv (s.stamp t) where
  parked := inv.parked
  sorted o prio := (inv.sorted o prio).congr
    (fun u here => ⟨rfl, Function.update_of_ne (ne_of_mem_of_not_mem here (out o)) _ _⟩)
  stamped o u here := by
    have less := inv.stamped o u here
    simp only [State.stamp, Function.update_of_ne (ne_of_mem_of_not_mem here (out o))]
    omega

theorem Inv.suspend (inv : Inv s) (ready : (s.kernel.thread t).stat = .ready) (last : s.arrival t < s.clock)
    (before : ∀ q, ∀ u ∈ s.waiters q, s.arrival u < s.arrival t) :
    Inv (s.withKernel (s.kernel.rtIpcListSuspend (.wait o) t (s.flag o))) := by
  have out := inv.parked.out (t := t) (by rw [ready]; decide)
  have filtered : ∀ q, (s.kernel.list (.wait q)).filter (· ≠ t) = s.waiters q :=
    fun q => WaitInv.filter_absent _ (out q)
  have priority : ∀ u, ((s.kernel.rtIpcListSuspend (.wait o) t (s.flag o)).thread u).currentPriority = s.prio u :=
    fun u => Mutex.ipcSuspend_priority ready (s.flag o)
  have members : ∀ q, ∀ u ∈ (s.kernel.rtIpcListSuspend (.wait o) t (s.flag o)).list (.wait q),
      u = t ∨ u ∈ s.waiters q := by
    intro q u here
    by_cases self : q = o
    · rw [self] at here ⊢
      exact (ipcSuspend_mem ready _).mp here
    · rw [ipcSuspend_list_other ready _ self, filtered] at here
      exact Or.inr here
  refine ⟨?_, ?_, ?_⟩
  · intro q u here
    change ((s.kernel.rtIpcListSuspend (.wait o) t (s.flag o)).thread u).stat = .suspend
    by_cases self : u = t
    · rw [self, ipcSuspend_self ready]
      rfl
    · rw [ipcSuspend_other ready _ self]
      exact inv.parked q u ((members q u here).resolve_left self)
  · intro q prio
    change s.flag q = .prio at prio
    have sorted := inv.sorted q prio
    suffices placed : Sorted s.prio s.arrival
        ((s.kernel.rtIpcListSuspend (.wait o) t (s.flag o)).list (.wait q)) from
      placed.congr (fun u _ => ⟨priority u, rfl⟩)
    by_cases self : q = o
    · subst self
      have list : (s.kernel.rtIpcListSuspend (.wait q) t (s.flag q)).list (.wait q) =
          (s.kernel.rtThreadSuspend t).1.insertByPriority t (s.waiters q) := by
        rw [prio, rtIpcListSuspend]
        simp only [Function.update_self]
        rw [suspend_ready _ t ready]
        simp only [rtTimerStop, modify_list, scheduleRemove_list]
        rw [filtered]
      have same : ∀ u, ((s.kernel.rtThreadSuspend t).1.thread u).currentPriority = s.prio u := by
        intro u
        rw [suspend_ready _ t ready]
        by_cases self : u = t <;> simp [rtTimerStop, self, State.prio]
      rw [list]
      refine Sorted.congr (sorted_insert (sorted.congr (fun u _ => ⟨same u, rfl⟩)) (before q)) ?_
      exact fun u _ => ⟨(same u).symm, rfl⟩
    · rw [ipcSuspend_list_other ready _ self, filtered]
      exact sorted
  · intro q u here
    rcases members q u here with rfl | inside
    · exact last
    · exact inv.stamped q u inside

/-- A change of priority keeps every list in order if and only if nobody is to be passed. -/
theorem changePriority_sorted (inv : Inv s) :
    (∀ o, s.flag o = .prio → Sorted (s.withKernel (s.kernel.rtThreadChangePriority t p)).prio s.arrival
      ((s.withKernel (s.kernel.rtThreadChangePriority t p)).waiters o)) ↔ s.KeepsPlace t p := by
  have prio : (s.withKernel (s.kernel.rtThreadChangePriority t p)).prio = Function.update s.prio t p := by
    funext u
    rw [Function.update_apply]
    exact Mutex.changePriority_priority s.kernel t u p
  have list : ∀ o, (s.withKernel (s.kernel.rtThreadChangePriority t p)).waiters o = s.waiters o := by
    intro o
    change (s.kernel.rtThreadChangePriority t p).list (.wait o) = s.waiters o
    rw [changePriority_wait]
    split
    · rename_i ready
      exact WaitInv.filter_absent _ (inv.parked.out (by rw [ready]; decide) o)
    · rfl
  rw [prio]
  exact forall_congr' (fun o => imp_congr_right (fun flag => by rw [list o]; exact sorted_update (inv.sorted o flag)))

theorem Inv.changePriority (inv : Inv s) (keeps : s.KeepsPlace t p) :
    Inv (s.withKernel (s.kernel.rtThreadChangePriority t p)) where
  parked o u here := by
    have inside : u ∈ s.waiters o := by
      change u ∈ (s.kernel.rtThreadChangePriority t p).list (.wait o) at here
      rw [changePriority_wait] at here
      split at here
      · exact List.mem_of_mem_filter here
      · exact here
    exact (changePriority_frame s.kernel t u p).1.trans (inv.parked o u inside)
  sorted := (changePriority_sorted inv).mpr keeps
  stamped o u here := by
    change u ∈ (s.kernel.rtThreadChangePriority t p).list (.wait o) at here
    rw [changePriority_wait] at here
    split at here
    · exact inv.stamped o u (List.mem_of_mem_filter here)
    · exact inv.stamped o u here

theorem flag_update {mutex : Nat → Mutex.MutexObj} {m : Nat} {x : Mutex.MutexObj} (same : x.flag = (mutex m).flag) :
    (fun o => (Function.update mutex m x o).flag) = fun o => (mutex o).flag := by
  funext o
  by_cases self : o = m
  · rw [self, Function.update_self, same]
  · rw [Function.update_of_ne self]

theorem donate_inv {owner : Tid} (inv : Inv s)
    (keeps : s.prio t < s.prio owner → s.KeepsPlace owner (s.prio t)) :
    Inv (s.withKernel (Mutex.donate s.kernel t owner)) ∧
      (s.withKernel (Mutex.donate s.kernel t owner)).waiters = s.waiters ∧
      (((Mutex.donate s.kernel t owner).thread t).stat = (s.kernel.thread t).stat) := by
  unfold Mutex.donate
  split
  · rename_i higher
    refine ⟨inv.changePriority (keeps higher), ?_, (changePriority_frame ..).1⟩
    funext o
    change (s.kernel.rtThreadChangePriority owner _).list (.wait o) = s.waiters o
    rw [changePriority_wait]
    split
    · rename_i ready
      exact WaitInv.filter_absent _ (inv.parked.out (by rw [ready]; decide) o)
    · rfl
  · exact ⟨inv, rfl, rfl⟩

theorem take_silent {x : Mutex.State} {m : Nat} {time : Int} {r : Mutex.State × List Mutex.Event}
    (taken : Mutex.rtMutexTake x t m time = some r) : r.2.filterMap handed = [] := by
  simp only [Mutex.rtMutexTake] at taken
  split at taken
  · split at taken
    · split at taken <;> cases Option.some.inj taken <;> rfl
    · split at taken
      · split at taken <;> cases Option.some.inj taken <;> rfl
      · split at taken
        · cases Option.some.inj taken
          rfl
        · split at taken
          · contradiction
          · obtain ⟨k, _, same⟩ := Option.map_eq_some_iff.mp taken
            cases same
            rfl
  · contradiction

theorem take_inv {m : Nat} {time : Int} {r : Mutex.State × List Mutex.Event} (inv : Inv s)
    (guard : Guard s (.mutex (.take t m time))) (taken : Mutex.rtMutexTake s.mutexes t m time = some r) :
    Inv { s.stamp t with mutexes := r.1 } := by
  simp only [Mutex.rtMutexTake] at taken
  split at taken
  · rename_i running
    obtain ⟨_, ready⟩ := Mutex.running_iff.mp running
    have out := inv.parked.out (t := t) (by rw [show (s.kernel.thread t).stat = .ready from ready]; decide)
    have stamped := inv.stamp out
    have cleared : ∀ e, Shrinks s.kernel (s.kernel.modify t (fun th => { th with error := e })) :=
      fun e => modify_shrinks ⟨rfl, rfl⟩
    split at taken
    · split at taken <;> cases Option.some.inj taken
      · exact stamped.shrink (cleared .eok) (flag_update rfl) rfl rfl
      · exact stamped.shrink (cleared .eok) rfl rfl rfl
    · rename_i foreign
      split at taken
      · split at taken <;> cases Option.some.inj taken
        · exact stamped.shrink (cleared .eok) (flag_update rfl) rfl rfl
        · exact stamped.shrink (cleared .eok) (flag_update rfl) rfl rfl
      · rename_i held
        split at taken
        · cases Option.some.inj taken
          have failed : Shrinks s.kernel ((s.kernel.modify t (fun th => { th with error := .eok })).modify t
              (fun th => { th with error := .etimeout })) := (cleared .eok).trans (modify_shrinks ⟨rfl, rfl⟩)
          exact stamped.shrink failed rfl rfl rfl
        · rename_i waits
          split at taken
          · contradiction
          · rename_i owner owns
            obtain ⟨k, started, same⟩ := Option.map_eq_some_iff.mp taken
            cases same
            have other : owner ≠ t := by
              rintro rfl
              exact foreign owns
            -- the caller's error is cleared, the owner boosted, the caller suspended and its timer started
            let clear : Thread → Thread := fun th => { th with error := .eok }
            let fresh := (s.stamp t).withKernel (s.kernel.modify t clear)
            have freshInv : Inv fresh := stamped.shrink (cleared .eok) rfl rfl rfl
            have prio : fresh.prio = s.prio := by
              funext u
              change ((s.kernel.modify t clear).thread u).currentPriority = (s.kernel.thread u).currentPriority
              by_cases self : u = t
              · rw [self, modify_self]
              · rw [modify_other _ _ _ _ self]
            have keeps : fresh.prio t < fresh.prio owner → fresh.KeepsPlace owner (fresh.prio t) := by
              rw [prio]
              intro higher o flag front back same
              obtain ⟨before, after⟩ := guard owner owns other (by omega) waits higher o flag front back same
              have agree : ∀ u ∈ s.waiters o, fresh.arrival u = s.arrival u :=
                fun u here => Function.update_of_ne (ne_of_mem_of_not_mem here (out o)) _ _
              have whole : s.waiters o = front ++ owner :: back := same
              constructor
              · intro u here
                rw [prio, agree u (by rw [whole]; simp [here]), agree owner (by rw [whole]; simp)]
                exact before u here
              · intro u here
                rw [prio, agree u (by rw [whole]; simp [here]), agree owner (by rw [whole]; simp)]
                exact after u here
            obtain ⟨donated, lists, stat⟩ := donate_inv freshInv keeps
            have readyStill : ((Mutex.donate fresh.kernel t owner).thread t).stat = .ready := by
              rw [stat]
              change ((s.kernel.modify t clear).thread t).stat = .ready
              rw [modify_self]
              exact ready
            have now : fresh.arrival t = s.clock := Function.update_self ..
            have suspended := donated.suspend (o := m) readyStill (now ▸ Nat.lt_succ_self _) (by
              intro q u here
              rw [lists] at here
              have less := inv.stamped q u here
              change Function.update s.arrival t s.clock u < Function.update s.arrival t s.clock t
              rw [Function.update_self, Function.update_of_ne (ne_of_mem_of_not_mem here (out q))]
              exact less)
            exact suspended.shrink (waitTimer_shrinks started) rfl rfl rfl
  · contradiction

theorem head_woken {w : Tid} {rest : List Tid} (parked : Parked k) (list : k.list (.wait o) = w :: rest) :
    ((k.rtIpcListResume (.wait o)).thread w).stat = .ready := by
  have suspended := parked o w (by rw [list]; exact List.mem_cons_self)
  simp only [rtIpcListResume, list]
  rw [resume_self suspended]
  rfl

theorem restore_shrinks (out : ∀ o, t ∉ k.list (.wait o)) : Shrinks k (Mutex.restore k t p) ∧
    ∀ o, (Mutex.restore k t p).list (.wait o) = k.list (.wait o) := by
  unfold Mutex.restore
  split
  · refine ⟨changePriority_shrinks out, fun o => ?_⟩
    rw [changePriority_wait]
    split
    · exact WaitInv.filter_absent _ (out o)
    · rfl
  · exact ⟨.refl _, fun _ => rfl⟩

theorem release_inv {m : Nat} {r : Mutex.State × List Mutex.Event} (inv : Inv s)
    (taken : Mutex.rtMutexRelease s.mutexes t m = some r) :
    Inv { s with mutexes := r.1 } ∧ ∀ w, Event.woken o w ∈ r.2.filterMap handed →
      (r.1.kernel.thread w).stat = .ready ∧ ∃ rest, s.waiters o = w :: rest := by
  simp only [Mutex.rtMutexRelease] at taken
  split at taken
  · rename_i running
    obtain ⟨_, ready⟩ := Mutex.running_iff.mp running
    have out := inv.parked.out (t := t) (by rw [show (s.kernel.thread t).stat = .ready from ready]; decide)
    split at taken
    · cases Option.some.inj taken
      have refused : Shrinks s.kernel (s.kernel.modify t (fun th => { th with error := .error })) :=
        modify_shrinks ⟨rfl, rfl⟩
      exact ⟨inv.shrink refused rfl rfl rfl, by simp [handed]⟩
    · split at taken
      · obtain ⟨shrinks, lists⟩ := restore_shrinks (p := (s.mutexes.mutex m).originalPriority) out
        simp only [Mutex.releaseLast] at taken
        split at taken
        · rename_i w rest list
          split at taken <;> cases Option.some.inj taken
          · refine ⟨inv.shrink (shrinks.trans (listResume_shrinks _ (.wait m))) (flag_update rfl) rfl rfl, ?_⟩
            intro v here
            simp only [handed, List.filterMap_cons, List.filterMap_nil, List.mem_singleton, Event.woken.injEq] at here
            obtain ⟨rfl, rfl⟩ := here
            exact ⟨head_woken (inv.parked.shrinks shrinks) list, rest, (lists o).symm.trans list⟩
          · exact ⟨inv.shrink shrinks (flag_update rfl) rfl rfl, by simp [handed]⟩
        · split at taken <;> cases Option.some.inj taken
          · exact ⟨inv.shrink shrinks (flag_update rfl) rfl rfl, by simp [handed]⟩
          · exact ⟨inv.shrink shrinks (flag_update rfl) rfl rfl, by simp [handed]⟩
      · cases Option.some.inj taken
        exact ⟨inv.shrink (.refl _) (flag_update rfl) rfl rfl, by simp [handed]⟩
  · contradiction

variable {isMutex : Nat → Bool} {a : Action} {tr : List Event}

theorem mutexStep_inv {b : Mutex.Action} (inv : Inv s) (guard : Guard s (.mutex b))
    (taken : step isMutex s (.mutex b) = some (s', es)) : Inv s' := by
  simp only [step] at taken
  split at taken
  · contradiction
  · obtain ⟨r, done, same⟩ := Option.map_eq_some_iff.mp taken
    cases same
    cases b with
    | take t m time => exact take_inv inv guard done
    | wake t =>
      obtain ⟨m, _, _, state, _⟩ := Mutex.return_cases done
      rw [state]
      exact inv.shrink (.refl _) rfl rfl rfl
    | release t m => exact (release_inv (o := 0) inv done).1
    | timeout t =>
      obtain ⟨k, expired, same⟩ := Option.map_eq_some_iff.mp done
      cases same
      exact inv.shrink (timerExpire_shrinks expired) rfl rfl rfl

theorem step_inv (inv : Inv s) (guard : Guard s a) (taken : step isMutex s a = some (s', es)) : Inv s' := by
  cases a with
  | thread op =>
    by_cases change : ∃ t p, op = .changePriority t p
    · obtain ⟨t, p, rfl⟩ := change
      obtain ⟨k, done, same⟩ := Option.map_eq_some_iff.mp taken
      cases same
      simp only [threadStep] at done
      split at done
      · exact Option.some.inj done ▸ inv.changePriority guard
      · contradiction
    · have plain : ∀ o flag time, op ≠ .block o flag time := by
        rintro o flag time rfl
        cases taken
      have done : (threadStep s.kernel op).map (fun k => (s.withKernel k, ([] : List Event))) = some (s', es) := by
        cases op <;> first | exact taken | exact absurd rfl (plain _ _ _)
      obtain ⟨k, moved, same⟩ := Option.map_eq_some_iff.mp done
      cases same
      have shrinks := threadStep_shrinks inv.parked (fun t p same => change ⟨t, p, same⟩) plain moved
      exact inv.shrink shrinks rfl rfl rfl
  | block t o time =>
    simp only [step] at taken
    split at taken
    · contradiction
    · rename_i able
      have ready : (s.kernel.thread t).stat = .ready := by
        by_contra asleep
        exact able (Or.inr asleep)
      have out := inv.parked.out (t := t) (by rw [ready]; decide)
      obtain ⟨k, started, same⟩ := Option.map_eq_some_iff.mp taken
      cases same
      have now : (s.stamp t).arrival t = s.clock := Function.update_self ..
      have suspended := (inv.stamp out).suspend (o := o) ready (now ▸ Nat.lt_succ_self _) (by
        intro q u here
        rw [now]
        change Function.update s.arrival t s.clock u < s.clock
        rw [Function.update_of_ne (ne_of_mem_of_not_mem here (out q))]
        exact inv.stamped q u here)
      exact suspended.shrink (waitTimer_shrinks started) rfl rfl rfl
  | release o =>
    simp only [step] at taken
    split at taken
    · contradiction
    · cases Option.some.inj taken
      exact inv.shrink (listResume_shrinks _ _) rfl rfl rfl
  | releaseAll o =>
    simp only [step] at taken
    split at taken
    · contradiction
    · obtain ⟨k, woken, same⟩ := Option.map_eq_some_iff.mp taken
      cases same
      exact inv.shrink (resumeAllLoop_shrinks woken) rfl rfl rfl
  | mutex b => exact mutexStep_inv inv guard taken

theorem step_woken {w : Tid} (inv : Inv s) (taken : step isMutex s a = some (s', es)) (here : .woken o w ∈ es) :
    (s'.kernel.thread w).stat = .ready ∧ ∃ rest, s.waiters o = w :: rest := by
  cases a with
  | thread op =>
    have silent : es = [] := by
      cases op <;> first
        | (cases taken <;> rfl)
        | (obtain ⟨k, _, same⟩ := Option.map_eq_some_iff.mp taken
           cases same
           rfl)
    rw [silent] at here
    cases here
  | block t q time =>
    simp only [step] at taken
    split at taken
    · contradiction
    · obtain ⟨k, _, same⟩ := Option.map_eq_some_iff.mp taken
      cases same
      cases here
  | release q =>
    simp only [step] at taken
    split at taken
    · contradiction
    · cases Option.some.inj taken
      simp only [List.mem_map, Option.mem_toList, Event.woken.injEq] at here
      obtain ⟨v, head, rfl, rfl⟩ := here
      obtain ⟨rest, list⟩ := List.head?_eq_some_iff.mp head
      exact ⟨head_woken inv.parked list, rest, list⟩
  | releaseAll q =>
    simp only [step] at taken
    split at taken
    · contradiction
    · obtain ⟨k, _, same⟩ := Option.map_eq_some_iff.mp taken
      cases same
      cases here
  | mutex b =>
    simp only [step] at taken
    split at taken
    · contradiction
    · obtain ⟨r, done, same⟩ := Option.map_eq_some_iff.mp taken
      cases same
      cases b with
      | take t m time =>
        rw [take_silent done] at here
        cases here
      | wake t =>
        obtain ⟨m, _, _, _, events⟩ := Mutex.return_cases done
        rw [events] at here
        cases here
      | release t m => exact (release_inv inv done).2 w here
      | timeout t =>
        obtain ⟨k, _, same⟩ := Option.map_eq_some_iff.mp done
        cases same
        cases here

theorem start_inv (start : Start s) : Inv s where
  parked o u here := by
    have empty := start.list o
    change s.kernel.list (.wait o) = [] at empty
    rw [empty] at here
    cases here
  sorted o _ := by
    rw [start.list o]
    exact List.Pairwise.nil
  stamped o u here := by
    rw [start.list o] at here
    cases here

theorem run_inv (run : RunWhere (machine isMutex) Guard tr s) : Inv s :=
  run.invariant (I := fun _ => Inv) (fun _ start => start_inv start)
    (fun _ _ _ _ _ _ inv guard taken => step_inv inv guard taken)

/-- The lists with RT_IPC_FLAG_PRIO are in order, and whoever a release takes off one is ready then and
was a waiter of the most urgent priority. -/
structure Ordered (isMutex : Nat → Bool) (s : State) : Prop where
  sorted : ∀ o, s.flag o = .prio → Sorted s.prio s.arrival (s.waiters o)
  urgent : ∀ a s' es o w, step isMutex s a = some (s', es) → .woken o w ∈ es → s.flag o = .prio →
    (s'.kernel.thread w).stat = .ready ∧ w ∈ s.waiters o ∧ ∀ u ∈ s.waiters o, s.prio w ≤ s.prio u

theorem prio_lists_sorted (run : RunWhere (machine isMutex) Guard tr s) : Ordered isMutex s where
  sorted := (run_inv run).sorted
  urgent := by
    intro a s' es o w taken here flag
    obtain ⟨ready, rest, list⟩ := step_woken (run_inv run) taken here
    have sorted := (run_inv run).sorted o flag
    rw [list] at sorted ⊢
    refine ⟨ready, List.mem_cons_self, ?_⟩
    intro u inside
    rcases List.mem_cons.mp inside with rfl | later
    · exact Nat.le_refl _
    · rcases (List.pairwise_cons.mp sorted).1 u later with less | ⟨same, _⟩
      · exact Nat.le_of_lt less
      · exact Nat.le_of_eq same

/-- Mutex 0, any other objects, and three threads of the priorities 5, 10 and 20. -/
def threeThreads : State :=
  ⟨⟨startedThreads (fun t => if t = 0 then 5 else 10 * t) 3, fun _ => Mutex.rtMutexInit .prio, fun _ => none⟩,
    fun _ => 0, 0⟩

def onlyZero (o : Nat) : Bool := o == 0

theorem threeThreads_start : Start threeThreads :=
  ⟨fun _ => ⟨.prio, rfl⟩, fun _ => rfl, fun _ => rfl⟩

/-- The guard where nobody that is suspended gets another priority. -/
def guardChecked (s : State) : Action → Bool
  | .thread (.changePriority t _) => decide ((s.kernel.thread t).stat ≠ .suspend)
  | .mutex (.take t m _) => (s.mutexes.mutex m).owner.all (fun owner =>
      decide ((s.kernel.thread owner).stat ≠ .suspend) || decide (s.prio owner ≤ s.prio t))
  | _ => true

theorem keepsPlace_awake (inv : Inv s) (awake : (s.kernel.thread t).stat ≠ .suspend) : s.KeepsPlace t p := by
  intro o _ front back whole
  refine absurd ?_ (inv.parked.out awake o)
  change t ∈ s.waiters o
  rw [whole]
  simp

theorem guardChecked_sound (inv : Inv s) (checked : guardChecked s a = true) : Guard s a := by
  unfold Guard
  split
  · rename_i t p
    exact keepsPlace_awake inv (of_decide_eq_true checked)
  · rename_i t m time
    intro owner owns _ _ _ higher
    simp only [guardChecked, owns, Option.all_some, Bool.or_eq_true, decide_eq_true_eq] at checked
    exact keepsPlace_awake inv (checked.resolve_right (Nat.not_le_of_lt higher))
  · trivial

theorem checked_run (run : Run ((machine isMutex).restrict guardChecked) tr s) :
    RunWhere (machine isMutex) Guard tr s := by
  induction run with
  | start hs => exact .start hs
  | step _ taken ih =>
    obtain ⟨checked, taken⟩ := restrict_step.mp taken
    exact .step ih (guardChecked_sound (run_inv ih) checked) taken

/-- The semaphore's waiters come in the wrong order, and the owner of the mutex is raised while it runs. -/
theorem prio_lists_sorted_boosted : ∃ tr s, RunWhere (machine onlyZero) Guard tr s ∧ s.waiters 1 = [1, 2] ∧
    s.prio 2 = 5 ∧ Ordered onlyZero s := by
  obtain ⟨tr, s, run, found⟩ := Run.reaches (M := (machine onlyZero).restrict guardChecked) threeThreads_start
    [.mutex (.take 2 0 0), .mutex (.take 0 0 (-1)), .thread (.changePriority 1 3), .block 2 1 10, .block 1 1 10]
    (fun s => decide (s.waiters 1 = [1, 2] ∧ s.prio 2 = 5)) (by decide +kernel)
  obtain ⟨list, boosted⟩ := of_decide_eq_true found
  have guarded := checked_run run
  exact ⟨tr, s, guarded, list, boosted, prio_lists_sorted guarded⟩

/-- A waiter is given a lower priority, or the second one a higher priority through the mutex it owns:
the release wakes thread 1 all the same. -/
theorem prio_lists_unsorted :
    (∃ tr s, Run (machine onlyZero) tr s ∧ s.flag 1 = .prio ∧ s.waiters 1 = [1, 2] ∧ s.prio 2 < s.prio 1 ∧
      ∃ s', step onlyZero s (.release 1) = some (s', [.woken 1 1])) ∧
    ∃ tr s, Run (machine onlyZero) tr s ∧ s.flag 1 = .prio ∧ s.waiters 1 = [1, 2] ∧ s.prio 2 < s.prio 1 ∧
      ∃ s', step onlyZero s (.release 1) = some (s', [.woken 1 1]) := by
  have wakes : ∀ s : State, s.waiters 1 = [1, 2] →
      ∃ s', step onlyZero s (.release 1) = some (s', [.woken 1 1]) := by
    intro s list
    refine ⟨s.withKernel (s.kernel.rtIpcListResume (.wait 1)), ?_⟩
    simp [step, onlyZero, list]
  constructor
  · obtain ⟨tr, s, run, found⟩ := Run.reaches (M := machine onlyZero) threeThreads_start
      [.block 1 1 10, .block 2 1 10, .thread (.changePriority 1 30)]
      (fun s => decide (s.flag 1 = .prio ∧ s.waiters 1 = [1, 2] ∧ s.prio 2 < s.prio 1)) (by decide +kernel)
    obtain ⟨flag, list, less⟩ := of_decide_eq_true found
    exact ⟨tr, s, run, flag, list, less, wakes s list⟩
  · obtain ⟨tr, s, run, found⟩ := Run.reaches (M := machine onlyZero) threeThreads_start
      [.mutex (.take 2 0 0), .block 1 1 10, .block 2 1 10, .mutex (.take 0 0 (-1))]
      (fun s => decide (s.flag 1 = .prio ∧ s.waiters 1 = [1, 2] ∧ s.prio 2 < s.prio 1)) (by decide +kernel)
    obtain ⟨flag, list, less⟩ := of_decide_eq_true found
    exact ⟨tr, s, run, flag, list, less, wakes s list⟩

end RtThread.PrioList
