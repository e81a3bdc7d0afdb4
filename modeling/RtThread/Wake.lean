import Mathlib.Data.Finset.Card
import RtThread.Wait

/-! Counting wake-ups. Objects that wake one waiter for every unit they gain keep, with
the wait list, a bound on the units that nobody has come for: while somebody waits,
there are at most as many as waiters already woken and still on their way. -/
namespace RtThread
open Kernel

/-- A caller in `W` that was woken with success and has not run since. -/
def Woken (k : Kernel) (W : Tid → Prop) (t : Tid) : Prop :=
  W t ∧ (k.thread t).stat = .ready ∧ (k.thread t).error = .eok

/-- `WaitInv` with `n` units available. -/
structure WakeInv (k : Kernel) (o : Nat) (W : Tid → Prop) (n : Nat) : Prop extends WaitInv k o W where
  woken : ∃ P : Finset Tid, (∀ t, t ∈ P ↔ Woken k W t) ∧ (k.list (.wait o) ≠ [] → n ≤ P.card)

namespace WakeInv
variable {k k' : Kernel} {t : Tid} {o q n : Nat} {W V : Tid → Prop}

theorem initial (empty : k.list (.wait o) = []) (nobody : ∀ t, ¬ W t) (n : Nat) : WakeInv k o W n := by
  refine ⟨⟨by simp [empty], ?_, by simp [empty], fun t h => absurd h (nobody t)⟩, ∅, ?_, by simp [empty]⟩
  · intro t; simp [empty, nobody]
  · intro t; simp [Woken, nobody]

theorem weaken {n' : Nat} (inv : WakeInv k o W n) (less : n' ≤ n) : WakeInv k o W n' := by
  obtain ⟨P, mem, bound⟩ := inv.woken
  exact ⟨inv.toWaitInv, P, mem, fun waits => Nat.le_trans less (bound waits)⟩

theorem congr (inv : WakeInv k o W n) (same : ∀ u, W u ↔ V u) : WakeInv k o V n := by
  obtain ⟨P, mem, bound⟩ := inv.woken
  exact ⟨inv.toWaitInv.congr same, P, fun u => by rw [mem, Woken, Woken, same], bound⟩

theorem frame (inv : WakeInv k o W n) (wait : WaitInv k' o V)
    (same : ∀ u, Woken k' V u ↔ Woken k W u)
    (list : k'.list (.wait o) ≠ [] → k.list (.wait o) ≠ []) : WakeInv k' o V n := by
  obtain ⟨P, mem, bound⟩ := inv.woken
  exact ⟨wait, P, fun u => (mem u).trans (same u).symm, fun waits => bound (list waits)⟩

theorem tick (inv : WakeInv k o W n) (now : Nat) : WakeInv { k with tick := now } o W n :=
  inv.frame ⟨inv.nodup, inv.listed, inv.pending, inv.live⟩ (fun _ => Iff.rfl) id

/-- A thread outside of the calls counted here changes. -/
theorem modify {f : Thread → Thread} (inv : WakeInv k o W n) (outside : ¬ W t)
    (stat : (f (k.thread t)).stat = (k.thread t).stat) : WakeInv (k.modify t f) o W n := by
  have away : t ∉ k.list (.wait o) := fun here => outside ((inv.listed t).mp here).1
  refine inv.frame (inv.toWaitInv.modify stat (fun here => absurd here away)) ?_ id
  intro u
  by_cases hu : u = t
  · subst hu; simp [Woken, outside]
  · simp [Woken, hu]

theorem leave (inv : WakeInv k o W n) (ready : (k.thread t).stat = .ready) :
    WakeInv k o (fun u => u ≠ t ∧ W u) (n - 1) := by
  obtain ⟨P, mem, bound⟩ := inv.woken
  refine ⟨inv.toWaitInv.leave ready, P.erase t, ?_, ?_⟩
  · intro u
    simp only [Finset.mem_erase, mem, Woken]
    tauto
  · intro waits
    have least := Finset.pred_card_le_card_erase (s := P) (a := t)
    have enough := bound waits
    omega

theorem leaveFailed (inv : WakeInv k o W n) (ready : (k.thread t).stat = .ready)
    (failed : (k.thread t).error ≠ .eok) : WakeInv k o (fun u => u ≠ t ∧ W u) n := by
  refine inv.frame (inv.toWaitInv.leave ready) ?_ id
  intro u
  by_cases hu : u = t
  · subst hu; simp [Woken, failed]
  · simp [Woken, hu]

theorem park (inv : WakeInv k o W n) (outside : ¬ W t) (wait : WaitInv k' o (fun u => u = t ∨ W u))
    (parked : (k'.thread t).stat = .suspend) (others : ∀ u, u ≠ t → k'.thread u = k.thread u) :
    WakeInv k' o (fun u => u = t ∨ W u) 0 := by
  obtain ⟨P, mem, _⟩ := inv.woken
  refine ⟨wait, P, ?_, fun _ => Nat.zero_le _⟩
  intro u
  rw [mem]
  by_cases hu : u = t
  · subst hu; simp [Woken, outside, parked]
  · simp [Woken, others u hu, hu]

theorem block {time : Int} {flag : IpcFlag} (inv : WakeInv k o W n) (outside : ¬ W t)
    (ready : (k.thread t).stat = .ready) (clean : (k.thread t).error = .eok)
    (started : (k.rtIpcListSuspend (.wait o) t flag).startWaitTimer t time = some k') :
    WakeInv k' o (fun u => u = t ∨ W u) 0 := by
  obtain ⟨wait, parked, others⟩ := inv.toWaitInv.blockReady ready clean started
  exact inv.park outside wait parked others

theorem blockOther {time : Int} {flag : IpcFlag} (inv : WakeInv k o W n) (outside : ¬ W t)
    (ready : (k.thread t).stat = .ready) (other : o ≠ q)
    (started : (k.rtIpcListSuspend (.wait q) t flag).startWaitTimer t time = some k') :
    WakeInv k' o W n := by
  have wait := inv.toWaitInv.blockOtherTimed ready other outside started
  obtain ⟨timer, rfl⟩ := startWaitTimer_some started
  refine inv.frame wait ?_ ?_
  · intro u
    by_cases hu : u = t
    · subst hu; simp [Woken, outside]
    · simp [Woken, hu, ipcSuspend_other ready flag hu]
  · rw [modify_list, ipcSuspend_list_other ready flag other,
      WaitInv.filter_absent _ (inv.toWaitInv.absent ready)]
    exact id

theorem resumeHead (inv : WakeInv k o W n) : WakeInv (k.rtIpcListResume (.wait o)) o W (n + 1) := by
  obtain ⟨P, mem, bound⟩ := inv.woken
  cases list : k.list (.wait o) with
  | nil =>
    simp only [rtIpcListResume, list]
    exact ⟨inv.toWaitInv, P, mem, fun waits => absurd list waits⟩
  | cons w rest =>
    have here : w ∈ k.list (.wait o) := by simp [list]
    obtain ⟨waits, suspended⟩ := (inv.listed w).mp here
    simp only [rtIpcListResume, list]
    refine ⟨inv.toWaitInv.resume suspended, insert w P, ?_, ?_⟩
    · intro u
      rw [Finset.mem_insert, mem]
      by_cases hu : u = w
      · subst hu
        simp [Woken, waits, resume_self suspended, Thread.awake, inv.pending u here]
      · simp [Woken, hu, resume_other suspended hu]
    · intro _
      have fresh : w ∉ P := by simp [mem, Woken, suspended]
      rw [Finset.card_insert_of_notMem fresh]
      exact Nat.succ_le_succ (bound (by simp [list]))

theorem resumeOther (inv : WakeInv k o W n) (other : WaitInv k q V)
    (apart : ∀ u, V u → ¬ W u) : WakeInv (k.rtIpcListResume (.wait q)) o W n := by
  cases list : k.list (.wait q) with
  | nil => simpa [rtIpcListResume, list] using inv
  | cons w rest =>
    have here : w ∈ k.list (.wait q) := by simp [list]
    obtain ⟨waits, suspended⟩ := (other.listed w).mp here
    simp only [rtIpcListResume, list]
    refine inv.frame (inv.toWaitInv.resume suspended) ?_ ?_
    · intro u
      by_cases hu : u = w
      · subst hu; simp [Woken, apart u waits]
      · simp [Woken, resume_other suspended hu]
    · rw [resume_wait suspended]
      intro some none
      simp [none] at some

theorem expire (inv : WakeInv k o W n) (expired : k.timerExpire t = some k') : WakeInv k' o W n := by
  obtain ⟨_, suspended, self, others, lists, _⟩ := timerExpire_some expired
  refine inv.frame (inv.toWaitInv.expire expired) ?_ ?_
  · intro u
    by_cases hu : u = t
    · subst hu; simp [Woken, self, suspended]
    · simp [Woken, others u hu]
  · rw [lists]
    intro some none
    simp [none] at some

theorem resumeAll (inv : WakeInv k o W n) (all : WaitInv k q V)
    (done : k.rtIpcListResumeAll (.wait q) = some k') : WakeInv k' o W n ∧ k'.list (.wait q) = [] := by
  obtain ⟨_, done', wait, _, empty, woken, others, _⟩ := inv.toWaitInv.resumeAll all
  cases Option.some.inj (done.symm.trans done')
  refine ⟨inv.frame wait ?_ ?_, empty⟩
  · intro u
    by_cases here : u ∈ k.list (.wait q)
    · simp [Woken, woken u here, all.suspended u here]
    · simp [Woken, others u here]
  · intro some none
    obtain ⟨u, here⟩ := List.exists_mem_of_ne_nil _ some
    obtain ⟨waits, suspended⟩ := (wait.listed u).mp here
    by_cases listed : u ∈ k.list (.wait q)
    · simp [woken u listed, Thread.awake] at suspended
    · rw [others u listed] at suspended
      have old := (inv.listed u).mpr ⟨waits, suspended⟩
      simp [none] at old

theorem idle (inv : WakeInv k o W n) (empty : k.list (.wait o) = []) (n' : Nat) : WakeInv k o W n' := by
  obtain ⟨P, mem, _⟩ := inv.woken
  exact ⟨inv.toWaitInv, P, mem, fun waits => absurd empty waits⟩

end WakeInv

/-- The callers of `W` other than `t`. -/
def Without (t : Tid) (W : Tid → Prop) (u : Tid) : Prop := u ≠ t ∧ W u

/-- An object with receivers on `.wait 0` and senders on `.wait 1`: `r` units to receive
and `w` units of room. -/
structure Sides (k : Kernel) (R S : Tid → Prop) (r w : Nat) : Prop where
  receivers : WakeInv k 0 R r
  senders : WakeInv k 1 S w
  apart : ∀ u, R u → ¬ S u

namespace Sides
variable {k k' : Kernel} {t : Tid} {R S R' S' : Tid → Prop} {r w : Nat}

theorem congr (sides : Sides k R S r w) (receivers : ∀ u, R u ↔ R' u) (senders : ∀ u, S u ↔ S' u) :
    Sides k R' S' r w :=
  ⟨sides.receivers.congr receivers, sides.senders.congr senders,
    fun u receives sends => sides.apart u ((receivers u).mpr receives) ((senders u).mpr sends)⟩

theorem weaken {r' w' : Nat} (sides : Sides k R S r w) (receivers : r' ≤ r) (senders : w' ≤ w) :
    Sides k R S r' w' :=
  ⟨sides.receivers.weaken receivers, sides.senders.weaken senders, sides.apart⟩

theorem without_iff {W : Tid → Prop} (outside : ¬ W t) (u : Tid) : W u ↔ Without t W u := by
  unfold Without
  constructor
  · exact fun inside => ⟨by rintro rfl; exact outside inside, inside⟩
  · exact And.right

theorem without_apart (sides : Sides k R S r w) : ∀ u, Without t R u → ¬ Without t S u :=
  fun u receives sends => sides.apart u receives.2 sends.2

theorem enter (sides : Sides k R S r w) (noReceiver : ¬ R t) (noSender : ¬ S t) :
    Sides k (Without t R) (Without t S) r w :=
  sides.congr (without_iff noReceiver) (without_iff noSender)

theorem enterSender (sides : Sides k R S r w) (sends : S t) (ready : (k.thread t).stat = .ready) :
    Sides k (Without t R) (Without t S) r (w - 1) :=
  ⟨sides.receivers.congr (without_iff fun receives => sides.apart t receives sends),
    sides.senders.leave ready, sides.without_apart⟩

theorem enterReceiver (sides : Sides k R S r w) (receives : R t) (ready : (k.thread t).stat = .ready) :
    Sides k (Without t R) (Without t S) (r - 1) w :=
  ⟨sides.receivers.leave ready, sides.senders.congr (without_iff (sides.apart t receives)),
    sides.without_apart⟩

theorem enterFailed (sides : Sides k R S r w) (ready : (k.thread t).stat = .ready)
    (failed : (k.thread t).error ≠ .eok) : Sides k (Without t R) (Without t S) r w :=
  ⟨sides.receivers.leaveFailed ready failed, sides.senders.leaveFailed ready failed,
    sides.without_apart⟩

theorem setError (sides : Sides k (Without t R) (Without t S) r w) (e : Err) :
    Sides (k.modify t (fun th => { th with error := e })) (Without t R) (Without t S) r w :=
  ⟨sides.receivers.modify (fun h => h.1 rfl) rfl, sides.senders.modify (fun h => h.1 rfl) rfl,
    sides.apart⟩

theorem blockSender {timeout : Int} {flag : IpcFlag} (sides : Sides k (Without t R) (Without t S) r w)
    (ready : (k.thread t).stat = .ready) (clean : (k.thread t).error = .eok)
    (started : (k.rtIpcListSuspend (.wait 1) t flag).startWaitTimer t timeout = some k') :
    Sides k' (Without t R) (fun u => u = t ∨ Without t S u) r 0 := by
  refine ⟨sides.receivers.blockOther (fun h => h.1 rfl) ready (by decide) started,
    sides.senders.block (fun h => h.1 rfl) ready clean started, ?_⟩
  rintro u receives (rfl | sends)
  · exact receives.1 rfl
  · exact sides.apart u receives sends

theorem blockReceiver {timeout : Int} {flag : IpcFlag}
    (sides : Sides k (Without t R) (Without t S) r w)
    (ready : (k.thread t).stat = .ready) (clean : (k.thread t).error = .eok)
    (started : (k.rtIpcListSuspend (.wait 0) t flag).startWaitTimer t timeout = some k') :
    Sides k' (fun u => u = t ∨ Without t R u) (Without t S) 0 w := by
  refine ⟨sides.receivers.block (fun h => h.1 rfl) ready clean started,
    sides.senders.blockOther (fun h => h.1 rfl) ready (by decide) started, ?_⟩
  rintro u (rfl | receives) sends
  · exact sends.1 rfl
  · exact sides.apart u receives sends

theorem wakeReceiver (sides : Sides k R S r w) :
    Sides (k.rtIpcListResume (.wait 0)) R S (r + 1) w :=
  ⟨sides.receivers.resumeHead, sides.senders.resumeOther sides.receivers.toWaitInv sides.apart,
    sides.apart⟩

theorem wakeSender (sides : Sides k R S r w) :
    Sides (k.rtIpcListResume (.wait 1)) R S r (w + 1) :=
  ⟨sides.receivers.resumeOther sides.senders.toWaitInv (fun u sends receives => sides.apart u receives sends),
    sides.senders.resumeHead, sides.apart⟩

theorem expire (sides : Sides k R S r w) (expired : k.timerExpire t = some k') : Sides k' R S r w :=
  ⟨sides.receivers.expire expired, sides.senders.expire expired, sides.apart⟩

theorem tick (sides : Sides k R S r w) (now : Nat) : Sides { k with tick := now } R S r w :=
  ⟨sides.receivers.tick now, sides.senders.tick now, sides.apart⟩

theorem resumeAll (sides : Sides k R S r w) (r' w' : Nat) :
    ∃ k', (k.rtIpcListResumeAll (.wait 0)).bind (fun k => k.rtIpcListResumeAll (.wait 1)) = some k' ∧
      Sides k' R S r' w' := by
  obtain ⟨middle, first, _⟩ := sides.receivers.toWaitInv.resumeAll sides.receivers.toWaitInv
  obtain ⟨receivers, noReceiver⟩ := sides.receivers.resumeAll sides.receivers.toWaitInv first
  obtain ⟨senders, _⟩ := sides.senders.resumeAll sides.receivers.toWaitInv first
  obtain ⟨k', second, _⟩ := senders.toWaitInv.resumeAll senders.toWaitInv
  obtain ⟨receivers', _⟩ := (receivers.idle noReceiver r').resumeAll senders.toWaitInv second
  obtain ⟨senders', noSender⟩ := senders.resumeAll senders.toWaitInv second
  exact ⟨k', Option.bind_eq_some_iff.mpr ⟨middle, first, second⟩, receivers',
    senders'.idle noSender w', sides.apart⟩

end Sides

end RtThread
