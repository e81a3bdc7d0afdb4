import RtThread.Mailbox
import RtThread.MessageQueue

/-! Lost wake-ups: neither a mailbox nor a message queue leaves a waiter behind. Each
wakes one waiter for a unit it gains, and a third party may take that unit first. -/
namespace RtThread
open Transition Linked

/-- `messages` queued for the callers `R` on `.wait 0`, `room` left for the callers `S`
on `.wait 1`. A caller woken by a timeout or by a reset has an error set, so the callers
of `Woken` are those resumed by the other side that have not run yet. -/
structure NoLostWakeup (k : Kernel) (R S : Tid → Prop) (messages room : Nat) : Prop where
  receivers : ∃ P : Finset Tid, (∀ t, t ∈ P ↔ Woken k R t) ∧
    ((∃ t, R t ∧ (k.thread t).stat = .suspend) → messages ≤ P.card)
  senders : ∃ P : Finset Tid, (∀ t, t ∈ P ↔ Woken k S t) ∧
    ((∃ t, S t ∧ (k.thread t).stat = .suspend) → room ≤ P.card)

theorem WakeInv.bounded {k : Kernel} {o n : Nat} {W : Tid → Prop} (inv : WakeInv k o W n) :
    ∃ P : Finset Tid, (∀ t, t ∈ P ↔ Woken k W t) ∧
      ((∃ t, W t ∧ (k.thread t).stat = .suspend) → n ≤ P.card) := by
  obtain ⟨P, mem, bound⟩ := inv.woken
  refine ⟨P, mem, ?_⟩
  rintro ⟨t, suspended⟩
  exact bound (List.ne_nil_of_mem ((inv.listed t).mpr suspended))

theorem Sides.noLostWakeup {k : Kernel} {R S : Tid → Prop} {r w : Nat} (sides : Sides k R S r w) :
    NoLostWakeup k R S r w :=
  ⟨sides.receivers.bounded, sides.senders.bounded⟩

/-- In every run of a mailbox of `n` slots and of a message queue of `n` nodes. -/
theorem no_lost_wakeup (n : Nat) :
    (∀ tr s, Run (Mailbox.machine n) tr s →
      NoLostWakeup s.kernel (Mailbox.Receiver s) (Mailbox.Sender s) s.entry (s.size - s.entry)) ∧
    (∀ tr s, Run (MessageQueue.machine n) tr s → ∃ frees, Chain s.next s.msgQueueFree frees ∧
      NoLostWakeup s.kernel (MessageQueue.Receiver s) (MessageQueue.Sender s) s.entry frees.length) := by
  constructor
  · intro tr s run
    exact (Mailbox.run_inv run).sides.noLostWakeup
  · intro tr s run
    obtain ⟨frees, queued, d, store, sides⟩ := MessageQueue.run_inv run
    exact ⟨frees, store.pool.freeChain, sides.noLostWakeup⟩

/-- Threads 0 and 1 wait for a message; the one that comes wakes thread 0 alone. -/
theorem no_lost_wakeup_two_receivers :
    (∃ s : Mailbox.State, s.entry = 1 ∧ Mailbox.Receiver s 1 ∧ (s.kernel.thread 1).stat = .suspend ∧
      NoLostWakeup s.kernel (Mailbox.Receiver s) (Mailbox.Sender s) s.entry (s.size - s.entry)) ∧
    (∃ s : MessageQueue.State, s.entry = 1 ∧ MessageQueue.Receiver s 1 ∧
      (s.kernel.thread 1).stat = .suspend ∧ ∃ frees, Chain s.next s.msgQueueFree frees ∧
      NoLostWakeup s.kernel (MessageQueue.Receiver s) (MessageQueue.Sender s) s.entry frees.length) := by
  let k := Kernel.startedThreads (fun _ => 10) 3
  constructor
  · have start : Mailbox.Start 1 ⟨k, fun _ => 0, 1, 0, 0, 0, .fifo, fun _ => .idle⟩ :=
      ⟨rfl, by decide, by decide, rfl, rfl, rfl, by decide, by decide, fun _ => rfl⟩
    obtain ⟨tr, s, run, found⟩ := Run.reaches (M := Mailbox.machine 1) start
      [.recv 0 5, .recv 1 (-1), .send 2 7 0]
      (fun s => decide (s.entry = 1) && (s.call 1).isReceiving &&
        decide ((s.kernel.thread 1).stat = .suspend)) (by decide)
    simp only [Bool.and_eq_true, decide_eq_true_eq] at found
    exact ⟨s, found.1.1, found.1.2, found.2, (no_lost_wakeup 1).1 tr s run⟩
  · let init := MessageQueue.initFree (fun _ => none) 1
    have start : MessageQueue.Start 1 ⟨k, init.1, fun _ _ => 0, 4, 1, 0, none, none, init.2, .fifo,
        fun _ => .idle⟩ :=
      ⟨rfl, by decide, ⟨fun _ => none, rfl⟩, rfl, rfl, rfl, by decide, by decide, fun _ => rfl⟩
    obtain ⟨tr, s, run, found⟩ := Run.reaches (M := MessageQueue.machine 1) start
      [.recv 0 4 5, .recv 1 4 (-1), .send 2 [7] 0, .run 2, .run 2]
      (fun s => decide (s.entry = 1) && (s.call 1).isReceiving &&
        decide ((s.kernel.thread 1).stat = .suspend)) (by decide)
    simp only [Bool.and_eq_true, decide_eq_true_eq] at found
    exact ⟨s, found.1.1, found.1.2, found.2, (no_lost_wakeup 1).2 tr s run⟩

end RtThread
