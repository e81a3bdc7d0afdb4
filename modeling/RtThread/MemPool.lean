import RtThread.Linked
import RtThread.Run
import RtThread.Wake

/-! Memory pools: rt_mp_init, rt_mp_create, rt_mp_alloc and rt_mp_free over every order
of their interrupt-disabled sections. Waiters are on `.wait 0`. The first word of a
block is the address of the next free one, or of the pool while the block is in use.
The pool and its blocks lie inside of the address space, so addresses do not wrap. -/
namespace RtThread.MemPool
open Kernel Transition Linked

def sizeofPtr : Nat := 4

/-- `word a` is the word at address `a`. `wait t`: thread `t` is in the rt_schedule call of
rt_mp_alloc, with its argument and `before_sleep`. `held` are the blocks that callers have
got and not given back. -/
structure State where
  kernel : Kernel
  self : Nat
  startAddress : Nat
  blockSize : Nat
  blockTotalCount : Nat
  blockFreeCount : Nat
  blockList : Nat
  word : Nat → Nat
  wait : Tid → Option (Int × Nat)
  held : List Nat

inductive Event where
  | allocated (t : Tid) (block : Nat)
  | failed (t : Tid) (e : Err)
  | freed (block : Nat)

inductive Action where
  | alloc (t : Tid) (time : Int)
  | wake (t : Tid)
  | free (block : Nat)
  | timeout (t : Tid)
  | tick

def stride (blockSize : Nat) : Nat := blockSize + sizeofPtr

/-- The loop over the blocks in rt_mp_init and rt_mp_create, and the write behind it. -/
def linkBlocks (word : Nat → Nat) (start step total : Nat) : Nat → Nat :=
  let linked := (List.range total).foldl
    (fun word offset => Function.update word (start + offset * step) (start + (offset + 1) * step)) word
  Function.update linked (start + (total - 1) * step) 0

def newPool (k : Kernel) (word : Nat → Nat) (self start blockSize total : Nat) : State where
  kernel := k
  self := self
  startAddress := start
  blockSize := blockSize
  blockTotalCount := total
  blockFreeCount := total
  blockList := start
  word := linkBlocks word start (stride blockSize) total
  wait := fun _ => none
  held := []

/- An aligned block size of 2^32 - 4 makes the divisor 0, and so does division by 0 the
result here. -/
def rtMpInit (k : Kernel) (word : Nat → Nat) (self start size blockSize : Nat) : Option State :=
  if start ≠ 0 ∧ 0 < size ∧ 0 < blockSize then
    let blockSize := rtAlign blockSize
    some (newPool k word self start blockSize (rtAlignDown size / (stride blockSize % 2 ^ 32)))
  else none

/- `memory size` is the answer of rt_malloc. When the product does not fit in 32 bits the
loop writes outside of the memory it got, which has no defined result. -/
def rtMpCreate (k : Kernel) (word : Nat → Nat) (self : Nat) (memory : Nat → Nat)
    (blockCount blockSize : Nat) : Option State :=
  if 0 < blockCount ∧ 0 < blockSize then
    let blockSize := rtAlign blockSize
    let start := memory (stride blockSize * blockCount % 2 ^ 32)
    if start = 0 then none
    else if stride blockSize * blockCount < 2 ^ 32 then
      some (newPool k word self start blockSize blockCount)
    else none
  else none

def State.goto (s : State) (t : Tid) (w : Option (Int × Nat)) : State :=
  { s with wait := Function.update s.wait t w }

/-- rt_thread_suspend, and rt_list_insert_after behind the head of the wait list. -/
def suspendFirst (k : Kernel) (t : Tid) : Kernel :=
  (k.rtThreadSuspend t).1.rtListInsertAfter (.wait 0) t

/-- The end of rt_mp_alloc, once there is a block. -/
def takeBlock (s : State) (t : Tid) : Option (State × List Event) :=
  let blockPtr := s.blockList
  if blockPtr = 0 then none
  else
    some ({ s.goto t none with
      blockFreeCount := s.blockFreeCount - 1
      blockList := s.word blockPtr
      word := Function.update s.word blockPtr s.self
      held := (blockPtr + sizeofPtr) :: s.held }, [.allocated t (blockPtr + sizeofPtr)])

/-- From the test of the while loop on. -/
def allocLoop (s : State) (t : Tid) (time : Int) (beforeSleep : Nat) : Option (State × List Event) :=
  if s.blockFreeCount = 0 then
    if time = 0 then some (s.goto t none, [.failed t .etimeout])
    else if (s.kernel.thread t).stat ≠ .ready then none
    else
      let k := s.kernel.modify t (fun th => { th with error := .eok })
      ((suspendFirst k t).startWaitTimer t time).map (fun k =>
        ({ s.goto t (some (time, if 0 < time then s.kernel.tick else beforeSleep)) with kernel := k }, []))
  else takeBlock s t

/- A caller that does not block may be an interrupt handler, which then counts as a
caller of its own. -/
def rtMpAlloc (s : State) (t : Tid) (time : Int) : Option (State × List Event) :=
  match s.wait t with
  | some _ => none
  | none => allocLoop s t time 0

/-- A blocked caller after rt_schedule has come back to it. -/
def allocReturn (s : State) (t : Tid) : Option (State × List Event) :=
  match s.wait t with
  | none => none
  | some (time, beforeSleep) =>
    let th := s.kernel.thread t
    if th.stat ≠ .ready then none
    else if th.error ≠ .eok then some (s.goto t none, [.failed t th.error])
    else allocLoop s t (remainingTime time beforeSleep s.kernel.tick) beforeSleep

/-- Set the error of the first waiter and resume it. -/
def resumeFirst (k : Kernel) : Kernel :=
  match k.list (.wait 0) with
  | [] => k
  | t :: _ => ((k.modify t (fun th => { th with error := .eok })).rtThreadResume t).1

/- The pool is the one that the header names: nothing is said here about a block whose
header names another. -/
def rtMpFree (s : State) (block : Nat) : Option (State × List Event) :=
  if block = 0 then some (s, [])
  else
    let blockPtr := block - sizeofPtr
    if s.word blockPtr ≠ s.self then none
    else
      some ({ s with
        blockFreeCount := s.blockFreeCount + 1
        word := Function.update s.word blockPtr s.blockList
        blockList := blockPtr
        held := s.held.erase block
        kernel := resumeFirst s.kernel }, [.freed block])

def step (s : State) : Action → Option (State × List Event)
  | .alloc t time => rtMpAlloc s t time
  | .wake t => allocReturn s t
  | .free block => if block = 0 ∨ block ∈ s.held then rtMpFree s block else none
  | .timeout t => (s.kernel.timerExpire t).map (fun k => ({ s with kernel := k }, []))
  | .tick => some ({ s with kernel := { s.kernel with tick := (s.kernel.tick + 1) % 2 ^ 32 } }, [])

def headers (s : State) : List Nat :=
  (List.range s.blockTotalCount).map (fun i => s.startAddress + i * stride s.blockSize)

def blocks (s : State) : List Nat := (headers s).map (· + sizeofPtr)

/-- After one of the two set-up functions, with the blocks `all`, of which there is at
least one, and no thread waiting. -/
def Start (all : List Nat) (s : State) : Prop :=
  s.kernel.list (.wait 0) = [] ∧ 0 < s.blockTotalCount ∧ blocks s = all ∧
    ((∃ k word self start size blockSize, rtMpInit k word self start size blockSize = some s) ∨
      ∃ k word self memory count blockSize, rtMpCreate k word self memory count blockSize = some s)

def machine (all : List Nat) : Machine State Action Event where
  start := Start all
  step := step

/-- A word read as a link; 0 is RT_NULL. -/
def link (a : Nat) : Option Nat := if a = 0 then none else some a

def Event.apply (held : List Nat) : Event → List Nat
  | .allocated _ block => block :: held
  | .freed block => held.erase block
  | .failed .. => held

/-- Blocks allocated and not freed, the last one first. -/
def outstanding (tr : List Event) : List Nat := tr.foldl Event.apply []

/-- `frees` are the headers met from `blockList` on. -/
structure Store (all : List Nat) (tr : List Event) (s : State) (frees : List Nat) : Prop where
  chain : Chain (fun a => link (s.word a)) (link s.blockList) frees
  count : frees.length = s.blockFreeCount
  parts : (frees.map (· + sizeofPtr) ++ s.held).Perm (blocks s)
  owner : ∀ b ∈ s.held, s.word (b - sizeofPtr) = s.self
  history : s.held = outstanding tr
  base : s.startAddress ≠ 0
  fixed : blocks s = all

def waits (s : State) (t : Tid) : Prop := (s.wait t).isSome

structure Inv (all : List Nat) (tr : List Event) (s : State) : Prop where
  wake : WakeInv s.kernel 0 (waits s) s.blockFreeCount
  store : ∃ frees, Store all tr s frees

variable {tr : List Event} {s s' : State} {es : List Event} {t : Tid} {frees : List Nat}
  {all : List Nat}

theorem link_some {a b : Nat} (linked : link a = some b) : a = b ∧ b ≠ 0 := by
  unfold link at linked
  split at linked
  · contradiction
  · rename_i some_
    cases Option.some.inj linked
    exact ⟨rfl, some_⟩

theorem link_update (word : Nat → Nat) (n v : Nat) :
    (fun a => link (Function.update word n v a)) =
      Function.update (fun a => link (word a)) n (link v) := by
  funext a
  simp only [Function.update_apply]
  split <;> rfl

theorem outstanding_append (tr : List Event) (e : Event) :
    outstanding (tr ++ [e]) = e.apply (outstanding tr) := by
  simp [outstanding]

theorem headers_nodup (s : State) : (headers s).Nodup := by
  apply List.Nodup.map _ List.nodup_range
  intro i j same
  have strides : i * stride s.blockSize = j * stride s.blockSize := Nat.add_left_cancel same
  exact Nat.eq_of_mul_eq_mul_right (by unfold stride sizeofPtr; omega) strides

theorem blocks_nodup (s : State) : (blocks s).Nodup :=
  (headers_nodup s).map (fun _ _ same => Nat.add_right_cancel same)

theorem Store.nodup (store : Store all tr s frees) : (frees.map (· + sizeofPtr) ++ s.held).Nodup :=
  store.parts.nodup_iff.mpr (blocks_nodup s)

theorem Store.frees_nodup (store : Store all tr s frees) : frees.Nodup :=
  List.Nodup.of_map _ (List.nodup_append.mp store.nodup).1

theorem Store.held_header (store : Store all tr s frees) {b : Nat} (held : b ∈ s.held) :
    b - sizeofPtr + sizeofPtr = b ∧ b - sizeofPtr ∉ frees ∧ b - sizeofPtr ≠ 0 := by
  obtain ⟨_, _, apart⟩ := List.nodup_append.mp store.nodup
  have inside : b ∈ blocks s := store.parts.subset (List.mem_append_right _ held)
  obtain ⟨h, isHeader, rfl⟩ := List.mem_map.mp inside
  refine ⟨by simp, ?_, ?_⟩
  · intro free
    exact apart _ (List.mem_map_of_mem free) _ held (by simp)
  · obtain ⟨i, _, rfl⟩ := List.mem_map.mp isHeader
    have base := store.base
    simp only [Nat.add_sub_cancel]
    omega

/-- The first free block goes to a caller. -/
theorem Store.take {k : Kernel} {w : Tid → Option (Int × Nat)} {b : Nat} {rest : List Nat}
    (store : Store all tr s (b :: rest)) :
    s.blockList = b ∧ b ≠ 0 ∧ b + sizeofPtr ∉ s.held ∧
      Store all (tr ++ [.allocated t (b + sizeofPtr)]) { s with
        kernel := k
        wait := w
        blockFreeCount := s.blockFreeCount - 1
        blockList := s.word b
        word := Function.update s.word b s.self
        held := (b + sizeofPtr) :: s.held } rest := by
  obtain ⟨head, chain⟩ := store.chain.cons_inv
  obtain ⟨same, nonzero⟩ := link_some head
  obtain ⟨_, _, apart⟩ := List.nodup_append.mp store.nodup
  have fresh : b + sizeofPtr ∉ s.held := fun held => apart _ (by simp) _ held rfl
  have absent := (List.nodup_cons.mp store.frees_nodup).1
  have count := store.count
  rw [List.length_cons] at count
  refine ⟨same, nonzero, fresh, ?_, ?_, ?_, ?_, ?_, store.base, store.fixed⟩
  · rw [link_update]
    exact chain.frame absent
  · change rest.length = s.blockFreeCount - 1
    omega
  · refine List.Perm.trans ?_ store.parts
    exact List.perm_middle
  · intro c held
    rcases List.mem_cons.mp held with rfl | held
    · simp
    · have other : c - sizeofPtr ≠ b := by
        intro same
        exact (store.held_header held).2.1 (by simp [same])
      simp only [Function.update_of_ne other]
      exact store.owner c held
  · rw [outstanding_append, ← store.history]
    rfl

theorem Store.give {k : Kernel} {b : Nat} (store : Store all tr s frees) (held : b ∈ s.held) :
    Store all (tr ++ [.freed b]) { s with
      blockFreeCount := s.blockFreeCount + 1
      word := Function.update s.word (b - sizeofPtr) s.blockList
      blockList := b - sizeofPtr
      held := s.held.erase b
      kernel := k } ((b - sizeofPtr) :: frees) := by
  obtain ⟨pointer, outside, nonzero⟩ := store.held_header held
  obtain ⟨_, heldNodup, _⟩ := List.nodup_append.mp store.nodup
  constructor
  · rw [link_update, show link (b - sizeofPtr) = some (b - sizeofPtr) from if_neg nonzero]
    exact store.chain.push outside
  · simp [store.count]
  · refine List.Perm.trans ?_ store.parts
    rw [List.map_cons, pointer, List.cons_append]
    exact List.perm_middle.symm.trans ((List.perm_cons_erase held).symm.append_left _)
  · intro c still
    obtain ⟨differs, old⟩ := heldNodup.mem_erase_iff.mp still
    have other : c - sizeofPtr ≠ b - sizeofPtr := by
      intro same
      apply differs
      rw [← (store.held_header old).1, ← pointer, same]
    simp only [Function.update_of_ne other]
    exact store.owner c old
  · rw [outstanding_append, ← store.history]
    rfl
  · exact store.base
  · exact store.fixed

theorem Store.keep {k : Kernel} {wait : Tid → Option (Int × Nat)} (store : Store all tr s frees) :
    Store all tr { s with kernel := k, wait := wait } frees :=
  ⟨store.chain, store.count, store.parts, store.owner, store.history, store.base, store.fixed⟩

theorem Store.fail {e : Err} (store : Store all tr s frees) : Store all (tr ++ [.failed t e]) s frees :=
  ⟨store.chain, store.count, store.parts, store.owner, by rw [outstanding_append, ← store.history]; rfl,
    store.base, store.fixed⟩

theorem suspendFirst_effect {k : Kernel} (ready : (k.thread t).stat = .ready) :
    (suspendFirst k t).thread t = (k.thread t).parked ∧
      (∀ u, u ≠ t → (suspendFirst k t).thread u = k.thread u) ∧
      (suspendFirst k t).list (.wait 0) = t :: (k.list (.wait 0)).filter (· ≠ t) := by
  unfold suspendFirst
  rw [suspend_ready k t ready]
  refine ⟨by simp [rtTimerStop, Thread.parked], ?_, by simp [rtTimerStop, rtListInsertAfter]⟩
  intro u other
  simp [rtTimerStop, other]

theorem suspendFirst_wake {k k' : Kernel} {W : Tid → Prop} {n : Nat} {time : Int} (wake : WakeInv k 0 W n)
    (outside : ¬ W t) (ready : (k.thread t).stat = .ready) (clean : (k.thread t).error = .eok)
    (started : (suspendFirst k t).startWaitTimer t time = some k') :
    WakeInv k' 0 (fun u => u = t ∨ W u) 0 := by
  obtain ⟨self, others, list⟩ := suspendFirst_effect ready
  obtain ⟨timer, rfl⟩ := startWaitTimer_some started
  have others' : ∀ u, u ≠ t →
      ((suspendFirst k t).modify t (fun th => { th with timer := timer })).thread u = k.thread u := by
    intro u other
    rw [modify_other _ _ _ _ other, others u other]
  apply wake.park outside
  · apply wake.toWaitInv.park others'
    · simp [self, Thread.parked]
    · simpa [self, Thread.parked] using clean
    · intro u
      simp only [modify_list, list, List.mem_cons, List.mem_filter, decide_eq_true_eq]
      tauto
    · rw [modify_list, list]
      exact List.nodup_cons.mpr ⟨by simp, wake.nodup.filter _⟩
  · simp [self, Thread.parked]
  · exact others'

theorem resumeFirst_eq {W : Tid → Prop} {k : Kernel} (wait : WaitInv k 0 W) :
    resumeFirst k = k.rtIpcListResume (.wait 0) := by
  unfold resumeFirst rtIpcListResume
  cases list : k.list (.wait 0) with
  | nil => rfl
  | cons w rest =>
    have clean := wait.pending w (by simp [list])
    have same : k.modify w (fun th => { th with error := .eok }) = k := by
      simp only [Kernel.modify, ← clean]
      rw [Function.update_eq_self]
    simp only [same]

theorem waits_goto {w : Option (Int × Nat)} (u : Tid) :
    waits (s.goto t w) u ↔ (u = t ∧ w.isSome) ∨ (u ≠ t ∧ waits s u) := by
  simp only [waits, State.goto, Function.update_apply]
  split <;> simp_all

theorem allocLoop_inv {time : Int} {beforeSleep : Nat}
    (wake : WakeInv s.kernel 0 (fun u => u ≠ t ∧ waits s u) (s.blockFreeCount - 1))
    (store : Store all tr s frees) (taken : allocLoop s t time beforeSleep = some (s', es)) :
    Inv all (tr ++ es) s' ∧ ∀ u b, .allocated u b ∈ es → b ∈ blocks s ∧ b ∉ s.held := by
  unfold allocLoop at taken
  split at taken
  · rename_i empty
    split at taken
    · cases Option.some.inj taken
      refine ⟨⟨?_, frees, store.fail.keep⟩, by simp⟩
      have none_ : s.blockFreeCount ≤ s.blockFreeCount - 1 := by omega
      refine (wake.weaken none_).congr (fun u => ?_)
      simp [waits_goto]
    · split at taken
      · contradiction
      · rename_i ready
        rw [not_not] at ready
        obtain ⟨k', started, result⟩ := Option.map_eq_some_iff.mp taken
        cases result
        rw [List.append_nil]
        refine ⟨⟨?_, frees, store.keep⟩, by simp⟩
        have cleared := wake.modify (f := fun th => { th with error := .eok }) (t := t) (by simp) rfl
        have blocked := suspendFirst_wake cleared (by simp) (by simpa using ready) (by simp) started
        have none_ : s.blockFreeCount ≤ 0 := by omega
        refine (blocked.weaken none_).congr (fun u => ?_)
        change _ ↔ waits (s.goto t (some _)) u
        rw [waits_goto]
        simp
  · rename_i some_
    simp only [takeBlock] at taken
    split at taken
    · contradiction
    · cases Option.some.inj taken
      cases frees with
      | nil => exact absurd store.count.symm some_
      | cons b rest =>
        obtain ⟨same, _, fresh, taken'⟩ := store.take (k := s.kernel)
          (w := Function.update s.wait t none) (t := t)
        subst same
        refine ⟨⟨?_, rest, taken'⟩, ?_⟩
        · refine wake.congr (fun u => ?_)
          change _ ↔ waits (s.goto t none) u
          simp [waits_goto]
        · intro u c shown
          simp only [List.mem_singleton, Event.allocated.injEq] at shown
          rw [shown.2]
          exact ⟨store.parts.subset (by simp), fresh⟩

theorem enter (inv : Inv all tr s) (idle : s.wait t = none) :
    WakeInv s.kernel 0 (fun u => u ≠ t ∧ waits s u) (s.blockFreeCount - 1) := by
  refine (inv.wake.weaken (Nat.sub_le _ 1)).congr (fun u => ?_)
  constructor
  · intro waiting
    refine ⟨?_, waiting⟩
    rintro rfl
    simp [waits, idle] at waiting
  · exact And.right

theorem alloc_inv {time : Int} (inv : Inv all tr s) (taken : rtMpAlloc s t time = some (s', es)) :
    Inv all (tr ++ es) s' ∧ ∀ u b, .allocated u b ∈ es → b ∈ blocks s ∧ b ∉ s.held := by
  obtain ⟨frees, store⟩ := inv.store
  unfold rtMpAlloc at taken
  split at taken
  · contradiction
  · rename_i idle
    exact allocLoop_inv (enter inv idle) store taken

theorem allocReturn_inv (inv : Inv all tr s) (taken : allocReturn s t = some (s', es)) :
    Inv all (tr ++ es) s' ∧ ∀ u b, .allocated u b ∈ es → b ∈ blocks s ∧ b ∉ s.held := by
  obtain ⟨frees, store⟩ := inv.store
  unfold allocReturn at taken
  split at taken
  · contradiction
  · dsimp only at taken
    split at taken
    · contradiction
    · rename_i ready
      rw [not_not] at ready
      split at taken
      · rename_i failed
        cases Option.some.inj taken
        refine ⟨⟨?_, frees, store.fail.keep⟩, by simp⟩
        refine (inv.wake.leaveFailed ready failed).congr (fun u => ?_)
        simp [waits_goto]
      · exact allocLoop_inv (inv.wake.leave ready) store taken

theorem free_inv {b : Nat} (inv : Inv all tr s) (held : b ∈ s.held)
    (taken : rtMpFree s b = some (s', es)) : Inv all (tr ++ es) s' := by
  obtain ⟨frees, store⟩ := inv.store
  have some_ : b ≠ 0 := by
    rintro rfl
    exact (store.held_header held).2.2 rfl
  simp only [rtMpFree, some_, store.owner b held, if_false, ne_eq, not_true_eq_false] at taken
  cases Option.some.inj taken
  refine ⟨?_, _, store.give held⟩
  rw [resumeFirst_eq inv.wake.toWaitInv]
  exact inv.wake.resumeHead

theorem linkLoop_word (word : Nat → Nat) {start d i total : Nat} (positive : 0 < d) (inside : i < total) :
    (List.range total).foldl (fun word offset => Function.update word (start + offset * d)
      (start + (offset + 1) * d)) word (start + i * d) = start + (i + 1) * d := by
  induction total with
  | zero => cases inside
  | succ n ih =>
    simp only [List.range_succ, List.foldl_append, List.foldl_cons, List.foldl_nil]
    rcases Nat.lt_succ_iff_lt_or_eq.mp inside with before | rfl
    · rw [Function.update_of_ne, ih before]
      intro same
      have equal := Nat.eq_of_mul_eq_mul_right positive (Nat.add_left_cancel same)
      omega
    · rw [Function.update_self]

theorem linkBlocks_word (word : Nat → Nat) {start d i total : Nat} (positive : 0 < d) (inside : i < total) :
    linkBlocks word start d total (start + i * d) =
      if i + 1 < total then start + (i + 1) * d else 0 := by
  simp only [linkBlocks, Function.update_apply]
  split
  · rename_i same
    have equal := Nat.eq_of_mul_eq_mul_right positive (Nat.add_left_cancel same)
    rw [if_neg (by omega)]
  · rename_i other
    have notLast : i ≠ total - 1 := by
      rintro rfl
      exact other rfl
    rw [linkLoop_word word positive inside, if_pos (by omega)]

theorem linkBlocks_chain (word : Nat → Nat) {start d total : Nat} (positive : 0 < d)
    (nonzero : start ≠ 0) (i k : Nat) (rest : i + k = total) :
    Chain (fun a => link (linkBlocks word start d total a))
      (if i < total then some (start + i * d) else none)
      ((List.range' i k).map (fun j => start + j * d)) := by
  induction k generalizing i with
  | zero =>
    rw [if_neg (by omega)]
    exact .nil
  | succ k ih =>
    rw [if_pos (by omega), List.range'_succ, List.map_cons]
    apply Chain.cons
    have next := ih (i + 1) (by omega)
    rw [linkBlocks_word word positive (by omega)]
    split at next
    · rename_i more
      rw [if_pos more, link, if_neg (by omega)]
      exact next
    · rename_i last
      rw [if_neg last]
      exact next

theorem newPool_store {k : Kernel} {word : Nat → Nat} {self start blockSize total : Nat}
    (nonzero : start ≠ 0) (some_ : 0 < total) :
    Store (blocks (newPool k word self start blockSize total)) [] (newPool k word self start blockSize total)
      (headers (newPool k word self start blockSize total)) := by
  constructor
  · have chain := linkBlocks_chain word (d := stride blockSize) (by unfold stride sizeofPtr; omega)
      nonzero 0 total (Nat.zero_add _)
    rw [if_pos some_, ← List.range_eq_range', Nat.zero_mul, Nat.add_zero] at chain
    change Chain _ (link start) _
    rw [link, if_neg nonzero]
    exact chain
  · simp [headers, newPool]
  · simp only [newPool, List.append_nil]
    exact List.Perm.refl _
  · intro b held
    cases held
  · rfl
  · exact nonzero
  · rfl

theorem start_inv (start : Start all s) : Inv all [] s := by
  obtain ⟨empty, some_, rfl, setUp⟩ := start
  have pool : ∃ k word self start blockSize total,
      start ≠ 0 ∧ s = newPool k word self start blockSize total := by
    rcases setUp with ⟨k, word, self, start, size, blockSize, done⟩ |
      ⟨k, word, self, memory, count, blockSize, done⟩
    · simp only [rtMpInit] at done
      split at done
      · rename_i checked
        exact ⟨_, _, _, _, _, _, checked.1, (Option.some.inj done).symm⟩
      · contradiction
    · simp only [rtMpCreate] at done
      split at done
      · split at done
        · contradiction
        · rename_i got
          split at done
          · exact ⟨_, _, _, _, _, _, got, (Option.some.inj done).symm⟩
          · contradiction
      · contradiction
  obtain ⟨k, word, self, start, blockSize, total, nonzero, rfl⟩ := pool
  exact ⟨.initial empty (by simp [waits, newPool]) _, _, newPool_store nonzero some_⟩

theorem step_inv {a : Action} (inv : Inv all tr s) (taken : step s a = some (s', es)) :
    Inv all (tr ++ es) s' ∧ ∀ u b, .allocated u b ∈ es → b ∈ blocks s ∧ b ∉ s.held := by
  cases a with
  | alloc t time => exact alloc_inv inv taken
  | wake t => exact allocReturn_inv inv taken
  | free b =>
    simp only [step] at taken
    split at taken
    · rename_i allowed
      rcases allowed with rfl | held
      · cases Option.some.inj taken
        rw [List.append_nil]
        exact ⟨inv, by simp⟩
      · refine ⟨free_inv inv held taken, ?_⟩
        simp only [rtMpFree] at taken
        split at taken
        · cases Option.some.inj taken
          simp
        · split at taken
          · contradiction
          · cases Option.some.inj taken
            simp
    · contradiction
  | timeout t =>
    obtain ⟨k, expired, result⟩ := Option.map_eq_some_iff.mp taken
    cases result
    obtain ⟨frees, store⟩ := inv.store
    rw [List.append_nil]
    exact ⟨⟨inv.wake.expire expired, frees, store.keep⟩, by simp⟩
  | tick =>
    cases Option.some.inj taken
    obtain ⟨frees, store⟩ := inv.store
    rw [List.append_nil]
    exact ⟨⟨inv.wake.tick _, frees, store.keep⟩, by simp⟩

theorem run_inv (run : Run (machine all) tr s) : Inv all tr s :=
  run.invariant (fun _ start => start_inv start) (fun _ _ _ _ _ inv taken => (step_inv inv taken).1)

/-- The pool of the blocks `all` in a state reached with history `tr`: `frees` are the
headers met from `block_list` on. -/
structure Conserved (all : List Nat) (tr : List Event) (s : State) (frees : List Nat) : Prop where
  chain : Chain (fun a => link (s.word a)) (link s.blockList) frees
  count : frees.length = s.blockFreeCount
  apart : (frees.map (· + sizeofPtr) ++ s.held).Nodup
  cover : ∀ b, b ∈ all ↔ b ∈ frees.map (· + sizeofPtr) ∨ b ∈ s.held
  total : all = blocks s ∧ all.length = s.blockTotalCount ∧ all.Nodup
  history : s.held = outstanding tr
  owner : ∀ b ∈ s.held, s.word (b - sizeofPtr) = s.self
  once : ∀ a s' es, step s a = some (s', es) → ∀ t b, .allocated t b ∈ es → b ∈ all ∧ b ∉ s.held
  defined : s.blockFreeCount ≠ 0 → s.blockList ≠ 0
  bound : s.kernel.list (.wait 0) ≠ [] → ∃ P : Finset Tid,
    (∀ t, t ∈ P ↔ Woken s.kernel (waits s) t) ∧ s.blockFreeCount ≤ P.card

/-- The free chain and the blocks in use are the blocks of the pool at any time, and
nobody waits while more blocks are free than waiters are on their way to them. -/
theorem pool_conserved {all : List Nat} {tr : List Event} {s : State} (run : Run (machine all) tr s) :
    ∃ frees, Conserved all tr s frees := by
  have inv := run_inv run
  obtain ⟨frees, store⟩ := inv.store
  obtain ⟨P, mem, bound⟩ := inv.wake.woken
  have fixed := store.fixed
  subst fixed
  refine ⟨frees, store.chain, store.count, store.nodup, ?_, ?_, store.history, store.owner, ?_, ?_, ?_⟩
  · intro b
    rw [← store.parts.mem_iff, List.mem_append]
  · exact ⟨rfl, by simp [blocks, headers], blocks_nodup s⟩
  · exact fun a s' es taken => (step_inv inv taken).2
  · intro some_ zero
    have chain := store.chain
    rw [zero, link, if_pos rfl, Chain.none_iff] at chain
    exact some_ (by rw [← store.count, chain]; rfl)
  · exact fun waiting => ⟨P, mem, bound waiting⟩

/-- Two blocks at address 100: threads 0 and 1 take them, thread 2 waits, and the freed
block is there for it while it is on its way. -/
theorem pool_conserved_woken :
    ∃ tr s frees, Conserved [104, 116] tr s frees ∧ s.blockFreeCount = 1 ∧ s.held = [116] := by
  obtain ⟨tr, s, run, found⟩ := Run.reaches (M := machine [104, 116])
    (s := newPool (startedThreads (fun _ => 5) 3) (fun _ => 0) 8 100 8 2)
    ⟨rfl, by decide, by decide, Or.inl ⟨_, _, 8, 100, 26, 5, rfl⟩⟩
    [.alloc 0 0, .alloc 1 0, .alloc 2 10, .free 104]
    (fun s => decide (s.blockFreeCount = 1) && decide (s.held = [116])) (by decide)
  simp only [Bool.and_eq_true, decide_eq_true_eq] at found
  obtain ⟨frees, conserved⟩ := pool_conserved run
  exact ⟨tr, s, frees, conserved, found⟩

end RtThread.MemPool
