import RtThread.Run
import RtThread.Tally
import Mathlib.Data.Fintype.Card

/-! The read-write lock of the pthread layer over its mutex. The waits on its two condition variables
end here at any moment and with any result. -/
namespace RtThread.Pthread.RwLock
open Transition

inductive Errno where
  | ok
  | ebusy
  | etimedout
  | einval
  | edeadlk
  deriving DecidableEq

/-- rw_condreaders and rw_condwriters. -/
inductive Queue where
  | readers
  | writers
  deriving DecidableEq

inductive Call where
  | rdlock
  | tryrdlock
  | timedrdlock
  | wrlock
  | trywrlock
  | timedwrlock
  | unlock
  | destroy
  deriving DecidableEq

/-- The counters of pthread_rwlock_t. An int that overflows has no meaning in C: they are integers. -/
@[ext] structure Lock where
  refcount : Int
  nwaitreaders : Int
  nwaitwriters : Int
  deriving DecidableEq

/-- What is done to the condition variables before the mutex is unlocked. -/
inductive Wake where
  | nobody
  | signal
  | broadcast
  | clear

/-- How a stretch of code under the mutex ends; `keep` returns without unlocking it. -/
inductive Next where
  | wait (q : Queue)
  | leave (result : Errno) (wake : Wake)
  | keep (result : Errno)

def Lock.join (l : Lock) : Queue → Lock
  | .readers => { l with nwaitreaders := l.nwaitreaders + 1 }
  | .writers => { l with nwaitwriters := l.nwaitwriters + 1 }

def Lock.part (l : Lock) : Queue → Lock
  | .readers => { l with nwaitreaders := l.nwaitreaders - 1 }
  | .writers => { l with nwaitwriters := l.nwaitwriters - 1 }

/-- The loop of the two read locks, from its test on. -/
def readLoop (l : Lock) : Lock × Next :=
  if l.refcount < 0 ∨ 0 < l.nwaitwriters then (l.join .readers, .wait .readers)
  else ({ l with refcount := l.refcount + 1 }, .leave .ok .nobody)

/-- The loop of the two write locks. -/
def writeLoop (l : Lock) : Lock × Next :=
  if l.refcount ≠ 0 then (l.join .writers, .wait .writers)
  else ({ l with refcount := -1 }, .leave .ok .nobody)

/-- Such a loop when its wait has returned. -/
def afterWait (q : Queue) (loop : Lock → Lock × Next) (l : Lock) (result : Errno) : Lock × Next :=
  if result ≠ .ok then (l.part q, .leave result .nobody) else loop (l.part q)

def rdlock (l : Lock) : Lock × Next := readLoop l

def timedrdlock (l : Lock) : Lock × Next := readLoop l

def wrlock (l : Lock) : Lock × Next := writeLoop l

def timedwrlock (l : Lock) : Lock × Next := writeLoop l

def tryrdlock (l : Lock) : Lock × Next :=
  if l.refcount < 0 ∨ 0 < l.nwaitwriters then (l, .leave .ebusy .nobody)
  else ({ l with refcount := l.refcount + 1 }, .leave .ok .nobody)

def trywrlock (l : Lock) : Lock × Next :=
  if l.refcount ≠ 0 then (l, .leave .ebusy .nobody)
  else ({ l with refcount := -1 }, .leave .ok .nobody)

def released (refcount : Int) : Int :=
  if 0 < refcount then refcount - 1 else if refcount = -1 then 0 else refcount

def unlock (l : Lock) : Lock × Next :=
  let l := { l with refcount := released l.refcount }
  if 0 < l.nwaitwriters then
    if l.refcount = 0 then (l, .leave .ok .signal) else (l, .leave .ok .nobody)
  else if 0 < l.nwaitreaders then (l, .leave .ok .broadcast)
  else (l, .leave .ok .nobody)

/-- `tokens`: both rt_sem_trytake succeed. -/
def destroy (tokens : Bool) (l : Lock) : Lock × Next :=
  if l.refcount ≠ 0 ∨ l.nwaitreaders ≠ 0 ∨ l.nwaitwriters ≠ 0 then (l, .keep .ebusy)
  else if tokens then (l, .leave .ok .clear) else (l, .leave .ebusy .nobody)

/-- From pthread_mutex_lock to the first wait or to the end. -/
def enter (c : Call) (tokens : Bool) (l : Lock) : Lock × Next :=
  match c with
  | .rdlock => rdlock l
  | .tryrdlock => tryrdlock l
  | .timedrdlock => timedrdlock l
  | .wrlock => wrlock l
  | .trywrlock => trywrlock l
  | .timedwrlock => timedwrlock l
  | .unlock => unlock l
  | .destroy => destroy tokens l

/-- From the return of a wait; the other calls do not wait. -/
def resume (c : Call) (result : Errno) (l : Lock) : Lock × Next :=
  match c with
  | .rdlock | .timedrdlock => afterWait .readers readLoop l result
  | .wrlock | .timedwrlock => afterWait .writers writeLoop l result
  | .tryrdlock | .trywrlock | .unlock | .destroy => (l, .leave result .nobody)

def Call.queue : Call → Option Queue
  | .rdlock | .timedrdlock => some .readers
  | .wrlock | .timedwrlock => some .writers
  | .tryrdlock | .trywrlock | .unlock | .destroy => none

def Call.reads : Call → Bool
  | .rdlock | .tryrdlock | .timedrdlock => true
  | _ => false

def Call.writes : Call → Bool
  | .wrlock | .trywrlock | .timedwrlock => true
  | _ => false

/-- Where a thread is: `inside` and `back` with the mutex and a stretch of code to run, `leaving`
before pthread_mutex_unlock, `relocking` before the pthread_mutex_lock of its wait. -/
inductive Pc where
  | idle
  | locking (c : Call)
  | inside (c : Call)
  | waiting (c : Call)
  | relocking (c : Call) (result : Errno)
  | back (c : Call) (result : Errno)
  | leaving (c : Call) (result : Errno)
  deriving DecidableEq

/-- How many locks of each kind a thread has been granted and not given back. -/
structure Held where
  reads : Nat
  writes : Nat

def Held.total (h : Held) : Nat := h.reads + h.writes

def Held.settle (h : Held) (c : Call) (result : Errno) : Held :=
  if result ≠ .ok then h
  else if c.reads then { h with reads := h.reads + 1 }
  else if c.writes then { h with writes := h.writes + 1 }
  else if c = .unlock then
    if 0 < h.writes then { h with writes := h.writes - 1 } else { h with reads := h.reads - 1 }
  else h

/-- `change t`: what the call of thread `t` has added to the counters so far. -/
structure State (T : Type) where
  lock : Lock
  owner : Option T
  pc : T → Pc
  holds : T → Held
  change : T → Lock

/-- `holding`: the thread still owns the mutex. -/
inductive Event (T : Type) where
  | returned (t : T) (c : Call) (result : Errno) (change : Lock) (holding : Bool)

inductive Action (T : Type) where
  | call (t : T) (c : Call)
  | lock (t : T)
  | body (t : T) (tokens : Bool)
  | wake (t : T) (result : Errno)
  | unlock (t : T)

def Lock.moved (change old new : Lock) : Lock where
  refcount := change.refcount + (new.refcount - old.refcount)
  nwaitreaders := change.nwaitreaders + (new.nwaitreaders - old.nwaitreaders)
  nwaitwriters := change.nwaitwriters + (new.nwaitwriters - old.nwaitwriters)

variable {T : Type} [DecidableEq T]

def State.goto (s : State T) (t : T) (p : Pc) : State T := { s with pc := Function.update s.pc t p }

/-- A stretch of code under the mutex, with the pthread_mutex_unlock of the wait it ends in. -/
def State.advance (s : State T) (t : T) (c : Call) (r : Lock × Next) : State T × List (Event T) :=
  let change := (s.change t).moved s.lock r.1
  let s := { s with lock := r.1, change := Function.update s.change t change }
  match r.2 with
  | .wait _ => ({ s with owner := none }.goto t (.waiting c), [])
  | .leave result _ =>
    ({ s with holds := Function.update s.holds t ((s.holds t).settle c result) }.goto t (.leaving c result), [])
  | .keep result => (s.goto t .idle, [.returned t c result change (decide (s.owner = some t))])

/-- pthread_mutex_lock answers its owner EDEADLK, which a wait does not look at. The
pthread_mutex_destroy after the last unlock changes nothing here: the next lock sets the mutex up anew. -/
def step (s : State T) : Action T → Option (State T × List (Event T))
  | .call t c =>
    if s.pc t = .idle then
      some ({ s with change := Function.update s.change t ⟨0, 0, 0⟩ }.goto t (.locking c), [])
    else none
  | .lock t =>
    if s.owner ≠ none ∧ s.owner ≠ some t then none
    else
      match s.pc t with
      | .locking c =>
        if s.owner = none then some ({ s with owner := some t }.goto t (.inside c), [])
        else some (s.goto t .idle, [.returned t c .edeadlk (s.change t) true])
      | .relocking c result => some ({ s with owner := some t }.goto t (.back c result), [])
      | _ => none
  | .body t tokens =>
    match s.pc t with
    | .inside c => some (s.advance t c (enter c tokens s.lock))
    | .back c result => some (s.advance t c (resume c result s.lock))
    | _ => none
  | .wake t result =>
    match s.pc t with
    | .waiting c => some (s.goto t (.relocking c result), [])
    | _ => none
  | .unlock t =>
    match s.pc t with
    | .leaving c result =>
      let owner := if s.owner = some t then none else s.owner
      some ({ s with owner := owner }.goto t .idle,
        [.returned t c result (s.change t) (decide (owner = some t))])
    | _ => none

/-- After pthread_rwlock_init. -/
def init : State T := ⟨⟨0, 0, 0⟩, none, fun _ => .idle, fun _ => ⟨0, 0⟩, fun _ => ⟨0, 0, 0⟩⟩

def machine : Machine (State T) (Action T) (Event T) where
  start s := s = init
  step := step

/-- Why a call has to wait. -/
def Lock.Taken (l : Lock) : Queue → Prop
  | .readers => l.refcount < 0 ∨ 0 < l.nwaitwriters
  | .writers => l.refcount ≠ 0

/-- What a stretch of code can do. -/
inductive Does (c : Call) (l : Lock) : Lock × Next → Prop where
  | wait {q : Queue} (waits : c.queue = some q) (taken : l.Taken q) : Does c l (l.join q, .wait q)
  | fail {result : Errno} (failed : result ≠ .ok) : Does c l (l, .leave result .nobody)
  | read (reads : c.reads = true) (free : 0 ≤ l.refcount) (nobody : l.nwaitwriters ≤ 0) :
      Does c l ({ l with refcount := l.refcount + 1 }, .leave .ok .nobody)
  | write (writes : c.writes = true) (free : l.refcount = 0) :
      Does c l ({ l with refcount := -1 }, .leave .ok .nobody)
  | release {wake : Wake} (unlocks : c = .unlock)
      (wakes : (unlock l).2 = .leave .ok wake) :
      Does c l ({ l with refcount := released l.refcount }, .leave .ok wake)
  | clear (destroys : c = .destroy) (free : l = ⟨0, 0, 0⟩) : Does c l (l, .leave .ok .clear)
  | keep (destroys : c = .destroy) (busy : l ≠ ⟨0, 0, 0⟩) : Does c l (l, .keep .ebusy)

theorem readLoop_does {c : Call} (waits : c.queue = some .readers) (reads : c.reads = true) (l : Lock) :
    Does c l (readLoop l) := by
  simp only [readLoop]
  split
  · rename_i taken
    exact .wait waits taken
  · rename_i free
    exact .read reads (by lia) (by lia)

theorem writeLoop_does {c : Call} (waits : c.queue = some .writers) (writes : c.writes = true) (l : Lock) :
    Does c l (writeLoop l) := by
  simp only [writeLoop]
  split
  · rename_i taken
    exact .wait waits taken
  · rename_i free
    exact .write writes (by lia)

theorem unlock_does (l : Lock) : Does .unlock l (unlock l) := by
  obtain ⟨wake, wakes⟩ : ∃ wake,
      unlock l = ({ l with refcount := released l.refcount }, .leave .ok wake) := by
    simp only [unlock]
    split
    · split <;> exact ⟨_, rfl⟩
    · split <;> exact ⟨_, rfl⟩
  rw [wakes]
  exact .release rfl (by rw [wakes])

theorem enter_does (c : Call) (tokens : Bool) (l : Lock) : Does c l (enter c tokens l) := by
  cases c with
  | rdlock => exact readLoop_does rfl rfl l
  | timedrdlock => exact readLoop_does rfl rfl l
  | wrlock => exact writeLoop_does rfl rfl l
  | timedwrlock => exact writeLoop_does rfl rfl l
  | tryrdlock =>
    simp only [enter, tryrdlock]
    split
    · exact .fail (by simp)
    · exact .read rfl (by lia) (by lia)
  | trywrlock =>
    simp only [enter, trywrlock]
    split
    · exact .fail (by simp)
    · exact .write rfl (by lia)
  | unlock => exact unlock_does l
  | destroy =>
    simp only [enter, destroy]
    split
    · rename_i busy
      refine .keep rfl fun zero => ?_
      simp [zero] at busy
    · rename_i free
      split
      · refine .clear rfl ?_
        ext <;> simp <;> lia
      · exact .fail (by simp)

theorem resume_does {c : Call} {q : Queue} (waits : c.queue = some q) (result : Errno) (l : Lock) :
    Does c (l.part q) (resume c result l) := by
  cases c <;> simp only [Call.queue, Option.some.injEq, reduceCtorEq] at waits <;> subst waits
  all_goals
    simp only [resume, afterWait]
    split
    · rename_i failed
      exact .fail failed
    · first
        | exact readLoop_does rfl rfl _
        | exact writeLoop_does rfl rfl _

/-- Where the thread is after a stretch of code. -/
def Next.pc (c : Call) : Next → Pc
  | .wait _ => .waiting c
  | .leave result _ => .leaving c result
  | .keep _ => .idle

def Next.owner (owner : Option T) : Next → Option T
  | .wait _ => none
  | _ => owner

def Next.holds (h : Held) (c : Call) : Next → Held
  | .leave result _ => h.settle c result
  | _ => h

def Lock.count (l : Lock) : Queue → Int
  | .readers => l.nwaitreaders
  | .writers => l.nwaitwriters

/-- The call whose condition wait a thread is in, up to its test behind the wait. -/
def Pc.wait : Pc → Option Call
  | .waiting c | .relocking c _ | .back c _ => some c
  | _ => none

def Pc.on (q : Queue) (p : Pc) : Nat := if p.wait.bind Call.queue = some q then 1 else 0

/-- The thread is between locking the mutex and unlocking it. -/
def Pc.runs : Pc → Bool
  | .inside _ | .back _ _ | .leaving _ _ => true
  | _ => false

section
variable {s s' : State T} {t u : T} {c : Call} {l l' base : Lock} {next : Next} {q q' : Queue}
  {result : Errno} {p : Pc}

@[simp] theorem goto_lock (s : State T) (t : T) (p : Pc) : (s.goto t p).lock = s.lock := rfl
@[simp] theorem goto_owner (s : State T) (t : T) (p : Pc) : (s.goto t p).owner = s.owner := rfl
@[simp] theorem goto_holds (s : State T) (t : T) (p : Pc) : (s.goto t p).holds = s.holds := rfl
@[simp] theorem goto_change (s : State T) (t : T) (p : Pc) : (s.goto t p).change = s.change := rfl
@[simp] theorem goto_pc (s : State T) (t : T) (p : Pc) : (s.goto t p).pc = Function.update s.pc t p := rfl

theorem advance_lock (s : State T) (t : T) (c : Call) (r : Lock × Next) :
    (s.advance t c r).1.lock = r.1 := by
  obtain ⟨l, next⟩ := r
  cases next <;> rfl

theorem advance_pc (s : State T) (t : T) (c : Call) (r : Lock × Next) :
    (s.advance t c r).1.pc = Function.update s.pc t (r.2.pc c) := by
  obtain ⟨l, next⟩ := r
  cases next <;> rfl

theorem advance_owner (s : State T) (t : T) (c : Call) (r : Lock × Next) :
    (s.advance t c r).1.owner = r.2.owner s.owner := by
  obtain ⟨l, next⟩ := r
  cases next <;> rfl

theorem advance_holds (s : State T) (t : T) (c : Call) (r : Lock × Next) :
    (s.advance t c r).1.holds = Function.update s.holds t (r.2.holds (s.holds t) c) := by
  obtain ⟨l, next⟩ := r
  cases next <;> simp [State.advance, Next.holds]

theorem advance_change (s : State T) (t : T) (c : Call) (r : Lock × Next) :
    (s.advance t c r).1.change = Function.update s.change t ((s.change t).moved s.lock r.1) := by
  obtain ⟨l, next⟩ := r
  cases next <;> rfl

theorem join_refcount (l : Lock) (q : Queue) : (l.join q).refcount = l.refcount := by
  cases q <;> rfl

theorem part_refcount (l : Lock) (q : Queue) : (l.part q).refcount = l.refcount := by
  cases q <;> rfl

theorem count_join (l : Lock) (q q' : Queue) :
    (l.join q).count q' = l.count q' + (if q = q' then 1 else 0) := by
  cases q <;> cases q' <;> simp [Lock.join, Lock.count]

theorem count_part (l : Lock) (q q' : Queue) :
    (l.part q).count q' = l.count q' - (if q = q' then 1 else 0) := by
  cases q <;> cases q' <;> simp [Lock.part, Lock.count]

theorem Does.count (does : Does c l (l', next)) (q : Queue) :
    l'.count q = l.count q + (next.pc c).on q := by
  cases does with
  | wait waits taken =>
    rename_i q'
    rw [count_join]
    by_cases same : q' = q <;> simp [Next.pc, Pc.on, Pc.wait, waits, same]
  | fail => simp [Next.pc, Pc.on, Pc.wait]
  | read => cases q <;> simp [Next.pc, Pc.on, Pc.wait, Lock.count]
  | write => cases q <;> simp [Next.pc, Pc.on, Pc.wait, Lock.count]
  | release => cases q <;> simp [Next.pc, Pc.on, Pc.wait, Lock.count]
  | clear => simp [Next.pc, Pc.on, Pc.wait]
  | keep => simp [Next.pc, Pc.on, Pc.wait]

end

section
variable [Fintype T]

/-- The counters of the waits and the owner of the mutex are right. -/
structure Inv (s : State T) : Prop where
  waits : ∀ t c, (s.pc t).wait = some c → ∃ q, c.queue = some q
  count : ∀ q, s.lock.count q = ((∑ t, (s.pc t).on q : Nat) : Int)
  owner : ∀ t, (s.pc t).runs = true → s.owner = some t

variable {s s' : State T} {t u : T} {c : Call} {l l' base : Lock} {next : Next} {q q' : Queue}
  {result : Errno} {p : Pc} {a : Action T} {es : List (Event T)}

theorem Inv.goto {owner : Option T} {change : T → Lock} (inv : Inv s) (t : T) (p : Pc)
    (wait : p.wait = (s.pc t).wait) (mine : p.runs = true → owner = some t)
    (others : ∀ u, u ≠ t → (s.pc u).runs = true → owner = some u) :
    Inv ({ s with owner := owner, change := change }.goto t p) := by
  refine ⟨fun u c within => ?_, fun q => ?_, fun u runs => ?_⟩
  · by_cases hu : u = t
    · subst hu
      rw [goto_pc, Function.update_self, wait] at within
      exact inv.waits u c within
    · rw [goto_pc, Function.update_of_ne hu] at within
      exact inv.waits u c within
  · have balance := Tally.sum_update s.pc (Pc.on q) t p
    have same : p.on q = (s.pc t).on q := by rw [Pc.on, Pc.on, wait]
    have count := inv.count q
    show s.lock.count q = ((∑ u, (Function.update s.pc t p u).on q : Nat) : Int)
    lia
  · by_cases hu : u = t
    · subst hu
      rw [goto_pc, Function.update_self] at runs
      exact mine runs
    · rw [goto_pc, Function.update_of_ne hu] at runs
      exact others u hu runs

theorem Inv.advance (inv : Inv s) (runs : (s.pc t).runs = true)
    (apart : ∀ q, s.lock.count q = base.count q + (s.pc t).on q) (does : Does c base (l, next)) :
    Inv (s.advance t c (l, next)).1 := by
  refine ⟨fun u d within => ?_, fun q => ?_, fun u after => ?_⟩
  · rw [advance_pc] at within
    by_cases hu : u = t
    · subst hu
      rw [Function.update_self] at within
      cases does with
      | wait waits taken =>
        cases within
        exact ⟨_, waits⟩
      | fail => cases within
      | read => cases within
      | write => cases within
      | release => cases within
      | clear => cases within
      | keep => cases within
    · rw [Function.update_of_ne hu] at within
      exact inv.waits u d within
  · have balance := Tally.sum_update s.pc (Pc.on q) t (next.pc c)
    have count := inv.count q
    have moved := does.count q
    have split := apart q
    rw [advance_lock, advance_pc]
    show l.count q = _
    simp only at balance ⊢
    lia
  · have mine := inv.owner t runs
    rw [advance_pc] at after
    rw [advance_owner]
    by_cases hu : u = t
    · subst hu
      rw [Function.update_self] at after
      cases next with
      | wait q => cases after
      | leave result wake => exact mine
      | keep result => cases after
    · rw [Function.update_of_ne hu] at after
      have other := inv.owner u after
      rw [mine] at other
      exact absurd (Option.some.inj other).symm hu

/-- What a step of a run does, with all that the invariant says of where it starts. -/
theorem body_cases (inv : Inv s) {tokens : Bool} (taken : step s (.body t tokens) = some (s', es)) :
    ∃ c base l next, (s.pc t).runs = true ∧ (∀ q, s.lock.count q = base.count q + (s.pc t).on q) ∧
      base.refcount = s.lock.refcount ∧ Does c base (l, next) ∧ s.advance t c (l, next) = (s', es) ∧
      (s.pc t = .inside c ∨ ∃ result, s.pc t = .back c result) := by
  simp only [step] at taken
  split at taken
  · rename_i c inside
    refine ⟨c, s.lock, _, _, by simp [inside, Pc.runs], fun q => ?_, rfl, enter_does c tokens s.lock,
      Option.some.inj taken, Or.inl inside⟩
    simp [inside, Pc.on, Pc.wait]
  · rename_i c result back
    obtain ⟨q, waits⟩ := inv.waits t c (by simp [back, Pc.wait])
    refine ⟨c, s.lock.part q, _, _, by simp [back, Pc.runs], fun q' => ?_, part_refcount _ _,
      resume_does waits result s.lock, Option.some.inj taken, Or.inr ⟨result, back⟩⟩
    rw [count_part]
    by_cases same : q = q' <;> simp [back, Pc.on, Pc.wait, waits, same]
  · contradiction

theorem step_inv (inv : Inv s) (taken : step s a = some (s', es)) : Inv s' := by
  cases a with
  | call t c =>
    simp only [step] at taken
    split at taken
    · rename_i idle
      cases taken
      exact inv.goto t _ (by simp [idle, Pc.wait]) (by simp [Pc.runs]) fun u _ => inv.owner u
    · contradiction
  | lock t =>
    simp only [step] at taken
    split at taken
    · contradiction
    · rename_i mine
      have nobody (u : T) (hu : u ≠ t) (runs : (s.pc u).runs = true) : False := by
        have other := inv.owner u runs
        simp [other, hu] at mine
      split at taken
      · rename_i c locking
        split at taken
        · cases taken
          exact inv.goto t _ (by simp [locking, Pc.wait]) (fun _ => rfl)
            fun u hu runs => (nobody u hu runs).elim
        · cases taken
          exact inv.goto t _ (by simp [locking, Pc.wait]) (by simp [Pc.runs]) fun u _ => inv.owner u
      · rename_i c result relocking
        cases taken
        exact inv.goto t _ (by simp [relocking, Pc.wait]) (fun _ => rfl)
          fun u hu runs => (nobody u hu runs).elim
      · contradiction
  | body t tokens =>
    obtain ⟨c, base, l, next, runs, apart, _, does, same, _⟩ := body_cases inv taken
    have after := inv.advance runs apart does
    rwa [same] at after
  | wake t result =>
    simp only [step] at taken
    split at taken
    · rename_i c waiting
      cases taken
      exact inv.goto t _ (by simp [waiting, Pc.wait]) (by simp [Pc.runs]) fun u _ => inv.owner u
    · contradiction
  | unlock t =>
    simp only [step] at taken
    split at taken
    · rename_i c result leaving
      cases taken
      have mine := inv.owner t (by simp [leaving, Pc.runs])
      refine inv.goto t _ (by simp [leaving, Pc.wait]) (by simp [Pc.runs]) fun u hu runs => ?_
      have other := inv.owner u runs
      rw [mine] at other
      exact absurd (Option.some.inj other).symm hu
    · contradiction

end

section
variable [Fintype T]

/-- The counter says no more than is held, even when anybody may unlock. -/
def Bounded (refcount : Int) (holds : T → Held) : Prop :=
  (0 ≤ refcount ∧ refcount ≤ ((∑ t, (holds t).total : Nat) : Int)) ∨
    (refcount = -1 ∧ 0 < ∑ t, (holds t).total)

variable {s s' : State T} {t u : T} {c : Call} {l base : Lock} {next : Next} {a : Action T}
  {es tr : List (Event T)} {holds : T → Held}

theorem settle_read (reads : c.reads = true) (h : Held) : h.settle c .ok = ⟨h.reads + 1, h.writes⟩ := by
  simp [Held.settle, reads]

theorem settle_write (writes : c.writes = true) (h : Held) :
    h.settle c .ok = ⟨h.reads, h.writes + 1⟩ := by
  cases c <;> simp [Call.writes] at writes <;> rfl

theorem Bounded.does (bounded : Bounded base.refcount holds) (does : Does c base (l, next)) (t : T) :
    Bounded l.refcount (Function.update holds t (next.holds (holds t) c)) := by
  have balance := Tally.sum_update holds Held.total t (next.holds (holds t) c)
  cases does with
  | wait waits taken =>
    simpa only [Next.holds, Function.update_eq_self, join_refcount] using bounded
  | fail failed => simpa [Next.holds, Held.settle, failed] using bounded
  | read reads free nobody =>
    rw [Next.holds, settle_read reads] at balance ⊢
    simp only [Bounded, Held.total] at bounded balance ⊢
    lia
  | write writes free =>
    rw [Next.holds, settle_write writes] at balance ⊢
    refine Or.inr ⟨rfl, ?_⟩
    simp only [Held.total] at balance ⊢
    lia
  | release unlocks wakes =>
    subst unlocks
    have less : (holds t).total ≤ ((holds t).settle .unlock .ok).total + 1 := by
      simp only [Held.settle, Call.reads, Call.writes, Held.total]
      simp only [ne_eq, not_true_eq_false, Bool.false_eq_true, if_false, if_true]
      split <;> simp only <;> lia
    simp only [Bounded, Next.holds, released] at bounded balance ⊢
    split
    · lia
    · split
      · lia
      · lia
  | clear destroys free =>
    subst destroys
    simpa [Next.holds, Held.settle, Call.reads, Call.writes] using bounded
  | keep => simpa [Next.holds] using bounded

omit [Fintype T] in
theorem step_frame (taken : step s a = some (s', es)) :
    (∃ t tokens, a = .body t tokens) ∨ s'.lock = s.lock ∧ s'.holds = s.holds := by
  cases a with
  | body t tokens => exact Or.inl ⟨t, tokens, rfl⟩
  | call t c =>
    simp only [step] at taken
    split at taken <;> cases taken
    exact Or.inr ⟨rfl, rfl⟩
  | lock t =>
    simp only [step] at taken
    split at taken
    · contradiction
    · split at taken
      · split at taken <;> cases taken <;> exact Or.inr ⟨rfl, rfl⟩
      · cases taken
        exact Or.inr ⟨rfl, rfl⟩
      · contradiction
  | wake t result =>
    simp only [step] at taken
    split at taken <;> cases taken
    exact Or.inr ⟨rfl, rfl⟩
  | unlock t =>
    simp only [step] at taken
    split at taken <;> cases taken
    exact Or.inr ⟨rfl, rfl⟩

theorem step_bounded (inv : Inv s) (bounded : Bounded s.lock.refcount s.holds)
    (taken : step s a = some (s', es)) : Bounded s'.lock.refcount s'.holds := by
  rcases step_frame taken with ⟨t, tokens, rfl⟩ | ⟨lock, holds⟩
  · obtain ⟨c, base, l, next, _, _, refcount, does, same, _⟩ := body_cases inv taken
    have after := (refcount ▸ bounded : Bounded base.refcount s.holds).does does t
    rw [← advance_holds s t c (l, next), same] at after
    have lock := advance_lock s t c (l, next)
    rw [same] at lock
    rwa [← show s'.lock = l from lock] at after
  · rwa [lock, holds]

theorem run_inv (run : Run (machine (T := T)) tr s) : Inv s := by
  refine run.always (I := Inv) (fun s start => ?_) fun s a s' es inv taken => step_inv inv taken
  cases start
  exact ⟨by simp [init, Pc.wait], fun q => by cases q <;> simp [init, Pc.on, Pc.wait, Lock.count],
    by simp [init, Pc.runs]⟩

theorem run_bounded (run : Run (machine (T := T)) tr s) : Bounded s.lock.refcount s.holds := by
  refine (run.always (I := fun s => Inv s ∧ Bounded s.lock.refcount s.holds) (fun s start => ?_) ?_).2
  · refine ⟨run_inv (.start start), Or.inl ?_⟩
    cases start
    simp [init, Held.total]
  · rintro s a s' es ⟨inv, bounded⟩ taken
    exact ⟨step_inv inv taken, step_bounded inv bounded taken⟩

end

end RtThread.Pthread.RwLock
