import RtThread.Pthread.CondWait
import RtThread.Tally

/-! pthread_barrier_wait over the condition variable and the mutex it is built on, called by as many
threads as the barrier was made for. -/
namespace RtThread.Pthread.Barrier
open Transition

/-- `leaving`: before pthread_mutex_unlock, with the result 0 or EINVAL. -/
inductive Pc where
  | idle
  | locking
  | inside
  | waiting
  | leaving (ok : Bool)
  deriving DecidableEq

/-- `round`: how many calls the thread has begun. -/
structure Thread where
  pc : Pc
  round : Nat

/-- `count` is an int: it holds the number of the threads, which all have a place in memory. -/
structure State (T : Type) where
  sync : CondWait.State T
  count : Int
  thread : T → Thread

inductive Event (T : Type) where
  | returned (t : T) (ok : Bool)
  deriving DecidableEq

inductive Action (T : Type) where
  | call (t : T)
  | lock (t : T)
  | body (t : T)
  | take (t : T)
  | unlock (t : T)

variable {T : Type} [DecidableEq T]

def State.goto (s : State T) (t : T) (p : Pc) : State T :=
  { s with thread := Function.update s.thread t ⟨p, (s.thread t).round⟩ }

/-- A step of the condition variable or the mutex, after which the thread is at `p`. -/
def State.act (s : State T) (a : CondWait.Action T) (t : T) (p : Pc) : Option (State T) :=
  (CondWait.step false s.sync a).map (fun sync => { s with sync := sync }.goto t p)

/-- Between pthread_mutex_lock and the wait, the broadcast or the unlock. -/
def State.body (s : State T) (t : T) : Option (State T) :=
  if s.count = 0 then some (s.goto t (.leaving false))
  else
    let s := { s with count := s.count - 1 }
    if s.count = 0 then s.act (.broadcast t) t (.leaving true) else s.act (.wait t) t .waiting

def step (s : State T) : Action T → Option (State T × List (Event T))
  | .call t =>
    if (s.thread t).pc = .idle then
      some ({ s with thread := Function.update s.thread t ⟨.locking, (s.thread t).round + 1⟩ }, [])
    else none
  | .lock t =>
    match (s.thread t).pc with
    | .locking =>
      if s.sync.owner = some t then some (s.goto t .idle, [.returned t false])
      else (s.act (.lock t) t .inside).map (fun s => (s, []))
    | .waiting => (s.act (.relock t) t (.leaving true)).map (fun s => (s, []))
    | _ => none
  | .body t => if (s.thread t).pc = .inside then (s.body t).map (fun s => (s, [])) else none
  | .take t => if (s.thread t).pc = .waiting then (s.act (.take t) t .waiting).map (fun s => (s, [])) else none
  | .unlock t =>
    match (s.thread t).pc with
    | .leaving ok => (s.act (.unlock t) t .idle).map (fun s => (s, [.returned t ok]))
    | _ => none

variable [Fintype T]

/-- After pthread_barrier_init with the number of threads. -/
def init : State T := ⟨CondWait.start, Fintype.card T, fun _ => ⟨.idle, 0⟩⟩

def machine : Machine (State T) (Action T) (Event T) where
  start s := s = init
  step := step

/-- How many calls the thread has returned from. -/
def Thread.returned (h : Thread) : Nat := if h.pc = .idle then h.round else h.round - 1

/-- With nothing but steps of the calls in progress they all return. -/
def State.CanReturn (s : State T) : Prop :=
  ∃ as r, (∀ a ∈ as, ∀ t, a ≠ .call t) ∧ machine.exec s as = some r ∧
    ∀ t, (r.1.thread t).pc = .idle

/-- What the barrier is for. -/
structure Rounds (s : State T) : Prop where
  together : ∀ t r, r ≤ (s.thread t).returned → ∀ u, r ≤ (s.thread u).round
  returns : ∀ r, 0 < r → (∀ u, r ≤ (s.thread u).round) → s.CanReturn

def Event.ok : Event T → Bool
  | .returned _ ok => ok

/-- Nobody calls a second time; and the last to arrive finds at most one thread between unlocking the
mutex and taking the semaphore. -/
def Guard (s : State T) : Action T → Prop
  | .call t => (s.thread t).round = 0
  | .body _ => s.count = 1 → s.sync.between ≤ 1
  | _ => True

instance (s : State T) : (a : Action T) → Decidable (Guard s a)
  | .call _ => inferInstanceAs (Decidable (_ = _))
  | .body _ => inferInstanceAs (Decidable (_ → _))
  | .lock _ | .take _ | .unlock _ => isTrue trivial

def Thread.pending (h : Thread) : Nat :=
  match h.pc with
  | .idle => if h.round = 0 then 1 else 0
  | .locking | .inside => 1
  | .waiting | .leaving _ => 0

def Pc.runs : Pc → Bool
  | .inside | .leaving _ => true
  | _ => false

structure Inv (s : State T) : Prop where
  sync : CondWait.Inv s.sync
  round : ∀ t, (s.thread t).round ≤ 1 ∧ ((s.thread t).pc ≠ .idle → (s.thread t).round = 1)
  count : s.count = ((∑ t, (s.thread t).pending : Nat) : Int)
  inside : ∀ t, s.sync.cond.phase t ≠ .out ↔ (s.thread t).pc = .waiting
  owner : ∀ t, (s.thread t).pc.runs = true ↔ s.sync.owner = some t
  hold : s.sync.hold ≤ 1
  good : ∀ t, (s.thread t).pc ≠ .leaving false
  closed : s.count ≠ 0 → s.sync.cond.value = 0 ∧
    ∀ t, (∀ e, s.sync.cond.phase t ≠ .back e) ∧ (s.thread t).pc ≠ .leaving true ∧
      (s.thread t).returned = 0
  opened : s.count = 0 → ∀ t, s.sync.cond.phase t ≠ .suspended ∧
    (s.sync.cond.phase t = .unlocked → s.sync.owed t = true)

variable {s s' : State T} {t u : T} {a : Action T} {es tr : List (Event T)} {y : CondWait.State T} {p : Pc}

omit [Fintype T] in
theorem sync_lock (free : s.sync.owner ≠ some t)
    (taken : CondWait.step false s.sync (.lock t) = some y) :
    s.sync.owner = none ∧ y = { s.sync with owner := some t, hold := 1 } := by
  simp only [CondWait.step] at taken
  split at taken
  · simp only [CondWait.mutexLock] at taken
    split at taken
    · rename_i none
      exact ⟨none, (Option.some.inj taken).symm⟩
    · rename_i other here
      have differs : other ≠ t := fun h => free (h ▸ here)
      simp [differs] at taken
  · contradiction

omit [Fintype T] in
theorem sync_relock (free : s.sync.owner ≠ some t)
    (taken : CondWait.step false s.sync (.relock t) = some y) :
    s.sync.owner = none ∧ (∃ e, s.sync.cond.phase t = .back e) ∧
      y = { s.sync with owner := some t, hold := 1, cond := s.sync.cond.set t .out } := by
  simp only [CondWait.step] at taken
  split at taken
  · rename_i e back
    obtain ⟨mid, locked, rfl⟩ := Option.map_eq_some_iff.mp taken
    simp only [CondWait.mutexLock] at locked
    split at locked
    · rename_i none
      cases Option.some.inj locked
      exact ⟨none, ⟨e, back⟩, rfl⟩
    · rename_i other here
      have differs : other ≠ t := fun h => free (h ▸ here)
      simp [differs] at locked
  · contradiction

omit [Fintype T] in
theorem mutexUnlock_free (mine : s.sync.owner = some t) (hold : s.sync.hold ≤ 1) :
    CondWait.mutexUnlock s.sync t = { s.sync with owner := none, hold := 0 } := by
  simp [CondWait.mutexUnlock, mine, hold]

omit [Fintype T] in
theorem sync_unlock (mine : s.sync.owner = some t) (hold : s.sync.hold ≤ 1)
    (taken : CondWait.step false s.sync (.unlock t) = some y) :
    y = { s.sync with owner := none, hold := 0 } := by
  simp only [CondWait.step] at taken
  split at taken
  · rw [← Option.some.inj taken, mutexUnlock_free mine hold]
  · contradiction

omit [Fintype T] in
theorem sync_wait (mine : s.sync.owner = some t) (hold : s.sync.hold ≤ 1)
    (taken : CondWait.step false s.sync (.wait t) = some y) :
    y = ⟨s.sync.cond.set t .unlocked, none, 0, Function.update s.sync.owed t false⟩ := by
  simp only [CondWait.step] at taken
  split at taken
  · rw [← Option.some.inj taken, CondWait.condWait, mutexUnlock_free mine hold]
    simp [mine]
  · contradiction

omit [Fintype T] in
theorem sync_take (taken : CondWait.step false s.sync (.take t) = some y) :
    s.sync.cond.phase t = .unlocked ∧ y = { s.sync with cond := s.sync.cond.take t (-1) } := by
  simp only [CondWait.step] at taken
  split at taken
  · rename_i between
    exact ⟨between, (Option.some.inj taken).symm⟩
  · contradiction

omit [Fintype T] in
theorem sync_broadcast (inv : s.sync.cond.Inv)
    (taken : CondWait.step false s.sync (.broadcast t) = some y) :
    y = { s.sync with
      cond := s.sync.cond.wakeAll
      owed := fun u => s.sync.owed u ||
        decide (s.sync.cond.phase u = .unlocked ∨ s.sync.cond.phase u = .suspended) } := by
  simp only [CondWait.step, Cond.broadcast_eq inv] at taken
  split at taken
  · exact (Option.some.inj taken).symm
  · contradiction

omit [DecidableEq T] in
theorem Inv.some_left (inv : Inv s) (inside : (s.thread t).pc = .inside) : 0 < s.count := by
  have counted := Tally.le_sum (fun t => (s.thread t).pending) t
  have count := inv.count
  simp only [Thread.pending, inside] at counted
  simp only [Thread.pending] at count
  lia

theorem Inv.recount (inv : Inv s) (t : T) (h : Thread) :
    s.count + h.pending =
      ((∑ u, (Function.update s.thread t h u).pending : Nat) : Int) + (s.thread t).pending := by
  have balance := Tally.sum_update s.thread Thread.pending t h
  have count := inv.count
  lia

theorem call_inv (inv : Inv s) (idle : (s.thread t).pc = .idle) (first : (s.thread t).round = 0) :
    Inv { s with thread := Function.update s.thread t ⟨.locking, (s.thread t).round + 1⟩ } := by
  have counted := inv.recount t ⟨.locking, (s.thread t).round + 1⟩
  refine ⟨inv.sync, fun u => ?_, ?_, fun u => ?_, fun u => ?_, inv.hold, fun u => ?_, fun left => ?_,
    inv.opened⟩
  · by_cases hu : u = t
    · simp [hu, first]
    · simpa [hu] using inv.round u
  · simp only [Thread.pending, idle, first, if_true] at counted ⊢
    lia
  · by_cases hu : u = t
    · subst hu
      simp [inv.inside u, idle]
    · simpa [hu] using inv.inside u
  · by_cases hu : u = t
    · subst hu
      simp [← inv.owner u, idle, Pc.runs]
    · simpa [hu] using inv.owner u
  · by_cases hu : u = t
    · simp [hu]
    · simpa [hu] using inv.good u
  · obtain ⟨value, others⟩ := inv.closed left
    refine ⟨value, fun u => ?_⟩
    by_cases hu : u = t
    · subst hu
      simpa [Thread.returned, first] using (others u).1
    · simpa [hu] using others u

section
variable (inv : Inv s) (u : T)
include inv

theorem Inv.round_goto (started : p ≠ .idle → (s.thread t).round = 1) :
    (Function.update s.thread t ⟨p, (s.thread t).round⟩ u).round ≤ 1 ∧
      ((Function.update s.thread t ⟨p, (s.thread t).round⟩ u).pc ≠ .idle →
        (Function.update s.thread t ⟨p, (s.thread t).round⟩ u).round = 1) := by
  by_cases hu : u = t
  · subst hu
    rw [Function.update_self]
    exact ⟨(inv.round u).1, started⟩
  · rw [Function.update_of_ne hu]
    exact inv.round u

theorem Inv.inside_goto {phase : T → Phase} (here : phase t ≠ .out ↔ p = .waiting)
    (others : ∀ u, u ≠ t → (phase u = .out ↔ s.sync.cond.phase u = .out)) :
    phase u ≠ .out ↔ (Function.update s.thread t ⟨p, (s.thread t).round⟩ u).pc = .waiting := by
  by_cases hu : u = t
  · subst hu
    rw [Function.update_self]
    exact here
  · rw [Function.update_of_ne hu, ← inv.inside u]
    exact not_congr (others u hu)

theorem Inv.owner_goto {owner : Option T} (here : p.runs = true ↔ owner = some t)
    (others : ∀ u, u ≠ t → (owner = some u ↔ s.sync.owner = some u)) :
    (Function.update s.thread t ⟨p, (s.thread t).round⟩ u).pc.runs = true ↔ owner = some u := by
  by_cases hu : u = t
  · subst hu
    rw [Function.update_self]
    exact here
  · rw [Function.update_of_ne hu, inv.owner u]
    exact (others u hu).symm

theorem Inv.good_goto (good : p ≠ .leaving false) :
    (Function.update s.thread t ⟨p, (s.thread t).round⟩ u).pc ≠ .leaving false := by
  by_cases hu : u = t
  · rw [hu, Function.update_self]
    exact good
  · rw [Function.update_of_ne hu]
    exact inv.good u

end

theorem goto_inv {owner : Option T} {hold : Nat} (inv : Inv s)
    (within : p = .waiting ↔ (s.thread t).pc = .waiting)
    (pending : (⟨p, (s.thread t).round⟩ : Thread).pending = (s.thread t).pending)
    (owns : p.runs = true ↔ owner = some t) (others : ∀ u, u ≠ t → (owner = some u ↔ s.sync.owner = some u))
    (holds : hold ≤ 1) (good : p ≠ .leaving false) (round : p ≠ .idle → (s.thread t).round = 1)
    (later : s.count ≠ 0 → p ≠ .leaving true ∧ (p = .idle → (s.thread t).round = 0)) :
    Inv ({ s with sync := { s.sync with owner := owner, hold := hold } }.goto t p) := by
  have counted := inv.recount t ⟨p, (s.thread t).round⟩
  refine ⟨inv.sync.congr rfl rfl, fun u => inv.round_goto u round, ?_,
    fun u => inv.inside_goto u ((inv.inside t).trans within.symm) (fun _ _ => Iff.rfl),
    fun u => inv.owner_goto u owns others, holds, fun u => inv.good_goto u good, fun left => ?_, inv.opened⟩
  · rw [pending] at counted
    simp only [State.goto]
    lia
  · obtain ⟨value, rest⟩ := inv.closed left
    obtain ⟨early, fresh⟩ := later left
    refine ⟨value, fun u => ?_⟩
    by_cases hu : u = t
    · subst hu
      refine ⟨(rest u).1, by simpa [State.goto] using early, ?_⟩
      have known := inv.round u
      simp only [State.goto, Function.update_self, Thread.returned]
      split
      · rename_i idle
        exact fresh idle
      · lia
    · simpa [State.goto, hu] using rest u

theorem relock_inv (inv : Inv s) (waits : (s.thread t).pc = .waiting) {e : Err}
    (back : s.sync.cond.phase t = .back e) (free : s.sync.owner = none)
    (sync : CondWait.Inv { s.sync with owner := some t, hold := 1, cond := s.sync.cond.set t .out }) :
    Inv ({ s with
      sync := { s.sync with owner := some t, hold := 1, cond := s.sync.cond.set t .out } }.goto t
        (.leaving true)) := by
  have counted := inv.recount t ⟨.leaving true, (s.thread t).round⟩
  have all : s.count = 0 := by
    by_contra left
    exact ((inv.closed left).2 t).1 e back
  refine ⟨sync, fun u => inv.round_goto u (fun _ => (inv.round t).2 (by simp [waits])), ?_,
    fun u => inv.inside_goto u (by simp [State.goto]) (fun u hu => by simp [State.goto, hu]),
    fun u => inv.owner_goto u (by simp [State.goto, Pc.runs])
      (fun u hu => by simp [State.goto, free, Ne.symm hu]), Nat.le_refl 1,
    fun u => inv.good_goto u (by simp), fun left => absurd all left, fun _ u => ?_⟩
  · have here : (s.thread t).pending = 0 := by simp [Thread.pending, waits]
    have there : (⟨.leaving true, (s.thread t).round⟩ : Thread).pending = 0 := rfl
    simp only [State.goto]
    lia
  · by_cases hu : u = t
    · simp [State.goto, hu]
    · simpa [State.goto, hu] using inv.opened all u

theorem wait_inv (inv : Inv s) (inside : (s.thread t).pc = .inside) (more : s.count - 1 ≠ 0)
    (sync : CondWait.Inv ⟨s.sync.cond.set t .unlocked, none, 0, Function.update s.sync.owed t false⟩) :
    Inv ({ s with
      count := s.count - 1
      sync := ⟨s.sync.cond.set t .unlocked, none, 0, Function.update s.sync.owed t false⟩ }.goto t
        .waiting) := by
  have counted := inv.recount t ⟨.waiting, (s.thread t).round⟩
  have left := inv.some_left inside
  have mine : s.sync.owner = some t := (inv.owner t).mp (by simp [inside, Pc.runs])
  obtain ⟨value, others⟩ := inv.closed (by lia)
  refine ⟨sync, fun u => inv.round_goto u (fun _ => (inv.round t).2 (by simp [inside])), ?_,
    fun u => inv.inside_goto u (by simp [State.goto]) (fun u hu => by simp [State.goto, hu]),
    fun u => inv.owner_goto u (by simp [State.goto, Pc.runs])
      (fun u hu => by simp [State.goto, mine, Ne.symm hu]), Nat.zero_le 1,
    fun u => inv.good_goto u (by simp), fun _ => ⟨value, fun u => ?_⟩, fun none => absurd none more⟩
  · have here : (s.thread t).pending = 1 := by simp [Thread.pending, inside]
    have there : (⟨.waiting, (s.thread t).round⟩ : Thread).pending = 0 := rfl
    simp only [State.goto]
    lia
  · by_cases hu : u = t
    · subst hu
      have known := (inv.round u).1
      refine ⟨by simp [State.goto], by simp [State.goto], ?_⟩
      simp only [State.goto, Function.update_self, Thread.returned, reduceCtorEq, if_false]
      lia
    · simpa [State.goto, hu] using others u

theorem broadcast_inv (inv : Inv s) (inside : (s.thread t).pc = .inside) (last : s.count - 1 = 0)
    {owed : T → Bool} (sync : CondWait.Inv { s.sync with cond := s.sync.cond.wakeAll, owed := owed })
    (owes : ∀ u, s.sync.cond.phase u = .unlocked → owed u = true) :
    Inv ({ s with
      count := s.count - 1
      sync := { s.sync with cond := s.sync.cond.wakeAll, owed := owed } }.goto t (.leaving true)) := by
  have counted := inv.recount t ⟨.leaving true, (s.thread t).round⟩
  have mine : s.sync.owner = some t := (inv.owner t).mp (by simp [inside, Pc.runs])
  have out : s.sync.cond.phase t = .out := by
    by_contra within
    have waits := (inv.inside t).mp within
    simp [inside] at waits
  have woken (u : T) : (s.sync.cond.wakeAll.phase u = .out ↔ s.sync.cond.phase u = .out) ∧
      s.sync.cond.wakeAll.phase u ≠ .suspended ∧
      (s.sync.cond.wakeAll.phase u = .unlocked → s.sync.cond.phase u = .unlocked) := by
    simp only [Cond.wakeAll]
    split
    · rename_i slept
      simp [slept]
    · rename_i awake
      exact ⟨Iff.rfl, awake, id⟩
  refine ⟨sync, fun u => inv.round_goto u (fun _ => (inv.round t).2 (by simp [inside])), ?_,
    fun u => inv.inside_goto u (by simp [State.goto, (woken t).1, out]) (fun u _ => (woken u).1),
    fun u => inv.owner_goto u (by simp [State.goto, Pc.runs, mine]) (fun _ _ => Iff.rfl), inv.hold,
    fun u => inv.good_goto u (by simp), fun left => absurd last left,
    fun _ u => ⟨(woken u).2.1, fun between => owes u ((woken u).2.2 between)⟩⟩
  have here : (s.thread t).pending = 1 := by simp [Thread.pending, inside]
  have there : (⟨.leaving true, (s.thread t).round⟩ : Thread).pending = 0 := rfl
  simp only [State.goto]
  lia

theorem take_inv (inv : Inv s) (waits : (s.thread t).pc = .waiting) (between : s.sync.cond.phase t = .unlocked)
    (sync : CondWait.Inv { s.sync with cond := s.sync.cond.take t (-1) }) :
    Inv ({ s with sync := { s.sync with cond := s.sync.cond.take t (-1) } }.goto t .waiting) := by
  obtain ⟨result, others⟩ := CondWait.take_cases s.sync t
  have same : Function.update s.thread t ⟨.waiting, (s.thread t).round⟩ = s.thread := by
    rw [← waits]
    exact Function.update_eq_self t s.thread
  simp only [State.goto, same]
  refine ⟨sync, inv.round, inv.count, fun u => ?_, inv.owner, inv.hold, inv.good, fun left => ?_,
    fun all u => ?_⟩
  · by_cases hu : u = t
    · subst hu
      rcases result with ⟨_, _, back⟩ | ⟨_, _, slept⟩
      · simp [back, waits]
      · simp [slept, waits]
    · rw [others u hu]
      exact inv.inside u
  · obtain ⟨value, rest⟩ := inv.closed left
    rcases result with ⟨positive, _⟩ | ⟨_, zero, slept⟩
    · lia
    · refine ⟨zero, fun u => ⟨?_, (rest u).2⟩⟩
      by_cases hu : u = t
      · simp [hu, slept]
      · rw [others u hu]
        exact (rest u).1
  · by_cases hu : u = t
    · subst hu
      have owed := (inv.opened all u).2 between
      have counted : 0 < s.sync.owes := Finset.card_pos.mpr ⟨u, by simp [CondWait.State.Owes, owed, between]⟩
      have tokens := inv.sync.tokens
      rcases result with ⟨_, _, back⟩ | ⟨zero, _⟩
      · simp [back]
      · lia
    · rw [others u hu]
      exact inv.opened all u

omit [DecidableEq T] in
theorem Inv.free (inv : Inv s) (outside : (s.thread t).pc.runs = false) : s.sync.owner ≠ some t := by
  intro mine
  rw [(inv.owner t).mpr mine] at outside
  cases outside

theorem locked_inv (inv : Inv s) (locking : (s.thread t).pc = .locking)
    (acted : s.act (.lock t) t .inside = some s') : Inv s' := by
  have free := inv.free (t := t) (by simp [locking, Pc.runs])
  obtain ⟨y, locked, rfl⟩ := Option.map_eq_some_iff.mp acted
  obtain ⟨none, rfl⟩ := sync_lock free locked
  exact goto_inv inv (by simp [locking]) (by simp [Thread.pending, locking]) (by simp [Pc.runs])
    (fun u hu => by simp [none, Ne.symm hu]) (Nat.le_refl 1) (by simp)
    (fun _ => (inv.round t).2 (by simp [locking])) (by simp)

theorem relocked_inv (inv : Inv s) (waits : (s.thread t).pc = .waiting)
    (acted : s.act (.relock t) t (.leaving true) = some s') : Inv s' := by
  have free := inv.free (t := t) (by simp [waits, Pc.runs])
  obtain ⟨y, locked, rfl⟩ := Option.map_eq_some_iff.mp acted
  have sync := CondWait.step_inv inv.sync (show CondWait.Guard s.sync (.relock t) from trivial) locked
  obtain ⟨none, ⟨e, back⟩, rfl⟩ := sync_relock free locked
  exact relock_inv inv waits back none sync

theorem body_inv (inv : Inv s) (guard : Guard s (.body t)) (inside : (s.thread t).pc = .inside)
    (done : s.body t = some s') : Inv s' := by
  have left := inv.some_left inside
  have mine : s.sync.owner = some t := (inv.owner t).mp (by simp [inside, Pc.runs])
  simp only [State.body] at done
  rw [if_neg (by lia)] at done
  split at done
  · rename_i last
    obtain ⟨y, acted, rfl⟩ := Option.map_eq_some_iff.mp done
    have room : CondWait.Guard s.sync (.broadcast t) :=
      Nat.le_trans (guard (by lia)) (Nat.le_max_left _ _)
    have sync := CondWait.step_inv inv.sync room acted
    have same := sync_broadcast (s := s) inv.sync.cond acted
    subst same
    exact broadcast_inv inv inside last sync (by simp +contextual)
  · rename_i more
    obtain ⟨y, acted, rfl⟩ := Option.map_eq_some_iff.mp done
    have sync := CondWait.step_inv inv.sync (show CondWait.Guard s.sync (.wait t) from trivial) acted
    have same := sync_wait (s := s) mine inv.hold acted
    subst same
    exact wait_inv inv inside more sync

theorem taken_inv (inv : Inv s) (waits : (s.thread t).pc = .waiting)
    (done : s.act (.take t) t .waiting = some s') : Inv s' := by
  obtain ⟨y, acted, rfl⟩ := Option.map_eq_some_iff.mp done
  have later : CondWait.Guard s.sync (.take t) := by
    intro owed positive
    obtain ⟨between, _⟩ := sync_take acted
    by_cases left : s.count = 0
    · simp [(inv.opened left t).2 between] at owed
    · have zero := (inv.closed left).1
      lia
  have sync := CondWait.step_inv inv.sync later acted
  obtain ⟨between, rfl⟩ := sync_take acted
  exact take_inv inv waits between sync

theorem unlocked_inv {ok : Bool} (inv : Inv s) (leaving : (s.thread t).pc = .leaving ok)
    (done : s.act (.unlock t) t .idle = some s') : ok = true ∧ Inv s' := by
  obtain ⟨y, acted, rfl⟩ := Option.map_eq_some_iff.mp done
  have mine : s.sync.owner = some t := (inv.owner t).mp (by simp [leaving, Pc.runs])
  have same := sync_unlock mine inv.hold acted
  subst same
  obtain rfl : ok = true := by
    by_contra failed
    exact inv.good t (by simpa [failed] using leaving)
  have first := (inv.round t).2 (by simp [leaving])
  exact ⟨rfl, goto_inv inv (by simp [leaving]) (by simp [Thread.pending, leaving, first]) (by simp [Pc.runs])
    (fun u hu => by simp [mine, Ne.symm hu]) (Nat.zero_le 1) (by simp) (by simp)
    (fun left => absurd leaving ((inv.closed left).2 t).2.1)⟩

theorem step_inv (inv : Inv s) (guard : Guard s a) (taken : step s a = some (s', es)) :
    Inv s' ∧ ∀ e ∈ es, e.ok = true := by
  cases a with
  | call t =>
    simp only [step] at taken
    split at taken <;> cases taken
    rename_i idle
    exact ⟨call_inv inv idle guard, by simp⟩
  | lock t =>
    simp only [step] at taken
    split at taken
    · rename_i locking
      rw [if_neg (inv.free (by simp [locking, Pc.runs]))] at taken
      obtain ⟨r, acted, same⟩ := Option.map_eq_some_iff.mp taken
      cases same
      exact ⟨locked_inv inv locking acted, by simp⟩
    · rename_i waits
      obtain ⟨r, acted, same⟩ := Option.map_eq_some_iff.mp taken
      cases same
      exact ⟨relocked_inv inv waits acted, by simp⟩
    · contradiction
  | body t =>
    simp only [step] at taken
    split at taken
    · rename_i inside
      obtain ⟨r, done, same⟩ := Option.map_eq_some_iff.mp taken
      cases same
      exact ⟨body_inv inv guard inside done, by simp⟩
    · contradiction
  | take t =>
    simp only [step] at taken
    split at taken
    · rename_i waits
      obtain ⟨r, done, same⟩ := Option.map_eq_some_iff.mp taken
      cases same
      exact ⟨taken_inv inv waits done, by simp⟩
    · contradiction
  | unlock t =>
    simp only [step] at taken
    split at taken
    · rename_i ok leaving
      obtain ⟨r, done, same⟩ := Option.map_eq_some_iff.mp taken
      cases same
      obtain ⟨rfl, left⟩ := unlocked_inv inv leaving done
      exact ⟨left, by simp [Event.ok]⟩
    · contradiction

end RtThread.Pthread.Barrier
