import RtThread.Pthread.Cond
import RtThread.Pthread.RwLock

/-! The read-write lock with its two condition variables as they are, as steps of the lock over
arbitrary ones. -/
namespace RtThread.Pthread.RwLock
open Transition

namespace Strand

structure State (T : Type) where
  base : RwLock.State T
  cond : Queue → Cond T

/-- `ticks`: what is left of the time of a timed call; `expire` is its timer. -/
inductive Action (T : Type) where
  | call (t : T) (c : Call)
  | lock (t : T)
  | body (t : T)
  | take (t : T) (ticks : Nat)
  | expire (t : T)
  | unlock (t : T)

def timed : Call → Bool
  | .timedrdlock | .timedwrlock => true
  | _ => false

/-- pthread_cond_wait and pthread_cond_timedwait on the result of rt_sem_take. -/
def errno (c : Call) : Err → Errno
  | .eok => .ok
  | .etimeout => if timed c then .etimedout else .einval
  | _ => .einval

variable {T : Type} [DecidableEq T]

/-- pthread_cond_destroy; the first use after it sets the condition variable up anew, empty. -/
def condDestroy (c : Cond T) : Cond T :=
  match c.trytake with
  | none => c
  | some c => ⟨0, [], c.phase⟩

/-- What pthread_rwlock_destroy does to the condition variables once the counters are 0. -/
def destroyTry (cond : Queue → Cond T) : Bool × (Queue → Cond T) :=
  match (cond .readers).trytake with
  | none => (false, cond)
  | some readers =>
    match (cond .writers).trytake with
    | none => (false, Function.update cond .readers readers.release)
    | some writers =>
      (true, Function.update (Function.update cond .readers (condDestroy readers.release)) .writers
        (condDestroy writers.release))

def State.put (s : State T) (q : Queue) (c : Cond T) : State T :=
  { s with cond := Function.update s.cond q c }

/-- The part of a stretch of code that acts on the condition variables. -/
def State.touch (s : State T) (t : T) (c : Call) : Next → Option (State T)
  | .wait q => some (s.put q ((s.cond q).set t .unlocked))
  | .keep _ => some s
  | .leave _ wake =>
    if c = .destroy then some { s with cond := (destroyTry s.cond).2 }
    else
      match wake with
      | .signal => some (s.put .writers (s.cond .writers).release)
      | .broadcast => (s.cond .readers).broadcast.map (s.put .readers)
      | .nobody | .clear => some s

def State.turn (s : State T) (t : T) (c : Call) (r : Lock × Next) :
    Option (State T × List (Event T)) :=
  let b := s.base.advance t c r
  ({ s with base := b.1 }.touch t c r.2).map (fun s => (s, b.2))

def State.plain (s : State T) (a : RwLock.Action T) : Option (State T × List (Event T)) :=
  (RwLock.step s.base a).map (fun b => ({ s with base := b.1 }, b.2))

/-- The pthread_mutex_lock behind the wait. -/
def State.relock (s : State T) (t : T) (c : Call) (q : Queue) (err : Err) :
    Option (State T × List (Event T)) :=
  (RwLock.machine.exec s.base [.wake t (errno c err), .lock t]).map (fun b =>
    ({ s with base := b.1 }.put q ((s.cond q).set t .out), b.2))

def step (s : State T) : Action T → Option (State T × List (Event T))
  | .call t c => s.plain (.call t c)
  | .unlock t => s.plain (.unlock t)
  | .lock t =>
    match s.base.pc t with
    | .waiting c =>
      match c.queue with
      | none => none
      | some q =>
        match (s.cond q).phase t with
        | .back err => s.relock t c q err
        | _ => none
    | _ => s.plain (.lock t)
  | .body t =>
    match s.base.pc t with
    | .inside c => s.turn t c (enter c (destroyTry s.cond).1 s.base.lock)
    | .back c result => s.turn t c (resume c result s.base.lock)
    | _ => none
  | .take t ticks =>
    match s.base.pc t with
    | .waiting c =>
      match c.queue with
      | none => none
      | some q =>
        if (s.cond q).phase t = .unlocked then
          some (s.put q ((s.cond q).take t (if timed c then ticks else -1)), [])
        else none
    | _ => none
  | .expire t =>
    match s.base.pc t with
    | .waiting c =>
      match c.queue with
      | none => none
      | some q =>
        if (s.cond q).phase t = .suspended ∧ timed c then some (s.put q ((s.cond q).expire t), []) else none
    | _ => none

def init : State T := ⟨RwLock.init, fun _ => .init⟩

def machine : Machine (State T) (Action T) (Event T) where
  start s := s = init
  step := step

/-- Woken, and with the mutex locked again. -/
def called (q : Queue) : Pc → Bool
  | .back c result => result = .ok ∧ c.queue = some q
  | _ => false

def givesUp : Pc → Bool
  | .back c result => result ≠ .ok ∧ c.queue = some .writers
  | _ => false

/-- A condition variable knows the threads that wait on it. -/
structure Inv (s : State T) : Prop where
  cond : ∀ q, (s.cond q).Inv
  inside : ∀ q t, (s.cond q).phase t ≠ .out ↔ ∃ c, s.base.pc t = .waiting c ∧ c.queue = some q

section
variable {s s' : State T} {t u : T} {c : Call} {l m : Lock} {next : Next} {q : Queue} {a : Action T}
  {es tr : List (Event T)} {result : Errno} {wake : Wake}

theorem touch_base (touched : s.touch t c next = some s') : s'.base = s.base := by
  simp only [State.touch] at touched
  split at touched
  · cases touched
    rfl
  · cases touched
    rfl
  · split at touched
    · cases touched
      rfl
    · split at touched
      · cases touched
        rfl
      · obtain ⟨c, _, rfl⟩ := Option.map_eq_some_iff.mp touched
        rfl
      · cases touched
        rfl
      · cases touched
        rfl

theorem exec_one {b : RwLock.State T} {a : RwLock.Action T} {r : RwLock.State T × List (Event T)}
    (taken : RwLock.step b a = some r) : RwLock.machine.exec b [a] = some r := by
  have taken : RwLock.machine.step b a = some r := taken
  simp [Machine.exec, taken]

/-- Every step is steps of the lock over arbitrary condition variables. -/
theorem step_base (taken : step s a = some (s', es)) :
    ∃ as, RwLock.machine.exec s.base as = some (s'.base, es) := by
  have plain {a : RwLock.Action T} (taken : s.plain a = some (s', es)) :
      ∃ as, RwLock.machine.exec s.base as = some (s'.base, es) := by
    obtain ⟨b, done, same⟩ := Option.map_eq_some_iff.mp taken
    cases same
    exact ⟨[a], exec_one done⟩
  have turn {t : T} {c : Call} {r : Lock × Next} (tokens : Bool)
      (done : RwLock.step s.base (.body t tokens) = some (s.base.advance t c r))
      (taken : s.turn t c r = some (s', es)) :
      ∃ as, RwLock.machine.exec s.base as = some (s'.base, es) := by
    obtain ⟨mid, touched, same⟩ := Option.map_eq_some_iff.mp taken
    cases same
    rw [touch_base touched]
    exact ⟨[.body t tokens], exec_one done⟩
  cases a with
  | call t c => exact plain taken
  | unlock t => exact plain taken
  | lock t =>
    simp only [step] at taken
    split at taken
    · split at taken
      · contradiction
      · split at taken
        · obtain ⟨b, done, same⟩ := Option.map_eq_some_iff.mp taken
          cases same
          exact ⟨_, done⟩
        · contradiction
    · exact plain taken
  | body t =>
    simp only [step] at taken
    split at taken
    · rename_i c inside
      exact turn (destroyTry s.cond).1 (by simp [RwLock.step, inside]) taken
    · rename_i c result back
      exact turn false (by simp [RwLock.step, back]) taken
    · contradiction
  | take t ticks =>
    simp only [step] at taken
    split at taken
    · split at taken
      · contradiction
      · split at taken <;> cases taken
        exact ⟨[], rfl⟩
    · contradiction
  | expire t =>
    simp only [step] at taken
    split at taken
    · split at taken
      · contradiction
      · split at taken <;> cases taken
        exact ⟨[], rfl⟩
    · contradiction

theorem run_base (run : Run (machine (T := T)) tr s) : ∃ tr, Run RwLock.machine tr s.base := by
  refine run.invariant (I := fun _ s => ∃ tr, Run RwLock.machine tr s.base) (fun s start => ?_) ?_
  · cases start
    exact ⟨[], .start rfl⟩
  · rintro _ s a s' es ⟨tr, before⟩ taken
    obtain ⟨as, done⟩ := step_base taken
    exact ⟨_, before.exec done⟩

theorem resume_ok (waits : c.queue = some q) (done : resume c .ok l = (m, .leave result wake)) :
    result = .ok := by
  cases c <;> simp only [Call.queue, Option.some.injEq, reduceCtorEq] at waits
  all_goals
    simp only [resume, afterWait, ne_eq, not_true_eq_false, if_false, readLoop, writeLoop] at done
    split at done <;> cases done
    rfl

theorem destroy_zero {tokens : Bool} (done : destroy tokens l = (m, .leave result wake)) :
    l = ⟨0, 0, 0⟩ := by
  simp only [destroy] at done
  split at done
  · cases done
  · rename_i free
    ext <;> simp <;> omega

omit [DecidableEq T] in
theorem Inv.empty [Fintype T] (inv : Inv s) (base : RwLock.Inv s.base) (q : Queue)
    (zero : s.base.lock.count q = 0) (t : T) : (s.cond q).phase t = .out := by
  by_contra within
  obtain ⟨c, waiting, waits⟩ := (inv.inside q t).mp within
  have count := base.count q
  have one : (s.base.pc t).on q = 1 := by simp [waiting, Pc.on, Pc.wait, waits]
  have counted : (s.base.pc t).on q ≤ ∑ t, (s.base.pc t).on q :=
    Tally.le_sum (fun t => (s.base.pc t).on q) t
  omega

omit [DecidableEq T] in
theorem condInv_out {c : Cond T} (out : ∀ t, c.phase t = .out) : (Cond.mk 0 [] c.phase).Inv :=
  ⟨fun t => by simp [out t], List.nodup_nil, fun _ => rfl, Nat.zero_le _⟩

omit [DecidableEq T] in
theorem condInv_queue {c : Cond T} (inv : c.Inv) (out : ∀ t, c.phase t = .out) : c.queue = [] :=
  List.eq_nil_iff_forall_not_mem.mpr fun t here => by simpa [out t] using (inv.listed t).mp here

theorem release_out {c : Cond T} (inv : c.Inv) (u : T) : c.release.phase u = .out ↔ c.phase u = .out := by
  simp only [Cond.release]
  split
  · rename_i w rest list
    have first : c.phase w = .suspended := (inv.listed w).mp (by simp [list])
    by_cases hu : u = w
    · simp [hu, first]
    · simp [hu]
  · split <;> rfl

omit [DecidableEq T] in
theorem wakeAll_out (c : Cond T) (u : T) : c.wakeAll.phase u = .out ↔ c.phase u = .out := by
  simp only [Cond.wakeAll]
  split
  · rename_i slept
    simp [slept]
  · exact Iff.rfl

theorem destroyTry_out {cond : Queue → Cond T} (inv : ∀ q, (cond q).Inv)
    (out : ∀ q t, (cond q).phase t = .out) (q : Queue) :
    ((destroyTry cond).2 q).Inv ∧ ((destroyTry cond).2 q).phase = (cond q).phase := by
  have tried {c c' : Cond T} (sound : c.Inv) (free : ∀ t, c.phase t = .out) (tried : c.trytake = some c') :
      c'.release.Inv ∧ c'.release.phase = c.phase := by
    simp only [Cond.trytake] at tried
    split at tried
    · rename_i positive
      cases tried
      refine ⟨(sound.lower positive).release, ?_⟩
      simp only [Cond.release, condInv_queue sound free]
      split <;> rfl
    · contradiction
  have destroyed {c : Cond T} (sound : c.Inv) (free : ∀ t, c.phase t = .out) :
      (condDestroy c).Inv ∧ (condDestroy c).phase = c.phase := by
    simp only [condDestroy, Cond.trytake]
    split
    · exact ⟨sound, rfl⟩
    · rename_i c' took
      split at took
      · cases took
        exact ⟨condInv_out free, rfl⟩
      · contradiction
  simp only [destroyTry]
  split
  · exact ⟨inv q, rfl⟩
  · rename_i readers took
    obtain ⟨sound, phase⟩ := tried (inv .readers) (out .readers) took
    split
    · cases q with
      | readers => simpa using ⟨sound, phase⟩
      | writers => simpa using inv .writers
    · rename_i writers took
      obtain ⟨sound', phase'⟩ := tried (inv .writers) (out .writers) took
      cases q with
      | readers =>
        obtain ⟨final, same⟩ := destroyed sound (fun t => by rw [phase]; exact out .readers t)
        simpa using ⟨final, same.trans phase⟩
      | writers =>
        obtain ⟨final, same⟩ := destroyed sound' (fun t => by rw [phase']; exact out .writers t)
        simpa using ⟨final, same.trans phase'⟩

end

section
variable [Fintype T] {s s' : State T} {t u : T} {c : Call} {l m : Lock} {next : Next} {q : Queue}
  {a : Action T} {es tr : List (Event T)} {result : Errno} {wake : Wake}

/-- What a stretch of code starts from and comes to. -/
structure Turn (s s' : State T) (t : T) (c : Call) (m l : Lock) (next : Next) (es : List (Event T)) :
    Prop where
  runs : (s.base.pc t).runs = true
  apart : ∀ q, s.base.lock.count q = m.count q + (s.base.pc t).on q
  refcount : m.refcount = s.base.lock.refcount
  does : Does c m (l, next)
  done : s.turn t c (l, next) = some (s', es)
  destroys : c = .destroy → s.base.pc t = .inside .destroy ∧
    ∀ result wake, next = .leave result wake → s.base.lock = ⟨0, 0, 0⟩
  woken : ∀ q, called q (s.base.pc t) = true → c.queue = some q ∧
    ∀ result wake, next = .leave result wake → result = .ok
  gives : ∀ result wake, next = .leave result wake → result ≠ .ok →
    (s.base.pc t).on .writers = 1 → givesUp (s.base.pc t) = true
  place : ∀ q, (s.base.pc t).on q = 1 → c.queue = some q

theorem body_turn (base : RwLock.Inv s.base) (taken : step s (.body t) = some (s', es)) :
    ∃ c m l next, Turn s s' t c m l next es := by
  simp only [step] at taken
  split at taken
  · rename_i c inside
    refine ⟨c, s.base.lock, _, _, by simp [inside, Pc.runs], fun q => by simp [inside, Pc.on, Pc.wait], rfl,
      enter_does c _ s.base.lock, taken, fun destroys => ?_, fun q here => ?_, ?_, ?_⟩
    · subst destroys
      exact ⟨inside, fun result wake leaves => destroy_zero (Prod.ext rfl leaves)⟩
    · simp [inside, called] at here
    · intro _ _ _ _ on
      simp [inside, Pc.on, Pc.wait] at on
    · intro _ on
      simp [inside, Pc.on, Pc.wait] at on
  · rename_i c result back
    obtain ⟨q, waits⟩ := base.waits t c (by simp [back, Pc.wait])
    refine ⟨c, s.base.lock.part q, _, _, by simp [back, Pc.runs], fun q' => ?_, part_refcount _ _,
      resume_does waits result s.base.lock, taken, fun destroys => ?_, fun q' here => ?_, ?_, ?_⟩
    · rw [count_part]
      by_cases same : q = q' <;> simp [back, Pc.on, Pc.wait, waits, same]
    · subst destroys
      cases waits
    · simp only [called, back, decide_eq_true_eq] at here
      obtain ⟨rfl, queue⟩ := here
      exact ⟨queue, fun result wake leaves => resume_ok queue (Prod.ext rfl leaves)⟩
    · intro left wake leaves failed on
      have queue : c.queue = some .writers := by
        by_contra other
        simp [back, Pc.on, Pc.wait, other] at on
      simp only [givesUp, back, decide_eq_true_eq]
      refine ⟨fun ok => failed ?_, queue⟩
      subst ok
      exact resume_ok queue (Prod.ext rfl leaves)
    · intro q' on
      by_contra other
      simp [back, Pc.on, Pc.wait, other] at on
  · contradiction

omit [Fintype T] in
/-- What is left of the condition variables, but for a destroyed lock. -/
theorem Turn.conds (turn : Turn s s' t c m l next es)
    (lives : c ≠ .destroy ∨ ∃ result, next = .keep result) :
    match next with
    | .wait q => s'.cond = Function.update s.cond q ((s.cond q).set t .unlocked)
    | .leave _ .signal => s'.cond = Function.update s.cond .writers (s.cond .writers).release
    | .leave _ .broadcast => ∃ r, (s.cond .readers).broadcast = some r ∧
        s'.cond = Function.update s.cond .readers r
    | .leave _ _ | .keep _ => s'.cond = s.cond := by
  obtain ⟨mid, touched, same⟩ := Option.map_eq_some_iff.mp turn.done
  cases same
  cases next with
  | wait q =>
    cases touched
    rfl
  | keep result =>
    cases touched
    rfl
  | leave result wake =>
    have lives : c ≠ .destroy := lives.resolve_right (by simp)
    simp only [State.touch, lives, if_false] at touched
    cases wake with
    | nobody =>
      cases touched
      rfl
    | clear =>
      cases touched
      rfl
    | signal =>
      cases touched
      rfl
    | broadcast =>
      obtain ⟨r, done, rfl⟩ := Option.map_eq_some_iff.mp touched
      exact ⟨r, done, rfl⟩

omit [Fintype T] in
theorem Turn.base (turn : Turn s s' t c m l next es) :
    s.base.advance t c (l, next) = (s'.base, es) := by
  obtain ⟨mid, touched, same⟩ := Option.map_eq_some_iff.mp turn.done
  cases same
  rw [touch_base touched]

omit [Fintype T] in
theorem Turn.pc (turn : Turn s s' t c m l next es) :
    s'.base.pc = Function.update s.base.pc t (next.pc c) := by
  have same := advance_pc s.base t c (l, next)
  rwa [turn.base] at same

omit [Fintype T] in
theorem Turn.lock (turn : Turn s s' t c m l next es) : s'.base.lock = l := by
  have same := advance_lock s.base t c (l, next)
  rwa [turn.base] at same

omit [Fintype T] in
theorem Turn.owner (turn : Turn s s' t c m l next es) : s'.base.owner = next.owner s.base.owner := by
  have same := advance_owner s.base t c (l, next)
  rwa [turn.base] at same

omit [Fintype T] [DecidableEq T] in
theorem Inv.out (inv : Inv s) (runs : (s.base.pc t).runs = true) (q : Queue) : (s.cond q).phase t = .out := by
  by_contra within
  obtain ⟨c, waiting, _⟩ := (inv.inside q t).mp within
  simp [waiting, Pc.runs] at runs

theorem Turn.count (turn : Turn s s' t c m l next es) (base : RwLock.Inv s.base) : RwLock.Inv s'.base := by
  have after := base.advance turn.runs turn.apart turn.does
  rwa [turn.base] at after

omit [Fintype T] in
theorem Turn.elsewhere (turn : Turn s s' t c m l next es) (inv : Inv s) (p : Queue → T → Phase)
    (same : ∀ q u, p q u = .out ↔ (s.cond q).phase u = .out) (stays : ∀ c', next.pc c ≠ .waiting c')
    (q : Queue) (u : T) : p q u ≠ .out ↔ ∃ c, s'.base.pc u = .waiting c ∧ c.queue = some q := by
  rw [turn.pc, ne_eq, same q u, ← ne_eq, inv.inside q u]
  by_cases hu : u = t
  · subst hu
    rw [Function.update_self]
    constructor
    · rintro ⟨c', waiting, _⟩
      have runs := turn.runs
      simp [waiting, Pc.runs] at runs
    · rintro ⟨c', waiting, _⟩
      exact absurd waiting (stays c')
  · rw [Function.update_of_ne hu]

omit [Fintype T] in
theorem Turn.update (turn : Turn s s' t c m l next es) (inv : Inv s) (stays : ∀ c', next.pc c ≠ .waiting c')
    {r : Cond T} (cond : s'.cond = Function.update s.cond q r) (sound : r.Inv)
    (out : ∀ u, r.phase u = .out ↔ (s.cond q).phase u = .out) : Inv s' := by
  refine ⟨fun q' => ?_, turn.elsewhere inv _ (fun q' u => ?_) stays⟩
  · rw [cond]
    by_cases hq : q' = q
    · subst hq
      rwa [Function.update_self]
    · rw [Function.update_of_ne hq]
      exact inv.cond q'
  · rw [cond]
    by_cases hq : q' = q
    · subst hq
      rw [Function.update_self]
      exact out u
    · rw [Function.update_of_ne hq]

omit [Fintype T] in
theorem Turn.waits (turn : Turn s s' t c m l (.wait q) es) (inv : Inv s)
    (cond : s'.cond = Function.update s.cond q ((s.cond q).set t .unlocked)) : Inv s' := by
  have waits : c.queue = some q := by
    cases turn.does with
    | wait waits taken => exact waits
  have outside := inv.out turn.runs
  refine ⟨fun q' => ?_, fun q' u => ?_⟩
  · rw [cond]
    by_cases hq : q' = q
    · subst hq
      rw [Function.update_self]
      exact (inv.cond q').set (by simp [outside q']) (by simp)
    · rw [Function.update_of_ne hq]
      exact inv.cond q'
  · rw [cond, turn.pc]
    by_cases hu : u = t
    · subst hu
      rw [Function.update_self]
      by_cases hq : q' = q
      · subst hq
        simp [Next.pc, waits]
      · rw [Function.update_of_ne hq]
        simp [outside q', Next.pc, waits, Ne.symm hq]
    · rw [Function.update_of_ne hu, ← inv.inside q' u]
      by_cases hq : q' = q
      · subst hq
        simp [hu]
      · rw [Function.update_of_ne hq]

theorem Turn.inv (turn : Turn s s' t c m l next es) (inv : Inv s) (base : RwLock.Inv s.base) : Inv s' := by
  by_cases destroyed : c = .destroy ∧ ∃ result wake, next = .leave result wake
  · obtain ⟨destroys, result, wake, leaves⟩ := destroyed
    have zero := (turn.destroys destroys).2 result wake leaves
    have out (q : Queue) (u : T) : (s.cond q).phase u = .out :=
      inv.empty base q (by rw [zero]; cases q <;> rfl) u
    obtain ⟨mid, touched, same⟩ := Option.map_eq_some_iff.mp turn.done
    subst leaves destroys
    cases same
    cases touched
    refine ⟨fun q => (destroyTry_out inv.cond out q).1,
      turn.elsewhere inv _ (fun q u => ?_) (by simp [Next.pc])⟩
    rw [(destroyTry_out inv.cond out q).2]
  · have lives : c ≠ .destroy ∨ ∃ result, next = .keep result := by
      by_cases destroys : c = .destroy
      · cases next with
        | keep result => exact Or.inr ⟨result, rfl⟩
        | leave result wake => exact absurd ⟨destroys, result, wake, rfl⟩ destroyed
        | wait q =>
          cases turn.does with
          | wait waits taken =>
            subst destroys
            cases waits
      · exact Or.inl destroys
    have conds := turn.conds lives
    cases next with
    | wait q => exact turn.waits inv conds
    | keep result =>
      rw [show s' = ⟨s'.base, s.cond⟩ from congrArg (State.mk s'.base) conds]
      exact ⟨inv.cond, turn.elsewhere inv _ (fun _ _ => Iff.rfl) (by simp [Next.pc])⟩
    | leave result wake =>
      have stays : ∀ c', (Next.leave result wake).pc c ≠ .waiting c' := by simp [Next.pc]
      cases wake with
      | nobody => exact ⟨conds ▸ inv.cond, turn.elsewhere inv _ (fun _ _ => by rw [conds]) stays⟩
      | clear => exact ⟨conds ▸ inv.cond, turn.elsewhere inv _ (fun _ _ => by rw [conds]) stays⟩
      | signal => exact turn.update inv stays conds (inv.cond .writers).release (release_out (inv.cond .writers))
      | broadcast =>
        obtain ⟨r, done, cond⟩ := conds
        rw [Cond.broadcast_eq (inv.cond .readers)] at done
        cases done
        exact turn.update inv stays cond (inv.cond .readers).wakeAll (wakeAll_out (s.cond .readers))

end

section
variable [Fintype T] {s s' : State T} {t u : T} {c : Call} {l m : Lock} {next : Next} {q : Queue}
  {a : Action T} {es tr : List (Event T)} {result : Errno} {wake : Wake} {k : Cond T}

omit [Fintype T] in
theorem Inv.put (inv : Inv s) (waiting : s.base.pc t = .waiting c) (waits : c.queue = some q)
    (sound : k.Inv) (inside : k.phase t ≠ .out) (others : ∀ u, u ≠ t → k.phase u = (s.cond q).phase u) :
    Inv (s.put q k) := by
  refine ⟨fun q' => ?_, fun q' u => ?_⟩
  · by_cases hq : q' = q
    · subst hq
      simpa [State.put] using sound
    · simpa [State.put, hq] using inv.cond q'
  · by_cases hq : q' = q
    · subst hq
      simp only [State.put, Function.update_self]
      by_cases hu : u = t
      · subst hu
        simp [inside, waiting, waits]
      · rw [others u hu]
        exact inv.inside q' u
    · simpa [State.put, hq] using inv.inside q' u

omit [Fintype T] in
theorem take_phases (k : Cond T) (t : T) (timeout : Int) : (k.take t timeout).phase t ≠ .out ∧
    (∀ u, u ≠ t → (k.take t timeout).phase u = k.phase u) ∧
    ((k.take t timeout).value = k.value ∨ (k.take t timeout).phase t = .back .eok) := by
  simp only [Cond.take]
  split
  · exact ⟨by simp, fun u hu => by simp [hu], Or.inr (by simp)⟩
  · split
    · exact ⟨by simp, fun u hu => by simp [hu], Or.inl rfl⟩
    · exact ⟨by simp, fun u hu => by simp [hu], Or.inl rfl⟩

end

end Strand

end RtThread.Pthread.RwLock
