import RtThread.Run
import RtThread.Wait

/-! Mutexes: rt_mutex_take and rt_mutex_release over every order of their sections,
for any family of mutexes, the wait list of mutex `m` being `.wait m`. Both calls
are made in thread context only. -/
namespace RtThread.Mutex
open Kernel Transition

def rtMutexValueMax : Nat := 0xffff
def rtMutexHoldMax : Nat := 0xff

structure MutexObj where
  value : Nat
  originalPriority : Nat
  hold : Nat
  owner : Option Tid
  flag : IpcFlag
  deriving DecidableEq

def rtMutexInit (flag : IpcFlag) : MutexObj := ⟨1, 0xff, 0, none, flag⟩

/-- `waiting t = some m`: thread `t` is in the rt_schedule call of rt_mutex_take on `m`. -/
structure State where
  kernel : Kernel
  mutex : Nat → MutexObj
  waiting : Tid → Option Nat

def State.set (s : State) (m : Nat) (x : MutexObj) : State :=
  { s with mutex := Function.update s.mutex m x }

/-- `acquired`, `retook` and `returned _ _ .eok` are takes that return RT_EOK. `handed`
is the part of a release that makes the first waiter the owner, `overflow` an
-RT_EFULL return that comes after a partial update. -/
inductive Event where
  | acquired (t : Tid) (m : Nat)
  | retook (t : Tid) (m : Nat)
  | failed (t : Tid) (m : Nat) (e : Err)
  | returned (t : Tid) (m : Nat) (e : Err)
  | released (t : Tid) (m : Nat)
  | handed (t : Tid) (m : Nat)
  | refused (t : Tid) (m : Nat)
  | overflow (t : Tid) (m : Nat)
  deriving DecidableEq

inductive Action where
  | take (t : Tid) (m : Nat) (time : Int)
  | wake (t : Tid)
  | release (t : Tid) (m : Nat)
  | timeout (t : Tid)

/-- A thread that can make a call: running, and not inside one. -/
def running (s : State) (t : Tid) : Bool :=
  (s.waiting t).isNone && decide ((s.kernel.thread t).stat = .ready)

/-- The priority donated to the owner before the caller is suspended. -/
def donate (k : Kernel) (t owner : Tid) : Kernel :=
  if (k.thread t).currentPriority < (k.thread owner).currentPriority then
    k.rtThreadChangePriority owner (k.thread t).currentPriority
  else k

def rtMutexTake (s : State) (t : Tid) (m : Nat) (time : Int) : Option (State × List Event) :=
  if running s t then
    let k := s.kernel.modify t (fun th => { th with error := .eok })
    let s := { s with kernel := k }
    let x := s.mutex m
    if x.owner = some t then
      if x.hold < rtMutexHoldMax then
        some (s.set m { x with hold := x.hold + 1 }, [.retook t m])
      else some (s, [.failed t m .efull])
    else if 0 < x.value then
      let x := { x with
        value := x.value - 1, owner := some t, originalPriority := (k.thread t).currentPriority }
      if x.hold < rtMutexHoldMax then
        some (s.set m { x with hold := x.hold + 1 }, [.acquired t m])
      else some (s.set m x, [.overflow t m])
    else if time = 0 then
      some ({ s with kernel := k.modify t (fun th => { th with error := .etimeout }) },
        [.failed t m .etimeout])
    else
      match x.owner with
      | none => none
      | some owner =>
        (((donate k t owner).rtIpcListSuspend (.wait m) t x.flag).startWaitTimer t time).map (fun k =>
          ({ s with kernel := k, waiting := Function.update s.waiting t (some m) }, []))
  else none

/-- The end of rt_mutex_take after rt_schedule has come back to the caller. -/
def takeReturn (s : State) (t : Tid) : Option (State × List Event) :=
  match s.waiting t with
  | none => none
  | some m =>
    if (s.kernel.thread t).stat = .ready then
      some ({ s with waiting := Function.update s.waiting t none },
        [.returned t m (s.kernel.thread t).error])
    else none

/-- The owner `t` gets back the priority `p` it had when it took the mutex. -/
def restore (k : Kernel) (t : Tid) (p : Nat) : Kernel :=
  if p ≠ (k.thread t).currentPriority then k.rtThreadChangePriority t p else k

/-- The owner's last release, `x` being the mutex with `hold` already 0. -/
def releaseLast (s : State) (t : Tid) (m : Nat) (x : MutexObj) : State × List Event :=
  let k := restore s.kernel t x.originalPriority
  match k.list (.wait m) with
  | w :: _ =>
    let x := { x with owner := some w, originalPriority := (k.thread w).currentPriority }
    if x.hold < rtMutexHoldMax then
      ({ s.set m { x with hold := x.hold + 1 } with kernel := k.rtIpcListResume (.wait m) },
        [.released t m, .handed w m])
    else ({ s.set m x with kernel := k }, [.overflow t m])
  | [] =>
    if x.value < rtMutexValueMax then
      ({ s.set m { x with value := x.value + 1, owner := none, originalPriority := 0xff } with
        kernel := k }, [.released t m])
    else ({ s.set m x with kernel := k }, [.overflow t m])

/- `hold` is an rt_uint8_t. -/
def rtMutexRelease (s : State) (t : Tid) (m : Nat) : Option (State × List Event) :=
  if running s t then
    let x := s.mutex m
    if x.owner ≠ some t then
      some ({ s with kernel := s.kernel.modify t (fun th => { th with error := .error }) },
        [.refused t m])
    else
      let x := { x with hold := (x.hold + 255) % 256 }
      if x.hold = 0 then some (releaseLast s t m x)
      else some (s.set m x, [.released t m])
  else none

def step (s : State) : Action → Option (State × List Event)
  | .take t m time => rtMutexTake s t m time
  | .wake t => takeReturn s t
  | .release t m => rtMutexRelease s t m
  | .timeout t => (s.kernel.timerExpire t).map (fun k => ({ s with kernel := k }, []))

/-- After rt_mutex_init of every mutex, with no thread inside a call. -/
structure Start (s : State) : Prop where
  mutex : ∀ m, ∃ flag, s.mutex m = rtMutexInit flag
  list : ∀ m, s.kernel.list (.wait m) = []
  idle : ∀ t, s.waiting t = none

def machine : Machine State Action Event where
  start := Start
  step := step

def Free (s : State) (m : Nat) : Prop :=
  (s.mutex m).value = 1 ∧ (s.mutex m).owner = none ∧ (s.mutex m).hold = 0 ∧
    s.kernel.list (.wait m) = []

def Owned (s : State) (m : Nat) : Prop :=
  (s.mutex m).value = 0 ∧ (s.mutex m).owner ≠ none ∧
    1 ≤ (s.mutex m).hold ∧ (s.mutex m).hold ≤ rtMutexHoldMax

def Event.acquires (t : Tid) (m : Nat) (e : Event) : Bool :=
  e = .acquired t m || e = .handed t m

def Event.takes (t : Tid) (m : Nat) (e : Event) : Bool :=
  e.acquires t m || e = .retook t m

/-- What happened from the last acquisition of `m` by `t` on. -/
def sinceAcquired (t : Tid) (m : Nat) (tr : List Event) : List Event :=
  tr.foldl (fun acc e => if e.acquires t m then [e] else acc ++ [e]) []

/-- Since `t` acquired `m` it has taken it `n` times more often than released it. -/
def Holds (t : Tid) (m : Nat) (tr : List Event) (n : Nat) : Prop :=
  n + (sinceAcquired t m tr).count (.released t m) = (sinceAcquired t m tr).countP (Event.takes t m)

theorem sinceAcquired_append (t : Tid) (m : Nat) (tr : List Event) (e : Event) :
    sinceAcquired t m (tr ++ [e]) =
      if e.acquires t m then [e] else sinceAcquired t m tr ++ [e] := by
  simp [sinceAcquired]

theorem holds_other {t : Tid} {m n : Nat} {tr : List Event} {e : Event} (held : Holds t m tr n)
    (plain : e.takes t m = false) (kept : e ≠ .released t m) : Holds t m (tr ++ [e]) n := by
  have away : e.acquires t m = false := by
    cases h : e.acquires t m
    · rfl
    · simp [Event.takes, h] at plain
  simp only [Holds, sinceAcquired_append, away] at held ⊢
  simpa [List.count_append, List.count_singleton, plain, kept] using held

theorem holds_acquire {t : Tid} {m : Nat} {tr : List Event} {e : Event}
    (acquires : e.acquires t m = true) : Holds t m (tr ++ [e]) 1 := by
  have kept : e ≠ .released t m := by
    rintro rfl; simp [Event.acquires] at acquires
  simp [Holds, sinceAcquired_append, acquires, Event.takes, kept]

theorem holds_retake {t : Tid} {m n : Nat} {tr : List Event} (held : Holds t m tr n) :
    Holds t m (tr ++ [.retook t m]) (n + 1) := by
  simp only [Holds, sinceAcquired_append, Event.acquires] at held ⊢
  simp [List.count_append, Event.takes, Event.acquires] at held ⊢
  omega

theorem holds_release {t : Tid} {m n : Nat} {tr : List Event} (held : Holds t m tr (n + 1)) :
    Holds t m (tr ++ [.released t m]) n := by
  simp only [Holds, sinceAcquired_append, Event.acquires] at held ⊢
  simp [List.count_append, Event.takes, Event.acquires] at held ⊢
  omega

structure Inv (tr : List Event) (s : State) : Prop where
  wait : ∀ m, WaitInv s.kernel m (fun t => s.waiting t = some m)
  shape : ∀ m, Free s m ∨ Owned s m
  grant : ∀ t m, s.waiting t = some m → ((s.mutex m).owner = some t ↔
    (s.kernel.thread t).stat = .ready ∧ (s.kernel.thread t).error = .eok)
  held : ∀ t m, (s.mutex m).owner = some t → Holds t m tr (s.mutex m).hold
  exact : ∀ t m, Event.overflow t m ∉ tr

theorem start_inv {s : State} (start : Start s) : Inv [] s := by
  refine ⟨?_, ?_, ?_, ?_, by simp⟩
  · intro m
    refine ⟨by simp [start.list], ?_, by simp [start.list], ?_⟩
    · intro t; simp [start.list, start.idle]
    · intro t h; simp [start.idle] at h
  · intro m
    obtain ⟨flag, init⟩ := start.mutex m
    exact Or.inl (by simp [Free, init, rtMutexInit, start.list])
  · intro t m h; simp [start.idle] at h
  · intro t m h
    obtain ⟨flag, init⟩ := start.mutex m
    simp [init, rtMutexInit] at h

variable {tr : List Event} {s s' : State} {es : List Event} {t : Tid} {m : Nat}

theorem running_iff : running s t = true ↔
    s.waiting t = none ∧ (s.kernel.thread t).stat = .ready := by
  simp [running]

/-- Events that say nothing about who holds what. -/
def Event.plain : Event → Bool
  | .failed .. | .returned .. | .refused .. => true
  | _ => false

theorem Inv.append {e : Event} (inv : Inv tr s) (plain : e.plain = true) : Inv (tr ++ [e]) s := by
  refine ⟨inv.wait, inv.shape, inv.grant, ?_, ?_⟩
  · intro t m owns
    refine holds_other (inv.held t m owns) ?_ ?_
    · cases e <;> simp_all [Event.plain, Event.takes, Event.acquires]
    · rintro rfl; simp [Event.plain] at plain
  · intro t m
    simp only [List.mem_append, List.mem_singleton, not_or]
    refine ⟨inv.exact t m, ?_⟩
    rintro rfl; simp [Event.plain] at plain

theorem Inv.setError (inv : Inv tr s) (idle : s.waiting t = none) (e : Err) :
    Inv tr { s with kernel := s.kernel.modify t (fun th => { th with error := e }) } := by
  refine ⟨?_, inv.shape, ?_, inv.held, inv.exact⟩
  · intro m
    have away : t ∉ s.kernel.list (.wait m) := by
      intro here
      simp [(((inv.wait m).listed t).mp here).1] at idle
    exact (inv.wait m).modify (f := fun th => { th with error := e }) rfl (fun here => absurd here away)
  · intro u m waits
    have other : u ≠ t := by rintro rfl; simp [idle] at waits
    simpa [other] using inv.grant u m waits

theorem Inv.changePriority (inv : Inv tr s) (t : Tid) (p : Nat) :
    Inv tr { s with kernel := s.kernel.rtThreadChangePriority t p } := by
  refine ⟨fun m => (inv.wait m).changePriority t p, ?_, ?_, inv.held, inv.exact⟩
  · intro m
    refine (inv.shape m).imp (fun free => ?_) id
    refine ⟨free.1, free.2.1, free.2.2.1, ?_⟩
    simp [changePriority_wait, free.2.2.2]
  · intro u m waits
    simpa [changePriority_frame] using inv.grant u m waits

theorem Inv.setMutex {tr' : List Event} {x : MutexObj} (inv : Inv tr s)
    (shape : Free (s.set m x) m ∨ Owned (s.set m x) m)
    (grant : ∀ t, s.waiting t = some m → (x.owner = some t ↔ (s.mutex m).owner = some t))
    (held : ∀ t, x.owner = some t → Holds t m tr' x.hold)
    (others : ∀ t q n, q ≠ m → Holds t q tr n → Holds t q tr' n)
    (exact : ∀ t m, Event.overflow t m ∉ tr') : Inv tr' (s.set m x) := by
  refine ⟨inv.wait, ?_, ?_, ?_, exact⟩
  · intro q
    by_cases hq : q = m
    · subst hq; exact shape
    · simpa [Free, Owned, State.set, hq] using inv.shape q
  · intro t q waits
    have old := inv.grant t q waits
    by_cases hq : q = m
    · subst hq; simpa [State.set] using (grant t waits).trans old
    · simpa [State.set, hq] using old
  · intro t q owns
    by_cases hq : q = m
    · subst hq; simpa [State.set] using held t (by simpa [State.set] using owns)
    · have same : (s.set m x).mutex q = s.mutex q := by simp [State.set, hq]
      rw [same] at owns ⊢
      exact others t q _ hq (inv.held t q owns)

theorem Inv.free_value (inv : Inv tr s) (positive : 0 < (s.mutex m).value) : Free s m :=
  (inv.shape m).resolve_right (fun owned => by rw [owned.1] at positive; cases positive)

theorem Inv.owned (inv : Inv tr s) {t : Tid} (owns : (s.mutex m).owner = some t) : Owned s m :=
  (inv.shape m).resolve_left (fun free => by simp [free.2.1] at owns)

/-- Everything rt_mutex_take can do in a state that meets the invariant. -/
theorem take_cases {time : Int} (inv : Inv tr s) (taken : rtMutexTake s t m time = some (s', es)) :
    s.waiting t = none ∧ (s.kernel.thread t).stat = .ready ∧
      let k := s.kernel.modify t (fun th => { th with error := .eok })
      ((s.mutex m).owner = some t ∧ (s.mutex m).hold < rtMutexHoldMax ∧ es = [.retook t m] ∧
        s' = { s with kernel := k }.set m { s.mutex m with hold := (s.mutex m).hold + 1 }) ∨
      ((s.mutex m).owner = some t ∧ s' = { s with kernel := k } ∧ es = [.failed t m .efull]) ∨
      (Free s m ∧ es = [.acquired t m] ∧ s' = { s with kernel := k }.set m
        ⟨0, (s.kernel.thread t).currentPriority, 1, some t, (s.mutex m).flag⟩) ∨
      (time = 0 ∧ s' = { s with kernel := k.modify t (fun th => { th with error := .etimeout }) } ∧
        es = [.failed t m .etimeout]) ∨
      (es = [] ∧ time ≠ 0 ∧ ∃ owner k', (s.mutex m).owner = some owner ∧ owner ≠ t ∧
        ((donate k t owner).rtIpcListSuspend (.wait m) t (s.mutex m).flag).startWaitTimer t time =
          some k' ∧
        s' = { s with kernel := k', waiting := Function.update s.waiting t (some m) }) := by
  simp only [rtMutexTake] at taken
  split at taken
  · rename_i enabled
    obtain ⟨idle, ready⟩ := running_iff.mp enabled
    refine ⟨idle, ready, ?_⟩
    split at taken
    · rename_i owns
      split at taken
      · rename_i room
        cases Option.some.inj taken
        exact Or.inl ⟨owns, room, rfl, rfl⟩
      · cases Option.some.inj taken
        exact Or.inr (Or.inl ⟨owns, rfl, rfl⟩)
    · rename_i foreign
      split at taken
      · rename_i positive
        have free := inv.free_value positive
        have one := free.1
        have zero := free.2.2.1
        simp only [zero, one] at taken
        cases Option.some.inj taken
        exact Or.inr (Or.inr (Or.inl ⟨free, rfl, by simp [modify_self]⟩))
      · split at taken
        · rename_i poll
          cases Option.some.inj taken
          exact Or.inr (Or.inr (Or.inr (Or.inl ⟨poll, rfl, rfl⟩)))
        · rename_i blocks
          split at taken
          · contradiction
          · rename_i owner owns
            obtain ⟨k', started, done⟩ := Option.map_eq_some_iff.mp taken
            cases done
            refine Or.inr (Or.inr (Or.inr (Or.inr ⟨rfl, blocks, owner, k', owns, ?_, started, rfl⟩)))
            rintro rfl
            exact foreign owns
  · contradiction

theorem return_cases (taken : takeReturn s t = some (s', es)) :
    ∃ m, s.waiting t = some m ∧ (s.kernel.thread t).stat = .ready ∧
      s' = { s with waiting := Function.update s.waiting t none } ∧
      es = [.returned t m (s.kernel.thread t).error] := by
  simp only [takeReturn] at taken
  split at taken
  · contradiction
  · rename_i m waits
    split at taken
    · rename_i ready
      cases Option.some.inj taken
      exact ⟨m, waits, ready, rfl, rfl⟩
    · contradiction

theorem takes_other {u : Tid} {q : Nat} {e : Event} (other : q ≠ m)
    (about : e = .acquired t m ∨ e = .retook t m ∨ e = .released t m ∨ e = .handed t m) :
    e.takes u q = false ∧ e ≠ .released u q ∧ e ≠ .overflow u q := by
  rcases about with rfl | rfl | rfl | rfl <;>
    simp [Event.takes, Event.acquires, Ne.symm other]

theorem acquire_inv {p : Nat} (inv : Inv tr s) (idle : s.waiting t = none) (free : Free s m) :
    Inv (tr ++ [.acquired t m]) (s.set m ⟨0, p, 1, some t, (s.mutex m).flag⟩) := by
  refine inv.setMutex (Or.inr ?_) ?_ ?_ ?_ ?_
  · simp [Owned, State.set, rtMutexHoldMax]
  · intro u waits
    have other : t ≠ u := by rintro rfl; simp [idle] at waits
    simp [free.2.1, other]
  · intro u owns
    cases Option.some.inj owns
    exact holds_acquire (by simp [Event.acquires])
  · intro u q n hq held
    obtain ⟨plain, kept, _⟩ := takes_other (u := u) hq (Or.inl rfl)
    exact holds_other held plain kept
  · intro u q
    simp [inv.exact u q]

theorem retake_inv (inv : Inv tr s) (owns : (s.mutex m).owner = some t)
    (room : (s.mutex m).hold < rtMutexHoldMax) :
    Inv (tr ++ [.retook t m]) (s.set m { s.mutex m with hold := (s.mutex m).hold + 1 }) := by
  have owned := inv.owned owns
  refine inv.setMutex (Or.inr ?_) (fun u _ => Iff.rfl) ?_ ?_ ?_
  · have bound : (s.mutex m).hold + 1 ≤ rtMutexHoldMax := room
    simp [Owned, State.set, owned.1, owns, bound]
  · intro u owns'
    cases Option.some.inj (owns.symm.trans owns')
    exact holds_retake (inv.held t m owns)
  · intro u q n hq held
    obtain ⟨plain, kept, _⟩ := takes_other (u := u) hq (Or.inr (Or.inl rfl))
    exact holds_other held plain kept
  · intro u q
    simp [inv.exact u q]

theorem donate_frame (k : Kernel) (t owner u : Tid) :
    ((donate k t owner).thread u).stat = (k.thread u).stat ∧
      ((donate k t owner).thread u).error = (k.thread u).error := by
  unfold donate
  split
  · exact changePriority_frame k owner u _
  · exact ⟨rfl, rfl⟩

theorem donate_inv (t owner : Tid) (inv : Inv tr s) :
    Inv tr { s with kernel := donate s.kernel t owner } := by
  unfold donate
  split
  · exact inv.changePriority owner _
  · exact inv

theorem block_inv {time : Int} {k : Kernel} {flag : IpcFlag} (inv : Inv tr s)
    (idle : s.waiting t = none) (ready : (s.kernel.thread t).stat = .ready)
    (clean : (s.kernel.thread t).error = .eok) {owner : Tid} (owns : (s.mutex m).owner = some owner)
    (foreign : owner ≠ t)
    (started : (s.kernel.rtIpcListSuspend (.wait m) t flag).startWaitTimer t time = some k) :
    Inv tr { s with kernel := k, waiting := Function.update s.waiting t (some m) } := by
  obtain ⟨wait, parked, others⟩ := (inv.wait m).blockReady ready clean started
  have elsewhere : ∀ q, q ≠ m → WaitInv k q (fun u => s.waiting u = some q) := fun q hq =>
    (inv.wait q).blockOtherTimed ready hq (by simp [idle]) started
  refine ⟨?_, ?_, ?_, inv.held, inv.exact⟩
  · intro q
    by_cases hq : q = m
    · subst hq
      refine wait.congr (fun u => ?_)
      by_cases hu : u = t <;> simp [hu]
    · refine (elsewhere q hq).congr (fun u => ?_)
      by_cases hu : u = t
      · simp [hu, idle, Ne.symm hq]
      · simp [hu]
  · intro q
    refine (inv.shape q).imp (fun free => ⟨free.1, free.2.1, free.2.2.1, ?_⟩) id
    have hq : q ≠ m := by rintro rfl; simp [free.2.1] at owns
    refine List.eq_nil_iff_forall_not_mem.mpr (fun u here => ?_)
    obtain ⟨waits, suspended⟩ := ((elsewhere q hq).listed u).mp here
    have hu : u ≠ t := by rintro rfl; simp [idle] at waits
    rw [others u hu] at suspended
    have old := ((inv.wait q).listed u).mpr ⟨waits, suspended⟩
    simp [free.2.2.2] at old
  · intro u q waits
    by_cases hu : u = t
    · subst hu
      have hq : m = q := by simpa using waits
      subst hq
      simp [owns, foreign, parked]
    · simpa [others u hu] using inv.grant u q (by simpa [hu] using waits)

theorem take_inv {time : Int} (inv : Inv tr s) (taken : rtMutexTake s t m time = some (s', es)) :
    Inv (tr ++ es) s' := by
  obtain ⟨idle, ready, outcome⟩ := take_cases inv taken
  have cleared := inv.setError idle .eok
  obtain ⟨owns, room, rfl, rfl⟩ | ⟨_, rfl, rfl⟩ | ⟨free, rfl, rfl⟩ | ⟨_, rfl, rfl⟩ |
    ⟨rfl, _, owner, k, owns, foreign, started, rfl⟩ := outcome
  · exact retake_inv cleared owns room
  · exact cleared.append rfl
  · exact acquire_inv cleared idle free
  · exact (cleared.setError idle .etimeout).append rfl
  · rw [List.append_nil]
    have donated := donate_inv t owner cleared
    have frame := donate_frame (s.kernel.modify t (fun th => { th with error := .eok })) t owner t
    have blocked := block_inv donated idle (by simpa [frame] using ready) (by simp [frame]) owns
      foreign started
    exact blocked

theorem return_inv (inv : Inv tr s) (taken : takeReturn s t = some (s', es)) :
    Inv (tr ++ es) s' := by
  obtain ⟨m, waits, ready, rfl, rfl⟩ := return_cases taken
  refine Inv.append (e := .returned ..) ?_ rfl
  refine ⟨?_, inv.shape, ?_, inv.held, inv.exact⟩
  · intro q
    refine ((inv.wait q).leave ready).congr (fun u => ?_)
    by_cases hu : u = t <;> simp [hu]
  · intro u q waits'
    have hu : u ≠ t := by rintro rfl; simp at waits'
    exact inv.grant u q (by simpa [hu] using waits')

theorem restore_inv (inv : Inv tr s) (t : Tid) (p : Nat) :
    Inv tr { s with kernel := restore s.kernel t p } := by
  unfold restore
  split
  · exact inv.changePriority t p
  · exact inv

/-- Everything rt_mutex_release can do in a state that meets the invariant. -/
theorem release_cases (inv : Inv tr s) (taken : rtMutexRelease s t m = some (s', es)) :
    s.waiting t = none ∧
      let k := restore s.kernel t (s.mutex m).originalPriority
      (((s.mutex m).owner ≠ some t ∧ es = [.refused t m] ∧
        s' = { s with kernel := s.kernel.modify t (fun th => { th with error := .error }) }) ∨
      ((s.mutex m).owner = some t ∧ 2 ≤ (s.mutex m).hold ∧ es = [.released t m] ∧
        s' = s.set m { s.mutex m with hold := (s.mutex m).hold - 1 }) ∨
      ((s.mutex m).owner = some t ∧ (s.mutex m).hold = 1 ∧ ∃ w rest, k.list (.wait m) = w :: rest ∧
        es = [.released t m, .handed w m] ∧
        s' = { s.set m ⟨0, (k.thread w).currentPriority, 1, some w, (s.mutex m).flag⟩ with
          kernel := (k.rtThreadResume w).1 }) ∨
      ((s.mutex m).owner = some t ∧ (s.mutex m).hold = 1 ∧ k.list (.wait m) = [] ∧
        es = [.released t m] ∧
        s' = { s.set m ⟨1, 0xff, 0, none, (s.mutex m).flag⟩ with kernel := k })) := by
  simp only [rtMutexRelease] at taken
  split at taken
  · rename_i enabled
    refine ⟨(running_iff.mp enabled).1, ?_⟩
    split at taken
    · rename_i foreign
      cases Option.some.inj taken
      exact Or.inl ⟨foreign, rfl, rfl⟩
    · rename_i owns
      rw [not_not] at owns
      obtain ⟨zero, _, low, high⟩ := inv.owned owns
      unfold rtMutexHoldMax at high
      split at taken
      · rename_i last
        have one : (s.mutex m).hold = 1 := by omega
        refine Or.inr (Or.inr ?_)
        cases list : (restore s.kernel t (s.mutex m).originalPriority).list (.wait m) with
        | cons w rest =>
          simp only [releaseLast, list, one, zero, rtIpcListResume] at taken
          cases Option.some.inj taken
          exact Or.inl ⟨owns, one, w, rest, rfl, rfl, rfl⟩
        | nil =>
          simp only [releaseLast, list, one, zero] at taken
          cases Option.some.inj taken
          exact Or.inr ⟨owns, one, rfl, rfl, rfl⟩
      · rename_i more
        have less : ((s.mutex m).hold + 255) % 256 = (s.mutex m).hold - 1 := by omega
        simp only [less] at taken more
        cases Option.some.inj taken
        exact Or.inr (Or.inl ⟨owns, by omega, rfl, rfl⟩)
  · contradiction

theorem released_other {u : Tid} {q n : Nat} (other : q ≠ m) (held : Holds u q tr n) :
    Holds u q (tr ++ [.released t m]) n := by
  obtain ⟨plain, kept, _⟩ := takes_other (u := u) other (Or.inr (Or.inr (Or.inl rfl)))
  exact holds_other held plain kept

theorem handed_other {u w : Tid} {q n : Nat} (other : q ≠ m) (held : Holds u q tr n) :
    Holds u q (tr ++ [.released t m, .handed w m]) n := by
  obtain ⟨plain, kept, _⟩ := takes_other (t := w) (u := u) other (Or.inr (Or.inr (Or.inr rfl)))
  simpa using holds_other (released_other (t := t) other held) plain kept

theorem unnest_inv (inv : Inv tr s) (owns : (s.mutex m).owner = some t) (more : 2 ≤ (s.mutex m).hold) :
    Inv (tr ++ [.released t m]) (s.set m { s.mutex m with hold := (s.mutex m).hold - 1 }) := by
  obtain ⟨zero, _, _, high⟩ := inv.owned owns
  refine inv.setMutex (Or.inr ?_) (fun u _ => Iff.rfl) ?_ (fun u q n => released_other) ?_
  · exact ⟨by simp [State.set, zero], by simp [State.set, owns], by simp [State.set]; omega,
      by simp [State.set]; omega⟩
  · intro u owns'
    cases Option.some.inj (owns.symm.trans owns')
    refine holds_release ?_
    rw [Nat.sub_add_cancel (by omega)]
    exact inv.held t m owns
  · intro u q
    simp [inv.exact u q]

theorem open_inv (inv : Inv tr s) (idle : s.waiting t = none) (owns : (s.mutex m).owner = some t)
    (empty : s.kernel.list (.wait m) = []) :
    Inv (tr ++ [.released t m]) (s.set m ⟨1, 0xff, 0, none, (s.mutex m).flag⟩) := by
  refine inv.setMutex (Or.inl ?_) ?_ (by simp) (fun u q n => released_other) ?_
  · simp [Free, State.set, empty]
  · intro u waits
    have other : t ≠ u := by rintro rfl; simp [idle] at waits
    simp [owns, other]
  · intro u q
    simp [inv.exact u q]

theorem handover_inv {w : Tid} {rest : List Tid} {p : Nat} (inv : Inv tr s)
    (idle : s.waiting t = none) (owns : (s.mutex m).owner = some t)
    (list : s.kernel.list (.wait m) = w :: rest) :
    Inv (tr ++ [.released t m, .handed w m])
      { s.set m ⟨0, p, 1, some w, (s.mutex m).flag⟩ with kernel := (s.kernel.rtThreadResume w).1 } := by
  have here : w ∈ s.kernel.list (.wait m) := by simp [list]
  have suspended := (inv.wait m).suspended w here
  have waits := (((inv.wait m).listed w).mp here).1
  refine ⟨fun q => (inv.wait q).resume suspended, ?_, ?_, ?_, ?_⟩
  · intro q
    by_cases hq : q = m
    · subst hq
      right
      simp [Owned, State.set, rtMutexHoldMax]
    · refine (inv.shape q).imp (fun free => ?_) (fun owned => ?_)
      · simpa [Free, State.set, hq, resume_wait suspended, free.2.2.2] using free
      · simpa [Owned, State.set, hq] using owned
  · intro u q waits'
    change s.waiting u = some q at waits'
    have old := inv.grant u q waits'
    by_cases hu : u = w
    · subst hu
      have hq : m = q := by simpa [waits] using waits'
      subst hq
      simp [State.set, resume_self suspended, Thread.awake, (inv.wait m).pending u here]
    · by_cases hq : q = m
      · subst hq
        have other : t ≠ u := by rintro rfl; simp [idle] at waits'
        simp only [owns, Option.some.injEq, other, false_iff] at old
        simpa [State.set, resume_other suspended hu, Ne.symm hu] using old
      · simpa [State.set, hq, resume_other suspended hu] using old
  · intro u q owns'
    by_cases hq : q = m
    · subst hq
      have hu : w = u := by simpa [State.set] using owns'
      subst hu
      have acquired : Holds w q ((tr ++ [.released t q]) ++ [.handed w q]) 1 :=
        holds_acquire (by simp [Event.acquires])
      simpa [State.set, List.append_assoc] using acquired
    · simp only [State.set, Function.update_of_ne hq] at owns' ⊢
      exact handed_other hq (inv.held u q owns')
  · intro u q
    simp [inv.exact u q]

theorem release_inv (inv : Inv tr s) (taken : rtMutexRelease s t m = some (s', es)) :
    Inv (tr ++ es) s' := by
  obtain ⟨idle, outcome⟩ := release_cases inv taken
  have restored := restore_inv inv t (s.mutex m).originalPriority
  obtain ⟨_, rfl, rfl⟩ | ⟨owns, more, rfl, rfl⟩ | ⟨owns, _, w, rest, list, rfl, rfl⟩ |
    ⟨owns, _, empty, rfl, rfl⟩ := outcome
  · exact (inv.setError idle .error).append rfl
  · exact unnest_inv inv owns more
  · exact handover_inv restored idle owns list
  · exact open_inv restored idle owns empty

theorem timeout_inv {k : Kernel} (inv : Inv tr s) (expired : s.kernel.timerExpire t = some k) :
    Inv tr { s with kernel := k } := by
  obtain ⟨_, suspended, self, others, lists, _⟩ := timerExpire_some expired
  refine ⟨fun m => (inv.wait m).expire expired, ?_, ?_, inv.held, inv.exact⟩
  · intro m
    refine (inv.shape m).imp (fun free => ⟨free.1, free.2.1, free.2.2.1, ?_⟩) id
    simp [lists, free.2.2.2]
  · intro u m waits
    have old := inv.grant u m waits
    by_cases hu : u = t
    · subst hu
      simpa [suspended, self] using old
    · simpa [others u hu] using old

theorem step_inv {a : Action} (inv : Inv tr s) (taken : step s a = some (s', es)) :
    Inv (tr ++ es) s' := by
  cases a with
  | take t m time => exact take_inv inv taken
  | wake t => exact return_inv inv taken
  | release t m => exact release_inv inv taken
  | timeout t =>
    obtain ⟨k, expired, result⟩ := Option.map_eq_some_iff.mp taken
    cases result
    simpa using timeout_inv inv expired

theorem run_inv (run : Run machine tr s) : Inv tr s :=
  run.invariant (fun _ start => start_inv start) (fun _ _ _ _ _ inv taken => step_inv inv taken)

theorem changed_by {a : Action} (inv : Inv tr s) (taken : step s a = some (s', es))
    (changed : s'.mutex m ≠ s.mutex m) :
    (∃ t time, a = .take t m time ∧ (es = [.acquired t m] ∨ es = [.retook t m])) ∨
      ∃ t, a = .release t m ∧ (s.mutex m).owner = some t := by
  have only : ∀ {q : Nat} {x : MutexObj} {k : Kernel},
      (State.set { s with kernel := k } q x).mutex m ≠ s.mutex m → q = m := by
    intro q x k differs
    by_contra hq
    exact differs (by simp [State.set, Ne.symm hq])
  cases a with
  | take t q time =>
    obtain ⟨_, _, ⟨_, _, rfl, rfl⟩ | ⟨_, rfl, rfl⟩ | ⟨_, rfl, rfl⟩ | ⟨_, rfl, rfl⟩ | ⟨rfl, _, _, _, _, _, _, rfl⟩⟩ :=
      take_cases inv taken
    · cases only changed
      exact Or.inl ⟨t, time, rfl, Or.inr rfl⟩
    · exact absurd rfl changed
    · cases only changed
      exact Or.inl ⟨t, time, rfl, Or.inl rfl⟩
    · exact absurd rfl changed
    · exact absurd rfl changed
  | wake t =>
    obtain ⟨_, _, _, rfl, _⟩ := return_cases taken
    exact absurd rfl changed
  | release t q =>
    obtain ⟨_, ⟨_, rfl, rfl⟩ | ⟨owns, _, rfl, rfl⟩ | ⟨owns, _, _, _, _, rfl, rfl⟩ | ⟨owns, _, _, rfl, rfl⟩⟩ :=
      release_cases inv taken
    · exact absurd rfl changed
    · cases only (k := s.kernel) changed
      exact Or.inr ⟨t, rfl, owns⟩
    · cases only (k := s.kernel) changed
      exact Or.inr ⟨t, rfl, owns⟩
    · cases only (k := s.kernel) changed
      exact Or.inr ⟨t, rfl, owns⟩
  | timeout t =>
    obtain ⟨_, _, result⟩ := Option.map_eq_some_iff.mp taken
    cases result
    exact absurd rfl changed

/-- What each event that a step shows says about the mutex before and after it. -/
def Event.Justified (s s' : State) : Event → Prop
  | .acquired t m | .retook t m => (s'.mutex m).owner = some t
  | .returned t m .eok => (s'.mutex m).owner = some t ∧ s'.mutex = s.mutex
  | .returned t m _ => (s.mutex m).owner ≠ some t ∧ s'.mutex = s.mutex
  | .failed .. => s'.mutex = s.mutex
  | .refused t m => (s.mutex m).owner ≠ some t ∧ s'.mutex = s.mutex
  | .released t m => (s.mutex m).owner = some t
  | .handed t m => (s'.mutex m).owner = some t
  | .overflow .. => False

theorem step_justified {a : Action} (inv : Inv tr s) (taken : step s a = some (s', es)) :
    ∀ e ∈ es, e.Justified s s' := by
  cases a with
  | take t m time =>
    obtain ⟨_, _, ⟨owns, _, rfl, rfl⟩ | ⟨_, rfl, rfl⟩ | ⟨_, rfl, rfl⟩ | ⟨_, rfl, rfl⟩ | ⟨rfl, _⟩⟩ :=
      take_cases inv taken
    · simp [Event.Justified, State.set, owns]
    · simp [Event.Justified]
    · simp [Event.Justified, State.set]
    · simp [Event.Justified]
    · simp
  | wake t =>
    obtain ⟨m, waits, ready, rfl, rfl⟩ := return_cases taken
    have grant := inv.grant t m waits
    simp only [ready, true_and] at grant
    intro e shown
    cases List.mem_singleton.mp shown
    cases error : (s.kernel.thread t).error with
    | eok => exact ⟨grant.mpr error, rfl⟩
    | _ => exact ⟨by simp [grant, error], rfl⟩
  | release t m =>
    obtain ⟨_, ⟨foreign, rfl, rfl⟩ | ⟨owns, _, rfl, rfl⟩ | ⟨owns, _, w, _, _, rfl, rfl⟩ |
      ⟨owns, _, _, rfl, rfl⟩⟩ := release_cases inv taken
    · simpa [Event.Justified] using foreign
    · simpa [Event.Justified] using owns
    · simpa [Event.Justified, State.set] using owns
    · simpa [Event.Justified] using owns
  | timeout t =>
    obtain ⟨_, _, result⟩ := Option.map_eq_some_iff.mp taken
    cases result
    simp

/-- Ownership of every mutex, in a state `s` reached with history `tr`. -/
structure Ownership (tr : List Event) (s : State) : Prop where
  exclusive : ∀ m, Xor (Free s m) (Owned s m)
  holds : ∀ t m, (s.mutex m).owner = some t → Holds t m tr (s.mutex m).hold
  calls : ∀ a s' es, step s a = some (s', es) → ∀ e ∈ es, e.Justified s s'
  changes : ∀ a s' es m, step s a = some (s', es) → s'.mutex m ≠ s.mutex m →
    (∃ t time, a = .take t m time ∧ (es = [.acquired t m] ∨ es = [.retook t m])) ∨
      ∃ t, a = .release t m ∧ (s.mutex m).owner = some t
  exact : ∀ t m, Event.overflow t m ∉ tr

/-- Every state of every run has each mutex either free or owned, its count is the
owner's, and no error return has touched it. -/
theorem mutex_ownership {tr : List Event} {s : State} (run : Run machine tr s) : Ownership tr s := by
  have inv := run_inv run
  refine ⟨?_, inv.held, fun _ _ _ => step_justified inv, fun _ _ _ _ => changed_by inv, inv.exact⟩
  intro m
  rcases inv.shape m with free | owned
  · exact Or.inl ⟨free, fun owned => owned.2.1 free.2.1⟩
  · exact Or.inr ⟨owned, fun free => owned.2.1 free.2.1⟩

/-- Thread 0 takes mutex 3 twice, thread 1 waits for it and gets it with the last release. -/
theorem mutex_ownership_handover :
    ∃ tr s, Ownership tr s ∧ (s.mutex 3).owner = some 1 ∧ (s.mutex 3).hold = 1 := by
  let s₀ : State := ⟨startedThreads (fun t => 10 - t) 2, fun _ => rtMutexInit .prio, fun _ => none⟩
  have start : Start s₀ := ⟨fun _ => ⟨.prio, rfl⟩, fun _ => rfl, fun _ => rfl⟩
  obtain ⟨tr, s, run, found⟩ := Run.reaches (M := machine) start
    [.take 0 3 0, .take 0 3 0, .take 1 3 (-1), .release 0 3, .release 0 3]
    (fun s => decide ((s.mutex 3).owner = some 1) && decide ((s.mutex 3).hold = 1)) (by decide)
  simp only [Bool.and_eq_true, decide_eq_true_eq] at found
  exact ⟨tr, s, mutex_ownership run, found⟩

end RtThread.Mutex
