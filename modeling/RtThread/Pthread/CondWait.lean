import RtThread.Run
import RtThread.Mutex
import RtThread.Pthread.Cond

/-! pthread_cond_wait, pthread_cond_signal and pthread_cond_broadcast by any threads over every order
of their steps. -/
namespace RtThread.Pthread.CondWait
open Kernel Transition

/-- `owed t`: there has been a broadcast since thread `t` released the mutex inside its wait. -/
structure State (T : Type) where
  cond : Cond T
  owner : Option T
  hold : Nat
  owed : T → Bool

inductive Action (T : Type) where
  | lock (t : T)
  | unlock (t : T)
  | wait (t : T)
  | take (t : T)
  | relock (t : T)
  | signal (t : T)
  | broadcast (t : T)

variable {T : Type} [DecidableEq T]

/-- pthread_mutex_lock; `none` while the caller is blocked. A mutex that is not recursive answers
its owner EDEADLK, one that is held too often an error. -/
def mutexLock (recursive : Bool) (s : State T) (t : T) : Option (State T) :=
  match s.owner with
  | none => some { s with owner := some t, hold := 1 }
  | some u =>
    if u ≠ t then none
    else if recursive ∧ s.hold < Mutex.rtMutexHoldMax then some { s with hold := s.hold + 1 }
    else some s

/-- pthread_mutex_unlock, which leaves another thread's mutex alone. -/
def mutexUnlock (s : State T) (t : T) : State T :=
  if s.owner ≠ some t then s
  else if s.hold ≤ 1 then { s with owner := none, hold := 0 }
  else { s with hold := s.hold - 1 }

/-- The start of _pthread_cond_timedwait, without effect unless the caller owns the mutex. -/
def condWait (s : State T) (t : T) : State T :=
  if s.owner ≠ some t then s
  else { mutexUnlock s t with
    cond := s.cond.set t .unlocked
    owed := Function.update s.owed t false }

def step (recursive : Bool) (s : State T) : Action T → Option (State T)
  | .lock t => if s.cond.phase t = .out then mutexLock recursive s t else none
  | .unlock t => if s.cond.phase t = .out then some (mutexUnlock s t) else none
  | .wait t => if s.cond.phase t = .out then some (condWait s t) else none
  | .take t => if s.cond.phase t = .unlocked then some { s with cond := s.cond.take t (-1) } else none
  | .relock t =>
    match s.cond.phase t with
    | .back _ => (mutexLock recursive s t).map (fun s => { s with cond := s.cond.set t .out })
    | _ => none
  | .signal t =>
    if s.cond.phase t = .out ∧ s.owner = some t then some { s with cond := s.cond.release } else none
  | .broadcast t =>
    if s.cond.phase t = .out ∧ s.owner = some t then
      s.cond.broadcast.map (fun c => { s with
        cond := c
        owed := fun u => s.owed u || decide (s.cond.phase u = .unlocked ∨ s.cond.phase u = .suspended) })
    else none

structure Start (s : State T) : Prop where
  cond : s.cond = .init
  owner : s.owner = none
  owed : ∀ t, s.owed t = false

def start : State T := ⟨.init, none, 0, fun _ => false⟩

/-- The type of the mutex is a parameter; no event is of interest. -/
def machine (recursive : Bool) : Machine (State T) (Action T) Empty where
  start := Start
  step s a := (step recursive s a).map (fun s => (s, []))

/-- A thread that a broadcast was for and that is still in its wait for the semaphore. -/
def State.Owes (s : State T) (t : T) : Prop :=
  s.owed t = true ∧ (s.cond.phase t = .unlocked ∨ s.cond.phase t = .suspended)

instance (s : State T) (t : T) : Decidable (s.Owes t) := inferInstanceAs (Decidable (_ ∧ _))

/-- All of them can leave rt_sem_take with nothing but their own steps. -/
def State.CanLeave (recursive : Bool) (s : State T) : Prop :=
  ∃ as r, (∀ a ∈ as, ∃ t, a = .take t) ∧ (machine recursive).exec s as = some r ∧
    ∀ t, s.Owes t → r.1.cond.phase t = .back .eok

variable [Fintype T]

def State.owes (s : State T) : Nat := (Finset.univ.filter s.Owes).card

def State.between (s : State T) : Nat := (Finset.univ.filter (fun t => s.cond.phase t = .unlocked)).card

/-- A broadcast finds no more threads between unlocking the mutex and taking the semaphore than it
leaves tokens; and a thread whose wait began later takes one only where enough are left. -/
def Guard (s : State T) : Action T → Prop
  | .broadcast _ => s.between ≤ max 1 s.cond.value
  | .take t => s.owed t = false → 0 < s.cond.value → s.owes < s.cond.value
  | _ => True

instance (s : State T) : (a : Action T) → Decidable (Guard s a)
  | .broadcast _ => inferInstanceAs (Decidable (_ ≤ _))
  | .take _ => inferInstanceAs (Decidable (_ → _ → _))
  | .lock _ | .unlock _ | .wait _ | .relock _ | .signal _ => isTrue trivial

structure Inv (s : State T) : Prop where
  cond : s.cond.Inv
  runs : ∀ t, s.owed t = true → s.cond.phase t ≠ .suspended
  tokens : s.owes ≤ s.cond.value

variable {s s' : State T} {t : T} {a : Action T} {recursive : Bool}

omit [Fintype T] in
theorem mutexLock_frame (locked : mutexLock recursive s t = some s') :
    s'.cond = s.cond ∧ s'.owed = s.owed := by
  simp only [mutexLock] at locked
  split at locked
  · cases Option.some.inj locked
    exact ⟨rfl, rfl⟩
  · split at locked
    · contradiction
    · split at locked <;> cases Option.some.inj locked <;> exact ⟨rfl, rfl⟩

omit [Fintype T] in
theorem mutexUnlock_frame (s : State T) (t : T) :
    (mutexUnlock s t).cond = s.cond ∧ (mutexUnlock s t).owed = s.owed := by
  simp only [mutexUnlock]
  split
  · exact ⟨rfl, rfl⟩
  · split <;> exact ⟨rfl, rfl⟩

omit [DecidableEq T] in
theorem owes_le (others : ∀ u, s'.Owes u → s.Owes u) : s'.owes ≤ s.owes :=
  Finset.card_le_card fun u hu => by
    rw [Finset.mem_filter] at hu ⊢
    exact ⟨hu.1, others u hu.2⟩

omit [DecidableEq T] in
/-- The invariant looks at the semaphore and at the threads it is owed to. -/
theorem Inv.congr (inv : Inv s) (cond : s'.cond = s.cond) (owed : s'.owed = s.owed) : Inv s' := by
  refine ⟨cond ▸ inv.cond, by rw [cond, owed]; exact inv.runs, cond ▸ Nat.le_trans ?_ inv.tokens⟩
  refine owes_le fun u hu => ?_
  simpa only [State.Owes, cond, owed] using hu

theorem owes_erase (owed : s.Owes t) (gone : ¬s'.Owes t) (others : ∀ u, u ≠ t → (s'.Owes u ↔ s.Owes u)) :
    s'.owes + 1 = s.owes := by
  have erased : Finset.univ.filter s'.Owes = (Finset.univ.filter s.Owes).erase t := by
    ext u
    rw [Finset.mem_erase, Finset.mem_filter, Finset.mem_filter]
    by_cases hu : u = t
    · subst hu
      simp [gone]
    · simp [hu, others u hu]
  have here : t ∈ Finset.univ.filter s.Owes := by simp [owed]
  rw [State.owes, State.owes, erased, Finset.card_erase_of_mem here]
  have := Finset.card_pos.mpr ⟨t, here⟩
  omega

omit [Fintype T] in
theorem take_cases (s : State T) (t : T) :
    (0 < s.cond.value ∧ (s.cond.take t (-1)).value = s.cond.value - 1 ∧
      (s.cond.take t (-1)).phase t = .back .eok ∨
    s.cond.value = 0 ∧ (s.cond.take t (-1)).value = 0 ∧ (s.cond.take t (-1)).phase t = .suspended) ∧
    ∀ u, u ≠ t → (s.cond.take t (-1)).phase u = s.cond.phase u := by
  simp only [Cond.take]
  by_cases positive : 0 < s.cond.value
  · simp only [positive, if_true]
    exact ⟨Or.inl ⟨trivial, rfl, by simp⟩, fun u hu => by simp [hu]⟩
  · have zero : s.cond.value = 0 := by omega
    simp only [zero, Nat.lt_irrefl, if_false]
    exact ⟨Or.inr ⟨trivial, by simp, by simp⟩, fun u hu => by simp [hu]⟩

theorem take_inv (inv : Inv s) (between : s.cond.phase t = .unlocked) (guard : Guard s (.take t)) :
    Inv { s with cond := s.cond.take t (-1) } := by
  have runs : s.cond.phase t ≠ .suspended := by simp [between]
  obtain ⟨result, others⟩ := take_cases s t
  have elsewhere (u : T) (hu : u ≠ t) :
      ({ s with cond := s.cond.take t (-1) } : State T).Owes u ↔ s.Owes u := by
    simp only [State.Owes, others u hu]
  cases owed : s.owed t with
  | true =>
    have here : s.Owes t := ⟨owed, Or.inl between⟩
    have counted : 0 < s.owes := Finset.card_pos.mpr ⟨t, by simp [here]⟩
    have tokens := inv.tokens
    obtain ⟨_, value, back⟩ : 0 < s.cond.value ∧ (s.cond.take t (-1)).value = s.cond.value - 1 ∧
        (s.cond.take t (-1)).phase t = .back .eok := by
      rcases result with taken | ⟨zero, _⟩
      · exact taken
      · omega
    have fewer : ({ s with cond := s.cond.take t (-1) } : State T).owes + 1 = s.owes :=
      owes_erase here (by simp [State.Owes, back]) elsewhere
    refine ⟨inv.cond.take runs (-1), fun u hu => ?_, ?_⟩
    · by_cases same : u = t
      · simp [same, back]
      · simpa only [others u same] using inv.runs u hu
    · simp only [value]
      omega
  | false =>
    have fewer : ({ s with cond := s.cond.take t (-1) } : State T).owes ≤ s.owes := by
      refine owes_le fun u hu => ?_
      by_cases same : u = t
      · subst same
        simp [State.Owes, owed] at hu
      · exact (elsewhere u same).mp hu
    refine ⟨inv.cond.take runs (-1), fun u hu => ?_, ?_⟩
    · have same : u ≠ t := fun h => by simp [h, owed] at hu
      simpa only [others u same] using inv.runs u hu
    · have tokens := inv.tokens
      rcases result with ⟨positive, value, _⟩ | ⟨zero, value, _⟩
      · have room := guard owed positive
        simp only [value]
        omega
      · simp only [value]
        omega

omit [DecidableEq T] in
theorem Inv.wake {c : Cond T} (inv : Inv s) (cond : c.Inv) (value : s.cond.value ≤ c.value)
    (phase : ∀ u, c.phase u = s.cond.phase u ∨ s.cond.phase u = .suspended ∧ c.phase u = .back .eok) :
    Inv { s with cond := c } := by
  refine ⟨cond, fun u owed => ?_, Nat.le_trans (owes_le fun u hu => ?_) (Nat.le_trans inv.tokens value)⟩
  · rcases phase u with same | ⟨slept, _⟩
    · simpa only [same] using inv.runs u owed
    · exact absurd slept (inv.runs u owed)
  · rcases phase u with same | ⟨_, woken⟩
    · simpa only [State.Owes, same] using hu
    · simp [State.Owes, woken] at hu

theorem signal_inv (inv : Inv s) : Inv { s with cond := s.cond.release } := by
  refine inv.wake inv.cond.release ?_ fun u => ?_
  · simp only [Cond.release]
    split
    · exact Nat.le_refl _
    · split
      · exact Nat.le_succ _
      · exact Nat.le_refl _
  · simp only [Cond.release]
    split
    · rename_i w rest list
      by_cases first : u = w
      · subst first
        exact Or.inr ⟨(inv.cond.listed u).mp (by simp [list]), by simp⟩
      · exact Or.inl (by simp [first])
    · split <;> exact Or.inl rfl

omit [DecidableEq T] in
theorem broadcast_inv (inv : Inv s) (guard : Guard s (.broadcast t)) :
    Inv { s with
      cond := s.cond.wakeAll
      owed := fun u => s.owed u || decide (s.cond.phase u = .unlocked ∨ s.cond.phase u = .suspended) } := by
  refine ⟨inv.cond.wakeAll, fun u _ => ?_, Nat.le_trans ?_ guard⟩
  · simp only [Cond.wakeAll]
    split
    · simp
    · assumption
  · refine Finset.card_le_card fun u hu => ?_
    rw [Finset.mem_filter] at hu ⊢
    refine ⟨hu.1, ?_⟩
    obtain ⟨_, here⟩ := hu.2
    simp only [Cond.wakeAll] at here
    split at here
    · simp at here
    · rename_i awake
      exact here.resolve_right awake

theorem step_inv (inv : Inv s) (guard : Guard s a) (taken : step recursive s a = some s') : Inv s' := by
  cases a with
  | lock t =>
    simp only [step] at taken
    split at taken
    · obtain ⟨cond, owed⟩ := mutexLock_frame taken
      exact inv.congr cond owed
    · contradiction
  | unlock t =>
    simp only [step] at taken
    split at taken
    · cases Option.some.inj taken
      obtain ⟨cond, owed⟩ := mutexUnlock_frame s t
      exact inv.congr cond owed
    · contradiction
  | wait t =>
    simp only [step] at taken
    split at taken
    · rename_i out
      cases Option.some.inj taken
      simp only [condWait]
      split
      · exact inv
      · refine ⟨inv.cond.set (by simp [out]) (by simp), fun u owed => ?_, ?_⟩
        · have same : u ≠ t := fun h => by simp [h] at owed
          simp only [Function.update_of_ne same] at owed
          simpa [same] using inv.runs u owed
        · refine Nat.le_trans (owes_le fun u hu => ?_) inv.tokens
          have same : u ≠ t := fun h => by simp [State.Owes, h] at hu
          simpa [State.Owes, same] using hu
    · contradiction
  | take t =>
    simp only [step] at taken
    split at taken
    · rename_i between
      cases Option.some.inj taken
      exact take_inv inv between guard
    · contradiction
  | relock t =>
    simp only [step] at taken
    split at taken
    · rename_i result back
      obtain ⟨mid, locked, rfl⟩ := Option.map_eq_some_iff.mp taken
      obtain ⟨cond, owed⟩ := mutexLock_frame locked
      have before : Inv mid := inv.congr cond owed
      have phase : mid.cond.phase t = .back result := by rw [cond, back]
      refine ⟨before.cond.set (by simp [phase]) (by simp), fun u owed => ?_, ?_⟩
      · by_cases same : u = t
        · simp [same]
        · simpa [same] using before.runs u owed
      · refine Nat.le_trans (owes_le fun u hu => ?_) before.tokens
        have same : u ≠ t := fun h => by simp [State.Owes, h] at hu
        simpa [State.Owes, same] using hu
    · contradiction
  | signal t =>
    simp only [step] at taken
    split at taken
    · cases Option.some.inj taken
      exact signal_inv inv
    · contradiction
  | broadcast t =>
    simp only [step] at taken
    split at taken
    · rw [Cond.broadcast_eq inv.cond] at taken
      cases Option.some.inj taken
      exact broadcast_inv inv guard
    · contradiction

omit [DecidableEq T] in
theorem start_inv (start : Start s) : Inv s := by
  refine ⟨start.cond ▸ Cond.init_inv, fun t owed => by simp [start.owed] at owed, ?_⟩
  have nobody : s.owes = 0 := by simp [State.owes, State.Owes, start.owed]
  omega

theorem run_inv {tr : List Empty} (run : RunWhere (machine recursive) Guard tr s) : Inv s := by
  refine run.invariant (I := fun _ => Inv) (fun s start => start_inv start) ?_
  intro _ s a s' es _ inv guard taken
  obtain ⟨next, stepped, done⟩ := Option.map_eq_some_iff.mp taken
  cases done
  exact step_inv inv guard stepped

omit [DecidableEq T] [Fintype T] in
theorem start_start : Start (start : State T) := ⟨rfl, rfl, fun _ => rfl⟩

theorem leave (n : Nat) (inv : Inv s) (count : s.owes = n) : ∃ as r, (∀ a ∈ as, ∃ t, a = .take t) ∧
    (machine recursive).exec s as = some r ∧ (∀ t, s.Owes t → r.1.cond.phase t = .back .eok) ∧
    ∀ t, s.cond.phase t = .back .eok → r.1.cond.phase t = .back .eok := by
  induction n generalizing s with
  | zero =>
    refine ⟨[], (s, []), by simp, rfl, fun t owes => ?_, fun t back => back⟩
    have counted : 0 < s.owes := Finset.card_pos.mpr ⟨t, by simp [owes]⟩
    omega
  | succ n ih =>
    obtain ⟨t, ht⟩ := Finset.card_pos.mp (show 0 < s.owes by omega)
    have owes : s.Owes t := (Finset.mem_filter.mp ht).2
    have between : s.cond.phase t = .unlocked := owes.2.resolve_right (inv.runs t owes.1)
    obtain ⟨result, others⟩ := take_cases s t
    have tokens := inv.tokens
    obtain ⟨_, value, back⟩ : 0 < s.cond.value ∧ (s.cond.take t (-1)).value = s.cond.value - 1 ∧
        (s.cond.take t (-1)).phase t = .back .eok := by
      rcases result with taken | ⟨zero, _⟩
      · exact taken
      · omega
    have after := take_inv inv between (fun later => by simp [owes.1] at later)
    have fewer : ({ s with cond := s.cond.take t (-1) } : State T).owes + 1 = s.owes := by
      refine owes_erase owes (by simp [State.Owes, back]) fun u hu => ?_
      simp only [State.Owes, others u hu]
    obtain ⟨as, r, takes, done, left, kept⟩ := ih after (by omega)
    have first : (machine recursive).step s (.take t) =
        some ({ s with cond := s.cond.take t (-1) }, []) := by
      simp [machine, step, between]
    refine ⟨.take t :: as, r, ?_, ?_, fun u hu => ?_, fun u hu => ?_⟩
    · intro a ha
      rcases List.mem_cons.mp ha with rfl | ha
      · exact ⟨t, rfl⟩
      · exact takes a ha
    · simp [Machine.exec, first, done]
    · by_cases same : u = t
      · subst same
        exact kept u back
      · exact left u (by simpa only [State.Owes, others u same] using hu)
    · have same : u ≠ t := fun h => by simp [h, between] at hu
      exact kept u (by simpa only [others u same] using hu)

def State.backs (s : State T) : Nat := (Finset.univ.filter (fun t => s.cond.phase t = .back .eok)).card

theorem takes_balance {as : List (Action T)} {r : State T × List Empty}
    (takes : ∀ a ∈ as, ∃ t, a = .take t) (done : (machine recursive).exec s as = some r) :
    r.1.backs + r.1.cond.value = s.backs + s.cond.value ∧
      ∀ t, s.cond.phase t = .back .eok → r.1.cond.phase t = .back .eok := by
  induction as generalizing s r with
  | nil =>
    cases Option.some.inj done
    exact ⟨rfl, fun _ back => back⟩
  | cons a as ih =>
    obtain ⟨t, rfl⟩ := takes _ List.mem_cons_self
    obtain ⟨⟨mid, es⟩, taken, tail⟩ := Option.bind_eq_some_iff.mp done
    obtain ⟨q, rest, rfl⟩ := Option.map_eq_some_iff.mp tail
    obtain ⟨later, keeps⟩ := ih (fun a ha => takes a (List.mem_cons_of_mem _ ha)) rest
    simp only [machine, step, Option.map_eq_some_iff] at taken
    obtain ⟨_, stepped, same⟩ := taken
    split at stepped
    · rename_i between
      cases Option.some.inj stepped
      cases same
      obtain ⟨result, others⟩ := take_cases s t
      refine ⟨later.trans ?_, fun u back => keeps u ?_⟩
      · rcases result with ⟨positive, value, back⟩ | ⟨zero, value, suspended⟩
        · have grown : Finset.univ.filter (fun u => (s.cond.take t (-1)).phase u = .back .eok) =
              insert t (Finset.univ.filter (fun u => s.cond.phase u = .back .eok)) := by
            ext u
            by_cases hu : u = t
            · simp [hu, back]
            · simp [hu, others u hu]
          simp only [State.backs, grown, value]
          rw [Finset.card_insert_of_notMem (by simp [between])]
          omega
        · have same : Finset.univ.filter (fun u => (s.cond.take t (-1)).phase u = .back .eok) =
              Finset.univ.filter (fun u => s.cond.phase u = .back .eok) := by
            ext u
            by_cases hu : u = t
            · simp [hu, suspended, between]
            · simp [others u hu]
          simp only [State.backs, same, value, zero]
      · have hu : u ≠ t := fun h => by simp [h, between] at back
        simpa only [others u hu] using back
    · contradiction

theorem canLeave_bound (leaves : s.CanLeave recursive) : s.owes ≤ s.cond.value := by
  obtain ⟨as, r, takes, done, left⟩ := leaves
  obtain ⟨balance, keeps⟩ := takes_balance takes done
  have apart : Disjoint (Finset.univ.filter s.Owes)
      (Finset.univ.filter (fun t => s.cond.phase t = .back .eok)) := by
    rw [Finset.disjoint_filter]
    intro t _ owes back
    simp [State.Owes, back] at owes
  have arrived : s.owes + s.backs ≤ r.1.backs := by
    rw [State.owes, State.backs, ← Finset.card_union_of_disjoint apart]
    refine Finset.card_le_card fun t ht => ?_
    rw [Finset.mem_union, Finset.mem_filter, Finset.mem_filter] at ht
    rw [Finset.mem_filter]
    rcases ht with ⟨here, owes⟩ | ⟨here, back⟩
    · exact ⟨here, left t owes⟩
    · exact ⟨here, keeps t back⟩
  omega

/-- The condition is no stronger than it has to be. -/
theorem guard_needed (inv : Inv s) (taken : step recursive s a = some s')
    (tokens : s'.owes ≤ s'.cond.value) : Guard s a := by
  cases a with
  | broadcast t =>
    simp only [step] at taken
    split at taken
    · rw [Cond.broadcast_eq inv.cond] at taken
      cases Option.some.inj taken
      refine Nat.le_trans (Finset.card_le_card fun u hu => ?_) tokens
      rw [Finset.mem_filter] at hu ⊢
      simp [State.Owes, Cond.wakeAll, hu.2]
    · contradiction
  | take t =>
    simp only [step] at taken
    split at taken
    · rename_i between
      cases Option.some.inj taken
      intro owed positive
      obtain ⟨result, others⟩ := take_cases s t
      have kept : s.owes ≤ ({ s with cond := s.cond.take t (-1) } : State T).owes := by
        refine owes_le fun u hu => ?_
        have same : u ≠ t := fun h => by simp [State.Owes, h, owed] at hu
        simpa only [State.Owes, others u same] using hu
      rcases result with ⟨_, value, _⟩ | ⟨zero, _⟩
      · simp only [value] at tokens
        omega
      · omega
    · contradiction
  | lock t => trivial
  | unlock t => trivial
  | wait t => trivial
  | relock t => trivial
  | signal t => trivial

theorem canLeave_iff (inv : Inv s) (taken : step recursive s a = some s') :
    s'.CanLeave recursive ↔ Guard s a := by
  refine ⟨fun leaves => guard_needed inv taken (canLeave_bound leaves), fun guard => ?_⟩
  obtain ⟨as, r, takes, done, left, _⟩ := leave s'.owes (step_inv inv guard taken) rfl
  exact ⟨as, r, takes, done, left⟩

/-- In every run in which broadcasts and later waits meet the condition, every thread that a
broadcast was for can leave its wait for the semaphore; after the first step that does not meet it,
one of them cannot. -/
theorem broadcast_reaches {T : Type} [DecidableEq T] [Fintype T] {recursive : Bool} {tr : List Empty}
    {s : State T} (run : RunWhere (machine recursive) Guard tr s) :
    s.CanLeave recursive ∧
      ∀ a s', step recursive s a = some s' → (s'.CanLeave recursive ↔ Guard s a) := by
  have inv := run_inv run
  obtain ⟨as, r, takes, done, left, _⟩ := leave s.owes inv rfl
  exact ⟨⟨as, r, takes, done, left⟩, fun a s' taken => canLeave_iff inv taken⟩

/-- One thread suspended and one between its steps: the broadcast is enough for both. -/
theorem broadcast_reaches_two : ∃ s : State (Fin 3), s.owed = (fun t => decide (t ≠ 2)) ∧
    s.cond.phase 0 = .back .eok ∧ s.cond.phase 1 = .unlocked ∧ s.CanLeave false := by
  obtain ⟨tr, s, run, found⟩ : ∃ tr s,
      Run ((machine (T := Fin 3) false).restrict (fun s a => decide (Guard s a))) tr s ∧
        decide (s.owed = (fun t => decide (t ≠ 2)) ∧ s.cond.phase 0 = .back .eok ∧
          s.cond.phase 1 = .unlocked) = true :=
    Run.reaches (s := start) start_start
      [.lock 0, .wait 0, .take 0, .lock 1, .wait 1, .lock 2, .broadcast 2] _ (by decide)
  have guarded := RunWhere.ofRestrict (fun _ _ _ _ => of_decide_eq_true) run
  obtain ⟨owed, first, second⟩ := of_decide_eq_true found
  exact ⟨s, owed, first, second, (broadcast_reaches guarded).1⟩

/-- With two threads between their steps only one of them can leave. -/
theorem broadcast_loses :
    ∃ tr s, Run (machine (T := Fin 3) false) tr s ∧ ¬s.CanLeave false := by
  obtain ⟨tr, s, run, found⟩ : ∃ tr s, Run (machine (T := Fin 3) false) tr s ∧
      decide (s.cond.value < s.owes) = true :=
    Run.reaches (s := start) start_start
      [.lock 0, .wait 0, .lock 1, .wait 1, .lock 2, .broadcast 2] _ (by decide)
  refine ⟨tr, s, run, fun leaves => ?_⟩
  have bound := canLeave_bound leaves
  have short := of_decide_eq_true found
  omega

end RtThread.Pthread.CondWait
