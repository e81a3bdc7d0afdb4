import RtThread.Run
import Mathlib.Data.Fintype.Defs
import Mathlib.Logic.Function.Basic

/-! pthread_once over any interleaving of its callers. Another thread runs only after a switch, and
rt_schedule switches only where the scheduler is not locked. The depth of the lock does not
overflow, as the comment in rt_enter_critical says. -/
namespace RtThread.Pthread.Once
open Transition

/-- Where a thread is in pthread_once. `depth` is the depth of the lock at the call, `held` how often
init_routine has locked the scheduler itself. -/
inductive Phase where
  | outside
  | entered (depth : Nat)
  | chosen (depth : Nat)
  | running (depth held : Nat)
  | closing (depth : Nat)
  | leaving (depth : Nat)
  deriving DecidableEq

/-- `nest` is rt_scheduler_lock_nest, `once` is *once_control. -/
structure State (T : Type) where
  nest : Nat
  once : Bool
  current : T
  phase : T → Phase

inductive Event (T : Type) where
  | called (t : T)
  | completed (t : T)
  | returned (t : T) (before after : Nat)
  deriving DecidableEq

/-- All but `switch` are steps of the current thread: `lock` and `unlock` outside of pthread_once or in
init_routine, `start` up to the call of init_routine, `exit` the second rt_exit_critical. -/
inductive Action (T : Type) where
  | lock
  | unlock
  | call
  | test
  | start
  | finish
  | exit
  | ret
  | switch (t : T)

def rtEnterCritical (nest : Nat) : Nat := nest + 1

/-- Not below 0. -/
def rtExitCritical (nest : Nat) : Nat := nest - 1

variable {T : Type} [DecidableEq T]

def State.move (s : State T) (p : Phase) : State T :=
  { s with phase := Function.update s.phase s.current p }

def step (s : State T) : Action T → Option (State T × List (Event T))
  | .lock =>
    match s.phase s.current with
    | .outside => some ({ s with nest := rtEnterCritical s.nest }, [])
    | .running depth held =>
      some ({ s.move (.running depth (held + 1)) with nest := rtEnterCritical s.nest }, [])
    | _ => none
  | .unlock =>
    match s.phase s.current with
    | .outside => some ({ s with nest := rtExitCritical s.nest }, [])
    | .running depth (held + 1) =>
      some ({ s.move (.running depth held) with nest := rtExitCritical s.nest }, [])
    | _ => none
  | .call =>
    match s.phase s.current with
    | .outside => some ({ s.move (.entered s.nest) with nest := rtEnterCritical s.nest }, [])
    | _ => none
  | .test =>
    match s.phase s.current with
    | .entered depth =>
      if s.once then some (s.move (.closing depth), [])
      else some ({ s.move (.chosen depth) with once := true }, [])
    | _ => none
  | .start =>
    match s.phase s.current with
    | .chosen depth =>
      some ({ s.move (.running depth 0) with nest := rtExitCritical s.nest }, [.called s.current])
    | _ => none
  | .finish =>
    match s.phase s.current with
    | .running depth 0 => some (s.move (.closing depth), [.completed s.current])
    | _ => none
  | .exit =>
    match s.phase s.current with
    | .closing depth => some ({ s.move (.leaving depth) with nest := rtExitCritical s.nest }, [])
    | _ => none
  | .ret =>
    match s.phase s.current with
    | .leaving depth => some (s.move .outside, [.returned s.current depth s.nest])
    | _ => none
  | .switch t => if s.nest = 0 then some ({ s with current := t }, []) else none

def machine : Machine (State T) (Action T) (Event T) where
  start s := s.nest = 0 ∧ s.once = false ∧ ∀ t, s.phase t = .outside
  step := step

/-- An event after what came before it: init_routine is called only once, and each call returns
after that call and its end, with the depth that it found. -/
def Right (before : List (Event T)) : Event T → Prop
  | .called _ => ∀ u, .called u ∉ before
  | .completed _ => True
  | .returned _ depth after =>
    (∃ u, .called u ∈ before) ∧ (∃ u, .completed u ∈ before) ∧ after = depth

def Phase.Initialising : Phase → Prop
  | .chosen _ => True
  | .running _ _ => True
  | _ => False

def Phase.Early : Phase → Prop
  | .outside => True
  | .entered _ => True
  | _ => False

/-- A call that finds the control clear was made with the scheduler unlocked; no call looks at the
control while init_routine runs. -/
def Guard (s : State T) : Action T → Prop
  | .test => if s.once then ∀ t, ¬ (s.phase t).Initialising else s.phase s.current = .entered 0
  | _ => True

/-- The depth of the lock while a thread in this phase is current. -/
def Phase.Depth (nest : Nat) : Phase → Prop
  | .outside => True
  | .entered depth => nest = depth + 1
  | .chosen depth => nest = 1 ∧ depth = 0
  | .running depth held => nest = held ∧ depth = 0
  | .closing depth => nest = depth + 1 ∨ nest = 0 ∧ depth = 0
  | .leaving depth => nest = depth

/-- init_routine has been called by the thread that is to run it. -/
def Phase.Busy (tr : List (Event T)) : Phase → Prop
  | .chosen _ => ∀ u, .called u ∉ tr
  | .running _ _ => ∃ u, .called u ∈ tr
  | _ => False

/-- What the history and the control say of the threads. -/
inductive Stage (tr : List (Event T)) (once : Bool) (phase : T → Phase) : Prop where
  | fresh : once = false → (∀ u, .called u ∉ tr) → (∀ u, (phase u).Early) → Stage tr once phase
  | busy (t : T) : once = true → (phase t).Busy tr → (∀ u, u ≠ t → (phase u).Early) → Stage tr once phase
  | done : once = true → (∃ u, .called u ∈ tr) → (∃ u, .completed u ∈ tr) →
      (∀ u, ¬ (phase u).Initialising) → Stage tr once phase

structure Inv (tr : List (Event T)) (s : State T) : Prop where
  each : Each Right tr
  current : (s.phase s.current).Depth s.nest
  others : ∀ t, t ≠ s.current → (s.phase t).Depth 0
  stage : Stage tr s.once s.phase

section
variable {tr es : List (Event T)} {once : Bool} {phase : T → Phase} {t : T} {p : Phase}

omit [DecidableEq T] in
/-- The thread that is to run init_routine, or runs it, is the only one. -/
theorem Stage.only (stage : Stage tr once phase) (here : (phase t).Initialising) :
    once = true ∧ (phase t).Busy tr ∧ ∀ u, u ≠ t → (phase u).Early := by
  have late : ¬ (phase t).Early := by
    cases now : phase t <;> simp_all only [Phase.Early, Phase.Initialising, not_false_eq_true]
  cases stage with
  | fresh _ _ early => exact absurd (early t) late
  | busy t' set busy early =>
    by_cases same : t = t'
    · subst same
      exact ⟨set, busy, early⟩
    · exact absurd (early t same) late
  | done _ _ _ calm => exact absurd here (calm t)

omit [DecidableEq T] in
theorem Stage.settled (stage : Stage tr once phase) (set : once = true) (calm : ∀ u, ¬ (phase u).Initialising) :
    (∃ u, .called u ∈ tr) ∧ ∃ u, .completed u ∈ tr := by
  cases stage with
  | fresh clear => exact absurd (clear.symm.trans set) Bool.false_ne_true
  | busy t _ busy =>
    have still := calm t
    cases now : phase t <;> simp_all only [Phase.Busy, Phase.Initialising, not_true_eq_false]
  | done _ called completed => exact ⟨called, completed⟩

omit [DecidableEq T] in
theorem Stage.clear (stage : Stage tr once phase) (clear : once = false) :
    (∀ u, .called u ∉ tr) ∧ ∀ u, (phase u).Early := by
  cases stage with
  | fresh _ uncalled early => exact ⟨uncalled, early⟩
  | busy _ set => exact absurd (clear.symm.trans set) Bool.false_ne_true
  | done set => exact absurd (clear.symm.trans set) Bool.false_ne_true

omit [DecidableEq T] in
/-- A thread that is past the test and does not run init_routine. -/
theorem Stage.late (stage : Stage tr once phase) (late : ¬ (phase t).Early) (calm : ¬ (phase t).Initialising) :
    once = true ∧ ∀ u, ¬ (phase u).Initialising := by
  cases stage with
  | fresh _ _ early => exact absurd (early t) late
  | busy t' _ busy early =>
    by_cases same : t = t'
    · subst same
      cases now : phase t <;> simp_all only [Phase.Busy, Phase.Initialising, not_true_eq_false]
    · exact absurd (early t same) late
  | done set _ _ calm => exact ⟨set, calm⟩

theorem update_all {P : Phase → Prop} (others : ∀ u, u ≠ t → P (phase u)) (here : P p) (u : T) :
    P (Function.update phase t p u) := by
  by_cases same : u = t
  · subst same
    rwa [Function.update_self]
  · rw [Function.update_of_ne same]
    exact others u same

theorem update_others {P : Phase → Prop} (others : ∀ u, u ≠ t → P (phase u)) :
    ∀ u, u ≠ t → P (Function.update phase t p u) := by
  intro u other
  rw [Function.update_of_ne other]
  exact others u other

/-- A thread that is not to run init_routine keeps the stage, if it is not late. -/
theorem Stage.move (stage : Stage tr once phase) (before : ¬ (phase t).Initialising) (after : ¬ p.Initialising)
    (early : (phase t).Early → p.Early) : Stage tr once (Function.update phase t p) := by
  cases stage with
  | fresh clear uncalled all => exact .fresh clear uncalled (update_all (fun u _ => all u) (early (all t)))
  | busy t' set busy all =>
    have other : t' ≠ t := by
      rintro rfl
      cases now : phase t' <;> simp_all only [Phase.Busy, Phase.Initialising, not_true_eq_false]
    refine .busy t' set ?_ (fun u different => ?_)
    · rwa [Function.update_of_ne other]
    · by_cases same : u = t
      · subst same
        rw [Function.update_self]
        exact early (all u different)
      · rw [Function.update_of_ne same]
        exact all u different
  | done set called completed calm =>
    exact .done set called completed (update_all (P := fun q => ¬ q.Initialising) (fun u _ => calm u) after)

end

section
variable {tr es : List (Event T)} {s s' : State T} {a : Action T} {p : Phase} {n : Nat}

/-- The current thread moves on, and the lock with it. -/
theorem Inv.move {tr' : List (Event T)} {once : Bool} (inv : Inv tr s) (depth : p.Depth n) (each : Each Right tr')
    (stage : Stage tr' once (Function.update s.phase s.current p)) :
    Inv tr' { s.move p with nest := n, once := once } := by
  constructor
  · exact each
  · simpa only [State.move, Function.update_self] using depth
  · exact update_others inv.others
  · exact stage

/-- init_routine locks the scheduler or unlocks it. -/
theorem Inv.hold {depth held held' : Nat} (inv : Inv tr s) (here : s.phase s.current = .running depth held)
    (same : n + held = s.nest + held') : Inv tr { s.move (.running depth held') with nest := n } := by
  have deep := inv.current
  have ⟨set, busy, early⟩ := inv.stage.only (t := s.current) (by simp only [here, Phase.Initialising])
  simp only [here, Phase.Busy, Phase.Depth] at deep busy
  have lock : (Phase.running depth held').Depth n := by
    unfold Phase.Depth
    lia
  refine inv.move lock inv.each (.busy s.current set ?_ (update_others early))
  simpa only [Function.update_self, Phase.Busy] using busy

omit [DecidableEq T] in
/-- A thread outside of pthread_once locks the scheduler or unlocks it. -/
theorem Inv.relock (inv : Inv tr s) (here : s.phase s.current = .outside) : Inv tr { s with nest := n } := by
  constructor
  · exact inv.each
  · simp only [here, Phase.Depth]
  · exact inv.others
  · exact inv.stage

theorem Inv.called (inv : Inv tr s) (here : s.phase s.current = .outside) :
    Inv tr { s.move (.entered s.nest) with nest := rtEnterCritical s.nest } := by
  have calm : ¬ (s.phase s.current).Initialising := by simp only [here, Phase.Initialising, not_false_eq_true]
  exact inv.move rfl inv.each (inv.stage.move calm not_false (fun _ => trivial))

theorem Inv.found {d : Nat} (inv : Inv tr s) (here : s.phase s.current = .entered d) (set : s.once = true)
    (calm : ∀ t, ¬ (s.phase t).Initialising) : Inv tr (s.move (.closing d)) := by
  have depth := inv.current
  simp only [here, Phase.Depth] at depth
  have ⟨called, completed⟩ := inv.stage.settled set calm
  exact inv.move (.inl depth) inv.each (.done set called completed
    (update_all (P := fun q => ¬ q.Initialising) (fun u _ => calm u) not_false))

theorem Inv.chosen (inv : Inv tr s) (here : s.phase s.current = .entered 0) (clear : s.once = false) :
    Inv tr { s.move (.chosen 0) with once := true } := by
  have depth := inv.current
  simp only [here, Phase.Depth] at depth
  have ⟨uncalled, early⟩ := inv.stage.clear clear
  refine inv.move ⟨depth, rfl⟩ inv.each (.busy s.current rfl ?_ (update_others (fun u _ => early u)))
  simpa only [Function.update_self, Phase.Busy] using uncalled

theorem Inv.started {d : Nat} (inv : Inv tr s) (here : s.phase s.current = .chosen d) :
    Inv (tr ++ [.called s.current]) { s.move (.running d 0) with nest := rtExitCritical s.nest } := by
  have depth := inv.current
  have ⟨set, busy, early⟩ := inv.stage.only (t := s.current) (by simp only [here, Phase.Initialising])
  simp only [here, Phase.Depth, Phase.Busy] at depth busy
  have unlocked : (Phase.running d 0).Depth (rtExitCritical s.nest) := by
    unfold rtExitCritical Phase.Depth
    lia
  refine inv.move unlocked (inv.each.snoc busy) (.busy s.current set ?_ (update_others early))
  simpa only [Function.update_self, Phase.Busy] using ⟨s.current, List.mem_append_right _ List.mem_cons_self⟩

theorem Inv.finished {d : Nat} (inv : Inv tr s) (here : s.phase s.current = .running d 0) :
    Inv (tr ++ [.completed s.current]) (s.move (.closing d)) := by
  have depth := inv.current
  have ⟨set, busy, early⟩ := inv.stage.only (t := s.current) (by simp only [here, Phase.Initialising])
  simp only [here, Phase.Depth, Phase.Busy] at depth busy
  obtain ⟨u, called⟩ := busy
  have calm : ∀ u, u ≠ s.current → ¬ (s.phase u).Initialising := by
    intro u other
    have still := early u other
    cases now : s.phase u <;> simp_all only [Phase.Early, Phase.Initialising, not_false_eq_true]
  exact inv.move (.inr depth) (inv.each.snoc trivial) (.done set ⟨u, List.mem_append_left _ called⟩
    ⟨s.current, List.mem_append_right _ List.mem_cons_self⟩
    (update_all (P := fun q => ¬ q.Initialising) calm not_false))

theorem Inv.exited {d : Nat} (inv : Inv tr s) (here : s.phase s.current = .closing d) :
    Inv tr { s.move (.leaving d) with nest := rtExitCritical s.nest } := by
  have depth := inv.current
  simp only [here, Phase.Depth] at depth
  have calm : ¬ (s.phase s.current).Initialising := by simp only [here, Phase.Initialising, not_false_eq_true]
  have late : ¬ (s.phase s.current).Early := by simp only [here, Phase.Early, not_false_eq_true]
  have left : (Phase.leaving d).Depth (rtExitCritical s.nest) := by
    unfold rtExitCritical Phase.Depth
    lia
  exact inv.move left inv.each (inv.stage.move calm not_false (fun early => absurd early late))

theorem Inv.returned {d : Nat} (inv : Inv tr s) (here : s.phase s.current = .leaving d) :
    Inv (tr ++ [.returned s.current d s.nest]) (s.move .outside) := by
  have depth := inv.current
  simp only [here, Phase.Depth] at depth
  have ⟨set, calm⟩ := inv.stage.late (t := s.current) (by simp only [here, Phase.Early, not_false_eq_true])
    (by simp only [here, Phase.Initialising, not_false_eq_true])
  have ⟨⟨u, called⟩, ⟨v, completed⟩⟩ := inv.stage.settled set calm
  have each : Each Right (tr ++ [.returned s.current d s.nest]) :=
    inv.each.snoc ⟨⟨u, called⟩, ⟨v, completed⟩, depth⟩
  exact inv.move trivial each (.done set ⟨u, List.mem_append_left _ called⟩ ⟨v, List.mem_append_left _ completed⟩
    (update_all (P := fun q => ¬ q.Initialising) (fun u _ => calm u) not_false))

theorem Inv.switched (inv : Inv tr s) (unlocked : s.nest = 0) (t : T) : Inv tr { s with current := t } := by
  have all : ∀ u, (s.phase u).Depth 0 := by
    intro u
    by_cases same : u = s.current
    · exact same ▸ unlocked ▸ inv.current
    · exact inv.others u same
  constructor
  · exact inv.each
  · simpa only [unlocked] using all t
  · exact fun u _ => all u
  · exact inv.stage

theorem step_inv (inv : Inv tr s) (guard : Guard s a) (taken : step s a = some (s', es)) : Inv (tr ++ es) s' := by
  have silent : Inv (tr ++ []) s := (List.append_nil tr).symm ▸ inv
  cases a with
  | lock =>
    simp only [step] at taken
    split at taken
    · rename_i here
      cases Option.some.inj taken
      exact silent.relock here
    · rename_i here
      cases Option.some.inj taken
      exact silent.hold here (by unfold rtEnterCritical; lia)
    · cases taken
  | unlock =>
    simp only [step] at taken
    split at taken
    · rename_i here
      cases Option.some.inj taken
      exact silent.relock here
    · rename_i here
      cases Option.some.inj taken
      have depth := inv.current
      simp only [here, Phase.Depth] at depth
      exact silent.hold here (by unfold rtExitCritical; lia)
    · cases taken
  | call =>
    simp only [step] at taken
    split at taken
    · rename_i here
      cases Option.some.inj taken
      exact silent.called here
    · cases taken
  | test =>
    simp only [step] at taken
    split at taken
    · rename_i here
      split at taken
      · rename_i set
        cases Option.some.inj taken
        exact silent.found here set (by simpa only [Guard, set, if_true] using guard)
      · rename_i clear
        cases Option.some.inj taken
        have first : s.phase s.current = .entered 0 := by simpa only [Guard, if_neg clear] using guard
        cases here.symm.trans first
        exact silent.chosen here (eq_false_of_ne_true clear)
    · cases taken
  | start =>
    simp only [step] at taken
    split at taken
    · rename_i here
      cases Option.some.inj taken
      exact inv.started here
    · cases taken
  | finish =>
    simp only [step] at taken
    split at taken
    · rename_i here
      cases Option.some.inj taken
      exact inv.finished here
    · cases taken
  | exit =>
    simp only [step] at taken
    split at taken
    · rename_i here
      cases Option.some.inj taken
      exact silent.exited here
    · cases taken
  | ret =>
    simp only [step] at taken
    split at taken
    · rename_i here
      cases Option.some.inj taken
      exact inv.returned here
    · cases taken
  | switch t =>
    simp only [step] at taken
    split at taken
    · rename_i unlocked
      cases Option.some.inj taken
      exact silent.switched unlocked t
    · cases taken

theorem once_right (run : RunWhere machine Guard tr s) : Each Right tr := by
  refine (run.invariant (I := Inv) ?_ ?_).each
  · rintro s ⟨open_, clear, outside⟩
    constructor
    · exact .nil
    · simp only [outside, Phase.Depth]
    · intro t _
      simp only [outside, Phase.Depth]
    · exact .fresh clear (fun _ => List.not_mem_nil) (fun u => by simp only [outside, Phase.Early])
  · intro tr s a s' es _ inv guard taken
    exact step_inv inv guard taken

end

instance (p : Phase) : Decidable p.Initialising :=
  match p with
  | .chosen _ | .running _ _ => .isTrue trivial
  | .outside | .entered _ | .closing _ | .leaving _ => .isFalse not_false

instance (s : State Bool) (a : Action Bool) : Decidable (Guard s a) :=
  match a with
  | .test => inferInstanceAs (Decidable (ite _ _ _))
  | .lock | .unlock | .call | .start | .finish | .exit | .ret | .switch _ => .isTrue trivial

def idle : State Bool := ⟨0, false, false, fun _ => .outside⟩

theorem idle_start : (machine (T := Bool)).start idle := ⟨rfl, rfl, fun _ => rfl⟩

/-- The second caller is the current thread after init_routine has ended. -/
theorem once_right_two : Each Right
    [.called false, .completed false, .returned true 0 0, .returned false 0 (0 : Nat)] := by
  have ⟨s, run, _⟩ := Run.shows (M := machine.restrict (fun s a => decide (Guard s a))) idle_start
    [.call, .test, .start, .finish, .switch true, .call, .test, .exit, .ret, .switch false, .exit, .ret]
    [.called false, .completed false, .returned true 0 0, .returned false 0 0] (fun _ => true) (by decide)
  exact once_right (RunWhere.ofRestrict (fun _ _ _ _ checked => of_decide_eq_true checked) run)

/-- A caller that has locked the scheduler returns with the lock taken away; a second caller returns
while init_routine runs. -/
theorem once_wrong :
    (∃ s, Run machine [.called false, .completed false, .returned false 1 0] s ∧
      ¬ Each Right [.called false, .completed false, .returned false 1 (0 : Nat)]) ∧
    ∃ s, Run machine [.called false, .returned true 0 0] s ∧
      ¬ Each Right [.called false, .returned true 0 (0 : Nat)] := by
  constructor
  · have ⟨s, run, _⟩ := Run.shows (M := machine) idle_start
      [.lock, .call, .test, .start, .finish, .exit, .ret]
      [.called false, .completed false, .returned false 1 0] (fun _ => true) (by decide)
    refine ⟨s, run, fun each => ?_⟩
    have each : Each Right ([.called false, .completed false] ++ [.returned false 1 0]) := each
    have ⟨_, _, depth⟩ := (each_snoc.mp each).2
    cases depth
  · have ⟨s, run, _⟩ := Run.shows (M := machine) idle_start
      [.call, .test, .start, .switch true, .call, .test, .exit, .ret]
      [.called false, .returned true 0 0] (fun _ => true) (by decide)
    refine ⟨s, run, fun each => ?_⟩
    have each : Each Right ([.called false] ++ [.returned true 0 0]) := each
    have ⟨_, ⟨u, completed⟩, _⟩ := (each_snoc.mp each).2
    cases List.mem_singleton.mp completed

end RtThread.Pthread.Once
