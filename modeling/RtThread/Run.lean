import Mathlib.Algebra.Order.Ring.Int
import Mathlib.Data.List.Basic

/-! Labelled transition systems with partial steps. A step either is refused or
gives the next state together with the events it makes visible. Properties of
all runs are proved by one induction, here, over the list of steps. -/
namespace Transition

structure Machine (S A E : Type) where
  start : S → Prop
  step : S → A → Option (S × List E)

/-- `Run M tr s`: some sequence of steps from a start state shows `tr` and ends in `s`. -/
inductive Run {S A E : Type} (M : Machine S A E) : List E → S → Prop where
  | start {s : S} : M.start s → Run M [] s
  | step {tr es : List E} {s s' : S} {a : A} :
      Run M tr s → M.step s a = some (s', es) → Run M (tr ++ es) s'

/-- A property of histories and states that holds at the start and is kept by
every step holds at the end of every run. -/
theorem Run.invariant {S A E : Type} {M : Machine S A E} {I : List E → S → Prop}
    (initial : ∀ s, M.start s → I [] s)
    (preserves : ∀ tr s a s' es, I tr s → M.step s a = some (s', es) → I (tr ++ es) s')
    {tr : List E} {s : S} (run : Run M tr s) : I tr s := by
  induction run with
  | start hs => exact initial _ hs
  | step _ taken ih => exact preserves _ _ _ _ _ ih taken

/-- The state-only form of the rule above. -/
theorem Run.always {S A E : Type} {M : Machine S A E} {I : S → Prop}
    (initial : ∀ s, M.start s → I s)
    (preserves : ∀ s a s' es, I s → M.step s a = some (s', es) → I s')
    {tr : List E} {s : S} (run : Run M tr s) : I s :=
  run.invariant (I := fun _ => I) initial (fun _ => preserves)

/-- A whole list of steps, refused if one of them is. -/
def Machine.exec {S A E : Type} (M : Machine S A E) : S → List A → Option (S × List E)
  | s, [] => some (s, [])
  | s, a :: rest => (M.step s a).bind (fun r =>
      (M.exec r.1 rest).map (fun q => (q.1, r.2 ++ q.2)))

theorem Machine.exec_append {S A E : Type} {M : Machine S A E} {s m s' : S} {as bs : List A} {es fs : List E}
    (first : M.exec s as = some (m, es)) (second : M.exec m bs = some (s', fs)) :
    M.exec s (as ++ bs) = some (s', es ++ fs) := by
  induction as generalizing s es with
  | nil =>
    cases Option.some.inj first
    exact second
  | cons a rest ih =>
    obtain ⟨⟨next, shown⟩, taken, tail⟩ := Option.bind_eq_some_iff.mp first
    obtain ⟨⟨last, later⟩, gone, same⟩ := Option.map_eq_some_iff.mp tail
    cases same
    simp only [List.cons_append, Machine.exec, taken, Option.bind_some, ih gone, Option.map_some, List.append_assoc]

theorem Run.exec {S A E : Type} {M : Machine S A E} {tr : List E} {s : S} (run : Run M tr s)
    {as : List A} {r : S × List E} (done : M.exec s as = some r) : Run M (tr ++ r.2) r.1 := by
  induction as generalizing tr s r with
  | nil => cases Option.some.inj done; simpa using run
  | cons a rest ih =>
    obtain ⟨mid, taken, tail⟩ := Option.bind_eq_some_iff.mp done
    obtain ⟨q, last, rfl⟩ := Option.map_eq_some_iff.mp tail
    simpa only [List.append_assoc] using ih (run.step taken) last

/-- A list of steps that can be executed to a state with `P` is a run to such a state. -/
theorem Run.reaches {S A E : Type} {M : Machine S A E} {s : S} (start : M.start s) (as : List A)
    (P : S → Bool) (found : (M.exec s as).any (fun r => P r.1) = true) :
    ∃ tr s', Run M tr s' ∧ P s' = true := by
  obtain ⟨r, done, holds⟩ := (Option.any_eq_true _ _).mp found
  exact ⟨_, r.1, (Run.start start).exec done, holds⟩

/-- The same with the trace of the run. -/
theorem Run.shows {S A E : Type} [DecidableEq E] {M : Machine S A E} {s : S} (start : M.start s)
    (as : List A) (tr : List E) (P : S → Bool)
    (found : (M.exec s as).any (fun r => decide (r.2 = tr) && P r.1) = true) :
    ∃ s', Run M tr s' ∧ P s' = true := by
  obtain ⟨r, done, both⟩ := (Option.any_eq_true _ _).mp found
  obtain ⟨trace, holds⟩ := (Bool.and_eq_true _ _).mp both
  cases of_decide_eq_true trace
  exact ⟨r.1, (Run.start start).exec done, holds⟩

/-- The same machine, stepping only where the guard holds. -/
def Machine.restrict {S A E : Type} (M : Machine S A E) (guard : S → A → Bool) : Machine S A E where
  start := M.start
  step s a := if guard s a then M.step s a else none

theorem restrict_step {S A E : Type} {M : Machine S A E} {guard : S → A → Bool}
    {s : S} {a : A} {r : S × List E} :
    (M.restrict guard).step s a = some r ↔ guard s a = true ∧ M.step s a = some r := by
  simp only [Machine.restrict]
  split <;> simp_all

/-- `RunWhere M guard tr s`: a run of `M` all of whose steps meet the guard. -/
inductive RunWhere {S A E : Type} (M : Machine S A E) (guard : S → A → Prop) :
    List E → S → Prop where
  | start {s : S} : M.start s → RunWhere M guard [] s
  | step {tr es : List E} {s s' : S} {a : A} : RunWhere M guard tr s → guard s a →
      M.step s a = some (s', es) → RunWhere M guard (tr ++ es) s'

theorem RunWhere.run {S A E : Type} {M : Machine S A E} {guard : S → A → Prop} {tr : List E}
    {s : S} (run : RunWhere M guard tr s) : Run M tr s := by
  induction run with
  | start hs => exact .start hs
  | step _ _ taken ih => exact .step ih taken

/-- The invariant rule for guarded runs; the guard is known to hold at every step. -/
theorem RunWhere.invariant {S A E : Type} {M : Machine S A E} {guard : S → A → Prop}
    {I : List E → S → Prop} (initial : ∀ s, M.start s → I [] s)
    (preserves : ∀ tr s a s' es, Run M tr s → I tr s → guard s a → M.step s a = some (s', es) →
      I (tr ++ es) s')
    {tr : List E} {s : S} (run : RunWhere M guard tr s) : I tr s := by
  induction run with
  | start hs => exact initial _ hs
  | step before allowed taken ih => exact preserves _ _ _ _ _ before.run ih allowed taken

/-- A run with a Boolean guard is a run with any guard that this one implies. -/
theorem RunWhere.ofRestrict {S A E : Type} {M : Machine S A E} {guard : S → A → Prop}
    {check : S → A → Bool} (sound : ∀ tr s a, Run M tr s → check s a = true → guard s a)
    {tr : List E} {s : S} (run : Run (M.restrict check) tr s) : RunWhere M guard tr s := by
  induction run with
  | start hs => exact .start hs
  | step _ taken ih =>
    obtain ⟨checked, taken⟩ := restrict_step.mp taken
    exact .step ih (sound _ _ _ ih.run checked) taken

/-- Where every step lowers a rank, a run can be gone on with up to its end. -/
theorem RunWhere.ends {S A E : Type} {M : Machine S A E} {guard : S → A → Prop} (rank : S → Nat)
    (lowers : ∀ s a s' es, M.step s a = some (s', es) → rank s' < rank s) {tr : List E} {s : S}
    (run : RunWhere M guard tr s) :
    ∃ tr' s', RunWhere M guard tr' s' ∧ ∀ a, guard s' a → M.step s' a = none := by
  induction bound : rank s using Nat.strongRecOn generalizing tr s with
  | ind n ih =>
    by_cases ended : ∀ a, guard s a → M.step s a = none
    · exact ⟨tr, s, run, ended⟩
    · simp only [not_forall] at ended
      obtain ⟨a, allowed, goes_on⟩ := ended
      obtain ⟨⟨s', es⟩, taken⟩ := Option.ne_none_iff_exists'.mp goes_on
      exact ih (rank s') (bound ▸ lowers s a s' es taken) (run.step allowed taken) rfl

/-- A history replayed on a state of its own goes on from where it stands. -/
theorem replay_on {L E : Type} {f : L → E → Option L} {l l' : L} {tr : List E} (shown : tr.foldlM f l = some l')
    (es : List E) : (tr ++ es).foldlM f l = es.foldlM f l' := by
  rw [List.foldlM_append, shown]
  rfl

theorem replay_one {L E : Type} {f : L → E → Option L} {l l' : L} {tr : List E} (shown : tr.foldlM f l = some l')
    (e : E) : (tr ++ [e]).foldlM f l = f l' e := by
  rw [replay_on shown, List.foldlM_cons]
  exact bind_pure _

/-- Every event of a history is right after what came before it. -/
inductive Each {E : Type} (right : List E → E → Prop) : List E → Prop where
  | nil : Each right []
  | snoc {tr : List E} {e : E} : Each right tr → right tr e → Each right (tr ++ [e])

theorem each_snoc {E : Type} {right : List E → E → Prop} {tr : List E} {e : E} :
    Each right (tr ++ [e]) ↔ Each right tr ∧ right tr e := by
  refine ⟨fun each => ?_, fun both => .snoc both.1 both.2⟩
  generalize same : tr ++ [e] = whole at each
  cases each with
  | nil => simp at same
  | snoc before last =>
    obtain ⟨rfl, end_⟩ := List.append_inj' same rfl
    obtain rfl := List.singleton_inj.mp end_
    exact ⟨before, last⟩

theorem each_append {E : Type} {right : List E → E → Prop} {tr es : List E} (each : Each right (tr ++ es)) :
    Each right tr := by
  induction es generalizing tr with
  | nil => simpa using each
  | cons e rest ih =>
    have longer : Each right ((tr ++ [e]) ++ rest) := by simpa using each
    exact (each_snoc.mp (ih longer)).1

end Transition
