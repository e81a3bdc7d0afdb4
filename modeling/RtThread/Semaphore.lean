import RtThread.Run
import RtThread.Wait

/-! Semaphores: rt_sem_take, rt_sem_release and rt_sem_control over every order of
their interrupt-disabled sections. A blocked caller is inside rt_schedule; any
READY thread may be the one that runs next, so no priority order is assumed. -/
namespace RtThread.Semaphore
open Kernel Transition

def rtSemValueMax : Nat := 0xffff

/-- One semaphore, its wait list being `.wait 0`. `waiting t`: thread `t` is in the
rt_schedule call of rt_sem_take. -/
structure State where
  kernel : Kernel
  value : Nat
  flag : IpcFlag
  waiting : Tid → Bool

/-- `handed t` is the part of a release that gives its token to the waiter `t`. -/
inductive Event where
  | took (t : Tid)
  | failed (t : Tid) (e : Err)
  | returned (t : Tid) (e : Err)
  | released
  | handed (t : Tid)
  | full
  | reset (n : Nat)
  deriving DecidableEq

inductive Action where
  | take (t : Tid) (time : Int)
  | wake (t : Tid)
  | release
  | timeout (t : Tid)
  | reset (n : Nat)

/- A caller that does not block may be an interrupt handler, so only the blocking
branch asks for a running thread. -/
def rtSemTake (s : State) (t : Tid) (time : Int) : Option (State × List Event) :=
  if s.waiting t then none
  else if 0 < s.value then some ({ s with value := s.value - 1 }, [.took t])
  else if time = 0 then some (s, [.failed t .etimeout])
  else if (s.kernel.thread t).stat ≠ .ready then none
  else
    let k := s.kernel.modify t (fun th => { th with error := .eok })
    let k := k.rtIpcListSuspend (.wait 0) t s.flag
    (k.startWaitTimer t time).map (fun k =>
      ({ s with kernel := k, waiting := Function.update s.waiting t true }, []))

def rtSemTrytake (s : State) (t : Tid) : Option (State × List Event) := rtSemTake s t 0

/-- The end of rt_sem_take after rt_schedule has come back to the caller. -/
def takeReturn (s : State) (t : Tid) : Option (State × List Event) :=
  if s.waiting t ∧ (s.kernel.thread t).stat = .ready then
    some ({ s with waiting := Function.update s.waiting t false },
      [.returned t (s.kernel.thread t).error])
  else none

def rtSemRelease (s : State) : State × List Event :=
  match s.kernel.list (.wait 0) with
  | t :: _ => ({ s with kernel := s.kernel.rtIpcListResume (.wait 0) }, [.released, .handed t])
  | [] =>
    if s.value < rtSemValueMax then ({ s with value := s.value + 1 }, [.released])
    else (s, [.full])

/-- rt_sem_control with RT_IPC_CMD_RESET; the argument is cut to 16 bits. -/
def rtSemReset (s : State) (n : Nat) : Option (State × List Event) :=
  (s.kernel.rtIpcListResumeAll (.wait 0)).map (fun k =>
    ({ s with kernel := k, value := n % 2 ^ 16 }, [.reset n]))

def step (s : State) : Action → Option (State × List Event)
  | .take t time => rtSemTake s t time
  | .wake t => takeReturn s t
  | .release => some (rtSemRelease s)
  | .timeout t => (s.kernel.timerExpire t).map (fun k => ({ s with kernel := k }, []))
  | .reset n => rtSemReset s n

/-- After rt_sem_init, with no thread inside a call. -/
structure Start (v : Nat) (s : State) : Prop where
  value : s.value = v
  bound : v ≤ rtSemValueMax
  list : s.kernel.list (.wait 0) = []
  idle : ∀ t, s.waiting t = false

def machine (v : Nat) : Machine State Action Event where
  start := Start v
  step := step

/-- A caller that owns a token and has only to return. -/
def granted (s : State) (t : Tid) : Bool :=
  s.waiting t && decide ((s.kernel.thread t).stat = .ready) &&
    decide ((s.kernel.thread t).error = .eok)

def Event.takesToken : Event → Bool
  | .took _ | .handed _ => true
  | _ => false

def Event.givesToken : Event → Bool
  | .released => true
  | _ => false

/-- The value set by the last reset, or the initial one, and the events since. -/
def sinceReset (v : Nat) (tr : List Event) : Nat × List Event :=
  tr.foldl (fun acc e => match e with
    | .reset n => (n % 2 ^ 16, [])
    | e => (acc.1, acc.2 ++ [e])) (v, [])

def Balanced (v : Nat) (tr : List Event) (value : Nat) : Prop :=
  value + (sinceReset v tr).2.countP Event.takesToken =
    (sinceReset v tr).1 + (sinceReset v tr).2.countP Event.givesToken

/-- Every handed token is returned with success, or is about to be. -/
def Matched (tr : List Event) (s : State) : Prop :=
  ∀ t, tr.count (.handed t) = tr.count (.returned t .eok) + if granted s t then 1 else 0

structure Inv (v : Nat) (tr : List Event) (s : State) : Prop where
  wait : WaitInv s.kernel 0 (fun t => s.waiting t = true)
  free : 0 < s.value → s.kernel.list (.wait 0) = []
  bound : s.value ≤ rtSemValueMax
  balance : Balanced v tr s.value
  tokens : Matched tr s

variable {v : Nat} {tr : List Event} {s s' : State} {es : List Event} {t : Tid}

theorem start_inv (start : Start v s) : Inv v [] s := by
  refine ⟨⟨by simp [start.list], ?_, by simp [start.list], ?_⟩, fun _ => start.list, ?_, ?_, ?_⟩
  · intro t; simp [start.list, start.idle]
  · intro t h; simp [start.idle] at h
  · rw [start.value]; exact start.bound
  · simp [Balanced, sinceReset, start.value]
  · intro t; simp [granted, start.idle]

theorem sinceReset_append (v : Nat) (tr : List Event) {e : Event} (plain : ∀ n, e ≠ .reset n) :
    sinceReset v (tr ++ [e]) = ((sinceReset v tr).1, (sinceReset v tr).2 ++ [e]) := by
  cases e with
  | reset n => exact absurd rfl (plain n)
  | _ => simp [sinceReset]

theorem granted_same (waiting : s'.waiting t = s.waiting t)
    (stat : (s'.kernel.thread t).stat = (s.kernel.thread t).stat)
    (error : (s'.kernel.thread t).error = (s.kernel.thread t).error) :
    granted s' t = granted s t := by
  simp only [granted, waiting, stat, error]

theorem granted_iff : granted s t = true ↔ s.waiting t = true ∧
    (s.kernel.thread t).stat = .ready ∧ (s.kernel.thread t).error = .eok := by
  simp [granted, and_assoc]

theorem granted_suspended (suspended : (s.kernel.thread t).stat = .suspend) :
    granted s t = false := by
  simp [granted, suspended]

theorem take_cases {time : Int} (taken : rtSemTake s t time = some (s', es)) :
    s.waiting t = false ∧
      ((0 < s.value ∧ s' = { s with value := s.value - 1 } ∧ es = [.took t]) ∨
      (s' = s ∧ es = [.failed t .etimeout]) ∨
      (s.value = 0 ∧ (s.kernel.thread t).stat = .ready ∧ es = [] ∧ ∃ k,
        ((s.kernel.modify t (fun th => { th with error := .eok })).rtIpcListSuspend (.wait 0) t
          s.flag).startWaitTimer t time = some k ∧
        s' = { s with kernel := k, waiting := Function.update s.waiting t true })) := by
  simp only [rtSemTake] at taken
  split at taken
  · contradiction
  · rename_i idle
    refine ⟨by simpa using idle, ?_⟩
    split at taken
    · rename_i positive
      cases Option.some.inj taken
      exact Or.inl ⟨positive, rfl, rfl⟩
    · rename_i zero
      split at taken
      · cases Option.some.inj taken
        exact Or.inr (Or.inl ⟨rfl, rfl⟩)
      · split at taken
        · contradiction
        · rename_i ready
          obtain ⟨k, started, done⟩ := Option.map_eq_some_iff.mp taken
          cases done
          exact Or.inr (Or.inr ⟨by omega, not_not.mp ready, rfl, k, started, rfl⟩)

theorem return_cases (taken : takeReturn s t = some (s', es)) :
    s.waiting t = true ∧ (s.kernel.thread t).stat = .ready ∧
      s' = { s with waiting := Function.update s.waiting t false } ∧
      es = [.returned t (s.kernel.thread t).error] := by
  simp only [takeReturn] at taken
  split at taken
  · rename_i enabled
    cases Option.some.inj taken
    exact ⟨enabled.1, enabled.2, rfl, rfl⟩
  · contradiction

theorem release_cases (inv : Inv v tr s) (taken : rtSemRelease s = (s', es)) :
    (∃ w rest, s.kernel.list (.wait 0) = w :: rest ∧ es = [.released, .handed w] ∧
      (s.kernel.thread w).stat = .suspend ∧
      s' = { s with kernel := (s.kernel.rtThreadResume w).1 }) ∨
    (s.kernel.list (.wait 0) = [] ∧ s.value < rtSemValueMax ∧ es = [.released] ∧
      s' = { s with value := s.value + 1 }) ∨
    (s.kernel.list (.wait 0) = [] ∧ s.value = rtSemValueMax ∧ es = [.full] ∧ s' = s) := by
  cases list : s.kernel.list (.wait 0) with
  | cons w rest =>
    simp only [rtSemRelease, list, rtIpcListResume, Prod.mk.injEq] at taken
    have suspended := inv.wait.suspended w (by simp [list])
    exact Or.inl ⟨w, rest, rfl, taken.2.symm, suspended, taken.1.symm⟩
  | nil =>
    simp only [rtSemRelease, list] at taken
    split at taken
    · rename_i room
      cases taken
      exact Or.inr (Or.inl ⟨rfl, room, rfl, rfl⟩)
    · rename_i top
      cases taken
      exact Or.inr (Or.inr ⟨rfl, Nat.le_antisymm inv.bound (Nat.le_of_not_lt top), rfl, rfl⟩)

/- The token of a handed waiter is known by its three fields alone. -/
theorem handed_granted (inv : Inv v tr s) {w : Tid} {rest : List Tid}
    (list : s.kernel.list (.wait 0) = w :: rest) :
    granted { s with kernel := (s.kernel.rtThreadResume w).1 } w = true := by
  have here : w ∈ s.kernel.list (.wait 0) := by simp [list]
  have waits := ((inv.wait.listed w).mp here).1
  simp [granted, waits, resume_self (inv.wait.suspended w here), Thread.awake, inv.wait.pending w here]

theorem take_inv {time : Int} (inv : Inv v tr s) (taken : rtSemTake s t time = some (s', es)) :
    Inv v (tr ++ es) s' := by
  obtain ⟨idle, ⟨positive, rfl, rfl⟩ | ⟨rfl, rfl⟩ | ⟨zero, ready, rfl, k, started, rfl⟩⟩ :=
    take_cases taken
  · refine ⟨inv.wait, fun h => inv.free positive, Nat.le_trans (Nat.sub_le _ _) inv.bound, ?_, ?_⟩
    · have old := inv.balance
      simp only [Balanced, sinceReset_append v tr (e := .took t) (by simp)] at old ⊢
      simp only [List.countP_append, List.countP_cons, List.countP_nil, Event.takesToken,
        Event.givesToken]
      simp only [if_true, Bool.false_eq_true, if_false]
      omega
    · intro u
      have same : granted { s with value := s.value - 1 } u = granted s u := granted_same rfl rfl rfl
      simpa [same] using inv.tokens u
  · refine ⟨inv.wait, inv.free, inv.bound, ?_, ?_⟩
    · have old := inv.balance
      simp only [Balanced, sinceReset_append v tr (e := .failed t .etimeout) (by simp)] at old ⊢
      simpa [List.countP_append, Event.takesToken, Event.givesToken] using old
    · intro u; simpa using inv.tokens u
  · obtain ⟨wait, parked, others⟩ := inv.wait.blockTimed ready started
    rw [List.append_nil]
    refine ⟨wait.congr ?_, ?_, inv.bound, inv.balance, ?_⟩
    · intro u
      by_cases hu : u = t <;> simp [hu]
    · intro positive; simp [zero] at positive
    · intro u
      rw [inv.tokens u]
      by_cases hu : u = t
      · subst hu
        have before : granted s u = false := by simp [granted, idle]
        have after : granted { s with kernel := k, waiting := Function.update s.waiting u true } u =
            false := granted_suspended parked
        rw [before, after]
      · have same : granted { s with kernel := k, waiting := Function.update s.waiting t true } u =
            granted s u :=
          granted_same (by simp [hu]) (by simp [others u hu]) (by simp [others u hu])
        rw [same]

theorem return_inv (inv : Inv v tr s) (taken : takeReturn s t = some (s', es)) :
    Inv v (tr ++ es) s' := by
  obtain ⟨waits, ready, rfl, rfl⟩ := return_cases taken
  refine ⟨(inv.wait.leave ready).congr ?_, inv.free, inv.bound, ?_, ?_⟩
  · intro u
    by_cases hu : u = t <;> simp [hu]
  · have old := inv.balance
    simp only [Balanced, sinceReset_append v tr (e := .returned t _) (by simp)] at old ⊢
    simpa [List.countP_append, Event.takesToken, Event.givesToken] using old
  · intro u
    have old := inv.tokens u
    by_cases hu : u = t
    · subst hu
      by_cases clean : (s.kernel.thread u).error = .eok
      · have now : granted s u = true := by simp [granted, waits, ready, clean]
        simp only [now, if_true] at old
        simp [granted, clean, old]
      · simpa [granted, clean] using old
    · have same : granted { s with waiting := Function.update s.waiting t false } u = granted s u :=
        granted_same (by simp [hu]) rfl rfl
      rw [same]
      simpa [List.count_append, List.count_cons, Ne.symm hu] using old

theorem release_inv (inv : Inv v tr s) (taken : rtSemRelease s = (s', es)) :
    Inv v (tr ++ es) s' := by
  obtain ⟨w, rest, list, rfl, suspended, rfl⟩ | ⟨list, room, rfl, rfl⟩ | ⟨list, _, rfl, rfl⟩ :=
    release_cases inv taken
  · have empty : ¬ 0 < s.value := fun h => by simp [inv.free h] at list
    refine ⟨inv.wait.resume suspended, fun h => absurd h empty, inv.bound, ?_, ?_⟩
    · have old := inv.balance
      rw [show tr ++ [Event.released, .handed w] = (tr ++ [.released]) ++ [.handed w] by simp]
      simp only [Balanced, sinceReset_append v _ (e := .handed w) (by simp),
        sinceReset_append v tr (e := .released) (by simp)] at old ⊢
      simp only [List.countP_append, List.countP_cons, List.countP_nil, Event.takesToken,
        Event.givesToken, if_true, Bool.false_eq_true, if_false]
      omega
    · intro u
      have old := inv.tokens u
      by_cases hu : u = w
      · subst hu
        have before : granted s u = false := granted_suspended suspended
        simp only [before, Bool.false_eq_true, if_false] at old
        simp [handed_granted inv list, old]
      · have same : granted { s with kernel := (s.kernel.rtThreadResume w).1 } u = granted s u :=
          granted_same rfl (by simp [resume_other suspended hu]) (by simp [resume_other suspended hu])
        rw [same]
        simpa [List.count_append, List.count_cons, Ne.symm hu] using old
  · refine ⟨inv.wait, fun _ => list, room, ?_, ?_⟩
    · have old := inv.balance
      simp only [Balanced, sinceReset_append v tr (e := .released) (by simp)] at old ⊢
      simp only [List.countP_append, List.countP_cons, List.countP_nil, Event.takesToken,
        Event.givesToken, if_true, Bool.false_eq_true, if_false]
      omega
    · intro u
      have same : granted { s with value := s.value + 1 } u = granted s u := granted_same rfl rfl rfl
      simpa [same] using inv.tokens u
  · refine ⟨inv.wait, inv.free, inv.bound, ?_, ?_⟩
    · have old := inv.balance
      simp only [Balanced, sinceReset_append v tr (e := .full) (by simp)] at old ⊢
      simpa [List.countP_append, Event.takesToken, Event.givesToken] using old
    · intro u; simpa using inv.tokens u

theorem timeout_inv {k : Kernel} (inv : Inv v tr s) (expired : s.kernel.timerExpire t = some k) :
    Inv v tr { s with kernel := k } := by
  obtain ⟨_, suspended, self, others, lists, _⟩ := timerExpire_some expired
  refine ⟨inv.wait.expire expired, ?_, inv.bound, inv.balance, ?_⟩
  · intro positive
    change k.list (.wait 0) = []
    rw [lists, inv.free positive]
    rfl
  · intro u
    rw [inv.tokens u]
    by_cases hu : u = t
    · subst hu
      have before : granted s u = false := granted_suspended suspended
      have after : granted { s with kernel := k } u = false := by simp [granted, self]
      rw [before, after]
    · have same : granted { s with kernel := k } u = granted s u :=
        granted_same rfl (by simp [others u hu]) (by simp [others u hu])
      rw [same]

theorem reset_inv {n : Nat} (inv : Inv v tr s) (taken : rtSemReset s n = some (s', es)) :
    Inv v (tr ++ es) s' := by
  obtain ⟨k, done, result⟩ := Option.map_eq_some_iff.mp taken
  cases result
  obtain ⟨k', done', wait, _, empty, woken, others, _⟩ := inv.wait.resumeAll inv.wait
  cases Option.some.inj (done.symm.trans done')
  refine ⟨wait, fun _ => empty, ?_, ?_, ?_⟩
  · exact Nat.le_of_lt_succ (Nat.mod_lt n (by decide))
  · simp [Balanced, sinceReset]
  · intro u
    have old := inv.tokens u
    by_cases here : u ∈ s.kernel.list (.wait 0)
    · have before : granted s u = false := granted_suspended (inv.wait.suspended u here)
      have after : ∀ value, granted { s with kernel := k, value := value } u = false := by
        simp [granted, woken u here]
      simpa [before, after] using old
    · have same : ∀ value, granted { s with kernel := k, value := value } u = granted s u :=
        fun _ => granted_same rfl (by simp [others u here]) (by simp [others u here])
      simpa [same] using old

theorem step_inv {a : Action} (inv : Inv v tr s) (taken : step s a = some (s', es)) :
    Inv v (tr ++ es) s' := by
  cases a with
  | take t time => exact take_inv inv taken
  | wake t => exact return_inv inv taken
  | release => exact release_inv inv (Option.some.inj taken)
  | timeout t =>
    obtain ⟨k, expired, result⟩ := Option.map_eq_some_iff.mp taken
    cases result
    simpa using timeout_inv inv expired
  | reset n => exact reset_inv inv taken

theorem run_inv (run : Run (machine v) tr s) : Inv v tr s :=
  run.invariant (fun _ start => start_inv start) (fun _ _ _ _ _ inv taken => step_inv inv taken)

/-- A granted caller keeps its token through every step of others and can only
leave its call with success. -/
theorem granted_keeps {a : Action} (inv : Inv v tr s) (owns : granted s t = true)
    (taken : step s a = some (s', es)) :
    (granted s' t = true ∧ ∀ e, Event.returned t e ∉ es) ∨ (a = .wake t ∧ es = [.returned t .eok]) := by
  have fields := granted_iff.mp owns
  have running : ∀ {u}, (s.kernel.thread u).stat = .suspend → t ≠ u := by
    rintro u suspended rfl
    rw [fields.2.1] at suspended
    cases suspended
  cases a with
  | take u time =>
    obtain ⟨idle, ⟨_, rfl, rfl⟩ | ⟨rfl, rfl⟩ | ⟨_, ready, rfl, k, started, rfl⟩⟩ := take_cases taken
    · exact Or.inl ⟨granted_iff.mpr fields, by simp⟩
    · exact Or.inl ⟨owns, by simp⟩
    · have other : t ≠ u := by
        rintro rfl
        simp [fields.1] at idle
      have same := (inv.wait.blockTimed ready started).2.2 t other
      exact Or.inl ⟨granted_iff.mpr (by simpa [same, other] using fields), by simp⟩
  | wake u =>
    obtain ⟨_, _, rfl, rfl⟩ := return_cases taken
    by_cases hu : t = u
    · subst hu
      exact Or.inr ⟨rfl, by rw [fields.2.2]⟩
    · exact Or.inl ⟨granted_iff.mpr (by simpa [hu] using fields), by simp [hu]⟩
  | release =>
    obtain ⟨w, _, _, rfl, suspended, rfl⟩ | ⟨_, _, rfl, rfl⟩ | ⟨_, _, rfl, rfl⟩ :=
      release_cases inv (Option.some.inj taken)
    · have same := resume_other suspended (running suspended)
      exact Or.inl ⟨granted_iff.mpr (by simpa [same] using fields), by simp⟩
    · exact Or.inl ⟨granted_iff.mpr fields, by simp⟩
    · exact Or.inl ⟨owns, by simp⟩
  | timeout u =>
    obtain ⟨k, expired, result⟩ := Option.map_eq_some_iff.mp taken
    cases result
    obtain ⟨_, suspended, _, others, _⟩ := timerExpire_some expired
    have same := others t (running suspended)
    exact Or.inl ⟨granted_iff.mpr (by simpa [same] using fields), by simp⟩
  | reset n =>
    obtain ⟨k, done, result⟩ := Option.map_eq_some_iff.mp taken
    cases result
    obtain ⟨k', done', _, _, _, _, others, _⟩ := inv.wait.resumeAll inv.wait
    cases Option.some.inj (done.symm.trans done')
    have same := others t (inv.wait.absent fields.2.1)
    exact Or.inl ⟨granted_iff.mpr (by simpa [same] using fields), by simp⟩

/-- Where the token of a release goes. -/
inductive ReleaseOutcome (s s' : State) (es : List Event) : Prop where
  | toWaiter (w : Tid) (rest : List Tid) :
      s.kernel.list (.wait 0) = w :: rest → es = [.released, .handed w] → s'.value = s.value →
      s'.kernel.list (.wait 0) = rest → granted s w = false → granted s' w = true →
      (∀ u, u ≠ w → granted s' u = granted s u) → ReleaseOutcome s s' es
  | toValue : s.kernel.list (.wait 0) = [] → es = [.released] → s.value < rtSemValueMax →
      s' = { s with value := s.value + 1 } → ReleaseOutcome s s' es
  | full : s.kernel.list (.wait 0) = [] → s.value = rtSemValueMax → es = [.full] → s' = s →
      ReleaseOutcome s s' es

theorem release_outcome (inv : Inv v tr s) (taken : step s .release = some (s', es)) :
    ReleaseOutcome s s' es := by
  obtain ⟨w, rest, list, rfl, suspended, rfl⟩ | ⟨list, room, rfl, rfl⟩ | ⟨list, top, rfl, rfl⟩ :=
    release_cases inv (Option.some.inj taken)
  · have nodup := inv.wait.nodup
    rw [list] at nodup
    refine .toWaiter w rest list rfl rfl ?_ (granted_suspended suspended) (handed_granted inv list) ?_
    · rw [resume_wait suspended, list]
      simpa using WaitInv.filter_absent rest (List.nodup_cons.mp nodup).1
    · intro u hu
      exact granted_same rfl (by simp [resume_other suspended hu]) (by simp [resume_other suspended hu])
  · exact .toValue list rfl room rfl
  · exact .full list top rfl rfl

/-- The step in which a take fails, or a blocked one returns, changes neither the
value nor any thread or list. -/
theorem failing_take {a : Action} {e : Err} (taken : step s a = some (s', es))
    (shown : Event.failed t e ∈ es ∨ Event.returned t e ∈ es) :
    s'.value = s.value ∧ s'.kernel = s.kernel := by
  cases a with
  | take u time =>
    obtain ⟨_, ⟨_, rfl, rfl⟩ | ⟨rfl, rfl⟩ | ⟨_, _, rfl, _, _, rfl⟩⟩ := take_cases taken
    · simp at shown
    · exact ⟨rfl, rfl⟩
    · simp at shown
  | wake u =>
    obtain ⟨_, _, rfl, rfl⟩ := return_cases taken
    exact ⟨rfl, rfl⟩
  | release =>
    have quiet : ∀ x ∈ (rtSemRelease s).2, x ≠ .failed t e ∧ x ≠ .returned t e := by
      unfold rtSemRelease
      split
      · simp
      · split <;> simp
    rw [Option.some.inj taken] at quiet
    rcases shown with h | h
    · exact absurd rfl (quiet _ h).1
    · exact absurd rfl (quiet _ h).2
  | timeout u =>
    obtain ⟨_, _, result⟩ := Option.map_eq_some_iff.mp taken
    cases result
    simp at shown
  | reset n =>
    obtain ⟨_, _, result⟩ := Option.map_eq_some_iff.mp taken
    cases result
    simp at shown

/-- Token conservation, in a state `s` reached with history `tr` from value `v`. -/
structure Conserved (v : Nat) (tr : List Event) (s : State) : Prop where
  free : 0 < s.value → s.kernel.list (.wait 0) = []
  balance : s.value + (sinceReset v tr).2.countP Event.takesToken =
    (sinceReset v tr).1 + (sinceReset v tr).2.countP Event.givesToken
  tokens : ∀ t, tr.count (.handed t) = tr.count (.returned t .eok) + if granted s t then 1 else 0
  release : ∀ s' es, step s .release = some (s', es) → ReleaseOutcome s s' es
  returns : ∀ t, granted s t = true → ∃ s', step s (.wake t) = some (s', [.returned t .eok])
  keeps : ∀ t a s' es, granted s t = true → step s a = some (s', es) →
    (granted s' t = true ∧ ∀ e, Event.returned t e ∉ es) ∨ (a = .wake t ∧ es = [.returned t .eok])
  errors : ∀ t a s' es e, step s a = some (s', es) →
    (Event.failed t e ∈ es ∨ Event.returned t e ∈ es) → s'.value = s.value ∧ s'.kernel = s.kernel

/-- For every initial value and every interleaving, no token is lost or duplicated. -/
theorem semaphore_conserves {v : Nat} {tr : List Event} {s : State} (run : Run (machine v) tr s) :
    Conserved v tr s := by
  have inv := run_inv run
  refine ⟨inv.free, inv.balance, inv.tokens, fun _ _ => release_outcome inv, ?_,
    fun _ _ _ _ => granted_keeps inv, fun _ _ _ _ _ => failing_take⟩
  intro t owns
  obtain ⟨waits, ready, clean⟩ := granted_iff.mp owns
  exact ⟨{ s with waiting := Function.update s.waiting t false }, by
    simp only [step, takeReturn, waits, ready, clean, and_self, if_true]⟩

/-- Thread 1 blocks on an empty semaphore and a release hands it the token. -/
theorem semaphore_conserves_handover :
    ∃ tr s, Conserved 0 tr s ∧ granted s 1 = true ∧ s.value = 0 := by
  let s₀ : State := ⟨startedThreads (fun _ => 10) 2, 0, .fifo, fun _ => false⟩
  have start : Start 0 s₀ := ⟨rfl, by decide, by decide, fun _ => rfl⟩
  obtain ⟨tr, s, run, found⟩ := Run.reaches (M := machine 0) start
    [.take 1 5, .release] (fun s => granted s 1 && decide (s.value = 0)) (by decide)
  simp only [Bool.and_eq_true, decide_eq_true_eq] at found
  exact ⟨tr, s, semaphore_conserves run, found⟩

end RtThread.Semaphore
