import RtThread.Pthread.Barrier

/-! A round of the barrier: nobody returns before all have called, and then all of them can. -/
namespace RtThread.Pthread.Barrier
open Transition

variable {T : Type} [DecidableEq T] [Fintype T] {s s' : State T} {t u : T} {a : Action T}
  {es tr : List (Event T)}

/-- How far a thread is from the end of its call. -/
def left (h : Thread) (f : Phase) : Nat :=
  match h.pc with
  | .idle => 0
  | .leaving _ => 1
  | .waiting =>
    match f with
    | .back _ => 2
    | .suspended => 3
    | .unlocked | .out => 4
  | .inside => 5
  | .locking => 6

def State.left (s : State T) : Nat := ∑ t, Barrier.left (s.thread t) (s.sync.cond.phase t)

/-- A step of one thread that leaves the others where they are, or wakes them. -/
theorem left_lt (less : Barrier.left (s'.thread t) (s'.sync.cond.phase t) <
      Barrier.left (s.thread t) (s.sync.cond.phase t))
    (thread : ∀ u, u ≠ t → s'.thread u = s.thread u)
    (phase : ∀ u, u ≠ t → s'.sync.cond.phase u = s.sync.cond.phase u ∨
      s.sync.cond.phase u = .suspended ∧ s'.sync.cond.phase u = .back .eok) : s'.left < s.left := by
  refine Tally.sum_lt less fun u => ?_
  by_cases hu : u = t
  · exact hu ▸ Nat.le_of_lt less
  · rw [thread u hu]
    rcases phase u hu with same | ⟨slept, woken⟩
    · rw [same]
    · rw [slept, woken]
      simp only [Barrier.left]
      split <;> omega

omit [Fintype T] in
theorem goto_thread (s : State T) (t u : T) (p : Pc) :
    (s.goto t p).thread u = if u = t then ⟨p, (s.thread t).round⟩ else s.thread u := by
  simp [State.goto, Function.update_apply]

/-- A step of a call in progress that is allowed and brings the calls nearer to their end. -/
def State.Goes (s : State T) : Prop :=
  ∃ a s' es, (∀ t, a ≠ .call t) ∧ Guard s a ∧ step s a = some (s', es) ∧ s'.left < s.left ∧
    ∀ u, (s'.thread u).round = (s.thread u).round

theorem goes_of {s' : State T} {p : Pc} (call : ∀ t, a ≠ .call t) (guard : Guard s a)
    (taken : step s a = some (s'.goto t p, es)) (thread : s'.thread = s.thread)
    (less : Barrier.left ⟨p, (s.thread t).round⟩ (s'.sync.cond.phase t) <
      Barrier.left (s.thread t) (s.sync.cond.phase t))
    (phase : ∀ u, u ≠ t → s'.sync.cond.phase u = s.sync.cond.phase u ∨
      s.sync.cond.phase u = .suspended ∧ s'.sync.cond.phase u = .back .eok) : s.Goes := by
  refine ⟨a, _, es, call, guard, taken, left_lt (t := t) ?_ (fun u hu => ?_) phase, fun u => ?_⟩
  · rw [goto_thread, if_pos rfl, thread]
    exact less
  · rw [goto_thread, if_neg hu, thread]
  · rw [goto_thread, thread]
    split
    · rename_i same
      exact same ▸ rfl
    · rfl

theorem goes_take (inv : Inv s) (between : s.sync.cond.phase t = .unlocked) : s.Goes := by
  have waits := (inv.inside t).mp (by simp [between])
  obtain ⟨result, others⟩ := CondWait.take_cases s.sync t
  have taken : step s (.take t) =
      some ({ s with sync := { s.sync with cond := s.sync.cond.take t (-1) } }.goto t .waiting, []) := by
    simp [step, waits, State.act, CondWait.step, between]
  refine goes_of (by simp) (show Guard s (.take t) from trivial) taken rfl ?_ fun u hu => Or.inl (others u hu)
  rcases result with ⟨_, _, back⟩ | ⟨_, _, slept⟩
  · simp [Barrier.left, waits, between, back]
  · simp [Barrier.left, waits, between, slept]

theorem goes_unlock {ok : Bool} (inv : Inv s) (leaving : (s.thread t).pc = .leaving ok) : s.Goes := by
  have mine : s.sync.owner = some t := (inv.owner t).mp (by simp [leaving, Pc.runs])
  have out : s.sync.cond.phase t = .out := by
    by_contra within
    simp [(inv.inside t).mp within] at leaving
  have taken : step s (.unlock t) =
      some ({ s with sync := { s.sync with owner := none, hold := 0 } }.goto t .idle, [.returned t ok]) := by
    simp [step, leaving, State.act, CondWait.step, out, mutexUnlock_free mine inv.hold]
  refine goes_of (by simp) (show Guard s (.unlock t) from trivial) taken rfl ?_ fun u hu => Or.inl rfl
  simp [Barrier.left, leaving]

theorem goes_lock (inv : Inv s) (free : s.sync.owner = none) (locking : (s.thread t).pc = .locking) :
    s.Goes := by
  have out : s.sync.cond.phase t = .out := by
    by_contra within
    simp [(inv.inside t).mp within] at locking
  have taken : step s (.lock t) =
      some ({ s with sync := { s.sync with owner := some t, hold := 1 } }.goto t .inside, []) := by
    simp [step, locking, free, State.act, CondWait.step, out, CondWait.mutexLock]
  refine goes_of (by simp) (show Guard s (.lock t) from trivial) taken rfl ?_ fun u hu => Or.inl rfl
  simp [Barrier.left, locking]

theorem goes_relock {e : Err} (inv : Inv s) (free : s.sync.owner = none)
    (back : s.sync.cond.phase t = .back e) : s.Goes := by
  have waits := (inv.inside t).mp (by simp [back])
  have taken : step s (.lock t) = some ({ s with
      sync := { s.sync with owner := some t, hold := 1, cond := s.sync.cond.set t .out } }.goto t
        (.leaving true), []) := by
    simp [step, waits, State.act, CondWait.step, back, CondWait.mutexLock, free]
  refine goes_of (by simp) (show Guard s (.lock t) from trivial) taken rfl ?_ fun u hu => Or.inl ?_
  · simp [Barrier.left, waits, back]
  · simp [hu]

theorem goes_body (inv : Inv s) (inside : (s.thread t).pc = .inside)
    (nobody : ∀ u, s.sync.cond.phase u ≠ .unlocked) : s.Goes := by
  have mine : s.sync.owner = some t := (inv.owner t).mp (by simp [inside, Pc.runs])
  have out : s.sync.cond.phase t = .out := by
    by_contra within
    simp [(inv.inside t).mp within] at inside
  have empty : s.sync.between = 0 := by simp [CondWait.State.between, nobody]
  have some_left := inv.some_left inside
  have first : s.count ≠ 0 := by omega
  have guard : Guard s (.body t) := fun _ => by omega
  by_cases last : s.count - 1 = 0
  · have taken : step s (.body t) = some ({ s with
        count := s.count - 1
        sync := { s.sync with
          cond := s.sync.cond.wakeAll
          owed := fun u => s.sync.owed u ||
            decide (s.sync.cond.phase u = Phase.unlocked ∨ s.sync.cond.phase u = Phase.suspended) } }.goto t
          (.leaving true), []) := by
      simp [step, inside, State.body, first, last, State.act, CondWait.step, out, mine,
        Cond.broadcast_eq inv.sync.cond]
    refine goes_of (by simp) guard taken rfl ?_ fun u hu => ?_
    · simp [Barrier.left, inside]
    · simp only [Cond.wakeAll]
      split
      · rename_i slept
        exact Or.inr ⟨slept, rfl⟩
      · exact Or.inl rfl
  · have taken : step s (.body t) = some ({ s with
        count := s.count - 1
        sync := ⟨s.sync.cond.set t .unlocked, none, 0, Function.update s.sync.owed t false⟩ }.goto t
          .waiting, []) := by
      simp [step, inside, State.body, first, last, State.act, CondWait.step, out, CondWait.condWait, mine,
        mutexUnlock_free mine inv.hold]
    refine goes_of (by simp) guard taken rfl ?_ fun u hu => Or.inl ?_
    · simp [Barrier.left, inside]
    · simp [hu]

/-- Once all have called, as long as one has not returned, something can be done. -/
theorem goes_on (inv : Inv s) (all : ∀ u, 0 < (s.thread u).round) (busy : (s.thread t).pc ≠ .idle) :
    s.Goes := by
  by_cases between : ∃ u, s.sync.cond.phase u = .unlocked
  · obtain ⟨u, between⟩ := between
    exact goes_take inv between
  · have nobody (u : T) : s.sync.cond.phase u ≠ .unlocked := fun h => between ⟨u, h⟩
    cases mutex : s.sync.owner with
    | some u =>
      have runs := (inv.owner u).mpr mutex
      cases place : (s.thread u).pc with
      | inside => exact goes_body inv place nobody
      | leaving ok => exact goes_unlock inv place
      | idle => simp [place, Pc.runs] at runs
      | locking => simp [place, Pc.runs] at runs
      | waiting => simp [place, Pc.runs] at runs
    | none =>
      have rests (u : T) : (s.thread u).pc.runs = false := by
        have owner := inv.owner u
        simpa [mutex] using owner
      by_cases woken : ∃ u e, s.sync.cond.phase u = .back e
      · obtain ⟨u, e, back⟩ := woken
        exact goes_relock inv mutex back
      · by_cases arriving : ∃ u, (s.thread u).pc = .locking
        · obtain ⟨u, locking⟩ := arriving
          exact goes_lock inv mutex locking
        · have place (u : T) : (s.thread u).pc = .idle ∨ (s.thread u).pc = .waiting := by
            have resting := rests u
            cases place : (s.thread u).pc with
            | idle => exact Or.inl rfl
            | waiting => exact Or.inr rfl
            | locking => exact absurd ⟨u, place⟩ arriving
            | inside => simp [place, Pc.runs] at resting
            | leaving ok => simp [place, Pc.runs] at resting
          have counted : s.count = 0 := by
            have zero : ∑ u, (s.thread u).pending = 0 := by
              refine Finset.sum_eq_zero fun u _ => ?_
              have called := all u
              rcases place u with idle | waits
              · simp only [Thread.pending, idle]
                rw [if_neg (by omega)]
              · simp [Thread.pending, waits]
            have count := inv.count
            omega
          have waits := (place t).resolve_left busy
          have within := (inv.inside t).mpr waits
          cases phase : s.sync.cond.phase t with
          | out => exact absurd phase within
          | unlocked => exact absurd phase (nobody t)
          | suspended => exact absurd phase (inv.opened counted t).1
          | back e => exact absurd ⟨t, e, phase⟩ woken

theorem can_return (inv : Inv s) (all : ∀ u, 0 < (s.thread u).round) : s.CanReturn := by
  induction bound : s.left using Nat.strongRecOn generalizing s with
  | ind n ih =>
    by_cases busy : ∃ t, (s.thread t).pc ≠ .idle
    · obtain ⟨t, busy⟩ := busy
      obtain ⟨a, s', es, running, guard, taken, less, round⟩ := goes_on inv all busy
      obtain ⟨as, r, later, done, idle⟩ := ih s'.left (bound ▸ less) (step_inv inv guard taken).1
        (fun u => by rw [round u]; exact all u) rfl
      refine ⟨a :: as, (r.1, es ++ r.2), ?_, ?_, idle⟩
      · intro b hb
        rcases List.mem_cons.mp hb with rfl | hb
        · exact running
        · exact later b hb
      · have first : machine.step s a = some (s', es) := taken
        simp [Machine.exec, first, done]
    · simp only [not_exists, not_not] at busy
      exact ⟨[], (s, []), by simp, rfl, busy⟩

theorem run_inv (run : RunWhere (machine (T := T)) Guard tr s) : Inv s ∧ ∀ e ∈ tr, e.ok = true := by
  refine run.invariant (I := fun tr s => Inv s ∧ ∀ e ∈ tr, e.ok = true) (fun s start => ?_) ?_
  · cases start
    refine ⟨⟨CondWait.start_inv CondWait.start_start, by simp [init], ?_, ?_, ?_, Nat.zero_le 1,
      by simp [init], ?_, by simp [init, CondWait.start, Cond.init]⟩, by simp⟩
    · simp [init, Thread.pending]
    · simp [init, CondWait.start, Cond.init]
    · simp [init, CondWait.start, Pc.runs]
    · simp [init, CondWait.start, Cond.init, Thread.returned]
  · rintro tr s a s' es _ ⟨inv, old⟩ guard taken
    obtain ⟨after, new⟩ := step_inv inv guard taken
    refine ⟨after, fun e he => ?_⟩
    rcases List.mem_append.mp he with he | he
    · exact old e he
    · exact new e he

theorem Inv.rounds (inv : Inv s) : Rounds s := by
  refine ⟨fun t r returned u => ?_, fun r positive called => can_return inv fun u => ?_⟩
  · by_cases fresh : r = 0
    · omega
    · have known := inv.round t
      have all : s.count = 0 := by
        by_contra left
        have none := ((inv.closed left).2 t).2.2
        omega
      have zero : ∑ u, (s.thread u).pending = 0 := by
        have count := inv.count
        omega
      have mine := Tally.sum_zero zero u
      have entered : (s.thread u).round ≠ 0 := fun none => by
        have idle : (s.thread u).pc = .idle := by
          by_contra busy
          have one := (inv.round u).2 busy
          omega
        simp [Thread.pending, idle, none] at mine
      have once : (s.thread t).returned ≤ (s.thread t).round := by
        simp only [Thread.returned]
        split <;> omega
      omega
  · exact Nat.lt_of_lt_of_le positive (called u)

/-- One round of the barrier, where its broadcast meets the condition. -/
theorem barrier_round {T : Type} [DecidableEq T] [Fintype T] {tr : List (Event T)} {s : State T}
    (run : RunWhere machine Guard tr s) : Rounds s ∧ ∀ e ∈ tr, e.ok = true :=
  ⟨(run_inv run).1.rounds, (run_inv run).2⟩

/-- Three threads, of which two sleep when the last one comes. -/
theorem barrier_round_three : ∃ s : State (Fin 3), (s.thread 2).returned = 1 ∧ (s.thread 0).returned = 0 ∧
    Rounds s := by
  obtain ⟨tr, s, run, found⟩ : ∃ tr s,
      Run ((machine (T := Fin 3)).restrict (fun s a => decide (Guard s a))) tr s ∧
        decide ((s.thread 2).returned = 1 ∧ (s.thread 0).returned = 0) = true :=
    Run.reaches (s := init) rfl
      [.call 0, .lock 0, .body 0, .take 0, .call 1, .lock 1, .body 1, .take 1, .call 2, .lock 2, .body 2,
        .unlock 2] _ (by decide)
  have guarded := RunWhere.ofRestrict (fun _ _ _ _ => of_decide_eq_true) run
  obtain ⟨last, first⟩ := of_decide_eq_true found
  exact ⟨s, last, first, (barrier_round guarded).1⟩

/-- In pthread_cond_wait, without a token. -/
def asleep (y : CondWait.State T) (t : T) : Bool :=
  y.cond.phase t = .unlocked ∨ y.cond.phase t = .suspended

/-- More threads wait for the semaphore than there are tokens, and nobody is on the way to broadcast. -/
structure Lost (s : State T) : Prop where
  gone : ∀ t, (s.thread t).pc ≠ .locking ∧ (s.thread t).pc ≠ .inside
  within : ∀ t, asleep s.sync t = true → (s.thread t).pc = .waiting
  short : s.sync.cond.value < (Finset.univ.filter (fun t => asleep s.sync t)).card

instance (s : State T) : Decidable (Lost s) :=
  decidable_of_iff ((∀ t, (s.thread t).pc ≠ .locking ∧ (s.thread t).pc ≠ .inside) ∧
    (∀ t, asleep s.sync t = true → (s.thread t).pc = .waiting) ∧
    s.sync.cond.value < (Finset.univ.filter (fun t => asleep s.sync t)).card)
    ⟨fun ⟨gone, within, short⟩ => ⟨gone, within, short⟩,
      fun lost => ⟨lost.gone, lost.within, lost.short⟩⟩

theorem Lost.goto (lost : Lost s) (y : CondWait.State T) (p : Pc) (away : p ≠ .locking ∧ p ≠ .inside)
    (phase : ∀ u, asleep y u = true → asleep s.sync u = true) (stays : asleep y t = true → p = .waiting)
    (short : y.cond.value < (Finset.univ.filter (fun u => asleep y u)).card) :
    Lost ({ s with sync := y }.goto t p) := by
  refine ⟨fun u => ?_, fun u waits => ?_, short⟩
  · by_cases hu : u = t
    · simpa [goto_thread, hu] using away
    · simpa [goto_thread, hu] using lost.gone u
  · by_cases hu : u = t
    · subst hu
      simpa [goto_thread] using stays waits
    · simpa [goto_thread, hu] using lost.within u (phase u waits)

theorem Lost.relocked (lost : Lost s) (acted : s.act (.relock t) t (.leaving true) = some s') : Lost s' := by
  obtain ⟨y, locked, rfl⟩ := Option.map_eq_some_iff.mp acted
  simp only [CondWait.step] at locked
  split at locked
  · rename_i e back
    obtain ⟨mid, held, rfl⟩ := Option.map_eq_some_iff.mp locked
    obtain ⟨cond, _⟩ := CondWait.mutexLock_frame held
    have same : asleep { mid with cond := mid.cond.set t .out } = asleep s.sync := by
      funext u
      by_cases hu : u = t
      · simp [asleep, hu, back]
      · simp [asleep, hu, cond]
    refine lost.goto _ _ (by simp) (fun u => by rw [same]; exact id) (by simp [asleep]) ?_
    rw [same]
    simp only [Cond.set_value, cond]
    exact lost.short
  · contradiction

theorem Lost.taken (lost : Lost s) (acted : s.act (.take t) t .waiting = some s') : Lost s' := by
  obtain ⟨y, took, rfl⟩ := Option.map_eq_some_iff.mp acted
  obtain ⟨between, rfl⟩ := sync_take took
  obtain ⟨result, others⟩ := CondWait.take_cases s.sync t
  have here : asleep s.sync t = true := by simp [asleep, between]
  have elsewhere (u : T) (hu : u ≠ t) :
      asleep { s.sync with cond := s.sync.cond.take t (-1) } u = asleep s.sync u := by
    simp [asleep, others u hu]
  refine lost.goto _ _ (by simp) (fun u sleeps => ?_) (fun _ => rfl) ?_
  · by_cases hu : u = t
    · exact hu ▸ here
    · rwa [elsewhere u hu] at sleeps
  · have short := lost.short
    rcases result with ⟨positive, value, back⟩ | ⟨_, value, slept⟩
    · have erased : Finset.univ.filter (fun u =>
            asleep { s.sync with cond := s.sync.cond.take t (-1) } u) =
          (Finset.univ.filter (fun u => asleep s.sync u)).erase t := by
        ext u
        by_cases hu : u = t
        · simp [hu, asleep, back]
        · simp [hu, elsewhere u hu]
      rw [erased, Finset.card_erase_of_mem (by simp [here]), value]
      omega
    · have same : asleep { s.sync with cond := s.sync.cond.take t (-1) } = asleep s.sync := by
        funext u
        by_cases hu : u = t
        · simp [hu, asleep, slept, between]
        · exact elsewhere u hu
      rw [same, value]
      omega

theorem Lost.unlocked (lost : Lost s) (acted : s.act (.unlock t) t .idle = some s') : Lost s' := by
  obtain ⟨y, unlocked, rfl⟩ := Option.map_eq_some_iff.mp acted
  simp only [CondWait.step] at unlocked
  split at unlocked
  · rename_i out
    obtain ⟨cond, _⟩ := CondWait.mutexUnlock_frame s.sync t
    rw [← Option.some.inj unlocked]
    have same : asleep (CondWait.mutexUnlock s.sync t) = asleep s.sync := by
      funext u
      simp [asleep, cond]
    refine lost.goto _ _ (by simp) (fun u => by rw [same]; exact id) (by rw [same]; simp [asleep, out]) ?_
    rw [same, cond]
    exact lost.short
  · contradiction

theorem Lost.step (lost : Lost s) (running : ∀ t, a ≠ .call t) (taken : step s a = some (s', es)) :
    Lost s' := by
  cases a with
  | call t => exact absurd rfl (running t)
  | lock t =>
    simp only [Barrier.step] at taken
    split at taken
    · rename_i locking
      exact absurd locking (lost.gone t).1
    · obtain ⟨r, acted, same⟩ := Option.map_eq_some_iff.mp taken
      cases same
      exact lost.relocked acted
    · contradiction
  | body t =>
    simp only [Barrier.step] at taken
    rw [if_neg (lost.gone t).2] at taken
    contradiction
  | take t =>
    simp only [Barrier.step] at taken
    split at taken
    · obtain ⟨r, acted, same⟩ := Option.map_eq_some_iff.mp taken
      cases same
      exact lost.taken acted
    · contradiction
  | unlock t =>
    simp only [Barrier.step] at taken
    split at taken
    · obtain ⟨r, acted, same⟩ := Option.map_eq_some_iff.mp taken
      cases same
      exact lost.unlocked acted
    · contradiction

theorem Lost.never (lost : Lost s) : ¬s.CanReturn := by
  rintro ⟨as, r, running, done, idle⟩
  induction as generalizing s r with
  | nil =>
    cases Option.some.inj done
    obtain ⟨t, ht⟩ := Finset.card_pos.mp (Nat.lt_of_le_of_lt (Nat.zero_le _) lost.short)
    have waits := lost.within t (by simpa using ht)
    exact absurd ((idle t).symm.trans waits) (by simp)
  | cons a as ih =>
    obtain ⟨⟨mid, es⟩, taken, tail⟩ := Option.bind_eq_some_iff.mp done
    obtain ⟨q, rest, rfl⟩ := Option.map_eq_some_iff.mp tail
    exact ih (lost.step (running a List.mem_cons_self) taken) q
      (fun b hb => running b (List.mem_cons_of_mem _ hb)) rest idle

/-- A second round is refused at once, before the other thread has entered it; and two threads of three
that are about to sleep when the last one comes cannot both return. -/
theorem barrier_breaks :
    (∃ tr, ∃ s : State (Fin 2), Run machine tr s ∧ .returned 0 false ∈ tr ∧ ¬Rounds s) ∧
      ∃ tr, ∃ s : State (Fin 3), Run machine tr s ∧ (∀ t, (s.thread t).round = 1) ∧ ¬s.CanReturn := by
  refine ⟨?_, ?_⟩
  · obtain ⟨s, run, found⟩ : ∃ s, Run (machine (T := Fin 2))
        [.returned 1 true, .returned 0 true, .returned 0 false] s ∧
          decide ((s.thread 0).returned = 2 ∧ (s.thread 1).round = 1) = true :=
      Run.shows (s := init) rfl
        [.call 0, .lock 0, .body 0, .take 0, .call 1, .lock 1, .body 1, .unlock 1, .lock 0, .unlock 0,
          .call 0, .lock 0, .body 0, .unlock 0] _ _ (by decide)
    obtain ⟨twice, once⟩ := of_decide_eq_true found
    refine ⟨_, s, run, by simp, fun rounds => ?_⟩
    have entered := rounds.together 0 2 (by omega) 1
    omega
  · obtain ⟨tr, s, run, found⟩ : ∃ tr s, Run (machine (T := Fin 3)) tr s ∧
        decide ((∀ t, (s.thread t).round = 1) ∧ Lost s) = true :=
      Run.reaches (s := init) rfl
        [.call 0, .lock 0, .body 0, .call 1, .lock 1, .body 1, .call 2, .lock 2, .body 2] _ (by decide)
    obtain ⟨called, lost⟩ := of_decide_eq_true found
    exact ⟨tr, s, run, called, lost.never⟩

end RtThread.Pthread.Barrier
