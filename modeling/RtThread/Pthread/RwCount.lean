import RtThread.Pthread.RwLock

/-! The counters of the read-write lock are its holders and its waiting threads, and a call that fails
leaves them alone. -/
namespace RtThread.Pthread.RwLock
open Transition

variable {T : Type} [DecidableEq T]

/-- Inside the condition wait, which ends with the mutex taken again. -/
def Pc.waits (q : Queue) : Pc → Bool
  | .waiting c | .relocking c _ => c.queue = some q
  | _ => false

variable [Fintype T]

/-- What the counters say when nobody has the mutex. -/
structure Counted (s : State T) : Prop where
  writer : s.lock.refcount = -1 ↔ (∃! t, 0 < (s.holds t).writes) ∧ ∀ t, (s.holds t).reads = 0
  alone : ∀ t, 0 < (s.holds t).writes →
    (s.holds t).writes = 1 ∧ ∀ u, (s.holds u).reads = 0 ∧ (u ≠ t → (s.holds u).writes = 0)
  readers : s.lock.refcount ≠ -1 → s.lock.refcount = ((∑ t, (s.holds t).reads : Nat) : Int)
  nwaitreaders : s.lock.nwaitreaders = (Finset.univ.filter (fun t => (s.pc t).waits .readers)).card
  nwaitwriters : s.lock.nwaitwriters = (Finset.univ.filter (fun t => (s.pc t).waits .writers)).card

/-- Readers only, and counted, or one writer alone. -/
def Exclusive (refcount : Int) (holds : T → Held) : Prop :=
  (refcount = ((∑ t, (holds t).reads : Nat) : Int) ∧ ∀ t, (holds t).writes = 0) ∨
    (refcount = -1 ∧ (∀ t, (holds t).reads = 0) ∧
      ∃ t, (holds t).writes = 1 ∧ ∀ u, u ≠ t → (holds u).writes = 0)

/-- The counters are the sums of what the call has added, until it is granted something. -/
def Spent (p : Pc) (change : Lock) : Prop :=
  p ≠ .idle → (∀ c, p ≠ .leaving c .ok) → change.refcount = 0 ∧ ∀ q, change.count q = p.on q

/-- A call that fails has left the counters alone. -/
def Event.Clean : Event T → Prop
  | .returned _ _ result change _ => result ≠ .ok → change = ⟨0, 0, 0⟩

/-- Nobody destroys the lock, and only those who hold it unlock it. -/
def Allowed (s : State T) : Action T → Prop
  | .call t c => c ≠ .destroy ∧ (c = .unlock → 0 < (s.holds t).total)
  | _ => True

instance (s : State T) : (a : Action T) → Decidable (Allowed s a)
  | .call _ _ => inferInstanceAs (Decidable (_ ∧ _))
  | .lock _ | .body _ _ | .wake _ _ | .unlock _ => isTrue trivial

/-- The locks held, as far as the unlocking threads are concerned. -/
structure Fair (s : State T) : Prop where
  excl : Exclusive s.lock.refcount s.holds
  holder : ∀ t, s.pc t = .locking .unlock ∨ s.pc t = .inside .unlock → 0 < (s.holds t).total

variable {s s' : State T} {t u : T} {c : Call} {l base : Lock} {next : Next} {a : Action T}
  {es tr : List (Event T)} {holds : T → Held} {refcount : Int} {result : Errno}

theorem Exclusive.read (excl : Exclusive refcount holds) (free : 0 ≤ refcount) (t : T) :
    Exclusive (refcount + 1) (Function.update holds t ⟨(holds t).reads + 1, (holds t).writes⟩) := by
  obtain ⟨count, none⟩ | ⟨taken, _⟩ := excl
  · refine Or.inl ⟨?_, fun u => ?_⟩
    · have balance := Tally.sum_update holds Held.reads t ⟨(holds t).reads + 1, (holds t).writes⟩
      simp only at balance
      omega
    · by_cases hu : u = t
      · subst hu
        simpa using none u
      · simpa [hu] using none u
  · omega

theorem Exclusive.write (excl : Exclusive 0 holds) (t : T) :
    Exclusive (-1) (Function.update holds t ⟨(holds t).reads, (holds t).writes + 1⟩) := by
  obtain ⟨count, none⟩ | ⟨taken, _⟩ := excl
  · have empty (u : T) : (holds u).reads = 0 := by
      have zero : ∑ t, (holds t).reads = 0 := by omega
      exact Tally.sum_zero zero u
    refine Or.inr ⟨rfl, fun u => ?_, t, by simp [none t], fun u hu => by simpa [hu] using none u⟩
    by_cases hu : u = t
    · subst hu
      simpa using empty u
    · simpa [hu] using empty u
  · omega

theorem Exclusive.release (excl : Exclusive refcount holds) (holder : 0 < (holds t).total) :
    Exclusive (released refcount) (Function.update holds t ((holds t).settle .unlock .ok)) := by
  obtain ⟨count, none⟩ | ⟨taken, empty, w, one, others⟩ := excl
  · have mine : (holds t).settle .unlock .ok = ⟨(holds t).reads - 1, (holds t).writes⟩ := by
      simp [Held.settle, Call.reads, Call.writes, none t]
    have positive : 0 < (holds t).reads := by simpa [Held.total, none t] using holder
    have balance := Tally.sum_update holds Held.reads t ⟨(holds t).reads - 1, (holds t).writes⟩
    have counted : (holds t).reads ≤ ∑ t, (holds t).reads :=
      Tally.le_sum (fun t => (holds t).reads) t
    refine Or.inl ⟨?_, fun u => ?_⟩
    · rw [mine, released, if_pos (by omega)]
      simp only at balance
      omega
    · by_cases hu : u = t
      · subst hu
        simpa [mine] using none u
      · simpa [hu] using none u
  · have self : t = w := by
      by_contra hu
      simp [Held.total, empty t, others t hu] at holder
    subst self
    have mine : (holds t).settle .unlock .ok = ⟨(holds t).reads, 0⟩ := by
      simp [Held.settle, Call.reads, Call.writes, one]
    refine Or.inl ⟨?_, fun u => ?_⟩
    · have zero : ∑ u, (Function.update holds t ⟨(holds t).reads, 0⟩ u).reads = 0 := by
        refine Finset.sum_eq_zero fun u _ => ?_
        by_cases hu : u = t
        · subst hu
          simpa using empty u
        · simpa [hu] using empty u
      rw [mine, zero, taken]
      rfl
    · by_cases hu : u = t
      · subst hu
        simp [mine]
      · simpa [hu] using others u hu

theorem Exclusive.does (excl : Exclusive base.refcount holds) (does : Does c base (l, next))
    (holder : c = .unlock → 0 < (holds t).total) :
    Exclusive l.refcount (Function.update holds t (next.holds (holds t) c)) := by
  cases does with
  | wait waits taken =>
    simpa only [Next.holds, Function.update_eq_self, join_refcount] using excl
  | fail failed => simpa [Next.holds, Held.settle, failed] using excl
  | read reads free nobody =>
    rw [Next.holds, settle_read reads]
    exact excl.read free t
  | write writes free =>
    rw [Next.holds, settle_write writes]
    exact (free ▸ excl).write t
  | release unlocks wakes =>
    subst unlocks
    exact excl.release (holder rfl)
  | clear destroys free =>
    subst destroys
    simpa [Next.holds, Held.settle, Call.reads, Call.writes] using excl
  | keep => simpa [Next.holds] using excl

theorem Fair.goto {owner : Option T} {change : T → Lock} (fair : Fair s) (t : T) (p : Pc)
    (holder : p = .locking .unlock ∨ p = .inside .unlock → 0 < (s.holds t).total) :
    Fair ({ s with owner := owner, change := change }.goto t p) := by
  refine ⟨fair.excl, fun u unlocks => ?_⟩
  by_cases hu : u = t
  · subst hu
    rw [goto_pc, Function.update_self] at unlocks
    exact holder unlocks
  · rw [goto_pc, Function.update_of_ne hu] at unlocks
    exact fair.holder u unlocks

theorem step_fair (inv : Inv s) (fair : Fair s) (allowed : Allowed s a)
    (taken : step s a = some (s', es)) : Fair s' := by
  cases a with
  | call t c =>
    simp only [step] at taken
    split at taken <;> cases taken
    refine fair.goto t _ fun unlocks => ?_
    simp only [Pc.locking.injEq, reduceCtorEq, or_false] at unlocks
    exact allowed.2 unlocks
  | lock t =>
    simp only [step] at taken
    split at taken
    · contradiction
    · split at taken
      · rename_i c locking
        split at taken
        · cases taken
          refine fair.goto t _ fun unlocks => fair.holder t (Or.inl ?_)
          simp only [Pc.inside.injEq, reduceCtorEq, false_or] at unlocks
          rw [locking, unlocks]
        · cases taken
          exact fair.goto t _ (by simp)
      · cases taken
        exact fair.goto t _ (by simp)
      · contradiction
  | body t tokens =>
    obtain ⟨c, base, l, next, _, _, refcount, does, same, place⟩ := body_cases inv taken
    have holder (unlocks : c = .unlock) : 0 < (s.holds t).total := by
      subst unlocks
      rcases place with inside | ⟨result, back⟩
      · exact fair.holder t (Or.inr inside)
      · obtain ⟨q, waits⟩ := inv.waits t .unlock (by simp [back, Pc.wait])
        cases waits
    have after := (refcount ▸ fair.excl : Exclusive base.refcount s.holds).does does holder
    obtain rfl : (s.advance t c (l, next)).1 = s' := by rw [same]
    refine ⟨?_, fun u unlocks => ?_⟩
    · rw [advance_lock, advance_holds]
      exact after
    · rw [advance_pc] at unlocks
      rw [advance_holds]
      by_cases hu : u = t
      · subst hu
        rw [Function.update_self] at unlocks
        cases next <;> simp [Next.pc] at unlocks
      · rw [Function.update_of_ne hu] at unlocks ⊢
        exact fair.holder u unlocks
  | wake t result =>
    simp only [step] at taken
    split at taken <;> cases taken
    exact fair.goto t _ (by simp)
  | unlock t =>
    simp only [step] at taken
    split at taken <;> cases taken
    exact fair.goto t _ (by simp)

omit [DecidableEq T] [Fintype T] in
theorem Spent.zero {p : Pc} {change : Lock} (spent : Spent p change) (busy : p ≠ .idle)
    (failed : ∀ c, p ≠ .leaving c .ok) (outside : p.wait = none) : change = ⟨0, 0, 0⟩ := by
  obtain ⟨refcount, count⟩ := spent busy failed
  have readers := count .readers
  have writers := count .writers
  simp only [Lock.count, Pc.on, outside] at readers writers
  ext
  · exact refcount
  · exact readers
  · exact writers

/-- A stretch of code under the mutex leaves of its call's account whether the call is counted. -/
theorem body_spent {tokens : Bool} (inv : Inv s) (spent : ∀ t, Spent (s.pc t) (s.change t))
    (taken : step s (.body t tokens) = some (s', es)) :
    (∀ t, Spent (s'.pc t) (s'.change t)) ∧ ∀ e ∈ es, e.Clean := by
  obtain ⟨c, base, l, next, runs, apart, refcount, does, same, place⟩ := body_cases inv taken
  obtain ⟨none, counted⟩ : (s.change t).refcount = 0 ∧ ∀ q, (s.change t).count q = (s.pc t).on q := by
    rcases place with inside | ⟨result, back⟩
    · exact spent t (by simp [inside]) (by simp [inside])
    · exact spent t (by simp [back]) (by simp [back])
  have count (q : Queue) : ((s.change t).moved s.lock l).count q = (next.pc c).on q := by
    have before := apart q
    have moved := does.count (q := q)
    have mine := counted q
    cases q <;> simp only [Lock.count, Lock.moved] at before moved mine ⊢ <;> omega
  have unmoved (fails : l.refcount = base.refcount) : ((s.change t).moved s.lock l).refcount = 0 := by
    simp only [Lock.moved]
    omega
  obtain ⟨rfl, rfl⟩ : (s.advance t c (l, next)).1 = s' ∧ (s.advance t c (l, next)).2 = es := by simp [same]
  refine ⟨fun u => ?_, ?_⟩
  · rw [advance_pc, advance_change]
    by_cases hu : u = t
    · subst hu
      rw [Function.update_self, Function.update_self]
      intro busy failed
      refine ⟨unmoved ?_, count⟩
      cases does with
      | wait => exact join_refcount _ _
      | fail => rfl
      | read => exact absurd rfl (failed c)
      | write => exact absurd rfl (failed c)
      | release => exact absurd rfl (failed c)
      | clear => rfl
      | keep => rfl
    · rw [Function.update_of_ne hu, Function.update_of_ne hu]
      exact spent u
  · cases does with
    | keep destroys busy =>
      intro e he
      obtain rfl := List.mem_singleton.mp he
      intro _
      have readers := count .readers
      have writers := count .writers
      ext
      · exact unmoved rfl
      · exact readers
      · exact writers
    | wait => simp [State.advance]
    | fail => simp [State.advance]
    | read => simp [State.advance]
    | write => simp [State.advance]
    | release => simp [State.advance]
    | clear => simp [State.advance]

theorem step_spent (inv : Inv s) (spent : ∀ t, Spent (s.pc t) (s.change t))
    (taken : step s a = some (s', es)) :
    (∀ t, Spent (s'.pc t) (s'.change t)) ∧ ∀ e ∈ es, e.Clean := by
  have move (t : T) (p : Pc) (same : p ≠ .idle → (∀ c, p ≠ .leaving c .ok) → Spent p (s.change t))
      (u : T) : Spent (Function.update s.pc t p u) (s.change u) := by
    by_cases hu : u = t
    · subst hu
      rw [Function.update_self]
      exact fun busy failed => same busy failed busy failed
    · rw [Function.update_of_ne hu]
      exact spent u
  cases a with
  | call t c =>
    simp only [step] at taken
    split at taken <;> cases taken
    refine ⟨fun u => ?_, by simp⟩
    by_cases hu : u = t
    · subst hu
      simp only [goto_pc, goto_change, Function.update_self]
      exact fun _ _ => ⟨rfl, fun q => by cases q <;> rfl⟩
    · simpa [hu] using spent u
  | lock t =>
    simp only [step] at taken
    split at taken
    · contradiction
    · split at taken
      · rename_i c locking
        have zero := (spent t).zero (by simp [locking]) (by simp [locking]) (by simp [locking, Pc.wait])
        split at taken
        · cases taken
          refine ⟨move t _ fun _ _ => ?_, by simp⟩
          have before := spent t
          rw [locking] at before
          exact fun _ _ => before (by simp) (by simp)
        · cases taken
          exact ⟨move t _ fun busy => absurd rfl busy, by simp [Event.Clean, zero]⟩
      · rename_i c result relocking
        cases taken
        refine ⟨move t _ fun _ _ => ?_, by simp⟩
        have before := spent t
        rw [relocking] at before
        exact fun _ _ => before (by simp) (by simp)
      · contradiction
  | body t tokens => exact body_spent inv spent taken
  | wake t result =>
    simp only [step] at taken
    split at taken <;> cases taken
    rename_i c waiting
    refine ⟨move t _ fun _ _ => ?_, by simp⟩
    have before := spent t
    rw [waiting] at before
    exact fun _ _ => before (by simp) (by simp)
  | unlock t =>
    simp only [step] at taken
    split at taken <;> cases taken
    rename_i c result leaving
    refine ⟨move t _ fun busy => absurd rfl busy, fun e he => ?_⟩
    obtain rfl := List.mem_singleton.mp he
    intro failed
    refine (spent t).zero (by simp [leaving]) (fun d => ?_) (by simp [leaving, Pc.wait])
    rw [leaving, ne_eq, Pc.leaving.injEq]
    exact fun same => failed same.2

omit [DecidableEq T] in
theorem Inv.waiting (inv : Inv s) (free : s.owner = none) (q : Queue) :
    s.lock.count q = (Finset.univ.filter (fun t => (s.pc t).waits q)).card := by
  rw [inv.count q, Finset.card_filter]
  refine congrArg _ (Finset.sum_congr rfl fun t _ => ?_)
  have absent (runs : (s.pc t).runs = true) : False := by
    have mine := inv.owner t runs
    simp [free] at mine
  cases place : s.pc t with
  | back c result => exact (absent (by simp [place, Pc.runs])).elim
  | waiting c => by_cases here : c.queue = some q <;> simp [Pc.on, Pc.wait, Pc.waits, here]
  | relocking c result => by_cases here : c.queue = some q <;> simp [Pc.on, Pc.wait, Pc.waits, here]
  | idle => simp [Pc.on, Pc.wait, Pc.waits]
  | locking c => simp [Pc.on, Pc.wait, Pc.waits]
  | inside c => simp [Pc.on, Pc.wait, Pc.waits]
  | leaving c result => simp [Pc.on, Pc.wait, Pc.waits]

theorem Exclusive.counted (excl : Exclusive s.lock.refcount s.holds) (inv : Inv s) (free : s.owner = none) :
    Counted s := by
  have readers := inv.waiting free .readers
  have writers := inv.waiting free .writers
  obtain ⟨count, none⟩ | ⟨taken, empty, w, one, others⟩ := excl
  · refine ⟨⟨fun taken => by omega, fun held => ?_⟩, fun t held => ?_, fun _ => count, readers, writers⟩
    · obtain ⟨⟨t, held, _⟩, _⟩ := held
      simp [none t] at held
    · simp [none t] at held
  · refine ⟨⟨fun _ => ⟨⟨w, ?_, fun t held => ?_⟩, empty⟩, fun _ => taken⟩, fun t held => ?_,
      fun free => absurd taken free, readers, writers⟩
    · simp [one]
    · by_contra other
      simp [others t other] at held
    · obtain rfl : t = w := by
        by_contra other
        simp [others t other] at held
      exact ⟨one, fun u => ⟨empty u, others u⟩⟩

theorem run_fair (run : RunWhere (machine (T := T)) Allowed tr s) : Fair s := by
  refine run.invariant (I := fun _ => Fair) (fun s start => ?_) ?_
  · cases start
    exact ⟨Or.inl (by simp [init]), by simp [init]⟩
  · intro _ s a s' es before fair allowed taken
    exact step_fair (run_inv before) fair allowed taken

theorem run_spent (run : Run (machine (T := T)) tr s) :
    (∀ t, Spent (s.pc t) (s.change t)) ∧ ∀ e ∈ tr, e.Clean := by
  refine (run.invariant (I := fun tr s => Inv s ∧ (∀ t, Spent (s.pc t) (s.change t)) ∧ ∀ e ∈ tr, e.Clean)
    (fun s start => ?_) ?_).2
  · refine ⟨run_inv (.start start), fun t busy => ?_, by simp⟩
    cases start
    simp [init] at busy
  · rintro tr s a s' es ⟨inv, spent, clean⟩ taken
    obtain ⟨after, later⟩ := step_spent inv spent taken
    refine ⟨step_inv inv taken, after, fun e he => ?_⟩
    rcases List.mem_append.mp he with old | new
    · exact clean e old
    · exact later e new

/-- The read-write lock keeps count of its holders and of those that wait, whatever its condition
variables do; and a call that fails leaves no trace. -/
theorem lock_accounted {T : Type} [DecidableEq T] [Fintype T] {tr : List (Event T)} {s : State T}
    (run : RunWhere machine Allowed tr s) : (s.owner = none → Counted s) ∧ ∀ e ∈ tr, e.Clean :=
  ⟨fun free => (run_fair run).excl.counted (run_inv run.run) free, (run_spent run.run).2⟩

/-- A reader waits for a writer, is woken for nothing, and gives up. -/
theorem lock_accounted_timeout : ∃ s : State (Fin 2), s.lock = ⟨-1, 0, 0⟩ ∧ (s.holds 0).writes = 1 ∧
    s.pc = (fun _ => .idle) ∧ Counted s := by
  obtain ⟨tr, s, run, found⟩ : ∃ tr s,
      Run ((machine (T := Fin 2)).restrict (fun s a => decide (Allowed s a))) tr s ∧
        decide (s.lock = ⟨-1, 0, 0⟩ ∧ (s.holds 0).writes = 1 ∧ s.pc = (fun _ => .idle) ∧
          s.owner = none) = true :=
    Run.reaches (s := init) rfl
      [.call 0 .wrlock, .lock 0, .body 0 false, .unlock 0, .call 1 .timedrdlock, .lock 1, .body 1 false,
        .wake 1 .ok, .lock 1, .body 1 false, .wake 1 .etimedout, .lock 1, .body 1 false, .unlock 1] _ (by decide)
  have guarded := RunWhere.ofRestrict (fun _ _ _ _ => of_decide_eq_true) run
  obtain ⟨lock, held, idle, free⟩ := of_decide_eq_true found
  exact ⟨s, lock, held, idle, (lock_accounted guarded).1 free⟩

end RtThread.Pthread.RwLock
