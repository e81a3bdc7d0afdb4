import RtThread.Pthread.RwWait

/-! Whether a thread can be left waiting for a read-write lock that nobody holds. -/
namespace RtThread.Pthread.RwLock
open Transition

def Event.holding {T : Type} : Event T → Bool
  | .returned _ _ _ _ holding => holding

namespace Strand

variable {T : Type} [DecidableEq T]

/-- The thread is in a call for a lock. -/
def acquires : Pc → Bool
  | .idle => false
  | .locking c | .inside c | .waiting c | .relocking c _ | .back c _ | .leaving c _ => c.reads || c.writes

def State.mutexTaken (s : State T) (t : T) : Bool := s.base.owner ≠ none ∧ s.base.owner ≠ some t

/-- The thread is suspended, and no timer will wake it. -/
def State.blocked (s : State T) (t : T) : Bool :=
  match s.base.pc t with
  | .locking _ | .relocking _ _ => s.mutexTaken t
  | .waiting c =>
    match c.queue with
    | none => false
    | some q =>
      match (s.cond q).phase t with
      | .suspended => !timed c
      | .back _ => s.mutexTaken t
      | _ => false
  | _ => false

/-- Nobody holds the lock, somebody is in a call for it, and nobody in a call can go on. -/
def State.Stranded (s : State T) : Prop :=
  (∀ t, (s.base.holds t).total = 0) ∧ (∃ t, acquires (s.base.pc t) = true) ∧
    ∀ t, s.base.pc t ≠ .idle → s.blocked t = true

instance [Fintype T] (s : State T) : Decidable s.Stranded := inferInstanceAs (Decidable (_ ∧ _ ∧ _))

/-- Some thread has not been woken since it unlocked the mutex. -/
def State.Waiters (s : State T) (q : Queue) : Prop :=
  ∃ t, (s.cond q).phase t = .unlocked ∨ (s.cond q).phase t = .suspended

/-- There is a token for one of them, or one that has been woken. -/
def State.Coming (s : State T) (q : Queue) : Prop :=
  0 < (s.cond q).value ∨ ∃ t, (s.cond q).phase t = .back .eok ∨ called q (s.base.pc t) = true

instance [Fintype T] (s : State T) (q : Queue) : Decidable (s.Waiters q) :=
  inferInstanceAs (Decidable (∃ _, _))

instance [Fintype T] (s : State T) (q : Queue) : Decidable (s.Coming q) :=
  inferInstanceAs (Decidable (_ ∨ ∃ _, _))

/-- pthread_rwlock_destroy finds no holder and nobody waiting; and a writer whose wait has failed
does not leave the lock free, as the last of the writers, with readers waiting and none woken. -/
def Guard (s : State T) : Action T → Prop
  | .body t =>
    (s.base.pc t = .inside .destroy → s.base.lock = ⟨0, 0, 0⟩) ∧
      (givesUp (s.base.pc t) = true → s.base.lock.refcount = 0 → s.base.lock.nwaitwriters = 1 →
        s.Waiters .readers → s.Coming .readers)
  | _ => True

instance [Fintype T] (s : State T) : (a : Action T) → Decidable (Guard s a)
  | .body _ => inferInstanceAs (Decidable ((_ → _) ∧ (_ → _ → _ → _ → _)))
  | .call _ _ | .lock _ | .take _ _ | .expire _ | .unlock _ => isTrue trivial

/-- Whoever can have the lock is on the way to it. -/
structure Alive (s : State T) : Prop where
  writers : s.base.lock.refcount = 0 → s.Waiters .writers → s.Coming .writers
  readers : s.base.lock.refcount = 0 → s.base.lock.nwaitwriters = 0 → s.Waiters .readers → s.Coming .readers
  owner : ∀ t, s.base.owner = some t → (s.base.pc t).runs = true

section
variable [Fintype T] {s s' : State T} {t u : T} {c : Call} {l m : Lock} {next : Next} {q : Queue}
  {a : Action T} {es tr : List (Event T)} {result : Errno} {wake : Wake} {k : Cond T}

omit [Fintype T] [DecidableEq T] in
theorem Alive.mono (alive : Alive s) (lock : s'.base.lock = s.base.lock)
    (waiters : ∀ q, s'.Waiters q → s.Waiters q) (coming : ∀ q, s.Waiters q → s.Coming q → s'.Coming q)
    (owner : ∀ t, s'.base.owner = some t → (s'.base.pc t).runs = true) : Alive s' := by
  refine ⟨fun zero waits => ?_, fun zero nobody waits => ?_, owner⟩
  · rw [lock] at zero
    have before := waiters _ waits
    exact coming _ before (alive.writers zero before)
  · rw [lock] at zero nobody
    have before := waiters _ waits
    exact coming _ before (alive.readers zero nobody before)

omit [Fintype T] [DecidableEq T] in
/-- A step of one waiting thread up to its wake. -/
theorem Alive.put (alive : Alive s) (waits : (s.cond q).phase t = .unlocked ∨ (s.cond q).phase t = .suspended)
    (others : ∀ u, u ≠ t → k.phase u = (s.cond q).phase u)
    (token : k.value = (s.cond q).value ∨ k.phase t = .back .eok) : Alive (s.put q k) := by
  refine alive.mono rfl (fun q' waiting => ?_) (fun q' _ coming => ?_) alive.owner
  · by_cases hq : q' = q
    · subst hq
      exact ⟨t, waits⟩
    · simpa [State.Waiters, State.put, hq] using waiting
  · by_cases hq : q' = q
    · subst hq
      simp only [State.Coming, State.put, Function.update_self]
      rcases token with same | woken
      · rcases coming with positive | ⟨u, back | called⟩
        · exact Or.inl (same ▸ positive)
        · have hu : u ≠ t := fun h => by
            subst h
            rcases waits with waits | waits <;> simp [waits] at back
          exact Or.inr ⟨u, Or.inl (others u hu ▸ back)⟩
        · exact Or.inr ⟨u, Or.inr called⟩
      · exact Or.inr ⟨t, Or.inl woken⟩
    · simpa [State.Coming, State.put, hq] using coming

omit [Fintype T] in
theorem plain_frame {a : RwLock.Action T} {b b' : RwLock.State T} (quiet : ∀ t tokens, a ≠ .body t tokens)
    (awake : ∀ t result, a ≠ .wake t result)
    (taken : RwLock.step b a = some (b', es)) :
    b'.lock = b.lock ∧ (∀ u c, b'.pc u = .waiting c ↔ b.pc u = .waiting c) ∧
      ∀ q u, called q (b.pc u) = true → called q (b'.pc u) = true := by
  have lock : b'.lock = b.lock := by
    rcases step_frame taken with ⟨t, tokens, same⟩ | ⟨lock, _⟩
    · exact absurd same (quiet t tokens)
    · exact lock
  have move {t : T} {p : Pc} (pc : b'.pc = Function.update b.pc t p)
      (here : ∀ c, b.pc t ≠ .waiting c) (there : ∀ c, p ≠ .waiting c)
      (free : ∀ q, called q (b.pc t) = false) :
      (∀ u c, b'.pc u = .waiting c ↔ b.pc u = .waiting c) ∧
        ∀ q u, called q (b.pc u) = true → called q (b'.pc u) = true := by
    rw [pc]
    refine ⟨fun u c => ?_, fun q u back => ?_⟩
    · by_cases hu : u = t
      · subst hu
        simp [here c, there c]
      · rw [Function.update_of_ne hu]
    · have hu : u ≠ t := fun h => by simp [h, free q] at back
      rwa [Function.update_of_ne hu]
  refine ⟨lock, ?_⟩
  cases a with
  | body t tokens => exact absurd rfl (quiet t tokens)
  | wake t result => exact absurd rfl (awake t result)
  | call t c =>
    simp only [RwLock.step] at taken
    split at taken
    · rename_i idle
      obtain ⟨same, _⟩ := Prod.mk.inj (Option.some.inj taken)
      exact move (by rw [← same]; rfl) (by simp [idle]) (by simp) (by simp [idle, called])
    · contradiction
  | lock t =>
    simp only [RwLock.step] at taken
    split at taken
    · contradiction
    · split at taken
      · rename_i c locking
        split at taken <;> obtain ⟨same, _⟩ := Prod.mk.inj (Option.some.inj taken)
        · exact move (by rw [← same]; rfl) (by simp [locking]) (by simp) (by simp [locking, called])
        · exact move (by rw [← same]; rfl) (by simp [locking]) (by simp) (by simp [locking, called])
      · rename_i c result relocking
        obtain ⟨same, _⟩ := Prod.mk.inj (Option.some.inj taken)
        exact move (by rw [← same]; rfl) (by simp [relocking]) (by simp) (by simp [relocking, called])
      · contradiction
  | unlock t =>
    simp only [RwLock.step] at taken
    split at taken
    · rename_i c result leaving
      obtain ⟨same, _⟩ := Prod.mk.inj (Option.some.inj taken)
      exact move (by rw [← same]; rfl) (by simp [leaving]) (by simp) (by simp [leaving, called])
    · contradiction

end

section
variable [Fintype T] {s s' : State T} {t u : T} {c : Call} {l m : Lock} {next : Next} {q : Queue}
  {a : Action T} {es tr : List (Event T)} {result : Errno} {wake : Wake} {k : Cond T} {b b' : RwLock.State T}

omit [Fintype T] in
theorem step_owner {a : RwLock.Action T} (owned : ∀ t, b.owner = some t → (b.pc t).runs = true)
    (quiet : ∀ t tokens, a ≠ .body t tokens) (taken : RwLock.step b a = some (b', es)) :
    (∀ t, b'.owner = some t → (b'.pc t).runs = true) ∧ ∀ e ∈ es, e.holding = false := by
  have move {t : T} {p : Pc} (outside : (b.pc t).runs = false) (u : T) (mine : b.owner = some u) :
      (Function.update b.pc t p u).runs = true := by
    have runs := owned u mine
    have hu : u ≠ t := fun h => by simp [h, outside] at runs
    rwa [Function.update_of_ne hu]
  have own {t : T} {p : Pc} (inside : p.runs = true) (u : T) (mine : some t = some u) :
      (Function.update b.pc t p u).runs = true := by
    cases mine
    rwa [Function.update_self]
  cases a with
  | body t tokens => exact absurd rfl (quiet t tokens)
  | wake t result =>
    simp only [RwLock.step] at taken
    split at taken <;> cases taken
    rename_i c waiting
    exact ⟨move (by simp [waiting, Pc.runs]), by simp⟩
  | call t c =>
    simp only [RwLock.step] at taken
    split at taken <;> cases taken
    rename_i idle
    exact ⟨move (by simp [idle, Pc.runs]), by simp⟩
  | lock t =>
    simp only [RwLock.step] at taken
    split at taken
    · contradiction
    · rename_i mine
      split at taken
      · rename_i c locking
        split at taken <;> cases taken
        · exact ⟨own rfl, by simp⟩
        · rename_i taken
          have self : b.owner = some t := by simpa [taken] using mine
          simpa [locking, Pc.runs] using owned t self
      · cases taken
        exact ⟨own rfl, by simp⟩
      · contradiction
  | unlock t =>
    simp only [RwLock.step] at taken
    split at taken <;> cases taken
    rename_i c result leaving
    by_cases mine : b.owner = some t
    · simp [mine, Event.holding]
    · refine ⟨fun u other => ?_, by simp [mine, Event.holding]⟩
      simp only [mine, if_false] at other
      have hu : u ≠ t := fun h => mine (h ▸ other)
      show (Function.update b.pc t .idle u).runs = true
      rw [Function.update_of_ne hu]
      exact owned u other

omit [Fintype T] in
theorem relock_some (waiting : b.pc t = .waiting c)
    (done : RwLock.machine.exec b [.wake t result, .lock t] = some (b', es)) :
    b'.lock = b.lock ∧ b'.pc = Function.update b.pc t (.back c result) ∧ b'.owner = some t ∧ es = [] := by
  obtain ⟨first, woken, rest⟩ := Option.bind_eq_some_iff.mp done
  obtain ⟨last, tail, same⟩ := Option.map_eq_some_iff.mp rest
  obtain ⟨second, locked, rest⟩ := Option.bind_eq_some_iff.mp tail
  obtain ⟨final, tail, same'⟩ := Option.map_eq_some_iff.mp rest
  cases Option.some.inj tail
  simp only [RwLock.machine, RwLock.step, waiting] at woken locked
  cases Option.some.inj woken
  simp only [goto_pc, Function.update_self] at locked
  split at locked
  · contradiction
  · cases Option.some.inj locked
    cases same'
    cases same
    refine ⟨rfl, ?_, rfl, rfl⟩
    simp

omit [Fintype T] in
theorem release_coming (c : Cond T) :
    0 < c.release.value ∨ ∃ t, c.release.phase t = .back .eok := by
  simp only [Cond.release]
  split
  · rename_i w rest list
    exact Or.inr ⟨w, by simp⟩
  · split
    · exact Or.inl (Nat.succ_pos _)
    · rename_i full
      refine Or.inl ?_
      simp only [Semaphore.rtSemValueMax] at full
      omega

omit [Fintype T] in
theorem Turn.coming (turn : Turn s s' t c m l next es) (coming : s.Coming q)
    (away : called q (s.base.pc t) = false) (value : (s.cond q).value ≤ (s'.cond q).value)
    (phase : ∀ u, (s.cond q).phase u = .back .eok → (s'.cond q).phase u = .back .eok) : s'.Coming q := by
  rcases coming with positive | ⟨u, back | here⟩
  · exact Or.inl (Nat.lt_of_lt_of_le positive value)
  · exact Or.inr ⟨u, Or.inl (phase u back)⟩
  · refine Or.inr ⟨u, Or.inr ?_⟩
    have hu : u ≠ t := fun h => by simp [h, away] at here
    rw [turn.pc, Function.update_of_ne hu]
    exact here

omit [DecidableEq T] in
theorem Inv.nobody (inv : Inv s) (base : RwLock.Inv s.base) (zero : s.base.lock.count q = 0) :
    ¬s.Waiters q := by
  rintro ⟨u, waits⟩
  have out := inv.empty base q zero u
  rcases waits with waits | waits <;> simp [waits] at out

omit [DecidableEq T] in
theorem Inv.positive (inv : Inv s) (base : RwLock.Inv s.base) (waits : s.Waiters q) :
    0 < s.base.lock.count q := by
  have count := base.count q
  have some_one : s.base.lock.count q ≠ 0 := fun zero => inv.nobody base zero waits
  omega

omit [Fintype T] in
theorem Turn.owned (turn : Turn s s' t c m l next es) (alive : Alive s)
    (leaves : ∀ result, next ≠ .keep result) :
    (∀ u, s'.base.owner = some u → (s'.base.pc u).runs = true) ∧ es = [] := by
  obtain ⟨mid, touched, same⟩ := Option.map_eq_some_iff.mp turn.done
  have events := congrArg Prod.snd same
  rw [turn.owner, turn.pc]
  cases next with
  | keep result => exact absurd rfl (leaves result)
  | wait q => exact ⟨by simp [Next.owner], events.symm⟩
  | leave result wake =>
    refine ⟨fun u mine => ?_, events.symm⟩
    by_cases hu : u = t
    · subst hu
      rw [Function.update_self]
      rfl
    · rw [Function.update_of_ne hu]
      exact alive.owner u mine

theorem on_cases (q : Queue) (p : Pc) : p.on q = 0 ∨ p.on q = 1 := by
  simp only [Pc.on]
  split
  · exact Or.inr rfl
  · exact Or.inl rfl

omit [Fintype T] in
/-- pthread_rwlock_destroy that finds the lock in use is refused by the guard. -/
theorem Turn.not_keep (turn : Turn s s' t c m l next es) (guard : Guard s (.body t)) :
    ∀ result, next ≠ .keep result := by
  rintro result rfl
  have refcount := turn.refcount
  have writers := turn.apart .writers
  have readers := turn.apart .readers
  cases turn.does with
  | keep destroys busy =>
    obtain ⟨inside, _⟩ := turn.destroys destroys
    have zero := guard.1 inside
    simp only [inside, Pc.on, Pc.wait, zero, Lock.count] at readers writers
    rw [zero] at refcount
    refine busy ?_
    ext
    · exact refcount
    · simpa using readers.symm
    · simpa using writers.symm

theorem Turn.alive_wait (turn : Turn s s' t c m (m.join q) (.wait q) es) (waits : c.queue = some q)
    (taken : m.Taken q) (alive : Alive s) (owner : ∀ u, s'.base.owner = some u → (s'.base.pc u).runs = true) :
    Alive s' := by
  have refcount := turn.refcount
  have lock := turn.lock
  have conds := turn.conds (Or.inl fun destroys => by subst destroys; cases waits)
  simp only at conds
  have same (other : q ≠ .writers) : s'.cond .writers = s.cond .writers := by
    rw [conds, Function.update_of_ne (Ne.symm other)]
  refine ⟨fun zero waiting => ?_, fun zero nobody waiting => ?_, owner⟩
  all_goals
    rw [lock, join_refcount] at zero
    cases q
  · have cond : s'.cond .writers = s.cond .writers := same (by simp)
    have before : s.Waiters .writers := by simpa only [State.Waiters, cond] using waiting
    refine turn.coming (alive.writers (by omega) before) ?_ (by rw [cond]) (by simp [cond])
    by_contra here
    have queue := (turn.woken .writers (by simpa using here)).1
    simp [waits] at queue
  · exact absurd zero taken
  · simp only [lock, Lock.join] at nobody
    simp only [Lock.Taken] at taken
    omega
  · exact absurd zero taken

theorem Turn.alive_free (turn : Turn s s' t c m l next es) (inv : Inv s) (base : RwLock.Inv s.base)
    (free : ∀ q, l.count q = 0) (owner : ∀ u, s'.base.owner = some u → (s'.base.pc u).runs = true) :
    Alive s' := by
  have still (q : Queue) : ¬s'.Waiters q := by
    refine (turn.inv inv base).nobody (turn.count base) ?_
    rw [turn.lock]
    exact free q
  exact ⟨fun _ waits => absurd waits (still _), fun _ _ waits => absurd waits (still _), owner⟩

theorem Turn.alive_fail (turn : Turn s s' t c m m (.leave result .nobody) es) (failed : result ≠ .ok)
    (inv : Inv s) (base : RwLock.Inv s.base) (alive : Alive s) (guard : Guard s (.body t))
    (owner : ∀ u, s'.base.owner = some u → (s'.base.pc u).runs = true) : Alive s' := by
  have refcount := turn.refcount
  have count := turn.apart .writers
  have lock := turn.lock
  by_cases destroys : c = .destroy
  · have zero := (turn.destroys destroys).2 _ _ rfl
    have here := (turn.destroys destroys).1
    apply turn.alive_free inv base _ owner
    intro q
    have apart := turn.apart q
    cases q <;> simpa [zero, here, Pc.on, Pc.wait, Lock.count] using apart.symm
  · have conds := turn.conds (Or.inl destroys)
    simp only at conds
    have away (q : Queue) : called q (s.base.pc t) = false := by
      by_contra here
      exact failed ((turn.woken q (by simpa using here)).2 _ _ rfl)
    refine ⟨fun zero waiting => ?_, fun zero nobody waiting => ?_, owner⟩
    all_goals
      rw [lock] at zero
    · have before : s.Waiters .writers := by simpa only [State.Waiters, conds] using waiting
      exact turn.coming (alive.writers (by omega) before) (away _) (by rw [conds]) (by simp [conds])
    · have before : s.Waiters .readers := by simpa only [State.Waiters, conds] using waiting
      rw [lock] at nobody
      refine turn.coming ?_ (away _) (by rw [conds]) (by simp [conds])
      simp only [Lock.count, nobody] at count
      rcases on_cases .writers (s.base.pc t) with off | on
      · rw [off] at count
        exact alive.readers (by omega) (by omega) before
      · rw [on] at count
        exact guard.2 (turn.gives _ _ rfl failed on) (by omega) (by omega) before

theorem Turn.alive_release
    (turn : Turn s s' t .unlock m { m with refcount := released m.refcount } (.leave .ok wake) es)
    (wakes : (unlock m).2 = .leave .ok wake) (inv : Inv s) (base : RwLock.Inv s.base)
    (owner : ∀ u, s'.base.owner = some u → (s'.base.pc u).runs = true) : Alive s' := by
  have lock := turn.lock
  have conds := turn.conds (Or.inl (by simp))
  have off (q : Queue) : (s.base.pc t).on q = 0 :=
    (on_cases q (s.base.pc t)).resolve_right fun on => by cases turn.place q on
  have writers := turn.apart .writers
  have readers := turn.apart .readers
  simp only [off, Lock.count] at readers writers
  have absent (cond : s'.cond .writers = s.cond .writers) (zero : m.nwaitwriters ≤ 0) :
      ¬s'.Waiters .writers := by
    intro waiting
    have before : s.Waiters .writers := by simpa only [State.Waiters, cond] using waiting
    have positive := inv.positive base before
    simp only [Lock.count] at positive
    omega
  simp only [unlock] at wakes
  split at wakes
  · split at wakes
    · cases wakes
      simp only at conds
      refine ⟨fun _ _ => ?_, fun _ nobody => ?_, owner⟩
      · simp only [State.Coming, conds, Function.update_self]
        exact (release_coming (s.cond .writers)).imp id (Exists.imp (fun _ => Or.inl))
      · simp only [lock] at nobody
        omega
    · rename_i held
      refine ⟨fun zero => ?_, fun zero => ?_, owner⟩ <;> exact absurd (by simpa only [lock] using zero) held
  · split at wakes
    · cases wakes
      obtain ⟨r, done, cond⟩ := conds
      rw [Cond.broadcast_eq (inv.cond .readers)] at done
      cases done
      refine ⟨fun _ waiting => absurd waiting (absent ?_ (by omega)), fun _ _ _ => Or.inl ?_, owner⟩
      · rw [cond, Function.update_of_ne (by simp)]
      · rw [cond, Function.update_self]
        exact Nat.lt_of_lt_of_le Nat.one_pos (Nat.le_max_left _ _)
    · cases wakes
      simp only at conds
      refine ⟨fun _ waiting => absurd waiting (absent (by rw [conds]) (by omega)),
        fun _ _ waiting => ?_, owner⟩
      have before : s.Waiters .readers := by simpa only [State.Waiters, conds] using waiting
      have positive := inv.positive base before
      simp only [Lock.count] at positive
      omega

theorem Turn.alive (turn : Turn s s' t c m l next es) (inv : Inv s) (base : RwLock.Inv s.base)
    (alive : Alive s) (guard : Guard s (.body t)) :
    Alive s' ∧ es = [] := by
  have leaves := turn.not_keep guard
  have refcount := turn.refcount
  have lock := turn.lock
  obtain ⟨owner, events⟩ := turn.owned alive leaves
  refine ⟨?_, events⟩
  cases turn.does with
  | wait waits taken => exact turn.alive_wait waits taken alive owner
  | fail failed => exact turn.alive_fail failed inv base alive guard owner
  | read reads free nobody =>
    refine ⟨fun zero => ?_, fun zero => ?_, owner⟩ <;> simp only [lock] at zero <;> omega
  | write writes free =>
    refine ⟨fun zero => ?_, fun zero => ?_, owner⟩ <;> simp [lock] at zero
  | clear destroys free =>
    apply turn.alive_free inv base _ owner
    intro q
    rw [free]
    cases q <;> rfl
  | keep => exact absurd rfl (leaves _)
  | release unlocks wakes =>
    subst unlocks
    exact turn.alive_release wakes inv base owner

end

section
variable [Fintype T] {s s' : State T} {t u : T} {a : Action T} {es tr : List (Event T)}

/-- All that is known of a state of a guarded run. -/
structure Sound (s : State T) : Prop where
  inv : Inv s
  alive : Alive s

omit [Fintype T] in
theorem Sound.plain {a : RwLock.Action T} (sound : Sound s) (quiet : ∀ t tokens, a ≠ .body t tokens)
    (awake : ∀ t result, a ≠ .wake t result) (taken : s.plain a = some (s', es)) :
    Sound s' ∧ ∀ e ∈ es, e.holding = false := by
  obtain ⟨b, done, same⟩ := Option.map_eq_some_iff.mp taken
  cases same
  obtain ⟨lock, waiting, called⟩ := plain_frame quiet awake done
  obtain ⟨owner, events⟩ := step_owner sound.alive.owner quiet done
  refine ⟨⟨⟨sound.inv.cond, fun q u => ?_⟩,
    sound.alive.mono lock (fun _ waits => waits) (fun q _ => ?_) owner⟩, events⟩
  · simp only [waiting u]
    exact sound.inv.inside q u
  · exact Or.imp id fun ⟨u, here⟩ => ⟨u, here.imp id (called q u)⟩

omit [Fintype T] in
theorem Sound.relock {c : Call} {q : Queue} {err : Err} (sound : Sound s) (waiting : s.base.pc t = .waiting c)
    (waits : c.queue = some q) (back : (s.cond q).phase t = .back err)
    (taken : s.relock t c q err = some (s', es)) : Sound s' ∧ ∀ e ∈ es, e.holding = false := by
  obtain ⟨b, done, same⟩ := Option.map_eq_some_iff.mp taken
  cases same
  obtain ⟨lock, pc, owner, events⟩ := relock_some waiting done
  have elsewhere (q' : Queue) (hq : q' ≠ q) : (s.cond q').phase t = .out := by
    by_contra within
    obtain ⟨c', waiting', waits'⟩ := (sound.inv.inside q' t).mp within
    rw [waiting] at waiting'
    cases waiting'
    rw [waits] at waits'
    exact hq (Option.some.inj waits').symm
  refine ⟨⟨⟨fun q' => ?_, fun q' u => ?_⟩, sound.alive.mono lock (fun q' => ?_) (fun q' _ => ?_) ?_⟩,
    by simp [events]⟩
  · by_cases hq : q' = q
    · subst hq
      simpa [State.put] using (sound.inv.cond q').set (t := t) (p := .out) (by simp [back]) (by simp)
    · simpa [State.put, hq] using sound.inv.cond q'
  · simp only [State.put, pc]
    by_cases hu : u = t
    · subst hu
      by_cases hq : q' = q
      · subst hq
        simp
      · simp [hq, elsewhere q' hq]
    · rw [Function.update_of_ne hu, ← sound.inv.inside q' u]
      by_cases hq : q' = q
      · subst hq
        simp [hu]
      · simp [hq]
  · rintro ⟨u, here⟩
    by_cases hq : q' = q
    · subst hq
      have hu : u ≠ t := fun h => by simp [State.put, h] at here
      exact ⟨u, by simpa [State.put, hu] using here⟩
    · exact ⟨u, by simpa [State.put, hq] using here⟩
  · rintro (positive | ⟨u, here⟩)
    · refine Or.inl ?_
      by_cases hq : q' = q
      · subst hq
        simpa [State.put] using positive
      · simpa [State.put, hq] using positive
    · refine Or.inr ⟨u, ?_⟩
      by_cases hu : u = t
      · subst hu
        rcases here with woken | here
        · by_cases hq : q' = q
          · subst hq
            obtain rfl : err = .eok := Phase.back.inj (back.symm.trans woken)
            exact Or.inr (by simp [State.put, pc, called, waits, errno])
          · simp [elsewhere q' hq] at woken
        · simp [waiting, called] at here
      · refine here.imp (fun woken => ?_) fun here => ?_
        · by_cases hq : q' = q
          · subst hq
            simpa [State.put, hu] using woken
          · simpa [State.put, hq] using woken
        · simpa [State.put, pc, hu] using here
  · intro u mine
    obtain rfl : t = u := Option.some.inj (owner.symm.trans mine)
    simp [State.put, pc, Pc.runs]

theorem step_sound (sound : Sound s) (base : RwLock.Inv s.base) (guard : Guard s a)
    (taken : step s a = some (s', es)) : Sound s' ∧ ∀ e ∈ es, e.holding = false := by
  cases a with
  | call t c => exact sound.plain (by simp) (by simp) taken
  | unlock t => exact sound.plain (by simp) (by simp) taken
  | lock t =>
    simp only [step] at taken
    split at taken
    · rename_i c waiting
      split at taken
      · contradiction
      · rename_i q waits
        split at taken
        · rename_i err back
          exact sound.relock waiting waits back taken
        · contradiction
    · exact sound.plain (by simp) (by simp) taken
  | body t =>
    obtain ⟨c, m, l, next, turn⟩ := body_turn base taken
    obtain ⟨alive, events⟩ := turn.alive sound.inv base sound.alive guard
    exact ⟨⟨turn.inv sound.inv base, alive⟩, by simp [events]⟩
  | take t ticks =>
    simp only [step] at taken
    split at taken
    · rename_i c waiting
      split at taken
      · contradiction
      · rename_i q waits
        split at taken
        · rename_i between
          cases taken
          obtain ⟨inside, others, token⟩ := take_phases (s.cond q) t (if timed c then ticks else -1)
          have taken := (sound.inv.cond q).take (t := t) (by simp [between]) (if timed c then ticks else -1)
          exact ⟨⟨sound.inv.put waiting waits taken inside others,
            sound.alive.put (Or.inl between) others token⟩, by simp⟩
        · contradiction
    · contradiction
  | expire t =>
    simp only [step] at taken
    split at taken
    · rename_i c waiting
      split at taken
      · contradiction
      · rename_i q waits
        split at taken
        · rename_i slept
          cases taken
          have others (u : T) (hu : u ≠ t) : ((s.cond q).expire t).phase u = (s.cond q).phase u := by
            simp [Cond.expire, hu]
          refine ⟨⟨sound.inv.put waiting waits ((sound.inv.cond q).expire t) (by simp [Cond.expire]) others,
            sound.alive.put (Or.inr slept.1) others (Or.inl rfl)⟩, by simp⟩
        · contradiction
    · contradiction

theorem run_sound (run : RunWhere (machine (T := T)) Guard tr s) :
    Sound s ∧ ∀ e ∈ tr, e.holding = false := by
  refine run.invariant (I := fun tr s => Sound s ∧ ∀ e ∈ tr, e.holding = false) (fun s start => ?_) ?_
  · cases start
    refine ⟨⟨⟨fun q => Cond.init_inv, fun q t => by simp [init, RwLock.init, Cond.init]⟩, ?_⟩, by simp⟩
    have nobody (q : Queue) : ¬(init (T := T)).Waiters q := by
      simp [State.Waiters, init, Cond.init]
    exact ⟨fun _ waits => absurd waits (nobody _), fun _ _ waits => absurd waits (nobody _),
      by simp [init, RwLock.init]⟩
  · rintro tr s a s' es before ⟨sound, old⟩ guard taken
    obtain ⟨_, base⟩ := run_base before
    obtain ⟨after, new⟩ := step_sound sound (run_inv base) guard taken
    refine ⟨after, fun e he => ?_⟩
    rcases List.mem_append.mp he with he | he
    · exact old e he
    · exact new e he

theorem Sound.served (sound : Sound s) (base : RwLock.Inv s.base)
    (bounded : Bounded s.base.lock.refcount s.base.holds) : ¬s.Stranded := by
  rintro ⟨empty, ⟨t, acquiring⟩, blocked⟩
  have zero : s.base.lock.refcount = 0 := by
    have none : ∑ t, (s.base.holds t).total = 0 := Finset.sum_eq_zero fun t _ => empty t
    simp only [Bounded, none] at bounded
    omega
  have resting (u : T) (busy : s.base.pc u ≠ .idle) : (s.base.pc u).runs = false := by
    have here := blocked u busy
    simp only [State.blocked] at here
    split at here
    · rename_i place
      simp [place, Pc.runs]
    · rename_i place
      simp [place, Pc.runs]
    · rename_i place
      simp [place, Pc.runs]
    · contradiction
  have free : s.base.owner = none := by
    by_contra taken
    obtain ⟨u, mine⟩ := Option.ne_none_iff_exists'.mp taken
    have runs := sound.alive.owner u mine
    have idle := resting u (fun idle => by simp [idle, Pc.runs] at runs)
    simp [idle] at runs
  have asleep (u : T) (busy : s.base.pc u ≠ .idle) :
      ∃ c q, s.base.pc u = .waiting c ∧ c.queue = some q ∧ (s.cond q).phase u = .suspended := by
    have here := blocked u busy
    simp only [State.blocked, State.mutexTaken, free] at here
    split at here
    · simp at here
    · simp at here
    · rename_i c waiting
      split at here
      · contradiction
      · rename_i q waits
        split at here
        · rename_i slept
          exact ⟨c, q, waiting, waits, slept⟩
        · simp at here
        · contradiction
    · contradiction
  have none_coming (q : Queue) (u : T) (slept : (s.cond q).phase u = .suspended) : ¬s.Coming q := by
    rintro (positive | ⟨w, back | here⟩)
    · have listed := ((sound.inv.cond q).listed u).mpr slept
      simp [(sound.inv.cond q).free positive] at listed
    · obtain ⟨c, waiting, waits⟩ := (sound.inv.inside q w).mp (by simp [back])
      obtain ⟨c', q', waiting', waits', slept'⟩ := asleep w (by simp [waiting])
      rw [waiting] at waiting'
      cases waiting'
      rw [waits] at waits'
      cases waits'
      simp [back] at slept'
    · have busy : s.base.pc w ≠ .idle := fun idle => by simp [idle, called] at here
      obtain ⟨c, q', waiting, _⟩ := asleep w busy
      simp [waiting, called] at here
  have busy : s.base.pc t ≠ .idle := fun idle => by simp [idle, acquires] at acquiring
  obtain ⟨c, q, waiting, waits, slept⟩ := asleep t busy
  by_cases writer : ∃ u, (s.cond .writers).phase u = .suspended
  · obtain ⟨u, slept⟩ := writer
    exact none_coming .writers u slept (sound.alive.writers zero ⟨u, Or.inr slept⟩)
  · have nobody : s.base.lock.nwaitwriters = 0 := by
      have count := base.count .writers
      have none : ∑ u, (s.base.pc u).on .writers = 0 := by
        refine Finset.sum_eq_zero fun u _ => ?_
        by_cases idle : s.base.pc u = .idle
        · simp [idle, Pc.on, Pc.wait]
        · obtain ⟨c', q', waiting', waits', slept'⟩ := asleep u idle
          have other : q' ≠ .writers := fun h => writer ⟨u, h ▸ slept'⟩
          simp [waiting', Pc.on, Pc.wait, waits', other]
      rw [none] at count
      exact count
    cases q with
    | writers => exact writer ⟨t, slept⟩
    | readers => exact none_coming .readers t slept (sound.alive.readers zero nobody ⟨t, Or.inr slept⟩)

/-- Where nobody destroys the lock in use and no writer that has timed out leaves sleeping readers
behind, every call gives the mutex back and nobody is left waiting for a free lock. -/
theorem lock_never_strands {T : Type} [DecidableEq T] [Fintype T] {tr : List (Event T)} {s : State T}
    (run : RunWhere machine Guard tr s) : ¬s.Stranded ∧ ∀ e ∈ tr, e.holding = false := by
  obtain ⟨sound, events⟩ := run_sound run
  obtain ⟨_, base⟩ := run_base run.run
  exact ⟨sound.served (run_inv base) (run_bounded base), events⟩

/-- A writer times out, and another one is still there when it gives up. -/
theorem lock_never_strands_timeout : ∃ s : State (Fin 3), s.base.lock = ⟨-1, 0, 0⟩ ∧
    s.base.pc = (fun _ => .idle) ∧ ¬s.Stranded := by
  obtain ⟨tr, s, run, found⟩ : ∃ tr s,
      Run ((machine (T := Fin 3)).restrict (fun s a => decide (Guard s a))) tr s ∧
        decide (s.base.lock = ⟨-1, 0, 0⟩ ∧ s.base.pc = (fun _ => .idle)) = true :=
    Run.reaches (s := init) rfl
      [.call 0 .wrlock, .lock 0, .body 0, .unlock 0, .call 1 .timedwrlock, .lock 1, .body 1, .take 1 5,
        .call 2 .wrlock, .lock 2, .body 2, .take 2 0, .expire 1, .call 0 .unlock, .lock 0, .body 0, .unlock 0,
        .lock 1, .body 1, .unlock 1, .lock 2, .body 2, .unlock 2] _ (by decide)
  have guarded := RunWhere.ofRestrict (fun _ _ _ _ => of_decide_eq_true) run
  obtain ⟨lock, idle⟩ := of_decide_eq_true found
  exact ⟨s, lock, idle, (lock_never_strands guarded).1⟩

/-- A destroy that finds the lock in use keeps the mutex; and a writer that has timed out leaves a
reader asleep at a free lock. -/
theorem lock_strands :
    (∃ tr s, Run (machine (T := Fin 3)) tr s ∧ s.base.owner = some 0 ∧ s.base.pc 0 = .idle) ∧
      ∃ tr s, Run (machine (T := Fin 3)) tr s ∧ s.Stranded := by
  refine ⟨?_, ?_⟩
  · obtain ⟨tr, s, run, found⟩ : ∃ tr s, Run (machine (T := Fin 3)) tr s ∧
        decide (s.base.owner = some 0 ∧ s.base.pc 0 = .idle) = true :=
      Run.reaches (s := init) rfl
        [.call 1 .rdlock, .lock 1, .body 1, .unlock 1, .call 0 .destroy, .lock 0, .body 0] _ (by decide)
    exact ⟨tr, s, run, of_decide_eq_true found⟩
  · obtain ⟨tr, s, run, found⟩ : ∃ tr s, Run (machine (T := Fin 3)) tr s ∧ decide s.Stranded = true :=
      Run.reaches (s := init) rfl
        [.call 0 .wrlock, .lock 0, .body 0, .unlock 0, .call 1 .timedwrlock, .lock 1, .body 1, .take 1 5,
          .call 2 .rdlock, .lock 2, .body 2, .take 2 0, .expire 1, .call 0 .unlock, .lock 0, .body 0, .unlock 0,
          .lock 1, .body 1, .unlock 1] _ (by decide)
    exact ⟨tr, s, run, of_decide_eq_true found⟩

end

end Strand

end RtThread.Pthread.RwLock
