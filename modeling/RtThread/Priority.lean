import RtThread.Mutex
import Mathlib.Logic.Relation

/-! Priorities under mutexes. A waiter raises the owner's priority once, when it
arrives, and the last release of any mutex sets the owner back to the value that
this mutex saved when it was acquired. `Effect` says what a step does to priorities,
owners and wait lists; both results about inheritance are read off it. -/
namespace RtThread.Mutex
open Kernel Transition

def prio (s : State) (t : Tid) : Nat := (s.kernel.thread t).currentPriority

def owns (s : State) (t : Tid) (m : Nat) : Prop := (s.mutex m).owner = some t

def waiters (s : State) (m : Nat) : List Tid := s.kernel.list (.wait m)

section Frames
variable {k k' : Kernel} {t u : Tid} {m q p : Nat}

theorem changePriority_priority (k : Kernel) (t u : Tid) (p : Nat) :
    ((k.rtThreadChangePriority t p).thread u).currentPriority =
      if u = t then p else (k.thread u).currentPriority := by
  unfold rtThreadChangePriority
  split <;> split <;> simp_all [setPriority]

theorem changePriority_waiters {W : Tid → Prop} (inv : WaitInv k m W) :
    (k.rtThreadChangePriority t p).list (.wait m) = k.list (.wait m) := by
  rw [changePriority_wait]
  split
  · rename_i ready
    exact WaitInv.filter_absent _ (inv.absent ready)
  · rfl

theorem donate_priority (k : Kernel) (t o u : Tid) :
    ((donate k t o).thread u).currentPriority =
      if u = o then min (k.thread t).currentPriority (k.thread o).currentPriority
      else (k.thread u).currentPriority := by
  unfold donate
  split
  · rename_i higher
    rw [changePriority_priority, Nat.min_eq_left (Nat.le_of_lt higher)]
  · rename_i notHigher
    rw [Nat.min_eq_right (Nat.le_of_not_lt notHigher)]
    split <;> simp_all

theorem donate_waiters {W : Tid → Prop} {o : Tid} (inv : WaitInv k m W) :
    (donate k t o).list (.wait m) = k.list (.wait m) := by
  unfold donate
  split
  · exact changePriority_waiters inv
  · rfl

theorem restore_priority (k : Kernel) (t u : Tid) (p : Nat) :
    ((restore k t p).thread u).currentPriority =
      if u = t then p else (k.thread u).currentPriority := by
  unfold restore
  split
  · exact changePriority_priority k t u p
  · rename_i same
    rw [not_not] at same
    split <;> simp_all

theorem restore_waiters {W : Tid → Prop} (inv : WaitInv k m W) :
    (restore k t p).list (.wait m) = k.list (.wait m) := by
  unfold restore
  split
  · exact changePriority_waiters inv
  · rfl

theorem startWaitTimer_priority {time : Int} (started : k.startWaitTimer t time = some k') :
    (k'.thread u).currentPriority = (k.thread u).currentPriority ∧ k'.list = k.list := by
  obtain ⟨timer, rfl⟩ := startWaitTimer_some started
  rw [modify_apply]
  split <;> simp_all

theorem ipcSuspend_priority (ready : (k.thread t).stat = .ready) (flag : IpcFlag) :
    ((k.rtIpcListSuspend (.wait m) t flag).thread u).currentPriority =
      (k.thread u).currentPriority := by
  cases decEq u t with
  | isTrue same => rw [same, ipcSuspend_self ready flag]; rfl
  | isFalse other => rw [ipcSuspend_other ready flag other]

theorem resume_priority (suspended : (k.thread t).stat = .suspend) :
    ((k.rtThreadResume t).1.thread u).currentPriority = (k.thread u).currentPriority := by
  cases decEq u t with
  | isTrue same => rw [same, resume_self suspended]; rfl
  | isFalse other => rw [resume_other suspended other]

end Frames

variable {tr : List Event} {s s' : State} {es : List Event}

/-- What a step does to priorities, owners and wait lists. -/
inductive Effect (s s' : State) : Action → Prop where
  | quiet {a : Action} : prio s' = prio s → (∀ t m, owns s' t m ↔ owns s t m) →
      (∀ m, List.Sublist (waiters s' m) (waiters s m)) →
      (∀ t m, a = .release t m → owns s t m → (s.mutex m).hold ≠ 1) →
      (∀ t m time o, a = .take t m time → owns s o m → o ≠ t → time = 0) → Effect s s' a
  | acquire {t : Tid} {m : Nat} {time : Int} : (s.mutex m).owner = none → waiters s m = [] →
      prio s' = prio s → (∀ u q, owns s' u q ↔ if q = m then u = t else owns s u q) →
      waiters s' = waiters s → Effect s s' (.take t m time)
  | block {t o : Tid} {m : Nat} {time : Int} : owns s o m → o ≠ t → time ≠ 0 →
      (∀ u, prio s' u = if u = o then min (prio s t) (prio s o) else prio s u) →
      s'.mutex = s.mutex →
      (∀ u q, u ∈ waiters s' q ↔ u ∈ waiters s q ∨ u = t ∧ q = m) → Effect s s' (.take t m time)
  | free {t : Tid} {m : Nat} : owns s t m → (s.mutex m).hold = 1 → waiters s m = [] →
      (∀ u, prio s' u = if u = t then (s.mutex m).originalPriority else prio s u) →
      (∀ u q, owns s' u q ↔ q ≠ m ∧ owns s u q) → waiters s' = waiters s →
      Effect s s' (.release t m)
  | hand {t w : Tid} {m : Nat} {rest : List Tid} : owns s t m → (s.mutex m).hold = 1 →
      waiters s m = w :: rest →
      (∀ u, prio s' u = if u = t then (s.mutex m).originalPriority else prio s u) →
      (∀ u q, owns s' u q ↔ if q = m then u = w else owns s u q) →
      (∀ q, waiters s' q = if q = m then rest else waiters s q) → Effect s s' (.release t m)

theorem running_not_waiting {t : Tid} {m : Nat} (inv : Inv tr s) (idle : s.waiting t = none) :
    t ∉ waiters s m := by
  intro here
  have waits := (((inv.wait m).listed t).mp here).1
  simp [idle] at waits

theorem waits_once {v : Tid} {m q : Nat} (inv : Inv tr s) (here : v ∈ waiters s m)
    (there : v ∈ waiters s q) : m = q := by
  have one := (((inv.wait m).listed v).mp here).1
  have two := (((inv.wait q).listed v).mp there).1
  exact Option.some.inj (one.symm.trans two)

theorem owner_not_waiting {t : Tid} {m : Nat} (inv : Inv tr s) (own : owns s t m) :
    t ∉ waiters s m := by
  intro here
  obtain ⟨waits, suspended⟩ := ((inv.wait m).listed t).mp here
  have granted := (inv.grant t m waits).mp own
  simp [suspended] at granted

theorem quiet_modify {t : Tid} {e : Err} :
    prio { s with kernel := s.kernel.modify t (fun th => { th with error := e }) } = prio s := by
  funext u
  simp only [prio, modify_apply]
  split <;> simp_all

theorem take_effect {t : Tid} {m : Nat} {time : Int} (inv : Inv tr s)
    (taken : rtMutexTake s t m time = some (s', es)) : Effect s s' (.take t m time) := by
  obtain ⟨idle, ready, outcome⟩ := take_cases inv taken
  obtain ⟨own, _, rfl, rfl⟩ | ⟨own, rfl, rfl⟩ | ⟨open_, rfl, rfl⟩ | ⟨poll, rfl, rfl⟩ |
    ⟨rfl, blocks, o, k', own, foreign, started, rfl⟩ := outcome
  · apply Effect.quiet
    · exact quiet_modify
    · intro u q
      simp only [owns, State.set, Function.update_apply]
      split <;> simp_all
    · exact fun q => List.Sublist.refl _
    · intro u q released; cases released
    · intro u q _ o same own' other
      cases same
      exact absurd (Option.some.inj (own'.symm.trans own)) other
  · apply Effect.quiet
    · exact quiet_modify
    · exact fun u q => Iff.rfl
    · exact fun q => List.Sublist.refl _
    · intro u q released; cases released
    · intro u q _ o same own' other
      cases same
      exact absurd (Option.some.inj (own'.symm.trans own)) other
  · apply Effect.acquire
    · exact open_.2.1
    · exact open_.2.2.2
    · exact quiet_modify
    · intro u q
      simp only [owns, State.set, Function.update_apply]
      split <;> simp [eq_comm]
    · rfl
  · apply Effect.quiet
    · exact quiet_modify.trans quiet_modify
    · exact fun u q => Iff.rfl
    · exact fun q => List.Sublist.refl _
    · intro u q released; cases released
    · intro u q _ o same _ _
      cases same
      exact poll
  · have cleared := inv.setError idle .eok
    have donated := donate_inv t o cleared
    let k := s.kernel.modify t (fun th => { th with error := .eok })
    have ready' : ((donate k t o).thread t).stat = .ready := by
      rw [(donate_frame k t o t).1]
      simpa [k] using ready
    have plain : ∀ u, (k.thread u).currentPriority = prio s u := congrFun quiet_modify
    apply Effect.block own foreign blocks
    · intro u
      have frame := (startWaitTimer_priority (u := u) started).1.trans (ipcSuspend_priority ready' _)
      rw [donate_priority, plain, plain, plain] at frame
      exact frame
    · rfl
    · intro u q
      simp only [waiters, (startWaitTimer_priority (u := u) started).2]
      have same : (donate k t o).list (.wait q) = s.kernel.list (.wait q) :=
        donate_waiters (cleared.wait q)
      cases decEq q m with
      | isTrue here =>
        subst here
        rw [ipcSuspend_mem ready', same]
        tauto
      | isFalse away =>
        rw [ipcSuspend_list_other ready' _ away, same, WaitInv.filter_absent]
        · simp [away]
        · exact running_not_waiting inv idle

theorem release_effect {t : Tid} {m : Nat} (inv : Inv tr s)
    (taken : rtMutexRelease s t m = some (s', es)) : Effect s s' (.release t m) := by
  obtain ⟨idle, outcome⟩ := release_cases inv taken
  have lists : ∀ q, (restore s.kernel t (s.mutex m).originalPriority).list (.wait q) =
      waiters s q := fun q => restore_waiters (inv.wait q)
  obtain ⟨foreign, _, rfl⟩ | ⟨own, more, _, rfl⟩ | ⟨own, last, w, rest, list, _, rfl⟩ |
    ⟨own, last, empty, _, rfl⟩ := outcome
  · apply Effect.quiet
    · exact quiet_modify
    · exact fun u q => Iff.rfl
    · exact fun q => List.Sublist.refl _
    · intro u q same own
      cases same
      exact absurd own foreign
    · intro u q _ _ same; cases same
  · apply Effect.quiet
    · rfl
    · intro u q
      simp only [owns, State.set, Function.update_apply]
      split <;> simp_all
    · exact fun q => List.Sublist.refl _
    · intro u q same _
      cases same
      omega
    · intro u q _ _ same; cases same
  · rw [lists] at list
    have suspended : ((restore s.kernel t (s.mutex m).originalPriority).thread w).stat = .suspend :=
      ((restore_inv inv t (s.mutex m).originalPriority).wait m).suspended w (by
        simp [lists, list])
    apply Effect.hand own last list
    · intro u
      simp only [prio, resume_priority suspended, restore_priority]
    · intro u q
      simp only [owns, State.set, Function.update_apply]
      split <;> simp [eq_comm]
    · intro q
      have nodup : (w :: rest).Nodup := list ▸ (inv.wait m).nodup
      simp only [waiters, resume_wait suspended]
      rw [lists]
      split
      · rename_i here
        subst here
        rw [list, List.filter_cons_of_neg (by simp)]
        exact WaitInv.filter_absent _ (List.nodup_cons.mp nodup).1
      · rename_i away
        refine WaitInv.filter_absent _ (fun here => away ?_)
        exact waits_once inv here (by simp [list])
  · apply Effect.free own last
    · rw [← lists, empty]
    · intro u
      simp only [prio, restore_priority]
    · intro u q
      simp only [owns, State.set, Function.update_apply]
      split <;> simp_all
    · exact funext lists

theorem timeout_effect {t : Tid} {k : Kernel} (expired : s.kernel.timerExpire t = some k) :
    prio { s with kernel := k } = prio s ∧
      ∀ m, List.Sublist (waiters { s with kernel := k } m) (waiters s m) := by
  obtain ⟨_, _, self, others, lists, _⟩ := timerExpire_some expired
  constructor
  · funext u
    cases decEq u t with
    | isTrue same => simp [prio, same, self, Thread.awake]
    | isFalse other => simp [prio, others u other]
  · intro m
    simp [waiters, lists]

theorem step_effect {a : Action} (inv : Inv tr s) (taken : step s a = some (s', es)) :
    Effect s s' a := by
  cases a with
  | take t m time => exact take_effect inv taken
  | release t m => exact release_effect inv taken
  | wake t =>
    obtain ⟨_, _, _, rfl, _⟩ := return_cases taken
    apply Effect.quiet
    · rfl
    · exact fun u q => Iff.rfl
    · exact fun q => List.Sublist.refl _
    · intro u q same; cases same
    · intro u q _ _ same; cases same
  | timeout t =>
    obtain ⟨k, expired, result⟩ := Option.map_eq_some_iff.mp taken
    cases result
    obtain ⟨priorities, lists⟩ := timeout_effect expired
    apply Effect.quiet priorities (fun _ _ => Iff.rfl) lists
    · intro u q same; cases same
    · intro u q _ _ same; cases same

/-- The machine whose threads have the priorities `base` at the start. -/
def machineFrom (base : Tid → Nat) : Machine State Action Event where
  start s := Start s ∧ prio s = base
  step := step

theorem machineFrom_inv {base : Tid → Nat} (run : Run (machineFrom base) tr s) : Inv tr s :=
  run.invariant (fun s (start : Start s ∧ prio s = base) => start_inv start.1)
    (fun _ _ _ _ _ inv taken => step_inv inv taken)

/-- A thread that owns no mutex has its own priority. -/
def Restored (base : Tid → Nat) (s : State) : Prop :=
  ∀ t, (∀ m, ¬ owns s t m) → prio s t = base t

/-- The mutex that a thread gives up as its last one was acquired while the thread
had its own priority. -/
def UnraisedLast (base : Tid → Nat) (s : State) : Action → Prop
  | .release t m => owns s t m → (s.mutex m).hold = 1 → (∀ q, owns s t q → q = m) →
      (s.mutex m).originalPriority = base t
  | _ => True

/-- No mutex has an owner of lower priority than one of its waiters. -/
def Inherits (s : State) : Prop :=
  ∀ m o v, owns s o m → v ∈ waiters s m → prio s o ≤ prio s v

/-- A boost does not reach a thread that itself waits for a less urgent owner; a last
release puts the owner above no waiter of another mutex it owns, and hands over to a
waiter that no other waiter is above. -/
def KeepsAbove (s : State) : Action → Prop
  | .take t m time => time ≠ 0 → ∀ o, owns s o m → o ≠ t → prio s t < prio s o →
      ∀ q u, o ∈ waiters s q → owns s u q → prio s u ≤ prio s t
  | .release t m => owns s t m → (s.mutex m).hold = 1 →
      (∀ q v, q ≠ m → owns s t q → v ∈ waiters s q → (s.mutex m).originalPriority ≤ prio s v) ∧
      (∀ w rest, waiters s m = w :: rest → ∀ v ∈ rest, prio s w ≤ prio s v)
  | _ => True

theorem owner_unique {t u : Tid} {m : Nat} (one : owns s t m) (two : owns s u m) : t = u :=
  Option.some.inj (one.symm.trans two)

theorem restored_release {base : Tid → Nat} {t : Tid} {m : Nat} (before : Restored base s) (own : owns s t m)
    (last : (s.mutex m).hold = 1)
    (priority : ∀ u, prio s' u = if u = t then (s.mutex m).originalPriority else prio s u)
    (mine : ∀ q, owns s' t q ↔ q ≠ m ∧ owns s t q) (theirs : ∀ u q, u ≠ t → owns s u q → owns s' u q) :
    Restored base s' ↔ UnraisedLast base s (.release t m) := by
  constructor
  · intro after _ _ only
    have none : ∀ q, ¬ owns s' t q := by
      intro q own'
      obtain ⟨away, old⟩ := (mine q).mp own'
      exact away (only q old)
    simpa [priority] using after t none
  · intro unraised u none
    rw [priority]
    split
    · rename_i same
      subst same
      apply unraised own last
      intro q old
      by_contra away
      exact none q ((mine q).mpr ⟨away, old⟩)
    · rename_i other
      apply before u
      exact fun q old => none q (theirs u q other old)

theorem restored_step {base : Tid → Nat} {a : Action} (inv : Inv tr s) (before : Restored base s)
    (taken : step s a = some (s', es)) : Restored base s' ↔ UnraisedLast base s a := by
  cases step_effect inv taken with
  | quiet same owners _ notLast _ =>
    constructor
    · intro _
      cases a with
      | release t m => exact fun own last _ => absurd last (notLast t m rfl own)
      | _ => trivial
    · intro _ t none
      rw [same]
      exact before t (fun m own => none m ((owners t m).mpr own))
  | acquire unowned _ same owners _ =>
    refine iff_of_true (fun u none => ?_) trivial
    rw [same]
    apply before u
    intro q own
    have later := none q
    rw [owners] at later
    split at later
    · rename_i here
      subst here
      simp [owns, unowned] at own
    · exact later own
  | block own _ _ priority mutex _ =>
    refine iff_of_true (fun u none => ?_) trivial
    have none' : ∀ q, ¬ owns s u q := by simpa [owns, mutex] using none
    rw [priority, if_neg]
    · exact before u none'
    · rintro rfl
      exact none' _ own
  | @free t m own last _ priority owners _ =>
    apply restored_release before own last priority (owners t)
    intro u q other old
    apply (owners u q).mpr
    constructor
    · rintro rfl
      exact other (owner_unique old own)
    · exact old
  | @hand t w m rest own last list priority owners _ =>
    have notSelf : t ≠ w := by
      rintro rfl
      exact owner_not_waiting inv own (by simp [list])
    apply restored_release before own last priority
    · intro q
      rw [owners]
      split
      · rename_i here
        exact iff_of_false notSelf (fun both => both.1 here)
      · rename_i away
        exact (and_iff_right away).symm
    · intro u q other old
      rw [owners]
      split
      · rename_i here
        subst here
        exact absurd (owner_unique old own) other
      · exact old

theorem inherits_block {t o : Tid} {m : Nat} (inv : Inv tr s) (before : Inherits s)
    (own : owns s o m) (foreign : o ≠ t)
    (priority : ∀ u, prio s' u = if u = o then min (prio s t) (prio s o) else prio s u)
    (mutex : s'.mutex = s.mutex) (listed : ∀ u q, u ∈ waiters s' q ↔ u ∈ waiters s q ∨ u = t ∧ q = m) :
    Inherits s' ↔ (prio s t < prio s o →
      ∀ q u, o ∈ waiters s q → owns s u q → prio s u ≤ prio s t) := by
  have owners : ∀ u q, owns s' u q ↔ owns s u q := by simp [owns, mutex]
  constructor
  · intro after higher q u waits ownU
    have other : u ≠ o := by
      rintro rfl
      exact owner_not_waiting inv ownU waits
    have kept := after q u o ((owners u q).mpr ownU) ((listed o q).mpr (Or.inl waits))
    rw [priority, priority, if_neg other, if_pos rfl] at kept
    exact Nat.le_trans kept (Nat.min_le_left _ _)
  · intro reach q u v ownU' here
    have ownU := (owners u q).mp ownU'
    rw [priority u, priority v]
    rcases (listed v q).mp here with waits | ⟨rfl, rfl⟩
    · have old := before q u v ownU waits
      split
      · rename_i boosted
        subst boosted
        have other : v ≠ u := by
          rintro rfl
          exact owner_not_waiting inv ownU waits
        rw [if_neg other]
        exact Nat.le_trans (Nat.min_le_right _ _) old
      · split
        · rename_i boosted
          subst boosted
          rcases Nat.lt_or_ge (prio s t) (prio s v) with higher | notHigher
          · exact Nat.le_min.mpr ⟨reach higher q u waits ownU, old⟩
          · rwa [Nat.min_eq_right notHigher]
        · exact old
    · rw [if_pos (owner_unique ownU own), if_neg foreign.symm]
      exact Nat.min_le_left _ _

theorem inherits_free {t : Tid} {m : Nat} (before : Inherits s) (idle : ∀ q, t ∉ waiters s q) (own : owns s t m)
    (last : (s.mutex m).hold = 1) (empty : waiters s m = [])
    (priority : ∀ u, prio s' u = if u = t then (s.mutex m).originalPriority else prio s u)
    (owners : ∀ u q, owns s' u q ↔ q ≠ m ∧ owns s u q) (lists : waiters s' = waiters s) :
    Inherits s' ↔ KeepsAbove s (.release t m) := by
  constructor
  · intro after _ _
    constructor
    · intro q v away old waits
      have kept := after q t v ((owners t q).mpr ⟨away, old⟩) (by rwa [lists])
      have other : v ≠ t := by
        rintro rfl
        exact idle q waits
      rwa [priority, priority, if_pos rfl, if_neg other] at kept
    · intro w rest list
      rw [empty] at list
      cases list
  · intro above q o v own' here
    obtain ⟨away, old⟩ := (owners o q).mp own'
    rw [lists] at here
    have other : v ≠ t := by
      rintro rfl
      exact idle q here
    rw [priority o, priority v, if_neg other]
    split
    · rename_i same
      subst same
      exact (above own last).1 q v away old here
    · exact before q o v old here

theorem inherits_hand {t w : Tid} {m : Nat} {rest : List Tid} (before : Inherits s) (idle : ∀ q, t ∉ waiters s q)
    (own : owns s t m) (last : (s.mutex m).hold = 1) (list : waiters s m = w :: rest)
    (priority : ∀ u, prio s' u = if u = t then (s.mutex m).originalPriority else prio s u)
    (owners : ∀ u q, owns s' u q ↔ if q = m then u = w else owns s u q)
    (lists : ∀ q, waiters s' q = if q = m then rest else waiters s q) :
    Inherits s' ↔ KeepsAbove s (.release t m) := by
  have first : w ∈ waiters s m := by simp [list]
  have notSelf : w ≠ t := by
    rintro rfl
    exact idle m first
  constructor
  · intro after _ _
    constructor
    · intro q v away old waits
      have kept := after q t v ((owners t q).mpr (by simpa [away] using old))
        (by simpa [lists, away] using waits)
      have other : v ≠ t := by
        rintro rfl
        exact idle q waits
      rwa [priority, priority, if_pos rfl, if_neg other] at kept
    · intro w' rest' list' v here
      cases list.symm.trans list'
      have kept := after m w v ((owners w m).mpr (by simp)) (by simpa [lists] using here)
      have other : v ≠ t := by
        rintro rfl
        exact idle m (by simp [list, here])
      rwa [priority, priority, if_neg notSelf, if_neg other] at kept
  · intro above q o v own' here
    have shrunk : v ∈ waiters s q := by
      rw [lists] at here
      split at here
      · rename_i isM
        simp [isM, list, here]
      · exact here
    have other : v ≠ t := by
      rintro rfl
      exact idle q shrunk
    rw [owners] at own'
    rw [priority o, priority v, if_neg other]
    split at own'
    · rename_i isM
      subst isM
      subst own'
      rw [if_neg notSelf]
      exact (above own last).2 o rest list v (by simpa [lists] using here)
    · rename_i away
      split
      · rename_i same
        subst same
        exact (above own last).1 q v away own' shrunk
      · exact before q o v own' shrunk

theorem inherits_step {a : Action} (inv : Inv tr s) (before : Inherits s)
    (taken : step s a = some (s', es)) : Inherits s' ↔ KeepsAbove s a := by
  cases step_effect inv taken with
  | quiet same owners lists notLast notBlocked =>
    constructor
    · intro _
      cases a with
      | release t m => exact fun own last => absurd last (notLast t m rfl own)
      | take t m time =>
        exact fun blocks o own other => absurd (notBlocked t m time o rfl own other) blocks
      | _ => trivial
    · intro _ m o v own here
      rw [same]
      exact before m o v ((owners o m).mp own) ((lists m).subset here)
  | @acquire t m time unowned empty same owners lists =>
    apply iff_of_true
    · intro q o v own here
      rw [lists] at here
      rw [owners] at own
      rw [same]
      split at own
      · rename_i isM
        subst isM
        simp [empty] at here
      · exact before q o v own here
    · intro _ o own
      simp [owns, unowned] at own
  | @block t o m time own foreign blocks priority mutex listed =>
    rw [inherits_block inv before own foreign priority mutex listed]
    constructor
    · intro reach _ u ownU _
      cases owner_unique own ownU
      exact reach
    · exact fun above => above blocks o own foreign
  | @free t m own last empty priority owners lists =>
    have idle : ∀ q, t ∉ waiters s q := fun q => running_not_waiting inv (release_cases inv taken).1
    exact inherits_free before idle own last empty priority owners lists
  | @hand t w m rest own last list priority owners lists =>
    have idle : ∀ q, t ∉ waiters s q := fun q => running_not_waiting inv (release_cases inv taken).1
    exact inherits_hand before idle own last list priority owners lists

/-- `v` waits for a mutex that `o` owns. -/
def WaitsFor (s : State) (v o : Tid) : Prop :=
  ∃ m, owns s o m ∧ v ∈ waiters s m

theorem inherits_chain (inherits : Inherits s) {v o : Tid} (chain : Relation.TransGen (WaitsFor s) v o) :
    prio s o ≤ prio s v := by
  induction chain with
  | single last =>
    obtain ⟨m, own, waits⟩ := last
    exact inherits m _ _ own waits
  | tail _ last ih =>
    obtain ⟨m, own, waits⟩ := last
    exact Nat.le_trans (inherits m _ _ own waits) ih

/-- Priorities are restored in `s`, and after a step exactly when it meets the guard. -/
structure Restores (base : Tid → Nat) (s : State) : Prop where
  restored : Restored base s
  next : ∀ a s' es, step s a = some (s', es) → (Restored base s' ↔ UnraisedLast base s a)

/-- No thread waits, directly or through other owners, for a thread of lower priority;
after a step this is so exactly when it meets the guard. -/
structure NoInversion (s : State) : Prop where
  chain : ∀ v o, Relation.TransGen (WaitsFor s) v o → prio s o ≤ prio s v
  next : ∀ a s' es, step s a = some (s', es) → (Inherits s' ↔ KeepsAbove s a)

/-- In every run in which the last mutex a thread gives up is always one acquired at
its own priority. -/
theorem priority_restored {base : Tid → Nat} {tr : List Event} {s : State}
    (run : RunWhere (machineFrom base) (UnraisedLast base) tr s) : Restores base s := by
  have restored : Restored base s := by
    apply run.invariant (I := fun _ => Restored base)
    · intro s start t _
      exact congrFun start.2 t
    · intro tr s a s' es run before allowed taken
      exact (restored_step (machineFrom_inv run) before taken).mpr allowed
  exact ⟨restored, fun a s' es taken => restored_step (machineFrom_inv run.run) restored taken⟩

theorem no_priority_inversion {tr : List Event} {s : State} (run : RunWhere machine KeepsAbove tr s) :
    NoInversion s := by
  have inherits : Inherits s := by
    apply run.invariant (I := fun _ => Inherits)
    · intro s start m o v _ waits
      have empty : waiters s m = [] := start.list m
      simp [empty] at waits
    · intro tr s a s' es run before allowed taken
      exact (inherits_step (run_inv run) before taken).mpr allowed
  exact ⟨fun v o => inherits_chain inherits,
    fun a s' es taken => inherits_step (run_inv run.run) inherits taken⟩

def Action.target : Action → Option Nat
  | .take _ m _ | .release _ m => some m
  | .wake _ | .timeout _ => none

/-- A mutex that no call names stays as it is. -/
theorem exec_untouched {base : Tid → Nat} {m : Nat} {as : List Action} {r : State × List Event} (inv : Inv tr s)
    (unnamed : ∀ a ∈ as, a.target ≠ some m) (done : (machineFrom base).exec s as = some r) :
    r.1.mutex m = s.mutex m := by
  induction as generalizing tr s r with
  | nil =>
    cases Option.some.inj done
    rfl
  | cons a rest ih =>
    obtain ⟨⟨mid, es⟩, taken, tail⟩ := Option.bind_eq_some_iff.mp done
    obtain ⟨q, last, rfl⟩ := Option.map_eq_some_iff.mp tail
    rw [ih (step_inv inv taken) (fun b here => unnamed b (by simp [here])) last]
    by_contra changed
    rcases changed_by inv taken changed with ⟨t, time, rfl, _⟩ | ⟨t, rfl, _⟩ <;>
      exact unnamed _ List.mem_cons_self rfl

/-- Threads 0, 1 and 2 of priority 20, 5 and 10, and any mutexes. -/
def threeThreads : State :=
  ⟨startedThreads (fun t => if t = 0 then 20 else 5 * t) 3, fun _ => rtMutexInit .prio, fun _ => none⟩

theorem threeThreads_start : Start threeThreads :=
  ⟨fun _ => ⟨.prio, rfl⟩, fun _ => rfl, fun _ => rfl⟩

theorem threeThreads_from : (machineFrom (prio threeThreads)).start threeThreads :=
  And.intro threeThreads_start rfl

/-- Thread 0 takes mutex 2 while it is boosted through mutex 1. -/
def crossed : List Action :=
  [.take 0 1 0, .take 1 1 (-1), .take 0 2 0, .release 0 1, .release 0 2]

/-- It then owns nothing and keeps the priority of the thread that boosted it. -/
theorem priority_not_restored :
    ∃ base tr s, Run (machineFrom base) tr s ∧ (∀ m, ¬ owns s 0 m) ∧ base 0 = 20 ∧ prio s 0 = 5 := by
  obtain ⟨r, done, found⟩ := (Option.any_eq_true _ _).mp (show ((machineFrom (prio threeThreads)).exec
    threeThreads crossed).any (fun r => decide ((r.1.mutex 1).owner = some 1) && decide ((r.1.mutex 2).owner = none) &&
    decide (prio r.1 0 = 5)) = true by decide)
  simp only [Bool.and_eq_true, decide_eq_true_eq] at found
  have run : Run (machineFrom (prio threeThreads)) ([] ++ r.2) r.1 :=
    Run.exec (.start threeThreads_from) (r := r) done
  refine ⟨_, _, r.1, run, ?_, by decide, found.2⟩
  intro m
  by_cases one : m = 1
  · simp [owns, one, found.1.1]
  by_cases two : m = 2
  · simp [owns, two, found.1.2]
  have same := exec_untouched (m := m) (start_inv threeThreads_start)
    (by simp [crossed, Action.target, Ne.symm one, Ne.symm two]) done
  simp [owns, same, threeThreads, rtMutexInit]

/-- Thread 0 is boosted through mutex 1 and gets its priority back with the release. -/
theorem priority_restored_handover :
    ∃ base s, Restores base s ∧ (s.mutex 1).owner = some 1 ∧ prio s 0 = 20 := by
  let check (s : State) : Action → Bool
    | .release t m => decide ((s.mutex m).originalPriority = prio threeThreads t)
    | _ => true
  obtain ⟨tr, s, run, found⟩ := Run.reaches (M := (machineFrom (prio threeThreads)).restrict check)
    threeThreads_from [.take 0 1 0, .take 1 1 (-1), .release 0 1]
    (fun s => decide ((s.mutex 1).owner = some 1) && decide (prio s 0 = 20)) (by decide)
  simp only [Bool.and_eq_true, decide_eq_true_eq] at found
  have guarded : RunWhere (machineFrom (prio threeThreads)) (UnraisedLast (prio threeThreads)) tr s := by
    apply RunWhere.ofRestrict _ run
    intro _ s a _ checked
    cases a with
    | release t m => exact fun _ _ _ => by simpa [check] using checked
    | _ => trivial
  exact ⟨_, s, priority_restored guarded, found⟩

/-- Thread 0 owns mutexes 1 and 2, thread 1 waits for mutex 1, and the release of mutex
2 takes back the boost. -/
theorem priority_inverted :
    ∃ tr s, Run machine tr s ∧ owns s 0 1 ∧ 1 ∈ waiters s 1 ∧ prio s 0 = 20 ∧ prio s 1 = 5 := by
  obtain ⟨tr, s, run, found⟩ := Run.reaches (M := machine) threeThreads_start
    [.take 0 1 0, .take 0 2 0, .take 1 1 (-1), .release 0 2]
    (fun s => decide ((s.mutex 1).owner = some 0) && decide (1 ∈ s.kernel.list (.wait 1)) &&
      decide (prio s 0 = 20) && decide (prio s 1 = 5)) (by decide)
  simp only [Bool.and_eq_true, decide_eq_true_eq] at found
  exact ⟨tr, s, run, found.1.1.1, found.1.1.2, found.1.2, found.2⟩

/-- Thread 0 nests mutex 1, two threads wait for it, and the inner release keeps the boost. -/
theorem no_priority_inversion_nested :
    ∃ s, NoInversion s ∧ s.kernel.list (.wait 1) = [1, 2] ∧ prio s 0 = 5 := by
  let check (s : State) : Action → Bool
    | .take _ m _ => ((s.mutex m).owner.bind s.waiting).isNone
    | .release _ m => decide ((s.mutex m).hold ≠ 1)
    | _ => true
  obtain ⟨tr, s, run, found⟩ := Run.reaches (M := machine.restrict check) threeThreads_start
    [.take 0 1 0, .take 0 1 0, .take 2 1 (-1), .take 1 1 (-1), .release 0 1]
    (fun s => decide (s.kernel.list (.wait 1) = [1, 2]) && decide (prio s 0 = 5)) (by decide)
  simp only [Bool.and_eq_true, decide_eq_true_eq] at found
  have guarded : RunWhere machine KeepsAbove tr s := by
    apply RunWhere.ofRestrict _ run
    intro _ s a before checked
    cases a with
    | take t m time =>
      intro _ o own _ _ q u waits _
      have idle : s.waiting o = none := by simpa [check, show (s.mutex m).owner = some o from own] using checked
      exact absurd waits (running_not_waiting (run_inv before) idle)
    | release t m => exact fun _ last => by simp [check, last] at checked
    | _ => trivial
  exact ⟨s, no_priority_inversion guarded, found⟩

end RtThread.Mutex
