import RtThread.Timer

/-! rt_timer_check at any tick, also at one that rt_tick_set has moved away from the last check.
The list need then not be in order, and a timer that is started may come before one that is
due. What does not depend on the order is proved from `Linked` alone. -/
namespace RtThread.Timer
open Transition

/-- The test of rt_timer_check. -/
def State.expired (s : State) (t : Nat) : Bool := s.rtTick - (s.timer t).timeoutTick < halfTickMax

def State.overdue (s : State) : List Nat := s.lastRow.filter s.expired

/-- The rows hang together, whatever the order of the timeouts. -/
structure Linked (s : State) : Prop where
  nonempty : s.rows ≠ []
  nested : Skip.Nested s.rows
  distinct : s.lastRow.Nodup
  active : ∀ t ∈ s.lastRow, (s.timer t).attached = true ∧ (s.timer t).activated = true
  valid : ∀ t, (s.timer t).attached = true → validTime (s.timer t).initTick = true
  pending : ∀ t ∈ s.pending, t ∉ s.lastRow ∧ (s.timer t).attached = true
  single : s.pending.Nodup

/-- No timer has become due. -/
structure Quiet (s s' : State) : Prop where
  tick : s'.rtTick = s.rtTick
  pending : s'.pending.Sublist s.pending
  overdue : s'.overdue.Sublist s.overdue

/-- The due timers come first, and none is so late that one started with `n` ticks or less is
taken for an earlier one. -/
structure InTime (n : Nat) (s : State) : Prop where
  first : s.lastRow.Pairwise (fun a b => s.expired b = true → s.expired a = true)
  late : ∀ t ∈ s.lastRow, s.expired t = true → (s.rtTick - (s.timer t).timeoutTick).toNat + n ≤ 0x80000001
  inits : ∀ t, (s.timer t).attached = true → (s.timer t).initTick.toNat ≤ n

/-- The call sets no init_tick above `n`. -/
def Call.fits (n : Nat) : Call → Prop
  | .init _ time _ | .setTime _ time => validTime time = true → time.toNat ≤ n
  | _ => True

/-- The call starts, stops or detaches `t`. -/
def Call.moves (t : Nat) : Call → Bool
  | .start u | .stop u | .detach u => u = t
  | _ => false

/-- A periodic timer in its timeout function. -/
structure Waiting (s : State) (t : Nat) : Prop where
  pending : t ∈ s.pending
  attached : (s.timer t).attached = true
  activated : (s.timer t).activated = true
  periodic : (s.timer t).periodic = true

/-- Back in the list for one more period from now. -/
def Rearmed (s : State) (t : Nat) : Prop :=
  t ∈ s.lastRow ∧ (s.timer t).timeoutTick = s.rtTick + (s.timer t).initTick

/-- The passes of rt_timer_check: each is for the first timer of the list and only if this is
due, and one that is periodic is armed again unless its timeout function moves it. -/
inductive Loop : State → List (List Call) → List Nat → State → Prop where
  | done {s : State} {script : List (List Call)} :
      (∀ t, s.lastRow.head? = some t → s.expired t = false) → Loop s script [] s
  | pass {s m s' : State} {script : List (List Call)} {fired : List Nat} {t : Nat} {es : List Event} :
      s.lastRow.head? = some t → s.expired t = true → expire s t (script.headD []) = some (m, es) →
      ((s.timer t).periodic = true → (∀ c ∈ script.headD [], c.moves t = false) → Rearmed m t) →
      Loop m script.tail fired s' → Loop s script (t :: fired) s'

variable {level n : Nat} {running : List Nat} {s s' : State} {t a b : Nat} {x k i : BitVec 32}

theorem Inv.linked (inv : Inv level running s) : Linked s := by
  obtain ⟨above, eq⟩ := State.lastRow_eq inv.nonempty
  have rows := inv.rows
  rw [eq] at rows
  refine ⟨inv.nonempty, ?_, inv.distinct, inv.active, inv.valid, inv.pending, inv.single⟩
  rw [eq]
  exact rows.nested inv.distinct

theorem fresh_not_expired (valid : validTime i = true) : ¬ k - (k + i) < halfTickMax := by
  rw [show k - (k + i) = -i from sub_add_cancel_left k i]
  simp only [validTime, Bool.and_eq_true, decide_eq_true_eq] at valid
  obtain ⟨low, high⟩ := valid
  simp only [halfTickMax] at *
  bv_omega

theorem late_passed (valid : validTime i = true) (late : (k - x).toNat + i.toNat ≤ 0x80000001) :
    ¬ x - (k + i) < halfTickMax := by
  simp only [validTime, Bool.and_eq_true, decide_eq_true_eq] at valid
  obtain ⟨low, high⟩ := valid
  simp only [halfTickMax] at *
  bv_omega

theorem Quiet.refl (s : State) : Quiet s s := ⟨rfl, List.Sublist.refl _, List.Sublist.refl _⟩

theorem Quiet.trans {m : State} (first : Quiet s m) (second : Quiet m s') : Quiet s s' :=
  ⟨second.tick.trans first.tick, second.pending.trans first.pending, second.overdue.trans first.overdue⟩

theorem expired_setTimer {timer : RtTimer} (kept : t ∈ s.lastRow → timer.timeoutTick = (s.timer t).timeoutTick)
    (here : a ∈ s.lastRow) : (s.setTimer t timer).expired a = s.expired a := by
  unfold State.expired State.setTimer
  by_cases self : a = t
  · subst self
    simp [kept here]
  · simp [self]

theorem setTimer_linked (linked : Linked s) (timer : RtTimer)
    (valid : timer.attached = true → validTime timer.initTick = true)
    (kept : t ∈ s.lastRow → timer.timeoutTick = (s.timer t).timeoutTick ∧ timer.attached = true ∧
      timer.activated = true)
    (waits : t ∈ s.pending → timer.attached = true) :
    Linked (s.setTimer t timer) ∧ Quiet s (s.setTimer t timer) ∧
      (InTime n s → (timer.attached = true → timer.initTick.toNat ≤ n) → InTime n (s.setTimer t timer)) := by
  have here : (s.setTimer t timer).timer t = timer := State.setTimer_self
  have same : ∀ a, a ≠ t → (s.setTimer t timer).timer a = s.timer a := fun _ => State.setTimer_other
  have due : ∀ a ∈ s.lastRow, (s.setTimer t timer).expired a = s.expired a :=
    fun a inside => expired_setTimer (fun h => (kept h).1) inside
  refine ⟨⟨linked.nonempty, linked.nested, linked.distinct, ?_, ?_, ?_, linked.single⟩,
    ⟨rfl, List.Sublist.refl _, ?_⟩, ?_⟩
  · intro a inside
    by_cases self : a = t
    · subst self
      rw [here]
      exact (kept inside).2
    · rw [same a self]
      exact linked.active a inside
  · intro a
    by_cases self : a = t
    · subst self
      rw [here]
      exact valid
    · rw [same a self]
      exact linked.valid a
  · intro a inside
    refine ⟨(linked.pending a inside).1, ?_⟩
    by_cases self : a = t
    · subst self
      rw [here]
      exact waits inside
    · rw [same a self]
      exact (linked.pending a inside).2
  · rw [State.overdue, State.overdue, show (s.setTimer t timer).lastRow = s.lastRow from rfl, List.filter_congr due]
  · intro inTime bounded
    refine ⟨?_, ?_, ?_⟩
    · refine inTime.first.imp_of_mem ?_
      intro a b first second implies
      rw [due a first, due b second]
      exact implies
    · intro a inside isDue
      rw [due a inside] at isDue
      have timeout : ((s.setTimer t timer).timer a).timeoutTick = (s.timer a).timeoutTick := by
        by_cases self : a = t
        · subst self
          rw [here, (kept inside).1]
        · rw [same a self]
      rw [timeout]
      exact inTime.late a inside isDue
    · intro a
      by_cases self : a = t
      · subst self
        rw [here]
        exact bounded
      · rw [same a self]
        exact inTime.inits a

theorem unlink_linked (linked : Linked s) : Linked (s.remove t) ∧ Quiet s (s.remove t) ∧
    (InTime n s → InTime n (s.remove t)) ∧ t ∉ (s.remove t).lastRow ∧ t ∉ (s.remove t).pending := by
  have row : (s.remove t).lastRow = s.lastRow.erase t := State.lastRow_remove
  have sub : (s.remove t).lastRow.Sublist s.lastRow := row ▸ List.erase_sublist
  refine ⟨⟨?_, Skip.nested_erase linked.nested t, row ▸ linked.distinct.erase t, ?_, linked.valid, ?_,
    linked.single.erase t⟩, ⟨rfl, List.erase_sublist, sub.filter _⟩, ?_, ?_, ?_⟩
  · simpa [State.remove] using linked.nonempty
  · intro a inside
    exact linked.active a (sub.subset inside)
  · intro a inside
    obtain ⟨off, attached⟩ := linked.pending a (List.mem_of_mem_erase inside)
    exact ⟨fun found => off (sub.subset found), attached⟩
  · intro inTime
    exact ⟨inTime.first.sublist sub, fun a inside => inTime.late a (sub.subset inside), inTime.inits⟩
  · rw [row]
    exact fun inside => (linked.distinct.mem_erase_iff.mp inside).1 rfl
  · exact fun inside => (linked.single.mem_erase_iff.mp inside).1 rfl

theorem link_row (some_row : s.rows ≠ []) (nested : Skip.Nested s.rows) (distinct : s.lastRow.Nodup)
    (off : t ∉ s.lastRow) : ∃ s' A B, s.link t = some s' ∧
    s.lastRow = A ++ B ∧ s'.lastRow = A ++ t :: B ∧ (∀ b, B.head? = some b → s.breaksAt t b = true) ∧
    Skip.Nested s'.rows ∧ s'.rows ≠ [] ∧ s'.rtTick = s.rtTick ∧ s'.pending = s.pending ∧
    s'.timer = Function.update s.timer t { s.timer t with activated := true } := by
  obtain ⟨above, eq⟩ := State.lastRow_eq some_row
  rw [eq] at nested
  obtain ⟨heads, found, stops⟩ := Skip.descend_stops (s.breaksAt t) nested
  have whole := Skip.insertRows_nested (rowCount (s.randomNr + 1) (s.rows.length - 1) + 1) nested distinct off stops
  cases stops with
  | cons first rest =>
    rename_i head heads
    obtain ⟨A, B, split, inserted, before⟩ := first.insertAfter_eq (x := t) distinct
    rw [← eq] at found whole
    obtain ⟨s', result⟩ : ∃ s', s.link t = some s' := ⟨_, by rw [State.link, found, Option.map_some]⟩
    have is := result
    rw [State.link, found, Option.map_some] at is
    cases Option.some.inj is
    refine ⟨_, A, B, result, split, ?_, before, whole, ?_, rfl, rfl, rfl⟩
    · rw [← inserted]
      change (Skip.insertRows t _ s.rows _).headD [] = _
      rw [eq]
      rfl
    · change Skip.insertRows t _ s.rows _ ≠ []
      rw [eq]
      exact List.cons_ne_nil _ _

section
variable (timer : s'.timer = Function.update s.timer t { s.timer t with activated := true })
include timer

theorem activated_timeout (a : Nat) : (s'.timer a).timeoutTick = (s.timer a).timeoutTick := by
  by_cases here : a = t
  · rw [timer, here, Function.update_self]
  · rw [timer, Function.update_of_ne here]

theorem activated_expired (tick : s'.rtTick = s.rtTick) : s'.expired = s.expired := by
  funext a
  rw [State.expired, State.expired, activated_timeout timer, tick]

theorem link_inTime {A B : List Nat} (tick : s'.rtTick = s.rtTick) (split : s.lastRow = A ++ B)
    (row : s'.lastRow = A ++ t :: B) (stops : ∀ b, B.head? = some b → s.breaksAt t b = true)
    (fresh : s.expired t = false) (inTime : InTime n s)
    (passed : ∀ a ∈ s.lastRow, s.expired a = true → s.breaksAt t a = false) : InTime n s' := by
  have due := activated_expired timer tick
  have behind : ∀ b ∈ B, s.expired b = false := by
    intro b here
    by_contra isDue
    simp only [Bool.not_eq_false] at isDue
    cases B with
    | nil => cases here
    | cons first rest =>
      have member : first ∈ s.lastRow := by simp [split]
      have order := (List.pairwise_append.mp (split ▸ inTime.first)).2.1
      have firstDue : s.expired first = true := by
        rcases List.mem_cons.mp here with rfl | later
        · exact isDue
        · exact (List.pairwise_cons.mp order).1 b later isDue
      have stopped := stops first rfl
      rw [passed first member firstDue] at stopped
      cases stopped
  constructor
  · rw [row, due]
    obtain ⟨left, right, across⟩ := List.pairwise_append.mp (split ▸ inTime.first)
    refine List.pairwise_append.mpr ⟨left, List.pairwise_cons.mpr ⟨?_, right⟩, ?_⟩
    · intro b here isDue
      rw [behind b here] at isDue
      cases isDue
    · intro a here b there
      rcases List.mem_cons.mp there with rfl | there
      · intro isDue
        rw [fresh] at isDue
        cases isDue
      · exact across a here b there
  · intro a found isDue
    rw [due] at isDue
    rw [activated_timeout timer, tick]
    have old : a = t ∨ a ∈ s.lastRow := by
      rw [row] at found
      rw [split]
      simp only [List.mem_append, List.mem_cons] at found ⊢
      tauto
    rcases old with rfl | inside
    · rw [fresh] at isDue
      cases isDue
    · exact inTime.late a inside isDue
  · intro a
    by_cases here : a = t
    · rw [timer, here, Function.update_self]
      exact inTime.inits t
    · rw [timer, Function.update_of_ne here]
      exact inTime.inits a

end

theorem link_linked (linked : Linked s) (off : t ∉ s.lastRow) (idle : t ∉ s.pending)
    (attached : (s.timer t).attached = true) (fresh : s.expired t = false) :
    ∃ s', s.link t = some s' ∧ Linked s' ∧ Quiet s s' ∧ t ∈ s'.lastRow ∧
      s'.timer = Function.update s.timer t { s.timer t with activated := true } ∧ s'.rtTick = s.rtTick ∧
      s'.pending = s.pending ∧
      (InTime n s → (∀ a ∈ s.lastRow, s.expired a = true → s.breaksAt t a = false) → InTime n s') := by
  obtain ⟨s', A, B, result, split, row, before, nested, nonempty, tick, pending, timer⟩ :=
    link_row linked.nonempty linked.nested linked.distinct off
  have perm : s'.lastRow.Perm (t :: s.lastRow) := by
    rw [row, split]
    exact List.perm_middle
  have same : ∀ a, a ≠ t → s'.timer a = s.timer a := by
    intro a other
    rw [timer, Function.update_of_ne other]
  have self : s'.timer t = { s.timer t with activated := true } := by
    rw [timer, Function.update_self]
  have old : ∀ a ∈ s'.lastRow, a = t ∨ a ∈ s.lastRow ∧ a ≠ t := by
    intro a found
    rcases List.mem_cons.mp (perm.mem_iff.mp found) with here | inside
    · exact Or.inl here
    · exact Or.inr ⟨inside, fun here => off (here ▸ inside)⟩
  refine ⟨s', result, ⟨nonempty, nested, ?_, ?_, ?_, ?_, pending ▸ linked.single⟩, ⟨tick, ?_, ?_⟩, ?_, timer, tick,
    pending, ?_⟩
  · exact perm.nodup_iff.mpr (List.nodup_cons.mpr ⟨off, linked.distinct⟩)
  · intro a found
    rcases old a found with rfl | ⟨inside, other⟩
    · rw [self]
      exact ⟨attached, rfl⟩
    · rw [same a other]
      exact linked.active a inside
  · intro a
    by_cases here : a = t
    · rw [here, self]
      exact linked.valid t
    · rw [same a here]
      exact linked.valid a
  · intro a waits
    rw [pending] at waits
    have other : a ≠ t := fun here => idle (here ▸ waits)
    rw [same a other]
    refine ⟨fun found => ?_, (linked.pending a waits).2⟩
    rcases old a found with here | ⟨inside, _⟩
    · exact other here
    · exact (linked.pending a waits).1 inside
  · rw [pending]
  · rw [State.overdue, State.overdue, activated_expired timer tick, row, split]
    simp [List.filter_append, fresh]
  · exact perm.mem_iff.mpr List.mem_cons_self
  · exact link_inTime timer tick split row before fresh

/-- What a start does besides. -/
structure Started (s s' : State) (t : Nat) : Prop where
  listed : t ∈ s'.lastRow
  timer : s'.timer = Function.update s.timer t
    { s.timer t with activated := true, timeoutTick := s.rtTick + (s.timer t).initTick }
  pending : s'.pending = s.pending.erase t

theorem start_linked (linked : Linked s) (attached : (s.timer t).attached = true) :
    ∃ s', rtTimerStart s t = some s' ∧ Linked s' ∧ Quiet s s' ∧ Started s s' t ∧ (InTime n s → InTime n s') := by
  have valid := linked.valid t attached
  have small : (s.timer t).initTick < halfTickMax := by
    simp only [validTime, Bool.and_eq_true, decide_eq_true_eq] at valid
    exact valid.2
  obtain ⟨timer, isTimer⟩ : ∃ timer, timer =
    { s.timer t with activated := false, timeoutTick := s.rtTick + (s.timer t).initTick } := ⟨_, rfl⟩
  obtain ⟨removed, quiet, keeps, off, idle⟩ := unlink_linked (n := n) (t := t) linked
  obtain ⟨set, quiet', keeps'⟩ := setTimer_linked (n := n) (t := t) removed timer
    (by rw [isTimer]; exact fun _ => valid) (fun inside => absurd inside off) (fun waits => absurd waits idle)
  have here : ((s.remove t).setTimer t timer).timer t = timer := State.setTimer_self
  have fresh : ((s.remove t).setTimer t timer).expired t = false := by
    rw [State.expired, here, isTimer]
    exact decide_eq_false (fresh_not_expired valid)
  obtain ⟨s', result, linked', quiet'', listed, timers, _, pending, keeps''⟩ := link_linked (n := n) set off idle
    (by rw [here, isTimer]; exact attached) fresh
  refine ⟨s', ?_, linked', (quiet.trans quiet').trans quiet'', ⟨listed, ?_, pending⟩, ?_⟩
  · unfold rtTimerStart
    rw [if_pos attached]
    simp only [small, if_true]
    rw [← result, isTimer]
    rfl
  · rw [timers, here, isTimer]
    simp [State.setTimer, State.remove]
  · intro inTime
    have inTime' := keeps' (keeps inTime) (by rw [isTimer]; exact inTime.inits t)
    refine keeps'' inTime' ?_
    intro a inside isDue
    have late := inTime'.late a inside isDue
    have bound := inTime.inits t attached
    have passed : ¬ (((s.remove t).setTimer t timer).timer a).timeoutTick -
        (s.rtTick + (s.timer t).initTick) < halfTickMax :=
      late_passed valid (Nat.le_trans (Nat.add_le_add_left bound _) late)
    have target : (((s.remove t).setTimer t timer).timer t).timeoutTick = s.rtTick + (s.timer t).initTick := by
      rw [here, isTimer]
    rw [State.breaksAt, target]
    simp only [passed, decide_false, ite_self]

theorem remove_linked (linked : Linked s) (timer : RtTimer)
    (valid : timer.attached = true → validTime timer.initTick = true) :
    Linked ((s.remove t).setTimer t timer) ∧ Quiet s ((s.remove t).setTimer t timer) ∧
      (InTime n s → (timer.attached = true → timer.initTick.toNat ≤ n) →
        InTime n ((s.remove t).setTimer t timer)) := by
  obtain ⟨removed, quiet, keeps, off, idle⟩ := unlink_linked (n := n) (t := t) linked
  obtain ⟨set, quiet', keeps'⟩ := setTimer_linked (n := n) (t := t) removed timer valid
    (fun inside => absurd inside off) (fun waits => absurd waits idle)
  exact ⟨set, quiet.trans quiet', fun inTime => keeps' (keeps inTime)⟩

/-- The timer object of `t` is as before, or has another init_tick. -/
theorem Waiting.keep (waiting : Waiting s t) (pending : t ∈ s'.pending)
    (attached : (s'.timer t).attached = (s.timer t).attached)
    (activated : (s'.timer t).activated = (s.timer t).activated)
    (periodic : (s'.timer t).periodic = (s.timer t).periodic) : Waiting s' t :=
  ⟨pending, attached.trans waiting.attached, activated.trans waiting.activated, periodic.trans waiting.periodic⟩

theorem Waiting.other {u : Nat} (waiting : Waiting s t)
    (pending : s'.pending = s.pending ∨ s'.pending = s.pending.erase u)
    (timer : ∃ timer, s'.timer = Function.update s.timer u timer) (other : t ≠ u) : Waiting s' t := by
  obtain ⟨timer, eq⟩ := timer
  have same : s'.timer t = s.timer t := by rw [eq, Function.update_of_ne other]
  refine waiting.keep ?_ (by rw [same]) (by rw [same]) (by rw [same])
  rcases pending with kept | erased
  · rw [kept]
    exact waiting.pending
  · rw [erased]
    exact (List.mem_erase_of_ne other).mpr waiting.pending

/-- What an allowed call of a timeout function comes to. -/
structure Called (n : Nat) (call : Call) (s s' : State) : Prop where
  linked : Linked s'
  quiet : Quiet s s'
  inTime : call.fits n → InTime n s → InTime n s'
  waiting : ∀ t, call.moves t = false → Waiting s t → Waiting s' t

theorem call_linked {call : Call} (linked : Linked s) (allowed : s.allows call = true) :
    ∃ s' es, s.call call = some (s', es) ∧ Called n call s s' := by
  cases call with
  | init u time periodic =>
    simp only [State.allows, Bool.and_eq_true, Bool.not_eq_true'] at allowed
    have off : u ∉ s.lastRow := fun inside => by simp [(linked.active u inside).1] at allowed
    have idle : u ∉ s.pending := fun waits => by simp [(linked.pending u waits).2] at allowed
    obtain ⟨set, quiet, keeps⟩ := setTimer_linked (n := n) (t := u) linked ⟨true, 0, time, false, periodic⟩
      (fun _ => allowed.2) (fun inside => absurd inside off) (fun waits => absurd waits idle)
    refine ⟨_, [], by simp [State.call, rtTimerInit, allowed.1], set, quiet,
      fun fits inTime => keeps inTime (fun _ => fits allowed.2), ?_⟩
    intro t _ waiting
    refine waiting.other (u := u) (Or.inl rfl) ⟨_, rfl⟩ ?_
    rintro rfl
    exact idle waiting.pending
  | setTime u time =>
    simp only [State.allows, Bool.and_eq_true] at allowed
    obtain ⟨set, quiet, keeps⟩ := setTimer_linked (n := n) (t := u) linked { s.timer u with initTick := time }
      (fun _ => allowed.2) (fun inside => ⟨rfl, linked.active u inside⟩) (fun waits => (linked.pending u waits).2)
    refine ⟨_, [], by simp [State.call, rtTimerSetTime, allowed.1], set, quiet,
      fun fits inTime => keeps inTime (fun _ => fits allowed.2), ?_⟩
    intro t _ waiting
    by_cases self : t = u
    · subst self
      refine waiting.keep waiting.pending ?_ ?_ ?_ <;> simp [State.setTimer]
    · exact waiting.other (u := u) (Or.inl rfl) ⟨_, rfl⟩ self
  | start u =>
    obtain ⟨s', result, linked', quiet, started, keeps⟩ := start_linked (n := n) linked allowed
    refine ⟨s', [.started u], by simp [State.call, result], linked', quiet, fun _ => keeps, ?_⟩
    intro t moved waiting
    exact waiting.other (u := u) (Or.inr started.pending) ⟨_, started.timer⟩
      (fun self => by simp [Call.moves, self] at moved)
  | stop u =>
    have attached : (s.timer u).attached = true := allowed
    by_cases activated : (s.timer u).activated = true
    · obtain ⟨removed, quiet, keeps⟩ := remove_linked (n := n) (t := u) linked
        { s.timer u with activated := false } (fun _ => linked.valid u attached)
      refine ⟨_, [.stopped u], by simp [State.call, rtTimerStop, attached, activated], removed, quiet,
        fun _ inTime => keeps inTime (fun _ => inTime.inits u attached), ?_⟩
      intro t moved waiting
      exact waiting.other (u := u) (Or.inr rfl) ⟨_, rfl⟩ (fun self => by simp [Call.moves, self] at moved)
    · exact ⟨s, [.stopped u], by simp [State.call, rtTimerStop, attached, activated], linked, .refl s,
        fun _ inTime => inTime, fun _ _ waiting => waiting⟩
  | detach u =>
    have attached : (s.timer u).attached = true := allowed
    obtain ⟨removed, quiet, keeps⟩ := remove_linked (n := n) (t := u) linked
      { s.timer u with activated := false, attached := false } (fun still => by simp at still)
    refine ⟨_, [.detached u], by simp [State.call, rtTimerDetach, attached], removed, quiet,
      fun _ inTime => keeps inTime (fun still => by simp at still), ?_⟩
    intro t moved waiting
    exact waiting.other (u := u) (Or.inr rfl) ⟨_, rfl⟩ (fun self => by simp [Call.moves, self] at moved)

theorem calls_linked (calls : List Call) (linked : Linked s) : ∃ s' es, s.calls calls = some (s', es) ∧
    Linked s' ∧ Quiet s s' ∧ ((∀ c ∈ calls, c.fits n) → InTime n s → InTime n s') ∧
    ∀ t, (∀ c ∈ calls, c.moves t = false) → Waiting s t → Waiting s' t := by
  induction calls generalizing s with
  | nil => exact ⟨s, [], rfl, linked, .refl s, fun _ inTime => inTime, fun _ _ waiting => waiting⟩
  | cons call rest ih =>
    unfold State.calls
    split
    · rename_i allowed
      obtain ⟨m, es, result, called⟩ := call_linked (n := n) linked allowed
      obtain ⟨s', fs, later, linked', quiet, keeps, waits⟩ := ih called.linked
      refine ⟨s', es ++ fs, by simp [result, later], linked', called.quiet.trans quiet, ?_, ?_⟩
      · intro fits inTime
        exact keeps (fun c here => fits c (List.mem_cons_of_mem call here))
          (called.inTime (fits call List.mem_cons_self) inTime)
      · intro t moved waiting
        exact waits t (fun c here => moved c (List.mem_cons_of_mem call here))
          (called.waiting t (moved call List.mem_cons_self) waiting)
    · obtain ⟨s', es, result, linked', quiet, keeps, waits⟩ := ih linked
      exact ⟨s', es, result, linked', quiet, fun fits => keeps (fun c here => fits c (List.mem_cons_of_mem call here)),
        fun t moved => waits t (fun c here => moved c (List.mem_cons_of_mem call here))⟩

theorem takeOff_linked {rest : List Nat} (linked : Linked s) (idle : s.pending = []) (row : s.lastRow = t :: rest)
    (due : s.expired t = true) : Linked (s.takeOff t) ∧ (s.takeOff t).pending = [t] ∧
      (s.takeOff t).rtTick = s.rtTick ∧ s.overdue = t :: (s.takeOff t).overdue ∧ (InTime n s → InTime n (s.takeOff t)) ∧
      ((s.timer t).periodic = true → Waiting (s.takeOff t) t) := by
  have inside : t ∈ s.lastRow := by simp [row]
  obtain ⟨attached, activated⟩ := linked.active t inside
  obtain ⟨timer, isTimer⟩ : ∃ timer, timer =
    if (s.timer t).periodic then s.timer t else { s.timer t with activated := false } := ⟨_, rfl⟩
  have kept : timer.attached = true ∧ timer.initTick = (s.timer t).initTick := by
    rw [isTimer]
    split <;> exact ⟨attached, rfl⟩
  obtain ⟨removed, quiet, keeps⟩ := remove_linked (n := n) (t := t) linked timer
    (fun _ => by rw [kept.2]; exact linked.valid t attached)
  obtain ⟨m, isM⟩ : ∃ m, m = (s.remove t).setTimer t timer := ⟨_, rfl⟩
  rw [← isM] at removed quiet keeps
  have here : m.timer t = timer := by
    rw [isM]
    exact Function.update_self ..
  have row' : m.lastRow = rest := by
    rw [isM, show ((s.remove t).setTimer t timer).lastRow = s.lastRow.erase t from State.lastRow_remove, row]
    simp
  have away : t ∉ rest := (List.nodup_cons.mp (row ▸ linked.distinct)).1
  have holds : s.takeOff t = { m with pending := [t] } := by
    simp [State.takeOff, isTimer, isM, State.setTimer, State.remove, idle]
  rw [holds]
  refine ⟨⟨removed.nonempty, removed.nested, removed.distinct, removed.active, removed.valid, ?_,
    List.nodup_singleton t⟩, rfl, quiet.tick, ?_, ?_, ?_⟩
  · intro a self
    rw [List.mem_singleton.mp self]
    exact ⟨by rw [show ({ m with pending := [t] } : State).lastRow = m.lastRow from rfl, row']; exact away,
      by rw [show ({ m with pending := [t] } : State).timer = m.timer from rfl, here]; exact kept.1⟩
  · have same : ∀ a ∈ rest, s.expired a = m.expired a := by
      intro a found
      have other : a ≠ t := fun self => away (self ▸ found)
      rw [isM]
      simp [State.expired, State.setTimer, State.remove, other]
    rw [State.overdue, row, List.filter_cons_of_pos due, List.filter_congr same]
    rw [← row']
    rfl
  · intro inTime
    have inTime' := keeps inTime (fun _ => by rw [kept.2]; exact inTime.inits t attached)
    exact ⟨inTime'.first, inTime'.late, inTime'.inits⟩
  · intro periodic
    have whole : m.timer t = s.timer t := by
      rw [here, isTimer, if_pos periodic]
    refine ⟨List.mem_singleton_self t, ?_, ?_, ?_⟩
    · exact (congrArg RtTimer.attached whole).trans attached
    · exact (congrArg RtTimer.activated whole).trans activated
    · exact (congrArg RtTimer.periodic whole).trans periodic

theorem restart_linked (linked : Linked s) (most : s.pending.Sublist [t]) : ∃ s' es, restart s t = some (s', es) ∧
    Linked s' ∧ Quiet s s' ∧ s'.pending = [] ∧ (InTime n s → InTime n s') ∧ (Waiting s t → Rearmed s' t) := by
  unfold restart
  rcases List.sublist_singleton.mp most with none | holds
  · rw [if_pos (by simp [none])]
    refine ⟨s, [], rfl, linked, .refl s, none, id, fun waiting => ?_⟩
    have here := waiting.pending
    simp [none] at here
  · rw [if_neg (by simp [holds])]
    obtain ⟨off, attached⟩ := linked.pending t (by simp [holds])
    have dropped : s.pending.erase t = [] := by simp [holds]
    simp only [dropped]
    have quiet : Quiet s { s with pending := [] } := ⟨rfl, List.nil_sublist _, List.Sublist.refl _⟩
    have free : Linked { s with pending := [] } :=
      ⟨linked.nonempty, linked.nested, linked.distinct, linked.active, linked.valid, by simp, List.nodup_nil⟩
    split
    · obtain ⟨stopped, quiet', keeps⟩ := setTimer_linked (n := n) (t := t) free { s.timer t with activated := false }
        (fun _ => linked.valid t attached) (fun inside => absurd inside off) (fun waits => by simp at waits)
      obtain ⟨s', result, linked', quiet'', started, keeps'⟩ := start_linked (n := n) (t := t) stopped
        (by simpa [State.setTimer] using attached)
      refine ⟨s', [.started t], by rw [result]; rfl, linked', (quiet.trans quiet').trans quiet'', ?_, ?_, ?_⟩
      · rw [started.pending]
        rfl
      · intro inTime
        exact keeps' (keeps ⟨inTime.first, inTime.late, inTime.inits⟩ (fun _ => inTime.inits t attached))
      · intro _
        refine ⟨started.listed, ?_⟩
        rw [started.timer, quiet''.tick]
        simp
    · rename_i inactive
      refine ⟨_, [], rfl, free, quiet, rfl, fun inTime => ⟨inTime.first, inTime.late, inTime.inits⟩, ?_⟩
      intro waiting
      exact absurd ⟨waiting.periodic, waiting.activated⟩ inactive

/-- What a pass for the due first timer `t` comes to. -/
structure Passed (n : Nat) (calls : List Call) (t : Nat) (s s' : State) : Prop where
  linked : Linked s'
  idle : s'.pending = []
  overdue : (t :: s'.overdue).Sublist s.overdue
  inTime : (∀ c ∈ calls, c.fits n) → InTime n s → InTime n s'
  rearmed : (s.timer t).periodic = true → (∀ c ∈ calls, c.moves t = false) → Rearmed s' t

theorem expire_linked {rest : List Nat} (calls : List Call) (linked : Linked s) (idle : s.pending = [])
    (row : s.lastRow = t :: rest) (due : s.expired t = true) :
    ∃ s' es, expire s t calls = some (s', es) ∧ Passed n calls t s s' := by
  obtain ⟨taken, holds, tick, first, keeps, waits⟩ := takeOff_linked (n := n) linked idle row due
  obtain ⟨m, es, ran, linkedM, quiet, keeps', waits'⟩ := calls_linked (n := n) calls taken
  obtain ⟨s', fs, restarted, linked', quiet', none, keeps'', rearms⟩ :=
    restart_linked (n := n) linkedM (holds ▸ quiet.pending)
  refine ⟨s', .expired t :: es ++ fs, by simp [expire, ran, restarted], linked', none, ?_, ?_, ?_⟩
  · rw [first]
    exact (quiet'.overdue.trans quiet.overdue).cons_cons t
  · intro fits inTime
    exact keeps'' (keeps' fits (keeps inTime))
  · intro periodic moved
    exact rearms (waits' t moved (waits periodic))

/-- By induction on the passes left: each takes one due timer off and makes none due. -/
theorem checkLoop_linked (fuel : Nat) (script : List (List Call)) (linked : Linked s) (idle : s.pending = [])
    (enough : s.overdue.length ≤ fuel) :
    ∃ fired s' es, checkLoop fuel script s = some (s', es) ∧ Loop s script fired s' ∧ fired.Sublist s.overdue ∧
      ((∀ calls ∈ script, ∀ c ∈ calls, c.fits n) → InTime n s → ∀ t ∈ s'.lastRow, s'.expired t = false) := by
  induction fuel generalizing s script with
  | zero =>
    have none : s.overdue = [] := List.length_eq_zero_iff.mp (Nat.le_zero.mp enough)
    have early : ∀ t ∈ s.lastRow, s.expired t = false := by
      intro t inside
      exact Bool.eq_false_iff.mpr (List.filter_eq_nil_iff.mp none t inside)
    refine ⟨[], s, [], ?_, .done (fun t first => early t (List.mem_of_mem_head? first)), List.nil_sublist _,
      fun _ _ => early⟩
    unfold checkLoop
    cases row : s.lastRow with
    | nil => rfl
    | cons t rest =>
      have late : ¬ s.rtTick - (s.timer t).timeoutTick < halfTickMax :=
        of_decide_eq_false (early t (by simp [row]))
      simp only [late, if_false]
  | succ fuel ih =>
    cases row : s.lastRow with
    | nil =>
      refine ⟨[], s, [], ?_, .done (by simp [row]), List.nil_sublist _, by simp [row]⟩
      unfold checkLoop
      simp only [row]
    | cons t rest =>
      by_cases due : s.expired t = true
      · obtain ⟨m, es, expired, passed⟩ := expire_linked (n := n) (script.headD []) linked idle row due
        have fewer := passed.overdue.length_le
        simp only [List.length_cons] at fewer
        obtain ⟨fired, s', fs, loops, passes, order, clears⟩ := ih script.tail passed.linked passed.idle (by lia)
        refine ⟨t :: fired, s', es ++ fs, ?_, .pass (by simp [row]) due expired passed.rearmed passes,
          (order.cons_cons t).trans passed.overdue, ?_⟩
        · unfold checkLoop
          simp only [row]
          rw [if_pos (of_decide_eq_true due), expired]
          simp [loops]
        · intro fits inTime
          refine clears (fun calls here => fits calls (List.mem_of_mem_tail here)) (passed.inTime ?_ inTime)
          intro c here
          cases script with
          | nil => cases here
          | cons calls later => exact fits calls List.mem_cons_self c here
      · have notDue : s.expired t = false := Bool.eq_false_iff.mpr due
        refine ⟨[], s, [], ?_, .done (by simpa [row] using notDue), List.nil_sublist _, ?_⟩
        · unfold checkLoop
          simp only [row]
          rw [if_neg (of_decide_eq_false notDue)]
        · intro _ inTime a inside
          have first := inTime.first
          rw [row] at first inside
          rcases List.mem_cons.mp inside with rfl | later
          · exact notDue
          · exact Bool.eq_false_iff.mpr (fun isDue => due ((List.pairwise_cons.mp first).1 a later isDue))

theorem expired_iff (some : 0 < (x - k).toNat) (near : (x - k).toNat < halfTickMax.toNat)
    (reach : (i - k).toNat ≤ halfTickMax.toNat) :
    (i - x < halfTickMax ↔ (x - k).toNat ≤ (i - k).toNat) ∧
      (i - x < halfTickMax → (i - x).toNat + (x - k).toNat = (i - k).toNat) := by
  simp only [halfTickMax] at *
  constructor
  · bv_omega
  · bv_omega

/-- The check comes at most RT_TICK_MAX/2 ticks after the last one, and the more ticks later it
comes the fewer a timer may be started with. -/
def InMargin (s : State) (tick : BitVec 32) (script : List (List Call)) : Prop :=
  ∃ n, (∀ t, (s.timer t).attached = true → (s.timer t).initTick.toNat ≤ n) ∧
    (∀ calls ∈ script, ∀ c ∈ calls, c.fits n) ∧
    (tick - s.rtTick).toNat ≤ halfTickMax.toNat ∧ (tick - s.rtTick).toNat + n ≤ 0x80000002

theorem idle_inTime {tick : BitVec 32} (idle : Idle level running s)
    (inits : ∀ t, (s.timer t).attached = true → (s.timer t).initTick.toNat ≤ n)
    (reach : (tick - s.rtTick).toNat ≤ halfTickMax.toNat) (margin : (tick - s.rtTick).toNat + n ≤ 0x80000002) :
    InTime n { s with rtTick := tick } := by
  have facts : ∀ a ∈ s.lastRow, (({ s with rtTick := tick } : State).expired a = true ↔
      s.remaining a ≤ (tick - s.rtTick).toNat) ∧ (({ s with rtTick := tick } : State).expired a = true →
      (tick - (s.timer a).timeoutTick).toNat + s.remaining a = (tick - s.rtTick).toNat) := by
    intro a inside
    obtain ⟨isDue, late⟩ := expired_iff (idle.future a inside) (idle.near a inside) reach
    exact ⟨decide_eq_true_iff.trans isDue, fun due => late (of_decide_eq_true due)⟩
  refine ⟨?_, ?_, inits⟩
  · refine idle.sorted.imp_of_mem ?_
    intro a b first second before isDue
    rw [(facts a first).1]
    rw [(facts b second).1] at isDue
    rcases before with less | ⟨same, _⟩ <;> lia
  · intro a inside isDue
    have sum := (facts a inside).2 isDue
    have later := idle.future a inside
    change (tick - (s.timer a).timeoutTick).toNat + n ≤ _
    lia

/-- Up to four ticks late every timer may be started: so it is in rt_tick_increase. -/
theorem inMargin_soon {tick : BitVec 32} (idle : Idle level running s) (soon : (tick - s.rtTick).toNat ≤ 4)
    (script : List (List Call)) : InMargin s tick script := by
  have bound : ∀ time : BitVec 32, validTime time = true → time.toNat ≤ 0x7ffffffe := by
    intro time valid
    simp only [validTime, Bool.and_eq_true, decide_eq_true_eq] at valid
    have below := valid.2
    simp only [halfTickMax] at below
    bv_omega
  refine ⟨0x7ffffffe, fun t attached => bound _ (idle.valid t attached), ?_, ?_, by lia⟩
  · intro calls _ c _
    cases c <;> first | exact bound _ | trivial
  · simp only [halfTickMax, BitVec.reduceToNat]
    lia

/-- rt_timer_check at `tick`: it returns, runs the timeout functions of due timers only, each
once and in list order, and brings back the periodic ones. -/
structure Checked (s : State) (script : List (List Call)) (s' : State) (fired : List Nat) : Prop where
  loop : Loop s script fired s'
  order : fired.Sublist s.overdue
  once : fired.Nodup

theorem timer_check_fires {tr : List Event} (run : Run (machine level) tr s) (tick : BitVec 32)
    (script : List (List Call)) :
    (∃ fired s' es, rtTimerCheck { s with rtTick := tick } script = some (s', es) ∧
      Checked { s with rtTick := tick } script s' fired ∧
      (InMargin s tick script → ∀ t ∈ s'.lastRow, s'.expired t = false)) ∧
    ((tick - s.rtTick).toNat ≤ 4 → InMargin s tick script) := by
  have idle := run_idle run
  refine ⟨?_, fun soon => inMargin_soon idle soon script⟩
  have old := idle.toInv.linked
  have linked : Linked { s with rtTick := tick } :=
    ⟨old.nonempty, old.nested, old.distinct, old.active, old.valid, old.pending, old.single⟩
  by_cases margin : InMargin s tick script
  · obtain ⟨n, inits, fits, reach, sum⟩ := margin
    obtain ⟨fired, s', es, result, loop, order, clears⟩ := checkLoop_linked (n := n) s.lastRow.length script linked
      idle.quiet (List.length_filter_le _ _)
    exact ⟨fired, s', es, result, ⟨loop, order, order.nodup (linked.distinct.filter _)⟩,
      fun _ => clears fits (idle_inTime idle inits reach sum)⟩
  · obtain ⟨fired, s', es, result, loop, order, _⟩ := checkLoop_linked (n := 0) s.lastRow.length script linked
      idle.quiet (List.length_filter_le _ _)
    exact ⟨fired, s', es, result, ⟨loop, order, order.nodup (linked.distinct.filter _)⟩,
      fun inside => absurd inside margin⟩

/-- Four ticks late, with a timeout function that starts the other timer again. -/
theorem timer_check_fires_late : ∃ tr s, Run (machine 2) tr s ∧ s.lastRow = [0, 1] ∧
    (∃ fired s' es, rtTimerCheck { s with rtTick := s.rtTick + 4 } [[.start 1]] = some (s', es) ∧
      Checked { s with rtTick := s.rtTick + 4 } [[.start 1]] s' fired ∧
      (InMargin s (s.rtTick + 4) [[.start 1]] → ∀ t ∈ s'.lastRow, s'.expired t = false)) ∧
    InMargin s (s.rtTick + 4) [[.start 1]] := by
  obtain ⟨tr, s, run, found⟩ := Run.reaches (M := machine 2)
    (s := ⟨0xfffffffe, 0, fun _ => ⟨false, 0, 0, false, false⟩, List.replicate 2 [], []⟩)
    ⟨by decide, rfl, rfl, fun _ => rfl⟩
    [.call (.init 0 3 true), .call (.init 1 4 false), .call (.start 0), .call (.start 1)]
    (fun s => decide (s.rtTick = 0xfffffffe ∧ s.lastRow = [0, 1])) (by decide +kernel)
  obtain ⟨now, row⟩ := of_decide_eq_true found
  have checked := timer_check_fires run (s.rtTick + 4) [[.start 1]]
  exact ⟨tr, s, run, row, checked.1, checked.2 (by rw [now]; decide)⟩

/-- Timer 1 is still in the list after a check, and due. -/
def leavesDue (s : State) (script : List (List Call)) : Bool :=
  (rtTimerCheck s script).any (fun r => decide (1 ∈ r.1.lastRow) && r.1.expired 1)

theorem leavesDue_left {script : List (List Call)} (leaves : leavesDue s script = true) :
    ∃ s' es, rtTimerCheck s script = some (s', es) ∧ 1 ∈ s'.lastRow ∧ s'.expired 1 = true := by
  obtain ⟨done, result, found⟩ := (Option.any_eq_true _ _).mp leaves
  obtain ⟨inside, due⟩ := Bool.and_eq_true_iff.mp found
  exact ⟨done.1, done.2, result, of_decide_eq_true inside, due⟩

/-- Far from the last check a due timer is left behind one that is not due: one that has been
in the list for too long, or, before half the range is reached, one that a timeout function
has just started. -/
theorem timer_check_leaves_due :
    (∃ tr s, Run (machine 1) tr s ∧ ∃ s' es, rtTimerCheck { s with rtTick := 0x80000000 } [] = some (s', es) ∧
      1 ∈ s'.lastRow ∧ s'.expired 1 = true) ∧
    (∃ tr s, Run (machine 1) tr s ∧ s.rtTick = 0 ∧ ∃ s' es,
      rtTimerCheck { s with rtTick := 0x7ffffff0 } [[.init 2 0x7ffffffe false, .start 2]] = some (s', es) ∧
      1 ∈ s'.lastRow ∧ s'.expired 1 = true) := by
  constructor
  · obtain ⟨tr, s, run, found⟩ := Run.reaches (M := machine 1)
      (s := ⟨0, 0, fun _ => ⟨false, 0, 0, false, false⟩, List.replicate 1 [], []⟩)
      ⟨by decide, rfl, rfl, fun _ => rfl⟩
      [.call (.init 0 1 false), .call (.init 1 0x7ffffffe false), .call (.start 0), .call (.start 1)]
      (fun s => leavesDue { s with rtTick := 0x80000000 } []) (by decide +kernel)
    exact ⟨tr, s, run, leavesDue_left found⟩
  · obtain ⟨tr, s, run, found⟩ := Run.reaches (M := machine 1)
      (s := ⟨0, 0, fun _ => ⟨false, 0, 0, false, false⟩, List.replicate 1 [], []⟩)
      ⟨by decide, rfl, rfl, fun _ => rfl⟩
      [.call (.init 0 1 false), .call (.init 1 10 false), .call (.start 0), .call (.start 1)]
      (fun s => decide (s.rtTick = 0) &&
        leavesDue { s with rtTick := 0x7ffffff0 } [[.init 2 0x7ffffffe false, .start 2]]) (by decide +kernel)
    obtain ⟨now, found⟩ := Bool.and_eq_true_iff.mp found
    exact ⟨tr, s, run, of_decide_eq_true now, leavesDue_left found⟩

end RtThread.Timer
