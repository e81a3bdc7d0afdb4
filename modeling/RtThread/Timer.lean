import Mathlib.Data.BitVec
import RtThread.Run
import RtThread.Skip

/-! The system timer list (timer.c, clock.c) with any number of rows. Calls run one at a
time with interrupts off; a timeout function may itself make timer calls. Rows are
listed from row RT_TIMER_SKIP_LIST_LEVEL - 1 upwards. Soft timers and the time slice part
of rt_tick_increase are left out, and rt_timer_create and rt_timer_delete act on this list
as rt_timer_init and rt_timer_detach do. -/
namespace RtThread.Timer
open Transition

def halfTickMax : BitVec 32 := 0x7fffffff
def skipListMask : BitVec 32 := 0x3

/-- `attached` says that the object type is RT_Object_Class_Timer. -/
structure RtTimer where
  attached : Bool
  timeoutTick : BitVec 32
  initTick : BitVec 32
  activated : Bool
  periodic : Bool

/-- `pending` is the temporary list of rt_timer_check. -/
structure State where
  rtTick : BitVec 32
  randomNr : BitVec 32
  timer : Nat → RtTimer
  rows : List (List Nat)
  pending : List Nat

def State.lastRow (s : State) : List Nat := s.rows.headD []

def State.setTimer (s : State) (t : Nat) (timer : RtTimer) : State :=
  { s with timer := Function.update s.timer t timer }

/-- _rt_timer_remove. A node that is linked nowhere is linked to itself, so that
removing it does nothing. -/
def State.remove (s : State) (t : Nat) : State :=
  { s with rows := s.rows.map (fun row => row.erase t), pending := s.pending.erase t }

/-- The search for the place of `t` ends before `a`. -/
def State.breaksAt (s : State) (t a : Nat) : Bool :=
  let diff := (s.timer a).timeoutTick - (s.timer t).timeoutTick
  if diff = 0 then false else diff < halfTickMax

/-- How many of `n` upper rows get the new node. -/
def rowCount : BitVec 32 → Nat → Nat
  | _, 0 => 0
  | tstNr, n + 1 => if tstNr &&& skipListMask = 0 then 1 + rowCount (tstNr >>> 2) n else 0

def rtTimerInit (s : State) (t : Nat) (time : BitVec 32) (periodic : Bool) : Option State :=
  if (s.timer t).attached then none else some (s.setTimer t ⟨true, 0, time, false, periodic⟩)

/-- The second half of rt_timer_start: `t` has its timeout and is on no list. -/
def State.link (s : State) (t : Nat) : Option State :=
  (Skip.descend (s.breaksAt t) s.rows).map (fun heads =>
    let tstNr := s.randomNr + 1
    let rows := Skip.insertRows t (rowCount tstNr (s.rows.length - 1) + 1) s.rows heads
    { s with randomNr := tstNr, rows := rows }.setTimer t { s.timer t with activated := true })

def rtTimerStart (s : State) (t : Nat) : Option State :=
  if (s.timer t).attached then
    let timer := s.timer t
    let s := s.remove t
    if timer.initTick < halfTickMax then
      (s.setTimer t { timer with activated := false, timeoutTick := s.rtTick + timer.initTick }).link t
    else none
  else none

def rtTimerStop (s : State) (t : Nat) : Option State :=
  if (s.timer t).attached then
    if (s.timer t).activated then some ((s.remove t).setTimer t { s.timer t with activated := false })
    else some s
  else none

def rtTimerDetach (s : State) (t : Nat) : Option State :=
  if (s.timer t).attached then
    some ((s.remove t).setTimer t { s.timer t with activated := false, attached := false })
  else none

/-- rt_timer_control with RT_TIMER_CTRL_SET_TIME. -/
def rtTimerSetTime (s : State) (t : Nat) (time : BitVec 32) : Option State :=
  if (s.timer t).attached then some (s.setTimer t { s.timer t with initTick := time }) else none

inductive Call where
  | init (t : Nat) (time : BitVec 32) (periodic : Bool)
  | setTime (t : Nat) (time : BitVec 32)
  | start (t : Nat)
  | stop (t : Nat)
  | detach (t : Nat)

inductive Event where
  | started (t : Nat)
  | stopped (t : Nat)
  | detached (t : Nat)
  | expired (t : Nat)

def validTime (time : BitVec 32) : Bool := 0 < time && time < halfTickMax

/-- Calls on timers that are initialised, with ticks in 1..RT_TICK_MAX/2-1. -/
def State.allows (s : State) : Call → Bool
  | .init t time _ => !(s.timer t).attached && validTime time
  | .setTime t time => (s.timer t).attached && validTime time
  | .start t | .stop t | .detach t => (s.timer t).attached

def State.call (s : State) : Call → Option (State × List Event)
  | .init t time periodic => (rtTimerInit s t time periodic).map (fun s => (s, []))
  | .setTime t time => (rtTimerSetTime s t time).map (fun s => (s, []))
  | .start t => (rtTimerStart s t).map (fun s => (s, [.started t]))
  | .stop t => (rtTimerStop s t).map (fun s => (s, [.stopped t]))
  | .detach t => (rtTimerDetach s t).map (fun s => (s, [.detached t]))

/-- The calls of a timeout function, less those it may not make when it gets there. -/
def State.calls : List Call → State → Option (State × List Event)
  | [], s => some (s, [])
  | call :: rest, s =>
    if s.allows call then
      (s.call call).bind (fun r => (State.calls rest r.1).map (fun q => (q.1, r.2 ++ q.2)))
    else State.calls rest s

/-- An expired timer goes to the temporary list. -/
def State.takeOff (s : State) (t : Nat) : State :=
  let timer := s.timer t
  let s := (s.remove t).setTimer t (if timer.periodic then timer else { timer with activated := false })
  { s with pending := t :: s.pending }

/-- After its timeout function has run it may be started again. -/
def restart (s : State) (t : Nat) : Option (State × List Event) :=
  if s.pending.isEmpty then some (s, [])
  else
    let s := { s with pending := s.pending.erase t }
    if (s.timer t).periodic ∧ (s.timer t).activated then
      (rtTimerStart (s.setTimer t { s.timer t with activated := false }) t).map (fun s => (s, [.started t]))
    else some (s, [])

/-- A pass of the loop in rt_timer_check for an expired timer. -/
def expire (s : State) (t : Nat) (timeoutFunc : List Call) : Option (State × List Event) :=
  ((s.takeOff t).calls timeoutFunc).bind (fun r =>
    (restart r.1 t).map (fun q => (q.1, .expired t :: r.2 ++ q.2)))

/-- The loop, with the calls of the timeout functions in the order they run. -/
def checkLoop : Nat → List (List Call) → State → Option (State × List Event)
  | fuel, script, s =>
    match s.lastRow with
    | [] => some (s, [])
    | t :: _ =>
      if s.rtTick - (s.timer t).timeoutTick < halfTickMax then
        match fuel with
        | 0 => none
        | fuel + 1 =>
          (expire s t (script.headD [])).bind (fun r =>
            (checkLoop fuel script.tail r.1).map (fun q => (q.1, r.2 ++ q.2)))
      else some (s, [])

def rtTimerCheck (s : State) (script : List (List Call)) : Option (State × List Event) :=
  checkLoop s.lastRow.length script s

def rtTickIncrease (s : State) (script : List (List Call)) : Option (State × List Event) :=
  rtTimerCheck { s with rtTick := s.rtTick + 1 } script

inductive Action where
  | call (call : Call)
  | tick (script : List (List Call))

def State.permits (s : State) : Action → Bool
  | .call call => s.allows call
  | .tick _ => true

def step (s : State) : Action → Option (State × List Event)
  | .call call => if s.allows call then s.call call else none
  | .tick script => rtTickIncrease s script

/-- After rt_system_timer_init, at any tick. -/
def Start (level : Nat) (s : State) : Prop :=
  0 < level ∧ s.rows = List.replicate level [] ∧ s.pending = [] ∧ ∀ t, (s.timer t).attached = false

def machine (level : Nat) : Machine State Action Event where
  start := Start level
  step := step

/-- The timers that have been started and have not expired or been stopped since, in the
order they were started in. -/
def track (running : List Nat) : Event → List Nat
  | .started t => running.erase t ++ [t]
  | .stopped t | .detached t | .expired t => running.erase t

def started (tr : List Event) : List Nat := tr.foldl track []

def State.remaining (s : State) (t : Nat) : Nat := ((s.timer t).timeoutTick - s.rtTick).toNat

/-- `a` expires before `b`, or with it and has been started before. -/
def Before (s : State) (running : List Nat) (a b : Nat) : Prop :=
  s.remaining a < s.remaining b ∨ (s.remaining a = s.remaining b ∧ [a, b].Sublist running)

structure Inv (level : Nat) (running : List Nat) (s : State) : Prop where
  levels : s.rows.length = level
  positive : 0 < level
  rows : Skip.Rows s.rows
  distinct : s.lastRow.Nodup
  known : running.Nodup
  members : ∀ t, t ∈ s.lastRow ↔ t ∈ running
  sorted : s.lastRow.Pairwise (Before s running)
  near : ∀ t ∈ s.lastRow, s.remaining t < halfTickMax.toNat
  active : ∀ t ∈ s.lastRow, (s.timer t).attached = true ∧ (s.timer t).activated = true
  valid : ∀ t, (s.timer t).attached = true → validTime (s.timer t).initTick = true
  pending : ∀ t ∈ s.pending, t ∉ s.lastRow ∧ (s.timer t).attached = true
  single : s.pending.Nodup

variable {level : Nat} {running : List Nat} {s s' : State} {t a b : Nat} {x y k i : BitVec 32}

theorem State.setTimer_self {timer : RtTimer} : (s.setTimer t timer).timer t = timer := Function.update_self ..

theorem State.setTimer_other {timer : RtTimer} (other : a ≠ t) : (s.setTimer t timer).timer a = s.timer a :=
  Function.update_of_ne other _ _

/- Arithmetic of the wrapping clock `k`: of timeouts less than half the range ahead. -/

theorem diff_iff (nearX : (x - k).toNat < halfTickMax.toNat) (nearY : (y - k).toNat < halfTickMax.toNat) :
    (¬ x - y = 0 ∧ x - y < halfTickMax) ↔ (y - k).toNat < (x - k).toNat := by
  simp only [halfTickMax] at *
  bv_omega

theorem due_iff (near : (x - k).toNat < halfTickMax.toNat) :
    k - x < halfTickMax ↔ (x - k).toNat = 0 := by
  simp only [halfTickMax] at *
  bv_omega

theorem remaining_next (some : 0 < (x - k).toNat) : (x - (k + 1)).toNat + 1 = (x - k).toNat := by
  bv_omega

theorem remaining_fresh (valid : validTime i = true) :
    0 < (k + i - k).toNat ∧ (k + i - k).toNat < halfTickMax.toNat := by
  have same : k + i - k = i := by rw [BitVec.add_comm, BitVec.add_sub_cancel]
  simp only [validTime, Bool.and_eq_true, decide_eq_true_eq] at valid
  obtain ⟨low, high⟩ := valid
  simp only [same, halfTickMax] at *
  bv_omega

theorem State.breaksAt_iff (nearA : s.remaining a < halfTickMax.toNat) (nearT : s.remaining t < halfTickMax.toNat) :
    s.breaksAt t a = true ↔ s.remaining t < s.remaining a := by
  rw [← show _ ↔ s.remaining t < s.remaining a from diff_iff nearA nearT]
  simp only [State.breaksAt]
  split
  · simp [*]
  · rename_i differ
    simp only [decide_eq_true_eq, differ, not_false_eq_true, true_and]

theorem State.lastRow_eq (some : s.rows ≠ []) : ∃ above, s.rows = s.lastRow :: above := by
  obtain ⟨row, above, eq⟩ := List.exists_cons_of_ne_nil some
  exact ⟨above, by simp [State.lastRow, eq]⟩

theorem State.lastRow_remove : (s.remove t).lastRow = s.lastRow.erase t := by
  unfold State.lastRow State.remove
  cases s.rows <;> simp

theorem Before.erase {other : Nat} (before : Before s running a b) (ha : a ≠ other) (hb : b ≠ other) :
    Before s (running.erase other) a b := by
  rcases before with less | ⟨same, order⟩
  · exact Or.inl less
  · refine Or.inr ⟨same, ?_⟩
    have kept := order.erase other
    rwa [List.erase_of_not_mem (by simp [ha.symm, hb.symm])] at kept

theorem Before.append (before : Before s running a b) (other : Nat) : Before s (running ++ [other]) a b := by
  rcases before with less | ⟨same, order⟩
  · exact Or.inl less
  · exact Or.inr ⟨same, order.trans (List.sublist_append_left _ _)⟩

theorem State.remaining_activate {activated : Bool} (tick : s'.rtTick = s.rtTick)
    (timer : s'.timer = Function.update s.timer t { s.timer t with activated := activated }) :
    s'.remaining = s.remaining := by
  funext a
  unfold State.remaining
  by_cases self : a = t
  · rw [timer, self, Function.update_self, tick]
  · rw [timer, Function.update_of_ne self, tick]

namespace Inv

theorem nonempty (inv : Inv level running s) : s.rows ≠ [] := by
  intro empty
  have levels := inv.levels
  have positive := inv.positive
  simp [empty] at levels
  omega

theorem remove (inv : Inv level running s) (timer : RtTimer)
    (valid : timer.attached = true → validTime timer.initTick = true) :
    Inv level (running.erase t) ((s.remove t).setTimer t timer) := by
  have row : ((s.remove t).setTimer t timer).lastRow = s.lastRow.erase t := State.lastRow_remove
  have away : ∀ a ∈ s.lastRow.erase t, a ∈ s.lastRow ∧ a ≠ t := by
    intro a here
    rw [inv.distinct.mem_erase_iff] at here
    exact ⟨here.2, here.1⟩
  have same : ∀ a, a ≠ t → ((s.remove t).setTimer t timer).timer a = s.timer a := fun _ => State.setTimer_other
  have remains : ∀ a, a ≠ t → ((s.remove t).setTimer t timer).remaining a = s.remaining a := by
    intro a other
    unfold State.remaining
    rw [same a other]
    rfl
  refine ⟨?_, inv.positive, Skip.rows_erase inv.rows t, ?_, inv.known.erase t, ?_, ?_, ?_, ?_, ?_, ?_, ?_⟩
  · simp [State.remove, State.setTimer, inv.levels]
  · rw [row]
    exact inv.distinct.erase t
  · intro a
    rw [row, inv.distinct.mem_erase_iff, inv.known.mem_erase_iff, inv.members a]
  · rw [row]
    have kept : (s.lastRow.erase t).Pairwise (Before s running) := inv.sorted.sublist List.erase_sublist
    refine kept.imp_of_mem ?_
    intro a b here there before
    have ha := (away a here).2
    have hb := (away b there).2
    have order := before.erase ha hb
    unfold Before at order ⊢
    rwa [remains a ha, remains b hb]
  · intro a here
    rw [row] at here
    rw [remains a (away a here).2]
    exact inv.near a (away a here).1
  · intro a here
    rw [row] at here
    rw [same a (away a here).2]
    exact inv.active a (away a here).1
  · intro a
    by_cases here : a = t
    · subst here
      simpa [State.setTimer] using valid
    · rw [same a here]
      exact inv.valid a
  · intro a here
    have kept : a ∈ s.pending.erase t := here
    rw [inv.single.mem_erase_iff] at kept
    obtain ⟨off, attached⟩ := inv.pending a kept.2
    rw [row, same a kept.1]
    exact ⟨fun inside => off (away a inside).1, attached⟩
  · exact inv.single.erase t

theorem ordered (inv : Inv level running s) (nearT : s.remaining t < halfTickMax.toNat) :
    ∀ row ∈ s.rows, row.Nodup ∧ Skip.Ordered (s.breaksAt t) row := by
  obtain ⟨above, eq⟩ := State.lastRow_eq inv.nonempty
  have last : Skip.Ordered (s.breaksAt t) s.lastRow := by
    refine inv.sorted.imp_of_mem ?_
    intro a b here there before breaks
    rw [State.breaksAt_iff (inv.near a here) nearT] at breaks
    rw [State.breaksAt_iff (inv.near b there) nearT]
    rcases before with less | ⟨same, _⟩ <;> omega
  have chain := inv.rows
  rw [eq] at chain ⊢
  intro row here
  have sub := chain.sublist_head row here
  exact ⟨inv.distinct.sublist sub, last.sublist sub⟩

theorem place_sorted (inv : Inv level running s) (nearT : s.remaining t < halfTickMax.toNat) :
    (Skip.place (s.breaksAt t) t s.lastRow).Pairwise (Before s (running ++ [t])) := by
  obtain ⟨above, eq⟩ := State.lastRow_eq inv.nonempty
  have last : s.lastRow ∈ s.rows := by
    rw [eq]
    exact List.mem_cons_self
  refine Skip.pairwise_place (inv.ordered nearT _ last).2 (inv.sorted.imp fun before => before.append t) ?_ ?_
  · intro a found stays
    have notBefore : ¬ s.remaining t < s.remaining a := by
      rw [← State.breaksAt_iff (inv.near a found) nearT, stays]
      simp
    by_cases equal : s.remaining a = s.remaining t
    · refine Or.inr ⟨equal, ?_⟩
      have known := List.singleton_sublist.mpr ((inv.members a).mp found)
      exact known.append (List.Sublist.refl [t])
    · left
      omega
  · intro a found stops
    exact Or.inl ((State.breaksAt_iff (inv.near a found) nearT).mp stops)

theorem insert {n : Nat} (inv : Inv level running s) (s' : State) (off : t ∉ s.lastRow) (idle : t ∉ s.pending)
    (attached : (s.timer t).attached = true) (nearT : s.remaining t < halfTickMax.toNat)
    (rows : s'.rows = (s.rows.take (n + 1)).map (Skip.place (s.breaksAt t) t) ++ s.rows.drop (n + 1))
    (tick : s'.rtTick = s.rtTick) (pending : s'.pending = s.pending)
    (timer : s'.timer = Function.update s.timer t { s.timer t with activated := true }) :
    Inv level (running ++ [t]) s' ∧ s'.lastRow.Perm (t :: s.lastRow) ∧ s'.remaining = s.remaining := by
  have order := inv.ordered nearT
  obtain ⟨above, eq⟩ := State.lastRow_eq inv.nonempty
  have row : s'.lastRow = Skip.place (s.breaksAt t) t s.lastRow := by
    rw [State.lastRow, rows, eq]
    rfl
  have perm : s'.lastRow.Perm (t :: s.lastRow) := row ▸ Skip.place_perm t s.lastRow
  have same : ∀ a, a ≠ t → s'.timer a = s.timer a := by
    intro a other
    rw [timer, Function.update_of_ne other]
  have here : s'.timer t = { s.timer t with activated := true } := by
    rw [timer, Function.update_self]
  have remains : s'.remaining = s.remaining := State.remaining_activate tick timer
  have unknown : t ∉ running := fun known => off ((inv.members t).mpr known)
  have inside : ∀ a ∈ s'.lastRow, a = t ∨ a ∈ s.lastRow ∧ a ≠ t := by
    intro a found
    rcases List.mem_cons.mp (perm.mem_iff.mp found) with self | other
    · exact Or.inl self
    · exact Or.inr ⟨other, fun self => off (self ▸ other)⟩
  refine ⟨⟨?_, inv.positive, ?_, ?_, ?_, ?_, ?_, ?_, ?_, ?_, ?_, ?_⟩, perm, remains⟩
  · rw [rows, ← inv.levels, List.length_append, List.length_map, ← List.length_append, List.take_append_drop]
  · rw [rows]
    exact Skip.rows_place (n + 1) inv.rows (fun r found => (order r found).2)
  · rw [perm.nodup_iff]
    exact List.nodup_cons.mpr ⟨off, inv.distinct⟩
  · exact List.nodup_append.mpr ⟨inv.known, List.nodup_singleton t, by
      intro a known b self
      rw [List.mem_singleton.mp self]
      rintro rfl
      exact unknown known⟩
  · intro a
    rw [perm.mem_iff, List.mem_cons, List.mem_append, List.mem_singleton, inv.members a]
    tauto
  · rw [row]
    refine (inv.place_sorted nearT).imp ?_
    intro a b before
    unfold Before at before ⊢
    rwa [remains]
  · intro a found
    rw [remains]
    rcases inside a found with rfl | ⟨other, _⟩
    · exact nearT
    · exact inv.near a other
  · intro a found
    rcases inside a found with rfl | ⟨other, away⟩
    · rw [here]
      exact ⟨attached, rfl⟩
    · rw [same a away]
      exact inv.active a other
  · intro a
    by_cases self : a = t
    · rw [self, here]
      exact inv.valid t
    · rw [same a self]
      exact inv.valid a
  · intro a waits
    rw [pending] at waits
    have away : a ≠ t := fun self => idle (self ▸ waits)
    obtain ⟨out, attachedA⟩ := inv.pending a waits
    rw [same a away]
    refine ⟨fun found => ?_, attachedA⟩
    rcases inside a found with self | ⟨other, _⟩
    · exact away self
    · exact out other
  · rw [pending]
    exact inv.single

end Inv

/-- A call does not make a timer due. -/
structure Calm (s s' : State) : Prop where
  tick : s'.rtTick = s.rtTick
  pending : s'.pending.Sublist s.pending
  due : ∀ t ∈ s'.lastRow, s'.remaining t = 0 → t ∈ s.lastRow ∧ s.remaining t = 0

theorem remove_calm (distinct : s.lastRow.Nodup) (timer : RtTimer) :
    Calm s ((s.remove t).setTimer t timer) := by
  refine ⟨rfl, List.erase_sublist, ?_⟩
  intro a here zero
  have row : ((s.remove t).setTimer t timer).lastRow = s.lastRow.erase t := State.lastRow_remove
  rw [row, distinct.mem_erase_iff] at here
  refine ⟨here.2, ?_⟩
  rw [← zero]
  simp [State.remaining, State.setTimer, Function.update_of_ne here.1, State.remove]

theorem link_spec (inv : Inv level running s) (off : t ∉ s.lastRow) (idle : t ∉ s.pending)
    (attached : (s.timer t).attached = true) (future : 0 < s.remaining t)
    (nearT : s.remaining t < halfTickMax.toNat) :
    ∃ s', s.link t = some s' ∧ Inv level (running ++ [t]) s' ∧ Calm s s' := by
  have order := inv.ordered nearT
  have found := Skip.descend_eq inv.rows (fun r inside => (order r inside).2)
  refine ⟨_, by rw [State.link, found, Option.map_some], ?_⟩
  simp only [Skip.insertRows_eq _ (fun r inside => (order r inside).1)]
  obtain ⟨inv', perm, remains⟩ := inv.insert (State.setTimer ⟨s.rtTick, s.randomNr + 1, s.timer, _, s.pending⟩ t _)
    off idle attached nearT rfl rfl rfl rfl
  refine ⟨inv', rfl, List.Sublist.refl _, ?_⟩
  intro a here zero
  rw [remains] at zero
  rcases List.mem_cons.mp (perm.mem_iff.mp here) with rfl | inside
  · omega
  · exact ⟨inside, zero⟩

theorem Calm.trans {m : State} (first : Calm s m) (second : Calm m s') : Calm s s' := by
  refine ⟨second.tick.trans first.tick, second.pending.trans first.pending, ?_⟩
  intro a here zero
  obtain ⟨before, zero⟩ := second.due a here zero
  exact first.due a before zero

theorem start_spec (inv : Inv level running s) (attached : (s.timer t).attached = true) :
    ∃ s', rtTimerStart s t = some s' ∧ Inv level (running.erase t ++ [t]) s' ∧ Calm s s' := by
  have valid := inv.valid t attached
  have small : (s.timer t).initTick < halfTickMax := by
    simp only [validTime, Bool.and_eq_true, decide_eq_true_eq] at valid
    exact valid.2
  obtain ⟨timer, isTimer⟩ : ∃ timer, timer =
    { s.timer t with activated := false, timeoutTick := s.rtTick + (s.timer t).initTick } := ⟨_, rfl⟩
  have inv' := inv.remove (t := t) timer (by rw [isTimer]; exact fun _ => valid)
  have calm := remove_calm (t := t) inv.distinct timer
  have here : ((s.remove t).setTimer t timer).timer t = timer := State.setTimer_self
  have fresh := remaining_fresh (k := s.rtTick) valid
  have off : t ∉ ((s.remove t).setTimer t timer).lastRow := by
    rw [inv'.members t]
    exact fun inside => (inv.known.mem_erase_iff.mp inside).1 rfl
  have idle : t ∉ ((s.remove t).setTimer t timer).pending :=
    fun inside => (inv.single.mem_erase_iff.mp inside).1 rfl
  have ticks : ((s.remove t).setTimer t timer).remaining t =
      (s.rtTick + (s.timer t).initTick - s.rtTick).toNat := by
    rw [State.remaining, here, isTimer]
    rfl
  obtain ⟨s', linked, inv'', calm'⟩ := link_spec inv' off idle (by rw [here, isTimer]; exact attached)
    (ticks ▸ fresh.1) (ticks ▸ fresh.2)
  refine ⟨s', ?_, inv'', calm.trans calm'⟩
  unfold rtTimerStart
  rw [if_pos attached]
  simp only [small, if_true]
  rw [← linked, isTimer]
  rfl

theorem Inv.setTimer (inv : Inv level running s) (timer : RtTimer)
    (valid : timer.attached = true → validTime timer.initTick = true)
    (linked : t ∈ s.lastRow → timer.timeoutTick = (s.timer t).timeoutTick ∧ timer.attached = true ∧
      timer.activated = true)
    (waits : t ∈ s.pending → timer.attached = true) :
    Inv level running (s.setTimer t timer) ∧ Calm s (s.setTimer t timer) := by
  have here : (s.setTimer t timer).timer t = timer := State.setTimer_self
  have same : ∀ a, a ≠ t → (s.setTimer t timer).timer a = s.timer a := fun _ => State.setTimer_other
  have remains : ∀ a ∈ s.lastRow, (s.setTimer t timer).remaining a = s.remaining a := by
    intro a inside
    unfold State.remaining
    by_cases self : a = t
    · subst self
      rw [here, (linked inside).1]
      rfl
    · rw [same a self]
      rfl
  refine ⟨⟨inv.levels, inv.positive, inv.rows, inv.distinct, inv.known, inv.members, ?_, ?_, ?_, ?_, ?_, inv.single⟩,
    rfl, List.Sublist.refl _, fun a inside zero => ⟨inside, by rwa [remains a inside] at zero⟩⟩
  · refine inv.sorted.imp_of_mem ?_
    intro a b first second before
    unfold Before at before ⊢
    rwa [remains a first, remains b second]
  · intro a inside
    rw [remains a inside]
    exact inv.near a inside
  · intro a inside
    by_cases self : a = t
    · subst self
      rw [here]
      exact (linked inside).2
    · rw [same a self]
      exact inv.active a inside
  · intro a
    by_cases self : a = t
    · subst self
      rw [here]
      exact valid
    · rw [same a self]
      exact inv.valid a
  · intro a inside
    refine ⟨(inv.pending a inside).1, ?_⟩
    by_cases self : a = t
    · subst self
      rw [here]
      exact waits inside
    · rw [same a self]
      exact (inv.pending a inside).2

theorem Inv.setPending (inv : Inv level running s) (pending : List Nat)
    (off : ∀ t ∈ pending, t ∉ s.lastRow ∧ (s.timer t).attached = true) (distinct : pending.Nodup) :
    Inv level running { s with pending := pending } :=
  ⟨inv.levels, inv.positive, inv.rows, inv.distinct, inv.known, inv.members, inv.sorted, inv.near, inv.active,
    inv.valid, off, distinct⟩

theorem Inv.off (inv : Inv level running s)
    (inactive : ¬ ((s.timer t).attached = true ∧ (s.timer t).activated = true)) : t ∉ s.lastRow :=
  fun inside => inactive (inv.active t inside)

/-- Every call that is allowed returns, and keeps the invariant. -/
theorem call_spec {call : Call} (inv : Inv level running s) (allowed : s.allows call = true) :
    ∃ s' es, s.call call = some (s', es) ∧ Inv level (es.foldl track running) s' ∧ Calm s s' := by
  cases call with
  | init t time periodic =>
    simp only [State.allows, Bool.and_eq_true, Bool.not_eq_true'] at allowed
    have off := inv.off (t := t) (by simp [allowed.1])
    have idle : t ∉ s.pending := fun waits => by simp [(inv.pending t waits).2] at allowed
    have next := inv.setTimer (t := t) ⟨true, 0, time, false, periodic⟩ (fun _ => allowed.2)
      (fun inside => absurd inside off) (fun waits => absurd waits idle)
    exact ⟨_, [], by simp [State.call, rtTimerInit, allowed.1], next⟩
  | setTime t time =>
    simp only [State.allows, Bool.and_eq_true] at allowed
    have next := inv.setTimer (t := t) { s.timer t with initTick := time } (fun _ => allowed.2)
      (fun inside => ⟨rfl, inv.active t inside⟩) (fun waits => (inv.pending t waits).2)
    exact ⟨_, [], by simp [State.call, rtTimerSetTime, allowed.1], next⟩
  | start t =>
    obtain ⟨s', result, inv', calm⟩ := start_spec inv allowed
    exact ⟨s', [.started t], by simp [State.call, result], inv', calm⟩
  | stop t =>
    have attached : (s.timer t).attached = true := allowed
    by_cases activated : (s.timer t).activated = true
    · refine ⟨_, [.stopped t], ?_, inv.remove { s.timer t with activated := false }
        (fun _ => inv.valid t attached), remove_calm inv.distinct _⟩
      simp [State.call, rtTimerStop, attached, activated]
    · have off := inv.off (t := t) (by simp [activated])
      have unknown : t ∉ running := fun known => off ((inv.members t).mpr known)
      refine ⟨s, [.stopped t], by simp [State.call, rtTimerStop, attached, activated], ?_, rfl,
        List.Sublist.refl _, fun _ inside zero => ⟨inside, zero⟩⟩
      simp only [List.foldl_cons, List.foldl_nil, track, List.erase_of_not_mem unknown]
      exact inv
  | detach t =>
    have attached : (s.timer t).attached = true := allowed
    refine ⟨_, [.detached t], ?_, inv.remove { s.timer t with activated := false, attached := false }
      (fun still => by simp at still), remove_calm inv.distinct _⟩
    simp [State.call, rtTimerDetach, attached]

theorem calls_spec (script : List Call) (inv : Inv level running s) :
    ∃ s' es, s.calls script = some (s', es) ∧ Inv level (es.foldl track running) s' ∧ Calm s s' := by
  induction script generalizing s running with
  | nil => exact ⟨s, [], rfl, inv, rfl, List.Sublist.refl _, fun _ inside zero => ⟨inside, zero⟩⟩
  | cons call rest ih =>
    unfold State.calls
    split
    · rename_i allowed
      obtain ⟨m, es, result, invM, calm⟩ := call_spec inv allowed
      obtain ⟨s', fs, later, inv', calm'⟩ := ih invM
      refine ⟨s', es ++ fs, by simp [result, later], ?_, calm.trans calm'⟩
      rw [List.foldl_append]
      exact inv'
    · exact ih inv

theorem takeOff_spec (inv : Inv level running s) (quiet : s.pending = []) (inside : t ∈ s.lastRow) :
    Inv level (running.erase t) (s.takeOff t) ∧ (s.takeOff t).pending = [t] ∧
      (s.takeOff t).rtTick = s.rtTick ∧
      ∀ a ∈ (s.takeOff t).lastRow, (s.takeOff t).remaining a = 0 → a ∈ s.lastRow ∧ a ≠ t ∧ s.remaining a = 0 := by
  obtain ⟨attached, _⟩ := inv.active t inside
  obtain ⟨timer, isTimer⟩ : ∃ timer, timer =
    if (s.timer t).periodic then s.timer t else { s.timer t with activated := false } := ⟨_, rfl⟩
  have kept : timer.attached = true ∧ validTime timer.initTick = true := by
    rw [isTimer]
    split <;> exact ⟨attached, inv.valid t attached⟩
  have inv' := inv.remove (t := t) timer (fun _ => kept.2)
  have calm := remove_calm (t := t) inv.distinct timer
  have off : t ∉ ((s.remove t).setTimer t timer).lastRow := by
    rw [inv'.members t]
    exact fun known => (inv.known.mem_erase_iff.mp known).1 rfl
  have here : ((s.remove t).setTimer t timer).timer t = timer := State.setTimer_self
  have holds : s.takeOff t = { (s.remove t).setTimer t timer with pending := [t] } := by
    simp [State.takeOff, isTimer, State.setTimer, State.remove, quiet]
  rw [holds]
  refine ⟨inv'.setPending [t] ?_ (by simp), rfl, rfl, ?_⟩
  · intro a self
    cases List.mem_singleton.mp self
    exact ⟨off, by rw [here]; exact kept.1⟩
  · intro a found zero
    obtain ⟨old, due⟩ := calm.due a found zero
    exact ⟨old, fun self => off (self ▸ found), due⟩

theorem restart_spec (inv : Inv level running s) (most : s.pending.Sublist [t]) :
    ∃ s' es, restart s t = some (s', es) ∧ Inv level (es.foldl track running) s' ∧ Calm s s' ∧
      s'.pending = [] := by
  unfold restart
  rcases List.sublist_singleton.mp most with none | holds
  · rw [if_pos (by simp [none])]
    exact ⟨s, [], rfl, inv, ⟨rfl, List.Sublist.refl _, fun _ inside zero => ⟨inside, zero⟩⟩, none⟩
  · rw [if_neg (by simp [holds])]
    obtain ⟨off, attached⟩ := inv.pending t (by simp [holds])
    have dropped : s.pending.erase t = [] := by simp [holds]
    simp only [dropped]
    have quiet := inv.setPending [] (by simp) (by simp)
    split
    · obtain ⟨stopped, calm⟩ := quiet.setTimer (t := t) { s.timer t with activated := false }
        (fun _ => inv.valid t attached) (fun inside => absurd inside off) (fun waits => by simp at waits)
      obtain ⟨s', result, inv', calm'⟩ := start_spec (t := t) stopped (by simpa [State.setTimer] using attached)
      have calms := calm.trans calm'
      refine ⟨s', [.started t], by rw [result]; rfl, inv', ⟨calms.tick, ?_, calms.due⟩, ?_⟩
      · exact calms.pending.trans (List.nil_sublist _)
      · exact List.sublist_nil.mp calms.pending
    · exact ⟨_, [], rfl, quiet, ⟨rfl, List.nil_sublist _, fun _ inside zero => ⟨inside, zero⟩⟩, rfl⟩

theorem expire_spec (script : List Call) (inv : Inv level running s) (quiet : s.pending = [])
    (inside : t ∈ s.lastRow) :
    ∃ s' es, expire s t script = some (s', es) ∧ Inv level (es.foldl track running) s' ∧ s'.pending = [] ∧
      s'.rtTick = s.rtTick ∧
      ∀ a ∈ s'.lastRow, s'.remaining a = 0 → a ∈ s.lastRow ∧ a ≠ t ∧ s.remaining a = 0 := by
  obtain ⟨invT, holds, tick, due⟩ := takeOff_spec inv quiet inside
  obtain ⟨m, es, ran, invM, calm⟩ := calls_spec script invT
  obtain ⟨s', fs, restarted, inv', calm', none⟩ := restart_spec invM (holds ▸ calm.pending)
  have calms := calm.trans calm'
  refine ⟨s', .expired t :: es ++ fs, by simp [expire, ran, restarted], ?_, none, calms.tick.trans tick, ?_⟩
  · rw [List.foldl_append]
    exact inv'
  · intro a found zero
    obtain ⟨before, zero⟩ := calms.due a found zero
    exact due a before zero

def State.due (s : State) : List Nat := s.lastRow.filter (fun t => s.remaining t = 0)

/-- The loop looks at the first timer of the last row: either none is due, or that one is. -/
theorem checkLoop_cases (fuel : Nat) (script : List (List Call)) (inv : Inv level running s) :
    (checkLoop fuel script s = some (s, []) ∧ ∀ a ∈ s.lastRow, 0 < s.remaining a) ∨
      ∃ t ∈ s.lastRow, s.remaining t = 0 ∧ ∀ f, fuel = f + 1 → checkLoop fuel script s =
        (expire s t (script.headD [])).bind (fun r =>
          (checkLoop f script.tail r.1).map (fun q => (q.1, r.2 ++ q.2))) := by
  have sorted := inv.sorted
  have near := inv.near
  cases row : s.lastRow with
  | nil =>
    left
    refine ⟨?_, by simp⟩
    unfold checkLoop
    simp only [row]
  | cons t rest =>
    rw [row] at sorted near
    have isDue : s.rtTick - (s.timer t).timeoutTick < halfTickMax ↔ s.remaining t = 0 :=
      due_iff (near t List.mem_cons_self)
    by_cases zero : s.remaining t = 0
    · refine Or.inr ⟨t, List.mem_cons_self, zero, ?_⟩
      rintro f rfl
      conv => lhs; unfold checkLoop
      simp only [row]
      rw [if_pos (isDue.mpr zero)]
    · left
      constructor
      · unfold checkLoop
        simp only [row]
        rw [if_neg (fun due => zero (isDue.mp due))]
      · intro a inside
        rcases List.mem_cons.mp inside with rfl | later
        · omega
        · rcases (List.pairwise_cons.mp sorted).1 a later with less | ⟨same, _⟩ <;> omega

theorem checkLoop_spec (fuel : Nat) (script : List (List Call)) (inv : Inv level running s)
    (quiet : s.pending = []) (enough : s.due.length ≤ fuel) :
    ∃ s' es, checkLoop fuel script s = some (s', es) ∧ Inv level (es.foldl track running) s' ∧
      s'.pending = [] ∧ ∀ a ∈ s'.lastRow, 0 < s'.remaining a := by
  induction fuel generalizing s running script with
  | zero =>
    rcases checkLoop_cases 0 script inv with ⟨ends, later⟩ | ⟨t, inside, zero, _⟩
    · exact ⟨s, [], ends, inv, quiet, later⟩
    · have none : s.due = [] := List.length_eq_zero_iff.mp (by omega)
      have found : t ∈ s.due := List.mem_filter.mpr ⟨inside, by simpa using zero⟩
      simp [none] at found
  | succ fuel ih =>
    rcases checkLoop_cases (fuel + 1) script inv with ⟨ends, later⟩ | ⟨t, inside, zero, pass⟩
    · exact ⟨s, [], ends, inv, quiet, later⟩
    · obtain ⟨m, es, expired, invM, quietM, _, due⟩ := expire_spec (script.headD []) inv quiet inside
      have found : t ∈ s.due := List.mem_filter.mpr ⟨inside, by simpa using zero⟩
      have fewer : (t :: m.due).Subperm s.due := by
        refine List.subperm_of_subset (List.nodup_cons.mpr ⟨?_, invM.distinct.filter _⟩) ?_
        · intro again
          obtain ⟨inRow, still⟩ := List.mem_filter.mp again
          exact (due t inRow (by simpa using still)).2.1 rfl
        · intro a member
          rcases List.mem_cons.mp member with rfl | other
          · exact found
          · obtain ⟨inRow, still⟩ := List.mem_filter.mp other
            obtain ⟨old, _, zero'⟩ := due a inRow (by simpa using still)
            exact List.mem_filter.mpr ⟨old, by simpa using zero'⟩
      have less := fewer.length_le
      simp only [List.length_cons] at less
      obtain ⟨s', fs, rest, inv', quiet', future⟩ := ih script.tail invM quietM (by omega)
      refine ⟨s', es ++ fs, ?_, ?_, quiet', future⟩
      · rw [pass fuel rfl, expired]
        simp [rest]
      · rw [List.foldl_append]
        exact inv'

theorem Inv.tick (inv : Inv level running s) (future : ∀ a ∈ s.lastRow, 0 < s.remaining a) :
    Inv level running { s with rtTick := s.rtTick + 1 } := by
  have closer : ∀ a ∈ s.lastRow, ({ s with rtTick := s.rtTick + 1 } : State).remaining a + 1 = s.remaining a :=
    fun a inside => remaining_next (future a inside)
  refine ⟨inv.levels, inv.positive, inv.rows, inv.distinct, inv.known, inv.members, ?_, ?_, inv.active, inv.valid,
    inv.pending, inv.single⟩
  · refine inv.sorted.imp_of_mem ?_
    intro a b first second before
    have nearA := closer a first
    have nearB := closer b second
    rcases before with less | ⟨same, order⟩
    · left
      omega
    · exact Or.inr ⟨by omega, order⟩
  · intro a inside
    have near := closer a inside
    have old := inv.near a inside
    change ({ s with rtTick := s.rtTick + 1 } : State).remaining a < _
    omega

/-- Between calls no timer is due and none is on the temporary list. -/
structure Idle (level : Nat) (running : List Nat) (s : State) : Prop extends Inv level running s where
  quiet : s.pending = []
  future : ∀ a ∈ s.lastRow, 0 < s.remaining a

theorem step_spec {action : Action} (idle : Idle level running s) (permitted : s.permits action = true) :
    ∃ s' es, step s action = some (s', es) ∧ Idle level (es.foldl track running) s' := by
  cases action with
  | call call =>
    have allowed : s.allows call = true := permitted
    obtain ⟨s', es, result, inv', calm⟩ := call_spec idle.toInv allowed
    refine ⟨s', es, by simp [step, allowed, result], inv', ?_, ?_⟩
    · have sub := calm.pending
      rw [idle.quiet] at sub
      exact List.sublist_nil.mp sub
    · intro a inside
      by_contra zero
      obtain ⟨old, zero'⟩ := calm.due a inside (by omega)
      have later := idle.future a old
      omega
  | tick script =>
    have inv := idle.toInv.tick idle.future
    obtain ⟨s', es, result, inv', quiet, future⟩ := checkLoop_spec s.lastRow.length script inv idle.quiet
      (List.length_filter_le _ _)
    exact ⟨s', es, result, inv', quiet, future⟩

theorem start_idle (start : Start level s) : Idle level [] s := by
  obtain ⟨positive, rows, quiet, unattached⟩ := start
  have empty : s.lastRow = [] := by
    rw [State.lastRow, rows]
    cases level <;> rfl
  refine ⟨⟨by simp [rows], positive, ?_, ?_, List.nodup_nil, ?_, ?_, ?_, ?_, ?_, ?_, ?_⟩, quiet, ?_⟩
  · rw [Skip.Rows, rows]
    exact List.isChain_replicate_of_rel level (List.Sublist.refl [])
  all_goals simp [empty, quiet, unattached]

theorem run_idle {tr : List Event} (run : Run (machine level) tr s) : Idle level (started tr) s := by
  refine run.invariant (I := fun tr s => Idle level (started tr) s) (fun _ => start_idle) ?_
  intro tr s action s' es idle taken
  change step s action = some (s', es) at taken
  have permitted : s.permits action = true := by
    cases action with
    | call call =>
      by_contra refused
      have none : s.allows call = false := Bool.eq_false_iff.mpr refused
      simp [step, none] at taken
    | tick script => rfl
  obtain ⟨m, fs, result, idle'⟩ := step_spec idle permitted
  rw [result] at taken
  cases Option.some.inj taken
  unfold started
  rw [List.foldl_append]
  exact idle'

/-- The timer list in a state reached with the history `tr`. -/
structure TimerList (level : Nat) (tr : List Event) (s : State) : Prop where
  levels : s.rows.length = level
  once : s.lastRow.Nodup
  running : ∀ t, t ∈ s.lastRow ↔ t ∈ started tr
  sorted : s.lastRow.Pairwise (Before s (started tr))
  rows : s.rows.IsChain (fun lower upper => upper.Sublist lower)
  returns : ∀ action, s.permits action = true → (step s action).isSome = true

/-- At every tick, also over the wrap of the clock, the list is in order. -/
theorem timer_list_ordered {tr : List Event} (run : Run (machine level) tr s) : TimerList level tr s := by
  have idle := run_idle run
  refine ⟨idle.levels, idle.distinct, idle.members, idle.sorted, idle.rows, ?_⟩
  intro action permitted
  obtain ⟨s', es, result, _⟩ := step_spec idle permitted
  simp [result]

/-- Three rows, over the wrap: timer 0 is stopped and started by its timeout function and
comes behind timer 2, which now expires before it. -/
theorem timer_list_ordered_wrap :
    ∃ tr s, TimerList 3 tr s ∧ s.rtTick = 1 ∧ s.rows = [[2, 0, 1], [0], []] := by
  obtain ⟨tr, s, run, found⟩ := Run.reaches (M := machine 3)
    (s := ⟨0xfffffffe, 0, fun _ => ⟨false, 0, 0, false, false⟩, List.replicate 3 [], []⟩)
    ⟨by decide, rfl, rfl, fun _ => rfl⟩
    [.call (.init 0 3 true), .call (.init 1 0x7ffffffe false), .call (.init 2 4 false), .call (.start 0),
      .call (.start 1), .call (.start 2), .tick [], .tick [], .tick [[.stop 0, .start 0]]]
    (fun s => decide (s.rtTick = 1 ∧ s.rows = [[2, 0, 1], [0], []])) (by decide +kernel)
  exact ⟨tr, s, timer_list_ordered run, of_decide_eq_true found⟩

end RtThread.Timer
