import RtThread.Ready

/-! The signals of one thread `t`: rt_thread_kill of any callers against rt_signal_wait,
rt_signal_mask, rt_signal_unmask and rt_thread_handle_sig of the thread, by their
interrupt-disabled sections. The stack that _signal_deliver prepares is left out, so
rt_thread_handle_sig may be entered at any time. -/
namespace RtThread.Signal
open Kernel Transition

structure Siginfo where
  siSigno : Nat
  siCode : Nat
  siValue : Nat
  deriving DecidableEq

def rtSigMax : Nat := 32
def siUser : Nat := 0x01

def rtThreadStatSignal : BitVec 4 := 0x1
def rtThreadStatSignalWait : BitVec 4 := 0x2
def rtThreadStatSignalPending : BitVec 4 := 0x4

def sigMask (sigNo : Nat) : BitVec 32 := 1#32 <<< sigNo
def sigValid (sigNo : Int) : Bool := decide (0 ≤ sigNo ∧ sigNo < rtSigMax)

/-- `sigVectors` says where a handler is installed. `waiting` is the set of the rt_signal_wait that
is in rt_schedule; `frames` are the arguments of the calls of rt_thread_handle_sig whose handler is
running; `emitting c` is the signal of caller `c` between the two sections of rt_thread_kill. -/
structure State where
  kernel : Kernel
  sigPending : BitVec 32
  sigMask : BitVec 32
  siList : List Siginfo
  sigVectors : Nat → Bool
  waiting : Option (BitVec 32)
  frames : List Bool
  emitting : Nat → Option Nat

/-- `called` has the pending and the unmasked signals that the section before the call has found. -/
inductive Event where
  | killed (c : Nat) (e : Err)
  | waited (e : Err) (si : Option Siginfo)
  | called (signo : Nat) (pending mask : BitVec 32)
  deriving DecidableEq

inductive Action where
  | kill (c : Nat) (sig : Int)
  | append (c : Nat) (allocated : Bool)
  | deliver (self : Bool)
  | mask (signo : Nat)
  | unmask (signo : Nat)
  | install (signo : Nat) (handler : Bool)
  | wait (set : BitVec 32) (siNull : Bool) (timeout : Int)
  | expire
  | waitEnd
  | handle (cleanState : Bool)
  | handled

/-- `update sig info`, `none` where no node has the signal. -/
def updateInfo (si : Siginfo) : List Siginfo → Option (List Siginfo)
  | [] => none
  | node :: rest =>
    if node.siSigno = si.siSigno then some (si :: rest) else (updateInfo si rest).map (node :: ·)

/-- The first section of rt_thread_kill. -/
def rtThreadKill (s : State) (c : Nat) (sig : Int) : Option (State × List Event) :=
  if s.emitting c ≠ none then none
  else if !sigValid sig then some (s, [.killed c .einval])
  else
    let sig := sig.toNat
    let updated := if s.sigPending &&& sigMask sig ≠ 0 then updateInfo ⟨sig, siUser, 0⟩ s.siList else none
    match updated with
    | some siList => some ({ s with siList := siList }, [.killed c .eok])
    | none => some ({ s with emitting := Function.update s.emitting c (some sig) }, [])

/-- The second; `allocated` is the result of rt_mp_alloc. -/
def killAppend (s : State) (c : Nat) (allocated : Bool) : Option (State × List Event) :=
  (s.emitting c).map (fun sig =>
    let s := if allocated then
        { s with siList := s.siList ++ [⟨sig, siUser, 0⟩], sigPending := s.sigPending ||| sigMask sig }
      else s
    ({ s with emitting := Function.update s.emitting c none }, [.killed c .eok]))

def setStat (t : Tid) (s : State) (f : BitVec 4 → BitVec 4) : State :=
  { s with kernel := s.kernel.modify t (fun th => { th with statSignal := f th.statSignal }) }

/-- `self`: the thread itself delivers. -/
def signalDeliver (t : Tid) (s : State) (self : Bool) : State :=
  let th := s.kernel.thread t
  if s.sigPending &&& s.sigMask = 0 then s
  else if th.stat = .suspend then
    setStat t { s with kernel := (s.kernel.rtThreadResume t).1 }
      (· ||| (rtThreadStatSignal ||| rtThreadStatSignalPending))
  else if self then setStat t s (· ||| rtThreadStatSignal)
  else if th.statSignal &&& rtThreadStatSignal = 0 then
    setStat t s (fun stat =>
      (stat ||| (rtThreadStatSignal ||| rtThreadStatSignalPending)) &&& ~~~rtThreadStatSignalPending)
  else s

def rtSignalMask (s : State) (signo : Nat) : State :=
  { s with sigMask := s.sigMask &&& ~~~Signal.sigMask signo }

/-- Up to its call of _signal_deliver. -/
def rtSignalUnmask (s : State) (signo : Nat) : State :=
  { s with sigMask := s.sigMask ||| Signal.sigMask signo }

/-- SIG_IGN takes the handler away. -/
def rtSignalInstall (s : State) (signo : Nat) (handler : Bool) : State :=
  if sigValid signo then { s with sigVectors := Function.update s.sigVectors signo handler } else s

/-- The first node whose signal is in the set, and the list without it. -/
def takeMatched (set : BitVec 32) : List Siginfo → Option (Siginfo × List Siginfo)
  | [] => none
  | node :: rest =>
    if sigMask node.siSigno &&& set ≠ 0 then some (node, rest)
    else (takeMatched set rest).map (fun r => (r.1, node :: r.2))

/-- From `__done` on. -/
def waitDone (s : State) (set : BitVec 32) : State × List Event :=
  match takeMatched set s.siList with
  | some (node, rest) =>
    ({ s with siList := rest, sigPending := s.sigPending &&& ~~~sigMask node.siSigno },
      [.waited .eok (some node)])
  | none => (s, [.waited .eok none])

/-- rt_signal_wait up to its rt_schedule. -/
def rtSignalWait (t : Tid) (s : State) (set : BitVec 32) (siNull : Bool) (timeout : Int) :
    Option (State × List Event) :=
  if s.waiting ≠ none ∨ (s.kernel.thread t).stat ≠ .ready then none
  else if set = 0 ∨ siNull then some (s, [.waited .einval none])
  else if s.sigPending &&& set ≠ 0 then some (waitDone s set)
  else if timeout = 0 then some (s, [.waited .etimeout none])
  else
    let s := { s with kernel := (s.kernel.rtThreadSuspend t).1, waiting := some set }
    let s := setStat t s (· ||| rtThreadStatSignalWait)
    (s.kernel.startTimer t timeout).map (fun k => ({ s with kernel := k }, []))

/-- rt_signal_wait after its rt_schedule. -/
def waitEnd (t : Tid) (s : State) : Option (State × List Event) :=
  if (s.kernel.thread t).stat ≠ .ready then none
  else
    s.waiting.map (fun set =>
      let s := setStat t { s with waiting := none } (· &&& ~~~rtThreadStatSignalWait)
      if (s.kernel.thread t).error = .etimeout then
        ({ s with kernel := s.kernel.modify t (fun th => { th with error := .eok }) },
          [.waited .etimeout none])
      else waitDone s set)

/-- One round of the loop of rt_thread_handle_sig up to the call of the handler, or the end of it;
with RT_FALSE its caller _signal_entry clears the status. -/
def handleRound (t : Tid) (s : State) (cleanState : Bool) : State × List Event :=
  match if s.sigPending &&& s.sigMask ≠ 0 then s.siList else [] with
  | [] => (setStat t s (· &&& ~~~rtThreadStatSignal), [])
  | node :: rest =>
    ({ s with
      siList := rest
      sigPending := s.sigPending &&& ~~~sigMask node.siSigno
      frames := cleanState :: s.frames },
      if s.sigVectors node.siSigno then [.called node.siSigno s.sigPending s.sigMask] else [])

def rtThreadHandleSig (t : Tid) (s : State) (cleanState : Bool) : State × List Event :=
  if s.sigPending &&& s.sigMask = 0 ∨ (s.kernel.thread t).statSignal &&& rtThreadStatSignalWait ≠ 0 then
    (if cleanState then s else setStat t s (· &&& ~~~rtThreadStatSignal), [])
  else handleRound t s cleanState

def handlerReturn (t : Tid) (s : State) : Option (State × List Event) :=
  if s.waiting ≠ none then none
  else
    match s.frames with
    | [] => none
    | cleanState :: frames =>
      let k := s.kernel.modify t (fun th => { th with error := .eintr })
      some (handleRound t { s with kernel := k, frames := frames } cleanState)

def step (t : Tid) (s : State) : Action → Option (State × List Event)
  | .kill c sig => rtThreadKill s c sig
  | .append c allocated => killAppend s c allocated
  | .deliver self => some (signalDeliver t s self, [])
  | .mask signo => some (rtSignalMask s signo, [])
  | .unmask signo => some (rtSignalUnmask s signo, [])
  | .install signo handler => some (rtSignalInstall s signo handler, [])
  | .wait set siNull timeout => rtSignalWait t s set siNull timeout
  | .expire => (s.kernel.timerExpire t).map (fun k => ({ s with kernel := k }, []))
  | .waitEnd => waitEnd t s
  | .handle cleanState => some (rtThreadHandleSig t s cleanState)
  | .handled => handlerReturn t s

/-- The thread has its handlers and no signal yet, and nobody is inside a call. -/
structure Start (s : State) : Prop where
  pending : s.sigPending = 0
  list : s.siList = []
  emitting : ∀ c, s.emitting c = none

def machine (t : Tid) : Machine State Action Event where
  start := Start
  step := step t

/-- A handler that is called next is that of a signal which is not masked. -/
def HeadUnmasked (s : State) : Prop :=
  s.sigPending &&& s.sigMask ≠ 0 → ∀ node, s.siList.head? = some node →
    s.sigVectors node.siSigno = true → s.sigMask.getLsbD node.siSigno = true

/-- rt_thread_kill does not append a second node for its signal; and where rt_thread_handle_sig takes a
node, it is of a signal that is not masked. -/
def Guard (t : Tid) (s : State) : Action → Prop
  | .append c allocated =>
    allocated = true → ∀ sig, s.emitting c = some sig → sig ∉ s.siList.map Siginfo.siSigno
  | .handle _ => (s.kernel.thread t).statSignal &&& rtThreadStatSignalWait = 0 → HeadUnmasked s
  | .handled => HeadUnmasked s
  | _ => True

variable {t : Tid} {s s' : State} {tr es : List Event} {a : Action}

/-- The bits of the pending set are the signals in the list, each of them once. -/
structure Listed (pending : BitVec 32) (siList : List Siginfo) : Prop where
  bits : ∀ sig, sig < 32 → (pending.getLsbD sig = true ↔ sig ∈ siList.map Siginfo.siSigno)
  nodup : (siList.map Siginfo.siSigno).Nodup
  small : ∀ sig ∈ siList.map Siginfo.siSigno, sig < 32

def Event.Allowed : Event → Prop
  | .called signo pending mask => pending.getLsbD signo = true ∧ mask.getLsbD signo = true
  | _ => True

structure Inv (tr : List Event) (s : State) : Prop where
  listed : Listed s.sigPending s.siList
  emitting : ∀ c sig, s.emitting c = some sig → sig < 32
  called : ∀ e ∈ tr, e.Allowed

/-- A node leaves the list and its bit the pending set. -/
theorem Listed.take {pending : BitVec 32} {before after : List Siginfo} {node : Siginfo}
    (listed : Listed pending (before ++ node :: after)) :
    Listed (pending &&& ~~~sigMask node.siSigno) (before ++ after) := by
  have nodup := listed.nodup
  simp only [List.map_append, List.map_cons] at nodup
  have split := List.nodup_middle.mp nodup
  obtain ⟨absent, rest⟩ := List.nodup_cons.mp split
  refine ⟨?_, by simpa only [List.map_append] using rest, ?_⟩
  · intro sig small
    rw [sigMask, mask_clear _ small]
    have here := listed.bits sig small
    simp only [List.map_append, List.map_cons, List.mem_append, List.mem_cons] at here absent ⊢
    by_cases same : sig = node.siSigno
    · subst same
      simpa using absent
    · simp only [Bool.and_eq_true, decide_eq_true_eq, here]
      tauto
  · intro other member
    apply listed.small other
    simp only [List.map_append, List.map_cons, List.mem_append, List.mem_cons] at member ⊢
    tauto

theorem Listed.append {pending : BitVec 32} {siList : List Siginfo}
    (listed : Listed pending siList) (node : Siginfo) (small : node.siSigno < 32)
    (absent : node.siSigno ∉ siList.map Siginfo.siSigno) :
    Listed (pending ||| sigMask node.siSigno) (siList ++ [node]) := by
  refine ⟨?_, ?_, ?_⟩
  · intro sig inside
    rw [sigMask, mask_or _ inside]
    simp only [List.map_append, List.map_cons, List.map_nil, List.mem_append, List.mem_singleton,
      Bool.or_eq_true, decide_eq_true_eq, listed.bits sig inside]
  · simp only [List.map_append, List.map_cons, List.map_nil]
    exact List.nodup_append.mpr ⟨listed.nodup, by simp, by
      intro a member b single
      rw [List.mem_singleton.mp single]
      rintro rfl
      exact absent member⟩
  · intro other member
    rw [List.map_append] at member
    rcases List.mem_append.mp member with old | new
    · exact listed.small other old
    · rw [List.mem_singleton.mp new]
      exact small

theorem updateInfo_some {si : Siginfo} {siList updated : List Siginfo}
    (found : updateInfo si siList = some updated) :
    updated.map Siginfo.siSigno = siList.map Siginfo.siSigno := by
  induction siList generalizing updated with
  | nil => cases found
  | cons node rest ih =>
    simp only [updateInfo] at found
    split at found
    · rename_i same
      cases found
      simp [same]
    · obtain ⟨tail, deeper, result⟩ := Option.map_eq_some_iff.mp found
      cases result
      simp [ih deeper]

theorem takeMatched_some {set : BitVec 32} {siList rest : List Siginfo} {node : Siginfo}
    (found : takeMatched set siList = some (node, rest)) : sigMask node.siSigno &&& set ≠ 0 ∧
      ∃ before after, siList = before ++ node :: after ∧ rest = before ++ after := by
  induction siList generalizing rest with
  | nil => cases found
  | cons first others ih =>
    simp only [takeMatched] at found
    split at found
    · rename_i inside
      cases found
      exact ⟨inside, [], _, rfl, rfl⟩
    · obtain ⟨⟨taken, left⟩, deeper, result⟩ := Option.map_eq_some_iff.mp found
      cases result
      obtain ⟨inside, before, after, rfl, rfl⟩ := ih deeper
      exact ⟨inside, first :: before, after, rfl, rfl⟩

theorem start_inv (start : Start s) : Inv [] s := by
  refine ⟨?_, ?_, by simp⟩
  · rw [start.pending, start.list]
    exact ⟨by simp, by simp, by simp⟩
  · intro c sig emits
    rw [start.emitting c] at emits
    cases emits

theorem Inv.quiet (inv : Inv tr s) (listed : Listed s'.sigPending s'.siList)
    (emitting : s'.emitting = s.emitting) (allowed : ∀ e ∈ es, e.Allowed) : Inv (tr ++ es) s' := by
  refine ⟨listed, by rw [emitting]; exact inv.emitting, ?_⟩
  intro e shown
  rcases List.mem_append.mp shown with old | new
  · exact inv.called e old
  · exact allowed e new

theorem kill_inv {c : Nat} {sig : Int} (inv : Inv tr s) (taken : rtThreadKill s c sig = some (s', es)) :
    Inv (tr ++ es) s' := by
  simp only [rtThreadKill] at taken
  split at taken
  · contradiction
  · split at taken
    · cases taken
      exact inv.quiet inv.listed rfl (by simp [Event.Allowed])
    · rename_i valid
      split at taken
      · rename_i siList updated
        cases taken
        split at updated
        · have same := updateInfo_some updated
          refine inv.quiet ⟨?_, ?_, ?_⟩ rfl (by simp [Event.Allowed])
          · exact fun other small => by rw [same]; exact inv.listed.bits other small
          · rw [same]; exact inv.listed.nodup
          · rw [same]; exact inv.listed.small
        · cases updated
      · cases taken
        rw [List.append_nil]
        refine ⟨inv.listed, ?_, inv.called⟩
        intro d other emits
        by_cases here : d = c
        · subst here
          have bounds : 0 ≤ sig ∧ sig < 32 := by
            simp only [Bool.not_eq_true, Bool.not_eq_false', sigValid, rtSigMax] at valid
            exact of_decide_eq_true valid
          simp only [Function.update_self] at emits
          cases emits
          omega
        · exact inv.emitting d other (by simpa [here] using emits)

theorem append_inv {c : Nat} {allocated : Bool} (inv : Inv tr s) (guard : Guard t s (.append c allocated))
    (taken : killAppend s c allocated = some (s', es)) : Inv (tr ++ es) s' := by
  obtain ⟨sig, emits, result⟩ := Option.map_eq_some_iff.mp taken
  cases result
  have rest : ∀ d other, Function.update s.emitting c none d = some other → other < 32 := by
    intro d other still
    by_cases here : d = c
    · subst here
      simp at still
    · exact inv.emitting d other (by simpa [here] using still)
  have shown : ∀ e ∈ tr ++ [Event.killed c .eok], e.Allowed := by
    intro e member
    rcases List.mem_append.mp member with old | new
    · exact inv.called e old
    · rw [List.mem_singleton.mp new]
      trivial
  cases allocated with
  | false => exact ⟨inv.listed, rest, shown⟩
  | true =>
    have listed := inv.listed.append ⟨sig, siUser, 0⟩ (inv.emitting c sig emits)
      (guard rfl sig emits)
    exact ⟨listed, rest, shown⟩

theorem waitDone_inv {set : BitVec 32} (inv : Inv tr s) (taken : waitDone s set = (s', es)) :
    Inv (tr ++ es) s' := by
  simp only [waitDone] at taken
  split at taken
  · rename_i node rest found
    cases taken
    obtain ⟨-, before, after, whole, rfl⟩ := takeMatched_some found
    have listed := inv.listed
    rw [whole] at listed
    exact inv.quiet listed.take rfl (by simp [Event.Allowed])
  · cases taken
    exact inv.quiet inv.listed rfl (by simp [Event.Allowed])

theorem wait_inv {set : BitVec 32} {siNull : Bool} {timeout : Int} (inv : Inv tr s)
    (taken : rtSignalWait t s set siNull timeout = some (s', es)) : Inv (tr ++ es) s' := by
  simp only [rtSignalWait] at taken
  split at taken
  · contradiction
  · split at taken
    · cases taken
      exact inv.quiet inv.listed rfl (by simp [Event.Allowed])
    · split at taken
      · exact waitDone_inv inv (Option.some.inj taken)
      · split at taken
        · cases taken
          exact inv.quiet inv.listed rfl (by simp [Event.Allowed])
        · obtain ⟨k, _, result⟩ := Option.map_eq_some_iff.mp taken
          cases result
          exact inv.quiet inv.listed rfl (by simp)

theorem waitEnd_inv (inv : Inv tr s) (taken : waitEnd t s = some (s', es)) : Inv (tr ++ es) s' := by
  simp only [waitEnd] at taken
  split at taken
  · contradiction
  · obtain ⟨set, _, result⟩ := Option.map_eq_some_iff.mp taken
    split at result
    · cases result
      exact inv.quiet inv.listed rfl (by simp [Event.Allowed])
    · have woken : Inv tr (setStat t { s with waiting := none } (· &&& ~~~rtThreadStatSignalWait)) :=
        ⟨inv.listed, inv.emitting, inv.called⟩
      exact waitDone_inv woken result

theorem deliver_listed (s : State) (self : Bool) :
    (signalDeliver t s self).sigPending = s.sigPending ∧ (signalDeliver t s self).siList = s.siList ∧
      (signalDeliver t s self).emitting = s.emitting := by
  simp only [signalDeliver]
  split
  · exact ⟨rfl, rfl, rfl⟩
  · split
    · exact ⟨rfl, rfl, rfl⟩
    · split
      · exact ⟨rfl, rfl, rfl⟩
      · split <;> exact ⟨rfl, rfl, rfl⟩

theorem round_listed {cleanState : Bool} (listed : Listed s.sigPending s.siList)
    (taken : handleRound t s cleanState = (s', es)) :
    Listed s'.sigPending s'.siList ∧ s'.emitting = s.emitting ∧ s'.waiting = s.waiting := by
  simp only [handleRound] at taken
  split at taken
  · cases taken
    exact ⟨listed, rfl, rfl⟩
  · rename_i node rest found
    cases taken
    split at found
    · rw [found] at listed
      have rest_listed : Listed _ ([] ++ rest) := Listed.take listed
      exact ⟨rest_listed, rfl, rfl⟩
    · cases found

theorem round_called {cleanState : Bool} (listed : Listed s.sigPending s.siList) (guard : HeadUnmasked s)
    (taken : handleRound t s cleanState = (s', es)) : ∀ e ∈ es, e.Allowed := by
  simp only [handleRound] at taken
  split at taken
  · cases taken
    simp
  · rename_i node rest found
    cases taken
    split at found
    · rename_i due
      intro e shown
      split at shown
      · rename_i handler
        rw [List.mem_singleton.mp shown]
        have first : s.siList.head? = some node := by rw [found]; rfl
        rw [found] at listed
        refine ⟨?_, guard due node first handler⟩
        exact (listed.bits _ (listed.small _ (by simp))).mpr (by simp)
      · cases shown
    · cases found

theorem round_inv {cleanState : Bool} (inv : Inv tr s) (guard : HeadUnmasked s)
    (taken : handleRound t s cleanState = (s', es)) : Inv (tr ++ es) s' := by
  obtain ⟨listed, emitting, -⟩ := round_listed inv.listed taken
  exact inv.quiet listed emitting (round_called inv.listed guard taken)

theorem handle_inv {cleanState : Bool} (inv : Inv tr s) (guard : Guard t s (.handle cleanState))
    (taken : rtThreadHandleSig t s cleanState = (s', es)) : Inv (tr ++ es) s' := by
  simp only [rtThreadHandleSig] at taken
  split at taken
  · cases taken
    refine inv.quiet ?_ ?_ (by simp)
    · split <;> exact inv.listed
    · split <;> rfl
  · rename_i entered
    simp only [not_or, not_not] at entered
    exact round_inv inv (guard entered.2) taken

theorem return_inv (inv : Inv tr s) (guard : HeadUnmasked s) (taken : handlerReturn t s = some (s', es)) :
    Inv (tr ++ es) s' := by
  simp only [handlerReturn] at taken
  split at taken
  · contradiction
  · split at taken
    · contradiction
    · rename_i cleanState frames _
      have back : Inv tr { s with
          kernel := s.kernel.modify t (fun th => { th with error := .eintr }), frames := frames } :=
        ⟨inv.listed, inv.emitting, inv.called⟩
      exact round_inv back guard (Option.some.inj taken)

theorem step_inv (inv : Inv tr s) (guard : Guard t s a) (taken : step t s a = some (s', es)) :
    Inv (tr ++ es) s' := by
  cases a with
  | kill c sig => exact kill_inv inv taken
  | append c allocated => exact append_inv inv guard taken
  | deliver self =>
    cases taken
    obtain ⟨pending, siList, emitting⟩ := deliver_listed (t := t) s self
    refine inv.quiet ?_ emitting (by simp)
    rw [pending, siList]
    exact inv.listed
  | mask signo | unmask signo =>
    cases taken
    exact inv.quiet inv.listed rfl (by simp)
  | install signo handler =>
    cases taken
    simp only [rtSignalInstall]
    split <;> exact inv.quiet inv.listed rfl (by simp)
  | wait set siNull timeout => exact wait_inv inv taken
  | expire =>
    obtain ⟨k, _, result⟩ := Option.map_eq_some_iff.mp taken
    cases result
    exact inv.quiet inv.listed rfl (by simp)
  | waitEnd => exact waitEnd_inv inv taken
  | handle cleanState => exact handle_inv inv guard (Option.some.inj taken)
  | handled => exact return_inv inv guard taken

theorem run_inv (run : RunWhere (machine t) (Guard t) tr s) : Inv tr s := by
  apply RunWhere.invariant (I := Inv) (fun _ start => start_inv start) ?_ run
  intro tr s a s' es _ inv guard taken
  exact step_inv inv guard taken

/-- The bookkeeping of the signals of `t` after the history `tr`. -/
structure Kept (tr : List Event) (s : State) : Prop where
  pending : ∀ sig, sig < rtSigMax →
    (s.sigPending.getLsbD sig = true ↔ ∃ node ∈ s.siList, node.siSigno = sig)
  once : (s.siList.map Siginfo.siSigno).Nodup
  called : ∀ signo pending mask, .called signo pending mask ∈ tr →
    pending.getLsbD signo = true ∧ mask.getLsbD signo = true

theorem signals_kept (run : RunWhere (machine t) (Guard t) tr s) : Kept tr s := by
  have inv := run_inv run
  refine ⟨?_, inv.listed.nodup, fun _ _ _ shown => inv.called _ shown⟩
  intro sig small
  rw [inv.listed.bits sig small, List.mem_map]

/-- Without the guard the append makes a second node for the signal, of one pending bit. -/
theorem append_twice {c sig : Nat} (emits : s.emitting c = some sig)
    (listed : sig ∈ s.siList.map Siginfo.siSigno) (taken : step t s (.append c true) = some (s', es)) :
    ¬Kept tr s' := by
  intro kept
  have appended : s'.siList = s.siList ++ [⟨sig, siUser, 0⟩] := by
    simp only [step, killAppend, emits, if_true, Option.map_some, Option.some.injEq] at taken
    cases taken
    rfl
  have nodup := kept.once
  rw [appended, List.map_append] at nodup
  exact (List.nodup_append.mp nodup).2.2 sig listed sig (by simp) rfl

def startState : State :=
  ⟨startedThreads (fun _ => 10) 2, 0, 0, [], fun _ => true, none, [], fun _ => none⟩

theorem startState_start : Start startState := ⟨rfl, rfl, fun _ => rfl⟩

def headChecked (s : State) : Bool := s.siList.head?.all (fun node => s.sigMask.getLsbD node.siSigno)

def guardChecked (s : State) : Action → Bool
  | .append c _ => (s.emitting c).all (fun sig => decide (sig ∉ s.siList.map Siginfo.siSigno))
  | .handle _ | .handled => headChecked s
  | _ => true

theorem headChecked_sound (checked : headChecked s = true) : HeadUnmasked s := by
  intro _ node first _
  simpa [headChecked, first] using checked

theorem guardChecked_sound (s : State) (a : Action) (checked : guardChecked s a = true) : Guard t s a := by
  cases a with
  | append c allocated =>
    intro _ sig emits
    simpa [guardChecked, emits] using checked
  | handle cleanState => exact fun _ => headChecked_sound checked
  | handled => exact headChecked_sound checked
  | _ => trivial

def keptTrace : List Event :=
  [.killed 0 .eok, .killed 1 .eok, .called 5 (1#32 <<< 5) (1#32 <<< 5), .killed 0 .eok,
    .waited .eok (some ⟨7, siUser, 0⟩)]

/-- Signal 5 comes twice and is handled once, signal 7 comes to the rt_signal_wait for it. -/
theorem signals_kept_both : ∃ s, Kept keptTrace s ∧ s.siList = [] := by
  obtain ⟨s, run, empty⟩ := Run.shows (M := (machine 1).restrict guardChecked) (s := startState)
    startState_start
    [.unmask 5, .kill 0 5, .append 0 true, .kill 1 5, .deliver false, .handle false, .handled,
      .wait (1#32 <<< 7) false (-1), .unmask 7, .kill 0 7, .append 0 true, .deliver false, .waitEnd]
    keptTrace (fun s => decide (s.siList = [])) (by decide +kernel)
  have guarded : RunWhere (machine 1) (Guard 1) keptTrace s :=
    RunWhere.ofRestrict (fun _ s a _ => guardChecked_sound s a) run
  exact ⟨s, signals_kept guarded, of_decide_eq_true empty⟩

def twiceTrace : List Event :=
  [.killed 0 .eok, .killed 1 .eok, .called 5 (1#32 <<< 5) (1#32 <<< 5)]

def maskedTrace : List Event :=
  [.killed 0 .eok, .killed 0 .eok, .called 3 (1#32 <<< 3 ||| 1#32 <<< 4) (1#32 <<< 4)]

/-- Two callers send signal 5 and it is handled: one node stays, without its bit. And with signals 3
and 4 pending, signal 4 unmasked, the handler of signal 3 is called. -/
theorem signals_not_kept :
    (∃ s, Run (machine 1) twiceTrace s ∧ ¬Kept twiceTrace s) ∧
    (∃ s, Run (machine 1) maskedTrace s ∧ ¬Kept maskedTrace s) := by
  constructor
  · obtain ⟨s, run, found⟩ := Run.shows (M := machine 1) (s := startState) startState_start
      [.unmask 5, .kill 0 5, .kill 1 5, .append 0 true, .append 1 true, .deliver false, .handle false]
      twiceTrace (fun s => decide (s.sigPending = 0) && decide (s.siList = [⟨5, siUser, 0⟩]))
      (by decide +kernel)
    simp only [Bool.and_eq_true, decide_eq_true_eq] at found
    refine ⟨s, run, fun kept => ?_⟩
    have bit := (kept.pending 5 (by decide)).mpr ⟨⟨5, siUser, 0⟩, by simp [found.2], rfl⟩
    rw [found.1] at bit
    cases bit
  · obtain ⟨s, run, _⟩ := Run.shows (M := machine 1) (s := startState) startState_start
      [.unmask 4, .kill 0 3, .append 0 true, .kill 0 4, .append 0 true, .deliver false, .handle false]
      maskedTrace (fun _ => true) (by decide +kernel)
    refine ⟨s, run, fun kept => ?_⟩
    have unmasked := (kept.called 3 (1#32 <<< 3 ||| 1#32 <<< 4) (1#32 <<< 4) (by decide)).2
    exact absurd unmasked (by decide)

end RtThread.Signal
