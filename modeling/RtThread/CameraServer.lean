import RtThread.Camera
import RtThread.Run

/-! The two loops of eth_camera_server_thread (eth_camera.c) over any results of
netconn_accept, of the capture and of netconn_write. A step is the return of one of these
calls with what the thread does up to the next one, so that in a state the thread is
inside one of them. Delays, log output and the peer's address are left out. -/
namespace RtThread.CameraServer
open Transition EthCamera

/-- The codes of lwIP's err_t. -/
inductive ErrT where
  | ok | mem | buf | timeout | rte | inprogress | val | wouldblock | use | already | isconn | conn
  | interface | abrt | rst | clsd | arg
  deriving DecidableEq

/-- A connection for which netconn_write has returned this is dead. -/
def ErrT.dead : ErrT → Bool
  | .abrt | .rst | .clsd | .conn => true
  | _ => false

def atkMc2640Eok : UInt8 := 0

/-- The call the thread is in. -/
inductive Place where
  | accept
  | capture
  | write (frame : List UInt8)
  deriving DecidableEq

/-- Connections are numbered in the order in which they are accepted. `gone`: lwIP has given
up the connection `client`. -/
structure State where
  newconn : Option Nat
  client : Nat
  place : Place
  accepted : Nat
  gone : Bool

inductive Action where
  | accept (err : ErrT)
  | capture (ret : UInt8) (jpegBuf : Nat → UInt8)
  | write (err : ErrT)

inductive Event where
  | newconn (c : Option Nat)
  | wrote (c : Nat) (err : ErrT)
  | closed (c : Nat)
  | deleted (c : Nat)
  deriving DecidableEq

def acceptReturn (s : State) (err : ErrT) : Option (State × List Event) :=
  if s.place = .accept then
    if err ≠ .ok then some (s, [])
    else
      some (⟨some s.accepted, s.accepted, .capture, s.accepted + 1, false⟩, [.newconn (some s.accepted)])
  else none

def captureReturn (s : State) (ret : UInt8) (jpegBuf : Nat → UInt8) : Option (State × List Event) :=
  if s.place = .capture then
    if ret ≠ atkMc2640Eok then some (s, [])
    else
      match sentFrame jpegBuf with
      | none => some (s, [])
      | some frame => some ({ s with place := .write frame }, [])
  else none

/-- Writes on a connection that has been given up report this again. -/
def writeReturn (s : State) (err : ErrT) : Option (State × List Event) :=
  match s.place with
  | .write _ =>
    if s.gone = true ∧ err.dead = false then none
    else
      let s := { s with gone := s.gone || err.dead }
      if err = .clsd ∨ err = .rst then
        some ({ s with newconn := none, place := .accept },
          [.wrote s.client err, .closed s.client, .deleted s.client, .newconn none])
      else some ({ s with place := .capture }, [.wrote s.client err])
  | _ => none

def step (s : State) : Action → Option (State × List Event)
  | .accept err => acceptReturn s err
  | .capture ret jpegBuf => captureReturn s ret jpegBuf
  | .write err => writeReturn s err

def Start (s : State) : Prop := s.newconn = none ∧ s.place = .accept

def machine : Machine State Action Event where
  start := Start
  step := step

def ethCameraIsStreaming (s : State) : Bool := s.newconn ≠ none

def KnownDead (tr : List Event) (c : Nat) : Prop := ∃ err, err.dead = true ∧ .wrote c err ∈ tr

/-- After a write that reports a dead connection this one is closed and deleted once, and
g_newconn is cleared. -/
def Dropped (tr : List Event) : Prop :=
  ∀ before after c err, tr = before ++ .wrote c err :: after → err.dead = true →
    after.count (.closed c) = 1 ∧ after.count (.deleted c) = 1 ∧ .newconn none ∈ after

structure Recovers (tr : List Event) (s : State) : Prop where
  dropped : Dropped tr
  streaming : ethCameraIsStreaming s = true →
    s.newconn = some s.client ∧ s.place ≠ .accept ∧ ¬ KnownDead tr s.client

/-- The write does not end with one of the two codes that the thread only logs. -/
def Classified (_ : State) : Action → Prop
  | .write err => err ≠ .abrt ∧ err ≠ .conn
  | _ => True

def Untouched (tr : List Event) (c : Nat) : Prop :=
  .closed c ∉ tr ∧ .deleted c ∉ tr ∧ ∀ err, .wrote c err ∉ tr

structure Inv (tr : List Event) (s : State) : Prop where
  dropped : Dropped tr
  idle : s.place = .accept → s.newconn = none
  serving : s.place ≠ .accept → s.newconn = some s.client ∧ s.client < s.accepted ∧
    .closed s.client ∉ tr ∧ .deleted s.client ∉ tr ∧ ¬ KnownDead tr s.client
  later : ∀ c, s.accepted ≤ c → Untouched tr c

variable {tr es : List Event} {s s' : State} {c : Nat} {err : ErrT}

theorem knownDead_append : KnownDead (tr ++ es) c ↔ KnownDead tr c ∨ KnownDead es c := by
  simp only [KnownDead, List.mem_append]
  constructor
  · rintro ⟨err, dead, old | new⟩
    · exact Or.inl ⟨err, dead, old⟩
    · exact Or.inr ⟨err, dead, new⟩
  · rintro (⟨err, dead, here⟩ | ⟨err, dead, here⟩)
    · exact ⟨err, dead, Or.inl here⟩
    · exact ⟨err, dead, Or.inr here⟩

theorem Dropped.append (old : Dropped tr) (new : Dropped es)
    (kept : ∀ c, KnownDead tr c → .closed c ∉ es ∧ .deleted c ∉ es) : Dropped (tr ++ es) := by
  intro before after c err split dead
  rcases List.append_eq_append_iff.mp split with ⟨front, _, inside⟩ | ⟨rest, begins, ends⟩
  · exact new front after c err inside dead
  · cases rest with
    | nil => exact new [] after c err ends.symm dead
    | cons first rest =>
      obtain ⟨same, more⟩ := List.cons.inj ends
      subst same
      have more : after = rest ++ es := more
      obtain ⟨close, delete, clear⟩ := old before rest c err begins dead
      have known : KnownDead tr c := ⟨err, dead, by simp [begins]⟩
      obtain ⟨noClose, noDelete⟩ := kept c known
      rw [more, List.count_append, List.count_append, List.count_eq_zero_of_not_mem noClose,
        List.count_eq_zero_of_not_mem noDelete]
      exact ⟨close, delete, List.mem_append_left es clear⟩

theorem dropped_of_live (live : ∀ c err, .wrote c err ∈ es → err.dead = false) : Dropped es := by
  intro before after c err split dead
  rw [live c err (by simp [split])] at dead
  cases dead

theorem dropped_close (c : Nat) (err : ErrT) :
    Dropped [.wrote c err, .closed c, .deleted c, .newconn none] := by
  intro before after c' err' split _
  cases before with
  | nil =>
    obtain ⟨same, rfl⟩ := List.cons.inj split
    cases same
    simp
  | cons first before =>
    have here : Event.wrote c' err' ∈ [Event.closed c, .deleted c, .newconn none] := by
      rw [(List.cons.inj split).2]
      simp
    simp at here

theorem start_inv (start : Start s) : Inv [] s := by
  refine ⟨dropped_of_live (by simp), fun _ => start.1, fun serving => absurd start.2 serving, ?_⟩
  intro c _
  simp [Untouched]

theorem Untouched.append (old : Untouched tr c) (new : Untouched es c) : Untouched (tr ++ es) c := by
  simp only [Untouched, List.mem_append, not_or]
  exact ⟨⟨old.1, new.1⟩, ⟨old.2.1, new.2.1⟩, fun err => ⟨old.2.2 err, new.2.2 err⟩⟩

theorem Untouched.live (away : Untouched tr c) : ¬ KnownDead tr c := by
  rintro ⟨err, _, here⟩
  exact away.2.2 err here

theorem accept_inv (inv : Inv tr s) (taken : acceptReturn s err = some (s', es)) : Inv (tr ++ es) s' := by
  simp only [acceptReturn] at taken
  split at taken
  · split at taken <;> cases Option.some.inj taken
    · simpa using inv
    · have fresh : Untouched tr s.accepted := inv.later s.accepted (Nat.le_refl _)
      refine ⟨inv.dropped.append (dropped_of_live (by simp)) (by simp), by simp, ?_, ?_⟩
      · intro _
        have still : Untouched (tr ++ [.newconn (some s.accepted)]) s.accepted := fresh.append (by simp [Untouched])
        exact ⟨rfl, Nat.lt_succ_self _, still.1, still.2.1, still.live⟩
      · intro c beyond
        exact (inv.later c (by simp at beyond; lia)).append (by simp [Untouched])
  · cases taken

theorem capture_inv {ret : UInt8} {jpegBuf : Nat → UInt8} (inv : Inv tr s)
    (taken : captureReturn s ret jpegBuf = some (s', es)) : Inv (tr ++ es) s' := by
  simp only [captureReturn] at taken
  split at taken
  · rename_i place
    split at taken
    · cases Option.some.inj taken
      simpa using inv
    · split at taken <;> cases Option.some.inj taken
      · simpa using inv
      · rw [List.append_nil]
        exact ⟨inv.dropped, by simp, fun _ => inv.serving (by simp [place]), inv.later⟩
  · cases taken

theorem writeReturn_cases (taken : writeReturn s err = some (s', es)) :
    (∃ frame, s.place = .write frame) ∧
      ((err = .clsd ∨ err = .rst) ∧ s'.newconn = none ∧ s'.place = .accept ∧ s'.accepted = s.accepted ∧
          es = [.wrote s.client err, .closed s.client, .deleted s.client, .newconn none] ∨
        err ≠ .clsd ∧ err ≠ .rst ∧ s'.newconn = s.newconn ∧ s'.client = s.client ∧ s'.place = .capture ∧
          s'.accepted = s.accepted ∧ es = [.wrote s.client err]) := by
  simp only [writeReturn] at taken
  split at taken
  · rename_i frame place
    refine ⟨⟨frame, place⟩, ?_⟩
    split at taken
    · cases taken
    · split at taken <;> rename_i code <;> cases Option.some.inj taken
      · exact Or.inl ⟨code, rfl, rfl, rfl, rfl⟩
      · simp only [not_or] at code
        exact Or.inr ⟨code.1, code.2, rfl, rfl, rfl, rfl, rfl⟩
  · cases taken

theorem write_inv (inv : Inv tr s) (classified : err ≠ .abrt ∧ err ≠ .conn)
    (taken : writeReturn s err = some (s', es)) : Inv (tr ++ es) s' := by
  obtain ⟨⟨frame, place⟩, effect⟩ := writeReturn_cases taken
  obtain ⟨conn, older, open_, undeleted, live⟩ := inv.serving (by simp [place])
  rcases effect with ⟨_, cleared, back, count, rfl⟩ | ⟨notClsd, notRst, conn', client, back, count, rfl⟩
  · refine ⟨inv.dropped.append (dropped_close _ _) ?_, fun _ => cleared, fun serving => absurd back serving, ?_⟩
    · intro c known
      have other : c ≠ s.client := by
        rintro rfl
        exact live known
      simp [other]
    · intro c beyond
      have other : c ≠ s.client := by lia
      exact (inv.later c (by lia)).append (by simp [Untouched, other])
  · have isLive : err.dead = false := by
      cases err <;> simp_all [ErrT.dead]
    refine ⟨inv.dropped.append (dropped_of_live ?_) (by simp), by simp [back], ?_, ?_⟩
    · intro c err' here
      simp only [List.mem_singleton, Event.wrote.injEq] at here
      rw [here.2, isLive]
    · intro _
      rw [client, conn', count, knownDead_append]
      refine ⟨conn, older, by simp [open_], by simp [undeleted], ?_⟩
      rintro (old | ⟨err', dead, here⟩)
      · exact live old
      · simp only [List.mem_singleton, Event.wrote.injEq] at here
        rw [here.2, isLive] at dead
        cases dead
    · intro c beyond
      have other : c ≠ s.client := by lia
      exact (inv.later c (by lia)).append (by simp [Untouched, other])

theorem step_inv {a : Action} (inv : Inv tr s) (classified : Classified s a)
    (taken : step s a = some (s', es)) : Inv (tr ++ es) s' := by
  cases a with
  | accept err => exact accept_inv inv taken
  | capture ret jpegBuf => exact capture_inv inv taken
  | write err => exact write_inv inv classified taken

theorem Inv.recovers (inv : Inv tr s) : Recovers tr s := by
  refine ⟨inv.dropped, fun streaming => ?_⟩
  have serving : s.place ≠ .accept := by
    intro idle
    simp [ethCameraIsStreaming, inv.idle idle] at streaming
  obtain ⟨conn, _, _, _, live⟩ := inv.serving serving
  exact ⟨conn, serving, live⟩

theorem unclassified_kept (dead : err.dead = true) (notClsd : err ≠ .clsd) (notRst : err ≠ .rst)
    (taken : writeReturn s err = some (s', es)) : ¬ Recovers (tr ++ es) s' := by
  obtain ⟨_, ⟨clsd | rst, _⟩ | ⟨_, _, _, _, _, _, rfl⟩⟩ := writeReturn_cases taken
  · exact absurd clsd notClsd
  · exact absurd rst notRst
  · intro recovers
    have dropped := recovers.dropped tr [] s.client err rfl dead
    simp at dropped

/-- Where every write ends with a code the thread tells apart, no dead connection is kept;
the next step keeps this up exactly if it ends with such a code. -/
theorem camera_recovers (run : RunWhere machine Classified tr s) : Recovers tr s ∧
    ∀ a s' es, step s a = some (s', es) → (Recovers (tr ++ es) s' ↔ Classified s a) := by
  have inv : Inv tr s := run.invariant (fun _ => start_inv)
    (fun _ _ _ _ _ _ inv classified taken => step_inv inv classified taken)
  refine ⟨inv.recovers, ?_⟩
  intro a s' es taken
  refine ⟨fun recovers => ?_, fun classified => (step_inv inv classified taken).recovers⟩
  cases a with
  | accept err => trivial
  | capture ret jpegBuf => trivial
  | write err =>
    constructor
    · rintro rfl
      exact unclassified_kept rfl (by simp) (by simp) taken recovers
    · rintro rfl
      exact unclassified_kept rfl (by simp) (by simp) taken recovers

/-- A frame is sent, the next write is reset, and the thread is back in netconn_accept. -/
theorem camera_recovers_reset : ∃ tr s, Recovers tr s ∧ ethCameraIsStreaming s = false ∧
    .wrote 0 .rst ∈ tr ∧ .closed 0 ∈ tr := by
  have frame := smallCapture_sent
  have start : RunWhere machine Classified [] ⟨none, 0, .accept, 0, false⟩ := .start ⟨rfl, rfl⟩
  have accepted := start.step (a := Action.accept .ok) trivial rfl
  have captured := accepted.step (a := Action.capture 0 (smallCapture 98)) trivial
    (by simp only [machine, step, captureReturn, frame]; rfl)
  have wrote := captured.step (a := Action.write .ok) (by simp [Classified]) rfl
  have again := wrote.step (a := Action.capture 0 (smallCapture 98)) trivial
    (by simp only [machine, step, captureReturn, frame]; rfl)
  have reset := again.step (a := Action.write .rst) (by simp [Classified]) rfl
  exact ⟨_, _, (camera_recovers reset).1, rfl, by simp, by simp⟩

/-- The connection is aborted: it is neither closed nor deleted, and still counts as served. -/
theorem camera_aborted_kept : ¬ ∀ tr s, Run machine tr s → Recovers tr s := by
  intro recovers
  have start : Run machine [] ⟨none, 0, .accept, 0, false⟩ := .start ⟨rfl, rfl⟩
  have accepted := start.step (a := Action.accept .ok) rfl
  have captured := accepted.step (a := Action.capture 0 (smallCapture 98))
    (by simp only [machine, step, captureReturn, smallCapture_sent]; rfl)
  have aborted := captured.step (a := Action.write .abrt) rfl
  have live := ((recovers _ _ aborted).streaming rfl).2.2
  exact live ⟨.abrt, rfl, by simp⟩

end RtThread.CameraServer
