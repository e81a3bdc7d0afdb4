import RtThread.Semaphore
import RtThread.SerialRx

/-! The parser of an AT client over its serial device in DMA mode: at_recv_readline with
at_client_getchar, and at_client_rx_ind at each RX_DMADONE. -/
namespace RtThread.AtClient
open Transition SerialRx

/-- Where the parser is in at_client_getchar: before rt_sem_take, inside of it, or before
rt_device_read. -/
inductive Parser where
  | taking
  | waiting
  | reading
  deriving DecidableEq

/-- The settings of a client: the size of the line buffer, the end sign, and the prefixes and
suffixes of its URC tables. -/
structure Config where
  bufsz : Nat
  recvBufsz : Nat
  endSign : UInt8
  urcTable : List (List UInt8 × List UInt8)

/-- recv_line_buf and the variables of at_recv_readline. -/
structure Line where
  buf : List UInt8
  ch : UInt8
  lastCh : UInt8
  isFull : Bool

structure State where
  fifo : RxFifo
  rxNotice : Semaphore.State
  parser : Parser
  line : Line

inductive Event where
  | burst (data : List UInt8)
  | line (buf : List UInt8)
  | lineFull
  deriving DecidableEq

inductive Action where
  | burst (data : List UInt8)
  | take
  | wake
  | read

def emptyLine : Line := ⟨[], 0, 0, false⟩

def carriageReturn : UInt8 := 13
def newline : UInt8 := 10

/-- Whether get_urc_obj finds a URC. -/
def isUrc (cfg : Config) (buf : List UInt8) : Bool :=
  cfg.urcTable.any (fun urc =>
    decide (urc.1.length + urc.2.length ≤ buf.length) && urc.1.isPrefixOf buf && urc.2.isSuffixOf buf)

/-- A turn of at_recv_readline, after at_client_getchar: the line goes on or is complete. -/
def Line.next (cfg : Config) (l : Line) : Line × List Event :=
  let l := if l.buf.length < cfg.recvBufsz then { l with buf := l.buf ++ [l.ch] } else { l with isFull := true }
  if (l.ch = newline ∧ l.lastCh = carriageReturn) ∨ (cfg.endSign ≠ 0 ∧ l.ch = cfg.endSign) ∨
      isUrc cfg l.buf then
    (emptyLine, if l.isFull then [.lineFull] else [.line l.buf])
  else ({ l with lastCh := l.ch }, [])

/-- at_client_getchar has returned. -/
def State.gotChar (cfg : Config) (s : State) (ch : UInt8) : State × List Event :=
  let (line, events) := Line.next cfg { s.line with ch := ch }
  ({ s with parser := .taking, line := line }, events)

def atClientRxInd (s : State) (size : Nat) : State :=
  if 0 < size then { s with rxNotice := (Semaphore.rtSemRelease s.rxNotice).1 } else s

def receive (cfg : Config) (s : State) (data : List UInt8) : Option (State × List Event) :=
  if 1 ≤ data.length ∧ data.length ≤ cfg.bufsz then
    let written := { s.fifo with buffer := dmaWrite cfg.bufsz s.fifo.buffer s.fifo.putIndex data }
    let (fifo, indicated) := rtHwSerialIsr cfg.bufsz written (data.length * 2 ^ 8 + 3)
    some (atClientRxInd { s with fifo := fifo } indicated, [.burst data])
  else none

/-- RT_WAITING_FOREVER is -1. -/
def getcharTake (th : Tid) (s : State) : Option State :=
  match s.parser with
  | .taking => (Semaphore.rtSemTake s.rxNotice th (-1)).map (fun r =>
      { s with rxNotice := r.1, parser := if r.1.waiting th then .waiting else .reading })
  | _ => none

/-- at_recv_readline does not look at the result of at_client_getchar. -/
def getcharWake (cfg : Config) (th : Tid) (s : State) : Option (State × List Event) :=
  match s.parser with
  | .waiting => (Semaphore.takeReturn s.rxNotice th).map (fun r =>
      let s := { s with rxNotice := r.1 }
      if r.2 = [.returned th .eok] then ({ s with parser := .reading }, []) else s.gotChar cfg s.line.ch)
  | _ => none

def getcharRead (cfg : Config) (s : State) : Option (State × List Event) :=
  match s.parser with
  | .reading => (serialDmaRx cfg.bufsz s.fifo 1).map (fun r =>
      let s := { s with fifo := r.1 }
      match r.2 with
      | [ch] => s.gotChar cfg ch
      | _ => ({ s with parser := .taking }, []))
  | _ => none

def step (cfg : Config) (th : Tid) (s : State) : Action → Option (State × List Event)
  | .burst data => receive cfg s data
  | .take => (getcharTake th s).map (fun s => (s, []))
  | .wake => getcharWake cfg th s
  | .read => getcharRead cfg s

/-- After at_client_init, with nothing received. -/
structure Start (s : State) : Prop where
  fifo : s.fifo = openFifo
  notice : Semaphore.Start 0 s.rxNotice
  parser : s.parser = .taking

def machine (cfg : Config) (th : Tid) : Machine State Action Event where
  start := Start
  step := step cfg th

def Blocked (th : Tid) (s : State) : Prop :=
  s.parser = .waiting ∧ (s.rxNotice.kernel.thread th).stat = .suspend ∧ s.rxNotice.value = 0

/-- The notices that have not been used for a read yet, one of them maybe taken already. -/
def notices (th : Tid) (s : State) : Nat :=
  s.rxNotice.value +
    if s.parser = .reading ∨ (s.parser = .waiting ∧ (s.rxNotice.kernel.thread th).stat = .ready) then 1 else 0

def unread (cfg : Config) (s : State) : Nat := rtDmaCalcRecvedLen cfg.bufsz s.fifo

/-- With its notice, a burst leaves no more bytes unread than there are notices. -/
def Guard (cfg : Config) (th : Tid) (s : State) (a : Action) : Prop :=
  ∀ data, a = .burst data → min (unread cfg s + data.length) cfg.bufsz ≤ notices th s + 1

structure Inv (cfg : Config) (th : Tid) (s : State) : Prop where
  fifo : ∃ q, Holds cfg.bufsz s.fifo q
  notice : ∃ tr, Semaphore.Inv 0 tr s.rxNotice
  waits : ∀ t, s.rxNotice.waiting t = true ↔ t = th ∧ s.parser = .waiting
  clean : s.parser = .waiting → (s.rxNotice.kernel.thread th).error = .eok
  noticed : unread cfg s ≤ notices th s

section Steps
variable {cfg : Config} {th : Tid} {s s' : State} {es : List Event}

theorem inv_start (some_slots : 1 ≤ cfg.bufsz) (start : Start s) : Inv cfg th s := by
  have holds : Holds cfg.bufsz s.fifo [] := start.fifo ▸ openFifo_holds some_slots
  refine ⟨⟨[], holds⟩, ⟨[], Semaphore.start_inv start.notice⟩, ?_, ?_, ?_⟩
  · intro t
    simp [start.notice.idle, start.parser]
  · intro waiting
    rw [start.parser] at waiting
    contradiction
  · rw [unread, holds.recvedLen]
    exact Nat.zero_le _

theorem release_notices {notice : Semaphore.State} {ses : List Semaphore.Event} (inv : Inv cfg th s)
    (released : Semaphore.rtSemRelease s.rxNotice = (notice, ses)) :
    (∀ t, notice.waiting t = s.rxNotice.waiting t) ∧
    (s.parser = .waiting → (notice.kernel.thread th).error = .eok) ∧
    (notices th { s with rxNotice := notice } = notices th s + 1 ∨
      Semaphore.rtSemValueMax ≤ notices th { s with rxNotice := notice }) := by
  obtain ⟨tr, sound⟩ := inv.notice
  rcases Semaphore.release_cases sound released with
    ⟨w, rest, list, _, suspended, rfl⟩ | ⟨list, room, _, rfl⟩ | ⟨list, full, _, rfl⟩
  · have waits := ((sound.wait.listed w).mp (by simp [list])).1
    obtain ⟨rfl, waiting⟩ := (inv.waits w).mp waits
    refine ⟨fun _ => rfl, ?_, ?_⟩
    · intro _
      simp only [Kernel.resume_self suspended, Thread.awake]
      exact inv.clean waiting
    · left
      simp [notices, waiting, Kernel.resume_self suspended, Thread.awake, suspended]
  · refine ⟨fun _ => rfl, inv.clean, .inl ?_⟩
    simp only [notices]
    omega
  · refine ⟨fun _ => rfl, inv.clean, .inr ?_⟩
    simp only [notices]
    omega

theorem Inv.burst {data : List UInt8} (inv : Inv cfg th s) (small : cfg.bufsz < 2 ^ 15)
    (guard : Guard cfg th s (.burst data)) (taken : receive cfg s data = some (s', es)) : Inv cfg th s' := by
  simp only [receive] at taken
  split at taken
  · rename_i fits
    cases taken
    obtain ⟨q, holds⟩ := inv.fifo
    have length : (data.length * 2 ^ 8 + 3) / 2 ^ 8 = data.length := by omega
    have after := holds.transfer small fits.1 fits.2
    have enough := guard data rfl
    rw [unread, holds.recvedLen] at enough
    simp only [rtHwSerialIsr, length, after.recvedLen]
    have count : (q.drop (q.length + data.length - cfg.bufsz) ++ data).length =
        min (q.length + data.length) cfg.bufsz := by
      rw [List.length_append, List.length_drop]
      have := holds.fits
      omega
    have positive : 0 < (q.drop (q.length + data.length - cfg.bufsz) ++ data).length := by
      rw [List.length_append]
      omega
    rw [atClientRxInd, if_pos positive]
    obtain ⟨notice, ses, released⟩ : ∃ notice ses, Semaphore.rtSemRelease s.rxNotice = (notice, ses) :=
      ⟨_, _, rfl⟩
    obtain ⟨tr, sound⟩ := inv.notice
    obtain ⟨waiting, clean, more⟩ := release_notices inv released
    simp only [released]
    refine ⟨⟨_, after⟩, ⟨_, Semaphore.release_inv sound released⟩, ?_, clean, ?_⟩
    · intro t
      rw [waiting]
      exact inv.waits t
    · rw [unread, after.recvedLen, count]
      have most : Semaphore.rtSemValueMax = 65535 := rfl
      simp only [notices] at more enough ⊢
      omega
  · contradiction

theorem Inv.take (inv : Inv cfg th s) (taken : getcharTake th s = some s') : Inv cfg th s' := by
  simp only [getcharTake] at taken
  split at taken
  · rename_i taking
    obtain ⟨⟨notice, ses⟩, done, same⟩ := Option.map_eq_some_iff.mp taken
    cases same
    obtain ⟨tr, sound⟩ := inv.notice
    have idle (t : Tid) : s.rxNotice.waiting t = false := by
      have := inv.waits t
      simpa [taking] using this
    have noticed := inv.noticed
    simp only [notices, taking, reduceCtorEq, false_and, or_self, if_false, Nat.add_zero] at noticed
    rcases (Semaphore.take_cases done).2 with ⟨positive, rfl, _⟩ | ⟨rfl, _⟩ | ⟨zero, ready, _, k, started, rfl⟩
    · refine ⟨inv.fifo, ⟨_, Semaphore.take_inv sound done⟩, ?_, ?_, ?_⟩
      · simp [idle]
      · simp [idle]
      · show unread cfg s ≤ _
        simp only [notices, idle, Bool.false_eq_true, if_false, true_or, if_true]
        omega
    · refine ⟨inv.fifo, ⟨_, Semaphore.take_inv sound done⟩, ?_, ?_, ?_⟩
      · simp [idle]
      · simp [idle]
      · show unread cfg s ≤ _
        simp only [notices, idle, Bool.false_eq_true, if_false, true_or, if_true]
        omega
    · have after := Semaphore.take_inv sound done
      have parked := (sound.wait.blockTimed ready started).2.1
      have waits : Function.update s.rxNotice.waiting th true th = true := by simp
      refine ⟨inv.fifo, ⟨_, after⟩, ?_, ?_, ?_⟩
      · intro t
        by_cases here : t = th
        · simp [here]
        · simp [here, idle]
      · intro _
        exact after.wait.pending th ((after.wait.listed th).mpr ⟨waits, parked⟩)
      · show unread cfg s ≤ _
        omega
  · contradiction

theorem Inv.gotChar {fifo : RxFifo} {notice : Semaphore.State} (cfg' : Config) (ch : UInt8)
    (inv : Inv cfg th { s with fifo := fifo, rxNotice := notice, parser := .taking }) :
    Inv cfg th ({ s with fifo := fifo, rxNotice := notice }.gotChar cfg' ch).1 :=
  ⟨inv.fifo, inv.notice, inv.waits, inv.clean, inv.noticed⟩

theorem Inv.wake (inv : Inv cfg th s) (taken : getcharWake cfg th s = some (s', es)) : Inv cfg th s' := by
  simp only [getcharWake] at taken
  split at taken
  · rename_i waiting
    obtain ⟨⟨notice, ses⟩, done, same⟩ := Option.map_eq_some_iff.mp taken
    obtain ⟨tr, sound⟩ := inv.notice
    obtain ⟨_, ready, rfl, rfl⟩ := Semaphore.return_cases done
    simp only [inv.clean waiting, if_true] at same
    cases same
    have noticed := inv.noticed
    simp only [notices, waiting, ready, and_self, or_true, if_true] at noticed
    refine ⟨inv.fifo, ⟨_, Semaphore.return_inv sound done⟩, ?_, ?_, ?_⟩
    · intro t
      by_cases here : t = th
      · simp [here]
      · have other := inv.waits t
        simp only [here, false_and, iff_false] at other
        simp [here, other]
    · intro impossible
      contradiction
    · show unread cfg s ≤ _
      simp only [notices, true_or, if_true]
      exact noticed
  · contradiction

theorem Inv.read (inv : Inv cfg th s) (small : cfg.bufsz < 2 ^ 15)
    (taken : getcharRead cfg s = some (s', es)) : Inv cfg th s' := by
  simp only [getcharRead] at taken
  split at taken
  · rename_i reading
    obtain ⟨q, holds⟩ := inv.fifo
    obtain ⟨fifo, done, left⟩ := holds.dmaRx small (n := 1) (by decide)
    have noticed := inv.noticed
    simp only [unread, holds.recvedLen, notices, reading, true_or, if_true] at noticed
    have idle (t : Tid) : s.rxNotice.waiting t = true ↔ t = th ∧ Parser.taking = .waiting := by
      have := inv.waits t
      simpa [reading] using this
    have after : Inv cfg th { s with fifo := fifo, parser := .taking } := by
      refine ⟨⟨_, left⟩, inv.notice, idle, nofun, ?_⟩
      rw [unread, left.recvedLen, List.length_drop]
      simp only [notices]
      omega
    rw [show ((1 : Nat) : Int) = 1 from rfl] at done
    rw [done] at taken
    cases q with
    | nil =>
      cases Option.some.inj taken
      exact after
    | cons ch rest =>
      have got := after.gotChar cfg ch
      have same := congrArg Prod.fst (Option.some.inj taken)
      rwa [show s' = _ from same.symm]
  · contradiction

theorem inv_step {a : Action} (inv : Inv cfg th s) (small : cfg.bufsz < 2 ^ 15) (guard : Guard cfg th s a)
    (taken : (machine cfg th).step s a = some (s', es)) : Inv cfg th s' := by
  cases a with
  | burst data => exact inv.burst small guard taken
  | take =>
    obtain ⟨after, done, same⟩ := Option.map_eq_some_iff.mp taken
    cases same
    exact inv.take done
  | wake => exact inv.wake taken
  | read => exact inv.read small taken

/-- As long as no burst brings more bytes than there are notices for, the parser is blocked
only when it has read all that was received. -/
theorem blocked_drained {tr : List Event} (some_slots : 1 ≤ cfg.bufsz) (small : cfg.bufsz < 2 ^ 15)
    (run : RunWhere (machine cfg th) (Guard cfg th) tr s) (blocked : Blocked th s) : unread cfg s = 0 := by
  have inv : Inv cfg th s := by
    refine run.invariant (I := fun _ s => Inv cfg th s) (fun _ start => inv_start some_slots start) ?_
    exact fun _ s a s' es _ inv guard taken => inv_step inv small guard taken
  obtain ⟨waiting, suspended, zero⟩ := blocked
  have noticed := inv.noticed
  simp only [notices, waiting, suspended, zero, reduceCtorEq, and_false, or_self, if_false] at noticed
  omega

end Steps

def guardChecked (cfg : Config) (th : Tid) (s : State) : Action → Bool
  | .burst data => decide (min (unread cfg s + data.length) cfg.bufsz ≤ notices th s + 1)
  | _ => true

theorem guardChecked_sound {cfg : Config} {th : Tid} {s : State} {a : Action}
    (checked : guardChecked cfg th s a = true) : Guard cfg th s a := by
  rintro data rfl
  exact of_decide_eq_true checked

/-- RT_SERIAL_RB_BUFSZ bytes, and a client without an end sign and URCs; the parser is thread 0. -/
def config : Config := ⟨64, 16, 0, []⟩

def booted : State where
  fifo := openFifo
  rxNotice := ⟨Kernel.startedThreads (fun _ => 10) 1, 0, .fifo, fun _ => false⟩
  parser := .taking
  line := emptyLine

theorem booted_start : Start booted := ⟨rfl, ⟨rfl, by decide, by decide, fun _ => rfl⟩, rfl⟩

/-- The bytes of a line come one by one. -/
theorem blocked_drained_line : ∃ s, Run (machine config 0) [.burst [13], .burst [10], .line [13, 10]] s ∧
    Blocked 0 s ∧ unread config s = 0 := by
  obtain ⟨s, run, found⟩ := Run.shows (M := (machine config 0).restrict (guardChecked config 0)) booted_start
    [.take, .burst [13], .burst [10], .wake, .read, .take, .read, .take] [.burst [13], .burst [10], .line [13, 10]]
    (fun s => decide (s.parser = .waiting ∧ (s.rxNotice.kernel.thread 0).stat = .suspend ∧
      s.rxNotice.value = 0)) (by decide +kernel)
  have guarded := RunWhere.ofRestrict (fun _ _ _ _ => guardChecked_sound) run
  have blocked := of_decide_eq_true found
  exact ⟨s, guarded.run, blocked, blocked_drained (by decide) (by decide) guarded blocked⟩

/-- They come in one burst: the parser reads one byte and waits for another notice. -/
theorem blocked_with_line :
    ∃ s, Run (machine config 0) [.burst [13, 10]] s ∧ Blocked 0 s ∧ unread config s = 1 := by
  obtain ⟨s, run, found⟩ := Run.shows (M := machine config 0) booted_start
    [.take, .burst [13, 10], .wake, .read, .take] [.burst [13, 10]]
    (fun s => decide ((s.parser = .waiting ∧ (s.rxNotice.kernel.thread 0).stat = .suspend ∧
      s.rxNotice.value = 0) ∧ unread config s = 1)) (by decide +kernel)
  have blocked := of_decide_eq_true found
  exact ⟨s, run, blocked⟩

end RtThread.AtClient
