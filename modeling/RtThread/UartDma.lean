import RtThread.Kernel
import RtThread.Run

/-! What the handlers of the STM32 UART report of a circular receive DMA: the IDLE branch of
uart_isr, and dma_isr for half transfer and transfer complete. -/
namespace RtThread.UartDma
open Transition

/-- The data counter of the DMA stream and `last_index`; `since` counts the bytes since a handler
has run, which the driver does not know. -/
structure Uart where
  counter : Nat
  lastIndex : Nat
  since : Nat

def started (bufsz : Nat) : Uart := ⟨bufsz, 0, 0⟩

/-- A byte is transferred; from 0 the counter is reloaded. -/
def transfer (bufsz : Nat) (u : Uart) : Uart :=
  { u with counter := if u.counter ≤ 1 then bufsz else u.counter - 1, since := u.since + 1 }

/-- RX_DMADONE with the length above it, an int, and the length that rt_hw_serial_isr takes out. -/
def dmaDone (recvLen : Nat) : Int := Int.bmod (recvLen * 2 ^ 8 + 3 : Nat) (2 ^ 32) / 2 ^ 8

/-- What both handlers do with `recv_len`. -/
def account (bufsz : Nat) (u : Uart) (recvLen : Nat) : Uart × Option Int :=
  ({ u with lastIndex := bufsz - u.counter, since := 0 },
    if recvLen ≠ 0 then some (dmaDone recvLen) else none)

/-- The IDLE branch. -/
def uartIsr (bufsz : Nat) (u : Uart) : Uart × Option Int :=
  account bufsz u (sub32 (bufsz - u.counter) u.lastIndex)

def dmaIsr (bufsz : Nat) (u : Uart) : Uart × Option Int :=
  let recvTotalIndex := bufsz - u.counter
  account bufsz u (if recvTotalIndex = 0 then sub32 bufsz u.lastIndex else sub32 recvTotalIndex u.lastIndex)

inductive Action where
  | byte
  | idle
  | half
  | complete

inductive Event where
  | received
  | ran (reported : Option Int)
  deriving DecidableEq

/-- Fewer than `bufsz` bytes come between two runs. -/
def step (bufsz : Nat) (u : Uart) : Action → Option (Uart × List Event)
  | .byte => if u.since + 1 < bufsz then some (transfer bufsz u, [.received]) else none
  | .idle =>
    let (u, reported) := uartIsr bufsz u
    some (u, [.ran reported])
  | .half | .complete =>
    let (u, reported) := dmaIsr bufsz u
    some (u, [.ran reported])

def machine (bufsz : Nat) : Machine Uart Action Event where
  start u := u = started bufsz
  step := step bufsz

/-- The bytes not yet reported after an event, `none` if a handler has reported other than it should. -/
def Event.apply (bufsz : Nat) (unreported : Nat) : Event → Option Nat
  | .received => some (unreported + 1)
  | .ran none => if unreported = 0 then some 0 else none
  | .ran (some len) => if len = unreported ∧ 1 ≤ len ∧ len ≤ bufsz then some 0 else none

def replay (bufsz : Nat) (tr : List Event) : Option Nat :=
  tr.foldlM (fun unreported e => e.apply bufsz unreported) 0

def Event.length : Event → Int
  | .ran (some len) => len
  | _ => 0

def received (tr : List Event) : Nat := tr.count .received
def reported (tr : List Event) : Int := (tr.map Event.length).sum

/-- Every report is of the bytes since the one before, and all together are of those up to the last run. -/
structure Accounted (bufsz : Nat) (tr : List Event) : Prop where
  each : (replay bufsz tr).isSome = true
  sum : ∀ unreported, replay bufsz tr = some unreported → (received tr : Int) = reported tr + unreported

/-- When a handler runs: the IDLE branch before the counter has been reloaded, dma_isr not after
the byte behind the reload, and not when nothing has come since the reload was accounted for. -/
def InTime (bufsz : Nat) (u : Uart) : Action → Prop
  | .byte => True
  | .idle => u.lastIndex + u.since < bufsz
  | .half | .complete => 0 < u.lastIndex + u.since ∧ u.lastIndex + u.since ≤ bufsz

/-- The counter is where the bytes since the last run have brought it. -/
structure Counted (bufsz : Nat) (u : Uart) : Prop where
  last : u.lastIndex < bufsz
  since : u.since < bufsz
  ahead : u.lastIndex + u.since < bufsz → u.counter + (u.lastIndex + u.since) = bufsz
  reloaded : bufsz ≤ u.lastIndex + u.since → u.counter + (u.lastIndex + u.since) = 2 * bufsz

variable {bufsz : Nat} {u u' : Uart} {a : Action} {tr es : List Event}

theorem started_counted (two : 2 ≤ bufsz) : Counted bufsz (started bufsz) := by
  constructor <;> simp only [started] <;> lia

theorem Counted.transfer (counted : Counted bufsz u) (few : u.since + 1 < bufsz) :
    Counted bufsz (transfer bufsz u) := by
  obtain ⟨last, since, ahead, reloaded⟩ := counted
  simp only [UartDma.transfer]
  split <;> constructor <;> simp only <;> lia

theorem Counted.ran (counted : Counted bufsz u) (counter : u'.counter = u.counter)
    (lastIndex : u'.lastIndex = bufsz - u.counter) (fresh : u'.since = 0) : Counted bufsz u' := by
  obtain ⟨last, since, ahead, reloaded⟩ := counted
  constructor <;> lia

theorem Counted.step (counted : Counted bufsz u) (taken : UartDma.step bufsz u a = some (u', es)) :
    Counted bufsz u' := by
  cases a with
  | byte =>
    simp only [UartDma.step] at taken
    split at taken
    · rename_i few
      cases taken
      exact counted.transfer few
    · contradiction
  | idle => cases taken; exact counted.ran rfl rfl rfl
  | half => cases taken; exact counted.ran rfl rfl rfl
  | complete => cases taken; exact counted.ran rfl rfl rfl

theorem dmaDone_small {recvLen : Nat} (small : recvLen < 2 ^ 16) : dmaDone recvLen = recvLen := by
  unfold dmaDone
  rw [Int.bmod_eq_of_le (by lia) (by lia)]
  lia

theorem dmaDone_negative {below : Nat} (some : 1 ≤ below) (small : below < 2 ^ 16) :
    dmaDone (2 ^ 32 - below) = -below := by
  unfold dmaDone
  rw [Int.bmod_def]
  split <;> lia

/-- A run that finds `recv_len` to be the bytes since the last run reports them. -/
theorem account_right {recvLen : Nat} (right : recvLen = u.since) (few : u.since < bufsz)
    (word : bufsz < 2 ^ 16) :
    Event.apply bufsz u.since (.ran (account bufsz u recvLen).2) = some 0 := by
  subst right
  simp only [account]
  by_cases nothing : u.since = 0
  · simp [nothing, Event.apply]
  · rw [if_pos nothing, dmaDone_small (by lia), Event.apply, if_pos ⟨rfl, by lia, by lia⟩]

theorem account_wrong {recvLen : Nat} {len : Int} (some_bytes : recvLen ≠ 0) (done : dmaDone recvLen = len)
    (wrong : len ≠ u.since ∨ len < 1) :
    Event.apply bufsz u.since (.ran (account bufsz u recvLen).2) = none := by
  simp only [account, if_pos some_bytes, done, Event.apply]
  rw [if_neg]
  rintro ⟨same, positive, _⟩
  rcases wrong with other | none
  · exact other same
  · lia

/-- The length is taken across the reload. -/
theorem account_reloaded (counted : Counted bufsz u) (word : bufsz < 2 ^ 16)
    (reload : bufsz < u.lastIndex + u.since ∨ bufsz ≤ u.lastIndex + u.since ∧ 0 < u.lastIndex) :
    Event.apply bufsz u.since
      (.ran (account bufsz u (sub32 (bufsz - u.counter) u.lastIndex)).2) = none := by
  obtain ⟨last, since, _, reloaded⟩ := counted
  have place := reloaded (by lia)
  have gone : sub32 (bufsz - u.counter) u.lastIndex = 2 ^ 32 - (bufsz - u.since) := by
    unfold sub32
    lia
  rw [gone]
  exact account_wrong (by lia) (dmaDone_negative (by lia) (by lia)) (Or.inr (by lia))

theorem account_ahead (counted : Counted bufsz u) (word : bufsz < 2 ^ 16)
    (inTime : u.lastIndex + u.since < bufsz) :
    Event.apply bufsz u.since
      (.ran (account bufsz u (sub32 (bufsz - u.counter) u.lastIndex)).2) = some 0 := by
  obtain ⟨last, since, ahead, _⟩ := counted
  have place := ahead inTime
  have right : sub32 (bufsz - u.counter) u.lastIndex = u.since := by
    unfold sub32
    lia
  exact account_right right since word

/-- A run of the IDLE branch is right exactly when it comes before the reload. -/
theorem uartIsr_exact (counted : Counted bufsz u) (word : bufsz < 2 ^ 16) :
    Event.apply bufsz u.since (.ran (uartIsr bufsz u).2) = some 0 ↔ InTime bufsz u .idle := by
  have last := counted.last
  have since := counted.since
  by_cases inTime : u.lastIndex + u.since < bufsz
  · simp only [InTime, inTime, iff_true]
    exact account_ahead counted word inTime
  · have wrong := account_reloaded counted word (by lia)
    simp only [InTime, inTime, iff_false]
    rw [uartIsr, wrong]
    simp

/-- A run of dma_isr is right exactly when something has come and no byte behind the reload. -/
theorem dmaIsr_exact (counted : Counted bufsz u) (word : bufsz < 2 ^ 16) :
    Event.apply bufsz u.since (.ran (dmaIsr bufsz u).2) = some 0 ↔ InTime bufsz u .half := by
  have last := counted.last
  have since := counted.since
  have ahead := counted.ahead
  have reloaded := counted.reloaded
  simp only [dmaIsr, InTime]
  by_cases start : bufsz - u.counter = 0
  · rw [if_pos start]
    by_cases whole : u.lastIndex + u.since = bufsz
    · have right : sub32 bufsz u.lastIndex = u.since := by
        unfold sub32
        lia
      simp only [account_right right since word, true_iff]
      lia
    · have nothing : sub32 bufsz u.lastIndex = bufsz := by
        unfold sub32
        lia
      have wrong : Event.apply bufsz u.since (.ran (account bufsz u bufsz).2) = none :=
        account_wrong (by lia) (dmaDone_small word) (Or.inl (by lia))
      rw [nothing, wrong]
      simp only [reduceCtorEq, false_iff]
      lia
  · rw [if_neg start]
    by_cases inTime : u.lastIndex + u.since < bufsz
    · simp only [account_ahead counted word inTime, true_iff]
      lia
    · rw [account_reloaded counted word (by lia)]
      simp only [reduceCtorEq, false_iff]
      lia

theorem replay_snoc {n : Nat} (shown : replay bufsz tr = some n) (e : Event) :
    replay bufsz (tr ++ [e]) = e.apply bufsz n :=
  replay_one shown e

theorem received_snoc (e : Event) :
    received (tr ++ [e]) = received tr + if e = .received then 1 else 0 := by
  cases e <;> simp [received, List.count_append]

theorem reported_snoc (e : Event) : reported (tr ++ [e]) = reported tr + e.length := by
  simp [reported]

/-- Reports so far are right, and `since` is what has not been reported. -/
structure Inv (bufsz : Nat) (tr : List Event) (u : Uart) : Prop where
  counted : Counted bufsz u
  shown : replay bufsz tr = some u.since
  sum : (received tr : Int) = reported tr + u.since

theorem Inv.ran {reported : Option Int} (inv : Inv bufsz tr u) (counted : Counted bufsz u')
    (fresh : u'.since = 0) (right : Event.apply bufsz u.since (.ran reported) = some 0) :
    Inv bufsz (tr ++ [.ran reported]) u' where
  counted := counted
  shown := by rw [replay_snoc inv.shown, right, fresh]
  sum := by
    have length : (Event.ran reported).length = u.since := by
      cases reported with
      | none =>
        simp only [Event.apply] at right
        split at right
        · rename_i nothing
          simp [Event.length, nothing]
        · contradiction
      | some len =>
        simp only [Event.apply] at right
        split at right
        · rename_i same
          exact same.1
        · contradiction
    have sum := inv.sum
    simp only [received_snoc, reported_snoc, length, fresh, reduceCtorEq, if_false]
    lia

theorem Inv.step (inv : Inv bufsz tr u) (word : bufsz < 2 ^ 16) (inTime : InTime bufsz u a)
    (taken : UartDma.step bufsz u a = some (u', es)) : Inv bufsz (tr ++ es) u' := by
  have counted := inv.counted.step taken
  cases a with
  | byte =>
    simp only [UartDma.step] at taken
    split at taken
    · cases taken
      refine ⟨counted, ?_, ?_⟩
      · rw [replay_snoc inv.shown]
        rfl
      · have sum := inv.sum
        simp only [received_snoc, reported_snoc, Event.length, transfer, if_true]
        lia
    · contradiction
  | idle =>
    cases taken
    exact inv.ran counted rfl ((uartIsr_exact inv.counted word).mpr inTime)
  | half =>
    cases taken
    exact inv.ran counted rfl ((dmaIsr_exact inv.counted word).mpr inTime)
  | complete =>
    cases taken
    exact inv.ran counted rfl ((dmaIsr_exact inv.counted word).mpr inTime)

/-- Handlers that run in time account for every byte, once. -/
theorem received_accounted (two : 2 ≤ bufsz) (word : bufsz < 2 ^ 16)
    (run : RunWhere (machine bufsz) (InTime bufsz) tr u) : Accounted bufsz tr := by
  have inv : Inv bufsz tr u := by
    apply run.invariant (I := Inv bufsz)
    · rintro _ rfl
      exact ⟨started_counted two, rfl, rfl⟩
    · intro tr u a u' es _ inv inTime taken
      exact inv.step word inTime taken
  refine ⟨by rw [inv.shown]; rfl, ?_⟩
  intro unreported shown
  cases inv.shown.symm.trans shown
  exact inv.sum

/-- Three bytes and an IDLE, two more round the end with the two handlers of the DMA. -/
def inTimeTrace : List Event :=
  [.received, .received, .ran (some 2), .received, .ran (some 1), .received, .ran (some 1), .ran none]

def inTimeChecked (bufsz : Nat) (u : Uart) : Action → Bool
  | .byte => true
  | .idle => decide (u.lastIndex + u.since < bufsz)
  | .half | .complete => decide (0 < u.lastIndex + u.since ∧ u.lastIndex + u.since ≤ bufsz)

theorem inTimeChecked_sound (u : Uart) (a : Action) (checked : inTimeChecked bufsz u a = true) :
    InTime bufsz u a := by
  cases a <;> simp_all [inTimeChecked, InTime]

theorem received_accounted_reload : Accounted 4 inTimeTrace := by
  obtain ⟨u, run, _⟩ := Run.shows (M := (machine 4).restrict (inTimeChecked 4)) (s := started 4) rfl
    [.byte, .byte, .half, .byte, .idle, .byte, .complete, .idle] inTimeTrace (fun _ => true) (by decide +kernel)
  exact received_accounted (by decide) (by decide)
    (.ofRestrict (fun _ u a _ => inTimeChecked_sound u a) run)

/-- The IDLE branch runs after the reload and before dma_isr. -/
theorem idle_after_reload : ∃ u, Run (machine 4)
      [.received, .received, .received, .ran (some 3), .received, .received, .ran (some (-2))] u ∧
    ¬Accounted 4 [.received, .received, .received, .ran (some 3), .received, .received, .ran (some (-2))] := by
  obtain ⟨u, run, _⟩ := Run.shows (M := machine 4) (s := started 4) rfl
    [.byte, .byte, .byte, .idle, .byte, .byte, .idle]
    [.received, .received, .received, .ran (some 3), .received, .received, .ran (some (-2))]
    (fun _ => true) (by decide +kernel)
  refine ⟨u, run, fun accounted => ?_⟩
  exact absurd accounted.each (by decide +kernel)

end RtThread.UartDma
