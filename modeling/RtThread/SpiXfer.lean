import Mathlib.Data.BitVec
import Mathlib.Data.List.Basic

/-! spixfer of drv_spi.c, which cuts a message into calls of the HAL. The wait for
HAL_SPI_STATE_READY after each call is taken to end. -/
namespace RtThread.SpiXfer

inductive HalStatus where
  | ok | error | busy | timeout
  deriving DecidableEq

/-- The buffers are addresses; RT_NULL is 0. -/
structure Message where
  sendBuf : BitVec 32
  recvBuf : BitVec 32
  length : BitVec 32
  csTake : Bool
  csRelease : Bool

structure Device where
  mode : BitVec 8
  spiDmaFlag : BitVec 8

def rtSpiNoCs : BitVec 8 := 1 <<< 5
def rtSpi3wire : BitVec 8 := 1 <<< 6
def spiUsingRxDmaFlag : BitVec 8 := 1 <<< 0
def spiUsingTxDmaFlag : BitVec 8 := 1 <<< 1

def Device.noCs (device : Device) : Bool := device.mode &&& rtSpiNoCs != 0
def Device.threeWire (device : Device) : Bool := device.mode &&& rtSpi3wire != 0
def Device.rxDma (device : Device) : Bool := device.spiDmaFlag &&& spiUsingRxDmaFlag != 0
def Device.txDma (device : Device) : Bool := device.spiDmaFlag &&& spiUsingTxDmaFlag != 0

/-- HAL_SPI_TransmitReceive, HAL_SPI_Transmit and HAL_SPI_Receive, or their _DMA forms. -/
inductive HalCall where
  | transmitReceive (dma : Bool) (txData rxData : BitVec 32) (size : BitVec 16)
  | transmit (dma : Bool) (txData : BitVec 32) (size : BitVec 16)
  | receive (dma : Bool) (rxData : BitVec 32) (size : BitVec 16)
  deriving DecidableEq

inductive Op where
  | writePin (high : Bool)
  | hal (c : HalCall)
  | spiDisable
  | memset (s : BitVec 32) (n : BitVec 16)
  | clearOvrflag
  | stateReady

def Op.call : Op → Option HalCall
  | .hal c => some c
  | _ => none

def sendLength (messageLength : BitVec 32) : BitVec 16 :=
  if messageLength > 65535 then 65535 else messageLength.setWidth 16

/-- message_length after the chunk is taken off. -/
def left (messageLength : BitVec 32) : BitVec 32 :=
  if messageLength > 65535 then messageLength - 65535 else 0

def alreadySendLength (message : Message) (messageLength : BitVec 32) : BitVec 32 :=
  message.length - (sendLength messageLength).setWidth 32 - left messageLength

def exchange (device : Device) (message : Message) (sendBuf recvBuf : BitVec 32) (size : BitVec 16) : List Op :=
  if message.sendBuf ≠ 0 ∧ message.recvBuf ≠ 0 then
    [.hal (.transmitReceive (device.txDma && device.rxDma) sendBuf recvBuf size)]
  else if message.sendBuf ≠ 0 then
    .hal (.transmit device.txDma sendBuf size) ::
      if message.csRelease && device.threeWire then [.spiDisable] else []
  else
    .memset recvBuf size ::
      if device.rxDma then [.hal (.receive true recvBuf size)]
      else [.clearOvrflag, .hal (.receive false recvBuf size)]

/-- A pass of the loop: message->length as the pass finds it, and what the pass does. -/
structure Pass where
  length : BitVec 32
  ops : List Op

def pass (device : Device) (message : Message) (messageLength : BitVec 32) (state : HalStatus) : Pass where
  length := message.length
  ops :=
    let already := alreadySendLength message messageLength
    exchange device message (message.sendBuf + already) (message.recvBuf + already) (sendLength messageLength) ++
      if state ≠ .ok then [.stateReady] else []

/-- The error branch; the loop goes on behind it. -/
def settle (message : Message) (state : HalStatus) : Message :=
  if state ≠ .ok then { message with length := 0 } else message

theorem left_lt {n : BitVec 32} (some : n ≠ 0) : (left n).toNat < n.toNat := by
  unfold left
  split <;> bv_omega

/-- `hal k` is the answer of the HAL to the call with number `k`. -/
def spixferLoop (device : Device) (hal : Nat → HalStatus) (k : Nat) (message : Message)
    (messageLength : BitVec 32) : List Pass × Message :=
  if some : messageLength = 0 then ([], message)
  else
    let r := spixferLoop device hal (k + 1) (settle message (hal k)) (left messageLength)
    (pass device message messageLength (hal k) :: r.1, r.2)
termination_by messageLength.toNat
decreasing_by exact left_lt some

structure Outcome where
  passes : List Pass
  ops : List Op
  result : BitVec 32

def spixfer (device : Device) (message : Message) (hal : Nat → HalStatus) : Outcome :=
  let r := spixferLoop device hal 0 message message.length
  { passes := r.1
    ops := (if message.csTake && !device.noCs then [.writePin false] else []) ++ r.1.flatMap Pass.ops ++
      if message.csRelease && !device.noCs then [.writePin true] else []
    result := r.2.length }

def Outcome.calls (o : Outcome) : List HalCall := o.ops.filterMap Op.call

/-- The call is for what lies `offset` behind the start of the buffers. -/
def HalCall.At (message : Message) (offset : BitVec 32) : HalCall → Prop
  | .transmitReceive _ txData rxData _ => txData = message.sendBuf + offset ∧ rxData = message.recvBuf + offset
  | .transmit _ txData _ => txData = message.sendBuf + offset
  | .receive _ rxData _ => rxData = message.recvBuf + offset

def HalCall.size : HalCall → BitVec 16
  | .transmitReceive _ _ _ size | .transmit _ _ size | .receive _ _ size => size

/-- Consecutive calls inside the buffers of the message, from one offset up to another. -/
inductive Parts (message : Message) : Nat → List HalCall → Nat → Prop where
  | nil {offset : Nat} : Parts message offset [] offset
  | cons {offset stop : Nat} {c : HalCall} {rest : List HalCall} :
      c.At message (BitVec.ofNat 32 offset) → 1 ≤ c.size.toNat → c.size.toNat ≤ 65535 →
      offset + c.size.toNat ≤ message.length.toNat →
      Parts message (offset + c.size.toNat) rest stop → Parts message offset (c :: rest) stop

structure Partitions (device : Device) (message : Message) (hal : Nat → HalStatus) : Prop where
  parts : ∃ stop, Parts message 0 (spixfer device message hal).calls stop
  success : (∀ k < (spixfer device message hal).passes.length, hal k = .ok) →
    Parts message 0 (spixfer device message hal).calls message.length.toNat ∧
      (spixfer device message hal).result = message.length
  failure : (∃ k < (spixfer device message hal).passes.length, hal k ≠ .ok) →
    (spixfer device message hal).result = 0
  described : ∀ p ∈ (spixfer device message hal).passes, p.length = message.length

variable {device : Device} {message now : Message} {hal : Nat → HalStatus} {n already : BitVec 32}
  {size : BitVec 16} {state : HalStatus} {k : Nat}

theorem sendLength_add_left (n : BitVec 32) : (sendLength n).toNat + (left n).toNat = n.toNat := by
  unfold sendLength left
  split
  · bv_omega
  · have small : n.toNat < 65536 := by bv_omega
    simp only [BitVec.toNat_setWidth]
    bv_omega

theorem sendLength_pos (some : n ≠ 0) : 1 ≤ (sendLength n).toNat := by
  have split := sendLength_add_left n
  have less := left_lt some
  omega

theorem alreadySendLength_eq (inside : n ≤ message.length) :
    alreadySendLength message n = BitVec.ofNat 32 (message.length.toNat - n.toNat) := by
  have split := sendLength_add_left n
  unfold alreadySendLength
  apply BitVec.eq_of_toNat_eq
  have wide : ((sendLength n).setWidth 32).toNat = (sendLength n).toNat := by
    simp only [BitVec.toNat_setWidth]
    omega
  bv_omega

def Pass.calls (p : Pass) : List HalCall := p.ops.filterMap Op.call

theorem exchange_call (device : Device) (message : Message) (already : BitVec 32) (size : BitVec 16) :
    ∃ c, (exchange device message (message.sendBuf + already) (message.recvBuf + already) size).filterMap
      Op.call = [c] ∧ c.At message already ∧ c.size = size := by
  unfold exchange
  split
  · exact ⟨_, rfl, ⟨rfl, rfl⟩, rfl⟩
  · split
    · split
      · exact ⟨_, rfl, rfl, rfl⟩
      · exact ⟨_, rfl, rfl, rfl⟩
    · split
      · exact ⟨_, rfl, rfl, rfl⟩
      · exact ⟨_, rfl, rfl, rfl⟩

theorem pass_call (device : Device) (state : HalStatus) (inside : n ≤ message.length) :
    ∃ c, (pass device message n state).calls = [c] ∧
      c.At message (BitVec.ofNat 32 (message.length.toNat - n.toNat)) ∧ c.size = sendLength n := by
  obtain ⟨c, one, at_, size⟩ :=
    exchange_call device message (alreadySendLength message n) (sendLength n)
  refine ⟨c, ?_, alreadySendLength_eq inside ▸ at_, size⟩
  simp only [Pass.calls, pass, List.filterMap_append, one]
  split <;> rfl

theorem spixfer_calls (device : Device) (message : Message) (hal : Nat → HalStatus) :
    (spixfer device message hal).calls =
      (spixferLoop device hal 0 message message.length).1.flatMap Pass.calls := by
  have pins : ∀ (b high : Bool), (if b then [Op.writePin high] else []).filterMap Op.call = [] := by
    intro b high
    cases b <;> rfl
  simp only [Outcome.calls, spixfer, List.filterMap_append, pins, List.nil_append, List.append_nil,
    List.filterMap_flatMap]
  rfl

theorem loop_zero (device : Device) (hal : Nat → HalStatus) (k : Nat) (message : Message) :
    spixferLoop device hal k message 0 = ([], message) := by
  rw [spixferLoop]
  rfl

theorem loop_next (device : Device) (hal : Nat → HalStatus) (k : Nat) (message : Message) (some : n ≠ 0) :
    spixferLoop device hal k message n =
      (pass device message n (hal k) :: (spixferLoop device hal (k + 1) (settle message (hal k)) (left n)).1,
        (spixferLoop device hal (k + 1) (settle message (hal k)) (left n)).2) := by
  rw [spixferLoop, dif_neg some]

theorem settle_ok (ok : state = .ok) : settle message state = message := by
  simp only [settle, ok, ne_eq, not_true_eq_false, if_false]

theorem settle_length (failed : state ≠ .ok) : (settle message state).length = 0 := by
  simp only [settle, if_pos failed]

theorem left_last (last : n.toNat ≤ 65535) : left n = 0 := by
  unfold left
  split
  · bv_omega
  · rfl

theorem left_more (more : 65535 < n.toNat) : (left n).toNat = n.toNat - 65535 := by
  unfold left
  split <;> bv_omega

theorem loop_parts (device : Device) (passes : ∀ j, 65535 * (j + 1) < n.toNat → hal (k + j) = .ok)
    (inside : n ≤ message.length) :
    Parts message (message.length.toNat - n.toNat)
        ((spixferLoop device hal k message n).1.flatMap Pass.calls) message.length.toNat ∧
      ∀ p ∈ (spixferLoop device hal k message n).1, p.length = message.length := by
  fun_induction spixferLoop device hal k message n with
  | case1 k message => exact ⟨.nil, nofun⟩
  | case2 k message n some r ih =>
    obtain ⟨c, one, at_, size⟩ := pass_call device (hal k) inside
    have split := sendLength_add_left n
    have bound : n.toNat ≤ message.length.toNat := inside
    have tail : Parts message (message.length.toNat - (left n).toNat) (r.1.flatMap Pass.calls)
        message.length.toNat ∧ ∀ p ∈ r.1, p.length = message.length := by
      by_cases last : n.toNat ≤ 65535
      · simp only [r, left_last last, loop_zero]
        exact ⟨.nil, nofun⟩
      · have ok : hal k = .ok := passes 0 (by omega)
        have less := left_more (n := n) (by omega)
        rw [settle_ok ok] at ih
        simp only [r, settle_ok ok]
        refine ih ?_ (by bv_omega)
        intro j more
        rw [Nat.add_assoc, Nat.add_comm 1 j]
        exact passes (j + 1) (by omega)
    constructor
    · rw [List.flatMap_cons, one]
      refine .cons at_ ?_ ?_ ?_ ?_
      · rw [size]
        exact sendLength_pos some
      · omega
      · rw [size]
        omega
      · rw [size, show message.length.toNat - n.toNat + (sendLength n).toNat =
          message.length.toNat - (left n).toNat by omega]
        exact tail.1
    · exact List.forall_mem_cons.mpr ⟨rfl, tail.2⟩

theorem loop_success (device : Device)
    (ok : ∀ j < (spixferLoop device hal k message n).1.length, hal (k + j) = .ok) :
    (spixferLoop device hal k message n).2 = message := by
  fun_induction spixferLoop device hal k message n with
  | case1 k message => rfl
  | case2 k message n some r ih =>
    have first : hal k = .ok := ok 0 (Nat.succ_pos _)
    rw [settle_ok first] at ih
    simp only [r, settle_ok first] at ok ⊢
    apply ih
    intro j before
    rw [Nat.add_assoc, Nat.add_comm 1 j]
    exact ok (j + 1) (Nat.succ_lt_succ before)

theorem loop_cleared (device : Device) (hal : Nat → HalStatus) (k : Nat) (n : BitVec 32)
    (cleared : message.length = 0) : (spixferLoop device hal k message n).2.length = 0 := by
  fun_induction spixferLoop device hal k message n with
  | case1 k message => exact cleared
  | case2 k message n some r ih =>
    apply ih
    cases state : hal k with
    | ok => rw [settle_ok rfl, cleared]
    | _ => exact settle_length (by decide)

theorem loop_failure (device : Device)
    (failed : ∃ j < (spixferLoop device hal k message n).1.length, hal (k + j) ≠ .ok) :
    (spixferLoop device hal k message n).2.length = 0 := by
  fun_induction spixferLoop device hal k message n with
  | case1 k message =>
    obtain ⟨j, before, _⟩ := failed
    exact absurd before (Nat.not_lt_zero j)
  | case2 k message n some r ih =>
    obtain ⟨j, before, bad⟩ := failed
    cases j with
    | zero => exact loop_cleared device hal (k + 1) (left n) (settle_length bad)
    | succ j =>
      apply ih
      refine ⟨j, Nat.lt_of_succ_lt_succ before, ?_⟩
      rwa [Nat.add_assoc, Nat.add_comm 1 j]

theorem loop_described (device : Device) {length : BitVec 32} (some : length ≠ 0)
    (described : ∀ p ∈ (spixferLoop device hal k message n).1, p.length = length) (j : Nat)
    (more : 65535 * (j + 1) < n.toNat) : hal (k + j) = .ok := by
  induction j generalizing k message n with
  | zero =>
    by_contra failed
    have here : n ≠ 0 := by bv_omega
    have next : left n ≠ 0 := by
      have less := left_more (n := n) (by omega)
      bv_omega
    rw [loop_next device hal k message here, loop_next device hal (k + 1) _ next] at described
    have second := described _ (List.mem_cons_of_mem _ List.mem_cons_self)
    exact some (second.symm.trans (settle_length failed))
  | succ j ih =>
    have here : n ≠ 0 := by bv_omega
    have less := left_more (n := n) (by omega)
    rw [loop_next device hal k message here] at described
    have tail := ih (fun p later => described p (List.mem_cons_of_mem _ later)) (by omega)
    rwa [Nat.add_assoc, Nat.add_comm 1 j] at tail

/-- Exactly where no call but the last one fails. -/
theorem spixfer_partitions (device : Device) (message : Message) (hal : Nat → HalStatus) :
    Partitions device message hal ↔ ∀ k, 65535 * (k + 1) < message.length.toNat → hal k = .ok := by
  constructor
  · intro right k more
    have some : message.length ≠ 0 := by bv_omega
    have ok := loop_described device some right.described k more
    rwa [Nat.zero_add] at ok
  · intro passes
    obtain ⟨parts, described⟩ := loop_parts (k := 0) device (by simpa only [Nat.zero_add] using passes)
      (Nat.le_refl message.length.toNat)
    rw [← spixfer_calls, Nat.sub_self] at parts
    constructor
    · exact ⟨_, parts⟩
    · intro ok
      have kept : (spixferLoop device hal 0 message message.length).2 = message := by
        apply loop_success
        simpa only [Nat.zero_add, spixfer] using ok
      exact ⟨parts, congrArg Message.length kept⟩
    · intro failed
      apply loop_failure
      simpa only [Nat.zero_add, spixfer] using failed
    · exact described

def twoChunks : Message := ⟨0x20000000, 0, 65536, true, true⟩

def firstFails (k : Nat) : HalStatus := if k = 0 then .error else .ok

/-- The second chunk is sent from the byte before the buffer. -/
theorem spixfer_wrong :
    (spixfer ⟨0, 0⟩ twoChunks firstFails).calls =
        [.transmit false 0x20000000 65535, .transmit false 0x1FFFFFFF 1] ∧
      ¬ Partitions ⟨0, 0⟩ twoChunks firstFails := by
  constructor
  · rw [spixfer_calls, loop_next _ _ _ _ (by decide), loop_next _ _ _ _ (by decide),
      show left (left twoChunks.length) = 0 by decide, loop_zero]
    decide
  · intro right
    have ok := loop_described (k := 0) _ (by decide) right.described 0 (by decide)
    exact absurd ok (by decide)

end RtThread.SpiXfer
