import RtThread.TwoWire

/-! The bit-banged I2C master: i2c_bit_xfer and what it is made of, as the list of the levels it
drives and the samples it takes. The delays have no effect here. -/
namespace RtThread.I2cBit
open TwoWire

def rtError : Int := 1
def rtEtimeout : Int := 2
def rtEio : Int := 8

/-- `buf` has `len` bytes. -/
structure RtI2cMsg where
  addr : BitVec 16
  flags : BitVec 16
  buf : List (BitVec 8)

namespace RtI2cMsg

def len (m : RtI2cMsg) : Nat := m.buf.length
def rd (m : RtI2cMsg) : Bool := m.flags.getLsbD 0
def addr10bit (m : RtI2cMsg) : Bool := m.flags.getLsbD 2
def noStart (m : RtI2cMsg) : Bool := m.flags.getLsbD 4
def ignoreNack (m : RtI2cMsg) : Bool := m.flags.getLsbD 5
def noReadAck (m : RtI2cMsg) : Bool := m.flags.getLsbD 6
def noStop (m : RtI2cMsg) : Bool := m.flags.getLsbD 7

end RtI2cMsg

structure RtI2cBusDevice where
  retries : BitVec 32

/-- The rest of the bus: what the `n`-th GET_SDA finds, and whether the `n`-th wait for SCL to go
high runs into the timeout. -/
structure Slave where
  sda : Nat → Bool
  stuck : Nat → Bool

/-- What has been driven, and the numbers of samples and of releases of SCL so far. -/
structure Wire where
  drives : List Drive
  reads : Nat
  raises : Nat

def Wire.idle : Wire := ⟨[], 0, 0⟩

def Wire.drive (w : Wire) (d : Drive) : Wire := { w with drives := w.drives ++ [d] }

section Master
variable (slave : Slave)

def sclH (w : Wire) : Wire × Int :=
  ({ w.drive (.scl true) with raises := w.raises + 1 },
    if slave.stuck w.raises then -rtEtimeout else 0)

def getSda (w : Wire) : Wire × Bool :=
  ({ w.drive (.sample (slave.sda w.reads)) with reads := w.reads + 1 }, slave.sda w.reads)

def i2cStart (w : Wire) : Wire := (w.drive (.sda false)).drive (.scl false)

def i2cRestart (w : Wire) : Wire :=
  (((sclH slave (w.drive (.sda true))).1).drive (.sda false)).drive (.scl false)

def i2cStop (w : Wire) : Wire := ((sclH slave (w.drive (.sda false))).1).drive (.sda true)

def i2cWaitack (w : Wire) : Wire × Int :=
  let raised := sclH slave (w.drive (.sda true))
  if raised.2 < 0 then (raised.1, -rtEtimeout)
  else
    let sample := getSda slave raised.1
    (sample.1.drive (.scl false), if sample.2 then 0 else 1)

/-- The loop of i2c_writeb over the bits below the `n`-th. -/
def writeBits (data : BitVec 8) : Nat → Wire → Wire × Int
  | 0, w => (w, 0)
  | n + 1, w =>
    let raised := sclH slave ((w.drive (.scl false)).drive (.sda (data.getLsbD n)))
    if raised.2 < 0 then (raised.1, -rtEtimeout) else writeBits data n raised.1

def i2cWriteb (w : Wire) (data : BitVec 8) : Wire × Int :=
  let sent := writeBits slave data 8 w
  if sent.2 < 0 then sent else i2cWaitack slave (sent.1.drive (.scl false))

/-- The loop of i2c_readb, `n` bits being left; `none` after a timeout. -/
def readBits : Nat → BitVec 8 → Wire → Wire × Option (BitVec 8)
  | 0, data, w => (w, some data)
  | n + 1, data, w =>
    let raised := sclH slave w
    if raised.2 < 0 then (raised.1, none)
    else
      let sample := getSda slave raised.1
      readBits n (shiftIn data sample.2) (sample.1.drive (.scl false))

def i2cReadb (w : Wire) : Wire × Option (BitVec 8) := readBits slave 8 0 (w.drive (.sda true))

/-- The bytes not yet sent, and the number of those that are. -/
def i2cSendBytes (ignoreNack : Bool) : List (BitVec 8) → Nat → Wire → Wire × Int
  | [], bytes, w => (w, bytes)
  | b :: rest, bytes, w =>
    let sent := i2cWriteb slave w b
    if 0 < sent.2 ∨ (ignoreNack = true ∧ sent.2 = 0) then
      i2cSendBytes ignoreNack rest (bytes + 1) sent.1
    else if sent.2 = 0 then (sent.1, 0)
    else sent

def i2cSendAckOrNack (w : Wire) (ack : Bool) : Wire × Int :=
  let raised := sclH slave (if ack then w.drive (.sda false) else w)
  if raised.2 < 0 then (raised.1, -rtEtimeout) else (raised.1.drive (.scl false), 0)

/-- `count` bytes are left; `got` are stored. -/
def i2cRecvBytes (noReadAck : Bool) : Nat → List (BitVec 8) → Wire → Wire × List (BitVec 8) × Int
  | 0, got, w => (w, got, got.length)
  | count + 1, got, w =>
    match i2cReadb slave w with
    | (w, none) => (w, got, got.length)
    | (w, some val) =>
      if noReadAck then i2cRecvBytes noReadAck count (got ++ [val]) w
      else
        let answered := i2cSendAckOrNack slave w (count ≠ 0)
        if answered.2 < 0 then (answered.1, got ++ [val], answered.2)
        else i2cRecvBytes noReadAck count (got ++ [val]) answered.1

def sendTries (addr : BitVec 8) : Nat → Wire → Wire × Int
  | 0, w => (w, 0)
  | n + 1, w =>
    let sent := i2cWriteb slave w addr
    if sent.2 = 1 ∨ n = 0 then sent else sendTries addr n (i2cStart (i2cStop slave sent.1))

def i2cSendAddress (w : Wire) (addr : BitVec 8) (retries : Int) : Wire × Int :=
  sendTries slave addr (retries + 1).toNat w

/-- The conversion of `bus->retries` to rt_int32_t. -/
def retriesOf (bus : RtI2cBusDevice) (msg : RtI2cMsg) : Int :=
  if msg.ignoreNack then 0 else bus.retries.toInt

def addr1Of (msg : RtI2cMsg) : BitVec 8 :=
  if msg.addr10bit then 0xf0#8 ||| ((msg.addr >>> 7).setWidth 8 &&& 0x06#8)
  else if msg.rd then (msg.addr <<< 1).setWidth 8 ||| 1#8
  else (msg.addr <<< 1).setWidth 8

def i2cBitSendAddress (bus : RtI2cBusDevice) (msg : RtI2cMsg) (w : Wire) : Wire × Int :=
  let first := i2cSendAddress slave w (addr1Of msg) (retriesOf bus msg)
  if first.2 ≠ 1 ∧ msg.ignoreNack = false then (first.1, -rtEio)
  else if msg.addr10bit then
    let second := i2cWriteb slave first.1 (msg.addr.setWidth 8)
    if second.2 ≠ 1 ∧ msg.ignoreNack = false then (second.1, -rtEio)
    else if msg.rd then
      let third := i2cSendAddress slave (i2cRestart slave second.1) (addr1Of msg ||| 1#8)
        (retriesOf bus msg)
      if third.2 ≠ 1 ∧ msg.ignoreNack = false then (third.1, -rtEio) else (third.1, 0)
    else (second.1, 0)
  else (first.1, 0)

/-- The start of a round of i2c_bit_xfer, up to the address. -/
def openMsg (bus : RtI2cBusDevice) (i : Nat) (msg : RtI2cMsg) (w : Wire) : Wire × Int :=
  if msg.noStart then (w, 0)
  else i2cBitSendAddress slave bus msg (if i ≠ 0 then i2cRestart slave w else i2cStart w)

/-- One round of the loop of i2c_bit_xfer; the last part is `ret` where it jumps to `out`. -/
def xferMsg (bus : RtI2cBusDevice) (i : Nat) (msg : RtI2cMsg) (w : Wire) :
    Wire × RtI2cMsg × Option Int :=
  let opened := openMsg slave bus i msg w
  if opened.2 ≠ 0 ∧ msg.ignoreNack = false then (opened.1, msg, some opened.2)
  else if msg.rd then
    let got := i2cRecvBytes slave msg.noReadAck msg.len [] opened.1
    ( got.1,
      { msg with buf := got.2.1 ++ msg.buf.drop got.2.1.length },
      if got.2.2 < msg.len then some (if 0 ≤ got.2.2 then -rtEio else got.2.2) else none )
  else
    let sent := i2cSendBytes slave msg.ignoreNack msg.buf 0 opened.1
    (sent.1, msg, if sent.2 < msg.len then some (if 0 ≤ sent.2 then -rtError else sent.2) else none)

/-- `last` is the message that `msg` points to at `out`. -/
structure Outcome where
  wire : Wire
  msgs : List RtI2cMsg
  ret : Int
  last : RtI2cMsg

def xferMsgs (bus : RtI2cBusDevice) (i : Nat) (msg : RtI2cMsg) (rest : List RtI2cMsg) (w : Wire) :
    Outcome :=
  match xferMsg slave bus i msg w, rest with
  | (w, msg', some ret), rest => ⟨w, msg' :: rest, ret, msg⟩
  | (w, msg', none), [] => ⟨w, [msg'], i + 1, msg⟩
  | (w, msg', none), next :: rest =>
    let tail := xferMsgs bus (i + 1) next rest w
    { tail with msgs := msg' :: tail.msgs }

/-- `none` for no message at all: then the source reads `msg` before it is set. -/
def i2cBitXfer (bus : RtI2cBusDevice) (msgs : List RtI2cMsg) (w : Wire) : Option Outcome :=
  match msgs with
  | [] => none
  | msg :: rest =>
    let done := xferMsgs slave bus 0 msg rest w
    some (if done.last.noStop then done else { done with wire := i2cStop slave done.wire })

end Master

/-- The lines and what a listener has made of them, from the idle bus on. -/
def At (w : Wire) (l : Lines) (seen : List Mark) : Prop :=
  settle .idle w.drives = l ∧ marks .idle w.drives = seen

/-- The bit of a clock pulse that has not ended yet. -/
def pending (l : Lines) : List Mark := l.pulse.toList.map .bit

variable {slave : Slave} {bus : RtI2cBusDevice} {w : Wire} {l : Lines} {seen : List Mark}

theorem At.drive (at_ : At w l seen) (d : Drive) : At (w.drive d) (l.next d) (seen ++ l.shows d) := by
  obtain ⟨rfl, rfl⟩ := at_
  exact ⟨settle_append .idle w.drives [d], by simp [Wire.drive, marks_append, marks]⟩

theorem At.of_drives {w' : Wire} (at_ : At w l seen) (same : w'.drives = w.drives) : At w' l seen := by
  simpa only [At, same] using at_

theorem scl_low_at (at_ : At w l seen) : At (w.drive (.scl false)) (.low l.sda) (seen ++ pending l) :=
  at_.drive (.scl false)

theorem sda_at {sda : Bool} (at_ : At w (.low sda) seen) (v : Bool) : At (w.drive (.sda v)) (.low v) seen := by
  have driven := at_.drive (.sda v)
  cases v <;> cases sda <;> simpa [Lines.next, Lines.shows, Lines.low] using driven

theorem sclH_at (slave : Slave) {sda : Bool} (at_ : At w (.low sda) seen) :
    At (sclH slave w).1 ⟨true, sda, some sda⟩ seen := by
  have driven : At (w.drive (.scl true)) ⟨true, sda, some sda⟩ seen := by
    simpa [Lines.next, Lines.shows, Lines.low] using at_.drive (.scl true)
  exact driven.of_drives rfl

theorem getSda_at (slave : Slave) {sda bit : Bool} (at_ : At w ⟨true, sda, some bit⟩ seen) :
    At (getSda slave w).1 ⟨true, sda, some (slave.sda w.reads)⟩ seen := by
  have driven : At (w.drive (.sample (slave.sda w.reads))) ⟨true, sda, some (slave.sda w.reads)⟩ seen := by
    simpa [Lines.next, Lines.shows] using at_.drive (.sample (slave.sda w.reads))
  exact driven.of_drives rfl

@[simp] theorem drive_reads (w : Wire) (d : Drive) : (w.drive d).reads = w.reads := rfl
@[simp] theorem sclH_reads (w : Wire) : (sclH slave w).1.reads = w.reads := rfl
@[simp] theorem getSda_reads (w : Wire) : (getSda slave w).1.reads = w.reads + 1 := rfl
@[simp] theorem getSda_value (w : Wire) : (getSda slave w).2 = slave.sda w.reads := rfl

/-- The slave never holds SCL low long enough for a timeout. -/
def Slave.Prompt (slave : Slave) : Prop := ∀ n, slave.stuck n = false

theorem sclH_ok (prompt : slave.Prompt) (w : Wire) : (sclH slave w).2 = 0 := by
  simp [sclH, prompt w.raises]

theorem start_at (at_ : At w .idle seen) : At (i2cStart w) (.low false) (seen ++ [.start]) := by
  have driven := (at_.drive (.sda false)).drive (.scl false)
  simpa [i2cStart, Lines.next, Lines.shows, Lines.idle, Lines.low] using driven

theorem restart_at (slave : Slave) {sda : Bool} (at_ : At w (.low sda) seen) :
    At (i2cRestart slave w) (.low false) (seen ++ [.start]) := by
  have raised := sclH_at slave (sda_at at_ true)
  have driven := (raised.drive (.sda false)).drive (.scl false)
  simpa [i2cRestart, Lines.next, Lines.shows, Lines.low] using driven

theorem stop_at (slave : Slave) {sda : Bool} (at_ : At w (.low sda) seen) :
    At (i2cStop slave w) .idle (seen ++ [.stop]) := by
  have raised := sclH_at slave (sda_at at_ false)
  have driven := raised.drive (.sda true)
  simpa [i2cStop, Lines.next, Lines.shows, Lines.idle] using driven

theorem writeBits_at (prompt : slave.Prompt) (data : BitVec 8) (n : Nat) (at_ : At w l seen) :
    (writeBits slave data n w).2 = 0 ∧ (writeBits slave data n w).1.reads = w.reads ∧
      ∃ l' seen', At (writeBits slave data n w).1 l' seen' ∧
        seen' ++ pending l' = seen ++ pending l ++ (bitsBelow data n).map .bit := by
  induction n generalizing w l seen with
  | zero => exact ⟨rfl, rfl, l, seen, at_, by simp [bitsBelow]⟩
  | succ n ih =>
    have raised := sclH_at slave (sda_at (scl_low_at at_) (data.getLsbD n))
    obtain ⟨ok, reads, l', seen', after, said⟩ := ih raised
    simp only [writeBits, sclH_ok prompt, Int.lt_irrefl, if_false]
    refine ⟨ok, reads, l', seen', after, ?_⟩
    rw [said]
    simp [pending, bitsBelow]

theorem waitack_at {sda : Bool} (prompt : slave.Prompt) (at_ : At w (.low sda) seen) :
    (i2cWaitack slave w).2 = (if slave.sda w.reads then 0 else 1) ∧
      (i2cWaitack slave w).1.reads = w.reads + 1 ∧
      At (i2cWaitack slave w).1 (.low true) (seen ++ [.bit (slave.sda w.reads)]) := by
  have sampled := scl_low_at (getSda_at slave (sclH_at slave (sda_at at_ true)))
  simp only [i2cWaitack, sclH_ok prompt, Int.lt_irrefl, if_false]
  exact ⟨rfl, rfl, sampled⟩

theorem writeb_at (prompt : slave.Prompt) (data : BitVec 8) (at_ : At w l seen) :
    (i2cWriteb slave w data).2 = (if slave.sda w.reads then 0 else 1) ∧
      (i2cWriteb slave w data).1.reads = w.reads + 1 ∧
      At (i2cWriteb slave w data).1 (.low true)
        (seen ++ pending l ++ spell [.byte data (!slave.sda w.reads)]) := by
  obtain ⟨ok, reads, l', seen', sent, said⟩ := writeBits_at prompt data 8 at_
  have acked := waitack_at prompt (scl_low_at sent)
  simp only [drive_reads, reads] at acked
  simp only [i2cWriteb, ok, Int.lt_irrefl, if_false]
  refine ⟨acked.1, acked.2.1, ?_⟩
  simpa [said, spell, Sym.marks] using acked.2.2

def samples (slave : Slave) (r : Nat) : Nat → List Bool
  | 0 => []
  | n + 1 => slave.sda r :: samples slave (r + 1) n

@[simp] theorem samples_length (r n : Nat) : (samples slave r n).length = n := by
  induction n generalizing r with
  | zero => rfl
  | succ n ih => simp [samples, ih]

theorem readBits_at (prompt : slave.Prompt) (n : Nat) (data : BitVec 8)
    (at_ : At w (.low true) seen) :
    (readBits slave n data w).2 = some ((samples slave w.reads n).foldl shiftIn data) ∧
      (readBits slave n data w).1.reads = w.reads + n ∧
      At (readBits slave n data w).1 (.low true) (seen ++ (samples slave w.reads n).map .bit) := by
  induction n generalizing w data seen with
  | zero => exact ⟨rfl, rfl, by simpa [readBits, samples] using at_⟩
  | succ n ih =>
    have sampled := scl_low_at (getSda_at slave (sclH_at slave at_))
    obtain ⟨value, reads, after⟩ := ih (shiftIn data (slave.sda w.reads)) sampled
    simp only [drive_reads, getSda_reads, sclH_reads] at value reads after
    simp only [readBits, sclH_ok prompt, Int.lt_irrefl, if_false, getSda_value, sclH_reads, samples,
      List.foldl_cons, List.map_cons]
    refine ⟨value, by lia, ?_⟩
    simpa [pending] using after

theorem readb_at {sda : Bool} (prompt : slave.Prompt) (at_ : At w (.low sda) seen) :
    (i2cReadb slave w).2 = some (byteOf (samples slave w.reads 8)) ∧
      (i2cReadb slave w).1.reads = w.reads + 8 ∧
      At (i2cReadb slave w).1 (.low true) (seen ++ (samples slave w.reads 8).map .bit) :=
  readBits_at prompt 8 0 (sda_at at_ true)

theorem sendAck_at (prompt : slave.Prompt) (ack : Bool) (at_ : At w (.low true) seen) :
    (i2cSendAckOrNack slave w ack).2 = 0 ∧ (i2cSendAckOrNack slave w ack).1.reads = w.reads ∧
      At (i2cSendAckOrNack slave w ack).1 (.low (!ack)) (seen ++ [.bit (!ack)]) := by
  simp only [i2cSendAckOrNack, sclH_ok prompt, Int.lt_irrefl, if_false]
  cases ack with
  | true => exact ⟨trivial, rfl, scl_low_at (sclH_at slave (sda_at at_ false))⟩
  | false => exact ⟨trivial, rfl, scl_low_at (sclH_at slave at_)⟩

end RtThread.I2cBit
