import RtThread.Ymodem

/-! The two sides of a ymodem transfer on a line that loses nothing. The callbacks accept; a step of
a side goes from one of its reads to the next. -/
namespace RtThread.YmodemLink
open Transition
open Ymodem hiding State Action Guard DeliversOnce Inv step start machine zeros guardChecked

def codeNak : UInt8 := 0x15

/-- The data of an SOH packet. -/
structure Payload where
  bytes : Bytes
  size : bytes.length = 128

def zeros : Payload := ⟨List.replicate 128 0, List.length_replicate⟩

/-- What the callbacks of the sender put into the packets: `data n` is that of the call `n` of on_data,
from 1; the call `last` sets RYM_STAGE_FINISHING, and on_end puts zeros. The timeouts are those of the
two handshakes, and `ms100` are the ticks of 100 ms. -/
structure Session where
  header : Payload
  data : Nat → Payload
  last : Nat
  some_data : 0 < last
  tmSend : Nat
  tm_send : 0 < tmSend
  tmRecv : Nat
  tm_recv : 0 < tmRecv
  ms100 : Nat

def rymSendPacket (code index : UInt8) (p : Payload) : Bytes :=
  let sendCrc := crc16 p.bytes
  code :: index :: ~~~ index :: p.bytes ++ [(sendCrc >>> 8).toUInt8, sendCrc.toUInt8]

/-- The reads of the sender. -/
inductive Sender where
  | handshake (i : Nat)
  | handshakeAck
  | handshakeC
  | transAck (index : Nat)
  | finNak
  | finAck
  | finC
  | returned (result : Except Ymodem.Err Unit)
  deriving DecidableEq

/-- The reads of the receiver; `idle` is before rym_recv_on_device. -/
inductive Receiver where
  | idle
  | handshake (i : Nat)
  | handshakeData (code : UInt8)
  | trans (stage : Stage)
  | finEot
  | finData
  | returned (result : Except Ymodem.Err Unit)

/-- What a side does up to its next read; `data` is what on_data is called with or has given. -/
structure Did (P : Type) where
  next : P
  sent : Bytes
  data : Option Bytes

def Session.sendHandshakeTurn (c : Session) (i : Nat) : Did Sender :=
  if i < c.tmSend then ⟨.handshake i, [], none⟩ else ⟨.returned (.error .tmo), [], none⟩

def Session.rymDoSendTrans (c : Session) (index : Nat) : Did Sender :=
  ⟨.transAck index, rymSendPacket codeSoh (UInt8.ofNat index) (c.data index), some (c.data index).bytes⟩

/-- getchar gives `getcAck`, where another one is expected or the side goes on as it `did`. -/
def expectCode (wanted getcAck : UInt8) (did : Did Sender) : Did Sender :=
  if getcAck ≠ wanted then ⟨.returned (.error .ack), [], none⟩ else did

/-- The sender from a read that gives `code`. -/
def Session.sends (c : Session) (code : UInt8) : Sender → Did Sender
  | .handshake i =>
    if code = codeC then ⟨.handshakeAck, rymSendPacket codeSoh 0 c.header, none⟩
    else c.sendHandshakeTurn (i + 1)
  | .handshakeAck => expectCode codeAck code ⟨.handshakeC, [], none⟩
  | .handshakeC => expectCode codeC code (c.rymDoSendTrans 1)
  | .transAck index =>
    expectCode codeAck code
      (if c.last ≤ index then ⟨.finNak, [codeEot], none⟩ else c.rymDoSendTrans (index + 1))
  | .finNak => expectCode codeNak code ⟨.finAck, [codeEot], none⟩
  | .finAck => expectCode codeAck code ⟨.finC, [], none⟩
  | .finC => expectCode codeC code ⟨.returned (.ok ()), rymSendPacket codeSoh 0 zeros, none⟩
  | .returned result => ⟨.returned result, [], none⟩

def Session.handshakeTurn (c : Session) (i : Nat) : Did Receiver :=
  if i < c.tmRecv then ⟨.handshake i, [codeC], none⟩ else ⟨.returned (.error .tmo), [], none⟩

def packageSz (code : UInt8) : Nat := if code = codeSoh then 133 else 1029

def sanityCheck (dataSz : Nat) (buf : Bytes) : Option Ymodem.Err :=
  let recvCrc := (buf.getD (dataSz - 2) 0).toUInt16 <<< 8 ||| (buf.getD (dataSz - 1) 0).toUInt16
  if buf.getD 1 0 ≠ 0 ∨ buf.getD 2 0 ≠ 0xFF then some .seq
  else if recvCrc ≠ crc16 ((buf.drop 3).take (dataSz - 5)) then some .crc
  else none

def transBegin : Did Receiver := ⟨.trans .established, [codeAck, codeC], none⟩

/-- _rym_do_handshake from the code that starts `buf`; `tick` and `now` are the two readings of the
tick before the data is read. -/
def Session.rymDoHandshake (c : Session) (buf : Bytes) (tick now : Nat) : Did Receiver :=
  let dataSz := packageSz (buf.getD 0 0)
  if ¬now ≤ (tick + c.ms100) % 2 ^ 32 ∨ buf.length ≠ dataSz then ⟨.returned (.error .dsz), [], none⟩
  else
    match sanityCheck dataSz buf with
    | some e => ⟨.returned (.error e), [], none⟩
    | none => transBegin

/-- A turn of the loop of _rym_do_trans, and the beginning of _rym_do_fin after the last one. -/
def transTurn (stage : Stage) (buf : Bytes) : Did Receiver :=
  let turn := rymDoTrans codeAck stage buf
  match turn.result with
  | none => ⟨.trans turn.stage, turn.sent, turn.called⟩
  | some (.ok _) => ⟨.finEot, turn.sent ++ [codeNak], turn.called⟩
  | some (.error e) => ⟨.returned (.error e), turn.sent, turn.called⟩

/-- _rym_do_fin from the last packet on. -/
def rymDoFin (buf : Bytes) : Did Receiver :=
  let code := (rymReadCode buf).1
  if code ≠ codeSoh ∧ code ≠ codeStx then ⟨.returned (.error .code), [], none⟩
  else if buf.length ≠ 133 then ⟨.returned (.error .dsz), [], none⟩
  else
    match sanityCheck 133 buf with
    | some e => ⟨.returned (.error e), [], none⟩
    | none => if buf.getD 3 0 ≠ 0 then transBegin else ⟨.returned (.ok ()), [codeAck], none⟩

/-- The receiver from a read that gives `buf`, fewer bytes than it wants if the read times out. -/
def Session.receives (c : Session) (buf : Bytes) (tick now : Nat) : Receiver → Did Receiver
  | .idle => c.handshakeTurn 0
  | .handshake i =>
    let code := (rymReadCode buf).1
    if code = codeSoh ∨ code = codeStx then ⟨.handshakeData code, [], none⟩ else c.handshakeTurn (i + 1)
  | .handshakeData code => c.rymDoHandshake (code :: buf) tick now
  | .trans stage => transTurn stage buf
  | .finEot =>
    if (rymReadCode buf).1 ≠ codeEot then ⟨.returned (.error .code), [], none⟩
    else ⟨.finData, [codeAck, codeC], none⟩
  | .finData => rymDoFin buf
  | .returned result => ⟨.returned result, [], none⟩

/-- How many bytes the receiver reads when these have come. -/
def Receiver.wanted (input : Bytes) : Receiver → Nat
  | .idle => 0
  | .handshake _ => 1
  | .handshakeData code => packageSz code - 1
  | .trans _ =>
    let code := input.getD 0 0
    if code = codeSoh ∨ code = codeStx then packageSz code else 1
  | .finEot => 1
  | .finData =>
    let code := input.getD 0 0
    if code = codeSoh ∨ code = codeStx then 133 else 1
  | .returned _ => 0

/-- `up` are the bytes under way to the receiver, `down` those to the sender. -/
structure State where
  sender : Sender
  receiver : Receiver
  up : Bytes
  down : Bytes

/-- The payloads of on_data. -/
inductive Event where
  | sent (payload : Bytes)
  | received (payload : Bytes)

/-- A silence is a read that times out; getchar waits for ever. -/
inductive Action where
  | sender
  | senderSilence
  | receiver (tick now : Nat)
  | receiverSilence

def State.senderDid (s : State) (down : Bytes) (did : Did Sender) : State × List Event :=
  (⟨did.next, s.receiver, s.up ++ did.sent, down⟩, did.data.toList.map .sent)

def State.receiverDid (s : State) (up : Bytes) (did : Did Receiver) : State × List Event :=
  (⟨s.sender, did.next, up, s.down ++ did.sent⟩, did.data.toList.map .received)

def Receiver.open (r : Receiver) : Bool :=
  match r with
  | .returned _ => false
  | _ => true

def step (c : Session) (s : State) : Action → Option (State × List Event)
  | .sender =>
    match s.sender, s.down with
    | .returned _, _ => none
    | _, [] => none
    | at_read, code :: down => some (s.senderDid down (c.sends code at_read))
  | .senderSilence =>
    match s.sender, s.down with
    | .handshake i, [] => some (s.senderDid [] (c.sendHandshakeTurn (i + 1)))
    | _, _ => none
  | .receiver tick now =>
    let wanted := s.receiver.wanted s.up
    if s.receiver.open ∧ wanted ≤ s.up.length then
      some (s.receiverDid (s.up.drop wanted) (c.receives (s.up.take wanted) tick now s.receiver))
    else none
  | .receiverSilence =>
    if s.receiver.open ∧ s.up.length < s.receiver.wanted s.up then
      some (s.receiverDid [] (c.receives s.up 0 0 s.receiver))
    else none

def start : State := ⟨.handshake 0, .idle, [], []⟩

def machine (c : Session) : Machine State Action Event where
  start := (· = start)
  step := step c

/-- The payloads that on_data of the sender has given. -/
def sentOf (tr : List Event) : List Bytes := tr.filterMap (fun | .sent p => some p | .received _ => none)

/-- The payloads that on_data of the receiver has been called with. -/
def receivedOf (tr : List Event) : List Bytes := tr.filterMap (fun | .sent _ => none | .received p => some p)

def Session.payloads (c : Session) (n : Nat) : List Bytes :=
  (List.range n).map (fun k => (c.data (k + 1)).bytes)

/-- Both sides have returned RT_EOK, and the receiver has got what the sender has given. -/
structure Agreed (c : Session) (tr : List Event) (s : State) : Prop where
  sender : s.sender = .returned (.ok ())
  receiver : s.receiver = .returned (.ok ())
  same : receivedOf tr = sentOf tr
  whole : sentOf tr = c.payloads c.last

/-- No read of the receiver times out, the wait of the sender for the first C does not, and the tick
is not past 100 ms, nor these past the end of the counter, as the receiver reads packet 0. -/
def Guard (c : Session) (s : State) : Action → Prop
  | .sender => True
  | .senderSilence => ∀ i, s.sender = .handshake i → i + 1 < c.tmSend
  | .receiver tick now => ∀ code, s.receiver = .handshakeData code → now ≤ (tick + c.ms100) % 2 ^ 32
  | .receiverSilence => False

def Session.turnsLeft (c : Session) : Sender → Nat
  | .handshake i => c.tmSend - i + c.last + 6
  | .handshakeAck => c.last + 5
  | .handshakeC => c.last + 4
  | .transAck index => c.last - index + 4
  | .finNak => 3
  | .finAck => 2
  | .finC => 1
  | .returned _ => 0

def Session.waitsLeft (c : Session) : Receiver → Nat
  | .idle => c.tmRecv + 5
  | .handshake i => c.tmRecv - i + 4
  | .returned _ => 0
  | _ => 4

/-- Each byte on its way is worth more than the receiver can wait again after it. -/
def rank (c : Session) (s : State) : Nat := 2000 * c.turnsLeft s.sender + 10 * s.up.length + c.waitsLeft s.receiver

variable {c : Session} {s s' : State} {a : Action} {tr es : List Event}

theorem rymSendPacket_length (code index : UInt8) (p : Payload) : (rymSendPacket code index p).length = 133 := by
  simp [rymSendPacket, p.size]

theorem expectCode_cases (wanted getcAck : UInt8) (did : Did Sender) :
    expectCode wanted getcAck did = ⟨.returned (.error .ack), [], none⟩ ∨
      expectCode wanted getcAck did = did := by
  unfold expectCode
  split
  · exact Or.inl rfl
  · exact Or.inr rfl

theorem sends_rank (code : UInt8) (at_read : Sender) (waits : ∀ result, at_read ≠ .returned result) :
    c.turnsLeft (c.sends code at_read).next < c.turnsLeft at_read ∧ (c.sends code at_read).sent.length ≤ 133 := by
  have turn : ∀ i, c.turnsLeft (c.sendHandshakeTurn (i + 1)).next < c.turnsLeft (.handshake i) ∧
      (c.sendHandshakeTurn (i + 1)).sent.length ≤ 133 := by
    intro i
    unfold Session.sendHandshakeTurn
    split <;> simp [Session.turnsLeft]
    lia
  cases at_read with
  | handshake i =>
    simp only [Session.sends]
    split
    · simp only [Session.turnsLeft, rymSendPacket_length]
      lia
    · exact turn i
  | transAck index =>
    simp only [Session.sends]
    rcases expectCode_cases codeAck code
      (if c.last ≤ index then ⟨.finNak, [codeEot], none⟩ else c.rymDoSendTrans (index + 1)) with wrong | right
    · simp [wrong, Session.turnsLeft]
    · rw [right]
      split
      · simp [Session.turnsLeft]
      · simp only [Session.rymDoSendTrans, Session.turnsLeft, rymSendPacket_length]
        lia
  | returned result => exact absurd rfl (waits result)
  | handshakeC =>
    have last := c.some_data
    simp only [Session.sends]
    rcases expectCode_cases codeC code (c.rymDoSendTrans 1) with wrong | right
    · simp [wrong, Session.turnsLeft]
    · rw [right]
      simp only [Session.rymDoSendTrans, Session.turnsLeft, rymSendPacket_length]
      lia
  | handshakeAck | finNak | finAck | finC =>
    simp only [Session.sends, expectCode]
    split <;> simp [Session.turnsLeft, rymSendPacket_length]

theorem handshakeTurn_waits (i : Nat) : c.waitsLeft (c.handshakeTurn (i + 1)).next < c.waitsLeft (.handshake i) := by
  unfold Session.handshakeTurn
  split <;> simp [Session.waitsLeft]
  lia

theorem receives_waits (buf : Bytes) (tick now : Nat) (r : Receiver) (opened : r.open = true) :
    c.waitsLeft (c.receives buf tick now r).next ≤ 4 ∨
      c.waitsLeft (c.receives buf tick now r).next < c.waitsLeft r := by
  cases r with
  | idle =>
    right
    simp only [Session.receives, Session.handshakeTurn]
    split <;> simp [Session.waitsLeft]
  | handshake i =>
    simp only [Session.receives]
    split
    · exact Or.inl (Nat.le_refl _)
    · exact Or.inr (handshakeTurn_waits i)
  | handshakeData code =>
    left
    simp only [Session.receives, Session.rymDoHandshake]
    split
    · simp [Session.waitsLeft]
    · split <;> simp [Session.waitsLeft, transBegin]
  | trans stage =>
    left
    simp only [Session.receives, transTurn]
    split <;> simp [Session.waitsLeft]
  | finEot =>
    left
    simp only [Session.receives]
    split <;> simp [Session.waitsLeft]
  | finData =>
    left
    simp only [Session.receives, rymDoFin]
    split
    · simp [Session.waitsLeft]
    · split
      · simp [Session.waitsLeft]
      · split
        · simp [Session.waitsLeft]
        · split <;> simp [Session.waitsLeft, transBegin]
  | returned result => cases opened

theorem receives_nothing (tick now : Nat) (r : Receiver) (opened : r.open = true) :
    c.waitsLeft (c.receives [] tick now r).next < c.waitsLeft r := by
  cases r with
  | idle =>
    simp only [Session.receives, Session.handshakeTurn]
    split <;> simp [Session.waitsLeft]
  | handshake i => exact handshakeTurn_waits i
  | handshakeData code =>
    have short : ([code] : Bytes).length ≠ packageSz code := by
      unfold packageSz
      split <;> simp
    simp only [Session.receives, Session.rymDoHandshake, List.getD_cons_zero, if_pos (Or.inr short)]
    simp [Session.waitsLeft]
  | trans stage => exact Nat.zero_lt_succ _
  | finEot => exact Nat.zero_lt_succ _
  | finData => exact Nat.zero_lt_succ _
  | returned result => cases opened

theorem step_cases (taken : step c s a = some (s', es)) :
    (a = .sender ∧ (∀ result, s.sender ≠ .returned result) ∧
      ∃ code down, s.down = code :: down ∧ (s', es) = s.senderDid down (c.sends code s.sender)) ∨
    (a = .senderSilence ∧ ∃ i, s.sender = .handshake i ∧ s.down = [] ∧
      (s', es) = s.senderDid [] (c.sendHandshakeTurn (i + 1))) ∨
    (∃ tick now, a = .receiver tick now ∧ s.receiver.open = true ∧ s.receiver.wanted s.up ≤ s.up.length ∧
      (s', es) = s.receiverDid (s.up.drop (s.receiver.wanted s.up))
        (c.receives (s.up.take (s.receiver.wanted s.up)) tick now s.receiver)) ∨
    (a = .receiverSilence ∧ s.receiver.open = true ∧ s.up.length < s.receiver.wanted s.up ∧
      (s', es) = s.receiverDid [] (c.receives s.up 0 0 s.receiver)) := by
  cases a with
  | sender =>
    simp only [step] at taken
    split at taken
    · contradiction
    · contradiction
    · rename_i code down read waits
      exact Or.inl ⟨rfl, waits, code, down, read, (Option.some.inj taken).symm⟩
  | senderSilence =>
    simp only [step] at taken
    split at taken
    · rename_i i reads nothing
      exact Or.inr (Or.inl ⟨rfl, i, reads, nothing, (Option.some.inj taken).symm⟩)
    · contradiction
  | receiver tick now =>
    simp only [step] at taken
    split at taken
    · rename_i reads
      exact Or.inr (Or.inr (Or.inl ⟨tick, now, rfl, reads.1, reads.2, (Option.some.inj taken).symm⟩))
    · contradiction
  | receiverSilence =>
    simp only [step] at taken
    split at taken
    · rename_i reads
      exact Or.inr (Or.inr (Or.inr ⟨rfl, reads.1, reads.2, (Option.some.inj taken).symm⟩))
    · contradiction

/-- Every run comes to an end. -/
theorem step_rank (taken : step c s a = some (s', es)) : rank c s' < rank c s := by
  unfold rank
  obtain ⟨_, waits, code, down, read, did⟩ | ⟨_, i, reads, nothing, did⟩ | ⟨tick, now, _, opened, enough, did⟩ |
    ⟨_, opened, short, did⟩ := step_cases taken
  · cases did
    dsimp only
    obtain ⟨fewer, bytes⟩ := sends_rank (c := c) code s.sender waits
    rw [List.length_append]
    lia
  · cases did
    dsimp only
    rw [List.length_append, reads]
    unfold Session.sendHandshakeTurn
    split
    · simp only [Session.turnsLeft, List.length_nil]
      lia
    · simp [Session.turnsLeft]
  · cases did
    dsimp only
    rw [List.length_drop]
    by_cases nothing : s.receiver.wanted s.up = 0
    · have fewer := receives_nothing (c := c) tick now s.receiver opened
      rw [nothing, List.take_zero]
      lia
    · have waits := receives_waits (c := c) (s.up.take (s.receiver.wanted s.up)) tick now s.receiver opened
      lia
  · cases did
    dsimp only
    by_cases nothing : s.up = []
    · have fewer := receives_nothing (c := c) 0 0 s.receiver opened
      rw [nothing]
      lia
    · have some_byte := List.length_pos_iff.mpr nothing
      have waits := receives_waits (c := c) s.up 0 0 s.receiver opened
      rw [List.length_nil]
      lia

/-- The packets of a session, and what is under way when both sides are at these reads and everything
has gone well; `k` and `l` count the calls of on_data of the sender and of the receiver. -/
inductive Phase (c : Session) : Nat → Nat → State → Prop where
  | idle {i : Nat} : i < c.tmSend → Phase c 0 0 ⟨.handshake i, .idle, [], []⟩
  | called {i : Nat} : i < c.tmSend → Phase c 0 0 ⟨.handshake i, .handshake 0, [], [codeC]⟩
  | answered : Phase c 0 0 ⟨.handshakeAck, .handshake 0, rymSendPacket codeSoh 0 c.header, []⟩
  | header : Phase c 0 0 ⟨.handshakeAck, .handshakeData codeSoh, (rymSendPacket codeSoh 0 c.header).tail, []⟩
  | accepted : Phase c 0 0 ⟨.handshakeAck, .trans .established, [], [codeAck, codeC]⟩
  | established : Phase c 0 0 ⟨.handshakeC, .trans .established, [], [codeC]⟩
  | data {n : Nat} {stage : Stage} : n < c.last → (stage = .established → n = 0) →
      Phase c (n + 1) n ⟨.transAck (n + 1), .trans stage,
        rymSendPacket codeSoh (UInt8.ofNat (n + 1)) (c.data (n + 1)), []⟩
  | acked {n : Nat} : n < c.last → Phase c (n + 1) (n + 1) ⟨.transAck (n + 1), .trans .transmitting, [], [codeAck]⟩
  | eot : Phase c c.last c.last ⟨.finNak, .trans .transmitting, [codeEot], []⟩
  | refused : Phase c c.last c.last ⟨.finNak, .finEot, [], [codeNak]⟩
  | eotAgain : Phase c c.last c.last ⟨.finAck, .finEot, [codeEot], []⟩
  | ended : Phase c c.last c.last ⟨.finAck, .finData, [], [codeAck, codeC]⟩
  | endedC : Phase c c.last c.last ⟨.finC, .finData, [], [codeC]⟩
  | closing : Phase c c.last c.last ⟨.returned (.ok ()), .finData, rymSendPacket codeSoh 0 zeros, []⟩
  | closed : Phase c c.last c.last ⟨.returned (.ok ()), .returned (.ok ()), [], [codeAck]⟩

def Payload.block (p : Payload) : Block := ⟨p.bytes, Or.inl p.size⟩

theorem rymSendPacket_block (n : Nat) (p : Payload) :
    rymSendPacket codeSoh (UInt8.ofNat n) p = p.block.packet n := by
  simp [rymSendPacket, Block.packet, Payload.block, p.size]

theorem sanityCheck_packet (p : Payload) : sanityCheck 133 (rymSendPacket codeSoh 0 p) = none := by
  have block : rymSendPacket codeSoh 0 p = p.block.packet 0 := rymSendPacket_block 0 p
  have size : p.block.payload.length = 128 := p.size
  have payload := packet_payload (n := 0) (b := p.block)
  have crc := packet_crc (n := 0) (b := p.block)
  rw [size, ← block] at payload crc
  have numbered : ¬((rymSendPacket codeSoh 0 p).getD 1 0 ≠ 0 ∨ (rymSendPacket codeSoh 0 p).getD 2 0 ≠ 0xFF) := by
    rintro (number | complement)
    · exact number rfl
    · exact complement rfl
  simp only [sanityCheck]
  rw [if_neg numbered, payload, if_neg (not_not_intro crc)]

theorem transTurn_packet {n : Nat} {stage : Stage} (p : Payload) (first : stage = .established → n = 0) :
    transTurn stage (rymSendPacket codeSoh (UInt8.ofNat (n + 1)) p) =
      ⟨.trans .transmitting, [codeAck], some p.bytes⟩ := by
  have fresh : ¬(stage = .established ∧ (n + 1) % 256 = 0) := by
    rintro ⟨established, wrapped⟩
    rw [first established] at wrapped
    contradiction
  rw [rymSendPacket_block]
  simp only [transTurn, rymDoTrans_acked fresh]
  rfl

theorem rymDoHandshake_packet {tick now : Nat} (p : Payload) (in_time : now ≤ (tick + c.ms100) % 2 ^ 32) :
    c.rymDoHandshake (rymSendPacket codeSoh 0 p) tick now = transBegin := by
  have size : packageSz ((rymSendPacket codeSoh 0 p).getD 0 0) = 133 := rfl
  have length := rymSendPacket_length codeSoh 0 p
  simp only [Session.rymDoHandshake, size, sanityCheck_packet, length, ne_eq, not_true, or_false,
    not_not_intro in_time, if_false]

theorem rymDoFin_zeros : rymDoFin (rymSendPacket codeSoh 0 zeros) = ⟨.returned (.ok ()), [codeAck], none⟩ := by
  have length := rymSendPacket_length codeSoh 0 zeros
  have known : ¬(codeSoh ≠ codeSoh ∧ codeSoh ≠ codeStx) := by simp
  have first : (rymReadCode (rymSendPacket codeSoh 0 zeros)).1 = codeSoh := rfl
  simp only [rymDoFin, first, sanityCheck_packet, length]
  rw [if_neg known]
  rfl

/-- The calls of on_data that a history shows. -/
def Shows (c : Session) (k l : Nat) (tr : List Event) : Prop :=
  sentOf tr = c.payloads k ∧ receivedOf tr = c.payloads l

theorem Shows.silent {k l : Nat} (shows : Shows c k l tr) : Shows c k l (tr ++ []) := by
  rwa [List.append_nil]

theorem payloads_succ (n : Nat) : c.payloads (n + 1) = c.payloads n ++ [(c.data (n + 1)).bytes] := by
  simp [Session.payloads, List.range_succ]

theorem sentOf_append (tr es : List Event) : sentOf (tr ++ es) = sentOf tr ++ sentOf es :=
  List.filterMap_append ..

theorem receivedOf_append (tr es : List Event) : receivedOf (tr ++ es) = receivedOf tr ++ receivedOf es :=
  List.filterMap_append ..

theorem Shows.sent {k l : Nat} (shows : Shows c k l tr) :
    Shows c (k + 1) l (tr ++ [.sent (c.data (k + 1)).bytes]) := by
  unfold Shows
  rw [sentOf_append, receivedOf_append, payloads_succ, shows.1, shows.2]
  exact ⟨rfl, List.append_nil _⟩

theorem Shows.received {k l : Nat} (shows : Shows c k l tr) :
    Shows c k (l + 1) (tr ++ [.received (c.data (l + 1)).bytes]) := by
  unfold Shows
  rw [sentOf_append, receivedOf_append, payloads_succ, shows.1, shows.2]
  exact ⟨List.append_nil _, rfl⟩

theorem sender_phase {k l : Nat} {code : UInt8} {down : Bytes} (phase : Phase c k l s) (shows : Shows c k l tr)
    (waits : ∀ result, s.sender ≠ .returned result) (read : s.down = code :: down)
    (did : (s', es) = s.senderDid down (c.sends code s.sender)) :
    ∃ k' l', Phase c k' l' s' ∧ Shows c k' l' (tr ++ es) := by
  cases phase with
  | called early =>
    cases read
    cases did
    exact ⟨0, 0, .answered, shows.silent⟩
  | accepted =>
    cases read
    cases did
    exact ⟨0, 0, .established, shows.silent⟩
  | established =>
    cases read
    cases did
    exact ⟨1, 0, .data c.some_data (fun _ => rfl), shows.sent⟩
  | @acked n inside =>
    cases read
    have acknowledged : c.sends codeAck (.transAck (n + 1)) =
        if c.last ≤ n + 1 then ⟨.finNak, [codeEot], none⟩ else c.rymDoSendTrans (n + 1 + 1) := rfl
    rw [acknowledged] at did
    split at did
    · rename_i finishing
      have all : n + 1 = c.last := by lia
      cases did
      rw [all] at shows
      exact ⟨c.last, c.last, .eot, shows.silent⟩
    · cases did
      exact ⟨n + 1 + 1, n + 1, .data (by lia) (fun established => by cases established), shows.sent⟩
  | refused =>
    cases read
    cases did
    exact ⟨c.last, c.last, .eotAgain, shows.silent⟩
  | ended =>
    cases read
    cases did
    exact ⟨c.last, c.last, .endedC, shows.silent⟩
  | endedC =>
    cases read
    have closes : c.sends codeC .finC = ⟨.returned (.ok ()), rymSendPacket codeSoh 0 zeros, none⟩ := rfl
    rw [closes, State.senderDid, List.nil_append] at did
    cases did
    exact ⟨c.last, c.last, .closing, shows.silent⟩
  | closed => exact absurd rfl (waits _)
  | _ => cases read

theorem receiver_phase {k l tick now : Nat} (phase : Phase c k l s) (shows : Shows c k l tr)
    (guard : Guard c s (.receiver tick now)) (opened : s.receiver.open = true)
    (enough : s.receiver.wanted s.up ≤ s.up.length)
    (did : (s', es) = s.receiverDid (s.up.drop (s.receiver.wanted s.up))
      (c.receives (s.up.take (s.receiver.wanted s.up)) tick now s.receiver)) :
    ∃ k' l', Phase c k' l' s' ∧ Shows c k' l' (tr ++ es) := by
  cases phase with
  | idle early =>
    have turn : c.handshakeTurn 0 = ⟨.handshake 0, [codeC], none⟩ := if_pos c.tm_recv
    simp only [Session.receives, turn] at did
    cases did
    exact ⟨0, 0, .called early, shows.silent⟩
  | answered =>
    cases did
    exact ⟨0, 0, .header, shows.silent⟩
  | header =>
    have length := rymSendPacket_length codeSoh 0 c.header
    have whole : codeSoh :: (rymSendPacket codeSoh 0 c.header).tail = rymSendPacket codeSoh 0 c.header := rfl
    have all : Receiver.wanted (rymSendPacket codeSoh 0 c.header).tail (.handshakeData codeSoh) =
        (rymSendPacket codeSoh 0 c.header).tail.length := by
      rw [List.length_tail, length]
      rfl
    simp only [all, List.drop_length, List.take_length, Session.receives, whole,
      rymDoHandshake_packet c.header (guard codeSoh rfl), transBegin, State.receiverDid, List.nil_append] at did
    cases did
    exact ⟨0, 0, .accepted, shows.silent⟩
  | @data _ stage inside first =>
    have length := rymSendPacket_length codeSoh (UInt8.ofNat (l + 1)) (c.data (l + 1))
    have all : Receiver.wanted (rymSendPacket codeSoh (UInt8.ofNat (l + 1)) (c.data (l + 1))) (.trans stage) =
        (rymSendPacket codeSoh (UInt8.ofNat (l + 1)) (c.data (l + 1))).length := by
      rw [length]
      rfl
    simp only [all, List.drop_length, List.take_length, Session.receives, transTurn_packet (c.data (l + 1)) first,
      State.receiverDid, List.nil_append] at did
    cases did
    exact ⟨l + 1, l + 1, .acked inside, shows.received⟩
  | eot =>
    cases did
    exact ⟨c.last, c.last, .refused, shows.silent⟩
  | eotAgain =>
    cases did
    exact ⟨c.last, c.last, .ended, shows.silent⟩
  | closing =>
    have length := rymSendPacket_length codeSoh 0 zeros
    have all : Receiver.wanted (rymSendPacket codeSoh 0 zeros) .finData = (rymSendPacket codeSoh 0 zeros).length := by
      rw [length]
      rfl
    simp only [all, List.drop_length, List.take_length, Session.receives, rymDoFin_zeros,
      State.receiverDid, List.nil_append] at did
    cases did
    exact ⟨c.last, c.last, .closed, shows.silent⟩
  | closed => cases opened
  | _ => cases enough

theorem phase_step {k l : Nat} (phase : Phase c k l s) (shows : Shows c k l tr) (guard : Guard c s a)
    (taken : step c s a = some (s', es)) : ∃ k' l', Phase c k' l' s' ∧ Shows c k' l' (tr ++ es) := by
  obtain ⟨rfl, waits, code, down, read, did⟩ | ⟨rfl, i, reads, nothing, did⟩ | ⟨tick, now, rfl, opened, enough, did⟩ |
    ⟨rfl, _⟩ := step_cases taken
  · exact sender_phase phase shows waits read did
  · cases phase with
    | idle early =>
      cases reads
      have turn : c.sendHandshakeTurn (i + 1) = ⟨.handshake (i + 1), [], none⟩ := if_pos (guard i rfl)
      rw [turn] at did
      cases did
      exact ⟨0, 0, .idle (guard i rfl), shows.silent⟩
    | called => cases nothing
    | _ => cases reads
  · exact receiver_phase phase shows guard opened enough did
  · exact guard.elim

/-- What is under way is all that the receiver wants, or it waits and the sender has to read. -/
theorem phase_reads {k l : Nat} (phase : Phase c k l s) (opened : s.receiver.open = true) :
    s.receiver.wanted s.up ≤ s.up.length ∨
      (s.up = [] ∧ ∃ s' es, step c s .sender = some (s', es)) := by
  have header := rymSendPacket_length codeSoh 0 c.header
  cases phase with
  | idle => exact Or.inl (Nat.le_refl _)
  | answered =>
    left
    rw [header]
    exact (by decide : 1 ≤ 133)
  | header =>
    left
    rw [List.length_tail, header]
    exact Nat.le_refl 132
  | @data n stage =>
    left
    rw [rymSendPacket_length]
    exact Nat.le_refl 133
  | eot => exact Or.inl (Nat.le_refl 1)
  | eotAgain => exact Or.inl (Nat.le_refl 1)
  | closing =>
    left
    rw [rymSendPacket_length]
    exact Nat.le_refl 133
  | closed => cases opened
  | called | accepted | established | acked | refused | ended | endedC => exact Or.inr ⟨rfl, _, _, rfl⟩

/-- As long as the receiver has not returned, one of the sides can go on. -/
theorem phase_open {k l : Nat} (phase : Phase c k l s) (opened : s.receiver.open = true) :
    ∃ a s' es, Guard c s a ∧ step c s a = some (s', es) := by
  rcases phase_reads phase opened with enough | ⟨_, s', es, taken⟩
  · exact ⟨.receiver 0 0, _, _, fun _ _ => Nat.zero_le _, if_pos ⟨opened, enough⟩⟩
  · exact ⟨.sender, s', es, trivial, taken⟩

/-- States from which the sides do not agree any more: one has failed, or the sender will read a C for
the ACK. -/
inductive Spoiled : State → Prop where
  | sender {e : Ymodem.Err} {r : Receiver} {up down : Bytes} : Spoiled ⟨.returned (.error e), r, up, down⟩
  | receiver {e : Ymodem.Err} {w : Sender} {up down : Bytes} : Spoiled ⟨w, .returned (.error e), up, down⟩
  | twice {i : Nat} {r : Receiver} {up down : Bytes} : Spoiled ⟨.handshake i, r, up, codeC :: codeC :: down⟩
  | surplus {r : Receiver} {up down : Bytes} : Spoiled ⟨.handshakeAck, r, up, codeC :: down⟩

theorem spoiled_step (spoiled : Spoiled s) (taken : step c s a = some (s', es)) : Spoiled s' := by
  obtain ⟨rfl, waits, code, down, read, did⟩ | ⟨rfl, i, reads, nothing, did⟩ | ⟨tick, now, rfl, opened, _, did⟩ |
    ⟨rfl, opened, _, did⟩ := step_cases taken
  · cases spoiled with
    | sender => exact absurd rfl (waits _)
    | receiver =>
      cases did
      exact .receiver
    | twice =>
      cases read
      cases did
      exact .surplus
    | surplus =>
      cases read
      cases did
      exact .sender
  · cases spoiled with
    | sender => cases reads
    | receiver =>
      cases did
      exact .receiver
    | twice => cases nothing
    | surplus => cases reads
  all_goals
    cases spoiled with
    | sender =>
      cases did
      exact .sender
    | receiver => cases opened
    | twice =>
      cases did
      exact .twice
    | surplus =>
      cases did
      exact .surplus

theorem silence_fails {r : Receiver} (opened : r.open = true) (waits : 0 < r.wanted [])
    (later : ∀ i, r ≠ .handshake i) : ∃ e, (c.receives [] 0 0 r).next = .returned (.error e) := by
  cases r with
  | idle => cases waits
  | handshake i => exact absurd rfl (later i)
  | handshakeData code =>
    have short : ([code] : Bytes).length ≠ packageSz code := by
      unfold packageSz
      split <;> simp
    simp only [Session.receives, Session.rymDoHandshake, List.getD_cons_zero, if_pos (Or.inr short)]
    exact ⟨.dsz, rfl⟩
  | trans stage => exact ⟨.code, rfl⟩
  | finEot => exact ⟨.code, rfl⟩
  | finData => exact ⟨.code, rfl⟩
  | returned result => cases opened

/-- A step that does not meet the condition. -/
theorem phase_spoils {k l : Nat} (phase : Phase c k l s) (guard : ¬Guard c s a)
    (taken : step c s a = some (s', es)) : Spoiled s' := by
  obtain ⟨rfl, _⟩ | ⟨rfl, i, reads, nothing, did⟩ | ⟨tick, now, rfl, opened, enough, did⟩ |
    ⟨rfl, opened, short, did⟩ := step_cases taken
  · exact absurd trivial guard
  · have late : ¬i + 1 < c.tmSend := by
      intro early
      apply guard
      intro j same
      rw [reads] at same
      cases same
      exact early
    have turn : c.sendHandshakeTurn (i + 1) = ⟨.returned (.error .tmo), [], none⟩ := if_neg late
    rw [turn] at did
    cases did
    exact .sender
  · simp only [Guard, not_forall] at guard
    obtain ⟨code, reads, late⟩ := guard
    simp only [reads, Session.receives, Session.rymDoHandshake, if_pos (Or.inl late)] at did
    cases did
    exact .receiver
  · rcases phase_reads phase opened with enough | ⟨empty, _⟩
    · lia
    · rw [empty] at did short
      by_cases calling : ∃ j, s.receiver = .handshake j
      · cases phase with
        | called early =>
          have again : c.receives [] 0 0 (.handshake 0) = c.handshakeTurn 1 := rfl
          unfold Session.handshakeTurn at again
          rw [again] at did
          split at did
          · cases did
            exact .twice
          · cases did
            exact .receiver
        | answered => cases empty
        | _ =>
          obtain ⟨j, same⟩ := calling
          cases same
      · obtain ⟨e, failed⟩ := silence_fails (c := c) opened (by lia) (fun j same => calling ⟨j, same⟩)
        cases did
        rw [failed]
        exact .receiver

theorem run_phase (run : RunWhere (machine c) (Guard c) tr s) : ∃ k l, Phase c k l s ∧ Shows c k l tr := by
  apply RunWhere.invariant (I := fun tr s => ∃ k l, Phase c k l s ∧ Shows c k l tr) ?_ ?_ run
  · rintro s rfl
    exact ⟨0, 0, .idle c.tm_send, rfl, rfl⟩
  · rintro tr s a s' es _ ⟨k, l, phase, shows⟩ guard taken
    exact phase_step phase shows guard taken

theorem run_spoiled (run : Run (machine c) tr s) : RunWhere (machine c) (Guard c) tr s ∨ Spoiled s := by
  induction run with
  | start begin => exact Or.inl (.start begin)
  | @step tr es s s' a _ taken ih =>
    rcases ih with good | spoiled
    · by_cases guard : Guard c s a
      · exact Or.inl (.step good guard taken)
      · obtain ⟨k, l, phase, _⟩ := run_phase good
        exact Or.inr (phase_spoils phase guard taken)
    · exact Or.inr (spoiled_step spoiled taken)

theorem phase_agreed {k l : Nat} (phase : Phase c k l s) (shows : Shows c k l tr) (returned : s.receiver.open = false) :
    Agreed c tr s := by
  cases phase with
  | closed => exact ⟨rfl, rfl, shows.2.trans shows.1.symm, shows.1⟩
  | _ => cases returned

theorem Spoiled.disagreed (spoiled : Spoiled s) : ¬Agreed c tr s := by
  intro agreed
  cases spoiled with
  | sender => cases agreed.sender
  | receiver => cases agreed.receiver
  | twice => cases agreed.sender
  | surplus => cases agreed.sender

/-- No run goes on for ever, and where one has come to its end the sides agree just if all its steps
have met the condition. -/
theorem transfer_agrees (c : Session) :
    WellFounded (fun s' s => ∃ a es, step c s a = some (s', es)) ∧
    ∀ tr s, Run (machine c) tr s → (∀ a, Guard c s a → step c s a = none) →
      (Agreed c tr s ↔ RunWhere (machine c) (Guard c) tr s) := by
  refine ⟨?_, ?_⟩
  · apply Subrelation.wf ?_ (InvImage.wf (rank c) Nat.lt_wfRel.wf)
    rintro s' s ⟨a, es, taken⟩
    exact step_rank taken
  · intro tr s run ended
    constructor
    · intro agreed
      rcases run_spoiled run with good | spoiled
      · exact good
      · exact absurd agreed spoiled.disagreed
    · intro good
      obtain ⟨k, l, phase, shows⟩ := run_phase good
      apply phase_agreed phase shows
      by_contra opened
      obtain ⟨a, s', es, guard, taken⟩ := phase_open phase (by simpa using opened)
      rw [ended a guard] at taken
      cases taken

/-- A file of one block of zeros. -/
def oneBlock : Session := ⟨zeros, fun _ => zeros, 1, by decide, 10, by decide, 10, by decide, 100⟩

theorem transfer_agrees_block : ∃ tr s, Agreed oneBlock tr s ∧ sentOf tr = [zeros.bytes] := by
  obtain ⟨tr, s, run, ended⟩ := RunWhere.ends (rank oneBlock) (fun _ _ _ _ => step_rank)
    (RunWhere.start (M := machine oneBlock) rfl)
  have agreed := ((transfer_agrees oneBlock).2 tr s run.run ended).mpr run
  exact ⟨tr, s, agreed, agreed.whole⟩

/-- The sender begins after the receiver has sent its second C. -/
theorem transfer_disagrees : ∃ tr s, Run (machine oneBlock) tr s ∧
    s.sender = .returned (.error .ack) ∧ ∀ tr', ¬Agreed oneBlock tr' s := by
  obtain ⟨tr, s, run, found⟩ := Run.reaches (M := machine oneBlock) (s := start) rfl
    [.receiver 0 0, .receiverSilence, .sender, .sender]
    (fun s => decide (s.sender = .returned (.error .ack))) (by decide +kernel)
  have failed : s.sender = .returned (.error .ack) := of_decide_eq_true found
  refine ⟨tr, s, run, failed, ?_⟩
  intro tr' agreed
  rw [agreed.sender] at failed
  cases failed

end RtThread.YmodemLink
