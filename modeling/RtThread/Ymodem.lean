import RtThread.Run
import Mathlib.Data.List.Count
import Mathlib.Data.UInt

/-! The receiving side of a ymodem transfer: _rym_do_trans over the packets of a sender that
repeats a packet until it has the reply, on a line that loses packets and replies. -/
namespace RtThread.Ymodem
open Transition

abbrev Bytes := List UInt8

def codeNone : UInt8 := 0x00
def codeSoh : UInt8 := 0x01
def codeStx : UInt8 := 0x02
def codeEot : UInt8 := 0x04
def codeAck : UInt8 := 0x06
def codeCan : UInt8 := 0x18
def codeC : UInt8 := 0x43

def endSessionSendCanNum : Nat := 7

/-- The RYM_ERR values of a transfer. -/
inductive Err where
  | tmo
  | code
  | seq
  | crc
  | dsz
  | can
  | ack
  deriving DecidableEq

/-- The stages from the first ACK of the receiver to the EOT. -/
inductive Stage where
  | established
  | transmitting
  deriving DecidableEq

def crcShift (crc : UInt16) : UInt16 :=
  if crc &&& 0x8000 ≠ 0 then crc <<< 1 ^^^ 0x1021 else crc <<< 1

def crcByte (crc : UInt16) (q : UInt8) : UInt16 := crcShift^[8] (crc ^^^ q.toUInt16 <<< 8)

/-- CRC16, without the table. -/
def crc16 (q : Bytes) : UInt16 := q.foldl crcByte 0

/-- _rym_read_code; `input` is what comes before the line falls silent for the whole timeout. -/
def rymReadCode : Bytes → UInt8 × Bytes
  | [] => (codeNone, [])
  | code :: input => (code, input)

/-- What _rym_trans_data leaves: the stage, the payload on_data was called with, and the code
for the sender or the error. -/
structure TransData where
  stage : Stage
  called : Option Bytes
  code : Except Err UInt8

/-- `buf` is the code that was read and up to `2 + dataSz + 2` bytes after it. The answer is
on_data's; RT_NULL is an on_data that acknowledges. -/
def rymTransData (answer : UInt8) (stage : Stage) (buf : Bytes) (dataSz : Nat) : TransData :=
  let tsz := 2 + dataSz + 2
  if buf.length ≠ 1 + tsz then ⟨stage, none, .error .dsz⟩
  else if (buf.getD 1 0).toNat + (buf.getD 2 0).toNat ≠ 0xFF then ⟨stage, none, .error .seq⟩
  else if stage = .established ∧ buf.getD 1 0 = 0x00 then ⟨stage, none, .ok codeNone⟩
  else
    let recvCrc := (buf.getD (tsz - 1) 0).toUInt16 <<< 8 ||| (buf.getD tsz 0).toUInt16
    let payload := (buf.drop 3).take dataSz
    if recvCrc ≠ crc16 payload then ⟨.transmitting, none, .error .crc⟩
    else ⟨.transmitting, some payload, .ok answer⟩

/-- What one turn of the loop of _rym_do_trans does; `result` is set where it returns. -/
structure Turn where
  stage : Stage
  called : Option Bytes
  sent : Bytes
  result : Option (Except Err Unit)

def transReply (r : TransData) : Turn :=
  match r.code with
  | .error e => ⟨r.stage, r.called, [], some (.error e)⟩
  | .ok code =>
    if code = codeCan then
      ⟨r.stage, r.called, List.replicate endSessionSendCanNum codeCan, some (.error .can)⟩
    else if code = codeAck then ⟨r.stage, r.called, [codeAck], none⟩
    else ⟨r.stage, r.called, [], none⟩

/-- The body of the loop of _rym_do_trans. -/
def rymDoTrans (answer : UInt8) (stage : Stage) (input : Bytes) : Turn :=
  let (code, rest) := rymReadCode input
  let data dataSz := transReply (rymTransData answer stage (code :: rest.take (2 + dataSz + 2)) dataSz)
  if code = codeSoh then data 128
  else if code = codeStx then data 1024
  else if code = codeEot then ⟨stage, none, [], some (.ok ())⟩
  else ⟨stage, none, [], some (.error .code)⟩

/-- The data of one packet. -/
structure Block where
  payload : Bytes
  size : payload.length = 128 ∨ payload.length = 1024

def Block.packet (n : Nat) (b : Block) : Bytes :=
  let code := if b.payload.length = 128 then codeSoh else codeStx
  let crc := crc16 b.payload
  code :: UInt8.ofNat n :: ~~~ UInt8.ofNat n :: b.payload ++ [(crc >>> 8).toUInt8, crc.toUInt8]

/-- What a sender transmits for its packet `n`: packet 0 is the header, the last one the EOT. -/
def packetAt (file : List Block) (n : Nat) : Bytes :=
  match file[n]? with
  | some b => b.packet n
  | none => [codeEot]

/-- A call of on_data, and the packet whose payload it got. -/
structure Call where
  number : Nat
  payload : Bytes

/-- `current` is the packet the sender is at, `line` the packets and `replies` the bytes under
way. `calls` and `acked` are the history: the calls of on_data, and the packets answered by ACK. -/
structure State where
  stage : Stage
  result : Option (Except Err Unit)
  current : Nat
  line : List Nat
  replies : Bytes
  calls : List Call
  acked : List Nat

inductive Action where
  | transmit
  | lose
  | receive (answer : UInt8)
  | silence
  | reply
  | loseReply

/-- The sender goes on at an ACK. -/
def State.replied (s : State) (file : List Block) (code : UInt8) : State :=
  if code = codeAck ∧ s.current < file.length then { s with current := s.current + 1 } else s

/-- A turn of the receiver's loop, for the packet `n`. -/
def State.turned (s : State) (n : Nat) (turn : Turn) : State :=
  { s with
    stage := turn.stage
    result := turn.result
    replies := s.replies ++ turn.sent
    calls := s.calls ++ turn.called.toList.map (Call.mk n)
    acked := if codeAck ∈ turn.sent then s.acked ++ [n] else s.acked }

def step (file : List Block) (s : State) : Action → Option State
  | .transmit => some { s with line := s.line ++ [s.current] }
  | .lose =>
    match s.line with
    | [] => none
    | _ :: rest => some { s with line := rest }
  | .receive answer =>
    match s.result, s.line with
    | none, n :: rest =>
      some ({ s with line := rest }.turned n (rymDoTrans answer s.stage (packetAt file n)))
    | _, _ => none
  | .silence =>
    match s.result with
    | none => some { s with result := (rymDoTrans codeAck s.stage []).result }
    | some _ => none
  | .reply =>
    match s.replies with
    | [] => none
    | code :: rest => some ({ s with replies := rest }.replied file code)
  | .loseReply =>
    match s.replies with
    | [] => none
    | _ :: rest => some { s with replies := rest }

/-- After the handshake: packet 0 is received, and ACK and C have been sent for it. -/
def start : State := ⟨.established, none, 0, [], [codeAck, codeC], [], []⟩

def machine (file : List Block) : Machine State Action Unit where
  start := (· = start)
  step s a := (step file s a).map (fun s => (s, []))

/-- The number that follows the last one delivered. -/
def expected (calls : List Call) : Nat := ((calls.getLast?).elim 0 Call.number) + 1

def deliveries (s : State) (n : Nat) : Nat := (s.calls.map Call.number).count n

/-- What a receiver has to do. A block is acknowledged where the receiver has replied ACK to
its packet, and also where the sender has gone on to a later one. -/
structure DeliversOnce (file : List Block) (s : State) : Prop where
  acked : ∀ n ∈ s.acked, deliveries s n = 1
  confirmed : ∀ n, 0 < n → n < s.current → deliveries s n = 1
  in_order : (s.calls.map Call.number).Pairwise (· < ·)
  payloads : ∀ c ∈ s.calls, file[c.number]?.map Block.payload = some c.payload
  in_window : ∀ before c after, s.calls = before ++ c :: after →
    c.number % 256 = expected before % 256 ∨ (c.number + 1) % 256 = expected before % 256

/-- A data packet that comes to the receiver, other than a repeated packet 0 before the first
block, has the number after those of the blocks delivered. -/
def Guard (file : List Block) (s : State) (a : Action) : Prop :=
  ∀ answer n rest, a = .receive answer → s.line = n :: rest → n < file.length →
    ¬ (s.stage = .established ∧ n % 256 = 0) → n % 256 = (s.calls.length + 1) % 256

section Packets
variable {file : List Block} {answer : UInt8} {stage : Stage} {n : Nat} {b : Block}

theorem crc_joined (crc : UInt16) :
    ((crc >>> 8).toUInt8).toUInt16 <<< 8 ||| (crc.toUInt8).toUInt16 = crc := by
  apply UInt16.toBitVec_inj.mp
  simp only [UInt16.toBitVec_or, UInt16.toBitVec_shiftLeft, UInt8.toBitVec_toUInt16, UInt16.toBitVec_toUInt8,
    UInt16.toBitVec_shiftRight]
  ext i hi
  by_cases low : i < 8
  · simp [low, BitVec.getLsbD_eq_getElem, hi]
  · have high : i - 8 < 8 := by lia
    have place : 8 + (i - 8) = i := by lia
    simp [low, high, place, BitVec.getLsbD_eq_getElem, hi]

theorem seq_complement (m : UInt8) : m.toNat + (~~~ m).toNat = 0xFF := by
  have bound := m.toNat_lt
  simp
  lia

theorem seq_zero : UInt8.ofNat n = 0x00 ↔ n % 256 = 0 := by
  rw [← UInt8.toNat_inj]
  simp

theorem packet_length : (b.packet n).length = 1 + (2 + b.payload.length + 2) := by
  simp only [Block.packet, List.length_cons, List.length_append, List.length_nil]
  lia

theorem packet_number : (b.packet n).getD 1 0 = UInt8.ofNat n ∧
    ((b.packet n).getD 1 0).toNat + ((b.packet n).getD 2 0).toNat = 0xFF :=
  ⟨rfl, seq_complement (UInt8.ofNat n)⟩

theorem packet_payload : ((b.packet n).drop 3).take b.payload.length = b.payload := by
  simp [Block.packet]

theorem packet_crc : ((b.packet n).getD (2 + b.payload.length + 2 - 1) 0).toUInt16 <<< 8 |||
    ((b.packet n).getD (2 + b.payload.length + 2) 0).toUInt16 = crc16 b.payload := by
  have first : 2 + b.payload.length + 2 - 1 = b.payload.length + 3 := by lia
  have second : 2 + b.payload.length + 2 = b.payload.length + 1 + 3 := by lia
  have high : (b.packet n).getD (b.payload.length + 3) 0 = (crc16 b.payload >>> 8).toUInt8 := by
    simp [Block.packet]
  have low : (b.packet n).getD (b.payload.length + 1 + 3) 0 = (crc16 b.payload).toUInt8 := by
    simp [Block.packet]
  rw [first, second, high, low, crc_joined]

theorem rymTransData_packet (fresh : ¬ (stage = .established ∧ n % 256 = 0)) :
    rymTransData answer stage (b.packet n) b.payload.length = ⟨.transmitting, some b.payload, .ok answer⟩ := by
  have notIgnored : ¬ (stage = .established ∧ (b.packet n).getD 1 0 = 0x00) := by
    rwa [packet_number.1, seq_zero]
  simp only [rymTransData]
  rw [if_neg (not_not_intro packet_length), if_neg (not_not_intro packet_number.2), if_neg notIgnored,
    packet_payload, if_neg (not_not_intro packet_crc)]

theorem rymTransData_ignored (header : stage = .established ∧ n % 256 = 0) :
    rymTransData answer stage (b.packet n) b.payload.length = ⟨stage, none, .ok codeNone⟩ := by
  have ignored : stage = .established ∧ (b.packet n).getD 1 0 = 0x00 := by
    rwa [packet_number.1, seq_zero]
  simp only [rymTransData]
  rw [if_neg (not_not_intro packet_length), if_neg (not_not_intro packet_number.2), if_pos ignored]

theorem rymDoTrans_packet : rymDoTrans answer stage (b.packet n) =
    transReply (rymTransData answer stage (b.packet n) b.payload.length) := by
  have whole : (b.packet n).tail.take (2 + b.payload.length + 2) = (b.packet n).tail := by
    rw [List.take_of_length_le]
    rw [List.length_tail, packet_length]
    lia
  rcases b.size with short | long
  · have code : b.packet n = codeSoh :: (b.packet n).tail := by simp [Block.packet, short]
    rw [short] at whole ⊢
    rw [code]
    simp only [rymDoTrans, rymReadCode, if_pos, whole]
  · have code : b.packet n = codeStx :: (b.packet n).tail := by simp [Block.packet, long]
    have notShort : codeStx ≠ codeSoh := by decide
    rw [long] at whole ⊢
    rw [code]
    simp only [rymDoTrans, rymReadCode, if_neg notShort, if_pos, whole]

theorem transReply_acks (r : TransData) (code : UInt8) (answered : r.code = .ok code) :
    (transReply r).called = r.called ∧ (transReply r).sent.count codeAck = if code = codeAck then 1 else 0 := by
  simp only [transReply, answered]
  by_cases can : code = codeCan
  · rw [if_pos can, can]
    exact ⟨rfl, rfl⟩
  · rw [if_neg can]
    by_cases ack : code = codeAck
    · rw [if_pos ack, if_pos ack]
      exact ⟨rfl, rfl⟩
    · rw [if_neg ack, if_neg ack]
      exact ⟨rfl, rfl⟩

/-- What the receiver does with what a sender transmits: the payload goes to on_data and there
is an ACK at most once, or the packet is passed over without one. -/
theorem rymDoTrans_cases (file : List Block) (answer : UInt8) (stage : Stage) (n : Nat) :
    (rymDoTrans answer stage (packetAt file n)).called = none ∧
        (rymDoTrans answer stage (packetAt file n)).sent.count codeAck = 0 ∨
      ∃ b, file[n]? = some b ∧ ¬ (stage = .established ∧ n % 256 = 0) ∧
        (rymDoTrans answer stage (packetAt file n)).called = some b.payload ∧
        (rymDoTrans answer stage (packetAt file n)).sent.count codeAck ≤ 1 := by
  cases found : file[n]? with
  | none =>
    left
    simp only [packetAt, found]
    exact ⟨rfl, rfl⟩
  | some b =>
    simp only [packetAt, found, rymDoTrans_packet]
    by_cases header : stage = .established ∧ n % 256 = 0
    · left
      obtain ⟨called, acks⟩ := transReply_acks _ codeNone (congrArg TransData.code (rymTransData_ignored header))
      rw [called, acks, rymTransData_ignored header]
      exact ⟨rfl, by decide⟩
    · right
      obtain ⟨called, acks⟩ := transReply_acks _ answer (congrArg TransData.code (rymTransData_packet header))
      refine ⟨b, rfl, header, ?_, ?_⟩
      · rw [called, rymTransData_packet header]
      · rw [acks]
        split <;> lia

end Packets

/-- In sequence up to now: the blocks delivered are the first ones, and what is under way are
packets for the last of them or later ones, and at most the ACK that the sender waits for. -/
structure Inv (file : List Block) (s : State) : Prop where
  numbers : s.calls.map Call.number = List.range' 1 s.calls.length
  payloads : ∀ c ∈ s.calls, file[c.number]?.map Block.payload = some c.payload
  acked : ∀ n ∈ s.acked, 1 ≤ n ∧ n ≤ s.calls.length
  sent : s.calls.length ≤ s.current
  line : ∀ n ∈ s.line, s.calls.length ≤ n ∧ n ≤ s.current
  sorted : s.line.Pairwise (· ≤ ·)
  replies : s.current + s.replies.count codeAck ≤ s.calls.length + 1

variable {file : List Block} {s s' : State} {a : Action}

theorem inv_start (file : List Block) : Inv file start := by
  constructor <;> simp [start, codeAck, codeC]

theorem Inv.transmit (inv : Inv file s) : Inv file { s with line := s.line ++ [s.current] } := by
  refine { inv with line := ?_, sorted := ?_ }
  · intro n under
    rcases List.mem_append.mp under with before | last
    · exact inv.line n before
    · cases List.mem_singleton.mp last
      exact ⟨inv.sent, Nat.le_refl _⟩
  · refine List.pairwise_append.mpr ⟨inv.sorted, List.pairwise_singleton _ _, ?_⟩
    intro n before m last
    cases List.mem_singleton.mp last
    exact (inv.line n before).2

/-- What has left the line or what came back may be gone. -/
theorem Inv.dropped {n : Nat} {rest : List Nat} (inv : Inv file s) (line : s.line = n :: rest) :
    Inv file { s with line := rest } := by
  refine { inv with line := ?_, sorted := ?_ }
  · exact fun m under => inv.line m (line ▸ List.mem_cons_of_mem n under)
  · exact (List.pairwise_cons.mp (line ▸ inv.sorted)).2

theorem Inv.replied {code : UInt8} {rest : Bytes} (inv : Inv file s) (replies : s.replies = code :: rest) :
    Inv file ({ s with replies := rest }.replied file code) := by
  have budget := inv.replies
  rw [replies, List.count_cons] at budget
  simp only [State.replied]
  split
  · rename_i ack
    rw [ack.1, beq_self_eq_true, if_pos rfl] at budget
    refine { inv with sent := ?_, line := ?_, replies := ?_ }
    · exact Nat.le_succ_of_le inv.sent
    · exact fun m under => ⟨(inv.line m under).1, Nat.le_succ_of_le (inv.line m under).2⟩
    · show s.current + 1 + rest.count codeAck ≤ s.calls.length + 1
      lia
  · refine { inv with replies := ?_ }
    show s.current + rest.count codeAck ≤ s.calls.length + 1
    lia

theorem Inv.loseReply {code : UInt8} {rest : Bytes} (inv : Inv file s) (replies : s.replies = code :: rest) :
    Inv file { s with replies := rest } := by
  refine { inv with replies := ?_ }
  have budget := inv.replies
  rw [replies, List.count_cons] at budget
  show s.current + rest.count codeAck ≤ s.calls.length + 1
  lia

theorem Inv.passed {n : Nat} {turn : Turn} (inv : Inv file s) (called : turn.called = none)
    (acks : turn.sent.count codeAck = 0) : Inv file (s.turned n turn) := by
  have noAck : codeAck ∉ turn.sent := List.count_eq_zero.mp acks
  have calls : (s.turned n turn).calls = s.calls := by simp [State.turned, called]
  have acked : (s.turned n turn).acked = s.acked := by simp [State.turned, noAck]
  refine { inv with numbers := ?_, payloads := ?_, acked := ?_, sent := ?_, line := ?_, replies := ?_ }
  · rw [calls]
    exact inv.numbers
  · rw [calls]
    exact inv.payloads
  · rw [calls, acked]
    exact inv.acked
  · rw [calls]
    exact inv.sent
  · rw [calls]
    exact inv.line
  · rw [calls]
    simp only [State.turned, List.count_append, acks]
    exact inv.replies

/-- The packet after the blocks delivered goes to on_data. -/
theorem Inv.delivered {turn : Turn} {b : Block} (inv : Inv file s)
    (found : file[s.calls.length + 1]? = some b) (sent : s.calls.length + 1 ≤ s.current)
    (line : ∀ m ∈ s.line, s.calls.length + 1 ≤ m) (called : turn.called = some b.payload)
    (acks : turn.sent.count codeAck ≤ 1) : Inv file (s.turned (s.calls.length + 1) turn) := by
  have calls : (s.turned (s.calls.length + 1) turn).calls = s.calls ++ [⟨s.calls.length + 1, b.payload⟩] := by
    simp [State.turned, called]
  have length : (s.turned (s.calls.length + 1) turn).calls.length = s.calls.length + 1 := by
    rw [calls, List.length_append, List.length_singleton]
  refine ⟨?_, ?_, ?_, ?_, ?_, inv.sorted, ?_⟩
  · rw [length, calls, List.map_append, inv.numbers, List.range'_1_concat, Nat.add_comm 1]
    rfl
  · intro c made
    rw [calls] at made
    rcases List.mem_append.mp made with before | last
    · exact inv.payloads c before
    · cases List.mem_singleton.mp last
      rw [found, Option.map_some]
  · intro n answered
    rw [length]
    simp only [State.turned] at answered
    split at answered
    · rcases List.mem_append.mp answered with before | last
      · have := inv.acked n before
        lia
      · cases List.mem_singleton.mp last
        lia
    · have := inv.acked n answered
      lia
  · rw [length]
    exact sent
  · intro m under
    rw [length]
    exact ⟨line m under, (inv.line m under).2⟩
  · have budget := inv.replies
    rw [length]
    simp only [State.turned, List.count_append]
    lia

theorem Inv.receive {answer : UInt8} {n : Nat} {rest : List Nat} (inv : Inv file s)
    (guard : Guard file s (.receive answer)) (line : s.line = n :: rest) :
    Inv file ({ s with line := rest }.turned n (rymDoTrans answer s.stage (packetAt file n))) := by
  have dropped := inv.dropped line
  rcases rymDoTrans_cases file answer s.stage n with ⟨called, acks⟩ | ⟨b, found, fresh, called, acks⟩
  · exact dropped.passed called acks
  · have inside : n < file.length := (List.getElem?_eq_some_iff.mp found).1
    have seq := guard answer n rest rfl line inside fresh
    have bounds := inv.line n (line ▸ List.mem_cons_self)
    have budget := inv.replies
    -- of the two numbers that can be on the line only one has this remainder
    have next : n = s.calls.length + 1 := by lia
    subst next
    have later := (List.pairwise_cons.mp (line ▸ inv.sorted)).1
    exact dropped.delivered found bounds.2 later called acks

theorem inv_step {es : List Unit} (inv : Inv file s) (guard : Guard file s a)
    (taken : (machine file).step s a = some (s', es)) : Inv file s' := by
  obtain ⟨r, stepped, same⟩ := Option.map_eq_some_iff.mp taken
  cases same
  cases a with
  | transmit =>
    cases Option.some.inj stepped
    exact inv.transmit
  | lose =>
    cases line : s.line with
    | nil => simp [step, line] at stepped
    | cons n rest =>
      simp only [step, line] at stepped
      cases Option.some.inj stepped
      exact inv.dropped line
  | receive answer =>
    cases going : s.result with
    | some _ => simp [step, going] at stepped
    | none =>
      cases line : s.line with
      | nil => simp [step, line, going] at stepped
      | cons n rest =>
        simp only [step, line, going] at stepped
        cases Option.some.inj stepped
        exact inv.receive guard line
  | silence =>
    cases going : s.result with
    | some _ => simp [step, going] at stepped
    | none =>
      simp only [step, going] at stepped
      cases Option.some.inj stepped
      exact { inv with }
  | reply =>
    cases replies : s.replies with
    | nil => simp [step, replies] at stepped
    | cons code rest =>
      simp only [step, replies] at stepped
      cases Option.some.inj stepped
      exact inv.replied replies
  | loseReply =>
    cases replies : s.replies with
    | nil => simp [step, replies] at stepped
    | cons code rest =>
      simp only [step, replies] at stepped
      cases Option.some.inj stepped
      exact inv.loseReply replies

theorem number_placed {before after : List Call} {c : Call} {k : Nat}
    (numbers : (before ++ c :: after).map Call.number = List.range' 1 k) : c.number = before.length + 1 := by
  have place := congrArg (fun l => l[before.length]?) numbers
  simp only [List.map_append, List.map_cons] at place
  rw [List.getElem?_append_right (by simp)] at place
  simp only [List.length_map, Nat.sub_self, List.getElem?_cons_zero] at place
  obtain ⟨_, at_place⟩ := List.getElem?_eq_some_iff.mp place.symm
  rw [List.getElem_range'] at at_place
  lia

theorem expected_placed {before after : List Call} {k : Nat}
    (numbers : (before ++ after).map Call.number = List.range' 1 k) : expected before = before.length + 1 := by
  cases before using List.reverseRecOn with
  | nil => rfl
  | append_singleton init last =>
    rw [List.append_assoc, List.singleton_append] at numbers
    simp [expected, number_placed numbers]

theorem Inv.delivers_once (inv : Inv file s) : DeliversOnce file s := by
  have once : ∀ n, 1 ≤ n → n ≤ s.calls.length → deliveries s n = 1 := by
    intro n positive delivered
    rw [deliveries, inv.numbers]
    exact List.count_eq_one_of_mem (List.nodup_range' _) (by rw [List.mem_range'_1]; lia)
  constructor
  · exact fun n answered => once n (inv.acked n answered).1 (inv.acked n answered).2
  · intro n positive before
    have budget := inv.replies
    exact once n positive (by lia)
  · rw [inv.numbers]
    exact List.pairwise_lt_range' _
  · exact inv.payloads
  · intro before c after split
    have numbers := inv.numbers
    rw [split] at numbers
    left
    rw [number_placed numbers, expected_placed numbers]

/-- The receiver looks only at the number and its complement: in every run where no packet of a
block that was delivered comes to it again, nor one of a later block than the next, each
acknowledged block is delivered once and in its place. -/
theorem receiver_delivers_once {tr : List Unit} (run : RunWhere (machine file) (Guard file) tr s) :
    DeliversOnce file s := by
  refine Inv.delivers_once (run.invariant (I := fun _ s => Inv file s) ?_ ?_)
  · rintro s rfl
    exact inv_start file
  · intro _ s a s' es _ inv guard taken
    exact inv_step inv guard taken

def guardChecked (file : List Block) (s : State) : Action → Bool
  | .receive _ =>
    match s.line with
    | [] => true
    | n :: _ => decide (n < file.length → ¬ (s.stage = .established ∧ n % 256 = 0) →
        n % 256 = (s.calls.length + 1) % 256)
  | _ => true

theorem guardChecked_sound (checked : guardChecked file s a = true) : Guard file s a := by
  rintro answer n rest rfl line
  simp only [guardChecked, line] at checked
  exact of_decide_eq_true checked

theorem rymDoTrans_acked {stage : Stage} {n : Nat} {b : Block} (fresh : ¬ (stage = .established ∧ n % 256 = 0)) :
    rymDoTrans codeAck stage (b.packet n) = ⟨.transmitting, some b.payload, [codeAck], none⟩ := by
  rw [rymDoTrans_packet, rymTransData_packet fresh]
  rfl

theorem code_c_ack : codeC ≠ codeAck := by decide

theorem resent_exec (b : Block) :
    ((machine [b, b]).restrict (guardChecked [b, b])).exec start
      [.reply, .transmit, .lose, .transmit, .receive codeAck, .reply, .reply] =
    some (⟨.transmitting, none, 2, [], [], [⟨1, b.payload⟩], [1]⟩, []) := by
  simp [Machine.exec, Machine.restrict, machine, step, guardChecked, start, packetAt, rymDoTrans_acked,
    State.turned, State.replied, code_c_ack]

/-- The ACK of block 1 is lost, and the sender repeats the block. -/
theorem repeated_exec (b : Block) :
    (machine [b, b]).exec start
      [.reply, .transmit, .receive codeAck, .loseReply, .loseReply, .transmit, .receive codeAck] =
    some (⟨.transmitting, none, 1, [], [codeAck], [⟨1, b.payload⟩, ⟨1, b.payload⟩], [1, 1]⟩, []) := by
  simp [Machine.exec, machine, step, start, packetAt, rymDoTrans_acked, State.turned, State.replied]

def zeros : Block := ⟨List.replicate 128 0, .inl List.length_replicate⟩

theorem receiver_delivers_once_resent :
    DeliversOnce [zeros, zeros] ⟨.transmitting, none, 2, [], [], [⟨1, zeros.payload⟩], [1]⟩ := by
  have run := (Run.start (M := (machine [zeros, zeros]).restrict (guardChecked [zeros, zeros])) rfl).exec
    (resent_exec zeros)
  exact receiver_delivers_once (RunWhere.ofRestrict (fun _ _ _ _ => guardChecked_sound) run)

theorem delivered_twice : ∃ s, Run (machine [zeros, zeros]) [] s ∧
    s.calls = [⟨1, zeros.payload⟩, ⟨1, zeros.payload⟩] ∧ ¬ DeliversOnce [zeros, zeros] s := by
  refine ⟨_, (Run.start rfl).exec (repeated_exec zeros), rfl, ?_⟩
  intro once
  have twice := once.acked 1 List.mem_cons_self
  contradiction

end RtThread.Ymodem
