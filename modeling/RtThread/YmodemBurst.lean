import RtThread.YmodemLink

/-! The packets 0 of a ymodem transfer as they come in bursts: _rym_read_data on a device whose
interrupt releases a semaphore, under _rym_do_handshake and under _rym_do_fin. -/
namespace RtThread.YmodemBurst
open Transition
open Ymodem hiding State Action machine step start Guard
open YmodemLink (packageSz sanityCheck)

/-- 100 ms and RYM_WAIT_CHR_TICK, with RT_TICK_PER_SECOND ticks of a second. -/
def rtTickPerSecond : Nat := 1000
def ms100 : Nat := (rtTickPerSecond * 100 + 999) / 1000
def rymWaitChrTick : Nat := rtTickPerSecond * 3
def rtSemValueMax : Nat := 0xFFFF

inductive Caller where
  | handshake
  | fin

/-- What on_begin has been called with, and what the caller of _rym_read_data has returned. -/
structure Result where
  called : Option Bytes
  code : Except Ymodem.Err Unit
  deriving DecidableEq

/-- Where the receiver is: at the condition of the loop of _rym_do_handshake, before the read, before
rt_sem_take or waiting in it, in rt_thread_mdelay, or back. -/
inductive Pc where
  | test
  | read (readlen : Nat)
  | take (readlen : Nat)
  | wait (readlen since : Nat)
  | delay
  | returned (result : Result)
  deriving DecidableEq

/-- `buf` is ctx->buf with the code of the packet, `rx` what the device has received, `toCome` the rest of
the packet, and `elapsed` counts from the tick that _rym_do_handshake keeps. -/
structure State where
  pc : Pc
  i : Nat
  buf : Bytes
  rx : Bytes
  toCome : Bytes
  tokens : Nat
  elapsed : Nat

inductive Action where
  | arrive (n : Nat)
  | tick
  | receiver
  deriving DecidableEq

/-- A packet 0, the answer of on_begin to it, and the tick at its first byte. -/
structure Call where
  caller : Caller
  block : Block
  answer : UInt8
  tick : Nat
  tick_lt : tick < 2 ^ 32

def Call.packet (c : Call) : Bytes := c.block.packet 0

def Call.code (c : Call) : UInt8 := c.packet.getD 0 0

def Call.dataSz (c : Call) : Nat := packageSz c.code

/-- What is read at a time: _rym_do_fin always reads the shorter packet. -/
def Call.len (c : Call) : Nat :=
  match c.caller with
  | .handshake => c.dataSz - 1
  | .fin => 133 - 1

def Call.onBegin (c : Call) (buf : Bytes) : Result :=
  ⟨some ((buf.drop 3).take (c.dataSz - 5)), if c.answer ≠ codeAck then .error .can else .ok ()⟩

def Call.handshakeEnd (c : Call) (i : Nat) (buf : Bytes) : Result :=
  if i ≠ c.len then ⟨none, .error .dsz⟩
  else
    match sanityCheck c.dataSz buf with
    | some e => ⟨none, .error e⟩
    | none => c.onBegin buf

def Call.finEnd (c : Call) (i : Nat) (buf : Bytes) : Result :=
  if i ≠ c.len then ⟨none, .error .dsz⟩
  else
    match sanityCheck 133 buf with
    | some e => ⟨none, .error e⟩
    | none => if buf.getD 3 0 ≠ 0 then c.onBegin buf else ⟨none, .ok ()⟩

def store (buf : Bytes) (readlen : Nat) (got : Bytes) : Bytes :=
  buf.take (1 + readlen) ++ got ++ buf.drop (1 + readlen + got.length)

/-- rt_device_read of up to `size` bytes to buf + 1 + readlen. -/
def State.fetch (readlen size : Nat) (s : State) : State :=
  { s with buf := store s.buf readlen (s.rx.take size), rx := s.rx.drop size }

def Call.readDone (c : Call) (readlen : Nat) (s : State) : State :=
  match c.caller with
  | .handshake => { s with i := s.i + readlen, pc := .delay }
  | .fin => { s with i := readlen, pc := .returned (c.finEnd readlen s.buf) }

/-- The next step of the receiver, none while it waits. -/
def Call.receives (c : Call) (s : State) : Option State :=
  match s.pc with
  | .test =>
    if (c.tick + s.elapsed) % 2 ^ 32 ≤ (c.tick + ms100) % 2 ^ 32 ∧ s.i < c.len then some { s with pc := .read 0 }
    else some { s with pc := .returned (c.handshakeEnd s.i s.buf) }
  | .read readlen =>
    let got := (s.rx.take (c.len - readlen)).length
    let t := s.fetch readlen (c.len - readlen)
    if c.len ≤ readlen + got then some (c.readDone (readlen + got) t)
    else some { t with pc := .take (readlen + got) }
  | .take readlen =>
    if 0 < s.tokens then some { s with tokens := s.tokens - 1, pc := .read readlen }
    else some { s with pc := .wait readlen s.elapsed }
  | .wait readlen since => if since + rymWaitChrTick ≤ s.elapsed then some (c.readDone readlen s) else none
  | .delay => some { s with pc := .test }
  | .returned _ => none

/-- A burst of `n` bytes with _rym_rx_ind at its end, which wakes the receiver or leaves a token. -/
def arrives (n : Nat) (s : State) : State :=
  let t := { s with rx := s.rx ++ s.toCome.take n, toCome := s.toCome.drop n }
  match s.pc with
  | .wait readlen _ => { t with pc := .read readlen }
  | _ => { t with tokens := min (s.tokens + 1) rtSemValueMax }

/-- The packet is received within 100 ms: time does not go on beyond them before the last byte is here
and the receiver has looked at the tick. -/
def inWindow (s : State) : Prop :=
  s.elapsed < ms100 ∨ s.toCome = [] ∧ ¬ (s.pc = .test ∧ s.i = 0)

instance (s : State) : Decidable (inWindow s) := inferInstanceAs (Decidable (_ ∨ _))

def step (c : Call) (s : State) : Action → Option State
  | .arrive n => if 0 < n ∧ n ≤ s.toCome.length then some (arrives n s) else none
  | .tick => if inWindow s then some { s with elapsed := s.elapsed + 1 } else none
  | .receiver => c.receives s

/-- The code has been read; any part of the packet may be here, and tokens may be left. -/
structure Starts (c : Call) (s : State) : Prop where
  pc : s.pc = match c.caller with
    | .handshake => .test
    | .fin => .read 0
  i : s.i = 0
  buf : s.buf.length = 1029 ∧ s.buf.take 1 = [c.code]
  bytes : [c.code] ++ s.rx ++ s.toCome = c.packet
  elapsed : s.elapsed = 0

def machine (c : Call) : Machine State Action Unit where
  start := Starts c
  step s a := (step c s a).map (fun t => (t, []))

/-- The payload has come to on_begin of _rym_do_handshake; _rym_do_fin has found an empty packet. -/
def Call.accepted (c : Call) : Result :=
  match c.caller with
  | .handshake => ⟨some c.block.payload, if c.answer ≠ codeAck then .error .can else .ok ()⟩
  | .fin => ⟨none, .ok ()⟩

/-- Every call ends, and by accepting the packet: the steps of the receiver and of the line that are left
to a call are finitely many, and before it has ended there is one. -/
structure Delivers (c : Call) : Prop where
  accepted : ∀ tr s r, Run (machine c) tr s → s.pc = .returned r → r = c.accepted
  goes_on : ∀ tr s, Run (machine c) tr s → (∀ r, s.pc ≠ .returned r) → ∃ a, a ≠ .tick ∧ step c s a ≠ none
  ends : ∃ rank : State → Nat, ∀ tr s a s', Run (machine c) tr s → step c s a = some s' →
    rank s' ≤ rank s ∧ (a ≠ .tick → rank s' < rank s)

def Call.nameless (c : Call) : Prop := c.block.payload.head? = some 0

/-- The longer packet has, behind 128 bytes of its payload, the checksum of these. -/
def shortChecksum (payload : Bytes) : Prop :=
  (payload.getD 128 0).toUInt16 <<< 8 ||| (payload.getD 129 0).toUInt16 = crc16 (payload.take 128)

instance (payload : Bytes) : Decidable (shortChecksum payload) := inferInstanceAs (Decidable (_ = _))

/-- When the packet is accepted. -/
def Call.sound (c : Call) : Prop :=
  match c.caller with
  | .handshake => c.tick + ms100 < 2 ^ 32
  | .fin => c.block.payload.length = 128 ∨ shortChecksum c.block.payload

section Sizes
variable {c : Call}

theorem packet_size : c.packet.length = c.dataSz := by
  have size := packet_length (n := 0) (b := c.block)
  have code : c.code = if c.block.payload.length = 128 then codeSoh else codeStx := rfl
  rw [Call.packet, size, Call.dataSz, packageSz, code]
  rcases c.block.size with short | long
  · rw [short]
    rfl
  · rw [long]
    rfl

theorem dataSz_cases : c.dataSz = 133 ∧ c.block.payload.length = 128 ∨ c.dataSz = 1029 ∧ c.block.payload.length = 1024 := by
  rw [← packet_size, Call.packet, packet_length]
  rcases c.block.size with short | long
  · exact .inl ⟨by rw [short], short⟩
  · exact .inr ⟨by rw [long], long⟩

theorem len_cases : c.caller = .handshake ∧ 1 + c.len = c.dataSz ∨ c.caller = .fin ∧ 1 + c.len = 133 := by
  have size := dataSz_cases (c := c)
  rw [Call.len]
  cases c.caller with
  | handshake => exact .inl ⟨rfl, by simp only; lia⟩
  | fin => exact .inr ⟨rfl, rfl⟩

theorem len_le : 1 + c.len ≤ c.dataSz := by
  have size := dataSz_cases (c := c)
  rcases len_cases (c := c) with ⟨_, len⟩ | ⟨_, len⟩ <;> lia

theorem getD_taken {sz k : Nat} (inside : k < sz) (buf : Bytes) : (buf.take sz).getD k 0 = buf.getD k 0 := by
  rw [List.getD_eq_getElem?_getD, List.getD_eq_getElem?_getD, List.getElem?_take_of_lt inside]

theorem payload_taken (sz : Nat) (buf : Bytes) :
    ((buf.take sz).drop 3).take (sz - 5) = (buf.drop 3).take (sz - 5) := by
  rw [List.drop_take, List.take_take, Nat.min_eq_left (by lia)]

theorem sanityCheck_take {sz : Nat} (long : 5 ≤ sz) (buf : Bytes) :
    sanityCheck sz (buf.take sz) = sanityCheck sz buf := by
  simp only [sanityCheck, getD_taken (show 1 < sz by lia), getD_taken (show 2 < sz by lia),
    getD_taken (show sz - 2 < sz by lia), getD_taken (show sz - 1 < sz by lia), payload_taken]

theorem packet_sane : sanityCheck c.dataSz c.packet = none := by
  have size : c.dataSz = c.block.payload.length + 5 := by
    rw [← packet_size, Call.packet, packet_length]
    lia
  have payload := packet_payload (n := 0) (b := c.block)
  have crc := packet_crc (n := 0) (b := c.block)
  have numbered : ¬(c.packet.getD 1 0 ≠ 0 ∨ c.packet.getD 2 0 ≠ 0xFF) := by
    rintro (number | complement)
    · exact number rfl
    · exact complement rfl
  simp only [sanityCheck]
  rw [if_neg numbered, size, show c.block.payload.length + 5 - 2 = 2 + c.block.payload.length + 2 - 1 by lia,
    show c.block.payload.length + 5 - 1 = 2 + c.block.payload.length + 2 by lia, Nat.add_sub_cancel, Call.packet,
    payload, if_neg (not_not_intro crc)]

theorem handshakeEnd_packet {buf : Bytes} (handshake : c.caller = .handshake) (full : buf.take c.dataSz = c.packet) :
    c.handshakeEnd c.len buf = c.accepted := by
  have size := dataSz_cases (c := c)
  have sane : sanityCheck c.dataSz buf = none := by
    rw [← sanityCheck_take (by lia), full, packet_sane]
  have payload : (buf.drop 3).take (c.dataSz - 5) = c.block.payload := by
    have whole := packet_payload (n := 0) (b := c.block)
    rw [← payload_taken, full, Call.packet, show c.dataSz - 5 = c.block.payload.length by lia, whole]
  rw [Call.handshakeEnd, if_neg (not_not_intro rfl), sane]
  simp only [Call.onBegin, Call.accepted, handshake, payload]

theorem packet_after (k : Nat) (inside : k < c.block.payload.length) :
    c.packet.getD (k + 3) 0 = c.block.payload.getD k 0 := by
  simp [Call.packet, Block.packet, List.getElem?_append_left inside]

theorem sanityCheck_short (long : c.block.payload.length = 1024) :
    sanityCheck 133 c.packet = if shortChecksum c.block.payload then none else some .crc := by
  have numbered : ¬(c.packet.getD 1 0 ≠ 0 ∨ c.packet.getD 2 0 ≠ 0xFF) := by
    rintro (number | complement)
    · exact number rfl
    · exact complement rfl
  have whole := packet_payload (n := 0) (b := c.block)
  have data : (c.packet.drop 3).take 128 = c.block.payload.take 128 := by
    rw [← whole, long, List.take_take]
    rfl
  have high : c.packet.getD 131 0 = c.block.payload.getD 128 0 := packet_after 128 (by lia)
  have low : c.packet.getD 132 0 = c.block.payload.getD 129 0 := packet_after 129 (by lia)
  simp only [sanityCheck]
  rw [if_neg numbered, high, low, data, ite_not]
  exact if_congr Iff.rfl rfl rfl

theorem finEnd_packet {buf : Bytes} (fin : c.caller = .fin) (nameless : c.nameless)
    (full : buf.take 133 = c.packet.take 133) :
    c.finEnd c.len buf =
      if c.block.payload.length = 128 ∨ shortChecksum c.block.payload then c.accepted else ⟨none, .error .crc⟩ := by
  have name : buf.getD 3 0 = 0 := by
    have size := dataSz_cases (c := c)
    have first : c.packet.getD 3 0 = c.block.payload.getD 0 0 := packet_after 0 (by lia)
    rw [← getD_taken (show 3 < 133 by decide), full, getD_taken (by decide), first, List.getD_eq_getElem?_getD,
      ← List.head?_eq_getElem?, nameless]
    rfl
  have checked : sanityCheck 133 buf = sanityCheck 133 c.packet := by
    rw [← sanityCheck_take (by decide), full, sanityCheck_take (by decide)]
  rw [Call.finEnd, if_neg (not_not_intro rfl), checked]
  rcases dataSz_cases (c := c) with ⟨size, short⟩ | ⟨size, long⟩
  · have sane : sanityCheck 133 c.packet = none := by rw [← size, packet_sane]
    simp only [sane, name, short, Call.accepted, fin, true_or, if_true]
    rfl
  · rw [sanityCheck_short long]
    have longer : c.block.payload.length ≠ 128 := by lia
    by_cases checksum : shortChecksum c.block.payload
    · simp only [checksum, or_true, if_true, name, Call.accepted, fin]
      rfl
    · simp only [checksum, longer, or_self, if_false]

end Sizes

/-- The packet is what has been read of it, what is there and what is to come. -/
def Held (c : Call) (readlen : Nat) (s : State) : Prop :=
  s.buf.take (1 + readlen) ++ s.rx ++ s.toCome = c.packet ∧ s.buf.length = 1029

/-- All that is asked for has been read. -/
def Full (c : Call) (s : State) : Prop := s.i = c.len ∧ s.buf.take (1 + c.len) = c.packet.take (1 + c.len)

/-- What holds at each place: bytes that have come after the last read have left a token. -/
def Placed (c : Call) (s : State) : Prop :=
  match s.pc with
  | .test => s.i = 0 ∧ Held c 0 s ∧ s.elapsed ≤ ms100 ∧ c.caller = .handshake ∨ Full c s ∧ c.caller = .handshake
  | .read readlen => readlen < c.len ∧ s.i = 0 ∧ Held c readlen s
  | .take readlen => readlen < c.len ∧ s.i = 0 ∧ Held c readlen s ∧ (s.rx ≠ [] → 0 < s.tokens)
  | .wait readlen _ => readlen < c.len ∧ s.i = 0 ∧ Held c readlen s ∧ s.rx = []
  | .delay => Full c s ∧ c.caller = .handshake
  | .returned result => result = c.accepted

structure Inv (c : Call) (s : State) : Prop where
  in_time : s.toCome ≠ [] → s.elapsed ≤ ms100
  placed : Placed c s

section Steps
variable {c : Call} {s s' : State}

theorem len_pos : 0 < c.len := by
  have size := dataSz_cases (c := c)
  rcases len_cases (c := c) with ⟨_, len⟩ | ⟨_, len⟩ <;> lia

theorem store_taken {buf got : Bytes} {readlen : Nat} (inside : 1 + readlen ≤ buf.length) :
    (store buf readlen got).take (1 + (readlen + got.length)) = buf.take (1 + readlen) ++ got := by
  have size : (buf.take (1 + readlen) ++ got).length = 1 + (readlen + got.length) := by
    rw [List.length_append, List.length_take, Nat.min_eq_left inside]
    lia
  rw [store, ← size, List.take_left]

theorem store_length {buf got : Bytes} {readlen : Nat} (inside : 1 + readlen + got.length ≤ buf.length) :
    (store buf readlen got).length = buf.length := by
  simp only [store, List.length_append, List.length_take, List.length_drop]
  lia

theorem held_fetch {readlen : Nat} (held : Held c readlen s) (short : readlen < c.len) :
    Held c (readlen + (s.rx.take (c.len - readlen)).length) (s.fetch readlen (c.len - readlen)) := by
  have len := len_le (c := c)
  have size := dataSz_cases (c := c)
  have full := held.2
  have got : (s.rx.take (c.len - readlen)).length ≤ c.len - readlen := List.length_take_le _ _
  refine ⟨?_, ?_⟩
  · have order : s.buf.take (1 + readlen) ++ s.rx.take (c.len - readlen) ++ s.rx.drop (c.len - readlen) ++ s.toCome =
        s.buf.take (1 + readlen) ++ s.rx ++ s.toCome := by
      rw [List.append_assoc (s.buf.take _), List.take_append_drop]
    simp only [State.fetch, store_taken (show 1 + readlen ≤ s.buf.length by lia), order]
    exact held.1
  · simp only [State.fetch,
      store_length (show 1 + readlen + (s.rx.take (c.len - readlen)).length ≤ s.buf.length by lia)]
    exact full

theorem held_full (held : Held c c.len s) : s.buf.take (1 + c.len) = c.packet.take (1 + c.len) := by
  have len := len_le (c := c)
  have size := dataSz_cases (c := c)
  rw [← held.1, List.append_assoc, List.take_append_of_le_length, List.take_take, Nat.min_self]
  rw [List.length_take, held.2]
  lia

theorem readDone_placed (sound : c.sound) (nameless : c.caller = .fin → c.nameless) (held : Held c c.len s)
    (first : s.i = 0) : Placed c (c.readDone c.len s) := by
  have full := held_full held
  rcases len_cases (c := c) with ⟨caller, _⟩ | ⟨caller, len⟩
  · simp only [Call.readDone, caller, Placed, Full, first, Nat.zero_add]
    exact ⟨⟨trivial, full⟩, trivial⟩
  · simp only [Call.readDone, caller, Placed]
    rw [len] at full
    rw [finEnd_packet caller (nameless caller) full, if_pos]
    simpa only [Call.sound, caller] using sound

theorem readDone_same (readlen : Nat) : (c.readDone readlen s).toCome = s.toCome ∧
    (c.readDone readlen s).elapsed = s.elapsed := by
  rw [Call.readDone]
  cases c.caller <;> exact ⟨rfl, rfl⟩

theorem inv_read {readlen : Nat} (sound : c.sound) (nameless : c.caller = .fin → c.nameless) (inv : Inv c s)
    (at_ : s.pc = .read readlen) (taken : c.receives s = some s') : Inv c s' := by
  obtain ⟨in_time, placed⟩ := inv
  simp only [Placed, at_] at placed
  obtain ⟨short, first, held⟩ := placed
  have next := held_fetch held short
  have got : (s.rx.take (c.len - readlen)).length = min (c.len - readlen) s.rx.length := List.length_take
  simp only [Call.receives, at_] at taken
  split at taken
  · rename_i enough
    cases taken
    have whole : readlen + (s.rx.take (c.len - readlen)).length = c.len := by lia
    rw [whole] at next ⊢
    obtain ⟨same, time⟩ := readDone_same (c := c) (s := s.fetch readlen (c.len - readlen)) c.len
    refine ⟨?_, readDone_placed sound nameless next first⟩
    rw [same, time]
    exact in_time
  · rename_i less
    cases taken
    have empty : s.rx.drop (c.len - readlen) = [] := List.drop_eq_nil_of_le (by lia)
    refine ⟨in_time, ?_⟩
    simp only [Placed]
    exact ⟨by lia, first, next, fun some_ => absurd empty some_⟩

theorem inv_wait {readlen since : Nat} (inv : Inv c s) (at_ : s.pc = .wait readlen since) :
    c.receives s = none ∧ s.toCome ≠ [] := by
  obtain ⟨in_time, placed⟩ := inv
  simp only [Placed, at_] at placed
  obtain ⟨short, _, held, empty⟩ := placed
  have len := len_le (c := c)
  have more : s.toCome ≠ [] := by
    intro none
    have total := congrArg List.length held.1
    rw [empty, none, packet_size, List.append_nil, List.append_nil, List.length_take] at total
    lia
  have early := in_time more
  have longer : ms100 < rymWaitChrTick := by decide
  refine ⟨?_, more⟩
  simp only [Call.receives, at_]
  exact if_neg (by lia)

theorem inv_test (sound : c.sound) (inv : Inv c s) (at_ : s.pc = .test) (taken : c.receives s = some s') :
    Inv c s' := by
  obtain ⟨in_time, placed⟩ := inv
  simp only [Placed, at_] at placed
  simp only [Call.receives, at_] at taken
  rcases placed with ⟨first, held, early, handshake⟩ | ⟨⟨whole, full⟩, handshake⟩
  · have window : c.tick + ms100 < 2 ^ 32 := by simpa only [Call.sound, handshake] using sound
    have now : (c.tick + s.elapsed) % 2 ^ 32 ≤ (c.tick + ms100) % 2 ^ 32 := by
      rw [Nat.mod_eq_of_lt (by lia), Nat.mod_eq_of_lt window]
      lia
    have some_ : s.i < c.len := by
      rw [first]
      exact len_pos
    rw [if_pos ⟨now, some_⟩] at taken
    cases taken
    exact ⟨in_time, len_pos, first, held⟩
  · rw [if_neg (fun h => absurd h.2 (by lia))] at taken
    cases taken
    refine ⟨in_time, ?_⟩
    have size : 1 + c.len = c.dataSz := by
      rcases len_cases (c := c) with ⟨_, len⟩ | ⟨fin, _⟩
      · exact len
      · rw [handshake] at fin
        contradiction
    rw [size, ← packet_size, List.take_length, packet_size] at full
    simp only [Placed, whole]
    exact handshakeEnd_packet handshake full

theorem inv_receiver (sound : c.sound) (nameless : c.caller = .fin → c.nameless) (inv : Inv c s)
    (taken : c.receives s = some s') : Inv c s' := by
  cases at_ : s.pc with
  | test => exact inv_test sound inv at_ taken
  | read readlen => exact inv_read sound nameless inv at_ taken
  | take readlen =>
    obtain ⟨in_time, placed⟩ := inv
    simp only [Placed, at_] at placed
    obtain ⟨short, first, held, tokens⟩ := placed
    simp only [Call.receives, at_] at taken
    split at taken
    · cases taken
      exact ⟨in_time, short, first, held⟩
    · rename_i none
      cases taken
      refine ⟨in_time, short, first, held, ?_⟩
      by_contra some_
      exact none (tokens some_)
  | wait readlen since =>
    rw [(inv_wait inv at_).1] at taken
    contradiction
  | delay =>
    obtain ⟨in_time, placed⟩ := inv
    simp only [Placed, at_] at placed
    simp only [Call.receives, at_] at taken
    cases taken
    exact ⟨in_time, .inr placed⟩
  | returned result =>
    simp only [Call.receives, at_] at taken
    contradiction

theorem held_arrives {readlen n : Nat} (held : Held c readlen s) {t : State} (buf : t.buf = s.buf)
    (rx : t.rx = s.rx ++ s.toCome.take n) (toCome : t.toCome = s.toCome.drop n) : Held c readlen t := by
  refine ⟨?_, buf ▸ held.2⟩
  rw [buf, rx, toCome, ← List.append_assoc, List.append_assoc _ (s.toCome.take n), List.take_append_drop]
  exact held.1

theorem inv_arrives (n : Nat) (inv : Inv c s) : Inv c (arrives n s) := by
  obtain ⟨in_time, placed⟩ := inv
  have later : s.toCome.drop n ≠ [] → s.elapsed ≤ ms100 := by
    intro more
    refine in_time fun none => more ?_
    rw [none, List.drop_nil]
  have token : 0 < min (s.tokens + 1) rtSemValueMax := by
    rw [rtSemValueMax]
    lia
  cases at_ : s.pc with
  | test =>
    simp only [arrives, at_]
    simp only [Placed, at_] at placed
    refine ⟨later, placed.imp ?_ (fun full => full)⟩
    exact fun ⟨first, held, early⟩ => ⟨first, held_arrives held rfl rfl rfl, early⟩
  | read readlen =>
    simp only [arrives, at_]
    simp only [Placed, at_] at placed
    exact ⟨later, placed.1, placed.2.1, held_arrives placed.2.2 rfl rfl rfl⟩
  | take readlen =>
    simp only [arrives, at_]
    simp only [Placed, at_] at placed
    exact ⟨later, placed.1, placed.2.1, held_arrives placed.2.2.1 rfl rfl rfl, fun _ => token⟩
  | wait readlen since =>
    simp only [arrives, at_]
    simp only [Placed, at_] at placed
    exact ⟨later, placed.1, placed.2.1, held_arrives placed.2.2.1 rfl rfl rfl⟩
  | delay =>
    simp only [arrives, at_]
    simp only [Placed, at_] at placed
    exact ⟨later, placed⟩
  | returned result =>
    simp only [arrives, at_]
    simp only [Placed, at_] at placed
    exact ⟨later, placed⟩

theorem inv_tick (inv : Inv c s) (window : inWindow s) : Inv c { s with elapsed := s.elapsed + 1 } := by
  obtain ⟨in_time, placed⟩ := inv
  refine ⟨fun more => window.elim (fun early => early) (fun late => absurd late.1 more), ?_⟩
  cases at_ : s.pc with
  | test =>
    simp only [Placed, at_] at placed ⊢
    refine placed.imp ?_ (fun full => full)
    rintro ⟨first, held, _, handshake⟩
    refine ⟨first, held, ?_, handshake⟩
    exact window.elim (fun early => early) (fun late => absurd ⟨at_, first⟩ late.2)
  | read readlen =>
    simp only [Placed, at_] at placed ⊢
    exact placed
  | take readlen =>
    simp only [Placed, at_] at placed ⊢
    exact placed
  | wait readlen since =>
    simp only [Placed, at_] at placed ⊢
    exact placed
  | delay =>
    simp only [Placed, at_] at placed ⊢
    exact placed
  | returned result =>
    simp only [Placed, at_] at placed ⊢
    exact placed

theorem inv_step {a : Action} (sound : c.sound) (nameless : c.caller = .fin → c.nameless) (inv : Inv c s)
    (taken : step c s a = some s') : Inv c s' := by
  cases a with
  | arrive n =>
    simp only [step] at taken
    split at taken
    · cases taken
      exact inv_arrives n inv
    · contradiction
  | tick =>
    simp only [step] at taken
    split at taken
    · rename_i window
      cases taken
      exact inv_tick inv window
    · contradiction
  | receiver => exact inv_receiver sound nameless inv taken

theorem inv_start (starts : Starts c s) : Inv c s := by
  refine ⟨fun _ => by rw [starts.elapsed]; exact Nat.zero_le _, ?_⟩
  have held : Held c 0 s := ⟨by rw [Nat.add_zero, starts.buf.2]; exact starts.bytes, starts.buf.1⟩
  have pc := starts.pc
  rcases len_cases (c := c) with ⟨caller, _⟩ | ⟨caller, _⟩
  · rw [caller] at pc
    simp only [Placed, pc]
    exact .inl ⟨starts.i, held, by rw [starts.elapsed]; exact Nat.zero_le _, caller⟩
  · rw [caller] at pc
    simp only [Placed, pc]
    exact ⟨len_pos, starts.i, held⟩

theorem run_inv (sound : c.sound) (nameless : c.caller = .fin → c.nameless) {tr : List Unit}
    (run : Run (machine c) tr s) : Inv c s := by
  refine run.always (I := Inv c) (fun _ => inv_start) ?_
  intro s a s' es inv taken
  obtain ⟨t, stepped, same⟩ := Option.map_eq_some_iff.mp taken
  cases same
  exact inv_step sound nameless inv stepped

end Steps

section Ends
variable {c : Call} {s s' : State}

def pcRank (s : State) : Nat :=
  match s.pc with
  | .test => if s.i = 0 then 6 else 1
  | .read _ => 5
  | .take _ => 4
  | .wait _ _ => 3
  | .delay => 2
  | .returned _ => 0

/-- What is left: the bursts, the tokens, and the way to the return. -/
def rank (s : State) : Nat := 5 * s.toCome.length + 2 * s.tokens + pcRank s

theorem readDone_rank (readlen : Nat) :
    rank (c.readDone readlen s) ≤ 5 * s.toCome.length + 2 * s.tokens + 2 := by
  simp only [Call.readDone]
  cases c.caller with
  | handshake => simp only [rank, pcRank]; lia
  | fin => simp only [rank, pcRank]; lia

theorem receives_rank (inv : Inv c s) (taken : c.receives s = some s') : rank s' < rank s := by
  have placed := inv.placed
  cases at_ : s.pc with
  | test =>
    simp only [Placed, at_] at placed
    simp only [Call.receives, at_] at taken
    rcases placed with ⟨first, _⟩ | ⟨⟨whole, _⟩, _⟩
    · split at taken <;> cases taken <;> simp only [rank, pcRank, at_, first, if_true] <;> lia
    · have positive := len_pos (c := c)
      have passed : s.i ≠ 0 := by lia
      rw [if_neg (fun h => absurd h.2 (by lia))] at taken
      cases taken
      simp only [rank, pcRank, at_, if_neg passed]
      lia
  | read readlen =>
    simp only [Placed, at_] at placed
    simp only [Call.receives, at_] at taken
    split at taken
    · cases taken
      have less := readDone_rank (c := c) (s := s.fetch readlen (c.len - readlen))
        (readlen + (s.rx.take (c.len - readlen)).length)
      simp only [State.fetch] at less ⊢
      have here : rank s = 5 * s.toCome.length + 2 * s.tokens + 5 := by simp only [rank, pcRank, at_]
      lia
    · cases taken
      simp only [rank, pcRank, at_, State.fetch]
      lia
  | take readlen =>
    simp only [Call.receives, at_] at taken
    split at taken
    · cases taken
      simp only [rank, pcRank, at_]
      lia
    · cases taken
      simp only [rank, pcRank, at_]
      lia
  | wait readlen since =>
    rw [(inv_wait inv at_).1] at taken
    contradiction
  | delay =>
    simp only [Placed, at_] at placed
    simp only [Call.receives, at_] at taken
    cases taken
    have positive := len_pos (c := c)
    have passed : s.i ≠ 0 := by rw [placed.1.1]; lia
    simp only [rank, pcRank, at_, if_neg passed]
    lia
  | returned result =>
    simp only [Call.receives, at_] at taken
    contradiction

theorem arrives_rank {n : Nat} (some_ : 0 < n) (there : n ≤ s.toCome.length) : rank (arrives n s) < rank s := by
  have size : (s.toCome.drop n).length = s.toCome.length - n := List.length_drop
  cases at_ : s.pc with
  | test => simp only [rank, arrives, at_, pcRank, size]; lia
  | read readlen => simp only [rank, arrives, at_, pcRank, size]; lia
  | take readlen => simp only [rank, arrives, at_, pcRank, size]; lia
  | wait readlen since => simp only [rank, arrives, at_, pcRank, size]; lia
  | delay => simp only [rank, arrives, at_, pcRank, size]; lia
  | returned result => simp only [rank, arrives, at_, pcRank, size]; lia

theorem step_rank {a : Action} (inv : Inv c s) (taken : step c s a = some s') :
    rank s' ≤ rank s ∧ (a ≠ .tick → rank s' < rank s) := by
  cases a with
  | arrive n =>
    simp only [step] at taken
    split at taken
    · rename_i burst
      cases taken
      have less := arrives_rank burst.1 burst.2
      exact ⟨Nat.le_of_lt less, fun _ => less⟩
    · contradiction
  | tick =>
    simp only [step] at taken
    split at taken
    · cases taken
      exact ⟨Nat.le_refl _, fun impossible => absurd rfl impossible⟩
    · contradiction
  | receiver =>
    have less := receives_rank inv taken
    exact ⟨Nat.le_of_lt less, fun _ => less⟩

theorem inv_goes_on (inv : Inv c s) (open_ : ∀ r, s.pc ≠ .returned r) : ∃ a, a ≠ .tick ∧ step c s a ≠ none := by
  cases at_ : s.pc with
  | wait readlen since =>
    have more := List.length_pos_iff.mpr (inv_wait inv at_).2
    refine ⟨.arrive 1, by decide, ?_⟩
    simp only [step, if_pos (show 0 < 1 ∧ 1 ≤ s.toCome.length by lia)]
    exact Option.some_ne_none _
  | returned result => exact absurd at_ (open_ result)
  | test =>
    refine ⟨.receiver, by decide, ?_⟩
    simp only [step, Call.receives, at_]
    split <;> exact Option.some_ne_none _
  | read readlen =>
    refine ⟨.receiver, by decide, ?_⟩
    simp only [step, Call.receives, at_]
    split <;> exact Option.some_ne_none _
  | take readlen =>
    refine ⟨.receiver, by decide, ?_⟩
    simp only [step, Call.receives, at_]
    split <;> exact Option.some_ne_none _
  | delay =>
    refine ⟨.receiver, by decide, ?_⟩
    simp only [step, Call.receives, at_]
    exact Option.some_ne_none _

theorem sound_delivers (sound : c.sound) (nameless : c.caller = .fin → c.nameless) : Delivers c where
  accepted tr s r run at_ := by
    have placed := (run_inv sound nameless run).placed
    simp only [Placed, at_] at placed
    exact placed
  goes_on tr s run open_ := inv_goes_on (run_inv sound nameless run) open_
  ends := ⟨rank, fun tr s a s' run taken => step_rank (run_inv sound nameless run) taken⟩

/-- A call with the whole packet there already. -/
def Call.ready (c : Call) : State where
  pc := match c.caller with
    | .handshake => .test
    | .fin => .read 0
  i := 0
  buf := c.code :: List.replicate 1028 0
  rx := c.packet.drop 1
  toCome := []
  tokens := 1
  elapsed := 0

theorem ready_starts (c : Call) : Starts c c.ready where
  pc := rfl
  i := rfl
  buf := ⟨by rw [Call.ready, List.length_cons, List.length_replicate], rfl⟩
  bytes := List.append_nil _
  elapsed := rfl

theorem delivers_first {r : Result} (delivers : Delivers c) (back : s.pc = .returned r)
    (taken : c.receives c.ready = some s) : r = c.accepted := by
  have run : Run (machine c) [] c.ready := .start (ready_starts c)
  have stepped : (machine c).step c.ready .receiver = some (s, []) := by
    simp only [machine, step, taken, Option.map_some]
  exact delivers.accepted _ s r (run.step stepped) back

theorem delivers_window (handshake : c.caller = .handshake) (delivers : Delivers c) : c.tick + ms100 < 2 ^ 32 := by
  by_contra past
  have low := c.tick_lt
  have size : ms100 = 100 := rfl
  have late : ¬ ((c.tick + c.ready.elapsed) % 2 ^ 32 ≤ (c.tick + ms100) % 2 ^ 32 ∧ c.ready.i < c.len) := by
    have now : c.ready.elapsed = 0 := rfl
    rw [now, Nat.add_zero, Nat.mod_eq_of_lt low]
    lia
  have pc : c.ready.pc = .test := by rw [Call.ready, handshake]
  have taken : c.receives c.ready = some { c.ready with pc := .returned (c.handshakeEnd 0 c.ready.buf) } := by
    simp only [Call.receives, pc]
    rw [if_neg late]
    rfl
  have same := delivers_first delivers rfl taken
  have refused : c.handshakeEnd 0 c.ready.buf = ⟨none, .error .dsz⟩ := if_pos (Nat.ne_of_lt len_pos)
  rw [refused, Call.accepted, handshake] at same
  have called : (none : Option Bytes) = some c.block.payload := congrArg Result.called same
  contradiction

theorem delivers_short (fin : c.caller = .fin) (nameless : c.nameless) (delivers : Delivers c) :
    c.block.payload.length = 128 ∨ shortChecksum c.block.payload := by
  by_contra spoiled
  have held : Held c 0 c.ready := ⟨(ready_starts c).bytes, (ready_starts c).buf.1⟩
  have next := held_fetch held len_pos
  have len := len_le (c := c)
  have there : (c.ready.rx.take (c.len - 0)).length = c.len := by
    have size : c.ready.rx.length = c.packet.length - 1 := List.length_drop
    rw [List.length_take, size, packet_size]
    lia
  rw [there, Nat.zero_add] at next
  have full := held_full next
  have short : 1 + c.len = 133 := by simp only [Call.len, fin]
  rw [short] at full
  have pc : c.ready.pc = .read 0 := by rw [Call.ready, fin]
  have taken : c.receives c.ready = some (c.readDone c.len (c.ready.fetch 0 (c.len - 0))) := by
    simp only [Call.receives, pc]
    rw [there, Nat.zero_add, if_pos (Nat.le_refl _)]
  have back : (c.readDone c.len (c.ready.fetch 0 (c.len - 0))).pc =
      .returned (c.finEnd c.len (c.ready.fetch 0 (c.len - 0)).buf) := by
    simp only [Call.readDone, fin]
  have same := delivers_first delivers back taken
  rw [finEnd_packet fin nameless full, if_neg spoiled, Call.accepted, fin] at same
  have code : Except.error Ymodem.Err.crc = (Except.ok () : Except Ymodem.Err Unit) := congrArg Result.code same
  contradiction

/-- A packet 0 that is received within 100 ms comes through, for _rym_do_handshake unless the counter of
the ticks ends in these, for _rym_do_fin where 133 bytes of it are a packet. -/
theorem delivers_iff (c : Call) (nameless : c.caller = .fin → c.nameless) : Delivers c ↔ c.sound := by
  constructor
  · intro delivers
    cases caller : c.caller with
    | handshake =>
      simp only [Call.sound, caller]
      exact delivers_window caller delivers
    | fin =>
      simp only [Call.sound, caller]
      exact delivers_short caller (nameless caller) delivers
  · exact fun sound => sound_delivers sound nameless

end Ends

theorem crc16_zeros (n : Nat) : crc16 (List.replicate n 0) = 0 := by
  induction n with
  | zero => rfl
  | succ n ih =>
    rw [crc16, List.replicate_succ, List.foldl_cons, show crcByte 0 0 = 0 by decide]
    exact ih

theorem zeros_length : (List.replicate 128 (0 : UInt8)).length = 128 ∨ (List.replicate 128 (0 : UInt8)).length = 1024 :=
  .inl List.length_replicate

def zeros : Block := ⟨List.replicate 128 0, zeros_length⟩

theorem delivers_iff_start : Delivers ⟨.handshake, zeros, codeAck, 0, by decide⟩ :=
  (delivers_iff _ (fun impossible => by contradiction)).mpr (by decide : 0 + ms100 < 2 ^ 32)

def marked : Block where
  payload := List.replicate 128 0 ++ 1 :: List.replicate 895 0
  size := .inr (by rw [List.length_append, List.length_cons, List.length_replicate, List.length_replicate])

/-- One tick before the counter ends, and a long packet at the end of the transfer. -/
theorem not_delivers : ¬ Delivers ⟨.handshake, zeros, codeAck, 2 ^ 32 - 1, by decide⟩ ∧
    ¬ Delivers ⟨.fin, marked, codeAck, 0, by decide⟩ := by
  constructor
  · intro delivers
    exact absurd (delivers_window rfl delivers) (by decide)
  · intro delivers
    have nameless : Call.nameless ⟨.fin, marked, codeAck, 0, by decide⟩ := rfl
    have long : marked.payload.length = 1024 := by
      rw [marked, List.length_append, List.length_cons, List.length_replicate, List.length_replicate]
    have first : marked.payload.take 128 = List.replicate 128 0 := List.take_left' List.length_replicate
    have after : marked.payload.getD 128 0 = 1 ∧ marked.payload.getD 129 0 = 0 := ⟨rfl, rfl⟩
    rcases delivers_short rfl nameless delivers with length | checksum
    · exact absurd (long.symm.trans length) (by decide)
    · have apart : ¬ (1 : UInt8).toUInt16 <<< 8 ||| (0 : UInt8).toUInt16 = 0 := by decide
      rw [shortChecksum] at checksum
      rw [after.1, after.2, first, crc16_zeros] at checksum
      exact apart checksum

end RtThread.YmodemBurst
