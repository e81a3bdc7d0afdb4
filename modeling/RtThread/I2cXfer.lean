import RtThread.I2cBit

/-! A whole transfer of the bit-banged I2C master: the conversation it puts on the wire. -/
namespace RtThread.I2cBit
open TwoWire

/-- The address byte, sent until it is acknowledged and at most `retries` times again. -/
inductive Addressed (addr : BitVec 8) : Nat → List Sym → Bool → Prop where
  | acked {retries : Nat} : Addressed addr retries [.byte addr true] true
  | refused : Addressed addr 0 [.byte addr false] false
  | again {retries : Nat} {syms : List Sym} {ok : Bool} : Addressed addr retries syms ok →
      Addressed addr (retries + 1) (.byte addr false :: .stop :: .start :: syms) ok

/-- Data bytes sent in order, none after one that is refused and not ignored. -/
inductive Written (ignoreNack : Bool) : List (BitVec 8) → List Sym → Bool → Prop where
  | done : Written ignoreNack [] [] true
  | next {b : BitVec 8} {rest : List (BitVec 8)} {ack ok : Bool} {syms : List Sym} :
      ack = true ∨ ignoreNack = true → Written ignoreNack rest syms ok →
      Written ignoreNack (b :: rest) (.byte b ack :: syms) ok
  | refused {b : BitVec 8} {rest : List (BitVec 8)} : ignoreNack = false →
      Written ignoreNack (b :: rest) [.byte b false] false

def received : List (BitVec 8) → List Sym
  | [] => []
  | b :: rest => .byte b (rest ≠ []) :: received rest

def addressByte (m : RtI2cMsg) : BitVec 8 := BitVec.ofNat 8 (2 * m.addr.toNat + m.rd.toNat)

def retriesFor (bus : RtI2cBusDevice) (m : RtI2cMsg) : Nat :=
  if m.ignoreNack then 0 else bus.retries.toNat

/-- What is on the wire for one message, the message afterwards, and whether it was completed. -/
inductive Conveyed (bus : RtI2cBusDevice) (m : RtI2cMsg) : List Sym → RtI2cMsg → Bool → Prop where
  | refused {syms : List Sym} : m.ignoreNack = false →
      Addressed (addressByte m) (retriesFor bus m) syms false → Conveyed bus m syms m false
  | written {syms data : List Sym} {ok done : Bool} : m.rd = false →
      Addressed (addressByte m) (retriesFor bus m) syms ok → ok = true ∨ m.ignoreNack = true →
      Written m.ignoreNack m.buf data done → Conveyed bus m (syms ++ data) m done
  | read {syms : List Sym} {ok : Bool} {bytes : List (BitVec 8)} : m.rd = true →
      Addressed (addressByte m) (retriesFor bus m) syms ok → ok = true ∨ m.ignoreNack = true →
      bytes.length = m.len → Conveyed bus m (syms ++ received bytes) { m with buf := bytes } true

inductive Conversation (bus : RtI2cBusDevice) :
    List RtI2cMsg → List Sym → List RtI2cMsg → Bool → Prop where
  | done : Conversation bus [] [] [] true
  | next {m m' : RtI2cMsg} {rest rest' : List RtI2cMsg} {syms tail : List Sym} {ok : Bool} :
      Conveyed bus m syms m' true → Conversation bus rest tail rest' ok →
      Conversation bus (m :: rest) (.start :: syms ++ tail) (m' :: rest') ok
  | cut {m m' : RtI2cMsg} {rest : List RtI2cMsg} {syms : List Sym} : Conveyed bus m syms m' false →
      Conversation bus (m :: rest) (.start :: syms) (m' :: rest) false

/-- The levels driven spell a conversation about the messages, ended by STOP with both lines high,
and the result tells whether all messages were completed. -/
def Legal (bus : RtI2cBusDevice) (msgs : List RtI2cMsg) (o : Outcome) : Prop :=
  ∃ syms done, parse [] (marks .idle o.wire.drives) = some (syms ++ [.stop]) ∧
    settle .idle o.wire.drives = .idle ∧ Conversation bus msgs syms o.msgs done ∧
    (o.ret = msgs.length ↔ done = true)

/-- A 7-bit address and none of the flags that leave parts of the protocol out. -/
structure Plain (m : RtI2cMsg) : Prop where
  addr : m.addr.toNat < 2 ^ 7
  addr10bit : m.addr10bit = false
  noStart : m.noStart = false
  noStop : m.noStop = false
  noReadAck : m.noReadAck = false
  len : m.rd = true → 1 ≤ m.len

/-- Whether an address byte is acknowledged within `n` rounds, the slave's answers being taken from
the `r`-th on, and the number of the next answer. -/
def acked (sda : Nat → Bool) : Nat → Nat → Bool × Nat
  | 0, r => (false, r)
  | n + 1, r => if sda r then acked sda n (r + 1) else (true, r + 1)

def taken (sda : Nat → Bool) (ignoreNack : Bool) : Nat → Nat → Bool × Nat
  | 0, r => (true, r)
  | n + 1, r =>
    if sda r = true ∧ ignoreNack = false then (false, r + 1) else taken sda ignoreNack n (r + 1)

variable {slave : Slave} {bus : RtI2cBusDevice} {w : Wire} {l : Lines} {seen : List Mark}
  {m : RtI2cMsg} {sda : Bool}

theorem spell_append (a b : List Sym) : spell (a ++ b) = spell a ++ spell b := List.flatMap_append

theorem spell_cons (a : Sym) (b : List Sym) : spell (a :: b) = spell [a] ++ spell b :=
  spell_append [a] b

theorem sendTries_at (prompt : slave.Prompt) (addr : BitVec 8) (n : Nat) (at_ : At w (.low sda) seen) :
    (sendTries slave addr (n + 1) w).2 = (if (acked slave.sda (n + 1) w.reads).1 then 1 else 0) ∧
      (sendTries slave addr (n + 1) w).1.reads = (acked slave.sda (n + 1) w.reads).2 ∧
      ∃ syms, Addressed addr n syms (acked slave.sda (n + 1) w.reads).1 ∧
        At (sendTries slave addr (n + 1) w).1 (.low true) (seen ++ spell syms) := by
  induction n generalizing w sda seen with
  | zero =>
    obtain ⟨ret, reads, sent⟩ := writeb_at prompt addr at_
    rcases Bool.eq_false_or_eq_true (slave.sda w.reads) with nack | ack
    · simp only [nack, if_true] at ret
      simp only [sendTries, or_true, if_true, acked, ret, reads, nack]
      exact ⟨rfl, trivial, _, .refused, by simpa [pending, Lines.low, nack] using sent⟩
    · simp only [ack, Bool.false_eq_true, if_false] at ret
      simp only [sendTries, or_true, if_true, acked, ret, reads, ack, Bool.false_eq_true, if_false]
      exact ⟨trivial, trivial, _, .acked, by simpa [pending, Lines.low, ack] using sent⟩
  | succ n ih =>
    obtain ⟨ret, reads, sent⟩ := writeb_at prompt addr at_
    rw [sendTries, acked]
    rcases Bool.eq_false_or_eq_true (slave.sda w.reads) with nack | ack
    · have restarted := start_at (stop_at slave sent)
      obtain ⟨value, reads', syms, tried, after⟩ := ih restarted
      have same : (i2cStart (i2cStop slave (i2cWriteb slave w addr).1)).reads = w.reads + 1 := reads
      rw [same] at value reads' tried
      simp only [nack, if_true] at ret
      simp only [ret, nack, if_true, Nat.add_eq_zero_iff, Nat.one_ne_zero, and_false, or_self,
        Int.zero_ne_one, if_false]
      refine ⟨value, reads', _, .again tried, ?_⟩
      simpa [pending, Lines.low, nack, spell, Sym.marks] using after
    · simp only [ack, Bool.false_eq_true, if_false] at ret
      simp only [ret, true_or, if_true, ack, Bool.false_eq_true, if_false]
      exact ⟨trivial, reads, _, .acked, by simpa [pending, Lines.low, ack] using sent⟩

theorem sendBytes_at (prompt : slave.Prompt) (ignoreNack : Bool) (bytes : List (BitVec 8)) (sent : Nat)
    (at_ : At w l seen) :
    let t := taken slave.sda ignoreNack bytes.length w.reads
    let r := i2cSendBytes slave ignoreNack bytes sent w
    r.2 = (if t.1 then sent + bytes.length else 0 : Nat) ∧ r.1.reads = t.2 ∧
      ∃ syms, Written ignoreNack bytes syms t.1 ∧
        ((bytes = [] ∧ syms = [] ∧ r.1 = w) ∨ At r.1 (.low true) (seen ++ pending l ++ spell syms)) := by
  induction bytes generalizing w l seen sent with
  | nil => exact ⟨rfl, rfl, [], .done, Or.inl ⟨rfl, rfl, rfl⟩⟩
  | cons b rest ih =>
    obtain ⟨ret, reads, one⟩ := writeb_at prompt b at_
    obtain ⟨value, reads', syms, more, after⟩ := ih (sent + 1) one
    have ended : At (i2cSendBytes slave ignoreNack rest (sent + 1) (i2cWriteb slave w b).1).1 (.low true)
        (seen ++ pending l ++ spell (.byte b (!slave.sda w.reads) :: syms)) := by
      rcases after with ⟨_, rfl, same⟩ | after
      · rw [same]
        exact one
      · rw [spell_cons]
        simpa [pending, Lines.low] using after
    simp only [reads] at value reads' more
    have total : sent + 1 + rest.length = sent + (rest.length + 1) := by lia
    simp only [total] at value
    simp only [i2cSendBytes, taken, List.length_cons, ret]
    rcases Bool.eq_false_or_eq_true (slave.sda w.reads) with nack | ack
    · rcases Bool.eq_false_or_eq_true ignoreNack with ignored | heeded
      · simp only [nack, ignored, if_true, Int.lt_irrefl, and_self, or_true, Bool.true_eq_false,
          and_false, if_false]
        subst ignored
        exact ⟨value, reads', _, .next (Or.inr rfl) more, Or.inr (by simpa [nack] using ended)⟩
      · simp only [nack, heeded, if_true, Int.lt_irrefl, Bool.false_eq_true, false_and, or_self, and_self,
          if_false]
        exact ⟨rfl, reads, _, .refused rfl, Or.inr (by simpa [nack] using one)⟩
    · simp only [ack, Bool.false_eq_true, if_false, Int.zero_lt_one, true_or, if_true, false_and]
      exact ⟨value, reads', _, .next (Or.inl rfl) more, Or.inr (by simpa [ack] using ended)⟩

theorem recvBytes_at (prompt : slave.Prompt) (count : Nat) (got : List (BitVec 8))
    (at_ : At w (.low sda) seen) :
    let r := i2cRecvBytes slave false count got w
    ∃ bytes, bytes.length = count ∧ r.2.1 = got ++ bytes ∧ r.2.2 = (got.length + count : Nat) ∧
      ∃ sda', At r.1 (.low sda') (seen ++ spell (received bytes)) := by
  induction count generalizing w sda seen got with
  | zero =>
    refine ⟨[], rfl, by simp [i2cRecvBytes], rfl, sda, ?_⟩
    simpa [i2cRecvBytes, received, spell] using at_
  | succ count ih =>
    obtain ⟨value, reads, eight⟩ := readb_at prompt at_
    have answered := sendAck_at prompt (decide (count ≠ 0)) eight
    obtain ⟨bytes, length, stored, ret, sda', after⟩ :=
      ih (got ++ [byteOf (samples slave w.reads 8)]) answered.2.2
    have unfolded : i2cRecvBytes slave false (count + 1) got w = i2cRecvBytes slave false count
        (got ++ [byteOf (samples slave w.reads 8)])
        (i2cSendAckOrNack slave (i2cReadb slave w).1 (decide (count ≠ 0))).1 := by
      rw [i2cRecvBytes]
      generalize i2cReadb slave w = r at value answered
      obtain ⟨w', val⟩ := r
      subst value
      simp only [Bool.false_eq_true, if_false, answered.1, Int.lt_irrefl]
    simp only [unfolded]
    refine ⟨byteOf (samples slave w.reads 8) :: bytes, by simp [length], ?_, ?_, sda', ?_⟩
    · rw [stored, List.append_assoc]
      rfl
    · rw [ret]
      simp only [List.length_append, List.length_cons, List.length_nil]
      lia
    · have ack : decide (bytes ≠ []) = decide (count ≠ 0) := by
        rw [← length]
        simp
      rw [received, ack, spell_cons]
      simpa [spell, Sym.marks, bits_byteOf] using after

theorem xferMsgs_stop (i : Nat) (rest : List RtI2cMsg) {ret : Int}
    (stop : (xferMsg slave bus i m w).2.2 = some ret) : xferMsgs slave bus i m rest w =
      ⟨(xferMsg slave bus i m w).1, (xferMsg slave bus i m w).2.1 :: rest, ret, m⟩ := by
  rw [xferMsgs.eq_def]
  generalize xferMsg slave bus i m w = r at stop
  obtain ⟨w', m', out⟩ := r
  subst stop
  rfl

theorem xferMsgs_last (i : Nat) (goes : (xferMsg slave bus i m w).2.2 = none) :
    xferMsgs slave bus i m [] w =
      ⟨(xferMsg slave bus i m w).1, [(xferMsg slave bus i m w).2.1], i + 1, m⟩ := by
  rw [xferMsgs.eq_def]
  generalize xferMsg slave bus i m w = r at goes
  obtain ⟨w', m', out⟩ := r
  subst goes
  rfl

theorem xferMsgs_next (i : Nat) (next : RtI2cMsg) (rest : List RtI2cMsg)
    (goes : (xferMsg slave bus i m w).2.2 = none) :
    let tail := xferMsgs slave bus (i + 1) next rest (xferMsg slave bus i m w).1
    xferMsgs slave bus i m (next :: rest) w =
      { tail with msgs := (xferMsg slave bus i m w).2.1 :: tail.msgs } := by
  intro tail
  conv_lhs => rw [xferMsgs.eq_def]
  subst tail
  generalize xferMsg slave bus i m w = r at goes ⊢
  obtain ⟨w', m', out⟩ := r
  subst goes
  rfl

theorem xferMsgs_unsent (slave : Slave) (w : Wire) (none_ : (retriesOf bus m + 1).toNat = 0)
    (noStart : m.noStart = false) (i : Nat) (rest : List RtI2cMsg) :
    (xferMsgs slave bus i m rest w).wire = (if i ≠ 0 then i2cRestart slave w else i2cStart w) ∧
      (xferMsgs slave bus i m rest w).last = m := by
  have heeded : m.ignoreNack = false := by
    by_contra ignored
    rw [Bool.not_eq_false] at ignored
    simp [retriesOf, ignored] at none_
  have refused : openMsg slave bus i m w =
      (if i ≠ 0 then i2cRestart slave w else i2cStart w, -rtEio) := by
    simp [openMsg, noStart, i2cBitSendAddress, i2cSendAddress, none_, sendTries, heeded]
  have stopped : xferMsg slave bus i m w =
      (if i ≠ 0 then i2cRestart slave w else i2cStart w, m, some (-rtEio)) := by
    rw [xferMsg, refused]
    simp [heeded, rtEio]
  rw [xferMsgs_stop (m := m) i rest (by rw [stopped])]
  exact ⟨by rw [stopped], rfl⟩

theorem addr1Of_plain (seven : m.addr10bit = false) : addr1Of m = addressByte m := by
  have shifted : (m.addr <<< 1).setWidth 8 = BitVec.ofNat 8 (2 * m.addr.toNat) := by
    apply BitVec.eq_of_toNat_eq
    simp only [BitVec.toNat_setWidth, BitVec.toNat_shiftLeft, BitVec.toNat_ofNat, Nat.shiftLeft_eq]
    lia
  have even : (m.addr <<< 1).setWidth 8 &&& 1#8 = 0#8 := by
    ext k
    cases k <;> simp
  simp only [addr1Of, seven, Bool.false_eq_true, if_false, addressByte]
  cases read : m.rd with
  | false => simpa using shifted
  | true =>
    simp only [if_true, Bool.toNat_true]
    rw [← BitVec.add_eq_or_of_and_eq_zero _ _ even, shifted, BitVec.ofNat_add]

theorem tries_plain (sendable : 0 ≤ retriesOf bus m) :
    (retriesOf bus m + 1).toNat = retriesFor bus m + 1 := by
  have same : (retriesOf bus m).toNat = retriesFor bus m := by
    simp only [retriesOf, retriesFor] at sendable ⊢
    split
    · rfl
    · rename_i heeded
      rw [if_neg heeded] at sendable
      have bound := bus.retries.isLt
      rw [BitVec.toInt_eq_toNat_cond] at sendable ⊢
      split at sendable <;> lia
  lia

theorem Written.refused_length {ignoreNack : Bool} {bytes : List (BitVec 8)} {syms : List Sym}
    (written : Written ignoreNack bytes syms false) : 0 < bytes.length := by
  cases written <;> simp

theorem xferMsg_plain (prompt : slave.Prompt) (plain : Plain m) (sendable : 0 ≤ retriesOf bus m) (i : Nat)
    (started : At (if i ≠ 0 then i2cRestart slave w else i2cStart w) (.low false) seen) :
    let r := xferMsg slave bus i m w
    ∃ syms done, Conveyed bus m syms r.2.1 done ∧ (r.2.2 = none ↔ done = true) ∧
      (∀ ret ∈ r.2.2, ret < 0) ∧ ∃ sda, At r.1 (.low sda) (seen ++ spell syms) := by
  generalize open_ : (if i ≠ 0 then i2cRestart slave w else i2cStart w) = w1 at started
  obtain ⟨ret, _, syms, tried, sent⟩ := sendTries_at prompt (addressByte m) (retriesFor bus m) started
  have opens : openMsg slave bus i m w =
      if (acked slave.sda (retriesFor bus m + 1) w1.reads).1 = false ∧ m.ignoreNack = false then
        ((sendTries slave (addressByte m) (retriesFor bus m + 1) w1).1, -rtEio)
      else ((sendTries slave (addressByte m) (retriesFor bus m + 1) w1).1, 0) := by
    simp only [openMsg, plain.noStart, Bool.false_eq_true, if_false, open_, i2cBitSendAddress, i2cSendAddress,
      tries_plain sendable, addr1Of_plain plain.addr10bit, plain.addr10bit, ret]
    cases (acked slave.sda (retriesFor bus m + 1) w1.reads).1 <;> simp
  generalize sendTries slave (addressByte m) (retriesFor bus m + 1) w1 = r at opens sent
  generalize (acked slave.sda (retriesFor bus m + 1) w1.reads).1 = ok at opens tried
  by_cases refused : ok = false ∧ m.ignoreNack = false
  · rw [if_pos refused] at opens
    obtain ⟨rfl, heeded⟩ := refused
    have stops : xferMsg slave bus i m w = (r.1, m, some (-rtEio)) := by
      simp [xferMsg, opens, heeded, rtEio]
    simp only [stops]
    exact ⟨syms, false, .refused heeded tried, by simp, by simp [rtEio], true, sent⟩
  · rw [if_neg refused] at opens
    have passed : ok = true ∨ m.ignoreNack = true := by
      cases ok <;> cases ignored : m.ignoreNack <;> simp_all
    simp only [xferMsg, opens, ne_eq, not_true_eq_false, false_and, if_false]
    cases read : m.rd with
    | true =>
      obtain ⟨bytes, length, stored, got, s, after⟩ := recvBytes_at prompt m.len [] sent
      simp only [if_true, plain.noReadAck, got, List.length_nil, Nat.zero_add, Int.lt_irrefl, if_false, stored,
        List.nil_append]
      have whole : m.buf.drop bytes.length = [] := by simp [length, RtI2cMsg.len]
      rw [whole, List.append_nil]
      refine ⟨syms ++ received bytes, true, .read read tried passed length, by simp, by simp, s, ?_⟩
      simpa only [spell_append, List.append_assoc] using after
    | false =>
      obtain ⟨sent_, _, data, written, after⟩ := sendBytes_at prompt m.ignoreNack m.buf 0 sent
      simp only [Bool.false_eq_true, if_false, sent_]
      generalize (taken slave.sda m.ignoreNack m.buf.length r.1.reads).1 = done at written
      have unsent : done = false → 0 < m.len := by
        rintro rfl
        exact written.refused_length
      refine ⟨syms ++ data, done, .written read tried passed written, ?_, ?_, true, ?_⟩
      · cases done with
        | true => simp [RtI2cMsg.len]
        | false => simp [unsent rfl]
      · cases done with
        | true => simp [RtI2cMsg.len]
        | false => simp [unsent rfl, rtError]
      · rcases after with ⟨_, none, same⟩ | after
        · rw [same, none, List.append_nil]
          exact sent
        · simpa [pending, Lines.low, spell_append] using after

theorem xferMsgs_plain (prompt : slave.Prompt) (i : Nat) (m : RtI2cMsg) (rest : List RtI2cMsg)
    (plain : ∀ x ∈ m :: rest, Plain x) (sendable : ∀ x ∈ m :: rest, 0 ≤ retriesOf bus x)
    (started : At (if i ≠ 0 then i2cRestart slave w else i2cStart w) (.low false) (seen ++ [.start])) :
    let o := xferMsgs slave bus i m rest w
    ∃ syms done, Conversation bus (m :: rest) syms o.msgs done ∧
      (if done then o.ret = i + (m :: rest).length else o.ret < 0) ∧ o.last ∈ m :: rest ∧
      ∃ sda, At o.wire (.low sda) (seen ++ spell syms) := by
  induction rest generalizing i m w seen with
  | nil =>
    obtain ⟨syms, done, conveyed, goes, fails, s, after⟩ :=
      xferMsg_plain prompt (plain m (by simp)) (sendable m (by simp)) i started
    cases out : (xferMsg slave bus i m w).2.2 with
    | some ret =>
      obtain rfl : done = false := by simpa [out] using goes
      rw [xferMsgs_stop i [] out]
      exact ⟨_, _, .cut conveyed, fails ret out, by simp, s, by
        simpa [spell, Sym.marks] using after⟩
    | none =>
      obtain rfl : done = true := goes.mp out
      rw [xferMsgs_last i out]
      refine ⟨_, _, .next conveyed .done, rfl, by simp, s, ?_⟩
      simpa [spell, Sym.marks] using after
  | cons next rest ih =>
    obtain ⟨syms, done, conveyed, goes, fails, s, after⟩ :=
      xferMsg_plain prompt (plain m (by simp)) (sendable m (by simp)) i started
    cases out : (xferMsg slave bus i m w).2.2 with
    | some ret =>
      obtain rfl : done = false := by simpa [out] using goes
      rw [xferMsgs_stop i _ out]
      exact ⟨_, _, .cut conveyed, fails ret out, by simp, s, by
        simpa [spell, Sym.marks] using after⟩
    | none =>
      obtain rfl : done = true := goes.mp out
      rw [xferMsgs_next i next rest out]
      have restarted : At (if i + 1 ≠ 0 then i2cRestart slave (xferMsg slave bus i m w).1
          else i2cStart (xferMsg slave bus i m w).1) (.low false)
          (seen ++ [.start] ++ spell syms ++ [.start]) := by
        simpa using restart_at slave after
      obtain ⟨tail, ok, talk, ret, last, s', whole⟩ := ih (i + 1) next
        (fun x hx => plain x (by simp [hx])) (fun x hx => sendable x (by simp [hx])) restarted
      refine ⟨_, ok, .next conveyed talk, ?_, by simp [last], s', ?_⟩
      · cases ok with
        | true =>
          simp only [if_true] at ret ⊢
          rw [ret]
          simp only [List.length_cons]
          lia
        | false => exact ret
      · simpa [spell, Sym.marks, List.append_assoc] using whole

def EndsInByte (syms : List Sym) : Prop := ∃ init b ack, syms = init ++ [.byte b ack]

theorem EndsInByte.after {syms : List Sym} (ends : EndsInByte syms) (front : List Sym) :
    EndsInByte (front ++ syms) := by
  obtain ⟨init, b, ack, rfl⟩ := ends
  exact ⟨front ++ init, b, ack, by simp⟩

theorem Addressed.ends {addr : BitVec 8} {retries : Nat} {syms : List Sym} {ok : Bool}
    (addressed : Addressed addr retries syms ok) : EndsInByte syms := by
  induction addressed with
  | acked => exact ⟨[], _, _, rfl⟩
  | refused => exact ⟨[], _, _, rfl⟩
  | again _ ih => exact ih.after [_, _, _]

theorem Written.ends {ignoreNack : Bool} {bytes : List (BitVec 8)} {syms : List Sym} {ok : Bool}
    (written : Written ignoreNack bytes syms ok) : syms = [] ∨ EndsInByte syms := by
  induction written with
  | done => exact Or.inl rfl
  | refused _ => exact Or.inr ⟨[], _, _, rfl⟩
  | next _ _ ih =>
    rcases ih with rfl | ends
    · exact Or.inr ⟨[], _, _, rfl⟩
    · exact Or.inr (ends.after [_])

theorem received_ends (bytes : List (BitVec 8)) : received bytes = [] ∨ EndsInByte (received bytes) := by
  induction bytes with
  | nil => exact Or.inl rfl
  | cons b rest ih =>
    rcases ih with none | ends
    · exact Or.inr ⟨[], _, _, by rw [received, none]; rfl⟩
    · exact Or.inr (ends.after [_])

theorem Conveyed.ends {m' : RtI2cMsg} {syms : List Sym} {ok : Bool}
    (conveyed : Conveyed bus m syms m' ok) : EndsInByte syms := by
  have append {front back : List Sym} (first : EndsInByte front) (second : back = [] ∨ EndsInByte back) :
      EndsInByte (front ++ back) := by
    rcases second with rfl | ends
    · simpa using first
    · exact ends.after front
  cases conveyed with
  | refused _ addressed => exact addressed.ends
  | written _ addressed _ written => exact append addressed.ends written.ends
  | read _ addressed _ _ => exact append addressed.ends (received_ends _)

/-- No conversation leaves a START without a byte after it. -/
theorem Conversation.ends {msgs msgs' : List RtI2cMsg} {syms : List Sym} {ok : Bool}
    (talk : Conversation bus msgs syms msgs' ok) : syms = [] ∨ EndsInByte syms := by
  induction talk with
  | done => exact Or.inl rfl
  | cut conveyed => exact Or.inr (conveyed.ends.after [_])
  | next conveyed _ ih =>
    rcases ih with rfl | ends
    · exact Or.inr (by simpa using conveyed.ends.after [_])
    · exact Or.inr (ends.after _)

theorem Written.ignored {ignoreNack : Bool} {bytes : List (BitVec 8)} {syms : List Sym} {ok : Bool}
    (ignores : ignoreNack = true) (written : Written ignoreNack bytes syms ok) : ok = true := by
  induction written with
  | done => rfl
  | next _ _ ih => exact ih
  | refused heeded => simp [heeded] at ignores

theorem Conveyed.ignored {m' : RtI2cMsg} {syms : List Sym} {ok : Bool} (ignores : m.ignoreNack = true)
    (conveyed : Conveyed bus m syms m' ok) : ok = true := by
  cases conveyed with
  | refused heeded _ => simp [ignores] at heeded
  | written _ _ _ written => exact written.ignored ignores
  | read => rfl

/-- A number of retries that is negative as a signed one leaves a START with no byte after it at
the first message that heeds NACKs. -/
theorem xferMsgs_negative (prompt : slave.Prompt) (negative : bus.retries.toInt < 0) (i : Nat) (m : RtI2cMsg)
    (rest : List RtI2cMsg) (plain : ∀ x ∈ m :: rest, Plain x)
    (heeds : ∃ x ∈ m :: rest, x.ignoreNack = false)
    (started : At (if i ≠ 0 then i2cRestart slave w else i2cStart w) (.low false) (seen ++ [.start])) :
    let o := xferMsgs slave bus i m rest w
    o.last ∈ m :: rest ∧ ∃ syms sda, At o.wire (.low sda) (seen ++ spell (syms ++ [.start])) := by
  induction rest generalizing i m w seen with
  | nil =>
    have heeded : m.ignoreNack = false := by simpa using heeds
    have unsent : (retriesOf bus m + 1).toNat = 0 := by
      simp only [retriesOf, heeded, Bool.false_eq_true, if_false]
      lia
    obtain ⟨wire, last⟩ := xferMsgs_unsent slave w unsent (plain m (by simp)).noStart i []
    simp only [wire, last]
    exact ⟨by simp, [], false, by simpa [spell, Sym.marks] using started⟩
  | cons next rest ih =>
    cases heeded : m.ignoreNack with
    | false =>
      have unsent : (retriesOf bus m + 1).toNat = 0 := by
        simp only [retriesOf, heeded, Bool.false_eq_true, if_false]
        lia
      obtain ⟨wire, last⟩ :=
        xferMsgs_unsent slave w unsent (plain m (by simp)).noStart i (next :: rest)
      simp only [wire, last]
      exact ⟨by simp, [], false, by simpa [spell, Sym.marks] using started⟩
    | true =>
      have sendable : 0 ≤ retriesOf bus m := by simp [retriesOf, heeded]
      obtain ⟨syms, done, conveyed, goes, _, s, after⟩ :=
        xferMsg_plain prompt (plain m (by simp)) sendable i started
      have out := goes.mpr (conveyed.ignored heeded)
      have restarted : At (if i + 1 ≠ 0 then i2cRestart slave (xferMsg slave bus i m w).1
          else i2cStart (xferMsg slave bus i m w).1) (.low false)
          (seen ++ [.start] ++ spell syms ++ [.start]) := by
        simpa using restart_at slave after
      obtain ⟨last, tail, s', whole⟩ := ih (i + 1) next (fun x hx => plain x (by simp [hx]))
        (by simpa [heeded] using heeds) restarted
      rw [xferMsgs_next i next rest out]
      refine ⟨by simp [last], .start :: syms ++ tail, s', ?_⟩
      simpa [spell, Sym.marks, List.append_assoc] using whole

theorem xfer_stopped {rest : List RtI2cMsg} {sda : Bool} {seen : List Mark}
    (plain : (xferMsgs slave bus 0 m rest .idle).last.noStop = false)
    (at_ : At (xferMsgs slave bus 0 m rest .idle).wire (.low sda) seen) :
    i2cBitXfer slave bus (m :: rest) .idle = some { xferMsgs slave bus 0 m rest .idle with
      wire := i2cStop slave (xferMsgs slave bus 0 m rest .idle).wire } ∧
    At (i2cStop slave (xferMsgs slave bus 0 m rest .idle).wire) .idle (seen ++ [.stop]) :=
  ⟨by simp [i2cBitXfer, plain], stop_at slave at_⟩

/-- The transfer is legal, whatever the slave answers, exactly when the number of retries is read as
what it is wherever NACKs are heeded. -/
theorem transfer_legal (bus : RtI2cBusDevice) (slave : Slave) (prompt : slave.Prompt) (msgs : List RtI2cMsg)
    (some_ : msgs ≠ []) (plain : ∀ m ∈ msgs, Plain m) :
    ∃ o, i2cBitXfer slave bus msgs .idle = some o ∧
      (Legal bus msgs o ↔ bus.retries.toNat < 2 ^ 31 ∨ ∀ m ∈ msgs, m.ignoreNack = true) := by
  cases msgs with
  | nil => exact absurd rfl some_
  | cons m rest =>
    have started : At (if (0 : Nat) ≠ 0 then i2cRestart slave .idle else i2cStart .idle) (.low false)
        ([] ++ [.start]) := start_at ⟨rfl, rfl⟩
    have bound := bus.retries.isLt
    have signed := BitVec.toInt_eq_toNat_cond bus.retries
    by_cases readable : bus.retries.toNat < 2 ^ 31 ∨ ∀ x ∈ m :: rest, x.ignoreNack = true
    · have sendable : ∀ x ∈ m :: rest, 0 ≤ retriesOf bus x := by
        intro x hx
        simp only [retriesOf]
        rcases readable with small | ignored
        · split <;> lia
        · simp [ignored x hx]
      obtain ⟨syms, done, talk, ret, last, s, after⟩ := xferMsgs_plain prompt 0 m rest plain sendable started
      obtain ⟨result, stopped⟩ := xfer_stopped (plain _ last).noStop after
      refine ⟨_, result, iff_of_true ⟨syms, done, ?_, stopped.1, talk, ?_⟩ readable⟩
      · rw [stopped.2]
        have read := parse_spell (syms ++ [.stop])
        simpa [spell_append, spell, Sym.marks] using read
      · cases done with
        | true => simpa using ret
        | false =>
          simp only [Bool.false_eq_true, if_false, iff_false] at ret ⊢
          lia
    · have negative : bus.retries.toInt < 0 := by
        simp only [not_or] at readable
        split at signed <;> lia
      have heeds : ∃ x ∈ m :: rest, x.ignoreNack = false := by
        simp only [not_or, not_forall, exists_prop, Bool.not_eq_true] at readable
        exact readable.2
      obtain ⟨last, syms, s, after⟩ := xferMsgs_negative prompt negative 0 m rest plain heeds started
      obtain ⟨result, stopped⟩ := xfer_stopped (plain _ last).noStop after
      refine ⟨_, result, iff_of_false ?_ readable⟩
      rintro ⟨syms', done, parsed, _, talk, _⟩
      rw [stopped.2] at parsed
      have read := parse_spell (syms ++ [.start] ++ [.stop])
      rw [show spell (syms ++ [.start] ++ [.stop]) = [] ++ spell (syms ++ [.start]) ++ [.stop] by
        simp [spell, Sym.marks], parsed] at read
      have same := List.append_cancel_right (Option.some.inj read)
      rcases talk.ends with none | ⟨init, b, ack, ends⟩
      · simp [none] at same
      · rw [ends] at same
        simpa using List.append_inj_right' same rfl

theorem transfer_legal_read :
    ∃ o, i2cBitXfer ⟨fun n => n % 2 = 1, fun _ => false⟩ ⟨3⟩ [⟨0x50, 0, [7]⟩, ⟨0x50, 1, [0, 0]⟩] .idle =
        some o ∧
      Legal ⟨3⟩ [⟨0x50, 0, [7]⟩, ⟨0x50, 1, [0, 0]⟩] o := by
  obtain ⟨o, done, legal⟩ := transfer_legal ⟨3⟩ ⟨fun n => n % 2 = 1, fun _ => false⟩ (fun _ => rfl)
    [⟨0x50, 0, [7]⟩, ⟨0x50, 1, [0, 0]⟩] (by simp) (by
      intro m hm
      simp only [List.mem_cons, List.not_mem_nil, or_false] at hm
      rcases hm with rfl | rfl <;> constructor <;> decide)
  exact ⟨o, done, legal.mpr (Or.inl (by decide))⟩

/-- With 2 ^ 31 retries there is a START and a STOP, and no byte between them. -/
theorem retries_negative : ¬∀ (bus : RtI2cBusDevice) (slave : Slave) (msgs : List RtI2cMsg), slave.Prompt →
    msgs ≠ [] → (∀ m ∈ msgs, Plain m) →
    ∃ o, i2cBitXfer slave bus msgs .idle = some o ∧ Legal bus msgs o := by
  intro all
  obtain ⟨o, done, syms, ok, parsed, _, talk, _⟩ := all ⟨0x80000000⟩ ⟨fun _ => false, fun _ => false⟩
    [⟨0x50, 0, [0]⟩] (fun _ => rfl) (by simp) (by
      intro m hm
      obtain rfl := List.mem_singleton.mp hm
      constructor <;> decide)
  have read : parse [] (marks .idle o.wire.drives) = some [.start, .stop] := by
    cases Option.some.inj done
    decide
  rw [read] at parsed
  have whole : ([] ++ [Sym.start]) ++ [.stop] = syms ++ [.stop] := Option.some.inj parsed
  have same := List.append_cancel_right whole
  rcases talk.ends with none | ⟨init, b, ack, ends⟩
  · simp [none] at same
  · rw [ends] at same
    simpa using List.append_inj_right' same rfl

end RtThread.I2cBit
