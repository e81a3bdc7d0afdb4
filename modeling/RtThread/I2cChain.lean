import RtThread.I2cXfer

/-! Two transfers of the bit-banged I2C master in a row: how any messages and any answers leave the
lines, and what the START of the next transfer makes of it. -/
namespace RtThread.I2cBit
open TwoWire

variable {slave : Slave} {bus : RtI2cBusDevice} {w : Wire} {l : Lines} {seen : List Mark}
  {m : RtI2cMsg} {sda : Bool}

/-- The clock is left low, the marks going on from `seen`. -/
def Low (w : Wire) (seen : List Mark) : Prop := ∃ sda ms, At w (.low sda) (seen ++ ms)

theorem At.low (at_ : At w (.low sda) seen) : Low w seen := ⟨sda, [], by simpa using at_⟩

theorem Low.of_later {more : List Mark} (low : Low w (seen ++ more)) : Low w seen := by
  obtain ⟨s, ms, at_⟩ := low
  exact ⟨s, more ++ ms, by simpa using at_⟩

theorem readb_any (prompt : slave.Prompt) (at_ : At w l seen) :
    ∃ b ms, (i2cReadb slave w).2 = some b ∧ (i2cReadb slave w).1.reads = w.reads + 8 ∧
      At (i2cReadb slave w).1 (.low true) (seen ++ ms) := by
  obtain ⟨ms, low⟩ : ∃ ms, At ((getSda slave (sclH slave (w.drive (.sda true))).1).1.drive (.scl false))
      (.low true) (seen ++ ms) := by
    have raised : At (sclH slave (w.drive (.sda true))).1 _ _ := At.of_drives
      ((at_.drive (.sda true)).drive (.scl true)) rfl
    have sampled : At (getSda slave (sclH slave (w.drive (.sda true))).1).1 _ _ := At.of_drives
      (raised.drive (.sample (slave.sda w.reads))) rfl
    have ended := scl_low_at sampled
    simp only [sda_next_sample, sda_next_scl, sda_next_sda, List.append_assoc] at ended
    exact ⟨_, ended⟩
  obtain ⟨value, reads, after⟩ := readBits_at prompt 7 (shiftIn 0 (slave.sda w.reads)) low
  have unrolled : i2cReadb slave w = readBits slave 7 (shiftIn 0 (slave.sda w.reads))
      ((getSda slave (sclH slave (w.drive (.sda true))).1).1.drive (.scl false)) := by
    rw [i2cReadb, readBits]
    simp [sclH_ok prompt]
  rw [unrolled]
  exact ⟨_, _, value, by simpa using reads, by simpa only [List.append_assoc] using after⟩

theorem recvBytes_any (prompt : slave.Prompt) (noReadAck : Bool) (count : Nat) (got : List (BitVec 8))
    (at_ : At w l seen) :
    let r := i2cRecvBytes slave noReadAck count got w
    r.2.2 = (got.length + count : Nat) ∧ r.1.reads = w.reads + 8 * count ∧
      ((count = 0 ∧ r.1 = w) ∨ Low r.1 seen) := by
  induction count generalizing w l seen got with
  | zero => exact ⟨rfl, rfl, Or.inl ⟨rfl, rfl⟩⟩
  | succ count ih =>
    obtain ⟨b, ms, value, reads, eight⟩ := readb_any prompt at_
    have answered := sendAck_at prompt (decide (count ≠ 0)) eight
    obtain ⟨w', ⟨s, ms, low⟩, reads', unfolded⟩ : ∃ w', Low w' seen ∧ w'.reads = w.reads + 8 ∧
        i2cRecvBytes slave noReadAck (count + 1) got w =
          i2cRecvBytes slave noReadAck count (got ++ [b]) w' := by
      generalize readb : i2cReadb slave w = r at value reads eight answered
      obtain ⟨w', val⟩ := r
      subst value
      cases noReadAck with
      | true => exact ⟨w', eight.low.of_later, reads, by simp [i2cRecvBytes, readb]⟩
      | false =>
        refine ⟨_, answered.2.2.low.of_later.of_later, answered.2.1.trans reads, ?_⟩
        simp only [i2cRecvBytes, readb, Bool.false_eq_true, if_false, answered.1, Int.lt_irrefl]
    obtain ⟨ret, total, after⟩ := ih (got ++ [b]) low
    simp only [unfolded]
    refine ⟨?_, by omega, Or.inr ?_⟩
    · rw [ret]
      simp only [List.length_append, List.length_cons, List.length_nil]
      omega
    · rcases after with ⟨_, same⟩ | after
      · rw [same]
        exact ⟨s, ms, low⟩
      · exact after.of_later

/-- The rounds of an address byte, with how many there are. -/
def tries (bus : RtI2cBusDevice) (m : RtI2cMsg) : Nat := (retriesOf bus m + 1).toNat

/-- Whether the address of a message gets through, and the number of the next answer. -/
def addressed (sda : Nat → Bool) (bus : RtI2cBusDevice) (m : RtI2cMsg) (r : Nat) : Bool × Nat :=
  let first := acked sda (tries bus m) r
  if first.1 = false ∧ m.ignoreNack = false then (false, first.2)
  else if m.addr10bit then
    let second := acked sda 1 first.2
    if second.1 = false ∧ m.ignoreNack = false then (false, second.2)
    else if m.rd then
      let third := acked sda (tries bus m) second.2
      (third.1 || m.ignoreNack, third.2)
    else (true, second.2)
  else (true, first.2)

def opened (sda : Nat → Bool) (bus : RtI2cBusDevice) (m : RtI2cMsg) (r : Nat) : Bool × Nat :=
  if m.noStart then (true, r) else addressed sda bus m r

/-- Whether the slave lets a message through as a whole. -/
def answered (sda : Nat → Bool) (bus : RtI2cBusDevice) (m : RtI2cMsg) (r : Nat) : Bool × Nat :=
  let a := opened sda bus m r
  if a.1 = false then a
  else if m.rd then (true, a.2 + 8 * m.len)
  else taken sda m.ignoreNack m.len a.2

/-- The message at which the slave cuts a transfer short, if it does. -/
def cut (sda : Nat → Bool) (bus : RtI2cBusDevice) : List RtI2cMsg → Nat → Option RtI2cMsg
  | [], _ => none
  | m :: rest, r =>
    if (answered sda bus m r).1 then cut sda bus rest (answered sda bus m r).2 else some m

/-- What came of a byte that the slave was to acknowledge. -/
structure Answered (result : Wire × Int) (answer : Bool × Nat) (seen : List Mark) : Prop where
  ret : result.2 = if answer.1 then 1 else 0
  reads : result.1.reads = answer.2
  low : Low result.1 seen

theorem Answered.fails {result : Wire × Int} {answer : Bool × Nat} (a : Answered result answer seen) :
    result.2 ≠ 1 ↔ answer.1 = false := by
  rw [a.ret]
  cases answer.1 <;> simp

theorem sendAddress_answered (bus : RtI2cBusDevice) (m : RtI2cMsg) (prompt : slave.Prompt)
    (addr : BitVec 8) (at_ : At w (.low sda) seen) :
    Answered (i2cSendAddress slave w addr (retriesOf bus m)) (acked slave.sda (tries bus m) w.reads) seen := by
  simp only [i2cSendAddress, tries]
  cases (retriesOf bus m + 1).toNat with
  | zero => exact ⟨rfl, rfl, at_.low⟩
  | succ n =>
    obtain ⟨ret, reads, syms, _, after⟩ := sendTries_at prompt addr n at_
    exact ⟨ret, reads, after.low.of_later⟩

theorem writeb_answered (prompt : slave.Prompt) (data : BitVec 8) (at_ : At w (.low sda) seen) :
    Answered (i2cWriteb slave w data) (acked slave.sda 1 w.reads) seen := by
  obtain ⟨ret, reads, after⟩ := writeb_at prompt data at_
  refine ⟨?_, ?_, after.low.of_later.of_later⟩
  · rw [ret, acked, acked]
    cases slave.sda w.reads <;> rfl
  · rw [reads, acked, acked]
    cases slave.sda w.reads <;> rfl

theorem bitSendAddress_low (prompt : slave.Prompt)
    (first : Answered (i2cSendAddress slave w (addr1Of m) (retriesOf bus m))
      (acked slave.sda (tries bus m) w.reads) seen) :
    (i2cBitSendAddress slave bus m w).2 = (if (addressed slave.sda bus m w.reads).1 then 0 else -rtEio) ∧
      (i2cBitSendAddress slave bus m w).1.reads = (addressed slave.sda bus m w.reads).2 ∧
      Low (i2cBitSendAddress slave bus m w).1 seen := by
  simp only [i2cBitSendAddress, addressed]
  generalize i2cSendAddress slave w (addr1Of m) (retriesOf bus m) = one at first
  generalize acked slave.sda (tries bus m) w.reads = a1 at first
  obtain ⟨s1, ms1, at1⟩ := first.low
  have second := writeb_answered prompt (m.addr.setWidth 8) at1
  rw [first.reads] at second
  generalize i2cWriteb slave one.1 (m.addr.setWidth 8) = two at second
  generalize acked slave.sda 1 a1.2 = a2 at second
  obtain ⟨s2, ms2, at2⟩ := second.low
  have third := sendAddress_answered bus m prompt (addr1Of m ||| 1#8)
    (restart_at slave at2)
  rw [show (i2cRestart slave two.1).reads = a2.2 from second.reads] at third
  generalize i2cSendAddress slave (i2cRestart slave two.1) (addr1Of m ||| 1#8) (retriesOf bus m) = three
    at third
  generalize acked slave.sda (tries bus m) a2.2 = a3 at third
  simp only [first.fails, second.fails, third.fails]
  by_cases refused1 : a1.1 = false ∧ m.ignoreNack = false
  · simp only [refused1, and_self, if_true, Bool.false_eq_true, if_false]
    exact ⟨trivial, first.reads, first.low⟩
  · simp only [refused1, if_false]
    by_cases ten : m.addr10bit = true
    · simp only [ten, if_true]
      by_cases refused2 : a2.1 = false ∧ m.ignoreNack = false
      · simp only [refused2, and_self, if_true, Bool.false_eq_true, if_false]
        exact ⟨trivial, second.reads, second.low.of_later⟩
      · simp only [refused2, if_false]
        by_cases read : m.rd = true
        · simp only [read, if_true]
          have ends : a3.1 = false ∧ m.ignoreNack = false ↔ (a3.1 || m.ignoreNack) = false := by
            simp
          rcases Bool.eq_false_or_eq_true (a3.1 || m.ignoreNack) with through | refused3
          · simp only [ends, through, Bool.true_eq_false, if_false, if_true]
            exact ⟨trivial, third.reads, third.low.of_later.of_later.of_later⟩
          · simp only [ends, refused3, if_true, Bool.false_eq_true, if_false]
            exact ⟨trivial, third.reads, third.low.of_later.of_later.of_later⟩
        · simp only [read, Bool.false_eq_true, if_false, if_true]
          exact ⟨trivial, second.reads, second.low.of_later⟩
    · simp only [ten, Bool.false_eq_true, if_false, if_true]
      exact ⟨trivial, first.reads, first.low⟩

/-- A message for which nothing is driven. -/
def Silent (m : RtI2cMsg) : Prop := m.noStart = true ∧ m.len = 0

theorem start_any (at_ : At w l seen) : Low (i2cStart w) seen := by
  have ended := scl_low_at (at_.drive (.sda false))
  exact ended.low.of_later.of_later

theorem restart_any (at_ : At w l seen) : Low (i2cRestart slave w) seen := by
  have raised : At (sclH slave (w.drive (.sda true))).1 _ _ := At.of_drives
    ((at_.drive (.sda true)).drive (.scl true)) rfl
  have ended := scl_low_at (raised.drive (.sda false))
  exact ended.low.of_later.of_later.of_later.of_later

theorem opened_ignored (sda : Nat → Bool) (r : Nat) (ignored : m.ignoreNack = true) :
    (opened sda bus m r).1 = true := by
  simp only [opened, addressed, ignored, Bool.true_eq_false, and_false, if_false, Bool.or_true]
  split
  · rfl
  · split
    · split <;> rfl
    · rfl

theorem openMsg_any (bus : RtI2cBusDevice) (m : RtI2cMsg) (prompt : slave.Prompt) (i : Nat) (at_ : At w l seen) :
    let r := openMsg slave bus i m w
    let a := opened slave.sda bus m w.reads
    (r.2 ≠ 0 ∧ m.ignoreNack = false ↔ a.1 = false) ∧ r.1.reads = a.2 ∧
      ((m.noStart = true ∧ r.1 = w ∧ At w l seen) ∨ Low r.1 seen) := by
  have heeded : (opened slave.sda bus m w.reads).1 = false → m.ignoreNack = false := by
    intro refused
    by_contra ignored
    simp [opened_ignored _ _ (by simpa using ignored)] at refused
  simp only [openMsg]
  by_cases none : m.noStart = true
  · simpa [opened, none] using Or.inl at_
  · obtain ⟨w', from_, same⟩ : ∃ w', Low w' seen ∧ w'.reads = w.reads ∧
        (if i ≠ 0 then i2cRestart slave w else i2cStart w) = w' := by
      by_cases later : i ≠ 0
      · exact ⟨_, restart_any at_, rfl, by rw [if_pos later]⟩
      · exact ⟨_, start_any at_, rfl, by rw [if_neg later]⟩
    obtain ⟨s, ms, low⟩ := from_
    obtain ⟨ret, reads, after⟩ := bitSendAddress_low prompt
      (sendAddress_answered bus m prompt (addr1Of m) low)
    have a : opened slave.sda bus m w.reads = addressed slave.sda bus m w'.reads := by
      simp [opened, none, same.1]
    rw [a] at heeded ⊢
    simp only [none, same.2, ret, Bool.false_eq_true, if_false]
    refine ⟨?_, reads, Or.inr after.of_later⟩
    cases refused : (addressed slave.sda bus m w'.reads).1 with
    | true => simp
    | false => simp [heeded refused, rtEio]

/-- A round of i2c_bit_xfer goes on exactly when the slave lets the message through; after it the
clock is low unless nothing was driven. -/
theorem xferMsg_opened (prompt : slave.Prompt) (i : Nat)
    (goes : (openMsg slave bus i m w).2 ≠ 0 ∧ m.ignoreNack = false ↔
      (opened slave.sda bus m w.reads).1 = false)
    (reads : (openMsg slave bus i m w).1.reads = (opened slave.sda bus m w.reads).2)
    (from1 : (m.noStart = true ∧ (openMsg slave bus i m w).1 = w ∧ At w l seen) ∨
      Low (openMsg slave bus i m w).1 seen) :
    let r := xferMsg slave bus i m w
    let a := answered slave.sda bus m w.reads
    (r.2.2 = none ↔ a.1 = true) ∧ r.1.reads = a.2 ∧
      ((Silent m ∧ r.1 = w ∧ a.1 = true) ∨ Low r.1 seen) := by
  simp only [xferMsg, answered, goes]
  rcases Bool.eq_false_or_eq_true (opened slave.sda bus m w.reads).1 with through | refused
  · simp only [through, Bool.true_eq_false, if_false]
    generalize openMsg slave bus i m w = o at goes reads from1
    generalize opened slave.sda bus m w.reads = a at goes reads through
    obtain ⟨l', more, at1⟩ : ∃ l' more, At o.1 l' (seen ++ more) := by
      rcases from1 with ⟨_, same, at_⟩ | ⟨s, ms, low⟩
      · exact ⟨l, [], by rw [same]; simpa using at_⟩
      · exact ⟨_, ms, low⟩
    -- a message without data leaves the wire as the opening did
    have still {r : Wire} {v : Bool} (empty : m.len = 0) (same : r = o.1) (done : v = true) :
        (Silent m ∧ r = w ∧ v = true) ∨ Low r seen := by
      subst same
      rcases from1 with ⟨none, kept, _⟩ | low
      · exact Or.inl ⟨⟨none, empty⟩, kept, done⟩
      · exact Or.inr low
    by_cases read : m.rd = true
    · simp only [read, if_true]
      obtain ⟨ret, total, after⟩ := recvBytes_any prompt m.noReadAck m.len [] at1
      simp only [ret, List.length_nil, Nat.zero_add, Int.lt_irrefl, if_false, true_and, total, reads]
      rcases after with ⟨zero, same⟩ | low
      · simpa using still zero same rfl
      · exact Or.inr low.of_later
    · simp only [read, Bool.false_eq_true, if_false]
      obtain ⟨ret, total, syms, sent, after⟩ := sendBytes_at prompt m.ignoreNack m.buf 0 at1
      rw [reads] at ret total sent
      refine ⟨?_, total, ?_⟩
      · rw [ret, RtI2cMsg.len]
        cases ok : (taken slave.sda m.ignoreNack m.buf.length a.2).1 with
        | true => simp
        | false =>
          have data : 0 < m.buf.length := by
            by_contra none
            simp [Nat.eq_zero_of_not_pos none, taken] at ok
          simp [data]
      · rcases after with ⟨empty, _, same⟩ | low
        · have none : m.len = 0 := by simp [RtI2cMsg.len, empty]
          exact still none same (by rw [none]; rfl)
        · exact Or.inr low.low.of_later.of_later.of_later
  · simp only [refused, if_true, reduceCtorEq, Bool.false_eq_true, and_false, false_or, reads, true_and]
    rcases from1 with ⟨none, _⟩ | low
    · simp [opened, none] at refused
    · exact low

theorem xferMsg_any (bus : RtI2cBusDevice) (m : RtI2cMsg) (prompt : slave.Prompt) (i : Nat) (at_ : At w l seen) :
    let r := xferMsg slave bus i m w
    let a := answered slave.sda bus m w.reads
    (r.2.2 = none ↔ a.1 = true) ∧ r.1.reads = a.2 ∧
      ((Silent m ∧ r.1 = w ∧ a.1 = true) ∨ Low r.1 seen) := by
  obtain ⟨goes, reads, from1⟩ := openMsg_any bus m prompt i at_
  exact xferMsg_opened prompt i goes reads from1

theorem At.here (w : Wire) : At w (settle .idle w.drives) (marks .idle w.drives) := ⟨rfl, rfl⟩

theorem xferMsgs_any (bus : RtI2cBusDevice) (prompt : slave.Prompt) (i : Nat) (m : RtI2cMsg) (rest : List RtI2cMsg)
    (at_ : At w l seen) :
    let o := xferMsgs slave bus i m rest w
    o.last = (cut slave.sda bus (m :: rest) w.reads).getD ((m :: rest).getLast (by simp)) ∧
      (((∀ x ∈ m :: rest, Silent x) ∧ o.wire = w ∧ cut slave.sda bus (m :: rest) w.reads = none) ∨
        Low o.wire seen) := by
  induction rest generalizing i m w l seen with
  | nil =>
    obtain ⟨goes, reads, after⟩ := xferMsg_any bus m prompt i at_
    cases out : (xferMsg slave bus i m w).2.2 with
    | some ret =>
      have refused : (answered slave.sda bus m w.reads).1 = false := by simpa [out] using goes
      rw [xferMsgs_stop i [] out]
      refine ⟨by simp [cut, refused], Or.inr ?_⟩
      simpa [refused] using after
    | none =>
      have through : (answered slave.sda bus m w.reads).1 = true := goes.mp out
      rw [xferMsgs_last i out]
      refine ⟨by simp [cut, through], ?_⟩
      rcases after with ⟨silent, same, _⟩ | low
      · exact Or.inl ⟨by simpa using silent, same, by simp [cut, through]⟩
      · exact Or.inr low
  | cons next rest ih =>
    obtain ⟨goes, reads, after⟩ := xferMsg_any bus m prompt i at_
    cases out : (xferMsg slave bus i m w).2.2 with
    | some ret =>
      have refused : (answered slave.sda bus m w.reads).1 = false := by simpa [out] using goes
      rw [xferMsgs_stop i _ out]
      refine ⟨by simp [cut, refused], Or.inr ?_⟩
      simpa [refused] using after
    | none =>
      have through : (answered slave.sda bus m w.reads).1 = true := goes.mp out
      have cuts : cut slave.sda bus (m :: next :: rest) w.reads =
          cut slave.sda bus (next :: rest) (xferMsg slave bus i m w).1.reads := by
        rw [cut, if_pos through, reads]
      rw [xferMsgs_next i next rest out, cuts]
      rcases after with ⟨silent, same, _⟩ | ⟨s, ms, low⟩
      · obtain ⟨last, tail⟩ := ih (i + 1) next at_
        rw [same]
        refine ⟨by simpa using last, ?_⟩
        rcases tail with ⟨all, kept, whole⟩ | low
        · exact Or.inl ⟨List.forall_mem_cons.mpr ⟨silent, all⟩, kept, whole⟩
        · exact Or.inr low
      · obtain ⟨last, tail⟩ := ih (i + 1) next low
        refine ⟨by simpa using last, Or.inr ?_⟩
        rcases tail with ⟨_, kept, _⟩ | low
        · have settled : Low (xferMsg slave bus i m w).1 seen := ⟨s, ms, low⟩
          simpa only [kept] using settled
        · exact low.of_later

theorem xferMsgs_low (prompt : slave.Prompt) (noStart : m.noStart = false) (rest : List RtI2cMsg)
    (first : Answered (i2cSendAddress slave (i2cStart w) (addr1Of m) (retriesOf bus m))
      (acked slave.sda (tries bus m) w.reads) seen) :
    Low (xferMsgs slave bus 0 m rest w).wire seen := by
  obtain ⟨_, _, low⟩ := bitSendAddress_low (w := i2cStart w) prompt first
  obtain ⟨goes, reads, _⟩ := openMsg_any bus m prompt 0 (At.here w)
  have opened : openMsg slave bus 0 m w = i2cBitSendAddress slave bus m (i2cStart w) := by
    simp [openMsg, noStart]
  rw [← opened] at low
  obtain ⟨_, _, after⟩ := xferMsg_opened (l := .idle) prompt 0 goes reads (Or.inr low)
  have settled : Low (xferMsg slave bus 0 m w).1 seen := by
    rcases after with ⟨⟨none, _⟩, _⟩ | low
    · simp [noStart] at none
    · exact low
  cases out : (xferMsg slave bus 0 m w).2.2 with
  | some ret =>
    rw [xferMsgs_stop 0 rest out]
    exact settled
  | none =>
    cases rest with
    | nil =>
      rw [xferMsgs_last 0 out]
      exact settled
    | cons next rest =>
      rw [xferMsgs_next 0 next rest out]
      have again := settled
      obtain ⟨_, _, at_⟩ := again
      rcases (xferMsgs_any bus prompt (0 + 1) next rest at_).2 with ⟨_, kept, _⟩ | low
      · exact kept.symm ▸ settled
      · exact low.of_later

/-- SDA falls while SCL is high before anything else happens on the wire. -/
def Begins (w w' : Wire) : Prop :=
  ∃ ms, marks .idle w'.drives = marks .idle w.drives ++ .start :: ms

def BothHigh (w : Wire) : Prop :=
  (settle .idle w.drives).scl = true ∧ (settle .idle w.drives).sda = true

instance (w : Wire) : Decidable (BothHigh w) := inferInstanceAs (Decidable (_ ∧ _))

/-- The marks of a transfer that is over: STOP may have come last. -/
theorem xfer_marks {msgs : List RtI2cMsg} {o : Outcome}
    (done : i2cBitXfer slave bus (m :: msgs) w = some o)
    (low : Low (xferMsgs slave bus 0 m msgs w).wire seen) :
    ∃ ms, marks .idle o.wire.drives = seen ++ ms := by
  obtain ⟨s, ms, at_⟩ := low
  simp only [i2cBitXfer] at done
  cases Option.some.inj done
  split
  · exact ⟨ms, at_.2⟩
  · exact ⟨ms ++ [.stop], by simpa using (stop_at slave at_).2⟩

theorem start_marks (w : Wire) :
    (BothHigh w → At (i2cStart w) (.low false) (marks .idle w.drives ++ [.start])) ∧
      (¬BothHigh w → ∃ v : Option Bool,
        At (i2cStart w) (.low false) (marks .idle w.drives ++ v.toList.map .bit)) := by
  have at_ := At.here w
  have pulse := settle_pulse .idle w.drives (by simp [Lines.idle])
  have driven : At (i2cStart w) _ _ := (at_.drive (.sda false)).drive (.scl false)
  simp only [BothHigh]
  generalize marks .idle w.drives = seen at driven
  generalize settle .idle w.drives = l at driven pulse
  obtain ⟨scl, sda, p⟩ := l
  constructor
  · rintro ⟨high, up⟩
    simp only at high up
    subst high up
    simpa [Lines.next, Lines.shows, Lines.low] using driven
  · intro not_high
    cases scl with
    | false =>
      cases pulse rfl
      cases sda <;> exact ⟨none, by simpa [Lines.next, Lines.shows, Lines.low] using driven⟩
    | true =>
      cases sda with
      | true => simp at not_high
      | false => exact ⟨p, by simpa [Lines.next, Lines.shows, Lines.low] using driven⟩

theorem spell_addressed {addr : BitVec 8} {retries : Nat} {syms : List Sym} {ok : Bool}
    (addressed : Addressed addr retries syms ok) : ∃ v ms, spell syms = .bit v :: ms := by
  cases addressed <;> exact ⟨_, _, rfl⟩

theorem sendAddress_bit (prompt : slave.Prompt) (some_ : (retriesOf bus m + 1).toNat ≠ 0)
    (at_ : At w (.low sda) seen) : ∃ v, Answered (i2cSendAddress slave w (addr1Of m) (retriesOf bus m))
      (acked slave.sda (tries bus m) w.reads) (seen ++ [.bit v]) := by
  obtain ⟨n, rounds⟩ := Nat.exists_eq_succ_of_ne_zero some_
  obtain ⟨ret, reads, syms, addressed, after⟩ := sendTries_at prompt (addr1Of m) n at_
  obtain ⟨v, ms, first⟩ := spell_addressed addressed
  rw [i2cSendAddress, tries, rounds]
  exact ⟨v, ret, reads, true, ms, by simpa [first] using after⟩

theorem begins_iff (prompt : slave.Prompt) (noStart : m.noStart = false) {msgs : List RtI2cMsg}
    {o : Outcome} (done : i2cBitXfer slave bus (m :: msgs) w = some o) :
    Begins w o.wire ↔ BothHigh w := by
  constructor
  · rintro ⟨ms, begun⟩
    by_contra not_high
    obtain ⟨v, started⟩ := (start_marks w).2 not_high
    obtain ⟨ms', all, other⟩ : ∃ ms', marks .idle o.wire.drives =
        marks .idle w.drives ++ (v.toList.map .bit ++ ms') ∧ ∀ ms, ms' ≠ .start :: ms := by
      by_cases unsent : (retriesOf bus m + 1).toNat = 0
      · obtain ⟨wire, last⟩ := xferMsgs_unsent slave w unsent noStart 0 msgs
        rw [if_neg (by simp)] at wire
        simp only [i2cBitXfer] at done
        cases Option.some.inj done
        split
        · exact ⟨[], by simpa [wire] using started.2, by simp⟩
        · exact ⟨[.stop], by simpa [wire] using (stop_at slave started).2, by simp⟩
      · obtain ⟨b, first⟩ := sendAddress_bit prompt unsent started
        obtain ⟨ms', all⟩ := xfer_marks done (xferMsgs_low prompt noStart msgs first)
        exact ⟨.bit b :: ms', by simpa using all, by simp⟩
    rw [begun] at all
    have same := List.append_cancel_left all
    cases v with
    | none => exact other _ same.symm
    | some b => simp at same
  · intro high
    have started := (start_marks w).1 high
    obtain ⟨ms, all⟩ := xfer_marks done (xferMsgs_low prompt noStart msgs
      (sendAddress_answered bus m prompt (addr1Of m) started))
    exact ⟨ms, by simpa using all⟩

/-- The slave refuses a message that is to be followed by STOP. -/
def CutAtStop (slave : Slave) (bus : RtI2cBusDevice) (msgs : List RtI2cMsg) (w : Wire) : Prop :=
  ∃ m, cut slave.sda bus msgs w.reads = some m ∧ m.noStop = false

theorem silent_wire (slave : Slave) (bus : RtI2cBusDevice) (w : Wire) (i : Nat) (m : RtI2cMsg)
    (rest : List RtI2cMsg) (silent : ∀ x ∈ m :: rest, Silent x) :
    (xferMsgs slave bus i m rest w).wire = w := by
  have still {m : RtI2cMsg} (i : Nat) (s : Silent m) :
      (xferMsg slave bus i m w).1 = w ∧ (xferMsg slave bus i m w).2.2 = none := by
    have empty : m.buf = [] := by simpa [RtI2cMsg.len] using s.2
    cases read : m.rd <;>
      simp [xferMsg, openMsg, s.1, read, RtI2cMsg.len, empty, i2cRecvBytes, i2cSendBytes]
  induction rest generalizing i m with
  | nil =>
    obtain ⟨same, goes⟩ := still i (silent m (by simp))
    rw [xferMsgs_last i goes]
    exact same
  | cons next rest ih =>
    obtain ⟨same, goes⟩ := still i (silent m (by simp))
    rw [xferMsgs_next i next rest goes, same]
    exact ih (i + 1) next (fun x hx => silent x (by simp [hx]))

theorem Low.not_high (low : Low w seen) : ¬BothHigh w := by
  obtain ⟨_, _, at_⟩ := low
  simp [BothHigh, at_.1, Lines.low]

/-- How a transfer that was to leave the bus claimed leaves it. -/
theorem leaves_high (prompt : slave.Prompt) {msgs : List RtI2cMsg} {o : Outcome}
    (done : i2cBitXfer slave bus msgs w = some o) (claims : ∀ m ∈ msgs.getLast?, m.noStop = true) :
    BothHigh o.wire ↔ CutAtStop slave bus msgs w ∨ (∀ m ∈ msgs, Silent m) ∧ BothHigh w := by
  cases msgs with
  | nil => simp [i2cBitXfer] at done
  | cons m rest =>
    obtain ⟨last, after⟩ := xferMsgs_any bus prompt 0 m rest (At.here w)
    have mute := silent_wire slave bus w 0 m rest
    simp only [i2cBitXfer] at done
    cases Option.some.inj done
    cases short : cut slave.sda bus (m :: rest) w.reads with
    | none =>
      have claimed : (xferMsgs slave bus 0 m rest w).last.noStop = true := by
        rw [last, short]
        exact claims _ (List.getLast?_eq_some_getLast _)
      simp only [CutAtStop, short, reduceCtorEq, false_and, exists_false, false_or, claimed, if_true]
      rcases after with ⟨silent, same, _⟩ | low
      · rw [same]
        exact ⟨fun high => ⟨silent, high⟩, And.right⟩
      · refine ⟨fun high => absurd high low.not_high, fun both => ?_⟩
        exact absurd both.2 (mute both.1 ▸ low).not_high
    | some at_ =>
      have low : Low (xferMsgs slave bus 0 m rest w).wire (marks .idle w.drives) := by
        simpa [short] using after
      simp only [CutAtStop, short, Option.some.injEq, exists_eq_left']
      rw [last, short, Option.getD_some]
      cases noStop : at_.noStop with
      | true =>
        simp only [Bool.true_eq_false, false_or, if_true]
        refine ⟨fun high => absurd high low.not_high, fun both => ?_⟩
        exact absurd both.2 (mute both.1 ▸ low).not_high
      | false =>
        obtain ⟨_, _, settled⟩ := low
        have stopped := (stop_at slave settled).1
        simp only [Bool.false_eq_true, if_false, true_or, iff_true, BothHigh]
        rw [stopped]
        exact ⟨rfl, rfl⟩

/-- Of two transfers of which the first leaves out its last STOP and the second does not leave out
its START, the second begins with a START exactly when the first one did end with STOP, because the
slave cut it short at a message that asks for it, or drove nothing at all on a free bus. -/
theorem chained_start (prompt : slave.Prompt) {msgs rest : List RtI2cMsg} {o o' : Outcome}
    (claims : ∀ m ∈ msgs.getLast?, m.noStop = true) (noStart : m.noStart = false)
    (first : i2cBitXfer slave bus msgs w = some o)
    (second : i2cBitXfer slave bus (m :: rest) o.wire = some o') :
    Begins o.wire o'.wire ↔ CutAtStop slave bus msgs w ∨ (∀ x ∈ msgs, Silent x) ∧ BothHigh w :=
  (begins_iff prompt noStart second).trans (leaves_high prompt first claims)

/-- A write of one byte to 0x50 with RT_I2C_NO_STOP, one without, and a slave with one answer. -/
def claimed : RtI2cMsg := ⟨0x50, 0x80, [0]⟩
def closing : RtI2cMsg := ⟨0x50, 0, [0]⟩
def always (nack : Bool) : Slave := ⟨fun _ => nack, fun _ => false⟩

theorem chained_start_cut : ∃ o o', i2cBitXfer (always true) ⟨0⟩ [closing, claimed] .idle = some o ∧
    i2cBitXfer (always true) ⟨0⟩ [closing] o.wire = some o' ∧ Begins o.wire o'.wire := by
  have prompt : (always true).Prompt := fun _ => rfl
  have claims : ∀ m ∈ [closing, claimed].getLast?, m.noStop = true := by simp [claimed, RtI2cMsg.noStop]
  exact ⟨_, _, rfl, rfl, (chained_start prompt claims rfl rfl rfl).mpr (Or.inl ⟨closing, rfl, rfl⟩)⟩

/-- After a transfer that keeps the bus, the slave having acknowledged all of it, no START is made. -/
theorem chained_without_start : ¬∀ (slave : Slave) (bus : RtI2cBusDevice) (w : Wire) (m : RtI2cMsg)
    (msgs rest : List RtI2cMsg) (o o' : Outcome), slave.Prompt →
    (∀ m ∈ msgs.getLast?, m.noStop = true) → m.noStart = false →
    i2cBitXfer slave bus msgs w = some o → i2cBitXfer slave bus (m :: rest) o.wire = some o' →
    Begins o.wire o'.wire := by
  intro all
  have begun := all (always false) ⟨0⟩ .idle closing [claimed] [] _ _ (fun _ => rfl)
    (by simp [claimed, RtI2cMsg.noStop]) rfl rfl rfl
  have high := (begins_iff (fun _ => rfl) rfl rfl).mp begun
  revert high
  decide

end RtThread.I2cBit
