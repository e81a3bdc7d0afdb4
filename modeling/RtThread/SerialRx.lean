import Mathlib.Data.List.Flatten
import RtThread.Ring
import RtThread.RingBuffer
import RtThread.Run

/-! The receive FIFO of a serial device in DMA mode. The DMA writes circularly from
`put_index` on; RX_DMADONE accounts for what it wrote, and readers take the oldest bytes. -/
namespace RtThread.SerialRx
open Transition RingBuffer

/-- rt_serial_rx_fifo. -/
structure RxFifo where
  buffer : Nat → UInt8
  putIndex : Nat
  getIndex : Nat
  isFull : Bool

def u16 (i : Nat) : Nat := i % 2 ^ 16

/-- The FIFO that rt_serial_open makes. -/
def openFifo : RxFifo := ⟨fun _ => 0, 0, 0, false⟩

def serialFifoCalcRecvedLen (bufsz : Nat) (f : RxFifo) : Nat :=
  if f.putIndex = f.getIndex then
    if f.isFull = false then 0 else bufsz
  else if f.getIndex < f.putIndex then f.putIndex - f.getIndex
  else bufsz - (f.getIndex - f.putIndex)

def rtDmaCalcRecvedLen (bufsz : Nat) (f : RxFifo) : Nat := serialFifoCalcRecvedLen bufsz f

/-- `none` where the second assertion fails. -/
def rtDmaRecvUpdateGetIndex (bufsz : Nat) (f : RxFifo) (len : Nat) : Option RxFifo :=
  if rtDmaCalcRecvedLen bufsz f < len then none
  else
    let f := if f.isFull ∧ len ≠ 0 then { f with isFull := false } else f
    let f := { f with getIndex := u16 (f.getIndex + len) }
    some (if bufsz ≤ f.getIndex then { f with getIndex := f.getIndex % bufsz } else f)

def rtDmaRecvUpdatePutIndex (bufsz : Nat) (f : RxFifo) (len : Nat) : RxFifo :=
  let moved := { f with putIndex := u16 (f.putIndex + len) }
  let wrapped := { moved with putIndex := moved.putIndex % bufsz }
  let f :=
    if f.getIndex ≤ f.putIndex then
      if bufsz ≤ moved.putIndex then
        if wrapped.getIndex ≤ wrapped.putIndex then { wrapped with isFull := true } else wrapped
      else moved
    else if moved.getIndex ≤ moved.putIndex then
      { (if bufsz ≤ moved.putIndex then wrapped else moved) with isFull := true }
    else moved
  if f.isFull then { f with getIndex := f.putIndex } else f

/-- The branch with a FIFO, `bufsz` not zero. `length` is an int, and becomes an rt_size_t. -/
def serialDmaRx (bufsz : Nat) (f : RxFifo) (length : Int) : Option (RxFifo × List UInt8) :=
  let fifoRecvedLen := rtDmaCalcRecvedLen bufsz f
  let recvLen := if length < fifoRecvedLen then (length % 2 ^ 32).toNat else fifoRecvedLen
  let data :=
    if f.getIndex + recvLen < bufsz then bytes f.buffer f.getIndex recvLen
    else
      bytes f.buffer f.getIndex (bufsz - f.getIndex) ++
        bytes f.buffer 0 (recvLen + f.getIndex - bufsz)
  (rtDmaRecvUpdateGetIndex bufsz f recvLen).map (fun f => (f, data))

/-- RT_SERIAL_EVENT_RX_DMADONE, with the length in the higher bits; the result is what
`rx_indicate` is told. -/
def rtHwSerialIsr (bufsz : Nat) (f : RxFifo) (event : Nat) : RxFifo × Nat :=
  let f := rtDmaRecvUpdatePutIndex bufsz f (event / 2 ^ 8)
  (f, rtDmaCalcRecvedLen bufsz f)

/-- The DMA writes a byte and moves on, at the end to the start of the buffer. -/
def dmaWrite (bufsz : Nat) : (Nat → UInt8) → Nat → List UInt8 → (Nat → UInt8)
  | buffer, _, [] => buffer
  | buffer, i, b :: rest => dmaWrite bufsz (Function.update buffer i b) ((i + 1) % bufsz) rest

/-- `dma data` is a transfer followed by its event; `rx length` a read. -/
inductive Action where
  | dma (data : List UInt8)
  | rx (length : Int)

inductive Event where
  | received (data : List UInt8) (indicated : Nat)
  | read (length : Int) (data : List UInt8)
  deriving DecidableEq

def step (bufsz : Nat) (f : RxFifo) : Action → Option (RxFifo × List Event)
  | .dma data =>
    if 1 ≤ data.length ∧ data.length ≤ bufsz then
      let f := { f with buffer := dmaWrite bufsz f.buffer f.putIndex data }
      let r := rtHwSerialIsr bufsz f (data.length * 2 ^ 8 + 3)
      some (r.1, [.received data r.2])
    else none
  | .rx length =>
    if -2 ^ 31 ≤ length ∧ length < 2 ^ 31 then
      (serialDmaRx bufsz f length).map (fun r => (r.1, [.read length r.2]))
    else none

def machine (bufsz : Nat) : Machine RxFifo Action Event where
  start f := f = openFifo
  step := step bufsz

/-- All bytes received so far, and how many of them the reader has passed. -/
structure Stream where
  received : List UInt8
  position : Nat

/-- The bytes received after the last one read. -/
def Stream.unread (st : Stream) : Nat := st.received.length - st.position

/-- The newest `bufsz` of the unread bytes. -/
def Stream.retained (bufsz : Nat) (st : Stream) : List UInt8 :=
  st.received.drop (max st.position (st.received.length - bufsz))

/-- The stream after an event; `none` for one that a FIFO keeping the newest bytes does not show. -/
def Event.apply (bufsz : Nat) : Event → Stream → Option Stream
  | .received data indicated, st =>
    let st := { st with received := st.received ++ data }
    if indicated = min bufsz st.unread then some st else none
  | .read length data, st =>
    if 0 ≤ length ∧ data = (st.retained bufsz).take length.toNat then
      some { st with position := st.received.length - ((st.retained bufsz).length - data.length) }
    else none

def replay (bufsz : Nat) (tr : List Event) : Option Stream :=
  tr.foldlM (fun st e => e.apply bufsz st) ⟨[], 0⟩

variable {bufsz : Nat} {f : RxFifo} {q : List UInt8}

/-- The FIFO holds the bytes `q`, oldest first. -/
structure Holds (bufsz : Nat) (f : RxFifo) (q : List UInt8) : Prop where
  put : f.putIndex < bufsz
  get : f.getIndex < bufsz
  ends : f.putIndex = (f.getIndex + q.length) % bufsz
  fits : q.length ≤ bufsz
  full : f.isFull = decide (q.length = bufsz)
  content : Ring.window f.buffer bufsz f.getIndex q.length = q

theorem u16_small {i : Nat} (small : i < 2 ^ 16) : u16 i = i := Nat.mod_eq_of_lt small

theorem Holds.recvedLen (holds : Holds bufsz f q) : rtDmaCalcRecvedLen bufsz f = q.length := by
  obtain ⟨put, get, ends, fits, full, _⟩ := holds
  rw [Ring.mod_wrap bufsz (by lia)] at ends
  rw [rtDmaCalcRecvedLen, serialFifoCalcRecvedLen]
  split
  · split
    · rename_i notFull
      rw [full, decide_eq_false_iff_not] at notFull
      split at ends <;> lia
    · rename_i isFull
      rw [full, decide_eq_false_iff_not, not_not] at isFull
      exact isFull.symm
  · split <;> split at ends <;> lia

theorem Holds.updateGet {k : Nat} (holds : Holds bufsz f q) (small : bufsz < 2 ^ 15) (part : k ≤ q.length) :
    ∃ f', rtDmaRecvUpdateGetIndex bufsz f k = some f' ∧ Holds bufsz f' (q.drop k) := by
  have recved := holds.recvedLen
  obtain ⟨put, get, ends, fits, full, content⟩ := holds
  have word : u16 (f.getIndex + k) = f.getIndex + k := u16_small (by lia)
  have once : f.getIndex + k < 2 * bufsz := by lia
  refine ⟨{ f with getIndex := (f.getIndex + k) % bufsz, isFull := decide (q.length - k = bufsz) }, ?_, ?_⟩
  · rw [rtDmaRecvUpdateGetIndex, recved, if_neg (by lia), Ring.mod_wrap bufsz once]
    have flag : (if f.isFull = true ∧ k ≠ 0 then { f with isFull := false } else f) =
        { f with isFull := decide (q.length - k = bufsz) } := by
      split
      · rename_i cleared
        rw [decide_eq_false (by lia)]
      · rename_i kept
        rw [full, decide_eq_true_iff] at kept
        have same : decide (q.length = bufsz) = decide (q.length - k = bufsz) := by
          rw [decide_eq_decide]
          lia
        rw [← same, ← full]
    simp only [flag, word, Ring.mod_wrap bufsz once]
    split <;> split <;> first | rfl | lia
  · constructor
    · exact put
    · exact Nat.mod_lt _ (by lia)
    · rw [ends, List.length_drop, Nat.mod_add_mod]
      congr 1
      lia
    · rw [List.length_drop]
      lia
    · rw [List.length_drop]
    · rw [List.length_drop, ← Ring.window_drop, content]

theorem Holds.data {k : Nat} (holds : Holds bufsz f q) (part : k ≤ q.length) :
    (if f.getIndex + k < bufsz then bytes f.buffer f.getIndex k
    else bytes f.buffer f.getIndex (bufsz - f.getIndex) ++ bytes f.buffer 0 (k + f.getIndex - bufsz)) =
      q.take k := by
  have fits := holds.fits
  have get := holds.get
  calc _ = Ring.window f.buffer bufsz f.getIndex k := by
        split
        · exact (window_bytes (by lia)).symm
        · rw [window_split get (by lia) (by lia)]
          congr 2
          lia
    _ = (Ring.window f.buffer bufsz f.getIndex q.length).take k := (Ring.window_take _ _ _ part).symm
    _ = q.take k := by rw [holds.content]

theorem Holds.dmaRx {n : Nat} (holds : Holds bufsz f q) (small : bufsz < 2 ^ 15) (int : n < 2 ^ 31) :
    ∃ f', serialDmaRx bufsz f n = some (f', q.take n) ∧ Holds bufsz f' (q.drop n) := by
  have fits := holds.fits
  have length : (if (n : Int) < (q.length : Int) then ((n : Int) % 2 ^ 32).toNat else q.length) =
      min n q.length := by
    split <;> lia
  obtain ⟨f', updated, rest⟩ := holds.updateGet small (Nat.min_le_right n q.length)
  refine ⟨f', ?_, ?_⟩
  · simp only [serialDmaRx, holds.recvedLen, length, holds.data (Nat.min_le_right n q.length), updated,
      Option.map_some, List.take_eq_take_min (i := n)]
  · rwa [← List.drop_eq_drop_min] at rest

theorem dmaWrite_other {buffer : Nat → UInt8} {i slot : Nat} {data : List UInt8} (inside : i < bufsz)
    (other : ∀ j, j < data.length → slot ≠ (i + j) % bufsz) :
    dmaWrite bufsz buffer i data slot = buffer slot := by
  induction data generalizing buffer i with
  | nil => rfl
  | cons b rest ih =>
    have first : slot ≠ i := by
      have := other 0 (by simp)
      rwa [Nat.add_zero, Nat.mod_eq_of_lt inside] at this
    rw [dmaWrite, ih (Nat.mod_lt _ (by lia)), Function.update_of_ne first]
    intro j before
    have := other (j + 1) (by simpa using before)
    rwa [Nat.mod_add_mod, Nat.add_right_comm, Nat.add_assoc]

theorem dmaWrite_slot {buffer : Nat → UInt8} {i j : Nat} {data : List UInt8} (inside : i < bufsz)
    (fits : data.length ≤ bufsz) (before : j < data.length) :
    dmaWrite bufsz buffer i data ((i + j) % bufsz) = data[j] := by
  induction data generalizing buffer i j with
  | nil => simp at before
  | cons b rest ih =>
    rw [List.length_cons] at fits
    cases j with
    | zero =>
      rw [Nat.add_zero, Nat.mod_eq_of_lt inside, dmaWrite, dmaWrite_other (Nat.mod_lt _ (by lia))]
      · simp
      · intro j below
        have := Ring.slot_ne bufsz i (show 0 < j + 1 by lia) (by lia)
        rwa [Nat.add_zero, Nat.mod_eq_of_lt inside, Nat.add_comm j 1, ← Nat.add_assoc,
          ← Nat.mod_add_mod] at this
    | succ j =>
      have slot : (i + (j + 1)) % bufsz = ((i + 1) % bufsz + j) % bufsz := by
        rw [Nat.mod_add_mod]
        congr 1
        lia
      rw [dmaWrite, slot, ih (Nat.mod_lt _ (by lia)) (by lia) (by simpa using before)]
      rfl

theorem Holds.updatePut {k : Nat} (holds : Holds bufsz f q) (small : bufsz < 2 ^ 15) (some_bytes : 1 ≤ k)
    (once : k ≤ bufsz) (buffer : Nat → UInt8) :
    rtDmaRecvUpdatePutIndex bufsz { f with buffer := buffer } k =
      ⟨buffer, (f.putIndex + k) % bufsz, (f.getIndex + (q.length + k - bufsz)) % bufsz,
        decide (bufsz ≤ q.length + k)⟩ := by
  obtain ⟨put, get, ends, fits, full, _⟩ := holds
  have word : u16 (f.putIndex + k) = f.putIndex + k := u16_small (by lia)
  have wrap := Ring.mod_wrap bufsz (show f.putIndex + k < 2 * bufsz by lia)
  rw [Ring.mod_wrap bufsz (by lia)] at ends
  rw [Ring.mod_wrap bufsz (show f.getIndex + (q.length + k - bufsz) < 2 * bufsz by lia)]
  cases f with
  | mk _ putIndex getIndex isFull =>
    simp only at put get ends full word wrap
    subst full
    simp only [rtDmaRecvUpdatePutIndex, word, wrap]
    grind

/-- A transfer drops the oldest bytes, as many as do not fit, and appends its own. -/
theorem Holds.transfer {data : List UInt8} (holds : Holds bufsz f q) (small : bufsz < 2 ^ 15)
    (some_bytes : 1 ≤ data.length) (once : data.length ≤ bufsz) :
    Holds bufsz
      (rtDmaRecvUpdatePutIndex bufsz { f with buffer := dmaWrite bufsz f.buffer f.putIndex data } data.length)
      (q.drop (q.length + data.length - bufsz) ++ data) := by
  rw [holds.updatePut small some_bytes once]
  obtain ⟨put, get, ends, fits, full, content⟩ := holds
  obtain ⟨d, isD⟩ : ∃ d, d = q.length + data.length - bufsz := ⟨_, rfl⟩
  obtain ⟨out, isOut⟩ : ∃ out, out = (f.getIndex + d) % bufsz := ⟨_, rfl⟩
  obtain ⟨n, isN⟩ : ∃ n, n = q.length - d := ⟨_, rfl⟩
  have length : (q.drop d ++ data).length = n + data.length := by simp [isN]
  have ahead : f.putIndex = (out + n) % bufsz := by
    rw [isOut, Nat.mod_add_mod, ends]
    congr 1
    lia
  have kept : q.drop d = Ring.window f.buffer bufsz out n := by
    rw [isOut, isN, ← Ring.window_drop, content]
  have list : (List.range data.length).map (fun j => data.getD j 0) = data := by
    apply List.ext_getElem
    · simp
    · intro j _ before
      simp [before]
  have window : Ring.window (dmaWrite bufsz f.buffer f.putIndex data) bufsz out (n + data.length) =
      Ring.window f.buffer bufsz out n ++ data := by
    refine (Ring.window_append (f := fun j => data.getD j 0) f.buffer _ _ ?_ ?_).trans
      (congrArg _ list)
    · intro i below
      apply dmaWrite_other put
      intro j before
      rw [ahead, Nat.mod_add_mod, Nat.add_assoc]
      exact Ring.slot_ne _ _ (by lia) (by lia)
    · intro j before
      rw [← Nat.add_assoc, ← Nat.mod_add_mod, ← ahead]
      simpa [before] using dmaWrite_slot put once before
  rw [← isD, ← isOut]
  constructor
  · exact Nat.mod_lt _ (by lia)
  · exact isOut ▸ Nat.mod_lt _ (by lia)
  · rw [ahead, Nat.mod_add_mod, length, Nat.add_assoc]
  · lia
  · rw [length, decide_eq_decide]
    lia
  · rw [length, kept]
    exact window

theorem openFifo_holds (some_slots : 1 ≤ bufsz) : Holds bufsz openFifo [] where
  put := some_slots
  get := some_slots
  ends := (Nat.zero_mod bufsz).symm
  fits := Nat.zero_le bufsz
  full := by simp [openFifo]; lia
  content := rfl

theorem length_retained (st : Stream) : (st.retained bufsz).length = min bufsz st.unread := by
  rw [Stream.retained, Stream.unread, List.length_drop]
  lia

/-- The history up to now is that of the stream, and the FIFO holds what it retains. -/
structure Follows (bufsz : Nat) (tr : List Event) (f : RxFifo) (st : Stream) : Prop where
  shown : replay bufsz tr = some st
  position : st.position ≤ st.received.length
  holds : Holds bufsz f (st.retained bufsz)

theorem replay_snoc {tr : List Event} {st : Stream} (shown : replay bufsz tr = some st) (e : Event) :
    replay bufsz (tr ++ [e]) = e.apply bufsz st :=
  replay_one shown e

theorem Follows.transfer {tr : List Event} {st : Stream} {data : List UInt8} (follows : Follows bufsz tr f st)
    (small : bufsz < 2 ^ 15) (some_bytes : 1 ≤ data.length) (once : data.length ≤ bufsz) :
    let r := rtHwSerialIsr bufsz { f with buffer := dmaWrite bufsz f.buffer f.putIndex data }
      (data.length * 2 ^ 8 + 3)
    Follows bufsz (tr ++ [.received data r.2]) r.1 { st with received := st.received ++ data } := by
  obtain ⟨shown, position, holds⟩ := follows
  have length : (data.length * 2 ^ 8 + 3) / 2 ^ 8 = data.length := by lia
  have retained : Stream.retained bufsz { st with received := st.received ++ data } =
      (st.retained bufsz).drop ((st.retained bufsz).length + data.length - bufsz) ++ data := by
    rw [length_retained]
    simp only [Stream.retained, Stream.unread, List.length_append, List.drop_drop]
    rw [List.drop_append_of_le_length (by lia)]
    congr 2
    lia
  have after := holds.transfer small some_bytes once
  rw [← retained] at after
  simp only [rtHwSerialIsr, length]
  refine ⟨?_, ?_, after⟩
  · rw [replay_snoc shown, after.recvedLen, length_retained, Event.apply, if_pos rfl]
  · simp only [List.length_append]
    lia

theorem Follows.read {tr : List Event} {st : Stream} {n : Nat} {f' : RxFifo} (follows : Follows bufsz tr f st)
    (after : Holds bufsz f' ((st.retained bufsz).drop n)) :
    ∃ st', Follows bufsz (tr ++ [.read n ((st.retained bufsz).take n)]) f' st' := by
  obtain ⟨shown, position, holds⟩ := follows
  obtain ⟨p, isP⟩ : ∃ p, p = st.received.length -
    ((st.retained bufsz).length - ((st.retained bufsz).take n).length) := ⟨_, rfl⟩
  refine ⟨{ st with position := p }, ?_, ?_, ?_⟩
  · rw [replay_snoc shown, Event.apply, if_pos ⟨by lia, by simp⟩, isP]
  · simp only
    lia
  · have same : Stream.retained bufsz { st with position := p } = (st.retained bufsz).drop n := by
      rw [List.length_take, length_retained] at isP
      simp only [Stream.retained, Stream.unread, List.drop_drop] at isP ⊢
      rcases Nat.le_total n (min bufsz (st.received.length - st.position)) with part | all
      · congr 1
        lia
      · rw [List.drop_eq_nil_of_le (by lia), List.drop_eq_nil_of_le (by lia)]
    rwa [same]

/-- A negative length becomes a count that the assertion of rt_dma_recv_update_get_index stops. -/
theorem Holds.dmaRx_negative {length : Int} (holds : Holds bufsz f q) (small : bufsz < 2 ^ 15)
    (int : -2 ^ 31 ≤ length) (negative : length < 0) : serialDmaRx bufsz f length = none := by
  have fits := holds.fits
  have asserted : rtDmaRecvUpdateGetIndex bufsz f (length % 2 ^ 32).toNat = none := by
    rw [rtDmaRecvUpdateGetIndex, holds.recvedLen, if_pos (by lia)]
  have below : length < (q.length : Int) := by lia
  simp only [serialDmaRx, holds.recvedLen, if_pos below, asserted, Option.map_none]

theorem Follows.step {tr es : List Event} {st : Stream} {f' : RxFifo} {a : Action}
    (follows : Follows bufsz tr f st) (small : bufsz < 2 ^ 15)
    (taken : SerialRx.step bufsz f a = some (f', es)) : ∃ st', Follows bufsz (tr ++ es) f' st' := by
  cases a with
  | dma data =>
    simp only [SerialRx.step] at taken
    split at taken
    · rename_i fits
      cases taken
      exact ⟨_, follows.transfer small fits.1 fits.2⟩
    · contradiction
  | rx length =>
    simp only [SerialRx.step] at taken
    split at taken
    · rename_i int
      obtain ⟨r, read, same⟩ := Option.map_eq_some_iff.mp taken
      cases same
      rcases lt_or_ge length 0 with negative | count
      · simp [follows.holds.dmaRx_negative small int.1 negative] at read
      · obtain ⟨n, rfl⟩ := Int.eq_ofNat_of_zero_le count
        obtain ⟨after, done, holds⟩ := follows.holds.dmaRx small (n := n) (by lia)
        cases done.symm.trans read
        exact follows.read holds
    · contradiction

/-- The FIFO of `bufsz` bytes keeps the newest of the bytes not yet read, and only those. -/
structure KeepsNewest (bufsz : Nat) (tr : List Event) (f : RxFifo) (st : Stream) : Prop where
  shown : replay bufsz tr = some st
  put : f.putIndex < bufsz
  get : f.getIndex < bufsz
  recvedLen : rtDmaCalcRecvedLen bufsz f = min bufsz st.unread
  reads : ∀ n : Nat, n < 2 ^ 31 → ∃ f',
    serialDmaRx bufsz f n = some (f', (st.retained bufsz).take (min n (rtDmaCalcRecvedLen bufsz f)))

/-- Every run shows the answers of a FIFO that drops the oldest bytes where it overflows. -/
theorem fifo_keeps_newest (some_slots : 1 ≤ bufsz) (most : bufsz ≤ 32767) {tr : List Event}
    (run : Run (machine bufsz) tr f) : ∃ st, KeepsNewest bufsz tr f st := by
  have small : bufsz < 2 ^ 15 := by lia
  obtain ⟨st, shown, position, holds⟩ : ∃ st, Follows bufsz tr f st := by
    apply run.invariant (I := fun tr f => ∃ st, Follows bufsz tr f st)
    · rintro _ rfl
      exact ⟨⟨[], 0⟩, rfl, Nat.le_refl 0, by simpa [Stream.retained] using openFifo_holds some_slots⟩
    · rintro tr f a f' es ⟨st, follows⟩ taken
      exact follows.step small taken
  refine ⟨st, shown, holds.put, holds.get, ?_, ?_⟩
  · rw [holds.recvedLen, length_retained]
  · intro n int
    obtain ⟨f', read, _⟩ := holds.dmaRx small int
    rw [holds.recvedLen, ← List.take_eq_take_min]
    exact ⟨f', read⟩

/-- Four slots: an overflow after one byte was read, and a read across the end. -/
theorem fifo_keeps_newest_overflow : ∃ f st, KeepsNewest 4
    [.received [1, 2, 3] 3, .read 1 [1], .received [4, 5, 6, 7] 4, .read 3 [4, 5, 6]] f st := by
  obtain ⟨f, run, _⟩ := Run.shows (M := machine 4) (s := openFifo) rfl
    [.dma [1, 2, 3], .rx 1, .dma [4, 5, 6, 7], .rx 3]
    [.received [1, 2, 3] 3, .read 1 [1], .received [4, 5, 6, 7] 4, .read 3 [4, 5, 6]]
    (fun _ => true) (by decide +kernel)
  exact ⟨f, fifo_keeps_newest (by decide) (by decide) run⟩

end RtThread.SerialRx
