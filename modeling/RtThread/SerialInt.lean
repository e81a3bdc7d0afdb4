import Mathlib
import RtThread.SerialRx

/-! The receive FIFO of a serial device in interrupt mode: RX_IND stores the characters that getc
has, and _serial_int_rx reads them. One slot stays free, as equal indices mean an empty FIFO. -/
namespace RtThread.SerialInt
open Transition SerialRx

/-- An index one further, an rt_uint16_t. -/
def nextIndex (bufsz i : Nat) : Nat := if bufsz ≤ u16 (i + 1) then 0 else u16 (i + 1)

/-- The section of RX_IND that stores one character. -/
def store (bufsz : Nat) (f : RxFifo) (ch : UInt8) : RxFifo :=
  let f := { f with buffer := Function.update f.buffer f.putIndex ch, putIndex := nextIndex bufsz f.putIndex }
  if f.putIndex = f.getIndex then
    { f with isFull := true, getIndex := nextIndex bufsz f.getIndex }
  else f

/-- The length that RX_IND computes for rx_indicate. -/
def rxLength (bufsz : Nat) (f : RxFifo) : Nat :=
  if f.getIndex ≤ f.putIndex then f.putIndex - f.getIndex else bufsz - (f.getIndex - f.putIndex)

/-- RX_IND, getc giving `chars`, with what rx_indicate is called with. -/
def rxInd (bufsz : Nat) (f : RxFifo) (chars : List UInt8) : RxFifo × Option Nat :=
  let f := chars.foldl (store bufsz) f
  (f, if rxLength bufsz f ≠ 0 then some (rxLength bufsz f) else none)

/-- The section of _serial_int_rx that takes one character. -/
def fetch (bufsz : Nat) (f : RxFifo) : Option (UInt8 × RxFifo) :=
  if f.getIndex = f.putIndex ∧ f.isFull = false then none
  else
    let ch := f.buffer f.getIndex
    let f := { f with getIndex := nextIndex bufsz f.getIndex }
    some (ch, if f.isFull = true then { f with isFull := false } else f)

def serialIntRx (bufsz : Nat) : Nat → RxFifo → List UInt8 × RxFifo
  | 0, f => ([], f)
  | length + 1, f =>
    match fetch bufsz f with
    | none => ([], f)
    | some (ch, f) =>
      let (data, f) := serialIntRx bufsz length f
      (ch :: data, f)

inductive Action where
  | rxInd (chars : List UInt8)
  | rx (length : Nat)

inductive Event where
  | received (chars : List UInt8) (indicated : Option Nat)
  | read (length : Nat) (data : List UInt8)
  deriving DecidableEq

def step (bufsz : Nat) (f : RxFifo) : Action → Option (RxFifo × List Event)
  | .rxInd chars =>
    let (f, indicated) := rxInd bufsz f chars
    some (f, [.received chars indicated])
  | .rx length =>
    let (data, f) := serialIntRx bufsz length f
    some (f, [.read length data])

def machine (bufsz : Nat) : Machine RxFifo Action Event where
  start f := f = openFifo
  step := step bufsz

/-- The newest `cap` of a list. -/
def newest {α : Type} (cap : Nat) (q : List α) : List α := q.drop (q.length - cap)

/-- A queue of capacity `cap` that drops its oldest; `none` for an answer that is not the queue's. -/
def Event.apply (cap : Nat) (q : List UInt8) : Event → Option (List UInt8)
  | .received chars indicated =>
    let q := newest cap (q ++ chars)
    if indicated = if q.length ≠ 0 then some q.length else none then some q else none
  | .read length data => if data = q.take length then some (q.drop length) else none

def replay (cap : Nat) (tr : List Event) : Option (List UInt8) :=
  tr.foldlM (fun q e => e.apply cap q) []

variable {bufsz : Nat} {f : RxFifo} {q : List UInt8}

/-- The FIFO holds the characters `q`, oldest first. -/
structure Holds (bufsz : Nat) (f : RxFifo) (q : List UInt8) : Prop where
  put : f.putIndex < bufsz
  get : f.getIndex < bufsz
  ends : f.putIndex = (f.getIndex + q.length) % bufsz
  fits : q.length < bufsz
  full : f.isFull = true → q.length + 1 = bufsz
  content : Ring.window f.buffer bufsz f.getIndex q.length = q

theorem nextIndex_eq {i : Nat} (word : bufsz < 2 ^ 16) (inside : i < bufsz) :
    nextIndex bufsz i = (i + 1) % bufsz := by
  rw [nextIndex, u16_small (by omega)]
  exact Ring.next_eq_mod bufsz inside

theorem Holds.wrapped (holds : Holds bufsz f q) :
    f.putIndex = if f.getIndex + q.length < bufsz then f.getIndex + q.length
      else f.getIndex + q.length - bufsz := by
  have get := holds.get
  have fits := holds.fits
  rw [holds.ends]
  exact Ring.mod_wrap bufsz (by omega)

theorem Holds.empty_iff (holds : Holds bufsz f q) : f.putIndex = f.getIndex ↔ q = [] := by
  have wrapped := holds.wrapped
  have get := holds.get
  have fits := holds.fits
  rw [← List.length_eq_zero_iff]
  split at wrapped <;> omega

theorem Holds.rxLength (holds : Holds bufsz f q) : SerialInt.rxLength bufsz f = q.length := by
  have wrapped := holds.wrapped
  have get := holds.get
  have fits := holds.fits
  unfold SerialInt.rxLength
  split at wrapped <;> split <;> omega

theorem Holds.recvedLen (holds : Holds bufsz f q) (two : 2 ≤ bufsz) : serialFifoCalcRecvedLen bufsz f = q.length := by
  have wrapped := holds.wrapped
  have get := holds.get
  have fits := holds.fits
  have full := holds.full
  unfold serialFifoCalcRecvedLen
  split
  · split
    · split at wrapped <;> omega
    · rename_i isFull
      have most := full (by simpa using isFull)
      split at wrapped <;> omega
  · split <;> split at wrapped <;> omega

theorem newest_short {α : Type} {cap : Nat} {q : List α} (short : q.length ≤ cap) : newest cap q = q := by
  rw [newest, Nat.sub_eq_zero_of_le short, List.drop_zero]

theorem length_newest {α : Type} (cap : Nat) (q : List α) : (newest cap q).length = min cap q.length := by
  rw [newest, List.length_drop]
  omega

theorem newest_append {α : Type} (cap : Nat) (q r : List α) :
    newest cap (newest cap q ++ r) = newest cap (q ++ r) := by
  rcases Nat.le_total q.length cap with short | long
  · rw [newest_short short]
  · have length := length_newest cap q
    rw [Nat.min_eq_left long] at length
    simp only [newest, List.length_append] at length ⊢
    rw [← List.drop_append_of_le_length (by omega), List.drop_drop, length]
    congr 1
    omega

/-- The slot that is written is free, and what is dropped to keep one free is the oldest. -/
theorem Holds.store (holds : Holds bufsz f q) (word : bufsz < 2 ^ 16) (ch : UInt8) :
    Holds bufsz (SerialInt.store bufsz f ch) (newest (bufsz - 1) (q ++ [ch])) := by
  have wrapped := holds.wrapped
  obtain ⟨put, get, ends, fits, full, content⟩ := holds
  have next : nextIndex bufsz f.putIndex = (f.getIndex + (q.length + 1)) % bufsz := by
    rw [nextIndex_eq word put, ends, Nat.mod_add_mod, Nat.add_assoc]
  have pushed : Ring.window (Function.update f.buffer f.putIndex ch) bufsz f.getIndex (q.length + 1) =
      q ++ [ch] := by
    have window := Ring.window_push f.buffer bufsz f.getIndex fits ch
    rwa [← ends, content] at window
  simp only [SerialInt.store, next]
  by_cases room : q.length + 1 < bufsz
  · have apart : (f.getIndex + (q.length + 1)) % bufsz ≠ f.getIndex := by
      rw [Ring.mod_wrap bufsz (by omega)]
      split <;> omega
    rw [if_neg apart, newest_short (by simp; omega)]
    exact {
      put := Nat.mod_lt _ (by omega)
      get := get
      ends := by simp
      fits := by simpa using room
      full := fun isFull => by
        have most := full isFull
        omega
      content := by simpa using pushed }
  · have meets : (f.getIndex + (q.length + 1)) % bufsz = f.getIndex := by
      rw [show q.length + 1 = bufsz by omega, Nat.add_mod_right, Nat.mod_eq_of_lt get]
    have dropped : newest (bufsz - 1) (q ++ [ch]) = (q ++ [ch]).drop 1 := by
      rw [newest, List.length_append, List.length_singleton]
      congr 1
      omega
    have length : ((q ++ [ch]).drop 1).length = q.length := by simp
    rw [if_pos meets, dropped, nextIndex_eq word get]
    exact {
      put := Nat.mod_lt _ (by omega)
      get := Nat.mod_lt _ (by omega)
      ends := by
        rw [length, Nat.mod_add_mod, Nat.add_assoc, Nat.add_comm 1]
      fits := by omega
      full := fun _ => by omega
      content := by rw [length, ← pushed, Ring.window_drop, Nat.add_sub_cancel] }

theorem Holds.stores (holds : Holds bufsz f q) (word : bufsz < 2 ^ 16) (chars : List UInt8) :
    Holds bufsz (chars.foldl (SerialInt.store bufsz) f) (newest (bufsz - 1) (q ++ chars)) := by
  induction chars generalizing f q with
  | nil =>
    have fits := holds.fits
    rw [List.append_nil, newest_short (by omega)]
    exact holds
  | cons ch rest ih =>
    have later := ih (holds.store word ch)
    rwa [newest_append, List.append_assoc, List.singleton_append] at later

theorem Holds.fetch_none (holds : Holds bufsz f q) (nothing : fetch bufsz f = none) : q = [] := by
  unfold fetch at nothing
  split at nothing
  · rename_i idle
    exact holds.empty_iff.mp idle.1.symm
  · contradiction

theorem Holds.fetch_some {ch : UInt8} {f' : RxFifo} (holds : Holds bufsz f q) (word : bufsz < 2 ^ 16)
    (two : 2 ≤ bufsz) (taken : fetch bufsz f = some (ch, f')) :
    ∃ rest, q = ch :: rest ∧ Holds bufsz f' rest := by
  have empty := holds.empty_iff
  obtain ⟨put, get, ends, fits, full, content⟩ := holds
  unfold fetch at taken
  split at taken
  · contradiction
  · rename_i busy
    cases q with
    | nil =>
      have most : f.isFull = false := by
        by_contra isFull
        have one := full (by simpa using isFull)
        rw [List.length_nil] at one
        omega
      exact absurd ⟨(empty.mpr rfl).symm, most⟩ busy
    | cons first rest =>
      rw [List.length_cons, Ring.window_pop f.buffer bufsz f.getIndex get] at content
      obtain ⟨head, tail⟩ := List.cons.inj content
      have flag : (if f.isFull = true then { f with getIndex := nextIndex bufsz f.getIndex, isFull := false }
          else { f with getIndex := nextIndex bufsz f.getIndex }) =
          { f with getIndex := (f.getIndex + 1) % bufsz, isFull := false } := by
        rw [nextIndex_eq word get]
        cases isFull : f.isFull <;> simp
      simp only [flag, Option.some.injEq, Prod.mk.injEq] at taken
      obtain ⟨rfl, rfl⟩ := taken
      refine ⟨rest, by rw [head], ?_⟩
      exact {
        put := put
        get := Nat.mod_lt _ (by omega)
        ends := by
          rw [ends, List.length_cons, Nat.mod_add_mod]
          congr 1
          omega
        fits := by
          rw [List.length_cons] at fits
          omega
        full := fun isFull => by contradiction
        content := tail }

theorem Holds.read (holds : Holds bufsz f q) (word : bufsz < 2 ^ 16) (two : 2 ≤ bufsz) (length : Nat) :
    ∃ f', serialIntRx bufsz length f = (q.take length, f') ∧ Holds bufsz f' (q.drop length) := by
  induction length generalizing f q with
  | zero => exact ⟨f, rfl, holds⟩
  | succ length ih =>
    cases taken : fetch bufsz f with
    | none =>
      cases holds.fetch_none taken
      exact ⟨f, by simp [serialIntRx, taken], holds⟩
    | some r =>
      obtain ⟨rest, rfl, after⟩ := holds.fetch_some word two taken
      obtain ⟨f', read, last⟩ := ih after
      exact ⟨f', by simp [serialIntRx, taken, read], last⟩

theorem replay_snoc {cap : Nat} {tr : List Event} (shown : replay cap tr = some q) (e : Event) :
    replay cap (tr ++ [e]) = e.apply cap q :=
  replay_one shown e

/-- The events so far are a queue's with the content `q`, and the FIFO has that content. -/
structure Follows (bufsz : Nat) (tr : List Event) (f : RxFifo) (q : List UInt8) : Prop where
  shown : replay (bufsz - 1) tr = some q
  holds : Holds bufsz f q

theorem openFifo_follows (two : 2 ≤ bufsz) : Follows bufsz [] openFifo [] where
  shown := rfl
  holds := {
    put := by simp only [openFifo]; omega
    get := by simp only [openFifo]; omega
    ends := (Nat.zero_mod bufsz).symm
    fits := by simp only [List.length_nil]; omega
    full := fun isFull => by contradiction
    content := rfl }

theorem Follows.step {tr es : List Event} {f' : RxFifo} {a : Action} (follows : Follows bufsz tr f q)
    (word : bufsz < 2 ^ 16) (two : 2 ≤ bufsz) (taken : SerialInt.step bufsz f a = some (f', es)) :
    ∃ q', Follows bufsz (tr ++ es) f' q' := by
  obtain ⟨shown, holds⟩ := follows
  cases a with
  | rxInd chars =>
    have after := holds.stores word chars
    cases taken
    refine ⟨_, ?_, after⟩
    rw [replay_snoc shown, Event.apply, after.rxLength, if_pos rfl]
  | rx length =>
    obtain ⟨last, read, after⟩ := holds.read word two length
    simp only [SerialInt.step, read, Option.some.injEq, Prod.mk.injEq] at taken
    obtain ⟨rfl, rfl⟩ := taken
    refine ⟨_, ?_, after⟩
    rw [replay_snoc shown, Event.apply, if_pos rfl]

/-- What the FIFO shows of the content `q`. -/
structure Shows (bufsz : Nat) (tr : List Event) (f : RxFifo) (q : List UInt8) : Prop where
  shown : replay (bufsz - 1) tr = some q
  put : f.putIndex < bufsz
  get : f.getIndex < bufsz
  capacity : q.length ≤ bufsz - 1
  content : Ring.window f.buffer bufsz f.getIndex q.length = q
  empty : f.putIndex = f.getIndex ↔ q = []
  recvedLen : serialFifoCalcRecvedLen bufsz f = q.length
  indicated : rxLength bufsz f = q.length
  reads : ∀ n, (serialIntRx bufsz n f).1 = q.take (min n q.length)

/-- Every run is one of a queue of `bufsz - 1` characters that keeps the newest. -/
theorem int_fifo_keeps_newest (two : 2 ≤ bufsz) (word : bufsz < 2 ^ 16) {tr : List Event}
    (run : Run (machine bufsz) tr f) : ∃ q, Shows bufsz tr f q := by
  obtain ⟨q, shown, holds⟩ : ∃ q, Follows bufsz tr f q := by
    apply run.invariant (I := fun tr f => ∃ q, Follows bufsz tr f q)
    · rintro _ rfl
      exact ⟨[], openFifo_follows two⟩
    · rintro tr f a f' es ⟨q, follows⟩ taken
      exact follows.step word two taken
  have fits := holds.fits
  refine ⟨q, shown, holds.put, holds.get, by omega, holds.content, holds.empty_iff,
    holds.recvedLen two, holds.rxLength, ?_⟩
  intro n
  obtain ⟨f', read, _⟩ := holds.read word two n
  rw [read, ← List.take_eq_take_min]

/-- Four slots: three characters are kept of six, and a read across the end. -/
theorem int_fifo_keeps_newest_overflow : ∃ f q, Shows 4
    [.received [1, 2] (some 2), .read 1 [1], .received [3, 4, 5, 6] (some 3), .read 9 [4, 5, 6]] f q := by
  obtain ⟨f, run, _⟩ := Run.shows (M := machine 4) (s := openFifo) rfl
    [.rxInd [1, 2], .rx 1, .rxInd [3, 4, 5, 6], .rx 9]
    [.received [1, 2] (some 2), .read 1 [1], .received [3, 4, 5, 6] (some 3), .read 9 [4, 5, 6]]
    (fun _ => true) (by decide)
  exact ⟨f, int_fifo_keeps_newest (by decide) (by decide) run⟩

end RtThread.SerialInt
