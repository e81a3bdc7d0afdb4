import RtThread.Kernel
import RtThread.Ring
import RtThread.Run
import Mathlib.Data.List.TakeDrop

/-! The byte ring buffer of the device drivers (ringbuffer.c). Two mirror bits tell a
full buffer from an empty one. Every run of its operations shows the answers of a
bounded queue of bytes. -/
namespace RtThread.RingBuffer
open Transition

/-- The mirrors are bit-fields of one bit, the indices of 15. -/
structure RtRingbuffer where
  bufferPtr : Nat → UInt8
  readMirror : Bool
  readIndex : Nat
  writeMirror : Bool
  writeIndex : Nat
  bufferSize : Nat

inductive RtRingbufferState where
  | empty | full | halffull
  deriving DecidableEq

/-- The low 15 bits, what an index field keeps of a value. -/
def index15 (i : Nat) : Nat := i % 2 ^ 15

def memcpy (dst : Nat → UInt8) (off : Nat) (src : Nat → UInt8) (n : Nat) : Nat → UInt8 :=
  fun i => if off ≤ i ∧ i < off + n then src (i - off) else dst i

/-- The `n` bytes from `off` on. -/
def bytes (src : Nat → UInt8) (off n : Nat) : List UInt8 := (List.range n).map (fun i => src (off + i))

def rtRingbufferStatus (rb : RtRingbuffer) : RtRingbufferState :=
  if rb.readIndex = rb.writeIndex then
    if rb.readMirror = rb.writeMirror then .empty else .full
  else .halffull

/-- `size` is a positive rt_int16_t. -/
def rtRingbufferInit (pool : Nat → UInt8) (size : Nat) : RtRingbuffer where
  bufferPtr := pool
  readMirror := false
  readIndex := 0
  writeMirror := false
  writeIndex := 0
  bufferSize := rtAlignDown size

def rtRingbufferDataLen (rb : RtRingbuffer) : Nat :=
  match rtRingbufferStatus rb with
  | .empty => 0
  | .full => rb.bufferSize
  | .halffull =>
    if rb.readIndex < rb.writeIndex then rb.writeIndex - rb.readIndex
    else rb.bufferSize - (rb.readIndex - rb.writeIndex)

def rtRingbufferSpaceLen (rb : RtRingbuffer) : Nat := rb.bufferSize - rtRingbufferDataLen rb

/- `size` is an rt_uint16_t. -/
def rtRingbufferPut (rb : RtRingbuffer) (ptr : Nat → UInt8) (length : UInt16) : RtRingbuffer × Nat :=
  let size := rtRingbufferSpaceLen rb % 2 ^ 16
  if size = 0 then (rb, 0)
  else
    let length := if size < length.toNat then size else length.toNat
    if length + rb.writeIndex < rb.bufferSize then
      ({ rb with
        bufferPtr := memcpy rb.bufferPtr rb.writeIndex ptr length
        writeIndex := index15 (rb.writeIndex + length) }, length)
    else
      let head := rb.bufferSize - rb.writeIndex
      ({ rb with
        bufferPtr := memcpy (memcpy rb.bufferPtr rb.writeIndex ptr head) 0
          (fun i => ptr (head + i)) (length - head)
        writeMirror := !rb.writeMirror
        writeIndex := index15 (length - head) }, length)

/- The second component is what is copied to `ptr`. -/
def rtRingbufferGet (rb : RtRingbuffer) (length : UInt16) : RtRingbuffer × List UInt8 × Nat :=
  let size := rtRingbufferDataLen rb
  if size = 0 then (rb, [], 0)
  else
    let length := if size < length.toNat then size % 2 ^ 16 else length.toNat
    if length + rb.readIndex < rb.bufferSize then
      ({ rb with readIndex := index15 (rb.readIndex + length) },
        bytes rb.bufferPtr rb.readIndex length, length)
    else
      let head := rb.bufferSize - rb.readIndex
      ({ rb with readMirror := !rb.readMirror, readIndex := index15 (length - head) },
        bytes rb.bufferPtr rb.readIndex head ++ bytes rb.bufferPtr 0 (length - head), length)

/- `*ptr` is given as its offset in the buffer. -/
def rtRingbufferPeak (rb : RtRingbuffer) : RtRingbuffer × Option Nat × Nat :=
  let size := rtRingbufferDataLen rb
  if size = 0 then (rb, none, 0)
  else if size + rb.readIndex < rb.bufferSize then
    ({ rb with readIndex := index15 (rb.readIndex + size) }, some rb.readIndex, size)
  else
    ({ rb with readMirror := !rb.readMirror, readIndex := 0 }, some rb.readIndex,
      rb.bufferSize - rb.readIndex)

def rtRingbufferPutchar (rb : RtRingbuffer) (ch : UInt8) : RtRingbuffer × Nat :=
  if rtRingbufferSpaceLen rb = 0 then (rb, 0)
  else
    let rb := { rb with bufferPtr := Function.update rb.bufferPtr rb.writeIndex ch }
    if rb.writeIndex + 1 = rb.bufferSize then
      ({ rb with writeMirror := !rb.writeMirror, writeIndex := 0 }, 1)
    else ({ rb with writeIndex := index15 (rb.writeIndex + 1) }, 1)

def rtRingbufferPutcharForce (rb : RtRingbuffer) (ch : UInt8) : RtRingbuffer × Nat :=
  let oldState := rtRingbufferStatus rb
  let rb := { rb with bufferPtr := Function.update rb.bufferPtr rb.writeIndex ch }
  if rb.writeIndex + 1 = rb.bufferSize then
    let rb := { rb with writeMirror := !rb.writeMirror, writeIndex := 0 }
    if oldState = .full then
      ({ rb with readMirror := !rb.readMirror, readIndex := rb.writeIndex }, 1)
    else (rb, 1)
  else
    let rb := { rb with writeIndex := index15 (rb.writeIndex + 1) }
    if oldState = .full then ({ rb with readIndex := rb.writeIndex }, 1) else (rb, 1)

def rtRingbufferGetchar (rb : RtRingbuffer) : RtRingbuffer × Option UInt8 × Nat :=
  if rtRingbufferDataLen rb = 0 then (rb, none, 0)
  else
    let ch := rb.bufferPtr rb.readIndex
    if rb.readIndex + 1 = rb.bufferSize then
      ({ rb with readMirror := !rb.readMirror, readIndex := 0 }, some ch, 1)
    else ({ rb with readIndex := index15 (rb.readIndex + 1) }, some ch, 1)

def rtRingbufferReset (rb : RtRingbuffer) : RtRingbuffer :=
  { rb with readMirror := false, readIndex := 0, writeMirror := false, writeIndex := 0 }

inductive Action where
  | put (ptr : Nat → UInt8) (length : UInt16)
  | putchar (ch : UInt8)
  | putcharForce (ch : UInt8)
  | get (length : UInt16)
  | getchar
  | peak
  | reset

/-- A call with its arguments and its answer; for `peak` also what the caller can read
at the pointer it gets. -/
inductive Event where
  | put (ptr : Nat → UInt8) (length : UInt16) (ret : Nat)
  | putchar (ch : UInt8) (ret : Nat)
  | putcharForce (ch : UInt8) (ret : Nat)
  | get (length : UInt16) (data : List UInt8) (ret : Nat)
  | getchar (ch : Option UInt8) (ret : Nat)
  | peak (ptr : Option Nat) (data : List UInt8) (ret : Nat)
  | reset

def call (rb : RtRingbuffer) : Action → RtRingbuffer × Event
  | .put ptr length =>
    let r := rtRingbufferPut rb ptr length
    (r.1, .put ptr length r.2)
  | .putchar ch =>
    let r := rtRingbufferPutchar rb ch
    (r.1, .putchar ch r.2)
  | .putcharForce ch =>
    let r := rtRingbufferPutcharForce rb ch
    (r.1, .putcharForce ch r.2)
  | .get length =>
    let r := rtRingbufferGet rb length
    (r.1, .get length r.2.1 r.2.2)
  | .getchar =>
    let r := rtRingbufferGetchar rb
    (r.1, .getchar r.2.1 r.2.2)
  | .peak =>
    let r := rtRingbufferPeak rb
    (r.1, .peak r.2.1 (bytes rb.bufferPtr (r.2.1.getD 0) r.2.2) r.2.2)
  | .reset => (rtRingbufferReset rb, .reset)

/-- Runs that start from rt_ringbuffer_init with a size of at least one aligned word. -/
def machine : Machine RtRingbuffer Action Event where
  start rb := ∃ pool size, rtAlignSize ≤ size ∧ size < 2 ^ 15 ∧ rb = rtRingbufferInit pool size
  step rb a := some ((call rb a).1, [(call rb a).2])

/-- A queue of at most `size` bytes: which answers it gives, and what it holds then. -/
def Fifo (size : Nat) (q : List UInt8) : Event → List UInt8 → Prop
  | .put ptr length ret, q' =>
    ret = min length.toNat (size - q.length) ∧ q' = q ++ bytes ptr 0 ret
  | .putchar ch ret, q' =>
    if q.length < size then ret = 1 ∧ q' = q ++ [ch] else ret = 0 ∧ q' = q
  | .putcharForce ch ret, q' =>
    ret = 1 ∧ q' = (if q.length < size then q else q.tail) ++ [ch]
  | .get length data ret, q' =>
    ret = min length.toNat q.length ∧ data = q.take ret ∧ q' = q.drop ret
  | .getchar ch ret, q' => ch = q.head? ∧ ret = min 1 q.length ∧ q' = q.tail
  | .peak none data ret, q' => q = [] ∧ data = [] ∧ ret = 0 ∧ q' = []
  | .peak (some off) data ret, q' =>
    q ≠ [] ∧ data = q.take ret ∧ q' = q.drop ret ∧ ret = min q.length (size - off) ∧ off < size
  | .reset, q' => q' = []

/-- The queue after a history of calls. -/
inductive History (size : Nat) : List Event → List UInt8 → Prop where
  | nil : History size [] []
  | snoc {tr : List Event} {q q' : List UInt8} {e : Event} :
      History size tr q → Fifo size q e q' → History size (tr ++ [e]) q'

/-- The buffer holds the bytes `q`. In one mirror the writer is `q.length` ahead of the
reader; in different mirrors it has gone round once more. -/
structure Holds (rb : RtRingbuffer) (q : List UInt8) : Prop where
  size : rb.bufferSize < 2 ^ 15
  read : rb.readIndex < rb.bufferSize
  write : rb.writeIndex < rb.bufferSize
  fits : q.length ≤ rb.bufferSize
  ends : rb.writeIndex + (if rb.writeMirror = rb.readMirror then 0 else rb.bufferSize) =
    rb.readIndex + q.length
  content : Ring.window rb.bufferPtr rb.bufferSize rb.readIndex q.length = q

/-- An index and its mirror, moved on by `k` places. -/
def advance (size : Nat) (mirror : Bool) (i k : Nat) : Bool × Nat :=
  if k + i < size then (mirror, i + k) else (!mirror, i + k - size)

variable {rb : RtRingbuffer} {q : List UInt8} {tr : List Event}

theorem index15_small {i : Nat} (small : i < 2 ^ 15) : index15 i = i := Nat.mod_eq_of_lt small

theorem advance_eq_mod {size i k : Nat} {b : Bool} (inside : i < size) (once : k ≤ size) :
    (advance size b i k).2 = (i + k) % size := by
  rw [Ring.mod_wrap size (by lia), advance]
  split <;> split <;> first | rfl | lia

theorem length_bytes (src : Nat → UInt8) (off n : Nat) : (bytes src off n).length = n := by
  simp [bytes]

theorem window_bytes {size off n : Nat} {pool : Nat → UInt8} (inside : off + n ≤ size) :
    Ring.window pool size off n = bytes pool off n := by
  apply List.map_congr_left
  intro i here
  rw [Nat.mod_eq_of_lt (by have := List.mem_range.mp here; lia)]

theorem window_split {size off n : Nat} {pool : Nat → UInt8} (inside : off < size)
    (reaches : size ≤ off + n) (once : n ≤ size) :
    Ring.window pool size off n =
      bytes pool off (size - off) ++ bytes pool 0 (n - (size - off)) := by
  have parts : n = (size - off) + (n - (size - off)) := by lia
  rw [← List.take_append_drop (size - off) (Ring.window pool size off n),
    Ring.window_take _ _ _ (by lia), Ring.window_drop, window_bytes (by lia)]
  rw [show off + (size - off) = size by lia, Nat.mod_self, window_bytes (by lia)]

theorem Holds.status (holds : Holds rb q) : rtRingbufferStatus rb =
    if q.length = 0 then .empty else if q.length = rb.bufferSize then .full else .halffull := by
  obtain ⟨_, read, write, fits, ends, _⟩ := holds
  unfold rtRingbufferStatus
  split at ends
  · rename_i mirror
    simp only [mirror, if_true]
    split
    · rw [if_pos (by lia)]
    · rw [if_neg (by lia), if_neg (by lia)]
  · rename_i mirror
    simp only [Ne.symm mirror, if_false]
    split
    · rw [if_neg (by lia), if_pos (by lia)]
    · rw [if_neg (by lia), if_neg (by lia)]

theorem Holds.dataLen (holds : Holds rb q) : rtRingbufferDataLen rb = q.length := by
  have status := holds.status
  obtain ⟨_, read, write, fits, ends, _⟩ := holds
  unfold rtRingbufferDataLen
  rw [status]
  split at status
  · simp_all
  · split at status
    · simp_all
    · rename_i some_ notFull
      simp only [some_, notFull, if_false]
      split at ends <;> split <;> lia

theorem Holds.spaceLen (holds : Holds rb q) : rtRingbufferSpaceLen rb = rb.bufferSize - q.length := by
  rw [rtRingbufferSpaceLen, holds.dataLen]

theorem Holds.drop {k : Nat} {r : RtRingbuffer} (holds : Holds rb q) (part : k ≤ q.length)
    (moved : advance rb.bufferSize rb.readMirror rb.readIndex k = (r.readMirror, r.readIndex))
    (same : r = { rb with readMirror := r.readMirror, readIndex := r.readIndex }) :
    Holds r (q.drop k) := by
  obtain ⟨size, read, write, fits, ends, content⟩ := holds
  have slot := advance_eq_mod (b := rb.readMirror) read (k := k) (by lia)
  rw [moved] at slot
  change r.readIndex = _ at slot
  rw [same]
  simp only [advance] at moved
  constructor
  · exact size
  · change r.readIndex < rb.bufferSize
    split at moved <;> simp only [Prod.mk.injEq] at moved <;> lia
  · exact write
  · simp only [List.length_drop]
    lia
  · simp only [List.length_drop]
    split at moved <;> simp only [Prod.mk.injEq] at moved <;> obtain ⟨mirror, index⟩ := moved
    · rw [← mirror]
      lia
    · rw [← mirror, ← index]
      cases wm : rb.writeMirror <;> cases rm : rb.readMirror <;> simp [wm, rm] at ends ⊢ <;> lia
  · simp only [List.length_drop]
    rw [slot, ← Ring.window_drop, content]

theorem Holds.append {k : Nat} {r : RtRingbuffer} {f : Nat → UInt8} (holds : Holds rb q)
    (room : q.length + k ≤ rb.bufferSize)
    (moved : advance rb.bufferSize rb.writeMirror rb.writeIndex k = (r.writeMirror, r.writeIndex))
    (same : r = { rb with
      bufferPtr := r.bufferPtr, writeMirror := r.writeMirror, writeIndex := r.writeIndex })
    (copied : ∀ i, i < rb.bufferSize → r.bufferPtr i =
      if rb.writeIndex ≤ i ∧ i < rb.writeIndex + k then f (i - rb.writeIndex)
      else if i + rb.bufferSize < rb.writeIndex + k then f (i + rb.bufferSize - rb.writeIndex)
      else rb.bufferPtr i) :
    Holds r (q ++ bytes f 0 k) := by
  obtain ⟨size, read, write, fits, ends, content⟩ := holds
  have start : rb.writeIndex = (rb.readIndex + q.length) % rb.bufferSize := by
    rw [Ring.mod_wrap _ (by lia)]
    split at ends <;> split <;> lia
  rw [same]
  constructor
  · exact size
  · exact read
  · change r.writeIndex < rb.bufferSize
    simp only [advance] at moved
    split at moved <;> simp only [Prod.mk.injEq] at moved <;> lia
  · simpa [length_bytes] using room
  · simp only [List.length_append, length_bytes]
    simp only [advance] at moved
    split at moved <;> simp only [Prod.mk.injEq] at moved <;> obtain ⟨mirror, index⟩ := moved
    · rw [← mirror]
      lia
    · rw [← mirror, ← index]
      cases wm : rb.writeMirror <;> cases rm : rb.readMirror <;> simp [wm, rm] at ends ⊢ <;> lia
  · simp only [List.length_append, length_bytes]
    rw [Ring.window_append rb.bufferPtr _ _ (f := f), content]
    · simp [bytes]
    · intro i here
      have slot : (rb.readIndex + i) % rb.bufferSize < rb.bufferSize := Nat.mod_lt _ (by lia)
      rw [copied _ slot]
      rw [Ring.mod_wrap _ (by lia)] at start ⊢
      split at start <;> split <;> rw [if_neg (by lia), if_neg (by lia)]
    · intro i here
      have slot : (rb.readIndex + (q.length + i)) % rb.bufferSize < rb.bufferSize :=
        Nat.mod_lt _ (by lia)
      rw [copied _ slot]
      have place : (rb.readIndex + (q.length + i)) % rb.bufferSize =
          (rb.writeIndex + i) % rb.bufferSize := by
        rw [start, Nat.mod_add_mod, Nat.add_assoc]
      rw [place, Ring.mod_wrap _ (by lia)]
      split
      · rw [if_pos (by lia)]
        congr 1
        lia
      · rw [if_neg (by lia), if_pos (by lia)]
        congr 1
        lia

theorem start_holds {pool : Nat → UInt8} {size : Nat} (word : rtAlignSize ≤ size) (small : size < 2 ^ 15) :
    Holds (rtRingbufferInit pool size) [] := by
  unfold rtAlignSize at word
  constructor <;> simp [rtRingbufferInit, rtAlignDown, rtAlignSize] <;> lia

theorem reset_holds (holds : Holds rb q) : Holds (rtRingbufferReset rb) [] := by
  have room : 0 < rb.bufferSize := Nat.lt_of_le_of_lt (Nat.zero_le _) holds.read
  constructor <;> simp [rtRingbufferReset, room]
  exact holds.size

theorem put_holds (holds : Holds rb q) (ptr : Nat → UInt8) (length : UInt16) :
    ∃ rb' k, rtRingbufferPut rb ptr length = (rb', k) ∧
      k = min length.toNat (rb.bufferSize - q.length) ∧ Holds rb' (q ++ bytes ptr 0 k) := by
  have fits := holds.fits
  have write := holds.write
  have bound := holds.size
  have space : rtRingbufferSpaceLen rb % 2 ^ 16 = rb.bufferSize - q.length := by
    rw [holds.spaceLen]
    exact Nat.mod_eq_of_lt (by lia)
  have short : (if rb.bufferSize - q.length < length.toNat then rb.bufferSize - q.length
      else length.toNat) = min length.toNat (rb.bufferSize - q.length) := by
    split <;> lia
  simp only [rtRingbufferPut, space, short]
  split
  · rename_i full
    exact ⟨rb, 0, rfl, by lia, by simpa [bytes] using holds⟩
  · generalize taken : min length.toNat (rb.bufferSize - q.length) = k
    split
    · rename_i before
      refine ⟨_, k, rfl, rfl, holds.append (by lia) ?_ rfl ?_⟩
      · simp only [advance, before, if_true]
        rw [index15_small (by lia)]
      · intro i _
        simp only [memcpy]
        split
        · rfl
        · rw [if_neg (by lia)]
    · rename_i across
      refine ⟨_, k, rfl, rfl, holds.append (by lia) ?_ rfl ?_⟩
      · simp only [advance, across, if_false]
        rw [index15_small (by lia)]
        congr 1
        lia
      · intro i inside
        simp only [memcpy]
        split
        · rw [if_neg (by lia), if_pos (by lia)]
          congr 1
          lia
        · split
          · rw [if_pos (by lia)]
          · rw [if_neg (by lia), if_neg (by lia)]

theorem push_holds {c : UInt8} {mirror : Bool} {i : Nat} (holds : Holds rb q)
    (room : q.length < rb.bufferSize)
    (moved : advance rb.bufferSize rb.writeMirror rb.writeIndex 1 = (mirror, i)) :
    Holds { rb with
      bufferPtr := Function.update rb.bufferPtr rb.writeIndex c
      writeMirror := mirror
      writeIndex := i } (q ++ [c]) := by
  have write := holds.write
  have pushed := holds.append (k := 1) (f := fun _ => c) (r := { rb with
      bufferPtr := Function.update rb.bufferPtr rb.writeIndex c
      writeMirror := mirror
      writeIndex := i }) room moved rfl ?_
  · simpa [bytes] using pushed
  · intro j _
    simp only [Function.update_apply]
    split
    · rw [if_pos (by lia)]
    · rw [if_neg (by lia), if_neg (by lia)]

theorem advance_one {size i : Nat} {b : Bool} (inside : i < size) (small : size < 2 ^ 15) :
    advance size b i 1 = if i + 1 = size then (!b, 0) else (b, index15 (i + 1)) := by
  unfold advance
  split
  · rw [if_neg (by lia), index15_small (by lia)]
  · rw [if_pos (by lia)]
    congr 1
    lia

theorem putchar_holds (holds : Holds rb q) (ch : UInt8) :
    ∃ rb' k q', rtRingbufferPutchar rb ch = (rb', k) ∧
      Fifo rb.bufferSize q (.putchar ch k) q' ∧ Holds rb' q' := by
  have moved := advance_one (b := rb.writeMirror) holds.write holds.size
  simp only [rtRingbufferPutchar, holds.spaceLen, Fifo]
  split
  · rename_i full
    refine ⟨rb, 0, q, rfl, ?_, holds⟩
    rw [if_neg (by lia)]
    exact ⟨rfl, rfl⟩
  · rename_i notFull
    have room : q.length < rb.bufferSize := by lia
    simp only [room, if_true]
    split <;> rename_i end_ <;> simp only [end_, if_true, if_false] at moved
    · exact ⟨_, 1, _, rfl, ⟨rfl, rfl⟩, push_holds holds room moved⟩
    · exact ⟨_, 1, _, rfl, ⟨rfl, rfl⟩, push_holds holds room moved⟩

theorem putcharForce_holds (holds : Holds rb q) (ch : UInt8) :
    ∃ rb' k q', rtRingbufferPutcharForce rb ch = (rb', k) ∧
      Fifo rb.bufferSize q (.putcharForce ch k) q' ∧ Holds rb' q' := by
  have moved := advance_one (b := rb.writeMirror) holds.write holds.size
  have status := holds.status
  have fits := holds.fits
  have read := holds.read
  simp only [rtRingbufferPutcharForce, Fifo]
  cases lt : decide (q.length < rb.bufferSize) with
  | true =>
    have room : q.length < rb.bufferSize := by simpa using lt
    have notFull : rtRingbufferStatus rb ≠ .full := by
      rw [status]
      split
      · simp
      · rw [if_neg (by lia)]
        simp
    simp only [room, notFull, if_true, if_false]
    split <;> rename_i end_ <;> simp only [end_, if_true, if_false] at moved
    · exact ⟨_, 1, _, rfl, ⟨rfl, rfl⟩, push_holds holds room moved⟩
    · exact ⟨_, 1, _, rfl, ⟨rfl, rfl⟩, push_holds holds room moved⟩
  | false =>
    have full : q.length = rb.bufferSize := by simp at lt; lia
    have isFull : rtRingbufferStatus rb = .full := by
      rw [status, if_neg (by lia), if_pos full]
    have ends := holds.ends
    have other : rb.writeMirror ≠ rb.readMirror := by
      intro same
      rw [if_pos same] at ends
      have write := holds.write
      lia
    have meet : rb.readIndex = rb.writeIndex := by
      rw [if_neg other] at ends
      lia
    have readMoved := advance_one (b := rb.readMirror) holds.read holds.size
    rw [meet] at readMoved
    have notLess : ¬ q.length < rb.bufferSize := by lia
    simp only [notLess, isFull, if_true, if_false]
    split <;> rename_i end_ <;> simp only [end_, if_true, if_false] at moved readMoved
    · have dropped := holds.drop (k := 1) (r := { rb with
        readMirror := !rb.readMirror, readIndex := 0 }) (by lia) (by rw [meet]; exact readMoved) rfl
      have pushed := push_holds (c := ch) dropped (by simp; lia) moved
      rw [List.drop_one] at pushed
      exact ⟨_, 1, _, rfl, ⟨rfl, rfl⟩, pushed⟩
    · have dropped := holds.drop (k := 1) (r := { rb with
        readIndex := index15 (rb.writeIndex + 1) }) (by lia) (by rw [meet]; exact readMoved) rfl
      have pushed := push_holds (c := ch) dropped (by simp; lia) moved
      rw [List.drop_one] at pushed
      exact ⟨_, 1, _, rfl, ⟨rfl, rfl⟩, pushed⟩

/-- What is read in one or two runs is the oldest bytes. -/
theorem Holds.take {k : Nat} (holds : Holds rb q) (part : k ≤ q.length) :
    q.take k = Ring.window rb.bufferPtr rb.bufferSize rb.readIndex k := by
  rw [← Ring.window_take _ _ _ part, holds.content]

theorem get_holds (holds : Holds rb q) (length : UInt16) :
    ∃ rb' k, rtRingbufferGet rb length = (rb', q.take k, k) ∧ k = min length.toNat q.length ∧
      Holds rb' (q.drop k) := by
  have fits := holds.fits
  have read := holds.read
  have bound := holds.size
  have short : (if q.length < length.toNat then q.length % 2 ^ 16 else length.toNat) =
      min length.toNat q.length := by
    rw [Nat.mod_eq_of_lt (by lia)]
    split <;> lia
  simp only [rtRingbufferGet, holds.dataLen, short]
  split
  · rename_i empty
    exact ⟨rb, 0, by simp, by lia, by simpa using holds⟩
  · generalize taken : min length.toNat q.length = k
    have oldest := holds.take (k := k) (by lia)
    split
    · rename_i before
      refine ⟨_, k, by rw [oldest, window_bytes (by lia)], rfl, ?_⟩
      refine holds.drop (by lia) ?_ rfl
      simp only [advance, before, if_true]
      rw [index15_small (by lia)]
    · rename_i across
      refine ⟨_, k, by rw [oldest, window_split read (by lia) (by lia)], rfl, ?_⟩
      refine holds.drop (by lia) ?_ rfl
      simp only [advance, across, if_false]
      rw [index15_small (by lia)]
      congr 1
      lia

theorem getchar_holds (holds : Holds rb q) :
    ∃ rb' k, rtRingbufferGetchar rb = (rb', q.head?, k) ∧ k = min 1 q.length ∧ Holds rb' q.tail := by
  have moved := advance_one (b := rb.readMirror) holds.read holds.size
  simp only [rtRingbufferGetchar, holds.dataLen]
  cases q with
  | nil => exact ⟨rb, 0, rfl, rfl, holds⟩
  | cons c rest =>
    have first : rb.bufferPtr rb.readIndex = c := by
      have content := holds.content
      rw [List.length_cons, Ring.window_pop _ _ _ holds.read] at content
      exact (List.cons.inj content).1
    simp only [List.length_cons, Nat.add_one_ne_zero, if_false, first]
    split <;> rename_i end_ <;> simp only [end_, if_true, if_false] at moved
    · exact ⟨_, 1, rfl, by simp, holds.drop (k := 1) (by simp) moved rfl⟩
    · exact ⟨_, 1, rfl, by simp, holds.drop (k := 1) (by simp) moved rfl⟩

theorem peak_holds (holds : Holds rb q) :
    ∃ rb' off k q', rtRingbufferPeak rb = (rb', off, k) ∧
      Fifo rb.bufferSize q (.peak off (bytes rb.bufferPtr (off.getD 0) k) k) q' ∧ Holds rb' q' := by
  have fits := holds.fits
  have read := holds.read
  have bound := holds.size
  simp only [rtRingbufferPeak, holds.dataLen]
  split
  · rename_i empty
    have nothing : q = [] := List.length_eq_zero_iff.mp empty
    exact ⟨rb, none, 0, [], rfl, ⟨nothing, rfl, rfl, rfl⟩, nothing ▸ holds⟩
  · rename_i some_
    have notNil : q ≠ [] := by
      rintro rfl
      exact some_ rfl
    split
    · rename_i before
      refine ⟨_, some rb.readIndex, q.length, q.drop q.length, rfl, ⟨notNil, ?_, rfl, by lia, read⟩,
        holds.drop (Nat.le_refl _) ?_ rfl⟩
      · rw [holds.take (Nat.le_refl _), window_bytes (by lia)]
        rfl
      · simp only [advance, before, if_true]
        rw [index15_small (by lia)]
    · rename_i across
      refine ⟨_, some rb.readIndex, rb.bufferSize - rb.readIndex, _, rfl,
        ⟨notNil, ?_, rfl, by lia, read⟩, holds.drop (by lia) ?_ rfl⟩
      · rw [holds.take (by lia), window_bytes (by lia)]
        rfl
      · rw [advance, if_neg (by lia)]
        simp only [Prod.mk.injEq, true_and]
        lia

theorem call_size (rb : RtRingbuffer) (a : Action) : (call rb a).1.bufferSize = rb.bufferSize := by
  cases a with
  | put ptr length =>
    simp only [call, rtRingbufferPut]
    split
    · rfl
    · split <;> split <;> rfl
  | putchar ch =>
    simp only [call, rtRingbufferPutchar]
    split
    · rfl
    · split <;> rfl
  | putcharForce ch =>
    simp only [call, rtRingbufferPutcharForce]
    split <;> split <;> rfl
  | get length =>
    simp only [call, rtRingbufferGet]
    split
    · rfl
    · split <;> split <;> rfl
  | getchar =>
    simp only [call, rtRingbufferGetchar]
    split
    · rfl
    · split <;> rfl
  | peak =>
    simp only [call, rtRingbufferPeak]
    split
    · rfl
    · split <;> rfl
  | reset => rfl

theorem call_holds (holds : Holds rb q) (a : Action) :
    ∃ q', Fifo rb.bufferSize q (call rb a).2 q' ∧ Holds (call rb a).1 q' := by
  cases a with
  | put ptr length =>
    obtain ⟨rb', k, result, count, after⟩ := put_holds holds ptr length
    simp only [call, result]
    exact ⟨_, ⟨count, rfl⟩, after⟩
  | putchar ch =>
    obtain ⟨rb', k, q', result, answer, after⟩ := putchar_holds holds ch
    simp only [call, result]
    exact ⟨q', answer, after⟩
  | putcharForce ch =>
    obtain ⟨rb', k, q', result, answer, after⟩ := putcharForce_holds holds ch
    simp only [call, result]
    exact ⟨q', answer, after⟩
  | get length =>
    obtain ⟨rb', k, result, count, after⟩ := get_holds holds length
    simp only [call, result]
    exact ⟨_, ⟨count, rfl, rfl⟩, after⟩
  | getchar =>
    obtain ⟨rb', k, result, count, after⟩ := getchar_holds holds
    simp only [call, result]
    exact ⟨_, ⟨rfl, count, rfl⟩, after⟩
  | peak =>
    obtain ⟨rb', off, k, q', result, answer, after⟩ := peak_holds holds
    simp only [call, result]
    exact ⟨q', answer, after⟩
  | reset => exact ⟨[], rfl, reset_holds holds⟩

/-- The buffer `rb` is the bounded queue `q` that the history of calls `tr` leaves. -/
structure IsQueue (tr : List Event) (rb : RtRingbuffer) (q : List UInt8) : Prop where
  history : History rb.bufferSize tr q
  read : rb.readIndex < rb.bufferSize
  write : rb.writeIndex < rb.bufferSize
  dataLen : rtRingbufferDataLen rb = q.length
  capacity : q.length ≤ rb.bufferSize
  content : Ring.window rb.bufferPtr rb.bufferSize rb.readIndex q.length = q

theorem ringbuffer_refines {tr : List Event} {rb : RtRingbuffer} (run : Run machine tr rb) :
    ∃ q, IsQueue tr rb q := by
  have kept : ∃ q, History rb.bufferSize tr q ∧ Holds rb q := by
    apply run.invariant (I := fun tr rb => ∃ q, History rb.bufferSize tr q ∧ Holds rb q)
    · rintro rb ⟨pool, size, word, small, rfl⟩
      exact ⟨[], .nil, start_holds word small⟩
    · rintro tr rb a rb' es ⟨q, history, holds⟩ taken
      cases Option.some.inj taken
      obtain ⟨q', answer, after⟩ := call_holds holds a
      rw [call_size]
      exact ⟨q', history.snoc answer, after⟩
  obtain ⟨q, history, holds⟩ := kept
  exact ⟨q, history, holds.read, holds.write, holds.dataLen, holds.fits, holds.content⟩

/-- Size 7 gives four slots; a block wraps, and the fifth byte drops the oldest. -/
theorem ringbuffer_refines_wrapped :
    ∃ tr rb q, IsQueue tr rb q ∧ q = [10, 11, 12, 9] ∧ rb.readMirror ≠ rb.writeMirror := by
  obtain ⟨tr, rb, run, found⟩ := Run.reaches (M := machine)
    ⟨fun _ => 0, 7, by decide, by decide, rfl⟩
    [.put (fun i => UInt8.ofNat i) 3, .get 2, .put (fun i => UInt8.ofNat (10 + i)) 60000, .putcharForce 9]
    (fun rb => decide (Ring.window rb.bufferPtr rb.bufferSize rb.readIndex 4 = [10, 11, 12, 9]) &&
      decide (rtRingbufferDataLen rb = 4) && decide (rb.readMirror ≠ rb.writeMirror)) (by decide)
  simp only [Bool.and_eq_true, decide_eq_true_eq] at found
  obtain ⟨q, isQueue⟩ := ringbuffer_refines run
  have four : q.length = 4 := isQueue.dataLen.symm.trans found.1.2
  have content := isQueue.content
  rw [four, found.1.1] at content
  exact ⟨tr, rb, q, isQueue, content.symm, found.2⟩

end RtThread.RingBuffer
