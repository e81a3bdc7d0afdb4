import RtThread.RingBuffer
import Mathlib.Data.List.DropRight

/-! rt_ringbuffer_put_force, in runs with all calls of the ring buffer. It moves the reader
to where the writer has come to, and turns both mirrors if the copy crosses the end of the
array; the reader itself may not have crossed it. -/
namespace RtThread.RingBuffer
open Transition

def rtRingbufferPutForce (rb : RtRingbuffer) (ptr : Nat → UInt8) (length : UInt16) : RtRingbuffer × Nat :=
  let spaceLength := rtRingbufferSpaceLen rb % 2 ^ 16
  let ptr := if rb.bufferSize < length.toNat then fun i => ptr (length.toNat - rb.bufferSize + i) else ptr
  let length := if rb.bufferSize < length.toNat then rb.bufferSize else length.toNat
  if length + rb.writeIndex < rb.bufferSize then
    let rb := { rb with
      bufferPtr := memcpy rb.bufferPtr rb.writeIndex ptr length
      writeIndex := index15 (rb.writeIndex + length) }
    if spaceLength < length then ({ rb with readIndex := rb.writeIndex }, length) else (rb, length)
  else
    let head := rb.bufferSize - rb.writeIndex
    let rb := { rb with
      bufferPtr := memcpy (memcpy rb.bufferPtr rb.writeIndex ptr head) 0
        (fun i => ptr (head + i)) (length - head)
      writeMirror := !rb.writeMirror
      writeIndex := index15 (length - head) }
    if spaceLength < length then
      ({ rb with readMirror := !rb.readMirror, readIndex := rb.writeIndex }, length)
    else (rb, length)

inductive ForceAction where
  | call (a : Action)
  | putForce (ptr : Nat → UInt8) (length : UInt16)

inductive ForceEvent where
  | call (e : Event)
  | putForce (ptr : Nat → UInt8) (length : UInt16) (ret : Nat)

def forceStep (rb : RtRingbuffer) : ForceAction → RtRingbuffer × ForceEvent
  | .call a => ((call rb a).1, .call (call rb a).2)
  | .putForce ptr length =>
    let r := rtRingbufferPutForce rb ptr length
    (r.1, .putForce ptr length r.2)

def forceMachine : Machine RtRingbuffer ForceAction ForceEvent where
  start := machine.start
  step rb a := some ((forceStep rb a).1, [(forceStep rb a).2])

/-- What the buffer holds, oldest byte first. -/
def RtRingbuffer.content (rb : RtRingbuffer) : List UInt8 :=
  Ring.window rb.bufferPtr rb.bufferSize rb.readIndex (rtRingbufferDataLen rb)

def newest (n : Nat) (q : List UInt8) : List UInt8 := q.rtake n

/-- Nothing is overwritten, or the writer is once round ahead of the reader. -/
def KeepsNewest (rb : RtRingbuffer) (length : UInt16) : Prop :=
  rtRingbufferDataLen rb + min length.toNat rb.bufferSize ≤ rb.bufferSize ∨ rb.writeMirror ≠ rb.readMirror

instance (rb : RtRingbuffer) (length : UInt16) : Decidable (KeepsNewest rb length) :=
  inferInstanceAs (Decidable (_ ∨ _))

variable {rb : RtRingbuffer} {q : List UInt8} {tr : List ForceEvent}

theorem Holds.content_eq (holds : Holds rb q) : rb.content = q := by
  rw [RtRingbuffer.content, holds.dataLen, holds.content]

/-- The copy of the last `k` bytes, with the place the writer gets to. -/
structure Copied (rb : RtRingbuffer) (ptr : Nat → UInt8) (k : Nat) (r : RtRingbuffer) : Prop where
  moved : advance rb.bufferSize rb.writeMirror rb.writeIndex k = (r.writeMirror, r.writeIndex)
  size : r.bufferSize = rb.bufferSize
  pool : ∀ i, i < rb.bufferSize → r.bufferPtr i =
    if rb.writeIndex ≤ i ∧ i < rb.writeIndex + k then ptr (i - rb.writeIndex)
    else if i + rb.bufferSize < rb.writeIndex + k then ptr (i + rb.bufferSize - rb.writeIndex)
    else rb.bufferPtr i

/-- The reader stays, or is put where the writer has come to. -/
inductive Reader (rb : RtRingbuffer) (k : Nat) (r : RtRingbuffer) : Prop where
  | stays : rtRingbufferDataLen rb + k ≤ rb.bufferSize → r.readMirror = rb.readMirror →
      r.readIndex = rb.readIndex → Reader rb k r
  | forced : rb.bufferSize < rtRingbufferDataLen rb + k → r.readIndex = r.writeIndex →
      r.readMirror = (if k + rb.writeIndex < rb.bufferSize then rb.readMirror else !rb.readMirror) → Reader rb k r

theorem putForce_cases (holds : Holds rb q) (ptr : Nat → UInt8) (length : UInt16) :
    ∃ k src, k = min length.toNat rb.bufferSize ∧ src = (fun i => ptr (length.toNat - k + i)) ∧
      Copied rb src k (rtRingbufferPutForce rb ptr length).1 ∧
      Reader rb k (rtRingbufferPutForce rb ptr length).1 := by
  have fits := holds.fits
  have write := holds.write
  have bound := holds.size
  have space : rtRingbufferSpaceLen rb % 2 ^ 16 = rb.bufferSize - q.length := by
    rw [holds.spaceLen]
    exact Nat.mod_eq_of_lt (by lia)
  obtain ⟨k, isK⟩ : ∃ k, k = min length.toNat rb.bufferSize := ⟨_, rfl⟩
  obtain ⟨src, isSrc⟩ : ∃ src : Nat → UInt8, src = fun i => ptr (length.toNat - k + i) := ⟨_, rfl⟩
  have short : (if rb.bufferSize < length.toNat then rb.bufferSize else length.toNat) = k := by
    split <;> lia
  have from_ : (if rb.bufferSize < length.toNat then fun i => ptr (length.toNat - rb.bufferSize + i) else ptr) =
      src := by
    rw [isSrc]
    split
    · rw [show k = rb.bufferSize by lia]
    · rw [show length.toNat - k = 0 by lia]
      simp
  refine ⟨k, src, isK, isSrc, ?_⟩
  simp only [rtRingbufferPutForce, space, short, from_]
  split
  · rename_i before
    have index : index15 (rb.writeIndex + k) = rb.writeIndex + k := index15_small (by lia)
    have moved : advance rb.bufferSize rb.writeMirror rb.writeIndex k = (rb.writeMirror, rb.writeIndex + k) := by
      rw [advance, if_pos before]
    have pool : ∀ i, i < rb.bufferSize → memcpy rb.bufferPtr rb.writeIndex src k i =
        if rb.writeIndex ≤ i ∧ i < rb.writeIndex + k then src (i - rb.writeIndex)
        else if i + rb.bufferSize < rb.writeIndex + k then src (i + rb.bufferSize - rb.writeIndex)
        else rb.bufferPtr i := by
      intro i _
      simp only [memcpy]
      split
      · rfl
      · rw [if_neg (by lia)]
    simp only [index]
    split
    · exact ⟨⟨moved, rfl, pool⟩, .forced (by rw [holds.dataLen]; lia) rfl (by rw [if_pos before])⟩
    · exact ⟨⟨moved, rfl, pool⟩, .stays (by rw [holds.dataLen]; lia) rfl rfl⟩
  · rename_i across
    have index : index15 (k - (rb.bufferSize - rb.writeIndex)) = rb.writeIndex + k - rb.bufferSize := by
      rw [index15_small (by lia)]
      lia
    have moved : advance rb.bufferSize rb.writeMirror rb.writeIndex k =
        (!rb.writeMirror, rb.writeIndex + k - rb.bufferSize) := by
      rw [advance, if_neg across]
    have pool : ∀ i, i < rb.bufferSize →
        memcpy (memcpy rb.bufferPtr rb.writeIndex src (rb.bufferSize - rb.writeIndex)) 0
          (fun i => src (rb.bufferSize - rb.writeIndex + i)) (k - (rb.bufferSize - rb.writeIndex)) i =
        if rb.writeIndex ≤ i ∧ i < rb.writeIndex + k then src (i - rb.writeIndex)
        else if i + rb.bufferSize < rb.writeIndex + k then src (i + rb.bufferSize - rb.writeIndex)
        else rb.bufferPtr i := by
      intro i inside
      simp only [memcpy]
      split
      · rw [if_neg (by lia), if_pos (by lia)]
        congr 1
        lia
      · split
        · rw [if_pos (by lia)]
        · rw [if_neg (by lia), if_neg (by lia)]
    simp only [index]
    split
    · exact ⟨⟨moved, rfl, pool⟩, .forced (by rw [holds.dataLen]; lia) rfl (by rw [if_neg across])⟩
    · exact ⟨⟨moved, rfl, pool⟩, .stays (by rw [holds.dataLen]; lia) rfl rfl⟩

theorem newest_append (ptr : Nat → UInt8) {n m k : Nat} (isK : k = min m n) :
    newest (min n (q.length + m)) (q ++ bytes ptr 0 m) =
      q.drop (q.length + k - n) ++ bytes (fun i => ptr (m - k + i)) 0 k := by
  have parts : bytes ptr 0 m = bytes ptr 0 (m - k) ++ bytes (fun i => ptr (m - k + i)) 0 k := by
    conv => lhs; rw [show m = (m - k) + k by lia]
    simp [bytes, List.range_add]
  have old : q.drop (q.length + m - min n (q.length + m)) = q.drop (q.length + k - n) := by
    by_cases short : m ≤ n
    · congr 1
      lia
    · rw [List.drop_eq_nil_of_le (by lia), List.drop_eq_nil_of_le (by lia)]
  have rest : q.length + m - min n (q.length + m) - q.length = m - k := by lia
  have gone : (bytes ptr 0 (m - k)).drop (m - k) = [] := List.drop_eq_nil_of_le (by rw [length_bytes])
  rw [newest, List.rtake, List.length_append, length_bytes, List.drop_append, old, rest, parts,
    List.drop_append, gone, length_bytes, Nat.sub_self]
  rfl

/-- Where the reader is put is where the old bytes that are left begin, and its mirror is right
if the writer was in the other one. -/
theorem forced_drop {k : Nat} {r : RtRingbuffer} (holds : Holds rb q)
    (moved : advance rb.bufferSize rb.writeMirror rb.writeIndex k = (r.writeMirror, r.writeIndex))
    (beyond : rb.bufferSize < q.length + k) (index : r.readIndex = r.writeIndex)
    (mirror : r.readMirror = (if k + rb.writeIndex < rb.bufferSize then rb.readMirror else !rb.readMirror)) :
    (rb.writeMirror ≠ rb.readMirror → advance rb.bufferSize rb.readMirror rb.readIndex
      (q.length + k - rb.bufferSize) = (r.readMirror, r.readIndex)) ∧
    (rb.writeMirror = rb.readMirror → r.writeMirror = r.readMirror) := by
  have ends := holds.ends
  have read := holds.read
  have write := holds.write
  have fits := holds.fits
  constructor
  · intro other
    rw [if_neg other] at ends
    simp only [advance] at moved ⊢
    split at moved <;> rename_i crossing <;> simp only [Prod.mk.injEq] at moved <;> obtain ⟨_, at_⟩ := moved
    · rw [if_pos crossing] at mirror
      rw [if_pos (by lia), mirror, index]
      congr 1
      lia
    · rw [if_neg crossing] at mirror
      rw [if_neg (by lia), mirror, index]
      congr 1
      lia
  · intro same
    rw [if_pos same] at ends
    simp only [advance] at moved
    rw [if_neg (by lia)] at moved mirror
    simp only [Prod.mk.injEq] at moved
    rw [← moved.1, mirror, same]

/-- The copy is right behind the bytes from which the reader then starts. -/
theorem copied_holds {k : Nat} {src : Nat → UInt8} {r : RtRingbuffer} (holds : Holds rb q)
    (copied : Copied rb src k r) {drop : Nat} (part : drop ≤ q.length) (room : q.length - drop + k ≤ rb.bufferSize)
    (reader : advance rb.bufferSize rb.readMirror rb.readIndex drop = (r.readMirror, r.readIndex)) :
    Holds r (q.drop drop ++ bytes src 0 k) := by
  have size := copied.size
  have dropped := holds.drop (r := { rb with readMirror := r.readMirror, readIndex := r.readIndex }) part reader rfl
  refine dropped.append (by simpa using room) copied.moved ?_ copied.pool
  cases r
  simp_all

theorem empty_holds (holds : Holds rb q) {r : RtRingbuffer} (size : r.bufferSize = rb.bufferSize)
    (inside : r.writeIndex < rb.bufferSize) (index : r.readIndex = r.writeIndex)
    (mirror : r.writeMirror = r.readMirror) : Holds r [] := by
  have bound := holds.size
  refine ⟨?_, ?_, ?_, Nat.zero_le _, ?_, rfl⟩
  · rw [size]
    exact bound
  · rw [index, size]
    exact inside
  · rw [size]
    exact inside
  · rw [if_pos mirror, index]
    simp

theorem advance_inside {size i k : Nat} {b : Bool} (inside : i < size) (once : k ≤ size) :
    (advance size b i k).2 < size := by
  rw [advance]
  split
  · rename_i before
    rwa [Nat.add_comm] at before
  · change i + k - size < size
    lia

theorem putForce_holds (holds : Holds rb q) (ptr : Nat → UInt8) (length : UInt16) :
    Holds (rtRingbufferPutForce rb ptr length).1 (if KeepsNewest rb length then
      newest (min rb.bufferSize (q.length + length.toNat)) (q ++ bytes ptr 0 length.toNat) else []) := by
  obtain ⟨k, src, isK, isSrc, copied, reader⟩ := putForce_cases holds ptr length
  generalize (rtRingbufferPutForce rb ptr length).1 = r at copied reader
  have fits := holds.fits
  have read := holds.read
  have data := holds.dataLen
  have keeps : KeepsNewest rb length ↔ q.length + k ≤ rb.bufferSize ∨ rb.writeMirror ≠ rb.readMirror := by
    rw [KeepsNewest, data, ← isK]
  rw [newest_append ptr isK, ← isSrc]
  cases reader with
  | stays room mirror index =>
    rw [data] at room
    rw [if_pos (keeps.mpr (Or.inl room))]
    refine copied_holds holds copied (by lia) (by lia) ?_
    rw [show q.length + k - rb.bufferSize = 0 by lia, advance, if_pos (by lia), mirror, index]
    rfl
  | forced beyond index mirror =>
    rw [data] at beyond
    obtain ⟨other, same⟩ := forced_drop holds copied.moved beyond index mirror
    by_cases differ : rb.writeMirror = rb.readMirror
    · rw [if_neg (fun kept => (keeps.mp kept).elim (by lia) (fun apart => apart differ))]
      have inside := advance_inside (b := rb.writeMirror) holds.write (show k ≤ rb.bufferSize by lia)
      rw [copied.moved] at inside
      exact empty_holds holds copied.size inside index (same differ)
    · rw [if_pos (keeps.mpr (Or.inr differ))]
      exact copied_holds holds copied (by lia) (by lia) (other differ)

theorem run_holds (run : Run forceMachine tr rb) : ∃ q, Holds rb q := by
  refine run.invariant (I := fun _ rb => ∃ q, Holds rb q) ?_ ?_
  · rintro _ ⟨pool, size, word, small, rfl⟩
    exact ⟨[], start_holds word small⟩
  · rintro tr rb a rb' es ⟨q, holds⟩ taken
    cases Option.some.inj taken
    cases a with
    | call a =>
      obtain ⟨q', _, after⟩ := call_holds holds a
      exact ⟨q', after⟩
    | putForce ptr length => exact ⟨_, putForce_holds holds ptr length⟩

/-- The bytes and the indices are always in order; the newest bytes are kept unless bytes are
overwritten while both indices are in one mirror. -/
theorem put_force_keeps_newest (run : Run forceMachine tr rb) (ptr : Nat → UInt8) (length : UInt16) :
    Holds rb rb.content ∧
      Holds (rtRingbufferPutForce rb ptr length).1 (rtRingbufferPutForce rb ptr length).1.content ∧
      ((rtRingbufferPutForce rb ptr length).1.content =
        newest (min rb.bufferSize (rb.content.length + length.toNat)) (rb.content ++ bytes ptr 0 length.toNat) ↔
          KeepsNewest rb length) := by
  obtain ⟨q, holds⟩ := run_holds run
  have after := putForce_holds holds ptr length
  rw [holds.content_eq, after.content_eq]
  refine ⟨holds, after, ?_⟩
  constructor
  · intro kept
    by_contra lost
    rw [if_neg lost] at kept
    have count := congrArg List.length kept
    have fits := holds.fits
    have read := holds.read
    have beyond : ¬ q.length + min length.toNat rb.bufferSize ≤ rb.bufferSize :=
      fun room => lost (Or.inl (holds.dataLen.symm ▸ room))
    rw [newest_append ptr rfl] at count
    simp only [List.length_nil, List.length_append, List.length_drop, length_bytes] at count
    lia
  · intro keeps
    rw [if_pos keeps]

/-- Two wrapping writes, the second one forced. -/
theorem put_force_keeps_newest_full : ∃ tr rb, Run forceMachine tr rb ∧ rb.content = [3, 4, 5, 6] ∧
    (rtRingbufferPutForce rb (fun i => 7 + i.toUInt8) 3).1.content = [6, 7, 8, 9] := by
  obtain ⟨tr, rb, run, found⟩ := Run.reaches (M := forceMachine) (s := rtRingbufferInit (fun _ => 0) 4)
    ⟨fun _ => 0, 4, by decide, by decide, rfl⟩
    [.call (.put (fun i => 1 + i.toUInt8) 4), .call (.get 2), .call (.put (fun i => 5 + i.toUInt8) 2)]
    (fun rb => decide (rb.content = [3, 4, 5, 6] ∧ KeepsNewest rb 3 ∧ rb.bufferSize = 4)) (by decide +kernel)
  obtain ⟨content, keeps, size⟩ := of_decide_eq_true found
  have kept := (put_force_keeps_newest run (fun i => 7 + i.toUInt8) 3).2.2.mpr keeps
  refine ⟨tr, rb, run, content, ?_⟩
  rw [kept, content, size]
  decide

/-- Two bytes are in the buffer, and two are free: three new ones leave it empty. -/
theorem put_force_loses_all : ∃ tr rb, Run forceMachine tr rb ∧ rb.content = [1, 2] ∧ rb.bufferSize = 4 ∧
    (rtRingbufferPutForce rb (fun i => 3 + i.toUInt8) 3).1.content = [] := by
  obtain ⟨tr, rb, run, found⟩ := Run.reaches (M := forceMachine) (s := rtRingbufferInit (fun _ => 0) 4)
    ⟨fun _ => 0, 4, by decide, by decide, rfl⟩ [.call (.put (fun i => 1 + i.toUInt8) 2)]
    (fun rb => decide (rb.content = [1, 2] ∧ rb.bufferSize = 4 ∧
      (rtRingbufferPutForce rb (fun i => 3 + i.toUInt8) 3).1.content = [])) (by decide +kernel)
  exact ⟨tr, rb, run, of_decide_eq_true found⟩

end RtThread.RingBuffer
