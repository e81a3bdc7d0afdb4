import RtThread.Pipe

/-! The device interface of a pipe: rt_pipe_open, rt_pipe_close, rt_pipe_read and rt_pipe_write, below
rt_device_open and the other calls of device.c. Each holds the lock of the pipe. -/
namespace RtThread.PipeDevice
open RingBuffer Transition
open Pipe (rtRingbufferCreate)

structure State where
  bufsz : Nat
  refCount : Nat
  fifo : Option RtRingbuffer

/-- The loop of rt_pipe_write; `none` if it has not ended when the fuel has. -/
def writeLoop (pbuf : Nat → UInt8) (count : Nat) : Nat → RtRingbuffer → Nat → Option (RtRingbuffer × Nat)
  | fuel, fifo, writeBytes =>
    if writeBytes < count then
      let (fifo, len) := rtRingbufferPut fifo (fun i => pbuf (writeBytes + i)) (UInt16.ofNat (count - writeBytes))
      if len = 0 then some (fifo, writeBytes)
      else
        match fuel with
        | 0 => none
        | fuel + 1 => writeLoop pbuf count fuel fifo (writeBytes + len)
    else some (fifo, writeBytes)

/-- Each round moves at least one byte, so there is fuel enough. -/
def rtPipeWrite (fifo : RtRingbuffer) (pbuf : Nat → UInt8) (count : Nat) : Option (RtRingbuffer × Nat) :=
  if count = 0 then some (fifo, 0) else writeLoop pbuf count count fifo 0

/-- The loop of rt_pipe_read, with what it has put into the buffer. -/
def readLoop (count : Nat) : Nat → RtRingbuffer → List UInt8 → Nat → Option (RtRingbuffer × List UInt8 × Nat)
  | fuel, fifo, pbuf, readBytes =>
    if readBytes < count then
      let (fifo, data, len) := rtRingbufferGet fifo (UInt16.ofNat (count - readBytes))
      if len = 0 then some (fifo, pbuf, readBytes)
      else
        match fuel with
        | 0 => none
        | fuel + 1 => readLoop count fuel fifo (pbuf ++ data) (readBytes + len)
    else some (fifo, pbuf, readBytes)

def rtPipeRead (fifo : RtRingbuffer) (count : Nat) : Option (RtRingbuffer × List UInt8 × Nat) :=
  if count = 0 then some (fifo, [], 0) else readLoop count count fifo [] 0

/-- `other` is a call of the POSIX interface of the same pipe on its ring buffer. -/
inductive Action where
  | open (memory : Option (Nat → UInt8))
  | close
  | read (count : Nat)
  | write (pbuf : Nat → UInt8) (count : Nat)
  | other (a : RingBuffer.Action)

/-- rt_device_open; a failed assertion has no result. -/
def open_ (s : State) (memory : Option (Nat → UInt8)) : Option State :=
  match s.fifo with
  | some _ => some { s with refCount := s.refCount + 1 }
  | none =>
    (rtRingbufferCreate s.bufsz memory).map (fun fifo =>
      if fifo.isSome then { s with fifo := fifo, refCount := s.refCount + 1 } else s)

/-- rt_device_close calls rt_pipe_close with the last reference, when ref_count is 0 already. -/
def close (s : State) : State :=
  if s.refCount = 0 then s
  else
    let s := { s with refCount := s.refCount - 1 }
    if s.refCount ≠ 0 then s else { s with fifo := if s.refCount = 1 then none else s.fifo }

def step (s : State) : Action → Option (State × List Nat)
  | .open memory => (open_ s memory).map (fun s => (s, []))
  | .close => some (close s, [])
  | .read count =>
    if s.refCount = 0 then some (s, [0])
    else s.fifo.bind (fun fifo => (rtPipeRead fifo count).map (fun r => ({ s with fifo := some r.1 }, [r.2.2])))
  | .write pbuf count =>
    if s.refCount = 0 then some (s, [0])
    else s.fifo.bind (fun fifo => (rtPipeWrite fifo pbuf count).map (fun r => ({ s with fifo := some r.1 }, [r.2])))
  | .other a => some ({ s with fifo := s.fifo.map (fun fifo => (call fifo a).1) }, [])

/-- After rt_pipe_create. -/
def machine : Machine State Action Nat where
  start s := s.bufsz < 0xffff ∧ s.refCount = 0 ∧ s.fifo = none
  step := step

def stored (fifo : RtRingbuffer) : List UInt8 :=
  Ring.window fifo.bufferPtr fifo.bufferSize fifo.readIndex (rtRingbufferDataLen fifo)

def WritesMost (fifo : RtRingbuffer) (pbuf : Nat → UInt8) (count : Nat) : Prop :=
  ∃ fifo' n, rtPipeWrite fifo pbuf count = some (fifo', n) ∧ n = min count (rtRingbufferSpaceLen fifo) ∧
    stored fifo' = stored fifo ++ bytes pbuf 0 n

def ReadsMost (fifo : RtRingbuffer) (count : Nat) : Prop :=
  ∃ fifo' n, rtPipeRead fifo count = some (fifo', (stored fifo).take n, n) ∧ n = min count (stored fifo).length ∧
    stored fifo' = (stored fifo).drop n

variable {fifo : RtRingbuffer} {q : List UInt8} {s : State} {count n : Nat}

theorem Holds.stored (holds : Holds fifo q) : stored fifo = q := by
  unfold PipeDevice.stored
  rw [holds.dataLen]
  exact holds.content

theorem toNat_length (n : Nat) : (UInt16.ofNat n).toNat = n % 65536 := UInt16.toNat_ofNat'

theorem writeLoop_spec (holds : Holds fifo q) (pbuf : Nat → UInt8) (fuel : Nat) (enough : count ≤ n + fuel) :
    ∃ fifo' k, writeLoop pbuf count fuel fifo n = some (fifo', n + k) ∧
      k = min ((count - n) % 65536) (fifo.bufferSize - q.length) ∧ Holds fifo' (q ++ bytes pbuf n k) := by
  induction fuel generalizing fifo q n with
  | zero =>
    unfold writeLoop
    rw [if_neg (by lia)]
    exact ⟨fifo, 0, rfl, by lia, by simpa [bytes] using holds⟩
  | succ fuel ih =>
    unfold writeLoop
    split
    · obtain ⟨next, k, result, taken, holds'⟩ :=
        put_holds holds (fun i => pbuf (n + i)) (UInt16.ofNat (count - n))
      have size : (rtRingbufferPut fifo (fun i => pbuf (n + i)) (UInt16.ofNat (count - n))).1.bufferSize = _ :=
        call_size fifo (.put (fun i => pbuf (n + i)) (UInt16.ofNat (count - n)))
      have data : bytes (fun i => pbuf (n + i)) 0 k = bytes pbuf n k := by simp [bytes]
      rw [toNat_length] at taken
      rw [result] at size ⊢
      rw [data] at holds'
      dsimp only at size ⊢
      split
      · rename_i none
        subst none
        exact ⟨next, 0, rfl, taken, holds'⟩
      · obtain ⟨last, k', ended, rest, holds''⟩ := ih holds' (n := n + k) (by lia)
        rw [List.length_append, length_bytes, size] at rest
        obtain rfl : k' = 0 := by lia
        exact ⟨last, k, ended, taken, by simpa [bytes] using holds''⟩
    · exact ⟨fifo, 0, rfl, by lia, by simpa [bytes] using holds⟩

theorem readLoop_spec (holds : Holds fifo q) (pbuf : List UInt8) (fuel : Nat) (enough : count ≤ n + fuel) :
    ∃ fifo' k, readLoop count fuel fifo pbuf n = some (fifo', pbuf ++ q.take k, n + k) ∧
      k = min ((count - n) % 65536) q.length ∧ Holds fifo' (q.drop k) := by
  induction fuel generalizing fifo q pbuf n with
  | zero =>
    unfold readLoop
    rw [if_neg (by lia)]
    exact ⟨fifo, 0, by simp, by lia, by simpa using holds⟩
  | succ fuel ih =>
    unfold readLoop
    split
    · obtain ⟨next, k, result, taken, holds'⟩ := get_holds holds (UInt16.ofNat (count - n))
      rw [toNat_length] at taken
      rw [result]
      dsimp only
      split
      · rename_i none
        subst none
        exact ⟨next, 0, by simp, taken, holds'⟩
      · obtain ⟨last, k', ended, rest, holds''⟩ := ih holds' (pbuf ++ q.take k) (n := n + k) (by lia)
        rw [List.length_drop] at rest
        obtain rfl : k' = 0 := by lia
        exact ⟨last, k, by simpa using ended, taken, by simpa using holds''⟩
    · exact ⟨fifo, 0, by simp, by lia, by simpa using holds⟩

theorem write_holds (holds : Holds fifo q) (pbuf : Nat → UInt8) (count : Nat) :
    ∃ fifo' n, rtPipeWrite fifo pbuf count = some (fifo', n) ∧
      n = min (count % 65536) (fifo.bufferSize - q.length) ∧ Holds fifo' (q ++ bytes pbuf 0 n) := by
  unfold rtPipeWrite
  split
  · rename_i none
    exact ⟨fifo, 0, rfl, by lia, by simpa [bytes] using holds⟩
  · obtain ⟨fifo', n, ended, rest, holds'⟩ := writeLoop_spec holds pbuf count (show count ≤ 0 + count by lia)
    exact ⟨fifo', n, by simpa using ended, rest, holds'⟩

theorem read_holds (holds : Holds fifo q) (count : Nat) :
    ∃ fifo' n, rtPipeRead fifo count = some (fifo', q.take n, n) ∧ n = min (count % 65536) q.length ∧
      Holds fifo' (q.drop n) := by
  unfold rtPipeRead
  split
  · rename_i none
    exact ⟨fifo, 0, by simp, by lia, by simpa using holds⟩
  · obtain ⟨fifo', n, ended, rest, holds'⟩ := readLoop_spec holds [] count (show count ≤ 0 + count by lia)
    exact ⟨fifo', n, by simpa using ended, rest, holds'⟩

/-- The pipe has no ring buffer, or one that holds some bytes. -/
def Inv (s : State) : Prop := ∀ fifo, s.fifo = some fifo → ∃ q, Holds fifo q

theorem create_holds {size : Nat} {memory : Option (Nat → UInt8)}
    (created : rtRingbufferCreate size memory = some (some fifo)) : Holds fifo [] := by
  unfold rtRingbufferCreate at created
  split at created
  · cases created
  · split at created
    · cases created
    · split at created
      · cases created
      · rename_i nonzero
        split at created
        · rename_i small
          cases created
          refine start_holds ?_ small
          unfold rtAlignSize
          unfold rtAlignDown rtAlignSize at nonzero ⊢
          lia
        · cases created

theorem open_inv {memory : Option (Nat → UInt8)} {t : State} (inv : Inv s) (opened : open_ s memory = some t) :
    Inv t := by
  unfold open_ at opened
  split at opened
  · cases Option.some.inj opened
    exact inv
  · obtain ⟨made, created, same⟩ := Option.map_eq_some_iff.mp opened
    split at same
    · subst same
      intro fifo stored
      dsimp only at stored
      exact ⟨[], create_holds (stored ▸ created)⟩
    · subst same
      exact inv

theorem close_inv (inv : Inv s) : Inv (close s) := by
  unfold close
  dsimp only
  split
  · exact inv
  · split
    · exact inv
    · intro fifo stored
      dsimp only at stored
      split at stored
      · cases stored
      · exact inv fifo stored

theorem step_inv {a : Action} {s' : State} {es : List Nat} (inv : Inv s) (taken : step s a = some (s', es)) :
    Inv s' := by
  cases a with
  | «open» memory =>
    obtain ⟨t, opened, same⟩ := Option.map_eq_some_iff.mp taken
    cases same
    exact open_inv inv opened
  | close =>
    cases Option.some.inj taken
    exact close_inv inv
  | read count =>
    simp only [step] at taken
    split at taken
    · cases Option.some.inj taken
      exact inv
    · obtain ⟨fifo, here, moved⟩ := Option.bind_eq_some_iff.mp taken
      obtain ⟨q, holds⟩ := inv fifo here
      obtain ⟨next, n, result, _, holds'⟩ := read_holds holds count
      rw [result] at moved
      cases Option.some.inj moved
      intro fifo' stored'
      cases Option.some.inj stored'
      exact ⟨_, holds'⟩
  | write pbuf count =>
    simp only [step] at taken
    split at taken
    · cases Option.some.inj taken
      exact inv
    · obtain ⟨fifo, here, moved⟩ := Option.bind_eq_some_iff.mp taken
      obtain ⟨q, holds⟩ := inv fifo here
      obtain ⟨next, n, result, _, holds'⟩ := write_holds holds pbuf count
      rw [result] at moved
      cases Option.some.inj moved
      intro fifo' stored'
      cases Option.some.inj stored'
      exact ⟨_, holds'⟩
  | other a =>
    cases Option.some.inj taken
    intro fifo' stored'
    obtain ⟨fifo, here, rfl⟩ := Option.map_eq_some_iff.mp stored'
    obtain ⟨q, holds⟩ := inv fifo here
    obtain ⟨q', _, holds'⟩ := call_holds holds a
    exact ⟨q', holds'⟩

theorem run_inv {tr : List Nat} (run : Run machine tr s) : Inv s := by
  refine run.always (I := Inv) ?_ (fun _ _ _ _ inv taken => step_inv inv taken)
  rintro s ⟨_, _, closed⟩ fifo here
  rw [closed] at here
  cases here

theorem writes_iff (holds : Holds fifo q) (pbuf : Nat → UInt8) (count : Nat) :
    WritesMost fifo pbuf count ↔ count < 65536 ∨ rtRingbufferSpaceLen fifo ≤ count % 65536 := by
  obtain ⟨fifo', n, result, rest, holds'⟩ := write_holds holds pbuf count
  rw [← holds.spaceLen] at rest
  constructor
  · rintro ⟨_, k, result', most, _⟩
    cases Option.some.inj (result.symm.trans result')
    lia
  · intro small
    refine ⟨fifo', n, result, by lia, ?_⟩
    rw [Holds.stored holds', Holds.stored holds]

theorem reads_iff (holds : Holds fifo q) (count : Nat) :
    ReadsMost fifo count ↔ count < 65536 ∨ rtRingbufferDataLen fifo ≤ count % 65536 := by
  obtain ⟨fifo', n, result, rest, holds'⟩ := read_holds holds count
  unfold ReadsMost
  rw [Holds.stored holds, holds.dataLen]
  constructor
  · rintro ⟨_, k, result', most, _⟩
    have same := congrArg (fun r => r.2.2) (Option.some.inj (result.symm.trans result'))
    dsimp only at same
    lia
  · intro small
    exact ⟨fifo', n, result, by lia, Holds.stored holds'⟩

/-- A transfer is maximal unless its count has more than 16 bits and the low 16 of them are less
than what could be moved. -/
theorem pipe_transfers {tr : List Nat} (run : Run machine tr s) (opened : s.fifo = some fifo) (count : Nat) :
    (∀ pbuf, WritesMost fifo pbuf count ↔ count < 65536 ∨ rtRingbufferSpaceLen fifo ≤ count % 65536) ∧
      (ReadsMost fifo count ↔ count < 65536 ∨ rtRingbufferDataLen fifo ≤ count % 65536) := by
  obtain ⟨q, holds⟩ := run_inv run fifo opened
  exact ⟨fun pbuf => writes_iff holds pbuf count, reads_iff holds count⟩

def fresh : RtRingbuffer := rtRingbufferInit (fun _ => 0) 8

theorem fresh_run : Run machine [] ⟨8, 1, some fresh⟩ := by
  have start : machine.start ⟨8, 0, none⟩ := ⟨by decide, rfl, rfl⟩
  exact (Run.start start).step (a := .open (some (fun _ => 0))) rfl

theorem pipe_transfers_short : WritesMost fresh (fun i => UInt8.ofNat i) 100 :=
  ((pipe_transfers fresh_run rfl 100).1 _).mpr (by decide)

/-- A write of 65536 bytes to an empty pipe moves none. -/
theorem pipe_write_none : ∃ s, Run machine [] s ∧ s.fifo = some fresh ∧ rtRingbufferSpaceLen fresh = 8 ∧
    (rtPipeWrite fresh (fun _ => 1) 65536).map Prod.snd = some 0 ∧ ¬ WritesMost fresh (fun _ => 1) 65536 := by
  have none : (rtPipeWrite fresh (fun _ => 1) 65536).map Prod.snd = some 0 := by decide
  refine ⟨_, fresh_run, rfl, by decide, none, ?_⟩
  rintro ⟨_, n, result, most, _⟩
  rw [result] at none
  have eight : rtRingbufferSpaceLen fresh = 8 := by decide
  have zero := Option.some.inj none
  dsimp only at zero
  lia

end RtThread.PipeDevice
