import Mathlib.Data.List.Count
import Mathlib.Data.List.Induction
import RtThread.RingBuffer
import RtThread.Run

/-! POSIX pipes: the open, close, read and write of pipe.c by any threads, each atomic between its
releases of the lock. A blocked call may look again at any time, which leaves out the wait queues.
DFS, which is no part of the repository, hands out at most `fdMax` (DFS_FD_MAX) descriptors. -/
namespace RtThread.Pipe
open RingBuffer Transition

/-- `fd->flags & O_ACCMODE`. -/
inductive Mode where
  | rdonly
  | wronly
  | rdwr
  | neither
  deriving DecidableEq

def Mode.reads : Mode → Bool
  | .rdonly | .rdwr => true
  | _ => false

def Mode.writes : Mode → Bool
  | .wronly | .rdwr => true
  | _ => false

structure Reader where
  count : Nat
  nonblock : Bool

/-- `rest` is what has not been accepted, of `ret` bytes more. -/
structure Writer where
  rest : List UInt8
  ret : Nat
  nonblock : Bool

/-- `fds` are the open descriptors; the pipe only counts them. `reading` and `writing` are the calls
that are to take the lock, for the first time or again. -/
structure State where
  bufsz : Nat
  isNamed : Bool
  deleted : Bool
  fifo : Option RtRingbuffer
  readers : UInt8
  writers : UInt8
  refCount : UInt8
  fds : List Mode
  reading : Nat → Option Reader
  writing : Nat → Option Writer

inductive Result where
  | bytes (n : Nat)
  | eagain
  | epipe
  deriving DecidableEq

/-- `eof` has the descriptors open at the test of `writers`. -/
inductive Event where
  | created
  | opened (mode : Mode)
  | enomem
  | destroyed
  | closed (mode : Mode)
  | accepted (th : Nat) (data : List UInt8)
  | wrote (th : Nat) (result : Result)
  | returned (th : Nat) (data : List UInt8)
  | again (th : Nat)
  | eof (th : Nat) (fds : List Mode)
  deriving DecidableEq

inductive Action where
  | open (mode : Mode) (memory : Option (Nat → UInt8))
  | close (mode : Mode)
  | read (th : Nat) (count : Nat) (nonblock : Bool)
  | readTurn (th : Nat)
  | write (th : Nat) (data : List UInt8) (nonblock : Bool)
  | writeTurn (th : Nat)

/-- `memory` is what rt_malloc gives; the inner `none` is RT_NULL, the outer a failed assertion. -/
def rtRingbufferCreate (size : Nat) (memory : Option (Nat → UInt8)) : Option (Option RtRingbuffer) :=
  if size = 0 then none
  else
    match memory with
    | none => some none
    | some pool =>
      if rtAlignDown size = 0 then some none
      else if rtAlignDown size < 2 ^ 15 then some (some (rtRingbufferInit pool (rtAlignDown size)))
      else none

def Mode.reader (mode : Mode) : UInt8 := if mode.reads then 1 else 0
def Mode.writer (mode : Mode) : UInt8 := if mode.writes then 1 else 0

def pipeFopsOpen (fdMax : Nat) (s : State) (mode : Mode) (memory : Option (Nat → UInt8)) :
    Option (State × List Event) :=
  if s.deleted ∨ fdMax ≤ s.fds.length then none
  else
    let created := if s.refCount = 0 then rtRingbufferCreate s.bufsz memory else some s.fifo
    created.map (fun fifo =>
      if s.refCount = 0 ∧ fifo.isNone then ({ s with fifo := none }, [.enomem])
      else
        ({ s with
          fifo := fifo
          readers := s.readers + mode.reader
          writers := s.writers + mode.writer
          refCount := s.refCount + 1
          fds := mode :: s.fds },
          if s.refCount = 0 then [.created, .opened mode] else [.opened mode]))

/-- An unnamed pipe is deleted with its last descriptor. -/
def pipeFopsClose (s : State) (mode : Mode) : Option (State × List Event) :=
  if mode ∉ s.fds then none
  else
    some ({ s with
      readers := s.readers - mode.reader
      writers := s.writers - mode.writer
      fifo := if s.refCount = 1 then none else s.fifo
      refCount := s.refCount - 1
      fds := s.fds.erase mode
      deleted := decide (s.refCount - 1 = 0) && !s.isNamed },
      if s.refCount = 1 then [.closed mode, .destroyed] else [.closed mode])

/-- The test before the lock is taken. -/
def pipeFopsRead (s : State) (th count : Nat) (nonblock : Bool) : Option (State × List Event) :=
  if s.fds = [] ∨ (s.reading th).isSome then none
  else if s.writers = 0 then some (s, [.eof th s.fds])
  else some ({ s with reading := Function.update s.reading th (some ⟨count, nonblock⟩) }, [])

def readTurn (s : State) (th : Nat) : Option (State × List Event) :=
  (s.reading th).bind (fun r =>
    let left := { s with reading := Function.update s.reading th none }
    if s.writers = 0 then some (left, [.eof th s.fds])
    else
      s.fifo.map (fun rb =>
        let (rb, data, len) := rtRingbufferGet rb (UInt16.ofNat r.count)
        if 0 < len then ({ left with fifo := some rb }, [.returned th data])
        else if r.nonblock then (left, [.again th])
        else (s, [])))

/-- The tests before the lock is taken. -/
def pipeFopsWrite (s : State) (th : Nat) (data : List UInt8) (nonblock : Bool) : Option (State × List Event) :=
  if s.fds = [] ∨ (s.writing th).isSome then none
  else if s.readers = 0 then some (s, [.wrote th .epipe])
  else if data = [] then some (s, [.wrote th (.bytes 0)])
  else some ({ s with writing := Function.update s.writing th (some ⟨data, 0, nonblock⟩) }, [])

def writeTurn (s : State) (th : Nat) : Option (State × List Event) :=
  (s.writing th).bind (fun w =>
    let left := { s with writing := Function.update s.writing th none }
    if s.readers = 0 then some (left, [.wrote th (if w.ret = 0 then .epipe else .bytes w.ret)])
    else
      s.fifo.map (fun rb =>
        let (rb, len) := rtRingbufferPut rb (fun i => w.rest.getD i 0) (UInt16.ofNat w.rest.length)
        let ret := w.ret + len
        let rest := w.rest.drop len
        let put := [Event.accepted th (w.rest.take len)]
        if rest = [] then ({ left with fifo := some rb }, put ++ [.wrote th (.bytes ret)])
        else if w.nonblock then
          ({ left with fifo := some rb }, put ++ [.wrote th (if ret = 0 then .eagain else .bytes ret)])
        else
          ({ s with fifo := some rb, writing := Function.update s.writing th (some ⟨rest, ret, w.nonblock⟩) },
            put)))

def step (fdMax : Nat) (s : State) : Action → Option (State × List Event)
  | .open mode memory => pipeFopsOpen fdMax s mode memory
  | .close mode => pipeFopsClose s mode
  | .read th count nonblock => pipeFopsRead s th count nonblock
  | .readTurn th => readTurn s th
  | .write th data nonblock => pipeFopsWrite s th data nonblock
  | .writeTurn th => writeTurn s th

/-- After rt_pipe_create. -/
structure Start (s : State) : Prop where
  deleted : s.deleted = false
  fifo : s.fifo = none
  readers : s.readers = 0
  writers : s.writers = 0
  refCount : s.refCount = 0
  fds : s.fds = []
  reading : ∀ th, s.reading th = none
  writing : ∀ th, s.writing th = none

def machine (fdMax : Nat) : Machine State Action Event where
  start := Start
  step := step fdMax

/-- What has been accepted and not been read, and how much of each write. -/
structure Ledger where
  unread : List UInt8
  taken : Nat → Nat

def Result.count : Result → Nat
  | .bytes n => n
  | _ => 0

/-- `none` for a read that returns other than the oldest bytes, and for a write that returns another
number than has been accepted of it. -/
def Event.apply (l : Ledger) : Event → Option Ledger
  | .created => some { l with unread := [] }
  | .accepted th data =>
    some ⟨l.unread ++ data, Function.update l.taken th (l.taken th + data.length)⟩
  | .wrote th result =>
    if l.taken th = result.count then some { l with taken := Function.update l.taken th 0 } else none
  | .returned _ data =>
    if data <+: l.unread then some { l with unread := l.unread.drop data.length } else none
  | _ => some l

def replay (tr : List Event) : Option Ledger := tr.foldlM (fun l e => e.apply l) ⟨[], fun _ => 0⟩

def Event.bytesIn : Event → List UInt8
  | .accepted _ data => data
  | _ => []

def Event.bytesOut : Event → List UInt8
  | .returned _ data => data
  | _ => []

def accepted (tr : List Event) : List UInt8 := tr.flatMap Event.bytesIn
def returned (tr : List Event) : List UInt8 := tr.flatMap Event.bytesOut

/-- What has come since the FIFO was created last. -/
def sinceCreated (tr : List Event) : List Event :=
  tr.foldl (fun since e => if e = .created then [] else since ++ [e]) []

variable {fdMax : Nat} {s s' : State} {tr es : List Event} {a : Action} {l l' : Ledger} {th : Nat}

structure Inv (fdMax : Nat) (tr : List Event) (s : State) : Prop where
  readers : s.readers.toNat = s.fds.countP Mode.reads
  writers : s.writers.toNat = s.fds.countP Mode.writes
  refCount : s.refCount.toNat = s.fds.length
  few : s.fds.length ≤ fdMax
  fifo : s.fds ≠ [] → s.fifo.isSome = true
  ledger : ∃ l, replay tr = some l ∧ (∀ rb, s.fifo = some rb → Holds rb l.unread) ∧
    ∀ th, l.taken th = ((s.writing th).map Writer.ret).getD 0
  eof : ∀ th fds, .eof th fds ∈ tr → ∀ mode ∈ fds, mode.writes = false

theorem replay_append (shown : replay tr = some l) (es : List Event) :
    replay (tr ++ es) = es.foldlM (fun l e => e.apply l) l :=
  replay_on shown es

theorem start_inv (start : Start s) : Inv fdMax [] s := by
  refine ⟨by simp [start.readers, start.fds], by simp [start.writers, start.fds],
    by simp [start.refCount, start.fds], by simp [start.fds], by simp [start.fds], ?_, by simp⟩
  refine ⟨⟨[], fun _ => 0⟩, rfl, ?_, by simp [start.writing]⟩
  intro rb found
  rw [start.fifo] at found
  cases found

theorem ledger_flow (shown : replay tr = some l) :
    accepted (sinceCreated tr) = returned (sinceCreated tr) ++ l.unread := by
  induction tr using List.reverseRecOn generalizing l with
  | nil =>
    cases shown
    rfl
  | append_singleton tr e ih =>
    obtain ⟨before, earlier, last⟩ : ∃ before, replay tr = some before ∧ e.apply before = some l := by
      simpa [replay, List.foldlM_append, Option.bind_eq_some_iff] using shown
    have whole := ih earlier
    have since : sinceCreated (tr ++ [e]) = if e = .created then [] else sinceCreated tr ++ [e] := by
      simp [sinceCreated]
    have more : ∀ e : Event, accepted (sinceCreated tr ++ [e]) = accepted (sinceCreated tr) ++ e.bytesIn ∧
        returned (sinceCreated tr ++ [e]) = returned (sinceCreated tr) ++ e.bytesOut := by
      intro e
      simp [accepted, returned]
    cases e with
    | created =>
      cases last
      rw [since, if_pos rfl]
      rfl
    | accepted th data =>
      cases last
      rw [since, if_neg (by simp), (more _).1, (more _).2, whole]
      simp [Event.bytesIn, Event.bytesOut]
    | returned th data =>
      simp only [Event.apply] at last
      split at last
      · rename_i oldest
        cases last
        obtain ⟨rest, split⟩ := oldest
        rw [since, if_neg (by simp), (more _).1, (more _).2, whole, ← split]
        simp [Event.bytesIn, Event.bytesOut]
      · contradiction
    | wrote th result =>
      have same : l.unread = before.unread := by
        simp only [Event.apply] at last
        split at last <;> cases last
        rfl
      rw [since, if_neg (by simp), (more _).1, (more _).2, whole, same]
      simp [Event.bytesIn, Event.bytesOut]
    | opened | enomem | destroyed | closed | again | eof =>
      cases last
      rw [since, if_neg (by simp), (more _).1, (more _).2, whole]
      simp [Event.bytesIn, Event.bytesOut]

theorem toNat_add_flag (x : UInt8) (b : Bool) (small : x.toNat < 255) :
    (x + if b then 1 else 0).toNat = x.toNat + if b then 1 else 0 := by
  cases b
  · simp
  · simp only [if_true, UInt8.toNat_add, UInt8.toNat_one]
    lia

theorem toNat_sub_flag (x : UInt8) (b : Bool) (enough : b = true → 0 < x.toNat) :
    (x - if b then 1 else 0).toNat = x.toNat - if b then 1 else 0 := by
  cases b
  · simp
  · have positive := enough rfl
    simp only [if_true]
    rw [UInt8.toNat_sub_of_le]
    · rfl
    · exact UInt8.le_iff_toNat_le.mpr positive

theorem quiet_ledger (shown : replay tr = some l) (quiet : ∀ e ∈ es, ∀ l, e.apply l = some l) :
    replay (tr ++ es) = some l := by
  rw [replay_append shown]
  induction es with
  | nil => rfl
  | cons e es ih =>
    rw [List.foldlM_cons, quiet e List.mem_cons_self]
    exact ih (fun e member => quiet e (List.mem_cons_of_mem _ member))

theorem create_holds {size : Nat} {memory : Option (Nat → UInt8)} {rb : RtRingbuffer}
    (created : rtRingbufferCreate size memory = some (some rb)) : Holds rb [] := by
  simp only [rtRingbufferCreate] at created
  split at created
  · contradiction
  · split at created
    · cases created
    · split at created
      · cases created
      · rename_i some_word
        split at created
        · rename_i small
          cases created
          apply start_holds _ small
          simp only [rtAlignDown, rtAlignSize] at some_word ⊢
          lia
        · contradiction

theorem open_inv {mode : Mode} {memory : Option (Nat → UInt8)} (inv : Inv fdMax tr s) (small : fdMax < 256)
    (taken : pipeFopsOpen fdMax s mode memory = some (s', es)) : Inv fdMax (tr ++ es) s' := by
  simp only [pipeFopsOpen] at taken
  split at taken
  · contradiction
  · rename_i room
    simp only [not_or, not_le] at room
    obtain ⟨fifo, created, result⟩ := Option.map_eq_some_iff.mp taken
    obtain ⟨l, shown, holds, writes⟩ := inv.ledger
    have empty : s.refCount = 0 → s.fds = [] := by
      intro zero
      have count := inv.refCount
      rw [zero] at count
      exact List.length_eq_zero_iff.mp count.symm
    split at result
    · rename_i failed
      cases result
      refine ⟨inv.readers, inv.writers, inv.refCount, inv.few, fun opened => absurd (empty failed.1) opened,
        ⟨l, quiet_ledger shown (by simp [Event.apply]), by simp, writes⟩, ?_⟩
      simpa using inv.eof
    · rename_i present
      cases result
      have readers := inv.readers
      have writers := inv.writers
      have refCount := inv.refCount
      have bounds : s.fds.countP Mode.reads ≤ s.fds.length ∧ s.fds.countP Mode.writes ≤ s.fds.length :=
        ⟨List.countP_le_length, List.countP_le_length⟩
      have here : fifo.isSome = true := by
        by_cases zero : s.refCount = 0
        · simpa [zero, Option.isSome_iff_ne_none] using present
        · rw [if_neg zero] at created
          cases created
          apply inv.fifo
          rintro nothing
          apply zero
          rw [← UInt8.toNat_inj, refCount, nothing]
          rfl
      refine ⟨?_, ?_, ?_, ?_, fun _ => here, ?_, ?_⟩
      · rw [Mode.reader, toNat_add_flag _ _ (by lia), readers, List.countP_cons]
      · rw [Mode.writer, toNat_add_flag _ _ (by lia), writers, List.countP_cons]
      · simp only [UInt8.toNat_add, UInt8.toNat_one, refCount, List.length_cons]
        lia
      · rw [List.length_cons]
        exact room.2
      · by_cases zero : s.refCount = 0
        · rw [if_pos zero] at created ⊢
          refine ⟨{ l with unread := [] }, ?_, ?_, writes⟩
          · rw [replay_append shown]
            rfl
          · rintro rb rfl
            exact create_holds created
        · rw [if_neg zero] at created ⊢
          cases created
          exact ⟨l, quiet_ledger shown (by simp [Event.apply]), holds, writes⟩
      · intro th fds ended
        apply inv.eof th fds
        split at ended <;> simpa using ended

theorem close_inv {mode : Mode} (inv : Inv fdMax tr s) (taken : pipeFopsClose s mode = some (s', es)) :
    Inv fdMax (tr ++ es) s' := by
  simp only [pipeFopsClose] at taken
  split at taken
  · contradiction
  · rename_i listed
    simp only [not_not] at listed
    cases taken
    obtain ⟨l, shown, holds, writes⟩ := inv.ledger
    have shorter : (s.fds.erase mode).length = s.fds.length - 1 := List.length_erase_of_mem listed
    have some_open : 0 < s.fds.length := List.length_pos_of_mem listed
    have left : ∀ p : Mode → Bool,
        (s.fds.erase mode).countP p = s.fds.countP p - if p mode = true then 1 else 0 := by
      intro p
      rw [List.countP_erase]
      by_cases holds : p mode = true <;> simp [holds, listed]
    have counted : ∀ p : Mode → Bool, p mode = true → 0 < s.fds.countP p :=
      fun p holds => List.countP_pos_iff.mpr ⟨mode, listed, holds⟩
    refine ⟨?_, ?_, ?_, by rw [shorter]; have := inv.few; lia, ?_, ?_, ?_⟩
    · rw [Mode.reader, toNat_sub_flag _ _ (fun h => by rw [inv.readers]; exact counted _ h), inv.readers, left]
    · rw [Mode.writer, toNat_sub_flag _ _ (fun h => by rw [inv.writers]; exact counted _ h), inv.writers, left]
    · have last := toNat_sub_flag s.refCount true (fun _ => by rw [inv.refCount]; exact some_open)
      simp only [if_true] at last
      rw [last, inv.refCount, shorter]
    · intro others
      have more : s.refCount ≠ 1 := by
        intro one
        apply others
        have count := inv.refCount
        rw [one] at count
        exact List.length_eq_zero_iff.mp (by rw [shorter, ← count]; rfl)
      rw [if_neg more]
      exact inv.fifo (List.ne_nil_of_mem listed)
    · refine ⟨l, ?_, ?_, writes⟩
      · apply quiet_ledger shown
        split <;> simp [Event.apply]
      · intro rb found
        split at found
        · cases found
        · exact holds rb found
    · intro th fds ended
      apply inv.eof th fds
      split at ended <;> simpa using ended

theorem Inv.nobody (inv : Inv fdMax tr s) (zero : s.writers = 0) : ∀ mode ∈ s.fds, mode.writes = false := by
  intro mode listed
  have count := inv.writers
  rw [zero] at count
  by_contra writes
  have positive := List.countP_pos_iff.mpr ⟨mode, listed, by simpa using writes⟩
  rw [← count] at positive
  exact absurd positive (by decide)

theorem Inv.served (inv : Inv fdMax tr s) (readers : s'.readers = s.readers) (writers : s'.writers = s.writers)
    (refCount : s'.refCount = s.refCount) (fds : s'.fds = s.fds)
    (fifo : s.fifo.isSome = true → s'.fifo.isSome = true)
    (ledger : ∃ l, replay (tr ++ es) = some l ∧ (∀ rb, s'.fifo = some rb → Holds rb l.unread) ∧
      ∀ th, l.taken th = ((s'.writing th).map Writer.ret).getD 0)
    (eof : ∀ th fds, .eof th fds ∈ es → ∀ mode ∈ fds, mode.writes = false) : Inv fdMax (tr ++ es) s' := by
  refine ⟨by rw [readers, fds]; exact inv.readers, by rw [writers, fds]; exact inv.writers,
    by rw [refCount, fds]; exact inv.refCount, by rw [fds]; exact inv.few, ?_, ledger, ?_⟩
  · intro some_open
    rw [fds] at some_open
    exact fifo (inv.fifo some_open)
  · intro th opened ended
    rcases List.mem_append.mp ended with old | new
    · exact inv.eof th opened old
    · exact eof th opened new

theorem read_inv {count : Nat} {nonblock : Bool} (inv : Inv fdMax tr s)
    (taken : pipeFopsRead s th count nonblock = some (s', es)) : Inv fdMax (tr ++ es) s' := by
  obtain ⟨l, shown, holds, writes⟩ := inv.ledger
  simp only [pipeFopsRead] at taken
  split at taken
  · contradiction
  · split at taken
    · rename_i zero
      cases taken
      apply inv.served rfl rfl rfl rfl id ⟨l, quiet_ledger shown (by simp [Event.apply]), holds, writes⟩
      intro th fds ended
      cases List.mem_singleton.mp ended
      exact inv.nobody zero
    · cases taken
      exact inv.served rfl rfl rfl rfl id ⟨l, by rw [List.append_nil]; exact shown, holds, writes⟩ (by simp)

theorem readTurn_inv (inv : Inv fdMax tr s) (taken : readTurn s th = some (s', es)) :
    Inv fdMax (tr ++ es) s' := by
  obtain ⟨l, shown, holds, writes⟩ := inv.ledger
  obtain ⟨r, _, taken⟩ := Option.bind_eq_some_iff.mp taken
  split at taken
  · rename_i zero
    cases taken
    refine inv.served rfl rfl rfl rfl id ⟨l, quiet_ledger shown (by simp [Event.apply]), holds, writes⟩ ?_
    intro th fds ended
    cases List.mem_singleton.mp ended
    exact inv.nobody zero
  · obtain ⟨rb, found, result⟩ := Option.map_eq_some_iff.mp taken
    obtain ⟨rb', k, got, count, after⟩ := get_holds (holds rb found) (UInt16.ofNat r.count)
    simp only [got] at result
    split at result
    · cases result
      refine inv.served rfl rfl rfl rfl (fun _ => rfl) ⟨{ l with unread := l.unread.drop k }, ?_, ?_, writes⟩
        (by simp)
      · have whole : (l.unread.take k).length = k := by
          rw [List.length_take]
          lia
        rw [replay_append shown]
        simp [Event.apply, List.take_prefix, whole]
      · intro rb now
        cases now
        exact after
    · split at result
      · cases result
        exact inv.served rfl rfl rfl rfl id
          ⟨l, quiet_ledger shown (by simp [Event.apply]), holds, writes⟩ (by simp)
      · cases result
        exact inv.served rfl rfl rfl rfl id ⟨l, by rw [List.append_nil]; exact shown, holds, writes⟩ (by simp)

theorem writes_update {w : Option Writer} {taken : Nat → Nat} {n : Nat}
    (writes : ∀ th, taken th = ((s.writing th).map Writer.ret).getD 0) (now : (w.map Writer.ret).getD 0 = n)
    (u : Nat) : Function.update taken th n u = ((Function.update s.writing th w u).map Writer.ret).getD 0 := by
  by_cases here : u = th
  · subst here
    simp [now]
  · simp [here, writes]

theorem write_inv {data : List UInt8} {nonblock : Bool} (inv : Inv fdMax tr s)
    (taken : pipeFopsWrite s th data nonblock = some (s', es)) : Inv fdMax (tr ++ es) s' := by
  obtain ⟨l, shown, holds, writes⟩ := inv.ledger
  simp only [pipeFopsWrite] at taken
  split at taken
  · contradiction
  · rename_i idle
    simp only [not_or, Option.not_isSome_iff_eq_none] at idle
    have nothing : l.taken th = 0 := by rw [writes, idle.2]; rfl
    have same : Function.update l.taken th 0 = l.taken := by rw [← nothing, Function.update_eq_self]
    split at taken
    · cases taken
      refine inv.served rfl rfl rfl rfl id ⟨l, ?_, holds, writes⟩ (by simp)
      rw [replay_append shown]
      simp [Event.apply, nothing, Result.count, same]
    · split at taken
      · cases taken
        refine inv.served rfl rfl rfl rfl id ⟨l, ?_, holds, writes⟩ (by simp)
        rw [replay_append shown]
        simp [Event.apply, nothing, Result.count, same]
      · cases taken
        refine inv.served rfl rfl rfl rfl id ⟨l, by rw [List.append_nil]; exact shown, holds, ?_⟩ (by simp)
        intro u
        have now : Function.update l.taken th 0 u =
            ((Function.update s.writing th (some ⟨data, 0, nonblock⟩) u).map Writer.ret).getD 0 :=
          writes_update writes (w := some ⟨data, 0, nonblock⟩) (n := 0) rfl u
        rw [← now, same]

theorem bytes_rest (rest : List UInt8) {k : Nat} (part : k ≤ rest.length) :
    bytes (fun i => rest.getD i 0) 0 k = rest.take k := by
  apply List.ext_getElem
  · simp [bytes, part]
  · intro i inside _
    have small : i < rest.length := by
      rw [length_bytes] at inside
      lia
    simp [bytes, small]

theorem writeTurn_inv (inv : Inv fdMax tr s) (taken : writeTurn s th = some (s', es)) :
    Inv fdMax (tr ++ es) s' := by
  obtain ⟨l, shown, holds, writes⟩ := inv.ledger
  obtain ⟨w, writing, taken⟩ := Option.bind_eq_some_iff.mp taken
  have so_far : l.taken th = w.ret := by rw [writes, writing]; rfl
  split at taken
  · cases taken
    refine inv.served rfl rfl rfl rfl id ⟨{ l with taken := Function.update l.taken th 0 }, ?_, holds,
      writes_update writes rfl⟩ (by simp)
    have result : w.ret = (if w.ret = 0 then Result.epipe else .bytes w.ret).count := by
      split
      · assumption
      · rfl
    rw [replay_append shown]
    simp only [List.foldlM_cons, Event.apply, so_far, if_pos result]
    rfl
  · obtain ⟨rb, found, result⟩ := Option.map_eq_some_iff.mp taken
    obtain ⟨rb', k, put, count, after⟩ :=
      put_holds (holds rb found) (fun i => w.rest.getD i 0) (UInt16.ofNat w.rest.length)
    have part : k ≤ w.rest.length := by
      rw [count]
      exact (Nat.min_le_left _ _).trans (by rw [UInt16.toNat_ofNat']; exact Nat.mod_le _ _)
    rw [bytes_rest w.rest part] at after
    have whole : (w.rest.take k).length = k := by
      rw [List.length_take]
      lia
    have held : ∀ rb, some rb' = some rb → Holds rb (l.unread ++ w.rest.take k) := by
      intro rb now
      cases now
      exact after
    -- what the ledger is after the bytes, and after the call has ended too
    have put_shown : replay (tr ++ [.accepted th (w.rest.take k)]) =
        some ⟨l.unread ++ w.rest.take k, Function.update l.taken th (w.ret + k)⟩ := by
      rw [replay_append shown]
      simp [Event.apply, so_far, whole]
    have ended : ∀ result : Result, w.ret + k = result.count →
        replay (tr ++ ([.accepted th (w.rest.take k)] ++ [.wrote th result])) =
          some ⟨l.unread ++ w.rest.take k, Function.update l.taken th 0⟩ := by
      intro result right
      rw [← List.append_assoc, replay_append put_shown]
      simp [Event.apply, right]
    simp only [put] at result
    split at result
    · cases result
      exact inv.served rfl rfl rfl rfl (fun _ => rfl)
        ⟨_, ended _ rfl, held, writes_update writes rfl⟩ (by simp)
    · split at result
      · cases result
        refine inv.served rfl rfl rfl rfl (fun _ => rfl)
          ⟨_, ended _ ?_, held, writes_update writes rfl⟩ (by simp)
        split
        · assumption
        · rfl
      · cases result
        exact inv.served rfl rfl rfl rfl (fun _ => rfl)
          ⟨_, put_shown, held, writes_update writes rfl⟩ (by simp)

theorem step_inv (inv : Inv fdMax tr s) (small : fdMax < 256) (taken : step fdMax s a = some (s', es)) :
    Inv fdMax (tr ++ es) s' := by
  cases a with
  | «open» mode memory => exact open_inv inv small taken
  | close mode => exact close_inv inv taken
  | read th count nonblock => exact read_inv inv taken
  | readTurn th => exact readTurn_inv inv taken
  | write th data nonblock => exact write_inv inv taken
  | writeTurn th => exact writeTurn_inv inv taken

/-- What the calls up to now have done: each read has returned the oldest bytes of the FIFO and each
write the number of its bytes in it, nothing being lost while the FIFO exists; a read has found the
end of file only while no descriptor was open for writing. -/
structure Delivered (tr : List Event) (s : State) : Prop where
  calls : (replay tr).isSome = true
  order : ∃ unread, accepted (sinceCreated tr) = returned (sinceCreated tr) ++ unread ∧
    ∀ rb, s.fifo = some rb → Holds rb unread
  fifo : s.fds ≠ [] → s.fifo.isSome = true
  eof : ∀ th fds, .eof th fds ∈ tr → ∀ mode ∈ fds, mode.writes = false

theorem pipe_delivers (small : fdMax < 256) (run : Run (machine fdMax) tr s) : Delivered tr s := by
  have inv : Inv fdMax tr s := by
    apply Run.invariant (I := Inv fdMax) (fun _ start => start_inv start) ?_ run
    intro tr s a s' es inv taken
    exact step_inv inv small taken
  obtain ⟨l, shown, holds, _⟩ := inv.ledger
  exact ⟨by simp [shown], ⟨l.unread, ledger_flow shown, holds⟩, inv.fifo, inv.eof⟩

def createdState : State := ⟨512, true, false, none, 0, 0, 0, [], fun _ => none, fun _ => none⟩

theorem createdState_start : Start createdState :=
  ⟨rfl, rfl, rfl, rfl, rfl, rfl, fun _ => rfl, fun _ => rfl⟩

def deliveredTrace : List Event :=
  [.created, .opened .rdonly, .opened .wronly, .accepted 0 [1, 2, 3], .wrote 0 (.bytes 3), .returned 1 [1, 2],
    .returned 1 [3], .closed .wronly, .eof 1 [.rdonly]]

/-- Three bytes through a pipe, and the end of file. -/
theorem pipe_delivers_three : ∃ s, Delivered deliveredTrace s ∧ s.writers = 0 := by
  obtain ⟨s, run, closed⟩ := Run.shows (M := machine 16) (s := createdState) createdState_start
    [.open .rdonly (some fun _ => 0), .open .wronly none, .write 0 [1, 2, 3] false, .writeTurn 0,
      .read 1 2 false, .readTurn 1, .read 1 2 false, .readTurn 1, .close .wronly, .read 1 2 false]
    deliveredTrace (fun s => decide (s.writers = 0)) (by decide +kernel)
  exact ⟨s, pipe_delivers (by decide) run, of_decide_eq_true closed⟩

def unreadTrace : List Event :=
  [.created, .opened .rdonly, .opened .wronly, .accepted 0 [1], .wrote 0 (.bytes 1), .closed .wronly,
    .eof 1 [.rdonly]]

def reopenedTrace : List Event :=
  [.created, .opened .rdwr, .accepted 0 [1], .wrote 0 (.bytes 1), .closed .rdwr, .destroyed, .created,
    .opened .rdwr, .accepted 0 [2], .wrote 0 (.bytes 1), .returned 1 [2]]

/-- The end of file with a byte accepted and not read; and a byte read without the one before it, which
went with the FIFO when the last descriptor was closed. -/
theorem pipe_loses :
    (∃ s, Run (machine 16) unreadTrace s ∧ accepted unreadTrace ≠ returned unreadTrace) ∧
    (∃ s, Run (machine 16) reopenedTrace s ∧ ¬returned reopenedTrace <+: accepted reopenedTrace) := by
  constructor
  · obtain ⟨s, run, _⟩ := Run.shows (M := machine 16) (s := createdState) createdState_start
      [.open .rdonly (some fun _ => 0), .open .wronly none, .write 0 [1] false, .writeTurn 0, .close .wronly,
        .read 1 1 false]
      unreadTrace (fun _ => true) (by decide +kernel)
    exact ⟨s, run, by decide⟩
  · obtain ⟨s, run, _⟩ := Run.shows (M := machine 16) (s := createdState) createdState_start
      [.open .rdwr (some fun _ => 0), .write 0 [1] false, .writeTurn 0, .close .rdwr,
        .open .rdwr (some fun _ => 0), .write 0 [2] false, .writeTurn 0, .read 1 1 false, .readTurn 1]
      reopenedTrace (fun _ => true) (by decide +kernel)
    exact ⟨s, run, by decide⟩

end RtThread.Pipe
