import RtThread.Run
import Mathlib.Data.List.Nodup

/-! Opening and closing of a serial device: rt_device_open and rt_device_close over
rt_serial_open and rt_serial_close, with the memory that is taken and given back. -/
namespace RtThread.SerialOpen
open Transition

abbrev Flags := BitVec 16

def oflagOpen : Flags := 0x008
def flagStandalone : Flags := 0x008
def flagActivated : Flags := 0x010
def flagStream : Flags := 0x040
def flagIntRx : Flags := 0x100
def flagDmaRx : Flags := 0x200
def flagIntTx : Flags := 0x400
def flagDmaTx : Flags := 0x800

def has (f mask : Flags) : Bool := f &&& mask != 0

/-- struct rt_serial_rx_fifo or rt_serial_rx_dma, and the same for tx. -/
inductive Kind where
  | fifo
  | dma
  deriving DecidableEq

/-- A structure for receiving, in the block of memory it was given. -/
structure RxBuffer where
  kind : Kind
  block : Nat
  deriving DecidableEq

/-- For transmission by DMA there is a data queue, with its own memory where there was some. -/
inductive TxBuffer where
  | fifo (block : Nat)
  | dma (block : Nat) (queue : Option Nat)

def TxBuffer.kind : TxBuffer → Kind
  | .fifo _ => .fifo
  | .dma _ _ => .dma

def TxBuffer.block : TxBuffer → Nat
  | .fifo block => block
  | .dma block _ => block

def TxBuffer.blocks : TxBuffer → List Nat
  | .fifo block => [block]
  | .dma block queue => block :: queue.toList

/-- struct rt_serial_device with its parent; `next` is the block that rt_malloc gives next. -/
structure Serial where
  flag : Flags
  openFlag : Flags
  refCount : Nat
  rx : Option RxBuffer
  tx : Option TxBuffer
  next : Nat

/-- The RT_DEVICE_CTRL commands. -/
inductive Control where
  | setInt
  | clrInt
  | config
  | close
  deriving DecidableEq

inductive Result where
  | eok
  | error
  | eio
  | ebusy
  deriving DecidableEq

inductive Event where
  | malloc (block : Nat)
  | free (block : Nat)
  | control (command : Control) (argument : Flags)
  | returned (result : Result)
  deriving DecidableEq

/-- The settings of one open: what ops->configure returns where the device is to be initialized,
and whether there is memory for the data queue. -/
inductive Action where
  | opens (oflag : Flags) (configured : Result) (stored : Bool)
  | closes

def rtSerialInit (s : Serial) : Serial := { s with rx := none, tx := none }

/-- Whether rt_serial_open refuses with -RT_EIO. -/
def unsupported (flag oflag : Flags) : Bool :=
  has oflag flagDmaRx && !has flag flagDmaRx || has oflag flagDmaTx && !has flag flagDmaTx ||
    has oflag flagIntRx && !has flag flagIntRx || has oflag flagIntTx && !has flag flagIntTx

def openRx (bufsz : Nat) (oflag : Flags) (s : Serial) : Serial × List Event :=
  match s.rx with
  | none =>
    if has oflag flagIntRx then
      ({ s with rx := some ⟨.fifo, s.next⟩, next := s.next + 1, openFlag := s.openFlag ||| flagIntRx },
        [.malloc s.next, .control .setInt flagIntRx])
    else if has oflag flagDmaRx then
      if bufsz = 0 then
        ({ s with rx := some ⟨.dma, s.next⟩, next := s.next + 1, openFlag := s.openFlag ||| flagDmaRx },
          [.malloc s.next])
      else
        ({ s with rx := some ⟨.fifo, s.next⟩, next := s.next + 1, openFlag := s.openFlag ||| flagDmaRx },
          [.malloc s.next, .control .config flagDmaRx])
    else (s, [])
  | some _ =>
    if has oflag flagIntRx then ({ s with openFlag := s.openFlag ||| flagIntRx }, [])
    else if has oflag flagDmaRx then ({ s with openFlag := s.openFlag ||| flagDmaRx }, [])
    else (s, [])

def openTx (stored : Bool) (oflag : Flags) (s : Serial) : Serial × List Event :=
  match s.tx with
  | none =>
    if has oflag flagIntTx then
      ({ s with tx := some (.fifo s.next), next := s.next + 1, openFlag := s.openFlag ||| flagIntTx },
        [.malloc s.next, .control .setInt flagIntTx])
    else if has oflag flagDmaTx then
      if stored then
        ({ s with
            tx := some (.dma s.next (some (s.next + 1)))
            next := s.next + 2
            openFlag := s.openFlag ||| flagDmaTx },
          [.malloc s.next, .malloc (s.next + 1), .control .config flagDmaTx])
      else
        ({ s with tx := some (.dma s.next none), next := s.next + 1, openFlag := s.openFlag ||| flagDmaTx },
          [.malloc s.next, .control .config flagDmaTx])
    else (s, [])
  | some _ =>
    if has oflag flagIntTx then ({ s with openFlag := s.openFlag ||| flagIntTx }, [])
    else if has oflag flagDmaTx then ({ s with openFlag := s.openFlag ||| flagDmaTx }, [])
    else (s, [])

/-- The stream flag is kept. -/
def streamFlag (oflag openFlag : Flags) : Flags :=
  if has oflag flagStream || has openFlag flagStream then flagStream else 0

/-- rt_serial_open, where the flags are supported. -/
def rtSerialOpen (bufsz : Nat) (stored : Bool) (oflag : Flags) (s : Serial) : Serial × List Event :=
  let stream := streamFlag oflag s.openFlag
  let (s, rxEvents) := openRx bufsz oflag { s with openFlag := oflag &&& 0xff }
  let (s, txEvents) := openTx stored oflag s
  ({ s with openFlag := s.openFlag ||| stream }, rxEvents ++ txEvents)

/-- A failing RT_ASSERT, here of a structure that is not there, is `none`. -/
def closeRx (s : Serial) : Option (Serial × List Event) :=
  if has s.openFlag flagIntRx then
    s.rx.map (fun rx => ({ s with rx := none, openFlag := s.openFlag &&& ~~~flagIntRx },
      [.free rx.block, .control .clrInt flagIntRx]))
  else if has s.openFlag flagDmaRx then
    s.rx.map (fun rx => ({ s with rx := none, openFlag := s.openFlag &&& ~~~flagDmaRx },
      [.free rx.block, .control .clrInt flagDmaRx]))
  else some (s, [])

/-- Only struct rt_serial_tx_dma has the magic that rt_data_queue_deinit asserts. -/
def closeTx (s : Serial) : Option (Serial × List Event) :=
  if has s.openFlag flagIntTx then
    s.tx.map (fun tx => ({ s with tx := none, openFlag := s.openFlag &&& ~~~flagIntTx },
      [.free tx.block, .control .clrInt flagIntTx]))
  else if has s.openFlag flagDmaTx then
    match s.tx with
    | some (.dma block queue) =>
      some ({ s with tx := none, openFlag := s.openFlag &&& ~~~flagDmaTx },
        queue.toList.map .free ++ [.free block, .control .clrInt flagDmaTx])
    | _ => none
  else some (s, [])

/-- `refCount` is 0 by now. -/
def rtSerialClose (s : Serial) : Option (Serial × List Event) :=
  (closeRx s).bind (fun r => (closeTx r.1).map (fun q =>
    ({ q.1 with flag := q.1.flag &&& ~~~flagActivated }, r.2 ++ q.2 ++ [.control .close 0])))

/-- The initialization of a device that is not activated; `false` where it fails. -/
def activate (configured : Result) (s : Serial) : Bool × Serial :=
  if has s.flag flagActivated then (true, s)
  else if configured = .eok then (true, { rtSerialInit s with flag := s.flag ||| flagActivated })
  else (false, rtSerialInit s)

/-- `refCount` is a byte, which RT_ASSERT keeps from wrapping round. -/
def rtDeviceOpen (bufsz : Nat) (oflag : Flags) (configured : Result) (stored : Bool) (s : Serial) :
    Option (Serial × List Event) :=
  let (ready, s) := activate configured s
  if !ready then some (s, [.returned configured])
  else if has s.flag flagStandalone && has s.openFlag oflagOpen then some (s, [.returned .ebusy])
  else if unsupported s.flag oflag then some (s, [.returned .eio])
  else
    let (s, events) := rtSerialOpen bufsz stored oflag s
    if (s.refCount + 1) % 256 = 0 then none
    else some ({ s with openFlag := s.openFlag ||| oflagOpen, refCount := s.refCount + 1 },
      events ++ [.returned .eok])

def rtDeviceClose (s : Serial) : Option (Serial × List Event) :=
  if s.refCount = 0 then some (s, [.returned .error])
  else if s.refCount - 1 ≠ 0 then some ({ s with refCount := s.refCount - 1 }, [.returned .eok])
  else (rtSerialClose { s with refCount := s.refCount - 1 }).map (fun r =>
    ({ r.1 with openFlag := 0 }, r.2 ++ [.returned .eok]))

def step (bufsz : Nat) (s : Serial) : Action → Option (Serial × List Event)
  | .opens oflag configured stored => rtDeviceOpen bufsz oflag configured stored s
  | .closes => rtDeviceClose s

/-- A registered device that was never opened. -/
structure Start (s : Serial) : Prop where
  inactive : has s.flag flagActivated = false
  closed : s.openFlag = 0
  refs : s.refCount = 0
  rx : s.rx = none
  tx : s.tx = none

def machine (bufsz : Nat) : Machine Serial Action Event where
  start := Start
  step := step bufsz

/-- The structure that the flags stand for. -/
def rxKind (bufsz : Nat) (flags : Flags) : Option Kind :=
  if has flags flagIntRx then some .fifo
  else if has flags flagDmaRx then (if bufsz = 0 then some .dma else some .fifo)
  else none

def txKind (flags : Flags) : Option Kind :=
  if has flags flagIntTx then some .fifo
  else if has flags flagDmaTx then some .dma
  else none

/-- While the device is open its flags tell which structures it has; once it is closed it has
none, and each block was freed once. -/
structure Consistent (bufsz : Nat) (tr : List Event) (s : Serial) : Prop where
  rx : 0 < s.refCount → s.rx.map RxBuffer.kind = rxKind bufsz s.openFlag
  tx : 0 < s.refCount → s.tx.map TxBuffer.kind = txKind s.openFlag
  closed : s.refCount = 0 → s.rx = none ∧ s.tx = none
  freed : s.refCount = 0 → ∀ b, .malloc b ∈ tr → tr.count (.free b) = 1

/-- A device that is open is opened for the structures it already has. -/
def Guard (bufsz : Nat) (s : Serial) (a : Action) : Prop :=
  ∀ oflag configured stored, a = .opens oflag configured stored →
    ¬ (has s.flag flagStandalone = true ∧ has s.openFlag oflagOpen = true) → unsupported s.flag oflag = false →
      (∀ rx, s.rx = some rx → rxKind bufsz oflag = some rx.kind) ∧
      (∀ tx, s.tx = some tx → txKind oflag = some tx.kind)

section Flags
variable (f c mask : Flags)

theorem has_or (g : Flags) : has (f ||| g) mask = (has f mask || has g mask) := by
  rw [Bool.eq_iff_iff]
  simp only [has, BitVec.and_or_distrib_right, bne_iff_ne, ne_eq, Bool.or_eq_true]
  rw [show (0 : Flags) = 0#16 from rfl, BitVec.or_eq_zero_iff]
  tauto

theorem has_kept (covered : c &&& mask = mask) : has (f &&& c) mask = has f mask := by
  rw [has, BitVec.and_assoc, covered, has]

theorem has_cleared (apart : c &&& mask = 0) : has (f &&& c) mask = false := by
  rw [has, BitVec.and_assoc, apart]
  simp

end Flags

def held (s : Serial) : List Nat := s.rx.toList.map RxBuffer.block ++ s.tx.toList.flatMap TxBuffer.blocks

/-- Between two states the blocks handed out are new ones, and those held are what was held and
handed out less what was freed. -/
structure Moves (s s' : Serial) (es : List Event) : Prop where
  grows : s.next ≤ s'.next
  made : ∀ b, es.count (.malloc b) = if s.next ≤ b ∧ b < s'.next then 1 else 0
  kept : ∀ b, es.count (.free b) + (held s').count b = (held s).count b + es.count (.malloc b)

section Ledger
variable {s s' t : Serial} {es fs : List Event}

theorem Moves.trans (first : Moves s t es) (second : Moves t s' fs) : Moves s s' (es ++ fs) := by
  have low := first.grows
  have high := second.grows
  constructor
  · omega
  · intro b
    rw [List.count_append, first.made, second.made]
    split <;> split <;> split <;> omega
  · intro b
    have before := first.kept b
    have after := second.kept b
    rw [List.count_append, List.count_append]
    omega

theorem Moves.idle (next : s'.next = s.next) (rx : s'.rx = s.rx) (tx : s'.tx = s.tx)
    (quiet : ∀ b, .malloc b ∉ es ∧ .free b ∉ es) : Moves s s' es := by
  have none (b : Nat) : es.count (.malloc b) = 0 ∧ es.count (.free b) = 0 :=
    ⟨List.count_eq_zero.mpr (quiet b).1, List.count_eq_zero.mpr (quiet b).2⟩
  constructor
  · omega
  · intro b
    rw [(none b).1, if_neg (by omega)]
  · intro b
    rw [(none b).1, (none b).2, held, held, rx, tx]
    omega

theorem Moves.taken (k : Nat) (next : s'.next = s.next + k)
    (made : ∀ b, es.count (.malloc b) = (List.range' s.next k).count b) (frees : ∀ b, .free b ∉ es)
    (more : (held s').Perm (held s ++ List.range' s.next k)) : Moves s s' es := by
  have fresh (b : Nat) : (List.range' s.next k).count b = if s.next ≤ b ∧ b < s'.next then 1 else 0 := by
    split
    · exact List.count_eq_one_of_mem (List.nodup_range' _) (by rw [List.mem_range'_1]; omega)
    · exact List.count_eq_zero.mpr (by rw [List.mem_range'_1]; omega)
  constructor
  · omega
  · intro b
    rw [made, fresh]
  · intro b
    rw [List.count_eq_zero.mpr (frees b), more.count_eq, List.count_append, made]
    omega

theorem openRx_moves (bufsz : Nat) (oflag : Flags) (s : Serial) :
    Moves s (openRx bufsz oflag s).1 (openRx bufsz oflag s).2 := by
  have taken (rx : RxBuffer) (noRx : s.rx = none) (block : rx.block = s.next) (f : Flags) (es : List Event)
      (quiet : ∀ b, .malloc b ∉ es ∧ .free b ∉ es) :
      Moves s { s with rx := some rx, next := s.next + 1, openFlag := f } (.malloc s.next :: es) := by
    refine .taken 1 rfl ?_ ?_ ?_
    · intro b
      rw [List.count_cons, List.count_eq_zero.mpr (quiet b).1]
      simp [List.count_cons]
    · intro b
      simp [(quiet b).2]
    · simp [held, noRx, block, (List.perm_append_singleton _ _).symm]
  unfold openRx
  split
  · rename_i noRx
    split
    · exact taken _ noRx rfl _ _ (by simp)
    · split
      · split
        · exact taken _ noRx rfl _ _ (by simp)
        · exact taken _ noRx rfl _ _ (by simp)
      · exact .idle rfl rfl rfl (by simp)
  · split
    · exact .idle rfl rfl rfl (by simp)
    · split
      · exact .idle rfl rfl rfl (by simp)
      · exact .idle rfl rfl rfl (by simp)

theorem openTx_moves (stored : Bool) (oflag : Flags) (s : Serial) :
    Moves s (openTx stored oflag s).1 (openTx stored oflag s).2 := by
  have taken (tx : TxBuffer) (k : Nat) (noTx : s.tx = none) (blocks : tx.blocks = List.range' s.next k)
      (f : Flags) (es : List Event) (made : ∀ b, es.count (.malloc b) = (List.range' s.next k).count b)
      (frees : ∀ b, .free b ∉ es) :
      Moves s { s with tx := some tx, next := s.next + k, openFlag := f } es := by
    refine .taken k rfl made frees ?_
    simp [held, noTx, blocks]
  unfold openTx
  split
  · rename_i noTx
    split
    · exact taken _ 1 noTx rfl _ _ (by simp [List.count_cons]) (by simp)
    · split
      · split
        · exact taken _ 2 noTx rfl _ _ (by simp [List.count_cons, List.range']) (by simp)
        · exact taken _ 1 noTx rfl _ _ (by simp [List.count_cons]) (by simp)
      · exact .idle rfl rfl rfl (by simp)
  · split
    · exact .idle rfl rfl rfl (by simp)
    · split
      · exact .idle rfl rfl rfl (by simp)
      · exact .idle rfl rfl rfl (by simp)

theorem rtSerialOpen_moves (bufsz : Nat) (stored : Bool) (oflag : Flags) (s : Serial) :
    Moves s (rtSerialOpen bufsz stored oflag s).1 (rtSerialOpen bufsz stored oflag s).2 := by
  have rx := openRx_moves bufsz oflag { s with openFlag := oflag &&& 0xff }
  have tx := openTx_moves stored oflag (openRx bufsz oflag { s with openFlag := oflag &&& 0xff }).1
  have both := rx.trans tx
  exact ⟨both.grows, both.made, both.kept⟩

theorem Moves.freed (blocks : List Nat) (next : s'.next = s.next) (quiet : ∀ b, .malloc b ∉ es)
    (frees : ∀ b, es.count (.free b) = blocks.count b) (less : (held s).Perm (held s' ++ blocks)) :
    Moves s s' es := by
  constructor
  · omega
  · intro b
    rw [List.count_eq_zero.mpr (quiet b), if_neg (by omega)]
  · intro b
    rw [List.count_eq_zero.mpr (quiet b), less.count_eq, List.count_append, frees]
    omega

end Ledger

section Flags
variable {bufsz : Nat} {oflag : Flags} {s : Serial}

/-- The mode flag that an open gives the device for receiving, and for transmitting. -/
def rxFlag (oflag : Flags) : Flags :=
  if has oflag flagIntRx then flagIntRx else if has oflag flagDmaRx then flagDmaRx else 0

def txFlag (oflag : Flags) : Flags :=
  if has oflag flagIntTx then flagIntTx else if has oflag flagDmaTx then flagDmaTx else 0

theorem openRx_flags : (openRx bufsz oflag s).1.openFlag = s.openFlag ||| rxFlag oflag := by
  unfold openRx rxFlag
  repeat' split
  all_goals simp

theorem openTx_flags {stored : Bool} : (openTx stored oflag s).1.openFlag = s.openFlag ||| txFlag oflag := by
  unfold openTx txFlag
  repeat' split
  all_goals simp

theorem openRx_kind (fits : ∀ rx, s.rx = some rx → rxKind bufsz oflag = some rx.kind) :
    (openRx bufsz oflag s).1.rx.map RxBuffer.kind = rxKind bufsz oflag := by
  unfold openRx
  split
  · rename_i noRx
    unfold rxKind
    repeat' split
    all_goals simp [noRx]
  · rename_i rx found
    rw [fits rx found]
    repeat' split
    all_goals simp [found]

theorem openTx_kind {stored : Bool} (fits : ∀ tx, s.tx = some tx → txKind oflag = some tx.kind) :
    (openTx stored oflag s).1.tx.map TxBuffer.kind = txKind oflag := by
  unfold openTx
  split
  · rename_i noTx
    unfold txKind
    repeat' split
    all_goals simp [noTx, TxBuffer.kind]
  · rename_i tx found
    rw [fits tx found]
    repeat' split
    all_goals simp [found]

theorem openRx_others : (openRx bufsz oflag s).1.tx = s.tx ∧ (openRx bufsz oflag s).1.flag = s.flag ∧
    (openRx bufsz oflag s).1.refCount = s.refCount := by
  unfold openRx
  repeat' split
  all_goals exact ⟨rfl, rfl, rfl⟩

theorem openTx_others {stored : Bool} : (openTx stored oflag s).1.rx = s.rx ∧
    (openTx stored oflag s).1.flag = s.flag ∧ (openTx stored oflag s).1.refCount = s.refCount := by
  unfold openTx
  repeat' split
  all_goals exact ⟨rfl, rfl, rfl⟩

theorem rxFlag_has (oflag : Flags) :
    has (rxFlag oflag) flagIntRx = has oflag flagIntRx ∧
    has (rxFlag oflag) flagDmaRx = (!has oflag flagIntRx && has oflag flagDmaRx) ∧
    has (rxFlag oflag) flagIntTx = false ∧ has (rxFlag oflag) flagDmaTx = false := by
  unfold rxFlag
  cases has oflag flagIntRx <;> cases has oflag flagDmaRx <;> decide

theorem txFlag_has (oflag : Flags) :
    has (txFlag oflag) flagIntTx = has oflag flagIntTx ∧
    has (txFlag oflag) flagDmaTx = (!has oflag flagIntTx && has oflag flagDmaTx) ∧
    has (txFlag oflag) flagIntRx = false ∧ has (txFlag oflag) flagDmaRx = false := by
  unfold txFlag
  cases has oflag flagIntTx <;> cases has oflag flagDmaTx <;> decide

/-- What an accepted open leaves in open_flag. -/
def openedFlag (oflag : Flags) (stream : Flags) : Flags :=
  ((oflag &&& 0xff ||| rxFlag oflag) ||| txFlag oflag) ||| stream ||| oflagOpen

theorem openedFlag_has (oflag stream mask : Flags) (high : (0xff : Flags) &&& mask = 0)
    (apart : has stream mask = false) (open_apart : has oflagOpen mask = false) :
    has (openedFlag oflag stream) mask = (has (rxFlag oflag) mask || has (txFlag oflag) mask) := by
  rw [openedFlag, has_or, has_or, has_or, has_or, has_cleared _ _ _ high, apart, open_apart]
  simp

theorem openedFlag_kinds (bufsz : Nat) (oflag : Flags) {stream : Flags} (streams : stream = flagStream ∨ stream = 0) :
    rxKind bufsz (openedFlag oflag stream) = rxKind bufsz oflag ∧
      txKind (openedFlag oflag stream) = txKind oflag := by
  have modes (mask : Flags) (high : (0xff : Flags) &&& mask = 0) :
      has (openedFlag oflag stream) mask = (has (rxFlag oflag) mask || has (txFlag oflag) mask) := by
    refine openedFlag_has _ _ _ high ?_ (has_cleared 0x008 0xff mask high)
    rcases streams with rfl | rfl
    · exact has_cleared 0x040 0xff mask high
    · exact has_cleared 0 0xff mask high
  obtain ⟨rxInt, rxDma, rxIntTx, rxDmaTx⟩ := rxFlag_has oflag
  obtain ⟨txInt, txDma, txIntRx, txDmaRx⟩ := txFlag_has oflag
  constructor
  · rw [rxKind, modes _ (by decide), modes _ (by decide), rxInt, rxDma, txIntRx, txDmaRx, rxKind]
    cases has oflag flagIntRx <;> simp
  · rw [txKind, modes _ (by decide), modes _ (by decide), txInt, txDma, rxIntTx, rxDmaTx, txKind]
    cases has oflag flagIntTx <;> simp

end Flags

structure Open (bufsz : Nat) (s : Serial) : Prop where
  active : has s.flag flagActivated = true
  rx : s.rx.map RxBuffer.kind = rxKind bufsz s.openFlag
  tx : s.tx.map TxBuffer.kind = txKind s.openFlag

structure Inv (bufsz : Nat) (tr : List Event) (s : Serial) : Prop where
  moves : ∃ s₀, Start s₀ ∧ Moves s₀ s tr
  opened : 0 < s.refCount → Open bufsz s
  closed : s.refCount = 0 → s.rx = none ∧ s.tx = none

section Steps
variable {bufsz : Nat} {s s' : Serial} {tr es : List Event} {a : Action}

theorem Inv.consistent (inv : Inv bufsz tr s) : Consistent bufsz tr s := by
  refine ⟨fun up => (inv.opened up).rx, fun up => (inv.opened up).tx, inv.closed, ?_⟩
  intro shut b given
  obtain ⟨s₀, first, moves⟩ := inv.moves
  have none_now : (held s).count b = 0 := by
    simp [held, (inv.closed shut).1, (inv.closed shut).2]
  have none_then : (held s₀).count b = 0 := by
    simp [held, first.rx, first.tx]
  have kept := moves.kept b
  have once := moves.made b
  have some_time := List.count_pos_iff.mpr given
  split at once <;> omega

theorem rtSerialOpen_flag (stored : Bool) (oflag : Flags) (s : Serial) :
    (rtSerialOpen bufsz stored oflag s).1.openFlag ||| oflagOpen =
      openedFlag oflag (streamFlag oflag s.openFlag) := by
  simp only [rtSerialOpen, openTx_flags, openRx_flags]
  rfl

theorem rtSerialOpen_others (stored : Bool) (oflag : Flags) (s : Serial) :
    (rtSerialOpen bufsz stored oflag s).1.flag = s.flag ∧
      (rtSerialOpen bufsz stored oflag s).1.refCount = s.refCount := by
  simp only [rtSerialOpen]
  rw [openTx_others.2.1, openTx_others.2.2, openRx_others.2.1, openRx_others.2.2]
  exact ⟨rfl, rfl⟩

theorem rtSerialOpen_kinds (stored : Bool) {oflag : Flags}
    (rx : ∀ rx, s.rx = some rx → rxKind bufsz oflag = some rx.kind)
    (tx : ∀ tx, s.tx = some tx → txKind oflag = some tx.kind) :
    (rtSerialOpen bufsz stored oflag s).1.rx.map RxBuffer.kind = rxKind bufsz oflag ∧
      (rtSerialOpen bufsz stored oflag s).1.tx.map TxBuffer.kind = txKind oflag := by
  simp only [rtSerialOpen]
  constructor
  · rw [openTx_others.1]
    exact openRx_kind rx
  · refine openTx_kind ?_
    rw [openRx_others.1]
    exact tx

theorem streamFlag_cases (oflag openFlag : Flags) :
    streamFlag oflag openFlag = flagStream ∨ streamFlag oflag openFlag = 0 := by
  unfold streamFlag
  split
  · exact .inl rfl
  · exact .inr rfl

theorem Inv.accepted {stored : Bool} {oflag : Flags} (inv : Inv bufsz tr s)
    (active : has s.flag flagActivated = true)
    (rx : ∀ rx, s.rx = some rx → rxKind bufsz oflag = some rx.kind)
    (tx : ∀ tx, s.tx = some tx → txKind oflag = some tx.kind) :
    Inv bufsz (tr ++ ((rtSerialOpen bufsz stored oflag s).2 ++ [.returned .eok]))
      { (rtSerialOpen bufsz stored oflag s).1 with
        openFlag := (rtSerialOpen bufsz stored oflag s).1.openFlag ||| oflagOpen
        refCount := (rtSerialOpen bufsz stored oflag s).1.refCount + 1 } := by
  obtain ⟨s₀, first, moves⟩ := inv.moves
  have kinds := rtSerialOpen_kinds stored rx tx
  have flags := openedFlag_kinds bufsz oflag (streamFlag_cases oflag s.openFlag)
  refine ⟨⟨s₀, first, ?_⟩, ?_, ?_⟩
  · refine moves.trans ((rtSerialOpen_moves bufsz stored oflag s).trans ?_)
    exact .idle rfl rfl rfl (by simp)
  · intro _
    constructor
    · simp only [rtSerialOpen_others]
      exact active
    · simp only [rtSerialOpen_flag]
      rw [flags.1, kinds.1]
    · simp only [rtSerialOpen_flag]
      rw [flags.2, kinds.2]
  · intro shut
    simp only [Nat.add_eq_zero_iff] at shut
    omega

theorem Inv.unchanged (inv : Inv bufsz tr s) (flag : Flags) (active : has s.flag flagActivated = true →
    has flag flagActivated = true) (quiet : ∀ b, .malloc b ∉ es ∧ .free b ∉ es) :
    Inv bufsz (tr ++ es) { s with flag := flag } := by
  obtain ⟨s₀, first, moves⟩ := inv.moves
  refine ⟨⟨s₀, first, moves.trans (.idle rfl rfl rfl quiet)⟩, ?_, inv.closed⟩
  exact fun up => ⟨active (inv.opened up).active, (inv.opened up).rx, (inv.opened up).tx⟩

theorem Inv.activate (inv : Inv bufsz tr s) (configured : Result) : ∃ flag,
    (activate configured s).2 = { s with flag := flag } ∧
    (has s.flag flagActivated = true → has flag flagActivated = true) ∧
    ((activate configured s).1 = true → has flag flagActivated = true) ∧
    has flag flagStandalone = has s.flag flagStandalone ∧
    ∀ oflag, unsupported flag oflag = unsupported s.flag oflag := by
  unfold SerialOpen.activate
  by_cases active : has s.flag flagActivated = true
  · rw [if_pos active]
    exact ⟨s.flag, rfl, id, fun _ => active, rfl, fun _ => rfl⟩
  · rw [if_neg active]
    have shut : s.refCount = 0 := by
      rcases Nat.eq_zero_or_pos s.refCount with shut | up
      · exact shut
      · exact absurd (inv.opened up).active active
    have empty : rtSerialInit s = s := by
      rw [rtSerialInit, ← (inv.closed shut).1, ← (inv.closed shut).2]
    split
    · have others (mask : Flags) (apart : has flagActivated mask = false) :
          has (s.flag ||| flagActivated) mask = has s.flag mask := by
        rw [has_or, apart, Bool.or_false]
      refine ⟨s.flag ||| flagActivated, ?_, ?_, ?_, others _ (by decide), ?_⟩
      · rw [empty]
      · intro before
        rw [has_or, before, Bool.true_or]
      · intro _
        rw [has_or]
        simp [show has flagActivated flagActivated = true from by decide]
      · intro oflag
        simp only [unsupported]
        rw [others _ (by decide), others _ (by decide), others _ (by decide), others _ (by decide)]
    · exact ⟨s.flag, empty, id, nofun, rfl, fun _ => rfl⟩

theorem Inv.opens {oflag : Flags} {configured : Result} {stored : Bool} (inv : Inv bufsz tr s)
    (guard : Guard bufsz s (.opens oflag configured stored))
    (taken : rtDeviceOpen bufsz oflag configured stored s = some (s', es)) : Inv bufsz (tr ++ es) s' := by
  obtain ⟨flag, device, kept, ready, standalone, support⟩ := inv.activate configured
  have same : Inv bufsz (tr ++ []) { s with flag := flag } := inv.unchanged flag kept (by simp)
  rw [List.append_nil] at same
  simp only [rtDeviceOpen, device] at taken
  split at taken
  · cases taken
    exact inv.unchanged flag kept (by simp)
  · rename_i isReady
    split at taken
    · cases taken
      exact inv.unchanged flag kept (by simp)
    · rename_i free
      split at taken
      · cases taken
        exact inv.unchanged flag kept (by simp)
      · rename_i supported
        split at taken
        · contradiction
        · cases taken
          simp only [standalone, Bool.and_eq_true] at free
          simp only [support, Bool.not_eq_true] at supported
          simp only [Bool.not_eq_true', Bool.not_eq_false] at isReady
          have fits := guard oflag configured stored rfl free supported
          exact same.accepted (ready isReady) fits.1 fits.2

structure Closed (s s' : Serial) (es : List Event) : Prop where
  refs : s'.refCount = s.refCount
  moves : Moves s s' es

theorem closeRx_closed (fits : s.rx.map RxBuffer.kind = rxKind bufsz s.openFlag)
    (done : closeRx s = some (s', es)) : Closed s s' es ∧ s'.rx = none ∧ s'.tx = s.tx ∧
      txKind s'.openFlag = txKind s.openFlag := by
  have freed (rx : RxBuffer) (found : s.rx = some rx) (f arg : Flags) :
      Closed s { s with rx := none, openFlag := f } [.free rx.block, .control .clrInt arg] := by
    refine ⟨rfl, .freed [rx.block] rfl (by simp) (by simp [List.count_cons]) ?_⟩
    simp [held, found, (List.perm_append_singleton _ _).symm]
  have txKept (mask : Flags) (int : mask &&& flagIntTx = flagIntTx) (dma : mask &&& flagDmaTx = flagDmaTx) :
      txKind (s.openFlag &&& mask) = txKind s.openFlag := by
    simp only [txKind, has_kept _ _ _ int, has_kept _ _ _ dma]
  simp only [closeRx] at done
  split at done
  · obtain ⟨rx, found, same⟩ := Option.map_eq_some_iff.mp done
    cases same
    exact ⟨freed rx found _ _, rfl, rfl, txKept _ (by decide) (by decide)⟩
  · rename_i noInt
    split at done
    · obtain ⟨rx, found, same⟩ := Option.map_eq_some_iff.mp done
      cases same
      exact ⟨freed rx found _ _, rfl, rfl, txKept _ (by decide) (by decide)⟩
    · rename_i noDma
      cases done
      rw [rxKind, if_neg noInt, if_neg noDma] at fits
      exact ⟨⟨rfl, .idle rfl rfl rfl (by simp)⟩, Option.map_eq_none_iff.mp fits, rfl, rfl⟩

theorem closeTx_closed (fits : s.tx.map TxBuffer.kind = txKind s.openFlag)
    (done : closeTx s = some (s', es)) : Closed s s' es ∧ s'.tx = none ∧ s'.rx = s.rx := by
  simp only [closeTx] at done
  rw [txKind] at fits
  split at done
  · rename_i int
    rw [if_pos int] at fits
    obtain ⟨tx, found, same⟩ := Option.map_eq_some_iff.mp done
    cases same
    rw [found] at fits
    cases tx with
    | dma block queue => simp [TxBuffer.kind] at fits
    | fifo block =>
      refine ⟨⟨rfl, .freed [block] rfl (by simp) ?_ ?_⟩, rfl, rfl⟩
      · simp [List.count_cons, TxBuffer.block]
      · simp [held, found, TxBuffer.blocks]
  · rename_i noInt
    split at done
    · split at done
      · rename_i block queue found
        cases done
        refine ⟨⟨rfl, .freed (queue.toList ++ [block]) rfl (by simp) ?_ ?_⟩, rfl, rfl⟩
        · intro b
          cases queue <;> simp [List.count_cons]
        · cases queue <;> simp [held, found, TxBuffer.blocks]
          exact (List.Perm.swap _ _ _).append_left _
      · contradiction
    · rename_i noDma
      cases done
      rw [if_neg noInt, if_neg noDma] at fits
      exact ⟨⟨rfl, .idle rfl rfl rfl (by simp)⟩, Option.map_eq_none_iff.mp fits, rfl⟩

theorem Inv.closes (inv : Inv bufsz tr s) (taken : rtDeviceClose s = some (s', es)) :
    Inv bufsz (tr ++ es) s' := by
  simp only [rtDeviceClose] at taken
  split at taken
  · cases taken
    exact inv.unchanged s.flag id (by simp)
  · rename_i up
    have opened := inv.opened (Nat.pos_of_ne_zero up)
    obtain ⟨s₀, first, moves⟩ := inv.moves
    split at taken
    · rename_i more
      cases taken
      refine ⟨⟨s₀, first, moves.trans (.idle rfl rfl rfl (by simp))⟩, ?_, ?_⟩
      · exact fun _ => ⟨opened.active, opened.rx, opened.tx⟩
      · exact fun shut => absurd shut more
    · rename_i last
      simp only [ne_eq, not_not] at last
      obtain ⟨⟨q, events⟩, closed, same⟩ := Option.map_eq_some_iff.mp taken
      cases same
      obtain ⟨⟨mid, rxEvents⟩, closedRx, rest⟩ := Option.bind_eq_some_iff.mp closed
      obtain ⟨⟨final, txEvents⟩, closedTx, same⟩ := Option.map_eq_some_iff.mp rest
      cases same
      obtain ⟨rx, rxGone, txSame, kinds⟩ :=
        closeRx_closed (s := { s with refCount := s.refCount - 1 }) opened.rx closedRx
      obtain ⟨tx, txGone, rxSame⟩ := closeTx_closed (by rw [txSame, kinds]; exact opened.tx) closedTx
      have start : Moves s { s with refCount := s.refCount - 1 } [] := .idle rfl rfl rfl (by simp)
      have finish : Moves final { final with flag := final.flag &&& ~~~flagActivated, openFlag := 0 }
          [.control .close 0, .returned .eok] := .idle rfl rfl rfl (by simp)
      refine ⟨⟨s₀, first, ?_⟩, ?_, ?_⟩
      · have all := moves.trans (start.trans (rx.moves.trans (tx.moves.trans finish)))
        simpa only [List.nil_append, List.append_assoc, List.cons_append] using all
      · intro open_again
        have refs := tx.refs.trans rx.refs
        simp only at open_again refs
        omega
      · intro _
        exact ⟨rxSame.trans rxGone, txGone⟩

theorem inv_start (first : Start s) : Inv bufsz [] s := by
  refine ⟨⟨s, first, .idle rfl rfl rfl (by simp)⟩, ?_, fun _ => ⟨first.rx, first.tx⟩⟩
  intro up
  rw [first.refs] at up
  omega

/-- The opens of a device that is open are for the structures it has: then open_flag always
tells them, and the last close gives all memory back. -/
theorem opens_consistent (run : RunWhere (machine bufsz) (Guard bufsz) tr s) : Consistent bufsz tr s := by
  refine Inv.consistent (run.invariant (I := fun tr s => Inv bufsz tr s) ?_ ?_)
  · exact fun s first => inv_start first
  · intro tr s a s' es _ inv guard taken
    cases a with
    | opens oflag configured stored => exact inv.opens guard taken
    | closes => exact inv.closes taken

end Steps

def guardChecked (bufsz : Nat) (s : Serial) : Action → Bool
  | .opens oflag _ _ =>
    s.rx.all (fun rx => rxKind bufsz oflag = some rx.kind) && s.tx.all (fun tx => txKind oflag = some tx.kind)
  | .closes => true

theorem guardChecked_sound {bufsz : Nat} {s : Serial} {a : Action} (checked : guardChecked bufsz s a = true) :
    Guard bufsz s a := by
  rintro oflag configured stored rfl _ _
  simp only [guardChecked, Bool.and_eq_true, Option.all_eq_true, decide_eq_true_eq] at checked
  exact checked

/-- A device for interrupts and DMA in both directions. -/
def fresh : Serial := ⟨0xf03, 0, 0, none, none, 0⟩

theorem fresh_start : Start fresh := ⟨by decide, rfl, rfl, rfl, rfl⟩

/-- Two users that receive by interrupt and transmit by DMA. -/
theorem opens_consistent_shared : ∃ s tr, Consistent 64 tr s ∧ s.refCount = 0 ∧ s.next = 3 := by
  obtain ⟨tr, s, run, found⟩ := Run.reaches (M := (machine 64).restrict (guardChecked 64)) fresh_start
    [.opens 0x903 .eok true, .opens 0x943 .eok true, .closes, .closes]
    (fun s => decide (s.refCount = 0 ∧ s.next = 3)) (by decide)
  exact ⟨s, tr, opens_consistent (RunWhere.ofRestrict (fun _ _ _ _ => guardChecked_sound) run),
    of_decide_eq_true found⟩

/-- The second user does not ask for interrupts: the flag is gone, and with it the buffer. -/
theorem flag_overwritten : ∃ tr s, Run (machine 64) tr s ∧
    s.refCount = 0 ∧ s.rx = some ⟨.fifo, 0⟩ ∧ ¬ Consistent 64 tr s := by
  obtain ⟨tr, s, run, found⟩ := Run.reaches (M := machine 64) fresh_start
    [.opens 0x103 .eok true, .opens 0x003 .eok true, .closes, .closes]
    (fun s => decide (s.refCount = 0 ∧ s.rx = some ⟨.fifo, 0⟩)) (by decide)
  obtain ⟨refs, rx⟩ := of_decide_eq_true found
  refine ⟨tr, s, run, refs, rx, ?_⟩
  intro consistent
  have gone := (consistent.closed refs).1
  rw [rx] at gone
  contradiction

end RtThread.SerialOpen
