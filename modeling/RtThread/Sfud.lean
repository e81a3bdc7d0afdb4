import RtThread.NorFlash

/-! sfud, the driver of serial flashes. Every transfer over the bus may fail, and the chip takes its
time: what it works on ends before some later transfer. -/
namespace RtThread.Sfud
open NorFlash

inductive SfudErr where
  | success
  | notFound
  | write
  | read
  | timeout
  | addrOutOfBound
  deriving DecidableEq

structure Eraser where
  size : Nat
  cmd : UInt8

/-- What the driver knows of the chip; `sfdp` are the erasers of its parameter table, where it has one. -/
structure Flash where
  capacity : Nat
  writeMode : UInt16
  eraseGran : Nat
  eraseGranCmd : UInt8
  addrIn4Byte : Bool
  retryTimes : Nat
  sfdp : Option (Fin 4 → Eraser)

def wmPage256B : UInt16 := 1

def wmAai : UInt16 := 4

def wmDualBuffer : UInt16 := 8

def addrLen (f : Flash) : Nat := if f.addrIn4Byte then 4 else 3

/-- One transfer: whether the chip has come to the end of its work before, whether the transfer is
reported to have worked, and whether one that is not still reached the chip. -/
structure Transfer where
  done : Bool
  ok : Bool
  reached : Bool

structure Bus (k : Kind) where
  chip : Chip
  transfers : Nat → Transfer

variable {k : Kind}

/-- `spi->wr`: a frame, and `n` bytes that are read behind it. -/
def wr (b : Bus k) (frame : List UInt8) (n : Nat) : SfudErr × List UInt8 × Bus k :=
  let t := b.transfers 0
  let chip := if t.done then b.chip.finish else b.chip
  (if t.ok then .success else .timeout, if t.ok then chip.answer k frame n else [],
    ⟨if t.ok || t.reached then chip.receive k frame else chip, fun i => b.transfers (i + 1)⟩)

def send (b : Bus k) (frame : List UInt8) : SfudErr × Bus k :=
  let (result, _, b) := wr b frame 0
  (result, b)

def sfudReadStatus (b : Bus k) : SfudErr × UInt8 × Bus k :=
  let (result, bytes, b) := wr b [0x05] 1
  (result, bytes.headD 0, b)

def waitBusy (retryTimes : Nat) (b : Bus k) : SfudErr × Bus k :=
  let (result, status, b) := sfudReadStatus b
  if result = .success ∧ status &&& 1 = 0 then (.success, b)
  else match retryTimes with
    | 0 => (.timeout, b)
    | retryTimes + 1 => waitBusy retryTimes b

def setWriteEnabled (enabled : Bool) (b : Bus k) : SfudErr × Bus k :=
  let (result, b) := send b [if enabled then 0x06 else 0x04]
  if result ≠ .success then (result, b)
  else
    let (result, status, b) := sfudReadStatus b
    if result ≠ .success then (result, b)
    else if enabled ∧ status &&& 2 = 0 then (.write, b)
    else if ¬enabled ∧ status &&& 2 ≠ 0 then (.write, b)
    else (.success, b)

def makeAdressByteArray (f : Flash) (addr : Nat) : List UInt8 :=
  (List.range (addrLen f)).map (fun i => UInt8.ofNat (addr >>> ((addrLen f - (i + 1)) * 8)))

/-- How much of `size` bytes goes up to the next border. -/
def dataSize (writeGran addr size : Nat) : Nat :=
  if addr % writeGran ≠ 0 then if writeGran - addr % writeGran < size then writeGran - addr % writeGran else size
  else if writeGran < size then writeGran
  else size

/-- The loop of page256_or_1_byte_write. A turn sends at least one byte, so `size` turns are enough. -/
def pageLoop (f : Flash) (writeGran : Nat) : Nat → Nat → Nat → List UInt8 → Bus k → SfudErr × Bus k
  | 0, _, _, _, b => (.success, b)
  | turns + 1, addr, size, data, b =>
    if size = 0 then (.success, b)
    else
      let (result, b) := setWriteEnabled true b
      if result ≠ .success then (result, b)
      else
        let part := dataSize writeGran addr size
        let (result, b) := send b (0x02 :: (makeAdressByteArray f addr ++ data.take part))
        if result ≠ .success then (result, b)
        else
          let (result, b) := waitBusy f.retryTimes b
          if result ≠ .success then (result, b)
          else pageLoop f writeGran turns ((addr + part) % 2 ^ 32) (size - part) (data.drop part) b

def page256Or1ByteWrite (f : Flash) (addr size writeGran : Nat) (data : List UInt8) (b : Bus k) : SfudErr × Bus k :=
  if f.capacity < (addr + size) % 2 ^ 32 then (.addrOutOfBound, b)
  else
    let (result, b) := pageLoop f writeGran size addr size data b
    (result, (setWriteEnabled false b).2)

/-- What aai_write's loop goes on with. -/
structure Rest where
  addr : Nat
  size : Nat
  data : List UInt8

/-- The loop of aai_write. -/
def aaiLoop (f : Flash) : Nat → Bool → Rest → Bus k → SfudErr × Rest × Bus k
  | 0, _, rest, b => (.success, rest, b)
  | turns + 1, firstWrite, rest, b =>
    if rest.size < 2 then (.success, rest, b)
    else
      let frame :=
        if firstWrite then 0xAD :: (makeAdressByteArray f rest.addr ++ rest.data.take 2) else 0xAD :: rest.data.take 2
      let (result, b) := send b frame
      if result ≠ .success then (result, rest, b)
      else
        let (result, b) := waitBusy f.retryTimes b
        if result ≠ .success then (result, rest, b)
        else aaiLoop f turns false ⟨(rest.addr + 2) % 2 ^ 32, rest.size - 2, rest.data.drop 2⟩ b

/-- aai_write from an even address on. -/
def aaiEven (f : Flash) (rest : Rest) (b : Bus k) : SfudErr × Bus k :=
  let (result, b) := setWriteEnabled true b
  if result ≠ .success then (result, b)
  else
    let (result, rest, b) := aaiLoop f rest.size true rest b
    if result ≠ .success then (result, b)
    else
      let (result, b) := setWriteEnabled false b
      if result = .success ∧ rest.size = 1 then page256Or1ByteWrite f rest.addr 1 1 rest.data b else (result, b)

/-- aai_write behind its check and up to its exit. -/
def aaiBody (f : Flash) (addr size : Nat) (data : List UInt8) (b : Bus k) : SfudErr × Bus k :=
  if addr % 2 ≠ 0 then
    let (result, b) := page256Or1ByteWrite f addr 1 1 data b
    if result ≠ .success then (result, b)
    else aaiEven f ⟨(addr + 1) % 2 ^ 32, (size + (2 ^ 32 - 1)) % 2 ^ 32, data.drop 1⟩ b
  else aaiEven f ⟨addr, size, data⟩ b

def aaiWrite (f : Flash) (addr size : Nat) (data : List UInt8) (b : Bus k) : SfudErr × Bus k :=
  if f.capacity < (addr + size) % 2 ^ 32 then (.addrOutOfBound, b)
  else
    let (result, b) := aaiBody f addr size data b
    if result ≠ .success then (result, (setWriteEnabled false b).2) else (result, b)

/-- A chip that takes neither pages nor words is not written, and the result is success. -/
def sfudWrite (f : Flash) (addr size : Nat) (data : List UInt8) (b : Bus k) : SfudErr × Bus k :=
  if f.writeMode &&& wmPage256B ≠ 0 then page256Or1ByteWrite f addr size 256 data b
  else if f.writeMode &&& wmAai ≠ 0 then aaiWrite f addr size data b
  else (.success, b)

def sfudRead (f : Flash) (addr size : Nat) (b : Bus k) : SfudErr × List UInt8 × Bus k :=
  if f.capacity < (addr + size) % 2 ^ 32 then (.addrOutOfBound, [], b)
  else
    let (result, b) := waitBusy f.retryTimes b
    if result ≠ .success then (result, [], b)
    else wr b (0x03 :: makeAdressByteArray f addr) size

/-- sfud_chip_erase up to its exit. -/
def chipErase (f : Flash) (b : Bus k) : SfudErr × Bus k :=
  let (result, b) := setWriteEnabled true b
  if result ≠ .success then (result, b)
  else
    let (result, b) := send b (0xC7 :: if f.writeMode &&& wmDualBuffer ≠ 0 then [0x94, 0x80, 0x9A] else [])
    if result ≠ .success then (result, b) else waitBusy f.retryTimes b

def sfudChipErase (f : Flash) (b : Bus k) : SfudErr × Bus k :=
  let (result, b) := chipErase f b
  (result, (setWriteEnabled false b).2)

/-- sfud_sfdp_get_suitable_eraser: from the end of the table, the first that the rest of the range can
take. -/
def getSuitableEraser (e : Fin 4 → Eraser) (addr size : Nat) : Eraser :=
  let suits (i : Fin 4) : Bool := (e i).size ≠ 0 && decide ((e i).size ≤ size) && addr % (e i).size = 0
  if addr % (e 0).size ≠ 0 then e 0
  else if suits 3 then e 3
  else if suits 2 then e 2
  else if suits 1 then e 1
  else e 0

def curEraser (f : Flash) (addr size : Nat) : Eraser :=
  match f.sfdp with
  | some e => getSuitableEraser e addr size
  | none => ⟨f.eraseGran, f.eraseGranCmd⟩

/-- What a block of the eraser covers from `addr` on. -/
def erasePart (e : Eraser) (addr : Nat) : Nat := if addr % e.size ≠ 0 then e.size - addr % e.size else e.size

/-- The loop of sfud_erase. -/
def eraseLoop (f : Flash) : Nat → Nat → Nat → Bus k → SfudErr × Bus k
  | 0, _, _, b => (.success, b)
  | turns + 1, addr, size, b =>
    if size = 0 then (.success, b)
    else
      let e := curEraser f addr size
      let (result, b) := setWriteEnabled true b
      if result ≠ .success then (result, b)
      else
        let (result, b) := send b (e.cmd :: makeAdressByteArray f addr)
        if result ≠ .success then (result, b)
        else
          let (result, b) := waitBusy f.retryTimes b
          if result ≠ .success then (result, b)
          else
            let part := erasePart e addr
            if part < size then eraseLoop f turns ((addr + part) % 2 ^ 32) (size - part) b else (result, b)

def sfudErase (f : Flash) (addr size : Nat) (b : Bus k) : SfudErr × Bus k :=
  if f.capacity < (addr + size) % 2 ^ 32 then (.addrOutOfBound, b)
  else if addr = 0 ∧ size = f.capacity then sfudChipErase f b
  else
    let (result, b) := eraseLoop f size addr size b
    (result, (setWriteEnabled false b).2)

def sfudEraseWrite (f : Flash) (addr size : Nat) (data : List UInt8) (b : Bus k) : SfudErr × Bus k :=
  let (result, b) := sfudErase f addr size b
  if result = .success then sfudWrite f addr size data b else (result, b)

def smallest (f : Flash) : Nat :=
  match f.sfdp with
  | some e => (e 0).size
  | none => f.eraseGran

/-- The driver knows its chip. -/
structure Fits (f : Flash) (k : Kind) : Prop where
  page : k.page = 256
  addrBytes : k.addrBytes = addrLen f
  capacity : k.capacity = f.capacity
  reach : f.capacity ≤ 256 ^ addrLen f
  chipErase : k.chipErase = if f.writeMode &&& wmDualBuffer ≠ 0 then [0x94, 0x80, 0x9A] else []
  gran : f.sfdp = none → k.eraser f.eraseGranCmd = some f.eraseGran
  table : ∀ e, f.sfdp = some e → ∀ i, (e i).size ≠ 0 → k.eraser (e i).cmd = some (e i).size
  some_ : 0 < smallest f

section steps
variable {b b' : Bus k} {f : Flash} {result : SfudErr} {bits : UInt8} {frame : List UInt8}

theorem send_spec (sent : send b frame = (result, b')) : ∃ c, (c = b.chip ∨ c = b.chip.finish) ∧
    (b'.chip = c.receive k frame ∨ (result = .timeout ∧ b'.chip = c)) := by
  simp only [send, wr, Prod.mk.injEq] at sent
  obtain ⟨rfl, rfl⟩ := sent
  refine ⟨if (b.transfers 0).done then b.chip.finish else b.chip, ?_, ?_⟩
  · split
    · exact .inr rfl
    · exact .inl rfl
  · cases ok : (b.transfers 0).ok <;> cases reached : (b.transfers 0).reached <;> simp

theorem send_idle (idle : b.chip.busy = false) (sent : send b frame = (result, b')) :
    b'.chip = b.chip.receive k frame ∨ (result = .timeout ∧ b'.chip = b.chip) := by
  obtain ⟨c, rests, told⟩ := send_spec sent
  obtain rfl : c = b.chip := rests.elim id (fun ended => ended.trans (finish_idle idle))
  exact told

theorem readStatus_spec (read : sfudReadStatus b = (result, bits, b')) :
    (b'.chip = b.chip ∨ b'.chip = b.chip.finish) ∧ (result = .success → bits = b'.chip.status) := by
  simp only [sfudReadStatus, wr, receive_status, ite_self, Chip.answer, Prod.mk.injEq] at read
  obtain ⟨rfl, rfl, rfl⟩ := read
  constructor
  · dsimp only
    split
    · exact .inr rfl
    · exact .inl rfl
  · intro ok
    split at ok
    · next ok' => simp [ok']
    · cases ok

theorem still_of_status (rests : b'.chip = b.chip ∨ b'.chip = b.chip.finish) (still : b'.chip.busy = false) :
    b'.chip = b.chip.finish := by
  rcases rests with same | ended
  · rw [← finish_idle still, same]
  · exact ended

/-- By induction on the retries, each of which leaves the chip to its work. -/
theorem waitBusy_spec {retryTimes : Nat} (waited : waitBusy retryTimes b = (result, b')) :
    (b'.chip = b.chip ∨ b'.chip = b.chip.finish) ∧ (result = .success → b'.chip = b.chip.finish) := by
  induction retryTimes generalizing b with
  | zero =>
    rcases read : sfudReadStatus b with ⟨result₁, bits, b₁⟩
    obtain ⟨rests, known⟩ := readStatus_spec read
    simp only [waitBusy, read] at waited
    split at waited
    · next idle =>
      cases waited
      have still := status_busy.mp (known idle.1 ▸ idle.2)
      exact ⟨rests, fun _ => still_of_status rests still⟩
    · cases waited
      exact ⟨rests, fun ok => by cases ok⟩
  | succ retryTimes ih =>
    rcases read : sfudReadStatus b with ⟨result₁, bits, b₁⟩
    obtain ⟨rests, known⟩ := readStatus_spec read
    rw [waitBusy] at waited
    simp only [read] at waited
    split at waited
    · next idle =>
      cases waited
      have still := status_busy.mp (known idle.1 ▸ idle.2)
      exact ⟨rests, fun _ => still_of_status rests still⟩
    · obtain ⟨rests', ends⟩ := ih waited
      rcases rests with same | ended
      · rw [same] at rests' ends
        exact ⟨rests', ends⟩
      · have twice : b.chip.finish.finish = b.chip.finish := finish_idle finish_busy
        rw [ended, twice] at rests' ends
        exact ⟨.inr (rests'.elim id id), ends⟩

/-- What set_write_enabled does: a command, and where it was sent a look at the latch. -/
theorem setWriteEnabled_cases {enabled : Bool} (done : setWriteEnabled enabled b = (result, b')) :
    ∃ result₁ b₁, send b [if enabled then 0x06 else 0x04] = (result₁, b₁) ∧
      (b'.chip = b₁.chip ∨ b'.chip = b₁.chip.finish) ∧
      (result = .success → result₁ = .success ∧ b'.chip.wel = enabled) := by
  rcases sent : send b [if enabled then 0x06 else 0x04] with ⟨result₁, b₁⟩
  refine ⟨result₁, b₁, rfl, ?_⟩
  rcases read : sfudReadStatus b₁ with ⟨result₂, bits, b₂⟩
  obtain ⟨rests, known⟩ := readStatus_spec read
  simp only [setWriteEnabled, sent, read] at done
  split at done
  · next failed =>
    cases done
    exact ⟨.inl rfl, fun ok => absurd ok failed⟩
  next ok₁ =>
  split at done
  · next failed =>
    cases done
    exact ⟨rests, fun ok => absurd ok failed⟩
  next ok₂ =>
  rw [known (not_not.mp ok₂)] at done
  split at done
  · cases done
    exact ⟨rests, fun ok => by cases ok⟩
  next not_down =>
  split at done
  · cases done
    exact ⟨rests, fun ok => by cases ok⟩
  next not_up =>
  cases done
  refine ⟨rests, fun _ => ⟨not_not.mp ok₁, ?_⟩⟩
  cases enabled with
  | true => exact Bool.eq_true_of_not_eq_false (fun down => not_down ⟨rfl, status_wel.mpr down⟩)
  | false => exact status_wel.mp (not_not.mp (fun up => not_up ⟨Bool.false_ne_true, up⟩))

theorem enable_spec (idle : b.chip.Idle) (done : setWriteEnabled true b = (result, b')) :
    b'.chip.Idle ∧ b'.chip.cells = b.chip.cells ∧ (result = .success → b'.chip.wel = true) := by
  obtain ⟨result₁, b₁, sent, rests, up⟩ := setWriteEnabled_cases done
  have kept : b₁.chip.Idle ∧ b₁.chip.cells = b.chip.cells := by
    rcases send_idle idle.1 sent with new | ⟨_, same⟩
    · rw [new, if_pos rfl, receive_writeEnable idle.1]
      exact ⟨idle, rfl⟩
    · rw [same]
      exact ⟨idle, rfl⟩
  have same : b'.chip = b₁.chip := rests.elim id (fun ended => ended.trans (finish_idle kept.1.1))
  rw [← same] at kept
  exact ⟨kept.1, kept.2, fun ok => (up ok).2⟩

theorem disable_cells (done : setWriteEnabled false b = (result, b')) : b'.chip.cells = b.chip.cells := by
  obtain ⟨result₁, b₁, sent, rests, _⟩ := setWriteEnabled_cases done
  obtain ⟨c, before, told⟩ := send_spec sent
  have first : c.cells = b.chip.cells := by
    rcases before with rfl | rfl
    · rfl
    · exact finish_cells
  have second : b₁.chip.cells = c.cells := by
    rcases told with new | ⟨_, same⟩
    · rw [new, if_neg Bool.false_ne_true, receive_writeDisable_cells]
    · rw [same]
  have third : b'.chip.cells = b₁.chip.cells := by
    rcases rests with same | ended
    · rw [same]
    · rw [ended, finish_cells]
  exact third.trans (second.trans first)

theorem disable_spec (still : b.chip.busy = false) (done : setWriteEnabled false b = (result, b')) :
    (result = .success → b'.chip.Idle) ∧ (b.chip.Idle → b'.chip.Idle) := by
  obtain ⟨result₁, b₁, sent, rests, up⟩ := setWriteEnabled_cases done
  have told := send_idle still sent
  rw [if_neg Bool.false_ne_true, receive_writeDisable still] at told
  have still₁ : b₁.chip.busy = false := by
    rcases told with new | ⟨_, same⟩
    · rw [new]
      exact still
    · rw [same]
      exact still
  have same : b'.chip = b₁.chip := rests.elim id (fun ended => ended.trans (finish_idle still₁))
  rw [same]
  rcases told with new | ⟨failed, old⟩
  · rw [new]
    exact ⟨fun _ => ⟨still, rfl⟩, fun _ => ⟨still, rfl⟩⟩
  · rw [old]
    refine ⟨fun ok => ?_, id⟩
    rw [(up ok).1] at failed
    cases failed

theorem operation_spec {m : Cells} {retryTimes : Nat} {b₁ b₂ : Bus k} {result₁ result₂ : SfudErr} (idle : b.chip.Idle)
    (does : b.chip.receive k frame = { b.chip with cells := m, busy := true })
    (sent : send b frame = (result₁, b₁)) (waited : waitBusy retryTimes b₁ = (result₂, b₂)) :
    (b₁.chip.cells = m ∨ b₁.chip.cells = b.chip.cells) ∧
      (result₁ = .success → b₂.chip.cells = m ∧ (result₂ = .success → b₂.chip.Idle)) := by
  have told := send_idle idle.1 sent
  rw [does] at told
  constructor
  · rcases told with new | ⟨_, same⟩
    · exact .inl (new ▸ rfl)
    · exact .inr (same ▸ rfl)
  · rintro rfl
    have new : b₁.chip = { b.chip with cells := m, busy := true } := told.elim id (fun failed => by cases failed.1)
    obtain ⟨rests, ends⟩ := waitBusy_spec waited
    refine ⟨?_, fun ok => ?_⟩
    · rcases rests with same | ended
      · rw [same, new]
      · rw [ended, finish_cells, new]
    · rw [ends ok]
      exact ⟨finish_busy, by rw [finish_aai, new, idle.2]⟩

end steps

/-- How a write leaves the chip: some of the first bytes are programmed, all of them where the result is
success. -/
structure Wrote (b : Bus k) (addr : Nat) (data : List UInt8) (result : SfudErr) (b' : Bus k) : Prop where
  part : ∃ n ≤ data.length, b'.chip.cells = program b.chip.cells addr (data.take n)
  whole : result = .success → b'.chip.cells = program b.chip.cells addr data ∧ b'.chip.Idle

section writes
variable {b b₁ b' : Bus k} {f : Flash} {result : SfudErr} {addr size writeGran turns : Nat} {data : List UInt8}

theorem Wrote.none (same : b'.chip.cells = b.chip.cells) (failed : result ≠ .success) :
    Wrote b addr data result b' :=
  ⟨⟨0, Nat.zero_le _, by rw [same, List.take_zero, program_nil]⟩, fun ok => absurd ok failed⟩

theorem Wrote.some {n : Nat} (inside : n ≤ data.length)
    (cells : b'.chip.cells = program b.chip.cells addr (data.take n) ∨ b'.chip.cells = b.chip.cells)
    (failed : result ≠ .success) : Wrote b addr data result b' := by
  rcases cells with new | same
  · exact ⟨⟨n, inside, new⟩, fun ok => absurd ok failed⟩
  · exact .none same failed

theorem Wrote.next {n : Nat} (inside : n ≤ data.length)
    (first : b₁.chip.cells = program b.chip.cells addr (data.take n))
    (rest : Wrote b₁ (addr + n) (data.drop n) result b') : Wrote b addr data result b' := by
  obtain ⟨⟨m, within, cells⟩, whole⟩ := rest
  rw [List.length_drop] at within
  constructor
  · refine ⟨n + m, by lia, ?_⟩
    rw [cells, first, program_take inside]
  · intro ok
    have all := program_take inside (data.length - n) (m := b.chip.cells) (a := addr)
    have behind : (data.drop n).take (data.length - n) = data.drop n :=
      List.take_of_length_le (by rw [List.length_drop])
    have full : data.take (n + (data.length - n)) = data := List.take_of_length_le (by lia)
    rw [behind, full] at all
    rw [(whole ok).1, first, all]
    exact ⟨rfl, (whole ok).2⟩

theorem dataSize_spec (addr : Nat) (gran : writeGran = 1 ∨ writeGran = 256) (some_ : size ≠ 0) :
    0 < dataSize writeGran addr size ∧ dataSize writeGran addr size ≤ size ∧
      addr % 256 + dataSize writeGran addr size ≤ 256 := by
  unfold dataSize
  rcases gran with rfl | rfl
  · split
    · lia
    · split <;> lia
  · split
    · split <;> lia
    · split <;> lia

/-- By induction on the turns, each of which programs one piece of a page. -/
theorem pageLoop_spec (fits : Fits f k) (small : f.capacity < 2 ^ 32) (gran : writeGran = 1 ∨ writeGran = 256)
    (idle : b.chip.Idle) (enough : data.length ≤ turns) (inside : addr + data.length ≤ f.capacity)
    (done : pageLoop f writeGran turns addr data.length data b = (result, b')) : Wrote b addr data result b' := by
  induction turns generalizing addr data b with
  | zero =>
    obtain rfl : data = [] := List.length_eq_zero_iff.mp (by lia)
    cases done
    exact ⟨⟨0, Nat.le_refl _, program_nil.symm⟩, fun _ => ⟨program_nil.symm, idle⟩⟩
  | succ turns ih =>
    rw [pageLoop] at done
    by_cases empty : data.length = 0
    · rw [if_pos empty] at done
      cases done
      obtain rfl : data = [] := List.length_eq_zero_iff.mp empty
      exact ⟨⟨0, Nat.le_refl _, program_nil.symm⟩, fun _ => ⟨program_nil.symm, idle⟩⟩
    rw [if_neg empty] at done
    rcases enabled : setWriteEnabled true b with ⟨result₁, b₁⟩
    obtain ⟨idle₁, same, up⟩ := enable_spec idle enabled
    obtain ⟨some_, most, page⟩ := dataSize_spec addr gran empty
    obtain ⟨part, isPart⟩ : ∃ part, part = dataSize writeGran addr data.length := ⟨_, rfl⟩
    rw [← isPart] at some_ most page
    simp only [enabled, ← isPart] at done
    split at done
    · next failed =>
      cases done
      exact .none same failed
    next ok₁ =>
    rcases sent : send b₁ (0x02 :: (makeAdressByteArray f addr ++ data.take part)) with ⟨result₂, b₂⟩
    have len : (data.take part).length = part := List.length_take_of_le most
    have does : b₁.chip.receive k (0x02 :: (bigEndian k.addrBytes addr ++ data.take part)) = _ :=
      receive_pageProgram idle₁ (up (not_not.mp ok₁))
      (by rw [fits.addrBytes]; have reach := fits.reach; lia) (List.ne_nil_of_length_pos (by lia))
      (by rw [fits.page, len]; exact page)
    rw [fits.addrBytes, same] at does
    simp only [sent] at done
    rcases waited : waitBusy f.retryTimes b₂ with ⟨result₃, b₃⟩
    obtain ⟨either, whole⟩ := operation_spec idle₁ does sent waited
    rw [same] at either
    split at done
    · next failed =>
      cases done
      exact .some most either failed
    next ok₂ =>
    obtain ⟨cells, idle₃⟩ := whole (not_not.mp ok₂)
    simp only [waited] at done
    split at done
    · next failed =>
      cases done
      exact .some most (.inl cells) failed
    next ok₃ =>
    rw [Nat.mod_eq_of_lt (by lia), ← List.length_drop] at done
    exact .next most cells (ih (idle₃ (not_not.mp ok₃)) (by rw [List.length_drop]; lia)
      (by rw [List.length_drop]; lia) done)

theorem page256_spec (fits : Fits f k) (small : f.capacity < 2 ^ 32) (gran : writeGran = 1 ∨ writeGran = 256)
    (idle : b.chip.Idle) (inside : addr + data.length ≤ f.capacity)
    (done : page256Or1ByteWrite f addr data.length writeGran data b = (result, b')) :
    Wrote b addr data result b' := by
  rw [page256Or1ByteWrite, if_neg (by lia)] at done
  rcases looped : pageLoop f writeGran data.length addr data.length data b with ⟨result₁, b₁⟩
  rcases disabled : setWriteEnabled false b₁ with ⟨result₂, b₂⟩
  simp only [looped, disabled] at done
  cases done
  obtain ⟨part, whole⟩ := pageLoop_spec fits small gran idle (Nat.le_refl _) inside looped
  rw [← disable_cells disabled] at part whole
  exact ⟨part, fun ok => ⟨(whole ok).1, (disable_spec (whole ok).2.1 disabled).2 (whole ok).2⟩⟩

theorem page256_one {x : UInt8} {rest : List UInt8} :
    page256Or1ByteWrite f addr 1 1 (x :: rest) b = page256Or1ByteWrite f addr 1 1 [x] b := by
  simp [page256Or1ByteWrite, pageLoop, dataSize, Nat.mod_one]

/-- A chip that waits for the next word at `addr`, or for the first. -/
def Armed (first : Bool) (addr : Nat) (c : Chip) : Prop :=
  c.busy = false ∧ c.wel = true ∧ c.aai = if first then none else some addr

theorem word_spec {first : Bool} {x y : UInt8} {b₂ : Bus k} {result₁ result₂ : SfudErr} {retryTimes : Nat}
    (fits : Fits f k) (armed : Armed first addr b.chip) (reach : addr < f.capacity)
    (sent : send b (if first then 0xAD :: (makeAdressByteArray f addr ++ [x, y]) else [0xAD, x, y]) =
      (result₁, b₁))
    (waited : waitBusy retryTimes b₁ = (result₂, b₂)) :
    (b₁.chip.cells = program b.chip.cells addr [x, y] ∨ b₁.chip.cells = b.chip.cells) ∧
      (result₁ = .success → b₂.chip.cells = program b.chip.cells addr [x, y] ∧
        (result₂ = .success → Armed false (addr + 2) b₂.chip)) := by
  obtain ⟨still, up, mode⟩ := armed
  have does : b.chip.receive k (if first then 0xAD :: (makeAdressByteArray f addr ++ [x, y]) else [0xAD, x, y]) =
      { b.chip with cells := program b.chip.cells addr [x, y], aai := some (addr + 2), busy := true } := by
    cases first with
    | true =>
      have within : addr < 256 ^ k.addrBytes := by
        rw [fits.addrBytes]
        exact Nat.lt_of_lt_of_le reach fits.reach
      have one := receive_wordFirst (k := k) (x := x) (y := y) ⟨still, mode⟩ up within
      rw [fits.addrBytes] at one
      exact one
    | false => exact receive_wordNext still up mode
  have told := send_idle still sent
  rw [does] at told
  constructor
  · rcases told with new | ⟨_, same⟩
    · exact .inl (new ▸ rfl)
    · exact .inr (same ▸ rfl)
  · rintro rfl
    have new := told.elim id (fun failed => by cases failed.1)
    obtain ⟨rests, ends⟩ := waitBusy_spec waited
    refine ⟨?_, fun ok => ?_⟩
    · rcases rests with same | ended
      · rw [same, new]
      · rw [ended, finish_cells, new]
    · rw [ends ok, new]
      exact ⟨finish_busy, finish_wel up rfl, finish_aai⟩

/-- By induction on the turns, each of which programs one word. -/
theorem aaiLoop_spec {first : Bool} {rest : Rest} (fits : Fits f k) (small : f.capacity < 2 ^ 32)
    (armed : Armed first addr b.chip) (enough : data.length ≤ turns) (inside : addr + data.length ≤ f.capacity)
    (done : aaiLoop f turns first ⟨addr, data.length, data⟩ b = (result, rest, b')) :
    ∃ n ≤ data.length, b'.chip.cells = program b.chip.cells addr (data.take n) ∧
      (result = .success → rest = ⟨addr + n, data.length - n, data.drop n⟩ ∧ data.length - n < 2 ∧
        b'.chip.busy = false) := by
  induction turns generalizing addr data b first with
  | zero =>
    obtain rfl : data = [] := List.length_eq_zero_iff.mp (by lia)
    cases done
    exact ⟨0, Nat.le_refl _, program_nil.symm, fun _ => ⟨rfl, by decide, armed.1⟩⟩
  | succ turns ih =>
    rw [aaiLoop] at done
    by_cases few : data.length < 2
    · rw [if_pos few] at done
      cases done
      exact ⟨0, Nat.zero_le _, by rw [List.take_zero, program_nil], fun _ => ⟨rfl, few, armed.1⟩⟩
    rw [if_neg few] at done
    obtain ⟨x, y, tail, rfl⟩ : ∃ x y tail, data = x :: y :: tail := by
      match data, few with
      | x :: y :: tail, _ => exact ⟨x, y, tail, rfl⟩
      | [_], few => simp at few
      | [], few => simp at few
    have frame : (if first then (0xAD : UInt8) :: (makeAdressByteArray f addr ++ (x :: y :: tail).take 2)
        else 0xAD :: (x :: y :: tail).take 2) =
        if first then 0xAD :: (makeAdressByteArray f addr ++ [x, y]) else [0xAD, x, y] := rfl
    simp only [frame] at done
    simp only [List.length_cons] at inside enough
    rcases sent : send b (if first then 0xAD :: (makeAdressByteArray f addr ++ [x, y]) else [0xAD, x, y]) with
      ⟨result₁, b₁⟩
    rcases waited : waitBusy f.retryTimes b₁ with ⟨result₂, b₂⟩
    obtain ⟨either, whole⟩ := word_spec fits armed (by lia) sent waited
    simp only [sent, waited] at done
    split at done
    · next failed =>
      cases done
      rcases either with new | same
      · exact ⟨2, by simp, new, fun ok => absurd ok failed⟩
      · exact ⟨0, Nat.zero_le _, by rw [same, List.take_zero, program_nil], fun ok => absurd ok failed⟩
    next ok₁ =>
    obtain ⟨cells, next⟩ := whole (not_not.mp ok₁)
    split at done
    · next failed =>
      cases done
      exact ⟨2, by simp, cells, fun ok => absurd ok failed⟩
    next ok₂ =>
    rw [Nat.mod_eq_of_lt (by lia)] at done
    obtain ⟨n, within, stored, ends⟩ := ih (next (not_not.mp ok₂)) (by lia) (by lia) done
    have joined := program_take (m := b.chip.cells) (a := addr) (show 2 ≤ (x :: y :: tail).length by simp) n
    refine ⟨2 + n, by simp only [List.length_cons]; lia, ?_, fun ok => ?_⟩
    · rw [stored, cells, ← joined]
      rfl
    · obtain ⟨where_, short, still⟩ := ends ok
      refine ⟨?_, by simp only [List.length_cons]; lia, still⟩
      rw [where_, Rest.mk.injEq, List.length_cons, List.length_cons, Nat.add_comm 2 n]
      exact ⟨by lia, by lia, rfl⟩

theorem aaiEven_spec (fits : Fits f k) (small : f.capacity < 2 ^ 32) (idle : b.chip.Idle)
    (inside : addr + data.length ≤ f.capacity) (done : aaiEven f ⟨addr, data.length, data⟩ b = (result, b')) :
    Wrote b addr data result b' := by
  rcases enabled : setWriteEnabled true b with ⟨result₁, b₁⟩
  obtain ⟨idle₁, same, up⟩ := enable_spec idle enabled
  simp only [aaiEven, enabled] at done
  split at done
  · next failed =>
    cases done
    exact .none same failed
  next ok₁ =>
  have armed : Armed true addr b₁.chip := ⟨idle₁.1, up (not_not.mp ok₁), idle₁.2⟩
  rcases looped : aaiLoop f data.length true ⟨addr, data.length, data⟩ b₁ with ⟨result₂, rest, b₂⟩
  obtain ⟨n, within, cells, ends⟩ := aaiLoop_spec fits small armed (Nat.le_refl _) inside looped
  rw [same] at cells
  simp only [looped] at done
  split at done
  · next failed =>
    cases done
    exact .some within (.inl cells) failed
  next ok₂ =>
  obtain ⟨rfl, short, still⟩ := ends (not_not.mp ok₂)
  rcases disabled : setWriteEnabled false b₂ with ⟨result₃, b₃⟩
  rw [← disable_cells disabled] at cells
  simp only [disabled] at done
  split at done
  · next last =>
    have one : (data.drop n).length = 1 := by rw [List.length_drop, last.2]
    rw [← one] at done
    exact .next within cells (page256_spec fits small (.inl rfl) ((disable_spec still disabled).1 last.1)
      (by lia) (one ▸ done))
  next not_last =>
  obtain ⟨rfl, rfl⟩ : result₃ = result ∧ b₃ = b' := Prod.mk.inj done
  by_cases ok₃ : result₃ = .success
  · have all : n = data.length := by
      have odd : data.length - n ≠ 1 := fun odd => not_last ⟨ok₃, odd⟩
      lia
    rw [List.take_of_length_le (by lia)] at cells
    refine ⟨⟨n, within, ?_⟩, fun _ => ⟨cells, (disable_spec still disabled).1 ok₃⟩⟩
    rw [List.take_of_length_le (by lia), cells]
  · exact .some within (.inl cells) ok₃

/-- From an odd address on it takes the first byte off the size without a look at it. -/
theorem aaiBody_spec (fits : Fits f k) (small : f.capacity < 2 ^ 32) (idle : b.chip.Idle)
    (inside : addr + data.length ≤ f.capacity) (some_ : addr % 2 = 1 → data ≠ [])
    (body : aaiBody f addr data.length data b = (result, b')) : Wrote b addr data result b' := by
  unfold aaiBody at body
  split at body
  · next uneven =>
    obtain ⟨x, tail, rfl⟩ := List.exists_cons_of_ne_nil (some_ (by lia))
    rcases odd : page256Or1ByteWrite f addr 1 1 (x :: tail) b with ⟨result₂, b₂⟩
    rw [page256_one] at odd
    rw [List.length_cons] at inside
    have first : Wrote b addr [x] result₂ b₂ := page256_spec fits small (.inl rfl) idle (by simp; lia) odd
    simp only [page256_one, odd] at body
    split at body
    · next failed =>
      cases body
      obtain ⟨⟨n, within, cells⟩, _⟩ := first
      have one : ([x] : List UInt8).take n = (x :: tail).take n := by
        rw [List.length_singleton] at within
        obtain rfl | rfl : n = 0 ∨ n = 1 := by lia
        · rfl
        · rfl
      rw [one] at cells
      rw [List.length_singleton] at within
      exact .some (by rw [List.length_cons]; lia) (.inl cells) failed
    · next ok =>
      obtain ⟨cells, idle₂⟩ := first.whole (not_not.mp ok)
      have size : ((x :: tail).length + (2 ^ 32 - 1)) % 2 ^ 32 = tail.length := by
        rw [List.length_cons]
        lia
      rw [size, Nat.mod_eq_of_lt (by lia)] at body
      have rest : Wrote b₂ (addr + 1) tail result b' := aaiEven_spec fits small idle₂ (by lia) body
      exact .next (n := 1) (by simp) cells rest
  · exact aaiEven_spec fits small idle inside body

theorem aaiWrite_spec (fits : Fits f k) (small : f.capacity < 2 ^ 32) (idle : b.chip.Idle)
    (inside : addr + data.length ≤ f.capacity) (some_ : addr % 2 = 1 → data ≠ [])
    (done : aaiWrite f addr data.length data b = (result, b')) : Wrote b addr data result b' := by
  rw [aaiWrite, if_neg (by lia)] at done
  rcases body : aaiBody f addr data.length data b with ⟨result₁, b₁⟩
  have wrote := aaiBody_spec fits small idle inside some_ body
  simp only [body] at done
  split at done
  · next failed =>
    rcases disabled : setWriteEnabled false b₁ with ⟨result₂, b₂⟩
    rw [disabled] at done
    cases done
    refine ⟨?_, fun ok => absurd ok failed⟩
    rw [disable_cells disabled]
    exact wrote.part
  · cases done
    exact wrote

/-- Whatever the bus and the chip's time do to a write, the chip holds the first bytes of it over what was
there, and no other cell has changed; a write with the result success is there as a whole. -/
theorem sfudWrite_wrote (fits : Fits f k) (small : f.capacity < 2 ^ 32)
    (mode : f.writeMode &&& wmPage256B ≠ 0 ∨ f.writeMode &&& wmAai ≠ 0 ∧ (addr % 2 = 1 → data ≠ []))
    (idle : b.chip.Idle) (inside : addr + data.length ≤ f.capacity)
    (done : sfudWrite f addr data.length data b = (result, b')) : Wrote b addr data result b' := by
  unfold sfudWrite at done
  split at done
  · exact page256_spec fits small (.inr rfl) idle inside done
  next not_page =>
  obtain ⟨aai, some_⟩ := mode.resolve_left not_page
  rw [if_pos aai] at done
  exact aaiWrite_spec fits small idle inside some_ done

/-- An SST25VF016B and its entry in the flash table. -/
def sst25vf016b : Kind where
  page := 256
  addrBytes := 3
  capacity := 2097152
  chipErase := []
  eraser code := if code = 0x20 then some 4096 else none
  eraser_plain := by simp [plainCodes]

def sstFlash : Flash := ⟨2097152, 6, 4096, 0x20, false, 10, none⟩

theorem sst_fits : Fits sstFlash sst25vf016b where
  page := rfl
  addrBytes := rfl
  capacity := rfl
  reach := by decide
  chipErase := rfl
  gran _ := rfl
  table := by rintro e ⟨⟩
  some_ := by decide

/-- The third transfer fails, and still reaches the chip. -/
def sstBus : Bus sst25vf016b := ⟨⟨fun _ => 0xFF, false, false, none⟩, fun i => ⟨true, i ≠ 2, true⟩⟩

theorem sfudWrite_wrote_words :
    let r := sfudWrite sstFlash 1 4 [1, 2, 3, 4] sstBus
    Wrote sstBus 1 [1, 2, 3, 4] r.1 r.2 :=
  sfudWrite_wrote sst_fits (by decide) (.inr ⟨by decide, fun _ => by decide⟩) ⟨rfl, rfl⟩ (by decide) rfl

end writes

/-- The cells of the sectors that the range has a part in. -/
def Touched (g addr size x : Nat) : Prop := ∃ y, addr ≤ y ∧ y < addr + size ∧ x / g = y / g

/-- How an erase leaves the chip. -/
structure Erased (g : Nat) (b : Bus k) (addr size : Nat) (result : SfudErr) (b' : Bus k) : Prop where
  outside : ∀ x, ¬ Touched g addr size x → b'.chip.cells x = b.chip.cells x
  blank : ∀ x, b'.chip.cells x = b.chip.cells x ∨ b'.chip.cells x = 0xFF
  whole : result = .success → (∀ x, addr ≤ x → x < addr + size → b'.chip.cells x = 0xFF) ∧ b'.chip.Idle

section erases
variable {b b₁ b' : Bus k} {f : Flash} {result : SfudErr} {g addr size turns a n part : Nat}

theorem erase_blank (m : Cells) (x : Nat) : erase m a n x = m x ∨ erase m a n x = 0xFF := by
  unfold erase
  split
  · exact .inr rfl
  · exact .inl rfl

theorem Erased.block (block : ∀ x, a ≤ x → x < a + n → Touched g addr size x)
    (cells : b'.chip.cells = erase b.chip.cells a n ∨ b'.chip.cells = b.chip.cells)
    (whole : result = .success → b'.chip.cells = erase b.chip.cells a n ∧ a ≤ addr ∧ addr + size ≤ a + n ∧
      b'.chip.Idle) : Erased g b addr size result b' := by
  constructor
  · intro x far
    rcases cells with new | same
    · rw [new, erase, if_neg (fun within => far (block x within.1 within.2))]
    · rw [same]
  · intro x
    rcases cells with new | same
    · rw [new]
      exact erase_blank _ x
    · exact .inl (by rw [same])
  · intro ok
    obtain ⟨new, first, last, idle⟩ := whole ok
    refine ⟨fun x low high => ?_, idle⟩
    rw [new, erase, if_pos ⟨by lia, by lia⟩]

theorem Erased.next (block : ∀ x, a ≤ x → x < a + n → Touched g addr size x) (less : part ≤ size)
    (cells : b₁.chip.cells = erase b.chip.cells a n) (first : a ≤ addr) (last : addr + part ≤ a + n)
    (rest : Erased g b₁ (addr + part) (size - part) result b') : Erased g b addr size result b' := by
  constructor
  · intro x far
    rw [rest.outside, cells, erase, if_neg (fun within => far (block x within.1 within.2))]
    rintro ⟨y, low, high, sector⟩
    exact far ⟨y, by lia, by lia, sector⟩
  · intro x
    have before := erase_blank (a := a) (n := n) b.chip.cells x
    rw [← cells] at before
    rcases rest.blank x with same | blank
    · rw [same]
      exact before
    · exact .inr blank
  · intro ok
    obtain ⟨blanks, idle⟩ := rest.whole ok
    refine ⟨fun x low high => ?_, idle⟩
    by_cases behind : addr + part ≤ x
    · exact blanks x behind (by lia)
    · have here : b₁.chip.cells x = 0xFF := by rw [cells, erase, if_pos ⟨by lia, by lia⟩]
      exact (rest.blank x).elim (fun same => same.trans here) id

theorem curEraser_spec (fits : Fits f k) (addr size : Nat) : 0 < (curEraser f addr size).size ∧
    k.eraser (curEraser f addr size).cmd = some (curEraser f addr size).size ∧
      ((curEraser f addr size).size = smallest f ∨
        (addr % (curEraser f addr size).size = 0 ∧ (curEraser f addr size).size ≤ size)) := by
  have some_ := fits.some_
  unfold smallest at some_ ⊢
  unfold curEraser
  cases table : f.sfdp with
  | none =>
    rw [table] at some_
    exact ⟨some_, fits.gran table, .inl rfl⟩
  | some e =>
    rw [table] at some_
    have known := fits.table e table
    have large : ∀ i, ((e i).size ≠ 0 && decide ((e i).size ≤ size) && decide (addr % (e i).size = 0)) = true →
        0 < (e i).size ∧ k.eraser (e i).cmd = some (e i).size ∧
          ((e i).size = (e 0).size ∨ addr % (e i).size = 0 ∧ (e i).size ≤ size) := by
      intro i suits
      simp only [Bool.and_eq_true, decide_eq_true_eq] at suits
      exact ⟨Nat.pos_of_ne_zero suits.1.1, known i suits.1.1, .inr ⟨suits.2, suits.1.2⟩⟩
    have zero : 0 < (e 0).size ∧ k.eraser (e 0).cmd = some (e 0).size ∧
        ((e 0).size = (e 0).size ∨ addr % (e 0).size = 0 ∧ (e 0).size ≤ size) :=
      ⟨some_, known 0 (Nat.pos_iff_ne_zero.mp some_), .inl rfl⟩
    unfold getSuitableEraser
    dsimp only
    split
    · exact zero
    split
    · next suits => exact large 3 suits
    split
    · next suits => exact large 2 suits
    split
    · next suits => exact large 1 suits
    · exact zero

theorem curEraser_block (fits : Fits f k) (some_ : size ≠ 0) (isN : n = (curEraser f addr size).size) (x : Nat)
    (low : addr - addr % n ≤ x) (high : x < addr - addr % n + n) : Touched (smallest f) addr size x := by
  have below := Nat.mod_le addr n
  have chosen := curEraser_spec fits addr size
  rw [← isN] at chosen
  obtain ⟨positive, _, small | ⟨aligned, less⟩⟩ := chosen
  · refine ⟨addr, Nat.le_refl _, by lia, ?_⟩
    have whole := Nat.div_add_mod addr n
    have start : addr - addr % n = n * (addr / n) := by lia
    rw [start] at low high
    rw [← small]
    apply Nat.div_eq_of_lt_le
    · rw [Nat.mul_comm]
      exact low
    · rw [Nat.mul_comm, Nat.mul_add, Nat.mul_one]
      exact high
  · exact ⟨x, by lia, by lia, rfl⟩

/-- By induction on the turns, each of which erases one block. -/
theorem eraseLoop_spec (fits : Fits f k) (small : f.capacity < 2 ^ 32) (idle : b.chip.Idle) (enough : size ≤ turns)
    (inside : addr + size ≤ f.capacity) (done : eraseLoop f turns addr size b = (result, b')) :
    Erased (smallest f) b addr size result b' := by
  have nothing (b : Bus k) (idle : b.chip.Idle) (addr : Nat) : Erased (smallest f) b addr 0 .success b :=
    ⟨fun _ _ => rfl, fun _ => .inl rfl, fun _ => ⟨fun x low high => by lia, idle⟩⟩
  induction turns generalizing addr size b with
  | zero =>
    obtain rfl : size = 0 := by lia
    cases done
    exact nothing _ idle addr
  | succ turns ih =>
    rw [eraseLoop] at done
    by_cases empty : size = 0
    · rw [if_pos empty] at done
      subst empty
      cases done
      exact nothing _ idle addr
    rw [if_neg empty] at done
    obtain ⟨positive, known, _⟩ := curEraser_spec fits addr size
    obtain ⟨e, isE⟩ : ∃ e, e = curEraser f addr size := ⟨_, rfl⟩
    have block := curEraser_block fits empty (congrArg Eraser.size isE)
    simp only [← isE] at done positive known
    rcases enabled : setWriteEnabled true b with ⟨result₁, b₁⟩
    obtain ⟨idle₁, same, up⟩ := enable_spec idle enabled
    simp only [enabled] at done
    split at done
    · next failed =>
      cases done
      exact .block block (.inr same) (fun ok => absurd ok failed)
    next ok₁ =>
    rcases sent : send b₁ (e.cmd :: makeAdressByteArray f addr) with ⟨result₂, b₂⟩
    have does := receive_erase idle₁ (up (not_not.mp ok₁)) known
      (show addr < 256 ^ k.addrBytes by rw [fits.addrBytes]; have reach := fits.reach; lia)
    rw [fits.addrBytes, same] at does
    rcases waited : waitBusy f.retryTimes b₂ with ⟨result₃, b₃⟩
    obtain ⟨either, whole⟩ := operation_spec idle₁ does sent waited
    rw [same] at either
    simp only [sent, waited] at done
    split at done
    · next failed =>
      cases done
      exact .block block either (fun ok => absurd ok failed)
    next ok₂ =>
    obtain ⟨cells, idle₃⟩ := whole (not_not.mp ok₂)
    split at done
    · next failed =>
      cases done
      exact .block block (.inl cells) (fun ok => absurd ok failed)
    next ok₃ =>
    have still := idle₃ (not_not.mp ok₃)
    have below := Nat.mod_lt addr positive
    have within := Nat.mod_le addr e.size
    have border : addr + erasePart e addr = addr - addr % e.size + e.size := by
      unfold erasePart
      split <;> lia
    split at done
    · next more =>
      rw [Nat.mod_eq_of_lt (by lia)] at done
      exact .next block (Nat.le_of_lt more) cells (Nat.sub_le _ _) (Nat.le_of_eq border)
        (ih still (by lia) (by lia) done)
    · next last =>
      cases done
      exact .block block (.inl cells) (fun _ => ⟨cells, Nat.sub_le _ _, by lia, still⟩)

theorem chipErase_spec (fits : Fits f k) (idle : b.chip.Idle) (done : chipErase f b = (result, b')) :
    Erased g b 0 f.capacity result b' := by
  have block : ∀ x, 0 ≤ x → x < 0 + f.capacity → Touched g 0 f.capacity x :=
    fun x _ high => ⟨x, Nat.zero_le _, high, rfl⟩
  rcases enabled : setWriteEnabled true b with ⟨result₁, b₁⟩
  obtain ⟨idle₁, same, up⟩ := enable_spec idle enabled
  simp only [chipErase, enabled] at done
  split at done
  · next failed =>
    cases done
    exact .block block (.inr same) (fun ok => absurd ok failed)
  next ok₁ =>
  rw [← fits.chipErase] at done
  rcases sent : send b₁ (0xC7 :: k.chipErase) with ⟨result₂, b₂⟩
  have does := receive_eraseChip (k := k) idle₁ (up (not_not.mp ok₁))
  rw [fits.capacity, same] at does
  rcases waited : waitBusy f.retryTimes b₂ with ⟨result₃, b₃⟩
  obtain ⟨either, whole⟩ := operation_spec idle₁ does sent waited
  rw [same] at either
  simp only [sent, waited] at done
  split at done
  · next failed =>
    cases done
    exact .block block either (fun ok => absurd ok failed)
  next ok₂ =>
  obtain ⟨cells, idle₃⟩ := whole (not_not.mp ok₂)
  cases done
  exact .block block (.inl cells) (fun ok => ⟨cells, Nat.le_refl _, Nat.le_refl _, idle₃ ok⟩)

theorem Erased.disabled {b₂ : Bus k} {result₁ : SfudErr} (erased : Erased g b addr size result b₁)
    (done : setWriteEnabled false b₁ = (result₁, b₂)) : Erased g b addr size result b₂ := by
  obtain ⟨outside, blank, whole⟩ := erased
  rw [← disable_cells done] at outside blank whole
  exact ⟨outside, blank, fun ok => ⟨(whole ok).1, (disable_spec (whole ok).2.1 done).2 (whole ok).2⟩⟩

/-- Whatever the bus and the chip's time do to an erase, it leaves the sectors of the smallest eraser alone
that the range has no part in, and every cell blank or as it was; where the result is success, the range
is blank. -/
theorem sfudErase_erased (fits : Fits f k) (small : f.capacity < 2 ^ 32) (idle : b.chip.Idle)
    (inside : addr + size ≤ f.capacity) (done : sfudErase f addr size b = (result, b')) :
    Erased (smallest f) b addr size result b' := by
  rw [sfudErase, if_neg (by lia)] at done
  split at done
  · next all =>
    obtain ⟨rfl, rfl⟩ := all
    rcases erased : chipErase f b with ⟨result₁, b₁⟩
    rcases disabled : setWriteEnabled false b₁ with ⟨result₂, b₂⟩
    simp only [sfudChipErase, erased, disabled] at done
    cases done
    exact (chipErase_spec fits idle erased).disabled disabled
  · rcases looped : eraseLoop f size addr size b with ⟨result₁, b₁⟩
    rcases disabled : setWriteEnabled false b₁ with ⟨result₂, b₂⟩
    simp only [looped, disabled] at done
    cases done
    exact (eraseLoop_spec fits small idle (Nat.le_refl _) inside looped).disabled disabled

theorem sfudErase_erased_part :
    let r := sfudErase sstFlash 5000 4000 sstBus
    Erased 4096 sstBus 5000 4000 r.1 r.2 :=
  sfudErase_erased sst_fits (by decide) ⟨rfl, rfl⟩ (by decide) rfl

end erases

end RtThread.Sfud
