import RtThread.Run
import RtThread.Sfud.Sfdp
import RtThread.Sfud.Working

/-! The block device that spi_flash_sfud makes of a serial flash. -/
namespace RtThread.Sfud
open NorFlash Transition

variable {k : Kind}

/-- rt_sfud_read: the number of sectors read, and the bytes. -/
def rtSfudRead (f : Flash) (pos size : Nat) (b : Bus k) : Nat × List UInt8 × Bus k :=
  let (result, data, b) := sfudRead f (pos * f.eraseGran % 2 ^ 32) (size * f.eraseGran % 2 ^ 32) b
  (if result ≠ .success then 0 else size, data, b)

def rtSfudWrite (f : Flash) (pos size : Nat) (data : List UInt8) (b : Bus k) : Nat × Bus k :=
  let (result, b) := sfudEraseWrite f (pos * f.eraseGran % 2 ^ 32) (size * f.eraseGran % 2 ^ 32) data b
  (if result ≠ .success then 0 else size, b)

def eraseEnd (startAddr endAddr : Nat) : Nat := if endAddr = startAddr then endAddr + 1 else endAddr

/-- rt_sfud_control with RT_DEVICE_CTRL_BLK_ERASE, and whether it gives RT_EOK. -/
def rtSfudErase (f : Flash) (startAddr endAddr : Nat) (b : Bus k) : Bool × Bus k :=
  if endAddr < startAddr then (false, b)
  else
    let (result, b) := sfudErase f (startAddr * f.eraseGran % 2 ^ 32)
      ((eraseEnd startAddr endAddr - startAddr) * f.eraseGran % 2 ^ 32) b
    (result = .success, b)

def sectorCount (f : Flash) : Nat := f.capacity / f.eraseGran

inductive Call where
  | read (pos size : Nat)
  | write (pos size : Nat) (data : List UInt8)
  | erase (startAddr endAddr : Nat)

/-- A call and what it gave. -/
inductive Event where
  | read (pos size count : Nat) (data : List UInt8)
  | wrote (pos size : Nat) (data : List UInt8) (count : Nat)
  | erased (startAddr endAddr : Nat) (ok : Bool)

/-- The calls that stay in the device. -/
def Call.inside (f : Flash) : Call → Bool
  | .read pos size => decide (pos + size ≤ sectorCount f)
  | .write pos size data =>
    decide (pos + size ≤ sectorCount f) && decide (0 < size) && decide (data.length = size * f.eraseGran)
  | .erase startAddr endAddr => decide (eraseEnd startAddr endAddr ≤ sectorCount f)

def call (f : Flash) (b : Bus k) : Call → Bus k × Event
  | .read pos size =>
    let (count, data, b) := rtSfudRead f pos size b
    (b, .read pos size count data)
  | .write pos size data =>
    let (count, b) := rtSfudWrite f pos size data b
    (b, .wrote pos size data count)
  | .erase startAddr endAddr =>
    let (ok, b) := rtSfudErase f startAddr endAddr b
    (b, .erased startAddr endAddr ok)

def device (f : Flash) (k : Kind) (m : Cells) : Machine (Bus k) Call Event where
  start b := b.chip.Idle ∧ b.chip.cells = m
  step b c := if c.inside f then let (b, e) := call f b c; some (b, [e]) else none

/-- A disk of sectors of `g` bytes, as long as it is known: what a call that failed has left is not. A read
that is not what the disk holds is refused. -/
def Event.replay (g : Nat) : Option Cells → Event → Option (Option Cells)
  | none, _ => some none
  | some m, .read pos size count data =>
    if count = size → data = load m (pos * g) (size * g) then some (some m) else none
  | some m, .wrote pos size data count => some (if count = size then some (store m (pos * g) data) else none)
  | some m, .erased startAddr endAddr ok =>
    some (if ok then some (erase m (startAddr * g) ((eraseEnd startAddr endAddr - startAddr) * g)) else none)

section
variable {b b' : Bus k} {f : Flash} {result : SfudErr} {addr size pos g : Nat} {data : List UInt8} {m : Cells}

theorem sfudRead_spec (fits : Fits f k) (idle : b.chip.Idle) (inside : addr + size ≤ f.capacity)
    (small : f.capacity < 2 ^ 32) (done : sfudRead f addr size b = (result, data, b')) :
    b'.chip = b.chip ∧ data = if result = .success then load b.chip.cells addr size else [] := by
  rw [sfudRead, if_neg (by lia)] at done
  rcases waited : waitBusy f.retryTimes b with ⟨result₁, b₁⟩
  obtain ⟨rests, _⟩ := waitBusy_spec waited
  have same : b₁.chip = b.chip := rests.elim id (fun ended => ended.trans (finish_idle idle.1))
  simp only [waited] at done
  split at done
  · next failed =>
    cases done
    exact ⟨same, (if_neg failed).symm⟩
  simp only [wr, same, finish_idle idle.1, ite_self, receive_read, Prod.mk.injEq] at done
  obtain ⟨rfl, rfl, rfl⟩ := done
  refine ⟨rfl, ?_⟩
  cases (b₁.transfers 0).ok with
  | false => simp
  | true =>
    have within : addr < 256 ^ k.addrBytes ∨ size = 0 := by
      rw [fits.addrBytes]
      have reach := fits.reach
      lia
    rw [if_pos rfl, if_pos (if_pos rfl)]
    rcases within with within | rfl
    · have shown := answer_read (n := size) idle within
      rw [fits.addrBytes] at shown
      exact shown
    · simp [Chip.answer, load]

theorem touched_sectors (positive : 0 < g) (x : Nat) :
    Touched g (pos * g) (size * g) x ↔ pos * g ≤ x ∧ x < pos * g + size * g := by
  constructor
  · rintro ⟨y, low, high, sector⟩
    rw [← Nat.add_mul] at high ⊢
    rw [← Nat.le_div_iff_mul_le positive] at low ⊢
    rw [← Nat.div_lt_iff_lt_mul positive] at high ⊢
    lia
  · rintro ⟨low, high⟩
    exact ⟨x, low, high, rfl⟩

theorem Erased.sectors (positive : 0 < g) (erased : Erased g b (pos * g) (size * g) .success b') :
    b'.chip.cells = erase b.chip.cells (pos * g) (size * g) ∧ b'.chip.Idle := by
  obtain ⟨blanks, idle⟩ := erased.whole rfl
  refine ⟨?_, idle⟩
  funext x
  by_cases inside : pos * g ≤ x ∧ x < pos * g + size * g
  · rw [erase, if_pos inside]
    exact blanks x inside.1 inside.2
  · rw [erase, if_neg inside]
    exact erased.outside x (fun touched => inside ((touched_sectors positive x).mp touched))

/-- Whole sectors that are written with success hold what was written, and no other cell has changed. -/
theorem sfudEraseWrite_spec (fits : Fits f k) (small : f.capacity < 2 ^ 32) (gran : smallest f = g)
    (mode : f.writeMode &&& wmPage256B ≠ 0 ∨ f.writeMode &&& wmAai ≠ 0) (some_ : 0 < size) (idle : b.chip.Idle)
    (inside : pos * g + size * g ≤ f.capacity) (len : data.length = size * g)
    (done : sfudEraseWrite f (pos * g) (size * g) data b = (.success, b')) :
    b'.chip.cells = store b.chip.cells (pos * g) data ∧ b'.chip.Idle := by
  have positive : 0 < g := gran ▸ fits.some_
  rcases erasing : sfudErase f (pos * g) (size * g) b with ⟨result₁, b₁⟩
  simp only [sfudEraseWrite, erasing] at done
  split at done
  · next ok =>
    subst ok
    have erased := sfudErase_erased fits small idle inside erasing
    rw [gran] at erased
    obtain ⟨cells, idle₁⟩ := erased.sectors positive
    have filled : data ≠ [] := by
      have longer := Nat.mul_pos some_ positive
      exact List.ne_nil_of_length_pos (by lia)
    rw [← len] at done
    obtain ⟨cells', idle'⟩ := (sfudWrite_wrote fits small (mode.imp_right (fun aai => ⟨aai, fun _ => filled⟩)) idle₁
      (by lia) done).whole rfl
    rw [cells', cells, ← len, program_erase]
    exact ⟨rfl, idle'⟩
  · next failed =>
    obtain ⟨rfl, rfl⟩ := Prod.mk.inj done
    exact absurd rfl failed

theorem sectors_inside (few : pos + size ≤ sectorCount f) : pos * f.eraseGran + size * f.eraseGran ≤ f.capacity := by
  rw [← Nat.add_mul]
  exact (Nat.mul_le_mul_right _ few).trans (Nat.div_mul_le_self _ _)

theorem call_spec (fits : Fits f k) (small : f.capacity < 2 ^ 32) (gran : smallest f = f.eraseGran)
    (mode : f.writeMode &&& wmPage256B ≠ 0 ∨ f.writeMode &&& wmAai ≠ 0) (idle : b.chip.Idle) {c : Call}
    {e : Event} (inside : c.inside f = true) (called : call f b c = (b', e)) :
    ∃ known, e.replay f.eraseGran (some b.chip.cells) = some known ∧
      ∀ m, known = some m → b'.chip.Idle ∧ b'.chip.cells = m := by
  cases c with
  | read pos size =>
    have room := sectors_inside (of_decide_eq_true inside)
    rcases read : sfudRead f (pos * f.eraseGran) (size * f.eraseGran) b with ⟨result, data, b₁⟩
    obtain ⟨same, rfl⟩ := sfudRead_spec fits idle room small read
    simp only [call, rtSfudRead, Nat.mod_eq_of_lt (show pos * f.eraseGran < 2 ^ 32 by lia),
      Nat.mod_eq_of_lt (show size * f.eraseGran < 2 ^ 32 by lia), read] at called
    cases called
    refine ⟨some b.chip.cells, if_pos ?_, ?_⟩
    · intro all
      by_cases ok : result = .success
      · rw [if_pos ok]
      · rw [if_pos ok] at all
        rw [if_neg ok, ← all, Nat.zero_mul]
        rfl
    · rintro m known
      cases known
      rw [same]
      exact ⟨idle, rfl⟩
  | write pos size data =>
    simp only [Call.inside, Bool.and_eq_true, decide_eq_true_eq] at inside
    obtain ⟨⟨few, some_⟩, len⟩ := inside
    have room := sectors_inside few
    rcases wrote : sfudEraseWrite f (pos * f.eraseGran) (size * f.eraseGran) data b with ⟨result, b₁⟩
    simp only [call, rtSfudWrite, Nat.mod_eq_of_lt (show pos * f.eraseGran < 2 ^ 32 by lia),
      Nat.mod_eq_of_lt (show size * f.eraseGran < 2 ^ 32 by lia), wrote] at called
    cases called
    refine ⟨_, rfl, ?_⟩
    intro m known
    by_cases ok : result = .success
    · subst ok
      obtain ⟨cells, idle₁⟩ := sfudEraseWrite_spec fits small gran mode some_ idle room len wrote
      rw [if_neg (not_not.mpr rfl), if_pos rfl] at known
      exact ⟨idle₁, cells.trans (Option.some.inj known)⟩
    · rw [if_pos ok, if_neg (by lia)] at known
      cases known
  | erase startAddr endAddr =>
    have few : eraseEnd startAddr endAddr ≤ sectorCount f := of_decide_eq_true inside
    by_cases backward : endAddr < startAddr
    · simp only [call, rtSfudErase, if_pos backward] at called
      cases called
      exact ⟨none, rfl, fun m known => by cases known⟩
    have forward : startAddr ≤ eraseEnd startAddr endAddr := by
      unfold eraseEnd
      split <;> lia
    have room : startAddr * f.eraseGran + (eraseEnd startAddr endAddr - startAddr) * f.eraseGran ≤ f.capacity :=
      sectors_inside (by lia)
    rcases erased : sfudErase f (startAddr * f.eraseGran)
      ((eraseEnd startAddr endAddr - startAddr) * f.eraseGran) b with ⟨result, b₁⟩
    simp only [call, rtSfudErase, if_neg backward,
      Nat.mod_eq_of_lt (show startAddr * f.eraseGran < 2 ^ 32 by lia),
      Nat.mod_eq_of_lt (show (eraseEnd startAddr endAddr - startAddr) * f.eraseGran < 2 ^ 32 by lia),
      erased] at called
    cases called
    refine ⟨_, rfl, ?_⟩
    intro m known
    by_cases ok : result = .success
    · subst ok
      have spec := sfudErase_erased fits small idle room erased
      rw [gran] at spec
      obtain ⟨cells, idle₁⟩ := spec.sectors (gran ▸ fits.some_)
      rw [if_pos (decide_eq_true rfl)] at known
      exact ⟨idle₁, cells.trans (Option.some.inj known)⟩
    · rw [if_neg (by simpa using ok)] at known
      cases known

end

end RtThread.Sfud
