import RtThread.Bytes
import RtThread.CBuffer
import Mathlib.Data.BitVec

/-! The on-chip flash of the STM32F407 (drv_flash_f4.c): 1 MB in the sectors 0 to 11. A word in the
memory is its bytes, the lowest first. -/
namespace RtThread.Flash
open Bytes CBuffer

def stm32FlashStartAdress : BitVec 32 := 0x08000000
def stm32FlashSize : BitVec 32 := 1024 * 1024
def stm32FlashEndAddress : BitVec 32 := stm32FlashStartAdress + stm32FlashSize

def addrFlashSector0 : BitVec 32 := 0x08000000
def addrFlashSector1 : BitVec 32 := 0x08004000
def addrFlashSector2 : BitVec 32 := 0x08008000
def addrFlashSector3 : BitVec 32 := 0x0800C000
def addrFlashSector4 : BitVec 32 := 0x08010000
def addrFlashSector5 : BitVec 32 := 0x08020000
def addrFlashSector6 : BitVec 32 := 0x08040000
def addrFlashSector7 : BitVec 32 := 0x08060000
def addrFlashSector8 : BitVec 32 := 0x08080000
def addrFlashSector9 : BitVec 32 := 0x080A0000
def addrFlashSector10 : BitVec 32 := 0x080C0000
def addrFlashSector11 : BitVec 32 := 0x080E0000
def addrFlashSector12 : BitVec 32 := 0x08100000

/-- FLASH_SECTOR_0 to FLASH_SECTOR_11 are 0 to 11; the sectors of bank 2 are not compiled in. -/
def getSector (address : BitVec 32) : BitVec 32 :=
  if address < addrFlashSector1 ∧ address ≥ addrFlashSector0 then 0
  else if address < addrFlashSector2 ∧ address ≥ addrFlashSector1 then 1
  else if address < addrFlashSector3 ∧ address ≥ addrFlashSector2 then 2
  else if address < addrFlashSector4 ∧ address ≥ addrFlashSector3 then 3
  else if address < addrFlashSector5 ∧ address ≥ addrFlashSector4 then 4
  else if address < addrFlashSector6 ∧ address ≥ addrFlashSector5 then 5
  else if address < addrFlashSector7 ∧ address ≥ addrFlashSector6 then 6
  else if address < addrFlashSector8 ∧ address ≥ addrFlashSector7 then 7
  else if address < addrFlashSector9 ∧ address ≥ addrFlashSector8 then 8
  else if address < addrFlashSector10 ∧ address ≥ addrFlashSector9 then 9
  else if address < addrFlashSector11 ∧ address ≥ addrFlashSector10 then 10
  else if address < addrFlashSector12 ∧ address ≥ addrFlashSector11 then 11
  else 0

inductive TypeProgram where
  | byte | halfword | word
  deriving DecidableEq

def TypeProgram.size : TypeProgram → Nat
  | .byte => 1
  | .halfword => 2
  | .word => 4

/-- What is done to the flash and to the memory at its addresses. -/
inductive Op where
  | unlock
  | clearFlag
  | load (address : BitVec 32) (n : Nat)
  | program (type : TypeProgram) (address : BitVec 32) (data : List Byte)
  | erase (sector nbSectors : BitVec 32)
  | lock
  deriving DecidableEq

structure State where
  mem : Memory 32
  ops : List Op

def State.log (s : State) (op : Op) : State := { s with ops := s.ops ++ [op] }

/-- HAL_FLASH_Program and HAL_FLASHEx_Erase, which may fail at any time. A call of HAL_FLASH_Program
that succeeds has changed no other bytes than those it was asked to program. -/
structure Hal where
  program : State → TypeProgram → BitVec 32 → List Byte → Bool × Memory 32
  erase : State → BitVec 32 → BitVec 32 → Bool × Memory 32
  asked : ∀ s type address data x, (program s type address data).1 = true →
    (∀ i < type.size, x ≠ address + BitVec.ofNat 32 i) → (program s type address data).2 x = s.mem x

def rtEinval : BitVec 32 := 10
def rtError : BitVec 32 := 1

/-- `n` is what is left of `size`. -/
def readLoop : Nat → BitVec 32 → State → List Byte × State
  | 0, _, s => ([], s)
  | n + 1, addr, s =>
    let r := readLoop n (addr + 1) (s.log (.load addr 1))
    (s.mem addr :: r.1, r.2)

/-- With the bytes that are written to `buf`. -/
def stm32FlashRead (s : State) (addr size : BitVec 32) : BitVec 32 × List Byte × State :=
  if addr + size > stm32FlashEndAddress then (-1, [], s)
  else (size, readLoop size.toNat addr s)

/-- One branch of the loop: HAL_FLASH_Program, and the comparison of what has been programmed. -/
def programUnit (hal : Hal) (s : State) (type : TypeProgram) (address : BitVec 32) (data : List Byte) :
    Bool × State :=
  let r := hal.program s type address data
  let s := { s.log (.program type address data) with mem := r.2 }
  if r.1 then (decide (read s.mem address type.size = data), s.log (.load address type.size)) else (false, s)

def typeProgram (addr writtenSize size : BitVec 32) : TypeProgram :=
  if (addr + writtenSize) % 4 = 0 ∧ size - writtenSize ≥ 4 then .word
  else if (addr + writtenSize) % 2 = 0 ∧ size - writtenSize ≥ 2 then .halfword
  else .byte

theorem typeProgram_fits {addr writtenSize size : BitVec 32} (more : writtenSize < size) :
    (writtenSize + BitVec.ofNat 32 (typeProgram addr writtenSize size).size).toNat =
        writtenSize.toNat + (typeProgram addr writtenSize size).size ∧
      writtenSize.toNat + (typeProgram addr writtenSize size).size ≤ size.toNat ∧
      0 < (typeProgram addr writtenSize size).size := by
  unfold typeProgram
  split
  · simp only [TypeProgram.size]
    bv_omega
  · split <;> simp only [TypeProgram.size] <;> bv_omega

def writeLoop (hal : Hal) (addr : BitVec 32) (buf : Nat → Byte) (size writtenSize : BitVec 32) (s : State) :
    Bool × State :=
  if _more : writtenSize < size then
    let type := typeProgram addr writtenSize size
    let r := programUnit hal s type (addr + writtenSize) (slice buf writtenSize.toNat type.size)
    if r.1 then writeLoop hal addr buf size (writtenSize + BitVec.ofNat 32 type.size) r.2 else (false, r.2)
  else (true, s)
termination_by size.toNat - writtenSize.toNat
decreasing_by
  have fits := @typeProgram_fits addr _ _ _more
  lia

def stm32FlashWrite (hal : Hal) (s : State) (addr : BitVec 32) (buf : Nat → Byte) (size : BitVec 32) :
    BitVec 32 × State :=
  if addr + size > stm32FlashEndAddress then (-rtEinval, s)
  else if size < 1 then (-rtEinval, s)
  else
    let r := writeLoop hal addr buf size 0 ((s.log .unlock).log .clearFlag)
    (if r.1 then size else -rtError, r.2.log .lock)

def stm32FlashErase (hal : Hal) (s : State) (addr size : BitVec 32) : BitVec 32 × State :=
  if addr + size > stm32FlashEndAddress then (-rtEinval, s)
  else if size < 1 then (-rtEinval, s)
  else
    let s := (s.log .unlock).log .clearFlag
    let firstSector := getSector addr
    let nbOfSectors := getSector (addr + size - 1) - firstSector + 1
    let r := hal.erase s firstSector nbOfSectors
    (if r.1 then size else -rtError, ({ s.log (.erase firstSector nbOfSectors) with mem := r.2 }).log .lock)

/- The geometry of the flash: four sectors of 16 KB, one of 64 KB, and seven of 128 KB. -/

def sectorStart (k : Nat) : Nat := 0x08000000 + if k ≤ 4 then k * 0x4000 else (k - 4) * 0x20000

def Intersects (k addr size : Nat) : Prop :=
  k < 12 ∧ ∃ x, sectorStart k ≤ x ∧ x < sectorStart (k + 1) ∧ addr ≤ x ∧ x < addr + size

def Op.Within (addr size : Nat) : Op → Prop
  | .program type address _ =>
    address.toNat % type.size = 0 ∧ addr ≤ address.toNat ∧ address.toNat + type.size ≤ addr + size
  | _ => True

def Op.erased : Op → Option (Nat × Nat)
  | .erase sector nbSectors => some (sector.toNat, nbSectors.toNat)
  | _ => none

/-- A write programs the bytes of the range and an erase its sectors, and nothing else. -/
structure Exact (hal : Hal) (mem : Memory 32) (addr : BitVec 32) (buf : Nat → Byte) (size : BitVec 32) : Prop where
  requests : ∀ op ∈ (stm32FlashWrite hal ⟨mem, []⟩ addr buf size).2.ops, op.Within addr.toNat size.toNat
  written : (stm32FlashWrite hal ⟨mem, []⟩ addr buf size).1 = size → ∀ i < size.toNat,
    (stm32FlashWrite hal ⟨mem, []⟩ addr buf size).2.mem (addr + BitVec.ofNat 32 i) = buf i
  others : (stm32FlashWrite hal ⟨mem, []⟩ addr buf size).1 = size → ∀ x : BitVec 32,
    x.toNat < addr.toNat ∨ addr.toNat + size.toNat ≤ x.toNat →
      (stm32FlashWrite hal ⟨mem, []⟩ addr buf size).2.mem x = mem x
  erased : ∃ first count, (stm32FlashErase hal ⟨mem, []⟩ addr size).2.ops.filterMap Op.erased = [(first, count)] ∧
    ∀ k, first ≤ k ∧ k < first + count ↔ Intersects k addr.toNat size.toNat

/-- The range without wrap-around lies in the flash. -/
def Inside (addr size : BitVec 32) : Prop :=
  ∀ x, addr.toNat ≤ x → x < addr.toNat + size.toNat →
    stm32FlashStartAdress.toNat ≤ x ∧ x < stm32FlashEndAddress.toNat

/-- A range that is not in the flash is refused before anything is done. -/
structure Refuses (hal : Hal) (mem : Memory 32) (addr : BitVec 32) (buf : Nat → Byte) (size : BitVec 32) : Prop where
  read : ¬ Inside addr size → (stm32FlashRead ⟨mem, []⟩ addr size).1.toInt < 0 ∧
    (stm32FlashRead ⟨mem, []⟩ addr size).2 = ([], ⟨mem, []⟩)
  write : ¬ Inside addr size → (stm32FlashWrite hal ⟨mem, []⟩ addr buf size).1.toInt < 0 ∧
    (stm32FlashWrite hal ⟨mem, []⟩ addr buf size).2 = ⟨mem, []⟩
  erase : ¬ Inside addr size → (stm32FlashErase hal ⟨mem, []⟩ addr size).1.toInt < 0 ∧
    (stm32FlashErase hal ⟨mem, []⟩ addr size).2 = ⟨mem, []⟩

variable {hal : Hal} {s s' : State} {mem : Memory 32} {addr size writtenSize address : BitVec 32} {buf : Nat → Byte}
  {type : TypeProgram} {data : List Byte} {ok : Bool}

/- The write loop. -/

theorem unit_ops (hal : Hal) (s : State) (type : TypeProgram) (address : BitVec 32) (data : List Byte) :
    (programUnit hal s type address data).2.ops = s.ops ++ [.program type address data] ∨
    (programUnit hal s type address data).2.ops =
      s.ops ++ [.program type address data, .load address type.size] := by
  simp only [programUnit]
  split
  · exact .inr (by simp [State.log])
  · exact .inl (by simp [State.log])

theorem unit_written (done : (programUnit hal s type address data).1 = true) :
    read (programUnit hal s type address data).2.mem address type.size = data := by
  simp only [programUnit] at done ⊢
  split at done
  · rename_i programmed
    simpa [State.log, programmed] using done
  · cases done

theorem unit_others (done : (programUnit hal s type address data).1 = true) {x : BitVec 32}
    (outside : ∀ i < type.size, x ≠ address + BitVec.ofNat 32 i) :
    (programUnit hal s type address data).2.mem x = s.mem x := by
  simp only [programUnit] at done ⊢
  split at done
  · rename_i programmed
    simpa [State.log, programmed] using hal.asked s type address data x programmed outside
  · cases done

theorem typeProgram_aligned : (addr + writtenSize).toNat % (typeProgram addr writtenSize size).size = 0 := by
  unfold typeProgram
  split
  · rename_i word
    exact (BitVec.toNat_umod ..).symm.trans (congrArg BitVec.toNat word.1)
  · split
    · rename_i halfword
      exact (BitVec.toNat_umod ..).symm.trans (congrArg BitVec.toNat halfword.1)
    · simp only [TypeProgram.size]
      lia

theorem unit_within (room : addr.toNat + size.toNat < 2 ^ 32) (more : writtenSize < size) :
    (Op.program (typeProgram addr writtenSize size) (addr + writtenSize) data).Within addr.toNat size.toNat := by
  obtain ⟨-, fits, -⟩ := @typeProgram_fits addr _ _ more
  have place : (addr + writtenSize).toNat = addr.toNat + writtenSize.toNat := by bv_omega
  refine ⟨typeProgram_aligned, ?_, ?_⟩ <;> lia

theorem unit_requests (before : ∀ op ∈ s.ops, op.Within addr.toNat size.toNat)
    (within : (Op.program type address data).Within addr.toNat size.toNat) :
    ∀ op ∈ (programUnit hal s type address data).2.ops, op.Within addr.toNat size.toNat := by
  intro op member
  obtain ops | ops := unit_ops hal s type address data
  · rw [ops, List.mem_append, List.mem_singleton] at member
    obtain old | rfl := member
    · exact before op old
    · exact within
  · rw [ops, List.mem_append, List.mem_pair] at member
    obtain old | rfl | rfl := member
    · exact before op old
    · exact within
    · trivial

theorem loop_requests (room : addr.toNat + size.toNat < 2 ^ 32)
    (before : ∀ op ∈ s.ops, op.Within addr.toNat size.toNat) :
    ∀ op ∈ (writeLoop hal addr buf size writtenSize s).2.ops, op.Within addr.toNat size.toNat := by
  fun_induction writeLoop hal addr buf size writtenSize s with
  | case1 writtenSize s more type r done ih => exact ih (unit_requests before (unit_within room more))
  | case2 writtenSize s more type r failed => exact unit_requests before (unit_within room more)
  | case3 => exact before

theorem loop_others (room : addr.toNat + size.toNat < 2 ^ 32)
    (done : (writeLoop hal addr buf size writtenSize s).1 = true) {x : BitVec 32}
    (outside : x.toNat < addr.toNat + writtenSize.toNat ∨ addr.toNat + size.toNat ≤ x.toNat) :
    (writeLoop hal addr buf size writtenSize s).2.mem x = s.mem x := by
  fun_induction writeLoop hal addr buf size writtenSize s with
  | case1 writtenSize s more type r programmed ih =>
    obtain ⟨next, fits, -⟩ : (writtenSize + BitVec.ofNat 32 type.size).toNat = writtenSize.toNat + type.size ∧
      writtenSize.toNat + type.size ≤ size.toNat ∧ 0 < type.size := typeProgram_fits more
    have place : (addr + writtenSize).toNat = addr.toNat + writtenSize.toNat := by bv_omega
    have kept : r.2.mem x = s.mem x := by
      apply unit_others programmed
      intro i below same
      have at_ := congrArg BitVec.toNat same
      rw [BitVec.toNat_add, place, BitVec.toNat_ofNat] at at_
      lia
    exact (ih done (by lia)).trans kept
  | case2 => cases done
  | case3 => rfl

theorem loop_written (room : addr.toNat + size.toNat < 2 ^ 32)
    (done : (writeLoop hal addr buf size writtenSize s).1 = true) {i : Nat} (behind : writtenSize.toNat ≤ i)
    (below : i < size.toNat) :
    (writeLoop hal addr buf size writtenSize s).2.mem (addr + BitVec.ofNat 32 i) = buf i := by
  fun_induction writeLoop hal addr buf size writtenSize s with
  | case1 writtenSize s more type r programmed ih =>
    obtain ⟨next, fits, -⟩ : (writtenSize + BitVec.ofNat 32 type.size).toNat = writtenSize.toNat + type.size ∧
      writtenSize.toNat + type.size ≤ size.toNat ∧ 0 < type.size := typeProgram_fits more
    rcases Nat.lt_or_ge i (writtenSize.toNat + type.size) with now | later
    · have place : (addr + BitVec.ofNat 32 i).toNat = addr.toNat + i := by
        rw [BitVec.toNat_add, BitVec.toNat_ofNat]
        lia
      -- what the later units program lies behind, and this one has been read back
      have programmed_ := congrArg (fun l => l[i - writtenSize.toNat]?) (unit_written programmed)
      have offset : addr + writtenSize + BitVec.ofNat 32 (i - writtenSize.toNat) = addr + BitVec.ofNat 32 i := by
        bv_omega
      rw [loop_others room done (by lia)]
      have inside : i - writtenSize.toNat < type.size := by lia
      simp only [Bytes.read, slice, List.getElem?_map, List.getElem?_range inside, Option.map_some, offset,
        Nat.add_sub_cancel' behind, Option.some.injEq] at programmed_
      exact programmed_
    · exact ih done (by lia)
  | case2 => cases done
  | case3 writtenSize s ended => exact absurd below (by bv_omega)

/- The sectors. -/

theorem sectorStart_lt (k : Nat) : sectorStart k < sectorStart (k + 1) := by
  simp only [sectorStart]
  split <;> split <;> lia

theorem sectorStart_mono : StrictMono sectorStart := strictMono_nat_of_lt_succ sectorStart_lt

def SectorOf (address k : BitVec 32) : Prop :=
  k.toNat < 12 ∧ sectorStart k.toNat ≤ address.toNat ∧ address.toNat < sectorStart (k.toNat + 1)

theorem sectorOf_branch {k first next : BitVec 32}
    (table : k.toNat < 12 ∧ sectorStart k.toNat = first.toNat ∧ sectorStart (k.toNat + 1) = next.toNat)
    (here : address < next ∧ address ≥ first) : SectorOf address k :=
  ⟨table.1, table.2.1.symm ▸ here.2, table.2.2.symm ▸ here.1⟩

theorem getSector_spec (above : stm32FlashStartAdress ≤ address) (below : address < stm32FlashEndAddress) :
    SectorOf address (getSector address) := by
  unfold getSector
  iterate 12
    refine iteInduction (sectorOf_branch (by decide)) (fun _ => ?_)
  -- the default is for addresses that are not in the flash
  simp only [stm32FlashStartAdress, stm32FlashEndAddress, stm32FlashSize, addrFlashSector0, addrFlashSector1,
    addrFlashSector2, addrFlashSector3, addrFlashSector4, addrFlashSector5, addrFlashSector6, addrFlashSector7,
    addrFlashSector8, addrFlashSector9, addrFlashSector10, addrFlashSector11, addrFlashSector12] at *
  bv_omega

theorem sectors_intersect {first last : BitVec 32} (some_ : 1 ≤ size.toNat)
    (room : addr.toNat + size.toNat < 2 ^ 32) (one : SectorOf addr first) (other : SectorOf (addr + size - 1) last)
    (k : Nat) : first.toNat ≤ k ∧ k < first.toNat + (last - first + 1).toNat ↔
      Intersects k addr.toNat size.toNat := by
  have final : (addr + size - 1).toNat = addr.toNat + size.toNat - 1 := by bv_omega
  obtain ⟨-, start, stop⟩ := one
  obtain ⟨few, start', stop'⟩ := other
  rw [final] at start' stop'
  have order : first.toNat ≤ last.toNat := by
    have before : sectorStart first.toNat < sectorStart (last.toNat + 1) := by lia
    exact Nat.lt_succ_iff.mp (sectorStart_mono.lt_iff_lt.mp before)
  have count : (last - first + 1).toNat = last.toNat - first.toNat + 1 := by bv_omega
  rw [count]
  constructor
  · rintro ⟨low, high⟩
    have after := sectorStart_mono.monotone low
    have after' : sectorStart (first.toNat + 1) ≤ sectorStart (k + 1) := sectorStart_mono.monotone (by lia)
    have before := sectorStart_mono.monotone (show k ≤ last.toNat by lia)
    have whole := sectorStart_lt k
    exact ⟨by lia, max addr.toNat (sectorStart k), by lia, by lia, by lia, by lia⟩
  · rintro ⟨-, x, low, high, inside, within⟩
    have after : sectorStart first.toNat < sectorStart (k + 1) := by lia
    have before : sectorStart k < sectorStart (last.toNat + 1) := by lia
    have after_ := sectorStart_mono.lt_iff_lt.mp after
    have before_ := sectorStart_mono.lt_iff_lt.mp before
    lia

/- The claims about whole calls. -/

section
variable (hal : Hal) (mem : Memory 32) (buf : Nat → Byte)

theorem write_runs (some_ : 1 ≤ size.toNat) (fits : addr + size ≤ stm32FlashEndAddress) :
    stm32FlashWrite hal ⟨mem, []⟩ addr buf size =
      (if (writeLoop hal addr buf size 0 ⟨mem, [.unlock, .clearFlag]⟩).1 then size else -rtError,
        (writeLoop hal addr buf size 0 ⟨mem, [.unlock, .clearFlag]⟩).2.log .lock) := by
  rw [stm32FlashWrite, if_neg (BitVec.not_lt.mpr fits), if_neg (by bv_omega)]
  rfl

theorem erase_runs (some_ : 1 ≤ size.toNat) (fits : addr + size ≤ stm32FlashEndAddress) :
    (stm32FlashErase hal ⟨mem, []⟩ addr size).2.ops = [.unlock, .clearFlag,
      .erase (getSector addr) (getSector (addr + size - 1) - getSector addr + 1), .lock] := by
  rw [stm32FlashErase, if_neg (BitVec.not_lt.mpr fits), if_neg (by bv_omega)]
  rfl

theorem flash_exact (start : stm32FlashStartAdress ≤ addr) (some_ : 1 ≤ size.toNat)
    (fits : addr.toNat + size.toNat ≤ stm32FlashEndAddress.toNat) : Exact hal mem addr buf size := by
  simp only [stm32FlashStartAdress, stm32FlashEndAddress, stm32FlashSize] at start fits
  have room : addr.toNat + size.toNat < 2 ^ 32 := by bv_omega
  have passes : addr + size ≤ stm32FlashEndAddress := by
    simp only [stm32FlashStartAdress, stm32FlashEndAddress, stm32FlashSize]
    bv_omega
  have done : (stm32FlashWrite hal ⟨mem, []⟩ addr buf size).1 = size →
      (writeLoop hal addr buf size 0 ⟨mem, [.unlock, .clearFlag]⟩).1 = true := by
    intro same
    rw [write_runs hal mem buf some_ passes] at same
    by_contra failed
    rw [if_neg failed] at same
    rw [← same, rtError] at fits
    bv_omega
  constructor
  · intro op member
    rw [write_runs hal mem buf some_ passes, State.log, List.mem_append, List.mem_singleton] at member
    obtain inside | rfl := member
    · exact loop_requests room (by simp [Op.Within]) op inside
    · trivial
  · intro same i below
    rw [write_runs hal mem buf some_ passes]
    exact loop_written room (done same) (Nat.zero_le i) below
  · intro same x outside
    rw [write_runs hal mem buf some_ passes]
    exact loop_others room (done same) outside
  · refine ⟨_, _, by rw [erase_runs hal mem some_ passes]; rfl, ?_⟩
    apply sectors_intersect some_ room
    · apply getSector_spec start
      simp only [stm32FlashEndAddress, stm32FlashStartAdress, stm32FlashSize]
      bv_omega
    · apply getSector_spec <;> simp only [stm32FlashEndAddress, stm32FlashStartAdress, stm32FlashSize] <;> bv_omega

/-- Where nothing ever fails: an erased byte reads 0xFF, and programming only clears bits. -/
def idealHal : Hal where
  program s type address data :=
    (true, write s.mem address ((List.range type.size).map fun i =>
      s.mem (address + BitVec.ofNat 32 i) &&& data.getD i 0xFF))
  erase s sector nbSectors := (true, fun x =>
    if sectorStart sector.toNat ≤ x.toNat ∧ x.toNat < sectorStart (sector.toNat + nbSectors.toNat) then 0xFF
    else s.mem x)
  asked := by
    intro s type address data x _ outside
    have beyond : type.size ≤ (x - address).toNat := by
      by_contra inside
      exact outside (x - address).toNat (by lia) (by bv_omega)
    simp only [write]
    rw [List.getElem?_eq_none (by simpa using beyond), Option.getD_none]

/-- Seven bytes from an odd address at a sector's end on: a byte, a half-word and a word. -/
theorem flash_exact_odd : Exact idealHal (fun _ => 0xFF) 0x08003FFD (fun i => BitVec.ofNat 8 i) 7 :=
  flash_exact idealHal _ _ (by decide) (by decide) (by decide)

theorem length_readLoop (n : Nat) (addr : BitVec 32) (s : State) : (readLoop n addr s).1.length = n := by
  induction n generalizing addr s with
  | zero => rfl
  | succ n ih => simp [readLoop, ih]

theorem inside_iff (some_ : 1 ≤ size.toNat) (passes : addr + size ≤ stm32FlashEndAddress) :
    Inside addr size ↔ stm32FlashStartAdress ≤ addr ∧ addr.toNat + size.toNat < 2 ^ 32 := by
  simp only [stm32FlashEndAddress, stm32FlashStartAdress, stm32FlashSize, Inside] at *
  constructor
  · intro inside
    have first := inside addr.toNat (Nat.le_refl _) (by lia)
    have last := inside (addr.toNat + size.toNat - 1) (by lia) (by lia)
    bv_omega
  · rintro ⟨start, whole⟩ x low high
    bv_omega

/-- The only check is that of the sum, which wraps. -/
theorem flash_refuses : Refuses hal mem addr buf size ↔
    size = 0 ∨ (stm32FlashStartAdress ≤ addr ∧ addr.toNat + size.toNat < 2 ^ 32) ∨
      stm32FlashEndAddress < addr + size := by
  rcases Nat.eq_zero_or_pos size.toNat with empty | some_
  · have none : size = 0 := BitVec.eq_of_toNat_eq empty
    have inside : Inside addr size := fun x low high => by lia
    exact iff_of_true ⟨fun out => absurd inside out, fun out => absurd inside out, fun out => absurd inside out⟩
      (.inl none)
  have something : size ≠ 0 := fun none => by simp [none] at some_
  by_cases passes : addr + size ≤ stm32FlashEndAddress
  · have rest : ¬ stm32FlashEndAddress < addr + size := BitVec.not_lt.mpr passes
    simp only [something, rest, false_or, or_false, ← inside_iff some_ passes]
    constructor
    · intro refuses
      by_contra outside
      have loaded := congrArg (fun r => r.1.length) (refuses.read outside).2
      rw [stm32FlashRead, if_neg rest] at loaded
      simp only [length_readLoop, List.length_nil] at loaded
      lia
    · intro inside
      exact ⟨fun out => absurd inside out, fun out => absurd inside out, fun out => absurd inside out⟩
  · have refused : addr + size > stm32FlashEndAddress := BitVec.not_le.mp passes
    refine iff_of_true ⟨fun _ => ?_, fun _ => ?_, fun _ => ?_⟩ (.inr (.inr refused))
    · rw [stm32FlashRead, if_pos refused]
      exact ⟨show (-1 : BitVec 32).toInt < 0 by decide, rfl⟩
    · rw [stm32FlashWrite, if_pos refused]
      exact ⟨show (-rtEinval).toInt < 0 by decide, rfl⟩
    · rw [stm32FlashErase, if_pos refused]
      exact ⟨show (-rtEinval).toInt < 0 by decide, rfl⟩

/-- 32 bytes from 0xFFFFFFF0 on end at 0x10: sector 0 is erased. -/
theorem erase_wraps : ¬ Refuses idealHal (fun _ => 0) 0xFFFFFFF0 (fun _ => 0) 0x20 ∧
    (stm32FlashErase idealHal ⟨fun _ => 0, []⟩ 0xFFFFFFF0 0x20).1 = 0x20 ∧
    (stm32FlashErase idealHal ⟨fun _ => 0, []⟩ 0xFFFFFFF0 0x20).2.ops = [.unlock, .clearFlag, .erase 0 1, .lock] := by
  refine ⟨fun refuses => ?_, by decide, by decide⟩
  have outside : ¬ Inside 0xFFFFFFF0 0x20 := fun inside =>
    absurd (inside 0xFFFFFFF0 (by decide) (by decide)) (by decide)
  exact absurd (refuses.erase outside).1 (by decide)

end

end RtThread.Flash
