import Mathlib.Algebra.Order.Ring.Int
import Mathlib.Data.List.GetD

/-! A serial NOR flash chip. Programming clears bits, an erase sets a whole sector; both want the write
enable latch, and while one of them goes on the chip answers nothing but its status. -/
namespace NorFlash

abbrev Cells := Nat → UInt8

def program (m : Cells) (a : Nat) (bs : List UInt8) : Cells := fun x =>
  if a ≤ x then m x &&& bs.getD (x - a) 0xFF else m x

def erase (m : Cells) (a n : Nat) : Cells := fun x => if a ≤ x ∧ x < a + n then 0xFF else m x

def load (m : Cells) (a n : Nat) : List UInt8 := (List.range n).map (fun i => m (a + i))

/-- What a reader of a memory without erases would see. -/
def store (m : Cells) (a : Nat) (bs : List UInt8) : Cells := fun x =>
  if a ≤ x ∧ x < a + bs.length then bs.getD (x - a) 0xFF else m x

def nextInPage (page a : Nat) : Nat := if (a + 1) % page = 0 then a + 1 - page else a + 1

def pageProgram (page : Nat) (m : Cells) (a : Nat) : List UInt8 → Cells
  | [] => m
  | b :: bs => pageProgram page (program m a [b]) (nextInPage page a) bs

/-- The number of big-endian bytes. -/
def number (bs : List UInt8) : Nat := bs.foldl (fun n b => n * 256 + b.toNat) 0

def bigEndian (len a : Nat) : List UInt8 := (List.range len).map (fun i => UInt8.ofNat (a >>> ((len - (i + 1)) * 8)))

/-- The codes that do not erase a sector. -/
def plainCodes : List UInt8 := [0x06, 0x04, 0x05, 0x03, 0x02, 0xAD, 0xC7]

/-- What the data sheet of a chip says: how long a page is, how many bytes an address has, what
follows the code of the chip erase, and how much the other erase commands set. -/
structure Kind where
  page : Nat
  addrBytes : Nat
  capacity : Nat
  chipErase : List UInt8
  eraser : UInt8 → Option Nat
  eraser_plain : ∀ code ∈ plainCodes, eraser code = none

/-- `aai` is the address at which the chip goes on in the mode that increments it. -/
structure Chip where
  cells : Cells
  wel : Bool
  busy : Bool
  aai : Option Nat

inductive Command where
  | writeEnable
  | writeDisable
  | pageProgram (a : Nat) (bs : List UInt8)
  | wordFirst (a : Nat) (x y : UInt8)
  | wordNext (x y : UInt8)
  | erase (a n : Nat)
  | eraseChip

namespace Chip

def Idle (c : Chip) : Prop := c.busy = false ∧ c.aai = none

/-- The end of what goes on. The latch falls, but for the mode that increments the address. -/
def finish (c : Chip) : Chip := if c.busy then { c with busy := false, wel := c.aai.isSome } else c

def status (c : Chip) : UInt8 := (if c.busy then 1 else 0) ||| (if c.wel then 2 else 0)

/-- A command to a chip that is not busy. -/
def obey (k : Kind) (c : Chip) : Command → Chip
  | .writeEnable => { c with wel := true }
  | .writeDisable => { c with wel := false, aai := none }
  | .pageProgram a bs =>
    if c.wel ∧ c.aai = none then { c with cells := NorFlash.pageProgram k.page c.cells a bs, busy := true } else c
  | .wordFirst a x y =>
    if c.wel ∧ c.aai = none then
      { c with cells := program c.cells a [x, y], aai := some (a + 2), busy := true }
    else c
  | .wordNext x y =>
    match c.aai with
    | some a =>
      if c.wel then { c with cells := program c.cells a [x, y], aai := some (a + 2), busy := true } else c
    | none => c
  | .erase a n =>
    if c.wel ∧ c.aai = none then { c with cells := NorFlash.erase c.cells (a - a % n) n, busy := true } else c
  | .eraseChip =>
    if c.wel ∧ c.aai = none then { c with cells := NorFlash.erase c.cells 0 k.capacity, busy := true } else c

/-- The command in a frame. -/
def decode (k : Kind) (c : Chip) : List UInt8 → Option Command
  | [] => none
  | code :: rest =>
    let a := number (rest.take k.addrBytes)
    let bs := rest.drop k.addrBytes
    if code = 0x06 then some .writeEnable
    else if code = 0x04 then some .writeDisable
    else if code = 0x02 then if bs = [] then none else some (.pageProgram a bs)
    else if code = 0xAD then
      if c.aai.isSome then
        if rest.length = 2 then some (.wordNext (rest.getD 0 0) (rest.getD 1 0)) else none
      else if bs.length = 2 then some (.wordFirst a (bs.getD 0 0) (bs.getD 1 0))
      else none
    else if code = 0xC7 then if rest = k.chipErase then some .eraseChip else none
    else if rest.length = k.addrBytes then (k.eraser code).map (fun n => .erase a n)
    else none

def receive (k : Kind) (c : Chip) (frame : List UInt8) : Chip :=
  if c.busy then c
  else match c.decode k frame with
    | none => c
    | some command => c.obey k command

/-- What the chip sends behind a frame, `n` bytes of it. Nobody drives the line where the chip does not. -/
def answer (k : Kind) (c : Chip) (frame : List UInt8) (n : Nat) : List UInt8 :=
  match frame with
  | [] => List.replicate n 0xFF
  | code :: rest =>
    if code = 0x05 then List.replicate n c.status
    else if code = 0x03 ∧ c.busy = false ∧ c.aai = none ∧ rest.length = k.addrBytes then load c.cells (number rest) n
    else List.replicate n 0xFF

end Chip

section cells
variable {m : Cells} {a x n : Nat} {bs cs : List UInt8}

theorem program_nil : program m a [] = m := by
  funext x
  rw [program]
  split
  · exact UInt8.and_neg_one
  · rfl

theorem program_outside (outside : x < a ∨ a + bs.length ≤ x) : program m a bs x = m x := by
  rw [program]
  split
  · rw [List.getD_eq_default _ _ (by lia)]
    exact UInt8.and_neg_one
  · rfl

theorem program_append : program (program m a bs) (a + bs.length) cs = program m a (bs ++ cs) := by
  funext x
  by_cases behind : a + bs.length ≤ x
  · have past : bs.length ≤ x - a := by lia
    rw [program, if_pos behind, program_outside (.inr behind), program, if_pos (by lia),
      List.getD_append_right _ _ _ _ past, Nat.sub_sub]
  · rw [program, if_neg behind, program, program]
    split
    · rw [List.getD_append _ _ _ _ (by lia)]
    · rfl

theorem program_take {i : Nat} (inside : i ≤ bs.length) (j : Nat) :
    program (program m a (bs.take i)) (a + i) ((bs.drop i).take j) = program m a (bs.take (i + j)) := by
  have len : (bs.take i).length = i := List.length_take_of_le inside
  rw [List.take_add, ← program_append, len]

theorem program_erase : program (erase m a bs.length) a bs = store m a bs := by
  funext x
  by_cases inside : a ≤ x ∧ x < a + bs.length
  · rw [program, if_pos inside.1, erase, if_pos inside, store, if_pos inside]
    exact UInt8.neg_one_and
  · rw [program_outside (by lia), erase, if_neg inside, store, if_neg inside]

theorem pageProgram_inside {page : Nat} (fits : a % page + bs.length ≤ page) :
    pageProgram page m a bs = program m a bs := by
  induction bs generalizing m a with
  | nil => exact program_nil.symm
  | cons b bs ih =>
    have joined : program (program m a [b]) (a + 1) bs = program m a (b :: bs) := program_append
    rw [List.length_cons] at fits
    rw [pageProgram, nextInPage]
    by_cases ends : bs = []
    · subst ends
      rfl
    · have more : 0 < bs.length := List.length_pos_iff.mpr ends
      have within : (a + 1) % page = a % page + 1 := by
        rw [Nat.add_mod, Nat.mod_eq_of_lt (show 1 < page by lia), Nat.mod_eq_of_lt (by lia)]
      rw [if_neg (by lia), ih (by lia), joined]

end cells

section frames

theorem number_snoc (bs : List UInt8) (b : UInt8) : number (bs ++ [b]) = number bs * 256 + b.toNat := by
  simp [number]

theorem length_bigEndian (len a : Nat) : (bigEndian len a).length = len := by
  simp [bigEndian]

theorem bigEndian_succ (len a : Nat) : bigEndian (len + 1) a = bigEndian len (a / 256) ++ [UInt8.ofNat a] := by
  have last : (len + 1 - (len + 1)) * 8 = 0 := by lia
  rw [bigEndian, List.range_succ, List.map_append, List.map_singleton, last, Nat.shiftRight_zero]
  congr 1
  apply List.map_congr_left
  intro i inside
  have below := List.mem_range.mp inside
  have shift : (len + 1 - (i + 1)) * 8 = 8 + (len - (i + 1)) * 8 := by lia
  rw [shift, Nat.shiftRight_add, Nat.shiftRight_eq_div_pow a 8]

theorem number_bigEndian (len a : Nat) (fits : a < 256 ^ len) : number (bigEndian len a) = a := by
  induction len generalizing a with
  | zero =>
    obtain rfl : a = 0 := by simpa using fits
    rfl
  | succ len ih =>
    have less : a / 256 < 256 ^ len := Nat.div_lt_of_lt_mul (by rw [pow_succ] at fits; lia)
    rw [bigEndian_succ, number_snoc, ih _ less, UInt8.toNat_ofNat']
    lia

end frames

section chips
variable {k : Kind} {c : Chip} {code : UInt8} {a n : Nat} {bs : List UInt8} {x y : UInt8}

@[simp] theorem finish_cells : c.finish.cells = c.cells := by
  unfold Chip.finish
  split <;> rfl

@[simp] theorem finish_aai : c.finish.aai = c.aai := by
  unfold Chip.finish
  split <;> rfl

theorem finish_idle (idle : c.busy = false) : c.finish = c := by
  simp [Chip.finish, idle]

@[simp] theorem finish_busy : c.finish.busy = false := by
  cases busy : c.busy with
  | false => rw [finish_idle busy, busy]
  | true => simp [Chip.finish, busy]

theorem finish_wel (up : c.wel = true) (mode : c.aai.isSome = true) : c.finish.wel = true := by
  unfold Chip.finish
  split
  · exact mode
  · exact up

theorem status_busy : c.status &&& 1 = 0 ↔ c.busy = false := by
  unfold Chip.status
  cases c.busy <;> cases c.wel <;> decide

theorem status_wel : c.status &&& 2 = 0 ↔ c.wel = false := by
  unfold Chip.status
  cases c.busy <;> cases c.wel <;> decide

theorem receive_none (none_ : c.decode k (code :: bs) = none) : c.receive k (code :: bs) = c := by
  unfold Chip.receive
  rw [none_]
  split <;> rfl

theorem receive_some {command : Command} (idle : c.busy = false) (known : c.decode k (code :: bs) = some command) :
    c.receive k (code :: bs) = c.obey k command := by
  unfold Chip.receive
  rw [known, idle]
  rfl

theorem receive_status : c.receive k [0x05] = c := by
  apply receive_none
  have plain : k.eraser 0x05 = none := k.eraser_plain _ (by decide)
  simp [Chip.decode, plain]

theorem receive_read : c.receive k (0x03 :: bs) = c := by
  apply receive_none
  have plain : k.eraser 0x03 = none := k.eraser_plain _ (by decide)
  simp [Chip.decode, plain]

theorem receive_writeEnable (idle : c.busy = false) : c.receive k [0x06] = { c with wel := true } := by
  have known : c.decode k [0x06] = some .writeEnable := by simp [Chip.decode]
  exact receive_some idle known

theorem receive_writeDisable (idle : c.busy = false) :
    c.receive k [0x04] = { c with wel := false, aai := none } := by
  have known : c.decode k [0x04] = some .writeDisable := by simp [Chip.decode]
  exact receive_some idle known

theorem receive_writeDisable_cells : (c.receive k [0x04]).cells = c.cells := by
  cases busy : c.busy with
  | false => rw [receive_writeDisable busy]
  | true => rw [Chip.receive, if_pos busy]

theorem receive_pageProgram (idle : c.Idle) (up : c.wel = true) (fits : a < 256 ^ k.addrBytes) (some_ : bs ≠ [])
    (short : a % k.page + bs.length ≤ k.page) :
    c.receive k (0x02 :: (bigEndian k.addrBytes a ++ bs)) =
      { c with cells := program c.cells a bs, busy := true } := by
  have known : c.decode k (0x02 :: (bigEndian k.addrBytes a ++ bs)) = some (.pageProgram a bs) := by
    have len := length_bigEndian k.addrBytes a
    simp [Chip.decode, len, number_bigEndian _ _ fits, some_]
  rw [receive_some idle.1 known, Chip.obey, if_pos ⟨up, idle.2⟩, pageProgram_inside short]

theorem receive_wordFirst (idle : c.Idle) (up : c.wel = true) (fits : a < 256 ^ k.addrBytes) :
    c.receive k (0xAD :: (bigEndian k.addrBytes a ++ [x, y])) =
      { c with cells := program c.cells a [x, y], aai := some (a + 2), busy := true } := by
  have known : c.decode k (0xAD :: (bigEndian k.addrBytes a ++ [x, y])) = some (.wordFirst a x y) := by
    have len := length_bigEndian k.addrBytes a
    simp [Chip.decode, len, number_bigEndian _ _ fits, idle.2]
  rw [receive_some idle.1 known, Chip.obey, if_pos ⟨up, idle.2⟩]

theorem receive_wordNext (idle : c.busy = false) (up : c.wel = true) (mode : c.aai = some a) :
    c.receive k [0xAD, x, y] =
      { c with cells := program c.cells a [x, y], aai := some (a + 2), busy := true } := by
  have known : c.decode k [0xAD, x, y] = some (.wordNext x y) := by
    simp [Chip.decode, mode]
  rw [receive_some idle known]
  simp only [Chip.obey, mode, if_pos up]

theorem eraser_decode (known : k.eraser code = some n) (fits : a < 256 ^ k.addrBytes) :
    c.decode k (code :: bigEndian k.addrBytes a) = some (.erase a n) := by
  have special : ∀ plain ∈ plainCodes, code ≠ plain := by
    rintro plain inside rfl
    rw [k.eraser_plain _ inside] at known
    cases known
  have len := length_bigEndian k.addrBytes a
  have whole : (bigEndian k.addrBytes a).take k.addrBytes = bigEndian k.addrBytes a :=
    List.take_of_length_le (by lia)
  simp only [Chip.decode, if_neg (special 0x06 (by decide)), if_neg (special 0x04 (by decide)),
    if_neg (special 0x02 (by decide)), if_neg (special 0xAD (by decide)), if_neg (special 0xC7 (by decide)), len,
    if_true, known, whole, number_bigEndian _ _ fits, Option.map_some]

theorem receive_erase (idle : c.Idle) (up : c.wel = true) (known : k.eraser code = some n)
    (fits : a < 256 ^ k.addrBytes) :
    c.receive k (code :: bigEndian k.addrBytes a) =
      { c with cells := erase c.cells (a - a % n) n, busy := true } := by
  rw [receive_some idle.1 (eraser_decode known fits), Chip.obey, if_pos ⟨up, idle.2⟩]

theorem receive_eraseChip (idle : c.Idle) (up : c.wel = true) :
    c.receive k (0xC7 :: k.chipErase) = { c with cells := erase c.cells 0 k.capacity, busy := true } := by
  have known : c.decode k (0xC7 :: k.chipErase) = some .eraseChip := by
    simp [Chip.decode]
  rw [receive_some idle.1 known, Chip.obey, if_pos ⟨up, idle.2⟩]

theorem answer_read (idle : c.Idle) (fits : a < 256 ^ k.addrBytes) :
    c.answer k (0x03 :: bigEndian k.addrBytes a) n = load c.cells a n := by
  simp [Chip.answer, idle.1, idle.2, length_bigEndian, number_bigEndian _ _ fits]

end chips

end NorFlash
