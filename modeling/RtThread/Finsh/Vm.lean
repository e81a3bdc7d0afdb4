import Mathlib.Logic.Function.Basic
import RtThread.Fetch
import RtThread.Finsh

/-! The finsh virtual machine: op_table over a stack of finsh_value, and finsh_vm_run. The stack
and the text segment are arrays of their own, everything else is memory. An access outside of
an array, a NULL entry of op_table and a division by zero have no next state. -/
namespace RtThread.Finsh
open Bytes Fetch

/-- finsh_vm_stack, finsh_sp, finsh_pc and the memory behind the pointers. -/
structure Vm where
  stack : Nat → Long
  sp : Nat
  pc : Nat
  memory : Memory 32

/-- A system call: its address, the parameters and the memory to its result and the memory it leaves. -/
abbrev Syscalls := Long → List Long → Memory 32 → Long × Memory 32

/-- A char_value, short_value or long_value as an operand; char has no sign on this port. -/
def Width.operand : Width → Long → Long
  | .byte, v => (v.setWidth 8).setWidth 32
  | .word, v => (v.setWidth 16).signExtend 32
  | .dword, v => v

/-- A finsh_value after one of its members is assigned. -/
def Width.assign : Width → Long → Long → Long
  | .byte, old, v => (old &&& 0xFFFFFF00) ||| (v &&& 0xFF)
  | .word, old, v => (old &&& 0xFFFF0000) ||| (v &&& 0xFFFF)
  | .dword, _, v => v

/-- A shift by a register takes its low byte. -/
def shiftCount (b : Long) : Nat := b.toNat % 256

/-- The operator, on operands that have been promoted to int. -/
def Arith.apply : Arith → Long → Long → Option Long
  | .add, a, b => some (a + b)
  | .sub, a, b => some (a - b)
  | .div, a, b => if b = 0 then none else some (a.sdiv b)
  | .mod, a, b => if b = 0 then none else some (a.srem b)
  | .mul, a, b => some (a * b)
  | .and, a, b => some (a &&& b)
  | .or, a, b => some (a ||| b)
  | .xor, a, b => some (a ^^^ b)
  | .shl, a, b => some (a <<< shiftCount b)
  | .shr, a, b => some (a.sshiftRight (shiftCount b))

namespace Vm

/-- finsh_sp->x = v; finsh_sp ++. -/
def push (s : Vm) (w : Width) (v : Long) : Option Vm :=
  if s.sp < stackMax then
    some { s with stack := Function.update s.stack s.sp (w.assign (s.stack s.sp) v), sp := s.sp + 1 }
  else none

/-- (finsh_sp - 1)->x = f(finsh_sp - 1). -/
def onTop (s : Vm) (w : Width) (f : Long → Long) : Option Vm :=
  if 1 ≤ s.sp then
    let old := s.stack (s.sp - 1)
    some { s with stack := Function.update s.stack (s.sp - 1) (w.assign old (f old)) }
  else none

def opBin (s : Vm) (op : Arith) (w : Width) : Option Vm :=
  if 2 ≤ s.sp then
    let old := s.stack (s.sp - 2)
    (op.apply (w.operand old) (w.operand (s.stack (s.sp - 1)))).map (fun v =>
      { s with stack := Function.update s.stack (s.sp - 2) (w.assign old v), sp := s.sp - 1 })
  else none

/-- The operand of `n` bytes at finsh_pc. -/
def immediate (text : Text) (s : Vm) (n : Nat) : Option Long :=
  if s.pc + n ≤ textMax then some (ofBytes 32 ((text.bytes.drop s.pc).take n)) else none

def loadMem (s : Vm) (w : Width) (a : Long) : Long := ofBytes 32 (read s.memory a w.size)

def opSt (s : Vm) (w : Width) : Option Vm :=
  if 2 ≤ s.sp then
    let a := s.stack (s.sp - 2)
    some { s with memory := write s.memory a (toBytes w.size (s.stack (s.sp - 1))), sp := s.sp - 1 }
  else none

def opPop (s : Vm) : Option Vm :=
  if 1 ≤ s.sp then some { s with sp := s.sp - 1 } else none

def opCall (call : Syscalls) (text : Text) (s : Vm) : Option Vm := do
  let parameters ← s.immediate text 1
  let n := parameters.toNat
  if n ≤ 16 ∧ n + 1 ≤ s.sp then
    let f := s.stack (s.sp - n - 1)
    let parameterv := (List.range n).map (fun i => s.stack (s.sp - n + i))
    let (r, memory) := call f parameterv s.memory
    { s with memory, sp := s.sp - n - 1, pc := s.pc + 1 }.push .dword r
  else none

def execute (call : Syscalls) (text : Text) (s : Vm) : Op → Option Vm
  | .noop => some s
  | .bin op w => s.opBin op w
  | .bitwise w => s.onTop w (fun v => ~~~ w.operand v)
  | .ld w => do
    let v ← s.immediate text w.size
    { s with pc := s.pc + w.size }.push w v
  | .ldValue w => do
    let a ← s.immediate text 4
    { s with pc := s.pc + 4 }.push w (s.loadMem w a)
  | .st w => s.opSt w
  | .pop => s.opPop
  | .syscall => s.opCall call text
  | .ldValueStack w => s.onTop w (s.loadMem w)

end Vm

def widths (op : Width → Op) : List Op := [op .byte, op .word, op .dword]

def opTable : List Op :=
  .noop :: widths (.bin .add) ++ widths (.bin .sub) ++ widths (.bin .div) ++ widths (.bin .mod) ++
    widths (.bin .mul) ++ widths (.bin .and) ++ widths (.bin .or) ++ widths (.bin .xor) ++
    widths .bitwise ++ widths (.bin .shl) ++ widths (.bin .shr) ++ widths .ld ++ widths .ldValue ++
    widths .st ++ [.pop, .syscall] ++ widths .ldValueStack

def round (call : Syscalls) (text : Text) (s : Vm) : Option Vm := do
  let code ← text.bytes[s.pc]?
  let op ← opTable[code.toNat]?
  { s with pc := s.pc + 1 }.execute call text op

def running (s : Vm) : Bool := s.pc < textMax

/-- Every op moves finsh_pc on, so the text segment has been walked after FINSH_TEXT_MAX rounds. -/
def finshVmRun (call : Syscalls) (text : Text) (s : Vm) : Option Vm :=
  loop running (round call text) textMax { s with sp := 0, pc := 0 }

def finshStackBottom (s : Vm) : Long := s.stack 0

/-- finsh_compiler_run. -/
def finshCompilerRun (g : Globals) (node : Node) (s : Vm) : Option (Text × Vm) :=
  (Text.ofCode (compileStatements g (finshTypeCheck g node nodeValue))).map (fun text =>
    (text, { s with stack := Function.update s.stack 0 0 }))

section rounds
variable {f : Syscalls} {text : Text} {s s' : Vm} {op : Op} {code : List Byte} {v : Long}

theorem opTable_code (op : Op) : opTable[op.code.toNat]? = some op := by
  cases op with
  | bin op w => cases op <;> cases w <;> rfl
  | bitwise w => cases w <;> rfl
  | ld w => cases w <;> rfl
  | ldValue w => cases w <;> rfl
  | st w => cases w <;> rfl
  | ldValueStack w => cases w <;> rfl
  | noop => rfl
  | pop => rfl
  | syscall => rfl

theorem push_pc {w : Width} (done : s.push w v = some s') : s'.pc = s.pc := by
  unfold Vm.push at done
  split at done
  · cases done; rfl
  · contradiction

theorem onTop_pc {w : Width} {change : Long → Long} (done : s.onTop w change = some s') : s'.pc = s.pc := by
  unfold Vm.onTop at done
  split at done
  · cases done; rfl
  · contradiction

theorem execute_pc (done : s.execute f text op = some s') : s.pc ≤ s'.pc := by
  cases op with
  | noop => cases done; exact Nat.le_refl _
  | bin op w =>
    simp only [Vm.execute, Vm.opBin] at done
    split at done
    · obtain ⟨_, _, rfl⟩ := Option.map_eq_some_iff.mp done
      exact Nat.le_refl _
    · contradiction
  | bitwise w =>
    simp only [Vm.execute] at done
    exact Nat.le_of_eq (onTop_pc done).symm
  | ld w =>
    obtain ⟨_, _, pushed⟩ := Option.bind_eq_some_iff.mp done
    exact Nat.le_trans (Nat.le_add_right _ _) (Nat.le_of_eq (push_pc pushed).symm)
  | ldValue w =>
    obtain ⟨_, _, pushed⟩ := Option.bind_eq_some_iff.mp done
    exact Nat.le_trans (Nat.le_add_right _ _) (Nat.le_of_eq (push_pc pushed).symm)
  | st w =>
    simp only [Vm.execute, Vm.opSt] at done
    split at done
    · cases done; exact Nat.le_refl _
    · contradiction
  | pop =>
    simp only [Vm.execute, Vm.opPop] at done
    split at done
    · cases done; exact Nat.le_refl _
    · contradiction
  | syscall =>
    obtain ⟨_, _, called⟩ := Option.bind_eq_some_iff.mp done
    simp only at called
    split at called
    · exact Nat.le_trans (Nat.le_add_right _ _) (Nat.le_of_eq (push_pc called).symm)
    · contradiction
  | ldValueStack w =>
    simp only [Vm.execute] at done
    exact Nat.le_of_eq (onTop_pc done).symm

theorem round_pc (done : round f text s = some s') : s.pc < s'.pc := by
  obtain ⟨_, _, rest⟩ := Option.bind_eq_some_iff.mp done
  obtain ⟨_, _, executed⟩ := Option.bind_eq_some_iff.mp rest
  exact execute_pc executed

theorem round_lowers (s s' : Vm) (_ : running s = true) (done : round f text s = some s') :
    textMax - s'.pc < textMax - s.pc := by
  have before : s.pc < textMax := by
    obtain ⟨_, found, _⟩ := Option.bind_eq_some_iff.mp done
    obtain ⟨inside, _⟩ := List.getElem?_eq_some_iff.mp found
    exact text.size ▸ inside
  have after := round_pc done
  omega

/-- finsh_vm_run ends: allowing the loop more rounds changes nothing. -/
theorem finshVmRun_ends {more : Nat} (enough : textMax ≤ more) :
    loop running (round f text) more { s with sp := 0, pc := 0 } = finshVmRun f text s := by
  apply loop_enough round_lowers _ (Nat.sub_le _ _) enough
  intro s through
  simp only [running, decide_eq_false_iff_not]
  omega

theorem round_op (placed : Placed text.bytes s.pc (op.code :: code)) :
    round f text s = { s with pc := s.pc + 1 }.execute f text op := by
  simp [round, placed.head, opTable_code]

theorem running_placed {b : Byte} (placed : Placed text.bytes s.pc (b :: code)) :
    running s = true := by
  simpa [running, text.size] using placed.bound

theorem immediate_placed {n : Nat} (_ : 0 < n) (placed : Placed text.bytes s.pc (toBytes n v))
    (wide : 32 ≤ 8 * n) : s.immediate text n = some v := by
  have inside : s.pc + n ≤ textMax := by
    have short := placed.length_le
    rw [length_toBytes, List.length_drop, text.size] at short
    omega
  have taken := placed.take
  rw [length_toBytes] at taken
  rw [Vm.immediate, if_pos inside, taken, ofBytes_toBytes wide]

def Vm.pushed (s : Vm) (v : Long) (k : Nat) : Vm :=
  { s with stack := Function.update s.stack s.sp v, sp := s.sp + 1, pc := s.pc + k }

theorem round_ld (placed : Placed text.bytes s.pc (ld .dword v)) (room : s.sp < stackMax) :
    round f text s = some (s.pushed v 5) := by
  have operand : Placed text.bytes (s.pc + 1) (toBytes 4 v) := placed.tail
  have loaded : { s with pc := s.pc + 1 }.immediate text 4 = some v :=
    immediate_placed (by decide) operand (by decide)
  simp [round_op placed, Vm.execute, Width.size, loaded, Vm.push, room, Width.assign, Vm.pushed]

theorem round_ldValue {a : Long} (placed : Placed text.bytes s.pc (ldValue .dword a))
    (room : s.sp < stackMax) :
    round f text s = some (s.pushed (s.loadMem .dword a) 5) := by
  have operand : Placed text.bytes (s.pc + 1) (toBytes 4 a) := placed.tail
  have loaded : { s with pc := s.pc + 1 }.immediate text 4 = some a :=
    immediate_placed (by decide) operand (by decide)
  simp [round_op placed, Vm.execute, loaded, Vm.push, room, Width.assign, Vm.pushed, Vm.loadMem]

variable {k : Nat} {aop : Arith}

theorem round_bin (placed : Placed text.bytes s.pc ((Op.bin aop .dword).code :: code))
    (two : s.sp = k + 2) (applied : aop.apply (s.stack k) (s.stack (k + 1)) = some v) :
    round f text s =
      some { s with stack := Function.update s.stack k v, sp := k + 1, pc := s.pc + 1 } := by
  simp [round_op placed, Vm.execute, Vm.opBin, two, Width.operand, applied, Width.assign]

theorem round_bitwise (placed : Placed text.bytes s.pc ((Op.bitwise .dword).code :: code))
    (one : s.sp = k + 1) : round f text s =
      some { s with stack := Function.update s.stack k (~~~ s.stack k), pc := s.pc + 1 } := by
  simp [round_op placed, Vm.execute, Vm.onTop, one, Width.operand, Width.assign]

theorem round_st (placed : Placed text.bytes s.pc ((Op.st .dword).code :: code))
    (two : s.sp = k + 2) : round f text s =
      some { s with
        memory := write s.memory (s.stack k) (toBytes 4 (s.stack (k + 1)))
        sp := k + 1
        pc := s.pc + 1 } := by
  simp [round_op placed, Vm.execute, Vm.opSt, two, Width.size]

theorem round_ldValueStack (placed : Placed text.bytes s.pc ((Op.ldValueStack .dword).code :: code))
    (one : s.sp = k + 1) : round f text s =
      some { s with
        stack := Function.update s.stack k (s.loadMem .dword (s.stack k))
        pc := s.pc + 1 } := by
  simp [round_op placed, Vm.execute, Vm.onTop, one, Width.assign, Vm.loadMem]

theorem round_pop (placed : Placed text.bytes s.pc (Op.pop.code :: code)) (one : s.sp = k + 1) :
    round f text s = some { s with sp := k, pc := s.pc + 1 } := by
  simp [round_op placed, Vm.execute, Vm.opPop, one]

theorem round_noop (placed : Placed text.bytes s.pc (0 :: code)) :
    round f text s = some { s with pc := s.pc + 1 } := by
  have noop : Placed text.bytes s.pc (Op.noop.code :: code) := placed
  exact round_op noop

theorem rounds_noop {n : Nat} (placed : Placed text.bytes s.pc (List.replicate n 0)) :
    Rounds running (round f text) s { s with pc := s.pc + n } := by
  induction n generalizing s with
  | zero => exact .none
  | succ n ih =>
    have rest := ih (s := { s with pc := s.pc + 1 }) placed.tail
    rw [Nat.add_assoc, Nat.add_comm 1] at rest
    exact .round (running_placed placed) (round_noop placed) rest

end rounds

end RtThread.Finsh
