import Mathlib.Algebra.Order.BigOperators.Group.List
import RtThread.Finsh.Vm

/-! Where finsh_sp goes in a run of finsh_vm_run. There are no jumps, so the text alone says it, and
the walk goes on where the machine of Vm stops because an operand lies outside of its stack. -/
namespace RtThread.Finsh
open Bytes Fetch

def Op.operands : Op → Nat
  | .ld w => w.size
  | .ldValue _ => 4
  | .syscall => 1
  | .noop | .bin .. | .bitwise _ | .st _ | .pop | .ldValueStack _ => 0

/-- The moves of finsh_sp in an operation, in their order; OP_call goes down past the parameters to
the address of the function. -/
def Op.moves (parameters : Nat) : Op → List Int
  | .noop | .bitwise _ | .ldValueStack _ => []
  | .ld _ | .ldValue _ => [1]
  | .bin .. | .st _ | .pop => [-1]
  | .syscall => List.replicate (parameters + 1) (-1) ++ [1]

/-- The moves along the text, whose first `skip` bytes still belong to an operation. -/
def spMoves : Nat → List Byte → List Int
  | _, [] => []
  | skip + 1, _ :: rest => spMoves skip rest
  | 0, code :: rest =>
    match opTable[code.toNat]? with
    | none => []
    | some op => op.moves (rest.headD 0).toNat ++ spMoves op.operands rest

/-- The values of finsh_sp along the moves. -/
def heights : Int → List Int → List Int
  | sp, [] => [sp]
  | sp, m :: ms => sp :: heights (sp + m) ms

section heights
variable {sp k : Int} {first second : List Int}

theorem mem_heights_self (sp : Int) (ms : List Int) : sp ∈ heights sp ms := by
  cases ms <;> simp [heights]

theorem mem_heights_append (later : k ∈ heights (sp + first.sum) second) :
    k ∈ heights sp (first ++ second) := by
  induction first generalizing sp with
  | nil => simpa using later
  | cons m ms ih =>
    have rest : k ∈ heights (sp + m) (ms ++ second) := by
      apply ih
      rwa [List.sum_cons, ← Int.add_assoc] at later
    exact List.mem_cons_of_mem _ rest

theorem heights_le_ups (ms : List Int) (reached : k ∈ heights sp ms) : k ≤ sp + (ms.map (max 0)).sum := by
  induction ms generalizing sp with
  | nil => simp_all [heights]
  | cons m ms ih =>
    have nonneg : ∀ x ∈ (m :: ms).map (max 0), (0 : Int) ≤ x := by
      intro x member
      obtain ⟨m, _, rfl⟩ := List.mem_map.mp member
      exact le_max_left 0 m
    have up : m ≤ max 0 m := le_max_right 0 m
    rcases List.mem_cons.mp reached with rfl | later
    · have total := List.sum_nonneg nonneg
      lia
    · have within := ih later
      rw [List.map_cons, List.sum_cons]
      lia

end heights

theorem spMoves_drop (skip : Nat) (code : List Byte) : spMoves skip code = spMoves 0 (code.drop skip) := by
  induction code generalizing skip with
  | nil => simp [spMoves]
  | cons b rest ih =>
    cases skip with
    | zero => rfl
    | succ skip => exact ih skip

section rounds
variable {f : Syscalls} {text : Text} {s s' : Vm} {op : Op}

/-- What a round moves, for a machine that knows the stack as an array. -/
structure Moved (s s' : Vm) (operands : Nat) (moves : List Int) : Prop where
  pc : s'.pc = s.pc + operands
  sp : (s'.sp : Int) = s.sp + moves.sum

theorem push_moved {w : Width} {v : Long} {operands : Nat}
    (done : { s with pc := s.pc + operands }.push w v = some s') : Moved s s' operands [1] := by
  unfold Vm.push at done
  split at done
  · cases done
    exact ⟨rfl, by simp⟩
  · contradiction

theorem onTop_moved {w : Width} {change : Long → Long} (done : s.onTop w change = some s') :
    Moved s s' 0 [] := by
  unfold Vm.onTop at done
  split at done
  · cases done
    exact ⟨rfl, by simp⟩
  · contradiction

theorem sum_syscall_moves (parameters : Nat) : (Op.syscall.moves parameters).sum = -parameters := by
  simp [Op.moves, List.sum_replicate]

theorem immediate_parameters {parameters : Long} (read : s.immediate text 1 = some parameters) :
    parameters.toNat = ((text.bytes.drop s.pc).headD 0).toNat := by
  unfold Vm.immediate at read
  split at read
  · rename_i inside
    rw [← Option.some.inj read]
    obtain ⟨b, rest, shape⟩ : ∃ b rest, text.bytes.drop s.pc = b :: rest := by
      have long : 0 < (text.bytes.drop s.pc).length := by
        rw [List.length_drop, text.size]
        lia
      exact List.exists_cons_of_length_pos long
    have short : b.toNat < 2 ^ 32 := Nat.lt_trans b.isLt (by decide)
    simpa [shape, ofBytes] using short
  · contradiction

theorem opCall_moved (done : s.opCall f text = some s') :
    Moved s s' 1 (Op.syscall.moves ((text.bytes.drop s.pc).headD 0).toNat) := by
  obtain ⟨parameters, read, called⟩ := Option.bind_eq_some_iff.mp done
  have operand := immediate_parameters read
  simp only at called
  split at called
  · rename_i room
    unfold Vm.push at called
    split at called
    · cases called
      refine ⟨rfl, ?_⟩
      rw [sum_syscall_moves, ← operand]
      simp only
      lia
    · contradiction
  · contradiction

theorem execute_moved (done : s.execute f text op = some s') :
    Moved s s' op.operands (op.moves ((text.bytes.drop s.pc).headD 0).toNat) := by
  cases op with
  | noop => cases done; exact ⟨rfl, by simp [Op.moves]⟩
  | bin op w =>
    simp only [Vm.execute, Vm.opBin] at done
    split at done
    · obtain ⟨_, _, rfl⟩ := Option.map_eq_some_iff.mp done
      exact ⟨rfl, by simp only [Op.moves, List.sum_singleton]; lia⟩
    · contradiction
  | bitwise w =>
    simp only [Vm.execute] at done
    exact onTop_moved done
  | ld w =>
    obtain ⟨_, _, pushed⟩ := Option.bind_eq_some_iff.mp done
    exact push_moved pushed
  | ldValue w =>
    obtain ⟨_, _, pushed⟩ := Option.bind_eq_some_iff.mp done
    exact push_moved pushed
  | st w =>
    simp only [Vm.execute, Vm.opSt] at done
    split at done
    · cases done; exact ⟨rfl, by simp only [Op.moves, List.sum_singleton]; lia⟩
    · contradiction
  | pop =>
    simp only [Vm.execute, Vm.opPop] at done
    split at done
    · cases done; exact ⟨rfl, by simp only [Op.moves, List.sum_singleton]; lia⟩
    · contradiction
  | syscall => exact opCall_moved done
  | ldValueStack w =>
    simp only [Vm.execute] at done
    exact onTop_moved done

theorem round_moves (done : round f text s = some s') :
    ∃ ms, spMoves 0 (text.bytes.drop s.pc) = ms ++ spMoves 0 (text.bytes.drop s'.pc) ∧
      (s'.sp : Int) = s.sp + ms.sum := by
  obtain ⟨code, found, rest⟩ := Option.bind_eq_some_iff.mp done
  obtain ⟨op, known, executed⟩ := Option.bind_eq_some_iff.mp rest
  obtain ⟨inside, here⟩ := List.getElem?_eq_some_iff.mp found
  have shape : text.bytes.drop s.pc = code :: text.bytes.drop (s.pc + 1) := by
    rw [List.drop_eq_getElem_cons inside, here]
  have moved := execute_moved executed
  refine ⟨_, ?_, moved.sp⟩
  rw [shape, spMoves, known]
  simp only
  rw [spMoves_drop, List.drop_drop, moved.pc]

/-- finsh_sp of the machine never leaves the values that the text gives. -/
theorem rounds_heights (rounds : Rounds running (round f text) s s') :
    (s'.sp : Int) ∈ heights s.sp (spMoves 0 (text.bytes.drop s.pc)) := by
  induction rounds with
  | none => exact mem_heights_self _ _
  | round _ taken _ ih =>
    obtain ⟨ms, shape, sp⟩ := round_moves taken
    rw [shape]
    apply mem_heights_append
    rwa [← sp]

end rounds

/-- What OP_call reads behind its opcode; the other operations have no parameters. -/
def Op.parameters : Op → List Byte → Nat
  | .syscall, operand => (operand.headD 0).toNat
  | _, _ => 0

/-- The bytes of the operations, each with its number of parameters. -/
inductive Spells : List Byte → List (Op × Nat) → Prop where
  | nil : Spells [] []
  | op {op : Op} {operand code : List Byte} {ops : List (Op × Nat)}
      (whole : operand.length = op.operands) (rest : Spells code ops) :
      Spells (op.code :: operand ++ code) ((op, op.parameters operand) :: ops)

def opsMoves (ops : List (Op × Nat)) : List Int := ops.flatMap (fun i => i.1.moves i.2)
def opsBytes (ops : List (Op × Nat)) : Nat := (ops.map (fun i => 1 + i.1.operands)).sum

section spelling
variable {code first second : List Byte} {ops ops' : List (Op × Nat)}

theorem Spells.append (left : Spells first ops) (right : Spells second ops') :
    Spells (first ++ second) (ops ++ ops') := by
  induction left with
  | nil => exact right
  | op whole _ ih =>
    rw [List.append_assoc]
    exact .op whole ih

theorem Spells.single (op : Op) (operand : List Byte) (whole : operand.length = op.operands) :
    Spells (op.code :: operand) [(op, op.parameters operand)] := by
  have one := Spells.op whole .nil
  rwa [List.append_nil] at one

theorem Spells.length (spells : Spells code ops) : code.length = opsBytes ops := by
  induction spells with
  | nil => rfl
  | op whole _ ih =>
    simp only [opsBytes, List.map_cons, List.sum_cons, List.length_append, List.length_cons, whole] at ih ⊢
    lia

theorem moves_operand {op : Op} {operand : List Byte} (whole : operand.length = op.operands)
    (code : List Byte) :
    op.moves ((operand ++ code).headD 0).toNat = op.moves (op.parameters operand) := by
  cases op with
  | syscall =>
    obtain ⟨b, rfl⟩ := List.length_eq_one_iff.mp whole
    rfl
  | _ => rfl

theorem Spells.spMoves (spells : Spells code ops) : spMoves 0 code = opsMoves ops := by
  induction spells with
  | nil => rfl
  | op whole _ ih =>
    rw [List.cons_append, Finsh.spMoves, opTable_code]
    simp only
    rw [moves_operand whole, spMoves_drop, ← whole, List.drop_left, ih]
    rfl

theorem spells_zeros (n : Nat) : Spells (List.replicate n 0) (List.replicate n (.noop, 0)) := by
  induction n with
  | zero => exact .nil
  | succ n ih =>
    have noop := Spells.single .noop [] rfl
    exact noop.append ih

theorem opsMoves_noops (n : Nat) : opsMoves (List.replicate n (.noop, 0)) = [] := by
  simp [opsMoves, Op.moves]

theorem opsMoves_append : opsMoves (ops ++ ops') = opsMoves ops ++ opsMoves ops' := by
  simp [opsMoves]

theorem opsBytes_append : opsBytes (ops ++ ops') = opsBytes ops + opsBytes ops' := by
  simp [opsBytes]

end spelling

end RtThread.Finsh
