import RtThread.Finsh.Bounds

/-! What an earlier command left in finsh_vm_stack, and the operations that read it: finsh_compiler_run
clears one cell, and most operations write only a part of one. -/
namespace RtThread.Finsh
open Bytes Fetch

/-- How many low bytes of an operation of `n` bytes come only from the low bytes of its operands, of
which `a` and `b` are known; none where an unknown divisor may be zero. A shift counts by one byte. -/
def Arith.low (n a b : Nat) : Arith → Option Nat
  | .add | .sub | .mul | .and | .or | .xor => some (min a b)
  | .shl => some (if 1 ≤ b then a else 0)
  | .shr => some (if n ≤ a ∧ 1 ≤ b then n else 0)
  | .div | .mod => if n ≤ b then some (if n ≤ a then n else 0) else none

/-- How many low bytes of each cell come from the program alone, and not from what was there before. -/
structure Cells where
  height : Nat
  known : Nat → Nat

namespace Cells

/-- A cell after `n` bytes are written, of which `r` are known. -/
def store (c : Cells) (i n r : Nat) : Nat → Nat :=
  Function.update c.known i (if r < n then r else max n (c.known i))

/-- A cell above the others. -/
def push (c : Cells) (n : Nat) : Cells := { height := c.height + 1, known := c.store c.height n n }

/-- Whether `n` bytes of the cell `k` below finsh_sp are known. -/
def knows (c : Cells) (k n : Nat) : Prop := k ≤ c.height ∧ n ≤ c.known (c.height - k)

instance (c : Cells) (k n : Nat) : Decidable (c.knows k n) := inferInstanceAs (Decidable (_ ∧ _))

def bin (c : Cells) (op : Arith) (n : Nat) : Option Cells :=
  if c.knows 2 0 then
    (op.low n (min n (c.known (c.height - 2))) (min n (c.known (c.height - 1)))).map (fun r =>
      { height := c.height - 1, known := c.store (c.height - 2) n r })
  else none

/-- What an operation leaves; none where something unknown goes to a variable, to a system call, to
an address or to a divisor. -/
def step (c : Cells) : Op × Nat → Option Cells
  | (.noop, _) => some c
  | (.bin op w, _) => c.bin op w.size
  | (.bitwise _, _) => if c.knows 1 0 then some c else none
  | (.ld w, _) | (.ldValue w, _) => some (c.push w.size)
  | (.st w, _) => if c.knows 2 4 ∧ c.knows 1 w.size then some { c with height := c.height - 1 } else none
  | (.pop, _) => if c.knows 1 0 then some { c with height := c.height - 1 } else none
  | (.syscall, n) =>
    if ∀ k ≤ n, c.knows (k + 1) 4 then some ({ c with height := c.height - n - 1 }.push 4) else none
  | (.ldValueStack _, _) => if c.knows 1 4 then some c else none

def steps (c : Cells) (ops : Ops) : Option Cells := ops.foldlM step c

/-- The stack of finsh_compiler_run: the first cell is cleared. -/
def start : Cells := { height := 0, known := fun i => if i = 0 then 4 else 0 }

end Cells

/-- Nothing that an earlier command left reaches a variable or the result. -/
def Fresh (g : Globals) (root : Node) : Prop :=
  (Cells.start.steps (statementsOps g root)).any (fun c => decide (4 ≤ c.known 0))

instance (g : Globals) (root : Node) : Decidable (Fresh g root) :=
  inferInstanceAs (Decidable (_ = true))

/-- The machines differ at most in what is not known. -/
structure Agree (c : Cells) (s t : Vm) : Prop where
  left : s.sp = c.height
  right : t.sp = c.height
  pc : s.pc = t.pc
  memory : s.memory = t.memory
  same : ∀ i, SameLow (c.known i) (s.stack i) (t.stack i)

section widths
variable {w : Width} {a a' b b' v v' : Long} {n k r : Nat}

theorem getLsbD_operand {i : Nat} (low : i < 8 * w.size) : (w.operand a).getLsbD i = a.getLsbD i := by
  cases w with
  | byte =>
    have inside : i < 8 := low
    simp [Width.operand, inside, Nat.lt_trans inside (by decide : 8 < 32)]
  | word =>
    have inside : i < 16 := low
    have signed : (Width.word.operand a).getLsbD i = (a.setWidth 16).getLsbD i := by
      rw [Width.operand, BitVec.getLsbD_signExtend, if_pos inside,
        decide_eq_true (Nat.lt_trans inside (by decide : 16 < 32)), Bool.true_and]
    rw [signed, BitVec.getLsbD_setWidth, decide_eq_true inside, Bool.true_and]
  | dword => rfl

theorem operand_low (same : SameLow k a a') (narrow : k ≤ w.size) :
    SameLow k (w.operand a) (w.operand a') := by
  intro i low
  rw [getLsbD_operand (by lia), getLsbD_operand (by lia), same i low]

theorem operand_same (same : SameLow w.size a a') : w.operand a = w.operand a' := by
  cases w with
  | byte => exact congrArg (BitVec.setWidth 32) (same.setWidth (Nat.le_refl 8))
  | word => exact congrArg (BitVec.signExtend 32) (same.setWidth (Nat.le_refl 16))
  | dword => exact same.eq (Nat.le_refl 32)

theorem shiftCount_same (same : SameLow 1 b b') : shiftCount b = shiftCount b' := by
  have low := congrArg BitVec.toNat (same.setWidth (Nat.le_refl 8))
  simpa [shiftCount] using low

theorem getLsbD_masked (k i : Nat) (a v : Long) :
    ((a &&& ~~~BitVec.ofNat 32 (2 ^ k - 1)) ||| (v &&& BitVec.ofNat 32 (2 ^ k - 1))).getLsbD i =
      if i < k then v.getLsbD i else a.getLsbD i := by
  rw [BitVec.getLsbD_or, BitVec.getLsbD_and, BitVec.getLsbD_and, BitVec.getLsbD_not]
  by_cases inside : i < 32
  · have mask : (BitVec.ofNat 32 (2 ^ k - 1)).getLsbD i = decide (i < k) := by
      rw [BitVec.getLsbD_ofNat, Nat.testBit_two_pow_sub_one, decide_eq_true inside, Bool.true_and]
    rw [mask]
    by_cases low : i < k <;> simp [inside, low]
  · have high : ∀ b : Long, b.getLsbD i = false := fun b => BitVec.getLsbD_of_ge b i (by lia)
    simp [high]

theorem getLsbD_assign (w : Width) (a v : Long) (i : Nat) :
    (w.assign a v).getLsbD i = if i < 8 * w.size then v.getLsbD i else a.getLsbD i := by
  cases w with
  | byte => exact getLsbD_masked 8 i a v
  | word => exact getLsbD_masked 16 i a v
  | dword =>
    split
    · rfl
    · rename_i high
      have above : 32 ≤ i := by simp only [Width.size] at high; lia
      rw [Width.assign, BitVec.getLsbD_of_ge _ _ above, BitVec.getLsbD_of_ge _ _ above]

theorem assign_same (old : SameLow n a a') (new : SameLow r v v') :
    SameLow (if r < w.size then r else max w.size n) (w.assign a v) (w.assign a' v') := by
  intro i low
  rw [getLsbD_assign, getLsbD_assign]
  split
  · exact new i (by split at low <;> lia)
  · exact old i (by split at low <;> lia)

theorem divide_low {m : Nat} {divide : Long → Long → Long}
    (left : SameLow n a a') (right : SameLow k b b')
    (low : (if w.size ≤ k then some (if w.size ≤ n then w.size else 0) else none) = some m) :
    Option.Rel (SameLow m)
      (if w.operand b = 0 then none else some (divide (w.operand a) (w.operand b)))
      (if w.operand b' = 0 then none else some (divide (w.operand a') (w.operand b'))) := by
  split at low
  · rename_i whole
    rw [operand_same (right.mono whole)]
    split
    · exact .none
    · refine .some ?_
      cases low
      split
      · rename_i whole'
        rw [operand_same (left.mono whole')]
        exact SameLow.refl _ _
      · exact fun i low => absurd low (Nat.not_lt_zero i)
  · contradiction

theorem apply_low {op : Arith} {m : Nat} (within : n ≤ w.size) (within' : k ≤ w.size)
    (left : SameLow n a a') (right : SameLow k b b') (low : op.low w.size n k = some m) :
    Option.Rel (SameLow m) (op.apply (w.operand a) (w.operand b))
      (op.apply (w.operand a') (w.operand b')) := by
  have narrow : 8 * min n k ≤ 32 := by
    have size : w.size ≤ 4 := by cases w <;> decide
    lia
  have first := (operand_low left within).mono (Nat.min_le_left n k)
  have second := (operand_low right within').mono (Nat.min_le_right n k)
  cases op with
  | add => cases low; exact .some (first.add second narrow)
  | sub => cases low; exact .some (first.sub second narrow)
  | mul => cases low; exact .some (first.mul second narrow)
  | and => cases low; exact .some (first.and second)
  | or => cases low; exact .some (first.or second)
  | xor => cases low; exact .some (first.xor second)
  | shl =>
    cases low
    refine .some ?_
    split
    · rename_i counted
      rw [shiftCount_same ((operand_low right within').mono counted)]
      exact (operand_low left within).shiftLeft _
    · exact fun i low => absurd low (Nat.not_lt_zero i)
  | shr =>
    cases low
    refine .some ?_
    split
    · rename_i whole
      rw [shiftCount_same ((operand_low right within').mono whole.2), operand_same (left.mono whole.1)]
      exact SameLow.refl _ _
    · exact fun i low => absurd low (Nat.not_lt_zero i)
  | div => exact divide_low left right low
  | mod => exact divide_low left right low

end widths

section machines
variable {c c' : Cells} {s t : Vm} {w : Width} {f : Syscalls} {text : Text} {n : Nat}

theorem Agree.read {k : Nat} (agree : Agree c s t) (known : c.knows k n) :
    SameLow n (s.stack (s.sp - k)) (t.stack (t.sp - k)) := by
  rw [agree.left, agree.right]
  exact (agree.same _).mono known.2

theorem Agree.skip (agree : Agree c s t) (k : Nat) :
    Agree c { s with pc := s.pc + k } { t with pc := t.pc + k } :=
  ⟨agree.left, agree.right, congrArg (· + k) agree.pc, agree.memory, agree.same⟩

theorem Agree.lower (agree : Agree c s t) (k : Nat) :
    Agree { c with height := c.height - k } { s with sp := s.sp - k } { t with sp := t.sp - k } :=
  ⟨congrArg (· - k) agree.left, congrArg (· - k) agree.right, agree.pc, agree.memory, agree.same⟩

theorem Agree.update {i r : Nat} {v v' : Long} (agree : Agree c s t) (new : SameLow r v v') :
    Agree { c with known := c.store i w.size r }
      { s with stack := Function.update s.stack i (w.assign (s.stack i) v) }
      { t with stack := Function.update t.stack i (w.assign (t.stack i) v') } := by
  refine ⟨agree.left, agree.right, agree.pc, agree.memory, fun j => ?_⟩
  unfold Cells.store
  by_cases here : j = i
  · subst here
    simp only [Function.update_self]
    exact assign_same (agree.same j) new
  · simp only [Function.update_of_ne here]
    exact agree.same j

theorem push_agree (agree : Agree c s t) (v : Long) :
    Option.Rel (Agree (c.push w.size)) (s.push w v) (t.push w v) := by
  unfold Vm.push
  rw [agree.left, agree.right]
  split
  · have written := agree.update (w := w) (i := c.height) (SameLow.refl w.size v)
    exact .some ⟨rfl, rfl, written.pc, written.memory, written.same⟩
  · exact .none

theorem onTop_agree {r : Nat} {change change' : Long → Long} (agree : Agree c s t) (top : c.knows 1 0)
    (new : SameLow r (change (s.stack (s.sp - 1))) (change' (t.stack (t.sp - 1))))
    (kept : c.store (c.height - 1) w.size r (c.height - 1) = c.known (c.height - 1)) :
    Option.Rel (Agree c) (s.onTop w change) (t.onTop w change') := by
  unfold Vm.onTop
  have whole : c.store (c.height - 1) w.size r = c.known := by
    unfold Cells.store at kept ⊢
    rw [Function.update_self] at kept
    rw [kept, Function.update_eq_self]
  rw [if_pos (agree.left ▸ top.1), if_pos (agree.right ▸ top.1)]
  have written := agree.update (w := w) (i := c.height - 1) new
  rw [whole] at written
  rw [agree.left, agree.right] at written ⊢
  exact .some written

theorem opBin_agree {op : Arith} (agree : Agree c s t) (stepped : c.bin op w.size = some c') :
    Option.Rel (Agree c') (s.opBin op w) (t.opBin op w) := by
  obtain ⟨two, result⟩ := Option.ite_none_right_eq_some.mp stepped
  obtain ⟨r, low, rfl⟩ := Option.map_eq_some_iff.mp result
  have left := agree.read (k := 2) ⟨two.1, Nat.min_le_right w.size _⟩
  have right := agree.read (k := 1) ⟨Nat.le_of_succ_le two.1, Nat.min_le_right w.size _⟩
  have applied := apply_low (Nat.min_le_left _ _) (Nat.min_le_left _ _) left right low
  unfold Vm.opBin
  rw [if_pos (agree.left ▸ two.1), if_pos (agree.right ▸ two.1)]
  simp only
  generalize op.apply (w.operand (s.stack (s.sp - 2))) _ = v,
    op.apply (w.operand (t.stack (t.sp - 2))) _ = v' at applied
  cases applied with
  | none => exact .none
  | some new =>
    have written := (agree.update (w := w) (i := c.height - 2) new).lower 1
    rw [agree.left, agree.right] at written ⊢
    exact .some written

theorem opSt_agree (agree : Agree c s t) (address : c.knows 2 4) (value : c.knows 1 w.size) :
    Option.Rel (Agree { c with height := c.height - 1 }) (s.opSt w) (t.opSt w) := by
  unfold Vm.opSt
  rw [if_pos (agree.left ▸ address.1), if_pos (agree.right ▸ address.1)]
  have lowered := agree.lower 1
  refine .some ⟨lowered.left, lowered.right, lowered.pc, ?_, lowered.same⟩
  simp only
  rw [(agree.read address).eq (Nat.le_refl 32), (agree.read value).toBytes, agree.memory]

theorem opPop_agree (agree : Agree c s t) (top : c.knows 1 0) :
    Option.Rel (Agree { c with height := c.height - 1 }) s.opPop t.opPop := by
  unfold Vm.opPop
  rw [if_pos (agree.left ▸ top.1), if_pos (agree.right ▸ top.1)]
  exact .some (agree.lower 1)

theorem immediate_agree (agree : Agree c s t) (n : Nat) : s.immediate text n = t.immediate text n := by
  rw [Vm.immediate, Vm.immediate, agree.pc]

theorem opCall_agree {parameters : Nat} (agree : Agree c s t)
    (operand : ((text.bytes.drop s.pc).headD 0).toNat = parameters)
    (known : ∀ k ≤ parameters, c.knows (k + 1) 4) :
    Option.Rel (Agree ({ c with height := c.height - parameters - 1 }.push 4)) (s.opCall f text)
      (t.opCall f text) := by
  unfold Vm.opCall
  rw [← immediate_agree agree 1]
  cases read : s.immediate text 1 with
  | none => exact .none
  | some v =>
    have count : v.toNat = parameters := (immediate_parameters read).trans operand
    have height : s.sp = t.sp := agree.left.trans agree.right.symm
    have deep : parameters + 1 ≤ c.height := (known parameters (Nat.le_refl _)).1
    have whole : ∀ k ≤ parameters, s.stack (s.sp - (k + 1)) = t.stack (t.sp - (k + 1)) :=
      fun k inside => (agree.read (known k inside)).eq (Nat.le_refl 32)
    simp only [Option.bind_eq_bind, Option.bind_some, count]
    rw [← height]
    split
    · have address := whole parameters (Nat.le_refl _)
      rw [← height, ← Nat.sub_sub] at address
      have values : (List.range parameters).map (fun i => s.stack (s.sp - parameters + i)) =
          (List.range parameters).map (fun i => t.stack (s.sp - parameters + i)) := by
        apply List.map_congr_left
        intro i member
        have inside := List.mem_range.mp member
        have cell := whole (parameters - i - 1) (by lia)
        have place : s.sp - (parameters - i - 1 + 1) = s.sp - parameters + i := by
          rw [agree.left]
          lia
        rwa [← height, place] at cell
      rw [address, values, agree.memory]
      generalize f _ _ t.memory = answer
      have called : Agree { c with height := c.height - parameters - 1 }
          { s with memory := answer.2, sp := s.sp - parameters - 1, pc := s.pc + 1 }
          { t with memory := answer.2, sp := s.sp - parameters - 1, pc := t.pc + 1 } := by
        have lowered := ((agree.skip 1).lower parameters).lower 1
        exact ⟨lowered.left, height ▸ lowered.right, lowered.pc, rfl, lowered.same⟩
      exact push_agree (w := .dword) called answer.1
    · exact .none

theorem execute_agree {op : Op} {parameters : Nat} (agree : Agree c s t)
    (operand : op.parameters (text.bytes.drop s.pc) = parameters)
    (stepped : c.step (op, parameters) = some c') :
    Option.Rel (Agree c') (s.execute f text op) (t.execute f text op) := by
  cases op with
  | noop => cases stepped; exact .some agree
  | bin op w => exact opBin_agree agree stepped
  | bitwise w =>
    obtain ⟨top, known⟩ := Option.ite_none_right_eq_some.mp stepped
    cases known
    have old := agree.read (k := 1) ⟨top.1, Nat.min_le_right w.size _⟩
    have new := (operand_low old (Nat.min_le_left _ _)).not
    have kept : c.store (c.height - 1) w.size (min w.size (c.known (c.height - 1))) (c.height - 1) =
        c.known (c.height - 1) := by
      simp only [Cells.store, Function.update_self]
      split <;> lia
    let change : Long → Long := fun v => ~~~ w.operand v
    exact onTop_agree (w := w) agree top (show SameLow _ (change _) (change _) from new) kept
  | ld w =>
    cases stepped
    simp only [Vm.execute, ← immediate_agree agree]
    cases s.immediate text w.size with
    | none => exact .none
    | some v => exact push_agree (agree.skip w.size) v
  | ldValue w =>
    cases stepped
    simp only [Vm.execute, ← immediate_agree agree]
    cases s.immediate text 4 with
    | none => exact .none
    | some a =>
      have loaded : s.loadMem w a = t.loadMem w a := by rw [Vm.loadMem, Vm.loadMem, agree.memory]
      simp only [Option.bind_eq_bind, Option.bind_some, loaded]
      exact push_agree (agree.skip 4) _
  | st w =>
    obtain ⟨⟨address, value⟩, known⟩ := Option.ite_none_right_eq_some.mp stepped
    cases known
    exact opSt_agree agree address value
  | pop =>
    obtain ⟨top, known⟩ := Option.ite_none_right_eq_some.mp stepped
    cases known
    exact opPop_agree agree top
  | syscall =>
    obtain ⟨all, known⟩ := Option.ite_none_right_eq_some.mp stepped
    cases known
    exact opCall_agree agree operand all
  | ldValueStack w =>
    obtain ⟨top, known⟩ := Option.ite_none_right_eq_some.mp stepped
    cases known
    have address := (agree.read top).eq (Nat.le_refl 32)
    have loaded : s.loadMem w (s.stack (s.sp - 1)) = t.loadMem w (t.stack (t.sp - 1)) := by
      rw [Vm.loadMem, Vm.loadMem, agree.memory, address]
    have size : w.size ≤ 4 := by cases w <;> decide
    refine onTop_agree (r := w.size) agree ⟨top.1, Nat.zero_le _⟩ (loaded ▸ SameLow.refl _ _) ?_
    have whole := top.2
    simp only [Cells.store, Function.update_self, Nat.lt_irrefl, if_false]
    lia

/-- Two machines at the same place of the text, in what is left of which nothing unknown gets out. -/
def InStep (text : Text) (s t : Vm) : Prop :=
  ∃ ops c last, Spells (text.bytes.drop s.pc) ops ∧ c.steps ops = some last ∧ 4 ≤ last.known 0 ∧ Agree c s t

theorem inStep_running (s t : Vm) (related : InStep text s t) : running s = running t := by
  obtain ⟨_, _, _, _, _, _, agree⟩ := related
  rw [running, running, agree.pc]

theorem parameters_operand {op : Op} {operand : List Byte} (whole : operand.length = op.operands)
    (code : List Byte) : op.parameters (operand ++ code) = op.parameters operand := by
  cases op with
  | syscall =>
    obtain ⟨b, rfl⟩ := List.length_eq_one_iff.mp whole
    rfl
  | _ => rfl

theorem round_inStep (s t : Vm) (related : InStep text s t) (runs : running s = true) :
    Option.Rel (InStep text) (round f text s) (round f text t) := by
  obtain ⟨ops, c, last, spells, stepped, result, agree⟩ := related
  have inside : s.pc < text.bytes.length := by simpa [running, text.size] using runs
  generalize shape : text.bytes.drop s.pc = code at spells
  cases spells with
  | nil => exact absurd (List.drop_eq_nil_iff.mp shape) (Nat.not_le_of_lt inside)
  | @op op operand code ops whole rest =>
    have here : Placed text.bytes s.pc (op.code :: (operand ++ code)) := ⟨[], by rw [List.append_nil]; exact shape.symm⟩
    have there : Placed text.bytes t.pc (op.code :: (operand ++ code)) := agree.pc ▸ here
    rw [round_op here, round_op there]
    have next : text.bytes.drop (s.pc + 1) = operand ++ code := by
      rw [← List.drop_drop, shape]
      rfl
    obtain ⟨mid, one, more⟩ := Option.bind_eq_some_iff.mp stepped
    have parameters : op.parameters (text.bytes.drop (s.pc + 1)) = op.parameters operand :=
      (congrArg op.parameters next).trans (parameters_operand whole code)
    have alike : Option.Rel (Agree mid) ({ s with pc := s.pc + 1 }.execute f text op)
        ({ t with pc := t.pc + 1 }.execute f text op) := execute_agree (agree.skip 1) parameters one
    have moved : ∀ s', { s with pc := s.pc + 1 }.execute f text op = some s' → text.bytes.drop s'.pc = code := by
      intro s' done
      rw [(execute_moved done).pc, ← List.drop_drop, next, ← whole, List.drop_left]
    generalize Vm.execute f text { s with pc := s.pc + 1 } op = s',
      Vm.execute f text { t with pc := t.pc + 1 } op = t' at alike moved
    cases alike with
    | none => exact .none
    | some agrees => exact .some ⟨ops, mid, last, (moved _ rfl).symm ▸ rest, more, result, agrees⟩

end machines

/-- The variables and the result. -/
def outcome (s : Vm) : Memory 32 × Long := (s.memory, finshStackBottom s)

/-- With the same variables the run ends the same, whatever is on the stack before. -/
def StackIrrelevant (f : Syscalls) (g : Globals) (root : Node) : Prop :=
  ∀ s t s₁ t₁ text, s.memory = t.memory → finshCompilerRun g root s = some (text, s₁) →
    finshCompilerRun g root t = some (text, t₁) →
    (finshVmRun f text s₁).map outcome = (finshVmRun f text t₁).map outcome

section runs
variable {f : Syscalls} {g : Globals} {root : Node} {text : Text}

theorem steps_noops (c : Cells) (n : Nat) : c.steps (List.replicate n (.noop, 0)) = some c := by
  induction n with
  | zero => rfl
  | succ n ih => exact ih

theorem inStep_start {s t : Vm} (fresh : Fresh g root) (same : s.memory = t.memory)
    (made : Text.ofCode (compileStatements g (finshTypeCheck g root nodeValue)) = some text) :
    InStep text { s with stack := Function.update s.stack 0 0, sp := 0, pc := 0 }
      { t with stack := Function.update t.stack 0 0, sp := 0, pc := 0 } := by
  obtain ⟨last, stepped, known⟩ := (Option.any_eq_true _ _).mp fresh
  obtain ⟨whole, _⟩ := Text.ofCode_bytes made
  have spells := (spells_statements (g := g) root).append
    (spells_zeros (textMax - (compileStatements g (finshTypeCheck g root nodeValue)).length))
  rw [← whole] at spells
  refine ⟨_, Cells.start, last, spells, ?_, of_decide_eq_true known, rfl, rfl, rfl, same, fun i => ?_⟩
  · rw [Cells.steps, List.foldlM_append]
    exact Option.bind_eq_some_iff.mpr ⟨last, stepped, steps_noops last _⟩
  · by_cases bottom : i = 0
    · subst bottom
      simp only [Function.update_self]
      exact SameLow.refl _ _
    · simp only [Cells.start, if_neg bottom]
      exact fun j low => absurd low (Nat.not_lt_zero j)

theorem inStep_outcome {s t : Vm} (related : InStep text s t) (ended : running s = false) :
    outcome s = outcome t := by
  obtain ⟨ops, c, last, spells, stepped, known, agree⟩ := related
  have through : textMax ≤ s.pc := by simpa [running] using ended
  rw [List.drop_eq_nil_of_le (text.size ▸ through)] at spells
  have all : last = c := by
    generalize shape : ([] : List Byte) = code at spells
    cases spells with
    | nil => cases stepped; rfl
    | op => contradiction
  subst all
  exact Prod.ext agree.memory ((agree.same 0).mono known |>.eq (Nat.le_refl 32))

/-- No byte that an earlier command left on the stack gets out of a run. -/
theorem fresh_stackIrrelevant (f : Syscalls) (g : Globals) (root : Node) (fresh : Fresh g root) :
    StackIrrelevant f g root := by
  intro s t s₁ t₁ text same first second
  obtain ⟨text', made, shape⟩ := Option.map_eq_some_iff.mp first
  obtain ⟨text'', _, shape'⟩ := Option.map_eq_some_iff.mp second
  cases shape
  cases shape'
  have related := inStep_start fresh same made
  have ended : Option.Rel (InStep text)
      (finshVmRun f text { s with stack := Function.update s.stack 0 0 })
      (finshVmRun f text { t with stack := Function.update t.stack 0 0 }) :=
    loop_rel inStep_running round_inStep textMax related
  have stopped : ∀ s', finshVmRun f text { s with stack := Function.update s.stack 0 0 } = some s' →
      running s' = false := fun s' => loop_inactive
  generalize finshVmRun f text { s with stack := Function.update s.stack 0 0 } = s',
    finshVmRun f text { t with stack := Function.update t.stack 0 0 } = t' at ended stopped
  cases ended with
  | none => rfl
  | some agree => exact congrArg some (inStep_outcome agree (stopped _ rfl))

/-- Integer literals, variables of type char, short and int, binary operators and assignment. -/
def Arithmetic (g : Globals) : Node → Bool
  | .null => true
  | .mk n child sibling =>
    (match n.nodeType with
      | .valueInt | .valueLong | .sys _ | .sysAssign => true
      | .id =>
        match n.id with
        | .var x => n.idtype = idtypeVar ∧ (g.types x = .char ∨ g.types x = .short ∨ g.types x = .int)
        | _ => false
      | _ => false) && Arithmetic g child && Arithmetic g sibling

/-- `char c` and `int i`. -/
def mixedVariables : Variables := fun x =>
  if x.val = 0 then { name := chars "c", type := .char }
  else if x.val = 1 then { name := chars "i", type := .int }
  else {}

def narrowLine : Line := ⟨chars "c=i+1;c;", by decide +kernel, by decide +kernel⟩
def widenLine : Line := ⟨chars "i=c;", by decide +kernel, by decide +kernel⟩

/-- `c` is 5, and every cell of the stack holds `v`. -/
def mixedVm (v : Long) : Vm := ⟨fun _ => v, 0, 0, fun a => if a = 0x20000014 then 5 else 0⟩

theorem fresh_stackIrrelevant_narrow :
    ∃ root left, Accepts {} narrowLine mixedVariables root left ∧
      StackIrrelevant (fun _ _ m => (0, m)) (left.globals 0x20000000 (by decide)) root := by
  have parses : (finshParserRun {} 40 narrowLine mixedVariables).any (fun r =>
      decide (r.2.token.errno = .ok ∧ Fresh (r.2.globals 0x20000000 (by decide)) r.1)) = true := by
    decide +kernel
  obtain ⟨⟨root, left⟩, parsed, checked⟩ := (Option.any_eq_true _ _).mp parses
  obtain ⟨ok, fresh⟩ := of_decide_eq_true checked
  exact ⟨root, left, ⟨40, parsed, ok⟩,
    fresh_stackIrrelevant (fun _ _ m => (0, m)) (left.globals 0x20000000 (by decide)) root fresh⟩

/-- Three bytes of `i` are what an earlier command left beside the char. -/
theorem not_stackIrrelevant :
    ¬ ∀ (f : Syscalls) (y : Symbols) (line : Line) (vars : Variables) (root : Node) (left : Parser)
      (base : Nat) (inside : base + varSize * variableMax ≤ 2 ^ 32),
      Accepts y line vars root left → Runs (left.globals base inside) root →
      Arithmetic (left.globals base inside) root = true →
        StackIrrelevant f (left.globals base inside) root := by
  intro always
  let f : Syscalls := fun _ _ m => (0, m)
  have parses : (finshParserRun {} 40 widenLine mixedVariables).any (fun r =>
      let g := r.2.globals 0x20000000 (by decide)
      decide (r.2.token.errno = .ok ∧ Runs g r.1 ∧ Arithmetic g r.1 = true ∧
        ((Text.ofCode (compileStatements g (finshTypeCheck g r.1 nodeValue))).any (fun text =>
          let bottom := fun s : Vm =>
            (finshVmRun f text { s with stack := Function.update s.stack 0 0 }).map finshStackBottom
          decide (bottom (mixedVm 0) = some 5 ∧ bottom (mixedVm 0xFFFFFFFF) = some 0xFFFFFF05))) = true)) =
      true := by
    decide +kernel
  obtain ⟨⟨root, left⟩, parsed, checked⟩ := (Option.any_eq_true _ _).mp parses
  obtain ⟨ok, runs, arithmetic, compiles⟩ := of_decide_eq_true checked
  obtain ⟨text, made, ends⟩ := (Option.any_eq_true _ _).mp compiles
  obtain ⟨clean, stale⟩ := of_decide_eq_true ends
  have compiled : ∀ s, finshCompilerRun (left.globals 0x20000000 (by decide)) root s =
      some (text, { s with stack := Function.update s.stack 0 0 }) :=
    fun _ => Option.map_eq_some_iff.mpr ⟨text, made, rfl⟩
  have same := always f {} widenLine mixedVariables root left 0x20000000 (by decide) ⟨40, parsed, ok⟩ runs
    arithmetic (mixedVm 0) (mixedVm 0xFFFFFFFF) _ _ text rfl (compiled _) (compiled _)
  have bottoms := congrArg (Option.map Prod.snd) same
  simp only [Option.map_map] at bottoms
  exact absurd (clean.symm.trans (bottoms.trans stale)) (by decide)

end runs

end RtThread.Finsh
