import RtThread.Finsh.Vm

/-! What a list of finsh statements means, and that the byte code of finsh_compiler_run means
the same on finsh_vm_run. -/
namespace RtThread.Finsh
open Bytes Fetch

/-- The expressions upper literals and variables; the increments are the postfix ones. -/
inductive Expr where
  | int (v : Long)
  | long (v : Long)
  | var (x : Fin variableMax)
  | bin (op : Arith) (l r : Expr)
  | bitwise (e : Expr)
  | assign (x : Fin variableMax) (e : Expr)
  | inc (x : Fin variableMax)
  | dec (x : Fin variableMax)

/-- The values of the variables. -/
abbrev Store := Fin variableMax → Long

/-- 32-bit wrap-around. -/
def wrap (v : Int) : Long := BitVec.ofInt 32 v

/-- The operators upper the integers, rounding division toward zero and shifts downward. -/
def evalBin : Arith → Long → Long → Option Long
  | .add, a, b => some (wrap (a.toInt + b.toInt))
  | .sub, a, b => some (wrap (a.toInt - b.toInt))
  | .mul, a, b => some (wrap (a.toInt * b.toInt))
  | .div, a, b => if b = 0 then none else some (wrap (a.toInt.tdiv b.toInt))
  | .mod, a, b => if b = 0 then none else some (wrap (a.toInt.tmod b.toInt))
  | .and, a, b => some (a &&& b)
  | .or, a, b => some (a ||| b)
  | .xor, a, b => some (a ^^^ b)
  | .shl, a, b => some (wrap (a.toInt * 2 ^ shiftCount b))
  | .shr, a, b => some (wrap (a.toInt / 2 ^ shiftCount b))

/-- From left to right, none for a division by zero. -/
def Expr.eval : Expr → Store → Option (Long × Store)
  | .int v, σ => some (v, σ)
  | .long v, σ => some (v, σ)
  | .var x, σ => some (σ x, σ)
  | .bin op l r, σ => do
    let (a, σ) ← l.eval σ
    let (b, σ) ← r.eval σ
    let v ← evalBin op a b
    some (v, σ)
  | .bitwise e, σ => do
    let (v, σ) ← e.eval σ
    some (~~~ v, σ)
  | .assign x e, σ => do
    let (v, σ) ← e.eval σ
    some (v, Function.update σ x v)
  | .inc x, σ => some (σ x, Function.update σ x (wrap ((σ x).toInt + 1)))
  | .dec x, σ => some (σ x, Function.update σ x (wrap ((σ x).toInt - 1)))

/-- The statements in order; the value is the last one's. -/
def evalStatements : List Expr → Store → Option (Long × Store)
  | [], _ => none
  | [e], σ => e.eval σ
  | e :: rest, σ => do
    let (_, σ) ← e.eval σ
    evalStatements rest σ

/-- The variables are declared as int or long. -/
def Expr.Declared (g : Globals) : Expr → Prop
  | .int _ | .long _ => True
  | .var x | .inc x | .dec x => g.types x = .int ∨ g.types x = .long
  | .bin _ l r => l.Declared g ∧ r.Declared g
  | .bitwise e => e.Declared g
  | .assign x e => (g.types x = .int ∨ g.types x = .long) ∧ e.Declared g

def idNode (x : Fin variableMax) (sibling : Node) : Node :=
  .mk { nodeType := .id, idtype := idtypeVar, id := .var x } .null sibling

/-- The tree of an expression, as make_sys_node links it. -/
def Expr.node : Expr → Node → Node
  | .int v, sibling => .mk { nodeType := .valueInt, value := v } .null sibling
  | .long v, sibling => .mk { nodeType := .valueLong, value := v } .null sibling
  | .var x, sibling => idNode x sibling
  | .bin op l r, sibling => .mk { nodeType := .sys op } (l.node (r.node .null)) sibling
  | .bitwise e, sibling => .mk { nodeType := .sysBitwise } (e.node .null) sibling
  | .assign x e, sibling => .mk { nodeType := .sysAssign } (idNode x (e.node .null)) sibling
  | .inc x, sibling => .mk { nodeType := .sysInc } (idNode x .null) sibling
  | .dec x, sibling => .mk { nodeType := .sysDec } (idNode x .null) sibling

def statementsNode : List Expr → Node
  | [] => .null
  | e :: rest => e.node (statementsNode rest)

/-- The byte code of an expression. -/
def Expr.code (g : Globals) : Expr → List Byte
  | .int v | .long v => ld .dword v
  | .var x => ldValue .dword (g.valueAddr (.var x))
  | .bin op l r => l.code g ++ r.code g ++ [(Op.bin op .dword).code]
  | .bitwise e => e.code g ++ [(Op.bitwise .dword).code]
  | .assign x e => ld .dword (g.valueAddr (.var x)) ++ e.code g ++
      [(Op.st .dword).code, (Op.ldValueStack .dword).code]
  | .inc x => ldValue .dword (g.valueAddr (.var x)) ++ postStep .add .dword (g.valueAddr (.var x))
  | .dec x => ldValue .dword (g.valueAddr (.var x)) ++ postStep .sub .dword (g.valueAddr (.var x))

def statementsCode (g : Globals) : List Expr → List Byte
  | [] => []
  | [e] => e.code g
  | e :: rest => e.code g ++ [Op.pop.code] ++ statementsCode g rest

/-- The finsh_values that an evaluation needs. -/
def Expr.depth : Expr → Nat
  | .int _ | .long _ | .var _ => 1
  | .bin _ l r => max l.depth (r.depth + 1)
  | .bitwise e => e.depth
  | .assign _ e => e.depth + 1
  | .inc _ | .dec _ => 4

theorem Expr.depth_pos (e : Expr) : 1 ≤ e.depth := by
  induction e with
  | bin op l r ihl ihr => exact Nat.le_trans ihl (Nat.le_max_left ..)
  | bitwise e ih => exact ih
  | assign x e ih => exact Nat.le_add_left ..
  | int v => exact Nat.le_refl 1
  | long v => exact Nat.le_refl 1
  | var x => exact Nat.le_refl 1
  | inc x => exact (by decide : 1 ≤ 4)
  | dec x => exact (by decide : 1 ≤ 4)

def storeOf (g : Globals) (m : Memory 32) : Store :=
  fun x => ofBytes 32 (read m (g.valueAddr (.var x)) 4)

section arithmetic

theorem wrap_toInt (a : Long) : wrap a.toInt = a := BitVec.ofInt_toInt

theorem wrap_twoPow (k : Nat) : BitVec.ofInt 32 (2 ^ k) = BitVec.twoPow 32 k := by
  apply BitVec.eq_of_toNat_eq
  have power : ((2 ^ k : Nat) : Int) = 2 ^ k := by simp
  rw [← power, BitVec.ofInt_natCast, BitVec.toNat_ofNat, BitVec.toNat_twoPow]

theorem evalBin_apply (op : Arith) (a b : Long) : evalBin op a b = op.apply a b := by
  cases op with
  | add => simp [evalBin, Arith.apply, wrap, BitVec.ofInt_add]
  | sub =>
    have difference : wrap (a.toInt - b.toInt) = a - b := by
      apply BitVec.eq_of_toInt_eq
      rw [wrap, BitVec.toInt_ofInt, BitVec.toInt_sub]
    simp [evalBin, Arith.apply, difference]
  | mul => simp [evalBin, Arith.apply, wrap, BitVec.ofInt_mul]
  | div =>
    have quotient : wrap (a.toInt.tdiv b.toInt) = a.sdiv b := by
      apply BitVec.eq_of_toInt_eq
      rw [wrap, BitVec.toInt_ofInt, BitVec.toInt_sdiv]
    simp [evalBin, Arith.apply, quotient]
  | mod =>
    have remainder : wrap (a.toInt.tmod b.toInt) = a.srem b := by
      rw [← BitVec.toInt_srem, wrap_toInt]
    simp [evalBin, Arith.apply, remainder]
  | and => rfl
  | or => rfl
  | xor => rfl
  | shl =>
    have shifted : wrap (a.toInt * 2 ^ shiftCount b) = a <<< shiftCount b := by
      rw [BitVec.shiftLeft_eq_mul_twoPow, wrap, BitVec.ofInt_mul, BitVec.ofInt_toInt, wrap_twoPow]
    simp [evalBin, Arith.apply, shifted]
  | shr =>
    have shifted : wrap (a.toInt / 2 ^ shiftCount b) = a.sshiftRight (shiftCount b) := by
      rw [← wrap_toInt (a.sshiftRight _), BitVec.toInt_sshiftRight, Int.shiftRight_eq_div_pow]
      simp
    simp [evalBin, Arith.apply, shifted]

end arithmetic

section compiling
variable {g : Globals}

/-- What the attribute pass makes of a node whose expression has the code `code`. -/
structure Compiles (g : Globals) (node sibling : Node) (code : List Byte) (a : Attr) (child : Node) :
    Prop where
  checked : node = .mk a child sibling
  dword : a.dataType = dataTypeDword
  emits : finshCompile g child ++ compileCurrent g a child = code

theorem Compiles.code {node sibling child : Node} {code : List Byte} {a : Attr}
    (compiles : Compiles g node sibling code a child) :
    finshCompile g node = code ++ finshCompile g sibling := by
  rw [compiles.checked, finshCompile, compiles.emits]

theorem declared_types {x : Fin variableMax} (declared : g.types x = .int ∨ g.types x = .long) :
    (g.types x).dataType? = some dataTypeDword ∧ (g.types x).width? = some .dword := by
  rcases declared with int | long
  · rw [int]; exact ⟨rfl, rfl⟩
  · rw [long]; exact ⟨rfl, rfl⟩

/-- An identifier marked with `isAddr`. -/
def checkedId (x : Fin variableMax) (isAddr : Byte) : Attr :=
  { nodeType := .id, dataType := dataTypeDword, idtype := idtypeVar ||| isAddr, id := .var x }

theorem checked_id {x : Fin variableMax} (declared : g.types x = .int ∨ g.types x = .long)
    (isAddr : Byte) (sibling : Node) :
    finshTypeCheck g (idNode x sibling) isAddr =
      .mk (checkedId x isAddr) .null (finshTypeCheck g sibling nodeValue) := by
  have marked : idtypeVar ≠ idtypeSyscall := by decide
  have isVar : ¬(idtypeVar ||| isAddr) &&& idtypeVar = 0#8 := by
    have absorbed : (idtypeVar ||| isAddr) &&& idtypeVar = idtypeVar := by
      ext i
      grind
    rw [absorbed]
    decide
  simp [idNode, finshTypeCheck, checkedAttr, Node.attr?, leafDataType, marked, isVar, checkedId,
    (declared_types declared).1]

theorem compileCurrent_value {x : Fin variableMax}
    (declared : g.types x = .int ∨ g.types x = .long) :
    compileCurrent g (checkedId x nodeValue) .null = ldValue .dword (g.valueAddr (.var x)) := by
  simp [compileCurrent, compileId, checkedId, Globals.typed?, idtypeVar, idtypeSyscall, idtypeSysvar,
    idtypeAddress, nodeValue, (declared_types declared).2]

theorem compileCurrent_address {x : Fin variableMax}
    (declared : g.types x = .int ∨ g.types x = .long) :
    compileCurrent g (checkedId x idtypeAddress) .null = ld .dword (g.valueAddr (.var x)) := by
  simp [compileCurrent, compileId, checkedId, Globals.typed?, idtypeVar, idtypeSyscall, idtypeSysvar,
    idtypeAddress, (declared_types declared).2]

theorem unmarked : (if (0 : Byte) ≠ idtypeSyscall then 0 ||| nodeValue else 0) = 0 := by decide

theorem checked_sys {nodeType : NodeType} {child first rest sibling : Node} {a : Attr}
    (checked : finshTypeCheck g child (childAddr nodeType nodeValue) = .mk a first rest)
    (dword : a.dataType = dataTypeDword) :
    finshTypeCheck g (.mk { nodeType } child sibling) nodeValue =
      .mk { nodeType, dataType := dataTypeDword } (.mk a first rest)
        (finshTypeCheck g sibling nodeValue) := by
  simp only [finshTypeCheck, checked, checkedAttr, Node.attr?, dword, unmarked]

theorem codeByWidth_dword (op : Width → Op) : codeByWidth op dataTypeDword = [(op .dword).code] := rfl

theorem compiles_step {x : Fin variableMax} (declared : g.types x = .int ∨ g.types x = .long)
    {nodeType : NodeType} {op : Arith} (passes : childAddr nodeType nodeValue = nodeValue)
    (emits : ∀ a child, a.nodeType = nodeType →
      compileCurrent g a child = compileStep postStep op g a child) (sibling : Node) :
    Compiles g (finshTypeCheck g (.mk { nodeType } (idNode x .null) sibling) nodeValue)
      (finshTypeCheck g sibling nodeValue)
      (ldValue .dword (g.valueAddr (.var x)) ++ postStep op .dword (g.valueAddr (.var x)))
      { nodeType, dataType := dataTypeDword } (.mk (checkedId x nodeValue) .null .null) where
  checked := checked_sys (by rw [passes]; exact checked_id declared nodeValue .null) rfl
  dword := rfl
  emits := by
    have stepped : compileStep postStep op g { nodeType, dataType := dataTypeDword }
        (.mk (checkedId x nodeValue) .null .null) = postStep op .dword (g.valueAddr (.var x)) := rfl
    rw [emits _ _ rfl, stepped]
    simp [finshCompile, compileCurrent_value declared]

/-- The tree of an expression compiles to the code of the expression, whatever follows it. -/
theorem compiles (e : Expr) (declared : e.Declared g) (sibling : Node) :
    ∃ a child, Compiles g (finshTypeCheck g (e.node sibling) nodeValue)
      (finshTypeCheck g sibling nodeValue) (e.code g) a child := by
  induction e generalizing sibling with
  | int v =>
    refine ⟨{ nodeType := .valueInt, dataType := dataTypeDword, value := v }, .null, ?_, rfl, rfl⟩
    simp only [Expr.node, finshTypeCheck, checkedAttr, Node.attr?, leafDataType, unmarked]
  | long v =>
    refine ⟨{ nodeType := .valueLong, dataType := dataTypeDword, value := v }, .null, ?_, rfl, rfl⟩
    simp only [Expr.node, finshTypeCheck, checkedAttr, Node.attr?, leafDataType, unmarked]
  | var x =>
    refine ⟨checkedId x nodeValue, .null, checked_id declared nodeValue sibling, rfl, ?_⟩
    rw [compileCurrent_value declared]
    rfl
  | bin op l r ihl ihr =>
    obtain ⟨al, cl, left⟩ := ihl declared.1 (r.node .null)
    obtain ⟨ar, cr, right⟩ := ihr declared.2 .null
    refine ⟨_, _, checked_sys left.checked left.dword, rfl, ?_⟩
    rw [← left.checked, left.code, right.code]
    simp [finshTypeCheck, finshCompile, compileCurrent, codeByWidth_dword, Expr.code]
  | bitwise e ih =>
    obtain ⟨ae, ce, operand⟩ := ih declared .null
    refine ⟨_, _, checked_sys operand.checked operand.dword, rfl, ?_⟩
    rw [← operand.checked, operand.code]
    simp [finshTypeCheck, finshCompile, compileCurrent, codeByWidth_dword, Expr.code]
  | assign x e ih =>
    obtain ⟨ae, ce, value⟩ := ih declared.2 .null
    have marked := checked_id declared.1 idtypeAddress (e.node .null)
    refine ⟨_, _, checked_sys marked rfl, rfl, ?_⟩
    have stores : compileAssign (.mk (checkedId x idtypeAddress) .null
        (finshTypeCheck g (e.node .null) nodeValue)) =
        [(Op.st .dword).code, (Op.ldValueStack .dword).code] := rfl
    rw [finshCompile, compileCurrent_address declared.1, value.code, compileCurrent, stores]
    simp [finshTypeCheck, finshCompile, Expr.code]
  | inc x =>
    exact ⟨_, _, compiles_step declared rfl (fun a child inc => by rw [compileCurrent, inc]) sibling⟩
  | dec x =>
    exact ⟨_, _, compiles_step declared rfl (fun a child dec => by rw [compileCurrent, dec]) sibling⟩

theorem compileStatements_code (stmts : List Expr) (declared : ∀ e ∈ stmts, e.Declared g) :
    compileStatements g (finshTypeCheck g (statementsNode stmts) nodeValue) =
      statementsCode g stmts := by
  induction stmts with
  | nil => rfl
  | cons e rest ih =>
    have later := ih (fun e member => declared e (List.mem_cons_of_mem _ member))
    obtain ⟨a, child, first⟩ := compiles e (declared e List.mem_cons_self) (statementsNode rest)
    have alone : finshCompile g (.mk a child .null) = e.code g := by
      rw [finshCompile, first.emits, finshCompile, List.append_nil]
    rw [statementsNode, first.checked, compileStatements, alone, later]
    cases rest with
    | nil => simp [statementsNode, finshTypeCheck, statementsCode]
    | cons next rest =>
      obtain ⟨b, child', second⟩ :=
        compiles next (declared next (by simp)) (statementsNode rest)
      simp [statementsNode, second.checked, statementsCode]

end compiling

section running
variable {g : Globals} {f : Syscalls} {text : Text} {s s' : Vm} {v : Long} {code : List Byte}

theorem valueAddr_apart {x y : Fin variableMax} (different : y ≠ x) :
    Apart (g.valueAddr (.var x)) 4 (g.valueAddr (.var y)) 4 := by
  have inside := g.inside
  have placeX := x.isLt
  have placeY := y.isLt
  have distinct : y.val ≠ x.val := fun same => different (Fin.ext same)
  simp only [varSize, variableMax] at inside placeX placeY
  simp only [Globals.valueAddr, Globals.pointer, ← BitVec.ofNat_add, varSize, valueOffset]
  exact Apart.ofNat (by lia) (by lia) (by lia)

theorem storeOf_write (m : Memory 32) (x : Fin variableMax) (v : Long) :
    storeOf g (write m (g.valueAddr (.var x)) (toBytes 4 v)) = Function.update (storeOf g m) x v := by
  funext y
  by_cases same : y = x
  · subst same
    have back : read (write m (g.valueAddr (.var y)) (toBytes 4 v)) (g.valueAddr (.var y)) 4 =
        toBytes 4 v := read_write (by simp) m (g.valueAddr (.var y))
    rw [Function.update_self, storeOf, back, ofBytes_toBytes (by decide)]
  · have apart : Apart (g.valueAddr (.var x)) (toBytes 4 v).length (g.valueAddr (.var y)) 4 := by
      rw [length_toBytes]
      exact valueAddr_apart same
    have kept := read_write_apart apart m
    rw [Function.update_of_ne same, storeOf, kept, storeOf]

theorem loadMem_var (x : Fin variableMax) :
    s.loadMem .dword (g.valueAddr (.var x)) = storeOf g s.memory x := rfl

/-- The code at finsh_pc runs to its end, leaves `v` on the stack and changes nothing below. -/
structure Leaves (f : Syscalls) (text : Text) (s : Vm) (code : List Byte) (v : Long) (s' : Vm) :
    Prop where
  rounds : Rounds running (round f text) s s'
  pc : s'.pc = s.pc + code.length
  sp : s'.sp = s.sp + 1
  top : s'.stack s.sp = v
  below : ∀ i < s.sp, s'.stack i = s.stack i

theorem pushed_leaves (k : Nat) (rounds : Rounds running (round f text) s (s.pushed v k))
    (length : code.length = k) : Leaves f text s code v (s.pushed v k) where
  rounds := rounds
  pc := by rw [length]; rfl
  sp := rfl
  top := Function.update_self ..
  below i under := Function.update_of_ne (Nat.ne_of_lt under) ..

theorem ld_leaves (placed : Placed text.bytes s.pc (ld .dword v)) (room : s.sp < stackMax) :
    Leaves f text s (ld .dword v) v (s.pushed v 5) :=
  pushed_leaves 5 (.single (running_placed placed) (round_ld placed room)) rfl

theorem ldValue_leaves {x : Fin variableMax}
    (placed : Placed text.bytes s.pc (ldValue .dword (g.valueAddr (.var x))))
    (room : s.sp < stackMax) :
    Leaves f text s (ldValue .dword (g.valueAddr (.var x))) (storeOf g s.memory x)
      (s.pushed (storeOf g s.memory x) 5) :=
  pushed_leaves 5 (.single (running_placed placed) (round_ldValue placed room)) rfl

theorem Leaves.replace {b : Byte} {old : Long} {mid : Vm} (left : Leaves f text s code old mid)
    (placed : Placed text.bytes mid.pc [b]) (taken : round f text mid = some s')
    (pc : s'.pc = mid.pc + 1) (sp : s'.sp = mid.sp) (top : s'.stack s.sp = v)
    (below : ∀ i < s.sp, s'.stack i = mid.stack i) : Leaves f text s (code ++ [b]) v s' where
  rounds := left.rounds.trans (.single (running_placed placed) taken)
  pc := by simp [pc, left.pc, Nat.add_assoc]
  sp := by rw [sp, left.sp]
  top := top
  below i under := by rw [below i under, left.below i under]

theorem Leaves.combine {b : Byte} {first second : List Byte} {a c : Long} {mid last : Vm}
    (left : Leaves f text s first a mid) (right : Leaves f text mid second c last)
    (placed : Placed text.bytes last.pc [b]) (taken : round f text last = some s')
    (pc : s'.pc = last.pc + 1) (sp : s'.sp = s.sp + 1) (top : s'.stack s.sp = v)
    (below : ∀ i < s.sp, s'.stack i = last.stack i) :
    Leaves f text s (first ++ second ++ [b]) v s' where
  rounds := (left.rounds.trans right.rounds).trans (.single (running_placed placed) taken)
  pc := by simp [pc, right.pc, left.pc, Nat.add_assoc]
  sp := sp
  top := top
  below i under := by
    have inner : i < mid.sp := by rw [left.sp]; lia
    rw [below i under, right.below i inner, left.below i under]

theorem Leaves.both {first second : List Byte} {a c : Long} {mid last : Vm}
    (left : Leaves f text s first a mid) (right : Leaves f text mid second c last) :
    last.sp = s.sp + 2 ∧ last.stack s.sp = a ∧ last.stack (s.sp + 1) = c := by
  have under : s.sp < mid.sp := by rw [left.sp]; lia
  refine ⟨by rw [right.sp, left.sp], by rw [right.below _ under, left.top], ?_⟩
  rw [← left.sp]
  exact right.top

theorem bin_leaves {first second : List Byte} {a c : Long} {mid last : Vm} {op : Arith}
    (left : Leaves f text s first a mid) (right : Leaves f text mid second c last)
    (placed : Placed text.bytes s.pc (first ++ second ++ [(Op.bin op .dword).code]))
    (applied : op.apply a c = some v) :
    ∃ s', Leaves f text s (first ++ second ++ [(Op.bin op .dword).code]) v s' ∧
      s'.memory = last.memory := by
  obtain ⟨two, under, upper⟩ := left.both right
  have here : Placed text.bytes last.pc [(Op.bin op .dword).code] := by
    have behind := placed.right
    rw [List.length_append, ← Nat.add_assoc, ← left.pc, ← right.pc] at behind
    exact behind
  have taken := round_bin (f := f) here two (v := v) (by rw [under, upper, applied])
  refine ⟨_, left.combine right here taken rfl rfl (Function.update_self ..) ?_, rfl⟩
  intro i low
  exact Function.update_of_ne (Nat.ne_of_lt low) ..

theorem st_leaves {first second : List Byte} {a c : Long} {mid last : Vm}
    (left : Leaves f text s first a mid) (right : Leaves f text mid second c last)
    (placed : Placed text.bytes s.pc (first ++ second ++ [(Op.st .dword).code])) :
    ∃ s', Leaves f text s (first ++ second ++ [(Op.st .dword).code]) a s' ∧
      s'.memory = write last.memory a (toBytes 4 c) := by
  obtain ⟨two, under, upper⟩ := left.both right
  have here : Placed text.bytes last.pc [(Op.st .dword).code] := by
    have behind := placed.right
    rw [List.length_append, ← Nat.add_assoc, ← left.pc, ← right.pc] at behind
    exact behind
  have taken := round_st (f := f) here two
  rw [under, upper] at taken
  exact ⟨_, left.combine right here taken rfl rfl under (fun _ _ => rfl), rfl⟩

theorem postStep_leaves {x : Fin variableMax} {op : Arith} {old : Long}
    (loaded : Leaves f text s code old s')
    (placed : Placed text.bytes s'.pc (postStep op .dword (g.valueAddr (.var x))))
    (room : s.sp + 4 ≤ stackMax) (applied : op.apply (storeOf g s'.memory x) 1 = some v) :
    ∃ last, Leaves f text s (code ++ postStep op .dword (g.valueAddr (.var x))) old last ∧
      storeOf g last.memory = Function.update (storeOf g s'.memory) x v := by
  let a := g.valueAddr (.var x)
  have shape : postStep op .dword a = ld .dword a ++
      (ldValue .dword a ++ ld .dword 1 ++ [(Op.bin op .dword).code]) ++ [(Op.st .dword).code] ++
      [Op.pop.code] := by simp [postStep]
  have above := loaded.sp
  simp only [stackMax] at room
  rw [shape] at placed ⊢
  have address : Leaves f text s' (ld .dword a) a (s'.pushed a 5) :=
    ld_leaves placed.left.left.left (by simp only [stackMax]; lia)
  have inner : Placed text.bytes (s'.pushed a 5).pc
      (ldValue .dword a ++ ld .dword 1 ++ [(Op.bin op .dword).code]) := placed.left.left.right
  have value : Leaves f text (s'.pushed a 5) (ldValue .dword a) (storeOf g s'.memory x) _ :=
    ldValue_leaves inner.left.left (by simp only [stackMax, Vm.pushed]; lia)
  have one : Leaves f text _ (ld .dword 1) 1 _ :=
    ld_leaves (s := (s'.pushed a 5).pushed (storeOf g s'.memory x) 5) inner.left.right
      (by simp only [stackMax, Vm.pushed]; lia)
  obtain ⟨summed, sum, kept⟩ := bin_leaves value one inner applied
  obtain ⟨stored, store, written⟩ := st_leaves address sum placed.left
  have here : Placed text.bytes stored.pc [Op.pop.code] := by
    rw [store.pc]
    exact placed.right
  obtain ⟨two, under, _⟩ := loaded.both store
  have popped := round_pop (f := f) here two
  have whole := loaded.combine store here popped rfl rfl under (fun _ _ => rfl)
  rw [List.append_assoc] at whole
  refine ⟨_, whole, ?_⟩
  show storeOf g stored.memory = _
  rw [written, kept]
  exact storeOf_write s'.memory x v

/-- The code of an expression leaves its value, and the variables as the evaluation leaves them. -/
theorem code_leaves (e : Expr) {σ' : Store} (evaluated : e.eval (storeOf g s.memory) = some (v, σ'))
    (placed : Placed text.bytes s.pc (e.code g)) (room : s.sp + e.depth ≤ stackMax) :
    ∃ s', Leaves f text s (e.code g) v s' ∧ storeOf g s'.memory = σ' := by
  induction e generalizing s v σ' with
  | int c =>
    cases Option.some.inj evaluated
    exact ⟨_, ld_leaves placed room, rfl⟩
  | long c =>
    cases Option.some.inj evaluated
    exact ⟨_, ld_leaves placed room, rfl⟩
  | var x =>
    cases Option.some.inj evaluated
    exact ⟨_, ldValue_leaves placed room, rfl⟩
  | bin op l r ihl ihr =>
    obtain ⟨⟨a, σ₁⟩, first, rest⟩ := Option.bind_eq_some_iff.mp evaluated
    obtain ⟨⟨b, σ₂⟩, second, rest⟩ := Option.bind_eq_some_iff.mp rest
    obtain ⟨c, applied, same⟩ := Option.bind_eq_some_iff.mp rest
    cases Option.some.inj same
    simp only [Expr.depth] at room
    obtain ⟨mid, left, store⟩ := ihl first placed.left.left (by lia)
    have behind : Placed text.bytes mid.pc (r.code g) := by
      rw [left.pc]
      exact placed.left.right
    have above := left.sp
    obtain ⟨last, right, final⟩ := ihr (by rw [store]; exact second) behind (by lia)
    rw [evalBin_apply] at applied
    obtain ⟨s', leaves, kept⟩ := bin_leaves left right placed applied
    exact ⟨s', leaves, by rw [kept, final]⟩
  | bitwise e ih =>
    obtain ⟨⟨a, σ₁⟩, first, same⟩ := Option.bind_eq_some_iff.mp evaluated
    cases Option.some.inj same
    obtain ⟨mid, left, store⟩ := ih first placed.left room
    have here : Placed text.bytes mid.pc [(Op.bitwise .dword).code] := by
      rw [left.pc]
      exact placed.right
    have taken := round_bitwise (f := f) here left.sp
    rw [left.top] at taken
    refine ⟨_, left.replace here taken rfl rfl (Function.update_self ..) ?_, store⟩
    intro i low
    exact Function.update_of_ne (Nat.ne_of_lt low) ..
  | assign x e ih =>
    obtain ⟨⟨a, σ₁⟩, first, same⟩ := Option.bind_eq_some_iff.mp evaluated
    cases Option.some.inj same
    simp only [Expr.depth] at room
    let p := g.valueAddr (.var x)
    have shape : (Expr.assign x e).code g = ld .dword p ++ e.code g ++ [(Op.st .dword).code] ++
        [(Op.ldValueStack .dword).code] := by simp [Expr.code, p]
    rw [shape] at placed ⊢
    have address : Leaves f text s (ld .dword p) p (s.pushed p 5) :=
      ld_leaves placed.left.left.left (by lia)
    obtain ⟨mid, value, store⟩ := ih (s := s.pushed p 5) first placed.left.left.right
      (by simp only [Vm.pushed]; lia)
    obtain ⟨stored, left, written⟩ := st_leaves address value placed.left
    have final : storeOf g stored.memory = Function.update σ₁ x v := by
      rw [written, ← store]
      exact storeOf_write mid.memory x v
    have here : Placed text.bytes stored.pc [(Op.ldValueStack .dword).code] := by
      rw [left.pc]
      exact placed.right
    have taken := round_ldValueStack (f := f) here left.sp
    have reloaded : stored.loadMem .dword p = v := by
      rw [loadMem_var, final, Function.update_self]
    rw [left.top, reloaded] at taken
    refine ⟨_, left.replace here taken rfl rfl (Function.update_self ..) ?_, final⟩
    intro i low
    exact Function.update_of_ne (Nat.ne_of_lt low) ..
  | inc x =>
    cases Option.some.inj evaluated
    simp only [Expr.depth] at room
    have loaded := ldValue_leaves (f := f) placed.left (by lia)
    obtain ⟨s', leaves, final⟩ :=
      postStep_leaves loaded placed.right room (evalBin_apply .add _ 1).symm
    exact ⟨s', leaves, final⟩
  | dec x =>
    cases Option.some.inj evaluated
    simp only [Expr.depth] at room
    have loaded := ldValue_leaves (f := f) placed.left (by lia)
    obtain ⟨s', leaves, final⟩ :=
      postStep_leaves loaded placed.right room (evalBin_apply .sub _ 1).symm
    exact ⟨s', leaves, final⟩

theorem depth_code (e : Expr) : 5 * e.depth ≤ (e.code g).length := by
  induction e with
  | int v => exact Nat.le_refl 5
  | long v => exact Nat.le_refl 5
  | var x => exact Nat.le_refl 5
  | bin op l r ihl ihr =>
    have some : 5 ≤ (l.code g).length := by
      have positive : 1 ≤ l.depth := l.depth_pos
      lia
    simp only [Expr.depth, Expr.code, List.length_append, List.length_singleton]
    lia
  | bitwise e ih => exact Nat.le_trans ih (by simp [Expr.code])
  | assign x e ih =>
    simp only [Expr.depth, Expr.code, List.length_append]
    have address : (ld .dword (g.valueAddr (.var x))).length = 5 := rfl
    lia
  | inc x => exact (by decide : 5 * 4 ≤ 23)
  | dec x => exact (by decide : 5 * 4 ≤ 23)

theorem statementsCode_leaves (stmts : List Expr) {σ' : Store}
    (evaluated : evalStatements stmts (storeOf g s.memory) = some (v, σ'))
    (placed : Placed text.bytes s.pc (statementsCode g stmts))
    (room : ∀ e ∈ stmts, s.sp + e.depth ≤ stackMax) :
    ∃ s', Leaves f text s (statementsCode g stmts) v s' ∧ storeOf g s'.memory = σ' := by
  induction stmts generalizing s with
  | nil => cases evaluated
  | cons e rest ih =>
    cases rest with
    | nil => exact code_leaves e evaluated placed (room e List.mem_cons_self)
    | cons next rest =>
      obtain ⟨⟨dropped, σ₁⟩, first, later⟩ := Option.bind_eq_some_iff.mp evaluated
      have shape : statementsCode g (e :: next :: rest) =
          e.code g ++ [Op.pop.code] ++ statementsCode g (next :: rest) := rfl
      rw [shape] at placed ⊢
      obtain ⟨mid, left, store⟩ :=
        code_leaves (f := f) e first placed.left.left (room e List.mem_cons_self)
      have here : Placed text.bytes mid.pc [Op.pop.code] := by
        rw [left.pc]
        exact placed.left.right
      have popped := round_pop (f := f) here left.sp
      have behind : Placed text.bytes (mid.pc + 1) (statementsCode g (next :: rest)) := by
        have right := placed.right
        rw [List.length_append, List.length_singleton, ← Nat.add_assoc, ← left.pc] at right
        exact right
      obtain ⟨last, run, final⟩ := ih (s := { mid with sp := s.sp, pc := mid.pc + 1 })
        (by rw [← later, ← store]) behind
        (fun e member => room e (List.mem_cons_of_mem _ member))
      refine ⟨last, ?_, final⟩
      exact {
        rounds := left.rounds.trans (.round (running_placed here) popped run.rounds)
        pc := by
          rw [run.pc, left.pc]
          simp only [List.length_append, List.length_singleton, Nat.add_assoc]
        sp := run.sp
        top := run.top
        below := fun i low => (run.below i low).trans (left.below i low) }

theorem code_length_le {stmts : List Expr} {e : Expr} (member : e ∈ stmts) :
    (e.code g).length ≤ (statementsCode g stmts).length := by
  induction stmts with
  | nil => cases member
  | cons first rest ih =>
    have shape : (first.code g).length + (statementsCode g rest).length ≤
        (statementsCode g (first :: rest)).length := by
      cases rest with
      | nil => exact Nat.le_refl _
      | cons next rest => simp only [statementsCode, List.length_append]; lia
    cases member with
    | head => lia
    | tail _ later =>
      have inner := ih later
      lia

/-- Code that fits the text segment never needs more of the stack than there is. -/
theorem depth_fits {stmts : List Expr} {e : Expr} (member : e ∈ stmts)
    (fits : (statementsCode g stmts).length ≤ textMax) : e.depth ≤ stackMax := by
  have short := depth_code (g := g) e
  have inside := code_length_le (g := g) member
  simp only [textMax, stackMax] at fits ⊢
  lia

end running

/-- finsh_vm_run on the code of finsh_compiler_run leaves at the stack bottom and in the variables
what the statements mean, whatever the stack held before. -/
theorem finsh_preserves_meaning (g : Globals) (f : Syscalls) (s s₁ : Vm) (stmts : List Expr)
    (text : Text) (v : Long) (σ : Store) (declared : ∀ e ∈ stmts, e.Declared g)
    (compiled : finshCompilerRun g (statementsNode stmts) s = some (text, s₁))
    (evaluated : evalStatements stmts (storeOf g s.memory) = some (v, σ)) :
    ∃ s₂, finshVmRun f text s₁ = some s₂ ∧ finshStackBottom s₂ = v ∧ storeOf g s₂.memory = σ := by
  obtain ⟨text', made, same⟩ := Option.map_eq_some_iff.mp compiled
  cases same
  rw [compileStatements_code stmts declared] at made
  obtain ⟨whole, fits⟩ := Text.ofCode_bytes made
  let start : Vm := { stack := Function.update s.stack 0 0, sp := 0, pc := 0, memory := s.memory }
  have placed : Placed text.bytes start.pc
      (statementsCode g stmts ++ List.replicate (textMax - (statementsCode g stmts).length) 0) := by
    have all := Placed.start text.bytes []
    rw [List.append_nil, whole] at all
    rw [whole]
    exact all
  have room : ∀ e ∈ stmts, start.sp + e.depth ≤ stackMax := by
    intro e member
    rw [Nat.zero_add]
    exact depth_fits member fits
  obtain ⟨last, run, final⟩ := statementsCode_leaves (f := f) stmts (s := start) evaluated placed.left room
  have padding : Placed text.bytes last.pc
      (List.replicate (textMax - (statementsCode g stmts).length) 0) := by
    rw [run.pc]
    exact placed.right
  have through := run.rounds.trans (rounds_noop (f := f) padding)
  have stops : running { last with
      pc := last.pc + (textMax - (statementsCode g stmts).length) } = false := by
    have behind : last.pc = 0 + (statementsCode g stmts).length := run.pc
    simp only [running, decide_eq_false_iff_not]
    lia
  refine ⟨_, through.loop round_lowers stops (Nat.sub_le _ _), run.top, final⟩

/-- `a = 5; b = a++ * (c = 0L - 3); ~b >> a / 4`. -/
def sampleStatements (a b c : Fin variableMax) : List Expr :=
  [.assign a (.int 5), .assign b (.bin .mul (.inc a) (.assign c (.bin .sub (.long 0) (.int 3)))),
    .bin .shr (.bitwise (.var b)) (.bin .div (.var a) (.int 4))]

theorem finsh_preserves_meaning_sample :
    let g : Globals := ⟨fun _ => .long, 0x20000000, by decide⟩
    let a : Fin variableMax := ⟨0, by decide⟩
    let b : Fin variableMax := ⟨1, by decide⟩
    let s : Vm := ⟨fun _ => 7, 3, 9, fun _ => 0⟩
    ∃ text s₁ s₂,
      finshCompilerRun g (statementsNode (sampleStatements a b ⟨2, by decide⟩)) s = some (text, s₁) ∧
      finshVmRun (fun _ _ m => (0, m)) text s₁ = some s₂ ∧ finshStackBottom s₂ = 7 ∧
      storeOf g s₂.memory a = 6 ∧ storeOf g s₂.memory b = -15 := by
  intro g a b s
  let stmts := sampleStatements a b ⟨2, by decide⟩
  have declared : ∀ e ∈ stmts, e.Declared g := by
    simp [stmts, sampleStatements, Expr.Declared, g]
  have compiles : (finshCompilerRun g (statementsNode stmts) s).isSome = true := by decide +kernel
  obtain ⟨⟨text, s₁⟩, compiled⟩ := Option.isSome_iff_exists.mp compiles
  have means : (evalStatements stmts (storeOf g s.memory)).any (fun r =>
      decide (r.1 = 7 ∧ r.2 a = 6 ∧ r.2 b = -15)) = true := by decide +kernel
  obtain ⟨⟨v, σ⟩, evaluated, checked⟩ := (Option.any_eq_true _ _).mp means
  obtain ⟨value, first, second⟩ := of_decide_eq_true checked
  obtain ⟨s₂, ran, bottom, store⟩ := finsh_preserves_meaning g (fun _ _ m => (0, m)) s s₁ stmts text v σ
    declared compiled evaluated
  refine ⟨text, s₁, s₂, compiled, ran, bottom.trans value, ?_, ?_⟩
  · rw [store]
    exact first
  · rw [store]
    exact second

end RtThread.Finsh
