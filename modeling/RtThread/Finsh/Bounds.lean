import RtThread.Finsh.NodeTable
import RtThread.Finsh.Shares

/-! Whether the code of a line stays in text_segment and finsh_sp in finsh_vm_stack. The compiler
looks at neither end. -/
namespace RtThread.Finsh
open Bytes

def Parser.globals (left : Parser) (base : Nat) (inside : base + varSize * variableMax ≤ 2 ^ 32) :
    Globals :=
  ⟨fun x => (left.vars x).type, base, inside⟩

/-- finsh_errno is 0 behind finsh_parser_run. -/
def Accepts (y : Symbols) (line : Line) (vars : Variables) (root : Node) (left : Parser) : Prop :=
  ∃ fuel, finshParserRun y fuel line vars = some (root, left) ∧ left.token.errno = .ok

def leafError (g : Globals) (n : Attr) : Bool :=
  n.nodeType = .id &&
    if n.idtype &&& idtypeVar ≠ 0 then
      match n.id with
      | .var x => (g.types x).dataType?.isNone
      | _ => false
    else if n.idtype &&& idtypeSysvar ≠ 0 then
      match n.id with
      | .sysvar _ type _ => type.dataType?.isNone
      | _ => false
    else false

/-- finsh_type_check finds a type that it does not know. -/
def typeError (g : Globals) : Node → Bool
  | .null => false
  | .mk n child sibling =>
    typeError g child || typeError g sibling || (child.isNull && leafError g n)

def currentError (n : Attr) (child : Node) : Bool :=
  match n.nodeType with
  | .sysAssign =>
    match child.attr? with
    | none => false
    | some c =>
      (c.nodeType = .id && (width? c.dataType).isNone) ||
        (c.nodeType = .sysGetvalue && (width? (c.dataType &&& 0x0F)).isNone)
  | .sysCast | .unknown => true
  | _ => false

/-- finsh_compile finds a type or a node that it does not know. -/
def compileError : Node → Bool
  | .null => false
  | .mk n child sibling => compileError child || compileError sibling || currentError n child

/-- finsh_errno is 0 behind finsh_compiler_run, too: finsh_run_line goes on to finsh_vm_run. -/
def Runs (g : Globals) (root : Node) : Prop :=
  typeError g root = false ∧ compileError (finshTypeCheck g root nodeValue) = false

instance (g : Globals) (root : Node) : Decidable (Runs g root) :=
  inferInstanceAs (Decidable (_ ∧ _))

/-- All that is written lies in text_segment, and all values of finsh_sp in finsh_vm_stack. -/
def StaysInside (g : Globals) (root : Node) (s : Vm) : Prop :=
  ∃ text s', finshCompilerRun g root s = some (text, s') ∧
    (Runs g root → ∀ sp ∈ heights 0 (spMoves 0 text.bytes), 0 ≤ sp ∧ sp < stackMax)

/-- No node takes from the stack what the nodes before it have not left there. -/
def Balanced (g : Globals) (root : Node) : Prop :=
  ∀ sp ∈ heights 0 (statementsShare g root).moves, 0 ≤ sp

instance (g : Globals) (root : Node) : Decidable (Balanced g root) :=
  inferInstanceAs (Decidable (∀ sp ∈ _, _))

def Share.ups (share : Share) : Int := (share.moves.map (max 0)).sum

section ups
variable {g : Globals}

theorem ups_then (a b : Share) : (a.then b).ups = a.ups + b.ups := by
  simp [Share.ups, Share.then]

theorem ups_few {bytes : Nat} {moves : List Int} (few : (moves.map (max 0)).sum ≤ 3) :
    (Share.mk bytes moves).ups ≤ 3 :=
  few

theorem ups_widthShare {share : Width → Share} (few : ∀ w, (share w).ups ≤ 3) (dataType : Byte) :
    (widthShare share dataType).ups ≤ 3 := by
  unfold widthShare
  cases width? dataType with
  | none => exact ups_few (by decide)
  | some w => exact few w

theorem ups_stepShare {share : Width → Share} (few : ∀ w, (share w).ups ≤ 3) (child : Node)
    (dataType : Byte) : (stepShare share child dataType).ups ≤ 3 := by
  cases child with
  | null => exact ups_few (by decide)
  | mk c first rest =>
    simp only [stepShare, Node.attr?]
    split
    · exact ups_widthShare few dataType
    · exact ups_few (by decide)

theorem ups_idShare (n : Attr) : (idShare g n).ups ≤ 3 := by
  unfold idShare
  split
  · cases n.id <;> exact ups_few (by decide)
  · cases g.typed? n with
    | none => exact ups_few (by decide)
    | some found =>
      simp only
      split <;> exact ups_few (by decide)

theorem ups_assignShare (child : Node) : (assignShare g child).ups ≤ 3 := by
  cases child with
  | null => exact ups_few (by decide)
  | mk c first rest =>
    simp only [assignShare, Node.attr?]
    split
    · exact ups_widthShare (fun _ => ups_few (by decide)) _
    · exact ups_few (by decide)

theorem ups_funcShare (child : Node) : (funcShare child).ups ≤ 3 := by
  cases child with
  | null => exact ups_few (by decide)
  | mk c first rest => simp [funcShare, Share.ups, List.sum_replicate]

theorem ups_currentShare (n : Attr) (isAddr : Byte) (child : Node) (dataType : Byte) :
    (currentShare g n isAddr child dataType).ups ≤ 3 := by
  unfold currentShare
  cases n.nodeType with
  | id => exact ups_idShare n
  | sys op => exact ups_widthShare (fun _ => ups_few (by decide)) _
  | sysBitwise => exact ups_widthShare (fun _ => ups_few (by decide)) _
  | sysFunc => exact ups_funcShare child
  | sysAssign => exact ups_assignShare child
  | sysPreinc => exact ups_stepShare (fun _ => ups_few (by decide)) child dataType
  | sysPredec => exact ups_stepShare (fun _ => ups_few (by decide)) child dataType
  | sysInc => exact ups_stepShare (fun _ => ups_few (by decide)) child dataType
  | sysDec => exact ups_stepShare (fun _ => ups_few (by decide)) child dataType
  | sysGetvalue =>
    simp only [getvalueShare]
    split
    · exact ups_few (by decide)
    · exact ups_widthShare (fun _ => ups_few (by decide)) _
  | _ => exact ups_few (by decide)

theorem ups_share (node : Node) (isAddr : Byte) : (node.share g isAddr).ups ≤ 3 * node.count := by
  induction node generalizing isAddr with
  | null => exact Int.le_refl 0
  | mk n child sibling ihc ihs =>
    have first := ihc (childAddr n.nodeType isAddr)
    have rest := ihs nodeValue
    have here := ups_currentShare (g := g) n isAddr child ((Node.mk n child sibling).dataType g)
    simp only [Node.share, ups_then, Node.count]
    omega

theorem ups_statementsShare (root : Node) : (statementsShare g root).ups ≤ 3 * root.count := by
  induction root with
  | null => exact Int.le_refl 0
  | mk n child sibling _ ih =>
    have alone := ups_share (g := g) (.mk n child .null) nodeValue
    have pop : (if sibling = .null then ({} : Share) else ⟨1, [-1]⟩).ups = 0 := by
      split <;> decide
    simp only [statementsShare, ups_then, Node.count, pop] at alone ⊢
    omega

end ups

/-- What the text says of finsh_sp is what the tree says of it. -/
theorem spMoves_ofCode {g : Globals} {root : Node} {text : Text}
    (made : Text.ofCode (compileStatements g (finshTypeCheck g root nodeValue)) = some text) :
    spMoves 0 text.bytes = (statementsShare g root).moves := by
  obtain ⟨whole, _⟩ := Text.ofCode_bytes made
  obtain ⟨_, ops, spells, moves⟩ := statements_code g root
  rw [whole, (spells.append (spells_zeros _)).spMoves, opsMoves_append, opsMoves_noops, List.append_nil, moves]

theorem heights_lt_stackMax {g : Globals} {root : Node} (few : root.count ≤ nodeMax) {sp : Int}
    (reached : sp ∈ heights 0 (statementsShare g root).moves) : sp < stackMax := by
  have below := heights_le_ups _ reached
  have ups : (statementsShare g root).ups ≤ 3 * root.count := ups_statementsShare root
  simp only [Share.ups] at ups
  simp only [nodeMax] at few
  simp only [stackMax]
  omega

/-- The upper end of the stack is out of reach of the nodes that there are; the end of the text and
the lower end of the stack are not. -/
theorem stays_inside_iff (y : Symbols) (line : Line) (vars : Variables) (root : Node) (left : Parser)
    (base : Nat) (inside : base + varSize * variableMax ≤ 2 ^ 32) (s : Vm)
    (accepted : Accepts y line vars root left) :
    StaysInside (left.globals base inside) root s ↔
      (statementsShare (left.globals base inside) root).bytes ≤ textMax ∧
        (Runs (left.globals base inside) root → Balanced (left.globals base inside) root) := by
  obtain ⟨fuel, parsed, _⟩ := accepted
  have few := count_le_nodeMax parsed
  have size := (statements_code (left.globals base inside) root).1
  constructor
  · rintro ⟨text, s', compiled, run⟩
    obtain ⟨text', made, same⟩ := Option.map_eq_some_iff.mp compiled
    cases same
    refine ⟨?_, fun runs sp reached => ?_⟩
    · rw [← size]
      exact (Text.ofCode_bytes made).2
    · rw [← spMoves_ofCode made] at reached
      exact (run runs sp reached).1
  · rintro ⟨fits, balanced⟩
    have made : ∃ text, Text.ofCode (compileStatements (left.globals base inside)
        (finshTypeCheck (left.globals base inside) root nodeValue)) = some text := by
      unfold Text.ofCode
      rw [dif_pos (by rw [size]; exact fits)]
      exact ⟨_, rfl⟩
    obtain ⟨text, made⟩ := made
    refine ⟨text, _, Option.map_eq_some_iff.mpr ⟨text, made, rfl⟩, fun runs sp reached => ?_⟩
    rw [spMoves_ofCode made] at reached
    exact ⟨balanced runs sp reached, heights_lt_stackMax few reached⟩

/-- `int a=1;a+'b';`. -/
def sumLine : Line := ⟨chars "int a=1;a+'b';", by decide +kernel, by decide +kernel⟩

/-- `int a=0;a++;a++;a++;a++;a++;a++;`. -/
def stepsLine : Line := ⟨chars "int a=0;a++;a++;a++;a++;a++;a++;", by decide +kernel, by decide +kernel⟩

def noVariables : Variables := fun _ => {}

theorem stays_inside_iff_sum :
    let s : Vm := ⟨fun _ => 7, 3, 9, fun _ => 0⟩
    ∃ root left, Accepts {} sumLine noVariables root left ∧
      StaysInside (left.globals 0x20000000 (by decide)) root s := by
  intro s
  have parses : (finshParserRun {} 40 sumLine noVariables).any (fun r =>
      let g := r.2.globals 0x20000000 (by decide)
      decide (r.2.token.errno = .ok ∧ (statementsShare g r.1).bytes ≤ textMax ∧ Balanced g r.1)) = true := by
    decide +kernel
  obtain ⟨⟨root, left⟩, parsed, checked⟩ := (Option.any_eq_true _ _).mp parses
  obtain ⟨ok, fits, balanced⟩ := of_decide_eq_true checked
  have accepted : Accepts {} sumLine noVariables root left := ⟨40, parsed, ok⟩
  refine ⟨root, left, accepted, ?_⟩
  exact (stays_inside_iff {} sumLine noVariables root left 0x20000000 (by decide) s accepted).mpr
    ⟨fits, fun _ => balanced⟩

/-- Six increments of an int are 138 bytes. -/
theorem not_stays_inside :
    ¬ ∀ (y : Symbols) (line : Line) (vars : Variables) (root : Node) (left : Parser) (base : Nat)
      (inside : base + varSize * variableMax ≤ 2 ^ 32) (s : Vm),
      Accepts y line vars root left → StaysInside (left.globals base inside) root s := by
  intro always
  have parses : (finshParserRun {} 80 stepsLine noVariables).any (fun r =>
      let g := r.2.globals 0x20000000 (by decide)
      decide (r.2.token.errno = .ok ∧
        Text.ofCode (compileStatements g (finshTypeCheck g r.1 nodeValue)) = none)) = true := by
    decide +kernel
  obtain ⟨⟨root, left⟩, parsed, checked⟩ := (Option.any_eq_true _ _).mp parses
  obtain ⟨ok, overflows⟩ := of_decide_eq_true checked
  obtain ⟨text, s', compiled, _⟩ := always {} stepsLine noVariables root left 0x20000000 (by decide)
    ⟨fun _ => 7, 3, 9, fun _ => 0⟩ ⟨80, parsed, ok⟩
  obtain ⟨text', made, _⟩ := Option.map_eq_some_iff.mp compiled
  exact Option.some_ne_none text' (made.symm.trans overflows)

end RtThread.Finsh
