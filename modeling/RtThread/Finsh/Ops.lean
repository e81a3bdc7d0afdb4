import RtThread.Finsh.Moves

/-! The operations that a tree stands for, from the tree as the parser leaves it: its code spells
them. -/
namespace RtThread.Finsh
open Bytes

/-- The data type of the leftmost leaf, which finsh_type_check hands up. -/
def Node.dataType (g : Globals) : Node → Byte
  | .null => dataTypeVoid
  | .mk n .null _ => leafDataType g n
  | .mk _ (.mk c child sibling) _ => (Node.mk c child sibling).dataType g

/-- The idtype behind finsh_type_check. -/
def Attr.marked (n : Attr) (isAddr : Byte) : Byte :=
  if n.idtype ≠ idtypeSyscall then n.idtype ||| isAddr else n.idtype

abbrev Ops := List (Op × Nat)

/-- Operations without parameters. -/
def plain (ops : List Op) : Ops := ops.map (fun op => (op, 0))

def idOps (g : Globals) (n : Attr) (isAddr : Byte) : Ops :=
  if n.idtype &&& idtypeSyscall ≠ 0 then
    match n.id with
    | .syscall .. => plain [.ld .dword]
    | _ => []
  else
    match g.typed? n with
    | none => []
    | some (type, _) =>
      match type.width? with
      | none => []
      | some w => if n.marked isAddr &&& idtypeAddress ≠ 0 then plain [.ld .dword] else plain [.ldValue w]

def widthOps (ops : Width → List Op) (dataType : Byte) : Ops :=
  match width? dataType with
  | none => []
  | some w => plain (ops w)

def storeOps (w : Width) : List Op := [.st w, .ldValueStack w]

def preStepOps (op : Arith) (w : Width) : List Op :=
  [.ldValue w, .ld w, .bin op w, .st w, .ldValueStack .dword]

def postStepOps (op : Arith) (w : Width) : List Op :=
  [.ld .dword, .ldValue w, .ld w, .bin op w, .st w, .pop]

def assignOps (g : Globals) (child : Node) : Ops :=
  match child.attr? with
  | none => []
  | some c =>
    let dataType := if c.nodeType = .id then child.dataType g else child.dataType g &&& 0x0F
    if c.nodeType = .id ∨ c.nodeType = .sysGetvalue then widthOps storeOps dataType else []

def stepOps (ops : Width → List Op) (child : Node) (dataType : Byte) : Ops :=
  match child.attr? with
  | none => []
  | some c => if c.nodeType = .id then widthOps ops dataType else []

def funcOps (child : Node) : Ops :=
  match child with
  | .null => []
  | .mk _ _ sibling => [(.syscall, sibling.siblings % 256)]

def getvalueOps (n : Attr) (isAddr dataType : Byte) : Ops :=
  if n.marked isAddr &&& idtypeAddress ≠ 0 then []
  else widthOps (fun w => [.ldValueStack w]) dataType

def currentOps (g : Globals) (n : Attr) (isAddr : Byte) (child : Node) (dataType : Byte) : Ops :=
  match n.nodeType with
  | .id => idOps g n isAddr
  | .valueChar => plain [.ld .byte]
  | .valueInt | .valueLong | .valueNull | .valueString => plain [.ld .dword]
  | .sys op => widthOps (fun w => [.bin op w]) dataType
  | .sysBitwise => widthOps (fun w => [.bitwise w]) dataType
  | .sysFunc => funcOps child
  | .sysAssign => assignOps g child
  | .sysPreinc => stepOps (preStepOps .add) child dataType
  | .sysPredec => stepOps (preStepOps .sub) child dataType
  | .sysInc => stepOps (postStepOps .add) child dataType
  | .sysDec => stepOps (postStepOps .sub) child dataType
  | .sysNull => List.replicate 4 (.noop, 0)
  | .sysGetvalue => getvalueOps n isAddr dataType
  | .sysGetaddr | .sysCast | .unknown => []

def Node.ops (g : Globals) : Node → Byte → Ops
  | .null, _ => []
  | .mk n child sibling, isAddr =>
    child.ops g (childAddr n.nodeType isAddr) ++
      currentOps g n isAddr child ((Node.mk n child sibling).dataType g) ++ sibling.ops g nodeValue

/-- The statements, with a pop behind each but the last. -/
def statementsOps (g : Globals) : Node → Ops
  | .null => []
  | .mk n child sibling =>
    (Node.mk n child .null).ops g nodeValue ++ (if sibling = .null then [] else plain [.pop]) ++
      statementsOps g sibling

section spelling
variable {v : Long} {ops : Width → List Op}

theorem spells_op {op : Op} (bare : op.operands = 0) : Spells [op.code] (plain [op]) := by
  have single := Spells.single op [] bare.symm
  have none : op.parameters [] = 0 := by cases op <;> rfl
  rwa [none] at single

theorem spells_ld (w : Width) : Spells (ld w v) (plain [.ld w]) :=
  Spells.single (.ld w) _ (by simp [Op.operands])

theorem spells_ldValue (w : Width) : Spells (ldValue w v) (plain [.ldValue w]) :=
  Spells.single (.ldValue w) _ (by simp [Op.operands])

theorem spells_codeByWidth {op : Width → Op} (bare : ∀ w, (op w).operands = 0) (dataType : Byte) :
    Spells (codeByWidth op dataType) (widthOps (fun w => [op w]) dataType) := by
  unfold codeByWidth widthOps
  cases width? dataType with
  | none => exact .nil
  | some w => exact spells_op (bare w)

theorem spells_preStep (op : Arith) (w : Width) : Spells (preStep op w v) (plain (preStepOps op w)) := by
  have codes : Spells ([(Op.bin op w).code] ++ [(Op.st w).code] ++ [(Op.ldValueStack .dword).code]) _ :=
    ((spells_op rfl).append (spells_op rfl)).append (spells_op rfl)
  exact ((spells_ldValue (v := v) w).append (spells_ld (v := 1) w)).append codes

theorem spells_postStep (op : Arith) (w : Width) :
    Spells (postStep op w v) (plain (postStepOps op w)) := by
  have codes : Spells ([(Op.bin op w).code] ++ [(Op.st w).code] ++ [Op.pop.code]) _ :=
    ((spells_op rfl).append (spells_op rfl)).append (spells_op rfl)
  exact (((spells_ld (v := v) .dword).append (spells_ldValue (v := v) w)).append
    (spells_ld (v := 1) w)).append codes

end spelling

section checked
variable {g : Globals} {n : Attr} {isAddr m : Byte}

/-- The two attributes that finsh_type_check hands down. -/
def Flag (isAddr : Byte) : Prop := isAddr = nodeValue ∨ isAddr = idtypeAddress

theorem flag_childAddr (nodeType : NodeType) (flag : Flag isAddr) : Flag (childAddr nodeType isAddr) := by
  have value : Flag nodeValue := .inl rfl
  have address : Flag idtypeAddress := .inr rfl
  unfold childAddr
  split
  · exact address
  · exact address
  · exact address
  · exact address
  · split
    · exact value
    · exact flag
  · exact flag

theorem marked_bit (flag : Flag isAddr) (apart : idtypeAddress &&& m = 0) :
    n.marked isAddr &&& m = n.idtype &&& m := by
  have kept : (n.idtype ||| isAddr) &&& m = n.idtype &&& m := by
    rw [BitVec.and_or_distrib_right]
    rcases flag with rfl | rfl
    · simp [nodeValue]
    · rw [apart]
      exact BitVec.or_zero
  unfold Attr.marked
  split
  · exact kept
  · rfl

theorem checkedAttr_idtype (child : Node) : (checkedAttr g n isAddr child).idtype = n.marked isAddr := by
  unfold checkedAttr
  cases child <;> rfl

theorem checkedAttr_nodeType (child : Node) : (checkedAttr g n isAddr child).nodeType = n.nodeType := by
  unfold checkedAttr
  cases child <;> rfl

theorem checkedAttr_id (child : Node) : (checkedAttr g n isAddr child).id = n.id := by
  unfold checkedAttr
  cases child <;> rfl

theorem leafDataType_marked (flag : Flag isAddr) :
    leafDataType g { n with idtype := n.marked isAddr } = leafDataType g n := by
  unfold leafDataType
  simp only [marked_bit flag (m := idtypeVar) (by decide), marked_bit flag (m := idtypeSysvar) (by decide)]

theorem typed?_checked (flag : Flag isAddr) (child : Node) :
    g.typed? (checkedAttr g n isAddr child) = g.typed? n := by
  unfold Globals.typed?
  rw [checkedAttr_idtype, checkedAttr_id, marked_bit flag (m := idtypeSysvar) (by decide)]

theorem attr?_checked (node : Node) (flag : Flag isAddr) :
    (finshTypeCheck g node isAddr).attr?.map Attr.dataType = node.attr?.map (fun _ => node.dataType g) := by
  induction node generalizing isAddr with
  | null => rfl
  | mk n child sibling ih _ =>
    have below := ih (flag_childAddr n.nodeType flag)
    simp only [finshTypeCheck, Node.attr?, Option.map_some, Option.some.injEq]
    cases child with
    | null => exact leafDataType_marked flag
    | mk c first rest =>
      simp only [finshTypeCheck, Node.attr?, Option.map_some, Option.some.injEq] at below
      exact below

theorem checkedAttr_dataType (child sibling : Node) (flag : Flag isAddr) :
    (checkedAttr g n isAddr (finshTypeCheck g child (childAddr n.nodeType isAddr))).dataType =
      (Node.mk n child sibling).dataType g := by
  have whole := attr?_checked (g := g) (.mk n child sibling) flag
  exact Option.some.inj whole

theorem siblings_checked (node : Node) : (finshTypeCheck g node isAddr).siblings = node.siblings := by
  induction node generalizing isAddr with
  | null => rfl
  | mk n child sibling _ ih => exact congrArg (· + 1) ih

end checked

section nodes
variable {g : Globals} {n : Attr} {isAddr : Byte}

theorem spells_id {a : Attr} (idtype : a.idtype = n.marked isAddr)
    (syscall : a.idtype &&& idtypeSyscall = n.idtype &&& idtypeSyscall) (id : a.id = n.id)
    (typed : g.typed? a = g.typed? n) : Spells (compileId g a) (idOps g n isAddr) := by
  unfold compileId idOps
  rw [syscall, id, typed, idtype]
  split
  · cases n.id with
    | syscall self func => exact spells_ld .dword
    | null => exact .nil
    | var x => exact .nil
    | sysvar self type var => exact .nil
  · cases g.typed? n with
    | none => exact .nil
    | some found =>
      obtain ⟨type, address⟩ := found
      simp only
      cases type.width? with
      | none => exact .nil
      | some w =>
        simp only
        split
        · exact spells_ld .dword
        · exact spells_ldValue w

/-- What compileCurrent reads of a child behind finsh_type_check. -/
theorem child_checked (child : Node) (flag : Flag isAddr) :
    (child = .null ∧ finshTypeCheck g child isAddr = .null) ∨
    ∃ c c' first first' rest rest', child = .mk c first rest ∧
      finshTypeCheck g child isAddr = .mk c' first' rest' ∧ c'.nodeType = c.nodeType ∧ c'.id = c.id ∧
      c'.dataType = child.dataType g ∧ rest'.siblings = rest.siblings := by
  cases child with
  | null => exact .inl ⟨rfl, rfl⟩
  | mk c first rest =>
    exact .inr ⟨c, _, first, _, rest, _, rfl, rfl, checkedAttr_nodeType _, checkedAttr_id _,
      checkedAttr_dataType first rest flag, siblings_checked rest⟩

theorem spells_store (dataType : Byte) :
    Spells (match width? dataType with
      | some w => [(Op.st w).code, (Op.ldValueStack w).code]
      | none => []) (widthOps storeOps dataType) := by
  unfold widthOps
  cases width? dataType with
  | none => exact .nil
  | some w =>
    have st := @spells_op (.st w) rfl
    exact st.append (spells_op rfl)

theorem spells_assign {child : Node} (flag : Flag isAddr) :
    Spells (compileAssign (finshTypeCheck g child isAddr)) (assignOps g child) := by
  rcases child_checked (g := g) child flag with
    ⟨rfl, checked⟩ | ⟨c, c', first, first', rest, rest', shape, checked, nodeType, _, dataType, _⟩
  · exact .nil
  · have below : child.attr? = some c := by rw [shape]; rfl
    unfold compileAssign assignOps
    rw [checked, below]
    simp only [Node.attr?, nodeType, dataType]
    split
    · exact spells_store _
    · exact .nil

theorem spells_step {step : Arith → Width → Long → List Byte} {ops : Width → List Op} {op : Arith}
    (spells : ∀ w v, Spells (step op w v) (plain (ops w))) {a : Attr} {child : Node} (flag : Flag isAddr) :
    Spells (compileStep step op g a (finshTypeCheck g child isAddr)) (stepOps ops child a.dataType) := by
  rcases child_checked (g := g) child flag with
    ⟨rfl, checked⟩ | ⟨c, c', first, first', rest, rest', shape, checked, nodeType, id, _, _⟩
  · exact .nil
  · have below : child.attr? = some c := by rw [shape]; rfl
    unfold compileStep stepOps
    rw [checked, below]
    simp only [Node.attr?, nodeType, widthOps]
    split
    · cases width? a.dataType with
      | none => exact .nil
      | some w => exact spells w _
    · exact .nil

theorem spells_func {child : Node} (flag : Flag isAddr) :
    Spells (compileFunc (finshTypeCheck g child isAddr)) (funcOps child) := by
  rcases child_checked (g := g) child flag with
    ⟨rfl, checked⟩ | ⟨c, c', first, first', rest, rest', shape, checked, _, _, _, siblings⟩
  · exact .nil
  · subst shape
    rw [checked]
    simp only [compileFunc, funcOps, siblings]
    have call := Spells.single .syscall [BitVec.ofNat 8 rest.siblings] rfl
    rwa [Op.parameters, List.headD_cons, BitVec.toNat_ofNat] at call

theorem spells_getvalue {a : Attr} (idtype : a.idtype = n.marked isAddr) :
    Spells (compileGetvalue a) (getvalueOps n isAddr a.dataType) := by
  unfold compileGetvalue getvalueOps
  rw [idtype]
  split
  · exact .nil
  · exact spells_codeByWidth (fun _ => rfl) _

theorem spells_current (child sibling : Node) (flag : Flag isAddr) :
    Spells (compileCurrent g
        (checkedAttr g n isAddr (finshTypeCheck g child (childAddr n.nodeType isAddr)))
        (finshTypeCheck g child (childAddr n.nodeType isAddr)))
      (currentOps g n isAddr child ((Node.mk n child sibling).dataType g)) := by
  have below := flag_childAddr n.nodeType flag
  rw [← checkedAttr_dataType child sibling flag]
  generalize checked : finshTypeCheck g child (childAddr n.nodeType isAddr) = child'
  unfold compileCurrent currentOps
  rw [checkedAttr_nodeType]
  cases n.nodeType with
  | id =>
    refine spells_id (checkedAttr_idtype child') ?_ (checkedAttr_id child') (typed?_checked flag child')
    rw [checkedAttr_idtype, marked_bit flag (by decide)]
  | valueChar => exact spells_ld .byte
  | valueInt => exact spells_ld .dword
  | valueLong => exact spells_ld .dword
  | valueString => exact spells_ld .dword
  | valueNull => exact spells_ld .dword
  | sys op => exact spells_codeByWidth (fun _ => rfl) _
  | sysBitwise => exact spells_codeByWidth (fun _ => rfl) _
  | sysFunc => rw [← checked]; exact spells_func below
  | sysAssign => rw [← checked]; exact spells_assign below
  | sysPreinc => rw [← checked]; exact spells_step (fun w v => spells_preStep .add w) below
  | sysPredec => rw [← checked]; exact spells_step (fun w v => spells_preStep .sub w) below
  | sysInc => rw [← checked]; exact spells_step (fun w v => spells_postStep .add w) below
  | sysDec => rw [← checked]; exact spells_step (fun w v => spells_postStep .sub w) below
  | sysNull => exact spells_zeros 4
  | sysGetvalue => exact spells_getvalue (checkedAttr_idtype child')
  | sysGetaddr => exact .nil
  | sysCast => exact .nil
  | unknown => exact .nil

theorem spells_node (node : Node) (flag : Flag isAddr) :
    Spells (finshCompile g (finshTypeCheck g node isAddr)) (node.ops g isAddr) := by
  induction node generalizing isAddr with
  | null => exact .nil
  | mk n child sibling ihc ihs =>
    exact ((ihc (flag_childAddr n.nodeType flag)).append (spells_current child sibling flag)).append
      (ihs (.inl rfl))

theorem spells_statements (root : Node) :
    Spells (compileStatements g (finshTypeCheck g root nodeValue)) (statementsOps g root) := by
  induction root with
  | null => exact .nil
  | mk n child sibling _ ih =>
    have alone := spells_node (g := g) (.mk n child .null) (.inl rfl)
    have pop : Spells (if finshTypeCheck g sibling nodeValue = .null then [] else [Op.pop.code])
        (if sibling = .null then [] else plain [.pop]) := by
      cases sibling with
      | null => exact .nil
      | mk b first rest => exact spells_op rfl
    exact (alone.append pop).append ih

end nodes

end RtThread.Finsh
