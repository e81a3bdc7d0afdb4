import RtThread.Finsh.Ops

/-! What each node of a tree adds to the text segment and to the way of finsh_sp. -/
namespace RtThread.Finsh
open Bytes

/-- Bytes of code, and the moves of finsh_sp in them. -/
structure Share where
  bytes : Nat := 0
  moves : List Int := []

def Share.then (a b : Share) : Share := ⟨a.bytes + b.bytes, a.moves ++ b.moves⟩

def loadShare : Share := ⟨5, [1]⟩

def idShare (g : Globals) (n : Attr) : Share :=
  if n.idtype &&& idtypeSyscall ≠ 0 then
    match n.id with
    | .syscall .. => loadShare
    | _ => {}
  else
    match g.typed? n with
    | none => {}
    | some (type, _) => if type.width?.isSome then loadShare else {}

/-- What stands at every width, and nothing for a type without a width. -/
def widthShare (share : Width → Share) (dataType : Byte) : Share :=
  match width? dataType with
  | none => {}
  | some w => share w

def binShare (_ : Width) : Share := ⟨1, [-1]⟩
def onTopShare (_ : Width) : Share := ⟨1, []⟩
def storeShare (_ : Width) : Share := ⟨2, [-1]⟩
def preStepShare (w : Width) : Share := ⟨9 + w.size, [1, 1, -1, -1]⟩
def postStepShare (w : Width) : Share := ⟨14 + w.size, [1, 1, 1, -1, -1, -1]⟩

def assignShare (g : Globals) (child : Node) : Share :=
  match child.attr? with
  | none => {}
  | some c =>
    let dataType := if c.nodeType = .id then child.dataType g else child.dataType g &&& 0x0F
    if c.nodeType = .id ∨ c.nodeType = .sysGetvalue then widthShare storeShare dataType else {}

def stepShare (share : Width → Share) (child : Node) (dataType : Byte) : Share :=
  match child.attr? with
  | none => {}
  | some c => if c.nodeType = .id then widthShare share dataType else {}

def funcShare (child : Node) : Share :=
  match child with
  | .null => {}
  | .mk _ _ sibling => ⟨2, List.replicate (sibling.siblings % 256 + 1) (-1) ++ [1]⟩

/-- What is marked as an address is not loaded. -/
def getvalueShare (n : Attr) (isAddr dataType : Byte) : Share :=
  if n.marked isAddr &&& idtypeAddress ≠ 0 then {} else widthShare onTopShare dataType

def currentShare (g : Globals) (n : Attr) (isAddr : Byte) (child : Node) (dataType : Byte) : Share :=
  match n.nodeType with
  | .id => idShare g n
  | .valueChar => ⟨2, [1]⟩
  | .valueInt | .valueLong | .valueNull | .valueString => loadShare
  | .sys _ => widthShare binShare dataType
  | .sysBitwise => widthShare onTopShare dataType
  | .sysFunc => funcShare child
  | .sysAssign => assignShare g child
  | .sysPreinc | .sysPredec => stepShare preStepShare child dataType
  | .sysInc | .sysDec => stepShare postStepShare child dataType
  | .sysNull => ⟨4, []⟩
  | .sysGetvalue => getvalueShare n isAddr dataType
  | .sysGetaddr | .sysCast | .unknown => {}

def Node.share (g : Globals) : Node → Byte → Share
  | .null, _ => {}
  | .mk n child sibling, isAddr =>
    ((child.share g (childAddr n.nodeType isAddr)).then
      (currentShare g n isAddr child ((Node.mk n child sibling).dataType g))).then
        (sibling.share g nodeValue)

def statementsShare (g : Globals) : Node → Share
  | .null => {}
  | .mk n child sibling =>
    (((Node.mk n child .null).share g nodeValue).then
      (if sibling = .null then {} else ⟨1, [-1]⟩)).then (statementsShare g sibling)

def Share.of (ops : Ops) : Share := ⟨opsBytes ops, opsMoves ops⟩

theorem Share.of_append (first second : Ops) : Share.of (first ++ second) = (Share.of first).then (Share.of second) := by
  simp only [Share.of, Share.then, opsBytes_append, opsMoves_append]

section ops
variable {g : Globals} {n : Attr} {isAddr : Byte}

theorem of_idOps : Share.of (idOps g n isAddr) = idShare g n := by
  unfold idOps idShare
  split
  · cases n.id <;> rfl
  · cases g.typed? n with
    | none => rfl
    | some found =>
      simp only
      cases found.1.width? with
      | none => rfl
      | some w => cases w <;> (simp only; split <;> rfl)

theorem of_widthOps {ops : Width → List Op} {share : Width → Share}
    (same : ∀ w, Share.of (plain (ops w)) = share w) (dataType : Byte) :
    Share.of (widthOps ops dataType) = widthShare share dataType := by
  unfold widthOps widthShare
  cases width? dataType with
  | none => rfl
  | some w => exact same w

theorem of_assignOps (child : Node) : Share.of (assignOps g child) = assignShare g child := by
  unfold assignOps assignShare
  cases child.attr? with
  | none => rfl
  | some c =>
    simp only
    split
    · exact of_widthOps (fun _ => rfl) _
    · rfl

theorem of_stepOps {ops : Width → List Op} {share : Width → Share}
    (same : ∀ w, Share.of (plain (ops w)) = share w) (child : Node) (dataType : Byte) :
    Share.of (stepOps ops child dataType) = stepShare share child dataType := by
  unfold stepOps stepShare
  cases child.attr? with
  | none => rfl
  | some c =>
    simp only
    split
    · exact of_widthOps same _
    · rfl

theorem of_funcOps (child : Node) : Share.of (funcOps child) = funcShare child := by
  cases child with
  | null => rfl
  | mk c first rest => simp [funcOps, funcShare, Share.of, opsBytes, opsMoves, Op.moves, Op.operands]

theorem of_getvalueOps (dataType : Byte) :
    Share.of (getvalueOps n isAddr dataType) = getvalueShare n isAddr dataType := by
  unfold getvalueOps getvalueShare
  split
  · rfl
  · exact of_widthOps (fun _ => rfl) _

theorem of_preStepOps (op : Arith) (w : Width) : Share.of (plain (preStepOps op w)) = preStepShare w := by
  cases w <;> rfl

theorem of_postStepOps (op : Arith) (w : Width) : Share.of (plain (postStepOps op w)) = postStepShare w := by
  cases w <;> rfl

theorem of_currentOps (child : Node) (dataType : Byte) :
    Share.of (currentOps g n isAddr child dataType) = currentShare g n isAddr child dataType := by
  unfold currentOps currentShare
  cases n.nodeType with
  | id => exact of_idOps
  | sys op => exact of_widthOps (fun _ => rfl) _
  | sysBitwise => exact of_widthOps (fun _ => rfl) _
  | sysFunc => exact of_funcOps child
  | sysAssign => exact of_assignOps child
  | sysPreinc => exact of_stepOps (of_preStepOps .add) child _
  | sysPredec => exact of_stepOps (of_preStepOps .sub) child _
  | sysInc => exact of_stepOps (of_postStepOps .add) child _
  | sysDec => exact of_stepOps (of_postStepOps .sub) child _
  | sysGetvalue => exact of_getvalueOps _
  | _ => rfl

theorem of_ops (node : Node) : Share.of (node.ops g isAddr) = node.share g isAddr := by
  induction node generalizing isAddr with
  | null => rfl
  | mk n child sibling ihc ihs =>
    rw [Node.ops, Node.share, Share.of_append, Share.of_append, ihc, ihs, of_currentOps]

theorem of_statementsOps (root : Node) : Share.of (statementsOps g root) = statementsShare g root := by
  induction root with
  | null => rfl
  | mk n child sibling _ ih =>
    rw [statementsOps, statementsShare, Share.of_append, Share.of_append, of_ops, ih]
    split <;> rfl

end ops

theorem statements_code (g : Globals) (root : Node) :
    let code := compileStatements g (finshTypeCheck g root nodeValue)
    code.length = (statementsShare g root).bytes ∧ ∃ ops, Spells code ops ∧
      opsMoves ops = (statementsShare g root).moves := by
  have spells := spells_statements (g := g) root
  have share := of_statementsOps (g := g) root
  exact ⟨spells.length.trans (congrArg Share.bytes share), _, spells, congrArg Share.moves share⟩

end RtThread.Finsh
