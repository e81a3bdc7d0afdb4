import RtThread.Bytes

/-! The finsh compiler: the syntax tree as first child and next sibling, the pass that marks
addresses and data types, and the byte code that finsh_compile emits. finsh_error_set only leaves
a number for the shell to print; where the compiler calls it no code is emitted. -/
namespace RtThread.Finsh
open Bytes

/-- A long, a pointer, and a whole finsh_value. -/
abbrev Long := BitVec 32

def textMax : Nat := 128

def stackMax : Nat := 64

def variableMax : Nat := 8

/-- The suffixes _BYTE, _WORD and _DWORD. -/
inductive Width where
  | byte
  | word
  | dword

def Width.size : Width → Nat
  | .byte => 1
  | .word => 2
  | .dword => 4

/-- The place of a width in the three opcodes of an operation. -/
def Width.rank : Width → Nat
  | .byte => 0
  | .word => 1
  | .dword => 2

/-- The operations that OP_BIN_BYTE, OP_BIN_WORD and OP_BIN_DWORD are used for. -/
inductive Arith where
  | add
  | sub
  | div
  | mod
  | mul
  | and
  | or
  | xor
  | shl
  | shr
  deriving DecidableEq

/-- The FINSH_OP_ codes. -/
inductive Op where
  | noop
  | bin (op : Arith) (w : Width)
  | bitwise (w : Width)
  | ld (w : Width)
  | ldValue (w : Width)
  | st (w : Width)
  | pop
  | syscall
  | ldValueStack (w : Width)

def Arith.code : Arith → Nat
  | .add => 0x01
  | .sub => 0x04
  | .div => 0x07
  | .mod => 0x0A
  | .mul => 0x0D
  | .and => 0x10
  | .or => 0x13
  | .xor => 0x16
  | .shl => 0x1C
  | .shr => 0x1F

def Op.code : Op → Byte
  | .noop => 0x00
  | .bin op w => BitVec.ofNat 8 (op.code + w.rank)
  | .bitwise w => BitVec.ofNat 8 (0x19 + w.rank)
  | .ld w => BitVec.ofNat 8 (0x22 + w.rank)
  | .ldValue w => BitVec.ofNat 8 (0x25 + w.rank)
  | .st w => BitVec.ofNat 8 (0x28 + w.rank)
  | .pop => 0x2B
  | .syscall => 0x2C
  | .ldValueStack w => BitVec.ofNat 8 (0x2D + w.rank)

/-- enum finsh_type. -/
inductive FinshType where
  | unknown
  | void
  | voidp
  | char
  | uchar
  | charp
  | short
  | ushort
  | shortp
  | int
  | uint
  | intp
  | long
  | ulong
  | longp
  deriving DecidableEq

/-- The FINSH_NODE_ kinds. -/
inductive NodeType where
  | unknown
  | id
  | valueChar
  | valueInt
  | valueLong
  | valueString
  | valueNull
  | sys (op : Arith)
  | sysBitwise
  | sysFunc
  | sysAssign
  | sysCast
  | sysPreinc
  | sysPredec
  | sysInc
  | sysDec
  | sysGetvalue
  | sysGetaddr
  | sysNull
  deriving DecidableEq

def dataTypeVoid : Byte := 0x00
def dataTypeByte : Byte := 0x01
def dataTypeWord : Byte := 0x02
def dataTypeDword : Byte := 0x03

def nodeValue : Byte := 0

def idtypeVar : Byte := 0x01
def idtypeSysvar : Byte := 0x02
def idtypeSyscall : Byte := 0x04
def idtypeAddress : Byte := 0x08

/-- The union id: an entry of global_variable, or a finsh_sysvar or finsh_syscall at an address. -/
inductive Ident where
  | null
  | var (x : Fin variableMax)
  | sysvar (self : Long) (type : FinshType) (var : Long)
  | syscall (self func : Long)
  deriving DecidableEq

/-- A finsh_node without its links. -/
structure Attr where
  nodeType : NodeType
  dataType : Byte := dataTypeVoid
  idtype : Byte := 0
  value : Long := 0
  id : Ident := .null
  deriving DecidableEq

inductive Node where
  | null
  | mk (attr : Attr) (child sibling : Node)
  deriving DecidableEq

def Node.attr? : Node → Option Attr
  | .null => none
  | .mk attr _ _ => some attr

def Node.siblings : Node → Nat
  | .null => 0
  | .mk _ _ sibling => sibling.siblings + 1

/-- sizeof(struct finsh_var), and the offset of its value. -/
def varSize : Nat := 24
def valueOffset : Nat := 20

/-- The types in global_variable, and where the table lies. -/
structure Globals where
  types : Fin variableMax → FinshType
  base : Nat
  inside : base + varSize * variableMax ≤ 2 ^ 32

/-- The address that the union holds. -/
def Globals.pointer (g : Globals) : Ident → Long
  | .null => 0
  | .var x => BitVec.ofNat 32 (g.base + varSize * x)
  | .sysvar self _ _ => self
  | .syscall self _ => self

/-- &(id.var->value), whatever the union holds. -/
def Globals.valueAddr (g : Globals) (id : Ident) : Long := g.pointer id + BitVec.ofNat 32 valueOffset

/-- The type and the address of an identifier that is no system call. -/
def Globals.typed? (g : Globals) (n : Attr) : Option (FinshType × Long) :=
  if n.idtype &&& idtypeSysvar ≠ 0 then
    match n.id with
    | .sysvar _ type var => some (type, var)
    | _ => none
  else
    match n.id with
    | .var x => some (g.types x, g.valueAddr (.var x))
    | _ => none

/-- The width at which finsh_compile loads a variable. -/
def FinshType.width? : FinshType → Option Width
  | .char | .uchar => some .byte
  | .short | .ushort => some .word
  | .int | .uint | .long | .ulong | .charp | .shortp | .intp | .longp => some .dword
  | .unknown | .void | .voidp => none

/-- The data type that finsh_type_check gives a variable, none for FINSH_ERROR_UNKNOWN_TYPE. -/
def FinshType.dataType? : FinshType → Option Byte
  | .void => some dataTypeVoid
  | .char | .uchar => some dataTypeByte
  | .short | .ushort => some dataTypeWord
  | .int | .uint | .long | .ulong => some dataTypeDword
  | .charp | .voidp | .shortp | .intp | .longp => some dataTypeDword
  | .unknown => none

def width? (dataType : Byte) : Option Width :=
  if dataType = dataTypeByte then some .byte
  else if dataType = dataTypeWord then some .word
  else if dataType = dataTypeDword then some .dword
  else none

/- What the compiler emits for an opcode with its operand. -/
def ld (w : Width) (v : Long) : List Byte := (Op.ld w).code :: toBytes w.size v
def ldValue (w : Width) (a : Long) : List Byte := (Op.ldValue w).code :: toBytes 4 a

/-- An opcode chosen by a data type, nothing for a type without a width. -/
def codeByWidth (op : Width → Op) (dataType : Byte) : List Byte :=
  match width? dataType with
  | some w => [(op w).code]
  | none => []

def compileId (g : Globals) (n : Attr) : List Byte :=
  if n.idtype &&& idtypeSyscall ≠ 0 then
    match n.id with
    | .syscall _ func => ld .dword func
    | _ => []
  else
    match g.typed? n with
    | none => []
    | some (type, a) =>
      match type.width? with
      | none => []
      | some w => if n.idtype &&& idtypeAddress ≠ 0 then ld .dword a else ldValue w a

def compileAssign (child : Node) : List Byte :=
  match child.attr? with
  | none => []
  | some c =>
    let dataType := if c.nodeType = .id then c.dataType else c.dataType &&& 0x0F
    if c.nodeType = .id ∨ c.nodeType = .sysGetvalue then
      match width? dataType with
      | some w => [(Op.st w).code, (Op.ldValueStack w).code]
      | none => []
    else []

/-- The child has left the address; the value is reloaded as a dword at every width. -/
def preStep (op : Arith) (w : Width) (a : Long) : List Byte :=
  ldValue w a ++ ld w 1 ++ [(Op.bin op w).code, (Op.st w).code, (Op.ldValueStack .dword).code]

/-- The child has left the old value. -/
def postStep (op : Arith) (w : Width) (a : Long) : List Byte :=
  ld .dword a ++ ldValue w a ++ ld w 1 ++ [(Op.bin op w).code, (Op.st w).code, Op.pop.code]

def compileStep (step : Arith → Width → Long → List Byte) (op : Arith) (g : Globals) (n : Attr)
    (child : Node) : List Byte :=
  match child.attr? with
  | none => []
  | some c =>
    if c.nodeType = .id then
      match width? n.dataType with
      | some w => step op w (g.valueAddr c.id)
      | none => []
    else []

def compileFunc (child : Node) : List Byte :=
  match child with
  | .null => []
  | .mk _ _ sibling => [Op.syscall.code, BitVec.ofNat 8 sibling.siblings]

def compileGetvalue (n : Attr) : List Byte :=
  if n.idtype &&& idtypeAddress ≠ 0 then [] else codeByWidth .ldValueStack n.dataType

/-- The switch over the current node. -/
def compileCurrent (g : Globals) (n : Attr) (child : Node) : List Byte :=
  match n.nodeType with
  | .id => compileId g n
  | .valueChar => ld .byte n.value
  | .valueInt | .valueLong => ld .dword n.value
  | .valueNull | .valueString => ld .dword n.value
  | .sys op => codeByWidth (.bin op) n.dataType
  | .sysBitwise => codeByWidth .bitwise n.dataType
  | .sysFunc => compileFunc child
  | .sysAssign => compileAssign child
  | .sysPreinc => compileStep preStep .add g n child
  | .sysPredec => compileStep preStep .sub g n child
  | .sysInc => compileStep postStep .add g n child
  | .sysDec => compileStep postStep .sub g n child
  | .sysNull => toBytes 4 (0 : Long)
  | .sysGetvalue => compileGetvalue n
  | .sysGetaddr => []
  | .sysCast | .unknown => []

/-- finsh_compile: what it writes at finsh_compile_pc. -/
def finshCompile (g : Globals) : Node → List Byte
  | .null => []
  | .mk n child sibling =>
    finshCompile g child ++ compileCurrent g n child ++ finshCompile g sibling

/-- The attribute that finsh_type_check hands down to the child. -/
def childAddr (nodeType : NodeType) (isAddr : Byte) : Byte :=
  match nodeType with
  | .sysAssign | .sysPreinc | .sysPredec | .sysGetaddr => idtypeAddress
  | .sysGetvalue => if isAddr ≠ 0 then 0 else isAddr
  | _ => isAddr

def leafDataType (g : Globals) (n : Attr) : Byte :=
  match n.nodeType with
  | .id =>
    if n.idtype &&& idtypeVar ≠ 0 then
      match n.id with
      | .var x => (g.types x).dataType?.getD n.dataType
      | _ => n.dataType
    else if n.idtype &&& idtypeSysvar ≠ 0 then
      match n.id with
      | .sysvar _ type _ => type.dataType?.getD n.dataType
      | _ => n.dataType
    else n.dataType
  | .valueChar => dataTypeByte
  | .valueInt | .valueLong | .valueString | .valueNull => dataTypeDword
  | _ => n.dataType

def checkedAttr (g : Globals) (n : Attr) (isAddr : Byte) (child : Node) : Attr :=
  let n := { n with idtype := if n.idtype ≠ idtypeSyscall then n.idtype ||| isAddr else n.idtype }
  match child.attr? with
  | some c => { n with dataType := c.dataType }
  | none => { n with dataType := leafDataType g n }

def finshTypeCheck (g : Globals) : Node → Byte → Node
  | .null, _ => .null
  | .mk n child sibling, isAddr =>
    let child := finshTypeCheck g child (childAddr n.nodeType isAddr)
    .mk (checkedAttr g n isAddr child) child (finshTypeCheck g sibling nodeValue)

/-- The loop of finsh_compiler_run over the statements, each cut off from the next. -/
def compileStatements (g : Globals) : Node → List Byte
  | .null => []
  | .mk n child sibling =>
    finshCompile g (.mk n child .null) ++ (if sibling = .null then [] else [Op.pop.code]) ++
      compileStatements g sibling

/-- text_segment. -/
structure Text where
  bytes : List Byte
  size : bytes.length = textMax

/-- The code in a cleared segment, none if the compiler writes past its end. -/
def Text.ofCode (code : List Byte) : Option Text :=
  if fits : code.length ≤ textMax then
    some ⟨code ++ List.replicate (textMax - code.length) 0, by simp; omega⟩
  else none

theorem Text.ofCode_bytes {code : List Byte} {text : Text} (made : Text.ofCode code = some text) :
    text.bytes = code ++ List.replicate (textMax - code.length) 0 ∧ code.length ≤ textMax := by
  unfold Text.ofCode at made
  split at made
  · rename_i fits
    cases made
    exact ⟨rfl, fits⟩
  · contradiction

end RtThread.Finsh
