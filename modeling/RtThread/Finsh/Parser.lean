import RtThread.Finsh.Token

/-! finsh_parser_run. A recursive descent that has used up its fuel has no result: the parser does
not come back from some lines without a semicolon at their end. -/
namespace RtThread.Finsh
open Bytes

def nodeMax : Nat := 16

/-- A finsh_var without its value. -/
structure Variable where
  name : Chars := []
  type : FinshType := .unknown

abbrev Variables := Fin variableMax → Variable

structure Sysvar where
  self : Long
  name : Chars
  type : FinshType
  var : Long

structure Syscall where
  self : Long
  name : Chars
  func : Long

/-- The tables of the linker, the lists of what was appended to them, and where finsh_heap_allocate
puts a string of so many bytes when so many nodes are in use. -/
structure Symbols where
  sysvarTable : List Sysvar := []
  sysvarList : List Sysvar := []
  syscallTable : List Syscall := []
  syscallList : List Syscall := []
  heapAllocate : Nat → Nat → Long := fun _ _ => 0

/-- Exactly in the table, then by strncmp over the length of `name` in the list. -/
def lookupSymbol {α : Type} (name : Chars) (nameOf : α → Chars) (table list : List α) : Option α :=
  (table.find? (fun e => nameOf e = name)).or (list.find? (fun e => name.isPrefixOf (nameOf e)))

def Symbols.finshSysvarLookup (y : Symbols) (name : Chars) : Option Sysvar :=
  lookupSymbol name Sysvar.name y.sysvarTable y.sysvarList

def Symbols.finshSyscallLookup (y : Symbols) (name : Chars) : Option Syscall :=
  lookupSymbol name Syscall.name y.syscallTable y.syscallList

def sameName (a b : Chars) : Bool := a.take nameMax = b.take nameMax

def finshVarLookup (vars : Variables) (name : Chars) : Option (Fin variableMax) :=
  (List.finRange variableMax).find? (fun x => sameName (vars x).name name)

/-- none for -1. -/
def finshVarInsert (vars : Variables) (name : Chars) (type : FinshType) : Option Variables :=
  if (finshVarLookup vars name).isSome then none
  else
    ((List.finRange variableMax).find? (fun x => (vars x).type = .unknown)).map (fun empty =>
      fun x => if x = empty then { name := name.take nameMax, type } else vars x)

/-- The number of a finsh_type. -/
def FinshType.number : FinshType → Byte
  | .unknown => 0
  | .void => 1
  | .voidp => 2
  | .char => 3
  | .uchar => 4
  | .charp => 5
  | .short => 6
  | .ushort => 7
  | .shortp => 8
  | .int => 9
  | .uint => 10
  | .intp => 11
  | .long => 12
  | .ulong => 13
  | .longp => 14

def TokenType.baseType? : TokenType → Option FinshType
  | .void => some .void
  | .char => some .char
  | .short => some .short
  | .int => some .int
  | .long => some .long
  | _ => none

/-- There is no unsigned void. -/
def TokenType.unsignedType? : TokenType → Option FinshType
  | .char => some .uchar
  | .short => some .ushort
  | .int => some .uint
  | .long => some .ulong
  | _ => none

def FinshType.pointer : FinshType → FinshType
  | .char | .uchar => .charp
  | .short | .ushort => .shortp
  | .int | .uint => .intp
  | .long | .ulong => .longp
  | _ => .voidp

def Node.isNull : Node → Bool
  | .null => true
  | .mk .. => false

def Node.withSibling : Node → Node → Node
  | .null, _ => .null
  | .mk a child _, sibling => .mk a child sibling

def Node.sibling : Node → Node
  | .null => .null
  | .mk _ _ sibling => sibling

def Node.withDataType : Node → Byte → Node
  | .null, _ => .null
  | .mk a child sibling, dataType => .mk { a with dataType } child sibling

def linked (nodes : List Node) (rest : Node) : Node := nodes.foldr Node.withSibling rest

/-- What a line changes: the token, the entries of global_node_table in use, and global_variable. -/
structure Parser where
  token : Token
  vars : Variables
  nodes : Nat := 0
  room : nodes ≤ nodeMax := by decide

abbrev Parse := StateT Parser Option

namespace Parse

def fail (e : FinshError) : Parse Unit := modify (fun s => { s with token := s.token.fail e })
def nextToken : Parse TokenType := modifyGet (fun s => (s.token.next.1, { s with token := s.token.next.2 }))
def replay : Parse Unit := modify (fun s => { s with token := s.token.again })
def stuck {α : Type} : Parse α := fun _ => none

def checkToken (token type : TokenType) : Parse Unit := do
  if token ≠ type then
    fail .invalidToken
    replay

def matchToken (type : TokenType) : Parse Unit := do
  let token ← nextToken
  checkToken token type

/-- finsh_node_allocate: whether there was an empty entry. -/
def finshNodeAllocate : Parse Bool := fun s =>
  if empty : s.nodes < nodeMax then some (true, { s with nodes := s.nodes + 1, room := empty })
  else some (false, s)

def finshNodeNew (a : Attr) : Parse Node := do
  if ← finshNodeAllocate then return .mk a .null .null
  else
    fail .memoryFull
    return .null

def finshNodeNewChar (c : Long) : Parse Node := finshNodeNew { nodeType := .valueChar, value := c }
def finshNodeNewInt (i : Long) : Parse Node := finshNodeNew { nodeType := .valueInt, value := i }
def finshNodeNewLong (l : Long) : Parse Node := finshNodeNew { nodeType := .valueLong, value := l }
def finshNodeNewPtr (p : Long) : Parse Node := finshNodeNew { nodeType := .valueNull, value := p }

def finshNodeNewString (y : Symbols) (cs : Chars) : Parse Node := do
  let s ← get
  let strlen := (cs.takeWhile (· ≠ 0)).length
  finshNodeNew { nodeType := .valueString, value := y.heapAllocate s.nodes (strlen + 1) }

def identOf (y : Symbols) (vars : Variables) (name : Chars) : Option (Byte × Ident) :=
  match finshVarLookup vars name with
  | some x => some (idtypeVar, .var x)
  | none =>
    match y.finshSysvarLookup name with
    | some v => some (idtypeSysvar, .sysvar v.self v.type v.var)
    | none => (y.finshSyscallLookup name).map (fun c => (idtypeSyscall, .syscall c.self c.func))

def finshNodeNewId (y : Symbols) (name : Chars) : Parse Node := do
  let s ← get
  match identOf y s.vars name with
  | some (idtype, id) => finshNodeNew { nodeType := .id, idtype, id }
  | none =>
    fail .unknownSymbol
    return .null

def makeSysNode (nodeType : NodeType) (node1 node2 : Node) : Parse Node := do
  let got ← finshNodeAllocate
  if got ∧ !node1.isNull then return .mk { nodeType } (node1.withSibling node2) .null
  else
    fail .nullNode
    return if got then .mk { nodeType } .null .null else .null

/-- The end of proc_type. -/
def procPointer (type : FinshType) : Parse FinshType := do
  let token ← nextToken
  if token = .mul then return type.pointer
  else
    replay
    return type

def noType : Parse FinshType := do
  replay
  fail .unknownType
  return .unknown

def procType : Parse FinshType := do
  let token ← nextToken
  match token.baseType? with
  | some type => procPointer type
  | none =>
    if token = .unsigned then
      let token ← nextToken
      match token.unsignedType? with
      | some type => procPointer type
      | none =>
        if token.baseType?.isSome then noType
        else
          replay
          fail .expectType
          procPointer .unknown
    else noType

def procIdentifier : Parse Chars := do
  matchToken .identifier
  let s ← get
  return s.token.string.take nameMax

def binaryLoop (ops : TokenType → Option Arith) (operand : Parse Node) :
    Nat → TokenType → Node → Parse Node
  | 0, _, _ => stuck
  | fuel + 1, token, left =>
    match ops token with
    | none => do
      replay
      return left
    | some op => do
      let right ← operand
      let left ← if right.isNull then do
          fail .expectOperator
          pure left
        else makeSysNode (.sys op) left right
      let token ← nextToken
      binaryLoop ops operand fuel token left

def binary (fuel : Nat) (ops : TokenType → Option Arith) (operand : Parse Node) : Parse Node := do
  let left ← operand
  let token ← nextToken
  binaryLoop ops operand fuel token left

def mulOps : TokenType → Option Arith
  | .mul => some .mul
  | .div => some .div
  | .mod => some .mod
  | _ => none

def addOps : TokenType → Option Arith
  | .sub => some .sub
  | .add => some .add
  | _ => none

def shiftOps : TokenType → Option Arith
  | .shl => some .shl
  | .shr => some .shr
  | _ => none

def single (token : TokenType) (op : Arith) (t : TokenType) : Option Arith :=
  if t = token then some op else none

section levels
variable (y : Symbols) (fuel : Nat) (procAssignExpr procCastExpr : Parse Node)

def procMultiplicativeExpr : Parse Node := binary fuel mulOps procCastExpr
def procAdditiveExpr : Parse Node := binary fuel addOps (procMultiplicativeExpr fuel procCastExpr)
def procShiftExpr : Parse Node := binary fuel shiftOps (procAdditiveExpr fuel procCastExpr)
def procAndExpr : Parse Node := binary fuel (single .and .and) (procShiftExpr fuel procCastExpr)
def procExclusiveOrExpr : Parse Node := binary fuel (single .xor .xor) (procAndExpr fuel procCastExpr)
def procInclusiveOrExpr : Parse Node := binary fuel (single .or .or) (procExclusiveOrExpr fuel procCastExpr)

def paramLoop : Nat → TokenType → List Node → Parse Node
  | 0, _, _ => stuck
  | fuel + 1, token, params =>
    if token = .comma then do
      let assign ← procAssignExpr
      let params ← if assign.isNull then do
          fail .expectOperator
          pure params
        else pure (params ++ [assign])
      let token ← nextToken
      paramLoop fuel token params
    else do
      replay
      return linked params .null

def procParamList : Parse Node := do
  let assign ← procAssignExpr
  if assign.isNull then return .null
  else
    let token ← nextToken
    paramLoop procAssignExpr fuel token [assign]

def procPrimaryExpr : Parse Node := do
  let token ← nextToken
  let t := (← get).token
  match token with
  | .identifier =>
    replay
    let id ← procIdentifier
    finshNodeNewId y id
  | .leftParen =>
    let expr ← procAssignExpr
    matchToken .rightParen
    return expr
  | .valueInt => finshNodeNewInt t.value
  | .valueLong => finshNodeNewLong t.value
  | .valueChar => finshNodeNewChar t.value
  | .valueString => finshNodeNewString y t.string
  | .valueNull => finshNodeNewPtr 0
  | _ =>
    fail .invalidToken
    return .null

def procParams : Parse Node := do
  let token ← nextToken
  if token ≠ .rightParen then
    replay
    let params ← procParamList fuel procAssignExpr
    matchToken .rightParen
    return params
  else return .null

def postfixLoop : Nat → TokenType → Node → Parse Node
  | 0, _, _ => stuck
  | more + 1, token, node =>
    match token with
    | .inc => do
      let node ← makeSysNode .sysInc node .null
      let token ← nextToken
      postfixLoop more token node
    | .dec => do
      let node ← makeSysNode .sysDec node .null
      let token ← nextToken
      postfixLoop more token node
    | .leftParen => do
      let params ← procParams fuel procAssignExpr
      let node ← makeSysNode .sysFunc node params
      let token ← nextToken
      postfixLoop more token node
    | _ => do
      replay
      return node

def procPostfixExpr : Parse Node := do
  let node ← procPrimaryExpr y procAssignExpr
  let token ← nextToken
  postfixLoop fuel procAssignExpr fuel token node

def procUnaryExpr : Parse Node := do
  let token ← nextToken
  match token with
  | .add => procCastExpr
  | .inc =>
    let cast ← procCastExpr
    makeSysNode .sysPreinc cast .null
  | .sub =>
    let cast ← procCastExpr
    let zero ← finshNodeNewLong 0
    makeSysNode (.sys .sub) zero cast
  | .dec =>
    let cast ← procCastExpr
    makeSysNode .sysPredec cast .null
  | .bitwise =>
    let cast ← procCastExpr
    makeSysNode .sysBitwise cast .null
  | .mul =>
    let cast ← procCastExpr
    makeSysNode .sysGetvalue cast .null
  | .and =>
    let cast ← procCastExpr
    makeSysNode .sysGetaddr cast .null
  | _ =>
    replay
    procPostfixExpr y fuel procAssignExpr

/-- proc_cast_expr, from itself and proc_assign_expr with less fuel. -/
def castStep : Parse Node := do
  let token ← nextToken
  let cast ← if token = .leftParen then do
      let type ← procType
      matchToken .rightParen
      let cast ← procCastExpr
      pure (cast.withDataType type.number)
    else pure .null
  if cast.isNull then
    replay
    procUnaryExpr y fuel procAssignExpr procCastExpr
  else return cast

/-- proc_assign_expr, likewise. -/
def assignStep : Parse Node := do
  let or ← procInclusiveOrExpr fuel procCastExpr
  let token ← nextToken
  if token = .assign then
    let assign ← procAssignExpr
    makeSysNode .sysAssign or assign
  else
    replay
    return or

end levels

/-- proc_assign_expr and proc_cast_expr. -/
def exprs (y : Symbols) : Nat → Parse Node × Parse Node
  | 0 => (stuck, stuck)
  | fuel + 1 =>
    let (procAssignExpr, procCastExpr) := exprs y fuel
    (assignStep fuel procAssignExpr procCastExpr, castStep y fuel procAssignExpr procCastExpr)

def procExpr (y : Symbols) (fuel : Nat) : Parse Node := (exprs y fuel).1

/-- proc_identifier and finsh_var_insert. -/
def declare (type : FinshType) : Parse Chars := do
  let id ← procIdentifier
  modify (fun s =>
    match finshVarInsert s.vars id type with
    | none => { s with token := s.token.fail .variableExist }
    | some vars => { s with vars })
  return id

section declarations
variable (y : Symbols) (fuel : Nat)

/-- `= expr_assign` behind an identifier, if there is one; the token behind it. -/
def initializer (id : Chars) (token : TokenType) (nodes : List Node) : Parse (List Node × TokenType) := do
  let assign ← if token = .assign then procExpr y fuel else pure .null
  if assign.isNull then return (nodes, token)
  else
    let idnode ← finshNodeNewId y id
    let last ← makeSysNode .sysAssign idnode assign
    let token ← nextToken
    return (nodes ++ [last], token)

def declarators (type : FinshType) : Nat → TokenType → List Node → Parse Node
  | 0, _, _ => stuck
  | more + 1, token, nodes =>
    if token = .comma then do
      let id ← declare type
      let token ← nextToken
      let (nodes, token) ← initializer y fuel id token nodes
      declarators type more token nodes
    else do
      checkToken token .semicolon
      return linked nodes .null

def procVariableDecl : Parse Node := do
  let type ← procType
  let id ← declare type
  let token ← nextToken
  match token with
  | .comma => declarators y fuel type fuel token []
  | .assign =>
    let (nodes, token) ← initializer y fuel id token []
    declarators y fuel type fuel token nodes
  | .semicolon => return .null
  | _ =>
    fail .expectType
    return .null

def procExprStatement : Parse Node := do
  let token ← nextToken
  if token ≠ .semicolon then
    replay
    let expr ← procExpr y fuel
    matchToken .semicolon
    return expr
  else return .null

def procStatement (token : TokenType) : Parse Node := do
  replay
  if token.baseType?.isSome ∨ token = .unsigned then procVariableDecl y fuel
  else procExprStatement y fuel

/-- An empty statement that starts neither with an identifier nor with a type takes one more token. -/
def skipToken (token : TokenType) : Parse Unit := do
  if token ≠ .identifier ∧ token.baseType?.isNone ∧ token ≠ .unsigned then
    let _ ← nextToken
    return ()

/-- The loop of finsh_parser_run. The root goes from the first of `nodes` to the last, which is
`node` there, and on to `rest`: after a declaration of several variables `node` is the first of them. -/
def runLoop : Nat → TokenType → List Node → Node → Parse Node
  | 0, _, _, _ => stuck
  | more + 1, token, nodes, rest =>
    if token = .eof ∨ token = .bad then return linked nodes rest
    else do
      let made ← procStatement y fuel token
      if made.isNull then
        if nodes.isEmpty then return .null
        else
          skipToken token
          let token ← nextToken
          runLoop more token nodes .null
      else
        let token ← nextToken
        runLoop more token (nodes ++ [made]) made.sibling

end declarations

end Parse

/-- finsh_parser_run after a finsh_flush: the root, and what is left of the line, the node table and
the variables. -/
def finshParserRun (y : Symbols) (fuel : Nat) (line : Line) (vars : Variables) :
    Option (Node × Parser) :=
  (do
    let token ← Parse.nextToken
    Parse.runLoop y fuel fuel token [] .null : Parse Node).run
      { token := { line := line.chars }, vars }

end RtThread.Finsh
