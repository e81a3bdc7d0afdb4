import RtThread.Budget
import RtThread.Finsh.Parser

/-! The root that a line leaves never has more nodes than the node table. -/
namespace RtThread.Finsh
open Budget Parse Bytes

def Node.count : Node → Nat
  | .null => 0
  | .mk _ child sibling => child.count + sibling.count + 1

/-- The nodes of a node without what is linked behind it. -/
def Node.ownCount : Node → Nat
  | .null => 0
  | .mk _ child _ => child.count + 1

theorem Node.count_withSibling (node sibling : Node) :
    (node.withSibling sibling).count ≤ node.ownCount + sibling.count := by
  cases node with
  | null => exact Nat.zero_le _
  | mk a child old => simp only [Node.withSibling, Node.count, Node.ownCount]; lia

theorem Node.ownCount_sibling (node : Node) : node.ownCount + node.sibling.count = node.count := by
  cases node with
  | null => rfl
  | mk a child sibling => simp only [Node.sibling, Node.count, Node.ownCount]; lia

theorem Node.count_withDataType (node : Node) (dataType : Byte) :
    (node.withDataType dataType).count = node.count := by
  cases node <;> rfl

def totalCount (nodes : List Node) : Nat := (nodes.map Node.ownCount).sum

theorem totalCount_append (nodes : List Node) (node : Node) :
    totalCount (nodes ++ [node]) = totalCount nodes + node.ownCount := by
  simp [totalCount]

theorem totalCount_append_le (nodes : List Node) (node : Node) :
    totalCount (nodes ++ [node]) ≤ node.count + totalCount nodes := by
  have behind := node.ownCount_sibling
  rw [totalCount_append]
  lia

theorem count_linked (nodes : List Node) (rest : Node) :
    (linked nodes rest).count ≤ totalCount nodes + rest.count := by
  induction nodes with
  | nil => simp [linked, totalCount]
  | cons node nodes ih =>
    have first := Node.count_withSibling node (linked nodes rest)
    simp only [linked, List.foldr_cons, totalCount, List.map_cons, List.sum_cons] at first ih ⊢
    lia

/-- The nodes of what `p` makes are among `owned` nodes and those that it takes from the table. -/
abbrev Makes (p : Parse Node) (owned : Nat) : Prop := Spends Parser.nodes p Node.count owned

/-- `p` takes nodes for nothing it returns. -/
abbrev Plain {α : Type} (p : Parse α) : Prop := Spends Parser.nodes p (fun _ => 0) 0

section steps
variable {owned : Nat}

theorem plain_fail (e : FinshError) : Plain (Parse.fail e) := Spends.modify (fun _ => rfl)
theorem plain_replay : Plain replay := Spends.modify (fun _ => rfl)
theorem plain_nextToken : Plain nextToken := Spends.modifyGet (fun _ => rfl)

theorem plain_pure {α : Type} (a : α) : Plain (pure a) := Spends.pure (Nat.le_refl _)

theorem makes_null : Makes (pure .null) owned := Spends.pure (Nat.zero_le _)

theorem makes_stuck : Makes stuck owned := by
  intro s r s' done
  cases done

theorem Plain.then {α β : Type} {p : Parse α} {f : α → Parse β} {held : β → Nat} (first : Plain p)
    (rest : ∀ a, Spends Parser.nodes (f a) held owned) : Spends Parser.nodes (p >>= f) held owned :=
  first.carry (fun a => (rest a).mono (Nat.le_add_left _ _))

theorem plain_checkToken (token type : TokenType) : Plain (checkToken token type) :=
  Spends.ite (fun _ => (plain_fail _).then (fun _ => plain_replay)) (fun _ => plain_pure _)

theorem plain_matchToken (type : TokenType) : Plain (matchToken type) :=
  plain_nextToken.then (fun token => plain_checkToken token type)

theorem spends_allocate :
    Spends Parser.nodes finshNodeAllocate (fun got => if got then 1 else 0) 0 := by
  intro s r s' done
  unfold finshNodeAllocate at done
  split at done
  · cases done; simp; lia
  · cases done; simp

theorem makes_new (a : Attr) : Makes (finshNodeNew a) 0 := by
  refine spends_allocate.carry (fun got => ?_)
  cases got with
  | true => exact Spends.pure (Nat.le_refl 1)
  | false => exact (plain_fail _).then (fun _ => makes_null)

theorem makes_newString (y : Symbols) (cs : Chars) : Makes (finshNodeNewString y cs) 0 :=
  Spends.get (fun _ => makes_new _)

theorem makes_newId (y : Symbols) (name : Chars) : Makes (finshNodeNewId y name) 0 := by
  refine Spends.get (fun s => ?_)
  cases identOf y s.vars name with
  | none => exact (plain_fail _).then (fun _ => makes_null)
  | some found => exact makes_new _

theorem makes_sys (nodeType : NodeType) (node1 node2 : Node) :
    Makes (makeSysNode nodeType node1 node2) (node1.count + node2.count) := by
  refine spends_allocate.carry (fun got => Spends.ite (fun both => ?_) (fun _ => ?_))
  · have within := Node.count_withSibling node1 node2
    have behind := node1.ownCount_sibling
    refine Spends.pure ?_
    simp only [both.1, Node.count, if_true]
    lia
  · refine (plain_fail _).then (fun _ => Spends.pure ?_)
    cases got with
    | true => simp only [if_true, Node.count]; lia
    | false => exact Nat.zero_le _

theorem makes_linked {nodes : List Node} (covered : totalCount nodes ≤ owned) :
    Makes (pure (linked nodes .null)) owned := by
  refine Spends.pure ?_
  have within := count_linked nodes .null
  simp only [Node.count] at within
  lia

theorem plain_procPointer (type : FinshType) : Plain (procPointer type) :=
  plain_nextToken.then (fun _ => Spends.ite (fun _ => plain_pure _)
    (fun _ => plain_replay.then (fun _ => plain_pure _)))

theorem plain_noType : Plain noType :=
  plain_replay.then (fun _ => (plain_fail _).then (fun _ => plain_pure _))

theorem plain_procType : Plain procType := by
  refine plain_nextToken.then (fun token => ?_)
  cases token.baseType? with
  | some type => exact plain_procPointer type
  | none =>
    refine Spends.ite (fun _ => plain_nextToken.then (fun token => ?_)) (fun _ => plain_noType)
    cases token.unsignedType? with
    | some type => exact plain_procPointer type
    | none =>
      exact Spends.ite (fun _ => plain_noType)
        (fun _ => plain_replay.then (fun _ => (plain_fail _).then (fun _ => plain_procPointer _)))

theorem plain_procIdentifier : Plain procIdentifier :=
  (plain_matchToken _).then (fun _ => Spends.get (fun _ => plain_pure _))

theorem plain_declare (type : FinshType) : Plain (declare type) := by
  refine plain_procIdentifier.then (fun id => ?_)
  refine Plain.then (Spends.modify (fun s => ?_)) (fun _ => plain_pure _)
  cases finshVarInsert s.vars id type <;> rfl

end steps

section levels
variable {y : Symbols} {assign cast : Parse Node}

theorem makes_binaryLoop {ops : TokenType → Option Arith} {operand : Parse Node}
    (makes : Makes operand 0) (fuel : Nat) (token : TokenType) (left : Node) :
    Makes (binaryLoop ops operand fuel token left) left.count := by
  induction fuel generalizing token left with
  | zero => exact makes_stuck
  | succ fuel ih =>
    unfold binaryLoop
    cases ops token with
    | none => exact plain_replay.then (fun _ => Spends.pure (Nat.le_refl _))
    | some op =>
      refine makes.carry (fun right => ?_)
      have next : ∀ node, Makes (nextToken >>= fun token => binaryLoop ops operand fuel token node)
          node.count := fun node => plain_nextToken.then (fun token => ih token node)
      refine Spends.ite (fun _ => ?_) (fun _ => ?_)
      · exact (plain_fail _).then (fun _ => (next left).mono (Nat.le_add_left _ _))
      · rw [Nat.add_comm]
        exact (makes_sys (.sys op) left right).through next

theorem makes_binary {ops : TokenType → Option Arith} {operand : Parse Node} (makes : Makes operand 0)
    (fuel : Nat) : Makes (binary fuel ops operand) 0 :=
  makes.through (fun left => plain_nextToken.then (fun token => makes_binaryLoop makes fuel token left))

theorem makes_inclusiveOr (makes : Makes cast 0) (fuel : Nat) : Makes (procInclusiveOrExpr fuel cast) 0 :=
  makes_binary (makes_binary (makes_binary (makes_binary (makes_binary (makes_binary makes fuel) fuel) fuel)
    fuel) fuel) fuel

theorem makes_paramLoop (makes : Makes assign 0) (fuel : Nat) (token : TokenType) (params : List Node) :
    Makes (paramLoop assign fuel token params) (totalCount params) := by
  induction fuel generalizing token params with
  | zero => exact makes_stuck
  | succ fuel ih =>
    refine Spends.ite (fun _ => makes.carry (fun param => ?_)) (fun _ => ?_)
    · refine Spends.ite (fun _ => ?_) (fun _ => ?_)
      · exact (plain_fail _).then (fun _ => plain_nextToken.then (fun token =>
          (ih token params).mono (Nat.le_add_left _ _)))
      · exact plain_nextToken.then (fun token =>
          (ih token (params ++ [param])).mono (totalCount_append_le params param))
    · exact plain_replay.then (fun _ => makes_linked (Nat.le_refl _))

theorem makes_procParamList (makes : Makes assign 0) (fuel : Nat) : Makes (procParamList fuel assign) 0 := by
  refine makes.through (fun param => Spends.ite (fun _ => makes_null) (fun _ => ?_))
  exact plain_nextToken.then (fun token =>
    (makes_paramLoop makes fuel token [param]).mono (totalCount_append_le [] param))

theorem makes_procPrimaryExpr (makes : Makes assign 0) : Makes (procPrimaryExpr y assign) 0 := by
  refine plain_nextToken.then (fun token => Spends.get (fun s => ?_))
  split
  · exact plain_replay.then (fun _ => plain_procIdentifier.then (fun id => makes_newId y id))
  · exact makes.through (fun node => (plain_matchToken _).then (fun _ => Spends.pure (Nat.le_refl _)))
  · exact makes_new _
  · exact makes_new _
  · exact makes_new _
  · exact makes_newString y _
  · exact makes_new _
  · exact (plain_fail _).then (fun _ => makes_null)

theorem makes_procParams (makes : Makes assign 0) (fuel : Nat) : Makes (procParams fuel assign) 0 := by
  refine plain_nextToken.then (fun token => Spends.ite (fun _ => ?_) (fun _ => makes_null))
  exact plain_replay.then (fun _ => (makes_procParamList makes fuel).through (fun params =>
    (plain_matchToken _).then (fun _ => Spends.pure (Nat.le_refl _))))

theorem makes_postfixLoop (makes : Makes assign 0) (fuel more : Nat) (token : TokenType) (node : Node) :
    Makes (postfixLoop fuel assign more token node) node.count := by
  induction more generalizing token node with
  | zero => exact makes_stuck
  | succ more ih =>
    have next : ∀ node, Makes (nextToken >>= fun token => postfixLoop fuel assign more token node)
        node.count := fun node => plain_nextToken.then (fun token => ih token node)
    unfold postfixLoop
    split
    · exact (makes_sys .sysInc node .null).through next
    · exact (makes_sys .sysDec node .null).through next
    · refine (makes_procParams makes fuel).carry (fun params => ?_)
      rw [Nat.add_comm]
      exact (makes_sys .sysFunc node params).through next
    · exact plain_replay.then (fun _ => Spends.pure (Nat.le_refl _))

theorem makes_procUnaryExpr (makesAssign : Makes assign 0) (makesCast : Makes cast 0) (fuel : Nat) :
    Makes (procUnaryExpr y fuel assign cast) 0 := by
  have unary : ∀ nodeType, Makes (cast >>= fun node => makeSysNode nodeType node .null) 0 :=
    fun nodeType => makesCast.through (fun node => makes_sys nodeType node .null)
  refine plain_nextToken.then (fun token => ?_)
  split
  · exact makesCast
  · exact unary .sysPreinc
  · refine makesCast.through (fun node => (makes_new _).carry (fun zero => makes_sys _ zero node))
  · exact unary .sysPredec
  · exact unary .sysBitwise
  · exact unary .sysGetvalue
  · exact unary .sysGetaddr
  · refine plain_replay.then (fun _ => (makes_procPrimaryExpr makesAssign).through (fun node => ?_))
    exact plain_nextToken.then (fun token => makes_postfixLoop makesAssign fuel fuel token node)

theorem makes_castStep (makesAssign : Makes assign 0) (makesCast : Makes cast 0) (fuel : Nat) :
    Makes (castStep y fuel assign cast) 0 := by
  have otherwise : ∀ node : Node, Makes (if node.isNull then
      replay >>= fun _ => procUnaryExpr y fuel assign cast else pure node) node.count := by
    intro node
    refine Spends.ite (fun _ => plain_replay.then (fun _ => ?_)) (fun _ => Spends.pure (Nat.le_refl _))
    exact (makes_procUnaryExpr makesAssign makesCast fuel).mono (Nat.zero_le _)
  refine plain_nextToken.then (fun token => Spends.ite (fun _ => ?_) (fun _ => otherwise .null))
  refine plain_procType.then (fun type => (plain_matchToken _).then (fun _ => ?_))
  refine makesCast.through (fun node => ?_)
  rw [← Node.count_withDataType node type.number]
  exact otherwise _

theorem makes_assignStep (makesAssign : Makes assign 0) (makesCast : Makes cast 0) (fuel : Nat) :
    Makes (assignStep fuel assign cast) 0 := by
  refine (makes_inclusiveOr makesCast fuel).through (fun left => plain_nextToken.then (fun token => ?_))
  refine Spends.ite (fun _ => ?_) (fun _ => plain_replay.then (fun _ => Spends.pure (Nat.le_refl _)))
  refine makesAssign.carry (fun right => ?_)
  rw [Nat.add_comm]
  exact makes_sys .sysAssign left right

theorem makes_exprs (fuel : Nat) : Makes (exprs y fuel).1 0 ∧ Makes (exprs y fuel).2 0 := by
  induction fuel with
  | zero => exact ⟨makes_stuck, makes_stuck⟩
  | succ fuel ih => exact ⟨makes_assignStep ih.1 ih.2 fuel, makes_castStep ih.1 ih.2 fuel⟩

end levels

section statements
variable {y : Symbols}

theorem spends_initializer (fuel : Nat) (id : Chars) (token : TokenType) (nodes : List Node) :
    Spends Parser.nodes (initializer y fuel id token nodes) (fun r => totalCount r.1) (totalCount nodes) := by
  have otherwise : ∀ node : Node, Spends Parser.nodes (if node.isNull then pure (nodes, token) else do
      let idnode ← finshNodeNewId y id
      let last ← makeSysNode .sysAssign idnode node
      let token ← nextToken
      pure (nodes ++ [last], token)) (fun r => totalCount r.1) (node.count + totalCount nodes) := by
    intro node
    refine Spends.ite (fun _ => Spends.pure (Nat.le_add_left _ _)) (fun _ => ?_)
    refine (makes_newId y id).carry (fun idnode => ?_)
    rw [← Nat.add_assoc]
    refine (makes_sys .sysAssign idnode node).bind (fun last => ?_)
    exact plain_nextToken.then (fun token => Spends.pure (totalCount_append_le nodes last))
  refine Spends.ite (fun _ => (makes_exprs fuel).1.carry otherwise) (fun _ => ?_)
  exact (otherwise .null).mono (by simp [Node.count])

theorem makes_declarators (fuel : Nat) (type : FinshType) (more : Nat) (token : TokenType)
    (nodes : List Node) : Makes (declarators y fuel type more token nodes) (totalCount nodes) := by
  induction more generalizing token nodes with
  | zero => exact makes_stuck
  | succ more ih =>
    refine Spends.ite (fun _ => ?_) (fun _ => ?_)
    · refine (plain_declare type).then (fun id => plain_nextToken.then (fun token => ?_))
      exact (spends_initializer fuel id token nodes).through (fun r => ih r.2 r.1)
    · exact (plain_checkToken _ _).then (fun _ => makes_linked (Nat.le_refl _))

theorem makes_procVariableDecl (fuel : Nat) : Makes (procVariableDecl y fuel) 0 := by
  refine plain_procType.then (fun type => (plain_declare type).then (fun id => ?_))
  refine plain_nextToken.then (fun token => ?_)
  split
  · exact makes_declarators fuel type fuel _ []
  · exact (spends_initializer fuel id _ []).through (fun r => makes_declarators fuel type fuel r.2 r.1)
  · exact makes_null
  · exact (plain_fail _).then (fun _ => makes_null)

theorem makes_procExprStatement (fuel : Nat) : Makes (procExprStatement y fuel) 0 := by
  refine plain_nextToken.then (fun token => Spends.ite (fun _ => ?_) (fun _ => makes_null))
  exact plain_replay.then (fun _ => (makes_exprs fuel).1.through (fun node =>
    (plain_matchToken _).then (fun _ => Spends.pure (Nat.le_refl _))))

theorem makes_procStatement (fuel : Nat) (token : TokenType) : Makes (procStatement y fuel token) 0 :=
  plain_replay.then (fun _ => Spends.ite (fun _ => makes_procVariableDecl fuel)
    (fun _ => makes_procExprStatement fuel))

theorem plain_skipToken (token : TokenType) : Plain (skipToken token) :=
  Spends.ite (fun _ => plain_nextToken.then (fun _ => plain_pure _)) (fun _ => plain_pure _)

theorem makes_runLoop (fuel more : Nat) (token : TokenType) (nodes : List Node) (rest : Node)
    {owned : Nat} (covered : totalCount nodes + rest.count ≤ owned) :
    Makes (runLoop y fuel more token nodes rest) owned := by
  induction more generalizing token nodes rest owned with
  | zero => exact makes_stuck
  | succ more ih =>
    refine Spends.ite (fun _ => ?_) (fun _ => ?_)
    · exact Spends.pure (Nat.le_trans (count_linked nodes rest) covered)
    · refine (makes_procStatement fuel token).carry (fun made => Spends.ite (fun _ => ?_) (fun _ => ?_))
      · refine Spends.ite (fun _ => makes_null) (fun _ => ?_)
        refine (plain_skipToken token).then (fun _ => plain_nextToken.then (fun token => ih token nodes .null ?_))
        simp only [Node.count]
        lia
      · refine plain_nextToken.then (fun token => ih token (nodes ++ [made]) made.sibling ?_)
        have behind := made.ownCount_sibling
        rw [totalCount_append]
        lia

theorem count_le_nodeMax {fuel : Nat} {line : Line} {vars : Variables} {root : Node} {left : Parser}
    (parsed : finshParserRun y fuel line vars = some (root, left)) : root.count ≤ nodeMax := by
  have makes : Makes (nextToken >>= fun token => runLoop y fuel fuel token [] .null) 0 :=
    plain_nextToken.then (fun token => makes_runLoop fuel fuel token [] .null (Nat.le_refl 0))
  have within := makes _ root left parsed
  have room := left.room
  lia

end statements

end RtThread.Finsh
