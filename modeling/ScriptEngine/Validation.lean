import ScriptEngine.Identifier
import ScriptEngine.Tree.Basic

/-! Structural checks on a script before it is run: every name is an identifier, `break` and
`continue` stand where something takes them, `defer` and `go` are given calls, only places are
assigned to, and a loop without condition has a way out. The first fault in reading order is
reported, at the nearest known place. -/
namespace ScriptEngine

/-- What is wrong with a script's structure. -/
inductive StructureFault where
  | unboundedLoop
  | breakOutsideLoop
  | continueOutsideLoop
  | deferNotCall
  | goNotCall
  | invalidAssignTarget
  | invalidIdentifier (name : String)
  | duplicateParameter (name : String)
  | variadicWithoutParameters
deriving Repr, DecidableEq

/-- The name of the kind of a structural fault. -/
def StructureFault.kind : StructureFault → String
  | .unboundedLoop => "UnboundedLoop"
  | .breakOutsideLoop => "BreakOutsideLoop"
  | .continueOutsideLoop => "ContinueOutsideLoop"
  | .deferNotCall => "DeferNotCall"
  | .goNotCall => "GoNotCall"
  | .invalidAssignTarget => "InvalidAssignTarget"
  | .invalidIdentifier _ => "InvalidIdentifier"
  | .duplicateParameter _ => "DuplicateParameter"
  | .variadicWithoutParameters => "VariadicWithoutParameters"

def StructureFault.message : StructureFault → String
  | .unboundedLoop => "unbounded loop without break, return or throw"
  | .breakOutsideLoop => "break outside of a loop, switch or select"
  | .continueOutsideLoop => "continue outside of a loop"
  | .deferNotCall => "defer requires a function call"
  | .goNotCall => "go requires a function call"
  | .invalidAssignTarget => "invalid assignment target"
  | .invalidIdentifier name => "invalid identifier '" ++ name ++ "'"
  | .duplicateParameter name => "duplicate parameter '" ++ name ++ "'"
  | .variadicWithoutParameters => "variadic function without parameters"

/-- A structural fault and where it was found. -/
structure ValidationError where
  fault : StructureFault
  position : Position
deriving Repr, DecidableEq

def ValidationError.message (e : ValidationError) : String :=
  e.fault.message ++ " at " ++ e.position.text

namespace Validation

/-! ## Ways out of a loop -/

mutual

/-- The statement may leave the loop around it. Inside something that takes a `break` of its own
(`nested`) only `return` and `throw` do. -/
def stmtExits (nested : Bool) : Stmt → Bool
  | .mk kind _ => kindExits nested kind

def kindExits (nested : Bool) : StmtKind → Bool
  | .brk => !nested
  | .ret _ => true
  | .throw _ => true
  | .ifElse _ thenBlock elseBlock => exits nested thenBlock || optionExits nested elseBlock
  | .switch _ cases default => switchExits cases || optionExits true default
  | .select cases default => selectExits cases || optionExits true default
  | .loop _ body => exits true body
  | .forClause _ _ _ body => exits true body
  | .forIn _ _ body => exits true body
  | .tryCatch body _ catchBlock finallyBlock =>
    exits nested body || optionExits nested catchBlock || optionExits nested finallyBlock
  | .block body => exits nested body
  | .expr _ => false
  | .var _ _ => false
  | .assign _ _ => false
  | .opAssign _ _ _ => false
  | .func _ => false
  | .cont => false
  | .defer _ => false
  | .module _ _ => false
  | .go _ => false
  | .send _ _ => false

/-- Some statement of the block may leave the loop around it. -/
def exits (nested : Bool) : List Stmt → Bool
  | [] => false
  | s :: rest => stmtExits nested s || exits nested rest

def optionExits (nested : Bool) : Option (List Stmt) → Bool
  | none => false
  | some body => exits nested body

def switchExits : List SwitchCase → Bool
  | [] => false
  | .mk _ body :: rest => exits true body || switchExits rest

def selectExits : List SelectCase → Bool
  | [] => false
  | .mk _ body :: rest => exits true body || selectExits rest

end

/-! ## The checks -/

/-- What surrounds a statement within its function: something that takes `continue`, and something
that takes `break`. -/
structure Enclosure where
  inLoop : Bool
  inBreakable : Bool
deriving Repr, DecidableEq

/-- The start of a script, of a function body and of a module. -/
def Enclosure.top : Enclosure := ⟨false, false⟩

/-- Inside a loop. -/
def Enclosure.loop : Enclosure := ⟨true, true⟩

/-- Inside a case of a `switch` or `select`. -/
def Enclosure.case (e : Enclosure) : Enclosure := ⟨e.inLoop, true⟩

abbrev Check := Except ValidationError Unit

def fail (fault : StructureFault) (position : Position) : Check := .error ⟨fault, position⟩

def checkName (name : String) (pos : Position) : Check :=
  if isIdentifier name then .ok () else fail (.invalidIdentifier name) pos

/-- The names in order, each an identifier. -/
def checkNames (pos : Position) : List String → Check
  | [] => .ok ()
  | name :: rest => do
    checkName name pos
    checkNames pos rest

/-- Parameters in order: identifiers, none of them among those `seen` before. -/
def checkParams (pos : Position) (seen : List String) : List String → Check
  | [] => .ok ()
  | name :: rest => do
    checkName name pos
    if seen.contains name then fail (.duplicateParameter name) pos
    else checkParams pos (name :: seen) rest

/-- Names, elements and fields can be assigned to. -/
def isAssignable : ExprKind → Bool
  | .ident _ => true
  | .index _ _ => true
  | .member _ _ => true
  | _ => false

def isCall : ExprKind → Bool
  | .call _ _ _ => true
  | _ => false

mutual

def checkBlock (e : Enclosure) : List Stmt → Check
  | [] => .ok ()
  | s :: rest => do
    checkStmt e s
    checkBlock e rest

def checkOptionBlock (e : Enclosure) : Option (List Stmt) → Check
  | none => .ok ()
  | some body => checkBlock e body

def checkStmt (e : Enclosure) : Stmt → Check
  | .mk kind pos => checkKind e pos kind

def checkKind (e : Enclosure) (pos : Position) : StmtKind → Check
  | .expr value => checkExpr pos value
  | .throw value => checkExpr pos value
  | .var names values => do
    checkNames pos names
    checkExprs pos values
  | .assign targets values => do
    checkTargets pos targets
    checkExprs pos values
  | .opAssign target _ value => do
    checkTarget pos target
    checkExpr pos value
  | .ifElse condition thenBlock elseBlock => do
    checkExpr pos condition
    checkBlock e thenBlock
    checkOptionBlock e elseBlock
  | .switch discriminant cases default => do
    checkExpr pos discriminant
    checkSwitchCases e pos cases
    checkOptionBlock e.case default
  | .select cases default => do
    checkSelectCases e pos cases
    checkOptionBlock e.case default
  | .loop condition body => do
    match condition with
    | some condition => checkExpr pos condition
    | none => if exits false body then .ok () else fail .unboundedLoop pos
    checkBlock .loop body
  | .forClause init condition post body => do
    checkOptionStmt e init
    match condition with
    | some condition => checkExpr pos condition
    | none => if exits false body then .ok () else fail .unboundedLoop pos
    checkOptionStmt e post
    checkBlock .loop body
  | .forIn vars iterable body => do
    checkNames pos vars
    checkExpr pos iterable
    checkBlock .loop body
  | .func definition => checkFunc pos definition
  | .ret values => checkExprs pos values
  | .brk => if e.inBreakable then .ok () else fail .breakOutsideLoop pos
  | .cont => if e.inLoop then .ok () else fail .continueOutsideLoop pos
  | .tryCatch body catchVar catchBlock finallyBlock => do
    checkBlock e body
    match catchVar with
    | some name => checkName name pos
    | none => .ok ()
    checkOptionBlock e catchBlock
    checkOptionBlock e finallyBlock
  | .defer call => do
    if isCall call.kind then .ok () else fail .deferNotCall pos
    checkExpr pos call
  | .go call => do
    if isCall call.kind then .ok () else fail .goNotCall pos
    checkExpr pos call
  | .module name body => do
    checkName name pos
    checkBlock .top body
  | .send channel value => do
    checkExpr pos channel
    checkExpr pos value
  | .block body => checkBlock e body

def checkOptionStmt (e : Enclosure) : Option Stmt → Check
  | none => .ok ()
  | some s => checkStmt e s

def checkSwitchCases (e : Enclosure) (pos : Position) : List SwitchCase → Check
  | [] => .ok ()
  | .mk values body :: rest => do
    checkExprs pos values
    checkBlock e.case body
    checkSwitchCases e pos rest

def checkSelectCases (e : Enclosure) (pos : Position) : List SelectCase → Check
  | [] => .ok ()
  | .mk op body :: rest => do
    checkSelectOp pos op
    checkBlock e.case body
    checkSelectCases e pos rest

def checkSelectOp (pos : Position) : SelectOp → Check
  | .recv channel value ok => do
    checkExpr pos channel
    checkNames pos (value.toList ++ ok.toList)
  | .send channel value => do
    checkExpr pos channel
    checkExpr pos value

def checkFunc (pos : Position) : FuncDef → Check
  | .mk name params variadic body => do
    match name with
    | some name => checkName name pos
    | none => .ok ()
    if variadic && params.isEmpty then fail .variadicWithoutParameters pos
    checkParams pos [] params
    checkBlock .top body

/-- An expression that is assigned to. -/
def checkTarget (pos : Position) : Expr → Check
  | .mk kind own =>
    if isAssignable kind then checkExprKind (own.orElse pos) kind
    else fail .invalidAssignTarget (own.orElse pos)

def checkTargets (pos : Position) : List Expr → Check
  | [] => .ok ()
  | target :: rest => do
    checkTarget pos target
    checkTargets pos rest

/-- An expression; its faults are reported at its own place if that is known. -/
def checkExpr (pos : Position) : Expr → Check
  | .mk kind own => checkExprKind (own.orElse pos) kind

def checkExprKind (pos : Position) : ExprKind → Check
  | .literal _ => .ok ()
  | .ident name => checkName name pos
  | .binary _ left right => do
    checkExpr pos left
    checkExpr pos right
  | .coalesce left right => do
    checkExpr pos left
    checkExpr pos right
  | .contains item container => do
    checkExpr pos item
    checkExpr pos container
  | .index object index => do
    checkExpr pos object
    checkExpr pos index
  | .unary _ operand => checkExpr pos operand
  | .recv channel => checkExpr pos channel
  | .member object _ => checkExpr pos object
  | .ternary condition thenExpr elseExpr => do
    checkExpr pos condition
    checkExpr pos thenExpr
    checkExpr pos elseExpr
  | .slice object start stop => do
    checkExpr pos object
    checkOptionExpr pos start
    checkOptionExpr pos stop
  | .call callee args _ => do
    checkExpr pos callee
    checkExprs pos args
  | .func definition => checkFunc pos definition
  | .list _ items => checkExprs pos items
  | .map _ entries => checkEntries pos entries
  | .update target _ => checkTarget pos target
  | .make _ args => checkExprs pos args
  | .new _ => .ok ()

def checkOptionExpr (pos : Position) : Option Expr → Check
  | none => .ok ()
  | some e => checkExpr pos e

def checkExprs (pos : Position) : List Expr → Check
  | [] => .ok ()
  | e :: rest => do
    checkExpr pos e
    checkExprs pos rest

def checkEntries (pos : Position) : List (Expr × Expr) → Check
  | [] => .ok ()
  | (key, value) :: rest => do
    checkExpr pos key
    checkExpr pos value
    checkEntries pos rest

end

end Validation

/-- The script passes the structural checks, or its first fault. -/
def Block.validate (script : Block) : Except ValidationError Unit :=
  Validation.checkBlock .top script

end ScriptEngine
