import ScriptEngine.Tree.Basic

/-! The free names of a script: those it uses without binding them first, and so takes from its
host. Hosts compare them with a list of what a script may touch. A function or module declared in a
block is known in the whole block; all other names are known from their binding on. -/
namespace ScriptEngine.FreeNames

/-- The names bound so far, one list for each block that is open, and the free names found. -/
structure State where
  scopes : List (List String)
  found : List String

namespace State

/-- Binds `name` in the innermost block. -/
def declare (s : State) (name : String) : State :=
  match s.scopes with
  | [] => s
  | scope :: outer => { s with scopes := (name :: scope) :: outer }

def declareAll (s : State) (names : List String) : State := names.foldl declare s

def isBound (s : State) (name : String) : Bool := s.scopes.any (·.contains name)

/-- A use of `name`, which is free unless it is bound. -/
def use (s : State) (name : String) : State :=
  if s.isBound name || s.found.contains name then s else { s with found := name :: s.found }

def enter (s : State) (names : List String) : State := { s with scopes := names :: s.scopes }

def leave (s : State) : State := { s with scopes := s.scopes.drop 1 }

end State

/-- The name that a declaration makes known in its whole block. -/
def hoisted? : Stmt → Option String
  | .mk (.func definition) _ => some definition.displayName
  | .mk (.module name _) _ => some name
  | _ => none

/-- Walks a block of its own by `walk`; `bound` and the block's declarations are known in it from
the start. -/
def State.within (s : State) (bound : List String) (body : List Stmt) (walk : State → State) :
    State :=
  (walk ((s.enter bound).declareAll (body.filterMap hoisted?))).leave

mutual

def stmts : List Stmt → State → State
  | [], s => s
  | x :: rest, s => stmts rest (stmt x s)

def stmt : Stmt → State → State
  | .mk kind _, s => kindNames kind s

def optionBlock : Option (List Stmt) → State → State
  | none, s => s
  | some body, s => s.within [] body (stmts body)

def optionStmt : Option Stmt → State → State
  | none, s => s
  | some x, s => stmt x s

def kindNames : StmtKind → State → State
  | .expr value, s => expr value s
  | .throw value, s => expr value s
  | .defer call, s => expr call s
  | .go call, s => expr call s
  | .var names values, s => (exprs values s).declareAll names
  | .assign targets values, s => assignTargets targets (exprs values s)
  | .opAssign target _ value, s => expr target (expr value s)
  | .ifElse condition thenBlock elseBlock, s =>
    optionBlock elseBlock ((expr condition s).within [] thenBlock (stmts thenBlock))
  | .switch discriminant cases default, s =>
    optionBlock default (switchCases cases (expr discriminant s))
  | .select cases default, s => optionBlock default (selectCases cases s)
  | .loop condition body, s => (optionExpr condition s).within [] body (stmts body)
  | .forClause init condition post body, s =>
    ((optionStmt post (optionExpr condition (optionStmt init (s.enter [])))).within [] body
      (stmts body)).leave
  | .forIn vars iterable body, s => (expr iterable s).within vars body (stmts body)
  | .func definition, s => func definition s
  | .ret values, s => exprs values s
  | .brk, s => s
  | .cont, s => s
  | .tryCatch body catchVar catchBlock finallyBlock, s =>
    let s := s.within [] body (stmts body)
    let s :=
      match catchBlock with
      | some block => s.within catchVar.toList block (stmts block)
      | none => s
    optionBlock finallyBlock s
  | .module _ body, s => s.within [] body (stmts body)
  | .send channel value, s => expr value (expr channel s)
  | .block body, s => s.within [] body (stmts body)

def switchCases : List SwitchCase → State → State
  | [], s => s
  | .mk values body :: rest, s => switchCases rest ((exprs values s).within [] body (stmts body))

def selectCases : List SelectCase → State → State
  | [], s => s
  | .mk (.recv channel value ok) body :: rest, s =>
    selectCases rest ((expr channel s).within (value.toList ++ ok.toList) body (stmts body))
  | .mk (.send channel value) body :: rest, s =>
    selectCases rest ((expr value (expr channel s)).within [] body (stmts body))

def func : FuncDef → State → State
  | .mk name params _ body, s => s.within (params ++ name.toList) body (stmts body)

/-- An assigned name that nothing binds is bound here from now on; the parts of any other target
are uses. -/
def assignTarget : Expr → State → State
  | .mk (.ident name) _, s => if s.isBound name then s else s.declare name
  | .mk kind _, s => exprKind kind s

def assignTargets : List Expr → State → State
  | [], s => s
  | target :: rest, s => assignTargets rest (assignTarget target s)

def expr : Expr → State → State
  | .mk kind _, s => exprKind kind s

def exprKind : ExprKind → State → State
  | .literal _, s => s
  | .new _, s => s
  | .ident name, s => s.use name
  | .binary _ left right, s => expr right (expr left s)
  | .coalesce left right, s => expr right (expr left s)
  | .contains item container, s => expr container (expr item s)
  | .index object index, s => expr index (expr object s)
  | .unary _ operand, s => expr operand s
  | .recv channel, s => expr channel s
  | .member object _, s => expr object s
  | .ternary condition thenExpr elseExpr, s => expr elseExpr (expr thenExpr (expr condition s))
  | .slice object start stop, s => optionExpr stop (optionExpr start (expr object s))
  | .call callee args _, s => exprs args (expr callee s)
  | .func definition, s => func definition s
  | .list _ items, s => exprs items s
  | .map _ items, s => entries items s
  | .update target _, s => expr target s
  | .make _ args, s => exprs args s

def optionExpr : Option Expr → State → State
  | none, s => s
  | some e, s => expr e s

def exprs : List Expr → State → State
  | [], s => s
  | e :: rest, s => exprs rest (expr e s)

def entries : List (Expr × Expr) → State → State
  | [], s => s
  | (key, value) :: rest, s => entries rest (expr value (expr key s))

end

end ScriptEngine.FreeNames

namespace ScriptEngine

/-- The free names of a script, sorted and without repetition. -/
def Block.freeNames (script : Block) : List String :=
  let walked := FreeNames.State.within ⟨[], []⟩ [] script (FreeNames.stmts script)
  walked.found.mergeSort fun a b => !decide (b < a)

end ScriptEngine
