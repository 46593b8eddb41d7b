import ScriptEngine.Tree.Basic

/-! Building trees by hand, for hosts that assemble scripts without a parser. A built node has no
place until `atPos` gives it one; a statement made from an expression takes the expression's. -/
namespace ScriptEngine

/-- An expression of this kind at no known place. -/
def ExprKind.bare (kind : ExprKind) : Expr := .mk kind .unknown

/-- A statement of this kind at no known place. -/
def StmtKind.bare (kind : StmtKind) : Stmt := .mk kind .unknown

namespace Expr

def nil : Expr := (ExprKind.literal .nil).bare
def bool (b : Bool) : Expr := (ExprKind.literal (.bool b)).bare
def int (n : Int64) : Expr := (ExprKind.literal (.int n)).bare
def float (x : Binary64) : Expr := (ExprKind.literal (.float x)).bare
def string (s : String) : Expr := (ExprKind.literal (.string s)).bare
def ident (name : String) : Expr := (ExprKind.ident name).bare
def binary (op : BinaryOp) (left right : Expr) : Expr := (ExprKind.binary op left right).bare
def unary (op : UnaryOp) (operand : Expr) : Expr := (ExprKind.unary op operand).bare
def ternary (condition thenExpr elseExpr : Expr) : Expr :=
  (ExprKind.ternary condition thenExpr elseExpr).bare
def coalesce (left right : Expr) : Expr := (ExprKind.coalesce left right).bare
def member (object : Expr) (name : String) : Expr := (ExprKind.member object name).bare
def index (object index : Expr) : Expr := (ExprKind.index object index).bare
def slice (object : Expr) (start stop : Option Expr) : Expr :=
  (ExprKind.slice object start stop).bare
def call (callee : Expr) (args : List Expr) : Expr := (ExprKind.call callee args false).bare
/-- A call whose last argument is spread. -/
def callSpread (callee : Expr) (args : List Expr) : Expr := (ExprKind.call callee args true).bare
/-- A function literal without a name of its own. -/
def func (params : List String) (body : Block) : Expr :=
  (ExprKind.func (.mk none params false body)).bare
def funcDef (definition : FuncDef) : Expr := (ExprKind.func definition).bare
def list (items : List Expr) : Expr := (ExprKind.list none items).bare
def typedList (elemType : TypeExpr) (items : List Expr) : Expr :=
  (ExprKind.list (some elemType) items).bare
def map (entries : List (Expr × Expr)) : Expr := (ExprKind.map none entries).bare
def typedMap (key value : TypeExpr) (entries : List (Expr × Expr)) : Expr :=
  (ExprKind.map (some (key, value)) entries).bare
def contains (item container : Expr) : Expr := (ExprKind.contains item container).bare
def update (target : Expr) (op : UpdateOp) : Expr := (ExprKind.update target op).bare
def recv (channel : Expr) : Expr := (ExprKind.recv channel).bare
def make (type : TypeExpr) (args : List Expr) : Expr := (ExprKind.make type args).bare
def newOf (type : TypeExpr) : Expr := (ExprKind.new type).bare

end Expr

namespace Stmt

/-- The expression as a statement, at the expression's place. -/
def expr (e : Expr) : Stmt := .mk (.expr e) e.pos
def var (name : String) (value : Expr) : Stmt := (StmtKind.var [name] [value]).bare
def assign (target value : Expr) : Stmt := (StmtKind.assign [target] [value]).bare
def assignTo (name : String) (value : Expr) : Stmt := assign (Expr.ident name) value
def assignMany (targets values : List Expr) : Stmt := (StmtKind.assign targets values).bare
def opAssign (target : Expr) (op : BinaryOp) (value : Expr) : Stmt :=
  (StmtKind.opAssign target op value).bare
def ifElse (condition : Expr) (thenBlock : Block) (elseBlock : Option Block) : Stmt :=
  (StmtKind.ifElse condition thenBlock elseBlock).bare
def whileLoop (condition : Option Expr) (body : Block) : Stmt := (StmtKind.loop condition body).bare
def forClause (init : Option Stmt) (condition : Option Expr) (post : Option Stmt) (body : Block) :
    Stmt :=
  (StmtKind.forClause init condition post body).bare
def forIn (vars : List String) (iterable : Expr) (body : Block) : Stmt :=
  (StmtKind.forIn vars iterable body).bare
def func (name : String) (params : List String) (body : Block) : Stmt :=
  (StmtKind.func (.mk (some name) params false body)).bare
def variadicFunc (name : String) (params : List String) (body : Block) : Stmt :=
  (StmtKind.func (.mk (some name) params true body)).bare
def ret (value : Expr) : Stmt := (StmtKind.ret [value]).bare
def retMany (values : List Expr) : Stmt := (StmtKind.ret values).bare
def brk : Stmt := StmtKind.brk.bare
def cont : Stmt := StmtKind.cont.bare
def throw (value : Expr) : Stmt := (StmtKind.throw value).bare
def tryCatch (body : Block) (catchVar : Option String) (catchBlock finallyBlock : Option Block) :
    Stmt :=
  (StmtKind.tryCatch body catchVar catchBlock finallyBlock).bare
def defer (call : Expr) : Stmt := (StmtKind.defer call).bare
def go (call : Expr) : Stmt := (StmtKind.go call).bare
def send (channel value : Expr) : Stmt := (StmtKind.send channel value).bare
def module (name : String) (body : Block) : Stmt := (StmtKind.module name body).bare
def switch (discriminant : Expr) (cases : List SwitchCase) (default : Option Block) : Stmt :=
  (StmtKind.switch discriminant cases default).bare
def select (cases : List SelectCase) (default : Option Block) : Stmt :=
  (StmtKind.select cases default).bare
def block (body : Block) : Stmt := (StmtKind.block body).bare

end Stmt

end ScriptEngine
