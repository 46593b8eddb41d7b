import ScriptEngine.Binary64

/-! Script trees: what a parser hands over and what the evaluator walks. Every expression and
statement carries the place in the source it came from; line 0 stands for an unknown place. -/
namespace ScriptEngine

/-- A whole number of that many bits. -/
abbrev Word (bits : Nat) : Type := Fin (Nat.pow 2 bits)

/-- Lines and columns are counted in 32 bits, and start again where these end. -/
instance : Coe Nat (Word 32) := ⟨Fin.ofNat (Nat.pow 2 32)⟩

/-- A place in source text, counted from one; line 0 means that it is not known. -/
structure Position where
  line : Word 32
  column : Word 32
deriving Repr, DecidableEq, Inhabited

namespace Position

/-- The place of nodes that were not read from a text. -/
def unknown : Position := ⟨0, 0⟩

/-- The place is a real one. -/
def isKnown (p : Position) : Bool := 0 < p.line

/-- `line:column`. -/
def text (p : Position) : String := toString p.line.val ++ ":" ++ toString p.column.val

/-- `own`, or `fallback` where `own` is not known. -/
def orElse (own fallback : Position) : Position := if own.isKnown then own else fallback

end Position

inductive BinaryOp where
  | add | sub | mul | div | mod | pow
  | bitAnd | bitOr | bitXor | shl | shr
  | and | or
  | eq | ne | lt | le | gt | ge
deriving Repr, DecidableEq, Inhabited

namespace BinaryOp

/-- The operator as it is written in scripts and named in messages. -/
def symbol : BinaryOp → String
  | add => "+" | sub => "-" | mul => "*" | div => "/" | mod => "%" | pow => "**"
  | bitAnd => "&" | bitOr => "|" | bitXor => "^" | shl => "<<" | shr => ">>"
  | and => "&&" | or => "||"
  | eq => "==" | ne => "!=" | lt => "<" | le => "<=" | gt => ">" | ge => ">="

/-- The operator's name in the JSON form of trees. -/
def tag : BinaryOp → String
  | add => "Add" | sub => "Sub" | mul => "Mul" | div => "Div" | mod => "Mod" | pow => "Pow"
  | bitAnd => "BitAnd" | bitOr => "BitOr" | bitXor => "BitXor" | shl => "Shl" | shr => "Shr"
  | and => "And" | or => "Or"
  | eq => "Eq" | ne => "Ne" | lt => "Lt" | le => "Le" | gt => "Gt" | ge => "Ge"

/-- All operators, in the order of their declaration. -/
def all : List BinaryOp :=
  [add, sub, mul, div, mod, pow, bitAnd, bitOr, bitXor, shl, shr, and, or, eq, ne, lt, le, gt, ge]

/-- The operator of this name. -/
def ofTag? (name : String) : Option BinaryOp := all.find? (·.tag == name)

end BinaryOp

inductive UnaryOp where
  | neg | not | bitNot
deriving Repr, DecidableEq, Inhabited

namespace UnaryOp

def symbol : UnaryOp → String
  | neg => "-" | not => "!" | bitNot => "^"

def tag : UnaryOp → String
  | neg => "Neg" | not => "Not" | bitNot => "BitNot"

def all : List UnaryOp := [neg, not, bitNot]

def ofTag? (name : String) : Option UnaryOp := all.find? (·.tag == name)

end UnaryOp

inductive UpdateOp where
  | inc | dec
deriving Repr, DecidableEq, Inhabited

namespace UpdateOp

def symbol : UpdateOp → String
  | inc => "++" | dec => "--"

def tag : UpdateOp → String
  | inc => "Inc" | dec => "Dec"

def all : List UpdateOp := [inc, dec]

def ofTag? (name : String) : Option UpdateOp := all.find? (·.tag == name)

end UpdateOp

inductive Literal where
  | nil
  | bool (b : Bool)
  | int (n : Int64)
  | float (x : Binary64)
  | string (s : String)
deriving Inhabited

/-- A type as it is written in `make`, `new` and typed literals. -/
inductive TypeExpr where
  | named (name : String)
  | slice (elem : TypeExpr)
  | array (elem : TypeExpr) (len : Word 64)
  | map (key value : TypeExpr)
  | chan (elem : TypeExpr)
deriving Repr, DecidableEq, Inhabited

/-- The type as it is written. -/
def TypeExpr.text : TypeExpr → String
  | .named name => name
  | .slice elem => "[]" ++ elem.text
  | .array elem len => "[" ++ toString len.val ++ "]" ++ elem.text
  | .map key value => "map[" ++ key.text ++ "]" ++ value.text
  | .chan elem => "chan " ++ elem.text

mutual

/-- An expression with its place. -/
inductive Expr where
  | mk (kind : ExprKind) (pos : Position)

inductive ExprKind where
  | literal (value : Literal)
  | ident (name : String)
  | binary (op : BinaryOp) (left right : Expr)
  | unary (op : UnaryOp) (operand : Expr)
  | ternary (condition thenExpr elseExpr : Expr)
  | coalesce (left right : Expr)
  | member (object : Expr) (name : String)
  | index (object index : Expr)
  | slice (object : Expr) (start stop : Option Expr)
  /-- With `spread` the last argument is a sequence whose items are the last arguments. -/
  | call (callee : Expr) (args : List Expr) (spread : Bool)
  | func (definition : FuncDef)
  | list (elemType : Option TypeExpr) (items : List Expr)
  | map (types : Option (TypeExpr × TypeExpr)) (entries : List (Expr × Expr))
  | contains (item container : Expr)
  | update (target : Expr) (op : UpdateOp)
  | recv (channel : Expr)
  | make (type : TypeExpr) (args : List Expr)
  | new (type : TypeExpr)

/-- A function as it is written: its own name if it has one, parameters and body. -/
inductive FuncDef where
  | mk (name : Option String) (params : List String) (variadic : Bool) (body : List Stmt)

/-- A statement with its place. -/
inductive Stmt where
  | mk (kind : StmtKind) (pos : Position)

inductive StmtKind where
  | expr (value : Expr)
  /-- `var a, b = x, y` always binds in the current scope. -/
  | var (names : List String) (values : List Expr)
  /-- `a, b = x, y` writes the nearest binding, or defines one here where there is none. -/
  | assign (targets values : List Expr)
  | opAssign (target : Expr) (op : BinaryOp) (value : Expr)
  | ifElse (condition : Expr) (thenBlock : List Stmt) (elseBlock : Option (List Stmt))
  | switch (discriminant : Expr) (cases : List SwitchCase) (default : Option (List Stmt))
  | select (cases : List SelectCase) (default : Option (List Stmt))
  /-- A loop without condition runs until it is left. -/
  | loop (condition : Option Expr) (body : List Stmt)
  | forClause (init : Option Stmt) (condition : Option Expr) (post : Option Stmt)
      (body : List Stmt)
  | forIn (vars : List String) (iterable : Expr) (body : List Stmt)
  | func (definition : FuncDef)
  | ret (values : List Expr)
  | brk
  | cont
  | throw (value : Expr)
  | tryCatch (body : List Stmt) (catchVar : Option String) (catchBlock : Option (List Stmt))
      (finallyBlock : Option (List Stmt))
  | defer (call : Expr)
  | module (name : String) (body : List Stmt)
  | go (call : Expr)
  | send (channel value : Expr)
  | block (body : List Stmt)

inductive SwitchCase where
  | mk (values : List Expr) (body : List Stmt)

inductive SelectCase where
  | mk (op : SelectOp) (body : List Stmt)

/-- A channel operation that a `select` waits for. -/
inductive SelectOp where
  | recv (channel : Expr) (value ok : Option String)
  | send (channel value : Expr)

end

/-- Statements that run one after the other. -/
abbrev Block := List Stmt

namespace Expr

def kind : Expr → ExprKind
  | .mk kind _ => kind

def pos : Expr → Position
  | .mk _ pos => pos

/-- The same expression at another place. -/
def atPos (e : Expr) (pos : Position) : Expr := .mk e.kind pos

end Expr

namespace Stmt

def kind : Stmt → StmtKind
  | .mk kind _ => kind

def pos : Stmt → Position
  | .mk _ pos => pos

/-- The same statement at another place. -/
def atPos (s : Stmt) (pos : Position) : Stmt := .mk s.kind pos

end Stmt

namespace FuncDef

def name : FuncDef → Option String
  | .mk name _ _ _ => name

def params : FuncDef → List String
  | .mk _ params _ _ => params

def variadic : FuncDef → Bool
  | .mk _ _ variadic _ => variadic

def body : FuncDef → Block
  | .mk _ _ _ body => body

/-- The name used in messages. -/
def displayName (d : FuncDef) : String := d.name.getD "anonymous"

end FuncDef

instance : Inhabited Expr := ⟨.mk (.literal .nil) .unknown⟩
instance : Inhabited Stmt := ⟨.mk .brk .unknown⟩
instance : Inhabited FuncDef := ⟨.mk none [] false []⟩

end ScriptEngine
