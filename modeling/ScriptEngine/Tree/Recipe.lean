import ScriptEngine.Json.Access
import ScriptEngine.Tree.Builder

/-! Recipes for trees: a node is an array of the name of a builder and what it is applied to, so
that a host can assemble scripts as data. Null stands for a part that is left out, and `at` gives a
node its place. -/
namespace ScriptEngine

namespace Recipe

open Json (optional? pairs? string?)

def strings (v : Json) : Option (List String) := v.items?.bind (·.mapM string?)

/-- All items, each read in the same way. -/
def listOf {α : Type} (read : Json → Option α) (v : Json) : Option (List α) :=
  v.items?.bind (·.mapM read)

def literal (name : String) (args : List Json) : Option Expr := do
  match name, args with
  | "nil", [] => return .nil
  | "bool", [b] => return .bool (← b.bool?)
  | "int", [n] => return .int (Int64.ofInt (← n.int?))
  | "float", [x] => return .float (← Decimal.readFloat? (← x.string?).toList)
  | "string", [s] => return .string (← s.string?)
  | "ident", [s] => return .ident (← s.string?)
  | _, _ => none

def place (line column : Json) : Option Position := do return ⟨← line.nat?, ← column.nat?⟩

/-- The written type that `v` describes, nested at most `levels` deep. -/
def type : (levels : Nat) → Json → Option TypeExpr
  | levels + 1, .arr (.str (some name) :: args) =>
    match name, args with
    | "named", [name] => name.string?.map .named
    | "slice", [elem] => (type levels elem).map .slice
    | "array", [elem, len] => do
      return .array (← type levels elem) (.ofNat _ (← len.nat?))
    | "map", [key, value] => do return .map (← type levels key) (← type levels value)
    | "chan", [elem] => (type levels elem).map .chan
    | _, _ => none
  | _, _ => none

mutual

/-- The expression that `v` describes. -/
def expr : (levels : Nat) → Json → Option Expr
  | levels + 1, .arr (.str (some name) :: args) => do
    let e := expr levels
    let es := listOf (expr levels)
    match name, args with
    | "at", [line, column, x] => return (← e x).atPos (← place line column)
    | "binary", [op, l, r] => return .binary (← BinaryOp.ofTag? (← op.string?)) (← e l) (← e r)
    | "unary", [op, x] => return .unary (← UnaryOp.ofTag? (← op.string?)) (← e x)
    | "ternary", [c, t, x] => return .ternary (← e c) (← e t) (← e x)
    | "coalesce", [l, r] => return .coalesce (← e l) (← e r)
    | "member", [o, n] => return .member (← e o) (← n.string?)
    | "index", [o, i] => return .index (← e o) (← e i)
    | "slice", [o, start, stop] => return .slice (← e o) (← optional? e start) (← optional? e stop)
    | "call", [f, xs] => return .call (← e f) (← es xs)
    | "call_spread", [f, xs] => return .callSpread (← e f) (← es xs)
    | "func", [ps, b] => return .func (← strings ps) (← block levels b)
    | "func_def", [n, ps, variadic, b] =>
      return .funcDef
        (.mk (← optional? string? n) (← strings ps) (← variadic.bool?) (← block levels b))
    | "list", [items] => return .list (← es items)
    | "typed_list", [t, items] => return .typedList (← type levels t) (← es items)
    | "map", [entries] => return .map (← pairs? e e (← entries.items?))
    | "typed_map", [k, v, entries] =>
      return .typedMap (← type levels k) (← type levels v) (← pairs? e e (← entries.items?))
    | "contains", [i, c] => return .contains (← e i) (← e c)
    | "update", [t, op] => return .update (← e t) (← UpdateOp.ofTag? (← op.string?))
    | "recv", [c] => return .recv (← e c)
    | "make", [t, xs] => return .make (← type levels t) (← es xs)
    | "new_of", [t] => return .newOf (← type levels t)
    | name, args => literal name args
  | _, _ => none

/-- The statements that `v` describes. -/
def block : (levels : Nat) → Json → Option Block
  | levels + 1, .arr items => items.mapM (stmt levels)
  | _, _ => none

/-- The case of a `switch` that `v` describes. -/
def switchCase : (levels : Nat) → Json → Option SwitchCase
  | levels + 1, .arr [values, body] => do
    return .mk (← listOf (expr levels) values) (← block levels body)
  | _, _ => none

/-- The case of a `select` that `v` describes. -/
def selectCase : (levels : Nat) → Json → Option SelectCase
  | levels + 1, .arr [.str (some "recv"), chan, value, ok, body] => do
    return .mk (.recv (← expr levels chan) (← optional? string? value) (← optional? string? ok))
      (← block levels body)
  | levels + 1, .arr [.str (some "send"), chan, value, _, body] => do
    return .mk (.send (← expr levels chan) (← expr levels value)) (← block levels body)
  | _, _ => none

/-- The statement that `v` describes. -/
def stmt : (levels : Nat) → Json → Option Stmt
  | levels + 1, .arr (.str (some name) :: args) => do
    let e := expr levels
    let b := block levels
    let s := stmt levels
    match name, args with
    | "at", [line, column, x] => return (← s x).atPos (← place line column)
    | "expr", [x] => return .expr (← e x)
    | "var", [n, x] => return .var (← n.string?) (← e x)
    | "assign", [t, x] => return .assign (← e t) (← e x)
    | "assign_to", [n, x] => return .assignTo (← n.string?) (← e x)
    | "assign_many", [ts, xs] => return .assignMany (← listOf e ts) (← listOf e xs)
    | "op_assign", [t, op, x] => return .opAssign (← e t) (← BinaryOp.ofTag? (← op.string?)) (← e x)
    | "if_else", [c, t, x] => return .ifElse (← e c) (← b t) (← optional? b x)
    | "while_loop", [c, x] => return .whileLoop (← optional? e c) (← b x)
    | "for_clause", [i, c, p, x] =>
      return .forClause (← optional? s i) (← optional? e c) (← optional? s p) (← b x)
    | "for_in", [vars, x, y] => return .forIn (← strings vars) (← e x) (← b y)
    | "func", [n, ps, x] => return .func (← n.string?) (← strings ps) (← b x)
    | "variadic_func", [n, ps, x] => return .variadicFunc (← n.string?) (← strings ps) (← b x)
    | "ret", [x] => return .ret (← e x)
    | "ret_many", [xs] => return .retMany (← listOf e xs)
    | "brk", [] => return .brk
    | "cont", [] => return .cont
    | "throw", [x] => return .throw (← e x)
    | "try_catch", [x, n, c, f] =>
      return .tryCatch (← b x) (← optional? string? n) (← optional? b c) (← optional? b f)
    | "defer", [x] => return .defer (← e x)
    | "go", [x] => return .go (← e x)
    | "send", [c, x] => return .send (← e c) (← e x)
    | "module", [n, x] => return .module (← n.string?) (← b x)
    | "switch", [d, cs, x] =>
      return .switch (← e d) (← listOf (switchCase levels) cs) (← optional? b x)
    | "select", [cs, x] => return .select (← listOf (selectCase levels) cs) (← optional? b x)
    | "block", [x] => return .block (← b x)
    | _, _ => none
  | _, _ => none

end

end Recipe

/-- The statements that a recipe describes. -/
def Block.ofRecipe? (v : Json) : Option Block := Recipe.block (v.depth + 1) v

end ScriptEngine
