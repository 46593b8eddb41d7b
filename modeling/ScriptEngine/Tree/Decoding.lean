import ScriptEngine.Json.Number
import ScriptEngine.Tree.Basic

/-! Reading trees from their JSON form. A record is an object, whose unknown fields are ignored, or
an array of its parts in order; a kind without parts is its name, or an object with its name and
null. Every array and object that is looked into takes one of the levels given, and the reader
refuses what is nested deeper; what is ignored may be nested as deep as it likes. -/
namespace ScriptEngine.Decode

/-- A reader of `α` that may enter that many levels of arrays and objects. -/
abbrev Reader (α : Type) := (levels : Nat) → Json → Option α

/-- The items of an array, each read one level further in. -/
def list {α : Type} (item : Reader α) : Reader (List α)
  | levels + 1, .arr items => items.mapM (item levels)
  | _, _ => none

/-- Null is absent, all else is read. -/
def option {α : Type} (item : Reader α) : Reader (Option α)
  | _, .null => some none
  | levels, v => (item levels v).map some

def string : Reader String
  | _, .str text => text
  | _, _ => none

def bool : Reader Bool
  | _, .bool b => some b
  | _, _ => none

/-- An integer numeral between the bounds. -/
def intIn (low high : Int) : Reader Int
  | _, .num n => n.toIntIn? low high
  | _, _ => none

def int64 : Reader Int64
  | levels, v => (intIn Int64.minValue.toInt Int64.maxValue.toInt levels v).map Int64.ofInt

/-- A whole number of that many bits. -/
def word (bits : Nat) : Reader (Word bits)
  | _, .num n => n.toNatBelow? (Nat.pow 2 bits)
  | _, _ => none

/-- A whole number below `2 ^ bits`. -/
def unsigned (bits : Nat) : Reader Nat
  | levels, v => (word bits levels v).map Fin.val

def float : Reader Binary64
  | _, .num n => n.toFloat?
  | _, _ => none

/-- The value of a field that is present at most once. -/
def lookup (fields : List (Option String × Json)) (name : String) : Option (Option Json) :=
  match fields.filter (·.1 == some name) with
  | [] => some none
  | [(_, v)] => some (some v)
  | _ => none

/-- The parts of a record, in the order of `names`. In an object any may be missing and none may be
given twice; in an array only the `optional` last ones may. -/
def record (names : List String) (optional : Nat) : Json → Option (List (Option Json))
  | .obj fields =>
    if fields.all (·.1.isSome) then names.mapM (lookup fields) else none
  | .arr items =>
    if items.length ≤ names.length ∧ names.length ≤ items.length + optional then
      some (items.map some ++ List.replicate (names.length - items.length) none)
    else none
  | _ => none

/-- A part that has to be there. -/
def required {α : Type} (read : Json → Option α) (part : Option Json) : Option α :=
  part.bind read

/-- A part that is absent when it is missing or null. -/
def optional {α : Type} (item : Reader α) (levels : Nat) : Option Json → Option (Option α)
  | none => some none
  | some v => option item levels v

/-- The kind of a node: its name, and its part with the levels left for it. A name alone has
none. -/
def kindOf (levels : Nat) : Json → Option (String × Option (Nat × Json))
  | .str (some tag) => some (tag, none)
  | .obj [(some tag, part)] =>
    match levels with
    | levels + 1 => some (tag, some (levels, part))
    | 0 => none
  | _ => none

/-- A name out of a list of names, none of which has parts. -/
def name {α : Type} (ofTag? : String → Option α) : Reader α
  | levels, v =>
    match kindOf levels v with
    | some (tag, none) => ofTag? tag
    | some (tag, some (_, .null)) => ofTag? tag
    | _ => none

def position : Reader Position
  | 0, _ => none
  | levels + 1, v =>
    match record ["line", "column"] 0 v with
    | some [line, column] => do
      return ⟨← required (word 32 levels) line, ← required (word 32 levels) column⟩
    | _ => none

/-- A place that defaults to the unknown one when it is missing. -/
def place (levels : Nat) : Option Json → Option Position
  | none => some .unknown
  | some v => position levels v

def literal : Reader Literal
  | levels, v =>
    match kindOf levels v with
    | some ("Nil", none) => some .nil
    | some ("Nil", some (_, .null)) => some .nil
    | some ("Bool", some (l, v)) => (bool l v).map .bool
    | some ("Int", some (l, v)) => (int64 l v).map .int
    | some ("Float", some (l, v)) => (float l v).map .float
    | some ("String", some (l, v)) => (string l v).map .string
    | _ => none

def typeExpr : Reader TypeExpr
  | levels + 1, .obj [(some tag, part)] =>
    if tag = "Named" then (string levels part).map .named
    else if tag = "Slice" then (typeExpr levels part).map .slice
    else if tag = "Chan" then (typeExpr levels part).map .chan
    else if tag = "Array" then
      match levels, part with
      | levels + 1, .arr [elem, len] => do
        return .array (← typeExpr levels elem) (← word 64 levels len)
      | _, _ => none
    else if tag = "Map" then
      match levels, part with
      | levels + 1, .arr [key, value] => do
        return .map (← typeExpr levels key) (← typeExpr levels value)
      | _, _ => none
    else none
  | _, _ => none

/-- Two types, as an array. -/
def typePair : Reader (TypeExpr × TypeExpr)
  | levels + 1, .arr [key, value] => do return (← typeExpr levels key, ← typeExpr levels value)
  | _, _ => none

mutual

def expr : Reader Expr
  | 0, _ => none
  | levels + 1, v =>
    match record ["kind", "pos"] 1 v with
    | some [kind, pos] => do
      return .mk (← required (fun v => exprKind levels v) kind) (← place levels pos)
    | _ => none

def exprKind : Reader ExprKind
  | levels + 1, .obj [(some tag, part)] =>
    match tag with
    | "Literal" => (literal levels part).map .literal
    | "Ident" => (string levels part).map .ident
    | "Func" => (funcDef levels part).map .func
    | "Recv" => (expr levels part).map .recv
    | "New" => (typeExpr levels part).map .new
    | _ => exprParts tag levels part
  | _, _ => none

/-- The kinds of expressions with named parts. -/
def exprParts (tag : String) : Reader ExprKind
  | 0, _ => none
  | levels + 1, part =>
    match tag with
    | "Binary" =>
      match record ["op", "left", "right"] 0 part with
      | some [op, left, right] => do
        return .binary (← required (name BinaryOp.ofTag? levels) op)
          (← required (fun v => expr levels v) left) (← required (fun v => expr levels v) right)
      | _ => none
    | "Unary" =>
      match record ["op", "operand"] 0 part with
      | some [op, operand] => do
        return .unary (← required (name UnaryOp.ofTag? levels) op)
          (← required (fun v => expr levels v) operand)
      | _ => none
    | "Ternary" =>
      match record ["condition", "then_expr", "else_expr"] 0 part with
      | some [condition, thenExpr, elseExpr] => do
        return .ternary (← required (fun v => expr levels v) condition)
          (← required (fun v => expr levels v) thenExpr)
          (← required (fun v => expr levels v) elseExpr)
      | _ => none
    | "NilCoalesce" =>
      match record ["left", "right"] 0 part with
      | some [left, right] => do
        return .coalesce (← required (fun v => expr levels v) left)
          (← required (fun v => expr levels v) right)
      | _ => none
    | "Member" =>
      match record ["object", "name"] 0 part with
      | some [object, name] => do
        return .member (← required (fun v => expr levels v) object)
          (← required (string levels) name)
      | _ => none
    | "Index" =>
      match record ["object", "index"] 0 part with
      | some [object, index] => do
        return .index (← required (fun v => expr levels v) object)
          (← required (fun v => expr levels v) index)
      | _ => none
    | "Slice" =>
      match record ["object", "start", "end"] 0 part with
      | some [object, start, stop] => do
        return .slice (← required (fun v => expr levels v) object)
          (← optional (fun _ v => expr levels v) levels start)
          (← optional (fun _ v => expr levels v) levels stop)
      | _ => none
    | "Call" =>
      match record ["callee", "args", "spread"] 0 part with
      | some [callee, args, spread] => do
        return .call (← required (fun v => expr levels v) callee)
          (← required (fun v => exprs levels v) args) (← required (bool levels) spread)
      | _ => none
    | "List" =>
      match record ["elem_type", "items"] 0 part with
      | some [elemType, items] => do
        return .list (← optional typeExpr levels elemType)
          (← required (fun v => exprs levels v) items)
      | _ => none
    | "Map" =>
      match record ["types", "entries"] 0 part with
      | some [types, entries] => do
        return .map (← optional typePair levels types)
          (← required (fun v => entryList levels v) entries)
      | _ => none
    | "In" =>
      match record ["item", "container"] 0 part with
      | some [item, container] => do
        return .contains (← required (fun v => expr levels v) item)
          (← required (fun v => expr levels v) container)
      | _ => none
    | "Update" =>
      match record ["target", "op"] 0 part with
      | some [target, op] => do
        return .update (← required (fun v => expr levels v) target)
          (← required (name UpdateOp.ofTag? levels) op)
      | _ => none
    | "Make" =>
      match record ["ty", "args"] 0 part with
      | some [type, args] => do
        return .make (← required (typeExpr levels) type) (← required (fun v => exprs levels v) args)
      | _ => none
    | _ => none

def exprs : Reader (List Expr)
  | levels + 1, .arr items => items.mapM fun v => expr levels v
  | _, _ => none

/-- The entries of a map literal, each an array of key and value. -/
def entryList : Reader (List (Expr × Expr))
  | levels + 1, .arr items => items.mapM fun v => entry levels v
  | _, _ => none

def entry : Reader (Expr × Expr)
  | levels + 1, .arr [key, value] => do return (← expr levels key, ← expr levels value)
  | _, _ => none

def funcDef : Reader FuncDef
  | 0, _ => none
  | levels + 1, v =>
    match record ["name", "params", "variadic", "body"] 0 v with
    | some [name, params, variadic, body] => do
      return .mk (← optional string levels name) (← required (list string levels) params)
        (← required (bool levels) variadic) (← required (fun v => block levels v) body)
    | _ => none

def block : Reader (List Stmt)
  | levels + 1, .arr items => items.mapM fun v => stmt levels v
  | _, _ => none

def stmt : Reader Stmt
  | 0, _ => none
  | levels + 1, v =>
    match record ["kind", "pos"] 1 v with
    | some [kind, pos] => do
      return .mk (← required (fun v => stmtKind levels v) kind) (← place levels pos)
    | _ => none

def stmtKind : Reader StmtKind
  | levels + 1, .obj [(some tag, part)] =>
    match tag with
    | "Break" => match part with | .null => some .brk | _ => none
    | "Continue" => match part with | .null => some .cont | _ => none
    | "Expr" => (expr levels part).map .expr
    | "Func" => (funcDef levels part).map .func
    | "Return" => (exprs levels part).map .ret
    | "Throw" => (expr levels part).map .throw
    | "Defer" => (expr levels part).map .defer
    | "Go" => (expr levels part).map .go
    | "Block" => (block levels part).map .block
    | _ => stmtParts tag levels part
  | _, .str (some tag) =>
    if tag = "Break" then some .brk else if tag = "Continue" then some .cont else none
  | _, _ => none

/-- The kinds of statements with named parts. -/
def stmtParts (tag : String) : Reader StmtKind
  | 0, _ => none
  | levels + 1, part =>
    match tag with
    | "Var" =>
      match record ["names", "values"] 0 part with
      | some [names, values] => do
        return .var (← required (list string levels) names)
          (← required (fun v => exprs levels v) values)
      | _ => none
    | "Assign" =>
      match record ["targets", "values"] 0 part with
      | some [targets, values] => do
        return .assign (← required (fun v => exprs levels v) targets)
          (← required (fun v => exprs levels v) values)
      | _ => none
    | "OpAssign" =>
      match record ["target", "op", "value"] 0 part with
      | some [target, op, value] => do
        return .opAssign (← required (fun v => expr levels v) target)
          (← required (name BinaryOp.ofTag? levels) op) (← required (fun v => expr levels v) value)
      | _ => none
    | "If" =>
      match record ["condition", "then_block", "else_block"] 0 part with
      | some [condition, thenBlock, elseBlock] => do
        return .ifElse (← required (fun v => expr levels v) condition)
          (← required (fun v => block levels v) thenBlock)
          (← optional (fun _ v => block levels v) levels elseBlock)
      | _ => none
    | "Switch" =>
      match record ["discriminant", "cases", "default"] 0 part with
      | some [discriminant, cases, default] => do
        return .switch (← required (fun v => expr levels v) discriminant)
          (← required (fun v => switchCases levels v) cases)
          (← optional (fun _ v => block levels v) levels default)
      | _ => none
    | "Select" =>
      match record ["cases", "default"] 0 part with
      | some [cases, default] => do
        return .select (← required (fun v => selectCases levels v) cases)
          (← optional (fun _ v => block levels v) levels default)
      | _ => none
    | "Loop" =>
      match record ["condition", "body"] 0 part with
      | some [condition, body] => do
        return .loop (← optional (fun _ v => expr levels v) levels condition)
          (← required (fun v => block levels v) body)
      | _ => none
    | "ForClause" =>
      match record ["init", "condition", "post", "body"] 0 part with
      | some [init, condition, post, body] => do
        return .forClause (← optional (fun _ v => stmt levels v) levels init)
          (← optional (fun _ v => expr levels v) levels condition)
          (← optional (fun _ v => stmt levels v) levels post)
          (← required (fun v => block levels v) body)
      | _ => none
    | "ForIn" =>
      match record ["vars", "iterable", "body"] 0 part with
      | some [vars, iterable, body] => do
        return .forIn (← required (list string levels) vars)
          (← required (fun v => expr levels v) iterable) (← required (fun v => block levels v) body)
      | _ => none
    | "Try" =>
      match record ["body", "catch_var", "catch_block", "finally_block"] 0 part with
      | some [body, catchVar, catchBlock, finallyBlock] => do
        return .tryCatch (← required (fun v => block levels v) body)
          (← optional string levels catchVar)
          (← optional (fun _ v => block levels v) levels catchBlock)
          (← optional (fun _ v => block levels v) levels finallyBlock)
      | _ => none
    | "Module" =>
      match record ["name", "body"] 0 part with
      | some [name, body] => do
        return .module (← required (string levels) name) (← required (fun v => block levels v) body)
      | _ => none
    | "Send" =>
      match record ["channel", "value"] 0 part with
      | some [channel, value] => do
        return .send (← required (fun v => expr levels v) channel)
          (← required (fun v => expr levels v) value)
      | _ => none
    | _ => none

def switchCases : Reader (List SwitchCase)
  | levels + 1, .arr items => items.mapM fun v => switchCase levels v
  | _, _ => none

def switchCase : Reader SwitchCase
  | 0, _ => none
  | levels + 1, v =>
    match record ["values", "body"] 0 v with
    | some [values, body] => do
      return .mk (← required (fun v => exprs levels v) values)
        (← required (fun v => block levels v) body)
    | _ => none

def selectCases : Reader (List SelectCase)
  | levels + 1, .arr items => items.mapM fun v => selectCase levels v
  | _, _ => none

def selectCase : Reader SelectCase
  | 0, _ => none
  | levels + 1, v =>
    match record ["op", "body"] 0 v with
    | some [op, body] => do
      return .mk (← required (fun v => selectOp levels v) op)
        (← required (fun v => block levels v) body)
    | _ => none

def selectOp : Reader SelectOp
  | levels + 1, .obj [(some tag, part)] => selectParts tag levels part
  | _, _ => none

def selectParts (tag : String) : Reader SelectOp
  | 0, _ => none
  | levels + 1, part =>
    match tag with
    | "Recv" =>
      match record ["channel", "value", "ok"] 0 part with
      | some [channel, value, ok] => do
        return .recv (← required (fun v => expr levels v) channel) (← optional string levels value)
          (← optional string levels ok)
      | _ => none
    | "Send" =>
      match record ["channel", "value"] 0 part with
      | some [channel, value] => do
        return .send (← required (fun v => expr levels v) channel)
          (← required (fun v => expr levels v) value)
      | _ => none
    | _ => none

end

end ScriptEngine.Decode

namespace ScriptEngine

/-- The script whose JSON form is `v`, looking at most `levels` arrays and objects deep. -/
def Block.ofJson? (levels : Nat) (v : Json) : Option Block := Decode.block levels v

/-- The type whose JSON form is `v`, however deep it is nested. -/
def TypeExpr.ofJson? (v : Json) : Option TypeExpr := Decode.typeExpr (v.depth + 1) v

end ScriptEngine
