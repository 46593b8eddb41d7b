import ScriptEngine.Json.Basic
import ScriptEngine.Tree.Basic

/-! The JSON form of trees. A node of several kinds is a string if its kind has no parts and else an
object with one field named for the kind; the parts of a kind stand in the order of their
declaration, and every part is written, absent ones as null. -/
namespace ScriptEngine

/-- The value of an optional part. -/
def Json.ofOption {α : Type} (f : α → Json) : Option α → Json
  | some a => f a
  | none => .null

/-- A kind with one unnamed part. -/
def Json.tagged (tag : String) (part : Json) : Json := .object [(tag, part)]

/-- A kind with named parts. -/
def Json.variant (tag : String) (parts : List (String × Json)) : Json := .tagged tag (.object parts)

def Position.toJson (p : Position) : Json :=
  .object [("line", .nat p.line), ("column", .nat p.column)]

def Literal.toJson : Literal → Json
  | .nil => .string "Nil"
  | .bool b => .tagged "Bool" (.bool b)
  | .int n => .tagged "Int" (.int n.toInt)
  | .float x => .tagged "Float" (.float x)
  | .string s => .tagged "String" (.string s)

def TypeExpr.toJson : TypeExpr → Json
  | .named name => .tagged "Named" (.string name)
  | .slice elem => .tagged "Slice" elem.toJson
  | .array elem len => .tagged "Array" (.arr [elem.toJson, .nat len])
  | .map key value => .tagged "Map" (.arr [key.toJson, value.toJson])
  | .chan elem => .tagged "Chan" elem.toJson

mutual

def Expr.toJson : Expr → Json
  | .mk kind pos => .object [("kind", kind.toJson), ("pos", pos.toJson)]

def ExprKind.toJson : ExprKind → Json
  | .literal value => .tagged "Literal" value.toJson
  | .ident name => .tagged "Ident" (.string name)
  | .binary op left right =>
    .variant "Binary" [("op", .string op.tag), ("left", left.toJson), ("right", right.toJson)]
  | .unary op operand => .variant "Unary" [("op", .string op.tag), ("operand", operand.toJson)]
  | .ternary condition thenExpr elseExpr =>
    .variant "Ternary" [("condition", condition.toJson), ("then_expr", thenExpr.toJson),
      ("else_expr", elseExpr.toJson)]
  | .coalesce left right =>
    .variant "NilCoalesce" [("left", left.toJson), ("right", right.toJson)]
  | .member object name => .variant "Member" [("object", object.toJson), ("name", .string name)]
  | .index object index => .variant "Index" [("object", object.toJson), ("index", index.toJson)]
  | .slice object start stop =>
    .variant "Slice" [("object", object.toJson), ("start", optionExprToJson start),
      ("end", optionExprToJson stop)]
  | .call callee args spread =>
    .variant "Call" [("callee", callee.toJson), ("args", .arr (exprsToJson args)),
      ("spread", .bool spread)]
  | .func definition => .tagged "Func" definition.toJson
  | .list elemType items =>
    .variant "List" [("elem_type", .ofOption TypeExpr.toJson elemType),
      ("items", .arr (exprsToJson items))]
  | .map types entries =>
    .variant "Map" [("types", .ofOption (fun (k, v) => .arr [k.toJson, v.toJson]) types),
      ("entries", .arr (entriesToJson entries))]
  | .contains item container =>
    .variant "In" [("item", item.toJson), ("container", container.toJson)]
  | .update target op => .variant "Update" [("target", target.toJson), ("op", .string op.tag)]
  | .recv channel => .tagged "Recv" channel.toJson
  | .make type args => .variant "Make" [("ty", type.toJson), ("args", .arr (exprsToJson args))]
  | .new type => .tagged "New" type.toJson

def FuncDef.toJson : FuncDef → Json
  | .mk name params variadic body =>
    .object [("name", .ofOption .string name), ("params", .strings params),
      ("variadic", .bool variadic), ("body", .arr (blockToJson body))]

def Stmt.toJson : Stmt → Json
  | .mk kind pos => .object [("kind", kind.toJson), ("pos", pos.toJson)]

def StmtKind.toJson : StmtKind → Json
  | .expr value => .tagged "Expr" value.toJson
  | .var names values =>
    .variant "Var" [("names", .strings names), ("values", .arr (exprsToJson values))]
  | .assign targets values =>
    .variant "Assign" [("targets", .arr (exprsToJson targets)),
      ("values", .arr (exprsToJson values))]
  | .opAssign target op value =>
    .variant "OpAssign" [("target", target.toJson), ("op", .string op.tag),
      ("value", value.toJson)]
  | .ifElse condition thenBlock elseBlock =>
    .variant "If" [("condition", condition.toJson), ("then_block", .arr (blockToJson thenBlock)),
      ("else_block", optionBlockToJson elseBlock)]
  | .switch discriminant cases default =>
    .variant "Switch" [("discriminant", discriminant.toJson),
      ("cases", .arr (switchCasesToJson cases)), ("default", optionBlockToJson default)]
  | .select cases default =>
    .variant "Select" [("cases", .arr (selectCasesToJson cases)),
      ("default", optionBlockToJson default)]
  | .loop condition body =>
    .variant "Loop" [("condition", optionExprToJson condition), ("body", .arr (blockToJson body))]
  | .forClause init condition post body =>
    .variant "ForClause" [("init", optionStmtToJson init),
      ("condition", optionExprToJson condition), ("post", optionStmtToJson post),
      ("body", .arr (blockToJson body))]
  | .forIn vars iterable body =>
    .variant "ForIn" [("vars", .strings vars), ("iterable", iterable.toJson),
      ("body", .arr (blockToJson body))]
  | .func definition => .tagged "Func" definition.toJson
  | .ret values => .tagged "Return" (.arr (exprsToJson values))
  | .brk => .string "Break"
  | .cont => .string "Continue"
  | .throw value => .tagged "Throw" value.toJson
  | .tryCatch body catchVar catchBlock finallyBlock =>
    .variant "Try" [("body", .arr (blockToJson body)), ("catch_var", .ofOption .string catchVar),
      ("catch_block", optionBlockToJson catchBlock),
      ("finally_block", optionBlockToJson finallyBlock)]
  | .defer call => .tagged "Defer" call.toJson
  | .module name body =>
    .variant "Module" [("name", .string name), ("body", .arr (blockToJson body))]
  | .go call => .tagged "Go" call.toJson
  | .send channel value =>
    .variant "Send" [("channel", channel.toJson), ("value", value.toJson)]
  | .block body => .tagged "Block" (.arr (blockToJson body))

def SwitchCase.toJson : SwitchCase → Json
  | .mk values body =>
    .object [("values", .arr (exprsToJson values)), ("body", .arr (blockToJson body))]

def SelectCase.toJson : SelectCase → Json
  | .mk op body => .object [("op", op.toJson), ("body", .arr (blockToJson body))]

def SelectOp.toJson : SelectOp → Json
  | .recv channel value ok =>
    .variant "Recv" [("channel", channel.toJson), ("value", .ofOption .string value),
      ("ok", .ofOption .string ok)]
  | .send channel value =>
    .variant "Send" [("channel", channel.toJson), ("value", value.toJson)]

def optionExprToJson : Option Expr → Json
  | none => .null
  | some e => e.toJson

def optionStmtToJson : Option Stmt → Json
  | none => .null
  | some s => s.toJson

def optionBlockToJson : Option (List Stmt) → Json
  | none => .null
  | some body => .arr (blockToJson body)

def exprsToJson : List Expr → List Json
  | [] => []
  | e :: rest => e.toJson :: exprsToJson rest

def entriesToJson : List (Expr × Expr) → List Json
  | [] => []
  | (k, v) :: rest => .arr [k.toJson, v.toJson] :: entriesToJson rest

def blockToJson : List Stmt → List Json
  | [] => []
  | s :: rest => s.toJson :: blockToJson rest

def switchCasesToJson : List SwitchCase → List Json
  | [] => []
  | c :: rest => c.toJson :: switchCasesToJson rest

def selectCasesToJson : List SelectCase → List Json
  | [] => []
  | c :: rest => c.toJson :: selectCasesToJson rest

end

/-- The JSON form of a whole script. -/
def Block.toJson (body : Block) : Json := .arr (blockToJson body)

end ScriptEngine
