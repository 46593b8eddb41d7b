import ScriptEngine.Tree.Basic

/-! # Properties that parts inherit

A property of trees is **hereditary** (`TreeProperty.Hereditary`) if a node that has it hands it on to
its parts.  One look at each kind of node then says something about all that is written in a tree:
whatever is gathered where the property holds is gathered inside a tree that has it
(`TreeProperty.Hereditary.forall_mem_stmts`).  The induction over the syntax is here once.
-/

/-! ## Gathering from a tree

Some questions about a script are about all the places of a kind in it: which numbers are written
there, which bodies.  A `Gatherer` says what to take at a literal, at the body of a function or of a
module, and at a node as such; it is carried through the whole tree, expressions included, in reading
order.
-/
namespace ScriptEngine

/-- A node of a tree: a statement, an expression, or a function that is written in one of them. -/
inductive TreeNode where
  | stmt (kind : StmtKind)
  | expr (kind : ExprKind)
  | func (definition : FuncDef)

/-- What is gathered, and where. -/
structure Gatherer (α : Type) where
  literal : Literal → List α
  /-- At the body of a function or of a module, before what is inside it. -/
  body : Block → List α
  /-- At any node, before what is inside it. -/
  node : TreeNode → List α := fun _ => []

namespace Gatherer

variable {α : Type}

mutual

def stmts (g : Gatherer α) : List Stmt → List α
  | [] => []
  | s :: rest => g.stmt s ++ g.stmts rest

def stmt (g : Gatherer α) : Stmt → List α
  | .mk kind _ => g.node (.stmt kind) ++ g.stmtKind kind

def optionBlock (g : Gatherer α) : Option (List Stmt) → List α
  | none => []
  | some body => g.stmts body

def optionStmt (g : Gatherer α) : Option Stmt → List α
  | none => []
  | some s => g.stmt s

def stmtKind (g : Gatherer α) : StmtKind → List α
  | .expr e | .throw e | .defer e | .go e => g.expr e
  | .var _ values | .ret values => g.exprs values
  | .assign targets values => g.exprs targets ++ g.exprs values
  | .opAssign target _ value => g.expr target ++ g.expr value
  | .ifElse condition thenBlock elseBlock =>
    g.expr condition ++ (g.stmts thenBlock ++ g.optionBlock elseBlock)
  | .switch discriminant cases default =>
    g.expr discriminant ++ (g.switchCases cases ++ g.optionBlock default)
  | .select cases default => g.selectCases cases ++ g.optionBlock default
  | .loop condition body => g.optionExpr condition ++ g.stmts body
  | .forClause init condition post body =>
    g.optionStmt init ++ (g.optionExpr condition ++ (g.optionStmt post ++ g.stmts body))
  | .forIn _ iterable body => g.expr iterable ++ g.stmts body
  | .func definition => g.func definition
  | .brk | .cont => []
  | .tryCatch body _ handler last => g.stmts body ++ (g.optionBlock handler ++ g.optionBlock last)
  | .module _ body => g.body body ++ g.stmts body
  | .send channel value => g.expr channel ++ g.expr value
  | .block body => g.stmts body

def switchCases (g : Gatherer α) : List SwitchCase → List α
  | [] => []
  | c :: rest => g.switchCase c ++ g.switchCases rest

def switchCase (g : Gatherer α) : SwitchCase → List α
  | .mk values body => g.exprs values ++ g.stmts body

def selectCases (g : Gatherer α) : List SelectCase → List α
  | [] => []
  | c :: rest => g.selectCase c ++ g.selectCases rest

def selectCase (g : Gatherer α) : SelectCase → List α
  | .mk op body => g.selectOp op ++ g.stmts body

def selectOp (g : Gatherer α) : SelectOp → List α
  | .recv channel _ _ => g.expr channel
  | .send channel value => g.expr channel ++ g.expr value

def func (g : Gatherer α) : FuncDef → List α
  | .mk name params variadic body =>
    g.node (.func (.mk name params variadic body)) ++ (g.body body ++ g.stmts body)

def expr (g : Gatherer α) : Expr → List α
  | .mk kind _ => g.node (.expr kind) ++ g.exprKind kind

def exprKind (g : Gatherer α) : ExprKind → List α
  | .literal value => g.literal value
  | .new _ | .ident _ => []
  | .binary _ left right | .coalesce left right | .contains left right | .index left right =>
    g.expr left ++ g.expr right
  | .unary _ operand | .recv operand | .update operand _ | .member operand _ => g.expr operand
  | .ternary condition thenExpr elseExpr => g.expr condition ++ (g.expr thenExpr ++ g.expr elseExpr)
  | .slice object start stop => g.expr object ++ (g.optionExpr start ++ g.optionExpr stop)
  | .call callee args _ => g.expr callee ++ g.exprs args
  | .func definition => g.func definition
  | .list _ items | .make _ items => g.exprs items
  | .map _ items => g.entries items

def optionExpr (g : Gatherer α) : Option Expr → List α
  | none => []
  | some e => g.expr e

def exprs (g : Gatherer α) : List Expr → List α
  | [] => []
  | e :: rest => g.expr e ++ g.exprs rest

def entries (g : Gatherer α) : List (Expr × Expr) → List α
  | [] => []
  | entry :: rest => g.entry entry ++ g.entries rest

def entry (g : Gatherer α) : Expr × Expr → List α
  | (key, value) => g.expr key ++ g.expr value

end

end Gatherer

end ScriptEngine

namespace ScriptEngine

/-- Something that is said of trees. -/
structure TreeProperty where
  expr : Expr → Prop
  stmt : Stmt → Prop
  block : Block → Prop
  /-- Said of the body of a function or of a module. -/
  body : Block → Prop
  func : FuncDef → Prop

section
variable (P : TreeProperty)

def SelectOp.PartsHave : SelectOp → Prop
  | .recv channel _ _ => P.expr channel
  | .send channel value => P.expr channel ∧ P.expr value

def SelectCase.PartsHave : SelectCase → Prop
  | .mk op body => op.PartsHave P ∧ P.block body

def SwitchCase.PartsHave : SwitchCase → Prop
  | .mk values body => (∀ e ∈ values, P.expr e) ∧ P.block body

/-- The parts of the expression have the property. -/
def ExprKind.PartsHave : ExprKind → Prop
  | .literal _ | .new _ | .ident _ => True
  | .binary _ left right | .coalesce left right | .contains left right | .index left right =>
    P.expr left ∧ P.expr right
  | .unary _ operand | .recv operand | .update operand _ | .member operand _ => P.expr operand
  | .ternary condition thenExpr elseExpr => P.expr condition ∧ P.expr thenExpr ∧ P.expr elseExpr
  | .slice object start stop =>
    P.expr object ∧ (∀ e ∈ start, P.expr e) ∧ ∀ e ∈ stop, P.expr e
  | .call callee args _ => P.expr callee ∧ ∀ e ∈ args, P.expr e
  | .func definition => P.func definition
  | .list _ items | .make _ items => ∀ e ∈ items, P.expr e
  | .map _ entries => ∀ entry ∈ entries, P.expr entry.1 ∧ P.expr entry.2

/-- The parts of the statement have the property. -/
def StmtKind.PartsHave : StmtKind → Prop
  | .expr e | .throw e | .defer e | .go e => P.expr e
  | .var _ values | .ret values => ∀ e ∈ values, P.expr e
  | .assign targets values => (∀ e ∈ targets, P.expr e) ∧ ∀ e ∈ values, P.expr e
  | .opAssign target _ value => P.expr target ∧ P.expr value
  | .ifElse condition thenBlock elseBlock =>
    P.expr condition ∧ P.block thenBlock ∧ ∀ body ∈ elseBlock, P.block body
  | .switch discriminant cases default =>
    P.expr discriminant ∧ (∀ c ∈ cases, c.PartsHave P) ∧ ∀ body ∈ default, P.block body
  | .select cases default => (∀ c ∈ cases, c.PartsHave P) ∧ ∀ body ∈ default, P.block body
  | .loop condition body => (∀ e ∈ condition, P.expr e) ∧ P.block body
  | .forClause init condition post body =>
    (∀ s ∈ init, P.stmt s) ∧ (∀ e ∈ condition, P.expr e) ∧ (∀ s ∈ post, P.stmt s) ∧ P.block body
  | .forIn _ iterable body => P.expr iterable ∧ P.block body
  | .func definition => P.func definition
  | .brk | .cont => True
  | .tryCatch body _ handler last =>
    P.block body ∧ (∀ body ∈ handler, P.block body) ∧ ∀ body ∈ last, P.block body
  | .module _ body => P.body body
  | .send channel value => P.expr channel ∧ P.expr value
  | .block body => P.block body

end

namespace TreeProperty
variable {α : Type} {P : TreeProperty} {g : Gatherer α} {Q : α → Prop}

/-- **The parts of what has the property have it too.** -/
structure Hereditary (P : TreeProperty) : Prop where
  expr : ∀ {e}, P.expr e → e.kind.PartsHave P
  stmt : ∀ {s}, P.stmt s → s.kind.PartsHave P
  cons : ∀ {s rest}, P.block (s :: rest) → P.stmt s ∧ P.block rest
  body : ∀ {body}, P.body body → P.block body
  func : ∀ {definition}, P.func definition → P.body definition.body

/-- At places that have the property only such things are gathered. -/
structure Gathers (P : TreeProperty) (g : Gatherer α) (Q : α → Prop) : Prop where
  literal : ∀ v, ∀ x ∈ g.literal v, Q x
  body : ∀ {body}, P.body body → ∀ x ∈ g.body body, Q x
  expr : ∀ {e}, P.expr e → ∀ x ∈ g.node (.expr e.kind), Q x
  stmt : ∀ {s}, P.stmt s → ∀ x ∈ g.node (.stmt s.kind), Q x
  func : ∀ {definition}, P.func definition → ∀ x ∈ g.node (.func definition), Q x

namespace Hereditary
variable (hP : P.Hereditary) (hg : P.Gathers g Q)
include hP hg

-- The linter looks at each theorem of the mutual block alone.
set_option linter.unusedSectionVars false

-- Along the recursion of the gatherer: one case for each way in which parts stand in a node.
mutual

theorem forall_mem_stmts : {body : List Stmt} → P.block body → ∀ x ∈ g.stmts body, Q x
  | [], _ => List.forall_mem_nil _
  | _ :: _, h =>
    List.forall_mem_append.mpr ⟨forall_mem_stmt (hP.cons h).1, forall_mem_stmts (hP.cons h).2⟩

theorem forall_mem_stmt : {s : Stmt} → P.stmt s → ∀ x ∈ g.stmt s, Q x
  | .mk _ _, h => List.forall_mem_append.mpr ⟨hg.stmt h, forall_mem_stmtKind (hP.stmt h)⟩

theorem forall_mem_optionBlock : {body : Option (List Stmt)} → (∀ b ∈ body, P.block b) →
    ∀ x ∈ g.optionBlock body, Q x
  | none, _ => List.forall_mem_nil _
  | some _, h => forall_mem_stmts (h _ rfl)

theorem forall_mem_optionStmt : {s : Option Stmt} → (∀ x ∈ s, P.stmt x) →
    ∀ x ∈ g.optionStmt s, Q x
  | none, _ => List.forall_mem_nil _
  | some _, h => forall_mem_stmt (h _ rfl)

theorem forall_mem_stmtKind : {kind : StmtKind} → kind.PartsHave P → ∀ x ∈ g.stmtKind kind, Q x
  | .expr _, h | .throw _, h | .defer _, h | .go _, h => forall_mem_expr h
  | .var _ _, h | .ret _, h => forall_mem_exprs h
  | .assign _ _, h =>
    List.forall_mem_append.mpr ⟨forall_mem_exprs h.1, forall_mem_exprs h.2⟩
  | .opAssign _ _ _, h | .send _ _, h =>
    List.forall_mem_append.mpr ⟨forall_mem_expr h.1, forall_mem_expr h.2⟩
  | .ifElse _ _ _, h =>
    List.forall_mem_append.mpr ⟨forall_mem_expr h.1,
      List.forall_mem_append.mpr ⟨forall_mem_stmts h.2.1, forall_mem_optionBlock h.2.2⟩⟩
  | .switch _ _ _, h =>
    List.forall_mem_append.mpr ⟨forall_mem_expr h.1,
      List.forall_mem_append.mpr ⟨forall_mem_switchCases h.2.1, forall_mem_optionBlock h.2.2⟩⟩
  | .select _ _, h =>
    List.forall_mem_append.mpr ⟨forall_mem_selectCases h.1, forall_mem_optionBlock h.2⟩
  | .loop _ _, h => List.forall_mem_append.mpr ⟨forall_mem_optionExpr h.1, forall_mem_stmts h.2⟩
  | .forClause _ _ _ _, h =>
    List.forall_mem_append.mpr ⟨forall_mem_optionStmt h.1,
      List.forall_mem_append.mpr ⟨forall_mem_optionExpr h.2.1,
        List.forall_mem_append.mpr ⟨forall_mem_optionStmt h.2.2.1, forall_mem_stmts h.2.2.2⟩⟩⟩
  | .forIn _ _ _, h => List.forall_mem_append.mpr ⟨forall_mem_expr h.1, forall_mem_stmts h.2⟩
  | .func _, h => forall_mem_func h
  | .brk, _ | .cont, _ => List.forall_mem_nil _
  | .tryCatch _ _ _ _, h =>
    List.forall_mem_append.mpr ⟨forall_mem_stmts h.1,
      List.forall_mem_append.mpr ⟨forall_mem_optionBlock h.2.1, forall_mem_optionBlock h.2.2⟩⟩
  | .module _ _, h => List.forall_mem_append.mpr ⟨hg.body h, forall_mem_stmts (hP.body h)⟩
  | .block _, h => forall_mem_stmts h

theorem forall_mem_switchCases : {cases : List SwitchCase} → (∀ c ∈ cases, c.PartsHave P) →
    ∀ x ∈ g.switchCases cases, Q x
  | [], _ => List.forall_mem_nil _
  | .mk _ _ :: _, h =>
    have hparts := List.forall_mem_cons.mp h
    List.forall_mem_append.mpr ⟨List.forall_mem_append.mpr
      ⟨forall_mem_exprs hparts.1.1, forall_mem_stmts hparts.1.2⟩, forall_mem_switchCases hparts.2⟩

theorem forall_mem_selectCases : {cases : List SelectCase} → (∀ c ∈ cases, c.PartsHave P) →
    ∀ x ∈ g.selectCases cases, Q x
  | [], _ => List.forall_mem_nil _
  | .mk _ _ :: _, h =>
    have hparts := List.forall_mem_cons.mp h
    List.forall_mem_append.mpr ⟨List.forall_mem_append.mpr
      ⟨forall_mem_selectOp hparts.1.1, forall_mem_stmts hparts.1.2⟩, forall_mem_selectCases hparts.2⟩

theorem forall_mem_selectOp : {op : SelectOp} → op.PartsHave P → ∀ x ∈ g.selectOp op, Q x
  | .recv _ _ _, h => forall_mem_expr h
  | .send _ _, h => List.forall_mem_append.mpr ⟨forall_mem_expr h.1, forall_mem_expr h.2⟩

theorem forall_mem_func : {definition : FuncDef} → P.func definition →
    ∀ x ∈ g.func definition, Q x
  | .mk _ _ _ _, h =>
    List.forall_mem_append.mpr ⟨hg.func h, List.forall_mem_append.mpr
      ⟨hg.body (hP.func h), forall_mem_stmts (hP.body (hP.func h))⟩⟩

theorem forall_mem_expr : {e : Expr} → P.expr e → ∀ x ∈ g.expr e, Q x
  | .mk _ _, h => List.forall_mem_append.mpr ⟨hg.expr h, forall_mem_exprKind (hP.expr h)⟩

theorem forall_mem_exprKind : {kind : ExprKind} → kind.PartsHave P → ∀ x ∈ g.exprKind kind, Q x
  | .literal v, _ => hg.literal v
  | .new _, _ | .ident _, _ => List.forall_mem_nil _
  | .binary _ _ _, h | .coalesce _ _, h | .contains _ _, h | .index _ _, h =>
    List.forall_mem_append.mpr ⟨forall_mem_expr h.1, forall_mem_expr h.2⟩
  | .unary _ _, h | .recv _, h | .update _ _, h | .member _ _, h => forall_mem_expr h
  | .ternary _ _ _, h =>
    List.forall_mem_append.mpr ⟨forall_mem_expr h.1,
      List.forall_mem_append.mpr ⟨forall_mem_expr h.2.1, forall_mem_expr h.2.2⟩⟩
  | .slice _ _ _, h =>
    List.forall_mem_append.mpr ⟨forall_mem_expr h.1,
      List.forall_mem_append.mpr ⟨forall_mem_optionExpr h.2.1, forall_mem_optionExpr h.2.2⟩⟩
  | .call _ _ _, h => List.forall_mem_append.mpr ⟨forall_mem_expr h.1, forall_mem_exprs h.2⟩
  | .func _, h => forall_mem_func h
  | .list _ _, h | .make _ _, h => forall_mem_exprs h
  | .map _ _, h => forall_mem_entries h

theorem forall_mem_optionExpr : {e : Option Expr} → (∀ x ∈ e, P.expr x) →
    ∀ x ∈ g.optionExpr e, Q x
  | none, _ => List.forall_mem_nil _
  | some _, h => forall_mem_expr (h _ rfl)

theorem forall_mem_exprs : {es : List Expr} → (∀ e ∈ es, P.expr e) → ∀ x ∈ g.exprs es, Q x
  | [], _ => List.forall_mem_nil _
  | _ :: _, h =>
    have hparts := List.forall_mem_cons.mp h
    List.forall_mem_append.mpr ⟨forall_mem_expr hparts.1, forall_mem_exprs hparts.2⟩

theorem forall_mem_entries : {entries : List (Expr × Expr)} →
    (∀ entry ∈ entries, P.expr entry.1 ∧ P.expr entry.2) → ∀ x ∈ g.entries entries, Q x
  | [], _ => List.forall_mem_nil _
  | (_, _) :: _, h =>
    have hparts := List.forall_mem_cons.mp h
    List.forall_mem_append.mpr ⟨List.forall_mem_append.mpr
      ⟨forall_mem_expr hparts.1.1, forall_mem_expr hparts.1.2⟩, forall_mem_entries hparts.2⟩

end

end Hereditary
end TreeProperty

end ScriptEngine
