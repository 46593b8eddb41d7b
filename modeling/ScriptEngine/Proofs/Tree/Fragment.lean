import ScriptEngine.Fault
import ScriptEngine.Proofs.Tree.Heredity
import ScriptEngine.Validation

/-! # Fragments of the language

A **fragment** of the language is what the nodes of a tree may be.  A tree is in a fragment if all its
nodes are, at any depth, those inside functions included; so the parts of a node that is in a fragment
are in it too, and evaluation, which goes from nodes to their parts, never leaves the fragment.

What evaluation can do depends on the fragment: a name is bound only if some node names it
(`Fragment.Binds`), and evaluation comes upon something that does not fit only at a node that has it
about it (`Fragment.Allows`).
-/
namespace ScriptEngine

/-! ## What a node has about it -/

namespace Expr

/-- The name that is bound if the expression is assigned to: a name on its own, or one in something
that may turn out to be a package. -/
def boundName? : Expr → Option String
  | .mk (.ident name) _ => some name
  | .mk (.member (.mk (.ident _) _) name) _ => some name
  | _ => none

/-- What is amiss with the expression as something to assign to. -/
def flawsOfTarget (e : Expr) : List Misfit :=
  if Validation.isAssignable e.kind then [] else [.target]

/-- What is amiss with the expression as a call. -/
def flawsOfCall (keyword : String) (e : Expr) : List Misfit :=
  if Validation.isCall e.kind then [] else [.call keyword]

end Expr

/-- The names that the case binds to what it received. -/
def SelectCase.names : SelectCase → List String
  | .mk (.recv _ value ok) _ => value.toList ++ ok.toList
  | .mk (.send _ _) _ => []

/-- What is amiss with the function. -/
def FuncDef.flaws (definition : FuncDef) : List Misfit :=
  if definition.variadic && definition.params.isEmpty then [.parameters definition.displayName] else []

namespace TreeNode

/-- The names that evaluating the node may bind. -/
def names : TreeNode → List String
  | .stmt (.var names _) | .stmt (.forIn names _ _) => names
  | .stmt (.assign targets _) => targets.filterMap Expr.boundName?
  | .stmt (.opAssign target _ _) => target.boundName?.toList
  | .stmt (.select cases _) => cases.flatMap SelectCase.names
  | .stmt (.tryCatch _ catchVar _ _) => catchVar.toList
  | .stmt (.module name _) => [name]
  | .func definition => definition.name.toList ++ definition.params
  | _ => []

/-- What is amiss with the structure of the node. -/
def flaws : TreeNode → List Misfit
  | .stmt (.assign targets _) => targets.flatMap Expr.flawsOfTarget
  | .stmt (.opAssign target _ _) | .expr (.update target _) => target.flawsOfTarget
  | .stmt (.defer e) => e.flawsOfCall "defer"
  | .stmt (.go e) => e.flawsOfCall "go"
  | .func definition => definition.flaws
  | _ => []

/-- What does not fit, and evaluating the node may come upon. -/
def misfits (n : TreeNode) : List Misfit :=
  n.flaws ++ (n.names.filter (!isIdentifier ·)).map .name

end TreeNode

/-! ## Fragments -/

/-- What the nodes of a tree may be. -/
abbrev Fragment := TreeNode → Prop

namespace Fragment

/-- The whole language. -/
abbrev all : Fragment := fun _ => True

variable (L : Fragment)

/-- Some node names what is bound. -/
def Binds (name : String) : Prop := ∃ n, L n ∧ name ∈ n.names

/-- Some node has about it what does not fit. -/
def Allows (m : Misfit) : Prop := ∃ n, L n ∧ m ∈ n.misfits

/-- Some node is a module. -/
def Modular : Prop := ∃ name body, L (.stmt (.module name body))

/-- Some node is a function. -/
def Functional : Prop := ∃ definition, L (.func definition)

/-- Some node starts a task. -/
def Concurrent : Prop := ∃ e, L (.stmt (.go e))

variable {L}

theorem allows_of_flaw {n : TreeNode} (hn : L n) {m : Misfit} (hm : m ∈ n.flaws) : L.Allows m :=
  ⟨n, hn, List.mem_append_left _ hm⟩

theorem Binds.allows {name : String} (hname : L.Binds name) (hbad : isIdentifier name = false) :
    L.Allows (.name name) := by
  obtain ⟨n, hn, hmem⟩ := hname
  refine ⟨n, hn, List.mem_append_right _ (List.mem_map_of_mem (List.mem_filter.mpr ⟨hmem, ?_⟩))⟩
  rw [hbad]
  rfl

end Fragment

/-! ## Trees in a fragment -/

/-- Gathers the nodes. -/
def Gatherer.nodes : Gatherer TreeNode where
  literal _ := []
  body _ := []
  node n := [n]

/-- The nodes of a script, at any depth. -/
def Block.nodes (script : Block) : List TreeNode := Gatherer.nodes.stmts script

section
variable (L : Fragment)

/-- All nodes of the expression are of the fragment. -/
def Expr.In (e : Expr) : Prop := ∀ n ∈ Gatherer.nodes.expr e, L n

/-- All nodes of the statement are of the fragment. -/
def Stmt.In (s : Stmt) : Prop := ∀ n ∈ Gatherer.nodes.stmt s, L n

/-- All nodes of the block are of the fragment. -/
def Block.In (body : Block) : Prop := ∀ n ∈ body.nodes, L n

/-- The function and all nodes inside it are of the fragment. -/
def FuncDef.In (definition : FuncDef) : Prop := ∀ n ∈ Gatherer.nodes.func definition, L n

/-- Being of the fragment, as a property of trees. -/
def Fragment.inside : TreeProperty := ⟨Expr.In L, Stmt.In L, Block.In L, Block.In L, FuncDef.In L⟩

/-- The operation of a case is of the fragment. -/
abbrev SelectOp.In (op : SelectOp) : Prop := op.PartsHave L.inside

abbrev SelectCase.In (c : SelectCase) : Prop := c.PartsHave L.inside

abbrev SwitchCase.In (c : SwitchCase) : Prop := c.PartsHave L.inside

/-- The parts of the expression are of the fragment. -/
abbrev ExprKind.PartsIn (kind : ExprKind) : Prop := kind.PartsHave L.inside

/-- The parts of the statement are of the fragment. -/
abbrev StmtKind.PartsIn (kind : StmtKind) : Prop := kind.PartsHave L.inside

/-- A function that a script made is of the fragment. -/
def Function.In : Function → Prop
  | .script definition _ _ => definition.In L
  | .host _ => True

/-! ## The parts of a node -/

variable {L}

theorem forall_mem_exprs {es : List Expr} (h : ∀ n ∈ Gatherer.nodes.exprs es, L n) :
    ∀ e ∈ es, e.In L := by
  induction es with
  | nil => exact List.forall_mem_nil _
  | cons e rest ih =>
    obtain ⟨he, hrest⟩ := List.forall_mem_append.mp h
    exact List.forall_mem_cons.mpr ⟨he, ih hrest⟩

theorem forall_mem_entries {entries : List (Expr × Expr)}
    (h : ∀ n ∈ Gatherer.nodes.entries entries, L n) :
    ∀ entry ∈ entries, entry.1.In L ∧ entry.2.In L := by
  induction entries with
  | nil => exact List.forall_mem_nil _
  | cons entry rest ih =>
    obtain ⟨key, value⟩ := entry
    obtain ⟨hentry, hrest⟩ := List.forall_mem_append.mp h
    exact List.forall_mem_cons.mpr ⟨List.forall_mem_append.mp hentry, ih hrest⟩

theorem forall_mem_optionExpr {e : Option Expr} (h : ∀ n ∈ Gatherer.nodes.optionExpr e, L n) :
    ∀ x ∈ e, x.In L := by
  rintro x rfl
  exact h

theorem forall_mem_optionStmt {s : Option Stmt} (h : ∀ n ∈ Gatherer.nodes.optionStmt s, L n) :
    ∀ x ∈ s, x.In L := by
  rintro x rfl
  exact h

theorem forall_mem_optionBlock {body : Option Block}
    (h : ∀ n ∈ Gatherer.nodes.optionBlock body, L n) : ∀ x ∈ body, Block.In L x := by
  rintro x rfl
  exact h

theorem forall_mem_switchCases {cases : List SwitchCase}
    (h : ∀ n ∈ Gatherer.nodes.switchCases cases, L n) : ∀ c ∈ cases, c.In L := by
  induction cases with
  | nil => exact List.forall_mem_nil _
  | cons c rest ih =>
    obtain ⟨hcase, hrest⟩ := List.forall_mem_append.mp h
    obtain ⟨values, body⟩ := c
    obtain ⟨hvalues, hbody⟩ := List.forall_mem_append.mp hcase
    exact List.forall_mem_cons.mpr ⟨⟨forall_mem_exprs hvalues, hbody⟩, ih hrest⟩

theorem forall_mem_selectCases {cases : List SelectCase}
    (h : ∀ n ∈ Gatherer.nodes.selectCases cases, L n) : ∀ c ∈ cases, c.In L := by
  induction cases with
  | nil => exact List.forall_mem_nil _
  | cons c rest ih =>
    obtain ⟨hcase, hrest⟩ := List.forall_mem_append.mp h
    obtain ⟨op, body⟩ := c
    obtain ⟨hop, hbody⟩ := List.forall_mem_append.mp hcase
    refine List.forall_mem_cons.mpr ⟨⟨?_, hbody⟩, ih hrest⟩
    cases op with
    | recv channel value ok => exact hop
    | send channel value => exact List.forall_mem_append.mp hop

/-- **An expression of the fragment is a node of it, and so are its parts.** -/
theorem Expr.In.parts {e : Expr} (h : e.In L) : L (.expr e.kind) ∧ e.kind.PartsIn L := by
  obtain ⟨kind, pos⟩ := e
  obtain ⟨hnode, hparts⟩ := List.forall_mem_append.mp h
  refine ⟨List.forall_mem_singleton.mp hnode, ?_⟩
  show kind.PartsIn L
  cases kind with
  | literal value | new type | ident name => trivial
  | binary op left right | coalesce left right | contains left right | index left right =>
    exact List.forall_mem_append.mp hparts
  | unary op operand | recv operand | update operand op | member operand name => exact hparts
  | ternary condition thenExpr elseExpr =>
    obtain ⟨hcondition, hrest⟩ := List.forall_mem_append.mp hparts
    exact ⟨hcondition, List.forall_mem_append.mp hrest⟩
  | slice object start stop =>
    obtain ⟨hobject, hrest⟩ := List.forall_mem_append.mp hparts
    obtain ⟨hstart, hstop⟩ := List.forall_mem_append.mp hrest
    exact ⟨hobject, forall_mem_optionExpr hstart, forall_mem_optionExpr hstop⟩
  | call callee args spread =>
    obtain ⟨hcallee, hargs⟩ := List.forall_mem_append.mp hparts
    exact ⟨hcallee, forall_mem_exprs hargs⟩
  | func definition => exact hparts
  | list elemType items | make type items => exact forall_mem_exprs hparts
  | map types entries => exact forall_mem_entries hparts

/-- **A statement of the fragment is a node of it, and so are its parts.** -/
theorem Stmt.In.parts {s : Stmt} (h : s.In L) : L (.stmt s.kind) ∧ s.kind.PartsIn L := by
  obtain ⟨kind, pos⟩ := s
  obtain ⟨hnode, hparts⟩ := List.forall_mem_append.mp h
  refine ⟨List.forall_mem_singleton.mp hnode, ?_⟩
  show kind.PartsIn L
  cases kind with
  | expr e | throw e | defer e | go e | func definition | module name body | block body =>
    exact hparts
  | brk | cont => trivial
  | var names values | ret values => exact forall_mem_exprs hparts
  | assign targets values =>
    obtain ⟨htargets, hvalues⟩ := List.forall_mem_append.mp hparts
    exact ⟨forall_mem_exprs htargets, forall_mem_exprs hvalues⟩
  | opAssign target op value | send target value => exact List.forall_mem_append.mp hparts
  | ifElse condition thenBlock elseBlock =>
    obtain ⟨hcondition, hrest⟩ := List.forall_mem_append.mp hparts
    obtain ⟨hthen, helse⟩ := List.forall_mem_append.mp hrest
    exact ⟨hcondition, hthen, forall_mem_optionBlock helse⟩
  | switch discriminant cases default =>
    obtain ⟨hdiscriminant, hrest⟩ := List.forall_mem_append.mp hparts
    obtain ⟨hcases, hdefault⟩ := List.forall_mem_append.mp hrest
    exact ⟨hdiscriminant, forall_mem_switchCases hcases, forall_mem_optionBlock hdefault⟩
  | select cases default =>
    obtain ⟨hcases, hdefault⟩ := List.forall_mem_append.mp hparts
    exact ⟨forall_mem_selectCases hcases, forall_mem_optionBlock hdefault⟩
  | loop condition body =>
    obtain ⟨hcondition, hbody⟩ := List.forall_mem_append.mp hparts
    exact ⟨forall_mem_optionExpr hcondition, hbody⟩
  | forClause init condition post body =>
    obtain ⟨hinit, hrest⟩ := List.forall_mem_append.mp hparts
    obtain ⟨hcondition, hrest⟩ := List.forall_mem_append.mp hrest
    obtain ⟨hpost, hbody⟩ := List.forall_mem_append.mp hrest
    exact ⟨forall_mem_optionStmt hinit, forall_mem_optionExpr hcondition,
      forall_mem_optionStmt hpost, hbody⟩
  | forIn vars iterable body => exact List.forall_mem_append.mp hparts
  | tryCatch body catchVar handler last =>
    obtain ⟨hbody, hrest⟩ := List.forall_mem_append.mp hparts
    obtain ⟨hhandler, hlast⟩ := List.forall_mem_append.mp hrest
    exact ⟨hbody, forall_mem_optionBlock hhandler, forall_mem_optionBlock hlast⟩

theorem FuncDef.In.parts {definition : FuncDef} (h : definition.In L) :
    L (.func definition) ∧ Block.In L definition.body := by
  obtain ⟨name, params, variadic, body⟩ := definition
  obtain ⟨hnode, hbody⟩ := List.forall_mem_append.mp h
  exact ⟨List.forall_mem_singleton.mp hnode, hbody⟩

theorem Block.in_cons {s : Stmt} {rest : Block} (h : Block.In L (s :: rest)) :
    s.In L ∧ Block.In L rest := List.forall_mem_append.mp h

end

/-! ## The whole language -/

theorem Fragment.binds_all (name : String) : Fragment.all.Binds name :=
  ⟨.stmt (.var [name] []), trivial, List.mem_singleton_self name⟩

theorem Expr.in_all (e : Expr) : e.In .all := fun _ _ => trivial

theorem Stmt.in_all (s : Stmt) : s.In .all := fun _ _ => trivial

theorem Block.in_all (body : Block) : Block.In .all body := fun _ _ => trivial

theorem FuncDef.in_all (definition : FuncDef) : definition.In .all := fun _ _ => trivial

theorem Function.in_all (f : Function) : f.In .all := by
  cases f with
  | script definition scope selfBound => exact definition.in_all
  | host f => trivial

end ScriptEngine
