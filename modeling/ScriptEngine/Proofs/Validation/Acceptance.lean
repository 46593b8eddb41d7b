import ScriptEngine.Proofs.Tree.Fragment
import ScriptEngine.Proofs.Validation.Bodies

/-! # What the checks leave to be found out

Passing the checks is handed on from a node to its parts (`hereditary_accepted`), so whatever the checks
see to at one node they see to all over a tree.  They see to it that what is assigned to is a place, that
what is deferred or started is a call, that a variadic function has a parameter, and that names are
identifiers, with one exception: the name of a member that is assigned to is not looked at
(`misfits_of_accepted`).
-/
namespace ScriptEngine

/-- The member of a name that is assigned to. -/
def Expr.memberTarget? : Expr → Option String
  | .mk (.member (.mk (.ident _) _) name) _ => some name
  | _ => none

/-- The members of names that the node assigns to. -/
def TreeNode.memberTargets : TreeNode → List String
  | .stmt (.assign targets _) => targets.filterMap Expr.memberTarget?
  | .stmt (.opAssign target _ _) => target.memberTarget?.toList
  | _ => []

/-- The members of names that a script assigns to, at any depth. -/
def Block.memberTargets (script : Block) : List String := script.nodes.flatMap TreeNode.memberTargets

namespace Validation
variable {e : Enclosure} {pos : Position}

/-! ## Passing the checks is inherited -/

/-- Passing the checks, somewhere. -/
def accepted : TreeProperty where
  expr x := ∃ pos, checkExpr pos x = .ok ()
  stmt s := ∃ e, checkStmt e s = .ok ()
  block body := ∃ e, checkBlock e body = .ok ()
  body := Accepted
  func definition := ∃ pos, checkFunc pos definition = .ok ()

theorem accepted_of_checkExprs {xs : List Expr} (h : checkExprs pos xs = .ok ()) :
    ∀ x ∈ xs, accepted.expr x := by
  induction xs with
  | nil => exact List.forall_mem_nil _
  | cons x rest ih =>
    rw [checkExprs, both_ok] at h
    exact List.forall_mem_cons.mpr ⟨⟨pos, h.1⟩, ih h.2⟩

theorem accepted_of_checkTargets {xs : List Expr} (h : checkTargets pos xs = .ok ()) :
    ∀ x ∈ xs, accepted.expr x := by
  induction xs with
  | nil => exact List.forall_mem_nil _
  | cons x rest ih =>
    rw [checkTargets, both_ok] at h
    exact List.forall_mem_cons.mpr ⟨⟨pos, target_parts h.1⟩, ih h.2⟩

theorem accepted_of_checkEntries {entries : List (Expr × Expr)}
    (h : checkEntries pos entries = .ok ()) : ∀ x ∈ entries, accepted.expr x.1 ∧ accepted.expr x.2 := by
  induction entries with
  | nil => exact List.forall_mem_nil _
  | cons entry rest ih =>
    obtain ⟨key, value⟩ := entry
    simp only [checkEntries, both_ok] at h
    exact List.forall_mem_cons.mpr ⟨⟨⟨pos, h.1⟩, pos, h.2.1⟩, ih h.2.2⟩

theorem accepted_of_checkOptionExpr {x : Option Expr} (h : checkOptionExpr pos x = .ok ()) :
    ∀ y ∈ x, accepted.expr y := by
  rintro y rfl
  exact ⟨pos, h⟩

theorem accepted_of_checkOptionStmt {s : Option Stmt} (h : checkOptionStmt e s = .ok ()) :
    ∀ x ∈ s, accepted.stmt x := by
  rintro x rfl
  exact ⟨e, h⟩

theorem accepted_of_checkOptionBlock {body : Option Block} (h : checkOptionBlock e body = .ok ()) :
    ∀ x ∈ body, accepted.block x := by
  rintro x rfl
  exact ⟨e, h⟩

theorem accepted_of_checkSwitchCases {cases : List SwitchCase}
    (h : checkSwitchCases e pos cases = .ok ()) : ∀ c ∈ cases, c.PartsHave accepted := by
  induction cases with
  | nil => exact List.forall_mem_nil _
  | cons c rest ih =>
    obtain ⟨values, body⟩ := c
    simp only [checkSwitchCases, both_ok] at h
    exact List.forall_mem_cons.mpr ⟨⟨accepted_of_checkExprs h.1, e.case, h.2.1⟩, ih h.2.2⟩

theorem accepted_of_checkSelectOp {op : SelectOp} (h : checkSelectOp pos op = .ok ()) :
    op.PartsHave accepted := by
  cases op with
  | recv channel value ok =>
    rw [checkSelectOp, both_ok] at h
    exact ⟨pos, h.1⟩
  | send channel value =>
    rw [checkSelectOp, both_ok] at h
    exact ⟨⟨pos, h.1⟩, pos, h.2⟩

theorem accepted_of_checkSelectCases {cases : List SelectCase}
    (h : checkSelectCases e pos cases = .ok ()) : ∀ c ∈ cases, c.PartsHave accepted := by
  induction cases with
  | nil => exact List.forall_mem_nil _
  | cons c rest ih =>
    obtain ⟨op, body⟩ := c
    simp only [checkSelectCases, both_ok] at h
    exact List.forall_mem_cons.mpr ⟨⟨accepted_of_checkSelectOp h.1, e.case, h.2.1⟩, ih h.2.2⟩

theorem accepted_of_checkExprKind {kind : ExprKind} (h : checkExprKind pos kind = .ok ()) :
    kind.PartsHave accepted := by
  cases kind with
  | literal value | new type | ident name => trivial
  | binary op left right | coalesce left right | contains left right | index left right =>
    rw [checkExprKind, both_ok] at h
    exact ⟨⟨pos, h.1⟩, pos, h.2⟩
  | unary op operand | recv operand | member operand name => exact ⟨pos, h⟩
  | update operand op => exact ⟨pos, target_parts h⟩
  | ternary condition thenExpr elseExpr =>
    simp only [checkExprKind, both_ok] at h
    exact ⟨⟨pos, h.1⟩, ⟨pos, h.2.1⟩, pos, h.2.2⟩
  | slice object start stop =>
    simp only [checkExprKind, both_ok] at h
    exact ⟨⟨pos, h.1⟩, accepted_of_checkOptionExpr h.2.1, accepted_of_checkOptionExpr h.2.2⟩
  | call callee args spread =>
    rw [checkExprKind, both_ok] at h
    exact ⟨⟨pos, h.1⟩, accepted_of_checkExprs h.2⟩
  | func definition => exact ⟨pos, h⟩
  | list elemType items | make type items => exact accepted_of_checkExprs h
  | map types entries => exact accepted_of_checkEntries h

theorem accepted_of_checkKind {kind : StmtKind} (h : checkKind e pos kind = .ok ()) :
    kind.PartsHave accepted := by
  cases kind with
  | expr x | throw x => exact ⟨pos, h⟩
  | defer call => exact ⟨pos, defer_parts h⟩
  | go call => exact ⟨pos, go_parts h⟩
  | func definition => exact ⟨pos, h⟩
  | module name body =>
    rw [checkKind, both_ok] at h
    exact h.2
  | block body => exact ⟨e, h⟩
  | brk | cont => trivial
  | var names values =>
    rw [checkKind, both_ok] at h
    exact accepted_of_checkExprs h.2
  | ret values => exact accepted_of_checkExprs h
  | assign targets values =>
    rw [checkKind, both_ok] at h
    exact ⟨accepted_of_checkTargets h.1, accepted_of_checkExprs h.2⟩
  | opAssign target op value =>
    rw [checkKind, both_ok] at h
    exact ⟨⟨pos, target_parts h.1⟩, pos, h.2⟩
  | send channel value =>
    rw [checkKind, both_ok] at h
    exact ⟨⟨pos, h.1⟩, pos, h.2⟩
  | ifElse condition thenBlock elseBlock =>
    simp only [checkKind, both_ok] at h
    exact ⟨⟨pos, h.1⟩, ⟨e, h.2.1⟩, accepted_of_checkOptionBlock h.2.2⟩
  | switch discriminant cases default =>
    simp only [checkKind, both_ok] at h
    exact ⟨⟨pos, h.1⟩, accepted_of_checkSwitchCases h.2.1, accepted_of_checkOptionBlock h.2.2⟩
  | select cases default =>
    rw [checkKind, both_ok] at h
    exact ⟨accepted_of_checkSelectCases h.1, accepted_of_checkOptionBlock h.2⟩
  | loop condition body =>
    obtain ⟨hcondition, hbody⟩ := loop_parts h
    exact ⟨accepted_of_checkOptionExpr hcondition, .loop, hbody⟩
  | forClause init condition post body =>
    obtain ⟨hinit, hcondition, hpost, hbody⟩ := forClause_parts h
    exact ⟨accepted_of_checkOptionStmt hinit, accepted_of_checkOptionExpr hcondition,
      accepted_of_checkOptionStmt hpost, .loop, hbody⟩
  | forIn vars iterable body =>
    simp only [checkKind, both_ok] at h
    exact ⟨⟨pos, h.2.1⟩, .loop, h.2.2⟩
  | tryCatch body catchVar handler last =>
    obtain ⟨hbody, hhandler, hlast⟩ := tryCatch_parts h
    exact ⟨⟨e, hbody⟩, accepted_of_checkOptionBlock hhandler, accepted_of_checkOptionBlock hlast⟩

/-- **The parts of what passes the checks pass them.** -/
theorem hereditary_accepted : accepted.Hereditary where
  expr {x} h := by
    obtain ⟨pos, h⟩ := h
    obtain ⟨kind, own⟩ := x
    exact accepted_of_checkExprKind h
  stmt {s} h := by
    obtain ⟨e, h⟩ := h
    obtain ⟨kind, pos⟩ := s
    exact accepted_of_checkKind h
  cons {s rest} h := by
    obtain ⟨e, h⟩ := h
    rw [checkBlock, both_ok] at h
    exact ⟨⟨e, h.1⟩, e, h.2⟩
  body h := ⟨.top, h⟩
  func {definition} h := by
    obtain ⟨pos, h⟩ := h
    obtain ⟨name, params, variadic, body⟩ := definition
    exact func_parts h

/-! ## What passing the checks says of a node -/

theorem identifier_of_checkName {name : String} (h : checkName name pos = .ok ()) :
    isIdentifier name = true := by
  rw [checkName] at h
  split at h
  · assumption
  · exact absurd h (fail_ne_ok _ _)

theorem identifiers_of_checkNames : ∀ {names : List String}, checkNames pos names = .ok () →
    ∀ name ∈ names, isIdentifier name = true
  | [], _ => List.forall_mem_nil _
  | name :: rest, h => by
    rw [checkNames, both_ok] at h
    exact List.forall_mem_cons.mpr ⟨identifier_of_checkName h.1, identifiers_of_checkNames h.2⟩

theorem identifiers_of_checkParams : ∀ {params seen : List String},
    checkParams pos seen params = .ok () → ∀ name ∈ params, isIdentifier name = true
  | [], _, _ => List.forall_mem_nil _
  | name :: rest, seen, h => by
    rw [checkParams, both_ok] at h
    refine List.forall_mem_cons.mpr ⟨identifier_of_checkName h.1, ?_⟩
    have hrest := h.2
    split at hrest
    · exact absurd hrest (fail_ne_ok _ _)
    · exact identifiers_of_checkParams hrest

theorem identifiers_of_checkSelectCases {cases : List SelectCase}
    (h : checkSelectCases e pos cases = .ok ()) :
    ∀ c ∈ cases, ∀ name ∈ c.names, isIdentifier name = true := by
  induction cases with
  | nil => exact List.forall_mem_nil _
  | cons c rest ih =>
    obtain ⟨op, body⟩ := c
    simp only [checkSelectCases, both_ok] at h
    refine List.forall_mem_cons.mpr ⟨?_, ih h.2.2⟩
    cases op with
    | recv channel value ok =>
      have hop := h.1
      rw [checkSelectOp, both_ok] at hop
      exact identifiers_of_checkNames hop.2
    | send channel value => exact List.forall_mem_nil _

/-- The head of a function is as it should be. -/
theorem func_head {definition : FuncDef} (h : checkFunc pos definition = .ok ()) :
    (definition.variadic && definition.params.isEmpty) = false ∧
      ∀ name ∈ definition.name.toList ++ definition.params, isIdentifier name = true := by
  obtain ⟨name, params, variadic, body⟩ := definition
  have hrest : (∀ n ∈ name.toList, isIdentifier n = true) ∧
      (if (variadic && params.isEmpty) = true then do
        fail .variadicWithoutParameters pos
        checkParams pos [] params
        checkBlock .top body
      else do
        checkParams pos [] params
        checkBlock .top body) = .ok () := by
    cases name with
    | none => exact ⟨List.forall_mem_nil _, (both_ok.mp h).2⟩
    | some name =>
      exact ⟨List.forall_mem_singleton.mpr (identifier_of_checkName (both_ok.mp h).1),
        (both_ok.mp h).2⟩
  obtain ⟨hname, hrest⟩ := hrest
  split at hrest
  · exact absurd (both_ok.mp hrest).1 (fail_ne_ok _ _)
  · exact ⟨Bool.not_eq_true _ ▸ ‹¬ _›, List.forall_mem_append.mpr
      ⟨hname, identifiers_of_checkParams (both_ok.mp hrest).1⟩⟩

/-- What is assigned to is a place, and the name that is bound is an identifier or that of a member. -/
theorem target_head {target : Expr} (h : checkTarget pos target = .ok ()) :
    target.flawsOfTarget = [] ∧ ∀ name ∈ target.boundName?, isIdentifier name = false →
      name ∈ target.memberTarget? := by
  obtain ⟨kind, own⟩ := target
  rw [checkTarget] at h
  split at h
  · refine ⟨if_pos ‹_›, fun name hname hbad => ?_⟩
    cases kind with
    | ident bound =>
      cases hname
      rw [identifier_of_checkName h] at hbad
      cases hbad
    | member object member =>
      obtain ⟨object, place⟩ := object
      cases object <;> exact hname
    | _ => cases hname
  · exact absurd h (fail_ne_ok _ _)

theorem targets_head {targets : List Expr} (h : checkTargets pos targets = .ok ()) :
    ∀ target ∈ targets, target.flawsOfTarget = [] ∧ ∀ name ∈ target.boundName?,
      isIdentifier name = false → name ∈ target.memberTarget? := by
  induction targets with
  | nil => exact List.forall_mem_nil _
  | cons target rest ih =>
    rw [checkTargets, both_ok] at h
    exact List.forall_mem_cons.mpr ⟨target_head h.1, ih h.2⟩

/-- All that may be amiss with the node is the name of a member that is assigned to. -/
def OnlyMembersAmiss (n : TreeNode) : Prop :=
  ∀ m ∈ n.misfits, ∃ name ∈ n.memberTargets, isIdentifier name = false ∧ m = .name name

theorem onlyMembersAmiss {n : TreeNode} (hflaws : n.flaws = [])
    (hnames : ∀ name ∈ n.names, isIdentifier name = false → name ∈ n.memberTargets) :
    OnlyMembersAmiss n := by
  intro m hm
  rw [TreeNode.misfits, hflaws, List.nil_append] at hm
  obtain ⟨name, hname, rfl⟩ := List.mem_map.mp hm
  obtain ⟨hmem, hbad⟩ := List.mem_filter.mp hname
  have hbad : isIdentifier name = false := (Bool.not_eq_true' _).mp hbad
  exact ⟨name, hnames name hmem hbad, hbad, rfl⟩

/-- Nothing is amiss with the node if all its names are identifiers. -/
theorem onlyMembersAmiss_of_identifiers {n : TreeNode} (hflaws : n.flaws = [])
    (hnames : ∀ name ∈ n.names, isIdentifier name = true) : OnlyMembersAmiss n :=
  onlyMembersAmiss hflaws fun name hname hbad => by
    rw [hnames name hname] at hbad
    cases hbad

theorem onlyMembersAmiss_stmt {kind : StmtKind} (h : checkKind e pos kind = .ok ()) :
    OnlyMembersAmiss (.stmt kind) := by
  cases kind with
  | assign targets values =>
    rw [checkKind, both_ok] at h
    have hheads := targets_head h.1
    refine onlyMembersAmiss (List.flatMap_eq_nil_iff.mpr fun t ht => (hheads t ht).1) ?_
    intro name hname hbad
    obtain ⟨target, htarget, hbound⟩ := List.mem_filterMap.mp hname
    exact List.mem_filterMap.mpr ⟨target, htarget, (hheads target htarget).2 name hbound hbad⟩
  | opAssign target op value =>
    rw [checkKind, both_ok] at h
    obtain ⟨hflaws, hnames⟩ := target_head h.1
    exact onlyMembersAmiss hflaws fun name hname hbad =>
      Option.mem_toList.mpr (hnames name (Option.mem_toList.mp hname) hbad)
  | defer call | go call =>
    refine onlyMembersAmiss_of_identifiers ?_ (List.forall_mem_nil _)
    simp only [checkKind] at h
    split at h
    · exact if_pos ‹_›
    · exact absurd (both_ok.mp h).1 (fail_ne_ok _ _)
  | var names values =>
    rw [checkKind, both_ok] at h
    exact onlyMembersAmiss_of_identifiers rfl (identifiers_of_checkNames h.1)
  | forIn vars iterable body =>
    simp only [checkKind, both_ok] at h
    exact onlyMembersAmiss_of_identifiers rfl (identifiers_of_checkNames h.1)
  | module name body =>
    rw [checkKind, both_ok] at h
    exact onlyMembersAmiss_of_identifiers rfl
      (List.forall_mem_singleton.mpr (identifier_of_checkName h.1))
  | select cases default =>
    rw [checkKind, both_ok] at h
    refine onlyMembersAmiss_of_identifiers rfl fun name hname => ?_
    obtain ⟨c, hc, hname⟩ := List.mem_flatMap.mp hname
    exact identifiers_of_checkSelectCases h.1 c hc name hname
  | tryCatch body catchVar handler last =>
    refine onlyMembersAmiss_of_identifiers rfl ?_
    simp only [checkKind, both_ok] at h
    cases catchVar with
    | none => exact List.forall_mem_nil _
    | some name =>
      exact List.forall_mem_singleton.mpr (identifier_of_checkName (both_ok.mp h.2).1)
  | _ => exact onlyMembersAmiss_of_identifiers rfl (List.forall_mem_nil _)

theorem onlyMembersAmiss_expr {kind : ExprKind} (h : checkExprKind pos kind = .ok ()) :
    OnlyMembersAmiss (.expr kind) := by
  cases kind with
  | update target op =>
    exact onlyMembersAmiss_of_identifiers (target_head h).1 (List.forall_mem_nil _)
  | _ => exact onlyMembersAmiss_of_identifiers rfl (List.forall_mem_nil _)

theorem onlyMembersAmiss_func {definition : FuncDef} (h : checkFunc pos definition = .ok ()) :
    OnlyMembersAmiss (.func definition) := by
  obtain ⟨hvariadic, hnames⟩ := func_head h
  exact onlyMembersAmiss_of_identifiers (if_neg (Bool.eq_false_iff.mp hvariadic)) hnames

theorem gathers_onlyMembersAmiss : accepted.Gathers Gatherer.nodes OnlyMembersAmiss where
  literal _ := List.forall_mem_nil _
  body _ := List.forall_mem_nil _
  expr {x} h := by
    obtain ⟨pos, h⟩ := h
    obtain ⟨kind, own⟩ := x
    exact List.forall_mem_singleton.mpr (onlyMembersAmiss_expr h)
  stmt {s} h := by
    obtain ⟨e, h⟩ := h
    obtain ⟨kind, pos⟩ := s
    exact List.forall_mem_singleton.mpr (onlyMembersAmiss_stmt h)
  func {definition} h := by
    obtain ⟨pos, h⟩ := h
    exact List.forall_mem_singleton.mpr (onlyMembersAmiss_func h)

end Validation

open Validation in
/-- **Nothing is amiss with a script that passes the checks** but, it may be, the name of a member that
is assigned to. -/
theorem Block.misfits_of_accepted {script : Block} (h : script.validate = .ok ()) :
    ∀ n ∈ script.nodes, ∀ m ∈ n.misfits,
      ∃ name ∈ script.memberTargets, isIdentifier name = false ∧ m = .name name := by
  intro n hn m hm
  obtain ⟨name, hname, hbad, rfl⟩ :=
    hereditary_accepted.forall_mem_stmts gathers_onlyMembersAmiss ⟨.top, h⟩ n hn m hm
  exact ⟨name, List.mem_flatMap.mpr ⟨n, hn, hname⟩, hbad, rfl⟩

end ScriptEngine
