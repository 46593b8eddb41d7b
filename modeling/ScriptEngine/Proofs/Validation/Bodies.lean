import ScriptEngine.Proofs.Tree.Heredity
import ScriptEngine.Validation

/-! # The bodies inside a script

A script holds **bodies** of its own: those of the functions and of the modules that are written in
it, at any depth, in statements as well as in expressions.  Each is evaluated apart from what stands
around it, so the checks start again at each one.

Main statement: the bodies inside a script that passes the checks pass them too, each as a script
(`Block.accepted_of_mem_bodies`).
-/
namespace ScriptEngine

/-- Gathers the bodies of functions and modules. -/
def Gatherer.bodies : Gatherer Block where
  literal _ := []
  body block := [block]

/-- The bodies of the functions and modules that are written in a script, at any depth. -/
def Block.bodies (script : Block) : List Block := Gatherer.bodies.stmts script

namespace Validation

/-! ## What passing the checks says of the parts

A step of a check that is a choice is followed by the same steps on every branch.  These lemmas
bring the parts of such nodes out, so that nothing below looks at a choice. -/

/-- Two checks pass if each of them does. -/
@[simp] theorem both_ok {a : Check} {b : Unit → Check} :
    (a >>= b) = .ok () ↔ a = .ok () ∧ b () = .ok () := by
  cases a with
  | error e => simp [bind, Except.bind]
  | ok u => simp [bind, Except.bind]

@[simp] theorem fail_ne_ok (fault : StructureFault) (pos : Position) : fail fault pos ≠ .ok () := by
  intro h
  cases h

-- The equations of the check are worked out here, once for all the lemmas that take it apart.
attribute [local simp] checkKind

variable {e : Enclosure} {pos : Position}

theorem loop_parts {condition : Option Expr} {body : Block}
    (h : checkKind e pos (.loop condition body) = .ok ()) :
    checkOptionExpr pos condition = .ok () ∧ checkBlock .loop body = .ok () := by
  cases condition with
  | some condition => simpa only [checkKind, checkOptionExpr, both_ok] using h
  | none =>
    refine ⟨rfl, ?_⟩
    simp only [checkKind] at h
    split at h
    · exact (both_ok.mp h).2
    · exact absurd (both_ok.mp h).1 (fail_ne_ok _ _)

theorem forClause_parts {init post : Option Stmt} {condition : Option Expr} {body : Block}
    (h : checkKind e pos (.forClause init condition post body) = .ok ()) :
    checkOptionStmt e init = .ok () ∧ checkOptionExpr pos condition = .ok () ∧
      checkOptionStmt e post = .ok () ∧ checkBlock .loop body = .ok () := by
  cases condition with
  | some condition => simpa only [checkKind, checkOptionExpr, both_ok] using h
  | none =>
    simp only [checkKind, both_ok] at h
    refine ⟨h.1, rfl, ?_⟩
    have hrest := h.2
    split at hrest
    · exact both_ok.mp (both_ok.mp hrest).2
    · exact absurd (both_ok.mp hrest).1 (fail_ne_ok _ _)

theorem tryCatch_parts {body : Block} {catchVar : Option String} {handler last : Option Block}
    (h : checkKind e pos (.tryCatch body catchVar handler last) = .ok ()) :
    checkBlock e body = .ok () ∧ checkOptionBlock e handler = .ok () ∧
      checkOptionBlock e last = .ok () := by
  simp only [checkKind, both_ok] at h
  refine ⟨h.1, ?_⟩
  cases catchVar with
  | none => exact both_ok.mp (both_ok.mp h.2).2
  | some name => exact both_ok.mp (both_ok.mp h.2).2

theorem brk_parts (h : checkKind e pos .brk = .ok ()) : e.inBreakable = true := by
  rw [checkKind] at h
  split at h
  · assumption
  · exact absurd h (fail_ne_ok _ _)

theorem cont_parts (h : checkKind e pos .cont = .ok ()) : e.inLoop = true := by
  rw [checkKind] at h
  split at h
  · assumption
  · exact absurd h (fail_ne_ok _ _)

theorem defer_parts {call : Expr} (h : checkKind e pos (.defer call) = .ok ()) :
    checkExpr pos call = .ok () := by
  simp only [checkKind] at h
  split at h
  · exact (both_ok.mp h).2
  · exact (both_ok.mp h).2

theorem go_parts {call : Expr} (h : checkKind e pos (.go call) = .ok ()) :
    checkExpr pos call = .ok () := by
  simp only [checkKind] at h
  split at h
  · exact (both_ok.mp h).2
  · exact (both_ok.mp h).2

theorem func_parts {name : Option String} {params : List String} {variadic : Bool} {body : Block}
    (h : checkFunc pos (.mk name params variadic body) = .ok ()) : checkBlock .top body = .ok () := by
  -- The name is checked first, whether there is one or not, and then the same steps follow.
  have hrest : (if (variadic && params.isEmpty) = true then do
      fail .variadicWithoutParameters pos
      checkParams pos [] params
      checkBlock .top body
    else do
      checkParams pos [] params
      checkBlock .top body) = .ok () := by
    cases name with
    | none => exact (both_ok.mp h).2
    | some name => exact (both_ok.mp h).2
  split at hrest
  · exact absurd (both_ok.mp hrest).1 (fail_ne_ok _ _)
  · exact (both_ok.mp hrest).2

theorem target_parts {target : Expr} (h : checkTarget pos target = .ok ()) :
    checkExpr pos target = .ok () := by
  obtain ⟨kind, own⟩ := target
  rw [checkTarget] at h
  split at h
  · exact h
  · exact absurd h (fail_ne_ok _ _)

/-! ## The bodies inside a script that passes -/

/-- The block passes the checks that a script has to pass. -/
def Accepted (block : Block) : Prop := checkBlock .top block = .ok ()

/-- All these blocks are accepted. -/
def AllAccepted (blocks : List Block) : Prop := ∀ body ∈ blocks, Accepted body

theorem allAccepted_nil : AllAccepted [] := fun _ h => absurd h List.not_mem_nil

theorem AllAccepted.append {xs ys : List Block} (hx : AllAccepted xs) (hy : AllAccepted ys) :
    AllAccepted (xs ++ ys) := List.forall_mem_append.mpr ⟨hx, hy⟩

theorem AllAccepted.cons {body : Block} {rest : List Block} (hbody : Accepted body)
    (hrest : AllAccepted rest) : AllAccepted (body :: rest) :=
  List.forall_mem_cons.mpr ⟨hbody, hrest⟩

-- One case for each kind of node, along the recursion of the checks.  Only functions and modules
-- contribute a body, and their check is the one that starts again at the top.
mutual

theorem accepted_stmts {e : Enclosure} : {body : List Stmt} → checkBlock e body = .ok () →
    AllAccepted (Gatherer.bodies.stmts body)
  | [], _ => allAccepted_nil
  | s :: rest, h => by
    rw [checkBlock, both_ok] at h
    exact (accepted_stmt h.1).append (accepted_stmts h.2)

theorem accepted_stmt {e : Enclosure} : {s : Stmt} → checkStmt e s = .ok () →
    AllAccepted (Gatherer.bodies.stmt s)
  | .mk _ _, h => accepted_stmtKind h

theorem accepted_optionBlock {e : Enclosure} : {body : Option (List Stmt)} →
    checkOptionBlock e body = .ok () → AllAccepted (Gatherer.bodies.optionBlock body)
  | none, _ => allAccepted_nil
  | some _, h => accepted_stmts h

theorem accepted_optionStmt {e : Enclosure} : {s : Option Stmt} → checkOptionStmt e s = .ok () →
    AllAccepted (Gatherer.bodies.optionStmt s)
  | none, _ => allAccepted_nil
  | some _, h => accepted_stmt h

theorem accepted_stmtKind {e : Enclosure} {pos : Position} : {kind : StmtKind} →
    checkKind e pos kind = .ok () → AllAccepted (Gatherer.bodies.stmtKind kind)
  | .expr _, h | .throw _, h => accepted_expr h
  | .defer _, h => accepted_expr (defer_parts h)
  | .go _, h => accepted_expr (go_parts h)
  | .var _ _, h => by
    rw [checkKind, both_ok] at h
    exact accepted_exprs h.2
  | .ret _, h => accepted_exprs h
  | .assign _ _, h => by
    rw [checkKind, both_ok] at h
    exact (accepted_targets h.1).append (accepted_exprs h.2)
  | .opAssign _ _ _, h => by
    rw [checkKind, both_ok] at h
    exact (accepted_expr (target_parts h.1)).append (accepted_expr h.2)
  | .ifElse _ _ _, h => by
    simp only [checkKind, both_ok] at h
    exact (accepted_expr h.1).append ((accepted_stmts h.2.1).append (accepted_optionBlock h.2.2))
  | .switch _ _ _, h => by
    simp only [checkKind, both_ok] at h
    exact (accepted_expr h.1).append
      ((accepted_switchCases h.2.1).append (accepted_optionBlock h.2.2))
  | .select _ _, h => by
    rw [checkKind, both_ok] at h
    exact (accepted_selectCases h.1).append (accepted_optionBlock h.2)
  | .loop _ _, h => by
    have hparts := loop_parts h
    exact (accepted_optionExpr hparts.1).append (accepted_stmts hparts.2)
  | .forClause _ _ _ _, h => by
    obtain ⟨hinit, hcondition, hpost, hbody⟩ := forClause_parts h
    exact (accepted_optionStmt hinit).append ((accepted_optionExpr hcondition).append
      ((accepted_optionStmt hpost).append (accepted_stmts hbody)))
  | .forIn _ _ _, h => by
    simp only [checkKind, both_ok] at h
    exact (accepted_expr h.2.1).append (accepted_stmts h.2.2)
  | .func _, h => accepted_func h
  | .brk, _ | .cont, _ => allAccepted_nil
  | .tryCatch _ _ _ _, h => by
    obtain ⟨hbody, hhandler, hlast⟩ := tryCatch_parts h
    exact (accepted_stmts hbody).append
      ((accepted_optionBlock hhandler).append (accepted_optionBlock hlast))
  | .module _ _, h => by
    rw [checkKind, both_ok] at h
    exact .cons h.2 (accepted_stmts h.2)
  | .send _ _, h => by
    rw [checkKind, both_ok] at h
    exact (accepted_expr h.1).append (accepted_expr h.2)
  | .block _, h => accepted_stmts h

theorem accepted_switchCases {e : Enclosure} {pos : Position} : {cases : List SwitchCase} →
    checkSwitchCases e pos cases = .ok () → AllAccepted (Gatherer.bodies.switchCases cases)
  | [], _ => allAccepted_nil
  | .mk _ _ :: _, h => by
    simp only [checkSwitchCases, both_ok] at h
    exact ((accepted_exprs h.1).append (accepted_stmts h.2.1)).append (accepted_switchCases h.2.2)

theorem accepted_selectCases {e : Enclosure} {pos : Position} : {cases : List SelectCase} →
    checkSelectCases e pos cases = .ok () → AllAccepted (Gatherer.bodies.selectCases cases)
  | [], _ => allAccepted_nil
  | .mk _ _ :: _, h => by
    simp only [checkSelectCases, both_ok] at h
    exact ((accepted_selectOp h.1).append (accepted_stmts h.2.1)).append
      (accepted_selectCases h.2.2)

theorem accepted_selectOp {pos : Position} : {op : SelectOp} → checkSelectOp pos op = .ok () →
    AllAccepted (Gatherer.bodies.selectOp op)
  | .recv _ _ _, h => by
    rw [checkSelectOp, both_ok] at h
    exact accepted_expr h.1
  | .send _ _, h => by
    rw [checkSelectOp, both_ok] at h
    exact (accepted_expr h.1).append (accepted_expr h.2)

theorem accepted_func {pos : Position} : {definition : FuncDef} →
    checkFunc pos definition = .ok () → AllAccepted (Gatherer.bodies.func definition)
  | .mk _ _ _ _, h => .cons (func_parts h) (accepted_stmts (func_parts h))

theorem accepted_expr {pos : Position} : {x : Expr} → checkExpr pos x = .ok () →
    AllAccepted (Gatherer.bodies.expr x)
  | .mk _ _, h => accepted_exprKind h

theorem accepted_targets {pos : Position} : {xs : List Expr} → checkTargets pos xs = .ok () →
    AllAccepted (Gatherer.bodies.exprs xs)
  | [], _ => allAccepted_nil
  | _ :: _, h => by
    rw [checkTargets, both_ok] at h
    exact (accepted_expr (target_parts h.1)).append (accepted_targets h.2)

theorem accepted_exprKind {pos : Position} : {kind : ExprKind} →
    checkExprKind pos kind = .ok () → AllAccepted (Gatherer.bodies.exprKind kind)
  | .literal _, _ | .new _, _ | .ident _, _ => allAccepted_nil
  | .binary _ _ _, h | .coalesce _ _, h | .contains _ _, h | .index _ _, h => by
    rw [checkExprKind, both_ok] at h
    exact (accepted_expr h.1).append (accepted_expr h.2)
  | .unary _ _, h | .recv _, h | .member _ _, h => accepted_expr h
  | .update _ _, h => accepted_expr (target_parts h)
  | .ternary _ _ _, h => by
    simp only [checkExprKind, both_ok] at h
    exact (accepted_expr h.1).append ((accepted_expr h.2.1).append (accepted_expr h.2.2))
  | .slice _ _ _, h => by
    simp only [checkExprKind, both_ok] at h
    exact (accepted_expr h.1).append
      ((accepted_optionExpr h.2.1).append (accepted_optionExpr h.2.2))
  | .call _ _ _, h => by
    rw [checkExprKind, both_ok] at h
    exact (accepted_expr h.1).append (accepted_exprs h.2)
  | .func _, h => accepted_func h
  | .list _ _, h | .make _ _, h => accepted_exprs h
  | .map _ _, h => accepted_entries h

theorem accepted_optionExpr {pos : Position} : {x : Option Expr} →
    checkOptionExpr pos x = .ok () → AllAccepted (Gatherer.bodies.optionExpr x)
  | none, _ => allAccepted_nil
  | some _, h => accepted_expr h

theorem accepted_exprs {pos : Position} : {xs : List Expr} → checkExprs pos xs = .ok () →
    AllAccepted (Gatherer.bodies.exprs xs)
  | [], _ => allAccepted_nil
  | _ :: _, h => by
    rw [checkExprs, both_ok] at h
    exact (accepted_expr h.1).append (accepted_exprs h.2)

theorem accepted_entries {pos : Position} : {entries : List (Expr × Expr)} →
    checkEntries pos entries = .ok () → AllAccepted (Gatherer.bodies.entries entries)
  | [], _ => allAccepted_nil
  | (_, _) :: _, h => by
    simp only [checkEntries, both_ok] at h
    exact ((accepted_expr h.1).append (accepted_expr h.2.1)).append (accepted_entries h.2.2)

end

end Validation

open Validation in
/-- **Every body inside a script that passes the checks is accepted**, and so is the script. -/
theorem Block.accepted_of_mem_bodies {script body : Block} (h : script.validate = .ok ())
    (hbody : body ∈ script :: script.bodies) : Accepted body :=
  AllAccepted.cons h (accepted_stmts h) body hbody

end ScriptEngine
