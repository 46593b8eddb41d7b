import ScriptEngine.FreeNames

/-! # What the walk for free names does to its accounts

The walk keeps two accounts: the names that are bound in the blocks that are open, and the free names
found.  What is found stays found.  Expressions leave the bound names alone (`State.Notes`).  Statements
bind names in the innermost block only, and only if they are declarations or assignments
(`State.Leads`), so a block leaves no name behind (`State.notes_within`).
-/
namespace ScriptEngine

/-- The name that an assignment to the expression binds, if nothing binds it yet. -/
def Expr.ownName? : Expr → Option String
  | .mk (.ident name) _ => some name
  | _ => none

/-- The names that the statement binds in the block in which it stands. -/
def StmtKind.bound : StmtKind → List String
  | .var names _ => names
  | .assign targets _ => targets.filterMap Expr.ownName?
  | _ => []

namespace FreeNames

namespace State
variable {s t u : State} {n : String} {P B C : String → Prop}

/-- Nothing is found but names of this kind. -/
def Finds (P : String → Prop) (s : State) : Prop := ∀ n ∈ s.found, P n

/-- On the way from `s` to `t` nothing has happened but that free names were found. -/
structure Notes (s t : State) : Prop where
  scopes : t.scopes = s.scopes
  found : ∀ n ∈ s.found, n ∈ t.found

/-- On the way from `s` to `t` free names were found, and names of this kind were bound in the
innermost block. -/
structure Leads (B : String → Prop) (s t : State) : Prop where
  outer : t.scopes.drop 1 = s.scopes.drop 1
  bound : ∀ n, t.isBound n = true → s.isBound n = true ∨ B n
  found : ∀ n ∈ s.found, n ∈ t.found

namespace Notes

theorem refl (s : State) : s.Notes s := ⟨rfl, fun _ => id⟩

theorem trans (h : s.Notes t) (h' : t.Notes u) : s.Notes u :=
  ⟨h'.scopes.trans h.scopes, fun n hn => h'.found n (h.found n hn)⟩

theorem isBound (h : s.Notes t) (n : String) : t.isBound n = s.isBound n := by
  unfold State.isBound
  rw [h.scopes]

theorem leads (h : s.Notes t) : Leads B s t :=
  ⟨by rw [h.scopes], fun n hn => .inl (h.isBound n ▸ hn), h.found⟩

theorem finds (h : s.Notes t) (ht : t.Finds P) : s.Finds P := fun n hn => ht n (h.found n hn)

end Notes

namespace Leads

theorem refl (s : State) : Leads B s s := (Notes.refl s).leads

theorem weaken (h : Leads B s t) (hB : ∀ n, B n → C n) : Leads C s t :=
  ⟨h.outer, fun n hn => (h.bound n hn).imp_right (hB n), h.found⟩

theorem any (h : Leads B s t) : Leads (fun _ => True) s t := h.weaken fun _ _ => trivial

theorem trans (h : Leads B s t) (h' : Leads B t u) : Leads B s u where
  outer := h'.outer.trans h.outer
  bound n hn := (h'.bound n hn).elim (h.bound n) .inr
  found n hn := h'.found n (h.found n hn)

theorem finds (h : Leads B s t) (ht : t.Finds P) : s.Finds P := fun n hn => ht n (h.found n hn)

/-- **A block of its own leaves no name behind.** -/
theorem leave {names : List String} (h : Leads B (s.enter names) t) : s.Notes t.leave :=
  ⟨h.outer, h.found⟩

end Leads

/-! ## Single entries -/

theorem isBound_enter {names : List String} :
    (s.enter names).isBound n = true ↔ n ∈ names ∨ s.isBound n = true := by
  simp [isBound, enter]

theorem leads_declare (s : State) (name : String) : Leads (· = name) s (s.declare name) := by
  obtain ⟨scopes, found⟩ := s
  cases scopes with
  | nil => exact .refl _
  | cons scope outer =>
    refine ⟨rfl, fun n hn => ?_, fun _ => id⟩
    simp only [declare, isBound, List.any_cons, List.contains_cons, Bool.or_eq_true,
      beq_iff_eq] at hn ⊢
    obtain (hn | hn) | hn := hn
    · exact .inr hn
    · exact .inl (.inl hn)
    · exact .inl (.inr hn)

theorem leads_declareAll (s : State) (names : List String) :
    Leads (· ∈ names) s (s.declareAll names) := by
  unfold declareAll
  induction names generalizing s with
  | nil => exact .refl s
  | cons name rest ih =>
    refine ((leads_declare s name).weaken ?_).trans ((ih _).weaken fun n => List.mem_cons_of_mem name)
    rintro n rfl
    exact List.mem_cons_self

theorem notes_use (s : State) (name : String) : s.Notes (s.use name) := by
  unfold use
  split
  · exact .refl s
  · exact ⟨rfl, fun n hn => List.mem_cons_of_mem name hn⟩

/-- A name that is used is bound, or it is found. -/
theorem isBound_or_found (s : State) (name : String) :
    s.isBound name = true ∨ name ∈ (s.use name).found := by
  unfold use
  cases s.isBound name with
  | true => exact .inl rfl
  | false => cases hfound : s.found.contains name <;> simp_all

/-! ## Blocks -/

/-- What is bound where the walk of a block begins. -/
def opened (s : State) (bound : List String) (body : List Stmt) : State :=
  (s.enter bound).declareAll (body.filterMap hoisted?)

theorem isBound_opened {bound : List String} {body : List Stmt}
    (hn : (s.opened bound body).isBound n = true) :
    n ∈ bound ∨ s.isBound n = true ∨ n ∈ body.filterMap hoisted? := by
  obtain hn | hn := (leads_declareAll _ _).bound n hn
  · exact (isBound_enter.mp hn).imp_right .inl
  · exact .inr (.inr hn)

/-- A walk that binds names in the innermost block only, in a block of its own. -/
theorem notes_within {walk : State → State} (hwalk : ∀ s, Leads (fun _ => True) s (walk s))
    (s : State) (bound : List String) (body : List Stmt) : s.Notes (s.within bound body walk) :=
  ((leads_declareAll _ _).any.trans (hwalk _)).leave

end State

/-! ## The walk -/

open State

-- Along the recursion of the walk: one case for each way in which parts stand in a node.
mutual

theorem leads_stmts : ∀ (body : List Stmt) (s : State), Leads (fun _ => True) s (stmts body s)
  | [], s => .refl s
  | x :: rest, s => (leads_stmt x s).any.trans (leads_stmts rest _)

theorem leads_stmt : ∀ (x : Stmt) (s : State), Leads (· ∈ x.kind.bound) s (stmt x s)
  | .mk kind _, s => leads_kind kind s

theorem notes_optionBlock : ∀ (body : Option (List Stmt)) (s : State), s.Notes (optionBlock body s)
  | none, s => .refl s
  | some body, s => notes_within (leads_stmts body) s _ _

theorem leads_optionStmt : ∀ (x : Option Stmt) (s : State),
    Leads (fun n => ∃ y ∈ x, n ∈ y.kind.bound) s (optionStmt x s)
  | none, s => .refl s
  | some x, s => (leads_stmt x s).weaken fun _ hn => ⟨x, rfl, hn⟩

theorem leads_kind : ∀ (kind : StmtKind) (s : State), Leads (· ∈ kind.bound) s (kindNames kind s)
  | .var names values, s => (notes_exprs values s).leads.trans (leads_declareAll _ names)
  | .assign targets values, s => (notes_exprs values s).leads.trans (leads_assignTargets targets _)
  | .expr e, s | .throw e, s | .defer e, s | .go e, s => (notes_expr e s).leads
  | .opAssign target _ value, s => ((notes_expr value s).trans (notes_expr target _)).leads
  | .ifElse condition thenBlock elseBlock, s =>
    ((notes_expr condition s).trans ((notes_within (leads_stmts thenBlock) _ _ _).trans
      (notes_optionBlock elseBlock _))).leads
  | .switch discriminant cases default, s =>
    ((notes_expr discriminant s).trans ((notes_switchCases cases _).trans
      (notes_optionBlock default _))).leads
  | .select cases default, s =>
    ((notes_selectCases cases s).trans (notes_optionBlock default _)).leads
  | .loop condition body, s =>
    ((notes_optionExpr condition s).trans (notes_within (leads_stmts body) _ _ _)).leads
  | .forClause init condition post body, s =>
    ((leads_optionStmt init (s.enter [])).any.trans ((notes_optionExpr condition _).leads.trans
      ((leads_optionStmt post _).any.trans
        (notes_within (leads_stmts body) _ _ _).leads))).leave.leads
  | .forIn _ iterable body, s =>
    ((notes_expr iterable s).trans (notes_within (leads_stmts body) _ _ _)).leads
  | .func definition, s => (notes_func definition s).leads
  | .ret values, s => (notes_exprs values s).leads
  | .brk, s | .cont, s => .refl s
  | .tryCatch body _ (some handler) last, s =>
    ((notes_within (leads_stmts body) s _ _).trans
      ((notes_within (leads_stmts handler) _ _ _).trans (notes_optionBlock last _))).leads
  | .tryCatch body _ none last, s =>
    ((notes_within (leads_stmts body) s _ _).trans (notes_optionBlock last _)).leads
  | .module _ body, s | .block body, s => (notes_within (leads_stmts body) s _ _).leads
  | .send channel value, s => ((notes_expr channel s).trans (notes_expr value _)).leads

theorem notes_switchCases : ∀ (cases : List SwitchCase) (s : State), s.Notes (switchCases cases s)
  | [], s => .refl s
  | .mk values body :: rest, s =>
    ((notes_exprs values s).trans (notes_within (leads_stmts body) _ _ _)).trans
      (notes_switchCases rest _)

theorem notes_selectCases : ∀ (cases : List SelectCase) (s : State), s.Notes (selectCases cases s)
  | [], s => .refl s
  | .mk (.recv channel _ _) body :: rest, s =>
    ((notes_expr channel s).trans (notes_within (leads_stmts body) _ _ _)).trans
      (notes_selectCases rest _)
  | .mk (.send channel value) body :: rest, s =>
    (((notes_expr channel s).trans (notes_expr value _)).trans
      (notes_within (leads_stmts body) _ _ _)).trans (notes_selectCases rest _)

theorem notes_func : ∀ (definition : FuncDef) (s : State), s.Notes (func definition s)
  | .mk _ _ _ body, s => notes_within (leads_stmts body) s _ _

theorem leads_assignTarget : ∀ (target : Expr) (s : State),
    Leads (· ∈ target.ownName?) s (assignTarget target s)
  | .mk kind pos, s => by
    have hparts := notes_exprKind kind s
    cases kind with
    | ident name =>
      show Leads _ s (if s.isBound name then s else s.declare name)
      split
      · exact .refl s
      · exact (leads_declare s name).weaken fun n hn => congrArg some hn.symm
    | _ => exact hparts.leads

theorem leads_assignTargets : ∀ (targets : List Expr) (s : State),
    Leads (· ∈ targets.filterMap Expr.ownName?) s (assignTargets targets s)
  | [], s => .refl s
  | target :: rest, s =>
    ((leads_assignTarget target s).weaken fun _ hn =>
        List.mem_filterMap.mpr ⟨target, List.mem_cons_self, hn⟩).trans
      ((leads_assignTargets rest _).weaken fun n hn => by
        obtain ⟨x, hx, hn⟩ := List.mem_filterMap.mp hn
        exact List.mem_filterMap.mpr ⟨x, List.mem_cons_of_mem target hx, hn⟩)

theorem notes_expr : ∀ (e : Expr) (s : State), s.Notes (expr e s)
  | .mk kind _, s => notes_exprKind kind s

theorem notes_exprKind : ∀ (kind : ExprKind) (s : State), s.Notes (exprKind kind s)
  | .literal _, s | .new _, s => .refl s
  | .ident name, s => notes_use s name
  | .binary _ left right, s | .coalesce left right, s | .contains left right, s
  | .index left right, s => (notes_expr left s).trans (notes_expr right _)
  | .unary _ operand, s | .recv operand, s | .member operand _, s | .update operand _, s =>
    notes_expr operand s
  | .ternary condition thenExpr elseExpr, s =>
    (notes_expr condition s).trans ((notes_expr thenExpr _).trans (notes_expr elseExpr _))
  | .slice object start stop, s =>
    (notes_expr object s).trans ((notes_optionExpr start _).trans (notes_optionExpr stop _))
  | .call callee args _, s => (notes_expr callee s).trans (notes_exprs args _)
  | .func definition, s => notes_func definition s
  | .list _ items, s | .make _ items, s => notes_exprs items s
  | .map _ items, s => notes_entries items s

theorem notes_optionExpr : ∀ (e : Option Expr) (s : State), s.Notes (optionExpr e s)
  | none, s => .refl s
  | some e, s => notes_expr e s

theorem notes_exprs : ∀ (es : List Expr) (s : State), s.Notes (exprs es s)
  | [], s => .refl s
  | e :: rest, s => (notes_expr e s).trans (notes_exprs rest _)

theorem notes_entries : ∀ (items : List (Expr × Expr)) (s : State), s.Notes (entries items s)
  | [], s => .refl s
  | (key, value) :: rest, s =>
    ((notes_expr key s).trans (notes_expr value _)).trans (notes_entries rest _)

end

end FreeNames

/-- The free names are what the walk finds. -/
theorem Block.mem_freeNames {script : Block} {n : String} : n ∈ script.freeNames ↔
    n ∈ (FreeNames.State.within ⟨[], []⟩ [] script (FreeNames.stmts script)).found :=
  List.mem_mergeSort

end ScriptEngine
