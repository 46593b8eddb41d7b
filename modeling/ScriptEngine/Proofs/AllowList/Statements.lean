import ScriptEngine.Proofs.AllowList.Loops

/-! # Statements do not see more than they may

With the help of an evaluator that is knowing, so are all statements; and the names that a statement binds
in its own scope are settled after it.  So the evaluator with more fuel is knowing too, and by induction on
the fuel all evaluation is (`AllowList.knowing_ofFuel`).
-/
namespace ScriptEngine
namespace AllowList

variable {α β : Type} {A : AllowList} {k p q : Versions} {scope : ScopeId} {st : FreeNames.State}

theorem Indifferent.spreadValue (count : Nat) (r : Value × Option Bool) :
    A.Indifferent k (fun _ vs => vs.length = count) (Evaluator.spreadValue count r) := by
  obtain ⟨v, ok⟩ := r
  unfold Evaluator.spreadValue
  dsimp only
  split
  · exact .pure fun _ _ => rfl
  · rename_i id _
    have hitems : A.Neutral (Eval.readHeap fun h => (h.list id).items.toList) :=
      neutral_read fun _ _ => rfl
    exact .after fun items p _ => .ite (fun hcount => .pure fun _ _ => hcount) fun _ => .mismatchedCount _ _
  · exact .failWith _

/-- The walk takes a target for a use unless it is a name. -/
theorem assignTarget_of_ownName? {target : Expr} (hname : target.ownName? = none)
    (st : FreeNames.State) : FreeNames.assignTarget target st = FreeNames.expr target st := by
  obtain ⟨kind, pos⟩ := target
  cases kind with
  | ident name => cases hname
  | _ => rfl

namespace Knowing
variable {ev : Evaluator} (h : A.Knowing ev)
include h

/-! ## Assignment -/

/-- There is a value for each target. -/
theorem values {exprs : List Expr} (hexprs : ∀ e ∈ exprs, e.In A.covers) (count : Nat)
    (hs : A.Ready k scope st) (hfound : A.Finds (FreeNames.exprs exprs st)) :
    A.Indifferent k (fun _ vs => vs.length = count) (ev.values exprs count scope) := by
  unfold Evaluator.values
  refine .ite (fun _ => .pure fun _ _ => List.length_replicate) fun _ => ?_
  refine .ite (fun hcount => hcount ▸ h.exprs hexprs hs hfound) fun _ => ?_
  match exprs, hexprs, hfound with
  | [e], hexprs, hfound =>
    have he := List.forall_mem_singleton.mp hexprs
    exact (h.commaOk he hs hfound).bind fun r p _ _ => .spreadValue count r
  | [], _, _ | _ :: _ :: _, _, _ => exact .mismatchedCount _ _

theorem declare {names : List String} {exprs : List Expr} (hexprs : ∀ e ∈ exprs, e.In A.covers)
    (hs : A.Ready k scope st) (hfound : A.Finds (FreeNames.exprs exprs st)) :
    A.Indifferent k (fun p _ => ∀ n ∈ names, A.Settled p n scope) (ev.declare names exprs scope) := by
  refine (h.values hexprs names.length hs hfound).bind fun vs p hp hvs => ?_
  have hscope := (hs.later hp).lt_next
  refine (Indifferent.defineZip hscope (Nat.le_of_eq hvs.symm)).bind fun _ q hq hnames => ?_
  exact .pure fun r hr n hn => (hnames n hn).later (Nat.lt_of_lt_of_le hscope hq.next_le) hr

theorem assignAll {targets : List Expr} (htargets : ∀ e ∈ targets, e.In A.covers) (last : Value)
    {vs : List Value} (hvs : vs.length = targets.length) (hs : A.Ready k scope st)
    (hfound : A.Finds (FreeNames.assignTargets targets st)) :
    A.Indifferent k (fun p _ => ∀ n ∈ targets.filterMap Expr.ownName?, A.Settled p n scope)
      (ev.assignAll scope last targets vs) := by
  induction targets generalizing k st last vs with
  | nil => exact .pure fun _ _ => List.forall_mem_nil _
  | cons target targets ih =>
    obtain ⟨v, vs, rfl⟩ := List.exists_cons_of_length_eq_add_one hvs
    obtain ⟨htarget, htargets⟩ := List.forall_mem_cons.mp htargets
    have hbefore := (FreeNames.leads_assignTargets targets _).finds hfound
    have hplace := h.place htarget hs fun hname => assignTarget_of_ownName? hname st ▸ hbefore
    refine (hplace.keeping _ fun p q place _ hq hknown =>
      ⟨hknown.1.later hq, hknown.2⟩).bind fun place p hp hknown => ?_
    have hscope := (hs.later hp).lt_next
    refine (writePlace hscope hknown.1 v).bind fun _ q hq hwritten => ?_
    have hname : ∀ n, target.ownName? = some n → A.Settled q n scope :=
      fun n hn => hwritten n (hknown.2 n hn)
    have hs := (hs.later (hp.trans hq)).leads (FreeNames.leads_assignTarget target st)
      fun n hn => .inr (hname n hn)
    refine (ih htargets v (Nat.succ.inj hvs) hs hfound).weaken fun r _ hr hrest n hmem => ?_
    obtain ⟨e, he, hn⟩ := List.mem_filterMap.mp hmem
    obtain rfl | he := List.mem_cons.mp he
    · exact (hname n hn).later hs.lt_next hr
    · exact hrest n (List.mem_filterMap.mpr ⟨e, he, hn⟩)

theorem assignment {targets exprs : List Expr} (htargets : ∀ e ∈ targets, e.In A.covers)
    (hexprs : ∀ e ∈ exprs, e.In A.covers) (hs : A.Ready k scope st)
    (hfound : A.Finds (FreeNames.assignTargets targets (FreeNames.exprs exprs st))) :
    A.Indifferent k (fun p _ => ∀ n ∈ targets.filterMap Expr.ownName?, A.Settled p n scope)
      (ev.assignment targets exprs scope) := by
  have hbefore := (FreeNames.leads_assignTargets targets _).finds hfound
  refine (h.values hexprs targets.length hs hbefore).bind fun vs p hp hvs => ?_
  have hs := hs.next hp (FreeNames.notes_exprs exprs st)
  refine (h.assignAll htargets .nil hvs hs hfound).bind fun v q hq hnames => ?_
  exact .pure fun r hr n hn => (hnames n hn).later (hs.later hq).lt_next hr

theorem opAssign {target : Expr} (op : BinaryOp) {e : Expr} (htarget : target.In A.covers)
    (he : e.In A.covers) (hs : A.Ready k scope st)
    (hfound : A.Finds (FreeNames.expr target (FreeNames.expr e st))) :
    A.Steady k (ev.opAssign target op e scope) := by
  have hbefore := (FreeNames.notes_expr target _).finds hfound
  obtain ⟨hplace, hvar⟩ := h.target htarget (hs.notes (FreeNames.notes_expr e st)) hfound
  refine hplace.bind fun place p hp hknown => ?_
  refine (readPlace (hs.later hp).lt_next hknown fun n hn =>
    (hvar n hn).imp_right fun hsettled => hsettled.later hs.lt_next hp).bind fun current q hq _ => ?_
  have hoperand := (h.expr he (hs.later (hp.trans hq)) hbefore).holding (.value current)
  refine (steady_place place hoperand).bind fun operand r hr _ => ?_
  refine (steady_place place (Neutral.indifferent r)).bind fun updated t ht _ => ?_
  have hlater := hq.trans (hr.trans ht)
  exact (writePlace (hs.later (hp.trans hlater)).lt_next (hknown.later hlater) updated).before

/-! ## Choice -/

theorem matching (subject : Value) {candidates : List Expr}
    (hcandidates : ∀ e ∈ candidates, e.In A.covers) (hs : A.Ready k scope st)
    (hfound : A.Finds (FreeNames.exprs candidates st)) :
    A.Steady k (ev.matching subject scope candidates) := by
  induction candidates generalizing k st with
  | nil => exact .pure fun _ _ => trivial
  | cons e rest ih =>
    obtain ⟨he, hrest⟩ := List.forall_mem_cons.mp hcandidates
    have hbefore := (FreeNames.notes_exprs rest _).finds hfound
    refine (h.expr he hs hbefore).bind fun candidate p hp _ => .after fun equal q hq => ?_
    have hs := hs.next (hp.trans hq) (FreeNames.notes_expr e st)
    exact .ite (fun _ => .pure fun _ _ => trivial) fun _ => ih hrest hs hfound

theorem matchingCase (subject : Value) {cases : List SwitchCase} (hcases : ∀ c ∈ cases, c.In A.covers)
    (hs : A.Ready k scope st) (hfound : A.Finds (FreeNames.switchCases cases st)) :
    A.Indifferent k (fun p found => ∀ r ∈ found, A.BlockKnown p scope [] r.2)
      (ev.matchingCase subject scope cases) := by
  induction cases generalizing k st with
  | nil => exact .pure fun _ _ => nofun
  | cons c rest ih =>
    obtain ⟨candidates, body⟩ := c
    obtain ⟨⟨hcandidates, hbody⟩, hrest⟩ := List.forall_mem_cons.mp hcases
    have hnotes := FreeNames.notes_exprs candidates st
    have hnotes' := FreeNames.State.notes_within (FreeNames.leads_stmts body)
      (FreeNames.exprs candidates st) [] body
    have hwithin := (FreeNames.notes_switchCases rest _).finds hfound
    have hmatching := h.matching subject hcandidates hs (hnotes'.finds hwithin)
    refine hmatching.bind fun found p hp _ => ?_
    cases found with
    | some candidate =>
      refine .pure fun q hq r hr => ?_
      cases hr
      exact ⟨hbody, _, hs.next (hp.trans hq) hnotes, hwithin⟩
    | none => exact ih hrest (hs.next hp (hnotes.trans hnotes')) hfound

theorem switch (frame : FrameId) {discriminant : Expr} {cases : List SwitchCase}
    {default : Option Block} (hdiscriminant : discriminant.In A.covers)
    (hcases : ∀ c ∈ cases, c.In A.covers) (hdefault : ∀ x ∈ default, Block.In A.covers x)
    (hs : A.Ready k scope st) (hfound : A.Finds (FreeNames.optionBlock default
      (FreeNames.switchCases cases (FreeNames.expr discriminant st)))) :
    A.Steady k (ev.switch discriminant cases default scope frame) := by
  have hchosen := (FreeNames.notes_optionBlock default _).finds hfound
  have hbefore := (FreeNames.notes_switchCases cases _).finds hchosen
  refine (h.expr hdiscriminant hs hbefore).bind fun subject p hp _ => .holding _ ?_
  have hs := hs.next hp (FreeNames.notes_expr discriminant st)
  refine (h.matchingCase subject hcases hs hchosen).bind fun found q hq hknown => ?_
  match found, default, hknown, hdefault, hfound with
  | some (candidate, body), _, hknown, _, _ =>
    exact ((h.inner frame (hknown _ rfl)).holding _).before
  | none, some body, _, hdefault, hfound =>
    have hs := hs.next hq (FreeNames.notes_switchCases cases _)
    exact (h.inner frame (optionKnown hdefault hs hfound body rfl)).before
  | none, none, _, _, _ => exact .pure fun _ _ => trivial

theorem ifElse (frame : FrameId) {condition : Expr} {thenBlock : Block} {elseBlock : Option Block}
    (hcondition : condition.In A.covers) (hthen : Block.In A.covers thenBlock)
    (helse : ∀ x ∈ elseBlock, Block.In A.covers x) (hs : A.Ready k scope st)
    (hfound : A.Finds (FreeNames.optionBlock elseBlock
      ((FreeNames.expr condition st).within [] thenBlock (FreeNames.stmts thenBlock)))) :
    A.Steady k (ev.ifElse condition thenBlock elseBlock scope frame) := by
  have hnotes := FreeNames.notes_expr condition st
  have hnotes' := FreeNames.State.notes_within (FreeNames.leads_stmts thenBlock)
    (FreeNames.expr condition st) [] thenBlock
  have hwithin := (FreeNames.notes_optionBlock elseBlock _).finds hfound
  refine (h.expr hcondition hs (hnotes'.finds hwithin)).bind fun v p hp _ => .after fun b q hq => ?_
  have hs := hs.next (hp.trans hq) hnotes
  match b, elseBlock, helse, hfound with
  | true, _, _, _ => exact h.inner frame ⟨hthen, _, hs, hwithin⟩
  | false, some body, helse, hfound =>
    exact h.inner frame (optionKnown helse (hs.notes hnotes') hfound body rfl)
  | false, none, _, _ => exact .pure fun _ _ => trivial

/-! ## Errors -/

theorem handle (frame : FrameId) (e : EvalError) {catchVar : Option String} {handler : Block}
    (hhandler : A.BlockKnown k scope catchVar.toList handler) :
    A.Steady k (ev.handle e catchVar handler scope frame) := by
  refine .after fun v p hp => .holding _ ?_
  have hhandler := hhandler.later hp
  obtain ⟨-, st, hs, -⟩ := id hhandler
  refine .inChild hs.lt_next fun inner q hq hinside => ?_
  cases catchVar with
  | none => exact (h.within frame hhandler hinside (List.forall_mem_nil _)).attempt.any
  | some name =>
    refine (Indifferent.define v).bind fun _ r hr hsettled => ?_
    exact (h.within frame hhandler (hinside.later hr)
      (List.forall_mem_singleton.mpr hsettled)).attempt.any

theorem handled (frame : FrameId) {body : Block} {catchVar : Option String} {handler : Option Block}
    (hbody : A.BlockKnown k scope [] body)
    (hhandler : ∀ x ∈ handler, A.BlockKnown k scope catchVar.toList x) :
    A.Steady k (ev.handled body catchVar handler scope frame) := by
  refine (h.inner frame hbody).attempt.bind fun first p hp _ => ?_
  match first, handler, hhandler with
  | .ok flow, _, _ | .error e, none, _ => exact .pure fun _ _ => trivial
  | .error e, some handler, hhandler =>
    exact .ite (fun _ => h.handle frame e ((hhandler handler rfl).later hp)) fun _ =>
      .pure fun _ _ => trivial

theorem finish (frame : FrameId) {last : Option Block}
    (hlast : ∀ x ∈ last, A.BlockKnown k scope [] x) (outcome : Except EvalError Flow) :
    A.Steady k (ev.finish last scope frame outcome) := by
  cases last with
  | none =>
    have houtcome : A.Neutral (MonadExcept.ofExcept outcome : Eval Flow) := inferInstance
    exact houtcome.indifferent k
  | some last =>
    refine ((h.inner frame (hlast last rfl)).holding _).bind fun flow p _ _ => ?_
    cases flow <;> exact Neutral.indifferent p

theorem tryCatch (frame : FrameId) {body : Block} {catchVar : Option String}
    {handler last : Option Block} (hparts : (StmtKind.tryCatch body catchVar handler last).PartsIn A.covers)
    (hs : A.Ready k scope st)
    (hfound : A.Finds (FreeNames.kindNames (.tryCatch body catchVar handler last) st)) :
    A.Steady k (ev.tryCatch body catchVar handler last scope frame) := by
  obtain ⟨hbody, hhandler, hlast⟩ := hparts
  have hnotes := FreeNames.State.notes_within (FreeNames.leads_stmts body) st [] body
  have hall {st' : FreeNames.State}
      (hnotes' : (st.within [] body (FreeNames.stmts body)).Notes st')
      (hcatch : A.Finds st' → ∀ x ∈ handler, A.BlockKnown k scope catchVar.toList x)
      (hfound : A.Finds (FreeNames.optionBlock last st')) :
      A.Steady k (ev.tryCatch body catchVar handler last scope frame) := by
    have hbefore := (FreeNames.notes_optionBlock last st').finds hfound
    refine (h.handled frame ⟨hbody, st, hs, hnotes'.finds hbefore⟩ (hcatch hbefore)).bind
      fun outcome p hp _ => h.finish frame (fun x hx => ?_) outcome
    exact optionKnown hlast (hs.next hp (hnotes.trans hnotes')) hfound x hx
  cases handler with
  | none => exact hall (.refl _) (fun _ => nofun) hfound
  | some handler =>
    refine hall (FreeNames.State.notes_within (FreeNames.leads_stmts handler) _ _ _)
      (fun hbefore x hx => ?_) hfound
    cases hx
    exact ⟨hhandler handler rfl, _, hs.notes hnotes, hbefore⟩

/-! ## Functions, modules and tasks -/

omit h in
/-- A function that is declared is looked up under its name, which is allowed. -/
theorem declareFunc {definition : FuncDef} (hnode : A.covers (.stmt (.func definition)))
    (hdefinition : definition.In A.covers) (hs : A.Ready k scope st)
    (hfound : A.Finds (FreeNames.func definition st)) :
    A.Steady k (Evaluator.declareFunc definition scope) := by
  unfold Evaluator.declareFunc
  split
  · exact .failWith _
  · rename_i name hname
    have hclosure : A.ClosureKnown k definition scope (false && definition.name.isSome) := by
      refine ⟨hdefinition, fun _ n hn => ?_, st, hs, hfound⟩
      have hdisplay : definition.displayName = n := by rw [FuncDef.displayName, hn, Option.getD_some]
      exact hdisplay ▸ hnode
    refine (Indifferent.closure hclosure).bind fun f p hp _ => ?_
    exact (Indifferent.define f).before

theorem returned {exprs : List Expr} (hexprs : ∀ e ∈ exprs, e.In A.covers) (hs : A.Ready k scope st)
    (hfound : A.Finds (FreeNames.exprs exprs st)) : A.Steady k (ev.returned exprs scope) := by
  match exprs, hexprs, hfound with
  | [], _, _ => exact .pure fun _ _ => trivial
  | [e], hexprs, hfound => exact h.expr (List.forall_mem_singleton.mp hexprs) hs hfound
  | e :: e' :: rest, hexprs, hfound => exact (h.exprs hexprs hs hfound).before

theorem declareModule {name : String} {body : Block} (hmodule : A.modules name)
    (hbody : Block.In A.covers body) (hs : A.Ready k scope st)
    (hfound : A.Finds (st.within [] body (FreeNames.stmts body))) :
    A.Steady k (ev.declareModule name body scope) := by
  refine .inChild hs.lt_next fun inner p _ hinside => ?_
  have hready := (hs.inside hinside).opened hbody (List.forall_mem_nil _)
  refine (h.body hbody hready hfound).bind fun flow q hq _ => ?_
  cases flow with
  | value v =>
    exact (Indifferent.definePackage ⟨(hready.later hq).lt_next, .inl hmodule⟩).before
  | brk | cont | ret v => exact .failWith _

theorem preparedCall (keyword : String) {e : Expr} (he : e.In A.covers) (hs : A.Ready k scope st)
    (hfound : A.Finds (FreeNames.expr e st)) : A.Steady k (ev.preparedCall keyword e scope) := by
  obtain ⟨kind, pos⟩ := e
  have hparts := he.parts.2
  cases kind with
  | call callee args spread => exact (h.callParts hparts.1 hparts.2 hs hfound).before
  | _ => exact .misfit _

theorem sendValue {channel value : Expr} (hchannel : channel.In A.covers) (hvalue : value.In A.covers)
    (hs : A.Ready k scope st) (hfound : A.Finds (FreeNames.expr value (FreeNames.expr channel st))) :
    A.Steady k (ev.sendValue channel value scope) := by
  have hbefore := (FreeNames.notes_expr value _).finds hfound
  refine (h.channel hchannel hs hbefore).bind fun chan p hp _ => ?_
  exact ((h.expr hvalue (hs.next hp (FreeNames.notes_expr channel st)) hfound).holding _).before

/-! ## All statements -/

/-- **The names that a statement binds are settled after it.** -/
theorem dispatchStmt (frame : FrameId) {kind : StmtKind} (hnode : A.covers (.stmt kind))
    (hparts : kind.PartsIn A.covers) (hs : A.Ready k scope st)
    (hfound : A.Finds (FreeNames.kindNames kind st)) :
    A.Indifferent k (fun p _ => ∀ n ∈ kind.bound, A.Settled p n scope)
      (ev.dispatchStmt scope frame kind) := by
  have hnone (hkind : kind.bound = []) (hm : A.Steady k (ev.dispatchStmt scope frame kind)) :
      A.Indifferent k (fun p _ => ∀ n ∈ kind.bound, A.Settled p n scope)
        (ev.dispatchStmt scope frame kind) :=
    hm.weaken fun _ _ _ _ => by
      rw [hkind]
      exact List.forall_mem_nil _
  cases kind with
  | var names exprs =>
    exact h.declare hparts hs ((FreeNames.State.leads_declareAll _ names).finds hfound)
  | assign targets exprs => exact h.assignment hparts.1 hparts.2 hs hfound
  | expr e => exact hnone rfl (h.expr hparts hs hfound).before
  | opAssign target op e => exact hnone rfl (h.opAssign op hparts.1 hparts.2 hs hfound)
  | ifElse condition thenBlock elseBlock =>
    obtain ⟨hcondition, hthen, helse⟩ := hparts
    exact hnone rfl (h.ifElse frame hcondition hthen helse hs hfound)
  | switch discriminant cases default =>
    obtain ⟨hdiscriminant, hcases, hdefault⟩ := hparts
    exact hnone rfl (h.switch frame hdiscriminant hcases hdefault hs hfound)
  | select cases default => exact hnone rfl (h.select frame hparts.1 hparts.2 hs hfound)
  | loop condition body => exact hnone rfl (h.whileLoop frame hparts.1 hparts.2 hs hfound)
  | forClause init condition post body => exact hnone rfl (h.forClause frame hnode hparts hs hfound)
  | forIn vars iterable body => exact hnone rfl (h.forIn frame hparts.1 hparts.2 hs hfound)
  | func definition => exact hnone rfl (declareFunc hnode hparts hs hfound)
  | ret exprs => exact hnone rfl (h.returned hparts hs hfound).before
  | brk | cont => exact hnone rfl (.pure fun _ _ => trivial)
  | throw e => exact hnone rfl (h.expr hparts hs hfound).before
  | tryCatch body catchVar handler last => exact hnone rfl (h.tryCatch frame hparts hs hfound)
  | defer e => exact hnone rfl (h.preparedCall "defer" hparts hs hfound).before
  | module name body => exact hnone rfl (h.declareModule hnode.2 hparts hs hfound)
  | go e => exact hnone rfl (h.preparedCall "go" hparts hs hfound).before
  | send channel value => exact hnone rfl (h.sendValue hparts.1 hparts.2 hs hfound)
  | block body => exact hnone rfl (h.inner frame ⟨hparts, st, hs, hfound⟩)

theorem evalStmt (frame : FrameId) {x : Stmt} (hx : x.In A.covers) (hs : A.Ready k scope st)
    (hfound : A.Finds (FreeNames.stmt x st)) :
    A.Indifferent k (fun p _ => ∀ n ∈ x.kind.bound, A.Settled p n scope)
      (ev.evalStmt x scope frame) := by
  obtain ⟨hnode, hparts⟩ := hx.parts
  have hkind : A.Finds (FreeNames.kindNames x.kind st) := by
    obtain ⟨kind, pos⟩ := x
    exact hfound
  exact .after fun _ p hp => (h.dispatchStmt frame hnode hparts (hs.later hp) hkind).located x.pos

/-- A script, in a scope that is ready for it. -/
theorem program {script : Block} (hscript : Block.In A.covers script) (hs : A.Ready k scope st)
    (hfound : A.Finds (FreeNames.stmts script st)) : A.Steady k (ev.program script scope) := by
  refine (h.body hscript hs hfound).bind fun flow p _ _ => ?_
  cases flow <;> exact Neutral.indifferent p

end Knowing

/-- **All evaluation is knowing**, by induction on the fuel. -/
theorem knowing_ofFuel (A : AllowList) (run : RunId) (fuel : Nat) :
    A.Knowing (Evaluator.ofFuel run fuel) := by
  induction fuel with
  | zero =>
    exact {
      expr := fun _ _ _ => .outOfFuel
      stmt := fun _ _ _ _ => .outOfFuel
      inner := fun _ _ => .outOfFuel
      body := fun _ _ _ => .outOfFuel
      call := fun _ _ _ => ⟨fun _ => .outOfFuel⟩ }
  | succ fuel ih =>
    exact {
      expr := ih.evalExpr
      stmt := fun frame => ih.evalStmt frame
      inner := fun frame => ih.evalInner frame
      body := ih.evalBody
      call := ih.callValue }

end AllowList
end ScriptEngine
