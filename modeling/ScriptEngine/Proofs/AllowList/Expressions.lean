import ScriptEngine.Proofs.AllowList.Names
import ScriptEngine.Proofs.SpreadCalls

/-! # Expressions and calls do not see more than they may

An evaluator is **knowing** (`AllowList.Knowing`) if it is indifferent to what it is asked for: an
expression in a scope that is ready for it, as long as the walk finds only names that are allowed, a
statement, after which the names that it binds are settled, and a call of anything, since all functions of
scripts are known.  With its help so is all evaluation of expressions, and so are calls.
-/
namespace ScriptEngine
namespace AllowList

variable {α β : Type}

/-- The block, in which these names are bound to begin with, follows the rules, and the scope around it
is ready for it. -/
structure BlockKnown (A : AllowList) (p : Versions) (scope : ScopeId) (names : List String)
    (body : Block) : Prop where
  code : Block.In A.covers body
  walked : ∃ st, A.Ready p scope st ∧ A.Finds (st.within names body (FreeNames.stmts body))

/-- **The evaluator is knowing**: it goes together in both versions, whatever it is asked for. -/
structure Knowing (A : AllowList) (ev : Evaluator) : Prop where
  expr : ∀ {k scope st e}, e.In A.covers → A.Ready k scope st → A.Finds (FreeNames.expr e st) →
    A.Steady k (ev.expr e scope)
  stmt : ∀ {k scope st x} frame, x.In A.covers → A.Ready k scope st →
    A.Finds (FreeNames.stmt x st) →
    A.Indifferent k (fun p _ => ∀ n ∈ x.kind.bound, A.Settled p n scope) (ev.stmt x scope frame)
  inner : ∀ {k scope body} frame, A.BlockKnown k scope [] body →
    A.Steady k (ev.inner body scope frame)
  body : ∀ {k scope st body}, Block.In A.covers body → A.Ready k scope st →
    A.Finds (FreeNames.stmts body st) → A.Steady k (ev.body body scope)
  call : ∀ callee args spread, A.Neutral (ev.call callee args spread)

variable {A : AllowList} {k p q : Versions} {P : Versions → α → Prop} {Q : Versions → β → Prop}
  {scope : ScopeId} {st : FreeNames.State} {ev : Evaluator}

theorem BlockKnown.later {names : List String} {body : Block} (hb : A.BlockKnown k scope names body)
    (hp : A.Later k p) : A.BlockKnown p scope names body :=
  ⟨hb.code, hb.walked.imp fun _ h => ⟨h.1.later hp, h.2⟩⟩

instance (v : Value) : A.Neutral (Eval.typeName v) := (inferInstance : A.Neutral (Eval.readHeap _))

instance (v : Value) : A.Neutral (Eval.truthy v) := (inferInstance : A.Neutral (Eval.readHeap _))

/-- A computation before something neutral. -/
theorem Indifferent.before {m : Eval α} {f : α → Eval β} [hf : ∀ a, A.Neutral (f a)]
    (hm : A.Indifferent k P m) : A.Steady k (m >>= f) :=
  hm.bind fun a p _ _ => (hf a).indifferent p

namespace Knowing
variable (h : A.Knowing ev)
include h

/-! ## Sequences -/

theorem exprs {es : List Expr} (hes : ∀ e ∈ es, e.In A.covers) (hs : A.Ready k scope st)
    (hfound : A.Finds (FreeNames.exprs es st)) :
    A.Indifferent k (fun _ vs => vs.length = es.length) (ev.exprs scope es) := by
  induction es generalizing k st with
  | nil => exact .pure fun _ _ => rfl
  | cons e rest ih =>
    obtain ⟨he, hrest⟩ := List.forall_mem_cons.mp hes
    have hnotes := FreeNames.notes_expr e st
    refine (h.expr he hs ((FreeNames.notes_exprs rest _).finds hfound)).bind fun v p hp _ => ?_
    refine ((ih hrest (hs.next hp hnotes) hfound).holding _).bind fun vs q _ hvs => ?_
    exact .pure fun _ _ => congrArg Nat.succ hvs

theorem blockFrom (frame : FrameId) {body : Block} (hbody : Block.In A.covers body)
    (hs : A.Ready k scope st) (hfound : A.Finds (FreeNames.stmts body st)) (last : Value) :
    A.Steady k (ev.blockFrom scope frame last body) := by
  induction body generalizing k st last with
  | nil => exact .pure fun _ _ => trivial
  | cons x rest ih =>
    obtain ⟨hx, hrest⟩ := Block.in_cons hbody
    have hstmt := h.stmt frame hx hs ((FreeNames.leads_stmts rest _).finds hfound)
    refine (hstmt.keeping (.value last) fun p q _ hp hq hn n hmem => (hn n hmem).later
      (hs.later hp).lt_next hq).bind fun flow p hp hn => ?_
    cases flow with
    | value v =>
      exact ih hrest ((hs.later hp).leads (FreeNames.leads_stmt x st) fun n hmem => .inr (hn n hmem))
        hfound v
    | brk | cont | ret v => exact .pure fun _ _ => trivial

theorem block (frame : FrameId) {body : Block} (hbody : Block.In A.covers body)
    (hs : A.Ready k scope st) (hfound : A.Finds (FreeNames.stmts body st)) :
    A.Steady k (ev.block body scope frame) := h.blockFrom frame hbody hs hfound .nil

/-- A block in a scope inside the one around it, once its names have been bound. -/
theorem within (frame : FrameId) {inner : ScopeId} {names : List String} {body : Block}
    (hbody : A.BlockKnown k scope names body) (hinside : A.Inside k p scope inner)
    (hnames : ∀ n ∈ names, A.Settled p n inner) : A.Steady p (ev.block body inner frame) := by
  obtain ⟨st, hs, hfound⟩ := hbody.walked
  exact h.block frame hbody.code
    ((hs.inside hinside).opened hbody.code fun n hn => .inr (hnames n hn)) hfound

theorem evalInner (frame : FrameId) {body : Block} (hbody : A.BlockKnown k scope [] body) :
    A.Steady k (ev.evalInner body scope frame) := by
  obtain ⟨st, hs, -⟩ := hbody.walked
  exact .inChild hs.lt_next fun inner p _ hinside =>
    h.within frame hbody hinside (List.forall_mem_nil _)

theorem channel {e : Expr} (he : e.In A.covers) (hs : A.Ready k scope st)
    (hfound : A.Finds (FreeNames.expr e st)) : A.Steady k (ev.channel e scope) := by
  refine (h.expr he hs hfound).bind fun v p _ _ => ?_
  cases v <;> exact Neutral.indifferent p

/-! ## Calls -/

theorem runCalls (frame : FrameId) (calls : List DeferredCall) (outcome : Except EvalError Flow) :
    A.Neutral (ev.runCalls frame calls outcome) := by
  have hcall := h.call
  induction calls generalizing outcome with
  | nil => exact (inferInstance : A.Neutral (Pure.pure outcome))
  | cons call rest ih => unfold Evaluator.runCalls; infer_instance

theorem evalBody {body : Block} (hbody : Block.In A.covers body) (hs : A.Ready k scope st)
    (hfound : A.Finds (FreeNames.stmts body st)) : A.Steady k (ev.evalBody body scope) := by
  have hcalls := h.runCalls
  refine .inFrame fun frame p hp => ?_
  exact (h.block frame hbody (hs.later hp) hfound).attempt.before

omit h in
/-- A parameter gets one of the fixed arguments, unless it is the last one and there is none for it. -/
theorem mem_zip_or_last {params : List String} {fixed : List Value} {n : String}
    (hfixed : params.length - 1 ≤ fixed.length) (hn : n ∈ params) :
    (∃ v, (n, v) ∈ params.zip fixed) ∨ params.getLast? = some n ∧ fixed.length < params.length := by
  obtain ⟨i, hi, rfl⟩ := List.getElem_of_mem hn
  by_cases hlt : i < fixed.length
  · refine .inl ⟨fixed[i], ?_⟩
    have hzip : i < (params.zip fixed).length := by
      rw [List.length_zip]
      omega
    have hget : (params.zip fixed)[i] = (params[i], fixed[i]) := List.getElem_zip
    exact hget ▸ List.getElem_mem hzip
  · have hlast : i = params.length - 1 := by omega
    refine .inr ⟨?_, by omega⟩
    rw [List.getLast?_eq_getElem?, ← hlast, List.getElem?_eq_getElem hi]

omit h in
/-- **The parameters of a call are settled in its scope.**  The function itself is not bound there. -/
theorem bindOnlyParams {callee : Value} {definition : FuncDef} {fixed : List Value}
    {rest : Option (List Value)} (hscope : scope < k.next)
    (hfixed : fixed.length = definition.params.length - (if definition.variadic then 1 else 0))
    (hrest : rest.isSome = definition.variadic) :
    A.Indifferent k (fun p _ => ∀ n ∈ definition.params, A.Settled p n scope)
      (Evaluator.bindParams callee definition false fixed rest scope) := by
  have hlength : definition.params.length - 1 ≤ fixed.length := by
    rw [hfixed]
    split <;> omega
  have hcover {n : String} (hn : n ∈ definition.params) := mem_zip_or_last hlength hn
  show A.Indifferent k _ (Eval.defineAll scope (definition.params.zip fixed) >>= _)
  refine (Indifferent.defineAll hscope _).bind fun _ p hp hzip => ?_
  have hscope := Nat.lt_of_lt_of_le hscope hp.next_le
  split
  · rename_i last _ hlast
    refine .after fun v q hq => (Indifferent.define v).weaken fun r _ hr hsettled n hn => ?_
    obtain ⟨v, hv⟩ | ⟨hn, -⟩ := hcover hn
    · exact (hzip _ hv).later hscope (hq.trans hr)
    · cases hlast.symm.trans hn
      exact hsettled
  · rename_i hnone
    refine .pure fun q hq n hn => ?_
    obtain ⟨v, hv⟩ | ⟨hlast, hlt⟩ := hcover hn
    · exact (hzip _ hv).later hscope hq
    · -- There is an argument for the last parameter, or a rest.
      cases hvariadic : definition.variadic with
      | false =>
        rw [hvariadic] at hfixed
        exact absurd hlt (Nat.not_lt_of_le (Nat.le_of_eq hfixed.symm))
      | true =>
        obtain ⟨items, rfl⟩ := Option.isSome_iff_exists.mp (hrest.trans hvariadic)
        exact absurd rfl (hnone items n · hlast)

omit h in
/-- **The names of a call are settled in its scope**, the name of the function unless it is looked up
outside. -/
theorem bindParams {callee : Value} {definition : FuncDef} {selfBound : Bool} {fixed : List Value}
    {rest : Option (List Value)} (hscope : scope < k.next)
    (hfixed : fixed.length = definition.params.length - (if definition.variadic then 1 else 0))
    (hrest : rest.isSome = definition.variadic)
    (hname : selfBound = false → ∀ n ∈ definition.name, A.allows n) :
    A.Indifferent k (fun p _ => ∀ n ∈ definition.params ++ definition.name.toList,
        A.allows n ∨ A.Settled p n scope)
      (Evaluator.bindParams callee definition selfBound fixed rest scope) := by
  have hnames {k : Versions} (hself : selfBound = true → ∀ n ∈ definition.name, A.Settled k n scope)
      (hscope : scope < k.next) : A.Indifferent k (fun p _ =>
        ∀ n ∈ definition.params ++ definition.name.toList, A.allows n ∨ A.Settled p n scope)
      (Evaluator.bindParams callee definition false fixed rest scope) :=
    (bindOnlyParams hscope hfixed hrest).weaken fun p _ hp hparams n hn => by
      obtain hn | hn := List.mem_append.mp hn
      · exact .inr (hparams n hn)
      · cases hbound : selfBound with
        | false => exact .inl (hname hbound n (Option.mem_toList.mp hn))
        | true => exact .inr ((hself hbound n (Option.mem_toList.mp hn)).later hscope hp)
  unfold Evaluator.bindParams
  refine .ite (fun hbound => ?_) fun hfree => hnames (fun hbound => absurd hbound hfree) hscope
  split
  · rename_i name hsome
    refine (Indifferent.define callee).bind fun _ p hp hsettled => hnames (fun _ n hn => ?_)
      (Nat.lt_of_lt_of_le hscope hp.next_le)
    cases hsome.symm.trans hn
    exact hsettled
  · rename_i hnone
    exact hnames (fun _ n hn => absurd hn (hnone n)) hscope

/-- **A call of a function that is known.** -/
theorem callScript {callee : Value} {definition : FuncDef} {around : ScopeId} {selfBound : Bool}
    (hclosure : A.ClosureKnown k definition around selfBound) (args : List Value) (spread : Bool) :
    A.Steady k (ev.callScript callee definition around selfBound args spread) := by
  obtain ⟨st, hs, hfound⟩ := hclosure.walked
  have hbody := hclosure.code.parts.2
  have hwalk : A.Finds (FreeNames.stmts definition.body
      (st.opened (definition.params ++ definition.name.toList) definition.body)) := by
    obtain ⟨name, params, variadic, body⟩ := definition
    exact hfound
  unfold Evaluator.callScript
  refine .ite (fun _ => (Indifferent.misfit (P := fun _ _ => False) _).bind fun _ _ _ hf => hf.elim)
    fun _ => ?_
  refine (Indifferent.tryHeap (P := fun _ bound => bound.1.length = definition.params.length -
      (if definition.variadic then 1 else 0) ∧ bound.2.isSome = definition.variadic)
    fun g _ bound _ hb => ?_).bind fun bound p hp hbound => ?_
  · obtain ⟨hcount, hrest, -⟩ := Heap.bindArguments_parts hb
    exact ⟨hcount, hrest⟩
  have hs := hs.later hp
  refine ((Indifferent.openScope hs.lt_next).keeping _ fun p q inner _ hq hinside =>
    hinside.later hq).bind fun inner q hq hinside => ?_
  refine Indifferent.holding _ ((bindParams hinside.lt_next hbound.1 hbound.2 hclosure.named).bind
    fun _ r hr hnames => ?_)
  refine (h.body hbody (((hs.inside hinside).later hr).opened hbody hnames) hwalk).bind
    fun flow _ _ _ => ?_
  cases flow <;> exact Neutral.indifferent _

theorem callEach (callee : Value) (items : List Value) : A.Neutral (ev.callEach callee items) := by
  have hcall := h.call
  induction items with
  | nil => exact (inferInstance : A.Neutral (Pure.pure []))
  | cons item rest ih => unfold Evaluator.callEach; infer_instance

theorem act (args : List Value) (action : HostAction) : A.Neutral (ev.act args action) := by
  have hcall := h.call
  have heach := h.callEach
  have hlook {γ : Type} (f : Heap → γ) (hf : ∀ g h, f (Heap.onScopes g h) = f h) :
      A.Neutral (Eval.readHeap f) := neutral_read fun g s => hf g s.heap
  unfold Evaluator.act
  cases action with
  | typeNames => exact hlook _ fun _ _ => rfl
  | sum => exact hlook _ fun _ _ => rfl
  | cycles => exact neutral_read fun _ _ => rfl
  | call | callEach => dsimp only; split <;> infer_instance
  | _ => dsimp only; infer_instance

theorem callHost (f : HostFunction) (args : List Value) (spread : Bool) :
    A.Neutral (ev.callHost f args spread) := by
  have hact := h.act
  unfold Evaluator.callHost
  infer_instance

/-- **Calls are neutral**, since all functions of scripts are known. -/
theorem callValue (callee : Value) (args : List Value) (spread : Bool) :
    A.Neutral (ev.callValue callee args spread) := by
  unfold Evaluator.callValue
  split
  · rename_i id
    refine ⟨fun k => Indifferent.holding _ ?_⟩
    have hfunc : A.Indifferent k (fun p f => ∀ definition scope selfBound,
        f = .script definition scope selfBound → A.ClosureKnown p definition scope selfBound)
        (Eval.readHeap (·.func id)) := by
      refine .read (fun _ _ => rfl) fun p hp definition scope selfBound hf => ?_
      exact hp.valid.closuresKnown (congrArg Function.closure? hf)
    refine hfunc.bind fun f p _ hf => ?_
    cases f with
    | script definition scope selfBound => exact h.callScript (hf _ _ _ rfl) args spread
    | host f => exact (h.callHost f args spread).indifferent p
  · infer_instance

end Knowing

/-! ## Places -/

/-- **What a place that stands for the target leads to is known**: a variable is the target itself, and a
member of a package is allowed or settled in it. -/
def PlaceKnown (A : AllowList) (p : Versions) (target : Expr) : Place → Prop
  | .var n => target.ownName? = some n
  | .member package n => package < p.next ∧ (A.allows n ∨ A.Settled p n package)
  | .element _ _ | .field _ _ => True

theorem PlaceKnown.later {target : Expr} {place : Place} (hplace : A.PlaceKnown k target place)
    (hp : A.Later k p) : A.PlaceKnown p target place := by
  cases place with
  | member package n =>
    exact ⟨Nat.lt_of_lt_of_le hplace.1 hp.next_le,
      hplace.2.imp_right fun hs => hs.later hplace.1 hp⟩
  | _ => exact hplace

/-- A name that the walk comes across as an object. -/
theorem Ready.object {object : Expr} (hs : A.Ready k scope st)
    (hfound : A.Finds (FreeNames.expr object st)) {n : String} (hn : object.kind = .ident n) :
    A.allows n ∨ A.Settled k n scope := by
  obtain ⟨kind, pos⟩ := object
  cases hn
  exact hs.allowed_or_settled hfound

/-- A member that is looked up in a package is allowed or settled there. -/
theorem PackageKnown.member {m n : String} {pos : Position} {package : ScopeId}
    (hpackage : A.PackageKnown k m package)
    (hnode : A.covers (.expr (.member (.mk (.ident m) pos) n))) :
    A.allows n ∨ A.Settled k n package := hpackage.settled.imp hnode fun hs => hs n

section
variable {place : Place} {target : Expr}

theorem steady_place {m : Eval α} (place : Place) (hm : A.Steady k m) : A.Steady k (place.holding m) := by
  unfold Place.holding
  induction place.holdings with
  | nil => exact hm
  | cons x xs ih => exact ih.holding x

/-- A place is read if a variable that it stands for may be. -/
theorem readPlace (hscope : scope < k.next) (hplace : A.PlaceKnown k target place)
    (hvar : ∀ n, target.ownName? = some n → A.allows n ∨ A.Settled k n scope) :
    A.Steady k (Eval.readPlace place scope) := by
  cases place with
  | var n => exact .lookup hscope (hvar n hplace)
  | element container index =>
    have hindex : A.Neutral (Eval.tryHeap (·.index container index)) := inferInstance
    exact hindex.indifferent k
  | field container name =>
    have hmember : A.Neutral (Eval.tryHeap (·.member container name)) := inferInstance
    exact hmember.indifferent k
  | member package n => exact .lookup hplace.1 hplace.2

/-- **A variable that is written is settled.** -/
theorem writePlace (hscope : scope < k.next) (hplace : A.PlaceKnown k target place) (v : Value) :
    A.Indifferent k (fun p _ => ∀ n, place = .var n → A.Settled p n scope)
      (Eval.writePlace place scope v) := by
  cases place with
  | var n =>
    refine (Indifferent.assign hscope v).weaken fun p _ _ hs m hm => ?_
    cases hm
    exact hs
  | element container index =>
    have hstore : A.Neutral (Eval.store (·.prepareIndex container index v)) := inferInstance
    exact (hstore.indifferent k).weaken fun _ _ _ _ => nofun
  | field container name =>
    have hstore : A.Neutral (Eval.store (·.prepareMember container name v)) := inferInstance
    exact (hstore.indifferent k).weaken fun _ _ _ _ => nofun
  | member package n => exact (Indifferent.assign hplace.1 v).weaken fun _ _ _ _ => nofun

end

namespace Knowing
variable (h : A.Knowing ev)
include h

/-- The place of a target. The walk has come across all that is evaluated for it. -/
theorem place {target : Expr} (htarget : target.In A.covers) (hs : A.Ready k scope st)
    (hfound : target.ownName? = none → A.Finds (FreeNames.expr target st)) :
    A.Indifferent k (fun p place => A.PlaceKnown p target place ∧
        ∀ n, target.ownName? = some n → place = .var n)
      (ev.place target scope) := by
  obtain ⟨kind, pos⟩ := target
  obtain ⟨hnode, hparts⟩ := htarget.parts
  unfold Evaluator.place
  cases kind with
  | ident name => exact .pure fun _ _ => ⟨rfl, fun n hn => congrArg Place.var (Option.some.inj hn)⟩
  | index object index =>
    have hfound := hfound rfl
    have hobject := h.expr hparts.1 hs ((FreeNames.notes_expr index _).finds hfound)
    refine hobject.bind fun container p hp _ => ?_
    have hindex := h.expr hparts.2 (hs.next hp (FreeNames.notes_expr object st)) hfound
    exact (hindex.holding (.value container)).bind fun _ _ _ _ => .pure fun _ _ => ⟨trivial, nofun⟩
  | member object name =>
    have hfound : A.Finds (FreeNames.expr object st) := hfound rfl
    have hpackage := Indifferent.packageOf? hs.lt_next fun n hn => hs.object hfound hn
    refine hpackage.bind fun package p hp hpackage => ?_
    cases package with
    | some package =>
      obtain ⟨m, hm, hknown⟩ := hpackage package rfl
      obtain ⟨kind, pos⟩ := object
      cases hm
      refine .pure fun q hq => ⟨?_, nofun⟩
      exact ⟨Nat.lt_of_lt_of_le hknown.lt_next hq.next_le,
        (hknown.member hnode).imp_right fun hsettled => hsettled.later hknown.lt_next hq⟩
    | none =>
      exact (h.expr hparts (hs.later hp) hfound).bind fun _ _ _ _ => .pure fun _ _ => ⟨trivial, nofun⟩
  | _ => exact .misfit _

/-! ## Expressions -/

theorem optional {e : Option Expr} (he : ∀ x ∈ e, x.In A.covers) (hs : A.Ready k scope st)
    (hfound : A.Finds (FreeNames.optionExpr e st)) : A.Steady k (ev.optional scope e) := by
  cases e with
  | none => exact .pure fun _ _ => trivial
  | some e => exact (h.expr (he e rfl) hs hfound).before

theorem binary (op : BinaryOp) {left right : Expr} (hleft : left.In A.covers)
    (hright : right.In A.covers) (hs : A.Ready k scope st)
    (hfound : A.Finds (FreeNames.expr right (FreeNames.expr left st))) :
    A.Steady k (ev.binary op left right scope) := by
  have hl := h.expr hleft hs ((FreeNames.notes_expr right _).finds hfound)
  refine hl.bind fun l p hp _ => .after fun b q hq => ?_
  have hr := (h.expr hright (hs.next (hp.trans hq) (FreeNames.notes_expr left st)) hfound).holding
    (.value l)
  cases op <;> cases b <;> first | exact hr.before | exact Neutral.indifferent q

theorem slice {object : Expr} {start stop : Option Expr} (hobject : object.In A.covers)
    (hstart : ∀ e ∈ start, e.In A.covers) (hstop : ∀ e ∈ stop, e.In A.covers)
    (hs : A.Ready k scope st) (hfound : A.Finds
      (FreeNames.optionExpr stop (FreeNames.optionExpr start (FreeNames.expr object st)))) :
    A.Steady k (ev.slice object start stop scope) := by
  have hnotes := FreeNames.notes_optionExpr stop
    (FreeNames.optionExpr start (FreeNames.expr object st))
  have hbefore := hnotes.finds hfound
  have hnotes' := FreeNames.notes_optionExpr start (FreeNames.expr object st)
  refine (h.expr hobject hs (hnotes'.finds hbefore)).bind fun target p hp _ => ?_
  have hs := hs.next hp (FreeNames.notes_expr object st)
  refine ((h.optional hstart hs hbefore).holding _).bind fun _ q hq _ => ?_
  exact ((h.optional hstop (hs.next hq hnotes') hfound).holding _).before

theorem callParts {callee : Expr} {args : List Expr} (hcallee : callee.In A.covers)
    (hargs : ∀ e ∈ args, e.In A.covers) (hs : A.Ready k scope st)
    (hfound : A.Finds (FreeNames.exprs args (FreeNames.expr callee st))) :
    A.Steady k (ev.callParts callee args scope) := by
  have hl := h.expr hcallee hs ((FreeNames.notes_exprs args _).finds hfound)
  refine hl.bind fun callee' p hp _ => ?_
  exact ((h.exprs hargs (hs.next hp (FreeNames.notes_expr callee st)) hfound).any.holding _).before

theorem entries (map : MapId) {fields : List (Expr × Expr)}
    (hfields : ∀ field ∈ fields, field.1.In A.covers ∧ field.2.In A.covers)
    (hs : A.Ready k scope st) (hfound : A.Finds (FreeNames.entries fields st)) :
    A.Steady k (ev.entries scope map fields) := by
  induction fields generalizing k st with
  | nil => exact .pure fun _ _ => trivial
  | cons field rest ih =>
    obtain ⟨key, value⟩ := field
    obtain ⟨⟨hkey, hvalue⟩, hrest⟩ := List.forall_mem_cons.mp hfields
    have hpair := (FreeNames.notes_entries rest _).finds hfound
    have hl := h.expr hkey hs ((FreeNames.notes_expr value _).finds hpair)
    refine hl.bind fun k' p hp _ => ?_
    have hs := hs.next hp (FreeNames.notes_expr key st)
    refine ((h.expr hvalue hs hpair).holding _).bind fun v q hq _ => .after fun _ r hr => ?_
    exact ih hrest (hs.next (hq.trans hr) (FreeNames.notes_expr value _)) hfound

theorem mapLiteral (types : Option (TypeExpr × TypeExpr)) {fields : List (Expr × Expr)}
    (hfields : ∀ field ∈ fields, field.1.In A.covers ∧ field.2.In A.covers)
    (hs : A.Ready k scope st) (hfound : A.Finds (FreeNames.entries fields st)) :
    A.Steady k (ev.mapLiteral types fields scope) := by
  have hnext : A.Neutral (Eval.readHeap (·.maps.next)) := neutral_read fun _ _ => rfl
  have hfill {k : Versions} (hs : A.Ready k scope st) (keyType valueType : Option HostType) :
      A.Steady k (do
        let map ← Eval.readHeap (·.maps.next)
        let v ← Eval.alloc (·.addMap ⟨[], keyType, valueType⟩)
        Eval.holdingValue v (ev.entries scope map fields)
        return v) :=
    .after fun map p hp => .after fun v q hq =>
      ((h.entries map hfields (hs.later (hp.trans hq)) hfound).holding _).before
  cases types with
  | none => exact .after fun types p hp => hfill (hs.later hp) types.1 types.2
  | some types =>
    exact .after fun _ p hp => .after fun _ q hq => .after fun types r hr =>
      hfill (hs.later (hp.trans (hq.trans hr))) types.1 types.2

theorem listLiteral (elemType : Option TypeExpr) {items : List Expr}
    (hitems : ∀ e ∈ items, e.In A.covers) (hs : A.Ready k scope st)
    (hfound : A.Finds (FreeNames.exprs items st)) :
    A.Steady k (ev.listLiteral elemType items scope) := by
  refine (h.exprs hitems hs hfound).bind fun items p _ _ => ?_
  cases elemType <;> exact Neutral.indifferent p

/-- What the target of an update or a compound assignment is, is used. -/
theorem target {target : Expr} (htarget : target.In A.covers) (hs : A.Ready k scope st)
    (hfound : A.Finds (FreeNames.expr target st)) :
    A.Indifferent k (fun p place => A.PlaceKnown p target place) (ev.place target scope) ∧
      ∀ n, target.ownName? = some n → A.allows n ∨ A.Settled k n scope := by
  refine ⟨(h.place htarget hs fun _ => hfound).weaken fun _ _ _ hplace => hplace.1, fun n hn => ?_⟩
  obtain ⟨kind, pos⟩ := target
  cases kind with
  | ident name =>
    cases hn
    exact hs.allowed_or_settled hfound
  | _ => cases hn

theorem update {target : Expr} (op : UpdateOp) (htarget : target.In A.covers)
    (hs : A.Ready k scope st) (hfound : A.Finds (FreeNames.expr target st)) :
    A.Steady k (ev.update target op scope) := by
  obtain ⟨hplace, hvar⟩ := h.target htarget hs hfound
  refine hplace.bind fun place p hp hknown => ?_
  have hscope := (hs.later hp).lt_next
  refine (readPlace hscope hknown fun n hn =>
    (hvar n hn).imp_right fun hsettled => hsettled.later hs.lt_next hp).bind fun current q hq _ => ?_
  refine .after fun updated r hr => ?_
  have hknown := hknown.later (hq.trans hr)
  exact (writePlace (hs.later (hp.trans (hq.trans hr))).lt_next hknown updated).before

theorem receive {channel : Expr} (hchannel : channel.In A.covers) (hs : A.Ready k scope st)
    (hfound : A.Finds (FreeNames.expr channel st)) : A.Steady k (ev.receive channel scope) :=
  (h.channel hchannel hs hfound).before

theorem dispatchExpr {kind : ExprKind} (hnode : A.covers (.expr kind))
    (hparts : kind.PartsIn A.covers) (hs : A.Ready k scope st)
    (hfound : A.Finds (FreeNames.exprKind kind st)) : A.Steady k (ev.dispatchExpr scope kind) := by
  have hcall := h.call
  cases kind with
  | literal l => exact .pure fun _ _ => trivial
  | ident name => exact .lookup hs.lt_next (hs.allowed_or_settled hfound)
  | binary op left right => exact h.binary op hparts.1 hparts.2 hs hfound
  | unary op operand => exact (h.expr hparts hs hfound).before
  | ternary condition thenExpr elseExpr =>
    obtain ⟨hcondition, hthen, helse⟩ := hparts
    have hnotes := FreeNames.notes_expr thenExpr (FreeNames.expr condition st)
    have hbefore := (FreeNames.notes_expr elseExpr _).finds hfound
    refine (h.expr hcondition hs (hnotes.finds hbefore)).bind fun v p hp _ => .after fun b q hq => ?_
    have hs := hs.next (hp.trans hq) (FreeNames.notes_expr condition st)
    exact .ite (fun _ => h.expr hthen hs hbefore) fun _ => h.expr helse (hs.notes hnotes) hfound
  | coalesce left right =>
    have hl := h.expr hparts.1 hs ((FreeNames.notes_expr right _).finds hfound)
    refine hl.bind fun v p hp _ => .after fun b q hq => .ite (fun _ => Neutral.indifferent q) fun _ => ?_
    exact (h.expr hparts.2 (hs.next (hp.trans hq) (FreeNames.notes_expr left st)) hfound).holding _
  | member object name =>
    refine (Indifferent.packageOf? hs.lt_next fun n hn => hs.object hfound hn).bind
      fun package p hp hpackage => ?_
    cases package with
    | some package =>
      obtain ⟨m, hm, hknown⟩ := hpackage package rfl
      obtain ⟨kind, pos⟩ := object
      cases hm
      exact .lookup hknown.lt_next (hknown.member hnode)
    | none => exact (h.expr hparts (hs.later hp) hfound).before
  | index object index =>
    have hl := h.expr hparts.1 hs ((FreeNames.notes_expr index _).finds hfound)
    refine hl.bind fun target p hp _ => ?_
    exact ((h.expr hparts.2 (hs.next hp (FreeNames.notes_expr object st)) hfound).holding _).before
  | slice object start stop => exact h.slice hparts.1 hparts.2.1 hparts.2.2 hs hfound
  | call callee args spread => exact (h.callParts hparts.1 hparts.2 hs hfound).before
  | func definition =>
    refine .closure ⟨hparts, fun hfree n hn => ?_, st, hs, hfound⟩
    rw [Bool.true_and, Option.isSome_eq_false_iff, Option.isNone_iff_eq_none] at hfree
    rw [hfree] at hn
    cases hn
  | list elemType items => exact h.listLiteral elemType hparts hs hfound
  | map types fields => exact h.mapLiteral types hparts hs hfound
  | contains item container =>
    have hl := h.expr hparts.1 hs ((FreeNames.notes_expr container _).finds hfound)
    refine hl.bind fun i p hp _ => ?_
    exact ((h.expr hparts.2 (hs.next hp (FreeNames.notes_expr item st)) hfound).holding _).before
  | update target op => exact h.update op hparts hs hfound
  | recv channel => exact (h.receive hparts hs hfound).before
  | make type args => exact .after fun type p hp => (h.exprs hparts (hs.later hp) hfound).before
  | new type => exact .after fun type p _ => Neutral.indifferent p

theorem evalExpr {e : Expr} (he : e.In A.covers) (hs : A.Ready k scope st)
    (hfound : A.Finds (FreeNames.expr e st)) : A.Steady k (ev.evalExpr e scope) := by
  obtain ⟨hnode, hparts⟩ := he.parts
  have hkind : A.Finds (FreeNames.exprKind e.kind st) := by
    obtain ⟨kind, pos⟩ := e
    exact hfound
  exact .after fun _ p hp => (h.dispatchExpr hnode hparts (hs.later hp) hkind).located e.pos

theorem commaOk {e : Expr} (he : e.In A.covers) (hs : A.Ready k scope st)
    (hfound : A.Finds (FreeNames.expr e st)) : A.Steady k (ev.commaOk e scope) := by
  have hexpr := (h.expr he hs hfound).before (f := fun v => Pure.pure (v, (none : Option Bool)))
  obtain ⟨kind, pos⟩ := e
  obtain ⟨-, hparts⟩ := he.parts
  unfold Evaluator.commaOk
  cases kind with
  | index object index =>
    refine .after fun _ p hp => ?_
    have hl := h.expr hparts.1 (hs.later hp) ((FreeNames.notes_expr index _).finds hfound)
    refine hl.bind fun target q hq _ => ?_
    have hr := h.expr hparts.2 (hs.next (hp.trans hq) (FreeNames.notes_expr object st)) hfound
    refine (hr.holding (.value target)).bind fun i r _ _ => ?_
    cases target <;> exact Neutral.indifferent r
  | recv channel =>
    exact .after fun _ p hp => (h.receive hparts (hs.later hp) hfound).before
  | _ => exact hexpr

end Knowing

end AllowList
end ScriptEngine
