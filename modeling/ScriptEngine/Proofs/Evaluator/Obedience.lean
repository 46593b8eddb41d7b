import ScriptEngine.Evaluator.Call
import ScriptEngine.Proofs.Task.Rules

/-! # Evaluation follows the rules

An evaluator is **obedient** to a property of computations (`Evaluator.Obedient`) if whatever it is
asked for has the property, as long as it is asked for something in the domain.  If the property
follows the rules, then calls and expressions that are evaluated with the help of such an evaluator
have it too.

The proofs follow the definitions of the evaluator, one lemma for each; what they have to show is that
scopes, values, callees and channels that are passed on are of the domain, that scopes are entered only
where they have just been opened, that names are bound in writable scopes only, and that evaluation goes
from the nodes of the code to their parts, and binds only what they name.
-/
namespace ScriptEngine

/-- What the statement ends with is of the zone. -/
def Flow.In (Z : Zone) (flow : Flow) : Prop := ∀ v ∈ flow.values, v.In Z

/-- What the place goes through is of the domain. -/
def Place.In (D : Domain) : Place → Prop
  | .var _ => True
  | .element container _ | .field container _ => container.In D.zone
  | .member package _ => D.writable package

/-- The name that is bound where the place is written. -/
def Place.boundName? : Place → Option String
  | .var name | .member _ name => some name
  | .element _ _ | .field _ _ => none

section
variable {Z : Zone}

theorem Flow.in_value {v : Value} (hv : v.In Z) : (Flow.value v).In Z :=
  List.forall_mem_singleton.mpr hv

theorem Flow.in_ret {v : Value} (hv : v.In Z) : (Flow.ret v).In Z := List.forall_mem_singleton.mpr hv

theorem Flow.In.of_value {v : Value} (hf : (Flow.value v).In Z) : v.In Z :=
  hf v (List.mem_singleton_self v)

theorem Flow.In.of_ret {v : Value} (hf : (Flow.ret v).In Z) : v.In Z :=
  hf v (List.mem_singleton_self v)

theorem firstError_in {α β : Type} {P : α → Prop} {Q : β → Prop} {outcome : Except EvalError α}
    {result : Except EvalError β} (ho : Ends Z P outcome) (hr : Ends Z Q result) :
    Ends Z P (firstError outcome result) := by
  cases outcome with
  | error e => exact ho
  | ok a =>
    cases result with
    | error e => exact hr
    | ok b => exact ho

end

/-- A zero value, as an operation on the heap. -/
def Eval.zeroOn (type : HostType) (h : Heap) : Outcome Value × Heap :=
  if type.hasZero then
    let (v, h) := h.zeroValue type
    (.ok v, h)
  else (.error .overflow, h)

theorem Eval.zeroItem_eq (type : HostType) (i : Nat) (s : EngineState) :
    Eval.zeroItem type i s =
      ((Eval.zeroOn type s.heap).1, { s with heap := (Eval.zeroOn type s.heap).2 }) := by
  unfold Eval.zeroItem Eval.zeroOn
  split <;> rfl

/-- **Whatever the evaluator is asked for in the domain has the property.** -/
structure Evaluator.Obedient (D : Domain) (Φ : ∀ {α : Type}, (α → Prop) → Eval α → Prop)
    (ev : Evaluator) : Prop where
  run : D.runs ev.run
  expr : ∀ {e scope}, e.In D.code → D.zone (.scope scope) → Φ (Value.In D.zone) (ev.expr e scope)
  stmt : ∀ {stmt scope frame}, stmt.In D.code → D.frames frame → D.writable scope →
    Φ (Flow.In D.zone) (ev.stmt stmt scope frame)
  inner : ∀ {block scope frame}, Block.In D.code block → D.frames frame → D.zone (.scope scope) →
    Φ (Flow.In D.zone) (ev.inner block scope frame)
  body : ∀ {block scope}, Block.In D.code block → D.writable scope →
    Φ (Flow.In D.zone) (ev.body block scope)
  call : ∀ {callee args} spread, callee.In D.zone → (∀ v ∈ args, v.In D.zone) →
    Φ (Value.In D.zone) (ev.call callee args spread)

namespace Evaluator.Obedient
variable {D : Domain} {Φ : ∀ {α : Type}, (α → Prop) → Eval α → Prop} {Opens : Eval ScopeId → Prop}
  {ev : Evaluator} {scope : ScopeId}

section
variable (h : ev.Obedient D Φ) (hR : Rules D Φ Opens)
include h hR

/-! ## Sequences -/

section
variable (hscope : D.zone (.scope scope))
include hscope

theorem exprs {es : List Expr} (hes : ∀ e ∈ es, e.In D.code) :
    Φ (AllIn D.zone) (ev.exprs scope es) := by
  induction es with
  | nil => exact hR.pure (List.forall_mem_nil _)
  | cons e rest ih =>
    obtain ⟨he, hrest⟩ := List.forall_mem_cons.mp hes
    refine hR.bind (h.expr he hscope) fun v hv => ?_
    refine hR.bind (hR.holding trivial (ih hrest)) fun vs hvs => ?_
    exact hR.pure (List.forall_mem_cons.mpr ⟨hv, hvs⟩)

omit hscope in
theorem blockFrom (hscope : D.writable scope) {frame : FrameId} (hframe : D.frames frame)
    {block : Block} (hblock : Block.In D.code block) {last : Value} (hlast : last.In D.zone) :
    Φ (Flow.In D.zone) (ev.blockFrom scope frame last block) := by
  induction block generalizing last with
  | nil => exact hR.pure (Flow.in_value hlast)
  | cons stmt rest ih =>
    obtain ⟨hstmt, hrest⟩ := Block.in_cons hblock
    refine hR.bind (hR.holding trivial (h.stmt hstmt hframe hscope)) fun flow hflow => ?_
    cases flow with
    | value v => exact ih hrest hflow.of_value
    | brk | cont | ret v => exact hR.pure hflow

omit hscope in
theorem block (hscope : D.writable scope) {block : Block} (hblock : Block.In D.code block)
    {frame : FrameId} (hframe : D.frames frame) :
    Φ (Flow.In D.zone) (ev.block block scope frame) :=
  h.blockFrom hR hscope hframe hblock (Value.in_scalar rfl)

theorem evalInner {block : Block} (hblock : Block.In D.code block) {frame : FrameId}
    (hframe : D.frames frame) : Φ (Flow.In D.zone) (ev.evalInner block scope frame) :=
  hR.inChild hscope fun _ hinner => h.block hR hinner hblock hframe

theorem channel {e : Expr} (he : e.In D.code) :
    Φ (fun chan => D.zone (.chan chan)) (ev.channel e scope) := by
  refine hR.bind (h.expr he hscope) fun v hv => ?_
  cases v with
  | chan id => exact hR.pure (Value.in_chan.mp hv)
  | _ => exact hR.bind (hR.look _) fun _ _ => hR.failWith _

end

/-! ## Calls -/

theorem runCalls {frame : FrameId} (hframe : D.bodies frame) {calls : List DeferredCall}
    (hcalls : ∀ c ∈ calls, c.In D.zone)
    {outcome : Except EvalError Flow} (houtcome : Ends D.zone (Flow.In D.zone) outcome) :
    Φ (Ends D.zone (Flow.In D.zone)) (ev.runCalls frame calls outcome) := by
  induction calls generalizing outcome with
  | nil => exact hR.pure houtcome
  | cons call rest ih =>
    obtain ⟨⟨hcallee, hargs⟩, hrest⟩ := List.forall_mem_cons.mp hcalls
    refine hR.bind (hR.dropDeferred hframe) fun _ _ => ?_
    have hcall := hR.attempt (h.call call.spread hcallee hargs)
    refine hR.bind (hR.holding trivial hcall) fun result hr => ?_
    exact ih hrest (firstError_in houtcome hr)

theorem evalBody {block : Block} (hblock : Block.In D.code block) (hscope : D.writable scope) :
    Φ (Flow.In D.zone) (ev.evalBody block scope) := by
  refine hR.inFrame fun frame hframe => ?_
  have hrun := h.block hR hscope hblock (hR.frames_of_bodies hframe)
  refine hR.bind (hR.attempt hrun) fun outcome ho => ?_
  refine hR.bind (hR.deferred frame) fun calls hcalls => ?_
  exact hR.bind (h.runCalls hR hframe hcalls ho) fun outcome ho => hR.ofExcept ho

omit h in
theorem bindParams {callee : Value} (hcallee : callee.In D.zone) {definition : FuncDef}
    (hdefinition : definition.In D.code) (selfBound : Bool) {fixed : List Value}
    {rest : Option (List Value)} (hbound : Heap.BoundIn D.zone (fixed, rest))
    (hscope : D.writable scope) :
    Φ (fun _ => True) (bindParams callee definition selfBound fixed rest scope) := by
  have hparam {name : String} (hname : name ∈ definition.params) : D.code.Binds name :=
    ⟨_, hdefinition.parts.1, List.mem_append_right _ hname⟩
  have hall : Φ (fun _ => True) (Eval.defineAll scope (definition.params.zip fixed)) :=
    hR.defineAll hscope (fun b hb => hparam (List.of_mem_zip hb).1)
      fun b hb => hbound.1 b.2 (List.of_mem_zip hb).2
  unfold Evaluator.bindParams
  refine Rules.ite (fun _ => ?_) fun _ => ?_
  on_goal 1 =>
    split
    on_goal 1 =>
      rename_i name hname
      have hself : D.code.Binds name :=
        ⟨_, hdefinition.parts.1, List.mem_append_left _ (Option.mem_toList.mpr hname)⟩
      refine hR.bind (hR.define hscope hself hcallee) fun _ _ => ?_
  -- whether or not the function is bound in its own body, its parameters are
  all_goals
    refine hR.bind hall fun _ _ => ?_
    split
    · rename_i hlast
      refine hR.bind (hR.newList ?_) fun v hv =>
        hR.define hscope (hparam (List.mem_of_getLast? hlast)) hv
      rw [List.toList_toArray]
      exact hbound.2 _ rfl
    · exact hR.pure trivial

theorem callScript {callee : Value} (hcallee : callee.In D.zone) {definition : FuncDef}
    (hdefinition : definition.In D.code)
    {around : ScopeId} (haround : D.zone (.scope around)) (selfBound : Bool) {args : List Value}
    (hargs : ∀ v ∈ args, v.In D.zone) (spread : Bool) :
    Φ (Value.In D.zone) (ev.callScript callee definition around selfBound args spread) := by
  obtain ⟨hnode, hbody⟩ := hdefinition.parts
  have hmisfit (hnone : (definition.variadic && definition.params.isEmpty) = true) :
      Φ (fun _ => True) (Eval.misfit (.parameters definition.displayName) : Eval PUnit) := by
    refine hR.misfit (Fragment.allows_of_flaw hnode ?_)
    show _ ∈ definition.flaws
    rw [FuncDef.flaws, if_pos hnone]
    exact List.mem_singleton_self _
  unfold Evaluator.callScript
  refine Rules.ite (fun hnone => hR.bind (hmisfit hnone) fun _ _ => ?_) fun _ => ?_
  all_goals
    refine hR.bind (hR.tryHeap fun h bound hz hp => Heap.bindArguments_in hz hargs hp)
      fun bound hbound => ?_
    refine hR.inside (hR.holdingOpens trivial (hR.openScope haround)) fun scope hscope => ?_
    refine hR.bind (bindParams hR hcallee hdefinition selfBound hbound hscope) fun _ _ => ?_
    refine hR.bind (h.body hbody hscope) fun flow hflow => ?_
    cases flow with
    | value v => exact hR.pure (Value.in_scalar rfl)
    | ret v => exact hR.pure hflow.of_ret
    | brk | cont => exact hR.failWith _

theorem callEach {callee : Value} (hcallee : callee.In D.zone) {items : List Value}
    (hitems : ∀ v ∈ items, v.In D.zone) : Φ (AllIn D.zone) (ev.callEach callee items) := by
  induction items with
  | nil => exact hR.pure (List.forall_mem_nil _)
  | cons item rest ih =>
    obtain ⟨hitem, hrest⟩ := List.forall_mem_cons.mp hitems
    have hcall := h.call false hcallee (List.forall_mem_singleton.mpr hitem)
    refine hR.bind (hR.holding trivial hcall) fun v hv => ?_
    refine hR.bind (hR.holding trivial (ih hrest)) fun vs hvs => ?_
    exact hR.pure (List.forall_mem_cons.mpr ⟨hv, hvs⟩)

omit h in
theorem builtin {run : RunId} (hrun : D.runs run) {args : List Value} (hargs : ∀ v ∈ args, v.In D.zone) (f : Builtin) :
    Φ (AllIn D.zone) (Builtin.act run args f) := by
  have htarget : (args.headD .nil).In D.zone := by
    cases args with
    | nil => exact Value.in_scalar rfl
    | cons v rest => exact hargs v List.mem_cons_self
  have hone {v : Value} (hv : v.In D.zone) : ∀ x ∈ [v], x.In D.zone := List.forall_mem_singleton.mpr hv
  have hlook {β : Type} (f : Heap → β) {make : β → Value} (hmake : ∀ b, (make b).In D.zone) :
      Φ (AllIn D.zone) (do return [make (← Eval.readHeap f)]) :=
    hR.bind (hR.look _) fun _ _ => hR.pure (hone (hmake _))
  unfold Builtin.act
  cases f with
  | len => exact hR.bind (hR.tryHeap fun _ _ _ _ => trivial) fun _ _ => hR.pure (hone (Value.in_scalar rfl))
  | range =>
    refine hR.bind (hR.look _) fun _ _ => ?_
    refine hR.bind (hR.ofOutcome _ fun _ _ => trivial) fun bounds _ => ?_
    have hrange : Φ (Value.In D.zone) (Builtin.buildRange run bounds) := by
      refine hR.bind (hR.build hrun (f := fun i h => (.ok (.int (Int64.ofInt (bounds.item i))), h))
        (fun _ _ => rfl) ?_ (fun _ _ => rfl) (fun _ _ => inferInstance) bounds.count)
        fun items hitems => hR.newList hitems
      exact fun i h hz => ⟨hz.stays, fun v hv => by cases hv; exact Value.in_scalar rfl⟩
    exact hR.bind hrange fun v hv => hR.pure (hone hv)
  | append =>
    have htail : ∀ v ∈ args.tail, v.In D.zone := fun v hv => hargs v (List.mem_of_mem_tail hv)
    refine hR.bind (hR.onHeap fun h v h' hz hp => ?_) fun v hv => hR.pure (hone hv)
    exact Heap.stays_append hz htarget (Heap.packed_in hz htail) hp
  | delete =>
    refine hR.bind (hR.changeHeap fun h h' hz hp => ?_) fun _ _ => hR.pure (List.forall_mem_nil _)
    exact ⟨Heap.stays_delete hz htarget hp, Heap.fabric_delete hp⟩
  | keys =>
    refine hR.bind (P := fun keys => ∀ k ∈ keys, k.In D.zone)
      (hR.tryHeap fun h keys hz hp => Heap.keys_in hp) fun keys hkeys => ?_
    refine hR.bind (hR.newList ?_) fun v hv => hR.pure (hone hv)
    rw [List.toList_toArray]
    exact hkeys
  | close =>
    generalize args.headD .nil = target at htarget
    cases target with
    | chan id => exact hR.bind (hR.close (Value.in_chan.mp htarget)) fun _ _ => hR.pure (List.forall_mem_nil _)
    | _ => exact hR.tryHeap fun _ _ _ hp => by cases hp
  | typeOf | kindOf | toString => exact hlook _ fun _ => Value.in_scalar rfl
  | toInt | toFloat => exact hR.pure (hone (Value.in_scalar rfl))
  | toBool => exact hlook _ fun _ => Value.in_scalar rfl

theorem act {args : List Value} (hargs : ∀ v ∈ args, v.In D.zone) (action : HostAction) :
    Φ (AllIn D.zone) (ev.act args action) := by
  cases action with
  | core f => exact builtin hR h.run hargs f
  | echo => exact hR.pure hargs
  | typeNames =>
    exact hR.readHeap (P := AllIn D.zone) fun h _ => List.forall_mem_map.mpr fun v _ => Value.in_str
  | sum =>
    exact hR.readHeap (P := AllIn D.zone) (f := fun h => [.int (h.sum args)]) fun h _ =>
      List.forall_mem_singleton.mpr Value.in_int
  | call =>
    cases args with
    | nil => exact hR.pure (List.forall_mem_nil _)
    | cons callee rest =>
      obtain ⟨hcallee, hrest⟩ := List.forall_mem_cons.mp hargs
      refine hR.bind (h.call false hcallee hrest) fun v hv => ?_
      exact hR.pure (List.forall_mem_singleton.mpr hv)
  | callEach =>
    match args with
    | [] | [_] => exact hR.pure (List.forall_mem_nil _)
    | callee :: items :: rest =>
      obtain ⟨hcallee, hmore⟩ := List.forall_mem_cons.mp hargs
      obtain ⟨hitems, -⟩ := List.forall_mem_cons.mp hmore
      refine hR.bind (P := AllIn D.zone)
        (hR.readHeap fun h hz => Heap.summands_in hz hitems) fun items hitems => ?_
      refine hR.bind (hR.holding trivial (h.callEach hR hcallee hitems)) fun vs hvs => ?_
      refine hR.bind (hR.newList ?_) fun v hv => hR.pure (List.forall_mem_singleton.mpr hv)
      rw [List.toList_toArray]
      exact hvs
  | cancel =>
    refine hR.bind (hR.signalOf h.run) fun signal hsignal => ?_
    exact hR.after (hR.cancel hsignal) fun _ => hR.pure (List.forall_mem_nil _)
  | cycles =>
    exact hR.cyclesOf (P := AllIn D.zone)
      (fun n => [Value.int (Int64.ofNat n)]) h.run fun n =>
        List.forall_mem_singleton.mpr (Value.in_scalar rfl)
  | sleep => exact hR.bind (hR.holding trivial (hR.sleep _)) fun _ _ => hR.pure (List.forall_mem_nil _)
  | interrupt => exact hR.fail nofun
  | give results => exact hR.onHeap fun _ _ _ hz hp => Heap.stays_buildAll results hz hp
  | invalid message => exact hR.failWith message
  | internal message => exact hR.fail nofun
  | throw value =>
    refine hR.bind (hR.onHeap fun _ _ _ hz hp => Heap.stays_build value hz hp) fun v hv => ?_
    exact hR.throw fun w hw => by cases hw; exact hv
  | breakDown message => exact hR.breakDown message

theorem callHost (f : HostFunction) {args : List Value} (hargs : ∀ v ∈ args, v.In D.zone)
    (spread : Bool) : Φ (Value.In D.zone) (ev.callHost f args spread) := by
  refine hR.bind (hR.tryHeap fun h bound hz hp => Heap.bindArguments_in hz hargs hp)
    fun bound hbound => ?_
  refine hR.bind (hR.onHeap fun h args h' hz hp => Heap.stays_hostArguments hz hbound hp)
    fun args hargs => ?_
  refine hR.bind (h.act hR hargs f.action) fun results hresults => ?_
  exact hR.onHeap fun h v h' hz hp => Heap.stays_hostResult hz hresults hp

theorem callValue {callee : Value} (hcallee : callee.In D.zone) {args : List Value}
    (hargs : ∀ v ∈ args, v.In D.zone) (spread : Bool) :
    Φ (Value.In D.zone) (ev.callValue callee args spread) := by
  unfold Evaluator.callValue
  cases callee with
  | func id =>
    refine hR.holding trivial (hR.bind (hR.callee (Value.in_func.mp hcallee)) fun f hf => ?_)
    cases f with
    | script definition around selfBound =>
      have haround := hf.1 _ (List.mem_singleton_self (Object.scope around))
      exact h.callScript hR hcallee hf.2 haround selfBound hargs spread
    | host f => exact h.callHost hR f hargs spread
  | _ => exact hR.bind (hR.look _) fun _ _ => hR.failWith _

/-! ## Places -/

section
variable (hscope : D.zone (.scope scope))
include hscope

omit h in
/-- A package is found only where a name stands. -/
theorem packageNamed? (object : Expr) :
    Φ (fun p => ∀ package, p = some package →
      D.writable package ∧ ∃ name, object.kind = .ident name) (Eval.packageOf? object scope) := by
  cases hkind : object.kind with
  | ident name =>
    exact hR.weaken (hR.packageOf? hscope object) fun p hp package he => ⟨hp package he, name, rfl⟩
  | _ =>
    unfold Eval.packageOf?
    rw [hkind]
    exact hR.pure nofun

/-- What does not fit about a target is allowed by the code, and the name that is bound is the one that
stands in it. -/
theorem place {target : Expr} (htarget : target.In D.code)
    (hflaws : ∀ m ∈ target.flawsOfTarget, D.code.Allows m) :
    Φ (fun p => p.In D ∧ ∀ name ∈ p.boundName?, name ∈ target.boundName?)
      (ev.place target scope) := by
  obtain ⟨kind, pos⟩ := target
  have hparts := htarget.parts.2
  cases kind with
  | ident name => exact hR.pure ⟨trivial, fun _ hname => hname⟩
  | index object index =>
    refine hR.bind (h.expr hparts.1 hscope) fun container hcontainer => ?_
    refine hR.bind (hR.holding trivial (h.expr hparts.2 hscope)) fun _ _ => ?_
    exact hR.pure ⟨hcontainer, nofun⟩
  | member object name =>
    refine hR.bind (packageNamed? hR hscope object) fun package hpackage => ?_
    cases package with
    | some package =>
      obtain ⟨hwrite, ident, hident⟩ := hpackage package rfl
      obtain ⟨kind, pos⟩ := object
      cases hident
      exact hR.pure ⟨hwrite, fun _ hname => hname⟩
    | none =>
      exact hR.bind (h.expr hparts hscope) fun container hcontainer =>
        hR.pure ⟨hcontainer, nofun⟩
  | _ => exact hR.misfit (hflaws .target (List.mem_singleton_self _))

omit h in
theorem readPlace {p : Place} (hp : p.In D) :
    Φ (Value.In D.zone) (Eval.readPlace p scope) := by
  cases p with
  | var name => exact hR.lookup hscope name
  | element container index => exact hR.tryHeap fun _ _ hz hv => Heap.index_in hz hp hv
  | field container name => exact hR.tryHeap fun _ _ hz hv => Heap.member_in hz hp hv
  | member package name => exact hR.lookup (hR.zone_of_writable hp) name

omit h hscope in
theorem writePlace (hscope : D.writable scope) {p : Place} (hp : p.In D)
    (hnames : ∀ name ∈ p.boundName?, D.code.Binds name) {v : Value} (hv : v.In D.zone) :
    Φ (fun _ => True) (Eval.writePlace p scope v) := by
  cases p with
  | var name => exact hR.assign hscope (hnames name rfl) hv
  | element container index => exact hR.store fun _ _ _ hz hw => Heap.stays_prepareIndex hz hp hv hw
  | field container name => exact hR.store fun _ _ _ hz hw => Heap.stays_prepareMember hz hp hv hw
  | member package name => exact hR.assign hp (hnames name rfl) hv

/-! ## Expressions -/

theorem optional {e : Option Expr} (he : ∀ x ∈ e, x.In D.code) :
    Φ (fun r => ∀ v ∈ r, v.In D.zone) (ev.optional scope e) := by
  cases e with
  | none => exact hR.pure nofun
  | some e =>
    refine hR.bind (h.expr (he e rfl) hscope) fun v hv => hR.pure fun w hw => ?_
    cases hw
    exact hv

omit h hscope in
theorem combine {run : RunId} (hrun : D.runs run) (op : BinaryOp) {left right : Value} (hleft : left.In D.zone)
    (hright : right.In D.zone) : Φ (Value.In D.zone) (Eval.combine run op left right) := by
  unfold Eval.combine
  split
  · exact hR.bind (hR.repeatText hrun _ _) fun _ _ => hR.pure (Value.in_scalar rfl)
  · exact hR.onHeap fun _ _ _ hz hp => Heap.stays_binary hz hleft hright hp

theorem binary (op : BinaryOp) {left right : Expr} (hleft : left.In D.code)
    (hright : right.In D.code) : Φ (Value.In D.zone) (ev.binary op left right scope) := by
  refine hR.bind (h.expr hleft hscope) fun l hl => hR.bind (hR.look _) fun b _ => ?_
  have hright := hR.holding (x := .value l) trivial (h.expr hright hscope)
  have htruth : Φ (Value.In D.zone) (do
      return .bool (← Eval.truthy (← Eval.holdingValue l (ev.expr right scope)))) :=
    hR.bind hright fun _ _ => hR.bind (hR.look _) fun _ _ => hR.pure (Value.in_scalar rfl)
  have hboth : Φ (Value.In D.zone) (do
      let r ← Eval.holdingValue l (ev.expr right scope)
      Eval.combine ev.run op l r) :=
    hR.bind hright fun r hr => combine hR h.run op hl hr
  cases op <;> cases b <;> first | exact hboth | exact htruth | exact hR.pure (Value.in_scalar rfl)

theorem slice {object : Expr} {start stop : Option Expr} (hobject : object.In D.code)
    (hstart : ∀ e ∈ start, e.In D.code) (hstop : ∀ e ∈ stop, e.In D.code) :
    Φ (Value.In D.zone) (ev.slice object start stop scope) := by
  refine hR.bind (h.expr hobject hscope) fun target htarget => ?_
  refine hR.bind (hR.holding trivial (h.optional hR hscope hstart)) fun start _ => ?_
  refine hR.bind (hR.holding trivial (h.optional hR hscope hstop)) fun stop _ => ?_
  exact hR.onHeap fun _ _ _ hz hp => Heap.stays_slice hz htarget hp

theorem callParts {callee : Expr} {args : List Expr} (hcallee : callee.In D.code)
    (hargs : ∀ e ∈ args, e.In D.code) :
    Φ (fun r => r.1.In D.zone ∧ ∀ v ∈ r.2, v.In D.zone) (ev.callParts callee args scope) := by
  refine hR.bind (h.expr hcallee hscope) fun callee hcallee => ?_
  exact hR.bind (hR.holding trivial (h.exprs hR hscope hargs)) fun args hargs =>
    hR.pure ⟨hcallee, hargs⟩

theorem entries {map : MapId} (hmap : D.zone (.map map)) {fields : List (Expr × Expr)}
    (hfields : ∀ field ∈ fields, field.1.In D.code ∧ field.2.In D.code) :
    Φ (fun _ => True) (ev.entries scope map fields) := by
  induction fields with
  | nil => exact hR.pure trivial
  | cons field rest ih =>
    obtain ⟨⟨hkey, hvalue⟩, hrest⟩ := List.forall_mem_cons.mp hfields
    refine hR.bind (h.expr hkey hscope) fun k _ => ?_
    refine hR.bind (hR.holding trivial (h.expr hvalue hscope)) fun v hv => ?_
    exact hR.after (hR.store fun _ _ _ hz hw => Heap.stays_prepareEntry hz hmap hv hw) fun _ =>
      ih hrest

omit h hscope in
theorem resolve (type : TypeExpr) : Φ (fun _ => True) (Eval.resolve type scope) :=
  hR.tryHeap fun _ _ _ _ => trivial

theorem mapLiteral (types : Option (TypeExpr × TypeExpr)) {fields : List (Expr × Expr)}
    (hfields : ∀ field ∈ fields, field.1.In D.code ∧ field.2.In D.code) :
    Φ (Value.In D.zone) (ev.mapLiteral types fields scope) := by
  have hfill (keyType valueType : Option HostType) : Φ (Value.In D.zone) (do
      let map ← Eval.readHeap (·.maps.next)
      let v ← Eval.alloc (·.addMap ⟨[], keyType, valueType⟩)
      Eval.holdingValue v (ev.entries scope map fields)
      return v) := by
    -- The number that the map will get is one of the zone already.
    refine hR.bind (P := fun map => D.zone (.map map))
      (hR.readHeap fun h hz => hz.unused (.map h.maps.next) (Nat.le_refl _)) fun map hmap => ?_
    refine hR.bind (P := Value.In D.zone)
      (hR.alloc fun h hz => ⟨hz.addMap (List.forall_mem_nil _), rfl⟩) fun v hv => ?_
    exact hR.bind (hR.holding trivial (h.entries hR hscope hmap hfields)) fun _ _ =>
      hR.pure hv
  cases types with
  | none =>
    exact hR.bind (P := fun _ => True) (hR.pure trivial) fun types _ => hfill types.1 types.2
  | some types =>
    refine hR.bind (resolve hR _) fun key _ => hR.bind (resolve hR _) fun value _ => ?_
    exact hR.bind (P := fun _ => True) (hR.pure trivial) fun types _ => hfill types.1 types.2

theorem listLiteral (elemType : Option TypeExpr) {items : List Expr}
    (hitems : ∀ e ∈ items, e.In D.code) :
    Φ (Value.In D.zone) (ev.listLiteral elemType items scope) := by
  refine hR.bind (h.exprs hR hscope hitems) fun items hitems => ?_
  cases elemType with
  | none =>
    refine hR.newList ?_
    rw [List.toList_toArray]
    exact hitems
  | some type =>
    refine hR.bind (resolve hR type) fun type _ => hR.onHeap fun h v h' hz hp => ?_
    obtain ⟨⟨ws, h₁⟩, hconv, hp⟩ := Outcome.bind_eq_ok.mp hp
    cases hp
    exact Heap.stays_typedItems hz hitems hconv

/-- An update of a name overwrites what has just been read, so the scope need not be writable. -/
theorem update {target : Expr} (op : UpdateOp) (htarget : target.In D.code)
    (hflaws : ∀ m ∈ target.flawsOfTarget, D.code.Allows m) :
    Φ (Value.In D.zone) (ev.update target op scope) := by
  refine hR.bind (h.place hR hscope htarget hflaws) fun p hp => ?_
  replace hp := hp.1
  have hnew (h : Heap) (v w : Value) (hw : h.update op v = .ok w) : w.In D.zone := Heap.update_in hw
  cases p with
  | var name => exact hR.revise hscope name fun v h w hw => hnew h v w hw
  | element container index =>
    refine hR.bind (hR.tryHeap (P := fun _ => True) fun _ _ _ _ => trivial) fun current _ => ?_
    refine hR.bind (hR.tryHeap fun h _ _ hw => hnew h current _ hw) fun updated hupdated => ?_
    exact hR.after (hR.store fun _ _ _ hz hw => Heap.stays_prepareIndex hz hp hupdated hw) fun _ =>
      hR.pure hupdated
  | field container name =>
    refine hR.bind (hR.tryHeap (P := fun _ => True) fun _ _ _ _ => trivial) fun current _ => ?_
    refine hR.bind (hR.tryHeap fun h _ _ hw => hnew h current _ hw) fun updated hupdated => ?_
    exact hR.after (hR.store fun _ _ _ hz hw => Heap.stays_prepareMember hz hp hupdated hw) fun _ =>
      hR.pure hupdated
  | member package name => exact hR.revise (hR.zone_of_writable hp) name fun v h w hw => hnew h v w hw

theorem receive {channel : Expr} (hchannel : channel.In D.code) :
    Φ (fun r => r.1.In D.zone) (ev.receive channel scope) := by
  refine hR.bind (h.channel hR hscope hchannel) fun chan hchan => ?_
  exact hR.bind (hR.signalOf h.run) fun signal hsignal => hR.recv hchan hsignal ev.rounds

omit h hscope in
theorem make {run : RunId} (hrun : D.runs run) (type : HostType) (args : List Value) :
    Φ (Value.In D.zone) (Eval.make run type args) := by
  have hzero (elem : HostType) (h : Heap) (hz : h.Encloses D.zone) :
      h.Stays D.zone (Eval.zeroOn elem h).2 ∧ ∀ v, (Eval.zeroOn elem h).1 = .ok v → v.In D.zone := by
    obtain ⟨hstays, hv⟩ := Heap.stays_zeroValue elem hz
    unfold Eval.zeroOn
    split
    · exact ⟨hstays, fun v he => by cases he; exact hv⟩
    · exact ⟨hz.stays, nofun⟩
  have hfabric (elem : HostType) (h : Heap) : (Eval.zeroOn elem h).2.fabric = h.fabric := by
    unfold Eval.zeroOn
    split
    · exact (h.grows_zeroValue elem).fabric
    · rfl
  have hplain (elem : HostType) (h : Heap) : (Eval.zeroOn elem h).1.Plain := by
    unfold Eval.zeroOn
    split <;> infer_instance
  unfold Eval.make
  split
  · rename_i elem
    refine hR.bind (hR.tryHeap (P := fun _ => True) fun _ _ _ _ => trivial) fun length _ => ?_
    refine hR.bind (hR.build hrun (Eval.zeroItem_eq elem) (fun _ => hzero elem)
      (fun _ => hfabric elem) (fun _ => hplain elem) length) fun items hitems => ?_
    exact hR.onHeap fun _ _ _ hz hp => Heap.stays_addSlice hz hitems hp
  · exact hR.onHeap fun _ _ _ hz hp => Heap.stays_make hz hp

theorem dispatchExpr {kind : ExprKind} (hnode : D.code (.expr kind)) (hparts : kind.PartsIn D.code) :
    Φ (Value.In D.zone) (ev.dispatchExpr scope kind) := by
  cases kind with
  | literal l => cases l <;> exact hR.pure (Value.in_scalar rfl)
  | ident name => exact hR.lookup hscope name
  | binary op left right => exact h.binary hR hscope op hparts.1 hparts.2
  | unary op operand =>
    refine hR.bind (h.expr hparts hscope) fun v _ => ?_
    exact hR.tryHeap fun _ _ _ hp => Heap.unary_in hp
  | ternary condition thenExpr elseExpr =>
    obtain ⟨hcondition, hthen, helse⟩ := hparts
    refine hR.bind (h.expr hcondition hscope) fun v _ => hR.bind (hR.look _) fun b _ => ?_
    exact Rules.ite (fun _ => h.expr hthen hscope) fun _ => h.expr helse hscope
  | coalesce left right =>
    refine hR.bind (h.expr hparts.1 hscope) fun v hv => hR.bind (hR.look _) fun b _ => ?_
    exact Rules.ite (fun _ => hR.pure hv) fun _ =>
      hR.holding trivial (h.expr hparts.2 hscope)
  | member object name =>
    refine hR.bind (hR.packageOf? hscope object) fun package hpackage => ?_
    cases package with
    | some package => exact hR.lookup (hR.zone_of_writable (hpackage package rfl)) name
    | none =>
      refine hR.bind (h.expr hparts hscope) fun target htarget => ?_
      exact hR.tryHeap fun _ _ hz hp => Heap.member_in hz htarget hp
  | index object index =>
    refine hR.bind (h.expr hparts.1 hscope) fun target htarget => ?_
    refine hR.bind (hR.holding trivial (h.expr hparts.2 hscope)) fun i _ => ?_
    exact hR.tryHeap fun _ _ hz hp => Heap.index_in hz htarget hp
  | slice object start stop =>
    obtain ⟨hobject, hstart, hstop⟩ := hparts
    exact h.slice hR hscope hobject hstart hstop
  | call callee args spread =>
    refine hR.bind (h.callParts hR hscope hparts.1 hparts.2) fun parts hvalues => ?_
    exact h.call spread hvalues.1 hvalues.2
  | func definition => exact hR.closure true hscope hparts
  | list elemType items => exact h.listLiteral hR hscope elemType hparts
  | map types fields => exact h.mapLiteral hR hscope types hparts
  | contains item container =>
    refine hR.bind (h.expr hparts.1 hscope) fun i _ => ?_
    refine hR.bind (hR.holding trivial (h.expr hparts.2 hscope)) fun c _ => ?_
    exact hR.bind (hR.tryHeap fun _ _ _ _ => trivial) fun _ _ => hR.pure (Value.in_scalar rfl)
  | update target op =>
    exact h.update hR hscope op hparts fun m hm => Fragment.allows_of_flaw hnode hm
  | recv channel => exact hR.bind (h.receive hR hscope hparts) fun r hr => hR.pure hr
  | make type args =>
    refine hR.bind (resolve hR type) fun type _ => ?_
    refine hR.bind (h.exprs hR hscope hparts) fun args _ => ?_
    exact hR.holding trivial (make hR h.run type args)
  | new type =>
    refine hR.bind (resolve hR type) fun type _ => ?_
    exact hR.onHeap fun _ _ _ hz hp => Heap.stays_zero hz hp

theorem evalExpr {e : Expr} (he : e.In D.code) : Φ (Value.In D.zone) (ev.evalExpr e scope) :=
  hR.bind (hR.step h.run) fun _ _ =>
    hR.located e.pos (h.dispatchExpr hR hscope he.parts.1 he.parts.2)

theorem commaOk {e : Expr} (he : e.In D.code) :
    Φ (fun r => r.1.In D.zone) (ev.commaOk e scope) := by
  have hparts := he.parts.2
  unfold Evaluator.commaOk
  split
  · rename_i hkind
    rw [hkind] at hparts
    refine hR.bind (hR.step h.run) fun _ _ => ?_
    refine hR.bind (h.expr hparts.1 hscope) fun target htarget => ?_
    refine hR.bind (hR.holding trivial (h.expr hparts.2 hscope)) fun i _ => ?_
    have hindex : Φ (fun r => r.1.In D.zone) (do
        return (← Eval.located e.pos (Eval.tryHeap (·.index target i)), (none : Option Bool))) :=
      hR.bind (hR.located _ (hR.tryHeap fun _ _ hz hp => Heap.index_in hz htarget hp))
        fun v hv => hR.pure hv
    cases target with
    | map id =>
      refine hR.bind (P := fun found => ∀ v, found = some v → v.In D.zone) (hR.located _
        (hR.tryHeap fun _ found hz hp v hv => ?_)) fun found hfound => hR.pure ?_
      · exact Heap.stored?_in hz (Value.in_map.mp htarget) (hv ▸ hp)
      · cases found with
        | none => exact Value.in_scalar rfl
        | some v => exact hfound v rfl
    | _ => exact hindex
  · rename_i hkind
    rw [hkind] at hparts
    refine hR.bind (hR.step h.run) fun _ _ => ?_
    exact hR.bind (h.receive hR hscope hparts) fun r hr => hR.pure hr
  · exact hR.bind (h.expr he hscope) fun v hv => hR.pure hv

end

end

end Evaluator.Obedient
end ScriptEngine
