import ScriptEngine.Engine
import ScriptEngine.Proofs.Evaluator.Obedience
import ScriptEngine.Proofs.Scheduler.Turns
import ScriptEngine.Proofs.Task.Customs

/-! # Scripts follow the rules

With the help of an evaluator that is obedient to a property that follows the rules, loops and
statements have the property too.  So every evaluator is obedient to it, since what runs out of fuel
has it (`Rules.obedient`).  In particular all evaluation obeys a law that has entrances to scopes
(`Entrances.obedient`), and so do whole scripts (`Entrances.safe_execute`).  If the law is a habit, then
so do tasks that take turns (`Habits.discipline`).
-/
namespace ScriptEngine

/-- What the round ends with is of the zone. -/
def LoopStep.In (Z : Zone) : LoopStep → Prop
  | .leave flow => flow.In Z
  | .next | .exit => True

section
variable {Z : Zone}

theorem Flow.In.loopStep {flow : Flow} (hf : flow.In Z) : flow.loopStep.In Z := by
  cases flow with
  | ret v => exact hf
  | value v | brk | cont => trivial

theorem Flow.In.consumeBreak {flow : Flow} (hf : flow.In Z) : flow.consumeBreak.In Z := by
  cases flow with
  | brk => exact Flow.in_value (Value.in_scalar rfl)
  | value v | cont | ret v => exact hf

theorem toValue_in {e : EvalError} (he : e.In Z) (h : Heap) : (e.fault.toValue h).In Z := by
  cases hfault : e.fault with
  | thrown v => exact he v hfault
  | _ => exact Value.in_scalar rfl

end

namespace Evaluator.Obedient
variable {D : Domain} {Φ : ∀ {α : Type}, (α → Prop) → Eval α → Prop} {Opens : Eval ScopeId → Prop}
  {ev : Evaluator} {scope : ScopeId}

section
variable (h : ev.Obedient D Φ) (hR : Rules D Φ Opens)
include h hR

/-! ## Loops -/

omit h in
/-- How a loop goes on after a round. -/
theorem afterRound {next : Eval Flow} (hnext : Φ (Flow.In D.zone) next) (step : LoopStep) :
    step.In D.zone → Φ (Flow.In D.zone) (match step with
      | .next => next
      | .exit => return .unit
      | .leave flow => return flow) := by
  intro hstep
  cases step with
  | next => exact hnext
  | exit => exact hR.pure (Flow.in_value (Value.in_scalar rfl))
  | leave flow => exact hR.pure hstep

omit h in
theorem loop {round : Eval LoopStep} (hround : Φ (LoopStep.In D.zone) round) (n : Nat) :
    Φ (Flow.In D.zone) (Eval.loop round n) := by
  induction n with
  | zero => exact hR.outOfFuel
  | succ n ih => exact hR.bind hround (afterRound hR ih)

section
variable {round : List Value → Eval LoopStep}
  (hround : ∀ row, (∀ v ∈ row, v.In D.zone) → Φ (LoopStep.In D.zone) (round row))
include hround

omit h in
theorem forRows {pick : Value × Value → List Value}
    (hpick : ∀ row, ∀ v ∈ pick row, v = row.1 ∨ v = row.2)
    {rows : List (Value × Value)} (hrows : ∀ row ∈ rows, row.1.In D.zone ∧ row.2.In D.zone) :
    Φ (Flow.In D.zone) (Eval.forRows pick round rows) := by
  induction rows with
  | nil => exact hR.pure (Flow.in_value (Value.in_scalar rfl))
  | cons row rest ih =>
    obtain ⟨hrow, hrest⟩ := List.forall_mem_cons.mp hrows
    refine hR.bind (hR.holding trivial (hround _ fun v hv => ?_)) (afterRound hR (ih hrest))
    obtain rfl | rfl := hpick row v hv
    · exact hrow.1
    · exact hrow.2

omit h in
theorem forCount (count i : Nat) : Φ (Flow.In D.zone) (Eval.forCount round count i) := by
  induction count generalizing i with
  | zero => exact hR.pure (Flow.in_value (Value.in_scalar rfl))
  | succ count ih =>
    refine hR.bind (hround _ fun v hv => ?_) (afterRound hR (ih _))
    rw [List.mem_pair, or_self] at hv
    exact hv ▸ (Value.in_scalar rfl)

omit h in
theorem forReceived {chan : ChanId} (hchan : D.zone (.chan chan)) {signal : SignalId}
    (hsignal : D.signals signal) (waits n : Nat) :
    Φ (Flow.In D.zone) (Eval.forReceived chan signal waits round n) := by
  induction n with
  | zero => exact hR.outOfFuel
  | succ n ih =>
    refine hR.bind (hR.recv hchan hsignal waits) fun received hr => ?_
    obtain ⟨v, ok⟩ := received
    cases ok with
    | false => exact hR.pure (Flow.in_value (Value.in_scalar rfl))
    | true =>
      exact hR.bind (hround _ (List.forall_mem_singleton.mpr hr)) (afterRound hR ih)

end

omit h hR in
theorem numbered_in {items : List Value} (hitems : ∀ v ∈ items, v.In D.zone) :
    ∀ row ∈ numbered items, row.1.In D.zone ∧ row.2.In D.zone := by
  refine List.forall_mem_map.mpr fun p hp => ⟨Value.in_scalar rfl, hitems _ ?_⟩
  exact List.fst_mem_of_mem_zipIdx hp

section
variable (hscope : D.zone (.scope scope))
include hscope

theorem holds {condition : Option Expr} (hcondition : ∀ e ∈ condition, e.In D.code) :
    Φ (fun _ => True) (ev.holds condition scope) := by
  cases condition with
  | none => exact hR.pure trivial
  | some e => exact hR.bind (h.expr (hcondition e rfl) hscope) fun _ _ => hR.look _

section
variable {condition : Option Expr} (hcondition : ∀ e ∈ condition, e.In D.code) {body : Block}
  (hbody : Block.In D.code body) {frame : FrameId} (hframe : D.frames frame)
include hcondition hbody hframe

theorem conditional : Φ (LoopStep.In D.zone) (ev.conditional condition body scope frame) := by
  refine hR.bind (hR.checkpoint h.run) fun _ _ => ?_
  refine hR.bind (h.holds hR hscope hcondition) fun b _ => ?_
  refine Rules.ite (fun _ => ?_) fun _ => hR.pure trivial
  exact hR.bind (h.inner hbody hframe hscope) fun flow hflow => hR.pure hflow.loopStep

theorem whileLoop : Φ (Flow.In D.zone) (ev.whileLoop condition body scope frame) :=
  loop hR (h.conditional hR hscope hcondition hbody hframe) ev.rounds

variable {post : Option Stmt} (hpost : ∀ s ∈ post, s.In D.code)
include hpost

omit hscope in
theorem clauseRound (hscope : D.writable scope) :
    Φ (LoopStep.In D.zone) (ev.clauseRound condition post body scope frame) := by
  have hround := h.conditional hR (hR.zone_of_writable hscope) hcondition hbody hframe
  refine hR.bind hround fun step hstep => ?_
  match step, post, hpost with
  | .next, some post, hpost =>
    exact hR.bind (h.stmt (hpost post rfl) hframe hscope) fun _ _ => hR.pure trivial
  | .next, none, _ | .exit, _, _ | .leave _, _, _ => exact hR.pure hstep

variable {init : Option Stmt} (hinit : ∀ s ∈ init, s.In D.code)
include hinit

omit hscope in
theorem clauseLoop (hscope : D.writable scope) :
    Φ (Flow.In D.zone) (ev.clauseLoop init condition post body scope frame) := by
  have hloop := loop hR (h.clauseRound hR hcondition hbody hframe hpost hscope) ev.rounds
  cases init with
  | none => exact hloop
  | some init => exact hR.bind (h.stmt (hinit init rfl) hframe hscope) fun _ _ => hloop

/-- A loop binds names in the scope that it stands in only if its first clause declares none. -/
theorem forClause (hwrite : declares init = false → D.writable scope) :
    Φ (Flow.In D.zone) (ev.forClause init condition post body scope frame) := by
  refine Rules.ite (fun _ => hR.inChild hscope fun _ hinner => ?_) fun hnone => ?_
  · exact h.clauseLoop hR hcondition hbody hframe hpost hinit hinner
  · exact h.clauseLoop hR hcondition hbody hframe hpost hinit
      (hwrite (Bool.not_eq_true _ ▸ hnone))

end

section
variable {vars : List String} (hvars : ∀ name ∈ vars, D.code.Binds name) {body : Block}
  (hbody : Block.In D.code body) {frame : FrameId} (hframe : D.frames frame)
include hvars hbody hframe

/-- A round opens its scope while the row is held. -/
theorem iteration {row : List Value} (hrow : ∀ v ∈ row, v.In D.zone) :
    Φ (LoopStep.In D.zone) (ev.iteration vars body scope frame row) := by
  have hopen := hR.thenOpens (hR.checkpoint h.run) fun _ _ => hR.openScope hscope
  refine hR.inside (hR.holdingOpens trivial hopen) fun inner hinner => ?_
  refine hR.bind (hR.defineAll hinner (fun b hb => hvars b.1 (List.of_mem_zip hb).1)
    fun b hb => hrow b.2 (List.of_mem_zip hb).2) fun _ _ => ?_
  exact hR.bind (h.block hR hinner hbody hframe) fun flow hflow => hR.pure hflow.loopStep

theorem forChannel {chan : ChanId} (hchan : D.zone (.chan chan)) :
    Φ (Flow.In D.zone) (ev.forChannel vars chan body scope frame) := by
  have hloop {signal : SignalId} (hsignal : D.signals signal) :=
    hR.holding (x := .value (.chan chan)) trivial (forReceived hR
      (fun row hrow => h.iteration hR hscope hvars hbody hframe hrow) hchan hsignal ev.rounds ev.rounds)
  unfold Evaluator.forChannel
  refine Rules.ite (fun _ => hR.bind (hR.failWith _) fun _ (_ : True) => ?_) fun _ => ?_
  all_goals exact hR.bind (hR.signalOf h.run) fun signal hsignal => hloop hsignal

theorem forIn {iterable : Expr} (hiterable : iterable.In D.code) :
    Φ (Flow.In D.zone) (ev.forIn vars iterable body scope frame) := by
  have hround (row : List Value) (hrow : ∀ v ∈ row, v.In D.zone) :=
    h.iteration hR hscope hvars hbody hframe hrow
  have hsecond (pair : Prop) [Decidable pair] (row : Value × Value) :
      ∀ v ∈ (if pair then [row.1, row.2] else [row.2]), v = row.1 ∨ v = row.2 := by
    intro v hv
    split at hv <;> simp_all
  have hfirst (pair : Prop) [Decidable pair] (row : Value × Value) :
      ∀ v ∈ (if pair then [row.1, row.2] else [row.1]), v = row.1 ∨ v = row.2 := by
    intro v hv
    split at hv <;> simp_all
  unfold Evaluator.forIn
  refine Rules.ite (fun _ => ?_) fun _ => hR.bind (hR.failWith _) fun _ (_ : True) => ?_
  all_goals
    refine hR.bind (h.expr hiterable hscope) fun v hv => ?_
    cases v with
    | list id =>
      refine hR.bind (P := fun rows => ∀ row ∈ rows, row.1.In D.zone ∧ row.2.In D.zone)
        (hR.readHeap fun h hz => numbered_in (hz.items (Value.in_list.mp hv))) fun rows hrows => ?_
      exact forRows hR hround (hsecond _) hrows
    | map id =>
      refine hR.bind (P := fun rows => ∀ row ∈ rows, row.1.In D.zone ∧ row.2.In D.zone)
        (hR.readHeap fun h hz => List.forall_mem_map.mpr fun e he => ?_) fun rows hrows => ?_
      · exact ⟨Value.in_key, hz.entries (Value.in_map.mp hv) e he⟩
      · exact forRows hR hround (hfirst _) hrows
    | str s =>
      exact forRows hR hround (hsecond _) (numbered_in (List.forall_mem_map.mpr fun _ _ => Value.in_scalar rfl))
    | int n => exact forCount hR hround _ _
    | chan chan => exact h.forChannel hR hscope hvars hbody hframe (Value.in_chan.mp hv)
    | nil => exact hR.pure (Flow.in_value (Value.in_scalar rfl))
    | _ => exact hR.bind (hR.look _) fun _ _ => hR.failWith _

end

/-! ## Choosing between channels -/

theorem prepareCase {op : SelectOp} (hop : op.In D.code) :
    Φ (fun op => D.zone (.chan op.1) ∧ ∀ v, op.2 = some v → v.In D.zone)
      (ev.prepareCase scope op) := by
  cases op with
  | recv channel _ _ =>
    exact hR.bind (h.channel hR hscope hop) fun chan hchan => hR.pure ⟨hchan, nofun⟩
  | send channel value =>
    refine hR.bind (h.channel hR hscope hop.1) fun chan hchan => ?_
    refine hR.bind (hR.holding trivial (h.expr hop.2 hscope)) fun v hv =>
      hR.pure ⟨hchan, ?_⟩
    exact fun w hw => by cases hw; exact hv

theorem prepareCases {cases : List SelectCase} (hcases : ∀ c ∈ cases, c.In D.code) :
    Φ (OpsIn D.zone) (ev.prepareCases scope cases) := by
  induction cases with
  | nil => exact hR.pure (List.forall_mem_nil _)
  | cons c rest ih =>
    obtain ⟨hc, hrest⟩ := List.forall_mem_cons.mp hcases
    obtain ⟨op, body⟩ := c
    refine hR.bind (h.prepareCase hR hscope hc.1) fun op hop => ?_
    refine hR.bind (hR.holding trivial (ih hrest)) fun ops hops => ?_
    exact hR.pure (List.forall_mem_cons.mpr ⟨hop, hops⟩)

omit h hR hscope in
/-- A case binds the names that stand in it, to what was received and to whether it was sent. -/
theorem received_in {c : SelectCase} {received : Option (Value × Bool)}
    (hreceived : ∀ w ok, received = some (w, ok) → w.In D.zone) :
    ∀ b ∈ c.received received, b.1 ∈ c.names ∧ b.2.In D.zone := by
  obtain ⟨op, body⟩ := c
  cases received with
  | none => exact List.forall_mem_nil _
  | some r =>
    cases op with
    | send channel value => exact List.forall_mem_nil _
    | recv channel value ok =>
      refine List.forall_mem_append.mpr ⟨?_, ?_⟩
      · exact List.forall_mem_map.mpr fun name hname =>
          ⟨List.mem_append_left _ hname, hreceived r.1 r.2 rfl⟩
      · exact List.forall_mem_map.mpr fun name hname =>
          ⟨List.mem_append_right _ hname, Value.in_scalar rfl⟩

theorem takeCase {c : SelectCase} (hc : c.In D.code) (hnames : ∀ name ∈ c.names, D.code.Binds name)
    {received : Option (Value × Bool)}
    (hreceived : ∀ w ok, received = some (w, ok) → w.In D.zone)
    {frame : FrameId} (hframe : D.frames frame) :
    Φ (Flow.In D.zone) (ev.takeCase c received scope frame) := by
  have hbound := received_in (c := c) hreceived
  obtain ⟨op, body⟩ := c
  refine hR.inside (hR.holdingOpens trivial (hR.openScope hscope)) fun inner hinner => ?_
  refine hR.bind (hR.defineAll hinner (fun b hb => hnames _ (hbound b hb).1)
    fun b hb => (hbound b hb).2) fun _ _ => ?_
  exact hR.bind (h.block hR hinner hc.2 hframe) fun flow hflow => hR.pure hflow.consumeBreak

omit h hR hscope in
theorem receiverChannels_in {ops : List (ChanId × Option Value)} (hops : OpsIn D.zone ops) :
    ∀ chan ∈ receiverChannels ops, D.zone (.chan chan) := by
  refine List.forall_mem_map.mpr fun op hop => ?_
  exact (hops op (List.mem_filter.mp hop).1).1

theorem select {cases : List SelectCase} (hcases : ∀ c ∈ cases, c.In D.code)
    (hnames : ∀ c ∈ cases, ∀ name ∈ c.names, D.code.Binds name) {default : Option Block}
    (hdefault : ∀ body ∈ default, Block.In D.code body) {frame : FrameId}
    (hframe : D.frames frame) :
    Φ (Flow.In D.zone) (ev.select cases default scope frame) := by
  refine hR.bind (h.prepareCases hR hscope hcases) fun ops hops => hR.holding trivial ?_
  refine hR.bind (hR.signalOf h.run) fun signal hsignal => ?_
  have hreceivers : ∀ chan ∈ (if default.isNone then receiverChannels ops else []),
      D.zone (.chan chan) := by
    split
    · exact receiverChannels_in hops
    · exact List.forall_mem_nil _
  refine hR.bind (hR.receivingAll hreceivers (hR.awaitCase hops _ hsignal ev.rounds))
    fun chosen hchosen => ?_
  match chosen, default, hdefault with
  | some (index, received), _, _ =>
    cases hc : cases[index]? with
    | none =>
      simp only [hc]
      exact hR.pure (Flow.in_value (Value.in_scalar rfl))
    | some c =>
      simp only [hc]
      have hmem := List.mem_of_getElem? hc
      exact h.takeCase hR hscope (hcases c hmem) (hnames c hmem)
        (fun w ok hw => hchosen index w ok (by rw [hw])) hframe
  | none, some body, hdefault =>
    exact hR.bind (h.inner (hdefault body rfl) hframe hscope) fun flow hflow =>
      hR.pure hflow.consumeBreak
  | none, none, _ => exact hR.pure (Flow.in_value (Value.in_scalar rfl))

end

/-! ## Statements -/

omit h in
theorem spreadValue (count : Nat) {r : Value × Option Bool} (hr : r.1.In D.zone) :
    Φ (AllIn D.zone) (spreadValue count r) := by
  obtain ⟨v, ok⟩ := r
  unfold Evaluator.spreadValue
  dsimp only
  split
  · exact hR.pure (List.forall_mem_cons.mpr ⟨hr, List.forall_mem_singleton.mpr (Value.in_scalar rfl)⟩)
  · refine hR.bind (P := fun vs => ∀ v ∈ vs, v.In D.zone)
      (hR.readHeap fun h hz => hz.items (Value.in_list.mp hr)) fun items hitems => ?_
    exact Rules.ite (fun _ => hR.pure hitems) fun _ => hR.failWith _
  · exact hR.failWith _

section
variable (hscope : D.zone (.scope scope))
include hscope

theorem values {exprs : List Expr} (hexprs : ∀ e ∈ exprs, e.In D.code) (count : Nat) :
    Φ (AllIn D.zone) (ev.values exprs count scope) := by
  unfold Evaluator.values
  refine Rules.ite (fun _ => hR.pure fun v hv => ?_) fun _ => ?_
  · rw [List.eq_of_mem_replicate hv]
    exact Value.in_scalar rfl
  refine Rules.ite (fun _ => h.exprs hR hscope hexprs) fun _ => ?_
  match exprs, hexprs with
  | [e], hexprs =>
    have he := List.forall_mem_singleton.mp hexprs
    exact hR.bind (h.commaOk hR hscope he) fun r hr => spreadValue hR count hr
  | [], _ | _ :: _ :: _, _ => exact hR.failWith _

omit hscope in
theorem declare (hscope : D.writable scope) {names : List String}
    (hnames : ∀ name ∈ names, D.code.Binds name) {exprs : List Expr}
    (hexprs : ∀ e ∈ exprs, e.In D.code) :
    Φ (Flow.In D.zone) (ev.declare names exprs scope) := by
  refine hR.bind (h.values hR (hR.zone_of_writable hscope) hexprs names.length) fun vs hvs => ?_
  have hbound : ∀ b ∈ names.zip vs, b.2.In D.zone := fun b hb => hvs b.2 (List.of_mem_zip hb).2
  refine hR.bind (hR.defineAll hscope (fun b hb => hnames b.1 (List.of_mem_zip hb).1) hbound)
    fun _ _ => hR.pure (Flow.in_value ?_)
  cases hlast : (names.zip vs).getLast? with
  | none => exact Value.in_scalar rfl
  | some b => exact hbound b (List.mem_of_getLast? hlast)

omit hscope in
theorem assignAll (hscope : D.writable scope) {targets : List Expr}
    (htargets : ∀ e ∈ targets, e.In D.code)
    (hflaws : ∀ e ∈ targets, ∀ m ∈ e.flawsOfTarget, D.code.Allows m)
    (hnames : ∀ e ∈ targets, ∀ name ∈ e.boundName?, D.code.Binds name) {vs : List Value}
    (hvs : ∀ v ∈ vs, v.In D.zone) {last : Value} (hlast : last.In D.zone) :
    Φ (Value.In D.zone) (ev.assignAll scope last targets vs) := by
  induction targets generalizing vs last with
  | nil => exact hR.pure hlast
  | cons target targets ih =>
    cases vs with
    | nil => exact hR.pure hlast
    | cons v vs =>
      obtain ⟨htarget, htargets⟩ := List.forall_mem_cons.mp htargets
      obtain ⟨hflaw, hflaws⟩ := List.forall_mem_cons.mp hflaws
      obtain ⟨hname, hnames⟩ := List.forall_mem_cons.mp hnames
      obtain ⟨hv, hvs⟩ := List.forall_mem_cons.mp hvs
      have hplace := h.place hR (hR.zone_of_writable hscope) htarget hflaw
      refine hR.bind (hR.holding trivial hplace) fun p hp => ?_
      have hwrite := writePlace hR hscope hp.1 (fun name hn => hname name (hp.2 name hn)) hv
      exact hR.bind hwrite fun _ _ => ih htargets hflaws hnames hvs hv

omit hscope in
theorem assignment (hscope : D.writable scope) {targets exprs : List Expr}
    (hnode : D.code (.stmt (.assign targets exprs))) (htargets : ∀ e ∈ targets, e.In D.code)
    (hexprs : ∀ e ∈ exprs, e.In D.code) :
    Φ (Flow.In D.zone) (ev.assignment targets exprs scope) := by
  refine hR.bind (h.values hR (hR.zone_of_writable hscope) hexprs targets.length) fun vs hvs => ?_
  have hall := h.assignAll hR hscope htargets
    (fun e he m hm => Fragment.allows_of_flaw hnode (List.mem_flatMap.mpr ⟨e, he, hm⟩))
    (fun e he name hname => ⟨_, hnode, List.mem_filterMap.mpr ⟨e, he, hname⟩⟩) hvs
    (Value.in_scalar rfl : Value.nil.In D.zone)
  exact hR.bind hall fun v hv => hR.pure (Flow.in_value hv)

omit hscope in
theorem opAssign (hscope : D.writable scope) {target : Expr} {op : BinaryOp} {e : Expr}
    (hnode : D.code (.stmt (.opAssign target op e))) (htarget : target.In D.code)
    (he : e.In D.code) :
    Φ (Flow.In D.zone) (ev.opAssign target op e scope) := by
  have hzone := hR.zone_of_writable hscope
  have hplace := h.place hR hzone htarget fun m hm => Fragment.allows_of_flaw hnode hm
  refine hR.bind hplace fun p hp => ?_
  refine hR.bind (readPlace hR hzone hp.1) fun current hcurrent => ?_
  refine hR.bind (hR.place p (hR.holding trivial (h.expr he hzone))) fun operand hoperand => ?_
  refine hR.bind (hR.place p (combine hR h.run op hcurrent hoperand)) fun updated hupdated => ?_
  have hwrite := writePlace hR hscope hp.1
    (fun name hname => ⟨_, hnode, Option.mem_toList.mpr (hp.2 name hname)⟩) hupdated
  exact hR.bind hwrite fun _ _ => hR.pure (Flow.in_value hupdated)

theorem matching (subject : Value) {candidates : List Expr}
    (hcandidates : ∀ e ∈ candidates, e.In D.code) :
    Φ (fun _ => True) (ev.matching subject scope candidates) := by
  induction candidates with
  | nil => exact hR.pure trivial
  | cons e rest ih =>
    obtain ⟨he, hrest⟩ := List.forall_mem_cons.mp hcandidates
    refine hR.bind (h.expr he hscope) fun candidate _ => hR.bind (hR.look _) fun equal _ => ?_
    exact Rules.ite (fun _ => hR.pure trivial) fun _ => ih hrest

theorem matchingCase (subject : Value) {cases : List SwitchCase}
    (hcases : ∀ c ∈ cases, c.In D.code) :
    Φ (fun found => ∀ r ∈ found, Block.In D.code r.2) (ev.matchingCase subject scope cases) := by
  induction cases with
  | nil => exact hR.pure nofun
  | cons c rest ih =>
    obtain ⟨candidates, body⟩ := c
    obtain ⟨hc, hrest⟩ := List.forall_mem_cons.mp hcases
    refine hR.bind (h.matching hR hscope subject hc.1) fun found _ => ?_
    cases found with
    | some candidate =>
      refine hR.pure fun r hr => ?_
      cases hr
      exact hc.2
    | none => exact ih hrest

theorem switch {discriminant : Expr} (hdiscriminant : discriminant.In D.code)
    {cases : List SwitchCase} (hcases : ∀ c ∈ cases, c.In D.code) {default : Option Block}
    (hdefault : ∀ body ∈ default, Block.In D.code body)
    {frame : FrameId} (hframe : D.frames frame) :
    Φ (Flow.In D.zone) (ev.switch discriminant cases default scope frame) := by
  refine hR.bind (h.expr hdiscriminant hscope) fun subject hsubject => hR.holding trivial ?_
  refine hR.bind (h.matchingCase hR hscope subject hcases) fun found hfound => ?_
  match found, default, hfound, hdefault with
  | some (candidate, body), _, hfound, _ =>
    have hbody := h.inner (hfound _ rfl) hframe hscope
    exact hR.bind (hR.holding trivial hbody) fun flow hflow => hR.pure hflow.consumeBreak
  | none, some body, _, hdefault =>
    exact hR.bind (h.inner (hdefault body rfl) hframe hscope) fun flow hflow =>
      hR.pure hflow.consumeBreak
  | none, none, _, _ => exact hR.pure (Flow.in_value hsubject)

theorem ifElse {condition : Expr} (hcondition : condition.In D.code) {thenBlock : Block}
    (hthen : Block.In D.code thenBlock) {elseBlock : Option Block}
    (helse : ∀ body ∈ elseBlock, Block.In D.code body) {frame : FrameId} (hframe : D.frames frame) :
    Φ (Flow.In D.zone) (ev.ifElse condition thenBlock elseBlock scope frame) := by
  refine hR.bind (h.expr hcondition hscope) fun v _ => hR.bind (hR.look _) fun b _ => ?_
  match b, elseBlock, helse with
  | true, _, _ => exact h.inner hthen hframe hscope
  | false, some body, helse => exact h.inner (helse body rfl) hframe hscope
  | false, none, _ => exact hR.pure (Flow.in_value (Value.in_scalar rfl))

theorem handle {e : EvalError} (he : e.In D.zone) {catchVar : Option String}
    (hname : ∀ name ∈ catchVar, D.code.Binds name) {handler : Block}
    (hhandler : Block.In D.code handler) {frame : FrameId} (hframe : D.frames frame) :
    Φ (Ends D.zone (Flow.In D.zone)) (ev.handle e catchVar handler scope frame) := by
  refine hR.bind (P := Value.In D.zone) (hR.readHeap fun h _ => toValue_in he h) fun v hv => ?_
  refine hR.holding trivial (hR.inChild hscope fun inner hinner => ?_)
  have hblock := hR.attempt (h.block hR hinner hhandler hframe)
  cases catchVar with
  | none => exact hblock
  | some name => exact hR.bind (hR.define hinner (hname name rfl) hv) fun _ _ => hblock

theorem handled {body : Block} (hbody : Block.In D.code body) {catchVar : Option String}
    (hname : ∀ name ∈ catchVar, D.code.Binds name) {handler : Option Block}
    (hhandler : ∀ body ∈ handler, Block.In D.code body)
    {frame : FrameId} (hframe : D.frames frame) :
    Φ (Ends D.zone (Flow.In D.zone)) (ev.handled body catchVar handler scope frame) := by
  refine hR.bind (hR.attempt (h.inner hbody hframe hscope)) fun first hfirst => ?_
  match first, handler, hhandler with
  | .ok flow, _, _ | .error e, none, _ => exact hR.pure hfirst
  | .error e, some handler, hhandler =>
    exact Rules.ite (fun _ => h.handle hR hscope hfirst hname (hhandler handler rfl) hframe)
      fun _ => hR.pure hfirst

theorem finish {last : Option Block} (hlast : ∀ body ∈ last, Block.In D.code body)
    {frame : FrameId} (hframe : D.frames frame) {outcome : Except EvalError Flow}
    (ho : Ends D.zone (Flow.In D.zone) outcome) :
    Φ (Flow.In D.zone) (ev.finish last scope frame outcome) := by
  cases last with
  | none => exact hR.ofExcept ho
  | some last =>
    refine hR.bind (hR.holding trivial (h.inner (hlast last rfl) hframe hscope)) fun flow hflow => ?_
    cases flow with
    | value v => exact hR.ofExcept ho
    | brk | cont | ret v => exact hR.pure hflow

theorem tryCatch {body : Block} (hbody : Block.In D.code body) {catchVar : Option String}
    (hname : ∀ name ∈ catchVar, D.code.Binds name) {handler last : Option Block}
    (hhandler : ∀ body ∈ handler, Block.In D.code body)
    (hlast : ∀ body ∈ last, Block.In D.code body) {frame : FrameId} (hframe : D.frames frame) :
    Φ (Flow.In D.zone) (ev.tryCatch body catchVar handler last scope frame) :=
  hR.bind (h.handled hR hscope hbody hname hhandler hframe) fun _ ho =>
    h.finish hR hscope hlast hframe ho

omit h hscope in
theorem declareFunc (hscope : D.writable scope) {definition : FuncDef}
    (hdefinition : definition.In D.code) :
    Φ (Flow.In D.zone) (declareFunc definition scope) := by
  unfold Evaluator.declareFunc
  split
  · exact hR.failWith _
  · rename_i name hname
    have hself : D.code.Binds name :=
      ⟨_, hdefinition.parts.1, List.mem_append_left _ (Option.mem_toList.mpr hname)⟩
    refine hR.bind (hR.closure false (hR.zone_of_writable hscope) hdefinition) fun f hf => ?_
    exact hR.bind (hR.define hscope hself hf) fun _ _ => hR.pure (Flow.in_value hf)

theorem returned {exprs : List Expr} (hexprs : ∀ e ∈ exprs, e.In D.code) :
    Φ (Value.In D.zone) (ev.returned exprs scope) := by
  match exprs, hexprs with
  | [], _ => exact hR.pure (Value.in_scalar rfl)
  | [e], hexprs => exact h.expr (List.forall_mem_singleton.mp hexprs) hscope
  | e :: e' :: rest, hexprs =>
    refine hR.bind (h.exprs hR hscope hexprs) fun vs hvs => hR.newList ?_
    rw [List.toList_toArray]
    exact hvs

omit hscope in
theorem declareModule (hscope : D.writable scope) {name : String} {body : Block}
    (hnode : D.code (.stmt (.module name body))) (hbody : Block.In D.code body) :
    Φ (Flow.In D.zone) (ev.declareModule name body scope) := by
  refine hR.inChild (hR.zone_of_writable hscope) fun inner hinner =>
    hR.bind (h.body hbody hinner) fun flow _ => ?_
  cases flow with
  | value v =>
    refine hR.bind (hR.definePackage hscope hinner hnode) fun _ _ => ?_
    exact hR.bind (hR.capture (hR.zone_of_writable hinner) ⟨name, body, hnode⟩) fun _ _ =>
      hR.pure (Flow.in_value (Value.in_scalar rfl))
  | brk | cont | ret v => exact hR.failWith _

theorem preparedCall {keyword : String} {e : Expr} (he : e.In D.code)
    (hflaws : ∀ m ∈ e.flawsOfCall keyword, D.code.Allows m) :
    Φ (DeferredCall.In D.zone) (ev.preparedCall keyword e scope) := by
  obtain ⟨kind, pos⟩ := e
  have hparts := he.parts.2
  cases kind with
  | call callee args spread =>
    exact hR.bind (h.callParts hR hscope hparts.1 hparts.2) fun parts hvalues => hR.pure hvalues
  | _ => exact hR.misfit (hflaws (.call keyword) (List.mem_singleton_self _))

theorem sendValue {channel value : Expr} (hchannel : channel.In D.code) (hvalue : value.In D.code) :
    Φ (Flow.In D.zone) (ev.sendValue channel value scope) := by
  refine hR.bind (h.channel hR hscope hchannel) fun chan hchan => ?_
  refine hR.bind (hR.holding trivial (h.expr hvalue hscope)) fun v hv => ?_
  refine hR.bind (hR.signalOf h.run) fun signal hsignal => ?_
  exact hR.bind (hR.send hchan hsignal hv ev.rounds) fun _ _ =>
    hR.pure (Flow.in_value (Value.in_scalar rfl))

end

theorem dispatchStmt (hscope : D.writable scope) {frame : FrameId} (hframe : D.frames frame)
    {kind : StmtKind} (hnode : D.code (.stmt kind)) (hparts : kind.PartsIn D.code) :
    Φ (Flow.In D.zone) (ev.dispatchStmt scope frame kind) := by
  have hzone := hR.zone_of_writable hscope
  cases kind with
  | expr e => exact hR.bind (h.expr hparts hzone) fun v hv => hR.pure (Flow.in_value hv)
  | var names exprs => exact h.declare hR hscope (fun _ hname => ⟨_, hnode, hname⟩) hparts
  | assign targets exprs => exact h.assignment hR hscope hnode hparts.1 hparts.2
  | opAssign target op e => exact h.opAssign hR hscope hnode hparts.1 hparts.2
  | ifElse condition thenBlock elseBlock =>
    obtain ⟨hcondition, hthen, helse⟩ := hparts
    exact h.ifElse hR hzone hcondition hthen helse hframe
  | switch discriminant cases default =>
    obtain ⟨hdiscriminant, hcases, hdefault⟩ := hparts
    exact h.switch hR hzone hdiscriminant hcases hdefault hframe
  | select cases default =>
    exact h.select hR hzone hparts.1
      (fun c hc name hname => ⟨_, hnode, List.mem_flatMap.mpr ⟨c, hc, hname⟩⟩) hparts.2 hframe
  | loop condition body => exact h.whileLoop hR hzone hparts.1 hparts.2 hframe
  | forClause init condition post body =>
    obtain ⟨hinit, hcondition, hpost, hbody⟩ := hparts
    exact h.forClause hR hzone hcondition hbody hframe hpost hinit fun _ => hscope
  | forIn vars iterable body =>
    exact h.forIn hR hzone (fun _ hname => ⟨_, hnode, hname⟩) hparts.2 hframe hparts.1
  | func definition => exact declareFunc hR hscope hparts
  | ret exprs =>
    exact hR.bind (h.returned hR hzone hparts) fun v hv => hR.pure (Flow.in_ret hv)
  | brk | cont => exact hR.pure (List.forall_mem_nil _)
  | throw e =>
    refine hR.bind (h.expr hparts hzone) fun v hv => hR.throw fun w hw => ?_
    cases hw
    exact hv
  | tryCatch body catchVar handler last =>
    obtain ⟨hbody, hhandler, hlast⟩ := hparts
    exact h.tryCatch hR hzone hbody (fun _ hname => ⟨_, hnode, Option.mem_toList.mpr hname⟩)
      hhandler hlast hframe
  | defer e =>
    have hcall := h.preparedCall hR hzone hparts fun m hm =>
      Fragment.allows_of_flaw hnode hm
    refine hR.bind hcall fun call hcall => ?_
    exact hR.bind (hR.defer hframe hcall) fun _ _ =>
      hR.pure (Flow.in_value (Value.in_scalar rfl))
  | module name body => exact h.declareModule hR hscope hnode hparts
  | go e =>
    have hcall := h.preparedCall hR hzone hparts fun m hm =>
      Fragment.allows_of_flaw hnode hm
    refine hR.bind hcall fun call hcall => ?_
    exact hR.after (hR.start call.spread h.run hcall.1 hcall.2 ⟨e, hnode⟩) fun _ =>
      hR.pure (Flow.in_value (Value.in_scalar rfl))
  | send channel value => exact h.sendValue hR hzone hparts.1 hparts.2
  | block body => exact h.inner hparts hframe hzone

/-- A checkpoint, then what the statement does. -/
theorem placed (stmt : Stmt) {frame : FrameId}
    (hkind : Φ (Flow.In D.zone) (ev.dispatchStmt scope frame stmt.kind)) :
    Φ (Flow.In D.zone) (ev.evalStmt stmt scope frame) :=
  hR.bind (hR.checkpoint h.run) fun _ _ => hR.located stmt.pos hkind

section
variable (hscope : D.writable scope)
include hscope

theorem evalStmt {stmt : Stmt} (hstmt : stmt.In D.code) {frame : FrameId}
    (hframe : D.frames frame) : Φ (Flow.In D.zone) (ev.evalStmt stmt scope frame) :=
  h.placed hR stmt (h.dispatchStmt hR hscope hframe hstmt.parts.1 hstmt.parts.2)

theorem program {script : Block} (hscript : Block.In D.code script) :
    Φ (Value.In D.zone) (ev.program script scope) := by
  refine hR.bind (h.body hscript hscope) fun flow hflow => ?_
  cases flow with
  | value v | ret v => exact hR.pure (hflow v (List.mem_singleton_self v))
  | brk | cont => exact hR.failWith _

end

end

end Evaluator.Obedient

/-- **What follows the rules holds of every evaluation** of the code, with any fuel. -/
theorem Rules.obedient {D : Domain} {Φ : ∀ {α : Type}, (α → Prop) → Eval α → Prop}
    {Opens : Eval ScopeId → Prop} (hR : Rules D Φ Opens) {run : RunId} (hrun : D.runs run)
    (fuel : Nat) : (Evaluator.ofFuel run fuel).Obedient D Φ := by
  induction fuel with
  | zero =>
    exact {
      run := hrun
      expr := fun _ _ => hR.outOfFuel
      stmt := fun _ _ _ => hR.outOfFuel
      inner := fun _ _ _ => hR.outOfFuel
      body := fun _ _ => hR.outOfFuel
      call := fun _ _ _ => hR.outOfFuel }
  | succ fuel ih =>
    exact {
      run := hrun
      expr := fun he hscope => ih.evalExpr hR hscope he
      stmt := fun hstmt hframe hscope => ih.evalStmt hR hscope hstmt hframe
      inner := fun hblock hframe hscope => ih.evalInner hR hscope hblock hframe
      body := fun hblock hscope => ih.evalBody hR hblock hscope
      call := fun spread hcallee hargs => ih.callValue hR hcallee hargs spread }

/-! ## Evaluation obeys laws -/

namespace Entrances
variable {Z : Zone} {writable : ScopeId → Prop} {G : EngineState → EngineState → Prop}
  {between : ScopeId → EngineState → EngineState → Prop} {frames bodies : FrameId → Prop}
  {code : Fragment}

section
variable (hE : Entrances Z writable G between frames bodies code)
include hE

/-- **Every evaluation obeys the law**, with any fuel. -/
theorem obedient (run : RunId) (fuel : Nat) :
    (Evaluator.ofFuel run fuel).Obedient
      ⟨Z, writable, fun _ => True, fun _ => True, frames, bodies, code⟩ (fun P m => Obeys Z G P m) :=
  (hE.rulesFor fun _ _ => trivial).obedient trivial fuel

/-- **Scripts obey the law**, also if they break down. -/
theorem safe_execute (fuel : Nat) {e : Engine} (hscope : writable e.scope) (run : RunId)
    {script : Block} (hscript : Block.In code script) (k : EngineState) :
    SafeToResume id G k (e.execute fuel run script) := by
  intro s hs
  have hR : Rules ⟨Z, writable, fun _ => True, fun _ => True, frames, bodies, code⟩
      (fun P m => Obeys Z G P m) (OpensUntil Z G between) := hE.rulesFor fun _ _ => trivial
  have hprogram :=
    ((hE.obedient run fuel).program hR hscope hscript).observes (hE.stays hs)
  have hguarded := Observes.catchBreakDown hE.letGo (s.holdCount s.current)
    (hprogram.on hE.toLaw)
  refine Observes.bind hE.toLaw hguarded fun r s' hs' _ => ?_
  match r with
  | .ok (.ok v) | .ok (.error error) | .error message => exact ⟨hE.stays hs', trivial⟩

end

end Entrances

namespace Habits
variable {Z : Zone} {writable : ScopeId → Prop} {G : EngineState → EngineState → Prop}
  {enterable : ScopeId → EngineState → Prop} {frames bodies : FrameId → Prop} {code : Fragment}

section
variable (hH : Habits Z writable G enterable frames bodies code)
include hH

@[inherit_doc Entrances.obedient]
theorem obedient (run : RunId) (fuel : Nat) :
    (Evaluator.ofFuel run fuel).Obedient
      ⟨Z, writable, fun _ => True, fun _ => True, frames, bodies, code⟩ (fun P m => Obeys Z G P m) :=
  hH.entrances.obedient run fuel

/-! ## Tasks -/

/-- A task that reports how it ended. -/
theorem report {m : Eval (Option (Value × Bool))} (hm : ObeysAny Z G m) (task : TaskId)
    {s : EngineState} (hs : G s s) : ObservesOn id G (Job.report task m s.letGo) s := by
  have hgo := hH.letGo s.current hs
  refine .after hH.toLaw hgo ((hm.observes (hH.stays hgo)).bind hH.toLaw fun r s' hs' _ => ⟨?_, trivial⟩)
  exact hH.elsewhere (hH.stays hs') (EngineState.aside_of_eq rfl rfl rfl rfl rfl (.inl rfl) rfl rfl
    (List.prefix_append _ _) rfl rfl (List.suffix_refl _) rfl rfl)

/-- What a job does obeys the law. -/
theorem safe_program {job : Job} (hjob : job.In Z) (fuel : Nat) (task : TaskId) {s : EngineState}
    (hs : G s s) : ObservesOn id G (job.program fuel task s) s := by
  have hR := hH.rules
  cases job with
  | call run callee args spread =>
    have hgo := hH.letGo s.current hs
    obtain ⟨hcallee, hargs⟩ := List.forall_mem_cons.mp hjob
    have hcall := (hH.obedient run fuel).call spread hcallee hargs
    refine .after hH.toLaw hgo ((hcall.observes (hH.stays hgo)).bind hH.toLaw fun r s' hs' _ => ?_)
    exact ⟨hH.stays hs', trivial⟩
  | send chan v signal =>
    obtain ⟨hchan, hrest⟩ := List.forall_mem_cons.mp hjob
    have hv := List.forall_mem_singleton.mp hrest
    have hsend : ObeysAny Z G (Eval.send fuel chan v signal) :=
      hR.send (Value.in_chan.mp hchan) trivial hv fuel
    exact hH.report (hR.after hsend fun _ => hR.pure trivial) task hs
  | recv chan signal =>
    have hchan := Value.in_chan.mp (List.forall_mem_singleton.mp hjob)
    have hrecv : Obeys Z G (fun r => r.1.In Z) (Eval.recv fuel chan signal) :=
      hR.recv hchan trivial fuel
    exact hH.report (hR.after hrecv fun _ => hR.pure trivial) task hs

/-- **Tasks that take turns obey the law.** -/
theorem discipline : Discipline id G where
  toLaw := hH.toLaw
  current := hH.turn
  notices hs := hH.elsewhere hs (EngineState.aside_of_eq rfl rfl rfl rfl rfl (.inr rfl) rfl rfl
    (List.prefix_refl _) rfl rfl (List.suffix_refl _) rfl rfl)
  now _ hs := hH.elsewhere hs (EngineState.aside_of_eq rfl rfl rfl rfl rfl (.inl rfl) rfl rfl
    (List.prefix_refl _) rfl rfl (List.suffix_refl _) rfl rfl)
  letGo task hs := hH.letGo task hs
  program fuel task job hs hnotice _ hs' :=
    hH.safe_program (hH.started hs task job hnotice) fuel task (hH.stays hs')

@[inherit_doc Entrances.safe_execute]
theorem safe_execute (fuel : Nat) {e : Engine} (hscope : writable e.scope) (run : RunId)
    {script : Block} (hscript : Block.In code script) (k : EngineState) :
    SafeToResume id G k (e.execute fuel run script) :=
  hH.entrances.safe_execute fuel hscope run hscript k

end

end Habits
end ScriptEngine
