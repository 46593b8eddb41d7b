import ScriptEngine.Proofs.Evaluator.Elementary

/-! # Several evaluators side by side

Some laws compare the evaluator with variants of it that evaluate every node in the same way but do
something more between two nodes; others are about the evaluator alone.  Such a law is about
**families** of computations, one for each variant.  If a property of families is
**compositional** (`Compositional`), then it is enough to know it of what a node asks for
(`Requests`) to know it of the node itself, whatever the node is; only the constructs that look at
errors, `try` and the deferred calls of a body, have to be looked at for each property on its own.
A property that does not mind who looks at errors (`Closed`) holds of every evaluation.

Host functions come from the heap, and a law may hold only as long as they are of a certain kind:
`Admits` says which host functions the law is ready for, and it must be true of those in the heap.
-/
namespace ScriptEngine

/-- A property of families of computations that holds of what evaluation does by itself, and of all
that is put together from families with the property. -/
structure Compositional {ι : Type} (Admits : HostFunction → Prop)
    (Φ : ∀ {α : Type}, (ι → Eval α) → Prop) : Prop where
  same : ∀ {α : Type} (m : Eval α) [Ingredient false m], Φ fun _ => m
  bind : ∀ {α β : Type} {m : ι → Eval α} {k : ι → α → Eval β}, Φ m → (∀ a, Φ fun i => k i a) →
    Φ fun i => m i >>= k i
  holding : ∀ {α : Type} (x : Holding) {m : ι → Eval α}, Φ m → Φ fun i => Eval.holding x (m i)
  located : ∀ {α : Type} (p : Position) {m : ι → Eval α}, Φ m → Φ fun i => Eval.located p (m i)
  /-- Whoever looks up a function finds a closure, or a host function that is admitted. -/
  callee : ∀ {α : Type} (id : FuncId) {k : ι → Function → Eval α},
    (∀ definition scope selfBound, Φ fun i => k i (.script definition scope selfBound)) →
    (∀ f, Admits f → Φ fun i => k i (.host f)) →
    Φ fun i => Eval.readHeap (·.func id) >>= k i
  give : ∀ {f : HostFunction} {results : List Blueprint}, Admits f → f.action = .give results →
    Φ fun _ => Eval.onHeap (·.buildAll results)
  throw : ∀ {f : HostFunction} {value : Blueprint}, Admits f → f.action = .throw value →
    Φ fun _ => Eval.onHeap (·.build value)

/-- Whatever is asked of these evaluators, the answers have the property. -/
structure Requests {ι : Type} (Admits : HostFunction → Prop)
    (Φ : ∀ {α : Type}, (ι → Eval α) → Prop) (run : RunId) (rounds : Nat)
    (evs : ι → Evaluator) : Prop extends Compositional Admits Φ where
  run_eq : ∀ i, (evs i).run = run
  rounds_eq : ∀ i, (evs i).rounds = rounds
  expr : ∀ e scope, Φ fun i => (evs i).expr e scope
  stmt : ∀ stmt scope frame, Φ fun i => (evs i).stmt stmt scope frame
  inner : ∀ block scope frame, Φ fun i => (evs i).inner block scope frame
  body : ∀ block scope, Φ fun i => (evs i).body block scope
  call : ∀ callee args spread, Φ fun i => (evs i).call callee args spread

namespace Compositional
variable {ι : Type} {Admits : HostFunction → Prop} {Φ : ∀ {α : Type}, (ι → Eval α) → Prop}
  {α β : Type}

theorem ite (c : Prop) [Decidable c] {m n : ι → Eval α} (hm : Φ m) (hn : Φ n) :
    Φ fun i => if c then m i else n i := by
  by_cases h : c
  · simp only [h, if_true]
    exact hm
  · simp only [h, if_false]
    exact hn

/-- What comes first does not differ. -/
theorem after (hΦ : Compositional Admits Φ) {m : Eval α} [Ingredient false m] {k : ι → α → Eval β}
    (hk : ∀ a, Φ fun i => k i a) : Φ fun i => m >>= k i :=
  hΦ.bind (hΦ.same m) hk

/-- What comes last does not differ. -/
theorem before (hΦ : Compositional Admits Φ) {m : ι → Eval α} {k : α → Eval β}
    [∀ a, Ingredient false (k a)] (hm : Φ m) : Φ fun i => m i >>= k :=
  hΦ.bind hm fun a => hΦ.same (k a)

theorem inChild (hΦ : Compositional Admits Φ) (parent : ScopeId) {m : ι → ScopeId → Eval α}
    (hm : ∀ scope, Φ fun i => m i scope) : Φ fun i => Eval.inChild parent (m i) :=
  hΦ.after fun scope => hΦ.holding _ (hm scope)

theorem inFrame (hΦ : Compositional Admits Φ) {m : ι → FrameId → Eval α}
    (hm : ∀ frame, Φ fun i => m i frame) : Φ fun i => Eval.inFrame (m i) :=
  hΦ.after fun frame => hΦ.holding _ (hm frame)

theorem place (hΦ : Compositional Admits Φ) (p : Place) {m : ι → Eval α} (hm : Φ m) :
    Φ fun i => p.holding (m i) := by
  unfold Place.holding
  induction p.holdings with
  | nil => exact hm
  | cons x xs ih => exact hΦ.holding x ih

end Compositional

/-- Without fuel there is nothing to compare. -/
theorem Compositional.outOfFuel {ι : Type} {Admits : HostFunction → Prop}
    {Φ : ∀ {α : Type}, (ι → Eval α) → Prop} (hΦ : Compositional Admits Φ) (run : RunId) :
    Requests Admits Φ run 0 fun _ => Evaluator.ofFuel run 0 where
  toCompositional := hΦ
  run_eq _ := rfl
  rounds_eq _ := rfl
  expr _ _ := hΦ.same Eval.outOfFuel
  stmt _ _ _ := hΦ.same Eval.outOfFuel
  inner _ _ _ := hΦ.same Eval.outOfFuel
  body _ _ := hΦ.same Eval.outOfFuel
  call _ _ _ := hΦ.same Eval.outOfFuel

namespace Requests
variable {ι : Type} {Admits : HostFunction → Prop} {Φ : ∀ {α : Type}, (ι → Eval α) → Prop}
  {run : RunId} {rounds : Nat} {evs : ι → Evaluator}

/-! ## Sequences -/

theorem exprs (h : Requests Admits Φ run rounds evs) (scope : ScopeId) (es : List Expr) :
    Φ fun i => (evs i).exprs scope es := by
  induction es with
  | nil => exact h.same (pure [])
  | cons e rest ih =>
    refine h.bind (h.expr e scope) fun v => ?_
    exact h.before (h.holding _ ih)

theorem blockFrom (h : Requests Admits Φ run rounds evs) (scope : ScopeId) (frame : FrameId)
    (block : Block) (last : Value) : Φ fun i => (evs i).blockFrom scope frame last block := by
  induction block generalizing last with
  | nil => exact h.same (pure (Flow.value last))
  | cons stmt rest ih =>
    refine h.bind (h.holding _ (h.stmt stmt scope frame)) fun flow => ?_
    cases flow with
    | value v => exact ih v
    | brk => exact h.same (pure Flow.brk)
    | cont => exact h.same (pure Flow.cont)
    | ret v => exact h.same (pure (Flow.ret v))

theorem block (h : Requests Admits Φ run rounds evs) (block : Block) (scope : ScopeId)
    (frame : FrameId) : Φ fun i => (evs i).block block scope frame :=
  h.blockFrom scope frame block .nil

theorem evalInner (h : Requests Admits Φ run rounds evs) (block : Block) (scope : ScopeId)
    (frame : FrameId) : Φ fun i => (evs i).evalInner block scope frame :=
  h.inChild scope fun inner => h.block block inner frame

theorem channel (h : Requests Admits Φ run rounds evs) (e : Expr) (scope : ScopeId) :
    Φ fun i => (evs i).channel e scope := by
  refine h.bind (h.expr e scope) fun v => ?_
  cases v <;> exact h.same _

/-! ## Calls -/

theorem callScript (h : Requests Admits Φ run rounds evs) (callee : Value) (definition : FuncDef)
    (around : ScopeId) (selfBound : Bool) (args : List Value) (spread : Bool) :
    Φ fun i => (evs i).callScript callee definition around selfBound args spread := by
  have hbody (fixed : List Value) (rest : Option (List Value)) (scope : ScopeId)
      {result : Flow → Eval Value} (hresult : ∀ flow, Φ fun _ => result flow) :
      Φ fun i => (do
        Evaluator.bindParams callee definition selfBound fixed rest scope
        result (← (evs i).body definition.body scope)) :=
    h.after fun _ => h.bind (h.body definition.body scope) hresult
  unfold Evaluator.callScript
  refine Compositional.ite _ (h.after fun _ => ?_) ?_
  all_goals
    refine h.after fun bound => h.after fun scope => ?_
    refine h.holding _ (hbody bound.1 bound.2 scope fun flow => ?_)
    cases flow <;> exact h.same _

theorem callEach (h : Requests Admits Φ run rounds evs) (callee : Value) (items : List Value) :
    Φ fun i => (evs i).callEach callee items := by
  induction items with
  | nil => exact h.same (pure [])
  | cons item rest ih =>
    refine h.bind (h.holding _ (h.call callee [item] false)) fun v => ?_
    exact h.before (h.holding _ ih)

theorem act (h : Requests Admits Φ run rounds evs) {f : HostFunction} (hf : Admits f)
    (args : List Value) : Φ fun i => (evs i).act args f.action := by
  cases hact : f.action with
  | call =>
    match args with
    | [] => exact h.same (pure [])
    | callee :: rest => exact h.before (h.call callee rest false)
  | callEach =>
    match args with
    | [] | [_] => exact h.same (pure [])
    | callee :: items :: rest =>
      refine h.after fun summands => ?_
      exact h.before (h.holding _ (h.callEach callee summands))
  | give results => exact h.give hf hact
  | throw value => exact h.before (h.throw hf hact)
  | _ =>
    simp only [Evaluator.act, h.run_eq]
    exact h.same _

theorem callHost (h : Requests Admits Φ run rounds evs) {f : HostFunction} (hf : Admits f)
    (args : List Value) (spread : Bool) : Φ fun i => (evs i).callHost f args spread := by
  refine h.after fun bound => h.after fun args => ?_
  exact h.before (h.act hf args)

theorem callValue (h : Requests Admits Φ run rounds evs) (callee : Value) (args : List Value)
    (spread : Bool) : Φ fun i => (evs i).callValue callee args spread := by
  unfold Evaluator.callValue
  cases callee with
  | func id =>
    refine h.holding _ (h.callee id (fun definition around selfBound => ?_) fun f hf => ?_)
    · exact h.callScript _ definition around selfBound args spread
    · exact h.callHost hf args spread
  | _ => dsimp only; exact h.same _

/-! ## Expressions -/

theorem place (h : Requests Admits Φ run rounds evs) (target : Expr) (scope : ScopeId) :
    Φ fun i => (evs i).place target scope := by
  unfold Evaluator.place
  cases target.kind with
  | index object index =>
    refine h.bind (h.expr object scope) fun container => ?_
    exact h.before (h.holding _ (h.expr index scope))
  | member object name =>
    refine h.after fun package => ?_
    cases package with
    | some package => exact h.same (pure (Place.member package name))
    | none => exact h.before (h.expr object scope)
  | _ => dsimp only; exact h.same _

theorem optional (h : Requests Admits Φ run rounds evs) (scope : ScopeId) (e : Option Expr) :
    Φ fun i => (evs i).optional scope e := by
  cases e with
  | none => exact h.same (pure none)
  | some e => exact h.before (h.expr e scope)

theorem binary (h : Requests Admits Φ run rounds evs) (op : BinaryOp) (left right : Expr)
    (scope : ScopeId) : Φ fun i => (evs i).binary op left right scope := by
  simp only [Evaluator.binary, h.run_eq]
  refine h.bind (h.expr left scope) fun l => h.after fun b => ?_
  have hright := h.holding (.value l) (h.expr right scope)
  cases op <;> cases b <;> dsimp only
  all_goals first | exact h.same _ | exact h.before hright

theorem slice (h : Requests Admits Φ run rounds evs) (object : Expr) (start stop : Option Expr)
    (scope : ScopeId) : Φ fun i => (evs i).slice object start stop scope := by
  refine h.bind (h.expr object scope) fun target => ?_
  refine h.bind (h.holding _ (h.optional scope start)) fun start => ?_
  exact h.before (h.holding _ (h.optional scope stop))

theorem callParts (h : Requests Admits Φ run rounds evs) (callee : Expr) (args : List Expr)
    (scope : ScopeId) : Φ fun i => (evs i).callParts callee args scope := by
  refine h.bind (h.expr callee scope) fun callee => ?_
  exact h.before (h.holding _ (h.exprs scope args))

theorem entries (h : Requests Admits Φ run rounds evs) (scope : ScopeId) (map : MapId)
    (fields : List (Expr × Expr)) : Φ fun i => (evs i).entries scope map fields := by
  induction fields with
  | nil => exact h.same (pure ())
  | cons field rest ih =>
    refine h.bind (h.expr field.1 scope) fun k => ?_
    refine h.bind (h.holding _ (h.expr field.2 scope)) fun v => ?_
    exact h.after fun _ => ih

theorem mapLiteral (h : Requests Admits Φ run rounds evs) (types : Option (TypeExpr × TypeExpr))
    (fields : List (Expr × Expr)) (scope : ScopeId) :
    Φ fun i => (evs i).mapLiteral types fields scope := by
  have hfill (keyType valueType : Option HostType) : Φ fun i => (do
      let map ← Eval.readHeap (·.maps.next)
      let v ← Eval.alloc (·.addMap ⟨[], keyType, valueType⟩)
      Eval.holdingValue v ((evs i).entries scope map fields)
      return v) :=
    h.after fun map => h.after fun v => h.before (h.holding _ (h.entries scope map fields))
  cases types with
  | none => exact h.after fun types => hfill types.1 types.2
  | some types => exact h.after fun _ => h.after fun _ => h.after fun types => hfill types.1 types.2

theorem listLiteral (h : Requests Admits Φ run rounds evs) (elemType : Option TypeExpr)
    (items : List Expr) (scope : ScopeId) :
    Φ fun i => (evs i).listLiteral elemType items scope := by
  refine h.bind (h.exprs scope items) fun items => ?_
  cases elemType <;> exact h.same _

theorem update (h : Requests Admits Φ run rounds evs) (target : Expr) (op : UpdateOp)
    (scope : ScopeId) : Φ fun i => (evs i).update target op scope :=
  h.before (h.place target scope)

theorem receive (h : Requests Admits Φ run rounds evs) (channel : Expr) (scope : ScopeId) :
    Φ fun i => (evs i).receive channel scope := by
  simp only [Evaluator.receive, h.run_eq, h.rounds_eq]
  exact h.before (h.channel channel scope)

theorem dispatchExpr (h : Requests Admits Φ run rounds evs) (scope : ScopeId) (kind : ExprKind) :
    Φ fun i => (evs i).dispatchExpr scope kind := by
  cases kind with
  | binary op left right => exact h.binary op left right scope
  | unary op operand => exact h.before (h.expr operand scope)
  | ternary condition thenExpr elseExpr =>
    refine h.bind (h.expr condition scope) fun v => h.after fun b => ?_
    exact Compositional.ite _ (h.expr thenExpr scope) (h.expr elseExpr scope)
  | coalesce left right =>
    refine h.bind (h.expr left scope) fun v => h.after fun b => ?_
    exact Compositional.ite _ (h.same _) (h.holding _ (h.expr right scope))
  | member object name =>
    refine h.after fun package => ?_
    cases package with
    | some package => exact h.same (Eval.lookup package name)
    | none => exact h.before (h.expr object scope)
  | index object index =>
    refine h.bind (h.expr object scope) fun target => ?_
    exact h.before (h.holding _ (h.expr index scope))
  | slice object start stop => exact h.slice object start stop scope
  | call callee args spread =>
    refine h.bind (h.callParts callee args scope) fun parts => ?_
    exact h.call parts.1 parts.2 spread
  | list elemType items => exact h.listLiteral elemType items scope
  | map types fields => exact h.mapLiteral types fields scope
  | contains item container =>
    refine h.bind (h.expr item scope) fun i => ?_
    exact h.before (h.holding _ (h.expr container scope))
  | update target op => exact h.update target op scope
  | recv channel => exact h.before (h.receive channel scope)
  | make type args =>
    simp only [Evaluator.dispatchExpr, h.run_eq]
    exact h.after fun type => h.before (h.exprs scope args)
  | literal _ | ident _ | func _ | new _ =>
    simp only [Evaluator.dispatchExpr]
    exact h.same _

theorem evalExpr (h : Requests Admits Φ run rounds evs) (e : Expr) (scope : ScopeId) :
    Φ fun i => (evs i).evalExpr e scope := by
  simp only [Evaluator.evalExpr, h.run_eq]
  exact h.after fun _ => h.located _ (h.dispatchExpr scope e.kind)

theorem commaOk (h : Requests Admits Φ run rounds evs) (e : Expr) (scope : ScopeId) :
    Φ fun i => (evs i).commaOk e scope := by
  simp only [Evaluator.commaOk, h.run_eq]
  cases e.kind with
  | index object index =>
    refine h.after fun _ => h.bind (h.expr object scope) fun target => ?_
    refine h.bind (h.holding _ (h.expr index scope)) fun i => ?_
    cases target <;> exact h.same _
  | recv channel => exact h.after fun _ => h.before (h.receive channel scope)
  | _ => exact h.before (h.expr e scope)

/-! ## Loops -/

theorem loop (h : Requests Admits Φ run rounds evs) {round : ι → Eval LoopStep} (hround : Φ round)
    (n : Nat) : Φ fun i => Eval.loop (round i) n := by
  induction n with
  | zero => exact h.same Eval.outOfFuel
  | succ n ih =>
    refine h.bind hround fun step => ?_
    cases step with
    | next => exact ih
    | exit => exact h.same (pure Flow.unit)
    | leave flow => exact h.same (pure flow)

theorem forRows (h : Requests Admits Φ run rounds evs) (pick : Value × Value → List Value)
    {round : ι → List Value → Eval LoopStep} (hround : ∀ row, Φ fun i => round i row)
    (rows : List (Value × Value)) : Φ fun i => Eval.forRows pick (round i) rows := by
  induction rows with
  | nil => exact h.same (pure Flow.unit)
  | cons row rest ih =>
    refine h.bind (h.holding _ (hround _)) fun step => ?_
    cases step with
    | next => exact ih
    | exit => exact h.same (pure Flow.unit)
    | leave flow => exact h.same (pure flow)

theorem forCount (h : Requests Admits Φ run rounds evs) {round : ι → List Value → Eval LoopStep}
    (hround : ∀ row, Φ fun i => round i row) (count k : Nat) :
    Φ fun i => Eval.forCount (round i) count k := by
  induction count generalizing k with
  | zero => exact h.same (pure Flow.unit)
  | succ count ih =>
    refine h.bind (hround _) fun step => ?_
    cases step with
    | next => exact ih _
    | exit => exact h.same (pure Flow.unit)
    | leave flow => exact h.same (pure flow)

theorem forReceived (h : Requests Admits Φ run rounds evs) (chan : ChanId) (signal : SignalId)
    (waits : Nat) {round : ι → List Value → Eval LoopStep}
    (hround : ∀ row, Φ fun i => round i row) (n : Nat) :
    Φ fun i => Eval.forReceived chan signal waits (round i) n := by
  induction n with
  | zero => exact h.same Eval.outOfFuel
  | succ n ih =>
    refine h.after fun received => ?_
    obtain ⟨v, ok⟩ := received
    cases ok with
    | false => exact h.same (pure Flow.unit)
    | true =>
      refine h.bind (hround _) fun step => ?_
      cases step with
      | next => exact ih
      | exit => exact h.same (pure Flow.unit)
      | leave flow => exact h.same (pure flow)

theorem holds (h : Requests Admits Φ run rounds evs) (condition : Option Expr) (scope : ScopeId) :
    Φ fun i => (evs i).holds condition scope := by
  cases condition with
  | none => exact h.same (pure true)
  | some e => exact h.before (h.expr e scope)

theorem conditional (h : Requests Admits Φ run rounds evs) (condition : Option Expr) (body : Block)
    (scope : ScopeId) (frame : FrameId) :
    Φ fun i => (evs i).conditional condition body scope frame := by
  simp only [Evaluator.conditional, h.run_eq]
  refine h.after fun _ => h.bind (h.holds condition scope) fun b => ?_
  exact Compositional.ite _ (h.before (h.inner body scope frame)) (h.same _)

theorem whileLoop (h : Requests Admits Φ run rounds evs) (condition : Option Expr) (body : Block)
    (scope : ScopeId) (frame : FrameId) :
    Φ fun i => (evs i).whileLoop condition body scope frame := by
  simp only [Evaluator.whileLoop, h.rounds_eq]
  exact h.loop (h.conditional condition body scope frame) rounds

theorem clauseRound (h : Requests Admits Φ run rounds evs) (condition : Option Expr)
    (post : Option Stmt) (body : Block) (scope : ScopeId) (frame : FrameId) :
    Φ fun i => (evs i).clauseRound condition post body scope frame := by
  refine h.bind (h.conditional condition body scope frame) fun step => ?_
  match step, post with
  | .next, some post => exact h.before (h.stmt post scope frame)
  | .next, none => exact h.same (pure LoopStep.next)
  | .exit, _ => exact h.same (pure LoopStep.exit)
  | .leave flow, _ => exact h.same (pure (LoopStep.leave flow))

theorem clauseLoop (h : Requests Admits Φ run rounds evs) (init : Option Stmt)
    (condition : Option Expr) (post : Option Stmt) (body : Block) (scope : ScopeId)
    (frame : FrameId) :
    Φ fun i => (evs i).clauseLoop init condition post body scope frame := by
  simp only [Evaluator.clauseLoop, h.rounds_eq]
  have hloop := h.loop (h.clauseRound condition post body scope frame) rounds
  cases init with
  | none => exact hloop
  | some init => exact h.bind (h.stmt init scope frame) fun _ => hloop

theorem forClause (h : Requests Admits Φ run rounds evs) (init : Option Stmt) (condition : Option Expr)
    (post : Option Stmt) (body : Block) (scope : ScopeId) (frame : FrameId) :
    Φ fun i => (evs i).forClause init condition post body scope frame :=
  Compositional.ite _
    (h.inChild scope fun inner => h.clauseLoop init condition post body inner frame)
    (h.clauseLoop init condition post body scope frame)

theorem iteration (h : Requests Admits Φ run rounds evs) (vars : List String) (body : Block)
    (scope : ScopeId) (frame : FrameId) (row : List Value) :
    Φ fun i => (evs i).iteration vars body scope frame row := by
  simp only [Evaluator.iteration, h.run_eq]
  refine h.after fun inner => h.holding _ (h.after fun _ => ?_)
  exact h.before (h.block body inner frame)

theorem forChannel (h : Requests Admits Φ run rounds evs) (vars : List String) (chan : ChanId)
    (body : Block) (scope : ScopeId) (frame : FrameId) :
    Φ fun i => (evs i).forChannel vars chan body scope frame := by
  simp only [Evaluator.forChannel, h.run_eq, h.rounds_eq]
  have hround (signal : SignalId) :=
    h.forReceived chan signal rounds (h.iteration vars body scope frame) rounds
  refine Compositional.ite _ (h.after fun _ => ?_) ?_
  · exact h.after fun signal => h.holding _ (hround signal)
  · exact h.after fun signal => h.holding _ (hround signal)

theorem forIn (h : Requests Admits Φ run rounds evs) (vars : List String) (iterable : Expr)
    (body : Block) (scope : ScopeId) (frame : FrameId) :
    Φ fun i => (evs i).forIn vars iterable body scope frame := by
  have hround := h.iteration vars body scope frame
  unfold Evaluator.forIn
  refine Compositional.ite _ ?_ (h.after fun _ => ?_)
  all_goals
    refine h.bind (h.expr iterable scope) fun v => ?_
    cases v with
    | list id => exact h.after fun rows => h.forRows _ hround rows
    | map id => exact h.after fun rows => h.forRows _ hround rows
    | str s => exact h.forRows _ hround _
    | int n => exact h.forCount hround _ _
    | chan chan => exact h.forChannel vars chan body scope frame
    | _ => dsimp only; exact h.same _

/-! ## Statements -/

theorem prepareCase (h : Requests Admits Φ run rounds evs) (scope : ScopeId) (op : SelectOp) :
    Φ fun i => (evs i).prepareCase scope op := by
  cases op with
  | recv channel _ _ => exact h.before (h.channel channel scope)
  | send channel value =>
    refine h.bind (h.channel channel scope) fun chan => ?_
    exact h.before (h.holding _ (h.expr value scope))

theorem prepareCases (h : Requests Admits Φ run rounds evs) (scope : ScopeId)
    (cases : List SelectCase) : Φ fun i => (evs i).prepareCases scope cases := by
  induction cases with
  | nil => exact h.same (pure [])
  | cons c rest ih =>
    refine h.bind (h.prepareCase scope c.op) fun op => ?_
    exact h.before (h.holding _ ih)

theorem takeCase (h : Requests Admits Φ run rounds evs) (c : SelectCase)
    (received : Option (Value × Bool)) (scope : ScopeId) (frame : FrameId) :
    Φ fun i => (evs i).takeCase c received scope frame := by
  refine h.after fun inner => h.holding _ (h.after fun _ => ?_)
  exact h.before (h.block c.body inner frame)

theorem select (h : Requests Admits Φ run rounds evs) (cases : List SelectCase)
    (default : Option Block) (scope : ScopeId) (frame : FrameId) :
    Φ fun i => (evs i).select cases default scope frame := by
  simp only [Evaluator.select, h.run_eq, h.rounds_eq]
  refine h.bind (h.prepareCases scope cases) fun ops => h.holding _ ?_
  refine h.after fun signal => h.after fun chosen => ?_
  match chosen, default with
  | some (index, received), _ =>
    cases hc : cases[index]? with
    | none =>
      simp only [hc]
      exact h.same _
    | some c =>
      simp only [hc]
      exact h.takeCase c received scope frame
  | none, some body => exact h.before (h.inner body scope frame)
  | none, none => exact h.same (pure Flow.unit)

theorem values (h : Requests Admits Φ run rounds evs) (exprs : List Expr) (count : Nat)
    (scope : ScopeId) : Φ fun i => (evs i).values exprs count scope := by
  unfold Evaluator.values
  refine Compositional.ite _ (h.same _) ?_
  refine Compositional.ite _ (h.exprs scope exprs) ?_
  match exprs with
  | [e] => exact h.before (h.commaOk e scope)
  | [] | _ :: _ :: _ => dsimp only; exact h.same _

theorem declare (h : Requests Admits Φ run rounds evs) (names : List String) (exprs : List Expr)
    (scope : ScopeId) : Φ fun i => (evs i).declare names exprs scope :=
  h.before (h.values exprs names.length scope)

theorem assignAll (h : Requests Admits Φ run rounds evs) (scope : ScopeId) (targets : List Expr)
    (vs : List Value) (last : Value) : Φ fun i => (evs i).assignAll scope last targets vs := by
  induction targets generalizing vs last with
  | nil => exact h.same (pure last)
  | cons target targets ih =>
    cases vs with
    | nil => exact h.same (pure last)
    | cons v vs =>
      refine h.bind (h.holding _ (h.place target scope)) fun place => ?_
      exact h.after fun _ => ih vs v

theorem assignment (h : Requests Admits Φ run rounds evs) (targets exprs : List Expr)
    (scope : ScopeId) : Φ fun i => (evs i).assignment targets exprs scope := by
  refine h.bind (h.values exprs targets.length scope) fun vs => ?_
  exact h.before (h.assignAll scope targets vs .nil)

theorem opAssign (h : Requests Admits Φ run rounds evs) (target : Expr) (op : BinaryOp) (e : Expr)
    (scope : ScopeId) : Φ fun i => (evs i).opAssign target op e scope := by
  simp only [Evaluator.opAssign, h.run_eq]
  refine h.bind (h.place target scope) fun place => h.after fun current => ?_
  exact h.before (Compositional.place h.toCompositional place (h.holding _ (h.expr e scope)))

theorem matching (h : Requests Admits Φ run rounds evs) (subject : Value) (scope : ScopeId)
    (candidates : List Expr) : Φ fun i => (evs i).matching subject scope candidates := by
  induction candidates with
  | nil => exact h.same (pure none)
  | cons e rest ih =>
    refine h.bind (h.expr e scope) fun candidate => h.after fun equal => ?_
    exact Compositional.ite _ (h.same _) ih

theorem matchingCase (h : Requests Admits Φ run rounds evs) (subject : Value) (scope : ScopeId)
    (cases : List SwitchCase) : Φ fun i => (evs i).matchingCase subject scope cases := by
  induction cases with
  | nil => exact h.same (pure none)
  | cons c rest ih =>
    obtain ⟨candidates, body⟩ := c
    refine h.bind (h.matching subject scope candidates) fun found => ?_
    cases found with
    | some candidate => exact h.same (pure (some (candidate, body)))
    | none => exact ih

theorem switch (h : Requests Admits Φ run rounds evs) (discriminant : Expr) (cases : List SwitchCase)
    (default : Option Block) (scope : ScopeId) (frame : FrameId) :
    Φ fun i => (evs i).switch discriminant cases default scope frame := by
  refine h.bind (h.expr discriminant scope) fun subject => h.holding _ ?_
  refine h.bind (h.matchingCase subject scope cases) fun found => ?_
  match found, default with
  | some (candidate, body), _ => exact h.before (h.holding _ (h.inner body scope frame))
  | none, some body => exact h.before (h.inner body scope frame)
  | none, none => exact h.same (pure (Flow.value subject))

theorem ifElse (h : Requests Admits Φ run rounds evs) (condition : Expr) (thenBlock : Block)
    (elseBlock : Option Block) (scope : ScopeId) (frame : FrameId) :
    Φ fun i => (evs i).ifElse condition thenBlock elseBlock scope frame := by
  refine h.bind (h.expr condition scope) fun v => h.after fun b => ?_
  match b, elseBlock with
  | true, _ => exact h.inner thenBlock scope frame
  | false, some body => exact h.inner body scope frame
  | false, none => exact h.same (pure Flow.unit)

/-- The last block of a `try`, after an outcome that does not differ. -/
theorem finish (h : Requests Admits Φ run rounds evs) (last : Option Block) (scope : ScopeId)
    (frame : FrameId) (outcome : Except EvalError Flow) :
    Φ fun i => (evs i).finish last scope frame outcome := by
  cases last with
  | none => exact h.same (MonadExcept.ofExcept outcome)
  | some last =>
    refine h.bind (h.holding _ (h.inner last scope frame)) fun flow => ?_
    cases flow <;> exact h.same _

theorem returned (h : Requests Admits Φ run rounds evs) (exprs : List Expr) (scope : ScopeId) :
    Φ fun i => (evs i).returned exprs scope := by
  match exprs with
  | [] => exact h.same (pure Value.nil)
  | [e] => exact h.expr e scope
  | e :: e' :: rest => exact h.before (h.exprs scope (e :: e' :: rest))

theorem declareModule (h : Requests Admits Φ run rounds evs) (name : String) (body : Block)
    (scope : ScopeId) : Φ fun i => (evs i).declareModule name body scope := by
  refine h.inChild scope fun inner => h.bind (h.body body inner) fun flow => ?_
  cases flow <;> exact h.same _

theorem preparedCall (h : Requests Admits Φ run rounds evs) (keyword : String) (e : Expr)
    (scope : ScopeId) : Φ fun i => (evs i).preparedCall keyword e scope := by
  unfold Evaluator.preparedCall
  cases e.kind with
  | call callee args spread => exact h.before (h.callParts callee args scope)
  | _ => dsimp only; exact h.same _

theorem sendValue (h : Requests Admits Φ run rounds evs) (channel value : Expr) (scope : ScopeId) :
    Φ fun i => (evs i).sendValue channel value scope := by
  simp only [Evaluator.sendValue, h.run_eq, h.rounds_eq]
  refine h.bind (h.channel channel scope) fun chan => ?_
  exact h.before (h.holding _ (h.expr value scope))

/-- All statements but `try`. -/
theorem dispatchStmt (h : Requests Admits Φ run rounds evs) (scope : ScopeId) (frame : FrameId)
    (kind : StmtKind)
    (htry : ∀ body catchVar handler last, kind = .tryCatch body catchVar handler last →
      Φ fun i => (evs i).tryCatch body catchVar handler last scope frame) :
    Φ fun i => (evs i).dispatchStmt scope frame kind := by
  cases kind with
  | expr e => exact h.before (h.expr e scope)
  | var names exprs => exact h.declare names exprs scope
  | assign targets exprs => exact h.assignment targets exprs scope
  | opAssign target op e => exact h.opAssign target op e scope
  | ifElse condition thenBlock elseBlock => exact h.ifElse condition thenBlock elseBlock scope frame
  | switch discriminant cases default => exact h.switch discriminant cases default scope frame
  | select cases default => exact h.select cases default scope frame
  | loop condition body => exact h.whileLoop condition body scope frame
  | forClause init condition post body => exact h.forClause init condition post body scope frame
  | forIn vars iterable body => exact h.forIn vars iterable body scope frame
  | ret exprs => exact h.before (h.returned exprs scope)
  | throw e => exact h.before (h.expr e scope)
  | tryCatch body catchVar handler last => exact htry body catchVar handler last rfl
  | defer e => exact h.before (h.preparedCall "defer" e scope)
  | module name body => exact h.declareModule name body scope
  | go e =>
    simp only [Evaluator.dispatchStmt, h.run_eq]
    exact h.before (h.preparedCall "go" e scope)
  | send channel value => exact h.sendValue channel value scope
  | block body => exact h.inner body scope frame
  | func _ | brk | cont =>
    simp only [Evaluator.dispatchStmt]
    exact h.same _

theorem program (h : Requests Admits Φ run rounds evs) (script : Block) (scope : ScopeId) :
    Φ fun i => (evs i).program script scope := by
  refine h.bind (h.body script scope) fun flow => ?_
  cases flow <;> exact h.same _

end Requests

/-! ## Properties that do not mind who looks at errors -/

/-- A compositional property that a computation keeps when its errors are looked at. -/
structure Closed {ι : Type} (Admits : HostFunction → Prop)
    (Φ : ∀ {α : Type}, (ι → Eval α) → Prop) : Prop extends Compositional Admits Φ where
  attempt : ∀ {α : Type} {m : ι → Eval α}, Φ m → Φ fun i => Eval.attempt (m i)

namespace Closed
variable {ι : Type} {Admits : HostFunction → Prop} {Φ : ∀ {α : Type}, (ι → Eval α) → Prop}
  {run : RunId} {rounds : Nat} {evs : ι → Evaluator}

theorem handle (hΦ : Closed Admits Φ) (h : Requests Admits Φ run rounds evs) (e : EvalError)
    (catchVar : Option String) (handler : Block) (scope : ScopeId) (frame : FrameId) :
    Φ fun i => (evs i).handle e catchVar handler scope frame := by
  refine h.after fun v => h.holding _ (h.inChild scope fun inner => ?_)
  have hblock := hΦ.attempt (h.block handler inner frame)
  cases catchVar with
  | none => exact hblock
  | some name => exact h.after fun _ => hblock

theorem handled (hΦ : Closed Admits Φ) (h : Requests Admits Φ run rounds evs) (body : Block)
    (catchVar : Option String) (handler : Option Block) (scope : ScopeId) (frame : FrameId) :
    Φ fun i => (evs i).handled body catchVar handler scope frame := by
  refine h.bind (hΦ.attempt (h.inner body scope frame)) fun first => ?_
  match first, handler with
  | .ok flow, _ => exact h.same (pure (Except.ok flow))
  | .error e, none => exact h.same (pure (Except.error e))
  | .error e, some handler =>
    exact Compositional.ite _ (hΦ.handle h e catchVar handler scope frame) (h.same _)

theorem tryCatch (hΦ : Closed Admits Φ) (h : Requests Admits Φ run rounds evs) (body : Block)
    (catchVar : Option String) (handler last : Option Block) (scope : ScopeId) (frame : FrameId) :
    Φ fun i => (evs i).tryCatch body catchVar handler last scope frame :=
  h.bind (hΦ.handled h body catchVar handler scope frame) fun outcome =>
    h.finish last scope frame outcome

theorem runCalls (hΦ : Closed Admits Φ) (h : Requests Admits Φ run rounds evs) (frame : FrameId)
    (calls : List DeferredCall) (outcome : Except EvalError Flow) :
    Φ fun i => (evs i).runCalls frame calls outcome := by
  induction calls generalizing outcome with
  | nil => exact h.same (pure outcome)
  | cons call rest ih =>
    refine h.after fun _ => h.bind (h.holding _ ?_) fun r => ih _
    exact hΦ.attempt (h.call call.callee call.args call.spread)

theorem evalBody (hΦ : Closed Admits Φ) (h : Requests Admits Φ run rounds evs) (block : Block)
    (scope : ScopeId) : Φ fun i => (evs i).evalBody block scope := by
  refine h.inFrame fun frame => ?_
  refine h.bind (hΦ.attempt (h.block block scope frame)) fun outcome => ?_
  exact h.after fun calls => h.before (hΦ.runCalls h frame calls outcome)

theorem evalStmt (hΦ : Closed Admits Φ) (h : Requests Admits Φ run rounds evs) (stmt : Stmt)
    (scope : ScopeId) (frame : FrameId) : Φ fun i => (evs i).evalStmt stmt scope frame := by
  simp only [Evaluator.evalStmt, h.run_eq]
  refine h.after fun _ => h.located _ ?_
  exact h.dispatchStmt scope frame stmt.kind fun body catchVar handler last _ =>
    hΦ.tryCatch h body catchVar handler last scope frame

/-- **Every evaluation has the property**, with any fuel. -/
theorem ofFuel (hΦ : Closed Admits Φ) (run : RunId) (fuel : Nat) :
    ∃ rounds, Requests Admits Φ run rounds fun _ : ι => Evaluator.ofFuel run fuel := by
  induction fuel with
  | zero =>
    exact ⟨0, hΦ.outOfFuel run⟩
  | succ fuel ih =>
    obtain ⟨rounds, h⟩ := ih
    exact ⟨fuel, {
      hΦ.toCompositional with
      run_eq := fun _ => rfl
      rounds_eq := fun _ => rfl
      expr := fun e scope => h.evalExpr e scope
      stmt := fun stmt scope frame => hΦ.evalStmt h stmt scope frame
      inner := fun block scope frame => h.evalInner block scope frame
      body := fun block scope => hΦ.evalBody h block scope
      call := fun callee args spread => h.callValue callee args spread }⟩

end Closed

/-! ## Nodes -/

/-- Something that is evaluated: an expression, a statement, a block in a scope of its own, a body
with its deferred calls, a call, or a whole script. -/
inductive Node : Type → Type 1 where
  | expr (e : Expr) (scope : ScopeId) : Node Value
  | stmt (stmt : Stmt) (scope : ScopeId) (frame : FrameId) : Node Flow
  | inner (block : Block) (scope : ScopeId) (frame : FrameId) : Node Flow
  | body (block : Block) (scope : ScopeId) : Node Flow
  | call (callee : Value) (args : List Value) (spread : Bool) : Node Value
  | program (script : Block) (scope : ScopeId) : Node Value

/-- Evaluates a node. -/
def Node.eval {α : Type} (ev : Evaluator) : Node α → Eval α
  | .expr e scope => ev.expr e scope
  | .stmt statement scope frame => ev.stmt statement scope frame
  | .inner block scope frame => ev.inner block scope frame
  | .body block scope => ev.body block scope
  | .call callee args spread => ev.call callee args spread
  | .program script scope => ev.program script scope

/-- On whole nodes. -/
theorem Requests.node {ι : Type} {Admits : HostFunction → Prop} {Φ : ∀ {α : Type}, (ι → Eval α) → Prop}
    {run : RunId} {rounds : Nat} {evs : ι → Evaluator} (h : Requests Admits Φ run rounds evs) {α : Type}
    (node : Node α) : Φ fun i => node.eval (evs i) := by
  cases node with
  | expr e scope => exact h.expr e scope
  | stmt stmt scope frame => exact h.stmt stmt scope frame
  | inner block scope frame => exact h.inner block scope frame
  | body block scope => exact h.body block scope
  | call callee args spread => exact h.call callee args spread
  | program script scope => exact h.program script scope

end ScriptEngine
