import ScriptEngine.Proofs.AllowList.Expressions

/-! # Loops and choices do not see more than they may

With the help of an evaluator that is knowing, so are loops, iterations and choices between channels.  What
is bound where a body begins is settled there: the variables of an iteration since there is a value for
each in every row, the names of a case since a case that receives is taken with what it received.
-/
namespace ScriptEngine

/-- The operation receives. -/
def SelectOp.receives : SelectOp → Bool
  | .recv _ _ _ => true
  | .send _ _ => false

namespace AllowList

variable {α β : Type} {A : AllowList} {k p q : Versions} {scope : ScopeId} {st : FreeNames.State}

/-! ## Names that are bound together -/

theorem mem_zip_of_length_le {names : List String} {vs : List Value} {n : String}
    (hlength : names.length ≤ vs.length) (hn : n ∈ names) : ∃ v, (n, v) ∈ names.zip vs := by
  rw [← List.map_fst_zip hlength] at hn
  obtain ⟨⟨_, v⟩, hmem, rfl⟩ := List.mem_map.mp hn
  exact ⟨v, hmem⟩

namespace Indifferent

theorem outOfFuel {P : Versions → α → Prop} : A.Indifferent k P (Eval.outOfFuel : Eval α) :=
  ⟨fun hp => .stop hp.valid.refl⟩

theorem defineZip (hscope : scope < k.next) {names : List String} {vs : List Value}
    (hlength : names.length ≤ vs.length) :
    A.Indifferent k (fun p _ => ∀ n ∈ names, A.Settled p n scope)
      (Eval.defineAll scope (names.zip vs)) := by
  refine (defineAll hscope _).weaken fun p _ _ hall n hn => ?_
  obtain ⟨v, hv⟩ := mem_zip_of_length_le hlength hn
  exact hall _ hv

/-! ## Loops -/

/-- How a loop goes on after a round. -/
theorem afterRound {next : Eval Flow} (hnext : A.Steady k next) (step : LoopStep) :
    A.Steady k (match step with
      | .next => next
      | .exit => return .unit
      | .leave flow => return flow) := by
  cases step with
  | next => exact hnext
  | exit | leave flow => exact .pure fun _ _ => trivial

theorem loop {round : Eval LoopStep} (hround : A.Steady k round) (n : Nat) :
    A.Steady k (Eval.loop round n) := by
  induction n with
  | zero => exact .outOfFuel
  | succ n ih => exact hround.bind fun step p hp _ => afterRound (ih.later hp) step

section
variable {width : Nat} {round : List Value → Eval LoopStep}
  (hround : ∀ row, width ≤ row.length → A.Steady k (round row))
include hround

theorem forRows {pick : Value × Value → List Value} (hpick : ∀ row, width ≤ (pick row).length)
    (rows : List (Value × Value)) : A.Steady k (Eval.forRows pick round rows) := by
  induction rows with
  | nil => exact .pure fun _ _ => trivial
  | cons row rest ih =>
    exact ((hround _ (hpick row)).holding (.rows rest)).bind fun step p hp _ =>
      afterRound (ih.later hp) step

theorem forCount (hwidth : width ≤ 2) (count i : Nat) : A.Steady k (Eval.forCount round count i) := by
  induction count generalizing i with
  | zero => exact .pure fun _ _ => trivial
  | succ count ih => exact (hround [_, _] hwidth).bind fun step p hp _ => afterRound ((ih _).later hp) step

theorem forReceived (hwidth : width ≤ 1) (chan : ChanId) (signal : SignalId) (waits n : Nat) :
    A.Steady k (Eval.forReceived chan signal waits round n) := by
  induction n with
  | zero => exact .outOfFuel
  | succ n ih =>
    refine .after fun received p hp => ?_
    obtain ⟨v, ok⟩ := received
    cases ok with
    | false => exact .pure fun _ _ => trivial
    | true =>
      exact ((hround [v] hwidth).later hp).bind fun step q hq _ =>
        afterRound (ih.later (hp.trans hq)) step

end

end Indifferent

namespace Knowing
variable {ev : Evaluator} (h : A.Knowing ev)
include h

theorem holds {condition : Option Expr} (hcondition : ∀ e ∈ condition, e.In A.covers)
    (hs : A.Ready k scope st) (hfound : A.Finds (FreeNames.optionExpr condition st)) :
    A.Steady k (ev.holds condition scope) := by
  cases condition with
  | none => exact .pure fun _ _ => trivial
  | some e => exact (h.expr (hcondition e rfl) hs hfound).before

theorem conditional (frame : FrameId) {condition : Option Expr} {body : Block}
    (hcondition : ∀ e ∈ condition, e.In A.covers) (hs : A.Ready k scope st)
    (hfound : A.Finds (FreeNames.optionExpr condition st)) (hbody : A.BlockKnown k scope [] body) :
    A.Steady k (ev.conditional condition body scope frame) := by
  refine .after fun _ p hp => (h.holds hcondition (hs.later hp) hfound).bind fun b q hq _ => ?_
  have hround := h.inner frame (hbody.later (hp.trans hq))
  exact .ite (fun _ => hround.before) fun _ => .pure fun _ _ => trivial

theorem whileLoop (frame : FrameId) {condition : Option Expr} {body : Block}
    (hcondition : ∀ e ∈ condition, e.In A.covers) (hbody : Block.In A.covers body)
    (hs : A.Ready k scope st) (hfound : A.Finds
      ((FreeNames.optionExpr condition st).within [] body (FreeNames.stmts body))) :
    A.Steady k (ev.whileLoop condition body scope frame) := by
  have hbefore := (FreeNames.State.notes_within (FreeNames.leads_stmts body) _ _ _).finds hfound
  have hknown : A.BlockKnown k scope [] body :=
    ⟨hbody, _, hs.notes (FreeNames.notes_optionExpr condition st), hfound⟩
  exact .loop (h.conditional frame hcondition hs hbefore hknown) ev.rounds

/-- A round of a loop with clauses.  Its body knows what the last clause binds, since that is allowed. -/
theorem clauseRound (frame : FrameId) {condition : Option Expr} {post : Option Stmt} {body : Block}
    (hcondition : ∀ e ∈ condition, e.In A.covers) (hpost : ∀ x ∈ post, x.In A.covers)
    (hs : A.Ready k scope st)
    (hfound : A.Finds (FreeNames.optionStmt post (FreeNames.optionExpr condition st)))
    (hbody : A.BlockKnown k scope [] body) :
    A.Steady k (ev.clauseRound condition post body scope frame) := by
  have hbefore := (FreeNames.leads_optionStmt post _).finds hfound
  have hnotes := FreeNames.notes_optionExpr condition st
  refine (h.conditional frame hcondition hs hbefore hbody).bind fun step p hp _ => ?_
  cases step with
  | next =>
    cases post with
    | none => exact .pure fun _ _ => trivial
    | some post => exact (h.stmt frame (hpost post rfl) (hs.next hp hnotes) hfound).before
  | exit | leave flow => exact .pure fun _ _ => trivial

theorem clauseLoop (frame : FrameId) {init post : Option Stmt} {condition : Option Expr} {body : Block}
    (hinit : ∀ x ∈ init, x.In A.covers) (hcondition : ∀ e ∈ condition, e.In A.covers)
    (hpost : ∀ x ∈ post, x.In A.covers) (hbody : Block.In A.covers body)
    (hlast : ∀ x ∈ post, ∀ n ∈ x.kind.bound, A.allows n) (hs : A.Ready k scope st)
    (hfound : A.Finds ((FreeNames.optionStmt post (FreeNames.optionExpr condition
      (FreeNames.optionStmt init st))).within [] body (FreeNames.stmts body))) :
    A.Steady k (ev.clauseLoop init condition post body scope frame) := by
  have hround : A.Finds (FreeNames.optionStmt post (FreeNames.optionExpr condition
      (FreeNames.optionStmt init st))) :=
    (FreeNames.State.notes_within (FreeNames.leads_stmts body) _ _ _).finds hfound
  have hloop {k : Versions} (hs : A.Ready k scope (FreeNames.optionStmt init st)) :
      A.Steady k (Eval.loop (ev.clauseRound condition post body scope frame) ev.rounds) := by
    have hbody : A.BlockKnown k scope [] body := by
      refine ⟨hbody, _, ?_, hfound⟩
      refine (hs.notes (FreeNames.notes_optionExpr condition _)).leads
        (FreeNames.leads_optionStmt post _) fun n hn => ?_
      obtain ⟨x, hx, hn⟩ := hn
      exact .inl (hlast x hx n hn)
    exact .loop (h.clauseRound frame hcondition hpost hs hround hbody) ev.rounds
  cases init with
  | none => exact hloop hs
  | some init =>
    have hbefore := (FreeNames.notes_optionExpr condition _).finds
      ((FreeNames.leads_optionStmt post _).finds hround)
    refine (h.stmt frame (hinit init rfl) hs hbefore).bind fun _ p hp hn => hloop ?_
    exact (hs.later hp).leads (FreeNames.leads_stmt init st) fun n hmem => .inr (hn n hmem)

theorem forClause (frame : FrameId) {init post : Option Stmt} {condition : Option Expr} {body : Block}
    (hnode : A.covers (.stmt (.forClause init condition post body)))
    (hparts : (StmtKind.forClause init condition post body).PartsIn A.covers) (hs : A.Ready k scope st)
    (hfound : A.Finds (FreeNames.kindNames (.forClause init condition post body) st)) :
    A.Steady k (ev.forClause init condition post body scope frame) := by
  obtain ⟨hinit, hcondition, hpost, hbody⟩ := hparts
  have hlast : ∀ x ∈ post, ∀ n ∈ x.kind.bound, A.allows n := by
    rintro x rfl
    exact hnode
  have hs : A.Ready k scope (st.enter []) := ⟨hs.lt_next, fun hn =>
    hs.bound ((FreeNames.State.isBound_enter.mp hn).resolve_left (List.not_mem_nil))⟩
  refine .ite (fun _ => .inChild hs.lt_next fun inner p hp hinside => ?_) fun _ => ?_
  · exact h.clauseLoop frame hinit hcondition hpost hbody hlast (hs.inside hinside) hfound
  · exact h.clauseLoop frame hinit hcondition hpost hbody hlast hs hfound

/-! ## Iterations -/

/-- A round of an iteration, for a row in which there is a value for each variable. -/
theorem iteration (frame : FrameId) {vars : List String} {body : Block}
    (hbody : A.BlockKnown k scope vars body) (row : List Value) (hrow : vars.length ≤ row.length) :
    A.Steady k (ev.iteration vars body scope frame row) := by
  obtain ⟨-, st, hs, -⟩ := id hbody
  have hopen : A.Indifferent k (fun p inner => A.Inside k p scope inner) (do
      Eval.checkpoint ev.run
      Eval.openScope scope) :=
    .after fun _ p hp => (Indifferent.openScope (hs.later hp).lt_next).weaken
      fun q inner _ hinside => hinside.since hp hs.lt_next
  refine (hopen.keeping _ fun p q inner _ hq hinside => hinside.later hq).bind
    fun inner p hp hinside => .holding _ ?_
  refine (Indifferent.defineZip hinside.lt_next hrow).bind fun _ q hq hnames => ?_
  exact (h.within frame hbody (hinside.later hq) hnames).before

theorem forChannel (frame : FrameId) {vars : List String} {body : Block}
    (hbody : A.BlockKnown k scope vars body) (chan : ChanId) :
    A.Steady k (ev.forChannel vars chan body scope frame) := by
  unfold Evaluator.forChannel
  refine .ite (fun _ => (Indifferent.failWith (P := fun _ _ => False) _).bind fun _ _ _ hf => hf.elim)
    fun hvars => .after fun signal p hp => .holding _ ?_
  exact .forReceived (fun row hrow => h.iteration frame (hbody.later hp) row hrow)
    (Nat.le_of_eq (Decidable.not_not.mp hvars)) chan signal _ _

theorem forIn (frame : FrameId) {vars : List String} {iterable : Expr} {body : Block}
    (hiterable : iterable.In A.covers) (hbody : Block.In A.covers body) (hs : A.Ready k scope st)
    (hfound : A.Finds ((FreeNames.expr iterable st).within vars body (FreeNames.stmts body))) :
    A.Steady k (ev.forIn vars iterable body scope frame) := by
  have hbefore := (FreeNames.State.notes_within (FreeNames.leads_stmts body) _ _ _).finds hfound
  unfold Evaluator.forIn
  refine .ite (fun hvars => ?_) fun _ =>
    (Indifferent.failWith (P := fun _ _ => False) _).bind fun _ _ _ hf => hf.elim
  have hwidth : vars.length ≤ 2 := by
    simp only [Bool.or_eq_true, decide_eq_true_eq] at hvars
    omega
  refine (h.expr hiterable hs hbefore).bind fun v p hp _ => ?_
  have hknown : A.BlockKnown p scope vars body :=
    ⟨hbody, _, hs.next hp (FreeNames.notes_expr iterable st), hfound⟩
  have hrows (pick : Value × Value → List Value) (hpick : ∀ row, vars.length ≤ (pick row).length)
      {k : Versions} (hk : A.Later p k) (rows : List (Value × Value)) :
      A.Steady k (Eval.forRows pick (ev.iteration vars body scope frame) rows) :=
    .forRows (h.iteration frame (hknown.later hk)) hpick rows
  have hpair (row : Value × Value) (one : Value) :
      vars.length ≤ (if vars.length = 2 then [row.1, row.2] else [one]).length := by
    simp only [Bool.or_eq_true, decide_eq_true_eq] at hvars
    split
    · exact hwidth
    · exact Nat.le_of_eq (hvars.resolve_right ‹_›)
  have hread {f : Heap → List (Value × Value)} (hf : ∀ g h, f (Heap.onScopes g h) = f h)
      {pick : Value × Value → List Value} (hpick : ∀ row, vars.length ≤ (pick row).length) :
      A.Steady p (Eval.readHeap f >>= fun rows =>
        Eval.forRows pick (ev.iteration vars body scope frame) rows) := by
    have hrow : A.Neutral (Eval.readHeap f) := neutral_read fun g s => hf g s.heap
    exact .after fun rows q hq => hrows pick hpick hq rows
  cases v with
  | list id => exact hread (fun _ _ => rfl) fun row => hpair row row.2
  | map id => exact hread (fun _ _ => rfl) fun row => hpair row row.1
  | str s => exact hrows _ (fun row => hpair row row.2) hp.valid.refl _
  | int n => exact .forCount (h.iteration frame hknown) hwidth _ _
  | chan chan => exact h.forChannel frame hknown chan
  | nil => exact .pure fun _ _ => trivial
  | _ => exact Neutral.indifferent p

end Knowing

/-! ## Choosing between channels -/

/-- What is known of a choice among operations, of which some receive: it comes with something received
if it is one of those. -/
def Chosen (receiving : List Bool) (index : Nat) (chosen : Option (Nat × Option (Value × Bool))) :
    Prop :=
  ∀ i r, chosen = some (i, r) → ∃ j, i = index + j ∧ receiving[j]? = some r.isSome

namespace Indifferent

theorem tryCases (ops : List (ChanId × Option Value)) (index : Nat) :
    A.Indifferent k (fun _ => Chosen (ops.map (·.2.isNone)) index) (Eval.tryCases ops index) := by
  induction ops generalizing k index with
  | nil => exact .pure fun _ _ => nofun
  | cons op rest ih =>
    obtain ⟨chan, outgoing⟩ := op
    have hfirst (r : Option (Value × Bool)) (hr : outgoing.isNone = r.isSome) :
        Chosen (((chan, outgoing) :: rest).map (·.2.isNone)) index (some (index, r)) := by
      intro i r' h
      cases h
      exact ⟨0, rfl, congrArg some hr⟩
    have hrest {k : Versions} : A.Indifferent k
        (fun _ => Chosen (((chan, outgoing) :: rest).map (·.2.isNone)) index)
        (Eval.tryCases rest (index + 1)) := by
      refine (ih (index + 1)).weaken fun _ _ _ hchosen i r hr => ?_
      obtain ⟨j, rfl, hj⟩ := hchosen i r hr
      exact ⟨j + 1, by omega, hj⟩
    cases outgoing with
    | some v => exact .after fun sent p _ => .ite (fun _ => .pure fun _ _ => hfirst none rfl) fun _ => hrest
    | none =>
      refine .after fun received p _ => ?_
      cases received with
      | some received => exact .pure fun _ _ => hfirst (some received) rfl
      | none => exact hrest

theorem awaitCase (ops : List (ChanId × Option Value)) (canSkip : Bool) (signal : SignalId)
    (rounds : Nat) : A.Indifferent k (fun _ => Chosen (ops.map (·.2.isNone)) 0)
      (Eval.awaitCase ops canSkip signal rounds) := by
  induction rounds generalizing k with
  | zero => exact .outOfFuel
  | succ rounds ih =>
    refine .after fun _ p _ => (tryCases ops 0).bind fun chosen q _ hchosen => ?_
    cases chosen with
    | some chosen => exact .pure fun _ _ => hchosen
    | none => exact .ite (fun _ => .pure fun _ _ => nofun) fun _ => .after fun _ r _ => ih

theorem receivingAll (chans : List ChanId) {m : Eval α} {P : α → Prop}
    (hm : ∀ k, A.Indifferent k (fun _ => P) m) :
    A.Indifferent k (fun _ => P) (Eval.receivingAll chans m) := by
  induction chans generalizing k with
  | nil => exact hm k
  | cons chan rest ih => exact .after fun _ p _ => ih.holding _

end Indifferent

namespace Knowing
variable {ev : Evaluator} (h : A.Knowing ev)
include h

theorem prepareCase {c : SelectCase} {rest : List SelectCase} (hc : c.In A.covers)
    (hs : A.Ready k scope st) (hfound : A.Finds (FreeNames.selectCases (c :: rest) st)) :
    A.Indifferent k (fun _ op => op.2.isNone = c.op.receives) (ev.prepareCase scope c.op) := by
  obtain ⟨op, body⟩ := c
  have hbody (names : List String) (st : FreeNames.State)
      (hfound : A.Finds (FreeNames.selectCases rest (st.within names body (FreeNames.stmts body)))) :
      A.Finds st :=
    (FreeNames.State.notes_within (FreeNames.leads_stmts body) st names body).finds
      ((FreeNames.notes_selectCases rest _).finds hfound)
  cases op with
  | recv channel value ok =>
    have hchannel := hbody _ (FreeNames.expr channel st) hfound
    exact (h.channel hc.1 hs hchannel).bind fun chan p _ _ => .pure fun _ _ => rfl
  | send channel value =>
    have hvalue := hbody _ (FreeNames.expr value (FreeNames.expr channel st)) hfound
    have hchannel := h.channel hc.1.1 hs ((FreeNames.notes_expr value _).finds hvalue)
    refine hchannel.bind fun chan p hp _ => ?_
    have hv := h.expr hc.1.2 (hs.next hp (FreeNames.notes_expr channel st)) hvalue
    exact (hv.holding _).bind fun v q _ _ => .pure fun _ _ => rfl

omit h in
/-- How the walk goes on after a case. -/
theorem notes_case (c : SelectCase) (st : FreeNames.State) :
    ∃ st' st'', st.Notes st' ∧ st'.Notes st'' ∧
      st'' = st'.within c.names c.body (FreeNames.stmts c.body) ∧
      ∀ rest, FreeNames.selectCases (c :: rest) st = FreeNames.selectCases rest st'' := by
  obtain ⟨op, body⟩ := c
  have hbody (names : List String) (st : FreeNames.State) :=
    FreeNames.State.notes_within (FreeNames.leads_stmts body) st names body
  cases op with
  | recv channel value ok =>
    exact ⟨_, _, FreeNames.notes_expr channel st, hbody _ _, rfl, fun _ => rfl⟩
  | send channel value =>
    exact ⟨_, _, (FreeNames.notes_expr channel st).trans (FreeNames.notes_expr value _), hbody _ _, rfl,
      fun _ => rfl⟩

theorem prepareCases {cases : List SelectCase} (hcases : ∀ c ∈ cases, c.In A.covers)
    (hs : A.Ready k scope st) (hfound : A.Finds (FreeNames.selectCases cases st)) :
    A.Indifferent k (fun _ ops => ops.map (·.2.isNone) = cases.map (·.op.receives))
      (ev.prepareCases scope cases) := by
  induction cases generalizing k st with
  | nil => exact .pure fun _ _ => rfl
  | cons c rest ih =>
    obtain ⟨hc, hrest⟩ := List.forall_mem_cons.mp hcases
    obtain ⟨st', st'', hnotes, hnotes', -, hnext⟩ := notes_case c st
    refine (h.prepareCase hc hs hfound).bind fun op p hp hop => ?_
    have hs := hs.next hp (hnotes.trans hnotes')
    refine ((ih hrest hs (hnext rest ▸ hfound)).holding _).bind fun ops q _ hops => ?_
    exact .pure fun _ _ => congrArg₂ List.cons hop hops

omit h in
/-- The bodies of the cases are known. -/
theorem casesKnown {cases : List SelectCase} (hcases : ∀ c ∈ cases, c.In A.covers)
    (hs : A.Ready k scope st) (hfound : A.Finds (FreeNames.selectCases cases st)) :
    ∀ c ∈ cases, A.BlockKnown k scope c.names c.body := by
  induction cases generalizing st with
  | nil => exact List.forall_mem_nil _
  | cons c rest ih =>
    obtain ⟨hc, hrest⟩ := List.forall_mem_cons.mp hcases
    obtain ⟨st', st'', hnotes, hnotes', hwithin, hnext⟩ := notes_case c st
    rw [hnext rest] at hfound
    refine List.forall_mem_cons.mpr ⟨⟨?_, st', hs.notes hnotes, ?_⟩,
      ih hrest (hs.notes (hnotes.trans hnotes')) hfound⟩
    · obtain ⟨op, body⟩ := c
      exact hc.2
    · exact hwithin ▸ (FreeNames.notes_selectCases rest _).finds hfound

theorem takeCase (frame : FrameId) {c : SelectCase} {received : Option (Value × Bool)}
    (hbody : A.BlockKnown k scope c.names c.body) (hreceived : c.op.receives = received.isSome) :
    A.Steady k (ev.takeCase c received scope frame) := by
  obtain ⟨-, st, hs, -⟩ := id hbody
  have hnames : ∀ n ∈ c.names, ∃ v, (n, v) ∈ c.received received := by
    obtain ⟨op, body⟩ := c
    intro n hn
    cases op with
    | send channel value => cases hn
    | recv channel value ok =>
      obtain ⟨⟨v, present⟩, rfl⟩ := Option.isSome_iff_exists.mp hreceived.symm
      obtain hn | hn := List.mem_append.mp hn
      · exact ⟨v, List.mem_append_left _ (List.mem_map.mpr ⟨n, hn, rfl⟩)⟩
      · exact ⟨.bool present, List.mem_append_right _ (List.mem_map.mpr ⟨n, hn, rfl⟩)⟩
  refine ((Indifferent.openScope hs.lt_next).keeping _ fun p q inner _ hq hinside =>
    hinside.later hq).bind fun inner p hp hinside => .holding _ ?_
  refine (Indifferent.defineAll hinside.lt_next _).bind fun _ q hq hbound => ?_
  refine (h.within frame hbody (hinside.later hq) fun n hn => ?_).before
  obtain ⟨v, hv⟩ := hnames n hn
  exact hbound _ hv

omit h in
/-- The block of a default, or a last one. -/
theorem optionKnown {body : Option Block} (hbody : ∀ x ∈ body, Block.In A.covers x)
    (hs : A.Ready k scope st) (hfound : A.Finds (FreeNames.optionBlock body st)) :
    ∀ x ∈ body, A.BlockKnown k scope [] x := by
  rintro x rfl
  exact ⟨hbody x rfl, st, hs, hfound⟩

theorem select (frame : FrameId) {cases : List SelectCase} {default : Option Block}
    (hcases : ∀ c ∈ cases, c.In A.covers) (hdefault : ∀ x ∈ default, Block.In A.covers x)
    (hs : A.Ready k scope st)
    (hfound : A.Finds (FreeNames.optionBlock default (FreeNames.selectCases cases st))) :
    A.Steady k (ev.select cases default scope frame) := by
  have hbefore := (FreeNames.notes_optionBlock default _).finds hfound
  refine (h.prepareCases hcases hs hbefore).bind fun ops p hp hops => .holding _ ?_
  refine .after fun signal q hq => ?_
  refine (Indifferent.receivingAll _ fun _ => .awaitCase ops _ signal ev.rounds).bind
    fun chosen r hr hchosen => ?_
  have hlater := hp.trans (hq.trans hr)
  match chosen, default, hdefault, hfound with
  | some (index, received), _, _, _ =>
    cases hc : cases[index]? with
    | none =>
      simp only [hc]
      exact .pure fun _ _ => trivial
    | some c =>
      simp only [hc]
      refine h.takeCase frame ((casesKnown hcases hs hbefore c (List.mem_of_getElem? hc)).later
        hlater) ?_
      obtain ⟨j, hj, hreceived⟩ := hchosen index received rfl
      rw [hops, List.getElem?_map, ← Nat.zero_add j, ← hj, hc] at hreceived
      exact Option.some.inj hreceived
  | none, some body, hdefault, hfound =>
    have hs := (hs.later hlater).notes (FreeNames.notes_selectCases cases st)
    exact (h.inner frame (optionKnown hdefault hs hfound body rfl)).before
  | none, none, _, _ => exact .pure fun _ _ => trivial

end Knowing

end AllowList
end ScriptEngine
