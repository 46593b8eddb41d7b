import ScriptEngine.Proofs.Evaluator.Scripts
import ScriptEngine.Proofs.Evaluator.Watching
import ScriptEngine.Proofs.Task.Frames
import ScriptEngine.Tree.Builder

/-! # Deferred calls

The calls that a body defers are made when it ends, however it ends, the last one first: each of them
once, with the callee and the arguments that it was registered with, and whether or not others fail
(`Evaluator.CallsMade`).  An error of the body takes precedence over theirs, and the first of theirs
over the others (`overall`).  This is all that comes after the block (`Evaluator.BodyEnds`), and a call,
a module and a script are over as soon as their bodies are (`Evaluator.EndsWithBody`).

Which calls a body has registered is on record (`EngineState.deferrals`).  The frame that they are
kept in is one of many in the engine's state; that nothing gets lost there, and nothing is added, is
because the task holds the frame, and others leave alone what a task holds
(`EngineState.LeavesAlone`).
-/
namespace ScriptEngine

variable {α β : Type}

/-- **What happens while the task waits leaves it alone**: what it holds stays as it is, and so do the
deferred calls of its bodies, which no other task gets hold of. -/
structure EngineState.LeavesAlone (s s' : EngineState) : Prop where
  current : s'.current = s.current
  held : s'.held.get? s.current = s.held.get? s.current
  next_le : s.frames.next ≤ s'.frames.next
  frames : ∀ xs frame, s.held.get? s.current = some xs → .frame frame ∈ xs →
    s'.frames.get? frame = s.frames.get? frame ∧ s'.deferredIn frame = s.deferredIn frame ∧
      ∀ task ys, task ≠ s.current → s'.held.get? task = some ys → .frame frame ∉ ys

/-- The state in which a body begins: there is a new frame, and the task holds it. -/
def EngineState.beginBody (s : EngineState) : EngineState :=
  { s with frames := s.frames.push [] }.hold (.frame s.frames.next)

/-- The state without the call that was registered last. -/
def EngineState.dropDeferred (s : EngineState) (frame : FrameId) : EngineState :=
  { s with frames := s.frames.modify frame List.tail }

/-! ## How calls are made, and what comes of them -/

/-- The error, if there is one. -/
def failureOf : Except EvalError α → Option EvalError
  | .ok _ => none
  | .error e => some e

/-- **What comes of a body and its deferred calls**: the error of the body, or else the first error of
a call, or else what has come of the body. -/
def overall (outcome : Except EvalError α) (results : List (Except EvalError β)) :
    Except EvalError α :=
  match outcome with
  | .ok a => (results.findSome? failureOf).elim (.ok a) .error
  | .error e => .error e

theorem overall_nil (outcome : Except EvalError α) :
    overall outcome ([] : List (Except EvalError β)) = outcome := by
  cases outcome <;> rfl

theorem overall_cons (outcome : Except EvalError α) (result : Except EvalError β)
    (results : List (Except EvalError β)) :
    overall outcome (result :: results) = overall (firstError outcome result) results := by
  cases outcome <;> cases result <;> rfl

namespace Evaluator

open Eval

/-- **These calls are made**, in this order, each of them once: a call is taken out of the frame and
made, and the next one follows whatever comes of it. -/
inductive CallsMade (ev : Evaluator) (frame : FrameId) :
    List DeferredCall → Except EvalError Flow → EngineState → List EngineState →
      List (Except EvalError Value) → EngineState → Prop where
  | nil (outcome : Except EvalError Flow) (s : EngineState) :
      CallsMade ev frame [] outcome s [] [] s
  | cons {call : DeferredCall} {rest : List DeferredCall} {outcome : Except EvalError Flow}
      {s t u : EngineState} {first path : List EngineState} {result : Except EvalError Value}
      {results : List (Except EvalError Value)}
      (hcall : (ev.call call.callee call.args call.spread).Runs
        ((s.dropDeferred frame).hold (.values (outcomeValues outcome))) first result t)
      (hrest : CallsMade ev frame rest (firstError outcome result) t.letGo path results u) :
      CallsMade ev frame (call :: rest) outcome s (first ++ path) (result :: results) u

/-- **How a body ends.**  Its block runs, with a new frame, and has then registered some calls; these
are made, the last one first, and no more are registered meanwhile. -/
inductive BodyEnds (ev : Evaluator) (block : Block) (scope : ScopeId) (s : EngineState) :
    List EngineState → Except EvalError Flow → EngineState → Prop where
  | intro {calls : List DeferredCall} {first rest : List EngineState}
      {outcome : Except EvalError Flow} {results : List (Except EvalError Value)}
      {t u : EngineState}
      (hblock : (ev.block block scope s.frames.next).Runs s.beginBody first outcome t)
      (hregistered : t.deferredIn s.frames.next = calls ++ s.deferredIn s.frames.next)
      (hcalls : ev.CallsMade s.frames.next calls outcome t rest results u)
      (hlater : u.deferredIn s.frames.next = t.deferredIn s.frames.next) :
      BodyEnds ev block scope s (first ++ rest) (overall outcome results) u.letGo

theorem dropDeferred_apply (frame : FrameId) (s : EngineState) :
    Eval.dropDeferred frame s = .done (s.dropDeferred frame) (.ok ()) := rfl

theorem runs_runCalls {ev : Evaluator} {frame : FrameId} {calls : List DeferredCall}
    {outcome : Except EvalError Flow} {s t : EngineState} {path : List EngineState}
    {r : Except EvalError (Except EvalError Flow)} :
    (ev.runCalls frame calls outcome).Runs s path r t ↔
      ∃ results, ev.CallsMade frame calls outcome s path results t ∧
        r = .ok (overall outcome results) := by
  induction calls generalizing outcome s path r with
  | nil =>
    rw [runCalls, runs_pure]
    constructor
    · rintro ⟨rfl, rfl, rfl⟩
      exact ⟨[], .nil _ _, by rw [overall_nil]⟩
    · rintro ⟨_, ⟨⟩, rfl⟩
      exact ⟨rfl, by rw [overall_nil], rfl⟩
  | cons call rest ih =>
    rw [runCalls, runs_after (dropDeferred_apply frame s), runs_bind]
    constructor
    · rintro (⟨first, path, result, u, rfl, hheld, hrest⟩ | ⟨e, hheld, -⟩)
      · obtain ⟨u, hcall, rfl⟩ := runs_holding.mp hheld
        obtain ⟨_, hcall, ⟨⟩⟩ := runs_attempt.mp hcall
        obtain ⟨results, hmade, rfl⟩ := ih.mp hrest
        exact ⟨result :: results, .cons hcall hmade, by rw [overall_cons]⟩
      · obtain ⟨u, hcall, rfl⟩ := runs_holding.mp hheld
        obtain ⟨_, -, ⟨⟩⟩ := runs_attempt.mp hcall
    · rintro ⟨_, @⟨⟩, rfl⟩
      rename_i u first path result results hcall hrest
      refine .inl ⟨first, path, result, u.letGo, rfl, ?_, ?_⟩
      · exact runs_holding.mpr ⟨u, runs_attempt.mpr ⟨_, hcall, rfl⟩, rfl⟩
      · exact ih.mpr ⟨results, hrest, by rw [overall_cons]⟩

/-- A body runs its block and then makes the calls that are in its frame. -/
theorem runs_evalBody {ev : Evaluator} {block : Block} {scope : ScopeId} {s t : EngineState}
    {path : List EngineState} {r : Except EvalError Flow} :
    (ev.evalBody block scope).Runs s path r t ↔
      ∃ first rest outcome results u v, path = first ++ rest ∧
        (ev.block block scope s.frames.next).Runs s.beginBody first outcome u ∧
        ev.CallsMade s.frames.next ((u.frames.get? s.frames.next).getD []) outcome u rest results v ∧
        r = overall outcome results ∧ t = v.letGo := by
  rw [evalBody, inFrame, runs_after (update_apply _ s), runs_holding]
  have hends {o : Except EvalError Flow} {v w : EngineState} {rest : List EngineState} :
      (MonadExcept.ofExcept o : Eval Flow).Runs v rest r w ↔ rest = [] ∧ r = o ∧ w = v := by
    cases o <;> exact runs_of_done rfl
  constructor
  · rintro ⟨v, hbody, rfl⟩
    obtain ⟨first, rest, outcome, u, rfl, hblock, hcalls⟩ := runs_attempt_bind.mp hbody
    rw [deferred, runs_after (read_apply _ u), runs_bind] at hcalls
    obtain ⟨rest, last, o, w, rfl, hcalls, hend⟩ | ⟨e, hcalls, -⟩ := hcalls
    · obtain ⟨results, hmade, ⟨⟩⟩ := runs_runCalls.mp hcalls
      obtain ⟨rfl, rfl, rfl⟩ := hends.mp hend
      rw [List.append_nil]
      exact ⟨first, rest, outcome, results, u, v, rfl, hblock, hmade, rfl, rfl⟩
    · obtain ⟨results, -, ⟨⟩⟩ := runs_runCalls.mp hcalls
  · rintro ⟨first, rest, outcome, results, u, v, rfl, hblock, hcalls, rfl, rfl⟩
    refine ⟨v, runs_attempt_bind.mpr ⟨first, rest, outcome, u, rfl, hblock, ?_⟩, rfl⟩
    rw [deferred, runs_after (read_apply _ u), runs_bind]
    refine .inl ⟨rest, [], _, v, (List.append_nil _).symm, ?_, hends.mpr ⟨rfl, rfl, rfl⟩⟩
    exact runs_runCalls.mpr ⟨results, hcalls, rfl⟩

/-! ## What is in the frame -/

end Evaluator

section
variable {s w w' : EngineState} {frame : FrameId} {xs : List Holding}

/-- A body begins with nothing in its frame, which nobody else holds. -/
theorem FrameKept.begin (hmade : s.FramesMade) :
    FrameKept s.current s.frames.next (s.deferredIn s.frames.next) s.beginBody where
  below := Nat.lt_of_lt_of_eq (Nat.lt_succ_self _) (Store.next_push _ _).symm
  held other ys hys := by
    have hnone {zs : List Holding} (hzs : s.held.get? other = some zs) :
        timesHeld s.frames.next zs = 0 := by
      by_contra hpos
      have hmem := timesHeld_pos.mp (Nat.pos_of_ne_zero hpos)
      exact absurd (hmade other zs _ hzs hmem) (Nat.lt_irrefl _)
    obtain hold | ⟨rfl, zs, hold, rfl⟩ := Store.get?_modify hys
    · rw [hnone hold]
      exact Nat.zero_le _
    · rw [timesHeld_cons_self, hnone hold, if_pos rfl]
  recorded _ _ _ := ⟨[], Store.get?_push_next _ _, rfl⟩

section
variable (hothers : w.LeavesAlone w') (hxs : w.held.get? w.current = some xs)
  (hmem : .frame frame ∈ xs)
include hothers hxs hmem

theorem EngineState.LeavesAlone.kept {before : List DeferredCall}
    (hw : FrameKept w.current frame before w) : FrameKept w.current frame before w' where
  below := Nat.lt_of_lt_of_le hw.below hothers.next_le
  held other ys hys := by
    by_cases hother : other = w.current
    · subst hother
      exact hw.held _ ys (hothers.held.symm.trans hys)
    · by_contra hpos
      rw [if_neg hother, Nat.not_le] at hpos
      exact (hothers.frames xs frame hxs hmem).2.2 other ys hother hys (timesHeld_pos.mp hpos)
  recorded ys hys hin := by
    obtain ⟨hsame, hrecorded, -⟩ := hothers.frames xs frame hxs hmem
    rw [hsame, hrecorded]
    exact hw.recorded ys (hothers.held.symm.trans hys) hin

theorem EngineState.LeavesAlone.spared (hw : FrameSpared frame w w) : FrameSpared frame w w' where
  below := Nat.lt_of_lt_of_le hw.below hothers.next_le
  recorded := (hothers.frames xs frame hxs hmem).2.1
  unchanged := by
    rw [(hothers.frames xs frame hxs hmem).1]
    exact fun _ => id

end

/-- Where evaluation ends that observes a law about a frame, if the task holds the frame meanwhile and
is left alone while it waits. -/
theorem Eval.Runs.lawful {m : Eval α} {r : Except EvalError α} {t : EngineState}
    {path : List EngineState} {G : EngineState → EngineState → Prop} (hG : Law G)
    (hR : ∀ w w' xs, w.current = s.current → w.LeavesAlone w' →
      w.held.get? w.current = some xs → .frame frame ∈ xs → G w w → G w w')
    (hm : Watchful [] m) (hlaw : ObservesOn id G (m s) s) (hruns : m.Runs s path r t)
    (hothers : (m s).Amid EngineState.LeavesAlone path) (hxs : s.held.get? s.current = some xs)
    (hmem : .frame frame ∈ xs) :
    t.current = s.current ∧ t.held.get? s.current = some xs ∧ G s t := by
  obtain ⟨⟨hcurrent, hheld, -⟩, hamid⟩ := (hm.watches s xs hxs nofun).along rfl hruns hothers
    fun w w' h => ⟨h.current, h.held⟩
  refine ⟨hcurrent, hheld, (hruns.observes hG hlaw hamid ?_).1⟩
  rintro w w' ⟨hleaves, hw, ys, hys⟩ hGw
  exact hR w w' _ hw hleaves (hw ▸ hys) (List.mem_append_right ys hmem) hGw

end

namespace Evaluator

open Eval

variable {run : RunId} {fuel : Nat} {block : Block} {scope : ScopeId} {s t : EngineState}
  {xs : List Holding}

/-- **At the end of the block the calls in the frame are those that were registered** since it began,
the last one first. -/
theorem registered_of_block {first : List EngineState} {outcome : Except EvalError Flow}
    (hblock : ((ofFuel run fuel).block block scope s.frames.next).Runs s.beginBody first outcome t)
    (hothers : ((ofFuel run fuel).block block scope s.frames.next s.beginBody).Amid
      EngineState.LeavesAlone first)
    (hmade : s.FramesMade) (hxs : s.held.get? s.current = some xs) :
    (t.current = s.current ∧ t.held.get? s.current = some (.frame s.frames.next :: xs)) ∧
      s.frames.next < t.frames.next ∧ ∃ calls, t.frames.get? s.frames.next = some calls ∧
        t.deferredIn s.frames.next = calls ++ s.deferredIn s.frames.next := by
  have hH := (frameLaw_kept s.current s.frames.next (s.deferredIn s.frames.next)).habits
  have hobeys : ObeysAny (fun _ => True) (fun _ s' => FrameKept s.current s.frames.next
      (s.deferredIn s.frames.next) s') ((ofFuel run fuel).block block scope s.frames.next) :=
    hH.rules.any ((hH.obedient run fuel).block hH.rules trivial (Block.in_all block) trivial)
  obtain ⟨rounds, hall⟩ := watchful_ofFuel run fuel
  have hbegin : s.beginBody.held.get? s.beginBody.current = some (.frame s.frames.next :: xs) :=
    EngineState.held_hold hxs _
  have hwatchful : Watchful [] ((ofFuel run fuel).block block scope s.frames.next) :=
    hall.block block scope s.frames.next
  obtain ⟨hcurrent, hheld, hkept⟩ := hblock.lawful (s := s.beginBody) hH.toLaw
    (fun w w' ys hw hleaves hys hmem hGw => hw ▸ hleaves.kept hys hmem (hw ▸ hGw)) hwatchful
    ((hobeys.observes (.begin hmade)).on hH.toLaw) hothers hbegin List.mem_cons_self
  exact ⟨⟨hcurrent, hheld⟩, hkept.below, hkept.recorded _ hheld List.mem_cons_self⟩

/-- What others do while a body is under way they do while its block is, or while its calls are. -/
theorem amid_evalBody {ev : Evaluator} {first rest : List EngineState}
    {outcome : Except EvalError Flow} {R : EngineState → EngineState → Prop}
    (hblock : (ev.block block scope s.frames.next).Runs s.beginBody first outcome t)
    (hothers : (ev.evalBody block scope s).Amid R (first ++ rest)) :
    (ev.block block scope s.frames.next s.beginBody).Amid R first ∧
      (ev.runCalls s.frames.next ((t.frames.get? s.frames.next).getD []) outcome t).Amid R rest := by
  simp only [evalBody, inFrame, bind_apply, update_apply, holding_apply, attempt_apply, deferred,
    read_apply, Step.bind_of_done, andThen_ok, Step.bind_assoc] at hothers
  exact (hblock.amid_bind.mp hothers).imp_right .of_bind

/-- **Deferred calls register nothing in the frame that they come from.** -/
theorem CallsMade.spares {frame : FrameId} {calls : List DeferredCall}
    {outcome : Except EvalError Flow} {path : List EngineState}
    {results : List (Except EvalError Value)}
    (hcalls : (ofFuel run fuel).CallsMade frame calls outcome s path results t)
    (hothers : ((ofFuel run fuel).runCalls frame calls outcome s).Amid EngineState.LeavesAlone path)
    (hxs : s.held.get? s.current = some xs) (hmem : .frame frame ∈ xs)
    (hbelow : frame < s.frames.next) : t.deferredIn frame = s.deferredIn frame := by
  induction hcalls with
  | nil outcome s => rfl
  | @cons call rest outcome s t u first path result results hcall hrest ih =>
    rw [runCalls, bind_apply, dropDeferred_apply, Step.bind_of_done, andThen_ok, bind_apply,
      holding_apply, attempt_apply, Step.bind_assoc, Step.bind_assoc] at hothers
    obtain ⟨hduring, hafter⟩ := hcall.amid_bind.mp hothers
    -- the call begins with one call less in the frame, and with the outcome so far held as well
    let begun := (s.dropDeferred frame).hold (.values (outcomeValues outcome))
    have hbegun : begun.held.get? begun.current = some (.values (outcomeValues outcome) :: xs) :=
      EngineState.held_hold hxs _
    have hspared : FrameSpared frame begun begun :=
      ⟨Nat.lt_of_lt_of_eq hbelow (Store.next_modify _ _ _).symm, rfl, fun _ => id⟩
    have hH := (frameLaw_spared frame).habits
    have hobeys : ObservesOn id (FrameSpared frame)
        ((ofFuel run fuel).call call.callee call.args call.spread begun) begun :=
      (((hH.obedient run fuel).call call.spread (fun _ _ => trivial) fun _ _ _ _ =>
        trivial).observes hspared).on hH.toLaw
    obtain ⟨rounds, hall⟩ := watchful_ofFuel run fuel
    have hwatchful : Watchful [] ((ofFuel run fuel).call call.callee call.args call.spread) :=
      hall.call call.callee call.args call.spread
    obtain ⟨hcurrent, hheld, hcalled⟩ := hcall.lawful (s := begun) hH.toLaw
      (fun w w' ys _ hleaves hys hin hGw => hleaves.spared hys hin hGw) hwatchful hobeys hduring
      hbegun (List.mem_cons_of_mem _ hmem)
    have hletGo := hcalled.letGoOf t.current
    have hsame : t.letGo.current = begun.current :=
      (EngineState.tells_letGoOf t t.current).current_eq.trans hcurrent
    have hleft : t.letGo.held.get? t.letGo.current = some xs := by
      rw [hsame, EngineState.letGo, hcurrent]
      exact EngineState.held_letGoOf hheld
    rw [ih hafter hleft hletGo.below]
    exact hletGo.recorded

/-! ## Who runs bodies -/

/-- **The computation ends with a body.**  It may end before the body begins, no matter what the body
does; otherwise the body runs last of all, and what comes of it is done at once. -/
def EndsWithBody (ev : Evaluator) (block : Block) (finish : ScopeId → Flow → Eval α)
    (caller : Evaluator → Eval α) : Prop :=
  ∀ s path r t, (caller ev).Runs s path r t →
    (∀ body, (caller { ev with body }).Runs s path r t) ∨
    ∃ scope first rest u o v w, path = first ++ rest ∧ (ev.body block scope).Runs u rest o v ∧
      andThen (finish scope) o v = .done w r

namespace EndsWithBody
variable {ev : Evaluator} {finish : ScopeId → Flow → Eval α}

/-- Something else comes first. -/
theorem after {m : Eval β} {caller : β → Evaluator → Eval α}
    (hcaller : ∀ b, ev.EndsWithBody block finish (caller b)) :
    ev.EndsWithBody block finish fun ev => m >>= fun b => caller b ev := by
  intro s path r t hruns
  obtain ⟨first, rest, b, u, rfl, hm, hrest⟩ | ⟨e, hm, rfl⟩ := runs_bind.mp hruns
  · obtain hnever | ⟨scope, middle, last, v, o, w, w', rfl, hbody, hfinish⟩ :=
      hcaller b u rest r t hrest
    · exact .inl fun body => runs_bind.mpr (.inl ⟨first, rest, b, u, rfl, hm, hnever body⟩)
    · exact .inr ⟨scope, first ++ middle, last, v, o, w, w', (List.append_assoc _ _ _).symm, hbody,
        hfinish⟩
  · exact .inl fun body => runs_bind.mpr (.inr ⟨e, hm, rfl⟩)

/-- Something is held meanwhile. -/
theorem holding {x : Holding} {caller : Evaluator → Eval α}
    (hcaller : ev.EndsWithBody block finish caller) :
    ev.EndsWithBody block finish fun ev => Eval.holding x (caller ev) := by
  intro s path r t hruns
  obtain ⟨u, hruns', rfl⟩ := runs_holding.mp hruns
  exact (hcaller _ path r u hruns').imp_left fun hnever body =>
    runs_holding.mpr ⟨u, hnever body, rfl⟩

/-- Nothing is left but the body, and something that does not wait. -/
theorem last (scope : ScopeId)
    (hfinish : ∀ {flow s path r t}, (finish scope flow).Runs s path r t → path = []) :
    ev.EndsWithBody block finish fun ev => ev.body block scope >>= finish scope := by
  intro s path r t hruns
  obtain ⟨first, rest, flow, u, rfl, hbody, hrest⟩ | ⟨e, hbody, rfl⟩ := runs_bind.mp hruns
  · obtain rfl := hfinish hrest
    have hdone := Step.follow_nil (finish scope flow u) ▸ hrest.follow_eq
    exact .inr ⟨scope, [], first, s, .ok flow, u, t, List.append_nil _, hbody, hdone⟩
  · exact .inr ⟨scope, [], path, s, .error e, t, t, rfl, hbody, rfl⟩

theorem ite (c : Prop) [Decidable c] {caller other : Evaluator → Eval α}
    (hcaller : ev.EndsWithBody block finish caller) (hother : ev.EndsWithBody block finish other) :
    ev.EndsWithBody block finish fun ev => if c then caller ev else other ev := by
  by_cases h : c
  · simp only [h, if_true]
    exact hcaller
  · simp only [h, if_false]
    exact hother

end EndsWithBody

/-- What a call makes of the end of its body: a value that was returned, or nil. -/
def endCall : Flow → Eval Value
  | .value _ => return .nil
  | .ret v => return v
  | flow => failWith (flow.keyword ++ " outside of a loop")

/-- What a script makes of the end of its body: its last value, or one that was returned. -/
def endScript : Flow → Eval Value
  | .value v | .ret v => return v
  | flow => failWith (flow.keyword ++ " outside of a loop")

/-- What a module makes of the end of its body: its scope becomes a package. -/
def endModule (name : String) (scope inner : ScopeId) : Flow → Eval Flow
  | .value _ => do
    definePackage scope name inner
    modify (·.capture inner)
    return .unit
  | flow => failWith (flow.keyword ++ " is not allowed in module " ++ name)

theorem endsWithBody_callScript (ev : Evaluator) (callee : Value) (definition : FuncDef)
    (around : ScopeId) (selfBound : Bool) (args : List Value) (spread : Bool) :
    ev.EndsWithBody definition.body (fun _ => endCall)
      (·.callScript callee definition around selfBound args spread) := by
  have hbody (scope : ScopeId) : ev.EndsWithBody definition.body (fun _ => endCall)
      fun ev => ev.body definition.body scope >>= endCall :=
    .last scope fun {flow} _ _ _ _ hruns => by
      cases flow <;> exact ((runs_of_done rfl).mp hruns).1
  have hcall (fixed : List Value) (rest : Option (List Value)) :
      ev.EndsWithBody definition.body (fun _ => endCall) fun ev => (do
        let scope ← Eval.holding (.values (fixed ++ rest.getD [])) (openScope around)
        Eval.holding (.block scope) do
          bindParams callee definition selfBound fixed rest scope
          let flow ← ev.body definition.body scope
          endCall flow) :=
    .after fun scope => .holding (.after fun _ => hbody scope)
  exact .ite _ (.after fun _ => .after fun parts => hcall parts.1 parts.2)
    (.after fun parts => hcall parts.1 parts.2)

theorem endsWithBody_declareModule (ev : Evaluator) (name : String) (body : Block)
    (scope : ScopeId) :
    ev.EndsWithBody body (endModule name scope) (·.declareModule name body scope) := by
  refine .after fun inner => .holding (.last inner fun {flow s path r t} hruns => ?_)
  cases flow with
  | value v =>
    rw [endModule, Runs, bind_apply, definePackage] at hruns
    cases hdefine : s.heap.definePackage scope name inner with
    | ok h =>
      rw [bindName_ok hdefine] at hruns
      exact (Step.endsAlong_done.mp hruns).1
    | error e =>
      rw [bindName_error hdefine] at hruns
      cases e with
      | fault f => exact (Step.endsAlong_done.mp hruns).1
      | overflow => cases hruns
  | brk | cont | ret v => exact ((runs_of_done rfl).mp hruns).1

theorem endsWithBody_program (ev : Evaluator) (script : Block) (scope : ScopeId) :
    ev.EndsWithBody script (fun _ => endScript) (·.program script scope) :=
  .last scope fun {flow} _ _ _ _ hruns => by
    cases flow <;> exact ((runs_of_done rfl).mp hruns).1

/-- A `defer` statement evaluates the callee and the arguments, and registers the call with these
values. -/
theorem runs_defer {ev : Evaluator} {frame : FrameId} {e : Expr} {path : List EngineState}
    {r : Except EvalError Flow} :
    (ev.dispatchStmt scope frame (.defer e)).Runs s path r t ↔
      (∃ call u, (ev.preparedCall "defer" e scope).Runs s path (.ok call) u ∧ r = .ok .unit ∧
        t = u.defer frame call) ∨
      ∃ failure, (ev.preparedCall "defer" e scope).Runs s path (.error failure) t ∧
        r = .error failure := by
  refine runs_bind.trans (or_congr_left ⟨?_, ?_⟩)
  · rintro ⟨first, rest, call, u, rfl, hcall, hdefer⟩
    obtain ⟨rfl, rfl, rfl⟩ := (runs_of_done rfl).mp hdefer
    exact ⟨call, u, (List.append_nil first).symm ▸ hcall, rfl, rfl⟩
  · rintro ⟨call, u, hcall, rfl, rfl⟩
    exact ⟨path, [], call, u, (List.append_nil _).symm, hcall, (runs_of_done rfl).mpr ⟨rfl, rfl, rfl⟩⟩

/-- **Deferred calls are made once each, the last one first.**  However a body comes to its end, in a
task that is left alone while it waits: then its block has run and the calls that were registered in
its frame have been made, as `BodyEnds` says.  They are registered with the values that their parts had
then.  And no call, module or script ends after its body has begun, unless the body has come to its
end. -/
theorem deferred_calls_made (run : RunId) (fuel : Nat) :
    (∀ (block : Block) (scope : ScopeId) (s : EngineState) (xs : List Holding)
        (path : List EngineState) (r : Except EvalError Flow) (t : EngineState),
      s.FramesMade → s.held.get? s.current = some xs →
      ((ofFuel run (fuel + 1)).body block scope s).Amid EngineState.LeavesAlone path →
      (((ofFuel run (fuel + 1)).body block scope).Runs s path r t ↔
        (ofFuel run fuel).BodyEnds block scope s path r t)) ∧
    (∀ (e : Expr) (scope : ScopeId) (frame : FrameId) (s : EngineState) (path : List EngineState)
        (r : Except EvalError Flow) (t : EngineState),
      ((ofFuel run fuel).dispatchStmt scope frame (.defer e)).Runs s path r t ↔
        (∃ call u, ((ofFuel run fuel).preparedCall "defer" e scope).Runs s path (.ok call) u ∧
          r = .ok .unit ∧ t = u.defer frame call) ∨
        ∃ failure, ((ofFuel run fuel).preparedCall "defer" e scope).Runs s path (.error failure) t ∧
          r = .error failure) ∧
    (∀ (callee : Value) (definition : FuncDef) (around : ScopeId) (selfBound : Bool)
        (args : List Value) (spread : Bool),
      (ofFuel run (fuel + 1)).EndsWithBody definition.body (fun _ => endCall)
        (·.callScript callee definition around selfBound args spread)) ∧
    (∀ (name : String) (body : Block) (scope : ScopeId),
      (ofFuel run (fuel + 1)).EndsWithBody body (endModule name scope)
        (·.declareModule name body scope)) ∧
    ∀ (script : Block) (scope : ScopeId),
      (ofFuel run (fuel + 1)).EndsWithBody script (fun _ => endScript) (·.program script scope) := by
  refine ⟨fun block scope s xs path r t hmade hxs hothers => ?_,
    fun _ _ _ _ _ _ _ => runs_defer, endsWithBody_callScript _, endsWithBody_declareModule _,
    endsWithBody_program _⟩
  constructor
  · intro hruns
    obtain ⟨first, rest, outcome, results, u, v, rfl, hblock, hcalls, rfl, rfl⟩ :=
      runs_evalBody.mp hruns
    obtain ⟨hduring, hafter⟩ := amid_evalBody hblock hothers
    obtain ⟨⟨hcurrent, hheld⟩, hbelow, calls, hframe, hregistered⟩ :=
      registered_of_block hblock hduring hmade hxs
    rw [hframe, Option.getD_some] at hcalls hafter
    exact .intro hblock hregistered hcalls
      (hcalls.spares hafter (hcurrent ▸ hheld) List.mem_cons_self hbelow)
  · rintro ⟨hblock, hregistered, hcalls, hlater⟩
    rename_i calls first rest outcome results u v
    obtain ⟨hduring, -⟩ := amid_evalBody hblock hothers
    obtain ⟨-, -, calls', hframe, hregistered'⟩ := registered_of_block hblock hduring hmade hxs
    have hsame : calls' = calls := List.append_cancel_right (hregistered'.symm.trans hregistered)
    refine runs_evalBody.mpr ⟨first, rest, outcome, results, u, v, rfl, hblock, ?_, rfl, rfl⟩
    rw [hframe, Option.getD_some, hsame]
    exact hcalls

/-- A root scope with a number, and a run without limits. -/
def tallying : EngineState :=
  { EngineState.initial with
    heap := { scopes := ({} : Store Scope).push { vars := ⟨[("n", .int 0)]⟩ } }
    governors := ({} : Store Governor).push { limit := 0 }
    runs := ({} : Store Run).push ⟨0, ⟨0, 0, 0, 0⟩, 0, 0⟩ }

/-- `defer (func() { n = n * 10 + 1 })()`, `defer (func() { throw 2 })()`,
`defer (func() { n = n * 10 + 3 })()`, and `throw 9`. -/
def tallies : Block :=
  let tally (digit : Int64) : Stmt :=
    .assignTo "n" (.binary .add (.binary .mul (.ident "n") (.int 10)) (.int digit))
  let deferred (body : Block) : Stmt := .defer (.call (.func [] body) [])
  [deferred [tally 1], deferred [.throw (.int 2)], deferred [tally 3], .throw (.int 9)]

/-- Three calls are made, the last one first, although the body has failed and so does the second call;
the error is that of the body. -/
theorem deferred_calls_made_tallies :
    ∃ e t, (ofFuel 0 11).BodyEnds tallies 0 tallying [] (.error e) t ∧
      e.fault = .thrown (.int 9) ∧ t.heap.lookup? 0 "n" = some (.int 31) := by
  have hmade : tallying.FramesMade := by
    intro task xs frame hxs hmem
    obtain rfl | hnone := Store.get?_push hxs
    · cases hmem
    · cases hnone
  have hbody : ((ofFuel 0 12).body tallies 0 tallying).fails (.thrown (.int 9)) = true := by
    decide +kernel
  have htally : ((ofFuel 0 12).body tallies 0 tallying).state.heap.lookup? 0 "n" = some (.int 31) := by
    decide +kernel
  obtain ⟨e, hruns, hthrown⟩ := runs_of_fails hbody
  exact ⟨e, _, ((deferred_calls_made 0 11).1 _ _ _ [] _ _ _ hmade rfl (Step.amid_nil _)).mp hruns,
    hthrown, htally⟩

end Evaluator
end ScriptEngine
