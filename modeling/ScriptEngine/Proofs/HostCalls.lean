import ScriptEngine.Evaluator.Call
import ScriptEngine.Proofs.Heap.Binding
import ScriptEngine.Proofs.Task.Equations

/-! # Calls of functions of the host

What a function of the host does is code that the engine knows nothing about.  It runs once in a call whose
arguments bind and convert, on values that conform to the parameters, and what it gives is converted to the
declared results.  It does not run at all in other calls, which fail in the same way whatever the code is.
-/
namespace ScriptEngine

namespace HostFunction
variable {f : HostFunction} {args fixed ws : List Value} {spread : Bool} {rest : Option (List Value)}
  {s : EngineState} {h' : Heap} {e : Failure} {fault : Fault}

/-- A call of a function that runs this code on what it is given. -/
def callBy (f : HostFunction) (code : List Value → Eval (List Value)) (args : List Value)
    (spread : Bool) : Eval Value := do
  let (fixed, rest) ← Eval.tryHeap (·.bindHost f args spread)
  let args ← Eval.onHeap (·.hostArguments f fixed rest)
  let results ← code args
  Eval.onHeap (·.hostResult f results)

/-- The value of a call whose code gave these results. -/
def answer (f : HostFunction) (results : List Value) : Eval Value := Eval.onHeap (·.hostResult f results)

theorem callBy_of_misbinds (hm : s.heap.Misbinds f args spread fault)
    (code : List Value → Eval (List Value)) :
    f.callBy code args spread s = .done s (.error { fault := fault }) := by
  rw [callBy, Eval.bind_apply, Eval.tryHeap_apply, Heap.bindHost_of_misbinds hm]
  rfl

theorem callBy_of_binds (hb : s.heap.Binds f args spread fixed rest)
    (code : List Value → Eval (List Value)) :
    f.callBy code args spread s =
      (Eval.onHeap (·.hostArguments f fixed rest) s).bind (Eval.andThen fun ws => code ws >>= f.answer) := by
  rw [callBy, Eval.bind_apply, Eval.tryHeap_apply, Heap.bindHost_of_binds hb]
  exact Eval.bind_apply _ _ s

theorem callBy_of_refuses (hb : s.heap.Binds f args spread fixed rest)
    (hr : s.heap.Refuses f.params fixed rest e) (code : List Value → Eval (List Value)) :
    f.callBy code args spread s = Eval.ofFailure e s := by
  rw [callBy_of_binds hb, Eval.onHeap_error (Heap.hostArguments_of_refuses hr)]
  cases e <;> rfl

theorem callBy_of_receives (hb : s.heap.Binds f args spread fixed rest)
    (hr : s.heap.Receives f.params fixed rest ws h') (code : List Value → Eval (List Value)) :
    f.callBy code args spread s =
      (code ws { s with heap := h' }).bind (Eval.andThen f.answer) := by
  rw [callBy_of_binds hb, Eval.onHeap_ok (Heap.hostArguments_of_receives hr), Step.bind_of_done,
    Eval.andThen_ok, Eval.bind_apply]

theorem answer_eq_done {results : List Value} {v : Value} {s' : EngineState} (hreturns : f.returns ≠ []) :
    f.answer results s = .done s' (.ok v) ↔ ∃ ws h₁ h', s.heap.ConvertsAll results f.returns ws h₁ ∧
      h₁.Presents ws v h' ∧ s' = { s with heap := h' } := by
  unfold answer
  cases hc : s.heap.hostResult f results with
  | ok r =>
    obtain ⟨w, h'⟩ := r
    rw [Eval.onHeap_ok hc]
    obtain ⟨ws, h₁, hall, hw⟩ := (Heap.hostResult_eq_ok hreturns).mp hc
    constructor
    · intro hd
      cases hd
      exact ⟨ws, h₁, h', hall, hw, rfl⟩
    · rintro ⟨ws', h₁', h'', hall', hw', rfl⟩
      have hc' := (Heap.hostResult_eq_ok hreturns).mpr ⟨ws', h₁', hall', hw'⟩
      rw [hc] at hc'
      cases hc'
      rfl
  | error e =>
    rw [Eval.onHeap_error hc]
    constructor
    · intro hd
      cases e <;> cases hd
    · rintro ⟨ws, h₁, h', hall, hw, -⟩
      rw [(Heap.hostResult_eq_ok hreturns).mpr ⟨ws, h₁, hall, hw⟩] at hc
      cases hc

/-- **Functions of the host only see well-typed calls.**  A call is one of its code by way of binding and
conversion.  If the number of arguments is wrong, it fails with the fault that says so, whatever their types
are; if an argument does not convert, it fails with what the conversion fails with; in both cases the state
is as it was, whatever the code is.  Otherwise the code runs once, on as many values as there are
parameters, each conforming to its own, and its results are the answer: if result types are declared there
is one exactly if as many results were given and all of them convert. -/
theorem host_calls_well_typed (hf : f.Declared) (args : List Value) (spread : Bool) (s : EngineState) :
    (∀ ev : Evaluator,
      ev.callHost f args spread = f.callBy (fun ws => ev.act ws f.action) args spread) ∧
    (∀ fault, s.heap.Misbinds f args spread fault → ∀ code,
      f.callBy code args spread s = .done s (.error { fault := fault })) ∧
    (∀ fixed rest, s.heap.Binds f args spread fixed rest →
      (∀ e, s.heap.Refuses f.params fixed rest e → ∀ code,
        f.callBy code args spread s = Eval.ofFailure e s) ∧
      (∀ ws h', s.heap.Receives f.params fixed rest ws h' →
        ws.length = f.params.length ∧ List.Forall₂ (Conforms h'.shapes) ws f.params ∧
        ∀ code, f.callBy code args spread s =
          (code ws { s with heap := h' }).bind (Eval.andThen f.answer)) ∧
      ((∃ e, s.heap.Refuses f.params fixed rest e) ∨
        ∃ ws h', s.heap.Receives f.params fixed rest ws h')) ∧
    ((∃ fault, s.heap.Misbinds f args spread fault) ∨
      ∃ fixed rest, s.heap.Binds f args spread fixed rest) ∧
    (f.returns ≠ [] → ∀ results v t t', f.answer results t = .done t' (.ok v) ↔
      ∃ ws h₁ h', t.heap.ConvertsAll results f.returns ws h₁ ∧ h₁.Presents ws v h' ∧
        t' = { t with heap := h' }) := by
  refine ⟨fun ev => rfl, fun fault hm => callBy_of_misbinds hm, fun fixed rest hb =>
    ⟨fun e hr => callBy_of_refuses hb hr, fun ws h' hr => ?_, Heap.refuses_or_receives hf hb⟩,
    Heap.misbinds_or_binds _ _ _ _, fun hreturns results v t t' => answer_eq_done hreturns⟩
  exact ⟨hr.conforms.length_eq, hr.conforms, callBy_of_receives hb hr⟩

/-- A function of a text and any number of bytes, with one number for a result. -/
def tally : HostFunction := .openEnded "tally" [.string, .int .uint8] [.int .int64] .sum

/-- A state with one list, of two numbers, the first of which is too large for a byte. -/
def withNumbers : EngineState where
  heap := { lists := Store.push {} ⟨#[.int 300, .int 1], none, false⟩ }

/-- The list is spread, packed anew with its numbers cut to bytes, and given to the code.  The call fails
without any code if something stands between the text and the list, or a number stands for the text.  One
result is the answer. -/
theorem host_calls_well_typed_tally :
    (∃ h', withNumbers.heap.Receives tally.params [.str "a"] (some [.int 300, .int 1])
        [.str "a", .list 2] h' ∧
      (h'.list 2).items = #[.int 44, .int 1] ∧
      ∀ code, tally.callBy code [.str "a", .list 0] true withNumbers =
        (code [.str "a", .list 2] { withNumbers with heap := h' }).bind (Eval.andThen tally.answer)) ∧
    (∀ code, tally.callBy code [.str "a", .nil, .list 0] true withNumbers =
      .done withNumbers (.error { fault := .argumentCount "tally" "1" 2 })) ∧
    (∀ code, tally.callBy code [.int 1] false withNumbers =
      .done withNumbers (.error { fault := .typeMismatch "string" "int64" })) ∧
    tally.answer [.int 5] withNumbers = .done withNumbers (.ok (.int 5)) := by
  have hdeclared : tally.Declared := .openEnded _ _ _ _
  obtain ⟨-, -, hspread, -, hanswer⟩ :=
    host_calls_well_typed hdeclared [.str "a", .list 0] true withNumbers
  obtain ⟨-, hcount, -, -, -⟩ :=
    host_calls_well_typed hdeclared [.str "a", .nil, .list 0] true withNumbers
  obtain ⟨-, -, hnumber, -, -⟩ := host_calls_well_typed hdeclared [.int 1] false withNumbers
  have hparams : tally.params = [.string] ++ [.slice (.int .uint8)] := rfl
  have hfixed : withNumbers.heap.ConvertsAll [.str "a"] [.string] [.str "a"] withNumbers.heap :=
    .cons rfl .nil
  have hrest : (withNumbers.heap.addPlainList #[.int 300, .int 1]).2.ConvertsAll [.int 300, .int 1]
      [.int .uint8, .int .uint8] [.int 44, .int 1]
      (withNumbers.heap.addPlainList #[.int 300, .int 1]).2 := .cons rfl (.cons rfl .nil)
  have hreceives : withNumbers.heap.Receives tally.params [.str "a"] (some [.int 300, .int 1]) _ _ :=
    .packed hparams (by decide) hfixed hrest
  have hlaid : withNumbers.heap.LaysOut ([.str "a"] ++ [.list 0]) true [.str "a"]
      (some [.int 300, .int 1]) := .list
  have hmixed : withNumbers.heap.LaysOut ([.str "a", .nil] ++ [.list 0]) true [.str "a", .nil]
      (some [.int 300, .int 1]) := .list
  obtain ⟨-, hruns, -⟩ := hspread _ _ (.spread rfl hlaid rfl)
  obtain ⟨hrefuses, -⟩ := hnumber [.int 1] (some []) (.discrete rfl .written rfl)
  refine ⟨⟨_, hreceives, rfl, (hruns _ _ hreceives).2.2⟩, fun code => ?_, fun code => ?_, ?_⟩
  · exact hcount _ (.spreadCount rfl hmixed (by decide)) code
  · exact hrefuses _ (.fixed hparams (.here rfl)) code
  · exact (hanswer (by decide) _ _ _ _).mpr ⟨[.int 5], _, _, .cons rfl .nil, .one, rfl⟩

end HostFunction
end ScriptEngine
