import ScriptEngine.Heap.Convert

/-! Binding arguments to parameters. A call has positional arguments, the last of which may be
spread: a sequence standing for its items. A variadic function collects what follows its fixed
parameters; a spread call to it gives exactly the fixed arguments and the sequence. -/
namespace ScriptEngine.Heap

/-- Fails because a call has too many or too few arguments. -/
def wrongCount {α : Type} (name expected : String) (received : Nat) : Outcome α :=
  .error (.fault (.argumentCount name expected received))

/-- The items that a spread argument stands for. -/
def spreadItems (h : Heap) : Value → Outcome (List Value)
  | .list id => .ok (h.list id).items.toList
  | .nil => .ok []
  | v => invalid ("cannot spread value of type " ++ h.typeName v)

/-- Arguments that are all written out. -/
def bindDiscrete (name : String) (fixed : Nat) (variadic : Bool) (args : List Value) :
    Outcome (List Value × Option (List Value)) :=
  if variadic then
    if args.length < fixed then wrongCount name ("at least " ++ toString fixed) args.length
    else .ok (args.take fixed, some (args.drop fixed))
  else if args.length = fixed then .ok (args, none)
  else wrongCount name (toString fixed) args.length

/-- The fixed arguments of a call, and for a variadic function the rest. -/
def bindArguments (h : Heap) (name : String) (fixed : Nat) (variadic : Bool) (args : List Value)
    (spread : Bool) : Outcome (List Value × Option (List Value)) :=
  if spread then
    match args.getLast? with
    | none => invalid "spread call without arguments"
    | some last => do
      let items ← h.spreadItems last
      let first := args.dropLast
      if variadic then
        if first.length = fixed then return (first, some items)
        else wrongCount name (toString fixed) first.length
      else bindDiscrete name fixed false (first ++ items)
  else bindDiscrete name fixed variadic args

/-- Converts arguments to parameter types, one after the other. -/
def convertArgs (h : Heap) : List Value → List HostType → Outcome (List Value × Heap)
  | v :: vs, type :: types => do
    let (v, h) ← h.convert v type
    let (vs, h) ← h.convertArgs vs types
    return (v :: vs, h)
  | _, _ => .ok ([], h)

/-- The arguments a host function acts on: converted, the rest packed into one slice. -/
def hostArguments (h : Heap) (f : HostFunction) (fixed : List Value) (rest : Option (List Value)) :
    Outcome (List Value × Heap) := do
  let (fixed, h) ← h.convertArgs fixed f.params
  match rest with
  | none => return (fixed, h)
  | some rest =>
    let (packed, h) := h.addPlainList rest.toArray
    let (packed, h) ← h.convert packed (f.params.getLast?.getD (.slice .any))
    return (fixed ++ [packed], h)

/-- The value of a call from the results of a host function: none is nil, one is itself, several are
a list. Declared result types fix their number and convert them. -/
def hostResult (h : Heap) (f : HostFunction) (results : List Value) : Outcome (Value × Heap) := do
  let (results, h) ←
    if f.returns.isEmpty then .ok (results, h)
    else if f.returns.length = results.length then h.convertArgs results f.returns
    else
      invalid ("function " ++ f.name ++ " declared " ++ toString f.returns.length ++
        " results but returned " ++ toString results.length)
  match results with
  | [] => return (.nil, h)
  | [v] => return (v, h)
  | vs => return h.addPlainList vs.toArray

end ScriptEngine.Heap
