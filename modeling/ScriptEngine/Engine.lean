import ScriptEngine.Bytecode
import ScriptEngine.Config
import ScriptEngine.Scheduler
import ScriptEngine.Validation

/-! Engines. An engine runs scripts in one root scope, so what one run defines is there for the
next. Every run has a signal, a cycle count and a rate of its own. -/
namespace ScriptEngine

/-- Why a text is no script. -/
structure ParseError where
  message : String
  position : Position
deriving Repr, DecidableEq, Inhabited

/-- What can go wrong when an engine is asked for something. -/
inductive EngineError where
  | parse (e : ParseError)
  | codec (e : Bytecode.DecodeError)
  | validation (e : ValidationError)
  | eval (e : EvalError)
  | internal (message : String)
  /-- A file cannot be read. -/
  | unreadable

namespace EngineError

/-- An evaluation error with nothing known about its place. -/
def ofFault (f : Fault) : EngineError := .eval { fault := f }

/-- The message of an error. -/
def message (h : Heap) : EngineError → String
  | .parse e => "Parse error: " ++ e.message ++ " at " ++ e.position.text
  | .codec e => "Codec error: " ++ e.message
  | .validation e => "Validation error: " ++ e.message
  | .eval e => "Eval error: " ++ e.message h
  | .internal message => "Internal error: " ++ message
  | .unreadable => "IO error"

/-- The name of the kind of an error, after that of its source. -/
def kind : EngineError → String
  | .parse _ => "Parse"
  | .codec e => "Codec." ++ e.kind
  | .validation e => "Validation." ++ e.fault.kind
  | .eval e => "Eval." ++ e.fault.kind
  | .internal _ => "Internal"
  | .unreadable => "Io"

/-- The error says that a run was cancelled. -/
def isInterrupt : EngineError → Bool
  | .eval e => e.fault.isInterrupt
  | _ => false

end EngineError

/-- A script as it is given to an engine. -/
inductive Source where
  | text (s : String)
  | bytecode (bytes : ByteArray)

/-- Turns text into a script. -/
abbrev Parser := String → Except ParseError Block

/-- An interpreter bound to one root scope. -/
structure Engine where
  config : Config
  governor : GovernorId
  scope : ScopeId
  /-- The scope belongs to the engine and ends with it. -/
  ownsScope : Bool
  parser : Option Parser := none
  lastRun : Option RunId := none

namespace Engine

/-- Outcomes of requests to an engine. -/
abbrev Result (α : Type) := Except EngineError α

/-- An outcome of an operation on the heap, as an engine tells it. -/
def ofOutcome {α : Type} : Outcome α → Result α
  | .ok a => .ok a
  | .error (.fault f) => .error (.ofFault f)
  | .error .overflow => .error (.ofFault (.internal Failure.overflowMessage))

/-- Binds functions in a scope, those that it does not bind already. -/
def bindFunctions (h : Heap) (scope : ScopeId) : List HostFunction → Heap
  | [] => h
  | f :: rest =>
    if (h.scope scope).vars.contains f.name then bindFunctions h scope rest
    else
      let (v, h) := h.addFunc (.host f)
      bindFunctions (h.bindVar scope f.name v) scope rest

/-- An engine over a scope, which the host holds through it. It has no parser yet. -/
def assemble (s : EngineState) (config : Config) (governor : GovernorId) (scope : ScopeId)
    (ownsScope : Bool) : Engine × EngineState :=
  let s := if config.coreBuiltins then s.modifyHeap (bindFunctions · scope Builtin.functions) else s
  ({ config, governor, scope, ownsScope }, s.pin scope)

/-- An engine with a new root scope. -/
def new (s : EngineState) (config : Config) : Engine × EngineState :=
  let (governor, s) := s.addGovernor config.maxScopes
  let (scope, s) := s.addRoot governor
  assemble s config governor scope true

/-- An engine over a scope of the host: over a deep copy of it, or over the scope itself. -/
def withScope (s : EngineState) (config : Config) (scope : ScopeId) : Engine × EngineState :=
  if config.copyScope then
    let (governor, s) := s.addGovernor config.maxScopes
    let (copy, h) := s.heap.copyScope scope governor
    assemble { s with heap := h } config governor copy true
  else assemble s config (s.heap.scope scope).governor scope false

/-- The engine reads source text with this parser. -/
def withParser (e : Engine) (parser : Parser) : Engine := { e with parser := some parser }

/-- The engine ends: its own scope is cleared, which breaks circles through it. -/
def drop (s : EngineState) (e : Engine) : EngineState :=
  let s := s.unpin e.scope
  if e.ownsScope then s.modifyHeap (·.clear e.scope) else s

/-! ## Names -/

/-- A value that the host hands over. Maps are copied if the engine protects them. -/
def protect (h : Heap) (e : Engine) (v : Value) : Value × Heap :=
  match v with
  | .map _ => if e.config.protectMaps then h.deepCopy v else (v, h)
  | v => (v, h)

/-- Binds a name in the root scope. -/
def define (h : Heap) (e : Engine) (name : String) (v : Value) : Result Heap :=
  let (v, h) := protect h e v
  ofOutcome (h.define e.scope name v)

/-- Overwrites a name, or binds it. -/
def set (h : Heap) (e : Engine) (name : String) (v : Value) : Result Heap :=
  let (v, h) := protect h e v
  ofOutcome (h.assign e.scope name v)

/-- The value of a name. -/
def get (h : Heap) (e : Engine) (name : String) : Result Value := ofOutcome (h.get e.scope name)

/-- Binds a host function under its own name. -/
def defineFunction (h : Heap) (e : Engine) (f : HostFunction) : Result Heap :=
  let (v, h) := h.addFunc (.host f)
  define h e f.name v

/-- Binds a type name. -/
def defineType (h : Heap) (e : Engine) (name : String) (type : HostType) : Result Heap :=
  ofOutcome (h.defineType e.scope name type)

/-- Binds a package. -/
def definePackage (h : Heap) (e : Engine) (name : String) (package : ScopeId) : Result Heap :=
  ofOutcome (h.definePackage e.scope name package)

/-- The names bound in the root scope, sorted. -/
def names (h : Heap) (e : Engine) : List String := (h.scope e.scope).vars.names

/-- The cycles of the last run so far. -/
def cycles (s : EngineState) (e : Engine) : Nat :=
  match e.lastRun with
  | some run => (s.run run).cycles
  | none => 0

/-! ## Runs -/

/-- The script that a source holds. -/
def load (e : Engine) : Source → Result Block
  | .text s =>
    match e.parser with
    | none => .error (.internal "no parser configured for source text")
    | some parse => (parse s).mapError .parse
  | .bytecode bytes => (Bytecode.decode bytes).mapError .codec

/-- Checks the structure of a script without running it. -/
def validate (s : EngineState) (e : Engine) (signal : SignalId) (source : Source) :
    Result Unit := do
  if s.isCancelled signal then throw (.ofFault .interrupt)
  let script ← e.load source
  script.validate.mapError .validation

/-- The limits of a run that starts now. -/
def newRun (s : EngineState) (e : Engine) (signal : SignalId) : Run where
  signal
  limiter := ⟨e.config.rateLimit, e.config.rateWindow, s.now, 0⟩
  maxElements := e.config.maxElements

/-- A new run of the engine. -/
def startRun (s : EngineState) (e : Engine) (signal : SignalId) : Engine × RunId × EngineState :=
  let (run, s) := s.addRun (newRun s e signal)
  ({ e with lastRun := some run }, run, s)

/-- What a run answers when host code breaks down without a message. -/
def brokenDown : String := "evaluation panicked"

/-- Evaluates a script in the root scope. -/
def execute (fuel : Nat) (e : Engine) (run : RunId) (script : Block) : Task (Result Value) := do
  match ← Task.guarded ((Evaluator.ofFuel run fuel).program script e.scope).run with
  | .ok (.ok v) => return .ok v
  | .ok (.error error) => return .error (.eval error)
  | .error message => return .error (.ofFault (.internal (message.getD brokenDown)))

end Engine

/-- Where settings come from: a text, or what a file holds if it can be read. -/
inductive ConfigSource where
  | text (s : String)
  | file (contents : Option String)

/-- Reads settings. -/
def Config.load : ConfigSource → Engine.Result Config
  | .text s =>
    match Config.parse? s with
    | some c => .ok c
    | none => .error (.internal "Failed to parse config")
  | .file none => .error .unreadable
  | .file (some s) =>
    match Config.parse? s with
    | some c => .ok c
    | none => .error (.internal "Failed to parse config file")

end ScriptEngine
