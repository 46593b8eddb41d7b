import ScriptEngine.Heap.Text

/-! Errors of evaluation. A fault says what went wrong, and an error adds the place where it went
wrong, at most once: the innermost known place wins. Interrupts, exhausted scope ceilings and
internal faults have no place and cannot be caught by a script. -/
namespace ScriptEngine

/-- What went wrong. -/
inductive Fault where
  | undefinedSymbol (name : String)
  | typeMismatch (expected found : String)
  | indexOutOfRange (index : Int) (len : Nat)
  | indexNotNumber (found : String)
  | invalidSliceIndex (start stop : Int)
  | argumentCount (name expected : String) (received : Nat)
  | invalidOperation (message : String)
  | thrown (value : Value)
  | interrupt
  | scopeLimit (limit : Nat)
  | internal (message : String)
deriving DecidableEq, Inhabited

namespace Fault

/-- A script may catch the fault. -/
def isCatchable : Fault → Bool
  | .interrupt | .scopeLimit _ | .internal _ => false
  | _ => true

def isInterrupt : Fault → Bool
  | .interrupt => true
  | _ => false

/-- The fault shows that a script or a configuration is not safe to go on with. -/
def isFatal : Fault → Bool
  | .scopeLimit _ => true
  | _ => false

/-- The name of the kind of a fault. -/
def kind : Fault → String
  | .undefinedSymbol _ => "UndefinedSymbol"
  | .typeMismatch _ _ => "TypeMismatch"
  | .indexOutOfRange _ _ => "IndexOutOfRange"
  | .indexNotNumber _ => "IndexNotNumber"
  | .invalidSliceIndex _ _ => "InvalidSliceIndex"
  | .argumentCount _ _ _ => "ArgumentCount"
  | .invalidOperation _ => "InvalidOperation"
  | .thrown _ => "Thrown"
  | .interrupt => "Interrupt"
  | .scopeLimit _ => "ScopeLimit"
  | .internal _ => "Internal"

/-- The message of a fault; a thrown value is its own message. -/
def message (h : Heap) : Fault → String
  | .undefinedSymbol name => "undefined symbol '" ++ name ++ "'"
  | .typeMismatch expected found =>
    "type mismatch: wants type " ++ expected ++ " but received type " ++ found
  | .indexOutOfRange index len =>
    "index out of range: index " ++ toString index ++ " with length " ++ toString len
  | .indexNotNumber found => "index must be a number, got " ++ found
  | .invalidSliceIndex start stop =>
    "invalid slice index: " ++ toString start ++ " > " ++ toString stop
  | .argumentCount name expected received =>
    "function " ++ name ++ " wants " ++ expected ++ " arguments but received " ++ toString received
  | .invalidOperation message => "invalid operation: " ++ message
  | .thrown value => h.text value
  | .interrupt => "execution interrupted"
  | .scopeLimit limit => "scope limit exceeded: more than " ++ toString limit ++ " live scopes"
  | .internal message => "internal error: " ++ message

/-- What a script sees of a caught fault: the thrown value, or the message. -/
def toValue (h : Heap) : Fault → Value
  | .thrown value => value
  | f => .str (f.message h)

end Fault

/-- A fault with the place where it happened, if one is known. -/
structure EvalError where
  fault : Fault
  position : Option Position := none
deriving Inhabited

namespace EvalError

/-- The error at this place, unless it has one, the place is not known, or the fault takes none. -/
def locate (e : EvalError) (p : Position) : EvalError :=
  if p.isKnown && e.fault.isCatchable && e.position.isNone then { e with position := some p } else e

/-- The message, with the place if there is one. -/
def message (h : Heap) (e : EvalError) : String :=
  match e.position with
  | some p => e.fault.message h ++ " at " ++ p.text
  | none => e.fault.message h

end EvalError

/-- Why an operation on the heap has no result. -/
inductive Failure where
  /-- It makes no sense, and an error tells why. -/
  | fault (f : Fault)
  /-- Its result has an array that is too long to be held, which nothing recovers from. -/
  | overflow
deriving Inhabited

/-- How a host learns of an overflow. -/
def Failure.overflowMessage : String := "capacity overflow"

/-- Results of operations on the heap, which know nothing of places. -/
abbrev Outcome (α : Type) := Except Failure α

/-- Fails because a type does not fit. -/
def mismatch {α : Type} (h : Heap) (type : HostType) (v : Value) : Outcome α :=
  .error (.fault (.typeMismatch type.text (h.typeName v)))

/-- Fails because an operation makes no sense. -/
def invalid {α : Type} (message : String) : Outcome α :=
  .error (.fault (.invalidOperation message))

/-- Something about the structure of a script that evaluation cannot go on with. -/
inductive Misfit where
  /-- What is assigned to is no place. -/
  | target
  /-- What is deferred or started is no call. -/
  | call (keyword : String)
  /-- A variadic function has no parameter for the rest of its arguments. -/
  | parameters (function : String)
  /-- What is to be bound is no identifier. -/
  | name (name : String)
deriving Repr, DecidableEq, Inhabited

def Misfit.message : Misfit → String
  | .target => "left side of assignment is not assignable"
  | .call keyword => keyword ++ " requires a function call"
  | .parameters function => "variadic function " ++ function ++ " has no parameters"
  | .name n => "invalid identifier '" ++ n ++ "'"

/-- An outcome whose faults, whatever they are, are told as a mismatch of a whole value. -/
def Outcome.orMismatch {α : Type} (o : Outcome α) (h : Heap) (type : HostType) (v : Value) :
    Outcome α :=
  match o with
  | .ok a => .ok a
  | .error (.fault _) => mismatch h type v
  | .error .overflow => .error .overflow

end ScriptEngine
