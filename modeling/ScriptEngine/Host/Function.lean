import ScriptEngine.Binary64
import ScriptEngine.Host.HostType

/-! Functions of the host and descriptions of values. A host function is a name, parameter and
result types, and an action; the actions are the core library and a small set from which hosts build
their own functions. A description says how to build a value afresh each time it is needed, so that
two uses never share a container. -/
namespace ScriptEngine

/-- The functions that every engine binds unless configured otherwise. -/
inductive Builtin where
  | len | range | append | delete | keys | close
  | typeOf | kindOf | toString | toInt | toFloat | toBool
deriving Repr, DecidableEq, Inhabited

mutual

/-- How to build a value. -/
inductive Blueprint where
  | nil
  | bool (b : Bool)
  | int (n : Int64)
  | float (x : Binary64)
  | str (s : String)
  /-- The items are stored as they are, also in a typed list. -/
  | list (items : List Blueprint) (elemType : Option HostType) (fixed : Bool)
  /-- The entries are stored one after the other and so converted to the types. -/
  | map (entries : List (Blueprint × Blueprint)) (keyType valueType : Option HostType)
  | func (function : HostFunction)
  | chan (capacity : Nat) (elemType : Option HostType)
  /-- The zero value of the type, then fields set one after the other. -/
  | struct (type : HostType) (fields : List (String × Blueprint))
  /-- A handle for something of the host that scripts can only pass on. -/
  | token (typeName : String)

/-- What a host function does with its converted arguments. -/
inductive HostAction where
  | core (function : Builtin)
  /-- The arguments are the results. -/
  | echo
  /-- The type name of each argument. -/
  | typeNames
  /-- The wrapping sum of all arguments, a list counting as its items. -/
  | sum
  /-- Calls the first argument with the others. -/
  | call
  /-- Calls the first argument once for each item of the second. -/
  | callEach
  /-- Cancels the run. -/
  | cancel
  /-- The cycles of the run so far. -/
  | cycles
  /-- Sleeps for some milliseconds, whether or not the run is cancelled. -/
  | sleep
  /-- Fails as if the run had been cancelled. -/
  | interrupt
  /-- Results built afresh on each call. -/
  | give (results : List Blueprint)
  | invalid (message : String)
  | internal (message : String)
  | throw (value : Blueprint)
  /-- Breaks down, with a message or with something that is none. -/
  | breakDown (message : Option String)

/-- A function of the host. Arguments are converted to `params` before it acts; a variadic function
gets its last arguments packed into one slice. -/
inductive HostFunction where
  | mk (name : String) (params : List HostType) (returns : List HostType) (variadic : Bool)
      (action : HostAction)

end

namespace HostFunction

def name : HostFunction → String
  | .mk name _ _ _ _ => name

def params : HostFunction → List HostType
  | .mk _ params _ _ _ => params

def returns : HostFunction → List HostType
  | .mk _ _ returns _ _ => returns

def variadic : HostFunction → Bool
  | .mk _ _ _ variadic _ => variadic

def action : HostFunction → HostAction
  | .mk _ _ _ _ action => action

/-- The last parameter type as a slice; a missing one counts as any. -/
def sliceLast : List HostType → List HostType
  | [] => [.slice .any]
  | [.slice elem] => [.slice elem]
  | [last] => [.slice last]
  | first :: rest => first :: sliceLast rest

/-- A function with exactly these parameters. -/
def fixed (name : String) (params returns : List HostType) (action : HostAction) : HostFunction :=
  .mk name params returns false action

/-- A function whose last parameter takes any number of arguments. -/
def openEnded (name : String) (params returns : List HostType) (action : HostAction) :
    HostFunction :=
  .mk name (sliceLast params) returns true action

/-- The number of parameters before the variadic one. -/
def fixedArity (f : HostFunction) : Nat :=
  if f.variadic then f.params.length - 1 else f.params.length

end HostFunction

/-- The core library. -/
def Builtin.functions : List HostFunction :=
  [.fixed "len" [.any] [.int .int64] (.core .len),
    .openEnded "range" [.any] [.any] (.core .range),
    .openEnded "append" [.any, .any] [.any] (.core .append),
    .fixed "delete" [.any, .any] [] (.core .delete),
    .fixed "keys" [.any] [.any] (.core .keys),
    .fixed "close" [.any] [] (.core .close),
    .fixed "typeOf" [.any] [.string] (.core .typeOf),
    .fixed "kindOf" [.any] [.string] (.core .kindOf),
    .fixed "toString" [.any] [.string] (.core .toString),
    .fixed "toInt" [.any] [.int .int64] (.core .toInt),
    .fixed "toFloat" [.any] [.float .float64] (.core .toFloat),
    .fixed "toBool" [.any] [.bool] (.core .toBool)]

end ScriptEngine
