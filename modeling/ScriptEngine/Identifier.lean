/-! Names that scripts may bind: an ASCII letter or underscore, then letters, digits,
underscores. -/
namespace ScriptEngine

/-- A character that may stand at the start of a name. -/
def isNameStart (c : Char) : Bool := c.isAlpha || c = '_'

/-- A character that may stand behind the start of a name. -/
def isNameRest (c : Char) : Bool := c.isAlphanum || c = '_'

/-- `name` is an ASCII letter or underscore followed by letters, digits and underscores. -/
def isIdentifier (name : String) : Bool :=
  match name.toList with
  | [] => false
  | c :: cs => isNameStart c && cs.all isNameRest

end ScriptEngine
