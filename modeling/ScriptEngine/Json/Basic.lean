import ScriptEngine.Decimal.Layout

/-! JSON values and their text. A number keeps its numeral, so reading loses nothing; a string keeps
the text it names, or nothing if an escape in it names half a surrogate pair or a byte in it is part
of no character. Such a string is still a JSON string and does no harm where its content is not
looked at. -/
namespace ScriptEngine

open Decimal (Numeral)

/-- A JSON value. Fields stand in the order of the text, and a name may occur twice. -/
inductive Json where
  | null
  | bool (b : Bool)
  | num (n : Numeral)
  | str (text : Option String)
  | arr (items : List Json)
  | obj (fields : List (Option String × Json))

namespace Json

instance : Inhabited Json := ⟨.null⟩

/-- The string `s`. -/
def string (s : String) : Json := .str (some s)

/-- The integer `n`. -/
def int (n : Int) : Json := .num ⟨n < 0, Decimal.digitChars n.natAbs, none, none⟩

/-- The natural number `n`. -/
def nat (n : Nat) : Json := .num ⟨false, Decimal.digitChars n, none, none⟩

/-- A finite float as a numeral; NaN and the infinities have none and become null. -/
def float (x : Binary64) : Json :=
  match Decimal.Layout.json.numeral? x with
  | some n => .num n
  | none => .null

/-- An object with these fields. -/
def object (fields : List (String × Json)) : Json :=
  .obj (fields.map fun (name, value) => (some name, value))

/-- A list of strings. -/
def strings (items : List String) : Json := .arr (items.map string)

mutual

/-- How deep arrays and objects are nested: scalars have depth 0. -/
def depth : Json → Nat
  | .arr items => depthItems items + 1
  | .obj fields => depthFields fields + 1
  | _ => 0

def depthItems : List Json → Nat
  | [] => 0
  | v :: rest => max v.depth (depthItems rest)

def depthFields : List (Option String × Json) → Nat
  | [] => 0
  | (_, v) :: rest => max v.depth (depthFields rest)

end

/-- The hexadecimal digit of `n < 16`, in lower case. -/
def hexDigit (n : Nat) : Char :=
  Char.ofNat (if n < 10 then '0'.toNat + n else 'a'.toNat + (n - 10))

/-- A character inside a string literal. Only the quote, the backslash and the control characters
below the blank are escaped. -/
def escapeChar (c : Char) : List Char :=
  if c = '"' then ['\\', '"']
  else if c = '\\' then ['\\', '\\']
  else if c.toNat = 8 then ['\\', 'b']
  else if c.toNat = 9 then ['\\', 't']
  else if c.toNat = 10 then ['\\', 'n']
  else if c.toNat = 12 then ['\\', 'f']
  else if c.toNat = 13 then ['\\', 'r']
  else if c.toNat < 32 then ['\\', 'u', '0', '0', hexDigit (c.toNat / 16), hexDigit (c.toNat % 16)]
  else [c]

/-- The literal of a text. -/
def quote (s : String) : List Char :=
  '"' :: s.toList.flatMap escapeChar ++ ['"']

/-- The literal of a string value; one without text has the literal of a lone surrogate. -/
def quoteText : Option String → List Char
  | some s => quote s
  | none => ['"', '\\', 'u', 'd', '8', '0', '0', '"']

/-! ## Writing

A value is written in front of what follows it. So the text of a part is made once, however deep the
part stands, and a reader can be shown to stop exactly where the value does. -/

mutual

/-- The compact text of a value, and then `rest`. -/
def write : Json → (rest : List Char) → List Char
  | .null, rest => 'n' :: 'u' :: 'l' :: 'l' :: rest
  | .bool true, rest => 't' :: 'r' :: 'u' :: 'e' :: rest
  | .bool false, rest => 'f' :: 'a' :: 'l' :: 's' :: 'e' :: rest
  | .num n, rest => n.chars ++ rest
  | .str text, rest => quoteText text ++ rest
  | .arr items, rest => '[' :: writeItems items (']' :: rest)
  | .obj fields, rest => '\x7b' :: writeFields fields ('\x7d' :: rest)

/-- The values of an array, with commas between them, and then `rest`. -/
def writeItems : List Json → (rest : List Char) → List Char
  | [], rest => rest
  | [v], rest => v.write rest
  | v :: more, rest => v.write (',' :: writeItems more rest)

/-- The fields of an object, with commas between them, and then `rest`. -/
def writeFields : List (Option String × Json) → (rest : List Char) → List Char
  | [], rest => rest
  | [(name, v)], rest => quoteText name ++ ':' :: v.write rest
  | (name, v) :: more, rest => quoteText name ++ ':' :: v.write (',' :: writeFields more rest)

end

/-- The compact text of a value. -/
def text (v : Json) : String := String.ofList (v.write [])

mutual

/-- Structural equality, with numerals compared by `sameNumber`. -/
def sameBy (sameNumber : Numeral → Numeral → Bool) : Json → Json → Bool
  | .null, .null => true
  | .bool a, .bool b => a == b
  | .num a, .num b => sameNumber a b
  | .str a, .str b => a == b
  | .arr a, .arr b => sameItemsBy sameNumber a b
  | .obj a, .obj b => sameFieldsBy sameNumber a b
  | _, _ => false

def sameItemsBy (sameNumber : Numeral → Numeral → Bool) : List Json → List Json → Bool
  | [], [] => true
  | a :: as, b :: bs => a.sameBy sameNumber b && sameItemsBy sameNumber as bs
  | _, _ => false

def sameFieldsBy (sameNumber : Numeral → Numeral → Bool) :
    List (Option String × Json) → List (Option String × Json) → Bool
  | [], [] => true
  | (m, a) :: as, (n, b) :: bs => m == n && a.sameBy sameNumber b && sameFieldsBy sameNumber as bs
  | _, _ => false

end

/-- The value of the first field of this name. -/
def field? (name : String) : Json → Option Json
  | .obj fields => (fields.find? (·.1 == some name)).map (·.2)
  | _ => none

end Json

end ScriptEngine
