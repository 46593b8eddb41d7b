/-! White space. The blanks are the twenty-five code points with the Unicode property
`White_Space`; text that is read as a number or as a truth value is trimmed of them at both ends. -/
namespace ScriptEngine.Text

/-- The code points of the property `White_Space`. -/
def isBlank (c : Char) : Bool :=
  let n := c.toNat
  (9 ≤ n && n ≤ 13) || n == 0x20 || n == 0x85 || n == 0xa0 || n == 0x1680 ||
    (0x2000 ≤ n && n ≤ 0x200a) || n == 0x2028 || n == 0x2029 || n == 0x202f || n == 0x205f ||
    n == 0x3000

/-- `cs` without the blanks at its start and at its end. -/
def trimBlanks (cs : List Char) : List Char :=
  ((cs.dropWhile isBlank).reverse.dropWhile isBlank).reverse

/-- `s` without the blanks at its start and at its end. -/
def trim (s : String) : String :=
  String.ofList (trimBlanks s.toList)

/-- ASCII letters in lower case, all else as it is. -/
def lower (s : String) : String :=
  String.ofList (s.toList.map Char.toLower)

/-- `part` stands somewhere in `whole`, as a run of adjacent elements. -/
def occursIn (part : List Char) : List Char → Bool
  | [] => part.isEmpty
  | c :: rest => part.isPrefixOf (c :: rest) || occursIn part rest

end ScriptEngine.Text
