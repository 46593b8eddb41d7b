import ScriptEngine.Text.CodePoint

/-! Quoted text as it appears in the description of host structs and handles: quotes and backslashes
are escaped, the common control characters by a letter, and every character that shows nothing of
its own by its number. -/
namespace ScriptEngine.Text

/-- The hexadecimal digits of `n`, in lower case. -/
def hexChars (n : Nat) : List Char := Nat.toDigits 16 n

/-- One character between quotes. -/
def quoteChar (c : Char) : List Char :=
  if c = '"' then ['\\', '"']
  else if c = '\\' then ['\\', '\\']
  else if c = '\t' then ['\\', 't']
  else if c = '\n' then ['\\', 'n']
  else if c = '\r' then ['\\', 'r']
  else if c.toNat = 0 then ['\\', '0']
  else if isVisible c then [c]
  else ['\\', 'u', '\x7b'] ++ hexChars c.toNat ++ ['\x7d']

/-- `s` between quotes. -/
def quoted (s : String) : String :=
  String.ofList ('"' :: s.toList.flatMap quoteChar ++ ['"'])

end ScriptEngine.Text
