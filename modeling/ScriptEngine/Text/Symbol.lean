/-! Bytes as symbols. Bytes that claim to be text need not be, and a reader that skips a part of
them does not care. So each byte that is part of no character becomes a symbol of its own. -/
namespace ScriptEngine.Text

/-- Text to be read: its characters, and `none` for each byte that is part of no character. -/
abbrev Symbols := List (Option Char)

/-- The symbols of a text. -/
def symbols (s : String) : Symbols := s.toList.map some

/-- The symbols of the bytes from position `i` on. -/
def symbolsFrom (bytes : ByteArray) (i : Nat) : Symbols :=
  if i < bytes.size then
    match bytes.utf8DecodeChar? i with
    | some c => some c :: symbolsFrom bytes (i + c.utf8Size)
    | none => none :: symbolsFrom bytes (i + 1)
  else []
termination_by bytes.size - i
decreasing_by
  · have := c.utf8Size_pos
    omega
  · omega

/-- The symbols of bytes: those of the text they are, if they are one. -/
def symbolsOfBytes (bytes : ByteArray) : Symbols :=
  match String.fromUTF8? bytes with
  | some s => symbols s
  | none => symbolsFrom bytes 0

end ScriptEngine.Text
