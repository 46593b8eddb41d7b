import ScriptEngine.Json.Basic
import ScriptEngine.Text.Symbol

/-! Reading JSON text. The whole text is one value between blanks; nesting is not limited here.
Bytes that are no text do no harm inside a string whose content is not looked at. -/
namespace ScriptEngine.Json

open Decimal (Numeral)
open Text (Symbols)

/-- The four blanks of JSON. -/
def isBlank (c : Char) : Bool :=
  c = ' ' || c = '\t' || c = '\n' || c = '\r'

/-- The text behind leading blanks. -/
def skipBlanks (cs : Symbols) : Symbols :=
  cs.dropWhile (·.any isBlank)

/-- What one element of a string literal stands for: a character, a 16-bit unit given by its number,
two of which may make up a character, or a byte that is part of none. -/
inductive Piece where
  | char (c : Char)
  | unit (n : Nat)
  | byte
deriving Repr, DecidableEq

/-- The value of a hexadecimal digit. -/
def hexValue? (c : Char) : Option Nat :=
  if c.isDigit then some (c.toNat - '0'.toNat)
  else if 'a' ≤ c ∧ c ≤ 'f' then some (c.toNat - 'a'.toNat + 10)
  else if 'A' ≤ c ∧ c ≤ 'F' then some (c.toNat - 'A'.toNat + 10)
  else none

/-- Four hexadecimal digits. -/
def unit? (a b c d : Option Char) : Option Nat :=
  match a.bind hexValue?, b.bind hexValue?, c.bind hexValue?, d.bind hexValue? with
  | some a, some b, some c, some d => some (((a * 16 + b) * 16 + c) * 16 + d)
  | _, _, _, _ => none

/-- The character of a one-letter escape. -/
def escape? (c : Char) : Option Char :=
  if c = '"' ∨ c = '\\' ∨ c = '/' then some c
  else if c = 'b' then some (Char.ofNat 8)
  else if c = 'f' then some (Char.ofNat 12)
  else if c = 'n' then some '\n'
  else if c = 'r' then some '\r'
  else if c = 't' then some '\t'
  else none

/-- The pieces up to the closing quote, and the text behind it. -/
def scanPieces : Symbols → Option (List Piece × Symbols)
  | [] => none
  | some '"' :: rest => some ([], rest)
  | some '\\' :: some 'u' :: a :: b :: c :: d :: rest =>
    match unit? a b c d with
    | some n => (scanPieces rest).map fun (ps, rest) => (.unit n :: ps, rest)
    | none => none
  | some '\\' :: some c :: rest =>
    match escape? c with
    | some c => (scanPieces rest).map fun (ps, rest) => (.char c :: ps, rest)
    | none => none
  | some c :: rest =>
    if c.toNat < 32 ∨ c = '\\' then none
    else (scanPieces rest).map fun (ps, rest) => (.char c :: ps, rest)
  | none :: rest => (scanPieces rest).map fun (ps, rest) => (.byte :: ps, rest)

/-- `n` is the first half of a surrogate pair. -/
def isHigh (n : Nat) : Bool := 0xd800 ≤ n && n < 0xdc00

/-- `n` is the second half of a surrogate pair. -/
def isLow (n : Nat) : Bool := 0xdc00 ≤ n && n < 0xe000

/-- The characters that pieces name, unless one is half a surrogate pair or a stray byte. -/
def assemble : List Piece → Option (List Char)
  | [] => some []
  | .char c :: rest => (assemble rest).map (c :: ·)
  | .unit high :: .unit low :: rest =>
    if isHigh high then
      if isLow low then
        (assemble rest).map
          (Char.ofNat (0x10000 + (high - 0xd800) * 0x400 + (low - 0xdc00)) :: ·)
      else none
    else if isLow high then none
    else (assemble (.unit low :: rest)).map (Char.ofNat high :: ·)
  | .unit n :: rest =>
    if isHigh n || isLow n then none else (assemble rest).map (Char.ofNat n :: ·)
  | .byte :: _ => none

/-- A string literal behind its opening quote. -/
def scanString (cs : Symbols) : Option (Option String × Symbols) :=
  (scanPieces cs).map fun (ps, rest) => ((assemble ps).map String.ofList, rest)

/-- The leading decimal digits, and the text behind them. -/
def spanDigits : Symbols → List Char × Symbols
  | some c :: rest =>
    if c.isDigit then
      let (digits, rest) := spanDigits rest
      (c :: digits, rest)
    else ([], some c :: rest)
  | rest => ([], rest)

/-- Digits behind a point. -/
def scanFraction : Symbols → Option (Option (List Char) × Symbols)
  | some '.' :: cs =>
    let (digits, cs) := spanDigits cs
    if digits.isEmpty then none else some (some digits, cs)
  | cs => some (none, cs)

/-- A sign and digits behind `e`. -/
def scanExponent : Symbols → Option (Option (List Char) × Symbols)
  | some c :: cs =>
    if c = 'e' ∨ c = 'E' then
      let (sign, cs) :=
        match cs with
        | some '+' :: cs => (['+'], cs)
        | some '-' :: cs => (['-'], cs)
        | cs => ([], cs)
      let (digits, cs) := spanDigits cs
      if digits.isEmpty then none else some (some (sign ++ digits), cs)
    else some (none, some c :: cs)
  | cs => some (none, cs)

/-- A numeral: no leading zeros, and digits on both sides of a point. -/
def scanNumeral (cs : Symbols) : Option (Numeral × Symbols) :=
  let (negative, cs) :=
    match cs with
    | some '-' :: cs => (true, cs)
    | cs => (false, cs)
  let (whole, cs) := spanDigits cs
  if whole.isEmpty || (whole.head? == some '0' && whole.length != 1) then none
  else
    match scanFraction cs with
    | none => none
    | some (fraction, cs) =>
      (scanExponent cs).map fun (exponent, cs) => (⟨negative, whole, fraction, exponent⟩, cs)

/-- The rest of `cs` behind `word`. -/
def expect (word : String) (cs : Symbols) : Option Symbols :=
  let word := Text.symbols word
  if word.isPrefixOf cs then some (cs.drop word.length) else none

mutual

/-- One value, with the text behind it. -/
def scanValue : (fuel : Nat) → Symbols → Option (Json × Symbols)
  | 0, _ => none
  | fuel + 1, cs =>
    match skipBlanks cs with
    | [] => none
    | some '"' :: rest => (scanString rest).map fun (text, rest) => (.str text, rest)
    | some '[' :: rest =>
      match skipBlanks rest with
      | some ']' :: rest => some (.arr [], rest)
      | rest => (scanItems fuel rest).map fun (items, rest) => (.arr items, rest)
    | some '\x7b' :: rest =>
      match skipBlanks rest with
      | some '\x7d' :: rest => some (.obj [], rest)
      | rest => (scanFields fuel rest).map fun (fields, rest) => (.obj fields, rest)
    | some 'n' :: rest => (expect "ull" rest).map fun rest => (.null, rest)
    | some 't' :: rest => (expect "rue" rest).map fun rest => (.bool true, rest)
    | some 'f' :: rest => (expect "alse" rest).map fun rest => (.bool false, rest)
    | cs => (scanNumeral cs).map fun (n, rest) => (.num n, rest)

/-- Values with commas between them, up to the closing bracket. -/
def scanItems : (fuel : Nat) → Symbols → Option (List Json × Symbols)
  | 0, _ => none
  | fuel + 1, cs =>
    match scanValue fuel cs with
    | none => none
    | some (v, rest) =>
      match skipBlanks rest with
      | some ',' :: rest => (scanItems fuel rest).map fun (vs, rest) => (v :: vs, rest)
      | some ']' :: rest => some ([v], rest)
      | _ => none

/-- Fields with commas between them, up to the closing brace. -/
def scanFields : (fuel : Nat) → Symbols → Option (List (Option String × Json) × Symbols)
  | 0, _ => none
  | fuel + 1, cs =>
    match skipBlanks cs with
    | some '"' :: rest =>
      match scanString rest with
      | none => none
      | some (name, rest) =>
        match skipBlanks rest with
        | some ':' :: rest =>
          match scanValue fuel rest with
          | none => none
          | some (v, rest) =>
            match skipBlanks rest with
            | some ',' :: rest =>
              (scanFields fuel rest).map fun (fs, rest) => ((name, v) :: fs, rest)
            | some '\x7d' :: rest => some ([(name, v)], rest)
            | _ => none
        | _ => none
    | _ => none

end

/-- The value that is written. Every value takes a symbol and every separator too, so twice the
length is more than the reader can use up. -/
def ofSymbols? (cs : Symbols) : Option Json :=
  match scanValue (2 * cs.length + 1) cs with
  | some (v, rest) => if (skipBlanks rest).isEmpty then some v else none
  | none => none

/-- The value that a text writes. -/
def parse? (s : String) : Option Json := ofSymbols? (Text.symbols s)

end ScriptEngine.Json
