import ScriptEngine.Json.Reader
import ScriptEngine.Tree.Encoding
import ScriptEngine.Tree.Decoding

/-! The stored form of a script: four magic bytes, a version byte, and the tree as JSON text. -/
namespace ScriptEngine.Bytecode

/-- The bytes every stored script starts with. -/
def magic : ByteArray := "RVSB".toUTF8

/-- The only version there is. -/
def version : UInt8 := 1

/-- How deep the JSON text of a stored script may be nested. -/
def maxLevels : Nat := 127

/-- Why bytes are no stored script. -/
inductive DecodeError where
  | missingHeader
  | unsupportedVersion (version : UInt8)
  | malformed
deriving Repr, DecidableEq

/-- The name of the kind of an error. -/
def DecodeError.kind : DecodeError → String
  | .missingHeader => "MissingHeader"
  | .unsupportedVersion _ => "UnsupportedVersion"
  | .malformed => "Malformed"

/-- The message of an error; what exactly is wrong with a malformed body is not told. -/
def DecodeError.message : DecodeError → String
  | .missingHeader => "missing bytecode header"
  | .unsupportedVersion v => "unsupported bytecode version " ++ toString v.toNat
  | .malformed => "malformed bytecode body"

/-- The bytes start with the magic ones and are long enough to hold a version. -/
def isBytecode (bytes : ByteArray) : Bool :=
  magic.size < bytes.size && bytes.extract 0 magic.size == magic

/-- The text of a script's tree. -/
def bodyText (script : Block) : String := script.toJson.text

/-- The stored form of a script. -/
def encode (script : Block) : ByteArray :=
  magic ++ ByteArray.mk #[version] ++ (bodyText script).toUTF8

/-- The script in the body of a stored form. -/
def decodeBody? (bytes : ByteArray) : Option Block := do
  let json ← Json.ofSymbols? (Text.symbolsOfBytes bytes)
  Block.ofJson? maxLevels json

/-- The script a stored form holds. -/
def decode (bytes : ByteArray) : Except DecodeError Block :=
  if !isBytecode bytes then .error .missingHeader
  else
    let found := bytes.get! magic.size
    if found != version then .error (.unsupportedVersion found)
    else
      match decodeBody? (bytes.extract (magic.size + 1) bytes.size) with
      | some script => .ok script
      | none => .error .malformed

/-- Two trees with the same parts. A number is known by the numeral it is written with, except that
the two zeros are equal. -/
def sameTree (a b : Block) : Bool :=
  a.toJson.sameBy (fun m n => m == n || (m.isZero && n.isZero)) b.toJson

end ScriptEngine.Bytecode
