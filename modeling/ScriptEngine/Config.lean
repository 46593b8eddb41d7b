import ScriptEngine.Json.Reader
import ScriptEngine.Tree.Decoding

/-! Settings of an engine. Every setting has a default, so an empty object is a complete
configuration; as a record it may also be written as an array of its settings in order. -/
namespace ScriptEngine

/-- How many scopes may be alive at a time unless configured otherwise. -/
def defaultMaxScopes : Nat := 1000

/-- How many elements one operation may produce unless configured otherwise. -/
def defaultMaxElements : Nat := 10000000

/-- Settings of an engine. -/
structure Config where
  /-- Cycles per window of time; 0 means no limit. -/
  rateLimit : Nat := 0
  /-- Length of the window in milliseconds. -/
  rateWindow : Nat := 1000
  /-- Work on a deep copy of a scope given by the host. -/
  copyScope : Bool := true
  /-- Deep-copy maps that the host hands over. -/
  protectMaps : Bool := true
  /-- Live scopes at a time; 0 means no ceiling. -/
  maxScopes : Nat := defaultMaxScopes
  /-- Elements that `range`, `make` and repetition may produce; 0 means no ceiling. -/
  maxElements : Nat := defaultMaxElements
  /-- Bind the core functions in the root scope. -/
  coreBuiltins : Bool := true
deriving Repr, DecidableEq

namespace Config

/-- A setting that is read if it is given. -/
def setting {α : Type} (read : Json → Option α) (default : α) : Option Json → Option α
  | none => some default
  | some v => read v

/-- The names of the settings, in order. -/
def names : List String :=
  ["rate_limit", "rate_window", "copy_scope", "protect_maps", "max_scopes", "max_elements",
    "core_builtins"]

/-- The configuration that `v` describes. -/
def ofJson? (v : Json) : Option Config := do
  let base : Config := {}
  match ← Decode.record names names.length v with
  | [rateLimit, rateWindow, copyScope, protectMaps, maxScopes, maxElements, coreBuiltins] =>
    return {
      rateLimit := ← setting (Decode.unsigned 64 1) base.rateLimit rateLimit
      rateWindow := ← setting (Decode.unsigned 64 1) base.rateWindow rateWindow
      copyScope := ← setting (Decode.bool 1) base.copyScope copyScope
      protectMaps := ← setting (Decode.bool 1) base.protectMaps protectMaps
      maxScopes := ← setting (Decode.unsigned 64 1) base.maxScopes maxScopes
      maxElements := ← setting (Decode.unsigned 64 1) base.maxElements maxElements
      coreBuiltins := ← setting (Decode.bool 1) base.coreBuiltins coreBuiltins }
  | _ => none

/-- The configuration that a text describes. -/
def parse? (text : String) : Option Config := (Json.parse? text).bind ofJson?

/-- All settings, in order. -/
def toJson (c : Config) : Json :=
  .object [("rate_limit", .nat c.rateLimit), ("rate_window", .nat c.rateWindow),
    ("copy_scope", .bool c.copyScope), ("protect_maps", .bool c.protectMaps),
    ("max_scopes", .nat c.maxScopes), ("max_elements", .nat c.maxElements),
    ("core_builtins", .bool c.coreBuiltins)]

/-- The same settings with this rate limit. -/
def withRateLimit (c : Config) (limit window : Nat) : Config :=
  { c with rateLimit := limit, rateWindow := window }

/-- The same settings with this ceiling on live scopes. -/
def withMaxScopes (c : Config) (n : Nat) : Config := { c with maxScopes := n }

/-- The same settings with this ceiling on produced elements. -/
def withMaxElements (c : Config) (n : Nat) : Config := { c with maxElements := n }

end Config

end ScriptEngine
