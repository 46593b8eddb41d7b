import ScriptEngine.Bytecode
import ScriptEngine.Proofs.Tree.Loading
import ScriptEngine.Tree.Builder

/-! # Stored scripts

A stored script is a header and the JSON text of the tree.  The header that is written is the one that
is looked for, and the body behind it is taken out byte for byte, so what comes back is settled by
`Block.loads`: the same tree, or none.

Main statement: `lossless`.
-/
namespace ScriptEngine

/-- The bytes of a text are read as its characters. -/
theorem Text.symbolsOfBytes_toUTF8 (s : String) : symbolsOfBytes s.toUTF8 = symbols s := by
  have hvalid : String.fromUTF8? s.toUTF8 = some s := dif_pos s.isValidUTF8
  rw [symbolsOfBytes, hvalid]

namespace Bytecode

/-! ## The header -/

/-- What stands in front of the body. -/
theorem encode_eq (script : Block) : encode script =
    magic ++ (ByteArray.mk #[version] ++ (bodyText script).toUTF8) :=
  ByteArray.append_assoc

theorem size_encode (script : Block) :
    (encode script).size = magic.size + 1 + (bodyText script).toUTF8.size := by
  simp only [encode, ByteArray.size_append]
  rfl

/-- A stored script is known as one. -/
theorem isBytecode_encode (script : Block) : isBytecode (encode script) = true := by
  have hsize : magic.size < (encode script).size := by
    rw [size_encode]
    omega
  have hmagic : (encode script).extract 0 magic.size = magic := by
    rw [encode_eq]
    exact ByteArray.extract_append_eq_left rfl
  have hsame : (magic == magic) = true := by decide
  simp [isBytecode, hsize, hmagic, hsame]

/-- The version that is found is the one that was written. -/
theorem version_encode (script : Block) : (encode script).get! magic.size = version := by
  have hsize : magic.size < (encode script).size := by
    rw [size_encode]
    omega
  have hget : (encode script).get! magic.size = (encode script)[magic.size] := by
    show (encode script).data[magic.size]! = _
    exact getElem!_pos (encode script).data magic.size hsize
  rw [hget]
  simp only [encode_eq]
  rw [ByteArray.getElem_append_right (Nat.le_refl _)]
  simp only [Nat.sub_self]
  exact ByteArray.getElem_append_left (by decide)

/-- The body is taken out as it was put in. -/
theorem body_encode (script : Block) :
    (encode script).extract (magic.size + 1) (encode script).size = (bodyText script).toUTF8 :=
  ByteArray.extract_append_eq_right rfl (size_encode script)

/-- So a stored script is read from its text, and is malformed if its text cannot be read. -/
theorem decode_encode (script : Block) : decode (encode script) =
    match Json.parse? (bodyText script) >>= Block.ofJson? maxLevels with
    | some script => .ok script
    | none => .error .malformed := by
  simp only [decode, isBytecode_encode, version_encode, body_encode, decodeBody?,
    Text.symbolsOfBytes_toUTF8, Bool.not_true, bne_self_eq_false, Bool.false_eq_true, if_false]
  rfl

/-! ## The body -/

/-- **Storing a script is lossless exactly where it can be**, provided that each finite float written
in the script is read back from its own text.  What is stored is a stored script.  It is read as the
same tree if and only if every float in it is finite and its text is nested no deeper than 127 arrays
and objects; otherwise it is malformed, and no other tree is read. -/
theorem lossless (script : Block) (hfloats : Decode.AllReadBack script.floats) :
    isBytecode (encode script) = true ∧
    (decode (encode script) = .ok script ↔
      (∀ x ∈ script.floats, x.isFinite = true) ∧ script.toJson.depth ≤ 127) ∧
    (decode (encode script) ≠ .ok script → decode (encode script) = .error .malformed) := by
  have hparse : Json.parse? (bodyText script) = some script.toJson :=
    Json.parse?_text (script.loads.legible hfloats)
  have hreads := script.loads.reads hfloats maxLevels
  have hdecode : decode (encode script) = match Block.ofJson? maxLevels script.toJson with
      | some script => .ok script
      | none => .error .malformed := by
    rw [decode_encode, hparse]
    rfl
  refine ⟨isBytecode_encode script, ?_⟩
  cases hread : Block.ofJson? maxLevels script.toJson with
  | none =>
    rw [hread] at hdecode
    -- Were the script one of those that are kept, it would have been read.
    have hlost : ¬(Decode.AllFinite script.floats ∧ script.toJson.depth ≤ maxLevels) := by
      intro hkept
      have := (hreads script).mpr ⟨rfl, hkept⟩
      rw [hread] at this
      cases this
    rw [hdecode]
    refine ⟨⟨fun h => (by cases h), fun h => absurd h hlost⟩, fun _ => rfl⟩
  | some found =>
    rw [hread] at hdecode
    obtain ⟨rfl, hkept⟩ := (hreads found).mp hread
    rw [hdecode]
    exact ⟨⟨fun _ => hkept, fun _ => rfl⟩, fun h => absurd rfl h⟩

/-- `func f(x) { return x + 0.5 }`. -/
def addHalf : Block :=
  [.func "f" ["x"] [.ret (.binary .add (.ident "x") (.float ⟨0x3fe0000000000000⟩))]]

/-- The float in `addHalf` is finite and reads back from `0.5`, so the script is kept. -/
theorem lossless_addHalf : Decode.AllReadBack addHalf.floats ∧
    decode (encode addHalf) = .ok addHalf := by
  have hfloats : addHalf.floats = [⟨0x3fe0000000000000⟩] := rfl
  have hback : Decode.AllReadBack addHalf.floats := by
    intro x hx _
    rw [hfloats, List.mem_singleton] at hx
    rw [hx]
    rfl
  have hfinite : ∀ x ∈ addHalf.floats, x.isFinite = true := by
    rw [hfloats]
    decide
  exact ⟨hback, (lossless addHalf hback).2.1.mpr ⟨hfinite, by decide⟩⟩

end Bytecode

end ScriptEngine
