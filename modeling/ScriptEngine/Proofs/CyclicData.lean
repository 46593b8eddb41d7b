import ScriptEngine.Engine
import ScriptEngine.Proofs.Heap.CopyLevels
import ScriptEngine.Proofs.Heap.TextLevels
import ScriptEngine.Tree.Builder

/-! # Cyclic data

Lists and maps may lead back to themselves: their texts are cut off there, and copies of them lead back
to themselves as well.  Structs must not.  Scripts can make a struct that stands inside itself
(`struct_inside_itself`), and then neither writing nor copying it comes to an end.  That is the only
thing that goes wrong: both end if, and only if, no struct that a value leads to stands inside itself
(`text_and_copy_end_iff`).
-/
namespace ScriptEngine
namespace Heap

/-- **Writing and copying a value end exactly if it is founded.**  The levels that they go down to are
then bounded by the numbers of structs and of lists and maps: every struct is entered once at most, and
inside of it every list and map. -/
theorem text_and_copy_end_iff (h : Heap) (v : Value) :
    ((∃ fuel s, h.text? fuel [] v = some s) ↔ v.In h.Founded) ∧
    ((∃ fuel r, copy? h fuel h {} v = some r) ↔ v.In h.Founded) ∧
    (v.In h.Founded →
      (∀ fuel, h.structs.card * (h.containers.card + 3) + h.containers.card + 1 < fuel →
        h.text? fuel [] v = some (h.text v)) ∧
      ∀ fuel, h.structs.card * (h.containers.card + 2) + h.containers.card < fuel →
        ∃ memo, copy? h fuel h {} v = some ((h.deepCopy v).1, (h.deepCopy v).2, memo)) :=
  ⟨exists_text_iff, exists_copy_iff, fun hv => ⟨fun _ hfuel => text_eq hv hfuel, fun _ hfuel =>
    copy_eq_deepCopy ∅ (fun o ho => ⟨hv o ho, nofun⟩) (by rwa [Finset.sdiff_empty])⟩⟩

/-- A list with itself and with a struct in it, whose field is a map with itself in it. -/
def tangled : Heap where
  lists := Store.push {} ⟨#[.int 1, .list 0, .handle 0], none, false⟩
  maps := Store.push {} ⟨[(.str "self", .map 0)], none, none⟩
  handles := Store.push {} (.struct ⟨"Node", [("next", .any)], [.map 0]⟩)

/-- The list has a text, so it has a copy too. -/
theorem text_and_copy_end_tangled :
    (∃ s, tangled.text? 8 [] (.list 0) = some s) ∧
      tangled.text? 11 [] (.list 0) = some (tangled.text (.list 0)) ∧
      ∃ memo, copy? tangled 7 tangled {} (.list 0) =
        some ((tangled.deepCopy (.list 0)).1, (tangled.deepCopy (.list 0)).2, memo) := by
  obtain ⟨htext, -, hlevels⟩ := text_and_copy_end_iff tangled (.list 0)
  have hsome : (tangled.text? 8 [] (.list 0)).isSome = true := by decide +kernel
  obtain ⟨s, hs⟩ := Option.isSome_iff_exists.mp hsome
  obtain ⟨htext, hcopy⟩ := hlevels (htext.mp ⟨8, s, hs⟩)
  exact ⟨⟨s, hs⟩, htext 11 (by decide +kernel), hcopy 7 (by decide +kernel)⟩

end Heap

/-! ## A struct inside itself -/

/-- The host has a type of nodes, and an engine over its scope. -/
def withNodes : Engine × EngineState :=
  let host : Scope := { types := ⟨[("Node", .struct "Node" [("next", .any)])]⟩ }
  Engine.withScope { EngineState.initial with
    heap := { scopes := Store.push {} host }
    governors := Store.push {} { limit := 0 }
    pinned := [0] } { copyScope := false, coreBuiltins := false } 0

/-- `node = new(Node)`, then `node.next = node`. -/
def linking : Block :=
  [.assignTo "node" (.newOf (.named "Node")), .assign (.member (.ident "node") "next") (.ident "node")]

/-- What is there after that script. -/
def linked : Heap :=
  (({ state := withNodes.2 } : Scheduler).run 40 (withNodes.1.execute 40 0 linking)).1.state.heap

/-- A script makes a node that is its own successor, which can neither be written nor copied. -/
theorem struct_inside_itself :
    linked.lookup? withNodes.1.scope "node" = some (.handle 0) ∧
      (∀ fuel, linked.text? fuel [] (.handle 0) = none) ∧
      ∀ fuel, Heap.copy? linked fuel linked {} (.handle 0) = none := by
  have hcontents : linked.contents (.handle 0) = [.handle 0] := by decide +kernel
  have hself : linked.Holds (.handle 0) (.handle 0) := by
    rw [Heap.Holds, hcontents]
    exact List.mem_singleton_self _
  have hunfounded : ¬ (Value.handle 0).In linked.Founded :=
    fun hf => hf _ rfl 0 .refl (.single hself)
  refine ⟨by decide +kernel, fun fuel => ?_, fun fuel => ?_⟩
  · refine Option.eq_none_iff_forall_ne_some.mpr fun s hs => hunfounded ?_
    exact Heap.exists_text_iff.mp ⟨fuel, s, hs⟩
  · refine Option.eq_none_iff_forall_ne_some.mpr fun r hr => hunfounded ?_
    exact Heap.exists_copy_iff.mp ⟨fuel, r, hr⟩

end ScriptEngine
