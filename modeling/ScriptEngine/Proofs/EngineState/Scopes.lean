import ScriptEngine.EngineState.Collect

/-! # What becomes of scopes

A scope takes a slot when it is opened inside another one, it may be captured, and its slot is given
back when it is taken out of the heap. -/
namespace ScriptEngine

namespace EngineState

/-! ## Opening -/

/-- The state in which a slot is looked for: where slots are scarce, garbage has been collected. -/
def tidied (s : EngineState) (governor : GovernorId) : EngineState :=
  if isTight (s.governor governor) then s.collect else s

/-- The state with a new scope inside this one, which has taken a slot. -/
def opened (s : EngineState) (governor : GovernorId) (parent : ScopeId) : EngineState :=
  { s with
    governors := s.governors.modify governor (·.acquire)
    heap := { s.heap with
      scopes := s.heap.scopes.push { parent := some parent, governor, counted := true } } }

/-- **A scope is opened if and only if there is a slot**, and otherwise nothing has happened but that
garbage may have been collected. -/
theorem addChild_eq {s s₁ : EngineState} {parent : ScopeId} {governor : GovernorId}
    (hgovernor : (s.heap.scope parent).governor = governor) (htidied : s.tidied governor = s₁) :
    s.addChild parent =
      if (s₁.governor governor).isFull then
        (.error (.fault (.scopeLimit (s₁.governor governor).limit)), s₁)
      else (.ok s₁.heap.scopes.next, s₁.opened governor parent) := by
  subst hgovernor htidied
  unfold addChild acquire
  simp only [tidied]
  by_cases hfull : (Governor.isFull ((s.tidied (s.heap.scope parent).governor).governor
      (s.heap.scope parent).governor)) = true
  · rw [tidied] at hfull
    simp only [hfull, if_true]
  · rw [tidied] at hfull
    simp only [hfull, if_false, Bool.false_eq_true]
    rfl

/-- What happened where no scope was opened. -/
theorem addChild_error {s : EngineState} {parent : ScopeId} {e : Failure}
    (he : (s.addChild parent).1 = .error e) : ∃ limit, e = .fault (.scopeLimit limit) := by
  rw [addChild_eq rfl rfl] at he
  split at he
  · cases he
    exact ⟨_, rfl⟩
  · cases he

end EngineState
end ScriptEngine
