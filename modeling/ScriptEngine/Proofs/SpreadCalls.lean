import ScriptEngine.Proofs.Heap.Binding

/-! # Spread calls bind like written ones

The arguments of a call are those that are written and, behind them, the items of a sequence that is spread
(`Heap.LaysOut`).  Binding cuts this list in two behind the fixed arguments, or takes it whole: the parts put
together are the list again (`Heap.bindDiscrete_eq_ok`), so no argument is lost and none comes twice.

Where the sequence begins is of no account, with one exception: a variadic function takes a spread sequence
for the rest, so exactly the fixed arguments have to stand before it.  `spread_binds_like_written` says this
of any function, of a script or of the host.
-/
namespace ScriptEngine.Heap
variable {h : Heap} {name : String} {count : Nat} {variadic spread : Bool}
  {args written items first : List Value} {rest : Option (List Value)} {e : Failure}

/-- The fault of a call with so many arguments where this many are expected. -/
def miscount (name : String) (count : Nat) (variadic : Bool) (received : Nat) : Fault :=
  .argumentCount name (if variadic then "at least " ++ toString count else toString count) received

/-! ## Arguments that are all written -/

/-- **Written arguments are cut behind the fixed ones**, and there has to be a rest for variadic functions
alone. -/
theorem bindDiscrete_eq_ok :
    bindDiscrete name count variadic args = .ok (first, rest) ↔
      first.length = count ∧ rest.isSome = variadic ∧ first ++ rest.getD [] = args := by
  unfold bindDiscrete
  constructor
  · intro hb
    cases variadic with
    | true =>
      rw [if_pos rfl] at hb
      split at hb
      · cases hb
      · rename_i henough
        cases hb
        exact ⟨List.length_take_of_le (Nat.le_of_not_lt henough), rfl, List.take_append_drop ..⟩
    | false =>
      rw [if_neg Bool.false_ne_true] at hb
      split at hb
      · rename_i hcount
        cases hb
        exact ⟨hcount, rfl, List.append_nil _⟩
      · cases hb
  · rintro ⟨rfl, rfl, rfl⟩
    cases rest with
    | none => simp
    | some rest =>
      have henough : ¬ first.length + rest.length < first.length := by omega
      simp [henough]

/-- Written arguments do not bind exactly if there are too few, or for other than variadic functions too
many. -/
theorem bindDiscrete_eq_error :
    bindDiscrete name count variadic args = .error e ↔
      (if variadic then args.length < count else args.length ≠ count) ∧
        e = .fault (miscount name count variadic args.length) := by
  unfold bindDiscrete miscount wrongCount
  cases variadic with
  | true =>
    simp only [if_true]
    split
    · rename_i hfew
      exact ⟨fun he => ⟨hfew, (Except.error.inj he).symm⟩, fun he => congrArg _ he.2.symm⟩
    · rename_i henough
      exact iff_of_false nofun fun he => henough he.1
  | false =>
    simp only [Bool.false_eq_true, if_false]
    split
    · rename_i hcount
      exact iff_of_false nofun fun he => he.1 hcount
    · rename_i hcount
      exact ⟨fun he => ⟨hcount, (Except.error.inj he).symm⟩, fun he => congrArg _ he.2.symm⟩

/-! ## Arguments of which the last is spread -/

/-- **A spread sequence stands for its items**, wherever it begins, unless it is to be the rest of a variadic
function and begins elsewhere. -/
theorem bindArguments_spread (hargs : h.LaysOut args true written (some items)) :
    h.bindArguments name count variadic args true =
      if variadic = false ∨ written.length = count then
        bindDiscrete name count variadic (written ++ items)
      else .error (.fault (.argumentCount name (toString count) written.length)) := by
  rw [bindArguments_eq hargs]
  cases variadic with
  | false => rfl
  | true =>
    simp only [if_true, Bool.true_eq_false, false_or]
    split
    · rename_i hcount
      exact (bindDiscrete_eq_ok.mpr ⟨hcount, rfl, rfl⟩).symm
    · rfl

/-- Only what is laid out binds. -/
theorem exists_laysOut_of_bindArguments
    (hb : h.bindArguments name count variadic args spread = .ok (first, rest)) :
    ∃ written items, h.LaysOut args spread written items := by
  obtain hargs | ⟨rfl, rfl | ⟨written, last, rfl, hlist, hnil⟩⟩ := laysOut_cases h args spread
  · exact hargs
  · cases hb
  · simp only [bindArguments, if_true, List.getLast?_concat, spreadItems_of_noSequence hlist hnil] at hb
    cases hb

/-- **Binding loses no argument and gives none twice.**  The fixed arguments are as many as wanted, there is
a rest for variadic functions alone, and one behind the other they are what is written with what is spread
behind it. -/
theorem bindArguments_parts
    (hb : h.bindArguments name count variadic args spread = .ok (first, rest)) :
    first.length = count ∧ rest.isSome = variadic ∧ ∃ written items,
      h.LaysOut args spread written items ∧ first ++ rest.getD [] = written ++ items.getD [] := by
  obtain ⟨written, items, hargs⟩ := exists_laysOut_of_bindArguments hb
  suffices hparts : bindDiscrete name count variadic (written ++ items.getD []) = .ok (first, rest) by
    obtain ⟨hcount, hrest, hall⟩ := bindDiscrete_eq_ok.mp hparts
    exact ⟨hcount, hrest, written, items, hargs, hall⟩
  cases items with
  | none =>
    rw [bindArguments_eq hargs] at hb
    rwa [Option.getD_none, List.append_nil]
  | some items =>
    cases hspread : spread with
    | false =>
      subst hspread
      cases hargs
    | true =>
      subst hspread
      rw [bindArguments_spread hargs] at hb
      split at hb
      · exact hb
      · cases hb

/-- **A spread call binds like the call in which the items are written**, for every function.  What binds is
cut into as many fixed arguments as wanted and, for variadic functions alone, the rest, and nothing is lost
or given twice.  A spread sequence may be written out instead, with the same outcome, unless the function is
variadic and other than the fixed arguments stand before the sequence: then the number of these is at fault.
Written arguments do not bind exactly if there are too few, or too many for a function that is not
variadic. -/
theorem spread_binds_like_written (h : Heap) (name : String) (count : Nat) (variadic : Bool) :
    (∀ args spread first rest,
      h.bindArguments name count variadic args spread = .ok (first, rest) →
        first.length = count ∧ rest.isSome = variadic ∧ ∃ written items,
          h.LaysOut args spread written items ∧ first ++ rest.getD [] = written ++ items.getD []) ∧
    (∀ args written items, h.LaysOut args true written (some items) →
      (variadic = false ∨ written.length = count →
        h.bindArguments name count variadic args true =
          h.bindArguments name count variadic (written ++ items) false) ∧
      (¬ (variadic = false ∨ written.length = count) →
        h.bindArguments name count variadic args true =
          .error (.fault (.argumentCount name (toString count) written.length)))) ∧
    (∀ args e, h.bindArguments name count variadic args false = .error e ↔
      (if variadic then args.length < count else args.length ≠ count) ∧
        e = .fault (miscount name count variadic args.length)) := by
  refine ⟨fun args spread first rest hb => bindArguments_parts hb,
    fun args written items hargs => ?_, fun args e => bindDiscrete_eq_error⟩
  rw [bindArguments_spread hargs]
  exact ⟨fun hfits => if_pos hfits, fun hunfit => if_neg hunfit⟩

/-- A heap with one list, of two texts. -/
def withWords : Heap where
  lists := Store.push {} ⟨#[.str "b", .str "c"], none, false⟩

/-- The list is spread behind one argument.  This is like three arguments for a function of three, and for a
variadic one with one fixed argument, but not for one with two. -/
theorem spread_binds_like_written_words :
    withWords.LaysOut [.str "a", .list 0] true [.str "a"] (some [.str "b", .str "c"]) ∧
    withWords.bindArguments "f" 3 false [.str "a", .list 0] true =
      withWords.bindArguments "f" 3 false [.str "a", .str "b", .str "c"] false ∧
    withWords.bindArguments "f" 1 true [.str "a", .list 0] true =
      withWords.bindArguments "f" 1 true [.str "a", .str "b", .str "c"] false ∧
    withWords.bindArguments "f" 2 true [.str "a", .list 0] true =
      .error (.fault (.argumentCount "f" "2" 1)) ∧
    withWords.bindArguments "f" 2 true [.str "a"] false =
      .error (.fault (.argumentCount "f" "at least 2" 1)) := by
  have hargs : withWords.LaysOut ([.str "a"] ++ [.list 0]) true [.str "a"]
      (some [.str "b", .str "c"]) := .list
  obtain ⟨-, hthree, -⟩ := spread_binds_like_written withWords "f" 3 false
  obtain ⟨-, hone, -⟩ := spread_binds_like_written withWords "f" 1 true
  obtain ⟨-, htwo, hfew⟩ := spread_binds_like_written withWords "f" 2 true
  refine ⟨hargs, (hthree _ _ _ hargs).1 (.inl rfl), (hone _ _ _ hargs).1 (.inr rfl),
    (htwo _ _ _ hargs).2 (by decide), ?_⟩
  exact (hfew [.str "a"] _).mpr ⟨by decide, rfl⟩

end ScriptEngine.Heap
