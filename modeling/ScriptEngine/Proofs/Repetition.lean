import ScriptEngine.Evaluator.Expression
import ScriptEngine.Proofs.Task.Attaining

/-! # Repeated texts

A text is repeated in two ways.  As an operation on values it is written at once, under a fixed ceiling on
its characters.  In a run it is written in stretches, with a pulse between two, under the ceiling of the run;
other tasks may have their turns meanwhile.  Both are the same number of copies of the text
(`Heap.repeated_eq`, `Eval.gives_repeatStretches`).

`repetition_agrees` says that under the ceiling that runs have by default the two ways agree on every text
and every count: on whether there is a result, and on what it is.
-/
namespace ScriptEngine

/-- So many copies of a text, one behind the other. -/
def Text.copies (text : String) (n : Nat) : String := String.join (List.replicate n text)

namespace Text

theorem copies_add (text : String) (m n : Nat) : copies text (m + n) = copies text m ++ copies text n := by
  rw [copies, List.replicate_add, String.join_append]
  rfl

/-- Nothing, however often, is nothing. -/
theorem copies_of_length_eq_zero {text : String} {n : Nat} (hlength : text.length * n = 0) :
    copies text n = "" := by
  rw [← String.length_eq_zero_iff, copies, String.length_join, List.map_replicate,
    List.sum_replicate_nat, Nat.mul_comm]
  exact hlength

/-- Adding the text again and again adds copies of it. -/
theorem repeat_append (text written : String) (n : Nat) :
    n.repeat (· ++ text) written = written ++ copies text n := by
  induction n with
  | zero => exact String.append_empty.symm
  | succ n ih =>
    have hone : copies text 1 = text := by
      rw [copies, List.replicate_one, String.join_cons, String.join_nil, String.append_empty]
    show n.repeat (· ++ text) written ++ text = _
    rw [ih, copies_add, hone, String.append_assoc]

end Text

namespace Heap
variable {h : Heap} {left right : Value} {text : String} {count : Int64}

/-- The operands are a text and a count, in one order or the other. -/
def AskToRepeat (left right : Value) (text : String) (count : Int64) : Prop :=
  left = .str text ∧ right = .int count ∨ left = .int count ∧ right = .str text

/-- The text can be repeated so often: the count is not negative, and the result does not have too many
characters. -/
def Repeatable (text : String) (count : Int64) : Prop :=
  0 ≤ count.toInt ∧ text.length * count.toInt ≤ defaultMaxElements

theorem repeatOperands_eq (hops : AskToRepeat left right text count) :
    repeatOperands .mul left right = some (text, count) := by
  rcases hops with ⟨rfl, rfl⟩ | ⟨rfl, rfl⟩ <;> rfl

theorem repeated_eq (text : String) (n : Nat) : repeated text n = Text.copies text n := by
  unfold repeated
  split
  · rename_i hempty
    rw [String.isEmpty_iff] at hempty
    rw [Text.copies_of_length_eq_zero (by rw [hempty, String.length_empty, Nat.zero_mul])]
  · rw [Text.repeat_append, String.empty_append]

/-! ## The characters of the result -/

theorem length_mul_le_of_repeatable (hfits : Repeatable text count) :
    text.length * count.toInt.toNat ≤ defaultMaxElements := by
  obtain ⟨hsign, hlength⟩ := hfits
  rw [← Int.toNat_of_nonneg hsign] at hlength
  exact_mod_cast hlength

/-- What is within the ceiling is counted. -/
theorem repeatLength_of_repeatable (hfits : Repeatable text count) :
    repeatLength text count = .ok (text.length * count.toInt.toNat) := by
  have hlength : text.length * count.toInt.toNat < UInt64.size :=
    Nat.lt_of_le_of_lt (length_mul_le_of_repeatable hfits) (by decide)
  rw [repeatLength, if_neg (Int.not_lt.mpr hfits.1)]
  exact if_pos hlength

/-- **What is beyond the ceiling is told**: it cannot be counted, or is counted and found too long. -/
theorem repeatLength_of_not_repeatable (hlong : ¬ Repeatable text count) :
    (∃ message, repeatLength text count = invalid message) ∨
      ∃ length, repeatLength text count = .ok length ∧ defaultMaxElements < length := by
  unfold repeatLength
  split
  · exact .inl ⟨_, rfl⟩
  · rename_i hsign
    simp only
    split
    · refine .inr ⟨_, rfl, Nat.lt_of_not_le fun hlength => hlong ⟨Int.not_lt.mp hsign, ?_⟩⟩
      rw [← Int.toNat_of_nonneg (Int.not_lt.mp hsign)]
      exact_mod_cast hlength
    · exact .inl ⟨_, rfl⟩

/-! ## Repeating at once -/

theorem binary_mul_eq (hops : AskToRepeat left right text count) :
    h.binary .mul left right =
      ((repeatLength text count >>= fun length =>
        if defaultMaxElements < length then invalid "string repeat result too large"
        else pure (Value.str (repeated text count.toInt.toNat))) >>= fun v => pure (v, h)) := by
  simp only [binary, scalarOp, repeatOperands_eq hops]
  cases repeatLength text count with
  | error e => rfl
  | ok length =>
    show ((if _ then _ else _) >>= _) = ((if _ then _ else _) >>= _)
    split <;> rfl

theorem binary_mul_of_repeatable (hops : AskToRepeat left right text count)
    (hfits : Repeatable text count) :
    h.binary .mul left right = .ok (.str (Text.copies text count.toInt.toNat), h) := by
  rw [binary_mul_eq hops, repeatLength_of_repeatable hfits, ← repeated_eq]
  have hlength := Nat.not_lt.mpr (length_mul_le_of_repeatable hfits)
  show ((if _ then _ else _) >>= _) = _
  rw [if_neg hlength]
  rfl

theorem binary_mul_of_not_repeatable (hops : AskToRepeat left right text count)
    (hlong : ¬ Repeatable text count) : ∃ message, h.binary .mul left right = invalid message := by
  rw [binary_mul_eq hops]
  obtain ⟨message, hm⟩ | ⟨length, hl, hlength⟩ := repeatLength_of_not_repeatable hlong
  · exact ⟨message, by rw [hm]; rfl⟩
  · refine ⟨"string repeat result too large", ?_⟩
    rw [hl]
    show ((if _ then _ else _) >>= _) = _
    rw [if_pos hlength]
    rfl

end Heap

/-! ## Repeating in a run -/

namespace Eval
variable {run : RunId} {signal : SignalId} {s : EngineState} {left right : Value} {text : String}
  {count : Int64}

/-- **The copies that are missing are written**, with a pulse before each stretch that is not the first. -/
theorem gives_repeatStretches (text written : String) (stretches missing : Nat)
    (hs : s.GoesOn run signal) (hmissing : missing ≤ stretches * turnInterval) :
    Gives run signal (· = written ++ Text.copies text missing)
      (repeatStretches run text stretches missing written s) := by
  induction stretches generalizing missing written s with
  | zero =>
    obtain rfl : missing = 0 := by omega
    exact gives_done hs String.append_empty.symm
  | succ stretches ih =>
    -- The rest is the same whether or not there was a pulse.
    have hrest {t : EngineState} (ht : t.GoesOn run signal) :
        Gives run signal (· = written ++ Text.copies text missing)
          (repeatStretches run text stretches (missing - min turnInterval missing)
            ((min turnInterval missing).repeat (· ++ text) written) t) := by
      rw [Nat.succ_mul] at hmissing
      have hsplit : missing = min turnInterval missing + (missing - min turnInterval missing) := by omega
      have hgiven := ih (written ++ Text.copies text (min turnInterval missing))
        (missing - min turnInterval missing) ht (by omega)
      rw [String.append_assoc, ← Text.copies_add, ← hsplit] at hgiven
      rwa [Text.repeat_append]
    unfold repeatStretches
    split
    · exact hrest hs
    · rw [bind_apply]
      exact (gives_pulse hs).andThen fun _ t _ ht => hrest ht

/-- **A text is repeated in a run that goes on**, if the result does not have too many characters. -/
theorem gives_repeatText (hs : s.GoesOn run signal)
    (hmax : (s.run run).maxElements = defaultMaxElements) (hfits : Heap.Repeatable text count) :
    Gives run signal (· = Text.copies text count.toInt.toNat) (repeatText run text count s) := by
  have hlength : ¬ (0 < (s.run run).maxElements ∧
      (s.run run).maxElements < text.length * count.toInt.toNat) := by
    rw [hmax]
    exact fun hlong => Nat.not_lt.mpr (Heap.length_mul_le_of_repeatable hfits) hlong.2
  rw [repeatText, bind_apply, Heap.repeatLength_of_repeatable hfits]
  show Gives run signal _ ((checkLength run _ >>= _) s)
  rw [bind_apply, checkLength_apply, if_neg hlength, Step.bind_of_done, andThen_ok]
  split
  · rename_i hnothing
    exact gives_done hs (Text.copies_of_length_eq_zero hnothing).symm
  · have hinterval : turnInterval = 512 := rfl
    have hgiven := gives_repeatStretches text ""
      ((count.toInt.toNat + turnInterval - 1) / turnInterval) count.toInt.toNat hs (by
        rw [hinterval]
        omega)
    rwa [String.empty_append] at hgiven

/-- **Nothing is written of what would be too long.** -/
theorem repeatText_of_not_repeatable (hmax : (s.run run).maxElements = defaultMaxElements)
    (hlong : ¬ Heap.Repeatable text count) : ∃ t message, t.heap = s.heap ∧
      repeatText run text count s = .done t (.error { fault := .invalidOperation message }) := by
  rw [repeatText, bind_apply]
  obtain ⟨message, hm⟩ | ⟨length, hl, hlength⟩ := Heap.repeatLength_of_not_repeatable hlong
  · exact ⟨s, message, rfl, by rw [hm]; rfl⟩
  · have hrefused : 0 < (s.run run).maxElements ∧ (s.run run).maxElements < length := by
      rw [hmax]
      exact ⟨by decide, hlength⟩
    refine ⟨s.refuse (.length run), "result of " ++ toString length ++
      " elements exceeds the limit of " ++ toString (s.run run).maxElements, rfl, ?_⟩
    rw [hl]
    show (checkLength run length >>= _) s = _
    rw [bind_apply, checkLength_apply, if_pos hrefused]
    rfl

theorem combine_apply (hops : Heap.AskToRepeat left right text count) :
    combine run .mul left right s =
      (repeatText run text count s).bind (andThen fun result => pure (.str result)) := by
  rw [combine, Heap.repeatOperands_eq hops, ← bind_apply]

end Eval

/-- **A text is repeated in a run as it is repeated at once.**  While the run goes on, under the ceiling that
runs have by default, either both ways give the same text, so many copies of the text that is repeated; or
both fail with an invalid operation, and this is so exactly if the count is negative or the copies would have
more characters than the ceiling allows, whether or not their number fits 64 bits. -/
theorem repetition_agrees {run : RunId} {signal : SignalId} {s : EngineState}
    (hs : s.GoesOn run signal) (hmax : (s.run run).maxElements = defaultMaxElements)
    {left right : Value} {text : String} {count : Int64}
    (hops : Heap.AskToRepeat left right text count) :
    (0 ≤ count.toInt ∧ text.length * count.toInt ≤ defaultMaxElements →
      (∀ h : Heap, h.binary .mul left right =
        .ok (.str (Text.copies text count.toInt.toNat), h)) ∧
      (Eval.combine run .mul left right s).Attains (EngineState.GoesOn run signal) fun r _ =>
        r = .ok (.str (Text.copies text count.toInt.toNat))) ∧
    (count.toInt < 0 ∨ defaultMaxElements < text.length * count.toInt →
      (∀ h : Heap, ∃ message, h.binary .mul left right =
        .error (.fault (.invalidOperation message))) ∧
      ∃ t message, t.heap = s.heap ∧ Eval.combine run .mul left right s =
        .done t (.error { fault := .invalidOperation message })) := by
  rw [Eval.combine_apply hops]
  refine ⟨fun hfits => ⟨fun h => Heap.binary_mul_of_repeatable hops hfits, ?_⟩, fun hlong => ?_⟩
  · refine (Eval.gives_repeatText hs hmax hfits).bind ?_
    rintro _ t ⟨⟨_, rfl, rfl⟩, -⟩
    exact .done rfl
  · have hnot : ¬ Heap.Repeatable text count := by
      unfold Heap.Repeatable
      omega
    obtain ⟨t, message, ht, hfails⟩ := Eval.repeatText_of_not_repeatable hmax hnot
    refine ⟨fun h => Heap.binary_mul_of_not_repeatable hops hnot, t, message, ht, ?_⟩
    rw [hfails]
    rfl

/-- A run under the default ceiling. -/
def unhurried : EngineState where
  signals := ({} : Store Signal).push {}
  runs := ({} : Store Run).push ⟨0, ⟨0, 0, 0, 0⟩, defaultMaxElements, 0⟩

/-- Nothing can be written as often as there are numbers of 64 bits, and an accented letter seven hundred
times, with a pulse on the way; but three letters not so often that their number exceeds 64 bits. -/
theorem repetition_agrees_unhurried :
    unhurried.GoesOn 0 0 ∧ (unhurried.run 0).maxElements = defaultMaxElements ∧
    Heap.AskToRepeat (.str "") (.int Int64.maxValue) "" Int64.maxValue ∧
    Heap.AskToRepeat (.int 700) (.str "é") "é" 700 ∧
    Heap.AskToRepeat (.str "abc") (.int Int64.maxValue) "abc" Int64.maxValue ∧
    (Eval.combine 0 .mul (.str "") (.int Int64.maxValue) unhurried).Attains
      (EngineState.GoesOn 0 0) (fun r _ => r = .ok (.str (Text.copies "" Int64.maxValue.toInt.toNat))) ∧
    (Eval.combine 0 .mul (.int 700) (.str "é") unhurried).Attains
      (EngineState.GoesOn 0 0) (fun r _ => r = .ok (.str (Text.copies "é" 700))) ∧
    ∃ t message, Eval.combine 0 .mul (.str "abc") (.int Int64.maxValue) unhurried =
      .done t (.error { fault := .invalidOperation message }) := by
  have hs : unhurried.GoesOn 0 0 := ⟨⟨_, rfl, rfl⟩, by decide⟩
  have hnothing : Heap.AskToRepeat (.str "") (.int Int64.maxValue) "" Int64.maxValue :=
    .inl ⟨rfl, rfl⟩
  have haccented : Heap.AskToRepeat (.int 700) (.str "é") "é" 700 := .inr ⟨rfl, rfl⟩
  have hletters : Heap.AskToRepeat (.str "abc") (.int Int64.maxValue) "abc" Int64.maxValue :=
    .inl ⟨rfl, rfl⟩
  obtain ⟨-, t, message, -, hfails⟩ := (repetition_agrees hs rfl hletters).2 (.inr (by decide))
  exact ⟨hs, rfl, hnothing, haccented, hletters,
    ((repetition_agrees hs rfl hnothing).1 (by decide)).2,
    ((repetition_agrees hs rfl haccented).1 (by decide)).2, t, message, hfails⟩

end ScriptEngine
