import ScriptEngine.Arguments
import ScriptEngine.Proofs.Heap.Converted

/-! # What a call gives to a function of the host

A call is laid out as arguments that are written and, if its last one is spread, the items of a sequence
(`Heap.LaysOut`).  Either the number of these is right for the function, and they bind to its parameters
(`Heap.Binds`), or it is wrong, and the fault says how (`Heap.Misbinds`); nobody looks at types.  Then the
arguments are converted one after the other (`Heap.ConvertsAll`), up to the first that does not convert
(`Heap.FailsAt`).  What a variadic function gets in place of the rest is one list of the converted rest
(`Heap.Receives`), unless something is refused (`Heap.Refuses`).
-/
namespace ScriptEngine

/-- The function was declared, with these parameters or with the last one for any number of arguments. -/
inductive HostFunction.Declared : HostFunction → Prop where
  | fixed (name : String) (params returns : List HostType) (action : HostAction) :
      Declared (.fixed name params returns action)
  | openEnded (name : String) (params returns : List HostType) (action : HostAction) :
      Declared (.openEnded name params returns action)

namespace HostFunction
variable {f : HostFunction}

theorem exists_sliceLast : ∀ types : List HostType, ∃ init elem, sliceLast types = init ++ [.slice elem]
  | [] => ⟨[], .any, rfl⟩
  | [last] => by
    cases last
    case slice elem => exact ⟨[], elem, rfl⟩
    all_goals exact ⟨[], _, rfl⟩
  | first :: second :: rest => by
    obtain ⟨init, elem, heq⟩ := exists_sliceLast (second :: rest)
    refine ⟨first :: init, elem, ?_⟩
    rw [sliceLast, heq, List.cons_append] <;> exact nofun

/-- A variadic function that was declared has a slice for its last parameter. -/
theorem Declared.exists_params (hf : f.Declared) (hv : f.variadic = true) :
    ∃ init elem, f.params = init ++ [.slice elem] := by
  cases hf with
  | fixed => cases hv
  | openEnded name params returns action => exact exists_sliceLast params

theorem fixedArity_of_not_variadic (hv : f.variadic = false) : f.fixedArity = f.params.length := by
  rw [fixedArity, hv]
  rfl

theorem fixedArity_of_variadic (hv : f.variadic = true) {init : List HostType} {last : HostType}
    (hparams : f.params = init ++ [last]) : f.fixedArity = init.length := by
  rw [fixedArity, if_pos hv, hparams, List.length_append, List.length_singleton, Nat.add_sub_cancel]

end HostFunction

namespace Heap
variable {h h' : Heap} {f : HostFunction} {args written fixed vs ws : List Value} {spread : Bool}
  {items rest : Option (List Value)} {types : List HostType} {fault : Fault} {e : Failure}

/-! ## Arity -/

/-- The written arguments of a call, and the items of the sequence that is spread, if one is. -/
inductive LaysOut (h : Heap) : List Value → Bool → List Value → Option (List Value) → Prop where
  | written {args : List Value} : LaysOut h args false args none
  | list {written : List Value} {id : ListId} :
      LaysOut h (written ++ [.list id]) true written (some (h.list id).items.toList)
  | nil {written : List Value} : LaysOut h (written ++ [.nil]) true written (some [])

/-- **The arguments bind**: as they are, or for a variadic function fixed ones and the rest, which is either
written out or spread. -/
inductive Binds (h : Heap) (f : HostFunction) (args : List Value) (spread : Bool) :
    List Value → Option (List Value) → Prop where
  | exact {written : List Value} {items : Option (List Value)} (hv : f.variadic = false)
      (hargs : h.LaysOut args spread written items)
      (hcount : (written ++ items.getD []).length = f.params.length) :
      Binds h f args spread (written ++ items.getD []) none
  | discrete {fixed rest : List Value} (hv : f.variadic = true)
      (hargs : h.LaysOut args spread (fixed ++ rest) none) (hcount : fixed.length = f.fixedArity) :
      Binds h f args spread fixed (some rest)
  | spread {fixed items : List Value} (hv : f.variadic = true)
      (hargs : h.LaysOut args spread fixed (some items)) (hcount : fixed.length = f.fixedArity) :
      Binds h f args spread fixed (some items)

/-- **The arguments do not bind**, and the fault that says why. -/
inductive Misbinds (h : Heap) (f : HostFunction) (args : List Value) (spread : Bool) : Fault → Prop where
  | noArguments (hs : spread = true) (hargs : args = []) :
      Misbinds h f args spread (.invalidOperation "spread call without arguments")
  | noSequence {written : List Value} {last : Value} (hs : spread = true)
      (hargs : args = written ++ [last]) (hlist : ∀ id, last ≠ .list id) (hnil : last ≠ .nil) :
      Misbinds h f args spread (.invalidOperation ("cannot spread value of type " ++ h.typeName last))
  | count {written : List Value} {items : Option (List Value)} (hv : f.variadic = false)
      (hargs : h.LaysOut args spread written items)
      (hcount : (written ++ items.getD []).length ≠ f.params.length) :
      Misbinds h f args spread
        (.argumentCount f.name (toString f.params.length) (written ++ items.getD []).length)
  | tooFew {written : List Value} (hv : f.variadic = true)
      (hargs : h.LaysOut args spread written none) (hcount : written.length < f.fixedArity) :
      Misbinds h f args spread
        (.argumentCount f.name ("at least " ++ toString f.fixedArity) written.length)
  /-- Before a spread sequence stand exactly the fixed arguments. -/
  | spreadCount {written items : List Value} (hv : f.variadic = true)
      (hargs : h.LaysOut args spread written (some items)) (hcount : written.length ≠ f.fixedArity) :
      Misbinds h f args spread (.argumentCount f.name (toString f.fixedArity) written.length)

/-- A call of a function of the host. -/
abbrev bindHost (h : Heap) (f : HostFunction) (args : List Value) (spread : Bool) :
    Outcome (List Value × Option (List Value)) :=
  h.bindArguments f.name f.fixedArity f.variadic args spread

/-- How a call that is laid out binds. -/
theorem bindArguments_eq (hargs : h.LaysOut args spread written items) (name : String) (count : Nat)
    (variadic : Bool) :
    h.bindArguments name count variadic args spread =
      match items with
      | none => bindDiscrete name count variadic written
      | some items =>
        if variadic then
          if written.length = count then .ok (written, some items)
          else wrongCount name (toString count) written.length
        else bindDiscrete name count false (written ++ items) := by
  cases hargs with
  | written => rfl
  | list | nil =>
    simp only [bindArguments, if_true, List.getLast?_concat, List.dropLast_concat]
    rfl

/-- Nothing else than a list or nil is spread. -/
theorem spreadItems_of_noSequence {last : Value} (hlist : ∀ id, last ≠ .list id) (hnil : last ≠ .nil) :
    h.spreadItems last = invalid ("cannot spread value of type " ++ h.typeName last) := by
  cases last with
  | list id => exact absurd rfl (hlist id)
  | nil => exact absurd rfl hnil
  | _ => rfl

theorem bindHost_of_binds (hb : h.Binds f args spread fixed rest) :
    h.bindHost f args spread = .ok (fixed, rest) := by
  cases hb with
  | @exact written items hv hargs hcount =>
    rw [← HostFunction.fixedArity_of_not_variadic hv] at hcount
    rw [bindHost, bindArguments_eq hargs, hv]
    cases items with
    | none =>
      simp only [Option.getD_none, List.append_nil] at hcount ⊢
      simp [bindDiscrete, hcount]
    | some items =>
      simp only [Option.getD_some] at hcount ⊢
      simp only [bindDiscrete, hcount, if_true, Bool.false_eq_true, if_false]
  | discrete hv hargs hcount =>
    rw [bindHost, bindArguments_eq hargs, hv, ← hcount]
    simp only [bindDiscrete, if_true, List.length_append, List.take_left, List.drop_left]
    exact if_neg (Nat.not_lt_of_le (Nat.le_add_right _ _))
  | spread hv hargs hcount =>
    rw [bindHost, bindArguments_eq hargs, hv]
    simp only [hcount, if_true]

theorem bindHost_of_misbinds (hm : h.Misbinds f args spread fault) :
    h.bindHost f args spread = .error (.fault fault) := by
  cases hm with
  | noArguments hs hargs =>
    subst hs hargs
    rfl
  | @noSequence written last hs hargs hlist hnil =>
    subst hs hargs
    simp only [bindArguments, if_true, List.getLast?_concat, spreadItems_of_noSequence hlist hnil]
    rfl
  | @count written items hv hargs hcount =>
    rw [← HostFunction.fixedArity_of_not_variadic hv] at hcount ⊢
    rw [bindHost, bindArguments_eq hargs, hv]
    cases items with
    | none =>
      simp only [Option.getD_none, List.append_nil] at hcount ⊢
      simp [bindDiscrete, hcount, wrongCount]
    | some items =>
      simp only [Option.getD_some] at hcount ⊢
      simp only [bindDiscrete, hcount, Bool.false_eq_true, if_false, wrongCount]
  | tooFew hv hargs hcount =>
    rw [bindHost, bindArguments_eq hargs, hv]
    simp only [bindDiscrete, hcount, if_true, wrongCount]
  | spreadCount hv hargs hcount =>
    rw [bindHost, bindArguments_eq hargs, hv]
    simp only [hcount, if_true, if_false, wrongCount]

theorem laysOut_cases (h : Heap) (args : List Value) (spread : Bool) :
    (∃ written items, h.LaysOut args spread written items) ∨
    spread = true ∧ (args = [] ∨ ∃ written last, args = written ++ [last] ∧
      (∀ id, last ≠ .list id) ∧ last ≠ .nil) := by
  cases spread with
  | false => exact .inl ⟨args, none, .written⟩
  | true =>
    obtain rfl | ⟨written, last, rfl⟩ := List.eq_nil_or_concat' args
    · exact .inr ⟨rfl, .inl rfl⟩
    · cases last with
      | list id => exact .inl ⟨written, _, .list⟩
      | nil => exact .inl ⟨written, _, .nil⟩
      | _ => exact .inr ⟨rfl, .inr ⟨written, _, rfl, nofun, nofun⟩⟩

/-- A call either binds or does not. -/
theorem misbinds_or_binds (h : Heap) (f : HostFunction) (args : List Value) (spread : Bool) :
    (∃ fault, h.Misbinds f args spread fault) ∨ ∃ fixed rest, h.Binds f args spread fixed rest := by
  obtain ⟨written, items, hargs⟩ | ⟨hs, hargs | ⟨written, last, hargs, hlist, hnil⟩⟩ :=
    laysOut_cases h args spread
  · cases hv : f.variadic with
    | false =>
      by_cases hcount : (written ++ items.getD []).length = f.params.length
      · exact .inr ⟨_, _, .exact hv hargs hcount⟩
      · exact .inl ⟨_, .count hv hargs hcount⟩
    | true =>
      cases items with
      | none =>
        by_cases hcount : written.length < f.fixedArity
        · exact .inl ⟨_, .tooFew hv hargs hcount⟩
        · rw [← List.take_append_drop f.fixedArity written] at hargs
          exact .inr ⟨_, _, .discrete hv hargs (List.length_take_of_le (Nat.le_of_not_lt hcount))⟩
      | some items =>
        by_cases hcount : written.length = f.fixedArity
        · exact .inr ⟨_, _, .spread hv hargs hcount⟩
        · exact .inl ⟨_, .spreadCount hv hargs hcount⟩
  · exact .inl ⟨_, .noArguments hs hargs⟩
  · exact .inl ⟨_, .noSequence hs hargs hlist hnil⟩

/-! ## Conversion of arguments -/

/-- **Every value is converted to its type**, one after the other. -/
inductive ConvertsAll : Heap → List Value → List HostType → List Value → Heap → Prop where
  | nil {h : Heap} : ConvertsAll h [] [] [] h
  | cons {h h₁ h' : Heap} {v w : Value} {type : HostType} {vs ws : List Value} {types : List HostType}
      (hfirst : h.convert v type = .ok (w, h₁)) (hrest : ConvertsAll h₁ vs types ws h') :
      ConvertsAll h (v :: vs) (type :: types) (w :: ws) h'

/-- Some value is the first that does not convert to its type. -/
inductive FailsAt : Heap → List Value → List HostType → Failure → Prop where
  | here {h : Heap} {v : Value} {type : HostType} {vs : List Value} {types : List HostType} {e : Failure}
      (hfirst : h.convert v type = .error e) : FailsAt h (v :: vs) (type :: types) e
  | later {h h₁ : Heap} {v w : Value} {type : HostType} {vs : List Value} {types : List HostType}
      {e : Failure} (hfirst : h.convert v type = .ok (w, h₁)) (hrest : FailsAt h₁ vs types e) :
      FailsAt h (v :: vs) (type :: types) e

theorem ConvertsAll.convertArgs_append (hc : ConvertsAll h vs types ws h') (more : List HostType) :
    h.convertArgs vs (types ++ more) = .ok (ws, h') := by
  induction hc with
  | nil => rfl
  | cons hfirst _ ih =>
    refine Outcome.bind_eq_ok.mpr ⟨_, hfirst, Outcome.bind_eq_ok.mpr ⟨_, ih, rfl⟩⟩

theorem ConvertsAll.convertArgs_eq (hc : ConvertsAll h vs types ws h') :
    h.convertArgs vs types = .ok (ws, h') := by
  have hargs := hc.convertArgs_append []
  rwa [List.append_nil] at hargs

theorem FailsAt.convertArgs_append (hc : FailsAt h vs types e) (more : List HostType) :
    h.convertArgs vs (types ++ more) = .error e := by
  induction hc with
  | here hfirst =>
    rw [List.cons_append, convertArgs, hfirst]
    rfl
  | later hfirst _ ih =>
    rw [List.cons_append, convertArgs, hfirst]
    show (convertArgs _ _ (_ ++ more) >>= _) = _
    rw [ih]
    rfl

theorem FailsAt.convertArgs_eq (hc : FailsAt h vs types e) : h.convertArgs vs types = .error e := by
  have hargs := hc.convertArgs_append []
  rwa [List.append_nil] at hargs

theorem failsAt_or_convertsAll : ∀ {h : Heap} {vs : List Value} {types : List HostType},
    vs.length = types.length →
    (∃ e, FailsAt h vs types e) ∨ ∃ ws h', ConvertsAll h vs types ws h'
  | h, [], [], _ => .inr ⟨[], h, .nil⟩
  | h, v :: vs, type :: types, hlen => by
    cases hfirst : h.convert v type with
    | error e => exact .inl ⟨e, .here hfirst⟩
    | ok r =>
      obtain ⟨w, h₁⟩ := r
      obtain ⟨e, he⟩ | ⟨ws, h', hws⟩ := failsAt_or_convertsAll (h := h₁) (Nat.succ.inj hlen)
      · exact .inl ⟨e, .later hfirst he⟩
      · exact .inr ⟨w :: ws, h', .cons hfirst hws⟩

theorem convertArgs_eq_ok (hlen : vs.length = types.length) :
    h.convertArgs vs types = .ok (ws, h') ↔ ConvertsAll h vs types ws h' := by
  refine ⟨fun hc => ?_, fun hc => hc.convertArgs_eq⟩
  obtain ⟨e, he⟩ | ⟨ws', h₁, hall⟩ := failsAt_or_convertsAll (h := h) hlen
  · rw [he.convertArgs_eq] at hc
    cases hc
  · rw [hall.convertArgs_eq] at hc
    cases hc
    exact hall

theorem ConvertsAll.length_eq (hc : ConvertsAll h vs types ws h') : vs.length = types.length := by
  induction hc with
  | nil => rfl
  | cons _ _ ih => rw [List.length_cons, List.length_cons, ih]

theorem ConvertsAll.conforms (hc : ConvertsAll h vs types ws h') :
    List.Forall₂ (Conforms h'.shapes) ws types ∧ h.Grows h' := by
  induction hc with
  | nil => exact ⟨.nil, .refl _⟩
  | cons hfirst _ ih =>
    obtain ⟨hrest, hgrows⟩ := ih
    exact ⟨.cons ((made_convert _ hfirst).conforms.mono (shapes_le_of_grows hgrows)) hrest,
      (grows_convert _ hfirst).trans hgrows⟩

/-- The items of a list are converted like arguments of one type. -/
theorem convertItems_eq_convertArgs (elem : HostType) : ∀ (h : Heap) (vs : List Value),
    convertItems (fun h v => h.convert v elem) h vs =
      h.convertArgs vs (List.replicate vs.length elem)
  | h, [] => rfl
  | h, v :: vs => by
    rw [List.length_cons, List.replicate_succ]
    unfold convertItems convertArgs
    simp only [convertItems_eq_convertArgs elem _ vs]

/-! ## What a function is given -/

/-- **What the function is given**: the converted arguments.  In place of the rest a variadic function is
given one list of it, as it is if it may hold anything and otherwise converted. -/
inductive Receives (h : Heap) (params : List HostType) :
    List Value → Option (List Value) → List Value → Heap → Prop where
  | exact {fixed ws : List Value} {h' : Heap} (hfixed : ConvertsAll h fixed params ws h') :
      Receives h params fixed none ws h'
  | anything {fixed rest ws : List Value} {init : List HostType} {h₁ : Heap}
      (hparams : params = init ++ [.slice .any]) (hfixed : ConvertsAll h fixed init ws h₁) :
      Receives h params fixed (some rest) (ws ++ [.list h₁.lists.next]) (h₁.addPlainList rest.toArray).2
  | packed {fixed rest ws items : List Value} {init : List HostType} {elem : HostType} {h₁ h₂ : Heap}
      (hparams : params = init ++ [.slice elem]) (helem : elem ≠ .any)
      (hfixed : ConvertsAll h fixed init ws h₁)
      (hrest : ConvertsAll (h₁.addPlainList rest.toArray).2 rest (List.replicate rest.length elem)
        items h₂) :
      Receives h params fixed (some rest) (ws ++ [.list h₂.lists.next])
        (h₂.addList ⟨items.toArray, some elem, false⟩).2

/-- **The function is not called**, as an argument does not convert.  If it is one of the rest, the fault is
that of all the rest. -/
inductive Refuses (h : Heap) (params : List HostType) :
    List Value → Option (List Value) → Failure → Prop where
  | exact {fixed : List Value} {e : Failure} (hfixed : FailsAt h fixed params e) :
      Refuses h params fixed none e
  | fixed {fixed rest : List Value} {init : List HostType} {last : HostType} {e : Failure}
      (hparams : params = init ++ [last]) (hfixed : FailsAt h fixed init e) :
      Refuses h params fixed (some rest) e
  | rest {fixed rest ws : List Value} {init : List HostType} {elem : HostType} {h₁ : Heap} {fault : Fault}
      (hparams : params = init ++ [.slice elem]) (helem : elem ≠ .any)
      (hfixed : ConvertsAll h fixed init ws h₁)
      (hrest : FailsAt (h₁.addPlainList rest.toArray).2 rest (List.replicate rest.length elem)
        (.fault fault)) :
      Refuses h params fixed (some rest)
        (.fault (.typeMismatch (HostType.slice elem).text (HostType.slice .any).text))
  | overflow {fixed rest ws : List Value} {init : List HostType} {elem : HostType} {h₁ : Heap}
      (hparams : params = init ++ [.slice elem]) (helem : elem ≠ .any)
      (hfixed : ConvertsAll h fixed init ws h₁)
      (hrest : FailsAt (h₁.addPlainList rest.toArray).2 rest (List.replicate rest.length elem) .overflow) :
      Refuses h params fixed (some rest) .overflow

/-- How the rest of the arguments is packed. -/
theorem convert_packed (h : Heap) (rest : List Value) (elem : HostType) :
    (h.addPlainList rest.toArray).2.convert (.list h.lists.next) (.slice elem) =
      if elem = .any then .ok (.list h.lists.next, (h.addPlainList rest.toArray).2)
      else do
        let (items, h') ← ((h.addPlainList rest.toArray).2.convertArgs rest
          (List.replicate rest.length elem)).orMismatch (h.addPlainList rest.toArray).2 (.slice elem)
            (.list h.lists.next)
        return h'.addList ⟨items.toArray, some elem, false⟩ := by
  have hcell : (h.addPlainList rest.toArray).2.list h.lists.next = ⟨rest.toArray, none, false⟩ :=
    list_addList h _
  have hhas : (h.addPlainList rest.toArray).2.has (.list h.lists.next) = true :=
    (list_of_shape (shapes_addList h _)).1
  rw [convert, hhas]
  by_cases helem : elem = .any
  · simp [hcell, helem, ListCell.isGrowable]
  · simp [hcell, helem, convertItems_eq_convertArgs]

theorem typeName_packed (h : Heap) (rest : List Value) :
    (h.addPlainList rest.toArray).2.typeName (.list h.lists.next) = (HostType.slice .any).text := by
  have hcell : (h.addPlainList rest.toArray).2.list h.lists.next = ⟨rest.toArray, none, false⟩ :=
    list_addList h _
  rw [typeName, hcell]
  rfl

/-- What a variadic function is given, when its fixed arguments are converted. -/
theorem hostArguments_rest {init : List HostType} {elem : HostType} {rest : List Value} {h₁ : Heap}
    (hparams : f.params = init ++ [.slice elem]) (hfixed : ConvertsAll h fixed init ws h₁) :
    h.hostArguments f fixed (some rest) = do
      let (packed, h') ← (h₁.addPlainList rest.toArray).2.convert (.list h₁.lists.next) (.slice elem)
      return (ws ++ [packed], h') := by
  rw [hostArguments, hparams, hfixed.convertArgs_append, List.getLast?_concat]
  rfl

theorem hostArguments_of_receives (hr : h.Receives f.params fixed rest ws h') :
    h.hostArguments f fixed rest = .ok (ws, h') := by
  cases hr with
  | exact hfixed =>
    rw [hostArguments, hfixed.convertArgs_eq]
    rfl
  | anything hparams hfixed =>
    rw [hostArguments_rest hparams hfixed, convert_packed, if_pos rfl]
    rfl
  | packed hparams helem hfixed hrest =>
    rw [hostArguments_rest hparams hfixed, convert_packed, if_neg helem, hrest.convertArgs_eq]
    rfl

theorem hostArguments_of_refuses (hr : h.Refuses f.params fixed rest e) :
    h.hostArguments f fixed rest = .error e := by
  cases hr with
  | exact hfixed =>
    rw [hostArguments, hfixed.convertArgs_eq]
    rfl
  | fixed hparams hfixed =>
    rw [hostArguments, hparams, hfixed.convertArgs_append]
    rfl
  | @rest rest _ _ _ h₁ _ hparams helem hfixed hrest =>
    rw [hostArguments_rest hparams hfixed, convert_packed, if_neg helem, hrest.convertArgs_eq,
      ← typeName_packed h₁ rest]
    rfl
  | overflow hparams helem hfixed hrest =>
    rw [hostArguments_rest hparams hfixed, convert_packed, if_neg helem, hrest.convertArgs_eq]
    rfl

/-- What binds is either given to a function that was declared, or refused. -/
theorem refuses_or_receives (hf : f.Declared) (hb : h.Binds f args spread fixed rest) :
    (∃ e, h.Refuses f.params fixed rest e) ∨ ∃ ws h', h.Receives f.params fixed rest ws h' := by
  cases rest with
  | none =>
    have hlen : fixed.length = f.params.length := by
      cases hb with
      | exact hv hargs hcount => exact hcount
    obtain ⟨e, he⟩ | ⟨ws, h', hws⟩ := failsAt_or_convertsAll (h := h) hlen
    · exact .inl ⟨e, .exact he⟩
    · exact .inr ⟨ws, h', .exact hws⟩
  | some rest =>
    obtain ⟨hv, hcount⟩ : f.variadic = true ∧ fixed.length = f.fixedArity := by
      cases hb with
      | discrete hv hargs hcount | spread hv hargs hcount => exact ⟨hv, hcount⟩
    obtain ⟨init, elem, hparams⟩ := hf.exists_params hv
    rw [f.fixedArity_of_variadic hv hparams] at hcount
    obtain ⟨e, he⟩ | ⟨ws, h₁, hws⟩ := failsAt_or_convertsAll (h := h) hcount
    · exact .inl ⟨e, .fixed hparams he⟩
    by_cases helem : elem = .any
    · subst helem
      exact .inr ⟨_, _, .anything hparams hws⟩
    obtain ⟨e, he⟩ | ⟨items, h₂, hitems⟩ := failsAt_or_convertsAll
      (h := (h₁.addPlainList rest.toArray).2) (List.length_replicate (a := elem)).symm
    · cases e with
      | fault fault => exact .inl ⟨_, .rest hparams helem hws he⟩
      | overflow => exact .inl ⟨_, .overflow hparams helem hws he⟩
    · exact .inr ⟨_, _, .packed hparams helem hws hitems⟩

/-- The converted arguments, and the list of the rest behind them. -/
theorem conforms_concat {init : List HostType} {last : HostType} {w : Value} {h₁ : Heap}
    (hfixed : ConvertsAll h fixed init ws h₁) (hgrows : h₁.Grows h') (hw : Conforms h'.shapes w last) :
    List.Forall₂ (Conforms h'.shapes) (ws ++ [w]) (init ++ [last]) := by
  refine List.rel_append ?_ (.cons hw .nil)
  exact hfixed.conforms.1.imp fun _ _ hv => hv.mono (shapes_le_of_grows hgrows)

/-- **What a function is given conforms to its parameters.** -/
theorem Receives.conforms {params : List HostType} (hr : h.Receives params fixed rest ws h') :
    List.Forall₂ (Conforms h'.shapes) ws params := by
  cases hr with
  | exact hfixed => exact hfixed.conforms.1
  | anything hparams hfixed =>
    rw [hparams]
    exact conforms_concat hfixed (grows_addList _ _) (.plainSlice (shapes_addList _ _))
  | packed hparams helem hfixed hrest =>
    rw [hparams]
    refine conforms_concat hfixed ?_ (.slice (shapes_addList _ _))
    exact (grows_addList _ _).trans (hrest.conforms.2.trans (grows_addList _ _))

/-! ## What a call gives -/

/-- Results as one value: none is nil, one is itself, and several are a list of them in order. -/
inductive Presents (h : Heap) : List Value → Value → Heap → Prop where
  | none : Presents h [] .nil h
  | one {v : Value} : Presents h [v] v h
  | several {vs : List Value} (hmany : 2 ≤ vs.length) :
      Presents h vs (.list h.lists.next) (h.addPlainList vs.toArray).2

theorem presents_iff {v : Value} :
    (match ws with
      | [] => return (.nil, h)
      | [v] => return (v, h)
      | vs => return h.addPlainList vs.toArray : Outcome (Value × Heap)) = .ok (v, h') ↔
      h.Presents ws v h' := by
  constructor
  · intro hc
    split at hc <;> cases hc
    case h_1 => exact .none
    case h_2 => exact .one
    case h_3 hnone hone =>
      refine .several ?_
      match ws with
      | [] => exact absurd rfl hnone
      | [v] => exact absurd rfl (hone v)
      | _ :: _ :: rest => simp
  · rintro (_ | _ | hmany)
    · rfl
    · rfl
    · match ws with
      | [] | [_] => simp at hmany
      | _ :: _ :: _ => rfl

/-- **A call has a value exactly if there are as many results as were declared**, and all convert. -/
theorem hostResult_eq_ok {results : List Value} {v : Value} (hreturns : f.returns ≠ []) :
    h.hostResult f results = .ok (v, h') ↔
      ∃ ws h₁, ConvertsAll h results f.returns ws h₁ ∧ h₁.Presents ws v h' := by
  have hdeclared : f.returns.isEmpty = false := List.isEmpty_eq_false_iff.mpr hreturns
  unfold hostResult
  simp only [hdeclared, Bool.false_eq_true, if_false]
  constructor
  · intro hc
    split at hc
    · rename_i hcount
      obtain ⟨⟨ws, h₁⟩, hws, hc⟩ := Outcome.bind_eq_ok.mp hc
      exact ⟨ws, h₁, (convertArgs_eq_ok hcount.symm).mp hws, presents_iff.mp hc⟩
    · cases hc
  · rintro ⟨ws, h₁, hall, hv⟩
    rw [if_pos hall.length_eq.symm]
    exact Outcome.bind_eq_ok.mpr ⟨_, hall.convertArgs_eq, presents_iff.mpr hv⟩

end Heap
end ScriptEngine
