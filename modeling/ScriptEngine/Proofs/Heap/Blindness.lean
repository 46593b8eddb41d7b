import ScriptEngine.Evaluator.Call

/-! # Operations on values do not look at scopes

The scopes of a heap may be replaced by others (`Heap.onScopes`), and operations on values do not
notice: what is read is the same (`Heap.LooksAtValues`), and what is made or changed is made or changed
in the same way, with the other scopes beside it (`Heap.WorksOnValues`).  The proofs follow the recursion
of the operations; only names, types and packages are looked up in scopes.
-/
namespace ScriptEngine.Heap

variable {α β : Type}

/-- The heap with other scopes. -/
def onScopes (g : Store Scope → Store Scope) (h : Heap) : Heap := { h with scopes := g h.scopes }

/-- **What is read does not depend on scopes.** -/
class LooksAtValues (f : Heap → α) : Prop where
  onScopes_eq : ∀ g h, f (h.onScopes g) = f h

/-- What an operation has led to, with other scopes. -/
def besides (g : Store Scope → Store Scope) (r : α × Heap) : α × Heap := (r.1, r.2.onScopes g)

/-- **What the operation does does not depend on scopes**, and it leaves them as they are. -/
class WorksOnValues (f : Heap → Outcome (α × Heap)) : Prop where
  onScopes_eq : ∀ g h, f (h.onScopes g) = (f h).map (besides g)

variable (g : Store Scope → Store Scope) (h : Heap)

section
variable {g}

/-- One operation after the other. -/
theorem bind_onScopes {x y : Outcome (β × Heap)} {k k' : β × Heap → Outcome (α × Heap)}
    (hxy : y = x.map (besides g)) (hk : ∀ b h, k' (b, h.onScopes g) = (k (b, h)).map (besides g)) :
    (y >>= k') = (x >>= k).map (besides g) := by
  subst hxy
  cases x with
  | error e => rfl
  | ok r => exact hk r.1 r.2

theorem ite_onScopes {c : Prop} [Decidable c] {x x' y y' : Outcome (α × Heap)}
    (hx : x' = x.map (besides g)) (hy : y' = y.map (besides g)) :
    (if c then x' else y') = (if c then x else y).map (besides g) := by
  split
  · exact hx
  · exact hy

/-- An operation after a look at values. -/
theorem look_onScopes {x : Outcome β} {k k' : β → Outcome (α × Heap)}
    (hk : ∀ b, k' b = (k b).map (besides g)) : (x >>= k') = (x >>= k).map (besides g) := by
  cases x with
  | error e => rfl
  | ok b => exact hk b

end

/-! ## Texts and comparisons -/

theorem text?_onScopes (fuel : Nat) :
    (∀ inside v, (h.onScopes g).text? fuel inside v = h.text? fuel inside v) ∧
      (∀ o, (h.onScopes g).describeHandle? fuel o = h.describeHandle? fuel o) ∧
      ∀ v, (h.onScopes g).describe? fuel v = h.describe? fuel v := by
  induction fuel with
  | zero => exact ⟨fun _ _ => by simp only [text?], fun _ => by simp only [describeHandle?],
      fun _ => by simp only [describe?]⟩
  | succ fuel ih =>
    obtain ⟨htext, hhandle, hdescribe⟩ := ih
    refine ⟨fun inside v => ?_, fun o => ?_, fun v => ?_⟩
    · cases v <;> simp only [text?, htext, hhandle] <;> rfl
    · cases o <;> simp only [describeHandle?, hdescribe]
    · cases v <;> simp only [describe?, htext, hhandle] <;> rfl

theorem text_onScopes (v : Value) : (h.onScopes g).text v = h.text v :=
  congrArg (·.getD "") ((text?_onScopes g h h.textLevels).1 [] v)

theorem equalBy?_onScopes (leaf : Value → Value → Bool) (fuel : Nat) (visited : List Pair)
    (a b : Value) :
    (h.onScopes g).equalBy? leaf fuel visited a b = h.equalBy? leaf fuel visited a b := by
  induction fuel generalizing visited a b with
  | zero => simp only [equalBy?]
  | succ fuel ih => cases a <;> cases b <;> simp only [equalBy?, ih] <;> rfl

theorem equal_onScopes (a b : Value) : (h.onScopes g).equal a b = h.equal a b :=
  congrArg (·.getD false)
    (equalBy?_onScopes g h h.looselySameLeaf h.equalityLevels [] a b)

theorem message_onScopes (f : Fault) : f.message (h.onScopes g) = f.message h := by
  cases f with
  | thrown v => exact text_onScopes g h v
  | _ => rfl

/-! ## Reading -/

theorem wrongArgument_onScopes (function : String) (v : Value) :
    ((h.onScopes g).wrongArgument function v : Outcome α) = h.wrongArgument function v := by
  unfold wrongArgument
  rw [text_onScopes]
  rfl

instance (v : Value) : LooksAtValues fun h => h.typeName v := ⟨fun _ _ => rfl⟩

instance (v : Value) : LooksAtValues fun h => h.kindName v := ⟨fun _ _ => rfl⟩

instance (v : Value) : LooksAtValues fun h => h.truthy v := ⟨fun _ _ => rfl⟩

instance (v : Value) : LooksAtValues fun h => h.looseBool v := ⟨fun _ _ => rfl⟩

instance (v : Value) : LooksAtValues fun h => h.text v := ⟨fun g h => text_onScopes g h v⟩

instance (a b : Value) : LooksAtValues fun h => h.equal a b := ⟨fun g h => equal_onScopes g h a b⟩

instance (f : Fault) : LooksAtValues fun h => f.toValue h where
  onScopes_eq g h := by
    unfold Fault.toValue
    split
    · rfl
    · rw [message_onScopes]

instance (v : Value) : LooksAtValues fun h => h.summands v := ⟨fun _ _ => rfl⟩

instance (args : List Value) : LooksAtValues fun h => h.packed args := ⟨fun _ _ => rfl⟩

instance (target : Value) (name : String) : LooksAtValues fun h => h.member target name :=
  ⟨fun _ _ => rfl⟩

instance (op : UpdateOp) (v : Value) : LooksAtValues fun h => h.update op v := ⟨fun _ _ => rfl⟩

instance (op : UnaryOp) (v : Value) : LooksAtValues fun h => h.unary op v := ⟨fun _ _ => rfl⟩

instance (name : String) (fixed : Nat) (variadic : Bool) (args : List Value) (spread : Bool) :
    LooksAtValues fun h => h.bindArguments name fixed variadic args spread := ⟨fun _ _ => rfl⟩

instance (v : Value) : LooksAtValues fun h => h.keys v where
  onScopes_eq g h := by
    cases v with
    | map id | nil => rfl
    | _ => exact wrongArgument_onScopes g h "keys" _

instance (v : Value) : LooksAtValues fun h => h.length v where
  onScopes_eq g h := by
    cases v with
    | nil | str s | list id | map id | chan id => rfl
    | _ => exact wrongArgument_onScopes g h "len" _

instance (function : String) (v : Value) :
    LooksAtValues fun h => (h.wrongArgument function v : Outcome α) :=
  ⟨fun g h => wrongArgument_onScopes g h function v⟩

instance (args : List Value) : LooksAtValues fun h => h.makeSize args where
  onScopes_eq g h := by
    have htooSmall (v : Value) : makeSize.tooSmall (h.onScopes g) v = makeSize.tooSmall h v := by
      unfold makeSize.tooSmall
      rw [text_onScopes]
    simp only [makeSize, htooSmall]

/-! ## Zero values and conversion -/

mutual

theorem zeroValue_onScopes : ∀ (type : HostType) (h : Heap),
    (h.onScopes g).zeroValue type = besides g (h.zeroValue type)
  | .any, h | .func, h | .chan _, h | .handle _, h | .bool, h | .int _, h | .float _, h
  | .string, h | .slice _, h | .map _ _, h => by
    simp only [zeroValue]
    rfl
  | .array elem len, h => by
    simp only [zeroValue, zeroValue_onScopes elem]
    rfl
  | .struct name fields, h => by
    simp only [zeroValue, zeroValues_onScopes fields]
    rfl

theorem zeroValues_onScopes : ∀ (fields : List (String × HostType)) (h : Heap),
    (h.onScopes g).zeroValues fields = besides g (h.zeroValues fields)
  | [], h => by
    simp only [zeroValues]
    rfl
  | (_, type) :: rest, h => by
    simp only [zeroValues, zeroValue_onScopes type]
    show (_, ((besides g (h.zeroValue type)).2.zeroValues rest).2) = _
    rw [besides, zeroValues_onScopes rest]
    rfl

end

theorem zero_onScopes (type : HostType) :
    (h.onScopes g).zero type = (h.zero type).map (besides g) := by
  unfold zero
  rw [zeroValue_onScopes]
  split <;> rfl

theorem zeroFields_onScopes (fields : List (String × HostType)) :
    (h.onScopes g).zeroFields fields = (h.zeroFields fields).map (besides g) := by
  unfold zeroFields
  rw [zeroValues_onScopes]
  split <;> rfl

theorem convertItems_onScopes {f : Heap → Value → Outcome (Value × Heap)}
    (hf : ∀ h v, f (h.onScopes g) v = (f h v).map (besides g)) (vs : List Value) :
    convertItems f (h.onScopes g) vs = (convertItems f h vs).map (besides g) := by
  induction vs generalizing h with
  | nil => rfl
  | cons v rest ih =>
    exact bind_onScopes (hf h v) fun w h => bind_onScopes (ih h) fun ws h => rfl

theorem convertEntries_onScopes {f k : Heap → Value → Outcome (Value × Heap)}
    (hf : ∀ h v, f (h.onScopes g) v = (f h v).map (besides g))
    (hk : ∀ h v, k (h.onScopes g) v = (k h v).map (besides g))
    (es stored : List (MapKey × Value)) :
    convertEntries f k (h.onScopes g) stored es =
      (convertEntries f k h stored es).map (besides g) := by
  induction es generalizing h stored with
  | nil => rfl
  | cons e rest ih =>
    refine bind_onScopes (hf h _) fun k h => look_onScopes fun key => ?_
    exact bind_onScopes (hk h _) fun w h => ih h _

theorem fillFields_onScopes
    {f : Heap → List Value → String → Value → Outcome (List Value × Heap)}
    {failure failure' : Outcome (List Value × Heap)}
    (hf : ∀ h vs n v, f (h.onScopes g) vs n v = (f h vs n v).map (besides g))
    (hfailure : failure' = failure.map (besides g)) (es : List (MapKey × Value)) (vs : List Value) :
    fillFields f failure' (h.onScopes g) vs es = (fillFields f failure h vs es).map (besides g) := by
  induction es generalizing h vs with
  | nil => rfl
  | cons e rest ih =>
    obtain ⟨key, v⟩ := e
    cases key with
    | str field => exact bind_onScopes (hf h vs field v) fun vs h => ih h vs
    | _ => exact hfailure

theorem orMismatch_onScopes {x y : Outcome (α × Heap)} (hxy : y = x.map (besides g))
    (type : HostType) (v : Value) :
    y.orMismatch (h.onScopes g) type v = (x.orMismatch h type v).map (besides g) := by
  subst hxy
  match x with
  | .ok r => rfl
  | .error (.fault f) => rfl
  | .error .overflow => rfl

mutual

/-- **Conversion does not look at scopes.** -/
theorem convert_onScopes : ∀ (type : HostType) (h : Heap) (v : Value),
    (h.onScopes g).convert v type = (h.convert v type).map (besides g)
  | .slice elem, h, v => by
    unfold convert
    refine ite_onScopes rfl ?_
    cases v with
    | nil => exact zero_onScopes g h _
    | list id =>
      have hitems := convertItems_onScopes (f := fun h v => h.convert v elem) g h
        (convert_onScopes elem) (h.list id).items.toList
      refine ite_onScopes rfl (ite_onScopes rfl ?_)
      exact bind_onScopes (orMismatch_onScopes g h hitems _ _) fun ws h => rfl
    | _ => rfl
  | .array elem len, h, v => by
    unfold convert
    refine ite_onScopes rfl ?_
    cases v with
    | nil => exact zero_onScopes g h _
    | list id =>
      have hitems := convertItems_onScopes (f := fun h v => h.convert v elem) g h
        (convert_onScopes elem) (h.list id).items.toList
      refine ite_onScopes rfl (ite_onScopes rfl ?_)
      refine bind_onScopes (orMismatch_onScopes g h hitems _ _) fun ws h => ?_
      exact bind_onScopes (zero_onScopes g h elem) fun z h => look_onScopes fun items => rfl
    | _ => rfl
  | .map key value, h, v => by
    unfold convert
    refine ite_onScopes rfl ?_
    cases v with
    | nil => exact zero_onScopes g h _
    | map id =>
      have hentries := convertEntries_onScopes (f := fun h v => h.convert v key)
        (k := fun h v => h.convert v value) g h (convert_onScopes key) (convert_onScopes value)
        (h.map id).entries []
      refine ite_onScopes rfl (ite_onScopes rfl ?_)
      exact bind_onScopes (orMismatch_onScopes g h hentries _ _) fun es h => rfl
    | _ => rfl
  | .struct name fields, h, v => by
    unfold convert
    refine ite_onScopes rfl ?_
    cases v with
    | nil => exact zero_onScopes g h _
    | handle id =>
      have hsame : (h.onScopes g).handle id = h.handle id := rfl
      simp only [hsame]
      cases h.handle id with
      | struct cell => exact ite_onScopes rfl rfl
      | token typeName => rfl
    | map id =>
      have hset (h : Heap) (vs : List Value) (n : String) (v : Value) :=
        setField_onScopes fields name 0 h n v vs
      have hfailure : (mismatch (h.onScopes g) (.struct name fields) (.map id) :
          Outcome (List Value × Heap)) =
            (mismatch h (.struct name fields) (.map id)).map (besides g) := rfl
      refine bind_onScopes (zeroFields_onScopes g h fields) fun vs h' => ?_
      exact bind_onScopes (fillFields_onScopes (f := fun h vs n v => h.setField name fields 0 n v vs)
        g h' hset hfailure (h.map id).entries vs) fun vs h => rfl
    | _ => rfl
  | .handle name, h, v => by
    unfold convert
    refine ite_onScopes rfl ?_
    cases v with
    | nil => exact zero_onScopes g h _
    | handle id => exact ite_onScopes rfl rfl
    | _ => rfl
  | .float kind, h, v => by
    unfold convert
    refine ite_onScopes rfl ?_
    cases v with
    | nil => exact zero_onScopes g h _
    | int n | float x => cases kind <;> rfl
    | _ => rfl
  | .any, h, v => by
    unfold convert
    exact ite_onScopes rfl rfl
  | .bool, h, v | .int _, h, v | .string, h, v | .func, h, v | .chan _, h, v => by
    unfold convert
    refine ite_onScopes rfl ?_
    cases v with
    | nil => exact zero_onScopes g h _
    | _ => rfl

theorem setField_onScopes : ∀ (fields : List (String × HostType)) (name : String) (i : Nat)
    (h : Heap) (field : String) (v : Value) (vs : List Value),
    (h.onScopes g).setField name fields i field v vs =
      (h.setField name fields i field v vs).map (besides g)
  | [], name, i, h, field, v, vs => by
    unfold setField
    rfl
  | (n, type) :: rest, name, i, h, field, v, vs => by
    unfold setField
    split
    · exact bind_onScopes (convert_onScopes type h v) fun w h => rfl
    · exact setField_onScopes rest name (i + 1) h field v vs

end

theorem convertTo_onScopes (v : Value) (type : Option HostType) :
    (h.onScopes g).convertTo v type = (h.convertTo v type).map (besides g) := by
  cases type with
  | none => rfl
  | some type => exact convert_onScopes g type h v

instance (type : HostType) : WorksOnValues fun h => h.zero type := ⟨fun g h => zero_onScopes g h type⟩

instance worksOnValues_convertItems (type : HostType) (items : List Value) :
    WorksOnValues fun h => (do
      let (items, h) ← convertItems (fun h v => h.convert v type) h items
      return h.addList ⟨items.toArray, some type, false⟩ : Outcome (Value × Heap)) :=
  ⟨fun g h => bind_onScopes (convertItems_onScopes g h (convert_onScopes g type) items)
    fun _ _ => rfl⟩

instance (elem : HostType) (items : Array Value) : WorksOnValues fun h => h.addSlice elem items where
  onScopes_eq g h := by
    unfold addSlice
    rw [show (h.onScopes g).has = h.has from funext fun v => by cases v <;> rfl]
    split <;> rfl

instance (type : HostType) (args : List Value) : WorksOnValues fun h => h.make type args where
  onScopes_eq g h := by
    have hsize : (h.onScopes g).makeSize args = h.makeSize args :=
      LooksAtValues.onScopes_eq (f := fun h => h.makeSize args) g h
    unfold make
    rw [hsize]
    cases type with
    | slice elem =>
      refine look_onScopes fun len => bind_onScopes (zero_onScopes g h elem) fun z h => ?_
      exact look_onScopes fun items => rfl
    | chan elem => exact look_onScopes fun capacity => rfl
    | _ => exact zero_onScopes g h _

/-! ## Parts of values -/

theorem mapKey_onScopes (id : MapId) (v : Value) :
    (h.onScopes g).mapKey id v = h.mapKey id v := by
  unfold mapKey
  rw [show ((h.onScopes g).map id) = h.map id from rfl, convertTo_onScopes]
  cases h.convertTo v (h.map id).keyType <;> rfl

theorem stored?_onScopes (id : MapId) (key : Value) :
    (h.onScopes g).stored? id key = h.stored? id key := by
  unfold stored?
  rw [mapKey_onScopes]
  rfl

instance (id : MapId) (key : Value) : LooksAtValues fun h => h.stored? id key :=
  ⟨fun g h => stored?_onScopes g h id key⟩

instance (target index : Value) : LooksAtValues fun h => h.index target index where
  onScopes_eq g h := by
    cases target with
    | map id => exact congrArg (· >>= _) (stored?_onScopes g h id index)
    | _ => rfl

instance (item container : Value) : LooksAtValues fun h => h.contains item container where
  onScopes_eq g h := by
    cases container with
    | list id =>
      have hequal : (h.onScopes g).equal item = h.equal item :=
        funext fun v => equal_onScopes g h item v
      unfold contains
      rw [hequal]
      rfl
    | map id =>
      simp only [contains, hasEntry, stored?_onScopes]
    | str s =>
      unfold contains
      rw [text_onScopes]
    | _ => rfl

instance (target : Value) (start stop : Option Value) :
    WorksOnValues fun h => h.slice target start stop where
  onScopes_eq g h := by
    cases target with
    | list id => exact look_onScopes fun bounds => rfl
    | str s => exact look_onScopes fun bounds => rfl
    | _ => rfl

/-! ## Operators -/

theorem add_onScopes (left right : Value) :
    (h.onScopes g).add left right = (h.add left right).map (besides g) := by
  have hjoin : (.ok (.str ((h.onScopes g).text left ++ (h.onScopes g).text right), h.onScopes g) :
      Outcome (Value × Heap)) = .ok (.str (h.text left ++ h.text right), h.onScopes g) := by
    rw [text_onScopes, text_onScopes]
  have hsum : (do return (← (h.onScopes g).arithmetic "+" (· + ·) (· + ·) left right, h.onScopes g) :
      Outcome (Value × Heap)) =
        (do return (← h.arithmetic "+" (· + ·) (· + ·) left right, h) : Outcome _).map (besides g) :=
    look_onScopes fun v => rfl
  cases left with
  | str a => exact hjoin
  | list a =>
    cases right with
    | str b => exact hjoin
    | list b => rfl
    | _ => exact hsum
  | _ =>
    cases right with
    | str b => exact hjoin
    | _ => exact hsum

theorem scalarOp_onScopes (op : BinaryOp) (left right : Value) :
    (h.onScopes g).scalarOp op left right = h.scalarOp op left right := by
  cases op with
  | add =>
    show (do return (← (h.onScopes g).add left right).1 : Outcome Value) = _
    rw [add_onScopes]
    show _ = (do return (← h.add left right).1 : Outcome Value)
    cases h.add left right <;> rfl
  | eq | ne =>
    unfold scalarOp
    rw [equal_onScopes]
  | _ => rfl

instance (op : BinaryOp) (left right : Value) : WorksOnValues fun h => h.binary op left right where
  onScopes_eq g h := by
    have hscalar (op : BinaryOp) :
        (do return (← (h.onScopes g).scalarOp op left right, h.onScopes g) : Outcome (Value × Heap)) =
          (do return (← h.scalarOp op left right, h) : Outcome _).map (besides g) := by
      rw [scalarOp_onScopes]
      exact look_onScopes fun v => rfl
    cases op with
    | add => exact add_onScopes g h left right
    | _ => exact hscalar _

/-! ## Writes -/

theorem perform_onScopes (w : Write) : (h.onScopes g).perform w = (h.perform w).onScopes g := by
  cases w <;> rfl

theorem prepareItem_onScopes (id : ListId) (index : Int) (v : Value) :
    (h.onScopes g).prepareItem id index v = (h.prepareItem id index v).map (besides g) :=
  bind_onScopes (convertTo_onScopes g h v _) fun _ _ => ite_onScopes rfl rfl

theorem prepareEntry_onScopes (id : MapId) (key v : Value) :
    (h.onScopes g).prepareEntry id key v = (h.prepareEntry id key v).map (besides g) := by
  unfold prepareEntry
  rw [mapKey_onScopes]
  exact look_onScopes fun key => bind_onScopes (convertTo_onScopes g h v _) fun _ _ => rfl

theorem prepareField_onScopes (id : HandleId) (name : String) (v : Value) :
    (h.onScopes g).prepareField id name v = (h.prepareField id name v).map (besides g) := by
  unfold prepareField
  rw [show (h.onScopes g).handle id = h.handle id from rfl]
  cases h.handle id with
  | token typeName => rfl
  | struct c =>
    simp only
    cases c.position? name with
    | none => rfl
    | some i => exact bind_onScopes (convert_onScopes g _ h v) fun _ _ => rfl

instance (id : MapId) (key v : Value) : WorksOnValues fun h => h.prepareEntry id key v :=
  ⟨fun g h => prepareEntry_onScopes g h id key v⟩

instance (target index v : Value) : WorksOnValues fun h => h.prepareIndex target index v where
  onScopes_eq g h := by
    cases target with
    | list id => exact look_onScopes fun i => prepareItem_onScopes g h id i v
    | map id => exact prepareEntry_onScopes g h id index v
    | handle id =>
      cases index with
      | str name => exact prepareField_onScopes g h id name v
      | _ => rfl
    | _ => rfl

instance (target : Value) (name : String) (v : Value) :
    WorksOnValues fun h => h.prepareMember target name v where
  onScopes_eq g h := by
    cases target with
    | map id => exact prepareEntry_onScopes g h id (.str name) v
    | handle id => exact prepareField_onScopes g h id name v
    | _ => rfl

theorem storeEntry_onScopes (id : MapId) (key v : Value) :
    (h.onScopes g).storeEntry id key v = (h.storeEntry id key v).map (onScopes g) := by
  unfold storeEntry
  rw [prepareEntry_onScopes]
  cases h.prepareEntry id key v with
  | error e => rfl
  | ok r => exact congrArg Except.ok (perform_onScopes g r.2 r.1)

theorem storeField_onScopes (id : HandleId) (name : String) (v : Value) :
    (h.onScopes g).storeField id name v = (h.storeField id name v).map (onScopes g) := by
  unfold storeField
  rw [prepareField_onScopes]
  cases h.prepareField id name v with
  | error e => rfl
  | ok r => exact congrArg Except.ok (perform_onScopes g r.2 r.1)

theorem pushItem_onScopes (id : ListId) (v : Value) :
    (h.onScopes g).pushItem id v = (h.pushItem id v).map (onScopes g) := by
  unfold pushItem
  rw [show (h.onScopes g).list id = h.list id from rfl, convertTo_onScopes]
  split
  · rfl
  · cases h.convertTo v (h.list id).elemType <;> rfl

theorem pushAll_onScopes (id : ListId) (vs : List Value) :
    (h.onScopes g).pushAll id vs = (h.pushAll id vs).map (onScopes g) := by
  induction vs generalizing h with
  | nil => rfl
  | cons v rest ih =>
    unfold pushAll
    rw [pushItem_onScopes]
    cases h.pushItem id v with
    | error e => rfl
    | ok h' => exact ih h'

instance (target : Value) (items : List Value) : WorksOnValues fun h => h.append target items where
  onScopes_eq g h := by
    have hnew (source : ListCell) :
        (do return (.list h.lists.next,
          ← ((h.onScopes g).addList source).2.pushAll h.lists.next items) : Outcome (Value × Heap)) =
        (do return (.list h.lists.next, ← (h.addList source).2.pushAll h.lists.next items) :
          Outcome (Value × Heap)).map (besides g) := by
      rw [show ((h.onScopes g).addList source).2 = (h.addList source).2.onScopes g from rfl,
        pushAll_onScopes]
      cases (h.addList source).2.pushAll h.lists.next items <;> rfl
    cases target with
    | nil => exact hnew ⟨#[], none, false⟩
    | list id => exact hnew { h.list id with fixed := false }
    | _ => exact congrArg (· >>= _) (wrongArgument_onScopes g h "append" _)

theorem delete_onScopes (target key : Value) :
    (h.onScopes g).delete target key = (h.delete target key).map (onScopes g) := by
  cases target with
  | map id =>
    unfold delete removeEntry
    simp only [mapKey_onScopes]
    cases h.mapKey id key <;> rfl
  | nil => rfl
  | _ => exact wrongArgument_onScopes g h "delete" _

/-! ## Host functions -/

theorem convertArgs_onScopes (vs : List Value) (types : List HostType) :
    (h.onScopes g).convertArgs vs types = (h.convertArgs vs types).map (besides g) := by
  induction vs generalizing h types with
  | nil => rfl
  | cons v rest ih =>
    cases types with
    | nil => rfl
    | cons type types =>
      exact bind_onScopes (convert_onScopes g type h v) fun w h =>
        bind_onScopes (ih h types) fun ws h => rfl

instance (f : HostFunction) (fixed : List Value) (rest : Option (List Value)) :
    WorksOnValues fun h => h.hostArguments f fixed rest where
  onScopes_eq g h := by
    refine bind_onScopes (convertArgs_onScopes g h fixed f.params) fun fixed h => ?_
    cases rest with
    | none => rfl
    | some rest =>
      exact bind_onScopes (convert_onScopes g _ (h.addPlainList rest.toArray).2 _) fun _ _ => rfl

instance (f : HostFunction) (results : List Value) :
    WorksOnValues fun h => h.hostResult f results where
  onScopes_eq g h := by
    unfold hostResult
    refine ite_onScopes ?_ (ite_onScopes (bind_onScopes
      (convertArgs_onScopes g h results f.returns) fun results h => ?_) rfl)
    all_goals
      match results with
      | [] | [v] | _ :: _ :: _ => rfl

mutual

/-- **Building does not look at scopes.** -/
theorem build_onScopes : ∀ (b : Blueprint) (h : Heap),
    (h.onScopes g).build b = (h.build b).map (besides g)
  | .nil, h | .bool _, h | .int _, h | .float _, h | .str _, h | .func _, h | .chan _ _, h
  | .token _, h => by
    simp only [build]
    rfl
  | .list items elemType fixed, h => by
    simp only [build]
    exact bind_onScopes (buildAll_onScopes items h) fun items h => rfl
  | .map entries keyType valueType, h => by
    simp only [build]
    show Except.map _ ((((h.addMap ⟨[], keyType, valueType⟩).2).onScopes g).buildEntries h.maps.next
      entries) = Except.map _ (Except.map _ _)
    rw [buildEntries_onScopes entries]
    show _ = Except.map _ (Except.map _ ((h.addMap ⟨[], keyType, valueType⟩).2.buildEntries
      h.maps.next entries))
    cases (h.addMap ⟨[], keyType, valueType⟩).2.buildEntries h.maps.next entries <;> rfl
  | .struct type fields, h => by
    simp only [build]
    refine bind_onScopes (zero_onScopes g h type) fun z h => ?_
    cases z with
    | handle id =>
      show (do return (Value.handle id, ← (h.onScopes g).buildFields id fields) : Outcome _) = _
      rw [buildFields_onScopes fields]
      show _ = (do return (Value.handle id, ← h.buildFields id fields) : Outcome _).map _
      cases h.buildFields id fields <;> rfl
    | _ => rfl

theorem buildAll_onScopes : ∀ (bs : List Blueprint) (h : Heap),
    (h.onScopes g).buildAll bs = (h.buildAll bs).map (besides g)
  | [], h => by
    simp only [buildAll]
    rfl
  | b :: rest, h => by
    simp only [buildAll]
    exact bind_onScopes (build_onScopes b h) fun v h =>
      bind_onScopes (buildAll_onScopes rest h) fun vs h => rfl

theorem buildEntries_onScopes : ∀ (entries : List (Blueprint × Blueprint)) (h : Heap) (id : MapId),
    (h.onScopes g).buildEntries id entries = (h.buildEntries id entries).map (onScopes g)
  | [], h, id => by
    simp only [buildEntries]
    rfl
  | (key, value) :: rest, h, id => by
    simp only [buildEntries, build_onScopes key]
    cases h.build key with
    | error e => rfl
    | ok k =>
      show ((k.2.onScopes g).build value >>= _) = (k.2.build value >>= _ : Outcome _).map _
      rw [build_onScopes value]
      cases k.2.build value with
      | error e => rfl
      | ok v =>
        show ((v.2.onScopes g).storeEntry id k.1 v.1 >>= _) =
          (v.2.storeEntry id k.1 v.1 >>= _ : Outcome _).map _
        rw [storeEntry_onScopes]
        cases v.2.storeEntry id k.1 v.1 with
        | error e => rfl
        | ok h' => exact buildEntries_onScopes rest h' id

theorem buildFields_onScopes : ∀ (fields : List (String × Blueprint)) (h : Heap) (id : HandleId),
    (h.onScopes g).buildFields id fields = (h.buildFields id fields).map (onScopes g)
  | [], h, id => by
    simp only [buildFields]
    rfl
  | (name, value) :: rest, h, id => by
    simp only [buildFields, build_onScopes value]
    cases h.build value with
    | error e => rfl
    | ok v =>
      show ((v.2.onScopes g).storeField id name v.1 >>= _) =
        (v.2.storeField id name v.1 >>= _ : Outcome _).map _
      rw [storeField_onScopes]
      cases v.2.storeField id name v.1 with
      | error e => rfl
      | ok h' => exact buildFields_onScopes rest h' id

end

instance (b : Blueprint) : WorksOnValues fun h => h.build b := ⟨fun g h => build_onScopes g b h⟩

instance (bs : List Blueprint) : WorksOnValues fun h => h.buildAll bs :=
  ⟨fun g h => buildAll_onScopes g bs h⟩

/-! ## Channels -/

instance (id : ChanId) (v : Value) : WorksOnValues fun h => h.chanValue id v :=
  ⟨fun g h => convertTo_onScopes g h v _⟩

instance (id : ChanId) (v : Value) : WorksOnValues fun h => h.offer id v where
  onScopes_eq g h := by
    unfold offer
    rw [show (h.onScopes g).chan id = h.chan id from rfl,
      show (h.onScopes g).has v = h.has v by cases v <;> rfl]
    exact ite_onScopes rfl (ite_onScopes rfl (ite_onScopes rfl rfl))

instance (id : ChanId) (v : Value) : WorksOnValues fun h => h.trySend id v where
  onScopes_eq g h :=
    bind_onScopes (convertTo_onScopes g h v _) fun _ _ => ite_onScopes rfl (ite_onScopes rfl rfl)

instance (id : ChanId) : WorksOnValues fun h => h.tryRecv id where
  onScopes_eq g h := by
    unfold tryRecv
    rw [show (h.onScopes g).chan id = h.chan id from rfl]
    simp only
    cases (h.chan id).handOut? with
    | some r => rfl
    | none => exact ite_onScopes (bind_onScopes (convertTo_onScopes g h .nil _) fun _ _ => rfl) rfl

theorem closeChan_onScopes (id : ChanId) :
    (h.onScopes g).closeChan id = (h.closeChan id).map (onScopes g) := by
  unfold closeChan
  rw [show (h.onScopes g).chan id = h.chan id from rfl]
  split <;> rfl

end ScriptEngine.Heap
