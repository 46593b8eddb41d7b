import ScriptEngine.Proofs.Json.Numbers
import ScriptEngine.Proofs.Tree.Heredity
import ScriptEngine.Tree.Encoding

/-! # Trees from their JSON form

Every node of a tree has a JSON form, and the reader for such nodes, given that form, gives the node
back or nothing at all.  It gives the node exactly if all floats that are written in it are finite, and
if the form is not nested deeper than the levels that the reader may enter.  Both conditions are joined
from those of the parts, so one notion, `Loads`, carries the whole induction over the syntax; that the
form is legible comes with it.

Main statement: `Block.loads`, for whole scripts.
-/
namespace ScriptEngine

/-- Gathers the floats that are written as literals. -/
def Gatherer.floats : Gatherer Binary64 where
  literal
    | .float x => [x]
    | _ => []
  body _ := []

/-- The floats that are written in a script. -/
def Block.floats (script : Block) : List Binary64 := Gatherer.floats.stmts script

namespace Decode

variable {α β γ δ ε : Type} {v : Json} {a : α} {fs gs : List Binary64}

/-- Finite floats read back. -/
def AllReadBack (fs : List Binary64) : Prop := ∀ x ∈ fs, x.isFinite = true → x.ReadsBack

/-- The floats are finite. -/
def AllFinite (fs : List Binary64) : Prop := ∀ x ∈ fs, x.isFinite = true

@[simp] theorem allFinite_nil : AllFinite [] := fun _ h => absurd h List.not_mem_nil

@[simp] theorem allFinite_append : AllFinite (fs ++ gs) ↔ AllFinite fs ∧ AllFinite gs :=
  List.forall_mem_append

theorem allReadBack_append : AllReadBack (fs ++ gs) ↔ AllReadBack fs ∧ AllReadBack gs :=
  List.forall_mem_append

/-- **The reader loads `a` from `v`**, in which the floats `fs` are written: the form is legible, and
what is read from it, if anything, is `a`; it is read if the floats are finite and the form is not
nested deeper than the levels given. -/
structure Loads (read : Reader α) (v : Json) (a : α) (fs : List Binary64) : Prop where
  legible : AllReadBack fs → v.Legible
  reads : AllReadBack fs → ∀ levels b,
    read levels v = some b ↔ b = a ∧ AllFinite fs ∧ v.depth ≤ levels

/-! ## Values without floats -/

/-- A reader of values that are not nested. -/
theorem loads_scalar {read : Reader α} (hlegible : v.Legible) (hdepth : v.depth = 0)
    (hread : ∀ levels, read levels v = some a) : Loads read v a [] where
  legible _ := hlegible
  reads _ levels b := by
    rw [hread, hdepth]
    constructor
    · intro h
      exact ⟨(Option.some.inj h).symm, allFinite_nil, Nat.zero_le levels⟩
    · rintro ⟨rfl, -⟩
      rfl

theorem loads_string (s : String) : Loads string (.string s) s [] :=
  loads_scalar rfl rfl fun _ => rfl

theorem loads_bool (b : Bool) : Loads bool (.bool b) b [] :=
  loads_scalar trivial rfl fun _ => rfl

theorem loads_word {bits : Nat} (n : Word bits) : Loads (word bits) (.nat n) n [] :=
  loads_scalar (Decimal.Numeral.legible_digits _ _) rfl (word_nat n)

theorem loads_int64 (n : Int64) : Loads int64 (.int n.toInt) n [] :=
  loads_scalar (Decimal.Numeral.legible_digits _ _) rfl (int64_int n)

theorem loads_name {ofTag? : String → Option α} {tag : String} (h : ofTag? tag = some a) :
    Loads (name ofTag?) (.string tag) a [] :=
  loads_scalar rfl rfl fun _ => h

theorem loads_float (x : Binary64) : Loads float (.float x) x [x] where
  legible h := Json.legible_float (h x List.mem_cons_self)
  reads h levels b := by
    have hdepth : (Json.float x).depth = 0 := by
      unfold Json.float
      split
      · rfl
      · rfl
    rw [float_float (h x List.mem_cons_self), hdepth]
    split
    · rename_i hfinite
      constructor
      · intro hb
        exact ⟨(Option.some.inj hb).symm, by simpa [AllFinite] using hfinite, Nat.zero_le levels⟩
      · rintro ⟨rfl, -⟩
        rfl
    · rename_i hfinite
      constructor
      · intro hb
        cases hb
      · rintro ⟨-, hall, -⟩
        exact absurd (hall x List.mem_cons_self) hfinite

/-! ## Putting readers together -/

/-- What is read is made into something else. -/
theorem loads_map {read : Reader α} {item : Reader β} (f : β → α) {b : β} (hb : Loads item v b fs)
    (heq : ∀ levels, read levels v = (item levels v).map f) : Loads read v (f b) fs where
  legible := hb.legible
  reads h levels c := by
    rw [heq, Option.map_eq_some_iff]
    simp only [hb.reads h]
    constructor
    · rintro ⟨b', ⟨rfl, hrest⟩, rfl⟩
      exact ⟨rfl, hrest⟩
    · rintro ⟨rfl, hrest⟩
      exact ⟨b, ⟨rfl, hrest⟩, rfl⟩

/-- A kind with one unnamed part takes a level. -/
theorem loads_tagged {read : Reader α} {tag : String} (hshort : read 0 (.tagged tag v) = none)
    (h : Loads (fun levels v => read (levels + 1) (.tagged tag v)) v a fs) :
    Loads read (.tagged tag v) a fs where
  legible hfs := ⟨rfl, h.legible hfs, trivial⟩
  reads hfs levels b := by
    have hdepth : (Json.tagged tag v).depth = v.depth + 1 := by
      simp [Json.tagged, Json.object, Json.depth, Json.depthFields]
    rw [hdepth]
    cases levels with
    | zero =>
      rw [hshort]
      simp
    | succ levels =>
      rw [h.reads hfs levels b, Nat.add_le_add_iff_right]

/-- What reading several values gives, one after the other and all with the same levels. -/
def Gives (m : Option α) (vs : List Json) (levels : Nat) (a : α) (fs : List Binary64) : Prop :=
  ∀ b, m = some b ↔ b = a ∧ AllFinite fs ∧ Json.depthItems vs ≤ levels

theorem gives_pure (levels : Nat) (a : α) : Gives (some a) [] levels a [] := by
  intro b
  constructor
  · intro h
    exact ⟨(Option.some.inj h).symm, allFinite_nil, Nat.zero_le levels⟩
  · rintro ⟨rfl, -⟩
    rfl

theorem gives_bind {item : Reader β} {b : β} (hb : Loads item v b fs) (hfs : AllReadBack fs)
    {levels : Nat} {k : β → Option α} {vs : List Json} (hk : Gives (k b) vs levels a gs) :
    Gives (item levels v >>= k) (v :: vs) levels a (fs ++ gs) := by
  intro c
  have hdepth : Json.depthItems (v :: vs) ≤ levels ↔
      v.depth ≤ levels ∧ Json.depthItems vs ≤ levels := Nat.max_le
  rw [hdepth, allFinite_append]
  constructor
  · intro h
    obtain ⟨b', hb', hc⟩ := Option.bind_eq_some_iff.mp h
    obtain ⟨rfl, hfinite, hlevels⟩ := (hb.reads hfs levels b').mp hb'
    obtain ⟨hca, hrest⟩ := (hk c).mp hc
    exact ⟨hca, ⟨hfinite, hrest.1⟩, hlevels, hrest.2⟩
  · rintro ⟨hca, ⟨hfinite, hfinite'⟩, hlevels, hlevels'⟩
    have hread := (hb.reads hfs levels b).mpr ⟨rfl, hfinite, hlevels⟩
    exact Option.bind_eq_some_iff.mpr ⟨b, hread, (hk c).mpr ⟨hca, hfinite', hlevels'⟩⟩

theorem Gives.map {m : Option β} {vs : List Json} {levels : Nat} {b : β}
    (h : Gives m vs levels b fs) (f : β → α) :
    Gives (m >>= fun b => some (f b)) vs levels (f b) fs := by
  intro c
  constructor
  · intro hc
    obtain ⟨b', hb', hfb⟩ := Option.bind_eq_some_iff.mp hc
    obtain ⟨rfl, hrest⟩ := (h b').mp hb'
    exact ⟨(Option.some.inj hfb).symm, hrest⟩
  · rintro ⟨rfl, hrest⟩
    exact Option.bind_eq_some_iff.mpr ⟨b, (h b).mpr ⟨rfl, hrest⟩, rfl⟩

/-- The last reader in a row. -/
theorem gives_last {item : Reader β} {b : β} (hb : Loads item v b fs) (hfs : AllReadBack fs)
    {levels : Nat} (f : β → α) :
    Gives (item levels v >>= fun b => some (f b)) [v] levels (f b) fs := by
  refine Gives.map (fun c => ?_) f
  have hdepth : Json.depthItems [v] = v.depth := Nat.max_zero _
  rw [hdepth]
  exact hb.reads hfs levels c

/-- Items that are all read in the same way, and the floats written in them. -/
inductive LoadsEach (read : Reader α) : List Json → List α → List Binary64 → Prop
  | nil : LoadsEach read [] [] []
  | cons {v : Json} {vs : List Json} {a : α} {as : List α} {fs gs : List Binary64} :
    Loads read v a fs → LoadsEach read vs as gs → LoadsEach read (v :: vs) (a :: as) (fs ++ gs)

theorem LoadsEach.legible {read : Reader α} {vs : List Json} {as : List α}
    (h : LoadsEach read vs as fs) (hfs : AllReadBack fs) : Json.LegibleItems vs := by
  induction h with
  | nil => trivial
  | cons hv _ ih =>
    rw [allReadBack_append] at hfs
    exact ⟨hv.legible hfs.1, ih hfs.2⟩

theorem LoadsEach.gives {read : Reader α} {vs : List Json} {as : List α}
    (h : LoadsEach read vs as fs) (hfs : AllReadBack fs) (levels : Nat) :
    Gives (vs.mapM (read levels)) vs levels as fs := by
  induction h with
  | nil => exact gives_pure levels []
  | cons hv hvs ih =>
    rw [allReadBack_append] at hfs
    rw [List.mapM_cons]
    exact gives_bind hv hfs.1 ((ih hfs.2).map _)

/-- An array or object takes a level, and its parts are read with the levels that are left. -/
theorem loads_nested {read : Reader α} {vs : List Json}
    (hlegible : AllReadBack fs → v.Legible) (hdepth : v.depth = Json.depthItems vs + 1)
    (hshort : read 0 v = none)
    (h : AllReadBack fs → ∀ levels, Gives (read (levels + 1) v) vs levels a fs) :
    Loads read v a fs where
  legible := hlegible
  reads hfs levels b := by
    rw [hdepth]
    cases levels with
    | zero =>
      rw [hshort]
      simp
    | succ levels => rw [h hfs levels b, Nat.add_le_add_iff_right]

theorem loads_arr {read : Reader (List α)} {item : Reader α} {vs : List Json} {as : List α}
    (h : LoadsEach item vs as fs) (hshort : read 0 (.arr vs) = none)
    (heq : ∀ levels, read (levels + 1) (.arr vs) = vs.mapM (item levels)) :
    Loads read (.arr vs) as fs := by
  refine loads_nested h.legible rfl hshort fun hfs levels => ?_
  rw [heq]
  exact h.gives hfs levels

theorem legible_object {fields : List (String × Json)}
    (h : Json.LegibleItems (fields.map (·.2))) : (Json.object fields).Legible := by
  induction fields with
  | nil => trivial
  | cons field fields ih => exact ⟨rfl, h.1, ih h.2⟩

theorem depth_object (fields : List (String × Json)) :
    (Json.object fields).depth = Json.depthItems (fields.map (·.2)) + 1 := by
  induction fields with
  | nil => rfl
  | cons field fields ih =>
    have ih := Nat.succ.inj ih
    exact congrArg (max field.2.depth · + 1) ih

section Parts

variable {v₁ v₂ v₃ v₄ : Json} {f₁ f₂ f₃ f₄ : List Binary64} {n₁ n₂ n₃ n₄ : String}
  {r₁ : Reader β} {r₂ : Reader γ} {r₃ : Reader δ} {r₄ : Reader ε} {b : β} {c : γ} {d : δ} {e : ε}

/-- A record of two parts. -/
theorem loads_record₂ {read : Reader α} (f : β → γ → α) (h₁ : Loads r₁ v₁ b f₁)
    (h₂ : Loads r₂ v₂ c f₂) (hshort : read 0 (.object [(n₁, v₁), (n₂, v₂)]) = none)
    (heq : ∀ levels, read (levels + 1) (.object [(n₁, v₁), (n₂, v₂)]) =
      do return f (← r₁ levels v₁) (← r₂ levels v₂)) :
    Loads read (.object [(n₁, v₁), (n₂, v₂)]) (f b c) (f₁ ++ f₂) := by
  refine loads_nested (fun hfs => legible_object ?_) (depth_object _) hshort fun hfs levels => ?_
  all_goals rw [allReadBack_append] at hfs
  · exact ⟨h₁.legible hfs.1, h₂.legible hfs.2, trivial⟩
  · rw [heq]
    exact gives_bind h₁ hfs.1 (gives_last h₂ hfs.2 (f b))

/-- A record of three parts. -/
theorem loads_record₃ {read : Reader α} (f : β → γ → δ → α) (h₁ : Loads r₁ v₁ b f₁)
    (h₂ : Loads r₂ v₂ c f₂) (h₃ : Loads r₃ v₃ d f₃)
    (hshort : read 0 (.object [(n₁, v₁), (n₂, v₂), (n₃, v₃)]) = none)
    (heq : ∀ levels, read (levels + 1) (.object [(n₁, v₁), (n₂, v₂), (n₃, v₃)]) =
      do return f (← r₁ levels v₁) (← r₂ levels v₂) (← r₃ levels v₃)) :
    Loads read (.object [(n₁, v₁), (n₂, v₂), (n₃, v₃)]) (f b c d) (f₁ ++ (f₂ ++ f₃)) := by
  refine loads_nested (fun hfs => legible_object ?_) (depth_object _) hshort fun hfs levels => ?_
  all_goals rw [allReadBack_append, allReadBack_append] at hfs
  · exact ⟨h₁.legible hfs.1, h₂.legible hfs.2.1, h₃.legible hfs.2.2, trivial⟩
  · rw [heq]
    exact gives_bind h₁ hfs.1 (gives_bind h₂ hfs.2.1 (gives_last h₃ hfs.2.2 (f b c)))

/-- A record of four parts. -/
theorem loads_record₄ {read : Reader α} (f : β → γ → δ → ε → α) (h₁ : Loads r₁ v₁ b f₁)
    (h₂ : Loads r₂ v₂ c f₂) (h₃ : Loads r₃ v₃ d f₃) (h₄ : Loads r₄ v₄ e f₄)
    (hshort : read 0 (.object [(n₁, v₁), (n₂, v₂), (n₃, v₃), (n₄, v₄)]) = none)
    (heq : ∀ levels, read (levels + 1) (.object [(n₁, v₁), (n₂, v₂), (n₃, v₃), (n₄, v₄)]) =
      do return f (← r₁ levels v₁) (← r₂ levels v₂) (← r₃ levels v₃) (← r₄ levels v₄)) :
    Loads read (.object [(n₁, v₁), (n₂, v₂), (n₃, v₃), (n₄, v₄)]) (f b c d e)
      (f₁ ++ (f₂ ++ (f₃ ++ f₄))) := by
  refine loads_nested (fun hfs => legible_object ?_) (depth_object _) hshort fun hfs levels => ?_
  all_goals rw [allReadBack_append, allReadBack_append, allReadBack_append] at hfs
  · exact ⟨h₁.legible hfs.1, h₂.legible hfs.2.1, h₃.legible hfs.2.2.1, h₄.legible hfs.2.2.2, trivial⟩
  · rw [heq]
    exact gives_bind h₁ hfs.1 (gives_bind h₂ hfs.2.1 (gives_bind h₃ hfs.2.2.1
      (gives_last h₄ hfs.2.2.2 (f b c d))))

/-- An array of two parts. -/
theorem loads_pair {read : Reader α} (f : β → γ → α) (h₁ : Loads r₁ v₁ b f₁)
    (h₂ : Loads r₂ v₂ c f₂) (hshort : read 0 (.arr [v₁, v₂]) = none)
    (heq : ∀ levels, read (levels + 1) (.arr [v₁, v₂]) =
      do return f (← r₁ levels v₁) (← r₂ levels v₂)) :
    Loads read (.arr [v₁, v₂]) (f b c) (f₁ ++ f₂) := by
  refine loads_nested (fun hfs => ?_) rfl hshort fun hfs levels => ?_
  all_goals rw [allReadBack_append] at hfs
  · exact ⟨h₁.legible hfs.1, h₂.legible hfs.2, trivial⟩
  · rw [heq]
    exact gives_bind h₁ hfs.1 (gives_last h₂ hfs.2 (f b))

end Parts

/-- A part that may be absent. -/
theorem loads_none {item : Reader α} : Loads (option item) .null none [] :=
  loads_scalar trivial rfl fun _ => rfl

/-- The levels of an optional part are those of its reader. -/
theorem option_level (item : Reader α) (levels : Nat) (v : Json) :
    option (fun _ v => item levels v) levels v = option item levels v := by
  cases v <;> rfl

theorem loads_some {item : Reader α} (hv : v ≠ .null) (h : Loads item v a fs) :
    Loads (option item) v (some a) fs := by
  refine loads_map some h fun levels => ?_
  cases v with
  | null => exact absurd rfl hv
  | _ => rfl

/-! ## Nodes

One case for each kind of node.  What a reader does with a form of that kind is found by evaluating
it, since the names in the form are those it looks for. -/

theorem loads_position (p : Position) : Loads position p.toJson p [] :=
  loads_record₂ Position.mk (loads_word p.line) (loads_word p.column) rfl fun _ => rfl

theorem ofTag?_binaryOp (op : BinaryOp) : BinaryOp.ofTag? op.tag = some op := by
  cases op <;> rfl

theorem ofTag?_unaryOp (op : UnaryOp) : UnaryOp.ofTag? op.tag = some op := by
  cases op <;> rfl

theorem ofTag?_updateOp (op : UpdateOp) : UpdateOp.ofTag? op.tag = some op := by
  cases op <;> rfl

theorem loads_literal (l : Literal) : Loads literal l.toJson l (Gatherer.floats.literal l) := by
  cases l with
  | nil => exact loads_scalar rfl rfl fun _ => rfl
  | bool b => exact loads_tagged rfl (loads_map Literal.bool (loads_bool b) fun _ => rfl)
  | int n => exact loads_tagged rfl (loads_map Literal.int (loads_int64 n) fun _ => rfl)
  | float x => exact loads_tagged rfl (loads_map Literal.float (loads_float x) fun _ => rfl)
  | string s => exact loads_tagged rfl (loads_map Literal.string (loads_string s) fun _ => rfl)

theorem typeExpr_named (levels : Nat) (v : Json) :
    typeExpr (levels + 1) (.tagged "Named" v) = (string levels v).map .named := by
  rw [typeExpr.eq_def]
  rfl

theorem typeExpr_slice (levels : Nat) (v : Json) :
    typeExpr (levels + 1) (.tagged "Slice" v) = (typeExpr levels v).map .slice := by
  conv => lhs; rw [typeExpr.eq_def]
  rfl

theorem typeExpr_chan (levels : Nat) (v : Json) :
    typeExpr (levels + 1) (.tagged "Chan" v) = (typeExpr levels v).map .chan := by
  conv => lhs; rw [typeExpr.eq_def]
  rfl

theorem loads_typeExpr : ∀ type : TypeExpr, Loads typeExpr type.toJson type []
  | .named name =>
    loads_tagged rfl (loads_map TypeExpr.named (loads_string name) fun _ => typeExpr_named _ _)
  | .slice elem =>
    loads_tagged rfl (loads_map TypeExpr.slice (loads_typeExpr elem) fun _ => typeExpr_slice _ _)
  | .chan elem =>
    loads_tagged rfl (loads_map TypeExpr.chan (loads_typeExpr elem) fun _ => typeExpr_chan _ _)
  | .array elem len =>
    loads_tagged rfl (loads_pair TypeExpr.array (loads_typeExpr elem) (loads_word len) rfl
      fun _ => rfl)
  | .map key value =>
    loads_tagged rfl (loads_pair TypeExpr.map (loads_typeExpr key) (loads_typeExpr value) rfl
      fun _ => rfl)

theorem loads_typePair (types : TypeExpr × TypeExpr) :
    Loads typePair (.arr [types.1.toJson, types.2.toJson]) types [] :=
  loads_pair Prod.mk (loads_typeExpr types.1) (loads_typeExpr types.2) rfl fun _ => rfl

theorem loads_optionType : ∀ type : Option TypeExpr,
    Loads (option typeExpr) (.ofOption TypeExpr.toJson type) type []
  | none => loads_none
  | some type => loads_some (by cases type <;> rintro ⟨⟩) (loads_typeExpr type)

theorem loads_optionTypes : ∀ types : Option (TypeExpr × TypeExpr),
    Loads (option typePair) (.ofOption (fun (k, v) => .arr [k.toJson, v.toJson]) types) types []
  | none => loads_none
  | some types => loads_some (by rintro ⟨⟩) (loads_typePair types)

theorem loads_optionString : ∀ s : Option String,
    Loads (option string) (.ofOption .string s) s []
  | none => loads_none
  | some s => loads_some (by rintro ⟨⟩) (loads_string s)

theorem loads_strings (items : List String) : Loads (list string) (.strings items) items [] := by
  have h : LoadsEach string (items.map .string) items [] := by
    induction items with
    | nil => exact .nil
    | cons s items ih => exact .cons (loads_string s) ih
  exact loads_arr h rfl fun _ => rfl

/-- Floats of parts that have none. -/
theorem Loads.trim {read : Reader α} (h : Loads read v a (fs ++ [])) : Loads read v a fs :=
  List.append_nil fs ▸ h

theorem expr_ne_null (e : Expr) : e.toJson ≠ .null := by
  cases e
  rintro ⟨⟩

theorem stmt_ne_null (s : Stmt) : s.toJson ≠ .null := by
  cases s
  rintro ⟨⟩

theorem LoadsEach.exprs {es : List Expr} (h : LoadsEach expr (exprsToJson es) es fs) :
    Loads exprs (.arr (exprsToJson es)) es fs :=
  loads_arr h rfl fun _ => rfl

theorem LoadsEach.entries {items : List (Expr × Expr)}
    (h : LoadsEach entry (entriesToJson items) items fs) :
    Loads entryList (.arr (entriesToJson items)) items fs :=
  loads_arr h rfl fun _ => rfl

theorem LoadsEach.block {body : List Stmt} (h : LoadsEach stmt (blockToJson body) body fs) :
    Loads block (.arr (blockToJson body)) body fs :=
  loads_arr h rfl fun _ => rfl

theorem LoadsEach.switchCases {cases : List SwitchCase}
    (h : LoadsEach switchCase (switchCasesToJson cases) cases fs) :
    Loads switchCases (.arr (switchCasesToJson cases)) cases fs :=
  loads_arr h rfl fun _ => rfl

theorem LoadsEach.selectCases {cases : List SelectCase}
    (h : LoadsEach selectCase (selectCasesToJson cases) cases fs) :
    Loads selectCases (.arr (selectCasesToJson cases)) cases fs :=
  loads_arr h rfl fun _ => rfl

mutual

theorem loads_expr : ∀ e : Expr, Loads expr e.toJson e (Gatherer.floats.expr e)
  | .mk kind pos =>
    .trim (loads_record₂ Expr.mk (loads_exprKind kind) (loads_position pos) rfl fun _ => rfl)

theorem loads_exprKind : ∀ kind : ExprKind,
    Loads exprKind kind.toJson kind (Gatherer.floats.exprKind kind)
  | .literal value =>
    loads_tagged rfl (loads_map ExprKind.literal (loads_literal value) fun _ => rfl)
  | .ident name => loads_tagged rfl (loads_map ExprKind.ident (loads_string name) fun _ => rfl)
  | .binary op left right =>
    loads_tagged rfl (loads_record₃ ExprKind.binary (loads_name (ofTag?_binaryOp op))
      (loads_expr left) (loads_expr right) rfl fun _ => rfl)
  | .unary op operand =>
    loads_tagged rfl (loads_record₂ ExprKind.unary (loads_name (ofTag?_unaryOp op))
      (loads_expr operand) rfl fun _ => rfl)
  | .ternary condition thenExpr elseExpr =>
    loads_tagged rfl (loads_record₃ ExprKind.ternary (loads_expr condition) (loads_expr thenExpr)
      (loads_expr elseExpr) rfl fun _ => rfl)
  | .coalesce left right =>
    loads_tagged rfl (loads_record₂ ExprKind.coalesce (loads_expr left) (loads_expr right) rfl
      fun _ => rfl)
  | .member object name =>
    loads_tagged rfl (.trim (loads_record₂ ExprKind.member (loads_expr object) (loads_string name)
      rfl fun _ => rfl))
  | .index object index =>
    loads_tagged rfl (loads_record₂ ExprKind.index (loads_expr object) (loads_expr index) rfl
      fun _ => rfl)
  | .slice object start stop =>
    loads_tagged rfl (loads_record₃ ExprKind.slice (loads_expr object) (loads_optionExpr start)
      (loads_optionExpr stop) rfl fun levels => by
        rw [← option_level expr, ← option_level expr]
        rfl)
  | .call callee args spread => by
    have h : Loads exprKind (ExprKind.call callee args spread).toJson (.call callee args spread)
        (Gatherer.floats.expr callee ++ (Gatherer.floats.exprs args ++ [])) :=
      loads_tagged rfl (loads_record₃ ExprKind.call (loads_expr callee) (loadsEach_exprs args).exprs
        (loads_bool spread) rfl fun _ => rfl)
    rwa [List.append_nil] at h
  | .func definition =>
    loads_tagged rfl (loads_map ExprKind.func (loads_funcDef definition) fun _ => rfl)
  | .list elemType items =>
    loads_tagged rfl (loads_record₂ ExprKind.list (loads_optionType elemType) (loadsEach_exprs items).exprs
      rfl fun _ => rfl)
  | .map types entries =>
    loads_tagged rfl (loads_record₂ ExprKind.map (loads_optionTypes types) (loadsEach_entries entries).entries
      rfl fun _ => rfl)
  | .contains item container =>
    loads_tagged rfl (loads_record₂ ExprKind.contains (loads_expr item) (loads_expr container) rfl
      fun _ => rfl)
  | .update target op =>
    loads_tagged rfl (.trim (loads_record₂ ExprKind.update (loads_expr target)
      (loads_name (ofTag?_updateOp op)) rfl fun _ => rfl))
  | .recv channel => loads_tagged rfl (loads_map ExprKind.recv (loads_expr channel) fun _ => rfl)
  | .make type args =>
    loads_tagged rfl (loads_record₂ ExprKind.make (loads_typeExpr type) (loadsEach_exprs args).exprs rfl
      fun _ => rfl)
  | .new type => loads_tagged rfl (loads_map ExprKind.new (loads_typeExpr type) fun _ => rfl)

theorem loads_optionExpr : ∀ e : Option Expr,
    Loads (option expr) (optionExprToJson e) e (Gatherer.floats.optionExpr e)
  | none => loads_none
  | some e => loads_some (expr_ne_null e) (loads_expr e)

theorem loadsEach_exprs : ∀ es : List Expr,
    LoadsEach expr (exprsToJson es) es (Gatherer.floats.exprs es)
  | [] => .nil
  | e :: rest => .cons (loads_expr e) (loadsEach_exprs rest)

theorem loadsEach_entries : ∀ items : List (Expr × Expr),
    LoadsEach entry (entriesToJson items) items (Gatherer.floats.entries items)
  | [] => .nil
  | (key, value) :: rest =>
    .cons (loads_pair Prod.mk (loads_expr key) (loads_expr value) rfl fun _ => rfl)
      (loadsEach_entries rest)

theorem loads_funcDef : ∀ definition : FuncDef,
    Loads funcDef definition.toJson definition (Gatherer.floats.func definition)
  | .mk name params variadic body =>
    loads_record₄ FuncDef.mk (loads_optionString name) (loads_strings params) (loads_bool variadic)
      (loadsEach_stmts body).block rfl fun _ => rfl

theorem loadsEach_stmts : ∀ body : List Stmt,
    LoadsEach stmt (blockToJson body) body (Gatherer.floats.stmts body)
  | [] => .nil
  | s :: rest => .cons (loads_stmt s) (loadsEach_stmts rest)

theorem loads_optionBlock : ∀ body : Option (List Stmt),
    Loads (option block) (optionBlockToJson body) body (Gatherer.floats.optionBlock body)
  | none => loads_none
  | some body => loads_some (by rintro ⟨⟩) (loadsEach_stmts body).block

theorem loads_optionStmt : ∀ s : Option Stmt,
    Loads (option stmt) (optionStmtToJson s) s (Gatherer.floats.optionStmt s)
  | none => loads_none
  | some s => loads_some (stmt_ne_null s) (loads_stmt s)

theorem loads_stmt : ∀ s : Stmt, Loads stmt s.toJson s (Gatherer.floats.stmt s)
  | .mk kind pos =>
    .trim (loads_record₂ Stmt.mk (loads_stmtKind kind) (loads_position pos) rfl fun _ => rfl)

theorem loads_stmtKind : ∀ kind : StmtKind,
    Loads stmtKind kind.toJson kind (Gatherer.floats.stmtKind kind)
  | .expr value => loads_tagged rfl (loads_map StmtKind.expr (loads_expr value) fun _ => rfl)
  | .var names values =>
    loads_tagged rfl (loads_record₂ StmtKind.var (loads_strings names) (loadsEach_exprs values).exprs rfl
      fun _ => rfl)
  | .assign targets values =>
    loads_tagged rfl (loads_record₂ StmtKind.assign (loadsEach_exprs targets).exprs (loadsEach_exprs values).exprs rfl
      fun _ => rfl)
  | .opAssign target op value =>
    loads_tagged rfl (loads_record₃ StmtKind.opAssign (loads_expr target)
      (loads_name (ofTag?_binaryOp op)) (loads_expr value) rfl fun _ => rfl)
  | .ifElse condition thenBlock elseBlock =>
    loads_tagged rfl (loads_record₃ StmtKind.ifElse (loads_expr condition) (loadsEach_stmts thenBlock).block
      (loads_optionBlock elseBlock) rfl fun levels => by
        rw [← option_level block]
        rfl)
  | .switch discriminant cases default =>
    loads_tagged rfl (loads_record₃ StmtKind.switch (loads_expr discriminant)
      (loadsEach_switchCases cases).switchCases (loads_optionBlock default) rfl fun levels => by
        rw [← option_level block]
        rfl)
  | .select cases default =>
    loads_tagged rfl (loads_record₂ StmtKind.select (loadsEach_selectCases cases).selectCases
      (loads_optionBlock default) rfl fun levels => by
        rw [← option_level block]
        rfl)
  | .loop condition body =>
    loads_tagged rfl (loads_record₂ StmtKind.loop (loads_optionExpr condition) (loadsEach_stmts body).block
      rfl fun levels => by
        rw [← option_level expr]
        rfl)
  | .forClause init condition post body =>
    loads_tagged rfl (loads_record₄ StmtKind.forClause (loads_optionStmt init)
      (loads_optionExpr condition) (loads_optionStmt post) (loadsEach_stmts body).block rfl fun levels => by
        rw [← option_level stmt, ← option_level expr, ← option_level stmt]
        rfl)
  | .forIn vars iterable body =>
    loads_tagged rfl (loads_record₃ StmtKind.forIn (loads_strings vars) (loads_expr iterable)
      (loadsEach_stmts body).block rfl fun _ => rfl)
  | .func definition =>
    loads_tagged rfl (loads_map StmtKind.func (loads_funcDef definition) fun _ => rfl)
  | .ret values => loads_tagged rfl (loads_map StmtKind.ret (loadsEach_exprs values).exprs fun _ => rfl)
  | .brk | .cont => loads_scalar rfl rfl fun levels => by cases levels <;> rfl
  | .throw value => loads_tagged rfl (loads_map StmtKind.throw (loads_expr value) fun _ => rfl)
  | .tryCatch body catchVar handler last =>
    loads_tagged rfl (loads_record₄ StmtKind.tryCatch (loadsEach_stmts body).block
      (loads_optionString catchVar) (loads_optionBlock handler) (loads_optionBlock last) rfl
      fun levels => by
        rw [← option_level block, ← option_level block]
        rfl)
  | .defer call => loads_tagged rfl (loads_map StmtKind.defer (loads_expr call) fun _ => rfl)
  | .module name body =>
    loads_tagged rfl (loads_record₂ StmtKind.module (loads_string name) (loadsEach_stmts body).block rfl
      fun _ => rfl)
  | .go call => loads_tagged rfl (loads_map StmtKind.go (loads_expr call) fun _ => rfl)
  | .send channel value =>
    loads_tagged rfl (loads_record₂ StmtKind.send (loads_expr channel) (loads_expr value) rfl
      fun _ => rfl)
  | .block body => loads_tagged rfl (loads_map StmtKind.block (loadsEach_stmts body).block fun _ => rfl)

theorem loadsEach_switchCases : ∀ cases : List SwitchCase,
    LoadsEach switchCase (switchCasesToJson cases) cases (Gatherer.floats.switchCases cases)
  | [] => .nil
  | .mk values body :: rest =>
    .cons (loads_record₂ SwitchCase.mk (loadsEach_exprs values).exprs (loadsEach_stmts body).block rfl fun _ => rfl)
      (loadsEach_switchCases rest)

theorem loadsEach_selectCases : ∀ cases : List SelectCase,
    LoadsEach selectCase (selectCasesToJson cases) cases (Gatherer.floats.selectCases cases)
  | [] => .nil
  | .mk op body :: rest =>
    .cons (loads_record₂ SelectCase.mk (loads_selectOp op) (loadsEach_stmts body).block rfl fun _ => rfl)
      (loadsEach_selectCases rest)

theorem loads_selectOp : ∀ op : SelectOp,
    Loads selectOp op.toJson op (Gatherer.floats.selectOp op)
  | .recv channel value ok =>
    loads_tagged rfl (.trim (loads_record₃ SelectOp.recv (loads_expr channel)
      (loads_optionString value) (loads_optionString ok) rfl fun _ => rfl))
  | .send channel value =>
    loads_tagged rfl (loads_record₂ SelectOp.send (loads_expr channel) (loads_expr value) rfl
      fun _ => rfl)

end

end Decode

/-- **A script is loaded from its JSON form, or nothing is.** -/
theorem Block.loads (script : Block) :
    Decode.Loads Block.ofJson? script.toJson script script.floats :=
  (Decode.loadsEach_stmts script).block

end ScriptEngine
