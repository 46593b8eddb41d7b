import ScriptEngine.Config
import ScriptEngine.Fault
import ScriptEngine.Heap.Equality

/-! Operators on evaluated operands. Arithmetic reads scalars as numbers; integers wrap around, and
a float on either side makes the result a float. -/
namespace ScriptEngine.Heap

/-- Fails because an operator has no meaning for a value. -/
def undefinedOn {α : Type} (h : Heap) (symbol : String) (v : Value) : Outcome α :=
  invalid ("operator " ++ symbol ++ " not defined on " ++ h.typeName v)

/-- A scalar as a number. -/
def numeric (h : Heap) (symbol : String) (v : Value) : Outcome Number :=
  if v.isReference then h.undefinedOn symbol v else .ok v.toNumber

/-- A scalar as an integer. -/
def integer (h : Heap) (symbol : String) (v : Value) : Outcome Int64 :=
  (h.numeric symbol v).map Number.toInt

/-- Applies an operation to integers or to floats. -/
def arithmetic (h : Heap) (symbol : String) (ints : Int64 → Int64 → Int64)
    (floats : Binary64 → Binary64 → Binary64) (left right : Value) : Outcome Value := do
  match ← h.numeric symbol left, ← h.numeric symbol right with
  | .int a, .int b => return .int (ints a b)
  | a, b => return .float (floats a.toFloat b.toFloat)

/-! ## Powers -/

/-- `b ^ e` if it is a 64-bit integer. Beyond the exponent 63 only 0, 1 and -1 have such powers. -/
def intPower? (b : Int) (e : Nat) : Option Int64 :=
  if b = 0 ∨ b = 1 then some (Int64.ofInt (if e = 0 then 1 else b))
  else if b = -1 then some (if e % 2 = 0 then 1 else -1)
  else if e < 64 ∧ Decimal.inInt64 (Int.pow b e) then some (Int64.ofInt (Int.pow b e))
  else none

/-- The exact power of integers where it fits 64 bits, else the power of floats. -/
def power (a b : Number) : Number :=
  match a, b with
  | .int base, .int exponent =>
    if 0 ≤ exponent.toInt ∧ exponent.toInt < UInt32.size then
      match intPower? base.toInt exponent.toInt.toNat with
      | some n => .int n
      | none => .float (.pow (.ofInt64 base) (.ofInt64 exponent))
    else .float (.pow (.ofInt64 base) (.ofInt64 exponent))
  | a, b => .float (a.toFloat.pow b.toFloat)

/-! ## Shifts -/

/-- A left shift, which runs out of bits, or a right shift, which keeps the sign. -/
def shift (left : Bool) (value count : Int64) : Outcome Int64 :=
  if count.toInt < 0 then invalid ("negative shift count " ++ toString count.toInt)
  else if count.toInt < 64 then .ok (if left then value <<< count else value >>> count)
  else .ok (if left then 0 else if value.toInt < 0 then -1 else 0)

/-! ## Repetition -/

/-- A text and a count under `*`, on either side. -/
def repeatOperands (op : BinaryOp) (left right : Value) : Option (String × Int64) :=
  match op, left, right with
  | .mul, .str s, .int n => some (s, n)
  | .mul, .int n, .str s => some (s, n)
  | _, _, _ => none

/-- The number of characters of a repeated text. -/
def repeatLength (text : String) (count : Int64) : Outcome Nat :=
  if count.toInt < 0 then invalid "negative string repeat count"
  else
    let length := text.length * count.toInt.toNat
    if length < UInt64.size then .ok length else invalid "string repeat count overflows"

/-- `text` written `n` times. -/
def repeated (text : String) (n : Nat) : String :=
  if text.isEmpty then "" else n.repeat (· ++ text) ""

/-! ## Comparison -/

/-- Text by code points, everything else as numbers. -/
def compare (h : Heap) (symbol : String) (left right : Value) : Outcome (Option Ordering) :=
  match left, right with
  | .str a, .str b => .ok (some (Ord.compare a b))
  | left, right => do
    match ← h.numeric symbol left, ← h.numeric symbol right with
    | .int a, .int b => return some (Ord.compare a.toInt b.toInt)
    | a, b => return a.toFloat.compare? b.toFloat

/-! ## The operators -/

/-- Text joins with the text of anything, lists join, all else is added. -/
def add (h : Heap) (left right : Value) : Outcome (Value × Heap) :=
  match left, right with
  | .str _, _ | _, .str _ => .ok (.str (h.text left ++ h.text right), h)
  | .list a, .list b =>
    let a := h.list a
    let b := h.list b
    let elemType := if a.elemType = b.elemType then a.elemType else none
    .ok (h.addList ⟨a.items ++ b.items, elemType, false⟩)
  | left, right => do return (← h.arithmetic "+" (· + ·) (· + ·) left right, h)

/-- An operator that makes no new object. -/
def scalarOp (h : Heap) (op : BinaryOp) (left right : Value) : Outcome Value :=
  let s := op.symbol
  match op with
  | .add => return (← h.add left right).1
  | .sub => h.arithmetic s (· - ·) (· - ·) left right
  | .mul =>
    match repeatOperands op left right with
    | some (text, count) => do
      if defaultMaxElements < (← repeatLength text count) then
        invalid "string repeat result too large"
      return .str (repeated text count.toInt.toNat)
    | none => h.arithmetic s (· * ·) (· * ·) left right
  | .div => do return .float ((← h.numeric s left).toFloat / (← h.numeric s right).toFloat)
  | .mod => do
    let a ← h.integer s left
    let b ← h.integer s right
    if b = 0 then invalid "integer divide by zero" else return .int (a % b)
  | .pow => do return (power (← h.numeric s left) (← h.numeric s right)).toValue
  | .bitAnd => do return .int ((← h.integer s left) &&& (← h.integer s right))
  | .bitOr => do return .int ((← h.integer s left) ||| (← h.integer s right))
  | .bitXor => do return .int ((← h.integer s left) ^^^ (← h.integer s right))
  | .shl => do return .int (← shift true (← h.integer s left) (← h.integer s right))
  | .shr => do return .int (← shift false (← h.integer s left) (← h.integer s right))
  | .and => return .bool (h.truthy left && h.truthy right)
  | .or => return .bool (h.truthy left || h.truthy right)
  | .eq => return .bool (h.equal left right)
  | .ne => return .bool (!h.equal left right)
  | .lt => do return .bool ((← h.compare s left right) == some .lt)
  | .le => do return .bool ([some .lt, some .eq].contains (← h.compare s left right))
  | .gt => do return .bool ((← h.compare s left right) == some .gt)
  | .ge => do return .bool ([some .gt, some .eq].contains (← h.compare s left right))

/-- A binary operator on two values. -/
def binary (h : Heap) (op : BinaryOp) (left right : Value) : Outcome (Value × Heap) :=
  match op with
  | .add => h.add left right
  | op => do return (← h.scalarOp op left right, h)

/-- A unary operator. -/
def unary (h : Heap) (op : UnaryOp) (v : Value) : Outcome Value := do
  match op with
  | .not => return .bool (!h.truthy v)
  | .neg =>
    match ← h.numeric op.symbol v with
    | .float x => return .float (-x)
    | .int n => return .int (-n)
  | .bitNot => return .int (~~~(← h.integer op.symbol v))

/-- `++` and `--`: a float stays one, all else becomes an integer. -/
def update (h : Heap) (op : UpdateOp) (v : Value) : Outcome Value := do
  match v with
  | .float x => return .float (match op with | .inc => x + .one | .dec => x - .one)
  | v =>
    let n ← h.integer op.symbol v
    return .int (match op with | .inc => n + 1 | .dec => n - 1)

end ScriptEngine.Heap
