import ReactiveScript.Evaluation.Error
import ReactiveScript.Evaluation.Arguments
import ReactiveScript.Text.Copies
import ReactiveScript.Tree

/-!
# Operators

What operators, subscripts and loops do to values that are already computed.

* `BinaryOp.apply`, `UnaryOp.apply` — the operators.
* `Value.item`, `Value.field` — an item of a list, text or dict, and a field of a dict.
* `Value.items` — what a loop runs over.
-/

set_option autoImplicit false

namespace ReactiveScript

namespace UnaryOp

/-- The value of an operator with one operand. -/
def apply (op : UnaryOp) (v : Value) : Checked Value :=
  match op, v with
  | .not, _ => .ok (.bool (!v.isTruthy))
  | .neg, .number n => .ok (.number (-n))
  | .neg, .bool b => .ok (.number (if b then -1 else 0))
  | .neg, _ => typeError ("bad operand type for unary -: '" ++ v.typeName ++ "'")

end UnaryOp

namespace BinaryOp

/-- The longest text that a repetition may build, in bytes. -/
def maxTextBytes : Nat := 16 * 1024 * 1024

/-- A text so many times over; the fraction of the number does not count, and a negative number
gives the empty text. -/
def repeated (s : String) (n : Float) : Checked Value :=
  let times := if 0 < n then Number.floor n else 0
  let bytes := times * Float.ofNat s.utf8ByteSize
  if Float.ofNat maxTextBytes < bytes then
    .error (.overflow ("repeated string of " ++ Number.text "NaN" bytes ++
      " bytes exceeds the limit of " ++ toString maxTextBytes))
  else if s.isEmpty then .ok (.text "")
  else .ok (.text (Text.copies s (Number.toCount times)))

/-- Fail because an operator does not take its operands. -/
def unsupported (op : BinaryOp) (a b : Value) : Checked Value :=
  typeError ("unsupported operand type(s) for " ++ op.text ++ ": '" ++ a.typeName ++ "' and '" ++
    b.typeName ++ "'")

/-- The remainder of a division whose quotient goes to the next lower integer. -/
def remainder (a b : Float) : Float := a - b * Number.floor (a / b)

/-- An arithmetic operator on two values that count as numbers. -/
def arithmetic (op : BinaryOp) (a b : Value) : Checked Value :=
  match a.toNumber?, b.toNumber? with
  | some m, some n =>
    match op with
    | .add => .ok (.number (m + n))
    | .sub => .ok (.number (m - n))
    | .mul => .ok (.number (m * n))
    | .div => if n == 0 then .error .zeroDivision else .ok (.number (m / n))
    | .mod => if n == 0 then .error .zeroDivision else .ok (.number (remainder m n))
    | _ => unsupported op a b
  | _, _ => unsupported op a b

/-- A comparison, given which outcomes of comparing make it hold. -/
def comparison (op : BinaryOp) (holds : Ordering → Bool) (a b : Value) : Checked Value :=
  match a.compare? b with
  | some o => .ok (.bool (holds o))
  | none =>
    typeError ("'" ++ op.text ++ "' not supported between instances of '" ++ a.typeName ++
      "' and '" ++ b.typeName ++ "'")

/-- The value of an operator with two operands. -/
def apply (op : BinaryOp) (a b : Value) : Checked Value :=
  match op with
  | .eq => .ok (.bool (a.same b))
  | .notEq => .ok (.bool (!a.same b))
  | .lt => comparison op (· == .lt) a b
  | .le => comparison op (· != .gt) a b
  | .gt => comparison op (· == .gt) a b
  | .ge => comparison op (· != .lt) a b
  | .add =>
    match a, b with
    | .text s, .text t => .ok (.text (s ++ t))
    | .list as, .list bs => .ok (.list (as ++ bs))
    | _, _ => arithmetic op a b
  | .mul =>
    match a, b with
    | .text s, _ => match b.toNumber? with
      | some n => repeated s n
      | none => unsupported op a b
    | _, .text s => match a.toNumber? with
      | some n => repeated s n
      | none => unsupported op a b
    | _, _ => arithmetic op a b
  | _ => arithmetic op a b

end BinaryOp

namespace Value

/-- The position in a list of some length that an index stands for; a negative one counts from the
end. -/
def position (index : Value) (length : Nat) : Checked Nat :=
  match index.toNumber?.filter Number.isWhole with
  | none => typeError ("indices must be integers, not " ++ index.typeName)
  | some n =>
    let i := if n < 0 then n + Float.ofNat length else n
    if i < 0 ∨ Float.ofNat length ≤ i then .error (.index "index out of range")
    else .ok (Number.toCount i)

/-- The key of a dict that an index stands for. -/
def asKey? : Value → Option String
  | .text s => some s
  | .number n => some (numberText n)
  | _ => none

/-- The item at a position; there is one at every position that `position` gives. -/
def nth {α : Type} (items : List α) (i : Nat) : Checked α :=
  match items[i]? with
  | some a => .ok a
  | none => .error (.index "index out of range")

/-- An item of a list, a character of a text or the value under a key of a dict. -/
def item (v index : Value) : Checked Value :=
  match v with
  | .list items => (index.position items.length).bind (nth items)
  | .text s => (index.position s.length).bind fun i =>
    (nth s.toList i).map fun c => .text (String.singleton c)
  | .dict entries =>
    match index.asKey?.bind (Table.get? · entries) with
    | some a => .ok a
    | none => .error (.key index.repr)
  | _ => typeError ("'" ++ v.typeName ++ "' object is not subscriptable")

/-- A field of a dict. -/
def field (v : Value) (name : String) : Checked Value :=
  match v with
  | .dict entries =>
    match Table.get? name entries with
    | some a => .ok a
    | none => .error (.validation ("unknown field '" ++ name ++ "'") (Table.keys entries))
  | _ => typeError ("'" ++ v.typeName ++ "' object has no attribute '" ++ name ++ "'")

/-- What a loop over a value runs over: items, characters or keys. -/
def items : Value → Checked (List Value)
  | .list items => .ok items
  | .text s => .ok (s.toList.map fun c => .text (String.singleton c))
  | .dict entries => .ok ((Table.keys entries).map .text)
  | v => typeError ("'" ++ v.typeName ++ "' object is not iterable")

end Value

end ReactiveScript
