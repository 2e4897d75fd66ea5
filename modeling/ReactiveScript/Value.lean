import ReactiveScript.Json
import ReactiveScript.Table

/-!
# Script values

A `Value` is what an expression evaluates to, a graph node stores and an output unit shows: nothing,
a truth value, a number, a text, a list or a dict.  Dicts keep the order in which their keys came,
and equality does not look at it.

* `Value.same` — the equality of scripts: truth values count as the numbers one and zero.
* `Value.display`, `Value.repr` — the text of a value, bare and as it appears inside a list.
* `Value.toJson`, `Value.ofJson` — the normal form in which values leave the engine: members
  sorted by key, whole numbers as integers, infinities and NaN as null.
-/

set_option autoImplicit false

namespace ReactiveScript

/-- A dynamically typed script value. -/
inductive Value where
  /-- The absence of a value. -/
  | null
  /-- A truth value. -/
  | bool (b : Bool)
  /-- A number. -/
  | number (n : Float)
  /-- A text. -/
  | text (s : String)
  /-- A list. -/
  | list (items : List Value)
  /-- A dict, keys in the order in which they came. -/
  | dict (entries : List (String × Value))
  deriving Inhabited

namespace Value

/-- The name of a value's type in messages. -/
def typeName : Value → String
  | .null => "NoneType"
  | .bool _ => "bool"
  | .number _ => "number"
  | .text _ => "str"
  | .list _ => "list"
  | .dict _ => "dict"

/-- Whether a condition with this value holds. -/
def isTruthy : Value → Bool
  | .null => false
  | .bool b => b
  | .number n => !(n == 0) && !n.isNaN
  | .text s => !s.isEmpty
  | .list items => !items.isEmpty
  | .dict entries => !entries.isEmpty

/-- Whether a value is the absence of one. -/
def isNull : Value → Bool
  | .null => true
  | _ => false

/-- The number a value counts as: itself, or one and zero for the truth values. -/
def toNumber? : Value → Option Float
  | .number n => some n
  | .bool b => some (if b then 1 else 0)
  | _ => none

/-- The text of a text value. -/
def toText? : Value → Option String
  | .text s => some s
  | _ => none

/-- The items of a list value. -/
def toList? : Value → Option (List Value)
  | .list items => some items
  | _ => none

/-- The number of items of a list or of entries of a dict. -/
def size? : Value → Option Nat
  | .list items => some items.length
  | .dict entries => some entries.length
  | _ => none

/-! ## Equality -/

mutual

/-- Whether two values are equal to a script. -/
def same : Value → Value → Bool
  | .null, .null => true
  | .bool a, .bool b => a == b
  | .number a, .number b => a == b
  | .bool a, .number b => (if a then 1 else 0) == b
  | .number a, .bool b => a == (if b then 1 else 0)
  | .text a, .text b => a == b
  | .list as, .list bs => sameItems as bs
  | .dict as, .dict bs => as.length == bs.length && allFound as bs
  | _, _ => false

/-- Whether two lists have equal items at equal positions. -/
def sameItems : List Value → List Value → Bool
  | [], [] => true
  | a :: as, b :: bs => same a b && sameItems as bs
  | _, _ => false

/-- Whether every entry of the first dict is in the second under an equal value. -/
def allFound : List (String × Value) → List (String × Value) → Bool
  | [], _ => true
  | (k, a) :: as, bs =>
    (match Table.get? k bs with
      | some b => same a b
      | none => false) && allFound as bs

end

/-! ## Text -/

/-- The text of a number: whole numbers below `10 ^ 16` as integers, so that a negative zero is
plain `0`, and all others by their shortest digits. -/
def numberText (n : Float) : String :=
  if Number.isWhole n && n.abs < 1e16 then toString (Number.toInt64 n) else Number.text "nan" n

/-- A text between single quotes, with backslashes and single quotes escaped. -/
def quoted (s : String) : String :=
  String.ofList ('\'' :: s.toList.flatMap (fun c =>
    if c = '\\' ∨ c = '\'' then ['\\', c] else [c]) ++ ['\''])

mutual

/-- The text of a value as it appears inside a list or dict: texts are quoted. -/
def repr : Value → String
  | .null => "None"
  | .bool b => if b then "True" else "False"
  | .number n => numberText n
  | .text s => quoted s
  | .list items => "[" ++ String.intercalate ", " (itemReprs items) ++ "]"
  | .dict entries => "\x7b" ++ String.intercalate ", " (entryReprs entries) ++ "\x7d"

/-- The texts of the items of a list. -/
def itemReprs : List Value → List String
  | [] => []
  | v :: vs => repr v :: itemReprs vs

/-- The texts of the entries of a dict; keys are quoted but not escaped. -/
def entryReprs : List (String × Value) → List String
  | [] => []
  | (k, v) :: rest => ("'" ++ k ++ "': " ++ repr v) :: entryReprs rest

end

/-- The text of a value. -/
def display : Value → String
  | .text s => s
  | v => repr v

/-! ## JSON -/

/-- The JSON form of a number: an integer if it is whole and below `9 · 10 ^ 15`, null if it is not
finite. -/
def numberToJson (n : Float) : Json :=
  if !n.isFinite then .null
  else if Number.isWhole n && n.abs < 9e15 then .int (Number.toInt64 n)
  else .float n

mutual

/-- The JSON form of a value. -/
def toJson : Value → Json
  | .null => .null
  | .bool b => .bool b
  | .number n => numberToJson n
  | .text s => .text s
  | .list items => .array (itemsToJson items)
  | .dict entries => .object (Json.sortMembers (entriesToJson entries))

/-- The JSON forms of the items of a list. -/
def itemsToJson : List Value → List Json
  | [] => []
  | v :: vs => toJson v :: itemsToJson vs

/-- The JSON forms of the entries of a dict, in its order. -/
def entriesToJson : List (String × Value) → List (String × Json)
  | [] => []
  | (k, v) :: rest => (k, toJson v) :: entriesToJson rest

end

mutual

/-- The value that a JSON document stands for. -/
def ofJson : Json → Value
  | .null => .null
  | .bool b => .bool b
  | .int n => .number (Float.ofInt n)
  | .float x => .number x
  | .text s => .text s
  | .array items => .list (itemsOfJson items)
  | .object members => .dict (Table.ofList (membersOfJson members))

/-- The values of the items of an array. -/
def itemsOfJson : List Json → List Value
  | [] => []
  | j :: js => ofJson j :: itemsOfJson js

/-- The values of the members of an object. -/
def membersOfJson : List (String × Json) → List (String × Value)
  | [] => []
  | (k, j) :: js => (k, ofJson j) :: membersOfJson js

end

/-! ## Order -/

/-- How two numbers compare; NaN does not. -/
def compareNumbers (a b : Float) : Option Ordering :=
  if a < b then some .lt
  else if b < a then some .gt
  else if a == b then some .eq
  else none

mutual

/-- How two values compare, if they do: numbers with numbers, texts with texts, and lists with lists
by the first items that differ. -/
def compare? : Value → Value → Option Ordering
  | .text a, .text b => some (compare a b)
  | .list as, .list bs => compareItems as bs
  | .number a, .number b => compareNumbers a b
  | .number a, .bool b => compareNumbers a (if b then 1 else 0)
  | .bool a, .number b => compareNumbers (if a then 1 else 0) b
  | .bool a, .bool b => compareNumbers (if a then 1 else 0) (if b then 1 else 0)
  | _, _ => none

/-- How two lists compare: by the first pair of items that is not equal, then by length. -/
def compareItems : List Value → List Value → Option Ordering
  | [], [] => some .eq
  | [], _ :: _ => some .lt
  | _ :: _, [] => some .gt
  | a :: as, b :: bs =>
    match compare? a b with
    | some .eq => compareItems as bs
    | other => other

end

end Value

end ReactiveScript
