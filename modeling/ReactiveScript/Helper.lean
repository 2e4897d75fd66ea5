import ReactiveScript.Evaluation.Arguments
import ReactiveScript.Number.Power
import ReactiveScript.Number.Reading
import ReactiveScript.Text.Blank
import ReactiveScript.Text.Case

/-!
# Helpers

A helper is a built-in function that computes a value from its arguments and does nothing else.
`Helper.call` is all there is to one.

* `Helper.sortValues` — a stable insertion sort that meets, unless all items compare, two that do
  not.
* `Helper.disordered?` — the items of a call of `sorted` that inserting does not speak for.
* `Helper.extreme` — the first smallest or largest item.
* `printedLine` — the line that a call of `print` writes.
-/

set_option autoImplicit false

namespace ReactiveScript

/-- The helpers. -/
inductive Helper where
  /-- The number of characters, items or entries. -/
  | len
  /-- The text of a value. -/
  | str
  /-- A whole number. -/
  | int
  /-- A number. -/
  | float
  /-- The nearest number with so many places. -/
  | round
  /-- A magnitude. -/
  | abs
  /-- The smallest. -/
  | min
  /-- The largest. -/
  | max
  /-- The total. -/
  | sum
  /-- Equally spaced numbers. -/
  | range
  /-- The items in order. -/
  | sorted
  /-- A text in capitals. -/
  | upper
  /-- A text in small letters. -/
  | lower
  deriving DecidableEq, Repr

namespace Helper

/-- All helpers. -/
def all : List Helper :=
  [.len, .str, .int, .float, .round, .abs, .min, .max, .sum, .range, .sorted, .upper, .lower]

/-- The name by which a helper is called. -/
def name : Helper → String
  | .len => "len"
  | .str => "str"
  | .int => "int"
  | .float => "float"
  | .round => "round"
  | .abs => "abs"
  | .min => "min"
  | .max => "max"
  | .sum => "sum"
  | .range => "range"
  | .sorted => "sorted"
  | .upper => "upper"
  | .lower => "lower"

/-- The helper with a name. -/
def ofName? (n : String) : Option Helper := all.find? (·.name == n)

/-- The one argument of a helper that takes one. -/
def only (h : Helper) (args : Arguments) : Checked Value := do
  let b ← args.bind h.name ["x"]
  b.required "x"

/-! ## Conversions -/

/-- The number of characters, items or entries of a value. -/
def length : Value → Checked Value
  | .text s => .ok (.number (Float.ofNat s.length))
  | .list items => .ok (.number (Float.ofNat items.length))
  | .dict entries => .ok (.number (Float.ofNat entries.length))
  | v => typeError ("object of type '" ++ v.typeName ++ "' has no len()")

/-- The integer that a text spells, if it is one of sixty-four bits: an optional sign and digits. -/
def readInt? (s : String) : Option Int :=
  let (negative, ds) := match s.toList with
    | '-' :: ds => (true, ds)
    | '+' :: ds => (false, ds)
    | ds => (false, ds)
  let n : Int := if negative then -(Number.ofDigits ds : Int) else Number.ofDigits ds
  if ds ≠ [] ∧ ds.all Char.isDigit ∧ -Int.pow 2 63 ≤ n ∧ n < Int.pow 2 63 then some n else none

/-- Fail because a value is neither text nor number. -/
def noConversion (h : Helper) (v : Value) : Checked Value :=
  typeError (h.name ++ "() argument must be a string or a number, not " ++ v.typeName)

/-- The whole number that a value stands for. -/
def toInt (v : Value) : Checked Value :=
  match v with
  | .number n => if n.isFinite then .ok (.number (Number.truncate n)) else noConversion .int v
  | .bool b => .ok (.number (if b then 1 else 0))
  | .text s =>
    match readInt? (Text.trim s) with
    | some n => .ok (.number (Float.ofInt n))
    | none => typeError ("invalid literal for int(): " ++ v.repr)
  | _ => noConversion .int v

/-- The number that a value stands for. -/
def toFloat (v : Value) : Checked Value :=
  match v with
  | .number n => .ok (.number n)
  | .bool b => .ok (.number (if b then 1 else 0))
  | .text s =>
    match Number.read? (Text.trim s) with
    | some n => .ok (.number n)
    | none => typeError ("could not convert string to float: " ++ v.repr)
  | _ => noConversion .float v

/-- A text changed by a function. -/
def mapText (h : Helper) (f : String → String) (v : Value) : Checked Value :=
  match v with
  | .text s => .ok (.text (f s))
  | _ => typeError (h.name ++ "() argument must be str, not " ++ v.typeName)

/-- The nearest number with a given number of places; a half goes away from zero. -/
def roundTo (args : Arguments) : Checked Value := do
  let b ← args.bind "round" ["x", "ndigits"]
  let x ← expectNumber "round" "x" (← b.required "x")
  let places ← b.number "ndigits" 0
  let scale := Number.power 10 (Number.toInt32 places)
  .ok (.number (Number.roundHalfAway (x * scale) / scale))

/-! ## Lists -/

/-- The items of an argument that has to be a list. -/
def expectList (h : Helper) (v : Value) : Checked (List Value) :=
  match v with
  | .list items => .ok items
  | _ => typeError (h.name ++ "() argument must be a list, not " ++ v.typeName)

/-- Fail because two values do not compare. -/
def notSupported {α : Type} (operation : String) (a b : Value) : Checked α :=
  typeError ("'" ++ operation ++ "' not supported between " ++ a.typeName ++ " and " ++ b.typeName)

/-- The best of a first item and further ones, where a later item is better if it compares to the
best so far in the wanted way. -/
def bestOf (name : String) (wanted : Ordering) : Value → List Value → Checked Value
  | best, [] => .ok best
  | best, v :: vs =>
    match v.compare? best with
    | some o => bestOf name wanted (if o = wanted then v else best) vs
    | none => notSupported name v best

/-- The first smallest or largest of the arguments, or of the items of a single list. -/
def extreme (name : String) (wanted : Ordering) (args : Arguments) : Checked Value :=
  if !args.keywords.isEmpty then
    .error (.validation (name ++ "() takes no keyword arguments") [])
  else
    let items := match args.positional with
      | [.list items] => items
      | items => items
    match items with
    | [] => typeError (name ++ "() arg is an empty sequence")
    | v :: vs => bestOf name wanted v vs

/-- A number plus the numbers of a list. -/
def total : Float → List Value → Checked Float
  | acc, [] => .ok acc
  | acc, v :: vs =>
    match expectNumber "sum" "iterable" v with
    | .ok n => total (acc + n) vs
    | .error e => .error e

/-- The total of a list on top of a start value. -/
def sumOf (args : Arguments) : Checked Value := do
  let b ← args.bind "sum" ["iterable", "start"]
  let iterable ← b.required "iterable"
  let start ← b.number "start" 0
  let items ← expectList .sum iterable
  .ok (.number (← total start items))

/-- The most items a range may have. -/
def maxRange : Nat := 1000000

/-- The numbers from a start up to a stop, at a distance. -/
def rangeOf (args : Arguments) : Checked Value := do
  let b ← args.bind "range" ["start", "stop", "step"]
  let first ← expectNumber "range" "start" (← b.required "start")
  let (start, stop) ← match b.optional "stop" with
    | some v => (expectNumber "range" "stop" v).map fun stop => (first, stop)
    | none => .ok (0, first)
  let step ← b.number "step" 1
  if step == 0 then typeError "range() arg 3 must not be zero"
  else
    let steps := Number.ceil ((stop - start) / step)
    let count := if 0 < steps then steps else 0
    if Float.ofNat maxRange < count then
      typeError ("range() of " ++ Number.text "NaN" count ++ " items exceeds the limit of " ++
        toString maxRange)
    else
      .ok (.list ((List.range (Number.toCount count)).map fun i =>
        .number (start + step * Float.ofNat i)))

/-! ## Sorting

The sorted part is kept with its last item first, which is the end where the next item is
inserted. -/

/-- Insert an item into a sorted list whose last item comes first: it goes behind every item that
it is not less than.  If it meets one that it does not compare to, these two are what is left. -/
def insertValue (v : Value) : List Value → Except (Value × Value) (List Value)
  | [] => .ok [v]
  | w :: ws =>
    match v.compare? w with
    | some .lt => (insertValue v ws).map (w :: ·)
    | some _ => .ok (v :: w :: ws)
    | none => .error (v, w)

/-- Insert the items of a list, one after another. -/
def insertValues : List Value → List Value → Except (Value × Value) (List Value)
  | done, [] => .ok done
  | done, v :: vs =>
    match insertValue v done with
    | .ok done => insertValues done vs
    | .error e => .error e

/-- The items in increasing order, where equal items keep theirs; or the first two that do not
compare. -/
def sortValues (items : List Value) : Except (Value × Value) (List Value) :=
  (insertValues [] items).map List.reverse

/-- The first two items that inserting comes to and that do not compare. -/
def clash? (items : List Value) : Option (Value × Value) :=
  match sortValues items with
  | .ok _ => none
  | .error pair => some pair

/-- What a call of `sorted` is about: the items, and whether they are to come in decreasing order. -/
def sortArgs (args : Arguments) : Checked (List Value × Bool) := do
  let b ← args.bind "sorted" ["iterable", "reverse"]
  let iterable ← b.required "iterable"
  let decreasing := ((b.optional "reverse").map Value.isTruthy).getD false
  let items ← expectList .sorted iterable
  .ok (items, decreasing)

/-- Fail because two items cannot be put in order. -/
def unordered {α : Type} (pair : Value × Value) : Checked α := notSupported "<" pair.1 pair.2

/-- The items of a list in increasing or decreasing order. -/
def sortedOf (args : Arguments) : Checked Value := do
  let (items, decreasing) ← sortArgs args
  match sortValues items with
  | .ok items => .ok (.list (if decreasing then items.reverse else items))
  | .error pair => unordered pair

/-- How many items the library inserts one after another.  More are sorted in another way. -/
def maxInserted : Nat := 20

/-- What the library says if its sort comes across a comparison that is not an order. -/
def disorderMessage : String :=
  "user-provided comparison function does not correctly implement a total order"

/-- The items of a call of `sorted` that are too many to be inserted and do not all compare.  In which
order the library compares them, and whether it can make sense of what it finds, is its own affair. -/
def disordered? (h : Helper) (args : Arguments) : Option (List Value) :=
  match h, sortArgs args with
  | .sorted, .ok (items, _) =>
    if maxInserted < items.length ∧ (clash? items).isSome then some items else none
  | _, _ => none

/-! ## Calls -/

/-- The value of a call. -/
def call (h : Helper) (args : Arguments) : Checked Value :=
  match h with
  | .len => (only h args).bind length
  | .str => (only h args).map fun v => .text v.display
  | .int => (only h args).bind toInt
  | .float => (only h args).bind toFloat
  | .round => roundTo args
  | .abs => (only h args).bind fun v => (expectNumber "abs" "x" v).map fun n => .number n.abs
  | .min => extreme "min" .lt args
  | .max => extreme "max" .gt args
  | .sum => sumOf args
  | .range => rangeOf args
  | .sorted => sortedOf args
  | .upper => (only h args).bind (mapText h Text.upper)
  | .lower => (only h args).bind (mapText h Text.lower)

end Helper

/-! ## Printing -/

/-- What goes between the printed texts: a blank, unless the keyword arguments say otherwise. -/
def separatorOf : String → List (String × Value) → Checked String
  | sep, [] => .ok sep
  | sep, (k, v) :: rest =>
    if k ≠ "sep" then
      .error (.validation ("print() got an unexpected keyword argument '" ++ k ++ "'") ["sep"])
    else match v with
      | .text s => separatorOf s rest
      | .null => separatorOf sep rest
      | _ => typeError ("sep must be None or a string, not " ++ v.typeName)

/-- The line that a call of `print` writes: the texts of its arguments with a separator between
them. -/
def printedLine (args : Arguments) : Checked String :=
  (separatorOf " " args.keywords).map fun sep =>
    String.intercalate sep (args.positional.map Value.display)

end ReactiveScript
