import ReactiveScript.Number.Shortest

/-!
# JSON

`Json` is a JSON document.  A number is either an integer or a floating-point number, and the two
are never equal; an object is a list of members, and it is up to whoever builds one in which order.

* `Json.same` — equality of documents.
* `Json.toText` — the compact text: no spaces, the shortest digits that read back for a
  floating-point number, and an escape for quotes, backslashes and controls only.
-/

set_option autoImplicit false

namespace ReactiveScript

/-- A JSON document. -/
inductive Json where
  /-- The literal null. -/
  | null
  /-- A truth value. -/
  | bool (b : Bool)
  /-- A number without a fraction or exponent. -/
  | int (n : Int)
  /-- A number with a fraction. -/
  | float (x : Float)
  /-- A string. -/
  | text (s : String)
  /-- An array. -/
  | array (items : List Json)
  /-- An object, with its members in order. -/
  | object (members : List (String × Json))
  deriving Inhabited

namespace Json

/-! ## Equality -/

mutual

/-- Whether two documents are equal; floating-point numbers are compared as numbers. -/
def same : Json → Json → Bool
  | .null, .null => true
  | .bool a, .bool b => a == b
  | .int a, .int b => a == b
  | .float a, .float b => a == b
  | .text a, .text b => a == b
  | .array a, .array b => sameItems a b
  | .object a, .object b => sameMembers a b
  | _, _ => false

/-- Whether two arrays have equal items. -/
def sameItems : List Json → List Json → Bool
  | [], [] => true
  | a :: as, b :: bs => same a b && sameItems as bs
  | _, _ => false

/-- Whether two objects have the same members in the same order. -/
def sameMembers : List (String × Json) → List (String × Json) → Bool
  | [], [] => true
  | (i, a) :: as, (j, b) :: bs => i == j && same a b && sameMembers as bs
  | _, _ => false

end

/-! ## Text -/

/-- A control character as `\u` and four hexadecimal digits. -/
def controlEscape (c : Char) : List Char :=
  ['\\', 'u', '0', '0', Nat.digitChar (c.toNat / 16), Nat.digitChar (c.toNat % 16)]

/-- One character inside a JSON string. -/
def escapeChar (c : Char) : List Char :=
  if c = '"' then ['\\', '"']
  else if c = '\\' then ['\\', '\\']
  else if c = '\x08' then ['\\', 'b']
  else if c = '\x0c' then ['\\', 'f']
  else if c = '\n' then ['\\', 'n']
  else if c = '\r' then ['\\', 'r']
  else if c = '\t' then ['\\', 't']
  else if c.toNat < 32 then controlEscape c
  else [c]

/-- A JSON string. -/
def quote (s : String) : String :=
  String.ofList ('"' :: s.toList.flatMap escapeChar ++ ['"'])

/-- The digits of a decimal in scientific notation, with a signed exponent. -/
def scientific (digits : String) (exponent : Int) : String :=
  let mantissa := match digits.toList with
    | [] => ""
    | [d] => String.ofList [d]
    | d :: rest => String.ofList (d :: '.' :: rest)
  mantissa ++ "e" ++ (if exponent < 0 then "-" else "+") ++ toString exponent.natAbs

/-- The text of a positive decimal: positional with a point from `1e-5` up to `1e16`, scientific
outside. -/
def decimalText (d : Decimal) : String :=
  let digits := toString d.digits
  let lead : Int := digits.length + d.exponent - 1
  if -5 ≤ lead ∧ lead ≤ 15 then
    Number.positional d ++ (if 0 ≤ d.exponent then ".0" else "")
  else scientific digits lead

/-- The text of a floating-point number; there is none for infinities and NaN, which are null. -/
def floatText (x : Float) : String :=
  match Number.shape x with
  | .finite negative m e =>
    (if negative then "-" else "") ++
      (if m = 0 then "0.0" else decimalText (Number.shortest .even m e))
  | _ => "null"

mutual

/-- The compact text of a document. -/
def toText : Json → String
  | .null => "null"
  | .bool b => if b then "true" else "false"
  | .int n => toString n
  | .float x => floatText x
  | .text s => quote s
  | .array items => "[" ++ String.intercalate "," (itemTexts items) ++ "]"
  | .object members => "\x7b" ++ String.intercalate "," (memberTexts members) ++ "\x7d"

/-- The texts of the items of an array. -/
def itemTexts : List Json → List String
  | [] => []
  | j :: js => toText j :: itemTexts js

/-- The texts of the members of an object. -/
def memberTexts : List (String × Json) → List String
  | [] => []
  | (k, j) :: js => (quote k ++ ":" ++ toText j) :: memberTexts js

end

/-! ## Building -/

/-- Put a member where its key belongs among members with increasing keys, in place of a member
with the same key. -/
def insertMember (k : String) (j : Json) : List (String × Json) → List (String × Json)
  | [] => [(k, j)]
  | (i, b) :: rest =>
    if k < i then (k, j) :: (i, b) :: rest
    else if k = i then (k, j) :: rest
    else (i, b) :: insertMember k j rest

/-- Order members by key, the last of several with one key winning. -/
def sortMembers (members : List (String × Json)) : List (String × Json) :=
  members.foldl (fun done (k, j) => insertMember k j done) []

/-- An optional part, null when it is missing. -/
def orNull {α : Type} (f : α → Json) : Option α → Json
  | none => .null
  | some a => f a

end Json

end ReactiveScript
