import ReactiveScript.Json.Reader

/-!
# Reading JSON into records

Readers for JSON of a known kind: natural numbers, numbers, truth values, parts that may be null,
and records.  JSON of another kind is a `Fault.mismatch`, reported once the offending scalar has
been read and at the bracket that opens an offending array or object.

A record is read from an object, whose members may come in any order, or from an array, whose items
stand for its fields in order.  A field that is missing keeps its default, a member with an unknown
key is skipped, and a second member for one field is a mismatch.

* `Json.natural`, `Json.decimal`, `Json.truth`, `Json.nullable` — scalars.
* `Json.Field`, `Json.record` — records.
-/

set_option autoImplicit false

namespace ReactiveScript

namespace Json

/-! ## Scalars -/

/-- The fault for a document that is not of the expected kind. -/
def wrongKind (cs : List Char) : Fault :=
  let afterwards {α : Type} (r : Except Fault α) : Fault := match r with
    | .ok _ => .mismatch
    | .error f => f
  match cs with
  | 'n' :: cs => afterwards (readWord "ull".toList cs)
  | 't' :: cs => afterwards (readWord "rue".toList cs)
  | 'f' :: cs => afterwards (readWord "alse".toList cs)
  | '-' :: cs => afterwards (readNumber false cs)
  | '"' :: cs => afterwards (readString cs)
  | '[' :: _ => .mismatch
  | '{' :: _ => .mismatch
  | c :: cs => if c.isDigit then afterwards (readNumber true (c :: cs)) else .malformed
  | [] => .malformed

/-- A number, as a document. -/
def number : Reader Json := fun cs =>
  match skipSpace cs with
  | [] => .error .truncated
  | '-' :: cs => readNumber false cs
  | c :: cs => if c.isDigit then readNumber true (c :: cs) else .error (wrongKind (c :: cs))

/-- A natural number below a bound. -/
def natural (bound : Nat) : Reader Nat := fun cs => do
  match ← number cs with
  | (.int (.ofNat n), cs) => if n < bound then .ok (n, cs) else .error .mismatch
  | _ => .error .mismatch

/-- A floating-point number. -/
def decimal : Reader Float := fun cs => do
  match ← number cs with
  | (.int n, cs) => .ok (Float.ofInt n, cs)
  | (.float x, cs) => .ok (x, cs)
  | _ => .error .mismatch

/-- A truth value. -/
def truth : Reader Bool := fun cs =>
  match skipSpace cs with
  | [] => .error .truncated
  | 't' :: cs => (readWord "rue".toList cs).map fun (_, cs) => (true, cs)
  | 'f' :: cs => (readWord "alse".toList cs).map fun (_, cs) => (false, cs)
  | cs => .error (wrongKind cs)

/-- Something that may be null. -/
def nullable {α : Type} (read : Reader α) : Reader (Option α) := fun cs =>
  match skipSpace cs with
  | 'n' :: cs => (readWord "ull".toList cs).map fun (_, cs) => (none, cs)
  | cs => (read cs).map fun (a, cs) => (some a, cs)

/-! ## Skipping

What is skipped has to be well-formed, but its numbers may be out of range and its strings may hold
lone surrogates, and it may be nested as deep as it likes. -/

/-- The rest of a string after its opening quote. -/
def skipString : Nat → List Char → Except Fault (List Char)
  | _, [] => .error .truncated
  | 0, _ => .error .truncated
  | fuel + 1, c :: cs =>
    if c = '"' then .ok cs
    else if c = '\\' then
      match cs with
      | [] => .error .truncated
      | 'u' :: cs => (readHex cs).bind fun (_, cs) => skipString fuel cs
      | e :: cs => if (simpleEscape? e).isSome then skipString fuel cs else .error .malformed
    else if c.toNat < 32 then .error .malformed
    else skipString fuel cs

/-- At least one digit. -/
def skipDigits (cs : List Char) : Except Fault (List Char) :=
  if (cs.head?.map Char.isDigit).getD false then .ok (cs.dropWhile Char.isDigit)
  else .error .malformed

/-- An exponent part, if there is one. -/
def skipExponent : List Char → Except Fault (List Char)
  | c :: cs =>
    if c = 'e' ∨ c = 'E' then
      match cs with
      | '+' :: cs => skipDigits cs
      | '-' :: cs => skipDigits cs
      | cs => skipDigits cs
    else .ok (c :: cs)
  | [] => .ok []

/-- A number whose minus sign, if any, has been skipped. -/
def skipNumber (cs : List Char) : Except Fault (List Char) := do
  let rest ← match cs with
    | '0' :: d :: cs => if d.isDigit then .error .malformed else .ok (d :: cs)
    | cs => skipDigits cs
  match rest with
  | '.' :: cs => (skipDigits cs).bind skipExponent
  | rest => skipExponent rest

mutual

/-- A document; `fuel` bounds the parts skipped. -/
def skipValue : Nat → List Char → Except Fault (List Char)
  | 0, _ => .error .malformed
  | fuel + 1, cs =>
    match skipSpace cs with
    | [] => .error .truncated
    | 'n' :: cs => (readWord "ull".toList cs).map Prod.snd
    | 't' :: cs => (readWord "rue".toList cs).map Prod.snd
    | 'f' :: cs => (readWord "alse".toList cs).map Prod.snd
    | '-' :: cs => skipNumber cs
    | '"' :: cs => skipString cs.length cs
    | '[' :: cs => skipItems fuel true cs
    | '{' :: cs => skipMembers fuel true cs
    | c :: cs => if c.isDigit then skipNumber (c :: cs) else .error .malformed

/-- The items of an array up to its closing bracket. -/
def skipItems : Nat → Bool → List Char → Except Fault (List Char)
  | 0, _, _ => .error .malformed
  | fuel + 1, first, cs => do
    match ← anotherItem first cs with
    | (false, cs) => .ok (cs.drop 1)
    | (true, cs) => skipItems fuel false (← skipValue fuel cs)

/-- The members of an object up to its closing brace. -/
def skipMembers : Nat → Bool → List Char → Except Fault (List Char)
  | 0, _, _ => .error .malformed
  | fuel + 1, first, cs => do
    match ← anotherMember first cs with
    | (false, cs) => .ok (cs.drop 1)
    | (true, cs) =>
      let cs ← skipString cs.length cs
      let cs ← readColon cs
      skipMembers fuel false (← skipValue fuel cs)

end

/-! ## Records -/

/-- A field of a record: its key, and how its value is read into the record. -/
structure Field (α : Type) where
  /-- The key. -/
  key : String
  /-- Read a value and store it. -/
  read : α → Reader α

/-- A field that is read by a reader and stored by a function. -/
def field {α β : Type} (key : String) (read : Reader β) (store : β → α → α) : Field α where
  key := key
  read a cs := (read cs).map fun (b, cs) => (store b a, cs)

variable {α : Type}

/-- The items of an array, for the fields of a record in order.  The array has to end with the last
of them. -/
def recordItems : List (Field α) → Bool → α → Reader α
  | [], _, a, cs =>
    match skipSpace cs with
    | [] => .error .truncated
    | ']' :: cs => .ok (a, cs)
    | _ => .error .malformed
  | f :: fs, first, a, cs => do
    match ← anotherItem first cs with
    | (false, cs) => .ok (a, cs.drop 1)
    | (true, cs) =>
      let (a, cs) ← f.read a cs
      recordItems fs false a cs

/-- The members of an object, `seen` holding the keys read so far; `fuel` bounds the members. -/
def recordMembers (fields : List (Field α)) : Nat → List String → Bool → α → Reader α
  | 0, _, _, _, _ => .error .malformed
  | fuel + 1, seen, first, a, cs => do
    match ← anotherMember first cs with
    | (false, cs) => .ok (a, cs.drop 1)
    | (true, cs) =>
      let (key, cs) ← readString cs
      match fields.find? (·.key == key) with
      | none =>
        let cs ← readColon cs
        let cs ← skipValue (2 * cs.length + 2) cs
        recordMembers fields fuel seen false a cs
      | some f =>
        if key ∈ seen then .error .mismatch
        else
          let cs ← readColon cs
          let (a, cs) ← f.read a cs
          recordMembers fields fuel (key :: seen) false a cs

/-- A record with the given fields; those that are missing are as in `dflt`. -/
def record (fields : List (Field α)) (dflt : α) : Reader α := fun cs =>
  match skipSpace cs with
  | [] => .error .truncated
  | '[' :: cs => recordItems fields true dflt cs
  | '{' :: cs => recordMembers fields (cs.length + 1) [] true dflt cs
  | cs => .error (wrongKind cs)

/-- Read a whole text by a reader. -/
def readWhole (read : Reader α) (text : String) : Except Fault α := do
  let (a, rest) ← read text.toList
  finished rest
  .ok a

end Json

end ReactiveScript
