import ReactiveScript.Json
import ReactiveScript.Number.Reading

/-!
# Reading JSON

A reader consumes characters from the front of a text and returns what it read together with the
rest.  It fails in one of three ways, and the first failure in reading order is the one reported:

* `Fault.malformed` — a character that cannot stand where it stands;
* `Fault.truncated` — the text ends inside a document;
* `Fault.mismatch` — well-formed JSON of the wrong kind for its place.

`Json.read` reads a whole document.  The keys of an object come out sorted and the last of several
equal ones wins.  Nesting deeper than 127 levels counts as malformed.

Numbers with a fraction or exponent are read by scaling the first nineteen or so digits with a power
of ten in floating point, which is cheap and not always the nearest number.
-/

set_option autoImplicit false

namespace ReactiveScript

namespace Json

/-- Why a text could not be read. -/
inductive Fault where
  /-- A character that cannot stand where it stands. -/
  | malformed
  /-- The text ends too early. -/
  | truncated
  /-- JSON of the wrong kind. -/
  | mismatch
  deriving DecidableEq, Repr

/-- A reader of values of a type. -/
abbrev Reader (α : Type) : Type := List Char → Except Fault (α × List Char)

/-- Whether a character may stand between the parts of a document. -/
def isSpace (c : Char) : Bool := c = ' ' || c = '\n' || c = '\t' || c = '\r'

/-- Drop the space in front. -/
def skipSpace (cs : List Char) : List Char := cs.dropWhile isSpace

/-- The rest of a word whose first letter has been read. -/
def readWord : List Char → Reader Unit
  | [], cs => .ok ((), cs)
  | _ :: _, [] => .error .truncated
  | w :: ws, c :: cs => if w = c then readWord ws cs else .error .malformed

/-! ## Strings -/

/-- The value of a hexadecimal digit. -/
def hexValue? (c : Char) : Option Nat :=
  if c.isDigit then some (c.toNat - '0'.toNat)
  else if 'a' ≤ c ∧ c ≤ 'f' then some (c.toNat - 'a'.toNat + 10)
  else if 'A' ≤ c ∧ c ≤ 'F' then some (c.toNat - 'A'.toNat + 10)
  else none

/-- Four hexadecimal digits.  The text counts as ending too early if fewer than four bytes are
left. -/
def readHex (cs : List Char) : Except Fault (Nat × List Char) :=
  let bytes := (cs.take 4).foldl (fun n c => n + c.utf8Size) 0
  if bytes < 4 then .error .truncated
  else match (cs.take 4).mapM hexValue? with
    | some [a, b, c, d] => .ok (((a * 16 + b) * 16 + c) * 16 + d, cs.drop 4)
    | _ => .error .malformed

/-- The character after `\u`, which may take a second escape for its low surrogate. -/
def readCode (cs : List Char) : Except Fault (Char × List Char) := do
  let (high, cs) ← readHex cs
  if 0xDC00 ≤ high ∧ high ≤ 0xDFFF then .error .malformed
  else if 0xD800 ≤ high ∧ high ≤ 0xDBFF then
    match cs with
    | [] => .error .truncated
    | '\\' :: [] => .error .truncated
    | '\\' :: 'u' :: cs =>
      let (low, cs) ← readHex cs
      if low < 0xDC00 ∨ 0xDFFF < low then .error .malformed
      else .ok (Char.ofNat ((high - 0xD800) * 0x400 + (low - 0xDC00) + 0x10000), cs)
    | _ => .error .malformed
  else .ok (Char.ofNat high, cs)

/-- The character that an escape other than `\u` stands for. -/
def simpleEscape? (c : Char) : Option Char :=
  if c = '"' then some '"'
  else if c = '\\' then some '\\'
  else if c = '/' then some '/'
  else if c = 'b' then some '\x08'
  else if c = 'f' then some '\x0c'
  else if c = 'n' then some '\n'
  else if c = 'r' then some '\r'
  else if c = 't' then some '\t'
  else none

/-- The rest of a string after its opening quote; `fuel` bounds the characters, `done` holds those
read so far in reverse. -/
def readStringFrom : Nat → List Char → List Char → Except Fault (String × List Char)
  | _, _, [] => .error .truncated
  | 0, _, _ => .error .truncated
  | fuel + 1, done, c :: cs =>
    if c = '"' then .ok (String.ofList done.reverse, cs)
    else if c = '\\' then
      match cs with
      | [] => .error .truncated
      | 'u' :: cs => do
        let (d, cs) ← readCode cs
        readStringFrom fuel (d :: done) cs
      | e :: cs =>
        match simpleEscape? e with
        | some d => readStringFrom fuel (d :: done) cs
        | none => .error .malformed
    else if c.toNat < 32 then .error .malformed
    else readStringFrom fuel (c :: done) cs

/-- The rest of a string after its opening quote. -/
def readString : Reader String := fun cs => readStringFrom cs.length [] cs

/-! ## Numbers -/

/-- `10 ^ n` as a floating-point number. -/
def tenTo (n : Nat) : Float := Number.ofDecimal 1 n

/-- `significand · 10 ^ exponent`: one multiplication or division by a power of ten up to `1e308`,
after as many divisions by `1e308` as a very small exponent needs.  Too large a result is a
fault. -/
def scaleTen : Nat → Float → Int → Except Fault Float
  | 0, f, _ => .ok f
  | fuel + 1, f, exponent =>
    if exponent.natAbs ≤ 308 then
      if 0 ≤ exponent then
        let r := f * tenTo exponent.toNat
        if r.isInf then .error .malformed else .ok r
      else .ok (f / tenTo exponent.natAbs)
    else if f == 0 then .ok f
    else if 0 ≤ exponent then .error .malformed
    else scaleTen fuel (f / tenTo 308) (exponent + 308)

/-- The signed number `± significand · 10 ^ exponent`. -/
def makeFloat (positive : Bool) (significand : Nat) (exponent : Int) : Except Fault Float := do
  let f ← scaleTen 8 (Float.ofNat significand) exponent
  .ok (if positive then f else -f)

/-- Take digits into a significand while it stays within sixty-four bits: the significand, how many
digits were taken, and the rest. -/
def takeDigits (significand : Nat) (count : Nat) : List Char → Nat × Nat × List Char
  | [] => (significand, count, [])
  | c :: cs =>
    if c.isDigit ∧ 10 * significand + Number.digitValue c < Nat.pow 2 64 then
      takeDigits (10 * significand + Number.digitValue c) (count + 1) cs
    else (significand, count, c :: cs)

/-- The exponent part after its `e`. -/
def readExponentPart (positive : Bool) (significand : Nat) (start : Int) : Reader Float := fun cs => do
  let (negative, cs) := match cs with
    | '+' :: cs => (false, cs)
    | '-' :: cs => (true, cs)
    | cs => (false, cs)
  match cs with
  | [] => .error .truncated
  | c :: _ =>
    if !c.isDigit then .error .malformed
    else
      let n := Number.ofDigits (cs.takeWhile Char.isDigit)
      let rest := cs.dropWhile Char.isDigit
      if Nat.pow 2 31 ≤ n then
        if significand ≠ 0 ∧ !negative then .error .malformed
        else .ok (if positive then 0 else -0, rest)
      else
        let f ← makeFloat positive significand (if negative then start - n else start + n)
        .ok (f, rest)

/-- What follows the digits of a number: an exponent part or nothing. -/
def readTail (positive : Bool) (significand : Nat) (exponent : Int) : Reader Float
  | c :: cs =>
    if c = 'e' ∨ c = 'E' then readExponentPart positive significand exponent cs
    else (makeFloat positive significand exponent).map (·, c :: cs)
  | [] => (makeFloat positive significand exponent).map (·, [])

/-- The fraction after its point. -/
def readFraction (positive : Bool) (significand : Nat) (exponent : Int) : Reader Float := fun cs =>
  let (s, n, rest) := takeDigits significand 0 cs
  let full := rest.dropWhile Char.isDigit
  if n = 0 ∧ full.length = cs.length then
    if cs = [] then .error .truncated else .error .malformed
  else readTail positive s (exponent - n) full

/-- A number whose minus sign, if any, has been read: an integer when it has neither fraction nor
exponent and fits, a floating-point number otherwise.  A negative zero is a floating-point
number. -/
def readNumber (positive : Bool) : Reader Json
  | [] => .error .truncated
  | c :: cs =>
    if !c.isDigit then .error .malformed
    else if c = '0' ∧ (cs.head?.map Char.isDigit).getD false then .error .malformed
    else
      let (s, _, rest) := if c = '0' then (0, 1, cs) else takeDigits 0 0 (c :: cs)
      let dropped := (rest.takeWhile Char.isDigit).length
      let rest := rest.dropWhile Char.isDigit
      let asFloat (r : Except Fault (Float × List Char)) := r.map fun (f, cs) => (Json.float f, cs)
      match rest with
      | '.' :: cs => asFloat (readFraction positive s dropped cs)
      | d :: cs =>
        if d = 'e' ∨ d = 'E' then asFloat (readExponentPart positive s dropped cs)
        else finish s dropped (d :: cs)
      | [] => finish s dropped []
where
  /-- A number without fraction and exponent. -/
  finish (s : Nat) (dropped : Nat) (rest : List Char) : Except Fault (Json × List Char) :=
    if dropped ≠ 0 then (makeFloat positive s dropped).map fun f => (.float f, rest)
    else if positive then .ok (.int s, rest)
    else if s = 0 ∨ Nat.pow 2 63 < s then .ok (.float (-(Float.ofNat s)), rest)
    else .ok (.int (-(s : Int)), rest)

/-! ## Documents -/

/-- Whether another item follows in an array, its comma included; `first` says that none came
before. -/
def anotherItem (first : Bool) (cs : List Char) : Except Fault (Bool × List Char) :=
  match skipSpace cs with
  | [] => .error .truncated
  | ']' :: cs => .ok (false, ']' :: cs)
  | c :: cs =>
    if first then .ok (true, c :: cs)
    else if c = ',' then
      match skipSpace cs with
      | [] => .error .truncated
      | ']' :: _ => .error .malformed
      | cs => .ok (true, cs)
    else .error .malformed

/-- Whether another member follows in an object, up to the opening quote of its key. -/
def anotherMember (first : Bool) (cs : List Char) : Except Fault (Bool × List Char) :=
  match skipSpace cs with
  | [] => .error .truncated
  | '}' :: cs => .ok (false, '}' :: cs)
  | c :: cs =>
    if c = ',' ∧ first = false then
      match skipSpace cs with
      | [] => .error .truncated
      | '"' :: cs => .ok (true, cs)
      | _ => .error .malformed
    else if first = false then .error .malformed
    else if c = '"' then .ok (true, cs)
    else .error .malformed

/-- The colon between a key and its value. -/
def readColon (cs : List Char) : Except Fault (List Char) :=
  match skipSpace cs with
  | [] => .error .truncated
  | ':' :: cs => .ok cs
  | _ => .error .malformed

mutual

/-- A document nested at most `depth` levels deep; `fuel` bounds the parts read. -/
def readValue : Nat → Nat → Reader Json
  | 0, _, _ => .error .malformed
  | fuel + 1, depth, cs =>
    match skipSpace cs with
    | [] => .error .truncated
    | 'n' :: cs => (readWord "ull".toList cs).map fun (_, cs) => (.null, cs)
    | 't' :: cs => (readWord "rue".toList cs).map fun (_, cs) => (.bool true, cs)
    | 'f' :: cs => (readWord "alse".toList cs).map fun (_, cs) => (.bool false, cs)
    | '-' :: cs => readNumber false cs
    | '"' :: cs => (readString cs).map fun (s, cs) => (.text s, cs)
    | '[' :: cs =>
      if depth ≤ 1 then .error .malformed
      else (readItems fuel (depth - 1) true cs).map fun (items, cs) => (.array items, cs)
    | '{' :: cs =>
      if depth ≤ 1 then .error .malformed
      else (readMembers fuel (depth - 1) true cs).map fun (members, cs) =>
        (.object (sortMembers members), cs)
    | c :: cs => if c.isDigit then readNumber true (c :: cs) else .error .malformed

/-- The items of an array up to its closing bracket. -/
def readItems : Nat → Nat → Bool → Reader (List Json)
  | 0, _, _, _ => .error .malformed
  | fuel + 1, depth, first, cs => do
    match ← anotherItem first cs with
    | (false, cs) => .ok ([], cs.drop 1)
    | (true, cs) =>
      let (item, cs) ← readValue fuel depth cs
      let (items, cs) ← readItems fuel depth false cs
      .ok (item :: items, cs)

/-- The members of an object up to its closing brace. -/
def readMembers : Nat → Nat → Bool → Reader (List (String × Json))
  | 0, _, _, _ => .error .malformed
  | fuel + 1, depth, first, cs => do
    match ← anotherMember first cs with
    | (false, cs) => .ok ([], cs.drop 1)
    | (true, cs) =>
      let (key, cs) ← readString cs
      let cs ← readColon cs
      let (value, cs) ← readValue fuel depth cs
      let (members, cs) ← readMembers fuel depth false cs
      .ok ((key, value) :: members, cs)

end

/-- Nothing but space may follow a document. -/
def finished (cs : List Char) : Except Fault Unit :=
  if skipSpace cs = [] then .ok () else .error .malformed

/-- Read a text as one document. -/
def read (text : String) : Except Fault Json := do
  let cs := text.toList
  let (j, rest) ← readValue (2 * cs.length + 2) 128 cs
  finished rest
  .ok j

end Json

end ReactiveScript
