import ReactiveScript.Text.CaseTable

/-!
# Upper and lower case

`Text.upper` and `Text.lower` apply the full case mappings: one character may become several, and
a capital sigma becomes the final small sigma when it ends a word.  It ends a word if a cased
character comes before it and none after it, characters that case ignores being passed over.
-/

set_option autoImplicit false

namespace ReactiveScript

namespace Text

/-- Map one character by a table of words and a table of runs. -/
def mapChar (words : List (Nat × List Nat)) (runs : List CaseRun) (c : Char) : List Char :=
  match words.lookup c.toNat with
  | some word => word.map Char.ofNat
  | none =>
    match runs.find? (·.has c.toNat) with
    | some run => [Char.ofNat (c.toNat + run.shift).toNat]
    | none => [c]

/-- The upper case of one character. -/
def upperChar (c : Char) : List Char :=
  if c.toNat < 128 then [c.toUpper] else mapChar upperWords upperRuns c

/-- The lower case of one character on its own. -/
def lowerChar (c : Char) : List Char :=
  if c.toNat < 128 then [c.toLower] else mapChar lowerWords lowerRuns c

/-- Whether a cased character comes first once those that case ignores are passed over. -/
def startsCased (cs : List Char) : Bool :=
  match cs.dropWhile caseIgnorable.has with
  | c :: _ => cased.has c
  | [] => false

/-- The lower case of the characters that follow `before`, given in reverse. -/
def lowerAfter (before : List Char) : List Char → List Char
  | [] => []
  | c :: after =>
    let mapped :=
      if c = 'Σ' then
        if startsCased before && !startsCased after then ['ς'] else ['σ']
      else lowerChar c
    mapped ++ lowerAfter (c :: before) after

/-- A text in upper case. -/
def upper (text : String) : String := String.ofList (text.toList.flatMap upperChar)

/-- A text in lower case. -/
def lower (text : String) : String := String.ofList (lowerAfter [] text.toList)

end Text

end ReactiveScript
