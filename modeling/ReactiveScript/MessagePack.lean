import ReactiveScript.Json

/-!
# MessagePack

The binary form of a document.  Integers, strings, arrays and objects take the shortest header
that can hold them; a floating-point number always takes eight bytes.
-/

set_option autoImplicit false

namespace ReactiveScript

namespace MessagePack

/-- The `n` low bytes of a number, most significant first. -/
def bigEndian : Nat → Nat → List UInt8
  | 0, _ => []
  | n + 1, x => bigEndian n (x / 256) ++ [UInt8.ofNat x]

/-- A natural number. -/
def ofNat (n : Nat) : List UInt8 :=
  if n < Nat.pow 2 7 then [UInt8.ofNat n]
  else if n < Nat.pow 2 8 then 0xcc :: bigEndian 1 n
  else if n < Nat.pow 2 16 then 0xcd :: bigEndian 2 n
  else if n < Nat.pow 2 32 then 0xce :: bigEndian 4 n
  else 0xcf :: bigEndian 8 n

/-- An integer; a negative one is written in two's complement. -/
def ofInt (n : Int) : List UInt8 :=
  if 0 ≤ n then ofNat n.toNat
  else if -32 ≤ n then [UInt8.ofNat (n + Int.pow 2 8).toNat]
  else if -Int.pow 2 7 ≤ n then 0xd0 :: bigEndian 1 (n + Int.pow 2 8).toNat
  else if -Int.pow 2 15 ≤ n then 0xd1 :: bigEndian 2 (n + Int.pow 2 16).toNat
  else if -Int.pow 2 31 ≤ n then 0xd2 :: bigEndian 4 (n + Int.pow 2 32).toNat
  else 0xd3 :: bigEndian 8 (n + Int.pow 2 64).toNat

/-- A string. -/
def ofString (s : String) : List UInt8 :=
  let n := s.utf8ByteSize
  let header :=
    if n < 32 then [UInt8.ofNat (0xa0 + n)]
    else if n < Nat.pow 2 8 then 0xd9 :: bigEndian 1 n
    else if n < Nat.pow 2 16 then 0xda :: bigEndian 2 n
    else 0xdb :: bigEndian 4 n
  header ++ s.toUTF8.toList

/-- The header of an array of `n` items. -/
def arrayHeader (n : Nat) : List UInt8 :=
  if n < 16 then [UInt8.ofNat (0x90 + n)]
  else if n < Nat.pow 2 16 then 0xdc :: bigEndian 2 n
  else 0xdd :: bigEndian 4 n

/-- The header of an object of `n` members. -/
def objectHeader (n : Nat) : List UInt8 :=
  if n < 16 then [UInt8.ofNat (0x80 + n)]
  else if n < Nat.pow 2 16 then 0xde :: bigEndian 2 n
  else 0xdf :: bigEndian 4 n

mutual

/-- The bytes of a document. -/
def encode : Json → List UInt8
  | .null => [0xc0]
  | .bool b => [if b then 0xc3 else 0xc2]
  | .int n => ofInt n
  | .float x => 0xcb :: bigEndian 8 x.toBits.toNat
  | .text s => ofString s
  | .array items => arrayHeader items.length ++ encodeItems items
  | .object members => objectHeader members.length ++ encodeMembers members

/-- The bytes of the items of an array. -/
def encodeItems : List Json → List UInt8
  | [] => []
  | j :: js => encode j ++ encodeItems js

/-- The bytes of the members of an object. -/
def encodeMembers : List (String × Json) → List UInt8
  | [] => []
  | (k, j) :: js => ofString k ++ encode j ++ encodeMembers js

end

end MessagePack

end ReactiveScript
