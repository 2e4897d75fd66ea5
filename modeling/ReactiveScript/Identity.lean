import ReactiveScript.Digest
import ReactiveScript.Span

/-!
# Identities

Nodes of the graph and units of output are known by texts that depend on positions in the source
only, so that the same script yields the same ids in every run.

* `NodeId.ofStatement` — the id of a top-level statement, padded so that the order of ids is the
  order of the source.
* `UnitId.ofSite` — the id of an output unit: its kind and the first eight hexadecimal digits of a
  hash over where it came from, `Site.preimage`.

The numbers of a site are thirty-two-bit numbers when they are hashed.  Before that they are not
bounded, as positions are not; a call that has emitted two to the power of thirty-two units under one
anchor would start again from zero.
-/

set_option autoImplicit false

namespace ReactiveScript

/-- The name of a node of the graph. -/
structure NodeId where
  /-- Its text. -/
  text : String
  deriving DecidableEq, Repr, Inhabited

/-- The name of an output unit. -/
structure UnitId where
  /-- Its text. -/
  text : String
  deriving DecidableEq, Repr, Inhabited

/-- A number in decimal, padded with zeros to a width. -/
def padded (width n : Nat) : String :=
  String.ofList (List.replicate (width - (toString n).length) '0') ++ toString n

/-- The id of the node for a top-level statement of a kind. -/
def NodeId.ofStatement (kind : String) (s : Span) : NodeId :=
  ⟨"atom_" ++ padded 5 s.line ++ "_" ++ padded 3 s.col ++ "_" ++ kind⟩

/-- Where a unit comes from. -/
structure Site where
  /-- The name of the script. -/
  file : String
  /-- The top-level statement that is being executed. -/
  anchor : Span
  /-- The call that emits the unit. -/
  call : Span
  /-- How many units the call emitted before, under this anchor. -/
  occurrence : Nat
  deriving DecidableEq, Repr

namespace Site

/-- Four bytes of a number, least significant first. -/
def word (n : Nat) : List UInt8 := Digest.littleEndian (UInt32.ofNat n)

/-- What is hashed for a unit of a kind: kind and file name, each ended by a zero byte, and the
five numbers of the site. -/
def preimage (kind : String) (s : Site) : List UInt8 :=
  kind.toUTF8.toList ++ 0 :: s.file.toUTF8.toList ++ 0 ::
    (word s.anchor.line ++ word s.anchor.col ++ word s.call.line ++ word s.call.col ++
      word s.occurrence)

end Site

/-- The id of the unit of a kind that comes from a site. -/
def UnitId.ofSite (kind : String) (s : Site) : UnitId :=
  ⟨kind ++ "-" ++ Digest.hex ((Digest.hash (s.preimage kind)).take 4)⟩

end ReactiveScript
