import ReactiveScript.Duration
import ReactiveScript.Json.Record
import ReactiveScript.Number.Power

/-!
# Settings of a session

How long reruns are held back after a run, how long a node may take, how often a failing node is
tried again, how deep calls may be nested, and whether a script is split into a graph at all.

Whatever is added to a point of time, to have a rerun wait or to set a node a limit, is a `Period`, as
JSON gives it: the sum is a point of time again.  A pause between two attempts is only waited for, and
may be any duration.

* `Settings.read` — settings from JSON; what is missing takes its default.
* `RetryPolicy.delayAfter` — the pause before the next attempt of a failing node.  A pause that does
  not fit a duration is none at all.
-/

set_option autoImplicit false

namespace ReactiveScript

/-- How often a failing node is tried, and how long the pauses between the attempts are. -/
structure RetryPolicy where
  /-- The number of attempts in one run. -/
  maxAttempts : Nat
  /-- The pause after the first attempt. -/
  delay : Duration
  /-- What the pause is multiplied by after every further attempt. -/
  backoff : Float
  deriving BEq

namespace RetryPolicy

/-- Three attempts without a pause. -/
def standard : RetryPolicy := ⟨3, .ofMillis 0, 2⟩

/-- The power of the backoff after so many failed attempts: one less than their number, as a
thirty-two-bit signed integer. -/
def exponent (failed : Nat) : Int := Int.bmod ((failed - 1 : Nat) : Int) (Nat.pow 2 32)

/-- What the first pause is multiplied by after so many failed attempts. -/
def factor (p : RetryPolicy) (failed : Nat) : Float :=
  let f := Number.power (if 0 < p.backoff then p.backoff else 0) (exponent failed)
  if f.isFinite then f else 1

/-- The pause after so many failed attempts, if it fits a duration. -/
def delayAfter (p : RetryPolicy) (failed : Nat) : Option Duration :=
  p.delay.scale? (p.factor failed)

/-- The fields of a policy in JSON. -/
def fields : List (Json.Field RetryPolicy) := [
  Json.field "max_attempts" (Json.natural (Nat.pow 2 32)) fun n p => { p with maxAttempts := n },
  Json.field "delay" (Json.natural (Nat.pow 2 64)) fun n p => { p with delay := .ofMillis n },
  Json.field "backoff" Json.decimal fun x p => { p with backoff := x }]

/-- A policy in JSON. -/
def toJson (p : RetryPolicy) : Json :=
  .object [("max_attempts", .int p.maxAttempts), ("delay", .int p.delay.millis),
    ("backoff", .float p.backoff)]

end RetryPolicy

/-- The settings of a session. -/
structure Settings where
  /-- How long after a run reruns are ignored. -/
  debounce : Period
  /-- How long the body of a node may take. -/
  nodeTimeout : Option Period
  /-- How nodes are tried again that have no policy of their own. -/
  retry : Option RetryPolicy
  /-- How many calls may be under way inside each other. -/
  recursionLimit : Nat
  /-- Whether scripts are split into graphs. -/
  incremental : Bool
  deriving BEq

namespace Settings

/-- The settings of a session that sets none. -/
def standard : Settings := ⟨.ofMillis 100, none, none, 64, true⟩

/-- The fields of settings in JSON. -/
def fields : List (Json.Field Settings) := [
  Json.field "debounce" (Json.natural (Nat.pow 2 64)) fun n s => { s with debounce := .ofMillis n },
  Json.field "node_timeout" (Json.nullable (Json.natural (Nat.pow 2 64))) fun n s =>
    { s with nodeTimeout := n.map .ofMillis },
  Json.field "retry" (Json.nullable (Json.record RetryPolicy.fields .standard)) fun p s =>
    { s with retry := p },
  Json.field "recursion_limit" (Json.natural (Nat.pow 2 64)) fun n s =>
    { s with recursionLimit := n },
  Json.field "incremental" Json.truth fun b s => { s with incremental := b }]

/-- Settings from JSON. -/
def read (text : String) : Except Json.Fault Settings :=
  Json.readWhole (Json.record fields standard) text

/-- Settings in JSON. -/
def toJson (s : Settings) : Json :=
  .object [("debounce", .int s.debounce.millis),
    ("node_timeout", Json.orNull (fun d => .int d.millis) s.nodeTimeout),
    ("retry", Json.orNull RetryPolicy.toJson s.retry), ("recursion_limit", .int s.recursionLimit),
    ("incremental", .bool s.incremental)]

end Settings

end ReactiveScript
