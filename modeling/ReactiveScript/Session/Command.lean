import ReactiveScript.Session.Run

/-!
# Commands to a session

What clients can ask of a session, and the one operation on the session that each of it stands for
(`Session.perform`).
-/

set_option autoImplicit false

namespace ReactiveScript

/-- What a client asks for. -/
inductive Command where
  /-- Start with a script. -/
  | start (source : Source)
  /-- React to changes that come from an observer, if they come from one. -/
  | rerun (origin : Option ObserverId) (changes : Table UnitId Value)
  /-- Load the script again. -/
  | restart
  /-- Stop reacting. -/
  | stop
  /-- Show the state of the graph. -/
  | introspect

/-- What a client gets when its command was carried out. -/
inductive Answer where
  /-- Nothing but the fact. -/
  | done
  /-- What the rerun did. -/
  | rerun (outcome : RerunOutcome)
  /-- The state of the graph. -/
  | graph (report : GraphReport)

namespace Session

/-- Carry out a command. -/
def perform (now : Instant) (c : Command) (s : Session) : Reply Answer × Session :=
  match c with
  | .start source =>
    let (reply, s) := s.start now source
    (reply.map fun _ => .done, s)
  | .rerun origin changes =>
    let (reply, s) := s.rerun now origin changes
    (reply.map .rerun, s)
  | .restart =>
    let (reply, s) := s.restart now
    (reply.map fun _ => .done, s)
  | .stop =>
    let (reply, s) := s.stop
    (reply.map fun _ => .done, s)
  | .introspect => (.done (.graph s.introspect), s)

end Session

end ReactiveScript
