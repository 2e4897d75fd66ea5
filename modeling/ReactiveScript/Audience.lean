import ReactiveScript.Message

/-!
# Observers

Every observer of a session has a line to it, over which messages are offered one after another; the
line accepts a message or refuses it.  An observer whose line refuses a message that goes out to
everybody is gone and is offered no more.  What was accepted is kept in order, so that what an
observer knows can be read off (`Audience.received`).

* `Audience.attach`, `Audience.detach` — observers come and go.
* `Audience.broadcast` — a message to everybody, or to everybody but one.
-/

set_option autoImplicit false

namespace ReactiveScript

/-- The number of an observer; it is never given again in the same session. -/
structure ObserverId where
  /-- The number. -/
  number : Nat
  deriving DecidableEq, Repr

/-- An observer and its line. -/
structure Observer where
  /-- Its id. -/
  id : ObserverId
  /-- Whether the line accepts the message that is offered to it after so many others. -/
  accepts : Nat → Bool
  /-- How many messages have been offered. -/
  offered : Nat

namespace Observer

/-- Whether the line accepts the next message. -/
def willAccept (o : Observer) : Bool := o.accepts o.offered

/-- The observer after it was offered a message. -/
def next (o : Observer) : Observer := { o with offered := o.offered + 1 }

/-- Whether a message to everybody but `skip` gets through to the observer. -/
def hears (skip : Option ObserverId) (o : Observer) : Bool := skip != some o.id && o.willAccept

/-- What becomes of the observer when a message goes out to everybody but `skip`. -/
def after (skip : Option ObserverId) (o : Observer) : Option Observer :=
  if skip = some o.id then some o else if o.willAccept then some o.next else none

end Observer

/-- A message that was accepted. -/
structure Delivery where
  /-- Who accepted it. -/
  receiver : ObserverId
  /-- The message. -/
  message : Message

/-- The observers of a session. -/
structure Audience where
  /-- Those who are attached, longest attached first. -/
  observers : List Observer
  /-- The number of the next observer. -/
  next : Nat
  /-- What was accepted so far, oldest first. -/
  sent : Array Delivery

namespace Audience

/-- Nobody. -/
def empty : Audience := ⟨[], 0, #[]⟩

/-- Attach an observer.  If there is a message to welcome it with, it is offered that message, and
stays attached even if its line refuses it. -/
def attach (accepts : Nat → Bool) (welcome : Option Message) (a : Audience) :
    ObserverId × Audience :=
  let o : Observer := ⟨⟨a.next⟩, accepts, 0⟩
  match welcome with
  | none => (o.id, { a with observers := a.observers ++ [o], next := a.next + 1 })
  | some m =>
    (o.id, { observers := a.observers ++ [o.next], next := a.next + 1
             sent := if o.willAccept then a.sent.push ⟨o.id, m⟩ else a.sent })

/-- Detach an observer; whether it was attached. -/
def detach (id : ObserverId) (a : Audience) : Bool × Audience :=
  (a.observers.any fun o => o.id == id,
    { a with observers := a.observers.filter fun o => o.id != id })

/-- The line to an observer breaks down: it refuses every further message. -/
def hangUp (id : ObserverId) (a : Audience) : Audience :=
  { a with observers := a.observers.map fun o =>
      if o.id = id then { o with accepts := fun _ => false } else o }

/-- Offer a message to everybody but `skip`, and drop those who refuse it. -/
def broadcast (skip : Option ObserverId) (m : Message) (a : Audience) : Audience :=
  { a with
    observers := a.observers.filterMap (Observer.after skip)
    sent := a.sent ++ (a.observers.filter (Observer.hears skip)).map fun o => Delivery.mk o.id m }

/-- What an observer has received, oldest first. -/
def received (id : ObserverId) (a : Audience) : List Message :=
  (a.sent.toList.filter fun d => d.receiver == id).map Delivery.message

end Audience

end ReactiveScript
