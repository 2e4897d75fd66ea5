import ReactiveScript.Session.Worker

/-!
# The sessions of a server

A `Registry` holds the sessions that are open, by name.  They share nothing but the settings with
which they are opened.
-/

set_option autoImplicit false

namespace ReactiveScript

/-- The open sessions. -/
structure Registry where
  /-- The settings of every session. -/
  settings : Settings
  /-- The sessions, each with its worker. -/
  workers : Table SessionId Worker

namespace Registry

/-- No session is open. -/
def empty (settings : Settings) : Registry := ⟨settings, []⟩

/-- The worker of a session, if it is open. -/
def get? (id : SessionId) (r : Registry) : Option Worker := Table.get? id r.workers

/-- Replace the worker of a session. -/
def put (id : SessionId) (w : Worker) (r : Registry) : Registry :=
  { r with workers := Table.put id w r.workers }

/-- Open a session, unless it is open. -/
def openSession (id : SessionId) (r : Registry) : Registry :=
  if Table.has id r.workers then r else r.put id (.ofSession (.fresh id r.settings))

/-- Close a session: its worker finishes what is queued and is handed out. -/
def closeSession (id : SessionId) (r : Registry) : Option Worker × Registry :=
  ((r.get? id).map fun w => w.close.drain, { r with workers := Table.erase id r.workers })

/-- The names of the open sessions, in order. -/
def ids (r : Registry) : List SessionId :=
  (sortedTexts ((Table.keys r.workers).map SessionId.text)).map SessionId.mk

end Registry

end ReactiveScript
