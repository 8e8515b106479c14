import SimCme.Fixp.Session

/-!
# The session manager

The manager numbers the sessions as the connections come in, finds them again by
that number and drops those that have ended.
-/

namespace SimCme

/-- At most one session to an id, in no particular order. -/
structure SessionManager where
  sessions : List Session := []
  nextUuid : UInt64 := 1
  maxSessions : Nat := 100

namespace SessionManager

/-- Store a session under its id, in place of the one stored there before. -/
def store (m : SessionManager) (session : Session) : SessionManager :=
  { m with sessions := session :: m.sessions.filter fun other => other.uuid ≠ session.uuid }

/-- A session created at the time {lit}`now`, unless there are too many. -/
def createSession (m : SessionManager) (now : Int) : Option (Session × SessionManager) :=
  if m.sessions.length ≥ m.maxSessions then none
  else
    let session : Session := { uuid := m.nextUuid, lastReceived := now, lastSent := now }
    some (session, { m with nextUuid := m.nextUuid + 1 }.store session)

def removeSession (m : SessionManager) (uuid : UInt64) : SessionManager :=
  { m with sessions := m.sessions.filter fun session => session.uuid ≠ uuid }

def findSession (m : SessionManager) (uuid : UInt64) : Option Session :=
  m.sessions.find? fun session => session.uuid = uuid

/-- Every session is given its timer call, and those that end are dropped. -/
def onTimerTick (m : SessionManager) (clock : UInt64 → SessionClock) :
    SessionManager × List (UInt64 × SessionEffect) :=
  let ticked := m.sessions.map fun session => session.onTimer (clock session.uuid)
  ({ m with sessions := (ticked.map Prod.fst).filter fun session => session.state ≠ .terminated },
    ticked.flatMap fun (session, effects) => effects.map fun e => (session.uuid, e))

end SessionManager

end SimCme
