import FlowAdmission.Store.Transaction

/-!
# Sessions

The operations of a transaction as data, and whole transactions from their begin to their end. A
session ends with a commit or is dropped; a dropped one is rolled back and releases nothing.
-/
namespace FlowAdmission

/-- One operation of a transaction. -/
inductive Action (K : Type) where
  /-- Takes a read lock, as reading does. -/
  | lock {k : Kind} (h : Handle k)
  | insert {k : Kind} (record : Record K k)
  | update {k : Kind} (h : Handle k) (change : Record K k → Record K k)
  | remove {k : Kind} (h : Handle k)
  | attach (request : RequestId) (path : Path)
  | detach (request : RequestId)

variable {K : Type}

def Action.run (t : Transaction K) : Action K → Transaction K
  | .lock h => t.lock h
  | .insert record => (t.insert record).2
  | .update h change => t.update h change
  | .remove h => t.remove h
  | .attach request path => t.attach request path
  | .detach request => t.detach request

/-- The transaction after a list of operations. -/
def Transaction.runAll (t : Transaction K) (actions : List (Action K)) : Transaction K :=
  actions.foldl Action.run t

structure Session (K : Type) where
  actions : List (Action K)
  /-- Whether it ends with a commit. -/
  kept : Bool

namespace Session

/-- The store that a session leaves, and the paths that it releases. -/
def run (s : Store K) (session : Session K) : Store K × List (Path × Request K) :=
  let t := s.begin.runAll session.actions
  if session.kept then t.commit else (t.rollback, [])

/-- The store after a list of sessions. -/
def runAll (s : Store K) (sessions : List (Session K)) : Store K :=
  sessions.foldl (fun s session => (session.run s).1) s

end Session
end FlowAdmission
