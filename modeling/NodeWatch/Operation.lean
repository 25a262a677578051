import NodeWatch.Arming
import NodeWatch.Enrolment
import NodeWatch.Notification
import NodeWatch.Removal
import NodeWatch.Session

/-! The operations of the public interface that may take time, under one roof: each is started,
moves on by itself, by an answer, or with time, and has an outcome in the end. -/

namespace NodeWatch

/-- An operation as asked for. -/
inductive Order where
  | arm (arming : Arming)
  | remove (request : RemovalRequest)
  | enrol (removal : BackgroundRemoval)
  | notify (event : WatchedEvent)
  | session (event : SessionEvent)
  deriving DecidableEq, Repr

inductive Outcome where
  | read (answer : Answer)
  | removal (result : Except Fault (List Entry))
  | enrolment (result : Except Fault Unit)
  | handled

/-- An operation that was begun. -/
inductive Operation where
  | arming (arming : Arming) (stage : Arming.Stage)
  | removal (request : RemovalRequest) (stage : Removal.Stage)
  | enrolment (removal : BackgroundRemoval) (stage : Enrolment.Stage)
  | notification (stage : Notification.Stage)
  | session (stage : Session.Stage)

namespace Operation

def start (o : Order) (c : Client) : Operation × Client :=
  match o with
  | .arm a => (a.start c).map (arming a) id
  | .remove r => (Removal.startOpen r c).map (removal r) id
  | .enrol b => (Enrolment.start b c).map (enrolment b) id
  | .notify e => (Notification.start e c).map notification id
  | .session e => (Session.startOpen e c).map session id

/-- Whether the next step is to offer something to a queue. -/
def offers : Operation → Bool
  | arming .. => false
  | removal _ s => Removal.offers s
  | enrolment _ s => Enrolment.offers s
  | notification s => Notification.offers s
  | session s => Session.offers s

/-- The next step that waits neither for an answer nor for time. -/
def resume (p : Party) (o : Operation) (c : Client) : Option (Operation × Client) :=
  match o with
  | arming .. => none
  | removal r s => (Removal.resume r p s c).map (·.map (removal r) id)
  | enrolment b s => (Enrolment.resume b p s c).map (·.map (enrolment b) id)
  | notification s => (Notification.resume p s c).map (·.map notification id)
  | session s => (Session.resume p s c).map (·.map session id)

def answer (slot : Nat) (x : Answer) (o : Operation) (c : Client) : Option (Operation × Client) :=
  match o with
  | arming a s => if slot = 0 then (a.answer x s c).map (·.map (arming a) id) else none
  | removal r s => (Removal.answer r slot x s c).map (·.map (removal r) id)
  | session s => (Session.answer slot x s c).map (·.map session id)
  | enrolment .. | notification _ => none

/-- The time to answer a request is over. -/
def timeOut (slot : Nat) (o : Operation) (c : Client) : Option (Operation × Client) :=
  match o with
  | session s => (Session.timeOut slot s c).map (·.map session id)
  | _ => none

/-- A pause is over. -/
def retry (slot : Nat) (o : Operation) (c : Client) : Option (Operation × Client) :=
  match o with
  | session s => (Session.retry slot s c).map (·.map session id)
  | _ => none

/-- What each part of the operation waits for, by slot. -/
def waits (p : BackoffPolicy) : Operation → List (Option Wait)
  | arming a s => a.waits s
  | removal r s => Removal.waits r s
  | session s => Session.waits p s
  | enrolment .. | notification _ => []

def outcome? : Operation → Option Outcome
  | arming _ (.done r) => some (.read r)
  | removal _ (.done r) => some (.removal r)
  | enrolment _ (.done r) => some (.enrolment r)
  | notification .done | session .done => some .handled
  | _ => none

end Operation

end NodeWatch
