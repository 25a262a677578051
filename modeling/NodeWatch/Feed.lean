import NodeWatch.Session

/-! The feed of session events and the listener that handles them one after another. The feed
keeps a bounded number of unread events: when it overflows the oldest is lost, and the listener
is told how many were lost before it reads on. -/

namespace NodeWatch

structure Feed where
  capacity : Nat
  unread : List SessionEvent
  lost : Nat
  isOpen : Bool
  deriving Repr

namespace Feed

def ofCapacity (n : Nat) : Feed :=
  ⟨n, [], 0, true⟩

def send (f : Feed) (e : SessionEvent) : Feed :=
  if f.unread.length < f.capacity then { f with unread := f.unread ++ [e] }
  else { f with unread := f.unread.drop 1 ++ [e], lost := f.lost + 1 }

def close (f : Feed) : Feed :=
  { f with isOpen := false }

end Feed

inductive Listener where
  | idle
  | handling (stage : Session.Stage)
  | stopped

namespace Listener

def isStopped : Listener → Bool
  | stopped => true
  | _ => false

/-- An event that is handled leaves the listener idle. -/
def ofStage : Session.Stage → Listener
  | .done => idle
  | s => handling s

/-- The idle listener's next step: it stops on a closed client, reports a loss, begins to handle
the oldest unread event, or stops at the end of the feed. -/
def listen (l : Listener) (f : Feed) (c : Client) : Option (Listener × Feed × Client) :=
  match l with
  | idle =>
    if c.closed then some (stopped, f, c)
    else if 0 < f.lost then some (idle, { f with lost := 0 }, c.remark (.feedLagged f.lost))
    else match f.unread with
      | e :: es =>
        let (s, c) := Session.start e c
        some (ofStage s, { f with unread := es }, c)
      | [] => if f.isOpen then none else some (stopped, f, c)
  | handling _ | stopped => none

/-- Changes the stage of the event in hand. -/
def update (f : Session.Stage → Client → Option (Session.Stage × Client)) (l : Listener)
    (c : Client) : Option (Listener × Client) :=
  match l with
  | handling s => (f s c).map (·.map ofStage id)
  | idle | stopped => none

/-- Whether the next step is to offer a delivery. -/
def offers : Listener → Bool
  | handling s => Session.offers s
  | idle | stopped => false

def waits (p : BackoffPolicy) : Listener → List (Option Wait)
  | handling s => Session.waits p s
  | idle | stopped => []

end Listener

end NodeWatch
