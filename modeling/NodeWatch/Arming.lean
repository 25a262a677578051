import NodeWatch.Client

/-! Reads that arm a watch. The watch is registered only when the server has accepted the read. -/

namespace NodeWatch

structure Arming where
  read : Read
  path : String
  subscriber : Subscriber
  deriving DecidableEq, Repr

namespace Arming

inductive Stage where
  | asked
  | done (result : Answer)

def entry (a : Arming) : Entry :=
  ⟨a.path, a.read.kind, a.subscriber⟩

def start (a : Arming) (c : Client) : Stage × Client :=
  if c.closed then (.done (.error .closed), c)
  else match Path.validate a.path with
    | .error f => (.done (.error f), c)
    | .ok () => (.asked, c.submit (.register a.path a.read))

def waits (a : Arming) : Stage → List (Option Wait)
  | .asked => [some (.answer (.register a.path a.read) none)]
  | .done _ => []

/-- The server's answer is returned as it is. -/
def answer (a : Arming) (x : Answer) (stage : Stage) (c : Client) : Option (Stage × Client) :=
  match stage, x with
  | .asked, .error f => some (.done (.error f), c)
  | .asked, .ok r => some (.done (.ok r), c.arm a.entry)
  | .done _, _ => none

end Arming

end NodeWatch
