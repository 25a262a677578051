import NodeWatch.Client

/-! Server notifications. The watches that a notification fires leave the registry at once; their
subscribers are told one after another, through the delivery queue. -/

namespace NodeWatch.Notification

inductive Stage where
  | telling (rest : List Delivery)
  | done
  deriving DecidableEq, Repr

def start (e : WatchedEvent) (c : Client) : Stage × Client :=
  if c.closed then (.done, c)
  else match e.path with
    | none => (.telling [.state e], c)
    | some path =>
      let (fired, c) := c.fire path e
      (.telling (fired.map fun x => .watched x.subscriber x.kind e), c)

/-- Whether the next step is to offer a delivery. -/
def offers : Stage → Bool
  | .telling (_ :: _) => true
  | .telling [] | .done => false

/-- Queues the next delivery, or lines up for it. -/
def resume (p : Party) : Stage → Client → Option (Stage × Client)
  | .telling [], c => some (.done, c)
  | .telling (d :: ds), c =>
    if c.deliveries.stalls p then none
    else match c.send p d with
      | (true, c) => some (.telling ds, c)
      | (false, c) => some (.telling (d :: ds), c)
  | .done, _ => none

end NodeWatch.Notification
