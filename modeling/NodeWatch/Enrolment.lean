import NodeWatch.Client

/-! Background removals on their way to the worker. The caller learns of an invalid path or a
closed client at once, and waits only while the worker's queue is full. -/

namespace NodeWatch.Enrolment

inductive Stage where
  | offering
  | done (result : Except Fault Unit)

def start (b : BackgroundRemoval) (c : Client) : Stage × Client :=
  if c.closed then (.done (.error .closed), c)
  else match Path.validate b.request.path with
    | .error f => (.done (.error f), c)
    | .ok () => (.offering, c)

/-- Whether the next step is to offer the removal. -/
def offers : Stage → Bool
  | .offering => true
  | .done _ => false

/-- Offers the removal to the worker, or lines up. -/
def resume (b : BackgroundRemoval) (p : Party) (stage : Stage) (c : Client) :
    Option (Stage × Client) :=
  match stage with
  | .offering =>
    if c.removals.stalls p then none
    else match c.removals.offer p b with
      | .refused => some (.done (.error .closed), c)
      | .accepted q => some (.done (.ok ()), { c with removals := q })
      | .mustWait q => some (.offering, { c with removals := q })
  | .done _ => none

end NodeWatch.Enrolment
