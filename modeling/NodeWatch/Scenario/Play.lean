import NodeWatch.Scenario.Progress

/-! How a scenario is played. A step goes on until it has to wait; then the tasks that are ready
run, and when nobody can run the clock moves to the next deadline. After a step the report says
what it led to. -/

namespace NodeWatch.Scenario

/-- More than one turn of a task takes. -/
def turnFuel : Nat :=
  100000000

def runParty (p : Party) (work : Work Activity) (w : World) : Work Activity × World :=
  goOnParty turnFuel p work w

def runDispatcher : Nat → World → World
  | 0, w => w
  | n + 1, w =>
    if w.allowance = 0 then w.putOff none
    else match (w.unwatch .dispatcher).act? (.dispatch fun _ => Cast.conduct w.handle) with
      | some w => runDispatcher n w.spend
      | none => w.watch .dispatcher

/-- The worker runs until it waits, and looks for the client's close when it begins to. -/
def runWorker : Nat → World → World
  | 0, w => w
  | n + 1, w =>
    if w.allowance = 0 then w.putOff none
    else match w.act? .turn with
      | none => w.watch .worker
      | some w =>
        match w.engine.worker with
        | .idle => w
        | .received _ => runWorker n (w.unwatch .worker).spend
        | .stopped =>
          { (w.workerWork.slots.flatMap fun x => x.2.activities).foldl World.drop
              (w.unwatch .worker) with
            workerWork := {} }
        | .removing .. | .reporting .. =>
          let (workerWork, w) := runParty .remover w.workerWork (w.watch .worker)
          let w := { w with workerWork }
          match w.engine.worker with
          | .idle => runWorker n (w.unwatch .worker)
          | _ => w.act .sleep

def runListener : Nat → World → World
  | 0, w => w
  | n + 1, w =>
    match w.engine.listener with
    | .stopped => w
    | .idle =>
      if w.allowance = 0 then w.putOff none
      else match (w.unwatch .listener).act? .listen with
        | some w => runListener n w.spend
        | none => w.watch .listener
    | .handling _ =>
      let (listenerWork, w) := runParty .listener w.listenerWork w
      let w := { w with listenerWork }
      match w.engine.listener with
      | .handling _ => w
      | _ => runListener n w

namespace World

def runTask (w : World) (t : Task) : World :=
  let w := { w with running := t, again := false, allowance := turnLength }
  let w := match t with
    | .main => w
    | .dispatcher => runDispatcher turnFuel w
    | .worker => runWorker turnFuel w
    | .listener => runListener turnFuel w
  let again := w.again
  let w := { w with running := .main, again := false, allowance := turnLength }
  if again then w.wake t else w

def runReady : Nat → World → World
  | 0, w => w
  | n + 1, w =>
    match w.ready with
    | [] => w
    | t :: ts => runReady n ({ w with ready := ts }.runTask t)

/-- The deadlines of all tasks, given what the scenario itself is at. -/
def deadlines (w : World) (a : Activity) : List (Deadline × Task) :=
  let ofWork := fun work => Activity.deadlines (.call 0 work)
  a.deadlines.map (·, .main) ++ (ofWork w.workerWork).map (·, .worker) ++
    (ofWork w.listenerWork).map (·, .listener)

/-- Moves the clock to the next deadline up to `limit` and rouses the tasks it is for. -/
def moveClock (w : World) (a : Activity) (limit : Nat) : Option World :=
  let ds := w.deadlines a
  match (ds.map fun x => x.1.time).min? with
  | none => none
  | some time =>
    if limit ≤ time then none
    else
      let due := ds.filter fun x => x.1.time == time
      let inOrder := due.mergeSort fun x y => x.1.serial ≤ y.1.serial
      some ((inOrder.map fun x => (x.2, some (.deadline x.1.serial))).foldl rouse
        { w with clock := time })

/-- How many tasks run before the scenario itself is looked at again. -/
def interval : Nat :=
  61

def runOthers (w : World) : World :=
  (w.runReady interval).rouseDeferred

def settle : Nat → World → World
  | 0, w => w
  | n + 1, w =>
    let w := w.runOthers
    if w.ready.isEmpty then w else settle n w

/-- Plays a step to its end. The clock moves when nobody can run. -/
def play : Nat → Nat → Activity → World → Result × World
  | 0, _, _, w => (.hangs, w)
  | n + 1, limit, a, w =>
    let (a, w) := if w.stirred then goOn turnFuel a { w with stirred := false } else (a, w)
    match a with
    | .finished r => (r, w)
    | a =>
      let w := { w.runOthers with allowance := turnLength }
      if w.stirred || !w.ready.isEmpty then play n limit a w
      else match w.moveClock a limit with
        | some w => play n limit a w
        | none => (.hangs, { w.drop a with clock := limit })

/-- A step that waits so long, in milliseconds, does not end. -/
def patience : Nat :=
  1000000000

end World

structure Report where
  result : Result
  clock : Nat
  requests : List (Request × Nat)
  nested : List Result
  /-- What happened in the client since the last report. -/
  news : List Occurrence
  /-- The client, as long as the user has it. -/
  client : Option Client
  server : Option Server

namespace World

def report (w : World) (result : Result) : Report × World :=
  ({ result
     clock := w.clock
     requests := w.requests.reverse
     nested := w.nested.reverse
     news := (w.client.journal.take (w.client.journal.length - w.reported)).reverse
     client := if w.handle then some w.client else none
     server := w.server },
    { w with requests := [], nested := [], reported := w.client.journal.length })

/-- Plays a step; unless it is not to settle, everybody then runs until all wait. -/
def step (w : World) (s : Step) (settle : Bool) : Report × World :=
  let (r, w) := play turnFuel (w.clock + patience) (.fresh s) { w with stirred := true }
  (if settle then { w.settle turnFuel with allowance := turnLength } else w).report r

def steps (w : World) : List (Step × Bool) → List Report × World
  | [] => ([], w)
  | (s, settle) :: rest =>
    let (r, w) := w.step s settle
    let (rs, w) := w.steps rest
    (r :: rs, w)

end World

end NodeWatch.Scenario
