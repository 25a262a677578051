import NodeWatch.Scenario.World

/-! How activities go on. Each goes as far as it can without waiting, its parts in order; what
cannot go on stays as it is until its task runs again. A task whose turn is over puts off what
would count; what finds a queue full does not, and lines up all the same. Fuel bounds the length
of one turn. -/

namespace NodeWatch.Scenario

namespace World

def perform (w : World) (s : Step) : Result × World :=
  let listeners := w.client.listeners
  match s with
  | .listen n =>
    (.listening (listeners.length + 1), w.act (.perform (.addListener n)))
  | .unlisten n =>
    (.unlistened (listeners.contains n) (listeners.filter (· != n)).length,
      w.act (.perform (.removeListener n)))
  | .snapshot p => (.entries (w.client.registry.snapshot p), w)
  | .settings => (.settings w.client.settings, w)
  | .close => (.closed true, w.act (.perform .close))
  | .release => (.ok, { w with handle := false })
  | .feed es =>
    let (n, w) := es.foldl (fun (n, w) e => match w.act? (.feed e) with
      | some w => (n + 1, w)
      | none => (n, w)) (0, w)
    (.sent n, w)
  | .endFeed => (.ok, w.act .endFeed)
  | .rule r => (.ok, { w with rules := w.rules ++ [r] })
  | .clearRules => (.ok, { w with rules := [] })
  | .server d => (.ok, { w with server := w.server.map (·.perform d) })
  | _ => (.ok, w)

def order? (w : World) : Step → Option (Order × World)
  | .arm read path who =>
    match who with
    | some n => some (.arm ⟨read, path, Cast.subscriber n⟩, w)
    | none =>
      some (.arm ⟨read, path, .fallible (.anonymous w.strangers)⟩,
        { w with strangers := w.strangers + 1 })
  | .remove r => some (.remove r, w)
  | .enrol b => some (.enrol b, w)
  | .notify e => some (.notify e, w)
  | .session e => some (.session e, w)
  | _ => none

/-- Begins an operation on behalf of the running task; none without the client. -/
def begin? (w : World) (o : Order) : Option (Nat × World) :=
  let id := w.engine.nextCall
  (w.act? (.begin o)).map fun new => (id, { new with carriers := (id, w.running) :: new.carriers })

def start (w : World) (s : Step) : Activity × World :=
  match s with
  | .pause length => (.delay length, w)
  | .join steps =>
    let parts := steps.map .fresh
    if parts.length ≤ Crowd.limit then (.together parts none, w)
    else
      let (c, w) := w.crowd parts.length
      (.together parts (some c), w)
  | s =>
    match w.order? s with
    | some (o, w) =>
      match w.begin? o with
      | some (id, w) => (.call id {}, w)
      | none => (.finished .released, w)
    | none =>
      let (r, w) := w.perform s
      (.finished r, w)

def wait? (w : World) (p : Party) (i : Nat) : Option Wait :=
  (w.engine.waits p)[i]?.getD none

/-- The first part that has something to wait for and has not begun to. -/
def newSlot? (w : World) (p : Party) (slots : Slots) : Option Nat :=
  (List.range (w.engine.waits p).length).find? fun i =>
    (slots.get? i).isNone && (w.wait? p i).isSome

/-- Whether a deadline that the running task looks at has come. At the end of its turn it does
not look, unless it reached that end only since `hadTurn` was found. -/
def look (w : World) (hadTurn : Bool) (d : Deadline) : Bool × Deadline × World :=
  if w.allowance = 0 ∧ !hadTurn then (false, d, w.putOff (some (.deadline d.serial)))
  else
    let (d, w) := w.setDeadline d
    (w.isDue d, d, if w.isDue d then w.spend else w)

end World

namespace Crowd

/-- Takes note of the signals that have come; `part?` tells whom they are for. -/
def hear (c : Crowd) (signals : Array Signal) (part? : Signal → Option Nat) : Crowd :=
  { (signals.extract c.heard signals.size).foldl (fun c s => match part? s with
      | some i => if i ∈ c.queue then c else { c with queue := c.queue ++ [i] }
      | none => c) c with heard := signals.size }

def isSignalled (c : Crowd) (signals : Array Signal) (part? : Signal → Option Nat)
    (i : Nat) : Bool :=
  (signals.extract c.heard signals.size).any fun s => part? s == some i

def goOn {σ : Type} (part? : σ → Signal → Option Nat)
    (visit : Nat → σ → World → Bool × σ × World) :
    Nat → (looks restless round : Nat) → Crowd → σ → World → Crowd × σ × World
  | 0, _, _, _, c, s, w => (c, s, w)
  | n + 1, looks, restless, round, c, s, w =>
    match c.queue with
    | [] => (c, s, w)
    | i :: queue =>
      let (ended, s', w) := visit i s w
      let concerned := fun x => (part? s' x).orElse fun _ => part? s x
      let again := c.isSignalled w.signals concerned i
      let c := { c with queue }.hear w.signals concerned
      if ended then
        let c := { c with left := c.left - 1, queue := c.queue.filter (· ≠ i) }
        goOn part? visit n 0 0 c.left c s' w
      else
        let restless := restless + again.toNat
        if 2 ≤ restless ∨ looks + 1 = round then
          (c, s', w.rouse (w.running, some (.crowd c.serial)))
        else goOn part? visit n (looks + 1) restless round c s' w

end Crowd

mutual

def goOn : Nat → Activity → World → Activity × World
  | 0, a, w => (a, w)
  | n + 1, a, w =>
    match a with
    | .fresh s =>
      if w.handle then
        let (a, w) := { w with holders := w.holders + 1 }.start s
        goOn n (.step a) w
      else (.finished .released, w)
    | .step a =>
      match goOn n a w with
      | (.finished r, w) => (.finished r, w.letGo 1)
      | (a, w) => (.step a, w)
    | .call id work =>
      let (work, w) := goOnParty n (.caller id) work w
      match w.engine.outcome? id with
      | some o => (.finished (.ofOutcome o), w.act (.collect id))
      | none => (.call id work, w)
    | .delay none => (.pausing none, w)
    | .delay (some ms) =>
      let (d, w) := w.deadline ms
      goOn n (.pausing (some d)) w
    | .pausing none => (.pausing none, w)
    | .pausing (some d) =>
      match w.look false d with
      | (true, _, w) => (.finished .ok, w)
      | (false, d, w) => (.pausing (some d), w)
    | .together parts crowd =>
      let (parts, crowd, w) := match crowd with
        | none =>
          let (parts, w) := goOnAll n parts w
          (parts, none, w)
        | some c =>
          let visit := fun (i : Nat) (parts : List Activity) (w : World) =>
            let (a, w) := goOn n (parts[i]?.getD (.finished .ok)) w
            (a.isFinished, parts.set i a, w)
          let c := c.hear w.signals (Activity.part? parts)
          let (c, parts, w) := c.goOn Activity.part? visit n 0 0 c.left parts w
          (parts, some c, w)
      match parts.mapM fun x => match x with
        | .finished r => some r
        | _ => none with
      | some rs => (.finished (.together rs), w)
      | none => (.together parts crowd, w)
    | .finished r => (.finished r, w)

def goOnAll : Nat → List Activity → World → List Activity × World
  | 0, as, w => (as, w)
  | _, [], w => ([], w)
  | n + 1, a :: as, w =>
    let (a, w) := goOn n a w
    let (as, w) := goOnAll n as w
    (a :: as, w)

def goOnParty : Nat → Party → Work Activity → World → Work Activity × World
  | 0, _, work, w => (work, w)
  | n + 1, p, work, w =>
    let size := (w.engine.waits p).length
    if size ≤ Crowd.limit then
      let (slots, w) := goOnSlots n p (List.range size) work.slots w
      goOnMoves n p slots w
    else
      let (c, w) := match work.crowd with
        | some c => (c.hear w.signals (Slots.part? work.slots), w)
        | none => w.crowd size
      let visit := fun (i : Nat) (slots : Slots) (w : World) =>
        let w := if (w.wait? p i).isNone then w.act (.resume p) else w
        let (slots, w) := goOnSlot n p i slots w
        ((w.wait? p i).isNone, slots, w)
      let (c, slots, w) := c.goOn Slots.part? visit n 0 0 c.left work.slots w
      if c.left = 0 then goOnMoves n p slots w else (⟨slots, some c⟩, w)

def goOnSlots : Nat → Party → List Nat → Slots → World → Slots × World
  | 0, _, _, slots, w => (slots, w)
  | _, _, [], slots, w => (slots, w)
  | n + 1, p, i :: rest, slots, w =>
    let (slots, w) := goOnSlot n p i slots w
    goOnSlots n p rest slots w

def goOnMoves : Nat → Party → Slots → World → Work Activity × World
  | 0, _, slots, w => (⟨slots, none⟩, w)
  | n + 1, p, slots, w =>
    match w.act? (.resume p) with
    | none => (⟨slots, none⟩, w)
    | some moved =>
      let counts := w.engine.offers p && !moved.engine.inLine p
      if counts && w.allowance == 0 then (⟨slots, none⟩, w.putOff (some (.party p)))
      else
        let w := if counts then moved.spend else moved
        if Crowd.limit < (w.engine.waits p).length then goOnParty n p ⟨slots, none⟩ w
        else
          let (slots, w) := goOnSlots n p (w.newSlot? p slots).toList slots w
          goOnMoves n p slots w

/-- Lets one part of a party's work go on until it waits or has ended. -/
def goOnSlot : Nat → Party → Nat → Slots → World → Slots × World
  | 0, _, _, slots, w => (slots, w)
  | n + 1, p, i, slots, w =>
    match w.wait? p i with
    | none => (slots, w)
    | some (.pause ms) =>
      let (d, w) := match slots.get? i with
        | some (.pausing d) => (d, w)
        | _ => w.deadline ms
      match w.look false d with
      | (true, _, w) => goOnSlot n p i (slots.clear i) (w.act (.retry p i))
      | (false, d, w) => (slots.put i (.pausing d), w)
    | some (.answer r limit) =>
      let (e, d, w) := match slots.get? i with
        | some (.asking e d) => (e, d, w)
        | _ =>
          let (e, w) := w.exchange r
          match limit with
          | none => (e, none, w)
          | some ms =>
            let (d, w) := w.deadline ms
            (e, some d, w)
      let hadTurn := w.allowance != 0
      match goOnExchange n e w with
      | (.ok a, w) => goOnSlot n p i (slots.clear i) (w.act (.answer p i a))
      | (.error e, w) =>
        match d with
        | none => (slots.put i (.asking e none), w)
        | some d =>
          match w.look hadTurn d with
          | (true, _, w) =>
            let w := (e.current.toList.map Prod.fst).foldl World.drop w
            goOnSlot n p i (slots.clear i) (w.act (.timeOut p i))
          | (false, d, w) => (slots.put i (.asking e (some d)), w)

def goOnExchange : Nat → Exchange Activity → World →
    Except (Exchange Activity) Answer × World
  | 0, e, w => (.error e, w)
  | n + 1, e, w =>
    match e.current, e.rest with
    | some (a, shown), _ =>
      match goOn n a w with
      | (.finished r, w) =>
        goOnExchange n { e with current := none }
          (if shown then { w with nested := r :: w.nested } else w)
      | (a, w) => (.error { e with current := some (a, shown) }, w)
    | none, next :: rest => goOnExchange n { e with current := some next, rest } w
    | none, [] =>
      match e.reply with
      | some a => (.ok a, w)
      | none =>
        let (a, w) := w.ask e.request
        (.ok a, w)

end

end NodeWatch.Scenario
