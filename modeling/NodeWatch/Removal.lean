import NodeWatch.Client

/-! Removals. The server knows watches by path and kind only, so it is asked to drop a kind when
every subscriber of it goes, and a subscriber that shares its kind with others is removed from the
registry alone. All requests are submitted before any answer is acted upon, and nothing changes
until the last of them is answered. Then the entries go at once, their subscribers are told, and
a kind that was registered again in the meantime is armed again. -/

namespace NodeWatch.Removal

/-- Which kinds the server is asked to drop, and which are settled here. A probe asks about every
kind because nothing is registered here. -/
structure Plan where
  server : List Kind
  here : List Kind
  probe : Bool
  deriving DecidableEq, Repr

def plan (r : RemovalRequest) (reg : Registry) : Plan :=
  match r.target with
  | .one s =>
    let ks := reg.subscriberKinds r.path r.kind s
    ⟨(ks.filter fun x => x.2).map Prod.fst, (ks.filter fun x => !x.2).map Prod.fst, false⟩
  | .all =>
    match r.kind with
    | .only k => ⟨[k], [], false⟩
    | .any =>
      match reg.registeredKinds r.path .any .all with
      | [] => ⟨Selector.any.kinds, [], true⟩
      | ks => ⟨ks, [], false⟩

/-- What is known once every request of a removal is answered. -/
structure Settlement where
  /-- The entries taken out. -/
  removed : List Entry
  /-- The kinds that the server dropped. -/
  cleared : List Kind
  failure : Option Fault
  deriving DecidableEq, Repr

inductive Stage where
  /-- One answer, when it has come, for each request submitted so far. -/
  | asking (plan : Plan) (answers : List (Option Answer))
  /-- The entries whose subscribers are still to be told. -/
  | confirming (rest : List Entry) (outcome : Settlement)
  /-- The kinds still to be looked at for new registrations. -/
  | checking (kinds : List Kind) (outcome : Settlement)
  | rearming (kind : Kind) (kinds : List Kind) (outcome : Settlement)
  | done (result : Except Fault (List Entry))

def finish (r : RemovalRequest) (result : Except Fault (List Entry)) (c : Client) :
    Stage × Client :=
  (.done result, c.settle r.mode result)

/-- Nothing matched: an error, unless the removal is quiet. -/
def nothing (r : RemovalRequest) : Except Fault (List Entry) :=
  if r.quiet then .ok [] else .error (.noWatcher r.path r.kind)

/-- Begins a removal on an open client. -/
def start (r : RemovalRequest) (c : Client) : Stage × Client :=
  match Path.validate r.path with
  | .error f => (.done (.error f), c)
  | .ok () =>
    if r.registryOnly then
      match c.unregister .removed r.path r.kind r.target with
      | ([], c) => finish r (nothing r) c
      | (es, c) => (.confirming es ⟨es, [], none⟩, c)
    else
      let p := plan r c.registry
      if p.server.isEmpty ∧ p.here.isEmpty then finish r (nothing r) c
      else (.asking p [], c)

/-- Begins a removal through the public interface. -/
def startOpen (r : RemovalRequest) (c : Client) : Stage × Client :=
  if c.closed then (.done (.error .closed), c) else start r c

/-- Acts on the answer for one kind. The first failure counts. -/
def settleKind (r : RemovalRequest) (p : Plan) (o : Settlement × Client) (x : Kind × Answer) :
    Settlement × Client :=
  let (s, c) := o
  let (k, a) := x
  let takeOut := c.unregister .removed r.path (.only k) r.target
  match a with
  | .ok _ => ({ s with removed := s.removed ++ takeOut.1, cleared := s.cleared ++ [k] }, takeOut.2)
  | .error f =>
    if f.isNoWatcher then
      if r.quiet then ({ s with removed := s.removed ++ takeOut.1 }, takeOut.2)
      else if p.probe then (s, c)
      else ({ s with failure := s.failure <|> some f }, c)
    else
      ({ s with failure := s.failure <|> some f }, c.remark (.removalFailed r.path k f))

def settleHere (r : RemovalRequest) (o : Settlement × Client) (k : Kind) : Settlement × Client :=
  let (s, c) := o
  let (es, c) := c.unregister .removed r.path (.only k) r.target
  ({ s with removed := s.removed ++ es }, c)

/-- Success without effect is a failure too: somebody else took the entry of a single subscriber
first, or no kind asked about was known to the server. -/
def missed (r : RemovalRequest) (p : Plan) (s : Settlement) : Option Fault :=
  let lostRace := match r.target with
    | .one _ => s.removed.isEmpty
    | .all => false
  if !r.quiet && (lostRace || (p.probe && s.cleared.isEmpty)) then
    some (.noWatcher r.path r.kind)
  else none

/-- Acts on all answers at once. -/
def reconcile (r : RemovalRequest) (p : Plan) (answers : List Answer) (c : Client) :
    Settlement × Client :=
  let asked := (p.server.zip answers).foldl (settleKind r p) (⟨[], [], none⟩, c)
  let (s, c) := p.here.foldl (settleHere r) asked
  ({ s with failure := s.failure <|> missed r p s }, c)

/-- All answers, once every request is submitted and answered. -/
def complete? (p : Plan) (answers : List (Option Answer)) : Option (List Answer) :=
  if answers.length = p.server.length then answers.mapM id else none

/-- Moves on when the last answer is in. -/
def advance (r : RemovalRequest) (p : Plan) (answers : List (Option Answer)) (c : Client) :
    Stage × Client :=
  match complete? p answers with
  | none => (.asking p answers, c)
  | some as =>
    let (s, c) := reconcile r p as c
    (.confirming s.removed s, c)

/-- The answer to the request numbered `slot` among those not yet answered. -/
def answer (r : RemovalRequest) (slot : Nat) (x : Answer) (stage : Stage) (c : Client) :
    Option (Stage × Client) :=
  match stage with
  | .asking p answers =>
    match answers[slot]? with
    | some none => some (advance r p (answers.set slot (some x)) c)
    | _ => none
  | .rearming k ks o =>
    if slot = 0 then
      match x with
      | .ok _ => some (.checking ks o, c)
      | .error f => some (.checking ks o, c.remark (.rearmFailed r.path k f))
    else none
  | _ => none

/-- The answers that are awaited, by slot. -/
def waits (r : RemovalRequest) : Stage → List (Option Wait)
  | .asking p answers =>
    List.zipWith (fun k a => match a with
      | none => some (.answer (.remove r.path k) none)
      | some _ => none) p.server answers
  | .rearming k _ _ => [some (.answer (.register r.path (.rearming k)) none)]
  | .confirming .. | .checking .. | .done _ => []

/-- Whether the next step is to offer a delivery. -/
def offers : Stage → Bool
  | .confirming (_ :: _) _ => true
  | _ => false

/-- The next step that needs no answer. -/
def resume (r : RemovalRequest) (party : Party) (stage : Stage) (c : Client) :
    Option (Stage × Client) :=
  match stage with
  | .asking p answers =>
    match p.server[answers.length]? with
    | some k => some (.asking p (answers ++ [none]), c.submit (.remove r.path k))
    | none => if p.server.isEmpty then some (advance r p answers c) else none
  | .confirming [] o => some (.checking o.cleared o, c)
  | .confirming (e :: es) o =>
    if c.deliveries.stalls party then none
    else match c.send party (.removed e .syncConnected) with
      | (true, c) => some (.confirming es o, c)
      | (false, c) => some (.confirming (e :: es) o, c)
  | .checking [] o =>
    match o.failure with
    | some f => some (finish r (.error f) c)
    | none => some (finish r (.ok o.removed) c)
  | .checking (k :: ks) o =>
    if (c.registry.registeredKinds r.path (.only k) .all).isEmpty then some (.checking ks o, c)
    else
      some (.rearming k ks o,
        (c.remark (.rearming r.path k)).submit (.register r.path (.rearming k)))
  | .rearming .. | .done _ => none

end NodeWatch.Removal
