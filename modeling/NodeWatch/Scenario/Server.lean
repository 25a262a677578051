import NodeWatch.Request

/-! A server of nodes and watches, to answer the requests of a scenario. It never notifies by
itself. -/

namespace NodeWatch.Scenario

structure Server where
  running : Bool
  /-- The nodes with their contents, ordered by path. -/
  nodes : List (String × String)
  /-- The watches, ordered by path and then kind. -/
  watches : List (String × Kind)
  deriving Repr

namespace Server

def new : Server :=
  ⟨true, [], []⟩

/-- What can be done to a server from outside. -/
inductive Deed where
  | put (path data : String)
  | delete (path : String)
  /-- Loses one watch; there is none of any kind at once. -/
  | forget (path : String) (kind : Selector)
  | stop
  | start
  /-- The session expires: all watches are lost. -/
  | expire
  deriving DecidableEq, Repr

def putNode (path data : String) : List (String × String) → List (String × String)
  | [] => [(path, data)]
  | n :: ns =>
    if path < n.1 then (path, data) :: n :: ns
    else if path = n.1 then (path, data) :: ns
    else n :: putNode path data ns

def addWatch (path : String) (kind : Kind) : List (String × Kind) → List (String × Kind)
  | [] => [(path, kind)]
  | w :: ws =>
    if path < w.1 ∨ path = w.1 ∧ kind.rank < w.2.rank then (path, kind) :: w :: ws
    else if w = (path, kind) then w :: ws
    else w :: addWatch path kind ws

def perform (s : Server) : Deed → Server
  | .put p d => { s with nodes := putNode p d s.nodes }
  | .delete p => { s with nodes := s.nodes.filter fun n => n.1 ≠ p }
  | .forget p k => { s with watches := s.watches.filter fun w => w.1 ≠ p ∨ .only w.2 ≠ k }
  | .stop => { s with running := false }
  | .start => { s with running := true }
  | .expire => { s with watches := [] }

/-- The name of a node right below `parent`. -/
def childName? (parent path : String) : Option String :=
  let above := if parent = "/" then "/".toList else parent.toList ++ ['/']
  let name := path.toList.drop above.length
  if above.isPrefixOf path.toList ∧ name ≠ [] ∧ '/' ∉ name then some (String.ofList name)
  else none

def read (s : Server) (path : String) : Read → Answer
  | .presence => .ok (.presence (s.nodes.any fun n => n.1 == path))
  | .contents => match s.nodes.lookup path with
    | some d => .ok (.contents d)
    | none => .error (.server (-101) s!"no node {path}")
  | .listing =>
    if s.nodes.any fun n => n.1 == path then
      .ok (.listing (s.nodes.filterMap fun n => childName? path n.1))
    else .error (.server (-101) s!"no node {path}")

def answer (s : Server) (r : Request) : Answer × Server :=
  if !s.running then (.error .connectionLoss, s)
  else match r with
    | .register p op =>
      match s.read p op with
      | .ok x => (.ok x, { s with watches := addWatch p op.kind s.watches })
      | .error f => (.error f, s)
    | .remove p k =>
      if (p, k) ∈ s.watches then (.ok .removed, s.perform (.forget p (.only k)))
      else (.error (.noWatcher p (.only k)), s)

end Server

/-- The answers of a server that accepts everything. -/
def accept : Request → Answer
  | .register _ .presence => .ok (.presence true)
  | .register _ .contents => .ok (.contents "data")
  | .register _ .listing => .ok (.listing ["c1", "c2"])
  | .remove .. => .ok .removed

end NodeWatch.Scenario
