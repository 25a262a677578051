import NodeWatch.Engine

/-! How a client is put together: settings are chosen one after another, or replaced as a whole, and
the client is made from those that stand at the end. -/

namespace NodeWatch

structure Builder where
  settings : Settings := {}
  /-- The capacity of the session feed that the client is subscribed to. -/
  feed : Option Nat := none
  deriving DecidableEq, Repr

namespace Builder

inductive Call where
  | recoveryPolicy (policy : RecoveryPolicy)
  | eventQueueSize (size : Nat)
  /-- Discards what was set before, except the feed. -/
  | setConfig (settings : Settings)
  | sessionEvents (capacity : Nat)
  deriving DecidableEq, Repr

def call (b : Builder) : Call → Builder
  | .recoveryPolicy p => { b with settings := { b.settings with recovery := p } }
  | .eventQueueSize n => { b with settings := { b.settings with eventQueueSize := n } }
  | .setConfig s => { b with settings := s }
  | .sessionEvents n => { b with feed := some n }

def ofCalls (calls : List Call) : Builder :=
  calls.foldl call {}

def build (b : Builder) : Engine.Construction :=
  Engine.build b.settings b.feed

end Builder

end NodeWatch
