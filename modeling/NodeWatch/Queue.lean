/-! Bounded queues between the operations of a client and its workers. A party that finds the
queue full lines up; places that become free go to the line, first come first served, and a party
that was admitted puts its item when it runs next. Nothing is dropped while the queue is open. -/

namespace NodeWatch

/-- Who may put items: an operation begun through the public interface, or a worker. -/
inductive Party where
  | caller (id : Nat)
  | remover
  | listener
  deriving DecidableEq, Repr

structure Queue (α : Type) where
  capacity : Nat
  items : List α
  /-- The parties waiting for a place, longest first. -/
  line : List Party
  /-- The parties that were given a place and have not used it yet. -/
  admitted : List Party
  isOpen : Bool
  deriving Repr

/-- What became of an offer. -/
inductive Offer (α : Type) where
  | refused
  | accepted (q : Queue α)
  | mustWait (q : Queue α)

namespace Queue

variable {α : Type}

/-- No queue has more places than this. -/
def maxCapacity : Nat :=
  2305843009213693951

/-- An empty queue of a capacity, or what the breakdown says if there is none of that capacity. -/
def ofCapacity (n : Nat) : Except String (Queue α) :=
  if n = 0 then .error "mpsc bounded channel requires buffer > 0"
  else if maxCapacity < n then
    .error s!"a semaphore may not have more than MAX_PERMITS permits ({maxCapacity})"
  else .ok ⟨n, [], [], [], true⟩

/-- The places that are neither taken nor promised. -/
def room (q : Queue α) : Nat :=
  q.capacity - (q.items.length + q.admitted.length)

/-- Whether a party has to go on waiting in line. -/
def stalls (q : Queue α) (p : Party) : Bool :=
  q.isOpen && q.line.contains p && !q.admitted.contains p

/-- A party offers an item. -/
def offer (q : Queue α) (p : Party) (x : α) : Offer α :=
  if !q.isOpen then .refused
  else if p ∈ q.admitted then
    .accepted { q with items := q.items ++ [x], admitted := q.admitted.erase p }
  else if p ∈ q.line then .mustWait q
  else if 0 < q.room then .accepted { q with items := q.items ++ [x] }
  else .mustWait { q with line := q.line ++ [p] }

/-- Gives one free place to the party at the head of the line. -/
def grant (q : Queue α) : Queue α :=
  match q.line with
  | [] => q
  | p :: ps => { q with line := ps, admitted := q.admitted ++ [p] }

/-- Takes the oldest item; its place goes to the line. -/
def take? (q : Queue α) : Option (α × Queue α) :=
  match q.items with
  | [] => none
  | x :: xs => some (x, grant { q with items := xs })

/-- A party gives up; a place it was given goes to the line. -/
def withdraw (q : Queue α) (p : Party) : Queue α :=
  if p ∈ q.admitted then grant { q with admitted := q.admitted.erase p }
  else { q with line := q.line.erase p }

/-- Nobody takes items any more: what is queued is lost, and offers are refused. -/
def close (q : Queue α) : Queue α :=
  { q with items := [], line := [], admitted := [], isOpen := false }

end Queue

end NodeWatch
