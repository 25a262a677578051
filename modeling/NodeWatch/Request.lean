import NodeWatch.Fault

/-! What the client asks of the server. The server knows watches by path and kind only. -/

namespace NodeWatch

/-- A read that leaves a watch behind. -/
inductive Read where
  | presence
  | contents
  | listing
  deriving DecidableEq, Repr

namespace Read

/-- The kind of watch the read arms. -/
def kind : Read → Kind
  | presence | contents => .data
  | listing => .children

/-- The read by which a watch of this kind is armed again. -/
def rearming : Kind → Read
  | .data => presence
  | .children => listing

theorem kind_rearming (k : Kind) : (rearming k).kind = k := by
  cases k <;> rfl

def label : Read → String
  | presence => "Exists"
  | contents => "GetData"
  | listing => "GetChildren"

def ofName? : String → Option Read
  | "exists" => some presence
  | "get_data" => some contents
  | "get_children" => some listing
  | _ => none

end Read

inductive Request where
  /-- Perform the read and leave a watch of its kind. -/
  | register (path : String) (read : Read)
  /-- Drop the server's watch of this kind. -/
  | remove (path : String) (kind : Kind)
  deriving DecidableEq, Repr

namespace Request

def path : Request → String
  | register p _ => p
  | remove p _ => p

def kind : Request → Kind
  | register _ r => r.kind
  | remove _ k => k

end Request

inductive Response where
  | presence (found : Bool)
  | contents (text : String)
  | listing (names : List String)
  | removed
  deriving DecidableEq, Repr

abbrev Answer := Except Fault Response

/-- What a part of an operation waits for, room in a queue apart. Times are in milliseconds. -/
inductive Wait where
  | answer (request : Request) (limit : Option Nat)
  | pause (length : Nat)
  deriving DecidableEq, Repr

end NodeWatch
