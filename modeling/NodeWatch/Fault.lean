import NodeWatch.Kind
import NodeWatch.Path
import NodeWatch.Text.Duration
import NodeWatch.Text.Quoted

/-! Why an operation failed. Each fault is a cause; its message, its diagnostic text and the
result code sent to callbacks are functions of it. -/

namespace NodeWatch

inductive Fault where
  /-- No registration, here or on the server, matched a removal. -/
  | noWatcher (path : String) (kind : Selector)
  | invalidArgument (text : String)
  | connectionLoss
  | sessionExpired
  | timeout (limit : Duration)
  | closed
  | server (code : Int) (text : String)
  | settings (text : String)
  | fatal (text : String)
  deriving DecidableEq, Repr

/-- The outcome carried by the completion of a background removal. -/
inductive ResultCode where
  | ok
  | noWatcher
  | invalidArgument
  | connectionLoss
  | sessionExpired
  | operationTimeout
  | closed
  | systemError
  deriving DecidableEq, Repr

def ResultCode.label : ResultCode → String
  | ok => "Ok"
  | noWatcher => "NoWatcher"
  | invalidArgument => "InvalidArgument"
  | connectionLoss => "ConnectionLoss"
  | sessionExpired => "SessionExpired"
  | operationTimeout => "OperationTimeout"
  | closed => "Closed"
  | systemError => "SystemError"

namespace Fault

def message : Fault → String
  | noWatcher path kind => s!"No {kind.label} watcher registered on {path}"
  | invalidArgument text => s!"Invalid argument: {text}"
  | connectionLoss => "Connection lost"
  | sessionExpired => "Session expired"
  | timeout limit => s!"Request timed out after {limit.text}"
  | closed => "Client is closed"
  | server code text => s!"Server error {code}: {text}"
  | settings text => text
  | fatal text => s!"Fatal error: {text}"

/-- The structure of the fault, as written to the log. -/
def diagnostic : Fault → String
  | noWatcher path kind =>
    "Watch(NoWatcher \x7b path: " ++ Text.quoteString path ++ ", kind: " ++
      kind.constructorName ++ " \x7d)"
  | invalidArgument text => "Watch(InvalidArgument(" ++ Text.quoteString text ++ "))"
  | connectionLoss => "Transport(ConnectionLoss)"
  | sessionExpired => "Transport(SessionExpired)"
  | timeout limit => "Transport(Timeout(" ++ limit.text ++ "))"
  | closed => "Transport(Closed)"
  | server code text =>
    "Transport(ServerError \x7b code: " ++ toString code ++ ", message: " ++
      Text.quoteString text ++ " \x7d)"
  | settings text => "Config(" ++ text ++ ")"
  | fatal text => "Fatal(" ++ Text.quoteString text ++ ")"

def isNoWatcher : Fault → Bool
  | noWatcher .. => true
  | _ => false

def isInvalidArgument : Fault → Bool
  | invalidArgument _ => true
  | _ => false

/-- Faults of the connection, the session or the server. -/
def isTransport : Fault → Bool
  | connectionLoss | sessionExpired | timeout _ | closed | server .. => true
  | _ => false

def code : Fault → ResultCode
  | noWatcher .. => .noWatcher
  | invalidArgument _ => .invalidArgument
  | connectionLoss => .connectionLoss
  | sessionExpired => .sessionExpired
  | timeout _ => .operationTimeout
  | closed => .closed
  | server .. | settings _ | fatal _ => .systemError

end Fault

def ResultCode.ofResult {α : Type} : Except Fault α → ResultCode
  | .ok _ => .ok
  | .error f => f.code

namespace Path

def Fault.message (path : String) : Path.Fault → String
  | empty => "path must not be empty"
  | notAbsolute => s!"path must start with / character: {path}"
  | trailingSlash => s!"path must not end with / character: {path}"
  | emptySegment => s!"empty node name specified in {path}"
  | relativeSegment => s!"relative paths not allowed in {path}"
  | forbiddenChar c => s!"invalid character {Text.quoteChar c} in {path}"

/-- Accepts exactly the valid paths. -/
def validate (path : String) : Except NodeWatch.Fault Unit :=
  match fault? path with
  | none => .ok ()
  | some f => .error (.invalidArgument (f.message path))

def isValid (path : String) : Bool :=
  (fault? path).isNone

end Path

end NodeWatch
