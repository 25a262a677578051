import NodeWatch.Settings.Directory
import NodeWatch.Settings.Reading
import NodeWatch.Settings.Toml

/-! Where settings come from: the settings in force, then a file, then the environment, each laid
over those before it. -/

namespace NodeWatch.Settings

/-- The largest number that settings in force may hold when a layer is put over them. -/
def maxStored : Nat :=
  Number.integerLimit - 1

def storable (s : Settings) : Bool :=
  [s.resubmit.maxRetries, s.resubmit.timeoutMs, s.resubmit.baseDelayMs, s.resubmit.maxDelayMs,
    s.eventQueueSize, s.backgroundQueueSize].all fun n => n ≤ maxStored

/-- The settings as a document that holds every field. -/
def toDocument (s : Settings) : Document :=
  .table
    [("session", .table
      [("recovery", .text s.recovery.label),
        ("resubmit", .table
          [("max_retries", .int s.resubmit.maxRetries),
            ("timeout_ms", .int s.resubmit.timeoutMs),
            ("base_delay_ms", .int s.resubmit.baseDelayMs),
            ("max_delay_ms", .int s.resubmit.maxDelayMs)])]),
      ("dispatch", .table
        [("event_queue_size", .int s.eventQueueSize),
          ("background_queue_size", .int s.backgroundQueueSize)])]

/-- Variables by name. -/
abbrev Environment := List (String × String)

namespace Environment

/-- The variable that names the file to read. -/
def fileVariable : String :=
  "WATCH_CONFIG_PATH"

/-- The names of the variables that set something start with this, in any letter case. -/
def namePrefix : List Char :=
  "watch__".toList

def joinLevels : List Char → List Char
  | '_' :: '_' :: cs => '.' :: joinLevels cs
  | c :: cs => c :: joinLevels cs
  | [] => []

/-- The key that a variable sets: its name in lower case after the prefix, with `__` between
levels. -/
def key? (name : String) : Option String :=
  let cs := name.toList.map lowerChar
  if namePrefix.isPrefixOf cs then
    some (String.ofList (joinLevels (cs.drop namePrefix.length)))
  else none

/-- A value is read as a truth value, a whole number or a decimal number if it is one. -/
def leaf (value : String) : Document :=
  if value.toLower = "true" then .bool true
  else if value.toLower = "false" then .bool false
  else match Number.integer? value.toList with
    | some n => .int n
    | none => match Number.real? value.toList with
      | some x => .real x
      | none => .text value

/-- The keys and leaves that an environment sets; empty variables set nothing. -/
def fields (env : Environment) : Document.Fields :=
  env.foldl (fun fs v => match key? v.1 with
    | some k => if v.2.isEmpty then fs else Document.Fields.set fs k (leaf v.2)
    | none => fs) []

end Environment

/-- Lays a file and an environment over settings; fails when a chosen leaf cannot be converted. -/
def override? (base : Settings) (file : Document.Fields) (env : Environment) : Option Settings :=
  if base.storable then
    Reading.tolerant.settings?
      (((base.toDocument).layer file).layer env.fields)
  else none

/-- The fields of a file, if it is found and well formed. -/
def file? (dir : Directory) (path : String) : Option Document.Fields :=
  (dir.find? path).bind Toml.parse?

/-- The settings from the defaults, the file that the environment names, and the environment. -/
def load? (dir : Directory) (env : Environment) : Option Settings :=
  match env.lookup Environment.fileVariable with
  | some path => (file? dir path).bind fun fields => override? {} fields env
  | none => override? {} [] env

/-- Settings in force with a file and an environment laid over them. -/
def reload? (base : Settings) (dir : Directory) (path : String) (env : Environment) :
    Option Settings :=
  (file? dir path).bind fun fields => override? base fields env

end NodeWatch.Settings
