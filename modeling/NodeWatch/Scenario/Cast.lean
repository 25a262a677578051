import NodeWatch.Delivery

/-! The named parties of a scenario. The first letter of a name says how the party behaves and,
for a subscriber, in which role it is handed over. -/

namespace NodeWatch.Scenario.Cast

/-- The object behind a name that starts with `b` is handed over in two roles. -/
def object (name : String) : Identity :=
  .named (if name.startsWith "b" then (name.splitOn ":").headD name else name)

def subscriber (name : String) : Subscriber :=
  match name.toList with
  | 'd' :: _ => .default
  | 'f' :: _ | 'x' :: _ => .fallible (object name)
  | 'b' :: _ => if name.endsWith ":f" then .fallible (object name) else .watcher (object name)
  | _ => .watcher (object name)

/-- The name under which a subscriber is listed. -/
def title : Subscriber → String
  | .default => "d"
  | .watcher (.named n) => if n.startsWith "b" then n ++ ":w" else n
  | .fallible (.named n) => if n.startsWith "b" then n ++ ":f" else n
  | .watcher (.anonymous _) => "?watcher"
  | .fallible (.anonymous _) => "?fallible"

/-- The name under which a party records what it receives. -/
def recorder : Identity → String
  | .named n => n
  | .anonymous _ => "anon"

/-- What every party does that is called directly. -/
def common (held : Bool) (name : String) : Conduct :=
  match name.toList with
  | 'c' :: _ => { deeds := if held then [.close] else [] }
  | 'p' :: _ => { ending := .panics (some "callback bug") }
  | 'q' :: _ => { ending := .panics (some (name ++ " bug")) }
  | 'r' :: _ => { ending := .panics none }
  | _ => {}

/-- A listener may also change the list it is in. -/
def listening (held : Bool) (name : String) : Conduct :=
  match name.toList with
  | 's' :: _ => { deeds := if held then [.removeListener name] else [] }
  | 'a' :: _ => { deeds := if held then [.addListener ("l-" ++ name)] else [] }
  | _ => common held name

/-- A watcher that may report a fault. -/
def failing (name : String) : Conduct :=
  match name.toList with
  | 'x' :: _ => { ending := .fails (.fatal (name ++ " failed")) }
  | _ => {}

/-- What a call leads to; `held` says whether the user still has the client. -/
def conduct (held : Bool) : Call → Conduct
  | .watcher o _ => common held (recorder o)
  | .fallible o _ => failing (recorder o)
  | .listener n _ => listening held n
  | .callback n _ => common held n

end NodeWatch.Scenario.Cast
