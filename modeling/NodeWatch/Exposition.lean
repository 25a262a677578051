import NodeWatch.Ledger
import NodeWatch.Text.Fingerprint
import NodeWatch.Text.Magnitude

/-! The text in which counters are reported to a monitoring system: families by name, and within
a family one line per combination of labels, in the order of the label values. Combinations are
told apart by their fingerprints; the labels shown are the first that came with one. -/

namespace NodeWatch.Exposition

structure Sample where
  family : Family
  labels : List String
  value : Nat
  deriving Repr

/-- Counters hold 64 bits and start again at zero. -/
def capacity : Nat :=
  UInt64.size

/-- Adds to the sample with the fingerprint of these labels, or starts one. -/
def increase (family : Family) (labels : List String) (n : Nat) : List Sample → List Sample
  | [] => [⟨family, labels, n % capacity⟩]
  | s :: ss =>
    if s.family = family ∧ Text.fingerprint s.labels = Text.fingerprint labels then
      { s with value := (s.value + n) % capacity } :: ss
    else s :: increase family labels n ss

def escape (value : String) : String :=
  String.ofList <| value.toList.flatMap fun c =>
    if c = '\\' then ['\\', '\\']
    else if c = '\n' then ['\\', 'n']
    else if c = '"' then ['\\', '"']
    else [c]

def labelPart (family : Family) (labels : List String) : String :=
  String.intercalate "," <|
    List.zipWith (fun n v => n ++ "=\"" ++ escape v ++ "\"") family.labelNames labels

def Sample.line (s : Sample) : String :=
  s.family.name ++ "\x7b" ++ labelPart s.family s.labels ++ "\x7d " ++ Text.magnitude s.value ++
    "\n"

def before (a b : Sample) : Bool :=
  compare a.labels b.labels != .gt

def familyText (family : Family) (samples : List Sample) : String :=
  match (samples.filter (·.family = family)).mergeSort before with
  | [] => ""
  | ss =>
    "# HELP " ++ family.name ++ " " ++ family.help ++ "\n# TYPE " ++ family.name ++ " counter\n" ++
      String.join (ss.map Sample.line)

def text (samples : List Sample) : String :=
  String.join (Family.byName.map fun f => familyText f samples)

/-- The answer to a registration of the counters: only the first one is accepted. -/
def registration (earlier : Nat) : Except String Unit :=
  if earlier = 0 then .ok () else .error "Duplicate metrics collector registration attempted"

end NodeWatch.Exposition
