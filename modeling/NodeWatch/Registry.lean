import NodeWatch.Subscriber
import Std.Data.ExtTreeMap

/-! The registry of live watches: for each path, the subscribers of each kind in the order in
which they registered. No subscriber is listed twice under a path and kind, and a path without
subscribers is not listed. -/

namespace NodeWatch

/-- The subscribers at one path, by kind. -/
structure Holders where
  data : List Subscriber
  children : List Subscriber
  deriving DecidableEq, Repr

namespace Holders

def none : Holders :=
  ⟨[], []⟩

def of (h : Holders) : Kind → List Subscriber
  | .data => h.data
  | .children => h.children

def put (h : Holders) (k : Kind) (l : List Subscriber) : Holders :=
  match k with
  | .data => { h with data := l }
  | .children => { h with children := l }

def keep (h : Holders) (p : Kind → Subscriber → Bool) : Holders :=
  ⟨h.data.filter (p .data), h.children.filter (p .children)⟩

def Distinct (h : Holders) : Prop :=
  h.data.Nodup ∧ h.children.Nodup

/-- The entries at `path` that satisfy `p`, `data` first, each kind in order of registration. -/
def entries (h : Holders) (path : String) (p : Kind → Subscriber → Bool) : List Entry :=
  (h.data.filter (p .data)).map (Entry.mk path .data) ++
    (h.children.filter (p .children)).map (Entry.mk path .children)

theorem distinct_none : none.Distinct :=
  ⟨List.nodup_nil, List.nodup_nil⟩

theorem distinct_keep {h : Holders} (hd : h.Distinct) (p : Kind → Subscriber → Bool) :
    (h.keep p).Distinct :=
  ⟨hd.1.filter _, hd.2.filter _⟩

theorem distinct_put {h : Holders} (hd : h.Distinct) (k : Kind) {l : List Subscriber}
    (hl : l.Nodup) : (h.put k l).Distinct := by
  cases k
  · exact ⟨hl, hd.2⟩
  · exact ⟨hd.1, hl⟩

theorem distinct_of {h : Holders} (hd : h.Distinct) (k : Kind) : (h.of k).Nodup := by
  cases k
  · exact hd.1
  · exact hd.2

end Holders

structure Registry where
  paths : Std.ExtTreeMap String Holders compare
  occupied : ∀ (p : String) (h : Holders), paths[p]? = some h → h ≠ Holders.none
  distinct : ∀ (p : String) (h : Holders), paths[p]? = some h → h.Distinct

namespace Registry

def empty : Registry where
  paths := ∅
  occupied := by simp
  distinct := by simp

/-- All subscribers at a path; none when the path is not listed. -/
def atPath (r : Registry) (path : String) : Holders :=
  (r.paths[path]?).getD Holders.none

/-- The subscribers of one kind at a path, oldest first. -/
def holders (r : Registry) (path : String) (k : Kind) : List Subscriber :=
  (r.atPath path).of k

theorem distinct_atPath (r : Registry) (path : String) : (r.atPath path).Distinct := by
  unfold Registry.atPath
  cases h : r.paths[path]? with
  | none => exact Holders.distinct_none
  | some s => exact r.distinct path s h

theorem nodup_holders (r : Registry) (path : String) (k : Kind) : (r.holders path k).Nodup :=
  Holders.distinct_of (r.distinct_atPath path) k

/-- Replaces the subscribers at a path, and delists the path when none are left. -/
def replace (r : Registry) (path : String) (h : Holders) (hd : h.Distinct) : Registry :=
  if he : h = Holders.none then
    { paths := r.paths.erase path
      occupied := fun p s hs => by
        rw [Std.ExtTreeMap.getElem?_erase] at hs
        split at hs
        · simp at hs
        · exact r.occupied p s hs
      distinct := fun p s hs => by
        rw [Std.ExtTreeMap.getElem?_erase] at hs
        split at hs
        · simp at hs
        · exact r.distinct p s hs }
  else
    { paths := r.paths.insert path h
      occupied := fun p s hs => by
        rw [Std.ExtTreeMap.getElem?_insert] at hs
        split at hs
        · cases hs
          exact he
        · exact r.occupied p s hs
      distinct := fun p s hs => by
        rw [Std.ExtTreeMap.getElem?_insert] at hs
        split at hs
        · cases hs
          exact hd
        · exact r.distinct p s hs }

theorem atPath_replace (r : Registry) (path : String) (h : Holders) (hd : h.Distinct) (p : String) :
    (r.replace path h hd).atPath p = if path = p then h else r.atPath p := by
  unfold replace Registry.atPath
  split
  · rename_i he
    rw [Std.ExtTreeMap.getElem?_erase]
    by_cases hp : path = p
    · simp [hp, he]
    · simp [hp]
  · rw [Std.ExtTreeMap.getElem?_insert]
    by_cases hp : path = p
    · simp [hp]
    · simp [hp]

/-- A registry is determined by the subscribers it lists. -/
theorem ext_holders {r s : Registry} (h : ∀ p k, r.holders p k = s.holders p k) : r = s := by
  have hat : ∀ p, r.atPath p = s.atPath p := fun p => by
    have hd := h p .data
    have hc := h p .children
    simp only [holders, Holders.of] at hd hc
    cases hr : r.atPath p
    cases hs : s.atPath p
    simp_all
  have hp : r.paths = s.paths := by
    apply Std.ExtTreeMap.ext_getElem?
    intro p
    have hp := hat p
    unfold Registry.atPath at hp
    cases hr : r.paths[p]? with
    | none =>
      cases hs : s.paths[p]? with
      | none => rfl
      | some b => exact absurd (by simpa [hr, hs] using hp.symm) (s.occupied p b hs)
    | some a =>
      cases hs : s.paths[p]? with
      | none => exact absurd (by simpa [hr, hs] using hp) (r.occupied p a hr)
      | some b => simpa [hr, hs] using hp
  cases r
  cases s
  simp_all

theorem nodup_append_singleton {l : List Subscriber} (hl : l.Nodup) {s : Subscriber}
    (hs : s ∉ l) : (l ++ [s]).Nodup := by
  rw [List.nodup_append]
  exact ⟨hl, by simp, fun a ha b hb => by simp at hb; exact fun h => hs (hb ▸ h ▸ ha)⟩

/-- Registers `s` behind the other subscribers of this path and kind. The flag says whether the
entry is new. -/
def insert (r : Registry) (path : String) (k : Kind) (s : Subscriber) : Bool × Registry :=
  if h : s ∈ r.holders path k then (false, r)
  else
    (true, r.replace path ((r.atPath path).put k (r.holders path k ++ [s]))
      (Holders.distinct_put (r.distinct_atPath path) k
        (nodup_append_singleton (r.nodup_holders path k) h)))

/-- Registers under a selector; only a concrete kind can be registered. -/
def register (r : Registry) (path : String) (kind : Selector) (s : Subscriber) :
    Except Fault (Bool × Registry) :=
  match kind with
  | .only k => .ok (r.insert path k s)
  | .any =>
    .error (.invalidArgument s!"cannot register a watch of kind {kind.label} on {path}")

/-- Takes the entries at `path` that satisfy `p` out of the registry. -/
def takeOut (r : Registry) (path : String) (p : Kind → Subscriber → Bool) :
    List Entry × Registry :=
  ((r.atPath path).entries path p,
    r.replace path ((r.atPath path).keep fun k s => !p k s)
      (Holders.distinct_keep (r.distinct_atPath path) _))

/-- Takes out what a removal selects. -/
def unregister (r : Registry) (path : String) (kind : Selector) (target : Target) :
    List Entry × Registry :=
  r.takeOut path fun k s => kind.selects k && target.selects s

/-- Takes out what a server notification of this type fires. -/
def takeTriggered (r : Registry) (path : String) (type : EventType) : List Entry × Registry :=
  r.takeOut path fun k _ => type.triggered.contains k

def contains (r : Registry) (path : String) (kind : Selector) (s : Subscriber) : Bool :=
  kind.kinds.any fun k => (r.holders path k).contains s

/-- The selected kinds under which the target has an entry at `path`. -/
def registeredKinds (r : Registry) (path : String) (kind : Selector) (target : Target) :
    List Kind :=
  kind.kinds.filter fun k => (r.holders path k).any target.selects

/-- The selected kinds under which `s` has an entry at `path`, each with whether `s` is alone. -/
def subscriberKinds (r : Registry) (path : String) (kind : Selector) (s : Subscriber) :
    List (Kind × Bool) :=
  (kind.kinds.filter fun k => (r.holders path k).contains s).map fun k =>
    (k, (r.holders path k).length == 1)

/-- The entries, by path, then by kind, then by age; only those of one path when one is given. -/
def snapshot (r : Registry) (path : Option String) : List Entry :=
  match path with
  | some p => (r.atPath p).entries p fun _ _ => true
  | none => r.paths.toList.flatMap fun x => x.2.entries x.1 fun _ _ => true

/-- Takes every entry out. -/
def drain (r : Registry) : List Entry × Registry :=
  (r.snapshot none, empty)

/-- How many entries there are at `path`. -/
def watchCount (r : Registry) (path : String) : Nat :=
  (r.holders path .data).length + (r.holders path .children).length

/-- How many paths have an entry. -/
def pathCount (r : Registry) : Nat :=
  r.paths.size

end Registry

end NodeWatch
