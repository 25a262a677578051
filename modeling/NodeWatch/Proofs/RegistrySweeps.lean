import NodeWatch.Proofs.RegistryRoll

/-! Taking entries out of the registry: by a notification, by a removal, or by draining it. Each of
them is a filter of the snapshot, so nothing depends on the order in which they come except which
of them gets an entry that several would take. -/

namespace NodeWatch

open Session (Spot)

inductive Sweep where
  | fire (path : String) (type : EventType)
  | removal (path : String) (kind : Selector) (target : Target)
  | drain
  deriving DecidableEq

namespace Sweep

/-- What a sweep takes, if it is still there. -/
def claims : Sweep → Entry → Bool
  | fire path type, e => e.path == path && type.triggered.contains e.kind
  | removal path kind target, e =>
    e.path == path && (kind.selects e.kind && target.selects e.subscriber)
  | drain, _ => true

/-- Each of the sweeps gets the entries it claims that none before it has claimed. -/
def shares : List Sweep → List Entry → List (List Entry)
  | [], _ => []
  | w :: ws, es => es.filter w.claims :: shares ws (es.filter fun e => !w.claims e)

theorem filter_shares_perm (w : Sweep) (p : Entry → Bool) (es : List Entry) :
    (es.filter w.claims ++ (es.filter fun e => !w.claims e).filter p).Perm
      (es.filter fun e => w.claims e || p e) := by
  have hmine : (es.filter fun e => w.claims e || p e).filter w.claims = es.filter w.claims := by
    rw [List.filter_filter]
    exact List.filter_congr fun e _ => by cases w.claims e <;> simp
  have hrest : (es.filter fun e => w.claims e || p e).filter (fun e => !w.claims e) =
      (es.filter fun e => !w.claims e).filter p := by
    rw [List.filter_filter, List.filter_filter]
    exact List.filter_congr fun e _ => by cases w.claims e <;> simp
  rw [← hmine, ← hrest]
  exact List.filter_append_perm _ _

/-- Together the shares are what any of the sweeps claims, each entry as often as it is there. -/
theorem shares_perm (ws : List Sweep) (es : List Entry) :
    (shares ws es).flatten.Perm (es.filter fun e => ws.any (·.claims e)) := by
  induction ws generalizing es with
  | nil => simp [shares]
  | cons w ws ih =>
    rw [shares, List.flatten_cons]
    simp only [List.any_cons]
    exact ((ih _).append_left _).trans (filter_shares_perm w _ es)

end Sweep

namespace Registry

theorem keeps_snapshot (r : Registry) : r.Keeps (r.snapshot none) :=
  fun κ => (r.filter_snapshot κ).symm

theorem listed_snapshot (r : Registry) (p : Entry → Bool) :
    Roll.listed ((r.snapshot none).filter p) = (r.snapshot none).filter p := by
  rw [← Roll.filter_listed_comm, ← r.keeps_snapshot.snapshot_none]

theorem eq_of_snapshot {r s : Registry} (h : r.snapshot none = s.snapshot none) : r = s := by
  refine ext_holders fun path k => ?_
  have hat : r.entriesAt ⟨path, k⟩ = s.entriesAt ⟨path, k⟩ := by
    rw [← filter_snapshot, h, filter_snapshot]
  exact List.map_injective_iff.mpr (fun _ _ hst => (Entry.mk.inj hst).2.2) hat

/-- Taking out is a filter of the snapshot, and leaves the rest of it in its order. -/
theorem takeOut_eq_filter (r : Registry) (path : String) (p : Kind → Subscriber → Bool) :
    (r.takeOut path p).1 =
        (r.snapshot none).filter (fun e => e.path == path && p e.kind e.subscriber) ∧
      (r.takeOut path p).2.snapshot none =
        (r.snapshot none).filter fun e => !(e.path == path && p e.kind e.subscriber) := by
  constructor
  · rw [r.keeps_snapshot.takeOut_fst, Roll.strike, listed_snapshot]
  · rw [(r.keeps_snapshot.takeOut path p).snapshot_none, Roll.strike, listed_snapshot]

theorem snapshot_empty : empty.snapshot none = [] :=
  List.eq_nil_iff_forall_not_mem.mpr fun e he => by
    rw [mem_snapshot, mem_iff, holders_empty] at he
    cases he

def sweep (r : Registry) : Sweep → List Entry × Registry
  | .fire path type => r.takeTriggered path type
  | .removal path kind target => r.unregister path kind target
  | .drain => r.drain

/-- Sweeps one after another: what each of them takes, and the registry left behind. -/
def sweepAll (r : Registry) : List Sweep → List (List Entry) × Registry
  | [] => ([], r)
  | w :: ws => ((r.sweep w).1 :: ((r.sweep w).2.sweepAll ws).1, ((r.sweep w).2.sweepAll ws).2)

theorem sweep_eq_filter (r : Registry) (w : Sweep) :
    (r.sweep w).1 = (r.snapshot none).filter w.claims ∧
      (r.sweep w).2.snapshot none = (r.snapshot none).filter fun e => !w.claims e := by
  cases w with
  | fire path type => exact r.takeOut_eq_filter path _
  | removal path kind target => exact r.takeOut_eq_filter path _
  | drain =>
    refine ⟨(List.filter_eq_self.mpr fun _ _ => rfl).symm, ?_⟩
    rw [sweep, drain, snapshot_empty]
    exact (List.filter_eq_nil_iff.mpr fun _ _ => Bool.false_ne_true).symm

theorem sweepAll_eq_shares (r : Registry) (ws : List Sweep) :
    (r.sweepAll ws).1 = Sweep.shares ws (r.snapshot none) ∧
      (r.sweepAll ws).2.snapshot none =
        (r.snapshot none).filter fun e => !ws.any (·.claims e) := by
  induction ws generalizing r with
  | nil => exact ⟨rfl, (List.filter_eq_self.mpr fun _ _ => rfl).symm⟩
  | cons w ws ih =>
    obtain ⟨htaken, hleft⟩ := r.sweep_eq_filter w
    obtain ⟨hshares, hrest⟩ := ih (r.sweep w).2
    rw [hleft] at hshares hrest
    refine ⟨congrArg₂ List.cons htaken hshares, hrest.trans ?_⟩
    rw [List.filter_filter]
    exact List.filter_congr fun e _ => by simp [Bool.and_comm]

/-- Nothing is taken twice, and nothing is lost. -/
theorem sweepAll_perm (r : Registry) (ws : List Sweep) :
    ((r.sweepAll ws).1.flatten ++ (r.sweepAll ws).2.snapshot none).Perm (r.snapshot none) := by
  obtain ⟨hshares, hleft⟩ := r.sweepAll_eq_shares ws
  rw [hshares, hleft]
  exact ((Sweep.shares_perm ws _).append_right _).trans (List.filter_append_perm _ _)

theorem nodup_sweepAll (r : Registry) (ws : List Sweep) :
    ((r.sweepAll ws).1.flatten ++ (r.sweepAll ws).2.snapshot none).Nodup :=
  (r.sweepAll_perm ws).nodup_iff.mpr r.nodup_snapshot

theorem mem_sweepAll {r : Registry} {ws : List Sweep} {e : Entry} :
    e ∈ (r.sweepAll ws).1.flatten ↔ e ∈ r ∧ ∃ w ∈ ws, w.claims e = true := by
  rw [(r.sweepAll_eq_shares ws).1, (Sweep.shares_perm ws _).mem_iff, List.mem_filter, mem_snapshot,
    List.any_eq_true]

/-- The order of the sweeps shows neither in the registry left behind nor in what they take
together. -/
theorem sweepAll_of_perm (r : Registry) {ws ws' : List Sweep} (h : ws.Perm ws') :
    (r.sweepAll ws').2 = (r.sweepAll ws).2 ∧
      (r.sweepAll ws').1.flatten.Perm (r.sweepAll ws).1.flatten := by
  have hany : ∀ e : Entry, ws'.any (·.claims e) = ws.any (·.claims e) := fun e => h.symm.any_eq
  constructor
  · refine eq_of_snapshot ?_
    rw [(r.sweepAll_eq_shares ws').2, (r.sweepAll_eq_shares ws).2]
    simp only [hany]
  · rw [(r.sweepAll_eq_shares ws').1, (r.sweepAll_eq_shares ws).1]
    refine (Sweep.shares_perm ws' _).trans (.trans ?_ (Sweep.shares_perm ws _).symm)
    simp only [hany]
    exact .refl _

theorem sweep_pair (r : Registry) (v w : Sweep) :
    ((r.sweep v).2.sweep w).2 = ((r.sweep w).2.sweep v).2 ∧
      ((r.sweep v).1 ++ ((r.sweep v).2.sweep w).1).Nodup ∧
      ((r.sweep v).1 ++ ((r.sweep v).2.sweep w).1).Perm
        ((r.sweep w).1 ++ ((r.sweep w).2.sweep v).1) := by
  have htaken : ∀ v w : Sweep, (r.sweepAll [v, w]).1.flatten =
      (r.sweep v).1 ++ ((r.sweep v).2.sweep w).1 := fun v w => by
    simp only [sweepAll, List.flatten_cons, List.flatten_nil, List.append_nil]
  obtain ⟨hleft, hperm⟩ := r.sweepAll_of_perm (List.Perm.swap v w [])
  have hnd := (List.nodup_append.mp (r.nodup_sweepAll [v, w])).1
  rw [htaken] at hnd
  rw [htaken, htaken] at hperm
  exact ⟨hleft, hnd, hperm⟩

/-- A notification and a removal leave the same registry in either order, the same entries are
consumed, and none of them by both. The same holds of any sweeps in any order: each entry that one
of them claims is taken once, by the first that claims it, and the others stay in their order. -/
theorem sweeps_commute (r : Registry) :
    (∀ path type path' kind target,
      let fired := r.takeTriggered path type
      let removed := r.unregister path' kind target
      let removedLate := fired.2.unregister path' kind target
      let firedLate := removed.2.takeTriggered path type
      removedLate.2 = firedLate.2 ∧ removedLate.2.snapshot none = firedLate.2.snapshot none ∧
        fired.1.Disjoint removedLate.1 ∧ removed.1.Disjoint firedLate.1 ∧
        (fired.1 ++ removedLate.1).Nodup ∧
        (fired.1 ++ removedLate.1).Perm (removed.1 ++ firedLate.1)) ∧
    ∀ ws ws' : List Sweep, ws.Perm ws' →
      (r.sweepAll ws').2 = (r.sweepAll ws).2 ∧
        (r.sweepAll ws').1.flatten.Perm (r.sweepAll ws).1.flatten ∧
        (∀ e, e ∈ (r.sweepAll ws').1.flatten ↔ e ∈ r ∧ ∃ w ∈ ws, w.claims e = true) ∧
        (r.sweepAll ws').1 = Sweep.shares ws' (r.snapshot none) ∧
        (r.sweepAll ws').2.snapshot none = (r.snapshot none).filter (fun e => !ws.any (·.claims e)) ∧
        ((r.sweepAll ws').1.flatten ++ (r.sweepAll ws').2.snapshot none).Nodup ∧
        ((r.sweepAll ws').1.flatten ++ (r.sweepAll ws').2.snapshot none).Perm
          (r.snapshot none) := by
  constructor
  · intro path type path' kind target fired removed removedLate firedLate
    obtain ⟨hleft, hfirst, htaken⟩ := r.sweep_pair (.fire path type) (.removal path' kind target)
    obtain ⟨_, hsecond, _⟩ := r.sweep_pair (.removal path' kind target) (.fire path type)
    exact ⟨hleft, congrArg (snapshot · none) hleft, List.disjoint_of_nodup_append hfirst,
      List.disjoint_of_nodup_append hsecond, hfirst, htaken⟩
  · intro ws ws' h
    obtain ⟨hleft, htaken⟩ := r.sweepAll_of_perm h
    refine ⟨hleft, htaken, fun e => ?_, (r.sweepAll_eq_shares ws').1, ?_, r.nodup_sweepAll ws',
      r.sweepAll_perm ws'⟩
    · rw [htaken.mem_iff, mem_sweepAll]
    · rw [hleft, (r.sweepAll_eq_shares ws).2]

/-- A deletion fires both watches of a node before one subscriber removes its own, or the removal
comes first and leaves the other watch to the deletion. The watch on the second node stays. -/
theorem deletion_commutes_with_removal :
    let r := (((empty.insert "/a" .data (.watcher (.named "v"))).2.insert "/a" .children
      (.watcher (.named "w"))).2.insert "/b" .data (.watcher (.named "w"))).2
    let fire : Sweep := .fire "/a" .nodeDeleted
    let removal : Sweep := .removal "/a" .any (.one (.watcher (.named "w")))
    (r.sweepAll [fire, removal]).1 =
        [[⟨"/a", .data, .watcher (.named "v")⟩, ⟨"/a", .children, .watcher (.named "w")⟩], []] ∧
      (r.sweepAll [removal, fire]).1 =
        [[⟨"/a", .children, .watcher (.named "w")⟩], [⟨"/a", .data, .watcher (.named "v")⟩]] ∧
      [fire, removal].Perm [removal, fire] ∧
      (r.sweepAll [removal, fire]).2 = (r.sweepAll [fire, removal]).2 ∧
      (r.sweepAll [removal, fire]).1.flatten.Perm (r.sweepAll [fire, removal]).1.flatten := by
  intro r fire removal
  have hswap : [fire, removal].Perm [removal, fire] := .swap ..
  obtain ⟨hleft, htaken, _⟩ := r.sweeps_commute.2 _ _ hswap
  exact ⟨by decide +kernel, by decide +kernel, hswap, hleft, htaken⟩

end Registry

end NodeWatch
