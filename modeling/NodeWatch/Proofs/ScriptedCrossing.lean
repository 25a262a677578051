import Mathlib.Data.Finset.Basic
import Mathlib.Data.Finset.Filter
import NodeWatch.Proofs.Crossing

/-! Runs of a client and a server given by a script. The server's watches are a finite set, so that
a run can be computed; a script that can be carried out is a run of the two. -/

namespace NodeWatch

open Session (Spot)

structure ScriptedCrossing where
  engine : Engine
  watched : Finset Spot
  underway : Underway
  notices : Multiset WatchedEvent

/-- What is called for next: an order, an action of the client's own, the server's handling of a
request, the arrival of its answer, an event at the server, or the arrival of its news. -/
inductive Cue where
  | order (o : Order)
  | go (a : Engine.Action)
  | handle (p : Party) (slot : Nat)
  | deliver (p : Party) (slot : Nat)
  | fire (e : WatchedEvent)
  | notify (e : WatchedEvent)

def Cue.Admitted (admits : Order → Prop) : Cue → Prop
  | .order o => admits o
  | .fire e => admits (.notify e)
  | .go _ | .handle .. | .deliver .. | .notify _ => True

namespace ScriptedCrossing

def crossing (w : ScriptedCrossing) : Crossing :=
  ⟨w.engine, w.watched, w.underway, w.notices⟩

/-- A client and a server that watch the same, with nothing on its way. -/
def opening (s : Engine) : ScriptedCrossing :=
  ⟨s, (Session.spots (s.client.registry.snapshot none)).toFinset, fun _ _ => none, 0⟩

/-- How a server that never fails answers, and what it watches then. -/
def respond (S : Finset Spot) : Request → Answer × Finset Spot
  | .register path read => (.ok (.presence true), insert ⟨path, read.kind⟩ S)
  | .remove path k =>
    if ⟨path, k⟩ ∈ S then (.ok .removed, S.erase ⟨path, k⟩)
    else (.error (.noWatcher path (.only k)), S)

/-- The watches that an event at the server leaves. -/
def spare (S : Finset Spot) (e : WatchedEvent) : Finset Spot :=
  S.filter fun κ => ¬(e.path = some κ.path ∧ κ.kind ∈ e.type.triggered)

def act (w : ScriptedCrossing) (a : Engine.Action) : Option ScriptedCrossing :=
  if w.engine.client.closed then none
  else (Engine.act a w.engine).map fun t => { w with engine := t }

def follow (w : ScriptedCrossing) : Cue → Option ScriptedCrossing
  | .order o => if o.isDirect then w.act (.begin o) else none
  | .go a => if a.isOwn then w.act a else none
  | .handle p slot =>
    match (w.engine.waits p)[slot]?, w.underway p slot with
    | some (some (.answer q _)), none =>
      some { w with
        watched := (respond w.watched q).2
        underway := w.underway.put p slot (some (respond w.watched q).1) }
    | _, _ => none
  | .deliver p slot =>
    match w.underway p slot with
    | some x =>
      ({ w with underway := w.underway.put p slot none } : ScriptedCrossing).act (.answer p slot x)
    | none => none
  | .fire e =>
    some { w with watched := spare w.watched e, notices := e ::ₘ w.notices }
  | .notify e =>
    if e ∈ w.notices then
      ({ w with notices := w.notices.erase e } : ScriptedCrossing).act (.begin (.notify e))
    else none

def play (w : ScriptedCrossing) (ms : List Cue) : Option ScriptedCrossing :=
  ms.foldlM follow w

variable {w v : ScriptedCrossing} {admits : Order → Prop}

theorem serves_respond (S : Finset Spot) (q : Request) :
    Serves (S : Set Spot) q (respond S q).1 ((respond S q).2 : Set Spot) ∧
      ∀ f, (respond S q).1 = .error f → f.isNoWatcher = true := by
  cases q with
  | register path read =>
    refine ⟨?_, fun f hf => by cases hf⟩
    rw [respond, Finset.coe_insert]
    exact .registered path read _
  | remove path k =>
    by_cases hm : ⟨path, k⟩ ∈ S
    · have hr : respond S (.remove path k) = (.ok .removed, S.erase ⟨path, k⟩) := if_pos hm
      rw [hr]
      refine ⟨?_, fun f hf => by cases hf⟩
      rw [Finset.coe_erase]
      exact .dropped path k _ (Finset.mem_coe.mpr hm)
    · have hr : respond S (.remove path k) = (.error (.noWatcher path (.only k)), S) := if_neg hm
      rw [hr]
      refine ⟨.unknown path k _ (fun h => hm (Finset.mem_coe.mp h)) rfl, fun f hf => ?_⟩
      cases hf
      rfl

theorem coe_spare (S : Finset Spot) (e : WatchedEvent) : (spare S e : Set Spot) = e.leaves S := by
  ext κ
  simp [spare, mem_leaves]

theorem act_eq_some {a : Engine.Action} (h : w.act a = some v) :
    w.engine.client.closed = false ∧
      ∃ t, Engine.act a w.engine = some t ∧ v = { w with engine := t } := by
  simp only [act] at h
  split at h
  · cases h
  · rename_i ho
    obtain ⟨t, ht, rfl⟩ := Option.map_eq_some_iff.mp h
    exact ⟨by simpa using ho, t, ht, rfl⟩

theorem step_of_follow {m : Cue} (hm : Cue.Admitted admits m) (h : w.follow m = some v) :
    Crossing.Step admits w.crossing v.crossing := by
  cases m with
  | order o =>
    simp only [follow] at h
    split at h
    · rename_i hd
      obtain ⟨ho, t, ht, rfl⟩ := act_eq_some h
      exact .ordered o t hd hm ho ht
    · cases h
  | go a =>
    simp only [follow] at h
    split at h
    · rename_i hown
      obtain ⟨ho, t, ht, rfl⟩ := act_eq_some h
      exact .went a t hown ho ht
    · cases h
  | handle p slot =>
    simp only [follow] at h
    split at h
    · rename_i q limit hw hu
      cases h
      obtain ⟨hs, hf⟩ := serves_respond w.watched q
      exact .handled p slot q limit _ _ hw hu hs hf
    · cases h
  | deliver p slot =>
    simp only [follow] at h
    split at h
    · rename_i x hx
      obtain ⟨ho, t, ht, rfl⟩ := act_eq_some h
      exact .answered p slot x t hx ho ht
    · cases h
  | fire e =>
    cases h
    change Crossing.Step admits w.crossing
      { w.crossing with watched := spare w.watched e, notices := e ::ₘ w.notices }
    rw [coe_spare]
    exact .fired e hm
  | notify e =>
    simp only [follow] at h
    split at h
    · rename_i hn
      obtain ⟨ho, t, ht, rfl⟩ := act_eq_some h
      exact .notified e _ t (Multiset.cons_erase hn).symm ho ht
    · cases h

theorem run_of_play {ms : List Cue} (hm : ∀ m ∈ ms, Cue.Admitted admits m)
    (h : w.play ms = some v) :
    Relation.ReflTransGen (Crossing.Step admits) w.crossing v.crossing := by
  have hrun : Relation.ReflTransGen
      (fun w v : ScriptedCrossing => Crossing.Step admits w.crossing v.crossing) w v :=
    run_of_foldlM (fun m hmem _ _ hv => step_of_follow (hm m hmem) hv) h
  exact hrun.lift crossing fun _ _ hstep => hstep

theorem watched_opening (s : Engine) :
    (opening s).crossing.watched = s.client.registry.spots := by
  ext κ
  simp [crossing, opening, Registry.mem_spots_snapshot]

section

variable {settings : Settings} {feed : Option Nat} {s : Engine}

theorem settled_opening (h : s.AtRest) : (opening s).crossing.Settled :=
  ⟨h, fun _ _ => rfl, rfl⟩

theorem settled_of_play (hs : Engine.Reachable settings feed s) (hrest : s.AtRest)
    {ms : List Cue} (h : (opening s).play ms = some v) (hr : v.engine.AtRest)
    (hn : v.notices = 0) : v.crossing.Settled := by
  have hsound := (settled_opening hrest).sound hs.orderly
  have hsteps : Relation.ReflTransGen (Crossing.Step fun _ => True) _ _ :=
    run_of_play (fun m _ => by cases m <;> exact trivial) h
  exact (Crossing.sound_run hsound hsteps).settled hr hn

theorem reachable_of_play (hs : Engine.Reachable settings feed s) {ms : List Cue}
    (h : (opening s).play ms = some v) : Engine.Reachable settings feed v.engine := by
  have hsteps : Relation.ReflTransGen (Crossing.Step fun _ => True) _ _ :=
    run_of_play (fun m _ => by cases m <;> exact trivial) h
  exact Crossing.reachable_run hs hsteps

end

end ScriptedCrossing

end NodeWatch
