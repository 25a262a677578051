import NodeWatch.Proofs.BacklogStanding

/-! A backlog can always be worked off. Whatever has been handed over or is about to be, and whether
the worker sleeps, waits for the server or for room in the queue of deliveries, something brings it
nearer to the end. -/

namespace NodeWatch

open Removal (Stage)

/-- What a worker has before it with the removal in its hands. -/
def Worker.rank : Worker → Nat ×ₗ Nat ×ₗ Nat
  | idle | stopped => toLex (0, toLex (0, 0))
  | reporting .. => toLex (1, toLex (0, 0))
  | removing _ st _ => toLex (2, st.rank)
  | received _ => toLex (3, toLex (0, 0))

def Worker.drowsiness : Worker → Nat
  | removing _ _ false | reporting _ _ false => 1
  | _ => 0

namespace Engine

/-- The removals still to be accepted, and those still to be taken. -/
def load (s : Engine) : Nat :=
  2 * s.offering.length + s.client.removals.items.length

/-- What is left to be done before the backlog is worked off. -/
def rank (s : Engine) : Nat ×ₗ (Nat ×ₗ Nat ×ₗ Nat) ×ₗ Nat ×ₗ Nat :=
  toLex (s.load, toLex (s.worker.rank,
    toLex (s.worker.drowsiness + ExpiryRun.queueRank s.client,
      s.calls.length + s.client.deliveries.items.length)))

variable {s t : Engine}

theorem load_congr (hc : t.calls = s.calls) (hr : t.client.removals = s.client.removals) :
    t.load = s.load := by
  rw [load, load, offering, offering, hc, hr]

theorem rank_lt_of_load (h : t.load < s.load) : t.rank < s.rank :=
  Prod.Lex.toLex_lt_toLex.mpr (.inl h)

theorem rank_lt_of_worker (hl : t.load = s.load) (h : t.worker.rank < s.worker.rank) :
    t.rank < s.rank :=
  Prod.Lex.toLex_lt_toLex.mpr (.inr ⟨hl, Prod.Lex.toLex_lt_toLex.mpr (.inl h)⟩)

theorem rank_lt_of_waiting (hl : t.load = s.load) (hw : t.worker.rank = s.worker.rank)
    (h : t.worker.drowsiness + ExpiryRun.queueRank t.client <
      s.worker.drowsiness + ExpiryRun.queueRank s.client) : t.rank < s.rank :=
  Prod.Lex.toLex_lt_toLex.mpr (.inr ⟨hl, Prod.Lex.toLex_lt_toLex.mpr (.inr ⟨hw,
    Prod.Lex.toLex_lt_toLex.mpr (.inl h)⟩)⟩)

theorem rank_lt_of_rest (hl : t.load = s.load) (hw : t.worker = s.worker)
    (hq : ExpiryRun.queueRank t.client ≤ ExpiryRun.queueRank s.client)
    (h : t.calls.length + t.client.deliveries.items.length <
      s.calls.length + s.client.deliveries.items.length) : t.rank < s.rank := by
  rcases Nat.lt_or_eq_of_le hq with hlt | heq
  · refine rank_lt_of_waiting hl (by rw [hw]) ?_
    rw [hw]
    exact Nat.add_lt_add_left hlt _
  · refine Prod.Lex.toLex_lt_toLex.mpr (.inr ⟨hl, Prod.Lex.toLex_lt_toLex.mpr (.inr ⟨by rw [hw],
      Prod.Lex.toLex_lt_toLex.mpr (.inr ⟨?_, h⟩)⟩)⟩)
    rw [hw, heq]

end Engine

namespace Backlog

variable {reply : Transport} {s t : Engine} {w : Backlog}

/-- Nothing is left to be done. -/
structure Finished (w : Backlog) : Prop where
  calls : w.engine.calls = []
  items : w.engine.client.removals.items = []
  worker : w.engine.worker = .idle ∨ w.engine.worker = .stopped
  delivered : w.engine.client.deliveries.items = []

/-- The backlog gets shorter by some step. -/
def Descends (reply : Transport) (w : Backlog) : Prop :=
  ∃ w', Step reply w w' ∧ w'.ordered = w.ordered ∧ w'.engine.rank < w.engine.rank

theorem descends_of_worked {a : Engine.Action} (own : a = .turn ∨ a = .sleep ∨ a = .resume .remover)
    (hact : Engine.act a w.engine = some t) (hlt : t.rank < w.engine.rank) : Descends reply w :=
  ⟨_, .worked a t own hact, rfl, hlt⟩

theorem Standing.descends_of_delivery (h : Standing reply s w)
    (hd : w.engine.dispatching = true) (hitems : w.engine.client.deliveries.items ≠ []) :
    Descends reply w := by
  obtain ⟨t, d, q, hact, htake, ht, hq, hr⟩ := Engine.dispatch_of_items hd h.opened hitems
  have hcalls : t.calls = w.engine.calls := by rw [ht]
  have hworker : t.worker = w.engine.worker := by rw [ht]
  refine ⟨_, .dispatched _ t (by simp) hact, rfl, Engine.rank_lt_of_rest
    (Engine.load_congr hcalls hr) hworker (ExpiryRun.queueRank_take htake hq).1 ?_⟩
  rw [hq, hcalls, Queue.items_take htake, List.length_cons]
  exact Nat.lt_succ_self _

theorem descends_of_turn {x : Worker} {c : Client}
    (hturn : w.engine.worker.turn w.engine.orphaned w.engine.client = some (x, c))
    (hlt : ({ w.engine with worker := x, client := c } : Engine).rank < w.engine.rank) :
    Descends reply w := by
  have hact : Engine.act .turn w.engine = some { w.engine with worker := x, client := c } := by
    simp only [Engine.act, Engine.updateWorker, hturn, Option.map_some]
  exact descends_of_worked (.inl rfl) hact hlt

theorem descends_of_resume {x : Worker} {c : Client}
    (hresume : w.engine.worker.resume w.engine.client = some (x, c))
    (hlt : ({ w.engine with worker := x, client := c } : Engine).rank < w.engine.rank) :
    Descends reply w := by
  have hact : Engine.act (.resume .remover) w.engine =
      some { w.engine with worker := x, client := c } := by
    simp only [Engine.act, Engine.resume, Engine.updateWorker, hresume, Option.map_some]
  exact descends_of_worked (.inr (.inr rfl)) hact hlt

theorem Standing.descends_of_removing (h : Standing reply s w) {b : BackgroundRemoval} {st : Stage}
    (hw : w.engine.worker = .removing b st true) : Descends reply w := by
  have halive := h.alive_of_working (by simp [hw])
  have hsound := halive.sound b st true hw
  by_cases hdone : ∃ result, st = .done result
  · obtain ⟨result, rfl⟩ := hdone
    refine descends_of_resume (x := (Worker.conclude b result w.engine.client).1)
      (c := (Worker.conclude b result w.engine.client).2) (by simp only [hw, Worker.resume]) ?_
    refine Engine.rank_lt_of_worker (Engine.load_congr rfl ?_) ?_
    · exact (Client.Undisturbed.of_remarked
        (Worker.remarked_conclude b result w.engine.client)).removals
    · rw [hw]
      cases hb : b.callback <;> cases result <;>
        simp [Worker.conclude, hb, Worker.rank, Prod.Lex.toLex_lt_toLex]
  · have hundone : ∀ result, st ≠ .done result := not_exists.mp hdone
    rcases Removal.proceeds halive.calm hsound hundone with hfull | hgoes | hawaits
    · exact h.descends_of_delivery halive.dispatching hfull.2.2
    · obtain ⟨st', c, hm, hless⟩ := hgoes
      have hmove : (Operation.removal b.request st).move .resume .remover w.engine.client =
          some (.removal b.request st', c) := by simp [Operation.move, Operation.resume, hm]
      have hremovals := Operation.removals_move hmove fun _ _ he => by cases he
      have hresume : w.engine.worker.resume w.engine.client = some (.removing b st' true, c) := by
        rw [hw]
        cases st with
        | done result => exact absurd rfl (hundone result)
        | asking | confirming | checking | rearming => simp only [Worker.resume, hm, Option.map_some]
      refine descends_of_resume hresume ?_
      rcases hless with hlt | ⟨rfl, hline, hadmitted, hqueued⟩
      · refine Engine.rank_lt_of_worker (Engine.load_congr rfl hremovals) ?_
        rw [hw]
        exact Prod.Lex.toLex_lt_toLex.mpr (.inr ⟨rfl, hlt⟩)
      · refine Engine.rank_lt_of_waiting (Engine.load_congr rfl hremovals) (by rw [hw]) ?_
        simp [hw, Worker.drowsiness, ExpiryRun.queueRank, hline, hadmitted, hqueued]
    · obtain ⟨slot, hanswer⟩ := hawaits
      obtain ⟨st', c, hm, hlt⟩ := hanswer (reply (w.engine.upTo .remover slot))
      have hmove : (Operation.removal b.request st).move
          (.answer slot (reply (w.engine.upTo .remover slot))) .remover w.engine.client =
            some (.removal b.request st', c) := by simp [Operation.move, Operation.answer, hm]
      have hremovals := Operation.removals_move hmove fun _ _ he => by cases he
      have hact : Engine.act (.answer .remover slot (reply (w.engine.upTo .remover slot))) w.engine =
          some { w.engine with worker := .removing b st' true, client := c } := by
        simp only [Engine.act, Engine.answer, Engine.updateWorker, Worker.answer, hw, hm,
          Option.map_some]
      refine ⟨_, .answered slot _ hact, rfl, Engine.rank_lt_of_worker
        (Engine.load_congr rfl hremovals) ?_⟩
      rw [hw]
      exact Prod.Lex.toLex_lt_toLex.mpr (.inr ⟨rfl, hlt⟩)

theorem Standing.descends_of_reporting (h : Standing reply s w) {f : String} {e : ClientEvent}
    (hw : w.engine.worker = .reporting f e true) : Descends reply w := by
  have halive := h.alive_of_working (by simp [hw])
  rcases halive.calm.free with ⟨hline, hadmitted⟩ | ⟨hline, _, hitems⟩
  · have hstalls : w.engine.client.deliveries.stalls .remover = false := by
      rw [Bool.eq_false_iff, ne_eq, halive.calm.free.stalls halive.calm.isOpen, hline]
      simp
    rcases halive.calm.send (.completion f e) with ⟨_, q, hs, _⟩ | ⟨hwait, q, hs, _, rfl⟩
    · refine descends_of_resume (x := .idle)
        (c := { w.engine.client with deliveries := q }.note (.queued (.completion f e))) ?_ ?_
      · simp [hw, Worker.resume, hstalls, hs]
      · refine Engine.rank_lt_of_worker (Engine.load_congr rfl rfl) ?_
        rw [hw]
        exact Prod.Lex.toLex_lt_toLex.mpr (.inl Nat.one_pos)
    · refine descends_of_resume (x := .reporting f e true) (c := { w.engine.client with
        deliveries := { w.engine.client.deliveries with line := [.remover] } }) ?_ ?_
      · simp [hw, Worker.resume, hstalls, hs]
      · have hnone : w.engine.client.deliveries.admitted = [] := by
          rcases hwait with hwait | hwait
          · rw [hline] at hwait
            cases hwait
          · exact hwait.2
        refine Engine.rank_lt_of_waiting (Engine.load_congr rfl rfl) (by rw [hw]) ?_
        simp [hw, Worker.drowsiness, ExpiryRun.queueRank, hline, hnone]
  · exact h.descends_of_delivery halive.dispatching hitems

/-- A caller that was given a place, or finds one, hands its removal over. -/
theorem Standing.descends_of_offering (h : Standing reply s w) (halive : Alive reply w.engine)
    (hitems : w.engine.client.removals.items = []) (ho : w.engine.offering ≠ []) :
    Descends reply w := by
  obtain ⟨b, hb⟩ := List.exists_mem_of_ne_nil _ ho
  obtain ⟨⟨id, o⟩, hmem, ho⟩ := List.mem_filterMap.mp hb
  obtain rfl : o = .enrolment b .offering := by
    cases o with
    | enrolment b' st => cases st with
      | offering =>
        cases ho
        rfl
      | done => cases ho
    | arming | removal | notification | session => cases ho
  have henrols : w.engine.Enrols (.caller id) := ⟨id, b, rfl, Engine.call?_of_mem h.orderly hmem⟩
  obtain ⟨_, ⟨id, b, rfl, hcall⟩, hstalls, hoffer⟩ := halive.tidy.exists_welcome hitems henrols
  obtain ⟨q, hq⟩ := hoffer b
  have hmove : (Operation.enrolment b .offering).move .resume (.caller id) w.engine.client =
      some (.enrolment b (.done (.ok ())), { w.engine.client with removals := q }) := by
    simp [Operation.move, Operation.resume, Enrolment.resume, hstalls, hq]
  refine ⟨_, .enrolling id _ (Engine.act_of_call (m := .resume) hcall hmove), rfl,
    Engine.rank_lt_of_load ?_⟩
  obtain ⟨l₁, l₂, hsplit, hne⟩ := Engine.call_split h.orderly hcall
  have hcalls : (w.engine.setCall id (.enrolment b (.done (.ok ())))
      { w.engine.client with removals := q }).calls =
        l₁ ++ (id, .enrolment b (.done (.ok ()))) :: l₂ := by
    simp only [Engine.setCall, hsplit]
    exact Engine.map_split hne
  have hone : q.items.length = 1 := by
    rw [Queue.items_of_accepted hq, hitems]
    rfl
  have hafter : (w.engine.setCall id (.enrolment b (.done (.ok ())))
      { w.engine.client with removals := q }).client.removals.items.length = 1 := hone
  simp only [Engine.load, Engine.offering, hcalls, hsplit, hafter, hitems, List.filterMap_append,
    List.filterMap_cons, Operation.enrolling?, List.length_append, List.length_cons,
    List.length_nil]
  omega

theorem Standing.descends_of_collecting (h : Standing reply s w) {x : Nat × Operation}
    {xs : List (Nat × Operation)} (hc : w.engine.calls = x :: xs) (ho : w.engine.offering = []) :
    Descends reply w := by
  obtain ⟨id, o⟩ := x
  have hcall : w.engine.call? id = some o :=
    Engine.call?_of_mem h.orderly (hc ▸ List.mem_cons_self)
  obtain ⟨b, rfl | rfl⟩ := h.calls (id, o) (hc ▸ List.mem_cons_self)
  · simp [Engine.offering, hc, Operation.enrolling?] at ho
  · have hact : Engine.act (.collect id) w.engine =
        some { w.engine with calls := w.engine.calls.filter fun x => x.1 ≠ id } := by
      simp [Engine.act, Engine.collect, Engine.outcome?, hcall, Operation.outcome?]
    have hfewer : (w.engine.calls.filter fun x => x.1 ≠ id).length < w.engine.calls.length := by
      rw [hc, List.filter_cons_of_neg (by simp)]
      exact Nat.lt_succ_of_le (List.length_filter_le _ _)
    have hnone : (w.engine.calls.filter fun x => x.1 ≠ id).filterMap (fun x => x.2.enrolling?) =
        [] := by
      refine List.filterMap_eq_nil_iff.mpr fun x hx => ?_
      exact List.filterMap_eq_nil_iff.mp ho x (List.mem_of_mem_filter hx)
    refine ⟨_, .collected id _ hact, rfl, Engine.rank_lt_of_rest ?_ rfl le_rfl
      (Nat.add_lt_add_right hfewer _)⟩
    simp only [Engine.load, ho]
    rw [Engine.offering, hnone]

theorem Standing.descends_of_sleeping (h : Standing reply s w) {x : Worker}
    (hturn : ∀ orphaned c, c.closed = false → w.engine.worker.turn orphaned c = some (x, c))
    (hrank : x.rank = w.engine.worker.rank)
    (hdrowsy : x.drowsiness < w.engine.worker.drowsiness) : Descends reply w :=
  descends_of_turn (hturn _ _ h.opened)
    (Engine.rank_lt_of_waiting rfl hrank (Nat.add_lt_add_right hdrowsy _))

/-- A worker that is idle takes a removal, if only a caller gets to hand it over. -/
theorem Standing.descends_of_idle (h : Standing reply s w) (hw : w.engine.worker = .idle)
    (hf : ¬w.Finished) : Descends reply w := by
  have halive := h.alive_of_working (by simp [hw])
  cases ht : w.engine.client.removals.take? with
  | some x =>
    obtain ⟨b, q⟩ := x
    refine descends_of_turn (x := .received b) (c := { w.engine.client with removals := q }) ?_
      (Engine.rank_lt_of_load ?_)
    · simp [hw, Worker.turn, h.opened, ht]
    · simp only [Engine.load, Queue.items_take ht, List.length_cons]
      exact Nat.lt_succ_self _
  | none =>
    have hitems := Queue.items_of_take_none ht
    by_cases ho : w.engine.offering = []
    · cases hc : w.engine.calls with
      | nil =>
        exact h.descends_of_delivery halive.dispatching fun hd => hf ⟨hc, hitems, .inl hw, hd⟩
      | cons x xs => exact h.descends_of_collecting hc ho
    · exact h.descends_of_offering halive hitems ho

/-- As long as anything is left to be done, something gets done. -/
theorem Standing.descends (h : Standing reply s w) (hf : ¬w.Finished) : Descends reply w := by
  rcases h.stage with halive | hover
  · cases hw : w.engine.worker with
    | idle => exact h.descends_of_idle hw hf
    | received b =>
      refine descends_of_turn (x := .removing b (Removal.start b.request w.engine.client).1 true)
        (c := (Removal.start b.request w.engine.client).2) ?_
        (Engine.rank_lt_of_worker (Engine.load_congr rfl
          (Removal.undisturbed_start b.request w.engine.client).removals) ?_)
      · simp [hw, Worker.turn, h.opened]
      · rw [hw]
        exact Prod.Lex.toLex_lt_toLex.mpr (.inl (Nat.lt_succ_self 2))
    | removing b st awake =>
      cases awake with
      | true => exact h.descends_of_removing hw
      | false =>
        refine h.descends_of_sleeping (x := .removing b st true) (fun _ c hc => ?_) ?_ ?_
        · simp [hw, Worker.turn, hc]
        · rw [hw]
          rfl
        · rw [hw]
          exact Nat.one_pos
    | reporting f e awake =>
      cases awake with
      | true => exact h.descends_of_reporting hw
      | false =>
        refine h.descends_of_sleeping (x := .reporting f e true) (fun _ c hc => ?_) ?_ ?_
        · simp [hw, Worker.turn, hc]
        · rw [hw]
          rfl
        · rw [hw]
          exact Nat.one_pos
    | stopped =>
      have hworking := halive.working
      rw [hw] at hworking
      cases hworking
  · have hleft : w.engine.client.deliveries.items ≠ [] := fun hd =>
      hf ⟨hover.calls, hover.items, .inr hover.worker, hd⟩
    exact h.descends_of_delivery (h.dispatching.resolve_right hleft) hleft

/-- The backlog can always be worked off. -/
theorem Standing.completes (h : Standing reply s w) :
    ∃ v, Relation.ReflTransGen (Step reply) w v ∧ v.Finished ∧ v.ordered = w.ordered := by
  induction hr : w.engine.rank using WellFoundedLT.induction generalizing w with
  | _ n ih =>
    by_cases hf : w.Finished
    · exact ⟨w, .refl, hf, rfl⟩
    · obtain ⟨w', hstep, hordered, hlt⟩ := h.descends hf
      obtain ⟨v, hrun, hv, hsame⟩ := ih _ (hr ▸ hlt) (h.step hstep) rfl
      exact ⟨v, hrun.head hstep, hv, hsame.trans hordered⟩

end Backlog

end NodeWatch
