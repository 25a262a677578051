import NodeWatch.Proofs.Broadcast

/-! Every entry that is registered is consumed at most once, and its subscriber is told exactly once.
What was put on the queue of deliveries is what the dispatch worker has taken off it, followed by what
is there still. -/

namespace NodeWatch

/-- The entries whose subscribers these deliveries go to. -/
def addressees (ds : Multiset Delivery) : Multiset Entry :=
  ds.filterMap Delivery.entry?

namespace Client

variable {c : Client} {owed : Multiset Delivery}

theorem Balanced.named (h : c.Balanced owed) :
    c.consumed.map Consumption.entry = addressees c.announced + addressees owed := by
  rw [addressees, addressees, ← Multiset.filterMap_add, ← h.deliveries, Multiset.filterMap_map,
    ← Multiset.filterMap_eq_map]
  refine congrArg Multiset.ofList (List.filterMap_congr fun x hx => ?_)
  exact (Consumption.entry?_announcement (h.due x (Multiset.mem_coe.mpr hx))).symm

end Client

namespace Broadcast

open Engine (Action)

variable {w w' : Broadcast}

/-- A step of a run on which the client is open. A call that holds entries it has taken out is not
given up. -/
inductive Onward (w : Broadcast) : Broadcast → Prop
  | acted (a : Action) (t : Engine) (opened : w.engine.client.closed = false)
    (act : Engine.act a w.engine = some t)
    (kept : ∀ id o, a = .abandon id → (Party.caller id, o) ∈ w.engine.tasks → o.pending = 0) :
    Onward w (w.after a t)

/-- The announcements to subscribers that were put on the queue. -/
def announcements (w : Broadcast) : Multiset Delivery :=
  ↑((w.carried.map Prod.snd ++ w.engine.client.deliveries.items).filter Delivery.isWatched)

theorem Onward.forgone (h : Onward w w') : w'.forgone = w.forgone := by
  obtain ⟨a, t, _, act, kept⟩ := h
  have hnone : w.engine.forgone a = 0 := by
    cases a with
    | abandon id =>
      obtain ⟨o, hcall, _⟩ := Option.map_eq_some_iff.mp act
      rw [Engine.forgone, hcall]
      exact kept id o rfl (Engine.mem_of_task? (p := .caller id) hcall)
    | _ => rfl
  change w.engine.forgone a + w.forgone = w.forgone
  rw [hnone, zero_add]

theorem Onward.attended (h : Onward w w') (hw : w.Attended) : w'.Attended := by
  obtain ⟨a, t, opened, act, _⟩ := h
  exact hw.act opened act

theorem attended_run {settings : Settings} {feed : Option Nat} {s : Engine}
    (hb : Engine.build settings feed = .built s)
    (h : Relation.ReflTransGen Onward (opening s) w) : w.Attended ∧ w.forgone = 0 := by
  induction h with
  | refl =>
    have hopened : s.client.closed = false := (Carriage.intact_opening hb).opened
    exact ⟨(faithful_opening hb).attended hopened, rfl⟩
  | tail _ hstep ih => exact ⟨hstep.attended ih.1, hstep.forgone.trans ih.2⟩

/-- While the client is open, whatever goes on, every entry that was ever registered is live, or it was
consumed, for one cause. The announcements of what was consumed, each to the entry's own subscriber,
are those that were put on the queue, taken off it since or not, and those that an operation still
holds. -/
theorem entries_consumed_once {settings : Settings} {feed : Option Nat} {s : Engine}
    (hb : Engine.build settings feed = .built s)
    (h : Relation.ReflTransGen Onward (opening s) w) :
    w.engine.client.armed = w.engine.client.registry.live +
        (addressees w.announcements + addressees w.engine.pending) ∧
      w.engine.client.armed =
        w.engine.client.registry.live + w.engine.client.consumed.map Consumption.entry ∧
      w.engine.client.consumed.map Consumption.announcement =
        w.announcements + w.engine.pending ∧
      ∀ x ∈ w.engine.client.consumed, x.Due := by
  obtain ⟨hw, hnone⟩ := attended_run hb h
  have hbalanced := hw.covered.balanced
  rw [hnone, add_zero] at hbalanced
  have hqueued : w.engine.client.announced = w.announcements := hw.announced
  refine ⟨?_, hbalanced.entries, hqueued ▸ hbalanced.deliveries, hbalanced.due⟩
  rw [hbalanced.entries, hbalanced.named, hqueued]

/-- The broadcast after these actions, if each was possible on an open client. -/
def follow (as : List Action) (w : Broadcast) : Option Broadcast :=
  as.foldlM (fun w a =>
    if w.engine.client.closed then none else (Engine.act a w.engine).map (w.after a)) w

theorem onward_of_follow {as : List Action} (hk : ∀ id, Action.abandon id ∉ as)
    (h : follow as w = some w') : Relation.ReflTransGen Onward w w' := by
  refine run_of_foldlM (fun a ha w w' hw => ?_) h
  obtain ⟨ho, hw⟩ := Option.ite_none_left_eq_some.mp hw
  obtain ⟨t, ht, rfl⟩ := Option.map_eq_some_iff.mp hw
  refine .acted a t (by simpa using ho) ht ?_
  rintro id o rfl
  exact absurd ha (hk id)

/-- Of four watches one has fired and was told of, one was removed and is to be told of next, one was
taken out by a removal that has not come to tell of it, and one is live. -/
theorem each_consumed_once :
    ∃ s w, Engine.build {} none = .built s ∧ Relation.ReflTransGen Onward (opening s) w ∧
      w.carried.map Prod.snd =
        [.watched (.watcher (.named "a")) .data ⟨.nodeDataChanged, .syncConnected, some "/a"⟩] ∧
      w.engine.client.deliveries.items =
        [.removed ⟨"/b", .data, .watcher (.named "b")⟩ .syncConnected] ∧
      w.engine.pending = {.removed ⟨"/c", .data, .watcher (.named "c")⟩ .syncConnected} ∧
      w.engine.client.registry.live = {⟨"/d", .data, .watcher (.named "d")⟩} ∧
      w.engine.client.armed = {⟨"/d", .data, .watcher (.named "d")⟩,
        ⟨"/a", .data, .watcher (.named "a")⟩, ⟨"/b", .data, .watcher (.named "b")⟩,
        ⟨"/c", .data, .watcher (.named "c")⟩} := by
  have hrun : (follow [.begin (.arm ⟨.presence, "/a", .watcher (.named "a")⟩),
      .answer (.caller 0) 0 (.ok (.presence true)),
      .begin (.arm ⟨.presence, "/b", .watcher (.named "b")⟩),
      .answer (.caller 1) 0 (.ok (.presence true)),
      .begin (.arm ⟨.presence, "/c", .watcher (.named "c")⟩),
      .answer (.caller 2) 0 (.ok (.presence true)),
      .begin (.arm ⟨.presence, "/d", .watcher (.named "d")⟩),
      .answer (.caller 3) 0 (.ok (.presence true)),
      .begin (.notify ⟨.nodeDataChanged, .syncConnected, some "/a"⟩), .resume (.caller 4),
      .dispatch fun _ _ => {},
      .begin (.remove ⟨"/b", .only .data, .all, true, false⟩), .resume (.caller 5),
      .begin (.remove ⟨"/c", .only .data, .all, true, false⟩)] (opening Engine.fresh)).any (fun w =>
      decide (w.carried.map Prod.snd =
          [.watched (.watcher (.named "a")) .data ⟨.nodeDataChanged, .syncConnected, some "/a"⟩] ∧
        w.engine.client.deliveries.items =
          [.removed ⟨"/b", .data, .watcher (.named "b")⟩ .syncConnected] ∧
        w.engine.pending = {.removed ⟨"/c", .data, .watcher (.named "c")⟩ .syncConnected} ∧
        w.engine.client.registry.live = {⟨"/d", .data, .watcher (.named "d")⟩})) = true := by
    decide +kernel
  obtain ⟨w, hw, hc⟩ := (Option.any_eq_true _ _).mp hrun
  obtain ⟨hcarried, hitems, hpending, hlive⟩ := of_decide_eq_true hc
  have honward := onward_of_follow (by simp) hw
  obtain ⟨harmed, _⟩ := entries_consumed_once Engine.build_fresh honward
  refine ⟨_, w, Engine.build_fresh, honward, hcarried, hitems, hpending, hlive, ?_⟩
  rw [harmed, hlive, hpending, announcements, hcarried, hitems]
  rfl

end Broadcast

end NodeWatch
