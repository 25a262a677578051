import NodeWatch.Proofs.DeliveryCarriage

/-! The listeners while user code changes them. Listeners are added and removed from outside, and by
the very calls that a delivery makes of them; a delivery calls those that it found when it began, and
everything done in the meantime is there for the next one. -/

namespace NodeWatch

open Client (invocations invocations_append)

namespace Deed

/-- The additions of a history that no later removal takes back. -/
def standing : List Deed → List String
  | [] => []
  | addListener n :: ds => if removeListener n ∈ ds then standing ds else n :: standing ds
  | close :: ds | removeListener _ :: ds => standing ds

theorem mem_standing {ds : List Deed} {n : String} :
    n ∈ standing ds ↔
      ∃ before after, ds = before ++ addListener n :: after ∧ removeListener n ∉ after := by
  induction ds with
  | nil => simp [standing]
  | cons d ds ih =>
    -- Whatever comes first is an addition that stands, or the search goes on behind it.
    have hsplit : (∃ before after, d :: ds = before ++ addListener n :: after ∧
        removeListener n ∉ after) ↔
          (d = addListener n ∧ removeListener n ∉ ds) ∨ n ∈ standing ds := by
      rw [ih]
      constructor
      · rintro ⟨before, after, he, hafter⟩
        cases before with
        | nil =>
          obtain ⟨rfl, rfl⟩ := List.cons.inj he
          exact .inl ⟨rfl, hafter⟩
        | cons b before => exact .inr ⟨before, after, (List.cons.inj he).2, hafter⟩
      · rintro (⟨rfl, hds⟩ | ⟨before, after, rfl, hafter⟩)
        · exact ⟨[], ds, rfl, hds⟩
        · exact ⟨d :: before, after, rfl, hafter⟩
    rw [hsplit]
    cases d with
    | close | removeListener m => simp [standing]
    | addListener m =>
      rw [standing]
      split
      · rename_i hm
        refine ⟨.inr, fun h => h.resolve_left ?_⟩
        rintro ⟨he, hds⟩
        exact hds (addListener.inj he ▸ hm)
      · rename_i hm
        rw [List.mem_cons, addListener.injEq]
        constructor
        · rintro (rfl | h)
          · exact .inl ⟨rfl, hm⟩
          · exact .inr h
        · rintro (⟨rfl, _⟩ | h)
          · exact .inl rfl
          · exact .inr h

end Deed

/-- The event that a delivery has for the listeners. -/
def Delivery.broadcast? : Delivery → Option ClientEvent
  | watched .default k e => some (.watched e (some k))
  | state e => some (.watched e none)
  | watched (.watcher _) _ _ | watched (.fallible _) _ _ | completion .. => none

theorem Delivery.calls_of_broadcast {d : Delivery} {e : ClientEvent} (h : d.broadcast? = some e)
    (listeners : List String) : d.calls listeners = listeners.map fun l => .listener l e := by
  cases d with
  | watched s k e =>
    cases s with
    | default =>
      obtain rfl := Option.some.inj h
      rfl
    | watcher | fallible => cases h
  | state e =>
    obtain rfl := Option.some.inj h
    rfl
  | completion => cases h

/-! ### What user code does -/

namespace Client

variable {c c' : Client}

/-- What user code changes: the listeners, and whether the client is closed. -/
def bearing (c : Client) : List String × Bool :=
  (c.listeners, c.closed)

theorem bearing_apply (h : c'.bearing = c.bearing) (d : Deed) :
    (c'.apply d).bearing = (c.apply d).bearing := by
  obtain ⟨hl, hc⟩ := Prod.mk.inj h
  cases d <;> simp [bearing, apply, close, addListener, removeListener, hl, hc]

theorem bearing_foldl (h : c'.bearing = c.bearing) (ds : List Deed) :
    (ds.foldl apply c').bearing = (ds.foldl apply c).bearing := by
  induction ds generalizing c c' with
  | nil => exact h
  | cons d ds ih => exact ih (bearing_apply h d)

theorem listeners_foldl (ds : List Deed) (c : Client) :
    (ds.foldl apply c).listeners =
      c.listeners.filter (fun n => Deed.removeListener n ∉ ds) ++ Deed.standing ds := by
  induction ds generalizing c with
  | nil => simp [Deed.standing]
  | cons d ds ih =>
    rw [List.foldl_cons, ih]
    cases d with
    | close => simp [apply, close, Deed.standing]
    | addListener m =>
      by_cases hm : Deed.removeListener m ∈ ds
      · simp [apply, addListener, Deed.standing, hm]
      · simp [apply, addListener, Deed.standing, hm]
    | removeListener m =>
      simp only [apply, removeListener, Deed.standing, List.filter_filter]
      refine congrArg (· ++ _) (List.filter_congr fun n _ => ?_)
      by_cases hn : n = m <;> simp [hn]

theorem closed_foldl (ds : List Deed) (c : Client) :
    (ds.foldl apply c).closed = true ↔ c.closed = true ∨ Deed.close ∈ ds := by
  induction ds generalizing c with
  | nil => simp
  | cons d ds ih =>
    rw [List.foldl_cons, ih]
    cases d <;> simp [apply, close, addListener, removeListener]

/-- What is done in the course of these calls, in this order. -/
def doings (conduct : Client → Call → Conduct) : List Call → Client → List Deed
  | [], _ => []
  | x :: xs, c =>
    (conduct (c.note (.called x)) x).deeds ++ doings conduct xs (c.call conduct x)

theorem bearing_call (conduct : Client → Call → Conduct) (c : Client) (x : Call) :
    (c.call conduct x).bearing =
      ((conduct (c.note (.called x)) x).deeds.foldl apply c).bearing := by
  have hsame : (c.note (.called x)).bearing = c.bearing := rfl
  have hnoted := bearing_foldl hsame
    (conduct (c.note (.called x)) x).deeds
  unfold call
  dsimp only
  split
  · exact hnoted
  · exact hnoted

/-- However the calls end, everything done in their course is done. -/
theorem bearing_calls (conduct : Client → Call → Conduct) (xs : List Call) (c : Client) :
    (xs.foldl (call conduct) c).bearing = ((doings conduct xs c).foldl apply c).bearing := by
  induction xs generalizing c with
  | nil => rfl
  | cons x xs ih =>
    rw [List.foldl_cons, ih, doings, List.foldl_append]
    exact bearing_foldl (bearing_call conduct c x) _

theorem bearing_deliver (conduct : Client → Call → Conduct) (c : Client) (d : Delivery) :
    (c.deliver conduct d).bearing =
      ((doings conduct (d.calls c.listeners) c).foldl apply c).bearing :=
  bearing_calls conduct _ c

theorem length_removeListener (c : Client) (n : String) :
    (c.removeListener n).2.listeners.length + c.listeners.count n = c.listeners.length := by
  have hsplit := List.length_eq_countP_add_countP (· == n) (l := c.listeners)
  simp only [removeListener, ← List.countP_eq_length_filter, List.count]
  simp only [Bool.not_eq_true, Bool.decide_eq_false] at hsplit
  rw [hsplit, Nat.add_comm]
  rfl

/-! ### What the operations leave alone -/

theorem Undisturbed.bearing (h : c.Undisturbed c') : c'.bearing = c.bearing := by
  rw [Client.bearing, h.listeners, h.closed, Client.bearing]

theorem bearing_send (c : Client) (p : Party) (d : Delivery) :
    (c.send p d).2.bearing = c.bearing := by
  simp only [send]
  split <;> rfl

end Client

namespace Removal

variable {r : RemovalRequest} {c c' : Client}

theorem bearing_resume {party : Party} {st st' : Stage}
    (h : resume r party st c = some (st', c')) : c'.bearing = c.bearing := by
  cases resumed h with
  | asked | told | passed | rearming | finished => rfl
  | advanced p answers => exact (Client.Undisturbed.of_thins (thins_advance p answers c)).bearing
  | telling => exact c.bearing_send _ _

end Removal

namespace Session

variable {c c' : Client}

theorem bearing_resume {p : Party} {st st' : Stage} (h : resume p st c = some (st', c')) :
    c'.bearing = c.bearing := by
  cases resumed h with
  | expiring | telling | reporting => exact c.bearing_send _ _
  | expired => exact (undisturbed_recover c).bearing
  | started | gathered | kept | dropped | restored => rfl

end Session

namespace Operation

variable {c c' : Client}

theorem bearing_move {o o' : Operation} {m : Move} {p : Party}
    (h : o.move m p c = some (o', c')) : c'.bearing = c.bearing := by
  cases moves h with
  | failed | refused | enrolled | lining | notified => rfl
  | armed a => exact (Client.Undisturbed.arm c a.entry).bearing
  | notifying d => exact c.bearing_send p d
  | removing r st st' c' resume => exact Removal.bearing_resume resume
  | settling r slot x st st' c' answer =>
    exact (Client.Undisturbed.of_thins (Removal.thins_answer answer)).bearing
  | handling st st' c' resume => exact Session.bearing_resume resume
  | answered slot x st st' c' answer =>
    exact (Client.Undisturbed.of_remarked (Session.remarked_answer answer)).bearing
  | timedOut slot st st' c' timeOut =>
    exact (Client.Undisturbed.of_remarked (Session.remarked_timeOut timeOut)).bearing
  | retried slot st st' c' retry =>
    obtain ⟨q, rfl⟩ := Session.submitted_retry retry
    rfl

end Operation

/-! ### A client at work -/

namespace Engine

variable {a : Action} {s t : Engine}

/-- What user code does to the client by an action: from outside, or when a delivery calls it. -/
def deeds (s : Engine) : Action → List Deed
  | .perform d => [d]
  | .dispatch conduct =>
    if s.client.closed then []
    else match s.client.deliveries.take? with
      | some (d, q) =>
        Client.doings conduct (d.calls s.client.listeners) { s.client with deliveries := q }
      | none => []
  | _ => []

theorem bearing_dispatch {conduct : Client → Call → Conduct}
    (h : act (.dispatch conduct) s = some t) :
    t.client.bearing = ((s.deeds (.dispatch conduct)).foldl Client.apply s.client).bearing := by
  cases hc : s.client.closed with
  | true =>
    rw [deeds, if_pos hc]
    cases dispatch_shutdown hc h
    rfl
  | false =>
    rw [deeds, if_neg (by simp [hc])]
    rcases dispatch_cases hc h with ⟨d, q, htake, rfl⟩ | ⟨htake, _, rfl⟩
    · rw [htake]
      have hsame : Client.bearing { s.client with deliveries := q } = s.client.bearing := rfl
      exact (Client.bearing_deliver conduct _ d).trans (Client.bearing_foldl hsame _)
    · rw [htake]
      rfl

/-- Only what user code does bears on the listeners and closes the client. -/
theorem bearing_act (h : act a s = some t) :
    t.client.bearing = ((s.deeds a).foldl Client.apply s.client).bearing := by
  by_cases hd : ∃ conduct, a = .dispatch conduct
  · obtain ⟨conduct, rfl⟩ := hd
    exact bearing_dispatch h
  · rcases act_change_or_shutdown h with h | ⟨_, h⟩
    · cases h with
      | begun o => exact (Operation.undisturbed_start o s.client).bearing
      | moved p m o o' c action task move =>
        rw [client_put, action]
        cases m <;> exact Operation.bearing_move move
      | concluded b r => exact (Client.Undisturbed.of_remarked (Worker.remarked_conclude b r s.client)).bearing
      | reported f e sent c worker send =>
        change c.bearing = s.client.bearing
        rw [show c = (s.client.send .remover (.completion f e)).2 by rw [send]]
        exact s.client.bearing_send _ _
      | undertook b => exact (Removal.undisturbed_start b.request s.client).bearing
      | heard e => exact (Session.undisturbed_start e s.client).bearing
      | stirred w action => rcases action with rfl | rfl <;> rfl
      | lagged | performed | took | retired | abandoned => rfl
      | deafened | fed | feedEnded | released | collected => rfl
      | dispatched conduct | silenced conduct => exact absurd ⟨conduct, rfl⟩ hd
    · cases h with
      | dispatching conduct => exact absurd ⟨conduct, rfl⟩ hd
      | worker | listener => rfl

end Engine

/-- An engine, with everything that user code has done to its client. -/
structure Attendance where
  engine : Engine
  deeds : List Deed

namespace Attendance

variable {w v : Attendance}

inductive Step (w : Attendance) : Attendance → Prop
  | mk (a : Engine.Action) (t : Engine) (act : Engine.act a w.engine = some t) :
    Step w ⟨t, w.deeds ++ w.engine.deeds a⟩

theorem bearing_run (h : Relation.ReflTransGen Step w v)
    {c : Client} (hw : w.engine.client.bearing = (w.deeds.foldl Client.apply c).bearing) :
    v.engine.client.bearing = (v.deeds.foldl Client.apply c).bearing := by
  induction h with
  | refl => exact hw
  | tail _ hstep ih =>
    obtain ⟨a, t, hact⟩ := hstep
    change t.client.bearing = _
    rw [Engine.bearing_act hact, List.foldl_append]
    exact Client.bearing_foldl ih _

theorem bearing_build {settings : Settings} {feed : Option Nat} {s : Engine}
    (hb : Engine.build settings feed = .built s) : s.client.bearing = ([], false) := by
  obtain ⟨d, r, _, _, rfl⟩ := Engine.build_eq hb
  rfl

theorem listeners_run {settings : Settings} {feed : Option Nat} {s : Engine}
    (hb : Engine.build settings feed = .built s)
    (h : Relation.ReflTransGen Step ⟨s, []⟩ w) :
    w.engine.client.listeners = Deed.standing w.deeds ∧
      (w.engine.client.closed = true ↔ .close ∈ w.deeds) := by
  obtain ⟨hlisteners, hclosed⟩ := Prod.mk.inj (bearing_run h rfl)
  obtain ⟨hnone, hopen⟩ := Prod.mk.inj (bearing_build hb)
  constructor
  · rw [hlisteners, Client.listeners_foldl, hnone]
    rfl
  · rw [hclosed, Client.closed_foldl, hopen]
    simp

/-- The calls of a delivery to the listeners, and what is done in their course. -/
theorem heard_dispatch {conduct : Client → Call → Conduct} {s t : Engine} {d : Delivery}
    {q : Queue Delivery} {e : ClientEvent} (hc : s.client.closed = false)
    (htake : s.client.deliveries.take? = some (d, q)) (he : d.broadcast? = some e)
    (h : Engine.act (.dispatch conduct) s = some t) :
    invocations t.client.journal =
        invocations s.client.journal ++ s.client.listeners.map (.listener · e) ∧
      s.deeds (.dispatch conduct) =
        Client.doings conduct (s.client.listeners.map (.listener · e))
          { s.client with deliveries := q } := by
  have hcalls := Delivery.calls_of_broadcast he s.client.listeners
  constructor
  · rcases Engine.dispatch_cases hc h with ⟨d', q', htake', rfl⟩ | ⟨htake', _⟩
    · obtain ⟨rfl, rfl⟩ := Prod.mk.inj (Option.some.inj (htake.symm.trans htake'))
      obtain ⟨os, hj, hos, _⟩ :=
        (Client.Runs.deliver conduct { s.client with deliveries := q } d).journal
      change invocations (Client.deliver conduct { s.client with deliveries := q } d).journal = _
      rw [hj, invocations_append, hos, hcalls]
    · rw [htake] at htake'
      cases htake'
  · rw [Engine.deeds, if_neg (by simp [hc]), htake]
    exact congrArg (Client.doings conduct · _) hcalls

theorem uncalled_of_closed {conduct : Client → Call → Conduct} {s t : Engine}
    (hc : s.client.closed = true) (h : Engine.act (.dispatch conduct) s = some t) :
    t.client.journal = s.client.journal := by
  cases Engine.dispatch_shutdown hc h
  rfl

/-- After any history the list has the additions that no later removal took back, in their order, so
that a removal finds a copy exactly if an addition of it still stands. A delivery to the listeners
calls those that it finds in the list, once for each copy, in the order of the list and with the same
event, whatever the calls do to the list or to the client and however they end; and all that is done
in their course is done. So a delivery of a client at work calls the listeners that stand after all
that was done before it, by earlier calls too. -/
theorem listeners_called_as_they_stood :
    (∀ (c : Client) (ds : List Deed),
      (ds.foldl Client.apply c).listeners =
          c.listeners.filter (fun n => Deed.removeListener n ∉ ds) ++ Deed.standing ds ∧
        ((ds.foldl Client.apply c).closed = true ↔ c.closed = true ∨ Deed.close ∈ ds)) ∧
    (∀ (c : Client) (n : String),
      ((c.removeListener n).1 = true ↔ 0 < c.listeners.count n) ∧
        (c.removeListener n).2.listeners.length + c.listeners.count n = c.listeners.length ∧
        (c.addListener n).listeners.length = c.listeners.length + 1) ∧
    (∀ (c : Client) (conduct : Client → Call → Conduct) (d : Delivery) (e : ClientEvent),
      d.broadcast? = some e →
      invocations (c.deliver conduct d).journal =
          invocations c.journal ++ c.listeners.map (.listener · e) ∧
        let done := Client.doings conduct (c.listeners.map (.listener · e)) c
        (c.deliver conduct d).listeners =
            c.listeners.filter (fun n => Deed.removeListener n ∉ done) ++ Deed.standing done ∧
          ((c.deliver conduct d).closed = true ↔ c.closed = true ∨ Deed.close ∈ done)) ∧
    ∀ (settings : Settings) (feed : Option Nat) (s : Engine) (w : Attendance),
      Engine.build settings feed = .built s → Relation.ReflTransGen Step ⟨s, []⟩ w →
      w.engine.client.listeners = Deed.standing w.deeds ∧
        (w.engine.client.closed = true ↔ .close ∈ w.deeds) ∧
        (∀ n, (w.engine.client.removeListener n).1 = true ↔ ∃ before after,
          w.deeds = before ++ .addListener n :: after ∧ .removeListener n ∉ after) ∧
        ∀ conduct t, Engine.act (.dispatch conduct) w.engine = some t →
          let done := w.engine.deeds (.dispatch conduct)
          t.client.listeners = Deed.standing (w.deeds ++ done) ∧
            (t.client.closed = true ↔ .close ∈ w.deeds ++ done) ∧
            (.close ∈ w.deeds → invocations t.client.journal =
              invocations w.engine.client.journal) ∧
            ∀ d q e, w.engine.client.deliveries.take? = some (d, q) → d.broadcast? = some e →
              .close ∉ w.deeds →
              invocations t.client.journal = invocations w.engine.client.journal ++
                  (Deed.standing w.deeds).map (.listener · e) ∧
                done = Client.doings conduct ((Deed.standing w.deeds).map (.listener · e))
                  { w.engine.client with deliveries := q } := by
  refine ⟨fun c ds => ⟨c.listeners_foldl ds, Client.closed_foldl ds c⟩, fun c n => ⟨?_, ?_, ?_⟩,
    fun c conduct d e he => ⟨?_, ?_⟩, fun settings feed s w hb h => ?_⟩
  · rw [Client.removeListener, List.contains_iff_mem, List.count_pos_iff]
  · exact c.length_removeListener n
  · exact List.length_append
  · obtain ⟨os, hj, hos, _⟩ := (Client.Runs.deliver conduct c d).journal
    rw [hj, invocations_append, hos, Delivery.calls_of_broadcast he]
  · obtain ⟨hlisteners, hclosed⟩ := Prod.mk.inj (Client.bearing_deliver conduct c d)
    rw [Delivery.calls_of_broadcast he] at hlisteners hclosed
    rw [hlisteners, hclosed]
    exact ⟨c.listeners_foldl _, Client.closed_foldl _ c⟩
  · obtain ⟨hlisteners, hclosed⟩ := listeners_run hb h
    refine ⟨hlisteners, hclosed, fun n => ?_, fun conduct t hact => ?_⟩
    · rw [Client.removeListener, List.contains_iff_mem, hlisteners, Deed.mem_standing]
    · obtain ⟨hafter, hshut⟩ := listeners_run hb (h.tail (.mk _ t hact))
      refine ⟨hafter, hshut, fun hc => ?_, fun d q e htake he hopen => ?_⟩
      · rw [uncalled_of_closed (hclosed.mpr hc) hact]
      · rw [← hlisteners]
        exact heard_dispatch (Bool.eq_false_iff.mpr fun hc => hopen (hclosed.mp hc)) htake he hact

def follow (as : List Engine.Action) (w : Attendance) : Option Attendance :=
  as.foldlM (fun w a => (Engine.act a w.engine).map fun t => ⟨t, w.deeds ++ w.engine.deeds a⟩) w

theorem run_of_follow {as : List Engine.Action} (h : follow as w = some v) :
    Relation.ReflTransGen Step w v := by
  refine run_of_foldlM (fun a _ w v hv => ?_) h
  obtain ⟨t, hact, rfl⟩ := Option.map_eq_some_iff.mp hv
  exact .mk a t hact

/-- The first listener removes itself and panics, and the second adds a third. -/
def reaction : Call → Conduct
  | .listener n _ =>
    if n = "a" then ⟨[.removeListener "a"], .panics none⟩
    else if n = "b" then ⟨[.addListener "c"], .returns⟩
    else {}
  | .watcher .. | .fallible .. | .callback .. => {}

/-- A listener that was added twice removes itself and panics, and another one adds a third in
between. The second copy of the first is called all the same; the next event goes to the other two. -/
theorem removed_listener_is_called_once_more :
    ∃ s w t, Engine.build {} none = .built s ∧ Relation.ReflTransGen Step ⟨s, []⟩ w ∧
      invocations w.engine.client.journal = ["a", "b", "a"].map
        (.listener · (.watched (.linkChange .disconnected) none)) ∧
      w.deeds = [.addListener "a", .addListener "b", .addListener "a", .removeListener "a",
        .addListener "c", .removeListener "a"] ∧
      Engine.act (.dispatch fun _ _ => {}) w.engine = some t ∧
      invocations t.client.journal = invocations w.engine.client.journal ++ ["b", "c"].map
        (.listener · (.watched (.linkChange .syncConnected) none)) := by
  have hrun : (follow [.perform (.addListener "a"), .perform (.addListener "b"),
      .perform (.addListener "a"), .begin (.session .disconnected), .resume (.caller 0),
      .dispatch fun _ => reaction, .begin (.session .reconnected), .resume (.caller 1)]
        ⟨Engine.fresh, []⟩).any
      (fun w => decide (invocations w.engine.client.journal = ["a", "b", "a"].map
          (.listener · (.watched (.linkChange .disconnected) none)) ∧
        w.deeds = [.addListener "a", .addListener "b", .addListener "a", .removeListener "a",
          .addListener "c", .removeListener "a"] ∧
        (Engine.act (.dispatch fun _ _ => {}) w.engine).isSome = true ∧
        w.engine.client.deliveries.take?.map Prod.fst =
          some (.state (.linkChange .syncConnected)))) = true := by
    decide +kernel
  obtain ⟨w, hw, hc⟩ := (Option.any_eq_true _ _).mp hrun
  obtain ⟨hcalled, hdeeds, hnext, htake⟩ := of_decide_eq_true hc
  obtain ⟨t, ht⟩ := Option.isSome_iff_exists.mp hnext
  obtain ⟨⟨d, q⟩, htake, rfl⟩ := Option.map_eq_some_iff.mp htake
  have hsteps := run_of_follow hw
  have hheard :=
    (listeners_called_as_they_stood.2.2.2 _ _ _ w Engine.build_fresh hsteps).2.2.2 _ t ht
  refine ⟨_, w, t, Engine.build_fresh, hsteps, hcalled, hdeeds, ht, ?_⟩
  rw [(hheard.2.2.2 _ q _ htake rfl (by rw [hdeeds]; decide)).1, hdeeds]
  rfl

end Attendance

end NodeWatch
