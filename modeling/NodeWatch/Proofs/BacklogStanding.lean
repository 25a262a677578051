import NodeWatch.Proofs.Backlog

/-! The backlog of a client is served in the order of its submission, whatever happens next: no step
changes what the worker is going to leave behind. -/

namespace NodeWatch

open Client (trace queuings callings InStep Alike Mirrors)
open Removal (Stage finale perform Sound)

namespace Engine

/-- A client in use that has nothing to do but to carry out deliveries. -/
structure Resting (s : Engine) : Prop extends s.Ready where
  calls : s.calls = []
  worker : s.worker = .idle
  listener : s.listener.task? = none
  removals : s.client.removals.isOpen = true ∧ 0 < s.client.removals.capacity ∧
    s.client.removals.items = [] ∧ s.client.removals.line = [] ∧ s.client.removals.admitted = []

end Engine

namespace Backlog

variable {reply : Transport} {s t : Engine} {w : Backlog}

theorem standing_opening (hs : s.Resting) : Standing reply s (opening s) := by
  obtain ⟨hopen, hcapacity, hitems, hline, hadmitted⟩ := hs.removals
  have hfree : s.client.deliveries.FreeFor .remover := .inl ⟨hs.line, .inl hs.admitted⟩
  refine ⟨hs.orderly, hs.opened, hs.listener, ?_, ?_, ?_, ⟨[], rfl, ?_, rfl⟩, .inl hs.dispatching, .inl
    ⟨?_, hs.dispatching, ⟨hs.opened, hs.isOpen, hs.capacity, hfree⟩, ?_,
      ⟨hopen, hcapacity, ?_, ?_, ?_⟩⟩⟩
  · simp [opening, hs.calls]
  · simp [opening, Engine.offering, hs.calls]
  · simp only [opening, hitems, hs.worker]
    exact Client.mirrors_refl _
  · exact (List.append_nil _).symm
  · simp [opening, hs.worker, Worker.isStopped]
  · simp [opening, hs.worker]
  · simp [opening, hline, hadmitted]
  · simp [opening, hline, hadmitted]
  · simp [opening, hline]

theorem Standing.alive_of_working (h : Standing reply s w) (hw : w.engine.worker ≠ .stopped) :
    Alive reply w.engine :=
  h.stage.resolve_right fun ho => hw ho.worker

/-- The worker has no removal under way, and is there. -/
theorem Alive.unoccupied (h : Alive reply t) {x : Worker} {c : Client} (hx : x.isStopped = false)
    (hn : x.task? = none) (hcalm : c.Calm .remover) (htidy : c.removals.Tidy t.Enrols) :
    Alive reply { t with worker := x, client := c } := by
  refine ⟨hx, h.dispatching, hcalm, fun b st awake hw => ?_, htidy⟩
  rw [show x = .removing b st awake from hw] at hn
  cases hn

/-- The worker did something, and did not change what it is going to leave behind. -/
theorem Standing.of_worker (h : Standing reply s w) (hd : w.engine.dispatching = true) {x : Worker}
    {c : Client} (hclosed : c.closed = false) (hposts : ∃ ds, w.engine.client.Posts c ds)
    (hmirrors : Mirrors (c.removals.items.foldl (serve reply) (prospect reply x c))
      (w.engine.client.removals.items.foldl (serve reply)
        (prospect reply w.engine.worker w.engine.client)))
    (hstage : Alive reply { w.engine with worker := x, client := c } ∨
      Over { w.engine with worker := x, client := c }) :
    Standing reply s { w with engine := { w.engine with worker := x, client := c } } := by
  refine ⟨h.orderly, hclosed, h.alone, h.calls, h.ordered, hmirrors.trans h.mirrors, ?_, .inl hd,
    hstage⟩
  obtain ⟨os, hj, hcarried, hcalled⟩ := h.delivered
  obtain ⟨ds, os', hj', hq, hcalls, hitems⟩ := hposts
  refine ⟨os' ++ os, ?_, ?_, ?_⟩
  · rw [List.append_assoc, ← hj]
    exact hj'
  · change w.carried ++ c.deliveries.items = _
    rw [hitems, ← List.append_assoc, hcarried, Client.queuings_append, hq, List.append_assoc]
  · rw [Client.callings_append, hcalls, List.append_nil, hcalled]

theorem Standing.of_moved (h : Standing reply s w) {b : BackgroundRemoval} {st st' : Stage}
    {awake : Bool} {c : Client} (hw : w.engine.worker = .removing b st awake)
    (halike : Alike [] [] (finale reply b.request st' c)
      (finale reply b.request st w.engine.client))
    (hsound : Sound reply b.request st' c) (hcalm : c.Calm .remover)
    (hposts : ∃ ds, w.engine.client.Posts c ds) (hr : c.removals = w.engine.client.removals) :
    Standing reply s
      { w with engine := { w.engine with worker := .removing b st' awake, client := c } } := by
  have halive := h.alive_of_working (by simp [hw])
  refine h.of_worker halive.dispatching hcalm.opened hposts ?_ (.inl ⟨rfl, halive.dispatching, hcalm,
    ?_, ?_⟩)
  · rw [hr, hw]
    exact inStep_served reply (inStep_reported halike) _
  · intro b' st₁ awake' he
    cases he
    exact hsound
  · change c.removals.Tidy _
    rw [hr]
    exact halive.tidy

theorem Standing.took (h : Standing reply s w) {b : BackgroundRemoval}
    {q : Queue BackgroundRemoval} (hw : w.engine.worker = .idle)
    (ht : w.engine.client.removals.take? = some (b, q)) :
    Standing reply s { w with engine := { w.engine with
      worker := .received b, client := { w.engine.client with removals := q } } } := by
  have halive := h.alive_of_working (by simp [hw])
  refine h.of_worker halive.dispatching h.opened ⟨[], .of_eq rfl rfl⟩ ?_
    (.inl (halive.unoccupied rfl rfl (halive.calm.of_eq rfl rfl) (halive.tidy.take ht)))
  have hsame : Mirrors { w.engine.client with removals := q } w.engine.client :=
    Client.mirrors_of_eq rfl rfl rfl
  rw [Queue.items_take ht, hw]
  exact inStep_served reply (inStep_serve reply hsame b) q.items

theorem Standing.retired (h : Standing reply s w) (hw : w.engine.worker = .idle)
    (ht : w.engine.client.removals.take? = none) (ho : w.engine.orphaned = true) :
    Standing reply s { w with engine := { w.engine with
      worker := .stopped, client := (Worker.stop w.engine.client).2 } } := by
  have halive := h.alive_of_working (by simp [hw])
  obtain ⟨hheld, hcalls⟩ : w.engine.held = false ∧ w.engine.calls = [] := by
    simpa [Engine.orphaned] using ho
  refine h.of_worker halive.dispatching h.opened ⟨[], .of_eq rfl (Queue.items_withdraw _ _)⟩ ?_
    (.inr ⟨rfl, hcalls, hheld, rfl⟩)
  rw [Queue.items_of_take_none ht, hw]
  exact Client.mirrors_of_eq rfl rfl rfl

theorem Standing.undertook (h : Standing reply s w) {b : BackgroundRemoval}
    (hw : w.engine.worker = .received b) :
    Standing reply s { w with engine := { w.engine with
      worker := .removing b (Removal.start b.request w.engine.client).1 true
      client := (Removal.start b.request w.engine.client).2 } } := by
  have halive := h.alive_of_working (by simp [hw])
  have hundisturbed := Removal.undisturbed_start b.request w.engine.client
  refine h.of_worker halive.dispatching (hundisturbed.closed.trans h.opened)
    ⟨[], Removal.posts_start b.request w.engine.client⟩ ?_
    (.inl ⟨rfl, halive.dispatching, ?_, ?_, ?_⟩)
  · rw [hundisturbed.removals, hw]
    exact Client.mirrors_refl _
  · exact halive.calm.of_eq hundisturbed.closed hundisturbed.deliveries
  · intro b' st awake he
    cases he
    exact Removal.sound_start reply b.request w.engine.client
  · change (Removal.start b.request w.engine.client).2.removals.Tidy _
    rw [hundisturbed.removals]
    exact halive.tidy

theorem Standing.stirred (h : Standing reply s w) {x : Worker}
    (hx : w.engine.worker.SameWork x) :
    Standing reply s { w with engine := { w.engine with worker := x } } := by
  have hprospect : prospect reply x w.engine.client =
      prospect reply w.engine.worker w.engine.client := by
    generalize w.engine.worker = y at hx
    cases hx <;> rfl
  have halive := h.alive_of_working (by
    intro hw
    rw [hw] at hx
    cases hx)
  refine h.of_worker (c := w.engine.client) halive.dispatching h.opened ⟨[], .of_eq rfl rfl⟩ ?_
    (.inl ⟨?_, halive.dispatching, halive.calm, ?_, halive.tidy⟩)
  · rw [hprospect]
    exact Client.mirrors_refl _
  · generalize w.engine.worker = y at hx
    cases hx <;> rfl
  · intro b st awake he
    obtain rfl : x = .removing b st awake := he
    obtain ⟨awake', hw⟩ : ∃ awake', w.engine.worker = .removing b st awake' := by
      generalize w.engine.worker = y at hx
      cases hx
      exact ⟨_, rfl⟩
    exact halive.sound b st awake' hw

theorem Standing.concluded (h : Standing reply s w) {b : BackgroundRemoval}
    {result : Except Fault (List Entry)} (hw : w.engine.worker = .removing b (.done result) true) :
    Standing reply s { w with engine := { w.engine with
      worker := (Worker.conclude b result w.engine.client).1
      client := (Worker.conclude b result w.engine.client).2 } } := by
  have halive := h.alive_of_working (by simp [hw])
  have hcalm : ∀ c : Client, c.closed = w.engine.client.closed →
      c.deliveries = w.engine.client.deliveries → c.Calm .remover := fun c => halive.calm.of_eq
  cases hb : b.callback with
  | some f =>
    have hconclude : Worker.conclude b result w.engine.client =
        (.reporting f (Worker.completion b.request result) true, w.engine.client) := by
      simp only [Worker.conclude, hb]
    rw [hconclude]
    refine h.of_worker halive.dispatching h.opened ⟨[], .of_eq rfl rfl⟩ ?_
      (.inl (halive.unoccupied rfl rfl halive.calm halive.tidy))
    rw [hw]
    have hreported : reported b (result, w.engine.client) =
        w.engine.client.note (.queued (.completion f (Worker.completion b.request result))) := by
      simp [reported, BackgroundRemoval.report, hb, Worker.completion_eq]
    simp only [prospect, finale, hreported]
    exact Client.mirrors_refl _
  | none =>
    have hreported : reported b (result, w.engine.client) = w.engine.client := by
      simp [reported, BackgroundRemoval.report, hb]
    cases result with
    | ok es =>
      have hconclude : Worker.conclude b (.ok es) w.engine.client = (.idle, w.engine.client) := by
        simp only [Worker.conclude, hb]
      rw [hconclude]
      refine h.of_worker halive.dispatching h.opened ⟨[], .of_eq rfl rfl⟩ ?_
        (.inl (halive.unoccupied rfl rfl halive.calm halive.tidy))
      simp only [hw, prospect, finale, hreported]
      exact Client.mirrors_refl _
    | error f =>
      have hconclude : Worker.conclude b (.error f) w.engine.client =
          (.idle, w.engine.client.remark (.backgroundFailed b.request.path b.request.kind f)) := by
        simp only [Worker.conclude, hb]
      rw [hconclude]
      refine h.of_worker halive.dispatching h.opened ⟨[], .note _ rfl rfl⟩ ?_
        (.inl (halive.unoccupied rfl rfl (halive.calm.of_eq rfl rfl) halive.tidy))
      simp only [hw, prospect, finale, hreported]
      exact inStep_served reply (Client.mirrors_note _ rfl) _

theorem Standing.reporting (h : Standing reply s w) {f : String} {e : ClientEvent} {sent : Bool}
    {c : Client} (hw : w.engine.worker = .reporting f e true)
    (hs : w.engine.client.send .remover (.completion f e) = (sent, c)) :
    Standing reply s { w with engine := { w.engine with
      worker := if sent then .idle else .reporting f e true, client := c } } := by
  have halive := h.alive_of_working (by simp [hw])
  have hsame : ∀ q, Mirrors { w.engine.client with deliveries := q } w.engine.client := fun q =>
    Client.mirrors_of_eq rfl rfl rfl
  rcases halive.calm.send (.completion f e) with ⟨_, q, hq, hcalm, rfl⟩ | ⟨_, q, hq, hcalm, rfl⟩
  · obtain ⟨rfl, rfl⟩ := Prod.mk.inj (hs.symm.trans hq)
    refine h.of_worker halive.dispatching h.opened
      ⟨[.completion f e], [.queued _], rfl, rfl, rfl, rfl⟩ ?_
      (.inl (halive.unoccupied rfl rfl (hcalm.of_eq rfl rfl) halive.tidy))
    rw [hw]
    exact inStep_served reply ((hsame _).note _) _
  · obtain ⟨rfl, rfl⟩ := Prod.mk.inj (hs.symm.trans hq)
    refine h.of_worker halive.dispatching h.opened ⟨[], .of_eq rfl rfl⟩ ?_
      (.inl (halive.unoccupied rfl rfl hcalm halive.tidy))
    rw [hw]
    exact inStep_served reply ((hsame _).note _) _

theorem Standing.begun (h : Standing reply s w) {b : BackgroundRemoval}
    (hv : Path.validate b.request.path = .ok ())
    (hact : Engine.act (.begin (.enrol b)) w.engine = some t) :
    Standing reply s { w with engine := t, ordered := w.ordered ++ [b] } := by
  have horderly := Engine.orderly_act h.orderly hact
  have hstart : Operation.start (.enrol b) w.engine.client =
      (.enrolment b .offering, w.engine.client) := by
    simp [Operation.start, Enrolment.start, h.opened, hv, Prod.map]
  simp only [Engine.act, Engine.begin] at hact
  split at hact
  · rename_i hheld
    obtain rfl := Option.some.inj hact
    have halive : Alive reply w.engine := h.stage.resolve_right fun ho => by
      rw [ho.held] at hheld
      cases hheld
    rw [hstart] at horderly ⊢
    refine ⟨horderly, h.opened, h.alone, fun x hx => ?_, ?_, h.mirrors, h.delivered, h.dispatching,
      .inl ⟨halive.working, halive.dispatching, halive.calm, halive.sound, halive.tidy.mono ?_⟩⟩
    · rcases List.mem_append.mp hx with hx | hx
      · exact h.calls x hx
      · exact ⟨b, .inl (by rw [List.mem_singleton.mp hx])⟩
    · have hoffering := h.ordered.append_right [b]
      rw [List.append_assoc] at hoffering
      simpa [Engine.offering, List.filterMap_append, Operation.enrolling?] using hoffering
    · rintro p ⟨id, b', rfl, hcall⟩
      refine ⟨id, b', rfl, ?_⟩
      have htask := Engine.task?_begun h.orderly (.enrolment b .offering) w.engine.client (.caller id)
      rw [if_neg] at htask
      · exact htask.trans hcall
      · intro hid
        obtain rfl := Party.caller.inj hid
        have hfresh := Engine.task?_fresh h.orderly
        rw [show w.engine.task? (.caller _) = some _ from hcall] at hfresh
        cases hfresh
  · cases hact

/-- The removals that a call has handed over, and the call, have changed together. -/
theorem Standing.of_enrolment (h : Standing reply s w) (halive : Alive reply w.engine) {id : Nat}
    {o o' : Operation} {q : Queue BackgroundRemoval} {bs : List BackgroundRemoval}
    (hcall : w.engine.call? id = some o)
    (ho' : ∃ b, o' = .enrolment b .offering ∨ o' = .enrolment b (.done (.ok ())))
    (hitems : q.items = w.engine.client.removals.items ++ bs)
    (hover : bs ++ o'.enrolling?.toList = o.enrolling?.toList)
    (htidy : q.Tidy (w.engine.setCall id o' { w.engine.client with removals := q }).Enrols) :
    Standing reply s { w with
      engine := w.engine.setCall id o' { w.engine.client with removals := q }
      submitted := w.submitted ++ bs } := by
  obtain ⟨l₁, l₂, hsplit, hne⟩ := Engine.call_split h.orderly hcall
  have hcalls : (w.engine.setCall id o' { w.engine.client with removals := q }).calls =
      l₁ ++ (id, o') :: l₂ := by
    simp only [Engine.setCall, hsplit]
    exact Engine.map_split hne
  have hsame : Mirrors { w.engine.client with removals := q } w.engine.client :=
    Client.mirrors_of_eq rfl rfl rfl
  have horderly : (w.engine.setCall id o' { w.engine.client with removals := q }).Orderly :=
    Engine.orderly_of_calls h.orderly (by rw [Engine.map_fst_setCall]) rfl
  refine ⟨horderly, h.opened, h.alone, fun x hx => ?_, ?_, ?_, h.delivered, h.dispatching,
    .inl ⟨halive.working, halive.dispatching, halive.calm.of_eq rfl rfl, fun b st awake hw => ?_,
      htidy⟩⟩
  · rw [hcalls] at hx
    rcases List.mem_append.mp hx with hx | hx
    · exact h.calls x (hsplit ▸ List.mem_append_left _ hx)
    · rcases List.mem_cons.mp hx with rfl | hx
      · exact ho'
      · exact h.calls x (hsplit ▸ List.mem_append_right _ (.tail _ hx))
  · have hcons : ∀ (x : Nat × Operation) l, (x :: l).filterMap (fun x => x.2.enrolling?) =
        x.2.enrolling?.toList ++ l.filterMap fun x => x.2.enrolling? := fun x l => by
      cases hx : x.2.enrolling? <;> simp [hx]
    refine List.Perm.trans ?_ h.ordered
    -- What was handed over has left the middle of the calls for the end of what was submitted.
    simp only [Engine.offering, hcalls, hsplit, List.filterMap_append, hcons, ← hover,
      List.append_assoc]
    refine List.Perm.append_left _ ?_
    exact List.perm_append_comm_assoc _ _ _
  · have hserved := inStep_served reply (inStep_prospect reply hsame w.engine.worker)
      w.engine.client.removals.items
    change Mirrors (q.items.foldl _ _) _
    rw [hitems, List.foldl_append, List.foldl_append]
    exact inStep_served reply (hserved.trans h.mirrors) bs
  · exact Removal.sound_congr hsame.history (halive.sound b st awake hw)

theorem Standing.alive_of_call (h : Standing reply s w) {id : Nat} {o : Operation}
    (hcall : w.engine.call? id = some o) : Alive reply w.engine := by
  refine h.stage.resolve_right fun ho => ?_
  rw [Engine.call?, ho.calls] at hcall
  cases hcall

theorem enrols_setCall {p : Party} {id : Nat} (hp : p ≠ .caller id) (o : Operation) (c : Client)
    (h : t.Enrols p) : (t.setCall id o c).Enrols p := by
  obtain ⟨id', b', rfl, hcall'⟩ := h
  have htask := Engine.task?_setCall t id o c (.caller id')
  rw [if_neg hp] at htask
  exact ⟨id', b', rfl, htask.trans hcall'⟩

theorem Standing.enrolling (h : Standing reply s w) {id : Nat}
    (hact : Engine.act (.resume (.caller id)) w.engine = some t) :
    Standing reply s { w with engine := t, submitted := w.submitted ++ t.handedOver id } := by
  obtain ⟨o, hcall⟩ : ∃ o, w.engine.call? id = some o := by
    simp only [Engine.act, Engine.resume, Engine.updateCall, Option.bind_eq_bind,
      Option.bind_eq_some_iff] at hact
    obtain ⟨o, ho, _⟩ := hact
    exact ⟨o, ho⟩
  obtain ⟨l₁, l₂, hsplit, _⟩ := Engine.call_split h.orderly hcall
  have halive := h.alive_of_call hcall
  obtain ⟨o', hm, ht⟩ := Engine.moved_of_call (m := .resume) hcall hact
  have hafter : t.call? id = some o' := by
    rw [ht]
    exact Engine.call?_setCall hcall o' t.client
  obtain ⟨b, hb⟩ := h.calls (id, o) (hsplit ▸ List.mem_append_right _ (.head _))
  generalize t.client = c at hm ht
  rcases hb with rfl | rfl
  · cases Operation.moves hm with
    | refused =>
      simp only [Operation.move, Operation.resume, Enrolment.resume] at hm
      split at hm
      · cases hm
      · split at hm
        · exact absurd ‹_› halive.tidy.not_refused
        · cases hm
        · cases hm
    | enrolled _ q offer =>
      have hover : t.handedOver id = [b] := by simp only [Engine.handedOver, hafter]
      rw [hover, ht]
      exact h.of_enrolment halive hcall ⟨b, .inr rfl⟩ (Queue.items_of_accepted offer) rfl
        (halive.tidy.accepted offer fun p hp => enrols_setCall hp _ _)
    | lining _ q offer =>
      have hover : t.handedOver id = [] := by simp only [Engine.handedOver, hafter]
      have hself : ∀ c, (w.engine.setCall id (.enrolment b .offering) c).Enrols (.caller id) :=
        fun c => ⟨id, b, rfl, Engine.call?_setCall hcall _ _⟩
      rw [hover, ht]
      refine h.of_enrolment halive hcall ⟨b, .inl rfl⟩ ?_ rfl
        ((halive.tidy.mustWait offer ⟨id, b, rfl, hcall⟩).mono fun p hp => ?_)
      · rw [Queue.items_of_mustWait offer, List.append_nil]
      · by_cases hid : p = .caller id
        · exact hid ▸ hself _
        · exact enrols_setCall hid _ _ hp
  · rw [Operation.move_of_finished (by rfl)] at hm
    cases hm

theorem Standing.collected (h : Standing reply s w) {id : Nat}
    (hact : Engine.act (.collect id) w.engine = some t) :
    Standing reply s { w with engine := t } := by
  have horderly := Engine.orderly_act h.orderly hact
  obtain ⟨x, hx, rfl⟩ := Option.map_eq_some_iff.mp hact
  obtain ⟨o, hcall, ho⟩ := Option.bind_eq_some_iff.mp hx
  obtain ⟨l₁, l₂, hsplit, hne⟩ := Engine.call_split h.orderly hcall
  have halive := h.alive_of_call hcall
  have hdone : o.enrolling? = none := by
    cases o with
    | enrolment b st => cases st with
      | offering => cases ho
      | done => rfl
    | arming | removal | notification | session => rfl
  have hcalls : w.engine.calls.filter (fun x => x.1 ≠ id) = l₁ ++ l₂ := by
    rw [hsplit]
    exact Engine.filter_split hne
  refine ⟨horderly, h.opened, h.alone, fun x hx => h.calls x (List.mem_of_mem_filter hx), ?_,
    h.mirrors, h.delivered, h.dispatching,
    .inl ⟨halive.working, halive.dispatching, halive.calm, halive.sound, halive.tidy.mono ?_⟩⟩
  · have hordered := h.ordered
    simp only [Engine.offering, hsplit, List.filterMap_append, List.filterMap_cons, hdone] at hordered
    simpa only [Engine.offering, hcalls, List.filterMap_append] using hordered
  · rintro p ⟨id', b, rfl, hcall'⟩
    have htask := Engine.task?_dismissed w.engine id w.engine.client (.caller id')
    rw [if_neg] at htask
    · exact ⟨id', b, rfl, htask.trans hcall'⟩
    · intro hid
      obtain rfl := Party.caller.inj hid
      obtain rfl := Option.some.inj (hcall.symm.trans hcall')
      cases ho

theorem Standing.of_stays (h : Standing reply s w) {c : Client}
    (hsame : Mirrors c w.engine.client) (hclosed : c.closed = false)
    (hremovals : c.removals = w.engine.client.removals) {ds : List Delivery}
    (hdelivered : ∃ os, c.journal = os ++ w.engine.client.journal ∧ queuings os = [] ∧
      ds ++ c.deliveries.items = w.engine.client.deliveries.items ∧
      callings os = ds.flatMap (Delivery.calls [])) {d : Bool}
    (hd : d = true ∨ c.deliveries.items = [])
    (hstage : Alive reply w.engine → d = true ∧ c.Calm .remover) :
    Standing reply s { w with
      engine := { w.engine with client := c, dispatching := d }, carried := w.carried ++ ds } := by
  refine ⟨h.orderly, hclosed, h.alone, h.calls, h.ordered, ?_, ?_, hd, ?_⟩
  · change Mirrors (c.removals.items.foldl _ _) _
    rw [hremovals]
    exact (inStep_served reply (inStep_prospect reply hsame w.engine.worker) _).trans h.mirrors
  · obtain ⟨os, hj, hcarried, hcalled⟩ := h.delivered
    obtain ⟨os', hj', hq, hitems, hcalls⟩ := hdelivered
    refine ⟨os' ++ os, ?_, ?_, ?_⟩
    · rw [List.append_assoc, ← hj]
      exact hj'
    · rw [Client.queuings_silent hq, ← hcarried, ← hitems, ← List.append_assoc]
    · rw [Client.callings_append, hcalled, hcalls, List.flatMap_append]
  · refine h.stage.imp (fun halive => ?_) fun ho => ⟨ho.worker, ho.calls, ho.held, ?_⟩
    · obtain ⟨hdispatching, hcalm⟩ := hstage halive
      refine ⟨halive.working, hdispatching, hcalm, fun b st awake hw => ?_, ?_⟩
      · exact Removal.sound_congr hsame.history (halive.sound b st awake hw)
      · exact hremovals.symm ▸ halive.tidy
    · exact hremovals.symm ▸ ho.items

theorem Standing.dispatched (h : Standing reply s w) {conduct : Client → Call → Conduct}
    (hopen : ∀ c x, .close ∉ (conduct c x).deeds)
    (hact : Engine.act (.dispatch conduct) w.engine = some t) :
    Standing reply s { w with
      engine := t
      carried := w.carried ++ w.engine.client.deliveries.items.take 1 } := by
  cases Engine.act_change h.opened hact with
  | dispatched _ d q dispatching take =>
    have hstays := Client.Stays.deliver hopen { w.engine.client with deliveries := q } d
    obtain ⟨os, hj, hq, _⟩ := hstays.journal
    obtain ⟨js, hjs, hcalls⟩ :=
      Client.callings_deliver conduct { w.engine.client with deliveries := q } d
    obtain rfl : os = js := List.append_cancel_right (hj.symm.trans hjs)
    have hitems := Queue.items_take take
    refine h.of_stays (hstays.mirrors.trans (Client.mirrors_of_eq rfl rfl rfl))
      (hstays.closed.trans h.opened) hstays.removals ⟨os, hj, hq, ?_, ?_⟩ (.inl dispatching)
      fun halive => ⟨dispatching, (halive.calm.take take).of_eq hstays.closed hstays.deliveries⟩
    · rw [hstays.deliveries, hitems]
      rfl
    · rw [hcalls, hitems, List.take_succ_cons, List.take_zero, List.flatMap_singleton]
  | silenced _ silent =>
    have htake : w.engine.client.deliveries.take? = none := by
      simp only [Engine.act, Engine.dispatch, h.opened, Bool.false_eq_true, if_false] at hact
      split at hact
      · cases hact
      · split at hact
        · rename_i d q hq
          have hsame := congrArg Engine.dispatching (Option.some.inj hact)
          simp_all [Engine.stopDispatching]
        · assumption
    have hitems := Queue.items_of_take_none htake
    rw [hitems, List.take_nil]
    have hclosed : Mirrors { w.engine.client.remark .deliveryQueueClosed with
        deliveries := w.engine.client.deliveries.close }
        (w.engine.client.remark .deliveryQueueClosed) := Client.mirrors_of_eq rfl rfl rfl
    refine h.of_stays (d := false) (c := { w.engine.client.remark .deliveryQueueClosed with
      deliveries := w.engine.client.deliveries.close })
      (hclosed.trans (Client.mirrors_note _ rfl)) h.opened rfl
      ⟨[.remarked .deliveryQueueClosed], rfl, rfl, hitems.symm, rfl⟩ (.inr rfl) fun halive => ?_
    have hworking := halive.working
    simp only [Engine.silent, Bool.and_eq_true] at silent
    rw [hworking] at silent
    cases silent.1.2
  | moved q m _ _ _ action => cases m <;> cases action
  | stirred _ action => rcases action with h | h <;> cases h

theorem removing_of_task {o : Operation} (h : s.task? .remover = some o) :
    ∃ b st awake, s.worker = .removing b st awake ∧ o = .removal b.request st := by
  cases hw : s.worker with
  | removing b st awake =>
    exact ⟨b, st, awake, rfl, by simpa [Engine.task?, hw, Worker.task?] using h.symm⟩
  | idle | received | reporting | stopped => simp [Engine.task?, hw, Worker.task?] at h

theorem put_remover {b : BackgroundRemoval} {st st' : Stage} {awake : Bool} {c : Client}
    (hw : s.worker = .removing b st awake) :
    s.put .remover (.removal b.request st') c =
      { s with worker := .removing b st' awake, client := c } := by
  simp [Engine.put, hw, Worker.put]

theorem Standing.worked (h : Standing reply s w) {a : Engine.Action}
    (own : a = .turn ∨ a = .sleep ∨ a = .resume .remover)
    (hact : Engine.act a w.engine = some t) : Standing reply s { w with engine := t } := by
  cases Engine.act_change h.opened hact with
  | moved p m o o' c action task move =>
    have hp : p = .remover ∧ m = .resume := by
      rcases own with rfl | rfl | rfl <;> cases m <;> cases action
      exact ⟨rfl, rfl⟩
    obtain ⟨rfl, rfl⟩ := hp
    obtain ⟨b, st, awake, hw, rfl⟩ := removing_of_task task
    have halive := h.alive_of_working (by simp [hw])
    cases Operation.moves move with
    | removing _ _ st' _ resume =>
      obtain ⟨halike, hsound, hcalm⟩ :=
        Removal.alike_resume halive.calm (halive.sound b st awake hw) resume
      obtain ⟨es, hposts⟩ := Removal.posts_resume halive.calm resume
      rw [put_remover hw]
      exact h.of_moved hw halike hsound hcalm ⟨_, hposts⟩
        (Operation.removals_move move fun _ _ he => (by cases he))
  | concluded b result worker => exact h.concluded worker
  | reported f e sent c worker send => exact h.reporting worker send
  | took b q worker take => exact h.took worker take
  | retired worker take orphaned => exact h.retired worker take orphaned
  | undertook b worker => exact h.undertook worker
  | stirred x _ same => exact h.stirred same
  | _ => rcases own with own | own | own <;> cases own

theorem Standing.answered (h : Standing reply s w) {slot : Nat}
    (hact : Engine.act (.answer .remover slot (reply (w.engine.upTo .remover slot))) w.engine =
      some t) : Standing reply s { w with engine := t } := by
  have hchange := Engine.act_change h.opened hact
  generalize ha : Engine.Action.answer .remover slot (reply (w.engine.upTo .remover slot)) = a
    at hchange
  cases hchange with
  | moved p m o o' c action task move =>
    obtain ⟨rfl, rfl⟩ : p = .remover ∧
        m = .answer slot (reply (w.engine.upTo .remover slot)) := by
      cases m <;> cases ha.trans action
      exact ⟨rfl, rfl⟩
    obtain ⟨b, st, awake, hw, rfl⟩ := removing_of_task task
    have halive := h.alive_of_working (by simp [hw])
    cases Operation.moves move with
    | settling _ _ _ _ st' _ answer =>
      have hwaits : w.engine.waits .remover = Removal.waits b.request st := by
        rw [Engine.waits, hw]
        rfl
      obtain ⟨hdeliveries, hclosed, _⟩ := Removal.steady_answer answer
      have hposts := Client.Posts.of_thins (Removal.thins_answer answer)
      rw [Engine.upTo, hwaits] at answer
      obtain ⟨halike, hsound⟩ := Removal.alike_answer (halive.sound b st awake hw) answer
      rw [put_remover hw]
      exact h.of_moved hw halike hsound (halive.calm.of_eq hclosed hdeliveries) ⟨_, hposts⟩
        (Operation.removals_move move fun _ _ he => (by cases he))
  | stirred x action => rcases action with rfl | rfl <;> cases ha
  | _ => cases ha

theorem Standing.step {w' : Backlog} (h : Standing reply s w) (hs : Step reply w w') :
    Standing reply s w' := by
  cases hs with
  | ordered b t valid act => exact h.begun valid act
  | enrolling id t act => exact h.enrolling act
  | collected id t act => exact h.collected act
  | released t act =>
    simp only [Engine.act] at act
    split at act
    · obtain rfl := Option.some.inj act
      refine ⟨h.orderly, h.opened, h.alone, h.calls, h.ordered, h.mirrors, h.delivered,
        h.dispatching, ?_⟩
      refine h.stage.imp (fun ha => ?_) fun ho => ⟨ho.worker, ho.calls, rfl, ho.items⟩
      exact ⟨ha.working, ha.dispatching, ha.calm, ha.sound, ha.tidy⟩
    · cases act
  | worked a t own act => exact h.worked own act
  | answered slot t act => exact h.answered act
  | dispatched conduct t opened act => exact h.dispatched opened act

theorem Standing.run {w' : Backlog} (h : Standing reply s w)
    (hs : Relation.ReflTransGen (Step reply) w w') : Standing reply s w' := by
  induction hs with
  | refl => exact h
  | tail _ hstep ih => exact ih.step hstep

end Backlog

end NodeWatch
