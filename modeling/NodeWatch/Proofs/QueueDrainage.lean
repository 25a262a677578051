import Mathlib.Algebra.Order.BigOperators.Group.List
import Mathlib.Algebra.Order.Group.Nat
import NodeWatch.Proofs.DeliveryCarriage
import NodeWatch.Proofs.StaysClosed

/-! The way out for what is on the queue of deliveries and for what waits to be put there. As long as
user code does not close the client, the dispatch worker can carry out whatever is on the queue, and on
an empty queue there is room for one of those who wait. -/

namespace NodeWatch

open Client (invocations)

section Dues

variable {p : Party} {d : Delivery} {ds : List Delivery} {c : Client}

theorem Removal.exists_resume {st : Removal.Stage} (r : RemovalRequest) (h : st.agenda = d :: ds)
    (hp : c.deliveries.stalls p = false) :
    ∃ st', Removal.resume r p st c = some (st', (c.send p d).2) := by
  cases st with
  | confirming es o =>
    cases es with
    | nil => cases h
    | cons e es =>
      obtain ⟨rfl, _⟩ := List.cons.inj h
      simp only [Removal.resume, hp, Bool.false_eq_true, if_false]
      split <;> rename_i he <;> exact ⟨_, by rw [he]⟩
  | asking | checking | rearming | done => cases h

theorem Session.exists_resume {st : Session.Stage} (h : st.agenda = d :: ds)
    (hp : c.deliveries.stalls p = false) :
    ∃ st', Session.resume p st c = some (st', (c.send p d).2) := by
  cases st with
  | expiring =>
    obtain ⟨rfl, _⟩ := List.cons.inj h
    simp only [Session.resume, hp, Bool.false_eq_true, if_false, expire]
    split <;> rename_i he <;> exact ⟨_, by rw [he]⟩
  | dropping rs es =>
    cases es with
    | nil => cases h
    | cons e es =>
      obtain ⟨rfl, _⟩ := List.cons.inj h
      simp only [Session.resume, hp, Bool.false_eq_true, if_false]
      split <;> rename_i he <;> exact ⟨_, by rw [he]⟩
  | reporting state =>
    obtain ⟨rfl, _⟩ := List.cons.inj h
    simp only [Session.resume, hp, Bool.false_eq_true, if_false, report]
    split <;> rename_i he <;> exact ⟨_, by rw [he]⟩
  | expired | resubmitting | done => cases h

theorem Operation.exists_resume {o : Operation} (h : o.agenda = d :: ds)
    (hp : c.deliveries.stalls p = false) :
    ∃ o', o.resume p c = some (o', (c.send p d).2) := by
  cases o with
  | removal r st =>
    obtain ⟨st', hst⟩ := Removal.exists_resume r h hp
    exact ⟨.removal r st', by rw [resume, hst]; rfl⟩
  | notification st =>
    cases st with
    | telling ds =>
      cases ds with
      | nil => cases h
      | cons d ds =>
        obtain ⟨rfl, _⟩ := List.cons.inj h
        simp only [resume, Notification.resume, hp, Bool.false_eq_true, if_false]
        split <;> rename_i he <;> exact ⟨_, by rw [he]; rfl⟩
    | done => cases h
  | session st =>
    obtain ⟨st', hst⟩ := Session.exists_resume h hp
    exact ⟨.session st', by rw [resume, hst]; rfl⟩
  | arming | enrolment => cases h

theorem Worker.exists_resume {w : Worker} (h : w.agenda = d :: ds) (hw : w.isAwake = true)
    (hp : c.deliveries.stalls .remover = false) :
    ∃ w', w.resume c = some (w', (c.send .remover d).2) := by
  cases w with
  | removing b st awake =>
    obtain rfl : awake = true := hw
    obtain ⟨st', hst⟩ := Removal.exists_resume b.request h hp
    have hresume : resume (.removing b st true) c =
        (Removal.resume b.request .remover st c).map (·.map (.removing b · true) id) := by
      cases st with
      | done => cases h
      | asking | confirming | checking | rearming => rfl
    exact ⟨.removing b st' true, by rw [hresume, hst]; rfl⟩
  | reporting f e awake =>
    obtain rfl : awake = true := hw
    obtain ⟨rfl, _⟩ := List.cons.inj h
    simp only [resume, hp, Bool.false_eq_true, if_false]
    split <;> rename_i he <;> exact ⟨_, by rw [he]⟩
  | idle | received | stopped => cases h

theorem Worker.exists_wake {w : Worker} (h : w.agenda = d :: ds) (hw : w.isAwake = false)
    (ho : c.closed = false) (orphaned : Bool) :
    ∃ w', w.turn orphaned c = some (w', c) ∧ w'.isAwake = true ∧ w'.agenda = w.agenda := by
  cases w with
  | removing b st awake =>
    obtain rfl : awake = false := hw
    exact ⟨.removing b st true, by simp [turn, ho], rfl, rfl⟩
  | reporting f e awake =>
    obtain rfl : awake = false := hw
    exact ⟨.reporting f e true, by simp [turn, ho], rfl, rfl⟩
  | idle | received | stopped => cases h

end Dues

namespace Engine

variable {s t : Engine} {p : Party} {d : Delivery} {ds : List Delivery}

def parties (s : Engine) : List Party :=
  (s.calls.map Prod.fst).map .caller ++ [.remover, .listener]

/-- How many deliveries are still to be put on the queue, for now. -/
def outstanding (s : Engine) : Nat :=
  (s.parties.map fun p => (s.agenda p).length).sum

theorem mem_parties (h : s.agenda p ≠ []) : p ∈ s.parties := by
  cases p with
  | caller id =>
    refine List.mem_append_left _ (List.mem_map_of_mem ?_)
    cases hc : s.call? id with
    | none => exact absurd (agenda_of_none (p := .caller id) hc Party.noConfusion) h
    | some o =>
      obtain ⟨l₁, l₂, hl, _⟩ := List.lookup_eq_some_iff.mp hc
      exact List.mem_map.mpr ⟨(id, o), hl ▸ List.mem_append_right _ (.head _), rfl⟩
  | remover | listener => exact List.mem_append_right _ (by simp)

theorem parties_resume (h : act (.resume p) s = some t) : t.parties = s.parties := by
  cases p with
  | caller id =>
    simp only [act, resume, updateCall, Option.bind_eq_bind, Option.bind_eq_some_iff,
      Option.some.injEq] at h
    obtain ⟨_, _, ⟨o, c⟩, _, rfl⟩ := h
    rw [parties, map_fst_setCall, parties]
  | remover =>
    obtain ⟨_, _, rfl⟩ := Option.map_eq_some_iff.mp h
    rfl
  | listener =>
    obtain ⟨_, _, rfl⟩ := Option.map_eq_some_iff.mp h
    rfl

theorem exists_act_resume (h : s.agenda p = d :: ds) (hp : s.client.deliveries.stalls p = false)
    (hw : p = .remover → s.worker.isAwake = true) :
    ∃ t, act (.resume p) s = some t ∧ t.client = (s.client.send p d).2 := by
  cases p with
  | caller id =>
    cases hc : s.call? id with
    | none => simp [agenda, hc] at h
    | some o =>
      obtain ⟨o', ho⟩ := Operation.exists_resume (by simpa [agenda, hc] using h) hp
      exact ⟨s.setCall id o' _, by simp [act, resume, updateCall, hc, ho], rfl⟩
  | remover =>
    obtain ⟨w', hresume⟩ := Worker.exists_resume h (hw rfl) hp
    exact ⟨{ s with worker := w', client := _ }, by simp [act, resume, updateWorker, hresume], rfl⟩
  | listener =>
    cases hl : s.listener with
    | handling st =>
      obtain ⟨st', hst⟩ := Session.exists_resume
        (by simpa [agenda, hl, Listener.task?, Operation.agenda] using h) hp
      exact ⟨{ s with listener := .ofStage st', client := _ },
        by simp [act, resume, updateListener, Listener.update, hl, hst], rfl⟩
    | idle | stopped => simp [agenda, hl, Listener.task?] at h

theorem exists_wake (ho : s.client.closed = false) (h : s.agenda .remover = d :: ds)
    (hw : s.worker.isAwake = false) :
    ∃ t, act .turn s = some t ∧ t.worker.isAwake = true ∧ t.client = s.client ∧
      t.parties = s.parties ∧ ∀ p, t.agenda p = s.agenda p := by
  obtain ⟨w, hturn, hawake, hagenda⟩ := Worker.exists_wake h hw ho s.orphaned
  exact ⟨{ s with worker := w }, by simp only [act, updateWorker, hturn, Option.map_some], hawake,
    rfl, rfl, agenda_congr rfl hagenda rfl⟩

theorem outstanding_lt (hs : s.Orderly) (ho : s.client.closed = false)
    (h : act (.resume p) s = some t) (hd : s.agenda p = d :: ds) {q : Queue Delivery}
    (hq : s.client.deliveries.offer p d = .accepted q)
    (hc : t.client = (s.client.send p d).2) : t.outstanding < s.outstanding := by
  have hsend : s.client.send p d = (true, { s.client with deliveries := q }.note (.queued d)) := by
    simp only [Client.send, hq]
  have hitems : t.client.deliveries.items = s.client.deliveries.items ++ [d] := by
    rw [hc, hsend]
    exact Queue.items_of_accepted hq
  -- No other action than sending this delivery makes the queue longer.
  have hlonger : t.client.deliveries.items ≠ s.client.deliveries.items := by simp [hitems]
  obtain ⟨hnext, hothers⟩ : t.agenda p = ds ∧ ∀ p', p' ≠ p → t.agenda p' = s.agenda p' := by
    cases traffic_of_change hs (act_change ho h) with
    | idled connected idles => exact absurd (by rw [idles.deliveries]) hlonger
    | sent p' d' ds' party due client next others =>
      obtain rfl : p = p' := Option.some.inj party
      obtain ⟨rfl, rfl⟩ := List.cons.inj (hd.symm.trans due)
      rw [hsend] at next
      exact ⟨next, others⟩
    | withdrew p' due closed journal deliveries =>
      exact absurd (by rw [deliveries, Queue.items_withdraw]) hlonger
    | carried conduct d' q' action | silenced conduct action | performed d' action => cases action
  rw [outstanding, outstanding, parties_resume h]
  refine List.sum_lt_sum _ _ (fun p' _ => ?_) ⟨p, mem_parties (by simp [hd]), by simp [hnext, hd]⟩
  by_cases hp : p' = p
  · simp [hp, hnext, hd]
  · rw [hothers p' hp]

theorem Manned.exists_dispatch (h : s.Manned) (ho : s.client.closed = false)
    (conduct : Client → Call → Conduct) (hi : s.client.deliveries.items = d :: ds) :
    ∃ q, s.client.deliveries.take? = some (d, q) ∧ act (.dispatch conduct) s =
      some { s with client := { s.client with deliveries := q }.deliver conduct d } := by
  have hd : s.dispatching = true := by
    rcases h with hd | ⟨_, hnil⟩
    · exact hd.1
    · rw [hnil] at hi
      cases hi
  exact dispatch_of_cons hd ho hi conduct

/-- Something is done that waits neither for an answer nor for time: a party goes on with what it has
in hand, the background worker has its turn, or a delivery is carried out by user code that behaves
like this. -/
inductive Works (conduct : Client → Call → Conduct) (s t : Engine) : Prop
  | acted (a : Action) (own : (∃ p, a = .resume p) ∨ a = .turn ∨ a = .dispatch conduct)
    (act : act a s = some t) (opened : t.client.closed = false)

/-- The client is open, and its deliveries are carried out. -/
structure Flowing (s : Engine) : Prop where
  orderly : s.Orderly
  opened : s.client.closed = false
  manned : s.Manned

variable {conduct : Client → Call → Conduct}

theorem Flowing.act {a : Action} (h : s.Flowing) (ha : act a s = some t)
    (ho : t.client.closed = false) : t.Flowing :=
  ⟨orderly_act h.orderly ha, ho, manned_act h.orderly h.opened h.manned ha⟩

theorem Flowing.works (h : s.Flowing) (hs : Relation.ReflTransGen (Works conduct) s t) :
    t.Flowing := by
  induction hs with
  | refl => exact h
  | tail _ hstep ih =>
    obtain ⟨a, _, ha, ho⟩ := hstep
    exact ih.act ha ho

theorem Flowing.drain (h : s.Flowing) (hconduct : ∀ c x, .close ∉ (conduct c x).deeds) :
    ∃ t, Relation.ReflTransGen (Works conduct) s t ∧ t.client.deliveries.items = [] ∧
      t.outstanding = s.outstanding := by
  induction hi : s.client.deliveries.items generalizing s with
  | nil => exact ⟨s, .refl, hi, rfl⟩
  | cons d ds ih =>
    obtain ⟨q, htake, hact⟩ := h.manned.exists_dispatch h.opened conduct hi
    have hstays := Client.Stays.deliver hconduct { s.client with deliveries := q } d
    have hopened := hstays.closed.trans h.opened
    have hq : q.items = ds := (List.cons.inj ((Queue.items_take htake).symm.trans hi)).2
    obtain ⟨t, hrun, hnil, hsame⟩ := ih (h.act hact hopened) (by rw [← hq, hstays.deliveries])
    exact ⟨t, .head (.acted _ (.inr (.inr rfl)) hact hopened) hrun, hnil, hsame⟩

/-- With nothing on the queue, one of those who wait puts a delivery there. -/
theorem Flowing.relieve (h : s.Flowing) (conduct : Client → Call → Conduct)
    (hi : s.client.deliveries.items = []) (hp : s.agenda p ≠ []) :
    ∃ t, Relation.ReflTransGen (Works conduct) s t ∧ t.outstanding < s.outstanding := by
  obtain ⟨p, hp, hstalls, hwelcome⟩ := (h.manned.tidy_of_due hp).2.exists_welcome hi hp
  obtain ⟨d, ds, hd⟩ := List.exists_cons_of_ne_nil hp
  obtain ⟨q, hq⟩ := hwelcome d
  -- The background worker has to be awake to do anything.
  obtain ⟨u, hrun, hawake, hclient, hparties, hagenda⟩ : ∃ u,
      Relation.ReflTransGen (Works conduct) s u ∧ (p = .remover → u.worker.isAwake = true) ∧
        u.client = s.client ∧ u.parties = s.parties ∧ ∀ p, u.agenda p = s.agenda p := by
    by_cases hasleep : p = .remover ∧ s.worker.isAwake = false
    · obtain ⟨rfl, hw⟩ := hasleep
      obtain ⟨t, hact, hawake, hclient, hparties, hagenda⟩ := exists_wake h.opened hd hw
      exact ⟨t, .single (.acted .turn (.inr (.inl rfl)) hact (hclient ▸ h.opened)),
        fun _ => hawake, hclient, hparties, hagenda⟩
    · exact ⟨s, .refl, fun hr => by simpa [hr] using hasleep, rfl, rfl, fun _ => rfl⟩
  have hu := h.works hrun
  obtain ⟨t, hact, ht⟩ := exists_act_resume ((hagenda p).trans hd) (hclient ▸ hstalls) hawake
  have hlt := outstanding_lt hu.orderly hu.opened hact ((hagenda p).trans hd) (hclient ▸ hq) ht
  have hsame : u.outstanding = s.outstanding := by
    simp only [outstanding, hparties, hagenda]
  have hopened : t.client.closed = false := by
    rw [ht, Client.closed_send, hu.opened]
  exact ⟨t, hrun.tail (.acted _ (.inl ⟨p, rfl⟩) hact hopened), hsame ▸ hlt⟩

/-- Nothing is left on the queue, and nobody has anything to put there, for now. -/
theorem Flowing.clear (h : s.Flowing) (hconduct : ∀ c x, .close ∉ (conduct c x).deeds) :
    ∃ t, Relation.ReflTransGen (Works conduct) s t ∧ t.client.deliveries.items = [] ∧
      ∀ p, t.agenda p = [] := by
  -- What is on the queue is carried out, then one of those who wait gets onto it, and there is one
  -- delivery less to wait for.
  induction hn : s.outstanding using Nat.strong_induction_on generalizing s with
  | h n ih =>
    obtain ⟨u, hrun, hi, hsame⟩ := h.drain hconduct
    by_cases hdone : ∀ p, u.agenda p = []
    · exact ⟨u, hrun, hi, hdone⟩
    · obtain ⟨p, hp⟩ := not_forall.mp hdone
      obtain ⟨v, hmore, hlt⟩ := (h.works hrun).relieve conduct hi hp
      obtain ⟨t, hrest, ht⟩ := ih _ (by omega) ((h.works hrun).works hmore) rfl
      exact ⟨t, hrun.trans (hmore.trans hrest), ht⟩

end Engine

/-- User code behaves like this, and no call is given up. -/
def Patient (conduct : Client → Call → Conduct) (a : Engine.Action) : Prop :=
  (∀ id, a ≠ .abandon id) ∧ ∀ f, a = .dispatch f → f = conduct

namespace Carriage

variable {w : Carriage} {conduct : Client → Call → Conduct}

theorem run_of_works {t : Engine}
    (h : Relation.ReflTransGen (Engine.Works conduct) w.engine t) :
    ∃ w', Relation.ReflTransGen (Step (Patient conduct)) w w' ∧ w'.engine = t := by
  induction h with
  | refl => exact ⟨w, .refl, rfl⟩
  | tail _ hstep ih =>
    obtain ⟨v, hrun, rfl⟩ := ih
    obtain ⟨a, own, hact, hopened⟩ := hstep
    refine ⟨v.after a _, hrun.tail (.acted a _ ⟨?_, ?_⟩ hact hopened), rfl⟩
    · rcases own with ⟨p, rfl⟩ | rfl | rfl <;> exact nofun
    · rcases own with ⟨p, rfl⟩ | rfl | rfl
      · exact nofun
      · exact nofun
      · exact fun f hf => (Engine.Action.dispatch.inj hf).symm

theorem Intact.complete (h : w.Intact) (hconduct : ∀ c x, .close ∉ (conduct c x).deeds) :
    ∃ w', Relation.ReflTransGen (Step (Patient conduct)) w w' ∧
      w'.engine.client.deliveries.items = [] ∧ ∀ p, w'.engine.agenda p = [] := by
  have hflowing : w.engine.Flowing := ⟨h.orderly, h.opened, h.manned⟩
  obtain ⟨t, hworks, hi, hagenda⟩ := hflowing.clear hconduct
  obtain ⟨w', hrun, rfl⟩ := run_of_works hworks
  exact ⟨w', hrun, hi, hagenda⟩

theorem Intact.waits (h : w.Intact) {p : Party} {d : Delivery} {ds : List Delivery} {t : Engine}
    (hd : w.engine.agenda p = d :: ds) (hfull : w.engine.client.deliveries.room = 0)
    (hp : p ∉ w.engine.client.deliveries.admitted)
    (hact : Engine.act (.resume p) w.engine = some t) :
    t.agenda p = d :: ds ∧
      t.client.deliveries.items = w.engine.client.deliveries.items := by
  cases Engine.traffic_of_change h.orderly (Engine.act_change h.opened hact) with
  | idled connected idles agendas =>
    refine ⟨((agendas p).resolve_right (by simp [hd])).trans hd, ?_⟩
    rw [idles.deliveries]
  | sent p' d' ds' party due client next =>
    obtain rfl : p = p' := Option.some.inj party
    obtain ⟨rfl, rfl⟩ := List.cons.inj (hd.symm.trans due)
    have hopen := (h.manned.tidy_of_due (p := p) (by simp [hd])).2.isOpen
    have hsent := w.engine.client.sent p d
    generalize w.engine.client.send p d = x at hsent client next
    obtain ⟨done, c⟩ := x
    cases hsent with
    | dropped refused => exact absurd (hopen.symm.trans refused) nofun
    | queued q offer => exact absurd offer (Queue.not_accepted_of_full hfull hp)
    | lined q offer => exact ⟨next, by rw [client]; exact Queue.items_of_mustWait offer⟩
  | withdrew p' due closed journal deliveries gone others =>
    refine ⟨(others p fun he => ?_).trans hd, by rw [deliveries, Queue.items_withdraw]⟩
    rcases due with due | ⟨id, _, ha⟩
    · rw [← he, hd] at due
      cases due
    · cases ha
  | carried conduct d' q' action | silenced conduct action | performed d' action => cases action

structure Reliable (w : Carriage) : Prop where
  order : w.handed.map Prod.snd =
    w.carried.map Prod.snd ++ w.engine.client.deliveries.items
  calls : invocations w.engine.client.journal = w.carried.flatMap fun x => x.2.calls x.1
  called : Delivery.CarriedOut w.carried (invocations w.engine.client.journal)
  undropped : ∀ d, .dropped d ∉ w.engine.client.journal
  /-- The deliveries of one party are put on the queue one after another, and none is left out. -/
  sequence : ∀ (p : Party) (w' : Carriage), Relation.ReflTransGen (Step p.Keeps) w w' →
    w.sequence p <+: w'.sequence p
  waits : ∀ p d ds t, w.engine.agenda p = d :: ds → w.engine.client.deliveries.room = 0 →
    p ∉ w.engine.client.deliveries.admitted → Engine.act (.resume p) w.engine = some t →
    t.agenda p = d :: ds ∧ t.client.deliveries.items = w.engine.client.deliveries.items
  ready : ∀ conduct, w.engine.client.deliveries.items ≠ [] →
    (Engine.act (.dispatch conduct) w.engine).isSome = true
  /-- Whatever user code does, but to close the client, all that there is to carry out can still be
  carried out. -/
  complete : ∀ conduct : Client → Call → Conduct, (∀ c x, .close ∉ (conduct c x).deeds) →
    ∃ w', Relation.ReflTransGen (Step (Patient conduct)) w w' ∧
      w'.carried.map Prod.snd = w'.handed.map Prod.snd ∧
      ∀ p, w.sequence p <+: Engine.ofParty p w'.handed

/-- As long as the client is open, every delivery is carried out once, in the order in which it was put
on the queue, whatever becomes of the calls of user code. -/
theorem reliable {settings : Settings} {feed : Option Nat} {s : Engine}
    (hb : Engine.build settings feed = .built s)
    (h : Relation.ReflTransGen (Step fun _ => True) (opening s) w) : w.Reliable := by
  have hw := (intact_opening hb).run h
  refine ⟨hw.order, hw.calls, hw.calls ▸ Delivery.carriedOut_calls _, hw.undropped,
    fun p w' => hw.sequence_prefix, fun p d ds t => hw.waits, fun conduct hi => ?_,
    fun conduct hconduct => ?_⟩
  · obtain ⟨d, ds, hds⟩ := List.exists_cons_of_ne_nil hi
    obtain ⟨q, _, hact⟩ := hw.manned.exists_dispatch hw.opened conduct hds
    rw [hact]
    rfl
  · obtain ⟨w', hrun, hitems, hagenda⟩ := hw.complete hconduct
    refine ⟨w', hrun, ?_, fun p => ?_⟩
    · rw [(hw.run hrun).order, hitems, List.append_nil]
    · have hkeeps : Relation.ReflTransGen (Step p.Keeps) w w' := by
        refine Relation.ReflTransGen.mono (r := Step (Patient conduct)) (p := Step p.Keeps)
          (fun v v' hstep => ?_) _ _ hrun
        obtain ⟨a, t, hpatient, ha, ho⟩ := hstep
        exact .acted a t (fun id hid => absurd hid (hpatient.1 id)) ha ho
      have hprefix := hw.sequence_prefix hkeeps
      rwa [sequence.eq_def w', hagenda p, List.append_nil] at hprefix

/-- What comes of these actions, if each is possible and the client stays open. -/
def follow (as : List Engine.Action) (w : Carriage) : Option Carriage :=
  as.foldlM (fun w a => (Engine.act a w.engine).bind fun t =>
    if t.client.closed then none else some (w.after a t)) w

theorem run_of_follow {as : List Engine.Action} {w' : Carriage} (h : follow as w = some w') :
    Relation.ReflTransGen (Step fun _ => True) w w' := by
  refine run_of_foldlM (fun a _ w w' hw => ?_) h
  obtain ⟨t, ht, hw⟩ := Option.bind_eq_some_iff.mp hw
  obtain ⟨ho, hw⟩ := Option.ite_none_left_eq_some.mp hw
  exact Option.some.inj hw ▸ .acted a t trivial ht (by simpa using ho)

/-- The queue has one place, and every call of a listener panics: the connection is lost, and the one
who reports that it is back waits until the listeners were told. -/
theorem reliable_under_panics :
    ∃ s w, Engine.build { eventQueueSize := 1 } none = .built s ∧
      Relation.ReflTransGen (Step fun _ => True) (opening s) w ∧ w.Reliable ∧
      invocations w.engine.client.journal =
        [.listener "l" (.watched (.linkChange .disconnected) none),
          .listener "m" (.watched (.linkChange .disconnected) none),
          .listener "l" (.watched (.linkChange .syncConnected) none),
          .listener "m" (.watched (.linkChange .syncConnected) none)] := by
  have hb : Engine.build { eventQueueSize := 1 } none =
      .built (.initial { eventQueueSize := 1 } ⟨1, [], [], [], true⟩ ⟨256, [], [], [], true⟩ none) :=
    rfl
  have hrun : (follow [.perform (.addListener "l"), .perform (.addListener "m"),
      .begin (.session .disconnected), .resume (.caller 0), .begin (.session .reconnected),
      .resume (.caller 1), .dispatch fun _ _ => { ending := .panics none }, .resume (.caller 1),
      .dispatch fun _ _ => { ending := .panics none }]
        (opening (.initial { eventQueueSize := 1 } ⟨1, [], [], [], true⟩ ⟨256, [], [], [], true⟩
          none))).any (fun w => decide (invocations w.engine.client.journal =
        [.listener "l" (.watched (.linkChange .disconnected) none),
          .listener "m" (.watched (.linkChange .disconnected) none),
          .listener "l" (.watched (.linkChange .syncConnected) none),
          .listener "m" (.watched (.linkChange .syncConnected) none)])) = true := by
    decide +kernel
  obtain ⟨w, hw, hcalls⟩ := (Option.any_eq_true _ _).mp hrun
  have hsteps := run_of_follow hw
  exact ⟨_, w, hb, hsteps, reliable hb hsteps, of_decide_eq_true hcalls⟩

end Carriage

end NodeWatch
